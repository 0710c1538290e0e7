import MiniLisp.Proofs.ListLibrary.Scope

/-!
# Membership, removal and repetitions

`elem?`, `remove` and `unique` compare items by `eq?`, so lists and procedures by identity, and what
is not a number is not even identical to itself.  `unique` removes from the rest of a list what is
identical to its first item and goes on with what is left; this keeps the items that are not
identical to one kept before them.

## Main statement

* `ListLibrary.membership_by_identity`: what the three procedures answer, for all values and lists.
-/

namespace MiniLisp

/-!
# Items kept from left to right
-/

namespace Value

variable {x : Val} {xs kept : List Val}

def keep (kept : List Val) (y : Val) : List Val :=
  if kept.any fun k => k.identical y then kept else kept ++ [y]

/-- The items of a list, in order, that are not identical to one kept before them. -/
def distinct (xs : List Val) : List Val :=
  xs.foldl keep []

theorem foldl_keep_cons (x : Val) (kept xs : List Val) :
    xs.foldl keep (x :: kept) =
      x :: (xs.filter fun y => !x.identical y).foldl keep kept := by
  induction xs generalizing kept with
  | nil => rfl
  | cons y ys ih =>
      rw [List.foldl_cons]
      cases hxy : x.identical y with
      | true =>
          have hkeep : keep (x :: kept) y = x :: kept := by
            unfold keep
            rw [List.any_cons, hxy, Bool.true_or, if_pos rfl]
          rw [hkeep, ih, List.filter_cons_of_neg (by rw [hxy]; exact nofun)]
      | false =>
          have hkeep : keep (x :: kept) y = x :: keep kept y := by
            unfold keep
            rw [List.any_cons, hxy, Bool.false_or]
            split <;> rfl
          rw [hkeep, ih, List.filter_cons_of_pos (by rw [hxy]; rfl), List.foldl_cons]

theorem distinct_cons (x : Val) (xs : List Val) :
    distinct (x :: xs) = x :: distinct (xs.filter fun y => !x.identical y) :=
  foldl_keep_cons x [] xs

def Unrepeated (xs : List Val) : Prop :=
  xs.Pairwise fun x y => x.identical y = false

theorem unrepeated_keep (h : Unrepeated kept) (y : Val) : Unrepeated (keep kept y) := by
  unfold keep
  split
  · exact h
  · rename_i hany
    refine List.pairwise_append.mpr ⟨h, List.pairwise_singleton _ y, ?_⟩
    intro k hk z hz
    rw [List.mem_singleton.mp hz]
    rw [List.any_eq_true] at hany
    exact Bool.eq_false_iff.mpr fun hky => hany ⟨k, hk, hky⟩

theorem unrepeated_distinct (xs : List Val) : Unrepeated (distinct xs) :=
  List.foldlRecOn xs keep .nil fun _ h y _ => unrepeated_keep h y

theorem distinct_of_unrepeated (h : Unrepeated xs) : distinct xs = xs := by
  induction xs with
  | nil => rfl
  | cons x xs ih =>
      rcases List.pairwise_cons.mp h with ⟨hx, hxs⟩
      have hfilter : xs.filter (fun y => !x.identical y) = xs := by
        apply List.filter_eq_self.mpr
        intro y hy
        rw [hx y hy]
        rfl
      rw [distinct_cons, hfilter, ih hxs]

theorem distinct_distinct (xs : List Val) : distinct (distinct xs) = distinct xs :=
  distinct_of_unrepeated (unrepeated_distinct xs)

end Value

/-!
# What the procedures give
-/

namespace ListLibrary
namespace Copy

variable {c : Copy} {s : Store Code} {v : Val} {xs : List Val}

theorem gives_elem (hs : c.InScope s c.global) (x : Val) (hv : v.items? = some xs) :
    (c.procedure .elem).Gives [x, v] s (· = .bool (xs.any fun y => x.identical y)) := by
  induction xs generalizing v with
  | nil =>
      rcases Value.items?_eq_some_iff.mp hv with ⟨id, rfl⟩
      apply gives_procedure hs
      intro t env hin
      have hxs : (var "xs").Gives env t (· = .list id []) := hin.gives_parameter rfl
      exact .consequent (hin.scope.null_call hxs) (Code.gives_literal _)
  | cons y ys ih =>
      rcases Value.items?_eq_some_iff.mp hv with ⟨id, rfl⟩
      apply gives_procedure hs
      intro t env hin
      have hx : (var "x").Gives env t (· = x) := hin.gives_parameter rfl
      have hxs : (var "xs").Gives env t (· = .list id (y :: ys)) := hin.gives_parameter rfl
      have htest := hin.scope.identical_call hx (hin.scope.car_call hxs)
      refine .alternative (hin.scope.null_call hxs) ?_
      rw [List.any_cons]
      cases hxy : x.identical y with
      | true =>
          rw [hxy] at htest
          exact .consequent htest (Code.gives_literal _)
      | false =>
          rw [hxy] at htest
          refine .alternative htest (.consequent (Code.gives_literal _) ?_)
          apply Code.Gives.application_two (hin.scope.gives_procedure .elem) hx
            (hin.scope.cdr_call hxs)
          rintro _ w rfl hw
          exact (ih hw).of_undisturbed hin.undisturbed

theorem gives_remove (hs : c.InScope s c.global) (x : Val) (hv : v.items? = some xs) :
    (c.procedure .remove).Gives [x, v] s
      (·.items? = some (xs.filter fun y => !x.identical y)) := by
  induction xs generalizing v with
  | nil =>
      rcases Value.items?_eq_some_iff.mp hv with ⟨id, rfl⟩
      apply gives_procedure hs
      intro t env hin
      have hxs : (var "xs").Gives env t (· = .list id []) := hin.gives_parameter rfl
      exact .consequent (hin.scope.null_call hxs) (gives_nil _)
  | cons y ys ih =>
      rcases Value.items?_eq_some_iff.mp hv with ⟨id, rfl⟩
      apply gives_procedure hs
      intro t env hin
      have hx : (var "x").Gives env t (· = x) := hin.gives_parameter rfl
      have hxs : (var "xs").Gives env t (· = .list id (y :: ys)) := hin.gives_parameter rfl
      have hcar := hin.scope.car_call hxs
      have htest := hin.scope.identical_call hx hcar
      have hrest : (Procedure.remove.call [var "x", Primitive.cdr.call [var "xs"]]).Gives env t
          (·.items? = some (ys.filter fun y => !x.identical y)) := by
        apply Code.Gives.application_two (hin.scope.gives_procedure .remove) hx
          (hin.scope.cdr_call hxs)
        rintro _ w rfl hw
        exact (ih hw).of_undisturbed hin.undisturbed
      refine .alternative (hin.scope.null_call hxs) ?_
      cases hxy : x.identical y with
      | true =>
          rw [hxy] at htest
          rw [List.filter_cons_of_neg (by rw [hxy]; exact nofun)]
          exact .consequent htest hrest
      | false =>
          rw [hxy] at htest
          rw [List.filter_cons_of_pos (by rw [hxy]; rfl)]
          exact .alternative htest
            (.consequent (Code.gives_literal _) (hin.scope.cons_call hcar hrest))

/-- The recursion is on the length, since `unique` goes on with what `remove` gives. -/
theorem gives_unique (hs : c.InScope s c.global) (hv : v.items? = some xs) :
    (c.procedure .unique).Gives [v] s (·.items? = some (Value.distinct xs)) := by
  induction hn : xs.length using Nat.strong_induction_on generalizing v xs with
  | _ n ih =>
      rcases Value.items?_eq_some_iff.mp hv with ⟨id, rfl⟩
      apply gives_procedure hs
      intro t env hin
      cases xs with
      | nil =>
          have hxs : (var "xs").Gives env t (· = .list id []) := hin.gives_parameter rfl
          exact .consequent (hin.scope.null_call hxs) (gives_nil _)
      | cons y ys =>
          have hxs : (var "xs").Gives env t (· = .list id (y :: ys)) := hin.gives_parameter rfl
          have hcar := hin.scope.car_call hxs
          have hshort : (ys.filter fun z => !y.identical z).length < n := by
            rw [← hn, List.length_cons]
            exact Nat.lt_succ_of_le (List.length_filter_le _ ys)
          refine .alternative (hin.scope.null_call hxs) ?_
          rw [Value.distinct_cons]
          have hleft : (Procedure.remove.call
              [Primitive.car.call [var "xs"], Primitive.cdr.call [var "xs"]]).Gives env t
              (·.items? = some (ys.filter fun z => !y.identical z)) := by
            apply Code.Gives.application_two (hin.scope.gives_procedure .remove) hcar
              (hin.scope.cdr_call hxs)
            intro z w hz hw
            rw [hz]
            exact (gives_remove hs y hw).of_undisturbed hin.undisturbed
          apply hin.scope.cons_call hcar
          apply Code.Gives.application_one (hin.scope.gives_procedure .unique) hleft
          intro w hw
          exact (ih _ hshort hw rfl).of_undisturbed hin.undisturbed

end Copy

/-- Where the library is in use: `elem?` says whether some item is identical to a value, `remove`
leaves the items that are not, and `unique` the items that are not identical to one kept before
them, so that a second `unique` changes nothing. -/
theorem membership_by_identity {top : Toplevel} {s : Store Code} {env : Env}
    (h : top.KeepsLibrary s env) (x : Val) (id : Identity) (xs : List Val) :
    (Procedure.elem.call [.literal x, .literal (.list id xs)]).Answers env s
        (· = .bool (xs.any fun y => x.identical y)) ∧
      (Procedure.remove.call [.literal x, .literal (.list id xs)]).Answers env s
        (·.items? = some (xs.filter fun y => !x.identical y)) ∧
      (Procedure.unique.call [.literal (.list id xs)]).Answers env s
        (·.items? = some (Value.distinct xs)) ∧
      (Procedure.unique.call [Procedure.unique.call [.literal (.list id xs)]]).Answers env s
        (·.items? = some (Value.distinct xs)) := by
  rcases h.exists_inScope with ⟨c, hc, henv⟩
  have hx : (Code.literal x).Gives env s (· = x) := Code.gives_literal x
  have hxs : (Code.literal (.list id xs)).Gives env s (·.items? = some xs) := gives_list id xs
  have hunique : ∀ {a : Code} {ys : List Val}, a.Gives env s (·.items? = some ys) →
      (Procedure.unique.call [a]).Gives env s (·.items? = some (Value.distinct ys)) :=
    fun ha => .application_one (henv.gives_procedure .unique) ha fun _ hv => Copy.gives_unique hc hv
  refine ⟨Code.Gives.answers ?_, Code.Gives.answers ?_, (hunique hxs).answers, ?_⟩
  · apply Code.Gives.application_two (henv.gives_procedure .elem) hx hxs
    rintro _ v rfl hv
    exact Copy.gives_elem hc _ hv
  · apply Code.Gives.application_two (henv.gives_procedure .remove) hx hxs
    rintro _ v rfl hv
    exact Copy.gives_remove hc _ hv
  · have htwice := hunique (hunique hxs)
    rw [Value.distinct_distinct] at htwice
    exact htwice.answers

theorem membership_by_identity_separate :
    ∃ top s, Toplevel.KeepsLibrary top s top.global ∧
      s.lookup? top.global ⟨"xs"⟩ = some .undefined ∧
      (Procedure.elem.call [.literal (.list 3 []),
          .literal (.list 0 [.list 1 [], .list 2 []])]).Answers top.global s
        (· = .bool false) ∧
      (Procedure.unique.call [.literal (.list 0 [.list 1 [], .number (0 / 0), .list 2 [],
          .list 1 [], .number (0 / 0)])]).Answers top.global s
        (·.items? = some [.list 1 [], .number (0 / 0), .list 2 [], .number (0 / 0)]) := by
  have hx : (⟨"xs"⟩ : Symbol) ∉ names := by
    decide
  rcases Toplevel.exists_keepsLibrary hx .undefined with ⟨top, s, h, hlookup⟩
  refine ⟨top, s, h, hlookup, ?_, ?_⟩
  · exact (membership_by_identity h (.list 3 []) 0 [.list 1 [], .list 2 []]).1
  · exact (membership_by_identity h .undefined 0 [.list 1 [], .number (0 / 0), .list 2 [],
      .list 1 [], .number (0 / 0)]).2.2.1

end ListLibrary
end MiniLisp
