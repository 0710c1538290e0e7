import MiniLisp.Proofs.ListLibrary.Scope

/-!
# Concatenation and leaves

`append` is a `foldr` with `cons`, so what stands at the end of the result is the second argument
whatever it is: its items if it is a list, and else itself.  `flatten` goes down both into the first
item of a list and into the list of the others, and puts the two results together by `append`.

## Main statement

* `ListLibrary.append_joins_flatten_leaves`: what the two procedures answer, for all lists and
  values.
-/

namespace MiniLisp

/-!
# Lists that are joined, and leaves
-/

namespace Value

variable {β : Type}

/-- What the items of a list and a value after them make: the items of both if the value is a list,
the items with the value as a further one if not, and the value itself if there are no items. -/
structure Joins (xs : List (Value β)) (ys v : Value β) : Prop where
  list : ∀ items, ys.items? = some items → v.items? = some (xs ++ items)
  alone : ys.items? = none → xs = [] → v = ys
  last : ys.items? = none → xs ≠ [] → v.items? = some (xs ++ [ys])

theorem joins_nil (ys : Value β) : Joins [] ys ys where
  list := fun _ h => h
  alone := fun _ _ => rfl
  last := fun _ h => absurd rfl h

theorem Joins.cons {xs : List (Value β)} {ys v w : Value β} (h : Joins xs ys v) {x : Value β}
    (hw : w.items? = some (Primitive.consItems x v)) :
    Joins (x :: xs) ys w where
  list := by
    intro items hitems
    rw [hw, Primitive.consItems_of_items? (h.list items hitems)]
    rfl
  alone := fun _ => nofun
  last := by
    intro hys _
    cases xs with
    | nil =>
        rw [hw, h.alone hys rfl, Primitive.consItems_of_not_list hys]
        rfl
    | cons y xs =>
        rw [hw, Primitive.consItems_of_items? (h.last hys nofun)]
        rfl

mutual

/-- What is not a list in a value, at any depth, from left to right. -/
def leaves : Value β → List (Value β)
  | .list _ items => leavesEach items
  | v => [v]

def leavesEach : List (Value β) → List (Value β)
  | [] => []
  | v :: rest => leaves v ++ leavesEach rest

end

mutual

theorem items?_of_mem_leaves {v x : Value β} (h : x ∈ v.leaves) : x.items? = none := by
  cases v with
  | list id items => exact items?_of_mem_leavesEach h
  | _ =>
      rw [List.mem_singleton.mp h]
      rfl

theorem items?_of_mem_leavesEach {vs : List (Value β)} {x : Value β} (h : x ∈ leavesEach vs) :
    x.items? = none := by
  cases vs with
  | nil => cases h
  | cons v rest =>
      cases List.mem_append.mp h with
      | inl h => exact items?_of_mem_leaves h
      | inr h => exact items?_of_mem_leavesEach h

end

theorem leavesEach_eq_self {vs : List (Value β)} (h : ∀ v ∈ vs, v.items? = none) :
    leavesEach vs = vs := by
  induction vs with
  | nil => rfl
  | cons v rest ih =>
      have hv : v.leaves = [v] := by
        have hnone := h v (.head _)
        cases v with
        | list id items => cases hnone
        | _ => rfl
      rw [leavesEach, hv, ih fun w hw => h w (.tail _ hw)]
      rfl

theorem leavesEach_leaves (v : Value β) : leavesEach v.leaves = v.leaves :=
  leavesEach_eq_self fun _ => items?_of_mem_leaves

end Value

/-!
# What the procedures give
-/

namespace ListLibrary
namespace Copy

variable {c : Copy} {s : Store Code}

theorem gives_foldr (hs : c.InScope s c.global) {f init : Val} {P : List Val → Val → Prop}
    (hinit : P [] init) (hf : ∀ x xs r, P xs r → f.Gives [x, r] s (P (x :: xs)))
    {xs : List Val} {v : Val} (hv : v.items? = some xs) :
    (c.procedure .foldr).Gives [f, init, v] s (P xs) := by
  induction xs generalizing v with
  | nil =>
      rcases Value.items?_eq_some_iff.mp hv with ⟨id, rfl⟩
      apply gives_procedure hs
      intro t env hin
      have hresult : (var "init").Gives env t (· = init) := hin.gives_parameter rfl
      have hxs : (var "xs").Gives env t (· = .list id []) := hin.gives_parameter rfl
      refine .consequent (hin.scope.null_call hxs) (hresult.imp ?_)
      rintro _ rfl
      exact hinit
  | cons x xs ih =>
      rcases Value.items?_eq_some_iff.mp hv with ⟨id, rfl⟩
      apply gives_procedure hs
      intro t env hin
      have hfunction : (var "f").Gives env t (· = f) := hin.gives_parameter rfl
      have hresult : (var "init").Gives env t (· = init) := hin.gives_parameter rfl
      have hxs : (var "xs").Gives env t (· = .list id (x :: xs)) := hin.gives_parameter rfl
      have hrest : (Procedure.foldr.call [var "f", var "init", Primitive.cdr.call [var "xs"]]).Gives
          env t (P xs) := by
        apply Code.Gives.application_three (hin.scope.gives_procedure .foldr) hfunction hresult
          (hin.scope.cdr_call hxs)
        rintro _ _ w rfl rfl hw
        exact (ih hw).of_undisturbed hin.undisturbed
      refine .alternative (hin.scope.null_call hxs) ?_
      apply Code.Gives.application_two hfunction (hin.scope.car_call hxs) hrest
      rintro _ r rfl hr
      exact (hf _ xs r hr).of_undisturbed hin.undisturbed

theorem gives_append (hs : c.InScope s c.global) {xs : List Val} {v : Val}
    (hv : v.items? = some xs) (ys : Val) :
    (c.procedure .append).Gives [v, ys] s (Value.Joins xs ys) := by
  have hfoldr : (c.procedure .foldr).Gives [.primitive .cons, ys, v] s (Value.Joins xs ys) := by
    apply gives_foldr (P := fun xs => Value.Joins xs ys) hs (Value.joins_nil ys) _ hv
    intro x xs r hr
    exact (Value.gives_cons x r).imp fun _ hw => hr.cons hw
  apply gives_procedure hs
  intro t env hin
  have hxs : (var "xs").Gives env t (· = v) := hin.gives_parameter rfl
  have hys : (var "ys").Gives env t (· = ys) := hin.gives_parameter rfl
  apply Code.Gives.application_three (hin.scope.gives_procedure .foldr)
    (hin.scope.gives_primitive .cons) hys hxs
  intro f init list hf hinit hlist
  rw [hf, hinit, hlist]
  exact hfoldr.of_undisturbed hin.undisturbed

mutual

theorem gives_flatten (hs : c.InScope s c.global) (x : Val) :
    (c.procedure .flatten).Gives [x] s (·.items? = some x.leaves) := by
  cases x with
  | list id items => exact gives_flatten_list hs id items
  | _ =>
      apply gives_procedure hs
      intro t env hin
      have hx := hin.gives_parameter (x := "x") rfl
      refine .alternative (hin.scope.null_call hx) (.alternative (hin.scope.pair_call hx) ?_)
      exact .consequent (Code.gives_literal _) (hin.scope.list_call hx)

theorem gives_flatten_list (hs : c.InScope s c.global) (id : Identity) (items : List Val) :
    (c.procedure .flatten).Gives [.list id items] s
      (·.items? = some (Value.leavesEach items)) := by
  cases items with
  | nil =>
      apply gives_procedure hs
      intro t env hin
      have hx : (var "x").Gives env t (· = .list id []) := hin.gives_parameter rfl
      exact .consequent (hin.scope.null_call hx) (gives_nil _)
  | cons y ys =>
      apply gives_procedure hs
      intro t env hin
      have hx : (var "x").Gives env t (· = .list id (y :: ys)) := hin.gives_parameter rfl
      have hfirst : (Procedure.flatten.call [Primitive.car.call [var "x"]]).Gives env t
          (·.items? = some y.leaves) := by
        apply Code.Gives.application_one (hin.scope.gives_procedure .flatten)
          (hin.scope.car_call hx)
        intro v hv
        rw [hv]
        exact (gives_flatten hs y).of_undisturbed hin.undisturbed
      have hrest : (Procedure.flatten.call [Primitive.cdr.call [var "x"]]).Gives env t
          (·.items? = some (Value.leavesEach ys)) := by
        apply Code.Gives.application_one (hin.scope.gives_procedure .flatten)
          (hin.scope.cdr_call hx)
        intro v hv
        rcases Value.items?_eq_some_iff.mp hv with ⟨j, rfl⟩
        exact (gives_flatten_list hs j ys).of_undisturbed hin.undisturbed
      refine .alternative (hin.scope.null_call hx) (.consequent (hin.scope.pair_call hx) ?_)
      apply Code.Gives.application_two (hin.scope.gives_procedure .append) hfirst hrest
      intro v w hv hw
      have happend := (gives_append hs hv w).of_undisturbed hin.undisturbed
      exact happend.imp fun _ hjoins => hjoins.list _ hw

end

end Copy

/-- Where the library is in use: `append` joins the items of a list and whatever comes after them,
and `flatten` makes a list of the leaves of a value, which a second `flatten` leaves as it is. -/
theorem append_joins_flatten_leaves {top : Toplevel} {s : Store Code} {env : Env}
    (h : top.KeepsLibrary s env) :
    (∀ (id : Identity) (xs : List Val) (ys : Val),
      (Procedure.append.call [.literal (.list id xs), .literal ys]).Answers env s
        (Value.Joins xs ys)) ∧
    (∀ x : Val,
      (Procedure.flatten.call [.literal x]).Answers env s (·.items? = some x.leaves) ∧
      (Procedure.flatten.call [Procedure.flatten.call [.literal x]]).Answers env s
        (·.items? = some x.leaves)) := by
  rcases h.exists_inScope with ⟨c, hc, henv⟩
  constructor
  · intro id xs ys
    apply Code.Gives.answers
    apply Code.Gives.application_two (henv.gives_procedure .append)
      (Code.gives_literal (.list id xs)) (Code.gives_literal ys)
    intro v w hv hw
    rw [hv, hw]
    exact Copy.gives_append hc rfl ys
  · intro x
    have honce : (Procedure.flatten.call [.literal x]).Gives env s (·.items? = some x.leaves) := by
      apply Code.Gives.application_one (henv.gives_procedure .flatten) (Code.gives_literal x)
      rintro _ rfl
      exact Copy.gives_flatten hc _
    refine ⟨honce.answers, Code.Gives.answers ?_⟩
    apply Code.Gives.application_one (henv.gives_procedure .flatten) honce
    intro v hv
    rcases Value.items?_eq_some_iff.mp hv with ⟨id, rfl⟩
    have hagain := Copy.gives_flatten_list hc id x.leaves
    rw [Value.leavesEach_leaves] at hagain
    exact hagain

theorem append_joins_flatten_leaves_nested :
    ∃ top s, Toplevel.KeepsLibrary top s top.global ∧
      s.lookup? top.global ⟨"x"⟩ = some .undefined ∧
      (Procedure.append.call [.literal (.list 0 [.bool true]),
          .literal (.symbol ⟨"a"⟩)]).Answers top.global s
        (·.items? = some [.bool true, .symbol ⟨"a"⟩]) ∧
      (Procedure.flatten.call [.literal (.list 0 [.list 1 [], .symbol ⟨"a"⟩,
          .list 2 [.list 3 [.undefined], .list 4 []], .primitive .cons])]).Answers top.global s
        (·.items? = some [.symbol ⟨"a"⟩, .undefined, .primitive .cons]) := by
  have hx : (⟨"x"⟩ : Symbol) ∉ names := by
    decide
  rcases Toplevel.exists_keepsLibrary hx .undefined with ⟨top, s, h, hlookup⟩
  have hall := append_joins_flatten_leaves h
  refine ⟨top, s, h, hlookup, ?_, (hall.2 _).1⟩
  rcases hall.1 0 [.bool true] (.symbol ⟨"a"⟩) with ⟨least, v, t, hrun, hst, hv⟩
  exact ⟨least, v, t, hrun, hst, hv.last rfl nofun⟩

end ListLibrary
end MiniLisp
