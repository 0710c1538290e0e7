import MiniLisp.Proofs.Code.Failing
import MiniLisp.Proofs.ListLibrary.Scope

/-!
# Lengths, last items, and what is not a list

`length` adds one to zero for every item, and `last` looks for the item that nothing follows.  Only
an empty list is `null?`, so a procedure that gets something else in place of its list goes on to
take it apart, by `car` or by `cdr`, before it does anything else that shows; this fails, and with
it the call.  So no procedure goes on forever, and a missing list is refused like any other value
that is not one.

## Main statement

* `ListLibrary.length_last_and_refusals`: what `length` and `last` answer for all lists, and what
  the procedures that take a list report for all else.
-/

namespace MiniLisp

theorem Frame.find?_bindAll_of_nodup {β : Type} {F : Frame β} {ps : List Symbol} {k : Nat}
    {x : Symbol} (hps : ps.Nodup) (hk : ps[k]? = some x) (vs : List (Value β)) :
    (F.bindAll ps vs).find? x = some (Primitive.argument vs k) := by
  induction ps generalizing F k vs with
  | nil => cases hk
  | cons p ps ih =>
      rcases List.nodup_cons.mp hps with ⟨hp, hps⟩
      cases k with
      | zero =>
          cases hk
          cases vs with
          | nil =>
              apply (Frame.find?_bindAll_of_not_mem hp []).trans
              rw [Frame.find?_bind, if_pos rfl]
              rfl
          | cons v vs =>
              apply (Frame.find?_bindAll_of_not_mem hp vs).trans
              rw [Frame.find?_bind, if_pos rfl]
              rfl
      | succ k =>
          cases vs with
          | nil => exact ih hps hk []
          | cons v vs => exact ih hps hk vs

theorem Value.isNull_of_not_list {v : Val} (h : v.items? = none) : v.isNull = false := by
  cases v with
  | list id items => cases h
  | _ => rfl

namespace ListLibrary

/-- The position of the argument that a procedure takes for a list, and the primitive by which it
takes that argument apart first.  Only `flatten` takes any value. -/
def Procedure.takesApart? : Procedure → Option (Nat × Primitive)
  | .length | .last | .reverse => some (0, .cdr)
  | .append | .unique => some (0, .car)
  | .elem | .map | .remove => some (1, .car)
  | .foldr => some (2, .car)
  | .flatten => none

section

variable {p : Procedure} {q : Primitive} {k : Nat}

theorem Procedure.nodup_parameters (p : Procedure) : p.parameters.Nodup := by
  cases p <;> decide

theorem Procedure.getElem?_parameters (h : p.takesApart? = some (k, q)) :
    p.parameters[k]? = some ⟨"xs"⟩ := by
  cases p <;> cases h <;> rfl

theorem Procedure.eq_car_or_cdr (h : p.takesApart? = some (k, q)) : q = .car ∨ q = .cdr := by
  cases p <;> cases h <;> decide

end

def refusal (q : Primitive) (v : Val) : Fault.Cause :=
  .wrongType q.name "list" v.shown

theorem fails_of_not_list {q : Primitive} (hq : q = .car ∨ q = .cdr) {v : Val}
    (hv : v.items? = none) {s : Store Code} :
    (Value.primitive q).Fails [v] s (refusal q v) := by
  have hitems : Primitive.items q v = .error (refusal q v) := by
    cases v with
    | list id items => cases hv
    | _ => rfl
  apply Value.fails_of_apply_eq
  intro t
  cases hq with
  | inl hcar =>
      cases hcar
      change (Run.ofExcept (Primitive.items .car v) >>= _) t = _
      rw [hitems]
      rfl
  | inr hcdr =>
      cases hcdr
      change (Run.ofExcept (Primitive.items .cdr v) >>= _) t = _
      rw [hitems]
      rfl

namespace Copy

variable {c : Copy} {s t : Store Code} {env inner : Env} {v w : Val} {vs xs : List Val}
  {p : Procedure} {q : Primitive} {k : Nat} {cause : Fault.Cause}

/-!
# Lengths and last items
-/

theorem gives_length (hs : c.InScope s c.global) (hv : v.items? = some xs) :
    (c.procedure .length).Gives [v] s (· = .number ((fun x => 1 + x)^[xs.length] 0)) := by
  induction xs generalizing v with
  | nil =>
      rcases Value.items?_eq_some_iff.mp hv with ⟨id, rfl⟩
      apply gives_procedure hs
      intro t env hin
      have hxs : (var "xs").Gives env t (· = .list id []) := hin.gives_parameter rfl
      exact .consequent (hin.scope.null_call hxs) (Code.gives_literal _)
  | cons y ys ih =>
      rcases Value.items?_eq_some_iff.mp hv with ⟨id, rfl⟩
      apply gives_procedure hs
      intro t env hin
      have hxs : (var "xs").Gives env t (· = .list id (y :: ys)) := hin.gives_parameter rfl
      have hrest : (Procedure.length.call [Primitive.cdr.call [var "xs"]]).Gives env t
          (· = .number ((fun x => 1 + x)^[ys.length] 0)) := by
        apply Code.Gives.application_one (hin.scope.gives_procedure .length)
          (hin.scope.cdr_call hxs)
        intro w hw
        exact (ih hw).of_undisturbed hin.undisturbed
      refine .alternative (hin.scope.null_call hxs) ?_
      rw [List.length_cons, Function.iterate_succ_apply']
      apply Code.Gives.application_two (hin.scope.gives_primitive .add) (Code.gives_literal _) hrest
      rintro _ _ rfl rfl
      exact Value.gives_of_apply_eq fun _ => rfl

theorem gives_last_nil (hs : c.InScope s c.global) (hv : v.items? = some []) :
    (c.procedure .last).Gives [v] s (·.items? = some []) := by
  rcases Value.items?_eq_some_iff.mp hv with ⟨id, rfl⟩
  apply gives_procedure hs
  intro t env hin
  have hxs : (var "xs").Gives env t (· = .list id []) := hin.gives_parameter rfl
  exact .consequent (hin.scope.null_call hxs) (gives_nil _)

theorem gives_last (hs : c.InScope s c.global) {x : Val} (hv : v.items? = some (xs ++ [x])) :
    (c.procedure .last).Gives [v] s (· = x) := by
  induction xs generalizing v with
  | nil =>
      rcases Value.items?_eq_some_iff.mp hv with ⟨id, rfl⟩
      apply gives_procedure hs
      intro t env hin
      have hxs : (var "xs").Gives env t (· = .list id [x]) := hin.gives_parameter rfl
      have htest : (Primitive.null.call [Primitive.cdr.call [var "xs"]]).Gives env t
          (· = .bool true) := by
        apply Code.Gives.application_one (hin.scope.gives_primitive .null)
          (hin.scope.cdr_call hxs)
        intro w hw
        rcases Value.items?_eq_some_iff.mp hw with ⟨j, rfl⟩
        exact Value.gives_of_apply_eq fun _ => rfl
      exact .alternative (hin.scope.null_call hxs) (.consequent htest (hin.scope.car_call hxs))
  | cons y ys ih =>
      rcases Value.items?_eq_some_iff.mp hv with ⟨id, rfl⟩
      apply gives_procedure hs
      intro t env hin
      have hxs : (var "xs").Gives env t (· = .list id (y :: (ys ++ [x]))) :=
        hin.gives_parameter rfl
      have hcdr := hin.scope.cdr_call hxs
      have htest : (Primitive.null.call [Primitive.cdr.call [var "xs"]]).Gives env t
          (· = .bool false) := by
        apply Code.Gives.application_one (hin.scope.gives_primitive .null) hcdr
        intro w hw
        rcases Value.items?_eq_some_iff.mp hw with ⟨j, rfl⟩
        refine Value.gives_of_apply_eq fun _ => ?_
        cases ys <;> rfl
      have hrest : (Procedure.last.call [Primitive.cdr.call [var "xs"]]).Gives env t (· = x) := by
        apply Code.Gives.application_one (hin.scope.gives_procedure .last) hcdr
        intro w hw
        exact (ih hw).of_undisturbed hin.undisturbed
      refine .alternative (hin.scope.null_call hxs) (.alternative htest ?_)
      exact .consequent (Code.gives_literal _) hrest

/-!
# What is not a list
-/

theorem fails_closure {ps : List Symbol} {id : Identity} {body : Code}
    (hs : c.InScope s env) (hps : ∀ x ∈ ps, x ∉ names)
    (h : ∀ t inner, c.Inside s env ps vs t inner → body.Fails inner t cause) :
    (Value.procedure id ps body env : Val).Fails vs s cause :=
  Value.fails_procedure fun _ hst => h _ _ (inside_extend hs hps hst vs)

theorem fails_procedure (hs : c.InScope s c.global)
    (h : ∀ t inner, c.Inside s c.global p.parameters vs t inner →
      (p.body c.first).Fails inner t cause) :
    (c.procedure p).Fails vs s cause :=
  fails_closure hs p.not_mem_names h

theorem Inside.gives_argument {ps : List Symbol} (h : c.Inside s env ps vs t inner)
    (hps : ps.Nodup) {x : String} (hk : ps[k]? = some ⟨x⟩) :
    (var x).Gives inner t (· = Primitive.argument vs k) :=
  h.gives_parameter (Frame.find?_bindAll_of_nodup hps hk vs)

theorem InScope.gives_not_null {a : Code} (hs : c.InScope s env) (ha : a.Gives env s (· = v))
    (hv : v.items? = none) :
    (Primitive.null.call [a]).Gives env s (· = .bool false) :=
  Value.isNull_of_not_list hv ▸ hs.null_call ha

theorem InScope.refused_call {a : Code} (hs : c.InScope s env) (hq : q = .car ∨ q = .cdr)
    (ha : a.Gives env s (· = v)) (hv : v.items? = none) :
    (q.call [a]).Fails env s (refusal q v) := by
  apply Code.Fails.application (hs.gives_primitive q) (.cons ha .nil)
  rintro _ _ rfl (_ | ⟨rfl, _ | _⟩)
  exact fails_of_not_list hq hv

theorem Inside.refuses (hin : c.Inside s env p.parameters vs t inner)
    (h : p.takesApart? = some (k, q)) (hv : (Primitive.argument vs k).items? = none) :
    (Primitive.null.call [var "xs"]).Gives inner t (· = .bool false) ∧
      (q.call [var "xs"]).Fails inner t (refusal q (Primitive.argument vs k)) := by
  have hxs := hin.gives_argument p.nodup_parameters (Procedure.getElem?_parameters h)
  exact ⟨hin.scope.gives_not_null hxs hv,
    hin.scope.refused_call (Procedure.eq_car_or_cdr h) hxs hv⟩

theorem fails_foldr (hs : c.InScope s c.global) (hv : (Primitive.argument vs 2).items? = none) :
    (c.procedure .foldr).Fails vs s (refusal .car (Primitive.argument vs 2)) := by
  apply fails_procedure hs
  intro t env hin
  rcases hin.refuses rfl hv with ⟨hnull, hcar⟩
  have hf := hin.gives_argument (k := 0) Procedure.foldr.nodup_parameters rfl
  exact .alternative hnull (.operand_one hf hcar)

theorem fails_reverseOnto {id : Identity} (hs : c.InScope s env)
    (hloop : s.lookup? env ⟨"reverse-onto"⟩ =
      some (.procedure id [⟨"xs"⟩, ⟨"acc"⟩] reverseOnto env))
    (hv : v.items? = none) (w : Val) :
    (Value.procedure id [⟨"xs"⟩, ⟨"acc"⟩] reverseOnto env).Fails [v, w] s (refusal .cdr v) := by
  apply fails_closure hs (by decide)
  intro t inner hin
  have hxs : (var "xs").Gives inner t (· = v) := hin.gives_parameter rfl
  have hself := Code.gives_reference hin.scope.within
    ((hin.lookup?_eq ⟨"reverse-onto"⟩).trans hloop)
  exact .alternative (hin.scope.gives_not_null hxs hv)
    (.operand_one hself (hin.scope.refused_call (.inr rfl) hxs hv))

theorem fails_reverse (hs : c.InScope s c.global) (hv : (Primitive.argument vs 0).items? = none) :
    (c.procedure .reverse).Fails vs s (refusal .cdr (Primitive.argument vs 0)) := by
  apply fails_procedure hs
  intro t env hin
  apply Code.fails_recursive hin.scope.within (Code.gives_literal (.bool false))
  intro u inner id hwithin hloop hkept
  have hscope := hin.scope.of_local hwithin (by decide) hkept
  have hlookup : u.lookup? inner ⟨"xs"⟩ = some (Primitive.argument vs 0) := by
    rw [hkept _ (by decide), hin.lookup?_eq,
      Frame.find?_bindAll_of_nodup (k := 0) Procedure.reverse.nodup_parameters rfl]
    rfl
  apply Code.Fails.application (Code.gives_reference hwithin hloop)
    (.cons (Code.gives_reference hwithin hlookup) (.cons (Code.gives_literal _) .nil))
  rintro _ _ rfl (_ | ⟨rfl, _ | ⟨rfl, _ | _⟩⟩)
  exact fails_reverseOnto hscope hloop hv _

theorem fails_takesApart (hs : c.InScope s c.global) (h : p.takesApart? = some (k, q))
    (hv : (Primitive.argument vs k).items? = none) :
    (c.procedure p).Fails vs s (refusal q (Primitive.argument vs k)) := by
  cases p with
  | reverse =>
      cases h
      exact fails_reverse hs hv
  | flatten => cases h
  | append =>
      cases h
      apply fails_procedure hs
      intro t env hin
      have hxs := hin.gives_argument (k := 0) Procedure.append.nodup_parameters rfl
      have hys := hin.gives_argument (k := 1) Procedure.append.nodup_parameters rfl
      apply Code.Fails.application (hin.scope.gives_procedure .foldr)
        (.cons (hin.scope.gives_primitive .cons) (.cons hys (.cons hxs .nil)))
      rintro _ _ rfl (_ | ⟨rfl, _ | ⟨rfl, _ | ⟨rfl, _ | _⟩⟩⟩)
      exact (fails_foldr hs hv).of_undisturbed hin.undisturbed
  | foldr =>
      cases h
      exact fails_foldr hs hv
  | length =>
      apply fails_procedure hs
      intro t env hin
      rcases hin.refuses h hv with ⟨hnull, hrefused⟩
      cases h
      exact .alternative hnull (.operand_two (hin.scope.gives_primitive .add)
        (Code.gives_literal _) (.operand_one (hin.scope.gives_procedure .length) hrefused))
  | last =>
      apply fails_procedure hs
      intro t env hin
      rcases hin.refuses h hv with ⟨hnull, hrefused⟩
      cases h
      exact .alternative hnull (.first rfl
        (.operand_one (hin.scope.gives_primitive .null) hrefused))
  | elem | remove =>
      apply fails_procedure hs
      intro t env hin
      rcases hin.refuses h hv with ⟨hnull, hrefused⟩
      have hx := hin.gives_argument (k := 0) (Procedure.nodup_parameters _) rfl
      cases h
      exact .alternative hnull (.first rfl
        (.operand_two (hin.scope.gives_primitive .identical) hx hrefused))
  | map =>
      apply fails_procedure hs
      intro t env hin
      rcases hin.refuses h hv with ⟨hnull, hrefused⟩
      have hf := hin.gives_argument (k := 0) Procedure.map.nodup_parameters rfl
      cases h
      exact .alternative hnull (.operand_one (hin.scope.gives_primitive .cons)
        (.operand_one hf hrefused))
  | unique =>
      apply fails_procedure hs
      intro t env hin
      rcases hin.refuses h hv with ⟨hnull, hrefused⟩
      cases h
      exact .alternative hnull (.operand_one (hin.scope.gives_primitive .cons) hrefused)

end Copy

/-- Where the library is in use: `length` is the number that adding one to zero makes, once for
every item, `last` is the last item, or an empty list if there is none, and a procedure that is not
given a list where it takes one reports a wrong type, as the primitive does by which it would take
the list apart, having printed nothing and changed no binding. -/
theorem length_last_and_refusals {top : Toplevel} {s : Store Code} {env : Env}
    (h : top.KeepsLibrary s env) :
    (∀ (id : Identity) (xs : List Val),
      (Procedure.length.call [.literal (.list id xs)]).Answers env s
        (· = .number ((fun x => 1 + x)^[xs.length] 0))) ∧
    (∀ id : Identity,
      (Procedure.last.call [.literal (.list id [])]).Answers env s (·.items? = some [])) ∧
    (∀ (id : Identity) (xs : List Val) (x : Val),
      (Procedure.last.call [.literal (.list id (xs ++ [x]))]).Answers env s (· = x)) ∧
    (∀ (p : Procedure) (k : Nat) (q : Primitive) (vs : List Val), p.takesApart? = some (k, q) →
      (Primitive.argument vs k).items? = none →
      (p.call (vs.map .literal)).Reports env s
        (.wrongType q.name "list" (Primitive.argument vs k).shown)) := by
  rcases h.exists_inScope with ⟨c, hc, henv⟩
  refine ⟨?_, ?_, ?_, ?_⟩
  · intro id xs
    apply Code.Gives.answers
    apply Code.Gives.application_one (henv.gives_procedure .length) (gives_list id xs)
    exact fun _ hv => Copy.gives_length hc hv
  · intro id
    apply Code.Gives.answers
    apply Code.Gives.application_one (henv.gives_procedure .last) (gives_list id [])
    exact fun _ hv => Copy.gives_last_nil hc hv
  · intro id xs x
    apply Code.Gives.answers
    apply Code.Gives.application_one (henv.gives_procedure .last) (gives_list id (xs ++ [x]))
    exact fun _ hv => Copy.gives_last hc hv
  · intro p k q vs hp hv
    apply Code.Fails.reports
    exact Code.Fails.application_literals (henv.gives_procedure p) (Copy.fails_takesApart hc hp hv)

theorem length_last_and_refusals_three :
    ∃ top s, Toplevel.KeepsLibrary top s top.global ∧
      s.lookup? top.global ⟨"n"⟩ = some .undefined ∧
      (Procedure.length.call [.literal (.list 0 [.bool true, .undefined, .list 1 []])]).Answers
        top.global s (· = .number (1 + (1 + (1 + 0)))) ∧
      (Procedure.last.call [.literal (.list 0 [.bool true, .undefined, .list 1 []])]).Answers
        top.global s (· = .list 1 []) ∧
      (Procedure.elem.call [.literal .undefined, .literal (.bool true)]).Reports top.global s
        (.wrongType "car" "list" "#t") ∧
      (Procedure.reverse.call []).Reports top.global s
        (.wrongType "cdr" "list" "#<undefined>") := by
  have hn : (⟨"n"⟩ : Symbol) ∉ names := by
    decide
  rcases Toplevel.exists_keepsLibrary hn .undefined with ⟨top, s, h, hlookup⟩
  rcases length_last_and_refusals h with ⟨hlength, -, hlast, hrefusals⟩
  refine ⟨top, s, h, hlookup, hlength 0 _, hlast 0 [.bool true, .undefined] _, ?_, ?_⟩
  · exact hrefusals .elem 1 .car [.undefined, .bool true] rfl rfl
  · exact hrefusals .reverse 0 .cdr [] rfl rfl

end ListLibrary
end MiniLisp
