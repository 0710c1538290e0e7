import MiniLisp.Proofs.ListLibrary.Concatenation

/-!
# Reversal

`reverse` moves the items of a list, one after another, to the front of another list.  The procedure
that does so is local: it is assigned to a name bound in a frame of its own, and calls itself under
this name.  So it calls itself whatever the name means elsewhere, and assigning it changes no
binding that was there before.

## Main statement

* `ListLibrary.reverse_reverses`: what `reverse` answers, for all lists.
-/

namespace MiniLisp
namespace ListLibrary
namespace Copy

variable {c : Copy} {s : Store Code} {env : Env} {v w : Val} {xs acc : List Val} {id : Identity}

/-- The name of the local procedure means that procedure throughout the loop, since the frames of
its calls bind other names. -/
theorem gives_reverseOnto (hs : c.InScope s env)
    (hloop : s.lookup? env ⟨"reverse-onto"⟩ =
      some (.procedure id [⟨"xs"⟩, ⟨"acc"⟩] reverseOnto env))
    (hv : v.items? = some xs) (hw : w.items? = some acc) :
    (Value.procedure id [⟨"xs"⟩, ⟨"acc"⟩] reverseOnto env).Gives [v, w] s
      (·.items? = some (xs.reverse ++ acc)) := by
  have hparameters : ∀ x ∈ [(⟨"xs"⟩ : Symbol), ⟨"acc"⟩], x ∉ names := by
    decide
  induction xs generalizing acc v w with
  | nil =>
      rcases Value.items?_eq_some_iff.mp hv with ⟨i, rfl⟩
      apply gives_closure hs hparameters
      intro t inner hin
      have hxs : (var "xs").Gives inner t (· = .list i []) := hin.gives_parameter rfl
      have hacc : (var "acc").Gives inner t (· = w) := hin.gives_parameter rfl
      refine .consequent (hin.scope.null_call hxs) (hacc.imp ?_)
      rintro _ rfl
      exact hw
  | cons x xs ih =>
      rcases Value.items?_eq_some_iff.mp hv with ⟨i, rfl⟩
      apply gives_closure hs hparameters
      intro t inner hin
      have hxs : (var "xs").Gives inner t (· = .list i (x :: xs)) := hin.gives_parameter rfl
      have hacc : (var "acc").Gives inner t (·.items? = some acc) :=
        (hin.gives_parameter rfl).imp (by rintro _ rfl; exact hw)
      have hself := Code.gives_reference hin.scope.within
        ((hin.lookup?_eq ⟨"reverse-onto"⟩).trans hloop)
      refine .alternative (hin.scope.null_call hxs) ?_
      rw [List.reverse_cons, List.append_assoc, List.singleton_append]
      apply Code.Gives.application_two hself (hin.scope.cdr_call hxs)
        (hin.scope.cons_call (hin.scope.car_call hxs) hacc)
      intro _ _ hrest hmore
      exact (ih hrest hmore).of_undisturbed hin.undisturbed

theorem gives_reverse (hs : c.InScope s c.global) (hv : v.items? = some xs) :
    (c.procedure .reverse).Gives [v] s (·.items? = some xs.reverse) := by
  apply gives_procedure hs
  intro t env hin
  apply Code.gives_recursive hin.scope.within (Code.gives_literal (.bool false))
  intro u inner id hwithin hloop hkept
  have hscope := hin.scope.of_local hwithin (by decide) hkept
  have hlookup : u.lookup? inner ⟨"xs"⟩ = some v := by
    rw [hkept _ (by decide), hin.lookup?_eq]
    rfl
  have hxs := Code.gives_reference hwithin hlookup
  apply Code.Gives.application_two (Code.gives_reference hwithin hloop) hxs (gives_nil _)
  rintro _ w rfl hw
  have hreversed := gives_reverseOnto hscope hloop hv hw
  rw [List.append_nil] at hreversed
  exact hreversed

end Copy

/-- Where the library is in use, `reverse` gives the items of a list in the opposite order.  So a
second `reverse` gives them in their own order, and the reverse of two lists that are joined is
their reverses joined the other way round. -/
theorem reverse_reverses {top : Toplevel} {s : Store Code} {env : Env}
    (h : top.KeepsLibrary s env) (id other : Identity) (xs ys : List Val) :
    (Procedure.reverse.call [.literal (.list id xs)]).Answers env s
        (·.items? = some xs.reverse) ∧
      (Procedure.reverse.call [Procedure.reverse.call [.literal (.list id xs)]]).Answers env s
        (·.items? = some xs) ∧
      (Procedure.reverse.call
          [Procedure.append.call [.literal (.list id xs), .literal (.list other ys)]]).Answers env s
        (·.items? = some (ys.reverse ++ xs.reverse)) ∧
      (Procedure.append.call [Procedure.reverse.call [.literal (.list other ys)],
          Procedure.reverse.call [.literal (.list id xs)]]).Answers env s
        (·.items? = some (ys.reverse ++ xs.reverse)) := by
  rcases h.exists_inScope with ⟨c, hc, henv⟩
  have hreverse : ∀ {a : Code} {zs : List Val}, a.Gives env s (·.items? = some zs) →
      (Procedure.reverse.call [a]).Gives env s (·.items? = some zs.reverse) :=
    fun ha => .application_one (henv.gives_procedure .reverse) ha
      fun _ hv => Copy.gives_reverse hc hv
  have happend : ∀ {a b : Code} {zs ws : List Val}, a.Gives env s (·.items? = some zs) →
      b.Gives env s (·.items? = some ws) →
      (Procedure.append.call [a, b]).Gives env s (·.items? = some (zs ++ ws)) :=
    fun ha hb => .application_two (henv.gives_procedure .append) ha hb fun _ w hv hw =>
      (Copy.gives_append hc hv w).imp fun _ hjoins => hjoins.list _ hw
  have honce := hreverse (gives_list id xs)
  have htwice := hreverse honce
  have hjoined := hreverse (happend (gives_list id xs) (gives_list other ys))
  rw [List.reverse_reverse] at htwice
  rw [List.reverse_append] at hjoined
  refine ⟨honce.answers, htwice.answers, hjoined.answers, ?_⟩
  exact (happend (hreverse (gives_list other ys)) honce).answers

theorem reverse_reverses_defined :
    ∃ top s, Toplevel.KeepsLibrary top s top.global ∧
      s.lookup? top.global ⟨"reverse-onto"⟩ = some (.bool false) ∧
      (Procedure.reverse.call
          [.literal (.list 0 [.list 1 [], .list 2 [], .bool true])]).Answers top.global s
        (·.items? = some [.bool true, .list 2 [], .list 1 []]) := by
  have hx : (⟨"reverse-onto"⟩ : Symbol) ∉ names := by
    decide
  rcases Toplevel.exists_keepsLibrary hx (.bool false) with ⟨top, s, h, hlookup⟩
  exact ⟨top, s, h, hlookup,
    (reverse_reverses h 0 3 [.list 1 [], .list 2 [], .bool true] []).1⟩

end ListLibrary
end MiniLisp
