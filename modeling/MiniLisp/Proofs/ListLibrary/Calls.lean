import MiniLisp.Proofs.Code.Beside
import MiniLisp.Proofs.Host.Intact
import MiniLisp.Proofs.Host.Library

/-!
# The calls that `map` and `foldr` make

`map` applies its function to the first item before it goes on to the rest, and `foldr` goes on to
the rest before it applies its function.  All that either does besides is quiet: it makes frames and
lists.  So a call of `map` does what calls of the function do, one after another, and a call of
`foldr` what calls do that begin with the last item.

After a call, `map` goes on by the names of the library, so the calls must leave these as they are;
`foldr` has no more use for them by then.

## Main statement

* `ListLibrary.map_foldr_do_calls`: in every store that a host can reach, where the library is in
  use, `map` and `foldr` do what the calls do.
-/

namespace MiniLisp

open Code (sameness)

namespace ListLibrary

def ListOf (W : Matching) (v : Val) (ws : List Val) : Prop :=
  ∃ vs, v.items? = some vs ∧ List.Forall₂ (sameness.Values W) vs ws

namespace Copy

variable {c : Copy} {W : Matching} {s s₀ t : Store Code} {env : Env} {vs : List Val}
  {f f' init init' v : Val} {xs xs' : List Val}

theorem inside_of_frame_eq {ps : List Symbol} (hs : c.InScope s env) (hps : ∀ x ∈ ps, x ∉ names)
    {f : FrameId} (hf : f < s.frames.size) (hframe : s.frame f = Frame.bindAll {} ps vs) :
    c.Inside s env ps vs s (env.push f) := by
  have hlookup := Store.lookup?_push hframe env
  refine ⟨.refl s, hs.of_lookup?_eq ?_ ?_, hlookup⟩
  · intro g hg
    cases hg with
    | head => exact hf
    | tail _ hg => exact hs.within g hg
  · intro x hx
    rw [hlookup, Frame.find?_bindAll_of_not_mem (fun hmem => hps x hmem hx) vs]
    rfl

theorem inside_of_spreads {N : Namings} {W' : Matching} {m s' t' : Store Code} {ps : List Symbol}
    (hps : ∀ x ∈ ps, x ∉ names) (hstores : sameness.Stores W s t)
    (hm : (s.extend env ps vs).2.Undisturbed m) (hspreads : W.Spreads N W' m s' t t')
    (hs' : c.InScope s' env) :
    c.Inside s' env ps vs s' (s.extend env ps vs).1 := by
  have hsize : s.frames.size < (s.extend env ps vs).2.frames.size := by
    rw [Store.size_extend]
    exact Nat.lt_succ_self _
  have hm_size := Nat.lt_of_lt_of_le hsize hm.evolves.size_le
  have hframe : s'.frame s.frames.size = Frame.bindAll {} ps vs := by
    rw [hspreads.left.frame_eq _ hm_size fun ⟨g, hg⟩ => hstores.not_frames_size_left g hg,
      hm.frame_eq hsize, Store.frame_extend]
  exact inside_of_frame_eq hs' hps (Nat.lt_of_lt_of_le hm_size hspreads.left.size_le) hframe

theorem inScope_of_stores (hs₀ : s₀.Intact) (hc₀ : c.InScope s₀ c.global) (hle : s₀.self ≤ W)
    (hstores : sameness.Stores W s t)
    (hkept : ∀ name ∈ names, t.lookup? c.global name = s₀.lookup? c.global name) :
    c.InScope s c.global := by
  have hglobal : W.Envs Eq c.global c.global := (Matching.on_envs hc₀.within).mono hle
  apply hc₀.of_lookup?_eq
  · intro g hg
    exact (hstores.frames_lt (hle.frames ⟨rfl, hc₀.within g hg⟩)).1
  · intro name hname
    rcases hstores.lookup? hglobal (rfl : name = name) with ⟨v, w, hv, hw, hvw⟩ | ⟨hv, hw, -⟩
    · rw [hkept name hname] at hw
      rcases List.exists_of_findSome?_eq_some hw with ⟨g, hg, hfound⟩
      have hwithin := hs₀.bindings g name w (hc₀.within g hg) hfound
      rw [hv, hw, hwithin.eq_of_matches hle hstores.frames_biUnique hstores.identities_biUnique hvw]
    · rw [hv, ← hkept name hname, hw]

theorem beside_procedure {α : Type} {R : Matching → Val → α → Prop} {p : Procedure}
    {y : Option (Except Fault α × Store Code)} (hstores : sameness.Stores W s t)
    (h : sameness.Stores W (s.extend c.global p.parameters vs).2 t →
      sameness.Beside W R (s.extend c.global p.parameters vs).2 t
        ((p.body c.first).eval (s.extend c.global p.parameters vs).1
          (s.extend c.global p.parameters vs).2) y) :
    sameness.Beside W R s t ((c.procedure p).call vs s) y := by
  have hquiet : s.Undisturbed (s.extend c.global p.parameters vs).2 := .extend s c.global _ vs
  have hcall : (c.procedure p).call vs s = (p.body c.first).eval
      (s.extend c.global p.parameters vs).1 (s.extend c.global p.parameters vs).2 := by
    unfold procedure
    rw [Value.call_procedure]
    exact Run.bind_of_ok rfl
  rw [hcall]
  exact (h (hstores.of_undisturbed hquiet)).of_undisturbed hquiet

/-!
# Parts of the bodies
-/

section

variable {ps : List Symbol} {inner : Env} {x x' y y' : Val} {id : Identity}

theorem beside_first {m : Store Code} (hin : c.Inside s env ps vs s₀ inner)
    (hfunction : (var "f").Gives inner s₀ (· = f))
    (hlist : (var "xs").Gives inner s₀ (· = .list id (x :: xs))) (hm : s₀.Undisturbed m)
    (hstores : sameness.Stores W m t) (hf : sameness.Values W f f') (hx : sameness.Values W x x') :
    sameness.Beside W sameness.Values m t
      ((Code.application (var "f") [Primitive.car.call [var "xs"]]).eval inner m)
      (f'.call [x'] t) := by
  refine .application (hfunction.of_undisturbed hm)
    (.cons ((hin.scope.car_call hlist).of_undisturbed hm) .nil) hstores ?_
  intro u g ws _ hu hg hws
  rcases hws with _ | ⟨hx', _ | _⟩
  rw [hg, hx']
  exact .call hu hf (.cons hx .nil)

theorem beside_cons (hstores : sameness.Stores W s t) (hy : sameness.Values W y y') {ws : List Val}
    (hv : ListOf W v ws) :
    sameness.Beside W ListOf s t ((Value.primitive .cons : Val).call [y, v] s)
      ((pure (y' :: ws) : Run Code (List Val)) t) := by
  rcases hv with ⟨ys, hys, hyws⟩
  rcases Value.gives_cons y v s (.refl s) with ⟨w, u, happlies, hquiet, hw⟩
  rw [Primitive.consItems_of_items? hys] at hw
  rw [happlies.call_eq]
  exact .pure_right hstores hquiet ⟨y :: ys, hw, .cons hy hyws⟩

end

theorem gives_map_nil (hs : c.InScope s c.global) (id : Identity) :
    (c.procedure .map).Gives [f, .list id []] s (·.items? = some []) := by
  apply gives_procedure hs
  intro u inner hin
  have hlist := hin.gives_parameter (x := "xs") rfl
  exact .consequent (hin.scope.null_call hlist) (gives_nil _)

theorem gives_foldr_nil (hs : c.InScope s c.global) (id : Identity) :
    (c.procedure .foldr).Gives [f, init, .list id []] s (· = init) := by
  apply gives_procedure hs
  intro u inner hin
  have hlist := hin.gives_parameter (x := "xs") rfl
  exact .consequent (hin.scope.null_call hlist) (hin.gives_parameter rfl)

/-!
# Whole lists
-/

/-- `foldr` beside its calls.  Until it comes to the last item it is quiet, and from then on it only
calls its function. -/
theorem beside_foldr (hs : c.InScope s c.global) (hstores : sameness.Stores W s t)
    (hf : sameness.Values W f f') (hinit : sameness.Values W init init')
    (hxs : List.Forall₂ (sameness.Values W) xs xs') (hv : v.items? = some xs) :
    sameness.Beside W sameness.Values s t ((c.procedure .foldr).call [f, init, v] s)
      ((xs'.foldrM (fun x r => f'.call [x, r]) init') t) := by
  induction hxs generalizing s v with
  | nil =>
      rcases Value.items?_eq_some_iff.mp hv with ⟨id, rfl⟩
      rcases gives_foldr_nil hs id s (.refl s) with ⟨w, u, happlies, hsu, hw⟩
      rw [happlies.call_eq, List.foldrM_nil, hw]
      exact .pure_right hstores hsu hinit
  | @cons x x' xs xs' hx hxs ih =>
      rcases Value.items?_eq_some_iff.mp hv with ⟨id, rfl⟩
      rw [List.foldrM_cons]
      apply beside_procedure hstores
      intro hstores
      have hin := inside_extend hs Procedure.foldr.not_mem_names (.refl s)
        [f, init, .list id (x :: xs)]
      have hfunction := hin.gives_parameter (x := "f") rfl
      have hlist := hin.gives_parameter (x := "xs") rfl
      refine .alternative (hin.scope.null_call hlist) hstores ?_
      intro u hu hstores
      rcases hfunction u hu with ⟨g, m, hg, hum, hgf⟩
      rcases hin.scope.car_call hlist m (hu.trans hum) with ⟨z, n, hz, hmn, hzx⟩
      have hun := hum.trans hmn
      have hn := hu.trans hun
      rw [Code.eval_application_two, Run.bind_of_ok hg.eval_eq, Run.bind_of_ok hz.eval_eq, hgf, hzx]
      refine Likeness.Beside.of_undisturbed hun (.bind (R := sameness.Values) ?_ ?_)
      · have hresult := hin.gives_parameter (x := "init") rfl
        refine .application ((hin.scope.gives_procedure .foldr).of_undisturbed hn)
          (.cons (hfunction.of_undisturbed hn) (.cons (hresult.of_undisturbed hn)
            (.cons ((hin.scope.cdr_call hlist).of_undisturbed hn) .nil)))
          (hstores.of_undisturbed hun) ?_
        intro w g vs hnw hw hg hvs
        rcases hvs with _ | ⟨hf', _ | ⟨hinit', _ | ⟨htail, _ | _⟩⟩⟩
        rw [hg, hf', hinit']
        exact ih (hs.of_undisturbed (hin.undisturbed.trans (hn.trans hnw))) hw htail
      · intro W' r r' s' t' _ hspreads hstores' hr
        have hle := hspreads.le
        exact .call hstores' (hf.mono hle) (.cons (hx.mono hle) (.cons hr .nil))

theorem beside_map (hs₀ : s₀.Intact) (hc₀ : c.InScope s₀ c.global) (hle : s₀.self ≤ W)
    (hstores : sameness.Stores W s t) (hf : sameness.Values W f f')
    (hxs : List.Forall₂ (sameness.Values W) xs xs') (hv : v.items? = some xs)
    (hkept : ∀ k ws u, ((xs'.take k).mapM fun x => f'.call [x]) t = some (.ok ws, u) →
      ∀ name ∈ names, u.lookup? c.global name = s₀.lookup? c.global name) :
    sameness.Beside W ListOf s t ((c.procedure .map).call [f, v] s)
      ((xs'.mapM fun x => f'.call [x]) t) := by
  -- By induction on the list.  Each call leads to stores that are matched again, so that its names
  -- in the second store say what the names in the first one mean.
  induction xs generalizing W s t v xs' with
  | nil =>
      have hs := inScope_of_stores hs₀ hc₀ hle hstores (hkept 0 [] t rfl)
      rcases Value.items?_eq_some_iff.mp hv with ⟨id, rfl⟩
      rcases gives_map_nil hs id s (.refl s) with ⟨w, u, happlies, hsu, hw⟩
      cases hxs
      rw [happlies.call_eq, List.mapM_nil]
      exact .pure_right hstores hsu ⟨[], hw, .nil⟩
  | cons x xs ih =>
      have hs := inScope_of_stores hs₀ hc₀ hle hstores (hkept 0 [] t rfl)
      rcases Value.items?_eq_some_iff.mp hv with ⟨id, rfl⟩
      rcases hxs with _ | ⟨hx, hxs⟩
      rename_i x' xs'
      rw [List.mapM_cons]
      apply beside_procedure hstores
      intro hstores'
      have hin := inside_extend hs Procedure.map.not_mem_names (.refl s) [f, .list id (x :: xs)]
      have hfunction := hin.gives_parameter (x := "f") rfl
      have hlist := hin.gives_parameter (x := "xs") rfl
      refine .alternative (hin.scope.null_call hlist) hstores' ?_
      intro u hu hu'
      rcases hin.scope.gives_primitive .cons u hu with ⟨g, m, hg, hum, heq⟩
      have hm := hu.trans hum
      unfold Primitive.call
      rw [Code.eval_application_two, Run.bind_of_ok hg.eval_eq, heq]
      refine Likeness.Beside.of_undisturbed hum (.bind (R := sameness.Values) ?_ ?_)
      · exact beside_first hin hfunction hlist hm (hu'.of_undisturbed hum) hf hx
      · intro W₁ y y' s₁ t₁ hcall hspreads hstores₁ hy
        have hle₁ := hspreads.le
        have hcalls : ∀ k ws u, ((xs'.take k).mapM fun x => f'.call [x]) t₁ = some (.ok ws, u) →
            ((x' :: xs').take (k + 1)).mapM (fun x => f'.call [x]) t =
              some (.ok (y' :: ws), u) := by
          intro k ws u h
          rw [List.take_succ_cons, List.mapM_cons, Run.bind_of_ok hcall, Run.bind_of_ok h]
          rfl
        have hs₁ := inScope_of_stores hs₀ hc₀ (hle.trans hle₁) hstores₁
          (hkept 1 [y'] t₁ (hcalls 0 [] t₁ rfl))
        have hin₁ := inside_of_spreads Procedure.map.not_mem_names hstores hm hspreads hs₁
        have hlist₁ := hin₁.gives_parameter (x := "xs") rfl
        refine .bind (R := ListOf) ?_ ?_
        · refine .application (hin₁.scope.gives_procedure .map)
            (.cons (hin₁.gives_parameter (x := "f") rfl)
              (.cons (hin₁.scope.cdr_call hlist₁) .nil)) hstores₁ ?_
          intro w g vs _ hw hg hvs
          rcases hvs with _ | ⟨hf', _ | ⟨htail, _ | _⟩⟩
          rw [hg, hf']
          exact ih (hle.trans hle₁) hw (hf.mono hle₁) (hxs.imp fun _ _ h => h.mono hle₁) htail
            fun k ws u h => hkept (k + 1) (y' :: ws) u (hcalls k ws u h)
        · intro W₂ w ws s₂ t₂ _ hspreads₂ hstores₂ hw
          exact beside_cons hstores₂ (hy.mono hspreads₂.le) hw

end Copy

/-- Whether calls of a value on one item after another leave the names of the primitives and of the
library with what they mean in the global environment. -/
def KeptByCalls (top : Toplevel) (s : Store Code) (f : Val) (xs : List Val) : Prop :=
  ∀ depth k vs t, ((xs.take k).mapM fun x => f.apply depth [x]) s = some (.ok vs, t) →
    ∀ name ∈ names, t.lookup? top.global name = s.lookup? top.global name

open Run (Deepens)

section

variable {c : Copy} {s : Store Code} {env : Env} {f init : Val} {id : Identity} {xs : List Val}

theorem calls_deepen (f : Val) (xs : List Val) :
    Deepens fun depth => xs.mapM fun x => f.apply depth [x] :=
  .mapM (fun x => f.apply_deepens [x]) xs

theorem map_doSame (hs : s.Intact) (hc : c.InScope s c.global) (henv : c.InScope s env)
    (hf : s.Holds f) (hxs : s.Holds (.list id xs))
    (hkept : ∀ depth k vs t, ((xs.take k).mapM fun x => f.apply depth [x]) s = some (.ok vs, t) →
      ∀ name ∈ names, t.lookup? c.global name = s.lookup? c.global name) :
    s.DoSame ListOf
      (fun depth => (Procedure.map.call [.literal f, .literal (.list id xs)]).run depth env)
      (fun depth => xs.mapM fun x => f.apply depth [x]) := by
  have hself := Code.eq_mem_sameness
  have hstores := hs.stores_self hself
  apply Store.doSame_of_beside (Code.run_deepens _ env) (calls_deepen f xs)
  rw [Run.unbounded_mapM fun x => f.apply_deepens [x]]
  refine .application (henv.gives_procedure .map)
    (.cons (Code.gives_literal f) (.cons (gives_list id xs) .nil)) hstores ?_
  intro u g vs _ hu hg hvs
  rcases hvs with _ | ⟨hf', _ | ⟨hlist, _ | _⟩⟩
  rw [hg, hf']
  refine Copy.beside_map hs hc (le_refl _) hu (hf.matches_self hself) (hxs.2.matches_self hself)
    hlist ?_
  intro k ws t h
  unfold Value.call at h
  rw [← Run.unbounded_mapM fun x => f.apply_deepens [x]] at h
  rcases (Run.unbounded_eq_some_iff (calls_deepen f (xs.take k))).mp h with ⟨depth, hdepth⟩
  exact hkept depth k ws t hdepth

theorem foldr_doSame (hs : s.Intact) (hc : c.InScope s c.global) (henv : c.InScope s env)
    (hf : s.Holds f) (hinit : s.Holds init) (hxs : s.Holds (.list id xs)) :
    s.DoSame sameness.Values
      (fun depth => (Procedure.foldr.call [.literal f, .literal init, .literal (.list id xs)]).run
        depth env)
      (fun depth => xs.foldrM (fun x r => f.apply depth [x, r]) init) := by
  have hself := Code.eq_mem_sameness
  have hstores := hs.stores_self hself
  apply Store.doSame_of_beside (Code.run_deepens _ env)
    (.foldrM (fun x r => f.apply_deepens [x, r]) init xs)
  rw [Run.unbounded_foldrM fun x r => f.apply_deepens [x, r]]
  refine .application (henv.gives_procedure .foldr)
    (.cons (Code.gives_literal f) (.cons (Code.gives_literal init) (.cons (gives_list id xs) .nil)))
    hstores ?_
  intro u g vs hsu hu hg hvs
  rcases hvs with _ | ⟨hf', _ | ⟨hinit', _ | ⟨hlist, _ | _⟩⟩⟩
  rw [hg, hf', hinit']
  exact Copy.beside_foldr (hc.of_undisturbed hsu) hu (hf.matches_self hself)
    (hinit.matches_self hself) (hxs.2.matches_self hself) hlist

end

/-- Where the library is in use, `map` does what calls of its function on one item after another do,
from the first item on, and has a list of their values, provided that the calls leave the library in
use; and `foldr` does what calls on each item and the value so far do, from the last item on.  What
the calls print and change is all that is printed and changed of what was there; the first fault of
a call is that of the whole, and ends it. -/
theorem map_foldr_do_calls {h : Host} (hreach : Relation.ReflTransGen Host.Step {} h)
    {top : Toplevel} {env : Env} (hkeeps : top.KeepsLibrary h.store env) {f init : Val}
    {id : Identity} {xs : List Val} (hf : h.Has (.value f)) (hinit : h.Has (.value init))
    (hxs : h.Has (.value (.list id xs))) :
    (KeptByCalls top h.store f xs →
      h.store.DoSame ListOf
        (fun depth => (Procedure.map.call [.literal f, .literal (.list id xs)]).run depth env)
        (fun depth => xs.mapM fun x => f.apply depth [x])) ∧
    h.store.DoSame sameness.Values
      (fun depth => (Procedure.foldr.call [.literal f, .literal init, .literal (.list id xs)]).run
        depth env)
      (fun depth => xs.foldrM (fun x r => f.apply depth [x, r]) init) := by
  have hintact := Host.intact_of_reaches hreach
  rcases hkeeps.exists_copy with ⟨c, hglobal, hc, henv⟩
  constructor
  · intro hkept
    refine map_doSame hintact.store hc henv (hintact.has hf) (hintact.has hxs) ?_
    rw [hglobal]
    exact hkept
  · exact foldr_doSame hintact.store hc henv (hintact.has hf) (hintact.has hinit)
      (hintact.has hxs)

theorem frames_eq_of_mapM_primitive {p : Primitive} {depth : Nat} {xs vs : List Val}
    {s t : Store Code}
    (h : (xs.mapM fun x => (Value.primitive p : Val).apply depth [x]) s = some (.ok vs, t)) :
    t.frames = s.frames := by
  induction xs generalizing s vs with
  | nil =>
      cases h
      rfl
  | cons x xs ih =>
      rw [List.mapM_cons] at h
      rcases Run.bind_eq_some h with ⟨v, m, hv, h⟩ | ⟨fault, _, h⟩
      · have hm : m.frames = s.frames := by
          cases Primitive.outcome_of_apply hv <;> rfl
        rcases Run.bind_eq_some h with ⟨ws, u, hws, h⟩ | ⟨fault, _, h⟩
        · cases h
          exact (ih hws).trans hm
        · cases h
      · cases h

theorem keptByCalls_primitive (top : Toplevel) (s : Store Code) (p : Primitive) (xs : List Val) :
    KeptByCalls top s (.primitive p) xs := by
  intro depth k vs t h name _
  unfold Store.lookup? Store.find? Store.frame
  rw [frames_eq_of_mapM_primitive h]

theorem map_foldr_do_calls_alert :
    ∃ h top, Relation.ReflTransGen Host.Step {} h ∧
      Toplevel.KeepsLibrary top h.store top.global ∧
      h.Has (.value (.list 0 [.number 1, .number 2])) ∧
      h.store.DoSame ListOf
        (fun depth => (Procedure.map.call [.literal (.primitive .alert),
          .literal (.list 0 [.number 1, .number 2])]).run depth top.global)
        (fun depth => [.number 1, .number 2].mapM fun x =>
          (Value.primitive .alert : Val).apply depth [x]) ∧
      h.store.DoSame sameness.Values
        (fun depth => (Procedure.foldr.call [.literal (.primitive .alert), .literal .undefined,
          .literal (.list 0 [.number 1, .number 2])]).run depth top.global)
        (fun depth => [.number 1, .number 2].foldrM
          (fun x r => (Value.primitive .alert : Val).apply depth [x, r]) .undefined) := by
  have hlist : Host.Step {} ⟨{ nextIdentity := 1 }, [.value (.list 0 [.number 1, .number 2])]⟩ := by
    refine .got 0 (.list [.number 1, .number 2]) ?_ rfl
    intro x hx
    rcases List.mem_pair.mp hx with rfl | rfl
    · exact .atom _
    · exact .atom _
  rcases Host.exists_keepsLibrary
    ⟨{ nextIdentity := 1 }, [.value (.list 0 [.number 1, .number 2])]⟩ with
    ⟨h, top, hreach, hkeeps, hheld⟩
  have hreach' := hreach.head hlist
  have hhas : h.Has (.value (.list 0 [.number 1, .number 2])) := .held (hheld _ (.head _))
  have hcalls := map_foldr_do_calls hreach' hkeeps (.primitive .alert) .undefined hhas
  exact ⟨h, top, hreach', hkeeps, hhas, hcalls.1 (keptByCalls_primitive top h.store .alert _),
    hcalls.2⟩

end ListLibrary
end MiniLisp
