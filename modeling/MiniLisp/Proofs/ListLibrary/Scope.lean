import MiniLisp.Proofs.ListLibrary.Loading

/-!
# The list library in scope

Every loading makes a copy of the library: its procedures get new identities and belong to the
global environment that they are loaded into.  A copy is in scope where its names and those of the
primitives mean what they were bound to, whatever other names mean.  Calls of primitives and of
procedures of the library are then quiet, and give what they compute.

## Main statements

* `Toplevel.KeepsLibrary.exists_inScope`: while no name of the primitives and of the library is
  bound anew, a top level with the library has a copy of it in scope.
* `Copy.gives_closure`, `Copy.gives_procedure`: a procedure gives what its body gives where the copy
  is in scope and the parameters have their values.
-/

namespace MiniLisp

namespace Value

variable {v : Val} {items : List Val}

theorem items?_eq_some_iff : v.items? = some items ↔ ∃ id, v = .list id items := by
  constructor
  · intro h
    cases v with
    | list id xs =>
        cases h
        exact ⟨id, rfl⟩
    | _ => cases h
  · rintro ⟨id, rfl⟩
    rfl

theorem gives_cons {s : Store Code} (x v : Val) :
    (Value.primitive .cons).Gives [x, v] s (·.items? = some (Primitive.consItems x v)) :=
  gives_of_apply_eq_makeList fun _ => rfl

end Value

namespace Primitive

variable {β : Type} {v : Value β} {items : List (Value β)}

theorem consItems_of_items? (h : v.items? = some items) (x : Value β) :
    consItems x v = x :: items := by
  cases v with
  | list id xs =>
      cases h
      rfl
  | _ => cases h

theorem consItems_of_not_list (h : v.items? = none) (x : Value β) :
    consItems x v = [x, v] := by
  cases v with
  | list id xs => cases h
  | _ => rfl

end Primitive

namespace ListLibrary

def names : List Symbol :=
  (Primitive.every.map fun p => ⟨p.name⟩) ++ Procedure.every.map fun p => ⟨p.name⟩

theorem primitive_mem_names (p : Primitive) : ⟨p.name⟩ ∈ names :=
  List.mem_append_left _ (List.mem_map_of_mem p.mem_every)

theorem procedure_mem_names (p : Procedure) : ⟨p.name⟩ ∈ names :=
  List.mem_append_right _ (List.mem_map_of_mem p.mem_every)

theorem primitive_not_mem (p : Primitive) :
    ⟨p.name⟩ ∉ Procedure.every.map fun q => (⟨q.name⟩ : Symbol) := by
  cases p <;> decide

theorem Procedure.not_mem_names (p : Procedure) : ∀ x ∈ p.parameters, x ∉ names := by
  cases p <;> decide

/-- What one loading of the library has made: the procedures, by their identities, in a global
environment.  The identities from `first` on went to the lists in their bodies. -/
structure Copy where
  global : Env
  first : Identity
  identity : Procedure → Identity

def copy (env : Env) (n : Identity) : Copy :=
  ⟨env, n, fun p => n + 121 + Procedure.every.idxOf p⟩

namespace Copy

variable {c : Copy} {s t : Store Code} {env inner : Env}

def procedure (c : Copy) (p : Procedure) : Val :=
  .procedure (c.identity p) p.parameters (p.body c.first) c.global

structure InScope (c : Copy) (s : Store Code) (env : Env) : Prop where
  within : env.Within s
  primitive : ∀ p : Primitive, s.lookup? env ⟨p.name⟩ = some (.primitive p)
  procedure : ∀ p : Procedure, s.lookup? env ⟨p.name⟩ = some (c.procedure p)

namespace InScope

theorem of_lookup?_eq (h : c.InScope s env) (hwithin : inner.Within t)
    (hkept : ∀ x ∈ names, t.lookup? inner x = s.lookup? env x) : c.InScope t inner where
  within := hwithin
  primitive := fun p => (hkept _ (primitive_mem_names p)).trans (h.primitive p)
  procedure := fun p => (hkept _ (procedure_mem_names p)).trans (h.procedure p)

theorem of_local (h : c.InScope s env) (hwithin : inner.Within t) {name : Symbol}
    (hname : name ∉ names) (hkept : ∀ x, x ≠ name → t.lookup? inner x = s.lookup? env x) :
    c.InScope t inner := by
  apply h.of_lookup?_eq hwithin
  intro x hx
  apply hkept
  rintro rfl
  exact hname hx

theorem of_undisturbed (h : c.InScope s env) (hst : s.Undisturbed t) : c.InScope t env :=
  h.of_lookup?_eq (hst.within h.within) fun x _ => hst.lookup?_eq h.within x

theorem extend (h : c.InScope s env) {ps : List Symbol} (hps : ∀ x ∈ ps, x ∉ names)
    (vs : List Val) :
    c.InScope (s.extend env ps vs).2 (s.extend env ps vs).1 := by
  apply h.of_lookup?_eq (Store.within_extend h.within ps vs)
  intro x hx
  rw [Store.lookup?_extend h.within,
    Frame.find?_bindAll_of_not_mem (fun hmem => hps x hmem hx) vs]
  rfl

end InScope

/-!
# Bodies
-/

/-- Where the body of a procedure runs whose frame binds `ps` to `vs` inside `env`: quiet runs have
come before it, and a name means the argument bound to it or what it means in `env`. -/
structure Inside (c : Copy) (s : Store Code) (env : Env) (ps : List Symbol) (vs : List Val)
    (t : Store Code) (inner : Env) : Prop where
  undisturbed : s.Undisturbed t
  scope : c.InScope t inner
  lookup?_eq : ∀ x, t.lookup? inner x = ((Frame.bindAll {} ps vs).find? x).or (s.lookup? env x)

theorem Inside.gives_parameter {ps : List Symbol} {vs : List Val}
    (h : c.Inside s env ps vs t inner) {x : String} {v : Val}
    (hx : (Frame.bindAll {} ps vs).find? ⟨x⟩ = some v) :
    (var x).Gives inner t (· = v) := by
  apply Code.gives_reference h.scope.within
  rw [h.lookup?_eq, hx]
  rfl

theorem inside_extend {ps : List Symbol} (hs : c.InScope s env) (hps : ∀ x ∈ ps, x ∉ names)
    (hst : s.Undisturbed t) (vs : List Val) :
    c.Inside s env ps vs (t.extend env ps vs).2 (t.extend env ps vs).1 := by
  have ht := hs.of_undisturbed hst
  refine ⟨hst.trans (.extend t env ps vs), ht.extend hps vs, ?_⟩
  intro x
  rw [Store.lookup?_extend ht.within, hst.lookup?_eq hs.within]

theorem gives_closure {ps : List Symbol} {vs : List Val} {id : Identity} {body : Code}
    {P : Val → Prop} (hs : c.InScope s env) (hps : ∀ x ∈ ps, x ∉ names)
    (h : ∀ t inner, c.Inside s env ps vs t inner → body.Gives inner t P) :
    (Value.procedure id ps body env : Val).Gives vs s P :=
  Value.gives_procedure fun _ hst => h _ _ (inside_extend hs hps hst vs)

theorem gives_procedure {p : Procedure} {vs : List Val} {P : Val → Prop}
    (hs : c.InScope s c.global)
    (h : ∀ t inner, c.Inside s c.global p.parameters vs t inner →
      (p.body c.first).Gives inner t P) :
    (c.procedure p).Gives vs s P :=
  gives_closure hs p.not_mem_names h

/-!
# Calls
-/

namespace InScope

variable {a b : Code} {v w x : Val} {xs : List Val} {id : Identity}

theorem gives_primitive (h : c.InScope s env) (p : Primitive) :
    (Code.reference ⟨p.name⟩).Gives env s (· = .primitive p) :=
  Code.gives_reference h.within (h.primitive p)

theorem gives_procedure (h : c.InScope s env) (p : Procedure) :
    (Code.reference ⟨p.name⟩).Gives env s (· = c.procedure p) :=
  Code.gives_reference h.within (h.procedure p)

theorem null_call (h : c.InScope s env) (ha : a.Gives env s (· = v)) :
    (Primitive.null.call [a]).Gives env s (· = .bool v.isNull) := by
  apply Code.Gives.application_one (h.gives_primitive .null) ha
  rintro _ rfl
  exact Value.gives_of_apply_eq fun _ => rfl

theorem pair_call (h : c.InScope s env) (ha : a.Gives env s (· = v)) :
    (Primitive.pair.call [a]).Gives env s (· = .bool v.isPair) := by
  apply Code.Gives.application_one (h.gives_primitive .pair) ha
  rintro _ rfl
  exact Value.gives_of_apply_eq fun _ => rfl

theorem identical_call (h : c.InScope s env) (ha : a.Gives env s (· = v))
    (hb : b.Gives env s (· = w)) :
    (Primitive.identical.call [a, b]).Gives env s (· = .bool (v.identical w)) := by
  apply Code.Gives.application_two (h.gives_primitive .identical) ha hb
  rintro _ _ rfl rfl
  exact Value.gives_of_apply_eq fun _ => rfl

theorem car_call (h : c.InScope s env) (ha : a.Gives env s (· = .list id (x :: xs))) :
    (Primitive.car.call [a]).Gives env s (· = x) := by
  apply Code.Gives.application_one (h.gives_primitive .car) ha
  rintro _ rfl
  exact Value.gives_of_apply_eq fun _ => rfl

theorem cdr_call (h : c.InScope s env) (ha : a.Gives env s (· = .list id (x :: xs))) :
    (Primitive.cdr.call [a]).Gives env s (·.items? = some xs) := by
  apply Code.Gives.application_one (h.gives_primitive .cdr) ha
  rintro _ rfl
  exact Value.gives_of_apply_eq_makeList fun _ => rfl

theorem cons_call (h : c.InScope s env) (ha : a.Gives env s (· = x))
    (hb : b.Gives env s (·.items? = some xs)) :
    (Primitive.cons.call [a, b]).Gives env s (·.items? = some (x :: xs)) := by
  apply Code.Gives.application_two (h.gives_primitive .cons) ha hb
  intro _ v rfl hv
  rw [← Primitive.consItems_of_items? hv]
  exact Value.gives_cons _ v

theorem list_call (h : c.InScope s env) (ha : a.Gives env s (· = v)) :
    (Primitive.list.call [a]).Gives env s (·.items? = some [v]) := by
  apply Code.Gives.application_one (h.gives_primitive .list) ha
  rintro _ rfl
  exact Value.gives_of_apply_eq_makeList fun _ => rfl

end InScope
end Copy

theorem gives_list {s : Store Code} {env : Env} (id : Identity) (items : List Val) :
    (Code.literal (.list id items)).Gives env s (·.items? = some items) :=
  (Code.gives_literal _).imp (by rintro _ rfl; rfl)

theorem gives_nil {s : Store Code} {env : Env} (id : Identity) :
    (nil id).Gives env s (·.items? = some []) :=
  gives_list id []

/-!
# The top level with the library
-/

theorem lookup?_single {s : Store Code} (f : FrameId) (x : Symbol) :
    s.lookup? ⟨f, []⟩ x = s.find? f x := by
  change [f].findSome? (fun g => s.find? g x) = _
  rw [List.findSome?_cons]
  cases s.find? f x <;> rfl

theorem exists_inScope_loaded {f : FrameId} {s : Store Code} (hf : f < s.frames.size)
    (hs : ∀ p : Primitive, s.find? f ⟨p.name⟩ = some (.primitive p)) :
    ∃ c : Copy, c.global = ⟨f, []⟩ ∧ c.InScope (loaded ⟨f, []⟩ s) ⟨f, []⟩ := by
  refine ⟨copy ⟨f, []⟩ s.nextIdentity, rfl, ?_, ?_, ?_⟩
  · intro g hg
    rw [List.mem_singleton.mp hg, size_loaded]
    exact hf
  · intro p
    rw [lookup?_single, find?_loaded_of_not_mem hf (primitive_not_mem p)]
    exact hs p
  · intro p
    rw [lookup?_single]
    exact find?_loaded ⟨f, []⟩ s hf p

end ListLibrary

open ListLibrary

/-- The library of a top level is in use in an environment: since it was loaded, no name of the
primitives and of the library has been bound anew in the global environment, and the environment
does not hide any of them. -/
structure Toplevel.KeepsLibrary (top : Toplevel) (s : Store Code) (env : Env) : Prop where
  loaded : ∃ depth s₀ s₁, Toplevel.withLibrary depth s₀ = some (.ok top, s₁) ∧
    ∀ name ∈ names, s.lookup? top.global name = s₁.lookup? top.global name
  within : env.Within s
  lookup?_eq : ∀ name ∈ names, s.lookup? env name = s.lookup? top.global name

namespace Toplevel

theorem KeepsLibrary.exists_copy {top : Toplevel} {s : Store Code} {env : Env}
    (h : top.KeepsLibrary s env) :
    ∃ c : Copy, c.global = top.global ∧ c.InScope s c.global ∧ c.InScope s env := by
  rcases h.loaded with ⟨depth, s₀, s₁, hloaded, hglobal⟩
  rcases withLibrary_eq_some hloaded with ⟨rfl, rfl⟩
  have hnew : s₀.frames.size < (made s₀).frames.size := by
    rw [size_made]
    exact Nat.lt_succ_self _
  rcases exists_inScope_loaded hnew (find?_made s₀) with ⟨c, hc, hscope⟩
  have hwithin : (⟨s₀.frames.size, []⟩ : Env).Within s := by
    intro f hf
    have hbound := (hglobal _ (primitive_mem_names .add)).trans (hscope.primitive .add)
    rw [lookup?_single] at hbound
    rw [List.mem_singleton.mp hf]
    exact Store.lt_of_isSome_find? (Option.isSome_of_eq_some hbound)
  have hcopy := hscope.of_lookup?_eq hwithin hglobal
  refine ⟨c, hc, ?_, hcopy.of_lookup?_eq h.within h.lookup?_eq⟩
  rw [hc]
  exact hcopy

/-- A library in use is a copy that is in scope. -/
theorem KeepsLibrary.exists_inScope {top : Toplevel} {s : Store Code} {env : Env}
    (h : top.KeepsLibrary s env) :
    ∃ c : Copy, c.InScope s c.global ∧ c.InScope s env := by
  rcases h.exists_copy with ⟨c, -, hscope⟩
  exact ⟨c, hscope⟩

theorem KeepsLibrary.define {top : Toplevel} {s : Store Code} (h : top.KeepsLibrary s top.global)
    {x : Symbol} (hx : x ∉ names) (v : Val) :
    top.KeepsLibrary (s.define top.global x v) top.global := by
  have hsize := h.within top.global.innermost (.head _)
  rcases h.loaded with ⟨depth, s₀, s₁, hloaded, hglobal⟩
  refine ⟨⟨depth, s₀, s₁, hloaded, ?_⟩, ?_, fun _ _ => rfl⟩
  · intro name hname
    rw [← hglobal name hname]
    apply Store.lookup?_bind_of_not_meets hsize
    rintro ⟨rfl, -⟩
    exact hx hname
  · intro f hf
    exact (h.within f hf).trans_eq (s.size_bind _ x v).symm

theorem keepsLibrary_loaded (s : Store Code) :
    KeepsLibrary ⟨⟨s.frames.size, []⟩⟩ (loaded ⟨s.frames.size, []⟩ (made s))
      ⟨s.frames.size, []⟩ := by
  rcases exists_withLibrary s with ⟨depth, h⟩
  refine ⟨⟨depth, s, _, h, fun _ _ => rfl⟩, ?_, fun _ _ => rfl⟩
  intro f hf
  rw [List.mem_singleton.mp hf, size_loaded, size_made]
  exact Nat.lt_succ_self _

theorem exists_keepsLibrary {x : Symbol} (hx : x ∉ names) (v : Val) :
    ∃ top s, KeepsLibrary top s top.global ∧ s.lookup? top.global x = some v := by
  have hkeeps := keepsLibrary_loaded {}
  exact ⟨_, _, hkeeps.define hx v,
    Store.lookup?_bind_of_meets (hkeeps.within 0 (.head _)) (.here _)⟩

end Toplevel
end MiniLisp
