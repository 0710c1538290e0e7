import MiniLisp.Proofs.Code.Rules
import MiniLisp.Proofs.Store.Cells

/-!
# Quiet runs

A quiet run ends with a value, prints nothing and leaves every frame that was there as it was; it
may make frames, lists and procedures.  Such a run ends alike wherever other quiet runs come before
it, so what code gives is said once for a store and for all stores that quiet runs make of it, and
the rules of evaluation become rules about what the parts of code give.

## Main statements

* `Code.Gives.application`, `Value.gives_procedure`: a call is quiet if its parts and the body are.
* `Code.gives_recursive`: so is a local procedure that calls itself under an assigned name.
* `Code.Gives.answers`: what code gives, it answers at every depth from some depth on.
-/

namespace MiniLisp

/-- The second store is the first one with new frames and with identities given out. -/
structure Store.Undisturbed {β : Type} (s t : Store β) : Prop where
  evolves : s.Evolves (fun _ => False) t
  output_eq : t.output = s.output

def Env.Within {β : Type} (env : Env) (s : Store β) : Prop :=
  ∀ f ∈ env.chain, f < s.frames.size

namespace Store

variable {β : Type} {s t u : Store β} {env : Env}

namespace Undisturbed

theorem frame_eq (h : s.Undisturbed t) {f : FrameId} (hf : f < s.frames.size) :
    t.frame f = s.frame f :=
  h.evolves.frame_eq f hf id

theorem refl (s : Store β) : s.Undisturbed s :=
  ⟨.refl s, rfl⟩

theorem trans (h : s.Undisturbed t) (h' : t.Undisturbed u) : s.Undisturbed u :=
  ⟨h.evolves.trans h'.evolves fun _ => False.elim, h'.output_eq.trans h.output_eq⟩

theorem push (s : Store β) (F : Frame β) : s.Undisturbed (s.push F).2 :=
  ⟨.push F, rfl⟩

theorem extend (s : Store β) (env : Env) (ps : List Symbol) (vs : List (Value β)) :
    s.Undisturbed (s.extend env ps vs).2 :=
  push s _

theorem fresh (s : Store β) : s.Undisturbed { s with nextIdentity := s.nextIdentity + 1 } :=
  ⟨.fresh, rfl⟩

theorem bind (h : s.Undisturbed t) {f : FrameId} (hf : s.frames.size ≤ f) (name : Symbol)
    (v : Value β) :
    s.Undisturbed (t.bind f name v) := by
  have hbind : t.Evolves (f = ·) (t.bind f name v) := .bind rfl name v
  refine ⟨h.evolves.trans hbind ?_, h.output_eq⟩
  rintro _ rfl
  exact Or.inr hf

theorem within (h : s.Undisturbed t) (henv : env.Within s) : env.Within t :=
  fun f hf => Nat.lt_of_lt_of_le (henv f hf) h.evolves.size_le

theorem lookup?_eq (h : s.Undisturbed t) (henv : env.Within s) (name : Symbol) :
    t.lookup? env name = s.lookup? env name := by
  have hfind : ∀ f ∈ env.chain, t.find? f name = s.find? f name := by
    intro f hf
    unfold find?
    rw [h.frame_eq (henv f hf)]
  unfold lookup?
  generalize env.chain = chain at hfind ⊢
  induction chain with
  | nil => rfl
  | cons f chain ih =>
      rw [List.findSome?_cons, List.findSome?_cons, hfind f (.head _),
        ih fun g hg => hfind g (.tail _ hg)]

end Undisturbed

theorem lookup?_push {f : FrameId} {F : Frame β} (h : s.frame f = F) (env : Env) (name : Symbol) :
    s.lookup? (env.push f) name = (F.find? name).or (s.lookup? env name) := by
  change (f :: env.chain).findSome? (fun g => (s.frame g).find? name) = _
  rw [List.findSome?_cons, h]
  cases F.find? name with
  | none => rfl
  | some v => rfl

theorem frame_extend (s : Store β) (env : Env) (ps : List Symbol) (vs : List (Value β)) :
    (s.extend env ps vs).2.frame s.frames.size = Frame.bindAll {} ps vs := by
  change (s.push (Frame.bindAll {} ps vs)).2.frame s.frames.size = _
  rw [frame_push, if_pos rfl]

theorem size_extend (s : Store β) (env : Env) (ps : List Symbol) (vs : List (Value β)) :
    (s.extend env ps vs).2.frames.size = s.frames.size + 1 :=
  s.size_push _

theorem lookup?_extend (henv : env.Within s) (ps : List Symbol) (vs : List (Value β))
    (name : Symbol) :
    (s.extend env ps vs).2.lookup? (s.extend env ps vs).1 name =
      ((Frame.bindAll {} ps vs).find? name).or (s.lookup? env name) := by
  rw [← (Undisturbed.extend s env ps vs).lookup?_eq henv name]
  exact lookup?_push (frame_extend s env ps vs) env name

theorem within_extend (henv : env.Within s) (ps : List Symbol) (vs : List (Value β)) :
    (s.extend env ps vs).1.Within (s.extend env ps vs).2 := by
  intro f hf
  rw [size_extend]
  cases hf with
  | head => exact Nat.lt_succ_self _
  | tail _ hf => exact Nat.lt_succ_of_lt (henv f hf)

end Store

theorem Frame.find?_bindAll_of_not_mem {β : Type} {F : Frame β} {ps : List Symbol} {name : Symbol}
    (h : name ∉ ps) (vs : List (Value β)) :
    (F.bindAll ps vs).find? name = F.find? name := by
  induction ps generalizing F vs with
  | nil => rfl
  | cons p ps ih =>
      have hne : p ≠ name := fun heq => h (heq ▸ .head _)
      have hrest : name ∉ ps := fun hmem => h (.tail _ hmem)
      have hbind : ∀ v, (F.bind p v).find? name = F.find? name := by
        intro v
        rw [Frame.find?_bind, if_neg hne]
      cases vs with
      | nil => exact (ih hrest []).trans (hbind .undefined)
      | cons v vs => exact (ih hrest vs).trans (hbind v)

/-!
# What code gives
-/

/-- From a store, and from all that quiet runs make of it, code runs quietly and ends with a value
as told. -/
def Code.Gives (code : Code) (env : Env) (s : Store Code) (P : Val → Prop) : Prop :=
  ∀ t, s.Undisturbed t → ∃ v u, code.Evaluates env t (.ok v) u ∧ t.Undisturbed u ∧ P v

def Code.GivesEach (codes : List Code) (env : Env) (s : Store Code) (P : List Val → Prop) : Prop :=
  ∀ t, s.Undisturbed t → ∃ vs u, Code.EvaluatesEach codes env t (.ok vs) u ∧ t.Undisturbed u ∧ P vs

def Value.Gives (f : Val) (vs : List Val) (s : Store Code) (P : Val → Prop) : Prop :=
  ∀ t, s.Undisturbed t → ∃ v u, f.Applies vs t (.ok v) u ∧ t.Undisturbed u ∧ P v

/-- At every depth from some depth on, code ends with a value as told, having printed nothing and
changed no frame that was there. -/
def Code.Answers (code : Code) (env : Env) (s : Store Code) (P : Val → Prop) : Prop :=
  ∃ least v t, (∀ depth, least ≤ depth → code.run depth env s = some (.ok v, t)) ∧
    s.Undisturbed t ∧ P v

namespace Value

variable {f : Val} {vs : List Val} {s t : Store Code} {P Q : Val → Prop}

theorem Gives.of_undisturbed (h : f.Gives vs s P) (hst : s.Undisturbed t) : f.Gives vs t P :=
  fun u htu => h u (hst.trans htu)

theorem Gives.imp (h : f.Gives vs s P) (himp : ∀ v, P v → Q v) : f.Gives vs s Q := by
  intro t hst
  rcases h t hst with ⟨v, u, hv, htu, hP⟩
  exact ⟨v, u, hv, htu, himp v hP⟩

theorem gives_of_apply_eq {p : Primitive} {v : Val}
    (h : ∀ t : Store Code, p.apply vs t = some (.ok v, t)) :
    (Value.primitive p).Gives vs s (· = v) :=
  fun t _ => ⟨v, t, .primitive (h t), .refl t, rfl⟩

theorem gives_of_apply_eq_makeList {p : Primitive} {items : List Val}
    (h : ∀ t : Store Code, p.apply vs t = Run.makeList items t) :
    (Value.primitive p).Gives vs s (·.items? = some items) :=
  fun t _ => ⟨.list t.nextIdentity items, _, .primitive (h t), .fresh t, rfl⟩

/-- A procedure gives what its body gives in a new frame. -/
theorem gives_procedure {id : Identity} {ps : List Symbol} {body : Code} {env : Env}
    (h : ∀ t, s.Undisturbed t → body.Gives (t.extend env ps vs).1 (t.extend env ps vs).2 P) :
    (Value.procedure id ps body env).Gives vs s P := by
  intro t hst
  rcases h t hst _ (.refl _) with ⟨v, u, hbody, htu, hP⟩
  exact ⟨v, u, .procedure hbody, (Store.Undisturbed.extend t env ps vs).trans htu, hP⟩

end Value

namespace Code

variable {code operator : Code} {operands : List Code} {env : Env} {s t : Store Code}
  {P Q R : Val → Prop} {f : Val}

theorem Gives.imp (h : code.Gives env s P) (himp : ∀ v, P v → Q v) : code.Gives env s Q := by
  intro t hst
  rcases h t hst with ⟨v, u, hv, htu, hP⟩
  exact ⟨v, u, hv, htu, himp v hP⟩

theorem Gives.of_undisturbed (h : code.Gives env s P) (hst : s.Undisturbed t) :
    code.Gives env t P :=
  fun u htu => h u (hst.trans htu)

theorem gives_literal (v : Val) : (literal v).Gives env s (· = v) :=
  fun t _ => ⟨v, t, .literal, .refl t, rfl⟩

theorem gives_reference (henv : env.Within s) {name : Symbol} {v : Val}
    (h : s.lookup? env name = some v) :
    (reference name).Gives env s (· = v) :=
  fun t hst => ⟨v, t, .reference ((hst.lookup?_eq henv name).trans h), .refl t, rfl⟩

theorem Gives.consequent {test consequent alternative : Code}
    (htest : test.Gives env s (· = .bool true)) (h : consequent.Gives env s P) :
    (branch test consequent alternative).Gives env s P := by
  intro t hst
  rcases htest t hst with ⟨_, m, hv, htm, rfl⟩
  rcases h m (hst.trans htm) with ⟨w, u, hw, hmu, hP⟩
  exact ⟨w, u, .consequent hv rfl hw, htm.trans hmu, hP⟩

theorem Gives.alternative {test consequent alternative : Code}
    (htest : test.Gives env s (· = .bool false)) (h : alternative.Gives env s P) :
    (branch test consequent alternative).Gives env s P := by
  intro t hst
  rcases htest t hst with ⟨_, m, hv, htm, rfl⟩
  rcases h m (hst.trans htm) with ⟨w, u, hw, hmu, hP⟩
  exact ⟨w, u, .alternative hv rfl hw, htm.trans hmu, hP⟩

theorem givesEach {Ps : List (Val → Prop)}
    (h : List.Forall₂ (fun operand P => Gives operand env s P) operands Ps) :
    GivesEach operands env s fun vs => List.Forall₂ (fun v P => P v) vs Ps := by
  induction h with
  | nil => exact fun t _ => ⟨[], t, .nil, .refl t, .nil⟩
  | cons hc _ ih =>
      intro t hst
      rcases hc t hst with ⟨v, m, hv, htm, hP⟩
      rcases ih m (hst.trans htm) with ⟨vs, u, hvs, hmu, hPs⟩
      exact ⟨v :: vs, u, .cons hv hvs, htm.trans hmu, .cons hP hPs⟩

/-- An application gives what its operator gives for the values of the operands. -/
theorem Gives.application {F : Val → Prop} {Ps : List (Val → Prop)}
    (hoperator : operator.Gives env s F)
    (hoperands : List.Forall₂ (fun operand P => Gives operand env s P) operands Ps)
    (h : ∀ f vs, F f → List.Forall₂ (fun v P => P v) vs Ps → f.Gives vs s R) :
    (application operator operands).Gives env s R := by
  intro t hst
  rcases hoperator t hst with ⟨f, m, hf, htm, hF⟩
  rcases givesEach hoperands m (hst.trans htm) with ⟨vs, n, hvs, hmn, hPs⟩
  have htn := htm.trans hmn
  rcases h f vs hF hPs n (hst.trans htn) with ⟨w, u, hw, hnu, hR⟩
  exact ⟨w, u, .application hf hvs hw, htn.trans hnu, hR⟩

theorem Gives.application_one {a : Code}
    (hoperator : operator.Gives env s (· = f)) (ha : a.Gives env s P)
    (h : ∀ v, P v → f.Gives [v] s R) :
    (Code.application operator [a]).Gives env s R := by
  apply Gives.application hoperator (.cons ha .nil)
  rintro _ _ rfl (_ | ⟨hv, _ | _⟩)
  exact h _ hv

theorem Gives.application_two {a b : Code}
    (hoperator : operator.Gives env s (· = f)) (ha : a.Gives env s P) (hb : b.Gives env s Q)
    (h : ∀ v w, P v → Q w → f.Gives [v, w] s R) :
    (Code.application operator [a, b]).Gives env s R := by
  apply Gives.application hoperator (.cons ha (.cons hb .nil))
  rintro _ _ rfl (_ | ⟨hv, _ | ⟨hw, _ | _⟩⟩)
  exact h _ _ hv hw

theorem Gives.application_three {a b c : Code} {T : Val → Prop}
    (hoperator : operator.Gives env s (· = f)) (ha : a.Gives env s P) (hb : b.Gives env s Q)
    (hc : c.Gives env s T) (h : ∀ v w x, P v → Q w → T x → f.Gives [v, w, x] s R) :
    (Code.application operator [a, b, c]).Gives env s R := by
  apply Gives.application hoperator (.cons ha (.cons hb (.cons hc .nil)))
  rintro _ _ rfl (_ | ⟨hv, _ | ⟨hw, _ | ⟨hx, _ | _⟩⟩⟩)
  exact h _ _ _ hv hw hx

theorem gives_lambda (ps : List Symbol) (body : Code) :
    (lambda ps body).Gives env s fun f => ∃ id, f = .procedure id ps body env :=
  fun t _ => ⟨_, _, .lambda, .fresh t, _, rfl⟩

/-- A local name to which a procedure is assigned at once: the rest runs where the name means that
procedure, which finds itself under it, and where other names mean what they mean outside. -/
theorem exists_recursive (henv : env.Within s) (hst : s.Undisturbed t) (id : Identity)
    (name : Symbol) (v : Val) (ps : List Symbol) (body : Code) :
    ∃ n inner loop, t.Undisturbed n ∧ inner.Within n ∧
      n.lookup? inner name = some (.procedure loop ps body inner) ∧
      (∀ x, x ≠ name → n.lookup? inner x = s.lookup? env x) ∧
      ∀ {rest : Code} {r : Except Fault Val} {u : Store Code}, rest.Evaluates inner n r u →
        (Value.procedure id [name] (andThen (assign name (lambda ps body)) rest) env).Applies
          [v] t r u := by
  have ht := hst.within henv
  let inner := (t.extend env [name] [v]).1
  let m := (t.extend env [name] [v]).2
  let f := t.frames.size
  let loop : Val := .procedure m.nextIdentity ps body inner
  let n : Store Code := { m with nextIdentity := m.nextIdentity + 1 }
  have hinner : inner.Within n := Store.within_extend ht [name] [v]
  have hf : f < n.frames.size := hinner f (.head _)
  have hbound : n.find? f name = some v := by
    change ((t.push (Frame.bindAll {} [name] [v])).2.frame f).find? name = some v
    rw [Store.frame_push, if_pos rfl, Frame.bindAll, Frame.bindAll, Frame.find?_bind, if_pos rfl]
  have hholder : n.holder? inner name = some f :=
    Store.holder?_eq_some_iff.mpr ⟨.here _, Option.isSome_of_eq_some hbound⟩
  refine ⟨n.bind f name loop, inner, m.nextIdentity, ?_, ?_, ?_, ?_, ?_⟩
  · exact ((Store.Undisturbed.extend t env [name] [v]).trans (.fresh m)).bind (Nat.le_refl _) name
      loop
  · intro g hg
    rw [Store.size_bind]
    exact hinner g hg
  · exact Store.lookup?_bind_of_meets hf (.here _)
  · intro x hx
    rw [Store.lookup?_bind_of_not_meets hf fun hmeets => hx hmeets.1]
    apply (Store.lookup?_extend ht [name] [v] x).trans
    rw [Frame.find?_bindAll_of_not_mem (fun hmem => hx (List.mem_singleton.mp hmem)),
      hst.lookup?_eq henv]
    rfl
  · intro rest r u hrest
    exact .procedure (.andThen (.assign .lambda hholder) hrest)

/-- A local procedure that calls itself gives what the rest gives that is run with it. -/
theorem gives_recursive {name : Symbol} {ps : List Symbol} {initial body rest : Code}
    (henv : env.Within s) (hinitial : initial.Gives env s Q)
    (h : ∀ t inner id, inner.Within t →
      t.lookup? inner name = some (.procedure id ps body inner) →
      (∀ x, x ≠ name → t.lookup? inner x = s.lookup? env x) → rest.Gives inner t R) :
    (application (lambda [name] (andThen (assign name (lambda ps body)) rest))
      [initial]).Gives env s R := by
  apply Gives.application (gives_lambda _ _) (.cons hinitial .nil)
  rintro _ _ ⟨id, rfl⟩ (_ | ⟨hv, _ | _⟩)
  rename_i v
  intro t hst
  rcases exists_recursive henv hst id name v ps body with
    ⟨n, inner, loop, htn, hinner, hloop, hkept, hrecursive⟩
  rcases h n inner loop hinner hloop hkept n (.refl n) with ⟨w, u, hw, hnu, hR⟩
  exact ⟨w, u, hrecursive hw, htn.trans hnu, hR⟩

/-- What code gives, it answers. -/
theorem Gives.answers (h : code.Gives env s P) : code.Answers env s P := by
  rcases h s (.refl s) with ⟨v, t, hv, hst, hP⟩
  rcases hv.exists_run with ⟨least, hrun⟩
  exact ⟨least, v, t, fun depth hdepth => run_mono hdepth code env s _ hrun, hst, hP⟩

end Code
end MiniLisp
