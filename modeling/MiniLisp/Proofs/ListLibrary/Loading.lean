import MiniLisp.Proofs.Code.Phases
import MiniLisp.Proofs.Code.Quiet
import MiniLisp.Proofs.ListLibrary.Procedures

/-!
# Loading the list library

Making a top level and loading the list library binds names in one frame, one after another.  Every
loading makes a copy of the library: its procedures get new identities and belong to the global
environment that they are loaded into.

## Main statements

* `Toplevel.loadLibrary_eq`: loading the library is running its code.
* `Toplevel.loadLibrary_of_le`: loading the library succeeds, whatever names mean.
* `ListLibrary.find?_loaded`, `ListLibrary.find?_loaded_of_not_mem`: what names are bound to then.
-/

namespace MiniLisp

namespace Store

variable {β : Type}

def bindEach (s : Store β) (f : FrameId) (pairs : List (Symbol × Value β)) : Store β :=
  pairs.foldl (fun s pair => s.bind f pair.1 pair.2) s

variable {f g : FrameId} {pairs : List (Symbol × Value β)} {name : Symbol} {v : Value β}

theorem size_bindEach (s : Store β) (f : FrameId) (pairs : List (Symbol × Value β)) :
    (s.bindEach f pairs).frames.size = s.frames.size := by
  induction pairs generalizing s with
  | nil => rfl
  | cons pair pairs ih => exact (ih _).trans (s.size_bind f pair.1 pair.2)

theorem bindEach_with_nextIdentity (s : Store β) (f : FrameId) (pairs : List (Symbol × Value β))
    (n : Identity) :
    { s with nextIdentity := n }.bindEach f pairs =
      { s.bindEach f pairs with nextIdentity := n } := by
  induction pairs generalizing s with
  | nil => rfl
  | cons pair pairs ih => exact ih (s.bind f pair.1 pair.2)

theorem output_bindEach (s : Store β) (f : FrameId) (pairs : List (Symbol × Value β)) :
    (s.bindEach f pairs).output = s.output := by
  induction pairs generalizing s with
  | nil => rfl
  | cons pair pairs ih => exact ih (s.bind f pair.1 pair.2)

theorem frame_bindEach_of_ne (s : Store β) (hne : f ≠ g) (pairs : List (Symbol × Value β)) :
    (s.bindEach f pairs).frame g = s.frame g := by
  induction pairs generalizing s with
  | nil => rfl
  | cons pair pairs ih => exact (ih _).trans (s.frame_bind_of_ne hne pair.1 pair.2)

theorem find?_bindEach_of_not_mem {s : Store β} (hf : f < s.frames.size)
    (h : name ∉ pairs.map Prod.fst) :
    (s.bindEach f pairs).find? g name = s.find? g name := by
  induction pairs generalizing s with
  | nil => rfl
  | cons pair pairs ih =>
      have hne : pair.1 ≠ name := fun heq => h (heq ▸ .head _)
      have hrest : name ∉ pairs.map Prod.fst := fun hmem => h (.tail _ hmem)
      rw [← s.size_bind f pair.1 pair.2] at hf
      apply (ih hf hrest).trans
      rw [s.size_bind] at hf
      rw [find?_bind s f g pair.1 name pair.2 hf, if_neg fun heq => hne heq.2]

theorem find?_bindEach_of_mem {s : Store β} (hf : f < s.frames.size)
    (hnodup : (pairs.map Prod.fst).Nodup) (h : (name, v) ∈ pairs) :
    (s.bindEach f pairs).find? f name = some v := by
  induction pairs generalizing s with
  | nil => cases h
  | cons pair pairs ih =>
      have hbound : f < (s.bind f pair.1 pair.2).frames.size := by
        rwa [s.size_bind]
      rcases List.nodup_cons.mp hnodup with ⟨hnew, hnodup⟩
      cases h with
      | head =>
          apply (find?_bindEach_of_not_mem hbound hnew).trans
          rw [find?_bind s f f name name v hf, if_pos ⟨rfl, rfl⟩]
      | tail _ h => exact ih hbound hnodup h

end Store

theorem Primitive.nodup_names_every :
    (Primitive.every.map fun p => (⟨p.name⟩ : Symbol)).Nodup := by
  decide

/-!
# Running the definitions
-/

namespace ListLibrary

/-- The names of a row of procedures with the procedures that are made for them, of which the first
gets the identity `i`. -/
def closures (n : Identity) (env : Env) : Identity → List Procedure → List (Symbol × Val)
  | _, [] => []
  | i, p :: ps =>
      (⟨p.name⟩, .procedure i p.parameters (p.body n) env) :: closures n env (i + 1) ps

theorem map_fst_closures (n : Identity) (env : Env) (i : Identity) (ps : List Procedure) :
    (closures n env i ps).map Prod.fst = ps.map fun p => ⟨p.name⟩ := by
  induction ps generalizing i with
  | nil => rfl
  | cons p ps ih => exact congrArg _ (ih (i + 1))

theorem mem_closures (n : Identity) (env : Env) (i : Identity) {p : Procedure}
    {ps : List Procedure} (h : p ∈ ps) :
    (⟨p.name⟩, .procedure (i + ps.idxOf p) p.parameters (p.body n) env) ∈ closures n env i ps := by
  induction ps generalizing i with
  | nil => cases h
  | cons q ps ih =>
      by_cases hq : q = p
      · subst hq
        rw [List.idxOf_cons_self]
        exact .head _
      · have hps : p ∈ ps := (List.mem_cons.mp h).resolve_left fun heq => hq heq.symm
        have hplace : i + 1 + ps.idxOf p = i + (q :: ps).idxOf p := by
          rw [List.idxOf_cons_ne _ hq]
          exact Nat.add_right_comm i 1 _
        exact .tail _ (hplace ▸ ih (i + 1) hps)

def defined (n : Identity) (env : Env) (ps : List Procedure) (s : Store Code) : Store Code :=
  { s.bindEach env.innermost (closures n env s.nextIdentity ps) with
    nextIdentity := s.nextIdentity + ps.length }

theorem run_define (n : Identity) (p : Procedure) (depth : Nat) (env : Env) (s : Store Code) :
    (p.define n).run (depth + 2) env s =
      some (.ok (.procedure s.nextIdentity p.parameters (p.body n) env), defined n env [p] s) :=
  rfl

theorem defined_cons (n : Identity) (env : Env) (p : Procedure) (ps : List Procedure)
    (s : Store Code) :
    defined n env ps (defined n env [p] s) = defined n env (p :: ps) s := by
  have hlength : s.nextIdentity + 1 + ps.length = s.nextIdentity + (ps.length + 1) :=
    Nat.add_right_comm s.nextIdentity 1 ps.length
  unfold defined
  rw [Store.bindEach_with_nextIdentity]
  exact congrArg (fun next => { s.bindEach env.innermost
    (closures n env s.nextIdentity (p :: ps)) with nextIdentity := next }) hlength

/-- A row of definitions gives the procedure of the last one.  Each definition but the last is run
one level deeper than the one before it. -/
theorem run_defineEach (n : Identity) (p : Procedure) (ps : List Procedure) (depth : Nat)
    (env : Env) (s : Store Code) :
    (defineEach n p ps).run (depth + ps.length + 2) env s =
      some (.ok (.procedure (s.nextIdentity + ps.length) (ps.getLast?.getD p).parameters
        ((ps.getLast?.getD p).body n) env), defined n env (p :: ps) s) := by
  induction ps generalizing p s with
  | nil => exact run_define n p depth env s
  | cons q ps ih =>
      have hplace : s.nextIdentity + 1 + ps.length = s.nextIdentity + (q :: ps).length :=
        Nat.add_right_comm s.nextIdentity 1 ps.length
      have hlast : (q :: ps).getLast?.getD p = ps.getLast?.getD q := by
        rw [List.getLast?_cons, Option.getD_some]
      have hrest := ih q (defined n env [p] s)
      rw [defined_cons, show (defined n env [p] s).nextIdentity = s.nextIdentity + 1 from rfl,
        hplace, ← hlast] at hrest
      exact (Run.bind_of_ok (run_define n p (depth + ps.length) env s)).trans hrest

section

variable {n : Identity} {env : Env} {ps : List Procedure} {s : Store Code}

theorem size_defined : (defined n env ps s).frames.size = s.frames.size :=
  s.size_bindEach env.innermost _

theorem output_defined : (defined n env ps s).output = s.output :=
  s.output_bindEach env.innermost _

theorem frame_defined_of_ne {f : FrameId} (hf : env.innermost ≠ f) :
    (defined n env ps s).frame f = s.frame f :=
  s.frame_bindEach_of_ne hf _

theorem find?_defined (henv : env.innermost < s.frames.size)
    (hnodup : (ps.map fun p => (⟨p.name⟩ : Symbol)).Nodup) {p : Procedure} (hp : p ∈ ps) :
    (defined n env ps s).find? env.innermost ⟨p.name⟩ =
      some (.procedure (s.nextIdentity + ps.idxOf p) p.parameters (p.body n) env) := by
  rw [← map_fst_closures n env s.nextIdentity] at hnodup
  exact Store.find?_bindEach_of_mem henv hnodup (mem_closures n env s.nextIdentity hp)

theorem find?_defined_of_not_mem (henv : env.innermost < s.frames.size) {x : Symbol}
    (hx : x ∉ ps.map fun p => (⟨p.name⟩ : Symbol)) (f : FrameId) :
    (defined n env ps s).find? f x = s.find? f x := by
  rw [← map_fst_closures n env s.nextIdentity] at hx
  exact Store.find?_bindEach_of_not_mem henv hx

end

def loaded (env : Env) (s : Store Code) : Store Code :=
  defined s.nextIdentity env Procedure.every { s with nextIdentity := s.nextIdentity + 121 }

theorem size_loaded (env : Env) (s : Store Code) :
    (loaded env s).frames.size = s.frames.size := by
  unfold loaded
  rw [size_defined]

theorem output_loaded (env : Env) (s : Store Code) : (loaded env s).output = s.output := by
  unfold loaded
  rw [output_defined]

theorem frame_loaded_of_ne {env : Env} {f : FrameId} (hf : env.innermost ≠ f) (s : Store Code) :
    (loaded env s).frame f = s.frame f := by
  unfold loaded
  rw [frame_defined_of_ne hf]
  rfl

/-- Each name of the library is bound to a procedure with the parameters and the body of its
definition, in the environment that the library is loaded into. -/
theorem find?_loaded (env : Env) (s : Store Code) (henv : env.innermost < s.frames.size)
    (p : Procedure) :
    (loaded env s).find? env.innermost ⟨p.name⟩ =
      some (.procedure (s.nextIdentity + 121 + Procedure.every.idxOf p) p.parameters
        (p.body s.nextIdentity) env) := by
  have hsize : env.innermost <
      { s with nextIdentity := s.nextIdentity + 121 }.frames.size := henv
  unfold loaded
  exact find?_defined hsize Procedure.nodup_names_every p.mem_every

/-- Other names stay as they are. -/
theorem find?_loaded_of_not_mem {env : Env} {s : Store Code} (henv : env.innermost < s.frames.size)
    {x : Symbol} (hx : x ∉ Procedure.every.map fun p => (⟨p.name⟩ : Symbol)) (f : FrameId) :
    (loaded env s).find? f x = s.find? f x := by
  have hsize : env.innermost <
      { s with nextIdentity := s.nextIdentity + 121 }.frames.size := henv
  unfold loaded
  exact find?_defined_of_not_mem hsize hx f

end ListLibrary

namespace Toplevel

open ListLibrary

/-- Loading the library is running its code, once its lists and the ends of its `cond` forms have
their identities. -/
theorem loadLibrary_eq (depth : Nat) (top : Toplevel) (s : Store Code) :
    top.loadLibrary depth s =
      (code s.nextIdentity).run depth top.global
        { s with nextIdentity := s.nextIdentity + 121 } := by
  have hmake : Run.makeValue datum s = some (.ok (Value.ofDatum s.nextIdentity datum).1,
      { s with nextIdentity := s.nextIdentity + 117 }) := by
    rw [← ofDatum_datum]
    rfl
  have hanalyze := Run.analyze_of_ok (s := { s with nextIdentity := s.nextIdentity + 117 })
    (analyze_datum s.nextIdentity)
  unfold loadLibrary evalFirst
  rw [first_text]
  apply (Run.bind_of_ok rfl).trans
  apply (Run.bind_of_ok hmake).trans
  exact Run.bind_of_ok hanalyze

/-- Loading the library succeeds wherever runs may nest eleven deep, and gives the procedure that is
defined last. -/
theorem loadLibrary_of_le {depth : Nat} (hdepth : 11 ≤ depth) (top : Toplevel) (s : Store Code) :
    top.loadLibrary depth s =
      some (.ok (.procedure (s.nextIdentity + 130) Procedure.flatten.parameters
        (Procedure.flatten.body s.nextIdentity) top.global), loaded top.global s) := by
  rcases Nat.exists_eq_add_of_le' hdepth with ⟨more, rfl⟩
  rw [loadLibrary_eq]
  exact run_defineEach s.nextIdentity .length Procedure.every.tail more top.global
    { s with nextIdentity := s.nextIdentity + 121 }

theorem exists_loadLibrary (top : Toplevel) (s : Store Code) :
    ∃ depth v, top.loadLibrary depth s = some (.ok v, loaded top.global s) :=
  ⟨11, _, loadLibrary_of_le (Nat.le_refl 11) top s⟩

/-- What making a top level, in a frame of its own, makes of a store. -/
def made (s : Store Code) : Store Code :=
  (s.push {}).2.bindEach s.frames.size (Primitive.every.map fun p => (⟨p.name⟩, .primitive p))

theorem bindPrimitives_eq (env : Env) (s : Store Code) :
    bindPrimitives env s = some (.ok (), s.bindEach env.innermost
      (Primitive.every.map fun p => (⟨p.name⟩, .primitive p))) := by
  unfold bindPrimitives
  induction Primitive.every generalizing s with
  | nil => rfl
  | cons p ps ih => exact (Run.bind_of_ok rfl).trans (ih _)

theorem new_eq (s : Store Code) :
    new s = some (.ok ⟨⟨s.frames.size, []⟩⟩, made s) := by
  apply (Run.bind_of_ok rfl).trans
  exact Run.bind_of_ok (bindPrimitives_eq ⟨s.frames.size, []⟩ (s.push {}).2)

theorem size_made (s : Store Code) : (made s).frames.size = s.frames.size + 1 := by
  unfold made
  rw [Store.size_bindEach, Store.size_push]

theorem find?_made (s : Store Code) (p : Primitive) :
    (made s).find? s.frames.size ⟨p.name⟩ = some (.primitive p) := by
  have hnew : s.frames.size < (s.push {}).2.frames.size := by
    rw [Store.size_push]
    exact Nat.lt_succ_self _
  apply Store.find?_bindEach_of_mem hnew
  · rw [List.map_map]
    exact Primitive.nodup_names_every
  · exact List.mem_map_of_mem p.mem_every

theorem withLibrary_eq_some {depth : Nat} {s t : Store Code} {top : Toplevel}
    (h : withLibrary depth s = some (.ok top, t)) :
    top = ⟨⟨s.frames.size, []⟩⟩ ∧ t = loaded ⟨s.frames.size, []⟩ (made s) := by
  unfold withLibrary at h
  rw [Run.bind_of_ok (new_eq s)] at h
  rcases Run.bind_eq_some h with ⟨v, u, hload, h⟩ | ⟨fault, _, h⟩
  · cases h
    rcases exists_loadLibrary ⟨⟨s.frames.size, []⟩⟩ (made s) with ⟨deep, w, hdeep⟩
    rw [loadLibrary_eq] at hload hdeep
    have hagree := Code.run_agree hload hdeep
    cases hagree
    exact ⟨rfl, rfl⟩
  · cases h

theorem exists_withLibrary (s : Store Code) :
    ∃ depth, withLibrary depth s =
      some (.ok ⟨⟨s.frames.size, []⟩⟩, loaded ⟨s.frames.size, []⟩ (made s)) := by
  rcases exists_loadLibrary ⟨⟨s.frames.size, []⟩⟩ (made s) with ⟨depth, v, hload⟩
  refine ⟨depth, ?_⟩
  apply (Run.bind_of_ok (new_eq s)).trans
  exact Run.bind_of_ok hload

end Toplevel
end MiniLisp
