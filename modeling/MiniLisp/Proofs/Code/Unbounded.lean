import MiniLisp.Proofs.Code.Rules

/-!
# Runs that nest as deep as they need

A run that answers at some depth answers the same at every greater one.  So how it ends can be said
without a depth: as at any depth that suffices, or not at all if no depth does.  Such unbounded runs
are composed of unbounded runs, as the runs at a depth are composed of runs at a depth.

## Main statements

* `Run.unbounded_bind`, `Run.unbounded_mapM`: composed runs.
* `Code.eval_branch`, `Code.eval_application`, `Value.call_procedure`: running code, and calls.
* `Likeness.Runs.unbounded`: runs that are matched at every depth are matched without one.
-/

namespace MiniLisp
namespace Run

variable {β α γ δ : Type}

/-- Whether runs, one for every depth, keep their answers at greater depths. -/
def Deepens (a : Nat → Run β α) : Prop :=
  ∀ depth deeper, depth ≤ deeper → Below (a depth) (a deeper)

open Classical in
/-- How a run ends that may nest as deep as it needs. -/
noncomputable def unbounded (a : Nat → Run β α) : Run β α :=
  ExceptT.mk fun s => if h : ∃ depth, (a depth s).isSome then a h.choose s else none

theorem eq_of_eq_some_iff {a b : Run β α} (h : ∀ s e, a s = some e ↔ b s = some e) : a = b :=
  funext fun s => Option.ext fun e => h s e

namespace Deepens

variable {a : Nat → Run β α}

theorem const (a : Run β α) : Deepens fun _ => a :=
  fun _ _ _ => .refl a

theorem bind {f : Nat → α → Run β γ} (ha : Deepens a) (hf : ∀ x, Deepens fun depth => f depth x) :
    Deepens fun depth => a depth >>= f depth :=
  fun _ _ hle => .bind (ha _ _ hle) fun x => hf x _ _ hle

theorem mapM {f : Nat → δ → Run β α} (hf : ∀ x, Deepens fun depth => f depth x) (xs : List δ) :
    Deepens fun depth => xs.mapM (f depth) :=
  fun _ _ hle => .mapM (fun x => hf x _ _ hle) xs

theorem foldrM {f : Nat → δ → α → Run β α} (hf : ∀ x y, Deepens fun depth => f depth x y) (y : α)
    (xs : List δ) :
    Deepens fun depth => xs.foldrM (f depth) y := by
  induction xs with
  | nil => exact .const (pure y)
  | cons x xs ih =>
      simp only [List.foldrM_cons]
      exact ih.bind (hf x)

end Deepens

variable {a : Nat → Run β α}

theorem unbounded_eq_some_iff (ha : Deepens a) {s : Store β} {e : Except Fault α × Store β} :
    unbounded a s = some e ↔ ∃ depth, a depth s = some e := by
  constructor
  · intro h
    simp only [unbounded, ExceptT.mk] at h
    split at h
    · exact ⟨_, h⟩
    · cases h
  · rintro ⟨depth, h⟩
    have hsome : ∃ depth, (a depth s).isSome := ⟨depth, Option.isSome_of_eq_some h⟩
    simp only [unbounded, ExceptT.mk, dif_pos hsome]
    rcases Option.isSome_iff_exists.mp hsome.choose_spec with ⟨e', h'⟩
    have hdeep := ha _ _ (Nat.le_max_left depth hsome.choose) s e h
    rw [ha _ _ (Nat.le_max_right depth hsome.choose) s e' h'] at hdeep
    rw [h', Option.some.inj hdeep]

theorem unbounded_const (a : Run β α) : unbounded (fun _ => a) = a := by
  apply eq_of_eq_some_iff
  intro s e
  rw [unbounded_eq_some_iff (.const a)]
  exact ⟨fun ⟨_, h⟩ => h, fun h => ⟨0, h⟩⟩

theorem unbounded_succ (ha : Deepens a) : unbounded (fun depth => a (depth + 1)) = unbounded a := by
  apply eq_of_eq_some_iff
  intro s e
  rw [unbounded_eq_some_iff ha,
    unbounded_eq_some_iff fun _ _ hle => ha _ _ (Nat.succ_le_succ hle)]
  constructor
  · exact fun ⟨depth, h⟩ => ⟨depth + 1, h⟩
  · exact fun ⟨depth, h⟩ => ⟨depth, ha _ _ (Nat.le_succ depth) s e h⟩

theorem unbounded_bind {f : Nat → α → Run β γ} (ha : Deepens a)
    (hf : ∀ x, Deepens fun depth => f depth x) :
    unbounded (fun depth => a depth >>= f depth) =
      unbounded a >>= fun x => unbounded fun depth => f depth x := by
  apply eq_of_eq_some_iff
  rintro s ⟨r, u⟩
  rw [unbounded_eq_some_iff (ha.bind hf)]
  constructor
  · rintro ⟨depth, h⟩
    rcases bind_eq_some h with ⟨x, t, hx, h⟩ | ⟨fault, hfault, rfl⟩
    · rw [bind_of_ok ((unbounded_eq_some_iff ha).mpr ⟨depth, hx⟩)]
      exact (unbounded_eq_some_iff (hf x)).mpr ⟨depth, h⟩
    · exact bind_of_error ((unbounded_eq_some_iff ha).mpr ⟨depth, hfault⟩)
  · intro h
    rcases bind_eq_some h with ⟨x, t, hx, h⟩ | ⟨fault, hfault, rfl⟩
    · rcases (unbounded_eq_some_iff ha).mp hx with ⟨m, hm⟩
      rcases (unbounded_eq_some_iff (hf x)).mp h with ⟨n, hn⟩
      refine ⟨max m n, ?_⟩
      rw [bind_of_ok (ha _ _ (Nat.le_max_left m n) s _ hm)]
      exact hf x _ _ (Nat.le_max_right m n) t _ hn
    · rcases (unbounded_eq_some_iff ha).mp hfault with ⟨depth, hdepth⟩
      exact ⟨depth, bind_of_error hdepth⟩

theorem unbounded_mapM {f : Nat → δ → Run β α} (hf : ∀ x, Deepens fun depth => f depth x)
    (xs : List δ) :
    unbounded (fun depth => xs.mapM (f depth)) =
      xs.mapM fun x => unbounded fun depth => f depth x := by
  induction xs with
  | nil => exact unbounded_const _
  | cons x xs ih =>
      have hcons : ∀ y : α, Deepens fun depth => xs.mapM (f depth) >>= fun ys => pure (y :: ys) :=
        fun y => (Deepens.mapM hf xs).bind fun ys => .const _
      simp only [List.mapM_cons]
      refine (unbounded_bind (hf x) hcons).trans ?_
      congr 1
      funext y
      refine (unbounded_bind (.mapM hf xs) fun ys => .const (pure (y :: ys))).trans ?_
      rw [ih]
      congr 1
      funext ys
      exact unbounded_const _

theorem unbounded_foldrM {f : Nat → δ → α → Run β α}
    (hf : ∀ x y, Deepens fun depth => f depth x y) (y : α) (xs : List δ) :
    unbounded (fun depth => xs.foldrM (f depth) y) =
      xs.foldrM (fun x y => unbounded fun depth => f depth x y) y := by
  induction xs with
  | nil => exact unbounded_const _
  | cons x xs ih =>
      simp only [List.foldrM_cons]
      rw [unbounded_bind (.foldrM hf y xs) (hf x), ih]

end Run

open Run (Deepens unbounded)

/-- Runs that are matched at every depth are matched without one. -/
theorem Likeness.Runs.unbounded {β γ α α' : Type} {L : Likeness β γ} {W : Matching}
    {R : Matching → α → α' → Prop} {a : Nat → Run β α} {b : Nat → Run γ α'} (ha : Deepens a)
    (hb : Deepens b) (h : ∀ depth, L.Runs W R (a depth) (b depth)) :
    L.Runs W R (Run.unbounded a) (Run.unbounded b) := by
  intro s t hstores
  cases hx : Run.unbounded a s with
  | some e =>
      rcases (Run.unbounded_eq_some_iff ha).mp hx with ⟨depth, hdepth⟩
      have hends := h depth s t hstores
      rw [hdepth] at hends
      cases hy : b depth t with
      | some e' =>
          rw [(Run.unbounded_eq_some_iff hb).mpr ⟨depth, hy⟩, ← hy]
          exact hends
      | none =>
          rw [hy] at hends
          cases hends
  | none =>
      cases hy : Run.unbounded b t with
      | none => exact .unanswered
      | some e' =>
          rcases (Run.unbounded_eq_some_iff hb).mp hy with ⟨depth, hdepth⟩
          have hends := h depth s t hstores
          rw [hdepth] at hends
          cases hz : a depth s with
          | some e =>
              rw [(Run.unbounded_eq_some_iff ha).mpr ⟨depth, hz⟩] at hx
              cases hx
          | none =>
              rw [hz] at hends
              cases hends

/-!
# Running code
-/

namespace Code

theorem run_deepens (code : Code) (env : Env) : Deepens fun depth => code.run depth env :=
  fun _ _ hle => run_mono hle code env

noncomputable def eval (code : Code) (env : Env) : Run Code Val :=
  unbounded fun depth => code.run depth env

variable {env : Env} {s t : Store Code} {r : Except Fault Val}

theorem Evaluates.eval_eq {code : Code} (h : code.Evaluates env s r t) :
    code.eval env s = some (r, t) :=
  (Run.unbounded_eq_some_iff (code.run_deepens env)).mpr h.exists_run

theorem EvaluatesEach.mapM_eval_eq {codes : List Code} {r : Except Fault (List Val)}
    (h : EvaluatesEach codes env s r t) :
    (codes.mapM fun code => Code.eval code env) s = some (r, t) := by
  have hdeepens := Deepens.mapM (fun code : Code => code.run_deepens env) codes
  unfold eval
  rw [← Run.unbounded_mapM fun code => code.run_deepens env]
  exact (Run.unbounded_eq_some_iff hdeepens).mpr h.exists_run

end Code

namespace Value

theorem apply_deepens (f : Val) (vs : List Val) : Deepens fun depth => f.apply depth vs :=
  fun _ _ hle => Code.applyWith_run_mono hle f vs

noncomputable def call (f : Val) (vs : List Val) : Run Code Val :=
  unbounded fun depth => f.apply depth vs

theorem Applies.call_eq {f : Val} {vs : List Val} {s t : Store Code} {r : Except Fault Val}
    (h : f.Applies vs s r t) :
    f.call vs s = some (r, t) :=
  (Run.unbounded_eq_some_iff (f.apply_deepens vs)).mpr h.exists_run

theorem call_procedure (id : Identity) (ps : List Symbol) (body : Code) (env : Env)
    (vs : List Val) :
    call (.procedure id ps body env) vs = Run.extend env ps vs >>= body.eval := by
  refine (Run.unbounded_bind (.const _) fun inner => body.run_deepens inner).trans ?_
  rw [Run.unbounded_const]
  rfl

end Value

namespace Code

theorem eval_branch (test consequent alternative : Code) (env : Env) :
    (branch test consequent alternative).eval env =
      test.eval env >>= fun v =>
        if v.isTrue then consequent.eval env else alternative.eval env := by
  have hparts : ∀ v : Val, Deepens fun depth =>
      if v.isTrue then consequent.run depth env else alternative.run depth env := by
    intro v
    split
    · exact consequent.run_deepens env
    · exact alternative.run_deepens env
  unfold eval
  rw [← Run.unbounded_succ (run_deepens _ env)]
  refine (Run.unbounded_bind (test.run_deepens env) hparts).trans ?_
  congr 1
  funext v
  split
  · rfl
  · rfl

theorem eval_application (operator : Code) (operands : List Code) (env : Env) :
    (application operator operands).eval env =
      operator.eval env >>= fun f =>
        (operands.mapM fun operand => operand.eval env) >>= fun vs => f.call vs := by
  have hoperands : ∀ f : Val, Deepens fun depth =>
      (operands.mapM fun operand => operand.run depth env) >>= f.apply depth :=
    fun f => (Deepens.mapM (fun c => c.run_deepens env) operands).bind f.apply_deepens
  unfold eval
  rw [← Run.unbounded_succ (run_deepens _ env)]
  refine (Run.unbounded_bind (operator.run_deepens env) hoperands).trans ?_
  congr 1
  funext f
  rw [Run.unbounded_bind (Deepens.mapM (fun c => c.run_deepens env) operands) f.apply_deepens,
    Run.unbounded_mapM fun c => c.run_deepens env]
  rfl

theorem eval_application_two (operator a b : Code) (env : Env) :
    (application operator [a, b]).eval env =
      operator.eval env >>= fun f => a.eval env >>= fun v => b.eval env >>= fun w =>
        f.call [v, w] := by
  rw [eval_application]
  simp only [List.mapM_cons, List.mapM_nil, bind_assoc, pure_bind]

end Code
end MiniLisp
