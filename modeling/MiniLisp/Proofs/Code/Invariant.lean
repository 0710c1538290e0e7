import MiniLisp.Proofs.Code.Definitions

/-!
# Invariants of evaluation

An invariant says something of a store and of the values, code and environments that are used with
it.  It may say it relative to something that grows with the store, such as a list of what has been
made so far.  If it is kept by what running code does at one place, then it is kept by running code,
by calls and by evaluation, and what these end with has it too.  A fault in the middle of a run
makes no difference.

## Main statements

* `Invariant.Kept.evaluates`, `Invariant.Kept.applies`: running code and calls keep an invariant.
* `Invariant.Kept.evaluate`: so does evaluation.
-/

namespace MiniLisp

/-- What is said of a store and of what is used with it, for each index; indices grow as the store
does. -/
structure Invariant (ι : Type) where
  grows : ι → ι → Prop
  store : ι → Store Code → Prop
  value : ι → Val → Prop
  code : ι → Code → Prop
  env : ι → Env → Prop

namespace Invariant

variable {ι α γ : Type}

def values (I : Invariant ι) (i : ι) (vs : List Val) : Prop :=
  ∀ v ∈ vs, I.value i v

/-- How a run ends that keeps an invariant: for some larger index the store has it, and what the run
ends with is as `Q` says. -/
def Ends (I : Invariant ι) (Q : ι → α → Prop) (i : ι) (r : Except Fault α) (t : Store Code) :
    Prop :=
  ∃ j, I.grows i j ∧ I.store j t ∧ ∀ x, r = .ok x → Q j x

/-- What an invariant needs at each place where running code takes something apart, makes something
or changes the store. -/
structure Kept (I : Invariant ι) : Prop where
  refl : ∀ i, I.grows i i
  trans : ∀ {i j k}, I.grows i j → I.grows j k → I.grows i k
  value_grows : ∀ {i j v}, I.grows i j → I.value i v → I.value j v
  code_grows : ∀ {i j c}, I.grows i j → I.code i c → I.code j c
  env_grows : ∀ {i j e}, I.grows i j → I.env i e → I.env j e
  undefined : ∀ i, I.value i .undefined
  items : ∀ {i id items}, I.value i (.list id items) → I.values i items
  body : ∀ {i id ps body env}, I.value i (.procedure id ps body env) → I.code i body
  closure : ∀ {i id ps body env}, I.value i (.procedure id ps body env) → I.env i env
  literal : ∀ {i v}, I.code i (.literal v) → I.value i v
  part : ∀ {i code part}, I.code i code → part ∈ code.parts → I.code i part
  lambda : ∀ {i ps body}, I.code i (.lambda ps body) → I.code i body
  lookup : ∀ {i s env name v}, I.store i s → s.lookup? env name = some v → I.value i v
  bind : ∀ {i s v}, I.store i s → I.value i v → ∀ f name, I.store i (s.bind f name v)
  print : ∀ {i s}, I.store i s → ∀ line, I.store i { s with output := s.output.push line }
  answer : ∀ {i s p vs a t}, I.store i s → I.values i vs →
    Primitive.apply p vs s = some (.ok (.atom a), t) → I.value i (.atom a)
  list : ∀ {i s items}, I.store i s → I.values i items →
    I.Ends I.value i (.ok (.list s.nextIdentity items))
      { s with nextIdentity := s.nextIdentity + 1 }
  procedure : ∀ {i s ps body env}, I.store i s → I.code i body → I.env i env →
    I.Ends I.value i (.ok (.procedure s.nextIdentity ps body env))
      { s with nextIdentity := s.nextIdentity + 1 }
  extend : ∀ {i s env ps vs}, I.store i s → I.env i env → I.values i vs →
    I.Ends I.env i (.ok (s.extend env ps vs).1) (s.extend env ps vs).2
  analyze : ∀ {i s e code m}, I.store i s → I.value i e →
    Code.Translates s.nextIdentity e code m →
    I.Ends I.code i (.ok code) { s with nextIdentity := m }

/-!
# Ends of runs
-/

variable {I : Invariant ι} {Q : ι → α → Prop} {i j : ι} {t : Store Code}

theorem ends_of_refl (hrefl : I.grows i i) {x : α} (ht : I.store i t) (hx : Q i x) :
    I.Ends Q i (.ok x) t := by
  refine ⟨i, hrefl, ht, ?_⟩
  intro y hy
  cases hy
  exact hx

theorem Kept.ends_of_value (hI : I.Kept) {x : α} (ht : I.store i t) (hx : Q i x) :
    I.Ends Q i (.ok x) t :=
  ends_of_refl (hI.refl i) ht hx

theorem Kept.ends_of_fault (hI : I.Kept) (ht : I.store i t) (fault : Fault) :
    I.Ends Q i (.error fault) t :=
  ⟨i, hI.refl i, ht, nofun⟩

theorem Kept.ends_of_grows (hI : I.Kept) (hij : I.grows i j) {r : Except Fault α}
    (h : I.Ends Q j r t) :
    I.Ends Q i r t := by
  rcases h with ⟨k, hjk, ht, hr⟩
  exact ⟨k, hI.trans hij hjk, ht, hr⟩

theorem Ends.fault {Q' : ι → γ → Prop} {fault : Fault} (h : I.Ends Q i (.error fault) t) :
    I.Ends Q' i (.error fault) t := by
  rcases h with ⟨j, hij, ht, _⟩
  exact ⟨j, hij, ht, nofun⟩

namespace Kept

theorem operands (hI : I.Kept) {operator : Code} {operands : List Code}
    (h : I.code i (.application operator operands)) :
    ∀ c ∈ operands, I.code i c :=
  fun _ hc => hI.part h (.tail _ hc)

theorem finds (hI : I.Kept) {vs : List Val} (hvs : I.values i vs) {v : Val}
    (h : Primitive.Finds vs v) :
    I.value i v := by
  cases h with
  | argument hv => exact hvs _ hv
  | item hlist hv => exact hI.items (hvs _ hlist) _ hv
  | missing => exact hI.undefined i

theorem primitive (hI : I.Kept) {p : Primitive} {vs : List Val} {s : Store Code}
    {r : Except Fault Val} (h : p.apply vs s = some (r, t)) (hs : I.store i s)
    (hvs : I.values i vs) :
    I.Ends I.value i r t := by
  cases Primitive.outcome_of_apply h with
  | atom a => exact hI.ends_of_value hs (hI.answer hs hvs h)
  | found hfinds => exact hI.ends_of_value hs (hI.finds hvs hfinds)
  | list hitems => exact hI.list hs fun v hv => hI.finds hvs (hitems v hv)
  | print line => exact hI.ends_of_value (hI.print hs line) (hI.undefined i)
  | wrongType => exact hI.ends_of_fault hs _

theorem run_analyze (hI : I.Kept) {e : Val} {s : Store Code} {r : Except Fault Code}
    (h : Run.analyze e s = some (r, t)) (hs : I.store i s) (he : I.value i e) :
    I.Ends I.code i r t := by
  rcases Run.analyze_cases h with ⟨fault, _, rfl, rfl⟩ | ⟨code, m, hanalyze, rfl, rfl⟩
  · exact hI.ends_of_fault hs fault
  · exact hI.analyze hs he (Code.analyze_eq_ok_iff.mp hanalyze)

end Kept

/-!
# Running code
-/

mutual

theorem Kept.evaluates (hI : I.Kept) {i : ι} {code : Code} {env : Env} {s t : Store Code}
    {r : Except Fault Val} (h : code.Evaluates env s r t) (hs : I.store i s) (henv : I.env i env)
    (hcode : I.code i code) :
    I.Ends I.value i r t := by
  match h with
  | .literal => exact hI.ends_of_value hs (hI.literal hcode)
  | .reference hv => exact hI.ends_of_value hs (hI.lookup hs hv)
  | .unbound _ => exact hI.ends_of_fault hs _
  | .consequent htest _ hconsequent =>
      rcases hI.evaluates htest hs henv (hI.part hcode (.head _)) with ⟨j, hij, ht, _⟩
      have hpart := hI.code_grows hij (hI.part hcode (.tail _ (.head _)))
      exact hI.ends_of_grows hij (hI.evaluates hconsequent ht (hI.env_grows hij henv) hpart)
  | .alternative htest _ halternative =>
      rcases hI.evaluates htest hs henv (hI.part hcode (.head _)) with ⟨j, hij, ht, _⟩
      have hpart := hI.code_grows hij (hI.part hcode (.tail _ (.tail _ (.head _))))
      exact hI.ends_of_grows hij (hI.evaluates halternative ht (hI.env_grows hij henv) hpart)
  | .andThen hfirst hsecond =>
      rcases hI.evaluates hfirst hs henv (hI.part hcode (.head _)) with ⟨j, hij, ht, _⟩
      have hpart := hI.code_grows hij (hI.part hcode (.tail _ (.head _)))
      exact hI.ends_of_grows hij (hI.evaluates hsecond ht (hI.env_grows hij henv) hpart)
  | .application hoperator hoperands happlies =>
      rcases hI.evaluates hoperator hs henv (hI.part hcode (.head _)) with ⟨j, hij, ht, hf⟩
      have hparts := fun c hc => hI.code_grows hij (hI.operands hcode c hc)
      rcases hI.evaluatesEach hoperands ht (hI.env_grows hij henv) hparts with ⟨k, hjk, hu, hvs⟩
      have hcall := hI.applies happlies hu (hI.value_grows hjk (hf _ rfl)) (hvs _ rfl)
      exact hI.ends_of_grows hij (hI.ends_of_grows hjk hcall)
  | .operandFault hoperator hoperands =>
      rcases hI.evaluates hoperator hs henv (hI.part hcode (.head _)) with ⟨j, hij, ht, _⟩
      have hparts := fun c hc => hI.code_grows hij (hI.operands hcode c hc)
      have hends := hI.evaluatesEach hoperands ht (hI.env_grows hij henv) hparts
      exact hI.ends_of_grows hij hends.fault
  | .define hvalue =>
      rcases hI.evaluates hvalue hs henv (hI.part hcode (.head _)) with ⟨j, hij, ht, hv⟩
      exact hI.ends_of_grows hij (hI.ends_of_value (hI.bind ht (hv _ rfl) _ _) (hv _ rfl))
  | .assign hvalue _ =>
      rcases hI.evaluates hvalue hs henv (hI.part hcode (.head _)) with ⟨j, hij, ht, hv⟩
      exact hI.ends_of_grows hij (hI.ends_of_value (hI.bind ht (hv _ rfl) _ _) (hv _ rfl))
  | .assignUnbound hvalue _ =>
      rcases hI.evaluates hvalue hs henv (hI.part hcode (.head _)) with ⟨j, hij, ht, _⟩
      exact hI.ends_of_grows hij (hI.ends_of_fault ht _)
  | .lambda => exact hI.procedure hs (hI.lambda hcode) henv
  | .firstFault hfirst hfault =>
      exact hI.evaluates hfault hs henv (hI.part hcode (Code.mem_parts_of_first? hfirst))

theorem Kept.evaluatesEach (hI : I.Kept) {i : ι} {codes : List Code} {env : Env}
    {s t : Store Code} {r : Except Fault (List Val)} (h : Code.EvaluatesEach codes env s r t)
    (hs : I.store i s) (henv : I.env i env) (hcodes : ∀ c ∈ codes, I.code i c) :
    I.Ends I.values i r t := by
  match h with
  | .nil => exact hI.ends_of_value hs nofun
  | .cons hc hcs =>
      rcases hI.evaluates hc hs henv (hcodes _ (.head _)) with ⟨j, hij, ht, hv⟩
      have hrest := fun c hc => hI.code_grows hij (hcodes c (.tail _ hc))
      rcases hI.evaluatesEach hcs ht (hI.env_grows hij henv) hrest with ⟨k, hjk, hu, hvs⟩
      refine hI.ends_of_grows hij (hI.ends_of_grows hjk (hI.ends_of_value hu ?_))
      intro w hw
      cases hw with
      | head => exact hI.value_grows hjk (hv _ rfl)
      | tail _ hw => exact hvs _ rfl w hw
  | .headFault hc => exact (hI.evaluates hc hs henv (hcodes _ (.head _))).fault
  | .tailFault hc hcs =>
      rcases hI.evaluates hc hs henv (hcodes _ (.head _)) with ⟨j, hij, ht, _⟩
      have hrest := fun c hc => hI.code_grows hij (hcodes c (.tail _ hc))
      exact hI.ends_of_grows hij (hI.evaluatesEach hcs ht (hI.env_grows hij henv) hrest)

theorem Kept.applies (hI : I.Kept) {i : ι} {f : Val} {vs : List Val} {s t : Store Code}
    {r : Except Fault Val} (h : f.Applies vs s r t) (hs : I.store i s) (hf : I.value i f)
    (hvs : I.values i vs) :
    I.Ends I.value i r t := by
  match h with
  | .primitive hp => exact hI.primitive hp hs hvs
  | .procedure hbody =>
      rcases hI.extend hs (hI.closure hf) hvs with ⟨j, hij, hinner, henv⟩
      have hcode := hI.code_grows hij (hI.body hf)
      exact hI.ends_of_grows hij (hI.evaluates hbody hinner (henv _ rfl) hcode)
  | .notCallable _ _ => exact hI.ends_of_fault hs _

end

theorem Kept.evaluate (hI : I.Kept) {depth : Nat} {e : Val} {env : Env} {s t : Store Code}
    {r : Except Fault Val} (h : evaluate depth e env s = some (r, t)) (hs : I.store i s)
    (henv : I.env i env) (he : I.value i e) :
    I.Ends I.value i r t := by
  rcases Run.bind_eq_some h with ⟨code, u, hanalyze, hrun⟩ | ⟨fault, hanalyze, rfl⟩
  · rcases hI.run_analyze hanalyze hs he with ⟨j, hij, hu, hcode⟩
    have hends := hI.evaluates (Code.evaluates_of_run hrun) hu (hI.env_grows hij henv)
      (hcode code rfl)
    exact hI.ends_of_grows hij hends
  · exact (hI.run_analyze hanalyze hs he).fault

end Invariant
end MiniLisp
