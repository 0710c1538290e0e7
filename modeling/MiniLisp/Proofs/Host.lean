import MiniLisp.Proofs.Code.WellFormed
import MiniLisp.Proofs.Datum.RoundTrip

/-!
# Hosts

A host works on a store by one action after another, each on things that it has got from earlier
ones: values, environments and code.  An evaluation of a whole text is a row of such actions.

## Main statements

* `Invariant.KeptByHosts.reaches`: an invariant that evaluation keeps, and that what a host can make
  of nothing has, is kept by all that hosts do.
* `Host.eq_of_innermost_eq`: environments with the same innermost frame are the same.
* `Host.stays_wellFormed`: every store that a host can reach is well formed, and whatever the host
  does next keeps each frame where it was made, with the names that it binds.
-/

namespace MiniLisp

inductive Thing where
  | value (v : Val)
  | environment (env : Env)
  | code (c : Code)

structure Host where
  store : Store Code := {}
  held : List Thing := []

/-- What a host has got, can take out of what it has got, or can make of nothing. -/
inductive Host.Has (h : Host) : Thing → Prop where
  | held {x} :
      x ∈ h.held →
      Has h x
  | atom (a : Atom) : Has h (.value (.atom a))
  | primitive (p : Primitive) : Has h (.value (.primitive p))
  | undefined : Has h (.value .undefined)
  | item {id items v} :
      Has h (.value (.list id items)) →
      v ∈ items →
      Has h (.value v)
  | body {id parameters body env} :
      Has h (.value (.procedure id parameters body env)) →
      Has h (.code body)
  | env {id parameters body env} :
      Has h (.value (.procedure id parameters body env)) →
      Has h (.environment env)

inductive Action where
  | newEnv
  | extend (env : Env) (parameters : List Symbol) (arguments : List Val)
  | define (env : Env) (name : Symbol) (v : Val)
  | assign (env : Env) (name : Symbol) (v : Val)
  | lookup (env : Env) (name : Symbol)
  | read (d : Datum)
  | list (items : List Val)
  | procedure (parameters : List Symbol) (body : Code) (env : Env)
  | analyze (e : Val)
  | run (code : Code) (env : Env)
  | evaluate (e : Val) (env : Env)
  | apply (operator : Val) (arguments : List Val)

namespace Action

def uses : Action → List Thing
  | .newEnv => []
  | .extend env _ arguments => .environment env :: arguments.map .value
  | .define env _ v => [.environment env, .value v]
  | .assign env _ v => [.environment env, .value v]
  | .lookup env _ => [.environment env]
  | .read _ => []
  | .list items => items.map .value
  | .procedure _ body env => [.code body, .environment env]
  | .analyze e => [.value e]
  | .run code env => [.code code, .environment env]
  | .evaluate e env => [.value e, .environment env]
  | .apply operator arguments => .value operator :: arguments.map .value

/-- Does an action, and says what is got by it; programs may nest `depth` deep. -/
def perform (depth : Nat) : Action → Run Code (List Thing)
  | .newEnv => do
      let env ← Run.newEnv
      pure [.environment env]
  | .extend env parameters arguments => do
      let inner ← Run.extend env parameters arguments
      pure [.environment inner]
  | .define env name v => do
      Run.define env name v
      pure []
  | .assign env name v => do
      Run.assign env name v
      pure []
  | .lookup env name => do
      let v ← Run.lookup env name
      pure [.value v]
  | .read d => do
      let v ← Run.makeValue d
      pure [.value v]
  | .list items => do
      let v ← Run.makeList items
      pure [.value v]
  | .procedure parameters body env => do
      let id ← Run.fresh
      pure [.value (.procedure id parameters body env)]
  | .analyze e => do
      let code ← Run.analyze e
      pure [.code code]
  | .run code env => do
      let v ← code.run depth env
      pure [.value v]
  | .evaluate e env => do
      let v ← MiniLisp.evaluate depth e env
      pure [.value v]
  | .apply operator arguments => do
      let v ← operator.apply depth arguments
      pure [.value v]

end Action

/-- One action, with things that the host has; if it fails, nothing is got by it. -/
inductive Host.Step (h : Host) : Host → Prop where
  | got (depth : Nat) (action : Action) {things : List Thing} {t : Store Code} :
      (∀ x ∈ action.uses, h.Has x) →
      action.perform depth h.store = some (.ok things, t) →
      Step h ⟨t, things ++ h.held⟩
  | failed (depth : Nat) (action : Action) {fault : Fault} {t : Store Code} :
      (∀ x ∈ action.uses, h.Has x) →
      action.perform depth h.store = some (.error fault, t) →
      Step h ⟨t, h.held⟩

/-!
# What actions do to the store
-/

theorem steps_of_analyze {e : Val} {s t : Store Code} {r : Except Fault Code}
    {may : FrameId → Symbol → Prop} (h : Run.analyze e s = some (r, t)) :
    s.Steps may t := by
  rcases Run.analyze_cases h with ⟨_, _, _, rfl⟩ | ⟨code, m, hanalyze, _, rfl⟩
  · exact .refl
  · exact .single (.fresh (Code.analyze_eq_ok_iff.mp hanalyze).le)

namespace Action

variable {α : Type} {s t : Store Code}

theorem steps_of_bind {a : Run Code α} {f : α → List Thing} {r : Except Fault (List Thing)}
    {may : FrameId → Symbol → Prop}
    (h : (a >>= fun x => pure (f x)) s = some (r, t))
    (ha : ∀ {r t}, a s = some (r, t) → s.Steps may t) :
    s.Steps may t := by
  rcases Run.bind_eq_some h with ⟨x, t, ha', h⟩ | ⟨fault, ha', _⟩
  · cases h
    exact ha ha'
  · exact ha ha'

theorem steps {depth : Nat} {action : Action} {r : Except Fault (List Thing)}
    (h : action.perform depth s = some (r, t)) :
    s.Steps (fun _ _ => True) t := by
  cases action with
  | newEnv =>
      cases h
      exact .single (.push _)
  | extend =>
      cases h
      exact .single (.push _)
  | define =>
      cases h
      exact .single (.define trivial)
  | assign env name v =>
      refine steps_of_bind h ?_
      intro r t h
      rcases Run.assign_cases h with ⟨f, hholder, rfl, rfl⟩ | ⟨_, rfl, rfl⟩
      · exact .single (.assign hholder)
      · exact .refl
  | lookup env name =>
      refine steps_of_bind h ?_
      intro r t h
      rcases Run.lookup_cases h with ⟨v, _, rfl, rfl⟩ | ⟨_, rfl, rfl⟩
      · exact .refl
      · exact .refl
  | read d =>
      cases h
      exact .single (.fresh (Value.le_ofDatum _ d))
  | list =>
      cases h
      exact .single (.fresh (Nat.le_succ _))
  | procedure =>
      cases h
      exact .single (.fresh (Nat.le_succ _))
  | analyze e =>
      exact steps_of_bind h steps_of_analyze
  | run code env =>
      refine steps_of_bind h ?_
      intro r t h
      exact (Code.evaluates_of_run h).steps.mono fun _ _ _ => trivial
  | evaluate e env =>
      refine steps_of_bind h ?_
      intro r t h
      exact (steps_of_evaluate h).mono fun _ _ _ => trivial
  | apply operator arguments =>
      refine steps_of_bind h ?_
      intro r t h
      exact (Code.applies_of_apply h).steps.mono fun _ _ _ => trivial

end Action

/-!
# What hosts keep
-/

namespace Invariant

variable {ι α : Type}

def thing (I : Invariant ι) (i : ι) : Thing → Prop
  | .value v => I.value i v
  | .environment env => I.env i env
  | .code c => I.code i c

def things (I : Invariant ι) (i : ι) (xs : List Thing) : Prop :=
  ∀ x ∈ xs, I.thing i x

structure OfHost (I : Invariant ι) (i : ι) (h : Host) : Prop where
  store : I.store i h.store
  held : I.things i h.held

structure KeptByHosts (I : Invariant ι) : Prop extends I.Kept where
  atom : ∀ i a, I.value i (.atom a)
  operation : ∀ i p, I.value i (.primitive p)
  newEnv : ∀ {i s}, I.store i s → I.Ends I.env i (.ok s.newEnv.1) s.newEnv.2
  datum : ∀ {i s d v m}, I.store i s → Value.ofDatum s.nextIdentity d = (v, m) →
    I.Ends I.value i (.ok v) { s with nextIdentity := m }

variable {I : Invariant ι} {Q : ι → α → Prop} {i j : ι} {s t : Store Code} {h h' : Host}

theorem things_singleton {x : Thing} (hx : I.thing i x) :
    I.things i [x] := by
  intro y hy
  rw [List.mem_singleton.mp hy]
  exact hx

theorem values_of_things {vs : List Val} (hvs : I.things i (vs.map Thing.value)) :
    I.values i vs :=
  fun v hv => hvs (.value v) (List.mem_map_of_mem hv)

theorem Kept.thing_grows (hI : I.Kept) (hij : I.grows i j) {x : Thing} (hx : I.thing i x) :
    I.thing j x := by
  cases x with
  | value v => exact hI.value_grows hij hx
  | environment env => exact hI.env_grows hij hx
  | code c => exact hI.code_grows hij hx

theorem Ends.things {x : α} {xs : List Thing} (hends : I.Ends Q i (.ok x) t)
    (hxs : ∀ j, Q j x → I.things j xs) :
    I.Ends I.things i (.ok xs) t := by
  rcases hends with ⟨j, hij, ht, hx⟩
  refine ⟨j, hij, ht, ?_⟩
  intro ys hys
  cases hys
  exact hxs j (hx x rfl)

theorem ends_of_bind {a : Run Code α} {f : α → List Thing} {r : Except Fault (List Thing)}
    (hrun : (a >>= fun x => pure (f x)) s = some (r, t))
    (ha : ∀ {r t}, a s = some (r, t) → I.Ends Q i r t)
    (hf : ∀ j x, Q j x → I.things j (f x)) :
    I.Ends I.things i r t := by
  rcases Run.bind_eq_some hrun with ⟨x, t, ha', hrun⟩ | ⟨fault, ha', rfl⟩
  · cases hrun
    exact (ha ha').things fun j hx => hf j x hx
  · exact (ha ha').fault

theorem ends_of_bind_value {a : Run Code Val} {r : Except Fault (List Thing)}
    (hrun : (a >>= fun v => pure [Thing.value v]) s = some (r, t))
    (ha : ∀ {r t}, a s = some (r, t) → I.Ends I.value i r t) :
    I.Ends I.things i r t :=
  ends_of_bind hrun ha fun _ _ hv => things_singleton hv

namespace KeptByHosts

theorem perform (hI : I.KeptByHosts) {depth : Nat} {action : Action}
    {r : Except Fault (List Thing)} (hperform : action.perform depth s = some (r, t))
    (hs : I.store i s) (huses : I.things i action.uses) :
    I.Ends I.things i r t := by
  cases action with
  | newEnv =>
      cases hperform
      exact (hI.newEnv hs).things fun j henv => things_singleton henv
  | extend env parameters arguments =>
      cases hperform
      have hvs := values_of_things fun x hx => huses x (.tail _ hx)
      exact (hI.extend hs (huses _ (.head _)) hvs).things fun j henv => things_singleton henv
  | define env name v =>
      cases hperform
      exact hI.ends_of_value (hI.bind hs (huses _ (.tail _ (.head _))) _ _) nofun
  | assign env name v =>
      have hassigned : ∀ {r t}, Run.assign env name v s = some (r, t) →
          I.Ends (fun _ _ => True) i r t := by
        intro r t hassign
        rcases Run.assign_cases hassign with ⟨f, _, rfl, rfl⟩ | ⟨_, rfl, rfl⟩
        · exact hI.ends_of_value (hI.bind hs (huses _ (.tail _ (.head _))) _ _) trivial
        · exact hI.ends_of_fault hs _
      exact ends_of_bind hperform hassigned fun _ _ _ => nofun
  | lookup env name =>
      refine ends_of_bind_value hperform ?_
      intro r t hlookup
      rcases Run.lookup_cases hlookup with ⟨v, hv, rfl, rfl⟩ | ⟨_, rfl, rfl⟩
      · exact hI.ends_of_value hs (hI.lookup hs hv)
      · exact hI.ends_of_fault hs _
  | read d =>
      cases hperform
      exact (hI.datum hs rfl).things fun j hv => things_singleton hv
  | list items =>
      cases hperform
      exact (hI.list hs (values_of_things huses)).things fun j hv => things_singleton hv
  | procedure parameters body env =>
      cases hperform
      have hbody := huses (.code body) (.head _)
      have henv := huses (.environment env) (.tail _ (.head _))
      exact (hI.procedure hs hbody henv).things fun j hv => things_singleton hv
  | analyze e =>
      refine ends_of_bind hperform ?_ fun _ _ hcode => things_singleton hcode
      exact fun hanalyze => hI.run_analyze hanalyze hs (huses _ (.head _))
  | run code env =>
      refine ends_of_bind_value hperform ?_
      exact fun hrun => hI.evaluates (Code.evaluates_of_run hrun) hs
        (huses _ (.tail _ (.head _))) (huses _ (.head _))
  | evaluate e env =>
      refine ends_of_bind_value hperform ?_
      exact fun hrun => hI.evaluate hrun hs (huses _ (.tail _ (.head _))) (huses _ (.head _))
  | apply operator arguments =>
      refine ends_of_bind_value hperform ?_
      exact fun hrun => hI.applies (Code.applies_of_apply hrun) hs (huses _ (.head _))
        (values_of_things fun x hx => huses x (.tail _ hx))

theorem has (hI : I.KeptByHosts) (hhost : I.OfHost i h) {x : Thing} (hx : h.Has x) :
    I.thing i x := by
  induction hx with
  | held hmem => exact hhost.held _ hmem
  | atom a => exact hI.atom i a
  | primitive p => exact hI.operation i p
  | undefined => exact hI.undefined i
  | item _ hmem ih => exact hI.items ih _ hmem
  | body _ ih => exact hI.body ih
  | env _ ih => exact hI.closure ih

theorem step (hI : I.KeptByHosts) (hstep : h.Step h') (hhost : I.OfHost i h) :
    ∃ j, I.grows i j ∧ I.OfHost j h' := by
  cases hstep with
  | got _ _ huses hperform =>
      rcases hI.perform hperform hhost.store fun x hx => hI.has hhost (huses x hx) with
        ⟨j, hij, hstore, hthings⟩
      refine ⟨j, hij, hstore, ?_⟩
      intro x hx
      rcases List.mem_append.mp hx with hx | hx
      · exact hthings _ rfl x hx
      · exact hI.thing_grows hij (hhost.held x hx)
  | failed _ _ huses hperform =>
      rcases hI.perform hperform hhost.store fun x hx => hI.has hhost (huses x hx) with
        ⟨j, hij, hstore, _⟩
      exact ⟨j, hij, hstore, fun x hx => hI.thing_grows hij (hhost.held x hx)⟩

theorem reaches (hI : I.KeptByHosts) (hreach : Relation.ReflTransGen Host.Step h h')
    (hhost : I.OfHost i h) :
    ∃ j, I.grows i j ∧ I.OfHost j h' := by
  induction hreach with
  | refl => exact ⟨i, hI.refl i, hhost⟩
  | tail _ hstep ih =>
      rcases ih with ⟨j, hij, hmiddle⟩
      rcases hI.step hstep hmiddle with ⟨k, hjk, hlast⟩
      exact ⟨k, hI.trans hij hjk, hlast⟩

end KeptByHosts

end Invariant

/-!
# Well-formed hosts
-/

/-- Whether all environments that a thing leads to are frames with all frames outside them. -/
def Thing.Rooted (parents : Lineage) : Thing → Prop
  | .value v => v.Rooted parents
  | .environment env => parents.Chain env.chain
  | .code c => c.Rooted parents

def Thing.AllRooted (parents : Lineage) (things : List Thing) : Prop :=
  ∀ x ∈ things, x.Rooted parents

structure Host.WellFormed (parents : Lineage) (h : Host) : Prop where
  store : h.store.WellFormed parents
  held : Thing.AllRooted parents h.held

namespace Lineage

variable {parents : Lineage} {h : Host}

theorem invariant_thing (parents : Lineage) (x : Thing) :
    invariant.thing parents x = x.Rooted parents := by
  cases x with
  | value | environment | code => rfl

theorem ofHost_iff : invariant.OfHost parents h ↔ h.WellFormed parents := by
  constructor
  · exact fun hhost => ⟨hhost.store, fun x hx => invariant_thing parents x ▸ hhost.held x hx⟩
  · exact fun hwell => ⟨hwell.store, fun x hx => invariant_thing parents x ▸ hwell.held x hx⟩

theorem invariant_keptByHosts : invariant.KeptByHosts where
  toKept := invariant_kept
  atom := fun _ => Value.rooted_atom
  operation := fun _ => Value.rooted_primitive
  newEnv := by
    intro parents s hs
    rcases Store.WellFormed.newEnv hs with ⟨hnew, hchain⟩
    refine ⟨_, invariant_grows parents [none], hnew, ?_⟩
    intro env henv
    cases henv
    exact hchain
  datum := by
    intro parents s d v m hs hdatum
    refine Invariant.ends_of_refl (List.prefix_refl _) (Store.WellFormed.of_frames_eq hs rfl) ?_
    intro env henv
    have hnone : ¬ (Value.ofDatum s.nextIdentity d).1.Captures env :=
      Value.not_captures_ofDatum s.nextIdentity d
    rw [hdatum] at hnone
    exact absurd henv hnone

end Lineage

theorem Host.WellFormed.has {parents : Lineage} {h : Host} (hwell : h.WellFormed parents)
    {x : Thing} (hx : h.Has x) :
    x.Rooted parents :=
  Lineage.invariant_thing parents x ▸
    Lineage.invariant_keptByHosts.has (Lineage.ofHost_iff.mpr hwell) hx

/-!
# What a host can reach
-/

namespace Host

variable {h h' : Host}

theorem Step.steps (hstep : h.Step h') : h.store.Steps (fun _ _ => True) h'.store := by
  cases hstep with
  | got _ _ _ hperform => exact Action.steps hperform
  | failed _ _ _ hperform => exact Action.steps hperform

theorem steps_of_reaches (hreach : Relation.ReflTransGen Host.Step h h') :
    h.store.Steps (fun _ _ => True) h'.store := by
  induction hreach with
  | refl => exact .refl
  | tail _ hstep ih => exact ih.trans hstep.steps

theorem wellFormed_of_reaches (hreach : Relation.ReflTransGen Host.Step h h')
    {parents : Lineage} (hwell : h.WellFormed parents) :
    ∃ added : Lineage, h'.WellFormed (parents ++ added) := by
  rcases Lineage.invariant_keptByHosts.reaches hreach (Lineage.ofHost_iff.mpr hwell) with
    ⟨_, ⟨added, rfl⟩, hwell'⟩
  exact ⟨added, Lineage.ofHost_iff.mp hwell'⟩

theorem WellFormed.outward {parents : Lineage} (hwell : h.WellFormed parents)
    {env : Env} (henv : h.Has (.environment env)) :
    parents.outward h.store.frames.size env.innermost = some env.chain := by
  have hchain : parents.Chain env.chain := hwell.has henv
  apply Lineage.outward_of_chain hwell.store.older hchain
  rw [← hwell.store.length_eq]
  exact hchain.lt_length _ (.head _)

theorem WellFormed.exists_root {parents : Lineage} (hwell : h.WellFormed parents) {f : FrameId}
    (hf : f < h.store.frames.size) :
    ∃ root, parents[root]? = some none ∧ Relation.ReflTransGen parents.Inside f root := by
  rw [← hwell.store.length_eq] at hf
  rcases hwell.store.older.exists_chain hf with ⟨rest, hchain⟩
  exact hchain.exists_root

/-- An environment is known by its innermost frame. -/
theorem eq_of_innermost_eq (hreach : Relation.ReflTransGen Host.Step {} h) {env env' : Env}
    (henv : h.Has (.environment env)) (henv' : h.Has (.environment env'))
    (heq : env.innermost = env'.innermost) : env = env' := by
  rcases wellFormed_of_reaches hreach ⟨.empty, nofun⟩ with ⟨parents, hwell⟩
  have hchain := hwell.outward henv
  rw [heq, hwell.outward henv', Option.some.injEq] at hchain
  exact (Env.eq_of_chain_eq hchain).symm

/-- Each frame of a store that a host can reach was made inside an older one or outside all, and
whatever the host does next, failing or not, it stays there, keeps its names, and what could be
looked up can be looked up.  No frame is outside itself, the way outward from a frame ends, and
going outward from an environment meets the frames of its chain and no others. -/
theorem stays_wellFormed (hreach : Relation.ReflTransGen Host.Step {} h) :
    ∃ parents : Lineage, h.WellFormed parents ∧
      ∀ h', Relation.ReflTransGen Host.Step h h' →
        ∃ added : Lineage, h'.WellFormed (parents ++ added) ∧
          (∀ f, ¬ Relation.TransGen (Lineage.Inside (parents ++ added)) f f) ∧
          (∀ f < h'.store.frames.size, ∃ root, (parents ++ added)[root]? = some none ∧
            Relation.ReflTransGen (Lineage.Inside (parents ++ added)) f root) ∧
          (∀ env, h'.Has (.environment env) →
            Lineage.outward (parents ++ added) h'.store.frames.size env.innermost =
              some env.chain) ∧
          (∀ f < h.store.frames.size, ∃ names,
            (h'.store.frame f).names = (h.store.frame f).names ++ names) ∧
          ∀ env name, (h.store.lookup? env name).isSome → (h'.store.lookup? env name).isSome := by
  have hempty : ({} : Host).WellFormed [] := ⟨.empty, nofun⟩
  rcases wellFormed_of_reaches hreach hempty with ⟨parents, hwell⟩
  refine ⟨parents, hwell, ?_⟩
  intro h' hreach'
  rcases wellFormed_of_reaches hreach' hwell with ⟨added, hwell'⟩
  have hsteps := steps_of_reaches hreach'
  refine ⟨added, hwell', ?_, ?_, ?_, ?_, ?_⟩
  · exact fun f hf => Nat.lt_irrefl f (hwell'.store.older.lt_of_transGen hf)
  · exact fun f hf => hwell'.exists_root hf
  · exact fun env henv => hwell'.outward henv
  · intro f hf
    rcases hsteps.names hf with ⟨names, hnames, _⟩
    exact ⟨names, hnames⟩
  · exact fun env name hname => hsteps.isSome_lookup? hname

def recursiveDefinition : Datum :=
  .list [.atom (.symbol ⟨"define"⟩), .atom (.symbol ⟨"f"⟩),
    .list [.atom (.symbol ⟨"lambda"⟩), .list [], .atom (.symbol ⟨"f"⟩)]]

def recursiveProcedure : Val :=
  .procedure 3 [] (.reference ⟨"f"⟩) ⟨0, []⟩

theorem stays_wellFormed_recursion :
    ∃ h h' : Host, Relation.ReflTransGen Host.Step {} h ∧ h.Step h' ∧
      h.store.frames.size = 1 ∧ h'.store.frames.size = 2 ∧
      h'.store.lookup? ⟨0, []⟩ ⟨"f"⟩ = some recursiveProcedure ∧
      ∃ parents added : Lineage, h.WellFormed parents ∧ h'.WellFormed (parents ++ added) ∧
        Lineage.outward (parents ++ added) 2 0 = some [0] := by
  let e : Val := (Value.ofDatum 0 recursiveDefinition).1
  let defined : Store Code :=
    { frames := #[⟨[(⟨"f"⟩, recursiveProcedure)]⟩], nextIdentity := 4 }
  let called : Store Code := { defined with frames := defined.frames.push {} }
  have hanalyze : Code.analyze e 3 =
      .ok (.define ⟨"f"⟩ (.lambda [] (.reference ⟨"f"⟩)), 3) :=
    Code.analyze_eq_ok_iff.mpr
      (.form rfl (.define (.form rfl (.lambda rfl (.last .reference)))))
  have hevaluate : evaluate 9 e ⟨0, []⟩ { frames := #[{}], nextIdentity := 3 } =
      some (.ok recursiveProcedure, defined) :=
    Run.bind_of_ok (f := fun c : Code => c.run 9 ⟨0, []⟩)
      (Run.analyze_of_ok (s := { frames := #[{}], nextIdentity := 3 }) hanalyze)
  have hmade : Host.Step {} ⟨{ frames := #[{}] }, [.environment ⟨0, []⟩]⟩ :=
    .got 9 .newEnv nofun rfl
  have hread : Host.Step ⟨{ frames := #[{}] }, [.environment ⟨0, []⟩]⟩
      ⟨{ frames := #[{}], nextIdentity := 3 }, [.value e, .environment ⟨0, []⟩]⟩ :=
    .got 9 (.read recursiveDefinition) nofun rfl
  have hdefined : Host.Step
      ⟨{ frames := #[{}], nextIdentity := 3 }, [.value e, .environment ⟨0, []⟩]⟩
      ⟨defined, [.value recursiveProcedure, .value e, .environment ⟨0, []⟩]⟩ := by
    refine .got 9 (.evaluate e ⟨0, []⟩) ?_ (Run.bind_of_ok hevaluate)
    exact fun x hx => .held hx
  have hcalled : Host.Step ⟨defined, [.value recursiveProcedure, .value e, .environment ⟨0, []⟩]⟩
      ⟨called, [.value recursiveProcedure, .value recursiveProcedure, .value e,
        .environment ⟨0, []⟩]⟩ := by
    have hlookup : called.lookup? ⟨1, [0]⟩ ⟨"f"⟩ = some recursiveProcedure := rfl
    have happly : recursiveProcedure.apply 9 [] defined = some (.ok recursiveProcedure, called) :=
      Run.lookup_of_some hlookup
    refine .got 9 (.apply recursiveProcedure []) ?_ (Run.bind_of_ok happly)
    intro x hx
    rw [List.mem_singleton.mp hx]
    exact .held (.head _)
  have hreach := ((Relation.ReflTransGen.single hmade).tail hread).tail hdefined
  rcases stays_wellFormed hreach with ⟨parents, hwell, hnext⟩
  rcases hnext _ (.single hcalled) with ⟨added, hwell', _, _, houtward, _⟩
  refine ⟨_, _, hreach, hcalled, rfl, rfl, rfl, parents, added, hwell, hwell', ?_⟩
  exact houtward ⟨0, []⟩ (.held (.tail _ (.tail _ (.tail _ (.head _)))))

end Host
end MiniLisp
