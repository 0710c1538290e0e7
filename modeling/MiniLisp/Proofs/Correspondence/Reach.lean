import MiniLisp.Proofs.Code.Captures
import MiniLisp.Proofs.Correspondence.Toplevel

/-!
# What can be reached in matched stores

From an environment a program reaches the frames of its chain, and the frames of every environment
that a value in a reached frame leads to.  In matched stores matched environments reach matched
frames.

## Main statement

* `Store.Reaches.matched_left`, `Store.Reaches.matched_right`: whatever is reached in the one store
  has a partner that is reached in the other.
-/

namespace MiniLisp

inductive Store.Reaches (s : Store Code) (env : Env) : FrameId → Prop where
  | chain {f} :
      f ∈ env.chain →
      Reaches s env f
  | captured {f name v inner g} :
      Reaches s env f →
      s.find? f name = some v →
      v.Captures inner →
      g ∈ inner.chain →
      Reaches s env g

namespace Matching

variable {W : Matching}

def Chains (W : Matching) (env env' : Env) : Prop :=
  List.Forall₂ W.frames env.chain env'.chain

/-- Each environment of the one kind is matched with one of the other kind, and the other way
round. -/
structure Pairs (W : Matching) (p q : Env → Prop) : Prop where
  left : ∀ env, p env → ∃ env', q env' ∧ W.Chains env env'
  right : ∀ env', q env' → ∃ env, p env ∧ W.Chains env env'

namespace Pairs

variable {p q p' q' : Env → Prop}

theorem none (hp : ∀ env, ¬ p env) (hq : ∀ env, ¬ q env) : W.Pairs p q :=
  ⟨fun env henv => absurd henv (hp env), fun env henv => absurd henv (hq env)⟩

theorem one {env env' : Env} (h : W.Chains env env') : W.Pairs (· = env) (· = env') := by
  constructor
  · rintro _ rfl
    exact ⟨env', rfl, h⟩
  · rintro _ rfl
    exact ⟨env, rfl, h⟩

theorem or (h : W.Pairs p q) (h' : W.Pairs p' q') :
    W.Pairs (fun env => p env ∨ p' env) (fun env => q env ∨ q' env) := by
  constructor
  · rintro env (henv | henv)
    · rcases h.left env henv with ⟨env', hq, hchains⟩
      exact ⟨env', Or.inl hq, hchains⟩
    · rcases h'.left env henv with ⟨env', hq, hchains⟩
      exact ⟨env', Or.inr hq, hchains⟩
  · rintro env' (henv | henv)
    · rcases h.right env' henv with ⟨env, hp, hchains⟩
      exact ⟨env, Or.inl hp, hchains⟩
    · rcases h'.right env' henv with ⟨env, hp, hchains⟩
      exact ⟨env, Or.inr hp, hchains⟩

theorem congr (h : W.Pairs p q) (hp : ∀ env, p' env ↔ p env) (hq : ∀ env, q' env ↔ q env) :
    W.Pairs p' q' := by
  have hp : p' = p := funext fun env => propext (hp env)
  have hq : q' = q := funext fun env => propext (hq env)
  rw [hp, hq]
  exact h

theorem exists_mem {α α' : Type} {p : α → Env → Prop} {q : α' → Env → Prop}
    {xs : List α} {ys : List α'} (h : List.Forall₂ (fun x y => W.Pairs (p x) (q y)) xs ys) :
    W.Pairs (fun env => ∃ x ∈ xs, p x env) (fun env => ∃ y ∈ ys, q y env) := by
  induction h with
  | nil => exact .none (fun _ => nofun) (fun _ => nofun)
  | cons hxy _ ih =>
      refine (hxy.or ih).congr ?_ ?_
      · exact fun env => List.exists_mem_cons_iff _ _ _
      · exact fun env => List.exists_mem_cons_iff _ _ _

end Pairs
end Matching

/-!
# Matched values lead to matched environments
-/

section

variable {env : Env}

theorem Value.captures_procedure_iff {id : Identity} {ps : List Symbol} {body : Code}
    {outer : Env} :
    (Value.procedure id ps body outer).Captures env ↔ env = outer ∨ body.Captures env := by
  constructor
  · intro h
    cases h with
    | here => exact Or.inl rfl
    | body h => exact Or.inr h
  · rintro (rfl | h)
    · exact .here
    · exact .body h

theorem Code.captures_literal_iff {v : Val} : (Code.literal v).Captures env ↔ v.Captures env :=
  ⟨Captures.of_literal, .literal⟩

theorem Code.captures_lambda_iff {ps : List Symbol} {body : Code} :
    (Code.lambda ps body).Captures env ↔ body.Captures env :=
  ⟨Captures.of_lambda, .lambda⟩

theorem Code.captures_iff_parts {code : Code} (hliteral : ∀ v, code ≠ .literal v)
    (hlambda : ∀ ps body, code ≠ .lambda ps body) :
    code.Captures env ↔ ∃ part ∈ code.parts, part.Captures env := by
  constructor
  · exact fun h => h.exists_part hliteral hlambda
  · rintro ⟨part, hmem, h⟩
    exact .part hmem h

end

section

variable {N : Namings} {W : Matching}

theorem Matching.Pairs.of_parts {c d : Code}
    (h : List.Forall₂ (fun c d : Code => W.Pairs (fun env => c.Captures env) fun env =>
      d.Captures env) c.parts d.parts)
    (hc : ∀ v, c ≠ .literal v) (hc' : ∀ ps body, c ≠ .lambda ps body)
    (hd : ∀ v, d ≠ .literal v) (hd' : ∀ ps body, d ≠ .lambda ps body) :
    W.Pairs (fun env => c.Captures env) (fun env => d.Captures env) :=
  (Matching.Pairs.exists_mem h).congr (fun _ => Code.captures_iff_parts hc hc')
    (fun _ => Code.captures_iff_parts hd hd')

mutual

theorem Value.pairs_of_matches {v w : Val} (h : (Code.likeness N).Values W v w) :
    W.Pairs (fun env => v.Captures env) (fun env => w.Captures env) := by
  cases h with
  | atom a => exact .none (fun _ => Value.not_captures_atom a) (fun _ => Value.not_captures_atom a)
  | list _ hitems =>
      exact (Matching.Pairs.exists_mem (Value.pairs_of_matches_each hitems)).congr
        (fun _ => Value.captures_list_iff) (fun _ => Value.captures_list_iff)
  | primitive p =>
      exact .none (fun _ => Value.not_captures_primitive p)
        (fun _ => Value.not_captures_primitive p)
  | procedure _ halike =>
      cases halike with
      | intro _ hscopes hbody =>
          exact ((Matching.Pairs.one hscopes.frames).or (Code.pairs_of_alike hbody)).congr
            (fun _ => Value.captures_procedure_iff) (fun _ => Value.captures_procedure_iff)
  | undefined =>
      exact .none (fun _ => Value.not_captures_undefined) (fun _ => Value.not_captures_undefined)
termination_by structural v

theorem Value.pairs_of_matches_each {vs ws : List Val}
    (h : List.Forall₂ ((Code.likeness N).Values W) vs ws) :
    List.Forall₂ (fun v w : Val => W.Pairs (fun env => v.Captures env) fun env =>
      w.Captures env) vs ws := by
  cases h with
  | nil => exact .nil
  | cons hv hvs => exact .cons (Value.pairs_of_matches hv) (Value.pairs_of_matches_each hvs)
termination_by structural vs

theorem Code.pairs_of_alike {ρ : Symbol → Symbol → Prop} {c d : Code}
    (h : Code.Alike N W ρ c d) :
    W.Pairs (fun env => c.Captures env) (fun env => d.Captures env) := by
  cases h with
  | literal hv =>
      exact (Value.pairs_of_matches hv).congr (fun _ => Code.captures_literal_iff)
        (fun _ => Code.captures_literal_iff)
  | reference => exact .of_parts .nil nofun nofun nofun nofun
  | branch htest hconsequent halternative =>
      exact .of_parts (.cons (Code.pairs_of_alike htest) (.cons (Code.pairs_of_alike hconsequent)
        (.cons (Code.pairs_of_alike halternative) .nil))) nofun nofun nofun nofun
  | andThen hfirst hsecond =>
      exact .of_parts (.cons (Code.pairs_of_alike hfirst)
        (.cons (Code.pairs_of_alike hsecond) .nil)) nofun nofun nofun nofun
  | application hoperator hoperands =>
      exact .of_parts (.cons (Code.pairs_of_alike hoperator)
        (Code.pairs_of_alike_each hoperands)) nofun nofun nofun nofun
  | define _ hvalue =>
      exact .of_parts (.cons (Code.pairs_of_alike hvalue) .nil) nofun nofun nofun nofun
  | assign _ hvalue =>
      exact .of_parts (.cons (Code.pairs_of_alike hvalue) .nil) nofun nofun nofun nofun
  | lambda _ hbody =>
      exact (Code.pairs_of_alike hbody).congr (fun _ => Code.captures_lambda_iff)
        (fun _ => Code.captures_lambda_iff)
termination_by structural c

theorem Code.pairs_of_alike_each {ρ : Symbol → Symbol → Prop} {cs ds : List Code}
    (h : Code.AlikeEach N W ρ cs ds) :
    List.Forall₂ (fun c d : Code => W.Pairs (fun env => c.Captures env) fun env =>
      d.Captures env) cs ds := by
  cases h with
  | nil => exact .nil
  | cons hc hcs => exact .cons (Code.pairs_of_alike hc) (Code.pairs_of_alike_each hcs)
termination_by structural cs

end

end

/-!
# Matched environments reach matched frames
-/

theorem exists_mem_of_forall₂ {α α' : Type} {r : α → α' → Prop} {xs : List α} {ys : List α'}
    (h : List.Forall₂ r xs ys) {x : α} (hx : x ∈ xs) :
    ∃ y ∈ ys, r x y := by
  induction h with
  | nil => cases hx
  | @cons a b _ _ hab _ ih =>
      cases hx with
      | head => exact ⟨b, .head _, hab⟩
      | tail _ hx =>
          rcases ih hx with ⟨y, hy, hxy⟩
          exact ⟨y, .tail _ hy, hxy⟩

namespace Matching.Chains

variable {W : Matching} {env env' : Env}

theorem exists_right (h : W.Chains env env') {f : FrameId} (hf : f ∈ env.chain) :
    ∃ g ∈ env'.chain, W.frames f g :=
  exists_mem_of_forall₂ h hf

theorem exists_left (h : W.Chains env env') {g : FrameId} (hg : g ∈ env'.chain) :
    ∃ f ∈ env.chain, W.frames f g := by
  have hflip : List.Forall₂ (flip W.frames) env'.chain env.chain := List.Forall₂.flip h
  exact exists_mem_of_forall₂ hflip hg

end Matching.Chains

theorem Likeness.Stores.find?_rel {L : Likeness Code Code} {W : Matching} {s t : Store Code}
    (h : L.Stores W s t) (hnames : ∀ {f g}, W.frames f g → W.names f = Eq)
    {f g : FrameId} (hfg : W.frames f g) (name : Symbol) :
    Option.Rel (L.Values W) (s.find? f name) (t.find? g name) := by
  apply h.bindings hfg name name
  rw [hnames hfg]

namespace Store.Reaches

variable {N : Namings} {W : Matching} {s t : Store Code} {env env' : Env}
  (hstores : (Code.likeness N).Stores W s t) (hnames : ∀ {f g}, W.frames f g → W.names f = Eq)
  (henv : W.Chains env env')

include hstores hnames henv

/-- Whatever is reached in the first store has a partner that is reached in the second. -/
theorem matched_left {f : FrameId} (h : s.Reaches env f) :
    ∃ g, W.frames f g ∧ t.Reaches env' g := by
  induction h with
  | chain hf =>
      rcases henv.exists_right hf with ⟨g, hg, hfg⟩
      exact ⟨g, hfg, .chain hg⟩
  | @captured f name v inner f' _ hv hinner hf' ih =>
      rcases ih with ⟨g, hfg, hreaches⟩
      have hrel := hstores.find?_rel hnames hfg name
      rw [hv] at hrel
      cases hw : t.find? g name with
      | none =>
          rw [hw] at hrel
          cases hrel
      | some w =>
          rw [hw] at hrel
          cases hrel with
          | some hvw =>
              rcases (Value.pairs_of_matches hvw).left inner hinner with
                ⟨inner', hinner', hchains⟩
              rcases hchains.exists_right hf' with ⟨g', hg', hfg'⟩
              exact ⟨g', hfg', .captured hreaches hw hinner' hg'⟩

/-- Whatever is reached in the second store has a partner that is reached in the first. -/
theorem matched_right {g : FrameId} (h : t.Reaches env' g) :
    ∃ f, W.frames f g ∧ s.Reaches env f := by
  induction h with
  | chain hg =>
      rcases henv.exists_left hg with ⟨f, hf, hfg⟩
      exact ⟨f, hfg, .chain hf⟩
  | @captured g name w inner' g' _ hw hinner' hg' ih =>
      rcases ih with ⟨f, hfg, hreaches⟩
      have hrel := hstores.find?_rel hnames hfg name
      rw [hw] at hrel
      cases hv : s.find? f name with
      | none =>
          rw [hv] at hrel
          cases hrel
      | some v =>
          rw [hv] at hrel
          cases hrel with
          | some hvw =>
              rcases (Value.pairs_of_matches hvw).right inner' hinner' with
                ⟨inner, hinner, hchains⟩
              rcases hchains.exists_left hg' with ⟨f', hf', hfg'⟩
              exact ⟨f', hfg', .captured hreaches hv hinner hf'⟩

end Store.Reaches
end MiniLisp
