import MiniLisp.Proofs.Code.Occurrence

/-!
# Captured environments

A procedure captures the environment that it was made in.  So does every list that it is an item of,
and all code that it stands in.

## Main statement

* `Code.Translates.captures`: code captures no environment that its expression does not capture.
-/

namespace MiniLisp

mutual

inductive Value.Captures (env : Env) : Val → Prop where
  | here {id parameters body} : Value.Captures env (.procedure id parameters body env)
  | body {id parameters body outer} :
      Code.Captures env body →
      Value.Captures env (.procedure id parameters body outer)
  | item {id items v} :
      v ∈ items →
      Value.Captures env v →
      Value.Captures env (.list id items)

inductive Code.Captures (env : Env) : Code → Prop where
  | literal {v} :
      Value.Captures env v →
      Code.Captures env (.literal v)
  | part {code part} :
      part ∈ code.parts →
      Code.Captures env part →
      Code.Captures env code
  | lambda {parameters body} :
      Code.Captures env body →
      Code.Captures env (.lambda parameters body)

end

namespace Value

variable {env : Env}

theorem not_captures_atom (a : Atom) : ¬ (Value.atom a : Val).Captures env :=
  nofun

theorem not_captures_primitive (p : Primitive) : ¬ (Value.primitive p : Val).Captures env :=
  nofun

theorem not_captures_undefined : ¬ (Value.undefined : Val).Captures env :=
  nofun

theorem captures_list_iff {id : Identity} {items : List Val} :
    (Value.list id items).Captures env ↔ ∃ v ∈ items, v.Captures env := by
  constructor
  · intro h
    cases h with
    | item hmem h => exact ⟨_, hmem, h⟩
  · rintro ⟨v, hmem, h⟩
    exact .item hmem h

mutual

theorem not_captures_ofDatum (next : Identity) (d : Datum) :
    ¬ (ofDatum next d).1.Captures env := by
  match d with
  | .atom a =>
      rw [ofDatum]
      exact not_captures_atom a
  | .list ds =>
      intro h
      rw [ofDatum] at h
      rcases captures_list_iff.mp h with ⟨v, hv, h⟩
      exact not_captures_ofData (next + 1) ds v hv h

theorem not_captures_ofData (next : Identity) (ds : List Datum) :
    ∀ v ∈ (ofData next ds).1, ¬ v.Captures env := by
  match ds with
  | [] =>
      rw [ofData]
      intro v hv
      cases hv
  | d :: rest =>
      rw [ofData]
      intro v hv
      cases hv with
      | head => exact not_captures_ofDatum next d
      | tail _ hv => exact not_captures_ofData _ rest v hv

end

end Value

namespace Code

variable {env : Env}

theorem Captures.of_literal {v : Val} (h : (Code.literal v).Captures env) : v.Captures env := by
  cases h with
  | literal h => exact h
  | part hmem => cases hmem

theorem Captures.of_lambda {parameters : List Symbol} {body : Code}
    (h : (Code.lambda parameters body).Captures env) :
    body.Captures env := by
  cases h with
  | lambda h => exact h
  | part hmem => cases hmem

theorem Captures.exists_part {code : Code} (h : code.Captures env)
    (hliteral : ∀ v, code ≠ .literal v)
    (hlambda : ∀ parameters body, code ≠ .lambda parameters body) :
    ∃ part ∈ code.parts, part.Captures env := by
  cases h with
  | literal => exact (hliteral _ rfl).elim
  | part hmem h => exact ⟨_, hmem, h⟩
  | lambda => exact (hlambda _ _ rfl).elim

end Code

/-!
# Code captures what its expression captures
-/

section

variable {env : Env}

mutual

theorem Value.Captures.exists_occursIn {v : Val} (h : v.Captures env) :
    ∃ id parameters body, (Value.procedure id parameters body env : Val).OccursIn v := by
  match h with
  | .here => exact ⟨_, _, _, .self⟩
  | .body hbody =>
      rcases hbody.exists_occursInCode with ⟨id, parameters, body, hoccurs⟩
      exact ⟨id, parameters, body, .body hoccurs⟩
  | .item hmem hitem =>
      rcases hitem.exists_occursIn with ⟨id, parameters, body, hoccurs⟩
      exact ⟨id, parameters, body, .item hmem hoccurs⟩

theorem Code.Captures.exists_occursInCode {code : Code} (h : code.Captures env) :
    ∃ id parameters body, (Value.procedure id parameters body env : Val).OccursInCode code := by
  match h with
  | .literal hv =>
      rcases hv.exists_occursIn with ⟨id, parameters, body, hoccurs⟩
      exact ⟨id, parameters, body, .literal hoccurs⟩
  | .part hmem hpart =>
      rcases hpart.exists_occursInCode with ⟨id, parameters, body, hoccurs⟩
      exact ⟨id, parameters, body, .part hmem hoccurs⟩
  | .lambda hbody =>
      rcases hbody.exists_occursInCode with ⟨id, parameters, body, hoccurs⟩
      exact ⟨id, parameters, body, .lambda hoccurs⟩

end

section

variable {id : Identity} {parameters : List Symbol} {body : Code}

mutual

theorem Value.OccursIn.captures {v : Val}
    (h : (Value.procedure id parameters body env : Val).OccursIn v) :
    v.Captures env := by
  match h with
  | .self => exact .here
  | .item hmem hitem => exact .item hmem hitem.captures
  | .body hbody => exact .body hbody.captures

theorem Value.OccursInCode.captures {code : Code}
    (h : (Value.procedure id parameters body env : Val).OccursInCode code) :
    code.Captures env := by
  match h with
  | .literal hv => exact .literal hv.captures
  | .part hmem hpart => exact .part hmem hpart.captures
  | .lambda hbody => exact .lambda hbody.captures

end

end

/-- Code captures no environment that its expression does not capture. -/
theorem Code.Translates.captures {n m : Identity} {e : Val} {code : Code}
    (h : Code.Translates n e code m) (henv : code.Captures env) :
    e.Captures env := by
  rcases henv.exists_occursInCode with ⟨id, parameters, body, hoccurs⟩
  rcases h.occurs hoccurs with hoccurs | hmade
  · exact hoccurs.captures
  · cases hmade

end

end MiniLisp
