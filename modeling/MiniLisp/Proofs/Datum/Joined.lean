import Mathlib
import MiniLisp.Proofs.Datum.Rows

/-!
# Texts joined by a line feed

A line feed keeps two texts apart: it ends a run of ordinary characters and a comment, and is a
blank otherwise.  If the first text leaves nothing unfinished, the forms of both are those of the
first and then those of the second.

## Main statements

* `Token.scan_append`: the tokens of two texts that are joined.
* `forms_append`: their forms, and the fault that ends them.
* `all_append`: joined texts are read as one after the other.
-/

namespace MiniLisp
namespace Token

/-!
## Tokens
-/

theorem skipGap_append_newline {gap : List Char} (h : Gap gap []) (more : List Char) :
    skipGap (gap ++ '\n' :: more) = skipGap more := by
  generalize hrest : ([] : List Char) = rest at h
  induction h with
  | empty => exact skipGap_blank (by decide) more
  | blank hc _ ih =>
      rw [List.cons_append, skipGap_blank hc]
      exact ih hrest
  | comment hbody _ ih =>
      rw [List.cons_append, List.append_assoc, List.cons_append, skipGap_semicolon,
        skipFrom_comment hbody]
      exact ih hrest
  | lastComment hbody =>
      rw [List.cons_append, skipGap_semicolon, skipFrom_comment hbody]
      rfl

theorem scan_append_of_gap {gap : List Char} (h : Gap gap []) (more : List Char) :
    scan (gap ++ '\n' :: more) = scan more := by
  rw [scan_eq, next_eq_of_skipGap_eq (skipGap_append_newline h more), ← scan_eq]

theorem Precedes.append {token : Token} {rest : List Char} (h : Precedes token rest)
    {more : List Char} (hmore : Delimited more) : Precedes token (rest ++ more) := by
  cases h with
  | opening => exact .opening _
  | closing => exact .closing _
  | quote => exact .quote _
  | literal _ hbody => exact .literal _ hbody
  | run hrun hrest =>
      cases rest with
      | nil => exact .run hrun hmore
      | cons c rest => exact .run hrun hrest

theorem Division.Valid.left_eq_nil_or {d : Division} (h : d.Valid) :
    d.left = [] ∨ Unterminated d.left := by
  induction d with
  | ending gap left => exact h.2
  | cons gap token after ih => exact ih h.2.2

/-- The tokens of a text with more text after it go on with those that the rest of the text, from
its last gap on, has then. -/
theorem Division.Valid.scan_append {d : Division} (h : d.Valid) {more : List Char}
    (hmore : Delimited more) {row : List Token × Option Fault.Cause}
    (hlast : ∀ gap, Gap gap d.left → scan (gap ++ (d.left ++ more)) = row) :
    scan (d.text ++ more) = (d.tokens ++ row.1, row.2) := by
  induction d with
  | ending gap left =>
      rw [Division.text, List.append_assoc]
      exact hlast gap h.1
  | cons gap token after ih =>
      have hgap := h.gap_append more
      rcases h with ⟨-, htoken, hafter⟩
      rw [Division.text, Division.tokens, List.append_assoc, List.append_assoc,
        scan_of_token (next_token hgap (htoken.append hmore)), ih hafter hlast]
      rfl

/-- The tokens of two texts that are joined are those of the first and then those of the second. -/
theorem scan_append {text : List Char} (h : (scan text).2 = none) (more : List Char) :
    scan (text ++ '\n' :: more) = ((scan text).1 ++ (scan more).1, (scan more).2) := by
  rcases exists_division text with ⟨d, hd, rfl⟩
  rcases hd.left_eq_nil_or with hleft | hleft
  · rw [hd.scan_text.1]
    refine hd.scan_append (delimited_cons (by decide) more) fun gap hgap => ?_
    rw [hleft] at hgap ⊢
    exact scan_append_of_gap hgap more
  · rw [(hd.scan_text.2 _).mpr ⟨rfl, hleft⟩] at h
    cases h

end Token

namespace Reading

/-!
## Forms
-/

theorem assemble_append {pending inner : Pending} {tokens : List Token} {ds : List Datum}
    (h : assemble pending tokens = (ds, .ok inner)) (more : List Token) :
    assemble pending (tokens ++ more) =
      (ds ++ (assemble inner more).1, (assemble inner more).2) := by
  induction tokens generalizing pending ds with
  | nil =>
      cases h
      rfl
  | cons token rest ih =>
      cases haccept : accept pending token with
      | error cause =>
          rw [assemble_of_refuse haccept] at h
          cases h
      | ok progress =>
          rw [assemble_of_accept haccept] at h
          rw [List.cons_append, assemble_of_accept haccept]
          cases progress with
          | waiting next => exact ih h
          | complete d =>
              simp only [carryOn, Prod.mk.injEq] at h
              rcases h with ⟨rfl, hrest⟩
              simp only [carryOn, ih (Prod.ext rfl hrest)]
              rfl

/-- The forms of two texts that are joined, if the first has no fault, are those of the first and
then those of the second. -/
theorem forms_append {text : List Char} {ds : List Datum} (h : all text = .ok ds)
    (more : List Char) :
    forms (text ++ '\n' :: more) = (ds ++ (forms more).1, (forms more).2) := by
  rcases all_eq_ok_iff.mp h with ⟨hscan, hassemble⟩
  rw [forms_eq_ofRow, forms_eq_ofRow, Token.scan_append hscan, ofRow, assemble_append hassemble,
    ofRow]
  rcases assemble [] (Token.scan more).1 with ⟨es, cause | pending⟩ <;> rfl

/-- If the first text has no fault, reading the two joined is reading one after the other. -/
theorem all_append {text : List Char} {ds : List Datum} (h : all text = .ok ds)
    (more : List Char) : all (text ++ '\n' :: more) = (all more).map (ds ++ ·) := by
  have hforms := forms_append h more
  cases hmore : all more with
  | ok es =>
      rw [all_eq_ok_iff_forms] at hmore
      rw [hmore] at hforms
      exact all_eq_ok_iff_forms.mpr hforms
  | error cause =>
      rw [all_eq_error_iff_forms] at hmore
      rw [hmore] at hforms
      exact all_eq_error_iff_forms.mpr (congrArg Prod.snd hforms)

end Reading
end MiniLisp
