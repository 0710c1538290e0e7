import Mathlib
import MiniLisp.Proofs.Datum.Rows
import MiniLisp.Proofs.Token.Shape

/-!
# Unfinished forms

Whether reading goes on without a fault, and what is then unfinished, depends on the tokens only up
to the characters of atoms.  It is enough to keep the parentheses and quote marks whose forms are
not complete yet.

## Main statements

* `openers_assemble`: the openers follow the tokens without regard to the data that are read.
* `count_opening_of_follow`: the open lists are the parentheses that were opened and not closed.
* `head?_of_follow`: a quote mark stands directly at the end exactly if it is the last token.
* `isUnfinished_iff_of_completable`: when an open list that can still be completed is noticed.
-/

namespace MiniLisp
namespace Reading

open Fault (Cause)

/-!
## Openers
-/

def Context.opener : Context → Token
  | .items _ => .opening
  | .quoted => .quote

def openers (pending : Pending) : List Token :=
  pending.map Context.opener

/-- What stays open once a form is complete: quote marks take no second form. -/
def settle (unclosed : List Token) : List Token :=
  unclosed.dropWhile (· = .quote)

/-- What is open after one more token, unless it closes what is not open. -/
def follow (unclosed : List Token) : Token → Option (List Token)
  | .opening => some (.opening :: unclosed)
  | .quote => some (.quote :: unclosed)
  | .atom _ => some (settle unclosed)
  | .closing =>
      match unclosed with
      | .opening :: outer => some (settle outer)
      | _ => none

def Progress.openers : Progress → List Token
  | .complete _ => []
  | .waiting pending => Reading.openers pending

theorem openers_fill (pending : Pending) (d : Datum) :
    (fill pending d).openers = settle (openers pending) := by
  induction pending generalizing d with
  | nil => rfl
  | cons context outer ih =>
      cases context with
      | items read => rfl
      | quoted => exact ih d.quoted

theorem openers_accept (pending : Pending) (token : Token) :
    (accept pending token).toOption.map Progress.openers = follow (openers pending) token := by
  cases token with
  | opening => rfl
  | quote => rfl
  | atom text => exact congrArg some (openers_fill pending _)
  | closing =>
      match pending with
      | [] => rfl
      | .quoted :: _ => rfl
      | .items read :: outer => exact congrArg some (openers_fill outer _)

/-- The openers follow the tokens without regard to the data that are read. -/
theorem openers_assemble (pending : Pending) (tokens : List Token) :
    (assemble pending tokens).2.toOption.map openers = tokens.foldlM follow (openers pending) := by
  induction tokens generalizing pending with
  | nil => rfl
  | cons token rest ih =>
      rw [List.foldlM_cons, ← openers_accept]
      cases haccept : accept pending token with
      | error cause =>
          rw [assemble_of_refuse haccept]
          rfl
      | ok progress =>
          rw [assemble_of_accept haccept]
          cases progress with
          | complete d => exact ih []
          | waiting inner => exact ih inner

theorem exists_assemble_of_follow {tokens unclosed : List Token}
    (h : tokens.foldlM follow [] = some unclosed) :
    ∃ ds pending, assemble [] tokens = (ds, .ok pending) ∧ openers pending = unclosed := by
  have hopeners := openers_assemble [] tokens
  rw [show openers [] = [] from rfl, h] at hopeners
  rcases hassemble : assemble [] tokens with ⟨ds, cause | pending⟩
  · rw [hassemble] at hopeners
    cases hopeners
  · rw [hassemble] at hopeners
    exact ⟨ds, pending, rfl, Option.some.inj hopeners⟩

/-!
## What the tokens leave open
-/

theorem follow_shape (unclosed : List Token) (token : Token) :
    follow unclosed token.shape = follow unclosed token := by
  cases token <;> rfl

theorem foldlM_follow_shape (unclosed tokens : List Token) :
    (tokens.map Token.shape).foldlM follow unclosed = tokens.foldlM follow unclosed := by
  rw [List.foldlM_map]
  simp only [follow_shape]

theorem count_opening_settle (unclosed : List Token) :
    (settle unclosed).count .opening = unclosed.count .opening := by
  induction unclosed with
  | nil => rfl
  | cons token outer ih =>
      by_cases h : token = .quote
      · subst h
        rw [settle, List.dropWhile_cons_of_pos (by decide), List.count_cons_of_ne (by decide)]
        exact ih
      · rw [settle, List.dropWhile_cons_of_neg (by simpa using h)]

theorem count_opening_follow {unclosed after : List Token} {token : Token}
    (h : follow unclosed token = some after) :
    after.count .opening + [token].count .closing =
      unclosed.count .opening + [token].count .opening := by
  cases token with
  | opening =>
      cases h
      simp
  | quote =>
      cases h
      simp
  | atom text =>
      cases h
      simp [count_opening_settle]
  | closing =>
      simp only [follow] at h
      split at h
      · cases h
        simp [count_opening_settle]
      · cases h

/-- The open lists are the parentheses that were opened and not closed. -/
theorem count_opening_of_follow {tokens unclosed after : List Token}
    (h : tokens.foldlM follow unclosed = some after) :
    after.count .opening + tokens.count .closing =
      unclosed.count .opening + tokens.count .opening := by
  induction tokens generalizing unclosed with
  | nil =>
      cases h
      simp
  | cons token rest ih =>
      rw [List.foldlM_cons] at h
      rcases Option.bind_eq_some_iff.mp h with ⟨inner, hinner, hrest⟩
      have hfirst := count_opening_follow hinner
      have hmore := ih hrest
      rw [← List.singleton_append, List.count_append, List.count_append]
      omega

theorem head?_settle (unclosed : List Token) : (settle unclosed).head? ≠ some .quote := by
  intro h
  have hhead := List.head?_dropWhile_not (fun token => decide (token = Token.quote)) unclosed
  rw [settle] at h
  rw [h] at hhead
  simp at hhead

theorem head?_follow {unclosed after : List Token} {token : Token}
    (h : follow unclosed token = some after) : after.head? = some .quote ↔ token = .quote := by
  cases token with
  | opening =>
      cases h
      simp
  | quote =>
      cases h
      simp
  | atom text =>
      cases h
      simp [head?_settle]
  | closing =>
      simp only [follow] at h
      split at h
      · cases h
        simp [head?_settle]
      · cases h

/-- A quote mark stands directly at the end exactly if it is the last token. -/
theorem head?_of_follow {tokens after : List Token} (h : tokens.foldlM follow [] = some after) :
    after.head? = some .quote ↔ tokens.getLast? = some .quote := by
  rcases List.eq_nil_or_concat tokens with rfl | ⟨before, token, rfl⟩
  · cases h
    simp
  · rw [List.concat_eq_append, List.foldlM_append] at h
    rcases Option.bind_eq_some_iff.mp h with ⟨inner, _, hlast⟩
    rw [List.foldlM_cons] at hlast
    rcases Option.bind_eq_some_iff.mp hlast with ⟨last, htoken, hnil⟩
    cases hnil
    rw [head?_follow htoken]
    simp

/-!
## Texts that can be completed
-/

theorem exists_follow_of_completable {text more : List Char} {ds : List Datum}
    (h : all (text ++ more) = .ok ds) :
    ∃ unclosed, (Token.scan text).1.foldlM follow [] = some unclosed := by
  have hall := openers_assemble [] (Token.scan (text ++ more)).1
  rw [(all_eq_ok_iff.mp h).2, ← foldlM_follow_shape] at hall
  rcases Token.shapes_scan_isPrefix text more with ⟨later, hlater⟩
  rw [← hlater, List.foldlM_append] at hall
  rcases Option.bind_eq_some_iff.mp hall.symm with ⟨unclosed, hfirst, -⟩
  exact ⟨unclosed, by rwa [foldlM_follow_shape] at hfirst⟩

theorem isUnfinished_iff_forms {text : List Char} :
    isUnfinished text = true ↔ (forms text).2 = some .unclosedList := by
  rw [← all_eq_error_iff_forms, isUnfinished]
  split
  · rename_i h
    exact iff_of_true rfl h
  · rename_i h
    exact iff_of_false Bool.false_ne_true h

theorem lastFault_eq_unclosedList_iff {pending : Pending} {last : Option Cause}
    (hlast : last ≠ some .unclosedList) :
    lastFault pending last = some .unclosedList ↔
      last = none ∧ (openers pending).head? = some .opening := by
  match last, pending with
  | some cause, _ => simpa [lastFault] using hlast
  | none, [] => simp [lastFault, atEnd, openers]
  | none, .items _ :: _ => simp [lastFault, atEnd, openers, Context.opener]
  | none, .quoted :: _ => simp [lastFault, atEnd, openers, Context.opener]

theorem scan_ne_unclosedList (text : List Char) :
    (Token.scan text).2 ≠ some .unclosedList := by
  intro h
  rcases Token.exists_division text with ⟨d, hd, rfl⟩
  cases ((hd.scan_text.2 _).mp h).1

/-- An open list that more text can complete is noticed unless the text ends in a string literal
that is not completed, or with a quote mark. -/
theorem isUnfinished_iff_of_completable {text more : List Char} {ds : List Datum}
    (hopen : (Token.scan text).1.count .closing < (Token.scan text).1.count .opening)
    (hmore : all (text ++ more) = .ok ds) :
    isUnfinished text = true ↔
      (Token.scan text).2 = none ∧ (Token.scan text).1.getLast? ≠ some .quote := by
  rcases exists_follow_of_completable hmore with ⟨unclosed, hfollow⟩
  rcases exists_assemble_of_follow hfollow with ⟨es, pending, hassemble, rfl⟩
  have hcount := count_opening_of_follow hfollow
  have hlast := head?_of_follow hfollow
  rw [isUnfinished_iff_forms, forms_eq_ofRow, ofRow, hassemble]
  simp only [lastFault_eq_unclosedList_iff (scan_ne_unclosedList text)]
  rw [ne_eq, ← hlast]
  refine and_congr_right fun _ => ?_
  cases pending with
  | nil =>
      simp only [openers, List.map_nil, List.count_nil] at hcount
      omega
  | cons context outer => cases context <;> simp [openers, Context.opener]

def quoteSource : List Char :=
  ['(', '\x27']

theorem isUnfinished_iff_of_completable_quote :
    (Token.scan quoteSource).1.count .closing < (Token.scan quoteSource).1.count .opening ∧
      all (quoteSource ++ ['x', ')']) =
        .ok [.list [(Datum.atom (.symbol ⟨"x"⟩)).quoted]] ∧
      isUnfinished quoteSource = false := by
  have hscan : Token.scan quoteSource = ([.opening, .quote], none) := by
    cbv
  have hopen : (Token.scan quoteSource).1.count .closing <
      (Token.scan quoteSource).1.count .opening := by
    rw [hscan]
    decide
  have hmore : all (quoteSource ++ ['x', ')']) =
      .ok [.list [(Datum.atom (.symbol ⟨"x"⟩)).quoted]] := by
    have hscan' : Token.scan (quoteSource ++ ['x', ')']) =
        ([.opening, .quote, .atom ['x'], .closing], none) := by
      cbv
    rw [all_eq_ok_iff, hscan']
    exact ⟨rfl, rfl⟩
  refine ⟨hopen, hmore, ?_⟩
  rw [Bool.eq_false_iff, ne_eq, isUnfinished_iff_of_completable hopen hmore, hscan]
  decide

end Reading
end MiniLisp
