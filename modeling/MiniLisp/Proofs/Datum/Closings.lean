import MiniLisp.Proofs.Datum.Joined
import MiniLisp.Proofs.Datum.Unfinished
import MiniLisp.Repl

/-!
# Closing what is unfinished

A text is unfinished exactly if some closing parentheses complete it.  Their number is that of the
lists that are open at its end: fewer leave a list open, and one more closes nothing.

## Main statements

* `isUnfinished_iff_follow`: what is unfinished is said by the tokens alone.
* `foldlM_follow_closings_iff`: how many closing parentheses leave nothing open.
* `exists_all_closedBy_iff`: which texts they complete.
* `isUnfinished_iff_exists_closings`: a text that waits for more can be completed so.
-/

namespace MiniLisp

theorem Repl.isUnfinished_of_intent_eq_wait {pending line text : List Char}
    (h : intent pending line = .wait text) : Reading.isUnfinished text = true := by
  simp only [intent] at h
  split at h
  · cases h
  split at h
  · cases h
  split at h
  · cases h
    assumption
  · cases h

namespace Token

/-!
## A string literal that stays open
-/

theorem Unterminated.append {left more : List Char} (h : Unterminated left) (hmore : '"' ∉ more) :
    Unterminated (left ++ more) := by
  refine ⟨?_, ?_⟩
  · rw [List.head?_append, h.1]
    rfl
  · intro body hbody hbegins
    have hshort : ¬ (literal body).length ≤ left.length := by
      intro hle
      exact h.2 body hbody (List.prefix_of_prefix_length_le hbegins (List.prefix_append _ _) hle)
    rcases List.prefix_of_prefix_length_le (List.prefix_append left more) hbegins
      (Nat.le_of_not_le hshort) with ⟨tail, htail⟩
    rw [← htail, List.prefix_append_right_inj] at hbegins
    rcases List.eq_nil_or_concat tail with rfl | ⟨before, c, rfl⟩
    · rw [← htail, List.append_nil] at hshort
      exact hshort le_rfl
    · have hlast := congrArg List.getLast? htail
      rw [literal, ← List.cons_append, List.concat_eq_append, ← List.append_assoc,
        List.getLast?_concat, List.getLast?_concat] at hlast
      cases hlast
      refine hmore (hbegins.subset ?_)
      rw [List.concat_eq_append]
      exact List.mem_append_right _ (List.mem_singleton.mpr rfl)

theorem scan_append_of_fault {text more : List Char} (h : (scan text).2 ≠ none)
    (hmore : Delimited more) (hquote : '"' ∉ more) :
    scan (text ++ more) = ((scan text).1, some .unterminatedString) := by
  rcases exists_division text with ⟨d, hd, rfl⟩
  rcases Option.ne_none_iff_exists'.mp h with ⟨cause, hcause⟩
  have hleft := ((hd.scan_text.2 cause).mp hcause).2
  have hlast : ∀ gap, Gap gap d.left →
      scan (gap ++ (d.left ++ more)) = ([], some .unterminatedString) := by
    intro gap hgap
    have hnext := next_of_unterminated (hleft.append hquote)
    rw [← next_gap_append (hgap.append hleft.ne_nil more)] at hnext
    exact scan_of_fault hnext
  rw [hd.scan_append hmore hlast, List.append_nil, hd.scan_text.1]

end Token

namespace Reading

open Fault (Cause)

/-!
## What is unfinished, by the tokens
-/

/-- What is unfinished is said by the tokens alone: they close nothing that is not open, and a list
is open where they end. -/
theorem isUnfinished_iff_follow {text : List Char} :
    isUnfinished text = true ↔
      (Token.scan text).2 = none ∧ ∃ unclosed,
        (Token.scan text).1.foldlM follow [] = some unclosed ∧ unclosed.head? = some .opening := by
  have hopeners := openers_assemble [] (Token.scan text).1
  rw [isUnfinished_iff_forms, forms_eq_ofRow, ofRow]
  rcases hassemble : assemble [] (Token.scan text).1 with ⟨ds, cause | pending⟩ <;>
    rw [hassemble] at hopeners
  · cases eq_of_assemble_eq_error (congrArg Prod.snd hassemble)
    refine iff_of_false (by simp) ?_
    rintro ⟨-, unclosed, hfollow, -⟩
    cases hopeners.trans hfollow
  · have hfollow : (Token.scan text).1.foldlM follow [] = some (openers pending) := hopeners.symm
    rw [hfollow]
    simp only [lastFault_eq_unclosedList_iff (scan_ne_unclosedList text), Option.some.injEq,
      exists_eq_left']

/-!
## Closing parentheses
-/

theorem openers_eq_nil_iff {pending : Pending} : openers pending = [] ↔ pending = [] :=
  List.map_eq_nil_iff

theorem eq_opening_or_quote_of_follow {tokens unclosed : List Token}
    (h : tokens.foldlM follow [] = some unclosed) :
    ∀ token ∈ unclosed, token = .opening ∨ token = .quote := by
  rcases exists_assemble_of_follow h with ⟨-, pending, -, rfl⟩
  intro token htoken
  rcases List.mem_map.mp htoken with ⟨context, -, rfl⟩
  cases context with
  | items => exact Or.inl rfl
  | quoted => exact Or.inr rfl

/-- Closing parentheses leave nothing open exactly if there are as many as open lists, unless a
quote mark waits for its form. -/
theorem foldlM_follow_closings_iff {unclosed : List Token}
    (hopeners : ∀ token ∈ unclosed, token = .opening ∨ token = .quote)
    (hhead : unclosed.head? ≠ some .quote) (k : Nat) :
    (List.replicate k .closing).foldlM follow unclosed = some [] ↔
      unclosed.count .opening = k := by
  induction k generalizing unclosed with
  | zero =>
      cases unclosed with
      | nil => simp
      | cons token outer =>
          rcases hopeners token List.mem_cons_self with rfl | rfl
          · simp
          · exact absurd rfl hhead
  | succ k ih =>
      rw [List.replicate_succ, List.foldlM_cons]
      cases unclosed with
      | nil => simp [follow]
      | cons token outer =>
          rcases hopeners token List.mem_cons_self with rfl | rfl
          · have hsettle : ∀ token ∈ settle outer, token = .opening ∨ token = .quote := by
              intro token htoken
              have hrest := (List.dropWhile_sublist _).subset htoken
              exact hopeners token (List.mem_cons_of_mem _ hrest)
            refine (ih hsettle (head?_settle outer)).trans ?_
            rw [count_opening_settle, List.count_cons_self, Nat.add_right_cancel_iff]
          · exact absurd rfl hhead

theorem foldlM_follow_closings_iff_of_pos {unclosed : List Token}
    (hopeners : ∀ token ∈ unclosed, token = .opening ∨ token = .quote) {k : Nat} (hk : 1 ≤ k) :
    (List.replicate k .closing).foldlM follow unclosed = some [] ↔
      unclosed.head? = some .opening ∧ unclosed.count .opening = k := by
  by_cases hhead : unclosed.head? = some .opening
  · rw [foldlM_follow_closings_iff hopeners (by simp [hhead])]
    simp [hhead]
  · refine iff_of_false ?_ fun h => hhead h.1
    rcases Nat.exists_eq_add_of_le' hk with ⟨k, rfl⟩
    rw [List.replicate_succ, List.foldlM_cons]
    match unclosed with
    | [] => simp [follow]
    | .opening :: outer => exact absurd rfl hhead
    | .quote :: outer | .closing :: outer | .atom _ :: outer => simp [follow]

def closedBy (text : List Char) (k : Nat) : List Char :=
  text ++ '\n' :: List.replicate k ')'

theorem scan_closings (k : Nat) :
    Token.scan (List.replicate k ')') = (List.replicate k .closing, none) := by
  induction k with
  | zero => exact Token.scan_of_end rfl
  | succ k ih =>
      rw [List.replicate_succ, List.replicate_succ, Token.scan_of_token (Token.next_closing _), ih]

theorem exists_assemble_iff_follow {tokens : List Token} :
    (∃ ds, assemble [] tokens = (ds, .ok [])) ↔ tokens.foldlM follow [] = some [] := by
  constructor
  · rintro ⟨ds, hassemble⟩
    have hopeners := openers_assemble [] tokens
    rw [hassemble] at hopeners
    exact hopeners.symm
  · intro h
    rcases exists_assemble_of_follow h with ⟨ds, pending, hassemble, hpending⟩
    rw [openers_eq_nil_iff.mp hpending] at hassemble
    exact ⟨ds, hassemble⟩

/-- One closing parenthesis or more complete a text exactly if it is unfinished and has as many open
lists. -/
theorem exists_all_closedBy_iff {text : List Char} {k : Nat} (hk : 1 ≤ k) :
    (∃ ds, all (closedBy text k) = .ok ds) ↔
      isUnfinished text = true ∧
        (Token.scan text).1.count .closing + k = (Token.scan text).1.count .opening := by
  simp only [all_eq_ok_iff, exists_and_left, exists_assemble_iff_follow]
  rw [isUnfinished_iff_follow]
  by_cases hscan : (Token.scan text).2 = none
  · rw [closedBy, Token.scan_append hscan, scan_closings, List.foldlM_append]
    cases hfollow : (Token.scan text).1.foldlM follow [] with
    | none => simp
    | some unclosed =>
        have hcount := count_opening_of_follow hfollow
        have hclosings :=
          foldlM_follow_closings_iff_of_pos (eq_opening_or_quote_of_follow hfollow) hk
        simp only [Option.bind_eq_bind, Option.bind_some, hclosings, Option.some.injEq,
          exists_eq_left', true_and, hscan]
        refine and_congr_right fun _ => ?_
        rw [List.count_nil] at hcount
        omega
  · have hquote : '"' ∉ '\n' :: List.replicate k ')' := by
      simp [List.mem_replicate]
    rw [closedBy, Token.scan_append_of_fault hscan (Token.delimited_cons (by decide) _) hquote]
    simp [hscan]

theorem forms_isPrefix_of_all_closedBy {text : List Char} {k : Nat} {ds : List Datum}
    (h : all (closedBy text k) = .ok ds) : (forms text).1 <+: ds := by
  rcases exists_follow_of_completable h with ⟨unclosed, hfollow⟩
  rcases exists_assemble_of_follow hfollow with ⟨es, pending, hassemble, -⟩
  rw [all_eq_ok_iff] at h
  rw [forms_eq_ofRow, ofRow, hassemble]
  by_cases hscan : (Token.scan text).2 = none
  · rw [closedBy, Token.scan_append hscan, assemble_append hassemble] at h
    rw [← (Prod.mk.inj h.2).1]
    exact List.prefix_append es _
  · rw [closedBy, Token.scan_append_of_fault hscan (Token.delimited_cons (by decide) _)
      (by simp [List.mem_replicate])] at h
    cases h.1

/-- A text is unfinished exactly if closing parentheses complete it.  Their number is determined,
and the forms that are read then begin with those of the text.  So the loop never waits for more of
a text that closing parentheses cannot complete. -/
theorem isUnfinished_iff_exists_closings (text : List Char) :
    (isUnfinished text = true ↔ ∃ k, 1 ≤ k ∧ ∃ ds, all (closedBy text k) = .ok ds) ∧
      (∀ j k, 1 ≤ j → 1 ≤ k → (∃ ds, all (closedBy text j) = .ok ds) →
        (∃ ds, all (closedBy text k) = .ok ds) → j = k) ∧
      (∀ k ds, all (closedBy text k) = .ok ds → (forms text).1 <+: ds) ∧
      ∀ pending line, Repl.intent pending line = .wait text →
        ∃ k, 1 ≤ k ∧ ∃ ds, all (closedBy text k) = .ok ds := by
  have hexists : isUnfinished text = true →
      ∃ k, 1 ≤ k ∧ ∃ ds, all (closedBy text k) = .ok ds := by
    intro h
    rcases isUnfinished_iff_follow.mp h with ⟨-, unclosed, hfollow, hhead⟩
    have hcount := count_opening_of_follow hfollow
    have hpos : 0 < unclosed.count .opening := List.count_pos_iff.mpr (List.mem_of_head? hhead)
    rw [List.count_nil] at hcount
    exact ⟨unclosed.count Token.opening, hpos, (exists_all_closedBy_iff hpos).mpr ⟨h, by omega⟩⟩
  refine ⟨⟨hexists, ?_⟩, ?_, fun k ds => forms_isPrefix_of_all_closedBy, ?_⟩
  · rintro ⟨k, hk, hall⟩
    exact ((exists_all_closedBy_iff hk).mp hall).1
  · intro j k hj hk hfirst hsecond
    have hcountj := ((exists_all_closedBy_iff hj).mp hfirst).2
    have hcountk := ((exists_all_closedBy_iff hk).mp hsecond).2
    omega
  · intro pending line hintent
    exact hexists (Repl.isUnfinished_of_intent_eq_wait hintent)

end Reading
end MiniLisp
