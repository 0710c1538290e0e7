import Mathlib
import MiniLisp.Token

/-!
# Atoms among tokens

An atom is a run of ordinary characters or a string literal.  The atoms that a text yields are
exactly of this kind, and each of them is taken again wherever it stands before the end of the text
or a delimiter.

## Main statements

* `isAtom_of_next`: an atom that a text yields is a run or a literal.
* `next_atom`: a run or a literal is taken as a whole.
-/

namespace MiniLisp
namespace Token

def IsRun (text : List Char) : Prop :=
  text ≠ [] ∧ ∀ c ∈ text, isDelimiter c = false

def IsLiteral (text : List Char) : Prop :=
  ∃ taken, text = '"' :: taken ∧ takeLiteral? taken = some (taken, [])

def IsAtom (text : List Char) : Prop :=
  IsRun text ∨ IsLiteral text

def Delimited (rest : List Char) : Prop :=
  ∀ c ∈ rest.head?, isDelimiter c = true

theorem delimited_nil : Delimited [] := by
  intro c hc
  cases hc

theorem delimited_cons {c : Char} (h : isDelimiter c = true) (rest : List Char) :
    Delimited (c :: rest) := by
  intro d hd
  cases hd
  exact h

/-!
## String literals
-/

theorem takeLiteral?_append {text taken left : List Char}
    (h : takeLiteral? text = some (taken, left)) (rest : List Char) :
    takeLiteral? (taken ++ rest) = some (taken, rest) := by
  fun_induction takeLiteral? text generalizing taken left with
  | case1 => cases h
  | case2 =>
      cases h
      rfl
  | case3 => cases h
  | case4 c tail ih =>
      rcases Option.map_eq_some_iff.mp h with ⟨⟨t, l⟩, ht, heq⟩
      cases heq
      simp [takeLiteral?, ih ht]
  | case5 c tail hquote _ hescape ih =>
      rcases Option.map_eq_some_iff.mp h with ⟨⟨t, l⟩, ht, heq⟩
      cases heq
      have hc : c ≠ '\\' := by
        intro heq
        subst heq
        cases tail with
        | nil => cases ht
        | cons d tail => exact hescape d tail rfl rfl
      rw [List.cons_append, takeLiteral?, ih ht]
      · rfl
      · exact hquote
      · exact fun hc' => absurd hc' hc
      · exact fun d r hc' => absurd hc' hc

theorem isLiteral_of_takeLiteral? {text taken left : List Char}
    (h : takeLiteral? text = some (taken, left)) : IsLiteral ('"' :: taken) := by
  refine ⟨taken, rfl, ?_⟩
  simpa using takeLiteral?_append h []

theorem getLast?_of_takeLiteral? {text taken left : List Char}
    (h : takeLiteral? text = some (taken, left)) : taken.getLast? = some '"' := by
  fun_induction takeLiteral? text generalizing taken left with
  | case1 => cases h
  | case2 =>
      cases h
      rfl
  | case3 => cases h
  | case4 c tail ih =>
      rcases Option.map_eq_some_iff.mp h with ⟨⟨t, l⟩, ht, heq⟩
      cases heq
      simp [List.getLast?_cons, ih ht]
  | case5 c tail _ _ _ ih =>
      rcases Option.map_eq_some_iff.mp h with ⟨⟨t, l⟩, ht, heq⟩
      cases heq
      simp [List.getLast?_cons, ih ht]

/-!
## Taking tokens
-/

theorem skipGap_of_not_blank {c : Char} (hblank : Text.isBlank c = false) (hcomment : c ≠ ';')
    (rest : List Char) : skipGap (c :: rest) = c :: rest := by
  simp [skipGap, skipFrom, hblank, hcomment]

@[simp] theorem next_space (text : List Char) : next (' ' :: text) = next text := by
  have hgap : skipGap (' ' :: text) = skipGap text := by
    simp [skipGap, skipFrom, show Text.isBlank ' ' = true by decide]
  rw [next, hgap]
  rfl

@[simp] theorem next_opening (rest : List Char) :
    next ('(' :: rest) = (.ok (some .opening), rest) := by
  rw [next, skipGap_of_not_blank (by decide) (by decide)]
  rfl

@[simp] theorem next_closing (rest : List Char) :
    next (')' :: rest) = (.ok (some .closing), rest) := by
  rw [next, skipGap_of_not_blank (by decide) (by decide)]
  rfl

@[simp] theorem next_quote (rest : List Char) :
    next ('\x27' :: rest) = (.ok (some .quote), rest) := by
  rw [next, skipGap_of_not_blank (by decide) (by decide)]
  rfl

theorem next_literal {token : List Char} (h : IsLiteral token) (rest : List Char) :
    next (token ++ rest) = (.ok (some (.atom token)), rest) := by
  rcases h with ⟨taken, rfl, htaken⟩
  rw [List.cons_append, next, skipGap_of_not_blank (by decide) (by decide)]
  simp [takeLiteral?_append htaken rest]

theorem isDelimiter_eq_false {c : Char} (h : isDelimiter c = false) :
    Text.isBlank c = false ∧ c ≠ '(' ∧ c ≠ ')' ∧ c ≠ '\x27' ∧ c ≠ '"' ∧ c ≠ ';' := by
  simpa [isDelimiter, and_assoc] using h

theorem next_run {token rest : List Char} (h : IsRun token) (hrest : Delimited rest) :
    next (token ++ rest) = (.ok (some (.atom token)), rest) := by
  rcases h with ⟨hne, hrun⟩
  cases token with
  | nil => exact absurd rfl hne
  | cons c tail =>
      have hc := hrun c List.mem_cons_self
      rcases isDelimiter_eq_false hc with ⟨hblank, hopen, hclose, hquote, hstring, hcomment⟩
      have htail : ∀ d ∈ tail, (!isDelimiter d) = true := by
        intro d hd
        simp [hrun d (List.mem_cons_of_mem c hd)]
      have hstop : rest.takeWhile (fun x => !isDelimiter x) = [] ∧
          rest.dropWhile (fun x => !isDelimiter x) = rest := by
        cases rest with
        | nil => exact ⟨rfl, rfl⟩
        | cons d rest =>
            have hd := hrest d rfl
            simp [hd]
      rw [List.cons_append, next, skipGap_of_not_blank hblank hcomment]
      simp [hopen, hclose, hquote, hstring, hc, List.takeWhile_append_of_pos htail,
        List.dropWhile_append_of_pos htail, hstop.1, hstop.2]

/-- A run or a literal is taken as a whole. -/
theorem next_atom {token rest : List Char} (h : IsAtom token) (hrest : Delimited rest) :
    next (token ++ rest) = (.ok (some (.atom token)), rest) := by
  cases h with
  | inl hrun => exact next_run hrun hrest
  | inr hliteral => exact next_literal hliteral rest

/-- An atom that a text yields is a run or a literal. -/
theorem isAtom_of_next {text token rest : List Char}
    (h : next text = (.ok (some (.atom token)), rest)) : IsAtom token := by
  unfold next at h
  split at h
  · cases h
  · rename_i c tail _
    split at h
    · cases h
    split at h
    · cases h
    split at h
    · cases h
    split at h
    · split at h
      · rename_i hliteral
        cases h
        exact Or.inr (isLiteral_of_takeLiteral? hliteral)
      · cases h
    split at h
    · cases h
    · rename_i hc
      cases h
      refine Or.inl ⟨List.cons_ne_nil _ _, ?_⟩
      intro d hd
      rcases List.mem_cons.mp hd with rfl | hd
      · exact Bool.not_eq_true _ ▸ hc
      · simpa using List.mem_takeWhile_imp hd

end Token
end MiniLisp
