import Mathlib
import MiniLisp.Datum.Reading
import MiniLisp.Proofs.Number.ReadsBack
import MiniLisp.Proofs.Token.Atom
import MiniLisp.Value

/-!
# Reading what was written

The text of what was read can be read again.  The second reading yields the same datum except in
two cases: a number that is not finite is written as a word, which reads as a symbol, and the quote
mark is written where a symbol stands, so that it quotes what follows it.

## Main statements

* `legible_of_first`: what reading yields is built from atoms, lists and quoted data.
* `Legible.exists_rereads`: such a datum is read again, as itself exactly if it is plain.
* `first_text_same_iff_plain`: both together, for values.
-/

namespace MiniLisp

namespace Atom

def Plain : Atom → Prop
  | .number x => x.isFinite = true
  | .symbol name => name ≠ .quoteMark
  | _ => True

end Atom

namespace Datum

mutual

def atoms : Datum → List Atom
  | .atom a => [a]
  | .list items => atomsOfAll items

def atomsOfAll : List Datum → List Atom
  | [] => []
  | d :: rest => atoms d ++ atomsOfAll rest

end

/-- Every number is finite, and no quote mark stands anywhere. -/
def Plain (d : Datum) : Prop :=
  ∀ a ∈ d.atoms, a.Plain

inductive Legible : Datum → Prop where
  | atom {token : List Char} :
      Token.IsAtom token → Legible (.atom (Atom.ofToken token))
  | list {items : List Datum} :
      (∀ d ∈ items, Legible d) → Legible (.list items)
  | quoted {d : Datum} :
      Legible d → Legible d.quoted

end Datum

/-!
# What reading yields
-/

namespace Reading

open Fault (Cause)

def Context.Legible : Context → Prop
  | .items read => ∀ d ∈ read, d.Legible
  | .quoted => True

def Progress.Legible : Progress → Prop
  | .complete d => d.Legible
  | .waiting pending => ∀ c ∈ pending, c.Legible

theorem legible_fill {pending : Pending} {d : Datum} (hpending : ∀ c ∈ pending, c.Legible)
    (hd : d.Legible) : (fill pending d).Legible := by
  induction pending generalizing d with
  | nil => exact hd
  | cons context outer ih =>
      have houter : ∀ c ∈ outer, c.Legible := by
        intro c hc
        exact hpending c (List.mem_cons_of_mem _ hc)
      cases context with
      | quoted => exact ih houter (.quoted hd)
      | items read =>
          have hread : Context.Legible (.items read) := hpending _ List.mem_cons_self
          intro c hc
          rcases List.mem_cons.mp hc with rfl | hc
          · intro e he
            rcases List.mem_cons.mp he with rfl | he
            · exact hd
            · exact hread e he
          · exact houter c hc

theorem legible_accept {pending : Pending} {token : Token} {progress : Progress}
    (hpending : ∀ c ∈ pending, c.Legible)
    (htoken : ∀ text, token = .atom text → Token.IsAtom text)
    (h : accept pending token = .ok progress) : progress.Legible := by
  cases token with
  | opening =>
      cases h
      intro c hc
      rcases List.mem_cons.mp hc with rfl | hc
      · intro d hd
        cases hd
      · exact hpending c hc
  | quote =>
      cases h
      intro c hc
      rcases List.mem_cons.mp hc with rfl | hc
      · trivial
      · exact hpending c hc
  | atom text =>
      cases h
      exact legible_fill hpending (.atom (htoken text rfl))
  | closing =>
      simp only [accept] at h
      split at h
      · cases h
        apply legible_fill
        · intro c hc
          exact hpending c (List.mem_cons_of_mem _ hc)
        · refine .list fun d hd => ?_
          exact hpending _ List.mem_cons_self d (List.mem_reverse.mp hd)
      · cases h

theorem legible_of_readFrom {pending : Pending} {text rest : List Char} {d : Datum}
    (hpending : ∀ c ∈ pending, c.Legible)
    (h : readFrom pending text = (.ok (some d), rest)) : d.Legible := by
  fun_induction readFrom pending text with
  | case1 => cases h
  | case2 =>
      exact absurd (Prod.mk.inj h).1 (atEnd_ne_some _ d)
  | case3 => cases h
  | case4 pending text token left hnext e haccept =>
      cases h
      refine legible_accept hpending ?_ haccept
      intro t ht
      subst ht
      exact Token.isAtom_of_next hnext
  | case5 pending text token left hnext inner haccept ih =>
      refine ih (legible_accept hpending ?_ haccept) h
      intro t ht
      subst ht
      exact Token.isAtom_of_next hnext

theorem legible_of_first {text : List Char} {d : Datum} (h : first text = .ok d) :
    d.Legible := by
  unfold first at h
  split at h
  · rename_i e hnext
    cases h
    refine @legible_of_readFrom [] text (next text).2 d ?_ (Prod.ext hnext rfl)
    intro c hc
    cases hc
  · cases h
  · cases h

/-!
# Reading a written datum

A written datum takes reading from one place to the next, whatever is unfinished around it.
-/

def resume : Progress → List Char → Except Cause (Option Datum) × List Char
  | .complete d, rest => (.ok (some d), rest)
  | .waiting pending, rest => readFrom pending rest

theorem readFrom_eq (pending : Pending) (text : List Char) :
    readFrom pending text =
      match Token.next text with
      | (.error cause, rest) => (.error cause, rest)
      | (.ok none, rest) => (atEnd pending, rest)
      | (.ok (some token), rest) =>
          match accept pending token with
          | .error cause => (.error cause, rest)
          | .ok progress => resume progress rest := by
  rw [readFrom]
  split
  · rename_i hnext
    rw [hnext]
  · rename_i hnext
    rw [hnext]
  · rename_i token rest hnext
    rw [hnext]
    dsimp only
    split <;> rename_i haccept <;> rw [haccept] <;> rfl

theorem readFrom_of_next {pending : Pending} {text rest : List Char} {token : Token}
    {progress : Progress} (hnext : Token.next text = (.ok (some token), rest))
    (haccept : accept pending token = .ok progress) :
    readFrom pending text = resume progress rest := by
  rw [readFrom_eq, hnext]
  simp only [haccept]

theorem readFrom_space (pending : Pending) (text : List Char) :
    readFrom pending (' ' :: text) = readFrom pending text := by
  rw [readFrom_eq, readFrom_eq pending text, Token.next_space]

def ReadsAs (d e : Datum) : Prop :=
  ∀ (pending : Pending) (rest : List Char), Token.Delimited rest →
    readFrom pending (d.text ++ rest) = resume (fill pending e) rest

theorem readsAs_atom {a : Atom} (h : Token.IsAtom a.text) :
    ReadsAs (.atom a) (.atom (Atom.ofToken a.text)) := by
  intro pending rest hrest
  exact readFrom_of_next (Token.next_atom h hrest) rfl

theorem readFrom_closing (read : List Datum) (pending : Pending) (rest : List Char) :
    readFrom (.items read :: pending) (')' :: rest) =
      resume (fill pending (.list read.reverse)) rest :=
  readFrom_of_next (Token.next_closing rest) rfl

theorem readFrom_items {ds es : List Datum} (h : List.Forall₂ ReadsAs ds es)
    (read : List Datum) (pending : Pending) (rest : List Char) :
    readFrom (.items read :: pending)
        ([' '].intercalate (ds.map Datum.text) ++ ')' :: rest) =
      resume (fill pending (.list (read.reverse ++ es))) rest := by
  induction h generalizing read with
  | nil =>
      rw [List.map_nil, List.intercalate_nil, List.nil_append, readFrom_closing, List.append_nil]
  | @cons d e ds es hd htail ih =>
      cases ds with
      | nil =>
          cases htail
          have hfirst := hd (.items read :: pending) (')' :: rest)
            (Token.delimited_cons (by decide) rest)
          rw [List.map_singleton, List.intercalate_singleton, hfirst]
          show readFrom (.items (e :: read) :: pending) (')' :: rest) = _
          rw [readFrom_closing, List.reverse_cons]
      | cons d' ds =>
          have hfirst := hd (.items read :: pending)
            (' ' :: ([' '].intercalate ((d' :: ds).map Datum.text) ++ ')' :: rest))
            (Token.delimited_cons (by decide) _)
          rw [List.map_cons, List.map_cons, List.intercalate_cons_cons, List.append_assoc,
            List.append_assoc, List.singleton_append, ← List.map_cons, hfirst]
          show readFrom (.items (e :: read) :: pending) (' ' :: _) = _
          rw [readFrom_space, ih, List.reverse_cons, List.append_assoc, List.singleton_append]

theorem readsAs_list {ds es : List Datum} (h : List.Forall₂ ReadsAs ds es) :
    ReadsAs (.list ds) (.list es) := by
  intro pending rest _
  rw [Datum.text, Datum.listText, Datum.texts_eq_map, List.cons_append, List.append_assoc]
  refine (readFrom_of_next (Token.next_opening _) rfl).trans ?_
  exact readFrom_items h [] pending rest

theorem readsAs_quoted {d e : Datum} (h : ReadsAs d e) :
    ReadsAs d.quoted (.list [e.quoted]) := by
  intro pending rest _
  have htext : d.quoted.text ++ rest = '(' :: '\x27' :: ' ' :: (d.text ++ ')' :: rest) := by
    simp [Datum.quoted, Datum.text, Datum.listText, Datum.texts, Atom.text, Symbol.text,
      Symbol.quoteMark]
  have hquote : readFrom (.items [] :: pending) ('\x27' :: ' ' :: (d.text ++ ')' :: rest)) =
      readFrom (.quoted :: .items [] :: pending) (' ' :: (d.text ++ ')' :: rest)) :=
    readFrom_of_next (Token.next_quote _) rfl
  rw [htext]
  refine (readFrom_of_next (Token.next_opening _) rfl).trans (hquote.trans ?_)
  rw [readFrom_space, h _ _ (Token.delimited_cons (by decide) rest)]
  exact readFrom_closing [e.quoted] pending rest

theorem first_of_readsAs {d e : Datum} (h : ReadsAs d e) : first d.text = .ok e := by
  have hread := h [] [] Token.delimited_nil
  rw [List.append_nil] at hread
  rw [first, next, hread]
  rfl

end Reading

/-!
# Atoms

Apart from numbers, an atom is written as the token that it was read from.
-/

namespace Token

theorem isDelimiter_of_isDigit {c : Char} (h : c.isDigit = true) : isDelimiter c = false := by
  have hbounds : 48 ≤ c.toNat ∧ c.toNat ≤ 57 := Char.isDigit_iff_toNat.mp h
  have hne : ∀ d : Char, d.toNat < 48 → c ≠ d := by
    intro d hd heq
    subst heq
    omega
  have hblank : Text.isBlank c = false := by
    simp only [Text.isBlank, Bool.or_eq_false_iff, Bool.and_eq_false_iff, decide_eq_false_iff_not]
    omega
  have hcomment : c ≠ ';' := by
    intro heq
    subst heq
    revert h
    decide
  simp [isDelimiter, hblank, hcomment, hne '(' (by decide), hne ')' (by decide),
    hne '\x27' (by decide), hne '"' (by decide)]

theorem isRun_text_number (x : Float) : IsRun (Number.text x) := by
  by_cases h : x.isFinite = true
  · rw [Number.text_of_isFinite h]
    constructor
    · apply List.append_ne_nil_of_right_ne_nil
      intro hnil
      have hany := Decimal.positional_any_isDigit (Decimal.ofFloat x).digits
        (Decimal.ofFloat x).exponent
      rw [hnil] at hany
      cases hany
    · intro c hc
      rcases List.mem_append.mp hc with hc | hc
      · split at hc
        · rw [List.mem_singleton.mp hc]
          decide
        · cases hc
      · rcases Decimal.mem_positional hc with hdigit | rfl
        · exact isDelimiter_of_isDigit hdigit
        · decide
  · rcases Number.text_of_not_isFinite (Bool.not_eq_true _ ▸ h) with htext | htext | htext <;>
      rw [htext] <;> exact ⟨List.cons_ne_nil _ _, by simp [isDelimiter, Text.isBlank]⟩

end Token

namespace Atom

theorem text_ofToken {token : List Char} (h : Token.IsAtom token)
    (hnumber : ∀ x, ofToken token ≠ .number x) : (ofToken token).text = token := by
  cases h with
  | inl hrun =>
      unfold ofToken at hnumber ⊢
      split
      · rfl
      · rfl
      · have hquote := hrun.2 '"' List.mem_cons_self
        exact absurd hquote (by decide)
      · split
        · rename_i hother x hvalue
          exact absurd (by simp only [hvalue]) (hnumber x)
        · simp [text, Symbol.text]
  | inr hliteral =>
      rcases hliteral with ⟨taken, rfl, htaken⟩
      cases taken with
      | nil => cases htaken
      | cons c rest =>
          have hlast := Token.getLast?_of_takeLiteral? htaken
          have hsplit : (c :: rest).dropLast ++ ['"'] = c :: rest :=
            List.dropLast_append_getLast? '"' hlast
          simp [ofToken, text, hsplit]

theorem ofToken_text_number {x : Float} (h : x.isFinite = true) :
    ofToken (Number.text x) = .number x := by
  have hread := Number.ofToken?_text h
  have hrun := Token.isRun_text_number x
  generalize Number.text x = token at hread hrun
  unfold ofToken
  split
  · cases hread
  · cases hread
  · exact absurd (hrun.2 '"' List.mem_cons_self) (by decide)
  · rw [hread]

theorem ofToken_text_number_of_not_isFinite {x : Float} (h : x.isFinite = false) :
    ∃ name, ofToken (Number.text x) = .symbol name := by
  have hread := Number.ofToken?_text_of_not_isFinite h
  have hrun := Token.isRun_text_number x
  rcases Number.text_of_not_isFinite h with htext | htext | htext <;>
    rw [htext] at hread ⊢ <;> simp only [ofToken, hread] <;> exact ⟨_, rfl⟩

theorem same_self {a : Atom} (h : ∀ x, a ≠ .number x) : a.same a = true := by
  cases a with
  | number x => exact absurd rfl (h x)
  | bool b => simp [same]
  | string contents => simp [same]
  | symbol name => simp [same]

theorem plain_ofToken {token : List Char} (h : Token.IsAtom token)
    (hnumber : ∀ x, ofToken token ≠ .number x) : (ofToken token).Plain := by
  have htext := text_ofToken h hnumber
  cases ha : ofToken token with
  | number x => exact absurd ha (hnumber x)
  | bool b => trivial
  | string contents => trivial
  | symbol name =>
      intro heq
      subst heq
      rw [ha] at htext
      rw [← htext] at h
      rcases h with hrun | ⟨taken, hliteral, _⟩
      · exact absurd (hrun.2 '\x27' (by decide)) (by decide)
      · exact absurd (List.cons.inj hliteral).1 (by decide)

theorem reread {token : List Char} (h : Token.IsAtom token) :
    Token.IsAtom (ofToken token).text ∧
      ((ofToken (ofToken token).text).same (ofToken token) = true ↔ (ofToken token).Plain) := by
  by_cases hnumber : ∀ x, ofToken token ≠ .number x
  · rw [text_ofToken h hnumber]
    exact ⟨h, iff_of_true (same_self hnumber) (plain_ofToken h hnumber)⟩
  · rcases not_forall.mp hnumber with ⟨x, hx⟩
    rw [not_not.mp hx]
    refine ⟨Or.inl (Token.isRun_text_number x), ?_⟩
    show (ofToken (Number.text x)).same (.number x) = true ↔ x.isFinite = true
    by_cases hfinite : x.isFinite = true
    · rw [ofToken_text_number hfinite]
      exact iff_of_true (Number.beq_self_of_isFinite hfinite) hfinite
    · rcases ofToken_text_number_of_not_isFinite (Bool.not_eq_true _ ▸ hfinite) with ⟨name, hname⟩
      rw [hname]
      exact iff_of_false Bool.false_ne_true hfinite

end Atom

/-!
# Reading again

The datum that a written datum reads as is found along the way the datum was built.
-/

theorem exists_forall₂ {α γ : Type} {R : α → γ → Prop} {xs : List α} (h : ∀ x ∈ xs, ∃ y, R x y) :
    ∃ ys, List.Forall₂ R xs ys := by
  induction xs with
  | nil => exact ⟨[], .nil⟩
  | cons x rest ih =>
      rcases h x List.mem_cons_self with ⟨y, hy⟩
      rcases ih fun x' hx' => h x' (List.mem_cons_of_mem x hx') with ⟨ys, hys⟩
      exact ⟨y :: ys, .cons hy hys⟩

namespace Datum

theorem mem_atomsOfAll {items : List Datum} {a : Atom} :
    a ∈ atomsOfAll items ↔ ∃ d ∈ items, a ∈ d.atoms := by
  induction items with
  | nil => simp [atomsOfAll]
  | cons d rest ih => simp [atomsOfAll, ih]

theorem plain_list {items : List Datum} : (list items).Plain ↔ ∀ d ∈ items, d.Plain := by
  constructor
  · intro h d hd a ha
    exact h a (mem_atomsOfAll.mpr ⟨d, hd, ha⟩)
  · intro h a ha
    rcases mem_atomsOfAll.mp ha with ⟨d, hd, ha⟩
    exact h d hd a ha

theorem not_plain_quoted (d : Datum) : ¬ d.quoted.Plain := by
  intro h
  have hmark := plain_list.mp h (.atom (.symbol .quoteMark)) List.mem_cons_self
  exact hmark (.symbol .quoteMark) List.mem_cons_self rfl

structure Rereads (d e : Datum) : Prop where
  reads : Reading.ReadsAs d e
  same_iff : e.same d = true ↔ d.Plain

theorem sameItems_iff {ds es : List Datum} (h : List.Forall₂ Rereads ds es) :
    sameItems es ds = true ↔ ∀ d ∈ ds, d.Plain := by
  induction h with
  | nil => simp [sameItems]
  | cons hd _ ih => simp [sameItems, hd.same_iff, ih]

theorem rereads_list {ds es : List Datum} (h : List.Forall₂ Rereads ds es) :
    Rereads (.list ds) (.list es) where
  reads := Reading.readsAs_list (h.imp fun _ _ hd => hd.reads)
  same_iff := by
    rw [same, plain_list]
    exact sameItems_iff h

theorem rereads_quoted {d e : Datum} (h : Rereads d e) : Rereads d.quoted (.list [e.quoted]) where
  reads := Reading.readsAs_quoted h.reads
  same_iff := by
    refine iff_of_false ?_ (not_plain_quoted d)
    simp [quoted, same, sameItems]

theorem Legible.exists_rereads {d : Datum} (h : d.Legible) : ∃ e, Rereads d e := by
  induction h with
  | atom htoken =>
      rcases Atom.reread htoken with ⟨hatom, hsame⟩
      refine ⟨_, Reading.readsAs_atom hatom, ?_⟩
      simpa [same, Plain, atoms] using hsame
  | list _ ih =>
      rcases exists_forall₂ ih with ⟨es, hes⟩
      exact ⟨_, rereads_list hes⟩
  | quoted _ ih =>
      rcases ih with ⟨e, he⟩
      exact ⟨_, rereads_quoted he⟩

end Datum

/-!
# Values of data

A value that reading makes is written like its datum, and it differs from a value made later
exactly if their data differ.
-/

namespace Value

variable {β : Type}

mutual

theorem text_ofDatum (next : Identity) (d : Datum) :
    (ofDatum (β := β) next d).1.text = d.text := by
  cases d with
  | atom a => rfl
  | list items =>
      rw [ofDatum, Datum.text, ← texts_ofData (next + 1) items]
      rfl

theorem texts_ofData (next : Identity) (ds : List Datum) :
    texts (ofData (β := β) next ds).1 = Datum.texts ds := by
  cases ds with
  | nil => rfl
  | cons d rest =>
      rw [ofData, Datum.texts, ← text_ofDatum next d, ← texts_ofData (ofDatum next d).2 rest]
      rfl

end

mutual

theorem le_ofDatum (next : Identity) (d : Datum) : next ≤ (ofDatum (β := β) next d).2 := by
  cases d with
  | atom a => exact Nat.le_refl next
  | list items => exact Nat.le_trans (Nat.le_succ next) (le_ofData (next + 1) items)

theorem le_ofData (next : Identity) (ds : List Datum) : next ≤ (ofData (β := β) next ds).2 := by
  cases ds with
  | nil => exact Nat.le_refl next
  | cons d rest => exact Nat.le_trans (le_ofDatum next d) (le_ofData _ rest)

end

mutual

theorem same_ofDatum {next later : Identity} {d : Datum} (e : Datum)
    (h : (ofDatum (β := β) next d).2 ≤ later) :
    (ofDatum (β := β) later e).1.same (ofDatum next d).1 = e.same d := by
  cases e with
  | atom b => cases d <;> rfl
  | list es =>
      cases d with
      | atom a => rfl
      | list ds =>
          have hlt : next < later := Nat.lt_of_lt_of_le (le_ofData (β := β) (next + 1) ds) h
          have hne : (later == next) = false := by simpa using Nat.ne_of_gt hlt
          simp only [ofDatum, same, hne, Bool.false_or, Datum.same]
          exact sameItems_ofData es (Nat.le_succ_of_le h)

theorem sameItems_ofData {next later : Identity} {ds : List Datum} (es : List Datum)
    (h : (ofData (β := β) next ds).2 ≤ later) :
    sameItems (ofData (β := β) later es).1 (ofData next ds).1 = Datum.sameItems es ds := by
  cases es with
  | nil => cases ds <;> rfl
  | cons e es =>
      cases ds with
      | nil => rfl
      | cons d ds =>
          have hlater := le_ofDatum (β := β) later e
          have hfirst : (ofDatum (β := β) next d).2 ≤ later :=
            Nat.le_trans (le_ofData (β := β) _ ds) h
          have hrest : (ofData (β := β) (ofDatum next d).2 ds).2 ≤ (ofDatum (β := β) later e).2 :=
            Nat.le_trans h hlater
          simp only [ofData, sameItems, same_ofDatum e hfirst, sameItems_ofData es hrest,
            Datum.sameItems]

end

end Value

/-- A value that was read can be written and read again, and what is then read is the same value
exactly if all its numbers are finite and no quote mark stands in it. -/
theorem first_text_same_iff_plain {β : Type} {source : List Char} {d : Datum}
    (hread : Reading.first source = .ok d) (next later : Identity)
    (hlater : (Value.ofDatum (β := β) next d).2 ≤ later) :
    ∃ e : Datum,
      Reading.first (Value.ofDatum (β := β) next d).1.text = .ok e ∧
        ((Value.ofDatum (β := β) later e).1.same (Value.ofDatum next d).1 = true ↔ d.Plain) := by
  rcases (Reading.legible_of_first hread).exists_rereads with ⟨e, he⟩
  refine ⟨e, ?_, ?_⟩
  · rw [Value.text_ofDatum]
    exact Reading.first_of_readsAs he.reads
  · rw [Value.same_ofDatum e hlater]
    exact he.same_iff

def mixedSource : List Char :=
  ['(', '"', '\\', '"', '"', ' ', '-', '0', ' ', '\x27', 'x', ')']

def mixed : Datum :=
  .list [.atom (.string "\\\""), .atom (.number (-0)), .quoted (.atom (.symbol ⟨"x"⟩))]

theorem first_text_same_iff_plain_mixed :
    Reading.first mixedSource = .ok mixed ∧
      ∃ e : Datum,
        Reading.first (Value.ofDatum (β := Unit) 0 mixed).1.text = .ok e ∧
          ((Value.ofDatum (β := Unit) 2 e).1.same (Value.ofDatum 0 mixed).1 = true ↔
            mixed.Plain) := by
  have hread : Reading.first mixedSource = .ok mixed := by
    cbv
  exact ⟨hread, first_text_same_iff_plain hread 0 2 (Nat.le_refl 2)⟩

end MiniLisp
