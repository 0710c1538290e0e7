import MiniLisp.Proofs.Datum.Rows

/-!
# Printed values in any layout

A value is printable if lists build it from atoms that their texts stand for.  The texts of
printable values are read back whatever gaps keep them apart, so that a printable value is known by
its text.

## Main statements

* `Value.Printable.exists_readsBack`: the text of a printable value is read as its datum.
* `Value.forms_layout`: texts that are laid out are read one after another.
* `Value.all_layout`: printable values are read back from any layout.
-/

namespace MiniLisp

/-!
## Texts after one another
-/

namespace Reading

theorem forms_nil : forms [] = ([], none) := by
  rw [forms_eq_ofRow, Token.scan_of_end rfl]
  rfl

theorem forms_gap_append {gap rest : List Char} (h : Token.Gap gap rest) :
    forms (gap ++ rest) = forms rest := by
  rw [forms_eq_ofRow, forms_eq_ofRow, Token.scan_eq,
    Token.next_gap_append h, ← Token.scan_eq]

theorem forms_of_readsAs {d e : Datum} (h : ReadsAs d e) {rest : List Char}
    (hrest : Token.Delimited rest) :
    forms (d.text ++ rest) = (e :: (forms rest).1, (forms rest).2) := by
  rw [forms_eq_formsFrom, formsFrom, h [] rest hrest]
  rfl

end Reading

/-!
## Printable atoms
-/

namespace Atom

/-- An atom that its text stands for: a truth value, a finite number, a text whose contents may
stand between quotes, or a symbol whose name is an ordinary token and no truth value or number. -/
def Printable : Atom → Prop
  | .bool _ => True
  | .number x => x.isFinite = true
  | .string contents => Token.LiteralBody contents.toList
  | .symbol name => Token.IsRun name.text ∧ ofToken name.text = .symbol name

theorem ofToken_literal (body : List Char) :
    ofToken (Token.literal body) = .string (String.ofList body) := by
  unfold Token.literal
  cases body with
  | nil => rfl
  | cons c rest =>
      rw [List.cons_append, ofToken, ← List.cons_append, List.dropLast_concat]

theorem Printable.isAtom_text {a : Atom} (h : a.Printable) : Token.IsAtom a.text := by
  cases a with
  | bool b =>
      cases b <;>
        exact Or.inl ⟨List.cons_ne_nil _ _, by simp [text, Token.isDelimiter, Text.isBlank]⟩
  | number x => exact Or.inl (Token.isRun_text_number x)
  | string contents => exact Or.inr (Token.isLiteral_literal h)
  | symbol name => exact Or.inl h.1

theorem Printable.ofToken_text {a : Atom} (h : a.Printable) : ofToken a.text = a := by
  cases a with
  | bool b => cases b <;> rfl
  | number x => exact ofToken_text_number h
  | string contents =>
      refine (ofToken_literal contents.toList).trans ?_
      rw [String.ofList_toList]
  | symbol name => exact h.2

theorem Printable.same_self {a : Atom} (h : a.Printable) : a.same a = true := by
  cases a with
  | number x => exact Number.beq_self_of_isFinite h
  | bool | string | symbol => exact Atom.same_self (by simp)

end Atom

/-!
## Printable values
-/

namespace Value

variable {β : Type}

inductive Printable : Value β → Prop where
  | atom {a : Atom} : a.Printable → Printable (.atom a)
  | list (id : Identity) {items : List (Value β)} :
      (∀ v ∈ items, Printable v) → Printable (.list id items)

mutual

/-- The datum that a value of lists and atoms is but for its identities. -/
def datum? : Value β → Option Datum
  | .atom a => some (.atom a)
  | .list _ items => (data? items).map .list
  | _ => none

def data? : List (Value β) → Option (List Datum)
  | [] => some []
  | v :: rest => do
      let d ← datum? v
      let ds ← data? rest
      return d :: ds

end

theorem datum?_list {id : Identity} {items : List (Value β)} {d : Datum}
    (h : (list id items).datum? = some d) : ∃ ds, data? items = some ds ∧ d = .list ds := by
  rw [datum?] at h
  rcases Option.map_eq_some_iff.mp h with ⟨ds, hds, rfl⟩
  exact ⟨ds, hds, rfl⟩

theorem data?_cons {v : Value β} {rest : List (Value β)} {ds : List Datum}
    (h : data? (v :: rest) = some ds) :
    ∃ d es, v.datum? = some d ∧ data? rest = some es ∧ ds = d :: es := by
  rw [data?] at h
  rcases Option.bind_eq_some_iff.mp h with ⟨d, hd, h⟩
  rcases Option.bind_eq_some_iff.mp h with ⟨es, hes, h⟩
  cases h
  exact ⟨d, es, hd, hes, rfl⟩

mutual

theorem text_of_datum? {v : Value β} {d : Datum} (h : v.datum? = some d) : d.text = v.text := by
  cases v with
  | atom a =>
      cases h
      rfl
  | list id items =>
      rcases datum?_list h with ⟨ds, hds, rfl⟩
      exact congrArg Datum.listText (texts_of_data? hds)
  | primitive | procedure | undefined => cases h

theorem texts_of_data? {vs : List (Value β)} {ds : List Datum} (h : data? vs = some ds) :
    Datum.texts ds = texts vs := by
  cases vs with
  | nil =>
      cases h
      rfl
  | cons v rest =>
      rcases data?_cons h with ⟨d, es, hd, hes, rfl⟩
      rw [Datum.texts, text_of_datum? hd, texts_of_data? hes, texts]

end

mutual

theorem same_of_datum? {v w : Value β} {d e : Datum} (hv : v.datum? = some d)
    (hw : w.datum? = some e) (h : d.same e = true) : v.same w = true := by
  cases v with
  | atom a =>
      cases hv
      cases w with
      | atom b =>
          cases hw
          exact h
      | list id items =>
          rcases datum?_list hw with ⟨es, _, rfl⟩
          cases h
      | primitive | procedure | undefined => cases hw
  | list id vs =>
      rcases datum?_list hv with ⟨ds, hds, rfl⟩
      cases w with
      | atom b =>
          cases hw
          cases h
      | list id' ws =>
          rcases datum?_list hw with ⟨es, hes, rfl⟩
          rw [same, sameItems_of_data? hds hes h, Bool.or_true]
      | primitive | procedure | undefined => cases hw
  | primitive | procedure | undefined => cases hv

theorem sameItems_of_data? {vs ws : List (Value β)} {ds es : List Datum}
    (hvs : data? vs = some ds) (hws : data? ws = some es) (h : Datum.sameItems ds es = true) :
    sameItems vs ws = true := by
  cases vs with
  | nil =>
      cases hvs
      cases ws with
      | nil => rfl
      | cons w rest =>
          rcases data?_cons hws with ⟨e, es', he, hes, rfl⟩
          cases h
  | cons v rest =>
      rcases data?_cons hvs with ⟨d, ds', hd, hds, rfl⟩
      cases ws with
      | nil =>
          cases hws
          cases h
      | cons w rest' =>
          rcases data?_cons hws with ⟨e, es', he, hes, rfl⟩
          rw [Datum.sameItems, Bool.and_eq_true] at h
          rw [sameItems, same_of_datum? hd he h.1, sameItems_of_data? hds hes h.2, Bool.and_true]

end

mutual

theorem datum?_ofDatum (next : Identity) (d : Datum) :
    (ofDatum (β := β) next d).1.datum? = some d := by
  cases d with
  | atom a => rfl
  | list ds =>
      rw [ofDatum, datum?, data?_ofData (next + 1) ds]
      rfl

theorem data?_ofData (next : Identity) (ds : List Datum) :
    data? (ofData (β := β) next ds).1 = some ds := by
  cases ds with
  | nil => rfl
  | cons d rest =>
      rw [ofData, data?, datum?_ofDatum next d, data?_ofData (ofDatum next d).2 rest]
      rfl

end

structure ReadsBack (v : Value β) (d : Datum) : Prop where
  datum?_eq : v.datum? = some d
  reads : Reading.ReadsAs d d
  same_self : d.same d = true

theorem readsBack_atom {a : Atom} (h : a.Printable) : ReadsBack (β := β) (.atom a) (.atom a) where
  datum?_eq := rfl
  reads := by
    have hreads := Reading.readsAs_atom h.isAtom_text
    rwa [h.ofToken_text] at hreads
  same_self := h.same_self

theorem data?_of_forall₂ {items : List (Value β)} {ds : List Datum}
    (h : List.Forall₂ ReadsBack items ds) : data? items = some ds := by
  induction h with
  | nil => rfl
  | cons hd _ ih =>
      rw [data?, hd.datum?_eq, ih]
      rfl

theorem sameItems_self_of_forall₂ {items : List (Value β)} {ds : List Datum}
    (h : List.Forall₂ ReadsBack items ds) : Datum.sameItems ds ds = true := by
  induction h with
  | nil => rfl
  | cons hd _ ih => rw [Datum.sameItems, hd.same_self, ih, Bool.and_true]

theorem readsBack_list (id : Identity) {items : List (Value β)} {ds : List Datum}
    (h : List.Forall₂ ReadsBack items ds) : ReadsBack (.list id items) (.list ds) where
  datum?_eq := by
    rw [datum?, data?_of_forall₂ h]
    rfl
  reads := by
    refine Reading.readsAs_list ?_
    induction h with
    | nil => exact .nil
    | cons hd _ ih => exact .cons hd.reads ih
  same_self := by
    rw [Datum.same]
    exact sameItems_self_of_forall₂ h

/-- The text of a printable value is read as its datum. -/
theorem Printable.exists_readsBack {v : Value β} (h : v.Printable) : ∃ d, ReadsBack v d := by
  induction h with
  | atom ha => exact ⟨_, readsBack_atom ha⟩
  | list id _ ih =>
      rcases exists_forall₂ ih with ⟨ds, hds⟩
      exact ⟨_, readsBack_list id hds⟩

/-!
## Texts in a row
-/

/-- The texts of values with gaps around them: a first gap, and a gap after each value. -/
def layout (first : List Char) : List (Value β × List Char) → List Char
  | [] => first
  | (v, gap) :: rest => first ++ (v.text ++ layout gap rest)

theorem delimited_layout {gap : List Char} (hgap : Token.Spacing gap)
    {row : List (Value β × List Char)} (h : row ≠ [] → gap ≠ []) :
    Token.Delimited (layout gap row) := by
  have hrest : ∃ rest, layout gap row = gap ++ rest := by
    cases row with
    | nil => exact ⟨[], (List.append_nil gap).symm⟩
    | cons entry rest => exact ⟨_, rfl⟩
  rcases hrest with ⟨rest, hrest⟩
  by_cases hne : gap = []
  · rw [not_imp_not.mp h hne, layout, hne]
    exact Token.delimited_nil
  · rw [hrest]
    exact (hgap rest).delimited hne

/-- Texts in a row are read one after another. -/
theorem forms_layout {first : List Char} {row : List (Value β × List Char)} {ds : List Datum}
    (hfirst : Token.Spacing first) (hgaps : ∀ entry ∈ row, Token.Spacing entry.2)
    (hbetween : ∀ entry ∈ row.dropLast, entry.2 ≠ [])
    (hds : List.Forall₂ (fun entry d => ReadsBack entry.1 d) row ds) :
    Reading.forms (layout first row) = (ds, none) := by
  induction hds generalizing first with
  | nil =>
      have hforms := Reading.forms_gap_append (hfirst [])
      rw [List.append_nil] at hforms
      rw [layout, hforms, Reading.forms_nil]
  | @cons entry d rest ds hd _ ih =>
      rcases entry with ⟨v, gap⟩
      have hgap : Token.Spacing gap := hgaps (v, gap) List.mem_cons_self
      have hne : rest ≠ [] → gap ≠ [] := by
        intro hrest
        refine hbetween (v, gap) ?_
        rw [List.dropLast_cons_of_ne_nil hrest]
        exact List.mem_cons_self
      have hrest := ih hgap (fun entry hentry => hgaps entry (List.mem_cons_of_mem _ hentry)) ?_
      · rw [layout, Reading.forms_gap_append (hfirst _), ← text_of_datum? hd.datum?_eq,
          Reading.forms_of_readsAs hd.reads (delimited_layout hgap hne), hrest]
      · intro entry hentry
        refine hbetween entry ?_
        cases rest with
        | nil => cases hentry
        | cons next rest => exact List.mem_cons_of_mem _ hentry

theorem same_of_readsBack {v w : Value β} {d : Datum} (hv : v.datum? = some d)
    (hw : ReadsBack w d) : v.same w = true :=
  same_of_datum? hv hw.datum?_eq hw.same_self

theorem forall₂_same_ofData {vs : List (Value β)} {ds : List Datum}
    (h : List.Forall₂ ReadsBack vs ds) (next : Identity) :
    List.Forall₂ (fun w v => w.same v = true) (ofData (β := β) next ds).1 vs := by
  induction h generalizing next with
  | nil => exact .nil
  | @cons v d _ _ hd _ ih =>
      exact .cons (same_of_readsBack (datum?_ofDatum next d) hd) (ih (ofDatum next d).2)

theorem Printable.same_of_text_eq {v w : Value β} (hv : v.Printable) (hw : w.Printable)
    (h : v.text = w.text) : v.same w = true := by
  rcases hv.exists_readsBack with ⟨d, hd⟩
  rcases hw.exists_readsBack with ⟨e, he⟩
  have hread : Reading.first d.text = .ok e := by
    rw [text_of_datum? hd.datum?_eq, h, ← text_of_datum? he.datum?_eq]
    exact Reading.first_of_readsAs he.reads
  rw [Reading.first_of_readsAs hd.reads] at hread
  cases hread
  exact same_of_readsBack hd.datum?_eq he

/-- Printable values that are written with gaps between them are read back, as many and in the same
order, so that printable values with the same text are the same. -/
theorem all_layout {first : List Char} {row : List (Value β × List Char)}
    (hfirst : Token.Spacing first)
    (hrow : ∀ entry ∈ row, entry.1.Printable ∧ Token.Spacing entry.2)
    (hbetween : ∀ entry ∈ row.dropLast, entry.2 ≠ []) :
    (∃ ds, Reading.all (layout first row) = .ok ds ∧
        ∀ next, List.Forall₂ (fun w v => w.same v = true) (ofData (β := β) next ds).1
          (row.map Prod.fst)) ∧
      ∀ v w : Value β, v.Printable → w.Printable → v.text = w.text → v.same w = true := by
  refine ⟨?_, fun v w hv hw h => hv.same_of_text_eq hw h⟩
  have hreads : ∀ entry ∈ row, ∃ d, ReadsBack entry.1 d := by
    intro entry hentry
    exact (hrow entry hentry).1.exists_readsBack
  rcases exists_forall₂ hreads with ⟨ds, hds⟩
  have hforms := forms_layout hfirst (fun entry hentry => (hrow entry hentry).2) hbetween hds
  refine ⟨ds, Reading.all_eq_ok_iff_forms.mpr hforms, fun next => ?_⟩
  exact forall₂_same_ofData (List.forall₂_map_left_iff.mpr hds) next

def crowdedRow : List (Value Unit × List Char) :=
  [(.list 0 [.symbol ⟨"a"⟩, .number (-0), .list 1 []], [';', '"', '\n']),
    (.atom (.string "\\\""), [' ']), (.bool true, [])]

theorem all_layout_crowdedRow :
    ((∀ entry ∈ crowdedRow, entry.1.Printable ∧ Token.Spacing entry.2) ∧
        ∀ entry ∈ crowdedRow.dropLast, entry.2 ≠ []) ∧
      layout [] crowdedRow = "(a -0 ());\"\n\"\\\"\" #t".toList ∧
      ∃ ds, Reading.all (layout [] crowdedRow) = .ok ds ∧
        ∀ next, List.Forall₂ (fun w v => w.same v = true) (ofData (β := Unit) next ds).1
          (crowdedRow.map Prod.fst) := by
  have hsymbol : (Atom.symbol ⟨"a"⟩).Printable := by
    refine ⟨⟨by decide, ?_⟩, rfl⟩
    simp [Symbol.text, Token.isDelimiter, Text.isBlank]
  have hnumber : (Atom.number (-0)).Printable := by
    show (-0 : Float).isFinite = true
    decide
  have hlist : (list 0 [symbol ⟨"a"⟩, number (-0), list 1 []] : Value Unit).Printable := by
    refine .list 0 ?_
    simp only [List.mem_cons, List.not_mem_nil, or_false, forall_eq_or_imp, forall_eq]
    refine ⟨.atom hsymbol, .atom hnumber, .list 1 ?_⟩
    intro v hv
    cases hv
  have hstring : (Value.atom (.string "\\\"") : Value Unit).Printable :=
    .atom (Token.LiteralBody.escaped '"' .empty)
  have hrow : ∀ entry ∈ crowdedRow, entry.1.Printable ∧ Token.Spacing entry.2 := by
    simp only [crowdedRow, List.mem_cons, List.not_mem_nil, or_false, forall_eq_or_imp, forall_eq]
    refine ⟨⟨hlist, fun rest => ?_⟩, ⟨hstring, fun rest => ?_⟩, .atom trivial, fun rest => ?_⟩
    · exact @Token.Gap.comment ['"'] [] rest (by decide) (.empty rest)
    · exact .blank (by decide) (.empty rest)
    · exact .empty rest
  have hbetween : ∀ entry ∈ crowdedRow.dropLast, entry.2 ≠ [] := by
    simp [crowdedRow]
  refine ⟨⟨hrow, hbetween⟩, by decide +kernel, ?_⟩
  exact (all_layout (fun rest => .empty rest) hrow hbetween).1

end Value
end MiniLisp
