import Mathlib
import MiniLisp.Proofs.Datum.Rows

/-!
# The grammar of forms

A form is an atom, a quote mark and a form, or a parenthesis, forms and a closing parenthesis; a
text is a row of forms.  Reading accepts exactly the texts that can be derived so, and the tokens
of a text leave no choice in how to derive them.

## Main statements

* `Form.eq_of_tokensOfAll_eq`: the grammar is unambiguous.
* `assemble_tokensOfAll_nil`: derived tokens are read as the data they stand for.
* `exists_forms_of_assemble`: tokens that are read completely can be derived.
* `all_eq_ok_iff_derives`: reading accepts exactly the grammar.
-/

namespace MiniLisp
namespace Reading

/-- A form by the grammar: an atom, a quote mark and a form, or forms between parentheses. -/
inductive Form where
  | atom (token : List Char)
  | quoted (form : Form)
  | list (items : List Form)

namespace Form

mutual

def tokens : Form → List Token
  | .atom token => [.atom token]
  | .quoted form => .quote :: form.tokens
  | .list items => .opening :: (tokensOfAll items ++ [.closing])

def tokensOfAll : List Form → List Token
  | [] => []
  | form :: rest => form.tokens ++ tokensOfAll rest

end

mutual

def datum : Form → Datum
  | .atom token => .atom (Atom.ofToken token)
  | .quoted form => form.datum.quoted
  | .list items => .list (data items)

def data : List Form → List Datum
  | [] => []
  | form :: rest => form.datum :: data rest

end

theorem tokensOfAll_concat (items : List Form) (form : Form) :
    tokensOfAll (items ++ [form]) = tokensOfAll items ++ form.tokens := by
  induction items with
  | nil => simp [tokensOfAll]
  | cons item rest ih => simp [tokensOfAll, ih]

theorem data_concat (items : List Form) (form : Form) :
    data (items ++ [form]) = data items ++ [form.datum] := by
  induction items with
  | nil => rfl
  | cons item rest ih => simp [data, ih]

/-!
## One way to derive a row

Two forms whose tokens begin one row are the same, and so is what is left of the row.  Of several
forms this holds if the row then ends or a parenthesis is closed.
-/

def Closed (rest : List Token) : Prop :=
  ∀ token ∈ rest.head?, token = .closing

theorem not_closed_tokens_append (form : Form) (rest : List Token) :
    ¬ Closed (form.tokens ++ rest) := by
  intro h
  cases form with
  | atom token => cases h (.atom token) rfl
  | quoted form => cases h .quote rfl
  | list items => cases h .opening rfl

mutual

theorem eq_of_tokens_append (form other : Form) {rest left : List Token}
    (h : form.tokens ++ rest = other.tokens ++ left) : form = other ∧ rest = left := by
  cases form with
  | atom token =>
      cases other with
      | atom token' =>
          cases h
          exact ⟨rfl, rfl⟩
      | quoted form => cases h
      | list items => cases h
  | quoted form =>
      cases other with
      | atom token' => cases h
      | quoted form' =>
          rcases eq_of_tokens_append form form' (List.cons.inj h).2 with ⟨rfl, hrest⟩
          exact ⟨rfl, hrest⟩
      | list items => cases h
  | list items =>
      cases other with
      | atom token' => cases h
      | quoted form => cases h
      | list others =>
          simp only [tokens, List.cons_append, List.append_assoc, List.nil_append,
            List.cons.injEq, true_and] at h
          have hclosed : ∀ more : List Token, Closed (.closing :: more) := by
            intro more token htoken
            cases htoken
            rfl
          rcases eq_of_tokensOfAll_append items others (hclosed _) (hclosed _) h with ⟨rfl, hrest⟩
          exact ⟨rfl, (List.cons.inj hrest).2⟩

theorem eq_of_tokensOfAll_append (items others : List Form) {rest left : List Token}
    (hrest : Closed rest) (hleft : Closed left)
    (h : tokensOfAll items ++ rest = tokensOfAll others ++ left) :
    items = others ∧ rest = left := by
  cases items with
  | nil =>
      cases others with
      | nil => exact ⟨rfl, h⟩
      | cons other others =>
          rw [tokensOfAll, tokensOfAll, List.nil_append, List.append_assoc] at h
          rw [h] at hrest
          exact absurd hrest (not_closed_tokens_append other _)
  | cons item items =>
      cases others with
      | nil =>
          rw [tokensOfAll, tokensOfAll, List.nil_append, List.append_assoc] at h
          rw [← h] at hleft
          exact absurd hleft (not_closed_tokens_append item _)
      | cons other others =>
          rw [tokensOfAll, tokensOfAll, List.append_assoc, List.append_assoc] at h
          rcases eq_of_tokens_append item other h with ⟨rfl, hmore⟩
          rcases eq_of_tokensOfAll_append items others hrest hleft hmore with ⟨rfl, heq⟩
          exact ⟨rfl, heq⟩

end

/-- The grammar is unambiguous. -/
theorem eq_of_tokensOfAll_eq {items others : List Form}
    (h : tokensOfAll items = tokensOfAll others) : items = others := by
  have hclosed : Closed [] := by
    intro token htoken
    cases htoken
  have hnil : tokensOfAll items ++ [] = tokensOfAll others ++ [] := by
    rw [h]
  exact (eq_of_tokensOfAll_append items others hclosed hclosed hnil).1

end Form

/-- The tokens can be derived as a row of forms that stand for the data. -/
def Derives (tokens : List Token) (ds : List Datum) : Prop :=
  ∃ forms : List Form,
    Form.tokensOfAll forms = tokens ∧ Form.data forms = ds

/-!
## Derived tokens are read
-/

open Form (tokensOfAll data)

mutual

theorem assemble_tokens (form : Form) (pending : Pending) (rest : List Token) :
    assemble pending (form.tokens ++ rest) = carryOn (fill pending form.datum) rest := by
  cases form with
  | atom token => exact assemble_of_accept rfl rest
  | quoted form =>
      rw [Form.tokens, List.cons_append, assemble_of_accept rfl]
      exact assemble_tokens form (.quoted :: pending) rest
  | list items =>
      rw [Form.tokens, List.cons_append, assemble_of_accept rfl, List.append_assoc]
      have hitems := assemble_tokensOfAll items [] pending (.closing :: rest)
      rw [List.append_nil] at hitems
      refine hitems.trans ((assemble_of_accept rfl rest).trans ?_)
      rw [List.reverse_reverse, Form.datum]

theorem assemble_tokensOfAll (items : List Form) (read : List Datum) (outer : Pending)
    (rest : List Token) :
    assemble (.items read :: outer) (tokensOfAll items ++ rest) =
      assemble (.items ((data items).reverse ++ read) :: outer) rest := by
  cases items with
  | nil => rfl
  | cons item items =>
      rw [Form.tokensOfAll, List.append_assoc, assemble_tokens item]
      refine (assemble_tokensOfAll items (item.datum :: read) outer rest).trans ?_
      rw [Form.data, List.reverse_cons, List.append_assoc, List.singleton_append]

end

/-- Derived tokens are read as the data they stand for. -/
theorem assemble_tokensOfAll_nil (forms : List Form) :
    assemble [] (tokensOfAll forms) = (data forms, .ok []) := by
  induction forms with
  | nil => rfl
  | cons form rest ih =>
      rw [Form.tokensOfAll, assemble_tokens form]
      simp only [fill, carryOn, ih, Form.data]

/-!
## What is read can be derived

The tokens taken so far are those of the unfinished forms: of each list, its opening parenthesis
and its items, and of each quote mark, the mark.
-/

inductive Opened : List Token → Pending → Prop where
  | nothing : Opened [] []
  | items {before : List Token} {outer : Pending} (items : List Form) :
      Opened before outer →
      Opened (before ++ .opening :: tokensOfAll items) (.items (data items).reverse :: outer)
  | quoted {before : List Token} {outer : Pending} :
      Opened before outer → Opened (before ++ [.quote]) (.quoted :: outer)

def Progress.ReadFrom (before : List Token) : Progress → Prop
  | .complete d => ∃ form : Form, form.tokens = before ∧ form.datum = d
  | .waiting pending => Opened before pending

theorem readFrom_fill {before : List Token} {pending : Pending} (h : Opened before pending)
    (form : Form) : (fill pending form.datum).ReadFrom (before ++ form.tokens) := by
  induction h generalizing form with
  | nothing => exact ⟨form, rfl, rfl⟩
  | @items before outer items houter =>
      have hopened := houter.items (items ++ [form])
      rw [Form.tokensOfAll_concat, Form.data_concat, List.reverse_append] at hopened
      rw [List.append_assoc]
      exact hopened
  | quoted _ ih =>
      have hquoted := ih (.quoted form)
      rw [List.append_assoc]
      exact hquoted

theorem readFrom_accept {before : List Token} {pending : Pending} {token : Token}
    {progress : Progress} (h : Opened before pending)
    (haccept : accept pending token = .ok progress) :
    progress.ReadFrom (before ++ [token]) := by
  cases token with
  | opening =>
      cases haccept
      exact h.items []
  | quote =>
      cases haccept
      exact h.quoted
  | atom token =>
      cases haccept
      exact readFrom_fill h (.atom token)
  | closing =>
      cases h with
      | nothing => cases haccept
      | quoted => cases haccept
      | @items before outer items houter =>
          cases haccept
          have hlist := readFrom_fill houter (.list items)
          rw [Form.tokens, Form.datum] at hlist
          rw [List.reverse_reverse, List.append_assoc]
          exact hlist

/-- Tokens that are read completely can be derived. -/
theorem exists_forms_of_assemble {before tokens : List Token} {pending : Pending}
    {ds : List Datum} (h : Opened before pending) (hread : assemble pending tokens = (ds, .ok [])) :
    ∃ forms : List Form, tokensOfAll forms = before ++ tokens ∧ data forms = ds := by
  induction tokens generalizing before pending ds with
  | nil =>
      cases hread
      cases h
      exact ⟨[], rfl, rfl⟩
  | cons token rest ih =>
      cases haccept : accept pending token with
      | error cause =>
          rw [assemble_of_refuse haccept] at hread
          cases hread
      | ok progress =>
          have hprogress := readFrom_accept h haccept
          rw [assemble_of_accept haccept] at hread
          rw [List.append_cons]
          cases progress with
          | waiting inner => exact ih hprogress hread
          | complete d =>
              rcases hprogress with ⟨form, htokens, rfl⟩
              simp only [carryOn, Prod.mk.injEq] at hread
              rcases hread with ⟨rfl, hrest⟩
              rcases ih .nothing (Prod.ext rfl hrest) with ⟨forms, hforms, hdata⟩
              refine ⟨form :: forms, ?_, ?_⟩
              · rw [Form.tokensOfAll, htokens, hforms, List.nil_append]
              · rw [Form.data, hdata]

theorem derives_iff_assemble {tokens : List Token} {ds : List Datum} :
    Derives tokens ds ↔ assemble [] tokens = (ds, .ok []) := by
  constructor
  · rintro ⟨forms, rfl, rfl⟩
    exact assemble_tokensOfAll_nil forms
  · intro h
    exact exists_forms_of_assemble .nothing h

/-- Reading accepts a text exactly if its tokens can be derived, and yields the data they stand
for.  Tokens can be derived in one way at most, and every other text is malformed. -/
theorem all_eq_ok_iff_derives (text : List Char) :
    (∀ ds, all text = .ok ds ↔
        ∃ tokens, Token.scan text = (tokens, none) ∧ Derives tokens ds) ∧
      (∀ forms others, tokensOfAll forms = tokensOfAll others → forms = others) ∧
      ((∀ ds, all text ≠ .ok ds) →
        ∃ cause, all text = .error cause ∧ cause.kind = .malformed) := by
  refine ⟨fun ds => ?_, fun _ _ => Form.eq_of_tokensOfAll_eq, fun h => ?_⟩
  · rw [all_eq_ok_iff, ← derives_iff_assemble]
    constructor
    · rintro ⟨hfault, hderives⟩
      exact ⟨_, Prod.ext rfl hfault, hderives⟩
    · rintro ⟨tokens, htokens, hderives⟩
      rw [htokens]
      exact ⟨rfl, hderives⟩
  · cases hall : all text with
    | ok ds => exact absurd hall (h ds)
    | error cause => exact ⟨cause, rfl, kind_of_all_eq_error hall⟩

end Reading
end MiniLisp
