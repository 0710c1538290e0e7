import MiniLisp.Proofs.Code.Strings
import MiniLisp.Proofs.Datum.Printable
import MiniLisp.Proofs.Independence

/-!
# The texts of strings

A string is written between quotes as it is, so its text is a literal only if its contents are those
of one: no quote in them that is not behind a backslash, and no backslash without a character after
it.  Literals that are read have such contents, and so has a string of one character, unless the
character is a quote or a backslash.  Programs come to no other strings.

## Main statements

* `Atom.first_text_string_iff`: which strings are read back from their texts.
* `Toplevels.strings_read_back`: whatever programs come to, all strings but two are read back.
-/

namespace MiniLisp

/-!
# Which strings are read back
-/

namespace Token

theorem literalBody_of_isLiteral {body : List Char} (h : IsLiteral (literal body)) :
    LiteralBody body := by
  rcases h with ⟨taken, heq, htaken⟩
  rcases exists_body_of_takeLiteral? htaken with ⟨body', hbody', rfl⟩
  rw [literal, List.cons_inj_right, List.append_left_inj] at heq
  rwa [heq]

theorem not_literalBody_quote : ¬ LiteralBody ['"'] := by
  intro h
  cases h with
  | plain _ hquote _ => exact hquote rfl

theorem not_literalBody_backslash : ¬ LiteralBody ['\\'] := by
  intro h
  cases h with
  | plain hbackslash _ _ => exact hbackslash rfl

end Token

namespace Atom

theorem isLiteral_text_string_iff {contents : String} :
    Token.IsLiteral (Atom.string contents).text ↔ Token.LiteralBody contents.toList :=
  ⟨Token.literalBody_of_isLiteral, Token.isLiteral_literal⟩

theorem literalBody_of_ofToken {token : List Char} (h : Token.IsAtom token) {contents : String}
    (hstring : ofToken token = .string contents) :
    Token.LiteralBody contents.toList := by
  have htext : (Atom.string contents).text = token := by
    rw [← hstring]
    apply text_ofToken h
    rw [hstring]
    exact fun _ => nofun
  rw [← htext] at h
  cases h with
  | inl hrun => exact absurd (hrun.2 '"' List.mem_cons_self) (by decide)
  | inr hliteral => exact isLiteral_text_string_iff.mp hliteral

end Atom

theorem Datum.Legible.literalBody {d : Datum} (h : d.Legible) :
    ∀ contents, Atom.string contents ∈ d.atoms → Token.LiteralBody contents.toList := by
  induction h with
  | atom htoken =>
      intro contents hmem
      exact Atom.literalBody_of_ofToken htoken (List.mem_singleton.mp hmem).symm
  | list _ ih =>
      intro contents hmem
      rcases Datum.mem_atomsOfAll.mp hmem with ⟨d, hd, hmem⟩
      exact ih d hd contents hmem
  | quoted _ ih =>
      intro contents hmem
      rcases Datum.mem_atomsOfAll.mp hmem with ⟨e, he, hmem⟩
      rcases he with _ | ⟨_, _ | ⟨_, he⟩⟩
      · cases List.mem_singleton.mp hmem
      · exact ih contents hmem
      · cases he

theorem Reading.legible_of_forms (text : List Char) : ∀ d ∈ (forms text).1, d.Legible := by
  fun_induction forms text with
  | case1 => exact nofun
  | case2 => exact nofun
  | case3 text d rest hnext ds cause hrest ih =>
      intro e he
      rcases List.mem_cons.mp he with rfl | he
      · refine @legible_of_readFrom [] text rest e ?_ hnext
        intro c hc
        cases hc
      · apply ih e
        rw [hrest]
        exact he

/-- A string is read back from its text exactly if its contents are those of a literal. -/
theorem Atom.first_text_string_iff {contents : String} :
    Reading.first (Atom.string contents).text = .ok (.atom (.string contents)) ↔
      Token.LiteralBody contents.toList := by
  constructor
  · exact fun h => (Reading.legible_of_first h).literalBody contents (.head _)
  · intro h
    have hprintable : (Atom.string contents).Printable := h
    exact Reading.first_of_readsAs (Value.readsBack_atom (β := Unit) hprintable).reads

/-!
# Which strings programs come to
-/

/-- The contents of a literal, or of a string of one character. -/
def StringOrigin (contents : String) : Prop :=
  Token.LiteralBody contents.toList ∨ contents = "\"" ∨ contents = "\\"

theorem stringOrigin_of_character (c : Char) : StringOrigin c.toString := by
  by_cases hquote : c = '"'
  · rw [hquote]
    exact .inr (.inl rfl)
  · by_cases hbackslash : c = '\\'
    · rw [hbackslash]
      exact .inr (.inr rfl)
    · refine .inl ?_
      change Token.LiteralBody (String.singleton c).toList
      rw [String.toList_singleton]
      exact .plain hbackslash hquote .empty

theorem literalBody_iff_of_stringOrigin {contents : String} (h : StringOrigin contents) :
    Token.LiteralBody contents.toList ↔ contents ≠ "\"" ∧ contents ≠ "\\" := by
  constructor
  · intro hbody
    constructor
    · rintro rfl
      exact Token.not_literalBody_quote hbody
    · rintro rfl
      exact Token.not_literalBody_backslash hbody
  · rintro ⟨hquote, hbackslash⟩
    rcases h with hbody | h | h
    · exact hbody
    · exact absurd h hquote
    · exact absurd h hbackslash

mutual

theorem Value.strings_ofDatum {P : String → Prop} (next : Identity) (d : Datum)
    (h : ∀ contents, Atom.string contents ∈ d.atoms → P contents) :
    (Value.ofDatum next d : Val × Identity).1.Strings P := by
  cases d with
  | atom a =>
      apply Value.strings_atom
      rintro contents rfl
      exact h contents (.head _)
  | list ds => exact Value.strings_list (Value.strings_ofData (next + 1) ds h)

theorem Value.strings_ofData {P : String → Prop} (next : Identity) (ds : List Datum)
    (h : ∀ contents, Atom.string contents ∈ Datum.atomsOfAll ds → P contents) :
    ∀ v ∈ (Value.ofData next ds : List Val × Identity).1, v.Strings P := by
  cases ds with
  | nil => exact nofun
  | cons d rest =>
      intro v hv
      rcases List.mem_cons.mp hv with rfl | hv
      · exact Value.strings_ofDatum next d fun contents hmem =>
          h contents (List.mem_append_left _ hmem)
      · refine Value.strings_ofData _ rest (fun contents hmem => ?_) v hv
        exact h contents (List.mem_append_right _ hmem)

end

/-- A run after which all strings in the store come of literals or have one character, if those
before it do, and which ends with something as told. -/
def Run.KeepsOrigins {α : Type} (Q : α → Prop) (a : Run Code α) : Prop :=
  ∀ (s t : Store Code) (r : Except Fault α), a s = some (r, t) → s.Strings StringOrigin →
    StringsEnd StringOrigin Q r t

abbrev Value.Originates (v : Val) : Prop :=
  v.Strings StringOrigin

namespace Run.KeepsOrigins

variable {α γ : Type} {Q : α → Prop} {R : γ → Prop}

theorem pure {x : α} (hx : Q x) : KeepsOrigins Q (pure x) := by
  intro s t r h hs
  cases h
  exact stringsEnd_of_value hs hx

theorem bind {a : Run Code α} {f : α → Run Code γ} (ha : KeepsOrigins Q a)
    (hf : ∀ x, Q x → KeepsOrigins R (f x)) :
    KeepsOrigins R (a >>= f) := by
  intro s t r h hs
  rcases Run.bind_eq_some h with ⟨x, u, hx, h⟩ | ⟨fault, hfault, rfl⟩
  · have hu := ha s u _ hx hs
    exact hf x (hu.result x rfl) u t r h hu.store
  · exact stringsEnd_of_fault (ha s t _ hfault hs).store fault

theorem fail (cause : Fault.Cause) : KeepsOrigins Q (Run.fail cause) := by
  intro s t r h hs
  cases h
  exact stringsEnd_of_fault hs _

theorem ofExcept {a : Except Fault.Cause α} (ha : ∀ x, a = .ok x → Q x) :
    KeepsOrigins Q (Run.ofExcept a) := by
  cases a with
  | ok x => exact .pure (ha x rfl)
  | error cause => exact .fail cause

end Run.KeepsOrigins

namespace Toplevel

open Run (KeepsOrigins)

variable {depth : Nat} {top : Toplevel}

theorem evalDatum_keepsOrigins {d : Datum} (hd : d.Legible) :
    KeepsOrigins Value.Originates (top.evalDatum depth d) := by
  refine KeepsOrigins.bind (Q := Value.Originates) ?_ fun e he => ?_
  · intro s t r h hs
    cases h
    refine stringsEnd_of_value (hs.allBound.of_frames_eq ?_) (Value.strings_ofDatum _ d ?_)
    · rfl
    · exact fun contents hmem => .inl (hd.literalBody contents hmem)
  · intro s t r h hs
    exact strings_of_evaluate h stringOrigin_of_character hs he

theorem evalFirst_keepsOrigins (text : List Char) :
    KeepsOrigins Value.Originates (top.evalFirst depth text) :=
  .bind (.ofExcept fun _ => Reading.legible_of_first) fun _ => evalDatum_keepsOrigins

theorem evalEach_keepsOrigins {ds : List Datum} (hds : ∀ d ∈ ds, d.Legible) {last : Val}
    (hlast : last.Originates) :
    KeepsOrigins Value.Originates (top.evalEach depth last ds) := by
  induction ds generalizing last with
  | nil => exact .pure hlast
  | cons d rest ih =>
      apply KeepsOrigins.bind (evalDatum_keepsOrigins (hds d (.head _)))
      exact fun v hv => ih (fun e he => hds e (.tail _ he)) hv

theorem evalText_keepsOrigins (text : List Char) :
    KeepsOrigins Value.Originates (top.evalText depth text) := by
  apply KeepsOrigins.bind
    (evalEach_keepsOrigins (Reading.legible_of_forms text) Value.strings_undefined)
  intro last hlast
  cases (Reading.forms text).2 with
  | none => exact .pure hlast
  | some cause => exact .fail cause

theorem bindPrimitives_keepsOrigins (env : Env) :
    KeepsOrigins (fun _ => True) (bindPrimitives env) := by
  unfold bindPrimitives
  induction Primitive.every with
  | nil => exact .pure trivial
  | cons p rest ih =>
      apply KeepsOrigins.bind (Q := fun _ => True) _ fun _ _ => ih
      intro s t r h hs
      cases h
      exact stringsEnd_of_value (hs.allBound.bind (Value.strings_primitive p) _ _) trivial

theorem new_keepsOrigins : KeepsOrigins (fun _ => True) new := by
  refine KeepsOrigins.bind (Q := fun _ => True) ?_ fun env _ =>
    .bind (bindPrimitives_keepsOrigins env) fun _ _ => .pure trivial
  intro s t r h hs
  cases h
  exact stringsEnd_of_value hs.allBound.newEnv trivial

theorem withLibrary_keepsOrigins : KeepsOrigins (fun _ => True) (withLibrary depth) :=
  .bind new_keepsOrigins fun _ _ =>
    .bind (evalFirst_keepsOrigins _) fun _ _ => .pure trivial

end Toplevel

theorem Request.run_keepsOrigins (depth : Nat) (top? : Option Toplevel) (request : Request) :
    Run.KeepsOrigins (fun reply => ∀ v, reply.2 = some v → v.Originates)
      (request.run depth top?) := by
  have heval : ∀ f : Toplevel → Run Code Val,
      (∀ top, Run.KeepsOrigins Value.Originates (f top)) →
      Run.KeepsOrigins (fun reply => ∀ v, reply.2 = some v → v.Originates) (evalIn top? f) := by
    intro f hf
    cases top? with
    | none => exact .pure fun _ => nofun
    | some top =>
        refine .bind (hf top) fun v hv => .pure ?_
        intro w hw
        cases hw
        exact hv
  cases request with
  | make library =>
      refine .bind (Q := fun _ => True) ?_ fun top _ => .pure fun _ => nofun
      cases library with
      | true => exact Toplevel.withLibrary_keepsOrigins
      | false => exact Toplevel.new_keepsOrigins
  | evalFirst text => exact heval _ fun top => Toplevel.evalFirst_keepsOrigins text
  | evalText text => exact heval _ fun top => Toplevel.evalText_keepsOrigins text

theorem Value.eq_of_identical_string {contents : String} {v : Val}
    (h : (Value.atom (.string contents)).identical v = true) :
    v = .atom (.string contents) := by
  cases v with
  | atom a =>
      cases a with
      | string other => rw [eq_of_beq h]
      | _ => cases h
  | _ => cases h

namespace Toplevels

variable {ι : Type} [DecidableEq ι] {depth : Nat} {T T' : Toplevels ι}
  {history : List (ι × Request)} {answers : List (ι × Answer)}

theorem strings_of_ask {who : ι} {request : Request} {answer : Answer}
    (h : T.ask depth who request = some (answer, T')) (hT : T.store.Strings StringOrigin) :
    T'.store.Strings StringOrigin ∧ ∀ v, answer.result = .ok (some v) → v.Originates := by
  have hkeeps := request.run_keepsOrigins depth (T.of? who)
  unfold ask at h
  split at h
  · cases h
  · rename_i top? v? s hrun
    cases h
    have hend := hkeeps T.store s _ hrun hT
    refine ⟨hend.store, fun v hv => ?_⟩
    cases hv
    exact hend.result _ rfl v rfl
  · rename_i fault s hrun
    cases h
    exact ⟨(hkeeps T.store s _ hrun hT).store, fun _ => nofun⟩

theorem strings_of_askAll (h : T.askAll depth history = some (answers, T'))
    (hT : T.store.Strings StringOrigin) :
    T'.store.Strings StringOrigin ∧
      ∀ a ∈ answers, ∀ v, a.2.result = .ok (some v) → v.Originates := by
  induction history generalizing T answers with
  | nil =>
      cases h
      exact ⟨hT, nofun⟩
  | cons first rest ih =>
      rcases first with ⟨who, request⟩
      rcases askAll_cons_eq_some_iff.mp h with ⟨answer, U, others, hask, hrest, rfl⟩
      have hU := strings_of_ask hask hT
      have hothers := ih hrest hU.1
      refine ⟨hothers.1, ?_⟩
      intro a ha
      rcases List.mem_cons.mp ha with rfl | ha
      · exact hU.2
      · exact hothers.2 a ha

inductive ComesTo (x : Val) (answers : List (ι × Answer)) (T : Toplevels ι) : Prop where
  | answered {who v printed} :
      (who, ⟨.ok (some v), printed⟩) ∈ answers →
      x.OccursIn v →
      ComesTo x answers T
  | bound {f name v} :
      T.store.find? f name = some v →
      x.OccursIn v →
      ComesTo x answers T

/-- Whatever is asked of whatever top levels, all strings that programs come to are written as one
literal, and are read back from it, except for the one that is a quote and the one that is a
backslash; of these two, neither is. -/
theorem strings_read_back (h : askAll depth {} history = some (answers, T)) {contents : String}
    (hcomes : ComesTo (.atom (.string contents)) answers T) :
    (Token.IsLiteral (Value.atom (.string contents) : Val).text ↔
        contents ≠ "\"" ∧ contents ≠ "\\") ∧
      (Reading.first (Value.atom (.string contents) : Val).text = .ok (.atom (.string contents)) ↔
        contents ≠ "\"" ∧ contents ≠ "\\") := by
  have hstrings := strings_of_askAll h Store.AllBound.empty
  have horigin : StringOrigin contents := by
    cases hcomes with
    | answered hmem hoccurs => exact hstrings.2 _ hmem _ rfl contents hoccurs
    | bound hv hoccurs => exact hstrings.1 _ _ _ hv contents hoccurs
  have hbody := literalBody_iff_of_stringOrigin horigin
  exact ⟨Atom.isLiteral_text_string_iff.trans hbody, Atom.first_text_string_iff.trans hbody⟩

theorem strings_read_back_characters :
    ∃ answers T,
      askAll 20 {} [((), .make false), ((), .evalFirst "(chr 34)".toList),
          ((), .evalFirst "(chr 92)".toList), ((), .evalFirst "(chr 97)".toList)] =
        some (answers, T) ∧
      (ComesTo (.atom (.string "\"")) answers T ∧
        Reading.first (Value.atom (.string "\"") : Val).text ≠ .ok (.atom (.string "\""))) ∧
      (ComesTo (.atom (.string "\\")) answers T ∧
        Reading.first (Value.atom (.string "\\") : Val).text ≠ .ok (.atom (.string "\\"))) ∧
      (ComesTo (.atom (.string "a")) answers T ∧
        Reading.first (Value.atom (.string "a") : Val).text = .ok (.atom (.string "a"))) := by
  have hrun : ∃ reply,
      askAll 20 {} [((), .make false), ((), .evalFirst "(chr 34)".toList),
          ((), .evalFirst "(chr 92)".toList), ((), .evalFirst "(chr 97)".toList)] =
        some reply ∧
      ["\"", "\\", "a"].all (fun contents => reply.1.any fun a =>
          a.2.result.toOption.join.any (Value.atom (.string contents)).identical) = true :=
    (Option.any_eq_true _ _).mp (by decide +kernel)
  rcases hrun with ⟨⟨answers, T⟩, hask, hall⟩
  have hcomes : ∀ contents ∈ ["\"", "\\", "a"], ComesTo (.atom (.string contents)) answers T := by
    intro contents hcontents
    rcases List.any_eq_true.mp (List.all_eq_true.mp hall contents hcontents) with
      ⟨⟨who, ⟨result, printed⟩⟩, hmem, hany⟩
    rcases (Option.any_eq_true _ _).mp hany with ⟨v, hv, hidentical⟩
    cases Value.eq_of_identical_string hidentical
    cases result with
    | error => cases hv
    | ok v? =>
        cases v? with
        | none => cases hv
        | some v =>
            cases hv
            exact .answered hmem .self
  have hquote := hcomes "\"" (.head _)
  have hbackslash := hcomes "\\" (.tail _ (.head _))
  have hletter := hcomes "a" (.tail _ (.tail _ (.head _)))
  refine ⟨answers, T, hask, ⟨hquote, fun hread => ?_⟩, ⟨hbackslash, fun hread => ?_⟩,
    ⟨hletter, ?_⟩⟩
  · exact ((strings_read_back hask hquote).2.mp hread).1 rfl
  · exact ((strings_read_back hask hbackslash).2.mp hread).2 rfl
  · exact (strings_read_back hask hletter).2.mpr (by decide)

end Toplevels

end MiniLisp
