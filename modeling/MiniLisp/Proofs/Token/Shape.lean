import Mathlib
import MiniLisp.Proofs.Token.Division

/-!
# Texts that go on

More text after a text leaves its tokens as they are, but for a run of ordinary characters at the
very end, which may get longer.

## Main statement

* `shapes_scan_isPrefix`: up to the characters of atoms, the tokens of a text are the first ones of
  every longer text.
-/

namespace MiniLisp
namespace Token

def shape : Token → Token
  | .atom _ => .atom []
  | token => token

theorem Precedes.exists_append {token : Token} {rest : List Char} (h : Precedes token rest)
    (more : List Char) :
    Precedes token (rest ++ more) ∨
      rest = [] ∧ ∃ longer left, Precedes longer left ∧ longer.shape = token.shape ∧
        token.text ++ more = longer.text ++ left := by
  cases h with
  | opening => exact Or.inl (.opening _)
  | closing => exact Or.inl (.closing _)
  | quote => exact Or.inl (.quote _)
  | literal _ hbody => exact Or.inl (.literal _ hbody)
  | @run run _ hrun hrest =>
      cases rest with
      | cons c rest => exact Or.inl (.run hrun hrest)
      | nil =>
          have hlonger := Precedes.run (hrun.append_takeWhile more) (delimited_dropWhile more)
          refine Or.inr ⟨rfl, _, _, hlonger, rfl, ?_⟩
          rw [text, text, List.append_assoc, List.takeWhile_append_dropWhile]

/-- Up to the characters of atoms, the tokens of a text are the first ones of every longer text. -/
theorem shapes_scan_isPrefix (text more : List Char) :
    (scan text).1.map shape <+: (scan (text ++ more)).1.map shape := by
  rcases exists_division text with ⟨d, hd, rfl⟩
  rw [hd.scan_text.1]
  induction d with
  | ending gap left => exact List.nil_prefix
  | cons gap token after ih =>
      have hgap := hd.gap_append more
      rcases hd with ⟨-, htoken, hafter⟩
      rw [Division.text, Division.tokens, List.append_assoc, List.append_assoc, List.map_cons]
      rcases htoken.exists_append more with hsame | ⟨hnil, longer, left, hlonger, hshape, htext⟩
      · rw [scan_of_token (next_token hgap hsame)]
        exact (List.prefix_cons_inj _).mpr (ih hafter)
      · have hnone : after.tokens = [] := by
          rw [← hafter.scan_text.1, hnil, scan_of_end rfl]
        rw [hnil, List.nil_append, htext] at hgap ⊢
        rw [scan_of_token (next_token hgap hlonger), hnone, ← hshape]
        exact (List.prefix_cons_inj _).mpr List.nil_prefix

end Token
end MiniLisp
