import MiniLisp.LineEditor.Cluster.Ranges

/-!
# Classes of characters

Whether two characters stand in one cluster depends on their classes: the values of the property
`Grapheme_Cluster_Break`, with the pictographs as one class more.
-/

namespace MiniLisp
namespace LineEditor

inductive ClusterClass where
  | carriageReturn
  | lineFeed
  | control
  /-- A mark or a modifier of the character before it. -/
  | extending
  /-- The joiner U+200D, which also ties one pictograph to the next. -/
  | joiner
  | spacing
  | prepended
  | regional
  | pictograph
  | leadingJamo
  | vowelJamo
  | trailingJamo
  | openSyllable
  | closedSyllable
  | other
  deriving DecidableEq, Repr

/-- The class of a character.  The precomposed Korean syllables are in runs of 28, each with the
syllable that has no trailing consonant first. -/
def clusterClass (c : Char) : ClusterClass :=
  let n := c.toNat
  if n = 0x0D then .carriageReturn
  else if n = 0x0A then .lineFeed
  else if 0x20 ≤ n ∧ n ≤ 0x7E then .other
  else if n = 0x200D then .joiner
  else if 0x1F1E6 ≤ n ∧ n ≤ 0x1F1FF then .regional
  else if 0xAC00 ≤ n ∧ n ≤ 0xD7A3 then
    if (n - 0xAC00) % 28 = 0 then .openSyllable else .closedSyllable
  else if Ranges.covers Ranges.controls n then .control
  else if Ranges.covers Ranges.extending n then .extending
  else if Ranges.covers Ranges.spacing n then .spacing
  else if Ranges.covers Ranges.prepended n then .prepended
  else if Ranges.covers Ranges.pictographs n then .pictograph
  else if Ranges.covers Ranges.leadingJamo n then .leadingJamo
  else if Ranges.covers Ranges.vowelJamo n then .vowelJamo
  else if Ranges.covers Ranges.trailingJamo n then .trailingJamo
  else .other

def isConjunctConsonant (c : Char) : Bool :=
  Ranges.covers Ranges.conjunctConsonants c.toNat

def isConjunctLinker (c : Char) : Bool :=
  Ranges.covers Ranges.conjunctLinkers c.toNat

/-- Whether a character may stand between two linked consonants: any mark, linker or joiner, but
not U+200C, which keeps them apart. -/
def isConjunctMark (c : Char) : Bool :=
  c.toNat ≠ 0x200C && (clusterClass c = .extending || clusterClass c = .joiner)

end LineEditor
end MiniLisp
