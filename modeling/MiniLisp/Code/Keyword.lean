import MiniLisp.Value

/-!
# Keywords

A list that starts with a keyword is a form with rules of its own.  Keywords are symbols; no
binding changes what they mean at the head of a list.
-/

namespace MiniLisp

inductive Keyword where
  | quote
  | branch
  | sequence
  | define
  | assign
  | lambda
  | cond
  | letForm
  deriving DecidableEq, Repr

namespace Keyword

def symbol : Keyword → Symbol
  | .quote => ⟨"quote"⟩
  | .branch => ⟨"if"⟩
  | .sequence => ⟨"begin"⟩
  | .define => ⟨"define"⟩
  | .assign => ⟨"set!"⟩
  | .lambda => ⟨"lambda"⟩
  | .cond => ⟨"cond"⟩
  | .letForm => ⟨"let"⟩

def every : List Keyword :=
  [.quote, .branch, .sequence, .define, .assign, .lambda, .cond, .letForm]

/-- The keyword that a symbol is; the quote mark is one too. -/
def ofSymbol? (s : Symbol) : Option Keyword :=
  if s = Symbol.quoteMark then some .quote else every.find? fun k => k.symbol = s

/-- The keyword that a list with this first item is a form of. -/
def ofHead? {β : Type} (head : Value β) : Option Keyword :=
  head.symbol?.bind ofSymbol?

def otherwise : Symbol :=
  ⟨"else"⟩

end Keyword

end MiniLisp
