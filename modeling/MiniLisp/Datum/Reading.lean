import MiniLisp.Datum
import MiniLisp.Token

/-!
# Reading data

A form is an atom, a quote mark with the form after it, or a parenthesized list of forms.  Forms
are read from left to right; what has been opened and not yet finished is kept as a stack of
contexts, the innermost first.  After a fault, reading goes on where the fault left the text.

## Main statement

* `next_shorter`: reading a form leaves a shorter text.
-/

namespace MiniLisp
namespace Reading

open Fault (Cause)

inductive Context where
  /-- An open list with the items read so far, the last one first. -/
  | items (read : List Datum)
  /-- A quote mark whose form is to come. -/
  | quoted

/-- The unfinished forms around a place, the innermost first. -/
abbrev Pending :=
  List Context

/-- What reading has come to after a token. -/
inductive Progress where
  | complete (form : Datum)
  | waiting (pending : Pending)

def fill : Pending → Datum → Progress
  | [], d => .complete d
  | .quoted :: outer, d => fill outer d.quoted
  | .items read :: outer, d => .waiting (.items (d :: read) :: outer)

def accept (pending : Pending) : Token → Except Cause Progress
  | .opening => .ok (.waiting (.items [] :: pending))
  | .quote => .ok (.waiting (.quoted :: pending))
  | .atom token => .ok (fill pending (.atom (Atom.ofToken token)))
  | .closing =>
      match pending with
      | .items read :: outer => .ok (fill outer (.list read.reverse))
      | _ => .error .unexpectedClose

def atEnd : Pending → Except Cause (Option Datum)
  | [] => .ok none
  | .items _ :: _ => .error .unclosedList
  | .quoted :: _ => .error .unexpectedEnd

/-- Reads on inside unfinished forms until the outermost is complete; the text that is left
comes second. -/
def readFrom (pending : Pending) (text : List Char) : Except Cause (Option Datum) × List Char :=
  match _taken : Token.next text with
  | (.error cause, rest) => (.error cause, rest)
  | (.ok none, rest) => (atEnd pending, rest)
  | (.ok (some token), rest) =>
      match accept pending token with
      | .error cause => (.error cause, rest)
      | .ok (.complete d) => (.ok (some d), rest)
      | .ok (.waiting inner) => readFrom inner rest
termination_by text.length
decreasing_by exact Token.next_shorter _taken

/-- Reads the next form, or nothing at the end; the text that is left comes second. -/
def next (text : List Char) : Except Cause (Option Datum) × List Char :=
  readFrom [] text

theorem atEnd_ne_some (pending : Pending) (d : Datum) : atEnd pending ≠ .ok (some d) := by
  match pending with
  | [] => simp [atEnd]
  | .items _ :: _ => simp [atEnd]
  | .quoted :: _ => simp [atEnd]

theorem readFrom_shorter {pending : Pending} {text rest : List Char} {d : Datum}
    (h : readFrom pending text = (.ok (some d), rest)) : rest.length < text.length := by
  fun_induction readFrom pending text with
  | case1 => simp at h
  | case2 =>
      simp only [Prod.mk.injEq] at h
      exact absurd h.1 (atEnd_ne_some _ d)
  | case3 => simp at h
  | case4 _ _ _ _ hnext =>
      simp only [Prod.mk.injEq] at h
      obtain ⟨-, rfl⟩ := h
      exact Token.next_shorter hnext
  | case5 _ _ _ _ hnext _ _ ih =>
      exact Nat.lt_trans (ih h) (Token.next_shorter hnext)

/-- Reading a form leaves a shorter text. -/
theorem next_shorter {text rest : List Char} {d : Datum}
    (h : next text = (.ok (some d), rest)) : rest.length < text.length :=
  readFrom_shorter h

/-! ## Whole texts -/

/-- The forms of a text up to its end or its first fault, and that fault. -/
def forms (text : List Char) : List Datum × Option Cause :=
  match _read : next text with
  | (.error cause, _) => ([], some cause)
  | (.ok none, _) => ([], none)
  | (.ok (some d), rest) =>
      let (ds, cause) := forms rest
      (d :: ds, cause)
termination_by text.length
decreasing_by exact next_shorter _read

def first (text : List Char) : Except Cause Datum :=
  match (next text).1 with
  | .ok (some d) => .ok d
  | .ok none => .error .unexpectedEnd
  | .error cause => .error cause

def all (text : List Char) : Except Cause (List Datum) :=
  match forms text with
  | (ds, none) => .ok ds
  | (_, some cause) => .error cause

/-- Whether a text stops inside a list, so that more text may complete it. -/
def isUnfinished (text : List Char) : Bool :=
  match all text with
  | .error .unclosedList => true
  | _ => false

end Reading
end MiniLisp
