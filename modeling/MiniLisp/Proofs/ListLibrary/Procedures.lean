import Mathlib
import MiniLisp.Toplevel

/-!
# The procedures of the list library

The text of the list library is read as one form, a row of ten definitions, and this form is
analyzed into code that binds ten names to ten procedures.  Which datum, and which code, is written
out here, so that what the procedures do can be said about their bodies.

## Main statements

* `ListLibrary.first_text`: reading the text of the library gives the datum of its definitions.
* `ListLibrary.analyze_datum`: analyzing this datum gives the code of its definitions.
-/

namespace MiniLisp

/-!
# Equality of data
-/

deriving instance DecidableEq for Atom

namespace Datum

mutual

def decEq : (d e : Datum) → Decidable (d = e)
  | .atom a, .atom b => decidable_of_iff (a = b) ⟨congrArg atom, atom.inj⟩
  | .list ds, .list es =>
      match decEqEach ds es with
      | isTrue h => isTrue (congrArg list h)
      | isFalse h => isFalse fun heq => h (list.inj heq)
  | .atom _, .list _ => isFalse nofun
  | .list _, .atom _ => isFalse nofun

def decEqEach : (ds es : List Datum) → Decidable (ds = es)
  | [], [] => isTrue rfl
  | d :: ds, e :: es =>
      match decEq d e, decEqEach ds es with
      | isTrue h, isTrue hs => isTrue (congr (congrArg List.cons h) hs)
      | isFalse h, _ => isFalse fun heq => h (List.cons.inj heq).1
      | _, isFalse hs => isFalse fun heq => hs (List.cons.inj heq).2
  | [], _ :: _ => isFalse nofun
  | _ :: _, [] => isFalse nofun

end

instance : DecidableEq Datum :=
  decEq

end Datum

def Primitive.call (p : Primitive) (operands : List Code) : Code :=
  .application (.reference ⟨p.name⟩) operands

namespace ListLibrary

inductive Procedure where
  | length
  | last
  | elem
  | map
  | foldr
  | append
  | remove
  | unique
  | reverse
  | flatten
  deriving DecidableEq, Repr

namespace Procedure

def name : Procedure → String
  | .length => "length"
  | .last => "last"
  | .elem => "elem?"
  | .map => "map"
  | .foldr => "foldr"
  | .append => "append"
  | .remove => "remove"
  | .unique => "unique"
  | .reverse => "reverse"
  | .flatten => "flatten"

def every : List Procedure :=
  [.length, .last, .elem, .map, .foldr, .append, .remove, .unique, .reverse, .flatten]

theorem mem_every (p : Procedure) : p ∈ every := by
  cases p <;> decide

theorem nodup_names_every : (every.map fun p => (⟨p.name⟩ : Symbol)).Nodup := by
  decide

def parameters : Procedure → List Symbol
  | .length | .last | .unique | .reverse => [⟨"xs"⟩]
  | .elem | .remove => [⟨"x"⟩, ⟨"xs"⟩]
  | .map => [⟨"f"⟩, ⟨"xs"⟩]
  | .foldr => [⟨"f"⟩, ⟨"init"⟩, ⟨"xs"⟩]
  | .append => [⟨"xs"⟩, ⟨"ys"⟩]
  | .flatten => [⟨"x"⟩]

end Procedure

/-!
# The library as a datum
-/

section Data

def symbol (name : String) : Datum :=
  .atom (.symbol ⟨name⟩)

def form (head : String) (rest : List Datum) : Datum :=
  .list (symbol head :: rest)

def quotedNil : Datum :=
  Datum.quoted (.list [])

def Procedure.datum : Procedure → Datum
  | .length =>
      form "define" [form "length" [symbol "xs"],
        form "if" [form "null?" [symbol "xs"],
          .atom (.number 0),
          form "+" [.atom (.number 1), form "length" [form "cdr" [symbol "xs"]]]]]
  | .last =>
      form "define" [form "last" [symbol "xs"],
        form "cond" [
          .list [form "null?" [symbol "xs"], quotedNil],
          .list [form "null?" [form "cdr" [symbol "xs"]], form "car" [symbol "xs"]],
          form "else" [form "last" [form "cdr" [symbol "xs"]]]]]
  | .elem =>
      form "define" [form "elem?" [symbol "x", symbol "xs"],
        form "cond" [
          .list [form "null?" [symbol "xs"], .atom (.bool false)],
          .list [form "eq?" [symbol "x", form "car" [symbol "xs"]], .atom (.bool true)],
          form "else" [form "elem?" [symbol "x", form "cdr" [symbol "xs"]]]]]
  | .map =>
      form "define" [form "map" [symbol "f", symbol "xs"],
        form "if" [form "null?" [symbol "xs"],
          quotedNil,
          form "cons" [form "f" [form "car" [symbol "xs"]],
            form "map" [symbol "f", form "cdr" [symbol "xs"]]]]]
  | .foldr =>
      form "define" [form "foldr" [symbol "f", symbol "init", symbol "xs"],
        form "if" [form "null?" [symbol "xs"],
          symbol "init",
          form "f" [form "car" [symbol "xs"],
            form "foldr" [symbol "f", symbol "init", form "cdr" [symbol "xs"]]]]]
  | .append =>
      form "define" [form "append" [symbol "xs", symbol "ys"],
        form "foldr" [symbol "cons", symbol "ys", symbol "xs"]]
  | .remove =>
      form "define" [form "remove" [symbol "x", symbol "xs"],
        form "cond" [
          .list [form "null?" [symbol "xs"], quotedNil],
          .list [form "eq?" [symbol "x", form "car" [symbol "xs"]],
            form "remove" [symbol "x", form "cdr" [symbol "xs"]]],
          form "else" [form "cons" [form "car" [symbol "xs"],
            form "remove" [symbol "x", form "cdr" [symbol "xs"]]]]]]
  | .unique =>
      form "define" [form "unique" [symbol "xs"],
        form "if" [form "null?" [symbol "xs"],
          quotedNil,
          form "cons" [form "car" [symbol "xs"],
            form "unique" [form "remove" [form "car" [symbol "xs"], form "cdr" [symbol "xs"]]]]]]
  | .reverse =>
      form "define" [form "reverse" [symbol "xs"],
        form "let" [.list [form "reverse-onto" [.atom (.bool false)]],
          form "set!" [symbol "reverse-onto",
            form "lambda" [form "xs" [symbol "acc"],
              form "if" [form "null?" [symbol "xs"],
                symbol "acc",
                form "reverse-onto" [form "cdr" [symbol "xs"],
                  form "cons" [form "car" [symbol "xs"], symbol "acc"]]]]],
          form "reverse-onto" [symbol "xs", quotedNil]]]
  | .flatten =>
      form "define" [form "flatten" [symbol "x"],
        form "cond" [
          .list [form "null?" [symbol "x"], quotedNil],
          .list [form "pair?" [symbol "x"],
            form "append" [form "flatten" [form "car" [symbol "x"]],
              form "flatten" [form "cdr" [symbol "x"]]]],
          form "else" [form "list" [symbol "x"]]]]

def datum : Datum :=
  form "begin" (Procedure.every.map Procedure.datum)

/-- Reading the text of the library gives the datum of its definitions. -/
theorem first_text : Reading.first text = .ok datum := by
  have hread : (Reading.first text).toOption = some datum := by
    decide +kernel
  revert hread
  cases Reading.first text with
  | ok d => exact fun hread => congrArg Except.ok (Option.some.inj hread)
  | error cause => exact nofun

end Data

/-!
# The library as code
-/

section Code

namespace Procedure

def call (p : Procedure) (operands : List Code) : Code :=
  .application (.reference ⟨p.name⟩) operands

end Procedure

def var (name : String) : Code :=
  .reference ⟨name⟩

def nil (id : Identity) : Code :=
  .literal (.list id [])

def reverseOnto : Code :=
  .branch (Primitive.null.call [var "xs"])
    (var "acc")
    (.application (var "reverse-onto")
      [Primitive.cdr.call [var "xs"],
        Primitive.cons.call [Primitive.car.call [var "xs"], var "acc"]])

namespace Procedure

/-- The body of a procedure, the library being read and analyzed when `n` is the next free identity.
The literal empty lists are those of the text, and those that end a `cond`. -/
def body (n : Identity) : Procedure → Code
  | .length =>
      .branch (Primitive.null.call [var "xs"])
        (.literal (.number 0))
        (Primitive.add.call [.literal (.number 1), length.call [Primitive.cdr.call [var "xs"]]])
  | .last =>
      .branch (Primitive.null.call [var "xs"])
        (nil (n + 14))
        (.branch (Primitive.null.call [Primitive.cdr.call [var "xs"]])
          (Primitive.car.call [var "xs"])
          (.branch (.literal (.bool true))
            (last.call [Primitive.cdr.call [var "xs"]])
            (nil (n + 117))))
  | .elem =>
      .branch (Primitive.null.call [var "xs"])
        (.literal (.bool false))
        (.branch (Primitive.identical.call [var "x", Primitive.car.call [var "xs"]])
          (.literal (.bool true))
          (.branch (.literal (.bool true))
            (elem.call [var "x", Primitive.cdr.call [var "xs"]])
            (nil (n + 118))))
  | .map =>
      .branch (Primitive.null.call [var "xs"])
        (nil (n + 38))
        (Primitive.cons.call
          [.application (var "f") [Primitive.car.call [var "xs"]],
            map.call [var "f", Primitive.cdr.call [var "xs"]]])
  | .foldr =>
      .branch (Primitive.null.call [var "xs"])
        (var "init")
        (.application (var "f")
          [Primitive.car.call [var "xs"],
            foldr.call [var "f", var "init", Primitive.cdr.call [var "xs"]]])
  | .append => foldr.call [var "cons", var "ys", var "xs"]
  | .remove =>
      .branch (Primitive.null.call [var "xs"])
        (nil (n + 61))
        (.branch (Primitive.identical.call [var "x", Primitive.car.call [var "xs"]])
          (remove.call [var "x", Primitive.cdr.call [var "xs"]])
          (.branch (.literal (.bool true))
            (Primitive.cons.call
              [Primitive.car.call [var "xs"],
                remove.call [var "x", Primitive.cdr.call [var "xs"]]])
            (nil (n + 119))))
  | .unique =>
      .branch (Primitive.null.call [var "xs"])
        (nil (n + 77))
        (Primitive.cons.call
          [Primitive.car.call [var "xs"],
            unique.call
              [remove.call [Primitive.car.call [var "xs"], Primitive.cdr.call [var "xs"]]]])
  | .reverse =>
      .application
        (.lambda [⟨"reverse-onto"⟩]
          (.andThen (.assign ⟨"reverse-onto"⟩ (.lambda [⟨"xs"⟩, ⟨"acc"⟩] reverseOnto))
            (.application (var "reverse-onto") [var "xs", nil (n + 100)])))
        [.literal (.bool false)]
  | .flatten =>
      .branch (Primitive.null.call [var "x"])
        (nil (n + 107))
        (.branch (Primitive.pair.call [var "x"])
          (append.call
            [flatten.call [Primitive.car.call [var "x"]],
              flatten.call [Primitive.cdr.call [var "x"]]])
          (.branch (.literal (.bool true))
            (Primitive.list.call [var "x"])
            (nil (n + 120))))

def define (n : Identity) (p : Procedure) : Code :=
  .define ⟨p.name⟩ (.lambda p.parameters (p.body n))

end Procedure

def defineEach (n : Identity) : Procedure → List Procedure → Code
  | p, [] => p.define n
  | p, q :: rest => .andThen (p.define n) (defineEach n q rest)

def code (n : Identity) : Code :=
  defineEach n .length Procedure.every.tail

theorem ofDatum_datum (n : Identity) :
    (Value.ofDatum (β := Code) n datum).2 = n + 117 :=
  rfl

set_option maxRecDepth 100000 in
/-- Analyzing the datum of the library gives the code of its definitions. -/
theorem analyze_datum (n : Identity) :
    Code.analyze (Value.ofDatum n datum).1 (n + 117) = .ok (code n, n + 121) := by
  cbv

end Code

end ListLibrary
end MiniLisp
