import MiniLisp.Symbol

/-!
# Faults

A fault says why reading, analysis, evaluation or the register machine stopped: its cause, and the
text of the form that is to blame once one is known.  Values appear in a cause by their texts.

## Main statement

* `Fault.blame_of_isSome`: the first form that is blamed stays.
-/

namespace MiniLisp

namespace Fault

inductive Kind where
  | malformed
  | unbound
  | notCallable
  | emptySequence
  | wrongType
  | machine
  deriving DecidableEq, Repr

inductive Cause where
  | unterminatedString
  | unexpectedCharacter (c : Char)
  | unclosedList
  | unexpectedClose
  | unexpectedEnd
  | quoteOperands
  | branchOperands
  | defineWithoutName
  | defineOperands (name : Symbol)
  | defineTarget
  | assignOperands
  | lambdaParameters
  | lambdaParameter (shown : String)
  | condClause (shown : String)
  | condBody (shown : String)
  | letBindings
  | letBinding (shown : String)
  | unbound (name : Symbol)
  | notCallable (shown : String)
  | emptySequence
  | wrongType (operation expected shown : String)
  | emptyStack (register : Symbol)
  | notProgram (shown : String)
  /-- A cause that a host states in its own words. -/
  | stated (kind : Kind) (message : String)
  deriving DecidableEq, Repr

namespace Cause

def kind : Cause → Kind
  | .unbound _ => .unbound
  | .notCallable _ => .notCallable
  | .emptySequence => .emptySequence
  | .wrongType .. => .wrongType
  | .emptyStack _ | .notProgram _ => .machine
  | .stated kind _ => kind
  | _ => .malformed

def message : Cause → String
  | .unterminatedString => "Unterminated string literal"
  | .unexpectedCharacter c => "Unexpected character: " ++ c.toString
  | .unclosedList => "Unclosed parenthesis"
  | .unexpectedClose => "Unexpected )"
  | .unexpectedEnd => "Unexpected end of input"
  | .quoteOperands => "quote: expected exactly one datum"
  | .branchOperands => "if: expected (if test consequent [alternative])"
  | .defineWithoutName => "define: missing procedure name"
  | .defineOperands name => "define: expected (define " ++ name.name ++ " value)"
  | .defineTarget => "define: expected a symbol or (name arg...)"
  | .assignOperands => "set!: expected (set! symbol value)"
  | .lambdaParameters => "lambda: expected a parameter list"
  | .lambdaParameter shown => "lambda: parameter " ++ shown ++ " is not a symbol"
  | .condClause shown => "cond: malformed clause " ++ shown
  | .condBody shown => "cond: clause " ++ shown ++ " has no body"
  | .letBindings => "let: expected a list of bindings"
  | .letBinding shown => "let: binding " ++ shown ++ " is not (name value)"
  | .unbound name => "Unbound variable: " ++ name.name
  | .notCallable shown => "Unknown procedure type: " ++ shown
  | .emptySequence => "Empty sequence"
  | .wrongType operation expected shown =>
      operation ++ ": expected " ++ expected ++ ", got " ++ shown
  | .emptyStack register => "Empty stack for register " ++ register.name
  | .notProgram shown => "pc holds " ++ shown ++ ", not a sequence of instructions"
  | .stated _ message => message

end Cause
end Fault

structure Fault where
  cause : Fault.Cause
  form : Option String := none
  deriving DecidableEq, Repr

namespace Fault

def kind (fault : Fault) : Kind :=
  fault.cause.kind

def message (fault : Fault) : String :=
  fault.cause.message

/-- Blames a form in place of any other. -/
def within (fault : Fault) (form : String) : Fault :=
  { fault with form := some form }

/-- Blames a form unless another one is blamed already; the form is not looked at then. -/
@[macro_inline] def blame (fault : Fault) (form : String) : Fault :=
  if fault.form.isSome then fault else fault.within form

/-- A form as it appears in a report: at most sixty characters. -/
def abridge (form : String) : String :=
  let chars := form.toList
  if 60 < chars.length then String.ofList (chars.take 57) ++ "..." else form

def report (fault : Fault) : String :=
  match fault.form with
  | none => fault.message
  | some form => fault.message ++ " in: " ++ abridge form

theorem blame_of_isSome {fault : Fault} (h : fault.form.isSome) (form : String) :
    fault.blame form = fault := by
  simp only [blame, h, if_true]

@[simp] theorem cause_blame (fault : Fault) (form : String) :
    (fault.blame form).cause = fault.cause := by
  unfold blame
  split <;> rfl

end Fault
end MiniLisp
