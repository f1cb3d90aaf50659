import Millrace.Lambda.Builtin
import Millrace.Lambda.Operator
import Millrace.Number.Digits
import Millrace.Value

/-!
# Faults

What can go wrong with one row.  A fault has a cause, which fixes its kind (`Fault.kind`) and its wording
(`Fault.message`), and the contexts it passed through on its way out.  Two kinds are fatal: they are violations of
a contract and no handler takes them.  The others depend on the data.
-/

namespace Millrace

inductive FaultKind where
  /-- A mathematically undefined operation. -/
  | domain
  | zeroDivision
  /-- A result outside the representable range. -/
  | overflow
  | index
  /-- A text or number that cannot be converted. -/
  | conversion
  /-- Operands of an unsupported kind. -/
  | type
  /-- A wrong number of arguments. -/
  | arity
  deriving Repr, DecidableEq

namespace FaultKind

/-- All kinds, in the order of reports. -/
def all : List FaultKind := [.domain, .zeroDivision, .overflow, .index, .conversion, .type, .arity]

def name : FaultKind → String
  | .domain => "domain"
  | .zeroDivision => "zero_division"
  | .overflow => "overflow"
  | .index => "index"
  | .conversion => "conversion"
  | .type => "type"
  | .arity => "arity"

def isFatal : FaultKind → Bool
  | .type | .arity => true
  | _ => false

/-- The kind of that name. -/
def ofName? (s : String) : Option FaultKind := all.find? (·.name == s)

/-- The complaint about a name that no kind has. -/
def unknownName (s : String) : String := "unknown error kind: '" ++ s ++ "'"

end FaultKind

/-- The reasons for which a row fails. -/
inductive FaultCause where
  | mathDomain
  | negativeExponent
  | emptySequence (f : Extremum)
  | floatDivision
  | integerDivision
  | trueDivision
  | floatDivmod
  | zeroToNegativePower
  | mathRange
  | integerOverflow
  | integerRange
  | infiniteInteger
  | repetitionTooLong
  | tupleIndex
  | stringIndex
  /-- The column that a stage reads is missing. -/
  | columnRead (width : Nat)
  /-- A column that a stage writes or selects is missing. -/
  | column (position width : Nat)
  | nanInteger
  | integerText (s : String)
  | floatText (s : String)
  | unaryOperand (op : UnaryOp) (operand : Tag)
  | binaryOperands (op : BinaryOp) (left right : Tag)
  | unordered (op : CompareOp) (left right : Tag)
  | indexKind (index : Tag)
  | notSubscriptable (base : Tag)
  | notReal (f : Builtin) (argument : Tag)
  | extremumArgument (f : Extremum) (argument : Tag)
  | absOperand (argument : Tag)
  | noLength (argument : Tag)
  | unboundColumn (name : String)
  | rowWidth (arity width : Nat)
  | missingArgument (i : Nat)
  | argumentCount (f : Builtin) (n : Nat)
  /-- A failure reported from outside. -/
  | reported (kind : FaultKind) (text : String)
  deriving Repr, DecidableEq

namespace FaultCause

def kind : FaultCause → FaultKind
  | mathDomain | negativeExponent | emptySequence _ => .domain
  | floatDivision | integerDivision | trueDivision | floatDivmod | zeroToNegativePower => .zeroDivision
  | mathRange | integerOverflow | integerRange | infiniteInteger | repetitionTooLong => .overflow
  | tupleIndex | stringIndex | columnRead _ | column _ _ => .index
  | nanInteger | integerText _ | floatText _ => .conversion
  | unaryOperand _ _ | binaryOperands _ _ _ | unordered _ _ _ | indexKind _ | notSubscriptable _ | notReal _ _
  | extremumArgument _ _ | absOperand _ | noLength _ | unboundColumn _ => .type
  | rowWidth _ _ | missingArgument _ | argumentCount _ _ => .arity
  | reported kind _ => kind

/-- The name of an extremum. -/
private def extremumName (f : Extremum) : String := (Builtin.extremum f).name

def message : FaultCause → String
  | mathDomain => "math domain error"
  | negativeExponent => "negative exponent for integer power"
  | emptySequence f => extremumName f ++ "() arg is an empty sequence"
  | floatDivision => "float division by zero"
  | integerDivision => "integer division or modulo by zero"
  | trueDivision => "division by zero"
  | floatDivmod => "float divmod()"
  | zeroToNegativePower => "0.0 cannot be raised to a negative power"
  | mathRange => "math range error"
  | integerOverflow => "integer overflow"
  | integerRange => "integer out of range"
  | infiniteInteger => "cannot convert float infinity to integer"
  | repetitionTooLong => "repeated sequence is too long"
  | tupleIndex => "tuple index out of range"
  | stringIndex => "string index out of range"
  | columnRead width => "column out of range for row of width " ++ Digits.text width
  | column position width =>
    "column " ++ Digits.text position ++ " out of range for row of width " ++ Digits.text width
  | nanInteger => "cannot convert float NaN to integer"
  | integerText s => "invalid literal for int() with base 10: '" ++ s ++ "'"
  | floatText s => "could not convert string to float: '" ++ s ++ "'"
  | unaryOperand op operand => "bad operand type for unary " ++ op.symbol ++ ": '" ++ operand.name ++ "'"
  | binaryOperands op left right =>
    "unsupported operand type(s) for " ++ op.symbol ++ ": '" ++ left.name ++ "' and '" ++ right.name ++ "'"
  | unordered op left right =>
    "'" ++ op.symbol ++ "' not supported between instances of '" ++ left.name ++ "' and '" ++ right.name ++ "'"
  | indexKind index => "indices must be integers, not " ++ index.name
  | notSubscriptable base => "'" ++ base.name ++ "' object is not subscriptable"
  | notReal f argument => f.name ++ "() must be a real number, not " ++ argument.name
  | extremumArgument f argument =>
    extremumName f ++ "() argument must be a tuple or several values, not " ++ argument.name
  | absOperand argument => "bad operand type for abs(): '" ++ argument.name ++ "'"
  | noLength argument => "object of type '" ++ argument.name ++ "' has no len()"
  | unboundColumn name => "column '" ++ name ++ "' accessed by name on a row without bound column names"
  | rowWidth arity width =>
    "function takes " ++ Digits.text arity ++ " argument(s) but the row has " ++ Digits.text width ++ " column(s)"
  | missingArgument i => "missing argument " ++ Digits.text i
  | argumentCount f n => f.name ++ "() does not take " ++ Digits.text n ++ " argument(s)"
  | reported _ text => text

end FaultCause

/-- A message with the contexts it passed through, the last one in front. -/
def inContexts (contexts : List String) (message : String) : String :=
  contexts.foldl (fun text context => context ++ ": " ++ text) message

/-- The failure of one row. -/
structure Fault where
  cause : FaultCause
  /-- The contexts that the fault passed through, the first one first. -/
  contexts : List String := []
  deriving Repr, DecidableEq

instance : Coe FaultCause Fault := ⟨fun cause => { cause }⟩

namespace Fault

def kind (e : Fault) : FaultKind := e.cause.kind

def isFatal (e : Fault) : Bool := e.kind.isFatal

def message (e : Fault) : String := inContexts e.contexts e.cause.message

/-- The fault with its kind in front. -/
def text (e : Fault) : String := e.kind.name ++ ": " ++ e.message

/-- The fault with a further context around it; its kind stays. -/
def within (e : Fault) (context : String) : Fault := { e with contexts := e.contexts ++ [context] }

end Fault

/-- The result of a computation on one row. -/
abbrev RowResult (α : Type) := Except Fault α

/-- Fails for a cause. -/
def fault {α : Type} (cause : FaultCause) : RowResult α := .error { cause }

end Millrace
