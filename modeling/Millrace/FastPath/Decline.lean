import Millrace.Lambda.Builtin
import Millrace.Lambda.Operator
import Millrace.Schema

/-!
# Why there is no fast path

A lambda has no fast path under a schema when the type of some part of it would depend on the row.
-/

namespace Millrace.FastPath

inductive Decline where
  | unknownPositions (schema : Schema)
  | unknownColumn
  | arity (arity width : Nat)
  | unboundParam (i : Nat)
  | unboundColumn (name : String)
  | armTypes
  | unaryOperand (op : UnaryOp)
  | runtimeExponent
  | textRepetition
  | tupleRepetition
  | tupleRepetitionTooLong
  | operands (op : BinaryOp)
  | comparedTuples
  | mixedOrder
  | logicTypes
  | tupleIndexNotConstant
  | tupleIndexOutOfRange
  | nestedTupleOfFallible
  | textIndex
  | subscriptOfNumber
  | argumentCount (f : Builtin) (n : Nat)
  | notNumber (f : Builtin)
  | ofTuple (f : Builtin)
  | lengthOfNumber
  | extremumOfScalar
  | extremumOfEmpty
  | extremumOfTuples
  | extremumOfMixed
  deriving DecidableEq

namespace Decline

/-- The reason on its own. -/
def cause : Decline → String
  | unknownPositions schema => "schema " ++ schema.text ++ " has unknown positions"
  | unknownColumn => "unknown column type"
  | arity n width =>
    "arity " ++ Digits.text n ++ " does not fit rows of width " ++ Digits.text width
  | unboundParam i => "parameter " ++ Digits.text i ++ " is not bound"
  | unboundColumn name => "unbound column '" ++ name ++ "'"
  | armTypes => "conditional arms have different types"
  | unaryOperand op => "unary " ++ op.symbol ++ " on a non-number"
  | runtimeExponent => "integer power with a run-time exponent"
  | textRepetition => "string repetition by a non-integer"
  | tupleRepetition => "tuple repetition by a run-time count"
  | tupleRepetitionTooLong => "tuple repetition too long"
  | operands op => "operator " ++ op.symbol ++ " on these operand types"
  | comparedTuples => "comparison of tuples"
  | mixedOrder => "ordering between a string and a number"
  | logicTypes => "and/or over operands of different types"
  | tupleIndexNotConstant => "tuple index is not a constant"
  | tupleIndexOutOfRange => "tuple index out of range"
  | nestedTupleOfFallible => "nested tuple picked from a fallible tuple"
  | textIndex => "string index is not an integer"
  | subscriptOfNumber => "subscript of a number"
  | argumentCount f n => f.name ++ "() with " ++ Digits.text n ++ " argument(s)"
  | notNumber f => f.name ++ "() of a non-number"
  | ofTuple f => f.name ++ "() of a tuple"
  | lengthOfNumber => "len() of a number"
  | extremumOfScalar => "min()/max() of a scalar"
  | extremumOfEmpty => "min()/max() of an empty tuple"
  | extremumOfTuples => "min()/max() over tuples"
  | extremumOfMixed => "min()/max() over mixed types"

def message (d : Decline) : String := "not specializable: " ++ d.cause

end Decline
end Millrace.FastPath
