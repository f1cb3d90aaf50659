import Millrace.Number.Double

/-!
# Builtin functions

The functions that a lambda may call, grouped by what they do with their arguments.  `Builtin.math?` finds those
reached as `math.name`, `Builtin.global?` those reached by a bare name, and `Builtin.accepts` says how many
arguments each takes.
-/

namespace Millrace

/-- Functions from one real number to another. -/
inductive RealFunction where
  | log1p | log2 | log10 | exp | expm1 | sqrt
  | sin | cos | tan | asin | acos | atan
  | sinh | cosh | tanh | asinh | acosh | atanh
  | radians | degrees | fabs
  deriving Repr, DecidableEq

/-- Functions of two real numbers. -/
inductive PairFunction where
  | pow | atan2 | hypot | copysign | fmod
  deriving Repr, DecidableEq

/-- Ways to round a real number to an integer. -/
inductive Rounding where
  | floor | ceil | trunc | round
  deriving Repr, DecidableEq

/-- Questions about a real number. -/
inductive RealTest where
  | isnan | isinf | isfinite
  deriving Repr, DecidableEq

inductive Extremum where
  | min | max
  deriving Repr, DecidableEq

/-- The kinds of value that a function converts to. -/
inductive Conversion where
  | int | float | bool | str
  deriving Repr, DecidableEq

/-- A function that a lambda may call. -/
inductive Builtin where
  /-- The logarithm: natural with one argument, to a base with two. -/
  | log
  | real (f : RealFunction)
  | pair (f : PairFunction)
  | rounding (f : Rounding)
  | test (f : RealTest)
  | abs
  | extremum (f : Extremum)
  | convert (f : Conversion)
  | len
  deriving Repr, DecidableEq

namespace Builtin

/-- The functions of the `math` module, by name; `round` is not among them. -/
def mathTable : List (String × Builtin) :=
  [("log", log), ("log1p", real .log1p), ("log2", real .log2), ("log10", real .log10), ("exp", real .exp),
   ("expm1", real .expm1), ("pow", pair .pow), ("sqrt", real .sqrt), ("sin", real .sin), ("cos", real .cos),
   ("tan", real .tan), ("asin", real .asin), ("acos", real .acos), ("atan", real .atan), ("atan2", pair .atan2),
   ("sinh", real .sinh), ("cosh", real .cosh), ("tanh", real .tanh), ("asinh", real .asinh),
   ("acosh", real .acosh), ("atanh", real .atanh), ("radians", real .radians), ("degrees", real .degrees),
   ("fabs", real .fabs), ("floor", rounding .floor), ("ceil", rounding .ceil), ("trunc", rounding .trunc),
   ("hypot", pair .hypot), ("copysign", pair .copysign), ("fmod", pair .fmod), ("isnan", test .isnan),
   ("isinf", test .isinf), ("isfinite", test .isfinite)]

/-- The functions that have no `math.` name. -/
def globalTable : List (String × Builtin) :=
  [("abs", abs), ("min", extremum .min), ("max", extremum .max), ("int", convert .int),
   ("float", convert .float), ("bool", convert .bool), ("str", convert .str), ("len", len),
   ("round", rounding .round)]

/-- The function reached as `math.name`. -/
def math? (name : String) : Option Builtin := mathTable.lookup name

/-- The function reached as a bare `name`: every function has a bare name. -/
def global? (name : String) : Option Builtin := (globalTable.lookup name).or (math? name)

/-- The name of a function. -/
def name (f : Builtin) : String :=
  (((mathTable ++ globalTable).find? (·.2 == f)).map (·.1)).getD "?"

/-- The least and the greatest number of arguments; without a greatest number there may be any more. -/
def argumentCounts : Builtin → Nat × Option Nat
  | log => (1, some 2)
  | pair _ => (2, some 2)
  | extremum _ => (1, none)
  | convert _ => (0, some 1)
  | _ => (1, some 1)

/-- Whether a call with `n` arguments is allowed. -/
def accepts (f : Builtin) (n : Nat) : Bool :=
  f.argumentCounts.1 ≤ n && f.argumentCounts.2.all (n ≤ ·)

end Builtin

/-- The constants of the `math` module. -/
def mathConstant? : String → Option Double
  | "pi" => some ⟨0x400921FB54442D18⟩
  | "e" => some ⟨0x4005BF0A8B145769⟩
  | "tau" => some ⟨0x401921FB54442D18⟩
  | "inf" => some .infinity
  | "nan" => some .nan
  | _ => none

end Millrace
