import Millrace.FastPath.Decline
import Millrace.FastPath.Lowered
import Millrace.Lambda.Expr

/-!
# Lowering

The lowering of an expression, given the lowered parameters.  Each operation is lowered from its lowered operands,
or declined when its result would have no fixed type.  The operations themselves are those of the evaluator.
-/

namespace Millrace.FastPath

abbrev Lowering (α : Type) := Except Decline α

namespace Lowered

/-- A computed scalar. -/
def computed (k : Scalar) (c : Compute k.Carrier) : Lowered := scalar k c .computed

/-! ### Operators -/

def unary (op : UnaryOp) (l : Lowered) : Lowering Lowered :=
  match op with
  | .not => .ok (computed .bool (l.truthy.map (!·)))
  | .neg =>
    match l.number? with
    | some (.int c) => .ok (computed .int (c.then₁ Whole.neg))
    | some (.float c) => .ok (computed .float (c.map (- ·)))
    | none => .error (.unaryOperand .neg)
  | .pos =>
    match l.number? with
    | some (.int c) => .ok (computed .int c)
    | some (.float c) => .ok (computed .float c)
    | none => .error (.unaryOperand .pos)

/-- An operator on two integers; the exponent of a power has to be a constant. -/
def integers (op : BinaryOp) (c d : Compute Int64) (exponent? : Option Int64) : Lowering Lowered :=
  match op with
  | .add => .ok (computed .int (c.then₂ d Whole.add))
  | .sub => .ok (computed .int (c.then₂ d Whole.sub))
  | .mul => .ok (computed .int (c.then₂ d Whole.mul))
  | .div => .ok (computed .float (c.then₂ d Whole.trueDiv))
  | .floorDiv => .ok (computed .int (c.then₂ d Whole.floorDiv))
  | .mod => .ok (computed .int (c.then₂ d Whole.mod))
  | .pow =>
    match exponent? with
    | some n =>
      if 0 ≤ n then .ok (computed .int (c.then₁ (Whole.pow · n)))
      else .ok (computed .float (c.then₁ (RealNumber.wholePower · n)))
    | none => .error .runtimeExponent

/-- An operator on operands that are not both numbers. -/
def sequences (op : BinaryOp) (a b : Lowered) : Lowering Lowered :=
  match op, a, b with
  | .add, scalar .str c _, scalar .str d _ => .ok (computed .str (c.then₂ d fun s t => .ok (s ++ t)))
  | .mul, scalar .str c _, b =>
    match b.number? with
    | some (.int d) => .ok (computed .str (c.then₂ d repeatText))
    | _ => .error .textRepetition
  | .mul, a, scalar .str d _ =>
    match a.number? with
    | some (.int c) => .ok (computed .str (c.then₂ d fun n s => repeatText s n))
    | _ => .error .textRepetition
  | .add, tuple xs s, tuple ys t => .ok (tuple (xs ++ ys) ⟨s.infallible && t.infallible, none⟩)
  | .mul, tuple xs s, b =>
    match b.constantInt? with
    | some n =>
      match repeatItems xs n with
      | .ok items => .ok (tuple items ⟨s.infallible, none⟩)
      | .error _ => .error .tupleRepetitionTooLong
    | none => .error .tupleRepetition
  | op, _, _ => .error (.operands op)

def binary (op : BinaryOp) (a b : Lowered) : Lowering Lowered :=
  match a.number?, b.number? with
  | some (.int c), some (.int d) => integers op c d b.constantInt?
  | some x, some y => .ok (computed .float (x.toDouble.then₂ y.toDouble op.onFloats))
  | _, _ => sequences op a b

/-- One of two expressions of the same scalar type. -/
def ifElse (cond yes no : Lowered) : Lowering Lowered :=
  match yes, no with
  | scalar k c _, scalar k' d _ =>
    if h : k' = k then .ok (computed k (Compute.select cond.truthy c (h ▸ d))) else .error .armTypes
  | _, _ => .error .armTypes

/-- `and` for `wanted = true` and `or` for `wanted = false`, on operands of the same scalar type. -/
def logic (wanted : Bool) (a b : Lowered) : Lowering Lowered :=
  match a, b with
  | scalar k c _, scalar k' d _ =>
    if h : k' = k then .ok (computed k (Compute.shortCircuit k.truthy wanted c (h ▸ d))) else .error .logicTypes
  | _, _ => .error .logicTypes

/-! ### Comparisons -/

/-- A number or a text, as an operand of a comparison. -/
inductive Operand where
  | number (x : Number)
  | text (s : String)

/-- A comparison of two operands; a number and a text are unequal. -/
def Operand.test (op : CompareOp) : Operand → Operand → Bool
  | number x, number y => op.onNumbers x y
  | text s, text t => op.test (compare s t)
  | _, _ => op == .ne

/-- The operand that a scalar is. -/
def operand? (l : Lowered) : Option (Compute Operand) :=
  match l.text?, l.number? with
  | some c, _ => some (c.map .text)
  | none, some x => some (x.toNumber.map .number)
  | none, none => none

/-- A chain of comparisons with a left operand; it ends at the first that does not hold. -/
def runChain (left : Operand) : List (CompareOp × Compute Operand) → Compute Bool
  | [], _ => .ok true
  | (op, c) :: rest, row => do
    let right ← c row
    if Operand.test op left right then runChain right rest row else return false

/-- A chain of comparisons. -/
def comparison (first : Compute Operand) (chain : List (CompareOp × Compute Operand)) : Lowered :=
  computed .bool fun row => do
    let left ← first row
    runChain left chain row

/-! ### Subscripts -/

/-- The item of a tuple at a constant index.  The other items are still computed if they may fail. -/
def pick (items : List Lowered) (i : Int64) : Lowering Lowered :=
  match positionIn items.length i with
  | none => .error .tupleIndexOutOfRange
  | some p =>
    let others := items.eraseIdx p
    match items[p]? with
    | none => .error .tupleIndexOutOfRange
    | some picked =>
      if others.all infallible then .ok picked
      else
        match picked with
        | scalar k c _ => .ok (computed k (Compute.guarded (checkAll others) c))
        | tuple _ _ => .error .nestedTupleOfFallible

def index (base i : Lowered) : Lowering Lowered :=
  match base with
  | tuple items _ =>
    match i.constantInt? with
    | some n => pick items n
    | none => .error .tupleIndexNotConstant
  | scalar .str c _ =>
    match i.number? with
    | some (.int d) => .ok (computed .str (c.then₂ d charAt))
    | _ => .error .textIndex
  | _ => .error .subscriptOfNumber

/-! ### Calls -/

/-- The best of `best` and the values of the computations. -/
def runExtremum {α : Type} (better : α → α → Bool) (best : α) : List (Compute α) → Compute α
  | [], _ => .ok best
  | c :: rest, row => do
    let x ← c row
    runExtremum better (if better x best then x else best) rest row

/-- The computations of scalars that all have type `k`. -/
def scalarsOf? (k : Scalar) : List Lowered → Option (List (Compute k.Carrier))
  | [] => some []
  | scalar k' c _ :: rest =>
    if h : k' = k then (scalarsOf? k rest).map (h ▸ c :: ·) else none
  | tuple _ _ :: _ => none

/-- The greatest or the least of several scalars of one type. -/
def extremumOf (f : Extremum) (items : List Lowered) : Lowering Lowered :=
  match items with
  | [] => .error .extremumOfEmpty
  | tuple _ _ :: _ => .error .extremumOfTuples
  | scalar k first _ :: rest =>
    match scalarsOf? k rest with
    | none => .error .extremumOfMixed
    | some others =>
      let better := match f with
        | .max => fun a b => k.less b a
        | .min => k.less
      .ok (computed k fun row => do
        let best ← first row
        runExtremum better best others row)

def extremum (f : Extremum) (args : List Lowered) : Lowering Lowered :=
  match args with
  | [tuple items _] => extremumOf f items
  | [scalar _ _ _] => .error .extremumOfScalar
  | args => extremumOf f args

/-- A conversion of one argument. -/
def convert (f : Conversion) (l : Lowered) : Lowering Lowered :=
  match f with
  | .int =>
    match l.text?, l.number? with
    | some c, _ => .ok (computed .int (c.then₁ RealNumber.readInteger))
    | none, some (.int c) => .ok (computed .int c)
    | none, some (.float c) => .ok (computed .int (c.then₁ RealNumber.truncate))
    | none, none => .error (.ofTuple (.convert .int))
  | .float =>
    match l.text?, l.number? with
    | some c, _ => .ok (computed .float (c.then₁ RealNumber.readFloat))
    | none, some x => .ok (computed .float x.toDouble)
    | none, none => .error (.ofTuple (.convert .float))
  | .bool => .ok (computed .bool l.truthy)
  | .str =>
    match l.text? with
    | some c => .ok (computed .str c)
    | none => .ok (computed .str (l.run.map Value.text))

/-- A conversion without an argument. -/
def convertNothing : Conversion → Lowered
  | .int => computed .int (Compute.const 0)
  | .float => computed .float (Compute.const 0)
  | .bool => computed .bool (Compute.const false)
  | .str => computed .str (Compute.const "")

/-- The argument of a function of real numbers. -/
def realArgument (f : Builtin) (l : Lowered) : Lowering (Compute Double) :=
  match l.number? with
  | some x => .ok x.toDouble
  | none => .error (.notNumber f)

def call (f : Builtin) (args : List Lowered) : Lowering Lowered :=
  match f, args with
  | .log, [l] => do
    let c ← realArgument f l
    return computed .float (c.then₁ RealNumber.log)
  | .log, [l, m] => do
    let c ← realArgument f l
    let d ← realArgument f m
    return computed .float (c.then₂ d RealNumber.logBase)
  | .real g, [l] => do
    let c ← realArgument f l
    return computed .float (c.then₁ g.apply)
  | .pair g, [l, m] => do
    let c ← realArgument f l
    let d ← realArgument f m
    return computed .float (c.then₂ d g.apply)
  | .rounding g, [l] =>
    match l.number? with
    | some (.int c) => .ok (computed .int c)
    | some (.float c) => .ok (computed .int (c.then₁ g.apply))
    | none => .error (.notNumber f)
  | .test g, [l] => do
    let c ← realArgument f l
    return computed .bool (c.map g.apply)
  | .abs, [l] =>
    match l.number? with
    | some (.int c) => .ok (computed .int (c.then₁ Whole.abs))
    | some (.float c) => .ok (computed .float (c.map Double.abs))
    | none => .error (.notNumber f)
  | .extremum g, l :: rest => extremum g (l :: rest)
  | .convert g, [] => .ok (convertNothing g)
  | .convert g, [l] => convert g l
  | .len, [scalar .str c _] => .ok (computed .int (c.map fun s => Int64.ofNat s.length))
  | .len, [tuple items _] => .ok (computed .int (ofShape items (Int64.ofNat items.length)))
  | .len, [_] => .error .lengthOfNumber
  | _, _ => .error (.argumentCount f args.length)

end Lowered

/-! ### Expressions -/

mutual

/-- Lowers an expression whose parameters are lowered to `params`. -/
def lower (params : List Lowered) : Expr → Lowering Lowered
  | .const v => .ok (.ofConstant v)
  | .param i =>
    match params[i]? with
    | some l => .ok l
    | none => .error (.unboundParam i)
  | .unary op e => do
    let l ← lower params e
    l.unary op
  | .binary op a b => do
    let l ← lower params a
    let m ← lower params b
    Lowered.binary op l m
  | .compare first links => do
    let l ← lower params first
    match l.operand? with
    | none => .error .comparedTuples
    | some c => do
      let chain ← lowerLinks params l.text?.isSome links
      return .comparison c chain
  | .and a b => do
    let l ← lower params a
    let m ← lower params b
    Lowered.logic true l m
  | .or a b => do
    let l ← lower params a
    let m ← lower params b
    Lowered.logic false l m
  | .ifElse c y n => do
    let cond ← lower params c
    let yes ← lower params y
    let no ← lower params n
    Lowered.ifElse cond yes no
  | .call f args => do
    let ls ← lowerAll params args
    Lowered.call f ls
  | .tuple items => do
    let ls ← lowerAll params items
    return .tuple ls ⟨ls.all Lowered.infallible, none⟩
  | .index base i => do
    let l ← lower params base
    let m ← lower params i
    l.index m
  | .field _ name => .error (.unboundColumn name)

def lowerAll (params : List Lowered) : List Expr → Lowering (List Lowered)
  | [] => .ok []
  | e :: rest => do
    let l ← lower params e
    let ls ← lowerAll params rest
    return l :: ls

/-- Lowers the links of a chain of comparisons; `isText` says whether the left operand is a text. -/
def lowerLinks (params : List Lowered) (isText : Bool) :
    List (CompareOp × Expr) → Lowering (List (CompareOp × Compute Lowered.Operand))
  | [] => .ok []
  | (op, e) :: rest => do
    let l ← lower params e
    match l.operand? with
    | none => .error .comparedTuples
    | some c =>
      if l.text?.isSome != isText && op != .eq && op != .ne then .error .mixedOrder
      else do
        let others ← lowerLinks params l.text?.isSome rest
        return (op, c) :: others

end

end Millrace.FastPath
