import Millrace.Schema

/-!
# Type inference

The schema of a partition is guessed from its first rows.  A width, and at every position a type, is accepted when
its share of the sample reaches a threshold; tuples are looked into item by item.  At the threshold 1 only what is
unanimous is accepted.
-/

namespace Millrace

/-- How a schema is guessed. -/
structure Inference where
  /-- How many rows are looked at. -/
  sampleSize : Nat
  /-- The share of the sample that a type needs. -/
  threshold : Float

/-- The shape of a value without the types of its items. -/
inductive Outline where
  | bool
  | int
  | float
  | str
  | tuple (length : Nat)
  deriving DecidableEq

def Value.outline : Value → Outline
  | .bool _ => .bool
  | .int _ => .int
  | .float _ => .float
  | .str _ => .str
  | .tuple items => .tuple items.length

/-- The items of a tuple of this length. -/
def Value.itemsOfLength? (n : Nat) : Value → Option (List Value)
  | .tuple items => if items.length = n then some items else none
  | _ => none

/-! ### Majorities -/

/-- Of `best` and the other keys the one that occurs most often in `all`, the first one of several. -/
def mostFrequent {α : Type} [DecidableEq α] (all : List α) (best : α) : List α → α
  | [] => best
  | k :: rest => mostFrequent all (if all.count best < all.count k then k else best) rest

/-- The share of `count` in `total`. -/
def share (count total : Nat) : Float := Float.ofNat count / Float.ofNat total

namespace Inference

/-- The most frequent key, if its share reaches the threshold. -/
def dominant? (inference : Inference) {α : Type} [DecidableEq α] (keys : List α) : Option α :=
  match keys with
  | [] => none
  | first :: rest =>
    let best := mostFrequent keys first rest
    if inference.threshold ≤ share (keys.count best) keys.length then some best else none

/-- The values in a position of several lists. -/
def columnAt (i : Nat) (lists : List (List Value)) : List Value := lists.filterMap (·[i]?)

mutual

/-- How deep tuples are nested in a value. -/
def depth : Value → Nat
  | .tuple items => depthAll items + 1
  | _ => 0

def depthAll : List Value → Nat
  | [] => 0
  | v :: rest => max (depth v) (depthAll rest)

end

/-- The type of several values, for tuples nested at most `bound` deep. -/
def unifyWithin (inference : Inference) (bound : Nat) (values : List Value) : ValueType :=
  match bound, inference.dominant? (values.map Value.outline) with
  | _, some .bool => .bool
  | _, some .int => .int
  | _, some .float => .float
  | _, some .str => .str
  | bound + 1, some (.tuple n) =>
    let tuples := values.filterMap (Value.itemsOfLength? n)
    .tuple ((List.range n).map fun i => unifyWithin inference bound (columnAt i tuples))
  | _, _ => .unknown

/-- The type of several values. -/
def unify (inference : Inference) (values : List Value) : ValueType :=
  inference.unifyWithin (depthAll values) values

/-- The schema of a partition. -/
def infer (inference : Inference) (rows : List Row) : Schema :=
  let sample := rows.take inference.sampleSize
  match inference.dominant? (sample.map List.length) with
  | none => .unspecialized
  | some width =>
    let common := sample.filter (·.length = width)
    .row ((List.range width).map fun i => inference.unify (columnAt i common))

end Inference
end Millrace
