import Mathlib.Data.List.Forall2
import Mathlib.Order.Lattice
import Millrace.Schema

/-!
# More and less specific types

A type is less specific than another one if it has unknown positions in addition, at any depth.  Two types have a
least one that is less specific than both: it keeps what they have in common, item by item in tuples, and everything
else is unknown.  Schemas are ordered like tuples of their columns, and no schema at all is like an unknown type.

A value has a type exactly if its own type is at least as specific (`ValueType.accepts_eq`), and a row conforms to a
schema exactly if its own schema is (`Schema.conforms_iff`).
-/

namespace Millrace

namespace ValueType

mutual

/-- Whether the first type is at least as specific as the second one. -/
def refines : ValueType → ValueType → Bool
  | _, unknown => true
  | bool, bool | int, int | float, float | str, str => true
  | tuple as, tuple bs => refinesAll as bs
  | _, _ => false

/-- Whether there are as many types, each at least as specific as the other one in its place. -/
def refinesAll : List ValueType → List ValueType → Bool
  | [], [] => true
  | a :: as, b :: bs => refines a b && refinesAll as bs
  | _, _ => false

end

mutual

/-- What two types have in common.  Tuples of the same length are joined item by item. -/
def join : ValueType → ValueType → ValueType
  | bool, bool => bool
  | int, int => int
  | float, float => float
  | str, str => str
  | tuple as, tuple bs => if as.length = bs.length then tuple (joinAll as bs) else unknown
  | _, _ => unknown

def joinAll : List ValueType → List ValueType → List ValueType
  | a :: as, b :: bs => join a b :: joinAll as bs
  | _, _ => []

end

/-! ### The order -/

section
variable {a b : ValueType} {as bs cs : List ValueType}

theorem refinesAll_cons :
    refinesAll (a :: as) (b :: bs) = true ↔ refines a b = true ∧ refinesAll as bs = true := by
  rw [refinesAll, Bool.and_eq_true]

theorem length_of_refinesAll (h : refinesAll as bs = true) : as.length = bs.length := by
  induction as generalizing bs with
  | nil =>
    cases bs with
    | nil => rfl
    | cons b bs => cases h
  | cons a as ih =>
    cases bs with
    | nil => cases h
    | cons b bs => rw [List.length_cons, List.length_cons, ih (refinesAll_cons.1 h).2]

end

theorem refines_unknown (a : ValueType) : refines a unknown = true := by cases a <;> rfl

mutual

theorem refines_refl : (a : ValueType) → refines a a = true
  | bool | int | float | str | unknown => rfl
  | tuple as => refinesAll_refl as

theorem refinesAll_refl : (as : List ValueType) → refinesAll as as = true
  | [] => rfl
  | a :: as => refinesAll_cons.2 ⟨refines_refl a, refinesAll_refl as⟩

end

mutual

theorem refines_trans : (a b c : ValueType) → refines a b = true → refines b c = true → refines a c = true
  | a, b, unknown, _, _ => refines_unknown a
  | a, b, tuple cs, hab, hbc => by
    cases b with
    | tuple bs =>
      cases a with
      | tuple as => exact refinesAll_trans as bs cs hab hbc
      | _ => cases hab
    | _ => cases hbc
  | a, bool, bool, hab, _ | a, int, int, hab, _ | a, float, float, hab, _ | a, str, str, hab, _ => hab

theorem refinesAll_trans : (as bs cs : List ValueType) → refinesAll as bs = true → refinesAll bs cs = true →
    refinesAll as cs = true
  | [], [], [], _, _ => rfl
  | a :: as, b :: bs, c :: cs, hab, hbc => by
    rw [refinesAll_cons] at hab hbc ⊢
    exact ⟨refines_trans a b c hab.1 hbc.1, refinesAll_trans as bs cs hab.2 hbc.2⟩

end

mutual

theorem refines_antisymm : (a b : ValueType) → refines a b = true → refines b a = true → a = b
  | unknown, unknown, _, _ | bool, bool, _, _ | int, int, _, _ | float, float, _, _ | str, str, _, _ => rfl
  | tuple as, tuple bs, hab, hba => by rw [refinesAll_antisymm as bs hab hba]

theorem refinesAll_antisymm : (as bs : List ValueType) → refinesAll as bs = true → refinesAll bs as = true →
    as = bs
  | [], [], _, _ => rfl
  | a :: as, b :: bs, hab, hba => by
    rw [refinesAll_cons] at hab hba
    rw [refines_antisymm a b hab.1 hba.1, refinesAll_antisymm as bs hab.2 hba.2]

end

/-! ### The join -/

mutual

theorem join_comm : (a b : ValueType) → join a b = join b a
  | bool, b | int, b | float, b | str, b | unknown, b => by cases b <;> rfl
  | tuple as, b => by
    cases b with
    | tuple bs =>
      rw [join, join, joinAll_comm as bs]
      exact if_congr eq_comm rfl rfl
    | _ => rfl

theorem joinAll_comm : (as bs : List ValueType) → joinAll as bs = joinAll bs as
  | [], bs => by cases bs <;> rfl
  | a :: as, [] => rfl
  | a :: as, b :: bs => by rw [joinAll, joinAll, join_comm a b, joinAll_comm as bs]

end

mutual

theorem refines_join : (a b : ValueType) → refines a (join a b) = true
  | bool, b | int, b | float, b | str, b | unknown, b => by cases b <;> rfl
  | tuple as, b => by
    cases b with
    | tuple bs =>
      rw [join]
      split
      · next hlen => exact refinesAll_join as bs hlen
      · rfl
    | _ => rfl

theorem refinesAll_join : (as bs : List ValueType) → as.length = bs.length → refinesAll as (joinAll as bs) = true
  | [], [], _ => rfl
  | a :: as, b :: bs, hlen => refinesAll_cons.2 ⟨refines_join a b, refinesAll_join as bs (Nat.succ.inj hlen)⟩

end

mutual

theorem join_refines : (a b c : ValueType) → refines a c = true → refines b c = true → refines (join a b) c = true
  | a, b, unknown, _, _ => refines_unknown _
  | tuple as, tuple bs, tuple cs, ha, hb => by
    have hlen : as.length = bs.length := (length_of_refinesAll ha).trans (length_of_refinesAll hb).symm
    rw [join, if_pos hlen]
    exact joinAll_refines as bs cs ha hb
  | bool, bool, bool, _, _ | int, int, int, _, _ | float, float, float, _, _ | str, str, str, _, _ => rfl

theorem joinAll_refines : (as bs cs : List ValueType) → refinesAll as cs = true → refinesAll bs cs = true →
    refinesAll (joinAll as bs) cs = true
  | [], _, [], _, _ | _ :: _, [], [], _, _ => rfl
  | a :: as, b :: bs, c :: cs, ha, hb => by
    rw [refinesAll_cons] at ha hb
    exact refinesAll_cons.2 ⟨join_refines a b c ha.1 hb.1, joinAll_refines as bs cs ha.2 hb.2⟩

end

/-- Less specific types are greater, and the join is the least upper bound. -/
instance : SemilatticeSup ValueType where
  le a b := refines a b = true
  le_refl := refines_refl
  le_trans := refines_trans
  le_antisymm := refines_antisymm
  sup := join
  le_sup_left := refines_join
  le_sup_right a b := by
    rw [join_comm]
    exact refines_join b a
  sup_le := join_refines

section
variable {a : ValueType} {as bs : List ValueType} {v w : Value} {t : ValueType}

theorem le_unknown (a : ValueType) : a ≤ unknown := refines_unknown a

theorem tuple_le_iff : tuple as ≤ tuple bs ↔ List.Forall₂ (· ≤ ·) as bs := by
  change refinesAll as bs = true ↔ _
  induction as generalizing bs with
  | nil => cases bs <;> simp [refinesAll]
  | cons a as ih =>
    cases bs with
    | nil => simp [refinesAll]
    | cons b bs =>
      rw [refinesAll_cons, List.forall₂_cons, ih]
      rfl

/-- A tuple of types is as specific as another one if it is in each position. -/
theorem tuple_range_le {n : Nat} {f : Nat → ValueType} (hlen : bs.length = n)
    (h : ∀ i b, bs[i]? = some b → f i ≤ b) : tuple ((List.range n).map f) ≤ tuple bs := by
  rw [tuple_le_iff, List.forall₂_iff_get]
  refine ⟨by rw [List.length_map, List.length_range, hlen], fun i _ hi => ?_⟩
  simpa using h i bs[i] (List.getElem?_eq_getElem hi)

/-! ### Types of values -/

mutual

/-- A value has the types that are no more specific than its own. -/
theorem accepts_eq : (v : Value) → (t : ValueType) → t.accepts v = v.type.refines t
  | .bool _, t | .int _, t | .float _, t | .str _, t => by cases t <;> rfl
  | .tuple items, t => by
    cases t with
    | tuple types => exact acceptsAll_eq items types
    | _ => rfl

theorem acceptsAll_eq : (values : List Value) → (types : List ValueType) →
    acceptsAll types values = refinesAll (Value.types values) types
  | [], types => by cases types <;> rfl
  | v :: values, types => by
    cases types with
    | nil => rfl
    | cons t types =>
      rw [acceptsAll, Value.types, refinesAll, accepts_eq v t, acceptsAll_eq values types]

end

theorem accepts_iff : t.accepts v = true ↔ v.type ≤ t := by
  rw [accepts_eq]
  rfl

end
end ValueType

theorem Value.types_eq_map (values : List Value) : Value.types values = values.map Value.type := by
  induction values with
  | nil => rfl
  | cons v values ih => rw [Value.types, ih, List.map_cons]

/-! ### Schemas -/

namespace Schema

/-- The type that a schema gives to a row as a tuple. -/
def asType : Schema → ValueType
  | unspecialized => .unknown
  | row columns => .tuple columns

/-- What two schemas have in common, which is nothing if their widths differ. -/
def join : Schema → Schema → Schema
  | row as, row bs => if as.length = bs.length then row (ValueType.joinAll as bs) else unspecialized
  | _, _ => unspecialized

/-- The most specific schema of a row. -/
def ofRow (r : Row) : Schema := row (Value.types r)

section
variable {s t : Schema} {r : Row}

theorem asType_injective : Function.Injective asType := by
  intro s t h
  cases s <;> cases t <;> cases h <;> rfl

theorem asType_join (s t : Schema) : (s.join t).asType = s.asType ⊔ t.asType := by
  cases s with
  | unspecialized => exact (sup_eq_left.2 (ValueType.le_unknown _)).symm
  | row as =>
    cases t with
    | unspecialized => exact (sup_eq_right.2 (ValueType.le_unknown _)).symm
    | row bs =>
      change asType (if _ then _ else _) = if _ then _ else _
      split <;> rfl

instance : LE Schema := ⟨fun s t => s.asType ≤ t.asType⟩

instance : LT Schema := ⟨fun s t => s.asType < t.asType⟩

instance : Max Schema := ⟨join⟩

/-- Schemas are ordered like the types of rows as tuples. -/
instance : SemilatticeSup Schema := asType_injective.semilatticeSup asType Iff.rfl Iff.rfl asType_join

theorem asType_le_iff : s.asType ≤ t.asType ↔ s ≤ t := Iff.rfl

/-- A row conforms to the schemas that are no more specific than its own. -/
theorem conforms_iff : s.conforms r = true ↔ s ≠ unspecialized ∧ ofRow r ≤ s := by
  cases s with
  | unspecialized => simp [conforms, columns?]
  | row columns =>
    have hall : conforms (row columns) r = ValueType.acceptsAll columns r := rfl
    rw [hall, ValueType.acceptsAll_eq]
    exact ⟨fun h => ⟨nofun, h⟩, fun h => h.2⟩

end
end Schema
end Millrace
