import Millrace.Lambda.Operation
import Millrace.Proofs.Results

/-!
# Operations that fail on data only

A fatal fault says that a value has a kind which an operation does not support.  The operations on plain integers,
floats and texts know the kinds of their operands, so all their faults come from the data.
-/

namespace Millrace

namespace FaultCause

/-- Whether a lambda can fail for this cause: the columns that a stage works on are not its business. -/
def isOfLambda : FaultCause → Bool
  | columnRead _ | column _ _ | reported _ _ => false
  | _ => true

/-- Whether a lambda can fail for this cause when it has all its arguments, and its calls have theirs. -/
def isOfValues (cause : FaultCause) : Bool := cause.isOfLambda && cause.kind != .arity

/-- Whether a lambda can fail for this cause when its operations support the kinds of their operands. -/
def isOnData (cause : FaultCause) : Bool := cause.isOfLambda && !cause.kind.isFatal

end FaultCause

/-- All faults of the result come from the data. -/
abbrev FailsOnData {α : Type} (r : RowResult α) : Prop := FailsWith FaultCause.isOnData r

section
variable {α : Type} {r : RowResult α} {e : Fault}

theorem FailsOnData.ofValues (h : FailsOnData r) : FailsWith FaultCause.isOfValues r := by
  refine h.mono fun cause hcause => ?_
  obtain ⟨hlambda, hfatal⟩ := Bool.and_eq_true_iff.1 hcause
  refine Bool.and_eq_true_iff.2 ⟨hlambda, ?_⟩
  cases hkind : cause.kind with
  | arity =>
    rw [hkind] at hfatal
    cases hfatal
  | _ => rfl

theorem FailsOnData.isFatal (h : FailsOnData r) (he : r = .error e) : e.isFatal = false := by
  obtain ⟨-, hfatal⟩ := Bool.and_eq_true_iff.1 (h e he)
  rw [Bool.not_eq_true'] at hfatal
  exact hfatal

end

/-! ### Integers -/

namespace Whole

theorem checked_failsOnData (n : Int) : FailsOnData (checked n) := by
  unfold checked
  split
  · exact failsWith_ok _
  · exact failsWith_fault rfl

theorem floorDiv_failsOnData (a b : Int64) : FailsOnData (floorDiv a b) :=
  failsWith_ite (failsWith_fault rfl) (checked_failsOnData _)

theorem mod_failsOnData (a b : Int64) : FailsOnData (mod a b) :=
  failsWith_ite (failsWith_fault rfl) (checked_failsOnData _)

theorem trueDiv_failsOnData (a b : Int64) : FailsOnData (trueDiv a b) :=
  failsWith_ite (failsWith_fault rfl) (failsWith_ok _)

theorem powNat_failsOnData (a : Int) (n : Nat) : FailsOnData (powNat a n) :=
  failsWith_ite (checked_failsOnData _) (failsWith_ite (failsWith_fault rfl) (checked_failsOnData _))

theorem pow_failsOnData (a b : Int64) : FailsOnData (pow a b) :=
  failsWith_ite (failsWith_fault rfl) (powNat_failsOnData _ _)

end Whole

/-! ### Floats -/

namespace RealNumber

theorem inRange_failsOnData (x y : Double) : FailsOnData (inRange x y) :=
  failsWith_ite (failsWith_fault rfl) (failsWith_ok _)

theorem logarithm_failsOnData (f : Double → Double) (x : Double) : FailsOnData (logarithm f x) :=
  failsWith_ite (failsWith_ok _) (failsWith_ite (failsWith_ok _)
    (failsWith_ite (failsWith_fault rfl) (failsWith_ok _)))

theorem logBase_failsOnData (x base : Double) : FailsOnData (logBase x base) := by
  refine failsWith_ite (failsWith_fault rfl) (failsWith_bind (logarithm_failsOnData _ _) fun num => ?_)
  refine failsWith_bind (logarithm_failsOnData _ _) fun den => ?_
  exact failsWith_ite (failsWith_fault rfl) (failsWith_ok _)

theorem log1p_failsOnData (x : Double) : FailsOnData (log1p x) :=
  failsWith_ite (failsWith_ok _) (failsWith_ite (failsWith_ok _)
    (failsWith_ite (failsWith_fault rfl) (failsWith_ok _)))

theorem pow_failsOnData (x y : Double) : FailsOnData (pow x y) :=
  failsWith_ite (failsWith_fault rfl) (failsWith_ite (failsWith_fault rfl)
    (failsWith_ite (failsWith_fault rfl) (failsWith_ok _)))

theorem hypot_failsOnData (x y : Double) : FailsOnData (hypot x y) :=
  failsWith_ite (failsWith_fault rfl) (failsWith_ok _)

theorem fmod_failsOnData (x y : Double) : FailsOnData (fmod x y) :=
  failsWith_ite (failsWith_ite (failsWith_ok _) (failsWith_fault rfl)) (failsWith_ok _)

theorem toInteger_failsOnData (f : Exact → Int) (x : Double) : FailsOnData (toInteger f x) := by
  unfold toInteger
  split
  · apply failsWith_fault
    split <;> rfl
  · split
    · exact failsWith_ok _
    · exact failsWith_fault rfl

theorem div_failsOnData (a b : Double) : FailsOnData (div a b) :=
  failsWith_ite (failsWith_fault rfl) (failsWith_ok _)

theorem divMod_failsOnData (a b : Double) : FailsOnData (divMod a b) :=
  failsWith_ite (failsWith_fault rfl) (failsWith_ok _)

theorem power_failsOnData (a b : Double) : FailsOnData (power a b) :=
  failsWith_ite (failsWith_fault rfl) (pow_failsOnData _ _)

theorem wholePower_failsOnData (a b : Int64) : FailsOnData (wholePower a b) :=
  failsWith_ite (failsWith_fault rfl) (power_failsOnData _ _)

theorem readInteger_failsOnData (s : String) : FailsOnData (readInteger s) := by
  unfold readInteger
  split
  · exact failsWith_ok _
  · exact failsWith_fault rfl

theorem readFloat_failsOnData (s : String) : FailsOnData (readFloat s) := by
  unfold readFloat
  split
  · exact failsWith_ok _
  · exact failsWith_fault rfl

end RealNumber

open RealNumber

theorem RealFunction.apply_failsOnData (f : RealFunction) (x : Double) : FailsOnData (f.apply x) := by
  cases f with
  | log1p => exact log1p_failsOnData x
  | log2 | log10 => exact logarithm_failsOnData _ x
  | exp | expm1 | sinh | cosh => exact inRange_failsOnData x _
  | sqrt | sin | cos | tan | asin | acos | acosh | atanh =>
    exact failsWith_ite (failsWith_fault rfl) (failsWith_ok _)
  | atan | tanh | asinh | radians | degrees | fabs => exact failsWith_ok _

theorem PairFunction.apply_failsOnData (f : PairFunction) (x y : Double) : FailsOnData (f.apply x y) := by
  cases f with
  | pow => exact RealNumber.pow_failsOnData x y
  | hypot => exact hypot_failsOnData x y
  | fmod => exact fmod_failsOnData x y
  | atan2 | copysign => exact failsWith_ok _

theorem Rounding.apply_failsOnData (f : Rounding) (x : Double) : FailsOnData (f.apply x) := by
  cases f <;> exact toInteger_failsOnData _ x

theorem BinaryOp.onFloats_failsOnData (op : BinaryOp) (a b : Double) : FailsOnData (op.onFloats a b) := by
  cases op with
  | add | sub | mul => exact failsWith_ok _
  | div => exact div_failsOnData a b
  | floorDiv | mod => exact failsWith_bind (divMod_failsOnData a b) fun _ => failsWith_ok _
  | pow => exact power_failsOnData a b

/-! ### Texts and tuples -/

theorem copies_failsOnData (len : Nat) (count : Int64) : FailsOnData (copies len count) :=
  failsWith_ite (failsWith_fault rfl) (failsWith_ok _)

theorem repeatText_failsOnData (s : String) (count : Int64) : FailsOnData (repeatText s count) :=
  failsWith_bind (copies_failsOnData _ _) fun _ => failsWith_ok _

theorem repeatItems_failsOnData {α : Type} (items : List α) (count : Int64) : FailsOnData (repeatItems items count) :=
  failsWith_bind (copies_failsOnData _ _) fun _ => failsWith_ok _

theorem charAt_failsOnData (s : String) (i : Int64) : FailsOnData (charAt s i) := by
  unfold charAt
  split
  · exact failsWith_ok _
  · exact failsWith_fault rfl

end Millrace
