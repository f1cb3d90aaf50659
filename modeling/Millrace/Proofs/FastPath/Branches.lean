import Millrace.Proofs.FastPath.Operators

/-!
# Lowered conditions and comparisons

A lowered expression that runs only some of its operands runs those that the evaluator evaluates, in the same order.
An operand of a comparison is a number or a text; which of the two is known before any row is, so the lowered chain
of comparisons never compares a number with a text by order (`link_agrees`).
-/

namespace Millrace.FastPath

section
variable {excused : Fault → Prop} {row : Row} {y z w : RowResult Value} {l m n out : Lowered}

/-! ### Conditional expressions -/

theorem truthy_toValue (k : Scalar) (x : k.Carrier) : (k.toValue x).truthy = k.truthy x := by
  cases k <;> rfl

theorem ifElse_simulates (hl : Simulates excused row l y) (hm : Simulates excused row m z)
    (hn : Simulates excused row n w) (hop : Lowered.ifElse l m n = .ok out) :
    Simulates excused row out (do let v ← y; if v.truthy then z else w) := by
  unfold Lowered.ifElse at hop
  split at hop
  · next k c _ k' d _ =>
    split at hop
    · next h =>
      subst h
      cases hop
      refine .computed (hl.truthy.bind fun b v _ hv => ?_)
      rw [hv]
      cases b with
      | true => exact hm.scalar
      | false => exact hn.scalar
    · cases hop
  · cases hop

theorem logic_simulates {wanted : Bool} (hl : Simulates excused row l y) (hm : Simulates excused row m z)
    (hop : Lowered.logic wanted l m = .ok out) :
    Simulates excused row out (do let v ← y; if v.truthy == wanted then z else .ok v) := by
  unfold Lowered.logic at hop
  split at hop
  · next k c _ k' d _ =>
    split at hop
    · next h =>
      subst h
      cases hop
      refine .computed (hl.scalar.bind fun x v _ hv => ?_)
      rw [← hv, truthy_toValue]
      split
      · exact hm.scalar
      · exact .value rfl
    · cases hop
  · cases hop

/-! ### Comparisons -/

/-- The values that an operand of a comparison stands for. -/
def Lowered.Operand.Denotes : Lowered.Operand → Value → Prop
  | .number x, v => v.number? = some x
  | .text s, v => v = .str s

def Lowered.Operand.isText : Lowered.Operand → Bool
  | .number _ => false
  | .text _ => true

theorem Simulates.operand {c : Compute Lowered.Operand} (h : Simulates excused row l y) (hc : l.operand? = some c) :
    Agrees excused (fun o v => o.Denotes v ∧ o.isText = l.text?.isSome) (c row) y := by
  unfold Lowered.operand? at hc
  split at hc
  · next d _ hd =>
    cases hc
    rw [hd]
    refine agrees_map_left.2 ((h.text hd).mono ?_)
    rintro s v - rfl
    exact ⟨rfl, rfl⟩
  · next x htext hx =>
    cases hc
    rw [htext]
    exact agrees_map_left.2 ((h.number hx).mono fun n v _ hv => ⟨hv, rfl⟩)
  · cases hc

theorem compare_numbers (op : CompareOp) {v u : Value} {a b : Number} (hv : v.number? = some a)
    (hu : u.number? = some b) : op.apply v u = .ok (op.onNumbers a b) := by
  cases v with
  | str s | tuple items => cases hv
  | bool i | int i | float i =>
    cases u with
    | str s | tuple items => cases hu
    | bool j | int j | float j =>
      cases hv
      cases hu
      simp only [CompareOp.apply, Value.number?]

theorem equality_of_number_and_text {op : CompareOp} (hop : op = .eq ∨ op = .ne) {v : Value} {a : Number}
    (hv : v.number? = some a) (s : String) :
    op.apply v (.str s) = .ok (op == .ne) ∧ op.apply (.str s) v = .ok (op == .ne) := by
  cases v with
  | str s | tuple items => cases hv
  | bool i | int i | float i =>
    rcases hop with rfl | rfl <;> simp only [CompareOp.apply, Value.number?] <;> exact ⟨rfl, rfl⟩

/-- The comparison of the values is that of the operands; a number and a text have to be compared by equality. -/
theorem apply_of_operands {op : CompareOp} {o p : Lowered.Operand} {v u : Value} (hv : o.Denotes v)
    (hu : p.Denotes u) (hop : o.isText ≠ p.isText → op = .eq ∨ op = .ne) :
    op.apply v u = .ok (Lowered.Operand.test op o p) := by
  cases o with
  | number a =>
    cases p with
    | number b => exact compare_numbers op hv hu
    | text t =>
      cases hu
      exact (equality_of_number_and_text (hop (by simp [Lowered.Operand.isText])) hv t).1
  | text s =>
    cases hv
    cases p with
    | number b => exact (equality_of_number_and_text (hop (by simp [Lowered.Operand.isText])) hu s).2
    | text t =>
      cases hu
      simp only [CompareOp.apply, Lowered.Operand.test]

/-- One link of a chain of comparisons. -/
theorem link_agrees {op : CompareOp} {c : Compute Lowered.Operand}
    {chain : List (CompareOp × Compute Lowered.Operand)} {rest : Value → RowResult Value}
    (hl : Simulates excused row l y) (hc : l.operand? = some c)
    (hrest : ∀ {o u}, o.Denotes u → o.isText = l.text?.isSome →
      Agrees excused (fun b r => Value.bool b = r) (Lowered.runChain o chain row) (rest u))
    {o : Lowered.Operand} {v : Value} (hv : o.Denotes v) (hop : o.isText ≠ l.text?.isSome → op = .eq ∨ op = .ne) :
    Agrees excused (fun b r => Value.bool b = r) (Lowered.runChain o ((op, c) :: chain) row)
      (do let u ← y; if ← op.apply v u then rest u else .ok (.bool false)) := by
  refine (hl.operand hc).bind fun p u _ hp => ?_
  obtain ⟨hu, htext⟩ := hp
  rw [apply_of_operands hv hu (htext ▸ hop)]
  change Agrees _ _ _ (if Lowered.Operand.test op o p = true then rest u else .ok (.bool false))
  split
  · exact hrest hu htext
  · exact .value rfl

theorem comparison_simulates {c : Compute Lowered.Operand} {chain : List (CompareOp × Compute Lowered.Operand)}
    {rest : Value → RowResult Value} (hl : Simulates excused row l y) (hc : l.operand? = some c)
    (hrest : ∀ {o u}, o.Denotes u → o.isText = l.text?.isSome →
      Agrees excused (fun b r => Value.bool b = r) (Lowered.runChain o chain row) (rest u)) :
    Simulates excused row (Lowered.comparison c chain) (y >>= rest) :=
  .computed ((hl.operand hc).bind fun _ _ _ ho => hrest ho.1 ho.2)

end
end Millrace.FastPath
