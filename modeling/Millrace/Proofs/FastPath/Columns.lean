import Millrace.FastPath.Compiled
import Millrace.Proofs.FastPath.Agreement

/-!
# Lowered constants and columns

A lowered constant has the value of the constant on every row, and a lowered column has the value of the column on
the rows of the schema.
-/

namespace Millrace.FastPath

/-! ### Constants -/

mutual

theorem Lowered.ofConstant_spec (row : Row) :
    (v : Value) → (Lowered.ofConstant v).Honest row ∧ (Lowered.ofConstant v).run row = .ok v
  | .bool b => ⟨⟨fun _ => ⟨_, rfl⟩, fun v hv => by cases hv; rfl, fun hr => (nomatch hr)⟩, rfl⟩
  | .int n => ⟨⟨fun _ => ⟨_, rfl⟩, fun v hv => by cases hv; rfl, fun hr => (nomatch hr)⟩, rfl⟩
  | .float x => ⟨⟨fun _ => ⟨_, rfl⟩, fun v hv => by cases hv; rfl, fun hr => (nomatch hr)⟩, rfl⟩
  | .str s => ⟨⟨fun _ => ⟨_, rfl⟩, fun v hv => by cases hv; rfl, fun hr => (nomatch hr)⟩, rfl⟩
  | .tuple items => by
    obtain ⟨hhonest, hitems⟩ := Lowered.ofConstants_spec row items
    have hrun : (Lowered.ofConstant (.tuple items)).run row = .ok (.tuple items) := by
      change Value.tuple <$> Lowered.runAll (Lowered.ofConstants items) row = _
      rw [hitems]
      rfl
    have hreliable : (Lowered.ofConstant (.tuple items)).Reliable row :=
      ⟨fun _ => ⟨_, hrun⟩, fun v hv => by cases hv; exact hrun, fun hr => by cases hrun.symm.trans hr⟩
    exact ⟨⟨hreliable, hhonest⟩, hrun⟩

theorem Lowered.ofConstants_spec (row : Row) :
    (vs : List Value) → Lowered.AllHonest row (Lowered.ofConstants vs) ∧
      Lowered.runAll (Lowered.ofConstants vs) row = .ok vs
  | [] => ⟨trivial, rfl⟩
  | v :: vs => by
    obtain ⟨hv, hrun⟩ := Lowered.ofConstant_spec row v
    obtain ⟨hvs, hruns⟩ := Lowered.ofConstants_spec row vs
    refine ⟨⟨hv, hvs⟩, ?_⟩
    rw [Lowered.ofConstants, Lowered.runAll_cons, hrun, hruns]
    rfl

end

/-! ### Columns -/

/-- A scalar column has its value on a row that holds one of its type. -/
theorem Lowered.reader_spec {row : Row} {read : Row → Option Value} {v : Value} (k : Scalar) {x : k.Carrier}
    (hread : read row = some v) (hx : k.ofValue? v = some x) :
    (Lowered.reader k read).Honest row ∧ (Lowered.reader k read).run row = .ok v := by
  have hv : k.toValue x = v := by
    cases k <;> cases v <;> cases hx <;> rfl
  have hrun : (Lowered.reader k read).run row = .ok v := by
    simp only [Lowered.reader, Lowered.run, Compute.map, hread, Option.bind_some, hx]
    rw [← hv]
    rfl
  exact ⟨⟨fun _ => ⟨v, hrun⟩, fun _ hc => (nomatch hc), fun hr => by cases hrun.symm.trans hr⟩, hrun⟩

theorem Lowered.tuple_of_columns {row : Row} {columns : List Lowered} {vs : List Value}
    (h : AllHonest row columns) (hrun : runAll columns row = .ok vs) :
    (tuple columns ⟨true, none⟩).Honest row ∧ (tuple columns ⟨true, none⟩).run row = .ok (.tuple vs) := by
  refine ⟨honest_tuple h fun _ => ⟨vs, hrun⟩, ?_⟩
  change Value.tuple <$> runAll columns row = _
  rw [hrun]
  rfl

mutual

theorem Lowered.column?_spec {row : Row} : (t : ValueType) → ∀ {read : Row → Option Value} {v : Value} {l : Lowered},
    read row = some v → t.accepts v = true → Lowered.column? read t = some l → l.Honest row ∧ l.run row = .ok v
  | .bool, _, v, _, hread, hv, hl => by
    cases v <;> cases hv
    cases hl
    exact Lowered.reader_spec .bool hread rfl
  | .int, _, v, _, hread, hv, hl => by
    cases v <;> cases hv
    cases hl
    exact Lowered.reader_spec .int hread rfl
  | .float, _, v, _, hread, hv, hl => by
    cases v <;> cases hv
    cases hl
    exact Lowered.reader_spec .float hread rfl
  | .str, _, v, _, hread, hv, hl => by
    cases v <;> cases hv
    cases hl
    exact Lowered.reader_spec .str hread rfl
  | .tuple types, read, v, l, hread, hv, hl => by
    cases v with
    | tuple items =>
      simp only [Lowered.column?, Option.map_eq_some_iff] at hl
      obtain ⟨ls, hls, rfl⟩ := hl
      have hitem : ∀ j, Lowered.readItem read (0 + j) row = items[j]? := by
        intro j
        simp only [Lowered.readItem, hread, Nat.zero_add]
      obtain ⟨hhonest, hrun⟩ := Lowered.columns?_spec types hitem hv hls
      exact Lowered.tuple_of_columns hhonest hrun
    | bool b | int n | float x | str s => cases hv
  | .unknown, _, _, _, _, _, hl => by cases hl

theorem Lowered.columns?_spec {row : Row} : (types : List ValueType) →
    ∀ {read : Nat → Row → Option Value} {i : Nat} {vs : List Value} {ls : List Lowered},
    (∀ j, read (i + j) row = vs[j]?) → ValueType.acceptsAll types vs = true →
      Lowered.columns? read i types = some ls → Lowered.AllHonest row ls ∧ Lowered.runAll ls row = .ok vs
  | [], _, _, vs, _, _, hvs, hls => by
    cases vs with
    | cons v vs => cases hvs
    | nil =>
      cases hls
      exact ⟨trivial, rfl⟩
  | t :: types, read, i, vs, _, hread, hvs, hls => by
    cases vs with
    | nil => cases hvs
    | cons v vs =>
      obtain ⟨hv, hvs⟩ := Bool.and_eq_true_iff.1 hvs
      simp only [Lowered.columns?, Option.bind_eq_bind, Option.bind_eq_some_iff] at hls
      obtain ⟨l, hl, ls, hls, hout⟩ := hls
      cases hout
      have hnext : ∀ j, read (i + 1 + j) row = vs[j]? := by
        intro j
        have hj := hread (j + 1)
        rwa [List.getElem?_cons_succ, ← Nat.add_assoc, Nat.add_right_comm] at hj
      obtain ⟨hlh, hrun⟩ := Lowered.column?_spec t (hread 0) hv hl
      obtain ⟨hlsh, hruns⟩ := Lowered.columns?_spec types hnext hvs hls
      refine ⟨⟨hlh, hlsh⟩, ?_⟩
      rw [Lowered.runAll_cons, hrun, hruns]
      rfl

end

/-- The columns of a row of the schema. -/
theorem Lowered.ofColumns?_spec {row : Row} {types : List ValueType} {columns : List Lowered}
    (hrow : ValueType.acceptsAll types row = true) (h : ofColumns? types = some columns) :
    AllHonest row columns ∧ runAll columns row = .ok row :=
  columns?_spec types (fun j => by rw [Nat.zero_add]) hrow h

end Millrace.FastPath
