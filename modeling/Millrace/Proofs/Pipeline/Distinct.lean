import Mathlib.Data.List.Induction
import Millrace.Proofs.Pipeline.Cancellation
import Millrace.Proofs.Pipeline.Sequential
import Millrace.Value.Fingerprint

/-!
# Rows without repetition

Rows count as the same when they have the same width and the same bits in every column (`Row.same`), which is being
equal: floats are told apart by their bits, and so are nans.  So a hash table that looks for rows by their fingerprints
finds exactly the rows that were put in, whatever the hash function is (`isHashed_iff`).  When repeated rows are dropped,
the rows that no earlier row is the same as come out (`firsts`), in their order and however they are cut into partitions
(`run_unique_firsts`).

## Main statements

* `hashedRows_eq`: a hash table keeps the same rows.
* `firstOccurrences_eq_firsts`: the rows that are kept.
* `distinct_of_unique`: a stage that drops repeated rows.
-/

namespace Millrace

/-! ### The same row -/

/-- Whether two rows have the same width and the same bits in every column. -/
def Row.same (a b : Row) : Bool := a.length == b.length && (a.zip b).all fun x => x.1.bitEq x.2

theorem Row.same_iff {a b : Row} : a.same b = true ↔ a = b := by
  induction a generalizing b with
  | nil => cases b <;> simp [Row.same]
  | cons v a ih =>
    cases b with
    | nil => simp [Row.same]
    | cons w b =>
      have hstep : Row.same (v :: a) (w :: b) = true ↔ v.bitEq w = true ∧ Row.same a b = true := by
        simp [Row.same, and_left_comm]
      rw [hstep, Value.bitEq_iff, ih, List.cons.injEq]

/-- Whether a hash table that holds the rows `seen` finds a row: it holds the same row under the same hash. -/
def Row.isHashed (hash : List UInt8 → UInt64) (seen : List Row) (row : Row) : Bool :=
  seen.any fun r => hash r.fingerprint == hash row.fingerprint && r.same row

/-- The same rows have the same fingerprint, so the hash table finds a row exactly if it was put in. -/
theorem isHashed_iff {hash : List UInt8 → UInt64} {seen : List Row} {row : Row} :
    row.isHashed hash seen = true ↔ row ∈ seen := by
  rw [Row.isHashed, List.any_eq_true]
  constructor
  · rintro ⟨r, hr, hfound⟩
    rw [Bool.and_eq_true, Row.same_iff] at hfound
    exact hfound.2 ▸ hr
  · intro hrow
    exact ⟨row, hrow, by rw [Bool.and_eq_true, Row.same_iff]; exact ⟨beq_self_eq_true _, rfl⟩⟩

/-- The rows that a hash table does not find when their turn comes, and all rows that it holds then. -/
def hashedRows (hash : List UInt8 → UInt64) (seen : List Row) : List Row → List Row × List Row
  | [] => ([], seen)
  | row :: rest =>
    if row.isHashed hash seen then hashedRows hash seen rest
    else
      let (kept, seen) := hashedRows hash (row :: seen) rest
      (row :: kept, seen)

theorem hashedRows_eq (hash : List UInt8 → UInt64) (seen rows : List Row) :
    hashedRows hash seen rows = firstOccurrences seen rows := by
  induction rows generalizing seen with
  | nil => rfl
  | cons row rows ih =>
    rw [hashedRows, firstOccurrences, ih, ih]
    simp only [isHashed_iff]

/-- All partitions with one hash table; partitions without rows are left out. -/
def hashedPartitions (hash : List UInt8 → UInt64) (seen : List Row) : List Partition → List Partition × Tally
  | [] => ([], {})
  | rows :: rest =>
    let (kept, seen) := hashedRows hash seen rows
    let (others, tally) := hashedPartitions hash seen rest
    (if kept.isEmpty then others else kept :: others,
     { rowsIn := rows.length, rowsOut := kept.length } + tally)

theorem hashedPartitions_eq (hash : List UInt8 → UInt64) (seen : List Row) (partitions : List Partition) :
    hashedPartitions hash seen partitions = uniqueRows seen partitions := by
  induction partitions generalizing seen with
  | nil => rfl
  | cons rows partitions ih =>
    rw [hashedPartitions, uniqueRows, hashedRows_eq]
    simp only [ih]

/-! ### First occurrences -/

/-- The rows that no earlier row is the same as. -/
def firsts (rows : List Row) : List Row :=
  (rows.zipIdx.filter fun x => !(rows.take x.2).any (·.same x.1)).map (·.1)

theorem any_same {rows : List Row} {row : Row} : rows.any (·.same row) = true ↔ row ∈ rows := by
  simp [List.any_eq_true, Row.same_iff]

theorem firsts_concat (rows : List Row) (row : Row) :
    firsts (rows ++ [row]) = firsts rows ++ if row ∈ rows then [] else [row] := by
  have hbefore : (rows.zipIdx.filter fun x => !((rows ++ [row]).take x.2).any (·.same x.1)) =
      rows.zipIdx.filter fun x => !(rows.take x.2).any (·.same x.1) := by
    refine List.filter_congr fun x hx => ?_
    have hlt : x.2 < rows.length := by
      have := List.mem_zipIdx hx
      omega
    rw [List.take_append_of_le_length hlt.le]
  rw [firsts, List.zipIdx_append, List.filter_append, List.map_append, hbefore, Nat.zero_add, List.zipIdx_singleton]
  congr 1
  by_cases hrow : row ∈ rows
  · rw [if_pos hrow, List.filter_cons_of_neg]
    · rfl
    · rw [List.take_left, any_same.2 hrow]
      simp
  · rw [if_neg hrow, List.filter_cons_of_pos]
    · rfl
    · rw [List.take_left, Bool.eq_false_iff.2 (mt any_same.1 hrow)]
      rfl

theorem mem_firsts {rows : List Row} {row : Row} : row ∈ firsts rows ↔ row ∈ rows := by
  induction rows using List.reverseRecOn with
  | nil => rfl
  | append_singleton rows r ih =>
    rw [firsts_concat, List.mem_append, ih, List.mem_append, List.mem_singleton]
    split
    · next hr =>
      simp only [List.not_mem_nil, or_false]
      exact ⟨Or.inl, fun h => h.elim id fun heq => heq ▸ hr⟩
    · rw [List.mem_singleton]

theorem nodup_firsts (rows : List Row) : (firsts rows).Nodup := by
  induction rows using List.reverseRecOn with
  | nil => exact List.nodup_nil
  | append_singleton rows r ih =>
    rw [firsts_concat]
    split
    · rw [List.append_nil]
      exact ih
    · next hr =>
      refine List.nodup_append.2 ⟨ih, List.pairwise_singleton .., fun row hrow r' hr' => ?_⟩
      rw [List.mem_singleton.1 hr']
      rintro rfl
      exact hr (mem_firsts.1 hrow)

/-- The rows that are kept are those that no earlier row is the same as. -/
theorem firstOccurrences_eq_firsts (rows : List Row) : (firstOccurrences [] rows).1 = firsts rows := by
  have hall : (rows.filter fun row => decide (row ∉ ([] : List Row))) = rows :=
    List.filter_eq_self.2 fun row _ => by simp
  rw [firstOccurrences_eq_eraseDups, hall]
  clear hall
  -- from the end, since it depends on the rows before it whether a row is kept
  induction rows using List.reverseRecOn with
  | nil => rfl
  | append_singleton rows row ih =>
    rw [List.eraseDups_append, firsts_concat, ih]
    congr 1
    by_cases hrow : row ∈ rows <;> simp [List.removeAll, hrow, List.eraseDups_cons]

/-! ### Partitions -/

theorem uniqueRows_nonempty (seen : List Row) (partitions : List Partition) :
    ∀ rows ∈ (uniqueRows seen partitions).1, rows ≠ [] := by
  induction partitions generalizing seen with
  | nil => exact fun rows hrows => (nomatch hrows)
  | cons rows partitions ih =>
    rw [uniqueRows]
    dsimp only
    split
    · exact ih _
    · next hkept =>
      refine List.forall_mem_cons.2 ⟨?_, ih _⟩
      rw [Ne, ← List.isEmpty_iff]
      exact hkept

theorem firstOccurrences_of_nodup {seen rows : List Row} (hnodup : rows.Nodup) (hnew : ∀ row ∈ rows, row ∉ seen) :
    firstOccurrences seen rows = (rows, rows.reverse ++ seen) := by
  induction rows generalizing seen with
  | nil => rfl
  | cons row rows ih =>
    obtain ⟨hrow, hrows⟩ := List.nodup_cons.1 hnodup
    obtain ⟨hfirst, hrest⟩ := List.forall_mem_cons.1 hnew
    have hlater : ∀ r ∈ rows, r ∉ row :: seen := fun r hr hmem =>
      (List.mem_cons.1 hmem).elim (fun heq => hrow (heq ▸ hr)) (hrest r hr)
    rw [firstOccurrences, if_neg hfirst, ih hrows hlater, List.reverse_cons, List.append_assoc]
    rfl

/-- Partitions without repeated rows stay as they are. -/
theorem uniqueRows_of_nodup {seen : List Row} {partitions : List Partition} (hnodup : partitions.flatten.Nodup)
    (hnew : ∀ row ∈ partitions.flatten, row ∉ seen) (hnonempty : ∀ rows ∈ partitions, rows ≠ []) :
    (uniqueRows seen partitions).1 = partitions := by
  induction partitions generalizing seen with
  | nil => rfl
  | cons rows partitions ih =>
    rw [List.flatten_cons] at hnodup hnew
    obtain ⟨hrows, hrest, hdisjoint⟩ := List.nodup_append.1 hnodup
    obtain ⟨hfirst, hlater⟩ := List.forall_mem_append.1 hnew
    obtain ⟨hne, hothers⟩ := List.forall_mem_cons.1 hnonempty
    have hunseen : ∀ row ∈ partitions.flatten, row ∉ rows.reverse ++ seen := by
      intro row hrow hmem
      rcases List.mem_append.1 hmem with hmem | hmem
      · exact hdisjoint row (List.mem_reverse.1 hmem) row hrow rfl
      · exact hlater row hrow hmem
    rw [uniqueRows, firstOccurrences_of_nodup hrows hfirst]
    dsimp only
    rw [if_neg (by simpa using hne), ih hrest hunseen hothers]

/-! ### Stages -/

section
variable {s : Stage} {settings : Settings} {cancelled : Bool} {index : Nat} {memo : FastPath.Memo}
  {partitions out : List Partition} {tally : Tally}

/-- The rows and the tally of a stage that drops repeated rows. -/
theorem run_unique_firsts (hu : s.action = .unique) (settings : Settings) (cancelled : Bool) (index : Nat)
    (memo : FastPath.Memo) (partitions : List Partition) :
    ∃ out, s.run settings cancelled index memo partitions =
        (.ok (out, { rowsIn := partitions.flatten.length, rowsOut := (firsts partitions.flatten).length }), memo) ∧
      out.flatten = firsts partitions.flatten ∧ (∀ rows ∈ out, rows ≠ []) ∧
        ∀ hash, hashedPartitions hash [] partitions =
          (out, { rowsIn := partitions.flatten.length, rowsOut := (firsts partitions.flatten).length }) := by
  obtain ⟨hrows, htally⟩ := uniqueRows_flatten [] partitions
  rw [firstOccurrences_eq_firsts] at hrows htally
  have hboth : uniqueRows [] partitions = ((uniqueRows [] partitions).1,
      { rowsIn := partitions.flatten.length, rowsOut := (firsts partitions.flatten).length }) := Prod.ext rfl htally
  refine ⟨(uniqueRows [] partitions).1, ?_, hrows, uniqueRows_nonempty [] partitions, fun hash => ?_⟩
  · rw [Stage.run_of_unique hu, ← hboth]
  · rw [hashedPartitions_eq, ← hboth]

/-- A stage that drops repeated rows keeps the rows that no earlier row is the same as, in their order.  No two of them
are the same, every row is the same as one of them, and the rows that came in and went out are counted.  It does not
matter how the rows are cut into partitions, nor that rows are looked up by the hashes of their fingerprints.  A second
stage of this kind changes nothing. -/
theorem distinct_of_unique (hu : s.action = .unique) (settings : Settings) (cancelled : Bool) (index : Nat)
    (memo : FastPath.Memo) (partitions : List Partition) :
    ∃ out tally, s.run settings cancelled index memo partitions = (.ok (out, tally), memo) ∧
      (∀ hash, hashedPartitions hash [] partitions = (out, tally)) ∧
      out.flatten = firsts partitions.flatten ∧
      (out.flatten.Pairwise fun a b => a.same b = false) ∧
      (∀ row ∈ partitions.flatten, ∃ kept ∈ out.flatten, kept.same row = true) ∧
      tally = { rowsIn := partitions.flatten.length, rowsOut := out.flatten.length } ∧
      (∀ pieces : List Partition, pieces.flatten = partitions.flatten →
        ∃ out', s.run settings cancelled index memo pieces = (.ok (out', tally), memo) ∧
          out'.flatten = out.flatten) ∧
      ∃ tally', s.run settings cancelled (index + 1) memo out = (.ok (out, tally'), memo) := by
  obtain ⟨out, hrun, hrows, hnonempty, hhashed⟩ := run_unique_firsts hu settings cancelled index memo partitions
  have hnodup : out.flatten.Nodup := hrows ▸ nodup_firsts partitions.flatten
  refine ⟨out, _, hrun, hhashed, hrows, ?_, fun row hrow => ?_, by rw [hrows], fun pieces hpieces => ?_, ?_⟩
  · exact hnodup.imp fun hne => Bool.eq_false_iff.2 (mt Row.same_iff.1 hne)
  · exact ⟨row, hrows ▸ mem_firsts.2 hrow, Row.same_iff.2 rfl⟩
  · obtain ⟨out', hrun', hrows', -⟩ := run_unique_firsts hu settings cancelled index memo pieces
    rw [hpieces] at hrun' hrows'
    exact ⟨out', hrun', hrows'.trans hrows.symm⟩
  · refine ⟨(uniqueRows [] out).2, ?_⟩
    rw [Stage.run_of_unique hu]
    exact congrArg (Except.ok ·, memo) (Prod.ext (uniqueRows_of_nodup hnodup (fun _ _ => List.not_mem_nil) hnonempty) rfl)

/-- A truth value is not the integer that it looks like, zeros differ by their signs, and a nan is the same as itself
but not as its negative; the rows are cut into two partitions. -/
theorem distinct_of_unique_lookalikes :
    let s : Stage := ⟨.unique, []⟩
    let nan : Value := .float .nan
    let negated : Value := .float (-.nan)
    let partitions : List Partition :=
      [[[.bool true], [.int 1], [nan], [.tuple [nan, .float 0]]],
        [[negated], [nan], [.tuple [nan, .float (-0)]], [.tuple [nan, .float 0]], [.int 1], [negated]]]
    s.action = .unique ∧ ∃ out tally, s.run (.standard 1) false 0 {} partitions = (.ok (out, tally), {}) ∧
      out.flatten =
        [[.bool true], [.int 1], [nan], [.tuple [nan, .float 0]], [negated], [.tuple [nan, .float (-0)]]] ∧
      tally.rowsIn = 10 ∧ tally.rowsOut = 6 := by
  intro s nan negated partitions
  obtain ⟨out, tally, hrun, -, hrows, -, -, htally, -⟩ :=
    distinct_of_unique (s := s) rfl (.standard 1) false 0 {} partitions
  have hfirsts : firsts partitions.flatten =
      [[.bool true], [.int 1], [nan], [.tuple [nan, .float 0]], [negated], [.tuple [nan, .float (-0)]]] := by
    decide
  rw [hfirsts] at hrows
  rw [hrows] at htally
  exact ⟨rfl, out, tally, hrun, hrows, by rw [htally]; rfl, by rw [htally]; rfl⟩

end
end Millrace
