import Mathlib.Algebra.Order.BigOperators.Group.List
import Mathlib.Data.List.Induction
import Mathlib.Data.String.Basic
import Millrace.Proofs.Number.Digits
import Millrace.Proofs.Pipeline.Completion

/-!
# Reports of faults

The report of a run lists the faults of its stages by the names of the stages.  Of several stages with one name that had
faults, only the last is listed (`faults_perm_latest`).  So the report has all faults of the run exactly if the stages
that had any have different names (`sum_faults_iff`).  Built lambdas are told apart by their identities
(`id_eq_of_name_eq`), but lambdas that were read from one text are not.

## Main statements

* `perm_putSorted`: what an entry replaces in a sorted list.
* `faults_perm_latest`: what the report lists.
* `faults_of_report`: whether the report has all faults of the run.
-/

namespace Millrace

/-! ### Entries by their names -/

section
variable {α : Type} {key : String} {x : α} {l : List (String × α)} {xs : List (String × α)}

theorem perm_putSorted (hsorted : l.Pairwise fun a b => a.1 < b.1) :
    (putSorted key x l).Perm ((key, x) :: l.filter (·.1 != key)) := by
  induction l with
  | nil => rfl
  | cons y rest ih =>
    obtain ⟨hfirst, hrest⟩ := List.pairwise_cons.1 hsorted
    have hkeep (hle : key ≤ y.1) : rest.filter (·.1 != key) = rest := by
      refine List.filter_eq_self.2 fun z hz => ?_
      rw [bne_iff_ne]
      exact (hle.trans_lt (hfirst z hz)).ne'
    rw [putSorted]
    split
    · next hlt => rw [List.filter_cons_of_pos (by simpa using hlt.ne'), hkeep hlt.le]
    · split
      · next heq => rw [List.filter_cons_of_neg (by simpa using heq.symm), hkeep heq.le]
      · next hne =>
        rw [List.filter_cons_of_pos (by simpa using Ne.symm hne)]
        exact ((ih hrest).cons y).trans (.swap ..)

theorem sorted_putSorted (hsorted : l.Pairwise fun a b => a.1 < b.1) :
    (putSorted key x l).Pairwise fun a b => a.1 < b.1 := by
  induction l with
  | nil => exact List.pairwise_singleton ..
  | cons y rest ih =>
    obtain ⟨hfirst, hrest⟩ := List.pairwise_cons.1 hsorted
    rw [putSorted]
    split
    · next hlt =>
      exact List.pairwise_cons.2 ⟨List.forall_mem_cons.2 ⟨hlt, fun z hz => hlt.trans (hfirst z hz)⟩, hsorted⟩
    · next hnlt =>
      split
      · next heq => exact List.pairwise_cons.2 ⟨fun z hz => heq ▸ hfirst z hz, hrest⟩
      · next hne =>
        refine List.pairwise_cons.2 ⟨fun z hz => ?_, ih hrest⟩
        rcases List.mem_cons.1 ((perm_putSorted hrest).mem_iff.1 hz) with rfl | hz
        · exact lt_of_le_of_ne (not_lt.1 hnlt) (Ne.symm hne)
        · exact hfirst z (List.mem_of_mem_filter hz)

/-- The entries whose names do not occur again after them. -/
def latest : List (String × α) → List (String × α)
  | [] => []
  | x :: rest => if x.1 ∈ rest.map (·.1) then latest rest else x :: latest rest

theorem latest_concat (xs : List (String × α)) (x : String × α) :
    latest (xs ++ [x]) = (latest xs).filter (·.1 != x.1) ++ [x] := by
  induction xs with
  | nil => rfl
  | cons y ys ih =>
    have hmem : y.1 ∈ (ys ++ [x]).map (·.1) ↔ y.1 ∈ ys.map (·.1) ∨ y.1 = x.1 := by
      rw [List.map_append, List.mem_append, List.map_singleton, List.mem_singleton]
    rw [List.cons_append, latest, latest, ih]
    by_cases hys : y.1 ∈ ys.map (·.1)
    · rw [if_pos (hmem.2 (Or.inl hys)), if_pos hys]
    · by_cases hx : y.1 = x.1
      · rw [if_pos (hmem.2 (Or.inr hx)), if_neg hys, List.filter_cons_of_neg (by simpa using hx)]
      · rw [if_neg (fun h => (hmem.1 h).elim hys hx), if_neg hys, List.filter_cons_of_pos (by simpa using hx)]
        rfl

/-- Entries that are put into a sorted list one after the other. -/
theorem foldl_putSorted (xs : List (String × α)) :
    (xs.foldl (fun sorted x => putSorted x.1 x.2 sorted) []).Perm (latest xs) ∧
      (xs.foldl (fun sorted x => putSorted x.1 x.2 sorted) []).Pairwise fun a b => a.1 < b.1 := by
  induction xs using List.reverseRecOn with
  | nil => exact ⟨.refl _, .nil⟩
  | append_singleton xs x ih =>
    obtain ⟨hperm, hsorted⟩ := ih
    rw [List.foldl_append, latest_concat]
    refine ⟨?_, sorted_putSorted hsorted⟩
    exact (perm_putSorted hsorted).trans (((hperm.filter _).cons x).trans (List.perm_append_singleton ..).symm)

theorem latest_of_nodup (hnodup : (xs.map (·.1)).Nodup) : latest xs = xs := by
  induction xs with
  | nil => rfl
  | cons x xs ih =>
    obtain ⟨hx, hxs⟩ := List.nodup_cons.1 hnodup
    rw [latest, if_neg hx, ih hxs]

/-- Entries are lost when a name occurs again. -/
theorem sum_latest (w : α → Nat) (hpos : ∀ x ∈ xs, 0 < w x.2) :
    ((latest xs).map (w ·.2)).sum ≤ (xs.map (w ·.2)).sum ∧
      (((latest xs).map (w ·.2)).sum = (xs.map (w ·.2)).sum ↔ (xs.map (·.1)).Nodup) := by
  induction xs with
  | nil => exact ⟨Nat.le_refl 0, fun _ => List.nodup_nil, fun _ => rfl⟩
  | cons x xs ih =>
    obtain ⟨hx, hxs⟩ := List.forall_mem_cons.1 hpos
    obtain ⟨hle, hiff⟩ := ih hxs
    rw [latest, List.map_cons, List.map_cons, List.sum_cons, List.nodup_cons]
    split
    · next hmem =>
      -- the entry is left out, and its weight is missing on the left
      refine ⟨by omega, fun heq => ?_, fun hnodup => absurd hmem hnodup.1⟩
      omega
    · next hmem =>
      rw [List.map_cons, List.sum_cons, ← hiff]
      exact ⟨by omega, fun heq => ⟨hmem, by omega⟩, fun heq => by omega⟩

end

/-! ### Stages that had faults -/

theorem FaultCounts.toList_eq_nil {c : FaultCounts} : c.toList = [] ↔ c.total = 0 := by
  have hall (kind : FaultKind) : kind ∈ FaultKind.all := by cases kind <;> decide
  have hnil : c.toList = [] ↔ ∀ kind, c.get kind = 0 := by
    rw [FaultCounts.toList, List.filter_eq_nil_iff, List.forall_mem_map]
    simp [hall]
  rw [hnil, FaultCounts.total_eq_sum, List.sum_eq_zero_iff, List.forall_mem_map]
  exact ⟨fun hzero kind _ => hzero kind, fun hzero kind => hzero kind (hall kind)⟩

/-- The faults of the stages that had any, in the order of the stages. -/
def Report.failures (r : Report) : List (String × FaultCounts) :=
  (r.stages.filter fun x => x.2.faults.toList != []).map fun x => (x.1, x.2.faults)

section
variable {r : Report}

theorem Report.faults_eq (r : Report) :
    r.faults = r.failures.foldl (fun sorted x => putSorted x.1 x.2 sorted) [] := by
  rw [Report.faults, Report.failures, List.foldl_map]

/-- Of the stages with one name that had faults, the report lists the last, and it is sorted by the names. -/
theorem faults_perm_latest (r : Report) :
    r.faults.Perm (latest r.failures) ∧ r.faults.Pairwise fun a b => a.1 < b.1 := by
  rw [Report.faults_eq]
  exact foldl_putSorted r.failures

theorem total_pos_of_failures : ∀ x ∈ r.failures, 0 < x.2.total := by
  intro x hx
  obtain ⟨y, hy, rfl⟩ := List.mem_map.1 hx
  have hfaults := (List.mem_filter.1 hy).2
  rw [bne_iff_ne, Ne, FaultCounts.toList_eq_nil] at hfaults
  exact Nat.pos_of_ne_zero hfaults

/-- Stages without faults add nothing to the number of all faults. -/
theorem sum_failures (r : Report) : (r.failures.map (·.2.total)).sum = r.total := by
  obtain ⟨stages⟩ := r
  induction stages with
  | nil => rfl
  | cons x stages ih =>
    have hrest : Report.total ⟨x :: stages⟩ = x.2.faults.total + Report.total ⟨stages⟩ := rfl
    rw [hrest, ← ih, Report.failures]
    by_cases hx : x.2.faults.toList = []
    · rw [List.filter_cons_of_neg (by simpa using hx), FaultCounts.toList_eq_nil.1 hx, Nat.zero_add]
      rfl
    · rw [List.filter_cons_of_pos (by simpa using hx), List.map_cons, List.map_cons, List.sum_cons]
      rfl

/-- The report has all faults exactly if the stages that had any have different names. -/
theorem sum_faults_iff (r : Report) :
    (r.faults.map (·.2.total)).sum = r.total ↔ (r.failures.map (·.1)).Nodup := by
  rw [← sum_failures, ((faults_perm_latest r).1.map _).sum_eq]
  exact (sum_latest FaultCounts.total total_pos_of_failures).2

end

section
variable {settings : Settings} {cancelled : Bool} {stages : List Stage} {partitions out : List Partition}
  {report : Report}

/-- The report of a run that comes to its end lists, of the stages with one name that had faults, the faults of the
last.  It has all faults of the run exactly if no two stages that had any have the same name, and then it lists the
faults of each of them. -/
theorem faults_of_report (hrun : runPipeline settings cancelled stages partitions = .ok (out, report)) :
    report.stages.map (·.1) = stages.map Stage.name ∧
      report.faults.Perm (latest report.failures) ∧
      ((report.faults.map (·.2.total)).sum = report.total ↔ (report.failures.map (·.1)).Nodup) ∧
      ((report.failures.map (·.1)).Nodup → report.faults.Perm report.failures) := by
  refine ⟨names_of_runFrom hrun, (faults_perm_latest report).1, sum_faults_iff report, fun hnodup => ?_⟩
  have hperm := (faults_perm_latest report).1
  rw [latest_of_nodup hnodup] at hperm
  exact hperm

end

/-! ### Names of stages -/

/-- A list is cut at the first place of an item in one way. -/
theorem append_cons_inj {α : Type} {a : α} {xs ys zs ws : List α} (hxs : a ∉ xs) (hys : a ∉ ys)
    (h : xs ++ a :: zs = ys ++ a :: ws) : xs = ys ∧ zs = ws := by
  induction xs generalizing ys with
  | nil =>
    cases ys with
    | nil => exact ⟨rfl, (List.cons.inj h).2⟩
    | cons y ys =>
      obtain rfl : a = y := (List.cons.inj h).1
      exact absurd (List.mem_cons_self ..) hys
  | cons x xs ih =>
    cases ys with
    | nil =>
      obtain rfl : x = a := (List.cons.inj h).1
      exact absurd (List.mem_cons_self ..) hxs
    | cons y ys =>
      obtain ⟨rfl, htail⟩ := List.cons.inj h
      obtain ⟨rfl, rfl⟩ := ih (fun hmem => hxs (List.mem_cons_of_mem x hmem))
        (fun hmem => hys (List.mem_cons_of_mem x hmem)) htail
      exact ⟨rfl, rfl⟩

theorem text_injective {m n : Nat} (h : Digits.text m = Digits.text n) : m = n := by
  have hvalue (k : Nat) : Digits.value (Digits.text k).toList = k := by
    rw [Digits.text, String.toList_ofList, Digits.value_chars fun _ => Digits.lt_ten_of_mem_ofNat, Digits.toNat_ofNat]
  rw [← hvalue m, h, hvalue n]

/-- The text of a built lambda tells its identity. -/
theorem id_eq_of_text_eq {f g : Registered} (hf : f.lambda.source = none) (hg : g.lambda.source = none)
    (h : f.text = g.text) : f.id = g.id := by
  have htext (k : Registered) (hk : k.lambda.source = none) : k.text.toList =
      "<udf#".toList ++ ((Digits.text k.id).toList ++ '/' :: (Digits.text k.lambda.arity ++ ">").toList) := by
    rw [Registered.text, hk, Option.getD_none]
    simp only [String.toList_append, List.append_assoc]
    rfl
  have hlist := congrArg String.toList h
  rw [htext f hf, htext g hg] at hlist
  have hid := append_cons_inj (Digits.notMem_text rfl f.id) (Digits.notMem_text rfl g.id)
    (List.append_cancel_left hlist)
  exact text_injective (String.toList_injective hid.1)

theorem notMem_name (a : Action) : '(' ∉ a.name.toList := by
  have hnames : ∀ name ∈ ["map", "filter", "map_column", "with_column", "select", "unique"], '(' ∉ name.toList := by
    decide
  cases a <;> exact hnames _ (by simp [Action.name])

/-- Stages with built lambdas have the same name only if it is the same lambda. -/
theorem id_eq_of_name_eq {s t : Stage} {f g : Registered} (hs : s.action.registered? = some f)
    (ht : t.action.registered? = some g) (hf : f.lambda.source = none) (hg : g.lambda.source = none)
    (h : s.name = t.name) : f.id = g.id := by
  have hname (u : Stage) (k : Registered) (hk : u.action.registered? = some k) :
      u.name.toList = u.action.name.toList ++ '(' :: (k.text ++ ")").toList := by
    simp only [Stage.name, hk, String.toList_append, List.append_assoc]
    rfl
  have hlist := congrArg String.toList h
  rw [hname s f hs, hname t g ht] at hlist
  have htext := (append_cons_inj (notMem_name _) (notMem_name _) hlist).2
  rw [String.toList_append, String.toList_append] at htext
  exact id_eq_of_text_eq hf hg (String.toList_injective (List.append_cancel_right htext))

/-! ### Two stages with one lambda -/

/-- `lambda x: 1 // x`, where a division by zero is resolved by `lambda x: 0` -/
def floorQuotient (id : LambdaId) (source : Option String) : Stage :=
  ⟨.map ⟨id, ["x"], .binary .floorDiv (.const (.int 1)) (.param 0), source⟩,
    [.resolve .zeroDivision ⟨["x"], .const (.int 0), none⟩]⟩

theorem process_floorQuotient_zero (id : LambdaId) (source : Option String) :
    (floorQuotient id source).process none [.int 0] =
      (.ok (some [.int 0]), { generalOnly := 1, resolved := 1, faults := .one .zeroDivision }) := by
  have hhandle : (floorQuotient id source).handle [.int 0] FaultCause.integerDivision =
      (.resolved (.int 0), { faults := .one .zeroDivision } + { resolved := 1 }) := handle_of_resolve rfl rfl rfl
  rw [process_of_lambda rfl, finish_of_general rfl]
  exact congrArg (fun r => ((floorQuotient id source).settle [.int 0] r.1, { generalOnly := 1 } + r.2 + 0)) hhandle

/-- Settings without fast paths. -/
def plainSettings : Settings := { Settings.standard 1 with fastPath := false }

/-- What is counted for one row that is resolved. -/
def resolvedRow : Tally :=
  { rowsIn := 1, rowsOut := 1, generalOnly := 1, resolved := 1, faults := .one .zeroDivision }

theorem run_floorQuotient_zero (id : LambdaId) (source : Option String) (index : Nat) (memo : FastPath.Memo) :
    ((floorQuotient id source).run plainSettings false index memo [[[.int 0]]]).1 = .ok ([[[.int 0]]], resolvedRow) := by
  have hsize : plainSettings.batchSize ≠ 0 := by decide
  have hequip : ((floorQuotient id source).equip plainSettings memo [[[.int 0]]]).1 = [(none, [[.int 0]])] := rfl
  have hsweep : (floorQuotient id source).sweep 0 ([(none, [[.int 0]])].flatMap Share.trials) =
      .ok ([[.int 0]], resolvedRow) := by
    simp only [List.flatMap_cons, List.flatMap_nil, Share.trials, List.map_cons, List.map_nil, List.append_nil,
      Stage.sweep, Stage.faultOf?, Stage.outputOf, Stage.countOf, process_floorQuotient_zero]
    rfl
  have houtputs : (floorQuotient id source).outputs (none, [[.int 0]]) = [[.int 0]] := by
    simp only [Stage.outputs, List.flatMap_cons, List.flatMap_nil, Stage.outputOf, process_floorQuotient_zero]
    rfl
  rw [run_eq_work (by rintro ⟨⟩), hequip, (work_of_sweep_ok index hsize hsweep).1, List.map_singleton, houtputs]
  rfl

/-- Two stages, one after the other, on a row that fails in both. -/
theorem runPipeline_floorQuotients (source : Option String) :
    runPipeline plainSettings false [floorQuotient 1 source, floorQuotient 2 source] [[[.int 0]]] =
      .ok ([[[.int 0]]],
        ⟨[((floorQuotient 1 source).name, resolvedRow), ((floorQuotient 2 source).name, resolvedRow)]⟩) := by
  rw [runPipeline, runFrom_cons_of_ok (run_floorQuotient_zero 1 source 0 {}),
    runFrom_cons_of_ok (run_floorQuotient_zero 2 source 1 _)]
  rfl

/-- Two lambdas that were read from the same text: of the two faults of their stages, the report has one. -/
theorem faults_lost_of_same_name :
    let s := floorQuotient 1 (some "lambda x: 1 // x")
    let t := floorQuotient 2 (some "lambda x: 1 // x")
    ∃ out report, plainSettings.check = .ok () ∧
      runPipeline plainSettings false [s, t] [[[.int 0]]] = .ok (out, report) ∧
        (report.faults.map (·.2.total)).sum = 1 ∧ report.total = 2 := by
  intro s t
  refine ⟨_, _, rfl, runPipeline_floorQuotients (some "lambda x: 1 // x"), ?_, rfl⟩
  rw [((faults_perm_latest _).1.map _).sum_eq]
  rfl

/-- Two lambdas that were built alike: their identities tell the stages apart, and the report has the faults of both. -/
theorem faults_of_report_floorQuotients :
    let s := floorQuotient 1 none
    let t := floorQuotient 2 none
    ∃ out report, runPipeline plainSettings false [s, t] [[[.int 0]]] = .ok (out, report) ∧
      (report.faults.map (·.2.total)).sum = report.total ∧ report.total = 2 ∧
        report.faults.Perm [(s.name, .one .zeroDivision), (t.name, .one .zeroDivision)] := by
  intro s t
  have hrun := runPipeline_floorQuotients none
  obtain ⟨-, -, hsum, hperm⟩ := faults_of_report hrun
  have hne : s.name ≠ t.name := fun h => absurd (id_eq_of_name_eq rfl rfl rfl rfl h) (by decide)
  have hnodup : [s.name, t.name].Nodup := by simp [hne]
  exact ⟨_, _, hrun, hsum.2 hnodup, rfl, hperm hnodup⟩

end Millrace
