import Millrace.Proofs.FastPath.Transparency
import Millrace.Proofs.Pipeline.Outcome

/-!
# The memo of a run

A run finds the fast paths of its stages in a memo, by the identities of the lambdas.  When the lambdas come out of a
registry, what the memo remembers of one stage serves all others: the fast paths that a stage gets for its partitions
are those of compiling anew (`equip_fresh`), and the stage leaves the memo sound (`run_sound`).
-/

namespace Millrace

/-- The requests for fast paths that a stage makes, one for each partition. -/
def Stage.requests (s : Stage) (settings : Settings) (partitions : List Partition) : List FastPath.Request :=
  match s.action.registered? with
  | some f =>
    if settings.fastPath then partitions.map fun rows => (f, s.action.schema (settings.inference.infer rows)) else []
  | none => []

/-- The fast path of a stage for a partition, compiled anew. -/
def Stage.freshPath (s : Stage) (settings : Settings) (rows : Partition) : Option FastPath.Compiled :=
  match s.action.lambda? with
  | some f =>
    if settings.fastPath then
      (FastPath.compile f (s.action.schema (settings.inference.infer rows))).toOption
    else none
  | none => none

section
variable {s : Stage} {settings : Settings} {partitions : List Partition} {rows : Partition} {f : Lambda}
  {c : FastPath.Compiled}

/-- A fast path that is there was compiled for the schema of the partition. -/
theorem compile_of_freshPath (hf : s.action.lambda? = some f) (h : s.freshPath settings rows = some c) :
    settings.fastPath = true ∧ FastPath.compile f (s.action.schema (settings.inference.infer rows)) = .ok c := by
  simp only [Stage.freshPath, hf] at h
  split at h
  · next hon => exact ⟨hon, toOption_eq_some_iff.1 h⟩
  · cases h

theorem mem_requests {f : Registered} (hf : s.action.registered? = some f) (hon : settings.fastPath = true)
    (hrows : rows ∈ partitions) :
    (f, s.action.schema (settings.inference.infer rows)) ∈ s.requests settings partitions := by
  simp only [Stage.requests, hf, hon, ↓reduceIte]
  exact List.mem_map_of_mem hrows

end

section
variable {made : List Registered} {served : List (LambdaId × Schema)} {memo : FastPath.Memo} {s : Stage}
variable (hsame : ∀ f ∈ made, ∀ g ∈ made, f.id = g.id → f.lambda = g.lambda)
  (hs : ∀ f, s.action.registered? = some f → f ∈ made) (hmemo : memo.Sound made served) (settings : Settings)
include hsame hs hmemo

theorem fastPath_fresh (rows : Partition) :
    (s.fastPath settings memo rows).1 = s.freshPath settings rows ∧
      ∃ served, (s.fastPath settings memo rows).2.Sound made served := by
  unfold Stage.fastPath Stage.freshPath
  rw [Action.lambda?_eq_map]
  cases hf : s.action.registered? with
  | none => exact ⟨rfl, served, hmemo⟩
  | some f =>
    rw [Option.map_some]
    dsimp only
    split
    · obtain ⟨hanswer, hsound⟩ := FastPath.Memo.get_sound hsame hmemo
        (q := (f, s.action.schema (settings.inference.infer rows))) (hs f hf)
      exact ⟨hanswer, _, hsound⟩
    · exact ⟨rfl, served, hmemo⟩

/-- The fast paths of a stage are those of compiling anew for each partition. -/
theorem equip_fresh (partitions : List Partition) :
    (s.equip settings memo partitions).1 = partitions.map (fun rows => (s.freshPath settings rows, rows)) ∧
      ∃ served, (s.equip settings memo partitions).2.Sound made served := by
  induction partitions generalizing served memo with
  | nil => exact ⟨rfl, served, hmemo⟩
  | cons rows partitions ih =>
    obtain ⟨hfirst, served, hmemo⟩ := fastPath_fresh hsame hs hmemo settings rows
    obtain ⟨hrest, hlast⟩ := ih hmemo
    exact ⟨congrArg₂ List.cons (congrArg (·, rows) hfirst) hrest, hlast⟩

/-- The rows of a stage are tried on fast paths that were compiled anew for their partitions. -/
theorem trials_fresh (partitions : List Partition) :
    ∀ x ∈ s.trials settings memo partitions, ∃ rows ∈ partitions, x.1 = s.freshPath settings rows ∧ x.2 ∈ rows := by
  intro x hx
  rw [Stage.trials, (equip_fresh hsame hs hmemo settings partitions).1, List.flatMap_map, List.mem_flatMap] at hx
  obtain ⟨rows, hrows, hx⟩ := hx
  obtain ⟨row, hrow, rfl⟩ := List.mem_map.1 hx
  exact ⟨rows, hrows, rfl, hrow⟩

/-- A stage leaves the memo sound. -/
theorem run_sound (cancelled : Bool) (index : Nat) (partitions : List Partition) :
    ∃ served, (s.run settings cancelled index memo partitions).2.Sound made served := by
  unfold Stage.run
  split
  · exact ⟨served, hmemo⟩
  · exact (equip_fresh hsame hs hmemo settings partitions).2

end
end Millrace
