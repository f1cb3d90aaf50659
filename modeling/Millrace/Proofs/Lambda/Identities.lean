import Millrace.Lambda.Registry
import Millrace.Proofs.Results

/-!
# Identities

Registered lambdas come about in four ways: they are read from a text, made of an expression, copied, and bound to
columns.  In whatever order this happens, two of them with the same identity are the same lambda (`sound_run`), because a
call either gives a lambda that was there before, with its identity, or registers one under an identity that was free
(`outcome?_cases`).  Identities are counted without a bound; `id_lt_run` says how far they get.
-/

namespace Millrace

/-- A call that makes a registered lambda.  Those that were made before it are meant by their positions. -/
inductive MakeCall where
  | parse (text : String)
  | build (params : List String) (body : Expr)
  | copy (i : Nat)
  | bindColumns (i : Nat) (columns : Option (List String))

/-- A registry with all that was made from it, in order. -/
structure Workshop where
  registry : Registry
  made : List Registered := []

namespace Workshop

/-- What a call makes, with the registry afterwards; a call that fails makes nothing. -/
def outcome? (w : Workshop) : MakeCall → Option (Registered × Registry)
  | .parse text => (w.registry.parse text).toOption
  | .build params body => (w.registry.build params body).toOption
  | .copy i => w.made[i]?.map (·, w.registry)
  | .bindColumns i columns => w.made[i]?.bind fun f => (w.registry.bindColumns f columns).toOption

def step (w : Workshop) (call : MakeCall) : Workshop :=
  match w.outcome? call with
  | some (f, registry) => ⟨registry, w.made ++ [f]⟩
  | none => w

def run (w : Workshop) (calls : List MakeCall) : Workshop := calls.foldl step w

/-! ### One call -/

section
variable {w : Workshop} {call : MakeCall} {f : Registered} {registry : Registry}

/-- A call gives again what was made before, or it registers a lambda. -/
theorem outcome?_cases (h : w.outcome? call = some (f, registry)) :
    f ∈ w.made ∧ registry = w.registry ∨ ∃ lambda, w.registry.register lambda = (f, registry) := by
  cases call with
  | parse text =>
    obtain ⟨lambda, -, hlambda⟩ := map_eq_ok (toOption_eq_some_iff.1 h)
    exact .inr ⟨lambda, hlambda⟩
  | build params body =>
    obtain ⟨lambda, -, hlambda⟩ := map_eq_ok (toOption_eq_some_iff.1 h)
    exact .inr ⟨lambda, hlambda⟩
  | copy i =>
    obtain ⟨g, hg, heq⟩ := Option.map_eq_some_iff.1 h
    cases heq
    exact .inl ⟨List.mem_of_getElem? hg, rfl⟩
  | bindColumns i columns =>
    obtain ⟨g, hg, hbound⟩ := Option.bind_eq_some_iff.1 h
    have hbound := toOption_eq_some_iff.1 hbound
    unfold Registry.bindColumns at hbound
    split at hbound
    · obtain ⟨lambda, -, hlambda⟩ := map_eq_ok hbound
      exact .inr ⟨lambda, hlambda⟩
    · cases hbound
      exact .inl ⟨List.mem_of_getElem? hg, rfl⟩

/-- Whatever a step adds to what was made has been made before, or has an identity that was free. -/
theorem step_cases (w : Workshop) (call : MakeCall) :
    (w.step call).registry = w.registry ∧ (∀ f ∈ (w.step call).made, f ∈ w.made) ∨
      ∃ lambda, w.step call = ⟨⟨w.registry.next + 1⟩, w.made ++ [⟨w.registry.next, lambda⟩]⟩ := by
  unfold step
  split
  · next f registry h =>
    rcases outcome?_cases h with ⟨hf, rfl⟩ | ⟨lambda, hlambda⟩
    · refine .inl ⟨rfl, fun g hg => ?_⟩
      rcases List.mem_append.1 hg with hg | hg
      · exact hg
      · rwa [List.mem_singleton.1 hg]
    · cases hlambda
      exact .inr ⟨lambda, rfl⟩
  · exact .inl ⟨rfl, fun f hf => hf⟩

end

/-! ### Many calls -/

/-- The identities that are used up tell the lambdas apart. -/
structure Sound (w : Workshop) : Prop where
  used : ∀ f ∈ w.made, f.id < w.registry.next
  same : ∀ f ∈ w.made, ∀ g ∈ w.made, f.id = g.id → f.lambda = g.lambda

section
variable {w : Workshop}

theorem Sound.step (h : w.Sound) (call : MakeCall) : (w.step call).Sound := by
  rcases step_cases w call with ⟨hregistry, hmade⟩ | ⟨lambda, hstep⟩
  · constructor
    · rw [hregistry]
      exact fun f hf => h.used f (hmade f hf)
    · exact fun f hf g hg => h.same f (hmade f hf) g (hmade g hg)
  · rw [hstep]
    constructor
    · intro f hf
      rcases List.mem_append.1 hf with hf | hf
      · exact Nat.lt_succ_of_lt (h.used f hf)
      · rw [List.mem_singleton.1 hf]
        exact Nat.lt_succ_self _
    · intro f hf g hg hid
      rcases List.mem_append.1 hf with hf | hf <;> rcases List.mem_append.1 hg with hg | hg
      · exact h.same f hf g hg hid
      · rw [List.mem_singleton.1 hg] at hid
        exact absurd hid (Nat.ne_of_lt (h.used f hf))
      · rw [List.mem_singleton.1 hf] at hid
        exact absurd hid (Nat.ne_of_gt (h.used g hg))
      · rw [List.mem_singleton.1 hf, List.mem_singleton.1 hg]

/-- Different lambdas have different identities after any calls. -/
theorem sound_run (registry : Registry) (calls : List MakeCall) : (run ⟨registry, []⟩ calls).Sound := by
  suffices hrun : ∀ w : Workshop, w.Sound → (run w calls).Sound from hrun ⟨registry, []⟩ ⟨by simp, by simp⟩
  induction calls with
  | nil => exact fun w h => h
  | cons call calls ih => exact fun w h => ih (w.step call) (h.step call)

theorem next_step_le (w : Workshop) (call : MakeCall) : (w.step call).registry.next ≤ w.registry.next + 1 := by
  rcases step_cases w call with ⟨hregistry, -⟩ | ⟨lambda, hstep⟩
  · rw [hregistry]
    exact Nat.le_succ _
  · exact Nat.le_of_eq (by rw [hstep])

theorem next_run_le (w : Workshop) (calls : List MakeCall) :
    (run w calls).registry.next ≤ w.registry.next + calls.length := by
  induction calls generalizing w with
  | nil => exact Nat.le_refl _
  | cons call calls ih =>
    calc (run (w.step call) calls).registry.next
        ≤ (w.step call).registry.next + calls.length := ih (w.step call)
      _ ≤ w.registry.next + 1 + calls.length := Nat.add_le_add_right (next_step_le w call) _
      _ = w.registry.next + (call :: calls).length := by rw [List.length_cons, Nat.add_right_comm, Nat.add_assoc]

/-- No more identities are used up than there are calls, so a counter of 64 bits serves for `2 ^ 64` of them. -/
theorem id_lt_run (registry : Registry) (calls : List MakeCall) :
    ∀ f ∈ (run ⟨registry, []⟩ calls).made, f.id < registry.next + calls.length := fun f hf =>
  Nat.lt_of_lt_of_le ((sound_run registry calls).used f hf) (next_run_le ⟨registry, []⟩ calls)

end
end Workshop
end Millrace
