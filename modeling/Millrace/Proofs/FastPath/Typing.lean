import Millrace.Proofs.FastPath.Simulation

/-!
# Types of fast paths

The type of a lowered expression is the type of all its values (`Lowered.type_of_run`).  As a fast path agrees with the
general evaluator, its output type is that of the lambda: on a row of the schema the evaluator has no value of another
type, and it does not fail with a fatal fault (`typed_of_compile`).  A fast path gives up on every row of another
schema, and on a row of its own only where the evaluator fails too (`call_eq_error`).
-/

namespace Millrace.FastPath

/-! ### Lowered expressions -/

namespace Lowered

theorem type_toValue (k : Scalar) (x : k.Carrier) : (k.toValue x).type = k.type := by
  cases k <;> rfl

variable {row : Row}

mutual

/-- A lowered expression has values of its type only. -/
theorem type_of_run : (l : Lowered) → ∀ {v : Value}, l.run row = .ok v → v.type = l.type
  | scalar k c traits, v, h => by
    change k.toValue <$> c row = .ok v at h
    cases hc : c row with
    | error r =>
      rw [hc] at h
      cases h
    | ok x =>
      rw [hc] at h
      cases h
      exact type_toValue k x
  | tuple items traits, v, h => by
    change Value.tuple <$> runAll items row = .ok v at h
    cases hitems : runAll items row with
    | error r =>
      rw [hitems] at h
      cases h
    | ok vs =>
      rw [hitems] at h
      cases h
      rw [Value.type, type, types_of_runAll items hitems]

theorem types_of_runAll : (ls : List Lowered) → ∀ {vs : List Value}, runAll ls row = .ok vs →
    Value.types vs = types ls
  | [], vs, h => by
    cases h
    rfl
  | l :: rest, vs, h => by
    cases runAll_eq_ok_iff.1 h with
    | cons hv hvs =>
      rw [Value.types, types, type_of_run l hv, types_of_runAll rest (runAll_eq_ok_iff.2 hvs)]

end

end Lowered

/-! ### Fast paths -/

variable {f : Lambda} {schema : Schema} {row : Row} {c : Compiled}

/-- A fast path is for the schema that it was compiled for, and runs a lowered expression of its output type. -/
theorem lowered_of_compile (h : compile f schema = .ok c) :
    c.schema = schema ∧ ∃ body : Lowered, c.output = body.type ∧ c.run = body.run := by
  obtain ⟨params, -, h⟩ := bind_eq_ok h
  obtain ⟨body, -, hout⟩ := bind_eq_ok h
  cases hout
  exact ⟨rfl, body, rfl, rfl⟩

theorem type_of_call (h : compile f schema = .ok c) {v : Value} (hcall : c.call row = .ok v) :
    v.type = c.output := by
  obtain ⟨hschema, body, houtput, hrun⟩ := lowered_of_compile h
  have hrow := conforms_of_call h hcall
  rw [Compiled.call, hschema, if_pos hrow, hrun] at hcall
  rw [houtput]
  exact body.type_of_run hcall

/-- On the rows of its schema, a lambda with a fast path does not fail with a fatal fault, and all its values, from the
evaluator and from the fast path, have the output type. -/
theorem typed_of_compile (h : compile f schema = .ok c) (hrow : schema.conforms row = true) :
    (∀ e, f.eval row = .error e → e.isFatal = false) ∧ (∀ v, f.eval row = .ok v → v.type = c.output) ∧
      ∀ v, c.call row = .ok v → v.type = c.output := by
  have hfast : ∀ v, c.call row = .ok v → v.type = c.output := fun v hv => type_of_call h hv
  have hagrees := compile_agrees h hrow
  generalize hx : c.call row = x at hagrees hfast
  generalize f.eval row = y at hagrees
  refine ⟨fun e he => ?_, fun v hv => ?_, hfast⟩
  · subst he
    cases hagrees with
    | excused _ _ hdata => exact hdata
    | failure _ hdata => exact hdata
  · subst hv
    cases hagrees with
    | value hv =>
      rw [← hv]
      exact hfast _ rfl

/-- Compiled for integers, `successor` gives integers on both paths.  The largest integer has no successor, which is a
matter of the data. -/
theorem typed_of_compile_successor :
    ∃ c, compile successor (.row [.int]) = .ok c ∧ c.output = .int ∧
      (Schema.row [.int]).conforms [.int 1] = true ∧ successor.eval [.int 1] = .ok (.int 2) ∧
      c.call [.int 1] = .ok (.int 2) ∧ (Value.int 2).type = c.output ∧
      (Schema.row [.int]).conforms [.int Int64.maxValue] = true ∧
      ∃ e, successor.eval [.int Int64.maxValue] = .error e ∧ e.kind = .overflow ∧ e.isFatal = false := by
  have hone : (Schema.row [.int]).conforms [.int 1] = true := rfl
  have hmax : (Schema.row [.int]).conforms [.int Int64.maxValue] = true := rfl
  obtain ⟨c, hcompile, houtput, heval, hcall⟩ : ∃ c, compile successor (.row [.int]) = .ok c ∧ c.output = .int ∧
      successor.eval [.int 1] = .ok (.int 2) ∧ c.call [.int 1] = .ok (.int 2) := ⟨_, rfl, rfl, rfl, rfl⟩
  obtain ⟨e, hfault, hkind⟩ : ∃ e, successor.eval [.int Int64.maxValue] = .error e ∧ e.kind = .overflow := ⟨_, rfl, rfl⟩
  exact ⟨c, hcompile, houtput, hone, heval, hcall, (typed_of_compile hcompile hone).2.1 _ heval, hmax, e, hfault, hkind,
    (typed_of_compile hcompile hmax).1 e hfault⟩

/-- A fast path reports a row of another schema exactly when it is one.  When it gives up on a row of its schema, the
evaluator fails too, with a fault that is not fatal. -/
theorem call_eq_error (h : compile f schema = .ok c) :
    (c.call row = .error .nonconforming ↔ schema.conforms row = false) ∧
      (schema.conforms row = true → ∀ r, c.call row = .error r →
        ∃ e, f.eval row = .error e ∧ e.isFatal = false) := by
  constructor
  · constructor
    · intro hcall
      by_contra hrow
      rw [Bool.not_eq_false] at hrow
      exact (compile_agrees h hrow).ne_nonconforming hcall
    · intro hrow
      rw [Compiled.call, (lowered_of_compile h).1, hrow]
      rfl
  · intro hrow r hcall
    have hagrees := compile_agrees h hrow
    rw [hcall] at hagrees
    generalize f.eval row = y at hagrees
    cases hagrees with
    | failure _ hdata => exact ⟨_, rfl, hdata⟩

/-- `successor` gives up on a text for its schema, and on the largest integer for the overflow. -/
theorem call_eq_error_successor :
    ∃ c, compile successor (.row [.int]) = .ok c ∧ (Schema.row [.int]).conforms [.str "a"] = false ∧
      c.call [.str "a"] = .error .nonconforming ∧ c.call [.int Int64.maxValue] = .error .overflow ∧
      ∃ e, successor.eval [.int Int64.maxValue] = .error e ∧ e.isFatal = false := by
  have htext : (Schema.row [.int]).conforms [.str "a"] = false := rfl
  have hint : (Schema.row [.int]).conforms [.int Int64.maxValue] = true := rfl
  refine ⟨_, rfl, htext, (call_eq_error (f := successor) rfl).1.2 htext, rfl, ?_⟩
  exact (call_eq_error (f := successor) rfl).2 hint .overflow rfl

end Millrace.FastPath
