import Millrace.Proofs.FastPath.Operators

/-!
# Lowered texts and tuples

Concatenation, repetition and subscripts of lowered texts and tuples simulate those of values.  One of them does so
only up to excused faults: a tuple that is repeated no times leaves none of its items behind, and the lowered
repetition does not run them (`repeat_simulates`).
-/

namespace Millrace.FastPath

section
variable {excused : Fault → Prop} {row : Row} {y z : RowResult Value} {l m out : Lowered}

/-! ### Repetition -/

theorem repeatItems_of_copies {α : Type} {items : List α} {count : Int64} {n : Nat}
    (h : copies items.length count = .ok n) : repeatItems items count = .ok (List.replicate n items).flatten := by
  simp only [repeatItems, h]
  rfl

theorem copies_of_repeatItems {α : Type} {items out : List α} {count : Int64}
    (h : repeatItems items count = .ok out) :
    ∃ n, copies items.length count = .ok n ∧ out = (List.replicate n items).flatten := by
  cases hc : copies items.length count with
  | error e => simp only [repeatItems, hc] at h; cases h
  | ok n => rw [repeatItems_of_copies hc] at h; cases h; exact ⟨n, rfl, rfl⟩

/-- No copies are asked for only by a count of zero or less, or of something empty. -/
theorem copies_eq_zero {len : Nat} {count : Int64} (h : copies len count = .ok 0) : len = 0 ∨ count ≤ 0 := by
  by_cases hlen : len = 0
  · exact Or.inl hlen
  · right
    simp only [copies] at h
    split at h
    · cases h
    · have hcount : count.toInt.toNat = 0 := Except.ok.inj h
      rw [Int64.le_iff_toInt_le]
      have h0 : (0 : Int64).toInt = 0 := rfl
      omega

theorem repeat_text_of_integer (s : String) {w : Value} {n : Int64} (hw : w.number? = some (.int n)) :
    BinaryOp.mul.apply (.str s) w = Value.str <$> repeatText s n := by
  have hcount : w.count? = some n := by simp only [Value.count?, hw]
  simp only [BinaryOp.apply, Value.number?, BinaryOp.onSequences, hcount]

theorem integer_repeat_text (s : String) {v : Value} {n : Int64} (hv : v.number? = some (.int n)) :
    BinaryOp.mul.apply v (.str s) = Value.str <$> repeatText s n := by
  have hcount : v.count? = some n := by simp only [Value.count?, hv]
  cases v with
  | str s | tuple items => cases hv
  | bool b | int k | float x => simp only [BinaryOp.apply, Value.number?, BinaryOp.onSequences, hcount]

theorem repeat_tuple_of_integer (vs : List Value) {w : Value} {n : Int64} (hw : w.number? = some (.int n)) :
    BinaryOp.mul.apply (.tuple vs) w = Value.tuple <$> repeatItems vs n := by
  have hcount : w.count? = some n := by simp only [Value.count?, hw]
  cases w with
  | str s | tuple items => cases hw
  | bool b | int k | float x => simp only [BinaryOp.apply, Value.number?, BinaryOp.onSequences, hcount]

theorem runAll_replicate {items : List Lowered} {vs : List Value} (h : Lowered.runAll items row = .ok vs) (n : Nat) :
    Lowered.runAll (List.replicate n items).flatten row = .ok (List.replicate n vs).flatten := by
  induction n with
  | zero => rfl
  | succ n ih =>
    rw [List.replicate_succ, List.flatten_cons, Lowered.runAll_append, h, ih, List.replicate_succ,
      List.flatten_cons]
    rfl

/-- Copies of items run like the items, if there is a copy at all. -/
theorem runAll_replicate_succ (items : List Lowered) (n : Nat) :
    Lowered.runAll (List.replicate (n + 1) items).flatten row =
      Lowered.runAll items row >>= fun vs => .ok (List.replicate (n + 1) vs).flatten := by
  cases h : Lowered.runAll items row with
  | ok vs => exact runAll_replicate h (n + 1)
  | error r =>
    rw [List.replicate_succ, List.flatten_cons, Lowered.runAll_append, h]
    rfl

theorem mem_of_mem_replicate_flatten {α : Type} {n : Nat} {xs : List α} {x : α}
    (h : x ∈ (List.replicate n xs).flatten) : x ∈ xs := by
  rw [List.mem_flatten] at h
  obtain ⟨ys, hys, hx⟩ := h
  rwa [List.eq_of_mem_replicate hys] at hx

theorem honest_replicate {items : List Lowered} {traits : Traits}
    (h : (Lowered.tuple items traits).Honest row) (n : Nat) :
    (Lowered.tuple (List.replicate n items).flatten ⟨traits.infallible, none⟩).Honest row := by
  refine Lowered.honest_tuple ?_ fun hinf => ?_
  · rw [Lowered.allHonest_iff]
    exact fun x hx => Lowered.allHonest_iff.1 h.2 x (mem_of_mem_replicate_flatten hx)
  · obtain ⟨vs, hvs⟩ := Lowered.exists_runAll_of_infallible h hinf
    exact ⟨_, runAll_replicate hvs n⟩

/-- A repeated tuple.  Repeated no times, it does not run its items: their faults have to be excused. -/
theorem repeat_simulates {xs items : List Lowered} {s : Traits} {n : Int64}
    (h : Simulates excused row (.tuple xs s) y) (h' : Simulates excused row m z) (hn : m.constantInt? = some n)
    (hrep : repeatItems xs n = .ok items) (hdrop : n ≤ 0 → ∀ e, y = .error e → excused e) :
    Simulates excused row (.tuple items ⟨s.infallible, none⟩) (do let v ← y; let w ← z; BinaryOp.mul.apply v w) := by
  obtain ⟨k, hk, rfl⟩ := copies_of_repeatItems hrep
  refine ⟨honest_replicate h.honest k, agrees_map_left.2 ?_⟩
  obtain ⟨u, hu, hun⟩ := Lowered.run_of_constantInt? h'.honest hn
  have hcount := h'.agrees
  rw [hu] at hcount
  -- what the evaluator does once it has the items
  have hrest : ∀ vs, Lowered.runAll xs row = .ok vs →
      Agrees excused (fun ws v => Value.tuple ws = v) (.ok (List.replicate k vs).flatten)
        (z >>= fun w => BinaryOp.mul.apply (.tuple vs) w) := by
    intro vs hvs
    refine hcount.bind (f := fun _ => .ok (List.replicate k vs).flatten) fun u' w hu' huw => ?_
    cases hu'
    rw [← huw, repeat_tuple_of_integer vs hun,
      repeatItems_of_copies (n := k) (by rw [Lowered.length_of_runAll hvs]; exact hk)]
    exact .value rfl
  -- a copy runs the items as the evaluator does, and without one they are not run at all
  cases k with
  | succ k =>
    rw [runAll_replicate_succ]
    refine h.tuple.bind fun vs v hvs hv => ?_
    rw [← hv]
    exact hrest vs hvs
  | zero =>
    have hitems := h.tuple
    cases hr : Lowered.runAll xs row with
    | ok vs =>
      have hrun := hrest vs hr
      rw [hr] at hitems
      cases hitems with
      | value hv => rw [← hv]; exact hrun
      | excused _ he hd => exact .excused rfl he hd
    | error r =>
      have hne : xs ≠ [] := by
        rintro rfl
        cases hr
      have hle : n ≤ 0 := by
        rcases copies_eq_zero hk with hlen | hle
        · exact absurd (List.length_eq_zero_iff.1 hlen) hne
        · exact hle
      rw [hr] at hitems
      generalize y = y' at hitems hdrop
      cases hitems with
      | failure _ hd => exact .excused rfl (hdrop hle _ rfl) hd

/-! ### Operators on texts and tuples -/

theorem append_tuples_simulates {xs ys : List Lowered} {s t : Traits} (h : Simulates excused row (.tuple xs s) y)
    (h' : Simulates excused row (.tuple ys t) z) :
    Simulates excused row (.tuple (xs ++ ys) ⟨s.infallible && t.infallible, none⟩)
      (do let v ← y; let w ← z; BinaryOp.add.apply v w) := by
  have hagrees : Agrees excused (fun vs v => Value.tuple vs = v) (Lowered.runAll (xs ++ ys) row)
      (do let v ← y; let w ← z; BinaryOp.add.apply v w) := by
    rw [Lowered.runAll_append]
    refine h.tuple.bind fun vs v _ hv => h'.tuple.bind fun ws w _ hw => ?_
    rw [← hv, ← hw]
    exact .value rfl
  refine ⟨Lowered.honest_tuple ?_ fun hinf => ?_, agrees_map_left.2 hagrees⟩
  · rw [Lowered.allHonest_iff]
    intro x hx
    rcases List.mem_append.1 hx with hx | hx
    · exact Lowered.allHonest_iff.1 h.items x hx
    · exact Lowered.allHonest_iff.1 h'.items x hx
  · obtain ⟨hs, ht⟩ := Bool.and_eq_true_iff.1 hinf
    obtain ⟨vs, hvs⟩ := Lowered.exists_runAll_of_infallible h.honest hs
    obtain ⟨ws, hws⟩ := Lowered.exists_runAll_of_infallible h'.honest ht
    exact ⟨vs ++ ws, by rw [Lowered.runAll_append, hvs, hws]; rfl⟩

theorem sequences_simulates {op : BinaryOp} (h : Simulates excused row l y) (h' : Simulates excused row m z)
    (hdrop : ∀ items traits n, op = .mul → l = .tuple items traits → m.constantInt? = some n → n ≤ 0 →
      ∀ e, y = .error e → excused e)
    (hop : Lowered.sequences op l m = .ok out) :
    Simulates excused row out (do let v ← y; let w ← z; op.apply v w) := by
  unfold Lowered.sequences at hop
  split at hop
  · cases hop
    refine .computed (h.scalar.then₂ h'.scalar (fun _ _ => failsWith_ok _) ?_)
    rintro s t v w rfl rfl
    rfl
  · split at hop
    · next hm =>
      cases hop
      refine .computed (h.scalar.then₂ (h'.integer hm) repeatText_failsOnData ?_)
      rintro s n v w rfl hw
      exact repeat_text_of_integer s hw
    · cases hop
  · split at hop
    · next hl =>
      cases hop
      refine .computed ((h.integer hl).then₂ h'.scalar (fun n s => repeatText_failsOnData s n) ?_)
      rintro n s v w hv rfl
      exact integer_repeat_text s hv
    · cases hop
  · cases hop
    exact append_tuples_simulates h h'
  · split at hop
    · next n hn =>
      split at hop
      · next items hrep =>
        cases hop
        exact repeat_simulates h h' hn hrep (hdrop _ _ n rfl rfl hn)
      · cases hop
    · cases hop
  · cases hop

theorem binary_simulates {op : BinaryOp} (h : Simulates excused row l y) (h' : Simulates excused row m z)
    (hdrop : ∀ items traits n, op = .mul → l = .tuple items traits → m.constantInt? = some n → n ≤ 0 →
      ∀ e, y = .error e → excused e)
    (hop : Lowered.binary op l m = .ok out) :
    Simulates excused row out (do let v ← y; let w ← z; op.apply v w) := by
  unfold Lowered.binary at hop
  split at hop
  · next c d hl hm => exact integers_simulates h h' hl hm hop
  · next a b hint hl hm =>
    cases hop
    apply floats_simulates h h' hl hm
    cases a with
    | float c => exact Or.inl ⟨c, rfl⟩
    | int c =>
      cases b with
      | float d => exact Or.inr ⟨d, rfl⟩
      | int d => exact absurd rfl (hint c d rfl)
  · exact sequences_simulates h h' hdrop hop

/-! ### Subscripts -/

theorem at_tuple_of_integer (vs : List Value) {w : Value} {n : Int64} (hw : w.number? = some (.int n)) :
    (Value.tuple vs).at w = itemAt vs n := by
  have hcount : w.count? = some n := by simp only [Value.count?, hw]
  simp only [Value.at, hcount]

theorem at_text_of_integer (s : String) {w : Value} {n : Int64} (hw : w.number? = some (.int n)) :
    (Value.str s).at w = Value.str <$> charAt s n := by
  have hcount : w.count? = some n := by simp only [Value.count?, hw]
  simp only [Value.at, hcount]

theorem mem_iff_eq_or_mem_eraseIdx {α : Type} {xs : List α} {p : Nat} {x y : α} (h : xs[p]? = some x) :
    y ∈ xs ↔ y = x ∨ y ∈ xs.eraseIdx p := by
  obtain ⟨hp, hx⟩ := List.getElem?_eq_some_iff.1 h
  have hsplit : xs = xs.take p ++ x :: xs.drop (p + 1) := by
    rw [← hx, ← List.drop_eq_getElem_cons hp, List.take_append_drop]
  conv_lhs => rw [hsplit]
  rw [List.eraseIdx_eq_take_drop_succ]
  simp only [List.mem_append, List.mem_cons]
  tauto

theorem run_guarded (row : Row) (others : List Lowered) (k : Scalar) (c : Compute k.Carrier) (traits : Traits) :
    (Lowered.computed k (Compute.guarded (Lowered.checkAll others) c)).run row =
      Lowered.runAll others row >>= fun _ => (Lowered.scalar k c traits).run row := by
  change k.toValue <$> (((fun _ => ()) <$> Lowered.runAll others row) >>= fun _ => c row) = _
  cases Lowered.runAll others row <;> rfl

/-- The lowered item at a constant index fails exactly when some item of the tuple fails. -/
theorem pick_run {items : List Lowered} {n : Int64} {p : Nat} (hitems : Lowered.AllHonest row items)
    (hp : positionIn items.length n = some p) (hop : Lowered.pick items n = .ok out) :
    out.Honest row ∧
      (∀ vs, Lowered.runAll items row = .ok vs → ∃ v, vs[p]? = some v ∧ out.run row = .ok v) ∧
      (∀ v, out.run row = .ok v → ∃ vs, Lowered.runAll items row = .ok vs) := by
  simp only [Lowered.pick, hp] at hop
  split at hop
  · cases hop
  · next picked hpicked =>
    have hmem := fun l => mem_iff_eq_or_mem_eraseIdx (y := l) hpicked
    have hothers : Lowered.AllHonest row (items.eraseIdx p) := by
      rw [Lowered.allHonest_iff] at hitems ⊢
      exact fun l hl => hitems l ((hmem l).2 (Or.inr hl))
    have hhonest : picked.Honest row := Lowered.allHonest_iff.1 hitems picked ((hmem picked).2 (Or.inl rfl))
    -- all items have values once the picked one and the others have
    have hall : ∀ v ws, picked.run row = .ok v → Lowered.runAll (items.eraseIdx p) row = .ok ws →
        ∃ vs, Lowered.runAll items row = .ok vs := by
      intro v ws hv hws
      rw [Lowered.exists_runAll_iff]
      intro l hl
      rcases (hmem l).1 hl with rfl | hl
      · exact ⟨v, hv⟩
      · exact Lowered.exists_runAll_iff.1 ⟨ws, hws⟩ l hl
    split at hop
    · next hinf =>
      cases hop
      refine ⟨hhonest, fun vs hvs => Lowered.getElem?_of_runAll hvs hpicked, fun v hv => ?_⟩
      obtain ⟨ws, hws⟩ := Lowered.exists_runAll_of_all hothers hinf
      exact hall v ws hv hws
    · cases picked with
      | tuple xs traits => cases hop
      | scalar k c traits =>
        cases hop
        have hne := Lowered.runAll_ne_nonconforming hothers
        have hcne := hhonest.reliable.conforming
        have hrun := run_guarded row (items.eraseIdx p) k c traits
        refine ⟨Lowered.honest_computed ?_, fun vs hvs => ?_, fun v hv => ?_⟩
        · rw [hrun]
          cases hr : Lowered.runAll (items.eraseIdx p) row with
          | ok ws => exact hcne
          | error r =>
            rintro hc
            cases hc
            exact hne hr
        · obtain ⟨ws, hws⟩ := Lowered.exists_runAll_iff.2 fun l hl =>
            Lowered.exists_runAll_iff.1 ⟨vs, hvs⟩ l ((hmem l).2 (Or.inr hl))
          rw [hrun, hws]
          exact Lowered.getElem?_of_runAll hvs hpicked
        · rw [hrun] at hv
          cases hr : Lowered.runAll (items.eraseIdx p) row with
          | ok ws =>
            rw [hr] at hv
            exact hall v ws hv hr
          | error r => rw [hr] at hv; cases hv

theorem index_simulates (h : Simulates excused row l y) (h' : Simulates excused row m z)
    (hop : l.index m = .ok out) : Simulates excused row out (do let v ← y; let w ← z; v.at w) := by
  unfold Lowered.index at hop
  split at hop
  · next items traits =>
    split at hop
    · next n hn =>
      obtain ⟨u, hu, hun⟩ := Lowered.run_of_constantInt? h'.honest hn
      have hcount := h'.agrees
      rw [hu] at hcount
      cases hp : positionIn items.length n with
      | none => simp only [Lowered.pick, hp] at hop; cases hop
      | some p =>
        obtain ⟨hhonest, hvalue, hback⟩ := pick_run h.items hp hop
        refine ⟨hhonest, h.tuple.follow (fun vs v hvs hv => ?_) fun r hr hne => ?_⟩
        · obtain ⟨w, hw, hout⟩ := hvalue vs hvs
          rw [hout, ← hv]
          refine hcount.bind (f := fun _ => .ok w) fun u' w' hu' huw => ?_
          cases hu'
          rw [← huw, at_tuple_of_integer vs hun]
          simp only [itemAt, Lowered.length_of_runAll hvs, hp, Option.bind_some, hw]
          exact .value rfl
        · cases hout : out.run row with
          | ok v =>
            obtain ⟨vs, hvs⟩ := hback v hout
            rw [hr] at hvs
            cases hvs
          | error r' => exact ⟨r', fun hr' => hhonest.reliable.conforming (hr' ▸ hout), rfl⟩
    · cases hop
  · next c traits =>
    split at hop
    · next d hd =>
      cases hop
      refine .computed (h.scalar.then₂ (h'.integer hd) charAt_failsOnData ?_)
      rintro s n v w rfl hw
      exact at_text_of_integer s hw
    · cases hop
  · cases hop

end
end Millrace.FastPath
