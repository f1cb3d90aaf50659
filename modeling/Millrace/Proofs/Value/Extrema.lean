import Millrace.Lambda.Call
import Millrace.Proofs.Number.Transitivity
import Millrace.Proofs.Value.Standing

/-!
# Chains of values and extrema

Equality and the strict order of values are transitive, and an extremum is an extremum, wherever no two different
integers meet a float that both are rounded to (`SharpAt`): at the same position of the values for equality, and at the
same position inside tuples for the order (`order_of_sharp`).  Where they meet, three pairs can be ordered in a circle,
and the greatest of them is exceeded by another one (`circle_of_rounded`).
-/

namespace Millrace

namespace Value

/-! ### Positions -/

/-- The number at a position of a value: the path says which item to take of each tuple on the way. -/
def numberAt : List Nat → Value → Option Number
  | [], v => v.number?
  | i :: path, .tuple items => items[i]?.bind (numberAt path)
  | _ :: _, _ => none

/-- No two different integers at this position of the values are rounded to a float at this position. -/
def SharpAt (vs : List Value) (path : List Nat) : Prop :=
  Number.Sharp fun x => ∃ v ∈ vs, v.numberAt path = some x

section
variable {vs ws : List Value} {path path' : List Nat}

/-- Values whose numbers stand at a position of the others are sharp where the others are. -/
theorem SharpAt.of_positions (h : SharpAt vs path)
    (hws : ∀ w ∈ ws, ∃ v ∈ vs, ∀ x, w.numberAt path' = some x → v.numberAt path = some x) : SharpAt ws path' := by
  have hmem {x : Number} : (∃ w ∈ ws, w.numberAt path' = some x) → ∃ v ∈ vs, v.numberAt path = some x := by
    rintro ⟨w, hw, hx⟩
    obtain ⟨v, hv, hpositions⟩ := hws w hw
    exact ⟨v, hv, hpositions x hx⟩
  exact fun m n t hm hn ht => h m n t (hmem hm) (hmem hn) (hmem ht)

theorem SharpAt.mono (h : SharpAt vs path) (hws : ws ⊆ vs) : SharpAt ws path :=
  h.of_positions fun w hw => ⟨w, hws hw, fun _ hx => hx⟩

theorem sharpAt_heads (tuples : List (Value × List Value))
    (h : SharpAt (tuples.map fun t => .tuple (t.1 :: t.2)) (0 :: path)) : SharpAt (tuples.map Prod.fst) path := by
  refine h.of_positions fun w hw => ?_
  obtain ⟨t, ht, rfl⟩ := List.mem_map.1 hw
  exact ⟨_, List.mem_map_of_mem ht, fun _ hx => hx⟩

theorem sharpAt_tails (tuples : List (Value × List Value)) {i : Nat}
    (h : SharpAt (tuples.map fun t => .tuple (t.1 :: t.2)) ((i + 1) :: path)) :
    SharpAt (tuples.map fun t => .tuple t.2) (i :: path) := by
  refine h.of_positions fun w hw => ?_
  obtain ⟨t, ht, rfl⟩ := List.mem_map.1 hw
  exact ⟨_, List.mem_map_of_mem ht, fun _ hx => hx⟩

/-- A value that is no number has none at the empty path. -/
theorem sharpAt_nil (h : ∀ v ∈ vs, v.number? = none) : SharpAt vs [] := by
  rintro m n t ⟨v, hv, hm⟩
  rw [numberAt, h v hv] at hm
  cases hm

end

/-! ### Chains -/

section
variable {a b c : Value} {x y : Number} {o o₁ o₂ : Ordering}

theorem ofOrder_eq_ordered {r : Option Ordering} : Standing.ofOrder r = .ordered o ↔ r = some o := by
  cases r <;> simp [Standing.ofOrder]

theorem standing_of_numbers (ha : a.number? = some x) (hb : b.number? = some y) :
    a.standing b = .ofOrder (x.order y) := by
  cases a with
  | str s | tuple items => cases ha
  | bool _ | int _ | float _ =>
    cases b with
    | str s | tuple items => cases hb
    | bool _ | int _ | float _ =>
      cases ha
      cases hb
      rfl

/-- What is ordered with a number is a number. -/
theorem order_of_standing (ha : a.number? = some x) (h : a.standing b = .ordered o) :
    ∃ y, b.number? = some y ∧ x.order y = some o := by
  cases a with
  | str s | tuple items => cases ha
  | bool _ | int _ | float _ =>
    cases b with
    | str s | tuple items => cases h
    | bool _ | int _ | float _ =>
      cases ha
      exact ⟨_, rfl, ofOrder_eq_ordered.1 h⟩

/-- The first items decide if they are not equal, and otherwise what follows them. -/
theorem andThen_eq_ordered {s t : Standing} (h : s.andThen t = .ordered o) :
    s = .ordered .eq ∧ t = .ordered o ∨ s = .ordered o ∧ o ≠ .eq := by
  by_cases hs : s = .ordered .eq
  · subst hs
    exact Or.inl ⟨rfl, h⟩
  · rw [Standing.andThen_of_ne hs] at h
    refine Or.inr ⟨h, ?_⟩
    rintro rfl
    exact hs h

theorem compare_trans {α : Type} [LinearOrder α] {p q r : α} (hpq : compare p q = o₁) (hqr : compare q r = o₂)
    (h₁ : o₁ ≠ .gt) (h₂ : o₂ ≠ .gt) : compare p r = o₁.then o₂ := by
  cases o₁ with
  | gt => exact absurd rfl h₁
  | eq =>
    rw [compare_eq_iff_eq.1 hpq]
    exact hqr
  | lt =>
    cases o₂ with
    | gt => exact absurd rfl h₂
    | lt => exact compare_lt_iff_lt.2 ((compare_lt_iff_lt.1 hpq).trans (compare_lt_iff_lt.1 hqr))
    | eq =>
      rw [← compare_eq_iff_eq.1 hqr]
      exact hpq

theorem numbers_trans (h : SharpAt [a, b, c] []) (ha : a.number? = some x) (hab : a.standing b = .ordered o₁)
    (hbc : b.standing c = .ordered o₂) (h₁ : o₁ ≠ .gt) (h₂ : o₂ ≠ .gt) : a.standing c = .ordered (o₁.then o₂) := by
  obtain ⟨y, hb, hxy⟩ := order_of_standing ha hab
  obtain ⟨z, hc, hyz⟩ := order_of_standing hb hbc
  rw [standing_of_numbers ha hc, ofOrder_eq_ordered]
  exact Number.order_trans h ⟨a, by simp, ha⟩ ⟨b, by simp, hb⟩ ⟨c, by simp, hc⟩ hxy hyz h₁ h₂

end

mutual

/-- Equal and less compose in every order. -/
theorem standing_trans {o₁ o₂ : Ordering} : (a b c : Value) → (∀ path, SharpAt [a, b, c] path) →
    a.standing b = .ordered o₁ → b.standing c = .ordered o₂ → o₁ ≠ .gt → o₂ ≠ .gt →
    a.standing c = .ordered (o₁.then o₂)
  | .bool _, b, c | .int _, b, c | .float _, b, c => fun h hab hbc h₁ h₂ =>
    numbers_trans (h []) rfl hab hbc h₁ h₂
  | .str s, b, c => fun _ hab hbc h₁ h₂ => by
    cases b with
    | str s' =>
      cases c with
      | str s'' =>
        cases hab
        cases hbc
        exact congrArg Standing.ordered (compare_trans rfl rfl h₁ h₂)
      | _ => cases hbc
    | _ => cases hab
  | .tuple xs, b, c => fun h hab hbc h₁ h₂ => by
    cases b with
    | tuple ys =>
      cases c with
      | tuple zs =>
        rw [standing] at *
        exact standingAll_trans xs ys zs h hab hbc h₁ h₂
      | _ => cases hbc
    | _ => cases hab

theorem standingAll_trans {o₁ o₂ : Ordering} : (xs ys zs : List Value) →
    (∀ path, SharpAt [.tuple xs, .tuple ys, .tuple zs] path) → standingAll xs ys = .ordered o₁ →
    standingAll ys zs = .ordered o₂ → o₁ ≠ .gt → o₂ ≠ .gt → standingAll xs zs = .ordered (o₁.then o₂)
  | x :: xs, y :: ys, z :: zs => fun h hxy hyz h₁ h₂ => by
    have hheads (path : List Nat) : SharpAt [x, y, z] path :=
      sharpAt_heads [(x, xs), (y, ys), (z, zs)] (h (0 :: path))
    have htails (path : List Nat) : SharpAt [.tuple xs, .tuple ys, .tuple zs] path := by
      cases path with
      | nil => exact sharpAt_nil (by simp [number?])
      | cons i path => exact sharpAt_tails [(x, xs), (y, ys), (z, zs)] (h ((i + 1) :: path))
    rw [standingAll] at *
    rcases andThen_eq_ordered hxy with ⟨hx, hxs⟩ | ⟨hx, hne⟩ <;>
      rcases andThen_eq_ordered hyz with ⟨hy, hys⟩ | ⟨hy, hne'⟩
    · rw [standing_trans x y z hheads hx hy (by decide) (by decide)]
      exact standingAll_trans xs ys zs htails hxs hys h₁ h₂
    · rw [standing_trans x y z hheads hx hy (by decide) h₂]
      cases o₂ with
      | eq => exact absurd rfl hne'
      | gt => exact absurd rfl h₂
      | lt => cases o₁ <;> first | rfl | exact absurd rfl h₁
    · rw [standing_trans x y z hheads hx hy h₁ (by decide)]
      cases o₁ with
      | eq => exact absurd rfl hne
      | gt => exact absurd rfl h₁
      | lt => rfl
    · rw [standing_trans x y z hheads hx hy h₁ h₂]
      cases o₁ with
      | eq => exact absurd rfl hne
      | gt => exact absurd rfl h₁
      | lt => rfl
  | [], [], zs => fun _ hxy hyz _ _ => by
    cases hxy
    exact hyz
  | [], y :: ys, [] => fun _ _ hyz _ h₂ => by
    cases hyz
    exact absurd (compare_gt_iff_gt.2 (Nat.succ_pos _)) h₂
  | [], y :: ys, z :: zs => fun _ hxy _ _ _ => by
    have hshorter (n : Nat) : compare 0 (n + 1) = .lt := compare_lt_iff_lt.2 (Nat.succ_pos n)
    have hlt : o₁ = .lt := (Standing.ordered.inj hxy).symm.trans (hshorter ys.length)
    rw [hlt]
    exact congrArg Standing.ordered (hshorter zs.length)
  | x :: xs, [], zs => fun _ hxy hyz h₁ h₂ => by
    cases hxy
    exact absurd (compare_gt_iff_gt.2 (Nat.succ_pos _)) h₁
  | x :: xs, y :: ys, [] => fun _ hxy hyz h₁ h₂ => by
    cases hyz
    exact absurd (compare_gt_iff_gt.2 (Nat.succ_pos _)) h₂

end

/-! ### Extrema -/

section
variable {vs : List Value} {a b c : Value}

theorem apply_lt_iff : CompareOp.lt.apply a b = .ok true ↔ a.standing b = .ordered .lt := by
  rw [apply_eq]
  cases a.standing b with
  | ordered o => cases o <;> simp [Standing.answer, CompareOp.test]
  | apart | unordered => simp [Standing.answer, fault]

theorem apply_gt_iff : CompareOp.gt.apply a b = .ok true ↔ b.standing a = .ordered .lt := by
  rw [apply_eq, standing_swap a b]
  cases a.standing b with
  | ordered o => cases o <;> simp [Standing.answer, Standing.swap, CompareOp.test]
  | apart | unordered => simp [Standing.answer, Standing.swap, fault]

/-- What is ordered with a value that is no number is no number. -/
theorem not_number_of_standing {o : Ordering} (ha : a.number? = none) (h : a.standing b = .ordered o) :
    b.number? = none := by
  cases hb : b.number? with
  | none => rfl
  | some y =>
    have hback : b.standing a = .ordered o.swap := by rw [standing_swap a b, h, Standing.swap]
    obtain ⟨x, hx, -⟩ := order_of_standing hb hback
    rw [ha] at hx
    cases hx

/-- The strict order of values is transitive where tuples are sharp inside.  Two numbers by themselves need not be. -/
theorem standing_lt_trans (h : ∀ path, path ≠ [] → SharpAt [a, b, c] path) (hab : a.standing b = .ordered .lt)
    (hbc : b.standing c = .ordered .lt) : a.standing c = .ordered .lt := by
  cases ha : a.number? with
  | some x =>
    obtain ⟨y, hb, hxy⟩ := order_of_standing ha hab
    obtain ⟨z, hc, hyz⟩ := order_of_standing hb hbc
    rw [standing_of_numbers ha hc, Number.order_lt_trans hxy hyz]
    rfl
  | none =>
    have hb := not_number_of_standing ha hab
    have hc := not_number_of_standing hb hbc
    refine standing_trans a b c (fun path => ?_) hab hbc (by decide) (by decide)
    cases path with
    | nil => exact sharpAt_nil (by simp [ha, hb, hc])
    | cons i path => exact h (i :: path) (List.cons_ne_nil i path)

/-- The search for an extremum takes `v` in place of `best`. -/
def Beats (f : Extremum) (v best : Value) : Prop := f.better.apply v best = .ok true

section
variable {f : Extremum}

theorem beats_trans (h : ∀ path, path ≠ [] → SharpAt vs path) (ha : a ∈ vs) (hb : b ∈ vs) (hc : c ∈ vs)
    (hab : Beats f a b) (hbc : Beats f b c) : Beats f a c := by
  cases f with
  | min =>
    refine apply_lt_iff.2 (standing_lt_trans (fun path hpath => ?_) (apply_lt_iff.1 hab) (apply_lt_iff.1 hbc))
    exact (h path hpath).mono (by simp [ha, hb, hc])
  | max =>
    refine apply_gt_iff.2 (standing_lt_trans (fun path hpath => ?_) (apply_gt_iff.1 hbc) (apply_gt_iff.1 hab))
    exact (h path hpath).mono (by simp [ha, hb, hc])

theorem not_beats_self : ¬ Beats f a a := by
  have hself : a.standing a ≠ .ordered .lt := by
    intro hlt
    have hswap := standing_swap a a
    rw [hlt] at hswap
    cases hswap
  cases f with
  | min => exact fun h => hself (apply_lt_iff.1 h)
  | max => exact fun h => hself (apply_gt_iff.1 h)

/-- The search ends with a value that is the first one or beats it, and that nothing beats. -/
theorem among_spec (h : ∀ path, path ≠ [] → SharpAt vs path)
    (hcompare : ∀ a ∈ vs, ∀ b ∈ vs, ∃ r, f.better.apply a b = .ok r) {best : Value} {items : List Value}
    (hbest : best ∈ vs) (hitems : items ⊆ vs) :
    ∃ r ∈ best :: items, f.among best items = .ok r ∧ (r = best ∨ Beats f r best) ∧
      ∀ v ∈ best :: items, ¬ Beats f v r := by
  induction items generalizing best with
  | nil => exact ⟨best, List.mem_cons_self, rfl, Or.inl rfl, fun v hv => List.mem_singleton.1 hv ▸ not_beats_self⟩
  | cons v rest ih =>
    have hv : v ∈ vs := hitems List.mem_cons_self
    have hrest : rest ⊆ vs := fun w hw => hitems (List.mem_cons_of_mem v hw)
    obtain ⟨taken, htaken⟩ := hcompare v hv best hbest
    cases taken with
    | true =>
      obtain ⟨r, hr, hamong, hfirst, hnone⟩ := ih hv hrest
      have hmem : r ∈ vs := List.cons_subset.2 ⟨hv, hrest⟩ hr
      have hbeats : Beats f r best := by
        rcases hfirst with rfl | hrv
        · exact htaken
        · exact beats_trans h hmem hv hbest hrv htaken
      refine ⟨r, List.mem_cons_of_mem _ hr, ?_, Or.inr hbeats, ?_⟩
      · rw [Extremum.among, htaken]
        exact hamong
      · intro w hw hwr
        rcases List.mem_cons.1 hw with rfl | hw
        · exact not_beats_self (beats_trans h hbest hmem hbest hwr hbeats)
        · exact hnone w hw hwr
    | false =>
      obtain ⟨r, hr, hamong, hfirst, hnone⟩ := ih hbest hrest
      have hmem : r ∈ vs := List.cons_subset.2 ⟨hbest, hrest⟩ hr
      have hloses : ¬ Beats f v best := by
        rw [Beats, htaken]
        exact fun h => nomatch h
      refine ⟨r, ?_, ?_, hfirst, ?_⟩
      · rcases List.mem_cons.1 hr with rfl | hr
        · exact List.mem_cons_self
        · exact List.mem_cons_of_mem _ (List.mem_cons_of_mem _ hr)
      · rw [Extremum.among, htaken]
        exact hamong
      · intro w hw hwr
        rcases List.mem_cons.1 hw with rfl | hw
        · exact hnone w List.mem_cons_self hwr
        · rcases List.mem_cons.1 hw with rfl | hw
          · rcases hfirst with rfl | hbeats
            · exact hloses hwr
            · exact hloses (beats_trans h hv hmem hbest hwr hbeats)
          · exact hnone w (List.mem_cons_of_mem _ hw) hwr

end
end

/-! ### Where the laws hold, and where not -/

/-- Equality is transitive on sharp values.  Where tuples are sharp inside, the strict order is transitive, and the
extremum of values that can be compared is one of them that none of them is better than. -/
theorem order_of_sharp {vs : List Value} (h : ∀ path, path ≠ [] → SharpAt vs path) :
    (SharpAt vs [] → ∀ a ∈ vs, ∀ b ∈ vs, ∀ c ∈ vs, a.equals b = true → b.equals c = true → a.equals c = true) ∧
      (∀ a ∈ vs, ∀ b ∈ vs, ∀ c ∈ vs, CompareOp.lt.apply a b = .ok true → CompareOp.lt.apply b c = .ok true →
        CompareOp.lt.apply a c = .ok true) ∧
      ∀ f : Extremum, vs ≠ [] → (∀ a ∈ vs, ∀ b ∈ vs, ∃ r, f.better.apply a b = .ok r) →
        ∃ best ∈ vs, f.apply [.tuple vs] = .ok best ∧ (2 ≤ vs.length → f.apply vs = .ok best) ∧
          ∀ v ∈ vs, f.better.apply v best = .ok false := by
  refine ⟨fun htop a ha b hb c hc hab hbc => ?_, fun a ha b hb c hc hab hbc => ?_, fun f hne hcompare => ?_⟩
  · have hsharp (path : List Nat) : SharpAt [a, b, c] path := by
      have hmem : [a, b, c] ⊆ vs := by simp [ha, hb, hc]
      by_cases hpath : path = []
      · exact hpath ▸ htop.mono hmem
      · exact (h path hpath).mono hmem
    rw [equals_iff] at *
    exact standing_trans a b c hsharp hab hbc (by decide) (by decide)
  · rw [apply_lt_iff] at *
    exact standing_lt_trans (fun path hpath => (h path hpath).mono (by simp [ha, hb, hc])) hab hbc
  · cases vs with
    | nil => exact absurd rfl hne
    | cons first rest =>
      obtain ⟨best, hbest, hamong, -, hnone⟩ :=
        among_spec h hcompare List.mem_cons_self (fun v hv => List.mem_cons_of_mem first hv)
      refine ⟨best, hbest, hamong, fun htwo => ?_, fun v hv => ?_⟩
      · cases rest with
        | nil => exact absurd htwo (Nat.lt_irrefl 1)
        | cons second rest => simpa only [Extremum.apply] using hamong
      · obtain ⟨r, hr⟩ := hcompare v hv best hbest
        cases r with
        | false => exact hr
        | true => exact absurd hr (hnone v hv)

/-- The pair of a number and a small integer, the second item to be compared. -/
def ranked (v : Value) (n : Int64) : Value := .tuple [v, .int n]

theorem standing_ranked {a b : Value} {m n : Int64} {o : Ordering} (h : a.standing b = .ordered o) :
    (ranked a m).standing (ranked b n) = .ordered (o.then (compare m.toInt n.toInt)) := by
  simp only [ranked, standing, standingAll, h, number?, Number.order, Standing.ofOrder]
  cases o with
  | lt | gt => rfl
  | eq =>
    rw [Standing.andThen, Ordering.eq_then]
    cases compare m.toInt n.toInt <;> rfl

/-- Two integers that are rounded to one float are equal to it and not to each other.  Pairs with them and the float in
front are ordered in a circle, and the greatest of the three is exceeded by the first. -/
theorem circle_of_rounded {m n : Int64} {t : Double} (hmn : m.toInt < n.toInt)
    (hm : (Number.int m).order (.float t) = some .eq) (hn : (Number.int n).order (.float t) = some .eq) :
    ((int m).equals (.float t) = true ∧ (float t).equals (.int n) = true ∧ (int m).equals (.int n) = false) ∧
      (CompareOp.lt.apply (ranked (.int n) 1) (ranked (.float t) 2) = .ok true ∧
        CompareOp.lt.apply (ranked (.float t) 2) (ranked (.int m) 3) = .ok true ∧
        CompareOp.lt.apply (ranked (.int n) 1) (ranked (.int m) 3) = .ok false) ∧
      Extremum.max.apply [ranked (.int n) 1, ranked (.float t) 2, ranked (.int m) 3] = .ok (ranked (.int m) 3) ∧
      CompareOp.gt.apply (ranked (.int n) 1) (ranked (.int m) 3) = .ok true := by
  have hmt : (int m).standing (.float t) = .ordered .eq := ofOrder_eq_ordered.2 hm
  have hnt : (int n).standing (.float t) = .ordered .eq := ofOrder_eq_ordered.2 hn
  have htm : (float t).standing (.int m) = .ordered .eq := by rw [standing_swap (.int m), hmt]; rfl
  have htn : (float t).standing (.int n) = .ordered .eq := by rw [standing_swap (.int n), hnt]; rfl
  have hlt : (int m).standing (.int n) = .ordered .lt := ofOrder_eq_ordered.2 (Number.order_int_eq_lt.2 hmn)
  have hne : (int m).equals (.int n) ≠ true := by
    rw [ne_eq, equals_iff, hlt]
    exact fun h => nomatch h
  have hfirst : (ranked (.int n) 1).standing (ranked (.float t) 2) = .ordered .lt := standing_ranked hnt
  have hsecond : (ranked (.float t) 2).standing (ranked (.int m) 3) = .ordered .lt := standing_ranked htm
  have hthird : (ranked (.int m) 3).standing (ranked (.int n) 1) = .ordered .lt := standing_ranked hlt
  refine ⟨⟨(equals_iff _ _).2 hmt, (equals_iff _ _).2 htn, Bool.eq_false_iff.2 hne⟩,
    ⟨apply_lt_iff.2 hfirst, apply_lt_iff.2 hsecond, ?_⟩, ?_, apply_gt_iff.2 hthird⟩
  · rw [apply_eq, standing_swap (ranked (.int m) 3), hthird]
    rfl
  · have hgreater : Extremum.max.better.apply (ranked (.float t) 2) (ranked (.int n) 1) = .ok true :=
      apply_gt_iff.2 hfirst
    have hgreatest : Extremum.max.better.apply (ranked (.int m) 3) (ranked (.float t) 2) = .ok true :=
      apply_gt_iff.2 hsecond
    change Extremum.max.among (ranked (.int n) 1) [ranked (.float t) 2, ranked (.int m) 3] = _
    rw [Extremum.among, hgreater]
    change Extremum.max.among (ranked (.float t) 2) [ranked (.int m) 3] = _
    rw [Extremum.among, hgreatest]
    rfl

/-- The float `2 ^ 53`, from which on not every integer has a float of its own. -/
def wide : Double := ⟨0x4340000000000000⟩

/-- The laws fail at `2 ^ 53`, a number that is not nan: as an integer and as a float it is equal to itself, and the
float is equal to the next integer as well. -/
theorem max_exceeded :
    (wide == wide) = true ∧
      ((int 9007199254740992).equals (.float wide) = true ∧ (float wide).equals (.int 9007199254740993) = true ∧
        (int 9007199254740992).equals (.int 9007199254740993) = false) ∧
      (CompareOp.lt.apply (ranked (.int 9007199254740993) 1) (ranked (.float wide) 2) = .ok true ∧
        CompareOp.lt.apply (ranked (.float wide) 2) (ranked (.int 9007199254740992) 3) = .ok true ∧
        CompareOp.lt.apply (ranked (.int 9007199254740993) 1) (ranked (.int 9007199254740992) 3) = .ok false) ∧
      Extremum.max.apply [ranked (.int 9007199254740993) 1, ranked (.float wide) 2, ranked (.int 9007199254740992) 3] =
        .ok (ranked (.int 9007199254740992) 3) ∧
      CompareOp.gt.apply (ranked (.int 9007199254740993) 1) (ranked (.int 9007199254740992) 3) = .ok true :=
  ⟨by rfl, circle_of_rounded (by decide) (by rfl) (by rfl)⟩

/-- Pairs with two integers that share their float, where no float is at the same position. -/
def sharedFloat : List Value :=
  [.tuple [.int 9007199254740992, .int 2], .tuple [.int 9007199254740993, .float ⟨0x3FE0000000000000⟩],
    .tuple [.int 9007199254740993, .int 2]]

theorem mem_sharedFloat {v : Value} :
    v ∈ sharedFloat ↔ v = .tuple [.int 9007199254740992, .int 2] ∨
      v = .tuple [.int 9007199254740993, .float ⟨0x3FE0000000000000⟩] ∨
      v = .tuple [.int 9007199254740993, .int 2] := by
  simp only [sharedFloat, List.mem_cons, List.not_mem_nil, or_false]

theorem sharpAt_sharedFloat : (path : List Nat) → SharpAt sharedFloat path
  | [] => sharpAt_nil fun v hv => by rcases mem_sharedFloat.1 hv with rfl | rfl | rfl <;> rfl
  | [0] => by
    -- the first items are integers
    rintro m n t - - ⟨v, hv, ht⟩
    rcases mem_sharedFloat.1 hv with rfl | rfl | rfl <;> cases ht
  | [1] => by
    -- the only integer among the second items is 2
    have htwo {v : Value} {k : Int64} (hv : v ∈ sharedFloat) (hk : v.numberAt [1] = some (.int k)) : k = 2 := by
      rcases mem_sharedFloat.1 hv with rfl | rfl | rfl <;> cases hk <;> rfl
    rintro m n t ⟨v, hv, hm⟩ ⟨w, hw, hn⟩ -
    exact fun _ _ => (htwo hv hm).trans (htwo hw hn).symm
  | 0 :: _ :: _ | 1 :: _ :: _ | (_ + 2) :: _ => by
    rintro m n t - - ⟨v, hv, ht⟩
    rcases mem_sharedFloat.1 hv with rfl | rfl | rfl <;> cases ht

/-- The greatest of pairs with integers that share their float is found, and it is not the first one. -/
theorem order_of_sharp_sharedFloat :
    (∀ path, path ≠ [] → SharpAt sharedFloat path) ∧
      (∀ a ∈ sharedFloat, ∀ b ∈ sharedFloat, ∃ r, CompareOp.gt.apply a b = .ok r) ∧
      ∃ best ∈ sharedFloat, Extremum.max.apply sharedFloat = .ok best ∧
        ∀ v ∈ sharedFloat, CompareOp.gt.apply v best = .ok false := by
  have hcompare : ∀ a ∈ sharedFloat, ∀ b ∈ sharedFloat, ∃ r, CompareOp.gt.apply a b = .ok r := by
    intro a ha b hb
    rcases mem_sharedFloat.1 ha with rfl | rfl | rfl <;> rcases mem_sharedFloat.1 hb with rfl | rfl | rfl <;>
      exact ⟨_, rfl⟩
  obtain ⟨best, hbest, -, hmax, hnone⟩ :=
    (order_of_sharp fun path _ => sharpAt_sharedFloat path).2.2 .max (List.cons_ne_nil _ _) hcompare
  exact ⟨fun path _ => sharpAt_sharedFloat path, hcompare, best, hbest, hmax (by decide), hnone⟩

end Value
end Millrace
