import Mathlib.Data.List.Basic
import Mathlib.Data.List.Induction
import Mathlib.Tactic.Ring
import Millrace.Number.Digits

/-!
# Lists of digits

A list of digits denotes a number below the power of ten with as many zeros (`toNat_lt`), and one that does not start
with a zero denotes at least the power of ten before that (`pow_le_toNat`).  So it is the list of digits of its number
(`ofNat_toNat`), and its length tells between which powers of ten the number lies (`length_ofNat_iff`).

## Main statements

* `value_chars`: reading digits inverts writing them.
* `ofNat_toNat`: writing digits inverts reading them.
-/

namespace Millrace.Digits

theorem ofChar?_digitChar : ∀ d < 10, ofChar? (Nat.digitChar d) = some d := by decide

theorem isDigit_digitChar : ∀ d < 10, (Nat.digitChar d).isDigit = true := by decide

theorem ofNat_ne_nil (n : Nat) : ofNat n ≠ [] := by
  rw [ofNat]
  split
  · exact List.cons_ne_nil _ _
  · exact List.concat_ne_nil _ _

theorem lt_ten_of_mem_ofNat {n d : Nat} (h : d ∈ ofNat n) : d < 10 := by
  fun_induction ofNat n with
  | case1 n hn =>
    obtain rfl := List.mem_singleton.1 h
    exact hn
  | case2 n hn ih =>
    obtain hfront | hlast := List.mem_append.1 h
    · exact ih hfront
    · obtain rfl := List.mem_singleton.1 hlast
      exact Nat.mod_lt n (by decide)

section
variable {ds es : List Nat} {n k : Nat}

theorem isDigit_of_mem_chars (hds : ∀ d ∈ ds, d < 10) {c : Char} (h : c ∈ chars ds) : c.isDigit = true := by
  obtain ⟨d, hd, rfl⟩ := List.mem_map.1 h
  exact isDigit_digitChar d (hds d hd)

theorem notMem_chars {c : Char} (hc : c.isDigit = false) (hds : ∀ d ∈ ds, d < 10) : c ∉ chars ds := by
  intro hmem
  rw [isDigit_of_mem_chars hds hmem] at hc
  exact absurd hc (by decide)

theorem notMem_text {c : Char} (hc : c.isDigit = false) (n : Nat) : c ∉ (text n).toList := by
  rw [text, String.toList_ofList]
  exact notMem_chars hc fun _ => lt_ten_of_mem_ofNat

/-- The text of an integer has nothing but digits and a minus sign. -/
theorem notMem_signed {c : Char} (hc : c.isDigit = false) (hminus : c ≠ '-') (n : Int) : c ∉ (signed n).toList := by
  rw [signed]
  split
  · simpa [hminus] using notMem_text hc n.natAbs
  · exact notMem_text hc n.natAbs

theorem chars_append_singleton (ds : List Nat) (d : Nat) : chars (ds ++ [d]) = chars ds ++ [Nat.digitChar d] :=
  List.map_append

/-- Reading digits gives the number that they denote. -/
theorem value_chars (hds : ∀ d ∈ ds, d < 10) : value (chars ds) = toNat ds := by
  have hread : (chars ds).filterMap ofChar? = ds := by
    rw [chars, List.filterMap_map]
    refine (List.filterMap_congr fun d hd => ?_).trans List.filterMap_some
    exact ofChar?_digitChar d (hds d hd)
  rw [value, hread]

/-! ### The number that digits denote -/

theorem foldl_digits (ds : List Nat) (n : Nat) :
    ds.foldl (fun n d => 10 * n + d) n = n * 10 ^ ds.length + toNat ds := by
  induction ds using List.reverseRecOn with
  | nil => simp [toNat]
  | append_singleton ds d ih =>
    rw [toNat_append_singleton, List.foldl_append, List.foldl_cons, List.foldl_nil, ih, List.length_append,
      List.length_singleton, pow_succ]
    ring

theorem toNat_append (ds es : List Nat) : toNat (ds ++ es) = toNat ds * 10 ^ es.length + toNat es := by
  rw [toNat, List.foldl_append, foldl_digits]
  rfl

theorem toNat_cons (d : Nat) (ds : List Nat) : toNat (d :: ds) = d * 10 ^ ds.length + toNat ds := by
  rw [← List.singleton_append, toNat_append]
  simp [toNat]

theorem toNat_zeros (k : Nat) : toNat (List.replicate k 0) = 0 := by
  induction k with
  | zero => rfl
  | succ k ih => rw [List.replicate_succ, toNat_cons, ih, Nat.zero_mul]

theorem toNat_zeros_append (k : Nat) (ds : List Nat) : toNat (List.replicate k 0 ++ ds) = toNat ds := by
  rw [toNat_append, toNat_zeros, Nat.zero_mul, Nat.zero_add]

theorem toNat_lt (hds : ∀ d ∈ ds, d < 10) : toNat ds < 10 ^ ds.length := by
  induction ds with
  | nil => exact Nat.one_pos
  | cons d ds ih =>
    obtain ⟨hd, hrest⟩ := List.forall_mem_cons.1 hds
    have hlow := ih hrest
    rw [toNat_cons, List.length_cons, Nat.pow_succ]
    calc
      d * 10 ^ ds.length + toNat ds < (d + 1) * 10 ^ ds.length := by
        rw [Nat.succ_mul]
        omega
      _ ≤ 10 * 10 ^ ds.length := Nat.mul_le_mul_right _ hd
      _ = 10 ^ ds.length * 10 := Nat.mul_comm _ _

theorem pow_le_toNat {d : Nat} (hd : d ≠ 0) (ds : List Nat) : 10 ^ ds.length ≤ toNat (d :: ds) := by
  rw [toNat_cons]
  calc
    10 ^ ds.length = 1 * 10 ^ ds.length := (Nat.one_mul _).symm
    _ ≤ d * 10 ^ ds.length := Nat.mul_le_mul_right _ (Nat.one_le_iff_ne_zero.2 hd)
    _ ≤ d * 10 ^ ds.length + toNat ds := Nat.le_add_right _ _

/-! ### The digits of a number -/

theorem head?_ofNat (hn : n ≠ 0) : (ofNat n).head? ≠ some 0 := by
  fun_induction ofNat n with
  | case1 n hsmall => simpa using hn
  | case2 n hlarge ih =>
    obtain ⟨first, rest, hfront⟩ := List.exists_cons_of_ne_nil (ofNat_ne_nil (n / 10))
    rw [hfront] at ih ⊢
    exact ih (by omega)

/-- Digits that do not start with a zero are the digits of their number. -/
theorem ofNat_toNat (hne : ds ≠ []) (hds : ∀ d ∈ ds, d < 10) (hhead : ds.head? ≠ some 0) : ofNat (toNat ds) = ds := by
  induction ds using List.reverseRecOn with
  | nil => exact absurd rfl hne
  | append_singleton ds d ih =>
    have hd : d < 10 := hds d (by simp)
    rw [toNat_append_singleton, ofNat]
    cases ds with
    | nil => rw [if_pos (by simpa [toNat] using hd)]; simp [toNat]
    | cons first rest =>
      have hfirst : first ≠ 0 := fun h => hhead (congrArg some h)
      have hpos : 0 < toNat (first :: rest) := Nat.lt_of_lt_of_le (Nat.pow_pos (by decide)) (pow_le_toNat hfirst rest)
      have hfront := ih (List.cons_ne_nil _ _) (fun e he => hds e (List.mem_append_left _ he)) hhead
      have hdiv : (10 * toNat (first :: rest) + d) / 10 = toNat (first :: rest) := by omega
      have hmod : (10 * toNat (first :: rest) + d) % 10 = d := by omega
      rw [if_neg (by omega), hdiv, hmod, hfront]

theorem length_ofNat_iff (hn : n ≠ 0) : (ofNat n).length = k + 1 ↔ 10 ^ k ≤ n ∧ n < 10 ^ (k + 1) := by
  obtain ⟨first, rest, hdigits⟩ := List.exists_cons_of_ne_nil (ofNat_ne_nil n)
  have hfirst : first ≠ 0 := by
    have hhead := head?_ofNat hn
    rw [hdigits] at hhead
    exact fun h => hhead (congrArg some h)
  have hlow : 10 ^ rest.length ≤ n := by
    rw [← toNat_ofNat n, hdigits]
    exact pow_le_toNat hfirst rest
  have hhigh : n < 10 ^ (rest.length + 1) := by
    have hlt := toNat_lt fun d (hd : d ∈ ofNat n) => lt_ten_of_mem_ofNat hd
    rwa [toNat_ofNat, hdigits] at hlt
  rw [hdigits, List.length_cons, Nat.add_right_cancel_iff]
  constructor
  · rintro rfl
    exact ⟨hlow, hhigh⟩
  · rintro ⟨hle, hlt⟩
    have h1 := (Nat.pow_lt_pow_iff_right (a := 10) (by decide)).1 (Nat.lt_of_le_of_lt hlow hlt)
    have h2 := (Nat.pow_lt_pow_iff_right (a := 10) (by decide)).1 (Nat.lt_of_le_of_lt hle hhigh)
    omega

theorem ofNat_pow_ten (k : Nat) : ofNat (10 ^ k) = 1 :: List.replicate k 0 := by
  have hvalue : toNat (1 :: List.replicate k 0) = 10 ^ k := by
    rw [toNat_cons, toNat_zeros, List.length_replicate, Nat.one_mul, Nat.add_zero]
  rw [← hvalue]
  refine ofNat_toNat (List.cons_ne_nil _ _) (fun d hd => ?_) (by simp)
  obtain rfl | hd := List.mem_cons.1 hd
  · decide
  · rw [List.eq_of_mem_replicate hd]
    decide

end
end Millrace.Digits
