import Millrace.Proofs.Lambda.Utf8
import Millrace.Proofs.Pipeline.Distinct

/-!
# Faithful fingerprints

A hasher is fed a value in several writes: a tag, and then a word, or the bytes of a text and an end mark, or the number
of items and the writes of the items.  What follows a value in the bytes can be told from it (`bytes_append_inj`): the
tag says how to go on, words have eight bytes, no text holds the end mark, and a tuple says how many items follow.  So
two values give the same bytes only if they have the same bits, and none gives the beginning of what another gives.

Values are looked at as they are stored (`Stored`), with any 64 bits for a float, so that nans differ by their bits.

## Main statements

* `wordBytes_injective`: words.
* `bytes_append_inj`: the bytes of a value and what follows them.
* `fingerprint_faithful`: values, rows and their writes.
-/

namespace Millrace

/-- A value as it is stored: an integer and a float are words of 64 bits. -/
inductive Stored where
  | bool (b : Bool)
  | int (word : UInt64)
  | float (bits : UInt64)
  | str (s : String)
  | tuple (items : List Stored)

namespace Value

mutual

/-- How a value is stored. -/
def stored : Value → Stored
  | .bool b => .bool b
  | .int n => .int n.toUInt64
  | .float x => .float x.bits
  | .str s => .str s
  | .tuple items => .tuple (storedAll items)

/-- How several values are stored. -/
def storedAll : List Value → List Stored
  | [] => []
  | v :: rest => stored v :: storedAll rest

end

end Value

namespace Stored

mutual

/-- Whether two values have the same bits; items of tuples of one length are compared in pairs. -/
def same : Stored → Stored → Bool
  | .bool a, .bool b => a == b
  | .int a, .int b => a == b
  | .float a, .float b => a == b
  | .str a, .str b => a == b
  | .tuple as, .tuple bs => as.length == bs.length && samePairs as bs
  | _, _ => false

/-- Whether the values that stand at the same place in two lists have the same bits. -/
def samePairs : List Stored → List Stored → Bool
  | a :: as, b :: bs => same a b && samePairs as bs
  | _, _ => true

end

/-- Whether two rows have the same width and the same bits in every column. -/
def sameRow (r s : List Stored) : Bool := r.length == s.length && samePairs r s

mutual

/-- The writes that a hasher is fed for a value, each with its bytes. -/
def writes : Stored → List (List UInt8)
  | .bool b => [[0], [if b then 1 else 0]]
  | .int word => [[1], wordBytes word]
  | .float bits => [[2], wordBytes bits]
  | .str s => [[3], s.toUTF8.toList, [0xff]]
  | .tuple items => [4] :: wordBytes items.length.toUInt64 :: writesAll items

/-- The writes for several values, one after the other. -/
def writesAll : List Stored → List (List UInt8)
  | [] => []
  | v :: rest => writes v ++ writesAll rest

end

/-- The writes that a hasher is fed for a row. -/
def rowWrites (r : List Stored) : List (List UInt8) := wordBytes r.length.toUInt64 :: writesAll r

/-- The bytes of all writes for a value. -/
def bytes (v : Stored) : List UInt8 := v.writes.flatten

mutual

/-- The number of items of every tuple in the value fits into a word. -/
def Countable : Stored → Prop
  | .tuple items => items.length < 2 ^ 64 ∧ AllCountable items
  | _ => True

/-- Tuples in these values have no more items than a word can count. -/
def AllCountable : List Stored → Prop
  | [] => True
  | v :: rest => v.Countable ∧ AllCountable rest

end

/-! ### Values and how they are stored -/

mutual

theorem same_stored : (v w : Value) → v.stored.same w.stored = v.bitEq w
  | .bool _, w => by cases w <;> rfl
  | .int a, w => by
    cases w with
    | int b =>
      rw [Value.stored, Value.stored, same, Value.bitEq, Bool.eq_iff_iff, beq_iff_eq, beq_iff_eq]
      exact ⟨fun h => Int64.toBitVec_inj.1 (congrArg UInt64.toBitVec h), congrArg _⟩
    | _ => rfl
  | .float _, w => by cases w <;> rfl
  | .str _, w => by cases w <;> rfl
  | .tuple as, w => by
    cases w with
    | tuple bs => exact sameAll_stored as bs
    | _ => rfl

theorem sameAll_stored : (vs ws : List Value) → sameRow (Value.storedAll vs) (Value.storedAll ws) = Value.bitEqAll vs ws
  | [], ws => by cases ws <;> rfl
  | v :: vs, ws => by
    cases ws with
    | nil => rfl
    | cons w ws =>
      rw [Value.bitEqAll, ← same_stored v w, ← sameAll_stored vs ws]
      simp [Value.storedAll, sameRow, samePairs, Bool.and_left_comm]

end

theorem storedAll_eq_map (vs : List Value) : Value.storedAll vs = vs.map Value.stored := by
  induction vs with
  | nil => rfl
  | cons v rest ih => rw [Value.storedAll, ih, List.map_cons]

theorem length_storedAll (vs : List Value) : (Value.storedAll vs).length = vs.length := by
  rw [storedAll_eq_map, List.length_map]

mutual

theorem bytes_stored : (v : Value) → v.stored.bytes = v.fingerprint
  | .bool _ => rfl
  | .int _ | .float _ => by simp [bytes, Value.stored, writes, Value.fingerprint]
  | .str s => by simp [bytes, Value.stored, writes, Value.fingerprint]
  | .tuple items => by
    simp [bytes, Value.stored, writes, Value.fingerprint, length_storedAll, bytesAll_stored items]

theorem bytesAll_stored : (vs : List Value) → (writesAll (Value.storedAll vs)).flatten = Value.fingerprintAll vs
  | [] => rfl
  | v :: rest => by
    have hv : v.stored.writes.flatten = v.fingerprint := bytes_stored v
    rw [Value.storedAll, writesAll, List.flatten_append, hv, bytesAll_stored rest, Value.fingerprintAll]

end

theorem rowBytes_stored (r : Row) : (rowWrites (Value.storedAll r)).flatten = r.fingerprint := by
  simp [rowWrites, Row.fingerprint, length_storedAll, bytesAll_stored]

/-! ### Having the same bits -/

mutual

theorem same_iff : (v w : Stored) → (v.same w = true ↔ v = w)
  | .bool _, w => by cases w <;> simp [same]
  | .int _, w => by cases w <;> simp [same]
  | .float _, w => by cases w <;> simp [same]
  | .str _, w => by cases w <;> simp [same]
  | .tuple as, w => by
    cases w with
    | tuple bs =>
      have hrow : same (.tuple as) (.tuple bs) = sameRow as bs := rfl
      rw [hrow, sameRow_iff as bs, tuple.injEq]
    | _ => simp [same]

theorem sameRow_iff : (r s : List Stored) → (sameRow r s = true ↔ r = s)
  | [], s => by cases s <;> simp [sameRow, samePairs]
  | v :: r, s => by
    cases s with
    | nil => simp [sameRow]
    | cons w s =>
      have hstep : sameRow (v :: r) (w :: s) = true ↔ v.same w = true ∧ sameRow r s = true := by
        simp [sameRow, samePairs, and_left_comm]
      rw [hstep, same_iff v w, sameRow_iff r s, List.cons.injEq]

end

theorem same_equivalence : Equivalence fun v w : Stored => v.same w = true := by
  simp only [same_iff]
  exact eq_equivalence

/-! ### Words and texts -/

theorem toNat_byte (w : UInt64) {i : Nat} (hi : i < 8) :
    (w >>> (8 * i).toUInt64).toUInt8.toNat = w.toNat / 2 ^ (8 * i) % 2 ^ 8 := by
  have hshift : (8 * i).toUInt64.toNat % 64 = 8 * i := by
    rw [Nat.toUInt64_eq, UInt64.toNat_ofNat']
    omega
  rw [UInt64.toNat_toUInt8, UInt64.toNat_shiftRight, hshift, Nat.shiftRight_eq_div_pow]

theorem mod_eq_of_bytes {m n : Nat} (k : Nat) (h : ∀ i < k, m / 2 ^ (8 * i) % 2 ^ 8 = n / 2 ^ (8 * i) % 2 ^ 8) :
    m % 2 ^ (8 * k) = n % 2 ^ (8 * k) := by
  induction k with
  | zero => rw [Nat.mul_zero, Nat.pow_zero, Nat.mod_one, Nat.mod_one]
  | succ k ih =>
    have hlow := ih fun i hi => h i (Nat.lt_succ_of_lt hi)
    rw [Nat.mul_succ, Nat.pow_add, Nat.mod_mul, Nat.mod_mul, hlow, h k (Nat.lt_succ_self k)]

/-- A word is determined by its eight bytes. -/
theorem wordBytes_injective {v w : UInt64} (h : wordBytes v = wordBytes w) : v = w := by
  have hmod : v.toNat % 2 ^ (8 * 8) = w.toNat % 2 ^ (8 * 8) := by
    refine mod_eq_of_bytes 8 fun i hi => ?_
    rw [← toNat_byte v hi, ← toNat_byte w hi]
    exact congrArg UInt8.toNat (List.map_inj_left.1 h i (List.mem_range.2 hi))
  rw [Nat.mod_eq_of_lt v.toNat_lt, Nat.mod_eq_of_lt w.toNat_lt] at hmod
  exact UInt64.toNat_inj.1 hmod

theorem wordBytes_append_inj {v w : UInt64} {s t : List UInt8} (h : wordBytes v ++ s = wordBytes w ++ t) :
    v = w ∧ s = t := by
  obtain ⟨hword, hrest⟩ := List.append_inj h (by simp [wordBytes])
  exact ⟨wordBytes_injective hword, hrest⟩

theorem toList_loop (b : ByteArray) (i : Nat) (r : List UInt8) :
    ByteArray.toList.loop b i r = r.reverse ++ b.data.toList.drop i := by
  fun_induction ByteArray.toList.loop b i r with
  | case1 i r hi ih =>
    have hget : b.get! i = b.data.toList[i] := getElem!_pos b.data i hi
    rw [ih, List.drop_eq_getElem_cons hi, List.reverse_cons, List.append_assoc, hget]
    rfl
  | case2 i r hi =>
    rw [List.drop_eq_nil_of_le (Nat.le_of_not_lt hi), List.append_nil]

theorem toList_utf8 (s : String) : s.toUTF8.toList = Utf8.bytes s.toList := by
  rw [Utf8.bytes_toList, ByteArray.toList, toList_loop]
  rfl

/-- The bytes of a text are below the end mark. -/
theorem toNat_lt_of_mem_utf8 {c : Char} {b : UInt8} (hb : b ∈ String.utf8EncodeChar c) : b.toNat < 255 := by
  simp only [String.utf8EncodeChar] at hb
  split_ifs at hb with hascii <;> simp only [List.mem_cons, List.not_mem_nil, or_false] at hb
  · have hcode : c.toNat ≤ 127 := hascii
    subst hb
    simp
    omega
  · obtain rfl | rfl := hb <;> simp <;> omega
  · obtain rfl | rfl | rfl := hb <;> simp <;> omega
  · obtain rfl | rfl | rfl | rfl := hb <;> simp <;> omega

theorem endMark_notMem (s : String) : 0xff ∉ s.toUTF8.toList := by
  rw [toList_utf8, Utf8.bytes, List.mem_flatMap]
  rintro ⟨c, -, hmem⟩
  exact absurd (toNat_lt_of_mem_utf8 hmem) (by decide)

theorem eq_of_terminated {xs ys s t : List UInt8} {e : UInt8} (hx : e ∉ xs) (hy : e ∉ ys)
    (h : xs ++ e :: s = ys ++ e :: t) : xs = ys ∧ s = t := by
  induction xs generalizing ys with
  | nil =>
    cases ys with
    | nil => exact ⟨rfl, (List.cons.inj h).2⟩
    | cons y ys => exact absurd (List.cons.inj h).1 (List.ne_of_not_mem_cons hy)
  | cons x xs ih =>
    cases ys with
    | nil => exact absurd (List.cons.inj h).1.symm (List.ne_of_not_mem_cons hx)
    | cons y ys =>
      obtain ⟨hhead, htail⟩ := List.cons.inj h
      obtain ⟨hrest, hend⟩ := ih (List.not_mem_of_not_mem_cons hx) (List.not_mem_of_not_mem_cons hy) htail
      exact ⟨by rw [hhead, hrest], hend⟩

/-- The end mark tells where a text stops. -/
theorem text_append_inj {a b : String} {s t : List UInt8}
    (h : a.toUTF8.toList ++ 0xff :: s = b.toUTF8.toList ++ 0xff :: t) : a = b ∧ s = t := by
  obtain ⟨hbytes, hrest⟩ := eq_of_terminated (endMark_notMem a) (endMark_notMem b) h
  rw [toList_utf8, toList_utf8, Utf8.bytes_toList, Utf8.bytes_toList] at hbytes
  exact ⟨String.toByteArray_inj.1 (ByteArray.ext (Array.toList_inj.1 hbytes)), hrest⟩

/-! ### Bytes and what follows them -/

theorem bytes_int (word : UInt64) : (int word).bytes = 1 :: wordBytes word := by simp [bytes, writes]

theorem bytes_float (bits : UInt64) : (float bits).bytes = 2 :: wordBytes bits := by simp [bytes, writes]

theorem bytes_str (s : String) : (str s).bytes = 3 :: (s.toUTF8.toList ++ [0xff]) := by simp [bytes, writes]

theorem bytes_tuple (items : List Stored) :
    (tuple items).bytes = 4 :: (wordBytes items.length.toUInt64 ++ (writesAll items).flatten) := by
  simp [bytes, writes]

theorem length_inj {m n : Nat} (hm : m < 2 ^ 64) (hn : n < 2 ^ 64) (h : m.toUInt64 = n.toUInt64) : m = n := by
  have hnat := congrArg UInt64.toNat h
  rwa [Nat.toUInt64_eq, Nat.toUInt64_eq, UInt64.toNat_ofNat', UInt64.toNat_ofNat', Nat.mod_eq_of_lt hm,
    Nat.mod_eq_of_lt hn] at hnat

mutual

/-- What follows a value in the bytes can be told from it. -/
theorem bytes_append_inj : (v w : Stored) → v.Countable → w.Countable → (s t : List UInt8) →
    v.bytes ++ s = w.bytes ++ t → v = w ∧ s = t
  | .bool a, w, _, _, s, t, h => by
    cases w with
    | bool b =>
      obtain ⟨hbit, hrest⟩ := List.cons.inj (List.cons.inj h).2
      refine ⟨?_, hrest⟩
      cases a <;> cases b <;> simp_all
    | _ => simp [bytes, writes] at h
  | .int a, w, _, _, s, t, h => by
    cases w with
    | int b =>
      rw [bytes_int, bytes_int] at h
      obtain ⟨rfl, hrest⟩ := wordBytes_append_inj (List.cons.inj h).2
      exact ⟨rfl, hrest⟩
    | _ => simp [bytes, writes] at h
  | .float a, w, _, _, s, t, h => by
    cases w with
    | float b =>
      rw [bytes_float, bytes_float] at h
      obtain ⟨rfl, hrest⟩ := wordBytes_append_inj (List.cons.inj h).2
      exact ⟨rfl, hrest⟩
    | _ => simp [bytes, writes] at h
  | .str a, w, _, _, s, t, h => by
    cases w with
    | str b =>
      rw [bytes_str, bytes_str] at h
      simp only [List.cons_append, List.append_assoc, List.nil_append] at h
      obtain ⟨rfl, hrest⟩ := text_append_inj (List.cons.inj h).2
      exact ⟨rfl, hrest⟩
    | _ => simp [bytes, writes] at h
  | .tuple as, w, hv, hw, s, t, h => by
    cases w with
    | tuple bs =>
      rw [bytes_tuple, bytes_tuple] at h
      simp only [List.cons_append, List.append_assoc] at h
      obtain ⟨hlength, hitems⟩ := wordBytes_append_inj (List.cons.inj h).2
      obtain ⟨rfl, hrest⟩ :=
        bytesAll_append_inj as bs (length_inj hv.1 hw.1 hlength) hv.2 hw.2 s t hitems
      exact ⟨rfl, hrest⟩
    | _ => simp [bytes, writes] at h

theorem bytesAll_append_inj : (vs ws : List Stored) → vs.length = ws.length → AllCountable vs → AllCountable ws →
    (s t : List UInt8) → (writesAll vs).flatten ++ s = (writesAll ws).flatten ++ t → vs = ws ∧ s = t
  | [], ws, hlength, _, _, s, t, h => by
    obtain rfl := List.eq_nil_of_length_eq_zero hlength.symm
    exact ⟨rfl, h⟩
  | v :: vs, ws, hlength, hvs, hws, s, t, h => by
    cases ws with
    | nil => exact nomatch hlength
    | cons w ws =>
      simp only [writesAll, List.flatten_append, List.append_assoc] at h
      obtain ⟨rfl, hrest⟩ := bytes_append_inj v w hvs.1 hws.1 _ _ h
      obtain ⟨rfl, hend⟩ := bytesAll_append_inj vs ws (Nat.succ.inj hlength) hvs.2 hws.2 s t hrest
      exact ⟨rfl, hend⟩

end

section
variable {v w : Stored} {r s : List Stored}

theorem eq_of_isPrefix_bytes (hv : v.Countable) (hw : w.Countable) (h : v.bytes <+: w.bytes) : v = w := by
  obtain ⟨rest, hrest⟩ := h
  refine (bytes_append_inj v w hv hw rest [] ?_).1
  rw [hrest, List.append_nil]

theorem eq_of_isPrefix_writes (hv : v.Countable) (hw : w.Countable) (h : v.writes <+: w.writes) : v = w := by
  obtain ⟨rest, hrest⟩ := h
  refine eq_of_isPrefix_bytes hv hw ⟨rest.flatten, ?_⟩
  rw [bytes, bytes, ← hrest, List.flatten_append]

/-- The bytes of a row are those of the tuple with its columns, without the tag. -/
theorem row_eq_of_bytes (hr : (tuple r).Countable) (hs : (tuple s).Countable)
    (h : (rowWrites r).flatten = (rowWrites s).flatten) : r = s := by
  have hbytes (items : List Stored) : (tuple items).bytes = 4 :: (rowWrites items).flatten := bytes_tuple items
  have htuple : (tuple r).bytes = (tuple s).bytes := by rw [hbytes, hbytes, h]
  exact tuple.inj (eq_of_isPrefix_bytes hr hs (htuple ▸ List.prefix_rfl))

/-- Two values give a hasher the same writes exactly if they have the same bits, and no value gives a beginning of what
another one gives; likewise for the bytes of the writes.  So the fingerprints of two rows are the same exactly if the
rows have the same width and the same bits in every column. -/
theorem fingerprint_faithful (hv : v.Countable) (hw : w.Countable) (hr : (tuple r).Countable)
    (hs : (tuple s).Countable) :
    ((v.writes = w.writes ↔ v.same w = true) ∧ (v.writes <+: w.writes → v.writes = w.writes)) ∧
      ((v.bytes = w.bytes ↔ v.same w = true) ∧ (v.bytes <+: w.bytes → v.bytes = w.bytes)) ∧
      (rowWrites r = rowWrites s ↔ sameRow r s = true) ∧
      ((rowWrites r).flatten = (rowWrites s).flatten ↔ sameRow r s = true) ∧
      (Equivalence fun a b : Stored => a.same b = true) ∧
      (∀ a b : Value, a.stored.bytes = a.fingerprint ∧ a.stored.same b.stored = a.bitEq b) ∧
      ∀ p q : Row, (rowWrites (p.map Value.stored)).flatten = p.fingerprint ∧
        sameRow (p.map Value.stored) (q.map Value.stored) = p.same q := by
  rw [same_iff, sameRow_iff]
  refine ⟨⟨⟨fun h => ?_, congrArg _⟩, fun h => ?_⟩, ⟨⟨fun h => ?_, congrArg _⟩, fun h => ?_⟩, ⟨fun h => ?_, congrArg _⟩,
    ⟨row_eq_of_bytes hr hs, fun h => ?_⟩, same_equivalence, fun a b => ⟨bytes_stored a, same_stored a b⟩,
    fun p q => ⟨?_, ?_⟩⟩
  · exact eq_of_isPrefix_writes hv hw (h ▸ List.prefix_rfl)
  · rw [eq_of_isPrefix_writes hv hw h]
  · exact eq_of_isPrefix_bytes hv hw (h ▸ List.prefix_rfl)
  · rw [eq_of_isPrefix_bytes hv hw h]
  · exact row_eq_of_bytes hr hs (congrArg List.flatten h)
  · rw [h]
  · rw [← storedAll_eq_map, rowBytes_stored]
  · rw [← storedAll_eq_map, ← storedAll_eq_map, sameAll_stored, Bool.eq_iff_iff, Value.bitEqAll_iff, Row.same_iff]

/-- Nans with different bits, and texts that are cut at different places. -/
theorem fingerprint_faithful_cutTexts :
    let v : Stored := .tuple [.float 0x7FF8000000000000, .bool true]
    let w : Stored := .tuple [.float 0x7FF8000000000001, .bool true]
    let r : List Stored := [.str "ab", .str "c"]
    let s : List Stored := [.str "a", .str "bc"]
    (v.Countable ∧ w.Countable ∧ (tuple r).Countable ∧ (tuple s).Countable) ∧
      v.writes ≠ w.writes ∧ (rowWrites r).flatten ≠ (rowWrites s).flatten := by
  intro v w r s
  have hv : v.Countable := by simp [v, Countable, AllCountable]
  have hw : w.Countable := by simp [w, Countable, AllCountable]
  have hr : (tuple r).Countable := by simp [r, Countable, AllCountable]
  have hs : (tuple s).Countable := by simp [s, Countable, AllCountable]
  obtain ⟨⟨hwrites, -⟩, -, -, hbytes, -⟩ := fingerprint_faithful hv hw hr hs
  refine ⟨⟨hv, hw, hr, hs⟩, fun h => ?_, fun h => ?_⟩
  · exact absurd (hwrites.1 h) (by decide)
  · exact absurd (hbytes.1 h) (by decide)

end
end Stored
end Millrace
