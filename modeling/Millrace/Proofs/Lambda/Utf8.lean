import Mathlib.Data.List.Basic
import Millrace.Proofs.Lambda.Lexemes

/-!
# Texts as bytes

The bytes of a text, and the slices of it between two byte indices.  A slice exists only between the ends of characters
(`slice?_eq_some`).  A byte is looked at as the character with its code: one that is not ASCII is then not ASCII
either, so a test for ASCII characters finds in the bytes just what it finds in the text.
-/

namespace Millrace.Utf8

/-- The bytes of a text. -/
def bytes (cs : List Char) : List UInt8 := cs.flatMap String.utf8EncodeChar

/-- How many bytes a text takes. -/
def size (cs : List Char) : Nat := (bytes cs).length

/-- The bytes of a text, each as the character with its code. -/
def latin (cs : List Char) : List Char := (bytes cs).map Char.ofUInt8

section
variable {c : Char} {cs ds : List Char}

theorem bytes_toList (s : String) : bytes s.toList = s.toUTF8.data.toList := by
  rw [String.toUTF8_eq_toByteArray, ← String.utf8Encode_toList, List.utf8Encode, List.data_toByteArray]
  rfl

@[simp] theorem size_nil : size [] = 0 := rfl

@[simp] theorem size_cons (c : Char) (cs : List Char) : size (c :: cs) = c.utf8Size + size cs := by
  simp [size, bytes]

@[simp] theorem size_append (cs ds : List Char) : size (cs ++ ds) = size cs + size ds := by
  simp [size, bytes]

@[simp] theorem length_latin (cs : List Char) : (latin cs).length = size cs := List.length_map ..

theorem latin_append (cs ds : List Char) : latin (cs ++ ds) = latin cs ++ latin ds := by
  simp [latin, bytes]

/-! ### ASCII -/

theorem toNat_ofUInt8 (b : UInt8) : (Char.ofUInt8 b).toNat = b.toNat := UInt8.toNat_toUInt32 b

theorem utf8Size_ascii (hc : c.toNat < 128) : c.utf8Size = 1 := by
  rw [Char.utf8Size_eq_one_iff, UInt32.le_iff_toNat_le]
  exact Nat.le_of_lt_succ hc

/-- An ASCII character is its only byte. -/
theorem latin_cons_ascii (hc : c.toNat < 128) (cs : List Char) : latin (c :: cs) = c :: latin cs := by
  have hchar : Char.ofUInt8 c.toUInt8 = c := by
    rw [← Char.toNat_inj, toNat_ofUInt8]
    exact Nat.mod_eq_of_lt (Nat.lt_trans hc (by decide))
  simp [latin, bytes, String.utf8EncodeChar_eq_singleton (utf8Size_ascii hc), hchar]

theorem utf8EncodeChar_wide (hc : 128 ≤ c.toNat) : ∀ b ∈ String.utf8EncodeChar c, 128 ≤ b.toNat := by
  have hle : ¬ c.val.toNat ≤ 127 := Nat.not_le_of_gt hc
  intro b hb
  simp only [String.utf8EncodeChar, if_neg hle] at hb
  split at hb
  · simp only [List.mem_cons, List.not_mem_nil, or_false] at hb
    obtain rfl | rfl := hb <;> simp <;> omega
  · split at hb
    · simp only [List.mem_cons, List.not_mem_nil, or_false] at hb
      obtain rfl | rfl | rfl := hb <;> simp <;> omega
    · simp only [List.mem_cons, List.not_mem_nil, or_false] at hb
      obtain rfl | rfl | rfl | rfl := hb <;> simp <;> omega

/-- The bytes of any other character are not ASCII. -/
theorem latin_cons_wide (hc : 128 ≤ c.toNat) (cs : List Char) :
    ∃ d ds, latin (c :: cs) = d :: ds ∧ 128 ≤ d.toNat := by
  cases hbytes : String.utf8EncodeChar c with
  | nil =>
    have hsize := String.length_utf8EncodeChar c
    rw [hbytes] at hsize
    exact absurd hsize.symm (Nat.ne_of_gt c.utf8Size_pos)
  | cons b bs =>
    refine ⟨Char.ofUInt8 b, bs.map Char.ofUInt8 ++ latin cs, by simp [latin, bytes, hbytes], ?_⟩
    rw [toNat_ofUInt8]
    exact utf8EncodeChar_wide hc b (hbytes ▸ List.mem_cons_self ..)

/-- The characters that pass the test are ASCII. -/
def IsAsciiTest (p : Char → Bool) : Prop := ∀ c, p c = true → c.toNat < 128

section
variable {p : Char → Bool} {α : Type}

theorem isAsciiTest_eq {d : Char} (hd : d.toNat < 128) : IsAsciiTest (· = d) := by
  intro c hc
  rwa [of_decide_eq_true hc]

theorem IsAsciiTest.or {q : Char → Bool} (hp : IsAsciiTest p) (hq : IsAsciiTest q) :
    IsAsciiTest fun c => p c || q c := fun c hc => (Bool.or_eq_true_iff.1 hc).elim (hp c) (hq c)

theorem IsAsciiTest.not_of_wide (hp : IsAsciiTest p) (hc : 128 ≤ c.toNat) : p c = false := by
  rw [← Bool.not_eq_true]
  exact fun h => absurd (hp c h) (Nat.not_lt_of_ge hc)

/-- A test for ASCII characters stops in the bytes where it stops in the text. -/
theorem takeWhile_latin (hp : IsAsciiTest p) (cs : List Char) : (latin cs).takeWhile p = cs.takeWhile p := by
  induction cs with
  | nil => rfl
  | cons c cs ih =>
    by_cases hascii : c.toNat < 128
    · rw [latin_cons_ascii hascii, List.takeWhile_cons, List.takeWhile_cons, ih]
    · obtain ⟨d, ds, hlatin, hd⟩ := latin_cons_wide (Nat.le_of_not_lt hascii) cs
      rw [hlatin, List.takeWhile_cons_of_neg (Bool.eq_false_iff.1 (hp.not_of_wide hd)),
        List.takeWhile_cons_of_neg (Bool.eq_false_iff.1 (hp.not_of_wide (Nat.le_of_not_lt hascii)))]

/-- What is the same for all characters beyond ASCII is for the next byte what it is for the next character. -/
theorem map_head?_latin {f : Char → α} (hf : ∀ c d, 128 ≤ c.toNat → 128 ≤ d.toNat → f c = f d) (cs : List Char) :
    (latin cs).head?.map f = cs.head?.map f := by
  cases cs with
  | nil => rfl
  | cons c cs =>
    by_cases hascii : c.toNat < 128
    · rw [latin_cons_ascii hascii]
      rfl
    · obtain ⟨d, ds, hlatin, hd⟩ := latin_cons_wide (Nat.le_of_not_lt hascii) cs
      rw [hlatin, List.head?_cons, List.head?_cons, Option.map_some, Option.map_some,
        hf d c hd (Nat.le_of_not_lt hascii)]

theorem bind_head?_latin {f : Char → Option α} (hf : ∀ c, 128 ≤ c.toNat → f c = none) (cs : List Char) :
    (latin cs).head?.bind f = cs.head?.bind f := by
  have hmap := map_head?_latin (fun c d hc hd => (hf c hc).trans (hf d hd).symm) cs
  exact (Option.bind_map (g := id)).symm.trans ((congrArg (Option.bind · id) hmap).trans Option.bind_map)

theorem any_head?_latin (hp : IsAsciiTest p) (cs : List Char) : (latin cs).head?.any p = cs.head?.any p := by
  have hmap := map_head?_latin (fun c d hc hd => (hp.not_of_wide hc).trans (hp.not_of_wide hd).symm) cs
  exact (Option.any_map (p := id)).symm.trans ((congrArg (Option.any id) hmap).trans Option.any_map)

end

/-- The bytes from the index `i` on are those of `cs`. -/
def Rest (bytes : List Char) (i : Nat) (cs : List Char) : Prop := bytes.drop i = latin cs

section
variable {bytes run : List Char} {i : Nat} {p : Char → Bool}

theorem rest_append (cs ds : List Char) : Rest (latin (cs ++ ds)) (size cs) ds := by
  rw [Rest, latin_append, ← length_latin, List.drop_left]

theorem Rest.getElem? (h : Rest bytes i cs) : bytes[i]? = (latin cs).head? := by
  rw [← List.head?_drop, h]

theorem Rest.any (h : Rest bytes i cs) (hp : IsAsciiTest p) : bytes[i]?.any p = cs.head?.any p := by
  rw [h.getElem?, any_head?_latin hp]

theorem Rest.next (h : Rest bytes i (c :: cs)) (hc : c.toNat < 128) : Rest bytes (i + 1) cs := by
  rw [Rest, ← List.drop_drop, h, latin_cons_ascii hc]
  rfl

theorem Rest.append (h : Rest bytes i (run ++ cs)) (hrun : ∀ c ∈ run, c.toNat < 128) :
    Rest bytes (i + run.length) cs := by
  induction run generalizing i with
  | nil => exact h
  | cons c run ih =>
    obtain ⟨hc, hrun⟩ := List.forall_mem_cons.1 hrun
    rw [List.length_cons, Nat.add_comm run.length, ← Nat.add_assoc]
    exact ih (h.next hc) hrun

end

theorem size_ascii (h : ∀ c ∈ cs, c.toNat < 128) : size cs = cs.length := by
  induction cs with
  | nil => rfl
  | cons c cs ih =>
    obtain ⟨hc, hcs⟩ := List.forall_mem_cons.1 h
    rw [size_cons, utf8Size_ascii hc, ih hcs, List.length_cons, Nat.add_comm]

/-! ### Slices -/

/-- The characters in the first `n` bytes of a text and those behind, if a character ends there. -/
def splitAt? : Nat → List Char → Option (List Char × List Char)
  | 0, cs => some ([], cs)
  | _ + 1, [] => none
  | n + 1, c :: cs =>
    if c.utf8Size ≤ n + 1 then
      (splitAt? (n + 1 - c.utf8Size) cs).map fun (front, rest) => (c :: front, rest)
    else none

/-- The characters from the byte `start` up to the byte `stop`, if characters end there. -/
def slice? (text : List Char) (start stop : Nat) : Option (List Char) :=
  if start ≤ stop then do
    let (_, rest) ← splitAt? start text
    let (front, _) ← splitAt? (stop - start) rest
    return front
  else none

theorem splitAt?_append (cs ds : List Char) : splitAt? (size cs) (cs ++ ds) = some (cs, ds) := by
  induction cs with
  | nil => rw [size_nil, splitAt?, List.nil_append]
  | cons c cs ih =>
    obtain ⟨n, hn⟩ := Nat.exists_eq_succ_of_ne_zero (Nat.ne_of_gt (Nat.add_pos_left c.utf8Size_pos (size cs)))
    have hrest : n + 1 - c.utf8Size = size cs := by omega
    rw [size_cons, hn, List.cons_append, splitAt?, if_pos (by omega), hrest, ih]
    rfl

theorem eq_of_splitAt? {n : Nat} {front rest : List Char} (h : splitAt? n cs = some (front, rest)) :
    cs = front ++ rest ∧ size front = n := by
  fun_induction splitAt? n cs generalizing front with
  | case1 cs =>
    cases h
    exact ⟨rfl, rfl⟩
  | case2 | case4 => cases h
  | case3 n c cs hle ih =>
    obtain ⟨⟨front, rest⟩, hsplit, h⟩ := Option.map_eq_some_iff.1 h
    cases h
    obtain ⟨rfl, hsize⟩ := ih hsplit
    refine ⟨rfl, ?_⟩
    rw [size_cons, hsize]
    omega

/-- A slice starts and ends where characters end. -/
theorem slice?_eq_some {text mid : List Char} {start stop : Nat} :
    slice? text start stop = some mid ↔
      ∃ pre post, text = pre ++ (mid ++ post) ∧ start = size pre ∧ stop = size (pre ++ mid) := by
  constructor
  · intro h
    rw [slice?] at h
    split at h
    · next hle =>
      obtain ⟨⟨pre, rest⟩, hpre, h⟩ := Option.bind_eq_some_iff.1 h
      obtain ⟨⟨front, post⟩, hmid, h⟩ := Option.bind_eq_some_iff.1 h
      cases h
      obtain ⟨rfl, rfl⟩ := eq_of_splitAt? hpre
      obtain ⟨rfl, hsize⟩ := eq_of_splitAt? hmid
      refine ⟨pre, post, rfl, rfl, ?_⟩
      rw [size_append, hsize]
      omega
    · cases h
  · rintro ⟨pre, post, rfl, rfl, rfl⟩
    have hstop : size (pre ++ mid) - size pre = size mid := by rw [size_append, Nat.add_sub_cancel_left]
    rw [slice?, if_pos (by rw [size_append]; exact Nat.le_add_right ..), splitAt?_append, hstop]
    change splitAt? (size mid) (mid ++ post) >>= _ = _
    rw [splitAt?_append]
    rfl

/-- As many bytes in front of a text are the same characters. -/
theorem eq_of_size_eq {pre pre' rest rest' : List Char} (h : pre ++ rest = pre' ++ rest')
    (hsize : size pre = size pre') : pre = pre' ∧ rest = rest' := by
  have hsplit := splitAt?_append pre rest
  rw [h, hsize, splitAt?_append] at hsplit
  cases hsplit
  exact ⟨rfl, rfl⟩

theorem slice?_append (pre mid post : List Char) :
    slice? (pre ++ (mid ++ post)) (size pre) (size (pre ++ mid)) = some mid :=
  slice?_eq_some.2 ⟨pre, post, rfl, rfl, rfl⟩

end
end Millrace.Utf8
