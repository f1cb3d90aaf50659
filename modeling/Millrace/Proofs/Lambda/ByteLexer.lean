import Millrace.Lambda.Basic
import Millrace.Proofs.Lambda.Utf8

/-!
# Lexing by bytes

The lexer again, on the bytes of a text: indices are byte indices, and what is read between two of them is sliced from
the text.  The result is `none` where a slice would not start and end with characters, and where the next token would
not be further on.  Neither happens: it gives the tokens of `Lexer.tokens`, with their places in bytes
(`tokens_eq`).
-/

namespace Millrace.ByteLexer

open Utf8 Lexer

/-! ### The lexer -/

/-- The index of the first byte from `i` on that does not pass the test. -/
def skip (p : Char → Bool) (bytes : List Char) (i : Nat) : Nat := i + ((bytes.drop i).takeWhile p).length

/-- The index behind the exponent at `i`, or `i` if there is none. -/
def exponentStop (bytes : List Char) (i : Nat) : Nat :=
  if bytes[i]?.any fun c => c = 'e' || c = 'E' then
    let j := if bytes[i + 1]?.any fun c => c = '+' || c = '-' then i + 2 else i + 1
    if bytes[j]?.any (·.isDigit) then skip isNumberPart bytes j else i
  else i

/-- The index behind the number at `start`. -/
def numberStop (bytes : List Char) (start : Nat) : Nat :=
  let i := skip isNumberPart bytes start
  exponentStop bytes (if bytes[i]?.any (· = '.') then skip isNumberPart bytes (i + 1) else i)

/-- The text up to the closing quote and the offset behind that quote, from the offset of the first character on. -/
def quotedFrom (quote : Char) (offset : Nat) : List Char → Option (List Char × Nat)
  | [] => none
  | c :: rest =>
    if c = quote then some ([], offset + c.utf8Size)
    else if c = '\\' then
      match rest with
      | [] => none
      | e :: more =>
        (quotedFrom quote (offset + c.utf8Size + e.utf8Size) more).map fun (text, stop) => (unescape e :: text, stop)
    else if c = '\n' then none
    else (quotedFrom quote (offset + c.utf8Size) rest).map fun (text, stop) => (c :: text, stop)

/-- The error for a fault at the index `start`. -/
def complain {α : Type} (text : List Char) (cause : ParseCause) (start : Nat) : Option (Except LambdaError α) := do
  let before ← slice? text 0 (min start (size text))
  let (line, column) := lineColumn before
  return .error (.parse line column cause)

/-- The token at the index `start`, where the byte is `b`, and the index behind it. -/
def scanAt (text : List Char) (start : Nat) (b : Char) : Option (Except LambdaError (Token × Nat)) :=
  let bytes := latin text
  if b.isDigit || (b = '.' && bytes[start + 1]?.any (·.isDigit)) then do
    let stop := numberStop bytes start
    let number ← slice? text start stop
    match (numberParts number).token with
    | .ok t => return .ok (t, stop)
    | .error cause => complain text cause start
  else if isWordStart b then do
    let stop := skip isWordPart bytes start
    let word ← slice? text start stop
    let name := String.ofList word
    return .ok (((keyword? name).map Token.mark).getD (.ident name), stop)
  else if b = '\'' || b = '"' then do
    let rest ← slice? text start (size text)
    match rest with
    | [] => none
    | quote :: rest =>
      match quotedFrom quote quote.utf8Size rest with
      | some (s, offset) => return .ok (.str (String.ofList s), start + offset)
      | none => complain text .unterminatedText start
  else
    match bytes[start + 1]?.bind (pairMark? b) with
    | some m => some (.ok (.mark m, start + 2))
    | none =>
      match charMark? b with
      | some m => some (.ok (.mark m, start + 1))
      | none => do
        let rest ← slice? text start (size text)
        complain text (.unexpectedCharacter (rest.head?.getD '?')) start

/-- The tokens from the index `i` on. -/
def tokensAt (text : List Char) (i : Nat) : Option (Except LambdaError (List PlacedToken)) :=
  match _h : (latin text)[i]? with
  | none => some (.ok [])
  | some b =>
    if isGap b then tokensAt text (i + 1)
    else
      match scanAt text i b with
      | none => none
      | some (.error e) => some (.error e)
      | some (.ok (t, stop)) =>
        if _ : i < stop then (tokensAt text stop).map fun others => (⟨t, i, stop⟩ :: ·) <$> others
        else none
termination_by size text - i
decreasing_by
  all_goals
    obtain ⟨hi, -⟩ := List.getElem?_eq_some_iff.1 _h
    rw [length_latin] at hi
    omega

/-- The tokens of a text, with their places in bytes. -/
def tokens (text : List Char) : Option (Except LambdaError (List PlacedToken)) := tokensAt text 0

/-! ### Tests for ASCII characters -/

theorem isAsciiTest_isDigit : IsAsciiTest (·.isDigit) := by
  intro c h
  obtain ⟨-, h⟩ := Char.isDigit_iff_toNat.1 h
  exact Nat.lt_of_le_of_lt h (by decide)

theorem isAsciiTest_isAlpha : IsAsciiTest (·.isAlpha) := by
  intro c h
  exact Nat.lt_of_le_of_lt (toNat_of_isAlpha h).2 (by decide)

theorem isAsciiTest_isNumberPart : IsAsciiTest isNumberPart := isAsciiTest_isDigit.or (isAsciiTest_eq (by decide))

theorem isAsciiTest_isWordStart : IsAsciiTest isWordStart := isAsciiTest_isAlpha.or (isAsciiTest_eq (by decide))

theorem isAsciiTest_isWordPart : IsAsciiTest isWordPart :=
  (isAsciiTest_isAlpha.or isAsciiTest_isDigit).or (isAsciiTest_eq (by decide))

theorem isAsciiTest_pair {a b : Char} (ha : a.toNat < 128) (hb : b.toNat < 128) :
    IsAsciiTest fun c => c = a || c = b := (isAsciiTest_eq ha).or (isAsciiTest_eq hb)

theorem isAsciiTest_isGap : IsAsciiTest isGap :=
  ((((isAsciiTest_pair (by decide) (by decide)).or (isAsciiTest_eq (by decide))).or (isAsciiTest_eq (by decide))).or
    (isAsciiTest_eq (by decide))).or (isAsciiTest_eq (by decide))

theorem ascii_of_run {p : Char → Bool} {run : List Char} (hp : IsAsciiTest p) (hrun : ∀ c ∈ run, p c = true) :
    ∀ c ∈ run, c.toNat < 128 := fun c hc => hp c (hrun c hc)

/-! ### Numbers -/

section
variable {bytes cs run rest : List Char} {i : Nat} {p : Char → Bool}

theorem skip_run (hp : IsAsciiTest p) (h : Rest bytes i (run ++ rest)) (hrun : ∀ c ∈ run, p c = true)
    (hrest : Stops p rest) : skip p bytes i = i + run.length := by
  rw [skip, h, takeWhile_latin hp, takeWhile_run hrun hrest]

theorem any_digit (h : Rest bytes i cs) : bytes[i]?.any (·.isDigit) = cs.head?.any (·.isDigit) :=
  h.any isAsciiTest_isDigit

theorem any_sign (h : Rest bytes i cs) :
    bytes[i]?.any (fun c => c = '+' || c = '-') = cs.head?.any fun c => c = '+' || c = '-' :=
  h.any (isAsciiTest_pair (by decide) (by decide))

theorem any_letter (h : Rest bytes i cs) :
    bytes[i]?.any (fun c => c = 'e' || c = 'E') = cs.head?.any fun c => c = 'e' || c = 'E' :=
  h.any (isAsciiTest_pair (by decide) (by decide))

theorem any_point (h : Rest bytes i cs) : bytes[i]?.any (· = '.') = cs.head?.any (· = '.') :=
  h.any (isAsciiTest_eq (by decide))

theorem exists_of_any_head? (h : cs.head?.any p = true) : ∃ c rest, cs = c :: rest ∧ p c = true := by
  obtain ⟨c, hc, hp⟩ := (Option.any_eq_true _ _).1 h
  obtain ⟨rest, rfl⟩ := List.head?_eq_some_iff.1 hc
  exact ⟨c, rest, rfl, hp⟩

theorem not_sign_of_isDigit {d : Char} (hd : d.isDigit = true) : (decide (d = '+') || decide (d = '-')) = false := by
  rw [← Bool.not_eq_true]
  intro h
  obtain rfl | rfl : d = '+' ∨ d = '-' := by simpa using h
  all_goals cases hd

/-- Where an exponent stands, its end is found. -/
theorem exponentStop_of_isExponent {e : Char} {x post : List Char} (he : e = 'e' ∨ e = 'E') (hx : IsExponent x)
    (hpost : Stops isNumberPart post) (h : Rest bytes i (e :: (x ++ post))) :
    exponentStop bytes i = i + (x.length + 1) := by
  have hrest : Rest bytes (i + 1) (x ++ post) := h.next (by obtain rfl | rfl := he <;> decide)
  have hletter : bytes[i]?.any (fun c => c = 'e' || c = 'E') = true := by
    rw [any_letter h]
    simpa using he
  rw [exponentStop, if_pos hletter]
  cases hx with
  | @unsigned d ds hd hds =>
    have hsign : bytes[i + 1]?.any (fun c => c = '+' || c = '-') = false := by
      rw [any_sign hrest]
      exact not_sign_of_isDigit hd
    have hdigit : bytes[i + 1]?.any (·.isDigit) = true := by
      rw [any_digit hrest]
      exact hd
    have hrun : ∀ c ∈ d :: ds, isNumberPart c = true := List.forall_mem_cons.2 ⟨isNumberPart_of_isDigit hd, hds⟩
    rw [hsign, if_neg Bool.false_ne_true, if_pos hdigit, skip_run isAsciiTest_isNumberPart hrest hrun hpost]
    exact Nat.add_right_comm i 1 _
  | @signed s d ds hs hd hds =>
    have hsign : bytes[i + 1]?.any (fun c => c = '+' || c = '-') = true := by
      rw [any_sign hrest]
      simpa using hs
    have hrest : Rest bytes (i + 2) (d :: ds ++ post) := hrest.next (by obtain rfl | rfl := hs <;> decide)
    have hdigit : bytes[i + 2]?.any (·.isDigit) = true := by
      rw [any_digit hrest]
      exact hd
    have hrun : ∀ c ∈ d :: ds, isNumberPart c = true := List.forall_mem_cons.2 ⟨isNumberPart_of_isDigit hd, hds⟩
    rw [hsign, if_pos rfl, if_pos hdigit, skip_run isAsciiTest_isNumberPart hrest hrun hpost]
    simp only [List.length_cons]
    omega

/-- Where no exponent stands, none is found. -/
theorem exponentStop_of_none (h : Rest bytes i cs) (hnone : exponentPart cs = []) : exponentStop bytes i = i := by
  rw [exponentStop]
  split
  · next hletter =>
    rw [any_letter h] at hletter
    obtain ⟨e, rest, rfl, he⟩ := exists_of_any_head? hletter
    replace he : e = 'e' ∨ e = 'E' := by simpa using he
    have hrest : Rest bytes (i + 1) rest := h.next (by obtain rfl | rfl := he <;> decide)
    have hno : ∀ {x post}, IsExponent x → Stops isNumberPart post → rest ≠ x ++ post := by
      rintro x post hx hpost rfl
      rw [exponentPart_of_isExponent he hx hpost] at hnone
      exact hx.ne_nil hnone
    refine if_neg ?_
    split
    · next hsign =>
      rw [any_sign hrest] at hsign
      obtain ⟨s, rest, rfl, hs⟩ := exists_of_any_head? hsign
      replace hs : s = '+' ∨ s = '-' := by simpa using hs
      have hrest : Rest bytes (i + 2) rest := hrest.next (by obtain rfl | rfl := hs <;> decide)
      rw [any_digit hrest]
      intro hdigit
      obtain ⟨d, rest, rfl, hd⟩ := exists_of_any_head? hdigit
      obtain ⟨ds, post, rfl, hds, hpost⟩ := exists_run isNumberPart rest
      exact hno (.signed hs hd hds) hpost rfl
    · rw [any_digit hrest]
      intro hdigit
      obtain ⟨d, rest, rfl, hd⟩ := exists_of_any_head? hdigit
      obtain ⟨ds, post, rfl, hds, hpost⟩ := exists_run isNumberPart rest
      exact hno (.unsigned hd hds) hpost rfl
  · rfl

theorem exponentStop_eq (h : Rest bytes i cs) : exponentStop bytes i = i + scaleLength (exponentPart cs) := by
  obtain ⟨e, x, post, rfl, he, hx, hpost⟩ | hnone := exponentPart_cases cs
  · rw [exponentStop_of_isExponent he hx hpost h, exponentPart_of_isExponent he hx hpost,
      scaleLength_of_isExponent hx]
  · rw [exponentStop_of_none h hnone, hnone]
    rfl

theorem numberStop_eq (h : Rest bytes i cs) : numberStop bytes i = i + (numberParts cs).length := by
  obtain ⟨w, rest, rfl, hw, hrest⟩ := exists_run isNumberPart cs
  have hbehind := h.append (ascii_of_run isAsciiTest_isNumberPart hw)
  rw [numberStop, skip_run isAsciiTest_isNumberPart h hw hrest, any_point hbehind]
  by_cases hpoint : rest.head? = some '.'
  · obtain ⟨rest, rfl⟩ := List.head?_eq_some_iff.1 hpoint
    obtain ⟨f, rest, rfl, hf, hrest⟩ := exists_run isNumberPart rest
    have hfraction := hbehind.next (by decide)
    have hbehind := hfraction.append (ascii_of_run isAsciiTest_isNumberPart hf)
    rw [List.head?_cons, Option.any_some, decide_eq_true rfl, if_pos rfl,
      skip_run isAsciiTest_isNumberPart hfraction hf hrest, exponentStop_eq hbehind, numberParts_point hw hf hrest,
      length_point]
    omega
  · have hnone : rest.head?.any (· = '.') = false := by
      rw [← Bool.not_eq_true]
      intro h
      obtain ⟨c, tail, rfl, hc⟩ := exists_of_any_head? h
      exact hpoint (congrArg some (of_decide_eq_true hc))
    rw [hnone, if_neg Bool.false_ne_true, exponentStop_eq hbehind, numberParts_whole hw hrest hpoint, length_whole]
    omega

/-! ### Texts -/

/-- Offsets in bytes are those of the characters that are taken. -/
theorem quotedFrom_eq (quote : Char) (offset : Nat) (cs : List Char) :
    quotedFrom quote offset cs =
      (quotedText quote cs).map fun (text, n) => (text, offset + size (cs.take n)) := by
  fun_induction quotedFrom quote offset cs with
  | case1 => rfl
  | case2 offset rest =>
    rw [quotedText_close]
    simp
  | case3 offset hslash =>
    rw [quotedText.eq_def]
    simp [hslash]
  | case4 offset e more hslash ih =>
    rw [ih, quotedText_escaped hslash, Option.map_map, Option.map_map]
    refine Option.map_congr ?_
    rintro ⟨text, n⟩ -
    simp [Nat.add_assoc]
  | case5 offset rest hquote =>
    rw [quotedText.eq_def]
    simp [hquote]
  | case6 offset c rest hquote hslash hline ih =>
    rw [ih, quotedText_plain hquote hslash hline, Option.map_map, Option.map_map]
    refine Option.map_congr ?_
    rintro ⟨text, n⟩ -
    simp [Nat.add_assoc]

end

/-! ### One token -/

/-- The error as it is reported. -/
def report (text : List Char) (e : ParseError) : LambdaError :=
  .parse (e.lineColumn text).1 (e.lineColumn text).2 e.cause

section
variable {before rest : List Char} {c : Char}

theorem complain_eq {α : Type} (before after : List Char) (cause : ParseCause) :
    complain (before ++ after) cause (size before) =
      some (.error (report (before ++ after) ⟨cause, some before.length⟩) : Except LambdaError α) := by
  have hslice : slice? (before ++ after) 0 (size before) = some before := slice?_append [] before after
  have hmin : min (size before) (size (before ++ after)) = size before := by
    rw [size_append]
    exact Nat.min_eq_left (Nat.le_add_right ..)
  rw [complain, hmin, hslice, report, ParseError.lineColumn]
  simp only [List.take_left]
  rfl

theorem ascii_of_isMantissa {cs : List Char} (h : IsMantissa cs) : ∀ c ∈ cs, c.toNat < 128 := by
  cases h with
  | whole hw => exact ascii_of_run isAsciiTest_isNumberPart hw
  | point hw hf =>
    exact List.forall_mem_append.2 ⟨ascii_of_run isAsciiTest_isNumberPart hw,
      List.forall_mem_cons.2 ⟨by decide, ascii_of_run isAsciiTest_isNumberPart hf⟩⟩

theorem ascii_of_isExponent {cs : List Char} (h : IsExponent cs) : ∀ c ∈ cs, c.toNat < 128 := by
  cases h with
  | unsigned hd hds =>
    exact List.forall_mem_cons.2 ⟨isAsciiTest_isDigit _ hd, ascii_of_run isAsciiTest_isNumberPart hds⟩
  | signed hs hd hds =>
    exact List.forall_mem_cons.2 ⟨by obtain rfl | rfl := hs <;> decide,
      List.forall_mem_cons.2 ⟨isAsciiTest_isDigit _ hd, ascii_of_run isAsciiTest_isNumberPart hds⟩⟩

theorem ascii_of_isNumeral {cs : List Char} (h : IsNumeral cs) : ∀ c ∈ cs, c.toNat < 128 := by
  obtain ⟨hm, hx⟩ := h
  refine List.forall_mem_append.2 ⟨ascii_of_isMantissa hm, ?_⟩
  cases hx with
  | unit => exact List.forall_mem_nil _
  | power he hx =>
    exact List.forall_mem_cons.2 ⟨by obtain rfl | rfl := he <;> decide, ascii_of_isExponent hx⟩

/-- What the lexer finds, with the place behind the token in bytes. -/
def located (before : List Char) (c : Char) (rest : List Char) :
    Except ParseCause (Token × Nat) → Except LambdaError (Token × Nat)
  | .ok (t, n) => .ok (t, size (before ++ c :: rest.take n))
  | .error cause => .error (report (before ++ c :: rest) ⟨cause, some before.length⟩)

theorem rest_next (hc : c.toNat < 128) (before rest : List Char) :
    Rest (latin (before ++ c :: rest)) (size before + 1) rest := (rest_append before (c :: rest)).next hc

theorem starts_eq (hc : c.toNat < 128) (before rest : List Char) :
    (c.isDigit || (c = '.' && (latin (before ++ c :: rest))[size before + 1]?.any (·.isDigit))) = startsNumber c rest := by
  rw [any_digit (rest_next hc before rest), startsNumber]

theorem ascii_of_startsNumber (hc : startsNumber c rest = true) : c.toNat < 128 := by
  obtain hc | hc := Bool.or_eq_true_iff.1 hc
  · exact isAsciiTest_isDigit c hc
  · rw [of_decide_eq_true (Bool.and_eq_true_iff.1 hc).1]
    decide

theorem scanAt_number (hc : startsNumber c rest = true) (before : List Char) :
    scanAt (before ++ c :: rest) (size before) c = some (located before c rest (scan c rest)) := by
  obtain ⟨body, post, rfl, hstart, hnumeral, hlength, halone⟩ := numberParts_front hc
  have hstop : numberStop (latin (before ++ c :: (body ++ post))) (size before) = size (before ++ c :: body) := by
    rw [numberStop_eq (rest_append before _), hlength, size_append, size_ascii (ascii_of_isNumeral hnumeral)]
    rfl
  have hslice : slice? (before ++ c :: (body ++ post)) (size before) (size (before ++ c :: body)) = some (c :: body) :=
    slice?_append before (c :: body) post
  rw [scanAt]
  dsimp only
  rw [starts_eq (ascii_of_startsNumber hc), if_pos hc, hstop, hslice, scan_number hc, hlength, ← halone]
  simp only [Option.bind_eq_bind, Option.bind_some, Option.pure_def]
  cases (numberParts (c :: body)).token with
  | ok t => simp only [Except.map, located, Nat.add_sub_cancel, List.take_left]
  | error cause => exact complain_eq before _ cause

theorem isWordPart_of_isWordStart (hc : isWordStart c = true) : isWordPart c = true := by
  obtain hc | hc := Bool.or_eq_true_iff.1 hc
  · rw [isWordPart, Char.isAlphanum, hc]
    rfl
  · rw [isWordPart, hc, Bool.or_true]

theorem scanAt_word (hc : isWordStart c = true) (before rest : List Char) :
    scanAt (before ++ c :: rest) (size before) c = some (located before c rest (scan c rest)) := by
  obtain ⟨body, post, rfl, hbody, hpost⟩ := exists_run isWordPart rest
  have hascii : c.toNat < 128 := isAsciiTest_isWordStart c hc
  have hrun : ∀ d ∈ c :: body, isWordPart d = true := List.forall_mem_cons.2 ⟨isWordPart_of_isWordStart hc, hbody⟩
  have hstop : skip isWordPart (latin (before ++ c :: (body ++ post))) (size before) = size (before ++ c :: body) := by
    have hrest : Rest (latin (before ++ c :: (body ++ post))) (size before) (c :: body ++ post) := rest_append before _
    rw [skip_run isAsciiTest_isWordPart hrest hrun hpost, size_append,
      size_ascii (ascii_of_run isAsciiTest_isWordPart hrun)]
  have hslice : slice? (before ++ c :: (body ++ post)) (size before) (size (before ++ c :: body)) = some (c :: body) :=
    slice?_append before (c :: body) post
  have hnumber : ¬ startsNumber c (body ++ post) = true := by
    rw [not_startsNumber_of_isWordStart hc]
    decide
  rw [scanAt]
  dsimp only
  rw [starts_eq hascii, if_neg hnumber, if_pos hc, hstop, hslice, scan_word hc, takeWhile_run hbody hpost, located,
    List.take_left]
  rfl

theorem scanAt_text (hc : c = '\'' ∨ c = '"') (before rest : List Char) :
    scanAt (before ++ c :: rest) (size before) c = some (located before c rest (scan c rest)) := by
  have hascii : c.toNat < 128 := by obtain rfl | rfl := hc <;> decide
  have hslice : slice? (before ++ c :: rest) (size before) (size (before ++ c :: rest)) = some (c :: rest) := by
    have h := slice?_append before (c :: rest) []
    rwa [List.append_nil] at h
  have hnumber : ¬ startsNumber c rest = true := by obtain rfl | rfl := hc <;> simp [startsNumber]
  have hword : ¬ isWordStart c = true := by obtain rfl | rfl := hc <;> decide
  have hquote : (decide (c = '\'') || decide (c = '"')) = true := by simpa using hc
  rw [scanAt]
  dsimp only
  rw [starts_eq hascii, if_neg hnumber, if_neg hword, if_pos hquote, hslice]
  simp only [Option.bind_eq_bind, Option.bind_some, Option.pure_def]
  rw [quotedFrom_eq, scan_text hc]
  cases quotedText c rest with
  | none => exact complain_eq before _ _
  | some p =>
    simp only [Option.map_some, located, size_append, size_cons]

theorem ascii_of_charMark {m : Mark} (h : charMark? c = some m) : c.toNat < 128 := by
  unfold charMark? at h
  split at h <;> cases h <;> decide

theorem ascii_of_pairMark {d : Char} {m : Mark} (h : pairMark? c d = some m) : c.toNat < 128 ∧ d.toNat < 128 := by
  unfold pairMark? at h
  split at h <;> cases h <;> decide

theorem pairMark_wide (c : Char) {d : Char} (hd : 128 ≤ d.toNat) : pairMark? c d = none := by
  cases h : pairMark? c d with
  | none => rfl
  | some m => exact absurd (ascii_of_pairMark h).2 (Nat.not_lt_of_ge hd)

/-- The rest of the text, for the character that belongs to no token. -/
theorem slice?_rest (before after : List Char) :
    slice? (before ++ after) (size before) (size (before ++ after)) = some after := by
  have h := slice?_append before after []
  rwa [List.append_nil] at h

theorem scanAt_operator (hnumber : startsNumber c rest = false) (hword : isWordStart c = false)
    (hquote : ¬ (c = '\'' ∨ c = '"')) (hc : c.toNat < 128) (before : List Char) :
    scanAt (before ++ c :: rest) (size before) c = some (located before c rest (scan c rest)) := by
  have hpair : (latin (before ++ c :: rest))[size before + 1]?.bind (pairMark? c) = rest.head?.bind (pairMark? c) := by
    rw [(rest_next hc before rest).getElem?, bind_head?_latin fun d => pairMark_wide c]
  rw [scanAt]
  dsimp only
  rw [starts_eq hc, hnumber, if_neg Bool.false_ne_true, hword, if_neg Bool.false_ne_true, if_neg (by simpa using hquote),
    hpair, scan_operator hnumber hword hquote, operator, slice?_rest]
  cases hmark : rest.head?.bind (pairMark? c) with
  | some m =>
    obtain ⟨d, hhead, hd⟩ := Option.bind_eq_some_iff.1 hmark
    obtain ⟨rest, rfl⟩ := List.head?_eq_some_iff.1 hhead
    simp [located, utf8Size_ascii hc, utf8Size_ascii (ascii_of_pairMark hd).2]
  | none =>
    cases charMark? c with
    | some m => simp [located, utf8Size_ascii hc]
    | none => exact complain_eq before _ _

theorem ne_of_wide {d : Char} (hc : 128 ≤ c.toNat) (hd : d.toNat < 128) : c ≠ d := by
  rintro rfl
  exact absurd hd (Nat.not_lt_of_ge hc)

/-- No operator starts beyond ASCII. -/
theorem operator_wide (hc : 128 ≤ c.toNat) (d? : Option Char) : d?.bind (pairMark? c) = none ∧ charMark? c = none := by
  constructor
  · cases d? with
    | none => rfl
    | some d =>
      cases h : pairMark? c d with
      | none => exact h
      | some m => exact absurd (ascii_of_pairMark h).1 (Nat.not_lt_of_ge hc)
  · cases h : charMark? c with
    | none => rfl
    | some m => exact absurd (ascii_of_charMark h) (Nat.not_lt_of_ge hc)

/-- A character beyond ASCII belongs to no token, and none of its bytes does. -/
theorem scanAt_wide {b : Char} (hb : 128 ≤ b.toNat) (hc : 128 ≤ c.toNat) (before rest : List Char) :
    scanAt (before ++ c :: rest) (size before) b = some (located before c rest (scan c rest)) := by
  have hquote : ∀ {e : Char}, 128 ≤ e.toNat → ¬ (e = '\'' ∨ e = '"') := fun he h =>
    h.elim (ne_of_wide he (by decide)) (ne_of_wide he (by decide))
  have hnumber : ∀ {e : Char} (d? : Option Char), 128 ≤ e.toNat →
      (e.isDigit || (e = '.' && d?.any (·.isDigit))) = false := fun d? he => by
    rw [isAsciiTest_isDigit.not_of_wide he, decide_eq_false (ne_of_wide he (by decide))]
    rfl
  obtain ⟨hpair, hmark⟩ := operator_wide hc rest.head?
  obtain ⟨hpair', hmark'⟩ := operator_wide hb (latin (before ++ c :: rest))[size before + 1]?
  rw [scan_operator (hnumber _ hc) (isAsciiTest_isWordStart.not_of_wide hc) (hquote hc), operator, hpair, hmark, scanAt]
  dsimp only
  rw [hnumber _ hb, if_neg Bool.false_ne_true, isAsciiTest_isWordStart.not_of_wide hb, if_neg Bool.false_ne_true,
    if_neg (by simpa using hquote hb), hpair', hmark', slice?_rest]
  exact complain_eq before _ _

/-- What the first byte of a character starts is what the character starts. -/
theorem scanAt_eq {b : Char} (hb : (latin (before ++ c :: rest))[size before]? = some b) :
    scanAt (before ++ c :: rest) (size before) b = some (located before c rest (scan c rest)) := by
  rw [(rest_append before (c :: rest)).getElem?] at hb
  by_cases hc : c.toNat < 128
  · rw [latin_cons_ascii hc] at hb
    cases hb
    cases hnumber : startsNumber c rest with
    | true => exact scanAt_number hnumber before
    | false =>
      cases hword : isWordStart c with
      | true => exact scanAt_word hword before rest
      | false =>
        by_cases hquote : c = '\'' ∨ c = '"'
        · exact scanAt_text hquote before rest
        · exact scanAt_operator hnumber hword hquote hc before
  · obtain ⟨d, ds, hlatin, hd⟩ := latin_cons_wide (Nat.le_of_not_lt hc) rest
    rw [hlatin] at hb
    cases hb
    exact scanAt_wide hd (Nat.le_of_not_lt hc) before rest

/-! ### All tokens -/

/-- A token with its place in bytes. -/
def inBytes (text : List Char) (t : PlacedToken) : PlacedToken :=
  ⟨t.token, size (text.take t.start), size (text.take t.stop)⟩

/-- The tokens of a text with their places in bytes, or the error as it is reported. -/
def reported (text : List Char) : Except ParseError (List PlacedToken) → Except LambdaError (List PlacedToken)
  | .ok ts => .ok (ts.map (inBytes text))
  | .error e => .error (report text e)

theorem isGap_first {b : Char} (hb : (latin (before ++ c :: rest))[size before]? = some b) : isGap b = isGap c := by
  rw [(rest_append before (c :: rest)).getElem?] at hb
  have hany := any_head?_latin isAsciiTest_isGap (c :: rest)
  rw [hb] at hany
  exact hany

theorem exists_byte (before : List Char) (c : Char) (rest : List Char) :
    ∃ b, (latin (before ++ c :: rest))[size before]? = some b := by
  have hlt : size before < (latin (before ++ c :: rest)).length := by
    rw [length_latin, size_append, size_cons]
    have hpos := c.utf8Size_pos
    omega
  exact ⟨_, List.getElem?_eq_getElem hlt⟩

theorem tokensAt_nil (before : List Char) : tokensAt before (size before) = some (.ok []) := by
  have hend : (latin before)[size before]? = none := List.getElem?_eq_none (Nat.le_of_eq (length_latin before))
  rw [tokensAt]
  split
  · rfl
  · next h =>
    rw [hend] at h
    cases h

theorem tokensAt_gap (hc : isGap c = true) (before rest : List Char) :
    tokensAt (before ++ c :: rest) (size before) = tokensAt (before ++ c :: rest) (size (before ++ [c])) := by
  obtain ⟨b, hb⟩ := exists_byte before c rest
  have hnext : size (before ++ [c]) = size before + 1 := by
    rw [size_append, size_cons, utf8Size_ascii (isAsciiTest_isGap c hc), size_nil]
  rw [tokensAt]
  split
  · next h =>
    rw [hb] at h
    cases h
  · next b' h => rw [if_pos ((isGap_first h).trans hc), hnext]

theorem tokensAt_token (hc : isGap c = false) (before rest : List Char) :
    tokensAt (before ++ c :: rest) (size before) =
      match scan c rest with
      | .error cause => some (.error (report (before ++ c :: rest) ⟨cause, some before.length⟩))
      | .ok (t, n) => (tokensAt (before ++ c :: rest) (size (before ++ c :: rest.take n))).map fun others =>
          (⟨t, size before, size (before ++ c :: rest.take n)⟩ :: ·) <$> others := by
  obtain ⟨b, hb⟩ := exists_byte before c rest
  rw [tokensAt]
  split
  · next h =>
    rw [hb] at h
    cases h
  · next b' h =>
    rw [if_neg (by rw [isGap_first h, hc]; decide), scanAt_eq h]
    cases scan c rest with
    | error cause => rfl
    | ok p =>
      have hlt : size before < size (before ++ c :: rest.take p.2) := by
        rw [size_append, size_cons]
        have hpos := c.utf8Size_pos
        omega
      simp only [located]
      rw [dif_pos hlt]

theorem length_append_cons (before : List Char) (c : Char) (body : List Char) :
    (before ++ c :: body).length = before.length + 1 + body.length := by
  rw [List.length_append, List.length_cons]
  omega

theorem length_lt (c : Char) (body post : List Char) : post.length < (c :: (body ++ post)).length := by
  rw [List.length_cons, List.length_append]
  omega

theorem inBytes_token (before body post : List Char) (c : Char) (t : Token) :
    inBytes (before ++ c :: (body ++ post)) ⟨t, before.length, before.length + 1 + body.length⟩ =
      ⟨t, size before, size (before ++ c :: body)⟩ := by
  have hfront : (before ++ c :: (body ++ post)).take (before.length + 1 + body.length) = before ++ c :: body := by
    rw [← List.cons_append, ← List.append_assoc, ← length_append_cons, List.take_left]
  rw [inBytes, List.take_left, hfront]

/-- From the end of any characters on, the bytes give what the text gives. -/
theorem tokensAt_eq (before after : List Char) :
    tokensAt (before ++ after) (size before) =
      some (reported (before ++ after) (tokensFrom before.length after)) := by
  induction hn : after.length using Nat.strongRecOn generalizing before after with
  | ind n ih =>
    subst hn
    cases after with
    | nil =>
      rw [List.append_nil, tokensAt_nil, tokensFrom]
      rfl
    | cons c rest =>
      cases hc : isGap c with
      | true =>
        have hread := ih rest.length (Nat.lt_succ_self _) (before ++ [c]) rest rfl
        rw [List.append_assoc, List.length_append] at hread
        rw [tokensAt_gap hc, tokensFrom_gap hc]
        exact hread
      | false =>
        rw [tokensAt_token hc]
        cases hscan : scan c rest with
        | error cause =>
          rw [tokensFrom, if_neg (by rw [hc]; decide), hscan]
          rfl
        | ok p =>
          obtain ⟨t, n⟩ := p
          obtain ⟨body, rfl, ⟨post, rfl⟩, -⟩ := scan_takes hscan
          have hread := ih post.length (length_lt c body post) (before ++ c :: body) post rfl
          rw [List.append_assoc, List.cons_append, length_append_cons] at hread
          rw [tokensFrom_scan hc hscan]
          simp only [List.take_left]
          rw [hread]
          cases tokensFrom (before.length + 1 + body.length) post with
          | error e => rfl
          | ok ts => exact congrArg (fun placed => some (Except.ok (placed :: ts.map (inBytes _)))) (inBytes_token ..).symm

end

/-- All slices exist, and the tokens are those of the text. -/
theorem tokens_eq (text : List Char) : tokens text = some (reported text (Lexer.tokens text)) :=
  tokensAt_eq [] text

end Millrace.ByteLexer
