import Millrace.Lambda.Lexer
import Millrace.Proofs.Lambda.Descent
import Millrace.Proofs.Number.Digits
import Millrace.Text.Quoted

/-!
# Texts and their tokens

What the lexer makes of decimal digits, of keywords and of quoted texts.  A number or a word takes all the characters
that it can get, so it is followed here by the end of the text, a comma or a right parenthesis (`Ends`).  A text that
gives some tokens in front of such characters gives them in front of more tokens as well (`Lexes.append`).

## Main statements

* `quotedText_body`: reading a quoted text inverts writing it.
* `lexes_digits`, `lexes_quoted`: the tokens of numbers and texts.
-/

namespace Millrace

namespace Lexer

/-! ### Ends of tokens -/

/-- The text is over, or goes on with a comma or a right parenthesis. -/
def Ends (cs : List Char) : Prop := ∀ c, cs.head? = some c → c = ',' ∨ c = ')'

section
variable {c : Char} {cs rest : List Char}

theorem ends_nil : Ends [] := fun _ h => nomatch h

theorem ends_cons (hc : c = ',' ∨ c = ')') (cs : List Char) : Ends (c :: cs) := by
  intro c' h
  cases h
  exact hc

/-- Characters of one sort that take all they can get stop there. -/
theorem takeWhile_append {p : Char → Bool} (hcs : ∀ c ∈ cs, p c = true) (hcomma : p ',' = false)
    (hparen : p ')' = false) (hrest : Ends rest) : (cs ++ rest).takeWhile p = cs := by
  rw [List.takeWhile_append_of_pos hcs]
  cases rest with
  | nil => exact List.append_nil cs
  | cons c rest =>
    have hc : p c = false := by
      obtain rfl | rfl := hrest c rfl
      · exact hcomma
      · exact hparen
    rw [List.takeWhile_cons_of_neg (by rw [hc]; decide), List.append_nil]

end

/-! ### Numbers -/

theorem isNumberPart_of_isDigit {c : Char} (h : c.isDigit = true) : isNumberPart c = true := by
  rw [isNumberPart, h, Bool.true_or]

/-- Digits in front of the end of a token are all of the number. -/
theorem numberParts_digits {cs rest : List Char} (hcs : ∀ c ∈ cs, c.isDigit = true) (hrest : Ends rest) :
    numberParts (cs ++ rest) = ⟨cs, false, [], []⟩ := by
  have hwhole : (cs ++ rest).takeWhile isNumberPart = cs :=
    takeWhile_append (fun c hc => isNumberPart_of_isDigit (hcs c hc)) (by decide) (by decide) hrest
  rw [numberParts, hwhole, List.drop_left]
  cases rest with
  | nil => rfl
  | cons c rest => obtain rfl | rfl := hrest c rfl <;> rfl

theorem scan_digits {n : Nat} {m : Int64} (hm : Whole.ofInt? n = some m) {c : Char} {cs rest : List Char}
    (hdigits : Digits.chars (Digits.ofNat n) = c :: cs) (hrest : Ends rest) :
    scan c (cs ++ rest) = .ok (.int m, cs.length) := by
  have hall : ∀ d ∈ c :: cs, d.isDigit = true := fun d hd =>
    Digits.isDigit_of_mem_chars (fun _ => Digits.lt_ten_of_mem_ofNat) (hdigits ▸ hd)
  have hparts := numberParts_digits hall hrest
  rw [List.cons_append] at hparts
  have hvalue : Digits.value (c :: cs) = n := by
    rw [← hdigits, Digits.value_chars fun _ => Digits.lt_ten_of_mem_ofNat, Digits.toNat_ofNat]
  rw [scan, hall c (List.mem_cons_self ..), Bool.true_or, if_pos rfl, hparts]
  simp only [NumberParts.token, hvalue, hm]
  rfl

/-! ### Texts -/

section
variable {q c e : Char} {cs : List Char}

theorem quotedText_close (q : Char) (cs : List Char) : quotedText q (q :: cs) = some ([], 1) := by
  rw [quotedText.eq_def]
  exact if_pos rfl

theorem quotedText_plain (hquote : c ≠ q) (hslash : c ≠ '\\') (hline : c ≠ '\n') (cs : List Char) :
    quotedText q (c :: cs) = (quotedText q cs).map fun (text, n) => (c :: text, n + 1) := by
  rw [quotedText.eq_def]
  dsimp only
  rw [if_neg hquote, if_neg hslash, if_neg hline]

theorem quotedText_escaped (hslash : '\\' ≠ q) (e : Char) (cs : List Char) :
    quotedText q ('\\' :: e :: cs) = (quotedText q cs).map fun (text, n) => (unescape e :: text, n + 2) := by
  rw [quotedText.eq_def]
  dsimp only
  rw [if_neg hslash, if_pos rfl]

/-- A character between quotes is written as an escape that stands for it, or as itself where it needs none. -/
theorem escape_cases (hq : q = '\'' ∨ q = '"') (c : Char) :
    (∃ e, Text.Quoted.escape q c = ['\\', e] ∧ unescape e = c) ∨
      Text.Quoted.escape q c = [c] ∧ c ≠ q ∧ c ≠ '\\' ∧ c ≠ '\n' := by
  unfold Text.Quoted.escape
  split
  · next hc => exact .inl ⟨'\\', rfl, hc.symm⟩
  · next hslash =>
    split
    · next hc => exact .inl ⟨'n', rfl, hc.symm⟩
    · next hline =>
      split
      · next hc => exact .inl ⟨'r', rfl, hc.symm⟩
      · split
        · next hc => exact .inl ⟨'t', rfl, hc.symm⟩
        · split
          · next hc =>
            subst hc
            exact .inl ⟨c, rfl, by obtain rfl | rfl := hq <;> rfl⟩
          · next hquote => exact .inr ⟨rfl, hquote, hslash, hline⟩

/-- Reading a quoted text gives the text, and takes it with its closing quote. -/
theorem quotedText_body (hq : q = '\'' ∨ q = '"') (cs rest : List Char) :
    quotedText q (Text.Quoted.body q cs ++ q :: rest) = some (cs, (Text.Quoted.body q cs).length + 1) := by
  have hslash : '\\' ≠ q := by obtain rfl | rfl := hq <;> decide
  induction cs with
  | nil => exact quotedText_close q rest
  | cons c cs ih =>
    have hbody : Text.Quoted.body q (c :: cs) = Text.Quoted.escape q c ++ Text.Quoted.body q cs := List.flatMap_cons
    rw [hbody, List.append_assoc, List.length_append]
    obtain ⟨e, hescape, he⟩ | ⟨hescape, hquote, hnoslash, hline⟩ := escape_cases hq c
    · rw [hescape, List.cons_append, List.singleton_append, quotedText_escaped hslash, ih, he, Option.map_some,
        List.length_cons, List.length_singleton, Nat.add_comm (1 + 1), Nat.add_right_comm]
    · rw [hescape, List.singleton_append, quotedText_plain hquote hnoslash hline, ih, Option.map_some,
        List.length_singleton, Nat.add_comm 1]

/-- A text takes one of the two quotes. -/
theorem mark_cases (cs : List Char) : Text.Quoted.mark cs = '\'' ∨ Text.Quoted.mark cs = '"' := by
  unfold Text.Quoted.mark
  split
  · exact .inr rfl
  · exact .inl rfl

theorem scan_quoted (hq : q = '\'' ∨ q = '"') (cs rest : List Char) :
    scan q (Text.Quoted.body q cs ++ [q] ++ rest) =
      .ok (.str (String.ofList cs), (Text.Quoted.body q cs ++ [q]).length) := by
  have hread := quotedText_body hq cs rest
  rw [List.append_assoc, List.singleton_append, List.length_append, List.length_singleton]
  obtain rfl | rfl := hq <;> rw [scan, if_neg (by simp), if_neg (by decide), if_pos (by decide), hread]

end

/-! ### Words and marks -/

/-- A keyword in front of the end of a token. -/
theorem scan_keyword {c : Char} {cs rest : List Char} {m : Mark} (hstart : isWordStart c = true)
    (hdigit : c.isDigit = false) (hpoint : c ≠ '.') (hcs : cs.all isWordPart = true)
    (hkeyword : keyword? (String.ofList (c :: cs)) = some m) (hrest : Ends rest) :
    scan c (cs ++ rest) = .ok (.mark m, cs.length) := by
  have hword : (cs ++ rest).takeWhile isWordPart = cs :=
    takeWhile_append (List.all_eq_true.1 hcs) (by decide) (by decide) hrest
  rw [scan, if_neg (by simp [hdigit, hpoint]), if_pos hstart, hword]
  dsimp only
  rw [hkeyword]
  rfl

/-- The characters that are a mark, whatever follows them. -/
def soloMarks : List (Char × Mark) :=
  [('(', .leftParen), (')', .rightParen), (',', .comma), (':', .colon), ('-', .minus)]

theorem scan_soloMark {c : Char} {m : Mark} (hc : (c, m) ∈ soloMarks) (rest : List Char) :
    scan c rest = .ok (.mark m, 0) := by
  simp only [soloMarks, List.mem_cons, List.not_mem_nil, or_false, Prod.mk.injEq] at hc
  obtain ⟨rfl, rfl⟩ | ⟨rfl, rfl⟩ | ⟨rfl, rfl⟩ | ⟨rfl, rfl⟩ | ⟨rfl, rfl⟩ := hc <;> cases rest <;> rfl

theorem isGap_soloMark {c : Char} {m : Mark} (hc : (c, m) ∈ soloMarks) : isGap c = false := by
  simp only [soloMarks, List.mem_cons, List.not_mem_nil, or_false, Prod.mk.injEq] at hc
  obtain ⟨rfl, -⟩ | ⟨rfl, -⟩ | ⟨rfl, -⟩ | ⟨rfl, -⟩ | ⟨rfl, -⟩ := hc <;> decide

/-! ### Several tokens -/

section
variable {c : Char} {cs ds : List Char} {v w : List Token}

theorem tokensFrom_gap (hc : isGap c = true) (position : Nat) (cs : List Char) :
    tokensFrom position (c :: cs) = tokensFrom (position + 1) cs := by
  rw [tokensFrom, if_pos hc]

theorem tokensFrom_scan {t : Token} {rest : List Char} (hc : isGap c = false)
    (hscan : scan c (cs ++ rest) = .ok (t, cs.length)) (position : Nat) :
    tokensFrom position (c :: (cs ++ rest)) =
      (⟨t, position, position + 1 + cs.length⟩ :: ·) <$> tokensFrom (position + 1 + cs.length) rest := by
  rw [tokensFrom, if_neg (by rw [hc]; decide), hscan]
  simp only [List.drop_left]
  cases tokensFrom (position + 1 + cs.length) rest <;> rfl

/-- In front of the end of a token, the characters are read as the tokens. -/
def Lexes (cs : List Char) (w : List Token) : Prop :=
  ∀ position rest, Ends rest → ∃ placed, words placed = w ∧
    tokensFrom position (cs ++ rest) = (placed ++ ·) <$> tokensFrom (position + cs.length) rest

theorem Lexes.nil : Lexes [] [] := by
  intro position rest _
  refine ⟨[], rfl, ?_⟩
  simp

theorem Lexes.append (hcs : Lexes cs v) (hds : Lexes ds w) (hends : ∀ rest, Ends rest → Ends (ds ++ rest)) :
    Lexes (cs ++ ds) (v ++ w) := by
  intro position rest hrest
  obtain ⟨front, hfront, hread⟩ := hcs position (ds ++ rest) (hends rest hrest)
  obtain ⟨back, hback, hread'⟩ := hds (position + cs.length) rest hrest
  refine ⟨front ++ back, by rw [words_append, hfront, hback], ?_⟩
  rw [List.append_assoc, hread, hread', List.length_append, Nat.add_assoc]
  simp [Functor.map_map]

theorem Lexes.cons {t : Token} (hc : isGap c = false)
    (hscan : ∀ rest, Ends rest → scan c (cs ++ (ds ++ rest)) = .ok (t, cs.length)) (hds : Lexes ds w) :
    Lexes (c :: (cs ++ ds)) (t :: w) := by
  intro position rest hrest
  obtain ⟨placed, hplaced, hread⟩ := hds (position + 1 + cs.length) rest hrest
  refine ⟨⟨t, position, position + 1 + cs.length⟩ :: placed, by rw [words_cons, hplaced], ?_⟩
  have hlen : position + (c :: (cs ++ ds)).length = position + 1 + cs.length + ds.length := by
    simp only [List.length_cons, List.length_append]
    omega
  rw [List.cons_append, List.append_assoc, tokensFrom_scan hc (hscan rest hrest), hread, hlen]
  simp [Functor.map_map]

/-- A token that only the end of a token may follow. -/
theorem Lexes.token {t : Token} (hc : isGap c = false)
    (hscan : ∀ rest, Ends rest → scan c (cs ++ rest) = .ok (t, cs.length)) : Lexes (c :: cs) [t] := by
  have hcons := @Lexes.cons c cs [] [] t hc hscan .nil
  rwa [List.append_nil] at hcons

/-- A token that anything may follow. -/
theorem Lexes.mark {m : Mark} (hc : (c, m) ∈ soloMarks) (hcs : Lexes cs w) : Lexes (c :: cs) (.mark m :: w) :=
  @Lexes.cons c [] cs w (.mark m) (isGap_soloMark hc) (fun _ _ => scan_soloMark hc _) hcs

theorem Lexes.gap (hc : isGap c = true) (hcs : Lexes cs w) : Lexes (c :: cs) w := by
  intro position rest hrest
  obtain ⟨placed, hplaced, hread⟩ := hcs (position + 1) rest hrest
  refine ⟨placed, hplaced, ?_⟩
  rw [List.cons_append, tokensFrom_gap hc, hread, List.length_cons, Nat.add_assoc, Nat.add_comm 1]

theorem lexes_true : Lexes ['T', 'r', 'u', 'e'] [.mark .true] := by
  have hkeyword : keyword? (String.ofList ['T', 'r', 'u', 'e']) = some .true := by decide
  exact .token (by decide) fun _ hrest => scan_keyword (by decide) (by decide) (by decide) (by decide) hkeyword hrest

theorem lexes_false : Lexes ['F', 'a', 'l', 's', 'e'] [.mark .false] := by
  have hkeyword : keyword? (String.ofList ['F', 'a', 'l', 's', 'e']) = some .false := by decide
  exact .token (by decide) fun _ hrest => scan_keyword (by decide) (by decide) (by decide) (by decide) hkeyword hrest

theorem isGap_of_isDigit (h : c.isDigit = true) : isGap c = false := by
  unfold isGap
  by_contra hgap
  simp only [Bool.not_eq_false, Bool.or_eq_true, decide_eq_true_eq] at hgap
  obtain ((((rfl | rfl) | rfl) | rfl) | rfl) | rfl := hgap <;> cases h

/-- A number in decimal is read as the number. -/
theorem lexes_digits {n : Nat} {m : Int64} (hm : Whole.ofInt? n = some m) :
    Lexes (Digits.chars (Digits.ofNat n)) [.int m] := by
  cases hdigits : Digits.chars (Digits.ofNat n) with
  | nil => exact absurd (List.map_eq_nil_iff.1 hdigits) (Digits.ofNat_ne_nil n)
  | cons c cs =>
    have hdigit : c.isDigit = true :=
      Digits.isDigit_of_mem_chars (fun _ => Digits.lt_ten_of_mem_ofNat) (hdigits ▸ List.mem_cons_self ..)
    exact .token (isGap_of_isDigit hdigit) fun rest hrest => scan_digits hm hdigits hrest

/-- A quoted text is read as the text. -/
theorem lexes_quoted (s : String) : Lexes (Text.quoted s).toList [.str s] := by
  rw [Text.quoted, String.toList_ofList, Text.Quoted.encode]
  have hquote := mark_cases s.toList
  have hgap : isGap (Text.Quoted.mark s.toList) = false := by
    obtain hq | hq := hquote <;> rw [hq] <;> decide
  refine .token hgap fun rest _ => ?_
  rw [scan_quoted hquote, String.ofList_toList]

/-- The tokens of a whole text. -/
theorem Lexes.tokens (h : Lexes cs w) : ∃ placed, words placed = w ∧ Lexer.tokens cs = .ok placed := by
  obtain ⟨placed, hplaced, hread⟩ := h 0 [] ends_nil
  refine ⟨placed, hplaced, ?_⟩
  rw [List.append_nil, tokensFrom] at hread
  rw [Lexer.tokens, hread]
  simp [Functor.map, Except.map]

end
end Lexer
end Millrace
