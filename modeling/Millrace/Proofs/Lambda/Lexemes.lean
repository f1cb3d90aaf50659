import Millrace.Proofs.Lambda.Lexing
import Millrace.Proofs.Results

/-!
# Lexemes

How numbers, words and operators are spelled, and that the lexer takes the longest of them (`scan_longest`).  What is
said of a token is said of its own characters: they alone give the token again (`scan_take`).
-/

namespace Millrace
namespace Lexer

/-! ### Runs -/

section
variable {p : Char → Bool} {cs ds : List Char}

/-- The text is over, or goes on with a character of another sort. -/
def Stops (p : Char → Bool) (cs : List Char) : Prop := ∀ c, cs.head? = some c → p c = false

theorem stops_nil (p : Char → Bool) : Stops p [] := fun _ h => nomatch h

theorem stops_cons {c : Char} (h : p c = false) (cs : List Char) : Stops p (c :: cs) := by
  intro c' hc
  cases hc
  exact h

theorem takeWhile_eq_nil (h : Stops p cs) : cs.takeWhile p = [] := by
  cases cs with
  | nil => rfl
  | cons c cs => exact List.takeWhile_cons_of_neg (by rw [h c rfl]; decide)

theorem takeWhile_run (hds : ∀ c ∈ ds, p c = true) (hcs : Stops p cs) : (ds ++ cs).takeWhile p = ds := by
  rw [List.takeWhile_append_of_pos hds, takeWhile_eq_nil hcs, List.append_nil]

/-- A text begins with a run of characters of one sort that is as long as it can be. -/
theorem exists_run (p : Char → Bool) (cs : List Char) :
    ∃ run rest, cs = run ++ rest ∧ (∀ c ∈ run, p c = true) ∧ Stops p rest := by
  induction cs with
  | nil => exact ⟨[], [], rfl, List.forall_mem_nil _, stops_nil p⟩
  | cons c cs ih =>
    cases hc : p c with
    | false => exact ⟨[], c :: cs, rfl, List.forall_mem_nil _, stops_cons hc cs⟩
    | true =>
      obtain ⟨run, rest, rfl, hrun, hrest⟩ := ih
      exact ⟨c :: run, rest, rfl, List.forall_mem_cons.2 ⟨hc, hrun⟩, hrest⟩

end

/-! ### Numbers -/

/-- Digits with underscores among them, before and perhaps after a point. -/
inductive IsMantissa : List Char → Prop
  | whole {w : List Char} (hw : ∀ c ∈ w, isNumberPart c = true) : IsMantissa w
  | point {w f : List Char} (hw : ∀ c ∈ w, isNumberPart c = true) (hf : ∀ c ∈ f, isNumberPart c = true) :
      IsMantissa (w ++ '.' :: f)

/-- What stands behind the `e` of a number. -/
inductive IsExponent : List Char → Prop
  | unsigned {d : Char} {ds : List Char} (hd : d.isDigit = true) (hds : ∀ c ∈ ds, isNumberPart c = true) :
      IsExponent (d :: ds)
  | signed {s d : Char} {ds : List Char} (hs : s = '+' ∨ s = '-') (hd : d.isDigit = true)
      (hds : ∀ c ∈ ds, isNumberPart c = true) : IsExponent (s :: d :: ds)

/-- An `e` with an exponent, or nothing. -/
inductive IsScale : List Char → Prop
  | unit : IsScale []
  | power {e : Char} {x : List Char} (he : e = 'e' ∨ e = 'E') (hx : IsExponent x) : IsScale (e :: x)

/-- A mantissa and its scale. -/
inductive IsNumeral : List Char → Prop
  | mk {m x : List Char} (hm : IsMantissa m) (hx : IsScale x) : IsNumeral (m ++ x)

section
variable {w f x cs post number : List Char} {e : Char}

theorem exponentPart_of_isExponent (he : e = 'e' ∨ e = 'E') (hx : IsExponent x) (hpost : Stops isNumberPart post) :
    exponentPart (e :: (x ++ post)) = x := by
  have hletter : (decide (e = 'e') || decide (e = 'E')) = true := by
    obtain rfl | rfl := he <;> rfl
  cases hx with
  | @unsigned d ds hd hds =>
    have hsign : (decide (d = '+') || decide (d = '-')) = false := by
      simp only [Bool.or_eq_false_iff, decide_eq_false_iff_not]
      constructor <;> rintro rfl <;> cases hd
    cases hmore : ds ++ post with
    | nil =>
      obtain ⟨rfl, rfl⟩ := List.append_eq_nil_iff.1 hmore
      simp [exponentPart, hletter, hd]
    | cons d' more =>
      rw [List.cons_append, hmore, exponentPart]
      simp only [hletter, hsign, hd, Bool.false_and, Bool.false_eq_true, ↓reduceIte]
      rw [← hmore, takeWhile_run hds hpost]
  | @signed s d ds hs hd hds =>
    have hsign : (decide (s = '+') || decide (s = '-')) = true := by
      obtain rfl | rfl := hs <;> rfl
    rw [List.cons_append, List.cons_append, exponentPart]
    simp only [hletter, hsign, hd, Bool.and_self, ↓reduceIte]
    rw [takeWhile_run hds hpost]

/-- A text begins with an exponent that is as long as it can be, or with none. -/
theorem exponentPart_cases (cs : List Char) :
    (∃ e x post, cs = e :: (x ++ post) ∧ (e = 'e' ∨ e = 'E') ∧ IsExponent x ∧ Stops isNumberPart post) ∨
      exponentPart cs = [] := by
  fun_cases exponentPart cs
  case case1 e he s d more hsigned =>
    obtain ⟨hs, hd⟩ := Bool.and_eq_true_iff.1 hsigned
    obtain ⟨ds, post, rfl, hds, hpost⟩ := exists_run isNumberPart more
    exact .inl ⟨e, s :: d :: ds, post, rfl, by simpa using he, .signed (by simpa using hs) hd hds, hpost⟩
  case case2 e he s d more _ hs =>
    obtain ⟨ds, post, hmore, hds, hpost⟩ := exists_run isNumberPart (d :: more)
    exact .inl ⟨e, s :: ds, post, by rw [hmore]; rfl, by simpa using he, .unsigned hs hds, hpost⟩
  case case4 e he d hd =>
    exact .inl ⟨e, [d], [], rfl, by simpa using he, .unsigned hd (List.forall_mem_nil _), stops_nil _⟩
  all_goals exact .inr rfl

theorem IsExponent.ne_nil (h : IsExponent x) : x ≠ [] := by
  cases h <;> exact List.cons_ne_nil _ _

theorem IsScale.stops (h : IsScale x) : Stops isNumberPart x := by
  cases h with
  | unit => exact stops_nil _
  | power he hx => obtain rfl | rfl := he <;> exact stops_cons (by decide) _

theorem IsScale.head?_ne (h : IsScale x) : x.head? ≠ some '.' := by
  cases h with
  | unit => exact fun h => nomatch h
  | power he hx => obtain rfl | rfl := he <;> simp

/-- How many characters an exponent takes with its `e`. -/
def scaleLength (exponent : List Char) : Nat := if exponent.isEmpty then 0 else 1 + exponent.length

theorem length_whole (w x : List Char) : (NumberParts.mk w false [] x).length = w.length + scaleLength x := rfl

theorem length_point (w f x : List Char) :
    (NumberParts.mk w true f x).length = w.length + (1 + f.length) + scaleLength x := rfl

theorem scaleLength_of_isExponent (h : IsExponent x) : scaleLength x = x.length + 1 := by
  rw [scaleLength, if_neg (by simpa using h.ne_nil), Nat.add_comm]

/-- The scale in front of a text gives the same exponent when it is alone. -/
theorem exponentPart_split (cs : List Char) :
    ∃ x post, cs = x ++ post ∧ IsScale x ∧ exponentPart x = exponentPart cs ∧
      scaleLength (exponentPart cs) = x.length := by
  obtain ⟨e, x, post, rfl, he, hx, hpost⟩ | hnone := exponentPart_cases cs
  · have halone := exponentPart_of_isExponent he hx (stops_nil _)
    rw [List.append_nil] at halone
    rw [exponentPart_of_isExponent he hx hpost]
    exact ⟨e :: x, post, rfl, .power he hx, halone, scaleLength_of_isExponent hx⟩
  · exact ⟨[], cs, rfl, .unit, hnone.symm, by rw [hnone]; rfl⟩

/-- A scale is no longer than the one that the lexer finds. -/
theorem length_le_scaleLength (h : IsScale x) (post : List Char) :
    x.length ≤ scaleLength (exponentPart (x ++ post)) := by
  cases h with
  | unit => exact Nat.zero_le _
  | @power e x he hx =>
    obtain ⟨run, rest, rfl, hrun, hrest⟩ := exists_run isNumberPart post
    have hlonger : IsExponent (x ++ run) := by
      cases hx with
      | unsigned hd hds => exact .unsigned hd (List.forall_mem_append.2 ⟨hds, hrun⟩)
      | signed hs hd hds => exact .signed hs hd (List.forall_mem_append.2 ⟨hds, hrun⟩)
    rw [List.cons_append, ← List.append_assoc, exponentPart_of_isExponent he hlonger hrest,
      scaleLength_of_isExponent hlonger, List.length_append, List.length_cons]
    omega

theorem numberParts_whole (hw : ∀ c ∈ w, isNumberPart c = true) (hx : Stops isNumberPart x)
    (hpoint : x.head? ≠ some '.') : numberParts (w ++ x) = ⟨w, false, [], exponentPart x⟩ := by
  rw [numberParts, takeWhile_run hw hx, List.drop_left]
  split
  · exact absurd rfl hpoint
  · rfl

theorem numberParts_point (hw : ∀ c ∈ w, isNumberPart c = true) (hf : ∀ c ∈ f, isNumberPart c = true)
    (hx : Stops isNumberPart x) : numberParts (w ++ '.' :: (f ++ x)) = ⟨w, true, f, exponentPart x⟩ := by
  rw [numberParts, takeWhile_run hw (stops_cons (by decide) _), List.drop_left]
  simp only [takeWhile_run hf hx, List.drop_left]

/-- A mantissa is no longer than the number in front of a text that begins with it. -/
theorem length_mantissa_le (h : IsMantissa number) (post : List Char) :
    number.length ≤ (numberParts (number ++ post)).length := by
  cases h with
  | whole hw =>
    have hlonger : number.length ≤ ((number ++ post).takeWhile isNumberPart).length := by
      rw [List.takeWhile_append_of_pos hw, List.length_append]
      exact Nat.le_add_right ..
    have hparts : (numberParts (number ++ post)).whole = (number ++ post).takeWhile isNumberPart := by
      rw [numberParts]
      split <;> rfl
    rw [NumberParts.length, hparts]
    omega
  | @point w f hw hf =>
    obtain ⟨run, rest, rfl, hrun, hrest⟩ := exists_run isNumberPart post
    have hlonger := numberParts_point hw (List.forall_mem_append.2 ⟨hf, hrun⟩) hrest
    rw [List.append_assoc] at hlonger
    rw [List.append_assoc, List.cons_append, hlonger, length_point]
    simp only [List.length_append, List.length_cons]
    omega

/-- A numeral is no longer than the number in front of a text that begins with it. -/
theorem length_le_numberParts (h : IsNumeral number) (post : List Char) :
    number.length ≤ (numberParts (number ++ post)).length := by
  obtain @⟨m, x, hm, hx⟩ := h
  cases hx with
  | unit =>
    rw [List.append_nil]
    exact length_mantissa_le hm post
  | @power e x he hx =>
    have hscale : IsScale (e :: x) := .power he hx
    have hle : (e :: x).length ≤ scaleLength (exponentPart (e :: x ++ post)) := length_le_scaleLength hscale post
    have hstops : Stops isNumberPart (e :: x ++ post) := stops_cons (hscale.stops e rfl) _
    have hpoint : (e :: x ++ post).head? ≠ some '.' := hscale.head?_ne
    rw [List.append_assoc]
    cases hm with
    | whole hw =>
      rw [numberParts_whole hw hstops hpoint, length_whole, List.length_append]
      exact Nat.add_le_add_left hle _
    | @point w f hw hf =>
      rw [List.append_assoc w _ (e :: x ++ post), List.cons_append, numberParts_point hw hf hstops, length_point]
      simp only [List.length_append, List.length_cons] at hle ⊢
      omega

/-- The number in front of a text is a numeral, and gives the same parts when it is alone. -/
theorem numberParts_split (cs : List Char) :
    ∃ number post, cs = number ++ post ∧ IsNumeral number ∧ (numberParts cs).length = number.length ∧
      numberParts number = numberParts cs := by
  obtain ⟨w, rest, rfl, hw, hrest⟩ := exists_run isNumberPart cs
  by_cases hpoint : rest.head? = some '.'
  · obtain ⟨rest, rfl⟩ := List.head?_eq_some_iff.1 hpoint
    obtain ⟨f, rest, rfl, hf, hrest⟩ := exists_run isNumberPart rest
    obtain ⟨x, post, rfl, hx, hexponent, hlength⟩ := exponentPart_split rest
    refine ⟨w ++ '.' :: f ++ x, post, by simp, .mk (.point hw hf) hx, ?_, ?_⟩
    · rw [numberParts_point hw hf hrest, length_point, hlength]
      simp only [List.length_append, List.length_cons]
      omega
    · rw [numberParts_point hw hf hrest, ← hexponent, ← numberParts_point hw hf hx.stops, List.append_assoc]
      rfl
  · obtain ⟨x, post, rfl, hx, hexponent, hlength⟩ := exponentPart_split rest
    refine ⟨w ++ x, post, by simp, .mk (.whole hw) hx, ?_, ?_⟩
    · rw [numberParts_whole hw hrest hpoint, length_whole, hlength, List.length_append]
    · rw [numberParts_whole hw hrest hpoint, ← hexponent, ← numberParts_whole hw hx.stops hx.head?_ne]

end

/-- A digit, or a point in front of a digit. -/
def startsNumber (c : Char) (rest : List Char) : Bool := c.isDigit || (c = '.' && rest.head?.any (·.isDigit))

/-- A numeral that starts as a number does. -/
def IsNumber (cs : List Char) : Prop := IsNumeral cs ∧ ∃ c rest, cs = c :: rest ∧ startsNumber c rest = true

/-! ### Words, texts and operators -/

/-- A letter or an underscore, then letters, digits and underscores. -/
inductive IsWord : List Char → Prop
  | mk {c : Char} {cs : List Char} (hc : isWordStart c = true) (hcs : ∀ d ∈ cs, isWordPart d = true) : IsWord (c :: cs)

/-- The characters of a text and what is written for them in front of a quote, with the quote. -/
inductive IsQuoted (quote : Char) : List Char → List Char → Prop
  | close : IsQuoted quote [] [quote]
  | plain {c : Char} {text body : List Char} (hquote : c ≠ quote) (hslash : c ≠ '\\') (hline : c ≠ '\n')
      (h : IsQuoted quote text body) : IsQuoted quote (c :: text) (c :: body)
  | escaped {e : Char} {text body : List Char} (hslash : '\\' ≠ quote) (h : IsQuoted quote text body) :
      IsQuoted quote (unescape e :: text) ('\\' :: e :: body)

end Lexer

/-- How a mark is written. -/
def Mark.spelling : Mark → List Char
  | lambda => ['l', 'a', 'm', 'b', 'd', 'a']
  | and => ['a', 'n', 'd']
  | or => ['o', 'r']
  | not => ['n', 'o', 't']
  | .if => ['i', 'f']
  | .else => ['e', 'l', 's', 'e']
  | .true => ['T', 'r', 'u', 'e']
  | .false => ['F', 'a', 'l', 's', 'e']
  | plus => ['+']
  | minus => ['-']
  | star => ['*']
  | starStar => ['*', '*']
  | slash => ['/']
  | slashSlash => ['/', '/']
  | percent => ['%']
  | leftParen => ['(']
  | rightParen => [')']
  | leftBracket => ['[']
  | rightBracket => [']']
  | comma => [',']
  | colon => [':']
  | dot => ['.']
  | eqEq => ['=', '=']
  | ne => ['!', '=']
  | lt => ['<']
  | le => ['<', '=']
  | gt => ['>']
  | ge => ['>', '=']

namespace Lexer

/-- The characters of a mark that is no word. -/
def IsOperator (cs : List Char) : Prop := ∃ m : Mark, cs = m.spelling ∧ keyword? (String.ofList cs) = none

/-- A number, a word or an operator. -/
def IsLexeme (cs : List Char) : Prop := IsNumber cs ∨ IsWord cs ∨ IsOperator cs

/-- What the characters of a token look like. -/
def Spells (cs : List Char) : Token → Prop
  | .int _ | .float _ => IsNumber cs
  | .str s => ∃ quote body, cs = quote :: body ∧ (quote = '\'' ∨ quote = '"') ∧ IsQuoted quote s.toList body
  | .ident name => IsWord cs ∧ String.ofList cs = name ∧ keyword? name = none
  | .mark m => cs = m.spelling

section
variable {c d : Char} {cs rest post longer : List Char} {m : Mark}

theorem isWord_spelling (m : Mark) (h : keyword? (String.ofList m.spelling) ≠ none) : IsWord m.spelling := by
  cases m
  case lambda | and | or | not | «if» | «else» | «true» | «false» => exact .mk rfl (List.all_eq_true.1 rfl)
  all_goals exact absurd (by decide) h

theorem spelling_of_keyword {s : String} (h : keyword? s = some m) : m.spelling = s.toList := by
  unfold keyword? at h
  split at h <;> cases h <;> rfl

theorem charMark_spec (h : charMark? c = some m) :
    m.spelling = [c] ∧ c.isDigit = false ∧ isWordStart c = false := by
  unfold charMark? at h
  split at h <;> cases h <;> exact ⟨rfl, by decide⟩

theorem pairMark_spec (h : pairMark? c d = some m) :
    m.spelling = [c, d] ∧ c.isDigit = false ∧ isWordStart c = false ∧ c ≠ '.' := by
  unfold pairMark? at h
  split at h <;> cases h <;> exact ⟨rfl, by decide⟩

theorem operator_cases (h : IsOperator cs) :
    (∃ c m, cs = [c] ∧ charMark? c = some m) ∨ ∃ c d m, cs = [c, d] ∧ pairMark? c d = some m := by
  obtain ⟨m, rfl, hkeyword⟩ := h
  cases m
  case lambda | and | or | not | «if» | «else» | «true» | «false» => exact absurd hkeyword (by decide)
  case starStar | slashSlash | eqEq | ne | le | ge => exact .inr ⟨_, _, _, rfl, rfl⟩
  all_goals exact .inl ⟨_, _, rfl, rfl⟩

theorem operator_shape (h : IsOperator (c :: cs)) : c.isDigit = false ∧ isWordStart c = false ∧ (c = '.' → cs = []) ∧
    (cs = [] ∨ ∃ d, cs = [d] ∧ pairMark? c d ≠ none) := by
  obtain ⟨c', m, hcons, hmark⟩ | ⟨c', d, m, hcons, hmark⟩ := operator_cases h
  · obtain ⟨rfl, rfl⟩ := List.cons.inj hcons
    obtain ⟨-, hdigit, hstart⟩ := charMark_spec hmark
    exact ⟨hdigit, hstart, fun _ => rfl, .inl rfl⟩
  · obtain ⟨rfl, rfl⟩ := List.cons.inj hcons
    obtain ⟨-, hdigit, hstart, hpoint⟩ := pairMark_spec hmark
    exact ⟨hdigit, hstart, fun h => absurd h hpoint, .inr ⟨d, rfl, Option.ne_none_iff_exists'.2 ⟨m, hmark⟩⟩⟩

/-- Characters with this spelling are a lexeme, unless they are those of a text. -/
theorem isLexeme_of_spells {t : Token} (h : Spells cs t) (ht : ∀ s, t ≠ .str s) : IsLexeme cs := by
  cases t with
  | int n => exact .inl h
  | float x => exact .inl h
  | str s => exact absurd rfl (ht s)
  | ident name => exact .inr (.inl h.1)
  | mark m =>
    obtain rfl : cs = m.spelling := h
    by_cases hkeyword : keyword? (String.ofList m.spelling) = none
    · exact .inr (.inr ⟨m, rfl, hkeyword⟩)
    · exact .inr (.inl (isWord_spelling m hkeyword))

theorem IsLexeme.exists_cons (h : IsLexeme cs) : ∃ c rest, cs = c :: rest := by
  obtain ⟨-, c, rest, rfl, -⟩ | hword | ⟨m, rfl, -⟩ := h
  · exact ⟨c, rest, rfl⟩
  · cases hword with
    | mk _ _ => exact ⟨_, _, rfl⟩
  · cases m <;> exact ⟨_, _, rfl⟩

theorem startsNumber_append (h : startsNumber c cs = true) (post : List Char) :
    startsNumber c (cs ++ post) = true := by
  cases cs with
  | nil =>
    have hdigit : c.isDigit = true := by simpa [startsNumber] using h
    rw [startsNumber, hdigit, Bool.true_or]
  | cons d cs => exact h

/-! ### The longest lexeme -/

/-- The token `t` in front of `c :: rest` takes the characters `body` of `rest`: they alone give it, and it is spelled
so; and no lexeme in its place is longer. -/
structure Takes (c : Char) (rest : List Char) (t : Token) (body : List Char) : Prop where
  front : ∃ post, rest = body ++ post
  alone : scan c body = .ok (t, body.length)
  spells : Spells (c :: body) t
  longest : (∀ s, t ≠ .str s) → ∀ longer post, rest = longer ++ post → IsLexeme (c :: longer) →
    longer.length ≤ body.length

theorem toNat_of_isAlpha (h : c.isAlpha = true) : 65 ≤ c.toNat ∧ c.toNat ≤ 122 := by
  obtain h | h := Bool.or_eq_true_iff.1 h
  · obtain ⟨hlow, hhigh⟩ := of_decide_eq_true h
    exact ⟨UInt32.le_iff_toNat_le.1 hlow, Nat.le_trans (UInt32.le_iff_toNat_le.1 hhigh) (by decide)⟩
  · obtain ⟨hlow, hhigh⟩ := Bool.and_eq_true_iff.1 h
    exact ⟨Nat.le_trans (by decide) (UInt32.le_iff_toNat_le.1 (of_decide_eq_true hlow)),
      UInt32.le_iff_toNat_le.1 (of_decide_eq_true hhigh)⟩

theorem not_startsNumber_of_isWordStart (hc : isWordStart c = true) (rest : List Char) :
    startsNumber c rest = false := by
  have hdigit : c.isDigit = false := by
    rw [← Bool.not_eq_true]
    intro hdigit
    obtain ⟨-, hhigh⟩ := Char.isDigit_iff_toNat.1 hdigit
    obtain halpha | hunderscore := Bool.or_eq_true_iff.1 hc
    · exact absurd (Nat.le_trans (toNat_of_isAlpha halpha).1 hhigh) (by decide)
    · rw [of_decide_eq_true hunderscore] at hdigit
      cases hdigit
  have hpoint : c ≠ '.' := by
    rintro rfl
    cases hc
  rw [startsNumber, hdigit, decide_eq_false hpoint]
  rfl

theorem scan_number (hc : startsNumber c rest = true) : scan c rest =
    (numberParts (c :: rest)).token.map fun t => (t, (numberParts (c :: rest)).length - 1) := by
  rw [scan]
  exact if_pos hc

theorem scan_word (hc : isWordStart c = true) (rest : List Char) : scan c rest =
    .ok (((keyword? (String.ofList (c :: rest.takeWhile isWordPart))).map Token.mark).getD
      (.ident (String.ofList (c :: rest.takeWhile isWordPart))), (rest.takeWhile isWordPart).length) := by
  have hnumber : ¬ startsNumber c rest = true := by
    rw [not_startsNumber_of_isWordStart hc]
    decide
  rw [scan]
  exact (if_neg hnumber).trans (if_pos hc)

theorem scan_text (hc : c = '\'' ∨ c = '"') (rest : List Char) : scan c rest =
    match quotedText c rest with
    | some (text, n) => .ok (.str (String.ofList text), n)
    | none => .error .unterminatedText := by
  have hnumber : ¬ startsNumber c rest = true := by obtain rfl | rfl := hc <;> simp [startsNumber]
  have hword : ¬ isWordStart c = true := by obtain rfl | rfl := hc <;> decide
  have hquote : (decide (c = '\'') || decide (c = '"')) = true := by simpa using hc
  rw [scan]
  exact (if_neg hnumber).trans ((if_neg hword).trans (if_pos hquote))

theorem scan_operator (hnumber : startsNumber c rest = false) (hword : isWordStart c = false)
    (hquote : ¬ (c = '\'' ∨ c = '"')) : scan c rest = operator c rest := by
  have hstart : ¬ startsNumber c rest = true := by
    rw [hnumber]
    decide
  rw [scan]
  refine (if_neg hstart).trans ((if_neg (by rw [hword]; decide)).trans (if_neg ?_))
  simpa using hquote

theorem spells_number {p : NumberParts} {t : Token} (h : p.token = .ok t) (hcs : IsNumber cs) : Spells cs t := by
  rw [NumberParts.token] at h
  split at h
  · cases h
    exact hcs
  · split at h
    · cases h
      exact hcs
    · cases h

/-- The number in front of a text starts as the text does. -/
theorem numberParts_front (hc : startsNumber c rest = true) :
    ∃ body post, rest = body ++ post ∧ startsNumber c body = true ∧ IsNumeral (c :: body) ∧
      (numberParts (c :: rest)).length = body.length + 1 ∧ numberParts (c :: body) = numberParts (c :: rest) := by
  obtain ⟨number, post, hsplit, hnumeral, hlength, halone⟩ := numberParts_split (c :: rest)
  have hrun {d : Char} (hd : d.isDigit = true) : ∀ d' ∈ [d], isNumberPart d' = true :=
    List.forall_mem_singleton.2 (isNumberPart_of_isDigit hd)
  have hleast : ∀ {least post'}, c :: rest = least ++ post' → IsNumeral least → least.length ≤ number.length := by
    intro least post' heq hleast
    rw [← hlength, heq]
    exact length_le_numberParts hleast post'
  cases hdigit : c.isDigit with
  | true =>
    have hlong : 1 ≤ number.length := @hleast [c] rest rfl (.mk (.whole (hrun hdigit)) .unit)
    cases number with
    | nil => cases hlong
    | cons c' body =>
      cases hsplit
      exact ⟨body, post, rfl, by rw [startsNumber, hdigit]; rfl, hnumeral, hlength, halone⟩
  | false =>
    simp only [startsNumber, hdigit, Bool.false_or, Bool.and_eq_true, decide_eq_true_eq, Option.any_eq_true,
      List.head?_eq_some_iff] at hc
    obtain ⟨rfl, d, ⟨tail, rfl⟩, hd⟩ := hc
    have hlong : 2 ≤ number.length :=
      @hleast ['.', d] tail rfl (.mk (@IsMantissa.point [] [d] (List.forall_mem_nil _) (hrun hd)) .unit)
    match number, hlong with
    | c' :: d' :: body, _ =>
      cases hsplit
      exact ⟨d :: body, post, rfl, by simp [startsNumber, hd], hnumeral, hlength, halone⟩

theorem takes_number {t : Token} {n : Nat} (hc : startsNumber c rest = true) (h : scan c rest = .ok (t, n)) :
    ∃ body, n = body.length ∧ Takes c rest t body := by
  obtain ⟨body, post, hrest, hstart, hnumeral, hlength, halone⟩ := numberParts_front hc
  rw [scan_number hc, hlength] at h
  obtain ⟨t', htoken, h⟩ := map_eq_ok h
  cases h
  refine ⟨body, rfl, ⟨post, hrest⟩, ?_, spells_number htoken ⟨hnumeral, c, body, rfl, hstart⟩, ?_⟩
  · rw [scan_number hstart, halone, hlength, htoken]
    rfl
  · rintro - longer post' rfl (⟨hlonger, -⟩ | hword | hoperator)
    · have hle : (c :: longer).length ≤ _ := length_le_numberParts hlonger post'
      rw [List.cons_append, hlength] at hle
      exact Nat.le_of_succ_le_succ hle
    · cases hword with
      | mk hword _ =>
        rw [not_startsNumber_of_isWordStart hword] at hc
        cases hc
    · obtain ⟨hdigit, -, hpoint, -⟩ := operator_shape hoperator
      simp only [startsNumber, hdigit, Bool.false_or, Bool.and_eq_true, decide_eq_true_eq] at hc
      rw [hpoint hc.1]
      exact Nat.zero_le _

theorem takes_word {t : Token} {n : Nat} (hc : isWordStart c = true) (h : scan c rest = .ok (t, n)) :
    ∃ body, n = body.length ∧ Takes c rest t body := by
  obtain ⟨body, post, rfl, hbody, hpost⟩ := exists_run isWordPart rest
  have halone : body.takeWhile isWordPart = body := by
    simpa using takeWhile_run hbody (stops_nil isWordPart)
  rw [scan_word hc, takeWhile_run hbody hpost] at h
  cases h
  refine ⟨body, rfl, ⟨post, rfl⟩, by rw [scan_word hc, halone], ?_, ?_⟩
  · cases hkeyword : keyword? (String.ofList (c :: body)) with
    | none => exact ⟨.mk hc hbody, rfl, hkeyword⟩
    | some m =>
      change c :: body = m.spelling
      rw [spelling_of_keyword hkeyword, String.toList_ofList]
  · rintro - longer post' heq (⟨-, c', rest', hcons, hstart⟩ | hword | hoperator)
    · cases hcons
      rw [not_startsNumber_of_isWordStart hc] at hstart
      cases hstart
    · cases hword with
      | mk _ hlonger =>
        have hrun := congrArg (List.takeWhile isWordPart) heq
        rw [takeWhile_run hbody hpost, List.takeWhile_append_of_pos hlonger] at hrun
        rw [hrun, List.length_append]
        exact Nat.le_add_right ..
    · obtain ⟨-, hstart, -⟩ := operator_shape hoperator
      rw [hc] at hstart
      cases hstart

theorem quotedText_split {quote : Char} {text : List Char} {n : Nat} (h : quotedText quote cs = some (text, n)) :
    ∃ body post, cs = body ++ post ∧ n = body.length ∧ IsQuoted quote text body ∧
      quotedText quote body = some (text, n) := by
  fun_induction quotedText quote cs generalizing text n with
  | case1 | case3 | case5 => cases h
  | case2 rest =>
    cases h
    exact ⟨[quote], rest, rfl, rfl, .close, quotedText_close quote []⟩
  | case4 e more hquote ih =>
    obtain ⟨⟨text, n⟩, htext, h⟩ := Option.map_eq_some_iff.1 h
    obtain ⟨body, post, rfl, rfl, hquoted, halone⟩ := ih htext
    cases h
    exact ⟨_, post, rfl, rfl, .escaped hquote hquoted, by rw [quotedText_escaped hquote, halone]; rfl⟩
  | case6 c rest hquote hslash hline ih =>
    obtain ⟨⟨text, n⟩, htext, h⟩ := Option.map_eq_some_iff.1 h
    obtain ⟨body, post, rfl, rfl, hquoted, halone⟩ := ih htext
    cases h
    exact ⟨_, post, rfl, rfl, .plain hquote hslash hline hquoted,
      by rw [quotedText_plain hquote hslash hline, halone]; rfl⟩

theorem takes_text {t : Token} {n : Nat} (hc : c = '\'' ∨ c = '"') (h : scan c rest = .ok (t, n)) :
    ∃ body, n = body.length ∧ Takes c rest t body := by
  rw [scan_text hc] at h
  cases htext : quotedText c rest with
  | none =>
    rw [htext] at h
    cases h
  | some p =>
    obtain ⟨text, n⟩ := p
    rw [htext] at h
    cases h
    obtain ⟨body, post, rfl, rfl, hquoted, halone⟩ := quotedText_split htext
    refine ⟨body, rfl, ⟨post, rfl⟩, by rw [scan_text hc, halone], ⟨c, body, rfl, hc, ?_⟩, fun ht => absurd rfl (ht _)⟩
    rwa [String.toList_ofList]

theorem takes_operator {t : Token} {n : Nat} (hnumber : startsNumber c rest = false) (hword : isWordStart c = false)
    (hquote : ¬ (c = '\'' ∨ c = '"')) (h : scan c rest = .ok (t, n)) :
    ∃ body, n = body.length ∧ Takes c rest t body := by
  -- An operator in the same place is the only other lexeme: a number or a word would start with `c` too.
  have hoperators : ∀ {longer post'}, rest = longer ++ post' → IsLexeme (c :: longer) →
      longer = [] ∨ ∃ d, longer = [d] ∧ pairMark? c d ≠ none := by
    rintro longer post' rfl (⟨-, c', rest', hcons, hstart⟩ | hstart | hoperator)
    · cases hcons
      rw [startsNumber_append hstart] at hnumber
      cases hnumber
    · cases hstart with
      | mk hstart _ =>
        rw [hword] at hstart
        cases hstart
    · exact (operator_shape hoperator).2.2.2
  rw [scan_operator hnumber hword hquote, operator] at h
  split at h
  · next m hmark =>
    cases h
    obtain ⟨d, hhead, hpair⟩ := Option.bind_eq_some_iff.1 hmark
    obtain ⟨post, rfl⟩ := List.head?_eq_some_iff.1 hhead
    refine ⟨[d], rfl, ⟨post, rfl⟩, ?_, (pairMark_spec hpair).1.symm, fun _ longer post' hlonger hlexeme => ?_⟩
    · have hstart : startsNumber c [d] = false := hnumber
      rw [scan_operator hstart hword hquote, operator, List.head?_cons, Option.bind_some, hpair]
      rfl
    · obtain rfl | ⟨d', rfl, -⟩ := hoperators hlonger hlexeme
      · exact Nat.zero_le _
      · exact Nat.le_refl _
  · next hpair =>
    split at h
    · next m hmark =>
      cases h
      have hstart : startsNumber c [] = false := by
        rw [← Bool.not_eq_true]
        intro hdigit
        rw [← List.nil_append rest, startsNumber_append hdigit] at hnumber
        cases hnumber
      refine ⟨[], rfl, ⟨rest, rfl⟩, ?_, (charMark_spec hmark).1.symm, fun _ longer post' hlonger hlexeme => ?_⟩
      · rw [scan_operator hstart hword hquote, operator, List.head?_nil, Option.bind_none, hmark]
        rfl
      · obtain rfl | ⟨d, rfl, hd⟩ := hoperators hlonger hlexeme
        · exact Nat.le_refl _
        · rw [hlonger] at hpair
          exact absurd hpair hd
    · cases h

/-- What a token takes: characters that alone give it, and as many as a lexeme can have. -/
theorem scan_takes {t : Token} {n : Nat} (h : scan c rest = .ok (t, n)) :
    ∃ body, n = body.length ∧ Takes c rest t body := by
  cases hnumber : startsNumber c rest with
  | true => exact takes_number hnumber h
  | false =>
    cases hword : isWordStart c with
    | true => exact takes_word hword h
    | false =>
      by_cases hquote : c = '\'' ∨ c = '"'
      · exact takes_text hquote h
      · exact takes_operator hnumber hword hquote h

/-- The characters of a token alone are read as the token. -/
theorem Takes.tokens_eq {t : Token} {body : List Char} (h : Takes c rest t body) (hc : isGap c = false) :
    tokens (c :: body) = .ok [⟨t, 0, body.length + 1⟩] := by
  have hscan : scan c (body ++ []) = .ok (t, body.length) := by
    rw [List.append_nil]
    exact h.alone
  have hread := tokensFrom_scan hc hscan 0
  rw [List.append_nil, Nat.add_right_comm, Nat.zero_add] at hread
  rw [tokens, hread, tokensFrom]
  rfl

end
end Lexer
end Millrace
