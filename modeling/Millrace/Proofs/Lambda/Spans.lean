import Millrace.Proofs.Lambda.ByteLexer

/-!
# The places of tokens

Tokens and the gaps between them make up the whole text (`Placed`).  Said of bytes this is `tokens_cover`: the lexer
comes to an end on every text and slices it only where characters end, no two tokens overlap, nothing but white space
and backslashes lies outside of them, and each is as long as it can be.
-/

namespace Millrace.ByteLexer

open Utf8 Lexer

/-- The tokens behind the characters `before`, with their places in bytes.  They and gaps make up the text `after`. -/
inductive Placed : List Char → List Char → List PlacedToken → Prop
  | nil {before : List Char} : Placed before [] []
  | gap {before rest : List Char} {c : Char} {ts : List PlacedToken} (hc : isGap c = true)
      (h : Placed (before ++ [c]) rest ts) : Placed before (c :: rest) ts
  | token {before body post : List Char} {c : Char} {t : Token} {ts : List PlacedToken} (hc : isGap c = false)
      (ht : Takes c (body ++ post) t body) (h : Placed (before ++ c :: body) post ts) :
      Placed before (c :: (body ++ post)) (⟨t, size before, size (before ++ c :: body)⟩ :: ts)

/-- The lexer finds tokens with their gaps. -/
theorem placed_of_tokensFrom {before after : List Char} {ts : List PlacedToken}
    (h : tokensFrom before.length after = .ok ts) : Placed before after (ts.map (inBytes (before ++ after))) := by
  induction hn : after.length using Nat.strongRecOn generalizing before after ts with
  | ind n ih =>
    subst hn
    cases after with
    | nil =>
      rw [tokensFrom] at h
      cases h
      exact .nil
    | cons c rest =>
      cases hc : isGap c with
      | true =>
        have hnext : tokensFrom (before ++ [c]).length rest = .ok ts := by
          rw [List.length_append]
          rwa [tokensFrom_gap hc] at h
        have hplaced := ih rest.length (Nat.lt_succ_self _) hnext rfl
        rw [List.append_assoc] at hplaced
        exact .gap hc hplaced
      | false =>
        cases hscan : scan c rest with
        | error cause =>
          rw [tokensFrom, if_neg (by rw [hc]; decide), hscan] at h
          cases h
        | ok p =>
          obtain ⟨t, n⟩ := p
          obtain ⟨body, rfl, htakes⟩ := scan_takes hscan
          obtain ⟨post, rfl⟩ := htakes.front
          rw [tokensFrom_scan hc hscan, ← length_append_cons before c body] at h
          obtain ⟨others, hothers, rfl⟩ := map_eq_ok h
          have hplaced := ih post.length (length_lt c body post) hothers rfl
          rw [List.append_assoc, List.cons_append] at hplaced
          rw [List.map_cons, length_append_cons, inBytes_token]
          exact .token hc htakes hplaced

section
variable {before after : List Char} {ts : List PlacedToken} {t : PlacedToken}

theorem Placed.size_le_start (h : Placed before after ts) (ht : t ∈ ts) : size before ≤ t.start := by
  induction h with
  | nil => cases ht
  | gap _ _ ih =>
    refine Nat.le_trans ?_ (ih ht)
    rw [size_append]
    exact Nat.le_add_right ..
  | token _ _ _ ih =>
    obtain rfl | ht := List.mem_cons.1 ht
    · exact Nat.le_refl _
    · refine Nat.le_trans ?_ (ih ht)
      rw [size_append]
      exact Nat.le_add_right ..

/-- No token overlaps with one behind it. -/
theorem Placed.pairwise (h : Placed before after ts) : ts.Pairwise fun t u => t.stop ≤ u.start := by
  induction h with
  | nil => exact .nil
  | gap _ _ ih => exact ih
  | token _ _ h ih => exact .cons (fun u hu => h.size_le_start hu) ih

/-- A byte outside of all tokens is a gap. -/
theorem Placed.isGap_of_outside (h : Placed before after ts) {i : Nat} {b : Char} (hi : size before ≤ i)
    (hb : (latin (before ++ after))[i]? = some b) (hout : ∀ t ∈ ts, i < t.start ∨ t.stop ≤ i) : isGap b = true := by
  induction h with
  | nil =>
    obtain ⟨hlt, -⟩ := List.getElem?_eq_some_iff.1 hb
    rw [length_latin, List.append_nil] at hlt
    exact absurd hlt (Nat.not_lt_of_ge hi)
  | @gap before rest c ts hc h ih =>
    obtain rfl | hnext := Nat.eq_or_lt_of_le hi
    · exact (isGap_first hb).trans hc
    · refine ih ?_ ?_ hout
      · rw [size_append, size_cons, utf8Size_ascii (isAsciiTest_isGap c hc)]
        exact hnext
      · rwa [List.append_assoc]
  | @token before body post c t ts hc ht h ih =>
    obtain ⟨hself, hothers⟩ := List.forall_mem_cons.1 hout
    obtain hbefore | hbehind := hself
    · exact absurd hbefore (Nat.not_lt_of_ge hi)
    · refine ih hbehind ?_ hothers
      rwa [List.append_assoc]

/-- The characters of a token. -/
theorem Placed.exists_lexeme (h : Placed before after ts) (ht : t ∈ ts) :
    ∃ pre c body post, before ++ after = pre ++ c :: (body ++ post) ∧ t.start = size pre ∧
      t.stop = size (pre ++ c :: body) ∧ isGap c = false ∧ Takes c (body ++ post) t.token body := by
  induction h with
  | nil => cases ht
  | @gap before rest c ts hc h ih =>
    obtain ⟨pre, c', body, post, heq, hspan⟩ := ih ht
    rw [List.append_assoc] at heq
    exact ⟨pre, c', body, post, heq, hspan⟩
  | @token before body post c t ts hc htakes h ih =>
    obtain rfl | ht := List.mem_cons.1 ht
    · exact ⟨before, c, body, post, rfl, rfl, rfl, hc, htakes⟩
    · obtain ⟨pre, c', body', post', heq, hspan⟩ := ih ht
      rw [List.append_assoc] at heq
      exact ⟨pre, c', body', post', heq, hspan⟩

end

/-- No lexeme in the place of a token is longer, in bytes as in characters. -/
theorem not_isLexeme_of_longer {pre body post longer : List Char} {c : Char} {t : Token} {stop : Nat}
    (h : Takes c (body ++ post) t body) (ht : ∀ s, t ≠ .str s) (hstop : size (pre ++ c :: body) < stop)
    (hslice : slice? (pre ++ c :: (body ++ post)) (size pre) stop = some longer) : ¬ IsLexeme longer := by
  intro hlexeme
  obtain ⟨pre', post', htext, hsize, rfl⟩ := slice?_eq_some.1 hslice
  obtain ⟨rfl, hrest⟩ := eq_of_size_eq htext hsize
  obtain ⟨d, longer, rfl⟩ := hlexeme.exists_cons
  obtain ⟨rfl, htail⟩ := List.cons.inj hrest
  have hle : longer.length ≤ body.length := h.longest ht longer post' htail hlexeme
  have hfront : longer <+: body := List.prefix_of_prefix_length_le ⟨post', htail.symm⟩ ⟨post, rfl⟩ hle
  obtain ⟨more, rfl⟩ := hfront
  simp only [size_append, size_cons] at hstop
  omega

/-- The lexer by bytes comes to an end on every text without a slice inside of a character, and gives what the lexer of
the text gives.  Its tokens are not empty, one behind the other and inside the text; every byte outside of them is
white space or a backslash.  The slice of a token alone gives the token again and is spelled as the token is; and no
longer slice in its place is a number, a word or an operator, unless the token is a text. -/
theorem tokens_cover (text : String) :
    tokens text.toList = some (reported text.toList (Lexer.tokens text.toList)) ∧
    ∀ ts, tokens text.toList = some (.ok ts) →
      (∀ t ∈ ts, t.start < t.stop ∧ t.stop ≤ text.toUTF8.size) ∧
      (ts.Pairwise fun t u => t.stop ≤ u.start) ∧
      (∀ i b, text.toUTF8.data[i]? = some b → (∀ t ∈ ts, i < t.start ∨ t.stop ≤ i) →
        isGap (Char.ofUInt8 b) = true) ∧
      ∀ t ∈ ts, ∃ lexeme, slice? text.toList t.start t.stop = some lexeme ∧ Spells lexeme t.token ∧
        Lexer.tokens lexeme = .ok [⟨t.token, 0, lexeme.length⟩] ∧
        ((∀ s, t.token ≠ .str s) → IsLexeme lexeme ∧
          ∀ stop longer, t.stop < stop → slice? text.toList t.start stop = some longer → ¬ IsLexeme longer) := by
  refine ⟨tokens_eq text.toList, fun ts hts => ?_⟩
  have hplaced : Placed [] text.toList ts := by
    rw [tokens_eq] at hts
    cases hread : Lexer.tokens text.toList with
    | error e =>
      rw [hread] at hts
      cases hts
    | ok read =>
      rw [hread] at hts
      cases hts
      exact @placed_of_tokensFrom [] text.toList read hread
  refine ⟨fun t ht => ?_, hplaced.pairwise, fun i b hb hout => ?_, fun t ht => ?_⟩
  · obtain ⟨pre, c, body, post, htext, hstart, hstop, -⟩ := hplaced.exists_lexeme ht
    have hsize : text.toUTF8.size = size (pre ++ c :: (body ++ post)) := by
      rw [← htext, List.nil_append, size, bytes_toList]
      rfl
    rw [hstart, hstop, hsize]
    simp only [size_append, size_cons]
    have hpos := c.utf8Size_pos
    omega
  · refine hplaced.isGap_of_outside (Nat.zero_le i) ?_ hout
    rw [List.nil_append, latin, bytes_toList, List.getElem?_map, Array.getElem?_toList, hb]
    rfl
  · obtain ⟨pre, c, body, post, htext, hstart, hstop, hc, htakes⟩ := hplaced.exists_lexeme ht
    rw [List.nil_append] at htext
    rw [htext, hstart, hstop]
    refine ⟨c :: body, slice?_append pre (c :: body) post, htakes.spells, htakes.tokens_eq hc, fun hkind => ?_⟩
    exact ⟨isLexeme_of_spells htakes.spells hkind,
      fun stop longer hlonger hslice => not_isLexeme_of_longer htakes hkind hlonger hslice⟩

/-- The tokens of `'é'**x`, whose `é` takes two bytes. -/
def accented : List PlacedToken :=
  [⟨.str "é", 0, 4⟩, ⟨.mark .starStar, 4, 6⟩, ⟨.ident "x", 6, 7⟩]

theorem tokens_cover_accented :
    tokens "'é'**x".toList = some (.ok accented) ∧ (∀ t ∈ accented, t.start < t.stop ∧ t.stop ≤ 7) ∧
      (accented.Pairwise fun t u => t.stop ≤ u.start) ∧
      ∀ stop longer, 6 < stop → slice? "'é'**x".toList 4 stop = some longer → ¬ IsLexeme longer := by
  have hread : Lexer.tokens "'é'**x".toList =
      .ok [⟨.str "é", 0, 3⟩, ⟨.mark .starStar, 3, 5⟩, ⟨.ident "x", 5, 6⟩] := by
    simp [Lexer.tokens, tokensFrom, isGap, scan, quotedText, isWordStart, operator, pairMark?, keyword?]
  obtain ⟨htotal, hcover⟩ := tokens_cover "'é'**x"
  rw [hread] at htotal
  have hbytes : tokens "'é'**x".toList = some (.ok accented) := htotal
  obtain ⟨hspans, hapart, -, hlexemes⟩ := hcover accented hbytes
  obtain ⟨lexeme, -, -, -, hlongest⟩ := hlexemes ⟨.mark .starStar, 4, 6⟩ (by simp [accented])
  obtain ⟨-, hlongest⟩ := hlongest (by simp)
  exact ⟨hbytes, hspans, hapart, hlongest⟩

end Millrace.ByteLexer
