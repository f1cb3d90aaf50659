import Mathlib
import Millrace.Dataset.Table
import Millrace.Proofs.Lambda.Utf8
import Millrace.Proofs.Number.Digits

/-!
# The shape of a table

A table has a line of column names, a rule, and a line for every row.  All lines have the same number of characters, and
the separators stand at the same positions in all of them (`length_framed`, `separator_framed`).  A column is as wide as
the longest of its texts, where length is counted in bytes (`getElem?_widths`); so it is just wide enough for its texts
if the longest one is ASCII, and too wide otherwise.

## Main statements

* `getElem?_widths`: the widths of the columns.
* `newline_notMem_repr`: a printed value stays on its line.
* `render_framed`: the lines of a table.
-/

namespace Millrace
namespace Table

/-! ### What a table shows -/

/-- The names above the columns. -/
def headings (columns : Option (List String)) (rows : List Row) : List String :=
  columns.getD (positions (rows.foldl (fun width row => max width row.length) 0))

/-- The cells of the rows. -/
def bodies (rows : List Row) : List (List String) := rows.map (·.map Value.repr)

/-- The widths of the columns. -/
def widths (columns : Option (List String)) (rows : List Row) : List Nat :=
  (bodies rows).foldl widen ((headings columns rows).map String.utf8ByteSize)

/-- The texts in the column at position `i`: its name, and the cells of the rows that are wide enough. -/
def texts (columns : Option (List String)) (rows : List Row) (i : Nat) : List String :=
  (headings columns rows :: bodies rows).filterMap (·[i]?)

/-! ### Widths -/

section
variable {columns : Option (List String)} {rows : List Row} {ws : List Nat} {entries : List String} {i : Nat}

theorem getElem?_widen (ws : List Nat) (entries : List String) (i : Nat) :
    (widen ws entries)[i]? = Option.merge max ws[i]? (entries[i]?.map String.utf8ByteSize) := by
  induction entries generalizing ws i with
  | nil => cases ws <;> simp [widen]
  | cons text entries ih =>
    cases ws with
    | nil =>
      cases i with
      | zero => simp [widen]
      | succ i => simp [widen, ih]
    | cons w ws =>
      cases i with
      | zero => simp [widen]
      | succ i => simp [widen, ih]

/-- A column is as wide as it was before the lines were seen, or as the longest text in the lines. -/
theorem getElem?_foldl_widen (ws : List Nat) (lines : List (List String)) (i : Nat) :
    (lines.foldl widen ws)[i]? = (ws[i]?.toList ++ (lines.filterMap (·[i]?)).map String.utf8ByteSize).max? := by
  induction lines generalizing ws with
  | nil => cases h : ws[i]? <;> simp [h]
  | cons entries lines ih =>
    rw [List.foldl_cons, ih, getElem?_widen, List.filterMap_cons]
    cases ws[i]? with
    | none => cases entries[i]? <;> rfl
    | some w => cases entries[i]? <;> rfl

/-- A column is as wide as the longest of its texts, in bytes. -/
theorem getElem?_widths (columns : Option (List String)) (rows : List Row) (i : Nat) :
    (widths columns rows)[i]? = ((texts columns rows i).map String.utf8ByteSize).max? := by
  rw [widths, getElem?_foldl_widen, texts, List.filterMap_cons, List.getElem?_map]
  cases (headings columns rows)[i]? <;> rfl

theorem length_le_utf8ByteSize (s : String) : s.length ≤ s.utf8ByteSize := by
  have hbytes : s.utf8ByteSize = Utf8.size s.toList := by
    rw [Utf8.size, Utf8.bytes_toList]
    rfl
  have hchars (cs : List Char) : cs.length ≤ Utf8.size cs := by
    induction cs with
    | nil => exact Nat.le_refl 0
    | cons c cs ih =>
      have hpos := c.utf8Size_pos
      rw [List.length_cons, Utf8.size_cons]
      omega
  rw [hbytes, ← String.length_toList]
  exact hchars s.toList

/-- The greatest of the sizes is the greatest of the lengths, if a text that is as long as its size has the greatest
size. -/
theorem max?_length_iff {ts : List String} (hne : ts ≠ []) :
    (ts.map String.utf8ByteSize).max? = (ts.map String.length).max? ↔
      ∃ t ∈ ts, t.length = t.utf8ByteSize ∧ ∀ u ∈ ts, u.utf8ByteSize ≤ t.utf8ByteSize := by
  constructor
  · intro h
    obtain ⟨w, hw⟩ : ∃ w, (ts.map String.length).max? = some w := by
      cases ts with
      | nil => exact absurd rfl hne
      | cons t ts => exact ⟨_, List.max?_cons'⟩
    obtain ⟨-, hsize⟩ := List.max?_eq_some_iff.1 (h.trans hw)
    obtain ⟨hmem, -⟩ := List.max?_eq_some_iff.1 hw
    obtain ⟨t, ht, rfl⟩ := List.mem_map.1 hmem
    have heq : t.utf8ByteSize = t.length :=
      Nat.le_antisymm (hsize _ (List.mem_map_of_mem ht)) (length_le_utf8ByteSize t)
    exact ⟨t, ht, heq.symm, fun u hu => heq ▸ hsize _ (List.mem_map_of_mem hu)⟩
  · rintro ⟨t, ht, heq, hgreatest⟩
    have hsize : (ts.map String.utf8ByteSize).max? = some t.utf8ByteSize := by
      refine List.max?_eq_some_iff.2 ⟨List.mem_map_of_mem ht, fun n hn => ?_⟩
      obtain ⟨u, hu, rfl⟩ := List.mem_map.1 hn
      exact hgreatest u hu
    have hlength : (ts.map String.length).max? = some t.utf8ByteSize := by
      refine List.max?_eq_some_iff.2 ⟨heq ▸ List.mem_map_of_mem ht, fun n hn => ?_⟩
      obtain ⟨u, hu, rfl⟩ := List.mem_map.1 hn
      exact (length_le_utf8ByteSize u).trans (hgreatest u hu)
    rw [hsize, hlength]

/-! ### Lines -/

/-- A line: its parts with separators between them and around them. -/
def framed (parts : List (List Char)) : List Char := '|' :: parts.flatMap (· ++ ['|'])

/-- The part of a line that shows a text in a column of width `w`. -/
def segment (w : Nat) (text : String) : List Char := ' ' :: (text.toList.rightpad w ' ' ++ [' '])

/-- The parts of a line that shows texts; a text that is missing is empty. -/
def segments (ws : List Nat) (entries : List String) : List (List Char) :=
  ws.mapIdx fun i w => segment w (entries[i]?.getD "")

/-- The parts of the rule. -/
def dashes (ws : List Nat) : List (List Char) := ws.map fun w => List.replicate (w + 2) '-'

theorem toList_pad (w : Nat) (text : String) : (pad w text).toList = text.toList.rightpad w ' ' := by
  simp [pad, List.rightpad, String.length_toList]

theorem cells_eq (ws : List Nat) (entries : List String) :
    (cells ws entries).map (fun cell => ' ' :: (cell.toList ++ [' '])) = segments ws entries := by
  induction ws generalizing entries with
  | nil => cases entries <;> rfl
  | cons w ws ih =>
    cases entries with
    | nil => simp [cells, segments, segment, toList_pad, ih]
    | cons text entries => simp [cells, segments, segment, toList_pad, ih]

theorem toList_line (ws : List Nat) (entries : List String) :
    (Table.line ws entries).toList = framed (segments ws entries) ++ ['\n'] := by
  rw [Table.line, ← cells_eq]
  simp [framed, List.flatMap_map]

theorem toList_rule (ws : List Nat) : (rule ws).toList = framed (dashes ws) ++ ['\n'] := by
  rw [rule]
  simp [framed, dashes, List.flatMap_map]

theorem framed_cons (part : List Char) (parts : List (List Char)) :
    framed (part :: parts) = '|' :: (part ++ framed parts) := by simp [framed]

/-- Parts of the same lengths give lines of the same length. -/
theorem length_framed {parts : List (List Char)} (h : parts.map List.length = ws.map (· + 2)) :
    (framed parts).length = (ws.map (· + 3)).sum + 1 := by
  induction parts generalizing ws with
  | nil =>
    cases ws with
    | nil => rfl
    | cons w ws => exact nomatch h
  | cons part parts ih =>
    cases ws with
    | nil => exact nomatch h
    | cons w ws =>
      obtain ⟨hpart, hparts⟩ := List.cons.inj h
      have hpart : part.length = w + 2 := hpart
      rw [framed_cons, List.length_cons, List.length_append, ih hparts, List.map_cons, List.sum_cons]
      omega

/-- Parts of the same lengths give separators at the same positions. -/
theorem separator_framed {parts : List (List Char)} (h : parts.map List.length = ws.map (· + 2)) (hi : i ≤ ws.length) :
    (framed parts)[((ws.take i).map (· + 3)).sum]? = some '|' := by
  induction parts generalizing ws i with
  | nil =>
    cases ws with
    | nil =>
      obtain rfl := Nat.le_zero.1 hi
      rfl
    | cons w ws => exact nomatch h
  | cons part parts ih =>
    cases ws with
    | nil => exact nomatch h
    | cons w ws =>
      obtain ⟨hpart, hparts⟩ := List.cons.inj h
      have hpart : part.length = w + 2 := hpart
      cases i with
      | zero => rfl
      | succ i =>
        have hsum : (((w :: ws).take (i + 1)).map (· + 3)).sum = ((ws.take i).map (· + 3)).sum + part.length + 1 := by
          rw [List.take_succ_cons, List.map_cons, List.sum_cons]
          omega
        rw [framed_cons, hsum, List.getElem?_cons_succ, List.getElem?_append_right (Nat.le_add_left _ _),
          Nat.add_sub_cancel]
        exact ih hparts (Nat.le_of_succ_le_succ hi)

theorem length_segment {w : Nat} {text : String} (h : text.length ≤ w) : (segment w text).length = w + 2 := by
  simp [segment, String.length_toList]
  omega

/-- The parts fill the columns, if these are wide enough for the texts. -/
theorem length_segments
    (h : ∀ (i w : Nat) (text : String), ws[i]? = some w → entries[i]? = some text → text.length ≤ w) :
    (segments ws entries).map List.length = ws.map (· + 2) := by
  refine List.ext_getElem? fun i => ?_
  rw [segments, List.getElem?_map, List.getElem?_mapIdx, List.getElem?_map]
  cases hw : ws[i]? with
  | none => rfl
  | some w =>
    have hfits : (entries[i]?.getD "").length ≤ w := by
      cases ht : entries[i]? with
      | none => exact Nat.zero_le w
      | some text => exact h i w text hw ht
    exact congrArg some (length_segment hfits)

theorem length_dashes (ws : List Nat) : (dashes ws).map List.length = ws.map (· + 2) := by
  simp [dashes, Function.comp_def]

theorem newline_notMem_framed {parts : List (List Char)} (h : ∀ part ∈ parts, '\n' ∉ part) :
    '\n' ∉ framed parts := by
  simp only [framed, List.mem_cons, List.mem_flatMap, List.mem_append, List.not_mem_nil, or_false]
  rintro (hbar | ⟨part, hpart, hmem | hbar⟩)
  · exact absurd hbar (by decide)
  · exact h part hpart hmem
  · exact absurd hbar (by decide)

theorem splitOn_terminated {lines : List (List Char)} (h : ∀ l ∈ lines, '\n' ∉ l) :
    (lines.flatMap (· ++ ['\n'])).splitOn '\n' = lines ++ [[]] := by
  have hjoin : lines.flatMap (· ++ ['\n']) = ['\n'].intercalate (lines ++ [[]]) := by
    induction lines with
    | nil => rfl
    | cons l lines ih =>
      rw [List.flatMap_cons, ih fun l hl => h l (List.mem_cons_of_mem _ hl), List.cons_append,
        List.intercalate_cons_of_ne_nil (List.concat_ne_nil _ _)]
  rw [hjoin]
  refine List.splitOn_intercalate _ (fun l hl => ?_) (List.concat_ne_nil _ _)
  obtain hl | hl := List.mem_append.1 hl
  · exact h l hl
  · rw [List.mem_singleton.1 hl]
    exact List.not_mem_nil

end

/-! ### Line feeds -/

/-- The text stays on its line. -/
def OneLine (s : String) : Prop := '\n' ∉ s.toList

instance : DecidablePred OneLine := fun s => inferInstanceAs (Decidable ('\n' ∉ s.toList))

theorem OneLine.append {s t : String} (hs : OneLine s) (ht : OneLine t) : OneLine (s ++ t) := by
  rw [OneLine, String.toList_append, List.mem_append]
  exact fun h => h.elim hs ht

theorem newline_notMem_chars (ds : List Nat) : '\n' ∉ Digits.chars ds := by
  rw [Digits.chars, List.mem_map]
  rintro ⟨d, -, hd⟩
  exact Nat.digitChar_ne '\n' (by decide) hd

theorem oneLine_pointed (whole fraction : List Nat) : OneLine (Decimal.pointed whole fraction) := by
  rw [Decimal.pointed]
  split
  · rw [OneLine, String.toList_ofList]
    exact newline_notMem_chars _
  · rw [OneLine, String.toList_ofList, List.mem_append, List.mem_cons]
    rintro (h | h | h)
    · exact newline_notMem_chars _ h
    · exact absurd h (by decide)
    · exact newline_notMem_chars _ h

theorem oneLine_scientific (d : Decimal) (plus : Bool) (width : Nat) : OneLine (d.scientific plus width) := by
  have hsign : OneLine (if d.exponent < 0 then "-" else if plus then "+" else "") := by
    split_ifs <;> decide
  have hdigits (ds : List Nat) : OneLine (String.ofList (Digits.chars ds)) := by
    rw [OneLine, String.toList_ofList]
    exact newline_notMem_chars _
  exact (((oneLine_pointed _ _).append (by decide)).append hsign).append (hdigits _)

theorem oneLine_reportText (x : Float) : OneLine (reportText x) := by
  rw [reportText, Layout.write]
  split
  · next value _ =>
    refine OneLine.append (by split <;> decide) ?_
    rw [Decimal.write]
    split
    · exact oneLine_scientific _ _ _
    · dsimp only
      split <;> exact oneLine_pointed _ _
  · split_ifs
    · exact (by decide : OneLine "nan")
    · exact (by decide : OneLine "-inf")
    · exact (by decide : OneLine "inf")

theorem newline_notMem_escape (q c : Char) : '\n' ∉ Text.Quoted.escape q c := by
  rw [Text.Quoted.escape]
  split_ifs with hslash hline
  · decide
  · decide
  · decide
  · decide
  · simp [Ne.symm hline]
  · simp [Ne.symm hline]

theorem oneLine_quoted (s : String) : OneLine (Text.quoted s) := by
  have hmark : '\n' ≠ Text.Quoted.mark s.toList := by
    rw [Text.Quoted.mark]
    split <;> decide
  have hbody : '\n' ∉ Text.Quoted.body (Text.Quoted.mark s.toList) s.toList := by
    rw [Text.Quoted.body, List.mem_flatMap]
    rintro ⟨c, -, hc⟩
    exact newline_notMem_escape _ c hc
  rw [OneLine, Text.quoted, String.toList_ofList, Text.Quoted.encode]
  simp [hmark, hbody]

mutual

/-- A printed value stays on its line. -/
theorem oneLine_repr : (v : Value) → OneLine v.repr
  | .bool true | .bool false => by decide
  | .int n => Digits.notMem_signed (by decide) (by decide) n.toInt
  | .float x => oneLine_reportText x.toFloat
  | .str s => oneLine_quoted s
  | .tuple items => by
    refine OneLine.append (OneLine.append (OneLine.append (by decide) (oneLine_reprItems items)) ?_) (by decide)
    split <;> decide

theorem oneLine_reprItems : (vs : List Value) → OneLine (Value.reprItems vs)
  | [] => by decide
  | [v] => oneLine_repr v
  | v :: w :: rest => OneLine.append ((oneLine_repr v).append (by decide)) (oneLine_reprItems (w :: rest))

end

/-! ### Tables -/

section
variable {columns : Option (List String)} {rows : List Row}

theorem render_eq (columns : Option (List String)) (rows : List Row) :
    render columns rows = line (widths columns rows) (headings columns rows) ++ rule (widths columns rows) ++
      String.join ((bodies rows).map (line (widths columns rows))) := rfl

theorem oneLine_headings (h : ∀ names, columns = some names → ∀ name ∈ names, OneLine name) :
    ∀ text ∈ headings columns rows, OneLine text := by
  cases columns with
  | some names => exact h names rfl
  | none =>
    intro text htext
    obtain ⟨i, -, rfl⟩ := List.mem_map.1 htext
    exact OneLine.append (by decide) (Digits.notMem_text (by decide) i)

theorem oneLine_bodies : ∀ entries ∈ bodies rows, ∀ text ∈ entries, OneLine text := by
  intro entries hline text htext
  obtain ⟨row, -, rfl⟩ := List.mem_map.1 hline
  obtain ⟨v, -, rfl⟩ := List.mem_map.1 htext
  exact oneLine_repr v

/-- A column is wide enough for its texts. -/
theorem length_le_width {entries : List String} {i w : Nat} {text : String}
    (hline : entries ∈ headings columns rows :: bodies rows) (hw : (widths columns rows)[i]? = some w)
    (htext : entries[i]? = some text) : text.length ≤ w := by
  have hmem : text ∈ texts columns rows i := List.mem_filterMap.2 ⟨entries, hline, htext⟩
  rw [getElem?_widths, List.max?_eq_some_iff] at hw
  exact (length_le_utf8ByteSize text).trans (hw.2 _ (List.mem_map_of_mem hmem))

/-- The lines of a table, without the line feeds. -/
def lines (columns : Option (List String)) (rows : List Row) : List (List Char) :=
  framed (segments (widths columns rows) (headings columns rows)) :: framed (dashes (widths columns rows)) ::
    (bodies rows).map fun entries => framed (segments (widths columns rows) entries)

theorem toList_render (columns : Option (List String)) (rows : List Row) :
    (render columns rows).toList = (lines columns rows).flatMap (· ++ ['\n']) := by
  rw [render_eq]
  simp [lines, toList_line, toList_rule, String.toList_join, List.flatMap_map]

theorem lines_fit (columns : Option (List String)) (rows : List Row) :
    ∀ l ∈ lines columns rows, ∃ parts, l = framed parts ∧
      parts.map List.length = (widths columns rows).map (· + 2) := by
  have hshown : ∀ entries ∈ headings columns rows :: bodies rows,
      (segments (widths columns rows) entries).map List.length = (widths columns rows).map (· + 2) :=
    fun entries hline => length_segments fun _ _ _ hw htext => length_le_width hline hw htext
  obtain ⟨hheadings, hbodies⟩ := List.forall_mem_cons.1 hshown
  refine List.forall_mem_cons.2 ⟨⟨_, rfl, hheadings⟩, List.forall_mem_cons.2 ⟨⟨_, rfl, length_dashes _⟩, ?_⟩⟩
  intro l hl
  obtain ⟨entries, hline, rfl⟩ := List.mem_map.1 hl
  exact ⟨_, rfl, hbodies entries hline⟩

theorem newline_notMem_segments {ws : List Nat} {entries : List String} (h : ∀ text ∈ entries, OneLine text) :
    ∀ part ∈ segments ws entries, '\n' ∉ part := by
  intro part hpart
  obtain ⟨i, hi, rfl⟩ := List.mem_mapIdx.1 hpart
  have htext : OneLine (entries[i]?.getD "") := by
    cases ht : entries[i]? with
    | none => decide
    | some text => exact h text (List.mem_of_getElem? ht)
  rw [OneLine] at htext
  simpa [segment, List.rightpad, List.mem_replicate] using htext

theorem newline_notMem_lines (h : ∀ names, columns = some names → ∀ name ∈ names, OneLine name) :
    ∀ l ∈ lines columns rows, '\n' ∉ l := by
  have hdashes : ∀ part ∈ dashes (widths columns rows), '\n' ∉ part := by
    intro part hpart
    obtain ⟨w, -, rfl⟩ := List.mem_map.1 hpart
    simp [List.mem_replicate]
  refine List.forall_mem_cons.2
    ⟨newline_notMem_framed (newline_notMem_segments (oneLine_headings h)),
      List.forall_mem_cons.2 ⟨newline_notMem_framed hdashes, fun l hl => ?_⟩⟩
  obtain ⟨entries, hline, rfl⟩ := List.mem_map.1 hl
  exact newline_notMem_framed (newline_notMem_segments (oneLine_bodies entries hline))

/-- A table has two lines more than rows.  All lines have the same number of characters, and a separator in front of
every column and behind the last one, at the same positions.  A column is as wide as the longest of its texts in bytes;
that is the greatest number of characters in it exactly if a longest text is ASCII. -/
theorem render_framed (h : ∀ names, columns = some names → ∀ name ∈ names, OneLine name) :
    let ws := widths columns rows
    (render columns rows).toList.splitOn '\n' = lines columns rows ++ [[]] ∧
      (lines columns rows).length = rows.length + 2 ∧
      (∀ l ∈ lines columns rows, l.length = (ws.map (· + 3)).sum + 1 ∧
        ∀ i ≤ ws.length, l[((ws.take i).map (· + 3)).sum]? = some '|') ∧
      ∀ i, ws[i]? = ((texts columns rows i).map String.utf8ByteSize).max? ∧
        (i < ws.length → (ws[i]? = ((texts columns rows i).map String.length).max? ↔
          ∃ t ∈ texts columns rows i, t.length = t.utf8ByteSize ∧
            ∀ u ∈ texts columns rows i, u.utf8ByteSize ≤ t.utf8ByteSize)) := by
  intro ws
  refine ⟨?_, ?_, fun l hl => ?_, fun i => ⟨getElem?_widths columns rows i, fun hi => ?_⟩⟩
  · rw [toList_render]
    exact splitOn_terminated (newline_notMem_lines h)
  · simp [lines, bodies]
  · obtain ⟨parts, rfl, hparts⟩ := lines_fit columns rows l hl
    exact ⟨length_framed hparts, fun i hi => separator_framed hparts hi⟩
  · have hne : texts columns rows i ≠ [] := by
      intro hnil
      have hwidth := getElem?_widths columns rows i
      rw [hnil, List.map_nil, List.max?_nil, List.getElem?_eq_none_iff] at hwidth
      exact absurd hi (Nat.not_lt_of_ge hwidth)
    rw [getElem?_widths]
    exact max?_length_iff hne

/-- A row is shorter than the others, a name is not ASCII, and the longest cell has a line feed in it. -/
theorem render_framed_ragged :
    let names := ["n", "größe"]
    let rows : List Row := [[.int 22, .str "long\ntext"], [.int 1]]
    (∀ ns, some names = some ns → ∀ name ∈ ns, OneLine name) ∧
      (render (some names) rows).toList.splitOn '\n' = lines (some names) rows ++ [[]] ∧
      (lines (some names) rows).length = 4 ∧ (∀ l ∈ lines (some names) rows, l.length = 21) ∧
      (widths (some names) rows)[1]? = ((texts (some names) rows 1).map String.length).max? := by
  intro names rows
  have hnames : ∀ ns, some names = some ns → ∀ name ∈ ns, OneLine name := by
    rintro ns hns
    cases hns
    decide
  have hwidths : widths (some names) rows = [2, 12] := by cbv
  have htexts : texts (some names) rows 1 = ["größe", "'long\\ntext'"] := by cbv
  obtain ⟨hsplit, hcount, hlines, hcolumns⟩ := @render_framed (some names) rows hnames
  refine ⟨hnames, hsplit, hcount, fun l hl => ?_, ((hcolumns 1).2 (by rw [hwidths]; decide)).2 ?_⟩
  · rw [(hlines l hl).1, hwidths]
    rfl
  · rw [htexts]
    exact ⟨"'long\\ntext'", List.mem_cons_of_mem _ List.mem_cons_self, by decide, by decide⟩

/-- The only text of the column that is not its name has three characters and four bytes, and the column is wide enough
for four characters. -/
theorem render_accent :
    render none [[.str "é"]] = "| _0   |\n|------|\n| 'é'  |\n" ∧ (widths none [[.str "é"]])[0]? = some 4 ∧
      ((texts none [[.str "é"]] 0).map String.length).max? = some 3 := by
  refine ⟨by cbv, by cbv, by cbv⟩

end
end Table
end Millrace
