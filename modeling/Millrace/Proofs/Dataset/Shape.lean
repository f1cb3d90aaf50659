import Millrace.Proofs.Dataset.Edits
import Millrace.Proofs.Pipeline.Widths

/-!
# Column names and row widths

The names of a dataset are kept when it is edited, the widths of its rows come about when it runs.  They stay in step:
after any edits but a map, there are as many names as the actions of the stages make columns (`namesFit_of_effect`), so
no stage works on a column that its rows lack.  The names that resolvers are bound to are those that the last stage was
added with (`stage_of_built`).  Both make up `rows_fit_columns`.
-/

namespace Millrace

section
variable {d d' source : Dataset} {e : Edit} {edits : List Edit} {n : Nat}

/-! ### Edits and stages -/

/-- A handler changes nothing about the last stage but its handlers. -/
theorem stages_addHandler (d : Dataset) (h : Handler) :
    (d.addHandler h).stages.map (·.action) = d.stages.map (·.action) ∧
      (d.addHandler h).stages.dropLast = d.stages.dropLast := by
  rcases List.eq_nil_or_concat d.stages with hnil | ⟨before, s, hstages⟩
  · simp only [Dataset.addHandler, hnil, List.dropLast_nil, List.getLast?_nil, Option.toList_none, List.map_nil,
      List.append_nil, and_self]
  · simp only [Dataset.addHandler, hstages, List.concat_eq_append, List.dropLast_concat, List.getLast?_concat,
      Option.toList_some, List.map_cons, List.map_append, List.map_nil, and_self]

theorem source_of_effect (h : Edit.Effect d e d') : d'.source = d.source := by
  cases h <;> rfl

/-- An edit that adds no stage keeps the actions of all stages, and what is known of the input of the last one. -/
theorem stages_of_kept (h : Edit.Effect d e d') (hkept : e.addsStage = false) :
    d'.stages.map (·.action) = d.stages.map (·.action) ∧ d'.stages.dropLast = d.stages.dropLast ∧
      d'.lastInput = d.lastInput := by
  cases h with
  | map _ | filter _ | mapColumn _ _ _ _ | replaceColumn _ _ _ | newColumn _ _ _ | selectColumns _ | unique =>
    cases hkept
  | renameColumn _ _ _ => exact ⟨rfl, rfl, rfl⟩
  | resolve _ _ | ignore _ =>
    obtain ⟨hactions, hbefore⟩ := stages_addHandler d _
    exact ⟨hactions, hbefore, rfl⟩

/-- Whether an action has a lambda that sees whole rows. -/
def Action.seesRow : Action → Bool
  | map _ | filter _ | withColumn _ _ => true
  | mapColumn _ _ | select _ | unique => false

/-- An edit that adds a stage puts it last, and notes the names of its input if its lambda sees whole rows. -/
theorem stages_of_added (h : Edit.Effect d e d') (hadded : e.addsStage = true) :
    ∃ a, d'.stages = d.stages ++ [⟨a, []⟩] ∧ (a.seesRow = true → d'.lastInput = d.columns) := by
  cases h with
  | map _ | filter _ | replaceColumn _ _ _ | newColumn _ _ _ => exact ⟨_, rfl, fun _ => rfl⟩
  | mapColumn _ _ _ _ | selectColumns _ | unique => exact ⟨_, rfl, fun h => (nomatch h)⟩
  | renameColumn _ _ _ | resolve _ _ | ignore _ => cases hadded

/-- The last stage was added by one of the edits, on a dataset with the stages before it.  If its lambda sees whole
rows, its input has the column names of that dataset. -/
theorem stage_of_built (hsource : source.stages = []) (hbuilt : source.Built edits d) {s : Stage}
    (hs : d.stages.getLast? = some s) :
    ∃ before e after given, edits = before ++ e :: after ∧ source.Built before given ∧ e.addsStage = true ∧
      (∀ e' ∈ after, e'.addsStage = false) ∧ d.stages.dropLast = given.stages ∧
      (s.action.seesRow = true → d.lastInput = given.columns) := by
  induction hbuilt generalizing s with
  | source =>
    rw [hsource] at hs
    cases hs
  | @edit edits e d d' hbuilt happly ih =>
    have heffect := effect_of_apply happly
    cases hadds : e.addsStage with
    | true =>
      obtain ⟨a, hstages, hinput⟩ := stages_of_added heffect hadds
      rw [hstages, List.getLast?_concat] at hs
      cases hs
      refine ⟨edits, e, [], d, rfl, hbuilt, hadds, fun e' he' => (nomatch he'), ?_, hinput⟩
      rw [hstages, List.dropLast_concat]
    | false =>
      obtain ⟨hactions, hdrop, hinput⟩ := stages_of_kept heffect hadds
      have hlast := congrArg List.getLast? hactions
      rw [List.getLast?_map, List.getLast?_map, hs] at hlast
      obtain ⟨t, ht, haction⟩ := Option.map_eq_some_iff.1 hlast.symm
      obtain ⟨before, e', after, given, rfl, hgiven, he', hafter, hstages, hnames⟩ := ih ht
      refine ⟨before, e', after ++ [e], given, ?_, hgiven, he', ?_, hdrop.trans hstages, ?_⟩
      · rw [List.append_assoc, List.cons_append]
      · exact List.forall_mem_append.2 ⟨hafter, List.forall_mem_singleton.2 hadds⟩
      · intro hsees
        have ht : t.action.seesRow = true := haction ▸ hsees
        exact hinput.trans (hnames ht)

/-! ### Names and widths -/

/-- There are as many names as columns in the rows that come out of all stages, for source rows of width `n`. -/
def Dataset.NamesFit (n : Nat) (d : Dataset) : Prop :=
  ∃ names, d.columns = some names ∧ widthAfter n (d.stages.map (·.action)) = some names.length

/-- A stage whose action makes as many columns as there are names then. -/
theorem namesFit_push {names after : List String} {columns lastInput : Option (List String)} {a : Action}
    (hwidth : widthAfter n (d.stages.map (·.action)) = some names.length) (hcolumns : columns = some after)
    (ha : a.width? names.length = some after.length) : (d.push a columns lastInput).NamesFit n := by
  refine ⟨after, hcolumns, ?_⟩
  have hstages : (d.push a columns lastInput).stages.map (·.action) = d.stages.map (·.action) ++ [a] :=
    List.map_append
  have hlast : widthAfter names.length [a] = some after.length := by
    rw [widthAfter, List.foldlM_cons, ha]
    rfl
  rw [hstages, widthAfter_append, hwidth]
  exact hlast

theorem lt_of_positions {names columns : List String} {positions : List Nat} (hnames : d.columns = some names)
    (h : columns.Forall₂ (fun name p => ∃ names, d.columns = some names ∧ names.idxOf? name = some p) positions) :
    ∀ p ∈ positions, p < names.length := by
  induction h with
  | nil => exact fun p hp => (nomatch hp)
  | cons hname _ ih =>
    obtain ⟨names', hcolumns, hname⟩ := hname
    cases hnames.symm.trans hcolumns
    exact List.forall_mem_cons.2 ⟨lt_of_idxOf? hname, ih⟩

/-- Of the edits, only a map loses the names; the others keep them in step with the actions. -/
theorem namesFit_of_effect (hmap : ∀ f, e ≠ .map f) (hd : d.NamesFit n) (h : Edit.Effect d e d') : d'.NamesFit n := by
  obtain ⟨names, hnames, hwidth⟩ := hd
  cases h with
  | map _ => exact absurd rfl (hmap _)
  | filter _ | unique => exact namesFit_push hwidth hnames rfl
  | mapColumn hcolumns hname _ _ =>
    cases hnames.symm.trans hcolumns
    exact namesFit_push hwidth hnames (if_pos (lt_of_idxOf? hname))
  | replaceColumn hcolumns hname _ =>
    cases hnames.symm.trans hcolumns
    exact namesFit_push hwidth rfl (if_pos (lt_of_idxOf? hname))
  | newColumn hcolumns _ _ =>
    cases hnames.symm.trans hcolumns
    refine namesFit_push hwidth rfl ?_
    rw [List.length_append]
    rfl
  | @selectColumns columns positions hpositions =>
    have hlt := lt_of_positions hnames hpositions
    refine namesFit_push hwidth rfl ?_
    rw [Action.width?, if_pos hlt, hpositions.length_eq]
  | renameColumn hcolumns _ _ =>
    cases hnames.symm.trans hcolumns
    refine ⟨_, rfl, ?_⟩
    rw [List.length_set]
    exact hwidth
  | resolve _ _ | ignore _ =>
    refine ⟨names, hnames, ?_⟩
    rw [(stages_addHandler d _).1]
    exact hwidth

theorem namesFit_of_built (hfit : source.NamesFit n) (hbuilt : source.Built edits d) (hmap : ∀ f, .map f ∉ edits) :
    d.source = source.source ∧ d.NamesFit n := by
  refine hbuilt.induction (P := fun d => d.source = source.source ∧ d.NamesFit n) ⟨rfl, hfit⟩ ?_
  intro e he d d' hd heffect
  refine ⟨(source_of_effect heffect).trans hd.1, namesFit_of_effect (fun f hf => ?_) hd.2 heffect⟩
  exact hmap f (hf ▸ he)

/-- The rows of a dataset are those that its stages give one after the other. -/
theorem Dataset.run_of_sequential {settings : Settings} {made : List Registered} {rows : List Row} {report : Report}
    (hcheck : settings.check = .ok ()) (hsame : ∀ f ∈ made, ∀ g ∈ made, f.id = g.id → f.lambda = g.lambda)
    (hmade : ∀ s ∈ d.stages, ∀ f, s.action.registered? = some f → f ∈ made)
    (hf : ∀ f ∈ made, ∀ schema, FastPath.RepeatsNoTuples f.lambda schema)
    (h : sequentialFrom 0 d.source d.stages = .ok (rows, report)) :
    ∃ d', d.run ⟨settings, false⟩ = .ok (rows, d') := by
  have hrequests : ∀ q ∈ requestsFrom settings 0 {} (Partition.split settings.partitionSize d.source) d.stages,
      FastPath.RepeatsNoTuples q.1.lambda q.2 := by
    intro q hq
    obtain ⟨s, hs, hrequest⟩ := exists_stage_of_request hq
    exact hf q.1 (hmade s hs q.1 hrequest) q.2
  have hrun := runFrom_sequential hsame (FastPath.Memo.sound_empty made) (batchSize_of_check hcheck) d.stages hmade 0
    hrequests
  have hflat : (Partition.split settings.partitionSize d.source).flatten = d.source :=
    flatten_cut settings.partitionSize d.source
  rw [hflat, h] at hrun
  rw [Dataset.run_eq_map, runPipeline]
  generalize runFrom settings false 0 {} _ d.stages = result at hrun ⊢
  cases hrun with
  | ok hrows _ => exact ⟨_, by rw [← hrows]; rfl⟩

/-- Datasets with column names that are edited in any way but by a map: the rows that come out have as many columns as
there are names, no row fails for a missing column, and a resolver is bound to the names of the rows that its stage
works on. -/
theorem rows_fit_columns {values : List Value} {columns : List String} {session : Session}
    (hsource : Dataset.ofColumns values columns = .ok source)
    (hvalues : ∀ v ∈ values, (Row.ofValue v).length = columns.length) (hbuilt : source.Built edits d)
    (hmap : ∀ f, .map f ∉ edits) (hcheck : session.settings.check = .ok ()) :
    (∃ names, d.columns = some names ∧
      ∀ rows d', d.run session = .ok (rows, d') → ∀ row ∈ rows, row.length = names.length) ∧
    (∀ failure e, d.run session = .error failure → failure.fault? = some e →
      (∀ width, e.cause ≠ .columnRead width) ∧ ∀ position width, e.cause ≠ .column position width) ∧
    ∀ s, d.stages.getLast? = some s → s.action.seesRow = true →
      ∃ before e after given, edits = before ++ e :: after ∧ source.Built before given ∧ e.addsStage = true ∧
        (∀ e' ∈ after, e'.addsStage = false) ∧ d.stages.dropLast = given.stages ∧ d.lastInput = given.columns := by
  obtain ⟨-, rfl⟩ := ofColumns_eq_ok hsource
  obtain ⟨hsame, names, hnames, hwidth⟩ := namesFit_of_built ⟨columns, rfl, rfl⟩ hbuilt hmap
  have hgiven : HasWidth columns.length (Partition.split session.settings.partitionSize d.source) := by
    intro row hrow
    rw [Partition.split, flatten_cut, hsame] at hrow
    obtain ⟨v, hv, rfl⟩ := List.mem_map.1 hrow
    exact hvalues v hv
  have hfits := runFrom_of_width (batchSize_of_check hcheck) hwidth hgiven session.cancelled 0 {}
  refine ⟨⟨names, hnames, fun rows d' hrun => ?_⟩, fun failure e hrun he => ?_, fun s hs hsees => ?_⟩
  · rw [Dataset.run_eq_map] at hrun
    obtain ⟨⟨out, report⟩, hpipeline, hout⟩ := map_eq_ok hrun
    cases hout
    exact hfits.width out report hpipeline
  · rw [Dataset.run_eq_map] at hrun
    have hcause := hfits.causes failure e (map_eq_error hrun) he
    refine ⟨fun width h => ?_, fun position width h => ?_⟩
    · rw [h] at hcause
      cases hcause
    · rw [h] at hcause
      cases hcause
  · obtain ⟨before, e, after, given, hedits, hgiven, hadds, hafter, hdrop, hinput⟩ :=
      stage_of_built rfl hbuilt hs
    exact ⟨before, e, after, given, hedits, hgiven, hadds, hafter, hdrop, hinput hsees⟩

/-- Two columns that change places, of which one decides about the rows. -/
theorem rows_fit_columns_swapped :
    let second : Registered := ⟨1, ["name", "id"], .param 1, none⟩
    let source : Dataset := { Dataset.ofValues [.tuple [.int 1, .str "x"]] with columns := some ["id", "name"] }
    let selected := source.push (.select [1, 0]) (some ["name", "id"]) none
    let filtered := selected.push (.filter second) selected.columns selected.columns
    let d := filtered.addHandler (.ignore .index)
    let edits : List Edit := [.selectColumns ["name", "id"], .filter (.ok (second, ⟨2⟩)), .ignore .index]
    Dataset.ofColumns [.tuple [.int 1, .str "x"]] ["id", "name"] = .ok source ∧ source.Built edits d ∧
      (∃ d', d.run ⟨.standard 1, false⟩ = .ok ([[.str "x", .int 1]], d')) ∧ d.lastInput = some ["name", "id"] ∧
      ∀ rows d', d.run ⟨.standard 1, false⟩ = .ok (rows, d') → ∀ row ∈ rows, row.length = 2 := by
  intro second source selected filtered d edits
  have hsource : Dataset.ofColumns [.tuple [.int 1, .str "x"]] ["id", "name"] = .ok source := rfl
  have hvalues : ∀ v ∈ [Value.tuple [.int 1, .str "x"]], (Row.ofValue v).length = ["id", "name"].length := by
    intro v hv
    rw [List.mem_singleton.1 hv]
    rfl
  have hbuilt : source.Built edits d := .edit (.edit (.edit .source rfl) rfl) rfl
  have hmap : ∀ f, Edit.map f ∉ edits := by
    intro f hf
    simp [edits] at hf
  have hcheck : (Session.mk (.standard 1) false).settings.check = .ok () := by rfl
  have hsame : ∀ f ∈ [second], ∀ g ∈ [second], f.id = g.id → f.lambda = g.lambda := by
    intro f hf g hg _
    rw [List.mem_singleton.1 hf, List.mem_singleton.1 hg]
  have hmade : ∀ s ∈ d.stages, ∀ f, s.action.registered? = some f → f ∈ [second] := by
    intro s hs f hf
    change s ∈ [⟨.select [1, 0], []⟩, ⟨.filter second, [.ignore .index]⟩] at hs
    simp only [List.mem_cons, List.not_mem_nil, or_false] at hs
    rcases hs with rfl | rfl
    · cases hf
    · cases hf
      exact List.mem_singleton.2 rfl
  have hlambdas : ∀ f ∈ [second], ∀ schema, FastPath.RepeatsNoTuples f.lambda schema := by
    intro f hf schema params l _ _ a b hmem
    rw [List.mem_singleton.1 hf] at hmem
    simp [second, Expr.subterms] at hmem
  have hrun : ∃ d', d.run ⟨.standard 1, false⟩ = .ok ([[.str "x", .int 1]], d') :=
    Dataset.run_of_sequential hcheck hsame hmade hlambdas rfl
  obtain ⟨⟨names, hnames, hwidth⟩, -⟩ := rows_fit_columns hsource hvalues hbuilt hmap hcheck
  cases hnames
  exact ⟨hsource, hbuilt, hrun, rfl, hwidth⟩

end
end Millrace
