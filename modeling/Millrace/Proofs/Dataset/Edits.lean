import Mathlib.Data.List.Perm.Basic
import Mathlib.Data.List.Nodup
import Millrace.Dataset.Basic
import Millrace.Proofs.Results

/-!
# Edits of datasets

An edit is one of the operations that make a dataset of another one, with its arguments (`Edit`).  What a successful
edit does is said once (`effect_of_apply`), and what all edits keep holds of every dataset that they lead to
(`Dataset.Built`).  One such property are the column names: they are distinct at first, and they stay so, except that
a column may be selected twice (`columns_nodup`).
-/

namespace Millrace

/-- A run of a dataset is a run of its stages over its source. -/
theorem Dataset.run_eq_map (d : Dataset) (session : Session) :
    d.run session = (fun result => (result.1.flatten, { d with report := some result.2 })) <$>
      runPipeline session.settings session.cancelled d.stages
        (Partition.split session.settings.partitionSize d.source) := by
  unfold Dataset.run
  dsimp only
  cases runPipeline session.settings session.cancelled d.stages _ <;> rfl

/-! ### Edits -/

/-- An operation that makes a dataset of another one. -/
inductive Edit where
  | map (f : Dataset.Made)
  | filter (f : Dataset.Made)
  | mapColumn (name : String) (f : Dataset.Made)
  | withColumn (name : String) (f : Dataset.Made)
  | selectColumns (names : List String)
  | renameColumn (source target : String)
  | unique
  | resolve (kind : FaultKind) (f : Dataset.Made)
  | ignore (kind : FaultKind)

namespace Edit

/-- The dataset that an edit makes; lambdas take their identities out of the registries that they come with. -/
def apply (d : Dataset) : Edit → Except Failure Dataset
  | map f => Prod.fst <$> d.map f
  | filter f => Prod.fst <$> d.filter f
  | mapColumn name f => Prod.fst <$> d.mapColumn name f
  | withColumn name f => Prod.fst <$> d.withColumn name f
  | selectColumns names => d.selectColumns names
  | renameColumn source target => d.renameColumn source target
  | unique => .ok d.unique
  | resolve kind f => Prod.fst <$> d.resolve kind f
  | ignore kind => d.ignore kind

/-- Whether an edit adds a stage; the others change the names or the handlers of the last stage. -/
def addsStage : Edit → Bool
  | renameColumn _ _ | resolve _ _ | ignore _ => false
  | _ => true

/-- What a successful edit does. -/
inductive Effect (d : Dataset) : Edit → Dataset → Prop
  | map {f : Dataset.Made} {g : Registered} {r : Registry} :
    Dataset.bind f d.columns = .ok (g, r) → Effect d (.map f) (d.push (.map g) none d.columns)
  | filter {f : Dataset.Made} {g : Registered} {r : Registry} :
    Dataset.bind f d.columns = .ok (g, r) → Effect d (.filter f) (d.push (.filter g) d.columns d.columns)
  | mapColumn {name : String} {names : List String} {column : Nat} {f : Dataset.Made} {g : Registered} {r : Registry} :
    d.columns = some names → names.idxOf? name = some column → Dataset.bind f none = .ok (g, r) → g.lambda.arity = 1 →
      Effect d (.mapColumn name f) (d.push (.mapColumn column g) d.columns none)
  | replaceColumn {name : String} {names : List String} {column : Nat} {f : Dataset.Made} {g : Registered} {r : Registry} :
    d.columns = some names → names.idxOf? name = some column → Dataset.bind f d.columns = .ok (g, r) →
      Effect d (.withColumn name f) (d.push (.withColumn (some column) g) (some names) d.columns)
  | newColumn {name : String} {names : List String} {f : Dataset.Made} {g : Registered} {r : Registry} :
    d.columns = some names → name ∉ names → Dataset.bind f d.columns = .ok (g, r) →
      Effect d (.withColumn name f) (d.push (.withColumn none g) (some (names ++ [name])) d.columns)
  | selectColumns {columns : List String} {positions : List Nat} :
    columns.Forall₂ (fun name p => ∃ names, d.columns = some names ∧ names.idxOf? name = some p) positions →
      Effect d (.selectColumns columns) (d.push (.select positions) (some columns) none)
  | renameColumn {source target : String} {names : List String} {column : Nat} :
    d.columns = some names → names.idxOf? source = some column → target ∉ names.eraseIdx column →
      Effect d (.renameColumn source target) { d with columns := some (names.set column target), report := none }
  | unique : Effect d .unique d.unique
  | resolve {kind : FaultKind} {f : Dataset.Made} {g : Registered} {r : Registry} :
    d.checkHandler .resolve kind = .ok () → Dataset.bind f d.lastInput = .ok (g, r) →
      Effect d (.resolve kind f) (d.addHandler (.resolve kind g.lambda))
  | ignore {kind : FaultKind} :
    d.checkHandler .ignore kind = .ok () → Effect d (.ignore kind) (d.addHandler (.ignore kind))

end Edit

section
variable {d d' source : Dataset} {e : Edit} {edits : List Edit} {op : Operation} {name : String} {p : Nat}

theorem names_eq_ok {names : List String} (h : d.names op = .ok names) : d.columns = some names := by
  unfold Dataset.names at h
  split at h
  · next hcolumns =>
    cases h
    exact hcolumns
  · cases h

theorem position_eq_ok (h : d.position op name = .ok p) :
    ∃ names, d.columns = some names ∧ names.idxOf? name = some p := by
  obtain ⟨names, hnames, h⟩ := bind_eq_ok h
  refine ⟨names, names_eq_ok hnames, ?_⟩
  split at h
  · next i hi =>
    cases h
    exact hi
  · cases h

theorem effect_of_apply (h : e.apply d = .ok d') : Edit.Effect d e d' := by
  cases e with
  | map f =>
    obtain ⟨made, hmade, rfl⟩ := map_eq_ok h
    obtain ⟨⟨g, r⟩, hg, h⟩ := bind_eq_ok hmade
    cases h
    exact .map hg
  | filter f =>
    obtain ⟨made, hmade, rfl⟩ := map_eq_ok h
    obtain ⟨⟨g, r⟩, hg, h⟩ := bind_eq_ok hmade
    cases h
    exact .filter hg
  | mapColumn name f =>
    obtain ⟨made, hmade, rfl⟩ := map_eq_ok h
    obtain ⟨column, hcolumn, h⟩ := bind_eq_ok hmade
    obtain ⟨⟨g, r⟩, hg, h⟩ := bind_eq_ok h
    obtain ⟨names, hnames, hname⟩ := position_eq_ok hcolumn
    dsimp only at h
    split at h
    · next harity =>
      cases h
      exact .mapColumn hnames hname hg harity
    · cases h
  | withColumn name f =>
    obtain ⟨made, hmade, rfl⟩ := map_eq_ok h
    obtain ⟨names, hnames, h⟩ := bind_eq_ok hmade
    obtain ⟨⟨g, r⟩, hg, h⟩ := bind_eq_ok h
    have hcolumns := names_eq_ok hnames
    rw [← hcolumns] at hg
    cases hname : names.idxOf? name with
    | some column =>
      rw [hname] at h
      cases h
      exact .replaceColumn hcolumns hname hg
    | none =>
      rw [hname] at h
      cases h
      exact .newColumn hcolumns (List.idxOf?_eq_none_iff.1 hname) hg
  | selectColumns columns =>
    obtain ⟨positions, hpositions, h⟩ := bind_eq_ok h
    cases h
    exact .selectColumns ((forall₂_of_mapM hpositions).imp fun _ _ => position_eq_ok)
  | renameColumn source target =>
    obtain ⟨column, hcolumn, h⟩ := bind_eq_ok h
    obtain ⟨names, hnames, h⟩ := bind_eq_ok h
    obtain ⟨names', hnames', hname⟩ := position_eq_ok hcolumn
    cases (names_eq_ok hnames).symm.trans hnames'
    split at h
    · cases h
    · next htarget =>
      cases h
      exact .renameColumn hnames' hname htarget
  | unique =>
    cases h
    exact .unique
  | resolve kind f =>
    obtain ⟨made, hmade, rfl⟩ := map_eq_ok h
    obtain ⟨⟨⟩, hcheck, h⟩ := bind_eq_ok hmade
    obtain ⟨⟨g, r⟩, hg, h⟩ := bind_eq_ok h
    cases h
    exact .resolve hcheck hg
  | ignore kind =>
    obtain ⟨⟨⟩, hcheck, h⟩ := bind_eq_ok h
    cases h
    exact .ignore hcheck

/-- The dataset that successful edits lead to, one after the other. -/
inductive Dataset.Built (source : Dataset) : List Edit → Dataset → Prop
  | source : Built source [] source
  | edit {edits : List Edit} {e : Edit} {d d' : Dataset} :
    Built source edits d → e.apply d = .ok d' → Built source (edits ++ [e]) d'

/-- What edits keep holds of every dataset that they lead to. -/
theorem Dataset.Built.induction {P : Dataset → Prop} (hbuilt : source.Built edits d) (hsource : P source)
    (hstep : ∀ e ∈ edits, ∀ d d', P d → Edit.Effect d e d' → P d') : P d := by
  induction hbuilt with
  | source => exact hsource
  | edit hbuilt happly ih =>
    refine hstep _ (List.mem_append_right _ (List.mem_singleton.2 rfl)) _ _ (ih fun e he => ?_)
      (effect_of_apply happly)
    exact hstep e (List.mem_append_left _ he)

/-! ### Column names -/

theorem repeated?_eq_none {seen names : List String} (h : repeated? seen names = none) :
    names.Nodup ∧ ∀ name ∈ names, name ∉ seen := by
  induction names generalizing seen with
  | nil => exact ⟨List.nodup_nil, fun name hname => (nomatch hname)⟩
  | cons name names ih =>
    rw [repeated?] at h
    split at h
    · cases h
    · next hname =>
      obtain ⟨hnodup, hrest⟩ := ih h
      refine ⟨List.nodup_cons.2 ⟨fun hmem => hrest name hmem (List.mem_cons_self ..), hnodup⟩, ?_⟩
      exact List.forall_mem_cons.2 ⟨hname, fun other hother hseen => hrest other hother (List.mem_cons_of_mem _ hseen)⟩

/-- The names of all columns, if there are any, are distinct. -/
def Dataset.NamesDistinct (d : Dataset) : Prop := ∀ names, d.columns = some names → names.Nodup

theorem ofColumns_eq_ok {values : List Value} {columns : List String} (h : Dataset.ofColumns values columns = .ok d) :
    columns.Nodup ∧ d = { Dataset.ofValues values with columns := some columns } := by
  unfold Dataset.ofColumns at h
  split at h
  · cases h
  · next hnone =>
    cases h
    exact ⟨(repeated?_eq_none hnone).1, rfl⟩

/-- Giving a column a name that no other column has keeps the names distinct. -/
theorem nodup_set {names : List String} {column : Nat} {target : String} (hcolumn : column < names.length)
    (hnames : names.Nodup) (htarget : target ∉ names.eraseIdx column) : (names.set column target).Nodup := by
  rw [(List.set_perm_cons_eraseIdx hcolumn target).nodup_iff]
  exact List.nodup_cons.2 ⟨htarget, hnames.sublist (List.eraseIdx_sublist names column)⟩

theorem lt_of_idxOf? {names : List String} (h : names.idxOf? name = some p) : p < names.length := by
  obtain ⟨hlt, -⟩ := List.idxOf?_eq_some_iff.1 h
  exact hlt

theorem namesDistinct_of_effect (hselect : ∀ columns, e = .selectColumns columns → columns.Nodup)
    (hd : d.NamesDistinct) (h : Edit.Effect d e d') : d'.NamesDistinct := by
  intro names hnames
  cases h with
  | map hg => cases hnames
  | filter hg | mapColumn _ _ _ _ | unique | resolve _ _ | ignore _ => exact hd names hnames
  | replaceColumn hcolumns _ _ =>
    cases hnames
    exact hd _ hcolumns
  | newColumn hcolumns hnew _ =>
    cases hnames
    rw [List.nodup_append]
    refine ⟨hd _ hcolumns, List.nodup_singleton _, fun other hother name hname => ?_⟩
    rw [List.mem_singleton.1 hname]
    rintro rfl
    exact hnew hother
  | selectColumns _ =>
    cases hnames
    exact hselect _ rfl
  | renameColumn hcolumns hname htarget =>
    cases hnames
    exact nodup_set (lt_of_idxOf? hname) (hd _ hcolumns) htarget

/-- Column names are distinct unless columns were selected of which one occurs twice.  A selection does not ask for
that: whenever it succeeds, the names are those that were asked for. -/
theorem columns_nodup {values : List Value} {columns : List String}
    (hsource : Dataset.ofColumns values columns = .ok source) (hbuilt : source.Built edits d) :
    ((∀ selected, .selectColumns selected ∈ edits → selected.Nodup) → ∀ names, d.columns = some names → names.Nodup) ∧
    ∀ selected d', d.selectColumns selected = .ok d' → d'.columns = some selected := by
  constructor
  · intro hselect
    obtain ⟨hnodup, rfl⟩ := ofColumns_eq_ok hsource
    have hdistinct : Dataset.NamesDistinct { Dataset.ofValues values with columns := some columns } := by
      intro names hnames
      cases hnames
      exact hnodup
    refine hbuilt.induction (P := Dataset.NamesDistinct) hdistinct fun e he d d' hd heffect => ?_
    refine namesDistinct_of_effect (fun selected hselected => ?_) hd heffect
    rw [hselected] at he
    exact hselect selected he
  · intro selected d' h
    cases effect_of_apply (e := .selectColumns selected) h with
    | selectColumns _ => rfl

/-- A column that is selected twice. -/
theorem selectColumns_twice :
    let source : Dataset := { Dataset.ofValues [.int 1] with columns := some ["a"] }
    let d := source.push (.select [0, 0]) (some ["a", "a"]) none
    Dataset.ofColumns [.int 1] ["a"] = .ok source ∧ source.Built [.selectColumns ["a", "a"]] d ∧
      d.columns = some ["a", "a"] ∧ ¬ ["a", "a"].Nodup :=
  ⟨rfl, .edit .source rfl, rfl, by decide⟩

/-- Two columns, of which one gets another name before they change places. -/
theorem columns_nodup_swapped :
    let source : Dataset := { Dataset.ofValues [.tuple [.int 1, .float 2.5]] with columns := some ["id", "price"] }
    let renamed : Dataset := { source with columns := some ["key", "price"] }
    let d := renamed.push (.select [1, 0]) (some ["price", "key"]) none
    Dataset.ofColumns [.tuple [.int 1, .float 2.5]] ["id", "price"] = .ok source ∧
      source.Built [.renameColumn "id" "key", .selectColumns ["price", "key"]] d ∧ ["price", "key"].Nodup := by
  intro source renamed d
  have hbuilt : source.Built [.renameColumn "id" "key", .selectColumns ["price", "key"]] d :=
    .edit (.edit .source rfl) rfl
  have hselect : ∀ selected, .selectColumns selected ∈ [Edit.renameColumn "id" "key", .selectColumns ["price", "key"]] →
      selected.Nodup := by
    intro selected hmem
    rcases List.mem_cons.1 hmem with h | hmem
    · cases h
    · cases List.mem_singleton.1 hmem
      decide
  have hsource : Dataset.ofColumns [.tuple [.int 1, .float 2.5]] ["id", "price"] = .ok source := rfl
  exact ⟨hsource, hbuilt, (columns_nodup hsource hbuilt).1 hselect _ rfl⟩

end
end Millrace
