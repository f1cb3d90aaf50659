import Millrace.Lambda.Registry
import Millrace.Proofs.Lambda.NamedColumns
import Millrace.Proofs.Results

/-!
# Binding named columns

One traversal asks whether a lambda has named columns, outermost first, and another replaces them, innermost first.
Both come to the same expressions (`postorder_perm`).  So a lambda is left alone when it has no named columns, fails at
the first name that has no position, and otherwise has its names replaced and nothing else (`resolveFields_eq`).
-/

namespace Millrace

namespace Expr

/-! ### Innermost first -/

mutual

/-- The expression and everything inside it, innermost first and from left to right. -/
def postorder : Expr → List Expr
  | const v => [const v]
  | param i => [param i]
  | unary op e => e.postorder ++ [unary op e]
  | binary op a b => a.postorder ++ b.postorder ++ [binary op a b]
  | compare first links => first.postorder ++ postorderOfLinks links ++ [compare first links]
  | and a b => a.postorder ++ b.postorder ++ [and a b]
  | or a b => a.postorder ++ b.postorder ++ [or a b]
  | ifElse c y n => c.postorder ++ y.postorder ++ n.postorder ++ [ifElse c y n]
  | call f args => postorderOfAll args ++ [call f args]
  | tuple items => postorderOfAll items ++ [tuple items]
  | index base i => base.postorder ++ i.postorder ++ [index base i]
  | field base name => base.postorder ++ [field base name]

def postorderOfAll : List Expr → List Expr
  | [] => []
  | e :: rest => e.postorder ++ postorderOfAll rest

def postorderOfLinks : List (CompareOp × Expr) → List Expr
  | [] => []
  | (_, e) :: rest => e.postorder ++ postorderOfLinks rest

end

mutual

/-- Both orders visit the same expressions. -/
theorem postorder_perm : (e : Expr) → e.postorder.Perm e.subterms
  | const v => .refl [const v]
  | param i => .refl [param i]
  | unary op e | field e name => (List.perm_append_singleton _ _).trans ((postorder_perm e).cons _)
  | binary op a b | and a b | or a b | index a b =>
    (List.perm_append_singleton _ _).trans (((postorder_perm a).append (postorder_perm b)).cons _)
  | compare first links =>
    (List.perm_append_singleton _ _).trans (((postorder_perm first).append (postorderOfLinks_perm links)).cons _)
  | ifElse c y n => by
    refine (List.perm_append_singleton _ _).trans (.cons _ ?_)
    rw [List.append_assoc]
    exact (postorder_perm c).append ((postorder_perm y).append (postorder_perm n))
  | call f args | tuple args => (List.perm_append_singleton _ _).trans ((postorderOfAll_perm args).cons _)

theorem postorderOfAll_perm : (es : List Expr) → (postorderOfAll es).Perm (subtermsOfAll es)
  | [] => .refl []
  | e :: rest => (postorder_perm e).append (postorderOfAll_perm rest)

theorem postorderOfLinks_perm : (links : List (CompareOp × Expr)) →
    (postorderOfLinks links).Perm (subtermsOfLinks links)
  | [] => .refl []
  | (_, e) :: rest => (postorder_perm e).append (postorderOfLinks_perm rest)

end

/-! ### Names -/

/-- The names of the columns that are accessed by name, innermost first and from left to right. -/
def fieldNames (e : Expr) : List String := e.postorder.filterMap asFieldName?

/-- No column is accessed by name. -/
def NoFields (e : Expr) : Prop := ∀ base name, field base name ∉ e.subterms

section
variable {e base : Expr} {name : String}

theorem asFieldName?_eq_some : e.asFieldName? = some name ↔ ∃ base, e = field base name := by
  cases e <;> simp [asFieldName?]

theorem mem_fieldNames : name ∈ e.fieldNames ↔ ∃ base, field base name ∈ e.subterms := by
  simp only [fieldNames, List.mem_filterMap, (postorder_perm e).mem_iff, asFieldName?_eq_some]
  constructor
  · rintro ⟨x, hx, base, rfl⟩
    exact ⟨base, hx⟩
  · rintro ⟨base, h⟩
    exact ⟨field base name, h, base, rfl⟩

theorem noFields_iff : e.NoFields ↔ e.fieldNames = [] := by
  simp only [NoFields, List.eq_nil_iff_forall_not_mem, mem_fieldNames, not_exists]
  exact forall_comm

theorem noFields_iff_closed : e.NoFields ↔ ∀ x ∈ e.subterms, x.asFieldName? = none := by
  simp only [NoFields, Option.eq_none_iff_forall_ne_some, Ne, asFieldName?_eq_some]
  constructor
  · rintro h x hx name ⟨base, rfl⟩
    exact h base name hx
  · exact fun h base name hx => h _ hx name ⟨base, rfl⟩

theorem hasFields_eq_false : e.hasFields = false ↔ e.NoFields := by
  simp only [noFields_iff_closed, hasFields, List.any_eq_false, Bool.not_eq_true, Option.isSome_eq_false_iff,
    Option.isNone_iff_eq_none]

end

/-! ### Replacing names -/

mutual

/-- The expression with the column `name` of anything replaced by its item at `p name`. -/
def placeFields (p : String → Nat) : Expr → Expr
  | const v => const v
  | param i => param i
  | unary op e => unary op (e.placeFields p)
  | binary op a b => binary op (a.placeFields p) (b.placeFields p)
  | compare first links => compare (first.placeFields p) (placeInLinks p links)
  | and a b => and (a.placeFields p) (b.placeFields p)
  | or a b => or (a.placeFields p) (b.placeFields p)
  | ifElse c y n => ifElse (c.placeFields p) (y.placeFields p) (n.placeFields p)
  | call f args => call f (placeInAll p args)
  | tuple items => tuple (placeInAll p items)
  | index base i => index (base.placeFields p) (i.placeFields p)
  | field base name => index (base.placeFields p) (const (.int (Int64.ofNat (p name))))

def placeInAll (p : String → Nat) : List Expr → List Expr
  | [] => []
  | e :: rest => e.placeFields p :: placeInAll p rest

def placeInLinks (p : String → Nat) : List (CompareOp × Expr) → List (CompareOp × Expr)
  | [] => []
  | (op, e) :: rest => (op, e.placeFields p) :: placeInLinks p rest

end

mutual

/-- No name is left when all are replaced. -/
theorem closed_placeFields (p : String → Nat) : (e : Expr) → ∀ x ∈ (e.placeFields p).subterms, x.asFieldName? = none
  | const v | param i => by simp [placeFields, subterms, asFieldName?]
  | unary op e => by
    rw [placeFields, subterms]
    exact List.forall_mem_cons.2 ⟨rfl, closed_placeFields p e⟩
  | binary op a b | and a b | or a b | index a b => by
    rw [placeFields, subterms]
    exact List.forall_mem_cons.2
      ⟨rfl, List.forall_mem_append.2 ⟨closed_placeFields p a, closed_placeFields p b⟩⟩
  | compare first links => by
    rw [placeFields, subterms]
    exact List.forall_mem_cons.2
      ⟨rfl, List.forall_mem_append.2 ⟨closed_placeFields p first, closed_placeInLinks p links⟩⟩
  | ifElse c y n => by
    rw [placeFields, subterms]
    exact List.forall_mem_cons.2 ⟨rfl, List.forall_mem_append.2 ⟨closed_placeFields p c,
      List.forall_mem_append.2 ⟨closed_placeFields p y, closed_placeFields p n⟩⟩⟩
  | call f args | tuple args => by
    rw [placeFields, subterms]
    exact List.forall_mem_cons.2 ⟨rfl, closed_placeInAll p args⟩
  | field base name => by
    rw [placeFields, subterms, subterms]
    exact List.forall_mem_cons.2
      ⟨rfl, List.forall_mem_append.2 ⟨closed_placeFields p base, List.forall_mem_singleton.2 rfl⟩⟩

theorem closed_placeInAll (p : String → Nat) :
    (es : List Expr) → ∀ x ∈ subtermsOfAll (placeInAll p es), x.asFieldName? = none
  | [] => List.forall_mem_nil _
  | e :: rest => List.forall_mem_append.2 ⟨closed_placeFields p e, closed_placeInAll p rest⟩

theorem closed_placeInLinks (p : String → Nat) :
    (links : List (CompareOp × Expr)) → ∀ x ∈ subtermsOfLinks (placeInLinks p links), x.asFieldName? = none
  | [] => List.forall_mem_nil _
  | (_, e) :: rest => List.forall_mem_append.2 ⟨closed_placeFields p e, closed_placeInLinks p rest⟩

end

/-! ### Resolving names -/

section
variable {ε α β : Type} {position : String → Except ε Nat} {p : String → Nat}

/-- Why a name has no position. -/
def refusal? (position : String → Except ε Nat) (name : String) : Option ε :=
  match position name with
  | .ok _ => none
  | .error e => some e

/-- The first reason not to resolve the names of some expressions. -/
def firstRefusal? (position : String → Except ε Nat) (es : List Expr) : Option ε :=
  (es.filterMap asFieldName?).findSome? (refusal? position)

theorem firstRefusal?_append (es es' : List Expr) :
    firstRefusal? position (es ++ es') = (firstRefusal? position es).or (firstRefusal? position es') := by
  rw [firstRefusal?, List.filterMap_append, List.findSome?_append]
  rfl

/-- An expression that names no column itself is no reason to stop. -/
theorem firstRefusal?_concat {e : Expr} (he : e.asFieldName? = none) (es : List Expr) :
    firstRefusal? position (es ++ [e]) = firstRefusal? position es := by
  have hlast : firstRefusal? position [e] = none := by
    rw [firstRefusal?, List.filterMap_cons_none he]
    rfl
  rw [firstRefusal?_append, hlast, Option.or_none]

theorem firstRefusal?_field (base : Expr) (name : String) :
    firstRefusal? position [field base name] = refusal? position name := by
  exact List.findSome?_singleton

/-- A value, unless there is a reason not to give it. -/
def barring (reason : Option ε) (x : α) : Except ε α := reason.elim (.ok x) .error

theorem barring_bind (reason : Option ε) (x : α) (f : α → Except ε β) :
    barring reason x >>= f = reason.elim (f x) .error := by
  cases reason <;> rfl

theorem barring_or (reason reason' : Option ε) (x : α) :
    barring (reason.or reason') x = reason.elim (barring reason' x) .error := by
  cases reason <;> rfl

theorem position_eq (hp : ∀ name n, position name = .ok n → p name = n) (name : String) :
    position name = barring (refusal? position name) (p name) := by
  rw [refusal?]
  split
  · next n h => rw [h, hp name n h, barring, Option.elim_none]
  · next e h => rw [h, barring, Option.elim_some]

mutual

/-- Names are replaced, unless one of them has no position: then the first of these is to blame. -/
theorem resolveFields_eq (hp : ∀ name n, position name = .ok n → p name = n) : (e : Expr) →
    e.resolveFields position = barring (firstRefusal? position e.postorder) (e.placeFields p)
  | const v | param i => rfl
  | unary op e => by
    rw [resolveFields, resolveFields_eq hp e, barring_bind, postorder, firstRefusal?_concat rfl]
    rfl
  | binary op a b | and a b | or a b | index a b => by
    rw [resolveFields, resolveFields_eq hp a, resolveFields_eq hp b, barring_bind, barring_bind, postorder,
      firstRefusal?_concat rfl, firstRefusal?_append, barring_or]
    rfl
  | compare first links => by
    rw [resolveFields, resolveFields_eq hp first, resolveLinks_eq hp links, barring_bind, barring_bind, postorder,
      firstRefusal?_concat rfl, firstRefusal?_append, barring_or]
    rfl
  | ifElse c y n => by
    rw [resolveFields, resolveFields_eq hp c, resolveFields_eq hp y, resolveFields_eq hp n, barring_bind, barring_bind,
      barring_bind, postorder, firstRefusal?_concat rfl, List.append_assoc, firstRefusal?_append, firstRefusal?_append,
      barring_or, barring_or]
    rfl
  | call f args | tuple args => by
    rw [resolveFields, resolveAll_eq hp args, barring_bind, postorder, firstRefusal?_concat rfl]
    rfl
  | field base name => by
    rw [resolveFields, resolveFields_eq hp base, position_eq hp name, barring_bind, barring_bind, postorder,
      firstRefusal?_append, firstRefusal?_field, barring_or]
    rfl

theorem resolveAll_eq (hp : ∀ name n, position name = .ok n → p name = n) : (es : List Expr) →
    resolveAll position es = barring (firstRefusal? position (postorderOfAll es)) (placeInAll p es)
  | [] => rfl
  | e :: rest => by
    rw [resolveAll, resolveFields_eq hp e, resolveAll_eq hp rest, barring_bind, barring_bind, postorderOfAll,
      firstRefusal?_append, barring_or]
    rfl

theorem resolveLinks_eq (hp : ∀ name n, position name = .ok n → p name = n) : (links : List (CompareOp × Expr)) →
    resolveLinks position links = barring (firstRefusal? position (postorderOfLinks links)) (placeInLinks p links)
  | [] => rfl
  | (op, e) :: rest => by
    rw [resolveLinks, resolveFields_eq hp e, resolveLinks_eq hp rest, barring_bind, barring_bind, postorderOfLinks,
      firstRefusal?_append, barring_or]
    rfl

end

end
end Expr

/-! ### Binding -/

namespace Lambda

/-- The lambda with every named column replaced by the first position of its name. -/
def placed (f : Lambda) (names : List String) : Lambda :=
  { f with body := f.body.placeFields fun name => names.idxOf name }

theorem columnPosition_of_mem {names : List String} {name : String} (h : name ∈ names) :
    columnPosition (some names) name = .ok (names.idxOf name) := by
  cases hposition : names.idxOf? name with
  | none => exact absurd h (List.idxOf?_eq_none_iff.1 hposition)
  | some i => simp only [columnPosition, hposition, List.idxOf_eq_getD_idxOf?, Option.getD_some]

theorem columnPosition_of_not_mem {names : List String} {name : String} (h : name ∉ names) :
    columnPosition (some names) name = .error (.unknownColumn name) := by
  simp only [columnPosition, List.idxOf?_eq_none_iff.2 h]

/-- The position of a column is the first one that has its name. -/
theorem eq_of_columnPosition (columns : Option (List String)) (name : String) (n : Nat)
    (h : columnPosition columns name = .ok n) : (columns.getD []).idxOf name = n := by
  cases columns with
  | none => cases h
  | some names =>
    by_cases hname : name ∈ names
    · rw [columnPosition_of_mem hname] at h
      exact Except.ok.inj h
    · rw [columnPosition_of_not_mem hname] at h
      cases h

/-- Without column names the first name is to blame. -/
theorem refusal_noColumns (fields : List String) :
    fields.findSome? (Expr.refusal? (columnPosition none)) = fields.head?.map .noColumns := by
  cases fields <;> rfl

/-- The first name that is not among the column names is to blame. -/
theorem refusal_unknownColumn (names fields : List String) :
    fields.findSome? (Expr.refusal? (columnPosition (some names))) =
      (fields.find? (· ∉ names)).map .unknownColumn := by
  induction fields with
  | nil => rfl
  | cons name fields ih =>
    by_cases hname : name ∈ names
    · rw [List.findSome?_cons, Expr.refusal?, columnPosition_of_mem hname,
        List.find?_cons_of_neg (by simpa using hname)]
      exact ih
    · rw [List.findSome?_cons, Expr.refusal?, columnPosition_of_not_mem hname,
        List.find?_cons_of_pos (by simpa using hname)]
      rfl

end Lambda

namespace Registry

section
variable {f : Registered} {names : List String}

/-- A lambda without named columns keeps its identity. -/
theorem bindColumns_of_noFields (h : f.lambda.body.NoFields) (r : Registry) (columns : Option (List String)) :
    r.bindColumns f columns = .ok (f, r) := by
  have hfields : ¬ f.lambda.hasFields = true := Bool.eq_false_iff.1 (Expr.hasFields_eq_false.2 h)
  rw [bindColumns, if_neg hfields]

/-- The names of a lambda are replaced, unless one of them has no position. -/
theorem bindColumns_of_fields (h : ¬ f.lambda.body.NoFields) (r : Registry) (columns : Option (List String)) :
    r.bindColumns f columns =
      (f.lambda.body.fieldNames.findSome? (Expr.refusal? (Lambda.columnPosition columns))).elim
        (.ok (r.register (f.lambda.placed (columns.getD [])))) .error := by
  have hfields : f.lambda.hasFields = true := by
    rw [← Bool.not_eq_false]
    exact fun hnone => h (Expr.hasFields_eq_false.1 hnone)
  have hbody := Expr.resolveFields_eq (Lambda.eq_of_columnPosition columns) f.lambda.body
  rw [bindColumns, if_pos hfields, bindColumns_eq, hbody, Expr.firstRefusal?, ← Expr.fieldNames, Expr.barring]
  cases f.lambda.body.fieldNames.findSome? (Expr.refusal? (Lambda.columnPosition columns)) <;> rfl

theorem bindColumns_none (h : ¬ f.lambda.body.NoFields) (r : Registry) :
    ∃ name, f.lambda.body.fieldNames.head? = some name ∧ r.bindColumns f none = .error (.noColumns name) := by
  obtain ⟨name, rest, hnames⟩ := List.exists_cons_of_ne_nil (mt Expr.noFields_iff.2 h)
  refine ⟨name, by rw [hnames, List.head?_cons], ?_⟩
  rw [bindColumns_of_fields h, Lambda.refusal_noColumns, hnames]
  rfl

/-- A name that is not among the column names is to blame, the first of them. -/
theorem bindColumns_unknown {name : String} (h : f.lambda.body.fieldNames.find? (· ∉ names) = some name)
    (r : Registry) : r.bindColumns f (some names) = .error (.unknownColumn name) := by
  have hf : ¬ f.lambda.body.NoFields := fun hnone => by
    rw [Expr.noFields_iff.1 hnone] at h
    cases h
  rw [bindColumns_of_fields hf, Lambda.refusal_unknownColumn, h]
  rfl

/-- With a column for every name all of them are replaced. -/
theorem bindColumns_known (hf : ¬ f.lambda.body.NoFields)
    (h : f.lambda.body.fieldNames.find? (· ∉ names) = none) (r : Registry) :
    r.bindColumns f (some names) = .ok (r.register (f.lambda.placed names)) := by
  rw [bindColumns_of_fields hf, Lambda.refusal_unknownColumn, h]
  rfl

/-- What binding gives has no named columns and the same parameters. -/
theorem bindColumns_closed {r r' : Registry} {columns : Option (List String)} {g : Registered}
    (h : r.bindColumns f columns = .ok (g, r')) : g.lambda.body.NoFields ∧ g.lambda.params = f.lambda.params := by
  by_cases hf : f.lambda.body.NoFields
  · rw [bindColumns_of_noFields hf] at h
    cases h
    exact ⟨hf, rfl⟩
  · rw [bindColumns_of_fields hf] at h
    cases hrefusal : f.lambda.body.fieldNames.findSome? (Expr.refusal? (Lambda.columnPosition columns)) with
    | some e =>
      rw [hrefusal] at h
      cases h
    | none =>
      rw [hrefusal] at h
      cases h
      exact ⟨Expr.noFields_iff_closed.2 (Expr.closed_placeFields _ f.lambda.body), rfl⟩

/-- Binding fails just when a name has no position. -/
theorem bindColumns_fails_iff (h : ¬ f.lambda.body.NoFields) (r : Registry) :
    (∃ e, r.bindColumns f (some names) = .error e) ↔
      ∃ base name, .field base name ∈ f.lambda.body.subterms ∧ name ∉ names := by
  constructor
  · rintro ⟨e, he⟩
    cases hfind : f.lambda.body.fieldNames.find? (· ∉ names) with
    | none =>
      rw [bindColumns_known h hfind] at he
      cases he
    | some name =>
      obtain ⟨base, hbase⟩ := Expr.mem_fieldNames.1 (List.mem_of_find?_eq_some hfind)
      exact ⟨base, name, hbase, by simpa using List.find?_some hfind⟩
  · rintro ⟨base, name, hbase, hname⟩
    have hfind : (f.lambda.body.fieldNames.find? (· ∉ names)).isSome :=
      List.find?_isSome.2 ⟨name, Expr.mem_fieldNames.2 ⟨base, hbase⟩, decide_eq_true hname⟩
    obtain ⟨first, hfirst⟩ := Option.isSome_iff_exists.1 hfind
    exact ⟨_, bindColumns_unknown hfirst r⟩

end

/-- A lambda without named columns is given back as it is.  Any other fails just when there are no column names or one
of its names is not among them, and then because of the first such name, innermost first and from left to right.
Otherwise every named column of the body is replaced by the item at the first position of its name and nothing else
is changed; the result has no named columns and is given back as it is by any further binding. -/
theorem bindColumns_outcome (r : Registry) (f : Registered) (columns : Option (List String)) :
    (f.lambda.body.NoFields → r.bindColumns f columns = .ok (f, r)) ∧
    (¬ f.lambda.body.NoFields →
      ((∃ e, r.bindColumns f columns = .error e) ↔
        ∀ names, columns = some names → ∃ base name, .field base name ∈ f.lambda.body.subterms ∧ name ∉ names) ∧
      (columns = none →
        ∃ name, f.lambda.body.fieldNames.head? = some name ∧ r.bindColumns f columns = .error (.noColumns name)) ∧
      (∀ names name, columns = some names → f.lambda.body.fieldNames.find? (· ∉ names) = some name →
        r.bindColumns f columns = .error (.unknownColumn name)) ∧
      ∀ g r', r.bindColumns f columns = .ok (g, r') →
        ∃ names, columns = some names ∧ g = ⟨r.next, f.lambda.placed names⟩ ∧ r' = ⟨r.next + 1⟩) ∧
    ∀ g r', r.bindColumns f columns = .ok (g, r') →
      g.lambda.body.NoFields ∧ g.lambda.arity = f.lambda.arity ∧ g.lambda.params = f.lambda.params ∧
        ∀ (s : Registry) columns', s.bindColumns g columns' = .ok (g, s) := by
  refine ⟨fun h => bindColumns_of_noFields h r columns, fun h => ?_, fun g r' hg => ?_⟩
  · cases columns with
    | none =>
      obtain ⟨name, hname, herror⟩ := bindColumns_none h r
      refine ⟨⟨fun _ _ hnone => (nomatch hnone), fun _ => ⟨_, herror⟩⟩, fun _ => ⟨name, hname, herror⟩,
        fun _ _ hnone => (nomatch hnone), fun g r' hg => ?_⟩
      rw [herror] at hg
      cases hg
    | some names =>
      refine ⟨?_, fun hnone => (nomatch hnone), ?_, fun g r' hg => ⟨names, rfl, ?_⟩⟩
      · simpa using bindColumns_fails_iff h r
      · rintro _ name ⟨⟩ hname
        exact bindColumns_unknown hname r
      · cases hfind : f.lambda.body.fieldNames.find? (· ∉ names) with
        | some name =>
          rw [bindColumns_unknown hfind] at hg
          cases hg
        | none =>
          rw [bindColumns_known h hfind] at hg
          cases hg
          exact ⟨rfl, rfl⟩
  · obtain ⟨hclosed, hparams⟩ := bindColumns_closed hg
    exact ⟨hclosed, congrArg List.length hparams, hparams,
      fun s columns' => bindColumns_of_noFields hclosed s columns'⟩

/-- `lambda r: r['a']['b']` -/
def readTwice : Lambda := ⟨["r"], .field (.field (.param 0) "a") "b", none⟩

/-- The inner name is looked for first; what binding gives is not bound again. -/
theorem bindColumns_outcome_readTwice :
    bindColumns ⟨5⟩ ⟨3, readTwice⟩ (some ["c"]) = .error (.unknownColumn "a") ∧
    ∃ g, bindColumns ⟨5⟩ ⟨3, readTwice⟩ (some ["b", "a", "b"]) = .ok (g, ⟨6⟩) ∧ g.lambda.arity = 1 ∧
      bindColumns ⟨6⟩ g none = .ok (g, ⟨6⟩) := by
  have hfields : ¬ readTwice.body.NoFields := fun h => h _ "b" (List.mem_cons_self ..)
  obtain ⟨-, hnames, -⟩ := bindColumns_outcome ⟨5⟩ ⟨3, readTwice⟩ (some ["c"])
  obtain ⟨-, -, hunknown, -⟩ := hnames hfields
  obtain ⟨-, -, hagain⟩ := bindColumns_outcome ⟨5⟩ ⟨3, readTwice⟩ (some ["b", "a", "b"])
  obtain ⟨-, harity, -, hsame⟩ := hagain _ _ rfl
  exact ⟨hunknown ["c"] "a" rfl rfl, _, rfl, harity, hsame ⟨6⟩ none⟩

end Registry
end Millrace
