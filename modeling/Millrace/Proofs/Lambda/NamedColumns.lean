import Mathlib.Algebra.Ring.Nat
import Millrace.Lambda.Eval

/-!
# Named columns

A lambda names a column as `r['c']`, and the name is bound to the position of the column before there are rows.  What
the parameter `r` is depends on the row: for several columns it is the tuple of all of them, and `r['c']` is the
value of the column.  For a single column it is the bare value of that column, and `r['c']` is the first item or
character of that value (`bindColumns_eval`).
-/

namespace Millrace

namespace Expr

mutual

/-- The expression with every named column replaced, whatever it is a column of. -/
def replaceFields (r : String → Expr) : Expr → Expr
  | const v => const v
  | param i => param i
  | unary op e => unary op (replaceFields r e)
  | binary op a b => binary op (replaceFields r a) (replaceFields r b)
  | compare first links => compare (replaceFields r first) (replaceInLinks r links)
  | and a b => and (replaceFields r a) (replaceFields r b)
  | or a b => or (replaceFields r a) (replaceFields r b)
  | ifElse c y n => ifElse (replaceFields r c) (replaceFields r y) (replaceFields r n)
  | call f args => call f (replaceInAll r args)
  | tuple items => tuple (replaceInAll r items)
  | index base i => index (replaceFields r base) (replaceFields r i)
  | field _ name => r name

def replaceInAll (r : String → Expr) : List Expr → List Expr
  | [] => []
  | e :: rest => replaceFields r e :: replaceInAll r rest

def replaceInLinks (r : String → Expr) : List (CompareOp × Expr) → List (CompareOp × Expr)
  | [] => []
  | (op, e) :: rest => (op, replaceFields r e) :: replaceInLinks r rest

end

/-- If the expression is a named column, then of the first parameter, and with one of these names. -/
def ReadsColumn (names : List String) : Expr → Prop
  | field base name => base = param 0 ∧ name ∈ names
  | _ => True

section
variable {names : List String} {args : List Value} {r : String → Expr} {ε : Type} {position : String → Except ε Nat}

/-- Names are resolved to positions, and reading a position gives what stands for the name. -/
def Resolves (position : String → Except ε Nat) (names : List String) (args : List Value)
    (r : String → Expr) : Prop :=
  ∀ name ∈ names, ∃ p, position name = .ok p ∧
    (index (param 0) (const (.int (Int64.ofNat p)))).eval args = (r name).eval args

mutual

/-- Resolving the names of an expression is replacing them. -/
theorem resolveFields_eval (hr : Resolves position names args r) : (e : Expr) →
    (∀ x ∈ e.subterms, x.ReadsColumn names) →
    ∃ e', e.resolveFields position = .ok e' ∧ e'.eval args = (e.replaceFields r).eval args
  | const v, _ => ⟨const v, rfl, rfl⟩
  | param i, _ => ⟨param i, rfl, rfl⟩
  | unary op e, h => by
    obtain ⟨-, he⟩ := List.forall_mem_cons.1 h
    obtain ⟨e', he, heval⟩ := resolveFields_eval hr e he
    refine ⟨unary op e', by rw [resolveFields, he]; rfl, ?_⟩
    rw [eval, replaceFields, eval, heval]
  | binary op a b, h => by
    obtain ⟨-, hrest⟩ := List.forall_mem_cons.1 h
    obtain ⟨ha, hb⟩ := List.forall_mem_append.1 hrest
    obtain ⟨a', ha, haeval⟩ := resolveFields_eval hr a ha
    obtain ⟨b', hb, hbeval⟩ := resolveFields_eval hr b hb
    refine ⟨binary op a' b', by rw [resolveFields, ha, hb]; rfl, ?_⟩
    rw [eval, replaceFields, eval, haeval, hbeval]
  | compare first links, h => by
    obtain ⟨-, hrest⟩ := List.forall_mem_cons.1 h
    obtain ⟨hfirst, hlinks⟩ := List.forall_mem_append.1 hrest
    obtain ⟨first', hf, hfeval⟩ := resolveFields_eval hr first hfirst
    obtain ⟨links', hl, hleval⟩ := resolveLinks_eval hr links hlinks
    refine ⟨compare first' links', by rw [resolveFields, hf, hl]; rfl, ?_⟩
    rw [eval, replaceFields, eval, hfeval]
    simp only [hleval]
  | and a b, h => by
    obtain ⟨-, hrest⟩ := List.forall_mem_cons.1 h
    obtain ⟨ha, hb⟩ := List.forall_mem_append.1 hrest
    obtain ⟨a', ha, haeval⟩ := resolveFields_eval hr a ha
    obtain ⟨b', hb, hbeval⟩ := resolveFields_eval hr b hb
    refine ⟨and a' b', by rw [resolveFields, ha, hb]; rfl, ?_⟩
    rw [eval, replaceFields, eval, haeval, hbeval]
  | or a b, h => by
    obtain ⟨-, hrest⟩ := List.forall_mem_cons.1 h
    obtain ⟨ha, hb⟩ := List.forall_mem_append.1 hrest
    obtain ⟨a', ha, haeval⟩ := resolveFields_eval hr a ha
    obtain ⟨b', hb, hbeval⟩ := resolveFields_eval hr b hb
    refine ⟨or a' b', by rw [resolveFields, ha, hb]; rfl, ?_⟩
    rw [eval, replaceFields, eval, haeval, hbeval]
  | ifElse c y n, h => by
    obtain ⟨-, hrest⟩ := List.forall_mem_cons.1 h
    obtain ⟨hc, hrest⟩ := List.forall_mem_append.1 hrest
    obtain ⟨hy, hn⟩ := List.forall_mem_append.1 hrest
    obtain ⟨c', hc, hceval⟩ := resolveFields_eval hr c hc
    obtain ⟨y', hy, hyeval⟩ := resolveFields_eval hr y hy
    obtain ⟨n', hn, hneval⟩ := resolveFields_eval hr n hn
    refine ⟨ifElse c' y' n', by rw [resolveFields, hc, hy, hn]; rfl, ?_⟩
    rw [eval, replaceFields, eval, hceval, hyeval, hneval]
  | call f es, h => by
    obtain ⟨-, hes⟩ := List.forall_mem_cons.1 h
    obtain ⟨es', hes, heval⟩ := resolveAll_eval hr es hes
    refine ⟨call f es', by rw [resolveFields, hes]; rfl, ?_⟩
    rw [eval, replaceFields, eval, heval]
  | tuple es, h => by
    obtain ⟨-, hes⟩ := List.forall_mem_cons.1 h
    obtain ⟨es', hes, heval⟩ := resolveAll_eval hr es hes
    refine ⟨tuple es', by rw [resolveFields, hes]; rfl, ?_⟩
    rw [eval, replaceFields, eval, heval]
  | index base i, h => by
    obtain ⟨-, hrest⟩ := List.forall_mem_cons.1 h
    obtain ⟨hb, hi⟩ := List.forall_mem_append.1 hrest
    obtain ⟨base', hb, hbeval⟩ := resolveFields_eval hr base hb
    obtain ⟨i', hi, hieval⟩ := resolveFields_eval hr i hi
    refine ⟨index base' i', by rw [resolveFields, hb, hi]; rfl, ?_⟩
    rw [eval, replaceFields, eval, hbeval, hieval]
  | field base name, h => by
    obtain ⟨⟨rfl, hname⟩, -⟩ := List.forall_mem_cons.1 h
    obtain ⟨p, hp, heval⟩ := hr name hname
    refine ⟨index (param 0) (const (.int (Int64.ofNat p))), by rw [resolveFields, resolveFields, hp]; rfl, ?_⟩
    rw [heval, replaceFields]

theorem resolveAll_eval (hr : Resolves position names args r) : (es : List Expr) →
    (∀ x ∈ subtermsOfAll es, x.ReadsColumn names) →
    ∃ es', resolveAll position es = .ok es' ∧ evalAll args es' = evalAll args (replaceInAll r es)
  | [], _ => ⟨[], rfl, rfl⟩
  | e :: rest, h => by
    obtain ⟨he, hrest⟩ := List.forall_mem_append.1 h
    obtain ⟨e', he, heval⟩ := resolveFields_eval hr e he
    obtain ⟨rest', hrest, hreval⟩ := resolveAll_eval hr rest hrest
    refine ⟨e' :: rest', by rw [resolveAll, he, hrest]; rfl, ?_⟩
    rw [evalAll, replaceInAll, evalAll, heval, hreval]

theorem resolveLinks_eval (hr : Resolves position names args r) : (links : List (CompareOp × Expr)) →
    (∀ x ∈ subtermsOfLinks links, x.ReadsColumn names) →
    ∃ links', resolveLinks position links = .ok links' ∧
      ∀ left, evalLinks args left links' = evalLinks args left (replaceInLinks r links)
  | [], _ => ⟨[], rfl, fun _ => rfl⟩
  | (op, e) :: rest, h => by
    obtain ⟨he, hrest⟩ := List.forall_mem_append.1 h
    obtain ⟨e', he, heval⟩ := resolveFields_eval hr e he
    obtain ⟨rest', hrest, hreval⟩ := resolveLinks_eval hr rest hrest
    refine ⟨(op, e') :: rest', by rw [resolveLinks, he, hrest]; rfl, fun left => ?_⟩
    rw [evalLinks, replaceInLinks, evalLinks, heval]
    simp only [hreval]

end

mutual

/-- An expression without named columns has nothing to resolve. -/
theorem resolveFields_of_closed (position : String → Except ε Nat) :
    (e : Expr) → (∀ x ∈ e.subterms, x.asFieldName? = none) → e.resolveFields position = .ok e
  | const v, _ => rfl
  | param i, _ => rfl
  | unary op e, h => by
    obtain ⟨-, he⟩ := List.forall_mem_cons.1 h
    rw [resolveFields, resolveFields_of_closed position e he]
    rfl
  | binary op a b, h | and a b, h | or a b, h => by
    obtain ⟨-, hrest⟩ := List.forall_mem_cons.1 h
    obtain ⟨ha, hb⟩ := List.forall_mem_append.1 hrest
    rw [resolveFields, resolveFields_of_closed position a ha, resolveFields_of_closed position b hb]
    rfl
  | compare first links, h => by
    obtain ⟨-, hrest⟩ := List.forall_mem_cons.1 h
    obtain ⟨hfirst, hlinks⟩ := List.forall_mem_append.1 hrest
    rw [resolveFields, resolveFields_of_closed position first hfirst, resolveLinks_of_closed position links hlinks]
    rfl
  | ifElse c y n, h => by
    obtain ⟨-, hrest⟩ := List.forall_mem_cons.1 h
    obtain ⟨hc, hrest⟩ := List.forall_mem_append.1 hrest
    obtain ⟨hy, hn⟩ := List.forall_mem_append.1 hrest
    rw [resolveFields, resolveFields_of_closed position c hc, resolveFields_of_closed position y hy,
      resolveFields_of_closed position n hn]
    rfl
  | call f es, h | tuple es, h => by
    obtain ⟨-, hes⟩ := List.forall_mem_cons.1 h
    rw [resolveFields, resolveAll_of_closed position es hes]
    rfl
  | index base i, h => by
    obtain ⟨-, hrest⟩ := List.forall_mem_cons.1 h
    obtain ⟨hb, hi⟩ := List.forall_mem_append.1 hrest
    rw [resolveFields, resolveFields_of_closed position base hb, resolveFields_of_closed position i hi]
    rfl
  | field base name, h => by
    obtain ⟨hself, -⟩ := List.forall_mem_cons.1 h
    cases hself

theorem resolveAll_of_closed (position : String → Except ε Nat) :
    (es : List Expr) → (∀ x ∈ subtermsOfAll es, x.asFieldName? = none) → resolveAll position es = .ok es
  | [], _ => rfl
  | e :: rest, h => by
    obtain ⟨he, hrest⟩ := List.forall_mem_append.1 h
    rw [resolveAll, resolveFields_of_closed position e he, resolveAll_of_closed position rest hrest]
    rfl

theorem resolveLinks_of_closed (position : String → Except ε Nat) :
    (links : List (CompareOp × Expr)) → (∀ x ∈ subtermsOfLinks links, x.asFieldName? = none) →
      resolveLinks position links = .ok links
  | [], _ => rfl
  | (op, e) :: rest, h => by
    obtain ⟨he, hrest⟩ := List.forall_mem_append.1 h
    rw [resolveLinks, resolveFields_of_closed position e he, resolveLinks_of_closed position rest hrest]
    rfl

end

end
end Expr

/-! ### Binding the names of a lambda -/

/-- The value that a row holds in the column `name`. -/
def Row.column? (names : List String) (row : Row) (name : String) : Option Value := (names.zip row).lookup name

/-- The value of a column as a constant. -/
def Row.columnConst (names : List String) (row : Row) (name : String) : Expr :=
  match row.column? names name with
  | some v => .const v
  | none => .field (.param 0) name

/-- The first item or character of the value of a column. -/
def Row.columnItem (names : List String) (row : Row) (name : String) : Expr :=
  .index (row.columnConst names name) (.const (.int 0))

section
variable {f : Lambda} {names : List String} {row : Row} {name : String}

/-- A lambda without named columns is bound like the others: it has no names to resolve. -/
theorem bindColumns_eq (f : Lambda) (columns : Option (List String)) :
    f.bindColumns columns =
      (f.body.resolveFields (Lambda.columnPosition columns)).map fun body => { f with body } := by
  rw [Lambda.bindColumns]
  split
  · cases f.body.resolveFields (Lambda.columnPosition columns) <;> rfl
  · next h =>
    have hclosed : ∀ x ∈ f.body.subterms, x.asFieldName? = none := by
      have hnone := List.any_eq_false.1 (Bool.eq_false_iff.2 h)
      intro x hx
      simpa using hnone x hx
    rw [Expr.resolveFields_of_closed _ f.body hclosed]
    rfl

theorem exists_position (hwidth : row.length = names.length) (hname : name ∈ names) :
    ∃ p v, names.idxOf? name = some p ∧ row.column? names name = some v ∧ row[p]? = some v := by
  induction names generalizing row with
  | nil => cases hname
  | cons n names ih =>
    cases row with
    | nil => cases hwidth
    | cons v row =>
      by_cases hn : name = n
      · subst hn
        refine ⟨0, v, ?_, ?_, rfl⟩
        · rw [List.idxOf?_cons, if_pos (beq_self_eq_true name)]
        · rw [Row.column?, List.zip_cons_cons, List.lookup_cons_self]
      · have hmem : name ∈ names := by
          rcases List.mem_cons.1 hname with rfl | hmem
          · exact absurd rfl hn
          · exact hmem
        obtain ⟨p, w, hp, hw, hrow⟩ := ih (by simpa using hwidth) hmem
        refine ⟨p + 1, w, ?_, ?_, hrow⟩
        · have hne : (n == name) = false := by
            rw [beq_eq_false_iff_ne]
            exact fun h => hn h.symm
          rw [List.idxOf?_cons, hne, hp]
          rfl
        · have hne : (name == n) = false := by
            rw [beq_eq_false_iff_ne]
            exact hn
          rw [Row.column?, List.zip_cons_cons, List.lookup_cons, hne]
          exact hw

/-- The position of a column leads to its value. -/
theorem columnPosition_spec (hwidth : row.length = names.length) (hname : name ∈ names) :
    ∃ p v, Lambda.columnPosition (some names) name = .ok p ∧ row.columnConst names name = .const v ∧
      row[p]? = some v := by
  obtain ⟨p, v, hp, hv, hrow⟩ := exists_position hwidth hname
  refine ⟨p, v, ?_, ?_, hrow⟩
  · simp only [Lambda.columnPosition, hp]
  · simp only [Row.columnConst, hv]

theorem positionIn_ofNat {len p : Nat} (hp : p < len) (hlen : len < 2 ^ 63) :
    positionIn len (Int64.ofNat p) = some p := by
  have hint : (Int64.ofNat p).toInt = p := Int64.toInt_ofNat_of_lt (by omega)
  have hneg : ¬ Int64.ofNat p < 0 := by
    rw [Int64.lt_iff_toInt_lt, hint]
    have hzero : (0 : Int64).toInt = 0 := rfl
    omega
  have hin : (0 : Int) ≤ p ∧ (p : Int) < len := by omega
  simp only [positionIn, hneg, hint, hin, and_self, ↓reduceIte, Int.toNat_natCast]

/-- On a row of several columns, a name stands for the value of its column. -/
theorem resolves_const (hwidth : row.length = names.length) (hlen : names.length < 2 ^ 63) :
    Expr.Resolves (Lambda.columnPosition (some names)) names [.tuple row] (row.columnConst names) := by
  intro name hname
  obtain ⟨p, v, hp, hv, hrow⟩ := columnPosition_spec hwidth hname
  obtain ⟨hlt, -⟩ := List.getElem?_eq_some_iff.1 hrow
  refine ⟨p, hp, ?_⟩
  have hat : itemAt row (Int64.ofNat p) = .ok v := by
    simp only [itemAt, positionIn_ofNat hlt (by omega), Option.bind_some, hrow]
  rw [hv]
  exact hat

/-- On a row of one column, a name stands for the first item of the value. -/
theorem resolves_item {v : Value} (hone : names.length = 1) :
    Expr.Resolves (Lambda.columnPosition (some names)) names [v] (Row.columnItem names [v]) := by
  intro name hname
  have hwidth : List.length ([v] : Row) = names.length := hone.symm
  obtain ⟨p, w, hp, hv, hrow⟩ := columnPosition_spec hwidth hname
  cases p with
  | succ p => cases hrow
  | zero =>
    cases hrow
    refine ⟨0, hp, ?_⟩
    rw [Row.columnItem, hv]
    rfl

/-- After binding, a named column means the value of the column, for all numbers of columns but one: the only column
of a row is indexed instead.  A position is an integer of 64 bits, which is enough for any list in memory. -/
theorem bindColumns_eval (harity : f.arity = 1) (hwidth : row.length = names.length) (hlen : names.length < 2 ^ 63)
    (hfields : ∀ x ∈ f.body.subterms, x.ReadsColumn names) :
    ∃ g, f.bindColumns (some names) = .ok g ∧
      (names.length ≠ 1 →
        g.eval row = Lambda.eval { f with body := f.body.replaceFields (row.columnConst names) } row) ∧
      (names.length = 1 →
        g.eval row = Lambda.eval { f with body := f.body.replaceFields (row.columnItem names) } row) := by
  by_cases hone : names.length = 1
  · obtain ⟨v, rfl⟩ := List.length_eq_one_iff.1 (hwidth.trans hone)
    obtain ⟨body, hbody, heval⟩ := Expr.resolveFields_eval (resolves_item (v := v) hone) f.body hfields
    refine ⟨{ f with body }, by rw [bindColumns_eq, hbody]; rfl, fun h => absurd hone h, fun _ => ?_⟩
    have hargs : bindArguments f.arity [v] = .ok [v] := by
      rw [bindArguments, harity]
      rfl
    change bindArguments f.arity [v] >>= _ = bindArguments f.arity [v] >>= _
    rw [hargs]
    exact heval
  · obtain ⟨body, hbody, heval⟩ := Expr.resolveFields_eval (resolves_const hwidth hlen) f.body hfields
    refine ⟨{ f with body }, by rw [bindColumns_eq, hbody]; rfl, fun _ => ?_, fun h => absurd h hone⟩
    have hargs : bindArguments f.arity row = .ok [.tuple row] := by
      rw [bindArguments, harity, if_neg (by omega)]
      rfl
    change bindArguments f.arity row >>= _ = bindArguments f.arity row >>= _
    rw [hargs]
    exact heval

/-- `lambda r: r['a']` -/
def readA : Lambda := ⟨["r"], .field (.param 0) "a", none⟩

theorem bindColumns_eval_readA :
    ∃ g, readA.bindColumns (some ["b", "a"]) = .ok g ∧ g.eval [.int 1, .str "xy"] = .ok (.str "xy") := by
  have hfields : ∀ x ∈ readA.body.subterms, x.ReadsColumn ["b", "a"] := by
    simp [readA, Expr.subterms, Expr.ReadsColumn]
  obtain ⟨g, hg, hmany, -⟩ := @bindColumns_eval readA ["b", "a"] [.int 1, .str "xy"] rfl rfl (by decide) hfields
  exact ⟨g, hg, hmany (by decide)⟩

/-- The only column of a row is not read, but indexed. -/
theorem bindColumns_of_one_column :
    ∃ g, readA.bindColumns (some ["a"]) = .ok g ∧ g.eval [.str "xy"] = .ok (.str "x") ∧
      Lambda.eval { readA with body := readA.body.replaceFields (Row.columnConst ["a"] [.str "xy"]) } [.str "xy"] =
        .ok (.str "xy") :=
  ⟨_, rfl, rfl, rfl⟩

end
end Millrace
