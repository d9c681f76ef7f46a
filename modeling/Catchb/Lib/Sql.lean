import Catchb.Lib.Keyed
import Catchb.Lib.Text
import Mathlib.Data.List.Induction
import Mathlib.Logic.Function.Basic

namespace Catchb.Lib.Sql

/-- Cells hold the text that the row callback receives. -/
structure Row where
  rowid : Nat
  cells : Text → Text

structure Table where
  columns : List Text
  key : Text
  rows : List Row

/-- The value expressions `'t'`, `"t"` and `n`. -/
inductive Expr
  | quoted (t : Text)
  | doubleQuoted (t : Text)
  | number (n : Int)

/-- The pieces of a SET list. -/
inductive Clause
  | assign (column : Text) (value : Expr)
  | comma

/-- Identifiers are compared without regard to case. -/
def Table.column (t : Table) (name : Text) : Option Text :=
  t.columns.find? (fun c => strcasecmp c name)

/-- The names a table gives its row number besides its columns. -/
def isRowid (name : Text) : Bool :=
  ["rowid".toList, "oid".toList, "_rowid_".toList].any (fun c => strcasecmp c name)

/-- A literal ends at its first quote, so text with a quote is no longer one literal. -/
def Expr.closed : Expr → Bool
  | .quoted t => !t.contains '\''
  | .doubleQuoted t => !t.contains '"'
  | .number _ => true

/-- A double-quoted word that names a column is that column; otherwise it is a string. -/
def Expr.value (t : Table) (r : Row) : Expr → Text
  | .quoted s => s
  | .doubleQuoted s =>
    match t.column s with
    | some c => r.cells c
    | none => if isRowid s then decimal r.rowid else s
  | .number n => decimal n

def parse : List Clause → Option (List (Text × Expr))
  | [.assign c e] => some [(c, e)]
  | .assign c e :: .comma :: rest => (parse rest).map (fun as => (c, e) :: as)
  | _ => none

/-- Assignments read the old row. -/
def Table.assign (t : Table) (r : Row) (as : List (Text × Expr)) : Row :=
  as.foldl (fun r' a =>
    match t.column a.1 with
    | some c => { r' with cells := Function.update r'.cells c (a.2.value t r) }
    | none => r') r

/-- The updates accepted here assign known columns other than the key. -/
def Table.assignable (t : Table) (a : Text × Expr) : Bool :=
  (t.column a.1).isSome && t.column a.1 != some t.key

/-- The statements of one table. -/
inductive Stmt
  | update (set : List Clause) (id : Text)
  | delete (id : Text)
  | insert (values : List (Text × Expr))

def Clause.closed : Clause → Bool
  | .assign _ e => e.closed
  | .comma => true

def Stmt.closed : Stmt → Bool
  | .update set id => set.all Clause.closed && (Expr.quoted id).closed
  | .delete id => (Expr.quoted id).closed
  | .insert values => values.all (fun a => a.2.closed)

/-- `UPDATE t SET .. WHERE key = 'id'`; `none` is a statement that is refused. -/
def update (t : Table) (set : List Clause) (id : Text) : Option Table :=
  match parse set with
  | none => none
  | some as =>
    if as.all t.assignable then
      some { t with rows := t.rows.map (fun r => if r.cells t.key = id then t.assign r as else r) }
    else none

/-- `DELETE FROM t WHERE key = 'id'`. -/
def delete (t : Table) (id : Text) : Table :=
  { t with rows := t.rows.filter (fun r => r.cells t.key != id) }

/-- `INSERT INTO t(..) VALUES(..)`, refused when the key is taken. -/
def insert (t : Table) (values : List (Text × Expr)) : Option Table :=
  let row := t.assign ⟨(t.rows.map Row.rowid).foldl max 0 + 1, fun _ => []⟩ values
  if values.all (fun a => (t.column a.1).isSome) &&
      t.rows.all (fun r => r.cells t.key != row.cells t.key) then
    some { t with rows := t.rows ++ [row] }
  else none

def Table.apply (t : Table) : Stmt → Option Table
  | .update set id => update t set id
  | .delete id => some (delete t id)
  | .insert values => insert t values

/-- The effect of a statement's text. Where a literal does not close at its own quote the
text is another statement, and `other` is what the database makes of that one. -/
def exec (t : Table) (s : Stmt) (other : Option Table) : Option Table :=
  if s.closed then t.apply s else other

/-- `SELECT` of the row with the key. -/
def Table.get (t : Table) (id : Text) : Option Row := Keyed.get (fun r => r.cells t.key) id t.rows

variable {t t' : Table} {set : List Clause} {as : List (Text × Expr)} {id : Text}

theorem assign_snoc (r : Row) (a : Text × Expr) :
    t.assign r (as ++ [a]) =
      match t.column a.1 with
      | some c => { t.assign r as with
          cells := Function.update (t.assign r as).cells c (a.2.value t r) }
      | none => t.assign r as := by
  simp only [Table.assign, List.foldl_append, List.foldl_cons, List.foldl_nil]

/-- The assignments of a SET list, whatever stands between them. -/
def assignments (set : List Clause) : List (Text × Expr) :=
  set.filterMap (fun c => match c with
    | .assign column e => some (column, e)
    | .comma => none)

@[simp] theorem assignments_append (set set' : List Clause) :
    assignments (set ++ set') = assignments set ++ assignments set' :=
  List.filterMap_append

theorem assignments_of_parse (h : parse set = some as) : as = assignments set := by
  induction set using parse.induct generalizing as with
  | case1 c e =>
    cases h
    rfl
  | case2 c e rest ih =>
    rw [parse, Option.map_eq_some_iff] at h
    obtain ⟨bs, hb, rfl⟩ := h
    rw [ih hb]
    rfl
  | case3 set h1 h2 =>
    rw [parse] at h
    · cases h
    · exact h1
    · exact h2

theorem assignable_of_update (hp : parse set = some as) (hu : update t set id = some t') :
    as.all t.assignable = true := by
  simp only [update, hp] at hu
  split at hu
  · assumption
  · cases hu

@[simp] theorem assign_rowid (r : Row) : (t.assign r as).rowid = r.rowid := by
  induction as using List.reverseRecOn with
  | nil => rfl
  | append_singleton as a ih =>
    rw [assign_snoc]
    split
    · exact ih
    · exact ih

/-- An optional assignment shows in the cell of its column. -/
theorem cells_assign_if {name c : Text} (hc : t.column name = some c) (r : Row) (b : Bool)
    (e : Expr) (k : Text) :
    (t.assign r (as ++ if b then [(name, e)] else [])).cells k =
      if b = true ∧ k = c then e.value t r else (t.assign r as).cells k := by
  cases b with
  | false => simp
  | true =>
    simp only [↓reduceIte, assign_snoc, hc, true_and]
    by_cases hk : k = c
    · simp [hk]
    · simp [hk]

/-- An assignment of no column of the table changes nothing. -/
theorem assign_if_unknown {name : Text} (hc : t.column name = none) (r : Row) (b : Bool)
    (e : Expr) : t.assign r (as ++ if b then [(name, e)] else []) = t.assign r as := by
  cases b with
  | false => simp
  | true => simp only [↓reduceIte, assign_snoc, hc]

/-- Assignments of other columns leave the key. -/
theorem assign_key (h : as.all t.assignable = true) (r : Row) :
    (t.assign r as).cells t.key = r.cells t.key := by
  induction as using List.reverseRecOn with
  | nil => rfl
  | append_singleton as a ih =>
    simp only [List.all_append, List.all_cons, List.all_nil, Bool.and_true,
      Bool.and_eq_true] at h
    rw [assign_snoc]
    cases hc : t.column a.1 with
    | none => exact ih h.1
    | some c =>
      have hne : t.key ≠ c := by
        intro he
        simp [Table.assignable, hc, he] at h
      simpa [hne] using ih h.1

/-- The key is what is assigned to it first, if it is assigned once. -/
theorem assign_key_first {a : Text × Expr} (ha : t.column a.1 = some t.key)
    (h : as.all t.assignable = true) (r : Row) :
    (t.assign r (a :: as)).cells t.key = a.2.value t r := by
  induction as using List.reverseRecOn with
  | nil => simp [Table.assign, ha]
  | append_singleton as b ih =>
    simp only [List.all_append, List.all_cons, List.all_nil, Bool.and_true,
      Bool.and_eq_true] at h
    rw [← List.cons_append, assign_snoc]
    cases hc : t.column b.1 with
    | none => exact ih h.1
    | some c =>
      have hne : t.key ≠ c := by
        intro he
        simp [Table.assignable, hc, he] at h
      simpa [hne] using ih h.1

/-- A value that is assigned to its column once shows there. -/
theorem cells_assign (hcol : ∀ a ∈ as, t.column a.1 = some a.1) (hnd : (as.map Prod.fst).Nodup)
    {a : Text × Expr} (ha : a ∈ as) (r : Row) : (t.assign r as).cells a.1 = a.2.value t r := by
  induction as using List.reverseRecOn with
  | nil => cases ha
  | append_singleton as b ih =>
    rw [List.map_append, List.nodup_append] at hnd
    have hb : t.column b.1 = some b.1 := hcol b List.mem_concat_self
    rw [assign_snoc, hb]
    rcases List.mem_append.mp ha with ha | ha
    · have hne : a.1 ≠ b.1 := hnd.2.2 _ (List.mem_map_of_mem ha) _ List.mem_cons_self
      simpa [hne] using ih (fun c hc => hcol c (List.mem_append_left _ hc)) hnd.1 ha
    · rw [List.mem_singleton.mp ha]
      exact Function.update_self ..

/-- An executed update changes the row of its key by its assignments and no other row. -/
theorem get_update (hp : parse set = some as) (hu : update t set id = some t') (j : Text) :
    t'.get j = (t.get j).map (fun r => if j = id then t.assign r as else r) := by
  simp only [update, hp] at hu
  split at hu
  · rename_i hok
    cases hu
    have hkey : ∀ r : Row, (if r.cells t.key = id then t.assign r as else r).cells t.key =
        r.cells t.key := by
      intro r
      split
      · exact assign_key hok r
      · rfl
    have hmap : Keyed.get (fun r => r.cells t.key) j
        (t.rows.map (fun r => if r.cells t.key = id then t.assign r as else r)) = _ :=
      Keyed.get_map hkey
    simp only [Table.get, hmap]
    cases hf : Keyed.get (fun r => r.cells t.key) j t.rows with
    | none => rfl
    | some r => simp [Keyed.get_key hf]
  · cases hu

/-- An executed update keeps the columns and the key. -/
theorem update_schema (hu : update t set id = some t') :
    t'.columns = t.columns ∧ t'.key = t.key := by
  unfold update at hu
  split at hu
  · cases hu
  · split at hu
    · cases hu; exact ⟨rfl, rfl⟩
    · cases hu

end Catchb.Lib.Sql
