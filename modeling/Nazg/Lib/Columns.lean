import Mathlib.Logic.Function.Basic
import Nazg.Lib.Query

/-!
# Statements over declared columns

Where several tables are written through one driver, what a statement does follows from
the declarations of their columns: a bound parameter is stored under the column's
affinity, a column the statement leaves out takes its default, and a row is refused when
a NOT NULL column has nothing or a reference leads nowhere. A row is a value for each
column name; the id is kept by the table.
-/

namespace Nazg.Lib.Sqlite

inductive Affinity where
  | integer
  | text

/-- What a column stores for a value. -/
def Affinity.store : Affinity → Value → Value
  | .integer, v => v.toInteger
  | .text, .int i => .text (.ofCStr (decimal i))
  | .text, v => v

/-- The declaration of a column, over the names of the tables. -/
structure Column (τ : Type*) where
  name : String
  affinity : Affinity := .text
  notNull : Bool := false
  default : Value := .null
  references : Option τ := none

abbrev Row := String → Value

/-- `QueryResult::Row::get_int` of a driver that reads every column as text: nothing for
NULL and for a text that is no number. -/
def Value.getInt (v : Value) : Option Int :=
  v.getText.bind fun s => if s = [] then none else stoll s

theorem getInt_int {i : Int} (hlo : -2 ^ 63 ≤ i) (hhi : i ≤ 2 ^ 63 - 1) :
    (Value.int i).getInt = some i := by
  have hround : stoll (decimal i) = some i := parseInteger_decimal hlo hhi
  have hne : decimal i ≠ [] := by
    intro h
    rw [h] at hround
    cases hround
  simp only [Value.getInt, Value.getText, Option.bind_some, if_neg hne, hround]

section

variable {τ : Type*}

/-- The value of a column after its parameter is bound, `old` if it has none. -/
def Column.bind (params : List (String × Bytes)) (c : Column τ) (old : Value) : Value :=
  match params.lookup c.name with
  | some s => c.affinity.store (bindText s)
  | none => old

/-- The column's constraints on a row. -/
def Column.accepts (tables : τ → Table Row) (row : Row) (c : Column τ) : Bool :=
  (!c.notNull || row c.name ≠ .null) &&
    match c.references with
    | none => true
    | some parent => (row c.name).references (tables parent).ids

/-- A row with the parameters bound, over the values `old` of the columns that have none. -/
def bindRow (columns : List (Column τ)) (params : List (String × Bytes)) (old : Column τ → Value) :
    Row := fun name =>
  match columns.find? fun c => c.name = name with
  | some c => c.bind params (old c)
  | none => .null

/-- The row an INSERT binds. -/
def newRow (columns : List (Column τ)) (params : List (String × Bytes)) : Row :=
  bindRow columns params Column.default

/-- The row an UPDATE leaves. -/
def setRow (columns : List (Column τ)) (params : List (String × Bytes)) (row : Row) : Row :=
  bindRow columns params fun c => row c.name

/-- `DO UPDATE SET n = excluded.n` for the names. -/
def excluded (names : List String) (row old : Row) : Row := fun name =>
  if name ∈ names then row name else old name

variable (schema : τ → List (Column τ)) [DecidableEq τ]

/-- `INSERT INTO t (...) VALUES (...)`, with the new id. -/
def insertInto (t : τ) (params : List (String × Bytes)) (tables : τ → Table Row) :
    Option (Int × (τ → Table Row)) :=
  let row := newRow (schema t) params
  if (schema t).all fun c => c.accepts tables row then
    some ((tables t).lastId + 1, Function.update tables t ((tables t).insertRow row))
  else none

/-- `UPDATE t SET ... WHERE id = ?`: the constraints of the columns it sets are checked,
and a row that is not there is no error. -/
def updateById (t : τ) (id : Int) (params : List (String × Bytes)) (tables : τ → Table Row) :
    Option (τ → Table Row) :=
  match (tables t).get? id with
  | none => some tables
  | some old =>
      let row := setRow (schema t) params old
      if (schema t).all fun c => !(params.lookup c.name).isSome || c.accepts tables row then
        some (Function.update tables t ((tables t).setRow id row))
      else none

end

/-! ## When a statement goes through -/

section

variable {τ : Type*}

/-- The columns that reference a table. -/
def foreignKeys (columns : List (Column τ)) : List (String × τ) :=
  columns.filterMap fun c => c.references.map fun parent => (c.name, parent)

theorem store_ne_null (a : Affinity) (s : Bytes) : a.store (bindText s) ≠ .null := by
  cases a with
  | text => simp [Affinity.store, bindText]
  | integer =>
      simp only [Affinity.store, Value.toInteger, bindText]
      split <;> simp

theorem find?_name {columns : List (Column τ)} (hnames : (columns.map Column.name).Nodup)
    {c : Column τ} (hc : c ∈ columns) : (columns.find? fun d => d.name = c.name) = some c := by
  induction columns with
  | nil => cases hc
  | cons d columns ih =>
      rw [List.map_cons, List.nodup_cons] at hnames
      rcases List.mem_cons.1 hc with rfl | hc
      · rw [List.find?_cons_of_pos (by simp)]
      · have hne : d.name ≠ c.name := fun h => hnames.1 (h ▸ List.mem_map_of_mem hc)
        rw [List.find?_cons_of_neg (by simpa using hne), ih hnames.2 hc]

theorem lookup_isSome_iff {params : List (String × Bytes)} {name : String} :
    (params.lookup name).isSome = true ↔ name ∈ params.map Prod.fst := by
  rw [← Option.ne_none_iff_isSome, Ne, List.lookup_eq_none_iff]
  simp only [List.mem_map, bne_iff_ne, ne_eq, not_forall, not_not, exists_prop]
  exact exists_congr fun p => and_congr_right fun _ => eq_comm

/-- A column that has a parameter is not NULL. -/
theorem bindRow_ne_null {columns : List (Column τ)} (hnames : (columns.map Column.name).Nodup)
    {params : List (String × Bytes)} {c : Column τ} (hc : c ∈ columns)
    (hbound : (params.lookup c.name).isSome = true) (old : Column τ → Value) :
    bindRow columns params old c.name ≠ .null := by
  obtain ⟨s, hs⟩ := Option.isSome_iff_exists.1 hbound
  simp only [bindRow, find?_name hnames hc, Column.bind, hs]
  exact store_ne_null _ _

/-- Where no NOT NULL column among those checked is left empty, the references decide. -/
theorem accepts_all_iff {columns : List (Column τ)} (tables : τ → Table Row) {row : Row}
    (checked : String → Bool)
    (hbound : ∀ c ∈ columns, checked c.name = true → c.notNull = true → row c.name ≠ .null) :
    (columns.all fun c => !checked c.name || c.accepts tables row) = true ↔
      ∀ r ∈ foreignKeys columns, checked r.1 = true →
        (row r.1).references (tables r.2).ids = true := by
  simp only [List.all_eq_true, foreignKeys, List.mem_filterMap, Option.map_eq_some_iff,
    Bool.or_eq_true, Bool.not_eq_true', Column.accepts, Bool.and_eq_true]
  constructor
  · rintro hall _ ⟨c, hc, parent, hparent, rfl⟩ hchecked
    have hacc := ((hall c hc).resolve_left (by simp [hchecked])).2
    rw [hparent] at hacc
    exact hacc
  · intro hrefs c hc
    cases hchecked : checked c.name with
    | false => exact Or.inl rfl
    | true =>
        refine Or.inr ⟨?_, ?_⟩
        · cases hnull : c.notNull with
          | false => exact Or.inl rfl
          | true => exact Or.inr (by simpa using hbound c hc hchecked hnull)
        · cases href : c.references with
          | none => rfl
          | some parent => exact hrefs _ ⟨c, hc, parent, href, rfl⟩ hchecked

variable {schema : τ → List (Column τ)} [DecidableEq τ]

/-- An INSERT that binds every NOT NULL column goes through exactly if its references do,
and the row is then found under the new id. -/
theorem insertInto_iff {t : τ} {params : List (String × Bytes)} {tables : τ → Table Row}
    (hwf : (tables t).Wf) (hnames : ((schema t).map Column.name).Nodup)
    (hbound : ∀ c ∈ schema t, c.notNull = true → c.name ∈ params.map Prod.fst)
    (p : Int → Row → Prop) :
    (∃ id after, insertInto schema t params tables = some (id, after) ∧
        ∃ row, (after t).get? id = some row ∧ p id row) ↔
      (∀ r ∈ foreignKeys (schema t),
        (newRow (schema t) params r.1).references (tables r.2).ids = true) ∧
        p ((tables t).lastId + 1) (newRow (schema t) params) := by
  have haccepts : ((schema t).all fun c => c.accepts tables (newRow (schema t) params)) = true ↔
      ∀ r ∈ foreignKeys (schema t),
        (newRow (schema t) params r.1).references (tables r.2).ids = true := by
    have h := accepts_all_iff tables (fun _ => true) fun c hc _ hnull =>
      bindRow_ne_null hnames hc (lookup_isSome_iff.2 (hbound c hc hnull)) Column.default
    simpa [newRow] using h
  have hget : ((tables t).insertRow (newRow (schema t) params)).get? ((tables t).lastId + 1) =
      some (newRow (schema t) params) :=
    Table.get?_of_mem (hwf.insertRow _) (List.mem_append_right _ (List.mem_singleton.2 rfl))
  rw [← haccepts]
  simp only [insertInto]
  constructor
  · rintro ⟨id, after, heq, row, hrow, hp⟩
    split at heq
    · next hall =>
        cases heq
        rw [Function.update_self, hget] at hrow
        cases hrow
        exact ⟨hall, hp⟩
    · cases heq
  · rintro ⟨hall, hp⟩
    rw [if_pos hall]
    exact ⟨_, _, rfl, _, by rw [Function.update_self, hget], hp⟩

/-- An UPDATE of a row that is there goes through exactly if the references it sets do. -/
theorem updateById_iff {t : τ} {id : Int} (params : List (String × Bytes))
    {tables : τ → Table Row} {old : Row} (hold : (tables t).get? id = some old)
    (hnames : ((schema t).map Column.name).Nodup) (p : Row → Prop) :
    (∃ after, updateById schema t id params tables = some after ∧
        ∃ row, (after t).get? id = some row ∧ p row) ↔
      (∀ r ∈ foreignKeys (schema t), r.1 ∈ params.map Prod.fst →
        (setRow (schema t) params old r.1).references (tables r.2).ids = true) ∧
        p (setRow (schema t) params old) := by
  have haccepts := accepts_all_iff tables (fun name => (params.lookup name).isSome)
    fun c hc hset _ => bindRow_ne_null hnames hc hset fun c => old c.name
  rw [← setRow] at haccepts
  simp only [lookup_isSome_iff] at haccepts
  rw [← haccepts]
  simp only [updateById, hold]
  constructor
  · rintro ⟨after, heq, row, hrow, hp⟩
    split at heq
    · next hall =>
        cases heq
        rw [Function.update_self, Table.get?_setRow hold] at hrow
        cases hrow
        exact ⟨hall, hp⟩
    · cases heq
  · rintro ⟨hall, hp⟩
    rw [if_pos hall]
    exact ⟨_, rfl, _, by rw [Function.update_self, Table.get?_setRow hold], hp⟩

end

end Nazg.Lib.Sqlite
