import Nazg.Lib.Decimal

/-!
# Tables of a SQLite database

The part of SQLite that a driver which binds every parameter as text can reach.
A value is NULL, an integer or a text; a bound parameter is a text up to its
terminator and never NULL; a column of INTEGER affinity turns an integer literal
into an integer and keeps any other text as it is, the empty one included. That
last rule is what a foreign key then sees: only NULL is exempt from the check.

A table is its rows in rowid order with the counter of its AUTOINCREMENT key.
The two conflict clauses are given by the predicate that says which rows clash
with the new one on a uniqueness key: `OR REPLACE` deletes them and inserts,
`ON CONFLICT DO UPDATE` rewrites the clashing row in place.
-/

namespace Nazg.Lib.Sqlite

inductive Value where
  | null
  | int (i : Int)
  | text (t : Text)
  deriving DecidableEq

/-- `sqlite3_bind_text(stmt, i, s.c_str(), -1, ...)`. -/
def bindText (s : Bytes) : Value := .text (Text.ofCStr s)

/-- The integer literals a program writes: an optional sign and digits, in the
64-bit range. -/
def integerLiteral (s : Bytes) : Option Int :=
  if (stripSign s).all isDigit then parseSigned (-2 ^ 63) (2 ^ 63 - 1) s else none

/-- What a column of INTEGER affinity stores. -/
def Value.toInteger : Value → Value
  | .text t =>
      match integerLiteral t.bytes with
      | some i => .int i
      | none => .text t
  | v => v

/-- The foreign-key check of a column that references an INTEGER PRIMARY KEY. -/
def Value.references (ids : List Int) : Value → Bool
  | .null => true
  | .int i => i ∈ ids
  | .text _ => false

/-- Reading a column as text: NULL has no text. -/
def Value.getText : Value → Option Bytes
  | .null => none
  | .int i => some (decimal i)
  | .text t => some t.bytes

theorem toInteger_empty : (bindText []).toInteger = .text (Text.ofCStr []) := by
  decide

/-- An empty string bound to a foreign-key column names no row of any parent. -/
theorem references_empty (ids : List Int) : (bindText []).toInteger.references ids = false := by
  rw [toInteger_empty]
  rfl

/-- `to_string(i)` bound to an INTEGER column is stored as `i`. -/
theorem toInteger_decimal {i : Int} (hlo : -2 ^ 63 ≤ i) (hhi : i ≤ 2 ^ 63 - 1) :
    (bindText (decimal i)).toInteger = .int i := by
  have hnul : cstr (decimal i) = decimal i :=
    cstr_eq_self.2 fun h => absurd (lt_of_mem_decimal h) (by decide)
  have hlit : integerLiteral (decimal i) = some i := by
    have hall : ∀ n, (natDecimal n).all isDigit = true := fun n =>
      List.all_eq_true.2 fun c hc => isDigit_of_mem_natDecimal hc
    cases i with
    | ofNat n =>
        rw [integerLiteral, decimal, stripSign_natDecimal, if_pos (hall n)]
        exact parseSigned_natDecimal hlo hhi
    | negSucc n =>
        rw [integerLiteral, decimal, stripSign_neg, if_pos (hall (n + 1))]
        exact parseSigned_neg hlo hhi
  simp only [bindText, Value.toInteger, Text.ofCStr_bytes, hnul, hlit]

/-! ## Tables -/

/-- Rows with their ids, and the last id handed out. -/
structure Table (ρ : Type*) where
  rows : List (Int × ρ)
  lastId : Int

namespace Table

variable {ρ κ : Type*}

/-- The rows without their ids. -/
def data (t : Table ρ) : List ρ := t.rows.map Prod.snd

/-- The ids in use. -/
def ids (t : Table ρ) : List Int := t.rows.map Prod.fst

def empty : Table ρ := ⟨[], 0⟩

/-- `INSERT`. -/
def insertRow (t : Table ρ) (r : ρ) : Table ρ :=
  ⟨t.rows ++ [(t.lastId + 1, r)], t.lastId + 1⟩

/-- `INSERT OR REPLACE`. -/
def replaceRow (clash : ρ → Bool) (t : Table ρ) (r : ρ) : Table ρ :=
  insertRow ⟨t.rows.filter fun x => !clash x.2, t.lastId⟩ r

/-- `INSERT ... ON CONFLICT DO UPDATE`. -/
def upsertRow (clash : ρ → Bool) (update : ρ → ρ) (t : Table ρ) (r : ρ) : Table ρ :=
  if t.data.any clash then
    ⟨t.rows.map fun x => if clash x.2 then (x.1, update x.2) else x, t.lastId⟩
  else t.insertRow r

@[simp] theorem data_insertRow (t : Table ρ) (r : ρ) :
    (t.insertRow r).data = t.data ++ [r] := by
  simp [data, insertRow]

@[simp] theorem data_replaceRow (clash : ρ → Bool) (t : Table ρ) (r : ρ) :
    (t.replaceRow clash r).data = (t.data.filter fun x => !clash x) ++ [r] := by
  simp [data, replaceRow, insertRow, List.filter_map, Function.comp_def]

theorem data_upsertRow_of_clash {clash : ρ → Bool} {t : Table ρ} (update : ρ → ρ) (r : ρ)
    (h : ∃ x ∈ t.data, clash x = true) :
    (t.upsertRow clash update r).data = t.data.map fun x => if clash x then update x else x := by
  rw [upsertRow, if_pos (List.any_eq_true.2 h)]
  simp only [data, List.map_map]
  refine List.map_congr_left fun x _ => ?_
  simp only [Function.comp]
  split <;> rfl

theorem data_upsertRow_of_new {clash : ρ → Bool} {t : Table ρ} (update : ρ → ρ) (r : ρ)
    (h : ∀ x ∈ t.data, clash x = false) :
    (t.upsertRow clash update r).data = t.data ++ [r] := by
  rw [upsertRow, if_neg, data_insertRow]
  intro hany
  obtain ⟨x, hx, hc⟩ := List.any_eq_true.1 hany
  rw [h x hx] at hc
  cases hc

/-! ### Storing a sequence of rows under a uniqueness key -/

variable [DecidableEq κ]

/-- One `INSERT OR REPLACE` after the other. -/
def replaceAll (key : ρ → κ) (t : Table ρ) (rs : List ρ) : Table ρ :=
  rs.foldl (fun t r => t.replaceRow (fun x => key x = key r) r) t

/-- A sequence of replacing inserts leaves, for each key, the last row written
under it, and of the rows before only those whose key was never written. -/
theorem mem_data_replaceAll (key : ρ → κ) (rs : List ρ) : ∀ (t : Table ρ) (r : ρ),
    r ∈ (t.replaceAll key rs).data ↔
      (∃ l₁ l₂, rs = l₁ ++ r :: l₂ ∧ ∀ x ∈ l₂, key x ≠ key r) ∨
      (r ∈ t.data ∧ ∀ x ∈ rs, key x ≠ key r) := by
  induction rs with
  | nil => intro t r; simp [replaceAll]
  | cons y rs ih =>
      intro t r
      have hstep : t.replaceAll key (y :: rs) =
          (t.replaceRow (fun x => key x = key y) y).replaceAll key rs := rfl
      rw [hstep, ih, data_replaceRow]
      simp only [List.mem_append, List.mem_filter, List.mem_singleton, Bool.not_eq_true',
        decide_eq_false_iff_not]
      constructor
      · rintro (⟨l₁, l₂, rfl, hl⟩ | ⟨⟨hr, hy⟩ | rfl, hrs⟩)
        · exact Or.inl ⟨y :: l₁, l₂, rfl, hl⟩
        · refine Or.inr ⟨hr, fun x hx => ?_⟩
          rcases List.mem_cons.1 hx with rfl | hx
          · exact Ne.symm hy
          · exact hrs x hx
        · exact Or.inl ⟨[], rs, rfl, hrs⟩
      · rintro (⟨l₁, l₂, heq, hl⟩ | ⟨hr, hrs⟩)
        · cases l₁ with
          | nil =>
              obtain ⟨rfl, rfl⟩ := List.cons.inj heq
              exact Or.inr ⟨Or.inr rfl, hl⟩
          | cons z l₁ =>
              obtain ⟨rfl, rfl⟩ := List.cons.inj heq
              exact Or.inl ⟨l₁, l₂, rfl, hl⟩
        · exact Or.inr ⟨Or.inl ⟨hr, fun h => hrs y List.mem_cons_self h.symm⟩,
            fun x hx => hrs x (List.mem_cons_of_mem _ hx)⟩

end Table

end Nazg.Lib.Sqlite
