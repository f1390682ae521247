/-!
# Tables with a primary key

A table maps a key to its row, and the statements that change one key leave every other
key as it was.
-/

abbrev Table (Key Row : Type) := Key → Option Row

namespace Table

variable {Key Row : Type} [DecidableEq Key]

/-- `UPDATE … WHERE key = k`. -/
def update (table : Table Key Row) (k : Key) (change : Row → Row) : Table Key Row :=
  fun key => if key = k then (table key).map change else table key

/-- `DELETE … WHERE key = k AND condition`. -/
def deleteIf (table : Table Key Row) (k : Key) (condition : Row → Bool) : Table Key Row :=
  fun key => if key = k then (table key).filter (fun row => !condition row) else table key

/-- `INSERT … ON CONFLICT DO NOTHING`. -/
def insertNew (table : Table Key Row) (k : Key) (row : Row) : Table Key Row :=
  fun key => if key = k then (table key).or (some row) else table key

/-- `INSERT … ON CONFLICT (key) DO UPDATE`. -/
def upsert (table : Table Key Row) (k : Key) (row : Row) : Table Key Row :=
  fun key => if key = k then some row else table key

variable {table : Table Key Row} {k key : Key} {row : Row}

@[simp] theorem update_self (change : Row → Row) : table.update k change k = (table k).map change :=
  if_pos rfl

@[simp] theorem deleteIf_self (condition : Row → Bool) :
    table.deleteIf k condition k = (table k).filter (fun row => !condition row) :=
  if_pos rfl

@[simp] theorem insertNew_self : table.insertNew k row k = (table k).or (some row) :=
  if_pos rfl

theorem update_of_ne (change : Row → Row) (different : key ≠ k) :
    table.update k change key = table key :=
  if_neg different

theorem deleteIf_of_ne (condition : Row → Bool) (different : key ≠ k) :
    table.deleteIf k condition key = table key :=
  if_neg different

/-- A row after an UPDATE is the row before it, changed or not. -/
theorem of_update {change : Row → Row} (stored : table.update k change key = some row) :
    ∃ old, table key = some old ∧ (row = old ∨ row = change old) := by
  simp only [update] at stored
  split at stored
  · obtain ⟨old, before, rfl⟩ := Option.map_eq_some_iff.mp stored
    exact ⟨old, before, .inr rfl⟩
  · exact ⟨row, stored, .inl rfl⟩

theorem of_deleteIf {condition : Row → Bool} (stored : table.deleteIf k condition key = some row) :
    table key = some row := by
  simp only [deleteIf] at stored
  split at stored
  · exact (Option.filter_eq_some_iff.mp stored).1
  · exact stored

/-- An insertion that yields to what is there never changes a row. -/
theorem insertNew_of_some {present : Row} (stored : table key = some present) :
    table.insertNew k row key = some present := by
  simp only [insertNew]
  split
  · rw [stored, Option.some_or]
  · exact stored

theorem of_insertNew {present : Row} (stored : table.insertNew k row key = some present) :
    table key = some present ∨ present = row := by
  simp only [insertNew] at stored
  split at stored
  · rcases Option.or_eq_some_iff.mp stored with before | ⟨_, new⟩
    · exact .inl before
    · exact .inr (Option.some.inj new).symm
  · exact .inl stored

/-- A row that was not there is the one inserted, under its key. -/
theorem key_of_insertNew {present : Row} (stored : table.insertNew k row key = some present) :
    table key = some present ∨ table key = none ∧ key = k ∧ present = row := by
  simp only [insertNew] at stored
  split at stored
  next same =>
    rcases Option.or_eq_some_iff.mp stored with before | ⟨free, new⟩
    · exact .inl before
    · exact .inr ⟨free, same, (Option.some.inj new).symm⟩
  · exact .inl stored

/-- Several rows, each inserted unless its key is taken. -/
def insertAll (table : Table Key Row) (rows : List (Key × Row)) : Table Key Row :=
  rows.foldl (fun table entry => table.insertNew entry.1 entry.2) table

theorem insertAll_of_some {rows : List (Key × Row)} {present : Row}
    (stored : table key = some present) : table.insertAll rows key = some present := by
  induction rows generalizing table with
  | nil => exact stored
  | cons entry rows ih => exact ih (insertNew_of_some stored)

/-- Every key of the rows is taken afterwards. -/
theorem insertAll_of_mem {rows : List (Key × Row)} {row : Row} (member : (key, row) ∈ rows) :
    ∃ present, table.insertAll rows key = some present := by
  induction rows generalizing table with
  | nil => cases member
  | cons entry rows ih =>
    rcases List.mem_cons.mp member with rfl | later
    · have taken : table.insertNew key row key = some ((table key).getD row) := by
        rw [insertNew_self]
        cases table key <;> rfl
      have kept : (table.insertNew key row).insertAll rows key = _ := insertAll_of_some taken
      exact ⟨_, kept⟩
    · exact ih later

theorem of_insertAll {rows : List (Key × Row)} {present : Row}
    (stored : table.insertAll rows key = some present) :
    table key = some present ∨ ∃ entry ∈ rows, present = entry.2 := by
  induction rows generalizing table with
  | nil => exact .inl stored
  | cons entry rows ih =>
    rcases ih stored with before | ⟨later, member, new⟩
    · rcases of_insertNew before with before | new
      · exact .inl before
      · exact .inr ⟨entry, List.mem_cons_self, new⟩
    · exact .inr ⟨later, List.mem_cons_of_mem _ member, new⟩

theorem key_of_insertAll {rows : List (Key × Row)} {present : Row}
    (stored : table.insertAll rows key = some present) :
    table key = some present ∨ table key = none ∧ (key, present) ∈ rows := by
  induction rows generalizing table with
  | nil => exact .inl stored
  | cons entry rows ih =>
    rcases ih stored with before | ⟨free, later⟩
    · rcases key_of_insertNew before with before | ⟨free, rfl, rfl⟩
      · exact .inl before
      · exact .inr ⟨free, List.mem_cons_self⟩
    · refine .inr ⟨Option.eq_none_iff_forall_ne_some.mpr fun row taken =>
        ?_, List.mem_cons_of_mem _ later⟩
      cases free.symm.trans (insertNew_of_some taken)

end Table
