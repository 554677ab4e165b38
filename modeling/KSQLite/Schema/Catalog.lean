import KSQLite.Log.FirstWins
import KSQLite.Schema.Drift
import KSQLite.Store.Schema

/-!
# The catalog of a database

What SQLite knows of the schema of a store: its tables and its view, the generated columns that
were added to `_records`, and the indexes of `_records`. SQLite compares names case-insensitively,
so no two columns and no two indexes differ in case only; a catalog carries that.
`Catalog.addColumn` refuses a taken name, while `Catalog.createIndex` leaves the catalog as it is
when the name of the index is taken, whatever the index of that name looks like.
-/

set_option autoImplicit false
set_option relaxedAutoImplicit false

namespace KSQLite.Schema

open KSQLite.Log
open KSQLite.Store (Row Database)

/-! ### Names -/

/-- A name as SQLite compares it. -/
def fold (name : String) : String := String.ofList (name.toList.map Char.toLower)

/-- Names that start with `sqlite_` are SQLite's own. -/
def IsReserved (name : String) : Prop := "sqlite_".toList <+: (fold name).toList

instance (name : String) : Decidable (IsReserved name) :=
  inferInstanceAs (Decidable (_ <+: _))

/-- An index by its name as SQLite compares it. -/
def Index.key (index : Index) : String := fold index.name

/-- Two indexes have the same columns and are alike in being unique. -/
def Index.SameShape (first second : Index) : Prop :=
  first.columns = second.columns ∧ first.unique = second.unique

instance (first second : Index) : Decidable (first.SameShape second) :=
  inferInstanceAs (Decidable (_ ∧ _))

/-- The tables of a store, and its view. -/
inductive Object
  | records
  | checkpoint
  | owned
  | view
  deriving DecidableEq

/-- The name of a table or of the view. -/
def Object.name : Object → String
  | .records => "_records"
  | .checkpoint => "partition_checkpoint"
  | .owned => "_owned"
  | .view => "records"

/-- The index that SQLite keeps for `UNIQUE (message_id)`. -/
def autoIndex : Index := ⟨"sqlite_autoindex__records_1", ["message_id"], true⟩

/-! ### The catalog -/

/-- The schema of a database. -/
structure Catalog where
  objects : Finset Object
  columns : List GeneratedColumn
  indexes : List Index
  distinctColumns : ((systemColumns ++ columns.map GeneratedColumn.name).map fold).Nodup
  distinctIndexes : (indexes.map Index.key).Nodup
  unreserved : ∀ index ∈ indexes, ¬ IsReserved index.name

/-- Two catalogs are the same when they have the same tables, columns and indexes. -/
@[ext] theorem Catalog.ext' {first second : Catalog} (hobjects : first.objects = second.objects)
    (hcolumns : first.columns = second.columns) (hindexes : first.indexes = second.indexes) :
    first = second := by
  cases first
  cases second
  cases hobjects
  cases hcolumns
  cases hindexes
  rfl

namespace Catalog

/-- The catalog of a database that was just created. -/
def empty : Catalog where
  objects := ∅
  columns := []
  indexes := []
  distinctColumns := by decide +kernel
  distinctIndexes := List.nodup_nil
  unreserved := by simp

variable (catalog : Catalog)

/-- The names of the columns of `_records`. -/
def columnNames : List String := systemColumns ++ catalog.columns.map GeneratedColumn.name

/-- The number of columns of `_records`. -/
def width : ℕ := catalog.columnNames.length

/-- The indexes of `_records`, with the one of its constraint. -/
def allIndexes : List Index :=
  (if .records ∈ catalog.objects then [autoIndex] else []) ++ catalog.indexes

/-- The column that a name stands for, under the name it was created with. -/
def resolve (name : String) : Option String :=
  catalog.columnNames.find? fun other ↦ fold other = fold name

/-- `CREATE TABLE IF NOT EXISTS` and `CREATE VIEW IF NOT EXISTS`. -/
def create (object : Object) : Catalog :=
  { catalog with objects := insert object catalog.objects }

/-- The catalog with one more column. -/
def withColumn (column : GeneratedColumn)
    (hfresh : fold column.name ∉ catalog.columnNames.map fold) : Catalog :=
  { catalog with
    columns := catalog.columns ++ [column]
    distinctColumns := by
      have hnames : (systemColumns ++ (catalog.columns ++ [column]).map
        GeneratedColumn.name).map fold =
          catalog.columnNames.map fold ++ [fold column.name] := by
        simp only [columnNames, List.map_append, List.map_singleton, List.append_assoc]
      rw [hnames]
      refine List.Nodup.append catalog.distinctColumns (List.nodup_singleton _) ?_
      exact List.disjoint_singleton.mpr hfresh }

/-- The catalog with one more index, unless its name is taken. -/
def withIndex (index : Index) (hname : ¬ IsReserved index.name) : Catalog :=
  { catalog with
    indexes := insertNew Index.key catalog.indexes index
    distinctIndexes := nodup_keys_insertNew catalog.distinctIndexes index
    unreserved := fun other hother ↦ by
      have hrow : other ∈ insertAll Index.key catalog.indexes [index] := hother
      rcases mem_insertAll hrow with hold | hnew
      · exact catalog.unreserved other hold
      · rw [List.mem_singleton.mp hnew]
        exact hname }

end Catalog

/-! ### What SQLite makes of a statement -/

/-- What is left to SQLite and to Python: which DDL SQLite refuses at a number of columns, whatever
the catalog holds besides; what a generated column is of a payload, none when it is NULL; which
texts `json` accepts, and what it makes of them; and which characters are alphanumeric in a
pattern. -/
structure Platform where
  refusal : ℕ → String → Option String
  extract : GeneratedColumn → String → Except String (Option String)
  json : String → Option String
  isAlnum : Char → Bool

namespace Platform

variable (platform : Platform)

/-- The value of a column in a row, none when it is NULL. -/
def cell (columns : List GeneratedColumn) (row : Row) (name : String) :
    Except String (Option String) :=
  if name = "message_id" then .ok (some row.messageId)
  else if name = "source_topic" then .ok (some row.source.topic)
  else if name = "source_partition" then .ok (some (toString row.source.partition))
  else if name = "changelog_offset" then .ok (some (toString row.changelogOffset))
  else if name = "entity_key" then .ok (some row.entityKey)
  else if name = "payload" then .ok (some row.payload)
  else
    match columns.find? fun column ↦ column.name = name with
    | some column => platform.extract column row.payload
    | none => .error s!"no such column: {name}"

/-- The values of some columns in a row. -/
def cells (columns : List GeneratedColumn) (row : Row) :
    List String → Except String (List (Option String))
  | [] => .ok []
  | name :: rest => do
    let value ← platform.cell columns row name
    let values ← cells columns row rest
    return value :: values

/-- The entries of an index over some rows. -/
def entries (columns : List GeneratedColumn) (index : Index) :
    List Row → Except String (List (List (Option String)))
  | [] => .ok []
  | row :: rest => do
    let entry ← platform.cells columns row index.columns
    let entries ← entries columns index rest
    return entry :: entries

/-- Entries that a unique index may hold: two that are equal hold a NULL. -/
def Distinct (entries : List (List (Option String))) : Prop :=
  (entries.filter fun entry ↦ none ∉ entry).Nodup

instance (entries : List (List (Option String))) : Decidable (Distinct entries) :=
  inferInstanceAs (Decidable (List.Nodup _))

/-- Build an index over the rows of `_records`. -/
def build (columns : List GeneratedColumn) (rows : List Row) (index : Index) :
    Except String Unit := do
  let entries ← platform.entries columns index rows
  if index.unique ∧ ¬ Distinct entries then
    .error s!"UNIQUE constraint failed: index '{index.name}'"
  else .ok ()

variable {platform} {columns : List GeneratedColumn} {index : Index} {rows : List Row} {row : Row}
  {name : String}

/-- A system column has a value in every row. -/
theorem exists_cell_of_mem (hname : name ∈ systemColumns) :
    ∃ value, platform.cell columns row name = .ok value := by
  simp only [systemColumns, List.mem_cons, List.not_mem_nil, or_false] at hname
  rcases hname with rfl | rfl | rfl | rfl | rfl | rfl <;> exact ⟨_, rfl⟩

/-- An index over columns that have a value in every row has its entries. -/
theorem exists_entries (hcells : ∀ row ∈ rows, ∀ name ∈ index.columns,
    ∃ value, platform.cell columns row name = .ok value) :
    ∃ entries, platform.entries columns index rows = .ok entries := by
  have hentry (names : List String) (row : Row)
      (hnames : ∀ name ∈ names, ∃ value, platform.cell columns row name = .ok value) :
      ∃ entry, platform.cells columns row names = .ok entry := by
    induction names with
    | nil => exact ⟨[], rfl⟩
    | cons name rest ih =>
      obtain ⟨⟨value, hvalue⟩, hrest⟩ := List.forall_mem_cons.mp hnames
      obtain ⟨entry, hentry⟩ := ih hrest
      rw [cells, hvalue, hentry]
      exact ⟨value :: entry, rfl⟩
  induction rows with
  | nil => exact ⟨[], rfl⟩
  | cons row rest ih =>
    obtain ⟨hrow, hrest⟩ := List.forall_mem_cons.mp hcells
    obtain ⟨entry, hrow⟩ := hentry index.columns row hrow
    obtain ⟨entries, hrest⟩ := ih hrest
    rw [Platform.entries, hrow, hrest]
    exact ⟨entry :: entries, rfl⟩

/-- An index is built when it has its entries, and they are distinct if it is unique. -/
theorem build_eq_ok (hcells : ∀ row ∈ rows, ∀ name ∈ index.columns,
      ∃ value, platform.cell columns row name = .ok value)
    (hunique : index.unique = true → ∀ entries,
      platform.entries columns index rows = .ok entries → Distinct entries) :
    platform.build columns rows index = .ok () := by
  obtain ⟨entries, hentries⟩ := exists_entries hcells
  unfold build
  rw [hentries]
  change (if index.unique = true ∧ ¬ Distinct entries then _ else _) = _
  rw [if_neg]
  exact fun hboth ↦ hboth.2 (hunique hboth.1 entries hentries)

end Platform

namespace Catalog

variable (platform : Platform) (catalog : Catalog)

/-- `ALTER TABLE _records ADD COLUMN`. -/
def addColumn (column : GeneratedColumn) : Except String Catalog :=
  match platform.refusal catalog.width (emitAddColumn column) with
  | some message => .error message
  | none =>
    if .records ∉ catalog.objects then .error "no such table: _records"
    else if hfresh : fold column.name ∉ catalog.columnNames.map fold then
      .ok (catalog.withColumn column hfresh)
    else .error s!"duplicate column name: {column.name}"

/-- `CREATE INDEX IF NOT EXISTS … ON _records`. -/
def createIndex (rows : List Row) (index : Index) : Except String Catalog :=
  if index.columns = [] then .error "near \")\": syntax error"
  else if .records ∉ catalog.objects then .error "no such table: main._records"
  else if hname : IsReserved index.name then
    .error s!"object name reserved for internal use: {index.name}"
  else if ∃ object ∈ catalog.objects, fold object.name = index.key then
    .error s!"there is already a table named {index.name}"
  else if index.key ∈ catalog.indexes.map Index.key then .ok catalog
  else
    match index.columns.mapM catalog.resolve with
    | none => .error "no such column"
    | some columns => do
      platform.build catalog.columns rows { index with columns := columns }
      return catalog.withIndex { index with columns := columns } hname

/-- `CREATE INDEX IF NOT EXISTS` for a declared index. -/
def createDeclaredIndex (rows : List Row) (index : Index) : Except String Catalog :=
  match platform.refusal catalog.width (emitCreateIndex index) with
  | some message => .error message
  | none => catalog.createIndex platform rows index

variable {platform catalog} {rows : List Row} {index : Index} {column : GeneratedColumn}
  {after : Catalog} {name : String}

/-- A column is found under the name it was created with. -/
theorem resolve_of_mem (hname : name ∈ catalog.columnNames) : catalog.resolve name = some name := by
  cases hfound : catalog.resolve name with
  | none =>
    refine absurd ?_ (List.find?_eq_none.mp hfound name hname)
    exact decide_eq_true rfl
  | some other =>
    have hsame : fold other = fold name := by simpa using List.find?_some hfound
    have hmem := List.mem_of_find?_eq_some hfound
    rw [List.inj_on_of_nodup_map catalog.distinctColumns hmem hname hsame]

/-- So are all columns of an index. -/
theorem mapM_resolve {names : List String} (hnames : ∀ name ∈ names, name ∈ catalog.columnNames) :
    names.mapM catalog.resolve = some names := by
  induction names with
  | nil => rfl
  | cons name rest ih =>
    obtain ⟨hname, hrest⟩ := List.forall_mem_cons.mp hnames
    rw [List.mapM_cons, resolve_of_mem hname, ih hrest]
    rfl

/-- Where its name is taken an index adds nothing. -/
theorem withIndex_of_mem {hname : ¬ IsReserved index.name}
    (htaken : index.key ∈ catalog.indexes.map Index.key) :
    catalog.withIndex index hname = catalog :=
  ext' rfl rfl (insertNew_of_mem htaken)

/-- When a column is added. -/
theorem addColumn_eq_ok : catalog.addColumn platform column = .ok after ↔
    platform.refusal catalog.width (emitAddColumn column) = none ∧ .records ∈ catalog.objects ∧
      ∃ hfresh : fold column.name ∉ catalog.columnNames.map fold,
        after = catalog.withColumn column hfresh := by
  unfold addColumn
  cases platform.refusal catalog.width (emitAddColumn column) with
  | some message => exact iff_of_false nofun fun hall ↦ nomatch hall.1
  | none =>
    change (if _ then _ else _) = _ ↔ _
    by_cases hrecords : .records ∈ catalog.objects
    swap
    · rw [if_pos hrecords]
      exact iff_of_false nofun fun hall ↦ hrecords hall.2.1
    rw [if_neg (not_not.mpr hrecords)]
    by_cases hfresh : fold column.name ∉ catalog.columnNames.map fold
    · rw [dif_pos hfresh, Except.ok.injEq]
      constructor
      · rintro rfl
        exact ⟨rfl, hrecords, hfresh, rfl⟩
      · rintro ⟨_, _, _, rfl⟩
        rfl
    · rw [dif_neg hfresh]
      exact iff_of_false nofun fun ⟨_, _, hnew, _⟩ ↦ hfresh hnew

/-- When an index over known columns is created: either its name is taken by another index, or it
can be built. -/
theorem createIndex_eq_ok (hcolumns : ∀ column ∈ index.columns, column ∈ catalog.columnNames) :
    catalog.createIndex platform rows index = .ok after ↔
      index.columns ≠ [] ∧ .records ∈ catalog.objects ∧
      (¬ ∃ object ∈ catalog.objects, fold object.name = index.key) ∧
      (index.key ∉ catalog.indexes.map Index.key →
        platform.build catalog.columns rows index = .ok ()) ∧
      ∃ hname : ¬ IsReserved index.name, after = catalog.withIndex index hname := by
  unfold createIndex
  by_cases hempty : index.columns = []
  · rw [if_pos hempty]
    exact iff_of_false nofun fun hall ↦ hall.1 hempty
  rw [if_neg hempty]
  by_cases hrecords : .records ∈ catalog.objects
  swap
  · rw [if_pos hrecords]
    exact iff_of_false nofun fun hall ↦ hrecords hall.2.1
  rw [if_neg (not_not.mpr hrecords)]
  by_cases hname : IsReserved index.name
  · rw [dif_pos hname]
    exact iff_of_false nofun fun ⟨_, _, _, _, hnot, _⟩ ↦ hnot hname
  rw [dif_neg hname]
  by_cases hobject : ∃ object ∈ catalog.objects, fold object.name = index.key
  · rw [if_pos hobject]
    exact iff_of_false nofun fun hall ↦ hall.2.2.1 hobject
  rw [if_neg hobject]
  by_cases htaken : index.key ∈ catalog.indexes.map Index.key
  · rw [if_pos htaken, Except.ok.injEq]
    constructor
    · rintro rfl
      exact ⟨hempty, hrecords, hobject, fun hfree ↦ absurd htaken hfree, hname,
        (withIndex_of_mem htaken).symm⟩
    · rintro ⟨_, _, _, _, _, rfl⟩
      exact (withIndex_of_mem htaken).symm
  · rw [if_neg htaken, mapM_resolve hcolumns]
    change (platform.build catalog.columns rows index >>= fun _ ↦
      pure (catalog.withIndex index hname)) = _ ↔ _
    cases hbuild : platform.build catalog.columns rows index with
    | error message =>
      refine iff_of_false nofun fun hall ↦ ?_
      exact absurd (hall.2.2.2.1 htaken) nofun
    | ok value =>
      change Except.ok (catalog.withIndex index hname) = _ ↔ _
      rw [Except.ok.injEq]
      constructor
      · rintro rfl
        exact ⟨hempty, hrecords, hobject, fun _ ↦ rfl, hname, rfl⟩
      · rintro ⟨_, _, _, _, _, rfl⟩
        rfl

/-- When a declared index is created. -/
theorem createDeclaredIndex_eq_ok :
    catalog.createDeclaredIndex platform rows index = .ok after ↔
      platform.refusal catalog.width (emitCreateIndex index) = none ∧
      catalog.createIndex platform rows index = .ok after := by
  unfold createDeclaredIndex
  cases platform.refusal catalog.width (emitCreateIndex index) with
  | some message => exact iff_of_false nofun fun hboth ↦ nomatch hboth.1
  | none => exact (and_iff_right rfl).symm

end Catalog

end KSQLite.Schema
