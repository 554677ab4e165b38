import KSQLite.Schema.Migration

/-!
# What a migration does

The statements every migration starts with leave the `prepared` catalog. The loop over the declared
columns depends on the catalog alone (`reconciled`, `holds_reconcileColumns`). A round of the loop
over the declared indexes finds an index of exactly the declared name and compares its shape, or
else hands the declared index to SQLite (`holds_reconcileIndex`).
-/

set_option autoImplicit false
set_option relaxedAutoImplicit false

namespace KSQLite.Schema

open KSQLite.Log
open KSQLite.Suspension
open KSQLite.Store (Database Row)

/-! ### Indexes as SQLite lists them -/

/-- The key columns of an index are read back in their order. -/
theorem keyColumns_indexColumns (columns : List String) :
    ((indexColumns 0 columns).insertionSort fun first second ↦
      first.seqno ≤ second.seqno).filterMap
        (fun row ↦ if row.key then row.name else none) = columns := by
  have hbelow (columns : List String) (seqno : ℕ) :
      ∀ row ∈ indexColumns seqno columns, seqno ≤ row.seqno := by
    induction columns generalizing seqno with
    | nil => simp [indexColumns]
    | cons name rest ih =>
      refine List.forall_mem_cons.mpr ⟨Nat.le_refl _, fun row hrow ↦ ?_⟩
      exact Nat.le_of_succ_le (ih (seqno + 1) row hrow)
  have hsorted (columns : List String) (seqno : ℕ) : (indexColumns seqno columns).Pairwise
      fun first second ↦ first.seqno ≤ second.seqno := by
    induction columns generalizing seqno with
    | nil => exact List.pairwise_singleton _ _
    | cons name rest ih =>
      refine List.pairwise_cons.mpr ⟨fun row hrow ↦ ?_, ih (seqno + 1)⟩
      exact Nat.le_of_succ_le (hbelow rest (seqno + 1) row hrow)
  have hread (columns : List String) (seqno : ℕ) : (indexColumns seqno columns).filterMap
      (fun row ↦ if row.key then row.name else none) = columns := by
    induction columns generalizing seqno with
    | nil => rfl
    | cons name rest ih =>
      change name :: (indexColumns (seqno + 1) rest).filterMap _ = _
      rw [ih]
  rw [(hsorted columns 0).insertionSort_eq, hread]

namespace Catalog

variable {catalog : Catalog} {index other : Index}

/-- No two indexes of `_records` have one name. -/
theorem distinct_allIndexes (catalog : Catalog) : (catalog.allIndexes.map Index.key).Nodup := by
  unfold allIndexes
  split_ifs with hrecords
  · rw [List.map_append, List.map_singleton, List.singleton_append, List.nodup_cons]
    refine ⟨fun hmem ↦ ?_, catalog.distinctIndexes⟩
    obtain ⟨index, hindex, hkey⟩ := List.mem_map.mp hmem
    refine catalog.unreserved index hindex ?_
    change "sqlite_".toList <+: index.key.toList
    rw [hkey]
    decide +kernel
  · exact catalog.distinctIndexes

/-- The name of an index of `_records` determines it. -/
theorem eq_of_key_eq {first second : Index} (hfirst : first ∈ catalog.allIndexes)
    (hsecond : second ∈ catalog.allIndexes) (hkey : first.key = second.key) : first = second :=
  Log.eq_of_key_eq catalog.distinct_allIndexes hfirst hsecond hkey

/-- The index of a name that `PRAGMA index_xinfo` describes. -/
theorem find_key (hother : other ∈ catalog.allIndexes) (hname : other.name = index.name) :
    catalog.allIndexes.find? (fun found ↦ found.key = fold index.name) = some other := by
  have hkey : other.key = fold index.name := congrArg fold hname
  cases hfound : catalog.allIndexes.find? fun found ↦ found.key = fold index.name with
  | none =>
    refine absurd ?_ (List.find?_eq_none.mp hfound other hother)
    exact decide_eq_true hkey
  | some found =>
    have hfoundKey : found.key = fold index.name := by
      simpa using List.find?_some hfound
    rw [eq_of_key_eq (List.mem_of_find?_eq_some hfound) hother (hfoundKey.trans hkey.symm)]

/-- The row of `PRAGMA index_list` that has exactly a name. -/
theorem find_entry (hother : other ∈ catalog.allIndexes) (hname : other.name = index.name) :
    (catalog.allIndexes.reverse.map fun found ↦ (⟨found.name, found.unique⟩ : IndexEntry)).find?
      (fun row ↦ row.name = index.name) = some ⟨other.name, other.unique⟩ := by
  rw [List.find?_map]
  cases hfound : catalog.allIndexes.reverse.find?
      ((fun row : IndexEntry ↦ decide (row.name = index.name)) ∘
        fun found ↦ ⟨found.name, found.unique⟩) with
  | none =>
    refine absurd ?_ (List.find?_eq_none.mp hfound other (List.mem_reverse.mpr hother))
    exact decide_eq_true hname
  | some found =>
    have hfoundName : found.name = index.name := by
      simpa using List.find?_some hfound
    have hmem := List.mem_reverse.mp (List.mem_of_find?_eq_some hfound)
    rw [eq_of_key_eq hmem hother (congrArg fold (hfoundName.trans hname.symm))]
    rfl

end Catalog

theorem notReserved_of_mem {index : Index} (hindex : index ∈ baseIndexes) : ¬ IsReserved
    index.name :=
  (by decide +kernel : ∀ index ∈ baseIndexes, ¬ IsReserved index.name) index hindex

/-- The catalog after the statements every migration starts with. -/
def Catalog.prepared (catalog : Catalog) : Catalog :=
  (((((catalog.create .records).create .checkpoint).create .owned).withIndex partitionIndex
    (notReserved_of_mem List.mem_cons_self)).withIndex keyIndex
      (notReserved_of_mem (List.mem_cons_of_mem _ List.mem_cons_self))).create .view

/-- Every migration creates `_records`. -/
theorem Catalog.mem_prepared (catalog : Catalog) : .records ∈ catalog.prepared.objects := by
  simp [prepared, create, withIndex]

/-- It creates the other tables and the view as well. -/
theorem Catalog.prepared_objects (catalog : Catalog) :
    catalog.prepared.objects = {.records, .checkpoint, .owned, .view} := by
  ext object
  cases object <;> simp [prepared, create, withIndex]

/-- What is there while a migration runs the statements it starts with. -/
def Catalog.Started (catalog started : Catalog) : Prop :=
  started.columns = catalog.columns ∧
    ∃ more, more <+: baseIndexes ∧ started.indexes = insertAll Index.key catalog.indexes more

theorem Catalog.started_prepared (catalog : Catalog) : catalog.Started catalog.prepared :=
  ⟨rfl, baseIndexes, List.prefix_refl _, rfl⟩

/-- How a migration fails over what a host declared. -/
def MigrationError.OverDeclared : MigrationError → Prop
  | .config _ => True
  | .migrationFailed _ => True
  | _ => False

/-- Whatever the rows are. -/
abbrev AnyRows (_ : Database) : Prop := True

section Rounds

variable {platform : Platform} {writes : Database → Database → Prop} {catalog : Catalog}
  {database : Database} {moment : Statement → Storage → Prop} {inv : Database → Prop}

/-- A DDL statement of a migration: it is carried out, or the migration fails. -/
theorem holds_executeMigrationDdl
    (hwrites : ∀ before after, writes before after → inv before → inv after)
    {statement : Statement} {ddl : String} {post : Outcome MigrationError Unit → Storage → Prop}
    (hinv : inv database)
    (hmoment : ∀ database, inv database → moment statement ⟨catalog, database⟩)
    (hpost : ∀ database, inv database → ∀ reply next,
      answer platform ⟨catalog, database⟩ statement = (reply, next) →
        match reply with
        | .ok _ => post (.returned ()) next
        | .error _ => post (.raised (.migrationFailed ddl)) next) :
    Holds (environment platform writes) moment post (executeMigrationDdl statement ddl)
      ⟨catalog, database⟩ := by
  refine holds_bind.mpr (holds_mapError.mpr (holds_execute hwrites hinv hmoment ?_))
  intro between hbetween reply next hreply
  have hnext := hpost between hbetween reply next hreply
  cases reply with
  | ok result => exact hnext
  | error message => exact hnext

/-- The shape of the index of exactly a name. -/
theorem holds_existingIndexShape
    (hwrites : ∀ before after, writes before after → inv before → inv after) {index : Index}
    {post : Outcome MigrationError (Option (List String × Bool)) → Storage → Prop}
    (hinv : inv database)
    (hquiet : ∀ statement : Statement, ¬ statement.AddsDeclared → ∀ database, inv database →
      moment statement ⟨catalog, database⟩)
    (hfound : ∀ other ∈ catalog.allIndexes, other.name = index.name → ∀ database, inv database →
      post (.returned (some (other.columns, other.unique))) ⟨catalog, database⟩)
    (hmissing : (∀ other ∈ catalog.allIndexes, other.name ≠ index.name) → ∀ database, inv database →
      post (.returned none) ⟨catalog, database⟩) :
    Holds (environment platform writes) moment post (existingIndexShape index.name)
      ⟨catalog, database⟩ := by
  unfold existingIndexShape
  refine holds_bind.mpr (holds_execute hwrites hinv (hquiet .indexList id) ?_)
  rintro between hbetween _ _ ⟨⟩
  simp only [sequel_returned]
  by_cases hexists : ∃ other ∈ catalog.allIndexes, other.name = index.name
  · obtain ⟨other, hother, hname⟩ := hexists
    rw [Catalog.find_entry hother hname]
    refine holds_bind.mpr (holds_execute hwrites hbetween (hquiet (.indexXinfo _) id) ?_)
    rintro later hlater _ _ ⟨⟩
    simp only [sequel_returned]
    rw [Catalog.find_key hother hname]
    have hshape := hfound other hother hname later hlater
    rw [← keyColumns_indexColumns other.columns] at hshape
    exact hshape
  · have hnone : (catalog.allIndexes.reverse.map fun found ↦
        (⟨found.name, found.unique⟩ : IndexEntry)).find?
          (fun row ↦ row.name = index.name) = none := by
      refine List.find?_eq_none.mpr fun row hrow hname ↦ hexists ?_
      obtain ⟨found, hfound, rfl⟩ := List.mem_map.mp hrow
      exact ⟨found, List.mem_reverse.mp hfound, of_decide_eq_true hname⟩
    rw [hnone]
    exact hmissing (fun other hother hname ↦ hexists ⟨other, hother, hname⟩) between hbetween

/-- A round of the loop over the declared indexes. -/
theorem holds_reconcileIndex
    (hwrites : ∀ before after, writes before after → inv before → inv after) {index : Index}
    {post : Outcome MigrationError Unit → Storage → Prop} (hinv : inv database)
    (hquiet : ∀ statement : Statement, ¬ statement.AddsDeclared → ∀ database, inv database →
      moment statement ⟨catalog, database⟩)
    (hfound : ∀ other ∈ catalog.allIndexes, other.name = index.name → ∀ database, inv database →
      if other.SameShape index then post (.returned ()) ⟨catalog, database⟩
      else post (.raised (.config (.indexDrift index other.columns other.unique)))
        ⟨catalog, database⟩)
    (hmissing : (∀ other ∈ catalog.allIndexes, other.name ≠ index.name) → ∀ database, inv database →
      moment (.createIndex index) ⟨catalog, database⟩ ∧
      (∀ after, catalog.createDeclaredIndex platform database.records index = .ok after →
        post (.returned ()) ⟨after, database⟩) ∧
      (∀ message, catalog.createDeclaredIndex platform database.records index = .error message →
        post (.raised (.migrationFailed (emitCreateIndex index))) ⟨catalog, database⟩)) :
    Holds (environment platform writes) moment post (reconcileIndex index) ⟨catalog, database⟩ := by
  refine holds_bind.mpr (holds_existingIndexShape hwrites hinv hquiet ?_ ?_)
  · intro other hother hname between hbetween
    have hshape := hfound other hother hname between hbetween
    rw [sequel_returned]
    change Holds _ _ _ (if _ then _ else _) _
    by_cases hsame : other.SameShape index
    · rw [if_pos hsame] at hshape
      rw [if_neg (not_not.mpr (Prod.ext hsame.1 hsame.2))]
      exact hshape
    · rw [if_neg hsame] at hshape
      have hdiffers : (other.columns, other.unique) ≠ (index.columns, index.unique) :=
        fun heq ↦ hsame (Prod.ext_iff.mp heq)
      rw [if_pos hdiffers]
      exact hshape
  · intro hnone between hbetween
    refine holds_executeMigrationDdl hwrites hbetween
      (fun later hlater ↦ (hmissing hnone later hlater).1) ?_
    intro later hlater reply next hreply
    obtain ⟨_, hok, herror⟩ := hmissing hnone later hlater
    change Storage.commit _ (catalog.createDeclaredIndex platform later.records index) = _ at hreply
    cases hcreate : catalog.createDeclaredIndex platform later.records index with
    | ok after =>
      rw [hcreate] at hreply
      cases hreply
      exact hok after hcreate
    | error message =>
      rw [hcreate] at hreply
      cases hreply
      exact herror message hcreate

/-! ### What every migration starts with -/

/-- A statement that changes the catalog only, before others. -/
theorem holds_executeAll_cons
    (hwrites : ∀ before after, writes before after → inv before → inv after)
    {statement : Statement} {rest : List Statement} {after : Catalog}
    {post : Outcome MigrationError Unit → Storage → Prop} (hinv : inv database)
    (hmoment : ∀ database, inv database → moment statement ⟨catalog, database⟩)
    (hanswer : ∀ database, ∃ result,
      answer platform ⟨catalog, database⟩ statement = (.ok result, ⟨after, database⟩))
    (hrest : ∀ database, inv database →
      Holds (environment platform writes) moment post (executeAll rest) ⟨after, database⟩) :
    Holds (environment platform writes) moment post (executeAll (statement :: rest))
      ⟨catalog, database⟩ := by
  refine holds_bind.mpr (holds_execute hwrites hinv hmoment ?_)
  intro between hbetween reply next hreply
  obtain ⟨result, hresult⟩ := hanswer between
  rw [hresult] at hreply
  cases hreply
  exact hrest between hbetween

/-- A base index is created, whatever the rows are. -/
theorem answer_createBaseIndex {index : Index} (hindex : index ∈ baseIndexes)
    (hobjects : .records ∈ catalog.objects) (hname : ¬ IsReserved index.name) :
    answer platform ⟨catalog, database⟩ (.createBaseIndex index) =
      (.ok (), ⟨catalog.withIndex index hname, database⟩) := by
  have hsystem : ∀ index ∈ baseIndexes, (∀ column ∈ index.columns, column ∈ systemColumns) ∧
      index.columns ≠ [] ∧ index.unique = false ∧
      ∀ object ∈ [Object.records, .checkpoint, .owned, .view], fold object.name ≠ index.key := by
    decide +kernel
  obtain ⟨hcolumns, hne, hunique, hobject⟩ := hsystem index hindex
  have hcreated : catalog.createIndex platform database.records index =
      .ok (catalog.withIndex index hname) := by
    refine (Catalog.createIndex_eq_ok fun column hcolumn ↦
      List.mem_append_left _ (hcolumns column hcolumn)).mpr ⟨hne, hobjects, ?_, fun _ ↦
        ?_, hname, rfl⟩
    · rintro ⟨object, _, hkey⟩
      exact hobject object (by cases object <;> simp) hkey
    · refine Platform.build_eq_ok (fun row _ name hname ↦ ?_) ?_
      · exact Platform.exists_cell_of_mem (hcolumns name hname)
      · rw [hunique]
        exact nofun
  change Storage.commit _ (catalog.createIndex platform database.records index) = _
  rw [hcreated]
  rfl

/-- The statements every migration starts with succeed; the last of them empties `_owned`. -/
theorem holds_baseStatements
    (hwrites : ∀ before after, writes before after → inv before → inv after)
    {post : Outcome MigrationError Unit → Storage → Prop} (hinv : inv database)
    (hquiet : ∀ statement : Statement, ¬ statement.AddsDeclared → ∀ started,
      catalog.Started started → ∀ database, inv database → moment statement ⟨started, database⟩)
    (hpost : ∀ database, inv database →
      post (.returned ()) ⟨catalog.prepared, database.deleteAllOwned⟩) :
    Holds (environment platform writes) moment post (executeAll baseStatements)
      ⟨catalog, database⟩ := by
  have hcreate (catalog : Catalog) (object : Object) (database : Database) : ∃ result,
      answer platform ⟨catalog, database⟩ (.create object) =
        (.ok result, ⟨catalog.create object, database⟩) := ⟨(), rfl⟩
  have hrecords :
      .records ∈ (((catalog.create .records).create .checkpoint).create .owned).objects := by
    simp [Catalog.create]
  have hpartition : partitionIndex ∈ baseIndexes := List.mem_cons_self
  have hkey : keyIndex ∈ baseIndexes := List.mem_cons_of_mem _ List.mem_cons_self
  have hindex {catalog : Catalog} {index : Index} (hindex : index ∈ baseIndexes)
      (hobjects : .records ∈ catalog.objects) (database : Database) : ∃ result,
      answer platform ⟨catalog, database⟩ (.createBaseIndex index) =
        (.ok result, ⟨catalog.withIndex index (notReserved_of_mem hindex), database⟩) :=
    ⟨(), answer_createBaseIndex hindex hobjects _⟩
  have hnone : ([] : List Index) <+: baseIndexes := List.nil_prefix
  have hfirstIndex : [partitionIndex] <+: baseIndexes := ⟨[keyIndex], rfl⟩
  change Holds _ _ _ (executeAll [.create .records, .create .checkpoint, .create .owned,
    .createBaseIndex partitionIndex, .createBaseIndex keyIndex, .create .view, .deleteAllOwned]) _
  refine holds_executeAll_cons hwrites hinv (hquiet (.create .records)
    nofun _ ⟨rfl, [], hnone, rfl⟩)
    (hcreate _ _) fun _ hfirst ↦ ?_
  refine holds_executeAll_cons hwrites hfirst (hquiet (.create .checkpoint)
    nofun _ ⟨rfl, [], hnone, rfl⟩)
    (hcreate _ _) fun _ hsecond ↦ ?_
  refine holds_executeAll_cons hwrites hsecond (hquiet (.create .owned)
    nofun _ ⟨rfl, [], hnone, rfl⟩)
    (hcreate _ _) fun _ hthird ↦ ?_
  refine holds_executeAll_cons hwrites hthird (hquiet (.createBaseIndex _)
    nofun _ ⟨rfl, [], hnone, rfl⟩)
    (hindex hpartition hrecords) fun _ hfourth ↦ ?_
  refine holds_executeAll_cons hwrites hfourth
    (hquiet (.createBaseIndex _) nofun _ ⟨rfl, [partitionIndex], hfirstIndex, rfl⟩)
    (hindex hkey hrecords) fun _ hfifth ↦ ?_
  refine holds_executeAll_cons hwrites hfifth
    (hquiet (.create .view) nofun _ ⟨rfl, baseIndexes, List.prefix_refl _, rfl⟩)
    (hcreate _ _) fun _ hsixth ↦ ?_
  refine holds_bind.mpr (holds_execute hwrites hsixth
    (hquiet .deleteAllOwned nofun _ catalog.started_prepared) ?_)
  rintro last hlast _ _ ⟨⟩
  exact hpost last hlast

/-! ### The columns -/

/-- What the loop over the declared columns makes of a catalog. -/
def reconciled (platform : Platform) (existing : List String) (schema : String) :
    List GeneratedColumn → Catalog → Except MigrationError Catalog
  | [], catalog => .ok catalog
  | column :: rest, catalog =>
    if column.name ∈ existing then
      match checkColumnDrift platform.isAlnum column schema with
      | .ok _ => reconciled platform existing schema rest catalog
      | .error error => .error (.config error)
    else
      match catalog.addColumn platform column with
      | .ok after => reconciled platform existing schema rest after
      | .error _ => .error (.migrationFailed (emitAddColumn column))

/-- The loop over the declared columns reads no row. -/
theorem holds_reconcileColumns
    (hwrites : ∀ before after, writes before after → inv before → inv after)
    {existing : List String} {schema : String} {columns : List GeneratedColumn}
    {post : Outcome MigrationError Unit → Storage → Prop} (hinv : inv database)
    (hmoment : ∀ before column after, columns = before ++ column :: after → column.name ∉ existing →
      ∀ between, reconciled platform existing schema before catalog = .ok between →
        ∀ database, inv database → moment (.addColumn column) ⟨between, database⟩)
    (hok : ∀ after, reconciled platform existing schema columns catalog = .ok after →
      ∀ database, inv database → post (.returned ()) ⟨after, database⟩)
    (herror : ∀ error, reconciled platform existing schema columns catalog = .error error →
      ∀ storage, post (.raised error) storage) :
    Holds (environment platform writes) moment post
      (reconcileColumns platform existing schema columns) ⟨catalog, database⟩ := by
  induction columns generalizing catalog database with
  | nil => exact hok catalog rfl database hinv
  | cons column rest ih =>
    have hcolumn := hmoment [] column rest rfl
    have hrest (before : List GeneratedColumn) (later : GeneratedColumn)
        (after : List GeneratedColumn) (hsplit : rest = before ++ later :: after) :=
      hmoment (column :: before) later after (congrArg (column :: ·) hsplit)
    unfold reconcileColumns
    unfold reconciled at hok herror hrest
    by_cases hexists : column.name ∈ existing
    · rw [if_pos hexists] at hok herror ⊢
      simp only [if_pos hexists] at hrest
      cases hcheck : checkColumnDrift platform.isAlnum column schema with
      | ok value =>
        rw [hcheck] at hok herror hrest
        exact ih hinv hrest hok herror
      | error error =>
        rw [hcheck] at herror
        exact herror _ rfl _
    · rw [if_neg hexists] at hok herror ⊢
      simp only [if_neg hexists] at hrest
      refine holds_bind.mpr (holds_executeMigrationDdl hwrites hinv
        (hcolumn hexists catalog rfl) ?_)
      intro between hbetween reply next hreply
      change Storage.commit _ (catalog.addColumn platform column) = _ at hreply
      cases hadd : catalog.addColumn platform column with
      | ok after =>
        rw [hadd] at hok herror hreply hrest
        cases hreply
        exact ih hbetween hrest hok herror
      | error message =>
        rw [hadd] at herror hreply
        cases hreply
        exact herror _ rfl _

/-! ### The whole migration -/

/-- A migration whose declared columns are reconciled goes on with the declared indexes. -/
theorem holds_migrate {kept : Database → Prop}
    (hwrites : ∀ before after, writes before after → inv before → inv after)
    (hkept : ∀ before after, writes before after → kept before → kept after)
    (hdelete : ∀ database, inv database → kept database.deleteAllOwned)
    {columns : List GeneratedColumn} {indexes : List Index}
    {post : Outcome MigrationError Unit → Storage → Prop} (hinv : inv database)
    (hquiet : ∀ statement : Statement, ¬ statement.AddsDeclared → ∀ started,
      catalog.Started started → ∀ database, inv database ∨ kept database →
        moment statement ⟨started, database⟩)
    (hmoment : ∀ before column after, columns = before ++ column :: after →
      column.name ∉ catalog.columnNames → ∀ between, reconciled platform catalog.columnNames
          (storedSchema catalog.columns) before catalog.prepared = .ok between →
        ∀ database, kept database → moment (.addColumn column) ⟨between, database⟩)
    (hlist : ∀ after, reconciled platform catalog.columnNames (storedSchema catalog.columns) columns
        catalog.prepared = .ok after → ∀ database, kept database →
      moment .indexList ⟨after, database⟩)
    (hok : ∀ after, reconciled platform catalog.columnNames (storedSchema catalog.columns) columns
        catalog.prepared = .ok after → ∀ database, kept database →
      Holds (environment platform writes) moment post (reconcileIndexes indexes) ⟨after, database⟩)
    (herror : ∀ error, reconciled platform catalog.columnNames
      (storedSchema catalog.columns) columns
        catalog.prepared = .error error → ∀ storage, post (.raised error) storage) :
    Holds (environment platform writes) moment post (migrate platform columns indexes)
      ⟨catalog, database⟩ := by
  have hprepared (statement : Statement) (hnot : ¬ statement.AddsDeclared) (database : Database)
      (hdatabase : kept database) : moment statement ⟨catalog.prepared, database⟩ :=
    hquiet statement hnot _ catalog.started_prepared database (Or.inr hdatabase)
  refine holds_bind.mpr (holds_baseStatements hwrites hinv
    (fun statement hnot started hstarted database hdatabase ↦
      hquiet statement hnot started hstarted database (Or.inl hdatabase)) fun first hfirst ↦ ?_)
  refine holds_bind.mpr (holds_execute hkept (hdelete first hfirst)
    (hprepared .tableXinfo nofun) ?_)
  rintro second hsecond _ _ ⟨⟩
  refine holds_bind.mpr (holds_execute hkept hsecond (hprepared .selectSchema nofun) ?_)
  intro third hthird reply next hreply
  have hselected : answer platform ⟨catalog.prepared, third⟩ .selectSchema =
      (.ok (some (storedSchema catalog.columns)), ⟨catalog.prepared, third⟩) := by
    change (Except.ok (if .records ∈ catalog.prepared.objects then _ else _), _) = _
    rw [if_pos catalog.mem_prepared]
    rfl
  rw [hselected] at hreply
  cases hreply
  refine holds_bind.mpr (holds_reconcileColumns hkept hthird hmoment ?_ herror)
  intro after hafter fourth hfourth
  refine holds_bind.mpr (holds_execute hkept hfourth (hlist after hafter) ?_)
  rintro last hlast _ _ ⟨⟩
  exact hok after hafter last hlast

end Rounds

/-- A platform that refuses no DDL, on which every generated column is NULL. -/
def lenient : Platform where
  refusal := fun _ _ ↦ none
  extract := fun _ _ ↦ .ok none
  json := some
  isAlnum := Char.isAlphanum

end KSQLite.Schema
