import KSQLite.Schema.Reconciling

/-!
# Restarting a migration

A process may stop between any two statements of a migration, and rows may be written before the
next one starts. What such runs leave is always a beginning of what the declarations ask for: some
of the declared columns, in their order, and some of the base and declared indexes (`Partial`). A
run from there adds what is missing and nothing else, and the run after it adds nothing
(`restartable`).
-/

set_option autoImplicit false
set_option relaxedAutoImplicit false

namespace KSQLite.Schema

open KSQLite.Log
open KSQLite.Suspension
open KSQLite.Store (Database Row)

section Declarations

variable (platform : Platform) (columns : List GeneratedColumn) (indexes : List Index)

/-- Declarations whose names are pairwise distinct and not taken, and whose DDL SQLite accepts: it
refuses no statement at the number of columns there are at its turn, the indexes are over columns
that exist, and a generated column can be read from every JSON payload. -/
structure Accepted : Prop where
  distinctColumns : ((systemColumns ++ columns.map GeneratedColumn.name).map fold).Nodup
  distinctIndexes : ((baseIndexes ++ indexes).map Index.key).Nodup
  unreserved : ∀ index ∈ indexes, ¬ IsReserved index.name
  untaken : ∀ index ∈ indexes, ∀ object : Object, fold object.name ≠ index.key
  addable : ∀ before column after, columns = before ++ column :: after →
    platform.refusal (systemColumns.length + before.length) (emitAddColumn column) = none
  creatable : ∀ index ∈ indexes,
    platform.refusal (systemColumns.length + columns.length) (emitCreateIndex index) = none
  nonempty : ∀ index ∈ indexes, index.columns ≠ []
  known : ∀ index ∈ indexes, ∀ name ∈ index.columns,
    name ∈ systemColumns ∨ name ∈ columns.map GeneratedColumn.name
  readable : ∀ column ∈ columns, ∀ text payload, platform.json text = some payload →
    ∃ value, platform.extract column payload = .ok value

/-- Rows with JSON payloads that the declared unique indexes may hold. -/
def Respects (database : Database) : Prop :=
  (∀ row ∈ database.records, ∃ text, platform.json text = some row.payload) ∧
    ∀ index ∈ indexes, index.unique = true → ∀ entries,
      platform.entries columns index database.records = .ok entries → Platform.Distinct entries

/-- What others may do to the rows. -/
def Writes (_ after : Database) : Prop := Respects platform columns indexes after

/-- What runs of the migration, each cut off anywhere, and writes of rows make of an empty
database. -/
inductive Reached : Storage → Prop
  | empty : Reached .empty
  | run {storage final : Storage} {trace : List (Exchange interface Storage)} {rest : Action Unit} :
    Reached storage →
    Steps (environment platform (Writes platform columns indexes))
      (migrate platform columns indexes)
      storage trace rest final →
    Reached final
  | write {storage : Storage} {database : Database} :
    Reached storage → Respects platform columns indexes database →
    Reached ⟨storage.catalog, database⟩

/-- A catalog on the way to what was declared. -/
structure Partial (catalog : Catalog) : Prop where
  columns : catalog.columns <+: columns
  indexes : catalog.indexes <+: baseIndexes ++ indexes

end Declarations

section Columns

variable {platform : Platform} {columns : List GeneratedColumn} {indexes : List Index}
  {catalog : Catalog}

/-- The loop over the declared columns, in two parts. -/
theorem reconciled_append {existing : List String} {schema : String}
    {first second : List GeneratedColumn} {between : Catalog}
    (hfirst : reconciled platform existing schema first catalog = .ok between) :
    reconciled platform existing schema (first ++ second) catalog =
      reconciled platform existing schema second between := by
  induction first generalizing catalog with
  | nil =>
    cases hfirst
    rfl
  | cons column rest ih =>
    rw [List.cons_append, reconciled]
    rw [reconciled] at hfirst
    by_cases hexists : column.name ∈ existing
    · rw [if_pos hexists] at hfirst ⊢
      cases hcheck : checkColumnDrift platform.isAlnum column schema with
      | ok value =>
        rw [hcheck] at hfirst
        exact ih hfirst
      | error error =>
        rw [hcheck] at hfirst
        cases hfirst
    · rw [if_neg hexists] at hfirst ⊢
      cases hadd : catalog.addColumn platform column with
      | ok after =>
        rw [hadd] at hfirst
        exact ih hfirst
      | error message =>
        rw [hadd] at hfirst
        cases hfirst

/-- A stored column passes the check for drift. -/
theorem checkColumnDrift_of_mem {isAlnum : Char → Bool} {stored : List GeneratedColumn}
    {column : GeneratedColumn} (hcolumn : column ∈ stored) :
    checkColumnDrift isAlnum column (storedSchema stored) = .ok () := by
  rw [checkColumnDrift_eq_ok, KSQLite.Naming.holds, decide_eq_true_iff, toList_storedSchema]
  exact (infix_addedText hcolumn).trans (List.suffix_append _ _).isInfix

/-- From a catalog on the way, the loop over a beginning of the declared columns leaves what was
there or that beginning, whichever is longer. -/
theorem exists_reconciled (haccepted : Accepted platform columns indexes)
    (hstart : catalog.columns <+: columns) {before : List GeneratedColumn}
    (hbefore : before <+: columns) :
    ∃ between, reconciled platform catalog.columnNames (storedSchema catalog.columns) before
        catalog.prepared = .ok between ∧
      between.objects = catalog.prepared.objects ∧ between.indexes = catalog.prepared.indexes ∧
      ((before <+: catalog.columns ∧ between.columns = catalog.columns) ∨
        (catalog.columns <+: before ∧ between.columns = before)) := by
  induction before using List.reverseRecOn with
  | nil => exact ⟨catalog.prepared, rfl, rfl, rfl, Or.inl ⟨List.nil_prefix, rfl⟩⟩
  | append_singleton before column ih =>
    obtain ⟨between, hbetween, hobjects, hindexes, hcolumns⟩ :=
      ih ((List.prefix_append _ _).trans hbefore)
    rw [reconciled_append hbetween, reconciled]
    have hturn : (before ++ [column] <+: catalog.columns ∧ between.columns = catalog.columns) ∨
        (catalog.columns <+: before ∧ between.columns = before) := by
      rcases hcolumns with ⟨hshorter, hsame⟩ | hlonger
      · rcases List.prefix_or_prefix_of_prefix hbefore hstart with hstored | hmissing
        · exact Or.inl ⟨hstored, hsame⟩
        · rcases List.prefix_concat_iff.mp hmissing with hall | hbeyond
          · exact Or.inl ⟨hall ▸ List.prefix_refl _, hsame⟩
          · exact Or.inr ⟨hbeyond, hsame.trans (hbeyond.eq_of_length_le hshorter.length_le)⟩
      · exact Or.inr hlonger
    rcases hturn with ⟨hstored, hsame⟩ | ⟨hlonger, hsame⟩
    · have hcolumn : column ∈ catalog.columns :=
        hstored.subset (List.mem_append_right _ List.mem_cons_self)
      have hexists : column.name ∈ catalog.columnNames :=
        List.mem_append_right _ (List.mem_map_of_mem hcolumn)
      rw [if_pos hexists, checkColumnDrift_of_mem hcolumn]
      exact ⟨between, rfl, hobjects, hindexes, Or.inl ⟨hstored, hsame⟩⟩
    · obtain ⟨after, hafter⟩ := hbefore
      have hnames : between.columnNames = systemColumns ++ before.map GeneratedColumn.name := by
        rw [Catalog.columnNames, hsame]
      have hfresh : fold column.name ∉ between.columnNames.map fold := by
        have hdistinct := haccepted.distinctColumns
        have hsplit : (systemColumns ++ columns.map GeneratedColumn.name).map fold =
            between.columnNames.map fold ++ (column :: after).map fun later ↦ fold later.name := by
          rw [hnames, ← hafter]
          simp only [List.map_append, List.map_map, List.map_cons, List.append_assoc,
            List.singleton_append, Function.comp_def]
        rw [hsplit] at hdistinct
        exact fun hmem ↦ List.disjoint_of_nodup_append hdistinct hmem List.mem_cons_self
      have hexists : column.name ∉ catalog.columnNames := by
        refine fun hmem ↦ hfresh (List.mem_map_of_mem ?_)
        rw [hnames]
        exact (List.mem_append.mp hmem).elim (List.mem_append_left _) fun hstored ↦
          List.mem_append_right _ ((hlonger.map _).subset hstored)
      have hadded : between.addColumn platform column = .ok (between.withColumn column hfresh) := by
        refine Catalog.addColumn_eq_ok.mpr ⟨?_, hobjects ▸ catalog.mem_prepared, hfresh, rfl⟩
        rw [Catalog.width, hnames, List.length_append, List.length_map]
        exact haccepted.addable before column after (by rw [← hafter, List.append_assoc]; rfl)
      rw [if_neg hexists, hadded]
      refine ⟨_, rfl, hobjects, hindexes, Or.inr ⟨?_, ?_⟩⟩
      · exact hlonger.trans (List.prefix_append _ _)
      · exact congrArg (· ++ [column]) hsame

/-- The loop over all of them adds what is missing. -/
theorem reconciled_of_partial (haccepted : Accepted platform columns indexes)
    (hstart : catalog.columns <+: columns) {after : Catalog}
    (hafter : reconciled platform catalog.columnNames (storedSchema catalog.columns) columns
      catalog.prepared = .ok after) :
    after.objects = catalog.prepared.objects ∧ after.indexes = catalog.prepared.indexes ∧
      after.columns = columns := by
  obtain ⟨between, hbetween, hobjects, hindexes, hcolumns⟩ :=
    exists_reconciled haccepted hstart (List.prefix_refl columns)
  rw [hafter] at hbetween
  cases hbetween
  refine ⟨hobjects, hindexes, ?_⟩
  rcases hcolumns with ⟨hlonger, hsame⟩ | ⟨_, hsame⟩
  · exact hsame.trans (hstart.eq_of_length_le hlonger.length_le)
  · exact hsame

end Columns

section Indexes

variable {platform : Platform} {columns : List GeneratedColumn} {indexes : List Index}
  {catalog : Catalog} {database : Database} {index : Index}

/-- A column that a declared index may be over has a value in every row with a JSON payload. -/
theorem exists_cell_of_accepted (haccepted : Accepted platform columns indexes) {row : Row}
    {name text : String} (hrow : platform.json text = some row.payload)
    (hname : name ∈ systemColumns ∨ name ∈ columns.map GeneratedColumn.name) :
    ∃ value, platform.cell columns row name = .ok value := by
  by_cases hsystem : name ∈ systemColumns
  · exact Platform.exists_cell_of_mem hsystem
  obtain ⟨column, hcolumn, rfl⟩ := List.mem_map.mp (hname.resolve_left hsystem)
  simp only [systemColumns, List.mem_cons, List.not_mem_nil, or_false, not_or] at hsystem
  obtain ⟨hid, htopic, hpartition, hoffset, hkey, hpayload⟩ := hsystem
  rw [Platform.cell, if_neg hid, if_neg htopic, if_neg hpartition, if_neg hoffset, if_neg hkey,
    if_neg hpayload]
  cases hfound : columns.find? fun other ↦ decide (other.name = column.name) with
  | none =>
    refine absurd ?_ (List.find?_eq_none.mp hfound column hcolumn)
    exact decide_eq_true rfl
  | some found => exact haccepted.readable found (List.mem_of_find?_eq_some hfound) text _ hrow

/-- A declared index can be built over rows that respect it. -/
theorem build_of_respects (haccepted : Accepted platform columns indexes)
    (hrespects : Respects platform columns indexes database) (hindex : index ∈ indexes) :
    platform.build columns database.records index = .ok () := by
  refine Platform.build_eq_ok (fun row hrow name hname ↦ ?_) (hrespects.2 index hindex)
  obtain ⟨text, htext⟩ := hrespects.1 row hrow
  exact exists_cell_of_accepted haccepted htext (haccepted.known index hindex name hname)

/-- No base index and no index declared before one has its name. -/
theorem key_notMem_before (haccepted : Accepted platform columns indexes) {before rest : List Index}
    (hsplit : indexes = before ++ index :: rest) :
    index.key ∉ (baseIndexes ++ before).map Index.key := by
  have hdistinct := haccepted.distinctIndexes
  rw [hsplit, ← List.append_assoc, List.map_append] at hdistinct
  exact fun hmem ↦ List.disjoint_of_nodup_append hdistinct hmem List.mem_cons_self

/-- Every index of `_records` has another name than one that is still missing. -/
theorem ne_of_missing (haccepted : Accepted platform columns indexes) {before rest : List Index}
    (hsplit : indexes = before ++ index :: rest) (hmissing : catalog.indexes =
      baseIndexes ++ before)
    {other : Index} (hother : other ∈ catalog.allIndexes) : other.name ≠ index.name := by
  have hindex : index ∈ indexes := hsplit ▸ List.mem_append_right _ List.mem_cons_self
  intro hname
  rcases List.mem_append.mp hother with hauto | hstored
  · split_ifs at hauto
    · refine haccepted.unreserved index hindex ?_
      rw [← hname, List.mem_singleton.mp hauto]
      decide +kernel
    · exact absurd hauto List.not_mem_nil
  · rw [hmissing] at hstored
    refine key_notMem_before haccepted hsplit ?_
    exact List.mem_map.mpr ⟨other, hstored, congrArg fold hname⟩

/-- A declared index that is still missing is created. -/
theorem createDeclaredIndex_of_missing (haccepted : Accepted platform columns indexes)
    (hrespects : Respects platform columns indexes database) {before rest : List Index}
    (hsplit : indexes = before ++ index :: rest) (hrecords : .records ∈ catalog.objects)
    (hcolumns : catalog.columns = columns) :
    ∃ hname, catalog.createDeclaredIndex platform database.records index =
      .ok (catalog.withIndex index hname) := by
  have hindex : index ∈ indexes := hsplit ▸ List.mem_append_right _ List.mem_cons_self
  have hknown : ∀ column ∈ index.columns, column ∈ catalog.columnNames := by
    intro column hcolumn
    rw [Catalog.columnNames, hcolumns]
    exact List.mem_append.mpr (haccepted.known index hindex column hcolumn)
  refine ⟨haccepted.unreserved index hindex, Catalog.createDeclaredIndex_eq_ok.mpr ⟨?_,
    (Catalog.createIndex_eq_ok hknown).mpr ⟨haccepted.nonempty index hindex, hrecords, ?_,
      ?_, _, rfl⟩⟩⟩
  · rw [Catalog.width, Catalog.columnNames, hcolumns, List.length_append, List.length_map]
    exact haccepted.creatable index hindex
  · rintro ⟨object, _, hkey⟩
    exact haccepted.untaken index hindex object hkey
  · intro _
    rw [hcolumns]
    exact build_of_respects haccepted hrespects hindex

end Indexes

section Runs

variable {platform : Platform} {columns : List GeneratedColumn} {indexes : List Index}
  {catalog : Catalog} {database : Database} {writes : Database → Database → Prop}
  {inv : Database → Prop} {done : Prop}

variable (platform columns indexes) in
/-- While a migration runs the catalog is on the way, the rows respect the declared indexes, and
where nothing is missing nothing is added. -/
def OnTheWay (done : Prop) (statement : Statement) (storage : Storage) : Prop :=
  Partial columns indexes storage.catalog ∧
    Respects platform columns indexes storage.database ∧
    (done → ¬ statement.AddsDeclared)

variable (columns indexes) in
/-- What a migration that is over leaves. -/
def Complete (catalog : Catalog) : Prop :=
  catalog.objects = {.records, .checkpoint, .owned, .view} ∧ catalog.columns = columns ∧
    catalog.indexes = baseIndexes ++ indexes

theorem Complete.onTheWay (hcomplete : Complete columns indexes catalog) :
    Partial columns indexes catalog :=
  ⟨hcomplete.2.1 ▸ List.prefix_refl _, hcomplete.2.2 ▸ List.prefix_refl _⟩

/-- The rest of the loop over the declared indexes adds those that are missing. -/
theorem holds_restartedIndexes (haccepted : Accepted platform columns indexes)
    (hwrites : ∀ before after, writes before after → inv before → inv after)
    (hrespects : ∀ database, inv database → Respects platform columns indexes database)
    {before rest : List Index} (hsplit : indexes = before ++ rest)
    (hrecords : catalog.objects = {.records, .checkpoint, .owned, .view})
    (hcolumns : catalog.columns = columns) (hlower : baseIndexes ++ before <+: catalog.indexes)
    (hupper : catalog.indexes <+: baseIndexes ++ indexes) (hinv : inv database)
    (hdone : done → catalog.indexes = baseIndexes ++ indexes) :
    Holds (environment platform writes) (OnTheWay platform columns indexes done)
      (fun outcome final ↦
        outcome = .returned () ∧ Complete columns indexes final.catalog ∧ inv final.database)
      (reconcileIndexes rest) ⟨catalog, database⟩ := by
  induction rest generalizing before catalog database with
  | nil =>
    refine ⟨rfl, ⟨hrecords, hcolumns, ?_⟩, hinv⟩
    rw [List.append_nil] at hsplit
    rw [← hsplit] at hlower
    exact hupper.eq_of_length_le hlower.length_le
  | cons index rest ih =>
    have hnext : indexes = (before ++ [index]) ++ rest := by rw [hsplit, List.append_assoc]; rfl
    have hstart : Partial columns indexes catalog := ⟨hcolumns ▸ List.prefix_refl _, hupper⟩
    have hindex : baseIndexes ++ (before ++ [index]) <+: baseIndexes ++ indexes := by
      rw [hnext, ← List.append_assoc]
      exact List.prefix_append _ _
    have hturn : baseIndexes ++ (before ++ [index]) <+: catalog.indexes ∨
        catalog.indexes = baseIndexes ++ before := by
      rcases List.prefix_or_prefix_of_prefix hindex hupper with hstored | hmissing
      · exact Or.inl hstored
      · rw [← List.append_assoc] at hmissing ⊢
        rcases List.prefix_concat_iff.mp hmissing with hall | hbeyond
        · exact Or.inl (hall ▸ List.prefix_refl _)
        · exact Or.inr (hbeyond.eq_of_length_le hlower.length_le)
    refine holds_bind.mpr (holds_reconcileIndex hwrites hinv ?_ ?_ ?_)
    · exact fun statement hnot database hdatabase ↦ ⟨hstart, hrespects _ hdatabase, fun _ ↦ hnot⟩
    · intro other hother hname database hdatabase
      -- An index of exactly its name is the declared one, from an earlier run.
      have hstored := hturn.resolve_right fun hmissing ↦
        ne_of_missing haccepted hsplit hmissing hother hname
      have hmem : index ∈ catalog.allIndexes := by
        refine List.mem_append_right _ (hstored.subset ?_)
        exact List.mem_append_right _ (List.mem_append_right _ List.mem_cons_self)
      obtain rfl := Catalog.eq_of_key_eq hother hmem (congrArg fold hname)
      rw [if_pos ⟨rfl, rfl⟩]
      exact ih hnext hrecords hcolumns hstored hupper hdatabase hdone
    · intro hnone database hdatabase
      have hmissing := hturn.resolve_left fun hstored ↦ by
        refine hnone index (List.mem_append_right _ (hstored.subset ?_)) rfl
        exact List.mem_append_right _ (List.mem_append_right _ List.mem_cons_self)
      obtain ⟨hname, hcreated⟩ := createDeclaredIndex_of_missing haccepted
        (hrespects database hdatabase) hsplit (by rw [hrecords]; simp) hcolumns
      have hadded : (catalog.withIndex index hname).indexes =
        baseIndexes ++ (before ++ [index]) := by
        change insertNew Index.key catalog.indexes index = _
        rw [hmissing, insertNew_of_notMem (key_notMem_before haccepted hsplit), List.append_assoc]
      have hundone : ¬ done := by
        intro hyes
        have hlength := congrArg List.length ((hdone hyes).symm.trans hmissing)
        rw [hsplit, List.length_append, List.length_append, List.length_append] at hlength
        simp at hlength
      refine ⟨⟨hstart, hrespects _ hdatabase, fun hyes ↦ absurd hyes hundone⟩, ?_, ?_⟩
      · intro after hafter
        rw [hcreated] at hafter
        cases hafter
        refine ih hnext hrecords hcolumns ?_ ?_ hdatabase fun hyes ↦ absurd hyes hundone
        · rw [hadded]
        · rw [hadded]
          exact hindex
      · intro message hmessage
        rw [hcreated] at hmessage
        cases hmessage

/-- A migration of a catalog on the way completes it. -/
theorem holds_restarted {kept : Database → Prop} (haccepted : Accepted platform columns indexes)
    (hwrites : ∀ before after, writes before after → inv before → inv after)
    (hkept : ∀ before after, writes before after → kept before → kept after)
    (hdelete : ∀ database, inv database → kept database.deleteAllOwned)
    (hrespects : ∀ database, inv database ∨ kept database →
      Respects platform columns indexes database)
    (hstart : Partial columns indexes catalog) (hinv : inv database)
    (hdone : done → catalog.columns = columns ∧ catalog.indexes = baseIndexes ++ indexes) :
    Holds (environment platform writes) (OnTheWay platform columns indexes done)
      (fun outcome final ↦
        outcome = .returned () ∧ Complete columns indexes final.catalog ∧ kept final.database)
      (migrate platform columns indexes) ⟨catalog, database⟩ := by
  have hindexes {more : List Index} (hmore : more <+: baseIndexes) :
      insertAll Index.key catalog.indexes more <+: baseIndexes ++ indexes := by
    have hprefix : more <+: baseIndexes ++ indexes := hmore.trans (List.prefix_append _ _)
    rcases insertAll_of_prefix haccepted.distinctIndexes hstart.indexes hprefix with
      ⟨_, hsame⟩ | ⟨_, hsame⟩
    · rw [hsame]
      exact hstart.indexes
    · rw [hsame]
      exact hprefix
  have hprepared : catalog.prepared.indexes <+: baseIndexes ++ indexes :=
    hindexes (List.prefix_refl _)
  have hbase : baseIndexes <+: catalog.prepared.indexes ∧
      (done → catalog.prepared.indexes = baseIndexes ++ indexes) := by
    rcases insertAll_of_prefix haccepted.distinctIndexes hstart.indexes
      (List.prefix_append baseIndexes indexes) with ⟨hthere, hsame⟩ | ⟨hmissing, hsame⟩
    · change catalog.prepared.indexes = _ at hsame
      rw [hsame]
      exact ⟨hthere, fun hyes ↦ (hdone hyes).2⟩
    · change catalog.prepared.indexes = _ at hsame
      rw [hsame]
      refine ⟨List.prefix_refl _, fun hyes ↦ ?_⟩
      rw [(hdone hyes).2] at hmissing
      exact (List.prefix_append _ _).eq_of_length_le hmissing.length_le
  have hbetween {before : List GeneratedColumn} {between : Catalog} (hbefore : before <+: columns)
      (hreconciled : reconciled platform catalog.columnNames (storedSchema catalog.columns) before
        catalog.prepared = .ok between) : Partial columns indexes between := by
    obtain ⟨other, hother, _, hsame, hcolumns⟩ :=
      exists_reconciled haccepted hstart.columns hbefore
    rw [hreconciled] at hother
    cases hother
    refine ⟨?_, hsame ▸ hprepared⟩
    rcases hcolumns with ⟨_, heq⟩ | ⟨_, heq⟩
    · exact heq ▸ hstart.columns
    · exact heq ▸ hbefore
  refine holds_migrate hwrites hkept hdelete hinv ?_ ?_ ?_ ?_ ?_
  · rintro statement hnot started ⟨hcolumns, more, hmore, hsame⟩ database hdatabase
    refine ⟨⟨?_, ?_⟩, hrespects database hdatabase, fun _ ↦ hnot⟩
    · rw [hcolumns]
      exact hstart.columns
    · rw [hsame]
      exact hindexes hmore
  · intro before column after hsplit hfresh between hreconciled database hdatabase
    refine ⟨hbetween ⟨column :: after, hsplit.symm⟩ hreconciled, hrespects _ (Or.inr hdatabase), ?_⟩
    intro hyes
    refine absurd (List.mem_append_right _ (List.mem_map_of_mem ?_)) hfresh
    rw [(hdone hyes).1, hsplit]
    exact List.mem_append_right _ List.mem_cons_self
  · intro after hafter database hdatabase
    exact ⟨hbetween (List.prefix_refl _) hafter, hrespects _ (Or.inr hdatabase), fun _ ↦ nofun⟩
  · intro after hafter database hdatabase
    obtain ⟨hobjects, hsame, hcolumns⟩ :=
      reconciled_of_partial haccepted hstart.columns hafter
    refine holds_restartedIndexes haccepted hkept (fun _ hdatabase ↦ hrespects _ (Or.inr hdatabase))
      (List.nil_append indexes).symm (hobjects.trans catalog.prepared_objects) hcolumns ?_ ?_
      hdatabase ?_
    · rw [hsame, List.append_nil]
      exact hbase.1
    · rw [hsame]
      exact hprepared
    · rw [hsame]
      exact hbase.2
  · intro error herror
    obtain ⟨between, hbetween, _⟩ :=
      exists_reconciled haccepted hstart.columns (List.prefix_refl columns)
    rw [herror] at hbetween
    cases hbetween

/-- A state that such runs and writes reach is on the way. -/
theorem Reached.onTheWay (haccepted : Accepted platform columns indexes) {storage : Storage}
    (hreached : Reached platform columns indexes storage) :
    Partial columns indexes storage.catalog ∧
      Respects platform columns indexes storage.database := by
  induction hreached with
  | empty =>
    refine ⟨⟨List.nil_prefix, List.nil_prefix⟩, fun _ hrow ↦ absurd hrow List.not_mem_nil, ?_⟩
    rintro index _ _ entries ⟨⟩
    exact List.nodup_nil
  | write _ hrespects ih => exact ⟨ih.1, hrespects⟩
  | @run storage final trace rest _ hsteps ih =>
    have hwrites (before after : Database) (hwrite : Writes platform columns indexes before after)
        (_ : Respects platform columns indexes before) : Respects platform columns indexes after :=
      hwrite
    have hdelete (database : Database) (hdatabase : Respects platform columns indexes database) :
        Respects platform columns indexes database.deleteAllOwned := hdatabase
    have hrest := (holds_restarted haccepted hwrites hwrites hdelete (fun _ hkept ↦
      hkept.elim id id)
      ih.1 ih.2 (False.elim : False → _)).steps hsteps
    cases rest with
    | finish value => exact ⟨hrest.2.1.onTheWay, hrest.2.2⟩
    | raise error => exact nomatch hrest.1
    | exhausted => exact nomatch hrest.1
    | await statement resume =>
      have hpending := (hrest final ((environment platform _).interferes_refl _ _)).1
      exact ⟨hpending.1, hpending.2.1⟩

/-- The rows and the checkpoints are those of before. -/
def SameRows (before after : Database) : Prop :=
  after.records = before.records ∧ after.checkpoint = before.checkpoint

/-- No statement of a migration adds, removes or changes a row or a checkpoint. -/
theorem sameRows_answer (platform : Platform) (statement : Statement) (storage : Storage) :
    SameRows storage.database (answer platform storage statement).2.database := by
  have hcommit (result : Except String Catalog) :
      SameRows storage.database (storage.commit result).2.database := by
    cases result <;> exact ⟨rfl, rfl⟩
  cases statement with
  | createBaseIndex index => exact hcommit _
  | addColumn column => exact hcommit _
  | createIndex index => exact hcommit _
  | _ => exact ⟨rfl, rfl⟩

/-- An undisturbed run from a state on the way: it completes the catalog, empties `_owned`, and adds
nothing where nothing is missing. -/
theorem run_of_partial (haccepted : Accepted platform columns indexes) {storage : Storage}
    (hstart : Partial columns indexes storage.catalog)
    (hrespects : Respects platform columns indexes storage.database) :
    let finished := run platform (migrate platform columns indexes) storage
    finished.outcome = .returned () ∧ Complete columns indexes finished.final.catalog ∧
      finished.final.database = storage.database.deleteAllOwned ∧
      (Complete columns indexes storage.catalog →
        ∀ statement ∈ finished.statements, ¬ statement.AddsDeclared) := by
  have hsame (database : Database)
      (heq : storage.database = database ∨ storage.database.deleteAllOwned = database) :
      Respects platform columns indexes database := by
    rcases heq with rfl | rfl
    · exact hrespects
    · exact hrespects
  have hdelete (database : Database) (heq : storage.database = database) :
      storage.database.deleteAllOwned = database.deleteAllOwned := congrArg _ heq
  have hholds : Holds (environment platform fun _ _ ↦ False)
      (OnTheWay platform columns indexes (Complete columns indexes storage.catalog)) _
      (migrate platform columns indexes) storage :=
    holds_restarted haccepted (fun _ _ ↦ False.elim) (fun _ _ ↦ False.elim) hdelete hsame hstart rfl
      And.right
  obtain ⟨⟨hreturned, hcomplete, hdatabase⟩, hstatements⟩ := run_of_holds hholds
  refine ⟨hreturned, hcomplete, hdatabase.symm, fun hdone statement hstatement ↦ ?_⟩
  obtain ⟨_, _, _, hadds⟩ := hstatements statement hstatement
  exact hadds hdone

end Runs

end KSQLite.Schema
