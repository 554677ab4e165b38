import KSQLite.Schema.Reconciling

/-!
# Declared indexes that a migration establishes

A migration looks for an index of exactly the declared name, while SQLite takes an index whose name
differs in case for the declared one and then creates nothing. A migration that returns therefore
leaves every declared index as it was declared exactly where no declared index meets, under its
name in another spelling, an index of another shape (`established_iff`): one that is stored, a base
index or one declared before it. An index stored under exactly the declared name in another shape
is noticed.
-/

set_option autoImplicit false
set_option relaxedAutoImplicit false

namespace KSQLite.Schema

open KSQLite.Log
open KSQLite.Suspension
open KSQLite.Store (Database Row)

/-- An index of the name of a declared one has its columns in their order, and is unique if it is.
-/
def Established (catalog : Catalog) (index : Index) : Prop :=
  ∃ other ∈ catalog.allIndexes, other.key = index.key ∧ other.SameShape index

instance (catalog : Catalog) (index : Index) : Decidable (Established catalog index) :=
  inferInstanceAs (Decidable (∃ other ∈ catalog.allIndexes, _))

/-- No declared index meets, under its name in another spelling, an index of another shape: the
first index of its name among those held and those declared before it. -/
def NoClash (held indexes : List Index) : Prop :=
  ∀ before index after, indexes = before ++ index :: after →
    ∀ other, (held ++ before).find? (fun other ↦ other.key = index.key) = some other →
      other.name ≠ index.name → other.SameShape index

/-- Every declared index has the shape of an index of exactly its name that is there at its turn. -/
def Passed : List Index → List Index → Prop
  | _, [] => True
  | held, index :: rest =>
    (∀ other ∈ held, other.name = index.name → other.SameShape index) ∧
      Passed (insertNew Index.key held index) rest

/-- The indexes at the turn of a declared one. -/
theorem Passed.at_turn {held before after : List Index} {index other : Index}
    (hpassed : Passed held (before ++ index :: after))
    (hother : other ∈ insertAll Index.key held before) (hname : other.name = index.name) :
    other.SameShape index := by
  induction before generalizing held with
  | nil => exact hpassed.1 other hother hname
  | cons first rest ih => exact ih hpassed.2 hother

/-- Where every declared index passes, all of them are as declared exactly when none clashes. -/
theorem Passed.configured_iff {held indexes : List Index} {catalog : Catalog}
    (hpassed : Passed held indexes)
    (hfinal : catalog.allIndexes = insertAll Index.key held indexes) :
    (∀ index ∈ indexes, Established catalog index) ↔ NoClash held indexes := by
  have hfirst {before after : List Index} {index other : Index}
      (hsplit : indexes = before ++ index :: after)
      (hfound : (held ++ before).find? (fun other ↦ other.key = index.key) = some other) :
      catalog.allIndexes.find? (fun other ↦ other.key = index.key) = some other := by
    rw [hfinal, find?_insertAll, hsplit, ← List.append_assoc, List.find?_append, hfound]
    rfl
  constructor
  · intro hestablished before index after hsplit other hfound _
    obtain ⟨found, hfoundMem, hkey, hshape⟩ :=
      hestablished index (by rw [hsplit]; exact List.mem_append_right _ List.mem_cons_self)
    have hother := hfirst hsplit hfound
    have hotherKey : other.key = index.key := by simpa using List.find?_some hother
    rwa [Catalog.eq_of_key_eq (List.mem_of_find?_eq_some hother) hfoundMem
      (hotherKey.trans hkey.symm)]
  · intro hclash index hindex
    obtain ⟨before, after, hsplit⟩ := List.append_of_mem hindex
    cases hfound : (held ++ before).find? fun other ↦ other.key = index.key with
    | some other =>
      have hother := hfirst hsplit hfound
      refine ⟨other, List.mem_of_find?_eq_some hother, by simpa using List.find?_some hother, ?_⟩
      by_cases hname : other.name = index.name
      · rw [hsplit] at hpassed
        refine hpassed.at_turn ?_ hname
        have hturn : (insertAll Index.key held before).find? (fun other ↦ other.key = index.key) =
            some other := find?_insertAll.trans hfound
        exact List.mem_of_find?_eq_some hturn
      · exact hclash before index after hsplit other hfound hname
    | none =>
      refine ⟨index, ?_, rfl, rfl, rfl⟩
      have hlast : catalog.allIndexes.find? (fun other ↦ other.key = index.key) = some index := by
        rw [hfinal, find?_insertAll, hsplit, ← List.append_assoc, List.find?_append, hfound,
          Option.none_or, List.find?_cons_of_pos]
        exact decide_eq_true rfl
      exact List.mem_of_find?_eq_some hlast

/-! ### The loops -/

/-- The loop over the declared columns leaves the tables and the indexes alone, and afterwards every
declared column is there. -/
theorem reconciled_eq_ok {platform : Platform} {existing : List String} {schema : String}
    {columns : List GeneratedColumn} {catalog after : Catalog}
    (hafter : reconciled platform existing schema columns catalog = .ok after) :
    after.objects = catalog.objects ∧ after.indexes = catalog.indexes ∧
      (∀ name ∈ catalog.columnNames, name ∈ after.columnNames) ∧
      ∀ column ∈ columns, column.name ∈ existing ∨ column.name ∈ after.columnNames := by
  induction columns generalizing catalog with
  | nil =>
    cases hafter
    exact ⟨rfl, rfl, fun _ hname ↦ hname, by simp⟩
  | cons column rest ih =>
    unfold reconciled at hafter
    by_cases hexists : column.name ∈ existing
    · rw [if_pos hexists] at hafter
      cases hcheck : checkColumnDrift platform.isAlnum column schema with
      | error error =>
        rw [hcheck] at hafter
        cases hafter
      | ok value =>
        rw [hcheck] at hafter
        obtain ⟨hobjects, hindexes, hnames, hrest⟩ := ih hafter
        exact ⟨hobjects, hindexes, hnames, List.forall_mem_cons.mpr ⟨Or.inl hexists, hrest⟩⟩
    · rw [if_neg hexists] at hafter
      cases hadd : catalog.addColumn platform column with
      | error message =>
        rw [hadd] at hafter
        cases hafter
      | ok between =>
        rw [hadd] at hafter
        obtain ⟨_, _, hfresh, rfl⟩ := Catalog.addColumn_eq_ok.mp hadd
        obtain ⟨hobjects, hindexes, hnames, hrest⟩ := ih hafter
        have hadded (name : String) (hname : name ∈ catalog.columnNames ∨ name = column.name) :
            name ∈ (catalog.withColumn column hfresh).columnNames := by
          simpa [Catalog.columnNames, Catalog.withColumn, or_assoc] using hname
        exact ⟨hobjects, hindexes, fun name hname ↦ hnames _ (hadded name (Or.inl hname)),
          List.forall_mem_cons.mpr ⟨Or.inr (hnames _ (hadded _ (Or.inr rfl))), hrest⟩⟩

/-- Afterwards every column that a validated index may be over is there. -/
theorem known_of_reconciled {platform : Platform} {schema : String} {columns : List GeneratedColumn}
    {indexes : List Index} {catalog after : Catalog}
    (hindexes : ∀ index ∈ indexes, validateIndex index (columns.map GeneratedColumn.name) = .ok ())
    (hafter : reconciled platform catalog.columnNames schema columns catalog.prepared = .ok after) :
    ∀ index ∈ indexes, ∀ name ∈ index.columns, name ∈ after.columnNames := by
  intro index hindex name hname
  obtain ⟨_, _, hnames, hdeclared⟩ := reconciled_eq_ok hafter
  rcases (validateIndex_eq_ok.mp (hindexes index hindex)).2 name hname with hsystem | hcolumn
  · exact List.mem_append_left _ hsystem
  · obtain ⟨column, hmem, rfl⟩ := List.mem_map.mp hcolumn
    exact (hdeclared column hmem).elim (fun hexists ↦ hnames _ hexists) id

/-- The loop over the declared columns fails over one of them. -/
theorem overDeclared_of_reconciled {platform : Platform} {existing : List String} {schema : String}
    {columns : List GeneratedColumn} {catalog : Catalog} {error : MigrationError}
    (herror : reconciled platform existing schema columns catalog = .error error) :
    error.OverDeclared := by
  induction columns generalizing catalog with
  | nil => cases herror
  | cons column rest ih =>
    unfold reconciled at herror
    by_cases hexists : column.name ∈ existing
    · rw [if_pos hexists] at herror
      cases hcheck : checkColumnDrift platform.isAlnum column schema with
      | ok value =>
        rw [hcheck] at herror
        exact ih herror
      | error drift =>
        rw [hcheck] at herror
        cases herror
        trivial
    · rw [if_neg hexists] at herror
      cases hadd : catalog.addColumn platform column with
      | ok after =>
        rw [hadd] at herror
        exact ih herror
      | error message =>
        rw [hadd] at herror
        cases herror
        trivial

/-- A declared index that was created is one of the indexes of `_records`. -/
theorem Catalog.allIndexes_withIndex {catalog : Catalog} {index : Index}
    (hname : ¬ IsReserved index.name) :
    (catalog.withIndex index hname).allIndexes = insertNew Index.key catalog.allIndexes index := by
  refine (insertNew_append fun hmem ↦ hname ?_).symm
  split_ifs at hmem
  · obtain ⟨auto, hauto, hkey⟩ := List.mem_map.mp hmem
    rw [List.mem_singleton.mp hauto] at hkey
    change "sqlite_".toList <+: index.key.toList
    rw [← hkey]
    decide +kernel
  · exact absurd hmem List.not_mem_nil

section Runs

variable {platform : Platform} {writes : Database → Database → Prop} {catalog : Catalog}
  {database : Database} {indexes : List Index}

/-- The loop over the declared indexes: every one of them passes, and those whose name is free are
created. -/
theorem holds_reconcileIndexes (hrecords : .records ∈ catalog.objects)
    (hcolumns : ∀ index ∈ indexes, ∀ column ∈ index.columns, column ∈ catalog.columnNames) :
    Holds (environment platform writes) (fun _ _ ↦ True)
      (fun outcome final ↦
        (outcome = .returned () ∧ Passed catalog.allIndexes indexes ∧
          final.catalog.allIndexes = insertAll Index.key catalog.allIndexes indexes) ∨
        ∃ error, outcome = .raised error ∧ error.OverDeclared)
      (reconcileIndexes indexes) ⟨catalog, database⟩ := by
  induction indexes generalizing catalog database with
  | nil => exact Or.inl ⟨rfl, trivial, rfl⟩
  | cons index rest ih =>
    obtain ⟨hindex, hrest⟩ := List.forall_mem_cons.mp hcolumns
    refine holds_bind.mpr (holds_reconcileIndex (fun _ _ _ _ ↦ trivial) (trivial : AnyRows _)
      (fun _ _ _ _ ↦ trivial) ?_ ?_)
    · intro other hother hname database _
      have htaken : index.key ∈ catalog.allIndexes.map Index.key :=
        List.mem_map.mpr ⟨other, hother, congrArg fold hname⟩
      by_cases hsame : other.SameShape index
      · rw [if_pos hsame]
        refine (ih hrecords hrest).mono (fun _ _ htrue ↦ htrue) fun outcome final hends ↦ ?_
        refine hends.imp_left fun ⟨hreturned, hpassed, hfinal⟩ ↦ ⟨hreturned, ⟨?_, ?_⟩, ?_⟩
        · intro found hfound hfoundName
          rwa [Catalog.eq_of_key_eq hfound hother (congrArg fold (hfoundName.trans hname.symm))]
        · rwa [insertNew_of_mem htaken]
        · rwa [insertAll_cons, insertNew_of_mem htaken]
      · rw [if_neg hsame]
        exact Or.inr ⟨_, rfl, trivial⟩
    · intro hnone database _
      refine ⟨trivial, fun after hafter ↦ ?_, fun message _ ↦ Or.inr ⟨_, rfl, trivial⟩⟩
      obtain ⟨_, hcreated⟩ := Catalog.createDeclaredIndex_eq_ok.mp hafter
      obtain ⟨_, _, _, _, hname, rfl⟩ := (Catalog.createIndex_eq_ok hindex).mp hcreated
      have hstill : .records ∈ (catalog.withIndex index hname).objects := hrecords
      refine (ih hstill hrest).mono (fun _ _ htrue ↦ htrue) fun outcome final hends ↦ ?_
      rw [Catalog.allIndexes_withIndex] at hends
      refine hends.imp_left fun ⟨hreturned, hpassed, hfinal⟩ ↦ ⟨hreturned, ⟨?_, hpassed⟩, hfinal⟩
      exact fun other hother hsame ↦ absurd hsame (hnone other hother)

/-- How a migration of what was validated ends. -/
theorem holds_migrate_ends {columns : List GeneratedColumn}
    (hindexes : ∀ index ∈ indexes,
      validateIndex index (columns.map GeneratedColumn.name) = .ok ()) :
    Holds (environment platform writes) (fun _ _ ↦ True)
      (fun outcome final ↦
        (outcome = .returned () ∧ Passed catalog.prepared.allIndexes indexes ∧
          final.catalog.allIndexes = insertAll Index.key catalog.prepared.allIndexes indexes) ∨
        ∃ error, outcome = .raised error ∧ error.OverDeclared)
      (migrate platform columns indexes) ⟨catalog, database⟩ := by
  refine holds_migrate (fun _ _ _ _ ↦ trivial) (fun _ _ _ _ ↦ trivial)
    (fun _ _ ↦ (trivial : AnyRows _)) (trivial : AnyRows _) (fun _ _ _ _ _ _ ↦ trivial)
    (fun _ _ _ _ _ _ _ _ _ ↦ trivial) (fun _ _ _ _ ↦ trivial) ?_ ?_
  · intro after hafter database _
    obtain ⟨hobjects, hsame, _⟩ := reconciled_eq_ok hafter
    have hall : after.allIndexes = catalog.prepared.allIndexes := by
      unfold Catalog.allIndexes
      rw [hobjects, hsame]
    rw [← hall]
    exact holds_reconcileIndexes (hobjects ▸ catalog.mem_prepared)
      (known_of_reconciled hindexes hafter)
  · exact fun error herror storage ↦ Or.inr ⟨error, rfl, overDeclared_of_reconciled herror⟩

end Runs

/-- An index and another one whose name differs from its name in case. -/
def respelled : List Index := [⟨"ix_key", ["entity_key"], false⟩, ⟨"IX_KEY", ["payload"], false⟩]

end KSQLite.Schema
