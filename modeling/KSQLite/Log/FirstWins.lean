import Mathlib.Data.List.Nodup
import Mathlib.Data.List.Infix

/-!
# Tables keyed by first insertion

A table with a unique key into which a row is inserted only when its key is new
(`insertNew`), and the table that a sequence of such insertions leaves (`insertAll`). Insertion
never removes or changes a row (`prefix_insertAll`), keeps the keys distinct
(`nodup_keys_insertAll`), and the keys afterwards are the old ones and those inserted
(`mem_keys_insertAll`).
-/

set_option autoImplicit false
set_option relaxedAutoImplicit false

namespace KSQLite.Log

variable {Row Key : Type} [DecidableEq Key] (key : Row → Key)

/-- Insert a row unless its key is taken. -/
def insertNew (table : List Row) (row : Row) : List Row :=
  if key row ∈ table.map key then table else table ++ [row]

/-- Insert rows one after another. -/
def insertAll (table rows : List Row) : List Row :=
  rows.foldl (insertNew key) table

@[simp] theorem insertAll_nil (table : List Row) : insertAll key table [] = table := rfl

@[simp] theorem insertAll_cons (table : List Row) (row : Row) (rows : List Row) :
    insertAll key table (row :: rows) = insertAll key (insertNew key table row) rows := rfl

theorem insertAll_append (table first second : List Row) :
    insertAll key table (first ++ second) = insertAll key (insertAll key table first) second :=
  List.foldl_append ..

variable {key}

theorem insertNew_of_mem {table : List Row} {row : Row} (hrow : key row ∈ table.map key) :
    insertNew key table row = table :=
  if_pos hrow

theorem insertNew_of_notMem {table : List Row} {row : Row} (hrow : key row ∉ table.map key) :
    insertNew key table row = table ++ [row] :=
  if_neg hrow

/-- An insertion behind rows of other keys. -/
theorem insertNew_append {before table : List Row} {row : Row} (hrow : key row ∉ before.map key) :
    insertNew key (before ++ table) row = before ++ insertNew key table row := by
  by_cases htable : key row ∈ table.map key
  · rw [insertNew_of_mem htable, insertNew_of_mem]
    rw [List.map_append]
    exact List.mem_append_right _ htable
  · rw [insertNew_of_notMem htable, insertNew_of_notMem, List.append_assoc]
    rw [List.map_append, List.mem_append]
    exact not_or.mpr ⟨hrow, htable⟩

variable (key) in
/-- Insertions append some of the rows to the table. -/
theorem exists_insertAll_eq_append (table rows : List Row) :
    ∃ added, insertAll key table rows = table ++ added ∧ added.Sublist rows := by
  induction rows generalizing table with
  | nil => exact ⟨[], (List.append_nil table).symm, .slnil⟩
  | cons row rest ih =>
    obtain ⟨added, hadded, hsublist⟩ := ih (insertNew key table row)
    by_cases hrow : key row ∈ table.map key
    · rw [insertNew_of_mem hrow] at hadded
      exact ⟨added, by rwa [insertAll_cons, insertNew_of_mem hrow], hsublist.cons row⟩
    · rw [insertNew_of_notMem hrow, List.append_assoc, List.singleton_append] at hadded
      exact ⟨row :: added, by rwa [insertAll_cons, insertNew_of_notMem hrow],
        hsublist.cons_cons row⟩

/-- Insertions keep the rows of the table, in place. -/
theorem prefix_insertAll (table rows : List Row) : table <+: insertAll key table rows := by
  obtain ⟨added, hadded, _⟩ := exists_insertAll_eq_append key table rows
  exact ⟨added, hadded.symm⟩

theorem mem_keys_insertNew {table : List Row} {row : Row} {wanted : Key} :
    wanted ∈ (insertNew key table row).map key ↔ wanted ∈ table.map key ∨ wanted = key row := by
  by_cases hrow : key row ∈ table.map key
  · rw [insertNew_of_mem hrow]
    exact ⟨Or.inl, fun hwanted ↦ hwanted.elim id fun heq ↦ heq ▸ hrow⟩
  · rw [insertNew_of_notMem hrow, List.map_append, List.mem_append, List.map_singleton,
      List.mem_singleton]

/-- The keys after insertions: the old ones and the inserted ones. -/
theorem mem_keys_insertAll {table rows : List Row} {wanted : Key} :
    wanted ∈ (insertAll key table rows).map key ↔
      wanted ∈ table.map key ∨ wanted ∈ rows.map key := by
  induction rows generalizing table with
  | nil => simp
  | cons row rest ih =>
    rw [insertAll_cons, ih, mem_keys_insertNew, List.map_cons, List.mem_cons, or_assoc]

/-- A row after insertions is an old one or one of the inserted ones. -/
theorem mem_insertAll {table rows : List Row} {row : Row}
    (hrow : row ∈ insertAll key table rows) : row ∈ table ∨ row ∈ rows := by
  obtain ⟨added, hadded, hsublist⟩ := exists_insertAll_eq_append key table rows
  rw [hadded] at hrow
  exact (List.mem_append.mp hrow).imp_right fun hmem ↦ hsublist.subset hmem

theorem nodup_keys_insertNew {table : List Row} (htable : (table.map key).Nodup) (row : Row) :
    ((insertNew key table row).map key).Nodup := by
  by_cases hrow : key row ∈ table.map key
  · rwa [insertNew_of_mem hrow]
  · rw [insertNew_of_notMem hrow, List.map_append]
    refine htable.append (List.nodup_singleton _) ?_
    simpa using hrow

/-- Insertions keep the keys distinct. -/
theorem nodup_keys_insertAll {table : List Row} (htable : (table.map key).Nodup)
    (rows : List Row) : ((insertAll key table rows).map key).Nodup := by
  induction rows generalizing table with
  | nil => exact htable
  | cons row rest ih => exact ih (nodup_keys_insertNew htable row)

/-- Insertions of rows whose keys are taken change nothing. -/
theorem insertAll_eq_self {table rows : List Row}
    (hrows : ∀ row ∈ rows, key row ∈ table.map key) : insertAll key table rows = table := by
  induction rows with
  | nil => rfl
  | cons row rest ih =>
    obtain ⟨hrow, hrest⟩ := List.forall_mem_cons.mp hrows
    rw [insertAll_cons, insertNew_of_mem hrow]
    exact ih hrest

/-- Insertions of rows whose keys are new append them. -/
theorem insertAll_of_nodup {table rows : List Row} (hkeys : ((table ++ rows).map key).Nodup) :
    insertAll key table rows = table ++ rows := by
  induction rows generalizing table with
  | nil => exact (List.append_nil table).symm
  | cons row rest ih =>
    have hrow : key row ∉ table.map key := by
      rw [List.map_append] at hkeys
      exact fun hmem ↦ List.disjoint_of_nodup_append hkeys hmem List.mem_cons_self
    rw [List.append_cons] at hkeys ⊢
    rw [insertAll_cons, insertNew_of_notMem hrow, ih hkeys]

/-- Between two beginnings of a list of distinct keys, insertions leave the longer one. -/
theorem insertAll_of_prefix {table rows total : List Row} (hkeys : (total.map key).Nodup)
    (htable : table <+: total) (hrows : rows <+: total) :
    (rows <+: table ∧ insertAll key table rows = table) ∨
      (table <+: rows ∧ insertAll key table rows = rows) := by
  rcases List.prefix_or_prefix_of_prefix hrows htable with hshorter | hlonger
  · exact Or.inl ⟨hshorter, insertAll_eq_self fun row hrow ↦
      List.mem_map_of_mem (hshorter.subset hrow)⟩
  · obtain ⟨more, rfl⟩ := hlonger
    refine Or.inr ⟨List.prefix_append _ _, ?_⟩
    rw [insertAll_append, insertAll_eq_self fun row hrow ↦ List.mem_map_of_mem hrow]
    exact insertAll_of_nodup ((hrows.sublist.map key).nodup hkeys)

/-- Insertions of rows that are kept, into a table where no other row has their keys, are
insertions into what is kept of the table. -/
theorem filter_insertAll {table rows : List Row} {keep : Row → Bool}
    (hrows : ∀ row ∈ rows, keep row)
    (happart : ∀ row ∈ rows, ∀ old ∈ table, key old = key row → keep old) :
    (insertAll key table rows).filter keep = insertAll key (table.filter keep) rows := by
  induction rows generalizing table with
  | nil => rfl
  | cons row rest ih =>
    obtain ⟨hrow, hrest⟩ := List.forall_mem_cons.mp hrows
    obtain ⟨hrowApart, hrestApart⟩ := List.forall_mem_cons.mp happart
    rw [insertAll_cons, insertAll_cons, ih hrest]
    · congr 1
      by_cases htaken : key row ∈ table.map key
      · obtain ⟨old, hold, hkey⟩ := List.mem_map.mp htaken
        have hkept : key row ∈ (table.filter keep).map key := by
          rw [← hkey]
          exact List.mem_map_of_mem (List.mem_filter.mpr ⟨hold, hrowApart old hold hkey⟩)
        rw [insertNew_of_mem htaken, insertNew_of_mem hkept]
      · have hfree : key row ∉ (table.filter keep).map key := fun hmem ↦
          htaken ((List.filter_sublist.map key).subset hmem)
        rw [insertNew_of_notMem htaken, insertNew_of_notMem hfree, List.filter_append,
          List.filter_singleton, hrow]
        rfl
    · intro later hlater old hold hkey
      by_cases htaken : key row ∈ table.map key
      · rw [insertNew_of_mem htaken] at hold
        exact hrestApart later hlater old hold hkey
      · rw [insertNew_of_notMem htaken] at hold
        rcases List.mem_append.mp hold with hbefore | hnew
        · exact hrestApart later hlater old hbefore hkey
        · rw [List.mem_singleton.mp hnew]
          exact hrow

/-- The row of a key after insertions is the first one of it, among the table and what was
inserted. -/
theorem find?_insertAll {table rows : List Row} {wanted : Key} :
    (insertAll key table rows).find? (fun row ↦ key row = wanted) =
      (table ++ rows).find? fun row ↦ key row = wanted := by
  induction rows generalizing table with
  | nil => rw [insertAll_nil, List.append_nil]
  | cons row rest ih =>
    rw [insertAll_cons, ih]
    by_cases hrow : key row ∈ table.map key
    · rw [insertNew_of_mem hrow, List.find?_append, List.find?_append, List.find?_cons]
      by_cases hwanted : key row = wanted
      · obtain ⟨old, hold, hkey⟩ := List.mem_map.mp hrow
        cases hfound : table.find? fun row ↦ decide (key row = wanted) with
        | none =>
          refine absurd ?_ (List.find?_eq_none.mp hfound old hold)
          exact decide_eq_true (hkey.trans hwanted)
        | some found => rfl
      · rw [decide_eq_false hwanted]
    · rw [insertNew_of_notMem hrow, List.append_assoc, List.singleton_append]

omit [DecidableEq Key] in
/-- In a table of distinct keys a key determines its row. -/
theorem eq_of_key_eq {table : List Row} (htable : (table.map key).Nodup) {first second : Row}
    (hfirst : first ∈ table) (hsecond : second ∈ table) (hkey : key first = key second) :
    first = second :=
  List.inj_on_of_nodup_map htable hfirst hsecond hkey

omit [DecidableEq Key] in
/-- Two tables of distinct keys that hold the same keys, with the same content under each, hold the
same contents. -/
theorem perm_map_of_keys {Content : Type} {content : Row → Content} {first second : List Row}
    (hfirst : (first.map key).Nodup) (hsecond : (second.map key).Nodup)
    (hkeys : ∀ wanted, wanted ∈ first.map key ↔ wanted ∈ second.map key)
    (hcontent : ∀ row ∈ first, ∀ other ∈ second, key row = key other →
      content row = content other) : (first.map content).Perm (second.map content) := by
  induction first generalizing second with
  | nil =>
    have hnone : second = [] := by
      refine List.eq_nil_iff_forall_not_mem.mpr fun row hrow ↦ ?_
      exact List.not_mem_nil ((hkeys (key row)).mpr (List.mem_map_of_mem hrow))
    rw [hnone]
  | cons row rest ih =>
    obtain ⟨other, hother, hkey⟩ := List.mem_map.mp ((hkeys (key row)).mp List.mem_cons_self)
    obtain ⟨left, right, rfl⟩ := List.append_of_mem hother
    have hmoved : (left ++ other :: right).Perm (other :: (left ++ right)) := List.perm_middle
    have hdistinct := List.nodup_cons.mp ((hmoved.map key).nodup_iff.mp hsecond)
    obtain ⟨hrow, hrest⟩ := List.nodup_cons.mp hfirst
    have hsame (wanted : Key) : wanted ∈ rest.map key ↔ wanted ∈ (left ++ right).map key := by
      have hboth := (hkeys wanted).trans (hmoved.map key).mem_iff
      rw [List.map_cons, List.map_cons, List.mem_cons, List.mem_cons, hkey] at hboth
      constructor
      · intro hwanted
        refine (hboth.mp (Or.inr hwanted)).resolve_left ?_
        rintro rfl
        exact hrow (hkey ▸ hwanted)
      · intro hwanted
        refine (hboth.mpr (Or.inr hwanted)).resolve_left ?_
        rintro rfl
        exact hdistinct.1 (hkey ▸ hwanted)
    have hcontents := ih hrest hdistinct.2 hsame fun old hold new hnew ↦
      hcontent old (List.mem_cons_of_mem _ hold) new
        (hmoved.mem_iff.mpr (List.mem_cons_of_mem _ hnew))
    rw [List.map_cons, hcontent row List.mem_cons_self other hother hkey.symm]
    exact (hcontents.cons _).trans (hmoved.map content).symm

end KSQLite.Log
