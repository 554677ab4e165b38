import KSQLite.Log.FirstWins
import Mathlib.Data.List.MinMax
import Mathlib.Data.Int.Order.Basic

/-!
# The latest row of each group

`latest` is the row of a group with the greatest place. A table of rows of a sorted list may keep
any copies of a key, as long as it keeps one of each (`Keeps`). Where the copies of two keys never
interleave (`Unmixed`), its latest row of a group has the content of the last row of the group in
the list, whichever copies it keeps (`latest_content_eq`). Rows behind all others replace the last
row of their group and of no other (`lastOf_append`).
-/

set_option autoImplicit false
set_option relaxedAutoImplicit false

namespace KSQLite.Log

variable {Row Key Group Content : Type} [DecidableEq Group] {key : Row → Key}
  {group : Row → Group} {place : Row → ℤ} {content : Row → Content} {rows table : List Row}
  {wanted : Group}

/-- The row of a group with the greatest place. -/
def latest (group : Row → Group) (place : Row → ℤ) (rows : List Row) (wanted : Group) :
    Option Row :=
  @List.argmax _ _ Int.instLinearOrder.toPreorder Int.instLinearOrder.toDecidableLT place
    (rows.filter fun row ↦ group row = wanted)

/-- The last row of a group. -/
def lastOf (group : Row → Group) (rows : List Row) (wanted : Group) : Option Row :=
  (rows.filter fun row ↦ group row = wanted).getLast?

/-- The copies of two keys do not interleave: one copy before another places every copy of the one
before every copy of the other. -/
def Unmixed (key : Row → Key) (place : Row → ℤ) (rows : List Row) : Prop :=
  ∀ first ∈ rows, ∀ again ∈ rows, ∀ second ∈ rows, ∀ later ∈ rows,
    key first = key again → key second = key later → key first ≠ key second →
    place first < place second → place again < place later

/-- A table holds rows of a list, at least one for each key. -/
structure Keeps (key : Row → Key) (rows table : List Row) : Prop where
  grounded : ∀ row ∈ table, row ∈ rows
  kept : ∀ row ∈ rows, ∃ copy ∈ table, key copy = key row

theorem mem_of_latest {row : Row} (hlatest : latest group place rows wanted = some row) :
    row ∈ rows ∧ group row = wanted := by
  obtain ⟨hmem, hgroup⟩ := List.mem_filter.mp (List.argmax_mem hlatest)
  exact ⟨hmem, of_decide_eq_true hgroup⟩

theorem place_le_latest {row other : Row} (hlatest : latest group place rows wanted = some row)
    (hother : other ∈ rows) (hgroup : group other = wanted) : place other ≤ place row :=
  List.le_of_mem_argmax (List.mem_filter.mpr ⟨hother, decide_eq_true hgroup⟩) hlatest

theorem latest_eq_none : latest group place rows wanted = none ↔
    ∀ row ∈ rows, group row ≠ wanted := by
  unfold latest
  rw [List.argmax_eq_none, List.filter_eq_nil_iff]
  simp

theorem lastOf_eq_none : lastOf group rows wanted = none ↔ ∀ row ∈ rows, group row ≠ wanted := by
  unfold lastOf
  rw [List.getLast?_eq_none_iff, List.filter_eq_nil_iff]
  simp

theorem mem_of_lastOf {row : Row} (hlast : lastOf group rows wanted = some row) :
    row ∈ rows ∧ group row = wanted := by
  obtain ⟨hmem, hgroup⟩ := List.mem_filter.mp (List.mem_of_getLast? hlast)
  exact ⟨hmem, of_decide_eq_true hgroup⟩

/-- In a list sorted by place, no row of the group lies past the last one. -/
theorem lt_lastOf {row other : Row}
    (hsorted : rows.Pairwise fun first second ↦ place first < place second)
    (hlast : lastOf group rows wanted = some row) (hother : other ∈ rows)
    (hgroup : group other = wanted) (hne : other ≠ row) : place other < place row := by
  have hmem : other ∈ rows.filter fun found ↦ group found = wanted :=
    List.mem_filter.mpr ⟨hother, decide_eq_true hgroup⟩
  obtain ⟨before, hbefore⟩ := List.getLast?_eq_some_iff.mp hlast
  have hfiltered := hsorted.filter fun found ↦ group found = wanted
  rw [hbefore] at hmem hfiltered
  rcases List.mem_append.mp hmem with hearlier | hsame
  · exact (List.pairwise_append.mp hfiltered).2.2 other hearlier row (List.mem_singleton_self row)
  · exact absurd (List.mem_singleton.mp hsame) hne

/-- Inserting the rows of a list into an empty table keeps the first copy of each key. -/
theorem keeps_insertAll [DecidableEq Key] : Keeps key rows (insertAll key [] rows) where
  grounded _ hrow := (mem_insertAll hrow).resolve_left List.not_mem_nil
  kept _ hrow := List.mem_map.mp (mem_keys_insertAll.mpr (Or.inr (List.mem_map_of_mem hrow)))

/-- The latest row of a group has the content of its last row in the list, whichever copies the
table keeps. -/
theorem latest_content_eq (hsorted : rows.Pairwise fun first second ↦ place first < place second)
    (hunmixed : Unmixed key place rows)
    (hcontent : ∀ first ∈ rows, ∀ second ∈ rows, key first = key second →
      content first = content second)
    (hgroup : ∀ first ∈ rows, ∀ second ∈ rows, content first = content second →
      group first = group second)
    (hkeeps : Keeps key rows table) :
    (latest group place table wanted).map content = (lastOf group rows wanted).map content := by
  cases hlast : lastOf group rows wanted with
  | none =>
    have hnone : latest group place table wanted = none :=
      latest_eq_none.mpr fun row hrow ↦ lastOf_eq_none.mp hlast row (hkeeps.grounded row hrow)
    rw [hnone]
  | some last =>
    obtain ⟨hmem, hwanted⟩ := mem_of_lastOf hlast
    obtain ⟨copy, hcopy, hkey⟩ := hkeeps.kept last hmem
    have hkept := hkeeps.grounded copy hcopy
    have hcopied : group copy = wanted :=
      (hgroup copy hkept last hmem (hcontent copy hkept last hmem hkey)).trans hwanted
    cases hfound : latest group place table wanted with
    | none => exact absurd hcopied (latest_eq_none.mp hfound copy hcopy)
    | some found =>
      obtain ⟨htable, hsame⟩ := mem_of_latest hfound
      have hgrounded := hkeeps.grounded found htable
      by_cases hkeys : key found = key last
      · exact congrArg some (hcontent found hgrounded last hmem hkeys)
      · -- Another key whose copy is the latest here would have one past the last row there.
        have hlt := lt_lastOf hsorted hlast hgrounded hsame (fun heq ↦ hkeys (congrArg key heq))
        have hbelow := hunmixed found hgrounded found hgrounded last hmem copy hkept rfl
          hkey.symm hkeys hlt
        exact absurd (place_le_latest hfound hcopy hcopied) (not_le.mpr hbelow)

/-- Rows of one content behind a list replace the last row of their group and of no other. -/
theorem lastOf_append {added : List Row} {last : Row} (hnonempty : added ≠ [])
    (hadded : ∀ row ∈ added, content row = content last ∧ group row = group last) :
    (fun wanted ↦ (lastOf group (rows ++ added) wanted).map content) =
      Function.update (fun wanted ↦ (lastOf group rows wanted).map content) (group last)
        (some (content last)) := by
  funext wanted
  unfold lastOf
  rw [List.filter_append]
  by_cases hwanted : wanted = group last
  · subst hwanted
    have hall : (added.filter fun row ↦ group row = group last) = added :=
      List.filter_eq_self.mpr fun row hrow ↦ decide_eq_true (hadded row hrow).2
    obtain ⟨row, hrow⟩ := Option.ne_none_iff_exists'.mp
      (fun hnone ↦ hnonempty (List.getLast?_eq_none_iff.mp hnone) : added.getLast? ≠ none)
    rw [hall, Function.update_self, List.getLast?_append, hrow]
    exact congrArg some (hadded row (List.mem_of_getLast? hrow)).1
  · have hnone : (added.filter fun row ↦ group row = wanted) = [] :=
      List.filter_eq_nil_iff.mpr fun row hrow heq ↦
        hwanted ((of_decide_eq_true heq).symm.trans (hadded row hrow).2)
    rw [hnone, List.append_nil, Function.update_of_ne hwanted]

end KSQLite.Log
