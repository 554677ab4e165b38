import Mathlib.Data.List.Basic
import Mathlib.Data.Int.Order.Basic
import Mathlib.Order.Basic
import Mathlib.Tactic.Linarith

/-!
# Append-only logs with offsets

An `OffsetLog` retains the entries of an append-only log between its start and its stop, in
increasing order of offset. Records are appended at the stop (`push`, `extend`), and retention
raises the start (`trim`). Offsets may be missing between the two; `Dense` says that none is.

A reader fetches a nonempty initial part of what is available from its position (`IsBatch`). What
makes reading by position work is `IsBatch.covers`: between the position and the last fetched
offset the log holds nothing but the batch, so a property of every entry below the position that
also holds of the batch holds of every entry up to and including its last one
(`IsBatch.forall_lt_succ_last`).
-/

set_option autoImplicit false
set_option relaxedAutoImplicit false

namespace KSQLite.Log

variable {Record : Type}

/-- The retained part of an append-only log: entries of increasing offset between the start and
the stop, which is the offset of the next record. -/
structure OffsetLog (Record : Type) where
  start : ℤ
  stop : ℤ
  entries : List (ℤ × Record)
  start_nonneg : 0 ≤ start
  start_le_stop : start ≤ stop
  sorted : entries.Pairwise fun first second ↦ first.1 < second.1
  bounded : ∀ entry ∈ entries, start ≤ entry.1 ∧ entry.1 < stop

namespace OffsetLog

/-- A log that was never written. -/
def empty : OffsetLog Record where
  start := 0
  stop := 0
  entries := []
  start_nonneg := le_refl 0
  start_le_stop := le_refl 0
  sorted := .nil
  bounded := by simp

/-- Append one record at the stop. -/
def push (log : OffsetLog Record) (record : Record) : OffsetLog Record where
  start := log.start
  stop := log.stop + 1
  entries := log.entries ++ [(log.stop, record)]
  start_nonneg := log.start_nonneg
  start_le_stop := by have := log.start_le_stop; omega
  sorted := by
    refine List.pairwise_append.mpr ⟨log.sorted, List.pairwise_singleton _ _, ?_⟩
    intro entry hentry last hlast
    rw [List.mem_singleton.mp hlast]
    exact (log.bounded entry hentry).2
  bounded := by
    intro entry hentry
    rcases List.mem_append.mp hentry with hold | hnew
    · have := log.bounded entry hold
      omega
    · rw [List.mem_singleton.mp hnew]
      have := log.start_le_stop
      omega

/-- Append records one after another. -/
def extend (log : OffsetLog Record) (records : List Record) : OffsetLog Record :=
  records.foldl push log

/-- Retention deletes the entries below a bound, never past the stop. -/
def trim (log : OffsetLog Record) (bound : ℤ) : OffsetLog Record where
  start := max log.start (min bound log.stop)
  stop := log.stop
  entries := log.entries.filter fun entry ↦ max log.start (min bound log.stop) ≤ entry.1
  start_nonneg := le_max_of_le_left log.start_nonneg
  start_le_stop := max_le log.start_le_stop (min_le_right _ _)
  sorted := log.sorted.filter _
  bounded := by
    intro entry hentry
    obtain ⟨hmem, hbound⟩ := List.mem_filter.mp hentry
    exact ⟨of_decide_eq_true hbound, (log.bounded entry hmem).2⟩

/-- The retained entries from a position on. -/
def available (log : OffsetLog Record) (position : ℤ) : List (ℤ × Record) :=
  log.entries.filter fun entry ↦ position ≤ entry.1

/-- The retained entries below a bound. -/
def below (log : OffsetLog Record) (bound : ℤ) : List (ℤ × Record) :=
  log.entries.filter fun entry ↦ entry.1 < bound

/-- A position a reader may fetch from. -/
def InRange (log : OffsetLog Record) (position : ℤ) : Prop :=
  log.start ≤ position ∧ position ≤ log.stop

instance (log : OffsetLog Record) (position : ℤ) : Decidable (log.InRange position) :=
  inferInstanceAs (Decidable (_ ∧ _))

/-- A fetch: a nonempty initial part of what is available, of at most `limit` entries. -/
def IsBatch (log : OffsetLog Record) (position : ℤ) (limit : ℕ) (batch : List (ℤ × Record)) :
    Prop :=
  batch ≠ [] ∧ batch.length ≤ limit ∧ batch <+: log.available position

/-- Every offset between the start and the stop holds an entry. -/
def Dense (log : OffsetLog Record) : Prop :=
  ∀ offset, log.start ≤ offset → offset < log.stop → ∃ record, (offset, record) ∈ log.entries

/-! ### Appending -/

@[simp] theorem extend_nil (log : OffsetLog Record) : log.extend [] = log := rfl

@[simp] theorem extend_cons (log : OffsetLog Record) (record : Record) (records : List Record) :
    log.extend (record :: records) = (log.push record).extend records := rfl

theorem extend_append (log : OffsetLog Record) (first second : List Record) :
    log.extend (first ++ second) = (log.extend first).extend second :=
  List.foldl_append ..

@[simp] theorem extend_start (log : OffsetLog Record) (records : List Record) :
    (log.extend records).start = log.start := by
  induction records generalizing log with
  | nil => rfl
  | cons record rest ih => exact ih (log.push record)

@[simp] theorem extend_stop (log : OffsetLog Record) (records : List Record) :
    (log.extend records).stop = log.stop + records.length := by
  induction records generalizing log with
  | nil => simp
  | cons record rest ih =>
    rw [extend_cons, ih, List.length_cons]
    change log.stop + 1 + (rest.length : ℤ) = log.stop + ((rest.length + 1 : ℕ) : ℤ)
    push_cast
    omega

/-- Appending keeps every entry. -/
theorem mem_extend_of_mem {log : OffsetLog Record} {records : List Record} {entry : ℤ × Record}
    (hentry : entry ∈ log.entries) : entry ∈ (log.extend records).entries := by
  induction records generalizing log with
  | nil => exact hentry
  | cons record rest ih => exact ih (List.mem_append_left _ hentry)

/-- An entry of an extended log is an old one, or one of the new records at or past the old
stop. -/
theorem mem_extend {log : OffsetLog Record} {records : List Record} {entry : ℤ × Record}
    (hentry : entry ∈ (log.extend records).entries) :
    entry ∈ log.entries ∨ entry.2 ∈ records ∧ log.stop ≤ entry.1 := by
  induction records generalizing log with
  | nil => exact Or.inl hentry
  | cons record rest ih =>
    rcases ih hentry with hold | ⟨hnew, hstop⟩
    · rcases List.mem_append.mp hold with hkept | hlast
      · exact Or.inl hkept
      · rw [List.mem_singleton.mp hlast]
        exact Or.inr ⟨List.mem_cons_self, le_refl _⟩
    · exact Or.inr ⟨List.mem_cons_of_mem _ hnew, by change log.stop + 1 ≤ _ at hstop; omega⟩

/-- What was appended is in the log. -/
theorem exists_mem_extend {records : List Record} {record : Record} (hrecord : record ∈ records)
    (log : OffsetLog Record) : ∃ offset, (offset, record) ∈ (log.extend records).entries := by
  induction records generalizing log with
  | nil => cases hrecord
  | cons first rest ih =>
    rcases List.mem_cons.mp hrecord with rfl | hlater
    · have hpushed : (log.stop, record) ∈ (log.push record).entries :=
        List.mem_append_right _ (List.mem_singleton_self _)
      exact ⟨log.stop, @mem_extend_of_mem _ (log.push record) rest _ hpushed⟩
    · exact ih hlater (log.push first)

/-- Below the old stop, an extended log holds what the log held. -/
theorem mem_of_mem_extend_of_lt {log : OffsetLog Record} {records : List Record}
    {entry : ℤ × Record} (hentry : entry ∈ (log.extend records).entries)
    (hlt : entry.1 < log.stop) : entry ∈ log.entries := by
  rcases mem_extend hentry with hold | ⟨_, hstop⟩
  · exact hold
  · omega

/-! ### Trimming -/

theorem mem_of_mem_trim {log : OffsetLog Record} {bound : ℤ} {entry : ℤ × Record}
    (hentry : entry ∈ (log.trim bound).entries) : entry ∈ log.entries :=
  (List.mem_filter.mp hentry).1

theorem start_le_trim_start (log : OffsetLog Record) (bound : ℤ) :
    log.start ≤ (log.trim bound).start :=
  le_max_left _ _

/-! ### Evolution -/

/-- A log evolves by appending at its stop and trimming at its start: below the old stop nothing
new appears. -/
structure Evolves (log next : OffsetLog Record) : Prop where
  start_le : log.start ≤ next.start
  stop_le : log.stop ≤ next.stop
  mem_of_mem : ∀ entry ∈ next.entries, entry.1 < log.stop → entry ∈ log.entries

theorem Evolves.refl (log : OffsetLog Record) : log.Evolves log :=
  ⟨le_refl _, le_refl _, fun _ hentry _ ↦ hentry⟩

theorem Evolves.trans {log between next : OffsetLog Record} (hfirst : log.Evolves between)
    (hsecond : between.Evolves next) : log.Evolves next where
  start_le := hfirst.start_le.trans hsecond.start_le
  stop_le := hfirst.stop_le.trans hsecond.stop_le
  mem_of_mem entry hentry hlt :=
    hfirst.mem_of_mem entry (hsecond.mem_of_mem entry hentry (hlt.trans_le hfirst.stop_le)) hlt

theorem evolves_trim (log : OffsetLog Record) (bound : ℤ) : log.Evolves (log.trim bound) where
  start_le := start_le_trim_start log bound
  stop_le := le_refl _
  mem_of_mem _ hentry _ := mem_of_mem_trim hentry

theorem evolves_extend (log : OffsetLog Record) (records : List Record) :
    log.Evolves (log.extend records) where
  start_le := (extend_start log records).ge
  stop_le := by rw [extend_stop]; omega
  mem_of_mem _ hentry hlt := mem_of_mem_extend_of_lt hentry hlt

/-- A log grows by appending at its stop. -/
def Grows (log next : OffsetLog Record) : Prop :=
  ∃ records, next = log.extend records

theorem Grows.refl (log : OffsetLog Record) : log.Grows log := ⟨[], rfl⟩

theorem Grows.trans {log between next : OffsetLog Record} (hfirst : log.Grows between)
    (hsecond : between.Grows next) : log.Grows next := by
  obtain ⟨first, rfl⟩ := hfirst
  obtain ⟨second, rfl⟩ := hsecond
  exact ⟨first ++ second, (extend_append log first second).symm⟩

theorem Grows.evolves {log next : OffsetLog Record} (hgrows : log.Grows next) :
    log.Evolves next := by
  obtain ⟨records, rfl⟩ := hgrows
  exact evolves_extend log records

theorem Grows.start_eq {log next : OffsetLog Record} (hgrows : log.Grows next) :
    next.start = log.start := by
  obtain ⟨records, rfl⟩ := hgrows
  exact extend_start log records

/-- What a log grew by lies at or past its stop. -/
theorem Grows.exists_entries {log next : OffsetLog Record} (hgrows : log.Grows next) :
    ∃ added, next.entries = log.entries ++ added ∧ ∀ entry ∈ added, log.stop ≤ entry.1 := by
  obtain ⟨records, rfl⟩ := hgrows
  induction records generalizing log with
  | nil => exact ⟨[], (List.append_nil _).symm, by simp⟩
  | cons record rest ih =>
    obtain ⟨added, hadded, hstop⟩ := @ih (log.push record)
    refine ⟨(log.stop, record) :: added, ?_, ?_⟩
    · rw [extend_cons, hadded]
      exact List.append_assoc log.entries [(log.stop, record)] added
    · refine List.forall_mem_cons.mpr ⟨le_refl _, fun entry hentry ↦ ?_⟩
      exact (Int.le_add_one (le_refl log.stop)).trans (hstop entry hentry)

theorem Grows.mem {log next : OffsetLog Record} (hgrows : log.Grows next) {entry : ℤ × Record}
    (hentry : entry ∈ log.entries) : entry ∈ next.entries := by
  obtain ⟨added, hadded, _⟩ := hgrows.exists_entries
  rw [hadded]
  exact List.mem_append_left _ hentry

/-- Below the old stop a log that grew is as it was. -/
theorem Grows.below_eq {log next : OffsetLog Record} (hgrows : log.Grows next) {bound : ℤ}
    (hbound : bound ≤ log.stop) : next.below bound = log.below bound := by
  obtain ⟨added, hadded, hstop⟩ := hgrows.exists_entries
  have hnone : added.filter (fun entry ↦ entry.1 < bound) = [] := by
    refine List.filter_eq_nil_iff.mpr fun entry hentry ↦ ?_
    have := hstop entry hentry
    simp only [decide_eq_true_eq]
    omega
  rw [below, hadded, List.filter_append, hnone, List.append_nil]
  rfl

/-- A log grows by appending records of a kind. -/
def GrowsBy (kind : Record → Prop) (log next : OffsetLog Record) : Prop :=
  ∃ records, next = log.extend records ∧ ∀ record ∈ records, kind record

namespace GrowsBy

variable {kind : Record → Prop} {log between next : OffsetLog Record}

theorem refl (kind : Record → Prop) (log : OffsetLog Record) : log.GrowsBy kind log :=
  ⟨[], rfl, by simp⟩

theorem trans (hfirst : log.GrowsBy kind between) (hsecond : between.GrowsBy kind next) :
    log.GrowsBy kind next := by
  obtain ⟨first, rfl, hfirst⟩ := hfirst
  obtain ⟨second, rfl, hsecond⟩ := hsecond
  refine ⟨first ++ second, (extend_append log first second).symm, fun record hrecord ↦ ?_⟩
  exact (List.mem_append.mp hrecord).elim (hfirst record) (hsecond record)

theorem mono {wider : Record → Prop} (hgrows : log.GrowsBy kind next)
    (hwider : ∀ record, kind record → wider record) : log.GrowsBy wider next := by
  obtain ⟨records, hnext, hrecords⟩ := hgrows
  exact ⟨records, hnext, fun record hrecord ↦ hwider record (hrecords record hrecord)⟩

/-- A log grows by one record. -/
theorem push {record : Record} (hrecord : kind record) : log.GrowsBy kind (log.push record) :=
  ⟨[record], rfl, List.forall_mem_singleton.mpr hrecord⟩

theorem grows (hgrows : log.GrowsBy kind next) : log.Grows next := by
  obtain ⟨records, hnext, _⟩ := hgrows
  exact ⟨records, hnext⟩

/-- An entry of a log that grew is an old one, or it is of the kind and lies at or past the old
stop. -/
theorem mem (hgrows : log.GrowsBy kind next) {entry : ℤ × Record} (hentry : entry ∈ next.entries) :
    entry ∈ log.entries ∨ kind entry.2 ∧ log.stop ≤ entry.1 := by
  obtain ⟨records, rfl, hrecords⟩ := hgrows
  exact (mem_extend hentry).imp_right fun hnew ↦ ⟨hrecords _ hnew.1, hnew.2⟩

/-- The entries of a log that grew are the old ones and, behind them, entries of the kind. -/
theorem exists_entries (hgrows : log.GrowsBy kind next) : ∃ added,
    next.entries = log.entries ++ added ∧ ∀ entry ∈ added, kind entry.2 := by
  obtain ⟨added, hadded, hstop⟩ := hgrows.grows.exists_entries
  refine ⟨added, hadded, fun entry hentry ↦ ?_⟩
  have hmem : entry ∈ next.entries := hadded ▸ List.mem_append_right _ hentry
  rcases hgrows.mem hmem with hold | ⟨hkind, _⟩
  · exact absurd (log.bounded entry hold).2 (not_lt.mpr (hstop entry hentry))
  · exact hkind

end GrowsBy

/-! ### Reading -/

theorem mem_below {log : OffsetLog Record} {bound : ℤ} {entry : ℤ × Record} :
    entry ∈ log.below bound ↔ entry ∈ log.entries ∧ entry.1 < bound := by
  simp [below]

/-- Nothing is retained below the start. -/
theorem below_eq_nil {log : OffsetLog Record} {bound : ℤ} (hbound : bound ≤ log.start) :
    log.below bound = [] := by
  refine List.filter_eq_nil_iff.mpr fun entry hentry ↦ ?_
  have := (log.bounded entry hentry).1
  simp only [decide_eq_true_eq]
  omega

theorem mem_available {log : OffsetLog Record} {position : ℤ} {entry : ℤ × Record} :
    entry ∈ log.available position ↔ entry ∈ log.entries ∧ position ≤ entry.1 := by
  simp [available]

/-- Entries in order of offset are those before a bound, followed by those from it on. -/
theorem filter_lt_append {entries : List (ℤ × Record)}
    (hsorted : entries.Pairwise fun first second ↦ first.1 < second.1) (bound : ℤ) :
    (entries.filter fun entry ↦ entry.1 < bound) ++
      (entries.filter fun entry ↦ bound ≤ entry.1) = entries := by
  induction entries with
  | nil => rfl
  | cons first rest ih =>
    obtain ⟨hfirst, hrest⟩ := List.pairwise_cons.mp hsorted
    by_cases hlt : first.1 < bound
    · have hnot : ¬ bound ≤ first.1 := not_le.mpr hlt
      rw [List.filter_cons_of_pos (by simpa using hlt),
        List.filter_cons_of_neg (by simpa using hlt),
        List.cons_append, ih hrest]
    · have hall : ∀ entry ∈ rest, bound ≤ entry.1 := fun entry hentry ↦
        (not_lt.mp hlt).trans (hfirst entry hentry).le
      have hnone : rest.filter (fun entry ↦ entry.1 < bound) = [] :=
        List.filter_eq_nil_iff.mpr fun entry hentry ↦ by simpa using hall entry hentry
      have hkept : rest.filter (fun entry ↦ bound ≤ entry.1) = rest :=
        List.filter_eq_self.mpr fun entry hentry ↦ by simpa using hall entry hentry
      simp [hlt, not_lt.mp hlt, hnone, hkept]

/-- Nothing is available exactly when the log holds nothing from the position on. -/
theorem available_eq_nil {log : OffsetLog Record} {position : ℤ} :
    log.available position = [] ↔ ∀ entry ∈ log.entries, entry.1 < position := by
  simp [available]

theorem available_sorted (log : OffsetLog Record) (position : ℤ) :
    (log.available position).Pairwise fun first second ↦ first.1 < second.1 :=
  log.sorted.filter _

/-- What is available from the offset of an entry starts with it. -/
theorem singleton_prefix_available {log : OffsetLog Record} {entry : ℤ × Record}
    (hentry : entry ∈ log.entries) : [entry] <+: log.available entry.1 := by
  have hmem : entry ∈ log.available entry.1 := mem_available.mpr ⟨hentry, le_refl _⟩
  obtain ⟨first, rest, havailable⟩ := List.exists_cons_of_ne_nil (List.ne_nil_of_mem hmem)
  have hsorted := log.available_sorted entry.1
  rw [havailable] at hmem hsorted ⊢
  rcases List.mem_cons.mp hmem with rfl | hlater
  · exact List.prefix_append [entry] rest
  · have hbefore := (List.pairwise_cons.mp hsorted).1 entry hlater
    have hfirst := (mem_available.mp (havailable ▸ List.mem_cons_self : first ∈ _)).2
    omega

namespace IsBatch

variable {log : OffsetLog Record} {position : ℤ} {limit : ℕ} {batch : List (ℤ × Record)}
  {last : ℤ × Record}

theorem mem (hbatch : log.IsBatch position limit batch) {entry : ℤ × Record}
    (hentry : entry ∈ batch) : entry ∈ log.entries ∧ position ≤ entry.1 :=
  mem_available.mp (hbatch.2.2.subset hentry)

/-- A batch has a last entry, which the log holds. -/
theorem last_mem (hbatch : log.IsBatch position limit batch) (hlast : batch.getLast? = some last) :
    last ∈ log.entries ∧ position ≤ last.1 :=
  hbatch.mem (List.mem_of_getLast? hlast)

/-- The offsets of a batch are at most its last one. -/
theorem le_last (hbatch : log.IsBatch position limit batch) (hlast : batch.getLast? = some last)
    {entry : ℤ × Record} (hentry : entry ∈ batch) : entry.1 ≤ last.1 := by
  obtain ⟨front, rfl⟩ := List.getLast?_eq_some_iff.mp hlast
  have hsorted := (log.available_sorted position).sublist hbatch.2.2.sublist
  rcases List.mem_append.mp hentry with hfront | hend
  · exact ((List.pairwise_append.mp hsorted).2.2 entry hfront last (by simp)).le
  · rw [List.mem_singleton.mp hend]

/-- The last offset of a batch is at or past the position and before the stop. -/
theorem last_lt_stop (hbatch : log.IsBatch position limit batch)
    (hlast : batch.getLast? = some last) : last.1 < log.stop :=
  (log.bounded last (hbatch.last_mem hlast).1).2

/-- What is available after a batch is the rest of what was available before it. -/
theorem available_eq (hbatch : log.IsBatch position limit batch)
    (hlast : batch.getLast? = some last) :
    log.available position = batch ++ log.available (last.1 + 1) := by
  obtain ⟨rest, hrest⟩ := hbatch.2.2
  have hsorted := log.available_sorted position
  rw [← hrest] at hsorted
  have hafter : ∀ entry ∈ rest, last.1 < entry.1 := fun entry hentry ↦
    (List.pairwise_append.mp hsorted).2.2 last (List.mem_of_getLast? hlast) entry hentry
  have hnext : log.available (last.1 + 1) =
      (log.available position).filter fun entry ↦ last.1 + 1 ≤ entry.1 := by
    rw [available, available, List.filter_filter]
    refine List.filter_congr fun entry _ ↦ ?_
    have := (hbatch.last_mem hlast).2
    by_cases hentry : last.1 + 1 ≤ entry.1
    · have hposition : position ≤ entry.1 := by omega
      simp [hentry, hposition]
    · simp [hentry]
  have hbatchNone : batch.filter (fun entry ↦ last.1 + 1 ≤ entry.1) = [] := by
    refine List.filter_eq_nil_iff.mpr fun entry hentry ↦ ?_
    have := hbatch.le_last hlast hentry
    simp only [decide_eq_true_eq]
    omega
  have hrestAll : rest.filter (fun entry ↦ last.1 + 1 ≤ entry.1) = rest := by
    refine List.filter_eq_self.mpr fun entry hentry ↦ ?_
    have := hafter entry hentry
    simp only [decide_eq_true_eq]
    omega
  rw [hnext, ← hrest, List.filter_append, hbatchNone, hrestAll, List.nil_append]

/-- Between the position and the last fetched offset the log holds nothing but the batch. -/
theorem covers (hbatch : log.IsBatch position limit batch) (hlast : batch.getLast? = some last)
    {entry : ℤ × Record} (hentry : entry ∈ log.entries) (hposition : position ≤ entry.1)
    (hend : entry.1 ≤ last.1) : entry ∈ batch := by
  have havailable := mem_available.mpr ⟨hentry, hposition⟩
  rw [hbatch.available_eq hlast] at havailable
  rcases List.mem_append.mp havailable with hmem | hrest
  · exact hmem
  · have := (mem_available.mp hrest).2
    omega

/-- What a log holds from a bound to the end of a batch is the batch from there on, if the bound is
at or past the position. -/
theorem filter_below (hbatch : log.IsBatch position limit batch)
    (hlast : batch.getLast? = some last)
    {bound : ℤ} (hposition : position ≤ bound) :
    ((log.below (last.1 + 1)).filter fun entry ↦ bound ≤ entry.1) =
      batch.filter fun entry ↦ bound ≤ entry.1 := by
  have hfetched : ((log.available position).filter fun entry ↦
      bound ≤ entry.1 ∧ entry.1 < last.1 + 1) = batch.filter fun entry ↦ bound ≤ entry.1 := by
    have hrest : ((log.available (last.1 + 1)).filter fun entry ↦
        bound ≤ entry.1 ∧ entry.1 < last.1 + 1) = [] := by
      refine List.filter_eq_nil_iff.mpr fun entry hentry ↦ ?_
      have := (mem_available.mp hentry).2
      simp only [decide_eq_true_eq]
      omega
    rw [hbatch.available_eq hlast, List.filter_append, hrest, List.append_nil]
    refine List.filter_congr fun entry hentry ↦ ?_
    have := hbatch.le_last hlast hentry
    exact decide_eq_decide.mpr ⟨fun hboth ↦ hboth.1, fun hbound ↦ ⟨hbound, by omega⟩⟩
  rw [← hfetched, below, available, List.filter_filter, List.filter_filter]
  refine List.filter_congr fun entry _ ↦ ?_
  rw [← Bool.decide_and, ← Bool.decide_and]
  refine decide_eq_decide.mpr ⟨?_, ?_⟩
  · rintro ⟨hbound, hlt⟩
    exact ⟨⟨hbound, hlt⟩, by omega⟩
  · rintro ⟨hboth, _⟩
    exact hboth

/-- What lies below the end of a batch: what lies below a bound at or past its position, and the
rest of the batch. -/
theorem below_append (hbatch : log.IsBatch position limit batch)
    (hlast : batch.getLast? = some last)
    {bound : ℤ} (hposition : position ≤ bound) (hbound : bound ≤ last.1 + 1) :
    log.below (last.1 + 1) = log.below bound ++ batch.filter fun entry ↦ bound ≤ entry.1 := by
  have hbelow : ((log.below (last.1 + 1)).filter fun entry ↦ entry.1 < bound) =
    log.below bound := by
    rw [below, below, List.filter_filter]
    refine List.filter_congr fun entry _ ↦ ?_
    rw [← Bool.decide_and]
    exact decide_eq_decide.mpr ⟨fun hboth ↦ hboth.1, fun hlt ↦ ⟨hlt, by omega⟩⟩
  rw [← hbelow, ← hbatch.filter_below hlast hposition]
  exact (filter_lt_append (log.sorted.filter _) bound).symm

/-- A property of every entry below the position and of the batch holds of every entry up to the
last fetched offset. -/
theorem forall_lt_succ_last (hbatch : log.IsBatch position limit batch)
    (hlast : batch.getLast? = some last) {property : ℤ × Record → Prop}
    (hbelow : ∀ entry ∈ log.entries, entry.1 < position → property entry)
    (hfetched : ∀ entry ∈ batch, property entry) :
    ∀ entry ∈ log.entries, entry.1 < last.1 + 1 → property entry := by
  intro entry hentry hlt
  by_cases hposition : entry.1 < position
  · exact hbelow entry hentry hposition
  · exact hfetched entry (hbatch.covers hlast hentry (by omega) (by omega))

end IsBatch

/-- A batch of a log is one of what the log grew to. -/
theorem IsBatch.grows {log next : OffsetLog Record} {position : ℤ} {limit : ℕ}
    {batch : List (ℤ × Record)} (hbatch : log.IsBatch position limit batch)
    (hgrows : log.Grows next) : next.IsBatch position limit batch := by
  obtain ⟨added, hadded, _⟩ := hgrows.exists_entries
  refine ⟨hbatch.1, hbatch.2.1, hbatch.2.2.trans ?_⟩
  rw [available, available, hadded, List.filter_append]
  exact List.prefix_append _ _

/-- A batch uses up at least one of the entries that were available. -/
theorem IsBatch.length_available_lt {log : OffsetLog Record} {position : ℤ} {limit : ℕ}
    {batch : List (ℤ × Record)} {last : ℤ × Record} (hbatch : log.IsBatch position limit batch)
    (hlast : batch.getLast? = some last) :
    (log.available (last.1 + 1)).length < (log.available position).length := by
  have hpositive : 0 < batch.length := List.length_pos_of_mem (List.mem_of_getLast? hlast)
  rw [hbatch.available_eq hlast, List.length_append]
  omega

theorem length_available_le (log : OffsetLog Record) (position : ℤ) :
    (log.available position).length ≤ log.entries.length :=
  List.length_filter_le _ _

/-- In a dense log a position below the stop and not below the start has an entry to fetch. -/
theorem Dense.exists_available {log : OffsetLog Record} (hdense : log.Dense) {position : ℤ}
    (hstart : log.start ≤ position) (hstop : position < log.stop) :
    log.available position ≠ [] := by
  obtain ⟨record, hrecord⟩ := hdense position hstart hstop
  exact List.ne_nil_of_mem (mem_available.mpr ⟨hrecord, le_refl position⟩)

theorem dense_empty : (empty : OffsetLog Record).Dense := by
  intro offset hstart hstop
  exact absurd (lt_of_le_of_lt hstart hstop) (lt_irrefl 0)

theorem Dense.push {log : OffsetLog Record} (hdense : log.Dense) (record : Record) :
    (log.push record).Dense := by
  intro offset hstart hstop
  rcases eq_or_lt_of_le (Int.lt_add_one_iff.mp hstop) with hlast | hbefore
  · exact ⟨record, List.mem_append_right _ (List.mem_singleton.mpr (by rw [hlast]))⟩
  · obtain ⟨found, hfound⟩ := hdense offset hstart hbefore
    exact ⟨found, List.mem_append_left _ hfound⟩

/-- Appending leaves no gaps. -/
theorem Dense.extend {log : OffsetLog Record} (hdense : log.Dense) (records : List Record) :
    (log.extend records).Dense := by
  induction records generalizing log with
  | nil => exact hdense
  | cons record rest ih => exact ih (hdense.push record)

end OffsetLog

end KSQLite.Log
