import KSQLite.Rehydrate.Coverage
import KSQLite.Rehydrate.Frame
import KSQLite.Store.Sample

/-!
# Completeness under head trimming

While retention raises the start of the changelog between the polls of a rehydrate, the rehydrate
may go through any number of resets. If it marks its partition `READY`, every KSQLite record that
is still retained below the captured log end has exactly one row
(`ready_complete_under_head_trimming`), whatever calls failed in between.
-/

set_option autoImplicit false
set_option relaxedAutoImplicit false

namespace KSQLite.Rehydrate

open KSQLite.Log KSQLite.Suspension KSQLite.Store

/-- Others only trim the head of a changelog. -/
def TrimsOnly (conditions : Conditions) (name : String) : Prop :=
  ∀ broker next, conditions.disturbs broker next →
    ∃ bound, next.changelogs name = (broker.changelogs name).trim bound

/-- Every KSQLite record retained below the log end captured for a partition has exactly one row
under its message id. -/
def CompleteBelowLogEnd (tp : TopicPartition) (name : String) (world : World) : Prop :=
  ∀ leo, world.memory.state.logEndOf tp = some leo →
    ∀ entry ∈ (world.broker.changelogs name).entries, entry.1 < leo →
      ∀ record, ksqliteOf entry.2 = some record →
        ∃! row, row ∈ world.database.records ∧ row.messageId = record.messageId

/-- Every row is still there, and the rows of the other partitions are the same. -/
def OnlyAdds (tp : TopicPartition) (before after : World) : Prop :=
  before.database.records <+: after.database.records ∧
    ∀ other, other ≠ tp → after.database.rowsOf other = before.database.rowsOf other

/-- While a call is pending: only additions so far, and completeness once a partition marked
`READY` is about to be revealed. -/
def CompleteWhenRevealed (tp : TopicPartition) (name : String) (before : World) (call : Call)
    (world : World) : Prop :=
  OnlyAdds tp before world ∧
    (call = .transaction (.ownedInsert tp) → world.memory.state.statusOf tp = some .ready →
      CompleteBelowLogEnd tp name world)

/-- At the end: only additions, and completeness if the rehydrate returned with `READY`. -/
def CompleteWhenReturned (tp : TopicPartition) (name : String) (before : World)
    (outcome : Outcome Error Unit) (world : World) : Prop :=
  OnlyAdds tp before world ∧
    (outcome = .returned () → world.memory.state.statusOf tp = some .ready →
      CompleteBelowLogEnd tp name world)

theorem TrimsOnly.evolvesOnly {conditions : Conditions} {name : String}
    (htrims : TrimsOnly conditions name) : EvolvesOnly conditions name := by
  intro broker next hdisturb
  obtain ⟨bound, hbound⟩ := htrims broker next hdisturb
  rw [hbound]
  exact OffsetLog.evolves_trim _ bound

theorem TrimsOnly.neverGrows {conditions : Conditions} {name : String}
    (htrims : TrimsOnly conditions name) : NeverGrows conditions name := by
  intro broker next hdisturb
  obtain ⟨bound, hbound⟩ := htrims broker next hdisturb
  rw [hbound]
  rfl

theorem Frame.onlyAdds {tp : TopicPartition} {before after : World}
    (hframe : Frame tp before after) : OnlyAdds tp before after :=
  ⟨hframe.records_prefix, fun _ hother ↦ hframe.rowsOf_eq hother⟩

/-- A covered log end is complete: message ids are distinct. -/
theorem completeBelowLogEnd_of_covered {tp : TopicPartition} {name : String} {world : World}
    {leo : ℤ} (hleo : world.memory.state.logEndOf tp = some leo)
    (hcovered : Covered world.database (world.broker.changelogs name) leo) :
    CompleteBelowLogEnd tp name world := by
  intro captured hcaptured entry hentry hlt record hrecord
  obtain rfl : captured = leo := Option.some.inj (hcaptured.symm.trans hleo)
  obtain ⟨row, hrow, hid⟩ := List.mem_map.mp (hcovered entry hentry hlt record hrecord)
  refine ⟨row, ⟨hrow, hid⟩, fun other hother ↦ ?_⟩
  exact Database.eq_of_messageId_eq hother.1 hrow (hother.2.trans hid.symm)

/-- What a rehydrate may find at a point it reaches as `READY`. -/
theorem Coverage.complete {stable : Prop} {job : Job} {point : Point} {world : World}
    (hcoverage : Coverage stable job point world)
    (hpoint : point = .revealing .ready ∨ point = .revealed .ready) :
    CompleteBelowLogEnd job.tp job.name world := by
  have hready : ∃ leo, Captured stable job world leo ∧
      Covered world.database (job.log world) leo := by
    rcases hpoint with rfl | rfl
    · exact hcoverage.point
    · exact hcoverage.point
  obtain ⟨leo, hcaptured, hcovered⟩ := hready
  exact completeBelowLogEnd_of_covered hcaptured.1 hcovered

/-- Completeness under head trimming, at the pending reveal of a `READY` partition and after it,
and only additions at every moment.
Assumes: others only trim the changelog, and every KSQLite record up to the persisted checkpoint
is in `_records` at the start. -/
theorem ready_complete_under_head_trimming {settings : Settings} {conditions : Conditions}
    {tp : TopicPartition} {name : String} {deadline : ℤ} {fuel : ℕ} {world : World}
    (htrims : TrimsOnly conditions name)
    (happlied : Covered world.database (world.broker.changelogs name)
      (PartitionStateMachine.nextOffset (world.database.checkpoint tp))) :
    Holds (environment settings conditions) (AtCall (CompleteWhenRevealed tp name world))
      (CompleteWhenReturned tp name world) (rehydrateOne settings fuel tp name deadline) world := by
  let job : Job := ⟨settings, conditions, tp, name, deadline, fuel⟩
  have hcoverage {state : Point × World} (hreaches : Reaches job (.entered, world) state) :
      Coverage True job state.1 state.2 :=
    hreaches.invariant (Coverage True job)
      (coverage_step htrims.evolvesOnly fun _ ↦ htrims.neverGrows)
      ⟨⟨happlied, Or.inr trivial⟩, trivial⟩
  have hrefines := rehydrateOne_refines (.refl : Reaches job (.entered, world) (.entered, world))
  refine hrefines.mono ?_ ?_
  · rintro (_ | _ | _ | _ | call) between hmoment
    · trivial
    · trivial
    · trivial
    · trivial
    obtain ⟨point, hreaches, hawaits⟩ := hmoment
    refine ⟨hreaches.frame.onlyAdds, ?_⟩
    rintro rfl hready
    obtain ⟨status, rfl⟩ := eq_revealing_of_awaits hawaits
    have hstatus : between.memory.state.statusOf tp = some status := hreaches.marked trivial
    obtain rfl : status = .ready := Option.some.inj (hstatus.symm.trans hready)
    exact (hcoverage hreaches).complete (Or.inl rfl)
  · rintro (value | error | _) final hends
    · obtain ⟨status, hreaches⟩ := hends
      refine ⟨hreaches.frame.onlyAdds, fun _ hready ↦ ?_⟩
      have hstatus : final.memory.state.statusOf tp = some status := (hreaches.marked trivial).1
      obtain rfl : status = .ready := Option.some.inj (hstatus.symm.trans hready)
      exact (hcoverage hreaches).complete (Or.inr rfl)
    · obtain ⟨point, hreaches, _⟩ := hends
      exact ⟨hreaches.frame.onlyAdds, fun hreturned ↦ by cases hreturned⟩
    · obtain ⟨leo, replay, hreaches, _⟩ := hends
      exact ⟨hreaches.frame.onlyAdds, fun hreturned ↦ by cases hreturned⟩

/-- A store that applied the first of two records, while retention may trim the log at any time
and any call may fail. -/
theorem ready_complete_under_head_trimming_sample :
    Holds (environment Sample.settings Sample.trimming)
      (AtCall (CompleteWhenRevealed Sample.orders Sample.changelog Sample.halfApplied))
      (CompleteWhenReturned Sample.orders Sample.changelog Sample.halfApplied)
      (rehydrateOne Sample.settings 9 Sample.orders Sample.changelog 30) Sample.halfApplied := by
  refine ready_complete_under_head_trimming ?_ ?_
  · rintro broker _ ⟨bound, rfl⟩
    exact ⟨bound, by simp⟩
  · exact Sample.halfApplied_present

end KSQLite.Rehydrate
