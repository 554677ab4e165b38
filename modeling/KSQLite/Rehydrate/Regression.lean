import KSQLite.Rehydrate.Frozen
import KSQLite.Rehydrate.Runs
import KSQLite.Store.Sample

/-!
# Recovery from a regressed log end

A changelog whose tail was truncated, or that was created anew and shorter, ends at or below the
persisted checkpoint. A rehydrate of it is told that it is out of range and replays from the start,
but the checkpoint is repaired only at the very end: when the rehydrate is interrupted before, the
stale checkpoint is still there (`stale_after_interruption`). If the log then grows past it, the
next rehydrate resumes behind it. What is retained at or below the stale checkpoint is recovered
exactly when the log still ends at or below it, or nothing there is missing
(`recovers_iff`).
-/

set_option autoImplicit false
set_option relaxedAutoImplicit false

namespace KSQLite.Rehydrate

open KSQLite.Log KSQLite.Suspension KSQLite.Store

/-- The log ends at or below the persisted checkpoint. -/
def StaleHigh (tp : TopicPartition) (name : String) (checkpoint : ℤ) (world : World) : Prop :=
  world.database.checkpoint tp = some checkpoint ∧
    (world.broker.changelogs name).stop ≤ checkpoint

/-- Between two rehydrates the log grew, and rows and checkpoint stayed. Anything may have become
of the memory: the process may have restarted. -/
def Grown (tp : TopicPartition) (name : String) (before after : World) : Prop :=
  after.database.records = before.database.records ∧
    after.database.checkpoint tp = before.database.checkpoint tp ∧
    ∃ messages, after.broker.changelogs name = (before.broker.changelogs name).extend messages

/-- Every KSQLite record retained below the captured log end is in `_records`. -/
def RetainedPresent (tp : TopicPartition) (name : String) (world : World) : Prop :=
  ∀ leo, world.memory.state.logEndOf tp = some leo →
    Covered world.database (world.broker.changelogs name) leo

/-- The log ends at or below the checkpoint, or every KSQLite record at or below the checkpoint is
in `_records` or appears again above it. -/
def Recoverable (name : String) (checkpoint : ℤ) (world : World) : Prop :=
  (world.broker.changelogs name).stop ≤ checkpoint ∨
    ∀ entry ∈ (world.broker.changelogs name).entries, entry.1 ≤ checkpoint →
      ∀ messageId, messageIdOf entry = some messageId →
        messageId ∈ world.database.records.map Row.messageId ∨
          ∃ other ∈ (world.broker.changelogs name).entries, checkpoint < other.1 ∧
            messageIdOf other = some messageId

/-- What a later rehydrate leaves when it ends `READY`, whatever was appended since a rehydrate
that did not mark its partition `READY`. -/
def AfterInterruption (settings : Settings) (conditions : Conditions) (tp : TopicPartition)
    (name : String) (fuel : ℕ) (deadline : ℤ) (property : World → World → Prop)
    (interrupted : World) : Prop :=
  interrupted.memory.state.statusOf tp ≠ some .ready → ∀ later, Grown tp name interrupted later →
    Holds (environment settings conditions) (AtCall fun _ _ ↦ True)
      (fun outcome final ↦ outcome = .returned () →
        final.memory.state.statusOf tp = some .ready → property later final)
      (rehydrateOne settings fuel tp name deadline) later

/-! ### The interrupted rehydrate -/

section Interrupted

variable {job : Job} {checkpoint : ℤ} {world next : World}

/-- Until the partition is marked `READY`, the checkpoint stays where it was. -/
def Stale (job : Job) (checkpoint : ℤ) : Point → World → Prop
  | .materializing _ _ _ _ last, world =>
    StaleHigh job.tp job.name checkpoint world ∧ last.1 < (job.log world).stop
  | .revealing .ready, _ | .revealed .ready, _ => True
  | _, world => StaleHigh job.tp job.name checkpoint world

theorem StaleHigh.drift {broker : Broker} (hnever : NeverGrows job.conditions job.name)
    (hstale : StaleHigh job.tp job.name checkpoint world)
    (hdisturb : job.conditions.disturbs world.broker broker) :
    StaleHigh job.tp job.name checkpoint (world.drift broker) := by
  refine ⟨hstale.1, ?_⟩
  change (broker.changelogs job.name).stop ≤ checkpoint
  rw [hnever world.broker broker hdisturb]
  exact hstale.2

/-- A batch below the checkpoint leaves the checkpoint. -/
theorem StaleHigh.run {records : List (ℤ × Message)} {last : ℤ × Message} {database : Database}
    (hstale : StaleHigh job.tp job.name checkpoint world) (hlast : last.1 < (job.log world).stop)
    (hrun : (Work.materializeBatch job.tp records last.1).run job.settings.json world.database =
      .ok database) :
    StaleHigh job.tp job.name checkpoint (world.commit database) := by
  refine ⟨?_, hstale.2⟩
  have hbelow : last.1 < checkpoint := hlast.trans_le hstale.2
  rw [World.commit_database, checkpoint_of_run hrun, hstale.1,
    PartitionStateMachine.maxOffset_some, max_eq_left hbelow.le]

theorem stale_step (hnever : NeverGrows job.conditions job.name) {point after : Point}
    (hstep : Step job (point, world) (after, next)) (hpoint : Stale job checkpoint point world) :
    Stale job checkpoint after next := by
  cases hstep with
  | drift _ hdisturb =>
    cases point with
    | materializing leo rounds replay records last =>
      refine ⟨hpoint.1.drift hnever hdisturb, ?_⟩
      exact hpoint.2.trans_eq (hnever world.broker _ hdisturb).symm
    | revealing status =>
      cases status with
      | ready => trivial
      | _ => exact StaleHigh.drift hnever hpoint hdisturb
    | revealed status =>
      cases status with
      | ready => trivial
      | _ => exact StaleHigh.drift hnever hpoint hdisturb
    | _ => exact StaleHigh.drift hnever hpoint hdisturb
  | createTopic => exact hpoint
  | check => exact hpoint
  | enter => exact hpoint
  | skip _ => exact hpoint
  | seed =>
    refine ⟨by rw [World.seed_database]; exact hpoint.1, ?_⟩
    rw [World.seed_broker]
    exact hpoint.2
  | keepConsumer => exact hpoint
  | connect _ => exact hpoint
  | capture _ => exact hpoint
  | openCold => exact hpoint
  | openWarm _ => exact hpoint
  | idle _ hnothing =>
    obtain ⟨idlePolls, rfl⟩ := hnothing.exists_idlePolls
    exact hpoint
  | lose _ _ => exact hpoint
  | readStart => exact hpoint
  | reset => exact hpoint
  | fetch _ _ hfetches hlast =>
    obtain ⟨_, end', _, _, hbatch, hend, rfl⟩ := hfetches
    obtain rfl : _ = end' := Option.some.inj (hlast.symm.trans hend)
    exact ⟨hpoint, hbatch.last_lt_stop hlast⟩
  | materialize _ hrun => exact hpoint.1.run hpoint.2 hrun
  | goOn => exact hpoint
  | expire _ _ => exact hpoint
  | leave _ _ => trivial
  | leaveReset _ _ => exact hpoint
  | keep _ => trivial
  | aim _ => exact hpoint
  | clamp => trivial
  | @reveal status world =>
    cases status with
    | ready => trivial
    | _ => exact hpoint
  | keepUnreached => exact hpoint
  | captureUnreached _ => exact hpoint
  | seedUnreached =>
    refine ⟨by rw [World.onState_database, World.seed_database]; exact hpoint.1, ?_⟩
    change ((world.seed job.tp _).broker.changelogs job.name).stop ≤ checkpoint
    rw [World.seed_broker]
    exact hpoint.2

/-- A point that was reached without the partition being marked `READY` has the old checkpoint. -/
theorem Stale.staleHigh {point : Point} (hpoint : Stale job checkpoint point world)
    (hmarked : Marked job point world)
    (hstatus : world.memory.state.statusOf job.tp ≠ some .ready) :
    StaleHigh job.tp job.name checkpoint world := by
  cases point with
  | revealing status =>
    cases status with
    | ready => exact absurd hmarked hstatus
    | _ => exact hpoint
  | revealed status =>
    cases status with
    | ready => exact absurd hmarked.1 hstatus
    | _ => exact hpoint
  | materializing leo rounds replay records last => exact hpoint.1
  | _ => exact hpoint

/-- A rehydrate that does not mark its partition `READY` leaves a stale checkpoint as it is. -/
theorem stale_after_interruption {settings : Settings} {conditions : Conditions}
    {tp : TopicPartition} {name : String} {deadline : ℤ} {fuel : ℕ}
    (hnever : NeverGrows conditions name) (hstale : StaleHigh tp name checkpoint world) :
    Holds (environment settings conditions) (AtCall fun _ _ ↦ True)
      (fun _ interrupted ↦ interrupted.memory.state.statusOf tp ≠ some .ready →
        StaleHigh tp name checkpoint interrupted)
      (rehydrateOne settings fuel tp name deadline) world := by
  let job : Job := ⟨settings, conditions, tp, name, deadline, fuel⟩
  have hinvariant {point : Point} {between : World}
      (hreaches : Reaches job (.entered, world) (point, between))
      (hstatus : between.memory.state.statusOf tp ≠ some .ready) :
      StaleHigh tp name checkpoint between :=
    (hreaches.invariant (Stale job checkpoint) (stale_step hnever) hstale).staleHigh
      (hreaches.marked trivial) hstatus
  have hrefines := rehydrateOne_refines (.refl : Reaches job (.entered, world) (.entered, world))
  refine hrefines.mono (fun request between _ ↦ by cases request <;> trivial) ?_
  intro outcome interrupted hends hstatus
  cases outcome with
  | returned value =>
    obtain ⟨status, hreaches⟩ := hends
    exact hinvariant hreaches hstatus
  | raised error =>
    obtain ⟨point, hreaches, _⟩ := hends
    exact hinvariant hreaches hstatus
  | exhausted =>
    obtain ⟨leo, replay, hreaches, _⟩ := hends
    exact hinvariant hreaches hstatus

end Interrupted

/-! ### The later rehydrate -/

section Later

variable {job : Job} {checkpoint leo : ℤ} {later final : World}

/-- Once the whole log was read from its lower offset on, everything retained is present exactly
when it was recoverable. -/
theorem Scanned.retainedPresent_iff (hscanned : Scanned job later.database checkpoint final leo)
    (hlog : job.log final = job.log later) :
    RetainedPresent job.tp job.name final ↔ Recoverable job.name checkpoint later := by
  obtain ⟨hcaptured, hleo, lower, hlower, hholding⟩ := hscanned
  rw [hlog] at hlower hholding hleo
  constructor
  · intro hpresent
    rcases hlower with ⟨_, rfl⟩ | ⟨hpast, _⟩
    · refine Or.inr fun entry hentry hbelow messageId hid ↦ ?_
      have hlt : entry.1 < leo := hleo ▸ ((job.log later).bounded entry hentry).2
      obtain ⟨record, hrecord, rfl⟩ := messageIdOf_eq_some.mp hid
      have hentry' : entry ∈ (job.log final).entries := hlog ▸ hentry
      have hrow := hpresent leo hcaptured entry hentry' hlt record hrecord
      refine ((hholding _).mp hrow).imp_right ?_
      rintro ⟨other, hother, habove, _, hotherId⟩
      exact ⟨other, hother, by omega, hotherId⟩
    · exact Or.inl (Int.lt_add_one_iff.mp hpast)
  · intro hrecoverable captured hcaptured' entry hentry hlt record hrecord
    obtain rfl : captured = leo := Option.some.inj (hcaptured'.symm.trans hcaptured)
    have hmem : entry ∈ (job.log later).entries := hlog ▸ hentry
    have hid : messageIdOf entry = some record.messageId :=
      messageIdOf_eq_some.mpr ⟨record, hrecord, rfl⟩
    rw [hholding]
    by_cases habove : lower ≤ entry.1
    · exact Or.inr ⟨entry, hmem, habove, hlt, hid⟩
    · rcases hlower with ⟨hrange, rfl⟩ | ⟨_, rfl⟩
      · have hend : (job.log later).stop = (later.broker.changelogs job.name).stop := rfl
        have hkept := hrecoverable.resolve_left (by have := hrange.2; omega)
        refine (hkept entry hmem (by omega) _ hid).imp_right ?_
        rintro ⟨other, hother, hbeyond, hotherId⟩
        have hotherEnd := ((job.log later).bounded other hother).2
        exact ⟨other, hother, by omega, by omega, hotherId⟩
      · exact absurd ((job.log later).bounded entry hmem).1 habove

/-- Growth leaves the checkpoint where it is, inside the log or past its end. -/
theorem scanning_of_grown {interrupted : World}
    (hstale : StaleHigh job.tp job.name checkpoint interrupted)
    (hgrown : Grown job.tp job.name interrupted later) :
    Scanning job later.database checkpoint .entered later := by
  obtain ⟨_, hcheckpoint, messages, hmessages⟩ := hgrown
  refine ⟨hcheckpoint.trans hstale.1, rfl, ?_⟩
  have hstart := (interrupted.broker.changelogs job.name).start_le_stop
  have hend := hstale.2
  unfold Job.log
  rw [hmessages, OffsetLog.extend_start]
  omega

end Later

/-- After a rehydrate of a log that ends at or below the persisted checkpoint was interrupted, and
whatever was appended since, a later uninterrupted rehydrate that ends `READY` leaves every
retained KSQLite record present exactly when the log still ends at or below that checkpoint, or
nothing at or below it is missing.
Assumes: nobody appends to the log during the interrupted rehydrate. -/
theorem recovers_iff {settings : Settings} {first second : Conditions} {tp : TopicPartition}
    {name : String} {fuel rounds : ℕ} {deadline timeout checkpoint : ℤ} {world : World}
    (hnever : NeverGrows first name) (hsecond : Uninterrupted second)
    (hstale : StaleHigh tp name checkpoint world) :
    Holds (environment settings first) (AtCall fun _ _ ↦ True)
      (fun _ ↦ AfterInterruption settings second tp name rounds timeout
        fun later final ↦ RetainedPresent tp name final ↔ Recoverable name checkpoint later)
      (rehydrateOne settings fuel tp name deadline) world := by
  refine (stale_after_interruption hnever hstale).mono (fun _ _ hmoment ↦ hmoment) ?_
  intro _ interrupted hkept hstatus later hgrown
  let job : Job := ⟨settings, second, tp, name, timeout, rounds⟩
  have hstart : Scanning job later.database checkpoint .entered later :=
    scanning_of_grown (hkept hstatus) hgrown
  have hrefines := rehydrateOne_refines (.refl : Reaches job (.entered, later) (.entered, later))
  refine hrefines.mono (fun request between _ ↦ by cases request <;> trivial) ?_
  intro outcome final hends hreturned hready
  subst hreturned
  obtain ⟨status, hreaches⟩ := hends
  have hmarked : final.memory.state.statusOf tp = some status := (hreaches.marked trivial).1
  obtain rfl : status = .ready := Option.some.inj (hmarked.symm.trans hready)
  obtain ⟨leo, hscanned⟩ : ∃ leo, Scanned job later.database checkpoint final leo :=
    hreaches.invariant (Scanning job later.database checkpoint) (scanning_step hsecond) hstart
  exact hscanned.retainedPresent_iff (hreaches.log_eq hsecond.frozen)

/-! ### An instance and a failure -/

/-- A database that applied a changelog up to offset one. -/
def appliedToOne : Database where
  records := [⟨Sample.third.messageId, Sample.orders, 1, Sample.third.entityKey,
    Sample.third.payload⟩]
  unique := List.nodup_singleton _
  checkpoint := Function.update (fun _ ↦ none) Sample.orders (some 1)
  owned := ∅

/-- The changelog was created anew and holds one record. -/
def shrunk : World := Sample.world appliedToOne (Sample.broker (Sample.log [Sample.first]) none)

theorem shrunk_staleHigh : StaleHigh Sample.orders Sample.changelog 1 shrunk := by
  refine ⟨by simp [shrunk, Sample.world, appliedToOne], ?_⟩
  have hlog : shrunk.broker.changelogs Sample.changelog = Sample.log [Sample.first] :=
    Sample.broker_changelogs _ _
  rw [hlog]
  decide

/-- A store whose changelog was created anew, while any call of the first rehydrate may fail. -/
theorem recovers_iff_sample :
    Holds (environment Sample.settings Sample.trimming) (AtCall fun _ _ ↦ True)
      (fun _ ↦ AfterInterruption Sample.settings Sample.calm Sample.orders Sample.changelog 9 30
        fun later final ↦ RetainedPresent Sample.orders Sample.changelog final ↔
          Recoverable Sample.changelog 1 later)
      (rehydrateOne Sample.settings 9 Sample.orders Sample.changelog 30) shrunk := by
  refine recovers_iff ?_ ⟨fun _ _ hdisturb ↦ hdisturb, fun _ _ hfails ↦ hfails⟩ shrunk_staleHigh
  rintro broker _ ⟨bound, rfl⟩
  change (Function.update broker.changelogs _ _ Sample.changelog).stop = _
  rw [Function.update_self]
  rfl

/-- A rehydrate that is interrupted after its reset, and the growth of the log past the stale
checkpoint, keep the records below it from ever being read. -/
theorem not_recovered_shrunk :
    ¬ Holds (environment Sample.settings Sample.calm) (AtCall fun _ _ ↦ True)
      (fun _ ↦ AfterInterruption Sample.settings Sample.calm Sample.orders Sample.changelog 9 30
        fun _ final ↦ RetainedPresent Sample.orders Sample.changelog final)
      (rehydrateOne Sample.settings 9 Sample.orders Sample.changelog 30) shrunk := by
  intro hrehydrate
  have hcheckpoint : shrunk.database.checkpoint Sample.orders = some 1 := shrunk_staleHigh.1
  have hlog : shrunk.broker.changelogs Sample.changelog = Sample.log [Sample.first] :=
    Sample.broker_changelogs _ _
  obtain ⟨opened, hdatabase, hbroker, _, hfetch, hloop⟩ :=
    exists_opened (by simp [hcheckpoint]) hrehydrate
  rw [hlog, hcheckpoint] at hfetch hloop
  have hout : OutOfRange opened Sample.changelog := by
    refine ⟨2, hfetch, ?_⟩
    rw [hbroker, hlog]
    decide
  have hshows : Sample.calm.shows 30 := trivial
  obtain ⟨memory, hstatus, hafter⟩ := post_of_lost (by decide) hout hshows le_rfl hloop
  -- The second record is appended before the next rehydrate.
  let later : World :=
    { opened with
      memory := memory
      database := opened.database.insertOwned Sample.orders
      broker := Sample.broker (Sample.log [Sample.first, Sample.second]) none }
  have hlater : later.broker.changelogs Sample.changelog =
      Sample.log [Sample.first, Sample.second] := Sample.broker_changelogs _ _
  have hgrown : (later.broker.changelogs Sample.changelog) =
      (opened.broker.changelogs Sample.changelog).extend [Sample.second.message] := by
    rw [hlater, hbroker, hlog]
    rfl
  have hstored : later.database.checkpoint Sample.orders = some 1 := by
    change opened.database.checkpoint Sample.orders = some 1
    rw [hdatabase, hcheckpoint]
  have hnext := hafter (by simp [hstatus]) later ⟨rfl, rfl, _, hgrown⟩
  obtain ⟨resumed, hresumed, hresumedBroker, hleo, _, hresumedLoop⟩ :=
    exists_opened (by simp [hstored]) hnext
  rw [hlater] at hleo hresumedLoop
  rw [hstored] at hresumedLoop
  have hpresent := post_of_caughtUp hresumedLoop rfl (by simp [PartitionStateMachine.markReady])
  have hentry : ((0 : ℤ), Sample.first.message) ∈
      (Sample.log [Sample.first, Sample.second]).entries := List.mem_cons_self
  have hfirst := hpresent _ (by simpa [PartitionStateMachine.markReady] using hleo)
    (0, Sample.first.message)
    (by simpa [World.commit, World.onState, hresumedBroker, hlater] using hentry) (by decide)
    Sample.first (Sample.ksqliteOf_message (by simp))
  have hrecords : resumed.database.records = appliedToOne.records := by
    rw [hresumed]
    change opened.database.records = _
    rw [hdatabase]
    rfl
  rw [World.commit_database, Database.insertOwned_records, hrecords] at hfirst
  exact absurd hfirst (by decide)

end KSQLite.Rehydrate
