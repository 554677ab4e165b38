import KSQLite.Rehydrate.Completion

/-!
# A rehydrate of a growing log

While others append to the changelog, a rehydrate should stop polling and end `READY` once every
record below the captured log end is committed (`StopsWhenCommitted`, `EndsWhenCommitted`). It does
so as long as no fetch returns a record at or past the captured log end
(`stops_when_committed`). A fetch that goes past it takes the position past the log end for good:
the loop goes on, and at the deadline the partition ends `READY_PARTIAL`
(`not_stops_when_fetched_past`).
-/

set_option autoImplicit false
set_option relaxedAutoImplicit false

namespace KSQLite.Rehydrate

open KSQLite.Log KSQLite.Suspension KSQLite.Store

/-- Others only append to a changelog. -/
def AppendsOnly (conditions : Conditions) (name : String) : Prop :=
  ∀ broker next, conditions.disturbs broker next →
    ∃ messages, next.changelogs name = (broker.changelogs name).extend messages

/-- No fetch returns a record at or past the log end captured for a partition. -/
def FetchesBelowLogEnd (conditions : Conditions) (tp : TopicPartition) : Prop :=
  ∀ world batch, conditions.serves world batch →
    ∀ leo, world.memory.state.logEndOf tp = some leo → ∀ entry ∈ batch, entry.1 < leo

/-- The log holds a record right before its end. -/
def LastHeld (log : OffsetLog Message) : Prop := ∃ message, (log.stop - 1, message) ∈ log.entries

/-- The next offset to replay is the log end, or below it with a record right before the end. -/
def Resumable (next : ℤ) (log : OffsetLog Message) : Prop :=
  next = log.stop ∨ next < log.stop ∧ LastHeld log

/-- Every record below the captured log end lies below the next offset to replay. -/
def AllCommitted (tp : TopicPartition) (name : String) (world : World) : Prop :=
  ∃ leo, world.memory.state.logEndOf tp = some leo ∧
    ∀ entry ∈ (world.broker.changelogs name).entries, entry.1 < leo →
      entry.1 < PartitionStateMachine.nextOffset (world.database.checkpoint tp)

/-- Once everything is committed, nothing is fetched, and the partition is revealed as `READY`. -/
def StopsWhenCommitted (tp : TopicPartition) (name : String) (call : Call) (world : World) :
    Prop :=
  AllCommitted tp name world → (∀ limit, call ≠ .getmany name limit) ∧
    (call = .transaction (.ownedInsert tp) → world.memory.state.statusOf tp = some .ready)

/-- With everything committed, a rehydrate does not run out of rounds, and if it returns, then as
`READY`. -/
def EndsWhenCommitted (tp : TopicPartition) (name : String) (outcome : Outcome Error Unit)
    (world : World) : Prop :=
  AllCommitted tp name world → outcome ≠ .exhausted ∧
    (outcome = .returned () → world.memory.state.statusOf tp = some .ready)

/-! ### The invariant -/

/-- The captured log end is ahead of the next offset to replay, with a record right before it. -/
def Behind (job : Job) (world : World) (leo : ℤ) : Prop :=
  world.memory.state.logEndOf job.tp = some leo ∧
    PartitionStateMachine.nextOffset (world.database.checkpoint job.tp) < leo ∧
    ∃ message, (leo - 1, message) ∈ (job.log world).entries

/-- What holds at each point while others append. -/
def Growing (job : Job) : Point → World → Prop
  | .entered, world =>
    Resumable (PartitionStateMachine.nextOffset (world.database.checkpoint job.tp)) (job.log world)
  | .seeded checkpoint, world | .connected checkpoint, world =>
    checkpoint = world.database.checkpoint job.tp ∧
      Resumable (PartitionStateMachine.nextOffset checkpoint) (job.log world)
  | .opened checkpoint leo, world =>
    checkpoint = world.database.checkpoint job.tp ∧
      (PartitionStateMachine.nextOffset checkpoint = leo ∨ Behind job world leo)
  | .polling leo _ replay, world => replay.position = leo ∨ Behind job world leo
  | .resetting leo _ _, world | .seeking leo _ _, world => Behind job world leo
  | .materializing leo _ _ _ last, world => last.1 < leo ∧ Behind job world leo
  | .deciding leo _ replay, world =>
    replay.position = leo ∧ 0 < replay.replayedAfterReset ∨ Behind job world leo
  | .clamping _ _, _ | .clampingTo _ _, _ => True
  | .revealing status, world | .revealed status, world =>
    status = .ready ∨ ∃ leo, Behind job world leo
  | .checking, _ | .unreached, _ | .captured, _ => False

section Growth

variable {job : Job} {world next : World} {leo : ℤ}

/-- An append to a log that is resumed from keeps it so, if the next offset was its end or below
it: the new record is then right before the end. -/
theorem Resumable.extend {offset : ℤ} {log : OffsetLog Message} (hresumable : Resumable offset log)
    (messages : List Message) : Resumable offset (log.extend messages) := by
  induction messages generalizing log with
  | nil => exact hresumable
  | cons message rest ih =>
    have hheld : LastHeld (log.push message) := by
      refine ⟨message, List.mem_append_right _ (List.mem_singleton.mpr ?_)⟩
      rw [show (log.push message).stop - 1 = log.stop from add_sub_cancel_right _ _]
    have hbelow : offset < (log.push message).stop := by
      have hoffset : offset ≤ log.stop := by
        rcases hresumable with hend | hbefore
        · exact hend.le
        · exact hbefore.1.le
      exact Int.lt_add_one_iff.mpr hoffset
    exact ih (Or.inr ⟨hbelow, hheld⟩)

theorem Resumable.drift {offset : ℤ} {broker : Broker}
    (happends : AppendsOnly job.conditions job.name) (hresumable : Resumable offset (job.log world))
    (hdisturb : job.conditions.disturbs world.broker broker) :
    Resumable offset (job.log (world.drift broker)) := by
  obtain ⟨messages, hmessages⟩ := happends world.broker broker hdisturb
  change Resumable offset (broker.changelogs job.name)
  rw [hmessages]
  exact hresumable.extend messages

theorem Behind.drift {broker : Broker} (happends : AppendsOnly job.conditions job.name)
    (hbehind : Behind job world leo) (hdisturb : job.conditions.disturbs world.broker broker) :
    Behind job (world.drift broker) leo := by
  obtain ⟨messages, hmessages⟩ := happends world.broker broker hdisturb
  obtain ⟨hleo, hnext, message, hmessage⟩ := hbehind
  refine ⟨hleo, hnext, message, ?_⟩
  change (leo - 1, message) ∈ (broker.changelogs job.name).entries
  rw [hmessages]
  exact OffsetLog.mem_extend_of_mem hmessage

/-- A log end that is ahead has a record that is not committed. -/
theorem Behind.not_allCommitted (hbehind : Behind job world leo) :
    ¬ AllCommitted job.tp job.name world := by
  rintro ⟨captured, hcaptured, hcommitted⟩
  obtain ⟨hleo, hnext, message, hmessage⟩ := hbehind
  obtain rfl : captured = leo := Option.some.inj (hcaptured.symm.trans hleo)
  have hlast := hcommitted _ hmessage (by omega)
  change captured - 1 < _ at hlast
  omega

/-- A batch that ends before the captured log end leaves it ahead, one that ends there reaches
it. -/
theorem growing_of_materializing {rounds : ℕ} {replay : Replay} {records : List (ℤ × Message)}
    {last : ℤ × Message} {database : Database} (hlast : records.getLast? = some last)
    (hpoint : Growing job (.materializing leo rounds replay records last) world)
    (hrun : (Work.materializeBatch job.tp records last.1).run job.settings.json world.database =
      .ok database) :
    Growing job (.deciding leo rounds (replay.advance records.length last.1))
      ((world.commit database).onState (·.recordApplied job.tp last.1)) := by
  obtain ⟨hbelow, hleo, hnext, hheld⟩ := hpoint
  by_cases hend : last.1 + 1 = leo
  · have hpositive : 0 < records.length :=
      List.length_pos_of_mem (List.mem_of_getLast? hlast)
    exact Or.inl ⟨hend, Nat.add_pos_right _ hpositive⟩
  · refine Or.inr ⟨by simpa using hleo, ?_, hheld⟩
    change PartitionStateMachine.nextOffset (database.checkpoint job.tp) < leo
    rw [checkpoint_of_run hrun]
    rcases PartitionStateMachine.nextOffset_maxOffset (world.database.checkpoint job.tp) last.1
      with hold | hnew
    · rwa [hold]
    · rw [hnew]
      omega

/-- What holds at a point goes on to hold while a call is pending. -/
theorem Growing.drift {point : Point} {broker : Broker}
    (happends : AppendsOnly job.conditions job.name) (hpoint : Growing job point world)
    (hdisturb : job.conditions.disturbs world.broker broker) :
    Growing job point (world.drift broker) := by
  cases point with
  | entered => exact Resumable.drift happends hpoint hdisturb
  | seeded checkpoint => exact ⟨hpoint.1, hpoint.2.drift happends hdisturb⟩
  | connected checkpoint => exact ⟨hpoint.1, hpoint.2.drift happends hdisturb⟩
  | opened checkpoint leo => exact ⟨hpoint.1, hpoint.2.imp_right (·.drift happends hdisturb)⟩
  | polling leo rounds replay => exact hpoint.imp_right (·.drift happends hdisturb)
  | resetting leo rounds replay => exact Behind.drift happends hpoint hdisturb
  | seeking leo rounds replay => exact Behind.drift happends hpoint hdisturb
  | materializing leo rounds replay records last =>
    exact ⟨hpoint.1, hpoint.2.drift happends hdisturb⟩
  | deciding leo rounds replay => exact hpoint.imp_right (·.drift happends hdisturb)
  | clamping leo replay => trivial
  | clampingTo leo target => trivial
  | revealing status =>
    exact hpoint.imp_right fun ⟨leo, hbehind⟩ ↦ ⟨leo, hbehind.drift happends hdisturb⟩
  | revealed status =>
    exact hpoint.imp_right fun ⟨leo, hbehind⟩ ↦ ⟨leo, hbehind.drift happends hdisturb⟩
  | checking => exact hpoint.elim
  | unreached => exact hpoint.elim
  | captured => exact hpoint.elim

/-- Every step keeps the invariant, as long as others only append and no fetch goes past the
captured log end. -/
theorem growing_step (happends : AppendsOnly job.conditions job.name)
    (hfetches : FetchesBelowLogEnd job.conditions job.tp) {point after : Point}
    (hstep : Step job (point, world) (after, next)) (hpoint : Growing job point world) :
    Growing job after next := by
  cases hstep with
  | drift _ hdisturb => exact hpoint.drift happends hdisturb
  | createTopic => exact hpoint.elim
  | check => exact hpoint.elim
  | enter => exact hpoint.elim
  | skip _ => exact hpoint.elim
  | seed =>
    refine ⟨by rw [World.seed_database], ?_⟩
    unfold Job.log
    rw [World.seed_broker]
    exact hpoint
  | keepConsumer => exact hpoint
  | connect _ => exact hpoint
  | capture hleo =>
    obtain ⟨rfl, hresumable⟩ := hpoint
    refine ⟨rfl, hresumable.imp (fun hend ↦ hend.trans hleo.symm) ?_⟩
    rintro ⟨hbefore, message, hmessage⟩
    exact ⟨World.capture_logEndOf, hleo ▸ hbefore, message, hleo ▸ hmessage⟩
  | openCold => exact hpoint.2
  | openWarm _ => exact hpoint.2
  | idle hposition hnothing =>
    obtain ⟨idlePolls, rfl⟩ := hnothing.exists_idlePolls
    exact Or.inr (hpoint.resolve_left hposition)
  | lose hposition _ => exact hpoint.resolve_left hposition
  | readStart => exact hpoint
  | reset => exact Or.inr hpoint
  | fetch hposition hserves hfetched hlast =>
    have hbehind := hpoint.resolve_left hposition
    have hbelow := hfetches world _ hserves _ hbehind.1 _ (List.mem_of_getLast? hlast)
    obtain ⟨_, _, _, _, _, _, rfl⟩ := hfetched
    exact ⟨hbelow, hbehind⟩
  | materialize hlast hrun => exact growing_of_materializing hlast hpoint hrun
  | goOn => exact hpoint.imp_left And.left
  | expire _ hend =>
    obtain ⟨hleo, hbehind⟩ := hpoint.resolve_left fun ⟨hposition, hpositive⟩ ↦
      hpositive.ne' (hend hposition)
    exact Or.inr ⟨_, by simpa [PartitionStateMachine.markReadyPartial] using hleo, hbehind⟩
  | leave _ _ => exact Or.inl rfl
  | leaveReset _ _ => trivial
  | keep _ => exact Or.inl rfl
  | aim _ => trivial
  | clamp => exact Or.inl rfl
  | reveal => exact hpoint
  | keepUnreached => exact hpoint.elim
  | captureUnreached _ => exact hpoint.elim
  | seedUnreached => exact hpoint.elim

end Growth

/-- Once every record below the captured log end is committed, a rehydrate of a growing log fetches
nothing more, does not run out of rounds, and if it returns, then as `READY`.
Assumes: others only append, no fetch returns a record at or past the captured log end, and the
next offset to replay is the log end, or below it with a record right before the end. -/
theorem stops_when_committed {settings : Settings} {conditions : Conditions} {tp : TopicPartition}
    {name : String} {deadline : ℤ} {fuel : ℕ} {world : World}
    (happends : AppendsOnly conditions name) (hfetches : FetchesBelowLogEnd conditions tp)
    (hresumable : Resumable (PartitionStateMachine.nextOffset (world.database.checkpoint tp))
      (world.broker.changelogs name)) :
    Holds (environment settings conditions) (AtCall (StopsWhenCommitted tp name))
      (EndsWhenCommitted tp name) (rehydrateOne settings fuel tp name deadline) world := by
  let job : Job := ⟨settings, conditions, tp, name, deadline, fuel⟩
  have hgrowing {state : Point × World} (hreaches : Reaches job (.entered, world) state) :
      Growing job state.1 state.2 :=
    hreaches.invariant (Growing job) (growing_step happends hfetches) hresumable
  have hrefines := rehydrateOne_refines (.refl : Reaches job (.entered, world) (.entered, world))
  refine hrefines.mono ?_ ?_
  · intro request between hmoment
    cases request with
    | call call =>
      obtain ⟨point, hreaches, hawaits⟩ := hmoment
      intro hcommitted
      constructor
      · rintro limit rfl
        cases hawaits with
        | poll hposition =>
          have hbehind := (hgrowing hreaches).resolve_left hposition
          exact hbehind.not_allCommitted hcommitted
      · rintro rfl
        obtain ⟨status, rfl⟩ := eq_revealing_of_awaits hawaits
        have hstatus : between.memory.state.statusOf tp = some status := hreaches.marked trivial
        rcases hgrowing hreaches with rfl | ⟨leo, hbehind⟩
        · exact hstatus
        · exact absurd hcommitted hbehind.not_allCommitted
    | _ => trivial
  · intro outcome final hends hcommitted
    cases outcome with
    | returned value =>
      refine ⟨by simp, fun _ ↦ ?_⟩
      obtain ⟨status, hreaches⟩ := hends
      have hstatus : final.memory.state.statusOf tp = some status := (hreaches.marked trivial).1
      rcases hgrowing hreaches with rfl | ⟨leo, hbehind⟩
      · exact hstatus
      · exact absurd hcommitted hbehind.not_allCommitted
    | raised error => exact ⟨by simp, by simp⟩
    | exhausted =>
      obtain ⟨leo, replay, hreaches, hposition⟩ := hends
      have hbehind := (hgrowing hreaches).resolve_left hposition
      exact absurd hcommitted hbehind.not_allCommitted

/-- Others append to the changelog, and no fetch returns what lies at or past the log end captured
for the partition. -/
def appending : Conditions where
  disturbs := fun before after ↦ ∃ message, after = before.push Sample.changelog message
  fails := fun _ _ ↦ True
  serves := fun world batch ↦ ∀ leo, world.memory.state.logEndOf Sample.orders = some leo →
    ∀ entry ∈ batch, entry.1 < leo
  shows := fun _ ↦ True

/-- A cold start on two records while others append. -/
theorem stops_when_committed_sample :
    Holds (environment Sample.settings appending)
      (AtCall (StopsWhenCommitted Sample.orders Sample.changelog))
      (EndsWhenCommitted Sample.orders Sample.changelog)
      (rehydrateOne Sample.settings 9 Sample.orders Sample.changelog 30) unread := by
  refine stops_when_committed ?_ (fun _ _ hserves ↦ hserves) ?_
  · rintro broker _ ⟨message, rfl⟩
    exact ⟨[message], by simp [Broker.push]⟩
  · have hlog : unread.broker.changelogs Sample.changelog =
        Sample.log [Sample.first, Sample.second] := Sample.broker_changelogs _ _
    rw [hlog]
    refine Or.inr ⟨by decide, Sample.second.message, ?_⟩
    exact List.mem_cons_of_mem _ (List.mem_singleton.mpr rfl)

/-! ### A fetch past the captured log end -/

section Past

variable {settings : Settings} {conditions : Conditions} {tp : TopicPartition} {name : String}
  {world : World} {leo deadline : ℤ} {fuel : ℕ} {replay : Replay} {records : List (ℤ × Message)}
  {last : ℤ × Message}

/-- A batch that ends past the captured log end is committed, and at the deadline the partition
is about to be revealed as `READY_PARTIAL`. -/
theorem not_stops_when_fetched_past {next : World} {broker : Broker} {reading : ℤ}
    {post : Outcome Error (Option Replay) → World → Prop}
    (hleo : world.memory.state.logEndOf tp = some leo) (hposition : replay.position ≠ leo)
    (hdrifts : Drifts conditions world.broker broker)
    (hserves : conditions.serves (world.drift broker) records)
    (hfetches : Fetches (world.drift broker) name settings.batchSize records next)
    (hlast : records.getLast? = some last) (hpast : leo ≤ last.1)
    (hreplayable : ∀ entry ∈ records, Replayable settings.json entry.2)
    (hshows : conditions.shows reading) (hdeadline : deadline ≤ reading) :
    ¬ Holds (environment settings conditions) (AtCall (StopsWhenCommitted tp name)) post
      (Program.iterate (fuel + 1) (caughtUp leo) (pollOnce settings tp name leo deadline) replay)
      world := by
  intro hloop
  have hguard : caughtUp leo replay = none := if_neg hposition
  unfold Program.iterate at hloop
  rw [hguard] at hloop
  have hsettles : Settles conditions (.getmany name settings.batchSize) world.broker broker :=
    (settles_iff_drifts (by simp)).mpr hdrifts
  have hround := holds_attempt.mp (holds_bind.mp (holds_bind.mp hloop)) broker hsettles
  have hfetched := sequel_returned.mp (hround.2.2 records next (Or.inr ⟨hserves, hfetches⟩))
  dsimp only at hfetched
  rw [hlast] at hfetched
  have hruns : Succeeds settings conditions next
      (.transaction (.materializeBatch tp records last.1)) ()
      (next.commit ((next.database.insertRows (records.filterMap
        (rowOf settings.json tp))).upsertCheckpoint
        tp last.1)) :=
    ⟨_, run_materializeBatch_eq_ok.mpr ⟨hreplayable, rfl⟩, rfl⟩
  have hcommitted := sequel_returned.mp
    (holds_result (holds_bind.mp (holds_bind.mp hfetched)) hruns)
  have happlied := sequel_returned.mp (holds_rememberState.mp hcommitted)
  have hbeyond : (replay.advance records.length last.1).position ≠ leo := by
    change last.1 + 1 ≠ leo
    omega
  change Holds _ _ _ (if (replay.advance records.length last.1).position ≠ leo then _ else _) _
    at happlied
  rw [if_pos hbeyond] at happlied
  have hclock := sequel_returned.mp (holds_clock.mp (holds_bind.mp happlied) reading hshows)
  rw [if_pos hdeadline] at hclock
  have hmarked := sequel_returned.mp
    (holds_rememberState.mp (holds_bind.mp (holds_bind.mp hclock)))
  -- The reveal is pending, with everything committed and the status READY_PARTIAL.
  have hpending := (holds_perform.mp hmarked _ .refl).1
  obtain ⟨_, _, _, _, _, _, rfl⟩ := hfetches
  have hready := (hpending ⟨leo, ?_, fun entry _ hlt ↦ ?_⟩).2 rfl
  · simp [World.drift, PartitionStateMachine.markReadyPartial] at hready
  · simpa [World.drift, PartitionStateMachine.markReadyPartial] using hleo
  · have hnext := PartitionStateMachine.lt_nextOffset_maxOffset
      (world.database.checkpoint tp) last.1
    simp only [World.drift, World.onState_database, World.commit_database,
      Database.upsertCheckpoint, Database.setCheckpoint_checkpoint_self,
      Database.insertRows_checkpoint]
    omega

end Past

/-- Others append the second record to the changelog, and nothing fails. -/
def growing : Conditions where
  disturbs := fun before after ↦ after = before.push Sample.changelog Sample.second.message
  fails := fun _ _ ↦ False
  serves := fun _ _ ↦ True
  shows := fun _ ↦ True

/-- A store without a checkpoint, with one record to replay and no idle polls. -/
def oneUnread : World := Sample.world .empty (Sample.broker (Sample.log [Sample.first]) (some 0))

/-- A record that is appended after the log end was captured and fetched with the one before it
keeps the rehydrate from ending `READY`. -/
theorem not_stops_when_growing :
    AppendsOnly growing Sample.changelog ∧
      Resumable (PartitionStateMachine.nextOffset (oneUnread.database.checkpoint Sample.orders))
        (oneUnread.broker.changelogs Sample.changelog) ∧
      ¬ Holds (environment Sample.settings growing)
        (AtCall (StopsWhenCommitted Sample.orders Sample.changelog))
        (EndsWhenCommitted Sample.orders Sample.changelog)
        (rehydrateOne Sample.settings 9 Sample.orders Sample.changelog 30) oneUnread := by
  have hlog : oneUnread.broker.changelogs Sample.changelog = Sample.log [Sample.first] :=
    Sample.broker_changelogs _ _
  refine ⟨?_, ?_, fun hrehydrate ↦ ?_⟩
  · rintro broker _ rfl
    exact ⟨[Sample.second.message], by simp [Broker.push]⟩
  · rw [hlog]
    exact Or.inr ⟨by decide, Sample.first.message, List.mem_singleton.mpr rfl⟩
  · have hnone : oneUnread.database.checkpoint Sample.orders = none := rfl
    obtain ⟨opened, _, hbroker, hleo, hfetch, hloop⟩ := exists_opened (by simp [hnone]) hrehydrate
    rw [hlog] at hleo hfetch hloop
    let grown := oneUnread.broker.push Sample.changelog Sample.second.message
    have hgrown : grown.changelogs Sample.changelog = Sample.log [Sample.first, Sample.second] := by
      simp only [grown, Broker.push, hlog, Function.update_self]
      rfl
    have hdrifts : Drifts growing opened.broker grown := by
      rw [hbroker]
      exact .single rfl
    have hbatch : (grown.changelogs Sample.changelog).IsBatch 0 2
        [(0, Sample.first.message), (1, Sample.second.message)] := by
      rw [hgrown]
      exact ⟨by simp, le_refl 2, List.prefix_rfl⟩
    have hrange : (grown.changelogs Sample.changelog).InRange 0 := by
      rw [hgrown]
      decide
    have hfetches : Fetches (opened.drift grown) Sample.changelog 2
        [(0, Sample.first.message), (1, Sample.second.message)] _ :=
      ⟨0, _, hfetch, hrange, hbatch, rfl, rfl⟩
    have hshows : growing.shows 30 := trivial
    have hreplayable : ∀ entry ∈ [((0 : ℤ), Sample.first.message), (1, Sample.second.message)],
        Replayable Sample.settings.json entry.2 := by
      intro entry hentry
      have hmem := (hbatch.mem hentry).1
      rw [hgrown] at hmem
      exact Sample.replayable_log (by simp) entry hmem
    exact not_stops_when_fetched_past hleo (by decide) hdrifts trivial hfetches rfl (by decide)
      hreplayable hshows le_rfl hloop

end KSQLite.Rehydrate
