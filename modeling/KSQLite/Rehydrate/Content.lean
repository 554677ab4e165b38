import KSQLite.Rehydrate.Completion
import KSQLite.Rehydrate.Frozen
import KSQLite.Rehydrate.Passing

/-!
# Records of any content

What a rehydrate makes of a changelog whose records carry any bytes. When the surroundings are
undisturbed, a record it fetches is foreign, or a KSQLite record whose payload is well-formed JSON,
or one whose payload is not: the last kind fails the transaction of every batch that holds it. From
any checkpoint and however the log is cut into batches the rehydrate gets past every record
(`GetsPast`) exactly when the changelog holds no record of the last kind (`gets_past_iff`).
-/

set_option autoImplicit false
set_option relaxedAutoImplicit false

namespace KSQLite.Rehydrate

open KSQLite.Log KSQLite.Suspension KSQLite.Store

/-- Nobody touches the broker and no call fails, but a fetch may return any batch and the clock
may show anything. -/
def undisturbed : Conditions where
  disturbs := fun _ _ ↦ False
  fails := fun _ _ ↦ False
  serves := fun _ _ ↦ True
  shows := fun _ ↦ True

/-- The offset a rehydrate replays from: that after its checkpoint, or the start of the log when
the consumer would stand out of range there. -/
def resumeOffset (log : OffsetLog Message) (checkpoint : Option ℤ) : ℤ :=
  if log.InRange (placement log checkpoint) then placement log checkpoint else log.start

theorem start_le_resumeOffset (log : OffsetLog Message) (checkpoint : Option ℤ) :
    log.start ≤ resumeOffset log checkpoint := by
  unfold resumeOffset
  split_ifs with hrange
  · exact hrange.1
  · exact le_refl _

/-- A record was skipped as foreign or applied. -/
def SkippedOrApplied (database : Database) (message : Message) : Prop :=
  (∃ reason, classify message = .foreign reason) ∨
    ∃ record, classify message = .ksqlite record ∧
      record.messageId ∈ database.records.map Row.messageId

/-- No record is ours in a format this reader does not understand. -/
def VersionsKnown (log : OffsetLog Message) : Prop :=
  ∀ entry ∈ log.entries, ∀ messageId version,
    classify entry.2 ≠ .unknownVersion messageId version

/-- SQLite takes the payload of every KSQLite record for well-formed JSON. -/
def PayloadsWellFormed (json : String → Option String) (log : OffsetLog Message) : Prop :=
  ∀ entry ∈ log.entries, ∀ record, ksqliteOf entry.2 = some record →
    (json record.payload).isSome

/-- A rehydrate from a world that did not raise, and that skipped or applied every record from its
resume offset on and left the checkpoint past every record when it ended `READY`. -/
def GotPast (tp : TopicPartition) (log : OffsetLog Message) (checkpoint : Option ℤ) :
    Outcome Error Unit → World → Prop
  | .returned _, final =>
    final.memory.state.statusOf tp = some .ready →
      (∀ entry ∈ log.entries, resumeOffset log checkpoint ≤ entry.1 →
        SkippedOrApplied final.database entry.2) ∧
      ∀ entry ∈ log.entries,
        entry.1 < PartitionStateMachine.nextOffset (final.database.checkpoint tp)
  | .raised _, _ => False
  | .exhausted, _ => True

/-- Whatever batches a changelog is cut into and whatever the clock shows, a rehydrate gets past
its records; and before the deadline it completes, if the log has no gaps and idle polls are
bounded. -/
structure GetsPast (settings : Settings) (tp : TopicPartition) (name : String) (world : World) :
    Prop where
  replays : ∀ deadline fuel,
    Holds (environment settings undisturbed) (AtCall fun _ _ ↦ True)
      (GotPast tp (world.broker.changelogs name) (world.database.checkpoint tp))
      (rehydrateOne settings fuel tp name deadline) world
  completes : ∀ deadline, (world.broker.changelogs name).Dense → world.broker.idlePolls.isSome →
    ¬ TrimmedColdStart (world.database.checkpoint tp) (world.broker.changelogs name) →
    CompletesWithin settings tp name deadline (pollBound world.broker name) world

/-- A record of a known version is skipped or applied when it is present. -/
theorem skippedOrApplied_of_present {log : OffsetLog Message} {database : Database}
    {entry : ℤ × Message} (hversions : VersionsKnown log) (hentry : entry ∈ log.entries)
    (hpresent : Present database entry) : SkippedOrApplied database entry.2 := by
  cases hclassify : classify entry.2 with
  | ksqlite record =>
    exact Or.inr ⟨record, hclassify, hpresent record (ksqliteOf_eq_some.mpr hclassify)⟩
  | unknownVersion messageId version => exact absurd hclassify (hversions entry hentry _ _)
  | foreign reason => exact Or.inl ⟨reason, hclassify⟩

/-- A batch gets past every record of a known version and well-formed payload. -/
theorem replayable_of_wellFormed {json : String → Option String} {log : OffsetLog Message}
    (hversions : VersionsKnown log) (hpayloads : PayloadsWellFormed json log) :
    ∀ entry ∈ log.entries, Replayable json entry.2 := by
  intro entry hentry
  cases hclassify : classify entry.2 with
  | ksqlite record =>
    exact Or.inr ⟨record, hclassify, hpayloads entry hentry record
      (ksqliteOf_eq_some.mpr hclassify)⟩
  | unknownVersion messageId version => exact absurd hclassify (hversions entry hentry _ _)
  | foreign reason => exact Or.inl ⟨reason, hclassify⟩

/-! ### Well-formed payloads are got past -/

/-- Every record from an offset up to another one is present. -/
def Between (database : Database) (log : OffsetLog Message) (lower upper : ℤ) : Prop :=
  ∀ entry ∈ log.entries, lower ≤ entry.1 → entry.1 < upper → Present database entry

/-- In the loop: everything from the resume offset to the position is present and the consumer
goes on in range; or the consumer stands out of range and a reset to the resume offset is ahead. -/
def Replaying (job : Job) (resume : ℤ) (world : World) (position : ℤ) : Prop :=
  Between world.database (job.log world) resume position ∧
      (∀ fetch, world.memory.fetchPosition job.name = some fetch →
        (job.log world).InRange fetch ∧ resume ≤ fetch ∧
          Between world.database (job.log world) resume fetch) ∨
    resume = (job.log world).start ∧ ¬ (job.log world).InRange position ∧
      FetchesFrom job.name world position

/-- The captured log end is that of the log. -/
def CapturedEnd (job : Job) (world : World) (leo : ℤ) : Prop :=
  world.memory.state.logEndOf job.tp = some leo ∧ leo = (job.log world).stop

/-- Everything from the resume offset to the log end is present. -/
def ReplayedAll (job : Job) (resume : ℤ) (world : World) (leo : ℤ) : Prop :=
  CapturedEnd job world leo ∧ Between world.database (job.log world) resume leo

/-- What holds at each point of an undisturbed rehydrate from a checkpoint. -/
def Handling (job : Job) (checkpoint : Option ℤ) (resume : ℤ) : Point → World → Prop
  | .entered, world => world.database.checkpoint job.tp = checkpoint
  | .seeded stored, _ | .connected stored, _ => stored = checkpoint
  | .opened stored leo, world => stored = checkpoint ∧ CapturedEnd job world leo
  | .polling leo _ replay, world | .deciding leo _ replay, world =>
    CapturedEnd job world leo ∧ Replaying job resume world replay.position
  | .resetting leo _ _, world => CapturedEnd job world leo ∧ resume = (job.log world).start
  | .seeking leo _ replay, world =>
    CapturedEnd job world leo ∧ resume = (job.log world).start ∧ replay.position = resume
  | .materializing leo _ _ records last, world =>
    CapturedEnd job world leo ∧ (∀ entry ∈ records, entry ∈ (job.log world).entries) ∧
      FetchesFrom job.name world (last.1 + 1) ∧ resume ≤ last.1 + 1 ∧ last.1 + 1 ≤ leo ∧
      ∀ entry ∈ (job.log world).entries, resume ≤ entry.1 → entry.1 < last.1 + 1 →
        entry ∈ records ∨ Present world.database entry
  | .clamping leo _, world | .clampingTo leo _, world => ReplayedAll job resume world leo
  | .revealing .ready, world | .revealed .ready, world =>
    ∃ leo, ReplayedAll job resume world leo
  | .revealing _, _ | .revealed _, _ => True
  | .checking, _ | .unreached, _ | .captured, _ => False

section Handling

variable {job : Job} {checkpoint : Option ℤ} {resume leo : ℤ} {world next : World}

theorem between_refl (database : Database) (log : OffsetLog Message) (bound : ℤ) :
    Between database log bound bound := by
  intro entry _ hle hlt
  omega

/-- A consumer placed where the replay resumes, or out of range. -/
theorem Replaying.place {position : ℤ}
    (hresume : resume = resumeOffset (job.log world) checkpoint)
    (hbefore : Between world.database (job.log world) resume position)
    (hposition : placement (job.log world) checkpoint ≠ position →
      (job.log world).InRange (placement (job.log world) checkpoint)) :
    Replaying job resume (world.seek (placement (job.log world) checkpoint)) position := by
  by_cases hrange : (job.log world).InRange (placement (job.log world) checkpoint)
  · have hplaced : resume = placement (job.log world) checkpoint :=
      hresume.trans (if_pos hrange)
    refine Or.inl ⟨hbefore, fun fetch hfetch ↦ ?_⟩
    rw [Memory.fetchPosition_seek hfetch, hplaced]
    exact ⟨hrange, le_refl _, between_refl _ _ _⟩
  · have hsame : placement (job.log world) checkpoint = position :=
      not_not.mp fun hne ↦ hrange (hposition hne)
    refine Or.inr ⟨hresume.trans (if_neg hrange), hsame ▸ hrange, ?_⟩
    rw [hsame]
    exact FetchesFrom.seek _

/-- Only a consumer out of range is told so. -/
theorem Replaying.lose {position : ℤ} (huninterrupted : Uninterrupted job.conditions)
    (hreplaying : Replaying job resume world position)
    (hraises : Raises job.settings job.conditions world (.getmany job.name job.settings.batchSize)
      (.kafka .offsetOutOfRange)) : resume = (job.log world).start := by
  obtain ⟨_, fetch, hfetch, hout⟩ := hraises.resolve_left (huninterrupted.succeeds _ _)
  rcases hreplaying with ⟨_, hinside⟩ | ⟨hresume, _⟩
  · exact absurd (hinside fetch hfetch).1 hout
  · exact hresume

/-- A fetch goes on from the position. -/
theorem Replaying.fetch {position : ℤ} {rounds : ℕ} {replay : Replay}
    {records : List (ℤ × Message)} {last : ℤ × Message} (hleo : CapturedEnd job world leo)
    (hreplaying : Replaying job resume world position)
    (hfetches : Fetches world job.name job.settings.batchSize records next)
    (hlast : records.getLast? = some last) :
    Handling job checkpoint resume (.materializing leo rounds replay records last) next := by
  obtain ⟨fetch, end', hfetch, hrange, hbatch, hend, rfl⟩ := hfetches
  obtain rfl : last = end' := Option.some.inj (hlast.symm.trans hend)
  have hbound : last.1 + 1 ≤ leo := hleo.2 ▸ hbatch.last_lt_stop hlast
  have hposition := (hbatch.last_mem hlast).2
  rcases hreplaying with ⟨_, hinside⟩ | ⟨_, hout, hfrom⟩
  · obtain ⟨_, hresume, hbetween⟩ := hinside fetch hfetch
    refine ⟨hleo, fun entry hentry ↦ (hbatch.mem hentry).1,
      FetchesFrom.seek _, by omega, hbound, ?_⟩
    intro entry hentry hle hlt
    by_cases hbelow : entry.1 < fetch
    · exact Or.inr (hbetween entry hentry hle hbelow)
    · exact Or.inl (hbatch.covers hlast hentry (by omega) (by omega))
  · exact absurd hrange (hfrom fetch hfetch ▸ hout)

/-- A position at the captured log end: everything was replayed. -/
theorem Replaying.replayedAll {position : ℤ} (hleo : CapturedEnd job world leo)
    (hreplaying : Replaying job resume world position) (hposition : position = leo) :
    ReplayedAll job resume world leo := by
  rcases hreplaying with ⟨hbetween, _⟩ | ⟨_, hout, _⟩
  · exact ⟨hleo, hposition ▸ hbetween⟩
  · refine absurd ⟨?_, ?_⟩ hout
    · rw [hposition, hleo.2]
      exact (job.log world).start_le_stop
    · rw [hposition, hleo.2]

theorem ReplayedAll.onState {update : PartitionStateMachine → PartitionStateMachine}
    (hall : ReplayedAll job resume world leo)
    (hupdate : (update world.memory.state).logEndOf job.tp = world.memory.state.logEndOf job.tp) :
    ReplayedAll job resume (world.onState update) leo :=
  ⟨⟨hupdate.trans hall.1.1, hall.1.2⟩, hall.2⟩

/-- Every step of an undisturbed rehydrate keeps the invariant. -/
theorem handling_step (huninterrupted : Uninterrupted job.conditions)
    (hresume : resume = resumeOffset (job.log world) checkpoint) {point after : Point}
    (hstep : Step job (point, world) (after, next))
    (hpoint : Handling job checkpoint resume point world) :
    Handling job checkpoint resume after next := by
  cases hstep with
  | drift _ hdisturb => exact absurd hdisturb (huninterrupted.frozen _ _)
  | createTopic => exact hpoint.elim
  | check => exact hpoint.elim
  | enter => exact hpoint.elim
  | skip _ => exact hpoint.elim
  | seed => exact hpoint
  | keepConsumer => exact hpoint
  | connect _ => exact hpoint
  | capture hleo => exact ⟨hpoint, World.capture_logEndOf, hleo⟩
  | openCold =>
    obtain ⟨rfl, hleo⟩ := hpoint
    have hstart : (job.log world).InRange (job.log world).start :=
      ⟨le_refl _, (job.log world).start_le_stop⟩
    refine ⟨hleo, Replaying.place hresume (fun entry hentry _ hlt ↦ ?_) fun _ ↦ hstart⟩
    have hbelow := ((job.log world).bounded entry hentry).1
    have hnonneg := (job.log world).start_nonneg
    change entry.1 < 0 at hlt
    omega
  | @openWarm stored leo world _ =>
    obtain ⟨rfl, hleo⟩ := hpoint
    refine ⟨hleo, ?_⟩
    by_cases hrange : (job.log world).InRange (stored + 1)
    · refine Replaying.place hresume ?_ fun _ ↦ hrange
      have hplaced : resume = stored + 1 := hresume.trans (if_pos hrange)
      rw [hplaced]
      exact between_refl _ _ _
    · exact Or.inr ⟨hresume.trans (if_neg hrange), hrange, FetchesFrom.seek _⟩
  | idle _ hnothing =>
    obtain ⟨idlePolls, rfl⟩ := hnothing.exists_idlePolls
    exact hpoint
  | lose _ hraises => exact ⟨hpoint.1, hpoint.2.lose huninterrupted hraises⟩
  | readStart => exact ⟨hpoint.1, hpoint.2, hpoint.2.symm⟩
  | reset =>
    obtain ⟨hleo, hstart, hposition⟩ := hpoint
    refine ⟨hleo, Or.inl ⟨hposition ▸ between_refl _ _ _, fun fetch hfetch ↦ ?_⟩⟩
    rw [Memory.fetchPosition_seek hfetch]
    refine ⟨⟨le_refl _, (job.log world).start_le_stop⟩, hstart.le, ?_⟩
    rw [hstart]
    exact between_refl _ _ _
  | fetch _ _ hfetches hlast => exact hpoint.2.fetch hpoint.1 hfetches hlast
  | @materialize leo fuel replay records last world database hlast hrun =>
    obtain ⟨hleo, _, hfrom, hlower, hupper, hrecords⟩ := hpoint
    have hbetween : Between database (job.log world) resume (last.1 + 1) := by
      intro entry hentry hle hlt
      rcases hrecords entry hentry hle hlt with hmem | hpresent
      · exact present_of_mem hrun hmem
      · exact hpresent.mono (prefix_of_run hrun)
    refine ⟨⟨by simpa using hleo.1, hleo.2⟩, Or.inl ⟨hbetween, fun fetch hfetch ↦ ?_⟩⟩
    rw [hfrom fetch hfetch]
    refine ⟨⟨?_, hleo.2 ▸ hupper⟩, hlower, hbetween⟩
    exact (hresume ▸ start_le_resumeOffset (job.log world) checkpoint).trans hlower
  | goOn => exact hpoint
  | expire _ _ => trivial
  | leave hposition _ =>
    exact ⟨_, (hpoint.2.replayedAll hpoint.1 hposition).onState
      (PartitionStateMachine.logEndOf_mark _)⟩
  | leaveReset hposition _ => exact hpoint.2.replayedAll hpoint.1 hposition
  | keep _ => exact ⟨_, hpoint.onState (PartitionStateMachine.logEndOf_mark _)⟩
  | aim _ => exact hpoint
  | clamp =>
    refine ⟨_, ⟨?_, hpoint.1.2⟩, hpoint.2⟩
    simpa [PartitionStateMachine.markReady] using hpoint.1.1
  | @reveal status world =>
    cases status with
    | ready => exact hpoint
    | _ => trivial
  | keepUnreached => exact hpoint.elim
  | captureUnreached _ => exact hpoint.elim
  | seedUnreached => exact hpoint.elim

/-- What holds wherever an undisturbed rehydrate gets. -/
theorem Reaches.handling {origin : World} {state : Point × World}
    (huninterrupted : Uninterrupted job.conditions)
    (hreaches : Reaches job (.entered, origin) state) :
    Handling job (origin.database.checkpoint job.tp)
      (resumeOffset (job.log origin) (origin.database.checkpoint job.tp)) state.1 state.2 := by
  induction hreaches with
  | refl => rfl
  | @tail before after hbefore hlast ih =>
    have hlog := Reaches.log_eq huninterrupted.frozen hbefore
    exact handling_step huninterrupted (by rw [hlog]) hlast ih

/-- An undisturbed rehydrate of well-formed payloads fails nowhere.
Assumes: a persisted checkpoint is at least -1. -/
theorem Handling.not_fails {point : Point} (huninterrupted : Uninterrupted job.conditions)
    (hreplayable : ∀ entry ∈ (job.log world).entries, Replayable job.settings.json entry.2)
    (hcheckpoint : ∀ offset ∈ checkpoint, -1 ≤ offset)
    (hpoint : Handling job checkpoint resume point world) : ¬ Fails job point world := by
  rintro (rfl | ⟨stored, leo, rfl, hnegative⟩ | ⟨call, error, hawaits, hraises, hfetch⟩)
  · exact hpoint
  · have := hcheckpoint stored (Option.mem_def.mpr hpoint.1.symm)
    omega
  · have hraised := hraises.resolve_left (huninterrupted.succeeds _ _)
    cases hawaits with
    | poll _ => exact hfetch ⟨_, _, rfl⟩ hraised.1
    | materialize =>
      obtain ⟨raised, hrun, _⟩ := hraised
      have hall := fun entry hentry ↦ hreplayable entry (hpoint.2.1 entry hentry)
      rw [run_materializeBatch_eq_ok.mpr ⟨hall, rfl⟩] at hrun
      cases hrun
    | clamp =>
      obtain ⟨raised, hrun, _⟩ := hraised
      cases hrun
    | reveal =>
      obtain ⟨raised, hrun, _⟩ := hraised
      cases hrun
    | _ => exact hraised

end Handling

theorem uninterrupted_undisturbed : Uninterrupted undisturbed :=
  ⟨fun _ _ hdisturb ↦ hdisturb, fun _ _ hfails ↦ hfails⟩

section Content

variable {settings : Settings} {tp : TopicPartition} {name : String} {world : World}

/-- However the log is cut into batches, a rehydrate gets past records of well-formed payload. -/
theorem holds_gotPast {deadline : ℤ} {fuel : ℕ}
    (hversions : VersionsKnown (world.broker.changelogs name))
    (hpayloads : PayloadsWellFormed settings.json (world.broker.changelogs name))
    (hcheckpoint : ∀ checkpoint ∈ world.database.checkpoint tp, -1 ≤ checkpoint) :
    Holds (environment settings undisturbed) (AtCall fun _ _ ↦ True)
      (GotPast tp (world.broker.changelogs name) (world.database.checkpoint tp))
      (rehydrateOne settings fuel tp name deadline) world := by
  let job : Job := ⟨settings, undisturbed, tp, name, deadline, fuel⟩
  have hevolves : EvolvesOnly job.conditions job.name := fun _ _ hdisturb ↦ hdisturb.elim
  have hrefines := rehydrateOne_refines (.refl : Reaches job (.entered, world) (.entered, world))
  refine hrefines.mono (fun request _ _ ↦ by cases request <;> trivial) ?_
  rintro (value | error | _) final hends
  · intro hready
    obtain ⟨status, hreaches⟩ := hends
    have hstatus := (hreaches.marked trivial).1
    obtain rfl : status = .ready := Option.some.inj (hstatus.symm.trans hready)
    have hlog : job.log final = world.broker.changelogs name :=
      Reaches.log_eq uninterrupted_undisturbed.frozen hreaches
    obtain ⟨leo, ⟨hleo, hstop⟩, hbetween⟩ := hreaches.handling uninterrupted_undisturbed
    have hpassing : Passing job (.revealed .ready) final :=
      hreaches.invariant (Passing job) (passing_step hevolves) trivial
    obtain ⟨passed, hpassed, hbound⟩ := hpassing
    obtain rfl : leo = passed := Option.some.inj (hleo.symm.trans hpassed)
    have hbelow (entry : ℤ × Message) (hentry : entry ∈ (world.broker.changelogs name).entries) :
        entry ∈ (job.log final).entries ∧ entry.1 < leo := by
      rw [hstop, hlog]
      exact ⟨hentry, ((world.broker.changelogs name).bounded entry hentry).2⟩
    refine ⟨fun entry hentry hle ↦ skippedOrApplied_of_present hversions hentry ?_, ?_⟩
    · exact hbetween entry (hbelow entry hentry).1 hle (hbelow entry hentry).2
    · exact fun entry hentry ↦
        hbound.lt_nextOffset (hbelow entry hentry).1 (hbelow entry hentry).2
  · obtain ⟨point, hreaches, hfails⟩ := hends
    refine absurd hfails ((hreaches.handling uninterrupted_undisturbed).not_fails
      uninterrupted_undisturbed ?_ hcheckpoint)
    have hlog : job.log final = world.broker.changelogs name :=
      Reaches.log_eq uninterrupted_undisturbed.frozen hreaches
    rw [hlog]
    exact replayable_of_wellFormed hversions hpayloads
  · trivial

/-! ### A malformed payload is not got past -/

/-- A KSQLite record with a malformed payload fails its batch. -/
theorem not_replayable_of_malformed {json : String → Option String} {message : Message}
    {record : KsqliteRecord} (hclassify : classify message = .ksqlite record)
    (hmalformed : ¬ (json record.payload).isSome) : ¬ Replayable json message := by
  rintro (⟨reason, hforeign⟩ | ⟨other, hother, hjson⟩)
  · rw [hclassify] at hforeign
    cases hforeign
  · rw [hclassify] at hother
    cases hother
    exact hmalformed hjson

/-- A fetch from the offset of an entry may return just that entry. -/
theorem fetches_entry {limit : ℕ} {entry : ℤ × Message} (hlimit : 0 < limit)
    (hentry : entry ∈ (world.broker.changelogs name).entries)
    (hfetch : world.memory.fetchPosition name = some entry.1) :
    Fetches world name limit [entry] (world.seek (entry.1 + 1)) := by
  have hbounded := (world.broker.changelogs name).bounded entry hentry
  refine ⟨entry.1, entry, hfetch, ⟨hbounded.1, hbounded.2.le⟩, ⟨by simp, hlimit, ?_⟩, rfl, rfl⟩
  exact OffsetLog.singleton_prefix_available hentry

/-- A rehydrate whose next record has a malformed payload raises.
Assumes: its checkpoint is right before the record, and the batch size is positive. -/
theorem raises_of_malformed {deadline : ℤ} {fuel : ℕ} {entry : ℤ × Message}
    {post : Outcome Error Unit → World → Prop} (hlimit : 0 < settings.batchSize)
    (hentry : entry ∈ (world.broker.changelogs name).entries)
    (hcheckpoint : world.database.checkpoint tp = some (entry.1 - 1))
    (hmalformed : ¬ Replayable settings.json entry.2)
    (hrehydrate : Holds (environment settings undisturbed) (AtCall fun _ _ ↦ True) post
      (rehydrateOne settings (fuel + 1) tp name deadline) world) :
    ∃ error final, post (.raised error) final := by
  have hbounded := (world.broker.changelogs name).bounded entry hentry
  have hstart := (world.broker.changelogs name).start_nonneg
  obtain ⟨opened, _, hbroker, _, hfetch, hloop⟩ := exists_opened
    (fun checkpoint hstored ↦ by
      rw [hcheckpoint] at hstored
      have := Option.some.inj hstored
      omega) hrehydrate
  rw [hcheckpoint] at hfetch hloop
  have hposition : (Replay.start (some (entry.1 - 1)) (PartitionStateMachine.nextOffset
      (some (entry.1 - 1)))).position ≠ (world.broker.changelogs name).stop := by
    change entry.1 - 1 + 1 ≠ _
    omega
  have hfetches : Fetches opened name settings.batchSize [entry] (opened.seek (entry.1 + 1)) := by
    refine fetches_entry hlimit (by rwa [hbroker]) ?_
    rw [hfetch]
    exact congrArg some (sub_add_cancel entry.1 1)
  unfold Program.iterate at hloop
  rw [show caughtUp _ _ = none from if_neg hposition] at hloop
  have hround := holds_attempt.mp (holds_bind.mp (holds_bind.mp hloop)) opened.broker .refl
  have hpolled := sequel_returned.mp (hround.2.2 [entry] _ (Or.inr ⟨trivial, hfetches⟩))
  have hmaterialize := holds_bind.mp (holds_bind.mp hpolled)
  obtain ⟨raised, hrun⟩ : ∃ raised, (Work.materializeBatch tp [entry] entry.1).run settings.json
      opened.database = .error raised := by
    cases hran : (Work.materializeBatch tp [entry] entry.1).run settings.json opened.database with
    | error raised => exact ⟨raised, rfl⟩
    | ok committed =>
      exact absurd ((run_materializeBatch_eq_ok.mp hran).1 entry (List.mem_singleton_self _))
        hmalformed
  have hraises : Raises settings undisturbed (opened.seek (entry.1 + 1))
      (.transaction (.materializeBatch tp [entry] entry.1)) (transactionError raised) :=
    Or.inr ⟨raised, hrun, rfl⟩
  exact ⟨_, _, holds_error hmaterialize hraises⟩

end Content

theorem versionsKnown_log {records : List KsqliteRecord}
    (hrecords : ∀ record ∈ records, isUUID record.messageId = true) :
    VersionsKnown (Sample.log records) := by
  intro entry hentry messageId version hunknown
  rcases OffsetLog.mem_extend hentry with hold | ⟨hnew, _⟩
  · exact absurd hold List.not_mem_nil
  · obtain ⟨record, hrecord, hmessage⟩ := List.mem_map.mp hnew
    rw [← hmessage, classify_message (hrecords record hrecord)] at hunknown
    cases hunknown

/-- A SQLite that refuses an unclosed object. -/
def strictSettings : Settings :=
  { Sample.settings with json := fun text ↦ if text = "\x7b" then none else some text }

/-- A record of ours whose payload is an unclosed object. -/
def unclosed : KsqliteRecord := { Sample.third with payload := "\x7b" }

/-- A store that applied the first record; the second one has a malformed payload. -/
def blocked : World :=
  Sample.world Sample.firstApplied (Sample.broker (Sample.log [Sample.first, unclosed]) (some 0))

end KSQLite.Rehydrate
