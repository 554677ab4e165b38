import KSQLite.Rehydrate.Mirroring

/-!
# What was skipped stays skipped

On a changelog that is never trimmed and whose broker reports a consumer out of range only when it
is, the consumer of a rehydrate never stands before the next offset to replay: it starts there, and
each batch that commits moves both past its end. So a message id whose entries all lie below the
next offset to replay, and which has no row, never gets one from a rehydrate (`skipping_step`),
whichever partition is assigned.
-/

set_option autoImplicit false
set_option relaxedAutoImplicit false

namespace KSQLite.Rehydrate

open KSQLite.Log KSQLite.Suspension KSQLite.Store

/-- A message id of the changelog of a partition has no row, and the next offset to replay is past
all its entries. -/
structure PassedOver (settings : Settings) (tp : TopicPartition) (messageId : String)
    (world : World) : Prop where
  absent : messageId ∉ world.database.records.map Row.messageId
  passed : ∀ entry ∈ (changelogOf settings tp world).entries,
    messageIdOf entry = some messageId → entry.1 < nextReplayed tp world
  untrimmed : (changelogOf settings tp world).start = 0
  nonneg : 0 ≤ nextReplayed tp world
  bounded : nextReplayed tp world ≤ (changelogOf settings tp world).stop

/-- The consumer stands at or past the next offset to replay, inside the log. -/
def FetchesAhead (job : Job) (world : World) : Prop :=
  ∀ fetch, world.memory.fetchPosition job.name = some fetch →
    nextReplayed job.tp world ≤ fetch ∧ fetch ≤ (job.log world).stop

/-- What holds at each point: nothing is ever reset. -/
def PointSkipping (job : Job) : Point → World → Prop
  | .seeded checkpoint, world | .connected checkpoint, world | .opened checkpoint _, world =>
    checkpoint = world.database.checkpoint job.tp
  | .polling _ _ replay, world | .deciding _ _ replay, world =>
    replay.resetOccurred = false ∧ FetchesAhead job world
  | .materializing _ _ replay records last, world =>
    replay.resetOccurred = false ∧ FetchesFrom job.name world (last.1 + 1) ∧
      (∀ entry ∈ records, entry ∈ (job.log world).entries ∧
        nextReplayed job.tp world ≤ entry.1) ∧ last ∈ records
  | .resetting _ _ _, _ | .seeking _ _ _, _ | .clamping _ _, _ | .clampingTo _ _, _ => False
  | _, _ => True

/-- The invariant of the machine. -/
structure Skipping (messageId : String) (job : Job) (point : Point) (world : World) : Prop where
  skipped : PassedOver job.settings job.tp messageId world
  point : PointSkipping job point world

section Steps

variable {settings : Settings} {conditions : Conditions} {messageId : String}
  {tp : TopicPartition} {job : Job} {world next : World}

/-- What was skipped depends on the database and the changelogs only. -/
theorem PassedOver.congr (hskipped : PassedOver settings tp messageId world)
    (hdatabase : next.database = world.database)
    (hchangelogs : next.broker.changelogs = world.broker.changelogs) :
    PassedOver settings tp messageId next := by
  have hlog : changelogOf settings tp next = changelogOf settings tp world :=
    congrFun hchangelogs _
  have hbound : nextReplayed tp next = nextReplayed tp world := by
    unfold nextReplayed
    rw [hdatabase]
  refine ⟨?_, ?_, ?_, ?_, ?_⟩
  · rw [hdatabase]
    exact hskipped.absent
  · rw [hlog, hbound]
    exact hskipped.passed
  · rw [hlog]
    exact hskipped.untrimmed
  · rw [hbound]
    exact hskipped.nonneg
  · rw [hlog, hbound]
    exact hskipped.bounded

/-- Rows of other message ids and a higher checkpoint keep what was skipped, in a log that grew by
entries of other message ids. -/
theorem PassedOver.advance {kind : Message → Prop}
    (hskipped : PassedOver settings tp messageId world)
    (habsent : messageId ∉ next.database.records.map Row.messageId)
    (hgrows : (changelogOf settings tp world).GrowsBy kind (changelogOf settings tp next))
    (hkind : ∀ (entry : ℤ × Message), kind entry.2 → messageIdOf entry ≠ some messageId)
    (hraised : nextReplayed tp world ≤ nextReplayed tp next)
    (hbounded : nextReplayed tp next ≤ (changelogOf settings tp next).stop) :
    PassedOver settings tp messageId next where
  absent := habsent
  passed entry hentry hid := by
    rcases hgrows.mem hentry with hold | ⟨hnew, _⟩
    · exact (hskipped.passed entry hold hid).trans_le hraised
    · exact absurd hid (hkind entry hnew)
  untrimmed := hgrows.grows.start_eq.trans hskipped.untrimmed
  nonneg := hskipped.nonneg.trans hraised
  bounded := hbounded

/-- A message that is no KSQLite record has no message id. -/
theorem Recordless.messageIdOf_ne {entry : ℤ × Message} (hentry : Recordless entry.2) :
    messageIdOf entry ≠ some messageId := by
  intro hid
  obtain ⟨record, hrecord, _⟩ := messageIdOf_eq_some.mp hid
  rw [hentry] at hrecord
  cases hrecord

/-- Others append foreign records. -/
theorem PassedOver.disturb {broker : Broker} (hskipped : PassedOver settings tp messageId world)
    (hsole : SoleWriter conditions (settings.template tp))
    (hdisturb : conditions.disturbs world.broker broker) :
    PassedOver settings tp messageId (world.drift broker) := by
  have hgrows := hsole _ _ hdisturb
  exact hskipped.advance hskipped.absent hgrows (fun _ ↦ Recordless.messageIdOf_ne) (le_refl _)
    (hskipped.bounded.trans hgrows.grows.evolves.stop_le)

theorem FetchesAhead.drift {broker : Broker} (hsole : SoleWriter job.conditions job.name)
    (hahead : FetchesAhead job world)
    (hdisturb : job.conditions.disturbs world.broker broker) :
    FetchesAhead job (world.drift broker) := by
  intro fetch hfetch
  obtain ⟨hnext, hstop⟩ := hahead fetch hfetch
  exact ⟨hnext, hstop.trans (hsole _ _ hdisturb).grows.evolves.stop_le⟩

/-- A consumer inside an untrimmed log is not out of range. -/
theorem FetchesAhead.not_outOfRange (hname : job.settings.template job.tp = job.name)
    (hskipped : PassedOver job.settings job.tp messageId world) (hahead : FetchesAhead job world) :
    ¬ OutOfRange world job.name := by
  rintro ⟨fetch, hfetch, hout⟩
  obtain ⟨hnext, hstop⟩ := hahead fetch hfetch
  have hstart := hskipped.untrimmed
  unfold changelogOf at hstart
  rw [hname] at hstart
  exact hout ⟨hstart.le.trans (hskipped.nonneg.trans hnext), hstop⟩

/-- A batch that was fetched at or past the next offset to replay stores nothing that was
skipped. -/
theorem PassedOver.materialize {leo : ℤ} {fuel : ℕ} {replay : Replay} {records : List (ℤ × Message)}
    {last : ℤ × Message} {database : Database}
    (hname : job.settings.template job.tp = job.name)
    (hskipped : PassedOver job.settings job.tp messageId world)
    (hpoint : PointSkipping job (.materializing leo fuel replay records last) world)
    (hrun : (Work.materializeBatch job.tp records last.1).run job.settings.json world.database =
      .ok database) :
    PassedOver job.settings job.tp messageId (world.commit database) ∧
      last.1 + 1 = nextReplayed job.tp (world.commit database) := by
  obtain ⟨_, _, hrecords, hlast⟩ := hpoint
  have hlog : changelogOf job.settings job.tp world = job.log world :=
    congrArg world.broker.changelogs hname
  obtain ⟨hmem, hle⟩ := hrecords last hlast
  have hoffset : 0 ≤ last.1 := hskipped.nonneg.trans hle
  have hnext : nextReplayed job.tp (world.commit database) =
      max (nextReplayed job.tp world) (last.1 + 1) := by
    unfold nextReplayed
    rw [World.commit_database, checkpoint_of_run hrun]
    exact PartitionStateMachine.nextOffset_maxOffset_eq _ hoffset
  have hend : nextReplayed job.tp (world.commit database) = last.1 + 1 := by
    rw [hnext]
    exact max_eq_right (by omega)
  have hgrows : (changelogOf job.settings job.tp world).GrowsBy (fun _ ↦ False)
      (changelogOf job.settings job.tp (world.commit database)) := .refl _ _
  refine ⟨hskipped.advance ?_ hgrows (fun _ ↦ False.elim) ?_ ?_, hend.symm⟩
  · intro hpresent
    rcases (mem_messageIds_of_run hrun).mp hpresent with hold | ⟨entry, hentry, hid⟩
    · exact hskipped.absent hold
    · obtain ⟨hretained, hpast⟩ := hrecords entry hentry
      have := hskipped.passed entry (hlog ▸ hretained) hid
      omega
  · rw [hnext]
    exact le_max_left _ _
  · rw [hend]
    exact ((job.log world).bounded last hmem).2.trans_eq (congrArg OffsetLog.stop hlog.symm)

/-- Every step of the machine leaves out what was skipped.
Assumes: the changelog of the job is that of its partition, others append only foreign records to
it, and a consumer is told that it is out of range only when it is. -/
theorem skipping_step (hname : job.settings.template job.tp = job.name)
    (hsole : SoleWriter job.conditions job.name) (hgenuine : Genuine job.conditions job.name)
    {point after : Point} (hstep : Step job (point, world) (after, next))
    (hskipping : Skipping messageId job point world) : Skipping messageId job after next := by
  obtain ⟨hskipped, hpoint⟩ := hskipping
  have hlog : changelogOf job.settings job.tp world = job.log world :=
    congrArg world.broker.changelogs hname
  cases hstep with
  | @drift point call world broker _ hdisturb =>
    refine ⟨hskipped.disturb (hname ▸ hsole) hdisturb, ?_⟩
    cases point with
    | polling leo fuel replay => exact ⟨hpoint.1, hpoint.2.drift hsole hdisturb⟩
    | deciding leo fuel replay => exact ⟨hpoint.1, hpoint.2.drift hsole hdisturb⟩
    | materializing leo fuel replay records last =>
      obtain ⟨hreset, hfrom, hrecords, hlast⟩ := hpoint
      refine ⟨hreset, hfrom, fun entry hentry ↦ ?_, hlast⟩
      exact ⟨(hsole _ _ hdisturb).grows.mem (hrecords entry hentry).1, (hrecords entry hentry).2⟩
    | _ => exact hpoint
  | createTopic => exact ⟨hskipped.congr rfl rfl, trivial⟩
  | check => exact ⟨hskipped.congr rfl rfl, trivial⟩
  | enter => exact ⟨hskipped, trivial⟩
  | skip _ => exact ⟨hskipped, trivial⟩
  | seed =>
    refine ⟨hskipped.congr (World.seed_database _) (by rw [World.seed_broker]), ?_⟩
    simp [PointSkipping]
  | keepConsumer => exact ⟨hskipped.congr rfl rfl, hpoint⟩
  | connect _ => exact ⟨hskipped, hpoint⟩
  | capture _ => exact ⟨hskipped.congr rfl rfl, hpoint⟩
  | openCold =>
    refine ⟨hskipped.congr rfl rfl, rfl, fun fetch hfetch ↦ ?_⟩
    have hstored : none = world.database.checkpoint job.tp := hpoint
    rw [Memory.fetchPosition_seek hfetch]
    have hnone : nextReplayed job.tp world = 0 := by
      unfold nextReplayed
      rw [← hstored]
      rfl
    exact ⟨hnone.le.trans (job.log world).start_nonneg, (job.log world).start_le_stop⟩
  | @openWarm checkpoint leo world _ =>
    refine ⟨hskipped.congr rfl rfl, rfl, fun fetch hfetch ↦ ?_⟩
    have hstored : some checkpoint = world.database.checkpoint job.tp := hpoint
    rw [Memory.fetchPosition_seek hfetch]
    have hnext : nextReplayed job.tp world = checkpoint + 1 := by
      unfold nextReplayed
      rw [← hstored]
      rfl
    refine ⟨hnext.le, ?_⟩
    rw [← hnext]
    exact hskipped.bounded.trans_eq (congrArg OffsetLog.stop hlog)
  | idle _ hnothing =>
    obtain ⟨idlePolls, rfl⟩ := hnothing.exists_idlePolls
    exact ⟨hskipped.congr rfl rfl, hpoint⟩
  | lose _ hraises =>
    obtain ⟨_, hout⟩ := hraises.resolve_left (hgenuine _)
    exact absurd hout (hpoint.2.not_outOfRange hname hskipped)
  | readStart => exact absurd hpoint id
  | reset => exact absurd hpoint id
  | @fetch leo fuel replay world records last next _ _ hfetches hlast =>
    obtain ⟨fetch, end', hfetch, _, hbatch, hend, rfl⟩ := hfetches
    obtain rfl : last = end' := Option.some.inj (hlast.symm.trans hend)
    refine ⟨hskipped.congr rfl rfl, hpoint.1, FetchesFrom.seek _, fun entry hentry ↦ ?_,
      List.mem_of_getLast? hlast⟩
    obtain ⟨hmem, hle⟩ := hbatch.mem hentry
    exact ⟨hmem, (hpoint.2 fetch hfetch).1.trans hle⟩
  | @materialize leo fuel replay records last world database hlast hrun =>
    obtain ⟨hmaterialized, hnext⟩ := hskipped.materialize hname hpoint hrun
    refine ⟨hmaterialized.congr rfl rfl, hpoint.1, fun fetch hfetch ↦ ?_⟩
    rw [hpoint.2.1 fetch hfetch]
    refine ⟨hnext.ge, ?_⟩
    exact ((job.log world).bounded last (hpoint.2.2.1 last hpoint.2.2.2).1).2
  | goOn => exact ⟨hskipped, hpoint⟩
  | expire _ _ => exact ⟨hskipped.congr rfl rfl, trivial⟩
  | leave _ _ => exact ⟨hskipped.congr rfl rfl, trivial⟩
  | leaveReset _ hreset =>
    rw [hpoint.1] at hreset
    cases hreset
  | keep _ => exact absurd hpoint id
  | aim _ => exact absurd hpoint id
  | clamp => exact absurd hpoint id
  | @reveal status world =>
    have hgrows : (changelogOf job.settings job.tp world).GrowsBy (fun _ ↦ False)
        (changelogOf job.settings job.tp (world.commit (world.database.insertOwned job.tp))) :=
      .refl _ _
    exact ⟨hskipped.advance hskipped.absent hgrows (fun _ ↦ False.elim) (le_refl _)
      hskipped.bounded, trivial⟩
  | keepUnreached => exact ⟨hskipped.congr rfl rfl, trivial⟩
  | captureUnreached _ => exact ⟨hskipped.congr rfl rfl, trivial⟩
  | seedUnreached =>
    refine ⟨hskipped.congr (World.seed_database _) ?_, trivial⟩
    exact congrArg Broker.changelogs (World.seed_broker _)

/-! ### Assignments -/

/-- What was passed over belongs to its partition, and message ids are with their owners. -/
structure LeftOut (settings : Settings) (owner : String → TopicPartition) (tp : TopicPartition)
    (messageId : String) (world : World) : Prop where
  attributed : Attributed owner settings world.broker
  rows : RowsOwned owner world.database
  owned : owner messageId = tp
  passedOver : PassedOver settings tp messageId world

variable {owner : String → TopicPartition}

theorem LeftOut.congr (hleft : LeftOut settings owner tp messageId world)
    (hdatabase : next.database = world.database)
    (hchangelogs : next.broker.changelogs = world.broker.changelogs) :
    LeftOut settings owner tp messageId next := by
  refine ⟨?_, ?_, hleft.owned, hleft.passedOver.congr hdatabase hchangelogs⟩
  · unfold Attributed
    rw [hchangelogs]
    exact hleft.attributed
  · rw [hdatabase]
    exact hleft.rows

/-- A step of the machine for another partition stores nothing that was passed over. -/
theorem passedOver_step_of_ne (hother : tp ≠ job.tp) (howner : owner messageId = tp)
    (hsole : SoleWriter job.conditions (job.settings.template tp)) {point after : Point}
    (hstep : Step job (point, world) (after, next)) (howned : Owned owner job point world)
    (hpassed : PassedOver job.settings tp messageId world) :
    PassedOver job.settings tp messageId next := by
  have hframe := frame_step hstep
  have hbound : nextReplayed tp next = nextReplayed tp world := by
    unfold nextReplayed
    rw [hframe.checkpoint tp hother]
  have hgrows : (changelogOf job.settings tp world).GrowsBy Recordless
      (changelogOf job.settings tp next) := by
    rcases changelogs_step hstep with hsame | hdisturb
    · unfold changelogOf
      rw [hsame]
      exact .refl _ _
    · exact hsole _ _ hdisturb
  refine hpassed.advance ?_ hgrows (fun _ ↦ Recordless.messageIdOf_ne) hbound.ge ?_
  · intro hpresent
    rcases records_step hstep with hsame | ⟨leo, fuel, replay, records, last, rfl, hrun⟩
    · rw [hsame] at hpresent
      exact hpassed.absent hpresent
    · rcases (mem_messageIds_of_run hrun).mp hpresent with hold | ⟨entry, hentry, hid⟩
      · exact hpassed.absent hold
      · have hbelongs := howned.fetched _ _ _ _ _ rfl entry hentry _ hid
        exact hother (howner.symm.trans hbelongs)
  · rw [hbound]
    exact hpassed.bounded.trans hgrows.grows.evolves.stop_le

/-- Wherever the assignment of a partition gets, what was passed over is left out, whichever
partition is assigned.
Assumes: the changelog of the job is that of its partition. -/
theorem leftOut_of_reaches (hname : job.settings.template job.tp = job.name)
    (hshared : Shared job.settings job.conditions owner tp)
    (hgenuine : Genuine job.conditions (job.settings.template tp))
    (hleft : LeftOut job.settings owner tp messageId world) {point : Point}
    (hreaches : Reaches job (.checking, world) (point, next)) :
    LeftOut job.settings owner tp messageId next := by
  have howned : Owned owner job .checking world :=
    ⟨hleft.attributed, hleft.rows, fun _ _ _ _ _ hpoint ↦ by cases hpoint⟩
  by_cases hother : tp = job.tp
  · subst hother
    have hboth : Owned owner job point next ∧ Skipping messageId job point next :=
      hreaches.invariant
        (fun point world ↦ Owned owner job point world ∧ Skipping messageId job point world)
        (fun hstep hnow ↦ ⟨owned_step hname hshared.attributed hstep hnow.1,
          skipping_step hname (hname ▸ hshared.sole) (hname ▸ hgenuine) hstep hnow.2⟩)
        ⟨howned, hleft.passedOver, trivial⟩
    exact ⟨hboth.1.attributed, hboth.1.rows, hleft.owned, hboth.2.skipped⟩
  · have hboth : Owned owner job point next ∧ PassedOver job.settings tp messageId next :=
      hreaches.invariant
        (fun point world ↦ Owned owner job point world ∧
          PassedOver job.settings tp messageId world)
        (fun hstep hnow ↦ ⟨owned_step hname hshared.attributed hstep hnow.1,
          passedOver_step_of_ne hother hleft.owned hshared.sole hstep hnow.1 hnow.2⟩)
        ⟨howned, hleft.passedOver⟩
    exact ⟨hboth.1.attributed, hboth.1.rows, hleft.owned, hboth.2⟩

end Steps

end KSQLite.Rehydrate
