import KSQLite.Rehydrate.Refinement

/-!
# Coverage

What makes a rehydrate complete. A bound of a changelog is covered when every KSQLite record
below it has its message id in `_records`. As long as others only append to the changelog or trim
its head, the machine keeps the checkpoint, its position and the position of its consumer covered
(`coverage_step`), so at `READY` the captured log end is covered (`Coverage.ready`). A bound past
the end of the log stays covered only if nothing is appended, which is what `Anchored` says.
-/

set_option autoImplicit false
set_option relaxedAutoImplicit false

namespace KSQLite.Rehydrate

open KSQLite.Log KSQLite.Suspension KSQLite.Store

/-- If an entry is a KSQLite record, its message id is in `_records`. -/
def Present (database : Database) (entry : ℤ × Message) : Prop :=
  ∀ record, ksqliteOf entry.2 = some record →
    record.messageId ∈ database.records.map Row.messageId

/-- Every KSQLite record below a bound is in `_records`. -/
def Covered (database : Database) (log : OffsetLog Message) (bound : ℤ) : Prop :=
  ∀ entry ∈ log.entries, entry.1 < bound → Present database entry

/-- Others only append to a changelog and trim its head. -/
def EvolvesOnly (conditions : Conditions) (name : String) : Prop :=
  ∀ broker next, conditions.disturbs broker next →
    (broker.changelogs name).Evolves (next.changelogs name)

/-- Others never append to a changelog. -/
def NeverGrows (conditions : Conditions) (name : String) : Prop :=
  ∀ broker next, conditions.disturbs broker next →
    (next.changelogs name).stop = (broker.changelogs name).stop

/-- A bound that is covered and stays so: it is not past the end of the log, or the log is
stable. -/
def Anchored (stable : Prop) (job : Job) (world : World) (bound : ℤ) : Prop :=
  Covered world.database (job.log world) bound ∧ (bound ≤ (job.log world).stop ∨ stable)

/-- The log end was captured; the log did not shrink below it, and if it is stable still ends
there. -/
def Captured (stable : Prop) (job : Job) (world : World) (leo : ℤ) : Prop :=
  world.memory.state.logEndOf job.tp = some leo ∧ leo ≤ (job.log world).stop ∧
    (stable → leo = (job.log world).stop)

/-- What holds in the loop: the position and that of the consumer are anchored. -/
def LoopCoverage (stable : Prop) (job : Job) (world : World) (leo position : ℤ) : Prop :=
  Captured stable job world leo ∧ Anchored stable job world position ∧
    ∀ fetch, world.memory.fetchPosition job.name = some fetch → Anchored stable job world fetch

/-- What holds at each point, besides the anchored checkpoint. -/
def PointCoverage (stable : Prop) (job : Job) : Point → World → Prop
  | .seeded checkpoint, world => checkpoint = world.database.checkpoint job.tp
  | .connected checkpoint, world => checkpoint = world.database.checkpoint job.tp
  | .opened checkpoint leo, world =>
    checkpoint = world.database.checkpoint job.tp ∧ Captured stable job world leo
  | .polling leo _ replay, world => LoopCoverage stable job world leo replay.position
  | .deciding leo _ replay, world => LoopCoverage stable job world leo replay.position
  | .resetting leo _ _, world => Captured stable job world leo
  | .seeking leo _ replay, world => Captured stable job world leo ∧
    Anchored stable job world replay.position
  | .materializing leo _ _ records last, world =>
    Captured stable job world leo ∧
      (∀ fetch, world.memory.fetchPosition job.name = some fetch → fetch = last.1 + 1) ∧
      last.1 < (job.log world).stop ∧
      ∀ entry ∈ (job.log world).entries, entry.1 < last.1 + 1 →
        entry ∈ records ∨ Present world.database entry
  | .clamping leo _, world =>
    Captured stable job world leo ∧ Covered world.database (job.log world) leo
  | .clampingTo leo target, world =>
    Captured stable job world leo ∧ Covered world.database (job.log world) leo ∧ target = leo - 1
  | .revealing .ready, world => ∃ leo, Captured stable job world leo ∧
    Covered world.database (job.log world) leo
  | .revealed .ready, world => ∃ leo, Captured stable job world leo ∧
    Covered world.database (job.log world) leo
  | _, _ => True

/-- The invariant of the machine: the next offset to replay is anchored. -/
structure Coverage (stable : Prop) (job : Job) (point : Point) (world : World) : Prop where
  checkpoint : Anchored stable job world
    (PartitionStateMachine.nextOffset (world.database.checkpoint job.tp))
  point : PointCoverage stable job point world

/-! ### Bounds -/

section Bounds

variable {stable : Prop} {job : Job} {world next : World} {bound : ℤ}

theorem Present.mono {first second : Database} {entry : ℤ × Message}
    (hentry : Present first entry) (hrows : first.records <+: second.records) :
    Present second entry :=
  fun record hrecord ↦ (hrows.sublist.map Row.messageId).subset (hentry record hrecord)

theorem Covered.mono {first second : Database} {log : OffsetLog Message}
    (hcovered : Covered first log bound) (hrows : first.records <+: second.records) :
    Covered second log bound :=
  fun entry hentry hlt ↦ (hcovered entry hentry hlt).mono hrows

theorem Covered.of_le {database : Database} {log : OffsetLog Message} {lower : ℤ}
    (hcovered : Covered database log bound) (hle : lower ≤ bound) : Covered database log lower :=
  fun entry hentry hlt ↦ hcovered entry hentry (hlt.trans_le hle)

/-- Nothing is retained below the start of a log. -/
theorem covered_start (database : Database) (log : OffsetLog Message) :
    Covered database log log.start := by
  intro entry hentry hlt
  have := (log.bounded entry hentry).1
  omega

/-- Below the old stop, an evolved log is covered as far as the log was. -/
theorem Covered.evolves {database : Database} {log after : OffsetLog Message}
    (hcovered : Covered database log bound) (hevolves : log.Evolves after)
    (hbound : bound ≤ log.stop) : Covered database after bound :=
  fun entry hentry hlt ↦
    hcovered entry (hevolves.mem_of_mem entry hentry (hlt.trans_le hbound)) hlt

theorem Anchored.mono (hanchored : Anchored stable job world bound)
    (hrows : world.database.records <+: next.database.records)
    (hlog : job.log next = job.log world) : Anchored stable job next bound := by
  unfold Anchored
  rw [hlog]
  exact ⟨hanchored.1.mono hrows, hanchored.2⟩

/-- The start of the log is anchored. -/
theorem anchored_start (stable : Prop) (job : Job) (world : World) :
    Anchored stable job world (job.log world).start :=
  ⟨covered_start _ _, Or.inl (job.log world).start_le_stop⟩

/-- No record lies below offset zero. -/
theorem anchored_zero (stable : Prop) (job : Job) (world : World) : Anchored stable job world 0 :=
  ⟨(covered_start _ _).of_le (job.log world).start_nonneg,
    Or.inl ((job.log world).start_nonneg.trans (job.log world).start_le_stop)⟩

/-- An anchored bound stays anchored while others append and trim. -/
theorem Anchored.drift {broker : Broker} (hevolves : EvolvesOnly job.conditions job.name)
    (hstable : stable → NeverGrows job.conditions job.name)
    (hanchored : Anchored stable job world bound)
    (hdisturb : job.conditions.disturbs world.broker broker) :
    Anchored stable job (world.drift broker) bound := by
  have hlog := hevolves world.broker broker hdisturb
  obtain ⟨hcovered, hbound⟩ := hanchored
  refine ⟨?_, hbound.imp_left fun hle ↦ hle.trans hlog.stop_le⟩
  rcases hbound with hle | hholds
  · exact hcovered.evolves hlog hle
  · intro entry hentry hlt
    have hstop : (broker.changelogs job.name).stop = (world.broker.changelogs job.name).stop :=
      hstable hholds world.broker broker hdisturb
    have hbelow := ((broker.changelogs job.name).bounded entry hentry).2
    exact hcovered entry (hlog.mem_of_mem entry hentry (by omega)) hlt

theorem Captured.drift {broker : Broker} {leo : ℤ} (hevolves : EvolvesOnly job.conditions job.name)
    (hstable : stable → NeverGrows job.conditions job.name)
    (hcaptured : Captured stable job world leo)
    (hdisturb : job.conditions.disturbs world.broker broker) :
    Captured stable job (world.drift broker) leo :=
  ⟨hcaptured.1, hcaptured.2.1.trans (hevolves world.broker broker hdisturb).stop_le, fun hholds ↦
    (hcaptured.2.2 hholds).trans (hstable hholds world.broker broker hdisturb).symm⟩

/-- The later of two anchored bounds is anchored. -/
theorem Anchored.max {other : ℤ} (hbound : Anchored stable job world bound)
    (hother : Anchored stable job world other) : Anchored stable job world (max bound other) := by
  rcases max_choice bound other with hmax | hmax
  · rwa [hmax]
  · rwa [hmax]

end Bounds

/-! ### Steps -/

section Steps

variable {stable : Prop} {job : Job} {world next : World}

/-- A batch that committed: its records are present. -/
theorem present_of_mem {json : String → Option String} {tp : TopicPartition}
    {records : List (ℤ × Message)} {offset : ℤ} {database committed : Database}
    (hrun : (Work.materializeBatch tp records offset).run json database = .ok committed)
    {entry : ℤ × Message} (hentry : entry ∈ records) : Present committed entry := by
  intro record hrecord
  refine (mem_messageIds_of_run hrun).mpr (Or.inr ⟨entry, hentry, ?_⟩)
  exact messageIdOf_eq_some.mpr ⟨record, hrecord, rfl⟩

/-- The clamps aim at the offset before the captured log end. -/
theorem clampTarget_eq {stored : Option ℤ} {leo logStart target : ℤ} {count : ℕ}
    (htarget : clampTarget stored leo logStart count = some target) : target = leo - 1 := by
  unfold clampTarget at htarget
  split_ifs at htarget with hhigh hgap
  · exact (Option.some.inj htarget).symm
  · rw [← Option.some.inj htarget, hgap.2]

theorem LoopCoverage.drift {leo position : ℤ} {broker : Broker}
    (hevolves : EvolvesOnly job.conditions job.name)
    (hstable : stable → NeverGrows job.conditions job.name)
    (hloop : LoopCoverage stable job world leo position)
    (hdisturb : job.conditions.disturbs world.broker broker) :
    LoopCoverage stable job (world.drift broker) leo position :=
  ⟨hloop.1.drift hevolves hstable hdisturb, hloop.2.1.drift hevolves hstable hdisturb,
    fun fetch hfetch ↦ (hloop.2.2 fetch hfetch).drift hevolves hstable hdisturb⟩

/-- The consumer moved to the start of the log. -/
theorem LoopCoverage.seek_start {leo position : ℤ} (hcaptured : Captured stable job world leo)
    (hposition : Anchored stable job world position) :
    LoopCoverage stable job (world.seek (job.log world).start) leo position := by
  refine ⟨hcaptured, hposition, fun fetch hfetch ↦ ?_⟩
  rw [Memory.fetchPosition_seek hfetch]
  exact anchored_start stable job world

/-- While a call is pending, others keep what holds at the point. -/
theorem PointCoverage.drift {point : Point} {broker : Broker}
    (hevolves : EvolvesOnly job.conditions job.name)
    (hstable : stable → NeverGrows job.conditions job.name)
    (hpoint : PointCoverage stable job point world)
    (hdisturb : job.conditions.disturbs world.broker broker) :
    PointCoverage stable job point (world.drift broker) := by
  have hlog := hevolves world.broker broker hdisturb
  cases point with
  | seeded checkpoint => exact hpoint
  | connected checkpoint => exact hpoint
  | opened checkpoint leo => exact ⟨hpoint.1, hpoint.2.drift hevolves hstable hdisturb⟩
  | polling leo fuel replay => exact LoopCoverage.drift hevolves hstable hpoint hdisturb
  | deciding leo fuel replay => exact LoopCoverage.drift hevolves hstable hpoint hdisturb
  | resetting leo fuel replay => exact Captured.drift hevolves hstable hpoint hdisturb
  | seeking leo fuel replay =>
    exact ⟨hpoint.1.drift hevolves hstable hdisturb, hpoint.2.drift hevolves hstable hdisturb⟩
  | materializing leo fuel replay records last =>
    obtain ⟨hcaptured, hfetch, hlast, hrecords⟩ := hpoint
    refine ⟨hcaptured.drift hevolves hstable hdisturb, hfetch, hlast.trans_le hlog.stop_le, ?_⟩
    intro entry hentry hlt
    exact hrecords entry (hlog.mem_of_mem entry hentry
      (by change entry.1 < (job.log world).stop; omega)) hlt
  | clamping leo replay =>
    exact ⟨hpoint.1.drift hevolves hstable hdisturb, hpoint.2.evolves hlog hpoint.1.2.1⟩
  | clampingTo leo target =>
    exact ⟨hpoint.1.drift hevolves hstable hdisturb,
      hpoint.2.1.evolves hlog hpoint.1.2.1, hpoint.2.2⟩
  | revealing status =>
    cases status with
    | ready =>
      obtain ⟨leo, hcaptured, hcovered⟩ := hpoint
      exact ⟨leo, hcaptured.drift hevolves hstable hdisturb, hcovered.evolves hlog hcaptured.2.1⟩
    | _ => trivial
  | revealed status =>
    cases status with
    | ready =>
      obtain ⟨leo, hcaptured, hcovered⟩ := hpoint
      exact ⟨leo, hcaptured.drift hevolves hstable hdisturb, hcovered.evolves hlog hcaptured.2.1⟩
    | _ => trivial
  | _ => trivial

/-- A fetch reaches a point from which its records are all that is missing. -/
theorem materializing_of_fetches {leo : ℤ} {position : ℤ} {fuel : ℕ} {replay : Replay}
    {records : List (ℤ × Message)} {last : ℤ × Message}
    (hloop : LoopCoverage stable job world leo position)
    (hfetches : Fetches world job.name job.settings.batchSize records next)
    (hlast : records.getLast? = some last) :
    PointCoverage stable job (.materializing leo fuel replay records last) next := by
  obtain ⟨fetch, end', hposition, _, hbatch, hend, rfl⟩ := hfetches
  obtain rfl : last = end' := Option.some.inj (hlast.symm.trans hend)
  have hanchored := hloop.2.2 fetch hposition
  refine ⟨hloop.1, fun after hafter ↦ Memory.fetchPosition_seek hafter,
    ((job.log world).bounded last (hbatch.last_mem hlast).1).2, ?_⟩
  refine hbatch.forall_lt_succ_last hlast ?_ fun entry hentry ↦ Or.inl hentry
  exact fun entry hentry hlt ↦ Or.inr (hanchored.1 entry hentry hlt)

/-- A batch that committed: everything up to its end is covered. -/
theorem deciding_of_materializing {leo : ℤ} {fuel : ℕ} {replay : Replay}
    {records : List (ℤ × Message)} {last : ℤ × Message} {database : Database}
    (hcheckpoint : Anchored stable job world
      (PartitionStateMachine.nextOffset (world.database.checkpoint job.tp)))
    (hpoint : PointCoverage stable job (.materializing leo fuel replay records last) world)
    (hrun : (Work.materializeBatch job.tp records last.1).run job.settings.json world.database =
      .ok database) :
    Coverage stable job (.deciding leo fuel (replay.advance records.length last.1))
      ((world.commit database).onState (·.recordApplied job.tp last.1)) := by
  obtain ⟨hcaptured, hfetch, hlast, hrecords⟩ := hpoint
  have hend : Anchored stable job (world.commit database) (last.1 + 1) := by
    refine ⟨fun entry hentry hlt ↦ ?_, Or.inl hlast⟩
    rcases hrecords entry hentry hlt with hmem | hpresent
    · exact present_of_mem hrun hmem
    · exact hpresent.mono (prefix_of_run hrun)
  refine ⟨?_, ⟨by simpa using hcaptured.1, hcaptured.2⟩, hend,
    fun fetch hposition ↦ ?_⟩
  · change Anchored stable job (world.commit database)
      (PartitionStateMachine.nextOffset (database.checkpoint job.tp))
    rw [checkpoint_of_run hrun]
    rcases PartitionStateMachine.nextOffset_maxOffset (world.database.checkpoint job.tp) last.1
      with hold | hnew
    · rw [hold]
      exact hcheckpoint.mono (prefix_of_run hrun) rfl
    · rw [hnew]
      exact hend
  · rw [hfetch fetch hposition]
    exact hend

/-- Every step of the machine keeps its invariant. -/
theorem coverage_step (hevolves : EvolvesOnly job.conditions job.name)
    (hstable : stable → NeverGrows job.conditions job.name) {point after : Point}
    (hstep : Step job (point, world) (after, next)) (hcoverage : Coverage stable job point world) :
    Coverage stable job after next := by
  obtain ⟨hcheckpoint, hpoint⟩ := hcoverage
  have hstored {checkpoint : Option ℤ} (hseeded : checkpoint = world.database.checkpoint job.tp) :
      Anchored stable job world (PartitionStateMachine.nextOffset checkpoint) := by rwa [hseeded]
  cases hstep with
  | drift _ hdisturb =>
    exact ⟨hcheckpoint.drift hevolves hstable hdisturb, hpoint.drift hevolves hstable hdisturb⟩
  | createTopic => exact ⟨hcheckpoint, trivial⟩
  | check => exact ⟨hcheckpoint, trivial⟩
  | enter => exact ⟨hcheckpoint, trivial⟩
  | skip => exact ⟨hcheckpoint, trivial⟩
  | seed =>
    refine ⟨?_, by simp [PointCoverage]⟩
    rw [World.seed_database]
    exact hcheckpoint.mono (by simp) (by simp [Job.log])
  | keepConsumer => exact ⟨hcheckpoint, hpoint⟩
  | connect _ => exact ⟨hcheckpoint, hpoint⟩
  | capture hleo => exact ⟨hcheckpoint, hpoint, World.capture_logEndOf, hleo.le, fun _ ↦ hleo⟩
  | openCold => exact ⟨hcheckpoint, .seek_start hpoint.2 (anchored_zero stable job world)⟩
  | openWarm _ =>
    refine ⟨hcheckpoint, hpoint.2, hstored hpoint.1, fun fetch hfetch ↦ ?_⟩
    rw [Memory.fetchPosition_seek hfetch]
    exact hstored hpoint.1
  | idle _ hnothing =>
    obtain ⟨idlePolls, rfl⟩ := hnothing.exists_idlePolls
    exact ⟨hcheckpoint, hpoint⟩
  | lose _ _ => exact ⟨hcheckpoint, hpoint.1⟩
  | readStart => exact ⟨hcheckpoint, hpoint, anchored_start stable job world⟩
  | reset => exact ⟨hcheckpoint, .seek_start hpoint.1 hpoint.2⟩
  | fetch _ _ hfetches hlast =>
    obtain ⟨fetch, last, _, _, _, _, rfl⟩ := id hfetches
    exact ⟨hcheckpoint, materializing_of_fetches hpoint hfetches hlast⟩
  | materialize _ hrun => exact deciding_of_materializing hcheckpoint hpoint hrun
  | goOn => exact ⟨hcheckpoint, hpoint⟩
  | expire _ _ => exact ⟨hcheckpoint, trivial⟩
  | leave hposition _ =>
    refine ⟨hcheckpoint, _, ⟨by simpa [PartitionStateMachine.markReady] using
      hpoint.1.1, hpoint.1.2⟩, ?_⟩
    rw [← hposition]
    exact hpoint.2.1.1
  | leaveReset hposition _ =>
    refine ⟨hcheckpoint, hpoint.1, ?_⟩
    rw [← hposition]
    exact hpoint.2.1.1
  | keep _ =>
    exact ⟨hcheckpoint, _, ⟨by simpa [PartitionStateMachine.markReady] using
      hpoint.1.1, hpoint.1.2⟩, hpoint.2⟩
  | aim htarget => exact ⟨hcheckpoint, hpoint.1, hpoint.2, clampTarget_eq htarget⟩
  | clamp =>
    obtain ⟨hcaptured, hcovered, rfl⟩ := hpoint
    refine ⟨?_, _, ⟨by simpa [PartitionStateMachine.markReady] using hcaptured.1, hcaptured.2⟩,
      hcovered⟩
    simp only [World.onState_database, World.commit_database, Database.nextOffset_clampCheckpoint]
    exact ⟨hcovered, Or.inl hcaptured.2.1⟩
  | @reveal status world =>
    refine ⟨hcheckpoint, ?_⟩
    cases status with
    | ready => exact hpoint
    | _ => trivial
  | keepUnreached => exact ⟨hcheckpoint, trivial⟩
  | captureUnreached _ => exact ⟨hcheckpoint, trivial⟩
  | seedUnreached =>
    refine ⟨?_, trivial⟩
    change Anchored stable job (world.seed job.tp _) (PartitionStateMachine.nextOffset
      ((world.seed job.tp _).database.checkpoint job.tp))
    rw [World.seed_database]
    exact hcheckpoint.mono (by simp) (by simp [Job.log])

end Steps

end KSQLite.Rehydrate
