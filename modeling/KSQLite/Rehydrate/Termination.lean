import KSQLite.Rehydrate.Frame
import KSQLite.Store.Sample

/-!
# Termination on a quiescent changelog

On a changelog that nobody touches, with a record at every offset between its start and its end,
a rehydrate ends `READY` and revealed after at most as many polls as there are records and idle
polls, and one more for a reset. The potential of the loop is what is left to fetch and the idle
polls left, or the whole log and one more as long as the consumer stands out of range
(`Progress`). There is one exception: with no checkpoint and a log that was trimmed to its end, the
local position starts at zero while the consumer stands at the end, and the two never meet
(`rehydrate_completes_iff`).
-/

set_option autoImplicit false
set_option relaxedAutoImplicit false

namespace KSQLite.Rehydrate

open KSQLite.Log KSQLite.Suspension KSQLite.Store

/-- Nobody touches the broker, no call fails, and the clock stays below the deadline. -/
def quiet (deadline : ℤ) : Conditions where
  disturbs := fun _ _ ↦ False
  fails := fun _ _ ↦ False
  serves := fun _ _ ↦ True
  shows := fun reading ↦ reading < deadline

/-- What it takes to be quiet until a deadline, however the clock runs before it. -/
structure Calm (conditions : Conditions) (deadline : ℤ) : Prop extends
    Uninterrupted conditions where
  serves : ∀ world batch, conditions.serves world batch
  shows : ∀ reading, conditions.shows reading → reading < deadline

theorem calm_quiet (deadline : ℤ) : Calm (quiet deadline) deadline :=
  ⟨⟨fun _ _ ↦ id, fun _ _ ↦ id⟩, fun _ _ ↦ trivial, fun _ ↦ id⟩

/-- A changelog with one record at every offset, and a bound on the idle polls. -/
structure Whole (broker : Broker) (name : String) : Prop where
  dense : (broker.changelogs name).Dense
  idle : broker.idlePolls.isSome

/-- A changelog with one record at every offset, each of which a batch gets past, and a bound on
the idle polls. -/
structure Quiescent (json : String → Option String) (broker : Broker) (name : String) : Prop where
  dense : (broker.changelogs name).Dense
  replayable : ∀ entry ∈ (broker.changelogs name).entries, Replayable json entry.2
  idle : broker.idlePolls.isSome

theorem Quiescent.whole {json : String → Option String} {broker : Broker} {name : String}
    (hquiescent : Quiescent json broker name) : Whole broker name :=
  ⟨hquiescent.dense, hquiescent.idle⟩

/-- No checkpoint, and a log that was trimmed to its end after it had held records. -/
def TrimmedColdStart (checkpoint : Option ℤ) (log : OffsetLog Message) : Prop :=
  checkpoint = none ∧ log.start = log.stop ∧ 0 < log.stop

/-- The potential of the loop, at most the rounds left: the captured log end is reached; or the
consumer is in range and before it, with something to fetch; or it is out of range and a reset is
ahead. -/
def Progress (job : Job) (world : World) (leo : ℤ) (rounds : ℕ) (position : ℤ) : Prop :=
  position = leo ∨ ∃ fetch, world.memory.fetchPosition job.name = some fetch ∧
    ((job.log world).start ≤ fetch ∧ fetch < leo ∧
        ((job.log world).available fetch).length + world.broker.idleCount ≤ rounds ∨
      ¬ (job.log world).InRange fetch ∧
        (job.log world).entries.length + world.broker.idleCount + 1 ≤ rounds)

/-- What holds at each point of a rehydrate of a quiescent changelog. -/
def Advancing (job : Job) : Point → World → Prop
  | .entered, world =>
    (job.log world).entries.length + world.broker.idleCount + 1 ≤ job.fuel ∧
      (∀ checkpoint ∈ world.database.checkpoint job.tp, -1 ≤ checkpoint) ∧
      ¬ TrimmedColdStart (world.database.checkpoint job.tp) (job.log world)
  | .seeded checkpoint, world =>
    (job.log world).entries.length + world.broker.idleCount + 1 ≤ job.fuel ∧
      (∀ offset ∈ checkpoint, -1 ≤ offset) ∧ ¬ TrimmedColdStart checkpoint (job.log world)
  | .connected checkpoint, world =>
    (job.log world).entries.length + world.broker.idleCount + 1 ≤ job.fuel ∧
      (∀ offset ∈ checkpoint, -1 ≤ offset) ∧ ¬ TrimmedColdStart checkpoint (job.log world) ∧
      world.memory.consumer.isSome
  | .opened checkpoint leo, world =>
    (job.log world).entries.length + world.broker.idleCount + 1 ≤ job.fuel ∧
      (∀ offset ∈ checkpoint, -1 ≤ offset) ∧ ¬ TrimmedColdStart checkpoint (job.log world) ∧
      leo = (job.log world).stop ∧ world.memory.Assigned job.name
  | .polling leo rounds replay, world | .deciding leo rounds replay, world =>
    leo = (job.log world).stop ∧ Progress job world leo rounds replay.position
  | .resetting leo rounds _, world =>
    leo = (job.log world).stop ∧ world.memory.Assigned job.name ∧
      (job.log world).entries.length + world.broker.idleCount ≤ rounds
  | .seeking leo rounds replay, world =>
    leo = (job.log world).stop ∧ world.memory.Assigned job.name ∧
      replay.position = (job.log world).start ∧
      (job.log world).entries.length + world.broker.idleCount ≤ rounds
  | .materializing leo rounds _ records last, world =>
    leo = (job.log world).stop ∧ (∀ entry ∈ records, Replayable job.settings.json entry.2) ∧
      ((job.log world).start ≤ last.1 + 1 ∧ last.1 + 1 ≤ leo) ∧
      world.memory.fetchPosition job.name = some (last.1 + 1) ∧
      ((job.log world).available (last.1 + 1)).length + world.broker.idleCount ≤ rounds
  | .clamping _ _, _ | .clampingTo _ _, _ => True
  | .revealing status, _ | .revealed status, _ => status = .ready
  | .checking, _ | .unreached, _ | .captured, _ => False

/-- The invariant: the changelog is quiescent, and the potential is at most the rounds left. -/
structure Terminating (job : Job) (point : Point) (world : World) : Prop where
  quiescent : Quiescent job.settings.json world.broker job.name
  point : Advancing job point world

/-- What holds at each point of a rehydrate of a whole changelog: a batch that was fetched may be
one that is refused. -/
def Approaching (job : Job) : Point → World → Prop
  | .materializing leo rounds _ _ last, world =>
    leo = (job.log world).stop ∧ ((job.log world).start ≤ last.1 + 1 ∧ last.1 + 1 ≤ leo) ∧
      world.memory.fetchPosition job.name = some (last.1 + 1) ∧
      ((job.log world).available (last.1 + 1)).length + world.broker.idleCount ≤ rounds
  | point, world => Advancing job point world

/-- The invariant on a changelog whose records may be refused. -/
structure Converging (job : Job) (point : Point) (world : World) : Prop where
  whole : Whole world.broker job.name
  point : Approaching job point world

/-- A rehydrate of a quiescent changelog is one of a whole changelog. -/
theorem Terminating.converging {job : Job} {point : Point} {world : World}
    (hterminating : Terminating job point world) : Converging job point world := by
  obtain ⟨hquiescent, hpoint⟩ := hterminating
  refine ⟨hquiescent.whole, ?_⟩
  cases point with
  | materializing => exact ⟨hpoint.1, hpoint.2.2⟩
  | _ => exact hpoint

section Steps

variable {job : Job} {world next : World} {leo : ℤ} {rounds : ℕ}

/-- A poll of a quiescent changelog that returns nothing has nothing to fetch, or was idle. -/
theorem nothing_or_idle {name : String} (hidle : world.broker.idlePolls.isSome)
    (hnothing : FetchesNothing world name next) :
    (∃ fetch, world.memory.fetchPosition name = some fetch ∧
      (world.broker.changelogs name).InRange fetch ∧
      (world.broker.changelogs name).available fetch = []) ∨
    ∃ idle, world.broker.idlePolls = some (idle + 1) ∧
      next = { world with broker := { world.broker with idlePolls := some idle } } := by
  rcases hnothing with ⟨fetch, hfetch, hrange, hempty, _⟩ | ⟨broker, hbroker, rfl⟩
  · exact Or.inl ⟨fetch, hfetch, hrange, hempty⟩
  · rcases hbroker with ⟨hnone, _⟩ | ⟨idle, hsome, rfl⟩
    · rw [hnone] at hidle
      exact absurd hidle (by simp)
    · exact Or.inr ⟨idle, hsome, rfl⟩

/-- An idle poll costs one round and one idle poll. -/
theorem Progress.idle {position : ℤ} (hwhole : Whole world.broker job.name)
    (hleo : leo = (job.log world).stop) (hposition : position ≠ leo)
    (hprogress : Progress job world leo (rounds + 1) position)
    (hnothing : FetchesNothing world job.name next) :
    Whole next.broker job.name ∧ leo = (job.log next).stop ∧
      Progress job next leo rounds position := by
  obtain ⟨fetch, hfetch, hpotential⟩ := hprogress.resolve_left hposition
  rcases nothing_or_idle hwhole.idle hnothing with ⟨at', hat, hrange, hempty⟩ | ⟨idle, hidle, rfl⟩
  · -- In range and before the end a dense log has something to fetch.
    obtain rfl : at' = fetch := Option.some.inj (hat.symm.trans hfetch)
    rcases hpotential with ⟨hstart, hend, _⟩ | ⟨hout, _⟩
    · exact absurd hempty (hwhole.dense.exists_available hstart (hleo ▸ hend))
    · exact absurd hrange hout
  · have hcount : world.broker.idleCount = idle + 1 := by rw [Broker.idleCount, hidle]; rfl
    refine ⟨⟨hwhole.dense, rfl⟩, hleo, Or.inr ⟨fetch, hfetch, ?_⟩⟩
    rw [hcount] at hpotential
    refine hpotential.imp ?_ ?_
    · rintro ⟨hstart, hend, hrounds⟩
      refine ⟨hstart, hend, ?_⟩
      change ((job.log world).available fetch).length + idle ≤ rounds
      omega
    · rintro ⟨hout, hrounds⟩
      refine ⟨hout, ?_⟩
      change (job.log world).entries.length + idle + 1 ≤ rounds
      omega

/-- The consumer stands at the start of the log, with the whole log ahead. -/
theorem Progress.seek_start {position : ℤ} (hleo : leo = (job.log world).stop)
    (hassigned : world.memory.Assigned job.name)
    (hposition : (job.log world).start = leo → position = leo)
    (hrounds : (job.log world).entries.length + world.broker.idleCount ≤ rounds) :
    Progress job (world.seek (job.log world).start) leo rounds position := by
  have hstop := (job.log world).start_le_stop
  by_cases hend : (job.log world).start = leo
  · exact Or.inl (hposition hend)
  · have hlength := (job.log world).length_available_le (job.log world).start
    refine Or.inr ⟨_, hassigned.fetchPosition _, Or.inl ⟨le_refl _, ?_, ?_⟩⟩
    · omega
    · exact le_trans (Nat.add_le_add_right hlength _) hrounds

/-- A cold start on a log that was not trimmed to its end. -/
theorem Progress.open_cold (hleo : leo = (job.log world).stop)
    (hassigned : world.memory.Assigned job.name) (hcold : ¬ TrimmedColdStart none (job.log world))
    (hrounds : (job.log world).entries.length + world.broker.idleCount + 1 ≤ job.fuel) :
    Progress job (world.seek (job.log world).start) leo job.fuel 0 := by
  refine .seek_start hleo hassigned (fun hend ↦ ?_) (by omega)
  have hstart := (job.log world).start_nonneg
  have hempty : ¬ 0 < (job.log world).stop := fun hpositive ↦
    hcold ⟨rfl, hend.trans hleo, hpositive⟩
  omega

/-- A warm start: in range with the log ahead, at its end, or out of range. -/
theorem Progress.open_warm {position : ℤ} (hleo : leo = (job.log world).stop)
    (hassigned : world.memory.Assigned job.name)
    (hrounds : (job.log world).entries.length + world.broker.idleCount + 1 ≤ job.fuel) :
    Progress job (world.seek position) leo job.fuel position := by
  by_cases hend : position = leo
  · exact Or.inl hend
  · refine Or.inr ⟨position, hassigned.fetchPosition position, ?_⟩
    by_cases hrange : (job.log world).InRange position
    · have hlength := (job.log world).length_available_le position
      have hbefore : position < leo := lt_of_le_of_ne (hleo ▸ hrange.2) hend
      refine Or.inl ⟨hrange.1, hbefore, ?_⟩
      change ((job.log world).available position).length + world.broker.idleCount ≤ job.fuel
      omega
    · exact Or.inr ⟨hrange, hrounds⟩

/-- Only a consumer out of range is told so. -/
theorem Progress.lose {position : ℤ} (hcalm : Calm job.conditions job.deadline)
    (hleo : leo = (job.log world).stop) (hposition : position ≠ leo)
    (hprogress : Progress job world leo (rounds + 1) position)
    (hraises : Raises job.settings job.conditions world (.getmany job.name job.settings.batchSize)
      (.kafka .offsetOutOfRange)) :
    world.memory.Assigned job.name ∧
      (job.log world).entries.length + world.broker.idleCount ≤ rounds := by
  obtain ⟨fetch, hfetch, hpotential⟩ := hprogress.resolve_left hposition
  rcases hraises with hfails | ⟨_, at', hat, hout⟩
  · exact absurd hfails (hcalm.succeeds _ _)
  · obtain rfl : at' = fetch := Option.some.inj (hat.symm.trans hfetch)
    refine ⟨Memory.assigned_of_fetchPosition hfetch, ?_⟩
    rcases hpotential with ⟨hstart, hbefore, _⟩ | ⟨_, hrounds⟩
    · exact absurd ⟨hstart, hleo ▸ hbefore.le⟩ hout
    · omega

/-- A fetched batch costs one round and at least one of the entries left. -/
theorem converging_of_fetches {position : ℤ} {replay : Replay} {records : List (ℤ × Message)}
    {last : ℤ × Message} (hwhole : Whole world.broker job.name)
    (hleo : leo = (job.log world).stop) (hposition : position ≠ leo)
    (hprogress : Progress job world leo (rounds + 1) position)
    (hfetches : Fetches world job.name job.settings.batchSize records next)
    (hlast : records.getLast? = some last) :
    Converging job (.materializing leo rounds replay records last) next := by
  obtain ⟨fetch, hfetch, hpotential⟩ := hprogress.resolve_left hposition
  obtain ⟨at', end', hat, hrange, hbatch, hend, rfl⟩ := hfetches
  obtain rfl : at' = fetch := Option.some.inj (hat.symm.trans hfetch)
  obtain rfl : last = end' := Option.some.inj (hlast.symm.trans hend)
  obtain ⟨hstart, hbefore, hrounds⟩ := hpotential.resolve_right fun hout ↦ hout.1 hrange
  have hmem := hbatch.last_mem hlast
  have hstop := hbatch.last_lt_stop hlast
  have hfewer := hbatch.length_available_lt hlast
  refine ⟨hwhole, hleo, ⟨?_, ?_⟩, ?_, ?_⟩
  · change (job.log world).start ≤ last.1 + 1
    omega
  · rw [hleo]
    exact hstop
  · exact (Memory.assigned_of_fetchPosition hfetch).fetchPosition _
  · change ((job.log world).available (last.1 + 1)).length + world.broker.idleCount ≤ rounds
    change ((job.log world).available (last.1 + 1)).length <
      ((job.log world).available at').length at hfewer
    omega

/-- Every step of a rehydrate of a whole changelog keeps the invariant. -/
theorem converging_step (hcalm : Calm job.conditions job.deadline) {point after : Point}
    (hstep : Step job (point, world) (after, next)) (hconverging : Converging job point world) :
    Converging job after next := by
  obtain ⟨hwhole, hpoint⟩ := hconverging
  cases hstep with
  | drift _ hdisturb => exact absurd hdisturb (hcalm.frozen _ _)
  | createTopic => exact hpoint.elim
  | check => exact hpoint.elim
  | enter => exact hpoint.elim
  | skip _ => exact hpoint.elim
  | seed =>
    refine ⟨by simpa using hwhole, ?_⟩
    simpa only [Approaching, Advancing, Job.log, World.seed_broker] using hpoint
  | keepConsumer => exact ⟨hwhole, hpoint⟩
  | connect hconsumer => exact ⟨hwhole, hpoint.1, hpoint.2.1, hpoint.2.2, hconsumer⟩
  | capture hleo =>
    obtain ⟨hrounds, hcheckpoint, hcold, hconsumer⟩ := hpoint
    exact ⟨hwhole, hrounds, hcheckpoint, hcold, hleo, World.capture_assigned hconsumer⟩
  | openCold =>
    obtain ⟨hrounds, _, hcold, hleo, hassigned⟩ := hpoint
    exact ⟨hwhole, hleo, .open_cold hleo hassigned hcold hrounds⟩
  | openWarm _ =>
    obtain ⟨hrounds, _, _, hleo, hassigned⟩ := hpoint
    exact ⟨hwhole, hleo, .open_warm hleo hassigned hrounds⟩
  | idle hposition hnothing =>
    obtain ⟨hafter, hleo, hprogress⟩ := hpoint.2.idle hwhole hpoint.1 hposition hnothing
    exact ⟨hafter, hleo, hprogress⟩
  | lose hposition hraises =>
    obtain ⟨hassigned, hrounds⟩ := hpoint.2.lose hcalm hpoint.1 hposition hraises
    exact ⟨hwhole, hpoint.1, hassigned, hrounds⟩
  | readStart => exact ⟨hwhole, hpoint.1, hpoint.2.1, rfl, hpoint.2.2⟩
  | reset =>
    obtain ⟨hleo, hassigned, hstart, hrounds⟩ := hpoint
    refine ⟨hwhole, hleo, .seek_start hleo hassigned (fun hend ↦ ?_) hrounds⟩
    rw [hstart, hend]
  | fetch hposition _ hfetches hlast =>
    exact converging_of_fetches hwhole hpoint.1 hposition hpoint.2 hfetches hlast
  | materialize _ _ =>
    obtain ⟨hleo, hrange, hfetch, hrounds⟩ := hpoint
    refine ⟨hwhole, hleo, ?_⟩
    rcases eq_or_lt_of_le hrange.2 with hend | hbefore
    · exact Or.inl hend
    · exact Or.inr ⟨_, hfetch, Or.inl ⟨hrange.1, hbefore, hrounds⟩⟩
  | goOn => exact ⟨hwhole, hpoint⟩
  | expire hexpires _ =>
    obtain ⟨reading, hshows, hdeadline⟩ := hexpires
    exact absurd hdeadline (not_le.mpr (hcalm.shows reading hshows))
  | leave _ _ => exact ⟨hwhole, rfl⟩
  | leaveReset _ _ => exact ⟨hwhole, trivial⟩
  | keep _ => exact ⟨hwhole, rfl⟩
  | aim _ => exact ⟨hwhole, trivial⟩
  | clamp => exact ⟨hwhole, rfl⟩
  | reveal => exact ⟨hwhole, hpoint⟩
  | keepUnreached => exact hpoint.elim
  | captureUnreached _ => exact hpoint.elim
  | seedUnreached => exact hpoint.elim

/-- A batch that was fetched holds records of the changelog. -/
def Fetched (job : Job) : Point → World → Prop
  | .materializing _ _ _ records _, world =>
    ∀ entry ∈ records, entry ∈ (job.log world).entries
  | _, _ => True

theorem fetched_step (hcalm : Calm job.conditions job.deadline) {point after : Point}
    (hstep : Step job (point, world) (after, next)) : Fetched job after next := by
  cases hstep with
  | drift _ hdisturb => exact absurd hdisturb (hcalm.frozen _ _)
  | fetch _ _ hfetches _ =>
    obtain ⟨_, _, _, _, hbatch, _, rfl⟩ := hfetches
    exact fun entry hentry ↦ (hbatch.mem hentry).1
  | _ => trivial

/-- While its records are replayable, a whole changelog is a quiescent one. -/
theorem Converging.terminating {point : Point} (hconverging : Converging job point world)
    (hfetched : Fetched job point world)
    (hreplayable : ∀ entry ∈ (job.log world).entries, Replayable job.settings.json entry.2) :
    Terminating job point world := by
  obtain ⟨⟨hdense, hidle⟩, hpoint⟩ := hconverging
  refine ⟨⟨hdense, hreplayable, hidle⟩, ?_⟩
  cases point with
  | materializing =>
    obtain ⟨hleo, hrest⟩ := hpoint
    exact ⟨hleo, fun entry hentry ↦ hreplayable entry (hfetched entry hentry), hrest⟩
  | _ => exact hpoint

/-- On a quiescent changelog nothing fails. -/
theorem Terminating.not_fails (huninterrupted : Uninterrupted job.conditions) {point : Point}
    (hterminating : Terminating job point world) : ¬ Fails job point world := by
  rintro (rfl | ⟨checkpoint, leo, rfl, hnegative⟩ | ⟨call, error, hawaits, hraises, hfetch⟩)
  · exact hterminating.point
  · have := hterminating.point.2.1 checkpoint rfl
    omega
  · have hraised := hraises.resolve_left (huninterrupted.succeeds _ _)
    cases hawaits with
    | poll _ => exact hfetch ⟨_, _, rfl⟩ hraised.1
    | materialize =>
      obtain ⟨raised, hrun, _⟩ := hraised
      rw [run_materializeBatch_eq_ok.mpr ⟨hterminating.point.2.1, rfl⟩] at hrun
      cases hrun
    | clamp =>
      obtain ⟨raised, hrun, _⟩ := hraised
      cases hrun
    | reveal =>
      obtain ⟨raised, hrun, _⟩ := hraised
      cases hrun
    | _ => exact hraised

/-- With no rounds left, the captured log end is reached. -/
theorem Converging.position_eq {replay : Replay}
    (hconverging : Converging job (.polling leo 0 replay) world) : replay.position = leo := by
  by_contra hposition
  obtain ⟨fetch, _, hpotential⟩ := hconverging.point.2.resolve_left hposition
  rcases hpotential with ⟨hstart, hbefore, hrounds⟩ | ⟨_, hrounds⟩
  · have hsome := hconverging.whole.dense.exists_available hstart
      (hconverging.point.1 ▸ hbefore)
    have hpositive := List.length_pos_iff.mpr hsome
    change 0 < ((job.log world).available fetch).length at hpositive
    omega
  · omega

end Steps

/-! ### Counting the polls -/

/-- The requests that fetch. -/
def isPoll : requests.Request → Bool
  | .call (.getmany _ _) => true
  | _ => false

section Counting

variable {settings : Settings} {tp : TopicPartition} {name : String}

theorem within_perform {call : Call} (hcall : isPoll (.call call) = false) :
    (perform call).Within isPoll 0 := by
  rw [perform, Program.Within, if_neg (by simp [hcall])]
  rintro (error | value)
  · trivial
  · trivial

theorem within_remember (update : Memory → Memory) : (remember update).Within isPoll 0 := by
  rw [remember, Program.Within, if_neg (by simp [isPoll])]
  exact fun _ ↦ trivial

theorem within_readCheckpoint : (readCheckpoint tp).Within isPoll 0 :=
  (within_perform rfl).mapError

theorem within_forceStop : (forceStop tp).Within isPoll 0 :=
  (within_remember _).before fun _ ↦ within_perform rfl

theorem within_getConsumer : getConsumer.Within isPoll 0 := by
  have hstart : (perform .startConsumer).Within isPoll 0 := within_perform rfl
  have hstop : (quietly (perform .stopConsumer)).Within isPoll 0 :=
    (within_perform rfl).handle fun _ ↦ .finish ()
  rw [getConsumer, observe, Program.await_bind, Program.Within, if_neg (by simp [isPoll])]
  intro memory
  rw [Program.finish_bind]
  split_ifs
  · refine (hstart.handle fun error ↦ ?_).before fun _ ↦ within_remember _
    exact hstop.before fun _ ↦ .raise error
  · exact .finish ()

theorem within_stopOrContinue {deadline : ℤ} {replay : Replay} :
    (stopOrContinue tp deadline replay).Within isPoll 0 := by
  rw [stopOrContinue, clock, Program.await_bind, Program.Within, if_neg (by simp [isPoll])]
  intro now
  rw [Program.finish_bind]
  split_ifs
  · exact within_forceStop.before fun _ ↦ .finish _
  · exact .finish _

/-- A round of the loop polls once. -/
theorem within_pollOnce {leo deadline : ℤ} {replay : Replay} :
    (pollOnce settings tp name leo deadline replay).Within isPoll 1 := by
  rw [pollOnce, attempt, Program.await_bind, Program.Within, if_pos (by simp [isPoll])]
  refine ⟨Nat.one_pos, ?_⟩
  rintro (error | records)
  · change Program.Within isPoll 0 (if error = _ then _ else _)
    split_ifs
    · have hstart : (perform (.beginningOffset name)).Within isPoll 0 := within_perform rfl
      have hseek : (perform (.seekToBeginning name)).Within isPoll 0 := within_perform rfl
      exact hstart.before fun _ ↦ hseek.before fun _ ↦ within_stopOrContinue
    · exact .raise error
  · rw [Program.finish_bind]
    dsimp only
    cases records.getLast? with
    | none => exact within_stopOrContinue
    | some last =>
      have hbatch : (materializeBatch tp records last.1).Within isPoll 0 :=
        (within_perform rfl).before fun _ ↦ within_remember _
      refine hbatch.before fun _ ↦ ?_
      change Program.Within isPoll 0 (if _ then _ else _)
      split_ifs
      · exact within_stopOrContinue
      · exact .finish _

theorem within_applyPostResetClamps {leo logStart : ℤ} {count : ℕ} :
    (applyPostResetClamps tp leo logStart count).Within isPoll 0 := by
  refine within_readCheckpoint.before fun stored ↦ ?_
  cases clampTarget stored leo logStart count with
  | none => exact .finish ()
  | some target =>
    have hclamp : (perform (.transaction (.checkpointClamp tp target))).Within isPoll 0 :=
      within_perform rfl
    exact hclamp.before fun _ ↦ within_remember _

theorem within_finishReplay {leo : ℤ} {replay : Replay} :
    (finishReplay tp leo replay).Within isPoll 0 := by
  have hready : (rememberState (·.markReady tp) >>= fun _ ↦ reveal tp).Within isPoll 0 :=
    (within_remember _).before fun _ ↦ within_perform rfl
  rw [finishReplay]
  split_ifs
  · exact within_applyPostResetClamps.before fun _ ↦ hready
  · exact hready

theorem within_seed {checkpoint : Option ℤ} : (seed tp checkpoint).Within isPoll 0 := by
  cases checkpoint with
  | none => exact .finish ()
  | some checkpoint => exact within_remember _

theorem within_openReplay {checkpoint : Option ℤ} :
    (openReplay name checkpoint).Within isPoll 0 := by
  cases checkpoint with
  | none =>
    have hseek : (perform (.seekToBeginning name)).Within isPoll 0 := within_perform rfl
    exact hseek.before fun _ ↦ .finish _
  | some checkpoint =>
    have hseek : (seek (checkpoint + 1)).Within isPoll 0 := by
      unfold seek
      split_ifs
      · exact .raise _
      · exact within_remember _
    exact hseek.before fun _ ↦ .finish _

/-- A rehydrate polls at most once a round. -/
theorem within_rehydrateOne {fuel : ℕ} {deadline : ℤ} :
    (rehydrateOne settings fuel tp name deadline).Within isPoll fuel := by
  have hloop {leo : ℤ} {replay : Replay} : (Program.iterate fuel (caughtUp leo)
      (pollOnce settings tp name leo deadline) replay).Within isPoll fuel :=
    .iterate (fun _ ↦ within_pollOnce) fuel replay
  have hcapture : (perform (.endOffset name)).Within isPoll 0 := within_perform rfl
  refine within_readCheckpoint.before fun checkpoint ↦ ?_
  refine within_seed.before fun _ ↦ within_getConsumer.before fun _ ↦ ?_
  refine hcapture.before fun leo ↦ (within_remember _).before fun _ ↦ ?_
  refine (within_remember _).before fun _ ↦ (within_remember _).before fun _ ↦ ?_
  refine within_openReplay.before fun replay ↦ ?_
  refine (hloop.bind fun finished ↦ ?_).mono (Nat.add_zero fuel).le
  cases finished with
  | none => exact .finish ()
  | some replay => exact within_finishReplay

end Counting

end KSQLite.Rehydrate
