import KSQLite.Rehydrate.Runs
import KSQLite.Rehydrate.Termination

/-!
# Completion of a rehydrate

When a rehydrate of a quiescent changelog completes: every call it awaits can be answered, its loop
is left within a bound on its polls, and it returns with the partition `READY` and revealed
(`CompletesWithin`). It does so within one poll for each record and each idle poll and one more,
unless there is no checkpoint and the log was trimmed to its end (`rehydrate_completes_iff`). In
that case it polls an empty log forever (`not_completesWithin_of_trimmedColdStart`).
-/

set_option autoImplicit false
set_option relaxedAutoImplicit false

namespace KSQLite.Rehydrate

open KSQLite.Log KSQLite.Suspension KSQLite.Store

/-- A call has an answer. -/
def Answerable (settings : Settings) (conditions : Conditions) (call : Call) (world : World) :
    Prop :=
  ∃ reply next, answers settings conditions world (.call call) reply next

/-- The rehydrate returned, and the partition is `READY` and revealed. -/
def ReturnedReady (tp : TopicPartition) (outcome : Outcome Error Unit) (world : World) : Prop :=
  outcome = .returned () ∧ world.memory.state.statusOf tp = some .ready ∧
    tp ∈ world.database.owned

/-- A rehydrate before whose deadline nothing fails polls at most so often, is never stuck, and
returns `READY`. -/
def CompletesWithin (settings : Settings) (tp : TopicPartition) (name : String) (deadline : ℤ)
    (polls : ℕ) (world : World) : Prop :=
  (rehydrateOne settings polls tp name deadline).Within isPoll polls ∧
    ∀ fuel, polls ≤ fuel →
      Holds (environment settings (quiet deadline))
        (AtCall (Answerable settings (quiet deadline))) (ReturnedReady tp)
        (rehydrateOne settings fuel tp name deadline) world

/-- One poll for each record, one for each idle poll, and one for a reset. -/
def pollBound (broker : Broker) (name : String) : ℕ :=
  (broker.changelogs name).entries.length + broker.idleCount + 1

/-! ### Completion -/

section Completion

variable {job : Job} {world : World}

/-- A consumer that is in range and before the end of a dense log can fetch a record. -/
theorem exists_fetches {name : String} {limit : ℕ} {fetch : ℤ} (hlimit : 0 < limit)
    (hfetch : world.memory.fetchPosition name = some fetch)
    (hrange : (world.broker.changelogs name).InRange fetch)
    (havailable : (world.broker.changelogs name).available fetch ≠ []) :
    ∃ batch next, Fetches world name limit batch next := by
  obtain ⟨entry, rest, hrest⟩ := List.exists_cons_of_ne_nil havailable
  have hbatch : (world.broker.changelogs name).IsBatch fetch limit [entry] :=
    ⟨by simp, hlimit, rest, hrest.symm⟩
  exact ⟨[entry], _, fetch, entry, hfetch, hrange, hbatch, rfl, rfl⟩

/-- A poll in the loop can be answered: there is something to fetch, or the consumer is out of
range. -/
theorem Converging.answerable_getmany {leo : ℤ} {rounds : ℕ} {replay : Replay}
    (hcalm : Calm job.conditions job.deadline) (hbatch : 0 < job.settings.batchSize)
    (hconverging : Converging job (.polling leo rounds replay) world)
    (hposition : replay.position ≠ leo) :
    Answerable job.settings job.conditions (.getmany job.name job.settings.batchSize) world := by
  obtain ⟨fetch, hfetch, hpotential⟩ := hconverging.point.2.resolve_left hposition
  rcases hpotential with ⟨hstart, hbefore, _⟩ | ⟨hout, _⟩
  · have hend : fetch < (job.log world).stop := hconverging.point.1 ▸ hbefore
    obtain ⟨batch, next, hfetches⟩ := exists_fetches hbatch hfetch ⟨hstart, hend.le⟩
      (hconverging.whole.dense.exists_available hstart hend)
    exact ⟨.ok batch, next, Or.inr ⟨hcalm.serves _ _, hfetches⟩⟩
  · exact ⟨.error (.kafka .offsetOutOfRange), world, Or.inr ⟨rfl, fetch, hfetch, hout⟩, rfl⟩

/-- A transaction of a batch commits or is refused. -/
theorem answerable_materializeBatch {settings : Settings} {conditions : Conditions}
    {tp : TopicPartition} {records : List (ℤ × Message)} {offset : ℤ} :
    Answerable settings conditions (.transaction (.materializeBatch tp records offset)) world := by
  cases hrun : (Work.materializeBatch tp records offset).run settings.json world.database with
  | error error => exact ⟨.error _, world, Or.inr ⟨error, hrun, rfl⟩, rfl⟩
  | ok committed => exact ⟨.ok (), _, committed, hrun, rfl⟩

/-- Every call of a rehydrate of a whole changelog can be answered. -/
theorem Converging.answerable (hcalm : Calm job.conditions job.deadline)
    (hbatch : 0 < job.settings.batchSize) {point : Point} {call : Call}
    (hconverging : Converging job point world)
    (hawaits : Awaits job.settings job.tp job.name point call) :
    Answerable job.settings job.conditions call world := by
  cases hawaits with
  | listTopics => exact hconverging.point.elim
  | createTopic => exact hconverging.point.elim
  | describeConfigs => exact hconverging.point.elim
  | readCheckpoint => exact ⟨.ok _, _, rfl, rfl⟩
  | startConsumer => exact ⟨.ok (), _, rfl⟩
  | stopConsumer => exact ⟨.ok (), _, rfl⟩
  | capture => exact ⟨.ok _, _, rfl, rfl⟩
  | seekToBeginning => exact ⟨.ok (), _, rfl⟩
  | poll hposition => exact hconverging.answerable_getmany hcalm hbatch hposition
  | readStart => exact ⟨.ok _, _, rfl, rfl⟩
  | reset => exact ⟨.ok (), _, rfl⟩
  | materialize => exact answerable_materializeBatch
  | readStored => exact ⟨.ok _, _, rfl, rfl⟩
  | clamp => exact ⟨.ok (), _, _, rfl, rfl⟩
  | reveal => exact ⟨.ok (), _, _, rfl, rfl⟩
  | startUnreached => exact hconverging.point.elim
  | stopUnreached => exact hconverging.point.elim
  | captureUnreached => exact hconverging.point.elim
  | readUnreached => exact hconverging.point.elim

/-- A rehydrate of a whole changelog fails only on a record that a batch does not get past. -/
theorem Converging.refused_of_fails (huninterrupted : Uninterrupted job.conditions) {point : Point}
    (hconverging : Converging job point world) (hfetched : Fetched job point world)
    (hfails : Fails job point world) :
    ∃ entry ∈ (job.log world).entries, ¬ Replayable job.settings.json entry.2 := by
  by_contra hnone
  have hreplayable : ∀ entry ∈ (job.log world).entries, Replayable job.settings.json entry.2 :=
    fun entry hentry ↦ not_not.mp fun hrefused ↦ hnone ⟨entry, hentry, hrefused⟩
  exact (hconverging.terminating hfetched hreplayable).not_fails huninterrupted hfails

/-- Only idle polls are used up, and only topics are added. -/
structure Quieter (before after : Broker) : Prop where
  changelogs : after.changelogs = before.changelogs
  topics : before.topics ⊆ after.topics
  idle : before.idlePolls.isSome → after.idlePolls.isSome
  count : after.idleCount ≤ before.idleCount

theorem Quieter.refl (broker : Broker) : Quieter broker broker :=
  ⟨rfl, Finset.Subset.refl _, id, le_rfl⟩

theorem Quieter.trans {first second third : Broker} (hfirst : Quieter first second)
    (hsecond : Quieter second third) : Quieter first third :=
  ⟨hsecond.changelogs.trans hfirst.changelogs, hfirst.topics.trans hsecond.topics,
    fun hidle ↦ hsecond.idle (hfirst.idle hidle), hsecond.count.trans hfirst.count⟩

/-- It takes no more polls after some were used up. -/
theorem Quieter.pollBound_le {before after : Broker} (hquieter : Quieter before after)
    (name : String) : pollBound after name ≤ pollBound before name := by
  have hcount := hquieter.count
  unfold pollBound
  rw [hquieter.changelogs]
  omega

/-- The rehydrate itself is all that happens to a broker that nobody touches. -/
theorem quieter_step (huninterrupted : Uninterrupted job.conditions) {point after : Point}
    {next : World} (hstep : Step job (point, world) (after, next)) :
    Quieter world.broker next.broker := by
  cases hstep with
  | drift _ hdisturb => exact absurd hdisturb (huninterrupted.frozen _ _)
  | createTopic => exact ⟨rfl, Finset.subset_insert _ _, id, le_rfl⟩
  | seed =>
    rw [World.seed_broker]
    exact .refl _
  | seedUnreached =>
    have hbroker : (world.seed job.tp (world.database.checkpoint job.tp)).broker =
        world.broker := World.seed_broker _
    exact hbroker ▸ .refl _
  | idle _ hnothing =>
    rcases hnothing with ⟨_, _, _, _, rfl⟩ | ⟨broker, ⟨_, rfl⟩ | ⟨polls, hpolls, rfl⟩, rfl⟩
    · exact .refl _
    · exact .refl _
    · refine ⟨rfl, Finset.Subset.refl _, fun _ ↦ rfl, ?_⟩
      rw [Broker.idleCount, Broker.idleCount, hpolls]
      exact Nat.le_succ polls
  | fetch _ _ hfetches _ =>
    obtain ⟨_, _, _, _, _, _, rfl⟩ := hfetches
    exact .refl _
  | _ => exact .refl _

/-- What a rehydrate of a whole changelog leaves: it used up idle polls and worked on its partition
only, and it left the partition `READY` and revealed or raised on a record that a batch does not get
past. -/
structure Rehydrated (json : String → Option String) (tp : TopicPartition) (name : String)
    (world : World) (outcome : Outcome Error Unit) (final : World) : Prop where
  frame : Frame tp world final
  quieter : Quieter world.broker final.broker
  ready : outcome = .returned () →
    final.memory.state.statusOf tp = some .ready ∧ tp ∈ final.database.owned
  refused : ∀ error, outcome = .raised error →
    ∃ entry ∈ (world.broker.changelogs name).entries, ¬ Replayable json entry.2
  ends : outcome ≠ .exhausted

/-- Within one round for each record and each idle poll and one more, a rehydrate of a whole
changelog ends while it is calm.
Assumes: it is no cold start on a log that was trimmed to its end. -/
theorem holds_rehydrated {settings : Settings} {conditions : Conditions} {tp : TopicPartition}
    {name : String} {deadline : ℤ} {fuel : ℕ} (hcalm : Calm conditions deadline)
    (hbatch : 0 < settings.batchSize) (hwhole : Whole world.broker name)
    (hcheckpoint : ∀ checkpoint ∈ world.database.checkpoint tp, -1 ≤ checkpoint)
    (hcold : ¬ TrimmedColdStart (world.database.checkpoint tp) (world.broker.changelogs name))
    (hfuel : pollBound world.broker name ≤ fuel) :
    Holds (environment settings conditions) (AtCall (Answerable settings conditions))
      (Rehydrated settings.json tp name world) (rehydrateOne settings fuel tp name deadline)
      world := by
  let job : Job := ⟨settings, conditions, tp, name, deadline, fuel⟩
  have hconverging {state : Point × World} (hreaches : Reaches job (.entered, world) state) :
      Converging job state.1 state.2 :=
    hreaches.invariant (Converging job) (converging_step hcalm) ⟨hwhole, hfuel, hcheckpoint, hcold⟩
  have hfetched {state : Point × World} (hreaches : Reaches job (.entered, world) state) :
      Fetched job state.1 state.2 :=
    hreaches.invariant (Fetched job) (fun hstep _ ↦ fetched_step hcalm hstep) trivial
  have hquieter {state : Point × World} (hreaches : Reaches job (.entered, world) state) :
      Quieter world.broker state.2.broker :=
    hreaches.invariant (fun _ between ↦ Quieter world.broker between.broker)
      (fun hstep hbefore ↦ hbefore.trans (quieter_step hcalm.toUninterrupted hstep)) (.refl _)
  have hrefines := rehydrateOne_refines (.refl : Reaches job (.entered, world) (.entered, world))
  refine hrefines.mono ?_ ?_
  · intro request between hmoment
    cases request with
    | call call =>
      obtain ⟨point, hreaches, hawaits⟩ := hmoment
      exact (hconverging hreaches).answerable hcalm hbatch hawaits
    | _ => trivial
  · intro outcome final hends
    cases outcome with
    | returned value =>
      obtain ⟨status, hreaches⟩ := hends
      obtain rfl : status = .ready := (hconverging hreaches).point
      exact ⟨hreaches.frame, hquieter hreaches, fun _ ↦ hreaches.marked trivial, nofun, nofun⟩
    | raised error =>
      obtain ⟨point, hreaches, hfails⟩ := hends
      have hrefused := (hconverging hreaches).refused_of_fails hcalm.toUninterrupted
        (hfetched hreaches) hfails
      rw [hreaches.log_eq hcalm.frozen] at hrefused
      exact ⟨hreaches.frame, hquieter hreaches, nofun, fun _ _ ↦ hrefused, nofun⟩
    | exhausted =>
      obtain ⟨leo, replay, hreaches, hposition⟩ := hends
      exact absurd (hconverging hreaches).position_eq hposition

/-- Within one round for each record and each idle poll and one more, a rehydrate of a quiescent
changelog returns `READY`.
Assumes: it is no cold start on a log that was trimmed to its end. -/
theorem holds_returnedReady {settings : Settings} {tp : TopicPartition} {name : String}
    {deadline : ℤ} {fuel : ℕ} (hbatch : 0 < settings.batchSize)
    (hquiescent : Quiescent settings.json world.broker name)
    (hcheckpoint : ∀ checkpoint ∈ world.database.checkpoint tp, -1 ≤ checkpoint)
    (hcold : ¬ TrimmedColdStart (world.database.checkpoint tp) (world.broker.changelogs name))
    (hfuel : pollBound world.broker name ≤ fuel) :
    Holds (environment settings (quiet deadline)) (AtCall (Answerable settings (quiet deadline)))
      (ReturnedReady tp) (rehydrateOne settings fuel tp name deadline) world := by
  refine (holds_rehydrated (calm_quiet deadline) hbatch hquiescent.whole hcheckpoint hcold
    hfuel).mono (fun _ _ hmoment ↦ hmoment) fun outcome final hrehydrated ↦ ?_
  cases outcome with
  | returned value => exact ⟨rfl, hrehydrated.ready rfl⟩
  | raised error =>
    obtain ⟨entry, hentry, hrefused⟩ := hrehydrated.refused error rfl
    exact absurd (hquiescent.replayable entry hentry) hrefused
  | exhausted => exact absurd rfl hrehydrated.ends

end Completion

/-! ### The exception -/

section Exception

variable {settings : Settings} {conditions : Conditions} {condition : Call → World → Prop}
  {world : World}

/-- A loop whose polls come back empty runs out of any fuel. -/
theorem exhausted_of_nothing {tp : TopicPartition} {name : String} {leo deadline : ℤ} {fuel : ℕ}
    {replay : Replay} {post : Outcome Error (Option Replay) → World → Prop}
    (hshows : conditions.shows (deadline - 1)) (hposition : replay.position ≠ leo)
    (hnothing : FetchesNothing world name world)
    (hloop : Holds (environment settings conditions) (AtCall condition) post
      (Program.iterate fuel (caughtUp leo) (pollOnce settings tp name leo deadline) replay) world) :
    post .exhausted world := by
  have hguard : caughtUp leo replay = none := if_neg hposition
  induction fuel with
  | zero =>
    unfold Program.iterate at hloop
    rw [hguard] at hloop
    exact hloop
  | succ fuel ih =>
    unfold Program.iterate at hloop
    rw [hguard] at hloop
    have hround := holds_attempt.mp (holds_bind.mp (holds_bind.mp hloop)) world.broker .refl
    have hempty := hround.2.2 [] world (Or.inl ⟨rfl, hnothing⟩)
    have hclock := holds_clock.mp (holds_bind.mp hempty) (deadline - 1) hshows
    have hlater : ¬ deadline ≤ deadline - 1 := by omega
    rw [sequel_returned, if_neg hlater] at hclock
    exact ih hclock

/-- A cold start on a log that was trimmed to its end runs out of any fuel. -/
theorem exhausted_of_trimmedColdStart {tp : TopicPartition} {name : String} {deadline : ℤ}
    {fuel : ℕ} {post : Outcome Error Unit → World → Prop}
    (hshows : conditions.shows (deadline - 1))
    (hcold : TrimmedColdStart (world.database.checkpoint tp) (world.broker.changelogs name))
    (hrehydrate : Holds (environment settings conditions) (AtCall condition) post
      (rehydrateOne settings fuel tp name deadline) world) :
    ∃ final, post .exhausted final := by
  obtain ⟨hnone, htrimmed, hpositive⟩ := hcold
  obtain ⟨opened, _, hbroker, _, hfetch, hloop⟩ := exists_opened (by simp [hnone]) hrehydrate
  rw [hnone] at hfetch hloop
  have hposition : (0 : ℤ) ≠ (world.broker.changelogs name).stop := hpositive.ne
  refine ⟨opened, exhausted_of_nothing hshows hposition ?_ hloop⟩
  -- The consumer stands at the end of the log, where there is nothing to fetch.
  refine Or.inl ⟨_, hfetch, ?_, ?_, rfl⟩
  · rw [hbroker]
    exact ⟨le_refl _, htrimmed.le⟩
  · rw [hbroker]
    refine OffsetLog.available_eq_nil.mpr fun entry hentry ↦ ?_
    exact (((world.broker.changelogs name).bounded entry hentry).2).trans_le htrimmed.ge

/-- A cold start on a log that was trimmed to its end completes within no bound. -/
theorem not_completesWithin_of_trimmedColdStart {tp : TopicPartition} {name : String}
    {deadline : ℤ}
    (hcold : TrimmedColdStart (world.database.checkpoint tp) (world.broker.changelogs name))
    (polls : ℕ) : ¬ CompletesWithin settings tp name deadline polls world := by
  intro hcompletes
  have hshows : (quiet deadline).shows (deadline - 1) := by
    change deadline - 1 < deadline
    omega
  obtain ⟨final, hreturned, _⟩ :=
    exhausted_of_trimmedColdStart hshows hcold (hcompletes.2 polls le_rfl)
  cases hreturned

end Exception

/-- A rehydrate of a quiescent changelog completes at all, and within one poll for each record and
each idle poll and one more, exactly when it is no cold start on a log that was trimmed to its end.
Assumes: the batch size is positive, and a persisted checkpoint is at least -1. -/
theorem rehydrate_completes_iff {settings : Settings} {tp : TopicPartition} {name : String}
    {deadline : ℤ} {world : World} (hbatch : 0 < settings.batchSize)
    (hquiescent : Quiescent settings.json world.broker name)
    (hcheckpoint : ∀ checkpoint ∈ world.database.checkpoint tp, -1 ≤ checkpoint) :
    (CompletesWithin settings tp name deadline (pollBound world.broker name) world ↔
        ¬ TrimmedColdStart (world.database.checkpoint tp) (world.broker.changelogs name)) ∧
      ((∃ polls, CompletesWithin settings tp name deadline polls world) ↔
        ¬ TrimmedColdStart (world.database.checkpoint tp) (world.broker.changelogs name)) := by
  have hcompletes
      (hcold : ¬ TrimmedColdStart (world.database.checkpoint tp) (world.broker.changelogs name)) :
      CompletesWithin settings tp name deadline (pollBound world.broker name) world :=
    ⟨within_rehydrateOne, fun fuel hfuel ↦
      holds_returnedReady hbatch hquiescent hcheckpoint hcold hfuel⟩
  refine ⟨⟨fun hwithin hcold ↦ ?_, hcompletes⟩, fun ⟨polls, hwithin⟩ hcold ↦ ?_, fun hcold ↦ ?_⟩
  · exact not_completesWithin_of_trimmedColdStart hcold _ hwithin
  · exact not_completesWithin_of_trimmedColdStart hcold polls hwithin
  · exact ⟨_, hcompletes hcold⟩

/-- A store without a checkpoint, with two records to replay and at most three idle polls. -/
def unread : World :=
  Sample.world .empty (Sample.broker (Sample.log [Sample.first, Sample.second]) (some 3))

/-- Nothing keeps a store with two records to replay from completing. -/
theorem rehydrate_completes_iff_sample :
    (CompletesWithin Sample.settings Sample.orders Sample.changelog 30
        (pollBound unread.broker Sample.changelog) unread ↔
        ¬ TrimmedColdStart none (unread.broker.changelogs Sample.changelog)) ∧
      ((∃ polls, CompletesWithin Sample.settings Sample.orders Sample.changelog 30 polls unread) ↔
        ¬ TrimmedColdStart none (unread.broker.changelogs Sample.changelog)) := by
  refine rehydrate_completes_iff (by decide) ⟨?_, ?_, rfl⟩ (fun _ hnone ↦ by cases hnone)
  · change OffsetLog.Dense ((Sample.broker _ _).changelogs Sample.changelog)
    rw [Sample.broker_changelogs]
    exact OffsetLog.dense_empty.extend _
  · change ∀ entry ∈ ((Sample.broker _ _).changelogs Sample.changelog).entries, _
    rw [Sample.broker_changelogs]
    exact Sample.replayable_log (by simp)

/-- A store without a checkpoint, and a log whose only record was trimmed away. -/
def trimmedAway : World :=
  Sample.world .empty (Sample.broker ((Sample.log [Sample.first]).trim 1) (some 0))

/-- The rehydrate of a log that was trimmed to its end never completes without a checkpoint,
although nothing fails, nobody touches the log and no poll is idle. -/
theorem not_completesWithin_trimmedAway :
    Quiescent Sample.settings.json trimmedAway.broker Sample.changelog ∧
      trimmedAway.database.checkpoint Sample.orders = none ∧
      ¬ ∃ polls, CompletesWithin Sample.settings Sample.orders Sample.changelog 30 polls
        trimmedAway := by
  have hlog : trimmedAway.broker.changelogs Sample.changelog = (Sample.log [Sample.first]).trim 1 :=
    Sample.broker_changelogs _ _
  have hentries : ((Sample.log [Sample.first]).trim 1).entries = [] := rfl
  refine ⟨⟨?_, ?_, rfl⟩, rfl, fun ⟨polls, hcompletes⟩ ↦ ?_⟩
  · rw [hlog]
    intro offset hstart hstop
    exact absurd (lt_of_le_of_lt hstart hstop) (lt_irrefl 1)
  · rw [hlog, hentries]
    exact fun _ hentry ↦ absurd hentry List.not_mem_nil
  · refine not_completesWithin_of_trimmedColdStart ⟨rfl, ?_, ?_⟩ polls hcompletes
    · rw [hlog]
      rfl
    · rw [hlog]
      exact Int.one_pos

end KSQLite.Rehydrate
