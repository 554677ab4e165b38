import KSQLite.Rehydrate.Machine

/-!
# The code runs inside the rehydrate machine

`rehydrateOne_refines` and `assignOne_refines`: from a state the machine reaches, whatever the
surroundings do, every call of the code is pending at a point of the machine that awaits it, and
every end of the code is an end of the machine: a return at a reveal that committed, an error at a
point where a pending call may raise, or a loop out of fuel at its head. The proof follows the
code; each of its pieces starts and ends at the points of the machine.
-/

set_option autoImplicit false
set_option relaxedAutoImplicit false

namespace KSQLite.Rehydrate

open KSQLite.Log KSQLite.Suspension KSQLite.Store

variable {job : Job} {origin : Point × World}

/-- A call is pending at a point the machine reaches. -/
def Pending (job : Job) (origin : Point × World) (call : Call) (world : World) : Prop :=
  ∃ point, Reaches job origin (point, world) ∧ Awaits job.settings job.tp job.name point call

/-- A point may fail: step 0 refuses, the consumer refuses a negative offset, or a pending call
raises what the code does not recover from. -/
def Fails (job : Job) (point : Point) (world : World) : Prop :=
  point = .checking ∨
  (∃ checkpoint leo, point = .opened (some checkpoint) leo ∧ checkpoint + 1 < 0) ∨
  ∃ call error, Awaits job.settings job.tp job.name point call ∧
    Raises job.settings job.conditions world call error ∧
    ((∃ name limit, call = .getmany name limit) → error ≠ .kafka .offsetOutOfRange)

/-- The ends of the machine. -/
def Ends {Value : Type} (job : Job) (origin : Point × World) : Outcome Error Value → World → Prop
  | .returned _, world => ∃ status, Reaches job origin (.revealed status, world)
  | .raised _, world => ∃ point, Reaches job origin (point, world) ∧ Fails job point world
  | .exhausted, world => ∃ leo replay,
    Reaches job origin (.polling leo 0 replay, world) ∧ replay.position ≠ leo

/-- The surroundings of a job. -/
abbrev Job.environment (job : Job) : Environment requests World :=
  Store.environment job.settings job.conditions

theorem Reaches.step {point next : Point} {world after : World}
    (hreaches : Reaches job origin (point, world)) (hstep : Step job (point, world) (next, after)) :
    Reaches job origin (next, after) :=
  hreaches.tail hstep

/-- While a call of the machine is pending, the machine only drifts. -/
theorem Reaches.settles {point : Point} {call : Call} {world : World} {broker : Broker}
    (hreaches : Reaches job origin (point, world))
    (hawaits : Awaits job.settings job.tp job.name point call)
    (hsettles : Settles job.conditions call world.broker broker) :
    Reaches job origin (point, world.drift broker) := by
  have hdrifts : Drifts job.conditions world.broker broker := by
    refine (settles_iff_drifts ?_).mp hsettles
    rintro name message rfl
    cases hawaits
  clear hsettles
  induction hdrifts with
  | refl => exact hreaches
  | tail _ hdisturb ih => exact ih.step (.drift hawaits hdisturb)

/-- A call pending at a point: it raises at the point, or the code goes on from there. -/
theorem holds_perform_at {point : Point} {call : Call} {world : World}
    {post : Outcome Error call.Result → World → Prop}
    (hreaches : Reaches job origin (point, world))
    (hawaits : Awaits job.settings job.tp job.name point call)
    (hraised : ∀ between error, Reaches job origin (point, between) →
      Raises job.settings job.conditions between call error → post (.raised error) between)
    (hreturned : ∀ between value next, Reaches job origin (point, between) →
      Succeeds job.settings job.conditions between call value next →
      post (.returned value) next) :
    Holds job.environment (AtCall (Pending job origin)) post (perform call) world := by
  refine holds_perform.mpr fun broker hbroker ↦ ?_
  have hpoint := hreaches.settles hawaits hbroker
  exact ⟨⟨point, hpoint, hawaits⟩, fun error ↦ hraised _ error hpoint,
    fun value next ↦ hreturned _ value next hpoint⟩

/-- A point fails when a pending call that is no fetch raises. -/
theorem fails_of_raises {point : Point} {call : Call} {world : World} {error : Error}
    (hawaits : Awaits job.settings job.tp job.name point call)
    (hraises : Raises job.settings job.conditions world call error)
    (hfetch : ∀ name limit, call ≠ .getmany name limit) : Fails job point world :=
  Or.inr (Or.inr ⟨call, error, hawaits, hraises, fun ⟨name, limit, hcall⟩ ↦
    absurd hcall (hfetch name limit)⟩)

/-! ### The pieces of the code -/

/-- The checkpoint is read at a point that awaits it. -/
theorem holds_readCheckpoint_at {point : Point} {world : World}
    {post : Outcome Error (Option ℤ) → World → Prop} (hreaches : Reaches job origin (point, world))
    (hawaits : Awaits job.settings job.tp job.name point (.selectCheckpoint job.tp))
    (hraised : ∀ between error, Reaches job origin (point, between) → Fails job point between →
      post (.raised error) between)
    (hreturned : ∀ between, Reaches job origin (point, between) →
      post (.returned (between.database.checkpoint job.tp)) between) :
    Holds job.environment (AtCall (Pending job origin)) post (readCheckpoint job.tp) world := by
  refine holds_mapError.mpr (holds_perform_at hreaches hawaits ?_ ?_)
  · exact fun between error hpoint hraises ↦ hraised between _ hpoint
      (fails_of_raises hawaits hraises (by simp))
  · rintro between checkpoint next hpoint ⟨rfl, rfl⟩
    exact hreturned next hpoint

/-- Seeding the checkpoint in memory takes effect at once. -/
theorem holds_seed {settings : Settings} {conditions : Conditions} {checkpoint : Option ℤ}
    {world : World} {condition : Call → World → Prop} {post : Outcome Error Unit → World → Prop}
    {tp : TopicPartition} :
    Holds (Store.environment settings conditions) (AtCall condition) post (seed tp checkpoint)
        world ↔
      post (.returned ()) (world.seed tp checkpoint) := by
  cases checkpoint with
  | none => rfl
  | some checkpoint =>
    change Holds _ _ _ (rememberState fun machine ↦ machine.recordApplied tp checkpoint) _ ↔ _
    exact holds_rememberState

/-- The consumer is started at a point that awaits it. -/
theorem holds_getConsumer_at {point : Point} {world : World}
    {post : Outcome Error Unit → World → Prop} (hreaches : Reaches job origin (point, world))
    (hstart : Awaits job.settings job.tp job.name point .startConsumer)
    (hstop : Awaits job.settings job.tp job.name point .stopConsumer)
    (hkeep : ∀ between, Step job (point, between) (point, between.keepConsumer))
    (hraised : ∀ between error, Reaches job origin (point, between) → Fails job point between →
      post (.raised error) between)
    (hreturned : ∀ between, Reaches job origin (point, between) →
      between.memory.consumer.isSome → post (.returned ()) between) :
    Holds job.environment (AtCall (Pending job origin)) post getConsumer world := by
  unfold getConsumer
  refine holds_bind.mpr (holds_observe.mpr ?_)
  change Holds _ _ _ (if world.memory.consumer.isNone = true then _ else _) world
  split_ifs with hnone
  · refine holds_bind.mpr (holds_handle.mpr (holds_perform_at hreaches hstart ?_ ?_))
    · -- The consumer did not start: it is stopped, and the first error goes on.
      intro between error hpoint hraises
      have hfails : ∀ after, Fails job point after := fun after ↦
        fails_of_raises hstart (Or.inl (hraises.resolve_right id)) (by simp)
      refine holds_bind.mpr (holds_handle.mpr (holds_perform_at hpoint hstop ?_ ?_))
      · exact fun after _ hafter _ ↦ hraised after error hafter (hfails after)
      · rintro after _ next hafter rfl
        exact hraised next error hafter (hfails next)
    · rintro between _ next hpoint rfl
      exact holds_remember.mpr (hreturned _ (hpoint.step (hkeep next)) rfl)
  · exact hreturned world hreaches (by simpa [Option.isSome_iff_ne_none] using hnone)

/-- The reveal ends the machine. -/
theorem holds_reveal_at {status : PartitionStatus} {world : World}
    {post : Outcome Error Unit → World → Prop}
    (hreaches : Reaches job origin (.revealing status, world))
    (hraised : ∀ between error, Reaches job origin (.revealing status, between) →
      Fails job (.revealing status) between → post (.raised error) between)
    (hreturned : ∀ between, Reaches job origin (.revealed status, between) →
      post (.returned ()) between) :
    Holds job.environment (AtCall (Pending job origin)) post (reveal job.tp) world := by
  refine holds_perform_at hreaches .reveal ?_ ?_
  · exact fun between error hpoint hraises ↦ hraised between error hpoint
      (fails_of_raises .reveal hraises (by simp))
  · rintro between _ next hpoint ⟨committed, hcommitted, rfl⟩
    cases hcommitted
    exact hreturned _ (hpoint.step .reveal)

/-! ### The loop -/

/-- The ends of the replay loop: revealed by a force-stop, or at the captured log end. -/
def LoopEnds (job : Job) (origin : Point × World) (leo : ℤ) :
    Outcome Error (Option Replay) → World → Prop
  | .returned none, world => ∃ status, Reaches job origin (.revealed status, world)
  | .returned (some replay), world =>
    ∃ fuel, Reaches job origin (.polling leo fuel replay, world) ∧ replay.position = leo
  | .raised error, world => Ends job origin (.raised error : Outcome Error Unit) world
  | .exhausted, world => Ends job origin (.exhausted : Outcome Error Unit) world

/-- The ends of one round. -/
def RoundEnds (job : Job) (origin : Point × World) (leo : ℤ) (fuel : ℕ) :
    Outcome Error (Replay ⊕ Option Replay) → World → Prop :=
  AfterRound (fun replay world ↦ Reaches job origin (.polling leo fuel replay, world))
    (LoopEnds job origin leo)

/-- At the deadline check the replay stops for good or goes on. -/
theorem holds_stopOrContinue {leo : ℤ} {fuel : ℕ} {replay : Replay} {world : World}
    (hreaches : Reaches job origin (.deciding leo fuel replay, world))
    (hend : replay.position = leo → replay.replayedAfterReset = 0) :
    Holds job.environment (AtCall (Pending job origin)) (RoundEnds job origin leo fuel)
      (stopOrContinue job.tp job.deadline replay) world := by
  unfold stopOrContinue
  refine holds_bind.mpr (holds_clock.mpr fun reading hreading ↦ ?_)
  change Holds _ _ _ (if job.deadline ≤ reading then _ else _) world
  split_ifs with hdeadline
  · have hstopped := hreaches.step (.expire ⟨reading, hreading, hdeadline⟩ hend)
    refine holds_bind.mpr (holds_bind.mpr (holds_rememberState.mpr ?_))
    refine holds_reveal_at hstopped ?_ ?_
    · exact fun between error hat hfails ↦ ⟨_, hat, hfails⟩
    · exact fun between hrevealed ↦ ⟨.readyPartial, hrevealed⟩
  · exact hreaches.step .goOn

/-- One round of the loop. -/
theorem holds_pollOnce {leo : ℤ} {fuel : ℕ} {replay : Replay} {world : World}
    (hreaches : Reaches job origin (.polling leo (fuel + 1) replay, world))
    (hposition : replay.position ≠ leo) :
    Holds job.environment (AtCall (Pending job origin)) (RoundEnds job origin leo fuel)
      (pollOnce job.settings job.tp job.name leo job.deadline replay) world := by
  have hpoll : Awaits job.settings job.tp job.name (.polling leo (fuel + 1) replay)
      (.getmany job.name job.settings.batchSize) := .poll hposition
  unfold pollOnce
  refine holds_bind.mpr (holds_attempt.mpr fun broker hbroker ↦ ?_)
  have hpoint := hreaches.settles hpoll hbroker
  refine ⟨⟨_, hpoint, hpoll⟩, fun error hraises ↦ ?_, fun records next hsucceeds ↦ ?_⟩
  · change Holds _ _ _ (if error = _ then _ else _) _
    split_ifs with herror
    · -- The log was truncated.
      subst herror
      have hlost := hpoint.step (.lose hposition hraises)
      refine holds_bind.mpr (holds_perform_at hlost .readStart ?_ ?_)
      · exact fun between error hat hfails ↦ ⟨_, hat, fails_of_raises .readStart hfails (by simp)⟩
      rintro between logStart after hat ⟨rfl, rfl⟩
      refine holds_bind.mpr (holds_perform_at (hat.step .readStart) .reset ?_ ?_)
      · exact fun between error hat hfails ↦ ⟨_, hat, fails_of_raises .reset hfails (by simp)⟩
      rintro between _ after hat rfl
      exact holds_stopOrContinue (hat.step .reset) fun _ ↦ rfl
    · exact ⟨_, hpoint, Or.inr (Or.inr ⟨_, error, hpoll, hraises, fun _ ↦ herror⟩)⟩
  · rw [sequel_returned]
    dsimp only
    rcases hsucceeds with ⟨rfl, hnothing⟩ | ⟨hserves, hfetches⟩
    · exact holds_stopOrContinue (hpoint.step (.idle hposition hnothing))
        fun hend ↦ absurd hend hposition
    · obtain ⟨position, last, hfetch⟩ := id hfetches
      have hlast : records.getLast? = some last := hfetch.2.2.2.1
      have hfetched := hpoint.step (.fetch hposition hserves hfetches hlast)
      have hpositive : 0 < records.length :=
        List.length_pos_of_mem (List.mem_of_getLast? hlast)
      rw [hlast]
      refine holds_bind.mpr (holds_bind.mpr (holds_perform_at hfetched .materialize ?_ ?_))
      · exact fun between error hat hfails ↦ ⟨_, hat, fails_of_raises .materialize hfails (by simp)⟩
      rintro between _ after hat ⟨database, hrun, rfl⟩
      have hadvanced := hat.step (.materialize hlast hrun)
      refine sequel_returned.mpr (holds_rememberState.mpr ?_)
      change Holds _ _ _ (if (replay.advance records.length last.1).position ≠ leo then _ else _) _
      split_ifs with hend
      · exact holds_stopOrContinue hadvanced fun hleo ↦ absurd hleo hend
      · exact hadvanced.step .goOn

/-- The loop. -/
theorem holds_loop {leo : ℤ} {fuel : ℕ} {replay : Replay} {world : World}
    (hreaches : Reaches job origin (.polling leo fuel replay, world)) :
    Holds job.environment (AtCall (Pending job origin)) (LoopEnds job origin leo)
      (Program.iterate fuel (caughtUp leo)
        (pollOnce job.settings job.tp job.name leo job.deadline) replay) world := by
  refine holds_iterate
    (fun fuel replay world ↦ Reaches job origin (.polling leo fuel replay, world))
    ?_ ?_ ?_ hreaches
  · intro fuel replay world value hpoint hguard
    unfold caughtUp at hguard
    split_ifs at hguard with hposition
    cases hguard
    exact ⟨fuel, hpoint, hposition⟩
  · intro fuel replay world hpoint hguard
    refine holds_pollOnce hpoint fun hposition ↦ ?_
    simp [caughtUp, hposition] at hguard
  · intro replay world hpoint hguard
    refine ⟨leo, replay, hpoint, fun hposition ↦ ?_⟩
    simp [caughtUp, hposition] at hguard

/-! ### The whole -/

/-- What follows a loop that was left at the captured log end. -/
theorem holds_finishReplay {leo : ℤ} {fuel : ℕ} {replay : Replay} {world : World}
    (hreaches : Reaches job origin (.polling leo fuel replay, world))
    (hposition : replay.position = leo) :
    Holds job.environment (AtCall (Pending job origin)) (Ends job origin)
      (finishReplay job.tp leo replay) world := by
  have hready : ∀ between : World, Reaches job origin
      (.revealing .ready, between.onState (·.markReady job.tp)) →
      Holds job.environment (AtCall (Pending job origin)) (Ends job origin)
        (rememberState (·.markReady job.tp) >>= fun _ ↦ reveal job.tp) between := by
    intro between hrevealing
    refine holds_bind.mpr (holds_rememberState.mpr ?_)
    refine holds_reveal_at hrevealing ?_ fun after hrevealed ↦ ⟨_, hrevealed⟩
    exact fun after error hat hfails ↦ ⟨_, hat, hfails⟩
  unfold finishReplay
  change Holds _ _ _ (if replay.resetOccurred = true then _ else _) world
  split_ifs with hreset
  · have hclamping := hreaches.step (.leaveReset hposition hreset)
    refine holds_bind.mpr (holds_bind.mpr (holds_readCheckpoint_at hclamping .readStored ?_ ?_))
    · exact fun between error hat hfails ↦ ⟨_, hat, hfails⟩
    intro between hat
    rw [sequel_returned]
    dsimp only
    cases htarget : clampTarget (between.database.checkpoint job.tp) leo replay.resetLogStart
        replay.replayedAfterReset with
    | none => exact hready between (hat.step (.keep htarget))
    | some target =>
      refine holds_bind.mpr (holds_perform_at (hat.step (.aim htarget)) .clamp ?_ ?_)
      · exact fun after error hat hfails ↦ ⟨_, hat, fails_of_raises .clamp hfails (by simp)⟩
      rintro after _ last hat ⟨database, hrun, rfl⟩
      cases hrun
      exact sequel_returned.mpr (holds_rememberState.mpr (hready _ (hat.step .clamp)))
  · exact hready world (hreaches.step (.leave hposition (by simpa using hreset)))

/-- A rehydrate runs inside the machine. -/
theorem rehydrateOne_refines {world : World}
    (hreaches : Reaches job origin (.entered, world)) :
    Holds job.environment (AtCall (Pending job origin)) (Ends job origin)
      (rehydrateOne job.settings job.fuel job.tp job.name job.deadline) world := by
  unfold rehydrateOne
  refine holds_bind.mpr (holds_readCheckpoint_at hreaches .readCheckpoint ?_ ?_)
  · exact fun between error hat hfails ↦ ⟨_, hat, hfails⟩
  intro entered hentered
  refine holds_bind.mpr (holds_seed.mpr ?_)
  refine holds_bind.mpr (holds_getConsumer_at (hentered.step .seed) .startConsumer .stopConsumer
    (fun _ ↦ .keepConsumer) ?_ ?_)
  · exact fun between error hat hfails ↦ ⟨_, hat, hfails⟩
  intro seeded hseeded hconsumer
  refine holds_bind.mpr (holds_perform_at (hseeded.step (.connect hconsumer)) .capture ?_ ?_)
  · exact fun between error hat hfails ↦ ⟨_, hat, fails_of_raises .capture hfails (by simp)⟩
  rintro between leo next hat ⟨hleo, rfl⟩
  refine holds_bind.mpr (holds_rememberState.mpr ?_)
  refine holds_bind.mpr (holds_rememberState.mpr ?_)
  refine holds_bind.mpr (holds_remember.mpr ?_)
  have hloop : ∀ replay after, Reaches job origin (.polling leo job.fuel replay, after) →
      Holds job.environment (AtCall (Pending job origin)) (Ends job origin)
        (Program.iterate job.fuel (caughtUp leo)
          (pollOnce job.settings job.tp job.name leo job.deadline) replay >>=
            leaveLoop job.tp leo) after := by
    intro replay after hpolling
    refine (holds_loop hpolling).bind ?_ (fun _ _ hends ↦ hends) fun _ hends ↦ hends
    rintro (_ | replay) final hfinal
    · exact hfinal
    · obtain ⟨fuel, hpoint, hposition⟩ := hfinal
      exact holds_finishReplay hpoint hposition
  have hopened := hat.step (.capture hleo)
  cases hcheckpoint : entered.database.checkpoint job.tp with
  | none =>
    rw [hcheckpoint] at hopened
    refine holds_bind.mpr (holds_bind.mpr (holds_perform_at hopened .seekToBeginning ?_ ?_))
    · exact fun after error hat hfails ↦
        ⟨_, hat, fails_of_raises .seekToBeginning hfails (by simp)⟩
    rintro after _ last hat rfl
    exact hloop _ _ (hat.step .openCold)
  | some checkpoint =>
    rw [hcheckpoint] at hopened
    refine holds_bind.mpr (holds_bind.mpr ?_)
    unfold seek
    by_cases hnegative : checkpoint + 1 < 0
    · rw [if_pos hnegative]
      exact ⟨_, hopened, Or.inr (Or.inl ⟨checkpoint, leo, rfl, hnegative⟩)⟩
    · rw [if_neg hnegative]
      have hpolling := hopened.step (.openWarm (not_lt.mp hnegative))
      exact holds_remember.mpr (hloop _ _ hpolling)

/-- A partition the deadline kept from replaying is revealed inside the machine. -/
theorem revealPartialUnreached_refines {world : World}
    (hreaches : Reaches job origin (.unreached, world)) :
    Holds job.environment (AtCall (Pending job origin)) (Ends job origin)
      (revealPartialUnreached job.tp job.name) world := by
  unfold revealPartialUnreached
  refine holds_bind.mpr (holds_getConsumer_at hreaches .startUnreached .stopUnreached
    (fun _ ↦ .keepUnreached) ?_ ?_)
  · exact fun between error hat hfails ↦ ⟨_, hat, hfails⟩
  intro started hstarted _
  refine holds_bind.mpr (holds_perform_at hstarted .captureUnreached ?_ ?_)
  · exact fun between error hat hfails ↦ ⟨_, hat, fails_of_raises .captureUnreached
      hfails (by simp)⟩
  rintro between leo next hat ⟨hleo, rfl⟩
  refine holds_bind.mpr (holds_rememberState.mpr ?_)
  refine holds_bind.mpr (holds_readCheckpoint_at (hat.step (.captureUnreached hleo))
    .readUnreached ?_ ?_)
  · exact fun between error hat hfails ↦ ⟨_, hat, hfails⟩
  intro after hafter
  refine holds_bind.mpr (holds_seed.mpr ?_)
  refine holds_bind.mpr (holds_rememberState.mpr ?_)
  refine holds_reveal_at (hafter.step .seedUnreached) ?_ fun last hrevealed ↦ ⟨_, hrevealed⟩
  exact fun after error hat hfails ↦ ⟨_, hat, hfails⟩

/-- Step 0 stays at its point, or refuses there. -/
theorem holds_ensure_at {world : World} {post : Outcome Error Unit → World → Prop}
    (hreaches : Reaches job origin (.checking, world))
    (hraised : ∀ between error, Reaches job origin (.checking, between) →
      post (.raised error) between)
    (hreturned : ∀ between, Reaches job origin (.checking, between) →
      post (.returned ()) between) :
    Holds job.environment (AtCall (Pending job origin)) post (ensure job.settings job.name)
      world := by
  have hverify : ∀ between, Reaches job origin (.checking, between) →
      Holds job.environment (AtCall (Pending job origin)) post
        (if job.settings.verifyChangelogPolicy = true then verifyPolicy job.name else pure ())
        between := by
    intro between hat
    split_ifs
    · refine holds_perform_at hat .describeConfigs (fun after error hafter _ ↦ ?_) ?_
      · exact hraised after error hafter
      · rintro after _ next hafter rfl
        exact hreturned _ hafter
    · exact hreturned between hat
  unfold ensure
  refine holds_bind.mpr (holds_perform_at hreaches .listTopics (fun _ error hat _ ↦ ?_) ?_)
  · exact hraised _ error hat
  rintro between topics next hat ⟨htopics, rfl⟩
  change Holds _ _ _ (if job.name ∉ topics then _ else _) _
  by_cases hmissing : job.name ∉ topics
  · rw [if_pos hmissing]
    cases job.settings.retention with
    | none => exact hraised _ _ hat
    | some retention =>
      refine holds_bind.mpr (holds_bind.mpr (holds_perform_at hat .createTopic
        (fun _ error hat _ ↦ hraised _ error hat) ?_))
      intro between topicErrors next hat hcreated
      have hnext : Reaches job origin (.checking, next) := by
        rcases hcreated with ⟨_, rfl⟩ | ⟨code, message, _, rfl, _⟩
        · exact hat.step .createTopic
        · exact hat
      change Holds _ _ _ (Program.ofExcept (checkTopicErrors job.name topicErrors)) next
      cases checkTopicErrors job.name topicErrors with
      | error error => exact hraised _ _ hnext
      | ok _ => exact hverify next hnext
  · rw [if_neg hmissing]
    exact hverify _ hat

/-- Step 0 resolves the changelog at its point, or refuses there.
Assumes: the changelog of the job is that of its partition. -/
theorem holds_ensureAndVerify_at {world : World} {post : Outcome Error String → World → Prop}
    (hname : job.settings.template job.tp = job.name)
    (hreaches : Reaches job origin (.checking, world))
    (hraised : ∀ between error, Reaches job origin (.checking, between) →
      post (.raised error) between)
    (hreturned : ∀ between, Reaches job origin (.checking, between) →
      post (.returned job.name) between) :
    Holds job.environment (AtCall (Pending job origin)) post
      (ensureAndVerify job.settings job.tp) world := by
  unfold ensureAndVerify
  cases hresolved : changelogName job.settings job.tp with
  | error error => exact hraised world _ hreaches
  | ok name =>
    obtain rfl := (eq_template_of_changelogName hresolved).trans hname
    refine holds_bind.mpr (holds_ofExcept_ok.mpr ?_)
    refine sequel_returned.mpr (holds_bind.mpr (holds_observe.mpr ?_))
    change Holds _ _ _ (if job.tp ∈ world.memory.checked then _ else _) world
    split_ifs
    · exact hreturned world hreaches
    · refine holds_bind.mpr (holds_mapError.mpr (holds_ensure_at hreaches ?_ ?_))
      · exact fun between error hat ↦ hraised between _ hat
      intro between hat
      refine sequel_returned.mpr (holds_bind.mpr (holds_remember.mpr ?_))
      exact hreturned _ (hat.step .check)

/-- The assignment of one partition runs inside the machine.
Assumes: the changelog of the job is that of its partition. -/
theorem assignOne_refines {first : Bool} {world : World}
    (hname : job.settings.template job.tp = job.name)
    (hreaches : Reaches job origin (.checking, world)) :
    Holds job.environment (AtCall (Pending job origin)) (Ends job origin)
      (assignOne job.settings job.fuel job.deadline first job.tp) world := by
  have hreplay : ∀ between, Reaches job origin (.checking, between) →
      Holds job.environment (AtCall (Pending job origin)) (Ends job origin)
        (do rehydrateOne job.settings job.fuel job.tp job.name job.deadline
            return false) between := by
    intro between hat
    exact (rehydrateOne_refines (hat.step .enter)).bind (fun _ _ hends ↦ hends)
      (fun _ _ hends ↦ hends) fun _ hends ↦ hends
  have hbody : ∀ between, Reaches job origin (.checking, between) →
      Holds job.environment (AtCall (Pending job origin)) (Ends job origin)
        (do let expired ← deadlinePassed first job.deadline
            if expired then
              revealPartialUnreached job.tp job.name
              return first
            else
              rehydrateOne job.settings job.fuel job.tp job.name job.deadline
              return false) between := by
    intro between hat
    unfold deadlinePassed
    cases first with
    | true => exact hreplay between hat
    | false =>
      refine holds_bind.mpr (holds_bind.mpr (holds_clock.mpr fun reading hreading ↦ ?_))
      change Holds _ _ _ (if decide (job.deadline ≤ reading) = true then _ else _) between
      split_ifs with hdeadline
      · refine (revealPartialUnreached_refines (hat.step (.skip ⟨reading, hreading, ?_⟩))).bind
          (fun _ _ hends ↦ hends) (fun _ _ hends ↦ hends) fun _ hends ↦ hends
        exact of_decide_eq_true hdeadline
      · exact hreplay between hat
  exact holds_bind.mpr (holds_ensureAndVerify_at hname hreaches
    (fun between error hat ↦ ⟨_, hat, Or.inl rfl⟩) hbody)

/-- What the assignment of one partition needs, read off the machine.
Assumes: the changelog of the job is that of its partition. -/
theorem holds_assignOne {first : Bool} {world : World} {condition : Call → World → Prop}
    {post : Outcome Error Bool → World → Prop} (job : Job)
    (hname : job.settings.template job.tp = job.name)
    (hmoment : ∀ point call between, Reaches job (.checking, world) (point, between) →
      Awaits job.settings job.tp job.name point call → condition call between)
    (hreturned : ∀ status value final, Reaches job (.checking, world) (.revealed status, final) →
      post (.returned value) final)
    (hraised : ∀ point error final, Reaches job (.checking, world) (point, final) →
      Fails job point final → post (.raised error) final)
    (hexhausted : ∀ leo replay final,
      Reaches job (.checking, world) (.polling leo 0 replay, final) →
      replay.position ≠ leo → post .exhausted final) :
    Holds job.environment (AtCall condition) post
      (assignOne job.settings job.fuel job.deadline first job.tp) world := by
  have hrefines := (assignOne_refines hname
    (.refl : Reaches job (.checking, world) (.checking, world)) :
      Holds _ _ _ (assignOne _ _ _ first _) world)
  refine hrefines.mono ?_ ?_
  · intro request between hpending
    cases request with
    | call call =>
      obtain ⟨point, hreaches, hawaits⟩ := hpending
      exact hmoment point call between hreaches hawaits
    | _ => trivial
  · rintro (value | error | _) final hends
    · obtain ⟨status, hreaches⟩ := hends
      exact hreturned status value final hreaches
    · obtain ⟨point, hreaches, hfails⟩ := hends
      exact hraised point error final hreaches hfails
    · obtain ⟨leo, replay, hreaches, hposition⟩ := hends
      exact hexhausted leo replay final hreaches hposition

end KSQLite.Rehydrate
