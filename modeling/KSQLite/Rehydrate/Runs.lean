import KSQLite.Rehydrate.Refinement

/-!
# Runs, read off what holds

What holds of every run of a rehydrate holds of any particular one. Each lemma follows the code
from one point to a later one along calls that succeed, and says what the postcondition needs
there. They are used where one run refutes a property.
-/

set_option autoImplicit false
set_option relaxedAutoImplicit false

namespace KSQLite.Rehydrate

open KSQLite.Log KSQLite.Suspension KSQLite.Store

variable {settings : Settings} {conditions : Conditions} {condition : Call → World → Prop}
  {world : World}

/-- What `_get_consumer` needs of the world in which the consumer is there. -/
theorem exists_started {post : Outcome Error Unit → World → Prop}
    (hconsumer : Holds (environment settings conditions) (AtCall condition) post
      getConsumer world) :
    ∃ started : World, started.database = world.database ∧ started.broker = world.broker ∧
      started.memory.consumer.isSome ∧ post (.returned ()) started := by
  have hobserved := holds_observe.mp (holds_bind.mp hconsumer)
  rw [sequel_returned] at hobserved
  split_ifs at hobserved with hnone
  · have hstarts : Succeeds settings conditions world .startConsumer () world := rfl
    have hstarted := holds_result (holds_handle.mp (holds_bind.mp hobserved)) hstarts
    exact ⟨world.keepConsumer, rfl, rfl, rfl, holds_remember.mp hstarted⟩
  · exact ⟨world, rfl, rfl, by simpa [Option.isSome_iff_ne_none] using hnone, hobserved⟩

/-- What an assignment of one partition that passed step 0 needs of its rehydrate.
Assumes: the changelog is listed, its name is legal and its policy is not looked at. -/
theorem exists_rehydrate {tp : TopicPartition} {fuel : ℕ} {reading : ℤ}
    {post : Outcome Error Unit → World → Prop} (hshows : conditions.shows reading)
    (hname : changelogName settings tp = .ok (settings.template tp))
    (hlisted : settings.template tp ∈ world.broker.topics)
    (hpolicy : settings.verifyChangelogPolicy = false)
    (hassign : Holds (environment settings conditions) (AtCall condition) post
      (onPartitionsAssigned settings fuel [tp]) world) :
    ∃ checked : World, checked.database = world.database ∧ checked.broker = world.broker ∧
      checked.memory.state = world.memory.state ∧
      checked.memory.runState = world.memory.runState ∧
      Holds (environment settings conditions) (AtCall condition)
        (fun outcome final ↦ post (outcome.mapError (assignmentError tp)) final)
        (rehydrateOne settings fuel tp (settings.template tp)
          (reading + settings.rehydrateTimeout)) checked := by
  have hall := sequel_returned.mp (holds_clock.mp (holds_bind.mp hassign) reading hshows)
  have hone := holds_bind.mp (holds_mapError.mp (holds_bind.mp hall))
  -- The rest of the assignment, once step 0 returned the name.
  have hrest {checked : World}
      (hpassed : Holds (environment settings conditions) (AtCall condition)
        (fun outcome final ↦ Sequel (environment settings conditions) (AtCall condition) post
          (fun first ↦ assignAll settings fuel (reading + settings.rehydrateTimeout) first [])
          (outcome.mapError (assignmentError tp)) final)
        (do let expired ← deadlinePassed true (reading + settings.rehydrateTimeout)
            if expired then
              revealPartialUnreached tp (settings.template tp)
              return true
            else
              rehydrateOne settings fuel tp (settings.template tp)
                (reading + settings.rehydrateTimeout)
              return false) checked) :
      Holds (environment settings conditions) (AtCall condition)
        (fun outcome final ↦ post (outcome.mapError (assignmentError tp)) final)
        (rehydrateOne settings fuel tp (settings.template tp)
          (reading + settings.rehydrateTimeout)) checked := by
    have hbody : Holds (environment settings conditions) (AtCall condition) _
        (do rehydrateOne settings fuel tp (settings.template tp)
              (reading + settings.rehydrateTimeout)
            return false) checked := sequel_returned.mp (holds_finish.mp (holds_bind.mp hpassed))
    refine (holds_bind.mp hbody).mono (fun _ _ hmoment ↦ hmoment) ?_
    rintro (value | error | _) final hfinal
    · exact hfinal
    · exact hfinal
    · exact hfinal
  unfold ensureAndVerify at hone
  rw [hname] at hone
  have hobserved := sequel_returned.mp (holds_observe.mp (holds_bind.mp hone))
  by_cases hchecked : tp ∈ world.memory.checked
  · rw [if_pos hchecked] at hobserved
    exact ⟨world, rfl, rfl, rfl, rfl, hrest hobserved⟩
  · rw [if_neg hchecked] at hobserved
    have hensure := holds_mapError.mp (holds_bind.mp hobserved)
    unfold ensure at hensure
    have hlists : Succeeds settings conditions world .listTopics world.broker.topics world :=
      ⟨rfl, rfl⟩
    have hexists := sequel_returned.mp (holds_result (holds_bind.mp hensure) hlists)
    rw [if_neg (not_not.mpr hlisted)] at hexists
    rw [hpolicy] at hexists
    have hremembered := holds_remember.mp (holds_bind.mp (sequel_returned.mp hexists))
    exact ⟨world.check tp, rfl, rfl, rfl, rfl, hrest (sequel_returned.mp hremembered)⟩

/-- Where the consumer is placed for a checkpoint. -/
def placement (log : OffsetLog Message) : Option ℤ → ℤ
  | none => log.start
  | some checkpoint => checkpoint + 1

/-- What a rehydrate needs of the world in which the consumer is placed. -/
theorem exists_opened {tp : TopicPartition} {name : String} {deadline : ℤ} {fuel : ℕ}
    {post : Outcome Error Unit → World → Prop}
    (hcheckpoint : ∀ checkpoint ∈ world.database.checkpoint tp, 0 ≤ checkpoint + 1)
    (hrehydrate : Holds (environment settings conditions) (AtCall condition) post
      (rehydrateOne settings fuel tp name deadline) world) :
    ∃ opened : World, opened.database = world.database ∧ opened.broker = world.broker ∧
      opened.memory.state.logEndOf tp = some (world.broker.changelogs name).stop ∧
      opened.memory.fetchPosition name =
        some (placement (world.broker.changelogs name) (world.database.checkpoint tp)) ∧
      Holds (environment settings conditions) (AtCall condition)
        (Sequel (environment settings conditions) (AtCall condition) post
          (leaveLoop tp (world.broker.changelogs name).stop))
        (Program.iterate fuel (caughtUp (world.broker.changelogs name).stop)
          (pollOnce settings tp name (world.broker.changelogs name).stop deadline)
          (.start (world.database.checkpoint tp)
            (PartitionStateMachine.nextOffset (world.database.checkpoint tp)))) opened := by
  have hreads : Succeeds settings conditions world (.selectCheckpoint tp)
    (world.database.checkpoint tp) world := ⟨rfl, rfl⟩
  have hread := sequel_returned.mp
    (holds_result (holds_mapError.mp (holds_bind.mp hrehydrate)) hreads)
  have hseeded := sequel_returned.mp (holds_seed.mp (holds_bind.mp hread))
  obtain ⟨started, hdatabase, hbroker, hconsumer, hcapture⟩ :=
    exists_started (holds_bind.mp hseeded)
  rw [World.seed_database] at hdatabase
  rw [World.seed_broker] at hbroker
  rw [← hbroker, ← hdatabase]
  have hends : Succeeds settings conditions started (.endOffset name)
    (started.broker.changelogs name).stop started := ⟨rfl, rfl⟩
  have hcaptured := sequel_returned.mp (holds_result (holds_bind.mp hcapture) hends)
  have hlogEnd := sequel_returned.mp (holds_rememberState.mp (holds_bind.mp hcaptured))
  have hrestoring := sequel_returned.mp (holds_rememberState.mp (holds_bind.mp hlogEnd))
  have hassigned := sequel_returned.mp (holds_remember.mp (holds_bind.mp hrestoring))
  let captured := started.capture tp name (started.broker.changelogs name).stop
  have hassignment : captured.memory.Assigned name := World.capture_assigned hconsumer
  have hleo : captured.memory.state.logEndOf tp = some (started.broker.changelogs name).stop :=
    World.capture_logEndOf
  refine ⟨captured.seek (placement (started.broker.changelogs name)
    (started.database.checkpoint tp)), rfl, rfl, hleo, hassignment.fetchPosition _, ?_⟩
  rw [← hdatabase] at hcheckpoint hassigned
  cases hstored : started.database.checkpoint tp with
  | none =>
    rw [hstored] at hassigned
    have hseeks : Succeeds settings conditions captured (.seekToBeginning name) ()
      (captured.seek (captured.broker.changelogs name).start) := rfl
    have hopened := holds_result (holds_bind.mp (holds_bind.mp hassigned)) hseeks
    exact holds_bind.mp (sequel_returned.mp (sequel_returned.mp hopened))
  | some checkpoint =>
    rw [hstored] at hassigned
    have hplaced := holds_bind.mp (holds_bind.mp hassigned)
    unfold seek at hplaced
    rw [if_neg (not_lt.mpr (hcheckpoint checkpoint hstored))] at hplaced
    have hopened := holds_remember.mp hplaced
    exact holds_bind.mp (sequel_returned.mp (sequel_returned.mp hopened))

/-- A loop that is at the captured log end from the start is followed by the reveal. -/
theorem holds_reveal_of_caughtUp {tp : TopicPartition} {name : String} {leo deadline : ℤ}
    {fuel : ℕ} {checkpoint : Option ℤ} {post : Outcome Error Unit → World → Prop}
    (hloop : Holds (environment settings conditions) (AtCall condition)
      (Sequel (environment settings conditions) (AtCall condition) post (leaveLoop tp leo))
      (Program.iterate fuel (caughtUp leo) (pollOnce settings tp name leo deadline)
        (.start checkpoint leo)) world) :
    Holds (environment settings conditions) (AtCall condition) post (reveal tp)
      (world.onState (·.markReady tp)) := by
  have hguard : caughtUp leo (.start checkpoint leo) = some (some (.start checkpoint leo)) :=
    if_pos rfl
  unfold Program.iterate at hloop
  rw [hguard] at hloop
  have hfinish : Holds _ _ post (finishReplay tp leo (.start checkpoint leo)) world := hloop
  exact sequel_returned.mp (holds_rememberState.mp (holds_bind.mp hfinish))

/-- What follows a loop that is at the captured log end from the start, once it is revealed. -/
theorem post_of_caughtUp {tp : TopicPartition} {name : String} {leo deadline : ℤ} {fuel : ℕ}
    {checkpoint : Option ℤ} {post : Outcome Error Unit → World → Prop}
    (hloop : Holds (environment settings conditions) (AtCall condition)
      (Sequel (environment settings conditions) (AtCall condition) post (leaveLoop tp leo))
      (Program.iterate fuel (caughtUp leo) (pollOnce settings tp name leo deadline)
        (.start checkpoint leo)) world) :
    post (.returned ()) ((world.onState (·.markReady tp)).commit
      (world.database.insertOwned tp)) := by
  have hreveals : Succeeds settings conditions (world.onState (·.markReady tp))
      (.transaction (.ownedInsert tp)) ()
      ((world.onState (·.markReady tp)).commit (world.database.insertOwned tp)) :=
    ⟨_, rfl, rfl⟩
  exact holds_result (holds_reveal_of_caughtUp hloop) hreveals

/-- A loop that replays one batch up to the captured log end is followed by the reveal. -/
theorem holds_reveal_of_replayed {tp : TopicPartition} {name : String} {leo deadline : ℤ} {fuel : ℕ}
    {replay : Replay} {records : List (ℤ × Message)} {last : ℤ × Message} {committed : Database}
    {fetched : World} {post : Outcome Error Unit → World → Prop} (hposition : replay.position ≠ leo)
    (hreset : replay.resetOccurred = false) (hserves : conditions.serves world records)
    (hfetches : Fetches world name settings.batchSize records fetched)
    (hlast : records.getLast? = some last) (hend : last.1 + 1 = leo)
    (hrun : (Work.materializeBatch tp records last.1).run settings.json world.database =
      .ok committed)
    (hloop : Holds (environment settings conditions) (AtCall condition)
      (Sequel (environment settings conditions) (AtCall condition) post (leaveLoop tp leo))
      (Program.iterate (fuel + 1) (caughtUp leo) (pollOnce settings tp name leo deadline) replay)
      world) :
    ∃ revealing : World, revealing.database = committed ∧ revealing.broker = world.broker ∧
      revealing.memory.state.statusOf tp = some .ready ∧
      revealing.memory.runState = world.memory.runState ∧
      Holds (environment settings conditions) (AtCall condition) post (reveal tp) revealing := by
  have hguard : caughtUp leo replay = none := if_neg hposition
  unfold Program.iterate at hloop
  rw [hguard] at hloop
  have hround := holds_attempt.mp (holds_bind.mp (holds_bind.mp hloop)) world.broker .refl
  have hpolled := sequel_returned.mp (hround.2.2 records fetched (Or.inr ⟨hserves, hfetches⟩))
  dsimp only at hpolled
  rw [hlast] at hpolled
  obtain ⟨_, fetchedLast, _, _, _, _, hmoved⟩ := hfetches
  have hfetched : fetched = world.seek (fetchedLast.1 + 1) := hmoved
  subst hfetched
  have hcommits : Succeeds settings conditions (world.seek (fetchedLast.1 + 1))
    (.transaction (.materializeBatch tp records last.1)) ()
    ((world.seek (fetchedLast.1 + 1)).commit committed) := ⟨committed, hrun, rfl⟩
  have hmaterialized := sequel_returned.mp
    (holds_result (holds_bind.mp (holds_bind.mp hpolled)) hcommits)
  have hadvanced := sequel_returned.mp (holds_rememberState.mp hmaterialized)
  have hcaught : (replay.advance records.length last.1).position = leo := hend
  rw [if_neg (not_not.mpr hcaught)] at hadvanced
  let advanced := ((world.seek (fetchedLast.1 + 1)).commit committed).onState
    (·.recordApplied tp last.1)
  have hleft : Holds (environment settings conditions) (AtCall condition)
      (Sequel (environment settings conditions) (AtCall condition) post (leaveLoop tp leo))
      (Program.iterate fuel (caughtUp leo) (pollOnce settings tp name leo deadline)
        (replay.advance records.length last.1)) advanced := hadvanced
  have hdone : caughtUp leo (replay.advance records.length last.1) =
      some (some (replay.advance records.length last.1)) := if_pos hcaught
  unfold Program.iterate at hleft
  rw [hdone] at hleft
  have hfinish : Holds (environment settings conditions) (AtCall condition) post
      (finishReplay tp leo (replay.advance records.length last.1)) advanced := hleft
  unfold finishReplay at hfinish
  rw [show (replay.advance records.length last.1).resetOccurred = false from hreset] at hfinish
  have hrevealing := sequel_returned.mp (holds_rememberState.mp (holds_bind.mp hfinish))
  exact ⟨advanced.onState (·.markReady tp), rfl, rfl, PartitionStateMachine.statusOf_mark _, rfl,
    hrevealing⟩

/-- What follows a loop that replays one batch up to the captured log end, once it is revealed. -/
theorem post_of_replayed {tp : TopicPartition} {name : String} {leo deadline : ℤ} {fuel : ℕ}
    {replay : Replay} {records : List (ℤ × Message)} {last : ℤ × Message} {committed : Database}
    {fetched : World} {post : Outcome Error Unit → World → Prop} (hposition : replay.position ≠ leo)
    (hreset : replay.resetOccurred = false) (hserves : conditions.serves world records)
    (hfetches : Fetches world name settings.batchSize records fetched)
    (hlast : records.getLast? = some last) (hend : last.1 + 1 = leo)
    (hrun : (Work.materializeBatch tp records last.1).run settings.json world.database =
      .ok committed)
    (hloop : Holds (environment settings conditions) (AtCall condition)
      (Sequel (environment settings conditions) (AtCall condition) post (leaveLoop tp leo))
      (Program.iterate (fuel + 1) (caughtUp leo) (pollOnce settings tp name leo deadline) replay)
      world) :
    ∃ final : World, final.database = committed.insertOwned tp ∧ final.broker = world.broker ∧
      final.memory.state.statusOf tp = some .ready ∧
      final.memory.runState = world.memory.runState ∧ post (.returned ()) final := by
  obtain ⟨revealing, hdatabase, hbroker, hstatus, hrunState, hreveal⟩ :=
    holds_reveal_of_replayed hposition hreset hserves hfetches hlast hend hrun hloop
  have hreveals : Succeeds settings conditions revealing (.transaction (.ownedInsert tp)) ()
      (revealing.commit (revealing.database.insertOwned tp)) := ⟨_, rfl, rfl⟩
  refine ⟨revealing.commit (revealing.database.insertOwned tp), ?_, hbroker, hstatus, hrunState,
    holds_result hreveal hreveals⟩
  rw [← hdatabase]
  rfl

/-- What follows a loop that fetches a batch whose transaction raises. -/
theorem post_of_refused {tp : TopicPartition} {name : String} {leo deadline : ℤ} {fuel : ℕ}
    {replay : Replay} {records : List (ℤ × Message)} {last : ℤ × Message} {error : Error}
    {fetched : World} {post : Outcome Error Unit → World → Prop} (hposition : replay.position ≠ leo)
    (hserves : conditions.serves world records)
    (hfetches : Fetches world name settings.batchSize records fetched)
    (hlast : records.getLast? = some last)
    (hraises : Raises settings conditions fetched
      (.transaction (.materializeBatch tp records last.1)) error)
    (hloop : Holds (environment settings conditions) (AtCall condition)
      (Sequel (environment settings conditions) (AtCall condition) post (leaveLoop tp leo))
      (Program.iterate (fuel + 1) (caughtUp leo) (pollOnce settings tp name leo deadline) replay)
      world) : post (.raised error) fetched := by
  have hguard : caughtUp leo replay = none := if_neg hposition
  unfold Program.iterate at hloop
  rw [hguard] at hloop
  have hround := holds_attempt.mp (holds_bind.mp (holds_bind.mp hloop)) world.broker .refl
  have hpolled := sequel_returned.mp (hround.2.2 records fetched (Or.inr ⟨hserves, hfetches⟩))
  dsimp only at hpolled
  rw [hlast] at hpolled
  exact holds_error (holds_bind.mp (holds_bind.mp hpolled)) hraises

/-- What follows a loop that is told that it is out of range, at the deadline. -/
theorem post_of_lost {tp : TopicPartition} {name : String} {leo deadline reading : ℤ} {fuel : ℕ}
    {replay : Replay} {post : Outcome Error Unit → World → Prop} (hposition : replay.position ≠ leo)
    (hout : OutOfRange world name) (hshows : conditions.shows reading)
    (hdeadline : deadline ≤ reading)
    (hloop : Holds (environment settings conditions) (AtCall condition)
      (Sequel (environment settings conditions) (AtCall condition) post (leaveLoop tp leo))
      (Program.iterate (fuel + 1) (caughtUp leo) (pollOnce settings tp name leo deadline) replay)
      world) :
    ∃ memory, memory.state.statusOf tp = some .readyPartial ∧ post (.returned ())
      { world with memory := memory, database := world.database.insertOwned tp } := by
  have hguard : caughtUp leo replay = none := if_neg hposition
  unfold Program.iterate at hloop
  rw [hguard] at hloop
  have hraises : Raises settings conditions world (.getmany name settings.batchSize)
    (.kafka .offsetOutOfRange) := Or.inr ⟨rfl, hout⟩
  have hround := holds_attempt.mp (holds_bind.mp (holds_bind.mp hloop)) world.broker .refl
  have hlost := sequel_returned.mp (hround.2.1 _ hraises)
  change Holds _ _ _ (if Error.kafka .offsetOutOfRange = .kafka .offsetOutOfRange then _ else _) _
    at hlost
  rw [if_pos rfl] at hlost
  have hstarts : Succeeds settings conditions world (.beginningOffset name)
    (world.broker.changelogs name).start world := ⟨rfl, rfl⟩
  have hstart := sequel_returned.mp (holds_result (holds_bind.mp hlost) hstarts)
  have hseeks : Succeeds settings conditions world (.seekToBeginning name) ()
    (world.seek (world.broker.changelogs name).start) := rfl
  have hreset := sequel_returned.mp (holds_result (holds_bind.mp hstart) hseeks)
  have hclock := sequel_returned.mp (holds_clock.mp (holds_bind.mp hreset) reading hshows)
  rw [if_pos hdeadline] at hclock
  have hmarked := sequel_returned.mp
    (holds_rememberState.mp (holds_bind.mp (holds_bind.mp hclock)))
  let stopped := (world.seek (world.broker.changelogs name).start).onState (·.markReadyPartial tp)
  have hreveals : Succeeds settings conditions stopped (.transaction (.ownedInsert tp)) ()
    (stopped.commit (stopped.database.insertOwned tp)) := ⟨_, rfl, rfl⟩
  exact ⟨stopped.memory, PartitionStateMachine.statusOf_mark _, holds_result hmarked hreveals⟩

end KSQLite.Rehydrate
