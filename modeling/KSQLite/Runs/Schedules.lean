import KSQLite.Store.Activity
import KSQLite.Store.Effects
import KSQLite.Store.Sample

/-!
# Coroutines from call to call

What the coroutines of a store do between two of their calls, so that particular runs of several
of them can be written down call by call. The replay of a partition is cut at its calls
(`rehydrateOne_eq`, `capturing`, `looping`), and each lemma says where a coroutine that was resumed
suspends again and what it has changed by then.
-/

set_option autoImplicit false
set_option relaxedAutoImplicit false

namespace KSQLite.Runs

open KSQLite.Suspension KSQLite.Store

/-! ### The parts of an assignment -/

section Parts

variable (settings : Settings) (fuel : ℕ) (tp : TopicPartition) (name : String) (deadline : ℤ)

/-- The loop of a replay and what follows it. -/
def looping (leo : ℤ) (replay : Replay) : Action Unit := do
  let finished ← Program.iterate fuel (caughtUp leo) (pollOnce settings tp name leo deadline) replay
  leaveLoop tp leo finished

/-- The capture of the log end and what follows it. -/
def capturing (checkpoint : Option ℤ) : Action Unit := do
  let leo ← perform (.endOffset name)
  rememberState (·.recordLogEnd tp leo)
  rememberState (·.markRestoring tp)
  assign name
  let replay ← openReplay name checkpoint
  looping settings fuel tp name deadline leo replay

theorem rehydrateOne_eq : rehydrateOne settings fuel tp name deadline = (do
    let checkpoint ← readCheckpoint tp
    seed tp checkpoint
    getConsumer
    capturing settings fuel tp name deadline checkpoint) := rfl

/-- An assignment of one partition, in the middle of its replay. -/
def around (replay : Action Unit) : Action Unit := do
  let first ← (do replay; pure false : Action Bool).mapError (assignmentError tp)
  assignAll settings fuel deadline first []

end Parts

/-! ### Bursts -/

/-- What a coroutine does from a call to the next one. -/
abbrev Continues {Value : Type} (settings : Settings) (conditions : Conditions)
    (program : Action Value) (world : World) (rest : Action Value) (final : World) : Prop :=
  Burst (environment settings conditions) Suspends program world rest final

section Bursts

variable {settings : Settings} {conditions : Conditions} {fuel : ℕ} {tp : TopicPartition}
  {name : String} {deadline leo : ℤ} {world final : World} {Value : Type}

theorem not_suspends {request : Request} (hrequest : ∀ call, request ≠ .call call) :
    ¬ Suspends request := by
  rintro ⟨call, hcall⟩
  exact hrequest call hcall

theorem continues_pure (value : Value) :
    Continues settings conditions (pure value) world (.finish value) world :=
  .stop fun _ hpending ↦ by cases hpending

theorem continues_observe :
    Continues settings conditions observe world (.finish world.memory) world :=
  .step (not_suspends (by simp)) ⟨rfl, rfl⟩ (continues_pure _)

theorem continues_remember {update : Memory → Memory} :
    Continues settings conditions (remember update) world (.finish ())
      { world with memory := update world.memory } :=
  .step (not_suspends (by simp)) rfl (continues_pure _)

theorem continues_rememberState {update : PartitionStateMachine → PartitionStateMachine} :
    Continues settings conditions (rememberState update) world (.finish ())
      (world.onState update) :=
  continues_remember

theorem continues_clock {reading : ℤ} (hshows : conditions.shows reading) :
    Continues settings conditions clock world (.finish reading) world :=
  .step (not_suspends (by simp)) ⟨hshows, rfl⟩ (continues_pure _)

/-- A coroutine that awaits a call is suspended. -/
theorem continues_perform {call : Call} {next : call.Result → Action Value} :
    Continues settings conditions (perform call >>= next) world (perform call >>= next) world :=
  .suspended ⟨call, rfl⟩

theorem continues_ensureRunning (hrunning : world.memory.runState = .running) :
    Continues settings conditions Facade.ensureRunning world (.finish ()) world := by
  refine continues_observe.bind ?_
  rw [if_neg (not_not.mpr hrunning)]
  exact continues_pure ()

theorem continues_getConsumer (hconsumer : world.memory.consumer.isSome) :
    Continues settings conditions getConsumer world (.finish ()) world := by
  refine continues_observe.bind ?_
  rw [if_neg (by simpa using Option.isSome_iff_ne_none.mp hconsumer)]
  exact continues_pure ()

theorem continues_seed (checkpoint : Option ℤ) :
    Continues settings conditions (seed tp checkpoint) world (.finish ())
      (world.seed tp checkpoint) := by
  cases checkpoint with
  | none => exact continues_pure ()
  | some checkpoint =>
    change Continues _ _ (rememberState (·.recordApplied tp checkpoint)) world _ _
    exact continues_rememberState

/-! ### An assignment -/

/-- An assignment suspends where its replay does. -/
theorem continues_around {replay rest : Action Unit}
    (hreplay : Continues settings conditions replay world rest final)
    (hopen : ∀ value, rest ≠ .finish value) :
    Continues settings conditions (around settings fuel tp deadline replay) world
      (around settings fuel tp deadline rest) final := by
  refine Burst.before (Burst.mapError (hreplay.before hopen _)) ?_ _
  intro value hvalue
  cases rest with
  | finish => exact hopen _ rfl
  | _ => cases hvalue

/-- An assignment of one partition returns with its replay. -/
theorem continues_returned {replay : Action Unit}
    (hreplay : Continues settings conditions replay world (.finish ()) final) :
    Continues settings conditions (around settings fuel tp deadline replay) world (.finish ())
      final := by
  have hfirst : Continues settings conditions (do replay; pure false) world (.finish false) final :=
    hreplay.bind (continues_pure false)
  have hmapped : Continues settings conditions
      ((do replay; pure false : Action Bool).mapError (assignmentError tp)) world (.finish false)
      final := hfirst.mapError
  exact hmapped.bind (continues_pure ())

/-- An assignment of a partition that passed step 0 suspends at the read of its checkpoint. -/
theorem continues_assign (reading : ℤ) (hrunning : world.memory.runState = .running)
    (hchecked : tp ∈ world.memory.checked) (hname : changelogName settings tp = .ok name)
    (hshows : conditions.shows reading) :
    Continues settings conditions ((Activity.assign [tp]).action settings fuel) world
      (around settings fuel tp (reading + settings.rehydrateTimeout)
        (rehydrateOne settings fuel tp name (reading + settings.rehydrateTimeout))) world := by
  have hstepZero : Continues settings conditions (ensureAndVerify settings tp) world
      (.finish name) world := by
    unfold ensureAndVerify
    rw [hname]
    refine continues_observe.bind ?_
    rw [if_pos hchecked]
    exact continues_pure name
  have hone : Continues settings conditions
      (assignOne settings fuel (reading + settings.rehydrateTimeout) true tp) world
      (do rehydrateOne settings fuel tp name (reading + settings.rehydrateTimeout); pure false)
      world := hstepZero.bind (.suspended ⟨_, rfl⟩)
  have hall : Continues settings conditions
      (assignAll settings fuel (reading + settings.rehydrateTimeout) true [tp]) world
      (around settings fuel tp (reading + settings.rehydrateTimeout)
        (rehydrateOne settings fuel tp name (reading + settings.rehydrateTimeout))) world :=
    hone.mapError.before (fun value hvalue ↦ by cases hvalue) _
  exact (continues_ensureRunning hrunning).bind ((continues_clock hshows).bind hall)

/-- From the read of the checkpoint to the capture of the log end. -/
theorem continues_capturing (checkpoint : Option ℤ) (hconsumer : world.memory.consumer.isSome) :
    Continues settings conditions (do
        seed tp checkpoint
        getConsumer
        capturing settings fuel tp name deadline checkpoint) world
      (capturing settings fuel tp name deadline checkpoint) (world.seed tp checkpoint) := by
  refine (continues_seed checkpoint).bind ((continues_getConsumer ?_).bind continues_perform)
  cases checkpoint <;> exact hconsumer

/-- From the capture of the log end to what follows the placement of the consumer. -/
theorem continues_placing {checkpoint : Option ℤ} {rest : Action Unit}
    (hrest : Continues settings conditions (do
        let replay ← openReplay name checkpoint
        looping settings fuel tp name deadline leo replay) (world.capture tp name leo) rest final) :
    Continues settings conditions (do
        rememberState (·.recordLogEnd tp leo)
        rememberState (·.markRestoring tp)
        assign name
        let replay ← openReplay name checkpoint
        looping settings fuel tp name deadline leo replay) world rest final :=
  continues_rememberState.bind (continues_rememberState.bind (continues_remember.bind hrest))

/-- A placement at the start of the log suspends at the seek. -/
theorem continues_cold : Continues settings conditions (do
      let replay ← openReplay name none
      looping settings fuel tp name deadline leo replay) world (do
      let replay ← openReplay name none
      looping settings fuel tp name deadline leo replay) world :=
  .suspended ⟨_, rfl⟩

/-- A placement at a checkpoint moves the consumer there. -/
theorem continues_warm {checkpoint : ℤ} (hcheckpoint : 0 ≤ checkpoint + 1) {rest : Action Unit}
    (hrest : Continues settings conditions (looping settings fuel tp name deadline leo
      (.start (some checkpoint) (checkpoint + 1))) (world.seek (checkpoint + 1)) rest final) :
    Continues settings conditions (do
        let replay ← openReplay name (some checkpoint)
        looping settings fuel tp name deadline leo replay) world rest final := by
  have hseek : Continues settings conditions (seek (checkpoint + 1)) world (.finish ())
      (world.seek (checkpoint + 1)) := by
    unfold seek
    rw [if_neg (not_lt.mpr hcheckpoint)]
    exact continues_remember
  have hopened : Continues settings conditions (openReplay name (some checkpoint)) world
      (.finish (.start (some checkpoint) (checkpoint + 1))) (world.seek (checkpoint + 1)) :=
    hseek.bind (continues_pure _)
  exact hopened.bind hrest

/-- A loop that is at the captured log end is left. -/
theorem continues_caughtUp {replay : Replay} {rest : Action Unit}
    (hposition : replay.position = leo)
    (hrest : Continues settings conditions (finishReplay tp leo replay) world rest final) :
    Continues settings conditions (looping settings fuel tp name deadline leo replay) world rest
      final := by
  have hdone : Program.iterate fuel (caughtUp leo) (pollOnce settings tp name leo deadline) replay =
      .finish (some replay) := by
    have hguard : caughtUp leo replay = some (some replay) := if_pos hposition
    unfold Program.iterate
    rw [hguard]
  unfold looping
  rw [hdone]
  exact hrest

/-- A replay that is left suspends at its reveal, marked. -/
theorem continues_revealing :
    Continues settings conditions (do
        rememberState (·.markReady tp)
        reveal tp) world (reveal tp) (world.onState (·.markReady tp)) :=
  continues_rememberState.bind (.suspended ⟨_, rfl⟩)

/-- A replay that was not reset is left at its reveal. -/
theorem continues_finishReplay {replay : Replay} (hreset : replay.resetOccurred = false) :
    Continues settings conditions (finishReplay tp leo replay) world (reveal tp)
      (world.onState (·.markReady tp)) := by
  unfold finishReplay
  rw [hreset]
  exact continues_revealing

/-! ### A revocation -/

/-- A revocation of a partition that was seen suspends at the deletion of its `_owned` row. -/
theorem continues_revoke (hrunning : world.memory.runState = .running)
    (hseen : world.memory.state.statusOf tp ≠ none) :
    Continues settings conditions ((Activity.revoke [tp]).action settings fuel) world (do
        perform (.transaction (.ownedDelete tp))
        rememberState (·.markRevoked tp)) world := by
  have hone : Continues settings conditions (revokeOne tp) world (do
      perform (.transaction (.ownedDelete tp))
      rememberState (·.markRevoked tp)) world := by
    refine continues_observe.bind ?_
    rw [if_neg hseen]
    exact continues_perform
  have hlast : (do
      (do
        perform (.transaction (.ownedDelete tp))
        rememberState (·.markRevoked tp) : Action Unit)
      onPartitionsRevoked []) = (do
      perform (.transaction (.ownedDelete tp))
      rememberState (·.markRevoked tp) : Action Unit) := by
    change Program.await _ _ = Program.await _ _
    congr 1
    funext reply
    cases reply <;> rfl
  rw [← hlast]
  exact (continues_ensureRunning hrunning).bind
    (hone.before (fun value hvalue ↦ by cases hvalue) _)

/-- A revocation that was answered puts the partition on standby and returns. -/
theorem continues_revoked : Continues settings conditions (rememberState (·.markRevoked tp)) world
    (.finish ()) (world.onState (·.markRevoked tp)) :=
  continues_rememberState

end Bursts

/-! ### Calls answered one at a time -/

section Calls

variable {settings : Settings} {conditions : Conditions} {fuel : ℕ} {world between next : World}
  {admits : Pool.Event requests Activity → Flight → Prop} {origin : Flight}
  {tasks : List (Activity × Action Unit)} {activity : Activity} {call : Call}
  {resume : Request.Reply (.call call) → Action Unit} {rest : Action Unit}

/-- A condition that says nothing about events other than starts, as long as no two coroutines may
be resumed. -/
def Lenient (admits : Pool.Event requests Activity → Flight → Prop) : Prop :=
  ∀ event pool, (∀ activity, event ≠ .start activity) → pool.ready.length ≤ 1 → admits event pool

/-- A call succeeds. -/
theorem run_answered (hadmits : Lenient admits) (index : ℕ) (value : call.Result)
    (hrun : Flight.Run settings conditions fuel admits origin ⟨world, tasks, []⟩)
    (hget : (tasks)[index]? = some (activity, @Program.await requests Error Unit
      (.call call) resume))
    (hsucceeds : Succeeds settings conditions world call value between) :
    Flight.Run settings conditions fuel admits origin
      ⟨between, tasks.set index (activity, resume (.ok value)), [index]⟩ := by
  have hanswers : (environment settings conditions).answers world (.call call)
    (.ok value) between :=
    hsucceeds
  refine hrun.answered hget (hadmits _ _ (fun _ hstart ↦ ?_) (Nat.zero_le 1)) hanswers
  cases hstart

/-- A call succeeds, and the coroutine goes on to its next one. -/
theorem run_called (hadmits : Lenient admits) (index : ℕ) (value : call.Result)
    (hrun : Flight.Run settings conditions fuel admits origin ⟨world, tasks, []⟩)
    (hget : (tasks)[index]? = some (activity, @Program.await requests Error Unit
      (.call call) resume))
    (hsucceeds : Succeeds settings conditions world call value between)
    (hcontinues : Continues settings conditions (resume (.ok value)) between rest next) :
    Flight.Run settings conditions fuel admits origin
      ⟨next, tasks.set index (activity, rest), []⟩ := by
  refine (run_answered hadmits index value hrun hget hsucceeds).step
    (hadmits _ _ (fun _ hstart ↦ ?_) (le_refl 1))
    (.resumed (List.getElem?_eq_some_iff.mp hget).1 hcontinues)
  cases hstart

/-- A coroutine is started and goes on to its first call. -/
theorem run_launched (hadmits : Lenient admits)
    (hrun : Flight.Run settings conditions fuel admits origin ⟨world, tasks, []⟩)
    (hstart : admits (.start activity) ⟨world, tasks, []⟩)
    (hcontinues : Continues settings conditions (activity.action settings fuel) world rest next) :
    Flight.Run settings conditions fuel admits origin ⟨next, tasks ++ [(activity, rest)], []⟩ :=
  hrun.launched hstart (hadmits _ _ (fun _ hresume ↦ by cases hresume) (le_refl 1)) hcontinues

end Calls

/-! ### Sample runs -/

/-- A store in its first run whose consumer was started and whose partition passed step 0. -/
def connected (database : Database) (broker : Broker) : World :=
  { Sample.world database broker with
    memory :=
      { Memory.new with
        consumer := some .started
        checked := {Sample.orders}
        runState := .running } }

theorem changelogName_orders : changelogName Sample.settings Sample.orders =
    .ok Sample.changelog := by
  decide +kernel

end KSQLite.Runs
