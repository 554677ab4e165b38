import KSQLite.Rehydrate.Termination
import KSQLite.Suspension.Watch

/-!
# Watching an assignment

What a watch over the exchanges of an assignment has to be shown: how it meets one round of the
replay loop and the look at the clock before a partition (`AssignmentWatch`). The rest of the code
does not fetch, so any sets of states that are closed under the other requests carry the watch
through it (`AssignmentWatch.rehydrateOne`, `AssignmentWatch.assignAll`).
-/

set_option autoImplicit false
set_option relaxedAutoImplicit false

namespace KSQLite.Rehydrate

open KSQLite.Suspension KSQLite.Store

section Counting

variable {settings : Settings} {tp : TopicPartition} {name : String}

theorem within_create {retention : ℤ} : (create name retention).Within isPoll 0 := by
  have hcreate : (perform (.createTopic name retention)).Within isPoll 0 := within_perform rfl
  refine hcreate.before fun topicErrors ↦ ?_
  cases checkTopicErrors name topicErrors <;> trivial

/-- What is done about a topic that is missing fetches nothing. -/
theorem within_missing {retention : Option ℤ} {next : Unit → Action Unit}
    (hnext : ∀ value, (next value).Within isPoll 0) :
    Program.Within isPoll 0 (match retention with
      | none => .raise (.topicNotFound name) >>= next
      | some retention => create name retention >>= next) := by
  cases retention with
  | none => exact .raise _
  | some retention => exact within_create.before hnext

theorem within_ensure : (ensure settings name).Within isPoll 0 := by
  have hlist : (perform .listTopics).Within isPoll 0 := within_perform rfl
  have hpolicy : (verifyPolicy name).Within isPoll 0 := within_perform rfl
  refine hlist.before fun existing ↦ ?_
  change Program.Within isPoll 0 (if name ∉ existing then _ else _)
  split_ifs
  · exact hpolicy
  · exact .finish ()
  · exact within_missing fun _ ↦ hpolicy
  · exact within_missing fun _ ↦ .finish ()

theorem within_ensureAndVerify : (ensureAndVerify settings tp).Within isPoll 0 := by
  unfold ensureAndVerify
  cases changelogName settings tp with
  | error error => exact .raise error
  | ok name =>
    change Program.Within isPoll 0 (observe >>= _)
    rw [observe, Program.await_bind, Program.Within, if_neg (by simp [isPoll])]
    intro memory
    rw [Program.finish_bind]
    split_ifs
    · exact .finish name
    · exact within_ensure.mapError.before fun _ ↦ (within_remember _).before fun _ ↦ .finish name

theorem within_revealPartialUnreached : (revealPartialUnreached tp name).Within isPoll 0 := by
  have hcapture : (perform (.endOffset name)).Within isPoll 0 := within_perform rfl
  refine within_getConsumer.before fun _ ↦ hcapture.before fun leo ↦ ?_
  refine (within_remember _).before fun _ ↦ within_readCheckpoint.before fun checkpoint ↦ ?_
  exact within_seed.before fun _ ↦ (within_remember _).before fun _ ↦ within_perform rfl

theorem within_materializeBatch {records : List (ℤ × Message)} {offset : ℤ} :
    (materializeBatch tp records offset).Within isPoll 0 :=
  (within_perform rfl).before fun _ ↦ within_remember _

/-- What a round does once it was told that it is out of range. -/
theorem within_recover {deadline : ℤ} {replay : Replay} :
    (do let logStart ← perform (.beginningOffset name)
        perform (.seekToBeginning name)
        stopOrContinue tp deadline (replay.reset logStart)).Within isPoll 0 := by
  have hstart : (perform (.beginningOffset name)).Within isPoll 0 := within_perform rfl
  have hseek : (perform (.seekToBeginning name)).Within isPoll 0 := within_perform rfl
  exact hstart.before fun _ ↦ hseek.before fun _ ↦ within_stopOrContinue

end Counting

section Watches

variable {Ghost : Type}
  {moves : Ghost → (request : requests.Request) → requests.Reply request → Ghost → Prop}
  {moment : requests.Request → Ghost → Prop} {settings : Settings} {deadline : ℤ}
  {starts : Bool → Ghost → Prop} {ready calm : Ghost → Prop} {round : ℤ → Replay → Ghost → Prop}
  {failed raised : Error → Ghost → Prop}

/-- What the look at the clock before a partition leaves: the partition is replayed, or it is
revealed as it is, which the first one never is. -/
def Looked (first : Bool) (ready calm : Ghost → Prop) : Outcome Error Bool → Ghost → Prop
  | .returned true, ghost => calm ghost ∧ first = false
  | .returned false, ghost => ready ghost
  | _, _ => False

/-- What a watch over the assignment of a partition has to be shown. It is entered in the
states `starts`, by whether it is still the first to replay; the loop is entered in `ready` and
kept in `round`, and the states after it are `calm`, or go with the error. -/
structure AssignmentWatch
    (moves : Ghost → (request : requests.Request) → requests.Reply request → Ghost → Prop)
    (moment : requests.Request → Ghost → Prop) (settings : Settings) (deadline : ℤ)
    (tp : TopicPartition) (starts : Bool → Ghost → Prop) (ready calm : Ghost → Prop)
    (round : ℤ → Replay → Ghost → Prop) (failed : Error → Ghost → Prop) : Prop where
  starts_closed : ∀ first, ClosedUnder moves moment isPoll (starts first)
  ready_closed : ClosedUnder moves moment isPoll ready
  calm_closed : ClosedUnder moves moment isPoll calm
  calm_of_starts : ∀ first ghost, starts first ghost → calm ghost
  starts_of_calm : ∀ ghost, calm ghost → starts false ghost
  calm_of_ready : ∀ ghost, ready ghost → calm ghost
  round_of_ready : ∀ leo replay ghost, ready ghost → round leo replay ghost
  calm_of_round : ∀ leo replay ghost, round leo replay ghost → calm ghost
  failed_of_calm : ∀ error ghost, calm ghost → failed error ghost
  looks : ∀ first ghost, starts first ghost →
    Holds (watch moves) moment (Looked first ready calm) (deadlinePassed first deadline) ghost
  polls : ∀ name leo replay ghost, round leo replay ghost → replay.position ≠ leo →
    Holds (watch moves) moment (AfterRound (round leo) (EndsIn calm failed))
      (pollOnce settings tp name leo deadline replay) ghost

namespace AssignmentWatch

variable {fuel : ℕ} {ghost : Ghost}
  {tp : TopicPartition}
  (hwatch : AssignmentWatch moves moment settings deadline tp starts ready calm round failed)
include hwatch

/-- A part of the code before the loop, and what follows it. -/
theorem opens {Value Result : Type} {program : Action Value} {next : Value → Action Result}
    {post : Outcome Error Result → Ghost → Prop} (hwithin : program.Within isPoll 0)
    (hready : ready ghost) (hpost : ∀ outcome after, EndsIn calm failed outcome after →
      post outcome after)
    (hnext : ∀ value after, ready after → Holds (watch moves) moment post (next value) after) :
    Holds (watch moves) moment post (program >>= next) ghost := by
  have hprogram : Holds (watch moves) moment (EndsIn ready failed) program ghost :=
    hwithin.holds_watch hwatch.ready_closed (fun error after hafter ↦
      hwatch.failed_of_calm error after (hwatch.calm_of_ready after hafter)) hready
  refine hprogram.bind hnext (fun error after hraised ↦ ?_) fun after hafter ↦ ?_
  · exact hpost (.raised error) after hraised
  · exact hpost .exhausted after (hwatch.calm_of_ready after hafter)

/-- A part of the code after the loop. -/
theorem closes {Value : Type} {program : Action Value} (hwithin : program.Within isPoll 0)
    (hcalm : calm ghost) : Holds (watch moves) moment (EndsIn calm failed) program ghost :=
  hwithin.holds_watch hwatch.calm_closed hwatch.failed_of_calm hcalm

/-- The loop. -/
theorem loop {name : String} {leo : ℤ} {replay : Replay}
    (hround : round leo replay ghost) :
    Holds (watch moves) moment (EndsIn calm failed)
      (Program.iterate fuel (caughtUp leo) (pollOnce settings tp name leo deadline) replay)
      ghost := by
  refine holds_iterate (fun _ replay ghost ↦ round leo replay ghost) ?_ ?_ ?_ hround
  · exact fun _ replay after _ hafter _ ↦ hwatch.calm_of_round leo replay after hafter
  · intro _ replay after hafter hguard
    refine hwatch.polls name leo replay after hafter fun hposition ↦ ?_
    simp [caughtUp, hposition] at hguard
  · exact fun replay after hafter _ ↦ hwatch.calm_of_round leo replay after hafter

/-- A rehydrate that is entered in a state before the loop. -/
theorem rehydrateOne {name : String} (hready : ready ghost) :
    Holds (watch moves) moment (EndsIn calm failed)
      (Store.rehydrateOne settings fuel tp name deadline) ghost := by
  have hcapture : (perform (.endOffset name)).Within isPoll 0 := within_perform rfl
  have hpost {Result : Type} (outcome : Outcome Error Result) (after : Ghost)
      (hsettled : EndsIn calm failed outcome after) : EndsIn calm failed outcome after := hsettled
  refine hwatch.opens within_readCheckpoint hready hpost fun checkpoint _ hread ↦ ?_
  refine hwatch.opens within_seed hread hpost fun _ _ hseeded ↦ ?_
  refine hwatch.opens within_getConsumer hseeded hpost fun _ _ hconnected ↦ ?_
  refine hwatch.opens hcapture hconnected hpost fun leo _ hcaptured ↦ ?_
  refine hwatch.opens (within_remember _) hcaptured hpost fun _ _ hrecorded ↦ ?_
  refine hwatch.opens (within_remember _) hrecorded hpost fun _ _ hmarked ↦ ?_
  refine hwatch.opens (within_remember _) hmarked hpost fun _ _ hassigned ↦ ?_
  refine hwatch.opens within_openReplay hassigned hpost fun replay opened hopened ↦ ?_
  refine (hwatch.loop (hwatch.round_of_ready leo replay opened hopened)).bind ?_
    (fun _ _ hraised ↦ hraised) fun _ hcalm ↦ hcalm
  rintro (_ | finished) after hafter
  · exact hafter
  · exact hwatch.closes within_finishReplay hafter

/-- One partition. -/
theorem assignOne {first : Bool} (hstarts : starts first ghost) :
    Holds (watch moves) moment (fun outcome after ↦ EndsIn calm failed outcome after ∧
      ∀ next, outcome = .returned next → starts next after)
      (Store.assignOne settings fuel deadline first tp) ghost := by
  have hraised (error : Error) (after : Ghost) (hafter : failed error after) :
      EndsIn calm failed (.raised error : Outcome Error Bool) after ∧
        ∀ next, (.raised error : Outcome Error Bool) = .returned next → starts next after :=
    ⟨hafter, fun _ hreturned ↦ by cases hreturned⟩
  have hexhausted (after : Ghost) (hafter : calm after) :
      EndsIn calm failed (.exhausted : Outcome Error Bool) after ∧
        ∀ next, (.exhausted : Outcome Error Bool) = .returned next → starts next after :=
    ⟨hafter, fun _ hreturned ↦ by cases hreturned⟩
  have hchecked : Holds (watch moves) moment (EndsIn (starts first) failed)
      (ensureAndVerify settings tp) ghost :=
    within_ensureAndVerify.holds_watch (hwatch.starts_closed first) (fun error after hafter ↦
      hwatch.failed_of_calm error after (hwatch.calm_of_starts first after hafter)) hstarts
  refine hchecked.bind (fun name entered hentered ↦ ?_) hraised
    fun after hafter ↦ hexhausted after (hwatch.calm_of_starts first after hafter)
  refine (hwatch.looks first entered hentered).bind ?_ (fun _ _ hfalse ↦ hfalse.elim)
    fun _ hfalse ↦ hfalse.elim
  rintro (_ | _) after hlooked
  · have hrehydrate : Holds (watch moves) moment (EndsIn calm failed)
        (Store.rehydrateOne settings fuel tp name deadline) after := hwatch.rehydrateOne hlooked
    refine hrehydrate.bind (fun _ final hfinal ↦ ⟨hfinal, ?_⟩) hraised hexhausted
    rintro next hreturned
    cases hreturned
    exact hwatch.starts_of_calm final hfinal
  · obtain ⟨hcalm, rfl⟩ := hlooked
    have hreveal : Holds (watch moves) moment (EndsIn calm failed)
        (revealPartialUnreached tp name) after :=
      hwatch.closes within_revealPartialUnreached hcalm
    refine hreveal.bind (fun _ final hfinal ↦ ⟨hfinal, ?_⟩) hraised hexhausted
    rintro next hreturned
    cases hreturned
    exact hwatch.starts_of_calm final hfinal

omit hwatch in
/-- All partitions. -/
theorem assignAll
    (hwatch : ∀ tp, AssignmentWatch moves moment settings deadline tp starts ready calm
      round failed)
    (hmapped : ∀ tp error after, failed error after →
      raised (assignmentError tp error) after) {first : Bool} {assigned : List TopicPartition}
    (hstarts : starts first ghost) :
    Holds (watch moves) moment (EndsIn calm raised)
      (Store.assignAll settings fuel deadline first assigned) ghost := by
  induction assigned generalizing first ghost with
  | nil =>
    -- Any partition does, since no code is left.
    exact (hwatch ⟨"", 0⟩).calm_of_starts first ghost hstarts
  | cons tp rest ih =>
    have hone : Holds (watch moves) moment (fun outcome after ↦ EndsIn calm failed outcome after ∧
        ∀ next, outcome = .returned next → starts next after)
        (Store.assignOne settings fuel deadline first tp) ghost := (hwatch tp).assignOne hstarts
    refine holds_bind.mpr (holds_mapError.mpr (hone.mono (fun _ _ hmoment ↦ hmoment) ?_))
    rintro (next | error | _) after ⟨hsettled, hstart⟩
    · exact ih (hstart next rfl)
    · exact hmapped tp error after hsettled
    · exact hsettled

end AssignmentWatch

end Watches

end KSQLite.Rehydrate
