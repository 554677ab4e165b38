import KSQLite.Rehydrate.Fetching
import KSQLite.Rehydrate.Frame
import KSQLite.Suspension.Timeline

/-!
# The replay budget of an assignment

The deadline is looked at in four places of nested loops. Together they space the fetches: between
two of them, in whatever rounds of whatever partitions, the clock showed a time before the deadline
(`spacing_watches`). Once the clock is at the deadline, an assignment that is past its first
partition does not fetch (`late_watches`), and reveals each partition as `READY_PARTIAL`
(`holds_assignOne_late`).
-/

set_option autoImplicit false
set_option relaxedAutoImplicit false

namespace KSQLite.Rehydrate

open KSQLite.Log KSQLite.Suspension KSQLite.Store

/-- The clock showed a time before a deadline. -/
def isEarly (deadline : ℤ) : (request : requests.Request) → requests.Reply request → Bool
  | .clock, reading => decide (reading < deadline)
  | _, _ => false

section Watches

variable {settings : Settings} {deadline : ℤ} {tp : TopicPartition}

/-- The watch that spaces the fetches. -/
abbrev Spaced (deadline : ℤ) : Environment requests Spacing :=
  watch (Spacing.Moves isPoll (isEarly deadline))

/-- What is ready stays so until the next fetch. -/
theorem closedUnder_ready :
    ClosedUnder (Spacing.Moves isPoll (isEarly deadline)) (Spacing.Moment isPoll) isPoll
      (· = .ready) := by
  rintro request hpoll _ rfl
  refine ⟨fun _ ↦ rfl, ?_⟩
  rintro reply after rfl
  unfold Spacing.next
  rw [if_neg (by simp [hpoll])]
  split_ifs <;> rfl

/-- Requests other than fetches are always made. -/
theorem closedUnder_true :
    ClosedUnder (Spacing.Moves isPoll (isEarly deadline)) (Spacing.Moment isPoll) isPoll
      fun _ ↦ True :=
  fun _ hpoll _ _ ↦
    ⟨fun hcounted ↦ absurd (hpoll.symm.trans hcounted) Bool.false_ne_true, fun _ _ _ ↦ trivial⟩

/-- After a look at the clock that showed a time before the deadline the next fetch is ready. -/
theorem ready_of_early {state after : Spacing} {reading : ℤ} (hearly : reading < deadline)
    (hmoves : Spacing.Moves isPoll (isEarly deadline) state Request.clock reading after) :
    after = .ready := by
  obtain rfl : after = Spacing.next isPoll (isEarly deadline) state Request.clock reading := hmoves
  have hreset : isEarly deadline Request.clock reading = true := decide_eq_true hearly
  unfold Spacing.next
  rw [if_neg (by simp [isPoll]), if_pos hreset]

/-- The loop goes on after a look at the clock only before the deadline. -/
theorem spacing_stopOrContinue {leo : ℤ} {replay : Replay} {state : Spacing} :
    Holds (Spaced deadline) (Spacing.Moment isPoll)
      (AfterRound (fun (replay : Replay) state ↦ replay.position ≠ leo → state = .ready)
        (EndsIn (fun _ ↦ True) fun _ _ ↦ True))
      (stopOrContinue tp deadline replay) state := by
  refine holds_watch_await.mpr ⟨fun hcounted ↦ absurd hcounted Bool.false_ne_true, ?_⟩
  intro reading after hmoves
  change Holds _ _ _ (if deadline ≤ reading then _ else _) after
  split_ifs with hdeadline
  · have hstop : Holds (Spaced deadline) (Spacing.Moment isPoll)
        (EndsIn (fun _ ↦ True) fun _ _ ↦ True) (forceStop tp) after :=
      within_forceStop.holds_watch closedUnder_true (fun _ _ _ ↦ trivial) trivial
    exact hstop.bind (fun _ _ _ ↦ trivial) (fun _ _ _ ↦ trivial) fun _ _ ↦ trivial
  · exact fun _ ↦ ready_of_early (not_le.mp hdeadline) hmoves

/-- A part of a round that goes on to the look at the clock. -/
theorem spacing_before {Value : Type} {leo : ℤ} {state : Spacing} {program : Action Value}
    {next : Value → Action (Replay ⊕ Option Replay)} (hwithin : program.Within isPoll 0)
    (hnext : ∀ value after, Holds (Spaced deadline) (Spacing.Moment isPoll)
      (AfterRound (fun (replay : Replay) state ↦ replay.position ≠ leo → state = .ready)
        (EndsIn (fun _ ↦ True) fun _ _ ↦ True)) (next value) after) :
    Holds (Spaced deadline) (Spacing.Moment isPoll)
      (AfterRound (fun (replay : Replay) state ↦ replay.position ≠ leo → state = .ready)
        (EndsIn (fun _ ↦ True) fun _ _ ↦ True)) (program >>= next) state := by
  have hprogram : Holds (Spaced deadline) (Spacing.Moment isPoll)
      (EndsIn (fun _ ↦ True) fun _ _ ↦ True) program state :=
    hwithin.holds_watch closedUnder_true (fun _ _ _ ↦ trivial) trivial
  exact hprogram.bind (fun value after _ ↦ hnext value after) (fun _ _ _ ↦ trivial)
    fun _ _ ↦ trivial

/-- The fetches of an assignment are spaced. -/
theorem spacing_watches : AssignmentWatch (Spacing.Moves isPoll (isEarly deadline))
    (Spacing.Moment isPoll) settings deadline tp (fun first state ↦ first = true → state = .ready)
    (· = .ready) (fun _ ↦ True) (fun leo replay state ↦ replay.position ≠ leo → state = .ready)
    (fun _ _ ↦ True) where
  starts_closed first := by
    cases first with
    | true =>
      intro request hpoll state hstate
      obtain ⟨hnow, hmoves⟩ := closedUnder_ready request hpoll state (hstate rfl)
      exact ⟨hnow, fun reply after hafter _ ↦ hmoves reply after hafter⟩
    | false =>
      intro request hpoll state _
      refine ⟨fun hcounted ↦ absurd (hpoll.symm.trans hcounted) Bool.false_ne_true, ?_⟩
      exact fun _ _ _ hfirst ↦ absurd hfirst Bool.false_ne_true
  ready_closed := closedUnder_ready
  calm_closed := closedUnder_true
  calm_of_starts _ _ _ := trivial
  starts_of_calm _ _ hfirst := by cases hfirst
  calm_of_ready _ _ := trivial
  round_of_ready _ _ _ hready _ := hready
  calm_of_round _ _ _ _ := trivial
  failed_of_calm _ _ _ := trivial
  looks first state hstate := by
    cases first with
    | true => exact hstate rfl
    | false =>
      refine holds_watch_await.mpr ⟨fun hcounted ↦ absurd hcounted Bool.false_ne_true, ?_⟩
      intro reading after hmoves
      change Looked false _ _ (.returned (decide (deadline ≤ reading))) after
      by_cases hdeadline : deadline ≤ reading
      · rw [decide_eq_true hdeadline]
        exact ⟨trivial, rfl⟩
      · rw [decide_eq_false hdeadline]
        exact ready_of_early (not_le.mp hdeadline) hmoves
  polls name leo replay state hround hposition := by
    unfold pollOnce
    refine holds_watch_await.mpr ⟨fun _ ↦ hround hposition, ?_⟩
    rintro (error | records) after _
    · change Holds _ _ _ (if error = _ then _ else _) _
      split_ifs
      · have hstart : (perform (.beginningOffset name)).Within isPoll 0 := within_perform rfl
        have hseek : (perform (.seekToBeginning name)).Within isPoll 0 := within_perform rfl
        refine spacing_before hstart fun logStart _ ↦ spacing_before hseek fun _ _ ↦ ?_
        exact spacing_stopOrContinue
      · trivial
    · simp only [Program.bind]
      cases records.getLast? with
      | none => exact spacing_stopOrContinue
      | some last =>
        refine spacing_before within_materializeBatch fun _ _ ↦ ?_
        change Holds _ _ _
          (if (replay.advance records.length last.1).position ≠ leo then _ else _) _
        split_ifs with hend
        · exact spacing_stopOrContinue
        · exact fun hcontinues ↦ absurd hcontinues hend

/-- The clock shows only times at or past a deadline. -/
def Late (deadline : ℤ) (_ : Unit) :
    (request : requests.Request) → requests.Reply request → Unit → Prop
  | .clock, reading, _ => deadline ≤ reading
  | _, _, _ => True

/-- No fetch is made. -/
def NoPoll (request : requests.Request) (_ : Unit) : Prop := isPoll request = false

/-- An assignment past its first partition does not fetch once the clock is at the deadline. -/
theorem late_watches : AssignmentWatch (Late deadline) NoPoll settings deadline tp
    (fun first _ ↦ first = false) (fun _ ↦ False) (fun _ ↦ True) (fun _ _ _ ↦ False)
    (fun _ _ ↦ True) where
  starts_closed _ _ hpoll _ hfirst := ⟨hpoll, fun _ _ _ ↦ hfirst⟩
  ready_closed _ _ _ hfalse := hfalse.elim
  calm_closed _ hpoll _ _ := ⟨hpoll, fun _ _ _ ↦ trivial⟩
  calm_of_starts _ _ _ := trivial
  starts_of_calm _ _ := rfl
  calm_of_ready _ hfalse := hfalse.elim
  round_of_ready _ _ _ hfalse := hfalse.elim
  calm_of_round _ _ _ hfalse := hfalse.elim
  failed_of_calm _ _ _ := trivial
  looks first ghost hfirst := by
    subst hfirst
    refine holds_watch_await.mpr ⟨rfl, fun reading after hlate ↦ ?_⟩
    change Looked false _ _ (.returned (decide (deadline ≤ reading))) after
    have hdeadline : deadline ≤ reading := hlate
    rw [decide_eq_true hdeadline]
    exact ⟨trivial, rfl⟩
  polls _ _ _ _ hfalse := hfalse.elim

end Watches

/-! ### A partition that the budget does not reach -/

/-- A partition was revealed as `READY_PARTIAL`. -/
structure RevealedPartial (tp : TopicPartition) (world : World) : Prop where
  status : world.memory.state.statusOf tp = some .readyPartial
  owned : tp ∈ world.database.owned

/-- The points of a partition that is revealed as it is. -/
def Skipped : Point → Prop
  | .unreached | .captured | .revealing .readyPartial | .revealed .readyPartial => True
  | _ => False

theorem skipped_step {job : Job} {point after : Point} {world next : World}
    (hstep : Step job (point, world) (after, next)) (hskipped : Skipped point) : Skipped after := by
  cases hstep with
  | drift _ _ => exact hskipped
  | @reveal status _ => cases status <;> exact hskipped
  | keepUnreached | captureUnreached _ | seedUnreached => trivial
  | _ => exact hskipped.elim

section Late

variable {settings : Settings} {conditions : Conditions} {tp : TopicPartition} {world : World}

/-- A partition that was not reached is revealed as `READY_PARTIAL`, unless a call raises. -/
theorem holds_revealPartialUnreached {name : String} :
    Holds (environment settings conditions) (AtCall fun _ _ ↦ True)
      (fun outcome final ↦ outcome ≠ .exhausted ∧ (outcome = .returned () →
        RevealedPartial tp final))
      (revealPartialUnreached tp name) world := by
  let job : Job := ⟨settings, conditions, tp, name, 0, 0⟩
  have hstart : Reaches job (.unreached, world) (.unreached, world) := .refl
  have hskipped {point : Point} {final : World}
      (hreaches : Reaches job (.unreached, world) (point, final)) : Skipped point :=
    hreaches.invariant (fun point _ ↦ Skipped point) skipped_step trivial
  have hrefines : Holds job.environment (AtCall (Pending job (.unreached, world)))
      (Ends job (.unreached, world)) (revealPartialUnreached job.tp job.name) world :=
    revealPartialUnreached_refines hstart
  refine hrefines.mono (fun request _ _ ↦ ?_) ?_
  · cases request <;> trivial
  · rintro (value | error | _) final hends
    · obtain ⟨status, hreaches⟩ := hends
      have hmarked : Marked job (.revealed status) final := hreaches.marked trivial
      have hskips : status = .readyPartial := by
        have := hskipped hreaches
        cases status with
        | readyPartial => rfl
        | _ => exact this.elim
      exact ⟨by simp, fun _ ↦ ⟨hskips ▸ hmarked.1, hmarked.2⟩⟩
    · exact ⟨by simp, fun hreturned ↦ by cases hreturned⟩
    · obtain ⟨leo, replay, hreaches, _⟩ := hends
      exact (hskipped hreaches).elim

/-- Past the first partition, with the clock at the deadline, the assignment of a partition reveals
it as `READY_PARTIAL`, unless a call raises. -/
theorem holds_assignOne_late {deadline : ℤ} {fuel : ℕ}
    (hlate : ∀ reading, conditions.shows reading → deadline ≤ reading) :
    Holds (environment settings conditions) (AtCall fun _ _ ↦ True)
      (fun outcome final ↦ outcome ≠ .exhausted ∧
        ∀ value, outcome = .returned value → RevealedPartial tp final)
      (assignOne settings fuel deadline false tp) world := by
  let job : Job := ⟨settings, conditions, tp, settings.template tp, deadline, fuel⟩
  have hstart : Reaches job (.checking, world) (.checking, world) := .refl
  have hchecked : Holds job.environment (AtCall (Pending job (.checking, world)))
      (fun outcome _ ↦ outcome ≠ .exhausted) (ensureAndVerify job.settings job.tp) world :=
    holds_ensureAndVerify_at rfl hstart (fun _ _ _ ↦ by simp) fun _ _ ↦ by simp
  have hpassed : Holds (environment settings conditions) (AtCall fun _ _ ↦ True)
      (fun outcome _ ↦ outcome ≠ .exhausted) (ensureAndVerify settings tp) world :=
    hchecked.mono (fun request _ _ ↦ by cases request <;> trivial) fun _ _ hends ↦ hends
  refine hpassed.bind (fun name entered _ ↦ ?_) (fun error final _ ↦ ⟨by simp, ?_⟩)
    fun _ hends ↦ absurd rfl hends
  · refine holds_bind.mpr (holds_bind.mpr (holds_clock.mpr fun reading hreading ↦ ?_))
    have hexpired : decide (deadline ≤ reading) = true := decide_eq_true (hlate reading hreading)
    change Holds _ _ _ (if decide (deadline ≤ reading) = true then _ else _) entered
    rw [if_pos hexpired]
    refine holds_revealPartialUnreached.bind (fun _ final hfinal ↦ ?_)
      (fun error final _ ↦ ⟨by simp, ?_⟩) fun _ hfinal ↦ absurd rfl hfinal.1
    · exact ⟨by simp, fun _ _ ↦ hfinal.2 rfl⟩
    · exact fun value hreturned ↦ by cases hreturned
  · exact fun value hreturned ↦ by cases hreturned

/-- The next partition of an assignment is not the first one to replay any more. -/
theorem holds_assignOne_false {deadline : ℤ} {fuel : ℕ} {first : Bool} :
    Holds (environment settings conditions) (fun _ _ ↦ True)
      (fun outcome _ ↦ ∀ value, outcome = .returned value → value = false)
      (assignOne settings fuel deadline first tp) world := by
  have hbefore {Value : Type} {program : Action Value} {next : Value → Action Bool} {world : World}
      (hnext : ∀ value between, Holds (environment settings conditions) (fun _ _ ↦ True)
        (fun outcome _ ↦ ∀ value, outcome = .returned value → value = false) (next value)
        between) :
      Holds (environment settings conditions) (fun _ _ ↦ True)
        (fun outcome _ ↦ ∀ value, outcome = .returned value → value = false) (program >>= next)
        world := by
    have hall : Holds (environment settings conditions) (fun _ _ ↦ True) (fun _ _ ↦ True) program
        world := holds_of_forall (fun _ _ ↦ trivial) (fun _ _ ↦ trivial) program world
    exact hall.bind (fun value between _ ↦ hnext value between)
      (fun _ _ _ _ hreturned ↦ by cases hreturned) fun _ _ _ hreturned ↦ by cases hreturned
  have hreturns {first : Bool} {world : World} (hfirst : first = false) :
      Holds (environment settings conditions) (fun _ _ ↦ True)
        (fun outcome _ ↦ ∀ value, outcome = .returned value → value = false)
        (pure first : Action Bool) world := by
    rintro value hreturned
    cases hreturned
    exact hfirst
  refine hbefore fun name entered ↦ ?_
  cases first with
  | true =>
    change Holds _ _ _ (rehydrateOne settings fuel tp name deadline >>= fun _ ↦ pure false) entered
    exact hbefore fun _ _ ↦ hreturns rfl
  | false =>
    refine hbefore fun expired between ↦ ?_
    cases expired with
    | true => exact hbefore fun _ _ ↦ hreturns rfl
    | false => exact hbefore fun _ _ ↦ hreturns rfl

end Late

end KSQLite.Rehydrate
