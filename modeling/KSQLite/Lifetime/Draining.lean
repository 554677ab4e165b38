import KSQLite.Lifetime.Facade
import KSQLite.Suspension.Ledger
import Mathlib.Data.Multiset.Filter

/-!
# A stop drains the appends and closes everything

Every call in flight holds an entry of a ledger: an append that was admitted, the stop that won and
how far it is, or nothing of that. `Kept` says how these entries go with the fields and the history
of the store in each phase.

After a stop began no append is admitted, no close step is called before every admitted append has
left, and a stop that waits for them can go on once they have (`stop_drains`). Where no stop is
cancelled while it waits, a store whose stops have all ended called every close step exactly once
(`closes_once`); a stop that is cancelled there leaves everything open (`cancelled_stays_open`).
-/

set_option autoImplicit false
set_option relaxedAutoImplicit false

namespace KSQLite.Lifetime.Draining

open KSQLite.Suspension

open KSQLite.Store (RunState TopicPartition)

/-! ### Histories -/

/-- The close steps that were called. -/
def steps (history : List Mark) : List CloseStep :=
  history.filterMap fun
    | .invoked step => some step
    | _ => none

/-- No append is admitted after a stop began. -/
def Refuses (history : List Mark) : Prop :=
  history.Pairwise fun earlier later ↦ earlier = .stopping → later ≠ .admitted

/-- Where a close step is called, every append that was admitted has left. -/
def Quiet (history : List Mark) : Prop :=
  ∀ before step after, history = before ++ .invoked step :: after →
    before.count .admitted = before.count .left

section Histories

variable {history : List Mark} {mark : Mark}

theorem steps_append : steps (history ++ [mark]) = steps history ++ steps [mark] :=
  List.filterMap_append

/-- A mark that is no close step adds none. -/
theorem steps_append_of_ne (hmark : ∀ step, mark ≠ .invoked step) :
    steps (history ++ [mark]) = steps history := by
  cases mark with
  | invoked step => exact absurd rfl (hmark step)
  | _ => simp [steps]

theorem count_invoked {step : CloseStep} :
    history.count (.invoked step) = (steps history).count step := by
  induction history with
  | nil => rfl
  | cons mark rest ih =>
    cases mark with
    | invoked other =>
      by_cases hother : other = step <;> simp_all [steps]
    | _ => simp_all [steps]

theorem refuses_append (hrefuses : Refuses history)
    (hmark : mark = .admitted → .stopping ∉ history) : Refuses (history ++ [mark]) := by
  refine List.pairwise_append.mpr ⟨hrefuses, List.pairwise_singleton _ _, ?_⟩
  intro earlier hearlier later hlater hstopping
  rw [List.mem_singleton] at hlater
  rintro rfl
  exact hmark hlater.symm (hstopping ▸ hearlier)

theorem quiet_append (hquiet : Quiet history)
    (hmark : ∀ step, mark = .invoked step → history.count .admitted = history.count .left) :
    Quiet (history ++ [mark]) := by
  intro before step after hsplit
  rcases List.eq_nil_or_concat after with rfl | ⟨rest, last, rfl⟩
  · obtain ⟨rfl, hlast⟩ := List.append_inj' hsplit rfl
    exact hmark step (List.cons.inj hlast).1
  · rw [List.concat_eq_append, ← List.cons_append, ← List.append_assoc] at hsplit
    exact hquiet before step rest (List.append_inj' hsplit rfl).1

end Histories

/-! ### The ledger -/

/-- How far a call is: not resumed yet, nothing to account for, an admitted append, or the stop
that won: before it waits or waiting, past the wait, or with the close steps that are left. -/
inductive DrainStage
  | fresh
  | passing
  | admitted
  | draining
  | released
  | closing (left : List CloseStep)
  deriving DecidableEq

namespace DrainStage

/-- The stages of the stop that won. -/
def Wins : DrainStage → Prop
  | draining | released | closing _ => True
  | _ => False

instance : DecidablePred Wins := fun stage ↦ by
  cases stage <;> unfold Wins <;> infer_instance

/-- The stage after an exchange. -/
def move : DrainStage → (request : Request) → request.Reply → DrainStage
  | _, .enter, _ => admitted
  | _, .leave, _ => passing
  | _, .become .stopping, _ => draining
  | _, .become .closed, _ => closing CloseStep.all
  | draining, .await .drain, .ok _ => released
  | draining, .await .drain, .error _ => passing
  | closing left, .invoke _, _ => closing left.tail
  | fresh, _, _ => passing
  | stage, _, _ => stage

end DrainStage

/-- The entries of the calls in flight. -/
abbrev Entries : Type := Multiset (Operation × DrainStage)

/-- An entry of an admitted append. -/
abbrev IsAdmitted (entry : Operation × DrainStage) : Prop := entry.2 = .admitted

/-- An entry of the stop that won. -/
abbrev IsWinner (entry : Operation × DrainStage) : Prop := entry.2.Wins

/-- What a store is like where the stop that won is at a stage. -/
def DrainStage.At (fields : Fields) (history : List Mark) : DrainStage → Prop
  | .draining => fields.runState = .stopping ∧ steps history = [] ∧
      (fields.drained = true ∨ 0 < fields.inFlight)
  | .released => fields.runState = .stopping ∧ steps history = [] ∧ fields.drained = true
  | .closing left => fields.runState = .closed ∧ steps history ++ left = CloseStep.all ∧
      fields.inFlight = 0
  | _ => False

/-- The phases of a store, with the entry of the stop that won. It is missing where that stop was
cancelled while it waited, unless stops are patient. -/
inductive Phase (patient : Prop) (fields : Fields) (history : List Mark) : Entries → Prop
  | running : fields.runState = .running → fields.drained = false → .stopping ∉ history →
      steps history = [] → Phase patient fields history 0
  | abandoned : ¬ patient → fields.runState = .stopping → .stopping ∈ history →
      steps history = [] → Phase patient fields history 0
  | won {stage : DrainStage} : stage.At fields history → .stopping ∈ history →
      Phase patient fields history {(.stop, stage)}

/-- What the entries say of a store. -/
structure Kept (patient : Prop) (fields : Fields) (history : List Mark) (entries : Entries) :
    Prop where
  held : fields.held ≠ none
  inFlight : fields.inFlight = entries.countP IsAdmitted
  admitted : history.count .admitted = history.count .left + fields.inFlight
  drained : fields.drained = true → fields.inFlight = 0
  begun : ∀ stage, (Operation.stop, stage) ∈ entries → stage ≠ .fresh →
    fields.runState ≠ .running
  phase : Phase patient fields history (entries.filter IsWinner)
  refuses : Refuses history
  quiet : Quiet history

section Steps

variable {patient : Prop} {fields : Fields} {history : List Mark} {winners others : Entries}
  {operation : Operation} {left : List CloseStep}

/-- A store that a stop has won is not running. -/
theorem DrainStage.At.ne_running {stage : DrainStage} (hat : stage.At fields history) :
    fields.runState ≠ .running ∧ fields.runState ≠ .new := by
  cases stage with
  | draining | released | closing =>
    rw [hat.1]
    exact ⟨nofun, nofun⟩
  | _ => exact hat.elim

/-- The phases by the state of the store. -/
theorem Phase.stopping_mem (hphase : Phase patient fields history winners) :
    .stopping ∈ history ↔ fields.runState ≠ .running := by
  cases hphase with
  | running hstate _ hmark => exact iff_of_false hmark (not_not_intro hstate)
  | abandoned _ hstate hmark => exact iff_of_true hmark (by simp [hstate])
  | won hat hmark => exact iff_of_true hmark hat.ne_running.1

theorem Phase.eq_zero_of_running (hphase : Phase patient fields history winners)
    (hrunning : fields.runState = .running) :
    winners = 0 ∧ fields.drained = false ∧ steps history = [] := by
  cases hphase with
  | running _ hdrained _ hsteps => exact ⟨rfl, hdrained, hsteps⟩
  | abandoned _ hstate => simp [hstate] at hrunning
  | won hat => exact absurd hrunning hat.ne_running.1

theorem Phase.ne_new (hphase : Phase patient fields history winners) : fields.runState ≠ .new := by
  cases hphase with
  | running hstate | abandoned _ hstate => simp [hstate]
  | won hat => exact hat.ne_running.2

/-- There is one winner. -/
theorem Phase.at_of_cons {stage : DrainStage}
    (hphase : Phase patient fields history ((operation, stage) ::ₘ winners)) :
    operation = .stop ∧ winners = 0 ∧ stage.At fields history ∧ .stopping ∈ history := by
  generalize hall : (operation, stage) ::ₘ winners = all at hphase
  cases hphase with
  | running | abandoned => exact absurd hall (Multiset.cons_ne_zero)
  | won hat hmark =>
    obtain ⟨hsame, hzero⟩ := (Multiset.singleton_eq_cons_iff _).mp hall.symm
    obtain ⟨rfl, rfl⟩ := Prod.mk.inj hsame
    exact ⟨rfl, hzero, hat, hmark⟩

theorem countP_admitted {stage : DrainStage} :
    ((operation, stage) ::ₘ others).countP IsAdmitted =
      others.countP IsAdmitted + if stage = .admitted then 1 else 0 :=
  Multiset.countP_cons _ _ _

theorem winners_of_not (stage : DrainStage) (hstage : ¬ stage.Wins) :
    ((operation, stage) ::ₘ others).filter IsWinner = others.filter IsWinner :=
  Multiset.filter_cons_of_neg others hstage

theorem winners_of_wins (stage : DrainStage) (hstage : stage.Wins) :
    ((operation, stage) ::ₘ others).filter IsWinner =
      (operation, stage) ::ₘ others.filter IsWinner :=
  Multiset.filter_cons_of_pos others hstage

/-- A call goes on: what is left to show of the ledger. -/
theorem Kept.move {before after : DrainStage} {fields' : Fields} {history' : List Mark}
    (hkept : Kept patient fields history ((operation, before) ::ₘ others))
    (hheld : fields'.held = fields.held)
    (hcount : fields'.inFlight + (if before = .admitted then 1 else 0) =
      fields.inFlight + if after = .admitted then 1 else 0)
    (hadmitted : history'.count .admitted = history'.count .left + fields'.inFlight)
    (hdrained : fields'.drained = true → fields'.inFlight = 0)
    (hbegun : operation = .stop → fields'.runState ≠ .running)
    (hstill : fields.runState ≠ .running → fields'.runState ≠ .running)
    (hphase : Phase patient fields' history' (((operation, after) ::ₘ others).filter IsWinner))
    (hrefuses : Refuses history') (hquiet : Quiet history') :
    Kept patient fields' history' ((operation, after) ::ₘ others) where
  held := by
    rw [hheld]
    exact hkept.held
  inFlight := by
    have hbefore := hkept.inFlight
    rw [countP_admitted] at hbefore ⊢
    omega
  admitted := hadmitted
  drained := hdrained
  begun stage hstage hfresh := by
    rcases Multiset.mem_cons.mp hstage with hown | hother
    · exact hbegun (Prod.mk.inj hown).1.symm
    · exact hstill (hkept.begun stage (Multiset.mem_cons_of_mem hother) hfresh)
  phase := hphase
  refuses := hrefuses
  quiet := hquiet

/-- A call that is no admitted append and no winner goes on as one, and the store does not
change. -/
theorem Kept.pass {before after : DrainStage}
    (hkept : Kept patient fields history ((operation, before) ::ₘ others))
    (hbefore : before ≠ .admitted ∧ ¬ before.Wins) (hafter : after ≠ .admitted ∧ ¬ after.Wins)
    (hbegun : operation = .stop → fields.runState ≠ .running) :
    Kept patient fields history ((operation, after) ::ₘ others) := by
  have hphase := hkept.phase
  rw [winners_of_not before hbefore.2, ← winners_of_not after hafter.2] at hphase
  exact hkept.move rfl (by rw [if_neg hbefore.1, if_neg hafter.1]) hkept.admitted hkept.drained
    hbegun id hphase hkept.refuses hkept.quiet

end Steps

section Effects

variable {patient : Prop} {world : World} {others : Entries} {operation : Operation}

/-- The ledger of a world. -/
abbrev KeptIn (patient : Prop) (world : World) (entries : Entries) : Prop :=
  Kept patient world.fields world.history entries

/-- An append is admitted while the store is running. -/
theorem kept_enter (hkept : KeptIn patient world ((operation, .passing) ::ₘ others))
    (hrunning : world.fields.runState = .running) (hoperation : operation ≠ .stop) :
    KeptIn patient world.enter ((operation, .admitted) ::ₘ others) := by
  obtain ⟨hzero, hdrained, hsteps⟩ := hkept.phase.eq_zero_of_running hrunning
  have hmark : .stopping ∉ world.history := fun hmark ↦
    hkept.phase.stopping_mem.mp hmark hrunning
  refine hkept.move rfl rfl ?_ ?_ (fun hstop ↦ absurd hstop hoperation) id ?_ ?_ ?_
  · have hadmitted := hkept.admitted
    simp only [World.enter, World.mark, World.onFields, List.count_append, List.count_singleton]
    simp
    omega
  · exact fun htrue ↦ absurd (hdrained.symm.trans htrue) Bool.false_ne_true
  · rw [winners_of_not .passing id] at hzero
    rw [winners_of_not .admitted id, hzero]
    refine .running hrunning hdrained ?_ ((steps_append_of_ne (by simp)).trans hsteps)
    simpa [World.enter, World.mark, World.onFields] using hmark
  · exact refuses_append hkept.refuses fun _ ↦ hmark
  · exact quiet_append hkept.quiet (by simp)

/-- An admitted append leaves. -/
theorem kept_leave (hkept : KeptIn patient world ((operation, .admitted) ::ₘ others))
    (hoperation : operation ≠ .stop) :
    KeptIn patient world.leave ((operation, .passing) ::ₘ others) := by
  have hpositive : 0 < world.fields.inFlight := by
    rw [hkept.inFlight, countP_admitted]
    simp
  have hdrained : world.fields.drained = false :=
    eq_false_of_ne_true fun hdrained ↦ by have := hkept.drained hdrained; omega
  refine hkept.move rfl ?_ ?_ ?_ (fun hstop ↦ absurd hstop hoperation) id ?_ ?_ ?_
  · simp [World.leave, World.mark, World.onFields]
    omega
  · have hadmitted := hkept.admitted
    simp only [World.leave, World.mark, World.onFields, List.count_append, List.count_singleton]
    simp
    omega
  · simp [World.leave, World.mark, World.onFields, hdrained]
  · have hphase := hkept.phase
    rw [winners_of_not .admitted id] at hphase
    rw [winners_of_not .passing id]
    have hmark (hstopping : .stopping ∈ world.history) : .stopping ∈ world.leave.history :=
      List.mem_append_left _ hstopping
    have hsteps : steps world.leave.history = steps world.history :=
      steps_append_of_ne (by simp)
    generalize others.filter IsWinner = winners at hphase ⊢
    cases hphase with
    | running hstate _ hstopping hnone =>
      refine .running hstate ?_ ?_ (hsteps.trans hnone)
      · simp [World.leave, World.mark, World.onFields, hdrained, hstate]
      · simpa [World.leave, World.mark, World.onFields] using hstopping
    | abandoned hpatient hstate hstopping hnone =>
      exact .abandoned hpatient hstate (hmark hstopping) (hsteps.trans hnone)
    | @won stage hat hstopping =>
      refine .won ?_ (hmark hstopping)
      cases stage with
      | draining =>
        obtain ⟨hstate, hnone, _⟩ := hat
        refine ⟨hstate, hsteps.trans hnone, ?_⟩
        -- The append that leaves last sets the event.
        by_cases hlast : world.fields.inFlight - 1 = 0
        · left
          simp [World.leave, World.mark, World.onFields, hstate, hlast]
        · right
          exact Nat.pos_of_ne_zero hlast
      | released => exact absurd (hdrained.symm.trans hat.2.2) Bool.false_ne_true
      | closing left => have := hat.2.2; omega
      | _ => exact hat.elim
  · exact refuses_append hkept.refuses (by simp)
  · exact quiet_append hkept.quiet (by simp)

/-- What a stop that wins finds. -/
theorem Kept.unwon {stage : DrainStage}
    (hkept : KeptIn patient world ((.stop, stage) ::ₘ others)) (hstage : ¬ stage.Wins)
    (hrunning : world.fields.runState = .running) :
    others.filter IsWinner = 0 ∧ world.fields.drained = false ∧ steps world.history = [] := by
  obtain ⟨hzero, hrest⟩ := hkept.phase.eq_zero_of_running hrunning
  rw [winners_of_not stage hstage] at hzero
  exact ⟨hzero, hrest⟩

/-- The appends admitted so far have all left, where none is in flight. -/
theorem Kept.balanced {fields : Fields} {history : List Mark} {entries : Entries}
    (hkept : Kept patient fields history entries) (hnone : fields.inFlight = 0) :
    history.count .admitted = history.count .left := by
  have hadmitted := hkept.admitted
  omega

/-- The stop that wins waits where appends are in flight. -/
theorem kept_begin (hkept : KeptIn patient world ((.stop, .fresh) ::ₘ others))
    (hrunning : world.fields.runState = .running) (hpositive : 0 < world.fields.inFlight) :
    KeptIn patient (world.become .stopping) ((.stop, .draining) ::ₘ others) := by
  obtain ⟨hzero, hdrained, hsteps⟩ := hkept.unwon id hrunning
  refine hkept.move rfl rfl ?_ hkept.drained (fun _ ↦ by simp [World.become, World.mark,
    World.onFields]) (fun hstopped ↦ absurd hrunning hstopped) ?_ ?_ ?_
  · have hadmitted := hkept.admitted
    simpa [World.become, World.mark, World.onFields] using hadmitted
  · rw [winners_of_wins .draining trivial, hzero]
    refine .won ⟨rfl, (steps_append_of_ne (by simp)).trans hsteps, Or.inr hpositive⟩ ?_
    simp [World.become, World.mark, World.onFields]
  · exact refuses_append hkept.refuses (by simp)
  · exact quiet_append hkept.quiet (by simp)

/-- What a winner finds. -/
theorem Kept.won {stage : DrainStage}
    (hkept : KeptIn patient world ((operation, stage) ::ₘ others)) (hstage : stage.Wins) :
    operation = .stop ∧ others.filter IsWinner = 0 ∧ stage.At world.fields world.history ∧
      .stopping ∈ world.history := by
  have hphase := hkept.phase
  rw [winners_of_wins stage hstage] at hphase
  exact hphase.at_of_cons

/-- The winner goes on while the store does not change. -/
theorem Kept.advance {before after : DrainStage}
    (hkept : KeptIn patient world ((operation, before) ::ₘ others)) (hbefore : before.Wins)
    (hafter : after.Wins) (hat : after.At world.fields world.history) :
    KeptIn patient world ((operation, after) ::ₘ others) := by
  obtain ⟨rfl, hzero, hold, hmark⟩ := hkept.won hbefore
  have hcount : (if before = .admitted then 1 else 0) = if after = .admitted then 1 else 0 := by
    cases before <;> cases after <;> first | rfl | exact hbefore.elim | exact hafter.elim
  refine hkept.move rfl (by rw [hcount]) hkept.admitted hkept.drained
    (fun _ ↦ hold.ne_running.1) id ?_ hkept.refuses hkept.quiet
  rw [winners_of_wins after hafter, hzero]
  exact .won hat hmark

/-- The wait ends with the event. -/
theorem kept_release (hkept : KeptIn patient world ((operation, .draining) ::ₘ others))
    (hset : world.fields.drained = true) :
    KeptIn patient world ((operation, .released) ::ₘ others) := by
  obtain ⟨_, _, ⟨hstate, hsteps, _⟩, _⟩ := hkept.won trivial
  exact hkept.advance trivial trivial ⟨hstate, hsteps, hset⟩

/-- The wait is cancelled. -/
theorem kept_abandon (hkept : KeptIn patient world ((operation, .draining) ::ₘ others))
    (hpatient : ¬ patient) : KeptIn patient world ((operation, .passing) ::ₘ others) := by
  obtain ⟨_, hzero, ⟨hstate, hsteps, _⟩, hmark⟩ := hkept.won trivial
  refine hkept.move rfl rfl hkept.admitted hkept.drained (fun _ ↦ by simp [hstate]) id ?_
    hkept.refuses hkept.quiet
  rw [winners_of_not .passing id, hzero]
  exact .abandoned hpatient hstate hmark hsteps

/-- The drained stop closes the store. -/
theorem kept_close (hkept : KeptIn patient world ((operation, .released) ::ₘ others)) :
    KeptIn patient (world.become .closed) ((operation, .closing CloseStep.all) ::ₘ others) := by
  obtain ⟨rfl, hzero, ⟨hstate, hsteps, hset⟩, hmark⟩ := hkept.won trivial
  refine hkept.move rfl rfl hkept.admitted hkept.drained (fun _ ↦ nofun) (fun _ ↦ nofun) ?_
    hkept.refuses hkept.quiet
  rw [winners_of_wins (.closing _) trivial, hzero]
  refine .won ⟨rfl, ?_, hkept.drained hset⟩ hmark
  rw [show steps (world.become .closed).history = [] from hsteps, List.nil_append]

/-- A stop that finds no append in flight closes the store at once. -/
theorem kept_close_now (hkept : KeptIn patient world ((.stop, .fresh) ::ₘ others))
    (hrunning : world.fields.runState = .running) (hnone : world.fields.inFlight = 0) :
    KeptIn patient ((world.become .stopping).become .closed)
      ((.stop, .closing CloseStep.all) ::ₘ others) := by
  obtain ⟨hzero, hdrained, hsteps⟩ := hkept.unwon id hrunning
  refine hkept.move rfl rfl ?_ hkept.drained (fun _ ↦ nofun) (fun _ ↦ nofun) ?_ ?_ ?_
  · have hadmitted := hkept.admitted
    simpa [World.become, World.mark, World.onFields] using hadmitted
  · rw [winners_of_wins (.closing _) trivial, hzero]
    refine .won ⟨rfl, ?_, hnone⟩ ?_
    · have hstill : steps ((world.become .stopping).become .closed).history = [] :=
        (steps_append_of_ne (by simp)).trans hsteps
      rw [hstill, List.nil_append]
    · simp [World.become, World.mark, World.onFields]
  · exact refuses_append hkept.refuses (by simp)
  · exact quiet_append hkept.quiet (by simp)

/-- A close step is called. -/
theorem kept_invoke {step : CloseStep} {left : List CloseStep}
    (hkept : KeptIn patient world ((operation, .closing (step :: left)) ::ₘ others)) :
    KeptIn patient (world.mark (.invoked step)) ((operation, .closing left) ::ₘ others) := by
  obtain ⟨rfl, hzero, ⟨hstate, hsteps, hnone⟩, hmark⟩ := hkept.won trivial
  refine hkept.move rfl rfl ?_ hkept.drained (fun _ ↦ by simp [World.mark, hstate])
    (fun hstopped ↦ hstopped) ?_ ?_ ?_
  · have hadmitted := hkept.admitted
    simpa [World.mark] using hadmitted
  · rw [winners_of_wins (.closing _) trivial, hzero]
    refine .won ⟨hstate, ?_, hnone⟩ (List.mem_append_left _ hmark)
    rw [← hsteps, show steps (world.mark (.invoked step)).history = _ from steps_append]
    simp [steps]
  · exact refuses_append hkept.refuses (by simp)
  · exact quiet_append hkept.quiet fun _ _ ↦ hkept.balanced hnone

end Effects

/-! ### The programs -/

/-- The ledger of the appends in flight and of the stop that won. -/
def drainLedger (patient : Prop) : Ledger requests Failure Unit World Operation DrainStage where
  fresh := .fresh
  move := DrainStage.move
  allows _ stage
    | .await .drain => stage = .draining
    | .await _ => stage ≠ .fresh
    | _ => True
  ends _ stage
    | .exhausted => True
    | _ => stage = .passing ∨ stage = .closing []
  kept := KeptIn patient

/-- The requests that do not touch the appends in flight or the phase. -/
def Plain : Request → Prop
  | .await .drain | .enter | .leave | .become _ | .hold _ | .invoke _ => False
  | _ => True

section Programs

variable {patient : Prop} {allowed : World → (request : Request) → request.Reply → Prop}
  {world : World} {others : Entries} {operation : Operation} {settings : Settings}

/-- A call that agrees with its stage. -/
abbrev Agrees (patient : Prop) (allowed : World → (request : Request) → request.Reply → Prop)
    (operation : Operation) (stage : DrainStage) (program : Coroutine Unit) : Prop :=
  (drainLedger patient).Keeps (environment allowed) Suspends operation stage program

/-- The consumer is no part of the ledger. -/
theorem kept_keep {entries : Entries} {consumer : Option Resource}
    (hkept : KeptIn patient world entries) : KeptIn patient (world.keep consumer) entries := by
  have hphase : Phase patient (world.keep consumer).fields world.history
      (entries.filter IsWinner) := by
    have hold := hkept.phase
    generalize entries.filter IsWinner = winners at hold ⊢
    cases hold with
    | running hstate hdrained hmark hsteps => exact .running hstate hdrained hmark hsteps
    | abandoned hpatient hstate hmark hsteps => exact .abandoned hpatient hstate hmark hsteps
    | @won stage hat hmark =>
      refine .won ?_ hmark
      cases stage <;> exact hat
  exact ⟨hkept.held, hkept.inFlight, hkept.admitted, hkept.drained, hkept.begun, hphase,
    hkept.refuses, hkept.quiet⟩

/-- A plain request keeps the ledger. -/
theorem kept_plain {request : Request} {entries : Entries} {reply : request.Reply} {next : World}
    (hrequest : Plain request) (hkept : KeptIn patient world entries)
    (heffect : effect world request reply next) : KeptIn patient next entries := by
  cases request with
  | observe => exact heffect.2 ▸ hkept
  | construct kind =>
    rcases reply with trouble | resource
    · exact heffect ▸ hkept
    · exact heffect.2 ▸ hkept
  | keep consumer => exact heffect ▸ kept_keep hkept
  | drop => exact heffect ▸ kept_keep hkept
  | await duty =>
    cases duty with
    | drain => exact hrequest.elim
    | _ => exact heffect ▸ hkept
  | _ => exact hrequest.elim

/-- A plain request leaves the stage of a call that was resumed. -/
theorem move_plain {request : Request} {stage : DrainStage} (hrequest : Plain request)
    (hstage : stage ≠ .fresh) (reply : request.Reply) : stage.move request reply = stage := by
  cases request with
  | await duty => cases duty <;> cases stage <;>
      first | rfl | exact hrequest.elim | exact absurd rfl hstage
  | enter | leave | become | hold | invoke => exact hrequest.elim
  | _ => cases stage <;> first | rfl | exact absurd rfl hstage

/-- A plain program keeps the ledger. -/
theorem holds_plain {Result : Type} {stage : DrainStage} {program : Coroutine Result}
    {post : Outcome Failure Result → View World Operation DrainStage → Prop}
    (hprogram : program.Asks Plain) (hstage : stage ≠ .fresh)
    (hpost : ∀ outcome world others, KeptIn patient world ((operation, stage) ::ₘ others) →
      post outcome ⟨world, stage, others⟩)
    (hkept : KeptIn patient world ((operation, stage) ::ₘ others)) :
    Holds ((drainLedger patient).beside (environment allowed) Suspends operation)
      ((drainLedger patient).Moment Suspends operation) post program ⟨world, stage, others⟩ := by
  refine Ledger.holds_asks hprogram (fun request hrequest ↦ ?_)
    (fun request reply hrequest ↦ move_plain hrequest hstage reply)
    (fun _ _ _ _ _ hrequest hkept hanswers ↦ kept_plain hrequest hkept hanswers.2) hpost hkept
  cases request with
  | await duty =>
    cases duty with
    | drain => exact hrequest.elim
    | _ => exact hstage
  | _ => trivial

theorem plain_of_assignment {request : Request} (hrequest : OfAssignment request) :
    Plain request := by
  cases request with
  | await duty => cases duty <;> trivial
  | _ => trivial

theorem plain_of_closing {request : Request} (hrequest : OfClosing request) : Plain request := by
  cases request with
  | await duty => cases duty <;> trivial
  | _ => trivial

/-- A call that is refused: nothing changes. -/
theorem holds_refused {failure : Failure}
    (hkept : KeptIn patient world ((operation, .fresh) ::ₘ others))
    (hbegun : operation = .stop → world.fields.runState ≠ .running) :
    Holds ((drainLedger patient).beside (environment allowed) Suspends operation)
      ((drainLedger patient).Moment Suspends operation) ((drainLedger patient).Ended operation)
      (.raise failure : Coroutine Unit) ⟨world, .passing, others⟩ :=
  ⟨Or.inl rfl, hkept.pass ⟨nofun, id⟩ ⟨nofun, id⟩ hbegun⟩

/-- A store that was started is not started again. -/
theorem agrees_start : Agrees patient allowed .start .fresh (start settings) := by
  intro world others hkept
  refine Ledger.holds_instant (not_suspends nofun) trivial ?_
  rintro fields next ⟨_, rfl, rfl⟩
  change Holds _ _ _ (if next.fields.runState ≠ .new then _ else _) _
  rw [if_pos hkept.phase.ne_new]
  exact holds_refused hkept nofun

theorem agrees_append : Agrees patient allowed .append .fresh append := by
  intro world others hkept
  refine Ledger.holds_instant (not_suspends nofun) trivial ?_
  rintro fields next ⟨_, rfl, rfl⟩
  change Holds _ _ _ ((if next.fields.runState ≠ .running then _ else _) >>= _) _
  by_cases hrunning : next.fields.runState = .running
  · rw [if_neg (not_not_intro hrunning)]
    -- The check and the count are one step: nobody else runs in between.
    refine Ledger.holds_instant (not_suspends nofun) trivial ?_
    rintro ⟨⟩ entered ⟨_, rfl⟩
    have hentered := kept_enter (hkept.pass ⟨nofun, id⟩ ⟨nofun, id⟩ nofun) hrunning nofun
    refine Ledger.holds_suspended ⟨_, rfl⟩ nofun hentered ?_
    intro before entries reply answered _ _ between rest hbetween
    rcases reply with trouble | value
    · refine Ledger.holds_instant (not_suspends nofun) trivial ?_
      rintro ⟨⟩ final ⟨_, rfl⟩
      exact ⟨Or.inl rfl, kept_leave hbetween nofun⟩
    · refine Ledger.holds_instant (not_suspends nofun) trivial ?_
      rintro ⟨⟩ final ⟨_, rfl⟩
      exact ⟨Or.inl rfl, kept_leave hbetween nofun⟩
  · rw [if_pos hrunning]
    exact holds_refused hkept nofun

theorem agrees_assign {assigned : List TopicPartition} :
    Agrees patient allowed (.assign assigned) .fresh (onPartitionsAssigned assigned) := by
  intro world others hkept
  refine Ledger.holds_instant (not_suspends nofun) trivial ?_
  rintro fields next ⟨_, rfl, rfl⟩
  change Holds _ _ _ ((if next.fields.runState ≠ .running then _ else _) >>= _) _
  split_ifs
  · exact holds_refused hkept nofun
  · refine holds_plain ((asks_assignAll assigned).mono fun _ ↦ plain_of_assignment) nofun
      (fun outcome final rest hfinal ↦ ?_)
      (hkept.pass ⟨nofun, id⟩ ⟨nofun, id⟩ nofun)
    refine ⟨?_, hfinal⟩
    cases outcome <;> first | trivial | exact Or.inl rfl

/-- What a close step leaves: it is over, however it ended. -/
def Over (patient : Prop) (left : List CloseStep) :
    Outcome Failure (Except Failure Unit) → View World Operation DrainStage → Prop
  | .raised _, _ => False
  | _, view => view.stage = .closing left ∧
      KeptIn patient view.world ((.stop, .closing left) ::ₘ view.others)

/-- The close steps, one after another: each of them is called, whatever the others raise. -/
theorem holds_closeAll {held : Held} {left : List CloseStep} {first : Option Failure}
    (hkept : KeptIn patient world ((.stop, .closing left) ::ₘ others)) :
    Holds ((drainLedger patient).beside (environment allowed) Suspends .stop)
      ((drainLedger patient).Moment Suspends .stop) ((drainLedger patient).Ended .stop)
      (closeAll held first left) ⟨world, .closing left, others⟩ := by
  induction left generalizing first world others with
  | nil => cases first <;> exact ⟨Or.inr rfl, hkept⟩
  | cons step rest ih =>
    rw [closeAll_cons]
    refine Ledger.holds_instant (not_suspends nofun) trivial ?_
    rintro ⟨⟩ next ⟨_, rfl⟩
    have hstep : Holds ((drainLedger patient).beside (environment allowed) Suspends .stop)
        ((drainLedger patient).Moment Suspends .stop) (Over patient rest)
        ((step.close held).caught : Coroutine (Except Failure Unit))
        ⟨world.mark (.invoked step), .closing rest, others⟩ := by
      refine holds_caught.mpr (holds_plain ((asks_close held step).mono
        fun _ ↦ plain_of_closing) nofun ?_
        (kept_invoke hkept))
      rintro (value | failure | _) final entries hfinal <;> exact ⟨rfl, hfinal⟩
    refine hstep.bind ?_ (fun _ _ hraised ↦ hraised.elim) fun view hover ↦ ⟨trivial, ?_⟩
    · rintro (failure | value) ⟨final, stage, entries⟩ ⟨rfl, hfinal⟩ <;> exact ih hfinal
    · obtain ⟨hstage, hfinal⟩ := hover
      rw [hstage]
      exact hfinal

/-- What a stop does once the appends are drained. -/
theorem holds_finishStop {stage : DrainStage}
    (hkept : KeptIn patient (world.become .closed) ((.stop, .closing CloseStep.all) ::ₘ others)) :
    Holds ((drainLedger patient).beside (environment allowed) Suspends .stop)
      ((drainLedger patient).Moment Suspends .stop) ((drainLedger patient).Ended .stop)
      finishStop ⟨world, stage, others⟩ := by
  refine Ledger.holds_instant (not_suspends nofun) trivial ?_
  rintro ⟨⟩ closed ⟨_, rfl⟩
  refine Ledger.holds_instant (not_suspends nofun) trivial ?_
  rintro fields next ⟨_, rfl, rfl⟩
  obtain ⟨held, hheld⟩ := Option.ne_none_iff_exists'.mp hkept.held
  simp only [Program.bind]
  rw [hheld]
  exact holds_closeAll hkept

theorem agrees_stop : Agrees patient allowed .stop .fresh stop := by
  intro world others hkept
  refine Ledger.holds_instant (not_suspends nofun) trivial ?_
  rintro fields next ⟨_, rfl, rfl⟩
  simp only [Program.bind]
  cases hstate : next.fields.runState with
  | new => exact absurd hstate hkept.phase.ne_new
  | stopping | closed =>
    exact ⟨Or.inl rfl, hkept.pass ⟨nofun, id⟩ ⟨nofun, id⟩ fun _ ↦ by simp [hstate]⟩
  | running =>
    refine Ledger.holds_instant (not_suspends nofun) trivial ?_
    rintro ⟨⟩ stopping ⟨_, rfl⟩
    change Holds _ _ _ (if 0 < next.fields.inFlight then _ else _) _
    by_cases hpositive : 0 < next.fields.inFlight
    · rw [if_pos hpositive]
      refine Ledger.holds_suspended ⟨_, rfl⟩ rfl (kept_begin hkept hstate hpositive) ?_
      intro before entries reply answered _ hanswers between rest hbetween
      rcases reply with trouble | value
      · exact ⟨Or.inl rfl, hbetween⟩
      · exact holds_finishStop (kept_close hbetween)
    · rw [if_neg hpositive]
      exact holds_finishStop (kept_close_now hkept hstate (Nat.eq_zero_of_not_pos hpositive))

theorem DrainStage.move_ne_fresh {stage : DrainStage} {request : Request}
    {reply : request.Reply} : stage.move request reply ≠ .fresh := by
  by_cases hstage : stage = .fresh
  · subst hstage
    cases request with
    | become runState => cases runState <;> nofun
    | await duty => cases duty <;> nofun
    | _ => nofun
  · unfold DrainStage.move
    split <;> first | exact hstage | nofun

theorem plain_await {duty : Duty} (hduty : duty ≠ .drain) : Plain (.await duty) := by
  cases duty with
  | drain => exact absurd rfl hduty
  | _ => trivial

theorem ne_fresh_of_allows {stage : DrainStage} {duty : Duty}
    (hallows : (drainLedger patient).allows operation stage (.await duty)) : stage ≠ .fresh := by
  cases duty with
  | drain =>
    rintro rfl
    cases hallows
  | _ => exact hallows

/-- The answer to a duty that is not the wait keeps the ledger. -/
theorem kept_answered {stage : DrainStage} {duty : Duty} {reply : (Request.await duty).Reply}
    {next : World} (hduty : duty ≠ .drain) (hstage : stage ≠ .fresh)
    (hkept : KeptIn patient world ((operation, stage) ::ₘ others))
    (heffect : effect world (.await duty) reply next) :
    KeptIn patient next ((operation, stage.move (.await duty) reply) ::ₘ others) := by
  rw [move_plain (plain_await hduty) hstage]
  exact kept_plain (plain_await hduty) hkept heffect

/-- The ledger is sound for the calls of a store. -/
theorem drainLedger_sound (hpatient : patient → ∀ world trouble, ¬ allowed world (.await .drain)
      (.error trouble)) :
    (drainLedger patient).Sound (environment allowed) Suspends (Operation.program settings) where
  programs operation := by
    cases operation with
    | start => exact agrees_start
    | stop => exact agrees_stop
    | append => exact agrees_append
    | assign assigned => exact agrees_assign
  starts operation world entries hkept := by
    change KeptIn patient world ((operation, .fresh) ::ₘ entries)
    refine ⟨hkept.held, ?_, hkept.admitted, hkept.drained, fun stage hstage hfresh ↦ ?_, ?_,
      hkept.refuses, hkept.quiet⟩
    · rw [hkept.inFlight, countP_admitted]
      rfl
    · rcases Multiset.mem_cons.mp hstage with hown | hother
      · exact absurd (Prod.mk.inj hown).2 hfresh
      · exact hkept.begun stage hother hfresh
    · rw [winners_of_not .fresh id]
      exact hkept.phase
  answers operation stage world others request reply next hsuspends hallows hkept hanswers := by
    obtain ⟨duty, rfl⟩ := hsuspends
    by_cases hdrain : duty = .drain
    · subst hdrain
      obtain rfl : stage = .draining := hallows
      rcases reply with trouble | value
      · obtain ⟨hallowed, rfl, rfl⟩ := hanswers
        exact kept_abandon hkept fun hpatience ↦ hpatient hpatience _ _ hallowed
      · obtain ⟨_, hset, rfl⟩ := hanswers
        exact kept_release hkept hset
    · exact kept_answered hdrain (ne_fresh_of_allows hallows) hkept hanswers.2
  drifts _ _ _ _ hsame hkept := hsame ▸ hkept
  moves _ _ _ := DrainStage.move_ne_fresh

end Programs

/-! ### The appends are drained -/

section Results

variable {settings : Settings} {held : Held} {made : Kind → ℕ} {shut : Finset Resource}
  {allowed : World → (request : Request) → request.Reply → Prop}
  {final : Pool requests Failure Unit World Operation}

/-- The ledger of a store that was just started. -/
theorem kept_started (patient : Prop) : KeptIn patient (.started held made shut) 0 where
  held := nofun
  inFlight := rfl
  admitted := rfl
  drained := nofun
  begun _ hstage := absurd hstage (Multiset.notMem_zero _)
  phase := .running rfl rfl List.not_mem_nil rfl
  refuses := List.Pairwise.nil
  quiet before step after hsplit := by simp [World.started] at hsplit

/-- The accounts after a run of a store that was just started. -/
theorem exists_accounted (patient : Prop)
    (hrun : Run settings allowed (.idle (.started held made shut)) final)
    (hpatient : patient → ∀ world trouble, ¬ allowed world (.await .drain) (.error trouble)) :
    ∃ entries, Pool.Accounted (drainLedger patient) (environment allowed) Suspends
      (Operation.program settings) final entries :=
  Pool.Run.accounted hrun (drainLedger_sound hpatient)
    (Pool.accounted_idle (kept_started patient))

/-- What is left of an append that was admitted. -/
def appending : Coroutine Unit := do
  (perform .append).handle fun failure ↦ do
    leave
    .raise failure
  leave

/-- What is left of a stop that waits. -/
def waiting : Coroutine Unit := do
  perform .drain
  finishStop

/-- A stop waits for an append in flight. -/
theorem run_waiting : Run sampleSettings anyAnswer (.idle sampleStarted)
    ⟨sampleStarted.enter.become .stopping, [(.append, appending), (.stop, waiting)], []⟩ := by
  have happend : Burst (environment anyAnswer) Suspends append sampleStarted appending
      sampleStarted.enter :=
    burst_instant sampleStarted.fields nofun trivial ⟨rfl, rfl⟩
      (burst_instant () nofun trivial rfl burst_duty)
  have hstop : Burst (environment anyAnswer) Suspends stop sampleStarted.enter waiting
      (sampleStarted.enter.become .stopping) :=
    burst_instant sampleStarted.enter.fields nofun trivial ⟨rfl, rfl⟩
      (burst_instant () nofun trivial rfl burst_duty)
  have hidle : Run sampleSettings anyAnswer (.idle sampleStarted) ⟨sampleStarted, [], []⟩ := .refl
  have hone : Run sampleSettings anyAnswer (.idle sampleStarted)
      ⟨sampleStarted.enter, [(.append, appending)], []⟩ :=
    Pool.Run.launched hidle trivial trivial happend
  exact Pool.Run.launched hone trivial trivial hstop

/-- No stop is cancelled while it waits for the appends. -/
def Patient (_ : World) : (request : Request) → request.Reply → Prop
  | .await .drain, .error _ => False
  | _, _ => True

/-- Where no stop is cancelled while it waits, a store whose stops have all ended is closed, and its
close steps were called in their order. -/
theorem steps_of_ended (hrun : Run settings allowed (.idle (.started held made shut)) final)
    (hpatient : ∀ world trouble, ¬ allowed world (.await .drain) (.error trouble))
    (hstop : ∃ task, (Operation.stop, task) ∈ final.tasks)
    (hended : ∀ task, (Operation.stop, task) ∈ final.tasks → HasEnded task) :
    steps final.world.history = CloseStep.all := by
  obtain ⟨entries, haccounted⟩ := exists_accounted True hrun fun _ ↦ hpatient
  have hkept : KeptIn True final.world entries := haccounted.kept
  -- A stop that has ended has begun, so one of them has won.
  obtain ⟨task, htask⟩ := hstop
  have hstopped : final.world.fields.runState ≠ .running := by
    obtain ⟨index, hindex⟩ := List.mem_iff_getElem?.mp htask
    obtain ⟨stage, hstage, _, _, hfresh⟩ := haccounted.task index _ _ hindex
    refine hkept.begun stage (List.mem_of_getElem? hstage) fun hnot ↦ ?_
    have hstart : task = stop := hfresh hnot
    have hpending : stop.pending = some .observe := rfl
    rw [← hstart] at hpending
    rcases hended task htask with rfl | ⟨failure, rfl⟩ <;> cases hpending
  have hphase := hkept.phase
  generalize hwinners : (entries : Entries).filter IsWinner = winners at hphase
  cases hphase with
  | running hstate => exact absurd hstate hstopped
  | abandoned hpatient => exact absurd trivial hpatient
  | @won stage hat =>
    have hwinner : (Operation.stop, stage) ∈ entries := by
      have hmem : (Operation.stop, stage) ∈ (entries : Entries).filter IsWinner := by
        rw [hwinners]
        exact Multiset.mem_singleton_self _
      exact Multiset.mem_of_mem_filter hmem
    obtain ⟨index, winner, hget, hentry⟩ := haccounted.exists_task hwinner
    have hdone : stage = .passing ∨ stage = .closing [] := by
      rcases hended winner (List.mem_of_getElem? hget) with rfl | ⟨failure, rfl⟩
      · exact haccounted.ends (.returned ()) hget hentry
      · exact haccounted.ends (.raised failure) hget hentry
    rcases hdone with rfl | rfl
    · exact hat.elim
    · obtain ⟨_, hsteps, _⟩ := hat
      rwa [List.append_nil] at hsteps

/-- Where no stop is cancelled while it waits, a store whose stops have all ended called every
close step exactly once. -/
theorem closes_once (hrun : Run settings Patient (.idle (.started held made shut)) final)
    (hstop : ∃ task, (Operation.stop, task) ∈ final.tasks)
    (hended : ∀ task, (Operation.stop, task) ∈ final.tasks → HasEnded task) (step : CloseStep) :
    final.world.history.count (.invoked step) = 1 := by
  rw [count_invoked, steps_of_ended hrun (fun _ _ ↦ id) hstop hended]
  cases step <;> rfl

/-- A store whose only stop has ended. -/
theorem run_stopped : ∃ world, Run sampleSettings Patient (.idle sampleStarted)
    ⟨world, [(.stop, .finish ())], []⟩ := by
  have hidle : Run sampleSettings Patient (.idle sampleStarted) ⟨sampleStarted, [], []⟩ := .refl
  have hburst : Burst (environment Patient) Suspends stop sampleStarted _ _ :=
    burst_instant sampleStarted.fields nofun trivial ⟨rfl, rfl⟩
      (burst_instant () nofun trivial rfl (burst_instant () nofun trivial rfl
        (burst_instant _ nofun trivial ⟨rfl, rfl⟩ (burst_instant () nofun trivial rfl burst_duty))))
  have hflush : Run sampleSettings Patient (.idle sampleStarted) ⟨_, [(.stop, _)], []⟩ :=
    Pool.Run.launched hidle trivial trivial hburst
  have hproducer : Run sampleSettings Patient (.idle sampleStarted) ⟨_, [(.stop, _)], []⟩ :=
    run_exchanged 0 (.ok ()) hflush rfl trivial rfl (burst_instant () nofun trivial rfl burst_duty)
  have hadmin : Run sampleSettings Patient (.idle sampleStarted) ⟨_, [(.stop, _)], []⟩ :=
    run_exchanged 0 (.ok ()) hproducer rfl trivial rfl (burst_instant () nofun trivial rfl
      (burst_instant _ nofun trivial ⟨rfl, rfl⟩ (burst_instant () nofun trivial rfl burst_duty)))
  have hpool : Run sampleSettings Patient (.idle sampleStarted) ⟨_, [(.stop, _)], []⟩ :=
    run_exchanged 0 (.ok ()) hadmin rfl trivial rfl (burst_instant () nofun trivial rfl burst_duty)
  exact ⟨_, run_exchanged 0 (.ok ()) hpool rfl trivial rfl (.stop nofun)⟩

theorem closes_once_stopped : ∃ world, Run sampleSettings Patient (.idle sampleStarted)
      ⟨world, [(.stop, .finish ())], []⟩ ∧
    ∀ step, world.history.count (.invoked step) = 1 := by
  obtain ⟨world, hrun⟩ := run_stopped
  refine ⟨world, hrun, closes_once hrun ⟨_, List.mem_singleton_self _⟩ fun task htask ↦ ?_⟩
  exact Or.inl (Prod.mk.inj (List.mem_singleton.mp htask)).2

/-- The stop is cancelled, and the append goes on to its end. -/
theorem run_cancelled : Run sampleSettings anyAnswer (.idle sampleStarted)
    ⟨(sampleStarted.enter.become .stopping).leave,
      [(.append, .finish ()), (.stop, .raise (.raised .cancelled))], []⟩ := by
  have hstop : Run sampleSettings anyAnswer (.idle sampleStarted)
      ⟨sampleStarted.enter.become .stopping,
        [(.append, appending), (.stop, .raise (.raised .cancelled))], []⟩ :=
    run_exchanged 1 (.error .cancelled) run_waiting rfl trivial ⟨rfl, rfl⟩ (.stop nofun)
  exact run_exchanged 0 (.ok ()) hstop rfl trivial rfl
    (burst_instant () nofun trivial rfl (.stop nofun))

/-- A stop that is cancelled while it waits leaves everything open: no later one takes over. -/
theorem cancelled_stays_open : ¬ ∀ final,
    Run sampleSettings anyAnswer (.idle sampleStarted) final →
    (∃ task, (Operation.stop, task) ∈ final.tasks) →
    (∀ task, (Operation.stop, task) ∈ final.tasks → HasEnded task) →
    final.world.history.count .admitted = final.world.history.count .left →
    ∀ step, final.world.history.count (.invoked step) = 1 := by
  intro hall
  have hnever : (Mark.invoked .producerFlush) ∉
      (sampleStarted.enter.become .stopping).leave.history := by decide
  have honce := hall _ run_cancelled ⟨_, List.mem_cons_of_mem _ (List.mem_singleton_self _)⟩ ?_ rfl
    .producerFlush
  · rw [List.count_eq_zero_of_not_mem hnever] at honce
    cases honce
  · intro task htask
    rcases List.mem_pair.mp htask with hfirst | hsecond
    · cases hfirst
    · exact Or.inr ⟨_, (Prod.mk.inj hsecond).2⟩

end Results

end KSQLite.Lifetime.Draining
