import KSQLite.Rehydrate.Frame
import KSQLite.Rehydrate.Runs
import KSQLite.Runs.Rules
import KSQLite.Store.Sample

/-!
# Status and visibility

A partition is visible through `_owned`, and shown as `READY` or `READY_PARTIAL` by its status. The
code changes the two one after the other: an assignment marks its partition before it reveals it,
and a revocation hides its partition before it marks it. The two agree after every operation of
every run in which no reveal fails (`visible_iff_shown`); a reveal that fails leaves a partition
shown that is not visible.
-/

set_option autoImplicit false
set_option relaxedAutoImplicit false

namespace KSQLite.Runs

open KSQLite.Suspension KSQLite.Store KSQLite.Rehydrate

/-- A status that says that the rows of the partition are visible. -/
def Shown (status : Option PartitionStatus) : Prop :=
  status = some .ready ∨ status = some .readyPartial

instance (status : Option PartitionStatus) : Decidable (Shown status) :=
  inferInstanceAs (Decidable (_ ∨ _))

/-- A partition is visible if and only if it is shown. -/
def Agrees (tp : TopicPartition) (world : World) : Prop :=
  tp ∈ world.database.owned ↔ Shown (world.memory.state.statusOf tp)

/-- A partition is neither visible nor shown. -/
def Hidden (tp : TopicPartition) (world : World) : Prop :=
  tp ∉ world.database.owned ∧ ¬ Shown (world.memory.state.statusOf tp)

theorem Hidden.agrees {tp : TopicPartition} {world : World} (hhidden : Hidden tp world) :
    Agrees tp world :=
  iff_of_false hhidden.1 hhidden.2

/-- A partition is hidden until it is marked, and marked with a status that shows it. -/
def Concealed (job : Job) : Point → World → Prop
  | .revealing status, _ | .revealed status, _ => Shown (some status)
  | _, world => Hidden job.tp world

variable {job : Job} {world next : World}

/-- A partition whose entry was created is in standby, hence not shown. -/
theorem shown_getD {status : Option PartitionStatus} :
    Shown (some (status.getD .standby)) ↔ Shown status := by
  cases status with
  | none => simp [Shown]
  | some status => rfl

/-- A change of memory that keeps the status hides what was hidden. -/
theorem Hidden.of_state {tp : TopicPartition} {after : World} (hhidden : Hidden tp world)
    (howned : tp ∈ after.database.owned → tp ∈ world.database.owned)
    (hstatus : after.memory.state.statusOf tp = world.memory.state.statusOf tp ∨
      after.memory.state.statusOf tp = some ((world.memory.state.statusOf tp).getD .standby)) :
    Hidden tp after := by
  refine ⟨fun hmem ↦ hhidden.1 (howned hmem), ?_⟩
  rcases hstatus with hsame | hcreated
  · rw [hsame]
    exact hhidden.2
  · rw [hcreated, shown_getD]
    exact hhidden.2

theorem Hidden.seed {tp : TopicPartition} (hhidden : Hidden tp world) (checkpoint : Option ℤ) :
    Hidden tp (world.seed tp checkpoint) := by
  cases checkpoint with
  | none => exact hhidden
  | some checkpoint =>
    exact hhidden.of_state id (Or.inr (PartitionStateMachine.statusOf_recordApplied checkpoint))

/-- Every step of the machine conceals its partition until the reveal. -/
theorem concealed_step {point after : Point} (hstep : Step job (point, world) (after, next))
    (hconcealed : Concealed job point world) : Concealed job after next := by
  cases hstep with
  | drift _ _ => cases point <;> exact hconcealed
  | seed => exact hconcealed.seed _
  | capture _ =>
    refine ⟨hconcealed.1, ?_⟩
    simp [World.capture, World.assign, World.onState, PartitionStateMachine.markRestoring, Shown]
  | idle _ hnothing =>
    obtain ⟨idlePolls, rfl⟩ := hnothing.exists_idlePolls
    exact hconcealed
  | fetch _ _ hfetches _ =>
    obtain ⟨_, _, _, _, _, _, rfl⟩ := hfetches
    exact hconcealed
  | materialize _ hrun =>
    obtain ⟨_, rfl⟩ := run_materializeBatch_eq_ok.mp hrun
    refine Hidden.of_state hconcealed ?_
      (Or.inr (PartitionStateMachine.statusOf_recordApplied _))
    intro hmem
    change _ ∈ (Database.insertRows _ _).owned at hmem
    rwa [Database.insertRows_owned] at hmem
  | expire _ _ => exact Or.inr rfl
  | leave _ _ => exact Or.inl rfl
  | keep _ => exact Or.inl rfl
  | clamp => exact Or.inl rfl
  | reveal => exact hconcealed
  | captureUnreached _ =>
    exact Hidden.of_state hconcealed id
      (Or.inr (PartitionStateMachine.statusOf_recordLogEnd _))
  | seedUnreached => exact Or.inr rfl
  | _ => exact hconcealed

/-! ### One partition -/

/-- No reveal fails. -/
def RevealsSucceed (conditions : Conditions) : Prop :=
  ∀ tp error, ¬ conditions.fails (.transaction (.ownedInsert tp)) error

/-- A partition whose visibility and entry did not change agrees as before. -/
theorem Agrees.of_same {tp : TopicPartition} (hagrees : Agrees tp world)
    (howned : tp ∈ next.database.owned ↔ tp ∈ world.database.owned)
    (hentries : next.memory.state.entries tp = world.memory.state.entries tp) :
    Agrees tp next := by
  unfold Agrees
  rw [howned, (PartitionStateMachine.reads_eq_of_entries_eq hentries).1]
  exact hagrees

/-- An assignment of a hidden partition reveals it as it is shown, or leaves it hidden. -/
theorem holds_assignOne_agrees {settings : Settings} {conditions : Conditions}
    {tp : TopicPartition} {fuel : ℕ} {deadline : ℤ} {first : Bool}
    (hreveals : RevealsSucceed conditions) (hhidden : Hidden tp world) :
    Holds (environment settings conditions) (AtCall fun _ _ ↦ True)
      (fun _ final ↦ Frame tp world final ∧ Agrees tp final)
      (assignOne settings fuel deadline first tp) world := by
  let job : Job := ⟨settings, conditions, tp, settings.template tp, deadline, fuel⟩
  have hconcealed {state : Point × World} (hreaches : Reaches job (.checking, world) state) :
      Concealed job state.1 state.2 :=
    hreaches.invariant (Concealed job) concealed_step hhidden
  refine holds_assignOne job rfl (fun _ _ _ _ _ ↦ trivial) ?_ ?_ ?_
  · intro status _ final hreaches
    have hmarked := hreaches.marked trivial
    refine ⟨hreaches.frame, iff_of_true hmarked.2 ?_⟩
    have hshown := hconcealed hreaches
    rwa [hmarked.1]
  · intro point error final hreaches hfails
    refine ⟨hreaches.frame, ?_⟩
    have hshown := hconcealed hreaches
    rcases hfails with rfl | ⟨_, _, rfl, _⟩ | ⟨call, error, hawaits, hraises, _⟩
    · exact Hidden.agrees hshown
    · exact Hidden.agrees hshown
    · cases hawaits with
      | reveal =>
        rcases hraises with hfails | ⟨_, hrun, _⟩
        · exact absurd hfails (hreveals tp error)
        · cases hrun
      | _ => exact Hidden.agrees hshown
  · intro leo replay final hreaches _
    exact ⟨hreaches.frame, Hidden.agrees (hconcealed hreaches)⟩

/-! ### Runs -/

/-- The store is running, and every partition agrees. -/
def Agreeing (world : World) : Prop :=
  world.memory.runState = .running ∧ ∀ tp, Agrees tp world

/-- The store keeps its status and its visibility together, or was not started yet: then no
partition was encountered, and what is left of `_owned` is about to be emptied. -/
structure Coherent (conditions : Conditions) (world : World) : Prop where
  fresh : world.memory.runState = .new →
    world.memory.state = .new ∧ (world.database.owned = ∅ ∨ ¬ Facade.Stuck conditions)
  agrees : world.memory.runState ≠ .new → ∀ tp, Agrees tp world

/-- A coherent store whose partitions all agree. -/
def Settled (conditions : Conditions) (world : World) : Prop :=
  Coherent conditions world ∧ ∀ tp, Agrees tp world

/-- A run of the four operations in which a partition is assigned only while it is not owned.
Over a database with rows left in `_owned` the first operation is a start. -/
def Admitted (operation : Operation) (before : World) (_ : Outcome Error Unit) (_ : World) : Prop :=
  operation ≠ .restart ∧
    (∀ assigned, operation = .assign assigned →
      assigned.Nodup ∧ ∀ tp ∈ assigned, tp ∉ before.database.owned) ∧
    (before.memory.runState = .new → before.database.owned = ∅ ∨ operation = .start)

/-- Every partition of a store that was not started agrees when `_owned` is empty. -/
theorem agrees_of_empty (hstate : world.memory.state = .new) (howned : world.database.owned = ∅)
    (tp : TopicPartition) : Agrees tp world := by
  refine iff_of_false (by simp [howned]) ?_
  rw [hstate]
  simp [Shown, PartitionStateMachine.new, PartitionStateMachine.statusOf]

theorem Agreeing.settled {conditions : Conditions} (hagreeing : Agreeing world) :
    Settled conditions world := by
  refine ⟨⟨fun hnew ↦ ?_, fun _ ↦ hagreeing.2⟩, hagreeing.2⟩
  rw [hagreeing.1] at hnew
  cases hnew

/-- A coherent store is settled once it was started, or when nothing is left in `_owned`. -/
theorem Coherent.settled {conditions : Conditions} (hcoherent : Coherent conditions world)
    (hempty : world.memory.runState = .new → world.database.owned = ∅) :
    Settled conditions world := by
  refine ⟨hcoherent, ?_⟩
  by_cases hnew : world.memory.runState = .new
  · exact agrees_of_empty (hcoherent.fresh hnew).1 (hempty hnew)
  · exact hcoherent.agrees hnew

/-- A record that is applied changes neither what is shown nor what is visible. -/
theorem Agreeing.append {source : TopicPartition} {applied : Database} {offset : ℤ}
    (hagreeing : Agreeing world) (howned : applied.owned = world.database.owned) :
    Agreeing ((world.commit applied).onState (·.recordApplied source offset)) := by
  refine ⟨hagreeing.1, fun tp ↦ ?_⟩
  by_cases htp : tp = source
  · subst htp
    change tp ∈ applied.owned ↔ Shown ((world.memory.state.recordApplied tp offset).statusOf tp)
    rw [PartitionStateMachine.statusOf_recordApplied, shown_getD, howned]
    exact hagreeing.2 tp
  · have hentries : (world.memory.state.recordApplied source offset).entries tp =
        world.memory.state.entries tp := PartitionStateMachine.entries_update_of_ne _ htp
    exact (hagreeing.2 tp).of_same (by simp [howned]) hentries

/-- A partition that is hidden and put in standby agrees. -/
theorem Agreeing.hide (hagreeing : Agreeing world) (tp : TopicPartition) :
    Agreeing (world.hide tp) := by
  refine ⟨hagreeing.1, fun other ↦ ?_⟩
  by_cases hother : other = tp
  · subst hother
    refine iff_of_false (by simp [World.hide]) ?_
    simp [World.hide, PartitionStateMachine.markRevoked, Shown]
  · have hentries : (world.memory.state.mark tp .standby).entries other =
        world.memory.state.entries other := PartitionStateMachine.entries_update_of_ne _ hother
    exact (hagreeing.2 other).of_same (by simp [World.hide, hother]) hentries

section Operations

variable {settings : Settings} {conditions : Conditions}

/-- What a start makes of a coherent store is settled. -/
theorem Coherent.settled_of_starts {outcome : Outcome Error Unit} {final : World}
    (hcoherent : Coherent conditions world) (hnew : world.memory.runState = .new)
    (hfinal : Facade.Starts conditions world outcome final) : Settled conditions final := by
  obtain ⟨hstate, howned⟩ := hcoherent.fresh hnew
  cases outcome with
  | returned value =>
    obtain ⟨broker, _, rfl⟩ := hfinal
    exact Agreeing.settled ⟨rfl, agrees_of_empty rfl rfl⟩
  | raised error =>
    have hempty : final.memory = world.memory ∧ final.database.owned = ∅ := by
      rcases hfinal with ⟨broker, _, rfl⟩ | ⟨⟨broker, _, rfl⟩, hstuck⟩
      · exact ⟨rfl, rfl⟩
      · exact ⟨rfl, howned.resolve_right fun hnot ↦ hnot hstuck⟩
    have hagrees := agrees_of_empty (hempty.1 ▸ hstate) hempty.2
    exact ⟨⟨fun _ ↦ ⟨hempty.1 ▸ hstate, Or.inl hempty.2⟩, fun _ ↦ hagrees⟩, hagrees⟩
  | exhausted => exact absurd hfinal id

/-- A start that gets past emptying `_owned` leaves nothing visible and nothing shown. -/
theorem holds_start_agrees (hcoherent : Coherent conditions world) :
    Holds (environment settings conditions) (AtCall fun _ _ ↦ True)
      (fun _ ↦ Settled conditions) (Facade.start settings) world := by
  have hstart : Holds (environment settings conditions) (AtCall fun call _ ↦ Facade.Opening call)
      (fun _ ↦ Settled conditions) (Facade.start settings) world :=
    Facade.holds_start (fun hstarted ↦ hcoherent.settled fun hnew ↦ absurd hnew hstarted)
      fun hnew _ _ hfinal ↦ hcoherent.settled_of_starts hnew hfinal
  exact hstart.mono (fun request _ _ ↦ by cases request <;> trivial) fun _ _ hfinal ↦ hfinal

theorem holds_append_agrees {source : TopicPartition} {entityKey : EntityKey} {payload : Payload}
    (hsettled : Settled conditions world) :
    Holds (environment settings conditions) (AtCall fun _ _ ↦ True) (fun _ ↦ Settled conditions)
      (Facade.append settings source entityKey payload) world := by
  have happend (hagreeing : Agreeing world) :
      Holds (environment settings conditions) (AtCall fun _ _ ↦ True) (fun _ ↦ Agreeing)
        (Store.append settings source entityKey payload) world.enter := by
    refine Store.holds_append (fun _ ↦ hagreeing) (fun _ _ ↦ hagreeing) ?_ ?_
    · exact fun _ _ _ ↦ ⟨trivial, fun _ ↦ hagreeing⟩
    · intro record broker offset later _ _ _ _
      refine ⟨trivial, fun _ ↦ hagreeing, fun applied happlied ↦ ?_⟩
      obtain ⟨_, _, rfl⟩ := Database.applyMaterialization_eq_ok.mp happlied
      exact Agreeing.append hagreeing rfl
  refine Facade.holds_append (fun _ ↦ hsettled) (fun hrunning ↦ happend ⟨hrunning, hsettled.2⟩) ?_
    ?_ ?_
  · intro final hfinal
    have hexit : Agreeing final.exit := hfinal
    exact hexit.settled
  · intro _ final hfinal
    have hexit : Agreeing final.exit := hfinal
    exact hexit.settled
  · exact fun _ hfinal ↦ hfinal.settled

theorem holds_assign_agrees {fuel : ℕ} {assigned : List TopicPartition}
    (hreveals : RevealsSucceed conditions) (hsettled : Settled conditions world)
    (hnodup : assigned.Nodup) (hhidden : ∀ tp ∈ assigned, tp ∉ world.database.owned) :
    Holds (environment settings conditions) (AtCall fun _ _ ↦ True) (fun _ ↦ Settled conditions)
      (Facade.onPartitionsAssigned settings fuel assigned) world := by
  refine Facade.holds_guarded (fun _ ↦ hsettled) fun hrunning ↦ ?_
  refine holds_assigned (fun remaining between ↦ Agreeing between ∧ remaining.Nodup ∧
    ∀ tp ∈ remaining, tp ∉ between.database.owned) ?_ (fun _ hdone ↦ hdone.1.settled)
    ⟨⟨hrunning, hsettled.2⟩, hnodup, hhidden⟩
  intro deadline tp rest first between hbetween
  obtain ⟨hagrees, hdistinct, hremaining⟩ := hbetween
  obtain ⟨htp, hrest⟩ := List.nodup_cons.mp hdistinct
  have hnone := hremaining tp List.mem_cons_self
  have hconcealed : Hidden tp between := ⟨hnone, fun hshown ↦ hnone ((hagrees.2 tp).mpr hshown)⟩
  refine (holds_assignOne_agrees hreveals hconcealed).mono (fun _ _ hmoment ↦ hmoment) ?_
  intro outcome final hfinal
  obtain ⟨hframe, htpAgrees⟩ := hfinal
  have hkept : Agreeing final := by
    refine ⟨hframe.runState.trans hagrees.1, fun other ↦ ?_⟩
    by_cases hother : other = tp
    · exact hother ▸ htpAgrees
    · exact (hagrees.2 other).of_same (hframe.owned other hother) (hframe.entries other hother)
  cases outcome with
  | returned value =>
    refine ⟨hkept, hrest, fun other hother ↦ ?_⟩
    have hne : other ≠ tp := fun heq ↦ htp (heq ▸ hother)
    rw [hframe.owned other hne]
    exact hremaining other (List.mem_cons_of_mem _ hother)
  | raised error => exact hkept.settled
  | exhausted => exact hkept.settled

theorem holds_revoke_agrees {revoked : List TopicPartition} (hsettled : Settled conditions world) :
    Holds (environment settings conditions) (AtCall fun _ _ ↦ True) (fun _ ↦ Settled conditions)
      (Facade.onPartitionsRevoked revoked) world := by
  refine Facade.holds_guarded (fun _ ↦ hsettled) fun hrunning ↦ ?_
  refine (holds_onPartitionsRevoked Agreeing ?_ ⟨hrunning, hsettled.2⟩).mono
    (fun _ _ hmoment ↦ hmoment) fun _ _ hfinal ↦ hfinal.settled
  refine fun tp _ between hbetween ↦ holds_revokeOne.mpr ?_
  split_ifs with hunseen
  · exact hbetween
  · intro broker _
    have hdrifted : Agreeing (between.drift broker) := hbetween
    exact ⟨trivial, fun _ _ ↦ hdrifted, hdrifted.hide tp⟩

/-- Every operation that is admitted leaves a coherent store settled. -/
theorem holds_operation_agrees {fuel : ℕ} (hreveals : RevealsSucceed conditions)
    (operation : Operation) (hcoherent : Coherent conditions world) :
    Holds (environment settings conditions) (AtCall fun _ _ ↦ True)
      (fun outcome after ↦ Admitted operation world outcome after → Settled conditions after)
      (operation.action settings fuel) world := by
  by_cases hadmitted : Admitted operation world .exhausted world
  · have hsettled (hother : operation ≠ .start) : Settled conditions world :=
      hcoherent.settled fun hnew ↦ (hadmitted.2.2 hnew).resolve_right hother
    have hoperation : Holds (environment settings conditions) (AtCall fun _ _ ↦ True)
        (fun _ ↦ Settled conditions) (operation.action settings fuel) world := by
      cases operation with
      | start => exact holds_start_agrees hcoherent
      | append source entityKey payload => exact holds_append_agrees (hsettled (by simp))
      | assign assigned =>
        obtain ⟨hnodup, hhidden⟩ := hadmitted.2.1 assigned rfl
        exact holds_assign_agrees hreveals (hsettled (by simp)) hnodup hhidden
      | revoke revoked => exact holds_revoke_agrees (hsettled (by simp))
      | restart => exact absurd rfl hadmitted.1
    exact hoperation.mono (fun _ _ hmoment ↦ hmoment) fun _ _ hfinal _ ↦ hfinal
  · exact holds_of_forall (fun request _ ↦ by cases request <;> trivial)
      (fun _ _ hadmits ↦ absurd hadmits hadmitted) _ _

end Operations

/-- A store whose commits of a reveal never fail, while any other call may. -/
def revealing : Conditions :=
  { Sample.failing with fails := fun call _ ↦ ∀ tp, call ≠ .transaction (.ownedInsert tp) }

/-- A new store over an empty database and an empty changelog. -/
def unwritten : World := Sample.fresh (Sample.broker (Sample.log []) none)

/-- A store that was not started is admitted to start. -/
theorem admitted_start (outcome : Outcome Error Unit) (after : World) :
    Admitted .start unwritten outcome after :=
  ⟨by simp, by simp, fun _ ↦ Or.inr rfl⟩

end KSQLite.Runs
