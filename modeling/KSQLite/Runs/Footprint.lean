import KSQLite.Rehydrate.Refinement
import KSQLite.Runs.Rules
import KSQLite.Store.Commits

/-!
# Footprints

Which calls an operation awaits. An assignment awaits only what the machine awaits for one of its
partitions, an append one produce and one transaction for its own partition, a revocation only
deletions from `_owned` (`holds_footprint`). Hence an operation leaves every partition that it does
not name alone, but for the rows of `_owned` that a start empties (`leavesAlone_of_steps`).
-/

set_option autoImplicit false
set_option relaxedAutoImplicit false

namespace KSQLite.Store

open KSQLite.Suspension KSQLite.Rehydrate

/-- A call is pending in the assignment of one of the partitions. -/
def AssignPending (settings : Settings) (conditions : Conditions) (fuel : ℕ)
    (assigned : List TopicPartition) (call : Call) (world : World) : Prop :=
  ∃ tp ∈ assigned, ∃ deadline entered,
    Pending ⟨settings, conditions, tp, settings.template tp, deadline, fuel⟩ (.checking, entered)
      call world

/-- The calls an operation awaits. -/
def Operation.Footprint (settings : Settings) (conditions : Conditions) (fuel : ℕ) :
    Operation → Call → World → Prop
  | .start, call, _ => Facade.Opening call
  | .append source _ _, call, _ =>
    (∃ name message, call = .sendAndWait name message) ∨
      ∃ row : Row, row.source = source ∧ 0 ≤ row.changelogOffset ∧
        call = .transaction (.applyMaterialization row)
  | .assign assigned, call, world => AssignPending settings conditions fuel assigned call world
  | .revoke revoked, call, _ => ∃ tp ∈ revoked, call = .transaction (.ownedDelete tp)
  | .restart, _, _ => False

/-- The partitions an operation names. -/
def Operation.partitions : Operation → List TopicPartition
  | .append source _ _ => [source]
  | .assign assigned => assigned
  | .revoke revoked => revoked
  | .start | .restart => []

variable {settings : Settings} {conditions : Conditions} {world : World} {fuel : ℕ}

/-- An assignment awaits what the machine awaits for one of its partitions. -/
theorem holds_assignPending (assigned : List TopicPartition) :
    Holds (environment settings conditions)
      (AtCall (AssignPending settings conditions fuel assigned)) (fun _ _ ↦ True)
      (onPartitionsAssigned settings fuel assigned) world := by
  refine holds_onPartitionsAssigned (fun _ ↦ True) ?_ trivial
  intro deadline tp htp first entered _
  let job : Job := ⟨settings, conditions, tp, settings.template tp, deadline, fuel⟩
  refine holds_assignOne job rfl ?_ (fun _ _ _ _ ↦ trivial) (fun _ _ _ _ _ ↦ trivial)
    fun _ _ _ _ _ ↦ trivial
  exact fun point call between hreaches hawaits ↦
    ⟨tp, htp, deadline, entered, point, hreaches, hawaits⟩

/-- An operation awaits what is in its footprint. -/
theorem holds_footprint (operation : Operation) (world : World) :
    Holds (environment settings conditions) (AtCall (operation.Footprint settings conditions fuel))
      (fun _ _ ↦ True) (operation.action settings fuel) world := by
  cases operation with
  | start => exact Facade.holds_start (fun _ ↦ trivial) fun _ _ _ _ ↦ trivial
  | append source entityKey payload =>
    have happend : Holds (environment settings conditions)
        (AtCall ((Operation.append source entityKey payload).Footprint settings conditions fuel))
        (fun _ _ ↦ True) (Store.append settings source entityKey payload) world.enter := by
      refine Store.holds_append (fun _ ↦ trivial) (fun _ _ ↦ trivial) ?_ ?_
      · exact fun record broker _ ↦ ⟨Or.inl ⟨_, _, rfl⟩, fun _ ↦ trivial⟩
      · intro record broker offset later _ hoffset _ _
        exact ⟨Or.inr ⟨_, rfl, hoffset, rfl⟩, fun _ ↦ trivial, fun _ _ ↦ trivial⟩
    exact Facade.holds_append (fun _ ↦ trivial) (fun _ ↦ happend) (fun _ _ ↦ trivial)
      (fun _ _ _ ↦ trivial) fun _ _ ↦ trivial
  | assign assigned =>
    exact Facade.holds_guarded (fun _ ↦ trivial) fun _ ↦ holds_assignPending assigned
  | revoke revoked =>
    refine Facade.holds_guarded (fun _ ↦ trivial) fun _ ↦ ?_
    refine holds_onPartitionsRevoked (fun _ ↦ True) (fun tp htp between _ ↦ ?_) trivial
    refine holds_revokeOne.mpr ?_
    by_cases hunseen : between.memory.state.statusOf tp = none
    · rw [if_pos hunseen]
      trivial
    · rw [if_neg hunseen]
      exact fun _ _ ↦ ⟨⟨tp, htp, rfl⟩, fun _ _ ↦ trivial, trivial⟩
  | restart => exact fun _ _ ↦ ⟨trivial, fun _ _ _ ↦ trivial⟩

/-- A call that no start, append or revocation awaits is awaited by assignments only. -/
theorem Operation.Footprint.exists_assign {operation : Operation} {call : Call}
    (hfootprint : operation.Footprint settings conditions fuel call world)
    (hopening : ¬ Facade.Opening call) (hproduce : ∀ name message, call ≠ .sendAndWait name message)
    (happly : ∀ row, call ≠ .transaction (.applyMaterialization row))
    (hdelete : ∀ tp, call ≠ .transaction (.ownedDelete tp)) :
    ∃ assigned, operation = .assign assigned := by
  cases operation with
  | start => exact absurd hfootprint hopening
  | append source entityKey payload =>
    rcases hfootprint with ⟨name, message, hcall⟩ | ⟨row, _, _, hcall⟩
    · exact absurd hcall (hproduce name message)
    · exact absurd hcall (happly row)
  | assign assigned => exact ⟨assigned, rfl⟩
  | revoke revoked =>
    obtain ⟨tp, _, hcall⟩ := hfootprint
    exact absurd hcall (hdelete tp)
  | restart => exact hfootprint.elim

/-- A transaction of an operation is about a partition that the operation names. -/
theorem Operation.Footprint.mem_partitions {operation : Operation} {work : Work}
    (hfootprint : operation.Footprint settings conditions fuel (.transaction work) world) :
    work.partition ∈ operation.partitions := by
  cases operation with
  | start =>
    rcases hfootprint with hinert | hempties
    · cases hinert
    · cases hempties
  | append source entityKey payload =>
    rcases hfootprint with ⟨_, _, hcall⟩ | ⟨row, rfl, _, hcall⟩
    · cases hcall
    · cases hcall
      exact List.mem_singleton_self _
  | assign assigned =>
    obtain ⟨tp, htp, deadline, entered, point, _, hawaits⟩ := hfootprint
    cases hawaits <;> exact htp
  | revoke revoked =>
    obtain ⟨tp, htp, hcall⟩ := hfootprint
    cases hcall
    exact htp
  | restart => exact absurd hfootprint id

/-- An operation leaves every partition that it does not name alone, unless it is a start. -/
theorem leavesAlone_of_steps {operation : Operation} (hstart : operation ≠ .start)
    {trace : List (Exchange requests World)} {rest : Action Unit} {final : World}
    (hsteps : Steps (environment settings conditions) (operation.action settings fuel) world trace
      rest final) {other : TopicPartition} (hother : other ∉ operation.partitions) :
    LeavesAlone other world.database final.database := by
  refine related_of_steps (LeavesAlone other) (.refl other) .trans hsteps ?_
  intro exchange hexchange commit hcommitted after hrun
  have hmoment := (holds_footprint operation world).exchange hsteps hexchange
  rw [request_of_committed hcommitted] at hmoment
  cases commit with
  | work work =>
    have hfootprint : operation.Footprint settings conditions fuel (.transaction work)
      exchange.world := hmoment
    refine Work.leavesAlone hrun fun hsame ↦ hother ?_
    rw [hsame]
    exact hfootprint.mem_partitions
  | deleteAllOwned =>
    have hfootprint : operation.Footprint settings conditions fuel (.migrate .deleteAllOwned)
      exchange.world := hmoment
    refine absurd ?_ hstart
    cases operation with
    | start => rfl
    | append source entityKey payload =>
      rcases hfootprint with ⟨_, _, hcall⟩ | ⟨_, _, _, hcall⟩
      · cases hcall
      · cases hcall
    | assign assigned =>
      obtain ⟨_, _, _, _, _, _, hawaits⟩ := hfootprint
      cases hawaits
    | revoke revoked =>
      obtain ⟨_, _, hcall⟩ := hfootprint
      cases hcall
    | restart => exact absurd hfootprint id

end KSQLite.Store
