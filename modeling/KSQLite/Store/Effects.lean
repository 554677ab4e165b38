import KSQLite.Store.Lifecycle

/-!
# Effects on the world

What the steps of the lifecycle make of a world, each as a function on worlds, and the rules of the
actions made of them: a transaction whose work commits (`holds_transaction`), the revocation of one
partition (`holds_revokeOne`), and the two hooks, which keep what every partition keeps
(`holds_onPartitionsRevoked`, `holds_onPartitionsAssigned`).
-/

set_option autoImplicit false
set_option relaxedAutoImplicit false

namespace KSQLite.Store.World

/-- The consumer started. -/
def keepConsumer (world : World) : World :=
  { world with memory := { world.memory with consumer := some .started } }

/-- The consumer is assigned a changelog. -/
def assign (world : World) (name : String) : World :=
  { world with
    memory := { world.memory with consumer := world.memory.consumer.map (·.assign name) } }

/-- The consumer moves to an offset. -/
def seek (world : World) (offset : ℤ) : World :=
  { world with memory := world.memory.seek offset }

/-- The checkpoint in memory is seeded from the persisted one. -/
def seed (world : World) (tp : TopicPartition) : Option ℤ → World
  | none => world
  | some checkpoint => world.onState (·.recordApplied tp checkpoint)

/-- The log end is captured and the replay begins. -/
def capture (world : World) (tp : TopicPartition) (name : String) (leo : ℤ) : World :=
  ((world.onState (·.recordLogEnd tp leo)).onState (·.markRestoring tp)).assign name

/-- A transaction commits. -/
def commit (world : World) (database : Database) : World := { world with database := database }

/-- Step 0 passed. -/
def check (world : World) (tp : TopicPartition) : World :=
  { world with memory := { world.memory with checked := insert tp world.memory.checked } }

/-- A topic is created. -/
def createTopic (world : World) (name : String) : World :=
  { world with broker := { world.broker with topics := insert name world.broker.topics } }

/-- A partition is hidden and put in standby. -/
def hide (world : World) (tp : TopicPartition) : World :=
  (world.commit (world.database.deleteOwned tp)).onState (·.markRevoked tp)

variable {world : World} {tp : TopicPartition} {name : String} {leo : ℤ}

@[simp] theorem seed_database (checkpoint : Option ℤ) :
    (world.seed tp checkpoint).database = world.database := by
  cases checkpoint <;> rfl

@[simp] theorem seed_broker (checkpoint : Option ℤ) :
    (world.seed tp checkpoint).broker = world.broker := by
  cases checkpoint <;> rfl

@[simp] theorem seed_checked (checkpoint : Option ℤ) :
    (world.seed tp checkpoint).memory.checked = world.memory.checked := by
  cases checkpoint <;> rfl

@[simp] theorem commit_memory (database : Database) :
    (world.commit database).memory = world.memory := rfl

@[simp] theorem commit_database (database : Database) :
    (world.commit database).database = database := rfl

@[simp] theorem onState_state (update : PartitionStateMachine → PartitionStateMachine) :
    (world.onState update).memory.state = update world.memory.state := rfl

@[simp] theorem onState_database (update : PartitionStateMachine → PartitionStateMachine) :
    (world.onState update).database = world.database := rfl

@[simp] theorem seek_state (offset : ℤ) :
    (world.seek offset).memory.state = world.memory.state := rfl

/-- A consumer that was started is assigned the changelog. -/
theorem capture_assigned (hconsumer : world.memory.consumer.isSome) :
    (world.capture tp name leo).memory.Assigned name := by
  obtain ⟨consumer, hsome⟩ := Option.isSome_iff_exists.mp hconsumer
  exact ⟨none, by simp [capture, assign, onState, hsome, Consumer.assign]⟩

@[simp] theorem capture_logEndOf :
    (world.capture tp name leo).memory.state.logEndOf tp = some leo := by
  simp [capture, assign, onState, PartitionStateMachine.markRestoring]

end KSQLite.Store.World

namespace KSQLite.Store

open KSQLite.Suspension

variable {settings : Settings} {conditions : Conditions} {condition : Call → World → Prop}
  {world : World}

/-- A transaction whose work commits: it fails, or it leaves what the work makes of the
database. -/
theorem holds_transaction {work : Work} {committed : Database}
    {post : Outcome Error Unit → World → Prop}
    (hrun : work.run settings.json world.database = .ok committed) :
    Holds (environment settings conditions) (AtCall condition) post
        (perform (.transaction work)) world ↔
      ∀ broker, Drifts conditions world.broker broker →
        condition (.transaction work) (world.drift broker) ∧
        (∀ error, conditions.fails (.transaction work) error →
          post (.raised error) (world.drift broker)) ∧
        post (.returned ()) ((world.drift broker).commit committed) := by
  refine holds_perform.trans (forall_congr' fun broker ↦ ?_)
  have hdrifts : Settles conditions (.transaction work) world.broker broker ↔
      Drifts conditions world.broker broker := settles_iff_drifts (by simp)
  rw [hdrifts]
  refine imp_congr_right fun _ ↦ and_congr_right fun _ ↦ and_congr ?_ ?_
  · refine forall_congr' fun error ↦ ⟨fun hall hfails ↦ hall (Or.inl hfails), ?_⟩
    rintro hall (hfails | ⟨raised, hraised, _⟩)
    · exact hall hfails
    · change work.run settings.json world.database = .error raised at hraised
      rw [hrun] at hraised
      cases hraised
  · constructor
    · exact fun hall ↦ hall () _ ⟨committed, hrun, rfl⟩
    · rintro hcommitted _ next ⟨database, hdatabase, rfl⟩
      change work.run settings.json world.database = .ok database at hdatabase
      rw [hrun] at hdatabase
      cases hdatabase
      exact hcommitted

/-- A revocation leaves a partition never seen alone, and hides any other one. -/
theorem holds_revokeOne {tp : TopicPartition} {post : Outcome Error Unit → World → Prop} :
    Holds (environment settings conditions) (AtCall condition) post (revokeOne tp) world ↔
      if world.memory.state.statusOf tp = none then post (.returned ()) world
      else ∀ broker, Drifts conditions world.broker broker →
        condition (.transaction (.ownedDelete tp)) (world.drift broker) ∧
        (∀ error, conditions.fails (.transaction (.ownedDelete tp)) error →
          post (.raised error) (world.drift broker)) ∧
        post (.returned ()) ((world.drift broker).hide tp) := by
  unfold revokeOne
  rw [holds_bind, holds_observe, sequel_returned]
  split_ifs with hunseen
  · rfl
  · rw [holds_bind, holds_transaction rfl]
    simp only [sequel_raised, sequel_returned, holds_rememberState]
    rfl

/-- A revocation keeps what revoking each of its partitions keeps. -/
theorem holds_onPartitionsRevoked {revoked : List TopicPartition} (invariant : World → Prop)
    (hone : ∀ tp ∈ revoked, ∀ world, invariant world →
      Holds (environment settings conditions) (AtCall condition) (fun _ ↦ invariant)
        (revokeOne tp) world) (hstart : invariant world) :
    Holds (environment settings conditions) (AtCall condition) (fun _ ↦ invariant)
      (onPartitionsRevoked revoked) world := by
  induction revoked generalizing world with
  | nil => exact hstart
  | cons tp rest ih =>
    refine (hone tp List.mem_cons_self world hstart).bind (fun _ final hfinal ↦ ?_)
      (fun _ _ hfinal ↦ hfinal) fun _ hfinal ↦ hfinal
    exact ih (fun other hother ↦ hone other (List.mem_cons_of_mem _ hother)) hfinal

/-- What one partition of an assignment needs: the invariant of the ones that remain, or the
postcondition of the assignment. -/
def AfterOne (tp : TopicPartition) (remaining : World → Prop)
    (post : Outcome Error Unit → World → Prop) : Outcome Error Bool → World → Prop
  | .returned _, final => remaining final
  | .raised error, final => post (.raised (assignmentError tp error)) final
  | .exhausted, final => post .exhausted final

/-- An assignment goes through its partitions; the invariant reads those that remain. -/
theorem holds_assignAll {fuel : ℕ} {deadline : ℤ} {first : Bool} {assigned : List TopicPartition}
    {post : Outcome Error Unit → World → Prop} (invariant : List TopicPartition → World → Prop)
    (hone : ∀ tp rest first world, invariant (tp :: rest) world →
      Holds (environment settings conditions) (AtCall condition)
        (AfterOne tp (invariant rest) post) (assignOne settings fuel deadline first tp) world)
    (hdone : ∀ world, invariant [] world → post (.returned ()) world)
    (hstart : invariant assigned world) :
    Holds (environment settings conditions) (AtCall condition) post
      (assignAll settings fuel deadline first assigned) world := by
  induction assigned generalizing world first with
  | nil => exact hdone world hstart
  | cons tp rest ih =>
    refine holds_bind.mpr (holds_mapError.mpr ?_)
    refine (hone tp rest first world hstart).mono (fun _ _ hmoment ↦ hmoment) ?_
    rintro (value | error | _) final hfinal
    · exact ih hfinal
    · exact hfinal
    · exact hfinal

theorem holds_assigned {fuel : ℕ} {assigned : List TopicPartition}
    {post : Outcome Error Unit → World → Prop} (invariant : List TopicPartition → World → Prop)
    (hone : ∀ deadline tp rest first world, invariant (tp :: rest) world →
      Holds (environment settings conditions) (AtCall condition)
        (AfterOne tp (invariant rest) post) (assignOne settings fuel deadline first tp) world)
    (hdone : ∀ world, invariant [] world → post (.returned ()) world)
    (hstart : invariant assigned world) :
    Holds (environment settings conditions) (AtCall condition) post
      (onPartitionsAssigned settings fuel assigned) world := by
  refine holds_bind.mpr (holds_clock.mpr fun reading _ ↦ ?_)
  exact holds_assignAll invariant (hone _) hdone hstart

/-- An assignment keeps what assigning each of its partitions keeps. -/
theorem holds_onPartitionsAssigned {fuel : ℕ} {assigned : List TopicPartition}
    (invariant : World → Prop)
    (hone : ∀ deadline, ∀ tp ∈ assigned, ∀ first world, invariant world →
      Holds (environment settings conditions) (AtCall condition) (fun _ ↦ invariant)
        (assignOne settings fuel deadline first tp) world) (hstart : invariant world) :
    Holds (environment settings conditions) (AtCall condition) (fun _ ↦ invariant)
      (onPartitionsAssigned settings fuel assigned) world := by
  refine holds_assigned (fun remaining between ↦ remaining ⊆ assigned ∧ invariant between)
    (fun deadline tp rest first between hbetween ↦ ?_) (fun _ hdone ↦ hdone.2)
    ⟨List.Subset.refl assigned, hstart⟩
  obtain ⟨hremaining, hinvariant⟩ := hbetween
  obtain ⟨htp, hrest⟩ := List.cons_subset.mp hremaining
  refine (hone deadline tp htp first between hinvariant).mono (fun _ _ hmoment ↦ hmoment) ?_
  rintro (value | error | _) final hfinal
  · exact ⟨hrest, hfinal⟩
  · exact hfinal
  · exact hfinal

end KSQLite.Store
