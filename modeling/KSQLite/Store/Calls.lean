import KSQLite.Store.World

/-!
# Calls and their rules

Each request as an action that raises what its reply raises, and the rules for reasoning about it.
A request that is no call takes effect at once (`holds_observe`, `holds_remember`, `holds_clock`,
`holds_newMessageId`). A call first lets the broker move, then raises or succeeds (`holds_perform`,
`holds_attempt`). Conditions on moments concern the pending calls (`AtCall`).
-/

set_option autoImplicit false
set_option relaxedAutoImplicit false

namespace KSQLite.Store

open KSQLite.Log KSQLite.Suspension

/-! ### Requests -/

def observe : Action Memory := @Program.await requests Error Memory .observe .finish

def remember (update : Memory → Memory) : Action Unit :=
  @Program.await requests Error Unit (.remember update) .finish

/-- Change the partition states. -/
def rememberState (update : PartitionStateMachine → PartitionStateMachine) : Action Unit :=
  remember fun memory ↦ { memory with state := update memory.state }

def clock : Action ℤ := @Program.await requests Error ℤ .clock .finish

def newMessageId : Action String := @Program.await requests Error String .newMessageId .finish

/-- Await a call, and return the error it raises. -/
def attempt (call : Call) : Action (Except Error call.Result) :=
  @Program.await requests Error (Except Error call.Result) (.call call) .finish

/-- Await a call. -/
def perform (call : Call) : Action call.Result :=
  @Program.await requests Error call.Result (.call call) Program.ofExcept

/-- Run an action and ignore what it raises. -/
def quietly (action : Action Unit) : Action Unit := action.handle fun _ ↦ pure ()

/-! ### Rules -/

/-- A condition on the moments at which a call is pending. -/
def AtCall (condition : Call → World → Prop) : Request → World → Prop
  | .call call, world => condition call world
  | _, _ => True

/-- What others may make of the broker while a call is awaited. -/
def Drifts (conditions : Conditions) : Broker → Broker → Prop :=
  Relation.ReflTransGen conditions.disturbs

/-- What may become of the broker while a call is awaited. -/
def Settles (conditions : Conditions) (call : Call) : Broker → Broker → Prop :=
  Relation.ReflTransGen (Broker.Moves conditions (.call call))

/-- The broker of a world changed. -/
def World.drift (world : World) (broker : Broker) : World := { world with broker := broker }

/-- Change the partition states of a world. -/
def World.onState (world : World) (update : PartitionStateMachine → PartitionStateMachine) :
    World :=
  { world with memory := { world.memory with state := update world.memory.state } }

variable {settings : Settings} {conditions : Conditions} {condition : Call → World → Prop}
  {world : World}

/-- While a call that produces nothing is awaited, the broker only drifts. -/
theorem settles_iff_drifts {call : Call}
    (hproduce : ∀ name message, call ≠ .sendAndWait name message) {broker next : Broker} :
    Settles conditions call broker next ↔ Drifts conditions broker next := by
  have hmoves : Broker.Moves conditions (.call call) = conditions.disturbs := by
    funext broker after
    refine propext ⟨fun hmove ↦ ?_, .disturb⟩
    cases hmove with
    | disturb hdisturb => exact hdisturb
    | land => exact absurd rfl (hproduce _ _)
  rw [Settles, hmoves, Drifts]

/-- A request that is no call is not interfered with. -/
theorem eq_of_interferes {request : Request} (hrequest : ∀ call, request ≠ .call call)
    {next : World} (hnext : (environment settings conditions).interferes request world next) :
    next = world := by
  obtain ⟨broker, hbroker, rfl⟩ := hnext
  rcases Relation.ReflTransGen.cases_head hbroker with rfl | ⟨between, hmove, _⟩
  · rfl
  · cases hmove with
    | disturb => exact absurd rfl (hrequest _)
    | land => exact absurd rfl (hrequest _)

/-- A request that is no call is answered at once. -/
theorem holds_now {Value : Type} {post : Outcome Error Value → World → Prop} {request : Request}
    {resume : requests.Reply request → Action Value} (hrequest : ∀ call, request ≠ .call call) :
    Holds (environment settings conditions) (AtCall condition) post
        (@Program.await requests Error Value request resume) world ↔
      ∀ reply next, answers settings conditions world request reply next →
        Holds (environment settings conditions) (AtCall condition) post (resume reply) next := by
  rw [holds_await]
  constructor
  · intro hall
    exact (hall world ((environment settings conditions).interferes_refl request world)).2
  · intro hall between hbetween
    obtain rfl := eq_of_interferes hrequest hbetween
    refine ⟨?_, hall⟩
    cases request with
    | call call => exact absurd rfl (hrequest call)
    | _ => trivial

theorem holds_observe {post : Outcome Error Memory → World → Prop} :
    Holds (environment settings conditions) (AtCall condition) post observe world ↔
      post (.returned world.memory) world := by
  refine (holds_now (by simp)).trans ⟨fun hall ↦ hall _ _ ⟨rfl, rfl⟩, ?_⟩
  rintro hnow memory after ⟨rfl, rfl⟩
  exact hnow

theorem holds_remember {update : Memory → Memory} {post : Outcome Error Unit → World → Prop} :
    Holds (environment settings conditions) (AtCall condition) post (remember update) world ↔
      post (.returned ()) { world with memory := update world.memory } := by
  refine (holds_now (by simp)).trans ⟨fun hall ↦ hall () _ rfl, ?_⟩
  rintro hnow ⟨⟩ after rfl
  exact hnow

theorem holds_rememberState {update : PartitionStateMachine → PartitionStateMachine}
    {post : Outcome Error Unit → World → Prop} :
    Holds (environment settings conditions) (AtCall condition) post (rememberState update)
        world ↔
      post (.returned ()) (world.onState update) :=
  holds_remember

theorem holds_clock {post : Outcome Error ℤ → World → Prop} :
    Holds (environment settings conditions) (AtCall condition) post clock world ↔
      ∀ reading, conditions.shows reading → post (.returned reading) world := by
  refine (holds_now (by simp)).trans
    ⟨fun hall reading hreading ↦ hall reading _ ⟨hreading, rfl⟩, ?_⟩
  rintro hnow reading after ⟨hreading, rfl⟩
  exact hnow reading hreading

theorem holds_newMessageId {post : Outcome Error String → World → Prop} :
    Holds (environment settings conditions) (AtCall condition) post newMessageId world ↔
      ∀ messageId, isUUID messageId = true → messageId ∉ world.minted →
        post (.returned messageId) { world with minted := insert messageId world.minted } := by
  refine (holds_now (by simp)).trans
    ⟨fun hall messageId huuid hfresh ↦ hall messageId _ ⟨huuid, hfresh, rfl⟩, ?_⟩
  rintro hnow messageId after ⟨huuid, hfresh, rfl⟩
  exact hnow messageId huuid hfresh

/-- A call: the broker moves, then the call raises or succeeds. -/
theorem holds_attempt {call : Call}
    {post : Outcome Error (Except Error call.Result) → World → Prop} :
    Holds (environment settings conditions) (AtCall condition) post (attempt call) world ↔
      ∀ broker, Settles conditions call world.broker broker →
        condition call (world.drift broker) ∧
        (∀ error, Raises settings conditions (world.drift broker) call error →
          post (.returned (.error error)) (world.drift broker)) ∧
        ∀ value next, Succeeds settings conditions (world.drift broker) call value next →
          post (.returned (.ok value)) next := by
  refine holds_await.trans ⟨?_, ?_⟩
  · intro hall broker hbroker
    obtain ⟨hnow, hreply⟩ := hall (world.drift broker) ⟨broker, hbroker, rfl⟩
    exact ⟨hnow, fun error herror ↦ hreply (.error error) _ ⟨herror, rfl⟩,
      fun value next hvalue ↦ hreply (.ok value) next hvalue⟩
  · rintro hall between ⟨broker, hbroker, rfl⟩
    obtain ⟨hnow, herror, hok⟩ := hall broker hbroker
    refine ⟨hnow, ?_⟩
    rintro (error | value) next hanswer
    · obtain ⟨hraises, rfl⟩ := hanswer
      exact herror error hraises
    · exact hok value next hanswer

theorem holds_perform {call : Call} {post : Outcome Error call.Result → World → Prop} :
    Holds (environment settings conditions) (AtCall condition) post (perform call) world ↔
      ∀ broker, Settles conditions call world.broker broker →
        condition call (world.drift broker) ∧
        (∀ error, Raises settings conditions (world.drift broker) call error →
          post (.raised error) (world.drift broker)) ∧
        ∀ value next, Succeeds settings conditions (world.drift broker) call value next →
          post (.returned value) next := by
  have hperform : perform call = attempt call >>= Program.ofExcept := rfl
  rw [hperform, holds_bind, holds_attempt]
  rfl

/-! ### Calls, read off what holds -/

/-- What a call needs of each of its results. -/
theorem holds_result {call : Call} {post : Outcome Error call.Result → World → Prop}
    (hperform : Holds (environment settings conditions) (AtCall condition) post
      (perform call) world)
    {value : call.Result} {next : World}
    (hsucceeds : Succeeds settings conditions world call value next) :
    post (.returned value) next :=
  (holds_perform.mp hperform world.broker .refl).2.2 value next hsucceeds

/-- What a call needs of each error it raises. -/
theorem holds_error {call : Call} {post : Outcome Error call.Result → World → Prop}
    (hperform : Holds (environment settings conditions) (AtCall condition) post
      (perform call) world)
    {error : Error} (hraises : Raises settings conditions world call error) :
    post (.raised error) world :=
  (holds_perform.mp hperform world.broker .refl).2.1 error hraises

end KSQLite.Store
