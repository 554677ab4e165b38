import KSQLite.Store.World
import KSQLite.Suspension.Expansion
import KSQLite.Suspension.Pool

/-!
# The lifetime of a store

The facade once more, for what it opens and closes: `start` opens a pool, a producer and an admin
client, `stop` drains the appends in flight and closes everything, and an assignment starts the
rehydrate consumer when there is none. Every client is a `Resource` of its own, and every await of
the facade is a `Duty` at which the task may be cancelled and the others run. The awaits inside an
append or an assignment that touch nothing of this are one duty each; queries and revocations do
not touch any of it. The world keeps what the code forgets: how many clients were made, which of
them were closed, and a history of what happened to the appends and the close steps.
-/

set_option autoImplicit false
set_option relaxedAutoImplicit false

namespace KSQLite.Lifetime

open KSQLite.Suspension

open KSQLite.Store (RunState TopicPartition)

/-! ### What is awaited -/

/-- What is opened and closed. -/
inductive Kind
  | pool
  | producer
  | admin
  | consumer
  deriving DecidableEq

/-- A client or a pool: the one the host injected, or the n-th one of its kind that was made. -/
inductive Resource
  | injectedPool
  | made (kind : Kind) (number : ℕ)
  deriving DecidableEq

/-- What an await may raise: a cancellation, a SQLite error, or anything else. -/
inductive Trouble
  | cancelled
  | sqlite (message : String)
  | failed (message : String)
  deriving DecidableEq

/-- What the public coroutines raise. -/
inductive Failure
  | raised (trouble : Trouble)
  /-- `LifecycleError`: `start()` called twice, or after `stop()`. -/
  | startedTwice
  /-- `LifecycleError`: `stop()` before `start()`. -/
  | stoppedBeforeStart
  /-- `LifecycleError`: the store is not running. -/
  | notRunning
  /-- The configuration is refused, or the SQLite version is. -/
  | misconfigured (message : String)
  | cannotOpen (message : String)
  | producerNotStarted (message : String)
  | adminNotStarted (message : String)
  | assertion
  deriving DecidableEq

/-- What the facade holds once it is started. -/
structure Held where
  pool : Resource
  producer : Resource
  admin : Resource

/-- The fields of the facade, with the consumer of its lifecycle. -/
structure Fields where
  runState : RunState
  inFlight : ℕ
  drained : Bool
  held : Option Held
  consumer : Option Resource

/-- The close steps of `stop`. -/
inductive CloseStep
  | producerFlush
  | producerStop
  | consumerStop
  | adminClose
  | poolClose
  deriving DecidableEq

/-- The close steps in their order. -/
def CloseStep.all : List CloseStep :=
  [.producerFlush, .producerStop, .consumerStop, .adminClose, .poolClose]

/-- What the facade awaits. -/
inductive Duty
  /-- A connection of the pool, and the migration on it. -/
  | migrate (pool : Resource)
  | start (resource : Resource)
  | flush (producer : Resource)
  | close (resource : Resource)
  /-- `self._drained.wait()`. -/
  | drain
  /-- The work of an admitted append. -/
  | append
  /-- Any other await of an assignment. -/
  | rehydrate

/-- What the code asks of its surroundings: all but the duties happen at once. -/
inductive Request
  | observe
  | construct (kind : Kind)
  /-- `self._in_flight += 1`. -/
  | enter
  /-- The `finally` clause of an append. -/
  | leave
  /-- `self._run_state = …`, in `stop`. -/
  | become (runState : RunState)
  /-- What a successful start leaves. -/
  | hold (held : Held)
  /-- `self._consumer = consumer`. -/
  | keep (consumer : Resource)
  /-- `self._consumer = None`. -/
  | drop
  /-- A close step is called. -/
  | invoke (step : CloseStep)
  | await (duty : Duty)

/-- The reply to each. -/
abbrev Request.Reply : Request → Type
  | .observe => Fields
  | .construct _ => Except Trouble Resource
  | .await _ => Except Trouble Unit
  | _ => Unit

abbrev requests : Interface := ⟨Request, Request.Reply⟩

/-- A coroutine of the facade. -/
abbrev Coroutine (Value : Type) : Type := Program requests Failure Value

/-! ### The code -/

section Code

variable {Value : Type}

def observe : Coroutine Fields := @Program.await requests _ _ .observe .finish

def construct (kind : Kind) : Coroutine Resource :=
  @Program.await requests _ _ (.construct kind) fun reply ↦
    Program.ofExcept (reply.mapError .raised)

def enter : Coroutine Unit := @Program.await requests _ _ .enter .finish

def leave : Coroutine Unit := @Program.await requests _ _ .leave .finish

def become (runState : RunState) : Coroutine Unit :=
  @Program.await requests _ _ (.become runState) .finish

def hold (held : Held) : Coroutine Unit := @Program.await requests _ _ (.hold held) .finish

def keep (consumer : Resource) : Coroutine Unit :=
  @Program.await requests _ _ (.keep consumer) .finish

def drop : Coroutine Unit := @Program.await requests _ _ .drop .finish

def invoke (step : CloseStep) : Coroutine Unit :=
  @Program.await requests _ _ (.invoke step) .finish

def perform (duty : Duty) : Coroutine Unit :=
  @Program.await requests _ _ (.await duty) fun reply ↦ Program.ofExcept (reply.mapError .raised)

/-- The rollback of a failed start: close what was opened, and let the failure go on. -/
def rollback : List Resource → Failure → Coroutine Value
  | [], failure => .raise failure
  | resource :: rest, failure => do
    (perform (.close resource)).handle fun _ ↦ pure ()
    rollback rest failure

/-- The configuration of a start: whether it is refused, and whether the host injected a pool. -/
structure Settings where
  validated : Except String Unit
  injectsPool : Bool

/-- The pool of a start. -/
def openPool (settings : Settings) : Coroutine Resource :=
  if settings.injectsPool then pure .injectedPool else construct .pool

/-- What a failed migration raises: SQLite errors are storage errors. -/
def openError : Failure → Failure
  | .raised (.sqlite message) => .cannotOpen message
  | failure => failure

/-- What a client that did not start raises; a cancellation goes through. -/
def startError (wrap : String → Failure) : Failure → Failure
  | .raised (.sqlite message) | .raised (.failed message) => wrap message
  | failure => failure

/-- `KSQLite.start`. -/
def start (settings : Settings) : Coroutine Unit := do
  let fields ← observe
  if fields.runState ≠ .new then .raise .startedTwice
  else do
    Program.ofExcept (settings.validated.mapError .misconfigured)
    let pool ← openPool settings
    ((perform (.migrate pool)).mapError openError).handle (rollback [pool])
    let producer ← (construct .producer).handle (rollback [pool])
    ((perform (.start producer)).mapError (startError .producerNotStarted)).handle
      (rollback [producer, pool])
    let admin ← (construct .admin).handle (rollback [producer, pool])
    ((perform (.start admin)).mapError (startError .adminNotStarted)).handle
      (rollback [admin, producer, pool])
    hold ⟨pool, producer, admin⟩

/-- `PartitionLifecycle.aclose`. -/
def aclose : Coroutine Unit := do
  let fields ← observe
  match fields.consumer with
  | none => pure ()
  | some consumer => do
    perform (.close consumer)
    drop

/-- What each close step does. -/
def CloseStep.close (held : Held) : CloseStep → Coroutine Unit
  | .producerFlush => perform (.flush held.producer)
  | .producerStop => perform (.close held.producer)
  | .consumerStop => aclose
  | .adminClose => perform (.close held.admin)
  | .poolClose => perform (.close held.pool)

/-- The close steps of a stop: the first failure is raised once all of them were called. -/
def closeAll (held : Held) : Option Failure → List CloseStep → Coroutine Unit
  | none, [] => pure ()
  | some failure, [] => .raise failure
  | first, step :: rest => do
    invoke step
    match ← (step.close held).caught with
    | .ok _ => closeAll held first rest
    | .error failure => closeAll held (first.or (some failure)) rest

/-- `KSQLite.stop`, once the appends in flight are drained. -/
def finishStop : Coroutine Unit := do
  become .closed
  let fields ← observe
  match fields.held with
  | none => .raise .assertion
  | some held => closeAll held none CloseStep.all

/-- `KSQLite.stop`. -/
def stop : Coroutine Unit := do
  let fields ← observe
  match fields.runState with
  | .stopping | .closed => pure ()
  | .new => .raise .stoppedBeforeStart
  | .running => do
    become .stopping
    if 0 < fields.inFlight then perform .drain
    finishStop

/-- `_ensure_running`. -/
def ensureRunning : Coroutine Unit := do
  let fields ← observe
  if fields.runState ≠ .running then .raise .notRunning

/-- `KSQLite.append`. -/
def append : Coroutine Unit := do
  ensureRunning
  enter
  (perform .append).handle fun failure ↦ do
    leave
    .raise failure
  leave

/-- What `contextlib.suppress(Exception)` lets through: a cancellation is no `Exception`. -/
def suppress : Failure → Coroutine Unit
  | .raised .cancelled => .raise (.raised .cancelled)
  | _ => pure ()

/-- `_get_consumer`: the field is assigned only after a successful start. -/
def getConsumer : Coroutine Unit := do
  let fields ← observe
  if fields.consumer.isNone then
    let consumer ← construct .consumer
    (perform (.start consumer)).handle fun failure ↦ do
      (perform (.close consumer)).handle suppress
      .raise failure
    keep consumer

/-- One partition of an assignment. -/
def assignOne : Coroutine Unit := do
  perform .rehydrate
  getConsumer
  perform .rehydrate

/-- The partitions of an assignment, one after another. -/
def assignAll : List TopicPartition → Coroutine Unit
  | [] => pure ()
  | _ :: rest => do
    assignOne
    assignAll rest

/-- `KSQLite.on_partitions_assigned`. -/
def onPartitionsAssigned (assigned : List TopicPartition) : Coroutine Unit := do
  ensureRunning
  assignAll assigned

/-- The public coroutines of a store. -/
inductive Operation
  | start
  | stop
  | append
  | assign (assigned : List TopicPartition)
  deriving DecidableEq

/-- The coroutine of an operation. -/
def Operation.program (settings : Settings) : Operation → Coroutine Unit
  | .start => Lifetime.start settings
  | .stop => Lifetime.stop
  | .append => Lifetime.append
  | .assign assigned => onPartitionsAssigned assigned

end Code

/-! ### The requests of the code -/

section Asks

variable {allowed : Request → Prop}

theorem asks_perform {duty : Duty} (hduty : allowed (.await duty)) :
    (perform duty).Asks allowed := by
  refine ⟨hduty, fun reply ↦ ?_⟩
  cases reply <;> trivial

/-- The requests of an assignment, after it was admitted. -/
def OfAssignment : Request → Prop
  | .observe | .construct .consumer | .keep _ => True
  | .await .rehydrate | .await (.start _) | .await (.close _) => True
  | _ => False

theorem asks_getConsumer : getConsumer.Asks OfAssignment := by
  refine ⟨trivial, fun fields ↦ ?_⟩
  change (ite _ _ _ : Coroutine Unit).Asks OfAssignment
  split_ifs
  · have hconstruct : (construct .consumer).Asks OfAssignment := by
      refine ⟨trivial, fun reply ↦ ?_⟩
      cases reply <;> trivial
    refine hconstruct.bind fun consumer ↦ ?_
    have hstart : (perform (.start consumer)).Asks OfAssignment := asks_perform trivial
    have hclose : (perform (.close consumer)).Asks OfAssignment := asks_perform trivial
    refine Program.Asks.bind (hstart.handle fun failure ↦ ?_) fun _ ↦ ⟨trivial, fun _ ↦ trivial⟩
    refine Program.Asks.bind (hclose.handle fun failure ↦ ?_) fun _ ↦ trivial
    rcases failure with (_ | _ | _) | _ <;> trivial
  · trivial

theorem asks_assignAll (assigned : List TopicPartition) :
    (assignAll assigned).Asks OfAssignment := by
  induction assigned with
  | nil => trivial
  | cons tp rest ih =>
    have hawait : (perform .rehydrate).Asks OfAssignment := asks_perform trivial
    have hone : assignOne.Asks OfAssignment :=
      hawait.bind fun _ ↦ asks_getConsumer.bind fun _ ↦ hawait
    exact hone.bind fun _ ↦ ih

/-- The requests of a close step. -/
def OfClosing : Request → Prop
  | .observe | .drop | .await (.flush _) | .await (.close _) => True
  | _ => False

theorem asks_close (held : Held) (step : CloseStep) : (step.close held).Asks OfClosing := by
  cases step with
  | consumerStop =>
    refine ⟨trivial, fun fields ↦ ?_⟩
    change (match fields.consumer with
      | none => _
      | some consumer => _ : Coroutine Unit).Asks OfClosing
    cases fields.consumer with
    | none => trivial
    | some consumer =>
      have hclose : (perform (.close consumer)).Asks OfClosing := asks_perform trivial
      exact hclose.bind fun _ ↦ ⟨trivial, fun _ ↦ trivial⟩
  | _ => exact asks_perform trivial

/-- One close step, and the ones after it. -/
theorem closeAll_cons (held : Held) (first : Option Failure) (step : CloseStep)
    (rest : List CloseStep) : closeAll held first (step :: rest) = (do
      invoke step
      match ← (step.close held).caught with
      | .ok _ => closeAll held first rest
      | .error failure => closeAll held (first.or (some failure)) rest) := by
  cases first <;> rfl

end Asks

/-! ### The world -/

/-- What happens to the appends and in a stop. -/
inductive Mark
  | admitted
  | left
  | stopping
  | invoked (step : CloseStep)
  deriving DecidableEq

/-- A store with its clients: how many of each kind were made, which were closed, and what happened
so far. -/
structure World where
  fields : Fields
  made : Kind → ℕ
  shut : Finset Resource
  history : List Mark

namespace World

/-- Change the fields. -/
def onFields (world : World) (update : Fields → Fields) : World :=
  { world with fields := update world.fields }

/-- Something happens. -/
def mark (world : World) (mark : Mark) : World :=
  { world with history := world.history ++ [mark] }

/-- A client is made. -/
def construct (world : World) (kind : Kind) : World :=
  { world with made := Function.update world.made kind (world.made kind + 1) }

def enter (world : World) : World :=
  (world.onFields fun fields ↦ { fields with inFlight := fields.inFlight + 1 }).mark .admitted

def leave (world : World) : World :=
  (world.onFields fun fields ↦
    { fields with
      inFlight := fields.inFlight - 1
      drained := fields.drained ||
        decide (fields.runState ≠ .running ∧ fields.inFlight - 1 = 0) }).mark .left

def become (world : World) (runState : RunState) : World :=
  let next := world.onFields fun fields ↦ { fields with runState := runState }
  if runState = .stopping then next.mark .stopping else next

/-- What a successful start leaves: the phase, what the facade holds, and a new lifecycle. -/
def hold (world : World) (held : Held) : World :=
  world.onFields fun fields ↦
    { fields with runState := .running, held := some held, consumer := none }

def keep (world : World) (consumer : Option Resource) : World :=
  world.onFields fun fields ↦ { fields with consumer := consumer }

/-- A client is closed, whether or not that fails. -/
def close (world : World) (resource : Resource) : World :=
  { world with shut := insert resource world.shut }

end World

/-- What an answer does to the world. -/
def effect (world : World) : (request : Request) → request.Reply → World → Prop
  | .observe, fields, next => fields = world.fields ∧ next = world
  | .construct kind, .ok resource, next =>
    resource = .made kind (world.made kind) ∧ next = world.construct kind
  | .construct _, .error _, next => next = world
  | .enter, _, next => next = world.enter
  | .leave, _, next => next = world.leave
  | .become runState, _, next => next = world.become runState
  | .hold held, _, next => next = world.hold held
  | .keep consumer, _, next => next = world.keep (some consumer)
  | .drop, _, next => next = world.keep none
  | .invoke step, _, next => next = world.mark (.invoked step)
  -- The event is set, or the wait is cancelled.
  | .await .drain, .ok _, next => world.fields.drained = true ∧ next = world
  | .await .drain, .error trouble, next => trouble = .cancelled ∧ next = world
  | .await (.close resource), _, next => next = world.close resource
  | .await _, _, next => next = world

/-- The surroundings of a store: any duty may fail or be cancelled, within a condition on the
answers. -/
def environment (allowed : World → (request : Request) → request.Reply → Prop) :
    Environment requests World where
  interferes _ world next := next = world
  answers world request reply next :=
    allowed world request reply ∧ effect world request reply next
  interferes_refl _ _ := rfl
  interferes_trans hfirst hsecond := hsecond.trans hfirst

/-- The duties suspend. -/
def Suspends (request : Request) : Prop := ∃ duty, request = .await duty

theorem not_suspends {request : Request} (hrequest : ∀ duty, request ≠ .await duty) :
    ¬ Suspends request := fun ⟨duty, hduty⟩ ↦ hrequest duty hduty

/-- Any number of calls in flight, interleaved at their awaits. -/
abbrev Run (settings : Settings) (allowed : World → (request : Request) → request.Reply → Prop) :
    Pool requests Failure Unit World Operation → Pool requests Failure Unit World Operation →
      Prop :=
  Pool.Run (environment allowed) Suspends (Operation.program settings) fun _ _ ↦ True

/-- Whatever the answers are. -/
abbrev anyAnswer : World → (request : Request) → request.Reply → Prop := fun _ _ _ ↦ True

/-- A store that was just constructed. -/
def World.new : World where
  fields := ⟨.new, 0, false, none, none⟩
  made _ := 0
  shut := ∅
  history := []

/-- A store that was just started, and what it holds. -/
def World.started (held : Held) (made : Kind → ℕ) (shut : Finset Resource) : World where
  fields := ⟨.running, 0, false, some held, none⟩
  made := made
  shut := shut
  history := []

/-! ### Runs -/

section Runs

variable {settings : Settings} {allowed : World → (request : Request) → request.Reply → Prop}

/-- A request that does not suspend, in a burst. -/
theorem burst_instant {request : Request} {resume : request.Reply → Coroutine Unit}
    {world next final : World} {rest : Coroutine Unit} (reply : request.Reply)
    (hrequest : ∀ duty, request ≠ .await duty) (hallowed : allowed world request reply)
    (heffect : effect world request reply next)
    (hrest : Burst (environment allowed) Suspends (resume reply) next rest final) :
    Burst (environment allowed) Suspends (@Program.await requests _ _ request resume) world rest
      final :=
  .step (not_suspends hrequest) ⟨hallowed, heffect⟩ hrest

theorem burst_duty {duty : Duty} {resume : (Request.await duty).Reply → Coroutine Unit}
    {world : World} :
    Burst (environment allowed) Suspends (@Program.await requests _ _ (.await duty) resume) world
      (@Program.await requests _ _ (.await duty) resume) world :=
  .suspended ⟨duty, rfl⟩

/-- A duty is answered, and its call goes on. -/
theorem run_exchanged {origin : Pool requests Failure Unit World Operation}
    {world between next : World} {tasks : List (Operation × Coroutine Unit)} {operation : Operation}
    {duty : Duty} {resume : Except Trouble Unit → Coroutine Unit} {rest : Coroutine Unit}
    (index : ℕ) (reply : Except Trouble Unit)
    (hrun : Run settings allowed origin ⟨world, tasks, []⟩)
    (hget : (tasks)[index]? = some (operation, @Program.await requests _ _ (.await duty) resume))
    (hallowed : allowed world (.await duty) reply)
    (heffect : effect world (.await duty) reply between)
    (hburst : Burst (environment allowed) Suspends (resume reply) between rest next) :
    Run settings allowed origin ⟨next, tasks.set index (operation, rest), []⟩ := by
  have hanswers : (environment allowed).answers world (.await duty) reply between :=
    ⟨hallowed, heffect⟩
  exact hrun.exchanged hget trivial hanswers trivial hburst

/-- A duty of the call that was started last is answered. -/
theorem run_exchanged_last {origin : Pool requests Failure Unit World Operation}
    {world between next : World} {tasks : List (Operation × Coroutine Unit)} {operation : Operation}
    {duty : Duty} {resume : Except Trouble Unit → Coroutine Unit} {rest : Coroutine Unit}
    (reply : Except Trouble Unit)
    (hrun : Run settings allowed origin
      ⟨world, tasks ++ [(operation, @Program.await requests _ _ (.await duty) resume)], []⟩)
    (hallowed : allowed world (.await duty) reply)
    (heffect : effect world (.await duty) reply between)
    (hburst : Burst (environment allowed) Suspends (resume reply) between rest next) :
    Run settings allowed origin ⟨next, tasks ++ [(operation, rest)], []⟩ := by
  have hnext := run_exchanged tasks.length reply hrun List.getElem?_concat_length hallowed heffect
    hburst
  rwa [List.set_append_right _ _ le_rfl, Nat.sub_self] at hnext

/-- The configuration of the sample runs. -/
def sampleSettings : Settings := ⟨.ok (), false⟩

/-- A call that has returned or raised. -/
def HasEnded (task : Coroutine Unit) : Prop :=
  task = .finish () ∨ ∃ failure, task = .raise failure

/-- What a running store holds in the sample runs. -/
def sampleHeld : Held := ⟨.made .pool 0, .made .producer 0, .made .admin 0⟩

/-- A store that was just started. -/
def sampleStarted : World :=
  .started sampleHeld (fun kind ↦ if kind = .consumer then 0 else 1) ∅

end Runs

end KSQLite.Lifetime
