import KSQLite.Suspension.Branches
import Mathlib.Data.List.Basic

/-!
# Programs in flight

Several programs of one cooperative scheduler, over one world. A program that awaits a request that
suspends stays where it is until the request is answered, which takes effect on the world at once;
from then on the scheduler may resume it, and it runs until it suspends again (`Burst`). Between
the answer and the resumption, and while a request is pending, others run. `Pool.Step` is one such
event and `Pool.Run` a run of them, whose events are admitted by a condition on the pool before
each. An invariant of pools is proved event by event (`Pool.Run.invariant`).

`shared` is the environment that one program sees when others do to the world what a relation
allows, and it may be interfered with at each of its requests: what holds in it stays true while
the others run (`Holds.relied`).
-/

set_option autoImplicit false
set_option relaxedAutoImplicit false

namespace KSQLite.Suspension

variable {interface : Interface} {Error Value Result World Operation : Type}

/-! ### Bursts -/

/-- The program awaits a request that suspends, or it has ended. -/
def Program.Rests (suspends : interface.Request → Prop) (program : Program interface Error Value) :
    Prop :=
  ∀ request, program.pending = some request → suspends request

/-- A program that was resumed runs until it suspends again: its other requests are answered at
once. -/
inductive Burst (environment : Environment interface World) (suspends : interface.Request → Prop) :
    Program interface Error Value → World → Program interface Error Value → World → Prop
  | stop {program world} : program.Rests suspends →
      Burst environment suspends program world program world
  | step {request resume world reply next rest final} : ¬ suspends request →
      environment.answers world request reply next →
      Burst environment suspends (resume reply) next rest final →
      Burst environment suspends (.await request resume) world rest final

/-- What every exchange of a burst keeps. -/
theorem Burst.keeps {environment : Environment interface World}
    {suspends : interface.Request → Prop} {program rest : Program interface Error Value}
    {world final : World} (hburst : Burst environment suspends program world rest final)
    (kept : Program interface Error Value → World → Prop)
    (hstep : ∀ request resume world reply next, kept (.await request resume) world →
      ¬ suspends request → environment.answers world request reply next →
      kept (resume reply) next) (hstart : kept program world) : kept rest final := by
  induction hburst with
  | stop => exact hstart
  | step hinstant hanswers _ ih => exact ih (hstep _ _ _ _ _ hstart hinstant hanswers)

section Composition

variable {environment : Environment interface World} {suspends : interface.Request → Prop}
  {program rest : Program interface Error Value} {world between final : World}

/-- A burst of a program that goes on with another one. -/
theorem Burst.bind {next : Value → Program interface Error Result}
    {last : Program interface Error Result} {value : Value}
    (hburst : Burst environment suspends program world (.finish value) between)
    (hnext : Burst environment suspends (next value) between last final) :
    Burst environment suspends (program >>= next) world last final := by
  generalize hend : (Program.finish value : Program interface Error Value) = ended at hburst
  induction hburst with
  | stop =>
    cases hend
    exact hnext
  | step hinstant hanswers _ ih => exact .step hinstant hanswers (ih hnext hend)

/-- A burst of a program that suspends before it returns. -/
theorem Burst.before (hburst : Burst environment suspends program world rest final)
    (hopen : ∀ value, rest ≠ .finish value) (next : Value → Program interface Error Result) :
    Burst environment suspends (program >>= next) world (rest >>= next) final := by
  induction hburst with
  | stop hrests =>
    refine .stop fun request hpending ↦ hrests request ?_
    rwa [Program.pending_bind hopen] at hpending
  | step hinstant hanswers _ ih => exact .step hinstant hanswers (ih hopen)

/-- A burst of a program whose error is replaced. -/
theorem Burst.mapError {change : Error → Error}
    (hburst : Burst environment suspends program world rest final) :
    Burst environment suspends (program.mapError change) world (rest.mapError change) final := by
  induction hburst with
  | stop hrests =>
    refine .stop fun request hpending ↦ hrests request ?_
    rwa [Program.pending_mapError] at hpending
  | step hinstant hanswers _ ih => exact .step hinstant hanswers ih

/-- A program that awaits a request that suspends stays there. -/
theorem Burst.suspended {request : interface.Request}
    {resume : interface.Reply request → Program interface Error Value}
    (hsuspends : suspends request) :
    Burst environment suspends (.await request resume) world (.await request resume) world := by
  refine .stop fun other hother ↦ ?_
  cases hother
  exact hsuspends

end Composition

/-! ### Pools -/

/-- Programs in flight over one world: the operation each of them runs, with what is left of its
program, and the ones that may be resumed, in the order in which they became so. -/
structure Pool (interface : Interface) (Error Value World Operation : Type) where
  world : World
  tasks : List (Operation × Program interface Error Value)
  ready : List ℕ

namespace Pool

/-- Nothing is in flight. -/
def idle (world : World) : Pool interface Error Value World Operation := ⟨world, [], []⟩

/-- What may happen to a pool. -/
inductive Event (interface : Interface) (Operation : Type)
  /-- An operation is started. -/
  | start (operation : Operation)
  /-- The world changes while a program is suspended. -/
  | drift
  /-- A pending request is answered. -/
  | answer (index : ℕ) (request : interface.Request) (reply : interface.Reply request)
  /-- A program is resumed. -/
  | resume (index : ℕ)

/-- One event. -/
inductive Step (environment : Environment interface World) (suspends : interface.Request → Prop)
    (program : Operation → Program interface Error Value) :
    Event interface Operation → Pool interface Error Value World Operation →
      Pool interface Error Value World Operation → Prop
  | start {pool operation} :
      Step environment suspends program (.start operation) pool
        ⟨pool.world, pool.tasks ++ [(operation, program operation)],
          pool.ready ++ [pool.tasks.length]⟩
  | drift {pool index operation request resume next} :
      (pool.tasks)[index]? = some (operation, .await request resume) → index ∉ pool.ready →
      environment.interferes request pool.world next →
      Step environment suspends program .drift pool ⟨next, pool.tasks, pool.ready⟩
  | answer {pool index operation request resume reply next} :
      (pool.tasks)[index]? = some (operation, .await request resume) → index ∉ pool.ready →
      environment.answers pool.world request reply next →
      Step environment suspends program (.answer index request reply) pool
        ⟨next, pool.tasks.set index (operation, resume reply), pool.ready ++ [index]⟩
  | resume {pool index operation task rest next} :
      (pool.tasks)[index]? = some (operation, task) → index ∈ pool.ready →
      Burst environment suspends task pool.world rest next →
      Step environment suspends program (.resume index) pool
        ⟨next, pool.tasks.set index (operation, rest), pool.ready.erase index⟩

/-- Events one after another, each of them admitted. -/
inductive Run (environment : Environment interface World) (suspends : interface.Request → Prop)
    (program : Operation → Program interface Error Value)
    (admits : Event interface Operation → Pool interface Error Value World Operation → Prop) :
    Pool interface Error Value World Operation → Pool interface Error Value World Operation → Prop
  | refl {pool} : Run environment suspends program admits pool pool
  | step {origin before after event} : Run environment suspends program admits origin before →
      admits event before → Step environment suspends program event before after →
      Run environment suspends program admits origin after

section Rules

variable {environment : Environment interface World} {suspends : interface.Request → Prop}
  {program : Operation → Program interface Error Value}
  {admits : Event interface Operation → Pool interface Error Value World Operation → Prop}
  {origin final : Pool interface Error Value World Operation}

/-- What every admitted event keeps holds after every run. -/
theorem Run.invariant (hrun : Run environment suspends program admits origin final)
    (invariant : Pool interface Error Value World Operation → Prop)
    (hstep : ∀ event before after, invariant before → admits event before →
      Step environment suspends program event before after → invariant after)
    (horigin : invariant origin) : invariant final := by
  induction hrun with
  | refl => exact horigin
  | step _ hadmits hevent ih => exact hstep _ _ _ ih hadmits hevent

/-- A run is one of a weaker condition. -/
theorem Run.mono
    {more : Event interface Operation → Pool interface Error Value World Operation → Prop}
    (hrun : Run environment suspends program admits origin final)
    (hmore : ∀ event pool, admits event pool → more event pool) :
    Run environment suspends program more origin final := by
  induction hrun with
  | refl => exact .refl
  | step _ hadmits hevent ih => exact .step ih (hmore _ _ hadmits) hevent

/-- An event is a start, a drift, or exchanges of one task: what each of these keeps of the world
and the tasks is kept by the event. -/
theorem Step.keeps {event : Event interface Operation}
    {pool after : Pool interface Error Value World Operation}
    (hevent : Step environment suspends program event pool after)
    (kept : World → List (Operation × Program interface Error Value) → Prop)
    (hstart : ∀ operation, event = .start operation → kept pool.world pool.tasks →
      kept pool.world (pool.tasks ++ [(operation, program operation)]))
    (hdrift : ∀ request world next tasks, environment.interferes request world next →
      kept world tasks → kept next tasks)
    (hexchange : ∀ world tasks index operation request resume reply next, kept world tasks →
      (tasks)[index]? = some (operation, .await request resume) →
      environment.answers world request reply next →
      kept next (tasks.set index (operation, resume reply)))
    (hpool : kept pool.world pool.tasks) : kept after.world after.tasks := by
  cases hevent with
  | start => exact hstart _ rfl hpool
  | drift _ _ hinterferes => exact hdrift _ _ _ _ hinterferes hpool
  | answer hget _ hanswers => exact hexchange _ _ _ _ _ _ _ _ hpool hget hanswers
  | @resume _ index operation task rest next hget _ hburst =>
    obtain ⟨hlt, hold⟩ := List.getElem?_eq_some_iff.mp hget
    refine hburst.keeps (fun program world ↦ kept world (pool.tasks.set index (operation, program)))
      (fun request resume world reply next hkept _ hanswers ↦ ?_) ?_
    · have hplace : (pool.tasks.set index (operation, .await request resume))[index]? =
          some (operation, .await request resume) := by
        rw [List.getElem?_set_self hlt]
      have hnext := hexchange _ _ _ _ _ _ _ _ hkept hplace hanswers
      rwa [List.set_set] at hnext
    · rw [← hold, List.set_getElem_self]
      exact hpool

/-- The only program that may be resumed is. -/
theorem Step.resumed {world next : World} {tasks : List (Operation × Program interface Error Value)}
    {index : ℕ} {operation : Operation} {task rest : Program interface Error Value}
    (hlt : index < tasks.length) (hburst : Burst environment suspends task world rest next) :
    Step environment suspends program (.resume index)
      ⟨world, tasks.set index (operation, task), [index]⟩
      ⟨next, tasks.set index (operation, rest), []⟩ := by
  have hresumed : Step environment suspends program (.resume index)
      ⟨world, tasks.set index (operation, task), [index]⟩ _ :=
    .resume (List.getElem?_set_self hlt) (List.mem_singleton_self _) hburst
  rwa [List.set_set, List.erase_cons_head] at hresumed

/-- A run in which a pending request is answered, where nothing may be resumed. -/
theorem Run.answered {world between : World}
    {tasks : List (Operation × Program interface Error Value)} {index : ℕ} {operation : Operation}
    {request : interface.Request} {resume : interface.Reply request → Program interface Error Value}
    {reply : interface.Reply request}
    (hrun : Run environment suspends program admits origin ⟨world, tasks, []⟩)
    (hget : (tasks)[index]? = some (operation, .await request resume))
    (hadmits : admits (.answer index request reply) ⟨world, tasks, []⟩)
    (hanswers : environment.answers world request reply between) :
    Run environment suspends program admits origin
      ⟨between, tasks.set index (operation, resume reply), [index]⟩ := by
  have hanswered : Step environment suspends program (.answer index request reply)
      ⟨world, tasks, []⟩ ⟨between, tasks.set index (operation, resume reply), [] ++ [index]⟩ :=
    .answer hget List.not_mem_nil hanswers
  exact hrun.step hadmits hanswered

/-- A run in which an operation is started and resumed, where nothing else may be resumed. -/
theorem Run.launched {world next : World}
    {tasks : List (Operation × Program interface Error Value)} {operation : Operation}
    {rest : Program interface Error Value}
    (hrun : Run environment suspends program admits origin ⟨world, tasks, []⟩)
    (hstart : admits (.start operation) ⟨world, tasks, []⟩)
    (hresume : admits (.resume tasks.length)
      ⟨world, tasks ++ [(operation, program operation)], [tasks.length]⟩)
    (hburst : Burst environment suspends (program operation) world rest next) :
    Run environment suspends program admits origin ⟨next, tasks ++ [(operation, rest)], []⟩ := by
  have hstarted := Run.step hrun hstart .start
  have hresumed : Step environment suspends program (.resume tasks.length)
      ⟨world, (tasks ++ [(operation, program operation)]).set tasks.length
        (operation, program operation), [tasks.length]⟩ _ :=
    .resumed (by simp) hburst
  rw [List.set_append_right _ _ (Nat.le_refl _), List.set_append_right _ _ (Nat.le_refl _),
    Nat.sub_self] at hresumed
  exact .step hstarted hresume hresumed

/-- A run in which a pending request is answered and its program resumed, where nothing else may be
resumed. -/
theorem Run.exchanged {world between next : World}
    {tasks : List (Operation × Program interface Error Value)} {index : ℕ} {operation : Operation}
    {request : interface.Request} {resume : interface.Reply request → Program interface Error Value}
    {reply : interface.Reply request} {rest : Program interface Error Value}
    (hrun : Run environment suspends program admits origin ⟨world, tasks, []⟩)
    (hget : (tasks)[index]? = some (operation, .await request resume))
    (hadmits : admits (.answer index request reply) ⟨world, tasks, []⟩)
    (hanswers : environment.answers world request reply between)
    (hresume : admits (.resume index)
      ⟨between, tasks.set index (operation, resume reply), [index]⟩)
    (hburst : Burst environment suspends (resume reply) between rest next) :
    Run environment suspends program admits origin
      ⟨next, tasks.set index (operation, rest), []⟩ :=
  (hrun.answered hget hadmits hanswers).step hresume
    (.resumed (List.getElem?_eq_some_iff.mp hget).1 hburst)

end Rules

/-! ### Tasks of a pool -/

section Tasks

variable {Task : Type} {task other : Task} {index place : ℕ} {tasks : List Task}

/-- A task after one of them was replaced: the new one, or one of the old ones. -/
theorem getElem?_set_cases (hget : (tasks.set index task)[place]? = some other) :
    place = index ∧ other = task ∨ place ≠ index ∧ (tasks)[place]? = some other := by
  by_cases hplace : index = place
  · subst hplace
    rw [List.getElem?_set] at hget
    simp only [if_true] at hget
    split_ifs at hget
    exact Or.inl ⟨rfl, (Option.some.inj hget).symm⟩
  · rw [List.getElem?_set_ne hplace] at hget
    exact Or.inr ⟨Ne.symm hplace, hget⟩

/-- A task after one was added: the new one, or one of the old ones. -/
theorem getElem?_append_cases (hget : (tasks ++ [task])[place]? = some other) :
    place = tasks.length ∧ other = task ∨ (tasks)[place]? = some other := by
  rcases Nat.lt_or_ge place tasks.length with hlt | hge
  · rw [List.getElem?_append_left hlt] at hget
    exact Or.inr hget
  · rw [List.getElem?_append_right hge] at hget
    obtain ⟨hzero, rfl⟩ := List.getElem?_eq_some_iff.mp hget
    rw [List.length_singleton] at hzero
    refine Or.inl ⟨by omega, ?_⟩
    simp

end Tasks

end Pool

/-! ### Relying on others -/

/-- The surroundings of a program beside others that change the world as a relation allows. -/
def shared (environment : Environment interface World) (rely : World → World → Prop)
    (hrefl : ∀ world, rely world world)
    (htrans : ∀ {first second third}, rely first second → rely second third → rely first third) :
    Environment interface World where
  interferes _ := rely
  answers := environment.answers
  interferes_refl _ := hrefl
  interferes_trans := htrans

section Relying

variable {environment : Environment interface World} {rely : World → World → Prop}
  {hrefl : ∀ world, rely world world}
  {htrans : ∀ {first second third}, rely first second → rely second third → rely first third}
  {moment : interface.Request → World → Prop} {post : Outcome Error Value → World → Prop}
  {program : Program interface Error Value} {world next : World}

/-- What holds of a program still holds after the others changed the world, where they keep its
postcondition. -/
theorem Holds.relied (hprogram : Holds (shared environment rely hrefl htrans) moment post program
      world)
    (hpost : ∀ outcome world next, post outcome world → rely world next → post outcome next)
    (hrely : rely world next) :
    Holds (shared environment rely hrefl htrans) moment post program next := by
  cases program with
  | finish value => exact hpost _ _ _ hprogram hrely
  | raise error => exact hpost _ _ _ hprogram hrely
  | exhausted => exact hpost _ _ _ hprogram hrely
  | await request resume =>
    exact Holds.interfere hprogram hrely

/-- What holds of a program holds of what is left of it after an answer. -/
theorem Holds.answered {request : interface.Request}
    {resume : interface.Reply request → Program interface Error Value}
    {reply : interface.Reply request}
    (hprogram : Holds (shared environment rely hrefl htrans) moment post (.await request resume)
      world) (hanswers : environment.answers world request reply next) :
    Holds (shared environment rely hrefl htrans) moment post (resume reply) next :=
  (hprogram world (hrefl world)).2 reply next hanswers

/-- A program of allowed requests, beside others: what its answers and the others keep, holds at
each of its moments and at its end. -/
theorem Program.Asks.holds {allowed : interface.Request → Prop} (kept : World → Prop)
    (hprogram : program.Asks allowed)
    (hanswers : ∀ request world reply next, allowed request → kept world →
      environment.answers world request reply next → kept next)
    (hrely : ∀ world next, kept world → rely world next → kept next) (hworld : kept world) :
    Holds (shared environment rely hrefl htrans) (fun _ world ↦ kept world)
      (fun _ world ↦ kept world) program world := by
  induction program generalizing world with
  | await request resume ih =>
    intro between hbetween
    have hkept := hrely world between hworld hbetween
    exact ⟨hkept, fun reply next hanswer ↦
      ih reply (hprogram.2 reply) (hanswers request between reply next hprogram.1 hkept hanswer)⟩
  | _ => exact hworld

end Relying

end KSQLite.Suspension
