import Mathlib.Data.Nat.Notation
import Mathlib.Logic.Relation

/-!
# Suspending programs under interference

A program of a cooperative scheduler runs until it awaits a request, is resumed with the reply,
and ends by returning a value or raising an error. Between the await and the reply other parties
may change the world. `Program` is the tree of such a program, one branch for each reply, and
`Environment` says what may happen to the world while a request is pending and which replies it
may get. Loops are bounded by fuel: a loop out of fuel ends in `exhausted`, which no environment
resumes, so a statement about every fuel covers every finite part of every run.

`Steps` is the small-step relation, labelled with the exchanges of the run. `Holds` is the
weakest precondition that carries, besides a postcondition, a condition on every moment at which
a request is pending. `Holds.steps` is soundness: what holds before a run holds of the rest of the
program after it, so a pending moment or an outcome reached by a run has its condition. The rules
are those of sequencing (`holds_bind`), of mapping errors (`holds_mapError`), of consequence
(`Holds.mono`) and of bounded iteration (`holds_iterate`), whose invariant may read the fuel left.
`Within` bounds how often a program awaits requests of a kind, whatever the replies, and
`Steps.count_le` carries the bound to the trace of every run.
-/

set_option autoImplicit false
set_option relaxedAutoImplicit false

namespace KSQLite.Suspension

/-- The requests a program may await, with the type of the reply to each. -/
structure Interface where
  Request : Type
  Reply : Request → Type

variable {interface : Interface} {Error Value Result State World : Type}

/-- A program: it has returned, it has raised, it ran out of fuel, or it awaits a reply. -/
inductive Program (interface : Interface) (Error Value : Type) : Type
  | finish (value : Value)
  | raise (error : Error)
  | exhausted
  | await (request : interface.Request)
      (resume : interface.Reply request → Program interface Error Value)

namespace Program

/-- Run `next` on the value the program returns. -/
def bind (program : Program interface Error Value) (next : Value → Program interface Error Result) :
    Program interface Error Result :=
  match program with
  | .finish value => next value
  | .raise error => .raise error
  | .exhausted => .exhausted
  | .await request resume => .await request fun reply ↦ (resume reply).bind next

instance : Monad (Program interface Error) where
  pure := .finish
  bind := bind

@[simp] theorem pure_eq (value : Value) :
    (pure value : Program interface Error Value) = .finish value := rfl

@[simp] theorem finish_bind (value : Value) (next : Value → Program interface Error Result) :
    (Program.finish value : Program interface Error Value) >>= next = next value := rfl

@[simp] theorem raise_bind (error : Error) (next : Value → Program interface Error Result) :
    (Program.raise error : Program interface Error Value) >>= next = .raise error := rfl

@[simp] theorem exhausted_bind (next : Value → Program interface Error Result) :
    (Program.exhausted : Program interface Error Value) >>= next = .exhausted := rfl

@[simp] theorem await_bind (request : interface.Request)
    (resume : interface.Reply request → Program interface Error Value)
    (next : Value → Program interface Error Result) :
    Program.await request resume >>= next = .await request fun reply ↦ resume reply >>= next := rfl

/-- Await a request and return its reply. -/
def ask (request : interface.Request) : Program interface Error (interface.Reply request) :=
  .await request .finish

/-- Return the value of a computation or raise its error. -/
def ofExcept : Except Error Value → Program interface Error Value
  | .ok value => .finish value
  | .error error => .raise error

/-- Replace the error a program raises. -/
def mapError (change : Error → Error) :
    Program interface Error Value → Program interface Error Value
  | .finish value => .finish value
  | .raise error => .raise (change error)
  | .exhausted => .exhausted
  | .await request resume => .await request fun reply ↦ (resume reply).mapError change

/-- Run `handler` on the error the program raises. -/
def handle (handler : Error → Program interface Error Value) :
    Program interface Error Value → Program interface Error Value
  | .finish value => .finish value
  | .raise error => handler error
  | .exhausted => .exhausted
  | .await request resume => .await request fun reply ↦ (resume reply).handle handler

/-- `while`: until `guard` gives a result, run `body` on the state, which may also leave the loop
with a result of its own. -/
def iterate (fuel : ℕ) (guard : State → Option Value)
    (body : State → Program interface Error (State ⊕ Value)) (state : State) :
    Program interface Error Value :=
  match guard state, fuel with
  | some value, _ => .finish value
  | none, 0 => .exhausted
  | none, fuel + 1 => body state >>= fun
    | .inl next => iterate fuel guard body next
    | .inr value => .finish value

/-- On every branch the program awaits at most `bound` counted requests. -/
def Within (counted : interface.Request → Bool) (bound : ℕ) :
    Program interface Error Value → Prop
  | .finish _ => True
  | .raise _ => True
  | .exhausted => True
  | .await request resume =>
    if counted request then 0 < bound ∧ ∀ reply, (resume reply).Within counted (bound - 1)
    else ∀ reply, (resume reply).Within counted bound

section Within

variable {counted : interface.Request → Bool} {bound : ℕ}

theorem Within.mono {more : ℕ} {program : Program interface Error Value}
    (hprogram : program.Within counted bound) (hmore : bound ≤ more) :
    program.Within counted more := by
  induction program generalizing bound more with
  | finish value => trivial
  | raise error => trivial
  | exhausted => trivial
  | await request resume ih =>
    by_cases hcounted : counted request = true
    · rw [Within, if_pos hcounted] at hprogram ⊢
      exact ⟨by omega, fun reply ↦ ih reply (hprogram.2 reply) (by omega)⟩
    · rw [Within, if_neg hcounted] at hprogram ⊢
      exact fun reply ↦ ih reply (hprogram reply) hmore

/-- The bounds of two programs in sequence add up. -/
theorem Within.bind {more : ℕ} {program : Program interface Error Value}
    {next : Value → Program interface Error Result} (hprogram : program.Within counted bound)
    (hnext : ∀ value, (next value).Within counted more) :
    (program >>= next).Within counted (bound + more) := by
  induction program generalizing bound with
  | finish value => exact (hnext value).mono (by omega)
  | raise error => trivial
  | exhausted => trivial
  | await request resume ih =>
    rw [await_bind]
    by_cases hcounted : counted request = true
    · rw [Within, if_pos hcounted] at hprogram ⊢
      refine ⟨by omega, fun reply ↦ ?_⟩
      have hrest := ih reply (hprogram.2 reply)
      rwa [show bound + more - 1 = bound - 1 + more by have := hprogram.1; omega]
    · rw [Within, if_neg hcounted] at hprogram ⊢
      exact fun reply ↦ ih reply (hprogram reply)

/-- A program that awaits no counted request, followed by another one. -/
theorem Within.before {program : Program interface Error Value}
    {next : Value → Program interface Error Result} (hprogram : program.Within counted 0)
    (hnext : ∀ value, (next value).Within counted bound) :
    (program >>= next).Within counted bound :=
  (hprogram.bind hnext).mono (Nat.le_of_eq (Nat.zero_add bound))

theorem Within.finish (value : Value) :
    (Program.finish value : Program interface Error Value).Within counted bound :=
  trivial

theorem Within.raise (error : Error) :
    (Program.raise error : Program interface Error Value).Within counted bound :=
  trivial

/-- Replacing the error changes no request. -/
theorem Within.mapError {program : Program interface Error Value} {change : Error → Error}
    (hprogram : program.Within counted bound) : (program.mapError change).Within counted bound := by
  induction program generalizing bound with
  | finish value => trivial
  | raise error => trivial
  | exhausted => trivial
  | await request resume ih =>
    rw [Program.mapError]
    by_cases hcounted : counted request = true
    · rw [Within, if_pos hcounted] at hprogram ⊢
      exact ⟨hprogram.1, fun reply ↦ ih reply (hprogram.2 reply)⟩
    · rw [Within, if_neg hcounted] at hprogram ⊢
      exact fun reply ↦ ih reply (hprogram reply)

/-- A handler that awaits no counted request adds none. -/
theorem Within.handle {program : Program interface Error Value}
    {handler : Error → Program interface Error Value} (hprogram : program.Within counted bound)
    (hhandler : ∀ error, (handler error).Within counted 0) :
    (program.handle handler).Within counted bound := by
  induction program generalizing bound with
  | finish value => trivial
  | raise error => exact (hhandler error).mono (Nat.zero_le bound)
  | exhausted => trivial
  | await request resume ih =>
    rw [Program.handle]
    by_cases hcounted : counted request = true
    · rw [Within, if_pos hcounted] at hprogram ⊢
      exact ⟨hprogram.1, fun reply ↦ ih reply (hprogram.2 reply)⟩
    · rw [Within, if_neg hcounted] at hprogram ⊢
      exact fun reply ↦ ih reply (hprogram reply)

/-- A loop awaits no more counted requests than it has rounds, when a round awaits at most one. -/
theorem Within.iterate {guard : State → Option Value}
    {body : State → Program interface Error (State ⊕ Value)}
    (hbody : ∀ state, (body state).Within counted 1) (fuel : ℕ) (state : State) :
    (Program.iterate fuel guard body state).Within counted fuel := by
  induction fuel generalizing state with
  | zero =>
    unfold Program.iterate
    cases guard state <;> trivial
  | succ fuel ih =>
    unfold Program.iterate
    cases guard state with
    | some value => trivial
    | none =>
      refine Within.mono ((hbody state).bind ?_) (Nat.le_of_eq (Nat.add_comm 1 fuel))
      rintro (next | value)
      · exact ih next
      · exact .finish value

end Within

end Program

/-- How a program ends. -/
inductive Outcome (Error Value : Type) : Type
  | returned (value : Value)
  | raised (error : Error)
  | exhausted
  deriving DecidableEq

/-- What may happen to the world while a request is pending, and which replies it may get. -/
structure Environment (interface : Interface) (World : Type) where
  interferes : interface.Request → World → World → Prop
  answers : World → (request : interface.Request) → interface.Reply request → World → Prop
  interferes_refl : ∀ request world, interferes request world world
  interferes_trans : ∀ {request first second third}, interferes request first second →
    interferes request second third → interferes request first third

/-- One exchange of a run: the world in which a request was answered, and its reply. -/
structure Exchange (interface : Interface) (World : Type) where
  world : World
  request : interface.Request
  reply : interface.Reply request

/-- A run of a program from a world: interference while a request is pending, and replies. -/
inductive Steps (environment : Environment interface World) :
    Program interface Error Value → World → List (Exchange interface World) →
      Program interface Error Value → World → Prop
  | refl {program world} : Steps environment program world [] program world
  | interfere {request resume world between trace program final} :
      environment.interferes request world between →
      Steps environment (.await request resume) between trace program final →
      Steps environment (.await request resume) world trace program final
  | answer {request resume world reply next trace program final} :
      environment.answers world request reply next →
      Steps environment (resume reply) next trace program final →
      Steps environment (.await request resume) world (⟨world, request, reply⟩ :: trace)
        program final

/-- The weakest precondition of a program: `moment` at every moment a request is pending, and
`post` of every outcome. -/
def Holds (environment : Environment interface World)
    (moment : interface.Request → World → Prop) (post : Outcome Error Value → World → Prop) :
    Program interface Error Value → World → Prop
  | .finish value, world => post (.returned value) world
  | .raise error, world => post (.raised error) world
  | .exhausted, world => post .exhausted world
  | .await request resume, world =>
    ∀ between, environment.interferes request world between →
      moment request between ∧
      ∀ reply next, environment.answers between request reply next →
        Holds environment moment post (resume reply) next

section Rules

variable {environment : Environment interface World}
  {moment weaker : interface.Request → World → Prop}
  {post : Outcome Error Value → World → Prop}

@[simp] theorem holds_finish {value : Value} {world : World} :
    Holds environment moment post (.finish value : Program interface Error Value) world ↔
      post (.returned value) world := Iff.rfl

@[simp] theorem holds_raise {error : Error} {world : World} :
    Holds environment moment post (.raise error : Program interface Error Value) world ↔
      post (.raised error) world := Iff.rfl

@[simp] theorem holds_exhausted {world : World} :
    Holds environment moment post (.exhausted : Program interface Error Value) world ↔
      post .exhausted world := Iff.rfl

theorem holds_await {request : interface.Request}
    {resume : interface.Reply request → Program interface Error Value} {world : World} :
    Holds environment moment post (.await request resume) world ↔
      ∀ between, environment.interferes request world between →
        moment request between ∧
        ∀ reply next, environment.answers between request reply next →
          Holds environment moment post (resume reply) next := Iff.rfl

/-- Consequence: a weaker condition on moments and a weaker postcondition. -/
theorem Holds.mono {post' : Outcome Error Value → World → Prop}
    {program : Program interface Error Value} {world : World}
    (hprogram : Holds environment moment post program world)
    (hmoment : ∀ request between, moment request between → weaker request between)
    (hpost : ∀ outcome final, post outcome final → post' outcome final) :
    Holds environment weaker post' program world := by
  induction program generalizing world with
  | finish value => exact hpost _ _ hprogram
  | raise error => exact hpost _ _ hprogram
  | exhausted => exact hpost _ _ hprogram
  | await request resume ih =>
    intro between hbetween
    obtain ⟨hnow, hresume⟩ := hprogram between hbetween
    exact ⟨hmoment _ _ hnow, fun reply next hreply ↦ ih reply (hresume reply next hreply)⟩

/-- What holds of every world and every outcome holds of every program. -/
theorem holds_of_forall (hmoment : ∀ request world, moment request world)
    (hpost : ∀ outcome world, post outcome world) (program : Program interface Error Value)
    (world : World) : Holds environment moment post program world := by
  induction program generalizing world with
  | finish value => exact hpost _ world
  | raise error => exact hpost _ world
  | exhausted => exact hpost _ world
  | await request resume ih => exact fun between _ ↦ ⟨hmoment _ _, fun _ next _ ↦ ih _ next⟩

/-- The postcondition a program needs when `next` runs on the value it returns. -/
def Sequel (environment : Environment interface World)
    (moment : interface.Request → World → Prop) (post : Outcome Error Result → World → Prop)
    (next : Value → Program interface Error Result) : Outcome Error Value → World → Prop
  | .returned value, world => Holds environment moment post (next value) world
  | .raised error, world => post (.raised error) world
  | .exhausted, world => post .exhausted world

@[simp] theorem sequel_returned {post : Outcome Error Result → World → Prop}
    {next : Value → Program interface Error Result} {value : Value} {world : World} :
    Sequel environment moment post next (.returned value) world ↔
      Holds environment moment post (next value) world := Iff.rfl

@[simp] theorem sequel_raised {post : Outcome Error Result → World → Prop}
    {next : Value → Program interface Error Result} {error : Error} {world : World} :
    Sequel environment moment post next (.raised error) world ↔ post (.raised error) world :=
  Iff.rfl

/-- Sequencing: the first program establishes what the second one needs. -/
theorem holds_bind {post : Outcome Error Result → World → Prop}
    {program : Program interface Error Value} {next : Value → Program interface Error Result}
    {world : World} :
    Holds environment moment post (program >>= next) world ↔
      Holds environment moment (Sequel environment moment post next) program world := by
  induction program generalizing world with
  | finish value => rfl
  | raise error => rfl
  | exhausted => rfl
  | await request resume ih =>
    simp only [Program.await_bind, holds_await]
    exact forall_congr' fun between ↦ forall_congr' fun _ ↦ and_congr_right fun _ ↦
      forall_congr' fun reply ↦ forall_congr' fun next ↦ forall_congr' fun _ ↦ ih reply

/-- A program followed by one that needs less than the first establishes. -/
theorem Holds.bind {post : Outcome Error Result → World → Prop}
    {middle : Outcome Error Value → World → Prop}
    {program : Program interface Error Value} {next : Value → Program interface Error Result}
    {world : World} (hprogram : Holds environment moment middle program world)
    (hreturned : ∀ value final, middle (.returned value) final →
      Holds environment moment post (next value) final)
    (hraised : ∀ error final, middle (.raised error) final → post (.raised error) final)
    (hexhausted : ∀ final, middle .exhausted final → post .exhausted final) :
    Holds environment moment post (program >>= next) world := by
  refine holds_bind.mpr (hprogram.mono (fun _ _ hmoment ↦ hmoment) fun outcome final hmiddle ↦ ?_)
  cases outcome with
  | returned value => exact hreturned value final hmiddle
  | raised error => exact hraised error final hmiddle
  | exhausted => exact hexhausted final hmiddle

/-- A request answered in every allowed world leads to what the rest of the program needs. -/
theorem holds_ask {request : interface.Request}
    {post : Outcome Error (interface.Reply request) → World → Prop} {world : World} :
    Holds environment moment post
        (Program.ask request : Program interface Error (interface.Reply request)) world ↔
      ∀ between, environment.interferes request world between →
        moment request between ∧
        ∀ reply next, environment.answers between request reply next →
          post (.returned reply) next := Iff.rfl

@[simp] theorem holds_ofExcept_ok {value : Value} {world : World} :
    Holds environment moment post
        (Program.ofExcept (.ok value) : Program interface Error Value) world ↔
      post (.returned value) world := Iff.rfl

@[simp] theorem holds_ofExcept_error {error : Error} {world : World} :
    Holds environment moment post
        (Program.ofExcept (.error error) : Program interface Error Value) world ↔
      post (.raised error) world := Iff.rfl

/-- The postcondition a program needs when its error is replaced. -/
def Outcome.mapError (change : Error → Error) : Outcome Error Value → Outcome Error Value
  | .returned value => .returned value
  | .raised error => .raised (change error)
  | .exhausted => .exhausted

/-- Mapping the error of a program maps its outcome. -/
theorem holds_mapError {change : Error → Error} {program : Program interface Error Value}
    {world : World} :
    Holds environment moment post (program.mapError change) world ↔
      Holds environment moment (fun outcome final ↦ post (outcome.mapError change) final)
        program world := by
  induction program generalizing world with
  | finish value => rfl
  | raise error => rfl
  | exhausted => rfl
  | await request resume ih =>
    simp only [Program.mapError, holds_await]
    exact forall_congr' fun between ↦ forall_congr' fun _ ↦ and_congr_right fun _ ↦
      forall_congr' fun reply ↦ forall_congr' fun next ↦ forall_congr' fun _ ↦ ih reply

/-- The postcondition a program needs when a handler runs on its error. -/
def Handled (environment : Environment interface World)
    (moment : interface.Request → World → Prop) (post : Outcome Error Value → World → Prop)
    (handler : Error → Program interface Error Value) : Outcome Error Value → World → Prop
  | .returned value, world => post (.returned value) world
  | .raised error, world => Holds environment moment post (handler error) world
  | .exhausted, world => post .exhausted world

/-- Handling the error of a program. -/
theorem holds_handle {handler : Error → Program interface Error Value}
    {program : Program interface Error Value} {world : World} :
    Holds environment moment post (program.handle handler) world ↔
      Holds environment moment (Handled environment moment post handler) program world := by
  induction program generalizing world with
  | finish value => rfl
  | raise error => rfl
  | exhausted => rfl
  | await request resume ih =>
    simp only [Program.handle, holds_await]
    exact forall_congr' fun between ↦ forall_congr' fun _ ↦ and_congr_right fun _ ↦
      forall_congr' fun reply ↦ forall_congr' fun next ↦ forall_congr' fun _ ↦ ih reply

/-- The postcondition of one round of an iteration: the invariant of the state it leaves, or the
postcondition of the result. -/
def AfterRound (invariant : State → World → Prop) (post : Outcome Error Value → World → Prop) :
    Outcome Error (State ⊕ Value) → World → Prop
  | .returned (.inl next), final => invariant next final
  | .returned (.inr value), final => post (.returned value) final
  | .raised error, final => post (.raised error) final
  | .exhausted, final => post .exhausted final

/-- Bounded iteration. The invariant reads the fuel left, so that running out of fuel can be
ruled out or charged to the number of rounds. -/
theorem holds_iterate {guard : State → Option Value}
    {body : State → Program interface Error (State ⊕ Value)}
    (invariant : ℕ → State → World → Prop)
    (hexit : ∀ fuel state world value, invariant fuel state world → guard state = some value →
      post (.returned value) world)
    (hround : ∀ fuel state world, invariant (fuel + 1) state world → guard state = none →
      Holds environment moment (AfterRound (invariant fuel) post) (body state) world)
    (hexhausted : ∀ state world, invariant 0 state world → guard state = none →
      post .exhausted world)
    {fuel : ℕ} {state : State} {world : World} (hstart : invariant fuel state world) :
    Holds environment moment post (Program.iterate fuel guard body state) world := by
  induction fuel generalizing state world with
  | zero =>
    unfold Program.iterate
    cases hguard : guard state with
    | some value => exact hexit 0 state world value hstart hguard
    | none => exact hexhausted state world hstart hguard
  | succ fuel ih =>
    unfold Program.iterate
    cases hguard : guard state with
    | some value => exact hexit (fuel + 1) state world value hstart hguard
    | none =>
      refine (hround fuel state world hstart hguard).bind ?_ ?_ ?_
      · rintro (next | value) final hfinal
        · exact ih hfinal
        · exact hfinal
      · exact fun error final hfinal ↦ hfinal
      · exact fun final hfinal ↦ hfinal

end Rules

section Soundness

variable {environment : Environment interface World}
  {moment : interface.Request → World → Prop} {post : Outcome Error Value → World → Prop}
  {program rest : Program interface Error Value} {world final : World}
  {trace : List (Exchange interface World)}

/-- Interference leaves the rest of a program with what it needs. -/
theorem Holds.interfere {request : interface.Request}
    {resume : interface.Reply request → Program interface Error Value}
    (hprogram : Holds environment moment post (.await request resume) world)
    (hinterfere : environment.interferes request world final) :
    Holds environment moment post (.await request resume) final :=
  fun between hbetween ↦ hprogram between (environment.interferes_trans hinterfere hbetween)

/-- Soundness: what holds of a program before a run holds of its rest after it. -/
theorem Holds.steps (hprogram : Holds environment moment post program world)
    (hsteps : Steps environment program world trace rest final) :
    Holds environment moment post rest final := by
  induction hsteps with
  | refl => exact hprogram
  | interfere hinterfere _ ih => exact ih (hprogram.interfere hinterfere)
  | answer hreply _ ih =>
    exact ih ((hprogram _ (environment.interferes_refl _ _)).2 _ _ hreply)

/-- The condition on moments at a pending request a run reaches. -/
theorem Holds.pending {request : interface.Request}
    {resume : interface.Reply request → Program interface Error Value}
    (hprogram : Holds environment moment post program world)
    (hsteps : Steps environment program world trace (.await request resume) final) :
    moment request final :=
  ((hprogram.steps hsteps) final (environment.interferes_refl _ _)).1

/-- The condition on moments at every exchange of a run. -/
theorem Holds.exchange {exchange : Exchange interface World}
    (hprogram : Holds environment moment post program world)
    (hsteps : Steps environment program world trace rest final) (hexchange : exchange ∈ trace) :
    moment exchange.request exchange.world := by
  induction hsteps with
  | refl => exact absurd hexchange List.not_mem_nil
  | interfere hinterfere _ ih => exact ih (hprogram.interfere hinterfere) hexchange
  | answer hreply _ ih =>
    obtain ⟨hnow, hresume⟩ := hprogram _ (environment.interferes_refl _ _)
    rcases List.mem_cons.mp hexchange with rfl | hlater
    · exact hnow
    · exact ih (hresume _ _ hreply) hlater

/-- A relation that interference and answers respect at the moments of a program holds between
the worlds at the ends of its runs. -/
theorem Holds.related (relation : World → World → Prop) (hrefl : ∀ world, relation world world)
    (htrans : ∀ {first second third}, relation first second → relation second third →
      relation first third)
    (hinterferes : ∀ request world next, moment request world →
      environment.interferes request world next → relation world next)
    (hanswers : ∀ request world reply next, moment request world →
      environment.answers world request reply next → relation world next)
    (hprogram : Holds environment moment post program world)
    (hsteps : Steps environment program world trace rest final) : relation world final := by
  induction hsteps with
  | refl => exact hrefl _
  | interfere hinterfere _ ih =>
    have hnow := (hprogram _ (environment.interferes_refl _ _)).1
    exact htrans (hinterferes _ _ _ hnow hinterfere) (ih (hprogram.interfere hinterfere))
  | answer hreply _ ih =>
    obtain ⟨hnow, hresume⟩ := hprogram _ (environment.interferes_refl _ _)
    exact htrans (hanswers _ _ _ _ hnow hreply) (ih (hresume _ _ hreply))

end Soundness

section Runs

variable {environment : Environment interface World}

/-- Two runs that meet at the same program and world. -/
theorem Steps.trans {first middle last : Program interface Error Value}
    {world between final : World}
    {trace trace' : List (Exchange interface World)}
    (hfirst : Steps environment first world trace middle between)
    (hlast : Steps environment middle between trace' last final) :
    Steps environment first world (trace ++ trace') last final := by
  induction hfirst with
  | refl => exact hlast
  | interfere hinterfere _ ih => exact .interfere hinterfere (ih hlast)
  | answer hreply _ ih => exact .answer hreply (ih hlast)

/-- A run of a program is a run of the program with a continuation. -/
theorem Steps.bind {program rest : Program interface Error Value} {world final : World}
    {trace : List (Exchange interface World)}
    (hsteps : Steps environment program world trace rest final)
    (next : Value → Program interface Error Result) :
    Steps environment (program >>= next) world trace (rest >>= next) final := by
  induction hsteps with
  | refl => exact .refl
  | interfere hinterfere _ ih => exact .interfere hinterfere ih
  | answer hreply _ ih => exact .answer hreply ih

/-- A run up to an exchange, the exchange, and the run after it. -/
theorem Steps.split {program rest : Program interface Error Value} {world final : World}
    {trace : List (Exchange interface World)} {exchange : Exchange interface World}
    (hsteps : Steps environment program world trace rest final) (hexchange : exchange ∈ trace) :
    ∃ (before after : List (Exchange interface World))
      (resume : interface.Reply exchange.request → Program interface Error Value) (next : World),
      trace = before ++ exchange :: after ∧
      Steps environment program world before (.await exchange.request resume) exchange.world ∧
      environment.answers exchange.world exchange.request exchange.reply next ∧
      Steps environment (resume exchange.reply) next after rest final := by
  induction hsteps with
  | refl => exact absurd hexchange List.not_mem_nil
  | interfere hinterfere _ ih =>
    obtain ⟨before, after, resume, next, htrace, hbefore, hanswers, hafter⟩ := ih hexchange
    exact ⟨before, after, resume, next, htrace, .interfere hinterfere hbefore, hanswers, hafter⟩
  | @answer request resume world reply next trace program final hreply hrest ih =>
    rcases List.mem_cons.mp hexchange with rfl | hlater
    · exact ⟨[], trace, resume, next, rfl, .refl, hreply, hrest⟩
    · obtain ⟨before, after, resumed, answered, htrace, hbefore, hanswers, hafter⟩ := ih hlater
      exact ⟨_ :: before, after, resumed, answered, by rw [htrace]; rfl, .answer hreply hbefore,
        hanswers, hafter⟩

/-- A run awaits no more counted requests than the program allows on every branch. -/
theorem Steps.count_le {counted : interface.Request → Bool} {bound : ℕ}
    {program rest : Program interface Error Value} {world final : World}
    {trace : List (Exchange interface World)}
    (hsteps : Steps environment program world trace rest final)
    (hwithin : program.Within counted bound) :
    trace.countP (fun exchange ↦ counted exchange.request) ≤ bound := by
  induction hsteps generalizing bound with
  | refl => simp
  | interfere _ _ ih => exact ih hwithin
  | @answer request resume world reply next trace program final _ _ ih =>
    rw [List.countP_cons]
    by_cases hcounted : counted request = true
    · rw [Program.Within, if_pos hcounted] at hwithin
      have hrest := ih (hwithin.2 reply)
      have hpositive := hwithin.1
      simp only [hcounted, if_true]
      omega
    · rw [Program.Within, if_neg hcounted] at hwithin
      have hrest := ih (hwithin reply)
      simpa [hcounted] using hrest

end Runs

end KSQLite.Suspension
