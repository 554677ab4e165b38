import KSQLite.Suspension.Watch

/-!
# Programs over programs

A program whose requests are implemented by programs of another interface (`Program.expand`). What
an implementation raises can be made its reply (`Program.caught`). A watch of the requests is met
by the expanded program beside a watch of the other interface, where every implementation leads
from a state of the watch to one that its request may lead to (`Holds.expand`).
-/

set_option autoImplicit false
set_option relaxedAutoImplicit false

namespace KSQLite.Suspension

variable {interface target : Interface} {Error Raised Value World Ghost : Type}

namespace Program

/-- Implement every request of a program. -/
def expand (implement : (request : interface.Request) →
    Program target Error (interface.Reply request)) :
    Program interface Error Value → Program target Error Value
  | .finish value => .finish value
  | .raise error => .raise error
  | .exhausted => .exhausted
  | .await request resume => (implement request).bind fun reply ↦ (resume reply).expand implement

/-- Return what a program raises. -/
def caught : Program interface Raised Value → Program interface Error (Except Raised Value)
  | .finish value => .finish (.ok value)
  | .raise error => .finish (.error error)
  | .exhausted => .exhausted
  | .await request resume => .await request fun reply ↦ (resume reply).caught

end Program

/-- The postcondition a program needs whose errors are returned. -/
def Caught (post : Outcome Error (Except Raised Value) → World → Prop) :
    Outcome Raised Value → World → Prop
  | .returned value, world => post (.returned (.ok value)) world
  | .raised error, world => post (.returned (.error error)) world
  | .exhausted, world => post .exhausted world

/-- Catching the errors of a program. -/
theorem holds_caught {environment : Environment interface World}
    {moment : interface.Request → World → Prop}
    {post : Outcome Error (Except Raised Value) → World → Prop}
    {program : Program interface Raised Value} {world : World} :
    Holds environment moment post (program.caught : Program interface Error _) world ↔
      Holds environment moment (Caught post) program world := by
  induction program generalizing world with
  | finish value => rfl
  | raise error => rfl
  | exhausted => rfl
  | await request resume ih =>
    simp only [Program.caught, holds_await]
    exact forall_congr' fun between ↦ forall_congr' fun _ ↦ and_congr_right fun _ ↦
      forall_congr' fun reply ↦ forall_congr' fun next ↦ forall_congr' fun _ ↦ ih reply

/-- What an implementation of a request needs: it returns a reply that the watch of the requests
allows, or the program ends with it. -/
def Implements (moves : Ghost → (request : interface.Request) → interface.Reply request →
    Ghost → Prop)
    (post : Outcome Error Value → Ghost → Prop) (ghost : Ghost) (request : interface.Request) :
    Outcome Error (interface.Reply request) → Ghost → Prop
  | .returned reply, after => moves ghost request reply after
  | .raised error, after => post (.raised error) after
  | .exhausted, after => post .exhausted after

/-- A program that meets a watch, with its requests implemented. -/
theorem Holds.expand {moves : Ghost → (request : interface.Request) → interface.Reply request →
      Ghost → Prop} {environment : Environment target Ghost}
    {moment : interface.Request → Ghost → Prop} {below : target.Request → Ghost → Prop}
    {post : Outcome Error Value → Ghost → Prop}
    {implement : (request : interface.Request) → Program target Error (interface.Reply request)}
    {program : Program interface Error Value} {ghost : Ghost}
    (hprogram : Holds (watch moves) moment post program ghost)
    (himplement : ∀ request ghost, moment request ghost →
      Holds environment below (Implements moves post ghost request) (implement request) ghost) :
    Holds environment below post (program.expand implement) ghost := by
  induction program generalizing ghost with
  | finish value => exact hprogram
  | raise error => exact hprogram
  | exhausted => exact hprogram
  | await request resume ih =>
    obtain ⟨hnow, hresume⟩ := holds_watch_await.mp hprogram
    refine (himplement request ghost hnow).bind (fun reply after hafter ↦ ?_)
      (fun _ _ hraised ↦ hraised) fun _ hexhausted ↦ hexhausted
    exact ih reply (hresume reply after hafter)

end KSQLite.Suspension
