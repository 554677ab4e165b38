import KSQLite.Suspension.Program
import Mathlib.Tactic.ByContra

/-!
# Histories of operations

A `History` is a sequence of operations, each a program that runs to its end before the next one
starts, each in surroundings of its own. `admits` restricts the steps: it reads the operation, the
world before it, how it ended and the world after it. An invariant of histories is proved with the
weakest precondition of each operation (`History.invariant`).
-/

set_option autoImplicit false
set_option relaxedAutoImplicit false

namespace KSQLite.Suspension

variable {interface : Interface} {Error Value World Operation : Type}

/-- A program that ended so. -/
def Outcome.program : Outcome Error Value → Program interface Error Value
  | .returned value => .finish value
  | .raised error => .raise error
  | .exhausted => .exhausted

/-- What holds of every outcome of a program holds of an outcome it reached. -/
theorem Holds.outcome {environment : Environment interface World}
    {moment : interface.Request → World → Prop} {post : Outcome Error Value → World → Prop}
    {program : Program interface Error Value} {outcome : Outcome Error Value}
    {trace : List (Exchange interface World)} {world final : World}
    (hprogram : Holds environment moment post program world)
    (hsteps : Steps environment program world trace outcome.program final) :
    post outcome final := by
  have hend := hprogram.steps hsteps
  cases outcome with
  | returned value => exact hend
  | raised error => exact hend
  | exhausted => exact hend

/-- What interference and answers keep at the moments of a program holds wherever a run of it
gets. -/
theorem Holds.invariant {environment : Environment interface World}
    {moment : interface.Request → World → Prop} {post : Outcome Error Value → World → Prop}
    {program rest : Program interface Error Value} {trace : List (Exchange interface World)}
    {world final : World} (invariant : World → Prop)
    (hprogram : Holds environment moment post program world) (hstart : invariant world)
    (hinterferes : ∀ request before between, invariant before →
      environment.interferes request before between → moment request between → invariant between)
    (hanswers : ∀ request between reply next, invariant between → moment request between →
      environment.answers between request reply next → invariant next)
    (hsteps : Steps environment program world trace rest final) : invariant final := by
  induction hsteps with
  | refl => exact hstart
  | interfere hinterfere _ ih =>
    have hnow := (hprogram _ hinterfere).1
    exact ih (hprogram.interfere hinterfere) (hinterferes _ _ _ hstart hinterfere hnow)
  | answer hreply _ ih =>
    obtain ⟨hnow, hresume⟩ := hprogram _ (environment.interferes_refl _ _)
    exact ih (hresume _ _ hreply) (hanswers _ _ _ _ hstart hnow hreply)

/-- Completeness: what every run of a program ends with is what the program needs. -/
theorem holds_of_steps {environment : Environment interface World}
    {moment : interface.Request → World → Prop} {post : Outcome Error Value → World → Prop}
    {program : Program interface Error Value} {world : World}
    (hmoment : ∀ request between, moment request between)
    (hends : ∀ (trace : List (Exchange interface World)) (outcome : Outcome Error Value) final,
      Steps environment program world trace outcome.program final → post outcome final) :
    Holds environment moment post program world := by
  induction program generalizing world with
  | finish value => exact hends [] (.returned value) world .refl
  | raise error => exact hends [] (.raised error) world .refl
  | exhausted => exact hends [] .exhausted world .refl
  | await request resume ih =>
    refine fun between hbetween ↦ ⟨hmoment _ _, fun reply next hreply ↦ ih reply ?_⟩
    exact fun trace outcome final hsteps ↦
      hends _ outcome final (.interfere hbetween (.answer hreply hsteps))

/-- A program that does not always end so has a run that ends otherwise. -/
theorem exists_steps {environment : Environment interface World}
    {moment : interface.Request → World → Prop} {post : Outcome Error Value → World → Prop}
    {program : Program interface Error Value} {world : World}
    (hmoment : ∀ request between, moment request between)
    (hnot : ¬ Holds environment moment post program world) :
    ∃ (trace : List (Exchange interface World)) (outcome : Outcome Error Value) (final : World),
      Steps environment program world trace outcome.program final ∧ ¬ post outcome final := by
  by_contra hnone
  refine hnot (holds_of_steps hmoment fun trace outcome final hsteps ↦ ?_)
  by_contra hpost
  exact hnone ⟨trace, outcome, final, hsteps, hpost⟩

/-- A program at whose pending requests a condition does not always hold has a run to one where it
does not. -/
theorem exists_pending {environment : Environment interface World}
    {moment : interface.Request → World → Prop} {program : Program interface Error Value}
    {world : World} (hnot : ¬ Holds environment moment (fun _ _ ↦ True) program world) :
    ∃ (trace : List (Exchange interface World)) (request : interface.Request)
      (resume : interface.Reply request → Program interface Error Value) (between : World),
      Steps environment program world trace (.await request resume) between ∧
        ¬ moment request between := by
  by_contra hnone
  refine hnot ?_
  clear hnot
  induction program generalizing world with
  | finish value => trivial
  | raise error => trivial
  | exhausted => trivial
  | await request resume ih =>
    refine fun between hbetween ↦ ⟨?_, fun reply next hreply ↦ ih reply ?_⟩
    · by_contra hmoment
      exact hnone ⟨[], request, resume, between, .interfere hbetween .refl, hmoment⟩
    · rintro ⟨trace, pending, resumed, final, hsteps, hmoment⟩
      exact hnone ⟨_, pending, resumed, final, .interfere hbetween (.answer hreply hsteps),
        hmoment⟩

/-- Operations one after another, each step of them admitted. -/
inductive History (environment : Operation → Environment interface World)
    (program : Operation → Program interface Error Value)
    (admits : Operation → World → Outcome Error Value → World → Prop) : World → World → Prop
  | refl {world} : History environment program admits world world
  | step {origin before after operation trace outcome} :
      History environment program admits origin before →
      Steps (environment operation) (program operation) before trace outcome.program after →
      admits operation before outcome after →
      History environment program admits origin after

/-- What every admitted operation keeps holds after every history. -/
theorem History.invariant {environment : Operation → Environment interface World}
    {program : Operation → Program interface Error Value}
    {admits : Operation → World → Outcome Error Value → World → Prop}
    {moment : interface.Request → World → Prop} {origin final : World}
    (hhistory : History environment program admits origin final) (invariant : World → Prop)
    (hkeeps : ∀ operation before, invariant before →
      Holds (environment operation) moment
        (fun outcome after ↦ admits operation before outcome after → invariant after)
        (program operation) before)
    (horigin : invariant origin) : invariant final := by
  induction hhistory with
  | refl => exact horigin
  | step _ hsteps hadmits ih => exact (hkeeps _ _ ih).outcome hsteps hadmits

end KSQLite.Suspension
