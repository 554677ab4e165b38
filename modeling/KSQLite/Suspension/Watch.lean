import KSQLite.Suspension.History

/-!
# Watching a run

A watch goes through the exchanges of a run beside the world: its state moves with the requests and
their replies, whatever the world does. A program meets a watch on every branch when it has the
weakest precondition over the environment that the watch is (`watch`), and then every run meets it,
wherever the state of the watch is related to the world along the run (`Holds.watched`).
A part of a program without counted requests leaves the watch in any set of states that is closed
under the other requests (`Program.Within.holds_watch`).
-/

set_option autoImplicit false
set_option relaxedAutoImplicit false

namespace KSQLite.Suspension

variable {interface : Interface} {Error Value World Ghost : Type}

/-- The environment of a watch: its state does not change while a request is pending, and moves
with the reply. -/
def watch (moves : Ghost → (request : interface.Request) → interface.Reply request → Ghost → Prop) :
    Environment interface Ghost where
  interferes _ ghost after := after = ghost
  answers := moves
  interferes_refl _ _ := rfl
  interferes_trans hfirst hsecond := hsecond.trans hfirst

section Watches

variable {moves : Ghost → (request : interface.Request) → interface.Reply request → Ghost → Prop}
  {moment : interface.Request → Ghost → Prop} {post : Outcome Error Value → Ghost → Prop}
  {ghost : Ghost}

/-- A watched request: the watch allows it, and the rest of the program meets the watch wherever
the reply moves it. -/
theorem holds_watch_await {request : interface.Request}
    {resume : interface.Reply request → Program interface Error Value} :
    Holds (watch moves) moment post (.await request resume) ghost ↔
      moment request ghost ∧ ∀ reply after, moves ghost request reply after →
        Holds (watch moves) moment post (resume reply) after := by
  rw [holds_await]
  constructor
  · exact fun hall ↦ hall ghost rfl
  · rintro hnow between rfl
    exact hnow

/-- A run of a program that meets a watch: the rest of the program meets it in a state related to
the world. -/
theorem Holds.watched {environment : Environment interface World} (related : World → Ghost → Prop)
    {program rest : Program interface Error Value} {world final : World}
    {trace : List (Exchange interface World)}
    (hprogram : Holds (watch moves) moment post program ghost)
    (hsteps : Steps environment program world trace rest final)
    (hinterferes : ∀ request before after ghost, related before ghost →
      environment.interferes request before after → related after ghost)
    (hanswers : ∀ exchange ∈ trace, ∀ next ghost, related exchange.world ghost →
      moment exchange.request ghost →
      environment.answers exchange.world exchange.request exchange.reply next →
      ∃ after, moves ghost exchange.request exchange.reply after ∧ related next after)
    (hrelated : related world ghost) :
    ∃ after, related final after ∧ Holds (watch moves) moment post rest after := by
  induction hsteps generalizing ghost with
  | refl => exact ⟨ghost, hrelated, hprogram⟩
  | interfere hinterfere _ ih =>
    exact ih hprogram hanswers (hinterferes _ _ _ _ hrelated hinterfere)
  | answer hreply _ ih =>
    obtain ⟨hnow, hresume⟩ := holds_watch_await.mp hprogram
    obtain ⟨after, hmoves, hnext⟩ := hanswers _ List.mem_cons_self _ ghost hrelated hnow hreply
    refine ih (hresume _ _ hmoves) (fun exchange hexchange ↦ ?_) hnext
    exact hanswers exchange (List.mem_cons_of_mem _ hexchange)

/-- A watch that moves in one way only, after a run: it is where the exchanges take it. -/
theorem Holds.folded {environment : Environment interface World}
    (next : Ghost → (request : interface.Request) → interface.Reply request → Ghost)
    {program rest : Program interface Error Value} {world final : World}
    {trace : List (Exchange interface World)}
    (hprogram : Holds (watch moves) moment post program ghost)
    (hsteps : Steps environment program world trace rest final)
    (hmoves : ∀ exchange ∈ trace, ∀ ghost,
      moves ghost exchange.request exchange.reply (next ghost exchange.request exchange.reply)) :
    Holds (watch moves) moment post rest
      (trace.foldl (fun ghost exchange ↦ next ghost exchange.request exchange.reply) ghost) := by
  induction hsteps generalizing ghost with
  | refl => exact hprogram
  | interfere _ _ ih => exact ih hprogram hmoves
  | answer _ _ ih =>
    obtain ⟨_, hresume⟩ := holds_watch_await.mp hprogram
    rw [List.foldl_cons]
    refine ih (hresume _ _ (hmoves _ List.mem_cons_self ghost)) fun exchange hexchange ↦ ?_
    exact hmoves exchange (List.mem_cons_of_mem _ hexchange)

/-- The requests that are not counted are allowed in a set of states, and do not leave it. -/
def ClosedUnder (moves : Ghost → (request : interface.Request) → interface.Reply request →
    Ghost → Prop)
    (moment : interface.Request → Ghost → Prop) (counted : interface.Request → Bool)
    (calm : Ghost → Prop) : Prop :=
  ∀ request, counted request = false → ∀ ghost, calm ghost →
    moment request ghost ∧ ∀ reply after, moves ghost request reply after → calm after

/-- Where a watch is after a program: in a set of states, or in one that goes with the error. -/
def EndsIn (calm : Ghost → Prop) (failed : Error → Ghost → Prop) :
    Outcome Error Value → Ghost → Prop
  | .raised error, ghost => failed error ghost
  | _, ghost => calm ghost

/-- A program without counted requests does not leave a set of states that is closed under the
other ones. -/
theorem Program.Within.holds_watch {counted : interface.Request → Bool} {calm : Ghost → Prop}
    {failed : Error → Ghost → Prop} {program : Program interface Error Value}
    (hwithin : program.Within counted 0) (hclosed : ClosedUnder moves moment counted calm)
    (hfailed : ∀ error ghost, calm ghost → failed error ghost) (hghost : calm ghost) :
    Holds (watch moves) moment (EndsIn calm failed) program ghost := by
  induction program generalizing ghost with
  | finish value => exact hghost
  | raise error => exact hfailed error ghost hghost
  | exhausted => exact hghost
  | await request resume ih =>
    by_cases hcounted : counted request = true
    · rw [Program.Within, if_pos hcounted] at hwithin
      exact absurd hwithin.1 (Nat.lt_irrefl 0)
    · rw [Program.Within, if_neg hcounted] at hwithin
      obtain ⟨hnow, hmoves⟩ := hclosed request (eq_false_of_ne_true hcounted) ghost hghost
      refine holds_watch_await.mpr ⟨hnow, fun reply after hafter ↦ ?_⟩
      exact ih reply (hwithin reply) (hmoves reply after hafter)

end Watches

end KSQLite.Suspension
