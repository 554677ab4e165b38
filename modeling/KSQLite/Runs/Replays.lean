import KSQLite.Runs.Footprint

/-!
# Replay-only histories

Histories of a store that appends nothing: it is started, assigned, revoked and restarted. Starts,
revocations and restarts leave the rows and the checkpoints alone at every moment
(`spares_of_steps`), so an invariant of the rows, the checkpoints and the broker holds after every
such history once the assignment of one partition keeps it (`replays_invariant`).
-/

set_option autoImplicit false
set_option relaxedAutoImplicit false

namespace KSQLite.Runs

open KSQLite.Suspension KSQLite.Store KSQLite.Rehydrate

/-- Nothing is appended. -/
def ReplayOnly (operation : Operation) (_ : World) (_ : Outcome Error Unit) (_ : World) : Prop :=
  ∀ source entityKey payload, operation ≠ .append source entityKey payload

/-- The rows and the checkpoints are as they were, and others acted on the broker. -/
structure Spares (conditions : Conditions) (before after : World) : Prop where
  records : after.database.records = before.database.records
  checkpoint : after.database.checkpoint = before.database.checkpoint
  drifts : Drifts conditions before.broker after.broker

theorem Spares.refl (conditions : Conditions) (world : World) : Spares conditions world world :=
  ⟨rfl, rfl, .refl⟩

theorem Spares.trans {conditions : Conditions} {first second third : World}
    (hfirst : Spares conditions first second) (hsecond : Spares conditions second third) :
    Spares conditions first third :=
  ⟨hsecond.records.trans hfirst.records, hsecond.checkpoint.trans hfirst.checkpoint,
    hfirst.drifts.trans hsecond.drifts⟩

/-- A call of a start or of a revocation: it changes nothing but `_owned`. -/
def Hides (call : Call) : Prop :=
  Facade.Opening call ∨ ∃ tp, call = .transaction (.ownedDelete tp)

variable {settings : Settings} {conditions : Conditions} {fuel : ℕ} {world next : World}

theorem Hides.settles {call : Call} (hhides : Hides call) {broker after : Broker}
    (hsettles : Settles conditions call broker after) : Drifts conditions broker after := by
  refine (settles_iff_drifts ?_).mp hsettles
  rintro name message rfl
  rcases hhides with (hinert | hempties) | ⟨tp, hdelete⟩
  · cases hinert
  · cases hempties
  · cases hdelete

/-- A call of a start or of a revocation spares the rows and the checkpoints. -/
theorem Hides.spares {call : Call} (hhides : Hides call) {value : call.Result}
    (hsucceeds : Succeeds settings conditions world call value next) :
    Spares conditions world next := by
  rcases hhides with (hinert | rfl) | ⟨tp, rfl⟩
  · have hsame : next = world := by cases hinert <;> exact hsucceeds
    exact hsame ▸ .refl conditions world
  · obtain rfl : next = _ := hsucceeds
    exact ⟨rfl, rfl, .refl⟩
  · obtain ⟨database, hrun, rfl⟩ := hsucceeds
    cases hrun
    exact ⟨rfl, rfl, .refl⟩

/-- A start, a revocation or a restart spares the rows and the checkpoints at every moment. -/
theorem spares_of_steps {operation : Operation}
    (happend : ∀ source entityKey payload, operation ≠ .append source entityKey payload)
    (hassign : ∀ assigned, operation ≠ .assign assigned) {rest : Action Unit} {final : World}
    {trace : List (Exchange requests World)}
    (hsteps : Steps (environment settings conditions) (operation.action settings fuel) world trace
      rest final) : Spares conditions world final := by
  have hhides : Holds (environment settings conditions) (AtCall fun call _ ↦ Hides call)
      (fun _ _ ↦ True) (operation.action settings fuel) world := by
    refine (holds_footprint operation world).mono ?_ fun _ _ _ ↦ trivial
    intro request between hmoment
    cases request with
    | call call =>
      cases operation with
      | start => exact Or.inl hmoment
      | append source entityKey payload => exact absurd rfl (happend _ _ _)
      | assign assigned => exact absurd rfl (hassign _)
      | revoke revoked =>
        obtain ⟨tp, _, hcall⟩ := hmoment
        exact Or.inr ⟨tp, hcall⟩
      | restart => exact absurd hmoment id
    | _ => trivial
  refine hhides.related (Spares conditions) (.refl conditions) .trans ?_ ?_ hsteps
  · intro request before after hmoment hinterferes
    cases request with
    | call call =>
      obtain ⟨broker, hmoves, rfl⟩ := hinterferes
      exact ⟨rfl, rfl, Hides.settles hmoment hmoves⟩
    | _ =>
      obtain rfl := eq_of_interferes (by simp) hinterferes
      exact .refl conditions _
  · intro request before reply after hmoment hanswers
    cases request with
    | clock | observe =>
      obtain ⟨_, rfl⟩ := hanswers
      exact .refl conditions _
    | remember update =>
      subst hanswers
      exact ⟨rfl, rfl, .refl⟩
    | newMessageId =>
      obtain ⟨_, _, rfl⟩ := hanswers
      exact ⟨rfl, rfl, .refl⟩
    | call call =>
      cases reply with
      | error error =>
        obtain ⟨_, rfl⟩ := hanswers
        exact .refl conditions _
      | ok value => exact Hides.spares hmoment hanswers

/-- An invariant of the rows, the checkpoints and the broker that the assignment of one partition
keeps holds after every replay-only history. -/
theorem replays_invariant {origin final : World}
    (hrun : Run settings conditions fuel ReplayOnly origin final) (invariant : World → Prop)
    (hspares : ∀ before after, Spares conditions before after → invariant before → invariant after)
    (hassign : ∀ deadline tp first entered, invariant entered →
      Holds (environment settings conditions) (AtCall fun _ _ ↦ True) (fun _ ↦ invariant)
        (assignOne settings fuel deadline first tp) entered)
    (horigin : invariant origin) : invariant final := by
  induction hrun with
  | refl => exact horigin
  | @step before after operation trace outcome _ hsteps hadmits hbefore =>
    cases operation with
    | assign assigned =>
      have hoperation : Holds (environment settings conditions) (AtCall fun _ _ ↦ True)
          (fun _ ↦ invariant) (Facade.onPartitionsAssigned settings fuel assigned) before := by
        refine Facade.holds_guarded (fun _ ↦ hbefore) fun _ ↦ ?_
        exact holds_onPartitionsAssigned invariant
          (fun deadline tp _ first entered ↦ hassign deadline tp first entered) hbefore
      exact hoperation.outcome hsteps
    | append source entityKey payload => exact absurd rfl (hadmits _ _ _)
    | start | revoke | restart =>
      exact hspares _ _ (spares_of_steps (by simp) (by simp) hsteps) hbefore

end KSQLite.Runs
