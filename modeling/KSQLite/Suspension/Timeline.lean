import Mathlib
import KSQLite.Suspension.Branches
import KSQLite.Suspension.Watch

/-!
# The requests of a run in time

`asked` lists the requests of a run in the order they were made, with the pending one at the end,
and a `Timeline` gives each the time at which it was made, so that times do not decrease and a
request that reads the clock is answered with its own time. A program is spaced when it makes no
two counted requests without a resetting exchange between them; being spaced is met as a watch
(`Spacing`), and then every run has such an exchange between two counted requests
(`exists_reset_between`).

The other results take runs apart: at a request (`exists_split_of_asked`), and into the runs of two
programs in sequence (`Steps.of_bind`).
-/

set_option autoImplicit false
set_option relaxedAutoImplicit false

namespace KSQLite.Suspension

variable {interface : Interface} {Error Value Result World : Type}

/-! ### Requests in order -/

/-- The requests of a run, in the order they were made, with the pending one at the end. -/
def asked (trace : List (Exchange interface World)) (rest : Program interface Error Value) :
    List interface.Request :=
  trace.map Exchange.request ++ rest.pending.toList

/-- The times at which the requests of a run were made. -/
structure Timeline (reads : (request : interface.Request) → interface.Reply request → Option ℤ)
    (trace : List (Exchange interface World)) (issued : ℕ → ℤ) : Prop where
  monotone : Monotone issued
  shown : ∀ index exchange reading, (trace)[index]? = some exchange →
    reads exchange.request exchange.reply = some reading → issued index = reading

section Runs

variable {environment : Environment interface World} {program rest : Program interface Error Value}
  {world final : World} {trace : List (Exchange interface World)}

/-- A run up to a request, and the run from there. -/
theorem exists_split_of_asked (hsteps : Steps environment program world trace rest final)
    {index : ℕ} {request : interface.Request} (hasked : (asked trace rest)[index]? = some request) :
    ∃ (before after : List (Exchange interface World)) (between : World)
      (resume : interface.Reply request → Program interface Error Value),
      trace = before ++ after ∧ before.length = index ∧
      Steps environment program world before (.await request resume) between ∧
      Steps environment (.await request resume) between after rest final := by
  induction hsteps generalizing index with
  | @refl program world =>
    cases program with
    | await pending resume =>
      cases index with
      | zero =>
        obtain rfl : pending = request := Option.some.inj hasked
        exact ⟨[], [], world, resume, rfl, rfl, .refl, .refl⟩
      | succ index => exact absurd hasked (by simp [asked, Program.pending])
    | finish value => exact absurd hasked (by simp [asked, Program.pending])
    | raise error => exact absurd hasked (by simp [asked, Program.pending])
    | exhausted => exact absurd hasked (by simp [asked, Program.pending])
  | interfere hinterfere _ ih =>
    obtain ⟨before, after, between, resume, htrace, hlength, hbefore, hafter⟩ := ih hasked
    exact ⟨before, after, between, resume, htrace, hlength, .interfere hinterfere hbefore, hafter⟩
  | @answer pending resume world reply next trace program final hreply hrest ih =>
    cases index with
    | zero =>
      obtain rfl : pending = request := Option.some.inj hasked
      exact ⟨[], _ :: trace, world, resume, rfl, rfl, .refl, .answer hreply hrest⟩
    | succ index =>
      have hlater : (asked trace program)[index]? = some request := hasked
      obtain ⟨before, after, between, resumed, htrace, hlength, hbefore, hafter⟩ := ih hlater
      refine ⟨_ :: before, after, between, resumed, ?_, ?_, .answer hreply hbefore, hafter⟩
      · rw [htrace]
        rfl
      · rw [List.length_cons, hlength]

/-- A run of two programs in sequence: it is still in the first one, or that returned and the run
goes on in the second one. -/
theorem Steps.of_bind {next : Value → Program interface Error Result}
    {last : Program interface Error Result}
    (hsteps : Steps environment (program >>= next) world trace last final) :
    (∃ inner, Steps environment program world trace inner final ∧ last = inner >>= next ∧
      ∀ value, inner ≠ .finish value) ∨
      ∃ value first second between, trace = first ++ second ∧
        Steps environment program world first (.finish value) between ∧
        Steps environment (next value) between second last final := by
  generalize hwhole : program >>= next = whole at hsteps
  induction hsteps generalizing program with
  | @refl last world =>
    cases program with
    | finish value => exact Or.inr ⟨value, [], [], world, rfl, .refl, hwhole ▸ .refl⟩
    | raise error => exact Or.inl ⟨.raise error, .refl, hwhole.symm, fun _ ↦ by simp⟩
    | exhausted => exact Or.inl ⟨.exhausted, .refl, hwhole.symm, fun _ ↦ by simp⟩
    | await request resume => exact Or.inl ⟨_, .refl, hwhole.symm, fun _ ↦ by simp⟩
  | @interfere request resume world between trace last final hinterfere hrest ih =>
    cases program with
    | finish value =>
      refine Or.inr ⟨value, [], trace, world, rfl, .refl, ?_⟩
      rw [show next value = .await request resume from hwhole]
      exact .interfere hinterfere hrest
    | raise error => cases hwhole
    | exhausted => cases hwhole
    | await pending first =>
      cases hwhole
      rcases @ih (.await request first) rfl with
        ⟨inner, hinner, rfl, hopen⟩ | ⟨value, one, two, middle, rfl, hone, htwo⟩
      · exact Or.inl ⟨inner, .interfere hinterfere hinner, rfl, hopen⟩
      · exact Or.inr ⟨value, one, two, middle, rfl, .interfere hinterfere hone, htwo⟩
  | @answer request resume world reply between trace last final hreply hrest ih =>
    cases program with
    | finish value =>
      refine Or.inr ⟨value, [], _ :: trace, world, rfl, .refl, ?_⟩
      rw [show next value = .await request resume from hwhole]
      exact .answer hreply hrest
    | raise error => cases hwhole
    | exhausted => cases hwhole
    | await pending first =>
      cases hwhole
      rcases @ih (first reply) rfl with
        ⟨inner, hinner, rfl, hopen⟩ | ⟨value, one, two, middle, rfl, hone, htwo⟩
      · exact Or.inl ⟨inner, .answer hreply hinner, rfl, hopen⟩
      · exact Or.inr ⟨value, _ :: one, two, middle, rfl, .answer hreply hone, htwo⟩

/-- A run of a program whose error is replaced. -/
theorem Steps.of_mapError {change : Error → Error} {last : Program interface Error Value}
    (hsteps : Steps environment (program.mapError change) world trace last final) :
    ∃ inner, Steps environment program world trace inner final ∧ last = inner.mapError change := by
  generalize hwhole : program.mapError change = whole at hsteps
  induction hsteps generalizing program with
  | refl => exact ⟨program, .refl, hwhole.symm⟩
  | @interfere request resume world between trace last final hinterfere _ ih =>
    cases program with
    | finish value => cases hwhole
    | raise error => cases hwhole
    | exhausted => cases hwhole
    | await pending first =>
      cases hwhole
      obtain ⟨inner, hinner, rfl⟩ := @ih (.await request first) rfl
      exact ⟨inner, .interfere hinterfere hinner, rfl⟩
  | @answer request resume world reply between trace last final hreply _ ih =>
    cases program with
    | finish value => cases hwhole
    | raise error => cases hwhole
    | exhausted => cases hwhole
    | await pending first =>
      cases hwhole
      obtain ⟨inner, hinner, rfl⟩ := @ih (first reply) rfl
      exact ⟨inner, .answer hreply hinner, rfl⟩

/-- A run without exchanges is where it started. -/
theorem Steps.eq_of_nil (hsteps : Steps environment program world [] rest final) :
    rest = program := by
  generalize htrace : ([] : List (Exchange interface World)) = trace at hsteps
  induction hsteps with
  | refl => rfl
  | interfere _ _ ih => exact ih htrace
  | answer _ _ _ => cases htrace

/-- A run of a program that awaits a request starts with an exchange for it. -/
theorem Steps.of_cons {request : interface.Request}
    {resume : interface.Reply request → Program interface Error Value}
    {exchange : Exchange interface World}
    (hsteps : Steps environment (.await request resume) world (exchange :: trace) rest final) :
    ∃ between reply next, exchange = ⟨between, request, reply⟩ ∧
      environment.answers between request reply next ∧
      Steps environment (resume reply) next trace rest final := by
  generalize hprogram : Program.await request resume = program at hsteps
  generalize htrace : exchange :: trace = exchanges at hsteps
  induction hsteps with
  | refl => cases htrace
  | interfere _ _ ih => exact ih hprogram htrace
  | answer hreply hrest _ =>
    cases hprogram
    cases htrace
    exact ⟨_, _, _, rfl, hreply, hrest⟩

/-- A run that got past the request a program awaits: others interfered, and it was answered. -/
theorem Steps.of_await {request : interface.Request}
    {resume : interface.Reply request → Program interface Error Value}
    (hsteps : Steps environment (.await request resume) world trace rest final)
    (hended : rest.pending = none) :
    ∃ between reply next later, environment.interferes request world between ∧
      environment.answers between request reply next ∧
      trace = ⟨between, request, reply⟩ :: later ∧
      Steps environment (resume reply) next later rest final := by
  generalize hprogram : Program.await request resume = program at hsteps
  induction hsteps with
  | refl =>
    subst hprogram
    cases hended
  | interfere hinterfere _ ih =>
    cases hprogram
    obtain ⟨between, reply, next, later, hbetween, hanswers, htrace, hlater⟩ := ih hended rfl
    exact ⟨between, reply, next, later, environment.interferes_trans hinterfere hbetween, hanswers,
      htrace, hlater⟩
  | answer hreply hrest _ =>
    cases hprogram
    exact ⟨_, _, _, _, environment.interferes_refl _ _, hreply, rfl, hrest⟩

/-- A program that raised awaits nothing. -/
theorem Steps.of_raise {error : Error}
    (hsteps : Steps environment (.raise error) world trace rest final) :
    trace = [] ∧ rest = .raise error := by
  cases hsteps
  exact ⟨rfl, rfl⟩

/-- A run in other surroundings, which allow what happened in it. -/
theorem Steps.change {other : Environment interface World}
    (hsteps : Steps environment program world trace rest final)
    (hinterferes : ∀ request before after, environment.interferes request before after →
      other.interferes request before after)
    (hanswers : ∀ exchange ∈ trace, ∀ next,
      environment.answers exchange.world exchange.request exchange.reply next →
      other.answers exchange.world exchange.request exchange.reply next) :
    Steps other program world trace rest final := by
  induction hsteps with
  | refl => exact .refl
  | interfere hinterfere _ ih => exact .interfere (hinterferes _ _ _ hinterfere) (ih hanswers)
  | answer hreply _ ih =>
    refine .answer (hanswers _ List.mem_cons_self _ hreply) (ih fun exchange hexchange ↦ ?_)
    exact hanswers exchange (List.mem_cons_of_mem _ hexchange)

end Runs

/-! ### Spaced requests -/

/-- Whether a counted request may be made. -/
inductive Spacing
  | ready
  | spent

namespace Spacing

variable {counted : interface.Request → Bool}
  {resets : (request : interface.Request) → interface.Reply request → Bool}

/-- A counted request spends, and a resetting exchange readies again. -/
def next (counted : interface.Request → Bool)
    (resets : (request : interface.Request) → interface.Reply request → Bool) (state : Spacing)
    (request : interface.Request) (reply : interface.Reply request) : Spacing :=
  if counted request then .spent else if resets request reply then .ready else state

/-- The watch: it moves to the next state. -/
def Moves (counted : interface.Request → Bool)
    (resets : (request : interface.Request) → interface.Reply request → Bool) (state : Spacing)
    (request : interface.Request) (reply : interface.Reply request) (after : Spacing) : Prop :=
  after = next counted resets state request reply

/-- Counted requests are made when ready. -/
def Moment (counted : interface.Request → Bool) (request : interface.Request) (state : Spacing) :
    Prop :=
  counted request = true → state = .ready

/-- The state after the exchanges of a run. -/
def after (counted : interface.Request → Bool)
    (resets : (request : interface.Request) → interface.Reply request → Bool) (state : Spacing)
    (trace : List (Exchange interface World)) : Spacing :=
  trace.foldl (fun state exchange ↦ next counted resets state exchange.request exchange.reply) state

/-- Without a resetting exchange what is spent stays so. -/
theorem exists_reset_of_after {trace : List (Exchange interface World)}
    (hready : after counted resets .spent trace = .ready) :
    ∃ exchange ∈ trace, resets exchange.request exchange.reply = true := by
  induction trace with
  | nil => cases hready
  | cons exchange rest ih =>
    by_cases hresets : resets exchange.request exchange.reply = true
    · exact ⟨exchange, List.mem_cons_self, hresets⟩
    · have hspent : next counted resets .spent exchange.request exchange.reply = .spent := by
        unfold next
        split_ifs <;> rfl
      have hrest : after counted resets .spent rest = .ready := by
        unfold after at hready
        rw [List.foldl_cons, hspent] at hready
        exact hready
      obtain ⟨later, hlater, hreset⟩ := ih hrest
      exact ⟨later, List.mem_cons_of_mem _ hlater, hreset⟩

end Spacing

section Spaced

variable {environment : Environment interface World} {program rest : Program interface Error Value}
  {world final : World} {trace : List (Exchange interface World)}
  {counted : interface.Request → Bool}
  {resets : (request : interface.Request) → interface.Reply request → Bool}
  {post : Outcome Error Value → Spacing → Prop}

/-- The rest of a spaced program is spaced, from the state after the run. -/
theorem Holds.spaced {state : Spacing}
    (hprogram : Holds (watch (Spacing.Moves counted resets)) (Spacing.Moment counted) post program
      state) (hsteps : Steps environment program world trace rest final) :
    Holds (watch (Spacing.Moves counted resets)) (Spacing.Moment counted) post rest
      (Spacing.after counted resets state trace) := by
  induction hsteps generalizing state with
  | refl => exact hprogram
  | interfere _ _ ih => exact ih hprogram
  | answer _ _ ih => exact ih ((holds_watch_await.mp hprogram).2 _ _ rfl)

/-- Between two counted requests of a spaced program there is a resetting exchange. -/
theorem exists_reset_between
    (hprogram : Holds (watch (Spacing.Moves counted resets)) (Spacing.Moment counted) post program
      .ready) (hsteps : Steps environment program world trace rest final) {first second : ℕ}
    (hlt : first < second) {one two : interface.Request}
    (hone : (asked trace rest)[first]? = some one) (hcountedOne : counted one = true)
    (htwo : (asked trace rest)[second]? = some two) (hcountedTwo : counted two = true) :
    ∃ index exchange, first < index ∧ index < second ∧ (trace)[index]? = some exchange ∧
      resets exchange.request exchange.reply = true := by
  obtain ⟨before, rest', between, resume, rfl, hlength, hbefore, _⟩ :=
    exists_split_of_asked hsteps htwo
  have hready : Spacing.after counted resets .ready before = .ready :=
    (holds_watch_await.mp (hprogram.spaced hbefore)).1 hcountedTwo
  -- The first counted request is an exchange before the second one.
  have hfirst : first < before.length := hlength ▸ hlt
  have hrequest : (before)[first].request = one := by
    have hmap : (asked (before ++ rest') rest)[first]? = some (before)[first].request := by
      unfold asked
      rw [List.map_append, List.append_assoc, List.getElem?_append_left (by simpa using hfirst)]
      simp [hfirst]
    exact Option.some.inj (hmap.symm.trans hone)
  have hsplit : before = before.take first ++ (before)[first] :: before.drop (first + 1) := by
    rw [← List.drop_eq_getElem_cons hfirst, List.take_append_drop]
  have hspent : Spacing.after counted resets .spent (before.drop (first + 1)) = .ready := by
    rw [hsplit] at hready
    unfold Spacing.after at hready
    rw [List.foldl_append, List.foldl_cons] at hready
    have hnext (state : Spacing) : Spacing.next counted resets state (before)[first].request
        (before)[first].reply = .spent := if_pos (hrequest ▸ hcountedOne)
    rw [hnext] at hready
    exact hready
  obtain ⟨exchange, hexchange, hreset⟩ := Spacing.exists_reset_of_after hspent
  obtain ⟨offset, hoffset, hget⟩ := List.mem_iff_getElem.mp hexchange
  have hbound : first + 1 + offset < before.length := by
    rw [List.length_drop] at hoffset
    omega
  refine ⟨first + 1 + offset, exchange, by omega, by omega, ?_, hreset⟩
  rw [List.getElem?_append_left hbound, List.getElem?_eq_getElem hbound, ← hget,
    List.getElem_drop]

end Spaced

end KSQLite.Suspension
