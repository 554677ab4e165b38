import KSQLite.Suspension.History
import KSQLite.Suspension.Pool
import Mathlib.Data.Multiset.AddSub

/-!
# A ledger over programs in flight

Every program in flight holds an entry: its operation and a stage, which moves with the exchanges
of the program itself. A ledger is kept when the world and the entries of all programs agree. While
a program is suspended the others may do anything that keeps the ledger, so a program is proved once
for all of them: between two suspensions it runs alone, and where it suspends the ledger is kept
again (`Ledger.Keeps`). Then the ledger is kept throughout every run, and what is left of every
program in flight agrees with its entry (`Pool.Run.accounted`).
-/

set_option autoImplicit false
set_option relaxedAutoImplicit false

namespace KSQLite.Suspension

variable {interface : Interface} {Error Value World Operation Stage : Type}

/-- The stages of the programs in flight, and what the ledger says of the world. -/
structure Ledger (interface : Interface) (Error Value World Operation Stage : Type) where
  /-- The stage of a program that was not resumed yet. -/
  fresh : Stage
  move : Stage → (request : interface.Request) → interface.Reply request → Stage
  /-- The requests a program may await at a stage. -/
  allows : Operation → Stage → interface.Request → Prop
  /-- The outcomes a program may have at a stage. -/
  ends : Operation → Stage → Outcome Error Value → Prop
  kept : World → Multiset (Operation × Stage) → Prop

/-- The world as one program sees it: with its own stage and the entries of the others. -/
structure View (World Operation Stage : Type) where
  world : World
  stage : Stage
  others : Multiset (Operation × Stage)

namespace Ledger

/-- The surroundings of one program: alone between two suspensions, beside others that keep the
ledger while it is suspended. -/
def beside (ledger : Ledger interface Error Value World Operation Stage)
    (environment : Environment interface World) (suspends : interface.Request → Prop)
    (operation : Operation) : Environment interface (View World Operation Stage) where
  interferes request view next :=
    next = view ∨ suspends request ∧ next.stage = view.stage ∧
      ledger.kept next.world ((operation, next.stage) ::ₘ next.others)
  answers view request reply next :=
    ∃ world, environment.answers view.world request reply world ∧
      (¬ suspends request ∧ next = ⟨world, ledger.move view.stage request reply, view.others⟩ ∨
        suspends request ∧ next.stage = ledger.move view.stage request reply ∧
          ledger.kept next.world ((operation, next.stage) ::ₘ next.others))
  interferes_refl _ _ := Or.inl rfl
  interferes_trans := by
    rintro request first second third (rfl | ⟨hsuspends, hstage, hkept⟩) hlast
    · exact hlast
    · rcases hlast with rfl | ⟨_, hlast, hthird⟩
      · exact Or.inr ⟨hsuspends, hstage, hkept⟩
      · exact Or.inr ⟨hsuspends, hlast.trans hstage, hthird⟩

variable {ledger : Ledger interface Error Value World Operation Stage}
  {environment : Environment interface World} {suspends : interface.Request → Prop}
  {operation : Operation} {stage : Stage} {world : World}
  {others : Multiset (Operation × Stage)} {view : View World Operation Stage}

/-- Where a request is pending its stage allows it, and the ledger is kept if it suspends. -/
def Moment (ledger : Ledger interface Error Value World Operation Stage)
    (suspends : interface.Request → Prop) (operation : Operation) (request : interface.Request)
    (view : View World Operation Stage) : Prop :=
  ledger.allows operation view.stage request ∧
    (suspends request → ledger.kept view.world ((operation, view.stage) ::ₘ view.others))

/-- Where a program ends its stage goes with the outcome, and the ledger is kept. -/
def Ended (ledger : Ledger interface Error Value World Operation Stage) (operation : Operation)
    (outcome : Outcome Error Value) (view : View World Operation Stage) : Prop :=
  ledger.ends operation view.stage outcome ∧
    ledger.kept view.world ((operation, view.stage) ::ₘ view.others)

/-- A program that agrees with its stage, wherever the ledger is kept. -/
def Keeps (ledger : Ledger interface Error Value World Operation Stage)
    (environment : Environment interface World) (suspends : interface.Request → Prop)
    (operation : Operation) (stage : Stage) (program : Program interface Error Value) : Prop :=
  ∀ world others, ledger.kept world ((operation, stage) ::ₘ others) →
    Holds (ledger.beside environment suspends operation) (ledger.Moment suspends operation)
      (ledger.Ended operation) program ⟨world, stage, others⟩

/-! ### Rules -/

section Rules

variable {Result : Type} {post : Outcome Error Result → View World Operation Stage → Prop}
  {request : interface.Request}
  {resume : interface.Reply request → Program interface Error Result}

/-- A request that does not suspend is answered at once. -/
theorem holds_instant (hinstant : ¬ suspends request)
    (hallows : ledger.allows operation stage request)
    (hresume : ∀ reply next, environment.answers world request reply next →
      Holds (ledger.beside environment suspends operation) (ledger.Moment suspends operation) post
        (resume reply) ⟨next, ledger.move stage request reply, others⟩) :
    Holds (ledger.beside environment suspends operation) (ledger.Moment suspends operation) post
      (.await request resume) ⟨world, stage, others⟩ := by
  rintro between (rfl | ⟨hsuspends, _⟩)
  · refine ⟨⟨hallows, fun hsuspends ↦ absurd hsuspends hinstant⟩, ?_⟩
    rintro reply next ⟨after, hanswers, ⟨_, rfl⟩ | ⟨hsuspends, _⟩⟩
    · exact hresume reply after hanswers
    · exact absurd hsuspends hinstant
  · exact absurd hsuspends hinstant

/-- A request that suspends: the ledger is kept there, and the program goes on wherever it is kept
again. -/
theorem holds_suspended (hsuspends : suspends request)
    (hallows : ledger.allows operation stage request)
    (hkept : ledger.kept world ((operation, stage) ::ₘ others))
    (hresume : ∀ before entries reply answered,
      ledger.kept before ((operation, stage) ::ₘ entries) →
      environment.answers before request reply answered → ∀ next others,
      ledger.kept next ((operation, ledger.move stage request reply) ::ₘ others) →
      Holds (ledger.beside environment suspends operation) (ledger.Moment suspends operation) post
        (resume reply) ⟨next, ledger.move stage request reply, others⟩) :
    Holds (ledger.beside environment suspends operation) (ledger.Moment suspends operation) post
      (.await request resume) ⟨world, stage, others⟩ := by
  have hat (current : World) (entries : Multiset (Operation × Stage))
      (hcurrent : ledger.kept current ((operation, stage) ::ₘ entries)) :
      ledger.Moment suspends operation request ⟨current, stage, entries⟩ ∧
      ∀ reply next, (ledger.beside environment suspends operation).answers
        ⟨current, stage, entries⟩ request reply next →
        Holds (ledger.beside environment suspends operation) (ledger.Moment suspends operation) post
          (resume reply) next := by
    refine ⟨⟨hallows, fun _ ↦ hcurrent⟩, ?_⟩
    rintro reply ⟨next, after, others⟩ ⟨answered, hanswers, ⟨hinstant, _⟩ | ⟨_, rfl, hnext⟩⟩
    · exact absurd hsuspends hinstant
    · exact hresume _ _ reply answered hcurrent hanswers _ _ hnext
  rintro ⟨between, after, entries⟩ (hsame | ⟨_, rfl, hbetween⟩)
  · obtain ⟨rfl, rfl, rfl⟩ := View.mk.inj hsame
    exact hat _ _ hkept
  · exact hat _ _ hbetween

/-- A program of requests that leave its stage and keep the ledger. -/
theorem holds_asks {allowed : interface.Request → Prop} {program : Program interface Error Result}
    (hprogram : program.Asks allowed)
    (hallows : ∀ request, allowed request → ledger.allows operation stage request)
    (hmove : ∀ request reply, allowed request → ledger.move stage request reply = stage)
    (hkeeps : ∀ request world others reply next, allowed request →
      ledger.kept world ((operation, stage) ::ₘ others) →
      environment.answers world request reply next →
      ledger.kept next ((operation, stage) ::ₘ others))
    (hpost : ∀ outcome world others, ledger.kept world ((operation, stage) ::ₘ others) →
      post outcome ⟨world, stage, others⟩)
    (hkept : ledger.kept world ((operation, stage) ::ₘ others)) :
    Holds (ledger.beside environment suspends operation) (ledger.Moment suspends operation) post
      program ⟨world, stage, others⟩ := by
  induction program generalizing world others with
  | await request resume ih =>
    obtain ⟨hrequest, hresume⟩ := hprogram
    by_cases hsuspends : suspends request
    · refine holds_suspended hsuspends (hallows request hrequest) hkept ?_
      intro before entries reply answered _ _ next rest hnext
      rw [hmove request reply hrequest] at hnext ⊢
      exact ih reply (hresume reply) hnext
    · refine holds_instant hsuspends (hallows request hrequest) fun reply next hanswers ↦ ?_
      rw [hmove request reply hrequest]
      exact ih reply (hresume reply) (hkeeps _ _ _ _ _ hrequest hkept hanswers)
  | _ => exact hpost _ _ _ hkept

end Rules

/-! ### What is left of a program -/

section Rests

variable {program rest : Program interface Error Value}

/-- A program that rests agrees with its stage wherever the ledger is kept. -/
theorem keeps_of_rests (hprogram : Holds (ledger.beside environment suspends operation)
      (ledger.Moment suspends operation) (ledger.Ended operation) program ⟨world, stage, others⟩)
    (hrests : program.Rests suspends) :
    ledger.kept world ((operation, stage) ::ₘ others) ∧
      ledger.Keeps environment suspends operation stage program := by
  cases program with
  | finish value => exact ⟨hprogram.2, fun _ _ hkept ↦ ⟨hprogram.1, hkept⟩⟩
  | raise error => exact ⟨hprogram.2, fun _ _ hkept ↦ ⟨hprogram.1, hkept⟩⟩
  | exhausted => exact ⟨hprogram.2, fun _ _ hkept ↦ ⟨hprogram.1, hkept⟩⟩
  | await request resume =>
    have hsuspends := hrests request rfl
    refine ⟨(hprogram _ (Or.inl rfl)).1.2 hsuspends, fun next entries hkept ↦ ?_⟩
    exact Holds.interfere hprogram (Or.inr ⟨hsuspends, rfl, hkept⟩)

/-- A burst leaves what the program needs, at the stage its exchanges lead to. -/
theorem exists_stage {final : World} (hburst : Burst environment suspends program world rest final)
    (hprogram : Holds (ledger.beside environment suspends operation)
      (ledger.Moment suspends operation) (ledger.Ended operation) program ⟨world, stage, others⟩) :
    ∃ after, (after = stage ∧ rest = program ∨
        ∃ last request reply, after = ledger.move last request reply) ∧ rest.Rests suspends ∧
      Holds (ledger.beside environment suspends operation) (ledger.Moment suspends operation)
        (ledger.Ended operation) rest ⟨final, after, others⟩ := by
  induction hburst generalizing stage with
  | stop hrests => exact ⟨stage, Or.inl ⟨rfl, rfl⟩, hrests, hprogram⟩
  | @step request resume world reply next rest final hinstant hanswers _ ih =>
    have hresume := (hprogram _ (Or.inl rfl)).2 reply ⟨next,
      ledger.move stage request reply, others⟩
      ⟨next, hanswers, Or.inl ⟨hinstant, rfl⟩⟩
    obtain ⟨after, hmoved, hrests, hrest⟩ := ih hresume
    refine ⟨after, Or.inr ?_, hrests, hrest⟩
    rcases hmoved with ⟨rfl, _⟩ | hmoved
    · exact ⟨stage, request, reply, rfl⟩
    · exact hmoved

/-- A program that agrees with its stage may be answered where the ledger is kept. -/
theorem Keeps.answered {request : interface.Request} {reply : interface.Reply request}
    {resume : interface.Reply request → Program interface Error Value} {next : World}
    (hkeeps : ledger.Keeps environment suspends operation stage (.await request resume))
    (hsuspends : suspends request) (hkept : ledger.kept world ((operation, stage) ::ₘ others))
    (hanswers : environment.answers world request reply next) :
    ledger.Keeps environment suspends operation (ledger.move stage request reply)
      (resume reply) := by
  intro after entries hafter
  have hresume := (hkeeps world others hkept _ (Or.inl rfl)).2
  exact hresume reply _ ⟨next, hanswers, Or.inr ⟨hsuspends, rfl, hafter⟩⟩

end Rests

/-- What makes a ledger sound for the programs of all operations. -/
structure Sound (ledger : Ledger interface Error Value World Operation Stage)
    (environment : Environment interface World) (suspends : interface.Request → Prop)
    (program : Operation → Program interface Error Value) : Prop where
  programs : ∀ operation,
    ledger.Keeps environment suspends operation ledger.fresh (program operation)
  starts : ∀ operation world entries, ledger.kept world entries →
    ledger.kept world ((operation, ledger.fresh) ::ₘ entries)
  answers : ∀ operation stage world others request reply next, suspends request →
    ledger.allows operation stage request → ledger.kept world ((operation, stage) ::ₘ others) →
    environment.answers world request reply next →
    ledger.kept next ((operation, ledger.move stage request reply) ::ₘ others)
  drifts : ∀ request world entries next, environment.interferes request world next →
    ledger.kept world entries → ledger.kept next entries
  moves : ∀ stage request reply, ledger.move stage request reply ≠ ledger.fresh

end Ledger

/-! ### Pools -/

namespace Pool

variable {ledger : Ledger interface Error Value World Operation Stage}
  {environment : Environment interface World} {suspends : interface.Request → Prop}
  {program : Operation → Program interface Error Value}
  {admits : Event interface Operation → Pool interface Error Value World Operation → Prop}

/-- The entries of a pool: the ledger is kept, and every program in flight agrees with its entry. -/
structure Accounted (ledger : Ledger interface Error Value World Operation Stage)
    (environment : Environment interface World) (suspends : interface.Request → Prop)
    (program : Operation → Program interface Error Value)
    (pool : Pool interface Error Value World Operation)
    (entries : List (Operation × Stage)) : Prop where
  length : entries.length = pool.tasks.length
  kept : ledger.kept pool.world entries
  task : ∀ (index : ℕ) operation task, (pool.tasks)[index]? = some (operation, task) →
    ∃ stage, (entries)[index]? = some (operation, stage) ∧
      ledger.Keeps environment suspends operation stage task ∧
      (index ∉ pool.ready → task.Rests suspends) ∧
      (stage = ledger.fresh → task = program operation)

/-- The entries with one of them at the front. -/
theorem coe_set_eq {entries : List (Operation × Stage)} {index : ℕ} (hlt : index < entries.length)
    (entry : Operation × Stage) :
    ((entries.set index entry : List (Operation × Stage)) : Multiset (Operation × Stage)) =
      entry ::ₘ (entries.eraseIdx index : List (Operation × Stage)) := by
  have hset : index < (entries.set index entry).length := by simpa using hlt
  have hperm := List.getElem_cons_eraseIdx_perm hset
  rw [List.getElem_set_self, List.eraseIdx_set_eq] at hperm
  exact (Multiset.coe_eq_coe.mpr hperm).symm

theorem coe_eq {entries : List (Operation × Stage)} {index : ℕ} {entry : Operation × Stage}
    (hentry : (entries)[index]? = some entry) :
    (entries : Multiset (Operation × Stage)) =
      entry ::ₘ (entries.eraseIdx index : List (Operation × Stage)) := by
  obtain ⟨hlt, hget⟩ := List.getElem?_eq_some_iff.mp hentry
  rw [← coe_set_eq hlt entry, ← hget, List.set_getElem_self]

section Accounts

variable {pool after : Pool interface Error Value World Operation}
  {entries : List (Operation × Stage)}

/-- One program and its entry are replaced. -/
theorem Accounted.set (haccounted : Accounted ledger environment suspends program pool entries)
    {index : ℕ} {operation : Operation} {old task : Program interface Error Value} {stage : Stage}
    {world : World} {ready : List ℕ} (hget : (pool.tasks)[index]? = some (operation, old))
    (hkept : ledger.kept world
      ((operation, stage) ::ₘ (entries.eraseIdx index : List (Operation × Stage))))
    (hkeeps : ledger.Keeps environment suspends operation stage task)
    (hfresh : stage = ledger.fresh → task = program operation)
    (hrests : index ∉ ready → task.Rests suspends)
    (hready : ∀ place, place ≠ index → place ∉ ready → place ∉ pool.ready) :
    Accounted ledger environment suspends program
      ⟨world, pool.tasks.set index (operation, task), ready⟩
      (entries.set index (operation, stage)) := by
  have hlt : index < entries.length := by
    rw [haccounted.length]
    exact (List.getElem?_eq_some_iff.mp hget).1
  refine ⟨by simpa using haccounted.length, ?_, fun place other rest hother ↦ ?_⟩
  · rw [coe_set_eq hlt]
    exact hkept
  · rcases getElem?_set_cases hother with ⟨rfl, hsame⟩ | ⟨hne, hold⟩
    · obtain ⟨rfl, rfl⟩ := Prod.mk.inj hsame
      exact ⟨stage, List.getElem?_set_self hlt, hkeeps, hrests, hfresh⟩
    · obtain ⟨found, hfound, hkeeping, hresting, hstarted⟩ := haccounted.task place other rest hold
      refine ⟨found, ?_, hkeeping, fun hplace ↦ hresting (hready place hne hplace), hstarted⟩
      rwa [List.getElem?_set_ne (Ne.symm hne)]

/-- One event keeps the accounts. -/
theorem Accounted.step (hsound : ledger.Sound environment suspends program)
    (haccounted : Accounted ledger environment suspends program pool entries)
    {event : Event interface Operation}
    (hevent : Step environment suspends program event pool after) :
    ∃ entries, Accounted ledger environment suspends program after entries := by
  cases hevent with
  | @start _ operation =>
    refine ⟨entries ++ [(operation, ledger.fresh)], by simp [haccounted.length], ?_, ?_⟩
    · have hadded : ((entries ++ [(operation, ledger.fresh)] : List (Operation × Stage)) :
          Multiset (Operation × Stage)) = (operation, ledger.fresh) ::ₘ entries :=
        Multiset.coe_eq_coe.mpr (List.perm_append_singleton _ _)
      rw [hadded]
      exact hsound.starts _ _ _ haccounted.kept
    · intro index other task hget
      rcases getElem?_append_cases hget with ⟨rfl, hsame⟩ | hold
      · obtain ⟨rfl, rfl⟩ := Prod.mk.inj hsame
        refine ⟨ledger.fresh, ?_, hsound.programs other, fun hplace ↦ ?_, fun _ ↦ rfl⟩
        · rw [← haccounted.length]
          exact List.getElem?_concat_length
        · exact absurd (List.mem_append_right _ (List.mem_singleton_self _)) hplace
      · obtain ⟨stage, hstage, hkeeps, hrests, hfresh⟩ := haccounted.task index other task hold
        have hlt := (List.getElem?_eq_some_iff.mp hstage).1
        refine ⟨stage, by rwa [List.getElem?_append_left hlt], hkeeps, fun hplace ↦ ?_, hfresh⟩
        exact hrests fun hready ↦ hplace (List.mem_append_left _ hready)
  | drift hget _ hinterferes =>
    exact ⟨entries, haccounted.length, hsound.drifts _ _ _ _ hinterferes haccounted.kept,
      haccounted.task⟩
  | answer hget hidle hanswers =>
    obtain ⟨stage, hstage, hkeeps, hrests, _⟩ := haccounted.task _ _ _ hget
    have hsuspends := hrests hidle _ rfl
    have hkept := haccounted.kept
    rw [coe_eq hstage] at hkept
    have hallows := (hkeeps _ _ hkept _ (Or.inl rfl)).1.1
    refine ⟨_, haccounted.set hget (hsound.answers _ _ _ _ _ _ _ hsuspends hallows hkept hanswers)
      (hkeeps.answered hsuspends hkept hanswers)
      (fun hstill ↦ absurd hstill (hsound.moves _ _ _)) (fun hplace ↦ ?_) fun place _ hplace ↦ ?_⟩
    · exact absurd (List.mem_append_right _ (List.mem_singleton_self _)) hplace
    · exact fun hready ↦ hplace (List.mem_append_left _ hready)
  | resume hget _ hburst =>
    obtain ⟨stage, hstage, hkeeps, _, hfresh⟩ := haccounted.task _ _ _ hget
    have hkept := haccounted.kept
    rw [coe_eq hstage] at hkept
    obtain ⟨later, hmoved, hrests, hrest⟩ := Ledger.exists_stage hburst (hkeeps _ _ hkept)
    obtain ⟨hlater, hleft⟩ := Ledger.keeps_of_rests hrest hrests
    refine ⟨_, haccounted.set hget hlater hleft (fun hstill ↦ ?_) (fun _ ↦ hrests)
      fun place hne hplace hready ↦ hplace ((List.mem_erase_of_ne hne).mpr hready)⟩
    rcases hmoved with ⟨rfl, rfl⟩ | ⟨last, request, reply, hmove⟩
    · exact hfresh hstill
    · exact absurd (hmove.symm.trans hstill) (hsound.moves last request reply)

/-- A sound ledger is kept throughout every run, and what is left of every program agrees with its
entry. -/
theorem Run.accounted {origin final : Pool interface Error Value World Operation}
    (hrun : Run environment suspends program admits origin final)
    (hsound : ledger.Sound environment suspends program)
    (horigin : Accounted ledger environment suspends program origin entries) :
    ∃ entries, Accounted ledger environment suspends program final entries := by
  refine hrun.invariant (fun pool ↦ ∃ entries,
    Accounted ledger environment suspends program pool entries) ?_ ⟨entries, horigin⟩
  rintro event before after ⟨entries, hbefore⟩ _ hevent
  exact hbefore.step hsound hevent

/-- Nothing is in flight, and the ledger is kept. -/
theorem accounted_idle {world : World} (hkept : ledger.kept world 0) :
    Accounted ledger environment suspends program (idle world) [] :=
  ⟨rfl, hkept, fun _ _ _ hget ↦ by simp [idle] at hget⟩

/-- Every entry is that of a program in flight. -/
theorem Accounted.exists_task (haccounted : Accounted ledger environment suspends program pool
      entries) {operation : Operation} {stage : Stage} (hentry : (operation, stage) ∈ entries) :
    ∃ (index : ℕ) (task : _), (pool.tasks)[index]? = some (operation, task) ∧
      (entries)[index]? = some (operation, stage) := by
  obtain ⟨index, hindex⟩ := List.mem_iff_getElem?.mp hentry
  have hlt : index < pool.tasks.length := by
    rw [← haccounted.length]
    exact (List.getElem?_eq_some_iff.mp hindex).1
  obtain ⟨⟨other, task⟩, hget⟩ : ∃ entry, (pool.tasks)[index]? = some entry :=
    ⟨_, List.getElem?_eq_getElem hlt⟩
  obtain ⟨found, hfound, _⟩ := haccounted.task index _ _ hget
  obtain ⟨rfl, _⟩ := Prod.mk.inj (Option.some.inj (hfound.symm.trans hindex))
  exact ⟨index, task, hget, hindex⟩

/-- A pending request is one that the stage allows. -/
theorem Accounted.allows (haccounted : Accounted ledger environment suspends program pool entries)
    {index : ℕ} {operation : Operation} {request : interface.Request}
    {resume : interface.Reply request → Program interface Error Value}
    (hget : (pool.tasks)[index]? = some (operation, .await request resume)) :
    ∃ stage, (entries)[index]? = some (operation, stage) ∧
      ledger.allows operation stage request := by
  obtain ⟨stage, hstage, hkeeps, _⟩ := haccounted.task index _ _ hget
  have hkept := haccounted.kept
  rw [coe_eq hstage] at hkept
  exact ⟨stage, hstage, (hkeeps _ _ hkept _ (Or.inl rfl)).1.1⟩

/-- A program that ended has an outcome that goes with its stage. -/
theorem Accounted.ends (haccounted : Accounted ledger environment suspends program pool entries)
    {index : ℕ} {operation : Operation} {stage : Stage} (outcome : Outcome Error Value)
    (hget : (pool.tasks)[index]? = some (operation, outcome.program))
    (hentry : (entries)[index]? = some (operation, stage)) :
    ledger.ends operation stage outcome := by
  obtain ⟨found, hfound, hkeeps, _⟩ := haccounted.task index _ _ hget
  obtain ⟨_, rfl⟩ := Prod.mk.inj (Option.some.inj (hfound.symm.trans hentry))
  have hkept := haccounted.kept
  rw [coe_eq hfound] at hkept
  exact ((hkeeps _ _ hkept).outcome .refl).1

end Accounts

end Pool

end KSQLite.Suspension
