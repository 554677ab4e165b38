import KSQLite.Lifetime.Draining

/-!
# The rehydrate consumers of a store

An assignment makes a consumer where the store has none, and keeps it once it started; `aclose`
stops the one that is kept. Between the check and the keeping others run. Where a started consumer
is kept only while the store has none and no stop has come to its consumer, every consumer that was
made is stopped once the stops and the assignments have ended (`consumers_stopped`). Two
assignments that both find none leave the first of their consumers running (`overwritten_leaks`).
-/

set_option autoImplicit false
set_option relaxedAutoImplicit false

namespace KSQLite.Lifetime.Consumers

open KSQLite.Suspension

open KSQLite.Store (RunState TopicPartition)

/-! ### The ledger -/

/-- How far a call is: not resumed yet, nothing to account for, an assignment that is to keep or to
close a consumer, or a stop at its consumer, closing it, and past it. -/
inductive Stage
  | fresh
  | passing
  | holding (consumer : Resource)
  | reaping
  | taking (consumer : Resource)
  | reaped
  deriving DecidableEq

namespace Stage

/-- The stage after an exchange. -/
def move : Stage → (request : Request) → request.Reply → Stage
  | _, .construct .consumer, .ok consumer => holding consumer
  | _, .keep _, _ => passing
  | holding _, .await (.close _), _ => passing
  | _, .invoke .consumerStop, _ => reaping
  | reaping, .observe, fields => fields.consumer.elim reaped taking
  | taking _, .await (.close _), _ => reaped
  | fresh, _, _ => passing
  | stage, _, _ => stage

/-- A call holds a consumer: it keeps it or closes it. -/
def Holds (consumer : Resource) : Stage → Prop
  | holding held | taking held => held = consumer
  | _ => False

/-- The stages of a stop that has come to its consumer. -/
def Reaps : Stage → Prop
  | taking _ | reaped => True
  | _ => False

end Stage

abbrev Entries : Type := Multiset (Operation × Stage)

/-- A consumer is held by a call in flight. -/
def InHand (entries : Entries) (consumer : Resource) : Prop :=
  ∃ entry ∈ entries, entry.2.Holds consumer

/-- The operations that hold consumers. -/
def Handles : Operation → Prop
  | .stop | .assign _ => True
  | _ => False

/-- What the entries say of a store. -/
structure Kept (world : World) (entries : Entries) : Prop where
  held : world.fields.held ≠ none
  notNew : world.fields.runState ≠ .new
  /-- Every consumer that was made is closed, kept or held. -/
  made : ∀ number < world.made .consumer, .made .consumer number ∈ world.shut ∨
    world.fields.consumer = some (.made .consumer number) ∨
    InHand entries (.made .consumer number)
  /-- A stop that came to the consumer closes it. -/
  reaped : .invoked .consumerStop ∈ world.history → ∀ consumer,
    world.fields.consumer = some consumer → consumer ∈ world.shut ∨ InHand entries consumer
  reaps : ∀ entry ∈ entries, entry.2.Reaps → .invoked .consumerStop ∈ world.history
  role : ∀ entry ∈ entries, ∀ consumer, entry.2.Holds consumer → Handles entry.1

/-- A started consumer is kept only while there is none and no stop has come to the consumer, and
no stop is cancelled while it waits. -/
def Unraced (world : World) : (request : Request) → request.Reply → Prop
  | .keep _, _ => world.fields.consumer = none ∧ .invoked .consumerStop ∉ world.history
  | .await .drain, .error _ => False
  | _, _ => True

section Steps

variable {world : World} {others : Entries} {operation : Operation}

theorem inHand_cons {stage : Stage} {consumer : Resource} :
    InHand ((operation, stage) ::ₘ others) consumer ↔
      stage.Holds consumer ∨ InHand others consumer := by
  simp only [InHand, Multiset.mem_cons, exists_eq_or_imp]

/-- A call goes on: what is left to show of the ledger. -/
theorem Kept.replace {before after : Stage} {next : World}
    (hkept : Kept world ((operation, before) ::ₘ others))
    (hheld : next.fields.held = world.fields.held) (hnew : next.fields.runState ≠ .new)
    (hmade : ∀ number < next.made .consumer, .made .consumer number ∈ next.shut ∨
      next.fields.consumer = some (.made .consumer number) ∨
      after.Holds (.made .consumer number) ∨ InHand others (.made .consumer number))
    (hreaped : .invoked .consumerStop ∈ next.history → ∀ consumer,
      next.fields.consumer = some consumer →
      consumer ∈ next.shut ∨ after.Holds consumer ∨ InHand others consumer)
    (hreaps : after.Reaps → .invoked .consumerStop ∈ next.history)
    (hhistory : .invoked .consumerStop ∈ world.history → .invoked .consumerStop ∈ next.history)
    (hrole : ∀ consumer, after.Holds consumer → Handles operation) :
    Kept next ((operation, after) ::ₘ others) where
  held := by
    rw [hheld]
    exact hkept.held
  notNew := hnew
  made number hnumber := by
    rw [inHand_cons]
    exact hmade number hnumber
  reaped hmark consumer hconsumer := by
    rw [inHand_cons]
    exact hreaped hmark consumer hconsumer
  reaps entry hentry hstage := by
    rcases Multiset.mem_cons.mp hentry with rfl | hother
    · exact hreaps hstage
    · exact hhistory (hkept.reaps entry (Multiset.mem_cons_of_mem hother) hstage)
  role entry hentry consumer hstage := by
    rcases Multiset.mem_cons.mp hentry with rfl | hother
    · exact hrole consumer hstage
    · exact hkept.role entry (Multiset.mem_cons_of_mem hother) consumer hstage

/-- What a ledger says with the entry of one call aside. -/
theorem Kept.made_cons {stage : Stage} (hkept : Kept world ((operation, stage) ::ₘ others))
    {number : ℕ} (hnumber : number < world.made .consumer) :
    .made .consumer number ∈ world.shut ∨
      world.fields.consumer = some (.made .consumer number) ∨
      stage.Holds (.made .consumer number) ∨ InHand others (.made .consumer number) := by
  have hmade := hkept.made number hnumber
  rwa [inHand_cons] at hmade

theorem Kept.reaped_cons {stage : Stage} (hkept : Kept world ((operation, stage) ::ₘ others))
    (hmark : .invoked .consumerStop ∈ world.history) {consumer : Resource}
    (hconsumer : world.fields.consumer = some consumer) :
    consumer ∈ world.shut ∨ stage.Holds consumer ∨ InHand others consumer := by
  have hreaped := hkept.reaped hmark consumer hconsumer
  rwa [inHand_cons] at hreaped

/-- A call goes on while the store does not change. -/
theorem Kept.pass {before after : Stage} (hkept : Kept world ((operation, before) ::ₘ others))
    (hholds : ∀ consumer, before.Holds consumer → consumer ∈ world.shut ∨ after.Holds consumer)
    (hreaps : after.Reaps → .invoked .consumerStop ∈ world.history)
    (hrole : ∀ consumer, after.Holds consumer → Handles operation) :
    Kept world ((operation, after) ::ₘ others) := by
  refine hkept.replace rfl hkept.notNew (fun number hnumber ↦ ?_)
    (fun hmark consumer hconsumer ↦ ?_) hreaps id hrole
  · rcases hkept.made_cons hnumber with hshut | hkeeps | hbefore | hothers
    · exact Or.inl hshut
    · exact Or.inr (Or.inl hkeeps)
    · exact (hholds _ hbefore).imp_right fun hafter ↦ Or.inr (Or.inl hafter)
    · exact Or.inr (Or.inr (Or.inr hothers))
  · rcases hkept.reaped_cons hmark hconsumer with hshut | hbefore | hothers
    · exact Or.inl hshut
    · exact (hholds _ hbefore).imp_right Or.inl
    · exact Or.inr (Or.inr hothers)

/-- A call that is resumed holds nothing yet. -/
theorem Kept.resume (hkept : Kept world ((operation, .fresh) ::ₘ others)) :
    Kept world ((operation, .passing) ::ₘ others) :=
  hkept.pass (fun _ ↦ False.elim) False.elim fun _ ↦ False.elim

/-- More is closed. -/
theorem Kept.close {entries : Entries} (hkept : Kept world entries) (resource : Resource) :
    Kept (world.close resource) entries where
  held := hkept.held
  notNew := hkept.notNew
  made number hnumber := (hkept.made number hnumber).imp_left Finset.mem_insert_of_mem
  reaped hmark consumer hconsumer :=
    (hkept.reaped hmark consumer hconsumer).imp_left Finset.mem_insert_of_mem
  reaps := hkept.reaps
  role := hkept.role

/-- The phase changes, or something happens that does not concern the consumer. -/
theorem Kept.onward {entries : Entries} {next : World} (hkept : Kept world entries)
    (hmade : next.made = world.made) (hshut : next.shut = world.shut)
    (hheld : next.fields.held = world.fields.held)
    (hconsumer : next.fields.consumer = world.fields.consumer)
    (hnew : next.fields.runState ≠ .new)
    (hhistory : .invoked .consumerStop ∈ next.history ↔ .invoked .consumerStop ∈ world.history) :
    Kept next entries where
  held := hheld ▸ hkept.held
  notNew := hnew
  made := by
    rw [hmade, hshut, hconsumer]
    exact hkept.made
  reaped := by
    rw [hhistory, hshut, hconsumer]
    exact hkept.reaped
  reaps := by
    rw [hhistory]
    exact hkept.reaps
  role := hkept.role

/-- A stop comes to the consumer: it closes the one that is kept. -/
theorem kept_reap (hkept : Kept world ((.stop, .passing) ::ₘ others)) :
    Kept (world.mark (.invoked .consumerStop))
      ((.stop, world.fields.consumer.elim .reaped .taking) ::ₘ others) := by
  have hmark : .invoked .consumerStop ∈ (world.mark (.invoked .consumerStop)).history :=
    List.mem_append_right _ (List.mem_singleton_self _)
  refine hkept.replace rfl hkept.notNew (fun number hnumber ↦ ?_)
    (fun _ consumer hconsumer ↦ ?_) (fun _ ↦ hmark) (fun _ ↦ hmark) fun _ _ ↦ trivial
  · rcases hkept.made_cons hnumber with hshut | hkeeps | hbefore | hothers
    · exact Or.inl hshut
    · exact Or.inr (Or.inl hkeeps)
    · exact hbefore.elim
    · exact Or.inr (Or.inr (Or.inr hothers))
  · have hfield : world.fields.consumer = some consumer := hconsumer
    rw [hfield]
    exact Or.inr (Or.inl rfl)

/-- The consumer that a call holds is closed. -/
theorem kept_closed {before after : Stage} {consumer : Resource}
    (hkept : Kept world ((operation, before) ::ₘ others))
    (hbefore : ∀ held, before.Holds held → held = consumer)
    (hafter : ∀ held, after.Holds held → before.Holds held) (hreaps : after.Reaps → before.Reaps) :
    Kept (world.close consumer) ((operation, after) ::ₘ others) := by
  refine (hkept.close consumer).pass (fun held hholds ↦ Or.inl ?_) (fun hstage ↦ ?_)
    fun held hholds ↦ ?_
  · rw [hbefore held hholds]
    exact Finset.mem_insert_self _ _
  · exact hkept.reaps _ (Multiset.mem_cons_self _ _) (hreaps hstage)
  · exact hkept.role _ (Multiset.mem_cons_self _ _) held (hafter held hholds)

/-- A stop that closed the consumer drops it. -/
theorem kept_drop (hkept : Kept world ((operation, .reaped) ::ₘ others)) :
    Kept (world.keep none) ((operation, .reaped) ::ₘ others) := by
  have hmark := hkept.reaps _ (Multiset.mem_cons_self _ _) trivial
  refine hkept.replace rfl hkept.notNew (fun number hnumber ↦ ?_) (fun _ _ ↦ nofun)
    (fun _ ↦ hmark) id fun _ ↦ False.elim
  rcases hkept.made_cons hnumber with hshut | hkeeps | hbefore | hothers
  · exact Or.inl hshut
  · rcases hkept.reaped_cons hmark hkeeps with hshut | hbefore | hothers
    · exact Or.inl hshut
    · exact hbefore.elim
    · exact Or.inr (Or.inr (Or.inr hothers))
  · exact hbefore.elim
  · exact Or.inr (Or.inr (Or.inr hothers))

/-- An assignment makes a consumer. -/
theorem kept_construct (hkept : Kept world ((operation, .passing) ::ₘ others))
    (hrole : Handles operation) :
    Kept (world.construct .consumer)
      ((operation, .holding (.made .consumer (world.made .consumer))) ::ₘ others) := by
  refine hkept.replace rfl hkept.notNew (fun number hnumber ↦ ?_)
    (fun hmark consumer hconsumer ↦ ?_) False.elim id fun _ _ ↦ hrole
  · have hlt : number < world.made .consumer + 1 := by
      simpa [World.construct] using hnumber
    by_cases hlast : number = world.made .consumer
    · subst hlast
      exact Or.inr (Or.inr (Or.inl rfl))
    · have hearlier : number < world.made .consumer := by omega
      rcases hkept.made_cons hearlier with hshut | hkeeps | hbefore | hothers
      · exact Or.inl hshut
      · exact Or.inr (Or.inl hkeeps)
      · exact hbefore.elim
      · exact Or.inr (Or.inr (Or.inr hothers))
  · rcases hkept.reaped_cons hmark hconsumer with hshut | hbefore | hothers
    · exact Or.inl hshut
    · exact hbefore.elim
    · exact Or.inr (Or.inr hothers)

/-- An assignment keeps the consumer it started, where there is none and no stop has come to it. -/
theorem kept_keep {consumer : Resource}
    (hkept : Kept world ((operation, .holding consumer) ::ₘ others))
    (hnone : world.fields.consumer = none) (hmark : .invoked .consumerStop ∉ world.history) :
    Kept (world.keep (some consumer)) ((operation, .passing) ::ₘ others) := by
  refine hkept.replace rfl hkept.notNew (fun number hnumber ↦ ?_)
    (fun hmarked _ _ ↦ absurd hmarked hmark) False.elim id fun _ ↦ False.elim
  rcases hkept.made_cons hnumber with hshut | hkeeps | hbefore | hothers
  · exact Or.inl hshut
  · cases hnone.symm.trans hkeeps
  · exact Or.inr (Or.inl (congrArg some hbefore))
  · exact Or.inr (Or.inr (Or.inr hothers))

end Steps

/-! ### The programs -/

/-- The ledger of the consumers. -/
def consumerLedger : Ledger requests Failure Unit World Operation Stage where
  fresh := .fresh
  move := Stage.move
  allows _ stage
    | .await (.close consumer) => ∀ held, stage.Holds held → held = consumer
    | _ => True
  ends _ stage
    | .exhausted => True
    | _ => ∀ consumer, ¬ stage.Holds consumer
  kept := Kept

/-- The surroundings of one call. -/
abbrev surroundings (operation : Operation) : Environment requests (View World Operation Stage) :=
  consumerLedger.beside (environment Unraced) Suspends operation

/-- A call that agrees with its stage. -/
abbrev Agrees (operation : Operation) (stage : Stage) (program : Coroutine Unit) : Prop :=
  consumerLedger.Keeps (environment Unraced) Suspends operation stage program

section Programs

variable {world : World} {others : Entries} {operation : Operation} {settings : Settings}

/-- A call that holds nothing, however it ends. -/
def Settled (operation : Operation) (stage : Stage) (view : View World Operation Stage) : Prop :=
  view.stage = stage ∧ Kept view.world ((operation, stage) ::ₘ view.others)

/-- A call that is settled may end. -/
theorem Settled.ended {stage : Stage} {view : View World Operation Stage}
    (hsettled : Settled operation stage view) (hstage : ∀ consumer, ¬ stage.Holds consumer)
    (outcome : Outcome Failure Unit) : consumerLedger.Ended operation outcome view := by
  obtain ⟨rfl, hkept⟩ := hsettled
  refine ⟨?_, hkept⟩
  cases outcome with
  | exhausted => trivial
  | _ => exact hstage

/-- A call that is refused: nothing changes. -/
theorem holds_refused {failure : Failure} (hkept : Kept world ((operation, .fresh) ::ₘ others)) :
    Holds (surroundings operation) (consumerLedger.Moment Suspends operation)
      (consumerLedger.Ended operation) (.raise failure : Coroutine Unit)
      ⟨world, .passing, others⟩ :=
  ⟨fun _ ↦ id, hkept.resume⟩

/-- A store that was started is not started again. -/
theorem agrees_start : Agrees .start .fresh (start settings) := by
  intro world others hkept
  refine Ledger.holds_instant (not_suspends (by simp)) trivial ?_
  rintro fields next ⟨_, rfl, rfl⟩
  change Holds _ _ _ (if next.fields.runState ≠ .new then _ else _) _
  rw [if_pos hkept.notNew]
  exact holds_refused hkept

theorem agrees_append : Agrees .append .fresh append := by
  intro world others hkept
  refine Ledger.holds_instant (not_suspends (by simp)) trivial ?_
  rintro fields next ⟨_, rfl, rfl⟩
  change Holds _ _ _ ((if next.fields.runState ≠ .running then _ else _) >>= _) _
  have hleft (world : World) (others : Entries)
      (hkept : Kept world ((.append, .passing) ::ₘ others)) :
      Kept world.leave ((.append, .passing) ::ₘ others) :=
    hkept.onward rfl rfl rfl rfl hkept.notNew (by simp [World.leave, World.mark, World.onFields])
  split_ifs
  · exact holds_refused hkept
  · refine Ledger.holds_instant (not_suspends (by simp)) trivial ?_
    rintro ⟨⟩ entered ⟨_, rfl⟩
    have hentered : Kept next.enter ((.append, .passing) ::ₘ others) :=
      hkept.resume.onward rfl rfl rfl rfl hkept.notNew
        (by simp [World.enter, World.mark, World.onFields])
    refine Ledger.holds_suspended ⟨_, rfl⟩ trivial hentered ?_
    intro before entries reply answered _ _ between rest hbetween
    rcases reply with trouble | value
    · refine Ledger.holds_instant (not_suspends (by simp)) trivial ?_
      rintro ⟨⟩ final ⟨_, rfl⟩
      exact ⟨fun _ ↦ id, hleft _ _ hbetween⟩
    · refine Ledger.holds_instant (not_suspends (by simp)) trivial ?_
      rintro ⟨⟩ final ⟨_, rfl⟩
      exact ⟨fun _ ↦ id, hleft _ _ hbetween⟩

/-- An assignment gets a consumer: it keeps the one it makes, or closes it. -/
theorem holds_getConsumer (hrole : Handles operation)
    (hkept : Kept world ((operation, .passing) ::ₘ others)) :
    Holds (surroundings operation) (consumerLedger.Moment Suspends operation)
      (fun _ ↦ Settled operation .passing) getConsumer ⟨world, .passing, others⟩ := by
  refine Ledger.holds_instant (not_suspends (by simp)) trivial ?_
  rintro fields next ⟨_, rfl, rfl⟩
  change Holds _ _ _ (if next.fields.consumer.isNone then _ else _) _
  split_ifs
  · refine Ledger.holds_instant (not_suspends (by simp)) trivial ?_
    rintro (trouble | consumer) made ⟨_, heffect⟩
    · obtain rfl : made = next := heffect
      exact ⟨rfl, hkept⟩
    · obtain ⟨rfl, rfl⟩ : consumer = .made .consumer (next.made .consumer) ∧
        made = next.construct .consumer := heffect
      refine Ledger.holds_suspended ⟨_, rfl⟩ trivial (kept_construct hkept hrole) ?_
      intro before entries reply answered _ _ started rest hstarted
      rcases reply with trouble | value
      · refine Ledger.holds_suspended ⟨_, rfl⟩ (fun _ hheld ↦ hheld.symm) hstarted ?_
        intro before entries reply answered _ _ closed rest hclosed
        rcases reply with (_ | _ | _) | value <;> exact ⟨rfl, hclosed⟩
      · refine Ledger.holds_instant (not_suspends (by simp)) trivial ?_
        rintro ⟨⟩ final ⟨⟨hnone, hmark⟩, rfl⟩
        exact ⟨rfl, kept_keep hstarted hnone hmark⟩
  · exact ⟨rfl, hkept⟩

theorem holds_assignAll (hrole : Handles operation) (assigned : List TopicPartition)
    (hkept : Kept world ((operation, .passing) ::ₘ others)) :
    Holds (surroundings operation) (consumerLedger.Moment Suspends operation)
      (fun _ ↦ Settled operation .passing) (assignAll assigned) ⟨world, .passing, others⟩ := by
  induction assigned generalizing world others with
  | nil => exact ⟨rfl, hkept⟩
  | cons tp rest ih =>
    have hrehydrate (world : World) (others : Entries)
        (hkept : Kept world ((operation, .passing) ::ₘ others)) :
        Holds (surroundings operation) (consumerLedger.Moment Suspends operation)
          (fun _ ↦ Settled operation .passing) (perform .rehydrate) ⟨world, .passing, others⟩ := by
      refine Ledger.holds_suspended ⟨_, rfl⟩ trivial hkept ?_
      intro before entries reply answered _ _ next others hnext
      rcases reply with trouble | value <;> exact ⟨rfl, hnext⟩
    have hone : Holds (surroundings operation) (consumerLedger.Moment Suspends operation)
        (fun _ ↦ Settled operation .passing) assignOne ⟨world, .passing, others⟩ := by
      refine (hrehydrate _ _ hkept).bind ?_ (fun _ _ ↦ id) fun _ ↦ id
      rintro ⟨⟩ ⟨before, stage, entries⟩ ⟨rfl, hbefore⟩
      refine (holds_getConsumer hrole hbefore).bind ?_ (fun _ _ ↦ id) fun _ ↦ id
      rintro ⟨⟩ ⟨after, stage, entries⟩ ⟨rfl, hafter⟩
      exact hrehydrate _ _ hafter
    refine hone.bind ?_ (fun _ _ ↦ id) fun _ ↦ id
    rintro ⟨⟩ ⟨next, stage, entries⟩ ⟨rfl, hnext⟩
    exact ih hnext

theorem agrees_assign {assigned : List TopicPartition} :
    Agrees (.assign assigned) .fresh (onPartitionsAssigned assigned) := by
  intro world others hkept
  refine Ledger.holds_instant (not_suspends (by simp)) trivial ?_
  rintro fields next ⟨_, rfl, rfl⟩
  change Holds _ _ _ ((if next.fields.runState ≠ .running then _ else _) >>= _) _
  split_ifs
  · exact holds_refused hkept
  · have hrole : Handles (.assign assigned) := trivial
    refine (holds_assignAll hrole assigned hkept.resume).mono (fun _ _ ↦ id) ?_
    exact fun outcome view hsettled ↦ hsettled.ended (fun _ ↦ id) outcome

/-- The stage of a stop with the close steps that are left. -/
def stageOf (left : List CloseStep) : Stage :=
  if .consumerStop ∈ left then .passing else .reaped

theorem stageOf_holds {left : List CloseStep} {consumer : Resource} :
    ¬ (stageOf left).Holds consumer := by
  unfold stageOf
  split_ifs <;> exact id

/-- A duty of a call that holds nothing. -/
theorem kept_duty {entries : Entries} {duty : Duty} {reply : Except Trouble Unit} {next : World}
    (hkept : Kept world entries) (heffect : effect world (.await duty) reply next) :
    Kept next entries := by
  cases duty with
  | close resource => exact heffect ▸ hkept.close resource
  | drain =>
    rcases reply with trouble | value
    · exact heffect.2 ▸ hkept
    · exact heffect.2 ▸ hkept
  | _ => exact heffect ▸ hkept

/-- What a close step leaves: it is over, however it ended. -/
def Over (left : List CloseStep) :
    Outcome Failure (Except Failure Unit) → View World Operation Stage → Prop
  | .raised _, _ => False
  | _, view => Settled .stop (stageOf left) view

/-- A close step that is not that of the consumer is one duty. -/
theorem holds_close {held : Held} {step : CloseStep} {left : List CloseStep}
    (hstep : step ≠ .consumerStop) (hkept : Kept world ((.stop, stageOf left) ::ₘ others)) :
    Holds (surroundings .stop) (consumerLedger.Moment Suspends .stop)
      (Over left) (step.close held).caught ⟨world, stageOf left, others⟩ := by
  have hduty : ∃ duty, step.close held = perform duty := by
    cases step with
    | consumerStop => exact absurd rfl hstep
    | _ => exact ⟨_, rfl⟩
  obtain ⟨duty, hduty⟩ := hduty
  have hmove (reply : Except Trouble Unit) :
      (stageOf left).move (.await duty) reply = stageOf left := by
    unfold stageOf
    split_ifs <;> cases duty <;> rfl
  have hallows : consumerLedger.allows .stop (stageOf left) (.await duty) := by
    cases duty with
    | close resource => exact fun _ hholds ↦ absurd hholds stageOf_holds
    | _ => trivial
  have hsuspends : Suspends (.await duty) := ⟨duty, rfl⟩
  rw [hduty]
  refine holds_caught.mpr (Ledger.holds_suspended hsuspends hallows hkept ?_)
  intro before entries reply answered _ _ next others hnext
  have hstage : consumerLedger.move (stageOf left) (.await duty) reply = stageOf left := hmove reply
  rw [hstage] at hnext ⊢
  have hsettled : Settled .stop (stageOf left) ⟨next, stageOf left, others⟩ := ⟨rfl, hnext⟩
  rcases reply with trouble | value <;> exact hsettled

/-- The step of the consumer closes the one that is kept. -/
theorem holds_aclose (hkept : Kept world ((.stop, .passing) ::ₘ others)) :
    Holds (surroundings .stop) (consumerLedger.Moment Suspends .stop)
      (fun _ ↦ Settled .stop .reaped) aclose
      ⟨world.mark (.invoked .consumerStop), .reaping, others⟩ := by
  have hreaped := kept_reap hkept
  refine Ledger.holds_instant (not_suspends (by simp)) trivial ?_
  rintro fields next ⟨_, rfl, rfl⟩
  have hfields : (world.mark (.invoked .consumerStop)).fields = world.fields := rfl
  have hmove : consumerLedger.move Stage.reaping .observe world.fields =
    world.fields.consumer.elim .reaped .taking := rfl
  simp only [Program.bind]
  rw [hfields, hmove]
  cases hconsumer : world.fields.consumer with
  | none =>
    rw [hconsumer] at hreaped
    exact ⟨rfl, hreaped⟩
  | some consumer =>
    rw [hconsumer] at hreaped
    refine Ledger.holds_suspended ⟨_, rfl⟩ (fun _ hheld ↦ hheld.symm) hreaped ?_
    intro before entries reply answered _ _ closed rest hclosed
    rcases reply with trouble | value
    · exact ⟨rfl, hclosed⟩
    · refine Ledger.holds_instant (not_suspends (by simp)) trivial ?_
      rintro ⟨⟩ final ⟨_, rfl⟩
      exact ⟨rfl, kept_drop hclosed⟩

/-- The close steps, one after another: the consumer is closed at its own, and not before. -/
theorem holds_closeAll {held : Held} {left : List CloseStep} {first : Option Failure}
    (hleft : left.Nodup) (hkept : Kept world ((.stop, stageOf left) ::ₘ others)) :
    Holds (surroundings .stop) (consumerLedger.Moment Suspends .stop)
      (consumerLedger.Ended .stop) (closeAll held first left) ⟨world, stageOf left, others⟩ := by
  induction left generalizing first world others with
  | nil =>
    have hsettled : Settled .stop (stageOf []) ⟨world, stageOf [], others⟩ := ⟨rfl, hkept⟩
    cases first with
    | none => exact hsettled.ended (fun _ ↦ stageOf_holds) (.returned ())
    | some failure => exact hsettled.ended (fun _ ↦ stageOf_holds) (.raised failure)
  | cons step rest ih =>
    obtain ⟨hstep, hrest⟩ := List.nodup_cons.mp hleft
    rw [closeAll_cons]
    refine Ledger.holds_instant (not_suspends (by simp)) trivial ?_
    rintro ⟨⟩ next ⟨_, rfl⟩
    have hover : Holds (surroundings .stop) (consumerLedger.Moment Suspends .stop) (Over rest)
        ((step.close held).caught : Coroutine (Except Failure Unit))
        ⟨world.mark (.invoked step), (stageOf (step :: rest)).move (.invoke step) (), others⟩ := by
      by_cases hconsumer : step = .consumerStop
      · subst hconsumer
        have hbefore : stageOf (.consumerStop :: rest) = .passing :=
          if_pos List.mem_cons_self
        have hafter : stageOf rest = .reaped := if_neg hstep
        rw [hbefore] at hkept ⊢
        refine holds_caught.mpr ((holds_aclose hkept).mono (fun _ _ ↦ id) ?_)
        intro outcome view hsettled
        have hrest : Settled .stop (stageOf rest) view := by
          rw [hafter]
          exact hsettled
        cases outcome <;> exact hrest
      · have hsame : stageOf (step :: rest) = stageOf rest := by
          simp only [stageOf, List.mem_cons, Ne.symm hconsumer, false_or]
        have hmove : (stageOf rest).move (.invoke step) () = stageOf rest := by
          unfold stageOf
          split_ifs <;> cases step <;> first | rfl | exact absurd rfl hconsumer
        rw [hsame] at hkept ⊢
        rw [hmove]
        refine holds_close hconsumer (hkept.onward rfl rfl rfl rfl hkept.notNew ?_)
        simp [World.mark, Ne.symm hconsumer]
    refine hover.bind ?_ (fun _ _ hraised ↦ hraised.elim) fun view hsettled ↦ ?_
    · rintro (failure | value) ⟨final, stage, entries⟩ ⟨rfl, hfinal⟩ <;> exact ih hrest hfinal
    · exact hsettled.ended (fun _ ↦ stageOf_holds) .exhausted

/-- What a stop does once the appends are drained. -/
theorem holds_finishStop (hkept : Kept world ((.stop, .passing) ::ₘ others)) :
    Holds (surroundings .stop) (consumerLedger.Moment Suspends .stop) (consumerLedger.Ended .stop)
      finishStop ⟨world, .passing, others⟩ := by
  have hclosed : Kept (world.become .closed) ((.stop, .passing) ::ₘ others) :=
    hkept.onward rfl rfl rfl rfl (by simp [World.become, World.onFields]) Iff.rfl
  refine Ledger.holds_instant (not_suspends (by simp)) trivial ?_
  rintro ⟨⟩ closed ⟨_, rfl⟩
  refine Ledger.holds_instant (not_suspends (by simp)) trivial ?_
  rintro fields next ⟨_, rfl, rfl⟩
  obtain ⟨held, hheld⟩ := Option.ne_none_iff_exists'.mp hclosed.held
  simp only [Program.bind]
  rw [hheld]
  exact holds_closeAll (by decide) hclosed

theorem agrees_stop : Agrees .stop .fresh stop := by
  intro world others hkept
  have hpassing := hkept.resume
  refine Ledger.holds_instant (not_suspends (by simp)) trivial ?_
  rintro fields next ⟨_, rfl, rfl⟩
  simp only [Program.bind]
  cases hstate : next.fields.runState with
  | new => exact absurd hstate hkept.notNew
  | stopping | closed => exact ⟨fun _ ↦ id, hpassing⟩
  | running =>
    refine Ledger.holds_instant (not_suspends (by simp)) trivial ?_
    rintro ⟨⟩ stopping ⟨_, rfl⟩
    have hstopping : Kept (next.become .stopping) ((.stop, .passing) ::ₘ others) :=
      hpassing.onward rfl rfl rfl rfl (by simp [World.become, World.mark, World.onFields])
        (by simp [World.become, World.mark, World.onFields])
    change Holds _ _ _ (if 0 < next.fields.inFlight then _ else _) _
    split_ifs
    · refine Ledger.holds_suspended ⟨_, rfl⟩ trivial hstopping ?_
      intro before entries reply answered _ _ between rest hbetween
      rcases reply with trouble | value
      · exact ⟨fun _ ↦ id, hbetween⟩
      · exact holds_finishStop hbetween
    · exact holds_finishStop hstopping

theorem Stage.move_ne_fresh {stage : Stage} {request : Request} {reply : request.Reply} :
    stage.move request reply ≠ .fresh := by
  by_cases hstage : stage = .fresh
  · subst hstage
    cases request with
    | construct kind => cases kind <;> cases reply <;> nofun
    | invoke step => cases step <;> nofun
    | await duty => cases duty <;> nofun
    | _ => nofun
  · unfold Stage.move
    split
    case h_5 fields => cases fields.consumer <;> nofun
    all_goals first | exact hstage | nofun

/-- The ledger is sound for the calls of a store. -/
theorem consumerLedger_sound :
    consumerLedger.Sound (environment Unraced) Suspends (Operation.program settings) where
  programs operation := by
    cases operation with
    | start => exact agrees_start
    | stop => exact agrees_stop
    | append => exact agrees_append
    | assign assigned => exact agrees_assign
  starts operation world entries hkept := by
    change Kept world ((operation, .fresh) ::ₘ entries)
    refine ⟨hkept.held, hkept.notNew, fun number hnumber ↦ ?_, fun hmark consumer hconsumer ↦ ?_,
      fun entry hentry hstage ↦ ?_, fun entry hentry consumer hholds ↦ ?_⟩
    · rw [inHand_cons]
      exact (hkept.made number hnumber).imp_right (Or.imp_right Or.inr)
    · rw [inHand_cons]
      exact (hkept.reaped hmark consumer hconsumer).imp_right Or.inr
    · rcases Multiset.mem_cons.mp hentry with rfl | hother
      · exact hstage.elim
      · exact hkept.reaps entry hother hstage
    · rcases Multiset.mem_cons.mp hentry with rfl | hother
      · exact hholds.elim
      · exact hkept.role entry hother consumer hholds
  answers operation stage world others request reply next hsuspends hallows hkept hanswers := by
    obtain ⟨duty, rfl⟩ := hsuspends
    change Kept next ((operation, stage.move (.await duty) reply) ::ₘ others)
    cases duty with
    | close consumer =>
      obtain rfl : next = world.close consumer := hanswers.2
      refine kept_closed hkept hallows ?_ ?_
      · cases stage <;> first | exact fun _ ↦ id | exact fun _ ↦ False.elim
      · cases stage <;> exact id
    | _ =>
      have hnext := kept_duty hkept hanswers.2
      cases stage with
      | fresh => exact hnext.resume
      | _ => exact hnext
  drifts _ _ _ _ hsame hkept := hsame ▸ hkept
  moves _ _ _ := Stage.move_ne_fresh

end Programs

/-! ### The consumers are stopped -/

section Results

variable {settings : Settings} {held : Held} {made : Kind → ℕ} {shut : Finset Resource}
  {final : Pool requests Failure Unit World Operation}

/-- The ledger of a store that was just started, with the consumers of earlier ones closed. -/
theorem kept_started (hshut : ∀ number < made .consumer, .made .consumer number ∈ shut) :
    Kept (.started held made shut) 0 where
  held := nofun
  notNew := nofun
  made number hnumber := Or.inl (hshut number hnumber)
  reaped hmark := absurd hmark List.not_mem_nil
  reaps _ hentry := absurd hentry (Multiset.notMem_zero _)
  role _ hentry := absurd hentry (Multiset.notMem_zero _)

/-- Where a started consumer is kept only while there is none and no stop has come to the consumer,
every consumer that was made is closed once the stops and the assignments have ended. -/
theorem consumers_stopped (hshut : ∀ number < made .consumer, .made .consumer number ∈ shut)
    (hrun : Run settings Unraced (.idle (.started held made shut)) final)
    (hstop : ∃ task, (Operation.stop, task) ∈ final.tasks)
    (hended : ∀ operation task, (operation, task) ∈ final.tasks → Handles operation →
      HasEnded task) (number : ℕ) (hnumber : number < final.world.made .consumer) :
    .made .consumer number ∈ final.world.shut := by
  obtain ⟨entries, haccounted⟩ := Pool.Run.accounted hrun consumerLedger_sound
    (Pool.accounted_idle (kept_started hshut))
  have hkept : Kept final.world entries := haccounted.kept
  have hnone (consumer : Resource) : ¬ InHand entries consumer := by
    rintro ⟨⟨operation, stage⟩, hentry, hholds⟩
    obtain ⟨index, task, hget, hindex⟩ := haccounted.exists_task hentry
    have hhandles := hkept.role _ hentry consumer hholds
    rcases hended operation task (List.mem_of_getElem? hget) hhandles with rfl | ⟨failure, rfl⟩
    · exact haccounted.ends (.returned ()) hget hindex consumer hholds
    · exact haccounted.ends (.raised failure) hget hindex consumer hholds
  have hmark : .invoked .consumerStop ∈ final.world.history := by
    have hsteps := Draining.steps_of_ended hrun (fun _ _ ↦ id) hstop
      fun task htask ↦ hended .stop task htask trivial
    have hcount : final.world.history.count (.invoked .consumerStop) = 1 := by
      rw [Draining.count_invoked, hsteps]
      rfl
    exact List.count_pos_iff.mp (by omega)
  rcases hkept.made number hnumber with hclosed | hkeeps | hhand
  · exact hclosed
  · exact (hkept.reaped hmark _ hkeeps).resolve_right (hnone _)
  · exact absurd hhand (hnone _)

/-- An assignment in the sample runs. -/
def sampleAssign (partition : ℤ) : Operation := .assign [⟨"orders", partition⟩]

/-- A store that keeps a consumer and has no append in flight is stopped. -/
theorem run_stopped {allowed : World → (request : Request) → request.Reply → Prop}
    {origin : Pool requests Failure Unit World Operation} {consumer : Resource}
    {history : List Mark} {tasks : List (Operation × Coroutine Unit)}
    (hallowed : ∀ world request reply, Unraced world request reply → allowed world request reply)
    (hrun : Run sampleSettings allowed origin
      ⟨⟨⟨.running, 0, false, some sampleHeld, some consumer⟩, made, shut, history⟩, tasks, []⟩) :
    ∃ final : World, final.made = made ∧
      final.shut = insert (.made .pool 0) (insert (.made .admin 0) (insert consumer
        (insert (.made .producer 0) shut))) ∧
      Run sampleSettings allowed origin ⟨final, tasks ++ [(.stop, .finish ())], []⟩ := by
  have hplain (world : World) (request : Request) (reply : request.Reply)
      (hrequest : Unraced world request reply) : allowed world request reply :=
    hallowed world request reply hrequest
  have hstop : Burst (environment allowed) Suspends stop
      ⟨⟨.running, 0, false, some sampleHeld, some consumer⟩, made, shut, history⟩ _ _ :=
    burst_instant _ nofun (hplain _ _ _ trivial) ⟨rfl, rfl⟩
      (burst_instant () nofun (hplain _ _ _ trivial) rfl
        (burst_instant () nofun (hplain _ _ _ trivial) rfl
          (burst_instant _ nofun (hplain _ _ _ trivial) ⟨rfl, rfl⟩
            (burst_instant () nofun (hplain _ _ _ trivial) rfl burst_duty))))
  have hflush : Run sampleSettings allowed origin ⟨_, tasks ++ [(.stop, _)], []⟩ :=
    Pool.Run.launched hrun trivial trivial hstop
  have hproducer : Run sampleSettings allowed origin ⟨_, tasks ++ [(.stop, _)], []⟩ :=
    run_exchanged_last (.ok ()) hflush (hplain _ _ _ trivial) rfl
      (burst_instant () nofun (hplain _ _ _ trivial) rfl burst_duty)
  have hconsumer : Run sampleSettings allowed origin ⟨_, tasks ++ [(.stop, _)], []⟩ :=
    run_exchanged_last (.ok ()) hproducer (hplain _ _ _ trivial) rfl
      (burst_instant () nofun (hplain _ _ _ trivial) rfl
        (burst_instant _ nofun (hplain _ _ _ trivial) ⟨rfl, rfl⟩ burst_duty))
  have hadmin : Run sampleSettings allowed origin ⟨_, tasks ++ [(.stop, _)], []⟩ :=
    run_exchanged_last (.ok ()) hconsumer (hplain _ _ _ trivial) rfl
      (burst_instant () nofun (hplain _ _ _ trivial) rfl
        (burst_instant () nofun (hplain _ _ _ trivial) rfl burst_duty))
  have hpool : Run sampleSettings allowed origin ⟨_, tasks ++ [(.stop, _)], []⟩ :=
    run_exchanged_last (.ok ()) hadmin (hplain _ _ _ trivial) rfl
      (burst_instant () nofun (hplain _ _ _ trivial) rfl burst_duty)
  have hclosed : Run sampleSettings allowed origin ⟨_, tasks ++ [(.stop, .finish ())], []⟩ :=
    run_exchanged_last (.ok ()) hpool (hplain _ _ _ trivial) rfl (.stop nofun)
  exact ⟨_, rfl, rfl, hclosed⟩

/-- A store whose only assignment and only stop have ended. -/
theorem run_assigned : ∃ final : World, final.made .consumer = 1 ∧
    Run sampleSettings Unraced (.idle sampleStarted)
      ⟨final, [(sampleAssign 0, .finish ()), (.stop, .finish ())], []⟩ := by
  have hidle : Run sampleSettings Unraced (.idle sampleStarted) ⟨sampleStarted, [], []⟩ := .refl
  have hassign : Burst (environment Unraced) Suspends
      (Operation.program sampleSettings (sampleAssign 0)) sampleStarted _ _ :=
    burst_instant sampleStarted.fields nofun trivial ⟨rfl, rfl⟩ burst_duty
  have hlaunched : Run sampleSettings Unraced (.idle sampleStarted)
      ⟨_, [(sampleAssign 0, _)], []⟩ := Pool.Run.launched hidle trivial trivial hassign
  have hstarting : Run sampleSettings Unraced (.idle sampleStarted)
      ⟨_, [(sampleAssign 0, _)], []⟩ :=
    run_exchanged 0 (.ok ()) hlaunched rfl trivial rfl
      (burst_instant _ nofun trivial ⟨rfl, rfl⟩
        (burst_instant (.ok (.made .consumer 0)) nofun trivial ⟨rfl, rfl⟩ burst_duty))
  have hkept : Run sampleSettings Unraced (.idle sampleStarted)
      ⟨_, [(sampleAssign 0, _)], []⟩ :=
    run_exchanged 0 (.ok ()) hstarting rfl trivial rfl
      (burst_instant () nofun ⟨rfl, List.not_mem_nil⟩ rfl burst_duty)
  have hassigned : Run sampleSettings Unraced (.idle sampleStarted)
      ⟨_, [(sampleAssign 0, .finish ())], []⟩ :=
    run_exchanged 0 (.ok ()) hkept rfl trivial rfl (.stop nofun)
  obtain ⟨final, hmade, _, hrun⟩ := run_stopped (fun _ _ _ ↦ id) hassigned
  exact ⟨final, by rw [hmade]; rfl, hrun⟩

theorem consumers_stopped_assigned : ∃ final : World, final.made .consumer = 1 ∧
    .made .consumer 0 ∈ final.shut := by
  obtain ⟨final, hmade, hrun⟩ := run_assigned
  refine ⟨final, hmade, ?_⟩
  refine consumers_stopped (fun number hnumber ↦ absurd hnumber (Nat.not_lt_zero number)) hrun
    ⟨_, List.mem_cons_of_mem _ (List.mem_singleton_self _)⟩ ?_ 0 (by rw [hmade]; exact Nat.one_pos)
  intro operation task htask _
  rcases List.mem_pair.mp htask with hfirst | hsecond
  · exact Or.inl (Prod.mk.inj hfirst).2
  · exact Or.inl (Prod.mk.inj hsecond).2

/-- Two assignments both find no consumer, and each keeps the one it started. -/
theorem run_overwritten : ∃ final : World, final.made .consumer = 2 ∧
    .made .consumer 0 ∉ final.shut ∧ Run sampleSettings anyAnswer (.idle sampleStarted)
      ⟨final, [(sampleAssign 0, .finish ()), (sampleAssign 1, .finish ()), (.stop, .finish ())],
        []⟩ := by
  have hidle : Run sampleSettings anyAnswer (.idle sampleStarted) ⟨sampleStarted, [], []⟩ := .refl
  have hassign (partition : ℤ) : Burst (environment anyAnswer) Suspends
      (Operation.program sampleSettings (sampleAssign partition)) sampleStarted _ _ :=
    burst_instant sampleStarted.fields nofun trivial ⟨rfl, rfl⟩ burst_duty
  have hone : Run sampleSettings anyAnswer (.idle sampleStarted)
      ⟨_, [(sampleAssign 0, _)], []⟩ := Pool.Run.launched hidle trivial trivial (hassign 0)
  have hboth : Run sampleSettings anyAnswer (.idle sampleStarted)
      ⟨_, [(sampleAssign 0, _), (sampleAssign 1, _)], []⟩ :=
    Pool.Run.launched hone trivial trivial (hassign 1)
  have hfirst : Run sampleSettings anyAnswer (.idle sampleStarted)
      ⟨_, [(sampleAssign 0, _), (sampleAssign 1, _)], []⟩ :=
    run_exchanged 0 (.ok ()) hboth rfl trivial rfl
      (burst_instant _ nofun trivial ⟨rfl, rfl⟩
        (burst_instant (.ok (.made .consumer 0)) nofun trivial ⟨rfl, rfl⟩ burst_duty))
  -- The second finds none either: the first is still starting its own.
  have hsecond : Run sampleSettings anyAnswer (.idle sampleStarted)
      ⟨_, [(sampleAssign 0, _), (sampleAssign 1, _)], []⟩ :=
    run_exchanged 1 (.ok ()) hfirst rfl trivial rfl
      (burst_instant _ nofun trivial ⟨rfl, rfl⟩
        (burst_instant (.ok (.made .consumer 1)) nofun trivial ⟨rfl, rfl⟩ burst_duty))
  have hkept : Run sampleSettings anyAnswer (.idle sampleStarted)
      ⟨_, [(sampleAssign 0, _), (sampleAssign 1, _)], []⟩ :=
    run_exchanged 0 (.ok ()) hsecond rfl trivial rfl
      (burst_instant () nofun trivial rfl burst_duty)
  have hoverwritten : Run sampleSettings anyAnswer (.idle sampleStarted)
      ⟨_, [(sampleAssign 0, _), (sampleAssign 1, _)], []⟩ :=
    run_exchanged 1 (.ok ()) hkept rfl trivial rfl
      (burst_instant () nofun trivial rfl burst_duty)
  have hended : Run sampleSettings anyAnswer (.idle sampleStarted)
      ⟨_, [(sampleAssign 0, .finish ()), (sampleAssign 1, _)], []⟩ :=
    run_exchanged 0 (.ok ()) hoverwritten rfl trivial rfl (.stop nofun)
  have hassigned : Run sampleSettings anyAnswer (.idle sampleStarted)
      ⟨_, [(sampleAssign 0, .finish ()), (sampleAssign 1, .finish ())], []⟩ :=
    run_exchanged 1 (.ok ()) hended rfl trivial rfl (.stop nofun)
  obtain ⟨final, hmade, hshut, hrun⟩ := run_stopped (fun _ _ _ _ ↦ trivial) hassigned
  refine ⟨final, by rw [hmade]; rfl, ?_, hrun⟩
  rw [hshut]
  decide

/-- Two assignments that both find no consumer leave the first one's running. -/
theorem overwritten_leaks : ¬ ∀ final,
    Run sampleSettings anyAnswer (.idle sampleStarted) final →
    (∃ task, (Operation.stop, task) ∈ final.tasks) →
    (∀ operation task, (operation, task) ∈ final.tasks → HasEnded task) →
    ∀ number < final.world.made .consumer, .made .consumer number ∈ final.world.shut := by
  intro hall
  obtain ⟨final, hmade, hopen, hrun⟩ := run_overwritten
  refine hopen (hall _ hrun ⟨.finish (), by simp⟩ ?_ 0 (by rw [hmade]; exact Nat.two_pos))
  intro operation task htask
  simp only [List.mem_cons, Prod.mk.injEq, List.not_mem_nil, or_false] at htask
  rcases htask with ⟨_, htask⟩ | ⟨_, htask⟩ | ⟨_, htask⟩ <;> exact Or.inl htask

end Results

end KSQLite.Lifetime.Consumers
