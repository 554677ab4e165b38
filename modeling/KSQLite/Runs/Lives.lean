import KSQLite.Rehydrate.Mirroring
import KSQLite.Runs.Replays

/-!
# Lives of a store

A `Life` is what happens to one database: operations one after another, each run to its end or cut
off at any moment by a crash, after which the store is constructed anew over the same database.
What an invariant of lives needs (`Life.invariant`) is a property of cut-off runs:
`invariant_of_calls` reads it off the calls an operation awaits. All that a cut-off append may have
done is `Attempted` (`attempted_of_steps`): nothing, or it drew and perhaps produced one record, or
it applied that record where it was acknowledged.
-/

set_option autoImplicit false
set_option relaxedAutoImplicit false

namespace KSQLite.Store

open KSQLite.Log KSQLite.Suspension KSQLite.Rehydrate

/-- A store that is constructed anew over the database of an old one. -/
def World.restarted (world : World) : World := { world with memory := .new }

/-- Operations of a store one after another, each run to its end or cut off by a crash, while others
act on the broker. -/
inductive Life (settings : Settings) (conditions : Conditions) (fuel : ℕ)
    (admits : Operation → World → World → Prop) (origin : World) : World → Prop
  | origin : Life settings conditions fuel admits origin origin
  | drift {before broker} : Life settings conditions fuel admits origin before →
      conditions.disturbs before.broker broker →
      Life settings conditions fuel admits origin (before.drift broker)
  | finish {before after operation trace} {outcome : Outcome Error Unit} :
      Life settings conditions fuel admits origin before →
      Steps (environment settings conditions) (operation.action settings fuel) before trace
        outcome.program after →
      admits operation before after → Life settings conditions fuel admits origin after
  | crash {before after operation trace} {rest : Action Unit} :
      Life settings conditions fuel admits origin before →
      Steps (environment settings conditions) (operation.action settings fuel) before trace rest
        after →
      admits operation before after → Life settings conditions fuel admits origin after.restarted

section Invariants

variable {settings : Settings} {conditions : Conditions} {condition : Call → World → Prop}
  {world final : World} {fuel : ℕ}

/-- What every cut-off run of an operation keeps, what others keep, and what does not depend on
the memory, holds after every life. -/
theorem Life.invariant {admits : Operation → World → World → Prop} {origin : World}
    (hlife : Life settings conditions fuel admits origin final) (invariant : World → Prop)
    (hdisturb : ∀ before broker, invariant before → conditions.disturbs before.broker broker →
      invariant (before.drift broker))
    (hoperation : ∀ operation before after trace (rest : Action Unit), invariant before →
      Steps (environment settings conditions) (operation.action settings fuel) before trace rest
        after → admits operation before after → invariant after)
    (hrestart : ∀ before, invariant before → invariant before.restarted)
    (horigin : invariant origin) : invariant final := by
  induction hlife with
  | origin => exact horigin
  | drift _ hstep ih => exact hdisturb _ _ ih hstep
  | finish _ hsteps hadmits ih => exact hoperation _ _ _ _ _ ih hsteps hadmits
  | crash _ hsteps hadmits ih => exact hrestart _ (hoperation _ _ _ _ _ ih hsteps hadmits)

/-- What holds at every pending call and after every call that succeeds holds wherever a run
gets, if it does not depend on the memory. -/
theorem invariant_of_calls {Value : Type} {program rest : Action Value}
    {post : Outcome Error Value → World → Prop} {trace : List (Exchange requests World)}
    (invariant : World → Prop)
    (hholds : Holds (environment settings conditions) (AtCall condition) post program world)
    (hstart : invariant world)
    (hpending : ∀ call between, condition call between → invariant between)
    (hsucceeds : ∀ call between (value : call.Result) next, condition call between →
      Succeeds settings conditions between call value next → invariant next)
    (hsame : ∀ between next, next.database = between.database → next.broker = between.broker →
      between.minted ⊆ next.minted → invariant between → invariant next)
    (hsteps : Steps (environment settings conditions) program world trace rest final) :
    invariant final := by
  refine hholds.invariant invariant hstart ?_ ?_ hsteps
  · intro request before between hbefore hinterferes hmoment
    cases request with
    | call call => exact hpending call between hmoment
    | _ =>
      obtain rfl := eq_of_interferes (by simp) hinterferes
      exact hbefore
  · intro request between reply next hbetween hmoment hanswers
    cases request with
    | clock | observe =>
      obtain ⟨_, rfl⟩ := hanswers
      exact hbetween
    | remember update =>
      subst hanswers
      exact hsame between _ rfl rfl (Finset.Subset.refl _) hbetween
    | newMessageId =>
      obtain ⟨_, _, rfl⟩ := hanswers
      exact hsame between _ rfl rfl (Finset.subset_insert _ _) hbetween
    | call call =>
      cases reply with
      | error error =>
        obtain ⟨_, rfl⟩ := hanswers
        exact hpending call _ hmoment
      | ok value => exact hsucceeds call between value next hmoment hanswers

/-- What others do they may do while any call is awaited. -/
theorem settles_of_drifts {call : Call} {broker after : Broker}
    (hdrifts : Drifts conditions broker after) : Settles conditions call broker after := by
  induction hdrifts with
  | refl => exact .refl
  | tail _ hdisturb ih => exact ih.tail (.disturb hdisturb)

/-- A call that succeeds leaves the changelogs alone and draws no message id. -/
theorem spared_of_succeeds {call : Call} {value : call.Result} {next : World}
    (hsucceeds : Succeeds settings conditions world call value next) :
    next.broker.changelogs = world.broker.changelogs ∧ next.minted = world.minted := by
  cases call with
  | endOffset name | beginningOffset name | listTopics | selectCheckpoint tp =>
    rw [hsucceeds.2]
    exact ⟨rfl, rfl⟩
  | sendAndWait name message =>
    rw [hsucceeds.1]
    exact ⟨rfl, rfl⟩
  | startConsumer | stopConsumer | describeConfigs name | startProducer | stopProducer
  | startAdmin | closeAdmin | closePool =>
    obtain rfl : next = world := hsucceeds
    exact ⟨rfl, rfl⟩
  | seekToBeginning name =>
    obtain rfl : next = _ := hsucceeds
    exact ⟨rfl, rfl⟩
  | getmany name limit =>
    rcases hsucceeds with ⟨_, hnothing⟩ | ⟨_, _, _, _, _, _, _, rfl⟩
    · obtain ⟨idlePolls, rfl⟩ := hnothing.exists_idlePolls
      exact ⟨rfl, rfl⟩
    · exact ⟨rfl, rfl⟩
  | createTopic name retention =>
    rcases hsucceeds with ⟨_, rfl⟩ | ⟨_, _, _, rfl, _⟩
    · exact ⟨rfl, rfl⟩
    · exact ⟨rfl, rfl⟩
  | transaction work =>
    obtain ⟨_, _, rfl⟩ := hsucceeds
    exact ⟨rfl, rfl⟩
  | migrate step =>
    cases step with
    | deleteAllOwned | createSchema | reconcile =>
      obtain rfl : next = _ := hsucceeds
      exact ⟨rfl, rfl⟩

/-- A call that succeeds leaves the database as it was, or commits a work, or empties `_owned`. -/
theorem database_cases {call : Call} {value : call.Result} {next : World}
    (hsucceeds : Succeeds settings conditions world call value next) :
    next.database = world.database ∨
      (∃ work, call = .transaction work ∧
        work.run settings.json world.database = .ok next.database) ∨
      call = .migrate .deleteAllOwned := by
  have hcommitted := database_of_succeeds hsucceeds
  unfold Committed at hcommitted
  cases hcommit : committed (⟨world, .call call, .ok value⟩ : Exchange requests World) with
  | none =>
    rw [hcommit] at hcommitted
    exact Or.inl hcommitted
  | some commit =>
    rw [hcommit] at hcommitted
    have hrequest := request_of_committed hcommit
    cases commit with
    | work work =>
      have hcall : Request.call call = .call (.transaction work) := hrequest
      exact Or.inr (Or.inl ⟨work, Request.call.inj hcall, hcommitted⟩)
    | deleteAllOwned =>
      have hcall : Request.call call = .call (.migrate .deleteAllOwned) := hrequest
      exact Or.inr (Or.inr (Request.call.inj hcall))

end Invariants

/-! ### Message ids -/

section Minted

variable {settings : Settings} {conditions : Conditions} {world next : World}

/-- A message id that was drawn stays drawn. -/
theorem minted_of_answers {request : Request} {reply : request.Reply}
    (hanswers : answers settings conditions world request reply next) :
    world.minted ⊆ next.minted := by
  cases request with
  | clock | observe =>
    obtain ⟨_, rfl⟩ := hanswers
    exact Finset.Subset.refl _
  | remember update =>
    subst hanswers
    exact Finset.Subset.refl _
  | newMessageId =>
    obtain ⟨_, _, rfl⟩ := hanswers
    exact Finset.subset_insert _ _
  | call call =>
    cases reply with
    | error error =>
      obtain ⟨_, rfl⟩ := hanswers
      exact Finset.Subset.refl _
    | ok value => exact (spared_of_succeeds hanswers).2.superset

theorem minted_of_steps {Value : Type} {program rest : Action Value}
    {trace : List (Exchange requests World)}
    (hsteps : Steps (environment settings conditions) program world trace rest next) :
    world.minted ⊆ next.minted := by
  induction hsteps with
  | refl => exact Finset.Subset.refl _
  | interfere hinterferes _ ih =>
    obtain ⟨broker, _, rfl⟩ := hinterferes
    exact ih
  | answer hanswers _ ih => exact (minted_of_answers hanswers).trans ih

end Minted

/-! ### Assignments -/

section Assignments

variable {settings : Settings} {conditions : Conditions} {assigned : List TopicPartition}
  {world after : World} {fuel : ℕ}

/-- What holds at the calls of an assignment: it got there from a world with an invariant. -/
def AssignCalls (settings : Settings) (conditions : Conditions) (invariant : World → Prop)
    (fuel : ℕ) (assigned : List TopicPartition) (call : Call) (between : World) : Prop :=
  ∃ source ∈ assigned, ∃ deadline entered point, invariant entered ∧
    Reaches ⟨settings, conditions, source, settings.template source, deadline, fuel⟩
      (.checking, entered) (point, between) ∧
    Awaits settings source (settings.template source) point call

/-- An assignment keeps what the machine keeps. -/
theorem holds_assignCalls (invariant : World → Prop)
    (hreplay : ∀ source deadline entered point between, invariant entered →
      Reaches ⟨settings, conditions, source, settings.template source, deadline, fuel⟩
        (.checking, entered) (point, between) → invariant between)
    (hworld : invariant world) :
    Holds (environment settings conditions)
      (AtCall (AssignCalls settings conditions invariant fuel assigned))
      (fun _ ↦ invariant) ((Operation.assign assigned).action settings fuel) world := by
  refine Facade.holds_guarded (fun _ ↦ hworld) fun _ ↦ ?_
  refine holds_onPartitionsAssigned invariant ?_ hworld
  intro deadline source hsource first entered hentered
  let job : Job := ⟨settings, conditions, source, settings.template source, deadline, fuel⟩
  refine holds_assignOne job rfl ?_ (fun _ _ _ hreaches ↦ hreplay _ _ _ _ _ hentered hreaches)
    (fun _ _ _ hreaches _ ↦ hreplay _ _ _ _ _ hentered hreaches)
    fun _ _ _ hreaches _ ↦ hreplay _ _ _ _ _ hentered hreaches
  exact fun point call between hreaches hawaits ↦
    ⟨source, hsource, deadline, entered, point, hentered, hreaches, hawaits⟩

/-- What the machine keeps holds wherever an assignment is cut off. -/
theorem invariant_of_assign (invariant : World → Prop)
    (hreplay : ∀ source deadline entered point between, invariant entered →
      Reaches ⟨settings, conditions, source, settings.template source, deadline, fuel⟩
        (.checking, entered) (point, between) → invariant between)
    (hcongr : ∀ between next, next.database = between.database →
      next.broker.changelogs = between.broker.changelogs → between.minted ⊆ next.minted →
      invariant between → invariant next)
    (hworld : invariant world) {trace : List (Exchange requests World)} {rest : Action Unit}
    (hsteps : Steps (environment settings conditions)
      ((Operation.assign assigned).action settings fuel) world trace rest after) :
    invariant after := by
  refine invariant_of_calls invariant (holds_assignCalls invariant hreplay hworld) hworld ?_ ?_ ?_
    hsteps
  · rintro call between ⟨source, _, deadline, entered, point, hentered, hreaches, _⟩
    exact hreplay _ _ _ _ _ hentered hreaches
  · rintro call between value next ⟨source, _, deadline, entered, point, hentered, hreaches,
      hawaits⟩ hsucceeds
    obtain ⟨hchangelogs, hsame⟩ := spared_of_succeeds hsucceeds
    have hminted := hsame.superset
    rcases database_cases hsucceeds with hsame | ⟨work, rfl, hrun⟩ | rfl
    · exact hcongr _ _ hsame hchangelogs hminted (hreplay _ _ _ _ _ hentered hreaches)
    · obtain ⟨later, reached, hlater, hdatabase, hbroker⟩ :=
        exists_reaches_of_run hreaches hawaits hrun
      have hreached := hreplay _ _ _ _ _ hentered hlater
      have hdrawn : reached.minted ⊆ next.minted := by
        rw [(Reaches.frame hlater).minted, ← (Reaches.frame hreaches).minted]
        exact hminted
      refine hcongr _ _ hdatabase.symm ?_ hdrawn hreached
      rw [hchangelogs, hbroker]
    · cases hawaits
  · exact fun _ _ hdatabase hbroker hminted ↦
      hcongr _ _ hdatabase (congrArg Broker.changelogs hbroker) hminted

end Assignments

/-! ### Appends -/

section Appends

variable {settings : Settings} {conditions : Conditions} {source : TopicPartition}
  {entityKey : EntityKey} {payload : Payload} {before after : World} {fuel : ℕ}

/-- The record of an append was acknowledged where it landed last, and applied. -/
structure Applied (settings : Settings) (conditions : Conditions) (source : TopicPartition)
    (before : World) (record : KsqliteRecord) (offset : ℤ) (acked : Broker) (after : World) :
    Prop where
  settles : Settles conditions (.sendAndWait (settings.template source) record.message)
    before.broker acked
  nonneg : 0 ≤ offset
  landed : LandedLast (acked.changelogs (settings.template source)) record.message offset
  drifts : Drifts conditions acked after.broker
  run : before.database.applyMaterialization settings.json (record.row source offset) =
    .ok after.database

/-- What became of the broker while an append that was applied ran. -/
theorem Applied.settled {record : KsqliteRecord} {offset : ℤ} {acked : Broker}
    (happlied : Applied settings conditions source before record offset acked after) :
    Settles conditions (.sendAndWait (settings.template source) record.message) before.broker
      after.broker :=
  happlied.settles.trans (settles_of_drifts happlied.drifts)

/-- The record of an append was drawn, and produced or not, but not applied. -/
structure Unapplied (settings : Settings) (conditions : Conditions) (source : TopicPartition)
    (before : World) (record : KsqliteRecord) (after : World) : Prop where
  settles : Settles conditions (.sendAndWait (settings.template source) record.message)
    before.broker after.broker
  database : after.database = before.database

/-- What an append made a record of: its arguments, and a message id that was drawn for it. -/
structure Drawn (settings : Settings) (source : TopicPartition) (entityKey : EntityKey)
    (payload : Payload) (before : World) (record : KsqliteRecord) (after : World) : Prop where
  encodes : Encodes settings source entityKey payload record
  uuid : isUUID record.messageId = true
  fresh : record.messageId ∉ before.minted
  minted : record.messageId ∈ after.minted

/-- All that an append may have done wherever it is cut off. -/
def Attempted (settings : Settings) (conditions : Conditions) (source : TopicPartition)
    (entityKey : EntityKey) (payload : Payload) (before after : World) : Prop :=
  after.database = before.database ∧ after.broker = before.broker ∨
    ∃ record, Drawn settings source entityKey payload before record after ∧
      (Unapplied settings conditions source before record after ∨
        ∃ offset acked, Applied settings conditions source before record offset acked after)

/-- Drawing message ids and changing the memory changes nothing about what an append did. -/
theorem Attempted.congr {next : World}
    (hattempted : Attempted settings conditions source entityKey payload before after)
    (hdatabase : next.database = after.database) (hbroker : next.broker = after.broker)
    (hminted : after.minted ⊆ next.minted) :
    Attempted settings conditions source entityKey payload before next := by
  rcases hattempted with ⟨hsame, hstill⟩ | ⟨record, hdrawn, hdone⟩
  · exact Or.inl ⟨hdatabase.trans hsame, hbroker.trans hstill⟩
  · refine Or.inr ⟨record, { hdrawn with minted := hminted hdrawn.minted }, ?_⟩
    rcases hdone with hunapplied | ⟨offset, acked, happlied⟩
    · exact Or.inl ⟨hbroker ▸ hunapplied.settles, hdatabase.trans hunapplied.database⟩
    · refine Or.inr ⟨offset, acked, { happlied with drifts := ?_, run := ?_ }⟩
      · rw [hbroker]
        exact happlied.drifts
      · rw [hdatabase]
        exact happlied.run

/-- What holds at the calls of an append: what it may have done so far, and the row it is about to
apply. -/
def AppendCalls (settings : Settings) (conditions : Conditions) (source : TopicPartition)
    (entityKey : EntityKey) (payload : Payload) (before : World) (call : Call) (between : World) :
    Prop :=
  ∃ record, Drawn settings source entityKey payload before record between ∧
    Unapplied settings conditions source before record between ∧
    (call = .sendAndWait (settings.template source) record.message ∨
      ∃ offset acked,
        Settles conditions (.sendAndWait (settings.template source) record.message) before.broker
          acked ∧ 0 ≤ offset ∧
        LandedLast (acked.changelogs (settings.template source)) record.message offset ∧
        Drifts conditions acked between.broker ∧
        call = .transaction (.applyMaterialization (record.row source offset)))

/-- An append produces one record, and applies it where it landed last. -/
theorem holds_appendCalls : Holds (environment settings conditions)
    (AtCall (AppendCalls settings conditions source entityKey payload before))
    (fun _ _ ↦ True) (Facade.append settings source entityKey payload) before := by
  have hmiddle : Holds (environment settings conditions)
      (AtCall (AppendCalls settings conditions source entityKey payload before)) (fun _ _ ↦ True)
      (Store.append settings source entityKey payload) before.enter := by
    have hdrawn {record : KsqliteRecord} {broker later : Broker}
        (hencodes : Encodes settings source entityKey payload record)
        (hproduced : Produced settings conditions source before.enter record broker) :
        Drawn settings source entityKey payload before record
          ((before.enter.mint record.messageId).drift later) :=
      ⟨hencodes, hproduced.uuid, hproduced.fresh, Finset.mem_insert_self _ _⟩
    refine Store.holds_append_steps (fun _ _ ↦ trivial) (fun _ _ _ ↦ trivial) ?_ ?_
    · intro record broker hencodes hproduced
      refine ⟨⟨record, hdrawn hencodes hproduced, ⟨hproduced.settles, rfl⟩, Or.inl rfl⟩, ?_⟩
      exact fun _ ↦ trivial
    · intro record broker offset later hencodes hproduced hoffset hlanded hdrifts
      have hsettles : Settles conditions
          (.sendAndWait (settings.template source) record.message) before.broker later :=
        hproduced.settles.trans (settles_of_drifts hdrifts)
      refine ⟨⟨record, hdrawn hencodes hproduced, ⟨hsettles, rfl⟩,
        Or.inr ⟨offset, broker, hproduced.settles, hoffset, hlanded, hdrifts, rfl⟩⟩, ?_, ?_⟩
      · exact fun _ ↦ trivial
      · exact fun _ _ ↦ trivial
  exact Facade.holds_append (fun _ ↦ trivial) (fun _ ↦ hmiddle) (fun _ _ ↦ trivial)
    (fun _ _ _ ↦ trivial) fun _ _ ↦ trivial

/-- Wherever an append is cut off, it did no more than produce its record and apply it. -/
theorem attempted_of_steps {trace : List (Exchange requests World)} {rest : Action Unit}
    (hsteps : Steps (environment settings conditions)
      ((Operation.append source entityKey payload).action settings fuel) before trace rest after) :
    Attempted settings conditions source entityKey payload before after := by
  refine invariant_of_calls
    (fun between ↦ Attempted settings conditions source entityKey payload before between)
    holds_appendCalls (Or.inl ⟨rfl, rfl⟩) ?_ ?_ ?_ hsteps
  · rintro call between ⟨record, hdrawn, hunapplied, _⟩
    exact Or.inr ⟨record, hdrawn, Or.inl hunapplied⟩
  · rintro call between value next ⟨record, hdrawn, hunapplied, hcall⟩ hsucceeds
    rcases hcall with rfl | ⟨offset, acked, hsettles, hoffset, hlanded, hdrifts, rfl⟩
    · obtain ⟨rfl, _⟩ := hsucceeds
      exact Or.inr ⟨record, hdrawn, Or.inl hunapplied⟩
    · obtain ⟨database, hrun, rfl⟩ := hsucceeds
      refine Or.inr ⟨record, ⟨hdrawn.encodes, hdrawn.uuid, hdrawn.fresh, hdrawn.minted⟩,
        Or.inr ⟨offset, acked, hsettles, hoffset, hlanded, hdrifts, ?_⟩⟩
      rw [← hunapplied.database]
      exact hrun
  · exact fun _ _ hdatabase hbroker hminted hattempted ↦
      hattempted.congr hdatabase hbroker hminted

/-- What follows an append of a running store that is produced and applied at once. -/
theorem post_of_append {record : KsqliteRecord} {applied : Database}
    {condition : Call → World → Prop} {post : Outcome Error Unit → World → Prop}
    (hrunning : before.memory.runState = .running)
    (hencodes : Encodes settings source entityKey payload record)
    (huuid : isUUID record.messageId = true) (hfresh : record.messageId ∉ before.minted)
    (hrun : before.database.applyMaterialization settings.json
      (record.row source (before.broker.changelogs (settings.template source)).stop) = .ok applied)
    (happend : Holds (environment settings conditions) (AtCall condition) post
      (Facade.append settings source entityKey payload) before) :
    ∃ final : World, final.database = applied ∧ post (.returned ()) final := by
  let log := before.broker.changelogs (settings.template source)
  let drawn := before.enter.mint record.messageId
  let produced := drawn.drift (drawn.broker.push (settings.template source) record.message)
  have hguarded := Facade.action_of_guarded hrunning happend
  have hentered := holds_remember.mp (holds_bind.mp hguarded)
  have hproper := holds_handle.mp (holds_bind.mp (sequel_returned.mp hentered))
  unfold Store.append at hproper
  rw [hencodes.key] at hproper
  have hvalid := sequel_returned.mp (holds_ofExcept_ok.mp (holds_bind.mp hproper))
  have hmint := holds_newMessageId.mp (holds_bind.mp hvalid) record.messageId huuid hfresh
  have hencode : encode settings.loads record.entityKey payload record.messageId = .ok record := by
    unfold encode
    rw [hencodes.payload]
    rfl
  have hencoding := holds_bind.mp (sequel_returned.mp hmint)
  rw [hencode] at hencoding
  have hencoded := sequel_returned.mp (holds_ofExcept_ok.mp hencoding)
  dsimp only at hencoded
  have hnamed := holds_bind.mp hencoded
  rw [hencodes.name] at hnamed
  have hproducing := sequel_returned.mp (holds_ofExcept_ok.mp hnamed)
  -- The broker takes the record while the produce is pending, and acknowledges it.
  have hpush : Settles conditions (.sendAndWait (settings.template source) record.message)
      drawn.broker produced.broker := .tail .refl .land
  have hlanded : LandedLast (produced.broker.changelogs (settings.template source)) record.message
      log.stop := by
    have hlog : produced.broker.changelogs (settings.template source) =
        log.push record.message := Function.update_self _ _ _
    rw [hlog]
    refine ⟨List.mem_append_right _ (List.mem_singleton_self _), fun entry hentry _ ↦ ?_⟩
    have := ((log.push record.message).bounded entry hentry).2
    exact Int.lt_add_one_iff.mp this
  have hacks : Succeeds settings conditions produced
      (.sendAndWait (settings.template source) record.message) log.stop produced :=
    ⟨rfl, Or.inl hlanded⟩
  have hacked := (holds_perform.mp (holds_mapError.mp (holds_bind.mp hproducing)) _ hpush).2.2 _ _
    hacks
  have hwriting := sequel_returned.mp hacked
  rw [if_neg (not_lt.mpr (log.start_nonneg.trans log.start_le_stop))] at hwriting
  have hcommits : Succeeds settings conditions produced
      (.transaction (.applyMaterialization (record.row source log.stop))) ()
      (produced.commit applied) := ⟨applied, hrun, rfl⟩
  have happlied := sequel_returned.mp (holds_result (holds_bind.mp hwriting) hcommits)
  have hleaving : Holds (environment settings conditions) (AtCall condition) post Facade.leave
      ((produced.commit applied).onState (·.recordApplied source log.stop)) :=
    holds_rememberState.mp happlied
  exact ⟨_, rfl, holds_remember.mp hleaving⟩

end Appends

end KSQLite.Store
