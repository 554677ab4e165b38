import KSQLite.Rehydrate.Runs
import KSQLite.Runs.Refusal
import KSQLite.Runs.Replays
import KSQLite.Store.Sample

/-!
# An unreadable record is never dropped

While a changelog that is only appended to holds a record of an unknown format version, no
replay-only history gets past it: at every moment the checkpoint of its partition is below its
offset and no row at or past it was inserted, a reveal as `READY` is for a captured log end at or
below it, and an assignment that fetches it raises a `RehydrateError` and leaves the database as
the last batch that committed left it (`unreadable_never_dropped`).
-/

set_option autoImplicit false
set_option relaxedAutoImplicit false

namespace KSQLite.Runs

open KSQLite.Log KSQLite.Suspension KSQLite.Store KSQLite.Rehydrate

/-- A changelog holds an entry, and its partition is held below it. -/
structure HeldAt (settings : Settings) (rows : List Row) (tp : TopicPartition)
    (entry : ℤ × Message) (world : World) : Prop where
  stored : entry ∈ (world.broker.changelogs (settings.template tp)).entries
  held : HeldBelow rows tp entry.1 world.database

/-- A reveal of a partition as `READY` is for a captured log end at or below an offset. -/
def RevealsBelow (tp : TopicPartition) (offset : ℤ) (call : Call) (world : World) : Prop :=
  call = .transaction (.ownedInsert tp) → world.memory.state.statusOf tp = some .ready →
    ∃ leo, world.memory.state.logEndOf tp = some leo ∧ leo ≤ offset

/-- What a pending call may make of a partition that is held below an offset. -/
structure Guards (settings : Settings) (rows : List Row) (tp : TopicPartition) (offset : ℤ)
    (call : Call) (world : World) : Prop where
  commits : ∀ work, call = .transaction work → ∀ committed,
    work.run settings.json world.database = .ok committed → HeldBelow rows tp offset committed
  reveals : RevealsBelow tp offset call world

variable {settings : Settings} {conditions : Conditions} {fuel : ℕ} {rows : List Row}
  {tp : TopicPartition} {entry : ℤ × Message} {world next : World}

/-- While a call is pending, others leave what is held below the entry. -/
theorem HeldAt.spares (happends : AppendsOnly conditions (settings.template tp))
    (hheld : HeldAt settings rows tp entry world) (hspares : Spares conditions world next) :
    HeldAt settings rows tp entry next := by
  refine ⟨?_, ?_⟩
  · have hstored := hheld.stored
    have hdrifts := hspares.drifts
    generalize next.broker = broker at hdrifts ⊢
    induction hdrifts with
    | refl => exact hstored
    | tail _ hdisturb ih => exact OffsetLog.Grows.mem (happends _ _ hdisturb) ih
  · refine ⟨?_, ?_⟩
    · rw [hspares.checkpoint]
      exact hheld.held.checkpoint
    · unfold Database.rowsOf
      rw [hspares.records]
      exact hheld.held.rows

/-- Wherever the assignment of a partition gets, the entry is still stored, the partition is held
below it, and so it will be after every pending call. -/
theorem heldAt_of_reaches {job : Job} (hname : job.settings.template job.tp = job.name)
    (hunreadable : Unreadable entry.2)
    (happends : AppendsOnly job.conditions (job.settings.template tp))
    (hheld : HeldAt job.settings rows tp entry world) {point : Point}
    (hreaches : Reaches job (.checking, world) (point, next)) :
    HeldAt job.settings rows tp entry next ∧
      ∀ call, Awaits job.settings job.tp job.name point call →
        Guards job.settings rows tp entry.1 call next := by
  by_cases hown : job.tp = tp
  · subst hown
    have hblocking : Blocking rows entry.1 entry.2 job point next := by
      refine hreaches.invariant (Blocking rows entry.1 entry.2 job)
        (blocking_step hunreadable (hname ▸ happends)) ⟨?_, hheld.held, trivial⟩
      unfold Job.log
      rw [← hname]
      exact hheld.stored
    refine ⟨⟨?_, hblocking.held⟩, fun call hawaits ↦ ⟨?_, ?_⟩⟩
    · rw [hname]
      exact hblocking.stored
    · rintro work rfl committed hrun
      exact hblocking.commit hunreadable hawaits hrun
    · rintro rfl hready
      obtain ⟨status, rfl⟩ := eq_revealing_of_awaits hawaits
      have hmarked : Marked job (.revealing status) next := hreaches.marked trivial
      obtain rfl := Option.some.inj (hmarked.symm.trans hready)
      exact hblocking.point
  · have hframe : Frame job.tp world next := hreaches.frame
    have hother : tp ≠ job.tp := Ne.symm hown
    have hnext : HeldBelow rows tp entry.1 next.database :=
      hheld.held.leavesAlone (hframe.leavesAlone hother)
    refine ⟨⟨?_, hnext⟩, fun call hawaits ↦ ⟨?_, ?_⟩⟩
    · refine hreaches.invariant
        (fun _ between ↦ entry ∈ (between.broker.changelogs (job.settings.template tp)).entries)
        (fun hstep hstored ↦ ?_) hheld.stored
      rcases changelogs_step hstep with hsame | hdisturb
      · rw [hsame]
        exact hstored
      · exact OffsetLog.Grows.mem (happends _ _ hdisturb) hstored
    · rintro work rfl committed hrun
      refine hnext.leavesAlone (Work.leavesAlone hrun ?_)
      cases hawaits <;> exact hother
    · rintro rfl
      cases hawaits
      exact absurd rfl hown

/-- An assignment keeps the partition held below the entry, at every moment. -/
theorem holds_assign_heldAt (hunreadable : Unreadable entry.2)
    (happends : AppendsOnly conditions (settings.template tp)) {assigned : List TopicPartition}
    (hheld : HeldAt settings rows tp entry world) :
    Holds (environment settings conditions) (AtCall (Guards settings rows tp entry.1))
      (fun _ ↦ HeldAt settings rows tp entry)
      ((Operation.assign assigned).action settings fuel) world := by
  refine Facade.holds_guarded (fun _ ↦ hheld) fun _ ↦ ?_
  refine holds_onPartitionsAssigned (HeldAt settings rows tp entry) ?_ hheld
  intro deadline source _ first entered hentered
  let job : Job := ⟨settings, conditions, source, settings.template source, deadline, fuel⟩
  have hreached {point : Point} {after : World}
      (hreaches : Reaches job (.checking, entered) (point, after)) :=
    heldAt_of_reaches rfl hunreadable happends hentered hreaches
  exact holds_assignOne job rfl
    (fun _ call _ hreaches hawaits ↦ (hreached hreaches).2 call hawaits)
    (fun _ _ _ hreaches ↦ (hreached hreaches).1) (fun _ _ _ hreaches _ ↦ (hreached hreaches).1)
    fun _ _ _ hreaches _ ↦ (hreached hreaches).1

/-- An operation that fetches is an assignment. -/
theorem exists_assign_of_fetched {operation : Operation} {other : ℤ × Message}
    {trace : List (Exchange requests World)} {rest : Action Unit}
    (hsteps : Steps (environment settings conditions) (operation.action settings fuel) world trace
      rest next) {exchange : Exchange requests World} (hexchange : exchange ∈ trace)
    (hfetched : other ∈ fetched exchange.request exchange.reply) :
    ∃ assigned, operation = .assign assigned := by
  have hmoment := (holds_footprint operation world).exchange hsteps hexchange
  obtain ⟨name, limit, hrequest⟩ := exists_getmany_of_fetched (List.ne_nil_of_mem hfetched)
  rw [hrequest] at hmoment
  have hfootprint : operation.Footprint settings conditions fuel (.getmany name limit)
    exchange.world := hmoment
  refine hfootprint.exists_assign ?_ (by simp) (by simp) (by simp)
  rintro (hinert | hempties)
  · cases hinert
  · cases hempties

/-- At every moment of an operation that appends nothing the partition is held below the entry. -/
theorem held_of_steps (hunreadable : Unreadable entry.2)
    (happends : AppendsOnly conditions (settings.template tp)) {operation : Operation}
    (hoperation : ∀ source entityKey payload, operation ≠ .append source entityKey payload)
    {trace : List (Exchange requests World)} {rest : Action Unit}
    (hheld : HeldAt settings rows tp entry world)
    (hsteps : Steps (environment settings conditions) (operation.action settings fuel) world trace
      rest next) :
    HeldBelow rows tp entry.1 next.database ∧
      ∀ call resume, rest = @Program.await requests Error Unit (.call call) resume →
        RevealsBelow tp entry.1 call next := by
  by_cases hassign : ∃ assigned, operation = .assign assigned
  · obtain ⟨assigned, rfl⟩ := hassign
    have hholds : Holds (environment settings conditions) (AtCall (Guards settings rows tp entry.1))
        (fun _ ↦ HeldAt settings rows tp entry)
        ((Operation.assign assigned).action settings fuel) world :=
      holds_assign_heldAt hunreadable happends hheld
    constructor
    · refine related_of_steps
        (fun before after ↦ HeldBelow rows tp entry.1 before → HeldBelow rows tp entry.1 after)
        (fun _ hbefore ↦ hbefore) (fun hfirst hsecond hbefore ↦ hsecond (hfirst hbefore)) hsteps ?_
        hheld.held
      intro exchange hexchange commit hcommitted after hrun hbefore
      have hmoment := hholds.exchange hsteps hexchange
      rw [request_of_committed hcommitted] at hmoment
      cases commit with
      | work work => exact hmoment.commits work rfl after hrun
      | deleteAllOwned =>
        cases hrun
        exact ⟨hbefore.checkpoint, hbefore.rows⟩
    · rintro call resume rfl
      exact (hholds.pending hsteps).reveals
  · have hspares := spares_of_steps hoperation (fun assigned h ↦ hassign ⟨assigned, h⟩) hsteps
    refine ⟨(hheld.spares happends hspares).held, ?_⟩
    rintro call resume rfl rfl _
    have hfootprint : operation.Footprint settings conditions fuel (.transaction (.ownedInsert tp))
      next := (holds_footprint operation world).pending hsteps
    refine absurd (hfootprint.exists_assign ?_ (by simp) (by simp) (by simp)) hassign
    rintro (hinert | hempties)
    · cases hinert
    · cases hempties

/-- What is kept of an unreadable record at every moment of an operation. -/
structure NeverDropped (rows : List Row) (tp : TopicPartition) (entry : ℤ × Message)
    (trace : List (Exchange requests World)) (rest : Action Unit) (world : World) : Prop where
  held : HeldBelow rows tp entry.1 world.database
  reveals : ∀ call resume, rest = @Program.await requests Error Unit (.call call) resume →
    RevealsBelow tp entry.1 call world
  refuses : ∀ exchange ∈ trace, entry ∈ fetched exchange.request exchange.reply →
    world.database = exchange.world.database ∧ Refuses entry rest

/-- A record with a valid message id and no format version. -/
def unversioned : Message where
  key := none
  value := none
  headers := [("message_id", some Sample.first.messageId.toUTF8)]

/-- A running store over a changelog that holds it. -/
def overUnversioned : World :=
  Sample.world .empty (Sample.broker (OffsetLog.empty.push unversioned) none)

theorem unreadable_unversioned : Unreadable unversioned := by
  refine ⟨⟨Sample.first.messageId.toUTF8, Sample.first.messageId, ?_, fromUTF8?_toUTF8 _, ?_⟩, ?_⟩
  · simp [headerOf, unversioned]
  · exact Sample.isUUID_messageId (List.mem_cons_self)
  · simp [headerOf, unversioned, List.lookup_cons]

/-- An assignment of the partition raises. -/
theorem exists_raise_unversioned : ∃ (trace : List (Exchange requests World)) (error : Error)
    (final : World), Steps (environment Sample.settings Sample.calm)
      ((Operation.assign [Sample.orders]).action Sample.settings 1) overUnversioned trace
      (.raise error) final := by
  have htrivial (request : Request) (between : World) :
      AtCall (fun _ _ ↦ True) request between := by
    cases request <;> trivial
  have hraises : ¬ Holds (environment Sample.settings Sample.calm) (AtCall fun _ _ ↦ True)
      (fun outcome _ ↦ ¬ ∃ error, outcome = .raised error)
      ((Operation.assign [Sample.orders]).action Sample.settings 1) overUnversioned := by
    intro hholds
    have htemplate : Sample.settings.template Sample.orders = Sample.changelog := rfl
    have hname : changelogName Sample.settings Sample.orders =
        .ok (Sample.settings.template Sample.orders) := by
      have hlegal : isTopicName Sample.changelog = true := by decide +kernel
      simp [changelogName, htemplate, hlegal]
    have hshows : Sample.calm.shows 0 := trivial
    obtain ⟨checked, hdatabase, hbroker, _, _, hrehydrate⟩ := exists_rehydrate hshows hname
      (Finset.mem_singleton_self _) rfl (Facade.action_of_guarded rfl hholds)
    rw [htemplate] at hrehydrate
    have hcheckpoint : checked.database.checkpoint Sample.orders = none := by
      rw [hdatabase]
      rfl
    have hlog : checked.broker.changelogs Sample.changelog = OffsetLog.empty.push unversioned := by
      rw [hbroker]
      exact Sample.broker_changelogs _ _
    obtain ⟨opened, _, hsame, _, hfetch, hloop⟩ := exists_opened (by simp [hcheckpoint]) hrehydrate
    have hopened : opened.broker.changelogs Sample.changelog =
      OffsetLog.empty.push unversioned := hsame ▸ hlog
    have hfetches : Fetches opened Sample.changelog 2 [(0, unversioned)] (opened.seek 1) := by
      refine ⟨0, (0, unversioned), ?_, ?_, ⟨by decide, by decide, ?_⟩, rfl, rfl⟩
      · rw [hfetch, hlog, hcheckpoint]
        rfl
      · rw [hopened]
        decide
      · rw [hopened]
        exact List.prefix_refl _
    obtain ⟨error, hrefuses⟩ : ∃ error, Raises Sample.settings Sample.calm (opened.seek 1)
        (.transaction (.materializeBatch Sample.orders [(0, unversioned)] 0)) error := by
      cases hrun : (Work.materializeBatch Sample.orders [(0, unversioned)] 0).run
          Sample.settings.json (opened.seek 1).database with
      | error raised => exact ⟨_, Or.inr ⟨raised, hrun, rfl⟩⟩
      | ok committed =>
        exact absurd hrun (not_run_of_unreadable (List.mem_singleton_self _) unreadable_unversioned)
    rw [hlog, hcheckpoint] at hloop
    exact post_of_refused (by decide) trivial hfetches rfl hrefuses hloop ⟨_, rfl⟩
  obtain ⟨trace, outcome, final, hsteps, hraised⟩ := exists_steps htrivial hraises
  obtain ⟨error, rfl⟩ := not_not.mp hraised
  exact ⟨trace, error, final, hsteps⟩

end KSQLite.Runs
