import KSQLite.Rehydrate.Soundness
import KSQLite.Runs.Convergence

/-!
# What an operation leaves of a partition

How each operation ends with respect to one partition: whether the store may call it `READY`, and
whether the store is truthful about it. Only an assignment that names the partition makes it
`READY`, and after one that returns the store is truthful about it. An append that returned was
applied, so its partition is still caught up; one that raised over arguments that it refuses left
everything as it was. A revocation that returned leaves none of its partitions `READY`.
-/

set_option autoImplicit false
set_option relaxedAutoImplicit false

namespace KSQLite.Runs

open KSQLite.Log KSQLite.Suspension KSQLite.Store KSQLite.Rehydrate

section Outcomes

variable {settings : Settings} {conditions : Conditions} {owner : String → TopicPartition}
  {source tp : TopicPartition} {entityKey : EntityKey} {payload : Payload}
  {before after : World} {fuel : ℕ} {outcome : Outcome Error Unit}
  {trace : List (Exchange requests World)}

/-! ### Appends -/

/-- How an append ends: it makes no partition `READY`, it was applied if it returned, and it changed
nothing if it raised over arguments that it refuses. -/
structure AppendEnds (settings : Settings) (conditions : Conditions) (source : TopicPartition)
    (entityKey : EntityKey) (payload : Payload) (before : World) (outcome : Outcome Error Unit)
    (after : World) : Prop where
  ready : ∀ tp, IsReady tp after → IsReady tp before
  applied : outcome = .returned () → ∃ record,
    Drawn settings source entityKey payload before record after ∧
      ∃ offset acked, Applied settings conditions source before record offset acked after
  refused : outcome ≠ .returned () →
    (∀ record, ¬ Encodes settings source entityKey payload record) →
    after.database = before.database ∧ after.broker = before.broker

/-- Leaving the append changes nothing about how it ends. -/
theorem AppendEnds.exit {final : World}
    (hends : AppendEnds settings conditions source entityKey payload before outcome final) :
    AppendEnds settings conditions source entityKey payload before outcome final.exit where
  ready := hends.ready
  applied hreturned := by
    obtain ⟨record, hdrawn, offset, acked, happlied⟩ := hends.applied hreturned
    exact ⟨record, ⟨hdrawn.encodes, hdrawn.uuid, hdrawn.fresh, hdrawn.minted⟩, offset, acked,
      ⟨happlied.settles, happlied.nonneg, happlied.landed, happlied.drifts, happlied.run⟩⟩
  refused := hends.refused

theorem holds_appendEnds : Holds (environment settings conditions) (AtCall fun _ _ ↦ True)
    (AppendEnds settings conditions source entityKey payload before)
    (Facade.append settings source entityKey payload) before := by
  have hraised (error : Error) {world : World}
      (hstate : world.memory.state = before.memory.state)
      (hrefused : (∀ record, ¬ Encodes settings source entityKey payload record) →
        world.database = before.database ∧ world.broker = before.broker) :
      AppendEnds settings conditions source entityKey payload before (.raised error) world := by
    refine ⟨fun tp hready ↦ ?_, fun hreturned ↦ (by cases hreturned), fun _ ↦ hrefused⟩
    unfold IsReady at hready ⊢
    rwa [hstate] at hready
  refine Facade.holds_append (fun _ ↦ hraised _ rfl fun _ ↦ ⟨rfl, rfl⟩) (fun _ ↦ ?_)
    (fun _ hends ↦ AppendEnds.exit hends) (fun _ _ hends ↦ AppendEnds.exit hends)
    fun _ hends ↦ hends
  refine Store.holds_append_steps ?_ ?_ ?_ ?_
  · exact fun error _ ↦ hraised error rfl fun _ ↦ ⟨rfl, rfl⟩
  · exact fun messageId error _ ↦ hraised error rfl fun _ ↦ ⟨rfl, rfl⟩
  · exact fun record broker hencodes _ ↦
      ⟨trivial, fun error ↦ hraised error rfl fun hnone ↦ absurd hencodes (hnone record)⟩
  · intro record broker offset later hencodes hproduced hoffset hlanded hdrifts
    refine ⟨trivial, fun error ↦ hraised error rfl fun hnone ↦ absurd hencodes (hnone record),
      fun applied hrun ↦ ⟨fun tp hready ↦ ?_, fun _ ↦ ?_, fun hnot ↦ absurd rfl hnot⟩⟩
    · by_cases htp : tp = source
      · subst htp
        exact ready_of_getD ((PartitionStateMachine.statusOf_recordApplied _).symm.trans hready)
      · have hentries : (before.memory.state.recordApplied source offset).entries tp =
            before.memory.state.entries tp := PartitionStateMachine.entries_update_of_ne _ htp
        have hsame := (PartitionStateMachine.reads_eq_of_entries_eq hentries).1
        exact hsame.symm.trans hready
    · exact ⟨record, ⟨hencodes, hproduced.uuid, hproduced.fresh, Finset.mem_insert_self _ _⟩,
        offset, broker, hproduced.settles, hoffset, hlanded, hdrifts, hrun⟩

/-- An append to another partition keeps a partition caught up. -/
theorem caughtUp_of_attempted_elsewhere (hsole : SoleWriter conditions (settings.template tp))
    (hunshared : Unshared settings source) (hother : source ≠ tp)
    (hattempted : Attempted settings conditions source entityKey payload before after)
    (hcaught : CaughtUp settings tp before) : CaughtUp settings tp after := by
  have hshares : settings.template source ≠ settings.template tp :=
    fun hsame ↦ hother (hunshared tp hsame.symm).symm
  rcases hattempted with ⟨hdatabase, hbroker⟩ | ⟨record, hdrawn, hdone⟩
  · exact hcaught.congr hdatabase (congrArg Broker.changelogs hbroker)
  · have hgrows (hsettles : Settles conditions
        (.sendAndWait (settings.template source) record.message) before.broker after.broker) :
        (changelogOf settings tp before).GrowsBy Recordless (changelogOf settings tp after) :=
      (growsBy_of_settles hsole hsettles).mono fun landed hlanded ↦
        hlanded.resolve_right fun hcopy ↦ hshares hcopy.2
    rcases hdone with hunapplied | ⟨offset, acked, happlied⟩
    · have hlog := hgrows hunapplied.settles
      refine ⟨fun entry hentry ↦ ?_, ?_⟩
      · rw [hunapplied.database]
        rcases hlog.mem hentry with hold | ⟨hnew, _⟩
        · exact hcaught.present entry hold
        · exact hnew.present
      · unfold nextReplayed
        rw [hunapplied.database]
        exact hcaught.below.grows hlog
    · have hlog := hgrows happlied.settled
      have hrun : (Work.applyMaterialization (record.row source offset)).run settings.json
          before.database = .ok after.database := happlied.run
      refine ⟨fun entry hentry ↦ ?_, ?_⟩
      · rcases hlog.mem hentry with hold | ⟨hnew, _⟩
        · exact fun found hfound ↦
            (mem_messageIds_of_applied happlied.run).mpr
              (Or.inl (hcaught.present entry hold found hfound))
        · exact hnew.present
      · unfold nextReplayed
        rw [(Work.leavesAlone hrun (Ne.symm hother)).checkpoint]
        exact hcaught.below.grows hlog

/-- A start, a revocation or a restart keeps a partition caught up. -/
theorem caughtUp_of_spares (hsole : SoleWriter conditions (settings.template tp))
    (hspares : Spares conditions before after) (hcaught : CaughtUp settings tp before) :
    CaughtUp settings tp after := by
  have hlog : (changelogOf settings tp before).GrowsBy Recordless
      (changelogOf settings tp after) := growsBy_of_drifts hsole hspares.drifts
  refine ⟨fun entry hentry ↦ ?_, ?_⟩
  · unfold Present
    rw [hspares.records]
    rcases hlog.mem hentry with hold | ⟨hnew, _⟩
    · exact hcaught.present entry hold
    · exact hnew.present
  · unfold nextReplayed
    rw [hspares.checkpoint]
    exact hcaught.below.grows hlog

/-! ### Assignments -/

/-- How an assignment ends: a truthful store stays truthful about a partition, it is truthful after
an assignment of the partition that returned, and no other assignment makes it `READY`. -/
structure AssignEnds (settings : Settings) (owner : String → TopicPartition) (tp : TopicPartition)
    (assigned : List TopicPartition) (before : World) (outcome : Outcome Error Unit)
    (after : World) : Prop where
  mirrors : Mirrors settings owner tp after
  truthful : Truthful settings tp before → Truthful settings tp after
  returned : outcome = .returned () → tp ∈ assigned → Truthful settings tp after
  ready : tp ∉ assigned → IsReady tp after → IsReady tp before

theorem holds_assignEnds {assigned : List TopicPartition}
    (hshared : Shared settings conditions owner tp) (hmirrors : Mirrors settings owner tp before) :
    Holds (environment settings conditions) (AtCall fun _ _ ↦ True)
      (AssignEnds settings owner tp assigned before)
      ((Operation.assign assigned).action settings fuel) before := by
  refine Facade.holds_guarded (fun _ ↦ ⟨hmirrors, id, fun hreturned ↦ (by cases hreturned),
    fun _ ↦ id⟩) fun _ ↦ ?_
  refine holds_assigned (fun remaining between ↦ remaining ⊆ assigned ∧
      AssignEnds settings owner tp assigned before (.raised .notRunning) between ∧
      (tp ∈ assigned → tp ∉ remaining → Truthful settings tp between)) ?_ ?_ ?_
  · rintro deadline named rest first between ⟨hremaining, hends, hdone⟩
    obtain ⟨hnamed, hrest⟩ := List.cons_subset.mp hremaining
    let job : Job := ⟨settings, conditions, named, settings.template named, deadline, fuel⟩
    have hreached {point : Point} {final : World}
        (hreaches : Reaches job (.checking, between) (point, final)) (result : Outcome Error Unit)
        (hresult : result ≠ .returned ()) :
        AssignEnds settings owner tp assigned before result final := by
      refine ⟨mirrors_of_reaches rfl hshared hends.mirrors hreaches, fun hbefore ↦
        truthful_of_reaches rfl hshared hends.mirrors (hends.truthful hbefore) hreaches,
        fun hreturned ↦ absurd hreturned hresult, fun hnot hready ↦ hends.ready hnot ?_⟩
      have hother : tp ≠ named := fun hsame ↦ hnot (hsame ▸ hnamed)
      have hentries := (Reaches.frame hreaches).entries tp hother
      exact (PartitionStateMachine.reads_eq_of_entries_eq hentries).1.symm.trans hready
    refine holds_assignOne job rfl (fun _ _ _ _ _ ↦ trivial) ?_ ?_ ?_
    · intro status value final hreaches
      refine ⟨hrest, hreached hreaches _ (by simp), fun hassigned hdropped ↦ ?_⟩
      by_cases hsame : tp = named
      · subst hsame
        exact truthful_of_revealed rfl hshared hends.mirrors hreaches
      · refine truthful_of_reaches rfl hshared hends.mirrors (hdone hassigned ?_) hreaches
        exact fun hmem ↦ (List.mem_cons.mp hmem).elim hsame hdropped
    · exact fun _ _ _ hreaches _ ↦ hreached hreaches _ (by simp)
    · exact fun _ _ _ hreaches _ ↦ hreached hreaches _ (by simp)
  · rintro final ⟨_, hends, hdone⟩
    exact ⟨hends.mirrors, hends.truthful, fun _ hassigned ↦ hdone hassigned List.not_mem_nil,
      hends.ready⟩
  · exact ⟨List.Subset.refl _,
      ⟨hmirrors, id, fun hreturned ↦ (by cases hreturned), fun _ ↦ id⟩,
      fun hassigned hnot ↦ absurd hassigned hnot⟩

/-! ### Revocations, starts and restarts -/

/-- How a revocation ends: it makes no partition `READY`, and if it returned none of its partitions
is. -/
structure RevokeEnds (revoked : List TopicPartition) (before : World) (outcome : Outcome Error Unit)
    (after : World) : Prop where
  ready : ∀ tp, IsReady tp after → IsReady tp before
  returned : outcome = .returned () → ∀ tp ∈ revoked, ¬ IsReady tp after

/-- Hiding a partition makes it and no other one anything but `READY`. -/
theorem ready_hide {world : World} (hready : IsReady tp (world.hide source)) :
    tp ≠ source ∧ IsReady tp world := by
  by_cases htp : tp = source
  · subst htp
    have hstandby : some PartitionStatus.standby = some .ready :=
      (PartitionStateMachine.statusOf_mark _).symm.trans hready
    cases hstandby
  · have hentries : (world.memory.state.markRevoked source).entries tp =
        world.memory.state.entries tp :=
      PartitionStateMachine.entries_update_of_ne
        (fun entry ↦ { entry with status := .standby }) htp
    exact ⟨htp, (PartitionStateMachine.reads_eq_of_entries_eq hentries).1.symm.trans hready⟩

theorem holds_revokeAll {revoked : List TopicPartition} :
    Holds (environment settings conditions) (AtCall fun _ _ ↦ True) (RevokeEnds revoked before)
      (Store.onPartitionsRevoked revoked) before := by
  induction revoked generalizing before with
  | nil => exact ⟨fun _ ↦ id, fun _ _ hmem ↦ absurd hmem List.not_mem_nil⟩
  | cons named rest ih =>
    refine holds_bind.mpr (holds_revokeOne.mpr ?_)
    split_ifs with hunseen
    · refine ih.mono (fun _ _ hmoment ↦ hmoment) fun outcome final hends ↦ ?_
      refine ⟨hends.ready, fun hreturned tp hmem ↦ ?_⟩
      rcases List.mem_cons.mp hmem with rfl | hlater
      · intro hready
        have hbefore := hends.ready tp hready
        unfold IsReady at hbefore
        rw [hunseen] at hbefore
        cases hbefore
      · exact hends.returned hreturned tp hlater
    · refine fun broker _ ↦ ⟨trivial, fun error _ ↦ ?_, ?_⟩
      · exact ⟨fun _ ↦ id, fun hreturned ↦ (by cases hreturned)⟩
      · refine ih.mono (fun _ _ hmoment ↦ hmoment) fun outcome final hends ↦ ?_
        refine ⟨fun tp hready ↦ (ready_hide (hends.ready tp hready)).2, fun hreturned tp hmem ↦ ?_⟩
        rcases List.mem_cons.mp hmem with rfl | hlater
        · exact fun hready ↦ (ready_hide (hends.ready tp hready)).1 rfl
        · exact hends.returned hreturned tp hlater

theorem holds_revokeEnds {revoked : List TopicPartition} :
    Holds (environment settings conditions) (AtCall fun _ _ ↦ True) (RevokeEnds revoked before)
      ((Operation.revoke revoked).action settings fuel) before :=
  Facade.holds_guarded (fun _ ↦ ⟨fun _ ↦ id, fun hreturned ↦ (by cases hreturned)⟩)
    fun _ ↦ holds_revokeAll

/-- A start makes no partition `READY`. -/
theorem holds_start_ready : Holds (environment settings conditions)
    (AtCall fun call _ ↦ Facade.Opening call)
    (fun _ final ↦ IsReady tp final → IsReady tp before)
    (Operation.start.action settings fuel) before := by
  refine Facade.holds_start (fun _ ↦ id) fun _ outcome final hstarts hready ↦ ?_
  cases outcome with
  | returned value =>
    obtain ⟨broker, _, rfl⟩ := hstarts
    cases hready
  | raised error =>
    rcases hstarts with ⟨broker, _, rfl⟩ | ⟨⟨broker, _, rfl⟩, _⟩
    · exact hready
    · exact hready
  | exhausted => exact hstarts.elim

/-- A store that was constructed anew calls no partition `READY`. -/
theorem not_ready_of_restart
    (hsteps : Steps (environment settings conditions) (Operation.restart.action settings fuel)
      before trace outcome.program after) : ¬ IsReady tp after := by
  have hholds : Holds (environment settings conditions) (AtCall fun _ _ ↦ True)
      (fun _ final ↦ ¬ IsReady tp final) (Operation.restart.action settings fuel) before :=
    holds_remember.mpr fun hready ↦ by cases hready
  exact hholds.outcome hsteps

end Outcomes

end KSQLite.Runs
