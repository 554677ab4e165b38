import KSQLite.Rehydrate.Folding
import KSQLite.Rehydrate.Runs
import KSQLite.Runs.Replays
import KSQLite.Store.Sample

/-!
# Replay is confluent

Over an untrimmed changelog the rows of a partition are the fold of the log up to its checkpoint
after every replay-only history from an empty database, whatever batches it replayed and whatever
failed or was given up on the way (`ReplayHistory.folded`). So two histories that end with the same
checkpoint end with the same rows, in every column (`replay_confluent`).
-/

set_option autoImplicit false
set_option relaxedAutoImplicit false

namespace KSQLite.Runs

open KSQLite.Log KSQLite.Suspension KSQLite.Store KSQLite.Rehydrate

/-- What others may do while a store replays a changelog: append to it and leave message ids with
their owners. A broker may report a consumer out of range for no reason only if nobody appends. -/
structure Undamaged (settings : Settings) (conditions : Conditions)
    (owner : String → TopicPartition) (tp : TopicPartition) : Prop where
  appends : AppendsOnly conditions (settings.template tp)
  lost : Static conditions (settings.template tp) ∨ Genuine conditions (settings.template tp)
  attributed : ∀ broker after, conditions.disturbs broker after →
    Attributed owner settings broker → Attributed owner settings after

/-- The rows of a partition are the fold of its changelog, and message ids are with their
owners. -/
structure FoldedAt (settings : Settings) (owner : String → TopicPartition) (tp : TopicPartition)
    (world : World) : Prop where
  attributed : Attributed owner settings world.broker
  rows : RowsOwned owner world.database
  folded : Folded settings.json tp (world.broker.changelogs (settings.template tp)) world.database

section Histories

variable {settings : Settings} {conditions : Conditions} {owner : String → TopicPartition}
  {tp : TopicPartition} {world next : World}

theorem FoldedAt.disturb (hundamaged : Undamaged settings conditions owner tp)
    (hfolded : FoldedAt settings owner tp world) {broker : Broker}
    (hdisturb : conditions.disturbs world.broker broker) :
    FoldedAt settings owner tp (world.drift broker) where
  attributed := hundamaged.attributed _ _ hdisturb hfolded.attributed
  rows := hfolded.rows
  folded := hfolded.folded.grows (hundamaged.appends _ _ hdisturb)

/-- What spares the rows and the checkpoints keeps the fold. -/
theorem FoldedAt.spares (hundamaged : Undamaged settings conditions owner tp)
    (hfolded : FoldedAt settings owner tp world) (hspares : Spares conditions world next) :
    FoldedAt settings owner tp next := by
  have hdrifted : FoldedAt settings owner tp (world.drift next.broker) := by
    have hdrifts := hspares.drifts
    generalize next.broker = broker at hdrifts
    induction hdrifts with
    | refl => exact hfolded
    | tail _ hdisturb ih => exact ih.disturb hundamaged hdisturb
  have hrows : next.database.rowsOf tp = world.database.rowsOf tp :=
    congrArg (List.filter _) hspares.records
  refine ⟨hdrifted.attributed, ?_, hdrifted.folded.untrimmed, ?_, ?_, ?_⟩
  · unfold RowsOwned
    rw [hspares.records]
    exact hfolded.rows
  · rw [hrows, hspares.checkpoint]
    exact hdrifted.folded.rows
  · rw [hspares.checkpoint]
    exact hdrifted.folded.nonneg
  · rw [hspares.checkpoint]
    exact hdrifted.folded.bound

/-- A step of the machine for another partition keeps the fold. -/
theorem folded_step_of_ne {job : Job} (hother : tp ≠ job.tp)
    (happends : AppendsOnly job.conditions (job.settings.template tp)) {point after : Point}
    (hstep : Step job (point, world) (after, next))
    (hfolded : Folded job.settings.json tp (world.broker.changelogs (job.settings.template tp))
      world.database) :
    Folded job.settings.json tp (next.broker.changelogs (job.settings.template tp))
      next.database := by
  have hframe := frame_step hstep
  have hrows := hframe.rowsOf_eq hother
  have hcheckpoint := hframe.checkpoint tp hother
  have hgrown : Folded job.settings.json tp
      (next.broker.changelogs (job.settings.template tp)) world.database := by
    rcases changelogs_step hstep with hsame | hdisturb
    · rw [hsame]
      exact hfolded
    · exact hfolded.grows (happends _ _ hdisturb)
  refine ⟨hgrown.untrimmed, ?_, ?_, ?_⟩
  · rw [hrows, hcheckpoint]
    exact hgrown.rows
  · rw [hcheckpoint]
    exact hgrown.nonneg
  · rw [hcheckpoint]
    exact hgrown.bound

/-- Wherever the assignment of a partition gets, the rows are the fold. -/
theorem foldedAt_of_reaches {job : Job} (hname : job.settings.template job.tp = job.name)
    (hundamaged : Undamaged job.settings job.conditions owner tp)
    (hfolded : FoldedAt job.settings owner tp world) {point : Point}
    (hreaches : Reaches job (.checking, world) (point, next)) :
    FoldedAt job.settings owner tp next := by
  have howned : Owned owner job .checking world :=
    ⟨hfolded.attributed, hfolded.rows, fun _ _ _ _ _ hpoint ↦ by cases hpoint⟩
  by_cases hother : tp = job.tp
  · subst hother
    have hfolding : Folding owner job point next :=
      hreaches.invariant (Folding owner job)
        (folding_step hname (hname ▸ hundamaged.appends) (hname ▸ hundamaged.lost)
          hundamaged.attributed)
        ⟨howned, by unfold Job.log; rw [← hname]; exact hfolded.folded, trivial⟩
    refine ⟨hfolding.owned.attributed, hfolding.owned.rows, ?_⟩
    rw [hname]
    exact hfolding.folded
  · have hboth : Owned owner job point next ∧
        Folded job.settings.json tp (next.broker.changelogs (job.settings.template tp))
          next.database :=
      hreaches.invariant
        (fun point world ↦ Owned owner job point world ∧
          Folded job.settings.json tp (world.broker.changelogs (job.settings.template tp))
            world.database)
        (fun hstep hnow ↦ ⟨owned_step hname hundamaged.attributed hstep hnow.1,
          folded_step_of_ne hother hundamaged.appends hstep hnow.2⟩)
        ⟨howned, hfolded.folded⟩
    exact ⟨hboth.1.attributed, hboth.1.rows, hboth.2⟩

end Histories

/-- A replay-only history over an untrimmed changelog, from an empty database. -/
structure ReplayHistory (json : String → Option String) (owner : String → TopicPartition)
    (tp : TopicPartition) where
  settings : Settings
  conditions : Conditions
  fuel : ℕ
  origin : World
  final : World
  run : Run settings conditions fuel ReplayOnly origin final
  json_eq : settings.json = json
  empty : origin.database = .empty
  untrimmed : (origin.broker.changelogs (settings.template tp)).start = 0
  attributed : Attributed owner settings origin.broker
  undamaged : Undamaged settings conditions owner tp

section Confluence

variable {json : String → Option String} {owner : String → TopicPartition} {tp : TopicPartition}

/-- The changelog of the partition at the end of a history. -/
def ReplayHistory.log (history : ReplayHistory json owner tp) : OffsetLog Message :=
  history.final.broker.changelogs (history.settings.template tp)

/-- After a replay-only history the rows are the fold of the log up to the checkpoint. -/
theorem ReplayHistory.folded (history : ReplayHistory json owner tp) :
    Folded json tp history.log history.final.database := by
  have horigin : FoldedAt history.settings owner tp history.origin := by
    have hstart := history.untrimmed
    refine ⟨history.attributed, ?_, hstart, ?_, ?_, ?_⟩
    · rw [history.empty]
      exact fun _ hrow ↦ absurd hrow List.not_mem_nil
    · have hnone : (history.origin.broker.changelogs (history.settings.template tp)).below 0 = [] :=
        OffsetLog.below_eq_nil hstart.ge
      rw [history.empty]
      change [] = insertAll Row.messageId [] (List.filterMap _ (OffsetLog.below _ 0))
      rw [hnone]
      rfl
    · rw [history.empty]
      exact le_refl 0
    · rw [history.empty]
      exact hstart.ge.trans (OffsetLog.start_le_stop _)
  have hfinal := replays_invariant history.run (FoldedAt history.settings owner tp)
    (fun _ _ hspares hfolded ↦ hfolded.spares history.undamaged hspares) ?_ horigin
  · have hfolded := hfinal.folded
    rw [history.json_eq] at hfolded
    exact hfolded
  · intro deadline source first entered hentered
    let job : Job := ⟨history.settings, history.conditions, source,
      history.settings.template source, deadline, history.fuel⟩
    have hreached {point : Point} {after : World}
        (hreaches : Reaches job (.checking, entered) (point, after)) :
        FoldedAt history.settings owner tp after :=
      foldedAt_of_reaches rfl history.undamaged hentered hreaches
    exact holds_assignOne job rfl (fun _ _ _ _ _ ↦ trivial)
      (fun _ _ _ hreaches ↦ hreached hreaches) (fun _ _ _ hreaches _ ↦ hreached hreaches)
      fun _ _ _ hreaches _ ↦ hreached hreaches

/-- The fold of a log up to a bound inside it is that of what the log grew to. -/
theorem replayed_of_grows {log after : OffsetLog Message} (hgrows : log.Grows after) {bound : ℤ}
    (hbound : bound ≤ log.stop) : replayed json tp after bound = replayed json tp log bound := by
  unfold replayed
  rw [hgrows.below_eq hbound]

/-- Two replay-only histories over one changelog that end with the same checkpoint end with the
same rows.
Assumes: the changelogs at their ends are initial parts of one log. -/
theorem replay_confluent {first second : ReplayHistory json owner tp} {log : OffsetLog Message}
    (hfirst : first.log.Grows log) (hsecond : second.log.Grows log)
    (hcheckpoint : first.final.database.checkpoint tp = second.final.database.checkpoint tp) :
    first.final.database.rowsOf tp = second.final.database.rowsOf tp := by
  have hone := first.folded
  have htwo := second.folded
  calc first.final.database.rowsOf tp
      = replayed json tp log
          (PartitionStateMachine.nextOffset (first.final.database.checkpoint tp)) := by
        rw [hone.rows, replayed_of_grows hfirst hone.bound]
    _ = replayed json tp log
          (PartitionStateMachine.nextOffset (second.final.database.checkpoint tp)) := by
        rw [hcheckpoint]
    _ = second.final.database.rowsOf tp := by
        rw [htwo.rows, replayed_of_grows hsecond htwo.bound]

end Confluence

/-! ### A sample -/

/-- Settings of a batch size whose template tells the sample partition from the others. -/
def partitioned (batchSize : ℕ) : Settings :=
  { Sample.settings with
    template := fun tp ↦ if tp = Sample.orders then Sample.changelog else "spare.changelog"
    batchSize := batchSize }

/-- A new store over two records. -/
def twoRecords : World :=
  Sample.fresh (Sample.broker (Sample.log [Sample.first, Sample.second]) (some 0))

@[simp] theorem partitioned_template (batchSize : ℕ) :
    (partitioned batchSize).template Sample.orders = Sample.changelog := by
  simp [partitioned]

/-- A history that replays two records in one batch. -/
theorem exists_replayHistory {batchSize : ℕ} (hbatch : 2 ≤ batchSize) :
    ∃ history : ReplayHistory some (fun _ ↦ Sample.orders) Sample.orders,
      history.log = Sample.log [Sample.first, Sample.second] ∧
      history.final.database.checkpoint Sample.orders = some 1 := by
  have htrivial (request : Request) (between : World) :
      AtCall (fun _ _ ↦ True) request between := by
    cases request <;> trivial
  have hstarts : ¬ Holds (environment (partitioned batchSize) Sample.calm) (AtCall fun _ _ ↦ True)
      (fun _ final ↦ final ≠ twoRecords.started)
      (Operation.start.action (partitioned batchSize) 1) twoRecords :=
    fun hholds ↦ Facade.post_of_start rfl hholds rfl
  obtain ⟨_, _, started, hstart, hstarted⟩ := exists_steps htrivial hstarts
  obtain rfl := not_not.mp hstarted
  have hassigns : ¬ Holds (environment (partitioned batchSize) Sample.calm)
      (AtCall fun _ _ ↦ True)
      (fun _ final ↦ ¬ (final.broker = twoRecords.broker ∧
        final.database.checkpoint Sample.orders = some 1))
      ((Operation.assign [Sample.orders]).action (partitioned batchSize) 1)
      twoRecords.started := by
    intro hholds
    have hshows : Sample.calm.shows 0 := trivial
    have hname : changelogName (partitioned batchSize) Sample.orders =
        .ok ((partitioned batchSize).template Sample.orders) := by
      have hlegal : isTopicName Sample.changelog = true := by decide +kernel
      simp [changelogName, hlegal]
    have hlisted : (partitioned batchSize).template Sample.orders ∈
        twoRecords.started.broker.topics := by
      rw [partitioned_template]
      exact Finset.mem_singleton_self _
    obtain ⟨checked, hdatabase, hbroker, _, _, hrehydrate⟩ := exists_rehydrate hshows
      hname hlisted rfl (Facade.action_of_guarded rfl hholds)
    rw [partitioned_template] at hrehydrate
    have hcheckpoint : checked.database.checkpoint Sample.orders = none := by
      rw [hdatabase]
      rfl
    have hlog : checked.broker.changelogs Sample.changelog =
        Sample.log [Sample.first, Sample.second] := by
      rw [hbroker]
      exact Sample.broker_changelogs _ _
    obtain ⟨opened, hopened, hsame, _, hfetch, hloop⟩ :=
      exists_opened (by simp [hcheckpoint]) hrehydrate
    rw [hlog, hcheckpoint] at hloop hfetch
    let batch := (Sample.log [Sample.first, Sample.second]).entries
    have hfetches : Fetches opened Sample.changelog batchSize batch (opened.seek 2) := by
      refine ⟨0, (1, Sample.second.message), hfetch, ?_, ⟨by decide, hbatch, ?_⟩, rfl, rfl⟩
      · rw [hsame, hlog]
        decide
      · rw [hsame, hlog]
        exact List.prefix_refl _
    have hrecords : ∀ record ∈ [Sample.first, Sample.second],
        record ∈ [Sample.first, Sample.second, Sample.third] := by simp
    have hrun : (Work.materializeBatch Sample.orders batch 1).run (partitioned batchSize).json
        opened.database = .ok ((opened.database.insertRows
          (batch.filterMap (rowOf some Sample.orders))).upsertCheckpoint Sample.orders 1) :=
      run_materializeBatch_eq_ok.mpr ⟨Sample.replayable_log hrecords, rfl⟩
    obtain ⟨final, hfinal, hunchanged, _, _, hpost⟩ := post_of_replayed (by decide) rfl trivial
      hfetches rfl (by rfl) hrun hloop
    refine hpost ⟨hunchanged.trans (hsame.trans hbroker), ?_⟩
    rw [hfinal, Database.insertOwned_checkpoint, checkpoint_of_run hrun, hopened, hcheckpoint]
    rfl
  obtain ⟨_, _, final, hassign, hfinal⟩ := exists_steps htrivial hassigns
  obtain ⟨hbroker, hcheckpoint⟩ := not_not.mp hfinal
  have hreplays (operation : Operation) (happend : ∀ source entityKey payload,
      operation ≠ .append source entityKey payload) (before : World)
      (outcome : Outcome Error Unit) (after : World) :
      ReplayOnly operation before outcome after := happend
  have hlog : final.broker.changelogs Sample.changelog =
      Sample.log [Sample.first, Sample.second] := by
    rw [hbroker]
    exact Sample.broker_changelogs _ _
  refine ⟨⟨partitioned batchSize, Sample.calm, 1, twoRecords, final, ?_, rfl, rfl, ?_, ?_, ?_⟩, ?_,
    hcheckpoint⟩
  · exact .step (.step .refl hstart (hreplays _ (by simp) _ _ _)) hassign
      (hreplays _ (by simp) _ _ _)
  · rw [partitioned_template]
    exact congrArg OffsetLog.start (Sample.broker_changelogs _ _)
  · intro tp entry hentry
    by_cases htp : tp = Sample.orders
    · exact fun _ _ ↦ htp.symm
    · have hspare : (partitioned batchSize).template tp = "spare.changelog" := if_neg htp
      rw [hspare] at hentry
      exact absurd hentry List.not_mem_nil
  · exact ⟨fun _ _ hdisturb ↦ hdisturb.elim, Or.inl fun _ _ hdisturb ↦ hdisturb.elim,
      fun _ _ hdisturb ↦ hdisturb.elim⟩
  · exact (congrArg final.broker.changelogs (partitioned_template batchSize)).trans hlog

/-- A batch size of two and one of three. -/
theorem replay_confluent_sample :
    ∃ first second : ReplayHistory some (fun _ ↦ Sample.orders) Sample.orders,
      first.final.database.checkpoint Sample.orders = some 1 ∧
      first.final.database.rowsOf Sample.orders = second.final.database.rowsOf Sample.orders := by
  obtain ⟨first, hfirst, hfirstCheckpoint⟩ := exists_replayHistory (le_refl 2)
  obtain ⟨second, hsecond, hsecondCheckpoint⟩ := exists_replayHistory (Nat.le_succ 2)
  have hone : first.log.Grows (Sample.log [Sample.first, Sample.second]) :=
    hfirst ▸ OffsetLog.Grows.refl _
  have htwo : second.log.Grows (Sample.log [Sample.first, Sample.second]) :=
    hsecond ▸ OffsetLog.Grows.refl _
  refine ⟨first, second, hfirstCheckpoint, ?_⟩
  exact replay_confluent hone htwo (hfirstCheckpoint.trans hsecondCheckpoint.symm)

end KSQLite.Runs
