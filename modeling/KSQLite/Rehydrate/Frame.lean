import KSQLite.Rehydrate.Refinement
import KSQLite.Store.Commits

/-!
# What a rehydrate leaves alone

A rehydrate of one partition only adds rows, all of them of that partition, and leaves the
checkpoint, the visibility and the in-memory entry of every other partition as they were
(`Frame`). Each step of the machine does (`frame_step`), hence so does the whole.
-/

set_option autoImplicit false
set_option relaxedAutoImplicit false

namespace KSQLite.Rehydrate

open KSQLite.Log KSQLite.Suspension KSQLite.Store

/-- Between two worlds only one partition was worked on, and rows were only added. -/
structure Frame (tp : TopicPartition) (before after : World) : Prop where
  records : ∃ added, after.database.records = before.database.records ++ added ∧
    ∀ row ∈ added, row.source = tp
  checkpoint : ∀ other, other ≠ tp →
    after.database.checkpoint other = before.database.checkpoint other
  owned : ∀ other, other ≠ tp → (other ∈ after.database.owned ↔ other ∈ before.database.owned)
  entries : ∀ other, other ≠ tp →
    after.memory.state.entries other = before.memory.state.entries other
  runState : after.memory.runState = before.memory.runState
  minted : after.minted = before.minted

namespace Frame

variable {tp : TopicPartition} {first second third : World}

theorem refl (tp : TopicPartition) (world : World) : Frame tp world world where
  records := ⟨[], (List.append_nil _).symm, by simp⟩
  checkpoint _ _ := rfl
  owned _ _ := Iff.rfl
  entries _ _ := rfl
  runState := rfl
  minted := rfl

theorem trans (hfirst : Frame tp first second) (hsecond : Frame tp second third) :
    Frame tp first third where
  records := by
    obtain ⟨added, hadded, hsource⟩ := hfirst.records
    obtain ⟨more, hmore, hmoreSource⟩ := hsecond.records
    refine ⟨added ++ more, by rw [hmore, hadded, List.append_assoc], fun row hrow ↦ ?_⟩
    exact (List.mem_append.mp hrow).elim (hsource row) (hmoreSource row)
  checkpoint other hother := (hsecond.checkpoint other hother).trans
    (hfirst.checkpoint other hother)
  owned other hother := (hsecond.owned other hother).trans (hfirst.owned other hother)
  entries other hother := (hsecond.entries other hother).trans (hfirst.entries other hother)
  runState := hsecond.runState.trans hfirst.runState
  minted := hsecond.minted.trans hfirst.minted

/-- The rows of every other partition are the same. -/
theorem rowsOf_eq (hframe : Frame tp first second) {other : TopicPartition} (hother : other ≠ tp) :
    second.database.rowsOf other = first.database.rowsOf other :=
  AddsRows.rowsOf_eq hframe.records hother

/-- Every other partition is left alone. -/
theorem leavesAlone (hframe : Frame tp first second) {other : TopicPartition}
    (hother : other ≠ tp) : LeavesAlone other first.database second.database :=
  ⟨hframe.rowsOf_eq hother, hframe.checkpoint other hother, hframe.owned other hother⟩

/-- Every row is still there. -/
theorem records_prefix (hframe : Frame tp first second) :
    first.database.records <+: second.database.records := by
  obtain ⟨added, hadded, _⟩ := hframe.records
  exact ⟨added, hadded.symm⟩

/-- Only the broker changed. -/
theorem of_broker (tp : TopicPartition) (world : World) (broker : Broker) :
    Frame tp world { world with broker := broker } :=
  ⟨(refl tp world).records, fun _ _ ↦ rfl, fun _ _ ↦ Iff.rfl, fun _ _ ↦ rfl, rfl, rfl⟩

/-- The consumer or the partitions that passed step 0 changed. -/
theorem of_memory (tp : TopicPartition) (world : World) {memory : Memory}
    (hstate : memory.state = world.memory.state)
    (hrunState : memory.runState = world.memory.runState) :
    Frame tp world { world with memory := memory } :=
  ⟨(refl tp world).records, fun _ _ ↦ rfl, fun _ _ ↦ Iff.rfl, fun _ _ ↦ by rw [hstate], hrunState,
    rfl⟩

/-- The entry of the partition changed. -/
theorem of_onState {world : World} {update : PartitionStateMachine → PartitionStateMachine}
    {change : Entry → Entry} (hupdate : ∀ machine, update machine = machine.update tp change) :
    Frame tp world (world.onState update) := by
  refine ⟨(refl tp world).records, fun _ _ ↦ rfl, fun _ _ ↦ Iff.rfl, fun other hother ↦ ?_, rfl,
    rfl⟩
  rw [World.onState_state, hupdate]
  exact PartitionStateMachine.entries_update_of_ne change hother

/-- The status of the partition changed. -/
theorem of_mark (tp : TopicPartition) (world : World) (status : PartitionStatus) :
    Frame tp world (world.onState (·.mark tp status)) :=
  of_onState fun _ ↦ rfl

theorem of_seed (tp : TopicPartition) (world : World) (checkpoint : Option ℤ) :
    Frame tp world (world.seed tp checkpoint) := by
  cases checkpoint with
  | none => exact refl tp world
  | some checkpoint => exact of_onState fun _ ↦ rfl

theorem of_capture (tp : TopicPartition) (world : World) (name : String) (leo : ℤ) :
    Frame tp world (world.capture tp name leo) := by
  have hcaptured : Frame tp world (world.onState (·.recordLogEnd tp leo)) :=
    of_onState fun _ ↦ rfl
  have hrestoring : Frame tp (world.onState (·.recordLogEnd tp leo))
      ((world.onState (·.recordLogEnd tp leo)).onState (·.markRestoring tp)) :=
    of_mark tp _ .restoring
  exact (hcaptured.trans hrestoring).trans (of_memory tp _ rfl rfl)

/-- A batch committed. -/
theorem of_run {json : String → Option String} {records : List (ℤ × Message)} {offset : ℤ}
    {world : World} {database : Database}
    (hrun : (Work.materializeBatch tp records offset).run json world.database = .ok database) :
    Frame tp world (world.commit database) := by
  obtain ⟨_, rfl⟩ := run_materializeBatch_eq_ok.mp hrun
  refine ⟨?_, fun other hother ↦ ?_, fun _ _ ↦ ?_, fun _ _ ↦ rfl, rfl, rfl⟩
  · obtain ⟨added, hadded, hsublist⟩ := exists_insertAll_eq_append Row.messageId
      world.database.records (records.filterMap (rowOf json tp))
    refine ⟨added, ?_, fun row hrow ↦ ?_⟩
    · change (Database.insertRows _ _).records = _
      rw [Database.insertRows_records, hadded]
    · obtain ⟨entry, _, hentry⟩ := List.mem_filterMap.mp (hsublist.subset hrow)
      obtain ⟨record, _, payload, _, rfl⟩ := rowOf_eq_some.mp hentry
      rfl
  · change Function.update _ tp _ other = _
    rw [Function.update_of_ne hother, Database.insertRows_checkpoint]
  · change _ ∈ (Database.insertRows _ _).owned ↔ _
    rw [Database.insertRows_owned]

/-- The checkpoint of the partition was clamped. -/
theorem of_clamp (tp : TopicPartition) (world : World) (target : ℤ) :
    Frame tp world (world.commit (world.database.clampCheckpoint tp target)) :=
  ⟨(refl tp world).records,
    fun _ hother ↦ Database.setCheckpoint_checkpoint_of_ne hother, fun _ _ ↦ Iff.rfl,
    fun _ _ ↦ rfl, rfl, rfl⟩

/-- The partition was revealed. -/
theorem of_reveal (tp : TopicPartition) (world : World) :
    Frame tp world (world.commit (world.database.insertOwned tp)) :=
  ⟨(refl tp world).records, fun _ _ ↦ rfl, fun _ hother ↦ by simp [hother], fun _ _ ↦ rfl, rfl,
    rfl⟩

end Frame

/-- Nobody touches the broker, and no call fails. -/
structure Uninterrupted (conditions : Conditions) : Prop where
  frozen : ∀ broker next, ¬ conditions.disturbs broker next
  succeeds : ∀ call error, ¬ conditions.fails call error

variable {job : Job} {world next : World}

/-- Every step of the machine leaves everything else alone. -/
theorem frame_step {point after : Point} (hstep : Step job (point, world) (after, next)) :
    Frame job.tp world next := by
  cases hstep with
  | drift _ _ => exact .of_broker _ _ _
  | createTopic => exact .of_broker _ _ _
  | check => exact .of_memory _ _ rfl rfl
  | enter => exact .refl _ _
  | skip _ => exact .refl _ _
  | seed => exact .of_seed _ _ _
  | keepConsumer => exact .of_memory _ _ rfl rfl
  | connect _ => exact .refl _ _
  | capture _ => exact .of_capture _ _ _ _
  | openCold => exact .of_memory _ _ rfl rfl
  | openWarm _ => exact .of_memory _ _ rfl rfl
  | idle _ hnothing =>
    obtain ⟨idlePolls, rfl⟩ := hnothing.exists_idlePolls
    exact .of_broker _ _ _
  | lose _ _ => exact .refl _ _
  | readStart => exact .refl _ _
  | reset => exact .of_memory _ _ rfl rfl
  | fetch _ _ hfetches _ =>
    obtain ⟨_, _, _, _, _, _, rfl⟩ := hfetches
    exact .of_memory _ _ rfl rfl
  | materialize _ hrun => exact (Frame.of_run hrun).trans (.of_onState fun _ ↦ rfl)
  | goOn => exact .refl _ _
  | expire _ _ => exact .of_mark _ _ .readyPartial
  | leave _ _ => exact .of_mark _ _ .ready
  | leaveReset _ _ => exact .refl _ _
  | keep _ => exact .of_mark _ _ .ready
  | aim _ => exact .refl _ _
  | clamp =>
    exact ((Frame.of_clamp _ _ _).trans (.of_onState fun _ ↦ rfl)).trans (.of_mark _ _ .ready)
  | reveal => exact .of_reveal _ _
  | keepUnreached => exact .of_memory _ _ rfl rfl
  | captureUnreached _ => exact .of_onState fun _ ↦ rfl
  | seedUnreached => exact (Frame.of_seed _ _ _).trans (.of_mark _ _ .readyPartial)

/-- Only others change a changelog. -/
theorem changelogs_step {point after : Point} (hstep : Step job (point, world) (after, next)) :
    next.broker.changelogs = world.broker.changelogs ∨
      job.conditions.disturbs world.broker next.broker := by
  cases hstep with
  | drift _ hdisturb => exact Or.inr hdisturb
  | seed => exact Or.inl (congrArg Broker.changelogs (World.seed_broker _))
  | idle _ hnothing =>
    obtain ⟨idlePolls, rfl⟩ := hnothing.exists_idlePolls
    exact Or.inl rfl
  | fetch _ _ hfetches _ =>
    obtain ⟨_, _, _, _, _, _, rfl⟩ := hfetches
    exact Or.inl rfl
  | seedUnreached => exact Or.inl (congrArg Broker.changelogs (World.seed_broker _))
  | _ => exact Or.inl rfl

/-- Nothing changes a frozen log. -/
theorem log_step (hfrozen : ∀ broker next, ¬ job.conditions.disturbs broker next)
    {point after : Point} (hstep : Step job (point, world) (after, next)) :
    job.log next = job.log world := by
  have hchangelogs := (changelogs_step hstep).resolve_right (hfrozen _ _)
  exact congrFun hchangelogs job.name

/-- On a frozen log the log stays what it was. -/
theorem Reaches.log_eq {origin state : Point × World}
    (hfrozen : ∀ broker next, ¬ job.conditions.disturbs broker next)
    (hreaches : Reaches job origin state) : job.log state.2 = job.log origin.2 :=
  hreaches.invariant (fun _ world ↦ job.log world = job.log origin.2)
    (fun hstep hlog ↦ (log_step hfrozen hstep).trans hlog) rfl

/-- Only a batch that commits changes the rows. -/
theorem records_step {point after : Point} (hstep : Step job (point, world) (after, next)) :
    next.database.records = world.database.records ∨
      ∃ leo fuel replay records last, point = .materializing leo fuel replay records last ∧
        (Work.materializeBatch job.tp records last.1).run job.settings.json world.database =
          .ok next.database := by
  cases hstep with
  | seed => exact Or.inl (congrArg Database.records (World.seed_database _))
  | idle _ hnothing =>
    obtain ⟨idlePolls, rfl⟩ := hnothing.exists_idlePolls
    exact Or.inl rfl
  | fetch _ _ hfetches _ =>
    obtain ⟨_, _, _, _, _, _, rfl⟩ := hfetches
    exact Or.inl rfl
  | materialize _ hrun => exact Or.inr ⟨_, _, _, _, _, rfl, hrun⟩
  | seedUnreached => exact Or.inl (congrArg Database.records (World.seed_database _))
  | _ => exact Or.inl rfl

/-- Whatever the machine reaches, everything else is left alone. -/
theorem Reaches.frame {origin state : Point × World} (hreaches : Reaches job origin state) :
    Frame job.tp origin.2 state.2 :=
  hreaches.invariant (fun _ world ↦ Frame job.tp origin.2 world)
    (fun hstep hframe ↦ hframe.trans (frame_step hstep)) (.refl _ _)

/-- At a reveal the partition has the status it is revealed with, and after it is visible. -/
def Marked (job : Job) : Point → World → Prop
  | .revealing status, world => world.memory.state.statusOf job.tp = some status
  | .revealed status, world =>
    world.memory.state.statusOf job.tp = some status ∧ job.tp ∈ world.database.owned
  | _, _ => True

theorem marked_step {point after : Point} (hstep : Step job (point, world) (after, next))
    (hmarked : Marked job point world) : Marked job after next := by
  have hmark (between : World) (status : PartitionStatus) :
      (between.onState (·.mark job.tp status)).memory.state.statusOf job.tp = some status :=
    PartitionStateMachine.statusOf_mark status
  cases hstep with
  | drift _ _ => cases point <;> exact hmarked
  | expire _ _ => exact hmark _ _
  | leave _ _ => exact hmark _ _
  | keep _ => exact hmark _ _
  | clamp => exact hmark _ _
  | reveal => exact ⟨hmarked, Database.mem_insertOwned.mpr (Or.inl rfl)⟩
  | seedUnreached => exact hmark _ _
  | _ => trivial

/-- From a point before any reveal, every reveal has its status. -/
theorem Reaches.marked {origin state : Point × World} (hreaches : Reaches job origin state)
    (horigin : Marked job origin.1 origin.2) : Marked job state.1 state.2 :=
  hreaches.invariant (Marked job) marked_step horigin

/-- The reveal is pending at its point only. -/
theorem eq_revealing_of_awaits {point : Point} {tp : TopicPartition}
    (hawaits : Awaits job.settings job.tp job.name point (.transaction (.ownedInsert tp))) :
    ∃ status, point = .revealing status := by
  cases hawaits with
  | reveal => exact ⟨_, rfl⟩

end KSQLite.Rehydrate
