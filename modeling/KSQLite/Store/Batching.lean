import KSQLite.Store.Effects
import KSQLite.Store.Sample

/-!
# A batch and its records one by one

`_materialize_batch` inserts the rows of a batch, skips its foreign records and stores one
checkpoint, the offset of its last record. The plain path applies the records one after another
with the pair of statements of an append, and stores a checkpoint at each of them, foreign or not
(`applyOneByOne`). Both leave the same rows, the same checkpoints and the same partition states
(`materialized_eq_applyOneByOne`), so where a batch is cut makes no difference either
(`materializeBatch_applies_one_by_one`).
-/

set_option autoImplicit false
set_option relaxedAutoImplicit false

namespace KSQLite.Store

open KSQLite.Log KSQLite.Suspension

/-- What a materialization changes: the database and the partition states. -/
structure Content where
  database : Database
  state : PartitionStateMachine

/-- What a materialization may change of a world. -/
def World.content (world : World) : Content := ⟨world.database, world.memory.state⟩

/-- A record with the append path's pair of statements and its write-back. A foreign record stores
its offset only. -/
def applyOne (json : String → Option String) (tp : TopicPartition) (content : Content)
    (entry : ℤ × Message) : Except Error Content :=
  match classify entry.2 with
  | .foreign _ =>
    .ok ⟨content.database.upsertCheckpoint tp entry.1, content.state.recordApplied tp entry.1⟩
  | .unknownVersion _ version => .error (.unknownVersion entry.1 tp version)
  | .ksqlite record =>
    (content.database.applyMaterialization json
      ⟨record.messageId, tp, entry.1, record.entityKey, record.payload⟩).map fun applied ↦
      ⟨applied, content.state.recordApplied tp entry.1⟩

/-- Records one by one. -/
def applyOneByOne (json : String → Option String) (tp : TopicPartition) :
    List (ℤ × Message) → Content → Except Error Content
  | [], content => .ok content
  | entry :: rest, content =>
    match applyOne json tp content entry with
    | .error error => .error error
    | .ok applied => applyOneByOne json tp rest applied

/-- What a batch that is materialized makes of the rows, the checkpoint and the states. -/
def materialized (json : String → Option String) (tp : TopicPartition)
    (records : List (ℤ × Message)) (offset : ℤ) (content : Content) : Content where
  database :=
    (content.database.insertRows (records.filterMap (rowOf json tp))).upsertCheckpoint tp offset
  state := content.state.recordApplied tp offset

section Checkpoints

variable {tp : TopicPartition} {earlier later : ℤ}

theorem maxOffset_maxOffset (stored : Option ℤ) (hle : earlier ≤ later) :
    PartitionStateMachine.maxOffset (some (PartitionStateMachine.maxOffset stored earlier)) later =
      PartitionStateMachine.maxOffset stored later := by
  cases stored with
  | none =>
    rw [PartitionStateMachine.maxOffset_some]
    exact max_eq_right hle
  | some checkpoint =>
    simp only [PartitionStateMachine.maxOffset_some]
    rw [max_assoc, max_eq_right hle]

/-- Of two stored checkpoints of which the later is not smaller, the later remains. -/
theorem upsertCheckpoint_upsertCheckpoint (database : Database) (hle : earlier ≤ later) :
    (database.upsertCheckpoint tp earlier).upsertCheckpoint tp later =
      database.upsertCheckpoint tp later := by
  unfold Database.upsertCheckpoint
  rw [Database.setCheckpoint_checkpoint_self, maxOffset_maxOffset _ hle]
  simp only [Database.setCheckpoint, Function.update_idem]

/-- Of two write-backs of which the later is not smaller, the later remains. -/
theorem recordApplied_recordApplied (machine : PartitionStateMachine) (hle : earlier ≤ later) :
    (machine.recordApplied tp earlier).recordApplied tp later = machine.recordApplied tp later := by
  have hentry : (machine.recordApplied tp earlier).entry tp =
      { machine.entry tp with
        checkpointOffset :=
          some (PartitionStateMachine.maxOffset (machine.entry tp).checkpointOffset earlier) } := by
    unfold PartitionStateMachine.recordApplied
    simp [PartitionStateMachine.entry]
  unfold PartitionStateMachine.recordApplied at hentry ⊢
  rw [PartitionStateMachine.update, hentry, maxOffset_maxOffset _ hle]
  simp only [PartitionStateMachine.update, Function.update_idem]

/-- Rows are inserted beside the checkpoints. -/
theorem upsertCheckpoint_insertRows (database : Database) (rows : List Row) (offset : ℤ) :
    (database.upsertCheckpoint tp offset).insertRows rows =
      (database.insertRows rows).upsertCheckpoint tp offset := by
  induction rows generalizing database with
  | nil => rfl
  | cons row rest ih => exact ih (database.insertRow row)

end Checkpoints

section Batches

variable {json : String → Option String} {tp : TopicPartition} {content applied : Content}
  {records : List (ℤ × Message)} {last : ℤ × Message}

/-- A record that is applied is one a batch gets past, and what it leaves is a batch of its own. -/
theorem applyOne_eq_ok {entry : ℤ × Message} :
    applyOne json tp content entry = .ok applied ↔
      Replayable json entry.2 ∧ applied = materialized json tp [entry] entry.1 content := by
  unfold applyOne Replayable materialized
  cases hclassify : classify entry.2 with
  | foreign reason =>
    have hrow : rowOf json tp entry = none := by
      simp [rowOf, ksqliteOf, hclassify]
    simp only [List.filterMap_cons, hrow, List.filterMap_nil, Except.ok.injEq]
    exact ⟨fun heq ↦ ⟨Or.inl ⟨reason, rfl⟩, heq.symm⟩, fun hall ↦ hall.2.symm⟩
  | unknownVersion messageId version => simp
  | ksqlite record =>
    cases hjson : json record.payload with
    | none =>
      simp [Database.applyMaterialization, Database.insertRecord, hjson, bind, Except.bind,
        Except.map]
    | some payload =>
      have hrow : rowOf json tp entry =
          some ⟨record.messageId, tp, entry.1, record.entityKey, payload⟩ := by
        simp [rowOf, ksqliteOf, hclassify, hjson]
      have happlied : content.database.applyMaterialization json
          ⟨record.messageId, tp, entry.1, record.entityKey, record.payload⟩ = .ok _ :=
        Database.applyMaterialization_eq_ok.mpr ⟨payload, hjson, rfl⟩
      simp only [happlied, Except.map, List.filterMap_cons, hrow, List.filterMap_nil,
        Except.ok.injEq]
      exact ⟨fun heq ↦ ⟨Or.inr ⟨record, rfl, by simp [hjson]⟩, heq.symm⟩, fun hall ↦ hall.2.symm⟩

/-- A batch cut in two, of which the second ends past the first. -/
theorem materialized_append {first second : List (ℤ × Message)} {middle offset : ℤ}
    (hle : middle ≤ offset) :
    materialized json tp second offset (materialized json tp first middle content) =
      materialized json tp (first ++ second) offset content := by
  unfold materialized
  simp only [Content.mk.injEq]
  constructor
  · rw [upsertCheckpoint_insertRows, upsertCheckpoint_upsertCheckpoint _ hle, List.filterMap_append]
    unfold Database.insertRows
    rw [List.foldl_append]
  · exact recordApplied_recordApplied _ hle

/-- Records with increasing offsets that are applied one by one: each of them is one a batch gets
past, and they leave what a batch of them leaves. -/
theorem applyOneByOne_eq_ok (hincreasing : records.Pairwise fun first second ↦ first.1 < second.1)
    (hlast : records.getLast? = some last) :
    applyOneByOne json tp records content = .ok applied ↔
      (∀ entry ∈ records, Replayable json entry.2) ∧
        applied = materialized json tp records last.1 content := by
  induction records generalizing content with
  | nil => cases hlast
  | cons entry rest ih =>
    obtain ⟨hfirst, hrest⟩ := List.pairwise_cons.mp hincreasing
    have hone : applyOneByOne json tp (entry :: rest) content = .ok applied ↔
        Replayable json entry.2 ∧ applyOneByOne json tp rest
          (materialized json tp [entry] entry.1 content) = .ok applied := by
      rw [applyOneByOne]
      cases happlied : applyOne json tp content entry with
      | error error =>
        refine iff_of_false (fun hok ↦ by cases hok) fun hok ↦ ?_
        rw [applyOne_eq_ok.mpr ⟨hok.1, rfl⟩] at happlied
        cases happlied
      | ok between =>
        obtain ⟨hentry, rfl⟩ := applyOne_eq_ok.mp happlied
        simp [hentry]
    rw [hone]
    by_cases hempty : rest = []
    · subst hempty
      obtain rfl : entry = last := Option.some.inj hlast
      simp [applyOneByOne, eq_comm]
    · have hrestLast : rest.getLast? = some last := by
        rwa [List.getLast?_cons_of_ne_nil hempty] at hlast
      have hle : entry.1 ≤ last.1 := (hfirst last (List.mem_of_getLast? hrestLast)).le
      rw [ih hrest hrestLast, materialized_append hle]
      simp [and_assoc]

/-- A batch that is applied without error leaves what its records leave one by one. -/
theorem materialized_eq_applyOneByOne
    (hincreasing : records.Pairwise fun first second ↦ first.1 < second.1)
    (hlast : records.getLast? = some last)
    (happlied : applyOneByOne json tp records content = .ok applied) :
    (Work.materializeBatch tp records last.1).run json content.database = .ok applied.database ∧
      content.state.recordApplied tp last.1 = applied.state := by
  obtain ⟨hreplayable, rfl⟩ := (applyOneByOne_eq_ok hincreasing hlast).mp happlied
  exact ⟨run_materializeBatch_eq_ok.mpr ⟨hreplayable, rfl⟩, rfl⟩

end Batches

/-! ### The coroutine -/

section Coroutine

variable {settings : Settings} {conditions : Conditions} {tp : TopicPartition} {world : World}
  {records : List (ℤ × Message)} {last : ℤ × Message} {applied : Content}

/-- A coroutine that returned left the given content. -/
def Leaves (content : Content) (outcome : Outcome Error Unit) (final : World) : Prop :=
  outcome = .returned () → final.content = content

/-- A batch whose transaction fails raises, and one whose transaction commits leaves what the
records leave one by one. -/
theorem holds_materializeBatch_one_by_one
    (hincreasing : records.Pairwise fun first second ↦ first.1 < second.1)
    (hlast : records.getLast? = some last)
    (happlied : applyOneByOne settings.json tp records world.content = .ok applied) :
    Holds (environment settings conditions) (AtCall fun _ _ ↦ True) (Leaves applied)
      (materializeBatch tp records last.1) world := by
  obtain ⟨hrun, hstate⟩ := materialized_eq_applyOneByOne hincreasing hlast happlied
  refine holds_bind.mpr ((holds_transaction hrun).mpr fun broker _ ↦ ⟨trivial, ?_, ?_⟩)
  · exact fun error _ hreturned ↦ by cases hreturned
  · rw [sequel_returned, holds_rememberState]
    intro _
    unfold World.content
    rw [Content.mk.injEq]
    exact ⟨rfl, hstate⟩

/-- Replaying a batch leaves the rows, the checkpoints and the partition states that its records
leave one by one, and so does replaying it cut in two. -/
theorem materializeBatch_applies_one_by_one
    (hincreasing : records.Pairwise fun first second ↦ first.1 < second.1)
    (hlast : records.getLast? = some last)
    (happlied : applyOneByOne settings.json tp records world.content = .ok applied) :
    (Work.materializeBatch tp records last.1).run settings.json world.database =
        .ok applied.database ∧
      Holds (environment settings conditions) (AtCall fun _ _ ↦ True) (Leaves applied)
        (materializeBatch tp records last.1) world ∧
      ∀ (first second : List (ℤ × Message)) (middle : ℤ × Message), records = first ++ second →
        first.getLast? = some middle → second ≠ [] →
        Holds (environment settings conditions) (AtCall fun _ _ ↦ True) (Leaves applied) (do
          materializeBatch tp first middle.1
          materializeBatch tp second last.1) world := by
  have hbatch := materialized_eq_applyOneByOne hincreasing hlast happlied
  refine ⟨hbatch.1, holds_materializeBatch_one_by_one hincreasing hlast happlied, ?_⟩
  rintro first second middle rfl hmiddle hsecond
  obtain ⟨hreplayable, rfl⟩ := (applyOneByOne_eq_ok hincreasing hlast).mp happlied
  obtain ⟨hfirstIncreasing, hsecondIncreasing, hcross⟩ := List.pairwise_append.mp hincreasing
  have hsecondLast : second.getLast? = some last := by
    rwa [List.getLast?_append_of_ne_nil _ hsecond] at hlast
  have hle : middle.1 ≤ last.1 :=
    (hcross middle (List.mem_of_getLast? hmiddle) last (List.mem_of_getLast? hsecondLast)).le
  have hfirst : applyOneByOne settings.json tp first world.content =
      .ok (materialized settings.json tp first middle.1 world.content) :=
    (applyOneByOne_eq_ok hfirstIncreasing hmiddle).mpr
      ⟨fun entry hentry ↦ hreplayable entry (List.mem_append_left _ hentry), rfl⟩
  refine (holds_materializeBatch_one_by_one hfirstIncreasing hmiddle hfirst).bind ?_ ?_ ?_
  · intro _ between hbetween
    refine holds_materializeBatch_one_by_one hsecondIncreasing hsecondLast ?_
    rw [hbetween rfl, ← materialized_append hle]
    exact (applyOneByOne_eq_ok hsecondIncreasing hsecondLast).mpr
      ⟨fun entry hentry ↦ hreplayable entry (List.mem_append_right _ hentry), rfl⟩
  · exact fun _ _ _ hreturned ↦ by cases hreturned
  · exact fun _ _ hreturned ↦ by cases hreturned

/-- Two records over an empty database, with a foreign one between them. -/
def threeEntries : List (ℤ × Message) :=
  [(0, Sample.first.message), (1, { Sample.second.message with headers := [] }),
    (2, Sample.second.message)]

theorem materializeBatch_applies_one_by_one_sample :
    Holds (environment Sample.settings Sample.failing) (AtCall fun _ _ ↦ True)
      (Leaves (materialized Sample.settings.json Sample.orders threeEntries 2
        (Sample.world .empty (Sample.broker .empty none)).content)) (do
        materializeBatch Sample.orders (threeEntries.take 2) 1
        materializeBatch Sample.orders (threeEntries.drop 2) 2)
      (Sample.world .empty (Sample.broker .empty none)) := by
  have hreplayable : ∀ entry ∈ threeEntries, Replayable Sample.settings.json entry.2 := by
    intro entry hentry
    simp only [threeEntries, List.mem_cons, List.not_mem_nil, or_false] at hentry
    rcases hentry with rfl | rfl | rfl
    · exact Or.inr ⟨_, classify_message (Sample.isUUID_messageId (by simp)), rfl⟩
    · exact Or.inl ⟨_, rfl⟩
    · exact Or.inr ⟨_, classify_message (Sample.isUUID_messageId (by simp)), rfl⟩
  have hincreasing : threeEntries.Pairwise fun first second ↦ first.1 < second.1 := by
    simp [threeEntries]
  have happlied : applyOneByOne Sample.settings.json Sample.orders threeEntries
      (Sample.world .empty (Sample.broker .empty none)).content = .ok _ :=
    (applyOneByOne_eq_ok hincreasing rfl).mpr ⟨hreplayable, rfl⟩
  exact (materializeBatch_applies_one_by_one hincreasing rfl happlied).2.2 _ _ _
    (List.take_append_drop 2 threeEntries).symm rfl (List.cons_ne_nil _ _)

end Coroutine

end KSQLite.Store
