import KSQLite.Runs.Rules
import KSQLite.Store.Sample

/-!
# An append is all or nothing

An append that returns added one row, under a fresh message id and at the acknowledged offset, and
raised the checkpoint of its partition in the database and in memory; one that raises, at whatever
step, changed neither, and what is refused before the produce reaches no producer
(`append_all_or_nothing`). Nothing of any other partition changes.
-/

set_option autoImplicit false
set_option relaxedAutoImplicit false

namespace KSQLite.Runs

open KSQLite.Log KSQLite.Suspension KSQLite.Store

/-- What an append that returned made of a world: its record was acknowledged at an offset where it
landed last, and its row and the two checkpoints are stored. -/
structure Appended (settings : Settings) (conditions : Conditions) (source : TopicPartition)
    (entityKey : EntityKey) (payload : Payload) (record : KsqliteRecord) (offset : ℤ)
    (stored : String) (world final : World) : Prop where
  encodes : Encodes settings source entityKey payload record
  fresh : record.messageId ∉ world.minted
  acknowledged : ∃ broker, Settles conditions (.sendAndWait (settings.template source)
      record.message) world.broker broker ∧
    LandedLast (broker.changelogs (settings.template source)) record.message offset
  normalized : settings.json record.payload = some stored
  records : final.database.records = world.database.records ++
    [⟨record.messageId, source, offset, record.entityKey, stored⟩]
  checkpoint : final.database.checkpoint source =
    some (PartitionStateMachine.maxOffset (world.database.checkpoint source) offset)
  remembered : final.memory.state.checkpointOf source =
    some (PartitionStateMachine.maxOffset (world.memory.state.checkpointOf source) offset)

/-- Neither the database nor a partition state changed. -/
structure Untouched (world final : World) : Prop where
  database : final.database = world.database
  state : final.memory.state = world.memory.state

/-- Nothing of the partitions other than one changed. -/
structure SparesOthers (source : TopicPartition) (world final : World) : Prop where
  records : ∀ tp ≠ source, final.database.rowsOf tp = world.database.rowsOf tp
  checkpoint : ∀ tp ≠ source, final.database.checkpoint tp = world.database.checkpoint tp
  owned : final.database.owned = world.database.owned
  entries : ∀ tp ≠ source, final.memory.state.entries tp = world.memory.state.entries tp

/-- A call of an append: the produce of what it encodes, or the transaction with its row. -/
def AppendCall (settings : Settings) (source : TopicPartition) (entityKey : EntityKey)
    (payload : Payload) (call : Call) : Prop :=
  ∃ record, Encodes settings source entityKey payload record ∧
    (call = .sendAndWait (settings.template source) record.message ∨
      ∃ offset, call = .transaction (.applyMaterialization (record.row source offset)))

/-- How an append ends. What is refused before the produce leaves the broker alone. -/
def AllOrNothing (settings : Settings) (conditions : Conditions) (source : TopicPartition)
    (entityKey : EntityKey) (payload : Payload) (world : World) :
    Outcome Error Unit → World → Prop
  | .returned _, final =>
    (∃ record offset stored,
      Appended settings conditions source entityKey payload record offset stored world final) ∧
      SparesOthers source world final
  | .raised _, final =>
    Untouched world final ∧
      ((∀ record, ¬ Encodes settings source entityKey payload record) ∨
        world.memory.runState ≠ .running → final.broker = world.broker)
  | .exhausted, _ => False

section Atomicity

variable {settings : Settings} {conditions : Conditions} {source : TopicPartition}
  {entityKey : EntityKey} {payload : Payload} {world : World}

/-- An append in flight that has drawn a message id. -/
theorem Untouched.mint (messageId : String) : Untouched world (world.enter.mint messageId) :=
  ⟨rfl, rfl⟩

theorem Untouched.drift {final : World} (huntouched : Untouched world final) (broker : Broker) :
    Untouched world (final.drift broker) :=
  ⟨huntouched.database, huntouched.state⟩

/-- The row of a message id that no row has is added. -/
theorem records_of_applyMaterialization {json : String → Option String} {row : Row}
    {database applied : Database} (hfresh : row.messageId ∉ database.records.map Row.messageId)
    (happlied : database.applyMaterialization json row = .ok applied) :
    ∃ stored, json row.payload = some stored ∧
      applied.records = database.records ++ [{ row with payload := stored }] ∧
      applied.checkpoint = Function.update database.checkpoint row.source
        (some (PartitionStateMachine.maxOffset (database.checkpoint row.source)
          row.changelogOffset)) ∧
      applied.owned = database.owned := by
  obtain ⟨stored, hstored, rfl⟩ := Database.applyMaterialization_eq_ok.mp happlied
  refine ⟨stored, hstored, ?_, rfl, rfl⟩
  exact insertNew_of_notMem hfresh

/-- The commit and the write-back of an append. -/
theorem appended_of_applied {record : KsqliteRecord} {broker later : Broker} {offset : ℤ}
    {applied : Database} (hminted : ∀ row ∈ world.database.records, row.messageId ∈ world.minted)
    (hencodes : Encodes settings source entityKey payload record)
    (hproduced : Produced settings conditions source world record broker)
    (hlanded : LandedLast (broker.changelogs (settings.template source)) record.message offset)
    (happlied : world.database.applyMaterialization settings.json (record.row source offset) =
      .ok applied) :
    AllOrNothing settings conditions source entityKey payload world (.returned ())
      ((((world.enter.mint record.messageId).drift later).commit applied).onState
        (·.recordApplied source offset)) := by
  have hfresh : (record.row source offset).messageId ∉
      world.database.records.map Row.messageId := by
    intro hmem
    obtain ⟨row, hrow, hid⟩ := List.mem_map.mp hmem
    have hknown := hminted row hrow
    rw [hid] at hknown
    exact hproduced.fresh hknown
  obtain ⟨stored, hstored, hrecords, hcheckpoint, howned⟩ :=
    records_of_applyMaterialization hfresh happlied
  constructor
  · refine ⟨record, offset, stored, hencodes, hproduced.fresh, ⟨broker, hproduced.settles, hlanded⟩,
      hstored, hrecords, ?_, ?_⟩
    · change applied.checkpoint source = _
      rw [hcheckpoint]
      exact Function.update_self source _ _
    · exact PartitionStateMachine.checkpointOf_recordApplied offset
  · constructor
    · intro tp htp
      change applied.records.filter _ = _
      rw [hrecords, List.filter_append]
      have hother : source ≠ tp := htp.symm
      simp [Database.rowsOf, KsqliteRecord.row, hother]
    · intro tp htp
      change applied.checkpoint tp = _
      rw [hcheckpoint]
      exact Function.update_of_ne htp _ _
    · exact howned
    · intro tp htp
      change (world.memory.state.recordApplied source offset).entries tp = _
      exact PartitionStateMachine.entries_update_of_ne _ htp

/-- The append proper, once it is counted in flight. -/
theorem holds_append_allOrNothing
    (hminted : ∀ row ∈ world.database.records, row.messageId ∈ world.minted)
    (hrunning : world.memory.runState = .running) :
    Holds (environment settings conditions)
      (AtCall fun call between ↦ AppendCall settings source entityKey payload call ∧
        Untouched world between)
      (AllOrNothing settings conditions source entityKey payload world)
      (append settings source entityKey payload) world.enter := by
  refine holds_append_steps ?_ ?_ ?_ ?_
  · exact fun error _ ↦ ⟨⟨rfl, rfl⟩, fun _ ↦ rfl⟩
  · exact fun messageId error _ ↦ ⟨.mint messageId, fun _ ↦ rfl⟩
  · intro record broker hencodes _
    refine ⟨⟨⟨record, hencodes, Or.inl rfl⟩, (Untouched.mint _).drift broker⟩, fun error ↦ ?_⟩
    refine ⟨(Untouched.mint _).drift broker, fun hrefused ↦ ?_⟩
    rcases hrefused with hnone | hstopped
    · exact absurd hencodes (hnone record)
    · exact absurd hrunning hstopped
  · intro record broker offset later hencodes hproduced _ hlanded _
    refine ⟨⟨⟨record, hencodes, Or.inr ⟨offset, rfl⟩⟩, (Untouched.mint _).drift later⟩,
      fun error ↦ ⟨(Untouched.mint _).drift later, fun hrefused ↦ ?_⟩, fun applied happlied ↦ ?_⟩
    · rcases hrefused with hnone | hstopped
      · exact absurd hencodes (hnone record)
      · exact absurd hrunning hstopped
    · have hsame : Produced settings conditions source world record broker :=
        ⟨hproduced.uuid, hproduced.fresh, hproduced.settles⟩
      exact appended_of_applied hminted hencodes hsame hlanded happlied

/-- An append that returns stored its record, in the database and in memory, and nothing else; one
that raises stored nothing, and what it refuses is not produced.
Assumes: every stored message id was drawn before. -/
theorem append_all_or_nothing
    (hminted : ∀ row ∈ world.database.records, row.messageId ∈ world.minted) :
    Holds (environment settings conditions)
      (AtCall fun call between ↦ AppendCall settings source entityKey payload call ∧
        Untouched world between)
      (AllOrNothing settings conditions source entityKey payload world)
      (Facade.append settings source entityKey payload) world := by
  refine Facade.holds_append (fun _ ↦ ⟨⟨rfl, rfl⟩, fun _ ↦ rfl⟩)
    (fun hrunning ↦ holds_append_allOrNothing hminted hrunning) ?_ ?_ fun _ hfalse ↦ hfalse
  · rintro final ⟨⟨record, offset, stored, happended⟩, hothers⟩
    refine ⟨⟨record, offset, stored, ?_⟩, ?_⟩
    · exact ⟨happended.encodes, happended.fresh, happended.acknowledged, happended.normalized,
        happended.records, happended.checkpoint, happended.remembered⟩
    · exact ⟨hothers.records, hothers.checkpoint, hothers.owned, hothers.entries⟩
  · rintro error final ⟨huntouched, hrefused⟩
    exact ⟨⟨huntouched.database, huntouched.state⟩, hrefused⟩

/-- An append to a store that holds the first record, where any call may fail. -/
theorem append_all_or_nothing_sample :
    Holds (environment Sample.settings Sample.failing)
      (AtCall fun call between ↦
        AppendCall Sample.settings Sample.orders (.text "k1") (.text "[]") call ∧
          Untouched Sample.halfApplied between)
      (AllOrNothing Sample.settings Sample.failing Sample.orders (.text "k1") (.text "[]")
        Sample.halfApplied)
      (Facade.append Sample.settings Sample.orders (.text "k1") (.text "[]"))
      Sample.halfApplied := by
  refine append_all_or_nothing fun row hrow ↦ ?_
  obtain rfl : row = Sample.firstRow := List.mem_singleton.mp hrow
  simp [Sample.halfApplied, Sample.world, Sample.firstRow]

end Atomicity

end KSQLite.Runs
