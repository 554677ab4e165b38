import KSQLite.Runs.Confluence
import KSQLite.Runs.Lives

/-!
# Convergence

A store mirrors the changelog of a partition after every life in which each append to the partition
that committed was issued when no record of the changelog was missing (`mirrors_of_life`), whatever
else was cut off, failed or was given up, and however often appends failed after their record had
landed. So whenever the partition is revealed `READY`, its rows carry exactly the message ids of the
changelog below the captured log end, each once (`converges`).
-/

set_option autoImplicit false
set_option relaxedAutoImplicit false

namespace KSQLite.Runs

open KSQLite.Log KSQLite.Suspension KSQLite.Store KSQLite.Rehydrate

/-! ### What an append does to a changelog -/

section Growth

variable {settings : Settings} {conditions : Conditions} {owner : String → TopicPartition}
  {source tp : TopicPartition} {name topic : String} {message : Message} {broker after : Broker}

/-- Others append foreign records only, however long they act. -/
theorem growsBy_of_drifts (hsole : SoleWriter conditions name)
    (hdrifts : Drifts conditions broker after) :
    (broker.changelogs name).GrowsBy Recordless (after.changelogs name) := by
  induction hdrifts with
  | refl => exact .refl _ _
  | tail _ hdisturb ih => exact ih.trans (hsole _ _ hdisturb)

/-- While a produce is awaited, a changelog grows by foreign records, and by copies of the record if
it is the one produced to. -/
theorem growsBy_of_settles (hsole : SoleWriter conditions name)
    (hsettles : Settles conditions (.sendAndWait topic message) broker after) :
    (broker.changelogs name).GrowsBy
      (fun landed ↦ Recordless landed ∨ landed = message ∧ topic = name)
      (after.changelogs name) := by
  induction hsettles with
  | refl => exact .refl _ _
  | @tail between _ _ hmove ih =>
    refine ih.trans ?_
    cases hmove with
    | disturb hdisturb => exact (hsole _ _ hdisturb).mono fun _ ↦ Or.inl
    | land =>
      by_cases hname : name = topic
      · subst hname
        have hpushed : (between.push name message).changelogs name =
            (between.changelogs name).push message := by simp [Broker.push]
        rw [hpushed]
        exact .push (Or.inr ⟨rfl, rfl⟩)
      · have hsame : (between.push topic message).changelogs name =
            between.changelogs name := by simp [Broker.push, hname]
        rw [hsame]
        exact .refl _ _

/-- A partition shares its changelog with no other. -/
def Unshared (settings : Settings) (source : TopicPartition) : Prop :=
  ∀ other, settings.template other = settings.template source → other = source

/-- A record of the partition it is produced for leaves message ids with their owners. -/
theorem attributed_of_settles (hunshared : Unshared settings source)
    (hdisturbs : ∀ broker after, conditions.disturbs broker after →
      Attributed owner settings broker → Attributed owner settings after)
    (howner : ∀ offset, BelongsTo owner source (offset, message))
    (hsettles : Settles conditions (.sendAndWait (settings.template source) message) broker after)
    (hattributed : Attributed owner settings broker) : Attributed owner settings after := by
  induction hsettles with
  | refl => exact hattributed
  | @tail between _ _ hmove ih =>
    cases hmove with
    | disturb hdisturb => exact hdisturbs _ _ hdisturb ih
    | land =>
      intro other entry hentry
      by_cases hname : settings.template other = settings.template source
      · obtain rfl := hunshared other hname
        have hpushed : (between.push (settings.template other) message).changelogs
            (settings.template other) =
              (between.changelogs (settings.template other)).push message := by simp [Broker.push]
        rw [hpushed] at hentry
        rcases List.mem_append.mp hentry with hold | hnew
        · exact ih other entry hold
        · rw [List.mem_singleton.mp hnew]
          exact howner _
      · have hsame : (between.push (settings.template source) message).changelogs
            (settings.template other) = between.changelogs (settings.template other) := by
          simp [Broker.push, hname]
        rw [hsame] at hentry
        exact ih other entry hentry

theorem attributed_of_drifts
    (hdisturbs : ∀ broker after, conditions.disturbs broker after →
      Attributed owner settings broker → Attributed owner settings after)
    (hdrifts : Drifts conditions broker after) (hattributed : Attributed owner settings broker) :
    Attributed owner settings after := by
  induction hdrifts with
  | refl => exact hattributed
  | tail _ hdisturb ih => exact hdisturbs _ _ hdisturb ih

/-- The message ids drawn while an operation ran belong to a partition. -/
def DrawnFor (owner : String → TopicPartition) (source : TopicPartition) (before after : World) :
    Prop :=
  ∀ messageId ∈ after.minted, messageId ∈ before.minted ∨ owner messageId = source

end Growth

/-! ### Appends -/

section Appends

variable {settings : Settings} {conditions : Conditions} {owner : String → TopicPartition}
  {source tp : TopicPartition} {entityKey : EntityKey} {payload : Payload} {before after : World}
  {record : KsqliteRecord}

/-- The entry of a record that was produced. -/
theorem ksqliteOf_of_drawn (hdrawn : Drawn settings source entityKey payload before record after) :
    ksqliteOf record.message = some record :=
  ksqliteOf_eq_some.mpr (classify_message hdrawn.uuid)

/-- A record that was drawn for a partition belongs to it. -/
theorem belongsTo_of_drawn (hdrawn : Drawn settings source entityKey payload before record after)
    (howned : DrawnFor owner source before after) (offset : ℤ) :
    BelongsTo owner source (offset, record.message) := by
  intro messageId hid
  obtain ⟨found, hfound, rfl⟩ := messageIdOf_eq_some.mp hid
  rw [ksqliteOf_of_drawn hdrawn] at hfound
  obtain rfl := Option.some.inj hfound
  exact (howned _ hdrawn.minted).resolve_left hdrawn.fresh

/-- An append that was not applied keeps the mirror. -/
theorem mirrors_of_unapplied (hshared : Shared settings conditions owner tp)
    (hunshared : Unshared settings source)
    (hdrawn : Drawn settings source entityKey payload before record after)
    (howned : DrawnFor owner source before after)
    (hunapplied : Unapplied settings conditions source before record after)
    (hmirrors : Mirrors settings owner tp before) : Mirrors settings owner tp after := by
  exact hmirrors.grows (attributed_of_settles hunshared hshared.attributed
    (belongsTo_of_drawn hdrawn howned) hunapplied.settles hmirrors.attributed) hunapplied.database
    (growsBy_of_settles hshared.sole hunapplied.settles).grows

/-- The rows of an applied record are those before it and, under a new message id, its own. -/
theorem mem_records_of_applied {json : String → Option String} {row inserted : Row}
    {database applied : Database}
    (hrun : database.applyMaterialization json inserted = .ok applied)
    (hrow : row ∈ applied.records) : row ∈ database.records ∨
      ∃ payload, json inserted.payload = some payload ∧
        row = { inserted with payload := payload } := by
  obtain ⟨payload, hpayload, rfl⟩ := Database.applyMaterialization_eq_ok.mp hrun
  change row ∈ insertAll Row.messageId database.records [{ inserted with payload := payload }]
    at hrow
  rcases mem_insertAll hrow with hold | hnew
  · exact Or.inl hold
  · exact Or.inr ⟨payload, hpayload, List.mem_singleton.mp hnew⟩

/-- Applying a record keeps every row and adds its message id. -/
theorem mem_messageIds_of_applied {json : String → Option String} {inserted : Row}
    {database applied : Database} {messageId : String}
    (hrun : database.applyMaterialization json inserted = .ok applied) :
    messageId ∈ applied.records.map Row.messageId ↔
      messageId ∈ database.records.map Row.messageId ∨ messageId = inserted.messageId := by
  obtain ⟨payload, _, rfl⟩ := Database.applyMaterialization_eq_ok.mp hrun
  exact mem_keys_insertNew

/-- The next offset to replay after an applied record is the old one or the one after it. -/
theorem nextOffset_of_applied {json : String → Option String} {inserted : Row}
    {database applied : Database} (hoffset : 0 ≤ inserted.changelogOffset)
    (hrun : database.applyMaterialization json inserted = .ok applied) :
    PartitionStateMachine.nextOffset (applied.checkpoint inserted.source) =
      max (PartitionStateMachine.nextOffset (database.checkpoint inserted.source))
        (inserted.changelogOffset + 1) := by
  obtain ⟨payload, _, rfl⟩ := Database.applyMaterialization_eq_ok.mp hrun
  rw [Database.upsertCheckpoint, Database.setCheckpoint_checkpoint_self,
    PartitionStateMachine.nextOffset_maxOffset_eq _ hoffset, Database.insertRow_checkpoint]

/-- A record that is applied gives its message id to its partition. -/
theorem rowsOwned_of_applied {offset : ℤ} {acked : Broker}
    (hdrawn : Drawn settings source entityKey payload before record after)
    (howned : DrawnFor owner source before after)
    (happlied : Applied settings conditions source before record offset acked after)
    (hrows : RowsOwned owner before.database) : RowsOwned owner after.database := by
  intro row hrow
  rcases mem_records_of_applied happlied.run hrow with hold | ⟨_, _, rfl⟩
  · exact hrows row hold
  · exact (howned _ hdrawn.minted).resolve_left hdrawn.fresh

/-- A record that is applied leaves the next offset to replay inside the log. -/
theorem bounded_of_applied {offset : ℤ} {acked : Broker}
    (hsole : SoleWriter conditions (settings.template tp))
    (happlied : Applied settings conditions source before record offset acked after)
    (hbounded : nextReplayed tp before ≤ (changelogOf settings tp before).stop) :
    nextReplayed tp after ≤ (changelogOf settings tp after).stop := by
  have hgrows := (growsBy_of_settles hsole happlied.settled).grows
  by_cases hsource : source = tp
  · subst hsource
    have hentry : (offset, record.message) ∈ (changelogOf settings source after).entries :=
      (growsBy_of_drifts hsole happlied.drifts).grows.mem happlied.landed.1
    have hnext : nextReplayed source after = max (nextReplayed source before) (offset + 1) :=
      nextOffset_of_applied happlied.nonneg happlied.run
    rw [hnext]
    exact max_le (hbounded.trans hgrows.evolves.stop_le)
      ((changelogOf settings source after).bounded _ hentry).2
  · have hrun : (Work.applyMaterialization (record.row source offset)).run settings.json
        before.database = .ok after.database := happlied.run
    unfold nextReplayed
    rw [(Work.leavesAlone hrun (Ne.symm hsource)).checkpoint]
    exact hbounded.trans hgrows.evolves.stop_le

/-- After an append was applied, no record is missing if none was missing before. -/
theorem present_of_applied {offset : ℤ} {acked : Broker}
    (hsole : SoleWriter conditions (settings.template tp))
    (hdrawn : Drawn settings source entityKey payload before record after)
    (happlied : Applied settings conditions source before record offset acked after)
    (hpresent : ∀ entry ∈ (changelogOf settings tp before).entries, Present before.database entry) :
    ∀ entry ∈ (changelogOf settings tp after).entries, Present after.database entry := by
  intro entry hentry found hfound
  refine (mem_messageIds_of_applied happlied.run).mpr ?_
  rcases (growsBy_of_settles hsole happlied.settled).mem hentry with hold | ⟨hnew | ⟨hcopy, _⟩, _⟩
  · exact Or.inl (hpresent entry hold found hfound)
  · rw [hnew] at hfound
    cases hfound
  · rw [hcopy, ksqliteOf_of_drawn hdrawn] at hfound
    obtain rfl := Option.some.inj hfound
    exact Or.inr rfl

/-- An append to a partition none of whose records was missing keeps the mirror. -/
theorem mirrors_of_applied {offset : ℤ} {acked : Broker}
    (hshared : Shared settings conditions owner tp) (hunshared : Unshared settings source)
    (hdrawn : Drawn settings source entityKey payload before record after)
    (howned : DrawnFor owner source before after)
    (happlied : Applied settings conditions source before record offset acked after)
    (hpresent : source = tp → ∀ entry ∈ (changelogOf settings tp before).entries,
      Present before.database entry)
    (hmirrors : Mirrors settings owner tp before) : Mirrors settings owner tp after := by
  have hgrows := (growsBy_of_settles hshared.sole happlied.settled).grows
  have hbelongs := belongsTo_of_drawn hdrawn howned
  have hrun : (Work.applyMaterialization (record.row source offset)).run settings.json
      before.database = .ok after.database := happlied.run
  refine ⟨attributed_of_settles hunshared hshared.attributed hbelongs happlied.settled
    hmirrors.attributed, rowsOwned_of_applied hdrawn howned happlied hmirrors.rows, ?_, ?_,
    bounded_of_applied hshared.sole happlied hmirrors.bounded⟩
  · intro row hrow
    obtain ⟨hmem, hsource⟩ := Database.mem_rowsOf.mp hrow
    rcases mem_records_of_applied happlied.run hmem with hold | ⟨stored, hstored, rfl⟩
    · exact hmirrors.grounded.grows hgrows row (Database.mem_rowsOf.mpr ⟨hold, hsource⟩)
    · obtain rfl : source = tp := hsource
      have hentry : (offset, record.message) ∈ (changelogOf settings source after).entries :=
        (growsBy_of_drifts hshared.sole happlied.drifts).grows.mem happlied.landed.1
      refine ⟨_, hentry, rowOf_eq_some.mpr ⟨record, ksqliteOf_of_drawn hdrawn, stored, hstored, ?_⟩⟩
      rfl
  · by_cases hsource : source = tp
    · exact fun entry hentry _ ↦
        present_of_applied hshared.sole hdrawn happlied (hpresent hsource) entry hentry
    · have halone := Work.leavesAlone hrun (Ne.symm hsource)
      unfold nextReplayed
      rw [halone.checkpoint]
      refine (hmirrors.covered.mono ?_).evolves hgrows.evolves hmirrors.bounded
      obtain ⟨added, hadded, _⟩ := Work.addsRows hrun
      exact ⟨added, hadded.symm⟩

/-- An append that is applied keeps its partition caught up. -/
theorem caughtUp_of_applied {offset : ℤ} {acked : Broker}
    (hsole : SoleWriter conditions (settings.template source))
    (hdrawn : Drawn settings source entityKey payload before record after)
    (happlied : Applied settings conditions source before record offset acked after)
    (hcaught : CaughtUp settings source before) : CaughtUp settings source after where
  present := present_of_applied hsole hdrawn happlied hcaught.present
  below := by
    have hnext : nextReplayed source after = max (nextReplayed source before) (offset + 1) :=
      nextOffset_of_applied happlied.nonneg happlied.run
    have hacked : AllBelow (acked.changelogs (settings.template source))
        (nextReplayed source after) := by
      intro entry hentry hrecord
      rw [hnext]
      rcases (growsBy_of_settles hsole happlied.settles).mem hentry with
        hold | ⟨hnew | ⟨hcopy, _⟩, _⟩
      · exact (hcaught.below entry hold hrecord).trans_le (le_max_left _ _)
      · exact absurd hnew hrecord
      · have := happlied.landed.2 entry hentry hcopy
        exact (Int.lt_add_one_iff.mpr this).trans_le (le_max_right _ _)
    exact hacked.grows (growsBy_of_drifts hsole happlied.drifts)

end Appends

/-! ### Assignments -/

section Assignments

variable {settings : Settings} {conditions : Conditions} {owner : String → TopicPartition}
  {tp : TopicPartition} {assigned : List TopicPartition} {world after : World} {fuel : ℕ}

/-- Wherever the assignment of a partition gets, the store mirrors the changelog. -/
theorem mirrors_of_replay (hshared : Shared settings conditions owner tp)
    (source : TopicPartition) (deadline : ℤ) (entered : World) (point : Point) (between : World)
    (hentered : Mirrors settings owner tp entered)
    (hreaches : Reaches ⟨settings, conditions, source, settings.template source, deadline, fuel⟩
      (.checking, entered) (point, between)) : Mirrors settings owner tp between :=
  mirrors_of_reaches rfl hshared hentered hreaches

/-- A partition whose reveal as `READY` is pending in an assignment is caught up. -/
theorem caughtUp_of_pending {assigning : World} (hshared : Shared settings conditions owner tp)
    (hmirrors : Mirrors settings owner tp assigning) {trace : List (Exchange requests World)}
    {resume : Except Error Unit → Action Unit}
    (hsteps : Steps (environment settings conditions)
      ((Operation.assign assigned).action settings fuel) assigning trace
      (@Program.await requests Error Unit (.call (.transaction (.ownedInsert tp))) resume) world)
    (hready : world.memory.state.statusOf tp = some .ready) :
    Mirrors settings owner tp world ∧ CaughtUp settings tp world ∧
      ∃ leo, world.memory.state.logEndOf tp = some leo ∧
        AllBelow (changelogOf settings tp world) leo := by
  obtain ⟨source, _, deadline, entered, point, hentered, hreaches, hawaits⟩ :=
    (holds_assignCalls (Mirrors settings owner tp) (mirrors_of_replay hshared) hmirrors).pending
      hsteps
  cases hawaits with
  | @reveal status =>
    have hmarked : Marked _ (.revealing status) world := Reaches.marked hreaches trivial
    obtain rfl : status = .ready := Option.some.inj (hmarked.symm.trans hready)
    exact ⟨mirrors_of_reaches rfl hshared hentered hreaches,
      caughtUp_of_reaches rfl hshared hentered (Or.inl rfl) hreaches⟩

end Assignments

/-! ### How a changelog grows -/

section Landing

variable {settings : Settings} {conditions : Conditions} {tp : TopicPartition}
  {before after : World} {fuel : ℕ}

/-- Foreign messages, and copies of one record. -/
def Lands (record : KsqliteRecord) (message : Message) : Prop :=
  Recordless message ∨ ksqliteOf message = some record

/-- While the record of an append is produced, its changelog grows by copies of it and foreign
messages. -/
theorem lands_of_settles {entityKey : EntityKey} {payload : Payload} {record : KsqliteRecord}
    (hsole : SoleWriter conditions (settings.template tp))
    (hdrawn : Drawn settings tp entityKey payload before record after)
    (hsettles : Settles conditions (.sendAndWait (settings.template tp) record.message)
      before.broker after.broker) :
    (changelogOf settings tp before).GrowsBy (Lands record) (changelogOf settings tp after) := by
  refine (growsBy_of_settles hsole hsettles).mono fun landed hlanded ↦ ?_
  refine hlanded.imp_right fun hcopy ↦ ?_
  rw [hcopy.1]
  exact ksqliteOf_of_drawn hdrawn

/-- The message id of a record was drawn meanwhile. -/
def DrawnBetween (before after : World) (record : KsqliteRecord) : Prop :=
  record.messageId ∉ before.minted ∧ record.messageId ∈ after.minted

/-- Wherever an operation is cut off, the changelog of a partition grew by foreign messages, and by
copies of one record if the operation is an append that writes to it. -/
theorem growsBy_of_steps (hsole : SoleWriter conditions (settings.template tp))
    {operation : Operation} {trace : List (Exchange requests World)} {rest : Action Unit}
    (hsteps : Steps (environment settings conditions) (operation.action settings fuel) before trace
      rest after) :
    (changelogOf settings tp before).GrowsBy Recordless (changelogOf settings tp after) ∨
      ∃ record, (∃ source entityKey payload, operation = .append source entityKey payload ∧
          settings.template source = settings.template tp) ∧
        DrawnBetween before after record ∧
        (changelogOf settings tp before).GrowsBy (Lands record)
          (changelogOf settings tp after) := by
  cases operation with
  | assign assigned =>
    refine Or.inl (invariant_of_assign
      (fun between ↦ (changelogOf settings tp before).GrowsBy Recordless
        (changelogOf settings tp between)) ?_ ?_ (.refl _ _) hsteps)
    · intro other deadline entered point between hentered hreaches
      refine hreaches.invariant (fun _ world ↦ (changelogOf settings tp before).GrowsBy Recordless
        (changelogOf settings tp world)) (fun hstep hnow ↦ ?_) hentered
      rcases changelogs_step hstep with hsame | hdisturb
      · unfold changelogOf at hnow ⊢
        rw [hsame]
        exact hnow
      · exact hnow.trans (hsole _ _ hdisturb)
    · intro between next _ hchangelogs _ hnow
      unfold changelogOf at hnow ⊢
      rw [hchangelogs]
      exact hnow
  | append other key value =>
    rcases attempted_of_steps hsteps with ⟨_, hbroker⟩ | ⟨record, hdrawn, hdone⟩
    · unfold changelogOf
      rw [hbroker]
      exact Or.inl (.refl _ _)
    · have hsettles : Settles conditions
          (.sendAndWait (settings.template other) record.message) before.broker after.broker := by
        rcases hdone with hunapplied | ⟨offset, acked, happlied⟩
        · exact hunapplied.settles
        · exact happlied.settled
      have hgrows := growsBy_of_settles hsole hsettles
      by_cases hshares : settings.template other = settings.template tp
      · refine Or.inr ⟨record, ⟨other, key, value, rfl, hshares⟩, ⟨hdrawn.fresh, hdrawn.minted⟩,
          hgrows.mono fun landed hlanded ↦ hlanded.imp_right fun hcopy ↦ ?_⟩
        rw [hcopy.1]
        exact ksqliteOf_of_drawn hdrawn
      · exact Or.inl (hgrows.mono fun landed hlanded ↦
          hlanded.resolve_right fun hcopy ↦ hshares hcopy.2)
  | start | revoke | restart =>
    have hspares : Spares conditions before after := spares_of_steps (by simp) (by simp) hsteps
    exact Or.inl (growsBy_of_drifts hsole hspares.drifts)

end Landing

/-! ### Lives -/

section Lives

variable {settings : Settings} {conditions : Conditions} {owner : String → TopicPartition}
  {tp : TopicPartition} {before after : World} {fuel : ℕ}

/-- A start, a revocation or a restart keeps the mirror. -/
theorem mirrors_of_spares (hshared : Shared settings conditions owner tp)
    (hspares : Spares conditions before after) (hmirrors : Mirrors settings owner tp before) :
    Mirrors settings owner tp after := by
  have hdrifted : Mirrors settings owner tp (before.drift after.broker) := by
    have hdrifts := hspares.drifts
    generalize after.broker = broker at hdrifts
    induction hdrifts with
    | refl => exact hmirrors
    | tail _ hdisturb ih => exact ih.disturb hshared.sole hshared.attributed hdisturb
  refine ⟨hdrifted.attributed, ?_, ?_, ?_, ?_⟩
  · unfold RowsOwned
    rw [hspares.records]
    exact hdrifted.rows
  · unfold Grounded Database.rowsOf
    rw [hspares.records]
    exact hdrifted.grounded
  · unfold nextReplayed Covered Present
    rw [hspares.checkpoint, hspares.records]
    exact hdrifted.covered
  · unfold nextReplayed
    rw [hspares.checkpoint]
    exact hdrifted.bounded

/-- How the operations of a life are issued: an append is to a partition that shares its changelog
with no other, what it draws belongs to its partition, and an append to the partition that commits
is issued when none of its records is missing. -/
def Issued (settings : Settings) (owner : String → TopicPartition) (tp : TopicPartition)
    (operation : Operation) (before after : World) : Prop :=
  ∀ source entityKey payload, operation = .append source entityKey payload →
    Unshared settings source ∧ DrawnFor owner source before after ∧
    (source = tp → after.database = before.database ∨
      ∀ entry ∈ (changelogOf settings tp before).entries, Present before.database entry)

/-- No operation that is issued so harms the mirror, wherever it is cut off. -/
theorem mirrors_of_steps (hshared : Shared settings conditions owner tp) {operation : Operation}
    {trace : List (Exchange requests World)} {rest : Action Unit}
    (hsteps : Steps (environment settings conditions) (operation.action settings fuel) before trace
      rest after)
    (hissued : Issued settings owner tp operation before after)
    (hmirrors : Mirrors settings owner tp before) : Mirrors settings owner tp after := by
  cases operation with
  | assign assigned =>
    refine invariant_of_assign (Mirrors settings owner tp) (mirrors_of_replay hshared) ?_ hmirrors
      hsteps
    exact fun _ _ hdatabase hchangelogs _ hbetween ↦ hbetween.congr hdatabase hchangelogs
  | append source entityKey payload =>
    obtain ⟨hunshared, hdrawnFor, hpresent⟩ := hissued source entityKey payload rfl
    rcases attempted_of_steps hsteps with ⟨hdatabase, hbroker⟩ | ⟨record, hdrawn, hdone⟩
    · exact hmirrors.congr hdatabase (congrArg Broker.changelogs hbroker)
    · rcases hdone with hunapplied | ⟨offset, acked, happlied⟩
      · exact mirrors_of_unapplied hshared hunshared hdrawn hdrawnFor hunapplied hmirrors
      · by_cases hsame : after.database = before.database
        · exact mirrors_of_unapplied hshared hunshared hdrawn hdrawnFor ⟨happlied.settled, hsame⟩
            hmirrors
        · exact mirrors_of_applied hshared hunshared hdrawn hdrawnFor happlied
            (fun hsource ↦ (hpresent hsource).resolve_left hsame) hmirrors
  | start | revoke | restart =>
    exact mirrors_of_spares hshared (spares_of_steps (by simp) (by simp) hsteps) hmirrors

/-- After every life whose appends are issued so, the store mirrors the changelog. -/
theorem mirrors_of_life (hshared : Shared settings conditions owner tp)
    (hlife : Life settings conditions fuel (Issued settings owner tp) before after)
    (hmirrors : Mirrors settings owner tp before) : Mirrors settings owner tp after := by
  refine hlife.invariant (Mirrors settings owner tp) ?_ ?_ ?_ hmirrors
  · exact fun _ _ hbefore hdisturb ↦ hbefore.disturb hshared.sole hshared.attributed hdisturb
  · exact fun _ _ _ _ _ hbefore hsteps hissued ↦
      mirrors_of_steps hshared hsteps hissued hbefore
  · exact fun _ hbefore ↦ hbefore.congr rfl rfl

/-- The rows of a partition carry the message ids of the changelog below the captured log end, each
once, and no KSQLite record lies past it. -/
structure Exact (settings : Settings) (tp : TopicPartition) (world : World) (leo : ℤ) : Prop where
  captured : world.memory.state.logEndOf tp = some leo
  messageIds : ∀ messageId, messageId ∈ (world.database.rowsOf tp).map Row.messageId ↔
    ∃ entry ∈ (changelogOf settings tp world).entries, entry.1 < leo ∧
      messageIdOf entry = some messageId
  nodup : ((world.database.rowsOf tp).map Row.messageId).Nodup
  grounded : ∀ row ∈ world.database.rowsOf tp, ∃ entry ∈ (changelogOf settings tp world).entries,
    rowOf settings.json tp entry = some row
  below : AllBelow (changelogOf settings tp world) leo

/-- A message id of the changelog that is not missing is that of a row of the partition. -/
theorem mem_rowsOf_of_present {entry : ℤ × Message} {messageId : String}
    (hmirrors : Mirrors settings owner tp before)
    (hentry : entry ∈ (changelogOf settings tp before).entries)
    (hpresent : Present before.database entry) (hid : messageIdOf entry = some messageId) :
    messageId ∈ (before.database.rowsOf tp).map Row.messageId := by
  obtain ⟨record, hrecord, rfl⟩ := messageIdOf_eq_some.mp hid
  obtain ⟨row, hrow, hrowId⟩ := List.mem_map.mp (hpresent record hrecord)
  have hsource : row.source = tp := by
    rw [← hmirrors.rows row hrow, hrowId]
    exact hmirrors.attributed tp entry hentry _ hid
  exact List.mem_map.mpr ⟨row, Database.mem_rowsOf.mpr ⟨hrow, hsource⟩, hrowId⟩

/-- Rows of a caught-up partition carry exactly the message ids of its changelog. -/
theorem exact_of_caughtUp {leo : ℤ} (hmirrors : Mirrors settings owner tp before)
    (hcaught : CaughtUp settings tp before)
    (hcaptured : before.memory.state.logEndOf tp = some leo)
    (hbelow : AllBelow (changelogOf settings tp before) leo) :
    Exact settings tp before leo where
  captured := hcaptured
  messageIds messageId := by
    constructor
    · intro hid
      obtain ⟨row, hrow, rfl⟩ := List.mem_map.mp hid
      obtain ⟨entry, hentry, hrowOf⟩ := hmirrors.grounded row hrow
      have hentryId := messageIdOf_of_rowOf hrowOf
      refine ⟨entry, hentry, hbelow entry hentry fun hnone ↦ ?_, hentryId⟩
      obtain ⟨record, hrecord, _⟩ := messageIdOf_eq_some.mp hentryId
      rw [hnone] at hrecord
      cases hrecord
    · rintro ⟨entry, hentry, _, hid⟩
      exact mem_rowsOf_of_present hmirrors hentry (hcaught.present entry hentry) hid
  nodup := before.database.unique.sublist (List.filter_sublist.map Row.messageId)
  grounded := hmirrors.grounded
  below := hbelow

/-- Whenever a partition is about to be revealed `READY`, its rows carry exactly the message ids of
the changelog below the captured log end, each once: after every life from an empty database, with
operations cut off at any moment, in which no append to the partition committed while a record of
the changelog was missing.
Assumes: nobody else appends KSQLite records to the changelog, and message ids belong to one
partition. -/
theorem converges {origin assigning world : World} {assigned : List TopicPartition}
    {trace : List (Exchange requests World)} {resume : Except Error Unit → Action Unit}
    (hshared : Shared settings conditions owner tp)
    (hempty : origin.database = .empty) (hattributed : Attributed owner settings origin.broker)
    (hlife : Life settings conditions fuel (Issued settings owner tp) origin assigning)
    (hsteps : Steps (environment settings conditions)
      ((Operation.assign assigned).action settings fuel) assigning trace
      (@Program.await requests Error Unit (.call (.transaction (.ownedInsert tp))) resume) world)
    (hready : world.memory.state.statusOf tp = some .ready) :
    ∃ leo, Exact settings tp world leo := by
  have hmirrors := mirrors_of_life hshared hlife (mirrors_of_empty hattributed hempty)
  obtain ⟨hworld, hcaught, leo, hleo, hbelow⟩ := caughtUp_of_pending hshared hmirrors hsteps hready
  exact ⟨leo, exact_of_caughtUp hworld hcaught hleo hbelow⟩

end Lives

/-! ### A sample -/

/-- A new store starts. -/
theorem exists_started {settings : Settings} {world : World}
    (hnew : world.memory.runState = .new) :
    ∃ trace, Steps (environment settings Sample.calm) (Operation.start.action settings 1) world
      trace (Outcome.returned ()).program world.started := by
  have htrivial (request : Request) (between : World) :
      AtCall (fun _ _ ↦ True) request between := by
    cases request <;> trivial
  have hstarts : ¬ Holds (environment settings Sample.calm) (AtCall fun _ _ ↦ True)
      (fun outcome final ↦ ¬ (outcome = .returned () ∧ final = world.started))
      (Operation.start.action settings 1) world :=
    fun hholds ↦ Facade.post_of_start hnew hholds ⟨rfl, rfl⟩
  obtain ⟨trace, outcome, started, hsteps, hstarted⟩ := exists_steps htrivial hstarts
  obtain ⟨rfl, rfl⟩ := not_not.mp hstarted
  exact ⟨trace, hsteps⟩

/-- A new store over two records starts. -/
theorem exists_started_twoRecords : ∃ trace, Steps (environment (partitioned 2) Sample.calm)
    (Operation.start.action (partitioned 2) 1) twoRecords trace
    (Outcome.returned ()).program twoRecords.started :=
  exists_started rfl

/-- A store over two records replays them up to the reveal of the partition. -/
theorem holds_reveal_of_twoRecords {condition : Call → World → Prop}
    {post : Outcome Error Unit → World → Prop}
    (hholds : Holds (environment (partitioned 2) Sample.calm) (AtCall condition) post
      ((Operation.assign [Sample.orders]).action (partitioned 2) 1) twoRecords.started) :
    ∃ revealing : World, revealing.broker = twoRecords.broker ∧
      revealing.memory.state.statusOf Sample.orders = some .ready ∧
      Holds (environment (partitioned 2) Sample.calm) (AtCall condition)
        (fun outcome final ↦ post (outcome.mapError (assignmentError Sample.orders)) final)
        (reveal Sample.orders) revealing := by
  have hshows : Sample.calm.shows 0 := trivial
  have hname : changelogName (partitioned 2) Sample.orders =
      .ok ((partitioned 2).template Sample.orders) := by
    have hlegal : isTopicName Sample.changelog = true := by decide +kernel
    simp [changelogName, hlegal]
  have hlisted : (partitioned 2).template Sample.orders ∈
      twoRecords.started.broker.topics := by
    rw [partitioned_template]
    exact Finset.mem_singleton_self _
  obtain ⟨checked, hdatabase, hbroker, _, _, hrehydrate⟩ := exists_rehydrate hshows
    hname hlisted rfl (Facade.action_of_guarded rfl hholds)
  rw [partitioned_template] at hrehydrate
  have hcheckpoint : checked.database.checkpoint Sample.orders = none := by
    rw [hdatabase]
    rfl
  have hlog : checked.broker.changelogs Sample.changelog =
      Sample.log [Sample.first, Sample.second] := by
    rw [hbroker]
    exact Sample.broker_changelogs _ _
  obtain ⟨opened, hopened, hsame, _, hfetch, hloop⟩ :=
    exists_opened (by simp [hcheckpoint]) hrehydrate
  rw [hlog, hcheckpoint] at hloop hfetch
  let batch := (Sample.log [Sample.first, Sample.second]).entries
  have hfetches : Fetches opened Sample.changelog 2 batch (opened.seek 2) := by
    refine ⟨0, (1, Sample.second.message), hfetch, ?_, ⟨by decide, le_refl _, ?_⟩, rfl, rfl⟩
    · rw [hsame, hlog]
      decide
    · rw [hsame, hlog]
      exact List.prefix_refl _
  have hrecords : ∀ record ∈ [Sample.first, Sample.second],
      record ∈ [Sample.first, Sample.second, Sample.third] := by simp
  have hrun : (Work.materializeBatch Sample.orders batch 1).run (partitioned 2).json
      opened.database = .ok ((opened.database.insertRows
        (batch.filterMap (rowOf some Sample.orders))).upsertCheckpoint Sample.orders 1) :=
    run_materializeBatch_eq_ok.mpr ⟨Sample.replayable_log hrecords, rfl⟩
  obtain ⟨revealing, _, hunchanged, hready, _, hreveal⟩ := holds_reveal_of_replayed (by decide) rfl
    trivial hfetches rfl (by rfl) hrun hloop
  exact ⟨revealing, hunchanged.trans (hsame.trans hbroker), hready, hreveal⟩

/-- A store over two records is about to reveal the partition. -/
theorem exists_revealing : ∃ (trace : List (Exchange requests World))
    (resume : Except Error Unit → Action Unit) (world : World),
    Steps (environment (partitioned 2) Sample.calm)
      ((Operation.assign [Sample.orders]).action (partitioned 2) 1) twoRecords.started trace
      (@Program.await requests Error Unit (.call (.transaction (.ownedInsert Sample.orders)))
        resume)
      world ∧
    world.memory.state.statusOf Sample.orders = some .ready := by
  have hassigns : ¬ Holds (environment (partitioned 2) Sample.calm)
      (AtCall fun call between ↦ ¬ (call = .transaction (.ownedInsert Sample.orders) ∧
        between.memory.state.statusOf Sample.orders = some .ready)) (fun _ _ ↦ True)
      ((Operation.assign [Sample.orders]).action (partitioned 2) 1) twoRecords.started := by
    intro hholds
    obtain ⟨revealing, _, hready, hreveal⟩ := holds_reveal_of_twoRecords hholds
    exact (hreveal revealing ((environment _ _).interferes_refl _ _)).1 ⟨rfl, hready⟩
  obtain ⟨trace, request, resume, world, hsteps, hpending⟩ := exists_pending hassigns
  cases request with
  | call call =>
    obtain ⟨rfl, hready⟩ := not_not.mp hpending
    exact ⟨trace, resume, world, hsteps, hready⟩
  | clock | observe | remember | newMessageId => exact absurd trivial hpending

/-- A store over two records replays them and reveals the partition. -/
theorem exists_revealed : ∃ (trace : List (Exchange requests World)) (world : World),
    Steps (environment (partitioned 2) Sample.calm)
      ((Operation.assign [Sample.orders]).action (partitioned 2) 1) twoRecords.started trace
      (Outcome.returned ()).program world ∧
    world.memory.state.statusOf Sample.orders = some .ready := by
  have htrivial (request : Request) (between : World) :
      AtCall (fun _ _ ↦ True) request between := by
    cases request <;> trivial
  have hassigns : ¬ Holds (environment (partitioned 2) Sample.calm) (AtCall fun _ _ ↦ True)
      (fun outcome final ↦ ¬ (outcome = .returned () ∧
        final.memory.state.statusOf Sample.orders = some .ready))
      ((Operation.assign [Sample.orders]).action (partitioned 2) 1) twoRecords.started := by
    intro hholds
    obtain ⟨revealing, _, hready, hreveal⟩ := holds_reveal_of_twoRecords hholds
    have hreveals : Succeeds (partitioned 2) Sample.calm revealing
        (.transaction (.ownedInsert Sample.orders)) ()
        (revealing.commit (revealing.database.insertOwned Sample.orders)) := ⟨_, rfl, rfl⟩
    exact holds_result hreveal hreveals ⟨rfl, hready⟩
  obtain ⟨trace, outcome, world, hsteps, hend⟩ := exists_steps htrivial hassigns
  obtain ⟨rfl, hready⟩ := not_not.mp hend
  exact ⟨trace, world, hsteps, hready⟩

/-- Nobody else writes to the changelog of the sample partition. -/
theorem shared_partitioned : Shared (partitioned 2) Sample.calm (fun _ ↦ Sample.orders)
    Sample.orders :=
  ⟨fun _ _ hdisturb ↦ hdisturb.elim, fun _ _ hdisturb ↦ hdisturb.elim⟩

/-- All records of the two sample changelogs belong to the sample partition. -/
theorem attributed_twoRecords :
    Attributed (fun _ ↦ Sample.orders) (partitioned 2) twoRecords.broker := by
  intro tp entry hentry
  by_cases htp : tp = Sample.orders
  · exact fun _ _ ↦ htp.symm
  · have hspare : (partitioned 2).template tp = "spare.changelog" := if_neg htp
    rw [hspare] at hentry
    exact absurd hentry List.not_mem_nil

/-- Two records that were there before the store. -/
theorem converges_twoRecords : ∃ world leo,
    world.memory.state.statusOf Sample.orders = some .ready ∧
      Exact (partitioned 2) Sample.orders world leo := by
  obtain ⟨_, hstart⟩ := exists_started_twoRecords
  obtain ⟨_, _, world, hassign, hready⟩ := exists_revealing
  have hlife : Life (partitioned 2) Sample.calm 1
      (Issued (partitioned 2) (fun _ ↦ Sample.orders) Sample.orders) twoRecords
      twoRecords.started := by
    refine .finish .origin hstart ?_
    rintro _ _ _ ⟨⟩
  obtain ⟨leo, hexact⟩ := converges shared_partitioned rfl attributed_twoRecords hlife hassign
    hready
  exact ⟨world, leo, hready, hexact⟩

end KSQLite.Runs
