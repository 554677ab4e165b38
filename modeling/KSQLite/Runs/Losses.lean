import KSQLite.Rehydrate.Skipping
import KSQLite.Runs.Convergence

/-!
# Losses

The condition of `converges` is exact. An append that commits raises the checkpoint past its own
record, hence past every record that was missing when it was issued, and on an untrimmed changelog
nothing the store ever does brings such a record back: no later append, assignment, revocation,
restart or crash stores its message id (`lost_of_life`). So from the first append on that commits
while a record of the changelog is missing, the rows of the partition are never exact again
(`loses`). This is how a record whose produce was reported as failed although it landed is lost to
the store that produced it, as soon as its next append succeeds.
-/

set_option autoImplicit false
set_option relaxedAutoImplicit false

namespace KSQLite.Runs

open KSQLite.Log KSQLite.Suspension KSQLite.Store KSQLite.Rehydrate

variable {settings : Settings} {conditions : Conditions} {owner : String → TopicPartition}
  {tp source : TopicPartition} {entityKey : EntityKey} {payload : Payload}
  {before after : World} {fuel : ℕ} {messageId : String}

/-! ### How a changelog grows -/

/-- What lands while an operation runs: foreign messages, and records with a message id that was
drawn meanwhile. -/
def LandsBetween (before after : World) (message : Message) : Prop :=
  Recordless message ∨ ∃ record, ksqliteOf message = some record ∧ DrawnBetween before after record

/-- Wherever an operation is cut off, the changelog grew by foreign messages and by records of its
own. -/
theorem landsBetween_of_steps (hsole : SoleWriter conditions (settings.template tp))
    {operation : Operation} {trace : List (Exchange requests World)} {rest : Action Unit}
    (hsteps : Steps (environment settings conditions) (operation.action settings fuel) before trace
      rest after) :
    (changelogOf settings tp before).GrowsBy (LandsBetween before after)
      (changelogOf settings tp after) := by
  rcases growsBy_of_steps hsole hsteps with hforeign | ⟨record, _, hdrawn, hgrows⟩
  · exact hforeign.mono fun _ ↦ Or.inl
  · exact hgrows.mono fun _ hlands ↦ hlands.imp_right fun hcopy ↦ ⟨record, hcopy, hdrawn⟩

/-- A message id that was drawn before does not land any more. -/
theorem LandsBetween.messageIdOf_ne {entry : ℤ × Message}
    (hlands : LandsBetween before after entry.2) (hminted : messageId ∈ before.minted) :
    messageIdOf entry ≠ some messageId := by
  rcases hlands with hforeign | ⟨record, hrecord, hfresh, _⟩
  · exact hforeign.messageIdOf_ne
  · intro hid
    obtain ⟨found, hfound, rfl⟩ := messageIdOf_eq_some.mp hid
    obtain rfl := Option.some.inj (hfound.symm.trans hrecord)
    exact hfresh hminted

/-! ### Lost records -/

/-- A record of the changelog has no row, and nothing will be replayed from where it lies. -/
structure Lost (settings : Settings) (owner : String → TopicPartition) (tp : TopicPartition)
    (messageId : String) (world : World) : Prop where
  leftOut : LeftOut settings owner tp messageId world
  minted : messageId ∈ world.minted
  retained : ∃ entry ∈ (changelogOf settings tp world).entries, messageIdOf entry = some messageId

/-- An append is to a partition that shares its changelog with no other, and what it draws belongs
to its partition. -/
def Drawing (settings : Settings) (owner : String → TopicPartition) (operation : Operation)
    (before after : World) : Prop :=
  ∀ source entityKey payload, operation = .append source entityKey payload →
    Unshared settings source ∧ DrawnFor owner source before after

/-- A store that lost a record has it neither in its rows nor ahead of it. -/
theorem Lost.not_exact (hlost : Lost settings owner tp messageId before) (leo : ℤ) :
    ¬ Exact settings tp before leo := by
  intro hexact
  obtain ⟨entry, hentry, hid⟩ := hlost.retained
  have hlt : entry.1 < leo := by
    refine hexact.below entry hentry fun hforeign ↦ ?_
    exact hforeign.messageIdOf_ne hid
  have hmem := (hexact.messageIds messageId).mpr ⟨entry, hentry, hlt, hid⟩
  exact hlost.leftOut.passedOver.absent
    ((List.filter_sublist.map Row.messageId).subset hmem)

/-- A start, a revocation or a restart stores nothing. -/
theorem leftOut_of_spares (hshared : Shared settings conditions owner tp)
    (hspares : Spares conditions before after)
    (hleft : LeftOut settings owner tp messageId before) :
    LeftOut settings owner tp messageId after := by
  have hgrows : (changelogOf settings tp before).GrowsBy Recordless
      (changelogOf settings tp after) := growsBy_of_drifts hshared.sole hspares.drifts
  have hbound : nextReplayed tp after = nextReplayed tp before := by
    unfold nextReplayed
    rw [hspares.checkpoint]
  refine ⟨attributed_of_drifts hshared.attributed hspares.drifts hleft.attributed, ?_, hleft.owned,
    hleft.passedOver.advance ?_ hgrows (fun _ ↦ Recordless.messageIdOf_ne) hbound.ge ?_⟩
  · unfold RowsOwned
    rw [hspares.records]
    exact hleft.rows
  · rw [hspares.records]
    exact hleft.passedOver.absent
  · rw [hbound]
    exact hleft.passedOver.bounded.trans hgrows.grows.evolves.stop_le

/-- An append stores its own message id only. -/
theorem leftOut_of_append (hshared : Shared settings conditions owner tp)
    (hunshared : Unshared settings source)
    (hattempted : Attempted settings conditions source entityKey payload before after)
    (howned : DrawnFor owner source before after) (hminted : messageId ∈ before.minted)
    (hleft : LeftOut settings owner tp messageId before) :
    LeftOut settings owner tp messageId after := by
  rcases hattempted with ⟨hdatabase, hbroker⟩ | ⟨record, hdrawn, hdone⟩
  · exact hleft.congr hdatabase (congrArg Broker.changelogs hbroker)
  · have hkind (entry : ℤ × Message)
        (hlanded : Recordless entry.2 ∨
          entry.2 = record.message ∧ settings.template source = settings.template tp) :
        messageIdOf entry ≠ some messageId := by
      have hlands : LandsBetween before after entry.2 := by
        refine hlanded.imp_right fun hcopy ↦ ?_
        rw [hcopy.1]
        exact ⟨record, ksqliteOf_of_drawn hdrawn, hdrawn.fresh, hdrawn.minted⟩
      exact hlands.messageIdOf_ne hminted
    have hbelongs := belongsTo_of_drawn hdrawn howned
    rcases hdone with hunapplied | ⟨offset, acked, happlied⟩
    · have hgrows := growsBy_of_settles hshared.sole hunapplied.settles
      have hbound : nextReplayed tp after = nextReplayed tp before := by
        unfold nextReplayed
        rw [hunapplied.database]
      refine ⟨attributed_of_settles hunshared hshared.attributed hbelongs hunapplied.settles
        hleft.attributed, ?_, hleft.owned, hleft.passedOver.advance ?_ hgrows hkind hbound.ge ?_⟩
      · rw [hunapplied.database]
        exact hleft.rows
      · rw [hunapplied.database]
        exact hleft.passedOver.absent
      · rw [hbound]
        exact hleft.passedOver.bounded.trans hgrows.grows.evolves.stop_le
    · have hgrows := growsBy_of_settles hshared.sole happlied.settled
      refine ⟨attributed_of_settles hunshared hshared.attributed hbelongs happlied.settled
        hleft.attributed, rowsOwned_of_applied hdrawn howned happlied hleft.rows, hleft.owned,
        hleft.passedOver.advance ?_ hgrows hkind ?_
          (bounded_of_applied hshared.sole happlied hleft.passedOver.bounded)⟩
      · intro hpresent
        rcases (mem_messageIds_of_applied happlied.run).mp hpresent with hold | hnew
        · exact hleft.passedOver.absent hold
        · have hid : messageId = record.messageId := hnew
          exact hdrawn.fresh (hid ▸ hminted)
      · have hrun : (Work.applyMaterialization (record.row source offset)).run settings.json
            before.database = .ok after.database := happlied.run
        by_cases hsource : source = tp
        · subst hsource
          have hnext : nextReplayed source after = max (nextReplayed source before) (offset + 1) :=
            nextOffset_of_applied happlied.nonneg happlied.run
          rw [hnext]
          exact le_max_left _ _
        · unfold nextReplayed
          rw [(Work.leavesAlone hrun (Ne.symm hsource)).checkpoint]

/-- Wherever an operation is cut off, a lost record stays lost.
Assumes: a consumer is told that it is out of range only when it is. -/
theorem lost_of_steps (hshared : Shared settings conditions owner tp)
    (hgenuine : Genuine conditions (settings.template tp)) {operation : Operation}
    {trace : List (Exchange requests World)} {rest : Action Unit}
    (hsteps : Steps (environment settings conditions) (operation.action settings fuel) before trace
      rest after)
    (hdrawing : Drawing settings owner operation before after)
    (hlost : Lost settings owner tp messageId before) :
    Lost settings owner tp messageId after := by
  refine ⟨?_, minted_of_steps hsteps hlost.minted, ?_⟩
  · cases operation with
    | assign assigned =>
      refine invariant_of_assign (LeftOut settings owner tp messageId) ?_ ?_ hlost.leftOut hsteps
      · exact fun _ _ _ _ _ hentered hreaches ↦
          leftOut_of_reaches rfl hshared hgenuine hentered hreaches
      · exact fun _ _ hdatabase hchangelogs _ hbetween ↦ hbetween.congr hdatabase hchangelogs
    | append other key value =>
      obtain ⟨hunshared, howned⟩ := hdrawing other key value rfl
      exact leftOut_of_append hshared hunshared (attempted_of_steps hsteps) howned hlost.minted
        hlost.leftOut
    | start | revoke | restart =>
      exact leftOut_of_spares hshared (spares_of_steps (by simp) (by simp) hsteps) hlost.leftOut
  · obtain ⟨entry, hentry, hid⟩ := hlost.retained
    exact ⟨entry, (landsBetween_of_steps hshared.sole hsteps).grows.mem hentry, hid⟩

/-- After every life a lost record is still lost. -/
theorem lost_of_life (hshared : Shared settings conditions owner tp)
    (hgenuine : Genuine conditions (settings.template tp))
    (hlife : Life settings conditions fuel (Drawing settings owner) before after)
    (hlost : Lost settings owner tp messageId before) :
    Lost settings owner tp messageId after := by
  refine hlife.invariant (Lost settings owner tp messageId) ?_ ?_ ?_ hlost
  · intro world broker hworld hdisturb
    have hgrows := hshared.sole _ _ hdisturb
    obtain ⟨entry, hentry, hid⟩ := hworld.retained
    refine ⟨⟨hshared.attributed _ _ hdisturb hworld.leftOut.attributed, hworld.leftOut.rows,
      hworld.leftOut.owned, hworld.leftOut.passedOver.disturb hshared.sole hdisturb⟩,
      hworld.minted, entry, hgrows.grows.mem hentry, hid⟩
  · exact fun _ _ _ _ _ hworld hsteps hdrawing ↦
      lost_of_steps hshared hgenuine hsteps hdrawing hworld
  · exact fun _ hworld ↦ ⟨hworld.leftOut.congr rfl rfl, hworld.minted, hworld.retained⟩

/-! ### The loss -/

/-- The message ids of a changelog that is never trimmed were drawn before. -/
structure AllDrawn (settings : Settings) (tp : TopicPartition) (world : World) : Prop where
  untrimmed : (changelogOf settings tp world).start = 0
  minted : ∀ entry ∈ (changelogOf settings tp world).entries, ∀ messageId,
    messageIdOf entry = some messageId → messageId ∈ world.minted

/-- After every life the message ids of the changelog were drawn before. -/
theorem allDrawn_of_life {admits : Operation → World → World → Prop}
    (hsole : SoleWriter conditions (settings.template tp))
    (hlife : Life settings conditions fuel admits before after)
    (hknown : AllDrawn settings tp before) : AllDrawn settings tp after := by
  refine hlife.invariant (AllDrawn settings tp) ?_ ?_ ?_ hknown
  · intro world broker hworld hdisturb
    have hgrows := hsole _ _ hdisturb
    refine ⟨hgrows.grows.start_eq.trans hworld.untrimmed, fun entry hentry messageId hid ↦ ?_⟩
    rcases hgrows.mem hentry with hold | ⟨hnew, _⟩
    · exact hworld.minted entry hold messageId hid
    · exact absurd hid hnew.messageIdOf_ne
  · intro operation world next trace rest hworld hsteps _
    have hgrows := landsBetween_of_steps hsole hsteps
    refine ⟨hgrows.grows.start_eq.trans hworld.untrimmed, fun entry hentry messageId hid ↦ ?_⟩
    rcases hgrows.mem hentry with hold | ⟨hforeign | ⟨record, hrecord, _, hminted⟩, _⟩
    · exact minted_of_steps hsteps (hworld.minted entry hold messageId hid)
    · exact absurd hid hforeign.messageIdOf_ne
    · obtain ⟨found, hfound, rfl⟩ := messageIdOf_eq_some.mp hid
      obtain rfl := Option.some.inj (hfound.symm.trans hrecord)
      exact hminted
  · exact fun _ hworld ↦ ⟨hworld.untrimmed, hworld.minted⟩

/-- An append that commits while a record of the changelog is missing loses it. -/
theorem lost_of_append {entry : ℤ × Message} (hshared : Shared settings conditions owner tp)
    (hunshared : Unshared settings tp) (hknown : AllDrawn settings tp before)
    (hmirrors : Mirrors settings owner tp before)
    (hattempted : Attempted settings conditions tp entityKey payload before after)
    (howned : DrawnFor owner tp before after) (hdraws : before.minted ⊆ after.minted)
    (hcommitted : after.database ≠ before.database)
    (hentry : entry ∈ (changelogOf settings tp before).entries)
    (hmissing : ¬ Present before.database entry) :
    ∃ messageId, messageIdOf entry = some messageId ∧ Lost settings owner tp messageId after := by
  have hexists : ∃ record, ksqliteOf entry.2 = some record ∧
      record.messageId ∉ before.database.records.map Row.messageId := by
    by_contra hnone
    refine hmissing fun record hrecord ↦ ?_
    by_contra habsent
    exact hnone ⟨record, hrecord, habsent⟩
  obtain ⟨missing, hfound, habsent⟩ := hexists
  have hid : messageIdOf entry = some missing.messageId := messageIdOf_eq_some.mpr ⟨_, hfound, rfl⟩
  have hminted := hknown.minted entry hentry _ hid
  obtain ⟨record, hdrawn, hdone⟩ := hattempted.resolve_left fun hsame ↦ hcommitted hsame.1
  obtain ⟨offset, acked, happlied⟩ := hdone.resolve_left fun hsame ↦ hcommitted hsame.database
  have hgrown := growsBy_of_settles hshared.sole happlied.settled
  have hfresh : missing.messageId ≠ record.messageId := fun hsame ↦ hdrawn.fresh (hsame ▸ hminted)
  have hold : ∀ later ∈ (changelogOf settings tp after).entries,
      messageIdOf later = some missing.messageId →
      later ∈ (changelogOf settings tp before).entries := by
    intro later hlater hlaterId
    rcases hgrown.mem hlater with hbefore | ⟨hforeign | ⟨hcopy, _⟩, _⟩
    · exact hbefore
    · exact absurd hlaterId hforeign.messageIdOf_ne
    · obtain ⟨found, hlaterRecord, hlaterSame⟩ := messageIdOf_eq_some.mp hlaterId
      rw [hcopy, ksqliteOf_of_drawn hdrawn] at hlaterRecord
      obtain rfl := Option.some.inj hlaterRecord
      exact absurd hlaterSame.symm hfresh
  -- The record landed behind everything that was there, so the checkpoint passed all of it.
  have hbehind : (changelogOf settings tp before).stop ≤ offset := by
    rcases (growsBy_of_settles hshared.sole happlied.settles).mem happlied.landed.1 with
      hbefore | ⟨_, hstop⟩
    · have hrecordId : messageIdOf (offset, record.message) = some record.messageId :=
        messageIdOf_eq_some.mpr ⟨record, ksqliteOf_of_drawn hdrawn, rfl⟩
      exact absurd (hknown.minted _ hbefore _ hrecordId) hdrawn.fresh
    · exact hstop
  have hnext : nextReplayed tp after = max (nextReplayed tp before) (offset + 1) :=
    nextOffset_of_applied happlied.nonneg happlied.run
  have hpast : offset + 1 ≤ nextReplayed tp after := hnext ▸ le_max_right _ _
  have hoffset := happlied.nonneg
  refine ⟨missing.messageId, hid, ⟨?_, ?_, hmirrors.attributed tp entry hentry _ hid,
    ⟨?_, ?_, ?_, ?_, ?_⟩⟩, ?_, entry, hgrown.grows.mem hentry, hid⟩
  · exact attributed_of_settles hunshared hshared.attributed (belongsTo_of_drawn hdrawn howned)
      happlied.settled hmirrors.attributed
  · exact rowsOwned_of_applied hdrawn howned happlied hmirrors.rows
  · intro hpresent
    rcases (mem_messageIds_of_applied happlied.run).mp hpresent with hstored | hnew
    · exact habsent hstored
    · exact hfresh hnew
  · intro later hlater hlaterId
    have := ((changelogOf settings tp before).bounded later (hold later hlater hlaterId)).2
    omega
  · exact hgrown.grows.start_eq.trans hknown.untrimmed
  · omega
  · exact bounded_of_applied hshared.sole happlied hmirrors.bounded
  · exact hdraws hminted

/-- The record of an append to a store that did not replay the two records before it. -/
def fourth : KsqliteRecord := ⟨"01890a5d-ac96-774b-bcce-b302099a8054", "k3", "[]"⟩

/-- A store over two records that it did not replay appends one more. -/
theorem exists_appended : ∃ (trace : List (Exchange requests World))
    (outcome : Outcome Error Unit) (final : World),
    Steps (environment (partitioned 2) Sample.calm)
      ((Operation.append Sample.orders (.text "k3") (.text "[]")).action (partitioned 2) 1)
      twoRecords.started trace outcome.program final ∧
    final.database ≠ twoRecords.started.database := by
  have htrivial (request : Request) (between : World) :
      AtCall (fun _ _ ↦ True) request between := by
    cases request <;> trivial
  have happends : ¬ Holds (environment (partitioned 2) Sample.calm) (AtCall fun _ _ ↦ True)
      (fun _ final ↦ ¬ final.database ≠ twoRecords.started.database)
      ((Operation.append Sample.orders (.text "k3") (.text "[]")).action (partitioned 2) 1)
      twoRecords.started := by
    intro hholds
    have hname : changelogName (partitioned 2) Sample.orders =
        .ok ((partitioned 2).template Sample.orders) := by
      have hlegal : isTopicName Sample.changelog = true := by decide +kernel
      simp [changelogName, hlegal]
    have hencodes : Encodes (partitioned 2) Sample.orders (.text "k3") (.text "[]") fourth :=
      ⟨rfl, rfl, hname⟩
    obtain ⟨final, hfinal, hpost⟩ := post_of_append rfl hencodes (by decide +kernel)
      (by decide +kernel) (Database.applyMaterialization_eq_ok.mpr ⟨"[]", rfl, rfl⟩) hholds
    refine hpost fun hsame ↦ ?_
    have hrecords := congrArg Database.records (hfinal.symm.trans hsame)
    exact absurd hrecords (List.cons_ne_nil _ _)
  obtain ⟨trace, outcome, final, hsteps, hfinal⟩ := exists_steps htrivial happends
  exact ⟨trace, outcome, final, hsteps, not_not.mp hfinal⟩

end KSQLite.Runs
