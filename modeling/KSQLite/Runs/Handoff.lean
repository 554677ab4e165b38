import KSQLite.Runs.Outcomes

/-!
# Hand-off between stores

A `Fleet` is any number of stores, each with a database and a memory of its own, over one broker.
One of them at a time holds a given partition: it names it in assignments until it revoked it or was
constructed anew, and appends to it while it calls it `READY` and no append of valid arguments
failed since its last assignment that returned (`Permitted`). Operations run one after another, each
to its end or cut off by a crash (`Fleet.Step`).

`Intact` is what every step keeps (`intact_step`): every store mirrors the changelog, no message id
stands for two records, a store with no failed append is truthful, and only the holder calls the
partition `READY`. So whenever a store that no append failed calls the partition `READY`, its rows
have the contents of a cold rebuild of the whole changelog (`handed_off`).
-/

set_option autoImplicit false
set_option relaxedAutoImplicit false

namespace KSQLite.Runs

open KSQLite.Log KSQLite.Suspension KSQLite.Store KSQLite.Rehydrate

/-! ### Changelogs of records -/

/-- A message id stands for one record. -/
def Uniform (log : OffsetLog Message) : Prop :=
  ∀ first ∈ log.entries, ∀ second ∈ log.entries, ∀ record other,
    ksqliteOf first.2 = some record → ksqliteOf second.2 = some other →
    record.messageId = other.messageId → record = other

/-- The message ids of a changelog were drawn. -/
def IdsDrawn (minted : Finset String) (log : OffsetLog Message) : Prop :=
  ∀ entry ∈ log.entries, ∀ record, ksqliteOf entry.2 = some record → record.messageId ∈ minted

/-- What a row holds besides its place: its message id, its key and its payload. -/
def content (row : Row) : String × String × String :=
  (row.messageId, row.entityKey, row.payload)

section Logs

variable {settings : Settings} {owner : String → TopicPartition} {tp : TopicPartition}
  {log next : OffsetLog Message} {minted more : Finset String} {world : World}

theorem Uniform.grows (huniform : Uniform log) (hgrows : log.GrowsBy Recordless next) :
    Uniform next := by
  have hold {entry : ℤ × Message} (hentry : entry ∈ next.entries) {record : KsqliteRecord}
      (hrecord : ksqliteOf entry.2 = some record) : entry ∈ log.entries := by
    rcases hgrows.mem hentry with hbefore | ⟨hnew, _⟩
    · exact hbefore
    · rw [hnew] at hrecord
      cases hrecord
  intro first hfirst second hsecond record other hrecord hother hid
  exact huniform first (hold hfirst hrecord) second (hold hsecond hother) record other hrecord
    hother hid

/-- Copies of a record whose message id is new. -/
theorem Uniform.lands {record : KsqliteRecord} (huniform : Uniform log)
    (hdrawn : IdsDrawn minted log) (hfresh : record.messageId ∉ minted)
    (hgrows : log.GrowsBy (Lands record) next) : Uniform next := by
  have hcases {entry : ℤ × Message} (hentry : entry ∈ next.entries) {found : KsqliteRecord}
      (hfound : ksqliteOf entry.2 = some found) :
      entry ∈ log.entries ∧ found.messageId ∈ minted ∨ found = record := by
    rcases hgrows.mem hentry with hbefore | ⟨hforeign | hcopy, _⟩
    · exact Or.inl ⟨hbefore, hdrawn entry hbefore found hfound⟩
    · rw [hforeign] at hfound
      cases hfound
    · exact Or.inr (Option.some.inj (hfound.symm.trans hcopy))
  intro first hfirst second hsecond found other hfound hother hid
  rcases hcases hfirst hfound with ⟨hold, hknown⟩ | rfl
  · rcases hcases hsecond hother with ⟨hlater, _⟩ | rfl
    · exact huniform first hold second hlater found other hfound hother hid
    · exact absurd (hid ▸ hknown) hfresh
  · rcases hcases hsecond hother with ⟨_, hknown⟩ | rfl
    · exact absurd (hid ▸ hknown) hfresh
    · rfl

theorem IdsDrawn.grows (hdrawn : IdsDrawn minted log) (hgrows : log.GrowsBy Recordless next)
    (hmore : minted ⊆ more) : IdsDrawn more next := by
  intro entry hentry record hrecord
  rcases hgrows.mem hentry with hold | ⟨hnew, _⟩
  · exact hmore (hdrawn entry hold record hrecord)
  · rw [hnew] at hrecord
    cases hrecord

theorem IdsDrawn.lands {record : KsqliteRecord} (hdrawn : IdsDrawn minted log)
    (hgrows : log.GrowsBy (Lands record) next) (hmore : minted ⊆ more)
    (hrecord : record.messageId ∈ more) : IdsDrawn more next := by
  intro entry hentry found hfound
  rcases hgrows.mem hentry with hold | ⟨hforeign | hcopy, _⟩
  · exact hmore (hdrawn entry hold found hfound)
  · rw [hforeign] at hfound
    cases hfound
  · rwa [Option.some.inj (hfound.symm.trans hcopy)]

/-- Rows of one message id have one content, wherever the copies of its record lie. -/
theorem Uniform.content_eq {json : String → Option String} {first second : ℤ × Message}
    {row other : Row} (huniform : Uniform log) (hfirst : first ∈ log.entries)
    (hsecond : second ∈ log.entries) (hrow : rowOf json tp first = some row)
    (hother : rowOf json tp second = some other) (hid : row.messageId = other.messageId) :
    content row = content other := by
  obtain ⟨record, hrecord, payload, hpayload, rfl⟩ := rowOf_eq_some.mp hrow
  obtain ⟨found, hfound, stored, hstored, rfl⟩ := rowOf_eq_some.mp hother
  obtain rfl := huniform first hfirst second hsecond record found hrecord hfound hid
  rw [hpayload] at hstored
  cases hstored
  rfl

/-- The rows of a caught-up partition have the contents of a cold rebuild of its changelog. -/
theorem rebuilt_of_caughtUp (hmirrors : Mirrors settings owner tp world)
    (hcaught : CaughtUp settings tp world) (huniform : Uniform (changelogOf settings tp world)) :
    ((world.database.rowsOf tp).map content).Perm
      ((replayed settings.json tp (changelogOf settings tp world)
        (changelogOf settings tp world).stop).map content) := by
  let log := changelogOf settings tp world
  have hwhole : log.below log.stop = log.entries :=
    List.filter_eq_self.mpr fun entry hentry ↦ decide_eq_true (log.bounded entry hentry).2
  have hrebuilt {row : Row} (hrow : row ∈ replayed settings.json tp log log.stop) :
      ∃ entry ∈ log.entries, rowOf settings.json tp entry = some row := by
    unfold replayed at hrow
    rw [hwhole] at hrow
    exact List.mem_filterMap.mp ((mem_insertAll hrow).resolve_left List.not_mem_nil)
  have hunique : ((world.database.rowsOf tp).map Row.messageId).Nodup :=
    world.database.unique.sublist (List.filter_sublist.map Row.messageId)
  have hrebuiltUnique :
      ((replayed settings.json tp log log.stop).map Row.messageId).Nodup := by
    have hempty : (([] : List Row).map Row.messageId).Nodup := List.nodup_nil
    exact nodup_keys_insertAll hempty _
  refine perm_map_of_keys hunique hrebuiltUnique (fun messageId ↦ ⟨fun hid ↦ ?_, fun hid ↦ ?_⟩) ?_
  · obtain ⟨row, hrow, rfl⟩ := List.mem_map.mp hid
    obtain ⟨entry, hentry, hrowOf⟩ := hmirrors.grounded row hrow
    unfold replayed
    rw [hwhole]
    refine mem_keys_insertAll.mpr (Or.inr (List.mem_map_of_mem ?_))
    exact List.mem_filterMap.mpr ⟨entry, hentry, hrowOf⟩
  · obtain ⟨row, hrow, rfl⟩ := List.mem_map.mp hid
    obtain ⟨entry, hentry, hrowOf⟩ := hrebuilt hrow
    exact mem_rowsOf_of_present hmirrors hentry (hcaught.present entry hentry)
      (messageIdOf_of_rowOf hrowOf)
  · intro row hrow other hother hid
    obtain ⟨first, hfirst, hrowOf⟩ := hmirrors.grounded row hrow
    obtain ⟨second, hsecond, hotherOf⟩ := hrebuilt hother
    exact huniform.content_eq hfirst hsecond hrowOf hotherOf hid

end Logs

/-! ### The fleet -/

section Fleet

variable {Instance : Type} [DecidableEq Instance]

/-- Stores over one broker, and two things the host knows: which one holds the partition, and to
which an append of valid arguments failed since its last assignment that left it `READY`. -/
structure Fleet (Instance : Type) where
  databases : Instance → Database
  memories : Instance → Memory
  broker : Broker
  minted : Finset String
  holder : Option Instance
  failed : Instance → Prop

/-- What one store sees. -/
def Fleet.world (fleet : Fleet Instance) (node : Instance) : World where
  database := fleet.databases node
  memory := fleet.memories node
  broker := fleet.broker
  minted := fleet.minted

/-- One store went on to another world. -/
def Fleet.put (fleet : Fleet Instance) (node : Instance) (world : World) : Fleet Instance :=
  { fleet with
    databases := Function.update fleet.databases node world.database
    memories := Function.update fleet.memories node world.memory
    broker := world.broker
    minted := world.minted }

/-- Who holds the partition after an operation of a store. -/
def Fleet.holderAfter (fleet : Fleet Instance) (tp : TopicPartition) (node : Instance) :
    Operation → Outcome Error Unit → Option Instance
  | .assign assigned, _ => if tp ∈ assigned then some node else fleet.holder
  | .revoke revoked, .returned _ =>
    if tp ∈ revoked ∧ fleet.holder = some node then none else fleet.holder
  | .restart, _ => if fleet.holder = some node then none else fleet.holder
  | _, _ => fleet.holder

/-- Whether an append to a store failed, after an operation of it. -/
def Fleet.failedAfter (fleet : Fleet Instance) (settings : Settings) (tp : TopicPartition)
    (node : Instance) (after : World) : Operation → Outcome Error Unit → Prop
  | .append source entityKey payload, outcome =>
    fleet.failed node ∨ source = tp ∧ outcome ≠ .returned () ∧
      ∃ record, Encodes settings source entityKey payload record
  | .assign assigned, outcome =>
    fleet.failed node ∧ ¬ (tp ∈ assigned ∧ outcome = .returned () ∧ IsReady tp after)
  | .restart, _ => False
  | _, _ => fleet.failed node

/-- A store ended an operation. -/
def Fleet.finish (fleet : Fleet Instance) (settings : Settings) (tp : TopicPartition)
    (node : Instance) (operation : Operation) (outcome : Outcome Error Unit) (after : World) :
    Fleet Instance :=
  { fleet.put node after with
    holder := fleet.holderAfter tp node operation outcome
    failed := Function.update fleet.failed node
      (fleet.failedAfter settings tp node after operation outcome) }

/-- A store crashed and was constructed anew. -/
def Fleet.crash (fleet : Fleet Instance) (node : Instance) (after : World) : Fleet Instance :=
  { fleet.put node after.restarted with
    holder := if fleet.holder = some node then none else fleet.holder
    failed := Function.update fleet.failed node False }

/-- What the host of a store does: it appends to partitions that share their changelog with no
other, to the given one only while it holds it `READY` and no append failed; and it has the given
one assigned only if no other store holds it. -/
structure Permitted (settings : Settings) (owner : String → TopicPartition) (tp : TopicPartition)
    (fleet : Fleet Instance) (node : Instance) (operation : Operation) (after : World) : Prop where
  append : ∀ source entityKey payload, operation = .append source entityKey payload →
    Unshared settings source ∧ DrawnFor owner source (fleet.world node) after ∧
      (source = tp →
        fleet.holder = some node ∧ IsReady tp (fleet.world node) ∧ ¬ fleet.failed node)
  assign : ∀ assigned, operation = .assign assigned → tp ∈ assigned →
    fleet.holder = none ∨ fleet.holder = some node

/-- One step of a fleet: others act on the broker, or a store runs an operation to its end or until
it crashes. -/
inductive Fleet.Step (configure : Instance → Settings) (conditions : Conditions) (fuel : ℕ)
    (owner : String → TopicPartition) (tp : TopicPartition) :
    Fleet Instance → Fleet Instance → Prop
  | drift {fleet broker} : conditions.disturbs fleet.broker broker →
      Fleet.Step configure conditions fuel owner tp fleet { fleet with broker := broker }
  | finish {fleet node operation trace after} {outcome : Outcome Error Unit} :
      Steps (environment (configure node) conditions) (operation.action (configure node) fuel)
        (fleet.world node) trace outcome.program after →
      Permitted (configure node) owner tp fleet node operation after →
      Fleet.Step configure conditions fuel owner tp fleet
        (fleet.finish (configure node) tp node operation outcome after)
  | crash {fleet node operation trace after} {rest : Action Unit} :
      Steps (environment (configure node) conditions) (operation.action (configure node) fuel)
        (fleet.world node) trace rest after →
      Permitted (configure node) owner tp fleet node operation after →
      Fleet.Step configure conditions fuel owner tp fleet (fleet.crash node after)

/-- An operation of a store in a history, and how it ended unless the store crashed. -/
structure Event (Instance : Type) where
  node : Instance
  operation : Operation
  outcome : Option (Outcome Error Unit)

/-- The operations of a run of a fleet, in their order. -/
inductive Fleet.History (configure : Instance → Settings) (conditions : Conditions) (fuel : ℕ)
    (owner : String → TopicPartition) (tp : TopicPartition) (origin : Fleet Instance) :
    List (Event Instance) → Fleet Instance → Prop
  | nil : Fleet.History configure conditions fuel owner tp origin [] origin
  | drift {events fleet broker} :
      Fleet.History configure conditions fuel owner tp origin events fleet →
      conditions.disturbs fleet.broker broker →
      Fleet.History configure conditions fuel owner tp origin events { fleet with broker := broker }
  | finish {events fleet node operation trace after} {outcome : Outcome Error Unit} :
      Fleet.History configure conditions fuel owner tp origin events fleet →
      Steps (environment (configure node) conditions) (operation.action (configure node) fuel)
        (fleet.world node) trace outcome.program after →
      Permitted (configure node) owner tp fleet node operation after →
      Fleet.History configure conditions fuel owner tp origin
        (events ++ [⟨node, operation, some outcome⟩])
        (fleet.finish (configure node) tp node operation outcome after)
  | crash {events fleet node operation trace after} {rest : Action Unit} :
      Fleet.History configure conditions fuel owner tp origin events fleet →
      Steps (environment (configure node) conditions) (operation.action (configure node) fuel)
        (fleet.world node) trace rest after →
      Permitted (configure node) owner tp fleet node operation after →
      Fleet.History configure conditions fuel owner tp origin
        (events ++ [⟨node, operation, none⟩]) (fleet.crash node after)

/-- Stores of one configuration, as far as the changelog and its payloads go. -/
def Peers (configure : Instance → Settings) (settings : Settings) : Prop :=
  ∀ node, (configure node).template = settings.template ∧ (configure node).json = settings.json

/-- What every step of a fleet keeps. -/
structure Intact (configure : Instance → Settings) (settings : Settings)
    (owner : String → TopicPartition) (tp : TopicPartition) (fleet : Fleet Instance) : Prop where
  uniform : Uniform (fleet.broker.changelogs (settings.template tp))
  drawn : IdsDrawn fleet.minted (fleet.broker.changelogs (settings.template tp))
  mirrors : ∀ node, Mirrors (configure node) owner tp (fleet.world node)
  truthful : ∀ node, ¬ fleet.failed node → Truthful (configure node) tp (fleet.world node)
  held : ∀ node, IsReady tp (fleet.world node) → fleet.holder = some node

/-! ### Peers -/

section Peers

variable {settings other : Settings} {conditions : Conditions} {owner : String → TopicPartition}
  {tp : TopicPartition} {world : World} {broker : Broker}

theorem changelogOf_of_peer (htemplate : other.template = settings.template) (world : World) :
    changelogOf other tp world = changelogOf settings tp world := by
  unfold changelogOf
  rw [htemplate]

theorem attributed_of_peer (htemplate : other.template = settings.template)
    (hattributed : Attributed owner settings broker) : Attributed owner other broker := by
  unfold Attributed
  rw [htemplate]
  exact hattributed

theorem shared_of_peer (htemplate : other.template = settings.template)
    (hshared : Shared settings conditions owner tp) : Shared other conditions owner tp where
  sole := htemplate ▸ hshared.sole
  attributed broker after hdisturb hattributed :=
    attributed_of_peer htemplate
      (hshared.attributed broker after hdisturb (attributed_of_peer htemplate.symm hattributed))

theorem mirrors_of_peer (htemplate : other.template = settings.template)
    (hjson : other.json = settings.json) (hmirrors : Mirrors settings owner tp world) :
    Mirrors other owner tp world := by
  have hlog := @changelogOf_of_peer settings other tp htemplate world
  refine ⟨attributed_of_peer htemplate hmirrors.attributed, hmirrors.rows, ?_, ?_, ?_⟩
  · rw [hlog, hjson]
    exact hmirrors.grounded
  · rw [hlog]
    exact hmirrors.covered
  · rw [hlog]
    exact hmirrors.bounded

theorem caughtUp_of_peer (htemplate : other.template = settings.template)
    (hcaught : CaughtUp settings tp world) : CaughtUp other tp world := by
  have hlog := @changelogOf_of_peer settings other tp htemplate world
  refine ⟨?_, ?_⟩
  · rw [hlog]
    exact hcaught.present
  · rw [hlog]
    exact hcaught.below

end Peers

/-! ### Steps of a fleet -/

variable {configure : Instance → Settings} {settings : Settings} {conditions : Conditions}
  {fuel : ℕ} {owner : String → TopicPartition} {tp : TopicPartition}
  {fleet next : Fleet Instance} {node : Instance} {operation : Operation} {after : World}
  {trace : List (Exchange requests World)}

@[simp] theorem Fleet.world_put_self : (fleet.put node after).world node = after := by
  simp [Fleet.world, Fleet.put]

@[simp] theorem Fleet.world_finish_self {outcome : Outcome Error Unit} :
    (fleet.finish settings tp node operation outcome after).world node = after :=
  Fleet.world_put_self

/-- The other stores see another broker. -/
theorem Fleet.world_put_of_ne {other : Instance} (hother : other ≠ node) :
    (fleet.put node after).world other =
      { fleet.world other with broker := after.broker, minted := after.minted } := by
  simp [Fleet.world, Fleet.put, hother]

theorem Fleet.world_crash_of_ne {other : Instance} (hother : other ≠ node) :
    (fleet.crash node after).world other = (fleet.put node after).world other := by
  have hcrashed : (fleet.crash node after).world other =
      (fleet.put node after.restarted).world other := rfl
  rw [hcrashed, Fleet.world_put_of_ne hother, Fleet.world_put_of_ne hother]
  rfl

omit [DecidableEq Instance] in
/-- A permitted operation is issued as a life of the store needs it. -/
theorem Permitted.issued (hintact : Intact configure settings owner tp fleet)
    (hpermitted : Permitted (configure node) owner tp fleet node operation after) :
    Issued (configure node) owner tp operation (fleet.world node) after := by
  intro source entityKey payload happend
  obtain ⟨hunshared, hdrawn, hholds⟩ := hpermitted.append source entityKey payload happend
  refine ⟨hunshared, hdrawn, fun hsource ↦ Or.inr ?_⟩
  obtain ⟨_, hready, hunfailed⟩ := hholds hsource
  exact (hintact.truthful node hunfailed hready).present

section Operations

variable {rest : Action Unit}
  (hpeers : Peers configure settings) (hshared : Shared settings conditions owner tp)
  (hintact : Intact configure settings owner tp fleet)
  (hsteps : Steps (environment (configure node) conditions)
    (operation.action (configure node) fuel) (fleet.world node) trace rest after)
  (hpermitted : Permitted (configure node) owner tp fleet node operation after)

include hpeers hshared hintact hsteps hpermitted

omit [DecidableEq Instance] in
/-- Wherever an operation of a store is cut off, the store mirrors the changelog. -/
theorem mirrors_of_permitted : Mirrors (configure node) owner tp after :=
  mirrors_of_steps (shared_of_peer (hpeers node).1 hshared) hsteps (hpermitted.issued hintact)
    (hintact.mirrors node)

omit [DecidableEq Instance] hpermitted in
/-- Wherever an operation of a store is cut off, message ids stand for one record each and were
drawn. -/
theorem logs_of_permitted : Uniform (after.broker.changelogs (settings.template tp)) ∧
    IdsDrawn after.minted (after.broker.changelogs (settings.template tp)) := by
  have hsole := (shared_of_peer (hpeers node).1 hshared).sole
  have hlog (world : World) : changelogOf (configure node) tp world =
      world.broker.changelogs (settings.template tp) := changelogOf_of_peer (hpeers node).1 world
  have hmore : fleet.minted ⊆ after.minted := minted_of_steps hsteps
  rcases growsBy_of_steps hsole hsteps with hgrows | ⟨record, _, hdrawn, hgrows⟩
  · rw [hlog, hlog] at hgrows
    exact ⟨hintact.uniform.grows hgrows, hintact.drawn.grows hgrows hmore⟩
  · rw [hlog, hlog] at hgrows
    exact ⟨hintact.uniform.lands hintact.drawn hdrawn.1 hgrows,
      hintact.drawn.lands hgrows hmore hdrawn.2⟩

/-- Wherever an operation of a store is cut off, the other stores mirror the changelog, and those
that call the partition `READY` are as caught up as they were. -/
theorem others_of_permitted {other : Instance} (hother : other ≠ node) :
    Mirrors (configure other) owner tp ((fleet.put node after).world other) ∧
      (¬ fleet.failed other → Truthful (configure other) tp ((fleet.put node after).world other))
      := by
  rw [Fleet.world_put_of_ne hother]
  let seen : World := { fleet.world other with broker := after.broker, minted := after.minted }
  have htemplate : (configure other).template = (configure node).template :=
    (hpeers other).1.trans (hpeers node).1.symm
  have hlog (world : World) : changelogOf (configure other) tp world =
      changelogOf (configure node) tp world := changelogOf_of_peer htemplate world
  have hsole := (shared_of_peer (hpeers node).1 hshared).sole
  have hattributed := attributed_of_peer htemplate
    (mirrors_of_permitted hpeers hshared hintact hsteps hpermitted).attributed
  rcases growsBy_of_steps hsole hsteps with hgrows | ⟨record, hwrites, _, hgrows⟩
  · have hforeign : (changelogOf (configure other) tp (fleet.world other)).GrowsBy Recordless
        (changelogOf (configure other) tp seen) := by
      rw [hlog, hlog]
      exact hgrows
    exact ⟨(hintact.mirrors other).grows hattributed rfl hforeign.grows,
      fun hunfailed hready ↦ (hintact.truthful other hunfailed hready).grows rfl hforeign⟩
  · have hlanded : (changelogOf (configure other) tp (fleet.world other)).Grows
        (changelogOf (configure other) tp seen) := by
      rw [hlog, hlog]
      exact hgrows.grows
    refine ⟨(hintact.mirrors other).grows hattributed rfl hlanded, fun _ hready ↦ ?_⟩
    -- The appending store holds the partition, so no other one calls it `READY`.
    obtain ⟨source, entityKey, payload, happend, hsame⟩ := hwrites
    obtain ⟨hunshared, _, hholds⟩ := hpermitted.append source entityKey payload happend
    have hholder := (hholds (hunshared tp hsame.symm).symm).1
    have hnow := hintact.held other hready
    rw [hholder] at hnow
    exact absurd (Option.some.inj hnow).symm hother

end Operations

omit [DecidableEq Instance] in
/-- A store is truthful after an operation it finished, unless an append failed. -/
theorem truthful_of_finished {outcome : Outcome Error Unit} (hpeers : Peers configure settings)
    (hshared : Shared settings conditions owner tp)
    (hintact : Intact configure settings owner tp fleet)
    (hsteps : Steps (environment (configure node) conditions)
      (operation.action (configure node) fuel) (fleet.world node) trace outcome.program after)
    (hpermitted : Permitted (configure node) owner tp fleet node operation after)
    (hunfailed : ¬ fleet.failedAfter (configure node) tp node after operation outcome) :
    Truthful (configure node) tp after := by
  have hpeer := shared_of_peer (hpeers node).1 hshared
  have hbefore := hintact.truthful node
  have hspares (hready : IsReady tp after → IsReady tp (fleet.world node))
      (hstill : ¬ fleet.failed node) (hspared : Spares conditions (fleet.world node) after) :
      Truthful (configure node) tp after :=
    fun hnow ↦ caughtUp_of_spares hpeer.sole hspared (hbefore hstill (hready hnow))
  cases operation with
  | append source entityKey payload =>
    obtain ⟨hnever, hvalid⟩ := not_or.mp hunfailed
    have hends : AppendEnds (configure node) conditions source entityKey payload (fleet.world node)
        outcome after := holds_appendEnds.outcome hsteps
    intro hnow
    have hcaught := hbefore hnever (hends.ready tp hnow)
    by_cases hsource : source = tp
    · subst hsource
      by_cases hreturned : outcome = .returned ()
      · obtain ⟨record, hdrawn, offset, acked, happlied⟩ := hends.applied hreturned
        exact caughtUp_of_applied hpeer.sole hdrawn happlied hcaught
      · obtain ⟨hdatabase, hbroker⟩ := hends.refused hreturned
          fun record hencodes ↦ hvalid ⟨rfl, hreturned, record, hencodes⟩
        exact hcaught.congr hdatabase (congrArg Broker.changelogs hbroker)
    · obtain ⟨hunshared, _⟩ := hpermitted.append source entityKey payload rfl
      exact caughtUp_of_attempted_elsewhere hpeer.sole hunshared hsource
        (attempted_of_steps hsteps) hcaught
  | assign assigned =>
    have hends := (holds_assignEnds hpeer (hintact.mirrors node)).outcome hsteps
    by_cases hfailed : fleet.failed node
    · have hdone : tp ∈ assigned ∧ outcome = .returned () ∧ IsReady tp after := by
        by_contra hnot
        exact hunfailed ⟨hfailed, hnot⟩
      exact hends.returned hdone.2.1 hdone.1
    · exact hends.truthful (hbefore hfailed)
  | start =>
    exact hspares (holds_start_ready.outcome hsteps) hunfailed
      (spares_of_steps (by simp) (by simp) hsteps)
  | revoke revoked =>
    exact hspares ((holds_revokeEnds.outcome hsteps).ready tp) hunfailed
      (spares_of_steps (by simp) (by simp) hsteps)
  | restart => exact fun hnow ↦ absurd hnow (not_ready_of_restart hsteps)

/-- After an operation it finished, a store that calls the partition `READY` holds it. -/
theorem held_of_finished {outcome : Outcome Error Unit} (hpeers : Peers configure settings)
    (hshared : Shared settings conditions owner tp)
    (hintact : Intact configure settings owner tp fleet)
    (hsteps : Steps (environment (configure node) conditions)
      (operation.action (configure node) fuel) (fleet.world node) trace outcome.program after)
    (hnow : IsReady tp after) : fleet.holderAfter tp node operation outcome = some node := by
  have hheld := hintact.held node
  cases operation with
  | append source entityKey payload =>
    have hends : AppendEnds (configure node) conditions source entityKey payload (fleet.world node)
        outcome after := holds_appendEnds.outcome hsteps
    exact hheld (hends.ready tp hnow)
  | assign assigned =>
    have hends := (holds_assignEnds (shared_of_peer (hpeers node).1 hshared)
      (hintact.mirrors node)).outcome hsteps
    by_cases hassigned : tp ∈ assigned
    · exact if_pos hassigned
    · exact (if_neg hassigned).trans (hheld (hends.ready hassigned hnow))
  | start => exact hheld (holds_start_ready.outcome hsteps hnow)
  | revoke revoked =>
    have hends := (holds_revokeEnds.outcome hsteps : RevokeEnds _ _ _ _)
    have hbefore := hheld (hends.ready tp hnow)
    cases outcome with
    | returned value =>
      have hkept : tp ∉ revoked := fun hrevoked ↦ hends.returned rfl tp hrevoked hnow
      exact (if_neg fun hboth ↦ hkept hboth.1).trans hbefore
    | raised error => exact hbefore
    | exhausted => exact hbefore
  | restart => exact absurd hnow (not_ready_of_restart hsteps)

/-- After an operation of a store another one that held the partition still does. -/
theorem holder_of_ne {outcome : Outcome Error Unit} {other : Instance} (hother : other ≠ node)
    (hpermitted : Permitted (configure node) owner tp fleet node operation after)
    (hheld : fleet.holder = some other) :
    fleet.holderAfter tp node operation outcome = some other := by
  have hnot : fleet.holder ≠ some node := by
    rw [hheld]
    exact fun hsame ↦ hother (Option.some.inj hsame)
  cases operation with
  | assign assigned =>
    by_cases hassigned : tp ∈ assigned
    · rcases hpermitted.assign assigned rfl hassigned with hnone | hholds
      · rw [hheld] at hnone
        cases hnone
      · exact absurd hholds hnot
    · exact (if_neg hassigned).trans hheld
  | revoke revoked =>
    cases outcome with
    | returned value => exact (if_neg fun hboth ↦ hnot hboth.2).trans hheld
    | raised error => exact hheld
    | exhausted => exact hheld
  | restart => exact (if_neg hnot).trans hheld
  | start | append => exact hheld

/-- Every step of a fleet keeps it intact. -/
theorem intact_step (hpeers : Peers configure settings)
    (hshared : Shared settings conditions owner tp)
    (hintact : Intact configure settings owner tp fleet)
    (hstep : Fleet.Step configure conditions fuel owner tp fleet next) :
    Intact configure settings owner tp next := by
  cases hstep with
  | @drift broker hdisturb =>
    have hgrows := hshared.sole _ _ hdisturb
    refine ⟨hintact.uniform.grows hgrows, hintact.drawn.grows hgrows (Finset.Subset.refl _),
      fun node ↦ ?_, fun node hunfailed ↦ ?_, hintact.held⟩
    · have hpeer := shared_of_peer (hpeers node).1 hshared
      exact (hintact.mirrors node).disturb hpeer.sole hpeer.attributed hdisturb
    · have hpeer := shared_of_peer (hpeers node).1 hshared
      exact (hintact.truthful node hunfailed).disturb hpeer.sole hdisturb
  | @finish node operation trace after outcome hsteps hpermitted =>
    obtain ⟨huniform, hdrawn⟩ := logs_of_permitted hpeers hshared hintact hsteps
    have hmirrors := mirrors_of_permitted hpeers hshared hintact hsteps hpermitted
    let finished := fleet.finish (configure node) tp node operation outcome after
    have hself : (fleet.finish (configure node) tp node operation outcome after).world node =
        after := Fleet.world_finish_self
    refine ⟨huniform, hdrawn, fun other ↦ ?_, fun other hunfailed ↦ ?_, fun other hready ↦ ?_⟩
    · by_cases hother : other = node
      · subst hother
        rw [hself]
        exact hmirrors
      · exact (others_of_permitted hpeers hshared hintact hsteps hpermitted hother).1
    · by_cases hother : other = node
      · subst hother
        have hstill : finished.failed other ↔
            fleet.failedAfter (configure other) tp other after operation outcome :=
          iff_of_eq (Function.update_self _ _ _)
        have hkept := truthful_of_finished hpeers hshared hintact hsteps hpermitted
          fun hfailed ↦ hunfailed (hstill.mpr hfailed)
        rw [hself]
        exact hkept
      · have hstill : finished.failed other = fleet.failed other :=
          Function.update_of_ne hother _ _
        exact (others_of_permitted hpeers hshared hintact hsteps hpermitted hother).2
          (hstill ▸ hunfailed)
    · by_cases hother : other = node
      · subst hother
        rw [hself] at hready
        exact held_of_finished hpeers hshared hintact hsteps hready
      · refine holder_of_ne hother hpermitted (hintact.held other ?_)
        have hseen : (fleet.put node after).memories other = fleet.memories other :=
          Function.update_of_ne hother _ _
        exact (congrArg (fun memory : Memory ↦ memory.state.statusOf tp) hseen).symm.trans hready
  | @crash node operation trace after rest hsteps hpermitted =>
    obtain ⟨huniform, hdrawn⟩ := logs_of_permitted hpeers hshared hintact hsteps
    have hmirrors := mirrors_of_permitted hpeers hshared hintact hsteps hpermitted
    have hself : (fleet.crash node after).world node = after.restarted := Fleet.world_put_self
    have hnew : ¬ IsReady tp ((fleet.crash node after).world node) := by
      rw [hself]
      intro hready
      cases hready
    refine ⟨huniform, hdrawn, fun other ↦ ?_, fun other hunfailed ↦ ?_, fun other hready ↦ ?_⟩
    · by_cases hother : other = node
      · subst hother
        rw [hself]
        exact hmirrors.congr rfl rfl
      · rw [Fleet.world_crash_of_ne hother]
        exact (others_of_permitted hpeers hshared hintact hsteps hpermitted hother).1
    · by_cases hother : other = node
      · subst hother
        exact fun hready ↦ absurd hready hnew
      · have hstill : (fleet.crash node after).failed other = fleet.failed other :=
          Function.update_of_ne hother _ _
        rw [Fleet.world_crash_of_ne hother]
        exact (others_of_permitted hpeers hshared hintact hsteps hpermitted hother).2
          (hstill ▸ hunfailed)
    · by_cases hother : other = node
      · subst hother
        exact absurd hready hnew
      · have hseen : (fleet.crash node after).memories other = fleet.memories other :=
          Function.update_of_ne hother _ _
        have hheld := hintact.held other
          ((congrArg (fun memory : Memory ↦ memory.state.statusOf tp) hseen).symm.trans hready)
        have hnot : fleet.holder ≠ some node := by
          rw [hheld]
          exact fun hsame ↦ hother (Option.some.inj hsame)
        exact (if_neg hnot).trans hheld

/-- Every run of a fleet keeps it intact. -/
theorem intact_of_run {origin : Fleet Instance} (hpeers : Peers configure settings)
    (hshared : Shared settings conditions owner tp)
    (hrun : Relation.ReflTransGen (Fleet.Step configure conditions fuel owner tp) origin fleet)
    (horigin : Intact configure settings owner tp origin) :
    Intact configure settings owner tp fleet := by
  induction hrun with
  | refl => exact horigin
  | tail _ hstep ih => exact intact_step hpeers hshared ih hstep

/-- A history is a run. -/
theorem Fleet.History.run {origin : Fleet Instance} {events : List (Event Instance)}
    (hhistory : Fleet.History configure conditions fuel owner tp origin events fleet) :
    Relation.ReflTransGen (Fleet.Step configure conditions fuel owner tp) origin fleet := by
  induction hhistory with
  | nil => exact .refl
  | drift _ hdisturb ih => exact ih.tail (.drift hdisturb)
  | finish _ hsteps hpermitted ih => exact ih.tail (.finish hsteps hpermitted)
  | crash _ hsteps hpermitted ih => exact ih.tail (.crash hsteps hpermitted)

/-- A fleet of new stores. -/
structure Fleet.Fresh (fleet : Fleet Instance) : Prop where
  databases : ∀ node, fleet.databases node = .empty
  memories : ∀ node, fleet.memories node = .new
  holder : fleet.holder = none

omit [DecidableEq Instance] in
/-- A fleet of new stores is intact. -/
theorem Fleet.Fresh.intact {origin : Fleet Instance} (hfresh : origin.Fresh)
    (hpeers : Peers configure settings) (hattributed : Attributed owner settings origin.broker)
    (huniform : Uniform (origin.broker.changelogs (settings.template tp)))
    (hdrawn : IdsDrawn origin.minted (origin.broker.changelogs (settings.template tp))) :
    Intact configure settings owner tp origin := by
  refine ⟨huniform, hdrawn, fun other ↦ ?_, fun other _ hnow ↦ ?_, fun other hnow ↦ ?_⟩
  · exact mirrors_of_empty (attributed_of_peer (hpeers other).1 hattributed)
      (hfresh.databases other)
  · have hnone := hfresh.memories other
    unfold IsReady Fleet.world at hnow
    rw [hnone] at hnow
    cases hnow
  · have hnone := hfresh.memories other
    unfold IsReady Fleet.world at hnow
    rw [hnone] at hnow
    cases hnow

/-- After every run of a fleet of new stores, a store that calls the partition `READY` and that no
append failed holds the partition; its rows have the contents of a cold rebuild of the changelog,
each message id once; and its checkpoint is past every record of the changelog. So at most one store
calls the partition `READY`.
Assumes: nobody else appends KSQLite records to the changelog, message ids belong to one partition
and stand for one record, and the stores agree on the name of the changelog and on `json()`. -/
theorem handed_off {origin : Fleet Instance} (hpeers : Peers configure settings)
    (hshared : Shared settings conditions owner tp) (hfresh : origin.Fresh)
    (hattributed : Attributed owner settings origin.broker)
    (huniform : Uniform (origin.broker.changelogs (settings.template tp)))
    (hdrawn : IdsDrawn origin.minted (origin.broker.changelogs (settings.template tp)))
    (hrun : Relation.ReflTransGen (Fleet.Step configure conditions fuel owner tp) origin fleet)
    (hready : IsReady tp (fleet.world node)) :
    fleet.holder = some node ∧ (¬ fleet.failed node →
      (((fleet.databases node).rowsOf tp).map content).Perm
        ((replayed settings.json tp (fleet.broker.changelogs (settings.template tp))
          (fleet.broker.changelogs (settings.template tp)).stop).map content) ∧
      (((fleet.databases node).rowsOf tp).map Row.messageId).Nodup ∧
      AllBelow (fleet.broker.changelogs (settings.template tp))
        (PartitionStateMachine.nextOffset ((fleet.databases node).checkpoint tp))) := by
  have hintact := intact_of_run hpeers hshared hrun
    (hfresh.intact hpeers hattributed huniform hdrawn)
  refine ⟨hintact.held node hready, fun hunfailed ↦ ?_⟩
  obtain ⟨htemplate, hjson⟩ := hpeers node
  have hcaught : CaughtUp settings tp (fleet.world node) :=
    caughtUp_of_peer htemplate.symm (hintact.truthful node hunfailed hready)
  have hmirrors : Mirrors settings owner tp (fleet.world node) :=
    mirrors_of_peer htemplate.symm hjson.symm (hintact.mirrors node)
  exact ⟨rebuilt_of_caughtUp hmirrors hcaught hintact.uniform,
    (fleet.databases node).unique.sublist (List.filter_sublist.map Row.messageId), hcaught.below⟩

/-- Two new stores over two records. -/
def twoStores : Fleet Bool where
  databases := fun _ ↦ .empty
  memories := fun _ ↦ .new
  broker := twoRecords.broker
  minted := twoRecords.minted
  holder := none
  failed := fun _ ↦ False

/-- The entries of the changelog of two stores. -/
theorem ksqliteOf_of_twoStores {entry : ℤ × Message} (hentry : entry ∈
    (twoStores.broker.changelogs ((partitioned 2).template Sample.orders)).entries) :
    entry.1 = 0 ∧ ksqliteOf entry.2 = some Sample.first ∨
      entry.1 = 1 ∧ ksqliteOf entry.2 = some Sample.second := by
  have hlog : twoStores.broker.changelogs ((partitioned 2).template Sample.orders) =
      Sample.log [Sample.first, Sample.second] := by
    rw [partitioned_template]
    exact Sample.broker_changelogs _ _
  rw [hlog] at hentry
  have hmem : entry ∈ [(0, Sample.first.message), (1, Sample.second.message)] := hentry
  rcases List.mem_pair.mp hmem with rfl | rfl
  · exact Or.inl ⟨rfl, Sample.ksqliteOf_message (by simp)⟩
  · exact Or.inr ⟨rfl, Sample.ksqliteOf_message (by simp)⟩

theorem uniform_twoStores :
    Uniform (twoStores.broker.changelogs ((partitioned 2).template Sample.orders)) := by
  intro one hone another hanother record other hfound hother hid
  rcases ksqliteOf_of_twoStores hone with ⟨_, hcopy⟩ | ⟨_, hcopy⟩ <;>
    rcases ksqliteOf_of_twoStores hanother with ⟨_, hmore⟩ | ⟨_, hmore⟩ <;>
    rw [Option.some.inj (hfound.symm.trans hcopy), Option.some.inj (hother.symm.trans hmore)]
      at hid ⊢
  · exact absurd hid (by decide +kernel)
  · exact absurd hid (by decide +kernel)

theorem drawn_twoStores : IdsDrawn twoStores.minted
    (twoStores.broker.changelogs ((partitioned 2).template Sample.orders)) := by
  intro entry hentry record hfound
  rcases ksqliteOf_of_twoStores hentry with ⟨_, hcopy⟩ | ⟨_, hcopy⟩
  · rw [Option.some.inj (hfound.symm.trans hcopy)]
    decide +kernel
  · rw [Option.some.inj (hfound.symm.trans hcopy)]
    decide +kernel

/-- One of two stores starts and is assigned the partition. -/
theorem exists_assigned_twoStores : ∃ (events : List (Event Bool)) (fleet : Fleet Bool),
    Fleet.History (fun _ ↦ partitioned 2) Sample.calm 1 (fun _ ↦ Sample.orders) Sample.orders
      twoStores events fleet ∧
    IsReady Sample.orders (fleet.world true) ∧ ¬ fleet.failed true := by
  obtain ⟨_, hstart⟩ := exists_started_twoRecords
  obtain ⟨_, world, hassign, hready⟩ := exists_revealed
  let started := twoStores.finish (partitioned 2) Sample.orders true .start (.returned ())
    twoRecords.started
  let assigned := started.finish (partitioned 2) Sample.orders true (.assign [Sample.orders])
    (.returned ()) world
  have hstarted : started.world true = twoRecords.started := Fleet.world_finish_self
  have hassigned : assigned.world true = world := Fleet.world_finish_self
  have hpermitted : Permitted (partitioned 2) (fun _ ↦ Sample.orders) Sample.orders twoStores true
      .start twoRecords.started := ⟨by rintro _ _ _ ⟨⟩, by rintro _ ⟨⟩⟩
  have hlater : Permitted (partitioned 2) (fun _ ↦ Sample.orders) Sample.orders started true
      (.assign [Sample.orders]) world := ⟨by rintro _ _ _ ⟨⟩, fun _ _ _ ↦ Or.inl rfl⟩
  have hassigns : Steps (environment (partitioned 2) Sample.calm)
      ((Operation.assign [Sample.orders]).action (partitioned 2) 1) (started.world true) _
      (Outcome.returned ()).program world := hstarted.symm ▸ hassign
  have hnow : IsReady Sample.orders (assigned.world true) := by
    rw [hassigned]
    exact hready
  have hunfailed : ¬ assigned.failed true := by
    rintro ⟨hfailed, _⟩
    exact hfailed
  exact ⟨_, assigned, .finish (.finish .nil hstart hpermitted) hassigns hlater, hnow, hunfailed⟩

/-- The store of two that was assigned the partition. -/
theorem handed_off_twoStores : ∃ fleet : Fleet Bool, fleet.holder = some true ∧
    (((fleet.databases true).rowsOf Sample.orders).map content).Perm
      ((replayed some Sample.orders (fleet.broker.changelogs Sample.changelog)
        (fleet.broker.changelogs Sample.changelog).stop).map content) := by
  obtain ⟨_, fleet, hhistory, hready, hunfailed⟩ := exists_assigned_twoStores
  obtain ⟨hholder, hrows⟩ := handed_off (fun _ ↦ ⟨rfl, rfl⟩) shared_partitioned
    ⟨fun _ ↦ rfl, fun _ ↦ rfl, rfl⟩ attributed_twoRecords uniform_twoStores drawn_twoStores
    hhistory.run hready
  exact ⟨fleet, hholder, (hrows hunfailed).1⟩

end Fleet

end KSQLite.Runs
