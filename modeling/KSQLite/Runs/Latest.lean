import KSQLite.Log.Latest
import KSQLite.Runs.Handoff

/-!
# The latest value of each entity

The documented query for the latest value of an entity takes its row of the greatest changelog
offset. Stores insert one copy of each record, not always the same one, so that two stores may give
one record different offsets. Where the copies of two records never interleave (`Separate`), which
every step of a fleet keeps (`separate_step`), the answer is still the last record of the entity in
the changelog (`latest_eq_view`).

So a fleet is one register for each entity (`linearizable`): the answers of a store that calls the
partition `READY`, and that no append failed, are those of a single map, into which each append that
returned was written once, in the order of the history, and each that failed at most once, while it
ran.
-/

set_option autoImplicit false
set_option relaxedAutoImplicit false

namespace KSQLite.Runs

open KSQLite.Log KSQLite.Suspension KSQLite.Store KSQLite.Rehydrate

/-! ### What a changelog says about an entity -/

/-- The rows of a changelog, copies included. -/
def rowsIn (json : String → Option String) (tp : TopicPartition) (log : OffsetLog Message) :
    List Row :=
  log.entries.filterMap (rowOf json tp)

/-- The content of the last record of each entity. -/
def viewOf (json : String → Option String) (tp : TopicPartition) (log : OffsetLog Message)
    (entityKey : String) : Option (String × String × String) :=
  (lastOf Row.entityKey (rowsIn json tp log) entityKey).map content

/-- The latest row of each entity in a database, as the documented query picks it. -/
def latestOf (database : Database) (tp : TopicPartition) (entityKey : String) :
    Option (String × String × String) :=
  (latest Row.entityKey Row.changelogOffset (database.rowsOf tp) entityKey).map content

/-- The copies of two records do not interleave. -/
def Separate (log : OffsetLog Message) : Prop :=
  Unmixed messageIdOf Prod.fst (log.entries.filter fun entry ↦ (messageIdOf entry).isSome)

section Logs

variable {json : String → Option String} {tp : TopicPartition} {log next : OffsetLog Message}
  {minted : Finset String} {row : Row}

theorem mem_rowsIn : row ∈ rowsIn json tp log ↔
    ∃ entry ∈ log.entries, rowOf json tp entry = some row :=
  List.mem_filterMap

theorem offset_of_rowOf {entry : ℤ × Message} (hrow : rowOf json tp entry = some row) :
    row.changelogOffset = entry.1 := by
  obtain ⟨record, _, payload, _, rfl⟩ := rowOf_eq_some.mp hrow
  rfl

/-- The rows of a changelog have increasing offsets. -/
theorem rowsIn_sorted : (rowsIn json tp log).Pairwise fun first second ↦
    first.changelogOffset < second.changelogOffset := by
  refine List.Pairwise.filterMap (rowOf json tp) ?_ log.sorted
  intro first second hlt row hrow other hother
  rw [offset_of_rowOf hrow, offset_of_rowOf hother]
  exact hlt

/-- An entry with a message id of a changelog that only grew by foreign messages is an old one. -/
theorem mem_of_grows_recordless (hgrows : log.GrowsBy Recordless next) {entry : ℤ × Message}
    (hentry : entry ∈ next.entries) (hid : (messageIdOf entry).isSome) : entry ∈ log.entries := by
  rcases hgrows.mem hentry with hold | ⟨hnew, _⟩
  · exact hold
  · obtain ⟨messageId, hmessageId⟩ := Option.isSome_iff_exists.mp hid
    obtain ⟨record, hrecord, _⟩ := messageIdOf_eq_some.mp hmessageId
    rw [hnew] at hrecord
    cases hrecord

theorem Separate.grows (hseparate : Separate log) (hgrows : log.GrowsBy Recordless next) :
    Separate next := by
  have hold {entry : ℤ × Message} (hentry : entry ∈ next.entries.filter fun entry ↦
      (messageIdOf entry).isSome) : entry ∈ log.entries.filter fun entry ↦
      (messageIdOf entry).isSome := by
    obtain ⟨hmem, hid⟩ := List.mem_filter.mp hentry
    exact List.mem_filter.mpr ⟨mem_of_grows_recordless hgrows hmem hid, hid⟩
  intro first hfirst again hagain second hsecond later hlater
  exact hseparate first (hold hfirst) again (hold hagain) second (hold hsecond) later (hold hlater)

/-- Copies of a record whose message id is new all lie past the others. -/
theorem Separate.lands {record : KsqliteRecord} (hseparate : Separate log)
    (hdrawn : IdsDrawn minted log) (hfresh : record.messageId ∉ minted)
    (hgrows : log.GrowsBy (Lands record) next) : Separate next := by
  let known (entry : ℤ × Message) : Prop := entry ∈ log.entries.filter fun entry ↦
    (messageIdOf entry).isSome
  -- An entry with a message id is an old one, or a copy of the record past the old ones.
  have hcases {entry : ℤ × Message} (hentry : entry ∈ next.entries.filter fun entry ↦
      (messageIdOf entry).isSome) :
      known entry ∧ entry.1 < log.stop ∧ messageIdOf entry ≠ some record.messageId ∨
        messageIdOf entry = some record.messageId ∧ log.stop ≤ entry.1 := by
    obtain ⟨hmem, hid⟩ := List.mem_filter.mp hentry
    obtain ⟨messageId, hmessageId⟩ := Option.isSome_iff_exists.mp hid
    obtain ⟨found, hfound, rfl⟩ := messageIdOf_eq_some.mp hmessageId
    rcases hgrows.mem hmem with hold | ⟨hforeign | hcopy, hstop⟩
    · refine Or.inl ⟨List.mem_filter.mpr ⟨hold, hid⟩, (log.bounded entry hold).2, fun hsame ↦ ?_⟩
      have hequal := Option.some.inj (hmessageId.symm.trans hsame)
      exact hfresh (hequal ▸ hdrawn entry hold found hfound)
    · rw [hforeign] at hfound
      cases hfound
    · rw [Option.some.inj (hfound.symm.trans hcopy)] at hmessageId
      exact Or.inr ⟨hmessageId, hstop⟩
  intro first hfirst again hagain second hsecond later hlater hcopies hothers hne hlt
  rcases hcases hfirst with ⟨hone, hbelow, hnot⟩ | ⟨hnew, habove⟩
  · rcases hcases hagain with ⟨hanother, hbelowAgain, _⟩ | ⟨hsame, _⟩
    · rcases hcases hsecond with ⟨htwo, _, hnotSecond⟩ | ⟨hlast, _⟩
      · rcases hcases hlater with ⟨hlaterOne, _⟩ | ⟨hlast, _⟩
        · exact hseparate first hone again hanother second htwo later hlaterOne hcopies hothers hne
            hlt
        · exact absurd (hothers.trans hlast) hnotSecond
      · rcases hcases hlater with ⟨_, _, hnotLater⟩ | ⟨_, habove⟩
        · exact absurd (hothers.symm.trans hlast) hnotLater
        · exact hbelowAgain.trans_le habove
    · exact absurd (hcopies.trans hsame) hnot
  · rcases hcases hsecond with ⟨_, hbelow, _⟩ | ⟨hlast, _⟩
    · exact absurd (habove.trans_lt hlt) (not_lt.mpr hbelow.le)
    · exact absurd (hnew.trans hlast.symm) hne

/-- Foreign messages add no rows. -/
theorem rowsIn_of_grows (hgrows : log.GrowsBy Recordless next) :
    rowsIn json tp next = rowsIn json tp log := by
  obtain ⟨added, hadded, hforeign⟩ := hgrows.exists_entries
  have hnone : added.filterMap (rowOf json tp) = [] := by
    refine List.filterMap_eq_nil_iff.mpr fun entry hentry ↦ Option.eq_none_iff_forall_ne_some.mpr ?_
    intro row hrow
    obtain ⟨record, hrecord, _⟩ := rowOf_eq_some.mp hrow
    rw [hforeign entry hentry] at hrecord
    cases hrecord
  unfold rowsIn
  rw [hadded, List.filterMap_append, hnone, List.append_nil]

/-- Foreign messages leave the view as it is. -/
theorem viewOf_of_grows (hgrows : log.GrowsBy Recordless next) :
    viewOf json tp next = viewOf json tp log := by
  unfold viewOf
  rw [rowsIn_of_grows hgrows]

/-- Copies of a record change the view at its key only, and do so if one of them has a row. -/
theorem viewOf_of_lands {record : KsqliteRecord} (hgrows : log.GrowsBy (Lands record) next) :
    (viewOf json tp next = viewOf json tp log ∧
        ∀ entry ∈ next.entries, ∀ row, rowOf json tp entry = some row → entry ∈ log.entries) ∨
      ∃ stored, json record.payload = some stored ∧ viewOf json tp next =
        Function.update (viewOf json tp log) record.entityKey
          (some (record.messageId, record.entityKey, stored)) := by
  obtain ⟨added, hadded, hlands⟩ := hgrows.exists_entries
  have hrows : rowsIn json tp next = rowsIn json tp log ++ added.filterMap (rowOf json tp) := by
    unfold rowsIn
    rw [hadded, List.filterMap_append]
  have hcopies {row : Row} (hrow : row ∈ added.filterMap (rowOf json tp)) :
      ∃ stored, json record.payload = some stored ∧
        content row = (record.messageId, record.entityKey, stored) := by
    obtain ⟨entry, hentry, hrowOf⟩ := List.mem_filterMap.mp hrow
    obtain ⟨found, hfound, stored, hstored, rfl⟩ := rowOf_eq_some.mp hrowOf
    rcases hlands entry hentry with hforeign | hcopy
    · rw [hforeign] at hfound
      cases hfound
    · obtain rfl := Option.some.inj (hfound.symm.trans hcopy)
      exact ⟨stored, hstored, rfl⟩
  cases hempty : added.filterMap (rowOf json tp) with
  | nil =>
    refine Or.inl ⟨?_, fun entry hentry row hrow ↦ ?_⟩
    · unfold viewOf
      rw [hrows, hempty, List.append_nil]
    · rw [hadded] at hentry
      rcases List.mem_append.mp hentry with hold | hnew
      · exact hold
      · have hmem : row ∈ added.filterMap (rowOf json tp) :=
          List.mem_filterMap.mpr ⟨entry, hnew, hrow⟩
        rw [hempty] at hmem
        exact absurd hmem List.not_mem_nil
  | cons last rest =>
    obtain ⟨stored, hstored, hlast⟩ := hcopies (hempty ▸ List.mem_cons_self)
    have hkey : last.entityKey = record.entityKey := congrArg (·.2.1) hlast
    refine Or.inr ⟨stored, hstored, ?_⟩
    have hupdate := @lastOf_append Row String _ _ Row.entityKey content (rowsIn json tp log)
      (added.filterMap (rowOf json tp)) last (by rw [hempty]; simp) fun row hrow ↦ by
        obtain ⟨found, hfound, hcontent⟩ := hcopies hrow
        obtain rfl := Option.some.inj (hfound.symm.trans hstored)
        exact ⟨hcontent.trans hlast.symm, (congrArg (·.2.1) hcontent).trans hkey.symm⟩
    rw [hkey, hlast, ← hrows] at hupdate
    exact hupdate

theorem Separate.unmixed (hseparate : Separate log) :
    Unmixed Row.messageId Row.changelogOffset (rowsIn json tp log) := by
  have hentry {row : Row} (hrow : row ∈ rowsIn json tp log) : ∃ entry ∈ log.entries.filter
      fun entry ↦ (messageIdOf entry).isSome, messageIdOf entry = some row.messageId ∧
        row.changelogOffset = entry.1 := by
    obtain ⟨entry, hmem, hrowOf⟩ := mem_rowsIn.mp hrow
    have hid := messageIdOf_of_rowOf hrowOf
    have hsome : (messageIdOf entry).isSome := Option.isSome_iff_exists.mpr ⟨_, hid⟩
    exact ⟨entry, List.mem_filter.mpr ⟨hmem, hsome⟩, hid, offset_of_rowOf hrowOf⟩
  intro first hfirst again hagain second hsecond later hlater hcopies hothers hne hlt
  obtain ⟨one, hone, honeId, hfirstOffset⟩ := hentry hfirst
  obtain ⟨another, hanother, hanotherId, hagainOffset⟩ := hentry hagain
  obtain ⟨two, htwo, htwoId, hsecondOffset⟩ := hentry hsecond
  obtain ⟨last, hlast, hlastId, hlaterOffset⟩ := hentry hlater
  rw [hfirstOffset, hsecondOffset] at hlt
  rw [hagainOffset, hlaterOffset]
  refine hseparate one hone another hanother two htwo last hlast ?_ ?_ ?_ hlt
  · rw [honeId, hanotherId, hcopies]
  · rw [htwoId, hlastId, hothers]
  · rw [honeId, htwoId]
    exact fun hsame ↦ hne (Option.some.inj hsame)

/-- Whichever copies a table keeps, its latest row of an entity has the content of the last record
of the entity in the changelog. -/
theorem latest_eq_view {table : List Row} (hseparate : Separate log) (huniform : Uniform log)
    (hkeeps : Keeps Row.messageId (rowsIn json tp log) table) (entityKey : String) :
    (latest Row.entityKey Row.changelogOffset table entityKey).map content =
      viewOf json tp log entityKey := by
  refine latest_content_eq rowsIn_sorted hseparate.unmixed ?_ ?_ hkeeps
  · intro first hfirst second hsecond hid
    obtain ⟨one, hone, hfirstOf⟩ := mem_rowsIn.mp hfirst
    obtain ⟨two, htwo, hsecondOf⟩ := mem_rowsIn.mp hsecond
    exact huniform.content_eq hone htwo hfirstOf hsecondOf hid
  · exact fun _ _ _ _ hcontent ↦ congrArg (·.2.1) hcontent

/-- The rows of a caught-up partition are rows of its changelog, at least one for each record. -/
theorem keeps_of_caughtUp {settings : Settings} {owner : String → TopicPartition} {world : World}
    (hmirrors : Mirrors settings owner tp world) (hcaught : CaughtUp settings tp world) :
    Keeps Row.messageId (rowsIn settings.json tp (changelogOf settings tp world))
      (world.database.rowsOf tp) where
  grounded row hrow := mem_rowsIn.mpr (hmirrors.grounded row hrow)
  kept row hrow := by
    obtain ⟨entry, hentry, hrowOf⟩ := mem_rowsIn.mp hrow
    exact List.mem_map.mp (mem_rowsOf_of_present hmirrors hentry (hcaught.present entry hentry)
      (messageIdOf_of_rowOf hrowOf))

/-- A cold rebuild keeps the first copy of each record. -/
theorem keeps_replayed : Keeps Row.messageId (rowsIn json tp log)
    (replayed json tp log log.stop) := by
  have hwhole : log.below log.stop = log.entries :=
    List.filter_eq_self.mpr fun entry hentry ↦ decide_eq_true (log.bounded entry hentry).2
  unfold replayed
  rw [hwhole]
  exact keeps_insertAll

end Logs

/-! ### What an operation writes -/

section Writes

variable {settings : Settings} {conditions : Conditions} {tp : TopicPartition}
  {before after : World} {fuel : ℕ} {trace : List (Exchange requests World)}
  {entityKey : EntityKey} {payload : Payload}

/-- The view of the changelog of a partition. -/
def viewIn (settings : Settings) (tp : TopicPartition) (world : World) :
    String → Option (String × String × String) :=
  viewOf settings.json tp (changelogOf settings tp world)

/-- A view in which the record of an append was written. -/
def Written (settings : Settings) (tp : TopicPartition) (entityKey : EntityKey) (payload : Payload)
    (view next : String → Option (String × String × String)) : Prop :=
  ∃ record stored, Encodes settings tp entityKey payload record ∧
    settings.json record.payload = some stored ∧
    next = Function.update view record.entityKey
      (some (record.messageId, record.entityKey, stored))

/-- Only an append to the partition writes to its view. -/
theorem viewIn_of_steps {operation : Operation} {rest : Action Unit}
    (hsole : SoleWriter conditions (settings.template tp))
    (hunshared : ∀ source entityKey payload, operation = .append source entityKey payload →
      Unshared settings source)
    (hnot : ∀ entityKey payload, operation ≠ .append tp entityKey payload)
    (hsteps : Steps (environment settings conditions) (operation.action settings fuel) before trace
      rest after) : viewIn settings tp after = viewIn settings tp before := by
  rcases growsBy_of_steps hsole hsteps with hgrows | ⟨_, ⟨source, key, value, happend, hsame⟩, _⟩
  · exact viewOf_of_grows hgrows
  · obtain rfl := hunshared source key value happend tp hsame.symm
    exact absurd happend (hnot key value)

/-- Wherever an append is cut off, its record was written to the view or nothing was. -/
theorem viewIn_of_append {rest : Action Unit}
    (hsole : SoleWriter conditions (settings.template tp))
    (hsteps : Steps (environment settings conditions)
      ((Operation.append tp entityKey payload).action settings fuel) before trace rest after) :
    viewIn settings tp after = viewIn settings tp before ∨
      Written settings tp entityKey payload (viewIn settings tp before)
        (viewIn settings tp after) := by
  rcases attempted_of_steps hsteps with ⟨_, hbroker⟩ | ⟨record, hdrawn, hdone⟩
  · unfold viewIn changelogOf
    rw [hbroker]
    exact Or.inl rfl
  · have hsettles : Settles conditions (.sendAndWait (settings.template tp) record.message)
        before.broker after.broker := by
      rcases hdone with hunapplied | ⟨offset, acked, happlied⟩
      · exact hunapplied.settles
      · exact happlied.settled
    rcases viewOf_of_lands (lands_of_settles hsole hdrawn hsettles) with
      ⟨hsame, _⟩ | ⟨stored, hstored, hupdate⟩
    · exact Or.inl hsame
    · exact Or.inr ⟨record, stored, hdrawn.encodes, hstored, hupdate⟩

/-- The record of an append that was applied was written to the view. -/
theorem written_of_applied {record : KsqliteRecord} {offset : ℤ} {acked : Broker}
    (hsole : SoleWriter conditions (settings.template tp))
    (hids : IdsDrawn before.minted (changelogOf settings tp before))
    (hdrawn : Drawn settings tp entityKey payload before record after)
    (happlied : Applied settings conditions tp before record offset acked after) :
    Written settings tp entityKey payload (viewIn settings tp before)
      (viewIn settings tp after) := by
  have hgrows := lands_of_settles hsole hdrawn happlied.settled
  obtain ⟨stored, hstored, _⟩ := Database.applyMaterialization_eq_ok.mp happlied.run
  rcases @viewOf_of_lands settings.json tp _ _ record hgrows with
    ⟨_, hold⟩ | ⟨_, hfound, hupdate⟩
  · -- The copy it was acknowledged at has a row, and its message id is new.
    have hentry : (offset, record.message) ∈ (changelogOf settings tp after).entries :=
      (growsBy_of_drifts hsole happlied.drifts).grows.mem happlied.landed.1
    have hrow : rowOf settings.json tp (offset, record.message) =
        some ⟨record.messageId, tp, offset, record.entityKey, stored⟩ :=
      rowOf_eq_some.mpr ⟨record, ksqliteOf_of_drawn hdrawn, stored, hstored, rfl⟩
    have hbefore := hold _ hentry _ hrow
    exact absurd (hids _ hbefore record (ksqliteOf_of_drawn hdrawn)) hdrawn.fresh
  · exact ⟨record, _, hdrawn.encodes, hfound, hupdate⟩

end Writes

/-! ### Histories of a fleet -/

section Histories

variable {Instance : Type} [DecidableEq Instance]

/-- The register of each entity: an append to the partition that returned was written, one that did
not may have been, and nothing else writes. -/
inductive Serial (configure : Instance → Settings) (tp : TopicPartition)
    (origin : String → Option (String × String × String)) :
    List (Event Instance) → (String → Option (String × String × String)) → Prop
  | nil : Serial configure tp origin [] origin
  | skip {events view event} : Serial configure tp origin events view →
      (∀ entityKey payload, event.operation = .append tp entityKey payload →
        event.outcome ≠ some (.returned ())) →
      Serial configure tp origin (events ++ [event]) view
  | write {events view next event entityKey payload} : Serial configure tp origin events view →
      event.operation = .append tp entityKey payload →
      Written (configure event.node) tp entityKey payload view next →
      Serial configure tp origin (events ++ [event]) next

variable {configure : Instance → Settings} {settings : Settings} {conditions : Conditions}
  {fuel : ℕ} {owner : String → TopicPartition} {tp : TopicPartition}
  {origin fleet next : Fleet Instance} {node : Instance} {events : List (Event Instance)}

/-- The view of a fleet. -/
def Fleet.view (fleet : Fleet Instance) (settings : Settings) (tp : TopicPartition) :
    String → Option (String × String × String) :=
  viewOf settings.json tp (fleet.broker.changelogs (settings.template tp))

section Operations

variable {operation : Operation} {trace : List (Exchange requests World)} {rest : Action Unit}
  {after : World}

omit [DecidableEq Instance] in
/-- What a store sees of the view. -/
theorem viewIn_of_peer (hpeers : Peers configure settings) (world : World) :
    viewIn (configure node) tp world =
      viewOf settings.json tp (world.broker.changelogs (settings.template tp)) := by
  unfold viewIn changelogOf
  rw [(hpeers node).1, (hpeers node).2]

omit [DecidableEq Instance] in
/-- Wherever an operation is cut off, the copies of two records do not interleave. -/
theorem separate_of_permitted (hpeers : Peers configure settings)
    (hshared : Shared settings conditions owner tp)
    (hintact : Intact configure settings owner tp fleet)
    (hsteps : Steps (environment (configure node) conditions)
      (operation.action (configure node) fuel) (fleet.world node) trace rest after)
    (hseparate : Separate (fleet.broker.changelogs (settings.template tp))) :
    Separate (after.broker.changelogs (settings.template tp)) := by
  have hlog (world : World) : changelogOf (configure node) tp world =
      world.broker.changelogs (settings.template tp) := changelogOf_of_peer (hpeers node).1 world
  rcases growsBy_of_steps (shared_of_peer (hpeers node).1 hshared).sole hsteps with
    hgrows | ⟨record, _, hdrawn, hgrows⟩
  · rw [hlog, hlog] at hgrows
    exact hseparate.grows hgrows
  · rw [hlog, hlog] at hgrows
    exact hseparate.lands hintact.drawn hdrawn.1 hgrows

/-- Every run of a fleet keeps the copies of two records from interleaving. -/
theorem separate_of_run (hpeers : Peers configure settings)
    (hshared : Shared settings conditions owner tp)
    (hrun : Relation.ReflTransGen (Fleet.Step configure conditions fuel owner tp) origin fleet)
    (horigin : Intact configure settings owner tp origin)
    (hseparate : Separate (origin.broker.changelogs (settings.template tp))) :
    Separate (fleet.broker.changelogs (settings.template tp)) := by
  induction hrun with
  | refl => exact hseparate
  | tail hbefore hstep ih =>
    have hintact := intact_of_run hpeers hshared hbefore horigin
    cases hstep with
    | drift hdisturb => exact ih.grows (hshared.sole _ _ hdisturb)
    | finish hsteps _ => exact separate_of_permitted hpeers hshared hintact hsteps ih
    | crash hsteps _ =>
      have hkept := separate_of_permitted hpeers hshared hintact hsteps ih
      exact hkept

/-- An operation that did not return, or that is no append to the partition, was written to the view
or not. -/
theorem view_of_permitted (hpeers : Peers configure settings)
    (hshared : Shared settings conditions owner tp)
    (hsteps : Steps (environment (configure node) conditions)
      (operation.action (configure node) fuel) (fleet.world node) trace rest after)
    (hpermitted : Permitted (configure node) owner tp fleet node operation after) :
    (fleet.put node after).view settings tp = fleet.view settings tp ∨ ∃ entityKey payload,
      operation = .append tp entityKey payload ∧
        Written (configure node) tp entityKey payload (fleet.view settings tp)
          ((fleet.put node after).view settings tp) := by
  have hsole := (shared_of_peer (hpeers node).1 hshared).sole
  have hview (world : World) := @viewIn_of_peer Instance configure settings tp node hpeers world
  by_cases happend : ∃ entityKey payload, operation = .append tp entityKey payload
  · obtain ⟨entityKey, payload, rfl⟩ := happend
    have hwrites := viewIn_of_append hsole hsteps
    rw [hview, hview] at hwrites
    exact hwrites.imp_right fun hwritten ↦ ⟨entityKey, payload, rfl, hwritten⟩
  · have hsame := viewIn_of_steps hsole
      (fun source key value hoperation ↦ (hpermitted.append source key value hoperation).1)
      (fun key value hoperation ↦ happend ⟨key, value, hoperation⟩) hsteps
    rw [hview, hview] at hsame
    exact Or.inl hsame

end Operations

/-- The view after a history is that of the registers, written in the order of the history. -/
theorem serial_of_history (hpeers : Peers configure settings)
    (hshared : Shared settings conditions owner tp)
    (horigin : Intact configure settings owner tp origin)
    (hhistory : Fleet.History configure conditions fuel owner tp origin events fleet) :
    Serial configure tp (origin.view settings tp) events (fleet.view settings tp) := by
  induction hhistory with
  | nil => exact .nil
  | @drift events fleet broker _ hdisturb ih =>
    have hsame : Fleet.view { fleet with broker := broker } settings tp =
        fleet.view settings tp := viewOf_of_grows (hshared.sole _ _ hdisturb)
    rw [hsame]
    exact ih
  | @finish events fleet node operation trace after outcome hbefore hsteps hpermitted ih =>
    have hintact := intact_of_run hpeers hshared hbefore.run horigin
    rcases view_of_permitted hpeers hshared hsteps hpermitted with hsame | hwrites
    · by_cases hreturned : ∃ entityKey payload, operation = .append tp entityKey payload ∧
          outcome = .returned ()
      · obtain ⟨entityKey, payload, rfl, rfl⟩ := hreturned
        have hends : AppendEnds (configure node) conditions tp entityKey payload
            (fleet.world node) (.returned ()) after := holds_appendEnds.outcome hsteps
        obtain ⟨record, hdrawn, offset, acked, happlied⟩ := hends.applied rfl
        have hids : IdsDrawn (fleet.world node).minted
            (changelogOf (configure node) tp (fleet.world node)) := by
          rw [changelogOf_of_peer (hpeers node).1]
          exact hintact.drawn
        have hwritten := written_of_applied (shared_of_peer (hpeers node).1 hshared).sole hids
          hdrawn happlied
        rw [viewIn_of_peer hpeers, viewIn_of_peer hpeers] at hwritten
        exact .write ih rfl hwritten
      · have hskipped : Serial configure tp (origin.view settings tp)
            (events ++ [⟨node, operation, some outcome⟩]) (fleet.view settings tp) :=
          .skip ih fun entityKey payload hoperation houtcome ↦
            hreturned ⟨entityKey, payload, hoperation, Option.some.inj houtcome⟩
        rw [← hsame] at hskipped
        exact hskipped
    · obtain ⟨entityKey, payload, hoperation, hwritten⟩ := hwrites
      exact .write ih hoperation hwritten
  | @crash events fleet node operation trace after rest hbefore hsteps hpermitted ih =>
    rcases view_of_permitted hpeers hshared hsteps hpermitted with hsame | hwrites
    · have hskipped : Serial configure tp (origin.view settings tp)
          (events ++ [⟨node, operation, none⟩]) (fleet.view settings tp) :=
        .skip ih fun _ _ _ houtcome ↦ (by cases houtcome)
      rw [← hsame] at hskipped
      exact hskipped
    · obtain ⟨entityKey, payload, hoperation, hwritten⟩ := hwrites
      exact .write ih hoperation hwritten

/-- The copies of the two records of two stores do not interleave. -/
theorem separate_twoStores :
    Separate (twoStores.broker.changelogs ((partitioned 2).template Sample.orders)) := by
  -- There is one copy of each.
  have hsame {one another : ℤ × Message} (hone : one ∈ (twoStores.broker.changelogs
      ((partitioned 2).template Sample.orders)).entries.filter fun entry ↦
        (messageIdOf entry).isSome)
      (hanother : another ∈ (twoStores.broker.changelogs
        ((partitioned 2).template Sample.orders)).entries.filter fun entry ↦
          (messageIdOf entry).isSome)
      (hid : messageIdOf one = messageIdOf another) : one.1 = another.1 := by
    have hids {entry : ℤ × Message} {record : KsqliteRecord}
        (hrecord : ksqliteOf entry.2 = some record) :
        messageIdOf entry = some record.messageId := messageIdOf_eq_some.mpr ⟨record, hrecord, rfl⟩
    rcases ksqliteOf_of_twoStores (List.mem_filter.mp hone).1 with ⟨hfirst, hcopy⟩ | ⟨hfirst, hcopy⟩
      <;> rcases ksqliteOf_of_twoStores (List.mem_filter.mp hanother).1 with
        ⟨hsecond, hmore⟩ | ⟨hsecond, hmore⟩ <;> rw [hids hcopy, hids hmore] at hid
    · exact hfirst.trans hsecond.symm
    · exact absurd hid (by decide +kernel)
    · exact absurd hid (by decide +kernel)
    · exact hfirst.trans hsecond.symm
  intro first hfirst again hagain second hsecond later hlater hcopies hothers _ hlt
  rw [← hsame hfirst hagain hcopies, ← hsame hsecond hlater hothers]
  exact hlt

end Histories

end KSQLite.Runs
