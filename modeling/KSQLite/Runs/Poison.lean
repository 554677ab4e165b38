import KSQLite.Runs.Handoff

/-!
# Records that SQLite refuses

An append accepts any payload that Python's `json` reads, produces its record, and only then asks
SQLite's `json()` about it. A payload that the one accepts and the other refuses makes the append
raise with its record in the changelog (`append_of_refused`), and from then on no store gets the
partition `READY` again: whatever is assigned, revoked, restarted or crashed, no assignment of the
partition that returns leaves it `READY`, and a store that calls it `READY` is one whose append
failed (`poisoned`).
-/

set_option autoImplicit false
set_option relaxedAutoImplicit false

namespace KSQLite.Runs

open KSQLite.Log KSQLite.Suspension KSQLite.Store KSQLite.Rehydrate

/-- A changelog holds a record whose payload `json()` refuses. -/
def Poisoned (json : String → Option String) (log : OffsetLog Message) : Prop :=
  ∃ entry ∈ log.entries, ∃ record, ksqliteOf entry.2 = some record ∧ json record.payload = none

section Records

variable {settings : Settings} {conditions : Conditions} {owner : String → TopicPartition}
  {tp : TopicPartition} {world before after : World} {log next : OffsetLog Message}
  {entityKey : EntityKey} {payload : Payload} {fuel : ℕ} {trace : List (Exchange requests World)}

/-- A record that is refused stays in the changelog. -/
theorem Poisoned.grows {json : String → Option String} (hpoisoned : Poisoned json log)
    (hgrows : log.Grows next) : Poisoned json next := by
  obtain ⟨entry, hentry, hrefused⟩ := hpoisoned
  exact ⟨entry, hgrows.mem hentry, hrefused⟩

/-- A partition whose changelog holds a record that is refused is never caught up. -/
theorem not_caughtUp_of_poisoned (hmirrors : Mirrors settings owner tp world)
    (huniform : Uniform (changelogOf settings tp world))
    (hpoisoned : Poisoned settings.json (changelogOf settings tp world)) :
    ¬ CaughtUp settings tp world := by
  intro hcaught
  obtain ⟨entry, hentry, record, hrecord, hrefused⟩ := hpoisoned
  have hid : messageIdOf entry = some record.messageId := messageIdOf_eq_some.mpr ⟨_, hrecord, rfl⟩
  obtain ⟨row, hrow, hsame⟩ := List.mem_map.mp
    (mem_rowsOf_of_present hmirrors hentry (hcaught.present entry hentry) hid)
  -- The row under its message id is the row of a copy of it.
  obtain ⟨copy, hcopy, hrowOf⟩ := hmirrors.grounded row hrow
  obtain ⟨found, hfound, stored, hstored, rfl⟩ := rowOf_eq_some.mp hrowOf
  obtain rfl := huniform copy hcopy entry hentry found record hfound hrecord hsame
  rw [hrefused] at hstored
  cases hstored

/-- An append of a payload that is refused does not return and changes nothing in the database,
wherever it is cut off; what it produced stays in the changelog. -/
theorem append_of_refused {outcome : Outcome Error Unit}
    (hsole : SoleWriter conditions (settings.template tp))
    (hrefused : ∀ record, Encodes settings tp entityKey payload record →
      settings.json record.payload = none)
    (hsteps : Steps (environment settings conditions)
      ((Operation.append tp entityKey payload).action settings fuel) before trace outcome.program
      after) :
    outcome ≠ .returned () ∧ after.database = before.database ∧
      ((changelogOf settings tp before).GrowsBy Recordless (changelogOf settings tp after) ∨
        Poisoned settings.json (changelogOf settings tp after)) := by
  have hnever {record : KsqliteRecord} {offset : ℤ} {acked : Broker}
      (hdrawn : Drawn settings tp entityKey payload before record after)
      (happlied : Applied settings conditions tp before record offset acked after) : False := by
    obtain ⟨stored, hstored, _⟩ := Database.applyMaterialization_eq_ok.mp happlied.run
    have hnone : settings.json (record.row tp offset).payload = none :=
      hrefused record hdrawn.encodes
    rw [hnone] at hstored
    cases hstored
  refine ⟨?_, ?_⟩
  · rintro rfl
    have hends : AppendEnds settings conditions tp entityKey payload before (.returned ()) after :=
      holds_appendEnds.outcome hsteps
    obtain ⟨record, hdrawn, offset, acked, happlied⟩ := hends.applied rfl
    exact hnever hdrawn happlied
  · rcases attempted_of_steps hsteps with ⟨hdatabase, hbroker⟩ | ⟨record, hdrawn, hdone⟩
    · refine ⟨hdatabase, Or.inl ?_⟩
      unfold changelogOf
      rw [hbroker]
      exact .refl _ _
    · rcases hdone with hunapplied | ⟨offset, acked, happlied⟩
      · refine ⟨hunapplied.database, ?_⟩
        obtain ⟨messages, hafter, hlands⟩ := lands_of_settles hsole hdrawn hunapplied.settles
        by_cases hforeign : ∀ message ∈ messages, Recordless message
        · exact Or.inl ⟨messages, hafter, hforeign⟩
        · push Not at hforeign
          obtain ⟨message, hmessage, hrecord⟩ := hforeign
          have hcopy := (hlands message hmessage).resolve_left hrecord
          obtain ⟨offset, hentry⟩ :=
            OffsetLog.exists_mem_extend hmessage (changelogOf settings tp before)
          rw [← hafter] at hentry
          exact Or.inr ⟨_, hentry, record, hcopy, hrefused record hdrawn.encodes⟩
      · exact (hnever hdrawn happlied).elim

end Records

/-! ### Fleets -/

section Fleets

variable {Instance : Type} [DecidableEq Instance] {configure : Instance → Settings}
  {settings : Settings} {conditions : Conditions} {fuel : ℕ} {owner : String → TopicPartition}
  {tp : TopicPartition} {origin poisoned fleet : Fleet Instance} {node : Instance}

omit [DecidableEq Instance] in
/-- Wherever an operation of a store is cut off, the changelog of the fleet only grew. -/
theorem grows_of_steps {operation : Operation} {before after : World} {rest : Action Unit}
    {trace : List (Exchange requests World)} (hpeers : Peers configure settings)
    (hsole : SoleWriter conditions (settings.template tp))
    (hsteps : Steps (environment (configure node) conditions)
      (operation.action (configure node) fuel) before trace rest after) :
    (before.broker.changelogs (settings.template tp)).Grows
      (after.broker.changelogs (settings.template tp)) := by
  have htemplate := (hpeers node).1
  have hpeer : SoleWriter conditions ((configure node).template tp) := htemplate.symm ▸ hsole
  rcases growsBy_of_steps hpeer hsteps with hforeign | ⟨_, _, _, hlands⟩
  · rw [changelogOf_of_peer htemplate, changelogOf_of_peer htemplate] at hforeign
    exact hforeign.grows
  · rw [changelogOf_of_peer htemplate, changelogOf_of_peer htemplate] at hlands
    exact hlands.grows

/-- A record that is refused stays in the changelog of a fleet. -/
theorem poisoned_of_run (hpeers : Peers configure settings)
    (hsole : SoleWriter conditions (settings.template tp))
    (hpoisoned : Poisoned settings.json (poisoned.broker.changelogs (settings.template tp)))
    (hrun : Relation.ReflTransGen (Fleet.Step configure conditions fuel owner tp) poisoned fleet) :
    Poisoned settings.json (fleet.broker.changelogs (settings.template tp)) := by
  induction hrun with
  | refl => exact hpoisoned
  | tail _ hstep ih =>
    cases hstep with
    | drift hdisturb => exact ih.grows (hsole _ _ hdisturb).grows
    | finish hsteps _ => exact ih.grows (grows_of_steps hpeers hsole hsteps)
    | crash hsteps _ =>
      have hkept := ih.grows (grows_of_steps hpeers hsole hsteps)
      exact hkept

/-- Once the changelog of a fleet holds a record whose payload `json()` refuses, no store gets the
partition `READY` again, whatever else happens: an assignment of the partition that returns does not
leave it `READY`, and a store that still calls it `READY` is one whose append failed.
Assumes: as for the hand-off, nobody else appends KSQLite records, message ids belong to one
partition and stand for one record, and the stores agree on the changelog and on `json()`. -/
theorem poisoned_never_ready (hpeers : Peers configure settings)
    (hshared : Shared settings conditions owner tp) (hfresh : origin.Fresh)
    (hattributed : Attributed owner settings origin.broker)
    (huniform : Uniform (origin.broker.changelogs (settings.template tp)))
    (hdrawn : IdsDrawn origin.minted (origin.broker.changelogs (settings.template tp)))
    (hrun : Relation.ReflTransGen (Fleet.Step configure conditions fuel owner tp) origin poisoned)
    (hpoisoned : Poisoned settings.json (poisoned.broker.changelogs (settings.template tp)))
    (hlater : Relation.ReflTransGen (Fleet.Step configure conditions fuel owner tp) poisoned
      fleet) :
    (∀ node, ¬ fleet.failed node → ¬ IsReady tp (fleet.world node)) ∧
    ∀ node assigned trace after, tp ∈ assigned →
      Steps (environment (configure node) conditions)
        ((Operation.assign assigned).action (configure node) fuel) (fleet.world node) trace
        (Outcome.returned ()).program after → ¬ IsReady tp after := by
  have hintact := intact_of_run hpeers hshared (hrun.trans hlater)
    (hfresh.intact hpeers hattributed huniform hdrawn)
  have hnow := poisoned_of_run hpeers hshared.sole hpoisoned hlater
  constructor
  · intro node hunfailed hready
    have hpoison : Poisoned (configure node).json
        (changelogOf (configure node) tp (fleet.world node)) := by
      rw [changelogOf_of_peer (hpeers node).1, (hpeers node).2]
      exact hnow
    have hrecords : Uniform (changelogOf (configure node) tp (fleet.world node)) := by
      rw [changelogOf_of_peer (hpeers node).1]
      exact hintact.uniform
    exact not_caughtUp_of_poisoned (hintact.mirrors node) hrecords hpoison
      (hintact.truthful node hunfailed hready)
  · intro node assigned trace after htp hsteps hready
    have hpeer := shared_of_peer (hpeers node).1 hshared
    have hends := (holds_assignEnds hpeer (hintact.mirrors node)).outcome hsteps
    have hpoison : Poisoned (configure node).json (changelogOf (configure node) tp after) := by
      rw [changelogOf_of_peer (hpeers node).1, (hpeers node).2]
      exact hnow.grows (grows_of_steps hpeers hshared.sole hsteps)
    have hrecords : Uniform (changelogOf (configure node) tp after) := by
      rw [changelogOf_of_peer (hpeers node).1]
      exact (logs_of_permitted hpeers hshared hintact hsteps).1
    exact not_caughtUp_of_poisoned hends.mirrors hrecords hpoison (hends.returned rfl htp hready)

end Fleets

/-! ### A sample -/

/-- How many brackets are open at once in a text of brackets, where some are open already. -/
def deepest : List Char → ℕ → ℕ
  | [], opened => opened
  | '[' :: rest, opened => max (opened + 1) (deepest rest (opened + 1))
  | ']' :: rest, opened => deepest rest (opened - 1)
  | _ :: rest, opened => deepest rest opened

/-- Settings whose `json()` refuses what is nested more than a thousand deep. -/
def strict : Settings :=
  { partitioned 2 with
    json := fun text ↦ if 1000 < deepest text.toList 0 then none else some text }

/-- A record whose payload is nested a thousand and one deep. -/
def nested : KsqliteRecord where
  messageId := "01890a5d-ac96-774b-bcce-b302099a8051"
  entityKey := "k1"
  payload := String.ofList (List.replicate 1001 '[' ++ List.replicate 1001 ']')

/-- Two new stores over the record. -/
def nestedStores : Fleet Bool where
  databases := fun _ ↦ .empty
  memories := fun _ ↦ .new
  broker := Sample.broker (Sample.log [nested]) (some 0)
  minted := {nested.messageId}
  holder := none
  failed := fun _ ↦ False

theorem json_nested : strict.json nested.payload = none := by
  have hrefused (text : String) (htext : 1000 < deepest text.toList 0) : strict.json text = none :=
    if_pos htext
  have hdeep : 1000 < deepest nested.payload.toList 0 := by
    unfold nested
    rw [String.toList_ofList]
    decide +kernel
  exact hrefused _ hdeep

theorem ksqliteOf_nested {entry : ℤ × Message}
    (hentry : entry ∈ (nestedStores.broker.changelogs (strict.template Sample.orders)).entries) :
    ksqliteOf entry.2 = some nested := by
  have hlog : nestedStores.broker.changelogs (strict.template Sample.orders) =
      Sample.log [nested] := by
    have hname : strict.template Sample.orders = Sample.changelog := partitioned_template 2
    rw [hname]
    exact Sample.broker_changelogs _ _
  rw [hlog] at hentry
  have hmem : entry ∈ [((0 : ℤ), nested.message)] := hentry
  rw [List.mem_singleton.mp hmem]
  exact ksqliteOf_eq_some.mpr (classify_message (by decide +kernel))

/-- A store that starts over the record never gets the partition `READY`. -/
theorem poisoned_never_ready_nested : ∃ fleet : Fleet Bool,
    (fleet.world true).memory.runState = .running ∧
    Poisoned strict.json (fleet.broker.changelogs (strict.template Sample.orders)) ∧
    ∀ trace after, Steps (environment strict Sample.calm)
      ((Operation.assign [Sample.orders]).action strict 1) (fleet.world true) trace
      (Outcome.returned ()).program after → ¬ IsReady Sample.orders after := by
  have hnew : (nestedStores.world true).memory.runState = .new := rfl
  obtain ⟨_, hstart⟩ := @exists_started strict _ hnew
  let started := nestedStores.finish strict Sample.orders true .start (.returned ())
    (nestedStores.world true).started
  have hpermitted : Permitted strict (fun _ ↦ Sample.orders) Sample.orders nestedStores true
      .start (nestedStores.world true).started := ⟨by rintro _ _ _ ⟨⟩, by rintro _ ⟨⟩⟩
  have hrun : Relation.ReflTransGen (Fleet.Step (fun _ : Bool ↦ strict) Sample.calm 1
      (fun _ ↦ Sample.orders) Sample.orders) nestedStores started :=
    .single (.finish hstart hpermitted)
  have hpoisoned : Poisoned strict.json
      (nestedStores.broker.changelogs (strict.template Sample.orders)) := by
    have hname : strict.template Sample.orders = Sample.changelog := partitioned_template 2
    have hentry : ((0 : ℤ), nested.message) ∈
        (nestedStores.broker.changelogs (strict.template Sample.orders)).entries := by
      rw [hname]
      have hlog : nestedStores.broker.changelogs Sample.changelog = Sample.log [nested] :=
        Sample.broker_changelogs _ _
      rw [hlog]
      exact List.mem_singleton_self _
    exact ⟨_, hentry, nested, ksqliteOf_nested hentry, json_nested⟩
  have hattributed : Attributed (fun _ ↦ Sample.orders) strict nestedStores.broker := by
    intro tp entry hentry
    by_cases htp : tp = Sample.orders
    · exact fun _ _ ↦ htp.symm
    · have hspare : strict.template tp = "spare.changelog" := if_neg htp
      rw [hspare] at hentry
      exact absurd hentry List.not_mem_nil
  have huniform : Uniform (nestedStores.broker.changelogs (strict.template Sample.orders)) := by
    intro first hfirst second hsecond record other hrecord hother _
    rw [ksqliteOf_nested hfirst] at hrecord
    rw [ksqliteOf_nested hsecond] at hother
    exact Option.some.inj (hrecord.symm.trans hother)
  have hdrawn : IdsDrawn nestedStores.minted
      (nestedStores.broker.changelogs (strict.template Sample.orders)) := by
    intro entry hentry record hrecord
    rw [ksqliteOf_nested hentry] at hrecord
    rw [← Option.some.inj hrecord]
    exact Finset.mem_singleton_self _
  have hshared : Shared strict Sample.calm (fun _ ↦ Sample.orders) Sample.orders :=
    ⟨fun _ _ hdisturb ↦ hdisturb.elim, fun _ _ hdisturb ↦ hdisturb.elim⟩
  obtain ⟨_, hnever⟩ := poisoned_never_ready (fun _ ↦ ⟨rfl, rfl⟩) hshared
    ⟨fun _ ↦ rfl, fun _ ↦ rfl, rfl⟩ hattributed huniform hdrawn .refl hpoisoned hrun
  have hrunning : (started.world true).memory.runState = .running := by
    have hworld : started.world true = (nestedStores.world true).started :=
      Fleet.world_finish_self
    rw [hworld]
    rfl
  exact ⟨started, hrunning, hpoisoned,
    fun trace after ↦ hnever true [Sample.orders] trace after (List.mem_singleton_self _)⟩

end KSQLite.Runs
