import KSQLite.Store.Effects
import KSQLite.Store.Facade

/-!
# Rules of the facade

What the operations of a host make of a world. An operation of a store that is not running is
refused and changes nothing (`holds_guarded`), an append counts itself in flight around the append
proper (`holds_append`), which mints, produces and applies (`Store.holds_append`), and a start
empties `_owned` before it starts anything (`holds_start`).
-/

set_option autoImplicit false
set_option relaxedAutoImplicit false

namespace KSQLite.Store

open KSQLite.Suspension

variable {settings : Settings} {conditions : Conditions} {condition : Call → World → Prop}
  {world : World}

namespace World

/-- A message id is drawn. -/
def mint (world : World) (messageId : String) : World :=
  { world with minted := insert messageId world.minted }

/-- An append that has been admitted. -/
def enter (world : World) : World :=
  { world with memory := { world.memory with inFlight := world.memory.inFlight + 1 } }

/-- An append that has ended. -/
def exit (world : World) : World :=
  { world with memory :=
    { world.memory with
      inFlight := world.memory.inFlight - 1
      drained := world.memory.drained ||
        decide (world.memory.runState ≠ .running ∧ world.memory.inFlight - 1 = 0) } }

/-- A start that succeeded. -/
def started (world : World) : World :=
  { world with
    database := world.database.deleteAllOwned
    memory :=
      { world.memory with state := .new, consumer := none, checked := ∅, runState := .running } }

end World

/-! ### The append proper -/

/-- A produce of a minted record to the changelog of its partition, and what it makes of the
broker. -/
structure Produced (settings : Settings) (conditions : Conditions) (source : TopicPartition)
    (world : World) (record : KsqliteRecord) (broker : Broker) : Prop where
  uuid : isUUID record.messageId = true
  fresh : record.messageId ∉ world.minted
  settles : Settles conditions (.sendAndWait (settings.template source) record.message)
    world.broker broker

/-- The row of a produced record. -/
def KsqliteRecord.row (record : KsqliteRecord) (source : TopicPartition) (offset : ℤ) : Row :=
  ⟨record.messageId, source, offset, record.entityKey, record.payload⟩

/-- What an append encodes before it produces anything: its key and its payload are valid, and the
changelog of its partition has a legal name. -/
structure Encodes (settings : Settings) (source : TopicPartition) (entityKey : EntityKey)
    (payload : Payload) (record : KsqliteRecord) : Prop where
  key : validateEntityKey entityKey = .ok record.entityKey
  payload : serializePayload settings.loads payload = .ok record.payload
  name : changelogName settings source = .ok (settings.template source)

/-- What an append needs, step by step: its arguments are refused before anything is produced, or
its produce fails, or its record is acknowledged where it landed last and the write fails or
commits. -/
theorem holds_append_steps {source : TopicPartition} {entityKey : EntityKey} {payload : Payload}
    {post : Outcome Error Unit → World → Prop}
    (hrefused : ∀ error, (∀ record, ¬ Encodes settings source entityKey payload record) →
      post (.raised error) world)
    (hminted : ∀ messageId error,
      (∀ record, ¬ Encodes settings source entityKey payload record) →
      post (.raised error) (world.mint messageId))
    (hproduced : ∀ record broker, Encodes settings source entityKey payload record →
      Produced settings conditions source world record broker →
      condition (.sendAndWait (settings.template source) record.message)
        ((world.mint record.messageId).drift broker) ∧
      ∀ error, post (.raised error) ((world.mint record.messageId).drift broker))
    (hacknowledged : ∀ record broker offset later,
      Encodes settings source entityKey payload record →
      Produced settings conditions source world record broker → 0 ≤ offset →
      LandedLast (broker.changelogs (settings.template source)) record.message offset →
      Drifts conditions broker later →
      condition (.transaction (.applyMaterialization (record.row source offset)))
        ((world.mint record.messageId).drift later) ∧
      (∀ error, post (.raised error) ((world.mint record.messageId).drift later)) ∧
      ∀ applied,
        world.database.applyMaterialization settings.json (record.row source offset) = .ok applied →
        post (.returned ()) ((((world.mint record.messageId).drift later).commit applied).onState
          (·.recordApplied source offset))) :
    Holds (environment settings conditions) (AtCall condition) post
      (append settings source entityKey payload) world := by
  unfold append
  cases hkey : validateEntityKey entityKey with
  | error error =>
    refine hrefused error fun record hencodes ↦ ?_
    rw [hencodes.key] at hkey
    cases hkey
  | ok key =>
    refine holds_bind.mpr (holds_ofExcept_ok.mpr ?_)
    refine holds_bind.mpr (holds_newMessageId.mpr fun messageId huuid hfresh ↦ ?_)
    refine sequel_returned.mpr (holds_bind.mpr ?_)
    cases hencode : encode settings.loads key payload messageId with
    | error error =>
      refine hminted messageId error fun record hencodes ↦ ?_
      unfold encode at hencode
      rw [hencodes.payload] at hencode
      cases hencode
    | ok record =>
      obtain ⟨hpayload, rfl, rfl⟩ := encode_eq_ok hencode
      refine holds_ofExcept_ok.mpr (sequel_returned.mpr (holds_bind.mpr ?_))
      cases hname : changelogName settings source with
      | error error =>
        refine hminted _ error fun other hencodes ↦ ?_
        rw [hencodes.name] at hname
        cases hname
      | ok name =>
        obtain rfl := eq_template_of_changelogName hname
        have hencodes : Encodes settings source entityKey payload record := ⟨hkey, hpayload, hname⟩
        refine holds_ofExcept_ok.mpr (sequel_returned.mpr ?_)
        refine holds_bind.mpr (holds_mapError.mpr (holds_perform.mpr fun broker hsettles ↦ ?_))
        have hproduce : Produced settings conditions source world record broker :=
          ⟨huuid, hfresh, hsettles⟩
        have hlost := (hproduced record broker hencodes hproduce).2
        refine ⟨(hproduced record broker hencodes hproduce).1, fun error _ ↦ hlost _, ?_⟩
        rintro (offset : ℤ) next ⟨rfl, hlanded⟩
        change Holds _ _ _ (if offset < 0 then _ else _) _
        by_cases hnegative : offset < 0
        · rw [if_pos hnegative]
          exact hlost _
        · rw [if_neg hnegative]
          have hlast := hlanded.resolve_right fun hnack ↦ hnegative hnack.1
          refine holds_bind.mpr (holds_perform.mpr fun later hlater ↦ ?_)
          have hdrifts := (settles_iff_drifts (by simp)).mp hlater
          obtain ⟨hmoment, hraised, happlied⟩ := hacknowledged record broker offset later hencodes
            hproduce (not_lt.mp hnegative) hlast hdrifts
          refine ⟨hmoment, fun error _ ↦ hraised error, ?_⟩
          rintro _ next ⟨applied, hrun, rfl⟩
          exact holds_rememberState.mpr (happlied applied hrun)

/-- What an append needs, whatever it encodes. -/
theorem holds_append {source : TopicPartition} {entityKey : EntityKey} {payload : Payload}
    {post : Outcome Error Unit → World → Prop}
    (hrefused : ∀ error, post (.raised error) world)
    (hminted : ∀ messageId error, post (.raised error) (world.mint messageId))
    (hproduced : ∀ record broker, Produced settings conditions source world record broker →
      condition (.sendAndWait (settings.template source) record.message)
        ((world.mint record.messageId).drift broker) ∧
      ∀ error, post (.raised error) ((world.mint record.messageId).drift broker))
    (hacknowledged : ∀ record broker offset later,
      Produced settings conditions source world record broker → 0 ≤ offset →
      LandedLast (broker.changelogs (settings.template source)) record.message offset →
      Drifts conditions broker later →
      condition (.transaction (.applyMaterialization (record.row source offset)))
        ((world.mint record.messageId).drift later) ∧
      (∀ error, post (.raised error) ((world.mint record.messageId).drift later)) ∧
      ∀ applied,
        world.database.applyMaterialization settings.json (record.row source offset) = .ok applied →
        post (.returned ()) ((((world.mint record.messageId).drift later).commit applied).onState
          (·.recordApplied source offset))) :
    Holds (environment settings conditions) (AtCall condition) post
      (append settings source entityKey payload) world :=
  holds_append_steps (fun error _ ↦ hrefused error) (fun messageId error _ ↦
    hminted messageId error)
    (fun record broker _ ↦ hproduced record broker)
    fun record broker offset later _ ↦ hacknowledged record broker offset later

namespace Facade

/-! ### The guard -/

/-- An operation of a store that is not running is refused. -/
theorem holds_guarded {action : Action Unit} {post : Outcome Error Unit → World → Prop}
    (hrefused : world.memory.runState ≠ .running → post (.raised .notRunning) world)
    (haction : world.memory.runState = .running →
      Holds (environment settings conditions) (AtCall condition) post action world) :
    Holds (environment settings conditions) (AtCall condition) post
      (ensureRunning >>= fun _ ↦ action) world := by
  unfold ensureRunning
  refine holds_bind.mpr (holds_bind.mpr (holds_observe.mpr ?_))
  change Holds _ _ _ (if world.memory.runState ≠ .running then _ else _) world
  by_cases hrunning : world.memory.runState = .running
  · rw [if_neg (not_not.mpr hrunning)]
    exact haction hrunning
  · rw [if_pos hrunning]
    exact hrefused hrunning

/-- An append counts itself in flight around the append proper. -/
theorem holds_append {source : TopicPartition} {entityKey : EntityKey} {payload : Payload}
    {middle post : Outcome Error Unit → World → Prop}
    (hrefused : world.memory.runState ≠ .running → post (.raised .notRunning) world)
    (happend : world.memory.runState = .running →
      Holds (environment settings conditions) (AtCall condition) middle
        (Store.append settings source entityKey payload) world.enter)
    (hreturned : ∀ final, middle (.returned ()) final → post (.returned ()) final.exit)
    (hraised : ∀ error final, middle (.raised error) final → post (.raised error) final.exit)
    (hexhausted : ∀ final, middle .exhausted final → post .exhausted final) :
    Holds (environment settings conditions) (AtCall condition) post
      (append settings source entityKey payload) world := by
  refine holds_guarded hrefused fun hrunning ↦ holds_bind.mpr (holds_remember.mpr ?_)
  refine holds_bind.mpr (holds_handle.mpr ?_)
  refine (happend hrunning).mono (fun _ _ hmoment ↦ hmoment) fun outcome final hfinal ↦ ?_
  cases outcome with
  | returned value => exact holds_remember.mpr (hreturned final hfinal)
  | raised error => exact holds_bind.mpr (holds_remember.mpr (hraised error final hfinal))
  | exhausted => exact hexhausted final hfinal

/-! ### Starting -/

/-- Only the broker drifted, and the database is the given one. -/
def Drifted (conditions : Conditions) (origin : World) (database : Database) (world : World) :
    Prop :=
  ∃ broker, Drifts conditions origin.broker broker ∧
    world = { origin with database := database, broker := broker }

theorem Drifted.drift {origin : World} {database : Database} {broker : Broker}
    (hdrifted : Drifted conditions origin database world)
    (hdrifts : Drifts conditions world.broker broker) :
    Drifted conditions origin database (world.drift broker) := by
  obtain ⟨first, hfirst, rfl⟩ := hdrifted
  exact ⟨broker, hfirst.trans hdrifts, rfl⟩

/-- The calls that start and stop the resources of a store change nothing, nor does any step of a
migration but the one that empties `_owned`. -/
inductive Inert : Call → Prop
  | startProducer : Inert .startProducer
  | stopProducer : Inert .stopProducer
  | startAdmin : Inert .startAdmin
  | closeAdmin : Inert .closeAdmin
  | closePool : Inert .closePool
  | createSchema : Inert (.migrate .createSchema)
  | reconcile : Inert (.migrate .reconcile)

/-- A call of a start. -/
def Opening (call : Call) : Prop := Inert call ∨ call = .migrate .deleteAllOwned

theorem Inert.ne_sendAndWait {call : Call} (hinert : Inert call) (name : String)
    (message : Message) : call ≠ .sendAndWait name message := by
  rintro rfl
  cases hinert

/-- Whatever an action returns or raises, only the broker drifts. -/
def Keeps (settings : Settings) (conditions : Conditions) (origin : World) (database : Database)
    (action : Action Unit) : Prop :=
  ∀ world, Drifted conditions origin database world →
    Holds (environment settings conditions) (AtCall fun call _ ↦ Opening call)
      (fun outcome final ↦ outcome ≠ .exhausted ∧ Drifted conditions origin database final)
      action world

section Keeps

variable {origin : World} {database : Database}

/-- An inert call keeps everything, whether it raises or not. -/
theorem holds_inert {call : Call} (hinert : Inert call)
    (hworld : Drifted conditions origin database world) :
    Holds (environment settings conditions) (AtCall fun call _ ↦ Opening call)
      (fun outcome final ↦ outcome ≠ .exhausted ∧ Drifted conditions origin database final)
      (perform call) world := by
  refine holds_perform.mpr fun broker hbroker ↦ ?_
  have hdrifted := hworld.drift ((settles_iff_drifts hinert.ne_sendAndWait).mp hbroker)
  refine ⟨Or.inl hinert, fun error _ ↦ ⟨by simp, hdrifted⟩, fun value next hsucceeds ↦ ?_⟩
  have hsame : next = world.drift broker := by
    cases hinert <;> exact hsucceeds
  exact ⟨by simp, hsame ▸ hdrifted⟩

theorem Keeps.mapError {action : Action Unit} {change : Error → Error}
    (haction : Keeps settings conditions origin database action) :
    Keeps settings conditions origin database (action.mapError change) := by
  intro world hworld
  refine holds_mapError.mpr ((haction world hworld).mono (fun _ _ hmoment ↦ hmoment) ?_)
  rintro (value | raised | _) final ⟨hends, hfinal⟩
  · exact ⟨by simp [Outcome.mapError], hfinal⟩
  · exact ⟨by simp [Outcome.mapError], hfinal⟩
  · exact absurd rfl hends

/-- A rollback closes what was opened, and lets the error go on. -/
theorem holds_rollback {closers : List (Action Unit)} (error : Error)
    (hclosers : ∀ closer ∈ closers, Keeps settings conditions origin database closer)
    (hworld : Drifted conditions origin database world) :
    Holds (environment settings conditions) (AtCall fun call _ ↦ Opening call)
      (fun outcome final ↦ outcome = .raised error ∧ Drifted conditions origin database final)
      (rollback closers error) world := by
  induction closers generalizing world with
  | nil => exact ⟨rfl, hworld⟩
  | cons closer rest ih =>
    have hrest {between : World} (hbetween : Drifted conditions origin database between) :=
      ih (fun other hother ↦ hclosers other (List.mem_cons_of_mem _ hother)) hbetween
    refine holds_bind.mpr (holds_handle.mpr ?_)
    refine (hclosers closer List.mem_cons_self world hworld).mono (fun _ _ hmoment ↦ hmoment) ?_
    rintro (value | raised | _) final ⟨hends, hfinal⟩
    · exact hrest hfinal
    · exact hrest hfinal
    · exact absurd rfl hends

/-- Opening a resource, with the rollback of what was opened before it. -/
theorem Keeps.handle {action : Action Unit} {closers : List (Action Unit)}
    (haction : Keeps settings conditions origin database action)
    (hclosers : ∀ closer ∈ closers, Keeps settings conditions origin database closer) :
    Keeps settings conditions origin database (action.handle (rollback closers)) := by
  intro world hworld
  refine holds_handle.mpr ((haction world hworld).mono (fun _ _ hmoment ↦ hmoment) ?_)
  rintro (value | raised | _) final ⟨hends, hfinal⟩
  · exact ⟨hends, hfinal⟩
  · refine (holds_rollback raised hclosers hfinal).mono (fun _ _ hmoment ↦ hmoment) ?_
    rintro _ last ⟨rfl, hlast⟩
    exact ⟨by simp, hlast⟩
  · exact absurd rfl hends

/-- An action that keeps everything, followed by one that starts from there. -/
theorem Keeps.bind {action : Action Unit} {next : Unit → Action Unit}
    {post : Outcome Error Unit → World → Prop}
    (haction : Keeps settings conditions origin database action)
    (hworld : Drifted conditions origin database world)
    (hraised : ∀ error final, Drifted conditions origin database final →
      post (.raised error) final)
    (hreturned : ∀ final, Drifted conditions origin database final →
      Holds (environment settings conditions) (AtCall fun call _ ↦
        Opening call) post (next ()) final) :
    Holds (environment settings conditions) (AtCall fun call _ ↦
      Opening call) post (action >>= next) world :=
  (haction world hworld).bind (fun _ final hfinal ↦ hreturned final hfinal.2)
    (fun error final hfinal ↦ hraised error final hfinal.2) fun _ hfinal ↦ absurd rfl hfinal.1

end Keeps

/-- How a start fails before `_owned` is emptied. -/
def Stuck (conditions : Conditions) : Prop :=
  ∃ step error, (step = .createSchema ∨ step = .deleteAllOwned) ∧
    conditions.fails (.migrate step) error

/-- What a start of a new store makes of a world. -/
def Starts (conditions : Conditions) (before : World) : Outcome Error Unit → World → Prop
  | .returned _, final => Drifted conditions before.started before.database.deleteAllOwned final
  | .raised _, final =>
    Drifted conditions before before.database.deleteAllOwned final ∨
      Drifted conditions before before.database final ∧ Stuck conditions
  | .exhausted, _ => False

/-- What a migration makes of a world. -/
def Migrates (conditions : Conditions) (before : World) : Outcome Error Unit → World → Prop
  | .returned _, final => Drifted conditions before before.database.deleteAllOwned final
  | outcome, final => Starts conditions before outcome final

/-- A migration that got to the end emptied `_owned`. -/
theorem holds_migrate : Holds (environment settings conditions) (AtCall fun call _ ↦ Opening call)
    (Migrates conditions world) (migrate settings) world := by
  have hstuck {step : MigrationStep} (hstep : step = .createSchema ∨ step = .deleteAllOwned)
      {error : Error} {between : World}
      (hraises : Raises settings conditions between (.migrate step) error) : Stuck conditions :=
    ⟨step, error, hstep, hraises.resolve_right id⟩
  refine holds_mapError.mpr (holds_bind.mpr (holds_perform.mpr fun broker hbroker ↦ ?_))
  have hcreated : Drifted conditions world world.database (world.drift broker) :=
    ⟨broker, (settles_iff_drifts (by simp)).mp hbroker, rfl⟩
  refine ⟨Or.inl .createSchema, fun error hraises ↦
    Or.inr ⟨hcreated, hstuck (Or.inl rfl) hraises⟩, ?_⟩
  rintro _ next rfl
  refine sequel_returned.mpr (holds_bind.mpr (holds_perform.mpr fun later hlater ↦ ?_))
  have hemptied := hcreated.drift ((settles_iff_drifts (by simp)).mp hlater)
  refine ⟨Or.inr rfl, fun error hraises ↦ Or.inr ⟨hemptied, hstuck (Or.inr rfl) hraises⟩, ?_⟩
  rintro _ next rfl
  obtain ⟨last, hlast, hworld⟩ := hemptied
  have hclean : Drifted conditions world world.database.deleteAllOwned
      { (world.drift broker).drift later with
        database := ((world.drift broker).drift later).database.deleteAllOwned } := by
    rw [hworld]
    exact ⟨last, hlast, rfl⟩
  refine sequel_returned.mpr ((holds_inert .reconcile hclean).mono (fun _ _ hmoment ↦ hmoment) ?_)
  rintro (value | raised | _) final ⟨hends, hfinal⟩
  · exact hfinal
  · exact Or.inl hfinal
  · exact absurd rfl hends

/-- A migration with its rollback. -/
theorem holds_migrated {closer : Action Unit}
    (hclean : Keeps settings conditions world world.database.deleteAllOwned closer)
    (hstale : Keeps settings conditions world world.database closer) :
    Holds (environment settings conditions) (AtCall fun call _ ↦
      Opening call) (Migrates conditions world)
      ((migrate settings).handle (rollback [closer])) world := by
  refine holds_handle.mpr (holds_migrate.mono (fun _ _ hmoment ↦ hmoment) ?_)
  rintro (value | raised | _) final hfinal
  · exact hfinal
  · rcases hfinal with hemptied | ⟨hbefore, hstuck⟩
    · refine (holds_rollback raised (List.forall_mem_singleton.mpr hclean) hemptied).mono
        (fun _ _ hmoment ↦ hmoment) ?_
      rintro _ last ⟨rfl, hlast⟩
      exact Or.inl hlast
    · refine (holds_rollback raised (List.forall_mem_singleton.mpr hstale) hbefore).mono
        (fun _ _ hmoment ↦ hmoment) ?_
      rintro _ last ⟨rfl, hlast⟩
      exact Or.inr ⟨hlast, hstuck⟩
  · exact absurd hfinal id

/-- A start of a new store empties `_owned` first: once it got past that, `_owned` is empty however
it ends. -/
theorem holds_start {post : Outcome Error Unit → World → Prop}
    (htwice : world.memory.runState ≠ .new → post (.raised .startedTwice) world)
    (hstarts : world.memory.runState = .new → ∀ outcome final,
      Starts conditions world outcome final → post outcome final) :
    Holds (environment settings conditions) (AtCall fun call _ ↦ Opening call) post (start settings)
      world := by
  unfold start
  refine holds_bind.mpr (holds_observe.mpr ?_)
  change Holds _ _ _ (if world.memory.runState ≠ .new then _ else _) world
  by_cases hnew : world.memory.runState = .new
  · rw [if_neg (not_not.mpr hnew)]
    have hpost := hstarts hnew
    have hraised (error : Error) (final : World)
        (hfinal : Drifted conditions world world.database.deleteAllOwned final) :
        post (.raised error) final := hpost _ final (Or.inl hfinal)
    have hclosePool (database : Database) :
        Keeps settings conditions world database (perform .closePool) :=
      fun _ hworld ↦ holds_inert .closePool hworld
    have hopen (final : World)
        (hfinal : Drifted conditions world world.database.deleteAllOwned final) :
        Holds (environment settings conditions) (AtCall fun call _ ↦ Opening call) post
          (do
            ((perform .startProducer).mapError (.producerNotStarted ·.text)).handle
              (rollback [perform .stopProducer, perform .closePool])
            ((perform .startAdmin).mapError (.adminNotStarted ·.text)).handle
              (rollback [perform .closeAdmin, perform .stopProducer, perform .closePool])
            remember fun memory ↦
              { memory with state := .new, consumer := none, checked := ∅, runState := .running })
          final := by
      have hproducer : Keeps settings conditions world world.database.deleteAllOwned
          (((perform .startProducer).mapError (.producerNotStarted ·.text)).handle
            (rollback [perform .stopProducer, perform .closePool])) := by
        refine Keeps.handle (Keeps.mapError fun _ hworld ↦ holds_inert .startProducer hworld) ?_
        refine List.forall_mem_cons.mpr ⟨fun _ hworld ↦ holds_inert .stopProducer hworld, ?_⟩
        exact List.forall_mem_singleton.mpr (hclosePool _)
      have hadmin : Keeps settings conditions world world.database.deleteAllOwned
          (((perform .startAdmin).mapError (.adminNotStarted ·.text)).handle
            (rollback [perform .closeAdmin, perform .stopProducer, perform .closePool])) := by
        refine Keeps.handle (Keeps.mapError fun _ hworld ↦ holds_inert .startAdmin hworld) ?_
        refine List.forall_mem_cons.mpr ⟨fun _ hworld ↦ holds_inert .closeAdmin hworld, ?_⟩
        refine List.forall_mem_cons.mpr ⟨fun _ hworld ↦ holds_inert .stopProducer hworld, ?_⟩
        exact List.forall_mem_singleton.mpr (hclosePool _)
      refine hproducer.bind hfinal hraised fun between hbetween ↦ ?_
      refine hadmin.bind hbetween hraised fun last hlast ↦ holds_remember.mpr ?_
      obtain ⟨broker, hdrifts, rfl⟩ := hlast
      exact hpost _ _ ⟨broker, hdrifts, rfl⟩
    refine (holds_migrated (hclosePool _) (hclosePool _)).bind (fun _ ↦ hopen) ?_ ?_
    · exact fun error final hfinal ↦ hpost _ final hfinal
    · exact fun final hfinal ↦ absurd hfinal id
  · rw [if_pos hnew]
    exact htwice hnew

/-! ### Runs, read off what holds -/

/-- What an operation of a running store needs of its action. -/
theorem action_of_guarded {action : Action Unit} {post : Outcome Error Unit → World → Prop}
    (hrunning : world.memory.runState = .running)
    (hguarded : Holds (environment settings conditions) (AtCall condition) post
      (ensureRunning >>= fun _ ↦ action) world) :
    Holds (environment settings conditions) (AtCall condition) post action world := by
  have hobserved := sequel_returned.mp (holds_observe.mp (holds_bind.mp (holds_bind.mp hguarded)))
  rw [if_neg (not_not.mpr hrunning)] at hobserved
  exact hobserved

/-- What a start of a new store needs of the store it leaves. -/
theorem post_of_start {post : Outcome Error Unit → World → Prop}
    (hnew : world.memory.runState = .new)
    (hstart : Holds (environment settings conditions) (AtCall condition) post (start settings)
      world) : post (.returned ()) world.started := by
  have hobserved := sequel_returned.mp (holds_observe.mp (holds_bind.mp hstart))
  rw [if_neg (not_not.mpr hnew)] at hobserved
  let emptied : World := { world with database := world.database.deleteAllOwned }
  have hcreates : Succeeds settings conditions world (.migrate .createSchema) () world := rfl
  have hempties : Succeeds settings conditions world (.migrate .deleteAllOwned) () emptied := rfl
  have hreconciles : Succeeds settings conditions emptied (.migrate .reconcile) () emptied := rfl
  have hproduces : Succeeds settings conditions emptied .startProducer () emptied := rfl
  have hadmits : Succeeds settings conditions emptied .startAdmin () emptied := rfl
  have hmigrate := holds_mapError.mp (holds_handle.mp (holds_bind.mp hobserved))
  have hcreated := sequel_returned.mp (holds_result (holds_bind.mp hmigrate) hcreates)
  have hemptied := sequel_returned.mp (holds_result (holds_bind.mp hcreated) hempties)
  have hmigrated := sequel_returned.mp (holds_result hemptied hreconciles)
  have hproducer := holds_mapError.mp (holds_handle.mp (holds_bind.mp hmigrated))
  have hadmin := sequel_returned.mp (holds_result hproducer hproduces)
  have hclient := holds_mapError.mp (holds_handle.mp (holds_bind.mp hadmin))
  exact holds_remember.mp (sequel_returned.mp (holds_result hclient hadmits))

end Facade

end KSQLite.Store
