import KSQLite.Runs.Schedules
import KSQLite.Store.WriteBacks

/-!
# A revoked partition stays hidden

Rebalance hooks that interleave at their awaits. A coroutine that does not assign a partition never
brings it back (`Sparing`), so a revocation that no assignment of the partition overlaps leaves it
hidden, and hidden it stays until the next assignment of it is started (`revoked_stays_hidden`).
An assignment that a revocation overlaps marks and reveals the partition afterwards
(`revoked_comes_back`).
-/

set_option autoImplicit false
set_option relaxedAutoImplicit false

namespace KSQLite.Runs

open KSQLite.Suspension KSQLite.Store

/-- The store has seen a partition. -/
def Seen (tp : TopicPartition) (world : World) : Prop := world.memory.state.statusOf tp ≠ none

/-- A partition is not in `_owned`, and on standby if the store has seen it. -/
structure Withdrawn (tp : TopicPartition) (world : World) : Prop where
  owned : tp ∉ world.database.owned
  standby : Seen tp world → world.memory.state.statusOf tp = some .standby

/-- What happened did not bring a partition back. -/
structure Withholds (tp : TopicPartition) (world next : World) : Prop where
  owned : tp ∈ next.database.owned → tp ∈ world.database.owned
  status : next.memory.state.statusOf tp = world.memory.state.statusOf tp ∨
    next.memory.state.statusOf tp = some .standby

section Relations

variable {tp : TopicPartition} {first second third : World}

theorem Withholds.refl (tp : TopicPartition) (world : World) : Withholds tp world world :=
  ⟨id, Or.inl rfl⟩

theorem Withholds.trans (hfirst : Withholds tp first second) (hsecond : Withholds tp second third) :
    Withholds tp first third := by
  refine ⟨fun howned ↦ hfirst.owned (hsecond.owned howned), ?_⟩
  rcases hsecond.status with hsame | hstandby
  · rw [hsame]
    exact hfirst.status
  · exact Or.inr hstandby

theorem Withholds.seen (hwithholds : Withholds tp first second)
    (hseen : Seen tp first) : Seen tp second := by
  rcases hwithholds.status with hsame | hstandby
  · unfold Seen
    rwa [hsame]
  · unfold Seen
    rw [hstandby]
    simp

theorem Withdrawn.withholds (hwithdrawn : Withdrawn tp first)
    (hwithholds : Withholds tp first second) :
    Withdrawn tp second := by
  refine ⟨fun howned ↦ hwithdrawn.owned (hwithholds.owned howned), fun hseen ↦ ?_⟩
  rcases hwithholds.status with hsame | hstandby
  · unfold Seen at hseen
    rw [hsame] at hseen ⊢
    exact hwithdrawn.standby hseen
  · exact hstandby

/-- A partition in `_owned` was seen, before and after. -/
theorem Withholds.revealed (hwithholds : Withholds tp first second)
    (hrevealed : tp ∈ first.database.owned → Seen tp first) :
    tp ∈ second.database.owned → Seen tp second :=
  fun howned ↦ hwithholds.seen (hrevealed (hwithholds.owned howned))

end Relations

section Requests

variable {settings : Settings} {conditions : Conditions} {tp : TopicPartition}

/-- A request whose answers do not bring a partition back. -/
def Sparing (settings : Settings) (conditions : Conditions) (tp : TopicPartition)
    (request : Request) : Prop :=
  ∀ world reply next, (environment settings conditions).answers world request reply next →
    Withholds tp world next

theorem sparing_of_elsewhere {request : Request} (helsewhere : Elsewhere tp request) :
    Sparing settings conditions tp request := by
  intro world reply next hanswers
  obtain ⟨halone, hentries⟩ := helsewhere.leavesAlone hanswers
  exact ⟨halone.owned.mp, Or.inl (PartitionStateMachine.reads_eq_of_entries_eq hentries).1⟩

/-- A change of the memory that keeps the status or makes it standby. -/
theorem sparing_remember {update : Memory → Memory}
    (hstatus : ∀ memory, (update memory).state.statusOf tp = memory.state.statusOf tp ∨
      (update memory).state.statusOf tp = some .standby) :
    Sparing settings conditions tp (.remember update) := by
  rintro world ⟨⟩ next rfl
  exact ⟨id, hstatus world.memory⟩

/-- Among the works only the reveal of a partition adds it to `_owned`. -/
theorem reveal_of_run {json : String → Option String} {work : Work} {before after : Database}
    (hrun : work.run json before = .ok after) (howned : tp ∈ after.owned) :
    tp ∈ before.owned ∨ work = .ownedInsert tp := by
  by_cases hother : tp = work.partition
  · cases work with
    | ownedInsert source => exact Or.inr (congrArg Work.ownedInsert hother.symm)
    | ownedDelete source =>
      cases hrun
      exact Or.inl (Finset.mem_of_mem_erase howned)
    | checkpointClamp source target =>
      cases hrun
      exact Or.inl howned
    | materializeBatch source records offset =>
      obtain ⟨_, rfl⟩ := run_materializeBatch_eq_ok.mp hrun
      exact Or.inl (by simpa [Database.upsertCheckpoint] using howned)
    | applyMaterialization row =>
      obtain ⟨_, _, rfl⟩ := Database.applyMaterialization_eq_ok.mp hrun
      exact Or.inl howned
  · exact Or.inl ((Work.leavesAlone hrun hother).owned.mp howned)

/-- A transaction that is not the reveal of a partition. -/
theorem sparing_transaction {work : Work} (hwork : work ≠ .ownedInsert tp) :
    Sparing settings conditions tp (.call (.transaction work)) := by
  rintro world (error | value) next hanswers
  · obtain ⟨_, rfl⟩ := hanswers
    exact .refl tp _
  · obtain ⟨committed, hrun, rfl⟩ := hanswers
    exact ⟨fun howned ↦ (reveal_of_run hrun howned).resolve_right hwork, Or.inl rfl⟩

/-- A partition is revealed by a reveal only. -/
theorem reveal_of_owned {activity : Activity} {request : Request} {reply : request.Reply}
    {world next : World} (hconcerns : activity.Concerns request)
    (hanswers : (environment settings conditions).answers world request reply next)
    (howned : tp ∈ next.database.owned) :
    tp ∈ world.database.owned ∨ request = .call (.transaction (.ownedInsert tp)) := by
  have hcommitted : Committed settings ⟨world, request, reply⟩ next := database_of_answers hanswers
  unfold Committed at hcommitted
  cases hcommit : committed ⟨world, request, reply⟩ with
  | none =>
    rw [hcommit] at hcommitted
    exact Or.inl (hcommitted ▸ howned)
  | some commit =>
    rw [hcommit] at hcommitted
    have hrequest := request_of_committed hcommit
    cases commit with
    | deleteAllOwned =>
      obtain rfl : request = .call (.migrate .deleteAllOwned) := hrequest
      rcases hconcerns with hunrelated | ⟨_, _, hconfined⟩
      · exact hunrelated.elim
      · exact hconfined.elim
    | work work =>
      obtain rfl : request = .call (.transaction work) := hrequest
      exact (reveal_of_run hcommitted howned).imp_right fun hwork ↦ by rw [hwork]

/-- Nothing that a coroutine asks makes the store forget a partition. -/
theorem seen_of_answers {activity : Activity} {request : Request} {reply : request.Reply}
    {world next : World} (hconcerns : activity.Concerns request)
    (hanswers : (environment settings conditions).answers world request reply next)
    (hseen : Seen tp world) : Seen tp next := by
  unfold Seen at hseen ⊢
  rcases state_of_answers hanswers with ⟨update, rfl, hnext⟩ | hsame
  · rw [hnext]
    rcases hconcerns with hunrelated | ⟨source, _, hconfined⟩
    · rwa [hunrelated world.memory]
    · by_cases htp : tp = source
      · rw [htp] at hseen ⊢
        exact hconfined.keeps world.memory hseen
      · rwa [(PartitionStateMachine.reads_eq_of_entries_eq
          (hconfined.others world.memory tp htp)).1]
  · rwa [hsame]

end Requests

/-! ### Coroutines -/

/-- A coroutine that assigns a partition. -/
def Assigned (tp : TopicPartition) : Activity → Prop
  | .assign assigned => tp ∈ assigned
  | _ => False

/-- A coroutine that revokes a partition. -/
def Revoked (tp : TopicPartition) : Activity → Prop
  | .revoke revoked => tp ∈ revoked
  | _ => False

section Coroutines

variable {settings : Settings} {conditions : Conditions} {fuel : ℕ} {tp source : TopicPartition}

theorem asks_sparing_revokeOne : (revokeOne source).Asks (Sparing settings conditions tp) := by
  by_cases hsource : source = tp
  · have hcall : Sparing settings conditions tp (.call (.transaction (.ownedDelete source))) :=
      sparing_transaction (by simp)
    have hmark : Sparing settings conditions tp
        (.remember fun memory ↦ { memory with state := memory.state.markRevoked source }) := by
      refine sparing_remember fun memory ↦ Or.inr ?_
      rw [hsource]
      exact PartitionStateMachine.statusOf_mark _
    have hobserve : Sparing settings conditions tp .observe := sparing_of_elsewhere trivial
    refine ⟨hobserve, fun memory ↦ ?_⟩
    change Program.Asks _ (if memory.state.statusOf source = none then _ else _)
    split_ifs
    · trivial
    · exact (asks_perform hcall).bind fun _ ↦ ⟨hmark, fun _ ↦ trivial⟩
  · exact asks_revokeOne.mono fun _ hconfined ↦ sparing_of_elsewhere (hconfined.elsewhere hsource)

theorem asks_sparing_append {entityKey : EntityKey} {payload : Payload} :
    (append settings source entityKey payload).Asks (Sparing settings conditions tp) := by
  by_cases hsource : source = tp
  · refine asks_ofExcept.bind fun entityKey ↦ ?_
    have hmint : newMessageId.Asks (Sparing settings conditions tp) :=
      ⟨sparing_of_elsewhere trivial, fun _ ↦ trivial⟩
    refine hmint.bind fun messageId ↦ asks_ofExcept.bind fun encoded ↦ ?_
    refine asks_ofExcept.bind fun topic ↦ ?_
    have hproduce : (perform (.sendAndWait topic encoded.message)).Asks
        (Sparing settings conditions tp) := asks_perform (sparing_of_elsewhere trivial)
    refine hproduce.mapError.bind fun offset ↦ ?_
    split_ifs
    · trivial
    · have happly : (perform (.transaction (.applyMaterialization
          ⟨messageId, source, offset, entityKey, encoded.payload⟩))).Asks
          (Sparing settings conditions tp) := asks_perform (sparing_transaction (by simp))
      refine happly.bind fun _ ↦ ⟨sparing_remember fun memory ↦ ?_, fun _ ↦ trivial⟩
      rw [hsource]
      by_cases hseen : memory.state.statusOf tp = none
      · exact Or.inr (by simp [hseen])
      · obtain ⟨status, hstatus⟩ := Option.ne_none_iff_exists'.mp hseen
        exact Or.inl (by simp [hstatus])
  · exact asks_append.mono fun _ hconfined ↦ sparing_of_elsewhere (hconfined.elsewhere hsource)

/-- A coroutine that does not assign a partition does not bring it back. -/
theorem asks_sparing {activity : Activity} (hactivity : ¬ Assigned tp activity) :
    (activity.action settings fuel).Asks (Sparing settings conditions tp) := by
  have hunrelated {request : Request} (hrequest : Unrelated request) :
      Sparing settings conditions tp request := by
    have hconcerns : (Activity.revoke []).Concerns request := Or.inl hrequest
    exact sparing_of_elsewhere (hconcerns.elsewhere List.not_mem_nil)
  have hrunning : Facade.ensureRunning.Asks (Sparing settings conditions tp) := by
    refine ⟨hunrelated trivial, fun memory ↦ ?_⟩
    change Program.Asks _ (if memory.runState ≠ .running then _ else _)
    split_ifs <;> trivial
  cases activity with
  | append source entityKey payload =>
    have hleave : Facade.leave.Asks (Sparing settings conditions tp) :=
      ⟨hunrelated fun _ ↦ rfl, fun _ ↦ trivial⟩
    have hfailed (error : Error) : Program.Asks (Sparing settings conditions tp) (do
        Facade.leave
        (.raise error : Action Unit)) := hleave.bind fun _ ↦ trivial
    refine hrunning.bind fun _ ↦ ⟨hunrelated fun _ ↦ rfl, fun _ ↦ ?_⟩
    exact (asks_sparing_append.handle hfailed).bind fun _ ↦ hleave
  | assign assigned =>
    refine (Activity.asks (.assign assigned)).mono fun request hconcerns ↦ ?_
    exact sparing_of_elsewhere (hconcerns.elsewhere hactivity)
  | revoke revoked =>
    refine hrunning.bind fun _ ↦ ?_
    clear hactivity
    induction revoked with
    | nil => trivial
    | cons source rest ih => exact asks_sparing_revokeOne.bind fun _ ↦ ih

/-! ### A revocation -/

/-- The surroundings of a coroutine beside others that do not bring a partition back. -/
abbrev sparingOthers (settings : Settings) (conditions : Conditions) (tp : TopicPartition) :
    Environment requests World :=
  shared (environment settings conditions) (Withholds tp) (Withholds.refl tp) Withholds.trans

/-- A revocation of a partition that returned left it hidden. -/
def HiddenOnReturn (tp : TopicPartition) (outcome : Outcome Error Unit) (world : World) : Prop :=
  outcome = .returned () → Withdrawn tp world

/-- Revoked one partition, where a partition in `_owned` was seen. -/
theorem holds_revokeOne_withdrawn {world : World}
    (hrevealed : tp ∈ world.database.owned → Seen tp world) :
    Holds (sparingOthers settings conditions tp) (fun _ _ ↦ True) (HiddenOnReturn tp)
      (revokeOne tp) world := by
  intro observed hobserved
  have hkept := hobserved.revealed hrevealed
  refine ⟨trivial, ?_⟩
  rintro memory next ⟨hmemory, hnext⟩
  rw [hnext, hmemory]
  change Holds _ _ _ (if observed.memory.state.statusOf tp = none then _ else _) observed
  split_ifs with hunseen
  · exact fun _ ↦ ⟨fun howned ↦ hkept howned hunseen, fun hseen ↦ absurd hunseen hseen⟩
  · intro deleting _
    refine ⟨trivial, ?_⟩
    rintro (error | value) deleted hanswers
    · exact fun hreturned ↦ by cases hreturned
    · obtain ⟨committed, hrun, rfl⟩ := hanswers
      cases hrun
      intro marking hmarking
      refine ⟨trivial, ?_⟩
      rintro ⟨⟩ _ rfl _
      refine ⟨fun howned ↦ ?_, fun _ ↦ PartitionStateMachine.statusOf_mark _⟩
      exact Finset.notMem_erase tp _ (hmarking.owned howned)

/-- Revoked partitions among which there is one. -/
theorem holds_onPartitionsRevoked_withdrawn {revoked : List TopicPartition} (htp : tp ∈ revoked)
    {world : World} (hrevealed : tp ∈ world.database.owned → Seen tp world) :
    Holds (sparingOthers settings conditions tp) (fun _ _ ↦ True) (HiddenOnReturn tp)
      (onPartitionsRevoked revoked) world := by
  induction revoked generalizing world with
  | nil => exact absurd htp List.not_mem_nil
  | cons source rest ih =>
    by_cases hsource : source = tp
    · subst hsource
      have hrest {between : World} (hbetween : Withdrawn source between) :
          Holds (sparingOthers settings conditions source) (fun _ _ ↦ True)
            (HiddenOnReturn source) (onPartitionsRevoked rest) between := by
        have hasks : (onPartitionsRevoked rest).Asks (Sparing settings conditions source) := by
          clear ih htp
          induction rest with
          | nil => trivial
          | cons other rest ih => exact asks_sparing_revokeOne.bind fun _ ↦ ih
        refine (hasks.holds (Withdrawn source) ?_ (fun _ _ ↦ Withdrawn.withholds) hbetween).mono
          (fun _ _ _ ↦ trivial) fun _ _ hfinal _ ↦ hfinal
        exact fun request world reply next hsparing hkept hanswers ↦
          hkept.withholds (hsparing world reply next hanswers)
      exact (holds_revokeOne_withdrawn hrevealed).bind
        (fun _ between hbetween ↦ hrest (hbetween rfl))
        (fun _ _ _ hreturned ↦ by cases hreturned) fun _ _ hreturned ↦ by cases hreturned
    · have hmem : tp ∈ rest := (List.mem_cons.mp htp).resolve_left fun heq ↦ hsource heq.symm
      have hone : Holds (sparingOthers settings conditions tp)
          (fun _ world ↦ tp ∈ world.database.owned → Seen tp world)
          (fun _ world ↦ tp ∈ world.database.owned → Seen tp world) (revokeOne source) world := by
        have hasks : (revokeOne source).Asks (Sparing settings conditions tp) :=
          asks_sparing_revokeOne
        refine hasks.holds _ ?_ (fun _ _ hkept hrely ↦ hrely.revealed hkept) hrevealed
        exact fun request world reply next hsparing hkept hanswers ↦
          (hsparing world reply next hanswers).revealed hkept
      refine (hone.mono (fun _ _ _ ↦ trivial) fun _ _ hkept ↦ hkept).bind
        (fun _ between hbetween ↦ ih hmem hbetween) ?_ ?_
      · exact fun _ _ _ hreturned ↦ by cases hreturned
      · exact fun _ _ hreturned ↦ by cases hreturned

/-- A call of the revocation hook. -/
theorem holds_revoke_withdrawn {revoked : List TopicPartition} (htp : tp ∈ revoked)
    {world : World} (hrevealed : tp ∈ world.database.owned → Seen tp world) :
    Holds (sparingOthers settings conditions tp) (fun _ _ ↦ True) (HiddenOnReturn tp)
      ((Activity.revoke revoked).action settings fuel) world := by
  intro observed hobserved
  refine ⟨trivial, ?_⟩
  rintro memory next ⟨hmemory, hnext⟩
  rw [hnext, hmemory]
  change Holds _ _ _ ((if observed.memory.runState ≠ .running then _ else _) >>= _) observed
  split_ifs
  · exact fun hreturned ↦ by cases hreturned
  · exact holds_onPartitionsRevoked_withdrawn htp (hobserved.revealed hrevealed)

end Coroutines

/-! ### Runs of several coroutines -/

/-- The coroutines of a store in flight, each with what is left of it. -/
abbrev Tasks : Type := List (Activity × Action Unit)

/-- Nothing in flight can bring a partition back. -/
def Calm (settings : Settings) (conditions : Conditions) (tp : TopicPartition) (tasks : Tasks) :
    Prop :=
  ∀ (index : ℕ) (activity : Activity) (program : Action Unit),
    (tasks)[index]? = some (activity, program) → program.pending ≠ none →
    program.Asks (Sparing settings conditions tp)

/-- What is known of a coroutine in flight. -/
structure Known (settings : Settings) (conditions : Conditions) (tp : TopicPartition)
    (world : World) (activity : Activity) (program : Action Unit) : Prop where
  concerns : program.Asks activity.Concerns
  chain : program.Chain (Link tp)
  reveals : program.pending = some (.call (.transaction (.ownedInsert tp))) → Seen tp world
  sparing : ¬ Assigned tp activity → program.Asks (Sparing settings conditions tp)

/-- What is kept of the coroutines in flight where no revocation of a partition overlaps an
assignment of it. -/
structure Guarded (settings : Settings) (conditions : Conditions) (tp : TopicPartition)
    (world : World) (tasks : Tasks) : Prop where
  known : ∀ (index : ℕ) (activity : Activity) (program : Action Unit),
    (tasks)[index]? = some (activity, program) →
    Known settings conditions tp world activity program
  revealed : tp ∈ world.database.owned → Seen tp world
  apart : ∀ (index : ℕ) (activity : Activity) (program : Action Unit),
    (tasks)[index]? = some (activity, program) → Revoked tp activity → program.pending ≠ none →
    Calm settings conditions tp tasks ∧
      Holds (sparingOthers settings conditions tp) (fun _ _ ↦ True) (HiddenOnReturn tp) program
        world

/-- An assignment and a revocation of a partition are not started beside each other. -/
def Apart (tp : TopicPartition) (event : Pool.Event requests Activity) (pool : Flight) : Prop :=
  ∀ activity, event = .start activity → ∀ task ∈ pool.tasks,
    Assigned tp activity ∧ Revoked tp task.1 ∨ Revoked tp activity ∧ Assigned tp task.1 →
    task.2.pending = none

/-- No assignment of a partition is started. -/
def NoAssignment (tp : TopicPartition) (event : Pool.Event requests Activity) (_ : Flight) : Prop :=
  ∀ activity, event = .start activity → ¬ Assigned tp activity

section Flights

variable {settings : Settings} {conditions : Conditions} {fuel : ℕ} {tp : TopicPartition}
  {world next : World} {tasks : Tasks} {index : ℕ} {activity : Activity} {request : Request}
  {resume : request.Reply → Action Unit} {reply : request.Reply}

/-- What a drift changes is the broker. -/
theorem exists_broker_of_interferes
    (hinterferes : (environment settings conditions).interferes request world next) :
    ∃ broker, next = { world with broker := broker } := by
  obtain ⟨broker, _, hnext⟩ := hinterferes
  exact ⟨broker, hnext⟩

/-- The postcondition of a revocation is kept by the others. -/
theorem HiddenOnReturn.kept (outcome : Outcome Error Unit) (world next : World)
    (hpost : HiddenOnReturn tp outcome world) (hrely : Withholds tp world next) :
    HiddenOnReturn tp outcome next :=
  fun hreturned ↦ (hpost hreturned).withholds hrely

/-- An exchange where nothing can bring a partition back. -/
theorem Calm.exchange (hcalm : Calm settings conditions tp tasks)
    (hget : (tasks)[index]? = some (activity, .await request resume))
    (hanswers : (environment settings conditions).answers world request reply next) :
    Calm settings conditions tp (tasks.set index (activity, resume reply)) ∧
      Withholds tp world next := by
  have hasks := hcalm index activity _ hget (by simp [Program.pending])
  refine ⟨fun place other program hplace hopen ↦ ?_, hasks.1 _ _ _ hanswers⟩
  rcases Pool.getElem?_set_cases hplace with ⟨_, heq⟩ | ⟨_, hold⟩
  · cases heq
    exact hasks.2 reply
  · exact hcalm place other program hold hopen

/-- A start of a coroutine that does not assign the partition. -/
theorem Calm.start (hcalm : Calm settings conditions tp tasks)
    (hactivity : ¬ Assigned tp activity) :
    Calm settings conditions tp (tasks ++ [(activity, activity.action settings fuel)]) := by
  intro place other program hplace hopen
  rcases Pool.getElem?_append_cases hplace with ⟨_, heq⟩ | hold
  · cases heq
    exact asks_sparing hactivity
  · exact hcalm place other program hold hopen

/-- What is known of a coroutine after an exchange of it. -/
theorem Known.exchange
    (hknown : Known settings conditions tp world activity (.await request resume))
    (hanswers : (environment settings conditions).answers world request reply next) :
    Known settings conditions tp next activity (resume reply) where
  concerns := hknown.concerns.2 reply
  chain := (hknown.chain reply).2
  reveals hreveal := by
    obtain ⟨update, rfl, hseen⟩ := (hknown.chain reply).1.marked hreveal
    obtain rfl := hanswers
    exact hseen world.memory
  sparing hactivity := (hknown.sparing hactivity).2 reply

/-- An exchange keeps what is known of the coroutines in flight. -/
theorem Guarded.exchange (hguarded : Guarded settings conditions tp world tasks)
    (hget : (tasks)[index]? = some (activity, .await request resume))
    (hanswers : (environment settings conditions).answers world request reply next) :
    Guarded settings conditions tp next (tasks.set index (activity, resume reply)) := by
  have hmoved := hguarded.known index activity _ hget
  have hseen : Seen tp world → Seen tp next := seen_of_answers hmoved.concerns.1 hanswers
  refine ⟨fun place other program hplace ↦ ?_, fun howned ↦ ?_, fun place other program hplace
    hrevoking hopen ↦ ?_⟩
  · rcases Pool.getElem?_set_cases hplace with ⟨_, heq⟩ | ⟨_, hold⟩
    · cases heq
      exact hmoved.exchange hanswers
    · have hknown := hguarded.known place other program hold
      exact ⟨hknown.concerns, hknown.chain, fun hreveal ↦ hseen (hknown.reveals hreveal),
        hknown.sparing⟩
  · rcases reveal_of_owned hmoved.concerns.1 hanswers howned with hold | rfl
    · exact hseen (hguarded.revealed hold)
    · exact hseen (hmoved.reveals rfl)
  · rcases Pool.getElem?_set_cases hplace with ⟨_, heq⟩ | ⟨_, hold⟩
    · cases heq
      obtain ⟨hcalm, hholds⟩ := hguarded.apart index activity _ hget hrevoking
        (by simp [Program.pending])
      exact ⟨(hcalm.exchange hget hanswers).1, hholds.answered hanswers⟩
    · obtain ⟨hcalm, hholds⟩ := hguarded.apart place other program hold hrevoking hopen
      obtain ⟨hafter, hwithholds⟩ := hcalm.exchange hget hanswers
      exact ⟨hafter, hholds.relied HiddenOnReturn.kept hwithholds⟩

/-- A start keeps what is known of the coroutines in flight, where it is not beside a call that it
must not overlap. -/
theorem Guarded.start (hguarded : Guarded settings conditions tp world tasks)
    (hapart : ∀ task ∈ tasks,
      Assigned tp activity ∧ Revoked tp task.1 ∨ Revoked tp activity ∧ Assigned tp task.1 →
      task.2.pending = none) :
    Guarded settings conditions tp world
      (tasks ++ [(activity, activity.action settings fuel)]) := by
  have hflows : (activity.action settings fuel).Flows (Link tp) (Plain tp) := activity.flows tp
  have hnew : Known settings conditions tp world activity (activity.action settings fuel) := by
    refine ⟨activity.asks, hflows.chain, fun hreveal ↦ ?_, asks_sparing⟩
    exact absurd .reveal (hflows.starts _ hreveal)
  refine ⟨fun place other program hplace ↦ ?_, hguarded.revealed, fun place other program hplace
    hrevoking hopen ↦ ?_⟩
  · rcases Pool.getElem?_append_cases hplace with ⟨_, heq⟩ | hold
    · cases heq
      exact hnew
    · exact hguarded.known place other program hold
  · rcases Pool.getElem?_append_cases hplace with ⟨_, heq⟩ | hold
    · cases heq
      constructor
      · refine Calm.start (fun place other program hold hopen ↦ ?_) fun hassigning ↦ ?_
        · refine (hguarded.known place other program hold).sparing fun hassigning ↦ hopen ?_
          exact hapart _ (List.mem_of_getElem? hold) (Or.inr ⟨hrevoking, hassigning⟩)
        · cases activity with
          | revoke revoked => exact hassigning
          | _ => exact hrevoking
      · cases activity with
        | revoke revoked => exact holds_revoke_withdrawn hrevoking hguarded.revealed
        | _ => exact hrevoking.elim
    · obtain ⟨hcalm, hholds⟩ := hguarded.apart place other program hold hrevoking hopen
      refine ⟨hcalm.start fun hassigning ↦ hopen ?_, hholds⟩
      exact hapart _ (List.mem_of_getElem? hold) (Or.inl ⟨hassigning, hrevoking⟩)

/-- A drift changes nothing that is kept of a partition. -/
theorem withholds_of_interferes
    (hinterferes : (environment settings conditions).interferes request world next) :
    Withholds tp world next := by
  obtain ⟨_, rfl⟩ := exists_broker_of_interferes hinterferes
  exact ⟨id, Or.inl rfl⟩

theorem Guarded.drift (hguarded : Guarded settings conditions tp world tasks)
    (hinterferes : (environment settings conditions).interferes request world next) :
    Guarded settings conditions tp next tasks := by
  have hwithholds : Withholds tp world next := withholds_of_interferes hinterferes
  refine ⟨fun place other program hplace ↦ ?_, hwithholds.revealed hguarded.revealed,
    fun place other program hplace hrevoking hopen ↦ ?_⟩
  · have hknown := hguarded.known place other program hplace
    exact ⟨hknown.concerns, hknown.chain, fun hreveal ↦ hwithholds.seen (hknown.reveals hreveal),
      hknown.sparing⟩
  · obtain ⟨hcalm, hholds⟩ := hguarded.apart place other program hplace hrevoking hopen
    exact ⟨hcalm, hholds.relied HiddenOnReturn.kept hwithholds⟩

/-- Where no revocation overlaps an assignment, every run is guarded. -/
theorem guarded_of_run {pool : Flight}
    (hrun : Flight.Run settings conditions fuel (Apart tp) (.idle world) pool)
    (hrevealed : tp ∈ world.database.owned → Seen tp world) :
    Guarded settings conditions tp pool.world pool.tasks := by
  refine hrun.invariant (fun pool ↦ Guarded settings conditions tp pool.world pool.tasks)
    (fun event before after hbefore hadmits hevent ↦ ?_) ?_
  · refine hevent.keeps (Guarded settings conditions tp) (fun activity hstart hkept ↦ ?_)
      (fun _ _ _ _ hinterferes hkept ↦ hkept.drift hinterferes)
      (fun _ _ _ _ _ _ _ _ hkept hget hanswers ↦ hkept.exchange hget hanswers) hbefore
    exact hkept.start (hadmits activity hstart)
  · refine ⟨fun index activity program hget ↦ ?_, hrevealed, fun index activity program hget ↦ ?_⟩
    · cases hget
    · cases hget

/-- Once a revocation of a partition returned, and until an assignment of it is started, the
partition has no `_owned` row and is on standby, if the store has seen it.
Assumes: no assignment of the partition overlaps a revocation of it, and at first every partition
in `_owned` was seen. -/
theorem revoked_stays_hidden (hrevealed : tp ∈ world.database.owned → Seen tp world)
    {before returned final : Flight}
    (hrun : Flight.Run settings conditions fuel (Apart tp) (.idle world) before)
    {event : Pool.Event requests Activity} (hadmits : Apart tp event before)
    (hevent : Pool.Step (environment settings conditions) Suspends (Activity.action settings fuel)
      event before returned)
    {revoked : List TopicPartition} (htp : tp ∈ revoked) {program : Action Unit}
    (hbefore : (before.tasks)[index]? = some (.revoke revoked, program))
    (hopen : program.pending ≠ none)
    (hreturned : (returned.tasks)[index]? = some (.revoke revoked, .finish ()))
    (hlater : Flight.Run settings conditions fuel (NoAssignment tp) returned final) :
    Withdrawn tp final.world := by
  have hguarded := guarded_of_run hrun hrevealed
  obtain ⟨hcalm, hholds⟩ := hguarded.apart index _ program hbefore htp hopen
  -- The event by which it returns.
  have hreturn : Calm settings conditions tp returned.tasks ∧ ∃ program,
      (returned.tasks)[index]? = some (.revoke revoked, program) ∧
      Holds (sparingOthers settings conditions tp) (fun _ _ ↦ True) (HiddenOnReturn tp) program
        returned.world := by
    refine hevent.keeps (fun world tasks ↦ Calm settings conditions tp tasks ∧ ∃ program,
        (tasks)[index]? = some (.revoke revoked, program) ∧
        Holds (sparingOthers settings conditions tp) (fun _ _ ↦ True) (HiddenOnReturn tp) program
          world) ?_ ?_ ?_ ⟨hcalm, program, hbefore, hholds⟩
    · rintro activity hstart ⟨hkept, rest, hget, hrest⟩
      refine ⟨hkept.start fun hassigned ↦ hopen ?_, rest, ?_, hrest⟩
      · exact hadmits activity hstart _ (List.mem_of_getElem? hbefore) (Or.inl ⟨hassigned, htp⟩)
      · rw [List.getElem?_append_left (List.getElem?_eq_some_iff.mp hget).1]
        exact hget
    · rintro request world next tasks hinterferes ⟨hkept, rest, hget, hrest⟩
      exact ⟨hkept, rest, hget,
        hrest.relied HiddenOnReturn.kept (withholds_of_interferes hinterferes)⟩
    · rintro world tasks place activity request resume reply next ⟨hkept, rest, hget, hrest⟩ hplace
        hanswers
      obtain ⟨hafter, hwithholds⟩ := hkept.exchange hplace hanswers
      refine ⟨hafter, ?_⟩
      have hlt := (List.getElem?_eq_some_iff.mp hplace).1
      by_cases hsame : place = index
      · subst hsame
        cases hget.symm.trans hplace
        exact ⟨resume reply, List.getElem?_set_self hlt, hrest.answered hanswers⟩
      · exact ⟨rest, by rw [List.getElem?_set_ne hsame]; exact hget,
          hrest.relied HiddenOnReturn.kept hwithholds⟩
  obtain ⟨hquiet, rest, hget, hrest⟩ := hreturn
  cases hreturned.symm.trans hget
  have hwithdrawn : Withdrawn tp returned.world := hrest rfl
  -- The run after it.
  have hfinal : Calm settings conditions tp final.tasks ∧ Withdrawn tp final.world := by
    refine hlater.invariant (fun pool ↦ Calm settings conditions tp pool.tasks ∧
      Withdrawn tp pool.world) (fun event pool after hpool hadmits hevent ↦ ?_) ⟨hquiet, hwithdrawn⟩
    refine hevent.keeps (fun world tasks ↦ Calm settings conditions tp tasks ∧ Withdrawn tp world)
      ?_ ?_ ?_ hpool
    · exact fun activity hstart hkept ↦ ⟨hkept.1.start (hadmits activity hstart), hkept.2⟩
    · exact fun _ _ _ _ hinterferes hkept ↦
        ⟨hkept.1, hkept.2.withholds (withholds_of_interferes hinterferes)⟩
    · rintro world tasks place activity request resume reply next hkept hplace hanswers
      obtain ⟨hafter, hwithholds⟩ := hkept.1.exchange hplace hanswers
      exact ⟨hafter, hkept.2.withholds hwithholds⟩
  exact hfinal.2

end Flights

/-- A store that has revealed its partition. -/
def revealedOrders : World :=
  (connected (Database.empty.insertOwned Sample.orders) (Sample.broker .empty none)).onState
    (·.markReady Sample.orders)

theorem lenient_apart (tp : TopicPartition) : Lenient (Apart tp) :=
  fun _ _ hother _ activity hstart ↦ absurd hstart (hother activity)

/-- A revocation alone: the partition was in `_owned`, and is hidden afterwards. -/
theorem revoked_stays_hidden_sample : Sample.orders ∈ revealedOrders.database.owned ∧
    ∃ final : Flight, (final.tasks)[0]? = some (.revoke [Sample.orders], .finish ()) ∧
      Withdrawn Sample.orders final.world := by
  have howned : Sample.orders ∈ revealedOrders.database.owned := Finset.mem_insert_self _ _
  have hseen : Seen Sample.orders revealedOrders := by
    simp [Seen, revealedOrders, PartitionStateMachine.markReady]
  have hlenient := lenient_apart Sample.orders
  have hlaunched : Flight.Run Sample.settings Sample.calm 0 (Apart Sample.orders)
      (.idle revealedOrders) ⟨revealedOrders, [] ++ [(.revoke [Sample.orders], _)], []⟩ :=
    run_launched hlenient .refl (fun _ _ task htask ↦ absurd htask List.not_mem_nil)
      (continues_revoke rfl hseen)
  have hanswered := run_answered hlenient 0 () hlaunched rfl ⟨_, rfl, rfl⟩
  have hopen : (rememberState (·.markRevoked Sample.orders)).pending ≠ none :=
    Option.some_ne_none _
  have hbefore : ([(.revoke [Sample.orders], rememberState (·.markRevoked Sample.orders))] :
      Tasks)[0]? = some (.revoke [Sample.orders], rememberState (·.markRevoked Sample.orders)) :=
        rfl
  exact ⟨howned, _, rfl, revoked_stays_hidden (fun _ ↦ hseen) hanswered
    (fun _ hstart ↦ by cases hstart) (.resumed Nat.zero_lt_one continues_revoked)
    (List.mem_singleton_self _) hbefore hopen rfl .refl⟩

/-- A store that has not seen its partition yet. -/
def unseenOrders : World := connected .empty (Sample.broker .empty none)

/-- An assignment and a revocation of the same partition in flight. -/
def overlapping (world : World) (assignment revocation : Action Unit) (ready : List ℕ) : Flight :=
  ⟨world, [(.assign [Sample.orders], assignment), (.revoke [Sample.orders], revocation)], ready⟩

/-- A revocation of a partition that returned while an assignment of it was suspended before its
loop: the assignment then marks the partition READY and puts it back in `_owned`. -/
theorem revoked_comes_back : ∃ (before returned final : Flight) (program : Action Unit),
    Flight.Run Sample.settings Sample.calm 0 (fun _ _ ↦ True) (.idle unseenOrders) before ∧
    Pool.Step (environment Sample.settings Sample.calm) Suspends
      (Activity.action Sample.settings 0) (.resume 1) before returned ∧
    (before.tasks)[1]? = some (.revoke [Sample.orders], program) ∧ program.pending ≠ none ∧
    (returned.tasks)[1]? = some (.revoke [Sample.orders], .finish ()) ∧
    Flight.Run Sample.settings Sample.calm 0 (NoAssignment Sample.orders) returned final ∧
    Sample.orders ∈ final.world.database.owned ∧
    final.world.memory.state.statusOf Sample.orders = some .ready := by
  have hlenient : Lenient fun _ _ ↦ True := fun _ _ _ _ ↦ trivial
  have hquiet : Lenient (NoAssignment Sample.orders) :=
    fun _ _ hother _ activity hstart ↦ absurd hstart (hother activity)
  let captured := unseenOrders.capture Sample.orders Sample.changelog 0
  let placing := around Sample.settings 0 Sample.orders 30 do
    let replay ← openReplay Sample.changelog none
    looping Sample.settings 0 Sample.orders Sample.changelog 30 0 replay
  have hseen : captured.memory.state.statusOf Sample.orders ≠ none := by
    simp [captured, World.capture, World.assign, PartitionStateMachine.markRestoring]
  -- The assignment, up to the seek to the start of the log.
  have hstarted : Flight.Run Sample.settings Sample.calm 0 (fun _ _ ↦ True) (.idle unseenOrders)
      ⟨unseenOrders, [] ++ [(.assign [Sample.orders], around Sample.settings 0 Sample.orders 30
        (rehydrateOne Sample.settings 0 Sample.orders Sample.changelog 30))], []⟩ :=
    run_launched hlenient .refl trivial
      (continues_assign 0 rfl (Finset.mem_singleton_self _) changelogName_orders trivial)
  have hread := run_called hlenient 0 none hstarted rfl ⟨rfl, rfl⟩
    (continues_around (continues_capturing none rfl) fun value hvalue ↦ by cases hvalue)
  have hcaptured := run_called hlenient 0 0 hread rfl ⟨rfl, rfl⟩
    (continues_around (continues_placing continues_cold) fun value hvalue ↦ by cases hvalue)
  -- The revocation, up to its last resumption.
  have hrevoking := run_launched hlenient hcaptured trivial (continues_revoke rfl hseen)
  have hanswered : Flight.Run Sample.settings Sample.calm 0 (fun _ _ ↦ True) (.idle unseenOrders)
      (overlapping (captured.commit (captured.database.deleteOwned Sample.orders)) placing
        (rememberState (·.markRevoked Sample.orders)) [1]) :=
    run_answered hlenient 1 () hrevoking rfl ⟨_, rfl, rfl⟩
  have hreturned : Pool.Step (environment Sample.settings Sample.calm) Suspends
      (Activity.action Sample.settings 0) (.resume 1)
      (overlapping (captured.commit (captured.database.deleteOwned Sample.orders)) placing
        (rememberState (·.markRevoked Sample.orders)) [1])
      (overlapping (captured.hide Sample.orders) placing (.finish ()) []) :=
    .resume rfl (List.mem_singleton_self 1) continues_revoked
  -- The rest of the assignment.
  let hidden := captured.hide Sample.orders
  have hloop : Continues Sample.settings Sample.calm
      (looping Sample.settings 0 Sample.orders Sample.changelog 30 0 (.start none 0))
      (hidden.seek 0) (reveal Sample.orders) ((hidden.seek 0).onState
        (·.markReady Sample.orders)) :=
    continues_caughtUp rfl (continues_finishReplay rfl)
  have hleft : Flight.Run Sample.settings Sample.calm 0 (NoAssignment Sample.orders)
      (overlapping hidden placing (.finish ()) [])
      (overlapping ((hidden.seek 0).onState (·.markReady Sample.orders))
        (around Sample.settings 0 Sample.orders 30 (reveal Sample.orders)) (.finish ()) []) :=
    run_called hquiet 0 () .refl rfl rfl
      (continues_around hloop fun value hvalue ↦ by cases hvalue)
  have hend (world : World) : Continues Sample.settings Sample.calm
      (around Sample.settings 0 Sample.orders 30 (pure ())) world (.finish ()) world :=
    continues_returned (continues_pure ())
  have hrevealed := run_called hquiet 0 () hleft rfl ⟨_, rfl, rfl⟩ (hend _)
  refine ⟨_, _, _, rememberState (·.markRevoked Sample.orders), hanswered, hreturned, rfl,
    Option.some_ne_none _, rfl, hrevealed, Finset.mem_insert_self _ _, ?_⟩
  exact PartitionStateMachine.statusOf_mark _

end KSQLite.Runs
