import KSQLite.Store.Activity

/-!
# Commits, write-backs and reveals

The order in which a coroutine commits a checkpoint and remembers it. After a commit that stores a
checkpoint the next thing a coroutine does is to write it back, and it writes nothing else back but
a checkpoint that it has just read; what it does right before a reveal is to mark the partition
(`Link`). Every coroutine is linked so for every partition (`Activity.flows`), and an assignment
that returns has seeded the memory with the checkpoint of each of its partitions (`meets_assign`).
-/

set_option autoImplicit false
set_option relaxedAutoImplicit false

namespace KSQLite.Store

open KSQLite.Suspension

/-! ### Write-backs -/

namespace WriteBack

/-- What a write-back makes of a checkpoint. -/
def apply : WriteBack → Option ℤ → Option ℤ
  | .applied offset, stored => some (PartitionStateMachine.maxOffset stored offset)
  | .clamped offset, _ => some offset

variable {tp : TopicPartition}

@[simp] theorem checkpointOf_update (writeBack : WriteBack) (memory : Memory) :
    (writeBack.update tp memory).state.checkpointOf tp =
      writeBack.apply (memory.state.checkpointOf tp) := by
  cases writeBack <;> simp [update, apply]

/-- Different write-backs do different things to a memory. -/
theorem update_injective {first second : WriteBack} (hupdate : first.update tp = second.update tp) :
    first = second := by
  have happly (stored : ℤ) : first.apply (some stored) = second.apply (some stored) := by
    let memory : Memory := { Memory.new with
      state := PartitionStateMachine.new.recordClamped tp stored }
    have hmemory : memory.state.checkpointOf tp = some stored := by simp [memory]
    rw [← hmemory, ← checkpointOf_update, ← checkpointOf_update, hupdate]
  cases first with
  | applied one =>
    cases second with
    | applied two =>
      have hone := happly (min one two)
      simp only [apply, PartitionStateMachine.maxOffset_some, Option.some.injEq] at hone
      rw [show one = two by omega]
    | clamped two =>
      have hone := happly (two + 1)
      simp only [apply, PartitionStateMachine.maxOffset_some, Option.some.injEq] at hone
      omega
  | clamped one =>
    cases second with
    | applied two =>
      have hone := happly (one + 1)
      simp only [apply, PartitionStateMachine.maxOffset_some, Option.some.injEq] at hone
      omega
    | clamped two => exact congrArg _ (Option.some.inj (happly 0))

end WriteBack

/-- The write-back that is due after a work. -/
def Work.due (tp : TopicPartition) : Work → Option WriteBack
  | .materializeBatch source _ offset => if source = tp then some (.applied offset) else none
  | .applyMaterialization row => if row.source = tp then some
    (.applied row.changelogOffset) else none
  | .checkpointClamp source target => if source = tp then some (.clamped target) else none
  | .ownedInsert _ | .ownedDelete _ => none

/-- The write-back that is due after an exchange. -/
def due (tp : TopicPartition) : (request : Request) → request.Reply → Option WriteBack
  | .call (.transaction work), .ok _ => work.due tp
  | _, _ => none

/-- The checkpoint that an exchange read. -/
def checkpointRead (tp : TopicPartition) : (request : Request) → request.Reply → Option ℤ
  | .call (.selectCheckpoint source), .ok checkpoint => if source = tp then checkpoint else none
  | _, _ => none

/-! ### Links -/

/-- The requests that have to follow something: a write-back and a reveal. -/
inductive Special (tp : TopicPartition) : Request → Prop
  | writeBack (writeBack : WriteBack) : Special tp (.remember (writeBack.update tp))
  | reveal : Special tp (.call (.transaction (.ownedInsert tp)))

/-- The next request of a coroutine, if there is one, does not have to follow anything. -/
def Plain (tp : TopicPartition) (next : Option Request) : Prop :=
  ∀ request ∈ next, ¬ Special tp request

/-- How the next request of a coroutine is linked to an exchange. -/
structure Link (tp : TopicPartition) (request : requests.Request) (reply : requests.Reply request)
    (next : Option requests.Request) : Prop where
  due : ∀ writeBack, due tp request reply = some writeBack →
    next = some (.remember (writeBack.update tp))
  owed : ∀ writeBack : WriteBack, next = some (.remember (writeBack.update tp)) →
    KSQLite.Store.due tp request reply = some writeBack ∨
      ∃ checkpoint, checkpointRead tp request reply = some checkpoint ∧
        writeBack = .applied checkpoint
  marked : next = some (.call (.transaction (.ownedInsert tp))) → ∃ update,
    request = .remember update ∧ ∀ memory, (update memory).state.statusOf tp ≠ none

/-- A request that neither has to follow something nor has to be followed by something. -/
def Idle (tp : TopicPartition) (request : Request) : Prop :=
  ¬ Special tp request ∧ ∀ reply, due tp request reply = none

section Links

variable {tp : TopicPartition} {settings : Settings}

theorem joins_link : Program.Joins (Link tp) (Plain tp) where
  none := fun request hrequest ↦ by cases hrequest
  follows := by
    rintro request reply later ⟨hdue, _, _⟩ hplain
    refine ⟨fun writeBack hwriteBack ↦ ?_, fun writeBack hlater ↦ ?_, fun hlater ↦ ?_⟩
    · cases hdue writeBack hwriteBack
    · exact absurd (.writeBack writeBack) (hplain _ hlater)
    · exact absurd .reveal (hplain _ hlater)

/-- Changes of the memory that leave the checkpoint alone are no write-backs. -/
theorem not_special_remember {update : Memory → Memory}
    (hcheckpoint : ∀ memory, (update memory).state.checkpointOf tp = memory.state.checkpointOf tp) :
    ¬ Special tp (.remember update) := by
  intro hspecial
  cases hspecial with
  | writeBack writeBack =>
    have hnew := hcheckpoint .new
    rw [WriteBack.checkpointOf_update] at hnew
    cases writeBack <;> cases hnew

theorem idle_remember {update : Memory → Memory}
    (hcheckpoint : ∀ memory, (update memory).state.checkpointOf tp = memory.state.checkpointOf tp) :
    Idle tp (.remember update) :=
  ⟨not_special_remember hcheckpoint, fun _ ↦ rfl⟩

theorem Elsewhere.idle {request : Request} (helsewhere : Elsewhere tp request) :
    Idle tp request := by
  cases request with
  | remember update =>
    exact idle_remember fun memory ↦
      (PartitionStateMachine.reads_eq_of_entries_eq (helsewhere memory)).2.1
  | call call =>
    cases call with
    | transaction work =>
      refine ⟨fun hspecial ↦ ?_, fun reply ↦ ?_⟩
      · cases hspecial
        exact helsewhere rfl
      · cases reply with
        | error error => rfl
        | ok value =>
          cases work with
          | materializeBatch source records offset => exact if_neg helsewhere
          | applyMaterialization row => exact if_neg helsewhere
          | checkpointClamp source target => exact if_neg helsewhere
          | ownedInsert source | ownedDelete source => rfl
    | _ => exact ⟨fun hspecial ↦ (by cases hspecial), fun _ ↦ rfl⟩
  | _ => exact ⟨fun hspecial ↦ (by cases hspecial), fun _ ↦ rfl⟩

theorem Unrelated.idle {request : Request} (hunrelated : Unrelated request) : Idle tp request := by
  cases request with
  | remember update => exact idle_remember fun memory ↦ by rw [hunrelated memory]
  | call call =>
    cases call with
    | transaction work => exact hunrelated.elim
    | _ => exact ⟨fun hspecial ↦ (by cases hspecial), fun _ ↦ rfl⟩
  | _ => exact ⟨fun hspecial ↦ (by cases hspecial), fun _ ↦ rfl⟩

/-- Idle requests are linked. -/
theorem flows_of_idle {Value : Type} {program : Action Value} (hprogram : program.Asks (Idle tp)) :
    program.Flows (Link tp) (Plain tp) := by
  refine hprogram.flows (fun next hnext later hlater ↦ (hnext later hlater).1) ?_
  intro request reply next hrequest hnext
  refine ⟨fun writeBack hdue ↦ ?_, fun writeBack hlater ↦ ?_, fun hlater ↦ ?_⟩
  · rw [hrequest.2 reply] at hdue
    cases hdue
  · exact absurd (.writeBack writeBack) (hnext _ hlater).1
  · exact absurd .reveal (hnext _ hlater).1

theorem flows_of_unrelated {Value : Type} {program : Action Value}
    (hprogram : program.Asks Unrelated) : program.Flows (Link tp) (Plain tp) :=
  flows_of_idle (hprogram.mono fun _ ↦ Unrelated.idle)

theorem flows_pure {Value : Type} (value : Value) :
    (pure value : Action Value).Flows (Link tp) (Plain tp) :=
  ⟨joins_link.none, trivial⟩

theorem flows_raise {Value : Type} (error : Error) :
    (.raise error : Action Value).Flows (Link tp) (Plain tp) :=
  ⟨joins_link.none, trivial⟩

/-- A commit of a checkpoint with its write-back. -/
theorem flows_commit {work : Work} {writeBack : WriteBack} (hdue : work.due tp = some writeBack) :
    Program.Flows (Link tp) (Plain tp) (do
      perform (.transaction work)
      remember (writeBack.update tp)) := by
  constructor
  · rintro request hrequest hspecial
    cases hrequest
    cases hspecial
    cases hdue
  · rintro (error | value)
    · refine ⟨⟨fun other hother ↦ ?_, fun other hother ↦ ?_, fun hother ↦ ?_⟩, trivial⟩ <;>
        cases hother
    · refine ⟨⟨fun other hother ↦ ?_, fun other hother ↦ Or.inl ?_, fun hother ↦ ?_⟩, fun _ ↦ ?_⟩
      · have hsame : writeBack = other := Option.some.inj (hdue.symm.trans hother)
        rw [hsame]
        rfl
      · have hsame : writeBack = other :=
          WriteBack.update_injective (Request.remember.inj (Option.some.inj hother))
        rw [← hsame]
        exact hdue
      · cases hother
      · refine ⟨⟨fun other hother ↦ ?_, fun other hother ↦ ?_, fun hother ↦ ?_⟩, trivial⟩ <;>
          cases hother

/-- A reveal after a mark. -/
theorem flows_markedReveal {status : PartitionStatus} :
    Program.Flows (Link tp) (Plain tp) (do
      rememberState (·.mark tp status)
      reveal tp) := by
  constructor
  · rintro request hrequest
    cases hrequest
    exact not_special_remember fun memory ↦ PartitionStateMachine.checkpointOf_mark status
  · rintro ⟨⟩
    refine ⟨⟨fun other hother ↦ ?_, fun other hother ↦ ?_, fun _ ↦ ⟨_, rfl, ?_⟩⟩, ?_⟩
    · cases hother
    · cases hother
    · intro memory
      simp
    · rintro (error | value) <;>
        refine ⟨⟨fun other hother ↦ ?_, fun other hother ↦ ?_, fun hother ↦ ?_⟩, trivial⟩ <;>
          cases hother

/-- A read of the checkpoint that seeds the memory, and what follows it. -/
theorem flows_seeded {Value : Type} {next : Option ℤ → Action Value}
    (hnext : ∀ checkpoint, (next checkpoint).Flows (Link tp) (Plain tp)) :
    Program.Flows (Link tp) (Plain tp) (do
      let checkpoint ← readCheckpoint tp
      seed tp checkpoint
      next checkpoint) := by
  constructor
  · rintro request hrequest hspecial
    cases hrequest
    cases hspecial
  · rintro (error | _ | checkpoint)
    · refine ⟨⟨fun other hother ↦ ?_, fun other hother ↦ ?_, fun hother ↦ ?_⟩, trivial⟩ <;>
        cases hother
    · refine ⟨?_, (hnext none).chain⟩
      refine joins_link.follows _ _ _ ⟨fun other hother ↦ ?_, fun other hother ↦ ?_,
        fun hother ↦ ?_⟩ (hnext none).starts <;> cases hother
    · refine ⟨⟨fun other hother ↦ ?_, fun other hother ↦ Or.inr ⟨checkpoint, if_pos rfl, ?_⟩,
        fun hother ↦ ?_⟩, fun _ ↦ ⟨?_, (hnext (some checkpoint)).chain⟩⟩
      · cases hother
      · have hsame : WriteBack.update tp (.applied checkpoint) = other.update tp :=
          Request.remember.inj (Option.some.inj hother)
        exact (WriteBack.update_injective hsame).symm
      · cases hother
      · refine joins_link.follows _ _ _ ⟨fun other hother ↦ ?_, fun other hother ↦ ?_,
          fun hother ↦ ?_⟩ (hnext (some checkpoint)).starts <;> cases hother

/-! ### The coroutines -/

theorem flows_readCheckpoint : (readCheckpoint tp).Flows (Link tp) (Plain tp) := by
  have hselect : (perform (.selectCheckpoint tp)).Asks (Idle tp) :=
    asks_perform ⟨fun hspecial ↦ (by cases hspecial), fun _ ↦ rfl⟩
  exact flows_of_idle hselect.mapError

theorem flows_mark {status : PartitionStatus} :
    (rememberState (·.mark tp status)).Flows (Link tp) (Plain tp) :=
  flows_of_idle ⟨idle_remember fun _ ↦ PartitionStateMachine.checkpointOf_mark status,
    fun _ ↦ trivial⟩

theorem flows_recordLogEnd {leo : ℤ} :
    (rememberState (·.recordLogEnd tp leo)).Flows (Link tp) (Plain tp) :=
  flows_of_idle ⟨idle_remember fun _ ↦ PartitionStateMachine.checkpointOf_recordLogEnd leo,
    fun _ ↦ trivial⟩

theorem flows_perform {call : Call} (hcall : Unrelated (.call call)) :
    (perform call).Flows (Link tp) (Plain tp) :=
  flows_of_unrelated (asks_perform hcall)

theorem flows_materializeBatch {records : List (ℤ × Message)} {offset : ℤ} :
    (materializeBatch tp records offset).Flows (Link tp) (Plain tp) := by
  have hdue : (Work.materializeBatch tp records offset).due tp = some (.applied offset) :=
    if_pos rfl
  exact flows_commit hdue

theorem flows_stopOrContinue {deadline : ℤ} {replay : Replay} :
    (stopOrContinue tp deadline replay).Flows (Link tp) (Plain tp) := by
  have hclock : clock.Asks Unrelated := ⟨trivial, fun _ ↦ trivial⟩
  refine (flows_of_unrelated hclock).bind joins_link fun now ↦ ?_
  split_ifs
  · have hstop : (forceStop tp).Flows (Link tp) (Plain tp) := flows_markedReveal
    exact hstop.bind joins_link fun _ ↦ flows_pure _
  · exact flows_pure _

theorem flows_pollOnce {name : String} {leo deadline : ℤ} {replay : Replay} :
    (pollOnce settings tp name leo deadline replay).Flows (Link tp) (Plain tp) := by
  have hfetch : (attempt (.getmany name settings.batchSize)).Asks Unrelated :=
    ⟨trivial, fun _ ↦ trivial⟩
  refine (flows_of_unrelated hfetch).bind joins_link ?_
  rintro (error | records)
  · change Program.Flows _ _ (if error = _ then _ else _)
    split_ifs
    · have hstart : (perform (.beginningOffset name)).Flows (Link tp) (Plain tp) :=
        flows_perform trivial
      have hseek : (perform (.seekToBeginning name)).Flows (Link tp) (Plain tp) :=
        flows_perform trivial
      exact hstart.bind joins_link fun _ ↦ hseek.bind joins_link fun _ ↦ flows_stopOrContinue
    · exact flows_raise _
  · dsimp only
    cases records.getLast? with
    | none => exact flows_stopOrContinue
    | some last =>
      refine flows_materializeBatch.bind joins_link fun _ ↦ ?_
      change Program.Flows _ _ (if _ then _ else _)
      split_ifs
      · exact flows_stopOrContinue
      · exact flows_pure _

theorem flows_finishReplay {leo : ℤ} {replay : Replay} :
    (finishReplay tp leo replay).Flows (Link tp) (Plain tp) := by
  have hlast : Program.Flows (Link tp) (Plain tp) (do
      rememberState (·.markReady tp)
      reveal tp) := flows_markedReveal
  have hclamps : (applyPostResetClamps tp leo replay.resetLogStart
      replay.replayedAfterReset).Flows (Link tp) (Plain tp) := by
    refine flows_readCheckpoint.bind joins_link fun stored ↦ ?_
    cases clampTarget stored leo replay.resetLogStart replay.replayedAfterReset with
    | none => exact flows_pure ()
    | some target =>
      have hdue : (Work.checkpointClamp tp target).due tp = some (.clamped target) := if_pos rfl
      exact flows_commit hdue
  unfold finishReplay
  split_ifs
  · exact hclamps.bind joins_link fun _ ↦ hlast
  · exact hlast

theorem flows_rehydrateOne {fuel : ℕ} {name : String} {deadline : ℤ} :
    (rehydrateOne settings fuel tp name deadline).Flows (Link tp) (Plain tp) := by
  have hend : (perform (.endOffset name)).Flows (Link tp) (Plain tp) := flows_perform trivial
  have hassign : (assign name).Asks Unrelated := asks_remember fun _ ↦ rfl
  refine flows_seeded fun checkpoint ↦ ?_
  refine (flows_of_unrelated asks_getConsumer).bind joins_link fun _ ↦ ?_
  refine hend.bind joins_link fun leo ↦ flows_recordLogEnd.bind joins_link fun _ ↦ ?_
  refine flows_mark.bind joins_link fun _ ↦ ?_
  refine (flows_of_unrelated hassign).bind joins_link fun _ ↦ ?_
  refine (flows_of_unrelated asks_openReplay).bind joins_link fun replay ↦ ?_
  refine (Program.Flows.iterate joins_link (fun _ ↦ flows_pollOnce) _ _).bind joins_link ?_
  rintro (_ | finished)
  · exact flows_pure ()
  · exact flows_finishReplay

theorem flows_revealPartialUnreached {name : String} :
    (revealPartialUnreached tp name).Flows (Link tp) (Plain tp) := by
  have hend : (perform (.endOffset name)).Flows (Link tp) (Plain tp) := flows_perform trivial
  refine (flows_of_unrelated asks_getConsumer).bind joins_link fun _ ↦ ?_
  refine hend.bind joins_link fun leo ↦ flows_recordLogEnd.bind joins_link fun _ ↦ ?_
  exact flows_seeded fun _ ↦ flows_markedReveal

theorem flows_assignOne {fuel : ℕ} {deadline : ℤ} {first : Bool} :
    (assignOne settings fuel deadline first tp).Flows (Link tp) (Plain tp) := by
  have hpassed : (deadlinePassed first deadline).Asks Unrelated := by
    cases first with
    | true => trivial
    | false => exact ⟨trivial, fun _ ↦ trivial⟩
  refine (flows_of_unrelated asks_ensureAndVerify).bind joins_link fun name ↦ ?_
  refine (flows_of_unrelated hpassed).bind joins_link fun expired ↦ ?_
  cases expired with
  | true => exact flows_revealPartialUnreached.bind joins_link fun _ ↦ flows_pure _
  | false => exact flows_rehydrateOne.bind joins_link fun _ ↦ flows_pure _

theorem flows_revokeOne : (revokeOne tp).Flows (Link tp) (Plain tp) := by
  have hdelete : (perform (.transaction (.ownedDelete tp))).Asks (Idle tp) :=
    asks_perform ⟨fun hspecial ↦ (by cases hspecial), fun reply ↦ by cases reply <;> rfl⟩
  refine (flows_of_unrelated (show observe.Asks Unrelated from ⟨trivial, fun _ ↦ trivial⟩)).bind
    joins_link fun memory ↦ ?_
  split_ifs
  · exact flows_pure ()
  · exact (flows_of_idle hdelete).bind joins_link fun _ ↦ flows_mark

theorem flows_append {entityKey : EntityKey} {payload : Payload} :
    (append settings tp entityKey payload).Flows (Link tp) (Plain tp) := by
  have hofExcept {Value : Type} (outcome : Except Error Value) :
      (Program.ofExcept outcome : Action Value).Flows (Link tp) (Plain tp) :=
    flows_of_unrelated asks_ofExcept
  have hmint : newMessageId.Asks Unrelated := ⟨trivial, fun _ ↦ trivial⟩
  refine (hofExcept _).bind joins_link fun entityKey ↦ ?_
  refine (flows_of_unrelated hmint).bind joins_link fun messageId ↦ ?_
  refine (hofExcept _).bind joins_link fun encoded ↦ (hofExcept _).bind joins_link fun topic ↦ ?_
  have hproduce : (perform (.sendAndWait topic encoded.message)).Flows (Link tp) (Plain tp) :=
    flows_perform trivial
  refine hproduce.mapError.bind joins_link fun offset ↦ ?_
  split_ifs
  · exact flows_raise _
  · have hdue : (Work.applyMaterialization
        ⟨messageId, tp, offset, entityKey, encoded.payload⟩).due tp = some (.applied offset) :=
      if_pos rfl
    exact flows_commit hdue

end Links

/-- Whatever a coroutine names, it is linked for every partition. -/
theorem Activity.flows {settings : Settings} {fuel : ℕ} (tp : TopicPartition)
    (activity : Activity) : (activity.action settings fuel).Flows (Link tp) (Plain tp) := by
  have hrunning : Facade.ensureRunning.Asks Unrelated := by
    refine ⟨trivial, fun memory ↦ ?_⟩
    change Program.Asks _ (if memory.runState ≠ .running then _ else _)
    split_ifs <;> trivial
  -- A part of the code that is about one partition, which may be the one or another.
  have hpart {Value : Type} {source : TopicPartition} {program : Action Value}
      (hconfined : program.Asks (Confined source))
      (hown : source = tp → program.Flows (Link tp) (Plain tp)) :
      program.Flows (Link tp) (Plain tp) := by
    by_cases hsource : source = tp
    · exact hown hsource
    · exact flows_of_idle (hconfined.mono fun _ hrequest ↦ (hrequest.elsewhere hsource).idle)
  cases activity with
  | append source entityKey payload =>
    have happend : (Store.append settings source entityKey payload).Flows (Link tp) (Plain tp) :=
      hpart asks_append fun hsource ↦ by rw [hsource]; exact flows_append
    have hleave : Facade.leave.Asks Unrelated := asks_remember fun _ ↦ rfl
    have hfailed (error : Error) : Program.Flows (Link tp) (Plain tp) (do
        Facade.leave
        (.raise error : Action Unit)) :=
      (flows_of_unrelated hleave).bind joins_link fun _ ↦ flows_raise error
    have henter : Program.Asks Unrelated
        (remember fun memory ↦ { memory with inFlight := memory.inFlight + 1 }) :=
      asks_remember fun _ ↦ rfl
    refine (flows_of_unrelated hrunning).bind joins_link fun _ ↦ ?_
    refine (flows_of_unrelated henter).bind joins_link fun _ ↦ ?_
    exact (happend.handle joins_link hfailed).bind joins_link fun _ ↦ flows_of_unrelated hleave
  | assign assigned =>
    have hclock : clock.Asks Unrelated := ⟨trivial, fun _ ↦ trivial⟩
    refine (flows_of_unrelated hrunning).bind joins_link fun _ ↦ ?_
    refine (flows_of_unrelated hclock).bind joins_link fun now ↦ ?_
    have hall (deadline : ℤ) (first : Bool) :
        (assignAll settings fuel deadline first assigned).Flows (Link tp) (Plain tp) := by
      induction assigned generalizing first with
      | nil => exact flows_pure ()
      | cons source rest ih =>
        have hone : (assignOne settings fuel deadline first source).Flows (Link tp) (Plain tp) :=
          hpart asks_assignOne fun hsource ↦ by rw [hsource]; exact flows_assignOne
        exact hone.mapError.bind joins_link ih
    exact hall _ _
  | revoke revoked =>
    refine (flows_of_unrelated hrunning).bind joins_link fun _ ↦ ?_
    induction revoked with
    | nil => exact flows_pure ()
    | cons source rest ih =>
      have hone : (revokeOne source).Flows (Link tp) (Plain tp) :=
        hpart asks_revokeOne fun hsource ↦ by rw [hsource]; exact flows_revokeOne
      exact hone.bind joins_link fun _ ↦ ih

/-! ### Seeds -/

/-- The checkpoint of a partition was read, and if there is one it is written back next. -/
def Seeded (tp : TopicPartition) : (request : Request) → request.Reply → Option Request → Prop
  | .call (.selectCheckpoint source), .ok checkpoint, next => source = tp ∧
    ∀ offset, checkpoint = some offset →
      next = some (.remember (WriteBack.update tp (.applied offset)))
  | _, _, _ => False

section Seeds

variable {settings : Settings} {fuel : ℕ} {tp : TopicPartition}

/-- A seed is none of a request that is awaited later. -/
theorem Seeded.follows (request : Request) (reply : request.Reply) (later : Option Request)
    (hseeded : Seeded tp request reply none) : Seeded tp request reply later := by
  unfold Seeded at hseeded ⊢
  split at hseeded
  · refine ⟨hseeded.1, fun offset hoffset ↦ ?_⟩
    cases hseeded.2 offset hoffset
  · exact hseeded

theorem meets_seeded {Value : Type} {next : Option ℤ → Action Value} :
    Program.Meets (Seeded tp) (do
      let checkpoint ← readCheckpoint tp
      seed tp checkpoint
      next checkpoint) := by
  rintro (error | _ | checkpoint)
  · exact Or.inr trivial
  · refine Or.inl ⟨rfl, fun offset hoffset ↦ ?_⟩
    cases hoffset
  · refine Or.inl ⟨rfl, fun offset hoffset ↦ ?_⟩
    cases hoffset
    rfl

/-- However a partition is assigned, its checkpoint is seeded. -/
theorem meets_assignOne {deadline : ℤ} {first : Bool} :
    (assignOne settings fuel deadline first tp).Meets (Seeded tp) := by
  refine Program.meets_bind fun name ↦ Program.meets_bind fun expired ↦ ?_
  split_ifs
  · have hunreached : (revealPartialUnreached tp name).Meets (Seeded tp) :=
      Program.meets_bind fun _ ↦ Program.meets_bind fun leo ↦ Program.meets_bind fun _ ↦
        meets_seeded
    exact hunreached.bind Seeded.follows _
  · have hreplay : (rehydrateOne settings fuel tp name deadline).Meets (Seeded tp) := meets_seeded
    exact hreplay.bind Seeded.follows _

/-- An assignment that returns seeded the memory with the checkpoint of each of its partitions. -/
theorem meets_assign {assigned : List TopicPartition} (htp : tp ∈ assigned) :
    ((Activity.assign assigned).action settings fuel).Meets (Seeded tp) := by
  refine Program.meets_bind fun _ ↦ Program.meets_bind fun now ↦ ?_
  have hall (deadline : ℤ) (first : Bool) (remaining : List TopicPartition)
      (hremaining : tp ∈ remaining) :
      (assignAll settings fuel deadline first remaining).Meets (Seeded tp) := by
    induction remaining generalizing first with
    | nil => cases hremaining
    | cons source rest ih =>
      rcases List.mem_cons.mp hremaining with rfl | hrest
      · exact meets_assignOne.mapError.bind Seeded.follows _
      · exact Program.meets_bind fun following ↦ ih following hrest
  exact hall _ _ _ htp

end Seeds

end KSQLite.Store
