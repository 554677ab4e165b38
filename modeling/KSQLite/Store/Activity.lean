import KSQLite.Store.Commits
import KSQLite.Store.Facade
import KSQLite.Suspension.Pool

/-!
# Coroutines in flight

What a running store may be doing several of at once: appends and rebalance hooks (`Activity`). A
coroutine suspends at its calls and nowhere else (`Suspends`), and `Pool.Run` over `environment` is
a run of a store whose coroutines interleave at their awaits.

Each coroutine is confined to the partitions that it names: it asks nothing about any other one
(`Activity.asks`).
-/

set_option autoImplicit false
set_option relaxedAutoImplicit false

namespace KSQLite.Store

open KSQLite.Suspension

/-- A coroutine of a running store. -/
inductive Activity
  | append (source : TopicPartition) (entityKey : EntityKey) (payload : Payload)
  | assign (assigned : List TopicPartition)
  | revoke (revoked : List TopicPartition)

/-- The code of a coroutine. -/
def Activity.action (settings : Settings) (fuel : ℕ) : Activity → Action Unit
  | .append source entityKey payload => Facade.append settings source entityKey payload
  | .assign assigned => Facade.onPartitionsAssigned settings fuel assigned
  | .revoke revoked => Facade.onPartitionsRevoked revoked

/-- The partitions a coroutine names. -/
def Activity.partitions : Activity → List TopicPartition
  | .append source _ _ => [source]
  | .assign assigned => assigned
  | .revoke revoked => revoked

/-- A coroutine suspends at its calls. -/
def Suspends (request : Request) : Prop := ∃ call, request = .call call

/-- The coroutines of a store in flight. -/
abbrev Flight : Type := Pool requests Error Unit World Activity

/-- Runs of a store whose coroutines interleave at their awaits. -/
abbrev Flight.Run (settings : Settings) (conditions : Conditions) (fuel : ℕ)
    (admits : Pool.Event requests Activity → Flight → Prop) : Flight → Flight → Prop :=
  Pool.Run (environment settings conditions) Suspends (Activity.action settings fuel) admits

/-! ### Requests about one partition -/

/-- What is remembered of a checkpoint after a commit or a read. -/
inductive WriteBack
  | applied (offset : ℤ)
  | clamped (offset : ℤ)

/-- The write-back of an offset for a partition. -/
def WriteBack.update (tp : TopicPartition) : WriteBack → Memory → Memory
  | .applied offset, memory => { memory with state := memory.state.recordApplied tp offset }
  | .clamped offset, memory => { memory with state := memory.state.recordClamped tp offset }

/-- A change of the memory that is about one partition: it leaves the others alone, it does not
forget the partition, and it changes the checkpoint only by a write-back. -/
structure Entrywise (source : TopicPartition) (update : Memory → Memory) : Prop where
  others : ∀ memory tp, tp ≠ source →
    (update memory).state.entries tp = memory.state.entries tp
  keeps : ∀ memory, memory.state.statusOf source ≠ none →
    (update memory).state.statusOf source ≠ none
  checkpoint : (∃ writeBack : WriteBack, update = writeBack.update source) ∨
    ∀ memory, (update memory).state.checkpointOf source = memory.state.checkpointOf source

/-- A request that is about no partition. -/
def Unrelated : Request → Prop
  | .remember update => ∀ memory, (update memory).state = memory.state
  | .call (.transaction _) | .call (.selectCheckpoint _) | .call (.migrate _) => False
  | _ => True

/-- A request that is about no other partition than the given one. -/
def Confined (source : TopicPartition) : Request → Prop
  | .remember update => Entrywise source update
  | .call (.transaction work) => work.partition = source
  | .call (.selectCheckpoint tp) => tp = source
  | .call (.migrate _) => False
  | _ => True

/-- A request that is not about a partition. -/
def Elsewhere (tp : TopicPartition) : Request → Prop
  | .remember update => ∀ memory, (update memory).state.entries tp = memory.state.entries tp
  | .call (.transaction work) => work.partition ≠ tp
  | .call (.selectCheckpoint source) => source ≠ tp
  | .call (.migrate _) => False
  | _ => True

theorem Confined.elsewhere {source tp : TopicPartition} (hsource : source ≠ tp) {request : Request}
    (hconfined : Confined source request) : Elsewhere tp request := by
  cases request with
  | remember update => exact fun memory ↦ hconfined.others memory tp hsource.symm
  | call call =>
    cases call with
    | transaction work => exact fun hwork ↦ hsource (hconfined.symm.trans hwork)
    | selectCheckpoint other => exact fun hother ↦ hsource (hconfined.symm.trans hother)
    | migrate step => exact hconfined
    | _ => trivial
  | _ => trivial

theorem Unrelated.confined {source : TopicPartition} {request : Request}
    (hunrelated : Unrelated request) : Confined source request := by
  cases request with
  | remember update =>
    refine ⟨fun memory tp _ ↦ ?_, fun memory hseen ↦ ?_, Or.inr fun memory ↦ ?_⟩
    · rw [hunrelated memory]
    · rwa [hunrelated memory]
    · rw [hunrelated memory]
  | call call =>
    cases call with
    | transaction work => exact hunrelated.elim
    | selectCheckpoint other => exact hunrelated.elim
    | migrate step => exact hunrelated.elim
    | _ => trivial
  | _ => trivial

section Unrelated

variable {allowed : Request → Prop} {settings : Settings} {source : TopicPartition}

theorem asks_perform {call : Call} (hcall : allowed (.call call)) :
    (perform call).Asks allowed := by
  refine ⟨hcall, fun reply ↦ ?_⟩
  cases reply <;> trivial

theorem asks_ofExcept {Value : Type} {outcome : Except Error Value} :
    (Program.ofExcept outcome : Action Value).Asks allowed := by
  cases outcome <;> trivial

/-- A change of the memory that leaves the partition states alone. -/
theorem asks_remember {update : Memory → Memory}
    (hstate : ∀ memory, (update memory).state = memory.state) :
    (remember update).Asks Unrelated :=
  ⟨hstate, fun _ ↦ trivial⟩

theorem asks_getConsumer : getConsumer.Asks Unrelated := by
  refine ⟨trivial, fun memory ↦ ?_⟩
  change Program.Asks _ (if memory.consumer.isNone = true then _ else _)
  split_ifs
  · have hstart : (perform .startConsumer).Asks Unrelated := asks_perform trivial
    have hstop : (perform .stopConsumer).Asks Unrelated := asks_perform trivial
    have hquiet : (quietly (perform .stopConsumer)).Asks Unrelated :=
      hstop.handle fun _ ↦ trivial
    have hrollback (error : Error) : Program.Asks Unrelated (do
        quietly (perform .stopConsumer)
        (.raise error : Action Unit)) := hquiet.bind fun _ ↦ trivial
    exact (hstart.handle hrollback).bind fun _ ↦ asks_remember fun _ ↦ rfl
  · trivial

theorem asks_ensureAndVerify : (ensureAndVerify settings source).Asks Unrelated := by
  have hpolicy (name : String) : (verifyPolicy name).Asks Unrelated := asks_perform trivial
  have hcreate (name : String) (retention : ℤ) : (create name retention).Asks Unrelated := by
    have hcall : (perform (.createTopic name retention)).Asks Unrelated :=
      asks_perform trivial
    exact hcall.bind fun _ ↦ asks_ofExcept
  have hensure (name : String) : (ensure settings name).Asks Unrelated := by
    have hlist : (perform .listTopics).Asks Unrelated := asks_perform trivial
    refine hlist.bind fun existing ↦ ?_
    have hlast : Program.Asks Unrelated
        (if settings.verifyChangelogPolicy then verifyPolicy name else pure ()) := by
      split_ifs
      · exact hpolicy name
      · trivial
    change Program.Asks _ (if name ∉ existing then _ else _)
    split_ifs with hexists hverify hverify
    · exact hpolicy name
    · trivial
    · cases settings.retention with
      | none => trivial
      | some retention => exact (hcreate name retention).bind fun _ ↦ hpolicy name
    · cases settings.retention with
      | none => trivial
      | some retention => exact (hcreate name retention).bind fun _ ↦ trivial
  refine asks_ofExcept.bind fun name ↦ ⟨trivial, fun memory ↦ ?_⟩
  change Program.Asks _ (if source ∈ memory.checked then _ else _)
  split_ifs
  · trivial
  · refine (hensure name).mapError.bind fun _ ↦ ?_
    exact (asks_remember fun _ ↦ rfl).bind fun _ ↦ trivial

theorem asks_openReplay {name : String} {checkpoint : Option ℤ} :
    (openReplay name checkpoint).Asks Unrelated := by
  cases checkpoint with
  | none =>
    have hseek : (perform (.seekToBeginning name)).Asks Unrelated := asks_perform trivial
    exact hseek.bind fun _ ↦ trivial
  | some checkpoint =>
    change Program.Asks _ (seek (checkpoint + 1) >>= _)
    unfold seek
    split_ifs
    · trivial
    · exact (asks_remember fun _ ↦ rfl).bind fun _ ↦ trivial

end Unrelated

section Confined

variable {settings : Settings} {source : TopicPartition}

/-- A change of one partition state that leaves its checkpoint alone. -/
theorem asks_update {change : Entry → Entry}
    (hchange : ∀ entry, (change entry).checkpointOffset = entry.checkpointOffset) :
    (rememberState (·.update source change)).Asks (Confined source) := by
  refine ⟨⟨fun _ _ htp ↦ PartitionStateMachine.entries_update_of_ne _ htp, fun memory _ ↦ ?_,
    Or.inr fun memory ↦ ?_⟩, fun _ ↦ trivial⟩
  · simp [PartitionStateMachine.statusOf]
  · simp [PartitionStateMachine.checkpointOf, hchange,
      PartitionStateMachine.entry_checkpointOffset]

theorem asks_mark {status : PartitionStatus} :
    (rememberState (·.mark source status)).Asks (Confined source) :=
  asks_update fun _ ↦ rfl

/-- A write-back. -/
theorem asks_writeBack (writeBack : WriteBack) :
    (remember (writeBack.update source)).Asks (Confined source) := by
  refine ⟨⟨fun memory tp htp ↦ ?_, fun memory _ ↦ ?_, Or.inl ⟨writeBack, rfl⟩⟩, fun _ ↦ trivial⟩
  · cases writeBack with
    | applied offset =>
      change (memory.state.recordApplied source offset).entries tp = _
      exact PartitionStateMachine.entries_update_of_ne _ htp
    | clamped offset =>
      change (memory.state.recordClamped source offset).entries tp = _
      exact PartitionStateMachine.entries_update_of_ne _ htp
  · cases writeBack <;> simp [WriteBack.update]

theorem asks_recordLogEnd {leo : ℤ} :
    (rememberState (·.recordLogEnd source leo)).Asks (Confined source) :=
  asks_update fun _ ↦ rfl

theorem asks_readCheckpoint : (readCheckpoint source).Asks (Confined source) := by
  have hselect : (perform (.selectCheckpoint source)).Asks (Confined source) := asks_perform rfl
  exact hselect.mapError

theorem asks_seed {checkpoint : Option ℤ} : (seed source checkpoint).Asks (Confined source) := by
  cases checkpoint with
  | none => trivial
  | some checkpoint => exact asks_writeBack (.applied checkpoint)

theorem asks_reveal : (reveal source).Asks (Confined source) := asks_perform rfl

theorem asks_stopOrContinue {deadline : ℤ} {replay : Replay} :
    (stopOrContinue source deadline replay).Asks (Confined source) := by
  refine ⟨trivial, fun now ↦ ?_⟩
  change Program.Asks _ (if deadline ≤ now then _ else _)
  split_ifs
  · exact (asks_mark.bind fun _ ↦ asks_reveal).bind fun _ ↦ trivial
  · trivial

theorem asks_materializeBatch {records : List (ℤ × Message)} {offset : ℤ} :
    (materializeBatch source records offset).Asks (Confined source) := by
  have hcommit : (perform (.transaction (.materializeBatch source records offset))).Asks
      (Confined source) := asks_perform rfl
  exact hcommit.bind fun _ ↦ asks_writeBack (.applied offset)

theorem asks_pollOnce {name : String} {leo deadline : ℤ} {replay : Replay} :
    (pollOnce settings source name leo deadline replay).Asks (Confined source) := by
  refine ⟨trivial, ?_⟩
  rintro (error | records)
  · change Program.Asks _ (if error = _ then _ else _)
    split_ifs
    · have hstart : (perform (.beginningOffset name)).Asks (Confined source) := asks_perform trivial
      have hseek : (perform (.seekToBeginning name)).Asks (Confined source) := asks_perform trivial
      exact hstart.bind fun _ ↦ hseek.bind fun _ ↦ asks_stopOrContinue
    · trivial
  · simp only [Program.bind]
    cases records.getLast? with
    | none => exact asks_stopOrContinue
    | some last =>
      refine asks_materializeBatch.bind fun _ ↦ ?_
      change Program.Asks _ (if _ then _ else _)
      split_ifs
      · exact asks_stopOrContinue
      · trivial

theorem asks_finishReplay {leo : ℤ} {replay : Replay} :
    (finishReplay source leo replay).Asks (Confined source) := by
  have hclamps : (applyPostResetClamps source leo replay.resetLogStart
      replay.replayedAfterReset).Asks (Confined source) := by
    refine asks_readCheckpoint.bind fun stored ↦ ?_
    cases clampTarget stored leo replay.resetLogStart replay.replayedAfterReset with
    | none => trivial
    | some target =>
      have hclamp : (perform (.transaction (.checkpointClamp source target))).Asks
          (Confined source) := asks_perform rfl
      exact hclamp.bind fun _ ↦ asks_writeBack (.clamped target)
  have hlast : Program.Asks (Confined source) (do
      rememberState (·.markReady source)
      reveal source) := asks_mark.bind fun _ ↦ asks_reveal
  unfold finishReplay
  split_ifs
  · exact hclamps.bind fun _ ↦ hlast
  · exact hlast

theorem asks_rehydrateOne {fuel : ℕ} {name : String} {deadline : ℤ} :
    (rehydrateOne settings fuel source name deadline).Asks (Confined source) := by
  have hend : (perform (.endOffset name)).Asks (Confined source) := asks_perform trivial
  refine asks_readCheckpoint.bind fun checkpoint ↦ asks_seed.bind fun _ ↦ ?_
  refine (asks_getConsumer.mono fun _ ↦ Unrelated.confined).bind fun _ ↦ hend.bind fun leo ↦ ?_
  refine asks_recordLogEnd.bind fun _ ↦ ?_
  have hassign : (assign name).Asks Unrelated := asks_remember fun _ ↦ rfl
  refine asks_mark.bind fun _ ↦ (hassign.mono fun _ ↦ Unrelated.confined).bind fun _ ↦ ?_
  refine (asks_openReplay.mono fun _ ↦ Unrelated.confined).bind fun replay ↦ ?_
  refine (Program.Asks.iterate (fun _ ↦ asks_pollOnce) _ _).bind fun finished ↦ ?_
  cases finished with
  | none => trivial
  | some replay => exact asks_finishReplay

theorem asks_revealPartialUnreached {name : String} :
    (revealPartialUnreached source name).Asks (Confined source) := by
  have hend : (perform (.endOffset name)).Asks (Confined source) := asks_perform trivial
  refine (asks_getConsumer.mono fun _ ↦ Unrelated.confined).bind fun _ ↦ hend.bind fun leo ↦ ?_
  refine asks_recordLogEnd.bind fun _ ↦ ?_
  refine asks_readCheckpoint.bind fun checkpoint ↦ asks_seed.bind fun _ ↦ ?_
  exact asks_mark.bind fun _ ↦ asks_reveal

theorem asks_assignOne {fuel : ℕ} {deadline : ℤ} {first : Bool} :
    (assignOne settings fuel deadline first source).Asks (Confined source) := by
  refine (asks_ensureAndVerify.mono fun _ ↦ Unrelated.confined).bind fun name ↦ ?_
  have hpassed : (deadlinePassed first deadline).Asks (Confined source) := by
    cases first with
    | true => trivial
    | false => exact ⟨trivial, fun _ ↦ trivial⟩
  refine hpassed.bind fun expired ↦ ?_
  cases expired with
  | true => exact asks_revealPartialUnreached.bind fun _ ↦ trivial
  | false => exact asks_rehydrateOne.bind fun _ ↦ trivial

theorem asks_revokeOne : (revokeOne source).Asks (Confined source) := by
  refine ⟨trivial, fun memory ↦ ?_⟩
  change Program.Asks _ (if memory.state.statusOf source = none then _ else _)
  split_ifs
  · trivial
  · have hdelete : (perform (.transaction (.ownedDelete source))).Asks (Confined source) :=
      asks_perform rfl
    exact hdelete.bind fun _ ↦ asks_mark

theorem asks_append {entityKey : EntityKey} {payload : Payload} :
    (append settings source entityKey payload).Asks (Confined source) := by
  refine asks_ofExcept.bind fun entityKey ↦ ?_
  refine (show newMessageId.Asks (Confined source) from ⟨trivial, fun _ ↦ trivial⟩).bind
    fun messageId ↦ ?_
  refine asks_ofExcept.bind fun encoded ↦ asks_ofExcept.bind fun topic ↦ ?_
  have hproduce : (perform (.sendAndWait topic encoded.message)).Asks (Confined source) :=
    asks_perform trivial
  refine hproduce.mapError.bind fun offset ↦ ?_
  split_ifs
  · trivial
  · have happly : (perform (.transaction (.applyMaterialization
        ⟨messageId, source, offset, entityKey, encoded.payload⟩))).Asks (Confined source) :=
      asks_perform rfl
    exact happly.bind fun _ ↦ asks_writeBack (.applied offset)

end Confined

/-- A request that a coroutine may ask: it is about no partition, or about one that it names. -/
def Activity.Concerns (activity : Activity) (request : Request) : Prop :=
  Unrelated request ∨ ∃ source ∈ activity.partitions, Confined source request

/-- A coroutine asks nothing about a partition that it does not name. -/
theorem Activity.asks {settings : Settings} {fuel : ℕ} (activity : Activity) :
    (activity.action settings fuel).Asks activity.Concerns := by
  have hrunning : Facade.ensureRunning.Asks activity.Concerns := by
    refine ⟨Or.inl trivial, fun memory ↦ ?_⟩
    change Program.Asks _ (if memory.runState ≠ .running then _ else _)
    split_ifs <;> trivial
  have hchange {update : Memory → Memory} (hstate : ∀ memory, (update memory).state =
    memory.state) :
      (remember update).Asks activity.Concerns :=
    (asks_remember hstate).mono fun _ ↦ Or.inl
  cases activity with
  | append source entityKey payload =>
    have happend : (Store.append settings source entityKey payload).Asks
        (append source entityKey payload).Concerns :=
      asks_append.mono fun _ hconfined ↦ Or.inr ⟨source, List.mem_singleton_self _, hconfined⟩
    have hleave : Facade.leave.Asks (append source entityKey payload).Concerns :=
      hchange fun _ ↦ rfl
    refine hrunning.bind fun _ ↦ ⟨Or.inl fun _ ↦ rfl, fun _ ↦ ?_⟩
    have hfailed (error : Error) : Program.Asks (append source entityKey payload).Concerns (do
        Facade.leave
        (.raise error : Action Unit)) := hleave.bind fun _ ↦ trivial
    exact (happend.handle hfailed).bind fun _ ↦ hleave
  | assign assigned =>
    refine hrunning.bind fun _ ↦ ⟨Or.inl trivial, fun now ↦ ?_⟩
    have hall (deadline : ℤ) (first : Bool) (remaining : List TopicPartition)
        (hremaining : remaining ⊆ assigned) :
        (assignAll settings fuel deadline first remaining).Asks (assign assigned).Concerns := by
      induction remaining generalizing first with
      | nil => trivial
      | cons source rest ih =>
        obtain ⟨hsource, hrest⟩ := List.cons_subset.mp hremaining
        have hone : (assignOne settings fuel deadline first source).Asks
            (assign assigned).Concerns :=
          asks_assignOne.mono fun _ hconfined ↦ Or.inr ⟨source, hsource, hconfined⟩
        exact hone.mapError.bind fun following ↦ ih following hrest
    exact hall _ _ _ (List.Subset.refl _)
  | revoke revoked =>
    refine hrunning.bind fun _ ↦ ?_
    have hall (remaining : List TopicPartition) (hremaining : remaining ⊆ revoked) :
        (onPartitionsRevoked remaining).Asks (revoke revoked).Concerns := by
      induction remaining with
      | nil => trivial
      | cons source rest ih =>
        obtain ⟨hsource, hrest⟩ := List.cons_subset.mp hremaining
        have hone : (revokeOne source).Asks (revoke revoked).Concerns :=
          asks_revokeOne.mono fun _ hconfined ↦ Or.inr ⟨source, hsource, hconfined⟩
        exact hone.bind fun _ ↦ ih hrest
    exact hall _ (List.Subset.refl _)

/-- What a coroutine asks is not about a partition that it does not name. -/
theorem Activity.Concerns.elsewhere {activity : Activity} {tp : TopicPartition} {request : Request}
    (hconcerns : activity.Concerns request) (htp : tp ∉ activity.partitions) :
    Elsewhere tp request := by
  rcases hconcerns with hunrelated | ⟨source, hsource, hconfined⟩
  · cases request with
    | remember update => exact fun memory ↦ by rw [hunrelated memory]
    | call call =>
      cases call with
      | transaction work => exact hunrelated.elim
      | selectCheckpoint other => exact hunrelated.elim
      | migrate step => exact hunrelated.elim
      | _ => trivial
    | _ => trivial
  · refine hconfined.elsewhere ?_
    rintro rfl
    exact htp hsource

/-! ### What an answer changes -/

section Answers

variable {settings : Settings} {conditions : Conditions} {world next : World} {request : Request}
  {reply : request.Reply}

/-- The partition states change only by what is remembered. -/
theorem state_of_answers
    (hanswers : (environment settings conditions).answers world request reply next) :
    (∃ update, request = .remember update ∧ next.memory = update world.memory) ∨
      next.memory.state = world.memory.state := by
  have hcall {call : Call} {value : call.Result}
      (hsucceeds : Succeeds settings conditions world call value next) :
      next.memory.state = world.memory.state := by
    cases call with
    | seekToBeginning name =>
      obtain rfl := hsucceeds
      rfl
    | getmany name limit =>
      rcases hsucceeds with ⟨_, hnothing⟩ | ⟨_, _, _, _, _, _, _, rfl⟩
      · obtain ⟨_, rfl⟩ := hnothing.exists_idlePolls
        rfl
      · rfl
    | createTopic name retention =>
      rcases hsucceeds with ⟨_, rfl⟩ | ⟨_, _, _, rfl, _⟩ <;> rfl
    | transaction work =>
      obtain ⟨_, _, rfl⟩ := hsucceeds
      rfl
    | migrate step =>
      cases step <;>
      · obtain rfl := hsucceeds
        rfl
    | endOffset name | beginningOffset name | selectCheckpoint tp | listTopics =>
      obtain ⟨_, rfl⟩ := hsucceeds
      rfl
    | sendAndWait name message =>
      obtain ⟨rfl, _⟩ := hsucceeds
      rfl
    | _ =>
      obtain rfl := hsucceeds
      rfl
  cases request with
  | remember update =>
    obtain rfl := hanswers
    exact Or.inl ⟨update, rfl, rfl⟩
  | call call =>
    cases reply with
    | ok value => exact Or.inr (hcall hanswers)
    | error error => exact Or.inr (congrArg (·.memory.state) hanswers.2)
  | clock | observe => exact Or.inr (congrArg (·.memory.state) hanswers.2)
  | newMessageId => exact Or.inr (congrArg (·.memory.state) hanswers.2.2)

/-- A request that is not about a partition leaves it alone. -/
theorem Elsewhere.leavesAlone {tp : TopicPartition} (helsewhere : Elsewhere tp request)
    (hanswers : (environment settings conditions).answers world request reply next) :
    LeavesAlone tp world.database next.database ∧
      next.memory.state.entries tp = world.memory.state.entries tp := by
  constructor
  · have hcommitted : Committed settings ⟨world, request, reply⟩ next :=
      database_of_answers hanswers
    unfold Committed at hcommitted
    cases hcommit : committed ⟨world, request, reply⟩ with
    | none =>
      rw [hcommit] at hcommitted
      rw [hcommitted]
      exact .refl tp _
    | some commit =>
      rw [hcommit] at hcommitted
      have hrequest := request_of_committed hcommit
      cases commit with
      | work work =>
        obtain rfl : request = .call (.transaction work) := hrequest
        exact Work.leavesAlone hcommitted (Ne.symm helsewhere)
      | deleteAllOwned =>
        obtain rfl : request = .call (.migrate .deleteAllOwned) := hrequest
        exact helsewhere.elim
  · rcases state_of_answers hanswers with ⟨update, rfl, hnext⟩ | hsame
    · rw [hnext]
      exact helsewhere world.memory
    · rw [hsame]

end Answers

end KSQLite.Store
