import KSQLite.Connection.Checkout
import KSQLite.Store.Facade

/-!
# What the coroutines of a store make of SQLite errors

The coroutines of the store map what their calls raise once more: a failed checkpoint read becomes
a storage error, and the storage and broker errors of an assignment become rehydrate errors. Here a
call of the store is taken by what it raises: a transaction raises a SQLite error exactly where
nothing below maps it, a checkpoint read wherever a SQLite call failed, and a client of the broker
never (`Moves`). A coroutine is `Tame` when it keeps to that: what it raises is a raw SQLite error
exactly where nothing mapped it, and a storage error where it stems from a SQLite call that failed.
Every coroutine of a running store is.
-/

set_option autoImplicit false
set_option relaxedAutoImplicit false

namespace KSQLite.Boundary

open KSQLite.Suspension KSQLite.Store

open KSQLite.Connection (Trouble Troubled)

/-- A raw `sqlite3.Error`. -/
def isSQLite : Error → Bool
  | .sqlite _ => true
  | _ => false

/-- An error that goes with a trouble: it is raw exactly where nothing maps it, and of a kind where
it stems from a SQLite call whose failure is mapped. -/
structure Goes (kind : Error → Bool) (error : Error) (trouble : Trouble) : Prop where
  raw : isSQLite error = true ↔ trouble = .raw
  mapped : trouble = .mapped → kind error = true

/-- What a call of the store may raise, and what trouble that leaves. -/
def Moves : Trouble → (request : Request) → request.Reply → Trouble → Prop
  | _, .call (.transaction _), .error error, after => Goes Error.isStorageError error after
  | _, .call (.selectCheckpoint _), .error error, after =>
    after ≠ .raw ∧ (isSQLite error = true ↔ after = .mapped)
  | _, .call _, .error error, after => isSQLite error = false ∧ after = .calm
  | trouble, _, _, after => after = trouble

/-- Calls are made without trouble. -/
def Calmly : Request → Trouble → Prop
  | .call _, trouble => trouble = .calm
  | _, _ => True

/-- A coroutine that raises what goes with the trouble it ran into. -/
abbrev Tame {Value : Type} (program : Action Value) : Prop :=
  Holds (watch Moves) Calmly (Troubled (Goes Error.isStorageError)) program .calm

variable {Value Result : Type} {trouble : Trouble}

/-! ### Rules -/

theorem goes_calm {kind : Error → Bool} {error : Error} (herror : isSQLite error = false) :
    Goes kind error .calm :=
  ⟨by simp [herror], fun hmapped ↦ by cases hmapped⟩

theorem tame_finish (value : Value) : Tame (.finish value : Action Value) := rfl

theorem tame_raise {error : Error} (herror : isSQLite error = false) :
    Tame (.raise error : Action Value) :=
  goes_calm herror

theorem tame_ofExcept {result : Except Error Value}
    (hresult : ∀ error, result = .error error → isSQLite error = false) :
    Tame (Program.ofExcept result) := by
  cases result with
  | ok value => exact tame_finish value
  | error error => exact tame_raise (hresult error rfl)

/-- A coroutine goes on only where there is no trouble. -/
theorem holds_then {goesWith : Error → Trouble → Prop} {program : Action Value}
    {next : Value → Action Result}
    (hprogram : Holds (watch Moves) Calmly (Troubled goesWith) program .calm)
    (hnext : ∀ value, Holds (watch Moves) Calmly (Troubled goesWith) (next value) .calm) :
    Holds (watch Moves) Calmly (Troubled goesWith) (program >>= next) .calm := by
  refine hprogram.bind (fun value final hfinal ↦ ?_) (fun _ _ hraised ↦ hraised)
    fun _ hexhausted ↦ hexhausted
  rw [show final = .calm from hfinal]
  exact hnext value

theorem Tame.bind {program : Action Value} {next : Value → Action Result} (hprogram : Tame program)
    (hnext : ∀ value, Tame (next value)) : Tame (program >>= next) :=
  holds_then hprogram hnext

/-- Mapping an error keeps a coroutine tame, where it maps no raw error and no storage error to
another kind. -/
theorem Tame.mapError {program : Action Value} {change : Error → Error} (hprogram : Tame program)
    (hraw : ∀ error, isSQLite (change error) = isSQLite error)
    (hkind : ∀ error, error.isStorageError = true → (change error).isStorageError = true) :
    Tame (program.mapError change) := by
  refine holds_mapError.mpr (hprogram.mono (fun _ _ hnow ↦ hnow) ?_)
  rintro (value | error | _) final hfinal
  · exact hfinal
  · exact ⟨by rw [hraw]; exact hfinal.raw, fun hmapped ↦ hkind error (hfinal.mapped hmapped)⟩
  · exact hfinal

/-- A request that is no call changes nothing, whatever the trouble. -/
theorem holds_untroubled {request : Request} {post : Outcome Error Value → Trouble → Prop}
    {resume : requests.Reply request → Action Value} (hrequest : ∀ call, request ≠ .call call)
    (hresume : ∀ reply, Holds (watch Moves) Calmly post (resume reply) trouble) :
    Holds (watch Moves) Calmly post (@Program.await requests Error Value request resume)
      trouble := by
  refine holds_watch_await.mpr ⟨?_, fun reply after hafter ↦ ?_⟩
  · cases request with
    | call call => exact absurd rfl (hrequest call)
    | _ => trivial
  · have hsame : after = trouble := by
      cases request with
      | call call => exact absurd rfl (hrequest call)
      | _ => exact hafter
    rw [hsame]
    exact hresume reply

theorem tame_observe : Tame observe := holds_untroubled (by simp) fun _ ↦ rfl

theorem tame_remember (update : Memory → Memory) : Tame (remember update) :=
  holds_untroubled (by simp) fun _ ↦ rfl

theorem tame_clock : Tame clock := holds_untroubled (by simp) fun _ ↦ rfl

theorem tame_newMessageId : Tame newMessageId := holds_untroubled (by simp) fun _ ↦ rfl

/-- What a call raises that is no checkpoint read. -/
theorem goes_of_moves {call : Call} {error : Error} {after : Trouble}
    (hcall : ∀ tp, call ≠ .selectCheckpoint tp)
    (hmoves : Moves trouble (.call call) (.error error) after) :
    Goes Error.isStorageError error after := by
  cases call with
  | transaction work => exact hmoves
  | selectCheckpoint tp => exact absurd rfl (hcall tp)
  | _ =>
    obtain ⟨herror, rfl⟩ := hmoves
    exact goes_calm herror

/-- A call that returns leaves the trouble as it is. -/
theorem eq_of_moves {call : Call} {value : call.Result} {after : Trouble}
    (hmoves : Moves trouble (.call call) (.ok value) after) : after = trouble := by
  cases call <;> exact hmoves

theorem tame_perform {call : Call} (hcall : ∀ tp, call ≠ .selectCheckpoint tp) :
    Tame (perform call) := by
  refine holds_watch_await.mpr ⟨rfl, ?_⟩
  rintro (error | value) after hafter
  · exact goes_of_moves hcall hafter
  · exact eq_of_moves hafter

/-- A call whose error is looked at. -/
theorem tame_attempt {name : String} {limit : ℕ}
    {next : Except Error (List (ℤ × Message)) → Action Value}
    (hok : ∀ records, Tame (next (.ok records)))
    (herror : ∀ error, isSQLite error = false → Tame (next (.error error))) :
    Tame (attempt (.getmany name limit) >>= next) := by
  refine holds_watch_await.mpr ⟨rfl, ?_⟩
  rintro (error | records) after hafter
  · obtain ⟨hclient, rfl⟩ := hafter
    exact herror error hclient
  · rw [show after = .calm from hafter]
    exact hok records

theorem tame_iterate {State : Type} {fuel : ℕ} {guard : State → Option Value}
    {body : State → Action (State ⊕ Value)} {state : State} (hbody : ∀ state, Tame (body state)) :
    Tame (Program.iterate fuel guard body state) := by
  refine holds_iterate (fun _ _ trouble ↦ trouble = .calm) (fun _ _ _ _ hcalm _ ↦ hcalm)
    (fun _ state between hbetween _ ↦ ?_) (fun _ _ hcalm _ ↦ ?_) rfl
  · rw [hbetween]
    refine (hbody state).mono (fun _ _ hnow ↦ hnow) ?_
    rintro ((next | value) | error | _) final hfinal <;> exact hfinal
  · rw [hcalm]
    exact Trouble.noConfusion

/-- An error of a client of the broker. -/
def OfClient (error : Error) (trouble : Trouble) : Prop :=
  isSQLite error = false ∧ trouble = .calm

/-- What follows an error of a client. -/
theorem tame_handle {program : Action Value} {handler : Error → Action Value}
    (hprogram : Holds (watch Moves) Calmly (Troubled OfClient) program .calm)
    (hhandler : ∀ error, isSQLite error = false → Tame (handler error)) :
    Tame (program.handle handler) := by
  refine holds_handle.mpr (hprogram.mono (fun _ _ hnow ↦ hnow) ?_)
  rintro (value | error | _) final hfinal
  · exact hfinal
  · obtain ⟨herror, rfl⟩ := hfinal
    exact hhandler error herror
  · exact hfinal

theorem holds_startConsumer :
    Holds (watch Moves) Calmly (Troubled OfClient) (perform .startConsumer) .calm := by
  refine holds_watch_await.mpr ⟨rfl, ?_⟩
  rintro (error | value) after hafter <;> exact hafter

theorem holds_stopConsumer :
    Holds (watch Moves) Calmly (Troubled OfClient) (perform .stopConsumer) .calm := by
  refine holds_watch_await.mpr ⟨rfl, ?_⟩
  rintro (error | value) after hafter <;> exact hafter

/-! ### The coroutines -/

/-- A failed checkpoint read is a storage error: every SQLite call of it is mapped. -/
theorem tame_readCheckpoint (tp : TopicPartition) : Tame (readCheckpoint tp) := by
  refine holds_mapError.mpr (holds_watch_await.mpr ⟨rfl, ?_⟩)
  rintro (error | checkpoint) after hafter
  · obtain ⟨hraw, hmapped⟩ := hafter
    by_cases herror : isSQLite error = true
    · cases error with
      | sqlite message => exact ⟨iff_of_false Bool.false_ne_true hraw, fun _ ↦ rfl⟩
      | _ => cases herror
    · have hsame : checkpointReadError tp error = error := by
        cases error with
        | sqlite message => exact absurd rfl herror
        | _ => rfl
      change Goes _ (checkpointReadError tp error) after
      rw [hsame]
      exact ⟨iff_of_false herror hraw, fun hafter ↦ absurd (hmapped.mpr hafter) herror⟩
  · exact hafter

theorem tame_getConsumer : Tame getConsumer := by
  refine tame_observe.bind fun memory ↦ ?_
  split_ifs
  · refine Tame.bind (tame_handle holds_startConsumer fun error herror ↦ ?_) fun _ ↦
      tame_remember _
    exact (tame_handle holds_stopConsumer fun _ _ ↦ tame_finish ()).bind fun _ ↦ tame_raise herror
  · exact tame_finish ()

theorem tame_seek (offset : ℤ) : Tame (seek offset) := by
  unfold seek
  split_ifs
  · exact tame_raise rfl
  · exact tame_remember _

theorem tame_reveal (tp : TopicPartition) : Tame (reveal tp) := tame_perform (by simp)

theorem tame_seed (tp : TopicPartition) (checkpoint : Option ℤ) : Tame (seed tp checkpoint) := by
  cases checkpoint with
  | none => exact tame_finish ()
  | some checkpoint => exact tame_remember _

theorem tame_stopOrContinue (tp : TopicPartition) (deadline : ℤ) (replay : Replay) :
    Tame (stopOrContinue tp deadline replay) := by
  refine tame_clock.bind fun now ↦ ?_
  split_ifs
  · exact ((tame_remember _).bind fun _ ↦ tame_reveal tp).bind fun _ ↦ tame_finish _
  · exact tame_finish _

theorem tame_materializeBatch (tp : TopicPartition) (records : List (ℤ × Message))
    (batchMaxOffset : ℤ) : Tame (materializeBatch tp records batchMaxOffset) :=
  (tame_perform (by simp)).bind fun _ ↦ tame_remember _

theorem tame_applyPostResetClamps (tp : TopicPartition) (leo logStart : ℤ)
    (replayedAfterReset : ℕ) : Tame (applyPostResetClamps tp leo logStart replayedAfterReset) := by
  refine (tame_readCheckpoint tp).bind fun stored ↦ ?_
  cases clampTarget stored leo logStart replayedAfterReset with
  | none => exact tame_finish ()
  | some target => exact (tame_perform (by simp)).bind fun _ ↦ tame_remember _

theorem tame_pollOnce (settings : Settings) (tp : TopicPartition) (name : String)
    (leo deadline : ℤ) (replay : Replay) : Tame (pollOnce settings tp name leo deadline
      replay) := by
  refine tame_attempt (fun records ↦ ?_) fun error herror ↦ ?_
  · cases hlast : records.getLast? with
    | none =>
      simp only [hlast]
      exact tame_stopOrContinue tp deadline replay
    | some last =>
      simp only [hlast]
      refine (tame_materializeBatch tp records last.1).bind fun _ ↦ ?_
      split_ifs
      · exact tame_stopOrContinue tp deadline _
      · exact tame_finish _
  · by_cases hreset : error = .kafka .offsetOutOfRange
    · simp only [hreset, if_true]
      exact (tame_perform (by simp)).bind fun logStart ↦
        (tame_perform (by simp)).bind fun _ ↦ tame_stopOrContinue tp deadline _
    · simp only [hreset, if_false]
      exact tame_raise herror

theorem tame_openReplay (name : String) (checkpoint : Option ℤ) :
    Tame (openReplay name checkpoint) := by
  cases checkpoint with
  | none => exact (tame_perform (by simp)).bind fun _ ↦ tame_finish _
  | some checkpoint => exact (tame_seek _).bind fun _ ↦ tame_finish _

theorem tame_leaveLoop (tp : TopicPartition) (leo : ℤ) (finished : Option Replay) :
    Tame (leaveLoop tp leo finished) := by
  cases finished with
  | none => exact tame_finish ()
  | some replay =>
    have hreveal : Tame (do
        rememberState (·.markReady tp)
        reveal tp) :=
      (tame_remember _).bind fun _ ↦ tame_reveal tp
    change Tame (finishReplay tp leo replay)
    unfold finishReplay
    split_ifs
    · exact (tame_applyPostResetClamps tp leo _ _).bind fun _ ↦ hreveal
    · exact hreveal

theorem tame_rehydrateOne (settings : Settings) (fuel : ℕ) (tp : TopicPartition) (name : String)
    (deadline : ℤ) : Tame (rehydrateOne settings fuel tp name deadline) := by
  refine (tame_readCheckpoint tp).bind fun checkpoint ↦ (tame_seed tp checkpoint).bind fun _ ↦ ?_
  refine tame_getConsumer.bind fun _ ↦ (tame_perform (by simp)).bind fun leo ↦ ?_
  refine (tame_remember _).bind fun _ ↦ (tame_remember _).bind fun _ ↦ ?_
  refine (tame_remember _).bind fun _ ↦ (tame_openReplay name checkpoint).bind fun replay ↦ ?_
  exact (tame_iterate fun replay ↦ tame_pollOnce settings tp name leo deadline replay).bind
    fun finished ↦ tame_leaveLoop tp leo finished

theorem tame_revealPartialUnreached (tp : TopicPartition) (name : String) :
    Tame (revealPartialUnreached tp name) := by
  refine tame_getConsumer.bind fun _ ↦ (tame_perform (by simp)).bind fun leo ↦ ?_
  refine (tame_remember _).bind fun _ ↦ (tame_readCheckpoint tp).bind fun checkpoint ↦ ?_
  exact (tame_seed tp checkpoint).bind fun _ ↦ (tame_remember _).bind fun _ ↦ tame_reveal tp

/-- A name that is refused is no SQLite error. -/
theorem tame_changelogName (settings : Settings) (tp : TopicPartition) :
    Tame (Program.ofExcept (changelogName settings tp)) := by
  refine tame_ofExcept fun error herror ↦ ?_
  dsimp only [changelogName] at herror
  split_ifs at herror
  cases herror
  rfl

theorem tame_checkTopicErrors (name : String) (topicErrors : List (ℤ × Option String)) :
    Tame (Program.ofExcept (checkTopicErrors name topicErrors)) := by
  induction topicErrors with
  | nil => exact tame_finish ()
  | cons entry rest ih =>
    unfold checkTopicErrors
    split_ifs
    · exact ih
    · exact tame_finish ()
    · exact tame_raise rfl

theorem tame_ensure (settings : Settings) (name : String) : Tame (ensure settings name) := by
  have hverify : Tame (if settings.verifyChangelogPolicy then verifyPolicy name else pure ()) := by
    split_ifs
    · exact tame_perform (by simp)
    · exact tame_finish ()
  refine (tame_perform (by simp)).bind fun existing ↦ ?_
  by_cases hname : name ∉ existing
  · rw [if_pos hname]
    cases hretention : settings.retention with
    | none => exact tame_raise rfl
    | some retention =>
      have hcreate : Tame (create name retention) :=
        (tame_perform (by simp)).bind fun topicErrors ↦ tame_checkTopicErrors name topicErrors
      exact hcreate.bind fun _ ↦ hverify
  · rw [if_neg hname]
    exact hverify

theorem tame_ensureAndVerify (settings : Settings) (tp : TopicPartition) :
    Tame (ensureAndVerify settings tp) := by
  refine (tame_changelogName settings tp).bind fun name ↦ tame_observe.bind fun memory ↦ ?_
  split_ifs
  · exact tame_finish name
  · refine Tame.bind ((tame_ensure settings name).mapError ?_ ?_) fun _ ↦
      (tame_remember _).bind fun _ ↦ tame_finish name
    · rintro (_ | _) <;> rfl
    · rintro (_ | _) hkind <;> exact hkind

theorem tame_assignOne (settings : Settings) (fuel : ℕ) (deadline : ℤ) (first : Bool)
    (tp : TopicPartition) : Tame (assignOne settings fuel deadline first tp) := by
  have hdeadline : Tame (deadlinePassed first deadline) := by
    cases first with
    | true => exact tame_finish false
    | false => exact tame_clock.bind fun _ ↦ tame_finish _
  refine (tame_ensureAndVerify settings tp).bind fun name ↦ hdeadline.bind fun expired ↦ ?_
  cases expired with
  | true => exact (tame_revealPartialUnreached tp name).bind fun _ ↦ tame_finish first
  | false => exact (tame_rehydrateOne settings fuel tp name deadline).bind fun _ ↦ tame_finish false

theorem tame_onPartitionsRevoked (revoked : List TopicPartition) :
    Tame (onPartitionsRevoked revoked) := by
  induction revoked with
  | nil => exact tame_finish ()
  | cons tp rest ih =>
    refine Tame.bind (tame_observe.bind fun memory ↦ ?_) fun _ ↦ ih
    split_ifs
    · exact tame_finish ()
    · exact (tame_perform (by simp)).bind fun _ ↦ tame_remember _

theorem tame_append (settings : Settings) (source : TopicPartition) (entityKey : EntityKey)
    (payload : Payload) : Tame (append settings source entityKey payload) := by
  have hkey : Tame (Program.ofExcept (validateEntityKey entityKey)) := by
    refine tame_ofExcept fun error herror ↦ ?_
    cases entityKey with
    | text text =>
      dsimp only [validateEntityKey] at herror
      split_ifs at herror
      cases herror
      rfl
    | _ =>
      cases herror
      rfl
  have hencode (key messageId : String) :
      Tame (Program.ofExcept (encode settings.loads key payload messageId)) := by
    refine tame_ofExcept fun error herror ↦ ?_
    unfold encode serializePayload at herror
    rcases payload with text | (message | dumped) | message
    · dsimp only at herror
      cases hloads : settings.loads text with
      | ok value =>
        rw [hloads] at herror
        cases herror
      | error message =>
        rw [hloads] at herror
        cases herror
        rfl
    · cases herror
      rfl
    · cases herror
    · cases herror
      rfl
  refine hkey.bind fun key ↦ tame_newMessageId.bind fun messageId ↦ ?_
  refine (hencode key messageId).bind fun encoded ↦ (tame_changelogName settings source).bind
    fun topic ↦ ?_
  refine Tame.bind (Tame.mapError (tame_perform (by simp)) ?_ ?_) fun offset ↦ ?_
  · rintro (_ | _) <;> rfl
  · rintro (_ | _) hkind <;> exact hkind
  · split_ifs
    · exact tame_raise rfl
    · exact (tame_perform (by simp)).bind fun _ ↦ tame_remember _

end KSQLite.Boundary
