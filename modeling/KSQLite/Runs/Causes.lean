import KSQLite.Store.Lifecycle
import KSQLite.Suspension.Branches

/-!
# Where the error of an assignment comes from

What one partition of an assignment may raise, given the errors its calls fail with: it is refused
in step 0, because its changelog has an illegal name or is missing and must not be created, or it
raises what a call failed with, as a `RehydrateError` where that is an error of the broker or of the
storage (`Surfaces`). The coroutines are gone through one by one (`stemming_…`); beyond the calls
that fail they raise storage errors only, as long as no checkpoint lies before -1, and none of them
goes on after a fatal reply (`Fatal`).
-/

set_option autoImplicit false
set_option relaxedAutoImplicit false

namespace KSQLite.Runs

open KSQLite.Suspension KSQLite.Store

/-- Replies that fail with errors of a kind only, and no checkpoint that lies before -1. -/
def Replies (failures : Error → Prop) : (request : Request) → request.Reply → Prop
  | .call _, .error error => failures error
  | .call (.selectCheckpoint _), .ok checkpoint => ∀ offset ∈ checkpoint, -1 ≤ offset
  | _, _ => True

/-- A reply with which an assignment does not go on: a call failed, other than a poll before the
start of the log, or the creation of a topic was refused. -/
def Fatal : (request : Request) → request.Reply → Prop
  | .call (.getmany _ _), .error error => error ≠ .kafka .offsetOutOfRange
  | .call _, .error _ => True
  | .call (.createTopic name _), .ok topicErrors =>
    ∃ error, checkTopicErrors name topicErrors = .error error
  | _, _ => False

/-- An error that a call failed with, or a storage error. -/
def Stems (failures : Error → Prop) (error : Error) : Prop :=
  failures error ∨ error.isStorageError = true

/-- A partition is refused in step 0: its changelog has an illegal name, or it is missing and must
not be created. -/
def RefusedAtStepZero (settings : Settings) (tp : TopicPartition) (error : Error) : Prop :=
  changelogName settings tp = .error error ∨
    settings.retention = none ∧ error = .topicNotFound (settings.template tp)

/-- How the error of a partition surfaces in an assignment: as a `RehydrateError`, as a refusal of
step 0, or as what a call failed with, if that is an error neither of the broker nor of the
storage. -/
def Surfaces (settings : Settings) (failures : Error → Prop) (tp : TopicPartition)
    (error : Error) : Prop :=
  error.isRehydrateError = true ∨ RefusedAtStepZero settings tp error ∨
    failures error ∧ error.isKafkaError = false ∧ error.isStorageError = false

/-- A coroutine that raises what its calls fail with, or a storage error, and that does not go on
after a fatal reply. -/
abbrev Stemming {Value : Type} (failures : Error → Prop) (program : Action Value) : Prop :=
  program.Throws (Replies failures) Fatal (Stems failures)

variable {failures : Error → Prop} {settings : Settings} {tp : TopicPartition} {name : String}

/-! ### Requests -/

theorem not_fatal {request : Request} {reply : request.Reply}
    (hplain : ∀ call, request ≠ .call call) : ¬ Fatal request reply := by
  cases request with
  | call call => exact absurd rfl (hplain call)
  | _ => exact id

theorem not_fatal_ok {call : Call} {value : call.Result}
    (hcreates : ∀ name retention, call ≠ .createTopic name retention) :
    ¬ Fatal (.call call) (.ok value) := by
  cases call with
  | createTopic name retention => exact absurd rfl (hcreates name retention)
  | _ => exact id

/-- A request that is no call raises nothing. -/
theorem throws_request {Value : Type} {allowed : Error → Prop} {request : Request}
    {resume : requests.Reply request → Action Value} (hplain : ∀ call, request ≠ .call call)
    (hresume : ∀ reply, (resume reply).Throws (Replies failures) Fatal allowed) :
    (@Program.await requests Error Value request resume).Throws (Replies failures) Fatal allowed :=
  fun reply _ ↦ ⟨fun hfatal ↦ absurd hfatal (not_fatal hplain), hresume reply⟩

/-- A call raises what it fails with. -/
theorem throws_perform {allowed : Error → Prop} (hallowed : ∀ error, failures error → allowed error)
    {call : Call} (hcreates : ∀ name retention, call ≠ .createTopic name retention) :
    (perform call).Throws (Replies failures) Fatal allowed := by
  rintro (error | value) hreply
  · exact ⟨fun _ ↦ trivial, hallowed error hreply⟩
  · exact ⟨fun hfatal ↦ absurd hfatal (not_fatal_ok hcreates), trivial⟩

/-- A topic that is created is one whose creation was not refused. -/
theorem throws_create {allowed : Error → Prop} (hallowed : ∀ error, failures error → allowed error)
    (hrefused : ∀ code message, allowed (.kafka (forCode code name message))) (retention : ℤ) :
    (create name retention).Throws (Replies failures) Fatal allowed := by
  rintro (error | topicErrors) hreply
  · exact ⟨fun _ ↦ trivial, hallowed error hreply⟩
  · refine ⟨fun ⟨error, hchecked⟩ ↦ ?_, ?_⟩
    · change (Program.ofExcept (checkTopicErrors name topicErrors)).Breaks
      rw [hchecked]
      trivial
    · change (Program.ofExcept (checkTopicErrors name topicErrors)).Throws _ _ _
      induction topicErrors with
      | nil => exact Program.throws_finish ()
      | cons entry rest ih =>
        unfold checkTopicErrors
        split_ifs
        · exact ih trivial
        · exact Program.throws_finish ()
        · exact hrefused _ _

theorem stemming_perform {call : Call}
    (hcreates : ∀ name retention, call ≠ .createTopic name retention) :
    Stemming failures (perform call) :=
  throws_perform (fun _ hfails ↦ Or.inl hfails) hcreates

theorem stemming_remember (update : Memory → Memory) : Stemming failures (remember update) :=
  throws_request (by simp) fun _ ↦ trivial

/-! ### One partition -/

/-- A failed checkpoint read raises what it failed with, or a storage error. -/
theorem stemming_readCheckpoint : Stemming failures (readCheckpoint tp) := by
  refine Program.Throws.mapError ((throws_perform (fun _ ↦ id) (by simp)).mono fun error hfails ↦
    ?_)
  cases error with
  | sqlite message => exact Or.inr rfl
  | _ => exact Or.inl hfails

/-- What follows a checkpoint read may rely on the checkpoint. -/
theorem stemming_readCheckpoint_bind {Value : Type} {next : Option ℤ → Action Value}
    (hnext : ∀ checkpoint, (∀ offset ∈ checkpoint, (-1 : ℤ) ≤ offset) →
      Stemming failures (next checkpoint)) :
    Stemming failures (readCheckpoint tp >>= next) := by
  rintro (error | checkpoint) hreply
  · refine ⟨fun _ ↦ trivial, ?_⟩
    cases error with
    | sqlite message => exact Or.inr rfl
    | _ => exact Or.inl hreply
  · exact ⟨fun hfatal ↦ hfatal.elim, hnext checkpoint hreply⟩

theorem stemming_getConsumer : Stemming failures getConsumer := by
  refine throws_request (by simp) fun memory ↦ ?_
  change Program.Throws _ _ _ (if memory.consumer.isNone = true then _ else _)
  split_ifs
  · have hstart : (perform .startConsumer).Throws (Replies failures) Fatal failures :=
      throws_perform (fun _ ↦ id) (by simp)
    -- Whether or not the consumer stops, the error of its start is raised.
    refine (hstart.handle (fun error hfails ↦ ?_) fun error ↦ ?_).bind fun _ ↦ stemming_remember _
    · rintro (cause | value) _
      · exact ⟨fun _ ↦ trivial, Or.inl hfails⟩
      · exact ⟨fun _ ↦ trivial, Or.inl hfails⟩
    · rintro (cause | value) <;> trivial
  · exact Program.throws_finish ()

theorem stemming_seed (checkpoint : Option ℤ) : Stemming failures (seed tp checkpoint) := by
  cases checkpoint with
  | none => exact Program.throws_finish ()
  | some checkpoint => exact stemming_remember _

theorem stemming_reveal : Stemming failures (reveal tp) := stemming_perform (by simp)

/-- A consumer that is placed at an offset from zero on is not refused. -/
theorem stemming_openReplay {checkpoint : Option ℤ}
    (hcheckpoint : ∀ offset ∈ checkpoint, -1 ≤ offset) :
    Stemming failures (openReplay name checkpoint) := by
  cases checkpoint with
  | none => exact (stemming_perform (by simp)).bind fun _ ↦ Program.throws_finish _
  | some checkpoint =>
    have hplaced : ¬ checkpoint + 1 < 0 := by
      have := hcheckpoint checkpoint rfl
      omega
    have hseek : Stemming failures (seek (checkpoint + 1)) := by
      unfold seek
      rw [if_neg hplaced]
      exact stemming_remember _
    exact hseek.bind fun _ ↦ Program.throws_finish _

theorem stemming_stopOrContinue {deadline : ℤ} {replay : Replay} :
    Stemming failures (stopOrContinue tp deadline replay) := by
  refine throws_request (by simp) fun now ↦ ?_
  change Program.Throws _ _ _ (if deadline ≤ now then _ else _)
  split_ifs
  · have hforce : Stemming failures (forceStop tp) :=
      (stemming_remember _).bind fun _ ↦ stemming_reveal
    exact hforce.bind fun _ ↦ Program.throws_finish _
  · exact Program.throws_finish _

theorem stemming_pollOnce {leo deadline : ℤ} {replay : Replay} :
    Stemming failures (pollOnce settings tp name leo deadline replay) := by
  rintro (error | records) hreply
  · refine ⟨fun hfatal ↦ ?_, ?_⟩
    · change Program.Breaks (if error = _ then _ else _)
      rw [if_neg hfatal]
      trivial
    change Program.Throws _ _ _ (if error = _ then _ else _)
    split_ifs
    · exact (stemming_perform (by simp)).bind fun _ ↦ (stemming_perform (by simp)).bind fun _ ↦
        stemming_stopOrContinue
    · exact Or.inl hreply
  · refine ⟨fun hfatal ↦ hfatal.elim, ?_⟩
    simp only [Program.bind]
    cases records.getLast? with
    | none => exact stemming_stopOrContinue
    | some last =>
      have hbatch : Stemming failures (materializeBatch tp records last.1) :=
        (stemming_perform (by simp)).bind fun _ ↦ stemming_remember _
      refine hbatch.bind fun _ ↦ ?_
      change Program.Throws _ _ _ (if _ then _ else _)
      split_ifs
      · exact stemming_stopOrContinue
      · exact Program.throws_finish _

theorem stemming_applyPostResetClamps {leo logStart : ℤ} {count : ℕ} :
    Stemming failures (applyPostResetClamps tp leo logStart count) := by
  refine stemming_readCheckpoint.bind fun stored ↦ ?_
  cases clampTarget stored leo logStart count with
  | none => exact Program.throws_finish ()
  | some target => exact (stemming_perform (by simp)).bind fun _ ↦ stemming_remember _

theorem stemming_leaveLoop {leo : ℤ} (finished : Option Replay) :
    Stemming failures (leaveLoop tp leo finished) := by
  cases finished with
  | none => exact Program.throws_finish ()
  | some replay =>
    have hready : Stemming failures (rememberState (·.markReady tp) >>= fun _ ↦ reveal tp) :=
      (stemming_remember _).bind fun _ ↦ stemming_reveal
    change Program.Throws _ _ _ (if replay.resetOccurred = true then _ else _)
    split_ifs
    · exact stemming_applyPostResetClamps.bind fun _ ↦ hready
    · exact hready

theorem stemming_rehydrateOne {fuel : ℕ} {deadline : ℤ} :
    Stemming failures (rehydrateOne settings fuel tp name deadline) := by
  refine stemming_readCheckpoint_bind fun checkpoint hcheckpoint ↦ ?_
  refine (stemming_seed checkpoint).bind fun _ ↦ stemming_getConsumer.bind fun _ ↦ ?_
  refine (stemming_perform (by simp)).bind fun leo ↦ (stemming_remember _).bind fun _ ↦ ?_
  refine (stemming_remember _).bind fun _ ↦ (stemming_remember _).bind fun _ ↦ ?_
  refine (stemming_openReplay hcheckpoint).bind fun replay ↦ ?_
  exact (Program.Throws.iterate (fun _ ↦ stemming_pollOnce) fuel replay).bind stemming_leaveLoop

theorem stemming_revealPartialUnreached : Stemming failures (revealPartialUnreached tp name) := by
  refine stemming_getConsumer.bind fun _ ↦ (stemming_perform (by simp)).bind fun leo ↦ ?_
  refine (stemming_remember _).bind fun _ ↦ stemming_readCheckpoint.bind fun checkpoint ↦ ?_
  exact (stemming_seed checkpoint).bind fun _ ↦ (stemming_remember _).bind fun _ ↦ stemming_reveal

/-! ### Step 0 -/

/-- What step 0 raises once its broker errors are rehydrate errors. -/
theorem throws_ensure :
    (ensure settings (settings.template tp)).Throws (Replies failures) Fatal fun error ↦
      Surfaces settings failures tp (stepZeroError (settings.template tp) error) ∨
        (stepZeroError (settings.template tp) error).isStorageError = true := by
  have hfailed (error : Error) (hfails : failures error) :
      Surfaces settings failures tp (stepZeroError (settings.template tp) error) ∨
        (stepZeroError (settings.template tp) error).isStorageError = true := by
    by_cases hstorage : (stepZeroError (settings.template tp) error).isStorageError = true
    · exact Or.inr hstorage
    · cases error with
      | kafka cause => exact Or.inl (Or.inl rfl)
      | _ => exact Or.inl (Or.inr (Or.inr ⟨hfails, rfl, eq_false_of_ne_true hstorage⟩))
  have hverify : Program.Throws (Replies failures) Fatal (fun error ↦
      Surfaces settings failures tp (stepZeroError (settings.template tp) error) ∨
        (stepZeroError (settings.template tp) error).isStorageError = true)
      (if settings.verifyChangelogPolicy = true then verifyPolicy (settings.template tp)
        else pure ()) := by
    split_ifs
    · exact throws_perform hfailed (by simp)
    · exact Program.throws_finish ()
  refine (throws_perform hfailed (by simp)).bind fun existing ↦ ?_
  change Program.Throws _ _ _ (if settings.template tp ∉ existing then _ else _)
  by_cases hmissing : settings.template tp ∉ existing
  · rw [if_pos hmissing]
    cases hretention : settings.retention with
    | none => exact Or.inl (Or.inr (Or.inl (Or.inr ⟨hretention, rfl⟩)))
    | some retention =>
      exact (throws_create hfailed (fun _ _ ↦ Or.inl (Or.inl rfl)) retention).bind fun _ ↦ hverify
  · rw [if_neg hmissing]
    exact hverify

theorem throws_ensureAndVerify :
    (ensureAndVerify settings tp).Throws (Replies failures) Fatal fun error ↦
      Surfaces settings failures tp error ∨ error.isStorageError = true := by
  unfold ensureAndVerify
  cases hname : changelogName settings tp with
  | error error => exact Or.inl (Or.inr (Or.inl (Or.inl hname)))
  | ok name =>
    obtain rfl := eq_template_of_changelogName hname
    refine throws_request (by simp) fun memory ↦ ?_
    change Program.Throws _ _ _ (if tp ∈ memory.checked then _ else _)
    split_ifs
    · exact Program.throws_finish _
    · refine throws_ensure.mapError.bind fun _ ↦ ?_
      exact Program.Throws.bind (throws_request (by simp) fun _ ↦ trivial) fun _ ↦
        Program.throws_finish _

/-- A reply with which step 0 finds a changelog: the topic is listed, or it was created. -/
def Finds (name : String) : (request : Request) → request.Reply → Prop
  | .call .listTopics, .ok topics => name ∈ topics
  | .call (.createTopic created _), .ok topicErrors =>
    created = name ∧ checkTopicErrors name topicErrors = .ok ()
  | _, _ => False

theorem passes_ensure : (ensure settings name).Passes (Finds name) := by
  rintro (error | topics)
  · exact Or.inr trivial
  · by_cases hlisted : name ∈ topics
    · exact Or.inl hlisted
    · refine Or.inr ?_
      change Program.Passes _ (if name ∉ topics then _ else _)
      rw [if_pos hlisted]
      cases hretention : settings.retention with
      | none => trivial
      | some retention =>
        refine Program.Passes.bind ?_ _
        rintro (error | topicErrors)
        · exact Or.inr trivial
        · change Finds name _ _ ∨
            (Program.ofExcept (checkTopicErrors name topicErrors) : Action Unit).Passes (Finds name)
          cases hchecked : checkTopicErrors name topicErrors with
          | error error => exact Or.inr trivial
          | ok value => exact Or.inl ⟨rfl, hchecked⟩

/-- One partition of an assignment, behind the boundary. -/
theorem throws_assignOne {fuel : ℕ} {deadline : ℤ} {first : Bool} :
    (assignOne settings fuel deadline first tp).Throws (Replies failures) Fatal fun error ↦
      Surfaces settings failures tp (assignmentError tp error) := by
  have hmapped (error : Error) (hstems : Surfaces settings failures tp error ∨
      Stems failures error) : Surfaces settings failures tp (assignmentError tp error) := by
    unfold assignmentError
    by_cases hcaught : (error.isStorageError || error.isKafkaError) = true
    · rw [if_pos hcaught]
      exact Or.inl rfl
    · rw [if_neg hcaught]
      have huncaught := Bool.or_eq_false_iff.mp (eq_false_of_ne_true hcaught)
      rcases hstems with hsurfaces | hfails | hstorage
      · exact hsurfaces
      · exact Or.inr (Or.inr ⟨hfails, huncaught.2, huncaught.1⟩)
      · rw [hstorage] at huncaught
        exact absurd huncaught.1 Bool.false_ne_true.symm
  have hdeadline : (deadlinePassed first deadline).Throws (Replies failures) Fatal fun error ↦
      Surfaces settings failures tp (assignmentError tp error) := by
    cases first with
    | true => exact Program.throws_finish false
    | false => exact throws_request (by simp) fun _ ↦ trivial
  refine (throws_ensureAndVerify.mono fun error hraised ↦ ?_).bind fun name ↦ ?_
  · exact hmapped error (hraised.imp_right Or.inr)
  · refine hdeadline.bind fun expired ↦ ?_
    have hstemming {Value : Type} {program : Action Value} (hprogram : Stemming failures program) :
        program.Throws (Replies failures) Fatal fun error ↦
          Surfaces settings failures tp (assignmentError tp error) :=
      hprogram.mono fun error hstems ↦ hmapped error (Or.inr hstems)
    cases expired with
    | true =>
      exact (hstemming stemming_revealPartialUnreached).bind fun _ ↦ Program.throws_finish first
    | false => exact (hstemming stemming_rehydrateOne).bind fun _ ↦ Program.throws_finish false

end KSQLite.Runs
