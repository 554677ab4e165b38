import KSQLite.Boundary.Mapping
import KSQLite.Store.Sample

/-!
# SQLite errors at the boundary of a store

The public coroutines of a store with the SQLite calls they make: a transaction and a checkpoint
read of the store are what the connection layer does for them (`implement`). Whatever is answered,
a caller sees a raw SQLite error exactly where a call failed that nothing maps (`Bare`); where a run
ends for the failure of another SQLite call, it raises a storage error, and an assignment a
rehydrate error (`wraps_iff`).
-/

set_option autoImplicit false
set_option relaxedAutoImplicit false

namespace KSQLite.Boundary

open KSQLite.Suspension KSQLite.Store

open KSQLite.Connection (Ask Coroutine Exposed Fault Surfaces Trouble Troubled Unmapped Vocabulary
  asks faultOf troubled)

/-! ### The coroutines and their SQLite calls -/

section Code

/-- What the store has the connection layer do: its works, the checkpoint read, and the queries of
the host. -/
abbrev words (Query Rows : Type) : Vocabulary where
  Exception := {error : Error // isSQLite error = false}
  Work := Work
  Value := Unit
  Read := TopicPartition ⊕ Query
  Rows
    | .inl _ => Option ℤ
    | .inr _ => Rows

/-- The requests of the store together with those of the connection layer. -/
abbrev detailed (Query Rows : Type) : Interface where
  Request := Request ⊕ Ask (words Query Rows)
  Reply
    | .inl request => request.Reply
    | .inr ask => ask.Reply

variable {Query Rows Value : Type}

/-- What the store sees of a fault. -/
def errorOf : Fault (words Query Rows).Exception → Error
  | .operational message | .sqlite message => .sqlite message
  | .pool message => .other message
  | .storage (.transactionFailed message) => .transactionFailed message
  | .storage (.databaseBusy attempts busyTimeout) => .databaseBusy attempts busyTimeout
  | .storage (.queryFailed message) => .queryFailed message
  | .storage (.poolFailure message) => .poolFailure message
  | .other error => error.1

/-- A coroutine of the connection layer, called by the store. -/
def called (program : Coroutine (words Query Rows) Value) :
    Program (detailed Query Rows) Error (Except Error Value) := do
  let result ← (program.expand fun ask ↦
    @Program.await (detailed Query Rows) _ _ (.inr ask) .finish).caught
  return result.mapError errorOf

/-- The requests of the store: transactions and checkpoint reads are up to the connection layer. -/
def implement (busyTimeout : ℚ) (fuel : ℕ) : (request : Request) →
    Program (detailed Query Rows) Error (requests.Reply request)
  | .call (.transaction work) => called (Connection.transact busyTimeout fuel work)
  | .call (.selectCheckpoint tp) =>
    called (@Connection.readOn (words Query Rows) (.inl tp))
  | request => @Program.await (detailed Query Rows) _ _ (.inl request) .finish

/-- The public coroutines of a running store. -/
inductive Entry (Query : Type)
  | append (source : TopicPartition) (entityKey : EntityKey) (payload : Payload)
  | query (sql : Query)
  | assign (assigned : List TopicPartition)
  | revoke (revoked : List TopicPartition)

/-- What each returns. -/
abbrev Entry.Result (Rows : Type) : Entry Query → Type
  | .query _ => Rows
  | _ => Unit

/-- The coroutine of an entry. -/
def Entry.program (settings : Settings) (busyTimeout : ℚ) (fuel : ℕ) :
    (entry : Entry Query) → Program (detailed Query Rows) Error (entry.Result Rows)
  | .append source entityKey payload =>
    (Facade.append settings source entityKey payload).expand (implement busyTimeout fuel)
  | .query sql => do
    Facade.ensureRunning.expand (implement busyTimeout fuel)
    let result ← called (@Connection.query (words Query Rows) (.inr sql))
    Program.ofExcept result
  | .assign assigned =>
    (Facade.onPartitionsAssigned settings fuel assigned).expand (implement busyTimeout fuel)
  | .revoke revoked =>
    (Facade.onPartitionsRevoked revoked).expand (implement busyTimeout fuel)

end Code

/-! ### The failures of a run -/

section Failures

variable {Query Rows World : Type}

/-- What an answer makes of the trouble: another error takes the place of an earlier one. -/
def nextTrouble (trouble : Trouble) :
    (request : (detailed Query Rows).Request) → (detailed Query Rows).Reply request → Trouble
  | .inr ask, reply => trouble.next ask reply
  | .inl (.call _), .error _ => if trouble = .raw then .raw else .calm
  | .inl _, _ => trouble

/-- The trouble that a run ran into. -/
def troubleOf (trace : List (Exchange (detailed Query Rows) World)) : Trouble :=
  trace.foldl (fun trouble exchange ↦ nextTrouble trouble exchange.request exchange.reply) .calm

/-- A SQLite call that nothing maps failed with a SQLite error. -/
def Bare : Exchange (detailed Query Rows) World → Prop
  | ⟨_, .inr ask, reply⟩ =>
    Exposed ask = true ∧ ∃ fault, faultOf ask reply = some fault ∧ fault.isRaw = true
  | _ => False

/-- The clients of the broker raise no SQLite errors. -/
def FromClient : (request : (detailed Query Rows).Request) →
    (detailed Query Rows).Reply request → Prop
  | .inl (.call _), .error error => isSQLite error = false
  | _, _ => True

/-- The kind of error that SQLite failures surface as. -/
def Entry.kind : Entry Query → Error → Bool
  | .assign _ => Error.isRehydrateError
  | _ => Error.isStorageError

/-- What an entry raises is no raw SQLite error, and it is of the kind of the entry where the run
ended for the failure of a SQLite call. -/
def Wraps (entry : Entry Query) (outcome : Outcome Error (entry.Result Rows))
    (trace : List (Exchange (detailed Query Rows) World)) : Prop :=
  ∀ error, outcome = .raised error →
    isSQLite error = false ∧ (troubleOf trace = .mapped → entry.kind error = true)

end Failures

/-! ### What holds of every run -/

section Watching

variable {Query Rows Value World : Type} {trouble : Trouble}

/-- The watch of the trouble over all requests. -/
abbrev watched (Query Rows : Type) : Environment (detailed Query Rows) Trouble :=
  watch fun trouble request reply after ↦
    FromClient request reply ∧ after = nextTrouble trouble request reply

/-- What is returned of a coroutine whose errors are caught. -/
def Returned {Error Raised Value : Type} (goesWith : Raised → Trouble → Prop) :
    Outcome Error (Except Raised Value) → Trouble → Prop
  | .returned (.ok _), trouble => trouble = .calm
  | .returned (.error error), trouble => goesWith error trouble
  | .raised _, _ => False
  | .exhausted, trouble => trouble ≠ .raw

theorem holds_called {goesWith : Fault (words Query Rows).Exception → Trouble → Prop}
    {surfaces : Error → Trouble → Prop} {program : Coroutine (words Query Rows) Value}
    (hprogram : Holds (troubled (words Query Rows)) (fun _ _ ↦ True) (Troubled goesWith) program
      .calm)
    (hsurfaces : ∀ fault trouble, goesWith fault trouble → surfaces (errorOf fault) trouble) :
    Holds (watched Query Rows) (fun _ _ ↦ True) (Returned surfaces) (called program) .calm := by
  have hexpanded : Holds (watched Query Rows) (fun _ _ ↦ True) (Troubled goesWith)
      (program.expand fun ask ↦ @Program.await (detailed Query Rows) _ _ (.inr ask) .finish)
      .calm := by
    refine hprogram.expand fun ask ghost _ ↦ holds_watch_await.mpr ⟨trivial, ?_⟩
    rintro reply after ⟨_, rfl⟩
    rfl
  have hcaught : Holds (watched Query Rows) (fun _ _ ↦ True) (Returned goesWith)
      ((program.expand fun ask ↦ @Program.await (detailed Query Rows) _ _ (.inr ask)
        .finish).caught : Program (detailed Query Rows) Error _) .calm := by
    refine holds_caught.mpr (hexpanded.mono (fun _ _ _ ↦ trivial) ?_)
    rintro (value | fault | _) final hfinal <;> exact hfinal
  refine hcaught.bind ?_ (fun _ _ hraised ↦ hraised.elim) fun _ hexhausted ↦ hexhausted
  rintro (fault | value) final hfinal
  · exact hsurfaces fault final hfinal
  · exact hfinal

/-- The store sees a raw error where there is one. -/
theorem isSQLite_errorOf {fault : Fault (words Query Rows).Exception} :
    isSQLite (errorOf fault) = fault.isRaw := by
  rcases fault with message | message | message | (_ | _ | _ | _) | ⟨error, herror⟩ <;>
    first | rfl | exact herror

/-- What the runner and a query raise, as the store sees it. -/
theorem Goes.of_surfaces {fault : Fault (words Query Rows).Exception}
    (hsurfaces : Surfaces fault trouble) : Goes Error.isStorageError (errorOf fault) trouble := by
  refine ⟨?_, fun hmapped ↦ ?_⟩
  · rw [isSQLite_errorOf]
    exact hsurfaces.raw
  · have hstorage := hsurfaces.mapped hmapped
    rcases fault with message | message | message | (_ | _ | _ | _) | error <;>
      first | rfl | cases hstorage

/-- What the connection layer does for a call of the store is what the store relies on. -/
theorem holds_implement {busyTimeout : ℚ} {fuel : ℕ} {post : Outcome Error Value → Trouble → Prop}
    (hpost : ∀ trouble, trouble ≠ .raw → post .exhausted trouble) (request : Request)
    (hrequest : Calmly request trouble) :
    Holds (watched Query Rows) (fun _ _ ↦ True)
      (@Implements requests _ _ _ Moves post trouble request)
      (implement busyTimeout fuel request) trouble := by
  -- A request of the store that is not up to the connection layer.
  have hask (hmoves : ∀ reply, @FromClient Query Rows (.inl request) reply →
      Moves trouble request reply (nextTrouble trouble (.inl request) reply)) :
      Holds (watched Query Rows) (fun _ _ ↦ True)
        (@Implements requests _ _ _ Moves post trouble request)
        (@Program.await (detailed Query Rows) _ _ (.inl request) .finish) trouble := by
    refine holds_watch_await.mpr ⟨trivial, ?_⟩
    rintro reply after ⟨hclient, rfl⟩
    exact hmoves reply hclient
  cases request with
  | call call =>
    obtain rfl : trouble = .calm := hrequest
    cases call with
    | transaction work =>
      refine (holds_called Connection.holds_transact fun _ _ ↦ Goes.of_surfaces).mono
        (fun _ _ _ ↦ trivial) ?_
      rintro ((error | value) | error | _) final hfinal
      · exact hfinal
      · exact hfinal
      · exact hfinal.elim
      · exact hpost final hfinal
    | selectCheckpoint tp =>
      have hread : Holds (watched Query Rows) (fun _ _ ↦ True)
          (Returned fun error trouble ↦ trouble ≠ .raw ∧
            (isSQLite error = true ↔ trouble = .mapped))
          (called (@Connection.readOn (words Query Rows) (.inl tp))) .calm := by
        refine holds_called Connection.holds_readOn fun fault final hunmapped ↦ ⟨hunmapped.raw, ?_⟩
        rw [isSQLite_errorOf]
        exact hunmapped.mapped
      refine hread.mono (fun _ _ _ ↦ trivial) ?_
      rintro ((error | value) | error | _) final hfinal
      · exact hfinal
      · exact hfinal
      · exact hfinal.elim
      · exact hpost final hfinal
    | _ =>
      refine hask fun reply hclient ↦ ?_
      rcases reply with error | value
      · exact ⟨hclient, rfl⟩
      · rfl
  | _ => exact hask fun reply _ ↦ rfl

/-! ### The entries -/

/-- A coroutine of the store with its SQLite calls. -/
theorem holds_expanded {busyTimeout : ℚ} {fuel : ℕ} {goesWith : Error → Trouble → Prop}
    {program : Action Value}
    (hprogram : Holds (watch Moves) Calmly (Troubled goesWith) program .calm) :
    Holds (watched Query Rows) (fun _ _ ↦ True) (Troubled goesWith)
      (program.expand (implement busyTimeout fuel)) .calm :=
  hprogram.expand fun request _ ↦ holds_implement (fun _ hraw ↦ hraw) request

theorem tame_ensureRunning : Tame Facade.ensureRunning := by
  refine tame_observe.bind fun memory ↦ ?_
  split_ifs
  · exact tame_raise rfl
  · exact tame_finish ()

/-- An append of the facade: whatever is raised goes on once the append is counted out. -/
theorem tame_facade_append (settings : Settings) (source : TopicPartition) (entityKey : EntityKey)
    (payload : Payload) : Tame (Facade.append settings source entityKey payload) := by
  refine tame_ensureRunning.bind fun _ ↦ (tame_remember _).bind fun _ ↦ Tame.bind ?_ fun _ ↦
    tame_remember _
  refine holds_handle.mpr ((tame_append settings source entityKey payload).mono
    (fun _ _ hnow ↦ hnow) ?_)
  rintro (value | error | _) final hfinal
  · exact hfinal
  · exact holds_untroubled (by simp) fun _ ↦ hfinal
  · exact hfinal

/-- An assignment maps storage errors once more. -/
theorem Goes.assignmentError {error : Error} {tp : TopicPartition}
    (hgoes : Goes Error.isStorageError error trouble) :
    Goes Error.isRehydrateError (assignmentError tp error) trouble := by
  unfold Store.assignmentError
  by_cases hmaps : (error.isStorageError || error.isKafkaError) = true
  · rw [if_pos hmaps]
    have hraw : ¬ isSQLite error = true := by
      cases error with
      | sqlite message => cases hmaps
      | _ => exact Bool.false_ne_true
    exact ⟨iff_of_false Bool.false_ne_true fun htrouble ↦ hraw (hgoes.raw.mpr htrouble),
      fun _ ↦ rfl⟩
  · rw [if_neg hmaps]
    refine ⟨hgoes.raw, fun hmapped ↦ absurd ?_ hmaps⟩
    rw [hgoes.mapped hmapped, Bool.true_or]

theorem holds_onPartitionsAssigned (settings : Settings) (fuel : ℕ)
    (assigned : List TopicPartition) :
    Holds (watch Moves) Calmly (Troubled (Goes Error.isRehydrateError))
      (Facade.onPartitionsAssigned settings fuel assigned) .calm := by
  have hone (deadline : ℤ) (first : Bool) (tp : TopicPartition) :
      Holds (watch Moves) Calmly (Troubled (Goes Error.isRehydrateError))
        ((assignOne settings fuel deadline first tp).mapError (assignmentError tp)) .calm := by
    refine holds_mapError.mpr ((tame_assignOne settings fuel deadline first tp).mono
      (fun _ _ hnow ↦ hnow) ?_)
    rintro (value | error | _) final hfinal
    · exact hfinal
    · exact Goes.assignmentError hfinal
    · exact hfinal
  have hall (deadline : ℤ) (first : Bool) :
      Holds (watch Moves) Calmly (Troubled (Goes Error.isRehydrateError))
        (assignAll settings fuel deadline first assigned) .calm := by
    induction assigned generalizing first with
    | nil => rfl
    | cons tp rest ih => exact holds_then (hone deadline first tp) ih
  refine holds_untroubled (by simp) fun memory ↦ ?_
  change Holds _ _ _ (ite _ _ _ >>= _) _
  split_ifs
  · exact goes_calm rfl
  · exact holds_untroubled (by simp) fun now ↦ hall _ true

/-- Every entry raises what goes with the trouble it ran into. -/
theorem holds_entry {settings : Settings} {busyTimeout : ℚ} {fuel : ℕ} (entry : Entry Query) :
    Holds (watched Query Rows) (fun _ _ ↦ True) (Troubled (Goes entry.kind))
      (entry.program settings busyTimeout fuel : Program (detailed Query Rows) Error _) .calm := by
  cases entry with
  | append source entityKey payload =>
    exact holds_expanded (tame_facade_append settings source entityKey payload)
  | query sql =>
    refine Holds.bind (holds_expanded tame_ensureRunning) ?_ (fun _ _ hraised ↦ hraised)
      fun _ hexhausted ↦ hexhausted
    rintro value final rfl
    refine (holds_called Connection.holds_query fun _ _ ↦ Goes.of_surfaces).bind ?_
      (fun _ _ hraised ↦ hraised.elim) fun _ hexhausted ↦ hexhausted
    rintro (error | rows) final hfinal <;> exact hfinal
  | assign assigned => exact holds_expanded (holds_onPartitionsAssigned settings fuel assigned)
  | revoke revoked =>
    exact holds_expanded (tame_ensureRunning.bind fun _ ↦ tame_onPartitionsRevoked revoked)

theorem nextTrouble_eq_raw {exchange : Exchange (detailed Query Rows) World} :
    nextTrouble trouble exchange.request exchange.reply = .raw ↔
      trouble = .raw ∨ Bare exchange := by
  obtain ⟨world, request | ask, reply⟩ := exchange
  · have hnot : ¬ Bare (⟨world, .inl request, reply⟩ : Exchange (detailed Query Rows) World) :=
      not_false
    refine Iff.trans ?_ (or_iff_left hnot).symm
    cases request with
    | call call =>
      rcases reply with error | value
      · change (if trouble = .raw then Trouble.raw else .calm) = .raw ↔ _
        by_cases hraw : trouble = .raw <;> simp [hraw]
      · rfl
    | _ => rfl
  · exact Connection.next_eq_raw

/-- The trouble of a run is raw where a call failed that nothing maps. -/
theorem troubleOf_eq_raw {trace : List (Exchange (detailed Query Rows) World)} :
    troubleOf trace = .raw ↔ ∃ exchange ∈ trace, Bare exchange := by
  have hfold (trouble : Trouble) :
      trace.foldl (fun trouble exchange ↦ nextTrouble trouble exchange.request exchange.reply)
        trouble = .raw ↔ trouble = .raw ∨ ∃ exchange ∈ trace, Bare exchange := by
    induction trace generalizing trouble with
    | nil => simp
    | cons exchange rest ih =>
      rw [List.foldl_cons, ih, nextTrouble_eq_raw]
      simp only [List.mem_cons, exists_eq_or_imp, or_assoc]
  exact (hfold .calm).trans (by simp)

/-- A caller sees SQLite errors wrapped exactly where no call fails that nothing maps. -/
theorem wraps_iff {settings : Settings} {busyTimeout : ℚ} {fuel : ℕ} {entry : Entry Query}
    {environment : Environment (detailed Query Rows) World} {world final : World}
    {trace : List (Exchange (detailed Query Rows) World)}
    {outcome : Outcome Error (entry.Result Rows)}
    (hsteps : Steps environment (entry.program settings busyTimeout fuel) world trace
      outcome.program final)
    (hclients : ∀ exchange ∈ trace, FromClient exchange.request exchange.reply) :
    Wraps entry outcome trace ↔ ∀ exchange ∈ trace, ¬ Bare exchange := by
  have hended : Troubled (Goes entry.kind) outcome (troubleOf trace) :=
    ((holds_entry entry).folded nextTrouble hsteps fun exchange hexchange _ ↦
      ⟨hclients exchange hexchange, rfl⟩).outcome .refl
  have hraw : (∀ exchange ∈ trace, ¬ Bare exchange) ↔ troubleOf trace ≠ .raw := by
    rw [Ne, troubleOf_eq_raw]
    simp only [not_exists, not_and]
  rw [hraw]
  unfold Wraps
  constructor
  · intro hwraps htrouble
    cases outcome with
    | returned value => exact Trouble.noConfusion (htrouble.symm.trans hended)
    | raised error =>
      have hsqlite := hended.raw.mpr htrouble
      rw [(hwraps error rfl).1] at hsqlite
      cases hsqlite
    | exhausted => exact hended htrouble
  · rintro hcalm error rfl
    exact ⟨eq_false_of_ne_true fun hsqlite ↦ hcalm (hended.raw.mp hsqlite), hended.mapped⟩

end Watching

/-! ### Two runs -/

section Runs

/-- Anything may be answered. -/
abbrev anything : Environment (detailed Unit Unit) Unit := watch fun _ _ _ _ ↦ True

/-- An exchange with the store or with SQLite. -/
abbrev exchanged (request : (detailed Unit Unit).Request)
    (reply : (detailed Unit Unit).Reply request) :
    Exchange (detailed Unit Unit) Unit := ⟨(), request, reply⟩

/-- The memory of a store that is running. -/
abbrev running : Memory := { Memory.new with runState := .running }

theorem steps_exchanged {Value : Type} {request : (detailed Unit Unit).Request}
    {reply : (detailed Unit Unit).Reply request}
    {resume : (detailed Unit Unit).Reply request → Program (detailed Unit Unit) Error Value}
    {rest : Program (detailed Unit Unit) Error Value}
    {trace : List (Exchange (detailed Unit Unit) Unit)}
    (hrest : Steps anything (resume reply) () trace rest ()) :
    Steps anything (.await request resume) () (exchanged request reply :: trace) rest () :=
  .answer trivial hrest

/-- A query whose statement fails. -/
def failedQuery : List (Exchange (detailed Unit Unit) Unit) := [
  exchanged (.inl .observe) running,
  exchanged (.inr (.acquire .query)) (.ok ()),
  exchanged (.inr .inTransaction) false,
  exchanged (.inr (.resetQueryOnly .query)) (.ok ()),
  exchanged (.inr (.setQueryOnly true)) (.ok ()),
  exchanged (.inr (.fetch (.inr ()))) (.error (.operational "no such table: orders")),
  exchanged (.inr (.setQueryOnly false)) (.ok ())]

/-- No call failed that nothing maps, and the query raises a storage error. -/
theorem wraps_failedQuery :
    Wraps (Entry.query ()) (.raised (.queryFailed "no such table: orders")) failedQuery := by
  have hsteps : Steps anything ((Entry.query ()).program Sample.settings 5 3) () failedQuery
      (.raise (.queryFailed "no such table: orders")) () := by
    unfold failedQuery
    repeat refine steps_exchanged ?_
    exact .refl
  refine (wraps_iff hsteps ?_).mpr ?_
  · simp [failedQuery, FromClient]
  · simp [failedQuery, Bare, Exposed, faultOf]

/-- An append whose connection cannot be opened, after the record was produced. -/
def failedCheckout : List (Exchange (detailed Unit Unit) Unit) := [
  exchanged (.inl .observe) running,
  exchanged (.inl (.remember fun memory ↦ { memory with inFlight := memory.inFlight + 1 })) (),
  exchanged (.inl .newMessageId) Sample.first.messageId,
  exchanged (.inl (.call (.sendAndWait Sample.changelog Sample.first.message))) (.ok (0 : ℤ)),
  exchanged (.inr (.acquire .write)) (.error (.operational "unable to open database file")),
  exchanged (.inl (.remember fun memory ↦
    { memory with
      inFlight := memory.inFlight - 1
      drained := memory.drained ||
        decide (memory.runState ≠ .running ∧ memory.inFlight - 1 = 0) })) ()]

/-- The caller of the append sees what SQLite raised. -/
theorem append_raises_raw :
    Steps anything ((Entry.append Sample.orders (.text "k1") (.text "[]")).program
      Sample.settings 5 3) () failedCheckout
      (.raise (.sqlite "unable to open database file")) () ∧
    (∀ exchange ∈ failedCheckout, FromClient exchange.request exchange.reply) ∧
    ¬ Wraps (Entry.append Sample.orders (.text "k1") (.text "[]"))
      (.raised (.sqlite "unable to open database file")) failedCheckout := by
  refine ⟨?_, ?_, ?_⟩
  · unfold failedCheckout
    repeat refine steps_exchanged ?_
    exact .refl
  · simp [failedCheckout, FromClient]
  · intro hwraps
    exact absurd (hwraps _ rfl).1 Bool.noConfusion

end Runs

end KSQLite.Boundary
