import KSQLite.Connection.Runner
import KSQLite.Suspension.Expansion

/-!
# Checkouts and what runs on a connection

A connection is taken from the pool, cleaned of what its last user left, and used
(`checkedOut`). `transact` runs a work on it, `readOn` one statement, and `query` one statement
under `PRAGMA query_only`. SQLite errors are turned into storage errors by the transaction runner
and by the query, each for a part of its calls.

`Trouble` follows the failures of a run: whether a SQLite call failed last, and whether one failed
that nothing maps (`Exposed`). What the coroutines of this layer raise is read off it
(`holds_transact`, `holds_query`).
-/

set_option autoImplicit false
set_option relaxedAutoImplicit false

namespace KSQLite.Connection

open KSQLite.Suspension

section Code

variable {words : Vocabulary} {Result : Type}

def acquire (use : Use) : Coroutine words Unit :=
  @Program.await (asks words) _ _ (.acquire use) Program.ofExcept

def resetQueryOnly (use : Use) : Coroutine words Unit :=
  @Program.await (asks words) _ _ (.resetQueryOnly use) Program.ofExcept

def setQueryOnly (isOn : Bool) : Coroutine words Unit :=
  @Program.await (asks words) _ _ (.setQueryOnly isOn) Program.ofExcept

def fetch (read : words.Read) : Coroutine words (words.Rows read) :=
  @Program.await (asks words) _ _ (.fetch read) Program.ofExcept

/-- The boundary mapping of the pool adapter. -/
def poolError {Exception : Type} : Fault Exception → Fault Exception
  | .pool message => .storage (.poolFailure message)
  | fault => fault

/-- `_checked_out`: the connection is cleaned before it is used. -/
def checkedOut (use : Use) (body : Coroutine words Result) : Coroutine words Result :=
  Program.mapError poolError do
    acquire use
    if ← inTransaction then rollback (.checkout use)
    resetQueryOnly use
    body

/-- One work in one transaction, on a connection of the pool. -/
def transact (busyTimeout : ℚ) (fuel : ℕ) (work : words.Work) : Coroutine words words.Value :=
  checkedOut .write (run busyTimeout fuel work)

/-- One statement, on a connection of the pool. -/
def readOn (read : words.Read) : Coroutine words (words.Rows read) :=
  checkedOut .readCheckpoint (fetch read)

/-- The boundary mapping of a query. -/
def queryError {Exception : Type} : Fault Exception → Fault Exception
  | .operational message | .sqlite message => .storage (.queryFailed message)
  | fault => fault

/-- `QueryRunner.query`, without the hydration of its rows. -/
def query (read : words.Read) : Coroutine words (words.Rows read) :=
  checkedOut .query do
    setQueryOnly true
    let rows ← ((fetch read).mapError queryError).handle fun fault ↦ do
      setQueryOnly false
      .raise fault
    setQueryOnly false
    return rows

end Code

/-! ### Trouble -/

/-- What went wrong so far: nothing that still matters, a SQLite call whose failure is mapped, or
one whose failure is not. -/
inductive Trouble
  | calm
  | mapped
  | raw
  deriving DecidableEq

/-- A SQLite call whose failure nothing maps: a checkout for anything but a checkpoint read, the
switch of `query_only` around a query, and the rollback before a retry. -/
def Exposed {words : Vocabulary} : Ask words → Bool
  | .acquire use | .rollback (.checkout use) | .resetQueryOnly use => use ≠ .readCheckpoint
  | .rollback .retry | .setQueryOnly _ => true
  | _ => false

/-- The fault a request was answered with. -/
def faultOf {words : Vocabulary} : (ask : Ask words) → ask.Reply → Option (Fault words.Exception)
  | .acquire _, .error fault | .rollback _, .error fault | .resetQueryOnly _, .error fault
  | .setQueryOnly _, .error fault | .begin, .error fault | .work _, .error fault
  | .commit, .error fault | .fetch _, .error fault => some fault
  | _, _ => none

/-- What an answer makes of the trouble. An attempt starts anew. -/
def Trouble.next {words : Vocabulary} (trouble : Trouble) (ask : Ask words) (reply : ask.Reply) :
    Trouble :=
  match trouble, faultOf ask reply with
  | .raw, _ => .raw
  | _, some fault => if fault.isRaw then if Exposed ask then .raw else .mapped else .calm
  | trouble, none => match ask with
    | .begin => .calm
    | _ => trouble

/-- The watch of the trouble. -/
abbrev troubled (words : Vocabulary) : Environment (asks words) Trouble :=
  watch fun trouble ask reply after ↦ after = trouble.next ask reply

/-- A fault as the callers of the layer may see it: it is raw exactly where nothing maps it, and a
SQLite failure that is mapped is a storage error. -/
structure Surfaces {Exception : Type} (fault : Fault Exception) (trouble : Trouble) : Prop where
  raw : fault.isRaw = true ↔ trouble = .raw
  mapped : trouble = .mapped → fault.isStorage = true

/-- A fault that is still to be mapped: it is raw exactly where a SQLite call failed. -/
structure Unmapped {Exception : Type} (fault : Fault Exception) (trouble : Trouble) : Prop where
  raw : trouble ≠ .raw
  mapped : fault.isRaw = true ↔ trouble = .mapped

/-- How a coroutine ends: without trouble, or with an error that goes with it. -/
def Troubled {Error Result : Type} (goesWith : Error → Trouble → Prop) :
    Outcome Error Result → Trouble → Prop
  | .returned _, trouble => trouble = .calm
  | .raised error, trouble => goesWith error trouble
  | .exhausted, trouble => trouble ≠ .raw

section Watching

variable {words : Vocabulary} {Result : Type} {trouble : Trouble} {use : Use}

theorem Surfaces.poolError {fault : Fault words.Exception} (hsurfaces : Surfaces fault trouble) :
    Surfaces (poolError fault) trouble := by
  cases fault with
  | pool message => exact ⟨hsurfaces.raw, fun _ ↦ rfl⟩
  | _ => exact hsurfaces

theorem Unmapped.poolError {fault : Fault words.Exception} (hunmapped : Unmapped fault trouble) :
    Unmapped (poolError fault) trouble := by
  cases fault with
  | pool message => exact ⟨hunmapped.raw, hunmapped.mapped⟩
  | _ => exact hunmapped

/-- What a query maps is mapped. -/
theorem Unmapped.queryError {fault : Fault words.Exception} (hunmapped : Unmapped fault trouble) :
    Surfaces (queryError fault) trouble := by
  have hother (hmapped : fault.isRaw = false) : trouble ≠ .mapped := by
    intro htrouble
    exact absurd (hunmapped.mapped.mpr htrouble) (by simp [hmapped])
  cases fault with
  | operational message | sqlite message =>
    exact ⟨iff_of_false Bool.false_ne_true hunmapped.raw, fun _ ↦ rfl⟩
  | pool message | storage error | other error =>
    exact ⟨iff_of_false Bool.false_ne_true hunmapped.raw, fun htrouble ↦
      absurd htrouble (hother rfl)⟩

/-- A fault of a call that nothing maps. -/
theorem surfaces_of_exposed {ask : Ask words} {reply : ask.Reply} {fault : Fault words.Exception}
    (htrouble : trouble ≠ .raw) (hfault : faultOf ask reply = some fault)
    (hexposed : Exposed ask = true) : Surfaces fault (trouble.next ask reply) := by
  unfold Trouble.next
  rw [hfault]
  cases hraw : fault.isRaw
  · constructor <;> cases trouble <;> simp_all
  · constructor <;> cases trouble <;> simp_all

/-- A fault of a call that is mapped later. -/
theorem unmapped_of_covered {ask : Ask words} {reply : ask.Reply} {fault : Fault words.Exception}
    (htrouble : trouble ≠ .raw) (hfault : faultOf ask reply = some fault)
    (hcovered : Exposed ask = false) : Unmapped fault (trouble.next ask reply) := by
  unfold Trouble.next
  rw [hfault]
  cases hraw : fault.isRaw
  · constructor <;> cases trouble <;> simp_all
  · constructor <;> cases trouble <;> simp_all

/-- A call that is answered with a value keeps the trouble, and an attempt that begins ends it. -/
theorem next_of_answered {ask : Ask words} {reply : ask.Reply}
    (hanswered : faultOf ask reply = none) :
    trouble.next ask reply = trouble ∨ trouble.next ask reply = .calm := by
  unfold Trouble.next
  rw [hanswered]
  cases trouble <;> cases ask <;> simp

/-- Trouble is raw from the first call on that fails and that nothing maps. -/
theorem next_eq_raw {ask : Ask words} {reply : ask.Reply} :
    trouble.next ask reply = .raw ↔ trouble = .raw ∨
      Exposed ask = true ∧ ∃ fault, faultOf ask reply = some fault ∧ fault.isRaw = true := by
  by_cases hraw : trouble = .raw
  · rw [hraw]
    exact iff_of_true rfl (Or.inl rfl)
  · cases hfault : faultOf ask reply with
    | none =>
      have hnext : trouble.next ask reply ≠ .raw := by
        rcases (next_of_answered hfault : trouble.next ask reply = trouble ∨ _) with hsame | hcalm
        · rwa [hsame]
        · rw [hcalm]
          decide
      simp [hnext, hraw]
    | some fault =>
      unfold Trouble.next
      rw [hfault]
      by_cases hsqlite : fault.isRaw = true
      · by_cases hexposed : Exposed ask = true
        · cases trouble <;> simp_all
        · cases trouble <;> simp_all
      · cases trouble <;> simp_all

/-- One attempt. -/
theorem holds_troubled_tryOnce {work : words.Work} (htrouble : trouble ≠ .raw) :
    Holds (troubled words) (fun _ _ ↦ True) (Troubled Unmapped) (tryOnce work) trouble := by
  have hrollback {fault : Fault words.Exception} {after : Trouble} (hfault : Unmapped fault after) :
      Holds (troubled words) (fun _ _ ↦ True) (Troubled Unmapped) (do
        rollback .attempt
        (.raise fault : Coroutine words words.Value)) after := by
    refine holds_watch_await.mpr ⟨trivial, ?_⟩
    rintro (failed | _) next rfl
    · exact unmapped_of_covered hfault.raw rfl rfl
    · change Unmapped fault (after.next _ _)
      unfold Trouble.next
      cases after with
      | raw => exact hfault
      | _ => exact hfault
  refine holds_watch_await.mpr ⟨trivial, ?_⟩
  rintro (fault | _) begun rfl
  · exact unmapped_of_covered htrouble rfl rfl
  · have hcalm : trouble.next (.begin : Ask words) (.ok ()) = .calm := by
      cases trouble with
      | raw => exact absurd rfl htrouble
      | _ => rfl
    rw [hcalm]
    refine holds_watch_await.mpr ⟨trivial, ?_⟩
    have hworked {value : words.Value} :
        Trouble.calm.next (.work work : Ask words) (.ok value) = .calm := rfl
    rintro (fault | value) worked rfl
    · exact hrollback (unmapped_of_covered (by decide) rfl rfl)
    · rw [hworked]
      refine holds_watch_await.mpr ⟨trivial, ?_⟩
      rintro (fault | _) committed rfl
      · exact hrollback (unmapped_of_covered (by decide) rfl rfl)
      · rfl

/-- How a round ends: an attempt follows one whose failure is mapped. -/
abbrev RoundTroubled {Value : Type} :
    Outcome (Fault words.Exception) (ℕ ⊕ Value) → Trouble → Prop :=
  AfterRound (fun _ trouble ↦ trouble ≠ .raw) (Troubled Surfaces)

theorem holds_troubled_backOff {busyTimeout deadline : ℚ} {attempt : ℕ}
    (htrouble : trouble ≠ .raw) :
    Holds (troubled words) (fun _ _ ↦ True) (RoundTroubled)
      (backOff busyTimeout deadline attempt : Coroutine words (ℕ ⊕ words.Value)) trouble := by
  -- What follows the rollback.
  have hrest {after : Trouble} (hafter : after ≠ .raw) :
      Holds (troubled words) (fun _ _ ↦ True) (RoundTroubled) (do
        let remaining := deadline - (← now)
        if maxAttempts ≤ attempt ∨ remaining ≤ 0 then
          .raise (.storage (.databaseBusy attempt busyTimeout))
        else do
          sleep (min (backoffBase * attempt) remaining)
          return .inl (attempt + 1) : Coroutine words (ℕ ⊕ words.Value)) after := by
    have hnext {ask : Ask words} {reply : ask.Reply} {trouble : Trouble} (hraw : trouble ≠ .raw)
        (hanswered : faultOf ask reply = none) : trouble.next ask reply ≠ .raw := by
      rcases (next_of_answered hanswered : trouble.next ask reply = trouble ∨ _) with hsame | hcalm
      · rwa [hsame]
      · rw [hcalm]
        decide
    refine holds_watch_await.mpr ⟨trivial, ?_⟩
    rintro reading next rfl
    change Holds _ _ _ (if _ then _ else _) _
    split_ifs
    · exact ⟨iff_of_false (by simp [Fault.isRaw]) (hnext hafter rfl), fun _ ↦ rfl⟩
    · refine holds_watch_await.mpr ⟨trivial, ?_⟩
      rintro ⟨⟩ next rfl
      exact hnext (hnext hafter rfl) rfl
  refine holds_watch_await.mpr ⟨trivial, ?_⟩
  rintro isOpen looked rfl
  have hlooked : trouble.next (.inTransaction : Ask words) isOpen = trouble := by
    cases trouble <;> rfl
  rw [hlooked]
  cases isOpen with
  | false => exact hrest htrouble
  | true =>
    refine holds_watch_await.mpr ⟨trivial, ?_⟩
    rintro (fault | _) rolledBack rfl
    · exact surfaces_of_exposed htrouble rfl rfl
    · have hsame : trouble.next (.rollback .retry : Ask words) (.ok ()) = trouble := by
        cases trouble <;> rfl
      rw [hsame]
      exact hrest htrouble

/-- The runner maps what SQLite raises, but for a rollback before a retry. -/
theorem holds_troubled_run {busyTimeout : ℚ} {fuel : ℕ} {work : words.Work}
    (htrouble : trouble ≠ .raw) :
    Holds (troubled words) (fun _ _ ↦ True) (Troubled Surfaces) (run busyTimeout fuel work)
      trouble := by
  refine holds_watch_await.mpr ⟨trivial, ?_⟩
  rintro started next rfl
  have hstarted : trouble.next (.clock : Ask words) started = trouble := by
    cases trouble <;> rfl
  rw [hstarted]
  refine holds_iterate (fun _ _ trouble ↦ trouble ≠ .raw) (fun _ _ _ _ _ hguard ↦ by cases hguard)
    (fun _ attempt between hbetween _ ↦ ?_) (fun _ _ hbetween _ ↦ hbetween) htrouble
  refine holds_handle.mpr ((holds_troubled_tryOnce hbetween).bind ?_ ?_ ?_)
  · exact fun value final hreturned ↦ hreturned
  · intro fault final hunmapped
    cases fault with
    | operational message =>
      change Holds _ _ _ (if isBusyError message = true then _ else _) _
      split_ifs
      · exact holds_troubled_backOff hunmapped.raw
      · exact ⟨iff_of_false (by simp [Fault.isRaw]) hunmapped.raw, fun _ ↦ rfl⟩
    | sqlite message => exact ⟨iff_of_false (by simp [Fault.isRaw]) hunmapped.raw, fun _ ↦ rfl⟩
    | _ =>
      refine ⟨iff_of_false (by simp [Fault.isRaw]) hunmapped.raw, fun hmapped ↦ ?_⟩
      exact absurd (hunmapped.mapped.mpr hmapped) (by simp [Fault.isRaw])
  · exact fun _ hexhausted ↦ hexhausted

/-- The calls of a checkout. -/
def Cleans (use : Use) (ask : Ask words) : Prop :=
  ask = .acquire use ∨ ask = .rollback (.checkout use) ∨ ask = .resetQueryOnly use

/-- A checkout and what runs on the connection. -/
theorem holds_troubled_checkedOut {goesWith : Fault words.Exception → Trouble → Prop}
    {body : Coroutine words Result}
    (hpool : ∀ fault trouble, goesWith fault trouble → goesWith (poolError fault) trouble)
    (hclean : ∀ (ask : Ask words) (reply : ask.Reply) fault, Cleans use ask →
      faultOf ask reply = some fault → goesWith fault (Trouble.calm.next ask reply))
    (hbody : Holds (troubled words) (fun _ _ ↦ True) (Troubled goesWith) body .calm) :
    Holds (troubled words) (fun _ _ ↦ True) (Troubled goesWith) (checkedOut use body) .calm := by
  have hinner : Holds (troubled words) (fun _ _ ↦ True) (Troubled goesWith) (do
      acquire use
      if ← inTransaction then rollback (.checkout use)
      resetQueryOnly use
      body) .calm := by
    have hreset : Holds (troubled words) (fun _ _ ↦ True) (Troubled goesWith) (do
        resetQueryOnly use
        body) .calm := by
      refine holds_watch_await.mpr ⟨trivial, ?_⟩
      rintro (fault | _) next rfl
      · exact hclean (.resetQueryOnly use) (.error fault) fault (Or.inr (Or.inr rfl)) rfl
      · exact hbody
    refine holds_watch_await.mpr ⟨trivial, ?_⟩
    rintro (fault | _) acquired rfl
    · exact hclean (.acquire use) (.error fault) fault (Or.inl rfl) rfl
    · refine holds_watch_await.mpr ⟨trivial, ?_⟩
      rintro (_ | _) looked rfl
      · exact hreset
      · refine holds_watch_await.mpr ⟨trivial, ?_⟩
        rintro (fault | _) rolledBack rfl
        · exact hclean (.rollback (.checkout use)) (.error fault) fault (Or.inr (Or.inl rfl)) rfl
        · exact hreset
  refine holds_mapError.mpr (hinner.mono (fun _ _ _ ↦ trivial) ?_)
  rintro (value | fault | _) trouble hended
  · exact hended
  · exact hpool fault trouble hended
  · exact hended

theorem surfaces_of_cleans (huse : use ≠ .readCheckpoint) (ask : Ask words) (reply : ask.Reply)
    (fault : Fault words.Exception) (hcleans : Cleans use ask)
      (hfault : faultOf ask reply = some fault) :
    Surfaces fault (Trouble.calm.next ask reply) := by
  refine surfaces_of_exposed (by decide) hfault ?_
  rcases hcleans with rfl | rfl | rfl <;> exact decide_eq_true huse

theorem unmapped_of_cleans (ask : Ask words) (reply : ask.Reply) (fault : Fault words.Exception)
    (hcleans : Cleans .readCheckpoint ask) (hfault : faultOf ask reply = some fault) :
    Unmapped fault (Trouble.calm.next ask reply) := by
  refine unmapped_of_covered (by decide) hfault ?_
  rcases hcleans with rfl | rfl | rfl <;> rfl

/-- What a transaction raises is raw exactly where nothing maps it. -/
theorem holds_transact {busyTimeout : ℚ} {fuel : ℕ} {work : words.Work} :
    Holds (troubled words) (fun _ _ ↦ True) (Troubled Surfaces) (transact busyTimeout fuel work)
      .calm :=
  holds_troubled_checkedOut (fun _ _ hsurfaces ↦ hsurfaces.poolError)
    (surfaces_of_cleans (by decide)) (holds_troubled_run (by decide))

/-- What a read raises is raw exactly where a SQLite call failed. -/
theorem holds_readOn {read : words.Read} :
    Holds (troubled words) (fun _ _ ↦ True) (Troubled Unmapped) (readOn read) .calm := by
  refine holds_troubled_checkedOut (fun _ _ hunmapped ↦ hunmapped.poolError) unmapped_of_cleans ?_
  refine holds_watch_await.mpr ⟨trivial, ?_⟩
  rintro (fault | rows) next rfl
  · exact unmapped_of_covered (by decide) rfl rfl
  · rfl

/-- What a query raises is raw exactly where nothing maps it. -/
theorem holds_query {read : words.Read} :
    Holds (troubled words) (fun _ _ ↦ True) (Troubled Surfaces) (query read) .calm := by
  refine holds_troubled_checkedOut (fun _ _ hsurfaces ↦ hsurfaces.poolError)
    (surfaces_of_cleans (by decide)) ?_
  -- The switch back, which the error of the statement goes through as well.
  have hoff {fault : Fault words.Exception} {trouble : Trouble} (hraised : Surfaces fault trouble)
      (htrouble : trouble ≠ .raw) :
      Holds (troubled words) (fun _ _ ↦ True) (Troubled Surfaces) (do
        let rows ← (setQueryOnly false >>= fun _ ↦ .raise fault : Coroutine words (words.Rows read))
        setQueryOnly false
        return rows) trouble := by
    refine holds_watch_await.mpr ⟨trivial, ?_⟩
    rintro (failed | _) next rfl
    · exact surfaces_of_exposed htrouble rfl rfl
    · have hsame : trouble.next (.setQueryOnly false : Ask words) (.ok ()) = trouble := by
        cases trouble <;> rfl
      rw [hsame]
      exact hraised
  refine holds_watch_await.mpr ⟨trivial, ?_⟩
  rintro (fault | _) next rfl
  · exact surfaces_of_exposed (by decide) rfl rfl
  · refine holds_watch_await.mpr ⟨trivial, ?_⟩
    rintro (fault | rows) fetched rfl
    · have hunmapped : Unmapped fault (Trouble.calm.next (.fetch read) (.error fault)) :=
        unmapped_of_covered (by decide) rfl rfl
      exact hoff hunmapped.queryError hunmapped.raw
    · refine holds_watch_await.mpr ⟨trivial, ?_⟩
      rintro (fault | _) switched rfl
      · exact surfaces_of_exposed (show Trouble.calm ≠ .raw by decide) rfl rfl
      · rfl

end Watching

end KSQLite.Connection
