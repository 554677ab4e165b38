import KSQLite.Connection.Statements
import Mathlib.Algebra.Order.Ring.Rat
import Mathlib.Tactic.Linarith
import Mathlib.Tactic.Positivity

/-!
# The transaction runner

`TransactionRunner.run` runs a work inside `BEGIN IMMEDIATE` and retries the whole attempt when
SQLite reports that it is busy. The connection is modelled beside others that commit while it is
in no transaction; a `Session` is its database with the copy an open transaction works on, and
keeps what happened: the readings of the clock, the faults, how often the work ran, and the state
that a commit replaced. Any of `BEGIN`, the work and the commit may fail with anything, after any
partial change of the copy; a rollback succeeds.

A run that returns leaves the outcome of one execution of the work on a state that others alone
have made, a run that raises leaves no effect, and both leave no transaction open
(`run_is_atomic`). The work runs at most three times, each time on a fresh transaction, only busy
faults are retried, and every backoff is positive and ends before the deadline.
-/

set_option autoImplicit false
set_option relaxedAutoImplicit false

namespace KSQLite.Connection

open KSQLite.Suspension

/-! ### The code -/

/-- `BUSY_RETRY_MAX_ATTEMPTS`. -/
def maxAttempts : ℕ := 3

/-- `BUSY_RETRY_DEADLINE_FACTOR`. -/
def deadlineFactor : ℚ := 2

/-- `_BUSY_BACKOFF_BASE_SECONDS`. -/
def backoffBase : ℚ := 1 / 100

section Code

variable {words : Vocabulary}

def now : Coroutine words ℚ := @Program.await (asks words) _ _ .clock .finish

def begin : Coroutine words Unit := @Program.await (asks words) _ _ .begin Program.ofExcept

def runWork (work : words.Work) : Coroutine words words.Value :=
  @Program.await (asks words) _ _ (.work work) Program.ofExcept

def commit : Coroutine words Unit := @Program.await (asks words) _ _ .commit Program.ofExcept

def rollback (place : Place) : Coroutine words Unit :=
  @Program.await (asks words) _ _ (.rollback place) Program.ofExcept

def inTransaction : Coroutine words Bool := @Program.await (asks words) _ _ .inTransaction .finish

def sleep (seconds : ℚ) : Coroutine words Unit :=
  @Program.await (asks words) _ _ (.sleep seconds) .finish

/-- One attempt: whatever is raised after `BEGIN` goes on after a rollback. -/
def tryOnce (work : words.Work) : Coroutine words words.Value := do
  begin
  (do
    let result ← runWork work
    commit
    return result).handle fun fault ↦ do
    rollback .attempt
    .raise fault

/-- What follows an attempt that failed busily: another attempt, within both bounds. -/
def backOff (busyTimeout deadline : ℚ) (attempt : ℕ) : Coroutine words (ℕ ⊕ words.Value) := do
  if ← inTransaction then rollback .retry
  let remaining := deadline - (← now)
  if maxAttempts ≤ attempt ∨ remaining ≤ 0 then
    .raise (.storage (.databaseBusy attempt busyTimeout))
  else do
    sleep (min (backoffBase * attempt) remaining)
    return .inl (attempt + 1)

/-- What follows an attempt that failed. -/
def handleFault (busyTimeout deadline : ℚ) (attempt : ℕ) :
    Fault words.Exception → Coroutine words (ℕ ⊕ words.Value)
  | .operational message =>
    if isBusyError message then backOff busyTimeout deadline attempt
    else .raise (.storage (.transactionFailed message))
  | .sqlite message => .raise (.storage (.transactionFailed message))
  | fault => .raise fault

/-- One round of the loop. -/
def round (busyTimeout deadline : ℚ) (work : words.Work) (attempt : ℕ) :
    Coroutine words (ℕ ⊕ words.Value) :=
  (do
    let result ← tryOnce work
    return Sum.inr result : Coroutine words (ℕ ⊕ words.Value)).handle
    (handleFault busyTimeout deadline attempt)

/-- `TransactionRunner.run`. -/
def run (busyTimeout : ℚ) (fuel : ℕ) (work : words.Work) : Coroutine words words.Value := do
  let started ← now
  Program.iterate fuel (fun _ ↦ none)
    (round busyTimeout (started + busyTimeout * deadlineFactor) work) 1

end Code

/-! ### The connection -/

/-- A connection with its database, and what happened on it. -/
structure Session (words : Vocabulary) (Content : Type) where
  database : Content
  /-- The copy that an open transaction works on. -/
  transaction : Option Content
  readings : List ℚ
  faults : List (Fault words.Exception)
  executions : ℕ
  /-- The state that the commit of this connection replaced. -/
  replaced : Option Content

/-- The works and the others: which value and which state an execution of a work may leave, and how
a commit of another connection may change the database. -/
structure Surroundings (words : Vocabulary) (Content : Type) where
  executes : words.Work → Content → words.Value → Content → Prop
  others : Content → Content → Prop

namespace Session

variable {words : Vocabulary} {Content : Type}

/-- No transaction is open, and nothing happened yet. -/
def fresh (database : Content) : Session words Content := ⟨database, none, [], [], 0, none⟩

/-- Other connections commit. They cannot while this one holds the write lock. -/
def Drifts (surroundings : Surroundings words Content) (session next : Session words Content) :
    Prop :=
  ∃ database, next = { session with database := database } ∧
    Relation.ReflTransGen surroundings.others session.database database ∧
    (session.transaction.isSome → database = session.database)

/-- How a request may be answered. -/
def answers (surroundings : Surroundings words Content) (session : Session words Content) :
    (ask : Ask words) → ask.Reply → Session words Content → Prop
  | .clock, reading, next =>
    (∀ earlier ∈ session.readings.getLast?, earlier ≤ reading) ∧
      next = { session with readings := session.readings ++ [reading] }
  | .begin, .ok _, next =>
    session.transaction = none ∧ next = { session with transaction := some session.database }
  | .begin, .error fault, next => next = { session with faults := session.faults ++ [fault] }
  | .work work, .ok value, next => ∃ base copy, session.transaction = some base ∧
    surroundings.executes work base value copy ∧
    next = { session with transaction := some copy, executions := session.executions + 1 }
  -- A failed work may have changed anything, and SQLite may have rolled it back already.
  | .work _, .error fault, next => ∃ left, next = { session with
    transaction := left
    faults := session.faults ++ [fault]
    executions := session.executions + 1 }
  | .commit, .ok _, next => ∃ copy, session.transaction = some copy ∧
    next = { session with
      database := copy
      transaction := none
      replaced := some session.database }
  | .commit, .error fault, next => next = { session with faults := session.faults ++ [fault] }
  | .rollback _, .ok _, next => next = { session with transaction := none }
  | .rollback _, .error _, _ => False
  | .inTransaction, isOpen, next => isOpen = session.transaction.isSome ∧ next = session
  | _, _, next => next = session

theorem Drifts.refl (surroundings : Surroundings words Content)
    (session : Session words Content) : Drifts surroundings session session :=
  ⟨session.database, rfl, .refl, fun _ ↦ rfl⟩

theorem Drifts.trans {surroundings : Surroundings words Content}
    {first second third : Session words Content} (hfirst : Drifts surroundings first second)
    (hsecond : Drifts surroundings second third) : Drifts surroundings first third := by
  obtain ⟨middle, rfl, hmiddle, hfirstLock⟩ := hfirst
  obtain ⟨last, rfl, hlast, hsecondLock⟩ := hsecond
  exact ⟨last, rfl, hmiddle.trans hlast, fun hopen ↦ (hsecondLock hopen).trans (hfirstLock hopen)⟩

end Session

/-- A connection among others. -/
def environment {words : Vocabulary} {Content : Type} (surroundings : Surroundings words Content) :
    Environment (asks words) (Session words Content) where
  interferes _ := Session.Drifts surroundings
  answers session ask reply next := session.answers surroundings ask reply next
  interferes_refl _ := Session.Drifts.refl surroundings
  interferes_trans := Session.Drifts.trans

/-! ### What a run does -/

section Spec

variable {words : Vocabulary} {Content : Type} {surroundings : Surroundings words Content}
  {work : words.Work}
  {origin : Content} {session : Session words Content} {busyTimeout started : ℚ}

/-- What holds while a request is pending: a transaction is begun where none is open and every
fault so far was busy, the work runs on a fresh transaction and for the third time at most, and a
backoff is positive and ends before the deadline. -/
def Moment (busyTimeout : ℚ) : Ask words → Session words Content → Prop
  | .begin, session => session.transaction = none ∧ ∀ fault ∈ session.faults, fault.IsBusy
  | .work _, session => session.transaction = some session.database ∧
    session.executions < maxAttempts
  | .sleep seconds, session => ∃ first ∈ session.readings.head?, ∃ last ∈ session.readings.getLast?,
    0 < seconds ∧ seconds ≤ first + busyTimeout * deadlineFactor - last
  | _, _ => True

/-- How a run ends: with the outcome of one execution of the work on the state that its commit
replaced, which others alone have made, or without any effect. No transaction is open. -/
def Atomic (surroundings : Surroundings words Content) (work : words.Work) (origin : Content) :
    Outcome (Fault words.Exception) words.Value → Session words Content → Prop
  | .returned value, final => final.transaction = none ∧
    ∃ base, final.replaced = some base ∧
      Relation.ReflTransGen surroundings.others origin base ∧
      surroundings.executes work base value final.database
  | .raised _, final => final.transaction = none ∧ final.replaced = none ∧
    Relation.ReflTransGen surroundings.others origin final.database
  | .exhausted, _ => False

/-- Before an attempt. -/
structure Before (surroundings : Surroundings words Content) (origin : Content) (started : ℚ)
    (attempt : ℕ) (session : Session words Content) : Prop where
  closed : session.transaction = none
  uncommitted : session.replaced = none
  others : Relation.ReflTransGen surroundings.others origin session.database
  busy : ∀ fault ∈ session.faults, fault.IsBusy
  executions : session.executions < attempt
  started : session.readings.head? = some started

/-- After an attempt. -/
def After (surroundings : Surroundings words Content) (work : words.Work) (origin : Content)
    (started : ℚ) (attempt : ℕ) : Outcome (Fault words.Exception) words.Value →
      Session words Content → Prop
  | .raised fault, session => (fault.IsBusy →
      Before surroundings origin started (attempt + 1) session) ∧
    session.transaction = none ∧ session.replaced = none ∧
    Relation.ReflTransGen surroundings.others origin session.database
  | outcome, session => Atomic surroundings work origin outcome session

/-- While no transaction is open, others may commit. -/
theorem Before.drift {attempt : ℕ} {next : Session words Content}
    (hbefore : Before surroundings origin started attempt session)
    (hdrifts : Session.Drifts surroundings session next) :
    Before surroundings origin started attempt next := by
  obtain ⟨database, rfl, hothers, _⟩ := hdrifts
  exact ⟨hbefore.closed, hbefore.uncommitted, hbefore.others.trans hothers, hbefore.busy,
    hbefore.executions, hbefore.started⟩

/-- A drift while a transaction is open changes nothing. -/
theorem eq_of_drifts {next : Session words Content}
    (hdrifts : Session.Drifts surroundings session next) (hopen : session.transaction.isSome) :
    next = session := by
  obtain ⟨database, rfl, _, hlock⟩ := hdrifts
  rw [hlock hopen]

/-- What is raised after `BEGIN` goes on after a rollback. -/
theorem holds_rollback_raise {attempt : ℕ} {fault : Fault words.Exception}
    (huncommitted : session.replaced = none)
    (hothers : Relation.ReflTransGen surroundings.others origin session.database)
    (hfaults : ∀ earlier ∈ session.faults, earlier = fault ∨ earlier.IsBusy)
    (hexecutions : session.executions ≤ attempt)
    (hstarted : session.readings.head? = some started) :
    Holds (environment surroundings) (Moment busyTimeout)
      (After surroundings work origin started attempt) (do
        rollback .attempt
        (.raise fault : Coroutine words words.Value)) session := by
  rintro between ⟨database, rfl, hdrift, _⟩
  refine ⟨trivial, ?_⟩
  rintro (_ | ⟨⟩) next hrolledBack
  · exact hrolledBack.elim
  obtain rfl := hrolledBack
  refine ⟨fun hbusy ↦ ?_, rfl, huncommitted, hothers.trans hdrift⟩
  refine ⟨rfl, huncommitted, hothers.trans hdrift, fun earlier hearlier ↦ ?_,
    Nat.lt_succ_of_le hexecutions,
    hstarted⟩
  rcases hfaults earlier hearlier with rfl | hold
  · exact hbusy
  · exact hold

/-- One attempt. -/
theorem holds_tryOnce {attempt : ℕ} (hattempt : attempt ≤ maxAttempts)
    (hbefore : Before surroundings origin started attempt session) :
    Holds (environment surroundings) (Moment busyTimeout)
      (After surroundings work origin started attempt) (tryOnce work) session := by
  intro between hbetween
  have hready := hbefore.drift hbetween
  refine ⟨⟨hready.closed, hready.busy⟩, ?_⟩
  rintro (fault | _) begun hbegun
  · obtain rfl := hbegun
    refine ⟨fun hbusy ↦ ?_, hready.closed, hready.uncommitted, hready.others⟩
    refine ⟨hready.closed, hready.uncommitted, hready.others, fun earlier hearlier ↦ ?_,
      Nat.lt_succ_of_lt hready.executions, hready.started⟩
    rcases List.mem_append.mp hearlier with hold | hnew
    · exact hready.busy earlier hold
    · rwa [List.mem_singleton.mp hnew]
  · obtain ⟨_, rfl⟩ := hbegun
    -- The work, on the copy that BEGIN took.
    intro working hworking
    obtain rfl := eq_of_drifts hworking rfl
    refine ⟨⟨rfl, lt_of_lt_of_le hready.executions hattempt⟩, ?_⟩
    rintro (fault | value) worked hworked
    · obtain ⟨left, rfl⟩ := hworked
      refine holds_rollback_raise hready.uncommitted hready.others (fun earlier hearlier ↦ ?_)
        hready.executions hready.started
      rcases List.mem_append.mp hearlier with hold | hnew
      · exact Or.inr (hready.busy earlier hold)
      · exact Or.inl (List.mem_singleton.mp hnew)
    · obtain ⟨base, copy, hbase, hexecutes, rfl⟩ := hworked
      obtain rfl := Option.some.inj hbase
      -- The commit.
      intro committing hcommitting
      obtain rfl := eq_of_drifts hcommitting rfl
      refine ⟨trivial, ?_⟩
      rintro (fault | _) committed hcommitted
      · obtain rfl := hcommitted
        refine holds_rollback_raise hready.uncommitted hready.others (fun earlier hearlier ↦ ?_)
          hready.executions hready.started
        rcases List.mem_append.mp hearlier with hold | hnew
        · exact Or.inr (hready.busy earlier hold)
        · exact Or.inl (List.mem_singleton.mp hnew)
      · obtain ⟨last, hlast, rfl⟩ := hcommitted
        obtain rfl := Option.some.inj hlast
        exact ⟨rfl, _, rfl, hready.others, hexecutes⟩

/-- How a round ends that is the given attempt. -/
abbrev RoundEnds (surroundings : Surroundings words Content) (work : words.Work) (origin : Content)
    (started : ℚ) (attempt : ℕ) : Outcome (Fault words.Exception) (ℕ ⊕ words.Value) →
      Session words Content → Prop :=
  AfterRound (fun next session ↦ next = attempt + 1 ∧ next ≤ maxAttempts ∧
    Before surroundings origin started next session) (Atomic surroundings work origin)

/-- After a busy attempt: the run ends, or it backs off and tries again. -/
theorem holds_backOff {attempt : ℕ} (hpositive : 0 < attempt)
    (hbefore : Before surroundings origin started (attempt + 1) session) :
    Holds (environment surroundings) (Moment busyTimeout)
      (RoundEnds surroundings work origin started attempt)
      (backOff busyTimeout (started + busyTimeout * deadlineFactor) attempt) session := by
  intro looking hlooking
  have hlooked := hbefore.drift hlooking
  refine ⟨trivial, ?_⟩
  rintro isOpen next ⟨hopen, rfl⟩
  rw [hlooked.closed] at hopen
  subst hopen
  -- The transaction is closed, so the clock is next.
  intro reading hreading
  have hread := hlooked.drift hreading
  refine ⟨trivial, ?_⟩
  rintro moment next ⟨_, rfl⟩
  change Holds _ _ _ (if maxAttempts ≤ attempt ∨ _ then _ else _) _
  split_ifs with hbound
  · exact ⟨hread.closed, hread.uncommitted, hread.others⟩
  · obtain ⟨hattempt, hremaining⟩ := not_or.mp hbound
    have hleft := not_le.mp hremaining
    have hhead : (reading.readings ++ [moment]).head? = some started := by
      rw [List.head?_append, hread.started]
      rfl
    have hafter : Before surroundings origin started (attempt + 1)
        { reading with readings := reading.readings ++ [moment] } :=
      ⟨hread.closed, hread.uncommitted, hread.others, hread.busy, hread.executions, hhead⟩
    intro sleeping hsleeping
    have hslept := hafter.drift hsleeping
    obtain ⟨database, rfl, _, _⟩ := hsleeping
    constructor
    · refine ⟨started, hhead, moment, by simp, lt_min ?_ hleft, min_le_right _ _⟩
      have hcast : (0 : ℚ) < attempt := by exact_mod_cast hpositive
      unfold backoffBase
      positivity
    · rintro ⟨⟩ next rfl
      exact ⟨rfl, not_le.mp hattempt, hslept⟩

/-- What follows an attempt that failed. -/
theorem holds_handleFault {attempt : ℕ} (hpositive : 0 < attempt) {fault : Fault words.Exception}
    (hafter : After surroundings work origin started attempt (.raised fault) session) :
    Holds (environment surroundings) (Moment busyTimeout)
      (RoundEnds surroundings work origin started attempt)
      (handleFault busyTimeout (started + busyTimeout * deadlineFactor) attempt fault) session := by
  obtain ⟨hbusy, hended⟩ := hafter
  cases fault with
  | operational message =>
    change Holds _ _ _ (if isBusyError message = true then _ else _) _
    split_ifs with hmessage
    · exact holds_backOff hpositive (hbusy hmessage)
    · exact hended
  | _ => exact hended

/-- One round of the loop. -/
theorem holds_round {attempt : ℕ} (hpositive : 0 < attempt) (hattempt : attempt ≤ maxAttempts)
    (hbefore : Before surroundings origin started attempt session) :
    Holds (environment surroundings) (Moment busyTimeout)
      (RoundEnds surroundings work origin started attempt)
      (round busyTimeout (started + busyTimeout * deadlineFactor) work attempt) session := by
  refine holds_handle.mpr ((holds_tryOnce hattempt hbefore).bind ?_ ?_ ?_)
  · exact fun value final hreturned ↦ hreturned
  · exact fun fault final hraised ↦ holds_handleFault hpositive hraised
  · exact fun _ hfalse ↦ hfalse

/-- A run of the runner is one execution of the work in one transaction, or nothing. It ends after
three rounds at most. -/
theorem run_is_atomic {fuel : ℕ} (hfuel : maxAttempts ≤ fuel) :
    Holds (environment surroundings) (Moment busyTimeout) (Atomic surroundings work origin)
      (run busyTimeout fuel work) (Session.fresh origin) := by
  rintro between ⟨database, rfl, hothers, _⟩
  refine ⟨trivial, ?_⟩
  rintro started next ⟨_, rfl⟩
  refine holds_iterate (fun fuel attempt session ↦ 0 < attempt ∧ attempt ≤ maxAttempts ∧
    maxAttempts < attempt + fuel ∧ Before surroundings origin started attempt session) ?_ ?_ ?_ ?_
  · exact fun _ _ _ _ _ hguard ↦ by cases hguard
  · rintro fuel attempt session ⟨hpositive, hattempt, hleft, hbefore⟩ _
    refine (holds_round hpositive hattempt hbefore).mono (fun _ _ hmoment ↦ hmoment) ?_
    rintro ((next | value) | error | _) final hround
    · obtain ⟨rfl, hnext, hready⟩ := hround
      exact ⟨Nat.succ_pos attempt, hnext, by omega, hready⟩
    · exact hround
    · exact hround
    · exact hround
  · rintro attempt session ⟨_, hattempt, hleft, _⟩ _
    exact absurd hattempt (not_le.mpr hleft)
  · refine ⟨Nat.one_pos, by decide, by omega, rfl, rfl, hothers, ?_, Nat.one_pos, rfl⟩
    exact fun fault hfault ↦ absurd hfault List.not_mem_nil

end Spec

/-- A counter: the work returns its value and raises it by one, and others raise it by ten. -/
def counting : Surroundings ⟨Unit, Unit, ℕ, Unit, fun _ ↦ Unit⟩ ℕ where
  executes _ base value copy := value = base ∧ copy = base + 1
  others before after := after = before + 10

theorem run_is_atomic_sample : Holds (environment counting) (Moment 5) (Atomic counting () 0)
    (run 5 3 ()) (Session.fresh 0) :=
  run_is_atomic (by decide)

end KSQLite.Connection
