import KSQLite.Connection.Checkout
import KSQLite.Suspension.Pool
import Mathlib.Data.List.Basic
import Mathlib.Logic.Function.Basic

/-!
# Callers on the connections of one database

The pool hands its connections to callers, and the callers share one database. A `Handle` is a
connection as the pool keeps it: the copy its open transaction works on, if one is open, and its
`query_only` switch; both outlive the caller that set them. A `Server` is the database with its
handles, the connection that has the write lock, and the commits so far.

`Answers` is what SQLite does with a call of one caller. `BEGIN IMMEDIATE` takes the write lock,
or succeeds without it, as the runner has seen it do; then the work fails at its first write.
Without `query_only`, or while a transaction is open, a statement may commit what it likes. Every
call may fail, and so may a rollback. Between calls an idle connection may be left in any state.

`Traffic` is any number of callers at any stage of their jobs, and `Traffic.Run` any interleaving
of their calls. `Relies` is what one caller sees the others do, and `Step.relies` says that they do
no more.
-/

set_option autoImplicit false
set_option relaxedAutoImplicit false

namespace KSQLite.Connection

open KSQLite.Suspension

/-! ### The database -/

/-- What the works and the statements of the callers do. -/
structure Engine (words : Vocabulary) (Content : Type) where
  /-- A work that completes on a state, with the value it returns and the state it leaves. -/
  executes : words.Work → Content → words.Value → Content → Prop
  /-- The rows a statement returns on a state. -/
  reads : (read : words.Read) → Content → words.Rows read → Prop
  /-- A statement that only reads. -/
  selects : words.Read → Prop

/-- A connection. -/
structure Handle (Content : Type) where
  transaction : Option Content
  queryOnly : Bool

/-- A commit: the caller whose call it was, and the state it left. -/
structure Commit (Content : Type) where
  caller : ℕ
  after : Content

/-- The state after the first commits. -/
def stateAt {Content : Type} (origin : Content) (commits : List (Commit Content)) (count : ℕ) :
    Content :=
  (origin :: commits.map Commit.after).getD count origin

/-- The database with its connections. -/
structure Server (Content : Type) where
  database : Content
  handles : ℕ → Handle Content
  /-- The connection that has the write lock. -/
  holder : Option ℕ
  /-- The connection each caller has. -/
  connection : ℕ → Option ℕ
  commits : List (Commit Content)

namespace Server

variable {Content : Type}

/-- A connection that no caller has. -/
def IsFree (server : Server Content) (place : ℕ) : Prop :=
  ∀ caller, server.connection caller ≠ some place

/-- The server with another state of a connection. -/
def put (server : Server Content) (place : ℕ) (handle : Handle Content) : Server Content :=
  { server with handles := Function.update server.handles place handle }

/-- The server with another connection of a caller. -/
def lend (server : Server Content) (caller : ℕ) (place : Option ℕ) : Server Content :=
  { server with connection := Function.update server.connection caller place }

/-- The server where a connection has let the write lock go. -/
def unlock (server : Server Content) (place : ℕ) : Server Content :=
  { server with holder := if server.holder = some place then none else server.holder }

/-- The server after a commit of a caller. -/
def commitAs (server : Server Content) (caller : ℕ) (after : Content) : Server Content :=
  { server with database := after, commits := server.commits ++ [⟨caller, after⟩] }

theorem lend_self (server : Server Content) (caller : ℕ) (place : Option ℕ) :
    (server.lend caller place).connection caller = place := by
  simp [lend]

theorem lend_other (server : Server Content) {caller other : ℕ} (place : Option ℕ)
    (hother : other ≠ caller) :
    (server.lend caller place).connection other = server.connection other := by
  simp [lend, hother]

theorem put_self (server : Server Content) (place : ℕ) (handle : Handle Content) :
    (server.put place handle).handles place = handle := by
  simp [put]

theorem put_other (server : Server Content) {place elsewhere : ℕ} (handle : Handle Content)
    (helsewhere : elsewhere ≠ place) :
    (server.put place handle).handles elsewhere = server.handles elsewhere := by
  simp [put, helsewhere]

/-- No two callers have one connection, and the database is the state after the commits. -/
structure Sound (origin : Content) (server : Server Content) : Prop where
  apart : ∀ first second place, server.connection first = some place →
    server.connection second = some place → first = second
  database : server.database = stateAt origin server.commits server.commits.length

end Server

/-! ### The calls -/

section Calls

variable {words : Vocabulary} {Content : Type}

/-- What one connection may do to the write lock. -/
def Locks (place : ℕ) (before after : Option ℕ) : Prop :=
  after = before ∨ before = none ∧ after = some place ∨ before = some place ∧ after = none

/-- What a statement does that returns rows. It may open a transaction, end the one that is open,
or throw the switch. Without `query_only` one that does not only read may commit, and so may any
while a transaction is open. -/
inductive Fetches (engine : Engine words Content) (caller place : ℕ) (read : words.Read)
    (server : Server Content) : Server Content → Prop
  | quiet {handle holder} : Locks place server.holder holder →
      Fetches engine caller place read server { server.put place handle with holder := holder }
  | loud {handle after} : server.holder = none ∨ server.holder = some place →
      (server.handles place).transaction.isSome ∨
        (server.handles place).queryOnly = false ∧ ¬ engine.selects read →
      Fetches engine caller place read server
        { (server.put place handle).commitAs caller after with holder := none }

/-- The calls on a connection of a caller. -/
def Answered (engine : Engine words Content) (caller place : ℕ) (server : Server Content) :
    (ask : Ask words) → ask.Reply → Server Content → Prop
  | .inTransaction, isOpen, next =>
    isOpen = (server.handles place).transaction.isSome ∧ next = server
  | .rollback _, .ok _, next =>
    next = (server.put place { server.handles place with transaction := none }).unlock place
  | .rollback _, .error _, next => next = server
  | .resetQueryOnly _, .ok _, next =>
    next = server.put place { server.handles place with queryOnly := false }
  | .resetQueryOnly _, .error _, next => next = server
  | .setQueryOnly isOn, .ok _, next =>
    next = server.put place { server.handles place with queryOnly := isOn }
  | .setQueryOnly _, .error _, next => next = server
  | .begin, .ok _, next => (server.handles place).transaction = none ∧
    let opened := server.put place { server.handles place with transaction := some server.database }
    next = opened ∨ server.holder = none ∧ next = { opened with holder := some place }
  | .begin, .error _, next => next = server
  | .work work, .ok value, next => ∃ base copy,
    (server.handles place).transaction = some base ∧ engine.executes work base value copy ∧
      (copy ≠ base → server.holder = some place ∧ (server.handles place).queryOnly = false) ∧
      next = server.put place { server.handles place with transaction := some copy }
  | .work _, .error _, next => ∃ left,
    next = server.put place { server.handles place with transaction := some left } ∨
      next = (server.put place { server.handles place with transaction := none }).unlock place
  | .commit, .ok _, next => ∃ copy, (server.handles place).transaction = some copy ∧
    let closed := server.put place { server.handles place with transaction := none }
    (server.holder = some place ∧ next = (closed.commitAs caller copy).unlock place ∨
      server.holder ≠ some place ∧ next = closed)
  | .commit, .error _, next => next = server ∨
    next = (server.put place { server.handles place with transaction := none }).unlock place
  | .fetch read, .ok rows, next =>
    engine.reads read ((server.handles place).transaction.getD server.database) rows ∧
      Fetches engine caller place read server next
  | .fetch read, .error _, next => Fetches engine caller place read server next
  | _, _, next => next = server

/-- What SQLite and the pool do with a call of a caller. -/
def Answers (engine : Engine words Content) (caller : ℕ) (server : Server Content)
    (ask : Ask words) (reply : ask.Reply) (next : Server Content) : Prop :=
  match ask, reply with
  | .acquire _, .ok _ => server.connection caller = none ∧ ∃ place, server.IsFree place ∧
    next = server.lend caller (some place)
  | .acquire _, .error _ | .clock, _ | .sleep _, _ => next = server
  | ask, reply => ∃ place, server.connection caller = some place ∧
    Answered engine caller place server ask reply next

/-- The calls of one caller. -/
def calls (engine : Engine words Content) (caller : ℕ) : Environment (asks words)
    (Server Content) where
  interferes _ := Eq
  answers := Answers engine caller
  interferes_refl _ _ := rfl
  interferes_trans := Eq.trans

end Calls

/-! ### The callers -/

section Callers

variable {words : Vocabulary} {Content : Type}

/-- What a caller has a connection for. -/
inductive Job (words : Vocabulary)
  | transact (work : words.Work)
  | readOn (read : words.Read)
  | query (read : words.Read)

/-- What a job returns. -/
abbrev Job.Result : Job words → Type
  | .transact _ => words.Value
  | .readOn read | .query read => words.Rows read

/-- The coroutine of a job. -/
def Job.program (busyTimeout : ℚ) (fuel : ℕ) : (job : Job words) → Coroutine words job.Result
  | .transact work => Connection.transact busyTimeout fuel work
  | .readOn read => Connection.readOn read
  | .query read => Connection.query read

/-- A job that the code has: its own statements only read. -/
def Job.IsLegal (engine : Engine words Content) : Job words → Prop
  | .readOn read => engine.selects read
  | _ => True

/-- What a job does as one step: from a state, with a result, to a state. -/
def Job.Does (engine : Engine words Content) : (job : Job words) → Content → job.Result →
    Content → Prop
  | .transact work, before, value, after => engine.executes work before value after
  | .readOn read, before, rows, after | .query read, before, rows, after =>
    engine.reads read before rows ∧ after = before

/-- A caller: its job, the number of commits when it came, and what is left of its coroutine. -/
structure Caller (words : Vocabulary) where
  job : Job words
  since : ℕ
  rest : Coroutine words job.Result

/-- The callers on a server. -/
structure Traffic (words : Vocabulary) (Content : Type) where
  server : Server Content
  callers : List (Caller words)

namespace Traffic

/-- Before the first caller: the connections are in any state. -/
def opened (origin : Content) (handles : ℕ → Handle Content) (holder : Option ℕ) :
    Traffic words Content :=
  ⟨⟨origin, handles, holder, fun _ ↦ none, []⟩, []⟩

/-- One event: a caller comes, a call of one is answered, one that is done gives its connection
back, or something happens to an idle connection. -/
inductive Step (engine : Engine words Content) (busyTimeout : ℚ) (fuel : ℕ) :
    Traffic words Content → Traffic words Content → Prop
  | come {traffic job} : job.IsLegal engine →
      Step engine busyTimeout fuel traffic ⟨traffic.server, traffic.callers ++
        [⟨job, traffic.server.commits.length, job.program busyTimeout fuel⟩]⟩
  | call {traffic index job since ask resume reply next} :
      (traffic.callers)[index]? = some ⟨job, since, .await ask resume⟩ →
      Answers engine index traffic.server ask reply next →
      Step engine busyTimeout fuel traffic
        ⟨next, traffic.callers.set index ⟨job, since, resume reply⟩⟩
  | leave {traffic index caller} : (traffic.callers)[index]? = some caller →
      caller.rest.pending = none →
      Step engine busyTimeout fuel traffic ⟨traffic.server.lend index none, traffic.callers⟩
  | idle {traffic place handle holder} : traffic.server.IsFree place →
      Locks place traffic.server.holder holder →
      Step engine busyTimeout fuel traffic
        ⟨{ traffic.server.put place handle with holder := holder }, traffic.callers⟩

/-- Any interleaving. -/
abbrev Run (engine : Engine words Content) (busyTimeout : ℚ) (fuel : ℕ) :
    Traffic words Content → Traffic words Content → Prop :=
  Relation.ReflTransGen (Step engine busyTimeout fuel)

end Traffic

end Callers

/-! ### What others do -/

section Others

variable {words : Vocabulary} {Content : Type} {engine : Engine words Content} {origin : Content}
  {caller other place : ℕ} {server next : Server Content}

/-- What one caller sees the others do: its connection stays as it is, nobody commits while it has
the write lock, and no commit is in its name. -/
structure Relies (origin : Content) (caller : ℕ) (before after : Server Content) : Prop where
  connection : after.connection caller = before.connection caller
  handle : ∀ place, before.connection caller = some place →
    after.handles place = before.handles place
  lock : ∀ place, before.connection caller = some place →
    (after.holder = some place ↔ before.holder = some place)
  commits : ∃ added, after.commits = before.commits ++ added ∧
    ∀ commit ∈ added, commit.caller ≠ caller
  locked : ∀ place, before.connection caller = some place → before.holder = some place →
    after.commits = before.commits
  sound : before.Sound origin → after.Sound origin

theorem Relies.refl (origin : Content) (caller : ℕ) (server : Server Content) :
    Relies origin caller server server :=
  ⟨rfl, fun _ _ ↦ rfl, fun _ _ ↦ Iff.rfl, ⟨[], by simp⟩, fun _ _ _ ↦ rfl, id⟩

theorem Relies.trans {first second third : Server Content}
    (hfirst : Relies origin caller first second) (hsecond : Relies origin caller second third) :
    Relies origin caller first third := by
  have hconnection {place : ℕ} (hplace : first.connection caller = some place) :
      second.connection caller = some place := hfirst.connection.trans hplace
  constructor
  · exact hsecond.connection.trans hfirst.connection
  · intro place hplace
    exact (hsecond.handle place (hconnection hplace)).trans (hfirst.handle place hplace)
  · intro place hplace
    exact (hsecond.lock place (hconnection hplace)).trans (hfirst.lock place hplace)
  · obtain ⟨early, hearly, hothers⟩ := hfirst.commits
    obtain ⟨late, hlate, hmore⟩ := hsecond.commits
    refine ⟨early ++ late, by rw [hlate, hearly, List.append_assoc], fun commit hcommit ↦ ?_⟩
    rcases List.mem_append.mp hcommit with hmem | hmem
    · exact hothers commit hmem
    · exact hmore commit hmem
  · intro place hplace hholder
    have hheld := (hfirst.lock place hplace).mpr hholder
    exact (hsecond.locked place (hconnection hplace) hheld).trans
      (hfirst.locked place hplace hholder)
  · exact fun hsound ↦ hsecond.sound (hfirst.sound hsound)

/-- One caller beside the others. -/
abbrev beside (engine : Engine words Content) (origin : Content) (caller : ℕ) :
    Environment (asks words) (Server Content) :=
  shared (calls engine caller) (Relies origin caller) (Relies.refl origin caller) Relies.trans

/-- What one connection does: the others stay as they are, and it commits, in the name of its
caller, only where no other has the write lock. -/
structure Local (caller place : ℕ) (before after : Server Content) : Prop where
  connection : after.connection = before.connection
  handles : ∀ elsewhere, elsewhere ≠ place → after.handles elsewhere = before.handles elsewhere
  lock : Locks place before.holder after.holder
  commits : after.database = before.database ∧ after.commits = before.commits ∨
    (before.holder = none ∨ before.holder = some place) ∧
      after.commits = before.commits ++ [⟨caller, after.database⟩]

theorem locks_unlock (server : Server Content) (place : ℕ) :
    Locks place server.holder (server.unlock place).holder := by
  unfold Server.unlock
  by_cases hholder : server.holder = some place
  · exact Or.inr (Or.inr ⟨hholder, if_pos hholder⟩)
  · exact Or.inl (if_neg hholder)

/-- Another state of the connection. -/
theorem local_put (server : Server Content) (caller place : ℕ) (handle : Handle Content)
    {holder : Option ℕ} (hholder : Locks place server.holder holder) :
    Local caller place server { server.put place handle with holder := holder } :=
  ⟨rfl, fun _ helsewhere ↦ server.put_other handle helsewhere, hholder, Or.inl ⟨rfl, rfl⟩⟩

/-- The connection's transaction ends. -/
theorem local_unlock (server : Server Content) (caller place : ℕ) (handle : Handle Content) :
    Local caller place server ((server.put place handle).unlock place) :=
  local_put server caller place handle (locks_unlock (server.put place handle) place)

theorem local_refl (server : Server Content) (caller place : ℕ) :
    Local caller place server server :=
  ⟨rfl, fun _ _ ↦ rfl, Or.inl rfl, Or.inl ⟨rfl, rfl⟩⟩

/-- A call on a connection is local to it. -/
theorem local_of_answered {ask : Ask words} {reply : ask.Reply}
    (hanswered : Answered engine caller place server ask reply next) :
    Local caller place server next := by
  have hfetches {read : words.Read} (hfetches : Fetches engine caller place read server next) :
      Local caller place server next := by
    cases hfetches with
    | quiet hlocks => exact local_put server caller place _ hlocks
    | loud hfree _ =>
      refine ⟨rfl, fun _ helsewhere ↦ server.put_other _ helsewhere, ?_, Or.inr ⟨hfree, rfl⟩⟩
      rcases hfree with hnone | hmine
      · exact Or.inl hnone.symm
      · exact Or.inr (Or.inr ⟨hmine, rfl⟩)
  cases ask with
  | inTransaction =>
    obtain ⟨_, rfl⟩ := hanswered
    exact local_refl next caller place
  | rollback _ | resetQueryOnly _ | setQueryOnly _ =>
    cases reply with
    | error fault =>
      obtain rfl := hanswered
      exact local_refl next caller place
    | ok value =>
      obtain rfl := hanswered
      first
        | exact local_unlock server caller place _
        | exact local_put server caller place _ (Or.inl rfl)
  | begin =>
    cases reply with
    | error fault =>
      obtain rfl := hanswered
      exact local_refl next caller place
    | ok value =>
      obtain ⟨_, rfl | ⟨hnone, rfl⟩⟩ := hanswered
      · exact local_put server caller place _ (Or.inl rfl)
      · exact local_put server caller place _ (Or.inr (Or.inl ⟨hnone, rfl⟩))
  | work work =>
    cases reply with
    | error fault =>
      obtain ⟨left, rfl | rfl⟩ := hanswered
      · exact local_put server caller place _ (Or.inl rfl)
      · exact local_unlock server caller place _
    | ok value =>
      obtain ⟨base, copy, _, _, _, rfl⟩ := hanswered
      exact local_put server caller place _ (Or.inl rfl)
  | commit =>
    cases reply with
    | error fault =>
      obtain rfl | rfl := hanswered
      · exact local_refl next caller place
      · exact local_unlock server caller place _
    | ok value =>
      obtain ⟨copy, _, ⟨hholder, rfl⟩ | ⟨_, rfl⟩⟩ := hanswered
      · exact ⟨rfl, fun _ helsewhere ↦ server.put_other _ helsewhere,
          locks_unlock server place, Or.inr ⟨Or.inr hholder, rfl⟩⟩
      · exact local_put server caller place _ (Or.inl rfl)
  | fetch read =>
    cases reply with
    | error fault => exact hfetches hanswered
    | ok rows => exact hfetches hanswered.2
  | acquire _ | clock | sleep _ =>
    obtain rfl := hanswered
    exact local_refl next caller place

theorem stateAt_append {commits added : List (Commit Content)} {count : ℕ}
    (hcount : count ≤ commits.length) :
    stateAt origin (commits ++ added) count = stateAt origin commits count := by
  unfold stateAt
  rw [List.map_append, ← List.cons_append, List.getD_eq_getElem?_getD, List.getD_eq_getElem?_getD,
    List.getElem?_append_left (by simpa using Nat.lt_succ_of_le hcount)]

/-- The state that a commit left. -/
theorem stateAt_commit {commits : List (Commit Content)} {commit : Commit Content} {count : ℕ}
    (hcommit : (commits)[count]? = some commit) :
    stateAt origin commits (count + 1) = commit.after := by
  unfold stateAt
  rw [List.getD_cons_succ, List.getD_eq_getElem?_getD, List.getElem?_map, hcommit]
  rfl

/-- What is local keeps the server sound. -/
theorem Local.sound (hlocal : Local caller place server next) (hsound : server.Sound origin) :
    next.Sound origin := by
  constructor
  · rw [hlocal.connection]
    exact hsound.apart
  · rcases hlocal.commits with ⟨hdatabase, hcommits⟩ | ⟨_, hcommits⟩
    · rw [hdatabase, hcommits]
      exact hsound.database
    · have hlast : (next.commits)[server.commits.length]? = some ⟨caller, next.database⟩ := by
        rw [hcommits]
        simp
      have hlength : next.commits.length = server.commits.length + 1 := by
        rw [hcommits]
        simp
      rw [hlength]
      exact (stateAt_commit hlast).symm

/-- What is local to the connection of one caller is what the others rely on. -/
theorem Local.relies (hlocal : Local caller place server next)
    (hplace : ∀ elsewhere, server.connection other = some elsewhere → elsewhere ≠ place)
    (hother : other ≠ caller) : Relies origin other server next := by
  constructor
  · rw [hlocal.connection]
  · exact fun elsewhere hmine ↦ hlocal.handles elsewhere (hplace elsewhere hmine)
  · intro elsewhere hmine
    have hne := hplace elsewhere hmine
    rcases hlocal.lock with hsame | ⟨hbefore, hafter⟩ | ⟨hbefore, hafter⟩
    · rw [hsame]
    · rw [hbefore, hafter]
      exact iff_of_false (fun heq ↦ hne (Option.some.inj heq).symm) (Option.some_ne_none _).symm
    · rw [hbefore, hafter]
      exact iff_of_false (Option.some_ne_none _).symm (fun heq ↦ hne (Option.some.inj heq).symm)
  · rcases hlocal.commits with ⟨_, hcommits⟩ | ⟨_, hcommits⟩
    · exact ⟨[], by simpa using hcommits, by simp⟩
    · refine ⟨[⟨caller, next.database⟩], hcommits, fun commit hcommit ↦ ?_⟩
      rw [List.mem_singleton.mp hcommit]
      exact hother.symm
  · intro elsewhere hmine hholder
    rcases hlocal.commits with ⟨_, hcommits⟩ | ⟨hnone | hheld, _⟩
    · exact hcommits
    · exact absurd (hnone.symm.trans hholder) (Option.some_ne_none _).symm
    · exact absurd (Option.some.inj (hholder.symm.trans hheld)) (hplace elsewhere hmine)
  · exact hlocal.sound

/-- A connection changes hands. -/
theorem relies_lend {place : Option ℕ} (hother : other ≠ caller)
    (hfree : ∀ elsewhere, place = some elsewhere → server.IsFree elsewhere) :
    Relies origin other server (server.lend caller place) := by
  refine ⟨server.lend_other place hother, fun _ _ ↦ rfl, fun _ _ ↦ Iff.rfl,
    ⟨[], (List.append_nil _).symm, by simp⟩, fun _ _ _ ↦ rfl, fun hsound ↦ ⟨?_, hsound.database⟩⟩
  intro first second elsewhere hfirst hsecond
  by_cases hmine : first = caller
  · by_cases hyours : second = caller
    · rw [hmine, hyours]
    · rw [hmine, Server.lend_self] at hfirst
      rw [server.lend_other place hyours] at hsecond
      exact absurd hsecond (hfree elsewhere hfirst second)
  · rw [server.lend_other place hmine] at hfirst
    by_cases hyours : second = caller
    · rw [hyours, Server.lend_self] at hsecond
      exact absurd hfirst (hfree elsewhere hsecond first)
    · rw [server.lend_other place hyours] at hsecond
      exact hsound.apart first second elsewhere hfirst hsecond

/-- A call of one caller is what the others rely on. -/
theorem relies_of_answers {ask : Ask words} {reply : ask.Reply} (hsound : server.Sound origin)
    (hother : other ≠ caller) (hanswers : Answers engine caller server ask reply next) :
    Relies origin other server next := by
  have hlocal {place : ℕ} (hplace : server.connection caller = some place)
      (hanswered : Answered engine caller place server ask reply next) :
      Relies origin other server next := by
    refine (local_of_answered hanswered).relies (fun elsewhere hmine heq ↦ ?_) hother
    exact hother (hsound.apart other caller place (heq ▸ hmine) hplace)
  cases ask with
  | acquire use =>
    cases reply with
    | error fault =>
      obtain rfl := hanswers
      exact .refl origin other next
    | ok value =>
      obtain ⟨_, place, hfree, rfl⟩ := hanswers
      refine relies_lend hother fun elsewhere heq ↦ ?_
      rwa [← Option.some.inj heq]
  | clock | sleep _ =>
    obtain rfl := hanswers
    exact .refl origin other next
  | _ =>
    obtain ⟨place, hplace, hanswered⟩ := hanswers
    exact hlocal hplace hanswered

end Others

end KSQLite.Connection
