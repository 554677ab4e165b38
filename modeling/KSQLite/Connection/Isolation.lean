import KSQLite.Connection.Traffic

/-!
# Callers do not see each other

Whatever state the connections are in, and however the calls of the callers interleave, the
database is as if the jobs ran one after another (`serializable`): each commit is one execution of
the work of a caller that returns, on the state the commit before it left, and no caller commits
twice; a query returns what its statement reads on one committed state, and commits nothing; a
caller that raises has committed nothing. Each job takes effect between the arrival of its caller
and its return.

`On` is a caller on its connection, and `Working` one with a transaction, whose first state is the
one after some number of commits: after all of them, if it has the write lock. The rules for one
caller (`holds_transact_beside`, `holds_query_beside`) meet in `Tidy`, what a call may rely on:
`BEGIN` on a connection that is as new, and a statement of a query only in no transaction and
under `query_only`.
-/

set_option autoImplicit false
set_option relaxedAutoImplicit false

namespace KSQLite.Connection

open KSQLite.Suspension

section Isolation

variable {words : Vocabulary} {Content Result : Type} {engine : Engine words Content}
  {origin : Content} {caller place since : ℕ} {server next : Server Content}
  {handle : Handle Content} {use : Use} {copy : Content}

/-- No commit is in the name of a caller. -/
def Absent (caller : ℕ) (commits : List (Commit Content)) : Prop :=
  ∀ commit ∈ commits, commit.caller ≠ caller

/-- What a caller may rely on when it makes a call. -/
def Tidy (engine : Engine words Content) (caller : ℕ) (ask : Ask words)
    (server : Server Content) : Prop :=
  Absent caller server.commits ∧ match ask with
  | .fetch read => ∃ place, server.connection caller = some place ∧
    (server.handles place).transaction = none ∧
      ((server.handles place).queryOnly = true ∨ engine.selects read)
  | .begin => ∃ place, server.connection caller = some place ∧
    server.handles place = ⟨none, false⟩
  | .work _ => ∃ place base, server.connection caller = some place ∧
    server.handles place = ⟨some base, false⟩
  | _ => True

/-- A job is done: as one step on the state after some of the commits since its caller came. The
step is the only commit of the caller, or it leaves that state and the caller has committed
nothing. -/
def Done (engine : Engine words Content) (origin : Content) (caller since : ℕ) (job : Job words)
    (commits : List (Commit Content)) (result : job.Result) : Prop :=
  ∃ count after, since ≤ count ∧ count ≤ commits.length ∧
    job.Does engine (stateAt origin commits count) result after ∧
    ((commits)[count]? = some ⟨caller, after⟩ ∧ (∀ place commit, (commits)[place]? = some commit →
        commit.caller = caller → place = count) ∨
      after = stateAt origin commits count ∧ Absent caller commits)

/-- How a coroutine of a caller ends: with what it is to do done, or without a commit. -/
def Ends {Exception : Type} (caller : ℕ) (done : Result → Server Content → Prop) :
    Outcome (Fault Exception) Result → Server Content → Prop
  | .returned result, server => done result server
  | _, server => Absent caller server.commits

/-- A caller that has committed nothing, since some number of commits. -/
structure Unspent (origin : Content) (caller since : ℕ) (server : Server Content) : Prop where
  sound : server.Sound origin
  absent : Absent caller server.commits
  arrived : since ≤ server.commits.length

/-- A caller on its connection. -/
structure On (origin : Content) (caller since place : ℕ) (handle : Handle Content)
    (server : Server Content) : Prop extends Unspent origin caller since server where
  connection : server.connection caller = some place
  handle : server.handles place = handle

/-- A caller with a transaction: the state it began on, and the state it has made of it. -/
structure Working (origin : Content) (caller since place : ℕ) (base copy : Content)
    (server : Server Content) : Prop
    extends On origin caller since place ⟨some copy, false⟩ server where
  based : ∃ count, since ≤ count ∧ count ≤ server.commits.length ∧
    base = stateAt origin server.commits count ∧
    (server.holder = some place → count = server.commits.length)
  writes : copy = base ∨ server.holder = some place

/-! ### What the others keep -/

theorem Absent.append {commits added : List (Commit Content)} (habsent : Absent caller commits)
    (hadded : ∀ commit ∈ added, commit.caller ≠ caller) : Absent caller (commits ++ added) := by
  intro commit hcommit
  rcases List.mem_append.mp hcommit with hold | hnew
  · exact habsent commit hold
  · exact hadded commit hnew

theorem Absent.relied (habsent : Absent caller server.commits)
    (hrelies : Relies origin caller server next) : Absent caller next.commits := by
  obtain ⟨added, hcommits, hadded⟩ := hrelies.commits
  rw [hcommits]
  exact habsent.append hadded

theorem Done.relied {job : Job words} {result : job.Result}
    (hdone : Done engine origin caller since job server.commits result)
    (hrelies : Relies origin caller server next) :
    Done engine origin caller since job next.commits result := by
  obtain ⟨added, hcommits, hadded⟩ := hrelies.commits
  obtain ⟨count, after, hsince, hlength, hdoes, hends⟩ := hdone
  rw [hcommits]
  refine ⟨count, after, hsince, by rw [List.length_append]; omega, ?_, ?_⟩
  · rwa [stateAt_append hlength]
  · rw [stateAt_append hlength]
    rcases hends with ⟨hcommit, honly⟩ | ⟨hsame, habsent⟩
    · have hlt : count < server.commits.length := (List.getElem?_eq_some_iff.mp hcommit).1
      refine Or.inl ⟨by rwa [List.getElem?_append_left hlt], fun spot commit hspot hmine ↦ ?_⟩
      rcases Nat.lt_or_ge spot server.commits.length with hold | hnew
      · rw [List.getElem?_append_left hold] at hspot
        exact honly spot commit hspot hmine
      · rw [List.getElem?_append_right hnew] at hspot
        exact absurd hmine (hadded commit (List.mem_of_getElem? hspot))
    · exact Or.inr ⟨hsame, habsent.append hadded⟩

theorem Unspent.relied (hunspent : Unspent origin caller since server)
    (hrelies : Relies origin caller server next) : Unspent origin caller since next := by
  obtain ⟨added, hcommits, _⟩ := hrelies.commits
  refine ⟨hrelies.sound hunspent.sound, hunspent.absent.relied hrelies, ?_⟩
  have hsince := hunspent.arrived
  rw [hcommits, List.length_append]
  omega

theorem On.relied (hon : On origin caller since place handle server)
    (hrelies : Relies origin caller server next) : On origin caller since place handle next :=
  ⟨hon.toUnspent.relied hrelies, hrelies.connection.trans hon.connection,
    (hrelies.handle place hon.connection).trans hon.handle⟩

theorem Working.relied {base : Content}
    (hworking : Working origin caller since place base copy server)
    (hrelies : Relies origin caller server next) :
    Working origin caller since place base copy next := by
  obtain ⟨added, hcommits, _⟩ := hrelies.commits
  obtain ⟨count, hsince, hlength, hbase, hlocked⟩ := hworking.based
  have hlock := hrelies.lock place hworking.connection
  refine ⟨hworking.toOn.relied hrelies, ⟨count, hsince, ?_, ?_, fun hholder ↦ ?_⟩, ?_⟩
  · rw [hcommits, List.length_append]
    omega
  · rw [hcommits, stateAt_append hlength, hbase]
  · have hheld := hlock.mp hholder
    rw [hrelies.locked place hworking.connection hheld]
    exact hlocked hheld
  · rw [hlock]
    exact hworking.writes

/-! ### What a call leaves -/

/-- Another state of the connection, and of the write lock. -/
theorem On.moves {other : Handle Content} (hon : On origin caller since place handle server)
    (hconnection : next.connection = server.connection)
    (hdatabase : next.database = server.database) (hcommits : next.commits = server.commits)
    (hhandle : next.handles place = other) : On origin caller since place other next := by
  refine ⟨⟨⟨?_, ?_⟩, ?_, ?_⟩, ?_, hhandle⟩
  · rw [hconnection]
    exact hon.sound.apart
  · rw [hdatabase, hcommits]
    exact hon.sound.database
  · rw [hcommits]
    exact hon.absent
  · rw [hcommits]
    exact hon.arrived
  · rw [hconnection]
    exact hon.connection

theorem On.put (hon : On origin caller since place handle server) (other : Handle Content) :
    On origin caller since place other (server.put place other) :=
  hon.moves rfl rfl rfl (server.put_self place other)

theorem On.ended (hon : On origin caller since place handle server) (other : Handle Content) :
    On origin caller since place other ((server.put place other).unlock place) :=
  hon.moves rfl rfl rfl (server.put_self place other)

/-- A call of a caller is answered on its connection. -/
theorem On.answered (hon : On origin caller since place handle server) {ask : Ask words}
    {reply : ask.Reply} (hanswers : ∃ place, server.connection caller = some place ∧
      Answered engine caller place server ask reply next) :
    Answered engine caller place server ask reply next := by
  obtain ⟨other, hother, hanswered⟩ := hanswers
  obtain rfl := Option.some.inj (hon.connection.symm.trans hother)
  exact hanswered

/-- A rollback ends the transaction. -/
theorem On.rolledBack {isOff : Bool} {left : Option Content}
    (hon : On origin caller since place ⟨left, isOff⟩ server) {spot : Place}
    (hanswers : Answers engine caller server (.rollback spot : Ask words) (.ok ()) next) :
    On origin caller since place ⟨none, isOff⟩ next := by
  have hanswered := hon.answered hanswers
  obtain rfl := hanswered
  rw [hon.handle]
  exact hon.ended _

/-! ### The coroutines -/

/-- What an attempt leaves: the work done, or a connection in any transaction. -/
def Tried (engine : Engine words Content) (origin : Content) (caller since place : ℕ)
    (work : words.Work) : Outcome (Fault words.Exception) words.Value → Server Content → Prop
  | .returned value, server =>
    Done engine origin caller since (.transact work) server.commits value
  | .raised _, server => ∃ left, On origin caller since place ⟨left, false⟩ server
  | .exhausted, _ => False

/-- After `BEGIN`. -/
theorem On.begun (hon : On origin caller since place ⟨none, false⟩ server)
    (hanswers : Answers engine caller server (.begin : Ask words) (.ok ()) next) :
    ∃ base, Working origin caller since place base base next := by
  have hlast := hon.sound.database
  obtain ⟨_, rfl | ⟨_, rfl⟩⟩ := hon.answered hanswers
  · rw [hon.handle]
    exact ⟨server.database, ⟨hon.put _, ⟨_, hon.arrived, Nat.le_refl _, hlast, fun _ ↦ rfl⟩,
      Or.inl rfl⟩⟩
  · rw [hon.handle]
    have hopened : On origin caller since place ⟨some server.database, false⟩
        { server.put place ⟨some server.database, false⟩ with holder := some place } :=
      hon.moves rfl rfl rfl (server.put_self place _)
    exact ⟨server.database, ⟨hopened, ⟨_, hon.arrived, Nat.le_refl _, hlast, fun _ ↦ rfl⟩,
      Or.inl rfl⟩⟩

/-- After the work has failed, with its transaction as it is or ended. -/
theorem On.failed (hon : On origin caller since place ⟨some copy, false⟩ server)
    {work : words.Work} {fault : Fault words.Exception}
    (hanswers : Answers engine caller server (.work work : Ask words) (.error fault) next) :
    ∃ left, On origin caller since place ⟨left, false⟩ next := by
  obtain ⟨left, rfl | rfl⟩ := hon.answered hanswers
  · rw [hon.handle]
    exact ⟨some left, hon.put _⟩
  · rw [hon.handle]
    exact ⟨none, hon.ended _⟩

/-- After the work. -/
theorem Working.worked {base : Content} {work : words.Work} {value : words.Value}
    (hworking : Working origin caller since place base base server)
    (hanswers : Answers engine caller server (.work work : Ask words) (.ok value) next) :
    ∃ copy, engine.executes work base value copy ∧
      Working origin caller since place base copy next := by
  obtain ⟨start, copy, hstart, hexecutes, hwrites, rfl⟩ := hworking.answered hanswers
  rw [hworking.handle] at hstart ⊢
  obtain rfl := Option.some.inj hstart
  refine ⟨copy, hexecutes, ⟨hworking.toOn.put _, hworking.based, ?_⟩⟩
  by_cases hsame : copy = base
  · exact Or.inl hsame
  · exact Or.inr (hwrites hsame).1

/-- After the commit. -/
theorem Working.committed {base : Content} {work : words.Work} {value : words.Value}
    (hworking : Working origin caller since place base copy server)
    (hexecutes : engine.executes work base value copy)
    (hanswers : Answers engine caller server (.commit : Ask words) (.ok ()) next) :
    Done engine origin caller since (.transact work) next.commits value := by
  obtain ⟨count, hsince, hlength, rfl, hlocked⟩ := hworking.based
  obtain ⟨last, hlast, hnext⟩ := hworking.answered hanswers
  rw [hworking.handle] at hlast
  obtain rfl := Option.some.inj hlast
  rcases hnext with ⟨hholder, rfl⟩ | ⟨hholder, rfl⟩
  · obtain rfl := hlocked hholder
    refine ⟨server.commits.length, copy, hsince, ?_, ?_, Or.inl ⟨?_, ?_⟩⟩
    · exact (List.length_append ▸ Nat.le_add_right _ _ :
        server.commits.length ≤ (server.commits ++ [(⟨caller, copy⟩ : Commit Content)]).length)
    · change engine.executes work (stateAt origin (server.commits ++ [_]) _) value copy
      rwa [stateAt_append (Nat.le_refl _)]
    · exact List.getElem?_concat_length
    · intro spot commit hspot hmine
      rcases Pool.getElem?_append_cases hspot with ⟨hlast, _⟩ | hold
      · exact hlast
      · exact absurd hmine (hworking.absent commit (List.mem_of_getElem? hold))
  · have hsame : copy = stateAt origin server.commits count :=
      hworking.writes.resolve_right hholder
    exact ⟨count, copy, hsince, hlength, hexecutes, Or.inr ⟨hsame, hworking.absent⟩⟩

/-- One attempt. -/
theorem holds_tryOnce_beside {work : words.Work}
    (hon : On origin caller since place ⟨none, false⟩ server) :
    Holds (beside engine origin caller) (Tidy engine caller)
      (Tried engine origin caller since place work) (tryOnce work) server := by
  -- What follows a failure after `BEGIN`.
  have hrollback {fault : Fault words.Exception} {left : Option Content} {server : Server Content}
      (hon : On origin caller since place ⟨left, false⟩ server) :
      Holds (beside engine origin caller) (Tidy engine caller)
        (Tried engine origin caller since place work) (do
          rollback .attempt
          (.raise fault : Coroutine words words.Value)) server := by
    intro between hbetween
    have hfound := hon.relied hbetween
    refine ⟨⟨hfound.absent, trivial⟩, ?_⟩
    rintro (failed | ⟨⟩) next hanswers
    · obtain rfl := hfound.answered hanswers
      exact ⟨left, hfound⟩
    · exact ⟨none, hfound.rolledBack hanswers⟩
  intro opening hopening
  have hopened := hon.relied hopening
  refine ⟨⟨hopened.absent, place, hopened.connection, hopened.handle⟩, ?_⟩
  rintro (fault | ⟨⟩) begun hbegun
  · obtain rfl := hopened.answered hbegun
    exact ⟨none, hopened⟩
  · obtain ⟨base, hworking⟩ := hopened.begun hbegun
    intro working hbetween
    have hready := hworking.relied hbetween
    refine ⟨⟨hready.absent, place, base, hready.connection, hready.handle⟩, ?_⟩
    rintro (fault | value) worked hworked
    · obtain ⟨left, hfailed⟩ := hready.toOn.failed hworked
      exact hrollback hfailed
    · obtain ⟨copy, hexecutes, hcopied⟩ := hready.worked hworked
      intro committing hbetween
      have hheld := hcopied.relied hbetween
      refine ⟨⟨hheld.absent, trivial⟩, ?_⟩
      rintro (fault | ⟨⟩) committed hcommitted
      · obtain rfl | rfl := hheld.answered hcommitted
        · exact hrollback hheld.toOn
        · rw [hheld.handle]
          exact hrollback (hheld.ended _)
      · exact hheld.committed hexecutes hcommitted

/-- What follows an attempt that failed busily. -/
theorem holds_backOff_beside {busyTimeout deadline : ℚ} {attempt : ℕ} {left : Option Content}
    {done : words.Value → Server Content → Prop}
    (hon : On origin caller since place ⟨left, false⟩ server) :
    Holds (beside engine origin caller) (Tidy engine caller)
      (AfterRound (fun _ ↦ On origin caller since place ⟨none, false⟩) (Ends caller done))
      (backOff busyTimeout deadline attempt : Coroutine words (ℕ ⊕ words.Value)) server := by
  -- What follows the rollback.
  have hrest {server : Server Content}
      (hon : On origin caller since place ⟨none, false⟩ server) :
      Holds (beside engine origin caller) (Tidy engine caller)
        (AfterRound (fun _ ↦ On origin caller since place ⟨none, false⟩) (Ends caller done)) (do
          let remaining := deadline - (← now)
          if maxAttempts ≤ attempt ∨ remaining ≤ 0 then
            .raise (.storage (.databaseBusy attempt busyTimeout))
          else do
            sleep (min (backoffBase * attempt) remaining)
            return .inl (attempt + 1) : Coroutine words (ℕ ⊕ words.Value)) server := by
    intro reading hreading
    have hread := hon.relied hreading
    refine ⟨⟨hread.absent, trivial⟩, ?_⟩
    rintro moment next rfl
    change Holds _ _ _ (if _ then _ else _) _
    split_ifs
    · exact hread.absent
    · intro sleeping hsleeping
      have hslept := hread.relied hsleeping
      refine ⟨⟨hslept.absent, trivial⟩, ?_⟩
      rintro ⟨⟩ next rfl
      exact hslept
  intro looking hlooking
  have hlooked := hon.relied hlooking
  refine ⟨⟨hlooked.absent, trivial⟩, ?_⟩
  rintro isOpen next hanswers
  obtain ⟨hopen, rfl⟩ := hlooked.answered hanswers
  rw [hlooked.handle] at hopen
  subst hopen
  cases left with
  | none => exact hrest hlooked
  | some copy =>
    intro rolling hrolling
    have hrolled := hlooked.relied hrolling
    refine ⟨⟨hrolled.absent, trivial⟩, ?_⟩
    rintro (fault | ⟨⟩) rolledBack hanswers
    · obtain rfl := hrolled.answered hanswers
      exact hrolled.absent
    · exact hrest (hrolled.rolledBack hanswers)

/-- The runner. -/
theorem holds_run_beside {busyTimeout : ℚ} {fuel : ℕ} {work : words.Work}
    (hon : On origin caller since place ⟨none, false⟩ server) :
    Holds (beside engine origin caller) (Tidy engine caller)
      (Ends caller fun value server ↦
        Done engine origin caller since (.transact work) server.commits value)
      (run busyTimeout fuel work) server := by
  intro starting hstarting
  have hstarted := hon.relied hstarting
  refine ⟨⟨hstarted.absent, trivial⟩, ?_⟩
  rintro started next rfl
  refine holds_iterate (fun _ _ ↦ On origin caller since place ⟨none, false⟩) ?_ ?_ ?_ hstarted
  · exact fun _ _ _ _ _ hguard ↦ by cases hguard
  · intro _ attempt between hbetween _
    refine holds_handle.mpr ((holds_tryOnce_beside hbetween).bind ?_ ?_ ?_)
    · exact fun value final hreturned ↦ hreturned
    · rintro fault final ⟨left, hleft⟩
      cases fault with
      | operational message =>
        change Holds _ _ _ (if isBusyError message = true then _ else _) _
        split_ifs
        · exact holds_backOff_beside hleft
        · exact hleft.absent
      | _ => exact hleft.absent
    · exact fun _ hfalse ↦ hfalse.elim
  · exact fun _ _ hbetween _ ↦ hbetween.absent

/-- What a statement reads. -/
def Read (engine : Engine words Content) (origin : Content) (since : ℕ) (read : words.Read)
    (commits : List (Commit Content)) (rows : words.Rows read) : Prop :=
  ∃ count, since ≤ count ∧ count ≤ commits.length ∧
    engine.reads read (stateAt origin commits count) rows

theorem Read.relied {read : words.Read} {rows : words.Rows read}
    (hread : Read engine origin since read server.commits rows)
    (hrelies : Relies origin caller server next) :
    Read engine origin since read next.commits rows := by
  obtain ⟨added, hcommits, _⟩ := hrelies.commits
  obtain ⟨count, hsince, hlength, hreads⟩ := hread
  rw [hcommits]
  exact ⟨count, hsince, by rw [List.length_append]; omega, by rwa [stateAt_append hlength]⟩

/-- After a statement in no transaction, under `query_only` or one that only reads. -/
theorem On.fetched {isOff : Bool} {read : words.Read}
    (hon : On origin caller since place ⟨none, isOff⟩ server)
    (hquiet : isOff = true ∨ engine.selects read)
    (hfetches : Fetches engine caller place read server next) :
    (∃ left, On origin caller since place left next) ∧ next.commits = server.commits := by
  cases hfetches with
  | quiet hlocks => exact ⟨⟨_, hon.moves rfl rfl rfl (server.put_self place _)⟩, rfl⟩
  | loud _ hloud =>
    rw [hon.handle] at hloud
    rcases hloud with hopen | ⟨hoff, hwrites⟩
    · cases hopen
    · rcases hquiet with hon | hselects
      · exact absurd (hon.symm.trans hoff) (by decide)
      · exact absurd hselects hwrites

/-- A statement that returns rows. -/
theorem holds_fetch_beside {isOff : Bool} {read : words.Read}
    (hon : On origin caller since place ⟨none, isOff⟩ server)
    (hquiet : isOff = true ∨ engine.selects read) :
    Holds (beside engine origin caller) (Tidy engine caller)
      (fun outcome server ↦ (∃ left, On origin caller since place left server) ∧
        ∀ rows, outcome = .returned rows → Read engine origin since read server.commits rows)
      (fetch read) server := by
  intro between hbetween
  have hfound := hon.relied hbetween
  refine ⟨⟨hfound.absent, place, hfound.connection, ?_, ?_⟩, ?_⟩
  · rw [hfound.handle]
  · rw [hfound.handle]
    exact hquiet
  · rintro (fault | rows) next hanswers
    · exact ⟨(hfound.fetched hquiet (hfound.answered hanswers)).1, fun rows hrows ↦ by cases hrows⟩
    · obtain ⟨hreads, hfetches⟩ := hfound.answered hanswers
      obtain ⟨hleft, hcommits⟩ := hfound.fetched hquiet hfetches
      refine ⟨hleft, fun other hrows ↦ ?_⟩
      obtain rfl := Outcome.returned.inj hrows
      rw [hfound.handle] at hreads
      rw [hcommits]
      refine ⟨between.commits.length, hfound.arrived, Nat.le_refl _, ?_⟩
      rw [← hfound.sound.database]
      exact hreads

/-- A checkout cleans the connection it is given, whatever was left on it. -/
theorem holds_checkedOut_beside {body : Coroutine words Result}
    {done : Result → Server Content → Prop} (hunspent : Unspent origin caller since server)
    (hbody : ∀ place server, On origin caller since place ⟨none, false⟩ server →
      Holds (beside engine origin caller) (Tidy engine caller) (Ends caller done) body server) :
    Holds (beside engine origin caller) (Tidy engine caller) (Ends caller done)
      (checkedOut use body) server := by
  have hinner : Holds (beside engine origin caller) (Tidy engine caller) (Ends caller done) (do
      acquire use
      if ← inTransaction then rollback (.checkout use)
      resetQueryOnly use
      body) server := by
    have hreset {place : ℕ} {server : Server Content} {isOff : Bool}
        (hon : On origin caller since place ⟨none, isOff⟩ server) :
        Holds (beside engine origin caller) (Tidy engine caller) (Ends caller done) (do
          resetQueryOnly use
          body) server := by
      intro between hbetween
      have hfound := hon.relied hbetween
      refine ⟨⟨hfound.absent, trivial⟩, ?_⟩
      rintro (fault | ⟨⟩) next hanswers
      · obtain rfl := hfound.answered hanswers
        exact hfound.absent
      · obtain rfl := hfound.answered hanswers
        rw [hfound.handle]
        exact hbody place _ (hfound.put _)
    intro between hbetween
    have hfound := hunspent.relied hbetween
    refine ⟨⟨hfound.absent, trivial⟩, ?_⟩
    rintro (fault | ⟨⟩) taken htaken
    · obtain rfl := htaken
      exact hfound.absent
    · obtain ⟨_, place, hfree, rfl⟩ := htaken
      have hlent : Relies origin (caller + 1) between (between.lend caller (some place)) :=
        relies_lend (Nat.succ_ne_self caller) fun elsewhere heq ↦ Option.some.inj heq ▸ hfree
      have hon : On origin caller since place (between.handles place)
          (between.lend caller (some place)) :=
        ⟨⟨hlent.sound hfound.sound, hfound.absent, hfound.arrived⟩, between.lend_self _ _, rfl⟩
      intro looking hlooking
      have hlooked := hon.relied hlooking
      refine ⟨⟨hlooked.absent, trivial⟩, ?_⟩
      rintro isOpen next hanswers
      obtain ⟨hopen, rfl⟩ := hlooked.answered hanswers
      rw [hlooked.handle] at hopen
      subst hopen
      cases hleft : between.handles place with
      | mk transaction isOff =>
        rw [hleft] at hlooked
        cases transaction with
        | none => exact hreset hlooked
        | some copy =>
          intro rolling hrolling
          have hrolled := hlooked.relied hrolling
          refine ⟨⟨hrolled.absent, trivial⟩, ?_⟩
          rintro (fault | ⟨⟩) rolledBack hanswers
          · obtain rfl := hrolled.answered hanswers
            exact hrolled.absent
          · exact hreset (hrolled.rolledBack hanswers)
  refine holds_mapError.mpr (hinner.mono (fun _ _ hmoment ↦ hmoment) ?_)
  rintro (value | fault | _) final hended
  · exact hended
  · exact hended
  · exact hended

theorem holds_transact_beside {busyTimeout : ℚ} {fuel : ℕ} {work : words.Work}
    (hunspent : Unspent origin caller since server) :
    Holds (beside engine origin caller) (Tidy engine caller)
      (Ends caller fun value server ↦
        Done engine origin caller since (.transact work) server.commits value)
      (transact busyTimeout fuel work) server :=
  holds_checkedOut_beside hunspent fun _ _ hon ↦ holds_run_beside hon

theorem holds_readOn_beside {read : words.Read} (hselects : engine.selects read)
    (hunspent : Unspent origin caller since server) :
    Holds (beside engine origin caller) (Tidy engine caller)
      (Ends caller fun rows server ↦
        Done engine origin caller since (.readOn read) server.commits rows)
      (readOn read) server := by
  refine holds_checkedOut_beside hunspent fun place server hon ↦ ?_
  refine (holds_fetch_beside hon (Or.inr hselects)).mono (fun _ _ hmoment ↦ hmoment) ?_
  rintro (rows | fault | _) final ⟨⟨left, hleft⟩, hread⟩
  · obtain ⟨count, hsince, hlength, hreads⟩ := hread rows rfl
    exact ⟨count, _, hsince, hlength, ⟨hreads, rfl⟩, Or.inr ⟨rfl, hleft.absent⟩⟩
  · exact hleft.absent
  · exact hleft.absent

theorem holds_query_beside {read : words.Read} (hunspent : Unspent origin caller since server) :
    Holds (beside engine origin caller) (Tidy engine caller)
      (Ends caller fun rows server ↦
        Done engine origin caller since (.query read) server.commits rows)
      (query read) server := by
  refine holds_checkedOut_beside hunspent fun place server hon ↦ ?_
  intro between hbetween
  have hfound := hon.relied hbetween
  refine ⟨⟨hfound.absent, trivial⟩, ?_⟩
  rintro (fault | ⟨⟩) switched hswitched
  · obtain rfl := hfound.answered hswitched
    exact hfound.absent
  obtain rfl := hfound.answered hswitched
  rw [hfound.handle]
  -- The switch back, which the error of the statement goes through as well.
  have hoff {server : Server Content} {left : Handle Content}
      {rest : Coroutine words (words.Rows read)}
      {post : Outcome (Fault words.Exception) (words.Rows read) → Server Content → Prop}
      (hon : On origin caller since place left server)
      (hraised : ∀ fault next, Absent caller next.commits → post (.raised fault) next)
      (hrest : ∀ next, Unspent origin caller since next →
        (∀ rows, Read engine origin since read server.commits rows →
          Read engine origin since read next.commits rows) →
        Holds (beside engine origin caller) (Tidy engine caller) post rest next) :
      Holds (beside engine origin caller) (Tidy engine caller) post (do
        setQueryOnly false
        rest) server := by
    intro between hbetween
    have hfound := hon.relied hbetween
    refine ⟨⟨hfound.absent, trivial⟩, ?_⟩
    rintro (fault | ⟨⟩) next hanswers
    · obtain rfl := hfound.answered hanswers
      exact hraised fault _ hfound.absent
    · obtain rfl := hfound.answered hanswers
      have hkept (rows : words.Rows read)
          (hread : Read engine origin since read server.commits rows) :
          Read engine origin since read between.commits rows :=
        hread.relied hbetween
      exact hrest _ (hfound.put _).toUnspent hkept
  change Holds _ _ _ (((fetch read).mapError queryError).handle _ >>= _) _
  refine holds_bind.mpr (holds_handle.mpr (holds_mapError.mpr
    ((holds_fetch_beside (hfound.put _) (Or.inl rfl)).mono (fun _ _ hmoment ↦ hmoment) ?_)))
  rintro (rows | fault | _) final ⟨⟨left, hleft⟩, hread⟩
  · refine hoff hleft (fun _ _ habsent ↦ habsent) fun next hunspent hkept ↦ ?_
    obtain ⟨count, hsince, hlength, hreads⟩ := hkept rows (hread rows rfl)
    exact ⟨count, _, hsince, hlength, ⟨hreads, rfl⟩, Or.inr ⟨rfl, hunspent.absent⟩⟩
  · exact hoff hleft (fun _ _ habsent ↦ habsent) fun next hunspent _ ↦ hunspent.absent
  · exact hleft.absent

end Isolation

end KSQLite.Connection
