import KSQLite.Connection.Isolation

/-!
# The jobs of the callers, one after another

However the calls of the callers interleave, and whatever state the connections are in, the
database is as if the jobs ran one after another (`serializable`). `Kept` is the invariant: each
caller, at its place in its coroutine, will do its job as one step, or raise without a commit. A
call of one caller is interference for the others, so the invariant is kept call by call
(`Kept.step`).
-/

set_option autoImplicit false
set_option relaxedAutoImplicit false

namespace KSQLite.Connection

open KSQLite.Suspension

section Serializing

variable {words : Vocabulary} {Content : Type} {engine : Engine words Content} {origin : Content}
  {busyTimeout : ℚ} {fuel : ℕ} {traffic next : Traffic words Content}

/-- The jobs took effect one after another. -/
structure Serialized (engine : Engine words Content) (origin : Content)
    (traffic : Traffic words Content) : Prop where
  database : traffic.server.database =
    stateAt origin traffic.server.commits traffic.server.commits.length
  /-- Each commit is the job of a caller that has returned, done on the state before it. -/
  commits : ∀ count (commit : Commit Content), (traffic.server.commits)[count]? = some commit →
    ∃ (caller : Caller words) (result : caller.job.Result),
      (traffic.callers)[commit.caller]? = some caller ∧
      caller.rest = .finish result ∧ caller.since ≤ count ∧
      caller.job.Does engine (stateAt origin traffic.server.commits count) result
        (stateAt origin traffic.server.commits (count + 1))
  once : (traffic.server.commits.map Commit.caller).Nodup
  /-- Each caller that has returned has done its job since it came. -/
  returned : ∀ index (caller : Caller words) result, (traffic.callers)[index]? = some caller →
    caller.rest = .finish result →
    Done engine origin index caller.since caller.job traffic.server.commits result
  /-- A caller that has raised, or still awaits a reply, has committed nothing. -/
  others : ∀ index (caller : Caller words), (traffic.callers)[index]? = some caller →
    (∀ result, caller.rest ≠ .finish result) → Absent index traffic.server.commits

/-- What is kept of the callers: each of them will do its job as one step or raise. -/
structure Kept (engine : Engine words Content) (origin : Content)
    (traffic : Traffic words Content) : Prop where
  sound : traffic.server.Sound origin
  later : ∀ index, traffic.callers.length ≤ index → Absent index traffic.server.commits
  callers : ∀ index (caller : Caller words), (traffic.callers)[index]? = some caller →
    Holds (beside engine origin index) (Tidy engine index)
      (Ends index fun result server ↦
        Done engine origin index caller.since caller.job server.commits result)
      caller.rest traffic.server

/-- The coroutine of a job. -/
theorem holds_program {job : Job words} {caller since : ℕ} {server : Server Content}
    (hlegal : job.IsLegal engine) (hunspent : Unspent origin caller since server) :
    Holds (beside engine origin caller) (Tidy engine caller)
      (Ends caller fun result server ↦
        Done engine origin caller since job server.commits result)
      (job.program busyTimeout fuel) server := by
  cases job with
  | transact work => exact holds_transact_beside hunspent
  | readOn read => exact holds_readOn_beside hlegal hunspent
  | query read => exact holds_query_beside hunspent

/-- A caller after the others have changed the server. -/
theorem Kept.relied (hkept : Kept engine origin traffic) {index : ℕ} {caller : Caller words}
    {server : Server Content} (hcaller : (traffic.callers)[index]? = some caller)
    (hrelies : Relies origin index traffic.server server) :
    Holds (beside engine origin index) (Tidy engine index)
      (Ends index fun result server ↦
        Done engine origin index caller.since caller.job server.commits result)
      caller.rest server := by
  refine (hkept.callers index caller hcaller).relied ?_ hrelies
  rintro (result | fault | _) before after hended hbetween
  · exact Done.relied hended hbetween
  · exact Absent.relied hended hbetween
  · exact Absent.relied hended hbetween

/-- Every event keeps what is kept. -/
theorem Kept.step (hkept : Kept engine origin traffic)
    (hstep : Traffic.Step engine busyTimeout fuel traffic next) : Kept engine origin next := by
  cases hstep with
  | come hlegal =>
    have hunspent : Unspent origin traffic.callers.length traffic.server.commits.length
        traffic.server :=
      ⟨hkept.sound, hkept.later _ (Nat.le_refl _), Nat.le_refl _⟩
    refine ⟨hkept.sound, fun index hindex ↦ hkept.later index ?_, fun index caller hcaller ↦ ?_⟩
    · rw [List.length_append] at hindex
      exact Nat.le_of_add_right_le hindex
    · rcases Pool.getElem?_append_cases hcaller with ⟨rfl, rfl⟩ | hold
      · exact holds_program hlegal hunspent
      · exact hkept.callers index caller hold
  | @call index job since ask resume reply server hcalls hanswers =>
    have hrelies {other : ℕ} (hother : other ≠ index) :
        Relies origin other traffic.server server :=
      relies_of_answers hkept.sound hother hanswers
    have hlt := (List.getElem?_eq_some_iff.mp hcalls).1
    refine ⟨(hrelies (Nat.succ_ne_self index)).sound hkept.sound, fun other hother ↦ ?_,
      fun other caller hcaller ↦ ?_⟩
    · rw [List.length_set] at hother
      exact (hkept.later other hother).relied (hrelies (by omega))
    · rcases Pool.getElem?_set_cases hcaller with ⟨rfl, rfl⟩ | ⟨hother, hold⟩
      · exact (hkept.callers other _ hcalls).answered hanswers
      · exact hkept.relied hold (hrelies hother)
  | @leave index caller hleaves hended =>
    have hrelies {other : ℕ} (hother : other ≠ index) :
        Relies origin other traffic.server (traffic.server.lend index none) :=
      relies_lend hother fun _ heq ↦ by cases heq
    refine ⟨(hrelies (Nat.succ_ne_self index)).sound hkept.sound, hkept.later,
      fun other caller hcaller ↦ ?_⟩
    by_cases hother : other = index
    · subst hother
      obtain rfl := Option.some.inj (hleaves.symm.trans hcaller)
      have hholds := hkept.callers other _ hcaller
      obtain ⟨job, since, rest⟩ := caller
      cases rest with
      | await ask resume => cases hended
      | _ => exact hholds
    · exact hkept.relied hcaller (hrelies hother)
  | @idle place handle holder hfree hlocks =>
    have hlocal (caller : ℕ) := local_put traffic.server caller place handle hlocks
    have hrelies (other : ℕ) : Relies origin other traffic.server
        { traffic.server.put place handle with holder := holder } :=
      (hlocal (other + 1)).relies (fun elsewhere hmine heq ↦ hfree other (heq ▸ hmine))
        (Nat.succ_ne_self other).symm
    exact ⟨(hlocal 0).sound hkept.sound, hkept.later,
      fun other caller hcaller ↦ hkept.relied hcaller (hrelies other)⟩

theorem kept_of_run {handles : ℕ → Handle Content} {holder : Option ℕ}
    (hrun : Traffic.Run engine busyTimeout fuel (.opened origin handles holder) traffic) :
    Kept engine origin traffic := by
  induction hrun with
  | refl =>
    refine ⟨⟨fun _ _ _ hfirst ↦ (by cases hfirst), rfl⟩, fun _ _ commit hcommit ↦ ?_,
      fun _ _ hcaller ↦ by cases hcaller⟩
    exact absurd hcommit List.not_mem_nil
  | tail _ hstep ih => exact ih.step hstep

/-- A caller that is not done has committed nothing. -/
theorem Kept.absent (hkept : Kept engine origin traffic) {index : ℕ} {caller : Caller words}
    (hcaller : (traffic.callers)[index]? = some caller)
    (hopen : ∀ result, caller.rest ≠ .finish result) :
    Absent index traffic.server.commits := by
  have hholds := hkept.callers index caller hcaller
  obtain ⟨job, since, rest⟩ := caller
  cases rest with
  | finish result => exact absurd rfl (hopen result)
  | raise fault => exact hholds
  | exhausted => exact hholds
  | await ask resume => exact (hholds traffic.server (.refl origin index _)).1.1

/-- The caller of a commit is done, with this commit. -/
theorem Kept.committed (hkept : Kept engine origin traffic) {count : ℕ} {commit : Commit Content}
    (hcommit : (traffic.server.commits)[count]? = some commit) :
    ∃ (caller : Caller words) (result : caller.job.Result),
      (traffic.callers)[commit.caller]? = some caller ∧
      caller.rest = .finish result ∧ caller.since ≤ count ∧
      caller.job.Does engine (stateAt origin traffic.server.commits count) result commit.after ∧
      ∀ place other, (traffic.server.commits)[place]? = some other →
        other.caller = commit.caller → place = count := by
  have hmem := List.mem_of_getElem? hcommit
  have hlt : commit.caller < traffic.callers.length := by
    by_contra hge
    exact hkept.later _ (not_lt.mp hge) commit hmem rfl
  obtain ⟨caller, hcaller⟩ : ∃ caller, (traffic.callers)[commit.caller]? = some caller :=
    ⟨_, List.getElem?_eq_getElem hlt⟩
  by_cases hopen : ∀ result, caller.rest ≠ .finish result
  · exact absurd rfl (hkept.absent hcaller hopen commit hmem)
  · obtain ⟨result, hresult⟩ := not_forall.mp hopen
    have hfinished := not_not.mp hresult
    have hholds := hkept.callers _ caller hcaller
    rw [hfinished] at hholds
    obtain ⟨place, after, hsince, _, hdoes, ⟨hplace, honly⟩ | ⟨_, habsent⟩⟩ := hholds
    · obtain rfl := honly count commit hcommit rfl
      have hafter : commit.after = after :=
        congrArg Commit.after (Option.some.inj (hcommit.symm.trans hplace))
      rw [hafter]
      exact ⟨caller, result, hcaller, hfinished, hsince, hdoes, honly⟩
    · exact absurd rfl (habsent commit hmem)

theorem serializable {handles : ℕ → Handle Content} {holder : Option ℕ}
    (hrun : Traffic.Run engine busyTimeout fuel (.opened origin handles holder) traffic) :
    Serialized engine origin traffic := by
  have hkept := kept_of_run hrun
  constructor
  · exact hkept.sound.database
  · intro count commit hcommit
    obtain ⟨caller, result, hcaller, hresult, hsince, hdoes, _⟩ := hkept.committed hcommit
    rw [stateAt_commit hcommit]
    exact ⟨caller, result, hcaller, hresult, hsince, hdoes⟩
  · rw [List.nodup_iff_getElem?_ne_getElem?]
    intro first second hlt hsecond heq
    rw [List.length_map] at hsecond
    rw [List.getElem?_map, List.getElem?_map, List.getElem?_eq_getElem hsecond,
      List.getElem?_eq_getElem (hlt.trans hsecond)] at heq
    obtain ⟨_, _, _, _, _, _, honly⟩ := hkept.committed (List.getElem?_eq_getElem hsecond)
    exact absurd (honly first _ (List.getElem?_eq_getElem (hlt.trans hsecond))
      (Option.some.inj heq)) (Nat.ne_of_lt hlt)
  · intro index caller result hcaller hresult
    have hholds := hkept.callers index caller hcaller
    rw [hresult] at hholds
    exact hholds
  · exact fun index caller hcaller hopen ↦ hkept.absent hcaller hopen

/-- Whatever was left on the connections, a call of any caller finds what it relies on. -/
theorem guarded {handles : ℕ → Handle Content} {holder : Option ℕ} {index since : ℕ}
    {job : Job words} {ask : Ask words} {resume : ask.Reply → Coroutine words job.Result}
    (hrun : Traffic.Run engine busyTimeout fuel (.opened origin handles holder) traffic)
    (hcaller : (traffic.callers)[index]? = some ⟨job, since, .await ask resume⟩) :
    Tidy engine index ask traffic.server :=
  ((kept_of_run hrun).callers index _ hcaller traffic.server (.refl origin index _)).1

/-! ### A caller alone -/

/-- What a caller does while the others wait. -/
theorem run_of_steps {index : ℕ} {job : Job words} {since : ℕ} {server last : Server Content}
    {callers : List (Caller words)} {program rest : Coroutine words job.Result}
    {trace : List (Exchange (asks words) (Server Content))}
    (hcaller : (callers)[index]? = some ⟨job, since, program⟩)
    (hsteps : Steps (calls engine index) program server trace rest last) :
    Traffic.Run engine busyTimeout fuel ⟨server, callers⟩
      ⟨last, callers.set index ⟨job, since, rest⟩⟩ := by
  induction hsteps generalizing callers with
  | refl =>
    obtain ⟨hlt, hold⟩ := List.getElem?_eq_some_iff.mp hcaller
    rw [← hold, List.set_getElem_self]
  | interfere hsame _ ih =>
    obtain rfl := hsame
    exact ih hcaller
  | answer hanswers _ ih =>
    have hlt := (List.getElem?_eq_some_iff.mp hcaller).1
    have hrest := ih (List.getElem?_set_self hlt)
    rw [List.set_set] at hrest
    exact .head (.call hcaller hanswers) hrest

/-- A caller that comes and runs to its end. -/
theorem run_served {origin : Traffic words Content} {job : Job words} {last : Server Content}
    {result : job.Result} {trace : List (Exchange (asks words) (Server Content))}
    (hrun : Traffic.Run engine busyTimeout fuel origin traffic) (hlegal : job.IsLegal engine)
    (hsteps : Steps (calls engine traffic.callers.length) (job.program busyTimeout fuel)
      traffic.server trace (.finish result) last) :
    Traffic.Run engine busyTimeout fuel origin
      ⟨last, traffic.callers ++ [⟨job, traffic.server.commits.length, .finish result⟩]⟩ := by
  have hcame := Relation.ReflTransGen.tail hrun (.come hlegal)
  have hserved := hcame.trans (run_of_steps (List.getElem?_concat_length) hsteps)
  rwa [List.set_append_right _ _ (Nat.le_refl _), Nat.sub_self] at hserved

theorem unlock_holder (server : Server Content) (place : ℕ) :
    (server.unlock place).holder = server.holder ∨ (server.unlock place).holder = none := by
  unfold Server.unlock
  by_cases hholder : server.holder = some place
  · exact Or.inr (if_pos hholder)
  · exact Or.inl (if_neg hholder)

/-- A connection is taken, cleaned, and used, by a caller alone. -/
theorem exists_checkedOut {Result : Type} {index place : ℕ} {server : Server Content} {use : Use}
    {body : Coroutine words Result} {result : Result} {after : Server Content → Prop}
    (hnew : server.connection index = none) (hfree : server.IsFree place)
    (hbody : ∀ clean : Server Content, clean.connection index = some place →
      clean.handles place = ⟨none, false⟩ → clean.database = server.database →
      clean.commits = server.commits →
      clean.connection = (server.lend index (some place)).connection →
      (clean.holder = server.holder ∨ clean.holder = none) →
      ∃ trace last, Steps (calls engine index) (body.mapError poolError) clean trace
        (.finish result) last ∧ after last) :
    ∃ trace last, Steps (calls engine index) (checkedOut use body) server trace
      (.finish result) last ∧ after last := by
  have hmine := server.lend_self index (some place)
  -- After the look at the transaction.
  have hreset (found : Server Content) {isOff : Bool}
      (hconnection : found.connection = (server.lend index (some place)).connection)
      (hhandle : found.handles place = ⟨none, isOff⟩) (hdatabase : found.database = server.database)
      (hcommits : found.commits = server.commits)
      (hholder : found.holder = server.holder ∨ found.holder = none) :
      ∃ trace last, Steps (calls engine index)
        ((do
          resetQueryOnly use
          body : Coroutine words Result).mapError poolError) found trace (.finish result) last ∧
          after last := by
    have hat : found.connection index = some place := by rw [hconnection, hmine]
    obtain ⟨trace, last, hsteps, hlast⟩ := hbody (found.put place ⟨none, false⟩) hat
      (found.put_self place _) hdatabase hcommits hconnection hholder
    have hanswers : (calls engine index).answers found (.resetQueryOnly use) (.ok ())
        (found.put place ⟨none, false⟩) := by
      refine ⟨place, hat, ?_⟩
      change _ = found.put place { found.handles place with queryOnly := false }
      rw [hhandle]
    exact ⟨_, last, .answer hanswers hsteps, hlast⟩
  have htaken : (calls engine index).answers server (.acquire use) (.ok ())
      (server.lend index (some place)) :=
    ⟨hnew, place, hfree, rfl⟩
  have hlooked : (calls engine index).answers (server.lend index (some place)) .inTransaction
      (server.handles place).transaction.isSome
      (server.lend index (some place)) :=
    ⟨place, hmine, rfl, rfl⟩
  cases hleft : server.handles place with
  | mk transaction isOff =>
    rw [hleft] at hlooked
    cases transaction with
    | none =>
      obtain ⟨trace, last, hsteps, hlast⟩ :=
        hreset (server.lend index (some place)) rfl hleft rfl rfl (Or.inl rfl)
      exact ⟨_, last, .answer htaken (.answer hlooked hsteps), hlast⟩
    | some copy =>
      have hrolled : (calls engine index).answers (server.lend index (some place))
          (.rollback (.checkout use)) (.ok ())
          (((server.lend index (some place)).put place ⟨none, isOff⟩).unlock place) := by
        refine ⟨place, hmine, ?_⟩
        change _ = (Server.put _ place { server.handles place with transaction := none }).unlock _
        rw [hleft]
      obtain ⟨trace, last, hsteps, hlast⟩ :=
        hreset (((server.lend index (some place)).put place ⟨none, isOff⟩).unlock place) rfl
          (Server.put_self _ place _) rfl rfl (unlock_holder server place)
      exact ⟨_, last, .answer htaken (.answer hlooked (.answer hrolled hsteps)), hlast⟩

/-- A transaction of a caller alone, on a connection that may have the write lock. -/
theorem exists_transacted {index place : ℕ} {server : Server Content} {work : words.Work}
    {value : words.Value} {copy : Content} (hnew : server.connection index = none)
    (hfree : server.IsFree place) (hholder : server.holder = none ∨ server.holder = some place)
    (hexecutes : engine.executes work server.database value copy) (busyTimeout : ℚ) (more : ℕ) :
    ∃ trace last, Steps (calls engine index) (transact busyTimeout (more + 1) work) server trace
        (.finish value) last ∧
      last.commits = server.commits ++ [⟨index, copy⟩] ∧ last.database = copy ∧
      last.connection = (server.lend index (some place)).connection ∧ last.holder = none := by
  refine exists_checkedOut hnew hfree
    fun clean hat hhandle hdatabase hcommits hconnection hlock ↦ ?_
  -- The transaction begins with the write lock.
  let begun : Server Content := { clean.put place ⟨some clean.database, false⟩ with
    holder := some place }
  have hbegin : (calls engine index).answers clean .begin (.ok ()) begun := by
    refine ⟨place, hat, by rw [hhandle], ?_⟩
    rcases hlock with hsame | hnone
    · rcases hholder with hnone | hmine
      · exact Or.inr ⟨hsame.trans hnone, by rw [hhandle]⟩
      · refine Or.inl ?_
        rw [hhandle]
        change _ = ({ clean.put place ⟨some clean.database, false⟩ with holder := clean.holder } :
          Server Content)
        rw [hsame, hmine]
    · exact Or.inr ⟨hnone, by rw [hhandle]⟩
  let worked : Server Content := begun.put place ⟨some copy, false⟩
  have hwork : (calls engine index).answers begun (.work work) (.ok value) worked := by
    have hcopy : begun.handles place = ⟨some clean.database, false⟩ := clean.put_self place _
    refine ⟨place, hat, clean.database, copy, by rw [hcopy], ?_, fun _ ↦ ⟨rfl, by rw [hcopy]⟩, ?_⟩
    · rwa [hdatabase]
    · rw [hcopy]
  let last : Server Content :=
    ((worked.put place ⟨none, false⟩).commitAs index copy).unlock place
  have hcommit : (calls engine index).answers worked .commit (.ok ()) last := by
    have hcopy : worked.handles place = ⟨some copy, false⟩ := begun.put_self place _
    refine ⟨place, hat, copy, by rw [hcopy], Or.inl ⟨rfl, ?_⟩⟩
    rw [hcopy]
  refine ⟨_, last, .answer (?_ : (calls engine index).answers clean .clock 0 clean)
    (.answer hbegin (.answer hwork (.answer hcommit .refl))), ?_, rfl, hconnection, if_pos rfl⟩
  · rfl
  · exact congrArg (· ++ [(⟨index, copy⟩ : Commit Content)]) hcommits

/-- A query of a caller alone. -/
theorem exists_queried {index place : ℕ} {server : Server Content} {read : words.Read}
    {rows : words.Rows read} (hnew : server.connection index = none)
    (hfree : server.IsFree place) (hreads : engine.reads read server.database rows) :
    ∃ trace last, Steps (calls engine index) (query read) server trace (.finish rows) last ∧
      last.commits = server.commits ∧ last.database = server.database ∧
      last.connection = (server.lend index (some place)).connection := by
  refine exists_checkedOut hnew hfree
    fun clean hat hhandle hdatabase hcommits hconnection hlock ↦ ?_
  let guarded : Server Content := clean.put place ⟨none, true⟩
  have hguarded : guarded.handles place = ⟨none, true⟩ := clean.put_self place _
  have hon : (calls engine index).answers clean (.setQueryOnly true) (.ok ()) guarded := by
    refine ⟨place, hat, ?_⟩
    change _ = clean.put place { clean.handles place with queryOnly := true }
    rw [hhandle]
  have hfetch : (calls engine index).answers guarded (.fetch read) (.ok rows)
      { guarded.put place ⟨none, true⟩ with holder := guarded.holder } := by
    refine ⟨place, hat, ?_, .quiet (Or.inl rfl)⟩
    rw [hguarded]
    change engine.reads read clean.database rows
    rwa [hdatabase]
  have hoff : (calls engine index).answers
      { guarded.put place ⟨none, true⟩ with holder := guarded.holder } (.setQueryOnly false)
      (.ok ()) ((guarded.put place ⟨none, true⟩).put place
        { (guarded.put place ⟨none, true⟩).handles place with queryOnly := false }) :=
    ⟨place, hat, rfl⟩
  exact ⟨_, _, .answer hon (.answer hfetch (.answer hoff .refl)), hcommits, hdatabase, hconnection⟩

/-- A transaction and then a query, each of a caller alone, on connections in any state, one of
them with the write lock. -/
theorem exists_served (handles : ℕ → Handle Content) {work : words.Work} {value : words.Value}
    {copy : Content} {read : words.Read} {rows : words.Rows read}
    (hexecutes : engine.executes work origin value copy) (hreads : engine.reads read copy rows)
    (busyTimeout : ℚ) (more : ℕ) :
    ∃ middle final, Traffic.Run engine busyTimeout (more + 1)
        (.opened origin handles (some 0)) middle ∧
      middle.callers = [⟨.transact work, 0, .finish value⟩] ∧
      Traffic.Run engine busyTimeout (more + 1) middle final ∧
      final.callers = [⟨.transact work, 0, .finish value⟩, ⟨.query read, 1, .finish rows⟩] ∧
      final.server.database = copy := by
  let dirty : Traffic words Content := .opened origin handles (some 0)
  have hidle (caller : ℕ) : dirty.server.connection caller = none := rfl
  have hfree (place : ℕ) : dirty.server.IsFree place :=
    fun caller hmine ↦ by cases (hidle caller).symm.trans hmine
  obtain ⟨_, written, hwrite, hcommits, hdatabase, hconnection, _⟩ :=
    exists_transacted (hidle 0) (hfree 0) (Or.inr rfl) hexecutes busyTimeout more
  have hfirst := @run_served _ _ _ busyTimeout (more + 1) dirty dirty (.transact work) written
    value _ .refl trivial hwrite
  have hnew : written.connection 1 = none := by
    rw [hconnection]
    rfl
  have hother : written.IsFree 1 := by
    intro caller hmine
    rw [hconnection] at hmine
    by_cases hcaller : caller = 0
    · subst hcaller
      rw [Server.lend_self] at hmine
      cases hmine
    · rw [Server.lend_other _ _ hcaller] at hmine
      cases hmine
  obtain ⟨_, last, hquery, _, hsame, _⟩ := exists_queried hnew hother (hdatabase.symm ▸ hreads)
  have hsecond := @run_served _ _ _ busyTimeout (more + 1)
    ⟨written, [⟨.transact work, 0, .finish value⟩]⟩ _ (.query read) last rows _ .refl trivial hquery
  refine ⟨_, _, hfirst, rfl, hsecond, ?_, hsame.trans hdatabase⟩
  change [_, (⟨.query read, written.commits.length, .finish rows⟩ : Caller words)] = _
  rw [hcommits]
  rfl

end Serializing

/-- A counter: the work returns its value and raises it by one, and a statement returns it. -/
def counter : Engine ⟨Unit, Unit, ℕ, Unit, fun _ ↦ ℕ⟩ ℕ where
  executes _ base value copy := value = base ∧ copy = base + 1
  reads _ state rows := rows = state
  selects _ := False

/-- A transaction and a query, on connections that were left in a transaction and under
`query_only`, one of them with the write lock. -/
theorem serializable_dirty : ∃ traffic, Traffic.Run counter 5 3
    (.opened 0 (fun _ ↦ ⟨some 7, true⟩) (some 0)) traffic ∧ traffic.server.database = 1 ∧
      (traffic.callers)[1]? = some ⟨.query (), 1, .finish (1 : ℕ)⟩ ∧
      Serialized counter 0 traffic := by
  have hwork : counter.executes () 0 0 1 := ⟨rfl, rfl⟩
  have hread : counter.reads () 1 1 := rfl
  obtain ⟨_, final, hfirst, _, hsecond, hcallers, hdatabase⟩ :=
    exists_served (fun _ ↦ ⟨some 7, true⟩) hwork hread 5 2
  exact ⟨final, hfirst.trans hsecond, hdatabase, by rw [hcallers]; rfl,
    serializable (hfirst.trans hsecond)⟩

/-- The statement of a query, on a connection that was left in a transaction. -/
theorem guarded_dirty : ∃ traffic, Traffic.Run counter 5 3
    (.opened 0 (fun _ ↦ ⟨some 7, false⟩) none) traffic ∧
      Tidy counter 0 (.fetch ()) traffic.server := by
  let dirty : Server ℕ := ⟨0, fun _ ↦ ⟨some 7, false⟩, none, fun _ ↦ none, []⟩
  let taken := dirty.lend 0 (some 0)
  let closed := (taken.put 0 ⟨none, false⟩).unlock 0
  let cleaned := closed.put 0 ⟨none, false⟩
  have hacquire : (calls counter 0).answers dirty (.acquire .query) (.ok ()) taken :=
    ⟨rfl, 0, fun _ hmine ↦ (by cases hmine), rfl⟩
  have hlook : (calls counter 0).answers taken .inTransaction true taken := ⟨0, rfl, rfl, rfl⟩
  have hrollback : (calls counter 0).answers taken (.rollback (.checkout .query)) (.ok ()) closed :=
    ⟨0, rfl, rfl⟩
  have hreset : (calls counter 0).answers closed (.resetQueryOnly .query) (.ok ()) cleaned :=
    ⟨0, rfl, rfl⟩
  have hswitch : (calls counter 0).answers cleaned (.setQueryOnly true) (.ok ())
      (cleaned.put 0 ⟨none, true⟩) :=
    ⟨0, rfl, rfl⟩
  have hsteps : Steps (calls counter 0) (query ()) dirty _ (.await (.fetch ()) _)
      (cleaned.put 0 ⟨none, true⟩) :=
    .answer hacquire (.answer hlook (.answer hrollback (.answer hreset (.answer hswitch .refl))))
  have hcome : Traffic.Run counter 5 3 (.opened 0 (fun _ ↦ ⟨some 7, false⟩) none)
      ⟨dirty, [⟨.query (), 0, query ()⟩]⟩ :=
    .single (@Traffic.Step.come _ _ counter 5 3 _ (.query ()) trivial)
  have hrun := hcome.trans (@run_of_steps _ _ counter 5 3 0 (.query ()) 0 _ _ _ _ _ _ rfl hsteps)
  exact ⟨_, hrun, guarded hrun rfl⟩

end KSQLite.Connection
