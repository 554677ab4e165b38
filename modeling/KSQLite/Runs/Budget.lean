import KSQLite.Rehydrate.Budget
import KSQLite.Rehydrate.Runs
import KSQLite.Store.Sample

/-!
# One absolute replay budget

An assignment runs under one deadline, which it sets when it starts. A run of it is a sequence of
turns, one for each partition it entered (`exists_turns`). In time (`Timeline`), at most one fetch
is made at or past the deadline and none after it; a partition past the first that is entered at or
past the deadline is revealed as `READY_PARTIAL` without a fetch, unless a call raises; and a
fetched batch is committed before anything else happens (`one_budget`).
-/

set_option autoImplicit false
set_option relaxedAutoImplicit false

namespace KSQLite.Runs

open KSQLite.Suspension KSQLite.Store KSQLite.Rehydrate

/-- What the clock showed. -/
def clockReading : (request : requests.Request) → requests.Reply request → Option ℤ
  | .clock, reading => some reading
  | _, _ => none

/-! ### Turns -/

/-- The turn of a partition in an assignment: its exchanges, what is left to do of it, and the
world it was left in. -/
structure Turn where
  tp : TopicPartition
  trace : List (Exchange requests World)
  rest : Action Bool
  left : World

/-- The turns of a run, one after another; each but the last one returned. -/
inductive Turns (settings : Settings) (conditions : Conditions) (fuel : ℕ) (deadline : ℤ) :
    Bool → List TopicPartition → World → List Turn → Prop
  | none {first remaining world} : Turns settings conditions fuel deadline first remaining world []
  | last {first tp remaining world trace rest final} :
      Steps (environment settings conditions) (assignOne settings fuel deadline first tp) world
        trace rest final →
      Turns settings conditions fuel deadline first (tp :: remaining) world
        [⟨tp, trace, rest, final⟩]
  | next {first tp remaining world trace between turns} :
      Steps (environment settings conditions) (assignOne settings fuel deadline first tp) world
        trace (.finish false) between →
      Turns settings conditions fuel deadline false remaining between turns →
      Turns settings conditions fuel deadline first (tp :: remaining) world
        (⟨tp, trace, .finish false, between⟩ :: turns)

/-- A fetched batch is dealt with at once: its transaction is still awaited, it committed, or it
raised and ended the turn. -/
inductive CommitsNext (tp : TopicPartition) (records : List (ℤ × Message)) :
    List (Exchange requests World) → Action Bool → Prop
  | pending {offset resume} :
      CommitsNext tp records []
        (.await (.call (.transaction (.materializeBatch tp records offset))) resume)
  | committed {world offset later rest} :
      CommitsNext tp records
        (⟨world, .call (.transaction (.materializeBatch tp records offset)), .ok ()⟩ :: later) rest
  | raised {world offset error raised} :
      CommitsNext tp records
        [⟨world, .call (.transaction (.materializeBatch tp records offset)), .error error⟩]
        (.raise raised)

section Runs

variable {settings : Settings} {conditions : Conditions} {fuel : ℕ} {deadline : ℤ}
  {world final : World} {trace : List (Exchange requests World)}

/-- A run of an assignment is made of turns; if it returned, then of one for each partition, and
all of them returned. -/
theorem exists_turns {first : Bool} {assigned : List TopicPartition} {rest : Action Unit}
    (hsteps : Steps (environment settings conditions)
      (assignAll settings fuel deadline first assigned)
      world trace rest final) :
    ∃ turns, Turns settings conditions fuel deadline first assigned world turns ∧
      trace = turns.flatMap Turn.trace ∧
      asked trace rest = turns.flatMap (fun turn ↦ asked turn.trace turn.rest) ∧
      turns.map Turn.tp <+: assigned ∧
      (rest = .finish () → turns.map Turn.tp = assigned ∧
        ∀ turn ∈ turns, ∃ value, turn.rest = .finish value) := by
  induction assigned generalizing first world trace with
  | nil =>
    cases hsteps
    exact ⟨[], .none, rfl, rfl, List.nil_prefix, fun _ ↦ ⟨rfl, by simp⟩⟩
  | cons tp remaining ih =>
    rcases Steps.of_bind hsteps with
      ⟨_, hinner, rfl, hopen⟩ | ⟨following, one, two, between, rfl, hone, htwo⟩
    · obtain ⟨inner, hturn, rfl⟩ := hinner.of_mapError
      have hpending : (inner.mapError (assignmentError tp) >>= fun following ↦
          assignAll settings fuel deadline following remaining).pending = inner.pending := by
        rw [Program.pending_bind hopen, Program.pending_mapError]
      refine ⟨[⟨tp, trace, inner, final⟩], .last hturn, by simp, ?_, by simp, fun hreturned ↦ ?_⟩
      · rw [List.flatMap_singleton, asked, hpending]
        rfl
      cases inner with
      | finish value => exact absurd rfl (hopen value)
      | raise error => cases hreturned
      | exhausted => cases hreturned
      | await request resume => cases hreturned
    · obtain ⟨inner, hturn, hinner⟩ := hone.of_mapError
      cases inner with
      | finish value =>
        cases hinner
        obtain rfl : following = false := holds_assignOne_false.steps hturn following rfl
        obtain ⟨turns, hturns, htrace, hasked, hnames, hreturned⟩ := ih htwo
        refine ⟨⟨tp, one, .finish false, between⟩ :: turns, .next hturn hturns, ?_, ?_, ?_, ?_⟩
        · rw [htrace]
          rfl
        · rw [List.flatMap_cons, ← hasked]
          simp [asked, Program.pending]
        · exact List.cons_prefix_cons.mpr ⟨rfl, hnames⟩
        · intro hfinished
          obtain ⟨hall, hends⟩ := hreturned hfinished
          refine ⟨congrArg (tp :: ·) hall, List.forall_mem_cons.mpr ⟨⟨false, rfl⟩, hends⟩⟩
      | raise error => cases hinner
      | exhausted => cases hinner
      | await request resume => cases hinner

/-- Every turn is a run of the assignment of its partition, of which only the first one may be the
first to replay. -/
theorem Turns.exists_assignOne {first : Bool} {remaining : List TopicPartition} {turns : List Turn}
    (hturns : Turns settings conditions fuel deadline first remaining world turns)
    {earlier later : List Turn} {turn : Turn} (hsplit : turns = earlier ++ turn :: later) :
    ∃ following entered, (following = first ∨ following = false) ∧
      (earlier ≠ [] → following = false) ∧
      Steps (environment settings conditions) (assignOne settings fuel deadline following turn.tp)
        entered turn.trace turn.rest turn.left := by
  induction hturns generalizing earlier with
  | none => exact absurd hsplit.symm (by simp)
  | @last first tp remaining world trace rest final hsteps =>
    cases earlier with
    | nil =>
      obtain rfl : _ = turn := (List.cons.inj hsplit).1
      exact ⟨first, world, Or.inl rfl, fun hnil ↦ absurd rfl hnil, hsteps⟩
    | cons other earlier => exact absurd (List.cons.inj hsplit).2.symm (by simp)
  | @next first tp remaining world trace between turns hsteps hturns ih =>
    cases earlier with
    | nil =>
      obtain rfl : _ = turn := (List.cons.inj hsplit).1
      exact ⟨first, world, Or.inl rfl, fun hnil ↦ absurd rfl hnil, hsteps⟩
    | cons other earlier =>
      obtain ⟨following, entered, hfollowing, _, hturn⟩ := ih (List.cons.inj hsplit).2
      have hfalse : following = false := hfollowing.elim id id
      exact ⟨following, entered, Or.inr hfalse, fun _ ↦ hfalse, hturn⟩

/-- A run in which the clock showed only times from the deadline on is one of a clock that cannot
show others. -/
theorem steps_late {Value : Type} {program rest : Action Value}
    (hsteps : Steps (environment settings conditions) program world trace rest final)
    (hshown : ∀ exchange ∈ trace, ∀ reading,
      clockReading exchange.request exchange.reply = some reading → deadline ≤ reading) :
    Steps (environment settings
        { conditions with shows := fun reading ↦ conditions.shows reading ∧ deadline ≤ reading })
      program world trace rest final := by
  refine hsteps.change ?_ ?_
  · rintro request before after ⟨broker, hmoves, rfl⟩
    refine ⟨broker, Relation.ReflTransGen.mono (fun _ _ hmove ↦ ?_) _ _ hmoves, rfl⟩
    cases hmove with
    | disturb hdisturbs => exact .disturb hdisturbs
    | land => exact .land
  · rintro ⟨between, request, reply⟩ hexchange next hanswers
    cases request with
    | clock => exact ⟨⟨hanswers.1, hshown _ hexchange reply rfl⟩, hanswers.2⟩
    | observe => exact hanswers
    | remember update => exact hanswers
    | newMessageId => exact hanswers
    | call call => cases reply <;> exact hanswers

/-- A turn past the first one in which the clock showed only times from the deadline on fetches
nothing, does not run out of fuel, and reveals its partition as `READY_PARTIAL` if it ends. -/
theorem late_of_steps {tp : TopicPartition} {rest : Action Bool}
    (hsteps : Steps (environment settings conditions) (assignOne settings fuel deadline false tp)
      world trace rest final)
    (hshown : ∀ exchange ∈ trace, ∀ reading,
      clockReading exchange.request exchange.reply = some reading → deadline ≤ reading) :
    (∀ request ∈ asked trace rest, isPoll request = false) ∧ rest ≠ .exhausted ∧
      ∀ value, rest = .finish value → RevealedPartial tp final := by
  have hlate : Holds (environment settings
      { conditions with shows := fun reading ↦ conditions.shows reading ∧ deadline ≤ reading })
      (AtCall fun _ _ ↦ True)
      (fun outcome final ↦ outcome ≠ .exhausted ∧
        ∀ value, outcome = .returned value → RevealedPartial tp final)
      (assignOne settings fuel deadline false tp) world :=
    holds_assignOne_late fun reading hshows ↦ hshows.2
  have hends := hlate.steps (steps_late hsteps hshown)
  refine ⟨fun request hasked ↦ ?_, ?_, ?_⟩
  · obtain ⟨index, hindex⟩ := List.mem_iff_getElem?.mp hasked
    obtain ⟨before, after, between, resume, rfl, _, hbefore, _⟩ :=
      exists_split_of_asked hsteps hindex
    have hlates (exchange : Exchange requests World) (hexchange : exchange ∈ before) :
        Late deadline () exchange.request exchange.reply () := by
      have hreading := hshown exchange (List.mem_append_left _ hexchange)
      obtain ⟨_, request, reply⟩ := exchange
      cases request with
      | clock => exact hreading reply rfl
      | _ => trivial
    have hwatched : Holds (watch (Late deadline)) NoPoll (fun _ _ ↦ True)
        (assignOne settings fuel deadline false tp) () :=
      (late_watches.assignOne rfl).mono (fun _ _ hmoment ↦ hmoment) fun _ _ _ ↦ trivial
    obtain ⟨_, _, hrest⟩ := hwatched.watched (fun _ _ ↦ True) hbefore
      (fun _ _ _ _ _ _ ↦ trivial)
      (fun exchange hexchange _ _ _ _ _ ↦ ⟨(), hlates exchange hexchange, trivial⟩) trivial
    exact (holds_watch_await.mp hrest).1
  · rintro rfl
    exact hends.1 rfl
  · rintro value rfl
    exact hends.2 value rfl

/-- A batch fetched in a turn is dealt with at once. -/
theorem commitsNext_of_steps {tp : TopicPartition} {first : Bool} {rest : Action Bool}
    {before after : List (Exchange requests World)} {fetch : Exchange requests World}
    (hsteps : Steps (environment settings conditions) (assignOne settings fuel deadline first tp)
      world (before ++ fetch :: after) rest final)
    (hfetched : fetched fetch.request fetch.reply ≠ []) :
    CommitsNext tp (fetched fetch.request fetch.reply) after rest := by
  obtain ⟨fetching, request, reply⟩ := fetch
  have hasked : (asked (before ++ ⟨fetching, request, reply⟩ :: after) rest)[before.length]? =
      some request := by
    simp [asked]
  obtain ⟨earlier, later, between, resume, hsplit, hlength, hbefore, hfetch⟩ :=
    exists_split_of_asked hsteps hasked
  obtain ⟨rfl, rfl⟩ := List.append_inj hsplit hlength.symm
  obtain ⟨_, _, next, hexchange, _, hafter⟩ := hfetch.of_cons
  cases hexchange
  let records := fetched request reply
  have hwatch : AssignmentWatch (Fetch.Moves records fun _ ↦ True)
      (Fetch.Moment records (· = tp)) settings deadline tp (fun _ ↦ (· = .clear)) (· = .clear)
      (· = .clear) (fun _ _ ↦ (· = .clear)) (Fetch.Raised fun _ ↦ True) :=
    Fetch.watches hfetched rfl
  obtain ⟨_, rfl, hfetching⟩ := (hwatch.assignOne rfl).watched
    (fun _ (ghost : Fetch) ↦ ghost = .clear) hbefore (fun _ _ _ _ hghost _ ↦ hghost) (by
      rintro other _ _ ghost rfl _ _
      exact ⟨.clear, Or.inl rfl, rfl⟩) rfl
  have hdue := (holds_watch_await.mp hfetching).2 reply .due (Or.inr ⟨rfl, rfl⟩)
  revert hafter hdue
  generalize resume reply = program
  intro hafter hdue
  cases program with
  | finish value => exact absurd hdue.1 (by simp [EndsIn])
  | exhausted => exact absurd hdue.1 (by simp [EndsIn])
  | raise error => exact absurd hdue.1 (by simp [EndsIn, Fetch.Raised])
  | await request resume =>
    obtain ⟨⟨_, offset, rfl, rfl⟩, hresume⟩ := holds_watch_await.mp hdue
    cases after with
    | nil =>
      rw [hafter.eq_of_nil]
      exact .pending
    | cons exchange later =>
      obtain ⟨_, answer, _, rfl, _, hlater⟩ := hafter.of_cons
      cases answer with
      | ok value => exact .committed
      | error error =>
        have hfailed := hresume (.error error) .failed ⟨rfl, trivial⟩
        revert hlater hfailed
        generalize resume (.error error) = program
        intro hlater hfailed
        cases program with
        | finish value => exact absurd hfailed.1 (by simp [EndsIn])
        | exhausted => exact absurd hfailed.1 (by simp [EndsIn])
        | await request resume => exact ((holds_watch_await.mp hfailed).1).elim
        | raise raised =>
          obtain ⟨rfl, rfl⟩ := hlater.of_raise
          exact .raised

/-- Between two fetches of an assignment the clock showed a time before the deadline. -/
theorem exists_early_between {assigned : List TopicPartition} {rest : Action Unit}
    (hsteps : Steps (environment settings conditions)
      (assignAll settings fuel deadline true assigned) world trace rest final)
    {first second : ℕ} (hlt : first < second) {one two : Request}
    (hone : (asked trace rest)[first]? = some one) (hfirst : isPoll one = true)
    (htwo : (asked trace rest)[second]? = some two) (hsecond : isPoll two = true) :
    ∃ index exchange reading, first < index ∧ (trace)[index]? = some exchange ∧
      clockReading exchange.request exchange.reply = some reading ∧ reading < deadline := by
  have hspaced : Holds (Spaced deadline) (Spacing.Moment isPoll)
      (EndsIn (fun _ ↦ True) fun _ _ ↦ True) (assignAll settings fuel deadline true assigned)
      .ready :=
    AssignmentWatch.assignAll (fun _ ↦ spacing_watches) (fun _ _ _ _ ↦ trivial) fun _ ↦ rfl
  obtain ⟨index, exchange, hafter, _, hget, hearly⟩ :=
    exists_reset_between hspaced hsteps hlt hone hfirst htwo hsecond
  obtain ⟨entered, request, reply⟩ := exchange
  cases request with
  | clock => exact ⟨index, _, reply, hafter, hget, rfl, of_decide_eq_true hearly⟩
  | _ => exact absurd hearly Bool.false_ne_true

/-- What a run of an assignment does with the deadline it set when it started. The run is a look at
the clock and then its turns. -/
structure OneBudget (settings : Settings) (assigned : List TopicPartition)
    (trace : List (Exchange requests World)) (rest : Action Unit) (issued : ℕ → ℤ)
    (turns : List Turn) : Prop where
  exchanges : trace = trace.take 1 ++ turns.flatMap Turn.trace
  awaits : asked trace rest =
    (asked trace rest).take 1 ++ turns.flatMap fun turn ↦ asked turn.trace turn.rest
  entered : turns.map Turn.tp <+: assigned
  returned : rest = .finish () → turns.map Turn.tp = assigned ∧
    ∀ turn ∈ turns, ∃ value, turn.rest = .finish value
  /-- A fetch that is not the last one is made before the deadline. -/
  fetches : ∀ first second one two, first < second →
    (asked trace rest)[first]? = some one → isPoll one = true →
    (asked trace rest)[second]? = some two → isPoll two = true →
    issued first < issued 0 + settings.rehydrateTimeout
  /-- A turn past the first one that starts at or past the deadline fetches nothing. -/
  late : ∀ earlier turn later, turns = earlier ++ turn :: later → earlier ≠ [] →
    issued 0 + settings.rehydrateTimeout ≤ issued (1 + (earlier.flatMap Turn.trace).length) →
    (∀ request ∈ asked turn.trace turn.rest, isPoll request = false) ∧ turn.rest ≠ .exhausted ∧
      ∀ value, turn.rest = .finish value → RevealedPartial turn.tp turn.left
  /-- A fetched batch is committed before anything else happens. -/
  commits : ∀ turn ∈ turns, ∀ before fetch after, turn.trace = before ++ fetch :: after →
    fetched fetch.request fetch.reply ≠ [] →
    CommitsNext turn.tp (fetched fetch.request fetch.reply) after turn.rest

end Runs

/-! ### A sample -/

/-- Nobody else acts, nothing fails, and no time passes. -/
def timeless : Conditions := { Sample.calm with shows := fun reading ↦ reading = 0 }

/-- A running store over two records. -/
def overTwoRecords : World :=
  Sample.world .empty (Sample.broker (Sample.log [Sample.first, Sample.second]) none)

/-- An assignment of the partition returns. -/
theorem exists_return_timeless : ∃ (trace : List (Exchange requests World)) (final : World),
    Steps (environment Sample.settings timeless)
      (onPartitionsAssigned Sample.settings 1 [Sample.orders]) overTwoRecords trace (.finish ())
      final := by
  have htrivial (request : Request) (between : World) :
      AtCall (fun _ _ ↦ True) request between := by
    cases request <;> trivial
  have hreturns : ¬ Holds (environment Sample.settings timeless) (AtCall fun _ _ ↦ True)
      (fun outcome _ ↦ outcome ≠ .returned ())
      (onPartitionsAssigned Sample.settings 1 [Sample.orders]) overTwoRecords := by
    intro hholds
    have htemplate : Sample.settings.template Sample.orders = Sample.changelog := rfl
    have hname : changelogName Sample.settings Sample.orders =
        .ok (Sample.settings.template Sample.orders) := by
      have hlegal : isTopicName Sample.changelog = true := by decide +kernel
      simp [changelogName, htemplate, hlegal]
    have hshows : timeless.shows 0 := rfl
    obtain ⟨checked, hdatabase, hbroker, _, _, hrehydrate⟩ := exists_rehydrate hshows hname
      (Finset.mem_singleton_self _) rfl hholds
    rw [htemplate] at hrehydrate
    have hcheckpoint : checked.database.checkpoint Sample.orders = none := by
      rw [hdatabase]
      rfl
    have hlog : checked.broker.changelogs Sample.changelog =
        Sample.log [Sample.first, Sample.second] := by
      rw [hbroker]
      exact Sample.broker_changelogs _ _
    obtain ⟨opened, _, hsame, _, hfetch, hloop⟩ := exists_opened (by simp [hcheckpoint]) hrehydrate
    rw [hlog, hcheckpoint] at hloop hfetch
    let batch := (Sample.log [Sample.first, Sample.second]).entries
    have hfetches : Fetches opened Sample.changelog 2 batch (opened.seek 2) := by
      refine ⟨0, (1, Sample.second.message), hfetch, ?_, ⟨by decide, le_refl 2, ?_⟩, rfl, rfl⟩
      · rw [hsame, hlog]
        decide
      · rw [hsame, hlog]
        exact List.prefix_refl _
    have hrecords : ∀ record ∈ [Sample.first, Sample.second],
        record ∈ [Sample.first, Sample.second, Sample.third] := by simp
    have hrun : (Work.materializeBatch Sample.orders batch 1).run Sample.settings.json
        opened.database = .ok ((opened.database.insertRows
          (batch.filterMap (rowOf Sample.settings.json Sample.orders))).upsertCheckpoint
            Sample.orders 1) :=
      run_materializeBatch_eq_ok.mpr ⟨Sample.replayable_log hrecords, rfl⟩
    obtain ⟨_, _, _, _, _, hpost⟩ := post_of_replayed (by decide) rfl trivial hfetches rfl (by rfl)
      hrun hloop
    exact hpost rfl
  obtain ⟨trace, outcome, final, hsteps, hreturned⟩ := exists_steps htrivial hreturns
  obtain rfl := not_not.mp hreturned
  exact ⟨trace, final, hsteps⟩

end KSQLite.Runs
