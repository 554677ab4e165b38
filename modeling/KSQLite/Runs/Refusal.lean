import KSQLite.Rehydrate.Blocking
import KSQLite.Rehydrate.Fetching
import KSQLite.Runs.Footprint

/-!
# A fetched record that replay cannot read

An assignment that fetched a record of an unknown format version ends there: the transaction of its
batch is the last thing it awaits, the transaction does not commit, and the assignment raises a
`RehydrateError` (`refuses_of_fetched`). The database stays as it was at the fetch.
-/

set_option autoImplicit false
set_option relaxedAutoImplicit false

namespace KSQLite.Runs

open KSQLite.Suspension KSQLite.Store KSQLite.Rehydrate

/-- The runner raises storage errors only, whatever fails in SQLite or in the pool. -/
def MapsErrors (conditions : Conditions) : Prop :=
  ∀ work error, conditions.fails (.transaction work) error → error.isStorageError = true

/-- The errors of a refused batch. -/
def Refused (error : Error) : Prop := error.isStorageError = true ∨ error.isRehydrateError = true

section Watch

variable {settings : Settings} {records : List (ℤ × Message)}

/-- The boundary of an assignment raises a refusal as a `RehydrateError`. -/
theorem isRehydrateError_assignmentError {tp : TopicPartition} {error : Error}
    (hrefused : Refused error) : (assignmentError tp error).isRehydrateError = true := by
  unfold assignmentError
  rcases hrefused with hstorage | hrehydrate
  · rw [hstorage]
    rfl
  · split_ifs
    · rfl
    · exact hrehydrate

/-- A whole assignment: the transaction of a fetched batch is due, and its refusal goes on as a
`RehydrateError`. -/
theorem holds_watch_assign {fuel : ℕ} {assigned : List TopicPartition} (hrecords : records ≠ []) :
    Holds (watch (Fetch.Moves records Refused)) (Fetch.Moment records fun _ ↦ True)
      (EndsIn (· = .clear) (Fetch.Raised (·.isRehydrateError = true)))
      ((Operation.assign assigned).action settings fuel) .clear := by
  have hguard : Facade.ensureRunning.Within isPoll 0 := by
    unfold Facade.ensureRunning
    rw [observe, Program.await_bind, Program.Within, if_neg (by simp [isPoll])]
    intro memory
    rw [Program.finish_bind]
    split_ifs
    · exact .raise _
    · exact .finish ()
  have hguarded : Holds (watch (Fetch.Moves records Refused)) (Fetch.Moment records fun _ ↦ True)
      (EndsIn (· = .clear) (Fetch.Raised (·.isRehydrateError = true))) Facade.ensureRunning
      .clear :=
    hguard.holds_watch (Fetch.closedUnder_clear hrecords) (by rintro error _ rfl; trivial) rfl
  refine hguarded.bind ?_ (fun _ _ hraised ↦ hraised) fun _ hclear ↦ hclear
  rintro _ _ rfl
  refine holds_watch_await.mpr ⟨trivial, ?_⟩
  rintro now after (rfl | ⟨_, hfetched⟩)
  · refine AssignmentWatch.assignAll (fun tp ↦ Fetch.watches hrecords trivial)
      (fun tp error after hraised ↦ ?_) rfl
    cases after with
    | clear => trivial
    | due => exact hraised
    | failed => exact isRehydrateError_assignmentError hraised
  · exact absurd hfetched.symm hrecords

end Watch

/-! ### Runs -/

/-- A program that was refused a batch: it raises a `RehydrateError`, or it still awaits the
transaction of the batch. -/
def Refuses (entry : ℤ × Message) (rest : Action Unit) : Prop :=
  (∃ error, rest = .raise error ∧ error.isRehydrateError = true) ∨
    ∃ tp records offset resume, entry ∈ records ∧ rest = @Program.await requests Error Unit
      (.call (.transaction (.materializeBatch tp records offset))) resume

section Histories

variable {settings : Settings} {conditions : Conditions} {fuel : ℕ} {entry : ℤ × Message}
  {world final : World} {trace : List (Exchange requests World)}

/-- Interference leaves the database alone. -/
theorem database_of_interferes {request : Request} {next : World}
    (hinterferes : (environment settings conditions).interferes request world next) :
    next.database = world.database := by
  obtain ⟨broker, _, rfl⟩ := hinterferes
  rfl

/-- A refused record of a batch that failed on it: the error is one of a refusal. -/
theorem refused_of_replayRecords {json : String → Option String} {tp : TopicPartition}
    {records : List (ℤ × Message)} {database : Database} {error : Error}
    (herror : replayRecords json tp records database = .error error) :
    Refused (transactionError error) := by
  induction records generalizing database with
  | nil => cases herror
  | cons entry rest ih =>
    unfold replayRecords at herror
    cases hentry : replayRecord json tp database entry with
    | ok replayed =>
      rw [hentry] at herror
      exact ih herror
    | error raised =>
      rw [hentry] at herror
      cases herror
      unfold replayRecord at hentry
      cases hclassify : classify entry.2 with
      | foreign reason =>
        rw [hclassify] at hentry
        cases hentry
      | unknownVersion messageId version =>
        rw [hclassify] at hentry
        cases hentry
        exact Or.inr rfl
      | ksqlite record =>
        rw [hclassify] at hentry
        change Database.insertRecord _ _ _ = _ at hentry
        unfold Database.insertRecord at hentry
        split at hentry
        · cases hentry
          exact Or.inl rfl
        · cases hentry

/-- The errors of the transaction of a batch. -/
theorem refused_of_raises (hmaps : MapsErrors conditions) {tp : TopicPartition}
    {records : List (ℤ × Message)} {offset : ℤ} {error : Error}
    (hraises : Raises settings conditions world
      (.transaction (.materializeBatch tp records offset)) error) : Refused error := by
  rcases hraises with hfails | ⟨raised, hrun, rfl⟩
  · exact Or.inl (hmaps _ _ hfails)
  · change (replayRecords settings.json tp records world.database).map _ = _ at hrun
    cases hreplayed : replayRecords settings.json tp records world.database with
    | ok replayed =>
      rw [hreplayed] at hrun
      cases hrun
    | error error =>
      rw [hreplayed] at hrun
      cases hrun
      exact refused_of_replayRecords hreplayed

/-- A fetch commits nothing. -/
theorem database_of_fetched {exchange : Exchange requests World} {next : World}
    (hfetched : fetched exchange.request exchange.reply ≠ [])
    (hanswers : (environment settings conditions).answers exchange.world exchange.request
      exchange.reply next) : next.database = exchange.world.database := by
  have hcommitted : Committed settings exchange next := database_of_answers hanswers
  obtain ⟨world, request, reply⟩ := exchange
  cases request with
  | call call =>
    cases call with
    | getmany name limit =>
      cases reply with
      | error error => exact absurd rfl hfetched
      | ok records => exact hcommitted
    | _ => exact absurd rfl hfetched
  | _ => exact absurd rfl hfetched

/-- An assignment that fetched an unreadable record changes nothing from then on, and raises a
`RehydrateError` as soon as the transaction of the batch is answered. -/
theorem refuses_of_fetched (hunreadable : Unreadable entry.2) (hmaps : MapsErrors conditions)
    {assigned : List TopicPartition} {rest : Action Unit}
    (hsteps : Steps (environment settings conditions)
      ((Operation.assign assigned).action settings fuel) world trace rest final)
    {exchange : Exchange requests World} (hexchange : exchange ∈ trace)
    (hfetched : entry ∈ fetched exchange.request exchange.reply) :
    final.database = exchange.world.database ∧ Refuses entry rest := by
  obtain ⟨before, after, resume, next, rfl, hbefore, hanswers, hafter⟩ := hsteps.split hexchange
  have hrecords : fetched exchange.request exchange.reply ≠ [] := List.ne_nil_of_mem hfetched
  -- Up to the fetch the watch takes note of nothing.
  obtain ⟨_, rfl, hfetching⟩ := (holds_watch_assign hrecords).watched
    (fun _ (ghost : Fetch) ↦ ghost = .clear) hbefore (fun _ _ _ _ hghost _ ↦ hghost) (by
      rintro other _ _ ghost rfl _ _
      exact ⟨.clear, Or.inl rfl, rfl⟩) rfl
  have hdue := (holds_watch_await.mp hfetching).2 exchange.reply .due (Or.inr ⟨rfl, rfl⟩)
  have hsame := database_of_fetched hrecords hanswers
  obtain ⟨ghost, ⟨hghost, hdatabase⟩, hrest⟩ := hdue.watched
    (fun world (ghost : Fetch) ↦ ghost ≠ .clear ∧ world.database = exchange.world.database) hafter
    (fun _ _ _ _ hrelated hinterferes ↦
      ⟨hrelated.1, (database_of_interferes hinterferes).trans hrelated.2⟩) (by
      rintro ⟨between, request, reply⟩ _ later ghost ⟨hghost, hdatabase⟩ hmoment hanswer
      cases ghost with
      | clear => exact absurd rfl hghost
      | failed => exact hmoment.elim
      | due =>
        obtain ⟨tp, offset, _, rfl⟩ := hmoment
        cases reply with
        | ok value =>
          obtain ⟨committed, hrun, _⟩ := hanswer
          exact absurd hrun (not_run_of_unreadable hfetched hunreadable)
        | error error =>
          obtain ⟨hraises, rfl⟩ := hanswer
          exact ⟨.failed, ⟨rfl, refused_of_raises hmaps hraises⟩, by simp, hdatabase⟩)
    ⟨by simp, hsame⟩
  refine ⟨hdatabase, ?_⟩
  cases rest with
  | finish value => exact absurd hrest hghost
  | exhausted => exact absurd hrest hghost
  | raise error =>
    cases ghost with
    | clear => exact absurd rfl hghost
    | due => exact hrest.elim
    | failed => exact Or.inl ⟨error, rfl, hrest⟩
  | await request resume =>
    have hmoment := (holds_watch_await.mp hrest).1
    cases ghost with
    | clear => exact absurd rfl hghost
    | failed => exact hmoment.elim
    | due =>
      obtain ⟨tp, offset, _, rfl⟩ := hmoment
      exact Or.inr ⟨tp, _, offset, resume, hfetched, rfl⟩

end Histories

end KSQLite.Runs
