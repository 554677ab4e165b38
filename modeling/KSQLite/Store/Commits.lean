import KSQLite.Store.Calls

/-!
# Commits

What a run makes of the database. It changes only when a transaction commits, or when a migration
empties `_owned` (`database_of_answers`), so a relation between databases that every commit of a
run respects holds between its ends (`Steps.related`). A commit only adds rows, all of them of the
partition it is about, and leaves every other partition alone (`Commit.leavesAlone`).
-/

set_option autoImplicit false
set_option relaxedAutoImplicit false

namespace KSQLite.Store

open KSQLite.Log KSQLite.Suspension

/-- The partition a work is about. -/
def Work.partition : Work → TopicPartition
  | .materializeBatch tp _ _ => tp
  | .applyMaterialization row => row.source
  | .ownedInsert tp => tp
  | .ownedDelete tp => tp
  | .checkpointClamp tp _ => tp

/-- What may be committed. -/
inductive Commit
  | work (work : Work)
  | deleteAllOwned
  deriving DecidableEq

/-- The database a commit leaves. -/
def Commit.run (json : String → Option String) (database : Database) :
    Commit → Except Error Database
  | .work transaction => transaction.run json database
  | .deleteAllOwned => .ok database.deleteAllOwned

/-- What an exchange committed. -/
def committed : Exchange requests World → Option Commit
  | ⟨_, .call (.transaction work), .ok _⟩ => some (.work work)
  | ⟨_, .call (.migrate .deleteAllOwned), .ok _⟩ => some .deleteAllOwned
  | _ => none

/-- The request for a commit. -/
def Commit.request : Commit → Request
  | .work transaction => .call (.transaction transaction)
  | .deleteAllOwned => .call (.migrate .deleteAllOwned)

/-- What was committed was asked for. -/
theorem request_of_committed {exchange : Exchange requests World} {commit : Commit}
    (hcommitted : committed exchange = some commit) : exchange.request = commit.request := by
  unfold committed at hcommitted
  split at hcommitted
  · cases hcommitted
    rfl
  · cases hcommitted
    rfl
  · cases hcommitted

/-- What an answer makes of the database. -/
def Committed (settings : Settings) (exchange : Exchange requests World) (next : World) : Prop :=
  match committed exchange with
  | none => next.database = exchange.world.database
  | some commit => commit.run settings.json exchange.world.database = .ok next.database

variable {settings : Settings} {conditions : Conditions}

/-- A call that succeeds changes the database only by what it commits. -/
theorem database_of_succeeds {world next : World} {call : Call} {value : call.Result}
    (hsucceeds : Succeeds settings conditions world call value next) :
    Committed settings ⟨world, .call call, .ok value⟩ next := by
  cases call with
  | endOffset name | beginningOffset name | listTopics | selectCheckpoint tp =>
    exact congrArg World.database hsucceeds.2
  | startConsumer | stopConsumer | describeConfigs name | startProducer | stopProducer
  | startAdmin | closeAdmin | closePool => exact congrArg World.database hsucceeds
  | seekToBeginning name =>
    subst hsucceeds
    exact rfl
  | getmany name limit =>
    rcases hsucceeds with ⟨_, hnothing⟩ | ⟨_, _, _, _, _, _, _, rfl⟩
    · obtain ⟨idlePolls, rfl⟩ := hnothing.exists_idlePolls
      exact rfl
    · exact rfl
  | sendAndWait name message => exact congrArg World.database hsucceeds.1
  | createTopic name retention =>
    rcases hsucceeds with ⟨_, rfl⟩ | ⟨_, _, _, rfl, _⟩
    · exact rfl
    · exact rfl
  | transaction work =>
    obtain ⟨database, hrun, rfl⟩ := hsucceeds
    exact hrun
  | migrate step =>
    cases step with
    | deleteAllOwned => exact congrArg (Except.ok ∘ World.database) hsucceeds.symm
    | createSchema | reconcile => exact congrArg World.database hsucceeds

/-- The database changes only by what an exchange commits. -/
theorem database_of_answers {world next : World} {request : Request} {reply : request.Reply}
    (hanswers : answers settings conditions world request reply next) :
    Committed settings ⟨world, request, reply⟩ next := by
  cases request with
  | clock | observe => exact congrArg World.database hanswers.2
  | remember update =>
    subst hanswers
    exact rfl
  | newMessageId =>
    obtain ⟨_, _, rfl⟩ := hanswers
    exact rfl
  | call call =>
    cases reply with
    | error error =>
      have hsame : next.database = world.database := congrArg World.database hanswers.2
      cases call with
      | migrate step => cases step <;> exact hsame
      | _ => exact hsame
    | ok value => exact database_of_succeeds hanswers

/-- What every commit of a run respects holds between the databases at its ends. -/
theorem related_of_steps {Value : Type} (relation : Database → Database → Prop)
    (hrefl : ∀ database, relation database database)
    (htrans : ∀ {first second third}, relation first second → relation second third →
      relation first third)
    {program rest : Action Value} {world final : World} {trace : List (Exchange requests World)}
    (hsteps : Steps (environment settings conditions) program world trace rest final)
    (hcommits : ∀ exchange ∈ trace, ∀ commit, committed exchange = some commit → ∀ after,
      commit.run settings.json exchange.world.database = .ok after →
      relation exchange.world.database after) :
    relation world.database final.database := by
  induction hsteps with
  | refl => exact hrefl _
  | interfere hinterferes _ ih =>
    obtain ⟨broker, _, rfl⟩ := hinterferes
    exact ih hcommits
  | @answer request resume world reply next trace program final hanswers _ ih =>
    have hrest := ih fun exchange hmem ↦ hcommits exchange (List.mem_cons_of_mem _ hmem)
    refine htrans ?_ hrest
    have hcommitted : Committed settings ⟨world, request, reply⟩ next :=
      database_of_answers hanswers
    unfold Committed at hcommitted
    cases hcommit : committed ⟨world, request, reply⟩ with
    | none =>
      rw [hcommit] at hcommitted
      rw [hcommitted]
      exact hrefl _
    | some commit =>
      rw [hcommit] at hcommitted
      exact hcommits _ List.mem_cons_self commit hcommit _ hcommitted

/-! ### What a commit changes -/

/-- The rows, the checkpoint and the visibility of a partition are as they were. -/
structure LeavesAlone (tp : TopicPartition) (before after : Database) : Prop where
  rows : after.rowsOf tp = before.rowsOf tp
  checkpoint : after.checkpoint tp = before.checkpoint tp
  owned : tp ∈ after.owned ↔ tp ∈ before.owned

/-- Rows were only added, all of them of one partition. -/
def AddsRows (tp : TopicPartition) (before after : Database) : Prop :=
  ∃ added, after.records = before.records ++ added ∧ ∀ row ∈ added, row.source = tp

/-- A checkpoint is kept or raised. -/
def AtLeast (before after : Option ℤ) : Prop :=
  ∀ checkpoint ∈ before, ∃ raised ∈ after, checkpoint ≤ raised

section Commits

variable {json : String → Option String} {tp : TopicPartition} {before after : Database}

theorem LeavesAlone.refl (tp : TopicPartition) (database : Database) :
    LeavesAlone tp database database :=
  ⟨rfl, rfl, Iff.rfl⟩

theorem LeavesAlone.trans {first second third : Database} (hfirst : LeavesAlone tp first second)
    (hsecond : LeavesAlone tp second third) : LeavesAlone tp first third :=
  ⟨hsecond.rows.trans hfirst.rows, hsecond.checkpoint.trans hfirst.checkpoint,
    hsecond.owned.trans hfirst.owned⟩

theorem addsRows_refl (tp : TopicPartition) (database : Database) :
    AddsRows tp database database :=
  ⟨[], (List.append_nil _).symm, by simp⟩

theorem AddsRows.isPrefix (hadds : AddsRows tp before after) :
    before.records <+: after.records := by
  obtain ⟨added, hadded, _⟩ := hadds
  exact ⟨added, hadded.symm⟩

/-- The rows of every other partition are the same. -/
theorem AddsRows.rowsOf_eq {other : TopicPartition} (hadds : AddsRows tp before after)
    (hother : other ≠ tp) : after.rowsOf other = before.rowsOf other := by
  obtain ⟨added, hadded, hsource⟩ := hadds
  have hnone : added.filter (fun row ↦ row.source = other) = [] := by
    refine List.filter_eq_nil_iff.mpr fun row hrow ↦ ?_
    simp [hsource row hrow, Ne.symm hother]
  simp [Database.rowsOf, hadded, hnone]

/-- Insertions of rows of a partition add rows of it. -/
theorem addsRows_insertRows {rows : List Row} (hrows : ∀ row ∈ rows, row.source = tp) :
    AddsRows tp before (before.insertRows rows) := by
  obtain ⟨added, hadded, hsublist⟩ :=
    exists_insertAll_eq_append Row.messageId before.records rows
  exact ⟨added, by rw [Database.insertRows_records, hadded],
    fun row hrow ↦ hrows row (hsublist.subset hrow)⟩

/-- A work that commits adds rows of its partition. -/
theorem Work.addsRows {work : Work} (hrun : work.run json before = .ok after) :
    AddsRows work.partition before after := by
  cases work with
  | materializeBatch tp records offset =>
    obtain ⟨_, rfl⟩ := run_materializeBatch_eq_ok.mp hrun
    have hrows : ∀ row ∈ records.filterMap (rowOf json tp), row.source = tp := by
      intro row hrow
      obtain ⟨entry, _, hentry⟩ := List.mem_filterMap.mp hrow
      exact source_of_rowOf hentry
    exact addsRows_insertRows hrows
  | applyMaterialization row =>
    obtain ⟨payload, _, rfl⟩ := Database.applyMaterialization_eq_ok.mp hrun
    have hrows : ∀ inserted ∈ [{ row with payload := payload }], inserted.source = row.source :=
      List.forall_mem_singleton.mpr rfl
    exact addsRows_insertRows hrows
  | ownedInsert tp | ownedDelete tp | checkpointClamp tp target =>
    cases hrun
    exact addsRows_refl _ _

/-- A work that commits leaves every other partition alone. -/
theorem Work.leavesAlone {work : Work} (hrun : work.run json before = .ok after)
    (hother : tp ≠ work.partition) : LeavesAlone tp before after := by
  refine ⟨(Work.addsRows hrun).rowsOf_eq hother, ?_, ?_⟩
  · cases work with
    | materializeBatch source records offset =>
      obtain ⟨_, rfl⟩ := run_materializeBatch_eq_ok.mp hrun
      exact (Database.setCheckpoint_checkpoint_of_ne hother).trans
        (congrFun (Database.insertRows_checkpoint _ _) tp)
    | applyMaterialization row =>
      obtain ⟨payload, _, rfl⟩ := Database.applyMaterialization_eq_ok.mp hrun
      exact Database.setCheckpoint_checkpoint_of_ne hother
    | checkpointClamp source target =>
      cases hrun
      exact Database.setCheckpoint_checkpoint_of_ne hother
    | ownedInsert source | ownedDelete source =>
      cases hrun
      rfl
  · cases work with
    | materializeBatch source records offset =>
      obtain ⟨_, rfl⟩ := run_materializeBatch_eq_ok.mp hrun
      change tp ∈ (Database.insertRows _ _).owned ↔ _
      rw [Database.insertRows_owned]
    | applyMaterialization row =>
      obtain ⟨payload, _, rfl⟩ := Database.applyMaterialization_eq_ok.mp hrun
      rfl
    | checkpointClamp source target =>
      cases hrun
      rfl
    | ownedInsert source =>
      cases hrun
      exact Database.mem_insertOwned.trans (or_iff_right hother)
    | ownedDelete source =>
      cases hrun
      exact Database.mem_deleteOwned.trans (and_iff_right hother)

theorem AtLeast.refl (checkpoint : Option ℤ) : AtLeast checkpoint checkpoint :=
  fun stored hstored ↦ ⟨stored, hstored, le_refl stored⟩

theorem AtLeast.trans {first second third : Option ℤ} (hfirst : AtLeast first second)
    (hsecond : AtLeast second third) : AtLeast first third := by
  intro checkpoint hcheckpoint
  obtain ⟨raised, hraised, hle⟩ := hfirst checkpoint hcheckpoint
  obtain ⟨last, hlast, hmore⟩ := hsecond raised hraised
  exact ⟨last, hlast, hle.trans hmore⟩

/-- An upsert keeps the checkpoint or raises it. -/
theorem atLeast_upsert (database : Database) (offset : ℤ) :
    AtLeast (database.checkpoint tp) ((database.upsertCheckpoint tp offset).checkpoint tp) := by
  intro stored hstored
  refine ⟨_, Database.setCheckpoint_checkpoint_self, ?_⟩
  rw [Option.mem_def.mp hstored, PartitionStateMachine.maxOffset_some]
  exact le_max_left _ _

/-- Every work but the clamp keeps the checkpoint of its partition or raises it. -/
theorem Work.atLeast {work : Work} (hrun : work.run json before = .ok after)
    (hclamp : ∀ target, work ≠ .checkpointClamp tp target) :
    AtLeast (before.checkpoint tp) (after.checkpoint tp) := by
  by_cases hother : tp = work.partition
  · subst hother
    cases work with
    | materializeBatch source records offset =>
      obtain ⟨_, rfl⟩ := run_materializeBatch_eq_ok.mp hrun
      rw [← Database.insertRows_checkpoint before]
      exact atLeast_upsert _ offset
    | applyMaterialization row =>
      obtain ⟨payload, _, rfl⟩ := Database.applyMaterialization_eq_ok.mp hrun
      exact atLeast_upsert (before.insertRow { row with payload := payload }) _
    | checkpointClamp source target => exact absurd rfl (hclamp target)
    | ownedInsert source | ownedDelete source =>
      cases hrun
      exact .refl _
  · rw [(Work.leavesAlone hrun hother).checkpoint]
    exact .refl _

end Commits

end KSQLite.Store
