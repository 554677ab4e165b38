import KSQLite.Runs.Footprint
import KSQLite.Store.Sample

/-!
# The reveal

The `records` view joins the rows with `_owned`, and a reader may look at the database between any
two commits of an assignment. A partition that is not in `_owned` when its assignment starts is not
visible before its reveal commits, and from then on all of its rows are; an assignment that raises
did not reveal it (`reveal_atomic`). Whatever was visible stays so.
-/

set_option autoImplicit false
set_option relaxedAutoImplicit false

namespace KSQLite.Runs

open KSQLite.Suspension KSQLite.Store KSQLite.Rehydrate

/-- An exchange that committed the reveal of a partition. -/
def Reveals (tp : TopicPartition) (exchange : Exchange requests World) : Prop :=
  committed exchange = some (.work (.ownedInsert tp))

/-- No row of a partition is visible. -/
def Invisible (tp : TopicPartition) (database : Database) : Prop :=
  ∀ row ∈ database.view, row.source ≠ tp

/-- Every row of a partition is visible. -/
def Visible (tp : TopicPartition) (database : Database) : Prop :=
  ∀ row ∈ database.records, row.source = tp → row ∈ database.view

/-- What a reader sees of a database after part of an assignment: a partition is invisible before
its reveal and visible after it, what was visible before the assignment still is, and the visible
rows of a partition that is not assigned are the same. -/
structure Snapshot (tp : TopicPartition) (assigned : List TopicPartition) (before : Database)
    (trace : List (Exchange requests World)) (database : Database) : Prop where
  hidden : (∀ exchange ∈ trace, ¬ Reveals tp exchange) → Invisible tp database
  revealed : (∃ exchange ∈ trace, Reveals tp exchange) → Visible tp database
  kept : ∀ row ∈ before.view, row ∈ database.view
  unchanged : ∀ other, other ∉ assigned →
    (database.view.filter fun row ↦ row.source = other) =
      before.view.filter fun row ↦ row.source = other

variable {settings : Settings} {conditions : Conditions} {fuel : ℕ} {world final : World}
  {tp : TopicPartition} {Value : Type} {program rest : Action Value}
  {trace : List (Exchange requests World)}

theorem mem_view {database : Database} {row : Row} :
    row ∈ database.view ↔ row ∈ database.records ∧ row.source ∈ database.owned := by
  simp [Database.view]

theorem invisible_of_notMem {database : Database} (howned : tp ∉ database.owned) :
    Invisible tp database := by
  rintro row hrow rfl
  exact howned (mem_view.mp hrow).2

theorem visible_of_mem {database : Database} (howned : tp ∈ database.owned) :
    Visible tp database := by
  rintro row hrow rfl
  exact mem_view.mpr ⟨hrow, howned⟩

/-- What an assignment commits: batches, reveals and clamps. -/
inductive Assigning : Commit → Prop
  | batch (source : TopicPartition) (records : List (ℤ × Message)) (offset : ℤ) :
      Assigning (.work (.materializeBatch source records offset))
  | reveal (source : TopicPartition) : Assigning (.work (.ownedInsert source))
  | clamp (source : TopicPartition) (target : ℤ) :
      Assigning (.work (.checkpointClamp source target))

/-- A call that commits at most what an assignment does. -/
def AssignCall (call : Call) : Prop :=
  ∀ commit : Commit, Request.call call = commit.request → Assigning commit

theorem assignCall_of_awaits {job : Job} {point : Point} {call : Call}
    (hawaits : Awaits job.settings job.tp job.name point call) : AssignCall call := by
  rintro (work | _) hcommit
  · cases hcommit
    cases hawaits with
    | materialize => exact .batch _ _ _
    | reveal => exact .reveal _
    | clamp => exact .clamp _ _
  · cases hcommit
    cases hawaits

/-- Once it is in `_owned`, a partition stays there in an assignment. -/
theorem Assigning.mem_owned {commit : Commit} (hassigning : Assigning commit)
    {json : String → Option String} {before after : Database}
    (hrun : commit.run json before = .ok after) (howned : tp ∈ before.owned) :
    tp ∈ after.owned := by
  cases hassigning with
  | batch source records offset =>
    obtain ⟨_, rfl⟩ := run_materializeBatch_eq_ok.mp hrun
    change tp ∈ (Database.insertRows _ _).owned
    rwa [Database.insertRows_owned]
  | reveal source =>
    cases hrun
    exact Database.mem_insertOwned.mpr (Or.inr howned)
  | clamp source target =>
    cases hrun
    exact howned

/-- Only its reveal makes a partition visible. -/
theorem notMem_owned_of_run {commit : Commit} (hcommit : commit ≠ .work (.ownedInsert tp))
    {json : String → Option String} {before after : Database}
    (hrun : commit.run json before = .ok after) (howned : tp ∈ after.owned) :
    tp ∈ before.owned := by
  cases commit with
  | deleteAllOwned =>
    cases hrun
    exact absurd howned (Finset.notMem_empty tp)
  | work work =>
    by_cases hother : tp = work.partition
    · subst hother
      cases work with
      | materializeBatch source records offset =>
        obtain ⟨_, rfl⟩ := run_materializeBatch_eq_ok.mp hrun
        change source ∈ (Database.insertRows _ _).owned at howned
        rwa [Database.insertRows_owned] at howned
      | applyMaterialization row =>
        obtain ⟨payload, _, rfl⟩ := Database.applyMaterialization_eq_ok.mp hrun
        exact howned
      | ownedInsert source => exact absurd rfl hcommit
      | ownedDelete source =>
        cases hrun
        exact absurd rfl (Database.mem_deleteOwned.mp howned).1
      | checkpointClamp source target =>
        cases hrun
        exact howned
    · exact (Work.leavesAlone hrun hother).owned.mp howned

/-- A commit keeps every row. -/
theorem mem_records_of_run {commit : Commit} {json : String → Option String}
    {before after : Database} (hrun : commit.run json before = .ok after) {row : Row}
    (hrow : row ∈ before.records) : row ∈ after.records := by
  cases commit with
  | deleteAllOwned =>
    cases hrun
    exact hrow
  | work work => exact (Work.addsRows hrun).isPrefix.subset hrow

/-! ### Runs -/

/-- A program whose calls are those of an assignment. -/
def Assigns (settings : Settings) (conditions : Conditions) (program : Action Value)
    (world : World) : Prop :=
  Holds (environment settings conditions) (AtCall fun call _ ↦ AssignCall call) (fun _ _ ↦ True)
    program world

/-- Its exchanges commit only what an assignment does. -/
theorem Assigns.assigning (hassigns : Assigns settings conditions program world)
    (hsteps : Steps (environment settings conditions) program world trace rest final)
    {exchange : Exchange requests World} (hexchange : exchange ∈ trace) {commit : Commit}
    (hcommitted : committed exchange = some commit) : Assigning commit := by
  have hmoment := Holds.exchange hassigns hsteps hexchange
  rw [request_of_committed hcommitted] at hmoment
  cases commit with
  | work work => exact hmoment (.work work) rfl
  | deleteAllOwned => exact hmoment .deleteAllOwned rfl

/-- Until its reveal a partition is not in `_owned`, whatever runs. -/
theorem notMem_owned_of_steps (howned : tp ∉ world.database.owned)
    (hsteps : Steps (environment settings conditions) program world trace rest final)
    (hreveals : ∀ exchange ∈ trace, ¬ Reveals tp exchange) : tp ∉ final.database.owned := by
  intro hmem
  refine howned ?_
  have hrelated := related_of_steps (fun before after ↦ tp ∈ after.owned → tp ∈ before.owned)
    (fun _ hafter ↦ hafter) (fun hfirst hsecond hafter ↦ hfirst (hsecond hafter)) hsteps ?_
  · exact hrelated hmem
  · rintro exchange hexchange commit hcommitted after hrun
    refine notMem_owned_of_run ?_ hrun
    rintro rfl
    exact hreveals exchange hexchange hcommitted

/-- After its reveal a partition is in `_owned` for the rest of an assignment. -/
theorem mem_owned_of_steps (hassigns : Assigns settings conditions program world)
    (hsteps : Steps (environment settings conditions) program world trace rest final)
    (howned : tp ∈ world.database.owned ∨ ∃ exchange ∈ trace, Reveals tp exchange) :
    tp ∈ final.database.owned := by
  have hkept {between : World} {part : Action Value} {later : List (Exchange requests World)}
      (hlater : Steps (environment settings conditions) part between later rest final)
      (hsubset : later ⊆ trace) (hmem : tp ∈ between.database.owned) :
      tp ∈ final.database.owned := by
    refine related_of_steps (fun before after ↦ tp ∈ before.owned → tp ∈ after.owned)
      (fun _ hbefore ↦ hbefore) (fun hfirst hsecond hbefore ↦ hsecond (hfirst hbefore)) hlater ?_
      hmem
    exact fun exchange hexchange commit hcommitted after hrun ↦
      (hassigns.assigning hsteps (hsubset hexchange) hcommitted).mem_owned hrun
  rcases howned with hstart | ⟨exchange, hexchange, hreveals⟩
  · exact hkept hsteps (List.Subset.refl trace) hstart
  · obtain ⟨before, after, resume, next, rfl, _, hanswers, hafter⟩ := hsteps.split hexchange
    have hcommitted : Committed settings exchange next := database_of_answers hanswers
    unfold Committed at hcommitted
    rw [show committed exchange = _ from hreveals] at hcommitted
    have hnext : next.database = exchange.world.database.insertOwned tp :=
      (Except.ok.inj hcommitted).symm
    refine hkept hafter (fun other hother ↦ ?_) ?_
    · exact List.mem_append_right _ (List.mem_cons_of_mem _ hother)
    · rw [hnext]
      exact Database.mem_insertOwned.mpr (Or.inl rfl)

/-- A row that is visible stays so in an assignment. -/
theorem mem_view_of_steps (hassigns : Assigns settings conditions program world)
    (hsteps : Steps (environment settings conditions) program world trace rest final) {row : Row}
    (hrow : row ∈ world.database.view) : row ∈ final.database.view := by
  obtain ⟨hrecord, howned⟩ := mem_view.mp hrow
  refine mem_view.mpr ⟨?_, mem_owned_of_steps hassigns hsteps (Or.inl howned)⟩
  exact related_of_steps (fun before after ↦ row ∈ before.records → row ∈ after.records)
    (fun _ hbefore ↦ hbefore) (fun hfirst hsecond hbefore ↦ hsecond (hfirst hbefore)) hsteps
    (fun _ _ _ _ _ hrun ↦ mem_records_of_run hrun) hrecord

/-- The visible rows of a partition are its rows, if it is in `_owned`. -/
theorem filter_view (database : Database) (other : TopicPartition) :
    (database.view.filter fun row ↦ row.source = other) =
      if other ∈ database.owned then database.rowsOf other else [] := by
  unfold Database.view Database.rowsOf
  rw [List.filter_filter]
  by_cases howned : other ∈ database.owned
  · rw [if_pos howned]
    refine List.filter_congr fun row _ ↦ ?_
    by_cases hsource : row.source = other
    · simp [hsource, howned]
    · simp [hsource]
  · rw [if_neg howned]
    refine List.filter_eq_nil_iff.mpr fun row _ ↦ ?_
    by_cases hsource : row.source = other
    · simp [hsource, howned]
    · simp [hsource]

/-- An assignment awaits only calls of an assignment. -/
theorem assigns_assign (assigned : List TopicPartition) (world : World) :
    Assigns settings conditions ((Operation.assign assigned).action settings fuel) world := by
  refine (holds_footprint (.assign assigned) world).mono ?_ fun _ _ _ ↦ trivial
  intro request between hmoment
  cases request with
  | call call =>
    obtain ⟨_, _, _, _, _, _, hawaits⟩ := hmoment
    exact assignCall_of_awaits hawaits
  | _ => trivial

/-- Every moment of an assignment is a snapshot. -/
theorem snapshot_of_steps {assigned : List TopicPartition} {rest : Action Unit}
    (howned : tp ∉ world.database.owned)
    (hsteps : Steps (environment settings conditions)
      ((Operation.assign assigned).action settings fuel) world trace rest final) :
    Snapshot tp assigned world.database trace final.database where
  hidden hreveals := invisible_of_notMem (notMem_owned_of_steps howned hsteps hreveals)
  revealed hreveals :=
    visible_of_mem (mem_owned_of_steps (assigns_assign assigned world) hsteps (Or.inr hreveals))
  kept _ hrow := mem_view_of_steps (assigns_assign assigned world) hsteps hrow
  unchanged other hother := by
    have halone := leavesAlone_of_steps (by simp) hsteps hother
    rw [filter_view, filter_view, halone.rows]
    simp only [halone.owned]

/-! ### An assignment that raises -/

/-- Before the end of the machine its partition is not in `_owned`. -/
def Unrevealed (job : Job) : Point → World → Prop
  | .revealed _, _ => True
  | _, world => job.tp ∉ world.database.owned

theorem unrevealed_step {job : Job} {point after : Point} {next : World}
    (hstep : Step job (point, world) (after, next)) (hunrevealed : Unrevealed job point world) :
    Unrevealed job after next := by
  cases hstep with
  | drift _ _ => cases point <;> exact hunrevealed
  | seed =>
    change job.tp ∉ (World.seed _ _ _).database.owned
    rw [World.seed_database]
    exact hunrevealed
  | idle _ hnothing =>
    obtain ⟨idlePolls, rfl⟩ := hnothing.exists_idlePolls
    exact hunrevealed
  | fetch _ _ hfetches _ =>
    obtain ⟨_, _, _, _, _, _, rfl⟩ := hfetches
    exact hunrevealed
  | materialize _ hrun =>
    obtain ⟨_, rfl⟩ := run_materializeBatch_eq_ok.mp hrun
    change job.tp ∉ (Database.insertRows _ _).owned
    rw [Database.insertRows_owned]
    exact hunrevealed
  | reveal => trivial
  | seedUnreached =>
    change job.tp ∉ (World.seed _ _ _).database.owned
    rw [World.seed_database]
    exact hunrevealed
  | _ => exact hunrevealed

/-- Where an assignment raises, its partition is not in `_owned`. -/
theorem Unrevealed.notMem {job : Job} {point : Point} (hunrevealed : Unrevealed job point world)
    (hfails : Fails job point world) : job.tp ∉ world.database.owned := by
  rcases hfails with rfl | ⟨_, _, rfl, _⟩ | ⟨call, error, hawaits, _, _⟩
  · exact hunrevealed
  · exact hunrevealed
  · cases hawaits <;> exact hunrevealed

/-- What an assignment of one partition awaits, and that it did not reveal what it raised on. -/
theorem holds_assignOne_unrevealed {deadline : ℤ} {first : Bool}
    (howned : tp ∉ world.database.owned) :
    Holds (environment settings conditions) (AtCall fun call _ ↦ AssignCall call)
      (fun outcome final ↦ ∀ error, outcome = .raised error → tp ∉ final.database.owned)
      (assignOne settings fuel deadline first tp) world := by
  let job : Job := ⟨settings, conditions, tp, settings.template tp, deadline, fuel⟩
  refine holds_assignOne job rfl (fun _ _ _ _ hawaits ↦ assignCall_of_awaits hawaits)
    (fun _ _ _ _ _ hraised ↦ by cases hraised) ?_ fun _ _ _ _ _ _ hraised ↦ by cases hraised
  intro point _ final hreaches hfails _ _
  have hunrevealed : Unrevealed job point final :=
    hreaches.invariant (Unrevealed job) unrevealed_step howned
  exact hunrevealed.notMem hfails

/-- An assignment of one partition that raised revealed it at no time. -/
theorem invisible_of_raises {deadline : ℤ} {first : Bool} {error : Error}
    (howned : tp ∉ world.database.owned)
    (hsteps : Steps (environment settings conditions)
      (assignOne settings fuel deadline first tp) world trace (.raise error) final) :
    (∀ exchange ∈ trace, Invisible tp exchange.world.database) ∧ Invisible tp final.database := by
  have hassign : Holds (environment settings conditions) (AtCall fun call _ ↦ AssignCall call)
      (fun outcome final ↦ ∀ error, outcome = .raised error → tp ∉ final.database.owned)
      (assignOne settings fuel deadline first tp) world := holds_assignOne_unrevealed howned
  have hassigns : Assigns settings conditions (assignOne settings fuel deadline first tp) world :=
    hassign.mono (fun _ _ hmoment ↦ hmoment) fun _ _ _ ↦ trivial
  have hfinal : tp ∉ final.database.owned := hassign.steps hsteps error rfl
  have hreveals : ∀ exchange ∈ trace, ¬ Reveals tp exchange := fun exchange hexchange hreveal ↦
    hfinal (mem_owned_of_steps hassigns hsteps (Or.inr ⟨exchange, hexchange, hreveal⟩))
  refine ⟨fun exchange hexchange ↦ ?_, invisible_of_notMem hfinal⟩
  obtain ⟨before, after, resume, next, rfl, hbefore, _, _⟩ := hsteps.split hexchange
  exact invisible_of_notMem (notMem_owned_of_steps howned hbefore fun other hother ↦
    hreveals other (List.mem_append_left _ hother))

/-- The reveal is atomic: every moment of an assignment is a snapshot, and an assignment of one
partition that raises never showed a row of it.
Assumes: the partition is not in `_owned` when the assignment starts. -/
theorem reveal_atomic (howned : tp ∉ world.database.owned) :
    (∀ (assigned : List TopicPartition) (trace : List (Exchange requests World))
      (rest : Action Unit) (final : World),
      Steps (environment settings conditions) ((Operation.assign assigned).action settings fuel)
        world trace rest final → Snapshot tp assigned world.database trace final.database) ∧
    ∀ (deadline : ℤ) (first : Bool) (trace : List (Exchange requests World)) (error : Error)
      (final : World),
      Steps (environment settings conditions) (assignOne settings fuel deadline first tp) world
        trace (.raise error) final →
      (∀ exchange ∈ trace, Invisible tp exchange.world.database) ∧ Invisible tp final.database :=
  ⟨fun _ _ _ _ hsteps ↦ snapshot_of_steps howned hsteps,
    fun _ _ _ _ _ hsteps ↦ invisible_of_raises howned hsteps⟩

/-- A store over two records, while any call may fail. -/
theorem reveal_atomic_sample :
    (∀ (assigned : List TopicPartition) (trace : List (Exchange requests World))
      (rest : Action Unit) (final : World),
      Steps (environment Sample.settings Sample.trimming)
        ((Operation.assign assigned).action Sample.settings 9) Sample.halfApplied trace rest final →
      Snapshot Sample.orders assigned Sample.halfApplied.database trace final.database) ∧
    ∀ (deadline : ℤ) (first : Bool) (trace : List (Exchange requests World)) (error : Error)
      (final : World),
      Steps (environment Sample.settings Sample.trimming)
        (assignOne Sample.settings 9 deadline first Sample.orders) Sample.halfApplied trace
        (.raise error) final →
      (∀ exchange ∈ trace, Invisible Sample.orders exchange.world.database) ∧
        Invisible Sample.orders final.database :=
  reveal_atomic (Finset.notMem_empty Sample.orders)

end KSQLite.Runs
