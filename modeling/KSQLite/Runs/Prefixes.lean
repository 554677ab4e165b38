import KSQLite.Runs.Agreement
import KSQLite.Runs.Causes
import KSQLite.Runs.Checkpoint
import KSQLite.Runs.Reveal
import KSQLite.Suspension.Timeline

/-!
# What an assignment that raises leaves

An assignment goes through its partitions in order and ends at the first one that raises. The
partitions before that one are revealed, `READY` or `READY_PARTIAL`; it is hidden itself, and its
rows and its checkpoint are those of the last batch or clamp that committed; and those after it are
as they were (`raisedOn_of_steps`). `exists_raising` takes the run of such an assignment apart.
-/

set_option autoImplicit false
set_option relaxedAutoImplicit false

namespace KSQLite.Runs

open KSQLite.Suspension KSQLite.Store KSQLite.Rehydrate

/-- A partition is revealed, with a status that shows it. -/
def Finished (tp : TopicPartition) (world : World) : Prop :=
  tp ∈ world.database.owned ∧ Shown (world.memory.state.statusOf tp)

/-- The `_owned` row, the rows, the checkpoint and the entry in memory of a partition are as they
were, and so is whether step 0 admitted it. -/
structure Spared (tp : TopicPartition) (before after : World) : Prop where
  database : LeavesAlone tp before.database after.database
  entry : after.memory.state.entries tp = before.memory.state.entries tp
  checked : tp ∈ after.memory.checked ↔ tp ∈ before.memory.checked

/-- An exchange that committed a batch or a clamp of a partition. -/
def Stores (tp : TopicPartition) (exchange : Exchange requests World) : Prop :=
  ∃ work, committed exchange = some (.work work) ∧
    ((∃ records offset, work = .materializeBatch tp records offset) ∨
      ∃ target, work = .checkpointClamp tp target)

/-- The rows and the checkpoint of a partition are the same. -/
def SameStore (tp : TopicPartition) (before after : Database) : Prop :=
  after.rowsOf tp = before.rowsOf tp ∧ after.checkpoint tp = before.checkpoint tp

/-- What a database holds of a partition after a run: what the last batch or clamp that committed
left of it, or what it held before if there was none. -/
inductive StoredLast (json : String → Option String) (tp : TopicPartition) (before : Database) :
    List (Exchange requests World) → Database → Prop
  | untouched {trace after} : (∀ exchange ∈ trace, ¬ Stores tp exchange) →
      SameStore tp before after → StoredLast json tp before trace after
  | stored {earlier exchange later commit stored after} : Stores tp exchange →
      committed exchange = some commit → commit.run json exchange.world.database = .ok stored →
      (∀ other ∈ later, ¬ Stores tp other) → SameStore tp stored after →
      StoredLast json tp before (earlier ++ exchange :: later) after

/-- An error that a call of a run failed with. -/
def FailedWith (trace : List (Exchange requests World)) (error : Error) : Prop :=
  ∃ world call, (⟨world, .call call, .error error⟩ : Exchange requests World) ∈ trace

/-- Step 0 admitted a partition in a run: its changelog has a legal name, and the partition was
admitted before, or the changelog is listed or was created. -/
def AdmittedAtStepZero (settings : Settings) (world : World)
    (trace : List (Exchange requests World))
    (tp : TopicPartition) : Prop :=
  (∃ name, changelogName settings tp = .ok name) ∧
    (tp ∈ world.memory.checked ∨
      ∃ exchange ∈ trace, Finds (settings.template tp) exchange.request exchange.reply)

/-- What an assignment that raised on a partition leaves of the partitions before it, of itself and
of those after it. -/
structure RaisedOn (settings : Settings) (before : List TopicPartition) (tp : TopicPartition)
    (after : List TopicPartition) (world : World) (trace : List (Exchange requests World))
    (error : Error) (final : World) : Prop where
  finished : ∀ other ∈ before, Finished other final
  hidden : tp ∉ final.database.owned
  stored : StoredLast settings.json tp world.database trace final.database
  spared : ∀ other ∈ after, Spared other world final
  surfaces : Surfaces settings (FailedWith trace) tp error

variable {settings : Settings} {conditions : Conditions} {fuel : ℕ} {world final : World}
  {tp : TopicPartition} {trace : List (Exchange requests World)}

/-! ### Rows and checkpoints -/

theorem SameStore.trans {first second third : Database} (hfirst : SameStore tp first second)
    (hsecond : SameStore tp second third) : SameStore tp first third :=
  ⟨hsecond.1.trans hfirst.1, hsecond.2.trans hfirst.2⟩

/-- What an assignment commits changes the rows and the checkpoint of a partition only by a batch or
a clamp of it. -/
theorem Assigning.sameStore {commit : Commit} (hassigning : Assigning commit)
    {json : String → Option String} {before after : Database}
    (hrun : commit.run json before = .ok after)
    (hbatch : ∀ records offset, commit ≠ .work (.materializeBatch tp records offset))
    (hclamp : ∀ target, commit ≠ .work (.checkpointClamp tp target)) :
    SameStore tp before after := by
  have helsewhere (work : Work) (hwork : work.run json before = .ok after)
      (hother : tp ≠ work.partition) : SameStore tp before after :=
    ⟨(Work.leavesAlone hwork hother).rows, (Work.leavesAlone hwork hother).checkpoint⟩
  cases hassigning with
  | batch source records offset =>
    refine helsewhere (.materializeBatch source records offset) hrun fun hsame ↦
      hbatch records offset ?_
    rw [show tp = source from hsame]
  | reveal source =>
    cases hrun
    exact ⟨rfl, rfl⟩
  | clamp source target =>
    refine helsewhere (.checkpointClamp source target) hrun fun hsame ↦ hclamp target ?_
    rw [show tp = source from hsame]

/-- After a run that commits only what an assignment does, a partition has what was stored of it
last. -/
theorem storedLast_of_steps {Value : Type} {program rest : Action Value}
    (hsteps : Steps (environment settings conditions) program world trace rest final)
    (hassigning : ∀ exchange ∈ trace, ∀ commit, committed exchange = some commit →
      Assigning commit) :
    StoredLast settings.json tp world.database trace final.database := by
  induction hsteps with
  | refl => exact .untouched (by simp) ⟨rfl, rfl⟩
  | interfere hinterferes _ ih =>
    obtain ⟨broker, _, rfl⟩ := hinterferes
    exact ih hassigning
  | @answer request resume world reply next trace program final hanswers _ ih =>
    have hrest := ih fun exchange hexchange ↦ hassigning exchange (List.mem_cons_of_mem _ hexchange)
    have hcommitted : Committed settings ⟨world, request, reply⟩ next :=
      database_of_answers hanswers
    unfold Committed at hcommitted
    cases hrest with
    | untouched hnone hsame =>
      by_cases hstores : Stores tp ⟨world, request, reply⟩
      · obtain ⟨work, hcommit, hwork⟩ := id hstores
        rw [hcommit] at hcommitted
        exact (StoredLast.stored hstores hcommit hcommitted hnone hsame :
          StoredLast _ _ _ ([] ++ _ :: _) _)
      · refine .untouched (List.forall_mem_cons.mpr ⟨hstores, hnone⟩) (SameStore.trans ?_ hsame)
        cases hcommit : committed ⟨world, request, reply⟩ with
        | none =>
          rw [hcommit] at hcommitted
          rw [hcommitted]
          exact ⟨rfl, rfl⟩
        | some commit =>
          rw [hcommit] at hcommitted
          refine (hassigning _ List.mem_cons_self commit hcommit).sameStore hcommitted ?_ ?_
          · rintro records offset rfl
            exact hstores ⟨_, hcommit, Or.inl ⟨records, offset, rfl⟩⟩
          · rintro target rfl
            exact hstores ⟨_, hcommit, Or.inr ⟨target, rfl⟩⟩
    | @stored earlier exchange later commit stored _ hstores hcommit hrun hnone hsame =>
      exact (StoredLast.stored hstores hcommit hrun hnone hsame :
        StoredLast _ _ _ ((_ :: earlier) ++ _ :: _) _)

/-! ### One partition -/

/-- At a reveal the status is one that shows the partition. -/
def ShownAt : Point → World → Prop
  | .revealing status, _ | .revealed status, _ => Shown (some status)
  | _, _ => True

theorem shownAt_step {job : Job} {point after : Point} {next : World}
    (hstep : Step job (point, world) (after, next)) (hshown : ShownAt point world) :
    ShownAt after next := by
  cases hstep with
  | drift _ _ => cases point <;> exact hshown
  | expire _ _ => exact Or.inr rfl
  | leave _ _ => exact Or.inl rfl
  | keep _ => exact Or.inl rfl
  | clamp => exact Or.inl rfl
  | reveal => exact hshown
  | seedUnreached => exact Or.inr rfl
  | _ => trivial

theorem Spared.refl (tp : TopicPartition) (world : World) : Spared tp world world :=
  ⟨.refl tp world.database, rfl, Iff.rfl⟩

theorem Spared.trans {first second third : World} (hfirst : Spared tp first second)
    (hsecond : Spared tp second third) : Spared tp first third :=
  ⟨hfirst.database.trans hsecond.database, hsecond.entry.trans hfirst.entry,
    hsecond.checked.trans hfirst.checked⟩

/-- Step 0 admits no partition but its own. -/
theorem checked_step {job : Job} {point after : Point} {next : World}
    (hstep : Step job (point, world) (after, next)) :
    next.memory.checked = world.memory.checked ∨
      next.memory.checked = insert job.tp world.memory.checked := by
  cases hstep with
  | check => exact Or.inr rfl
  | seed => exact Or.inl (World.seed_checked _)
  | idle _ hnothing =>
    obtain ⟨idlePolls, rfl⟩ := hnothing.exists_idlePolls
    exact Or.inl rfl
  | fetch _ _ hfetches _ =>
    obtain ⟨_, _, _, _, _, _, rfl⟩ := hfetches
    exact Or.inl rfl
  | seedUnreached => exact Or.inl (World.seed_checked _)
  | _ => exact Or.inl rfl

/-- The work on a partition leaves every other one untouched. -/
theorem spared_of_reaches {job : Job} {point : Point} {other : TopicPartition}
    (hreaches : Reaches job (.checking, world) (point, final)) (hother : other ≠ job.tp) :
    Spared other world final := by
  refine ⟨hreaches.frame.leavesAlone hother, hreaches.frame.entries other hother, ?_⟩
  refine hreaches.invariant (fun _ between ↦
    other ∈ between.memory.checked ↔ other ∈ world.memory.checked) ?_ Iff.rfl
  intro before between next after hstep hsame
  rcases checked_step hstep with hchecked | hchecked
  · rw [hchecked]
    exact hsame
  · rw [hchecked, Finset.mem_insert, or_iff_right hother]
    exact hsame

/-- What one partition of an assignment leaves: it touches no other one, and it finishes the
partition or raises with it hidden. -/
theorem holds_assignOne_finishes {deadline : ℤ} {first : Bool}
    (howned : tp ∉ world.database.owned) :
    Holds (environment settings conditions) (AtCall fun _ _ ↦ True)
      (fun outcome final ↦ (∀ other, other ≠ tp → Spared other world final) ∧
        (∀ value, outcome = .returned value → Finished tp final) ∧
        ∀ error, outcome = .raised error → tp ∉ final.database.owned)
      (assignOne settings fuel deadline first tp) world := by
  let job : Job := ⟨settings, conditions, tp, settings.template tp, deadline, fuel⟩
  refine holds_assignOne job rfl (fun _ _ _ _ _ ↦ trivial) ?_ ?_ ?_
  · intro status value final hreaches
    have hmarked := hreaches.marked trivial
    have hshown : ShownAt (.revealed status) final :=
      hreaches.invariant ShownAt shownAt_step trivial
    refine ⟨fun _ ↦ spared_of_reaches hreaches, fun _ _ ↦ ⟨hmarked.2, ?_⟩, nofun⟩
    rw [hmarked.1]
    exact hshown
  · intro point error final hreaches hfails
    refine ⟨fun _ ↦ spared_of_reaches hreaches, nofun, fun _ _ ↦ ?_⟩
    have hunrevealed : Unrevealed job point final :=
      hreaches.invariant (Unrevealed job) unrevealed_step howned
    exact hunrevealed.notMem hfails
  · intro leo replay final hreaches _
    exact ⟨fun _ ↦ spared_of_reaches hreaches, nofun, nofun⟩

/-! ### The partitions before the one that raises -/

/-- A partition that is spared is finished as before. -/
theorem Finished.spared (hfinished : Finished tp world) (hspared : Spared tp world final) :
    Finished tp final := by
  refine ⟨hspared.database.owned.mpr hfinished.1, ?_⟩
  rw [(PartitionStateMachine.reads_eq_of_entries_eq hspared.entry).1]
  exact hfinished.2

/-- Partitions that were gone through: they are finished, and every other one is untouched. -/
def GoneThrough (finished : List TopicPartition) (world final : World) : Prop :=
  (∀ tp ∈ finished, Finished tp final) ∧ ∀ other, other ∉ finished → Spared other world final

/-- An assignment of partitions of which none is owned goes through all of them, if it returns. -/
theorem holds_assignAll_finishes {deadline : ℤ} {first : Bool} {assigned : List TopicPartition}
    (hnodup : assigned.Nodup) (hhidden : ∀ tp ∈ assigned, tp ∉ world.database.owned) :
    Holds (environment settings conditions) (AtCall fun _ _ ↦ True)
      (fun outcome final ↦ outcome = .returned () → GoneThrough assigned world final)
      (assignAll settings fuel deadline first assigned) world := by
  refine holds_assignAll (fun remaining between ↦ ∃ finished, assigned = finished ++ remaining ∧
    GoneThrough finished world between) ?_ ?_
    ⟨[], rfl, by simp, fun other _ ↦ .refl other world⟩
  · rintro tp rest first between ⟨finished, hassigned, hfinished, hspared⟩
    subst hassigned
    have hdistinct := (List.nodup_append.mp hnodup).2.2
    have hfresh (other : TopicPartition) (hother : other ∈ finished) : other ≠ tp :=
      hdistinct other hother tp List.mem_cons_self
    have howned : tp ∉ between.database.owned := by
      rw [(hspared tp fun htp ↦ hfresh tp htp rfl).database.owned]
      exact hhidden tp (List.mem_append_right _ List.mem_cons_self)
    refine (holds_assignOne_finishes howned).mono (fun _ _ hmoment ↦ hmoment) ?_
    rintro (value | error | _) final ⟨hspares, hreturned, _⟩
    · refine ⟨finished ++ [tp], by simp, fun other hother ↦ ?_, fun other hother ↦ ?_⟩
      · rcases List.mem_append.mp hother with hbefore | hlast
        · exact (hfinished other hbefore).spared (hspares other (hfresh other hbefore))
        · rw [List.mem_singleton.mp hlast]
          exact hreturned value rfl
      · have hboth : other ∉ finished ∧ other ≠ tp := by simpa using hother
        exact (hspared other hboth.1).trans (hspares other hboth.2)
    · exact nofun
    · exact nofun
  · rintro between ⟨finished, rfl, hgone⟩ _
    rwa [List.append_nil]

/-! ### Runs -/

/-- A run of an assignment that raised: it returned from the partitions before one, and raised on
that one. -/
theorem exists_raising {deadline : ℤ} {first : Bool} {assigned : List TopicPartition}
    {error : Error}
    (hsteps : Steps (environment settings conditions)
      (assignAll settings fuel deadline first assigned) world trace (.raise error) final) :
    ∃ before tp after following cause between earlier later,
      assigned = before ++ tp :: after ∧ trace = earlier ++ later ∧
      Steps (environment settings conditions) (assignAll settings fuel deadline first before)
        world earlier (.finish ()) between ∧
      Steps (environment settings conditions) (assignOne settings fuel deadline following tp)
        between later (.raise cause) final ∧
      error = assignmentError tp cause := by
  induction assigned generalizing first world trace with
  | nil => cases hsteps
  | cons tp rest ih =>
    rcases Steps.of_bind hsteps with
      ⟨_, hinner, hlast, hopen⟩ | ⟨following, one, two, between, rfl, hone, htwo⟩
    · obtain ⟨inner, hturn, rfl⟩ := hinner.of_mapError
      cases inner with
      | raise cause =>
        cases hlast
        exact ⟨[], tp, rest, first, cause, world, [], trace, rfl, rfl, .refl, hturn, rfl⟩
      | finish value => exact absurd rfl (hopen value)
      | exhausted => cases hlast
      | await request resume => cases hlast
    · obtain ⟨before, failed, after, next, cause, middle, earlier, later, rfl, rfl,
        hbefore, hraises,
        rfl⟩ := ih htwo
      refine ⟨tp :: before, failed, after, next, cause, middle, one ++ earlier, later, rfl,
        (List.append_assoc _ _ _).symm, ?_, hraises, rfl⟩
      have hturn := hone.bind fun following ↦ assignAll settings fuel deadline following before
      exact hturn.trans hbefore

/-- An assignment of a running store that ended: it looked at the clock and then went through its
partitions. -/
theorem exists_assignAll {assigned : List TopicPartition} {rest : Action Unit}
    (hrunning : world.memory.runState = .running)
    (hsteps : Steps (environment settings conditions)
      ((Operation.assign assigned).action settings fuel) world trace rest final)
    (hended : rest.pending = none) :
    ∃ reading looked later, trace = looked ++ later ∧
      (∀ exchange ∈ looked, ∀ call, exchange.request ≠ .call call) ∧
      Steps (environment settings conditions)
        (assignAll settings fuel (reading + settings.rehydrateTimeout) true assigned) world later
        rest final := by
  obtain ⟨between, memory, next, guarded, hbetween, ⟨rfl, rfl⟩, rfl, hguarded⟩ :=
    Steps.of_await hsteps hended
  obtain rfl := eq_of_interferes (by simp) hbetween
  have hobserved : Steps (environment settings conditions)
      ((if next.memory.runState ≠ .running then .raise .notRunning else pure ()) >>= fun _ ↦
        onPartitionsAssigned settings fuel assigned) next guarded rest final := hguarded
  rw [if_neg (not_not.mpr hrunning)] at hobserved
  obtain ⟨looking, reading, after, later, hlooking, ⟨_, rfl⟩, rfl, hlater⟩ :=
    Steps.of_await hobserved hended
  obtain rfl := eq_of_interferes (by simp) hlooking
  exact ⟨reading, [_, _], later, rfl, by simp, hlater⟩

/-- The replies of an operation fail with what its run failed with, and no checkpoint it reads lies
before -1. -/
theorem replies_of_steps {operation : Operation} {rest : Action Unit}
    (hfloored : Floored world.database)
    (hsteps : Steps (environment settings conditions) (operation.action settings fuel) world trace
      rest final) :
    ∀ exchange ∈ trace, Replies (FailedWith trace) exchange.request exchange.reply := by
  intro exchange hexchange
  obtain ⟨before, after, resume, next, _, hbefore, hanswers, _⟩ := hsteps.split hexchange
  have hthere : Floored exchange.world.database := floored_of_steps hfloored hbefore
  obtain ⟨entered, request, reply⟩ := exchange
  cases request with
  | call call =>
    cases reply with
    | error error => exact ⟨entered, call, hexchange⟩
    | ok value =>
      cases call with
      | selectCheckpoint source =>
        intro offset hoffset
        rw [hanswers.1] at hoffset
        exact hthere source offset hoffset
      | _ => trivial
  | _ => trivial

/-- The partitions of an assignment raise what surfaces, and do not go on after a fatal reply. -/
theorem throws_assignAll {failures : Error → Prop} {deadline : ℤ} {first : Bool}
    {assigned : List TopicPartition} :
    (assignAll settings fuel deadline first assigned).Throws (Replies failures) Fatal fun error ↦
      ∃ tp ∈ assigned, Surfaces settings failures tp error := by
  induction assigned generalizing first with
  | nil => exact Program.throws_finish ()
  | cons tp rest ih =>
    refine (throws_assignOne.mapError.mono fun error hsurfaces ↦ ?_).bind fun following ↦ ?_
    · exact ⟨tp, List.mem_cons_self, hsurfaces⟩
    · refine ih.mono ?_
      rintro error ⟨other, hother, hsurfaces⟩
      exact ⟨other, List.mem_cons_of_mem _ hother, hsurfaces⟩

/-- An assignment that ended after a fatal reply raised.
Assumes: no checkpoint lies before -1, and the store is running. -/
theorem exists_raised_of_fatal {assigned : List TopicPartition} {outcome : Outcome Error Unit}
    (hfloored : Floored world.database) (hrunning : world.memory.runState = .running)
    (hsteps : Steps (environment settings conditions)
      ((Operation.assign assigned).action settings fuel) world trace outcome.program final)
    {exchange : Exchange requests World} (hexchange : exchange ∈ trace)
    (hfatal : Fatal exchange.request exchange.reply) : ∃ error, outcome = .raised error := by
  have hreplies := replies_of_steps hfloored hsteps
  obtain ⟨reading, looked, later, rfl, hplain, hlater⟩ :=
    exists_assignAll hrunning hsteps (by cases outcome <;> rfl)
  have hmem : exchange ∈ later := by
    refine (List.mem_append.mp hexchange).resolve_left fun hearly ↦ ?_
    exact not_fatal (hplain exchange hearly) hfatal
  have hbreaks : (outcome.program : Action Unit).Breaks :=
    throws_assignAll.breaks_of_steps hlater
      (fun other hother ↦ hreplies other (List.mem_append_right _ hother)) hmem hfatal
  cases outcome with
  | raised error => exact ⟨error, rfl⟩
  | returned value => exact hbreaks.elim
  | exhausted => exact hbreaks.elim

/-- Step 0 admits a partition only when it finds its changelog, or found it before. -/
theorem admitted_of_ensureAndVerify {name : String}
    (hsteps : Steps (environment settings conditions) (ensureAndVerify settings tp) world trace
      (.finish name) final) : AdmittedAtStepZero settings world trace tp := by
  unfold ensureAndVerify at hsteps
  cases hname : changelogName settings tp with
  | error error =>
    rw [hname] at hsteps
    cases hsteps
  | ok legal =>
    refine ⟨⟨legal, hname⟩, ?_⟩
    obtain rfl := eq_template_of_changelogName hname
    rw [hname] at hsteps
    obtain ⟨between, memory, next, later, hbetween, ⟨rfl, rfl⟩, rfl, hlater⟩ :=
      Steps.of_await hsteps rfl
    obtain rfl := eq_of_interferes (by simp) hbetween
    by_cases hchecked : tp ∈ next.memory.checked
    · exact Or.inl hchecked
    · have hunchecked : Steps (environment settings conditions)
          (if tp ∈ next.memory.checked then pure (settings.template tp) else _) next later
          (.finish name) final := hlater
      rw [if_neg hchecked] at hunchecked
      have hpasses := passes_ensure.mapError.bind _ |>.of_steps hunchecked
      obtain ⟨exchange, hexchange, hfinds⟩ := hpasses.resolve_right id
      exact Or.inr ⟨exchange, List.mem_cons_of_mem _ hexchange, hfinds⟩

/-- A longer run admits what a part of it admits, if the partition was not admitted since. -/
theorem AdmittedAtStepZero.mono {entered : World} {turn : List (Exchange requests World)}
    (hadmitted : AdmittedAtStepZero settings entered turn tp)
    (hchecked : tp ∈ entered.memory.checked → tp ∈ world.memory.checked) (hturn : turn ⊆ trace) :
    AdmittedAtStepZero settings world trace tp := by
  refine ⟨hadmitted.1, hadmitted.2.imp hchecked ?_⟩
  rintro ⟨exchange, hexchange, hfinds⟩
  exact ⟨exchange, hturn hexchange, hfinds⟩

/-- An assignment that returned admitted all of its partitions. -/
theorem admitted_of_assignAll {deadline : ℤ} {first : Bool} {assigned : List TopicPartition}
    (hnodup : assigned.Nodup) (hhidden : ∀ tp ∈ assigned, tp ∉ world.database.owned)
    (hsteps : Steps (environment settings conditions)
      (assignAll settings fuel deadline first assigned) world trace (.finish ()) final) :
    ∀ tp ∈ assigned, AdmittedAtStepZero settings world trace tp := by
  induction assigned generalizing first world trace with
  | nil => simp
  | cons tp rest ih =>
    rcases Steps.of_bind hsteps with
      ⟨inner, _, hlast, hopen⟩ | ⟨following, one, two, between, rfl, hone, htwo⟩
    · cases inner with
      | finish value => exact absurd rfl (hopen value)
      | _ => cases hlast
    obtain ⟨inner, hturn, hinner⟩ := hone.of_mapError
    cases inner with
    | finish value =>
      obtain ⟨hfresh, hrest⟩ := List.nodup_cons.mp hnodup
      obtain ⟨hspares, _⟩ :=
        (holds_assignOne_finishes (hhidden tp List.mem_cons_self)).steps hturn
      have hne (other : TopicPartition) (hother : other ∈ rest) : other ≠ tp :=
        fun hsame ↦ hfresh (hsame ▸ hother)
      refine List.forall_mem_cons.mpr ⟨?_, fun other hother ↦ ?_⟩
      · rcases Steps.of_bind hturn with
          ⟨open', _, hlast, hopen⟩ | ⟨name, zero, later, middle, rfl, hzero, _⟩
        · cases open' with
          | finish value => exact absurd rfl (hopen value)
          | _ => cases hlast
        · refine (admitted_of_ensureAndVerify hzero).mono id fun exchange hexchange ↦ ?_
          exact List.mem_append_left _ (List.mem_append_left _ hexchange)
      · have hstill (third : TopicPartition) (hthird : third ∈ rest) :
            third ∉ between.database.owned := by
          rw [(hspares third (hne third hthird)).database.owned]
          exact hhidden third (List.mem_cons_of_mem _ hthird)
        refine (ih hrest hstill htwo other hother).mono ?_ (List.subset_append_right _ _)
        exact (hspares other (hne other hother)).checked.mp
    | _ => cases hinner

/-- An assignment that raised, raised on one of its partitions.
Assumes: no checkpoint lies before -1, the store is running, and none of the partitions, which are
distinct, is owned. -/
theorem raisedOn_of_steps {assigned : List TopicPartition} {error : Error}
    (hfloored : Floored world.database) (hrunning : world.memory.runState = .running)
    (hnodup : assigned.Nodup) (hhidden : ∀ tp ∈ assigned, tp ∉ world.database.owned)
    (hsteps : Steps (environment settings conditions)
      ((Operation.assign assigned).action settings fuel) world trace (.raise error) final) :
    ∃ before tp after, assigned = before ++ tp :: after ∧
      RaisedOn settings before tp after world trace error final := by
  have hreplies := replies_of_steps hfloored hsteps
  have hassigning : ∀ exchange ∈ trace, ∀ commit, committed exchange = some commit →
      Assigning commit :=
    fun _ hexchange _ ↦ (assigns_assign assigned world).assigning hsteps hexchange
  obtain ⟨reading, looked, later, hlooked, _, hlater⟩ := exists_assignAll hrunning hsteps rfl
  obtain ⟨before, tp, after, following, cause, between, earlier, failing, rfl, htrace, hbefore,
    hraises, rfl⟩ := exists_raising hlater
  obtain ⟨hbeforeNodup, htailNodup, hdistinct⟩ := List.nodup_append.mp hnodup
  obtain ⟨hafterFresh, _⟩ := List.nodup_cons.mp htailNodup
  have hbeforeHidden (other : TopicPartition) (hother : other ∈ before) :
      other ∉ world.database.owned := hhidden other (List.mem_append_left _ hother)
  have hbeforeFresh (other : TopicPartition) (hother : other ∈ before) : other ≠ tp :=
    hdistinct other hother tp List.mem_cons_self
  have hgone : GoneThrough before world between :=
    (holds_assignAll_finishes hbeforeNodup hbeforeHidden).steps hbefore rfl
  have howned : tp ∉ between.database.owned := by
    rw [(hgone.2 tp fun htp ↦ hbeforeFresh tp htp rfl).database.owned]
    exact hhidden tp (List.mem_append_right _ List.mem_cons_self)
  obtain ⟨hspares, _, hraised⟩ := (holds_assignOne_finishes howned).steps hraises
  refine ⟨before, tp, after, rfl, ⟨?_, ?_, ?_, ?_, ?_⟩⟩
  · exact fun other hother ↦ (hgone.1 other hother).spared
      (hspares other (hbeforeFresh other hother))
  · exact hraised cause rfl
  · exact storedLast_of_steps hsteps hassigning
  · intro other hother
    have hne : other ≠ tp := fun hsame ↦ hafterFresh (hsame ▸ hother)
    have hnew : other ∉ before := fun hmem ↦
      hdistinct other hmem other (List.mem_cons_of_mem _ hother) rfl
    exact (hgone.2 other hnew).trans (hspares other hne)
  · refine throws_assignOne.of_steps hraises fun exchange hexchange ↦ hreplies exchange ?_
    rw [hlooked, htrace]
    exact List.mem_append_right _ (List.mem_append_right _ hexchange)

end KSQLite.Runs
