import KSQLite.Rehydrate.Completion
import KSQLite.Runs.Prefixes

/-!
# A failed assignment and its retry

An assignment that raises leaves a prefix of its partitions revealed, and whatever happens to the
store afterwards, a later assignment of the same partitions converges: while nobody touches the
broker, no call fails and the budget lasts, it is never stuck, and it returns with every partition
`READY` over changelogs that hold a record at every offset from zero on (`failed_assignment`). It
raises only where a partition is faulty (`Faulty`), which is what a retry alone does not mend.
-/

set_option autoImplicit false
set_option relaxedAutoImplicit false

namespace KSQLite.Runs

open KSQLite.Log KSQLite.Suspension KSQLite.Store KSQLite.Rehydrate

/-- Nobody touches the broker, no call fails, and an assignment that starts from a time on ends
before its deadline. -/
def prompt (base budget : ℤ) : Conditions where
  disturbs := fun _ _ ↦ False
  fails := fun _ _ ↦ False
  serves := fun _ _ ↦ True
  shows := fun reading ↦ base ≤ reading ∧ reading < base + budget

/-- It is calm until the deadline of an assignment that starts from the time on. -/
theorem calm_prompt {base budget reading : ℤ} (hbase : base ≤ reading) :
    Rehydrate.Calm (prompt base budget) (reading + budget) := by
  refine ⟨⟨fun _ _ ↦ id, fun _ _ ↦ id⟩, fun _ _ ↦ trivial, fun later hlater ↦ ?_⟩
  have hbefore : later < base + budget := hlater.2
  omega

/-- A changelog with one record at every offset from zero to its end, and a bound on the idle
polls. -/
structure Replete (broker : Broker) (name : String) : Prop extends Whole broker name where
  start : (broker.changelogs name).start = 0

/-- A partition that no retry can rehydrate: its changelog has an illegal name, or it is missing and
must not be created, or it holds a record that a batch does not get past. -/
def Faulty (settings : Settings) (tp : TopicPartition) (broker : Broker) : Prop :=
  (∃ error, changelogName settings tp = .error error) ∨
    (settings.retention = none ∧ settings.template tp ∉ broker.topics) ∨
    ∃ entry ∈ (broker.changelogs (settings.template tp)).entries,
      ¬ Replayable settings.json entry.2

/-- A partition is `READY` and revealed. -/
def Ready (tp : TopicPartition) (world : World) : Prop :=
  world.memory.state.statusOf tp = some .ready ∧ tp ∈ world.database.owned

/-- What a retry makes of its partitions: all of them are `READY`, or one of them is faulty. -/
def Retried (settings : Settings) (assigned : List TopicPartition) (broker : Broker) :
    Outcome Error Unit → World → Prop
  | .returned _, final => ∀ tp ∈ assigned, Ready tp final
  | .raised _, _ => ∃ tp ∈ assigned, Faulty settings tp broker
  | .exhausted, _ => False

variable {settings : Settings} {conditions : Conditions} {deadline : ℤ} {fuel : ℕ}
  {world final : World} {tp : TopicPartition}

/-! ### One partition -/

/-- A replete log was not trimmed. -/
theorem Replete.not_trimmedColdStart {broker : Broker} {name : String} {checkpoint : Option ℤ}
    (hreplete : Replete broker name) : ¬ TrimmedColdStart checkpoint (broker.changelogs name) := by
  rintro ⟨_, htrimmed, hpositive⟩
  rw [hreplete.start] at htrimmed
  omega

/-- A partition that is faulty later in a retry was so before. -/
theorem Faulty.of_quieter {before after : Broker} (hfaulty : Faulty settings tp after)
    (hquieter : Quieter before after) : Faulty settings tp before := by
  rcases hfaulty with hname | ⟨hretention, hlisted⟩ | hrefused
  · exact Or.inl hname
  · exact Or.inr (Or.inl ⟨hretention, fun htopic ↦ hlisted (hquieter.topics htopic)⟩)
  · rw [hquieter.changelogs] at hrefused
    exact Or.inr (Or.inr hrefused)

/-- A replete changelog stays so while only idle polls are used up. -/
theorem Replete.of_quieter {before after : Broker} {name : String} (hreplete : Replete before name)
    (hquieter : Quieter before after) : Replete after name := by
  refine ⟨⟨?_, hquieter.idle hreplete.idle⟩, ?_⟩
  · rw [hquieter.changelogs]
    exact hreplete.dense
  · rw [hquieter.changelogs]
    exact hreplete.start

/-- What one partition of a retry leaves. -/
structure Mended (settings : Settings) (tp : TopicPartition) (world : World)
    (outcome : Outcome Error Bool) (final : World) : Prop where
  frame : Frame tp world final
  quieter : Quieter world.broker final.broker
  ready : ∀ value, outcome = .returned value → Ready tp final
  faulty : ∀ error, outcome = .raised error → Faulty settings tp world.broker
  ends : outcome ≠ .exhausted

/-- What step 0 leaves while it is calm. -/
structure StepZeroPassed (settings : Settings) (tp : TopicPartition) (world : World)
    (outcome : Outcome Error String) (final : World) : Prop where
  frame : Frame tp world final
  quieter : Quieter world.broker final.broker
  database : final.database = world.database
  name : ∀ name, outcome = .returned name → name = settings.template tp
  faulty : ∀ error, outcome = .raised error → Faulty settings tp world.broker
  ends : outcome ≠ .exhausted

/-- While nobody touches the broker, it does not drift. -/
theorem eq_of_settles {call : Call} {broker next : Broker}
    (huninterrupted : Uninterrupted conditions)
    (hproduce : ∀ name message, call ≠ .sendAndWait name message)
    (hsettles : Settles conditions call broker next) : next = broker := by
  have hdrifts := (settles_iff_drifts hproduce).mp hsettles
  induction hdrifts with
  | refl => rfl
  | tail _ hdisturb _ => exact absurd hdisturb (huninterrupted.frozen _ _)

/-- A call that nothing fails, and what it needs of its results. -/
theorem holds_perform_calm {call : Call} {condition : Call → World → Prop}
    {post : Outcome Error call.Result → World → Prop} (huninterrupted : Uninterrupted conditions)
    (hproduce : ∀ name message, call ≠ .sendAndWait name message)
    (hmoment : condition call world)
    (hraised : ∀ error, Raises settings conditions world call error → post (.raised error) world)
    (hreturned : ∀ value next, Succeeds settings conditions world call value next →
      post (.returned value) next) :
    Holds (environment settings conditions) (AtCall condition) post (perform call) world := by
  refine holds_perform.mpr fun broker hsettles ↦ ?_
  rw [eq_of_settles huninterrupted hproduce hsettles]
  exact ⟨hmoment, hraised, hreturned⟩

/-- The policy of a changelog is looked at, or not. -/
theorem holds_verify {name : String} {post : Outcome Error Unit → World → Prop}
    (huninterrupted : Uninterrupted conditions) (hreturned : post (.returned ()) world) :
    Holds (environment settings conditions) (AtCall (Answerable settings conditions)) post
      (if settings.verifyChangelogPolicy = true then verifyPolicy name else pure ()) world := by
  split_ifs
  · refine holds_perform_calm huninterrupted (by simp) ⟨.ok (), _, rfl⟩ ?_ ?_
    · exact fun _ hraises ↦ absurd (hraises.resolve_right id) (huninterrupted.succeeds _ _)
    · rintro _ next rfl
      exact hreturned
  · exact hreturned

/-- Step 0 lists the topics, and creates the changelog where it is missing. -/
theorem holds_ensure_calm {post : Outcome Error Unit → World → Prop}
    (huninterrupted : Uninterrupted conditions)
    (hmissing : ∀ error, settings.retention = none → settings.template tp ∉ world.broker.topics →
      post (.raised error) world)
    (hthere : post (.returned ()) world)
    (hcreated : post (.returned ()) (world.createTopic (settings.template tp))) :
    Holds (environment settings conditions) (AtCall (Answerable settings conditions)) post
      (ensure settings (settings.template tp)) world := by
  unfold ensure
  refine holds_bind.mpr (holds_perform_calm huninterrupted (by simp) ⟨.ok _, _, rfl, rfl⟩ ?_ ?_)
  · exact fun _ hraises ↦ absurd (hraises.resolve_right id) (huninterrupted.succeeds _ _)
  rintro topics next ⟨rfl, rfl⟩
  change Holds _ _ _ (if settings.template tp ∉ next.broker.topics then _ else _) _
  by_cases hlisted : settings.template tp ∉ next.broker.topics
  · rw [if_pos hlisted]
    cases hretention : settings.retention with
    | none => exact hmissing _ hretention hlisted
    | some retention =>
      refine holds_bind.mpr (holds_bind.mpr (holds_perform_calm huninterrupted (by simp)
        ⟨.ok [], _, Or.inl ⟨rfl, rfl⟩⟩ ?_ ?_))
      · exact fun _ hraises ↦ absurd (hraises.resolve_right id) (huninterrupted.succeeds _ _)
      rintro topicErrors created
        (⟨rfl, rfl⟩ | ⟨code, message, _, _, ⟨_, hexists⟩ | ⟨_, hfails⟩⟩)
      · exact holds_verify huninterrupted hcreated
      · exact absurd hexists hlisted
      · exact absurd hfails (huninterrupted.succeeds _ _)
  · rw [if_neg hlisted]
    exact holds_verify huninterrupted hthere

/-- Step 0 admits a partition while it is calm, unless the partition is faulty. -/
theorem holds_ensureAndVerify_calm (huninterrupted : Uninterrupted conditions) :
    Holds (environment settings conditions) (AtCall (Answerable settings conditions))
      (StepZeroPassed settings tp world) (ensureAndVerify settings tp) world := by
  unfold ensureAndVerify
  cases hname : changelogName settings tp with
  | error error =>
    exact ⟨.refl _ _, .refl _, rfl, nofun, fun _ _ ↦ Or.inl ⟨error, hname⟩, nofun⟩
  | ok name =>
    obtain rfl := eq_template_of_changelogName hname
    have hdone {between : World} (hframe : Frame tp world between)
        (hquieter : Quieter world.broker between.broker)
        (hdatabase : between.database = world.database) :
        StepZeroPassed settings tp world (.returned (settings.template tp)) between :=
      ⟨hframe, hquieter, hdatabase, fun _ hreturned ↦ (Outcome.returned.inj hreturned).symm, nofun,
        nofun⟩
    refine holds_bind.mpr (holds_ofExcept_ok.mpr ?_)
    refine sequel_returned.mpr (holds_bind.mpr (holds_observe.mpr ?_))
    change Holds _ _ _ (if tp ∈ world.memory.checked then _ else _) world
    split_ifs
    · exact hdone (.refl _ _) (.refl _) rfl
    · refine holds_bind.mpr (holds_mapError.mpr (holds_ensure_calm huninterrupted ?_ ?_ ?_))
      · intro error hretention hlisted
        exact ⟨.refl _ _, .refl _, rfl, nofun, fun _ _ ↦
          Or.inr (Or.inl ⟨hretention, hlisted⟩), nofun⟩
      · exact holds_bind.mpr (holds_remember.mpr (hdone (.of_memory _ _ rfl rfl) (.refl _) rfl))
      · refine holds_bind.mpr (holds_remember.mpr (hdone ?_ ?_ rfl))
        · exact (Frame.of_broker tp world _).trans (.of_memory _ _ rfl rfl)
        · exact ⟨rfl, Finset.subset_insert _ _, id, le_rfl⟩

/-- One partition of a retry.
Assumes: its changelog is replete, and there is fuel for it. -/
theorem holds_assignOne_mended {first : Bool} (hcalm : Rehydrate.Calm conditions deadline)
    (hbatch : 0 < settings.batchSize)
    (hcheckpoint : ∀ checkpoint ∈ world.database.checkpoint tp, -1 ≤ checkpoint)
    (hreplete : Replete world.broker (settings.template tp))
    (hfuel : pollBound world.broker (settings.template tp) ≤ fuel) :
    Holds (environment settings conditions) (AtCall (Answerable settings conditions))
      (Mended settings tp world) (assignOne settings fuel deadline first tp) world := by
  have hreplay {between : World} (hpassed : StepZeroPassed settings tp world
      (.returned (settings.template tp)) between) :
      Holds (environment settings conditions) (AtCall (Answerable settings conditions))
        (Mended settings tp world)
        (do rehydrateOne settings fuel tp (settings.template tp) deadline
            return false) between := by
    have hquieter := hpassed.quieter
    have hthere := hreplete.of_quieter hquieter
    have hbound := (hquieter.pollBound_le _).trans hfuel
    have hcheckpoint' : ∀ checkpoint ∈ between.database.checkpoint tp, -1 ≤ checkpoint :=
      hpassed.database ▸ hcheckpoint
    have hrehydrated := holds_rehydrated hcalm hbatch hthere.toWhole hcheckpoint'
      hthere.not_trimmedColdStart hbound
    refine hrehydrated.bind ?_ ?_ ?_
    · intro _ last hlast
      exact ⟨hpassed.frame.trans hlast.frame, hquieter.trans hlast.quieter,
        fun _ _ ↦ hlast.ready rfl, nofun, nofun⟩
    · intro error last hlast
      refine ⟨hpassed.frame.trans hlast.frame, hquieter.trans hlast.quieter, nofun,
        fun _ _ ↦ ?_, nofun⟩
      have hrefused := hlast.refused error rfl
      rw [hquieter.changelogs] at hrefused
      exact Or.inr (Or.inr hrefused)
    · exact fun last hlast ↦ absurd rfl hlast.ends
  refine (holds_ensureAndVerify_calm hcalm.toUninterrupted).bind ?_ ?_ ?_
  · intro name between hpassed
    obtain rfl := hpassed.name name rfl
    cases first with
    | true => exact hreplay hpassed
    | false =>
      refine holds_bind.mpr (holds_bind.mpr (holds_clock.mpr fun reading hreading ↦ ?_))
      have hearly : ¬ deadline ≤ reading := not_le.mpr (hcalm.shows reading hreading)
      change Holds _ _ _ (if decide (deadline ≤ reading) = true then _ else _) between
      rw [if_neg (by simpa using hearly)]
      exact hreplay hpassed
  · intro error between hpassed
    exact ⟨hpassed.frame, hpassed.quieter, nofun, fun _ _ ↦ hpassed.faulty error rfl, nofun⟩
  · exact fun between hpassed ↦ absurd rfl hpassed.ends

/-! ### All partitions -/

/-- Where a retry is: the partitions it is done with are `READY`, and those that remain have the
checkpoints they had. -/
structure Underway (assigned : List TopicPartition) (world : World)
    (remaining : List TopicPartition) (between : World) : Prop where
  ready : ∃ done, assigned = done ++ remaining ∧ ∀ tp ∈ done, Ready tp between
  checkpoint : ∀ tp ∈ remaining, between.database.checkpoint tp = world.database.checkpoint tp
  quieter : Quieter world.broker between.broker

theorem Ready.frame {other : TopicPartition} (hready : Ready other world)
    (hframe : Frame tp world final) (hother : other ≠ tp) : Ready other final := by
  refine ⟨?_, (hframe.owned other hother).mpr hready.2⟩
  rw [(PartitionStateMachine.reads_eq_of_entries_eq (hframe.entries other hother)).1]
  exact hready.1

/-- A retry over replete changelogs. -/
theorem holds_assignAll_retried {first : Bool} {assigned : List TopicPartition}
    (hcalm : Rehydrate.Calm conditions deadline) (hbatch : 0 < settings.batchSize)
    (hfloored : Floored world.database) (hnodup : assigned.Nodup)
    (hreplete : ∀ tp ∈ assigned, Replete world.broker (settings.template tp))
    (hfuel : ∀ tp ∈ assigned, pollBound world.broker (settings.template tp) ≤ fuel) :
    Holds (environment settings conditions) (AtCall (Answerable settings conditions))
      (Retried settings assigned world.broker) (assignAll settings fuel deadline first assigned)
      world := by
  refine holds_assignAll (Underway assigned world) ?_ ?_ ⟨⟨[], rfl, by simp⟩, fun _ _ ↦
    rfl, .refl _⟩
  · intro tp rest first between hunderway
    obtain ⟨done, hassigned, hready⟩ := hunderway.ready
    subst hassigned
    obtain ⟨_, htail, hdistinct⟩ := List.nodup_append.mp hnodup
    have hfresh : tp ∉ rest := (List.nodup_cons.mp htail).1
    have hmem : tp ∈ done ++ tp :: rest := List.mem_append_right _ List.mem_cons_self
    have hquieter := hunderway.quieter
    have hcheckpoint : ∀ checkpoint ∈ between.database.checkpoint tp, -1 ≤ checkpoint := by
      rw [hunderway.checkpoint tp List.mem_cons_self]
      exact hfloored tp
    refine (holds_assignOne_mended hcalm hbatch hcheckpoint ((hreplete tp hmem).of_quieter hquieter)
      ((hquieter.pollBound_le _).trans (hfuel tp hmem))).mono (fun _ _ hmoment ↦ hmoment) ?_
    intro outcome final hmended
    cases outcome with
    | returned value =>
      refine ⟨⟨done ++ [tp], by simp, fun other hother ↦ ?_⟩, fun other hother ↦ ?_,
        hquieter.trans hmended.quieter⟩
      · rcases List.mem_append.mp hother with hbefore | hlast
        · exact (hready other hbefore).frame hmended.frame
            (hdistinct other hbefore tp List.mem_cons_self)
        · rw [List.mem_singleton.mp hlast]
          exact hmended.ready value rfl
      · rw [hmended.frame.checkpoint other fun hsame ↦ hfresh (hsame ▸ hother)]
        exact hunderway.checkpoint other (List.mem_cons_of_mem _ hother)
    | raised error => exact ⟨tp, hmem, (hmended.faulty error rfl).of_quieter hquieter⟩
    | exhausted => exact absurd rfl hmended.ends
  · intro between hunderway
    obtain ⟨done, hassigned, hready⟩ := hunderway.ready
    rw [List.append_nil] at hassigned
    subst hassigned
    exact hready

/-- A retry is never stuck, and makes all partitions `READY` unless one of them is faulty. -/
theorem holds_retried {base : ℤ} {assigned : List TopicPartition}
    (hrunning : world.memory.runState = .running) (hbatch : 0 < settings.batchSize)
    (hfloored : Floored world.database) (hnodup : assigned.Nodup)
    (hreplete : ∀ tp ∈ assigned, Replete world.broker (settings.template tp))
    (hfuel : ∀ tp ∈ assigned, pollBound world.broker (settings.template tp) ≤ fuel) :
    Holds (environment settings (prompt base settings.rehydrateTimeout))
      (AtCall (Answerable settings (prompt base settings.rehydrateTimeout)))
      (Retried settings assigned world.broker) ((Operation.assign assigned).action settings fuel)
      world := by
  refine Facade.holds_guarded (fun hstopped ↦ absurd hrunning hstopped) fun _ ↦ ?_
  refine holds_bind.mpr (holds_clock.mpr fun reading hreading ↦ ?_)
  exact holds_assignAll_retried (calm_prompt hreading.1) hbatch hfloored hnodup hreplete hfuel

/-- A running store over an empty log. -/
def idleStore : World := Sample.world .empty (Sample.broker (Sample.log []) none)

/-- What listing the topics fails with. -/
def unreachable : KafkaError := .failure "no broker is reachable"

/-- The assignment of a partition whose topics cannot be listed. -/
def unlisted : List (Exchange requests World) :=
  [⟨idleStore, .observe, idleStore.memory⟩, ⟨idleStore, .clock, (0 : ℤ)⟩,
    ⟨idleStore, .observe, idleStore.memory⟩,
    ⟨idleStore, .call .listTopics, .error (.kafka unreachable)⟩]

end KSQLite.Runs
