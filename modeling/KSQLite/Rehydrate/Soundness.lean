import KSQLite.Rehydrate.Mirroring

/-!
# `READY` means caught up

A store is truthful about a partition when it is caught up with the changelog whenever it calls the
partition `READY` (`Truthful`). An assignment of another partition leaves both alone, and one of the
partition itself goes through `RESTORING` before it stores anything, so the store stays truthful
wherever an assignment gets (`truthful_of_reaches`); and it is truthful after every assignment of
the partition that returns, whatever it was before (`truthful_of_revealed`).
-/

set_option autoImplicit false
set_option relaxedAutoImplicit false

namespace KSQLite.Rehydrate

open KSQLite.Log KSQLite.Suspension KSQLite.Store

/-- A store calls a partition `READY`. -/
def IsReady (tp : TopicPartition) (world : World) : Prop :=
  world.memory.state.statusOf tp = some .ready

/-- A store that calls a partition `READY` is caught up with its changelog. -/
def Truthful (settings : Settings) (tp : TopicPartition) (world : World) : Prop :=
  IsReady tp world → CaughtUp settings tp world

/-- What holds at each point: before the log end is captured nothing was stored, and until the
reveal the partition is not `READY`. -/
def PointTruthful (job : Job) : Point → World → Prop
  | .checking, world | .entered, world | .seeded _, world | .connected _, world
  | .unreached, world | .captured, world => Truthful job.settings job.tp world
  | .revealing _, _ | .revealed _, _ => True
  | _, world => ¬ IsReady job.tp world

section Steps

variable {settings : Settings} {conditions : Conditions} {owner : String → TopicPartition}
  {tp : TopicPartition} {job : Job} {world next : World}

/-- A partition that was not encountered before is not `READY` after a change of its offsets. -/
theorem ready_of_getD {status : Option PartitionStatus}
    (hready : some (status.getD .standby) = some .ready) : status = some .ready := by
  cases status with
  | none => cases hready
  | some status => exact hready

/-- Truthfulness depends on the status, the database and the changelogs. -/
theorem Truthful.congr (htruthful : Truthful settings tp world)
    (hstatus : IsReady tp next → IsReady tp world) (hdatabase : next.database = world.database)
    (hchangelogs : next.broker.changelogs = world.broker.changelogs) : Truthful settings tp next :=
  fun hready ↦ (htruthful (hstatus hready)).congr hdatabase hchangelogs

/-- Others append foreign records. -/
theorem Truthful.disturb {broker : Broker} (htruthful : Truthful settings tp world)
    (hsole : SoleWriter conditions (settings.template tp))
    (hdisturb : conditions.disturbs world.broker broker) :
    Truthful settings tp (world.drift broker) :=
  fun hready ↦ (htruthful hready).disturb hsole hdisturb

/-- Every step of the machine keeps what holds at its points.
Assumes: the changelog of the job is that of its partition. -/
theorem pointTruthful_step (hname : job.settings.template job.tp = job.name)
    (hsole : SoleWriter job.conditions job.name) {point after : Point}
    (hstep : Step job (point, world) (after, next)) (hpoint : PointTruthful job point world) :
    PointTruthful job after next := by
  cases hstep with
  | @drift point call world broker _ hdisturb =>
    cases point with
    | checking | entered | seeded | connected | unreached | captured =>
      exact Truthful.disturb hpoint (hname ▸ hsole) hdisturb
    | _ => exact hpoint
  | createTopic | check => exact Truthful.congr hpoint id rfl rfl
  | enter | skip | connect => exact hpoint
  | keepConsumer | keepUnreached => exact Truthful.congr hpoint id rfl rfl
  | seed =>
    refine Truthful.congr hpoint ?_ (World.seed_database _) (by rw [World.seed_broker])
    intro hready
    unfold World.seed at hready
    split at hready
    · exact hready
    · exact ready_of_getD ((PartitionStateMachine.statusOf_recordApplied _).symm.trans hready)
  | captureUnreached =>
    refine Truthful.congr hpoint ?_ rfl rfl
    exact fun hready ↦
      ready_of_getD ((PartitionStateMachine.statusOf_recordLogEnd _).symm.trans hready)
  | capture =>
    intro hready
    have hrestoring : some PartitionStatus.restoring = some .ready :=
      (PartitionStateMachine.statusOf_mark _).symm.trans hready
    cases hrestoring
  | materialize =>
    exact fun hready ↦ hpoint
      (ready_of_getD ((PartitionStateMachine.statusOf_recordApplied _).symm.trans hready))
  | idle _ hnothing =>
    obtain ⟨idlePolls, rfl⟩ := hnothing.exists_idlePolls
    exact hpoint
  | fetch _ _ hfetches _ =>
    obtain ⟨_, _, _, _, _, _, rfl⟩ := hfetches
    exact hpoint
  | openCold | openWarm | lose | readStart | reset | goOn | leaveReset | aim => exact hpoint
  | expire | leave | keep | clamp | reveal | seedUnreached => trivial

/-- A step of the machine for another partition keeps a partition caught up. -/
theorem caughtUp_step_of_ne (hother : tp ≠ job.tp)
    (hsole : SoleWriter job.conditions (job.settings.template tp)) {point after : Point}
    (hstep : Step job (point, world) (after, next)) (hcaught : CaughtUp job.settings tp world) :
    CaughtUp job.settings tp next := by
  have hframe := frame_step hstep
  have hgrows : (changelogOf job.settings tp world).GrowsBy Recordless
      (changelogOf job.settings tp next) := by
    rcases changelogs_step hstep with hsame | hdisturb
    · unfold changelogOf
      rw [hsame]
      exact .refl _ _
    · exact hsole _ _ hdisturb
  refine ⟨fun entry hentry ↦ ?_, ?_⟩
  · rcases hgrows.mem hentry with hold | ⟨hnew, _⟩
    · obtain ⟨added, hadded⟩ := hframe.records_prefix
      intro record hrecord
      rw [← hadded, List.map_append]
      exact List.mem_append_left _ (hcaught.present entry hold record hrecord)
    · exact hnew.present
  · unfold nextReplayed
    rw [hframe.checkpoint tp hother]
    exact hcaught.below.grows hgrows

/-! ### Assignments -/

/-- Wherever the assignment of a partition gets, a truthful store is truthful, whichever partition
is assigned.
Assumes: the changelog of the job is that of its partition. -/
theorem truthful_of_reaches (hname : job.settings.template job.tp = job.name)
    (hshared : Shared job.settings job.conditions owner tp)
    (hmirrors : Mirrors job.settings owner tp world) (htruthful : Truthful job.settings tp world)
    {point : Point} (hreaches : Reaches job (.checking, world) (point, next)) :
    Truthful job.settings tp next := by
  by_cases hother : tp = job.tp
  · subst hother
    have hpoint : PointTruthful job point next := hreaches.invariant (PointTruthful job)
      (pointTruthful_step hname (hname ▸ hshared.sole)) htruthful
    have hmarked : Marked job point next := Reaches.marked hreaches trivial
    have hcaught (hready : point = .revealing .ready ∨ point = .revealed .ready) :
        CaughtUp job.settings job.tp next :=
      (caughtUp_of_reaches hname hshared hmirrors hready hreaches).1
    cases point with
    | checking | entered | seeded | connected | unreached | captured => exact hpoint
    | revealing status =>
      intro hready
      obtain rfl := Option.some.inj (Eq.trans (Eq.symm hmarked) hready)
      exact hcaught (Or.inl rfl)
    | revealed status =>
      intro hready
      obtain rfl := Option.some.inj (hmarked.1.symm.trans hready)
      exact hcaught (Or.inr rfl)
    | _ => exact fun hready ↦ absurd hready hpoint
  · have hentries : next.memory.state.entries tp = world.memory.state.entries tp :=
      (Reaches.frame hreaches).entries tp hother
    intro hready
    have hbefore : IsReady tp world := by
      unfold IsReady PartitionStateMachine.statusOf at hready ⊢
      rwa [hentries] at hready
    exact hreaches.invariant (fun _ world ↦ CaughtUp job.settings tp world)
      (caughtUp_step_of_ne hother hshared.sole) (htruthful hbefore)

/-- After a partition is revealed the store is truthful about it, whatever it was before.
Assumes: the changelog of the job is that of its partition. -/
theorem truthful_of_revealed (hname : job.settings.template job.tp = job.name)
    (hshared : Shared job.settings job.conditions owner job.tp)
    (hmirrors : Mirrors job.settings owner job.tp world) {status : PartitionStatus}
    (hreaches : Reaches job (.checking, world) (.revealed status, next)) :
    Truthful job.settings job.tp next := by
  intro hready
  have hmarked : Marked job (.revealed status) next := Reaches.marked hreaches trivial
  obtain rfl := Option.some.inj (hmarked.1.symm.trans hready)
  exact (caughtUp_of_reaches hname hshared hmirrors (Or.inr rfl) hreaches).1

end Steps

end KSQLite.Rehydrate
