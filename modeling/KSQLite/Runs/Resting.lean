import KSQLite.Runs.Schedules
import KSQLite.Store.WriteBacks

/-!
# The two checkpoints at rest

A coroutine that committed a checkpoint writes it back to the memory only when it is resumed, and in
between others may commit, read and write back the checkpoint of the same partition. As long as no
clamp is among them the order does not matter: the database is never behind the memory, and what it
is ahead by is owed by a coroutine in flight (`Level`, `Synced`). A clamp is not monotone, so it
must not overlap: nothing is owed when it commits, and nothing is committed or read until it is
written back (`Undisturbed`).

Then the two checkpoints agree whenever nothing is in flight, if they agreed at first or an
assignment of the partition has returned since (`checkpoints_agree`).
-/

set_option autoImplicit false
set_option relaxedAutoImplicit false

namespace KSQLite.Runs

open KSQLite.Suspension KSQLite.Store

/-! ### What is owed -/

/-- One checkpoint is not past another one. -/
def AtMost (first second : Option ℤ) : Prop :=
  ∀ low, first = some low → ∃ high, second = some high ∧ low ≤ high

/-- A coroutine is about to write a checkpoint back. -/
def Owes (tp : TopicPartition) (program : Action Unit) (writeBack : WriteBack) : Prop :=
  program.pending = some (.remember (writeBack.update tp))

/-- A coroutine in flight owes a write-back. -/
def Owed (tp : TopicPartition) (tasks : List (Activity × Action Unit)) (index : ℕ)
    (writeBack : WriteBack) : Prop :=
  ∃ activity program, (tasks)[index]? = some (activity, program) ∧ Owes tp program writeBack

section Checkpoints

variable {tp : TopicPartition} {first second third : Option ℤ} {offset : ℤ}

theorem AtMost.refl (first : Option ℤ) : AtMost first first :=
  fun low hlow ↦ ⟨low, hlow, le_refl low⟩

theorem AtMost.trans (hfirst : AtMost first second) (hsecond : AtMost second third) :
    AtMost first third := by
  intro low hlow
  obtain ⟨middle, hmiddle, hle⟩ := hfirst low hlow
  obtain ⟨high, hhigh, hle'⟩ := hsecond middle hmiddle
  exact ⟨high, hhigh, hle.trans hle'⟩

theorem AtMost.antisymm (hfirst : AtMost first second) (hsecond : AtMost second first) :
    first = second := by
  cases first with
  | none =>
    cases second with
    | none => rfl
    | some high =>
      obtain ⟨_, hnone, _⟩ := hsecond high rfl
      cases hnone
  | some low =>
    obtain ⟨high, rfl, hle⟩ := hfirst low rfl
    obtain ⟨_, hsome, hge⟩ := hsecond high rfl
    obtain rfl := Option.some.inj hsome
    exact congrArg some (le_antisymm hle hge)

theorem atMost_apply (first : Option ℤ) (offset : ℤ) :
    AtMost first ((WriteBack.applied offset).apply first) := by
  intro low hlow
  subst hlow
  refine ⟨_, rfl, ?_⟩
  rw [PartitionStateMachine.maxOffset_some]
  exact le_max_left low offset

theorem offset_atMost_apply (first : Option ℤ) (offset : ℤ) :
    AtMost (some offset) ((WriteBack.applied offset).apply first) := by
  intro low hlow
  obtain rfl := Option.some.inj hlow
  exact ⟨_, rfl, PartitionStateMachine.le_maxOffset first offset⟩

/-- A bound of a checkpoint and of an offset bounds what the write-back of the offset makes of
it. -/
theorem apply_atMost (hfirst : AtMost first second) (hoffset : AtMost (some offset) second) :
    AtMost ((WriteBack.applied offset).apply first) second := by
  cases first with
  | none => exact hoffset
  | some low =>
    obtain ⟨high, rfl, hle⟩ := hfirst low rfl
    obtain ⟨bound, hbound, hle'⟩ := hoffset offset rfl
    obtain rfl := Option.some.inj hbound
    intro found hfound
    obtain rfl := Option.some.inj hfound
    refine ⟨high, rfl, ?_⟩
    rw [PartitionStateMachine.maxOffset_some]
    exact max_le hle hle'

theorem apply_eq (first : Option ℤ) (offset : ℤ) :
    (WriteBack.applied offset).apply first = first ∨
      (WriteBack.applied offset).apply first = some offset := by
  cases first with
  | none => exact Or.inr rfl
  | some low =>
    have hmax := PartitionStateMachine.maxOffset_some low offset
    rcases le_total low offset with hle | hle
    · exact Or.inr (congrArg some (hmax.trans (max_eq_right hle)))
    · exact Or.inl (congrArg some (hmax.trans (max_eq_left hle)))

/-- A coroutine owes one write-back at most. -/
theorem Owes.unique {program : Action Unit} {one other : WriteBack} (hone : Owes tp program one)
    (hother : Owes tp program other) : one = other :=
  WriteBack.update_injective (Request.remember.inj (Option.some.inj (hone.symm.trans hother)))

end Checkpoints

/-! ### What an exchange does to the checkpoints -/

section Shifts

variable {settings : Settings} {conditions : Conditions} {tp : TopicPartition}
  {world next : World} {activity : Activity} {request : Request} {reply : request.Reply}
  {program : Action Unit}

/-- The checkpoint in the memory. -/
def remembered (tp : TopicPartition) (world : World) : Option ℤ :=
  world.memory.state.checkpointOf tp

/-- The checkpoint in the database. -/
def stored (tp : TopicPartition) (world : World) : Option ℤ :=
  world.database.checkpoint tp

/-- The database after a work holds the checkpoint that is due to be written back. -/
theorem checkpoint_of_work {json : String → Option String} {work : Work}
    {before after : Database} (hrun : work.run json before = .ok after) :
    after.checkpoint tp = match work.due tp with
      | some writeBack => writeBack.apply (before.checkpoint tp)
      | none => before.checkpoint tp := by
  by_cases hwork : work.partition = tp
  · subst hwork
    cases work with
    | materializeBatch source records offset =>
      have hdue : (Work.materializeBatch source records offset).due source =
          some (.applied offset) := if_pos rfl
      have hpartition : (Work.materializeBatch source records offset).partition = source := rfl
      rw [hpartition, hdue]
      exact checkpoint_of_run hrun
    | applyMaterialization row =>
      have hdue : (Work.applyMaterialization row).due row.source =
          some (.applied row.changelogOffset) := if_pos rfl
      have hpartition : (Work.applyMaterialization row).partition = row.source := rfl
      rw [hpartition, hdue]
      obtain ⟨payload, _, rfl⟩ := Database.applyMaterialization_eq_ok.mp hrun
      simp [Database.upsertCheckpoint, WriteBack.apply]
    | checkpointClamp source target =>
      have hdue : (Work.checkpointClamp source target).due source = some (.clamped target) :=
        if_pos rfl
      have hpartition : (Work.checkpointClamp source target).partition = source := rfl
      rw [hpartition, hdue]
      cases hrun
      exact Database.setCheckpoint_checkpoint_self
    | ownedInsert source =>
      cases hrun
      rfl
    | ownedDelete source =>
      cases hrun
      rfl
  · have hnone : work.due tp = none := by
      cases work with
      | materializeBatch source records offset => exact if_neg hwork
      | applyMaterialization row => exact if_neg hwork
      | checkpointClamp source target => exact if_neg hwork
      | _ => rfl
    rw [hnone]
    exact (Work.leavesAlone hrun (Ne.symm hwork)).checkpoint

/-- What one exchange of a coroutine does to the two checkpoints of a partition, and what the
coroutine owes after it. -/
inductive Shift (tp : TopicPartition) (request : Request) (reply : request.Reply)
    (program : Action Unit) (world next : World) : Prop
  /-- Nothing, but the coroutine may have read the checkpoint and owe it. -/
  | stays : (∀ writeBack : WriteBack, request ≠ .remember (writeBack.update tp)) →
      remembered tp next = remembered tp world → stored tp next = stored tp world →
      (∀ writeBack, Owes tp program writeBack → checkpointRead tp request reply ≠ none ∧
        ∃ offset, writeBack = .applied offset ∧ stored tp world = some offset) →
      Shift tp request reply program world next
  /-- A checkpoint is committed, and owed from then on. -/
  | commits (writeBack : WriteBack) : due tp request reply = some writeBack →
      (∀ writeBack : WriteBack, request ≠ .remember (writeBack.update tp)) →
      remembered tp next = remembered tp world →
      stored tp next = writeBack.apply (stored tp world) → Owes tp program writeBack →
      Shift tp request reply program world next
  /-- A checkpoint is written back. -/
  | writes (writeBack : WriteBack) : request = .remember (writeBack.update tp) →
      remembered tp next = writeBack.apply (remembered tp world) →
      stored tp next = stored tp world → (∀ other, ¬ Owes tp program other) →
      Shift tp request reply program world next

/-- An exchange changes the stored checkpoint as what is due after it says. -/
theorem stored_of_answers
    (hanswers : (environment settings conditions).answers world request reply next) :
    stored tp next = match due tp request reply with
      | some writeBack => writeBack.apply (stored tp world)
      | none => stored tp world := by
  have hcommitted : Committed settings ⟨world, request, reply⟩ next := database_of_answers hanswers
  unfold Committed at hcommitted
  unfold stored
  split at hcommitted
  next hnone =>
    have hdue : due tp request reply = none := by
      unfold due
      split
      · cases hnone
      · rfl
    rw [hdue, hcommitted]
  next commit hsome =>
    unfold committed at hsome
    split at hsome
    next heq =>
      cases heq
      cases hsome
      exact checkpoint_of_work hcommitted
    next heq =>
      cases heq
      cases hsome
      exact congrArg (·.checkpoint tp) (Except.ok.inj hcommitted).symm
    next => cases hsome

/-- The checkpoint that an exchange read is the stored one. -/
theorem stored_of_read {checkpoint : ℤ}
    (hread : checkpointRead tp request reply = some checkpoint)
    (hanswers : (environment settings conditions).answers world request reply next) :
    stored tp world = some checkpoint := by
  unfold checkpointRead at hread
  split at hread
  · split_ifs at hread with hsource
    subst hsource hread
    obtain ⟨hvalue, _⟩ := hanswers
    exact hvalue.symm
  · cases hread

/-- Every exchange of a coroutine is one of these. -/
theorem shift_of_answers (hconcerns : activity.Concerns request)
    (hlink : Link tp request reply program.pending)
    (hanswers : (environment settings conditions).answers world request reply next) :
    Shift tp request reply program world next := by
  have hstored := @stored_of_answers settings conditions tp world next request reply hanswers
  by_cases hremember : ∃ update, request = .remember update
  · obtain ⟨update, rfl⟩ := hremember
    obtain rfl := hanswers
    have hnone : ∀ other, ¬ Owes tp program other := by
      intro other howes
      rcases hlink.owed other howes with hdue | ⟨checkpoint, hread, _⟩
      · cases hdue
      · cases hread
    by_cases hwrites : ∃ writeBack : WriteBack, update = writeBack.update tp
    · obtain ⟨writeBack, rfl⟩ := hwrites
      exact .writes writeBack rfl (WriteBack.checkpointOf_update writeBack world.memory) hstored
        hnone
    · refine .stays (fun writeBack hsame ↦ hwrites ⟨writeBack, Request.remember.inj hsame⟩) ?_
        hstored fun writeBack howes ↦ absurd howes (hnone writeBack)
      rcases hconcerns with hunrelated | ⟨source, _, hconfined⟩
      · exact congrArg (·.checkpointOf tp) (hunrelated world.memory)
      · by_cases hsource : tp = source
        · subst hsource
          exact (hconfined.checkpoint.resolve_left hwrites) world.memory
        · exact congrArg (Option.bind · Entry.checkpointOffset)
            (hconfined.others world.memory tp hsource)
  · have hnot (writeBack : WriteBack) : request ≠ .remember (writeBack.update tp) :=
      fun hrequest ↦ hremember ⟨_, hrequest⟩
    have hremembered : remembered tp next = remembered tp world := by
      rcases state_of_answers hanswers with ⟨update, hrequest, _⟩ | hstate
      · exact absurd ⟨update, hrequest⟩ hremember
      · exact congrArg (·.checkpointOf tp) hstate
    cases hdue : due tp request reply with
    | some writeBack =>
      rw [hdue] at hstored
      exact .commits writeBack hdue hnot hremembered hstored (hlink.due writeBack hdue)
    | none =>
      rw [hdue] at hstored
      refine .stays hnot hremembered hstored fun writeBack howes ↦ ?_
      rcases hlink.owed writeBack howes with hsome | ⟨checkpoint, hread, hwriteBack⟩
      · rw [hdue] at hsome
        cases hsome
      · refine ⟨?_, checkpoint, hwriteBack, stored_of_read hread hanswers⟩
        rw [hread]
        exact Option.some_ne_none checkpoint

end Shifts

/-! ### What is kept -/

/-- A list of coroutines in flight, each with what is left of it. -/
abbrev InFlight : Type := List (Activity × Action Unit)

/-- The database is not behind the memory nor behind what is owed, and nothing that is owed is a
clamp. -/
structure Level (tp : TopicPartition) (world : World) (tasks : InFlight) : Prop where
  memory : AtMost (remembered tp world) (stored tp world)
  owed : ∀ index writeBack, Owed tp tasks index writeBack →
    ∃ offset, writeBack = .applied offset ∧ AtMost (some offset) (stored tp world)

/-- The stored checkpoint is the one in the memory or one that is owed. -/
def Synced (tp : TopicPartition) (world : World) (tasks : InFlight) : Prop :=
  remembered tp world = stored tp world ∨
    ∃ index offset, Owed tp tasks index (.applied offset) ∧ stored tp world = some offset

/-- A clamp was committed, and nothing else is owed. -/
def Clamping (tp : TopicPartition) (world : World) (tasks : InFlight) : Prop :=
  ∃ index target, Owed tp tasks index (.clamped target) ∧ stored tp world = some target ∧
    ∀ other writeBack, Owed tp tasks other writeBack → other = index

/-- No assignment of a partition has seeded the memory yet. -/
def Unseeded (tp : TopicPartition) (tasks : InFlight) : Prop :=
  ∀ (index : ℕ) (assigned : List TopicPartition) (program : Action Unit),
    (tasks)[index]? = some (.assign assigned, program) → tp ∈ assigned →
    program.Meets (Seeded tp)

/-- An exchange that does not overlap a clamp: nothing is owed where it commits one, and where it
commits or reads anything else no clamp is. -/
structure Undisturbed (tp : TopicPartition) (tasks : InFlight) (request : Request)
    (reply : request.Reply) : Prop where
  clamp : ∀ target, due tp request reply = some (.clamped target) →
    ∀ index writeBack, ¬ Owed tp tasks index writeBack
  other : due tp request reply ≠ none ∨ checkpointRead tp request reply ≠ none →
    ∀ index target, ¬ Owed tp tasks index (.clamped target)

/-- No clamp of a partition overlaps another commit or a read of its checkpoint. -/
def Orderly (tp : TopicPartition) (event : Pool.Event requests Activity) (pool : Flight) : Prop :=
  ∀ index request reply, event = .answer index request reply →
    Undisturbed tp pool.tasks request reply

section Keeping

variable {tp : TopicPartition} {world next : World} {tasks : InFlight} {index place : ℕ}
  {activity : Activity} {request : Request} {reply : request.Reply} {program : Action Unit}
  {resume : request.Reply → Action Unit} {writeBack : WriteBack}

/-- What is owed after one coroutine went on. -/
theorem owed_set (hlt : index < tasks.length) :
    Owed tp (tasks.set index (activity, program)) place writeBack ↔
      place = index ∧ Owes tp program writeBack ∨
        place ≠ index ∧ Owed tp tasks place writeBack := by
  constructor
  · rintro ⟨other, rest, hget, howes⟩
    rcases Pool.getElem?_set_cases hget with ⟨hplace, heq⟩ | ⟨hplace, hold⟩
    · cases heq
      exact Or.inl ⟨hplace, howes⟩
    · exact Or.inr ⟨hplace, other, rest, hold, howes⟩
  · rintro (⟨rfl, howes⟩ | ⟨hplace, other, rest, hget, howes⟩)
    · exact ⟨activity, program, List.getElem?_set_self hlt, howes⟩
    · exact ⟨other, rest, by rwa [List.getElem?_set_ne (Ne.symm hplace)], howes⟩

/-- What a coroutine that awaits a request owes. -/
theorem owed_at (hget : (tasks)[index]? = some (activity, .await request resume)) :
    Owed tp tasks index writeBack ↔ request = .remember (writeBack.update tp) := by
  constructor
  · rintro ⟨other, rest, hold, howes⟩
    cases hget.symm.trans hold
    exact Option.some.inj howes
  · rintro rfl
    exact ⟨activity, _, hget, rfl⟩

/-- What is kept of the checkpoints while no clamp is owed. -/
theorem Level.exchange (hlevel : Level tp world tasks)
    (hget : (tasks)[index]? = some (activity, .await request resume))
    (hshift : Shift tp request reply (resume reply) world next)
    (hundisturbed : Undisturbed tp tasks request reply) :
    Level tp next (tasks.set index (activity, resume reply)) ∧
        (Synced tp world tasks → Synced tp next (tasks.set index (activity, resume reply))) ∨
      Clamping tp next (tasks.set index (activity, resume reply)) := by
  have hlt := (List.getElem?_eq_some_iff.mp hget).1
  cases hshift with
  | stays hnot hremembered hstored hreads =>
    -- The coroutine owed nothing, and owes what it has read, which is stored.
    have hstill {place : ℕ} {writeBack : WriteBack} (howed : Owed tp tasks place writeBack) :
        Owed tp (tasks.set index (activity, resume reply)) place writeBack := by
      refine (owed_set hlt).mpr (Or.inr ⟨?_, howed⟩)
      rintro rfl
      exact hnot writeBack ((owed_at hget).mp howed)
    refine Or.inl ⟨⟨?_, fun place writeBack howed ↦ ?_⟩, fun hsynced ↦ ?_⟩
    · rw [hremembered, hstored]
      exact hlevel.memory
    · rw [hstored]
      rcases (owed_set hlt).mp howed with ⟨_, howes⟩ | ⟨_, hold⟩
      · obtain ⟨_, offset, hwriteBack, hread⟩ := hreads writeBack howes
        exact ⟨offset, hwriteBack, hread ▸ AtMost.refl _⟩
      · exact hlevel.owed place writeBack hold
    · unfold Synced
      rw [hremembered, hstored]
      refine hsynced.imp_right ?_
      rintro ⟨place, offset, howed, hoffset⟩
      exact ⟨place, offset, hstill howed, hoffset⟩
  | commits writeBack hdue hnot hremembered hstored howes =>
    cases writeBack with
    | applied offset =>
      have hgrows : AtMost (stored tp world) (stored tp next) := hstored ▸ atMost_apply _ offset
      refine Or.inl ⟨⟨?_, fun place writeBack howed ↦ ?_⟩, fun hsynced ↦ ?_⟩
      · rw [hremembered]
        exact hlevel.memory.trans hgrows
      · rcases (owed_set hlt).mp howed with ⟨_, hnew⟩ | ⟨_, hold⟩
        · exact ⟨offset, hnew.unique howes, hstored ▸ offset_atMost_apply _ offset⟩
        · obtain ⟨bound, hbound, hle⟩ := hlevel.owed place writeBack hold
          exact ⟨bound, hbound, hle.trans hgrows⟩
      · rcases apply_eq (stored tp world) offset with hsame | hnew
        · unfold Synced
          rw [hremembered, hstored.trans hsame]
          refine hsynced.imp_right ?_
          rintro ⟨place, bound, howed, hbound⟩
          refine ⟨place, bound, (owed_set hlt).mpr (Or.inr ⟨?_, howed⟩), hbound⟩
          rintro rfl
          exact hnot _ ((owed_at hget).mp howed)
        · exact Or.inr ⟨index, offset, (owed_set hlt).mpr (Or.inl ⟨rfl, howes⟩),
            hstored.trans hnew⟩
    | clamped target =>
      have hnothing := hundisturbed.clamp target hdue
      refine Or.inr ⟨index, target, (owed_set hlt).mpr (Or.inl ⟨rfl, howes⟩), hstored,
        fun place writeBack howed ↦ ?_⟩
      rcases (owed_set hlt).mp howed with ⟨hplace, _⟩ | ⟨_, hold⟩
      · exact hplace
      · exact absurd hold (hnothing place writeBack)
  | writes writeBack hrequest hremembered hstored hnone =>
    obtain ⟨offset, rfl, hoffset⟩ := hlevel.owed index writeBack ((owed_at hget).mpr hrequest)
    have hbound : AtMost (remembered tp next) (stored tp next) := by
      rw [hremembered, hstored]
      exact apply_atMost hlevel.memory hoffset
    refine Or.inl ⟨⟨hbound, fun place writeBack howed ↦ ?_⟩, fun hsynced ↦ ?_⟩
    · rw [hstored]
      rcases (owed_set hlt).mp howed with ⟨_, howes⟩ | ⟨_, hold⟩
      · exact absurd howes (hnone writeBack)
      · exact hlevel.owed place writeBack hold
    · rcases hsynced with hequal | ⟨place, bound, howed, hplace⟩
      · refine Or.inl (hbound.antisymm ?_)
        rw [hstored, ← hequal, hremembered]
        exact atMost_apply _ offset
      · by_cases hindex : place = index
        · subst hindex
          have hsame : bound = offset := by
            have hequal := WriteBack.update_injective
              (Request.remember.inj (((owed_at hget).mp howed).symm.trans hrequest))
            cases hequal
            rfl
          subst hsame
          refine Or.inl (hbound.antisymm ?_)
          rw [hstored, hplace, hremembered]
          exact offset_atMost_apply _ bound
        · exact Or.inr ⟨place, bound, (owed_set hlt).mpr (Or.inr ⟨hindex, howed⟩),
            hstored.trans hplace⟩

/-- What is kept of the checkpoints while a clamp is owed. -/
theorem Clamping.exchange (hclamping : Clamping tp world tasks)
    (hget : (tasks)[index]? = some (activity, .await request resume))
    (hshift : Shift tp request reply (resume reply) world next)
    (hundisturbed : Undisturbed tp tasks request reply) :
    Level tp next (tasks.set index (activity, resume reply)) ∧
        Synced tp next (tasks.set index (activity, resume reply)) ∨
      Clamping tp next (tasks.set index (activity, resume reply)) := by
  have hlt := (List.getElem?_eq_some_iff.mp hget).1
  obtain ⟨clamper, target, howed, htarget, halone⟩ := hclamping
  cases hshift with
  | stays hnot hremembered hstored hreads =>
    refine Or.inr ⟨clamper, target, (owed_set hlt).mpr (Or.inr ⟨?_, howed⟩),
      hstored.trans htarget, fun place writeBack hplace ↦ ?_⟩
    · rintro rfl
      exact hnot _ ((owed_at hget).mp howed)
    · rcases (owed_set hlt).mp hplace with ⟨_, howes⟩ | ⟨_, hold⟩
      · have hread := (hreads writeBack howes).1
        exact absurd howed (hundisturbed.other (Or.inr hread) clamper target)
      · exact halone place writeBack hold
  | commits writeBack hdue hnot hremembered hstored howes =>
    have hsome : due tp request reply ≠ none := by
      rw [hdue]
      exact Option.some_ne_none writeBack
    exact absurd howed (hundisturbed.other (Or.inl hsome) clamper target)
  | writes writeBack hrequest hremembered hstored hnone =>
    obtain rfl := halone index writeBack ((owed_at hget).mpr hrequest)
    have hsame : writeBack = .clamped target := WriteBack.update_injective
      (Request.remember.inj (hrequest.symm.trans ((owed_at hget).mp howed)))
    subst hsame
    have hequal : remembered tp next = stored tp next := by
      rw [hremembered, hstored, htarget]
      rfl
    refine Or.inl ⟨⟨hequal ▸ AtMost.refl _, fun place other hplace ↦ ?_⟩, Or.inl hequal⟩
    rcases (owed_set hlt).mp hplace with ⟨_, howes⟩ | ⟨hplace, hold⟩
    · exact absurd howes (hnone other)
    · exact absurd (halone place other hold) hplace

end Keeping

/-! ### Flights -/

/-- What every orderly event keeps, in a flight from a given world. -/
structure Balanced (tp : TopicPartition) (origin world : World) (tasks : InFlight) : Prop where
  known : ∀ (index : ℕ) (activity : Activity) (program : Action Unit),
    (tasks)[index]? = some (activity, program) →
    program.Asks activity.Concerns ∧ program.Chain (Link tp)
  balance : Level tp world tasks ∧ (Synced tp world tasks ∨
      remembered tp origin ≠ stored tp origin ∧ Unseeded tp tasks) ∨
    Clamping tp world tasks

section Flights

variable {settings : Settings} {conditions : Conditions} {fuel : ℕ} {tp : TopicPartition}
  {origin world next : World} {tasks : InFlight} {index : ℕ} {activity : Activity}
  {request : Request} {reply : request.Reply} {resume : request.Reply → Action Unit}

/-- An exchange that seeds the memory leaves it in step with the database. -/
theorem synced_of_seeded (hlevel : Level tp world tasks)
    (hget : (tasks)[index]? = some (activity, .await request resume))
    (hanswers : (environment settings conditions).answers world request reply next)
    (hseeded : Seeded tp request reply (resume reply).pending) :
    Synced tp next (tasks.set index (activity, resume reply)) := by
  have hlt := (List.getElem?_eq_some_iff.mp hget).1
  unfold Seeded at hseeded
  split at hseeded
  next source checkpoint =>
    obtain ⟨rfl, hnext⟩ := hseeded
    obtain ⟨rfl, rfl⟩ := hanswers
    cases hstored : stored source next with
    | none =>
      refine Or.inl (hlevel.memory.antisymm fun low hlow ↦ ?_)
      rw [hstored] at hlow
      cases hlow
    | some offset =>
      exact Or.inr ⟨index, offset, (owed_set hlt).mpr (Or.inl ⟨rfl, hnext offset hstored⟩),
        hstored⟩
  next => exact hseeded.elim

/-- An exchange keeps the two checkpoints in balance. -/
theorem Balanced.exchange (hbalanced : Balanced tp origin world tasks)
    (hget : (tasks)[index]? = some (activity, .await request resume))
    (hanswers : (environment settings conditions).answers world request reply next)
    (hundisturbed : Undisturbed tp tasks request reply) :
    Balanced tp origin next (tasks.set index (activity, resume reply)) := by
  obtain ⟨hasks, hchain⟩ := hbalanced.known index activity _ hget
  have hshift : Shift tp request reply (resume reply) world next :=
    shift_of_answers hasks.1 (hchain reply).1 hanswers
  refine ⟨fun place other program hplace ↦ ?_, ?_⟩
  · rcases Pool.getElem?_set_cases hplace with ⟨_, heq⟩ | ⟨_, hold⟩
    · cases heq
      exact ⟨hasks.2 reply, (hchain reply).2⟩
    · exact hbalanced.known place other program hold
  · rcases hbalanced.balance with ⟨hlevel, hsynced⟩ | hclamping
    · rcases hlevel.exchange hget hshift hundisturbed with ⟨hafter, hstill⟩ | hclamped
      · refine Or.inl ⟨hafter, ?_⟩
        rcases hsynced with hsynced | ⟨hapart, hunseeded⟩
        · exact Or.inl (hstill hsynced)
        · by_cases hseeds : Seeded tp request reply (resume reply).pending
          · exact Or.inl (synced_of_seeded hlevel hget hanswers hseeds)
          · refine Or.inr ⟨hapart, fun place assigned program hplace htp ↦ ?_⟩
            rcases Pool.getElem?_set_cases hplace with ⟨_, heq⟩ | ⟨_, hold⟩
            · cases heq
              exact (hunseeded index assigned _ hget htp reply).resolve_left hseeds
            · exact hunseeded place assigned program hold htp
      · exact Or.inr hclamped
    · rcases hclamping.exchange hget hshift hundisturbed with ⟨hafter, hsynced⟩ | hclamped
      · exact Or.inl ⟨hafter, Or.inl hsynced⟩
      · exact Or.inr hclamped

/-- A coroutine that is started owes nothing. -/
theorem owed_start {writeBack : WriteBack} :
    Owed tp (tasks ++ [(activity, activity.action settings fuel)]) index writeBack ↔
      Owed tp tasks index writeBack := by
  constructor
  · rintro ⟨other, program, hget, howes⟩
    rcases Pool.getElem?_append_cases hget with ⟨_, heq⟩ | hold
    · cases heq
      have hflows : (activity.action settings fuel).Flows (Link tp) (Plain tp) := activity.flows tp
      exact absurd (.writeBack writeBack) (hflows.starts _ howes)
    · exact ⟨other, program, hold, howes⟩
  · rintro ⟨other, program, hget, howes⟩
    refine ⟨other, program, ?_, howes⟩
    rw [List.getElem?_append_left (List.getElem?_eq_some_iff.mp hget).1]
    exact hget

/-- A start keeps the two checkpoints in balance. -/
theorem Balanced.start (hbalanced : Balanced tp origin world tasks) :
    Balanced tp origin world (tasks ++ [(activity, activity.action settings fuel)]) := by
  have hflows : (activity.action settings fuel).Flows (Link tp) (Plain tp) := activity.flows tp
  refine ⟨fun place other program hplace ↦ ?_, ?_⟩
  · rcases Pool.getElem?_append_cases hplace with ⟨_, heq⟩ | hold
    · cases heq
      exact ⟨activity.asks, hflows.chain⟩
    · exact hbalanced.known place other program hold
  · rcases hbalanced.balance with ⟨hlevel, hsynced⟩ | ⟨clamper, target, howed, htarget, halone⟩
    · refine Or.inl ⟨⟨hlevel.memory, fun place writeBack howed ↦
        hlevel.owed place writeBack (owed_start.mp howed)⟩, ?_⟩
      refine hsynced.imp (fun hsynced ↦ ?_) fun hnot ↦ ⟨hnot.1, fun place assigned program hplace
        htp ↦ ?_⟩
      · refine hsynced.imp_right ?_
        rintro ⟨place, offset, howed, hoffset⟩
        exact ⟨place, offset, owed_start.mpr howed, hoffset⟩
      · rcases Pool.getElem?_append_cases hplace with ⟨_, heq⟩ | hold
        · cases heq
          exact meets_assign htp
        · exact hnot.2 place assigned program hold htp
    · exact Or.inr ⟨clamper, target, owed_start.mpr howed, htarget,
        fun place writeBack hplace ↦ halone place writeBack (owed_start.mp hplace)⟩

/-- What others do to the broker keeps the two checkpoints in balance. -/
theorem Balanced.drift {pending : Request} (hbalanced : Balanced tp origin world tasks)
    (hinterferes : (environment settings conditions).interferes pending world next) :
    Balanced tp origin next tasks := by
  obtain ⟨broker, _, rfl⟩ := hinterferes
  exact ⟨hbalanced.known, hbalanced.balance.imp_left fun hkept ↦
    ⟨⟨hkept.1.memory, hkept.1.owed⟩, hkept.2⟩⟩

/-- What is answered at once overlaps no clamp. -/
theorem undisturbed_of_instant (hinstant : ¬ Suspends request) :
    Undisturbed tp tasks request reply := by
  have hnone : due tp request reply = none ∧ checkpointRead tp request reply = none := by
    cases request with
    | call call => exact absurd ⟨call, rfl⟩ hinstant
    | _ => exact ⟨rfl, rfl⟩
  refine ⟨fun target hdue ↦ ?_, fun hsome ↦ ?_⟩
  · rw [hnone.1] at hdue
    cases hdue
  · rw [hnone.1, hnone.2] at hsome
    exact hsome.elim (fun hnot ↦ absurd rfl hnot) fun hnot ↦ absurd rfl hnot

/-- Every orderly event keeps the two checkpoints in balance. -/
theorem Balanced.event {event : Pool.Event requests Activity} {before after : Flight}
    (hbalanced : Balanced tp origin before.world before.tasks) (hadmits : Orderly tp event before)
    (hevent : Pool.Step (environment settings conditions) Suspends (Activity.action settings fuel)
      event before after) : Balanced tp origin after.world after.tasks := by
  cases hevent with
  | start => exact hbalanced.start
  | drift _ _ hinterferes => exact hbalanced.drift hinterferes
  | answer hget _ hanswers => exact hbalanced.exchange hget hanswers (hadmits _ _ _ rfl)
  | @resume _ index activity task rest next hget _ hburst =>
    obtain ⟨hlt, hold⟩ := List.getElem?_eq_some_iff.mp hget
    refine hburst.keeps (fun program world ↦
        Balanced tp origin world (before.tasks.set index (activity, program)))
      (fun request resume world reply next hkept hinstant hanswers ↦ ?_) ?_
    · have hplace : (before.tasks.set index (activity, .await request resume))[index]? =
          some (activity, .await request resume) := List.getElem?_set_self hlt
      have hnext := hkept.exchange hplace hanswers (undisturbed_of_instant hinstant)
      rwa [List.set_set] at hnext
    · rw [← hold, List.set_getElem_self]
      exact hbalanced

/-- Every orderly run keeps the two checkpoints in balance. -/
theorem balanced_of_run {pool : Flight}
    (hstart : AtMost (remembered tp origin) (stored tp origin))
    (hrun : Flight.Run settings conditions fuel (Orderly tp) (.idle origin) pool) :
    Balanced tp origin pool.world pool.tasks := by
  refine hrun.invariant (fun pool ↦ Balanced tp origin pool.world pool.tasks)
    (fun event before after hbefore hadmits hevent ↦ hbefore.event hadmits hevent) ?_
  refine ⟨fun index activity program hget ↦ (by cases hget), Or.inl ⟨⟨hstart, ?_⟩, ?_⟩⟩
  · rintro index writeBack ⟨_, _, hget, _⟩
    cases hget
  · by_cases hequal : remembered tp origin = stored tp origin
    · exact Or.inl (Or.inl hequal)
    · exact Or.inr ⟨hequal, fun index assigned program hget ↦ (by cases hget)⟩

/-- In every interleaving of appends, assignments and revocations in which no clamp of a partition
overlaps another commit or a read of its checkpoint, the checkpoint in the memory is never past the
one in the database unless a clamp is being written back; and when nothing is in flight the two are
equal, if they were at first or an assignment of the partition has returned.
Assumes: at first the memory was not ahead, as after a restart. -/
theorem checkpoints_agree {pool : Flight}
    (hstart : AtMost (remembered tp origin) (stored tp origin))
    (hrun : Flight.Run settings conditions fuel (Orderly tp) (.idle origin) pool) :
    ((∀ index target, ¬ Owed tp pool.tasks index (.clamped target)) →
      AtMost (remembered tp pool.world) (stored tp pool.world)) ∧
    ((∀ task ∈ pool.tasks, task.2.pending = none) →
      (remembered tp origin = stored tp origin ∨
        ∃ assigned, tp ∈ assigned ∧ (.assign assigned, .finish ()) ∈ pool.tasks) →
      remembered tp pool.world = stored tp pool.world) := by
  have hbalanced := balanced_of_run hstart hrun
  constructor
  · intro hquiet
    rcases hbalanced.balance with ⟨hlevel, _⟩ | ⟨index, target, howed, _⟩
    · exact hlevel.memory
    · exact absurd howed (hquiet index target)
  · intro hrest hseeded
    have hnothing (index : ℕ) (writeBack : WriteBack) : ¬ Owed tp pool.tasks index writeBack := by
      rintro ⟨activity, program, hget, howes⟩
      have hnone := hrest _ (List.mem_of_getElem? hget)
      exact absurd (howes.symm.trans hnone) (Option.some_ne_none _)
    rcases hbalanced.balance with ⟨_, hsynced | ⟨hapart, hunseeded⟩⟩ | ⟨index, target, howed, _⟩
    · rcases hsynced with hequal | ⟨index, offset, howed, _⟩
      · exact hequal
      · exact absurd howed (hnothing index _)
    · rcases hseeded with hequal | ⟨assigned, htp, hmem⟩
      · exact absurd hequal hapart
      · obtain ⟨index, hget⟩ := List.getElem?_of_mem hmem
        exact (hunseeded index assigned _ hget htp).elim
    · exact absurd howed (hnothing index _)

end Flights

/-! ### A sample -/

section Sample

variable {settings : Settings} {conditions : Conditions} {fuel : ℕ} {tp : TopicPartition}
  {world between next : World} {tasks : InFlight} {activity : Activity} {call : Call}
  {resume : Request.Reply (.call call) → Action Unit} {rest : Action Unit} {origin : Flight}

/-- Where no coroutine is about to change the memory, any call may succeed. -/
theorem orderly_called (index : ℕ) (value : call.Result)
    (hrun : Flight.Run settings conditions fuel (Orderly tp) origin ⟨world, tasks, []⟩)
    (hget : (tasks)[index]? = some (activity, @Program.await requests Error Unit
      (.call call) resume))
    (hquiet : ∀ task ∈ tasks, ∀ update, task.2.pending ≠ some (.remember update))
    (hsucceeds : Succeeds settings conditions world call value between)
    (hcontinues : Continues settings conditions (resume (.ok value)) between rest next) :
    Flight.Run settings conditions fuel (Orderly tp) origin
      ⟨next, tasks.set index (activity, rest), []⟩ := by
  have hnothing (place : ℕ) (writeBack : WriteBack) : ¬ Owed tp tasks place writeBack := by
    rintro ⟨other, program, hplace, howes⟩
    exact hquiet _ (List.mem_of_getElem? hplace) _ howes
  have hanswers : (environment settings conditions).answers world (.call call)
    (.ok value) between := hsucceeds
  refine hrun.exchanged hget (fun place request reply _ ↦ ?_) hanswers
    (fun place request reply hevent ↦ (by cases hevent)) hcontinues
  exact ⟨fun _ _ ↦ hnothing, fun _ place target ↦ hnothing place (.clamped target)⟩

end Sample

/-- A store over one record that it applied before it was constructed. -/
def warmOrders : World :=
  connected Sample.firstApplied (Sample.broker (Sample.log [Sample.first]) none)

/-- A warm restart: the memory holds no checkpoint at first, and the stored one afterwards. -/
theorem checkpoints_agree_warm : remembered Sample.orders warmOrders = none ∧
    ∃ final : Flight,
      Flight.Run Sample.settings Sample.calm 0 (Orderly Sample.orders) (.idle warmOrders) final ∧
      stored Sample.orders final.world = some 0 ∧
      remembered Sample.orders final.world = some 0 := by
  have hcheckpoint : warmOrders.database.checkpoint Sample.orders = some 0 := by
    simp [warmOrders, connected, Sample.world, Sample.firstApplied]
  have hstop : (warmOrders.broker.changelogs Sample.changelog).stop = 1 := by
    have hlog : warmOrders.broker.changelogs Sample.changelog = Sample.log [Sample.first] :=
      Sample.broker_changelogs _ _
    rw [hlog]
    rfl
  let seeded := warmOrders.seed Sample.orders (some 0)
  let marked := ((seeded.capture Sample.orders Sample.changelog 1).seek 1).onState
    (·.markReady Sample.orders)
  have hend (world : World) : Continues Sample.settings Sample.calm
      (around Sample.settings 0 Sample.orders 30 (pure ())) world (.finish ()) world :=
    continues_returned (continues_pure ())
  have hstarted : Flight.Run Sample.settings Sample.calm 0 (Orderly Sample.orders)
      (.idle warmOrders) ⟨warmOrders, [] ++ [(.assign [Sample.orders],
        around Sample.settings 0 Sample.orders 30
          (rehydrateOne Sample.settings 0 Sample.orders Sample.changelog 30))], []⟩ :=
    Pool.Run.launched .refl (fun _ _ _ hevent ↦ (by cases hevent))
      (fun _ _ _ hevent ↦ (by cases hevent))
      (continues_assign 0 rfl (Finset.mem_singleton_self _) changelogName_orders trivial)
  have hquiet {call : Call} {resume : Request.Reply (.call call) → Action Unit} :
      ∀ task ∈ ([(.assign [Sample.orders], .await (.call call) resume)] : InFlight),
        ∀ update, task.2.pending ≠ some (.remember update) := by
    intro task htask update hpending
    rw [List.mem_singleton.mp htask] at hpending
    cases hpending
  have hnonneg : (0 : ℤ) ≤ 0 + 1 := by decide
  have hread := orderly_called 0 (some 0) hstarted rfl hquiet ⟨hcheckpoint.symm, rfl⟩
    (continues_around (continues_capturing (some 0) rfl) fun value hvalue ↦ by cases hvalue)
  have hplaced := orderly_called 0 (1 : ℤ) hread rfl hquiet ⟨hstop.symm, rfl⟩
    (continues_around (continues_placing (continues_warm hnonneg
      (continues_caughtUp rfl (continues_finishReplay rfl)))) fun value hvalue ↦ by cases hvalue)
  have hrevealed := orderly_called 0 () hplaced rfl hquiet ⟨_, rfl, rfl⟩ (hend _)
  let final := marked.commit (marked.database.insertOwned Sample.orders)
  have hnone : remembered Sample.orders warmOrders = none := rfl
  have hstart : AtMost (remembered Sample.orders warmOrders)
      (stored Sample.orders warmOrders) := fun low hlow ↦ (by cases hlow)
  have hended : ∀ task ∈ ([(.assign [Sample.orders], .finish ())] : InFlight),
      task.2.pending = none := by
    intro task htask
    rw [List.mem_singleton.mp htask]
    rfl
  have hequal : remembered Sample.orders final = stored Sample.orders final :=
    (checkpoints_agree hstart hrevealed).2 hended
      (Or.inr ⟨_, List.mem_singleton_self _, List.mem_singleton_self _⟩)
  have hstored : stored Sample.orders final = some 0 := hcheckpoint
  exact ⟨hnone, _, hrevealed, hstored, hequal.trans hstored⟩

end KSQLite.Runs
