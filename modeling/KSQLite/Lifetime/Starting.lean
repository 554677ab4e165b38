import KSQLite.Lifetime.Facade
import KSQLite.Suspension.Ledger
import Mathlib.Data.Multiset.Filter

/-!
# Starts that overlap

A start opens a pool, a producer and an admin client at awaits, and what it opened is owed until it
is closed or held: by a start that rolls back, by the fields of the store, by the stop that closes
them. The ledger has one entry that won, once the store is no longer new. Where a start holds what
it opened only while the store is new, at most one start returns, and what the others opened is
closed (`opens_once`). Two starts that both pass the check at the beginning both hold what they
opened, and the pool of the first one is lost (`both_open`).
-/

set_option autoImplicit false
set_option relaxedAutoImplicit false

namespace KSQLite.Lifetime.Starting

open KSQLite.Suspension

open KSQLite.Store (RunState TopicPartition)

/-- What the facade holds, in the order of its closing. -/
def resources (held : Held) : List Resource := [held.producer, held.admin, held.pool]

/-! ### The ledger -/

/-- How far a call is: not resumed yet, with what it has to close, the start that won, or a stop
before it closes what the store holds. -/
inductive Stage
  | fresh
  | owing (owed : List Resource)
  | won
  | draining
  | reaping
  deriving DecidableEq

namespace Stage

/-- The stage after an exchange. -/
def move : Stage → (request : Request) → request.Reply → Stage
  | owing owed, .construct .consumer, _ => owing owed
  | owing owed, .construct _, .ok resource => owing (resource :: owed)
  | owing owed, .await (.close resource), _ => owing (owed.filter (· ≠ resource))
  | _, .hold _, _ => won
  | _, .become .stopping, _ => draining
  | _, .become .closed, _ => reaping
  | reaping, .observe, fields => owing (fields.held.elim [] resources)
  | fresh, _, _ => owing []
  | stage, _, _ => stage

/-- A call has to close a resource. -/
def Owes (resource : Resource) : Stage → Prop
  | owing owed => resource ∈ owed
  | _ => False

end Stage

abbrev Entries : Type := Multiset (Operation × Stage)

/-- Some call in flight has to close a resource. -/
def Owed (entries : Entries) (resource : Resource) : Prop :=
  ∃ entry ∈ entries, entry.2.Owes resource

/-- The entry of the start that won. -/
abbrev IsWon (entry : Operation × Stage) : Prop := entry.2 = .won

/-- A store that is not closed holds a resource. -/
def InUse (fields : Fields) (resource : Resource) : Prop :=
  fields.runState ≠ .closed ∧ ∃ held, fields.held = some held ∧ resource ∈ resources held

/-- The operations that open or close. -/
def Opens : Operation → Prop
  | .start | .stop => True
  | _ => False

/-- What the entries say of a store. -/
structure Kept (world : World) (entries : Entries) : Prop where
  /-- Everything that was opened is closed, held or owed. -/
  made : ∀ kind ≠ .consumer, ∀ number < world.made kind, .made kind number ∈ world.shut ∨
    InUse world.fields (.made kind number) ∨ Owed entries (.made kind number)
  won : entries.countP IsWon ≤ if world.fields.runState = .new then 0 else 1
  unheld : world.fields.runState = .new → world.fields.held = none
  /-- A store that is stopping has a stop that closes it. -/
  stopping : world.fields.runState = .stopping → (.stop, .draining) ∈ entries
  role : ∀ entry ∈ entries, ∀ resource, entry.2.Owes resource → Opens entry.1

/-- A start holds what it opened only while the store is new, and no stop is cancelled while it
waits. What a start opens fails only if it may. -/
def Alone (fails : Prop) (world : World) : (request : Request) → request.Reply → Prop
  | .hold _, _ => world.fields.runState = .new
  | .construct kind, .error _ => kind = .consumer ∨ fails
  | .await (.migrate _), .error _ => fails
  | .await (.start resource), .error _ => (∃ number, resource = .made .consumer number) ∨ fails
  | .await .drain, .error _ => False
  | _, _ => True

/-- What a start that does not win raises: it is refused, its configuration is, or something it
opened failed. -/
def Excused (fails : Prop) (settings : Settings) (failure : Failure) : Prop :=
  failure = .startedTwice ∨ fails ∨
    ∃ message, settings.validated = .error message ∧ failure = .misconfigured message

section Steps

variable {world : World} {others : Entries} {operation : Operation}

theorem owed_cons {stage : Stage} {resource : Resource} :
    Owed ((operation, stage) ::ₘ others) resource ↔
      stage.Owes resource ∨ Owed others resource := by
  simp only [Owed, Multiset.mem_cons, exists_eq_or_imp]

theorem countP_won {stage : Stage} :
    ((operation, stage) ::ₘ others).countP IsWon =
      others.countP IsWon + if stage = .won then 1 else 0 :=
  Multiset.countP_cons _ _ _

/-- What a ledger says with the entry of one call aside. -/
theorem Kept.made_cons {stage : Stage} (hkept : Kept world ((operation, stage) ::ₘ others))
    {kind : Kind} (hkind : kind ≠ .consumer) {number : ℕ} (hnumber : number < world.made kind) :
    .made kind number ∈ world.shut ∨ InUse world.fields (.made kind number) ∨
      stage.Owes (.made kind number) ∨ Owed others (.made kind number) := by
  have hmade := hkept.made kind hkind number hnumber
  rwa [owed_cons] at hmade

/-- One start won at most. -/
theorem Kept.won_le {stage : Stage} (hkept : Kept world ((operation, stage) ::ₘ others)) :
    others.countP IsWon ≤ 1 := by
  have hwon := hkept.won
  rw [countP_won] at hwon
  split_ifs at hwon <;> omega

/-- The calls that owe something are starts and stops. -/
theorem Kept.role_cons {before after : Stage}
    (hkept : Kept world ((operation, before) ::ₘ others))
    (hrole : ∀ resource, after.Owes resource → Opens operation) :
    ∀ entry ∈ (operation, after) ::ₘ others, ∀ resource, entry.2.Owes resource →
      Opens entry.1 := by
  intro entry hentry resource howes
  rcases Multiset.mem_cons.mp hentry with rfl | hother
  · exact hrole resource howes
  · exact hkept.role entry (Multiset.mem_cons_of_mem hother) resource howes

/-- A call goes on: what is left to show of the ledger. -/
theorem Kept.replace {before after : Stage} {next : World}
    (hkept : Kept world ((operation, before) ::ₘ others))
    (hmade : ∀ kind ≠ .consumer, ∀ number < next.made kind, .made kind number ∈ next.shut ∨
      InUse next.fields (.made kind number) ∨ after.Owes (.made kind number) ∨
      Owed others (.made kind number))
    (hstate : next.fields.runState = world.fields.runState)
    (hheld : next.fields.held = world.fields.held)
    (hwon : after = .won → before = .won) (hdraining : before = .draining → after = .draining)
    (hrole : ∀ resource, after.Owes resource → Opens operation) :
    Kept next ((operation, after) ::ₘ others) where
  made kind hkind number hnumber := by
    rw [owed_cons]
    exact hmade kind hkind number hnumber
  won := by
    have hbefore := hkept.won
    rw [countP_won] at hbefore ⊢
    rw [hstate]
    by_cases hafter : after = .won
    · rw [hwon hafter] at hbefore
      rwa [hafter]
    · rw [if_neg hafter]
      omega
  unheld := by
    rw [hstate, hheld]
    exact hkept.unheld
  stopping hstopping := by
    rw [hstate] at hstopping
    rcases Multiset.mem_cons.mp (hkept.stopping hstopping) with hown | hother
    · obtain ⟨hoperation, hbefore⟩ := Prod.mk.inj hown
      rw [hdraining hbefore.symm, ← hoperation]
      exact Multiset.mem_cons_self _ _
    · exact Multiset.mem_cons_of_mem hother
  role := hkept.role_cons hrole

/-- A call goes on while the store does not change. -/
theorem Kept.pass {before after : Stage} (hkept : Kept world ((operation, before) ::ₘ others))
    (howes : ∀ resource, before.Owes resource → resource ∈ world.shut ∨ after.Owes resource)
    (hwon : after = .won → before = .won) (hdraining : before = .draining → after = .draining)
    (hrole : ∀ resource, after.Owes resource → Opens operation) :
    Kept world ((operation, after) ::ₘ others) := by
  refine hkept.replace (fun kind hkind number hnumber ↦ ?_) rfl rfl hwon hdraining hrole
  rcases hkept.made_cons hkind hnumber with hshut | hinUse | hbefore | hothers
  · exact Or.inl hshut
  · exact Or.inr (Or.inl hinUse)
  · exact (howes _ hbefore).imp_right fun hafter ↦ Or.inr (Or.inl hafter)
  · exact Or.inr (Or.inr (Or.inr hothers))

/-- A call that is resumed owes nothing yet. -/
theorem Kept.resume (hkept : Kept world ((operation, .fresh) ::ₘ others)) :
    Kept world ((operation, .owing []) ::ₘ others) :=
  hkept.pass (fun _ ↦ False.elim) nofun nofun nofun

/-- More is closed. -/
theorem Kept.close {entries : Entries} (hkept : Kept world entries) (resource : Resource) :
    Kept (world.close resource) entries where
  made kind hkind number hnumber :=
    (hkept.made kind hkind number hnumber).imp_left Finset.mem_insert_of_mem
  won := hkept.won
  unheld := hkept.unheld
  stopping := hkept.stopping
  role := hkept.role

/-- A call closes a resource, and does not owe it any more. -/
theorem kept_closed {owed : List Resource} {resource : Resource}
    (hkept : Kept world ((operation, .owing owed) ::ₘ others)) :
    Kept (world.close resource)
      ((operation, .owing (owed.filter (· ≠ resource))) ::ₘ others) := by
  refine (hkept.close resource).pass (fun other howes ↦ ?_) nofun nofun fun other howes ↦
    hkept.role _ (Multiset.mem_cons_self _ _) other (List.mem_filter.mp howes).1
  by_cases hsame : other = resource
  · subst hsame
    exact Or.inl (Finset.mem_insert_self _ _)
  · exact Or.inr (List.mem_filter.mpr ⟨howes, decide_eq_true hsame⟩)

/-- Something changes that is not part of the ledger. -/
theorem Kept.onward {entries : Entries} {next : World} (hkept : Kept world entries)
    (hmade : ∀ kind ≠ .consumer, next.made kind = world.made kind) (hshut : next.shut = world.shut)
    (hstate : next.fields.runState = world.fields.runState)
    (hheld : next.fields.held = world.fields.held) : Kept next entries where
  made kind hkind number hnumber := by
    rw [hmade kind hkind] at hnumber
    unfold InUse
    rw [hshut, hstate, hheld]
    exact hkept.made kind hkind number hnumber
  won := by
    rw [hstate]
    exact hkept.won
  unheld := by
    rw [hstate, hheld]
    exact hkept.unheld
  stopping := by
    rw [hstate]
    exact hkept.stopping
  role := hkept.role

/-- A start opens something. -/
theorem kept_construct {owed : List Resource} {kind : Kind}
    (hkept : Kept world ((.start, .owing owed) ::ₘ others)) :
    Kept (world.construct kind)
      ((.start, .owing (.made kind (world.made kind) :: owed)) ::ₘ others) := by
  refine hkept.replace (fun other hother number hnumber ↦ ?_) rfl rfl nofun nofun fun _ _ ↦ trivial
  by_cases hlast : other = kind ∧ number = world.made kind
  · obtain ⟨rfl, rfl⟩ := hlast
    exact Or.inr (Or.inr (Or.inl List.mem_cons_self))
  · have hearlier : number < world.made other := by
      by_cases hkind : other = kind
      · subst hkind
        have hlt : number < world.made other + 1 := by
          simpa [World.construct] using hnumber
        have hne : number ≠ world.made other := fun hsame ↦ hlast ⟨rfl, hsame⟩
        omega
      · simpa [World.construct, Function.update_of_ne hkind] using hnumber
    rcases hkept.made_cons hother hearlier with hshut | hinUse | hbefore | hothers
    · exact Or.inl hshut
    · exact Or.inr (Or.inl hinUse)
    · exact Or.inr (Or.inr (Or.inl (List.mem_cons_of_mem _ hbefore)))
    · exact Or.inr (Or.inr (Or.inr hothers))

/-- A start holds what it opened, in a store that is new. -/
theorem kept_hold {owed : List Resource} {held : Held}
    (hkept : Kept world ((operation, .owing owed) ::ₘ others))
    (hnew : world.fields.runState = .new) (howed : ∀ resource ∈ owed, resource ∈ resources held) :
    Kept (world.hold held) ((operation, .won) ::ₘ others) where
  made kind hkind number hnumber := by
    rw [owed_cons]
    rcases hkept.made_cons hkind hnumber with hshut | ⟨_, _, hheld, _⟩ | hbefore | hothers
    · exact Or.inl hshut
    · cases (hkept.unheld hnew).symm.trans hheld
    · exact Or.inr (Or.inl ⟨nofun, held, rfl, howed _ hbefore⟩)
    · exact Or.inr (Or.inr (Or.inr hothers))
  won := by
    have hbefore := hkept.won
    rw [countP_won, if_pos hnew] at hbefore
    rw [countP_won, if_pos rfl]
    change others.countP IsWon + 1 ≤ 1
    omega
  unheld := nofun
  stopping := nofun
  role := hkept.role_cons fun _ ↦ False.elim

/-- A stop begins. -/
theorem kept_stopping (hkept : Kept world ((.stop, .owing []) ::ₘ others)) :
    Kept (world.become .stopping) ((.stop, .draining) ::ₘ others) where
  made kind hkind number hnumber := by
    rw [owed_cons]
    rcases hkept.made_cons hkind hnumber with hshut | ⟨_, hinUse⟩ | hbefore | hothers
    · exact Or.inl hshut
    · exact Or.inr (Or.inl ⟨nofun, hinUse⟩)
    · exact absurd hbefore List.not_mem_nil
    · exact Or.inr (Or.inr (Or.inr hothers))
  won := by
    rw [countP_won]
    exact hkept.won_le
  unheld := nofun
  stopping _ := Multiset.mem_cons_self _ _
  role := hkept.role_cons fun _ ↦ False.elim

/-- A stop closes the store: from now on it owes what the store holds. -/
theorem kept_closing (hkept : Kept world ((.stop, .draining) ::ₘ others)) :
    Kept (world.become .closed)
      ((.stop, .owing (world.fields.held.elim [] resources)) ::ₘ others) where
  made kind hkind number hnumber := by
    rw [owed_cons]
    rcases hkept.made_cons hkind hnumber with hshut | ⟨_, held, hheld, hin⟩ | hbefore | hothers
    · exact Or.inl hshut
    · rw [hheld]
      exact Or.inr (Or.inr (Or.inl hin))
    · exact hbefore.elim
    · exact Or.inr (Or.inr (Or.inr hothers))
  won := by
    rw [countP_won]
    exact hkept.won_le
  unheld := nofun
  stopping := nofun
  role := hkept.role_cons fun _ _ ↦ trivial

end Steps

/-! ### The programs -/

/-- The ledger of what is opened. -/
def openingLedger (fails : Prop) (settings : Settings) :
    Ledger requests Failure Unit World Operation Stage where
  fresh := .fresh
  move := Stage.move
  allows _ stage
    | .await (.close _) => ∃ owed, stage = .owing owed
    | _ => True
  ends operation stage
    | .exhausted => True
    | .returned _ => stage = .won ∨ stage = .owing [] ∧ operation ≠ .start
    | .raised failure => stage = .owing [] ∧ (operation = .start → Excused fails settings failure)
  kept := Kept

section Programs

variable {fails : Prop} {settings : Settings} {world : World} {others : Entries}
  {operation : Operation} {owed : List Resource}

/-- The surroundings of one call. -/
abbrev surroundings (fails : Prop) (settings : Settings) (operation : Operation) :
    Environment requests (View World Operation Stage) :=
  (openingLedger fails settings).beside (environment (Alone fails)) Suspends operation

/-- A call that agrees with its stage. -/
abbrev Agrees (fails : Prop) (settings : Settings) (operation : Operation) (stage : Stage)
    (program : Coroutine Unit) : Prop :=
  (openingLedger fails settings).Keeps (environment (Alone fails)) Suspends operation stage program

/-- A start fails only if it may. -/
theorem excused_of_construct (kind : Kind) {trouble : Trouble} {failure : Failure}
    (hkind : kind ≠ .consumer) (hallowed : Alone fails world (.construct kind) (.error trouble)) :
    Excused fails settings failure :=
  Or.inr (Or.inl (Or.resolve_left hallowed hkind))

theorem excused_of_start (kind : Kind) {number : ℕ} {trouble : Trouble} {failure : Failure}
    (hkind : kind ≠ .consumer)
    (hallowed : Alone fails world (.await (.start (.made kind number))) (.error trouble)) :
    Excused fails settings failure := by
  refine Or.inr (Or.inl (Or.resolve_left hallowed ?_))
  rintro ⟨_, hsame⟩
  exact hkind (Resource.made.inj hsame).1

/-- The rollback closes everything that is owed, whatever the closing raises. -/
theorem holds_rollback {Value : Type} {opened : List Resource} {failure : Failure}
    {next : Value → Coroutine Unit} (hexcused : Excused fails settings failure)
    (howed : ∀ resource ∈ owed, resource ∈ opened)
    (hkept : Kept world ((.start, .owing owed) ::ₘ others)) :
    Holds (surroundings fails settings .start) ((openingLedger fails settings).Moment
      Suspends .start)
      ((openingLedger fails settings).Ended .start) (rollback opened failure >>= next)
      ⟨world, .owing owed, others⟩ := by
  induction opened generalizing owed world others with
  | nil =>
    obtain rfl : owed = [] := List.eq_nil_iff_forall_not_mem.mpr fun resource hresource ↦
      List.not_mem_nil (howed resource hresource)
    exact ⟨⟨rfl, fun _ ↦ hexcused⟩, hkept⟩
  | cons resource rest ih =>
    refine Ledger.holds_suspended ⟨_, rfl⟩ ⟨owed, rfl⟩ hkept ?_
    intro before entries reply answered _ _ closed others hclosed
    have hleft : ∀ other ∈ owed.filter (· ≠ resource), other ∈ rest := by
      intro other hother
      obtain ⟨hin, hne⟩ := List.mem_filter.mp hother
      exact (List.mem_cons.mp (howed other hin)).resolve_left (of_decide_eq_true hne)
    rcases reply with trouble | value <;> exact ih hleft hclosed

/-- What a start does with its pool. -/
def startWith (pool : Resource) : Coroutine Unit := do
  ((perform (.migrate pool)).mapError openError).handle (rollback [pool])
  let producer ← (construct .producer).handle (rollback [pool])
  ((perform (.start producer)).mapError (startError .producerNotStarted)).handle
    (rollback [producer, pool])
  let admin ← (construct .admin).handle (rollback [producer, pool])
  ((perform (.start admin)).mapError (startError .adminNotStarted)).handle
    (rollback [admin, producer, pool])
  hold ⟨pool, producer, admin⟩

theorem holds_startWith {pool : Resource} (howed : ∀ resource ∈ owed, resource = pool)
    (hkept : Kept world ((.start, .owing owed) ::ₘ others)) :
    Holds (surroundings fails settings .start) ((openingLedger fails settings).Moment
      Suspends .start)
      ((openingLedger fails settings).Ended .start) (startWith pool)
      ⟨world, .owing owed, others⟩ := by
  have hpool : ∀ resource ∈ owed, resource ∈ [pool] := fun resource hresource ↦
    List.mem_singleton.mpr (howed resource hresource)
  refine Ledger.holds_suspended ⟨_, rfl⟩ trivial hkept ?_
  rintro before entries (trouble | value) answered _ ⟨hallowed, _⟩ migrated rest hmigrated
  · exact holds_rollback (Or.inr (Or.inl hallowed)) hpool hmigrated
  refine Ledger.holds_instant (not_suspends nofun) trivial ?_
  rintro (trouble | producer) made ⟨hallowed, heffect⟩
  · obtain rfl : made = migrated := heffect
    exact holds_rollback (excused_of_construct .producer nofun hallowed) hpool hmigrated
  obtain ⟨rfl, rfl⟩ : producer = .made .producer (migrated.made .producer) ∧
    made = migrated.construct .producer := heffect
  have hproducer : ∀ resource ∈ Resource.made .producer (migrated.made .producer) :: owed,
      resource ∈ [Resource.made .producer (migrated.made .producer), pool] :=
    fun resource hresource ↦ (List.mem_cons.mp hresource).elim
      (fun hsame ↦ hsame ▸ List.mem_cons_self) fun hold ↦ List.mem_cons_of_mem _ (hpool _ hold)
  refine Ledger.holds_suspended ⟨_, rfl⟩ trivial (kept_construct hmigrated) ?_
  rintro before entries (trouble | value) answered _ ⟨hallowed, _⟩ started rest hstarted
  · exact holds_rollback (excused_of_start .producer nofun hallowed) hproducer hstarted
  refine Ledger.holds_instant (not_suspends nofun) trivial ?_
  rintro (trouble | admin) made ⟨hallowed, heffect⟩
  · obtain rfl : made = started := heffect
    exact holds_rollback (excused_of_construct .admin nofun hallowed) hproducer hstarted
  obtain ⟨rfl, rfl⟩ : admin = .made .admin (started.made .admin) ∧
    made = started.construct .admin := heffect
  have hadmin : ∀ resource ∈ Resource.made .admin (started.made .admin) ::
        Resource.made .producer (migrated.made .producer) :: owed,
      resource ∈ [Resource.made .admin (started.made .admin),
        .made .producer (migrated.made .producer), pool] :=
    fun resource hresource ↦ (List.mem_cons.mp hresource).elim
      (fun hsame ↦ hsame ▸ List.mem_cons_self) fun hold ↦
        List.mem_cons_of_mem _ (hproducer _ hold)
  refine Ledger.holds_suspended ⟨_, rfl⟩ trivial (kept_construct hstarted) ?_
  rintro before entries (trouble | value) answered _ ⟨hallowed, _⟩ opened rest hopened
  · exact holds_rollback (excused_of_start .admin nofun hallowed) hadmin hopened
  refine Ledger.holds_instant (not_suspends nofun) trivial ?_
  rintro ⟨⟩ final ⟨hnew, rfl⟩
  refine ⟨Or.inl rfl, kept_hold hopened hnew fun resource hresource ↦ ?_⟩
  have hin := hadmin resource hresource
  simp only [resources, List.mem_cons, List.not_mem_nil, or_false] at hin ⊢
  tauto

theorem agrees_start : Agrees fails settings .start .fresh (start settings) := by
  intro world others hkept
  have hresumed := hkept.resume
  refine Ledger.holds_instant (not_suspends nofun) trivial ?_
  rintro fields next ⟨_, rfl, rfl⟩
  change Holds _ _ _ (if next.fields.runState ≠ .new then _ else _) _
  by_cases hnew : next.fields.runState = .new
  · rw [if_neg (not_not_intro hnew)]
    change Holds _ _ _ (Program.ofExcept (settings.validated.mapError Failure.misconfigured) >>= _)
      _
    cases hvalidated : settings.validated with
    | error message =>
      exact ⟨⟨rfl, fun _ ↦ Or.inr (Or.inr ⟨message, hvalidated, rfl⟩)⟩, hresumed⟩
    | ok value =>
      change Holds _ _ _ (openPool settings >>= startWith) _
      unfold openPool
      split_ifs
      · exact holds_startWith (fun _ hresource ↦ absurd hresource List.not_mem_nil) hresumed
      · refine Ledger.holds_instant (not_suspends nofun) trivial ?_
        rintro (trouble | pool) made ⟨hallowed, heffect⟩
        · obtain rfl : made = next := heffect
          exact ⟨⟨rfl, fun _ ↦ excused_of_construct .pool nofun hallowed⟩, hresumed⟩
        · obtain ⟨rfl, rfl⟩ : pool = .made .pool (next.made .pool) ∧
            made = next.construct .pool := heffect
          exact holds_startWith (fun _ hresource ↦ List.mem_singleton.mp hresource)
            (kept_construct hresumed)
  · rw [if_pos hnew]
    exact ⟨⟨rfl, fun _ ↦ Or.inl rfl⟩, hresumed⟩

/-- The requests of a call that opens and closes nothing of this. -/
def Plain : Request → Prop
  | .hold _ | .become _ => False
  | .construct kind => kind = .consumer
  | _ => True

theorem plain_of_assignment {request : Request} (hrequest : OfAssignment request) :
    Plain request := by
  cases request with
  | construct kind => cases kind <;> first | rfl | exact hrequest.elim
  | hold | become => exact hrequest.elim
  | _ => trivial

/-- A plain request keeps the ledger. -/
theorem kept_plain {request : Request} {entries : Entries} {reply : request.Reply} {next : World}
    (hrequest : Plain request) (hkept : Kept world entries)
    (heffect : effect world request reply next) : Kept next entries := by
  cases request with
  | observe => exact heffect.2 ▸ hkept
  | construct kind =>
    obtain rfl : kind = .consumer := hrequest
    rcases reply with trouble | resource
    · exact heffect ▸ hkept
    · refine heffect.2 ▸ hkept.onward (fun other hother ↦ ?_) rfl rfl rfl
      exact Function.update_of_ne hother _ _
  | await duty =>
    cases duty with
    | close resource => exact heffect ▸ hkept.close resource
    | drain =>
      rcases reply with trouble | value
      · exact heffect.2 ▸ hkept
      · exact heffect.2 ▸ hkept
    | _ => exact heffect ▸ hkept
  | hold | become => exact hrequest.elim
  | _ => exact heffect ▸ hkept.onward (fun _ _ ↦ rfl) rfl rfl rfl

theorem kept_duty {duty : Duty} {entries : Entries} {reply : (Request.await duty).Reply}
    {next : World} (hkept : Kept world entries) (heffect : effect world (.await duty) reply next) :
    Kept next entries := by
  have hplain : Plain (.await duty) := trivial
  exact kept_plain hplain hkept heffect

/-- A plain program keeps the ledger. -/
theorem holds_plain {program : Coroutine Unit} (hprogram : program.Asks Plain)
    (hoperation : operation ≠ .start) (hkept : Kept world ((operation, .owing []) ::ₘ others)) :
    Holds (surroundings fails settings operation)
      ((openingLedger fails settings).Moment Suspends operation)
      ((openingLedger fails settings).Ended operation) program ⟨world, .owing [], others⟩ := by
  refine Ledger.holds_asks hprogram (fun request hrequest ↦ ?_) (fun request reply hrequest ↦ ?_)
    (fun _ _ _ _ _ hrequest hkept hanswers ↦ kept_plain hrequest hkept hanswers.2)
    (fun outcome world others hnext ↦ ?_) hkept
  · cases request with
    | await duty => cases duty <;> first | trivial | exact ⟨[], rfl⟩
    | _ => trivial
  · cases request with
    | construct kind =>
      obtain rfl : kind = .consumer := hrequest
      rfl
    | await duty => cases duty <;> rfl
    | hold | become => exact hrequest.elim
    | _ => rfl
  · refine ⟨?_, hnext⟩
    cases outcome with
    | returned value => exact Or.inr ⟨rfl, hoperation⟩
    | raised failure => exact ⟨rfl, fun hstart ↦ absurd hstart hoperation⟩
    | exhausted => trivial

theorem agrees_append : Agrees fails settings .append .fresh append := by
  intro world others hkept
  refine Ledger.holds_instant (not_suspends nofun) trivial ?_
  rintro fields next ⟨_, rfl, rfl⟩
  refine holds_plain ?_ nofun hkept.resume
  change ((if next.fields.runState ≠ .running then _ else _) >>= _ : Coroutine Unit).Asks Plain
  have henter : enter.Asks Plain := ⟨trivial, fun _ ↦ trivial⟩
  have hleave : leave.Asks Plain := ⟨trivial, fun _ ↦ trivial⟩
  have hwork : (perform .append).Asks Plain := asks_perform trivial
  split_ifs
  · trivial
  · refine henter.bind fun _ ↦ Program.Asks.bind (hwork.handle fun failure ↦ ?_) fun _ ↦ hleave
    exact hleave.bind fun _ ↦ trivial

theorem agrees_assign {assigned : List TopicPartition} :
    Agrees fails settings (.assign assigned) .fresh (onPartitionsAssigned assigned) := by
  intro world others hkept
  refine Ledger.holds_instant (not_suspends nofun) trivial ?_
  rintro fields next ⟨_, rfl, rfl⟩
  refine holds_plain ?_ nofun hkept.resume
  change ((if next.fields.runState ≠ .running then _ else _) >>= _ : Coroutine Unit).Asks Plain
  split_ifs
  · trivial
  · exact (asks_assignAll assigned).mono fun _ ↦ plain_of_assignment

/-- What a close step closes of what the store holds. -/
def target (held : Held) : CloseStep → Option Resource
  | .producerStop => some held.producer
  | .adminClose => some held.admin
  | .poolClose => some held.pool
  | _ => none

/-- What a close step leaves to close. -/
def Over (held : Held) (step : CloseStep) (owed : List Resource) :
    Outcome Failure (Except Failure Unit) → View World Operation Stage → Prop
  | .raised _, _ => False
  | _, view => ∃ left, view.stage = .owing left ∧
      (∀ resource ∈ left, resource ∈ owed ∧ target held step ≠ some resource) ∧
      Kept view.world ((.stop, .owing left) ::ₘ view.others)

/-- The duty of a close step is over. -/
theorem over_closed {held : Held} {step : CloseStep} {resource : Resource}
    (htarget : target held step = some resource ∨ target held step = none)
    (hkept : Kept world ((.stop, .owing (owed.filter (· ≠ resource))) ::ₘ others))
    (result : Except Failure Unit) :
    Over held step owed (.returned result)
      ⟨world, .owing (owed.filter (· ≠ resource)), others⟩ := by
  refine ⟨_, rfl, fun other hother ↦ ?_, hkept⟩
  obtain ⟨hin, hne⟩ := List.mem_filter.mp hother
  refine ⟨hin, fun hsame ↦ ?_⟩
  rcases htarget with hclosed | hnone
  · exact of_decide_eq_true hne (Option.some.inj (hsame.symm.trans hclosed))
  · cases hnone.symm.trans hsame

theorem holds_close {held : Held} {step : CloseStep}
    (hkept : Kept world ((.stop, .owing owed) ::ₘ others)) :
    Holds (surroundings fails settings .stop) ((openingLedger fails settings).Moment Suspends .stop)
      (Over held step owed) (step.close held).caught ⟨world, .owing owed, others⟩ := by
  have hclose (resource : Resource) (htarget : target held step = some resource) :
      Holds (surroundings fails settings .stop)
        ((openingLedger fails settings).Moment Suspends .stop) (Over held step owed)
        (perform (.close resource)).caught ⟨world, .owing owed, others⟩ := by
    refine holds_caught.mpr (Ledger.holds_suspended ⟨_, rfl⟩ ⟨owed, rfl⟩ hkept ?_)
    intro before entries reply answered _ _ next others hnext
    rcases reply with trouble | value
    · exact over_closed (Or.inl htarget) hnext (.error (.raised trouble))
    · exact over_closed (Or.inl htarget) hnext (.ok ())
  cases step with
  | producerFlush =>
    refine holds_caught.mpr (Ledger.holds_suspended ⟨_, rfl⟩ trivial hkept ?_)
    intro before entries reply answered _ _ next others hnext
    rcases reply with trouble | value <;>
      exact ⟨owed, rfl, fun resource hresource ↦ ⟨hresource, nofun⟩, hnext⟩
  | producerStop => exact hclose held.producer rfl
  | adminClose => exact hclose held.admin rfl
  | poolClose => exact hclose held.pool rfl
  | consumerStop =>
    refine holds_caught.mpr (Ledger.holds_instant (not_suspends nofun) trivial ?_)
    rintro fields next ⟨_, rfl, rfl⟩
    simp only [Program.bind]
    cases next.fields.consumer with
    | none => exact ⟨owed, rfl, fun resource hresource ↦ ⟨hresource, nofun⟩, hkept⟩
    | some consumer =>
      refine Ledger.holds_suspended ⟨_, rfl⟩ ⟨owed, rfl⟩ hkept ?_
      intro before entries reply answered _ _ closed rest hclosed
      rcases reply with trouble | value
      · exact over_closed (Or.inr rfl) hclosed (.error (.raised trouble))
      · refine Ledger.holds_instant (not_suspends nofun) trivial ?_
        rintro ⟨⟩ final ⟨_, rfl⟩
        have hdropped : Kept (closed.keep none)
            ((.stop, .owing (owed.filter (· ≠ consumer))) ::ₘ rest) :=
          hclosed.onward (fun _ _ ↦ rfl) rfl rfl rfl
        exact over_closed (Or.inr rfl) hdropped (.ok ())

/-- The close steps that are left close what is owed. -/
theorem holds_closeAll {held : Held} {left : List CloseStep} {first : Option Failure}
    (howed : ∀ resource ∈ owed, ∃ step ∈ left, target held step = some resource)
    (hkept : Kept world ((.stop, .owing owed) ::ₘ others)) :
    Holds (surroundings fails settings .stop) ((openingLedger fails settings).Moment Suspends .stop)
      ((openingLedger fails settings).Ended .stop) (closeAll held first left)
      ⟨world, .owing owed, others⟩ := by
  induction left generalizing owed first world others with
  | nil =>
    obtain rfl : owed = [] := by
      refine List.eq_nil_iff_forall_not_mem.mpr fun resource hresource ↦ ?_
      obtain ⟨step, hstep, _⟩ := howed resource hresource
      exact List.not_mem_nil hstep
    cases first with
    | none => exact ⟨Or.inr ⟨rfl, nofun⟩, hkept⟩
    | some failure => exact ⟨⟨rfl, nofun⟩, hkept⟩
  | cons step rest ih =>
    rw [closeAll_cons]
    refine Ledger.holds_instant (not_suspends nofun) trivial ?_
    rintro ⟨⟩ next ⟨_, rfl⟩
    have hmarked : Kept (world.mark (.invoked step)) ((.stop, .owing owed) ::ₘ others) :=
      hkept.onward (fun _ _ ↦ rfl) rfl rfl rfl
    refine (holds_close hmarked).bind ?_ (fun _ _ hraised ↦ hraised.elim) fun view hover ↦ ?_
    · rintro result ⟨final, stage, entries⟩ ⟨left, rfl, hleft, hfinal⟩
      have hrest : ∀ resource ∈ left, ∃ step ∈ rest, target held step = some resource := by
        intro resource hresource
        obtain ⟨hin, hne⟩ := hleft resource hresource
        obtain ⟨found, hfound, htarget⟩ := howed resource hin
        rcases List.mem_cons.mp hfound with rfl | hlater
        · exact absurd htarget hne
        · exact ⟨found, hlater, htarget⟩
      cases result <;> exact ih hrest hfinal
    · obtain ⟨left, hstage, _, hfinal⟩ := hover
      refine ⟨trivial, ?_⟩
      rw [hstage]
      exact hfinal

/-- What a stop does once the appends are drained. -/
theorem holds_finishStop (hkept : Kept world ((.stop, .draining) ::ₘ others)) :
    Holds (surroundings fails settings .stop) ((openingLedger fails settings).Moment Suspends .stop)
      ((openingLedger fails settings).Ended .stop) finishStop ⟨world, .draining, others⟩ := by
  have hclosing := kept_closing hkept
  refine Ledger.holds_instant (not_suspends nofun) trivial ?_
  rintro ⟨⟩ closed ⟨_, rfl⟩
  refine Ledger.holds_instant (not_suspends nofun) trivial ?_
  rintro fields next ⟨_, rfl, rfl⟩
  have hfields : (world.become .closed).fields.held = world.fields.held := rfl
  have hmove : (openingLedger fails settings).move ((openingLedger fails settings).move
      Stage.draining (.become .closed) ⟨⟩) .observe (world.become .closed).fields =
    .owing (world.fields.held.elim [] resources) := rfl
  simp only [Program.bind]
  rw [hfields, hmove]
  cases hheld : world.fields.held with
  | none =>
    rw [hheld] at hclosing
    exact ⟨⟨rfl, nofun⟩, hclosing⟩
  | some held =>
    rw [hheld] at hclosing
    refine holds_closeAll (fun resource hresource ↦ ?_) hclosing
    have hin : resource ∈ resources held := hresource
    simp only [resources, List.mem_cons, List.not_mem_nil, or_false] at hin
    rcases hin with rfl | rfl | rfl
    · exact ⟨.producerStop, by decide, rfl⟩
    · exact ⟨.adminClose, by decide, rfl⟩
    · exact ⟨.poolClose, by decide, rfl⟩

theorem agrees_stop : Agrees fails settings .stop .fresh stop := by
  intro world others hkept
  have hresumed := hkept.resume
  refine Ledger.holds_instant (not_suspends nofun) trivial ?_
  rintro fields next ⟨_, rfl, rfl⟩
  simp only [Program.bind]
  cases hstate : next.fields.runState with
  | new => exact ⟨⟨rfl, nofun⟩, hresumed⟩
  | stopping | closed => exact ⟨Or.inr ⟨rfl, nofun⟩, hresumed⟩
  | running =>
    refine Ledger.holds_instant (not_suspends nofun) trivial ?_
    rintro ⟨⟩ stopping ⟨_, rfl⟩
    change Holds _ _ _ (if 0 < next.fields.inFlight then _ else _) _
    split_ifs
    · refine Ledger.holds_suspended ⟨_, rfl⟩ trivial (kept_stopping hresumed) ?_
      rintro before entries (trouble | value) answered _ ⟨hallowed, _⟩ between rest hbetween
      · exact hallowed.elim
      · exact holds_finishStop hbetween
    · exact holds_finishStop (kept_stopping hresumed)

theorem Stage.move_ne_fresh {stage : Stage} {request : Request} {reply : request.Reply} :
    stage.move request reply ≠ .fresh := by
  cases stage with
  | owing owed =>
    cases request with
    | construct kind => cases kind <;> cases reply <;> nofun
    | await duty => cases duty <;> nofun
    | become runState => cases runState <;> nofun
    | _ => nofun
  | _ =>
    cases request with
    | become runState => cases runState <;> nofun
    | await duty => cases duty <;> nofun
    | _ => nofun

/-- The ledger is sound for the calls of a store. -/
theorem openingLedger_sound : (openingLedger fails settings).Sound (environment (Alone fails))
    Suspends (Operation.program settings) where
  programs operation := by
    cases operation with
    | start => exact agrees_start
    | stop => exact agrees_stop
    | append => exact agrees_append
    | assign assigned => exact agrees_assign
  starts operation world entries hkept := by
    change Kept world ((operation, .fresh) ::ₘ entries)
    refine ⟨fun kind hkind number hnumber ↦ ?_, ?_, hkept.unheld,
      fun hstopping ↦ Multiset.mem_cons_of_mem (hkept.stopping hstopping),
      fun entry hentry resource howes ↦ ?_⟩
    · rw [owed_cons]
      exact (hkept.made kind hkind number hnumber).imp_right (Or.imp_right Or.inr)
    · rw [countP_won]
      exact hkept.won
    · rcases Multiset.mem_cons.mp hentry with rfl | hother
      · exact howes.elim
      · exact hkept.role entry hother resource howes
  answers operation stage world others request reply next hsuspends hallows hkept hanswers := by
    obtain ⟨duty, rfl⟩ := hsuspends
    change Kept next ((operation, stage.move (.await duty) reply) ::ₘ others)
    cases duty with
    | close resource =>
      obtain rfl : next = world.close resource := hanswers.2
      obtain ⟨owed, rfl⟩ := hallows
      exact kept_closed hkept
    | _ =>
      have hnext := kept_duty hkept hanswers.2
      cases stage with
      | fresh => exact hnext.resume
      | _ => exact hnext
  drifts _ _ _ _ hsame hkept := hsame ▸ hkept
  moves _ _ _ := Stage.move_ne_fresh

end Programs

/-! ### At most one start opens -/

section Results

variable {settings : Settings} {fails : Prop} {final : Pool requests Failure Unit World Operation}

/-- The ledger of a new store. -/
theorem kept_new : Kept .new 0 where
  made _ _ number hnumber := absurd hnumber (Nat.not_lt_zero number)
  won := le_rfl
  unheld _ := rfl
  stopping := nofun
  role _ hentry := absurd hentry (Multiset.notMem_zero _)

/-- Two entries that won are one. -/
theorem eq_of_won {world : World} {entries : List (Operation × Stage)} {first second : ℕ}
    {left right : Operation} (hkept : Kept world entries)
    (hfirst : (entries)[first]? = some (left, .won))
    (hsecond : (entries)[second]? = some (right, .won)) : first = second := by
  by_contra hne
  rw [Pool.coe_eq hfirst] at hkept
  have hother : (right, Stage.won) ∈ (entries.eraseIdx first : List (Operation × Stage)) :=
    List.mem_eraseIdx_iff_getElem?.mpr ⟨second, Ne.symm hne, hsecond⟩
  have hpositive : 0 < (entries.eraseIdx first : Entries).countP IsWon :=
    Multiset.countP_pos.mpr ⟨_, hother, rfl⟩
  have hwon := hkept.won
  rw [countP_won, if_pos rfl] at hwon
  split_ifs at hwon <;> omega

/-- Where a start holds what it opened only while the store is new: at most one start returns, the
others are refused or fail on what they open themselves, and wherever no start or stop is in
progress, every pool, producer and admin client that was opened is closed, or held by the running
store. -/
theorem opens_once (hrun : Run settings (Alone fails) (.idle .new) final) :
    (∀ first second : ℕ, (final.tasks)[first]? = some (.start, .finish ()) →
      (final.tasks)[second]? = some (.start, .finish ()) → first = second) ∧
    (∀ failure, (Operation.start, Program.raise failure) ∈ final.tasks →
      Excused fails settings failure) ∧
    ((∀ operation task, (operation, task) ∈ final.tasks →
        operation = .start ∨ operation = .stop → HasEnded task) →
      ∀ kind ≠ .consumer, ∀ number < final.world.made kind,
        .made kind number ∈ final.world.shut ∨ final.world.fields.runState = .running ∧
          ∃ held, final.world.fields.held = some held ∧ .made kind number ∈ resources held) := by
  obtain ⟨entries, haccounted⟩ := Pool.Run.accounted hrun openingLedger_sound
    (Pool.accounted_idle kept_new)
  have hkept : Kept final.world entries := haccounted.kept
  refine ⟨fun first second hfirst hsecond ↦ ?_, fun failure hfailure ↦ ?_, fun hended ↦ ?_⟩
  · have hwon (index : ℕ) (hget : (final.tasks)[index]? = some (.start, .finish ())) :
        (entries)[index]? = some (.start, .won) := by
      obtain ⟨stage, hstage, _⟩ := haccounted.task index _ _ hget
      have hends := haccounted.ends (.returned ()) hget hstage
      rcases hends with rfl | ⟨_, hnot⟩
      · exact hstage
      · exact absurd rfl hnot
    exact eq_of_won hkept (hwon first hfirst) (hwon second hsecond)
  · obtain ⟨index, hget⟩ := List.mem_iff_getElem?.mp hfailure
    obtain ⟨stage, hstage, _⟩ := haccounted.task index _ _ hget
    exact (haccounted.ends (.raised failure) hget hstage).2 rfl
  · intro kind hkind number hnumber
    -- A call that has ended owes nothing and does not close the store.
    have hdone (operation : Operation) (stage : Stage) (hentry : (operation, stage) ∈ entries)
        (hopens : operation = .start ∨ operation = .stop) : stage = .won ∨ stage = .owing [] := by
      obtain ⟨index, task, hget, hindex⟩ := haccounted.exists_task hentry
      rcases hended operation task (List.mem_of_getElem? hget) hopens with rfl | ⟨failure, rfl⟩
      · exact (haccounted.ends (.returned ()) hget hindex).imp_right And.left
      · exact Or.inr (haccounted.ends (.raised failure) hget hindex).1
    rcases hkept.made kind hkind number hnumber with hshut | ⟨hopen, held, hheld, hin⟩ | howed
    · exact Or.inl hshut
    · refine Or.inr ⟨?_, held, hheld, hin⟩
      cases hstate : final.world.fields.runState with
      | new => cases (hkept.unheld hstate).symm.trans hheld
      | stopping =>
        rcases hdone .stop .draining (hkept.stopping hstate) (Or.inr rfl) with h | h <;> cases h
      | running => rfl
      | closed => exact absurd hstate hopen
    · obtain ⟨⟨operation, stage⟩, hentry, howes⟩ := howed
      have hopens : operation = .start ∨ operation = .stop := by
        have hrole := hkept.role _ hentry _ howes
        cases operation with
        | start => exact Or.inl rfl
        | stop => exact Or.inr rfl
        | _ => exact hrole.elim
      rcases hdone operation stage hentry hopens with rfl | rfl
      · exact howes.elim
      · exact absurd howes List.not_mem_nil

/-- A start that opens everything returns. -/
theorem run_started : ∃ world : World, world.made .pool = 1 ∧
    Run sampleSettings (Alone False) (.idle .new) ⟨world, [(.start, .finish ())], []⟩ := by
  have hidle : Run sampleSettings (Alone False) (.idle .new) ⟨.new, [], []⟩ := .refl
  have hstart : Burst (environment (Alone False)) Suspends (start sampleSettings) .new _ _ :=
    burst_instant World.new.fields nofun trivial ⟨rfl, rfl⟩
      (burst_instant (.ok (.made .pool 0)) nofun trivial ⟨rfl, rfl⟩ burst_duty)
  have hpool : Run sampleSettings (Alone False) (.idle .new) ⟨_, [(.start, _)], []⟩ :=
    Pool.Run.launched hidle trivial trivial hstart
  have hproducer : Run sampleSettings (Alone False) (.idle .new) ⟨_, [(.start, _)], []⟩ :=
    run_exchanged 0 (.ok ()) hpool rfl trivial rfl
      (burst_instant (.ok (.made .producer 0)) nofun trivial ⟨rfl, rfl⟩ burst_duty)
  have hadmin : Run sampleSettings (Alone False) (.idle .new) ⟨_, [(.start, _)], []⟩ :=
    run_exchanged 0 (.ok ()) hproducer rfl trivial rfl
      (burst_instant (.ok (.made .admin 0)) nofun trivial ⟨rfl, rfl⟩ burst_duty)
  have hheld : Run sampleSettings (Alone False) (.idle .new) ⟨_, [(.start, .finish ())], []⟩ :=
    run_exchanged 0 (.ok ()) hadmin rfl trivial rfl
      (burst_instant () nofun rfl rfl (.stop nofun))
  exact ⟨_, rfl, hheld⟩

theorem opens_once_started : ∃ world : World, world.made .pool = 1 ∧
    (.made .pool 0 ∈ world.shut ∨ world.fields.runState = .running ∧
      ∃ held, world.fields.held = some held ∧ .made .pool 0 ∈ resources held) := by
  obtain ⟨world, hmade, hrun⟩ := run_started
  have hopens := (opens_once hrun).2.2
  refine ⟨world, hmade, hopens ?_ .pool nofun 0 (by rw [hmade]; exact Nat.one_pos)⟩
  intro operation task htask _
  exact Or.inl (Prod.mk.inj (List.mem_singleton.mp htask)).2

/-- Two starts both find a new store, and both hold what they opened. -/
theorem run_both : ∃ world : World, world.made .pool = 2 ∧ .made .pool 0 ∉ world.shut ∧
    world.fields.held = some ⟨.made .pool 1, .made .producer 1, .made .admin 1⟩ ∧
    Run sampleSettings anyAnswer (.idle .new)
      ⟨world, [(.start, .finish ()), (.start, .finish ())], []⟩ := by
  have hidle : Run sampleSettings anyAnswer (.idle .new) ⟨.new, [], []⟩ := .refl
  have hstart : Burst (environment anyAnswer) Suspends (start sampleSettings) .new _ _ :=
    burst_instant World.new.fields nofun trivial ⟨rfl, rfl⟩
      (burst_instant (.ok (.made .pool 0)) nofun trivial ⟨rfl, rfl⟩ burst_duty)
  have hone : Run sampleSettings anyAnswer (.idle .new) ⟨_, [(.start, _)], []⟩ :=
    Pool.Run.launched hidle trivial trivial hstart
  -- The first start is opening its pool: the store is still new.
  have hagain : Burst (environment anyAnswer) Suspends (start sampleSettings)
      (World.new.construct .pool) _ _ :=
    burst_instant World.new.fields nofun trivial ⟨rfl, rfl⟩
      (burst_instant (.ok (.made .pool 1)) nofun trivial ⟨rfl, rfl⟩ burst_duty)
  have hboth : Run sampleSettings anyAnswer (.idle .new) ⟨_, [(.start, _), (.start, _)], []⟩ :=
    Pool.Run.launched hone trivial trivial hagain
  have hproducer : Run sampleSettings anyAnswer (.idle .new)
      ⟨_, [(.start, _), (.start, _)], []⟩ :=
    run_exchanged 0 (.ok ()) hboth rfl trivial rfl
      (burst_instant (.ok (.made .producer 0)) nofun trivial ⟨rfl, rfl⟩ burst_duty)
  have hadmin : Run sampleSettings anyAnswer (.idle .new) ⟨_, [(.start, _), (.start, _)], []⟩ :=
    run_exchanged 0 (.ok ()) hproducer rfl trivial rfl
      (burst_instant (.ok (.made .admin 0)) nofun trivial ⟨rfl, rfl⟩ burst_duty)
  have hheld : Run sampleSettings anyAnswer (.idle .new)
      ⟨_, [(.start, .finish ()), (.start, _)], []⟩ :=
    run_exchanged 0 (.ok ()) hadmin rfl trivial rfl
      (burst_instant () nofun trivial rfl (.stop nofun))
  have hother : Run sampleSettings anyAnswer (.idle .new)
      ⟨_, [(.start, .finish ()), (.start, _)], []⟩ :=
    run_exchanged 1 (.ok ()) hheld rfl trivial rfl
      (burst_instant (.ok (.made .producer 1)) nofun trivial ⟨rfl, rfl⟩ burst_duty)
  have hlast : Run sampleSettings anyAnswer (.idle .new)
      ⟨_, [(.start, .finish ()), (.start, _)], []⟩ :=
    run_exchanged 1 (.ok ()) hother rfl trivial rfl
      (burst_instant (.ok (.made .admin 1)) nofun trivial ⟨rfl, rfl⟩ burst_duty)
  have hfinal : Run sampleSettings anyAnswer (.idle .new)
      ⟨_, [(.start, .finish ()), (.start, .finish ())], []⟩ :=
    run_exchanged 1 (.ok ()) hlast rfl trivial rfl
      (burst_instant () nofun trivial rfl (.stop nofun))
  exact ⟨_, rfl, Finset.notMem_empty _, rfl, hfinal⟩

/-- Two starts that both find a new store both return, and the pool of the first one is neither held
nor closed. -/
theorem both_open : ¬ ∀ final, Run sampleSettings anyAnswer (.idle .new) final →
    (∀ operation task, (operation, task) ∈ final.tasks → HasEnded task) →
    (∀ first second : ℕ, (final.tasks)[first]? = some (.start, .finish ()) →
      (final.tasks)[second]? = some (.start, .finish ()) → first = second) ∨
    ∀ kind ≠ .consumer, ∀ number < final.world.made kind,
      .made kind number ∈ final.world.shut ∨ final.world.fields.runState = .running ∧
        ∃ held, final.world.fields.held = some held ∧ .made kind number ∈ resources held := by
  intro hall
  obtain ⟨world, hmade, hopen, hheld, hrun⟩ := run_both
  have hended : ∀ (operation : Operation) (task : Coroutine Unit), (operation, task) ∈
      [(Operation.start, Program.finish ()), (.start, .finish ())] → HasEnded task := by
    intro operation task htask
    rcases List.mem_pair.mp htask with hfirst | hsecond
    · exact Or.inl (Prod.mk.inj hfirst).2
    · exact Or.inl (Prod.mk.inj hsecond).2
  rcases hall _ hrun hended with honce | hclosed
  · exact absurd (honce 0 1 rfl rfl) Nat.zero_ne_one
  · have hpool : 0 < world.made .pool := by
      rw [hmade]
      exact Nat.two_pos
    rcases hclosed .pool nofun 0 hpool with hshut | ⟨_, held, hsome, hin⟩
    · exact hopen hshut
    · obtain rfl := Option.some.inj (hheld.symm.trans hsome)
      simp [resources] at hin

end Results

end KSQLite.Lifetime.Starting
