import KSQLite.Connection.Serializing
import KSQLite.Store.Commits

/-!
# What a store has written is read

The works of the store's transactions, run by callers on pooled connections. A work that has
returned is never undone: a query that comes later reads a state with every row the work left and,
unless a clamp is among the works, with no checkpoint lowered (`reads_written`). Other works of any
partition may commit in between, on any connections.

Commits are a chain: what each keeps of the state before it, all keep (`related_of_commits`).
`Grown` says what a run keeps of its callers.
-/

set_option autoImplicit false
set_option relaxedAutoImplicit false

namespace KSQLite.Connection

open KSQLite.Suspension

/-! ### Commits one after another -/

section Chain

variable {Content : Type} {origin : Content} {commits : List (Commit Content)}

/-- What every commit keeps of the state before it, all of them keep. -/
theorem related_of_commits {relation : Content → Content → Prop}
    (hrefl : ∀ state, relation state state)
    (htrans : ∀ {first second third}, relation first second → relation second third →
      relation first third)
    (hcommits : ∀ count < commits.length,
      relation (stateAt origin commits count) (stateAt origin commits (count + 1)))
    {first last : ℕ} (hle : first ≤ last) (hlast : last ≤ commits.length) :
    relation (stateAt origin commits first) (stateAt origin commits last) := by
  induction last, hle using Nat.le_induction with
  | base => exact hrefl _
  | succ last _ ih => exact htrans (ih (Nat.le_of_succ_le hlast)) (hcommits last hlast)

end Chain

/-! ### Callers in a run -/

section Grown

variable {words : Vocabulary} {Content : Type} {engine : Engine words Content}
  {busyTimeout : ℚ} {fuel : ℕ}

/-- What a run keeps: the commits, the callers with their jobs, and that who comes later has seen
the commits that were there. -/
structure Grown (before after : Traffic words Content) : Prop where
  commits : before.server.commits <+: after.server.commits
  callers : before.callers.length ≤ after.callers.length
  later : ∀ index (caller : Caller words), before.callers.length ≤ index →
    (after.callers)[index]? = some caller → before.server.commits.length ≤ caller.since

theorem grown_of_run {before after : Traffic words Content} {origin : Content}
    (hkept : Kept engine origin before)
    (hrun : Traffic.Run engine busyTimeout fuel before after) : Grown before after := by
  have hkeeps : Kept engine origin after ∧ Grown before after := by
    induction hrun with
    | refl =>
      refine ⟨hkept, List.prefix_refl _, Nat.le_refl _, fun index caller hindex hcaller ↦ ?_⟩
      exact absurd (List.getElem?_eq_some_iff.mp hcaller).1 (not_lt.mpr hindex)
    | @tail between after _ hstep ih =>
      obtain ⟨hbetween, hcommits, hlength, hlater⟩ := ih
      refine ⟨hbetween.step hstep, ?_⟩
      cases hstep with
      | come _ =>
        refine ⟨hcommits, by rw [List.length_append]; omega, fun index caller hindex hcaller ↦ ?_⟩
        rcases Pool.getElem?_append_cases hcaller with ⟨_, rfl⟩ | hold
        · exact hcommits.length_le
        · exact hlater index caller hindex hold
      | @call index job since ask resume reply server hcalls hanswers =>
        have hgrows := (relies_of_answers hbetween.sound (Nat.succ_ne_self index) hanswers).commits
        obtain ⟨added, hadded, _⟩ := hgrows
        refine ⟨hcommits.trans ⟨added, hadded.symm⟩, by rwa [List.length_set],
          fun other caller hother hcaller ↦ ?_⟩
        rcases Pool.getElem?_set_cases hcaller with ⟨rfl, rfl⟩ | ⟨_, hold⟩
        · exact (hlater other ⟨job, since, .await ask resume⟩ hother hcalls)
        · exact hlater other caller hother hold
      | leave _ _ => exact ⟨hcommits, hlength, hlater⟩
      | idle _ _ => exact ⟨hcommits, hlength, hlater⟩
  exact hkeeps.2

/-- A job that is done leaves a state that was committed. -/
theorem Done.exists_state {origin : Content} {caller since : ℕ} {job : Job words}
    {commits : List (Commit Content)} {result : job.Result}
    (hdone : Done engine origin caller since job commits result) :
    ∃ before place, place ≤ commits.length ∧
      job.Does engine before result (stateAt origin commits place) := by
  obtain ⟨count, after, _, hlength, hdoes, ⟨hcommit, _⟩ | ⟨rfl, _⟩⟩ := hdone
  · refine ⟨stateAt origin commits count, count + 1, (List.getElem?_eq_some_iff.mp hcommit).1, ?_⟩
    rw [stateAt_commit hcommit]
    exact hdoes
  · exact ⟨_, count, hlength, hdoes⟩

end Grown

/-! ### The store's works -/

/-- The statements on a store's database: its own, and those of its host. -/
inductive Statement
  | selectCheckpoint (tp : Store.TopicPartition)
  | host (sql : String)

/-- What a statement returns. -/
abbrev Statement.Rows (HostRows : Type) : Statement → Type
  | .selectCheckpoint _ => Option ℤ
  | .host _ => HostRows

/-- The works and the statements on a store's database. -/
abbrev storeWords (HostRows : Type) : Vocabulary where
  Exception := Store.Error
  Work := Store.Work
  Value := Unit
  Read := Statement
  Rows := Statement.Rows HostRows

/-- What they do, with what a statement of the host selects. -/
def storeEngine {HostRows : Type} (json : String → Option String)
    (selects : String → Store.Database → HostRows → Prop) :
    Engine (storeWords HostRows) Store.Database where
  executes work base _ copy := Store.Work.run json base work = .ok copy
  reads
    | .selectCheckpoint tp, database, checkpoint => checkpoint = database.checkpoint tp
    | .host sql, database, rows => selects sql database rows
  selects
    | .selectCheckpoint _ => True
    | .host _ => False

section Store

variable {HostRows : Type} {json : String → Option String}
  {selects : String → Store.Database → HostRows → Prop} {busyTimeout : ℚ} {fuel : ℕ}
  {traffic : Traffic (storeWords HostRows) Store.Database}

/-- No caller clamps a checkpoint. -/
def Unclamped (traffic : Traffic (storeWords HostRows) Store.Database) : Prop :=
  ∀ caller ∈ traffic.callers, ∀ tp target,
    caller.job ≠ .transact (Store.Work.checkpointClamp tp target)

/-- A commit is a work of the store, or changes nothing. -/
theorem exists_work_of_does {job : Job (storeWords HostRows)} {result : job.Result}
    {before after : Store.Database}
    (hdoes : job.Does (storeEngine json selects) before result after) :
    after = before ∨
      ∃ work, job = .transact work ∧ Store.Work.run json before work = .ok after := by
  cases job with
  | transact work => exact Or.inr ⟨work, rfl, hdoes⟩
  | readOn read => exact Or.inl hdoes.2
  | query read => exact Or.inl hdoes.2

/-- The rows stay from one committed state to every later one, and so do the checkpoints where
nobody clamps. -/
theorem Serialized.keeps {origin : Store.Database}
    (hserialized : Serialized (storeEngine json selects) origin traffic) {first last : ℕ}
    (hle : first ≤ last) (hlast : last ≤ traffic.server.commits.length) :
    (stateAt origin traffic.server.commits first).records <+:
        (stateAt origin traffic.server.commits last).records ∧
      (Unclamped traffic → ∀ tp,
        Store.AtLeast ((stateAt origin traffic.server.commits first).checkpoint tp)
          ((stateAt origin traffic.server.commits last).checkpoint tp)) := by
  have hwork (count : ℕ) (hcount : count < traffic.server.commits.length) :=
    hserialized.commits count _ (List.getElem?_eq_getElem hcount)
  constructor
  · refine @related_of_commits _ origin traffic.server.commits
      (fun before after ↦ before.records <+: after.records)
      (fun _ ↦ List.prefix_refl _) List.IsPrefix.trans (fun count hcount ↦ ?_) _ _ hle hlast
    obtain ⟨caller, result, _, _, _, hdoes⟩ := hwork count hcount
    rcases exists_work_of_does hdoes with hsame | ⟨work, _, hrun⟩
    · rw [hsame]
    · exact (Store.Work.addsRows hrun).isPrefix
  · intro hunclamped tp
    refine @related_of_commits _ origin traffic.server.commits
      (fun before after ↦ Store.AtLeast (before.checkpoint tp) (after.checkpoint tp))
      (fun _ ↦ .refl _) (fun hfirst hsecond ↦ hfirst.trans hsecond) (fun count hcount ↦ ?_)
      _ _ hle hlast
    obtain ⟨caller, result, hcaller, _, _, hdoes⟩ := hwork count hcount
    rcases exists_work_of_does hdoes with hsame | ⟨work, hjob, hrun⟩
    · rw [hsame]
      exact .refl _
    · refine Store.Work.atLeast hrun fun target hclamp ↦ ?_
      exact hunclamped caller (List.mem_of_getElem? hcaller) tp target (hclamp ▸ hjob)

end Store

end KSQLite.Connection
