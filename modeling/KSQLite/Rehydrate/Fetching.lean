import KSQLite.Rehydrate.Watching

/-!
# What follows a fetch

A fetched batch is dealt with at once: the next thing an assignment awaits is the transaction of
exactly that batch, and nothing else until it commits; if it raises, the assignment of the partition
raises and awaits nothing more (`fetch_watches`).
-/

set_option autoImplicit false
set_option relaxedAutoImplicit false

namespace KSQLite.Rehydrate

open KSQLite.Suspension KSQLite.Store

/-- The entries a reply handed over. -/
def fetched : (request : Request) → request.Reply → List (ℤ × Message)
  | .call (.getmany _ _), .ok records => records
  | _, _ => []

/-- Entries are handed over by fetches. -/
theorem exists_getmany_of_fetched {request : Request} {reply : request.Reply}
    (hfetched : fetched request reply ≠ []) :
    ∃ name limit, request = .call (.getmany name limit) := by
  unfold fetched at hfetched
  split at hfetched
  · exact ⟨_, _, rfl⟩
  · exact absurd rfl hfetched

/-- Whether a fetched batch waits for its transaction, and whether that raised. -/
inductive Fetch
  | clear
  | due
  | failed

namespace Fetch

variable {records : List (ℤ × Message)} {raises : Error → Prop} {about : TopicPartition → Prop}
  {settings : Settings} {deadline : ℤ} {tp : TopicPartition}

/-- A batch may be taken note of when it is fetched; then a transaction commits or raises. -/
def Moves (records : List (ℤ × Message)) (raises : Error → Prop) :
    Fetch → (request : requests.Request) → requests.Reply request → Fetch → Prop
  | .clear, request, reply, after => after = .clear ∨ after = .due ∧ fetched request reply = records
  | .due, .call (.transaction _), .ok _, after => after = .clear
  | .due, .call (.transaction _), .error error, after => after = .failed ∧ raises error
  | _, _, _, _ => False

/-- The transaction of the batch is the only thing to await. -/
def Moment (records : List (ℤ × Message)) (about : TopicPartition → Prop)
    (request : requests.Request) : Fetch → Prop
  | .clear => True
  | .due => ∃ tp offset, about tp ∧
      request = .call (.transaction (.materializeBatch tp records offset))
  | .failed => False

/-- The error of the transaction goes on. -/
def Raised (raises : Error → Prop) (error : Error) : Fetch → Prop
  | .clear => True
  | .due => False
  | .failed => raises error

/-- Nothing but a fetch makes a transaction due. -/
theorem closedUnder_clear (hrecords : records ≠ []) :
    ClosedUnder (Moves records raises) (Moment records about) isPoll (· = .clear) := by
  rintro request hpoll _ rfl
  refine ⟨trivial, ?_⟩
  rintro reply after (rfl | ⟨rfl, hfetched⟩)
  · rfl
  · obtain ⟨_, _, rfl⟩ := exists_getmany_of_fetched (hfetched ▸ hrecords)
    cases hpoll

/-- The watch over an assignment. -/
theorem watches (hrecords : records ≠ []) (habout : about tp) :
    AssignmentWatch (Moves records raises) (Moment records about) settings deadline tp
      (fun _ ↦ (· = .clear)) (· = .clear) (· = .clear) (fun _ _ ↦ (· = .clear))
      (Raised raises) where
  starts_closed _ := closedUnder_clear hrecords
  ready_closed := closedUnder_clear hrecords
  calm_closed := closedUnder_clear hrecords
  calm_of_starts _ _ hclear := hclear
  starts_of_calm _ hclear := hclear
  calm_of_ready _ hclear := hclear
  round_of_ready _ _ _ hclear := hclear
  calm_of_round _ _ _ hclear := hclear
  failed_of_calm := by
    rintro error _ rfl
    trivial
  looks := by
    rintro first _ rfl
    cases first with
    | true => exact rfl
    | false =>
      refine holds_watch_await.mpr ⟨trivial, ?_⟩
      rintro now after (rfl | ⟨_, hfetched⟩)
      · change Looked false _ _ (.returned (decide (deadline ≤ now))) _
        cases decide (deadline ≤ now)
        · exact rfl
        · exact ⟨rfl, rfl⟩
      · exact absurd hfetched.symm hrecords
  polls := by
    rintro name leo replay _ rfl hposition
    have hquiet {action : Action (Replay ⊕ Option Replay)} (hwithin : action.Within isPoll 0) :
        Holds (watch (Moves records raises)) (Moment records about)
          (AfterRound (fun _ ↦ (· = .clear)) (EndsIn (· = .clear) (Raised raises))) action
          .clear := by
      have hends : Holds (watch (Moves records raises)) (Moment records about)
          (EndsIn (· = .clear) (Raised raises)) action .clear :=
        hwithin.holds_watch (closedUnder_clear hrecords) (by rintro error _ rfl; trivial) rfl
      refine hends.mono (fun _ _ hmoment ↦ hmoment) ?_
      rintro ((next | value) | error | _) after hafter <;> exact hafter
    have hnext (batch : List (ℤ × Message)) (last : ℤ × Message) : Program.Within isPoll 0
        (if (replay.advance batch.length last.1).position ≠ leo then
          stopOrContinue tp deadline (replay.advance batch.length last.1)
        else (pure (.inl (replay.advance batch.length last.1)) :
          Action (Replay ⊕ Option Replay))) := by
      split_ifs
      · exact within_stopOrContinue
      · exact .finish _
    unfold pollOnce
    refine holds_watch_await.mpr ⟨trivial, ?_⟩
    rintro (error | batch) after (rfl | ⟨rfl, hfetched⟩)
    · change Holds _ _ _ (if error = _ then _ else _) _
      split_ifs
      · exact hquiet within_recover
      · trivial
    · exact absurd hfetched.symm hrecords
    · simp only [Program.bind]
      cases batch.getLast? with
      | none => exact hquiet within_stopOrContinue
      | some last => exact hquiet (within_materializeBatch.before fun _ ↦ hnext batch last)
    · simp only [Program.bind]
      obtain rfl : batch = records := hfetched
      cases hlast : batch.getLast? with
      | none => exact absurd (List.getLast?_eq_none_iff.mp hlast) hrecords
      | some last =>
        -- The batch is due: its transaction is awaited next.
        refine holds_watch_await.mpr ⟨⟨tp, last.1, habout, rfl⟩, ?_⟩
        rintro (error | value) after hmoves
        · obtain ⟨rfl, hraises⟩ := hmoves
          exact hraises
        · obtain rfl : after = .clear := hmoves
          exact hquiet ((within_remember _).before fun _ ↦ hnext batch last)

end Fetch

end KSQLite.Rehydrate
