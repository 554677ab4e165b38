import KSQLite.Suspension.Program

/-!
# What holds on every branch of a program

Conditions on the tree of a program, whatever the world: it awaits allowed requests only
(`Program.Asks`), the request after an exchange is linked to it (`Program.Chain`), every branch that
returns goes through an exchange that counts (`Program.Passes`), or that meets a condition with the
request after it (`Program.Meets`), and after replies of a kind it raises allowed errors only, and
does raise once a reply is fatal (`Program.Throws`). They are read
off the code by the rules of sequencing, of mapping and handling errors, and of iteration, and what
is left of a program in the middle of a run has them as well.
-/

set_option autoImplicit false
set_option relaxedAutoImplicit false

namespace KSQLite.Suspension

variable {interface : Interface} {Error Value Result State : Type}

namespace Program

/-- The request a program awaits. -/
def pending : Program interface Error Value → Option interface.Request
  | .await request _ => some request
  | _ => none

/-- Replacing the error changes no request. -/
theorem pending_mapError {change : Error → Error} (program : Program interface Error Value) :
    (program.mapError change).pending = program.pending := by
  cases program <;> rfl

/-- A program that did not return awaits the same request with a continuation. -/
theorem pending_bind {program : Program interface Error Value}
    (hopen : ∀ value, program ≠ .finish value) (next : Value → Program interface Error Result) :
    (program >>= next).pending = program.pending := by
  cases program with
  | finish value => exact absurd rfl (hopen value)
  | _ => rfl

/-! ### Allowed requests -/

/-- On every branch the program awaits allowed requests only. -/
def Asks (allowed : interface.Request → Prop) : Program interface Error Value → Prop
  | .await request resume => allowed request ∧ ∀ reply, (resume reply).Asks allowed
  | _ => True

section Asks

variable {allowed : interface.Request → Prop}

theorem Asks.mono {more : interface.Request → Prop} {program : Program interface Error Value}
    (hprogram : program.Asks allowed) (hmore : ∀ request, allowed request → more request) :
    program.Asks more := by
  induction program with
  | await request resume ih =>
    exact ⟨hmore request hprogram.1, fun reply ↦ ih reply (hprogram.2 reply)⟩
  | _ => trivial

theorem Asks.bind {program : Program interface Error Value}
    {next : Value → Program interface Error Result} (hprogram : program.Asks allowed)
    (hnext : ∀ value, (next value).Asks allowed) : (program >>= next).Asks allowed := by
  induction program with
  | finish value => exact hnext value
  | await request resume ih => exact ⟨hprogram.1, fun reply ↦ ih reply (hprogram.2 reply)⟩
  | _ => trivial

theorem Asks.mapError {change : Error → Error} {program : Program interface Error Value}
    (hprogram : program.Asks allowed) : (program.mapError change).Asks allowed := by
  induction program with
  | await request resume ih => exact ⟨hprogram.1, fun reply ↦ ih reply (hprogram.2 reply)⟩
  | _ => trivial

theorem Asks.handle {handler : Error → Program interface Error Value}
    {program : Program interface Error Value} (hprogram : program.Asks allowed)
    (hhandler : ∀ error, (handler error).Asks allowed) : (program.handle handler).Asks allowed := by
  induction program with
  | raise error => exact hhandler error
  | await request resume ih => exact ⟨hprogram.1, fun reply ↦ ih reply (hprogram.2 reply)⟩
  | _ => trivial

theorem Asks.iterate {guard : State → Option Value}
    {body : State → Program interface Error (State ⊕ Value)}
    (hbody : ∀ state, (body state).Asks allowed) (fuel : ℕ) (state : State) :
    (Program.iterate fuel guard body state).Asks allowed := by
  induction fuel generalizing state with
  | zero =>
    unfold Program.iterate
    cases guard state <;> trivial
  | succ fuel ih =>
    unfold Program.iterate
    cases guard state with
    | some value => trivial
    | none =>
      refine (hbody state).bind ?_
      rintro (next | value)
      · exact ih next
      · trivial

end Asks

/-! ### Linked exchanges -/

/-- On every branch the request awaited after an exchange, if there is one, is linked to it. -/
def Chain (link : (request : interface.Request) → interface.Reply request →
    Option interface.Request → Prop) : Program interface Error Value → Prop
  | .await request resume =>
    ∀ reply, link request reply (resume reply).pending ∧ (resume reply).Chain link
  | _ => True

/-- Where no request has to follow an exchange, a plain one may. -/
structure Joins (link : (request : interface.Request) → interface.Reply request →
    Option interface.Request → Prop) (plain : Option interface.Request → Prop) : Prop where
  none : plain none
  follows : ∀ request reply later, link request reply .none → plain later →
    link request reply later

/-- A program that starts plainly and is linked. -/
structure Flows (link : (request : interface.Request) → interface.Reply request →
    Option interface.Request → Prop) (plain : Option interface.Request → Prop)
    (program : Program interface Error Value) : Prop where
  starts : plain program.pending
  chain : program.Chain link

section Flows

variable {link : (request : interface.Request) → interface.Reply request →
    Option interface.Request → Prop} {plain : Option interface.Request → Prop}

/-- Allowed requests that are plain and linked among themselves. -/
theorem Asks.flows {allowed : interface.Request → Prop} {program : Program interface Error Value}
    (hprogram : program.Asks allowed)
    (hplain : ∀ next : Option interface.Request, (∀ later ∈ next, allowed later) → plain next)
    (hlink : ∀ request reply next, allowed request → (∀ later ∈ next, allowed later) →
      link request reply next) : program.Flows link plain := by
  have hpending {program : Program interface Error Value} (hasks : program.Asks allowed) :
      ∀ later ∈ program.pending, allowed later := by
    intro later hlater
    cases program with
    | await request resume =>
      cases hlater
      exact hasks.1
    | _ => cases hlater
  refine ⟨hplain _ (hpending hprogram), ?_⟩
  induction program with
  | await request resume ih =>
    exact fun reply ↦ ⟨hlink request reply _ hprogram.1 (hpending (hprogram.2 reply)),
      ih reply (hprogram.2 reply)⟩
  | _ => trivial

/-- Two programs in sequence, of which the second starts plainly. -/
theorem Chain.bind (hjoins : Joins link plain) {program : Program interface Error Value}
    {next : Value → Program interface Error Result} (hprogram : program.Chain link)
    (hnext : ∀ value, (next value).Flows link plain) : (program >>= next).Chain link := by
  induction program with
  | finish value => exact (hnext value).chain
  | await request resume ih =>
    refine fun reply ↦ ⟨?_, ih reply (hprogram reply).2⟩
    have hlink := (hprogram reply).1
    change link request reply (resume reply >>= next).pending
    cases hresume : resume reply with
    | finish value =>
      rw [hresume] at hlink
      exact hjoins.follows request reply _ hlink (hnext value).starts
    | _ =>
      rw [hresume] at hlink
      exact hlink
  | _ => trivial

theorem Flows.bind (hjoins : Joins link plain) {program : Program interface Error Value}
    {next : Value → Program interface Error Result} (hprogram : program.Flows link plain)
    (hnext : ∀ value, (next value).Flows link plain) : (program >>= next).Flows link plain := by
  refine ⟨?_, hprogram.chain.bind hjoins hnext⟩
  cases program with
  | finish value => exact (hnext value).starts
  | _ => exact hprogram.starts

theorem Flows.mapError {change : Error → Error} {program : Program interface Error Value}
    (hprogram : program.Flows link plain) : (program.mapError change).Flows link plain := by
  have hpending : (program.mapError change).pending = program.pending := pending_mapError program
  refine ⟨hpending.symm ▸ hprogram.starts, ?_⟩
  have hchain := hprogram.chain
  clear hprogram hpending
  induction program with
  | await request resume ih =>
    refine fun reply ↦ ⟨?_, ih reply (hchain reply).2⟩
    rw [pending_mapError]
    exact (hchain reply).1
  | _ => trivial

/-- A handler that starts plainly. -/
theorem Flows.handle (hjoins : Joins link plain) {handler : Error → Program interface Error Value}
    {program : Program interface Error Value} (hprogram : program.Flows link plain)
    (hhandler : ∀ error, (handler error).Flows link plain) :
    (program.handle handler).Flows link plain := by
  constructor
  · cases program with
    | raise error => exact (hhandler error).starts
    | _ => exact hprogram.starts
  · have hchain := hprogram.chain
    clear hprogram
    induction program with
    | raise error => exact (hhandler error).chain
    | await request resume ih =>
      refine fun reply ↦ ⟨?_, ih reply (hchain reply).2⟩
      have hlink := (hchain reply).1
      change link request reply ((resume reply).handle handler).pending
      cases hresume : resume reply with
      | raise error =>
        rw [hresume] at hlink
        exact hjoins.follows request reply _ hlink (hhandler error).starts
      | _ =>
        rw [hresume] at hlink
        exact hlink
    | _ => trivial

theorem Flows.iterate (hjoins : Joins link plain) {guard : State → Option Value}
    {body : State → Program interface Error (State ⊕ Value)}
    (hbody : ∀ state, (body state).Flows link plain) (fuel : ℕ) (state : State) :
    (Program.iterate fuel guard body state).Flows link plain := by
  induction fuel generalizing state with
  | zero =>
    unfold Program.iterate
    cases guard state <;> exact ⟨hjoins.none, trivial⟩
  | succ fuel ih =>
    unfold Program.iterate
    cases guard state with
    | some value => exact ⟨hjoins.none, trivial⟩
    | none =>
      refine (hbody state).bind hjoins ?_
      rintro (next | value)
      · exact ih next
      · exact ⟨hjoins.none, trivial⟩

end Flows

/-! ### Exchanges gone through -/

/-- Every branch that returns goes through an exchange that counts. -/
def Passes (counts : (request : interface.Request) → interface.Reply request → Prop) :
    Program interface Error Value → Prop
  | .finish _ => False
  | .raise _ => True
  | .exhausted => True
  | .await request resume => ∀ reply, counts request reply ∨ (resume reply).Passes counts

section Passes

variable {counts : (request : interface.Request) → interface.Reply request → Prop}

/-- What the first of two programs goes through. -/
theorem Passes.bind {program : Program interface Error Value}
    (hprogram : program.Passes counts) (next : Value → Program interface Error Result) :
    (program >>= next).Passes counts := by
  induction program with
  | finish value => exact hprogram.elim
  | await request resume ih => exact fun reply ↦ (hprogram reply).imp_right (ih reply)
  | _ => trivial

theorem Passes.mapError {change : Error → Error} {program : Program interface Error Value}
    (hprogram : program.Passes counts) : (program.mapError change).Passes counts := by
  induction program with
  | finish value => exact hprogram.elim
  | await request resume ih => exact fun reply ↦ (hprogram reply).imp_right (ih reply)
  | _ => trivial

/-- A run went through an exchange that counts, or what is left will. -/
theorem Passes.of_steps {World : Type} {environment : Environment interface World}
    {program rest : Program interface Error Value} {world final : World}
    {trace : List (Exchange interface World)} (hprogram : program.Passes counts)
    (hsteps : Steps environment program world trace rest final) :
    (∃ exchange ∈ trace, counts exchange.request exchange.reply) ∨ rest.Passes counts := by
  induction hsteps with
  | refl => exact Or.inr hprogram
  | interfere _ _ ih => exact ih hprogram
  | answer _ _ ih =>
    rcases hprogram _ with hcounts | hlater
    · exact Or.inl ⟨_, List.mem_cons_self, hcounts⟩
    · refine (ih hlater).imp_left ?_
      rintro ⟨exchange, hexchange, hcounts⟩
      exact ⟨exchange, List.mem_cons_of_mem _ hexchange, hcounts⟩

end Passes

/-! ### Exchanges met -/

/-- Every branch that returns goes through an exchange that, with the request awaited after it,
meets a condition. -/
def Meets (meets : (request : interface.Request) → interface.Reply request →
    Option interface.Request → Prop) : Program interface Error Value → Prop
  | .finish _ => False
  | .raise _ => True
  | .exhausted => True
  | .await request resume =>
    ∀ reply, meets request reply (resume reply).pending ∨ (resume reply).Meets meets

section Meets

variable {meets : (request : interface.Request) → interface.Reply request →
    Option interface.Request → Prop}

/-- What the first of two programs meets, if a request that follows it does no harm. -/
theorem Meets.bind (hfollows : ∀ request reply later, meets request reply none →
    meets request reply later) {program : Program interface Error Value}
    (hprogram : program.Meets meets) (next : Value → Program interface Error Result) :
    (program >>= next).Meets meets := by
  induction program with
  | finish value => exact hprogram.elim
  | await request resume ih =>
    intro reply
    refine (hprogram reply).imp (fun hmeets ↦ ?_) (ih reply)
    change meets request reply (resume reply >>= next).pending
    cases hresume : resume reply with
    | finish value =>
      rw [hresume] at hmeets
      exact hfollows request reply _ hmeets
    | _ =>
      rw [hresume] at hmeets
      exact hmeets
  | _ => trivial

/-- What the second of two programs meets. -/
theorem meets_bind {program : Program interface Error Value}
    {next : Value → Program interface Error Result} (hnext : ∀ value, (next value).Meets meets) :
    (program >>= next).Meets meets := by
  induction program with
  | finish value => exact hnext value
  | await request resume ih => exact fun reply ↦ Or.inr (ih reply)
  | _ => trivial

theorem Meets.mapError {change : Error → Error} {program : Program interface Error Value}
    (hprogram : program.Meets meets) : (program.mapError change).Meets meets := by
  induction program with
  | finish value => exact hprogram.elim
  | await request resume ih =>
    intro reply
    refine (hprogram reply).imp (fun hmeets ↦ ?_) (ih reply)
    rwa [pending_mapError]
  | _ => trivial

end Meets

/-! ### Raised errors -/

/-- On every branch the program raises. -/
def Breaks : Program interface Error Value → Prop
  | .finish _ => False
  | .raise _ => True
  | .exhausted => False
  | .await _ resume => ∀ reply, (resume reply).Breaks

/-- On every branch of admitted replies the program raises allowed errors only, and after a fatal
reply it does raise. -/
def Throws (admits fatal : (request : interface.Request) → interface.Reply request → Prop)
    (allowed : Error → Prop) : Program interface Error Value → Prop
  | .finish _ => True
  | .raise error => allowed error
  | .exhausted => True
  | .await request resume => ∀ reply, admits request reply →
    (fatal request reply → (resume reply).Breaks) ∧ (resume reply).Throws admits fatal allowed

section Throws

variable {admits fatal : (request : interface.Request) → interface.Reply request → Prop}
  {allowed : Error → Prop}

theorem Breaks.bind {program : Program interface Error Value} (hprogram : program.Breaks)
    (next : Value → Program interface Error Result) : (program >>= next).Breaks := by
  induction program with
  | finish value => exact hprogram.elim
  | raise error => trivial
  | exhausted => exact hprogram.elim
  | await request resume ih => exact fun reply ↦ ih reply (hprogram reply)

theorem Breaks.mapError {change : Error → Error} {program : Program interface Error Value}
    (hprogram : program.Breaks) : (program.mapError change).Breaks := by
  induction program with
  | finish value => exact hprogram.elim
  | raise error => trivial
  | exhausted => exact hprogram.elim
  | await request resume ih => exact fun reply ↦ ih reply (hprogram reply)

theorem Breaks.handle {handler : Error → Program interface Error Value}
    {program : Program interface Error Value} (hprogram : program.Breaks)
    (hhandler : ∀ error, (handler error).Breaks) : (program.handle handler).Breaks := by
  induction program with
  | finish value => exact hprogram.elim
  | raise error => exact hhandler error
  | exhausted => exact hprogram.elim
  | await request resume ih => exact fun reply ↦ ih reply (hprogram reply)

/-- What is left in a run of a program that raises on every branch. -/
theorem Breaks.of_steps {World : Type} {environment : Environment interface World}
    {program rest : Program interface Error Value} {world final : World}
    {trace : List (Exchange interface World)} (hprogram : program.Breaks)
    (hsteps : Steps environment program world trace rest final) : rest.Breaks := by
  induction hsteps with
  | refl => exact hprogram
  | interfere _ _ ih => exact ih hprogram
  | answer _ _ ih => exact ih (hprogram _)

theorem throws_finish (value : Value) :
    (Program.finish value : Program interface Error Value).Throws admits fatal allowed :=
  trivial

theorem Throws.mono {more : Error → Prop} {program : Program interface Error Value}
    (hprogram : program.Throws admits fatal allowed) (hmore : ∀ error, allowed error → more error) :
    program.Throws admits fatal more := by
  induction program with
  | raise error => exact hmore error hprogram
  | await request resume ih =>
    exact fun reply hreply ↦ (hprogram reply hreply).imp_right (ih reply)
  | _ => trivial

theorem Throws.bind {program : Program interface Error Value}
    {next : Value → Program interface Error Result} (hprogram : program.Throws admits fatal allowed)
    (hnext : ∀ value, (next value).Throws admits fatal allowed) :
    (program >>= next).Throws admits fatal allowed := by
  induction program with
  | finish value => exact hnext value
  | raise error => exact hprogram
  | exhausted => trivial
  | await request resume ih =>
    refine fun reply hreply ↦ (hprogram reply hreply).imp (fun hfatal hnow ↦ ?_) (ih reply)
    exact (hfatal hnow).bind next

/-- A program whose error is replaced, allowed once it is. -/
theorem Throws.mapError {change : Error → Error} {program : Program interface Error Value}
    (hprogram : program.Throws admits fatal fun error ↦ allowed (change error)) :
    (program.mapError change).Throws admits fatal allowed := by
  induction program with
  | raise error => exact hprogram
  | await request resume ih =>
    refine fun reply hreply ↦ (hprogram reply hreply).imp (fun hfatal hnow ↦ ?_) (ih reply)
    exact (hfatal hnow).mapError
  | _ => trivial

/-- A program with a handler that lets what it is raised for go on in some way. -/
theorem Throws.handle {raised : Error → Prop} {handler : Error → Program interface Error Value}
    {program : Program interface Error Value} (hprogram : program.Throws admits fatal raised)
    (hhandler : ∀ error, raised error → (handler error).Throws admits fatal allowed)
    (hbreaks : ∀ error, (handler error).Breaks) :
    (program.handle handler).Throws admits fatal allowed := by
  induction program with
  | raise error => exact hhandler error hprogram
  | await request resume ih =>
    refine fun reply hreply ↦ (hprogram reply hreply).imp (fun hfatal hnow ↦ ?_) (ih reply)
    exact (hfatal hnow).handle hbreaks
  | _ => trivial

theorem Throws.iterate {guard : State → Option Value}
    {body : State → Program interface Error (State ⊕ Value)}
    (hbody : ∀ state, (body state).Throws admits fatal allowed) (fuel : ℕ) (state : State) :
    (Program.iterate fuel guard body state).Throws admits fatal allowed := by
  induction fuel generalizing state with
  | zero =>
    unfold Program.iterate
    cases guard state <;> trivial
  | succ fuel ih =>
    unfold Program.iterate
    cases guard state with
    | some value => trivial
    | none =>
      refine (hbody state).bind ?_
      rintro (next | value)
      · exact ih next
      · trivial

section Runs

variable {World : Type} {environment : Environment interface World}
  {program rest : Program interface Error Value} {world final : World}
  {trace : List (Exchange interface World)}

/-- What is left in a run of admitted replies. -/
theorem Throws.of_steps (hprogram : program.Throws admits fatal allowed)
    (hsteps : Steps environment program world trace rest final)
    (hadmits : ∀ exchange ∈ trace, admits exchange.request exchange.reply) :
    rest.Throws admits fatal allowed := by
  induction hsteps with
  | refl => exact hprogram
  | interfere _ _ ih => exact ih hprogram hadmits
  | answer _ _ ih =>
    refine ih (hprogram _ (hadmits _ List.mem_cons_self)).2 fun exchange hexchange ↦ ?_
    exact hadmits exchange (List.mem_cons_of_mem _ hexchange)

/-- A run that met a fatal reply can only raise. -/
theorem Throws.breaks_of_steps (hprogram : program.Throws admits fatal allowed)
    (hsteps : Steps environment program world trace rest final)
    (hadmits : ∀ exchange ∈ trace, admits exchange.request exchange.reply)
    {exchange : Exchange interface World} (hexchange : exchange ∈ trace)
    (hfatal : fatal exchange.request exchange.reply) : rest.Breaks := by
  induction hsteps with
  | refl => exact absurd hexchange List.not_mem_nil
  | interfere _ _ ih => exact ih hprogram hadmits hexchange
  | answer _ hrest ih =>
    obtain ⟨hbreaks, hresume⟩ := hprogram _ (hadmits _ List.mem_cons_self)
    rcases List.mem_cons.mp hexchange with rfl | hlater
    · exact (hbreaks hfatal).of_steps hrest
    · exact ih hresume (fun other hother ↦ hadmits other (List.mem_cons_of_mem _ hother)) hlater

end Runs

end Throws

end Program

end KSQLite.Suspension
