import KSQLite.Store.Calls

/-!
# Changelog topics

The changelog name of a partition, and step 0 of an assignment: the changelog exists or is
created, and its cleanup policy is looked at. Success is remembered for the lifetime of the store;
a failure is not.
-/

set_option autoImplicit false
set_option relaxedAutoImplicit false

namespace KSQLite.Store

open KSQLite.Suspension

/-- A character of a Kafka topic name. -/
def isTopicNameChar (char : Char) : Bool :=
  ('A' ≤ char && char ≤ 'Z') || ('a' ≤ char && char ≤ 'z') || ('0' ≤ char && char ≤ '9') ||
    char = '.' || char = '_' || char = '-'

/-- `validate_topic_name`. -/
def isTopicName (name : String) : Bool :=
  !(name = "." || name = ".." || 249 < name.length || name.isEmpty ||
    !name.toList.all isTopicNameChar)

/-- The changelog name of a source partition, validated at every resolution. -/
def changelogName (settings : Settings) (source : TopicPartition) : Except Error String :=
  let name := settings.template source
  if isTopicName name then .ok name else .error (.illegalTopicName name)

/-- A changelog name that is legal is what the template formats to. -/
theorem eq_template_of_changelogName {settings : Settings} {source : TopicPartition} {name : String}
    (hname : changelogName settings source = .ok name) : name = settings.template source := by
  dsimp only [changelogName] at hname
  split_ifs at hname
  exact (Except.ok.inj hname).symm

/-- Go through the outcome of a creation: a concurrent creation counts as success. -/
def checkTopicErrors (name : String) : List (ℤ × Option String) → Except Error Unit
  | [] => .ok ()
  | (code, message) :: rest =>
    if code = 0 then checkTopicErrors name rest
    else if code = topicAlreadyExists then .ok ()
    else .error (.kafka (forCode code name message))

/-- `_create`. -/
def create (name : String) (retention : ℤ) : Action Unit := do
  let topicErrors ← perform (.createTopic name retention)
  Program.ofExcept (checkTopicErrors name topicErrors)

/-- `_verify_policy`: whatever the policy, it is only logged. -/
def verifyPolicy (name : String) : Action Unit := perform (.describeConfigs name)

/-- What step 0 raises in place of a broker error. -/
def stepZeroError (name : String) : Error → Error
  | .kafka cause => .stepZeroFailed name cause
  | error => error

/-- Ensure that a changelog exists and look at its policy. -/
def ensure (settings : Settings) (name : String) : Action Unit := do
  let existing ← perform .listTopics
  if name ∉ existing then
    match settings.retention with
    | none => .raise (.topicNotFound name)
    | some retention => create name retention
  if settings.verifyChangelogPolicy then verifyPolicy name

/-- Step 0 of an assignment. -/
def ensureAndVerify (settings : Settings) (source : TopicPartition) : Action String := do
  let name ← Program.ofExcept (changelogName settings source)
  let memory ← observe
  if source ∈ memory.checked then return name
  (ensure settings name).mapError (stepZeroError name)
  remember fun memory ↦ { memory with checked := insert source memory.checked }
  return name

end KSQLite.Store
