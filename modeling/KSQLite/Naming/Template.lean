import KSQLite.Store.Topics

/-!
# Changelog templates

The host's template is a Python format string. It is scanned into pieces from left to right:
characters, replacement fields, and the point where it is malformed. The fields `{source_topic}` and
`{partition}` format to the topic and to the decimal partition; what any other field formats to (a
conversion, a format specification, an attribute or an item of the two arguments) is a parameter.
-/

set_option autoImplicit false
set_option relaxedAutoImplicit false

namespace KSQLite.Naming

open KSQLite.Store (TopicPartition isTopicName)

/-- A replacement field: its name, its conversion and its format specification. -/
structure Field where
  name : List Char
  conversion : Option Char
  specification : List Char
  deriving DecidableEq

/-- A piece of a format string. -/
inductive Piece
  | literal (char : Char)
  | replacement (field : Field)
  | malformed (message : String)
  deriving DecidableEq

/-- `{source_topic}`. -/
abbrev Piece.topic : Piece := .replacement ⟨"source_topic".toList, none, []⟩

/-- `{partition}`. -/
abbrev Piece.partition : Piece := .replacement ⟨"partition".toList, none, []⟩

/-- Where the scan of a format string is: in the text, in the name of a field, in the brackets of a
name, at a conversion, past it, or in a specification with a number of open braces. -/
inductive Scan
  | text
  | name (read : List Char)
  | bracket (read : List Char)
  | conversion (name : List Char)
  | converted (name : List Char) (conversion : Char)
  | specification (name : List Char) (conversion : Option Char) (read : List Char) (depth : ℕ)

/-- The pieces of a format string. A malformed one is formatted up to where it is malformed. -/
def scan : Scan → List Char → List Piece
  | .text, [] => []
  | .text, '{' :: '{' :: rest => .literal '{' :: scan .text rest
  | .text, ['{'] => [.malformed "Single '\x7b' encountered in format string"]
  | .text, '{' :: rest => scan (.name []) rest
  | .text, '}' :: '}' :: rest => .literal '}' :: scan .text rest
  | .text, '}' :: _ => [.malformed "Single '\x7d' encountered in format string"]
  | .text, char :: rest => .literal char :: scan .text rest
  | .name _, [] => [.malformed "expected '\x7d' before end of string"]
  | .name _, '{' :: _ => [.malformed "unexpected '\x7b' in field name"]
  | .name read, '}' :: rest => .replacement ⟨read, none, []⟩ :: scan .text rest
  | .name read, '[' :: rest => scan (.bracket (read ++ ['['])) rest
  | .name read, ':' :: rest => scan (.specification read none [] 0) rest
  | .name read, '!' :: rest => scan (.conversion read) rest
  | .name read, char :: rest => scan (.name (read ++ [char])) rest
  | .bracket _, [] => [.malformed "expected '\x7d' before end of string"]
  | .bracket read, ']' :: rest => scan (.name (read ++ [']'])) rest
  | .bracket read, char :: rest => scan (.bracket (read ++ [char])) rest
  | .conversion _, [] =>
    [.malformed "end of string while looking for conversion specifier"]
  | .conversion name, char :: rest => scan (.converted name char) rest
  | .converted _ _, [] => [.malformed "unmatched '\x7b' in format spec"]
  | .converted name conversion, '}' :: rest =>
    .replacement ⟨name, some conversion, []⟩ :: scan .text rest
  | .converted name conversion, ':' :: rest =>
    scan (.specification name (some conversion) [] 0) rest
  | .converted _ _, _ :: _ => [.malformed "expected ':' after conversion specifier"]
  | .specification _ _ _ _, [] => [.malformed "unmatched '\x7b' in format spec"]
  | .specification name conversion read 0, '}' :: rest =>
    .replacement ⟨name, conversion, read⟩ :: scan .text rest
  | .specification name conversion read (depth + 1), '}' :: rest =>
    scan (.specification name conversion (read ++ ['}']) depth) rest
  | .specification name conversion read depth, '{' :: rest =>
    scan (.specification name conversion (read ++ ['{']) (depth + 1)) rest
  | .specification name conversion read depth, char :: rest =>
    scan (.specification name conversion (read ++ [char]) depth) rest

/-- The pieces of a template. -/
def pieces (template : String) : List Piece := scan .text template.toList

/-- What `str.format` raises. -/
inductive FormatError
  | key (message : String)
  | index (message : String)
  | value (message : String)
  | other (message : String)
  deriving DecidableEq

/-- What a field other than `{source_topic}` and `{partition}` formats to. -/
abbrev Rendering : Type := Field → TopicPartition → Except FormatError (List Char)

section Formatting

variable (rendering : Rendering)

/-- What a piece formats to. -/
def Piece.format (source : TopicPartition) : Piece → Except FormatError (List Char)
  | .literal char => .ok [char]
  | .replacement field =>
    if field = ⟨"source_topic".toList, none, []⟩ then .ok source.topic.toList
    else if field = ⟨"partition".toList, none, []⟩ then .ok (toString source.partition).toList
    else rendering field source
  | .malformed message => .error (.value message)

/-- The pieces one after another. -/
def formatAll (source : TopicPartition) : List Piece → Except FormatError (List Char)
  | [] => .ok []
  | piece :: rest => do
    let text ← piece.format rendering source
    let texts ← formatAll source rest
    return text ++ texts

/-- `template.format(source_topic=…, partition=…)`. -/
def format (template : String) (source : TopicPartition) : Except FormatError String :=
  (formatAll rendering source (pieces template)).map String.ofList

/-- What is wrong with a template or with the name it formats to. -/
inductive TemplateError
  | missingPlaceholder (template : String)
  | unusable (template : String) (cause : FormatError)
  | raised (cause : FormatError)
  | illegalTopicName (name : String)
  deriving DecidableEq

/-- A text holds another one. -/
def holds (text part : String) : Bool := decide (part.toList <:+: text.toList)

/-- `validate_changelog_template`. -/
def validateChangelogTemplate (template : String) : Except TemplateError Unit :=
  if !holds template "\x7bsource_topic\x7d" || !holds template "\x7bpartition\x7d" then
    .error (.missingPlaceholder template)
  else
    match format rendering template ⟨"probe", 0⟩ with
    | .ok _ => .ok ()
    | .error (.other message) => .error (.raised (.other message))
    | .error cause => .error (.unusable template cause)

/-- `ChangelogTopics.changelog_name`. -/
def changelogName (template : String) (source : TopicPartition) : Except TemplateError String := do
  let name ← (format rendering template source).mapError .raised
  if isTopicName name then .ok name else .error (.illegalTopicName name)

/-- A store whose template formats every shard resolves its changelogs by it. -/
theorem changelogName_store {settings : Store.Settings} {template : String} {rendering : Rendering}
    (hformat : ∀ source, format rendering template source = .ok (settings.template source))
    (source : TopicPartition) (name : String) :
    changelogName rendering template source = .ok name ↔
      Store.changelogName settings source = .ok name := by
  rw [changelogName, hformat]
  change (if isTopicName (settings.template source) then _ else _) = _ ↔
    (if isTopicName (settings.template source) then _ else _) = _
  split_ifs
  · rw [Except.ok.injEq, Except.ok.injEq]
  · exact iff_of_false nofun nofun

end Formatting

end KSQLite.Naming
