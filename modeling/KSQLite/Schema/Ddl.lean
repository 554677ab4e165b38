import KSQLite.Schema.Literals
import Mathlib.Data.Nat.Notation

/-!
# Generated columns, indexes and their DDL

What a host declares beside the system columns, what is checked of it, and the text of the
statements that add it to a database. The clause of a column carries its JSON path as a string
literal, in which every quote is doubled.
-/

set_option autoImplicit false
set_option relaxedAutoImplicit false

namespace KSQLite.Schema

/-- A column that is extracted from the JSON payload. -/
structure GeneratedColumn where
  name : String
  jsonPath : String
  sqlType : String
  deriving DecidableEq

/-- An index over system columns and generated ones. -/
structure Index where
  name : String
  columns : List String
  unique : Bool
  deriving DecidableEq

/-- What is wrong with a declaration, one constructor for each raise site. -/
inductive ConfigError
  | invalidIdentifier (name : String)
  | invalidJsonPath (path : String)
  | controlCharacters (path : String)
  | systemColumn (name : String)
  | invalidSqlType (name sqlType : String)
  | unknownColumn (index column : String)
  | columnDrift (name clause stored : String)
  | indexDrift (declared : Index) (stored : List String) (unique : Bool)
  deriving DecidableEq

/-- A text as a list of names in a message. -/
def listText (names : List String) : String :=
  "[" ++ ", ".intercalate (names.map fun name ↦ s!"'{name}'") ++ "]"

/-- A truth value in a message. -/
def boolText : Bool → String
  | true => "True"
  | false => "False"

/-- The message of an error. -/
def ConfigError.text : ConfigError → String
  | .invalidIdentifier name => s!"invalid SQL identifier: '{name}'"
  | .invalidJsonPath path => s!"invalid json_path (must start with '$.'): '{path}'"
  | .controlCharacters path => s!"json_path contains control characters: '{path}'"
  | .systemColumn name => s!"generated column '{name}' collides with a system column"
  | .invalidSqlType name sqlType => s!"invalid sql_type for generated column '{name}': '{sqlType}'"
  | .unknownColumn index column => s!"index '{index}' references unknown column '{column}'"
  | .columnDrift name clause stored =>
    s!"generated column '{name}' drifted from the stored schema: declared clause '{clause}', " ++
      s!"stored extraction ({stored})"
  | .indexDrift declared stored unique =>
    s!"index '{declared.name}' drifted from the stored schema: declared (columns=" ++
      listText declared.columns ++ ", unique=" ++ boolText declared.unique ++
      "), stored (columns=" ++ listText stored ++ ", unique=" ++ boolText unique ++ ")"

/-! ### Validation -/

/-- A letter or an underscore. -/
def isIdentifierStart (char : Char) : Bool :=
  ('A' ≤ char && char ≤ 'Z') || ('a' ≤ char && char ≤ 'z') || char = '_'

/-- A letter, a digit or an underscore. -/
def isIdentifierChar (char : Char) : Bool :=
  isIdentifierStart char || ('0' ≤ char && char ≤ '9')

/-- `[A-Za-z_][A-Za-z0-9_]*` -/
def isIdentifier (name : String) : Bool :=
  match name.toList with
  | [] => false
  | head :: tail => isIdentifierStart head && tail.all isIdentifierChar

/-- `SYSTEM_COLUMNS`. -/
def systemColumns : List String :=
  ["message_id", "source_topic", "source_partition", "changelog_offset", "entity_key", "payload"]

/-- `validate_identifier`. -/
def validateIdentifier (name : String) : Except ConfigError Unit :=
  if isIdentifier name then .ok () else .error (.invalidIdentifier name)

/-- A control character in ASCII. -/
def isControl (char : Char) : Bool := char.toNat < 0x20 || char = '\x7f'

/-- `validate_json_path`. -/
def validateJsonPath (path : String) : Except ConfigError Unit :=
  if !"$.".toList.isPrefixOf path.toList || path.length ≤ 2 then .error (.invalidJsonPath path)
  else if path.toList.any isControl then .error (.controlCharacters path)
  else .ok ()

/-- `validate_generated_column`. -/
def validateGeneratedColumn (column : GeneratedColumn) : Except ConfigError Unit := do
  validateIdentifier column.name
  if column.name ∈ systemColumns then .error (.systemColumn column.name)
  else do
    validateJsonPath column.jsonPath
    if isIdentifier column.sqlType then .ok ()
    else .error (.invalidSqlType column.name column.sqlType)

/-- Go through the columns of an index. -/
def validateIndexColumns (index : String) (declared : List String) :
    List String → Except ConfigError Unit
  | [] => .ok ()
  | column :: rest =>
    if column ∉ systemColumns ∧ column ∉ declared then .error (.unknownColumn index column)
    else validateIndexColumns index declared rest

/-- `validate_index`. -/
def validateIndex (index : Index) (declared : List String) : Except ConfigError Unit := do
  validateIdentifier index.name
  validateIndexColumns index.name declared index.columns

/-! ### Statements -/

/-- `escape_string_literal`. -/
def escapeStringLiteral (value : String) : String :=
  "'" ++ String.ofList (double '\'' value.toList) ++ "'"

/-- `render_column_clause`. -/
def renderColumnClause (column : GeneratedColumn) : String :=
  column.name ++ " " ++ column.sqlType ++ " GENERATED ALWAYS AS (payload->>" ++
    escapeStringLiteral column.jsonPath ++ ") VIRTUAL"

/-- `emit_add_column`. -/
def emitAddColumn (column : GeneratedColumn) : String :=
  "ALTER TABLE _records ADD COLUMN " ++ renderColumnClause column

/-- `emit_create_index`. -/
def emitCreateIndex (index : Index) : String :=
  "CREATE " ++ (if index.unique then "UNIQUE " else "") ++ "INDEX IF NOT EXISTS " ++ index.name ++
    " ON _records (" ++ ", ".intercalate index.columns ++ ")"

/-! ### What was validated -/

/-- A column that was validated. -/
structure ValidColumn (column : GeneratedColumn) : Prop where
  name : isIdentifier column.name = true
  fresh : column.name ∉ systemColumns
  path : ∃ rest, column.jsonPath.toList = '$' :: '.' :: rest ∧ rest ≠ []
  printable : ∀ char ∈ column.jsonPath.toList, isControl char = false
  sqlType : isIdentifier column.sqlType = true

theorem validateIdentifier_eq_ok {name : String} :
    validateIdentifier name = .ok () ↔ isIdentifier name = true := by
  unfold validateIdentifier
  split_ifs with hname
  · exact iff_of_true rfl hname
  · exact iff_of_false nofun hname

theorem validateJsonPath_eq_ok {path : String} :
    validateJsonPath path = .ok () ↔ (∃ rest, path.toList = '$' :: '.' :: rest ∧ rest ≠ []) ∧
      ∀ char ∈ path.toList, isControl char = false := by
  have hshape : (!"$.".toList.isPrefixOf path.toList || decide (path.length ≤ 2)) = false ↔
      ∃ rest, path.toList = '$' :: '.' :: rest ∧ rest ≠ [] := by
    rw [Bool.or_eq_false_iff, Bool.not_eq_false', decide_eq_false_iff_not,
      List.isPrefixOf_iff_prefix, ← String.length_toList]
    constructor
    · rintro ⟨⟨rest, hrest⟩, hlength⟩
      refine ⟨rest, hrest.symm, ?_⟩
      rintro rfl
      rw [← hrest] at hlength
      exact hlength (Nat.le_refl 2)
    · rintro ⟨rest, hrest, hne⟩
      refine ⟨⟨rest, hrest.symm⟩, ?_⟩
      rw [hrest]
      have := List.length_pos_iff.mpr hne
      simp only [List.length_cons]
      omega
  unfold validateJsonPath
  split_ifs with hbad hcontrol
  · refine iff_of_false nofun fun hboth ↦ ?_
    rw [hshape.mpr hboth.1] at hbad
    cases hbad
  · refine iff_of_false nofun fun hboth ↦ ?_
    obtain ⟨char, hchar, hbadChar⟩ := List.any_eq_true.mp hcontrol
    rw [hboth.2 char hchar] at hbadChar
    cases hbadChar
  · refine iff_of_true rfl ⟨hshape.mp (eq_false_of_ne_true hbad), fun char hchar ↦ ?_⟩
    exact eq_false_of_ne_true fun hbadChar ↦ hcontrol (List.any_eq_true.mpr ⟨char, hchar, hbadChar⟩)

/-- Two checks in sequence pass when both pass. -/
theorem bind_eq_ok {Failure : Type} {first : Except Failure Unit}
    {second : Unit → Except Failure Unit} :
    first >>= second = .ok () ↔ first = .ok () ∧ second () = .ok () := by
  cases first with
  | error failure => exact iff_of_false nofun fun hboth ↦ nomatch hboth.1
  | ok value => exact ⟨fun hsecond ↦ ⟨rfl, hsecond⟩, And.right⟩

/-- A column is accepted exactly when it is valid. -/
theorem validateGeneratedColumn_eq_ok {column : GeneratedColumn} :
    validateGeneratedColumn column = .ok () ↔ ValidColumn column := by
  unfold validateGeneratedColumn
  rw [bind_eq_ok, validateIdentifier_eq_ok]
  constructor
  · rintro ⟨hname, hrest⟩
    by_cases hsystem : column.name ∈ systemColumns
    · rw [if_pos hsystem] at hrest
      cases hrest
    rw [if_neg hsystem] at hrest
    obtain ⟨hpath, htype⟩ := bind_eq_ok.mp hrest
    by_cases hsqlType : isIdentifier column.sqlType = true
    swap
    · rw [if_neg hsqlType] at htype
      cases htype
    obtain ⟨hshape, hprintable⟩ := validateJsonPath_eq_ok.mp hpath
    exact ⟨hname, hsystem, hshape, hprintable, hsqlType⟩
  · intro hvalid
    refine ⟨hvalid.name, ?_⟩
    rw [if_neg hvalid.fresh, bind_eq_ok, if_pos hvalid.sqlType]
    exact ⟨validateJsonPath_eq_ok.mpr ⟨hvalid.path, hvalid.printable⟩, rfl⟩

/-- The columns of an index are accepted when each of them is a system column or declared. -/
theorem validateIndexColumns_eq_ok {index : String} {declared columns : List String} :
    validateIndexColumns index declared columns = .ok () ↔
      ∀ column ∈ columns, column ∈ systemColumns ∨ column ∈ declared := by
  induction columns with
  | nil => simp [validateIndexColumns]
  | cons column rest ih =>
    rw [validateIndexColumns, List.forall_mem_cons, ← ih]
    split_ifs with hunknown
    · exact iff_of_false nofun fun hboth ↦ not_or.mpr hunknown hboth.1
    · have hknown : column ∈ systemColumns ∨ column ∈ declared := by
        by_contra hneither
        exact hunknown (not_or.mp hneither)
      exact ⟨fun hrest ↦ ⟨hknown, hrest⟩, And.right⟩

/-- An index is accepted exactly when its name is an identifier and its columns are known. -/
theorem validateIndex_eq_ok {index : Index} {declared : List String} :
    validateIndex index declared = .ok () ↔ isIdentifier index.name = true ∧
      ∀ column ∈ index.columns, column ∈ systemColumns ∨ column ∈ declared := by
  unfold validateIndex
  rw [bind_eq_ok, validateIdentifier_eq_ok, validateIndexColumns_eq_ok]

end KSQLite.Schema
