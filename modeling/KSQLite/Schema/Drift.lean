import KSQLite.Naming.Template
import KSQLite.Schema.Tokens
import KSQLite.Store.Wire

/-!
# Column drift

SQLite keeps the clause of every column that was added as it is in the schema text of `_records`,
and a declared column is compared with the stored one by looking for its clause in that text. The
clause is found wherever a stored column of the same type and path has a name that ends in the
declared one (`occurs_iff`), and so the check is exact unless a drifted column has such a neighbour
(`drift_exact_iff`): with `order_status` over `$.a`, a `status` that moved to `$.a` is not noticed.
-/

set_option autoImplicit false
set_option relaxedAutoImplicit false

namespace KSQLite.Schema

open KSQLite.Naming (holds)
open KSQLite.Store (isSpace)

/-! ### The stored schema -/

/-- The schema text of `_records` before the columns that were added. -/
def schemaOpening : String :=
  "CREATE TABLE _records (\n" ++ "    message_id       TEXT    NOT NULL,\n" ++
    "    source_topic     TEXT    NOT NULL,\n" ++ "    source_partition INTEGER NOT NULL,\n" ++
    "    changelog_offset INTEGER NOT NULL,\n" ++ "    entity_key       TEXT    NOT NULL,\n" ++
    "    payload          TEXT    NOT NULL"

/-- The schema text behind them. -/
def schemaClosing : String := ",\n    UNIQUE (message_id)\n)"

/-- The schema text of `_records` with the columns that were added, in their order. -/
def storedSchema (stored : List GeneratedColumn) : String :=
  schemaOpening ++ String.join (stored.map fun column ↦ ", " ++ renderColumnClause column) ++
    schemaClosing

/-! ### What the message shows of a drifted column -/

/-- What follows a pattern. -/
def stripPrefix (pattern text : List Char) : Option (List Char) :=
  if pattern.isPrefixOf text then some (text.drop pattern.length) else none

/-- What follows one or more characters of a kind. -/
def skipSome (kind : Char → Bool) : List Char → Option (List Char)
  | [] => none
  | char :: rest => if kind char then some (rest.dropWhile kind) else none

/-- The shortest text on one line before `)\s*VIRTUAL`. -/
def upToClosing : List Char → Option (List Char)
  | [] => none
  | ')' :: rest =>
    if "VIRTUAL".toList.isPrefixOf (rest.dropWhile isSpace) then some []
    else (upToClosing rest).map (')' :: ·)
  | '\n' :: _ => none
  | char :: rest => (upToClosing rest).map (char :: ·)

section Extraction

variable (isAlnum : Char → Bool)

/-- `\w` -/
def isWordChar (char : Char) : Bool := isAlnum char || char = '_'

/-- The extraction of a column whose name starts a text. -/
def extractionAt (name text : List Char) : Option (List Char) := do
  let rest ← stripPrefix name text
  let rest ← skipSome isSpace rest
  let rest ← skipSome (isWordChar isAlnum) rest
  let rest ← skipSome isSpace rest
  let rest ← stripPrefix "GENERATED ALWAYS AS".toList rest
  let rest ← stripPrefix ['('] (rest.dropWhile isSpace)
  upToClosing rest

/-- The first extraction of a column in a text; the name starts at a word boundary. -/
def searchExtraction (name : List Char) (inWord : Bool) : List Char → Option (List Char)
  | [] => none
  | char :: rest =>
    (if inWord then none else extractionAt isAlnum name (char :: rest)) <|>
      searchExtraction name (isWordChar isAlnum char) rest

/-- The extraction of a column in the stored schema, as the message shows it. -/
def storedExtraction (name schema : String) : String :=
  ((searchExtraction isAlnum name.toList false schema.toList).map String.ofList).getD
    "<unrecognized>"

/-- `_check_column_drift`. -/
def checkColumnDrift (column : GeneratedColumn) (schema : String) : Except ConfigError Unit :=
  let clause := renderColumnClause column
  if holds schema clause then .ok ()
  else .error (.columnDrift column.name clause (storedExtraction isAlnum column.name schema))

/-- The check of a declared column tells exactly whether the stored column of its name has its type
and its path. -/
def DetectsDrift (stored : List GeneratedColumn) (column : GeneratedColumn) : Prop :=
  checkColumnDrift isAlnum column (storedSchema stored) = .ok () ↔
    ∃ other ∈ stored, other.name = column.name ∧ other.sqlType = column.sqlType ∧
      other.jsonPath = column.jsonPath

end Extraction

/-! ### Where a clause occurs -/

/-- The characters of a clause before its literal. -/
def clauseHead (column : GeneratedColumn) : List Char :=
  column.name.toList ++ ' ' :: (column.sqlType.toList ++ " GENERATED ALWAYS AS (payload->>".toList)

/-- The characters of a clause from inside its literal on, and what follows it. -/
def clauseTail (column : GeneratedColumn) (rest : List Char) : List Char :=
  double '\'' column.jsonPath.toList ++ '\'' :: (") VIRTUAL".toList ++ rest)

theorem toList_renderColumnClause_append (column : GeneratedColumn) (rest : List Char) :
    (renderColumnClause column).toList ++ rest =
      clauseHead column ++ '\'' :: clauseTail column rest := by
  simp only [renderColumnClause, escapeStringLiteral, String.toList_append, String.toList_ofList,
    clauseHead, clauseTail, List.append_assoc, List.cons_append]
  rfl

/-- The characters of the columns that were added, and of what follows them. -/
def addedText : List GeneratedColumn → List Char
  | [] => schemaClosing.toList
  | column :: rest => ", ".toList ++ (clauseHead column ++ '\'' :: clauseTail column
    (addedText rest))

theorem toList_storedSchema (stored : List GeneratedColumn) :
    (storedSchema stored).toList = schemaOpening.toList ++ addedText stored := by
  have hadded : (stored.map fun column ↦ ", " ++ renderColumnClause column).flatMap String.toList ++
      schemaClosing.toList = addedText stored := by
    induction stored with
    | nil => rfl
    | cons column rest ih =>
      rw [List.map_cons, List.flatMap_cons, List.append_assoc, ih, String.toList_append,
        List.append_assoc, toList_renderColumnClause_append]
      rfl
  rw [storedSchema, String.toList_append, String.toList_append, String.toList_join,
    List.append_assoc, hadded]

/-- No quote stands before the columns that were added. -/
theorem quote_notMem_schemaOpening : '\'' ∉ schemaOpening.toList := by
  have happend {first second : String} (hfirst : '\'' ∉ first.toList)
      (hsecond : '\'' ∉ second.toList) : '\'' ∉ (first ++ second).toList := by
    rw [String.toList_append, List.mem_append]
    exact not_or.mpr ⟨hfirst, hsecond⟩
  unfold schemaOpening
  refine happend (happend (happend (happend (happend (happend ?_ ?_) ?_) ?_) ?_) ?_) ?_ <;> simp

/-- No quote stands before the literal of a valid column. -/
theorem quote_notMem_clauseHead {column : GeneratedColumn} (hvalid : ValidColumn column) :
    '\'' ∉ clauseHead column := by
  have hword {name : String} (hname : isIdentifier name = true) : '\'' ∉ name.toList :=
    fun hmem ↦ (ne_of_isIdentifierChar (isIdentifierChar_of_mem hname _ hmem)).1 rfl
  have hfixed : '\'' ∉ " GENERATED ALWAYS AS (payload->>".toList := by decide +kernel
  simp only [clauseHead, List.mem_append, List.mem_cons, not_or]
  exact ⟨hword hvalid.name, by decide, hword hvalid.sqlType, hfixed⟩

/-- A quote of the schema text that stands between `>` and `$` opens the literal of a stored
column. -/
theorem exists_opening {stored : List GeneratedColumn}
    (hvalid : ∀ column ∈ stored, ValidColumn column) {plain front back : List Char}
    (hplain : '\'' ∉ plain) (hfront : front.getLast? ≠ some '\'') (hback : back.head? = some '$')
    (hwords : plain ++ addedText stored = front ++ '\'' :: back) :
    ∃ other ∈ stored, ∃ lead rest, front = lead ++ ' ' :: clauseHead other ∧
      back = clauseTail other rest := by
  induction stored generalizing plain front with
  | nil =>
    have hclosing : '\'' ∉ plain ++ schemaClosing.toList := by
      refine fun hmem ↦ (List.mem_append.mp hmem).elim hplain ?_
      decide +kernel
    refine absurd ?_ hclosing
    change plain ++ schemaClosing.toList = _ at hwords
    rw [hwords]
    exact List.mem_append_right _ List.mem_cons_self
  | cons column rest ih =>
    obtain ⟨hcolumn, hrest⟩ := List.forall_mem_cons.mp hvalid
    have hopening : '\'' ∉ plain ++ ", ".toList ++ clauseHead column := by
      simp only [List.mem_append, not_or]
      exact ⟨⟨hplain, by decide⟩, quote_notMem_clauseHead hcolumn⟩
    have hopened : plain ++ ", ".toList ++ clauseHead column ++
        '\'' :: clauseTail column (addedText rest) = front ++ '\'' :: back := by
      rw [← hwords]
      simp only [addedText, List.append_assoc]
    rcases cut_plain hopening hopened with ⟨rfl, rfl⟩ | ⟨later, rfl, hlater⟩
    · refine ⟨column, List.mem_cons_self, plain ++ [','], addedText rest, ?_, rfl⟩
      simp only [List.append_assoc]
      rfl
    · -- Behind the opening quote of the column, the quote is the closing one or comes later.
      have hprevious : ('\'' :: later).getLast? ≠ some '\'' := by
        rwa [List.getLast?_append_of_ne_nil _ (List.cons_ne_nil _ _)] at hfront
      have hquote : back.head? ≠ some '\'' := by
        rw [hback]
        decide
      rcases cut_double hprevious hquote hlater with ⟨_, rfl⟩ | ⟨last, rfl, hlast⟩
      · cases hback
      · have hlastFront : last.getLast? ≠ some '\'' := by
          cases last with
          | nil => exact nofun
          | cons head tail =>
            rwa [List.append_cons, ← List.cons_append,
              List.getLast?_append_of_ne_nil _ (List.cons_ne_nil _ _)] at hprevious
        have hclosed : '\'' ∉ ") VIRTUAL".toList := by decide +kernel
        obtain ⟨other, hother, lead, text, rfl, htext⟩ := ih hrest hclosed hlastFront hlast
        refine ⟨other, List.mem_cons_of_mem _ hother, ?_, text, ?_, htext⟩
        · exact plain ++ ", ".toList ++ clauseHead column ++
            '\'' :: (double '\'' column.jsonPath.toList ++ '\'' :: lead)
        · simp only [List.append_assoc, List.cons_append]

/-- A stored column has the type and the path of a declared one, and a name that ends in its name.
-/
def Resembles (column other : GeneratedColumn) : Prop :=
  column.name.toList <:+ other.name.toList ∧ other.sqlType = column.sqlType ∧
    other.jsonPath = column.jsonPath

/-- No identifier holds a space. -/
theorem space_notMem {name : String} (hname : isIdentifier name = true) : ' ' ∉ name.toList :=
  fun hmem ↦ (ne_of_isIdentifierChar (isIdentifierChar_of_mem hname _ hmem)).2 rfl

/-- What is the clause head of a column behind something is the head of a column it resembles. -/
theorem suffix_of_clauseHead {column other : GeneratedColumn} (hcolumn : ValidColumn column)
    (hother : ValidColumn other) {before lead : List Char}
    (hheads : before ++ clauseHead column = lead ++ ' ' :: clauseHead other) :
    column.name.toList <:+ other.name.toList ∧ other.sqlType = column.sqlType := by
  have hspaced : (before ++ column.name.toList) ++ ' ' :: column.sqlType.toList =
      (lead ++ ' ' :: other.name.toList) ++ ' ' :: other.sqlType.toList := by
    refine (List.append_left_inj " GENERATED ALWAYS AS (payload->>".toList).mp ?_
    simpa only [clauseHead, List.append_assoc, List.cons_append] using hheads
  obtain ⟨hnames, htypes⟩ :=
    cut_last (space_notMem hcolumn.sqlType) (space_notMem hother.sqlType) hspaced
  refine ⟨?_, (String.toList_inj.mp htypes).symm⟩
  rw [List.append_cons] at hnames
  rcases List.append_eq_append_iff.mp hnames with ⟨between, hlead, hname⟩ | ⟨between, _, hname⟩
  · cases hbetween : between.getLast? with
    | none =>
      rw [List.getLast?_eq_none_iff.mp hbetween, List.nil_append] at hname
      rw [hname]
    | some last =>
      -- A name that reaches back over the space before the other one would hold the space.
      obtain ⟨front, rfl⟩ := List.getLast?_eq_some_iff.mp hbetween
      rw [← List.append_assoc] at hlead
      obtain ⟨_, hlast⟩ := List.append_inj' hlead rfl
      obtain rfl := (List.cons.inj hlast).1
      refine absurd ?_ (space_notMem hcolumn.name)
      rw [hname]
      simp
  · exact ⟨between, hname.symm⟩

/-- The literal of a clause stands behind `>`. -/
theorem getLast_clauseHead (column : GeneratedColumn) (before : List Char) :
    (before ++ clauseHead column).getLast? = some '>' := by
  have hsplit : before ++ clauseHead column = (before ++ (column.name.toList ++ ' ' ::
      column.sqlType.toList)) ++ " GENERATED ALWAYS AS (payload->>".toList := by
    simp only [clauseHead, List.append_assoc, List.cons_append]
  rw [hsplit, List.getLast?_append_of_ne_nil _ (by decide +kernel)]
  decide +kernel

/-- The clause of a stored column stands in the schema text. -/
theorem infix_addedText {stored : List GeneratedColumn} {other : GeneratedColumn}
    (hother : other ∈ stored) : (renderColumnClause other).toList <:+: addedText stored := by
  induction stored with
  | nil => exact absurd hother List.not_mem_nil
  | cons column rest ih =>
    rw [addedText, ← toList_renderColumnClause_append]
    rcases List.mem_cons.mp hother with rfl | hrest
    · exact ⟨", ".toList, addedText rest, List.append_assoc _ _ _⟩
    · obtain ⟨before, after, hwords⟩ := ih hrest
      refine ⟨", ".toList ++ (renderColumnClause column).toList ++ before, after, ?_⟩
      rw [← hwords]
      simp only [List.append_assoc]

/-- The clause of a column ends the clause of every column it resembles. -/
theorem Resembles.suffix {column other : GeneratedColumn} (hresembles : Resembles column other) :
    (renderColumnClause column).toList <:+ (renderColumnClause other).toList := by
  obtain ⟨⟨front, hname⟩, htype, hpath⟩ := hresembles
  refine ⟨front, ?_⟩
  simp only [renderColumnClause, String.toList_append, ← hname, htype, hpath, List.append_assoc]

/-- A clause occurs in the stored schema exactly when a stored column resembles its column. -/
theorem occurs_iff {stored : List GeneratedColumn} {column : GeneratedColumn}
    (hstored : ∀ other ∈ stored, ValidColumn other) (hcolumn : ValidColumn column) :
    holds (storedSchema stored) (renderColumnClause column) = true ↔
      ∃ other ∈ stored, Resembles column other := by
  rw [holds, decide_eq_true_iff]
  constructor
  · rintro ⟨before, after, hwords⟩
    obtain ⟨path, hpath, _⟩ := hcolumn.path
    have hplain := quote_notMem_schemaOpening
    have hfront : (before ++ clauseHead column).getLast? ≠ some '\'' := by
      rw [getLast_clauseHead]
      decide
    have hback : (clauseTail column after).head? = some '$' := by
      rw [clauseTail, hpath]
      rfl
    have hcut : schemaOpening.toList ++ addedText stored =
        before ++ clauseHead column ++ '\'' :: clauseTail column after := by
      rw [← toList_storedSchema, ← hwords, List.append_assoc, toList_renderColumnClause_append,
        List.append_assoc]
    obtain ⟨other, hother, lead, rest, hhead, htail⟩ :=
      exists_opening hstored hplain hfront hback hcut
    obtain ⟨hname, htype⟩ := suffix_of_clauseHead hcolumn (hstored other hother) hhead
    have hclosed (text : List Char) : (") VIRTUAL".toList ++ text).head? ≠ some '\'' := by
      rw [List.head?_append_of_ne_nil _ (by decide +kernel)]
      decide +kernel
    obtain ⟨hpaths, _⟩ := double_inj (hclosed after) (hclosed rest) htail
    exact ⟨other, hother, hname, htype, (String.toList_inj.mp hpaths).symm⟩
  · rintro ⟨other, hother, hresembles⟩
    rw [toList_storedSchema]
    exact (hresembles.suffix.isInfix.trans (infix_addedText hother)).trans
      (List.suffix_append _ _).isInfix

/-- A column that resembles another one of its name is the same. -/
theorem Resembles.eq {column other : GeneratedColumn} (hresembles : Resembles column other)
    (hname : other.name = column.name) : other = column := by
  obtain ⟨name, jsonPath, sqlType⟩ := other
  obtain ⟨_, htype, hpath⟩ := hresembles
  cases column
  cases hname
  cases htype
  cases hpath
  rfl

/-- A column passes the check when its clause occurs. -/
theorem checkColumnDrift_eq_ok {isAlnum : Char → Bool} {column : GeneratedColumn}
    {schema : String} : checkColumnDrift isAlnum column schema = .ok () ↔
      holds schema (renderColumnClause column) = true := by
  change (if holds schema (renderColumnClause column) = true then _ else _) = _ ↔ _
  split_ifs with hoccurs
  · exact iff_of_true rfl hoccurs
  · exact iff_of_false nofun hoccurs

/-- The check of a declared column is exact unless the stored column of its name drifted and another
stored column has the declared type and path and a name that ends in the declared one.
Assumes: the stored columns and the declared one are accepted. -/
theorem drift_exact_iff {isAlnum : Char → Bool} {stored : List GeneratedColumn}
    {column : GeneratedColumn} (hstored : ∀ other ∈ stored, validateGeneratedColumn other = .ok ())
    (hcolumn : validateGeneratedColumn column = .ok ()) :
    DetectsDrift isAlnum stored column ↔
      ¬ (column ∉ stored ∧ ∃ other ∈ stored, other.name ≠ column.name ∧
        Resembles column other) := by
  have hvalid (other : GeneratedColumn) (hother : other ∈ stored) : ValidColumn other :=
    validateGeneratedColumn_eq_ok.mp (hstored other hother)
  have hsame : (∃ other ∈ stored, other.name = column.name ∧ other.sqlType = column.sqlType ∧
      other.jsonPath = column.jsonPath) ↔ column ∈ stored := by
    constructor
    · rintro ⟨⟨name, jsonPath, sqlType⟩, hother, hfields⟩
      obtain ⟨rfl, rfl, rfl⟩ := hfields
      exact hother
    · exact fun hmem ↦ ⟨column, hmem, rfl, rfl, rfl⟩
  unfold DetectsDrift
  rw [checkColumnDrift_eq_ok, occurs_iff hvalid (validateGeneratedColumn_eq_ok.mp hcolumn), hsame]
  by_cases hmem : column ∈ stored
  · refine iff_of_true (iff_of_true ⟨column, hmem, List.suffix_refl _, rfl, rfl⟩ hmem) ?_
    exact fun hdrifted ↦ hdrifted.1 hmem
  · rw [iff_false_right hmem, and_iff_right hmem, not_iff_not]
    constructor
    · rintro ⟨other, hother, hresembles⟩
      refine ⟨other, hother, fun hname ↦ hmem ?_, hresembles⟩
      rwa [hresembles.eq hname] at hother
    · rintro ⟨other, hother, _, hresembles⟩
      exact ⟨other, hother, hresembles⟩

/-- The order status of a host. -/
def orderStatus : GeneratedColumn := ⟨"order_status", "$.a", "TEXT"⟩

/-- Its status, over one path and over another one. -/
def status (path : String) : GeneratedColumn := ⟨"status", path, "TEXT"⟩

theorem drift_exact_iff_single :
    DetectsDrift Char.isAlphanum [status "$.b"] (status "$.a") := by
  have hstored : ∀ other ∈ [status "$.b"], validateGeneratedColumn other = .ok () := by decide
  refine (drift_exact_iff hstored (by decide)).mpr ?_
  rintro ⟨_, other, hother, hname, _⟩
  rw [List.mem_singleton.mp hother] at hname
  exact hname rfl

/-- The drift of a column is missed where another one has its type, its path and a longer name. -/
theorem drift_missed :
    ¬ DetectsDrift Char.isAlphanum [orderStatus, status "$.b"] (status "$.a") := by
  have hvalid (column : GeneratedColumn) (hcolumn : validateGeneratedColumn column = .ok ()) :
      ValidColumn column := validateGeneratedColumn_eq_ok.mp hcolumn
  have hstored : ∀ other ∈ [orderStatus, status "$.b"], ValidColumn other := by
    simp only [List.forall_mem_cons]
    exact ⟨hvalid _ (by decide), hvalid _ (by decide), by simp⟩
  have hresembles : Resembles (status "$.a") orderStatus := by
    refine ⟨⟨"order_".toList, ?_⟩, rfl, rfl⟩
    decide +kernel
  have hpasses : checkColumnDrift Char.isAlphanum (status "$.a")
      (storedSchema [orderStatus, status "$.b"]) = .ok () :=
    checkColumnDrift_eq_ok.mpr ((occurs_iff hstored (hvalid _ (by decide))).mpr
      ⟨orderStatus, List.mem_cons_self, hresembles⟩)
  intro hexact
  obtain ⟨other, hother, hname, _, hpath⟩ := hexact.mp hpasses
  simp only [List.mem_cons, List.not_mem_nil, or_false] at hother
  rcases hother with rfl | rfl
  · exact absurd hname (by decide)
  · exact absurd hpath (by decide)

end KSQLite.Schema
