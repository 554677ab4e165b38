import KSQLite.Schema.Ddl

/-!
# How the DDL of a column reads

`lex` reads SQL: words of letters, digits and underscores, single symbols, and string literals, in
which a doubled quote is a quote and a lone one ends the literal. The statement that adds a column
reads as its fixed words and symbols around the name, the type and one literal, whatever the JSON
path is, so the clause of a column determines the column (`emitAddColumn_reads`).
-/

set_option autoImplicit false
set_option relaxedAutoImplicit false

namespace KSQLite.Schema

/-- What SQL text is made of. -/
inductive Token
  | word (chars : List Char)
  | symbol (char : Char)
  | literal (chars : List Char)
  deriving DecidableEq

/-- Where the reading of a text is: behind the characters of a word, or in a literal. -/
inductive Lexing
  | text (read : List Char)
  | literal (read : List Char)

/-- The word that ends here, if there is one. -/
def flush : List Char → List Token
  | [] => []
  | head :: tail => [.word (head :: tail)]

/-- Read a text. A literal that does not end has no reading. -/
def lex : Lexing → List Char → Option (List Token)
  | .text read, [] => some (flush read)
  | .text read, '\'' :: rest => (lex (.literal []) rest).map (flush read ++ ·)
  | .text read, char :: rest =>
    if isIdentifierChar char then lex (.text (read ++ [char])) rest
    else if char = ' ' then (lex (.text []) rest).map (flush read ++ ·)
    else (lex (.text []) rest).map fun tokens ↦ flush read ++ .symbol char :: tokens
  | .literal _, [] => none
  | .literal read, '\'' :: '\'' :: rest => lex (.literal (read ++ ['\''])) rest
  | .literal read, '\'' :: rest => (lex (.text []) rest).map (.literal read :: ·)
  | .literal read, char :: rest => lex (.literal (read ++ [char])) rest

/-- What the clause of a column reads as. -/
def clause (column : GeneratedColumn) : List Token :=
  [column.name, column.sqlType, "GENERATED", "ALWAYS", "AS"].map (fun word ↦ .word word.toList) ++
    [.symbol '(', .word "payload".toList, .symbol '-', .symbol '>', .symbol '>',
      .literal column.jsonPath.toList, .symbol ')', .word "VIRTUAL".toList]

/-- What the statement that adds a column reads as. -/
def statement (column : GeneratedColumn) : List Token :=
  ["ALTER", "TABLE", "_records", "ADD", "COLUMN"].map (fun word ↦ .word word.toList) ++
    clause column

variable {read word rest : List Char}

/-- A quote is no character of a word, and neither is a space. -/
theorem ne_of_isIdentifierChar {char : Char} (hchar : isIdentifierChar char = true) :
    char ≠ '\'' ∧ char ≠ ' ' := by
  constructor <;>
  · rintro rfl
    revert hchar
    decide

theorem lex_char {char : Char} (hquote : char ≠ '\'') : lex (.text read) (char :: rest) =
    if isIdentifierChar char then lex (.text (read ++ [char])) rest
    else if char = ' ' then (lex (.text []) rest).map (flush read ++ ·)
    else (lex (.text []) rest).map fun tokens ↦ flush read ++ .symbol char :: tokens := by
  rw [lex]
  exact fun hsame ↦ hquote hsame

/-- The characters of a word are read one after another. -/
theorem lex_word (hword : ∀ char ∈ word, isIdentifierChar char = true) :
    lex (.text read) (word ++ rest) = lex (.text (read ++ word)) rest := by
  induction word generalizing read with
  | nil => rw [List.nil_append, List.append_nil]
  | cons char tail ih =>
    obtain ⟨hchar, htail⟩ := List.forall_mem_cons.mp hword
    rw [List.cons_append, lex_char (ne_of_isIdentifierChar hchar).1, if_pos hchar, ih htail,
      List.append_assoc]
    rfl

/-- A space ends a word. -/
theorem lex_space : lex (.text read) (' ' :: rest) =
    (lex (.text []) rest).map (flush read ++ ·) := by
  rw [lex_char (by decide), if_neg (by decide), if_pos rfl]

/-- A symbol ends a word. -/
theorem lex_symbol {char : Char} (hquote : char ≠ '\'') (hspace : char ≠ ' ')
    (hchar : isIdentifierChar char = false) : lex (.text read) (char :: rest) =
      (lex (.text []) rest).map fun tokens ↦ flush read ++ .symbol char :: tokens := by
  rw [lex_char hquote, if_neg (by rw [hchar]; exact Bool.false_ne_true), if_neg hspace]

/-- Every character of an identifier is one of a word. -/
theorem isIdentifierChar_of_mem {name : String} (hname : isIdentifier name = true) :
    ∀ char ∈ name.toList, isIdentifierChar char = true := by
  unfold isIdentifier at hname
  cases hchars : name.toList with
  | nil => exact fun _ hchar ↦ absurd hchar List.not_mem_nil
  | cons head tail =>
    rw [hchars] at hname
    obtain ⟨hhead, htail⟩ := (Bool.and_eq_true _ _).mp hname
    refine List.forall_mem_cons.mpr ⟨?_, List.all_eq_true.mp htail⟩
    rw [isIdentifierChar, hhead, Bool.true_or]

theorem flush_of_isIdentifier {name : String} (hname : isIdentifier name = true) :
    flush name.toList = [.word name.toList] := by
  unfold isIdentifier at hname
  cases hchars : name.toList with
  | nil =>
    rw [hchars] at hname
    cases hname
  | cons head tail => rfl

/-- Words with spaces between them are read one after another. -/
theorem lex_words {words : List String} (hwords : ∀ word ∈ words, isIdentifier word = true) :
    lex (.text []) (words.flatMap (fun word ↦ word.toList ++ [' ']) ++ rest) =
      (lex (.text []) rest).map (words.map (fun word ↦ .word word.toList) ++ ·) := by
  induction words with
  | nil => simp
  | cons first later ih =>
    obtain ⟨hfirst, hlater⟩ := List.forall_mem_cons.mp hwords
    rw [List.flatMap_cons, List.append_assoc, List.append_assoc,
      lex_word (isIdentifierChar_of_mem hfirst), List.singleton_append, lex_space, ih hlater,
      List.nil_append, flush_of_isIdentifier hfirst, Option.map_map]
    rfl

/-- A lone quote ends a literal. -/
theorem lex_close (hrest : rest.head? ≠ some '\'') : lex (.literal read) ('\'' :: rest) =
    (lex (.text []) rest).map (.literal read :: ·) := by
  cases rest with
  | nil => rfl
  | cons char tail =>
    have hchar : char ≠ '\'' := fun hsame ↦ hrest (hsame ▸ rfl)
    exact lex.eq_6 read (char :: tail) fun _ hsame ↦ hchar (List.cons.inj hsame).1

/-- A literal reads as the word whose quotes it doubles. -/
theorem lex_literal (hrest : rest.head? ≠ some '\'') :
    lex (.literal read) (double '\'' word ++ '\'' :: rest) =
      (lex (.text []) rest).map (.literal (read ++ word) :: ·) := by
  induction word generalizing read with
  | nil =>
    rw [List.append_nil]
    exact lex_close hrest
  | cons char tail ih =>
    by_cases hchar : char = '\''
    · subst hchar
      rw [double_cons_self]
      change lex (.literal (read ++ ['\''])) (double '\'' tail ++ '\'' :: rest) = _
      rw [ih, List.append_assoc]
      rfl
    · rw [double_cons_of_ne hchar, List.cons_append, lex, ih, List.append_assoc]
      · rfl
      · exact fun _ hsame ↦ absurd hsame hchar
      · exact hchar

/-! ### The statement of a column -/

/-- The characters of the clause of a column. -/
theorem toList_renderColumnClause (column : GeneratedColumn) :
    (renderColumnClause column).toList = [column.name, column.sqlType, "GENERATED", "ALWAYS",
        "AS"].flatMap (fun word ↦ word.toList ++ [' ']) ++ ("(payload->>'".toList ++
      (double '\'' column.jsonPath.toList ++ '\'' :: ") VIRTUAL".toList)) := by
  simp only [renderColumnClause, escapeStringLiteral, String.toList_append, String.toList_ofList,
    List.flatMap_cons, List.flatMap_nil, List.append_assoc, List.append_nil]
  rfl

/-- The clause of a valid column reads as its words and its literal. -/
theorem lex_renderColumnClause {column : GeneratedColumn} (hvalid : ValidColumn column) :
    lex (.text []) (renderColumnClause column).toList = some (clause column) := by
  have hwords : ∀ word ∈ [column.name, column.sqlType, "GENERATED", "ALWAYS", "AS"],
      isIdentifier word = true := by
    simp only [List.forall_mem_cons]
    exact ⟨hvalid.name, hvalid.sqlType, by decide +kernel, by decide +kernel, by decide +kernel,
      by simp⟩
  have hopen (rest : List Char) : lex (.text []) ("(payload->>'".toList ++ rest) =
      (lex (.literal []) rest).map ([.symbol '(', .word "payload".toList, .symbol '-', .symbol '>',
        .symbol '>'] ++ ·) := by
    change lex (.text []) ('(' :: ("payload".toList ++ '-' :: '>' :: '>' :: '\'' :: rest)) = _
    rw [lex_symbol (by decide) (by decide) (by decide),
      lex_word (List.all_eq_true.mp (by decide +kernel)),
      lex_symbol (by decide) (by decide) (by decide),
      lex_symbol (by decide) (by decide) (by decide),
      lex_symbol (by decide) (by decide) (by decide), lex]
    simp only [Option.map_map]
    rfl
  rw [toList_renderColumnClause, lex_words hwords, hopen, lex_literal (by decide)]
  rfl

/-- The statement that adds a valid column reads as its words and its literal. -/
theorem lex_emitAddColumn {column : GeneratedColumn} (hvalid : ValidColumn column) :
    lex (.text []) (emitAddColumn column).toList = some (statement column) := by
  have hwords : ∀ word ∈ ["ALTER", "TABLE", "_records", "ADD", "COLUMN"],
      isIdentifier word = true := by decide +kernel
  have hfixed : "ALTER TABLE _records ADD COLUMN ".toList = ["ALTER", "TABLE", "_records", "ADD",
      "COLUMN"].flatMap (fun word ↦ word.toList ++ [' ']) := by decide +kernel
  have hchars : (emitAddColumn column).toList =
      "ALTER TABLE _records ADD COLUMN ".toList ++ (renderColumnClause column).toList :=
    String.toList_append
  simp only [hchars, hfixed, lex_words hwords, lex_renderColumnClause hvalid, Option.map_some,
    statement]

/-- The only literal of the statement is the JSON path. -/
theorem literal_mem_statement {column : GeneratedColumn} {chars : List Char} :
    .literal chars ∈ statement column ↔ chars = column.jsonPath.toList := by
  simp [statement, clause]

/-- No symbol of the statement ends a statement. -/
theorem terminator_notMem_statement (column : GeneratedColumn) :
    .symbol ';' ∉ statement column := by
  simp [statement, clause]

/-- The clause of a valid column determines it. -/
theorem renderColumnClause_inj {first second : GeneratedColumn} (hfirst : ValidColumn first)
    (hsecond : ValidColumn second) (hclause : renderColumnClause first =
      renderColumnClause second) :
    first = second := by
  have hreads := lex_renderColumnClause hfirst
  rw [hclause, lex_renderColumnClause hsecond] at hreads
  have htokens := Option.some.inj hreads
  obtain ⟨name, jsonPath, sqlType⟩ := first
  obtain ⟨otherName, otherPath, otherType⟩ := second
  simp only [clause, List.map_cons, List.map_nil, List.cons_append, List.nil_append,
    List.cons.injEq,
    Token.word.injEq, Token.literal.injEq,
    String.toList_inj] at htokens
  obtain ⟨hname, htype, _, _, _, _, _, _, _, _, hpath, _⟩ := htokens
  rw [hname, htype, hpath]

/-- The statement that adds an accepted column reads as one statement, whose only literal is the
JSON path as it is, and the clause of an accepted column determines the column. -/
theorem emitAddColumn_reads {column : GeneratedColumn}
    (haccepted : validateGeneratedColumn column = .ok ()) :
    lex (.text []) (emitAddColumn column).toList = some (statement column) ∧
      (∀ chars, .literal chars ∈ statement column ↔ chars = column.jsonPath.toList) ∧
      .symbol ';' ∉ statement column ∧
      ∀ other, validateGeneratedColumn other = .ok () →
        renderColumnClause column = renderColumnClause other → column = other := by
  have hvalid := validateGeneratedColumn_eq_ok.mp haccepted
  refine ⟨lex_emitAddColumn hvalid, fun _ ↦ literal_mem_statement,
    terminator_notMem_statement column, fun other hother hclause ↦ ?_⟩
  exact renderColumnClause_inj hvalid (validateGeneratedColumn_eq_ok.mp hother) hclause

theorem emitAddColumn_reads_quoted :
    lex (.text []) (emitAddColumn ⟨"owner", "$.o'hara''", "TEXT"⟩).toList =
      some (statement ⟨"owner", "$.o'hara''", "TEXT"⟩) :=
  (emitAddColumn_reads (by decide)).1

end KSQLite.Schema
