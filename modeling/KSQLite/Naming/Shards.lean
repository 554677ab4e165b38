import KSQLite.Naming.Template
import KSQLite.Naming.Words

/-!
# The changelogs of two shards

A template is separated when some stretch of it, between two characters that are no digits, carries
one of the two placeholders and not the other. The characters that are no digits come from the
template and from the topics, so two equal names have equally many of them in both topics, and are
cut alike at those of the template; the stretch then fixes one of the lengths, and with it the other
(`eq_of_separated`). A template that carries both placeholders once, with only digits between them,
gives two shards one name wherever the digits overlap with themselves and there is room for the
overlap (`distinct_names`): with nothing between them, partition 2 of `a1` and partition 12 of `a`
are the same changelog (`adjacent_collide`).
-/

set_option autoImplicit false
set_option relaxedAutoImplicit false

namespace KSQLite.Naming

open KSQLite.Store (TopicPartition isTopicName isTopicNameChar)

/-! ### Separated templates -/

/-- A character that is no digit. -/
def isOther (char : Char) : Bool := !char.isDigit

/-- A character that is no digit: it cuts the names of all shards alike. -/
def Cuts : Piece → Prop
  | .literal char => char.isDigit = false
  | _ => False

/-- Some stretch between two cuts carries one placeholder and not the other. -/
def Separated (template : List Piece) : Prop :=
  ∃ before stretch after, template = before ++ stretch ++ after ∧
    (∀ piece ∈ before.getLast?, Cuts piece) ∧ (∀ piece ∈ after.head?, Cuts piece) ∧
    (.topic ∈ stretch ∧ .partition ∉ stretch ∨ .partition ∈ stretch ∧ .topic ∉ stretch)

/-- All pieces but the two placeholders format to the same text for both shards. -/
def Alike (rendering : Rendering) (template : List Piece) (first second : TopicPartition) : Prop :=
  ∀ piece ∈ template, piece ≠ .topic → piece ≠ .partition →
    piece.format rendering first = piece.format rendering second

/-- A shard: a topic with a legal name, and a partition. -/
def IsShard (source : TopicPartition) : Prop :=
  isTopicName source.topic = true ∧ 0 ≤ source.partition

/-- Two shards that are not the same do not have one changelog. -/
def Distinct (rendering : Rendering) (template : String) (first second : TopicPartition) : Prop :=
  IsShard first → IsShard second → first ≠ second → ∀ name other,
    changelogName rendering template first = .ok name →
    changelogName rendering template second = .ok other → name ≠ other

section Formatting

variable {rendering : Rendering} {source first second : TopicPartition} {template : List Piece}

/-- The text of a piece, where it has one. -/
def text (rendering : Rendering) (source : TopicPartition) (piece : Piece) : List Char :=
  (piece.format rendering source).toOption.getD []

@[simp] theorem text_literal (char : Char) : text rendering source (.literal char) = [char] := rfl

@[simp] theorem text_topic : text rendering source .topic = source.topic.toList := rfl

@[simp] theorem text_partition :
    text rendering source .partition = (toString source.partition).toList := rfl

/-- What a template formats to is the texts of its pieces. -/
theorem eq_flatMap_of_formatAll {word : List Char}
    (hword : formatAll rendering source template = .ok word) :
    word = template.flatMap (text rendering source) := by
  induction template generalizing word with
  | nil => exact (Except.ok.inj hword).symm
  | cons piece rest ih =>
    change (piece.format rendering source >>= fun text ↦
      formatAll rendering source rest >>= fun texts ↦ pure (text ++ texts)) = .ok word at hword
    cases hpiece : piece.format rendering source with
    | error cause =>
      rw [hpiece] at hword
      cases hword
    | ok head =>
      cases hrest : formatAll rendering source rest with
      | error cause =>
        rw [hpiece, hrest] at hword
        cases hword
      | ok texts =>
        rw [hpiece, hrest] at hword
        obtain rfl := Except.ok.inj hword
        rw [List.flatMap_cons, ← ih hrest, text, hpiece]
        rfl

/-- A template of text and placeholders formats to the texts of its pieces. -/
theorem formatAll_eq (htemplate : ∀ piece ∈ template,
      (∃ char, piece = .literal char) ∨ piece = .topic ∨ piece = .partition) :
    formatAll rendering source template = .ok (template.flatMap (text rendering source)) := by
  induction template with
  | nil => rfl
  | cons piece rest ih =>
    have hrest := ih fun other hother ↦ htemplate other (List.mem_cons_of_mem _ hother)
    have hpiece : piece.format rendering source = .ok (text rendering source piece) := by
      rcases htemplate piece List.mem_cons_self with ⟨char, rfl⟩ | rfl | rfl <;> rfl
    change (piece.format rendering source >>= fun text ↦
      formatAll rendering source rest >>= fun texts ↦ pure (text ++ texts)) = _
    rw [hpiece, hrest]
    rfl

/-- A changelog name is legal, and it is the texts of the pieces. -/
theorem changelogName_eq_ok {format name : String}
    (hname : changelogName rendering format source = .ok name) :
    name.toList = (pieces format).flatMap (text rendering source) ∧ isTopicName name = true := by
  unfold changelogName KSQLite.Naming.format at hname
  cases hword : formatAll rendering source (pieces format) with
  | error cause =>
    rw [hword] at hname
    cases hname
  | ok word =>
    rw [hword] at hname
    change (if isTopicName (String.ofList word) then _ else _) = Except.ok name at hname
    split_ifs at hname with hlegal
    obtain rfl := Except.ok.inj hname
    exact ⟨String.toList_ofList.trans (eq_flatMap_of_formatAll hword), hlegal⟩

/-- The text of a partition is a decimal number. -/
theorem text_partition_eq (hpartition : 0 ≤ source.partition) :
    text rendering source .partition = Nat.toDigits 10 source.partition.toNat := by
  rw [text_partition]
  obtain ⟨number, hnumber⟩ := Int.eq_ofNat_of_zero_le hpartition
  rw [hnumber]
  exact Nat.toList_repr

/-- The digits of a partition are digits. -/
theorem countP_partition (hpartition : 0 ≤ source.partition) :
    (text rendering source .partition).countP isOther = 0 := by
  rw [text_partition_eq hpartition, List.countP_eq_zero]
  intro char hchar
  simp [isOther, Nat.isDigit_of_mem_toDigits (by decide) (by decide) hchar]

/-- Shards whose placeholders read alike are the same. -/
theorem eq_of_texts (hfirst : 0 ≤ first.partition) (hsecond : 0 ≤ second.partition)
    (htopic : text rendering first .topic = text rendering second .topic)
    (hpartition : text rendering first .partition = text rendering second .partition) :
    first = second := by
  rw [text_partition_eq hfirst, text_partition_eq hsecond] at hpartition
  have hvalue := congrArg (fun digits ↦ Nat.ofDigitChars 10 digits 0) hpartition
  simp only [Nat.ofDigitChars_ten_toDigits] at hvalue
  have htopics : first.topic = second.topic := String.toList_inj.mp htopic
  have hpartitions : first.partition = second.partition := by omega
  cases first
  cases second
  exact Store.TopicPartition.mk.injEq _ _ _ _ ▸ ⟨htopics, hpartitions⟩

/-- A cut is a character of the name. -/
theorem exists_of_cuts {piece : Piece} (hcuts : Cuts piece) :
    ∃ char : Char, piece = .literal char ∧ char.isDigit = false := by
  cases piece with
  | literal char => exact ⟨char, rfl, hcuts⟩
  | _ => exact hcuts.elim

/-- Where all pieces have equally many characters that are no digits on both sides, the stretches
between two cuts read alike. -/
theorem stretch_eq {before stretch after : List Piece}
    (hcounts : ∀ piece ∈ before ++ stretch ++ after,
      (text rendering first piece).countP isOther =
        (text rendering second piece).countP isOther)
    (hbefore : ∀ piece ∈ before.getLast?, Cuts piece)
    (hafter : ∀ piece ∈ after.head?, Cuts piece)
    (hwords : (before ++ stretch ++ after).flatMap (text rendering first) =
      (before ++ stretch ++ after).flatMap (text rendering second)) :
    stretch.flatMap (text rendering first) = stretch.flatMap (text rendering second) := by
  have hcount (part : List Piece) (hpart : ∀ piece ∈ part, piece ∈ before ++ stretch ++ after) :
      (part.flatMap (text rendering first)).countP isOther =
        (part.flatMap (text rendering second)).countP isOther := by
    rw [List.countP_flatMap, List.countP_flatMap]
    exact congrArg List.sum (List.map_congr_left fun piece hpiece ↦
      hcounts piece (hpart piece hpiece))
  have hrest : (stretch ++ after).flatMap (text rendering first) =
      (stretch ++ after).flatMap (text rendering second) := by
    rcases List.eq_nil_or_concat before with rfl | ⟨front, last, rfl⟩
    · simpa using hwords
    · rw [List.concat_eq_append] at hbefore hwords hcount
      obtain ⟨char, rfl, hchar⟩ := exists_of_cuts (hbefore last (by simp))
      have hmark : isOther char = true := by simp [isOther, hchar]
      simp only [List.append_assoc, List.singleton_append, List.flatMap_append, List.flatMap_cons,
        text_literal] at hwords
      rw [List.flatMap_append, List.flatMap_append]
      exact (eq_of_append_cons hmark hmark (hcount front fun piece hpiece ↦ by simp [hpiece])
        hwords).2
  cases after with
  | nil => simpa using hrest
  | cons head tail =>
    obtain ⟨char, rfl, hchar⟩ := exists_of_cuts (hafter head rfl)
    simp only [List.flatMap_append, List.flatMap_cons, text_literal, List.singleton_append] at hrest
    have hmark : isOther char = true := by simp [isOther, hchar]
    exact (eq_of_append_cons hmark hmark (hcount stretch fun piece hpiece ↦ by simp [hpiece])
      hrest).1

/-- A separated template gives two shards one name only where they are the same. -/
theorem eq_of_separated (hseparated : Separated template) (htopic : .topic ∈ template)
    (hpartition : .partition ∈ template) (halike : Alike rendering template first second)
    (hfirst : 0 ≤ first.partition) (hsecond : 0 ≤ second.partition)
    (hwords : template.flatMap (text rendering first) = template.flatMap (text rendering second)) :
    first = second := by
  have hother : ∀ piece ∈ template, piece ≠ .topic → piece ≠ .partition →
      text rendering first piece = text rendering second piece := by
    intro piece hpiece hnot hneither
    rw [text, text, halike piece hpiece hnot hneither]
  -- The partitions are digits: both topics have equally many other characters.
  have hcounts : ∀ piece ∈ template,
      (text rendering first piece).countP isOther =
        (text rendering second piece).countP isOther := by
    have hrest : ∀ piece ∈ template, piece ≠ .topic →
        (text rendering first piece).countP isOther =
          (text rendering second piece).countP isOther := by
      intro piece hpiece hnot
      by_cases hdigits : piece = .partition
      · rw [hdigits, countP_partition hfirst, countP_partition hsecond]
      · rw [hother piece hpiece hnot hdigits]
    intro piece hpiece
    by_cases hsame : piece = .topic
    · rw [hsame]
      exact countP_eq_of_flatMap htopic hrest (by rw [hwords])
    · exact hrest piece hpiece hsame
  obtain ⟨before, stretch, after, rfl, hbefore, hafter, hkinds⟩ := hseparated
  have hstretch := stretch_eq hcounts hbefore hafter hwords
  have hin : ∀ piece ∈ stretch, piece ∈ before ++ stretch ++ after := fun piece hpiece ↦ by
    simp [hpiece]
  have hlengths : ∀ piece ∈ before ++ stretch ++ after,
      (text rendering first piece).length = (text rendering second piece).length := by
    have hneither : ∀ piece ∈ before ++ stretch ++ after, piece ≠ .topic → piece ≠ .partition →
        (text rendering first piece).length = (text rendering second piece).length :=
      fun piece hpiece hnot hdigits ↦ by rw [hother piece hpiece hnot hdigits]
    have hboth : (text rendering first .topic).length = (text rendering second .topic).length ∧
        (text rendering first .partition).length = (text rendering second .partition).length := by
      rcases hkinds with ⟨hmember, hnone⟩ | ⟨hmember, hnone⟩
      · have htopics := length_eq_of_flatMap hmember (fun piece hpiece hnot ↦
          hneither piece (hin piece hpiece) hnot fun hsame ↦ hnone (hsame ▸ hpiece)) hstretch
        refine ⟨htopics, length_eq_of_flatMap hpartition (fun piece hpiece hnot ↦ ?_) hwords⟩
        by_cases hsame : piece = .topic
        · rw [hsame, htopics]
        · exact hneither piece hpiece hsame hnot
      · have hpartitions := length_eq_of_flatMap hmember (fun piece hpiece hnot ↦
          hneither piece (hin piece hpiece) (fun hsame ↦ hnone (hsame ▸ hpiece)) hnot) hstretch
        refine ⟨length_eq_of_flatMap htopic (fun piece hpiece hnot ↦ ?_) hwords, hpartitions⟩
        by_cases hsame : piece = .partition
        · rw [hsame, hpartitions]
        · exact hneither piece hpiece hnot hsame
    intro piece hpiece
    by_cases htop : piece = .topic
    · rw [htop, hboth.1]
    · by_cases hdigits : piece = .partition
      · rw [hdigits, hboth.2]
      · exact hneither piece hpiece htop hdigits
  have htexts := eq_of_flatMap hlengths hwords
  exact eq_of_texts hfirst hsecond (htexts .topic htopic) (htexts .partition hpartition)

end Formatting

/-! ### Templates with each placeholder once -/

/-- A template that carries each placeholder once. -/
def once (lead : List Char) (left : Piece) (gap : List Char) (right : Piece) (tail : List Char) :
    List Piece :=
  lead.map .literal ++ left :: (gap.map .literal ++ right :: tail.map .literal)

/-- The digits between the placeholders overlap with themselves, and a legal name has room for the
overlap. -/
def HasRoom (lead gap tail : List Char) (shift : ℕ) : Prop :=
  0 < shift ∧ Overlaps gap shift ∧ (∀ char ∈ gap, char.isDigit = true) ∧
    (∀ char ∈ lead ++ tail, isTopicNameChar char = true) ∧
    lead.length + gap.length + tail.length + shift + 2 ≤ 249

section Once

variable {rendering : Rendering} {source first second : TopicPartition}
  {lead gap tail : List Char} {left right : Piece}

/-- The two placeholders, in either order. -/
def Placeholders (left right : Piece) : Prop :=
  left = .topic ∧ right = .partition ∨ left = .partition ∧ right = .topic

theorem flatMap_literal (word : List Char) :
    (word.map .literal).flatMap (text rendering source) = word := by
  rw [List.flatMap_map]
  exact List.flatMap_singleton' word

theorem flatMap_once : (once lead left gap right tail).flatMap (text rendering source) =
    lead ++ (text rendering source left ++ (gap ++ (text rendering source right ++ tail))) := by
  simp only [once, List.flatMap_append, List.flatMap_cons, flatMap_literal]

theorem mem_once {piece : Piece} (hpiece : piece ∈ once lead left gap right tail) :
    (∃ char, piece = .literal char) ∨ piece = left ∨ piece = right := by
  simp only [once, List.mem_append, List.mem_cons, List.mem_map] at hpiece
  rcases hpiece with ⟨char, _, rfl⟩ | rfl | ⟨char, _, rfl⟩ | rfl | ⟨char, _, rfl⟩
  · exact Or.inl ⟨char, rfl⟩
  · exact Or.inr (Or.inl rfl)
  · exact Or.inl ⟨char, rfl⟩
  · exact Or.inr (Or.inr rfl)
  · exact Or.inl ⟨char, rfl⟩

/-- Nothing but the placeholders depends on the shard. -/
theorem alike_once (hsides : Placeholders left right) :
    Alike rendering (once lead left gap right tail) first second := by
  intro piece hpiece htopic hpartition
  rcases mem_once hpiece with ⟨char, rfl⟩ | rfl | rfl
  · rfl
  · rcases hsides with ⟨rfl, _⟩ | ⟨rfl, _⟩
    · exact absurd rfl htopic
    · exact absurd rfl hpartition
  · rcases hsides with ⟨_, rfl⟩ | ⟨_, rfl⟩
    · exact absurd rfl hpartition
    · exact absurd rfl htopic

/-- A character between the placeholders that is no digit separates them. -/
theorem separated_once (hsides : Placeholders left right) {char : Char} (hchar : char ∈ gap)
    (hother : char.isDigit = false) : Separated (once lead left gap right tail) := by
  obtain ⟨front, back, rfl⟩ := List.append_of_mem hchar
  refine ⟨[], lead.map .literal ++ left :: front.map .literal,
    .literal char :: (back.map .literal ++ right :: tail.map .literal), ?_, nofun, ?_, ?_⟩
  · simp [once]
  · intro piece hpiece
    obtain rfl := Option.some.inj hpiece
    exact hother
  · rcases hsides with ⟨rfl, rfl⟩ | ⟨rfl, rfl⟩
    · left
      simp
    · right
      simp

/-- A legal topic name, by its characters. -/
theorem isTopicName_ofList {word : List Char} (hlegal : ∀ char ∈ word, isTopicNameChar char = true)
    (hletter : ∃ char ∈ word, char ≠ '.') (hlength : word.length ≤ 249) :
    isTopicName (String.ofList word) = true := by
  obtain ⟨char, hchar, hne⟩ := hletter
  have hdot : String.ofList word ≠ "." := by
    intro hsame
    have hword : word = ['.'] := by simpa using congrArg String.toList hsame
    rw [hword, List.mem_singleton] at hchar
    exact hne hchar
  have hdots : String.ofList word ≠ ".." := by
    intro hsame
    have hword : word = ['.', '.'] := by simpa using congrArg String.toList hsame
    rw [hword, List.mem_pair, or_self] at hchar
    exact hne hchar
  have hempty : word ≠ [] := List.ne_nil_of_mem hchar
  simpa [isTopicName, hdot, hdots, hempty, hlength] using hlegal

theorem of_isTopicName {name : String} (hname : isTopicName name = true) :
    (∀ char ∈ name.toList, isTopicNameChar char = true) ∧ 0 < name.toList.length ∧
      name.toList.length ≤ 249 := by
  simp only [isTopicName, Bool.not_eq_true', Bool.or_eq_false_iff, decide_eq_false_iff_not,
    Bool.not_eq_false', List.all_eq_true] at hname
  obtain ⟨⟨⟨_, hlength⟩, hempty⟩, hlegal⟩ := hname
  refine ⟨hlegal, ?_, ?_⟩
  · refine List.length_pos_of_ne_nil fun hnil ↦ ?_
    simp [String.toList_eq_nil_iff.mp hnil] at hempty
  · rw [String.length_toList]
    omega

/-- The placeholders of a shard are not empty. -/
theorem text_pos {piece : Piece} (hshard : IsShard source)
    (hpiece : piece = .topic ∨ piece = .partition) : 0 < (text rendering source piece).length := by
  rcases hpiece with rfl | rfl
  · exact (of_isTopicName hshard.1).2.1
  · rw [text_partition_eq hshard.2]
    exact Nat.length_toDigits_pos

/-- Two shards with one name, the first with the shorter text on the left: the digits between the
placeholders overlap. -/
theorem exists_room (hsides : Placeholders left right) (hfirst : IsShard first)
    (hsecond : IsShard second) (hgap : ∀ char ∈ gap, char.isDigit = true)
    (hwords : (once lead left gap right tail).flatMap (text rendering first) =
      (once lead left gap right tail).flatMap (text rendering second))
    (hlegal : ∀ char ∈ (once lead left gap right tail).flatMap (text rendering second),
      isTopicNameChar char = true)
    (hlength : ((once lead left gap right tail).flatMap (text rendering second)).length ≤ 249)
    (hlt : (text rendering first left).length < (text rendering second left).length) :
    ∃ shift, HasRoom lead gap tail shift ∧
      (left = .topic → shift ≤ gap.length → (gap)[gap.length - shift]? ≠ some '0') := by
  rw [flatMap_once] at hlegal hlength
  rw [flatMap_once, flatMap_once, List.append_cancel_left_eq] at hwords
  have hcore : text rendering first left ++ (gap ++ text rendering first right) =
      text rendering second left ++ (gap ++ text rendering second right) := by
    have hall : text rendering first left ++ (gap ++ text rendering first right) ++ tail =
        text rendering second left ++ (gap ++ text rendering second right) ++ tail := by
      simpa only [List.append_assoc] using hwords
    exact List.append_cancel_right hall
  obtain ⟨front, hleft, hrest⟩ : ∃ front,
      text rendering second left = text rendering first left ++ front ∧
      gap ++ text rendering first right = front ++ (gap ++ text rendering second right) := by
    rcases List.append_eq_append_iff.mp hcore with hlonger | ⟨front, hshorter, _⟩
    · exact hlonger
    · have hlengths := congrArg List.length hshorter
      rw [List.length_append] at hlengths
      omega
  have hfront : 0 < front.length := by
    have hlengths := congrArg List.length hleft
    rw [List.length_append] at hlengths
    omega
  obtain ⟨hoverlaps, hhead⟩ := overlaps_of_append hfront hrest
  have hlengths := congrArg List.length hrest
  simp only [List.length_append] at hlengths hlength
  have hleftPos : 0 < (text rendering first left).length :=
    text_pos hfirst (hsides.imp And.left And.left)
  have hrightPos : 0 < (text rendering second right).length :=
    text_pos hsecond (hsides.symm.imp And.right And.right)
  refine ⟨front.length, ⟨hfront, hoverlaps, hgap, fun char hchar ↦ hlegal char ?_, ?_⟩,
    fun htopic hle hzero ↦ ?_⟩
  · simp only [List.mem_append] at hchar ⊢
    grind
  · rw [hleft, List.length_append] at hlength
    omega
  · -- The first partition has the longer text, so it does not start with a zero.
    obtain rfl : right = .partition := by
      rcases hsides with ⟨_, hright⟩ | ⟨hleft, _⟩
      · exact hright
      · cases htopic.symm.trans hleft
    have hlong : 1 < (text rendering first .partition).length := by omega
    rw [← hhead hle] at hzero
    rw [text_partition_eq hfirst.2] at hlong hzero
    exact head_toDigits_ne_zero hlong '0' hzero rfl

/-- The placeholders of a shard are formatted, and the name is checked. -/
theorem changelogName_once {template : String} {word : List Char} (hsides : Placeholders left right)
    (htemplate : pieces template = once lead left gap right tail)
    (hword : word = (once lead left gap right tail).flatMap (text rendering source))
    (hlegal : isTopicName (String.ofList word) = true) :
    changelogName rendering template source = .ok (String.ofList word) := by
  have hplain : ∀ piece ∈ once lead left gap right tail,
      (∃ char, piece = .literal char) ∨ piece = .topic ∨ piece = .partition := by
    intro piece hpiece
    rcases mem_once hpiece with hliteral | rfl | rfl
    · exact Or.inl hliteral
    · exact Or.inr (hsides.imp And.left And.left)
    · exact Or.inr (hsides.symm.imp And.right And.right)
  rw [changelogName, KSQLite.Naming.format, htemplate, formatAll_eq hplain, ← hword]
  change (if isTopicName (String.ofList word) then _ else _) = _
  rw [if_pos hlegal]

/-- A digit is a character of a topic name. -/
theorem isTopicNameChar_of_isDigit {char : Char} (hdigit : char.isDigit = true) :
    isTopicNameChar char = true := by
  simp only [Char.isDigit, Bool.and_eq_true, decide_eq_true_eq] at hdigit
  simp only [isTopicNameChar, Bool.or_eq_true, Bool.and_eq_true, decide_eq_true_eq]
  exact Or.inl (Or.inl (Or.inl (Or.inr hdigit)))

/-- A digit word without a leading zero is the text of a partition. -/
theorem exists_partition {digits : List Char} (hdigits : ∀ char ∈ digits, char.isDigit = true)
    (hhead : ∀ char ∈ digits.head?, char ≠ '0') (hne : digits ≠ []) (topic : String) :
    ∃ partition : ℤ, 0 ≤ partition ∧ text rendering ⟨topic, partition⟩ .partition = digits := by
  refine ⟨(Nat.ofDigitChars 10 digits 0 : ℕ), Int.natCast_nonneg _, ?_⟩
  rw [text_partition_eq (Int.natCast_nonneg _)]
  exact toDigits_ofDigitChars hdigits hhead hne

/-- Where the digits overlap and there is room, two shards have one name. -/
theorem exists_collision {template : String} {shift : ℕ} (hsides : Placeholders left right)
    (htemplate : pieces template = once lead left gap right tail)
    (hroom : HasRoom lead gap tail shift)
    (hzero : left = .topic → shift ≤ gap.length → (gap)[gap.length - shift]? ≠ some '0') :
    ∃ first second name, IsShard first ∧ IsShard second ∧ first ≠ second ∧
      changelogName rendering template first = .ok name ∧
      changelogName rendering template second = .ok name := by
  obtain ⟨hpositive, hoverlaps, hgap, hlegal, hlength⟩ := hroom
  obtain ⟨front, back, hfront, hmet, hfrontIn, hbackIn, hhead⟩ := exists_of_overlaps '1' hoverlaps
  have hdigit : ∀ char, char = '1' ∨ char ∈ gap → char.isDigit = true := by
    rintro char (rfl | hin)
    · rfl
    · exact hgap char hin
  have hback : back.length = shift := by
    have hlengths := congrArg List.length hmet
    rw [List.length_append, List.length_append] at hlengths
    omega
  have hnonempty : back ≠ [] := List.ne_nil_of_length_pos (by omega)
  have hchar : ∀ char, char = 'a' ∨ char = '1' ∨ char ∈ gap ∨ char ∈ lead ++ tail →
      isTopicNameChar char = true := by
    rintro char (rfl | hone | hin | hin)
    · decide
    · exact isTopicNameChar_of_isDigit (hdigit char (Or.inl hone))
    · exact isTopicNameChar_of_isDigit (hdigit char (Or.inr hin))
    · exact hlegal char hin
  have hlegible (word : List Char) (hin : 'a' ∈ word) (hsize : word.length ≤ 249)
      (hword : ∀ char ∈ word,
        char = 'a' ∨ char = '1' ∨ char ∈ gap ∨ char ∈ front ++ back ∨ char ∈ lead ++ tail) :
      isTopicName (String.ofList word) = true := by
    refine isTopicName_ofList (fun char hmember ↦ hchar char ?_) ⟨'a', hin, by decide⟩ hsize
    rcases hword char hmember with hletter | hone | hgapped | hmoved | hkept
    · exact Or.inl hletter
    · exact Or.inr (Or.inl hone)
    · exact Or.inr (Or.inr (Or.inl hgapped))
    · rcases List.mem_append.mp hmoved with hmoved | hmoved
      · exact (hfrontIn char hmoved).elim (Or.inr ∘ Or.inl) (Or.inr ∘ Or.inr ∘ Or.inl)
      · exact (hbackIn char hmoved).elim (Or.inr ∘ Or.inl) (Or.inr ∘ Or.inr ∘ Or.inl)
    · exact Or.inr (Or.inr (Or.inr hkept))
  have hletter : isTopicName (String.ofList ['a']) = true := by decide
  have hone : (toString (1 : ℤ)).toList = ['1'] := by decide
  have hmoved (rest : List Char) : front ++ (gap ++ rest) = gap ++ (back ++ rest) := by
    rw [← List.append_assoc, hmet, List.append_assoc]
  rcases hsides with ⟨rfl, rfl⟩ | ⟨rfl, rfl⟩
  · have hpartition : ∃ partition : ℤ, 0 ≤ partition ∧
        text rendering ⟨String.ofList ['a'], partition⟩ .partition = back ++ ['1'] := by
      refine exists_partition (fun char hin ↦ hdigit char ?_) (fun char hin ↦ ?_) (by simp) _
      · rcases List.mem_append.mp hin with hin | hin
        · exact hbackIn char hin
        · exact Or.inl (List.mem_singleton.mp hin)
      · rw [List.head?_append_of_ne_nil _ hnonempty, hhead hpositive] at hin
        rintro rfl
        split_ifs at hin with hle
        · exact hzero rfl hle hin
        · cases hin
    obtain ⟨partition, hnonneg, htext⟩ := hpartition
    have hname : isTopicName (String.ofList
        (lead ++ (['a'] ++ (gap ++ (back ++ ['1'] ++ tail))))) = true := by
      refine hlegible _ (by simp) (by simp; omega) fun char hin ↦ ?_
      simp only [List.mem_append, List.mem_singleton] at hin ⊢
      grind
    refine ⟨⟨String.ofList ['a'], partition⟩, ⟨String.ofList ('a' :: front), 1⟩, _,
      ⟨hletter, hnonneg⟩, ⟨hlegible _ (by simp) (by simp; omega) fun char hin ↦ ?_, zero_le_one⟩,
      ?_, changelogName_once (Or.inl ⟨rfl, rfl⟩) htemplate ?_ hname,
      changelogName_once (Or.inl ⟨rfl, rfl⟩) htemplate ?_ hname⟩
    · simp only [List.mem_cons, List.mem_append] at hin ⊢
      grind
    · intro hsame
      have htopics : ['a'] = 'a' :: front :=
        String.ofList_injective (congrArg TopicPartition.topic hsame)
      have hlengths := congrArg List.length htopics
      simp only [List.length_cons, List.length_nil] at hlengths
      omega
    · rw [flatMap_once, htext, text_topic, String.toList_ofList]
    · rw [flatMap_once, text_topic, text_partition, String.toList_ofList, hone]
      simp only [List.cons_append, List.nil_append, List.append_assoc, hmoved]
  · have hpartition : ∃ partition : ℤ, 0 ≤ partition ∧
        text rendering ⟨String.ofList ['a'], partition⟩ .partition = '1' :: front := by
      refine exists_partition (fun char hin ↦ hdigit char ?_) (fun char hin ↦ ?_) (by simp) _
      · rcases List.mem_cons.mp hin with hfirst | hin
        · exact Or.inl hfirst
        · exact hfrontIn char hin
      · obtain rfl := Option.some.inj hin
        decide
    obtain ⟨partition, hnonneg, htext⟩ := hpartition
    have hname : isTopicName (String.ofList
        (lead ++ (('1' :: front) ++ (gap ++ (['a'] ++ tail))))) = true := by
      refine hlegible _ (by simp) (by simp; omega) fun char hin ↦ ?_
      simp only [List.mem_append, List.mem_cons, List.not_mem_nil, or_false] at hin ⊢
      grind
    refine ⟨⟨String.ofList ['a'], partition⟩, ⟨String.ofList (back ++ ['a']), 1⟩, _,
      ⟨hletter, hnonneg⟩, ⟨hlegible _ (by simp) (by simp; omega) fun char hin ↦ ?_, zero_le_one⟩,
      ?_, changelogName_once (Or.inr ⟨rfl, rfl⟩) htemplate ?_ hname,
      changelogName_once (Or.inr ⟨rfl, rfl⟩) htemplate ?_ hname⟩
    · simp only [List.mem_append, List.mem_singleton] at hin ⊢
      grind
    · intro hsame
      have htopics : ['a'] = back ++ ['a'] :=
        String.ofList_injective (congrArg TopicPartition.topic hsame)
      have hlengths := congrArg List.length htopics
      simp only [List.length_append, List.length_singleton] at hlengths
      omega
    · rw [flatMap_once, htext, text_topic, String.toList_ofList]
    · rw [flatMap_once, text_topic, text_partition, String.toList_ofList, hone]
      simp only [List.cons_append, List.nil_append, List.append_assoc, hmoved]

/-- A template that carries each placeholder once keeps all shards apart exactly where no overlap of
the digits between them has room. -/
theorem distinct_once_iff {template : String} (hsides : Placeholders left right)
    (htemplate : pieces template = once lead left gap right tail) :
    (∀ first second, Distinct rendering template first second) ↔
      ¬ ∃ shift, HasRoom lead gap tail shift ∧
        (left = .topic → shift ≤ gap.length → (gap)[gap.length - shift]? ≠ some '0') := by
  constructor
  · rintro hdistinct ⟨shift, hroom, hzero⟩
    obtain ⟨first, second, name, hfirst, hsecond, hne, hname, hother⟩ : ∃ first second name,
        IsShard first ∧ IsShard second ∧ first ≠ second ∧
          changelogName rendering template first = .ok name ∧
          changelogName rendering template second = .ok name :=
      exists_collision hsides htemplate hroom hzero
    exact hdistinct first second hfirst hsecond hne name name hname hother rfl
  · intro hnone first second hfirst hsecond hne name other hname hother hsame
    obtain ⟨hword, hlegal⟩ := changelogName_eq_ok hname
    obtain ⟨hword', hlegal'⟩ := changelogName_eq_ok hother
    subst hsame
    rw [htemplate] at hword hword'
    have hwords := hword.symm.trans hword'
    refine hne ?_
    by_cases hgap : ∀ char ∈ gap, char.isDigit = true
    · obtain ⟨hchars, _, hlength⟩ := of_isTopicName hlegal
      rcases lt_trichotomy (text rendering first left).length (text rendering second left).length
        with hlt | heq | hgt
      · refine absurd (exists_room hsides hfirst hsecond hgap hwords ?_ ?_ hlt) hnone
        · rwa [← hword']
        · rwa [← hword']
      · rw [flatMap_once, flatMap_once, List.append_cancel_left_eq] at hwords
        obtain ⟨hleft, hrest⟩ := List.append_inj hwords heq
        have hright := List.append_cancel_right (List.append_cancel_left hrest)
        rcases hsides with ⟨rfl, rfl⟩ | ⟨rfl, rfl⟩
        · exact eq_of_texts hfirst.2 hsecond.2 hleft hright
        · exact eq_of_texts hfirst.2 hsecond.2 hright hleft
      · refine absurd (exists_room hsides hsecond hfirst hgap hwords.symm ?_ ?_ hgt) hnone
        · rwa [← hword]
        · rwa [← hword]
    · push Not at hgap
      obtain ⟨char, hchar, hnot⟩ := hgap
      refine eq_of_separated (separated_once hsides hchar (by simpa using hnot)) ?_ ?_
        (alike_once hsides) hfirst.2 hsecond.2 hwords
      · rcases hsides with ⟨rfl, rfl⟩ | ⟨rfl, rfl⟩ <;> simp [once]
      · rcases hsides with ⟨rfl, rfl⟩ | ⟨rfl, rfl⟩ <;> simp [once]

end Once

/-! ### Shards keep their changelogs apart -/

/-- Two shards have different changelogs under a template that carries both placeholders and is
separated, where nothing else of it depends on the shard. A template that carries each placeholder
once keeps all shards apart exactly where no overlap of the digits between them has room. -/
theorem distinct_names (rendering : Rendering) (template : String) :
    (.topic ∈ pieces template ∧ .partition ∈ pieces template ∧ Separated (pieces template) →
      ∀ first second, Alike rendering (pieces template) first second →
        Distinct rendering template first second) ∧
    ∀ lead left gap right tail, Placeholders left right →
      pieces template = once lead left gap right tail →
      ((∀ first second, Distinct rendering template first second) ↔
        ¬ ∃ shift, HasRoom lead gap tail shift ∧
          (left = .topic → shift ≤ gap.length → (gap)[gap.length - shift]? ≠ some '0')) := by
  constructor
  · rintro ⟨htopic, hpartition, hseparated⟩ first second halike hfirst hsecond hne name other hname
      hother hsame
    subst hsame
    have hwords := (changelogName_eq_ok hname).1.symm.trans (changelogName_eq_ok hother).1
    exact hne (eq_of_separated hseparated htopic hpartition halike hfirst.2 hsecond.2 hwords)
  · exact fun lead left gap right tail hsides htemplate ↦ distinct_once_iff hsides htemplate

/-- The fields of the samples: there is no other argument. -/
def sampleRendering : Rendering := fun field _ ↦ .error (.key (String.ofList field.name))

/-- The default template keeps partition 2 of one topic and partition 12 of another apart. -/
theorem distinct_names_default :
    Distinct sampleRendering "\x7bsource_topic\x7d.p\x7bpartition\x7d.changelog" ⟨"a1", 2⟩
      ⟨"a", 12⟩ := by
  have htemplate : pieces "\x7bsource_topic\x7d.p\x7bpartition\x7d.changelog" =
      once [] .topic ['.', 'p'] .partition ".changelog".toList := by decide
  refine (distinct_names sampleRendering _).1 ?_ _ _ ?_
  · rw [htemplate]
    refine ⟨by decide, by decide, ?_⟩
    exact separated_once (Or.inl ⟨rfl, rfl⟩) List.mem_cons_self rfl
  · rw [htemplate]
    exact alike_once (Or.inl ⟨rfl, rfl⟩)

/-- With nothing between the placeholders, partition 2 of `a1` and partition 12 of `a` have one
changelog. -/
theorem adjacent_collide : ¬ ∀ template, validateChangelogTemplate sampleRendering
    template = .ok () →
    ∀ first second, Distinct sampleRendering template first second := by
  intro hall
  have haccepted : validateChangelogTemplate sampleRendering
      "\x7bsource_topic\x7d\x7bpartition\x7d" = .ok () := by rfl
  have hname : changelogName sampleRendering "\x7bsource_topic\x7d\x7bpartition\x7d" ⟨"a1", 2⟩ =
      .ok "a12" := by rfl
  have hother : changelogName sampleRendering "\x7bsource_topic\x7d\x7bpartition\x7d" ⟨"a", 12⟩ =
      .ok "a12" := by rfl
  exact hall _ haccepted ⟨"a1", 2⟩ ⟨"a", 12⟩ ⟨by decide, by decide⟩ ⟨by decide, by decide⟩
    (by decide) _ _ hname hother rfl

end KSQLite.Naming
