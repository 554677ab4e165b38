import KSQLite.Store.Write

/-!
# Records among other headers

A broker may hand a record back with its headers in another order and with further ones among them.
`classify` looks its two headers up by their names, so it still returns the record that `encode` put
there (`classify_among`). The message ids are canonical UUIDs, and `uuid.UUID` accepts every one of
them (`CanonicalUUID.isUUID`).
-/

set_option autoImplicit false
set_option relaxedAutoImplicit false

namespace KSQLite.Store

/-! ### Canonical UUIDs -/

/-- A digit in base sixteen, in ASCII. -/
def isAsciiHexDigit (char : Char) : Bool :=
  ('0' ≤ char && char ≤ '9') || ('a' ≤ char && char ≤ 'f') || ('A' ≤ char && char ≤ 'F')

/-- A group of digits of a UUID. -/
structure IsGroup (length : ℕ) (group : List Char) : Prop where
  length_eq : group.length = length
  digits : ∀ char ∈ group, isAsciiHexDigit char = true

/-- A UUID of 36 characters: five groups of digits with hyphens between them. -/
structure CanonicalUUID (text : String) : Prop where
  groups : ∃ first second third fourth fifth,
    IsGroup 8 first ∧ IsGroup 4 second ∧ IsGroup 4 third ∧ IsGroup 4 fourth ∧ IsGroup 12 fifth ∧
      text.toList = first ++ '-' :: (second ++ '-' :: (third ++ '-' :: (fourth ++ '-' :: fifth)))

/-- What a digit in ASCII is not. -/
theorem not_of_isAsciiHexDigit {char : Char} (hdigit : isAsciiHexDigit char = true) :
    char ≠ '-' ∧ char ≠ 'u' ∧ char ≠ 'x' ∧ char ≠ 'X' ∧ char ≠ '_' ∧ char ≠ '+' ∧
      char ≠ '\x7b' ∧ char ≠ '\x7d' := by
  refine ⟨?_, ?_, ?_, ?_, ?_, ?_, ?_, ?_⟩ <;>
  · rintro rfl
    revert hdigit
    decide

/-- A digit in ASCII is a digit. -/
theorem isHexDigit_of_ascii {char : Char} (hdigit : isAsciiHexDigit char = true) :
    isHexDigit char = true := by
  simp only [isAsciiHexDigit, Bool.or_eq_true, Bool.and_eq_true, decide_eq_true_eq] at hdigit
  simp only [isHexDigit, Bool.or_eq_true, Bool.and_eq_true, decide_eq_true_eq]
  rcases hdigit with (hdecimal | hlower) | hupper
  · refine Or.inr (List.any_eq_true.mpr ⟨0x30, List.mem_cons_self, ?_⟩)
    have hcode : 48 ≤ char.toNat ∧ char.toNat ≤ 57 := hdecimal
    simp only [Bool.and_eq_true, decide_eq_true_eq]
    omega
  · exact Or.inl (Or.inl hlower)
  · exact Or.inl (Or.inr hupper)

/-- A digit in ASCII is no white space. -/
theorem not_isSpace_of_ascii {char : Char} (hdigit : isAsciiHexDigit char = true) :
    ¬ isSpace char = true := by
  simp only [isAsciiHexDigit, Bool.or_eq_true, Bool.and_eq_true, decide_eq_true_eq] at hdigit
  have hcode : 48 ≤ char.toNat ∧ char.toNat ≤ 102 := by
    rcases hdigit with (hdecimal | hlower) | hupper
    · have hbounds : 48 ≤ char.toNat ∧ char.toNat ≤ 57 := hdecimal
      omega
    · have hbounds : 97 ≤ char.toNat ∧ char.toNat ≤ 102 := hlower
      omega
    · have hbounds : 65 ≤ char.toNat ∧ char.toNat ≤ 70 := hupper
      omega
  simp only [isSpace, Bool.or_eq_true, Bool.and_eq_true, decide_eq_true_eq, List.contains_eq_mem,
    List.mem_cons, List.not_mem_nil, or_false]
  omega

/-- Nothing is deleted from a text without the first character of the pattern. -/
theorem deleteAll_eq_self {head : Char} {tail text : List Char} (htext : head ∉ text) :
    deleteAll (head :: tail) 0 text = text := by
  induction text with
  | nil => rfl
  | cons char rest ih =>
    obtain ⟨hne, hrest⟩ := not_or.mp (mt List.mem_cons.mpr htext)
    have hprefix : ¬ (head :: tail).isPrefixOf (char :: rest) = true := by
      rw [List.isPrefixOf_cons_cons, Bool.and_eq_true, beq_iff_eq]
      exact fun hboth ↦ hne hboth.1
    change (if (head :: tail).isPrefixOf (char :: rest) = true then _ else _) = _
    rw [if_neg hprefix, ih hrest]

/-- Digits in ASCII are digits of a number in base sixteen. -/
theorem isHexNumeral_of_ascii {digits : List Char} (hne : digits ≠ [])
    (hdigits : ∀ char ∈ digits, isAsciiHexDigit char = true) : isHexNumeral digits = true := by
  induction digits with
  | nil => exact absurd rfl hne
  | cons digit rest ih =>
    obtain ⟨hdigit, hrest⟩ := List.forall_mem_cons.mp hdigits
    cases rest with
    | nil => exact isHexDigit_of_ascii hdigit
    | cons next later =>
      have hunderscore : next ≠ '_' := by
        obtain ⟨_, _, _, _, hne, _⟩ := not_of_isAsciiHexDigit (hrest next List.mem_cons_self)
        exact hne
      have hnumeral : isHexNumeral (digit :: next :: later) =
          (isHexDigit digit && isHexNumeral (next :: later)) := by
        rw [isHexNumeral]
        · exact nofun
        · exact fun _ hsame ↦ hunderscore (List.cons.inj hsame).1
      rw [hnumeral, isHexDigit_of_ascii hdigit, ih (List.cons_ne_nil _ _) hrest, Bool.and_true]

/-- Digits in ASCII parse as a number in base sixteen. -/
theorem parsesAsHex_of_ascii {digits : List Char} (hne : digits ≠ [])
    (hdigits : ∀ char ∈ digits, isAsciiHexDigit char = true) : parsesAsHex digits = true := by
  have htrimmed : (digits.dropWhile isSpace).rdropWhile isSpace = digits := by
    rw [List.dropWhile_eq_self_iff.mpr fun hlength ↦
      not_isSpace_of_ascii (hdigits _ (List.getElem_mem hlength))]
    exact List.rdropWhile_eq_self_iff.mpr fun hlast ↦
      not_isSpace_of_ascii (hdigits _ (List.getLast_mem hlast))
  have hunsigned : ¬ digits.head? = some '+' := by
    intro hhead
    obtain ⟨_, _, _, _, _, hplus, _⟩ :=
      not_of_isAsciiHexDigit (hdigits '+' (List.mem_of_mem_head? hhead))
    exact hplus rfl
  have hmarked : 'x' ∉ digits ∧ 'X' ∉ digits := by
    constructor
    · intro hmem
      obtain ⟨_, _, hx, _⟩ := not_of_isAsciiHexDigit (hdigits 'x' hmem)
      exact hx rfl
    · intro hmem
      obtain ⟨_, _, _, hx, _⟩ := not_of_isAsciiHexDigit (hdigits 'X' hmem)
      exact hx rfl
  simp only [parsesAsHex, htrimmed, if_neg hunsigned]
  -- No digit is the `x` of a prefix, so only the last branch is left.
  split
  · exact absurd (by simp) hmarked.1
  · exact absurd (by simp) hmarked.2
  · exact absurd (by simp) hmarked.1
  · exact absurd (by simp) hmarked.2
  · exact isHexNumeral_of_ascii hne hdigits

/-- Taking out the hyphens leaves a group as it is. -/
theorem IsGroup.filter_hyphen {length : ℕ} {group : List Char} (hgroup : IsGroup length group) :
    group.filter (fun char ↦ decide (char ≠ '-')) = group := by
  refine List.filter_eq_self.mpr fun char hchar ↦ decide_eq_true ?_
  exact (not_of_isAsciiHexDigit (hgroup.digits char hchar)).1

/-- `uuid.UUID` accepts every canonical UUID. -/
theorem CanonicalUUID.isUUID {text : String} (htext : CanonicalUUID text) :
    Store.isUUID text = true := by
  obtain ⟨first, second, third, fourth, fifth, hfirst, hsecond, hthird, hfourth, hfifth, htoList⟩ :=
    htext.groups
  have hchars : ∀ char ∈ text.toList, char = '-' ∨ isAsciiHexDigit char = true := by
    intro char hchar
    rw [htoList] at hchar
    simp only [List.mem_append, List.mem_cons] at hchar
    have := hfirst.digits char
    have := hsecond.digits char
    have := hthird.digits char
    have := hfourth.digits char
    have := hfifth.digits char
    tauto
  have hprefix : 'u' ∉ text.toList := by
    intro hmem
    rcases hchars 'u' hmem with hhyphen | hdigit
    · exact absurd hhyphen (by decide)
    · exact (not_of_isAsciiHexDigit hdigit).2.1 rfl
  let isBrace : Char → Bool := fun char ↦ char = '\x7b' || char = '\x7d'
  have hbrace (char : Char) (hchar : char ∈ text.toList) : ¬ isBrace char = true := by
    change ¬ (decide (char = '\x7b') || decide (char = '\x7d')) = true
    rw [Bool.or_eq_true, decide_eq_true_eq, decide_eq_true_eq]
    rcases hchars char hchar with rfl | hdigit
    · decide
    · obtain ⟨_, _, _, _, _, _, hopen, hclose⟩ := not_of_isAsciiHexDigit hdigit
      exact not_or.mpr ⟨hopen, hclose⟩
  have hdeleted : deleteAll "uuid:".toList 0 (deleteAll "urn:".toList 0 text.toList) =
      text.toList := by
    change deleteAll ('u' :: "uid:".toList) 0 (deleteAll ('u' :: "rn:".toList) 0 _) = _
    rw [deleteAll_eq_self hprefix, deleteAll_eq_self hprefix]
  have hstripped : (text.toList.dropWhile isBrace).rdropWhile isBrace = text.toList := by
    rw [List.dropWhile_eq_self_iff.mpr fun hlength ↦ hbrace _ (List.getElem_mem hlength)]
    exact List.rdropWhile_eq_self_iff.mpr fun hlast ↦ hbrace _ (List.getLast_mem hlast)
  have hhex : text.toList.filter (fun char ↦ decide (char ≠ '-')) =
      first ++ (second ++ (third ++ (fourth ++ fifth))) := by
    rw [htoList]
    simp only [List.filter_append, List.filter_cons, hfirst.filter_hyphen, hsecond.filter_hyphen,
      hthird.filter_hyphen, hfourth.filter_hyphen, hfifth.filter_hyphen]
    rfl
  have hdigits : ∀ char ∈ first ++ (second ++ (third ++ (fourth ++ fifth))),
      isAsciiHexDigit char = true := by
    simp only [List.mem_append]
    rintro char (hchar | hchar | hchar | hchar | hchar)
    · exact hfirst.digits char hchar
    · exact hsecond.digits char hchar
    · exact hthird.digits char hchar
    · exact hfourth.digits char hchar
    · exact hfifth.digits char hchar
  have hlength : (first ++ (second ++ (third ++ (fourth ++ fifth)))).length = 32 := by
    simp only [List.length_append, hfirst.length_eq, hsecond.length_eq, hthird.length_eq,
      hfourth.length_eq, hfifth.length_eq]
  have hne : first ++ (second ++ (third ++ (fourth ++ fifth))) ≠ [] := by
    intro hnil
    rw [hnil] at hlength
    cases hlength
  unfold Store.isUUID
  rw [hdeleted]
  change (decide ((((text.toList.dropWhile isBrace).rdropWhile isBrace).filter
    fun char ↦ decide (char ≠ '-')).length = 32) && parsesAsHex
      (((text.toList.dropWhile isBrace).rdropWhile isBrace).filter
        fun char ↦ decide (char ≠ '-'))) = true
  rw [hstripped, hhex, parsesAsHex_of_ascii hne hdigits, Bool.and_true]
  exact decide_eq_true hlength

/-! ### Further headers -/

/-- A header that is among others of other names is found. -/
theorem headerOf_eq {headers : List (String × Option ByteArray)} {name : String}
    {value : Option ByteArray} (hmem : (name, value) ∈ headers)
    (honly : ∀ header ∈ headers, header.1 = name → header.2 = value) :
    headerOf headers name = value := by
  have hlookup : headers.reverse.lookup name = some value := by
    cases hfound : headers.reverse.lookup name with
    | none =>
      have hmissing := List.lookup_eq_none_iff.mp hfound (name, value) (List.mem_reverse.mpr hmem)
      exact absurd hmissing (by simp)
    | some found =>
      obtain ⟨before, after, hsplit, _⟩ := List.lookup_eq_some_iff.mp hfound
      have hthere : (name, found) ∈ headers := by
        rw [← List.mem_reverse, hsplit]
        exact List.mem_append_right _ List.mem_cons_self
      exact congrArg some (honly _ hthere rfl)
  rw [headerOf, hlookup]
  rfl

/-- The headers of a record among others: they are found by their names. -/
theorem headerOf_among {record : KsqliteRecord} {more headers : List (String × Option ByteArray)}
    (hmore : ∀ header ∈ more, header.1 ≠ "format_version" ∧ header.1 ≠ "message_id")
    (hperm : headers.Perm (record.message.headers ++ more)) :
    headerOf headers "message_id" = some record.messageId.toUTF8 ∧
      headerOf headers "format_version" = some formatVersion.toUTF8 := by
  have hmem {header : String × Option ByteArray} :
      header ∈ headers ↔ header = ("format_version", some formatVersion.toUTF8) ∨
        header = ("message_id", some record.messageId.toUTF8) ∨ header ∈ more := by
    rw [hperm.mem_iff, List.mem_append]
    simp [KsqliteRecord.message, or_assoc]
  constructor
  · refine headerOf_eq (hmem.mpr (Or.inr (Or.inl rfl))) fun header hheader hname ↦ ?_
    rcases hmem.mp hheader with rfl | rfl | hfurther
    · exact absurd hname (by decide)
    · rfl
    · exact absurd hname (hmore header hfurther).2
  · refine headerOf_eq (hmem.mpr (Or.inl rfl)) fun header hheader hname ↦ ?_
    rcases hmem.mp hheader with rfl | rfl | hfurther
    · rfl
    · exact absurd hname (by simp)
    · exact absurd hname (hmore header hfurther).1

/-- A record is classified by its key, its value and what its headers are found to be. -/
theorem classify_of_headers {record : KsqliteRecord} {headers : List (String × Option ByteArray)}
    (hmessageId : isUUID record.messageId = true)
    (hid : headerOf headers "message_id" = some record.messageId.toUTF8)
    (hversion : headerOf headers "format_version" = some formatVersion.toUTF8) :
    classify { record.message with headers := headers } = .ksqlite record := by
  have hsame : headerOf record.message.headers "message_id" = headerOf headers "message_id" ∧
      headerOf record.message.headers "format_version" = headerOf headers "format_version" := by
    have hperm : record.message.headers.Perm (record.message.headers ++ []) := by
      rw [List.append_nil]
    obtain ⟨hown, hownVersion⟩ := headerOf_among (by simp) hperm
    exact ⟨hown.trans hid.symm, hownVersion.trans hversion.symm⟩
  rw [← classify_message hmessageId]
  unfold classify
  rw [hsame.1, hsame.2]

/-- Decoding undoes encoding, whatever other headers a record has and in whatever order.
Assumes: the key and the payload are accepted, and the message id is a canonical UUID. -/
theorem classify_among {loads : String → Except String Unit} {entityKey : EntityKey}
    {payload : Payload} {key messageId serialized : String}
    {more headers : List (String × Option ByteArray)}
    (hkey : validateEntityKey entityKey = .ok key)
    (hpayload : serializePayload loads payload = .ok serialized)
    (hmessageId : CanonicalUUID messageId)
    (hmore : ∀ header ∈ more, header.1 ≠ "format_version" ∧ header.1 ≠ "message_id")
    (hperm :
      headers.Perm ((⟨messageId, key, serialized⟩ : KsqliteRecord).message.headers ++ more)) :
    encode loads key payload messageId = .ok ⟨messageId, key, serialized⟩ ∧
      classify { (⟨messageId, key, serialized⟩ : KsqliteRecord).message with headers := headers } =
        .ksqlite ⟨messageId, key, serialized⟩ ∧
      entityKey = .text key ∧ ∀ text, payload = .text text → serialized = text := by
  obtain ⟨hid, hversion⟩ := headerOf_among hmore hperm
  refine ⟨?_, classify_of_headers hmessageId.isUUID hid hversion, ?_, ?_⟩
  · rw [encode, hpayload]
    rfl
  · cases entityKey with
    | text text =>
      change (if text.isEmpty = true then _ else _) = Except.ok key at hkey
      split_ifs at hkey
      rw [Except.ok.inj hkey]
    | unencodable shown => cases hkey
    | object shown => cases hkey
  · rintro text rfl
    simp only [serializePayload] at hpayload
    split at hpayload
    · exact (Except.ok.inj hpayload).symm
    · cases hpayload

theorem classify_among_traced :
    classify ⟨some "k1".toUTF8, some "[]".toUTF8,
      [("message_id", some "01890a5d-ac96-774b-bcce-b302099a8051".toUTF8),
        ("trace", some ⟨#[0xff]⟩),
        ("format_version", some "1".toUTF8)]⟩ =
      .ksqlite ⟨"01890a5d-ac96-774b-bcce-b302099a8051", "k1", "[]"⟩ := by
  have hmessageId : CanonicalUUID "01890a5d-ac96-774b-bcce-b302099a8051" :=
    ⟨⟨"01890a5d".toList, "ac96".toList, "774b".toList, "bcce".toList, "b302099a8051".toList,
      ⟨rfl, List.all_eq_true.mp (by decide +kernel)⟩,
      ⟨rfl, List.all_eq_true.mp (by decide +kernel)⟩,
      ⟨rfl, List.all_eq_true.mp (by decide +kernel)⟩,
      ⟨rfl, List.all_eq_true.mp (by decide +kernel)⟩,
      ⟨rfl, List.all_eq_true.mp (by decide +kernel)⟩, rfl⟩⟩
  have hmore : ∀ header ∈ [("trace", some (⟨#[0xff]⟩ : ByteArray))],
      header.1 ≠ "format_version" ∧ header.1 ≠ "message_id" := by decide
  have hkey : validateEntityKey (.text "k1") = .ok "k1" := rfl
  have hpayload : serializePayload (fun _ ↦ .ok ()) (.text "[]") = .ok "[]" := rfl
  exact (classify_among hkey hpayload hmessageId hmore (by decide)).2.1

end KSQLite.Store
