import KSQLite.Store.Types
import Mathlib.Data.List.DropRight

/-!
# The changelog wire format

A changelog record carries the host payload as its value, the entity key as its key, and two
headers: the format version and the message id that marks the record as one of KSQLite's.
`classify` sorts a replayed record into KSQLite's own, one of an unknown format version, and
foreign ones. `encode` is its counterpart on the write path, and `classify_message` says that
decoding undoes the wire format.
-/

set_option autoImplicit false
set_option relaxedAutoImplicit false

namespace KSQLite.Store

/-- Bytes are compared as the core library compares them. -/
instance bytesDecidableEq : DecidableEq ByteArray := ByteArray.instDecidableEq

/-- A record of a changelog, as a consumer returns it. -/
structure Message where
  key : Option ByteArray
  value : Option ByteArray
  headers : List (String × Option ByteArray)
  deriving DecidableEq

/-- A well-formed KSQLite changelog record. -/
structure KsqliteRecord where
  messageId : String
  entityKey : String
  payload : String
  deriving DecidableEq

/-- What a replayed record is classified as. -/
inductive Decoded
  | ksqlite (record : KsqliteRecord)
  | unknownVersion (messageId : String) (formatVersion : Option ByteArray)
  | foreign (reason : String)
  deriving DecidableEq

/-- The format version this reader understands. -/
def formatVersion : String := "1"

/-! ### Message ids -/

/-- Delete the occurrences of a pattern, left to right; `skip` counts what is left of the
occurrence being deleted. -/
def deleteAll (pattern : List Char) (skip : ℕ) : List Char → List Char
  | [] => []
  | char :: rest =>
    match skip with
    | skip + 1 => deleteAll pattern skip rest
    | 0 =>
      if pattern.isPrefixOf (char :: rest) then deleteAll pattern (pattern.length - 1) rest
      else char :: deleteAll pattern 0 rest

/-- The code points of the digit zero in the scripts whose decimal digits `int` reads. -/
def decimalZeros : List ℕ :=
  [0x30, 0x660, 0x6F0, 0x7C0, 0x966, 0x9E6, 0xA66, 0xAE6, 0xB66, 0xBE6, 0xC66, 0xCE6, 0xD66, 0xDE6,
    0xE50, 0xED0, 0xF20, 0x1040, 0x1090, 0x17E0, 0x1810, 0x1946, 0x19D0, 0x1A80, 0x1A90, 0x1B50,
    0x1BB0, 0x1C40, 0x1C50, 0xA620, 0xA8D0, 0xA900, 0xA9D0, 0xA9F0, 0xAA50, 0xABF0, 0xFF10,
    0x104A0, 0x10D30, 0x11066, 0x110F0, 0x11136, 0x111D0, 0x112F0, 0x11450, 0x114D0, 0x11650,
    0x116C0, 0x11730, 0x118E0, 0x11950, 0x11C50, 0x11D50, 0x11DA0, 0x11F50, 0x16A60, 0x16AC0,
    0x16B50, 0x1D7CE, 0x1D7D8, 0x1D7E2, 0x1D7EC, 0x1D7F6, 0x1E140, 0x1E2F0, 0x1E4D0, 0x1E950,
    0x1FBF0]

/-- A digit of a number in base sixteen. -/
def isHexDigit (char : Char) : Bool :=
  ('a' ≤ char && char ≤ 'f') || ('A' ≤ char && char ≤ 'F') ||
    decimalZeros.any fun first ↦ first ≤ char.toNat && char.toNat < first + 10

/-- Digits in base sixteen, with single underscores between them. -/
def isHexNumeral : List Char → Bool
  | [] => false
  | [digit] => isHexDigit digit
  | digit :: '_' :: rest => isHexDigit digit && isHexNumeral rest
  | digit :: rest => isHexDigit digit && isHexNumeral rest

/-- The white space `int` ignores around a number. -/
def isSpace (char : Char) : Bool :=
  (0x9 ≤ char.toNat && char.toNat ≤ 0xD) || (0x1C ≤ char.toNat && char.toNat ≤ 0x20) ||
    (0x2000 ≤ char.toNat && char.toNat ≤ 0x200A) ||
    [0x85, 0xA0, 0x1680, 0x2028, 0x2029, 0x202F, 0x205F, 0x3000].contains char.toNat

/-- What `int(text, 16)` accepts, when the text has no minus sign. -/
def parsesAsHex (text : List Char) : Bool :=
  let trimmed := (text.dropWhile isSpace).rdropWhile isSpace
  match (if trimmed.head? = some '+' then trimmed.tail else trimmed) with
  | '0' :: 'x' :: '_' :: rest | '0' :: 'X' :: '_' :: rest => isHexNumeral rest
  | '0' :: 'x' :: rest | '0' :: 'X' :: rest => isHexNumeral rest
  | digits => isHexNumeral digits

/-- What `uuid.UUID` accepts: 32 characters that read as a number in base sixteen, after the
prefixes, braces and hyphens are taken out. -/
def isUUID (text : String) : Bool :=
  let unprefixed := deleteAll "uuid:".toList 0 (deleteAll "urn:".toList 0 text.toList)
  let isBrace : Char → Bool := fun char ↦ char = '\x7b' || char = '\x7d'
  let hex := ((unprefixed.dropWhile isBrace).rdropWhile isBrace).filter fun char ↦ char ≠ '-'
  hex.length = 32 && parsesAsHex hex

/-! ### Classification -/

/-- The header of a name, the last one if there are several. -/
def headerOf (headers : List (String × Option ByteArray)) (name : String) : Option ByteArray :=
  (headers.reverse.lookup name).getD none

/-- Reconstruct a replayed record. -/
def classify (message : Message) : Decoded :=
  match headerOf message.headers "message_id" with
  | none => .foreign "missing message_id header"
  | some messageIdBytes =>
    match (String.fromUTF8? messageIdBytes).filter isUUID with
    | none => .foreign "malformed message_id header"
    | some messageId =>
      match headerOf message.headers "format_version" with
      | none => .unknownVersion messageId none
      | some versionBytes =>
        -- A replacement character never stands for "1", so the bytes decide.
        if versionBytes ≠ formatVersion.toUTF8 then .unknownVersion messageId (some versionBytes)
        else match message.key with
          | none => .foreign "null record key"
          | some key =>
            match String.fromUTF8? key with
            | none => .foreign "undecodable record key"
            | some entityKey =>
              match message.value with
              | none => .foreign "null record value"
              | some value =>
                match String.fromUTF8? value with
                | none => .foreign "undecodable record value"
                | some payload => .ksqlite ⟨messageId, entityKey, payload⟩

/-- The KSQLite record a message carries, if it is one. -/
def ksqliteOf (message : Message) : Option KsqliteRecord :=
  match classify message with
  | .ksqlite record => some record
  | _ => none

/-! ### Encoding -/

/-- The payload argument of an append: a `str`, or another object with what `json.dumps` makes of
it, or a `str` that UTF-8 cannot encode. -/
inductive Payload
  | text (text : String)
  | object (dumped : Except String String)
  | unencodable (message : String)

/-- Serialize and validate the payload before any produce; `loads` is `json.loads` with the
non-standard constants rejected. -/
def serializePayload (loads : String → Except String Unit) : Payload → Except Error String
  | .text text =>
    match loads text with
    | .ok _ => .ok text
    | .error message => .error (.payloadNotJson message)
  | .object (.ok dumped) => .ok dumped
  | .object (.error message) => .error (.payloadNotSerializable message)
  | .unencodable message => .error (.unencodablePayload message)

/-- The wire format of a record: the key and the value in UTF-8, and the two headers. -/
def KsqliteRecord.message (record : KsqliteRecord) : Message where
  key := some record.entityKey.toUTF8
  value := some record.payload.toUTF8
  headers := [("format_version", some formatVersion.toUTF8),
    ("message_id", some record.messageId.toUTF8)]

/-- Encode one changelog record. -/
def encode (loads : String → Except String Unit) (entityKey : String) (payload : Payload)
    (messageId : String) : Except Error KsqliteRecord :=
  (serializePayload loads payload).map fun value ↦ ⟨messageId, entityKey, value⟩

/-- An encoded record carries the given message id and entity key. -/
theorem encode_eq_ok {loads : String → Except String Unit} {entityKey messageId : String}
    {payload : Payload} {record : KsqliteRecord}
    (hencode : encode loads entityKey payload messageId = .ok record) :
    serializePayload loads payload = .ok record.payload ∧ record.entityKey = entityKey ∧
      record.messageId = messageId := by
  unfold encode at hencode
  cases hpayload : serializePayload loads payload with
  | error error =>
    rw [hpayload] at hencode
    cases hencode
  | ok value =>
    rw [hpayload] at hencode
    cases hencode
    exact ⟨rfl, rfl, rfl⟩

theorem fromUTF8?_toUTF8 (text : String) : String.fromUTF8? text.toUTF8 = some text :=
  dif_pos text.isValidUTF8

/-- Decoding undoes encoding. -/
theorem classify_message {record : KsqliteRecord} (hmessageId : isUUID record.messageId = true) :
    classify record.message = .ksqlite record := by
  have hid : headerOf record.message.headers "message_id" = some record.messageId.toUTF8 := by
    simp [headerOf, KsqliteRecord.message]
  have hversion : headerOf record.message.headers "format_version" =
      some formatVersion.toUTF8 := by
    simp [headerOf, KsqliteRecord.message, List.lookup_cons]
  have hkey : record.message.key = some record.entityKey.toUTF8 := rfl
  have hvalue : record.message.value = some record.payload.toUTF8 := rfl
  simp only [classify, hid, hversion, hkey, hvalue, fromUTF8?_toUTF8, Option.filter_some,
    hmessageId, if_true, ne_eq, not_true_eq_false, if_false]

theorem ksqliteOf_eq_some {message : Message} {record : KsqliteRecord} :
    ksqliteOf message = some record ↔ classify message = .ksqlite record := by
  unfold ksqliteOf
  cases classify message <;> simp

end KSQLite.Store
