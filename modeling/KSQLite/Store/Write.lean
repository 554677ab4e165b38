import KSQLite.Store.Topics

/-!
# The write path

`append` produces a record to the changelog first and applies it to the database second, at the
offset the producer reports. Nothing is produced for an invalid key or payload, and nothing is
applied when the produce fails.
-/

set_option autoImplicit false
set_option relaxedAutoImplicit false

namespace KSQLite.Store

open KSQLite.Suspension

/-- The entity key argument of an append: a `str`, a `str` that UTF-8 cannot encode, or another
object, with what the message shows of it. -/
inductive EntityKey
  | text (text : String)
  | unencodable (shown : String)
  | object (shown : String)

/-- `_validate_entity_key`: a nonempty `str` that UTF-8 encodes. -/
def validateEntityKey : EntityKey → Except Error String
  | .text text => if text.isEmpty then .error (.invalidEntityKey "''") else .ok text
  | .unencodable shown => .error (.unencodableEntityKey shown)
  | .object shown => .error (.invalidEntityKey shown)

/-- What an append raises in place of a broker error. -/
def produceError (topic : String) : Error → Error
  | .kafka cause => .produceFailed topic cause
  | error => error

/-- `Appender.append`. Whatever the status of the partition, the append goes on. -/
def append (settings : Settings) (source : TopicPartition) (entityKey : EntityKey)
    (payload : Payload) : Action Unit := do
  let entityKey ← Program.ofExcept (validateEntityKey entityKey)
  let messageId ← newMessageId
  let encoded ← Program.ofExcept (encode settings.loads entityKey payload messageId)
  let topic ← Program.ofExcept (changelogName settings source)
  let offset ← (perform (.sendAndWait topic encoded.message)).mapError (produceError topic)
  if offset < 0 then .raise (.unusableOffset topic offset)
  else do
    perform (.transaction (.applyMaterialization
      ⟨messageId, source, offset, entityKey, encoded.payload⟩))
    rememberState (·.recordApplied source offset)

end KSQLite.Store
