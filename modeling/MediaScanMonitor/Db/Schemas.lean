import MediaScanMonitor.Db.Models
import MediaScanMonitor.Normalize

/-!
# Db — `db/schemas.py` and `db/crypto.py`

What a caller hands to the repository.  A field of a partial update is `none` where the caller
leaves it out, `some none` where it is an explicit null, and `some (some v)` where it is `v`;
`model_dump(exclude_unset=True)` tells the three apart.
-/

namespace MediaScanMonitor
open Py

/-- `SecretBox`: Fernet with one key.  A token depends on a nonce; `encrypt` is `none` where the
plaintext does not encode, and `decrypt` where it raises `SecretDecryptError`. -/
structure SecretBox where
  encrypt : Nat → Str → Option Str
  decrypt : Str → Option Str
  decrypt_encrypt : ∀ {nonce plaintext token},
    encrypt nonce plaintext = some token → decrypt token = some plaintext

structure ServerCreate where
  name : Str
  type : ServerType
  baseUrl : Str := []
  verifyTls : Bool := true
  timeoutSeconds : PyFloat := 10
  secret : Option Str := none
  scanMode : ScanMode := .targeted
  debounceMode : DebounceMode := .trailing
  debounceWindowSeconds : Int := 30
  retryAttempts : Int := 3
  enabled : Bool := true
  webhookMethod : Option Str := none
  webhookHeadersJson : Option Str := none
  webhookBodyTemplate : Option Str := none
  webhookPayloadPreset : WebhookPreset := .custom
  eventTypes : List FsEventType := [.created, .movedTo, .deleted, .movedFrom]

structure ServerUpdate where
  name : Option (Option Str) := none
  type : Option (Option ServerType) := none
  baseUrl : Option (Option Str) := none
  verifyTls : Option (Option Bool) := none
  timeoutSeconds : Option (Option PyFloat) := none
  secret : Option (Option Str) := none
  scanMode : Option (Option ScanMode) := none
  debounceMode : Option (Option DebounceMode) := none
  debounceWindowSeconds : Option (Option Int) := none
  retryAttempts : Option (Option Int) := none
  enabled : Option (Option Bool) := none
  webhookMethod : Option (Option Str) := none
  webhookHeadersJson : Option (Option Str) := none
  webhookBodyTemplate : Option (Option Str) := none
  webhookPayloadPreset : Option (Option WebhookPreset) := none
  eventTypes : Option (Option (List FsEventType)) := none

/-- A validated `FolderCreate`. -/
structure FolderCreate where
  path : Str
  libraryId : Option Str := none
  libraryName : Option Str := none
  extensions : List Str := []
  enabled : Bool := true
  deriving DecidableEq

/-- A validated `FolderUpdate`. -/
structure FolderUpdate where
  path : Option (Option Str) := none
  libraryId : Option (Option Str) := none
  extensions : Option (Option (List Str)) := none
  enabled : Option (Option Bool) := none

/-- What the driver raises at the columns an update sets, in their order. -/
def ServerUpdate.bindError (data : ServerUpdate) : Option RepoError :=
  (data.name.join.bind textError).or <| (data.baseUrl.join.bind textError).or <|
    (data.debounceWindowSeconds.join.bind intError).or <|
    (data.retryAttempts.join.bind intError).or <| (data.webhookMethod.join.bind textError).or <|
    (data.webhookHeadersJson.join.bind textError).or <|
    data.webhookBodyTemplate.join.bind textError

def FolderUpdate.bindError (data : FolderUpdate) : Option RepoError :=
  (data.path.join.bind textError).or (data.libraryId.join.bind textError)

/-- An attribute set from a partial update, where the column is nullable. -/
def setNullable {α : Type} (field : Option (Option α)) (old : Option α) : Option α :=
  field.getD old

/-- An attribute set from a partial update, where the column is NOT NULL. -/
def setColumn {α : Type} (field : Option (Option α)) (old : α) : Except RepoError α :=
  match field with
  | none => .ok old
  | some (some v) => .ok v
  | some none => .error .integrityError

theorem setColumn_eq_ok {α : Type} {field : Option (Option α)} {old v : α}
    (h : setColumn field old = .ok v) : v = field.join.getD old := by
  cases field with
  | none =>
      cases h
      rfl
  | some field =>
      cases field with
      | none => cases h
      | some w =>
          cases h
          rfl

theorem ne_null_of_setColumn {α : Type} {field : Option (Option α)} {old v : α}
    (h : setColumn field old = .ok v) : field ≠ some none := by
  rintro rfl
  cases h

/-- A column an update leaves can be bound, if the old value can and the new one. -/
theorem error_getD {α : Type} {error : α → Option RepoError} {field : Option α} {old : α}
    (hold : error old = none) (hfield : field.bind error = none) :
    error (field.getD old) = none := by
  cases field with
  | none => exact hold
  | some v => exact hfield

theorem error_setNullable {α : Type} {error : α → Option RepoError} {field : Option (Option α)}
    {old : Option α} (hold : old.bind error = none) (hfield : field.join.bind error = none) :
    (setNullable field old).bind error = none := by
  cases field with
  | none => exact hold
  | some v => exact hfield

theorem exists_setColumn {α : Type} {field : Option (Option α)} (old : α)
    (h : field ≠ some none) : ∃ v, setColumn field old = .ok v := by
  cases field with
  | none => exact ⟨old, rfl⟩
  | some field =>
      cases field with
      | none => exact absurd rfl h
      | some v => exact ⟨v, rfl⟩

/-! ### Factories -/

/-- A box that only marks what it is given. -/
def markBox : SecretBox where
  encrypt _ plaintext := some (str "gAAAA" ++ plaintext)
  decrypt token := if token.take 5 = str "gAAAA" then some (token.drop 5) else none
  decrypt_encrypt h := by
    cases h
    rfl

def plexServer : ServerCreate where
  name := str "plex"
  type := .plex
  secret := some (str "token")

def webhookServer : ServerCreate where
  name := str "hook"
  type := .webhook

def tvFolder : FolderCreate where
  path := str "/data/tv"
  libraryId := some (str "2")
  extensions := [str "mkv"]

def filmFolder : FolderCreate where
  path := str "/data/film"
  libraryId := some (str "3")

end MediaScanMonitor
