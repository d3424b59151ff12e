import MediaScanMonitor.Config.Runtime
import MediaScanMonitor.Library.Utf8
import Mathlib.Data.List.Infix

/-!
# Db — `db/models.py`

The tables `server`, `folder` and `filetype`.  A `filetype` row is its extension, kept in its
folder: nothing depends on its id.  What the tables can hold is a field of `Store`, so what SQLite
or its driver would refuse cannot be built, and `Store.commit` is where they refuse.

An id comes back: a new row gets the id after the highest one there is, which does not run out of
64 bits.  `Server.row` tells two rows of one id apart.
-/

namespace MediaScanMonitor
open Py

/-! ### Event types -/

def FsEventType.value : FsEventType → Str
  | .created => str "created"
  | .movedTo => str "moved_to"
  | .deleted => str "deleted"
  | .movedFrom => str "moved_from"

/-- `FsEventType(v)`: `none` where it raises. -/
def FsEventType.ofValue? (v : Str) : Option FsEventType :=
  [FsEventType.created, .movedTo, .deleted, .movedFrom].find? fun t => t.value = v

/-- `serialize_event_types`. -/
def serializeEventTypes (types : List FsEventType) : Str :=
  List.intercalate [comma] (types.map FsEventType.value)

/-- `parse_event_types`: `none` where it raises. -/
def parseEventTypes (raw : Str) : Option (List FsEventType) :=
  ((raw.splitOn comma).filter (· ≠ [])).mapM FsEventType.ofValue?

/-! ### Rows -/

structure Server where
  id : Int
  name : Str
  type : ServerType
  baseUrl : Str
  verifyTls : Bool
  timeoutSeconds : PyFloat
  secretEncrypted : Option Str
  scanMode : ScanMode
  debounceMode : DebounceMode
  debounceWindowSeconds : Int
  retryAttempts : Int
  enabled : Bool
  webhookMethod : Option Str
  webhookHeadersJson : Option Str
  webhookBodyTemplate : Option Str
  webhookPayloadPreset : WebhookPreset
  eventTypes : Str
  /-- Not a column: which INSERT made the row. -/
  row : Nat
  deriving DecidableEq

structure Folder where
  id : Int
  serverId : Int
  path : Str
  libraryId : Option Str
  libraryName : Option Str
  enabled : Bool
  /-- The extensions of its `filetype` rows. -/
  filetypes : List Str
  deriving DecidableEq

/-! ### Values -/

/-- What a method of the repository raises. -/
inductive RepoError where
  | keyError | integrityError
  /-- `UnicodeEncodeError`. -/
  | encodeError
  | overflowError
  deriving DecidableEq

/-- What the driver raises at a string that goes into a statement, if anything. -/
def textError (s : Str) : Option RepoError := if IsClean s then none else some .encodeError

/-- What it raises at an integer: SQLite has those from `-2 ^ 63` up to `2 ^ 63 - 1`. -/
def intError (i : Int) : Option RepoError :=
  if -9223372036854775808 ≤ i ∧ i ≤ 9223372036854775807 then none else some .overflowError

/-- A statement raises, or goes on. -/
def raiseIf : Option RepoError → Except RepoError Unit
  | none => .ok ()
  | some error => .error error

/-- What the driver raises at the columns of a row, in their order.  A token and a list of event
types are ASCII. -/
def Server.bindError (server : Server) : Option RepoError :=
  (textError server.name).or <| (textError server.baseUrl).or <|
    (intError server.debounceWindowSeconds).or <| (intError server.retryAttempts).or <|
    (server.webhookMethod.bind textError).or <| (server.webhookHeadersJson.bind textError).or <|
    server.webhookBodyTemplate.bind textError

def Folder.bindError (folder : Folder) : Option RepoError :=
  (textError folder.path).or <| (folder.libraryId.bind textError).or <|
    folder.libraryName.bind textError

/-- The same for its `filetype` rows. -/
def Folder.extensionError (folder : Folder) : Option RepoError :=
  folder.filetypes.findSome? textError

theorem raiseIf_eq_ok {error : Option RepoError} : raiseIf error = .ok () ↔ error = none := by
  cases error <;> simp [raiseIf]

/-! ### The database -/

/-- What the tables can hold: the constraints, and rows that the driver can bind. -/
structure Constraints (servers : List Server) (folders : List Folder) : Prop where
  serverIds : (servers.map Server.id).Nodup
  names : (servers.map Server.name).Nodup
  folderIds : (folders.map Folder.id).Nodup
  foreignKey : ∀ f ∈ folders, f.serverId ∈ servers.map Server.id
  serverRows : ∀ s ∈ servers, s.bindError = none
  /-- SQLite has a NaN for NULL. -/
  timeouts : ∀ s ∈ servers, s.timeoutSeconds ≠ .nan
  folderRows : ∀ f ∈ folders, f.bindError = none
  extensions : ∀ f ∈ folders, f.extensionError = none

instance (servers : List Server) (folders : List Folder) :
    Decidable (Constraints servers folders) :=
  decidable_of_iff (((servers.map Server.id).Nodup ∧ (servers.map Server.name).Nodup ∧
      (folders.map Folder.id).Nodup ∧ ∀ f ∈ folders, f.serverId ∈ servers.map Server.id) ∧
      (∀ s ∈ servers, s.bindError = none) ∧ (∀ s ∈ servers, s.timeoutSeconds ≠ .nan) ∧
      (∀ f ∈ folders, f.bindError = none) ∧ ∀ f ∈ folders, f.extensionError = none)
    ⟨fun ⟨⟨h₁, h₂, h₃, h₄⟩, h₅, h₆, h₇, h₈⟩ => ⟨h₁, h₂, h₃, h₄, h₅, h₆, h₇, h₈⟩,
      fun ⟨h₁, h₂, h₃, h₄, h₅, h₆, h₇, h₈⟩ => ⟨⟨h₁, h₂, h₃, h₄⟩, h₅, h₆, h₇, h₈⟩⟩

theorem Constraints.filter {servers : List Server} {folders : List Folder}
    (h : Constraints servers folders) (p : Folder → Bool) :
    Constraints servers (folders.filter p) where
  serverIds := h.serverIds
  names := h.names
  folderIds := h.folderIds.sublist (List.filter_sublist.map _)
  foreignKey f hf := h.foreignKey f (List.mem_of_mem_filter hf)
  serverRows := h.serverRows
  timeouts := h.timeouts
  folderRows f hf := h.folderRows f (List.mem_of_mem_filter hf)
  extensions f hf := h.extensions f (List.mem_of_mem_filter hf)

/-- Rows are rewritten; columns other than the keys are free, as long as they can be bound. -/
theorem Constraints.map {servers : List Server} {folders : List Folder}
    (h : Constraints servers folders) {f : Folder → Folder} (hid : ∀ x ∈ folders, (f x).id = x.id)
    (hserver : ∀ x ∈ folders, (f x).serverId = x.serverId)
    (hbind : ∀ x ∈ folders, (f x).bindError = none)
    (hextensions : ∀ x ∈ folders, (f x).extensionError = none) :
    Constraints servers (folders.map f) where
  serverIds := h.serverIds
  names := h.names
  folderIds := by
    rw [List.map_map, List.map_congr_left (f := Folder.id ∘ f) (g := Folder.id) hid]
    exact h.folderIds
  foreignKey x hx := by
    obtain ⟨y, hy, rfl⟩ := List.mem_map.mp hx
    rw [hserver y hy]
    exact h.foreignKey y hy
  serverRows := h.serverRows
  timeouts := h.timeouts
  folderRows := List.forall_mem_map.mpr hbind
  extensions := List.forall_mem_map.mpr hextensions

structure Store where
  servers : List Server
  folders : List Folder
  /-- The INSERTs into `server` so far. -/
  inserts : Nat
  constraints : Constraints servers folders

/-- A migrated database with nothing in it. -/
def Store.empty : Store := ⟨[], [], 0, by decide⟩

/-- A computation that goes through, taken apart at a bind. -/
theorem bind_eq_ok {ε α β : Type} {x : Except ε α} {f : α → Except ε β} {b : β} :
    x >>= f = .ok b ↔ ∃ a, x = .ok a ∧ f a = .ok b := by
  cases x with
  | error e =>
      constructor
      · intro h
        cases h
      · rintro ⟨_, h, _⟩
        cases h
  | ok a =>
      constructor
      · intro h
        exact ⟨a, rfl, h⟩
      · rintro ⟨_, h, hf⟩
        cases h
        exact hf

/-- What a flush raises that does not go through, of its statements in their order: those on
`server`, on `folder` and on `filetype`.  A statement binds its values before it runs. -/
def flushError (servers : List Server) (folders : List Folder) : RepoError :=
  let unique := (servers.map Server.name).Nodup ∧ ∀ s ∈ servers, s.timeoutSeconds ≠ .nan
  let owned := ∀ f ∈ folders, f.serverId ∈ servers.map Server.id
  ((servers.findSome? Server.bindError).or <| (if unique then none else some .integrityError).or <|
    (folders.findSome? Folder.bindError).or <| (if owned then none else some .integrityError).or <|
    folders.findSome? Folder.extensionError).getD .integrityError

/-- The tables are written, unless they cannot hold the rows. -/
def Store.commit (store : Store) (servers : List Server) (folders : List Folder) :
    Except RepoError Store :=
  if h : Constraints servers folders then .ok { store with servers, folders, constraints := h }
  else .error (flushError servers folders)

/-- The id SQLite gives a new row. -/
def nextId (ids : List Int) : Int := ids.foldr max 0 + 1

theorem lt_nextId {ids : List Int} {i : Int} (h : i ∈ ids) : i < nextId ids := by
  induction ids with
  | nil => cases h
  | cons j ids ih =>
      rw [nextId, List.foldr_cons]
      rcases List.mem_cons.mp h with rfl | h
      · omega
      · have := ih h
        rw [nextId] at this
        omega

/-- What a commit leaves. -/
theorem Store.commit_eq_ok {store store' : Store} {servers : List Server} {folders : List Folder}
    (h : store.commit servers folders = .ok store') :
    store'.servers = servers ∧ store'.folders = folders ∧ store'.inserts = store.inserts := by
  rw [commit] at h
  split at h
  · cases h
    exact ⟨rfl, rfl, rfl⟩
  · cases h

theorem Store.commit_eq (store : Store) {servers : List Server} {folders : List Folder}
    (h : Constraints servers folders) :
    store.commit servers folders = .ok { store with servers, folders, constraints := h } :=
  dif_pos h

end MediaScanMonitor
