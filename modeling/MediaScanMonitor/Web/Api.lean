import MediaScanMonitor.Library.Resume
import MediaScanMonitor.Servers.Base
import MediaScanMonitor.Web.Forms

/-!
# Web — the routes of servers and folders

`api/servers.py` and `api/folders.py` with the read models of `api_schemas.py`, and what
`pages.py` adds to them: the detail page, and the two forms that save a server with its folders.
A call in a thread is a step, and between two of them other requests go on.
-/

namespace MediaScanMonitor
open Py Resume

/-! ### Read models -/

def ServerType.value : ServerType → Str
  | .webhook => str "webhook"
  | .plex => str "plex"
  | .emby => str "emby"
  | .jellyfin => str "jellyfin"
  | .audiobookshelf => str "audiobookshelf"

/-- `sorted(get_adapter_class(type).supported_scan_modes)`. -/
def ServerType.supportedScanModes : ServerType → List ScanMode
  | .webhook | .plex => [.library, .targeted]
  | .emby | .jellyfin | .audiobookshelf => [.library]

structure ServerRead where
  id : Int
  name : Str
  type : ServerType
  baseUrl : Str
  verifyTls : Bool
  timeoutSeconds : PyFloat
  hasSecret : Bool
  scanMode : ScanMode
  debounceMode : DebounceMode
  debounceWindowSeconds : Int
  retryAttempts : Int
  enabled : Bool
  supportedScanModes : List ScanMode
  webhookMethod : Option Str
  webhookHeadersJson : Option Str
  webhookBodyTemplate : Option Str
  webhookPayloadPreset : WebhookPreset
  eventTypes : List FsEventType
  folders : List FolderRead

/-- `ServerRead.from_model`; `none` where `parse_event_types` raises. -/
def ServerRead.fromModel (server : Server) (folders : List Folder) : Option ServerRead :=
  (parseEventTypes server.eventTypes).map fun eventTypes =>
    { id := server.id
      name := server.name
      type := server.type
      baseUrl := server.baseUrl
      verifyTls := server.verifyTls
      timeoutSeconds := server.timeoutSeconds
      hasSecret := server.secretEncrypted.isSome
      scanMode := server.scanMode
      debounceMode := server.debounceMode
      debounceWindowSeconds := server.debounceWindowSeconds
      retryAttempts := server.retryAttempts
      enabled := server.enabled
      supportedScanModes := server.type.supportedScanModes
      webhookMethod := server.webhookMethod
      webhookHeadersJson := server.webhookHeadersJson
      webhookBodyTemplate := server.webhookBodyTemplate
      webhookPayloadPreset := server.webhookPayloadPreset
      eventTypes := [.created, .movedTo, .deleted, .movedFrom].filter (· ∈ eventTypes)
      folders := folders.map FolderRead.fromModel }

/-! ### Steps -/

namespace Api

/-- What a route raises. -/
inductive Failure where
  /-- `HTTPException`. -/
  | http (statusCode : Int) (detail : Str)
  | keyError (text : Str)
  /-- What the repository raises, and no core translates. -/
  | uncaught (error : RepoError)
  /-- What `rebuild_engine` lets through, and `parse_event_types` raises. -/
  | raised (exc : PyError)
  | assertionError

abbrev Handler := Prog Store Failure

/-- What a core raises, with its text. -/
def failure (repr : Str → Str) : WriteError → Failure
  | .missingSecret type =>
    .http 422 (str "server type " ++ repr type.value ++ str " requires a secret/token")
  | .nameConflict name => .http 409 (str "A server named " ++ repr name ++ str " already exists.")
  | .notFound serverId => .keyError (str "server " ++ formatInt serverId ++ str " not found")
  | .uncaught error => .uncaught error

/-- `update_server` of `api/servers.py` turns a `KeyError` into a 404. -/
def apiFailure (repr : Str → Str) (error : WriteError) : Failure :=
  match failure repr error with
  | .keyError _ => .http 404 (str "server not found")
  | failure => failure

/-- `rebuild_engine`, where `engine.rebuild` raises this. -/
def swallowing (store : Store) : Option PyError → Except Failure (Store × Unit)
  | none | some .runtimeError => .ok (store, ())
  | some exc => .error (.raised exc)

/-- `rebuild_engine`: the engine reads its configuration, and then raises `raised`, if anything. -/
def rebuildEngine (lower : Str → Str) (box : SecretBox) (raised : Option PyError) : Handler Unit :=
  .call fun store =>
    match buildOrRaise lower box store with
    | .error exc => swallowing store (some exc)
    | .ok _ => swallowing store raised

/-- A method of the repository that returns nothing. -/
def commit (method : Store → Except RepoError Store) : Handler Unit :=
  .call fun store => ((method store).map fun store => (store, ())).mapError .uncaught

/-- A read by an id. -/
def lookup {α : Type} (read : Store → Except RepoError α) : Handler α :=
  .call fun store => ((read store).map fun found => (store, found)).mapError .uncaught

def fromModel (server : Server) (folders : List Folder) : Handler ServerRead :=
  match ServerRead.fromModel server folders with
  | some read => .answer read
  | none => .raise (.raised .valueError)

/-! ### `/api/servers` -/

/-- `_read_server`, and with another text `_load_server_read` of `pages.py`. -/
def readServer (detail : Str) (serverId : Int) : Handler ServerRead := do
  match ← lookup (·.findServer serverId) with
  | none => .raise (.http 404 detail)
  | some server =>
    let folders ← Prog.ask (·.listFolders serverId)
    fromModel server folders

def listServers : Handler (List ServerRead) := do
  let servers ← Prog.ask Store.servers
  servers.mapM fun server => do
    let folders ← Prog.ask (·.listFolders server.id)
    fromModel server folders

def getServer (serverId : Int) : Handler ServerRead :=
  readServer (str "server not found") serverId

section
variable (lower repr : Str → Str) (box : SecretBox) (raised : Option PyError)

def createServer (nonce : Nat) (data : ServerCreate) : Handler ServerRead := do
  let server ← Prog.call fun store =>
    (applyServerCreate box nonce store data).mapError (failure repr)
  rebuildEngine lower box raised
  readServer (str "server not found") server.id

/-- `apply_server_update` and `apply_server_update_with_folders`. -/
def saveUpdate (failure : WriteError → Failure) (nonce : Nat) (update : Update) : Handler Unit := do
  let existing ← Prog.call fun store =>
    ((update.check store).map fun existing => (store, existing)).mapError failure
  let _ ← Prog.call fun store => (update.write box nonce store existing).mapError failure
  rebuildEngine lower box raised

def updateServer (nonce : Nat) (serverId : Int) (data : ServerUpdate) : Handler ServerRead := do
  saveUpdate lower box raised (apiFailure repr) nonce ⟨serverId, data, none⟩
  readServer (str "server not found") serverId

def deleteServer (serverId : Int) : Handler Unit := do
  commit (·.deleteServer serverId)
  rebuildEngine lower box raised

/-! ### `/api/servers/{server_id}/folders` -/

/-- `_require_server`. -/
def requireServer (serverId : Int) : Handler Unit := do
  match ← lookup (·.findServer serverId) with
  | none => .raise (.http 404 (str "server not found"))
  | some _ => return

/-- `_owned_folder`. -/
def ownedFolder (serverId folderId : Int) : Handler Folder := do
  match ← lookup (·.findFolder folderId) with
  | none => .raise (.http 404 (str "folder not found"))
  | some folder =>
    if folder.serverId ≠ serverId then .raise (.http 404 (str "folder not found"))
    else return folder

def listFolders (serverId : Int) : Handler (List FolderRead) := do
  requireServer serverId
  let folders ← Prog.ask (·.listFolders serverId)
  return folders.map FolderRead.fromModel

def createFolder (serverId : Int) (data : FolderCreate) : Handler FolderRead := do
  requireServer serverId
  let created ← Prog.call fun store => (store.createFolder serverId data).mapError .uncaught
  rebuildEngine lower box raised
  match ← lookup (·.findFolder created.id) with
  | none => .raise .assertionError
  | some folder => return FolderRead.fromModel folder

def getFolder (serverId folderId : Int) : Handler FolderRead := do
  requireServer serverId
  let folder ← ownedFolder serverId folderId
  return FolderRead.fromModel folder

def updateFolder (serverId folderId : Int) (data : FolderUpdate) : Handler FolderRead := do
  requireServer serverId
  let _ ← ownedFolder serverId folderId
  let folder ← Prog.call fun store => (store.updateFolder lower folderId data).mapError .uncaught
  rebuildEngine lower box raised
  return FolderRead.fromModel folder

def deleteFolder (serverId folderId : Int) : Handler Unit := do
  requireServer serverId
  let _ ← ownedFolder serverId folderId
  commit (·.deleteFolder folderId)
  rebuildEngine lower box raised

/-! ### Forms -/

/-- What a route answers. -/
inductive Response where
  | server (read : ServerRead)
  | servers (reads : List ServerRead)
  | folder (read : FolderRead)
  | folders (reads : List FolderRead)
  | noContent
  /-- `HX-Redirect` to the page of the server. -/
  | redirect (serverId : Int)
  /-- `_saved.html`. -/
  | saved
  /-- `_error.html`, with the text of this. -/
  | errorPartial (failure : Failure)

/-- `except HTTPException`, `except ValueError`. -/
def showErrors : Failure → Handler Response
  | .http statusCode detail => .answer (.errorPartial (.http statusCode detail))
  | .uncaught .encodeError => .answer (.errorPartial (.uncaught .encodeError))
  | .raised .valueError => .answer (.errorPartial (.raised .valueError))
  | failure => .raise failure

/-- `except HTTPException`, `except (ValueError, KeyError)`. -/
def showKeyErrors : Failure → Handler Response
  | .keyError text => .answer (.errorPartial (.keyError text))
  | failure => showErrors failure

def uiCreateServerWithFolders (nonce : Nat) (data : ServerCreate) (folders : List FolderCreate) :
    Handler Response :=
  Prog.handle showErrors do
    let server ← Prog.call fun store =>
      (applyServerCreateWithFolders box nonce store data folders).mapError (failure repr)
    rebuildEngine lower box raised
    return .redirect server.id

def uiUpdateServer (nonce : Nat) (serverId : Int) (data : ServerUpdate)
    (folders : List FolderCreate) : Handler Response :=
  Prog.handle showKeyErrors do
    saveUpdate lower box raised (failure repr) nonce ⟨serverId, data, some folders⟩
    return .saved

end

/-! ### Requests -/

inductive Request where
  | listServers
  | getServer (serverId : Int)
  | createServer (raised : Option PyError) (nonce : Nat) (data : ServerCreate)
  | updateServer (raised : Option PyError) (nonce : Nat) (serverId : Int) (data : ServerUpdate)
  | deleteServer (raised : Option PyError) (serverId : Int)
  | listFolders (serverId : Int)
  | createFolder (raised : Option PyError) (serverId : Int) (data : FolderCreate)
  | getFolder (serverId folderId : Int)
  | updateFolder (raised : Option PyError) (serverId folderId : Int) (data : FolderUpdate)
  | deleteFolder (raised : Option PyError) (serverId folderId : Int)
  | serverDetail (serverId : Int)
  | uiCreateServerWithFolders (raised : Option PyError) (nonce : Nat) (data : ServerCreate)
    (folders : List FolderCreate)
  | uiUpdateServer (raised : Option PyError) (nonce : Nat) (serverId : Int) (data : ServerUpdate)
    (folders : List FolderCreate)

variable (lower repr : Str → Str) (box : SecretBox)

/-- The route of a request. -/
def handler : Request → Handler Response
  | .listServers => .servers <$> listServers
  | .getServer serverId => .server <$> getServer serverId
  | .createServer raised nonce data =>
    .server <$> createServer lower repr box raised nonce data
  | .updateServer raised nonce serverId data =>
    .server <$> updateServer lower repr box raised nonce serverId data
  | .deleteServer raised serverId => do
    deleteServer lower box raised serverId
    return .noContent
  | .listFolders serverId => .folders <$> listFolders serverId
  | .createFolder raised serverId data => .folder <$> createFolder lower box raised serverId data
  | .getFolder serverId folderId => .folder <$> getFolder serverId folderId
  | .updateFolder raised serverId folderId data =>
    .folder <$> updateFolder lower box raised serverId folderId data
  | .deleteFolder raised serverId folderId => do
    deleteFolder lower box raised serverId folderId
    return .noContent
  | .serverDetail serverId =>
    .server <$> readServer (str "server " ++ formatInt serverId ++ str " not found") serverId
  | .uiCreateServerWithFolders raised nonce data folders =>
    uiCreateServerWithFolders lower repr box raised nonce data folders
  | .uiUpdateServer raised nonce serverId data folders =>
    uiUpdateServer lower repr box raised nonce serverId data folders

/-- The site after requests came in and took their steps, from an empty database. -/
def run (acts : List (Act Request)) : State Store Failure Response :=
  State.run (handler lower repr box) .empty acts

end Api

end MediaScanMonitor
