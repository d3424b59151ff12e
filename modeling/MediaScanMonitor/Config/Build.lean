import MediaScanMonitor.Db.Repo

/-!
# Config — `build_runtime_config`

`build_runtime_config` reads the servers once and then the folders of each, in reads of their own
between which other requests may commit.  `Reading` is where it is between two reads.

* `Reading.Current`: what is left to read, read from the database as it is now, gives what
  `build_runtime_config` gives now.
-/

namespace MediaScanMonitor
open Py

/-- `IGNORE_DIRS`. -/
def ignoreDirs : List Str := [str "@eaDir", str "#snapshot", str "#recycle", str "@tmp"]

/-- The `ServerRuntime` of a row, with its secret decrypted. -/
def Server.runtime (server : Server) (secret : Option Str) : ServerRuntime where
  serverId := server.id
  name := server.name
  type := server.type
  baseUrl := server.baseUrl
  verifyTls := server.verifyTls
  timeoutSeconds := server.timeoutSeconds
  secret := secret
  scanMode := server.scanMode
  debounceMode := server.debounceMode
  debounceWindowSeconds := server.debounceWindowSeconds
  retryAttempts := server.retryAttempts
  webhookMethod := server.webhookMethod
  webhookHeadersJson := server.webhookHeadersJson
  webhookBodyTemplate := server.webhookBodyTemplate
  webhookPayloadPreset := server.webhookPayloadPreset

/-- The `FolderRoute` of a folder of the server; `none` where `parse_event_types` raises. -/
def Server.folderRoute (lower : Str → Str) (server : Server) (folder : Folder) :
    Option FolderRoute :=
  (parseEventTypes server.eventTypes).map fun eventTypes =>
    { serverId := server.id
      serverName := server.name
      path := normalizePath folder.path
      extensions := (folder.filetypes.map (normalizeExtension lower)).dedup
      libraryId := folder.libraryId
      scanMode := server.scanMode
      eventTypes := eventTypes }

/-- What the loop has assembled. -/
structure Assembly where
  servers : List (Σ _ : Int, ServerRuntime)
  routes : List FolderRoute
  watchPaths : List Str
  /-- The rows it went through, by server: read by nothing in the code. -/
  rows : List (Σ _ : Int, Nat)
  keys : rows.keys = servers.keys

def Assembly.empty : Assembly := ⟨[], [], [], [], rfl⟩

/-- One iteration of the loop, whose `list_folders` reads `store`; `none` where it raises. -/
def Assembly.add (lower : Str → Str) (box : SecretBox) (store : Store) (a : Assembly)
    (server : Server) : Option Assembly := do
  let secret ← Store.resolveSecret box server
  let routes ← ((store.listFolders server.id).filter (·.enabled)).mapM (server.folderRoute lower)
  return {
    servers := a.servers ++ [⟨server.id, server.runtime secret⟩]
    routes := a.routes ++ routes
    watchPaths := a.watchPaths ++ routes.map FolderRoute.path
    rows := a.rows ++ [⟨server.id, server.row⟩]
    keys := by
      have h := a.keys
      simp only [List.keys] at h
      simp [List.keys, h] }

/-- The snapshot returned. -/
def Assembly.config (a : Assembly) : RuntimeConfig where
  watchPaths := a.watchPaths.dedup
  routes := a.routes
  servers := a.servers.toAList
  ignoreDirs := ignoreDirs

theorem mem_toAList {β : Type} {l : List (Σ _ : Int, β)} {i : Int} :
    i ∈ l.toAList ↔ i ∈ l.keys := by
  rw [← AList.lookup_isSome, AList.lookup_to_alist, List.dlookup_isSome]

/-- Every server of the snapshot was read from a row. -/
theorem Assembly.mem_rows (a : Assembly) {serverId : Int} (h : serverId ∈ a.config.servers) :
    serverId ∈ a.rows.toAList := by
  rw [mem_toAList, a.keys]
  exact mem_toAList.mp h

/-- `build_runtime_config`, when nothing is committed in between; `none` where it raises. -/
def buildRuntimeConfig (lower : Str → Str) (box : SecretBox) (store : Store) :
    Option RuntimeConfig :=
  (store.listServers.foldlM (Assembly.add lower box store) .empty).map Assembly.config

/-- What it returns for the database of a test. -/
def configOf (store : Store) : RuntimeConfig :=
  (buildRuntimeConfig asciiLower markBox store).getD Assembly.empty.config

/-! ### One read at a time -/

/-- `build_runtime_config` between two reads: the servers to go, and what is assembled. -/
structure Reading where
  todo : List Server
  done : Assembly

namespace Reading
variable (lower : Str → Str) (box : SecretBox) (store : Store) {r r' : Reading}

/-- `list_servers` has read `store`. -/
def start : Reading := ⟨store.listServers, .empty⟩

/-- `list_folders` reads `store` for the next server; `none` where the iteration raises, and where
there is no server to go. -/
def next (r : Reading) : Option Reading :=
  match r.todo with
  | [] => none
  | server :: todo => (r.done.add lower box store server).map fun done => ⟨todo, done⟩

/-- Read to its end from `store`, the reading gives what `build_runtime_config` gives. -/
def Current (r : Reading) : Prop :=
  (r.todo.foldlM (Assembly.add lower box store) r.done).map Assembly.config =
    buildRuntimeConfig lower box store

theorem current_start : (start store).Current lower box store := rfl

variable {lower box store}

theorem Current.next (h : r.Current lower box store) (hr : r.next lower box store = some r') :
    r'.Current lower box store := by
  obtain ⟨todo, done⟩ := r
  cases todo with
  | nil => cases hr
  | cons server todo =>
      obtain ⟨done', hadd, rfl⟩ := Option.map_eq_some_iff.mp hr
      rw [Current] at h ⊢
      rwa [List.foldlM_cons, hadd] at h

/-- A current reading that has come to its end has read the current configuration. -/
theorem Current.config_eq (h : r.Current lower box store) (ht : r.todo = []) :
    buildRuntimeConfig lower box store = some r.done.config := by
  rw [← h, ht]
  rfl

end Reading

end MediaScanMonitor
