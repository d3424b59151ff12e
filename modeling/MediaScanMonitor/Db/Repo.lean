import MediaScanMonitor.Db.Schemas

/-!
# Db — `Repo`

The methods of `db/repo.py`, each as one transaction.  A flush inserts before it deletes, so the
ids of the new rows count on from the rows that are still there.  An `UPDATE` binds its values
before it meets a null.

* `exists_createFolder`, `exists_replaceFolders`, `exists_updateFolder`: what goes through.
-/

namespace MediaScanMonitor
open Py

/-- `self._box.encrypt(secret) if secret is not None else None`. -/
def SecretBox.seal (box : SecretBox) (nonce : Nat) : Option Str → Except RepoError (Option Str)
  | none => .ok none
  | some secret =>
    match box.encrypt nonce secret with
    | some token => .ok (some token)
    | none => .error .encodeError

/-- The row of a validated folder. -/
def FolderCreate.row (data : FolderCreate) (id serverId : Int) : Folder where
  id := id
  serverId := serverId
  path := data.path
  libraryId := data.libraryId
  libraryName := data.libraryName
  enabled := data.enabled
  filetypes := data.extensions

/-- The rows `_set_server_folders` adds to a table with these ids. -/
def newFolders (serverId : Int) (ids : List Int) (folders : List FolderCreate) : List Folder :=
  folders.zipIdx.map fun (data, k) => data.row (nextId ids + k) serverId

/-- The driver can bind what the folder is stored with. -/
def FolderCreate.Storable (data : FolderCreate) : Prop :=
  (data.row 0 0).bindError = none ∧ (data.row 0 0).extensionError = none

instance : DecidablePred FolderCreate.Storable :=
  fun _ => inferInstanceAs (Decidable (_ ∧ _))

/-- The payload a row would come from. -/
def Folder.data (folder : Folder) : FolderCreate where
  path := folder.path
  libraryId := folder.libraryId
  libraryName := folder.libraryName
  extensions := folder.filetypes
  enabled := folder.enabled

section
variable {serverId : Int} {ids : List Int} {folders : List FolderCreate} {row : Folder}

theorem data_newFolders : (newFolders serverId ids folders).map Folder.data = folders := by
  rw [newFolders, List.map_map]
  exact List.zipIdx_map_fst 0 folders

theorem data_mem_of_mem_newFolders (h : row ∈ newFolders serverId ids folders) :
    row.data ∈ folders := by
  rw [← @data_newFolders serverId ids folders]
  exact List.mem_map_of_mem h

/-- The new rows count on from the ids there are. -/
theorem of_mem_newFolders (h : row ∈ newFolders serverId ids folders) :
    row.serverId = serverId ∧ nextId ids ≤ row.id ∧ row.id < nextId ids + folders.length := by
  obtain ⟨⟨data, k⟩, hk, rfl⟩ := List.mem_map.mp h
  have hlt := (List.mem_zipIdx hk).2.1
  refine ⟨rfl, ?_, ?_⟩ <;> simp only [FolderCreate.row] <;> omega

theorem exists_mem_newFolders (serverId : Int) {i : Int} (hle : nextId ids ≤ i)
    (hlt : i < nextId ids + folders.length) :
    ∃ row ∈ newFolders serverId ids folders, row.id = i := by
  have hk : (i - nextId ids).toNat < folders.length := by omega
  have hmem : (folders[(i - nextId ids).toNat], (i - nextId ids).toNat) ∈ folders.zipIdx :=
    List.mk_mem_zipIdx_iff_getElem?.mpr (List.getElem?_eq_getElem hk)
  refine ⟨_, List.mem_map.mpr ⟨_, hmem, rfl⟩, ?_⟩
  simp only [FolderCreate.row]
  omega

theorem nodup_newFolders : ((newFolders serverId ids folders).map Folder.id).Nodup := by
  rw [newFolders, List.map_map]
  have hids : folders.zipIdx.map (Folder.id ∘ fun (data, k) => data.row (nextId ids + k) serverId) =
      (List.range folders.length).map fun k : Nat => nextId ids + k := by
    rw [List.range_eq_range', ← List.zipIdx_map_snd 0 folders, List.map_map]
    rfl
  rw [hids]
  exact List.nodup_range.map fun i j h => Int.ofNat_inj.mp (by simpa using h)

/-- The payload of a row that is there can be stored. -/
theorem Constraints.storable {servers : List Server} {rows : List Folder}
    (h : Constraints servers rows) (hrow : row ∈ rows) : row.data.Storable :=
  ⟨h.folderRows row hrow, h.extensions row hrow⟩

/-- So can that of a new row, where it is written. -/
theorem Constraints.storable_newFolders {servers : List Server} {rows : List Folder}
    (h : Constraints servers (rows ++ newFolders serverId ids folders)) :
    ∀ data ∈ folders, data.Storable := by
  rw [← @data_newFolders serverId ids folders, List.forall_mem_map]
  intro row hrow
  exact h.storable (List.mem_append_right rows hrow)

/-- New rows for a server that is there. -/
theorem Constraints.append_newFolders {servers : List Server} {rows : List Folder}
    (h : Constraints servers rows) (hserver : serverId ∈ servers.map Server.id)
    (hids : ∀ f ∈ rows, f.id ∈ ids) (hfolders : ∀ data ∈ folders, data.Storable) :
    Constraints servers (rows ++ newFolders serverId ids folders) where
  serverIds := h.serverIds
  names := h.names
  folderIds := by
    rw [List.map_append, List.nodup_append]
    refine ⟨h.folderIds, nodup_newFolders, ?_⟩
    intro i hi j hj
    obtain ⟨f, hf, rfl⟩ := List.mem_map.mp hi
    obtain ⟨row, hrow, rfl⟩ := List.mem_map.mp hj
    have := lt_nextId (hids f hf)
    have := (of_mem_newFolders hrow).2.1
    omega
  foreignKey f hf := by
    rcases List.mem_append.mp hf with hf | hf
    · exact h.foreignKey f hf
    · rw [(of_mem_newFolders hf).1]
      exact hserver
  serverRows := h.serverRows
  timeouts := h.timeouts
  folderRows f hf := by
    rcases List.mem_append.mp hf with hf | hf
    · exact h.folderRows f hf
    · exact (hfolders f.data (data_mem_of_mem_newFolders hf)).1
  extensions f hf := by
    rcases List.mem_append.mp hf with hf | hf
    · exact h.extensions f hf
    · exact (hfolders f.data (data_mem_of_mem_newFolders hf)).2

end

/-- `update_server`: the attributes it sets, or what their `UPDATE` raises. -/
def Server.update (box : SecretBox) (nonce : Nat) (server : Server) (data : ServerUpdate) :
    Except RepoError Server := do
  let secretEncrypted ←
    match data.secret with
    | none => pure server.secretEncrypted
    | some secret => box.seal nonce secret
  raiseIf data.bindError
  let name ← setColumn data.name server.name
  let type ← setColumn data.type server.type
  let baseUrl ← setColumn data.baseUrl server.baseUrl
  let verifyTls ← setColumn data.verifyTls server.verifyTls
  let timeoutSeconds ← setColumn data.timeoutSeconds server.timeoutSeconds
  let scanMode ← setColumn data.scanMode server.scanMode
  let debounceMode ← setColumn data.debounceMode server.debounceMode
  let debounceWindowSeconds ← setColumn data.debounceWindowSeconds server.debounceWindowSeconds
  let retryAttempts ← setColumn data.retryAttempts server.retryAttempts
  let enabled ← setColumn data.enabled server.enabled
  let webhookPayloadPreset ← setColumn data.webhookPayloadPreset server.webhookPayloadPreset
  return { server with
    name, type, baseUrl, verifyTls, timeoutSeconds, secretEncrypted, scanMode, debounceMode
    debounceWindowSeconds, retryAttempts, enabled, webhookPayloadPreset
    webhookMethod := setNullable data.webhookMethod server.webhookMethod
    webhookHeadersJson := setNullable data.webhookHeadersJson server.webhookHeadersJson
    webhookBodyTemplate := setNullable data.webhookBodyTemplate server.webhookBodyTemplate
    -- an explicit null is as good as left out
    eventTypes :=
      match data.eventTypes.join with
      | some types => serializeEventTypes types
      | none => server.eventTypes }

/-- What an update leaves in the columns the secret depends on. -/
theorem Server.update_eq_ok {box : SecretBox} {nonce : Nat} {server server' : Server}
    {data : ServerUpdate} (h : server.update box nonce data = .ok server') :
    server'.id = server.id ∧ server'.type = data.type.join.getD server.type ∧
      match data.secret with
      | none => server'.secretEncrypted = server.secretEncrypted
      | some secret => box.seal nonce secret = .ok server'.secretEncrypted := by
  cases hsecret : data.secret with
  | none =>
      simp only [update, hsecret, bind_eq_ok] at h
      obtain ⟨_, htoken, _, -, name, -, type, htype, _, -, _, -, _, -, _, -, _, -, _, -, _, -, _, -,
        _, -, hpure⟩ := h
      cases htoken
      cases hpure
      exact ⟨rfl, setColumn_eq_ok htype, rfl⟩
  | some secret =>
      simp only [update, hsecret, bind_eq_ok] at h
      obtain ⟨_, htoken, _, -, name, -, type, htype, _, -, _, -, _, -, _, -, _, -, _, -, _, -, _, -,
        _, -, hpure⟩ := h
      cases hpure
      exact ⟨rfl, setColumn_eq_ok htype, htoken⟩

/-- `update_folder`: the attributes it sets, or what their `UPDATE` raises. -/
def Folder.update (lower : Str → Str) (folder : Folder) (data : FolderUpdate) :
    Except RepoError Folder := do
  raiseIf data.bindError
  let path ← setColumn data.path folder.path
  let enabled ← setColumn data.enabled folder.enabled
  return { folder with
    path, enabled
    libraryId := setNullable data.libraryId folder.libraryId
    filetypes :=
      match data.extensions.join with
      | some exts => ((exts.map (normalizeExtension lower)).filter (· ≠ [])).eraseDups
      | none => folder.filetypes }

/-- What the driver raises at the extensions an update sets. -/
def FolderUpdate.extensionError (lower : Str → Str) (data : FolderUpdate) : Option RepoError :=
  data.extensions.join.bind fun exts =>
    (((exts.map (normalizeExtension lower)).filter (· ≠ [])).eraseDups).findSome? textError

/-- An update that is written, to a row that is there: no explicit null, and all can be bound. -/
structure FolderUpdate.Storable (lower : Str → Str) (data : FolderUpdate) : Prop where
  path : data.path ≠ some none
  enabled : data.enabled ≠ some none
  columns : data.bindError = none
  extensions : data.extensionError lower = none

instance (lower : Str → Str) : DecidablePred (FolderUpdate.Storable lower) := fun data =>
  decidable_of_iff (data.path ≠ some none ∧ data.enabled ≠ some none ∧ data.bindError = none ∧
      data.extensionError lower = none)
    ⟨fun ⟨h₁, h₂, h₃, h₄⟩ => ⟨h₁, h₂, h₃, h₄⟩, fun ⟨h₁, h₂, h₃, h₄⟩ => ⟨h₁, h₂, h₃, h₄⟩⟩

section
variable {lower : Str → Str} {folder folder' : Folder} {data : FolderUpdate}

theorem Folder.update_eq_ok (h : folder.update lower data = .ok folder') :
    (folder'.id = folder.id ∧ folder'.serverId = folder.serverId) ∧
      data.path ≠ some none ∧ data.enabled ≠ some none ∧ data.bindError = none := by
  simp only [update, bind_eq_ok] at h
  obtain ⟨_, hbind, _, hpath, _, henabled, hpure⟩ := h
  cases hpure
  exact ⟨⟨rfl, rfl⟩, ne_null_of_setColumn hpath, ne_null_of_setColumn henabled,
    raiseIf_eq_ok.mp hbind⟩

theorem Folder.bindError_update (h : folder.update lower data = .ok folder')
    (hfolder : folder.bindError = none) : folder'.bindError = none := by
  have hdata := (Folder.update_eq_ok h).2.2.2
  simp only [update, bind_eq_ok] at h
  obtain ⟨_, -, _, hpath, _, -, hpure⟩ := h
  cases hpure
  simp only [bindError, FolderUpdate.bindError, Option.or_eq_none_iff] at hfolder hdata ⊢
  refine ⟨?_, error_setNullable hfolder.2.1 hdata.2, hfolder.2.2⟩
  rw [setColumn_eq_ok hpath]
  exact error_getD hfolder.1 hdata.1

theorem Folder.extensionError_update (h : folder.update lower data = .ok folder')
    (hfolder : folder.extensionError = none) :
    folder'.extensionError = data.extensionError lower := by
  simp only [update, bind_eq_ok] at h
  obtain ⟨_, -, _, -, _, -, hpure⟩ := h
  cases hpure
  rw [extensionError, FolderUpdate.extensionError]
  cases data.extensions.join with
  | none => exact hfolder
  | some exts => rfl

theorem Folder.exists_update (folder : Folder) (h : data.Storable lower) :
    ∃ folder', folder.update lower data = .ok folder' := by
  obtain ⟨path, hp⟩ := exists_setColumn folder.path h.path
  obtain ⟨enabled, he⟩ := exists_setColumn folder.enabled h.enabled
  simp only [update, bind_eq_ok]
  exact ⟨_, (), raiseIf_eq_ok.mpr h.columns, path, hp, enabled, he, rfl⟩

end

namespace Store
variable (lower : Str → Str) (box : SecretBox) (store : Store)

/-! ### Servers -/

/-- The row of a server. -/
def getServer (serverId : Int) : Option Server := store.servers.find? (·.id = serverId)

/-- `get_server`. -/
def findServer (serverId : Int) : Except RepoError (Option Server) := do
  raiseIf (intError serverId)
  return store.getServer serverId

/-- `session.get(Server, server_id)`, with the `KeyError` of an update. -/
def requireServer (serverId : Int) : Except RepoError Server := do
  match ← store.findServer serverId with
  | none => throw .keyError
  | some server => return server

theorem map_fst_eq_ok {ε α β : Type} {x : Except ε (α × β)} {a : α} (h : x.map Prod.fst = .ok a) :
    ∃ b, x = .ok (a, b) := by
  cases x with
  | error error => cases h
  | ok pair =>
      cases h
      exact ⟨pair.2, rfl⟩

theorem findServer_eq {serverId : Int} (h : intError serverId = none) :
    store.findServer serverId = .ok (store.getServer serverId) := by
  rw [findServer, h]
  rfl

theorem findServer_error {serverId : Int} {error : RepoError}
    (h : intError serverId = some error) : store.findServer serverId = .error error := by
  rw [findServer, h]
  rfl

theorem requireServer_eq_ok {serverId : Int} {server : Server} :
    store.requireServer serverId = .ok server ↔
      intError serverId = none ∧ store.getServer serverId = some server := by
  rw [requireServer, findServer]
  cases intError serverId <;> cases store.getServer serverId <;>
    simp [raiseIf, bind, Except.bind, pure, Except.pure, throw, throwThe, MonadExceptOf.throw]

theorem getServer_isSome {serverId : Int} :
    (store.getServer serverId).isSome ↔ serverId ∈ store.servers.map Server.id := by
  rw [getServer, List.find?_isSome, List.mem_map]
  simp

theorem getServer_eq_some {store : Store} {serverId : Int} {server : Server}
    (h : store.getServer serverId = some server) : server ∈ store.servers ∧ server.id = serverId :=
  ⟨List.mem_of_find?_eq_some h, by simpa using List.find?_some h⟩

/-- Ids tell servers apart. -/
theorem server_ext {store : Store} {s t : Server} (hs : s ∈ store.servers) (ht : t ∈ store.servers)
    (h : s.id = t.id) : s = t :=
  List.inj_on_of_nodup_map store.constraints.serverIds hs ht h

/-- `list_servers(enabled_only=True)`. -/
def listServers : List Server := store.servers.filter (·.enabled)

/-- The row of a new server. -/
def newServer (data : ServerCreate) (secretEncrypted : Option Str) : Server where
  id := nextId (store.servers.map Server.id)
  name := data.name
  type := data.type
  baseUrl := data.baseUrl
  verifyTls := data.verifyTls
  timeoutSeconds := data.timeoutSeconds
  secretEncrypted := secretEncrypted
  scanMode := data.scanMode
  debounceMode := data.debounceMode
  debounceWindowSeconds := data.debounceWindowSeconds
  retryAttempts := data.retryAttempts
  enabled := data.enabled
  webhookMethod := data.webhookMethod
  webhookHeadersJson := data.webhookHeadersJson
  webhookBodyTemplate := data.webhookBodyTemplate
  webhookPayloadPreset := data.webhookPayloadPreset
  eventTypes := serializeEventTypes data.eventTypes
  row := store.inserts

/-- `create_server_with_folders`. -/
def createServerWithFolders (nonce : Nat) (data : ServerCreate) (folders : List FolderCreate) :
    Except RepoError (Store × Server) := do
  let secretEncrypted ← box.seal nonce data.secret
  let server := store.newServer data secretEncrypted
  let store' ← { store with inserts := store.inserts + 1 }.commit (store.servers ++ [server])
    (store.folders ++ newFolders server.id (store.folders.map Folder.id) folders)
  return (store', server)

/-- `create_server`. -/
def createServer (nonce : Nat) (data : ServerCreate) : Except RepoError (Store × Server) :=
  store.createServerWithFolders box nonce data []

/-- The table with the row of `server` written. -/
def putServer (server : Server) : List Server :=
  store.servers.map fun s => if s.id = server.id then server else s

/-- Writing a row as it is changes nothing. -/
theorem putServer_self {server : Server} (h : server ∈ store.servers) :
    store.putServer server = store.servers := by
  rw [putServer]
  refine (List.map_congr_left fun s hs => ?_).trans (List.map_id _)
  split
  case isTrue hid => exact (server_ext hs h hid).symm
  case isFalse => rfl

/-- `update_server`. -/
def updateServer (nonce : Nat) (serverId : Int) (data : ServerUpdate) :
    Except RepoError (Store × Server) := do
  let server ← store.requireServer serverId
  let server ← server.update box nonce data
  let store' ← store.commit (store.putServer server) store.folders
  return (store', server)

/-- The ids of the server's folders, as a session loads them. -/
def folderIdsOf (serverId : Int) : List Int :=
  (store.folders.filter (·.serverId = serverId)).map Folder.id

/-- The folder table when the rows a session has read are deleted and its own inserted. -/
def replaceFolders (serverId : Int) (read : List Int) (folders : List FolderCreate) :
    List Folder :=
  store.folders.filter (·.id ∉ read) ++
    newFolders serverId (store.folders.map Folder.id) folders

/-- `update_server_with_folders`. -/
def updateServerWithFolders (nonce : Nat) (serverId : Int) (data : ServerUpdate)
    (folders : List FolderCreate) : Except RepoError (Store × Server) := do
  let server ← store.requireServer serverId
  let server ← server.update box nonce data
  let store' ← store.commit (store.putServer server)
    (store.replaceFolders serverId (store.folderIdsOf serverId) folders)
  return (store', server)

theorem createServerWithFolders_eq_ok {nonce : Nat} {data : ServerCreate}
    {folders : List FolderCreate} {store' : Store} {server : Server}
    (h : store.createServerWithFolders box nonce data folders = .ok (store', server)) :
    ∃ token, box.seal nonce data.secret = .ok token ∧
      store'.servers = store.servers ++ [store.newServer data token] := by
  simp only [createServerWithFolders, bind_eq_ok] at h
  obtain ⟨token, htoken, _, hcommit, hpure⟩ := h
  cases hpure
  exact ⟨token, htoken, (commit_eq_ok hcommit).1⟩

theorem updateServer_eq_ok {nonce : Nat} {serverId : Int} {data : ServerUpdate} {store' : Store}
    {server' : Server} (h : store.updateServer box nonce serverId data = .ok (store', server')) :
    ∃ server, store.getServer serverId = some server ∧
      server.update box nonce data = .ok server' ∧ store'.servers = store.putServer server' := by
  simp only [updateServer, bind_eq_ok, requireServer_eq_ok] at h
  obtain ⟨server, ⟨-, hget⟩, _, hupdate, _, hcommit, hpure⟩ := h
  cases hpure
  exact ⟨server, hget, hupdate, (commit_eq_ok hcommit).1⟩

theorem updateServerWithFolders_eq_ok {nonce : Nat} {serverId : Int} {data : ServerUpdate}
    {folders : List FolderCreate} {store' : Store} {server' : Server}
    (h : store.updateServerWithFolders box nonce serverId data folders = .ok (store', server')) :
    ∃ server, store.getServer serverId = some server ∧
      server.update box nonce data = .ok server' ∧ store'.servers = store.putServer server' := by
  simp only [updateServerWithFolders, bind_eq_ok, requireServer_eq_ok] at h
  obtain ⟨server, ⟨-, hget⟩, _, hupdate, _, hcommit, hpure⟩ := h
  cases hpure
  exact ⟨server, hget, hupdate, (commit_eq_ok hcommit).1⟩

/-- `delete_server`, with the folders the cascade takes along. -/
def deleteServer (serverId : Int) : Except RepoError Store := do
  raiseIf (intError serverId)
  store.commit (store.servers.filter (·.id ≠ serverId))
    (store.folders.filter (·.serverId ≠ serverId))

/-! ### Folders -/

/-- The row of a folder. -/
def getFolder (folderId : Int) : Option Folder := store.folders.find? (·.id = folderId)

/-- `get_folder`. -/
def findFolder (folderId : Int) : Except RepoError (Option Folder) := do
  raiseIf (intError folderId)
  return store.getFolder folderId

/-- `session.get(Folder, folder_id)`, with the `KeyError` of an update. -/
def requireFolder (folderId : Int) : Except RepoError Folder := do
  match ← store.findFolder folderId with
  | none => throw .keyError
  | some folder => return folder

/-- `list_folders`, of a server that is there. -/
def listFolders (serverId : Int) : List Folder := store.folders.filter (·.serverId = serverId)

/-- `create_folder`. -/
def createFolder (serverId : Int) (data : FolderCreate) : Except RepoError (Store × Folder) := do
  raiseIf (intError serverId)
  let folder := data.row (nextId (store.folders.map Folder.id)) serverId
  let store' ← store.commit store.servers (store.folders ++ [folder])
  return (store', folder)

/-- The table with the row of `folder` written. -/
def putFolder (folder : Folder) : List Folder :=
  store.folders.map fun f => if f.id = folder.id then folder else f

/-- `update_folder`. -/
def updateFolder (folderId : Int) (data : FolderUpdate) : Except RepoError (Store × Folder) := do
  let folder ← store.requireFolder folderId
  let folder ← folder.update lower data
  let store' ← store.commit store.servers (store.putFolder folder)
  return (store', folder)

/-- `delete_folder`. -/
def deleteFolder (folderId : Int) : Except RepoError Store := do
  raiseIf (intError folderId)
  store.commit store.servers (store.folders.filter (·.id ≠ folderId))

theorem findFolder_eq {folderId : Int} (h : intError folderId = none) :
    store.findFolder folderId = .ok (store.getFolder folderId) := by
  rw [findFolder, h]
  rfl

theorem findFolder_error {folderId : Int} {error : RepoError}
    (h : intError folderId = some error) : store.findFolder folderId = .error error := by
  rw [findFolder, h]
  rfl

theorem findFolder_eq_ok {folderId : Int} {found : Option Folder} :
    store.findFolder folderId = .ok found ↔
      intError folderId = none ∧ store.getFolder folderId = found := by
  cases hid : intError folderId with
  | none => simp [findFolder_eq store hid]
  | some error => simp [findFolder_error store hid]

theorem requireFolder_eq_ok {folderId : Int} {folder : Folder} :
    store.requireFolder folderId = .ok folder ↔
      intError folderId = none ∧ store.getFolder folderId = some folder := by
  rw [requireFolder, findFolder]
  cases intError folderId <;> cases store.getFolder folderId <;>
    simp [raiseIf, bind, Except.bind, pure, Except.pure, throw, throwThe, MonadExceptOf.throw]

/-- The folder that is created is the row that is committed. -/
theorem createFolder_eq_ok {store' : Store} {serverId : Int} {data : FolderCreate}
    {folder : Folder} (h : store.createFolder serverId data = .ok (store', folder)) :
    folder = data.row (nextId (store.folders.map Folder.id)) serverId ∧
      store.commit store.servers (store.folders ++ [folder]) = .ok store' := by
  simp only [createFolder, bind_eq_ok] at h
  obtain ⟨_, -, _, hcommit, hpure⟩ := h
  cases hpure
  exact ⟨rfl, hcommit⟩

/-- What is created: a folder that can be stored, of a server that is there. -/
theorem inserted_of_createFolder {store' : Store} {serverId : Int} {data : FolderCreate}
    {folder : Folder} (h : store.createFolder serverId data = .ok (store', folder)) :
    ((store.getServer serverId).isSome ∧ intError serverId = none ∧ data.Storable) ∧
      store'.folders =
        store.folders ++ newFolders serverId (store.folders.map Folder.id) [data] := by
  obtain ⟨hfolder, hcommit⟩ := createFolder_eq_ok store h
  obtain ⟨hservers, hfolders, -⟩ := commit_eq_ok hcommit
  have hnew : [folder] = newFolders serverId (store.folders.map Folder.id) [data] := by
    rw [hfolder]
    simp [newFolders]
  have hmem : folder ∈ store'.folders := by
    rw [hfolders]
    exact List.mem_append_right _ List.mem_cons_self
  have hforeign := store'.constraints.foreignKey folder hmem
  rw [hservers, hfolder] at hforeign
  have hconstraints := store'.constraints
  rw [hfolders, hnew] at hconstraints
  simp only [createFolder, bind_eq_ok] at h
  obtain ⟨_, hid, -⟩ := h
  refine ⟨⟨(store.getServer_isSome).mpr hforeign, raiseIf_eq_ok.mp hid, ?_⟩, hnew ▸ hfolders⟩
  exact hconstraints.storable_newFolders data (List.mem_singleton_self data)

theorem deleteServer_eq_ok {store' : Store} {serverId : Int} :
    store.deleteServer serverId = .ok store' ↔ intError serverId = none ∧
      store.commit (store.servers.filter (·.id ≠ serverId))
        (store.folders.filter (·.serverId ≠ serverId)) = .ok store' := by
  rw [deleteServer]
  cases intError serverId <;> simp [raiseIf, bind, Except.bind]

theorem deleteFolder_eq_ok {store' : Store} {folderId : Int} :
    store.deleteFolder folderId = .ok store' ↔ intError folderId = none ∧
      store.commit store.servers (store.folders.filter (·.id ≠ folderId)) = .ok store' := by
  rw [deleteFolder]
  cases intError folderId <;> simp [raiseIf, bind, Except.bind]

section
variable {serverId : Int} (hserver : (store.getServer serverId).isSome)
include hserver

/-- A replacement goes through where its server is there and its folders can be stored. -/
theorem exists_replaceFolders (read : List Int) {folders : List FolderCreate}
    (hfolders : ∀ data ∈ folders, data.Storable) :
    ∃ store', store.commit store.servers (store.replaceFolders serverId read folders) = .ok store' ∧
      store'.servers = store.servers ∧
      store'.folders = store.replaceFolders serverId read folders := by
  refine ⟨_, commit_eq store (Constraints.append_newFolders (store.constraints.filter _)
    ((store.getServer_isSome).mp hserver) ?_ hfolders), rfl, rfl⟩
  intro f hf
  exact List.mem_map_of_mem (List.mem_of_mem_filter hf)

theorem exists_createFolder (hid : intError serverId = none) {data : FolderCreate}
    (hdata : data.Storable) :
    ∃ store' folder, store.createFolder serverId data = .ok (store', folder) ∧
      store'.folders =
        store.folders ++ newFolders serverId (store.folders.map Folder.id) [data] := by
  have hconstraints : Constraints store.servers (store.folders ++ newFolders serverId
      (store.folders.map Folder.id) [data]) :=
    store.constraints.append_newFolders ((store.getServer_isSome).mp hserver)
      (fun f hf => List.mem_map_of_mem hf) (List.forall_mem_singleton.mpr hdata)
  have hrow : newFolders serverId (store.folders.map Folder.id) [data] =
      [data.row (nextId (store.folders.map Folder.id)) serverId] := by simp [newFolders]
  rw [hrow] at hconstraints ⊢
  refine ⟨{ store with
    folders := store.folders ++ [data.row (nextId (store.folders.map Folder.id)) serverId]
    constraints := hconstraints },
    data.row (nextId (store.folders.map Folder.id)) serverId, ?_, rfl⟩
  simp only [createFolder, bind_eq_ok]
  exact ⟨(), raiseIf_eq_ok.mpr hid, _, commit_eq store hconstraints, rfl⟩

end

section
variable {lower store} {folderId : Int} {folder folder' : Folder} {data : FolderUpdate}

theorem getFolder_eq_some (h : store.getFolder folderId = some folder) :
    folder ∈ store.folders ∧ folder.id = folderId :=
  ⟨List.mem_of_find?_eq_some h, by simpa using List.find?_some h⟩

/-- Ids tell rows apart. -/
theorem folder_ext {f g : Folder} (hf : f ∈ store.folders) (hg : g ∈ store.folders)
    (h : f.id = g.id) : f = g :=
  List.inj_on_of_nodup_map store.constraints.folderIds hf hg h

theorem updateFolder_eq_ok {store' : Store}
    (h : store.updateFolder lower folderId data = .ok (store', folder')) :
    ∃ folder, store.getFolder folderId = some folder ∧ folder.update lower data = .ok folder' ∧
      store'.servers = store.servers ∧ store'.folders = store.putFolder folder' := by
  simp only [updateFolder, bind_eq_ok, requireFolder_eq_ok] at h
  obtain ⟨folder, ⟨-, hget⟩, _, hupdate, _, hcommit, hpure⟩ := h
  cases hpure
  exact ⟨folder, hget, hupdate, (commit_eq_ok hcommit).1, (commit_eq_ok hcommit).2.1⟩

/-- An update of a row that is there goes through, where its payload can be stored. -/
theorem exists_updateFolder (hid : intError folderId = none)
    (hget : store.getFolder folderId = some folder) (hdata : data.Storable lower) :
    ∃ store' folder', store.updateFolder lower folderId data = .ok (store', folder') := by
  obtain ⟨folder', hupdate⟩ := folder.exists_update hdata
  have hmem := (getFolder_eq_some hget).1
  obtain ⟨hid', hserver⟩ := (Folder.update_eq_ok hupdate).1
  have hconstraints : Constraints store.servers (store.putFolder folder') := by
    refine store.constraints.map (fun f _ => ?_) (fun f hf => ?_) (fun f hf => ?_) fun f hf => ?_
    · split
      case isTrue heq => exact heq.symm
      case isFalse => rfl
    · split
      case isTrue heq => rw [folder_ext hf hmem (heq.trans hid'), hserver]
      case isFalse => rfl
    · split
      case isTrue => exact Folder.bindError_update hupdate (store.constraints.folderRows _ hmem)
      case isFalse => exact store.constraints.folderRows f hf
    · split
      case isTrue =>
        rw [Folder.extensionError_update hupdate (store.constraints.extensions _ hmem)]
        exact hdata.extensions
      case isFalse => exact store.constraints.extensions f hf
  refine ⟨{ store with folders := store.putFolder folder', constraints := hconstraints }, folder',
    ?_⟩
  simp only [updateFolder, bind_eq_ok, requireFolder_eq_ok]
  exact ⟨folder, ⟨hid, hget⟩, folder', hupdate, _, commit_eq store hconstraints, rfl⟩

/-- Whatever is written can be stored. -/
theorem storable_of_updateFolder {store' : Store}
    (h : store.updateFolder lower folderId data = .ok (store', folder')) :
    intError folderId = none ∧ (store.getFolder folderId).isSome ∧ data.Storable lower := by
  obtain ⟨folder, hget, hupdate, -, hfolders⟩ := updateFolder_eq_ok h
  obtain ⟨hmem, -⟩ := getFolder_eq_some hget
  obtain ⟨⟨hid, -⟩, hpath, henabled, hcolumns⟩ := Folder.update_eq_ok hupdate
  have hmem' : folder' ∈ store'.folders := by
    rw [hfolders]
    exact List.mem_map.mpr ⟨folder, hmem, if_pos hid.symm⟩
  simp only [updateFolder, bind_eq_ok, requireFolder_eq_ok] at h
  obtain ⟨_, ⟨hfits, -⟩, -⟩ := h
  refine ⟨hfits, Option.isSome_iff_exists.mpr ⟨folder, hget⟩, hpath, henabled, hcolumns, ?_⟩
  rw [← Folder.extensionError_update hupdate (store.constraints.extensions folder hmem)]
  exact store'.constraints.extensions folder' hmem'

theorem exists_deleteFolder (store : Store) (hid : intError folderId = none) :
    ∃ store', store.deleteFolder folderId = .ok store' :=
  ⟨_, store.deleteFolder_eq_ok.mpr ⟨hid, commit_eq store (store.constraints.filter _)⟩⟩

end

/-! ### Secrets -/

/-- `resolve_secret`: `none` where it raises. -/
def resolveSecret (server : Server) : Option (Option Str) :=
  match server.secretEncrypted with
  | none => some none
  | some token => (box.decrypt token).map some

end Store

/-- A write of one of the cores of `web/writes.py`. -/
inductive Write where
  | serverCreate (nonce : Nat) (data : ServerCreate)
  | serverCreateWithFolders (nonce : Nat) (data : ServerCreate) (folders : List FolderCreate)
  | serverUpdate (nonce : Nat) (serverId : Int) (data : ServerUpdate)
  | serverUpdateWithFolders (nonce : Nat) (serverId : Int) (data : ServerUpdate)
      (folders : List FolderCreate)
  | serverDelete (serverId : Int)
  | folderCreate (serverId : Int) (data : FolderCreate)
  | folderUpdate (folderId : Int) (data : FolderUpdate)
  | folderDelete (folderId : Int)

/-- The database after the write. -/
def Write.run (lower : Str → Str) (box : SecretBox) (store : Store) :
    Write → Except RepoError Store
  | .serverCreate nonce data => (store.createServer box nonce data).map Prod.fst
  | .serverCreateWithFolders nonce data folders =>
    (store.createServerWithFolders box nonce data folders).map Prod.fst
  | .serverUpdate nonce serverId data => (store.updateServer box nonce serverId data).map Prod.fst
  | .serverUpdateWithFolders nonce serverId data folders =>
    (store.updateServerWithFolders box nonce serverId data folders).map Prod.fst
  | .serverDelete serverId => store.deleteServer serverId
  | .folderCreate serverId data => (store.createFolder serverId data).map Prod.fst
  | .folderUpdate folderId data => (store.updateFolder lower folderId data).map Prod.fst
  | .folderDelete folderId => store.deleteFolder folderId

/-- The database after the writes. -/
def storeAfter (writes : List Write) : Store :=
  writes.foldl (fun store write => (write.run asciiLower markBox store).toOption.getD store) .empty

end MediaScanMonitor
