import MediaScanMonitor.Db.Stored
import MediaScanMonitor.Web.Catalog

/-!
# Web — the repository keeps a catalogue

A database stands for the catalogue that its rows say, every secret decrypted and the folders of a
server listed with their ids.

* `step_of_run`, `run_of_step`: the repository does a write exactly if the catalogue may take such
  a step, and then does what the step does.
* `repository_refines`: so does every run from an empty database, though ids come back.
-/

namespace MediaScanMonitor
open Py

/-! ### The entries of a database -/

/-- What the row says, with its secret and its event types read back. -/
def Server.settingsWith (server : Server) (secret : Option Str) (eventTypes : List FsEventType) :
    ServerCreate where
  name := server.name
  type := server.type
  baseUrl := server.baseUrl
  verifyTls := server.verifyTls
  timeoutSeconds := server.timeoutSeconds
  secret := secret
  scanMode := server.scanMode
  debounceMode := server.debounceMode
  debounceWindowSeconds := server.debounceWindowSeconds
  retryAttempts := server.retryAttempts
  enabled := server.enabled
  webhookMethod := server.webhookMethod
  webhookHeadersJson := server.webhookHeadersJson
  webhookBodyTemplate := server.webhookBodyTemplate
  webhookPayloadPreset := server.webhookPayloadPreset
  eventTypes := eventTypes

/-- What the row says: `none` where it does not read. -/
def Server.settings (box : SecretBox) (server : Server) : Option ServerCreate := do
  let secret ← Store.resolveSecret box server
  let eventTypes ← parseEventTypes server.eventTypes
  return server.settingsWith secret eventTypes

def Folder.row (folder : Folder) : Int × FolderCreate := (folder.id, folder.data)

namespace Store

/-- The catalogue that the database stands for. -/
def catalog (box : SecretBox) (store : Store) : Catalog := fun i =>
  (store.getServer i).bind fun server =>
    (server.settings box).map fun settings => ⟨settings, (store.listFolders i).map Folder.row⟩

/-- Every row reads. -/
def Legible (box : SecretBox) (store : Store) : Prop :=
  ∀ server ∈ store.servers, ∃ settings, server.settings box = some settings

end Store

variable {box : SecretBox} {lower : Str → Str} {nonce : Nat} {store store' : Store}
  {server server' : Server} {i : Int} {settings : ServerCreate}

/-! ### Reading rows back -/

theorem ofValue?_value (t : FsEventType) : FsEventType.ofValue? t.value = some t := by
  cases t <;> decide +kernel

theorem value_ne_nil (t : FsEventType) : t.value ≠ [] := by
  cases t <;> decide

theorem comma_not_mem_value (t : FsEventType) : comma ∉ t.value := by
  cases t <;> decide +kernel

/-- `parse_event_types` reads what `serialize_event_types` writes. -/
theorem parse_serialize (types : List FsEventType) :
    parseEventTypes (serializeEventTypes types) = some types := by
  cases types with
  | nil => rfl
  | cons t types =>
      have hsplit : (serializeEventTypes (t :: types)).splitOn comma =
          (t :: types).map FsEventType.value := by
        refine List.splitOn_intercalate comma ?_ (by simp)
        intro s hs
        obtain ⟨t, -, rfl⟩ := List.mem_map.mp hs
        exact comma_not_mem_value t
      have hfilter : ((t :: types).map FsEventType.value).filter (· ≠ []) =
          (t :: types).map FsEventType.value := by
        rw [List.filter_eq_self]
        intro s hs
        obtain ⟨t, -, rfl⟩ := List.mem_map.mp hs
        simpa using value_ne_nil t
      have hread : FsEventType.ofValue? ∘ FsEventType.value = fun t => pure t :=
        funext ofValue?_value
      rw [parseEventTypes, hsplit, hfilter, List.mapM_map, hread, List.mapM_pure, List.map_id']
      rfl

theorem resolveSecret_of_seal {secret : Option Str}
    (h : box.seal nonce secret = .ok server.secretEncrypted) :
    Store.resolveSecret box server = some secret := by
  rw [Store.resolveSecret]
  rcases decrypt_of_seal h with ⟨rfl, hnone⟩ | ⟨plaintext, t, rfl, ht, hdecrypt⟩
  · rw [hnone]
  · rw [ht]
    exact congrArg (Option.map some) hdecrypt

theorem settings_eq_some : server.settings box = some settings ↔
    ∃ secret eventTypes, Store.resolveSecret box server = some secret ∧
      parseEventTypes server.eventTypes = some eventTypes ∧
      server.settingsWith secret eventTypes = settings := by
  simp only [Server.settings, Option.bind_eq_bind, Option.bind_eq_some_iff]
  constructor
  · rintro ⟨secret, hsecret, eventTypes, htypes, hpure⟩
    exact ⟨secret, eventTypes, hsecret, htypes, Option.some_inj.mp hpure⟩
  · rintro ⟨secret, eventTypes, hsecret, htypes, rfl⟩
    exact ⟨secret, hsecret, eventTypes, htypes, rfl⟩

/-- A row that is there says what can be stored. -/
theorem storable_of_mem (hmem : server ∈ store.servers)
    (h : server.settings box = some settings) : settings.Storable := by
  obtain ⟨_, _, -, -, rfl⟩ := settings_eq_some.mp h
  exact ⟨store.constraints.serverRows server hmem, store.constraints.timeouts server hmem⟩

/-- A new row reads as what it was created from. -/
theorem settings_newServer {data : ServerCreate} {token : Option Str}
    (h : box.seal nonce data.secret = .ok token) :
    (store.newServer data token).settings box = some data :=
  settings_eq_some.mpr ⟨_, _, resolveSecret_of_seal h, parse_serialize _, rfl⟩

/-- A row that is updated reads as updated. -/
theorem settings_written {data : ServerUpdate} {token : Option Str}
    (h : server.settings box = some settings)
    (htoken : server.newToken box nonce data = .ok token) :
    (server.written data token).settings box = some (settings.updated data) := by
  obtain ⟨secret, eventTypes, hsecret, htypes, rfl⟩ := settings_eq_some.mp h
  refine settings_eq_some.mpr
    ⟨data.secret.getD secret, data.eventTypes.join.getD eventTypes, ?_, ?_, rfl⟩
  · rw [Server.newToken] at htoken
    cases hdata : data.secret with
    | none =>
        rw [hdata] at htoken
        cases htoken
        exact hsecret
    | some secret =>
        rw [hdata] at htoken
        exact @resolveSecret_of_seal _ _ (server.written data token) _ htoken
  · rw [Server.written]
    cases data.eventTypes.join with
    | none => exact htypes
    | some types => exact parse_serialize types

/-- Where every row reads, so does the configuration. -/
theorem readable_of_legible (h : store.Legible box) : store.Readable box := by
  intro server hserver
  obtain ⟨settings, hs⟩ := h server (List.mem_of_mem_filter hserver)
  obtain ⟨secret, eventTypes, hsecret, htypes, -⟩ := settings_eq_some.mp hs
  refine ⟨?_, fun folder _ => ?_⟩
  · rw [Server.Decrypts, hsecret]
    rfl
  · rw [htypes]
    rfl

/-! ### Entries, before and after -/

variable {j : Int} {rows : List (Int × FolderCreate)} {folders : List FolderCreate} {e : Entry}
  {c c' : Catalog} {data : ServerUpdate} {token : Option Str}

theorem getServer_iff :
    store.getServer i = some server ↔ server ∈ store.servers ∧ server.id = i := by
  refine ⟨Store.getServer_eq_some, fun ⟨hmem, hid⟩ => ?_⟩
  have hsome : (store.getServer i).isSome :=
    (store.getServer_isSome).mpr (List.mem_map.mpr ⟨server, hmem, hid⟩)
  obtain ⟨found, hfound⟩ := Option.isSome_iff_exists.mp hsome
  obtain ⟨hmem', hid'⟩ := Store.getServer_eq_some hfound
  rw [hfound, Store.server_ext hmem hmem' (hid.trans hid'.symm)]

theorem catalog_of_getServer (hget : store.getServer i = some server)
    (hs : server.settings box = some settings) :
    store.catalog box i = some ⟨settings, (store.listFolders i).map Folder.row⟩ := by
  rw [Store.catalog, hget, Option.bind_some, hs]
  rfl

theorem catalog_of_none (hget : store.getServer i = none) : store.catalog box i = none := by
  rw [Store.catalog, hget]
  rfl

theorem catalog_eq_some (h : store.catalog box i = some e) :
    ∃ server, store.getServer i = some server ∧ server.settings box = some e.settings ∧
      e.folders = (store.listFolders i).map Folder.row := by
  obtain ⟨server, hget, h⟩ := Option.bind_eq_some_iff.mp h
  obtain ⟨settings, hs, rfl⟩ := Option.map_eq_some_iff.mp h
  exact ⟨server, hget, hs, rfl⟩

/-- The entry of a server depends on its own rows. -/
theorem catalog_congr (hservers : ∀ s, s.id = j → (s ∈ store'.servers ↔ s ∈ store.servers))
    (hfolders : store'.listFolders j = store.listFolders j) :
    store'.catalog box j = store.catalog box j := by
  have hget : store'.getServer j = store.getServer j := by
    ext server
    rw [getServer_iff, getServer_iff]
    constructor
    · rintro ⟨hmem, hid⟩
      exact ⟨(hservers server hid).mp hmem, hid⟩
    · rintro ⟨hmem, hid⟩
      exact ⟨(hservers server hid).mpr hmem, hid⟩
  rw [Store.catalog, Store.catalog, hget, hfolders]

/-- A write that leaves the others alone. -/
theorem catalog_put (hget : store'.getServer i = some server')
    (hs : server'.settings box = some settings)
    (hrows : (store'.listFolders i).map Folder.row = rows)
    (hothers : ∀ j, j ≠ i → store'.catalog box j = store.catalog box j) :
    store'.catalog box = (store.catalog box).put i ⟨settings, rows⟩ := by
  funext j
  rw [Catalog.put]
  by_cases hj : j = i
  · subst hj
    rw [Function.update_self, catalog_of_getServer hget hs, hrows]
  · rw [Function.update_of_ne hj, hothers j hj]

theorem listFolders_append_new {old : List Folder} {ids : List Int}
    (h : store'.folders = old ++ newFolders i ids folders) :
    store'.listFolders j =
      old.filter (·.serverId = j) ++ if j = i then newFolders i ids folders else [] := by
  rw [Store.listFolders, h, List.filter_append]
  congr 1
  split
  · rename_i hj
    exact List.filter_eq_self.mpr fun row hrow =>
      decide_eq_true ((of_mem_newFolders hrow).1.trans hj.symm)
  · rename_i hj
    rw [List.filter_eq_nil_iff]
    intro row hrow heq
    exact hj ((of_decide_eq_true heq).symm.trans (of_mem_newFolders hrow).1)

theorem map_row_snd (folders : List Folder) :
    (folders.map Folder.row).map Prod.snd = folders.map Folder.data := by
  rw [List.map_map]
  rfl

theorem map_row_fst (folders : List Folder) :
    (folders.map Folder.row).map Prod.fst = folders.map Folder.id := by
  rw [List.map_map]
  rfl

/-- The ids of new rows are given out for the first time. -/
theorem fresh_newFolders (box : SecretBox) (store : Store) (i : Int) (folders : List FolderCreate) :
    (store.catalog box).Fresh
      (((newFolders i (store.folders.map Folder.id) folders).map Folder.row).map Prod.fst) := by
  rw [map_row_fst]
  refine ⟨nodup_newFolders, fun j e he id hid hold => ?_⟩
  obtain ⟨server, -, -, hfolders⟩ := catalog_eq_some he
  rw [hfolders, map_row_fst, List.mem_map] at hold
  obtain ⟨folder, hfolder, rfl⟩ := hold
  obtain ⟨row, hrow, hrowId⟩ := List.mem_map.mp hid
  have hlt := lt_nextId (List.mem_map_of_mem (f := Folder.id) (List.mem_of_mem_filter hfolder))
  have hle := (of_mem_newFolders hrow).2.1
  omega

/-- The names of a database are all different. -/
theorem nameFree_of_mem (hserver : server ∈ store.servers) (hid : server.id = i) {old : Store}
    (hothers : ∀ j, j ≠ i → store.catalog box j = old.catalog box j) :
    (old.catalog box).NameFree i server.name := by
  intro j e he hj hname
  rw [← hothers j hj] at he
  obtain ⟨other, hget, hs, -⟩ := catalog_eq_some he
  obtain ⟨hother, hotherId⟩ := Store.getServer_eq_some hget
  obtain ⟨secret, eventTypes, -, -, hsettings⟩ := settings_eq_some.mp hs
  have hotherName : other.name = server.name := by
    rw [← hname, ← hsettings]
    rfl
  have heq := List.inj_on_of_nodup_map store.constraints.names hother hserver hotherName
  exact hj (hotherId.symm.trans (heq ▸ hid))

/-! ### One write -/

/-- A new server gets an id that is not in use, and its own folders only. -/
theorem create_of_run {data : ServerCreate}
    (h : store.createServerWithFolders box nonce data folders = .ok (store', server))
    (hl : store.Legible box) :
    ∃ i rows, store.catalog box i = none ∧ data.Storable ∧ (∀ folder ∈ folders, folder.Storable) ∧
      (store.catalog box).NameFree i data.name ∧ rows.map Prod.snd = folders ∧
      (store.catalog box).Fresh (rows.map Prod.fst) ∧
      store'.catalog box = (store.catalog box).put i ⟨data, rows⟩ ∧ store'.Legible box := by
  have hfolders := Store.folders_createServerWithFolders h
  obtain ⟨token, htoken, hservers⟩ := Store.createServerWithFolders_eq_ok box store h
  have hserver : server = store.newServer data token := by
    simp only [Store.createServerWithFolders, bind_eq_ok] at h
    obtain ⟨token', htoken', _, -, hpure⟩ := h
    rw [htoken] at htoken'
    cases htoken'
    cases hpure
    rfl
  have hunused (s : Server) (hs : s ∈ store.servers) : s.id ≠ server.id := by
    have hlt := lt_nextId (List.mem_map_of_mem (f := Server.id) hs)
    rw [hserver]
    exact hlt.ne
  have hmem : server ∈ store'.servers := by
    rw [hservers, hserver]
    exact List.mem_append_right _ List.mem_cons_self
  have hset : server.settings box = some data := by
    rw [hserver]
    exact settings_newServer htoken
  have hothers (j : Int) (hj : j ≠ server.id) : store'.catalog box j = store.catalog box j := by
    refine catalog_congr (fun s hs => ?_) ?_
    · rw [hservers, List.mem_append, List.mem_singleton, ← hserver]
      refine or_iff_left fun heq => ?_
      rw [heq] at hs
      exact hj hs.symm
    · rw [listFolders_append_new hfolders, if_neg hj, List.append_nil]
      rfl
  have hrows : store'.listFolders server.id =
      newFolders server.id (store.folders.map Folder.id) folders := by
    rw [listFolders_append_new hfolders, if_pos rfl, List.filter_eq_nil_iff.mpr, List.nil_append]
    intro folder hfolder hid
    obtain ⟨s, hs, hsid⟩ := List.mem_map.mp (store.constraints.foreignKey folder hfolder)
    exact hunused s hs (hsid.trans (of_decide_eq_true hid))
  have hconstraints := store'.constraints
  rw [hfolders] at hconstraints
  refine ⟨server.id, _, ?_, storable_of_mem hmem hset, hconstraints.storable_newFolders, ?_, ?_,
    fresh_newFolders box store server.id folders,
    catalog_put (getServer_iff.mpr ⟨hmem, rfl⟩) hset (congrArg _ hrows) hothers, ?_⟩
  · refine catalog_of_none ?_
    rw [Option.eq_none_iff_forall_ne_some]
    intro s hs
    obtain ⟨hmem', hid⟩ := Store.getServer_eq_some hs
    exact hunused s hmem' hid
  · have hname : server.name = data.name := by
      rw [hserver]
      rfl
    exact hname ▸ nameFree_of_mem hmem rfl hothers
  · rw [map_row_snd, data_newFolders]
  · intro s hs
    rw [hservers, List.mem_append, List.mem_singleton, ← hserver] at hs
    rcases hs with hs | rfl
    · exact hl s hs
    · exact ⟨data, hset⟩

/-- The folders of the server after an update. -/
theorem listFolders_rows {update : Update} (hfolders : store'.folders = update.rows store) :
    store'.listFolders j =
      match update.folders with
      | none => store.listFolders j
      | some folders =>
        if j = update.serverId then
          newFolders update.serverId (store.folders.map Folder.id) folders
        else store.listFolders j := by
  rw [Update.rows] at hfolders
  cases hupdate : update.folders with
  | none =>
      rw [hupdate] at hfolders
      rw [Store.listFolders, hfolders]
      rfl
  | some folders =>
      rw [hupdate] at hfolders
      rw [listFolders_append_new hfolders, List.filter_filter]
      -- A session reads the rows of its own server.
      have hread (folder : Folder) (hfolder : folder ∈ store.folders) :
          folder.id ∈ store.folderIdsOf update.serverId ↔ folder.serverId = update.serverId := by
        rw [Store.folderIdsOf, List.mem_map]
        constructor
        · rintro ⟨other, hother, hid⟩
          obtain ⟨hmem, hserver⟩ := List.mem_filter.mp hother
          rw [← Store.folder_ext hmem hfolder hid]
          exact of_decide_eq_true hserver
        · intro hserver
          exact ⟨folder, List.mem_filter.mpr ⟨hfolder, decide_eq_true hserver⟩, rfl⟩
      dsimp only
      split
      · rename_i hj
        rw [List.filter_eq_nil_iff.mpr, List.nil_append]
        intro folder hfolder hboth
        simp only [Bool.and_eq_true, decide_eq_true_eq] at hboth
        exact hboth.2 ((hread folder hfolder).mpr (hboth.1.trans hj))
      · rename_i hj
        rw [List.append_nil, Store.listFolders]
        refine List.filter_congr fun folder hfolder => ?_
        by_cases hserver : folder.serverId = j
        · have hne : folder.serverId ≠ update.serverId := fun heq => hj (hserver.symm.trans heq)
          simp [hserver, mt (hread folder hfolder).mp hne]
        · simp [hserver]

/-- The entry of the server after an update. -/
def Update.folderRows (update : Update) (store : Store) (e : Entry) : List (Int × FolderCreate) :=
  match update.folders with
  | none => e.folders
  | some folders =>
    (newFolders update.serverId (store.folders.map Folder.id) folders).map Folder.row

theorem update_of_run {update : Update}
    (h : update.repoWrite box nonce store = .ok (store', server')) (hl : store.Legible box) :
    ∃ e, store.catalog box update.serverId = some e ∧ intError update.serverId = none ∧
      (e.settings.updated update.data).Storable ∧ update.Storable ∧ update.data.NoNull ∧
      (store.catalog box).NameFree update.serverId (e.settings.updated update.data).name ∧
      store'.catalog box = (store.catalog box).put update.serverId
        ⟨e.settings.updated update.data, update.folderRows store e⟩ ∧ store'.Legible box ∧
      ∃ (server : Server) (token : Option Str),
        server.newToken box nonce update.data = .ok token := by
  obtain ⟨server, hfound⟩ := requireServer_of_repoWrite h
  have hstorable := storable_of_repoWrite hfound h
  obtain ⟨hbits, hget⟩ := (store.requireServer_eq_ok).mp hfound
  obtain ⟨hmem, hid⟩ := Store.getServer_eq_some hget
  obtain ⟨settings, hs⟩ := hl server hmem
  rw [repoWrite_eq update hfound, update_eq_bind] at h
  simp only [bind_eq_ok] at h
  obtain ⟨_, ⟨token, htoken, _, -, hset⟩, _, hcommit, hpure⟩ := h
  cases hpure
  have hnull := noNull_of_setFields hset
  rw [setFields_of_noNull token hnull, Except.ok.injEq] at hset
  subst hset
  obtain ⟨hservers, hfolders, -⟩ := Store.commit_eq_ok hcommit
  have hsettings := settings_written hs htoken
  have hwritten : (server.written update.data token).id = update.serverId := hid
  have hmem' : server.written update.data token ∈ store'.servers := by
    rw [hservers]
    exact Store.mem_putServer_of_mem hmem rfl
  have hothers (j : Int) (hj : j ≠ update.serverId) :
      store'.catalog box j = store.catalog box j := by
    refine catalog_congr (fun s hsj => ?_) ?_
    · rw [hservers]
      refine Store.mem_putServer_of_ne ?_
      rw [hsj, hwritten]
      exact hj
    · rw [listFolders_rows hfolders]
      cases update.folders with
      | none => rfl
      | some folders => exact if_neg hj
  have hentry := catalog_of_getServer hget hs
  refine ⟨_, hentry, hbits, storable_of_mem hmem' hsettings, hstorable, hnull, ?_, ?_, ?_, server,
    token, htoken⟩
  · obtain ⟨_, _, -, -, heq⟩ := settings_eq_some.mp hsettings
    have hname : (server.written update.data token).name = (settings.updated update.data).name :=
      congrArg ServerCreate.name heq
    exact hname ▸ nameFree_of_mem hmem' hwritten hothers
  · refine catalog_put (getServer_iff.mpr ⟨hmem', hwritten⟩) hsettings ?_ hothers
    rw [listFolders_rows hfolders, Update.folderRows]
    cases update.folders with
    | none => rfl
    | some folders => exact congrArg _ (if_pos rfl)
  · intro s hsmem
    rw [hservers] at hsmem
    rcases Store.of_mem_putServer hsmem with rfl | hold
    · exact ⟨_, hsettings⟩
    · exact hl s hold

theorem delete_of_run (h : store.deleteServer i = .ok store') (hl : store.Legible box) :
    intError i = none ∧ store'.catalog box = Function.update (store.catalog box) i none ∧
      store'.Legible box := by
  obtain ⟨hbits, hcommit⟩ := (store.deleteServer_eq_ok).mp h
  obtain ⟨hservers, hfolders, -⟩ := Store.commit_eq_ok hcommit
  refine ⟨hbits, ?_, ?_⟩
  · funext j
    by_cases hj : j = i
    · subst hj
      rw [Function.update_self]
      refine catalog_of_none ?_
      rw [Option.eq_none_iff_forall_ne_some]
      intro s hs
      obtain ⟨hmem, hid⟩ := Store.getServer_eq_some hs
      rw [hservers, List.mem_filter] at hmem
      exact of_decide_eq_true hmem.2 hid
    · rw [Function.update_of_ne hj]
      refine catalog_congr (fun s hs => ?_) ?_
      · rw [hservers, List.mem_filter]
        exact and_iff_left (decide_eq_true (by rw [hs]; exact hj))
      · rw [Store.listFolders, hfolders, List.filter_filter, Store.listFolders]
        refine List.filter_congr fun folder _ => ?_
        by_cases hserver : folder.serverId = j
        · simp [hserver, hj]
        · simp [hserver]
  · intro s hs
    rw [hservers] at hs
    exact hl s (List.mem_of_mem_filter hs)

theorem getServer_congr (hservers : store'.servers = store.servers) :
    store'.getServer i = store.getServer i := by
  rw [Store.getServer, hservers, Store.getServer]

theorem legible_congr (hservers : store'.servers = store.servers) (hl : store.Legible box) :
    store'.Legible box := by
  rw [Store.Legible, hservers]
  exact hl

theorem folderCreate_of_run {data : FolderCreate} {folder : Folder}
    (h : store.createFolder i data = .ok (store', folder)) (hl : store.Legible box) :
    ∃ e id, store.catalog box i = some e ∧ intError i = none ∧ data.Storable ∧
      (store.catalog box).Fresh [id] ∧
      store'.catalog box = (store.catalog box).put i ⟨e.settings, e.folders ++ [(id, data)]⟩ := by
  obtain ⟨⟨hsome, hbits, hdata⟩, hfolders⟩ := Store.inserted_of_createFolder store h
  obtain ⟨hfolder, hcommit⟩ := Store.createFolder_eq_ok store h
  obtain ⟨hservers, -, -⟩ := Store.commit_eq_ok hcommit
  have hnew : [folder] = newFolders i (store.folders.map Folder.id) [data] := by
    rw [hfolder]
    simp [newFolders]
  obtain ⟨server, hget⟩ := Option.isSome_iff_exists.mp hsome
  obtain ⟨settings, hs⟩ := hl server (Store.getServer_eq_some hget).1
  have hrow : Folder.row folder = (folder.id, data) := by
    rw [hfolder]
    rfl
  refine ⟨_, folder.id, catalog_of_getServer hget hs, hbits, hdata, ?_, ?_⟩
  · have hfresh := fresh_newFolders box store i [data]
    rw [← hnew, List.map_singleton, List.map_singleton, hrow] at hfresh
    exact hfresh
  · refine catalog_put ((getServer_congr hservers).trans hget) hs ?_ fun j hj => ?_
    · rw [listFolders_append_new hfolders, if_pos rfl, ← hnew, List.map_append, List.map_singleton,
        hrow]
      rfl
    · refine catalog_congr (fun s _ => by rw [hservers]) ?_
      rw [listFolders_append_new hfolders, if_neg hj, List.append_nil]
      rfl

theorem data_update {folder folder' : Folder} {data : FolderUpdate}
    (h : folder.update lower data = .ok folder') :
    folder'.data = folder.data.updated lower data := by
  simp only [Folder.update, bind_eq_ok] at h
  obtain ⟨_, -, path, hpath, enabled, henabled, hpure⟩ := h
  cases hpure
  rw [setColumn_eq_ok hpath, setColumn_eq_ok henabled]
  rfl

theorem folderUpdate_of_run {id : Int} {data : FolderUpdate} {folder' : Folder}
    (h : store.updateFolder lower id data = .ok (store', folder')) (hl : store.Legible box) :
    ∃ i e folder, store.catalog box i = some e ∧ (id, folder) ∈ e.folders ∧
      intError id = none ∧ data.Storable lower ∧
      store'.catalog box = (store.catalog box).put i ⟨e.settings, e.folders.map fun (j, f) =>
        (j, if j = id then f.updated lower data else f)⟩ ∧ store'.Legible box := by
  obtain ⟨folder, hget, hupdate, hservers, hfolders⟩ := Store.updateFolder_eq_ok h
  obtain ⟨hbits, -, hdata⟩ := Store.storable_of_updateFolder h
  obtain ⟨hmem, hid⟩ := Store.getFolder_eq_some hget
  obtain ⟨hid', hserver'⟩ := (Folder.update_eq_ok hupdate).1
  rw [Store.putFolder, hid'] at hfolders
  have hsome : (store.getServer folder.serverId).isSome :=
    (store.getServer_isSome).mpr (store.constraints.foreignKey folder hmem)
  obtain ⟨server, hserver⟩ := Option.isSome_iff_exists.mp hsome
  obtain ⟨settings, hs⟩ := hl server (Store.getServer_eq_some hserver).1
  have hlisted : folder ∈ store.listFolders folder.serverId :=
    List.mem_filter.mpr ⟨hmem, decide_eq_true rfl⟩
  have hkeep (f : Folder) (hf : f ∈ store.folders) :
      (if f.id = folder.id then folder' else f).serverId = f.serverId := by
    split
    · rename_i heq
      rw [Store.folder_ext hf hmem heq, hserver']
    · rfl
  refine ⟨folder.serverId, _, folder.data, catalog_of_getServer hserver hs, ?_, hbits, hdata, ?_,
    legible_congr hservers hl⟩
  · rw [← hid]
    exact List.mem_map_of_mem hlisted
  · refine catalog_put ((getServer_congr hservers).trans hserver) hs ?_ fun j hj => ?_
    · rw [Store.listFolders, hfolders, List.filter_map, List.map_map, List.map_map,
        List.filter_congr fun f hf => by rw [Function.comp_apply, hkeep f hf]]
      refine List.map_congr_left fun f hf => ?_
      have hf := List.mem_of_mem_filter hf
      by_cases heq : f.id = folder.id
      · have hfolder := Store.folder_ext hf hmem heq
        subst hfolder
        simp only [Function.comp_apply, if_true, Folder.row, hid, hid', data_update hupdate]
      · have hne : f.id ≠ id := fun hfid => heq (hfid.trans hid.symm)
        rw [Function.comp_apply, if_neg heq]
        exact congrArg (Prod.mk f.id) (if_neg hne).symm
    · refine catalog_congr (fun s _ => by rw [hservers]) ?_
      rw [Store.listFolders, hfolders]
      refine FolderRoutes.filter_map_of_eq (fun f hf => by rw [hkeep f hf]) fun f hf hfj =>
        if_neg fun heq => ?_
      rw [Store.folder_ext hf hmem heq] at hfj
      exact hj (of_decide_eq_true hfj).symm

theorem folderDelete_of_run {id : Int} (h : store.deleteFolder id = .ok store')
    (hl : store.Legible box) :
    intError id = none ∧ (store'.catalog box = fun i => (store.catalog box i).map fun e =>
        ⟨e.settings, e.folders.filter (·.1 ≠ id)⟩) ∧ store'.Legible box := by
  obtain ⟨hbits, hcommit⟩ := (store.deleteFolder_eq_ok).mp h
  obtain ⟨hservers, hfolders, -⟩ := Store.commit_eq_ok hcommit
  refine ⟨hbits, funext fun i => ?_, legible_congr hservers hl⟩
  have hrows : (store'.listFolders i).map Folder.row =
      ((store.listFolders i).map Folder.row).filter (·.1 ≠ id) := by
    rw [Store.listFolders, hfolders, List.filter_comm, List.filter_map]
    rfl
  rw [Store.catalog, Store.catalog, getServer_congr hservers, hrows]
  cases store.getServer i with
  | none => rfl
  | some server =>
      rw [Option.bind_some, Option.bind_some]
      cases server.settings box <;> rfl

/-- The secret of the write, if it has one, encodes. -/
def Write.Encodes (box : SecretBox) : Write → Prop
  | .serverCreate nonce data | .serverCreateWithFolders nonce data _ =>
    ∃ token, box.seal nonce data.secret = .ok token
  | .serverUpdate nonce _ data | .serverUpdateWithFolders nonce _ data _ =>
    ∀ secret, data.secret = some secret → ∃ token, box.seal nonce secret = .ok token
  | .serverDelete _ | .folderCreate _ _ | .folderUpdate _ _ | .folderDelete _ => True

theorem encodes_of_newToken (h : server.newToken box nonce data = .ok token) :
    ∀ secret, data.secret = some secret → ∃ token, box.seal nonce secret = .ok token := by
  intro secret hsecret
  rw [Server.newToken, hsecret] at h
  exact ⟨token, h⟩

/-- **What the repository does, the catalogue may do.** -/
theorem step_of_run {w : Write} (hl : store.Legible box) (h : w.run lower box store = .ok store') :
    Catalog.Step lower (store.catalog box) w (store'.catalog box) ∧ w.Encodes box ∧
      store'.Legible box := by
  cases w with
  | serverCreate nonce data =>
      obtain ⟨server, hcreate⟩ := Store.map_fst_eq_ok h
      obtain ⟨token, htoken, -⟩ := Store.createServerWithFolders_eq_ok box store hcreate
      obtain ⟨i, rows, hi, hdata, -, hname, hrows, -, hput, hl'⟩ := create_of_run hcreate hl
      rw [List.map_eq_nil_iff.mp hrows] at hput
      exact ⟨hput ▸ .serverCreate hi hdata hname, ⟨token, htoken⟩, hl'⟩
  | serverCreateWithFolders nonce data folders =>
      obtain ⟨server, hcreate⟩ := Store.map_fst_eq_ok h
      obtain ⟨token, htoken, -⟩ := Store.createServerWithFolders_eq_ok box store hcreate
      obtain ⟨i, rows, hi, hdata, hfolders, hname, hrows, hids, hput, hl'⟩ :=
        create_of_run hcreate hl
      exact ⟨hput ▸ .serverCreateWithFolders hi hdata hfolders hname hrows hids, ⟨token, htoken⟩,
        hl'⟩
  | serverUpdate nonce serverId data =>
      obtain ⟨server, hupdate⟩ := Store.map_fst_eq_ok h
      obtain ⟨e, hi, hbits, hdata, -, hnull, hname, hput, hl', old, token, htoken⟩ :=
        @update_of_run _ _ _ _ _ ⟨serverId, data, none⟩ hupdate hl
      exact ⟨hput ▸ .serverUpdate hi hbits hdata hnull hname, encodes_of_newToken htoken, hl'⟩
  | serverUpdateWithFolders nonce serverId data folders =>
      obtain ⟨server, hupdate⟩ := Store.map_fst_eq_ok h
      obtain ⟨e, hi, hbits, hdata, hfolders, hnull, hname, hput, hl', old, token, htoken⟩ :=
        @update_of_run _ _ _ _ _ ⟨serverId, data, some folders⟩ hupdate hl
      refine ⟨hput ▸ .serverUpdateWithFolders hi hbits hdata hfolders hnull hname ?_
        (fresh_newFolders _ _ _ _), encodes_of_newToken htoken, hl'⟩
      exact (map_row_snd _).trans data_newFolders
  | serverDelete serverId =>
      obtain ⟨hbits, hcatalog, hl'⟩ := delete_of_run h hl
      exact ⟨hcatalog ▸ .serverDelete hbits, trivial, hl'⟩
  | folderCreate serverId data =>
      obtain ⟨folder, hcreate⟩ := Store.map_fst_eq_ok h
      obtain ⟨e, id, hi, hbits, hdata, hid, hput⟩ := folderCreate_of_run hcreate hl
      obtain ⟨-, hcommit⟩ := Store.createFolder_eq_ok store hcreate
      exact ⟨hput ▸ .folderCreate hi hbits hdata hid, trivial,
        legible_congr (Store.commit_eq_ok hcommit).1 hl⟩
  | folderUpdate folderId data =>
      obtain ⟨folder', hupdate⟩ := Store.map_fst_eq_ok h
      obtain ⟨i, e, folder, hi, hid, hbits, hdata, hput, hl'⟩ := folderUpdate_of_run hupdate hl
      exact ⟨hput ▸ .folderUpdate hi hid hbits hdata, trivial, hl'⟩
  | folderDelete folderId =>
      obtain ⟨hbits, hcatalog, hl'⟩ := folderDelete_of_run h hl
      exact ⟨hcatalog ▸ .folderDelete hbits, trivial, hl'⟩

/-! ### The other way round -/

theorem exists_entry (hl : store.Legible box) (hserver : server ∈ store.servers) :
    ∃ e, store.catalog box server.id = some e ∧ e.settings.name = server.name := by
  obtain ⟨settings, hs⟩ := hl server hserver
  obtain ⟨_, _, -, -, heq⟩ := settings_eq_some.mp hs
  subst heq
  exact ⟨_, catalog_of_getServer (getServer_iff.mpr ⟨hserver, rfl⟩) hs, rfl⟩

theorem names_of_nameFree {name : Str} (hl : store.Legible box)
    (hname : (store.catalog box).NameFree i name) :
    ∀ other ∈ store.servers, other.id ≠ i → other.name ≠ name := by
  intro other hother hne
  obtain ⟨e, he, heq⟩ := exists_entry hl hother
  exact heq ▸ hname _ e he hne

theorem exists_create {data : ServerCreate} (hl : store.Legible box)
    (hi : store.catalog box i = none) (hdata : data.Storable)
    (hname : (store.catalog box).NameFree i data.name)
    (htoken : box.seal nonce data.secret = .ok token)
    (hfolders : ∀ folder ∈ folders, folder.Storable) :
    ∃ result, store.createServerWithFolders box nonce data folders = .ok result := by
  have hfree (other : Server) (hother : other ∈ store.servers) : other.name ≠ data.name := by
    refine names_of_nameFree hl hname other hother fun hid => ?_
    obtain ⟨e, he, -⟩ := exists_entry hl hother
    rw [hid, hi] at he
    cases he
  have hservers : Constraints (store.servers ++ [store.newServer data token]) store.folders := by
    refine ⟨?_, ?_, store.constraints.folderIds, fun folder hfolder => ?_, ?_, ?_,
      store.constraints.folderRows, store.constraints.extensions⟩
    · rw [List.map_append, List.nodup_append]
      refine ⟨store.constraints.serverIds, List.nodup_singleton _, fun a ha b hb => ?_⟩
      rw [List.map_singleton, List.mem_singleton] at hb
      rw [hb]
      exact (lt_nextId ha).ne
    · rw [List.map_append, List.nodup_append]
      refine ⟨store.constraints.names, List.nodup_singleton _, fun a ha b hb => ?_⟩
      obtain ⟨other, hother, rfl⟩ := List.mem_map.mp ha
      rw [List.map_singleton, List.mem_singleton] at hb
      rw [hb]
      exact hfree other hother
    · rw [List.map_append]
      exact List.mem_append_left _ (store.constraints.foreignKey folder hfolder)
    · exact List.forall_mem_append.mpr
        ⟨store.constraints.serverRows, List.forall_mem_singleton.mpr hdata.1⟩
    · exact List.forall_mem_append.mpr
        ⟨store.constraints.timeouts, List.forall_mem_singleton.mpr hdata.2⟩
  have hconstraints := @Constraints.append_newFolders (store.newServer data token).id
    (store.folders.map Folder.id) folders _ _ hservers
    (by rw [List.map_append]; exact List.mem_append_right _ List.mem_cons_self)
    (fun folder hfolder => List.mem_map_of_mem hfolder) hfolders
  simp only [Store.createServerWithFolders, bind_eq_ok]
  exact ⟨_, token, htoken, _, Store.commit_eq _ hconstraints, rfl⟩

/-- What an update sets can be bound, if the row can that it comes to. -/
theorem bindError_of_updated {settings : ServerCreate}
    (h : (settings.updated data).Storable) : data.bindError = none := by
  have hcolumn {α : Type} {error : α → Option RepoError} {field : Option α} {old : α}
      (h : error (field.getD old) = none) : field.bind error = none := by
    cases field with
    | none => rfl
    | some v => exact h
  have hnullable {error : Str → Option RepoError} {field : Option (Option Str)}
      {old : Option Str} (h : (field.getD old).bind error = none) :
      field.join.bind error = none := by
    cases field with
    | none => rfl
    | some v => exact h
  have hbind := h.1
  simp only [Server.bindError, Option.or_eq_none_iff] at hbind
  simp only [ServerUpdate.bindError, Option.or_eq_none_iff]
  obtain ⟨hname, hurl, hwindow, hretry, hmethod, hheaders, hbody⟩ := hbind
  exact ⟨hcolumn hname, hcolumn hurl, hcolumn hwindow, hcolumn hretry, hnullable hmethod,
    hnullable hheaders, hnullable hbody⟩

theorem timeout_of_updated {settings : ServerCreate} (h : (settings.updated data).Storable) :
    data.timeoutSeconds ≠ some (some .nan) := by
  intro hnan
  refine h.2 ?_
  rw [ServerCreate.updated, hnan]
  rfl

theorem exists_update {update : Update} (hl : store.Legible box)
    (hi : store.catalog box update.serverId = some e) (hbits : intError update.serverId = none)
    (hdata : (e.settings.updated update.data).Storable) (hstorable : update.Storable)
    (hnull : update.data.NoNull)
    (hname : (store.catalog box).NameFree update.serverId (e.settings.updated update.data).name)
    (henc : ∀ secret, update.data.secret = some secret →
      ∃ token, box.seal nonce secret = .ok token) :
    ∃ result, update.repoWrite box nonce store = .ok result := by
  obtain ⟨server, hget, hs, -⟩ := catalog_eq_some hi
  have htoken : ∃ token, server.newToken box nonce update.data = .ok token := by
    rw [Server.newToken]
    cases hsecret : update.data.secret with
    | none => exact ⟨_, rfl⟩
    | some secret => exact henc secret hsecret
  obtain ⟨token, htoken⟩ := htoken
  obtain ⟨_, _, -, -, heq⟩ := settings_eq_some.mp (settings_written hs htoken)
  have hwritten : (server.written update.data token).name =
      (e.settings.updated update.data).name := congrArg ServerCreate.name heq
  have hfree : store.NameFree update.serverId update.data := by
    refine (@name_written_iff _ _ _ _ token hget).mp ?_
    rw [hwritten]
    exact names_of_nameFree hl hname
  obtain ⟨store', hwrite, -⟩ := exists_repoWrite ((store.requireServer_eq_ok).mpr ⟨hbits, hget⟩)
    htoken (bindError_of_updated hdata) hnull (timeout_of_updated hdata) hfree hstorable
  exact ⟨_, hwrite⟩

theorem exists_deleteServer (store : Store) (hbits : intError i = none) :
    ∃ store', store.deleteServer i = .ok store' := by
  have hconstraints : Constraints (store.servers.filter (·.id ≠ i))
      (store.folders.filter (·.serverId ≠ i)) := by
    refine ⟨store.constraints.serverIds.sublist (List.filter_sublist.map _),
      store.constraints.names.sublist (List.filter_sublist.map _),
      store.constraints.folderIds.sublist (List.filter_sublist.map _), fun folder hfolder => ?_,
      fun s hs => store.constraints.serverRows s (List.mem_of_mem_filter hs),
      fun s hs => store.constraints.timeouts s (List.mem_of_mem_filter hs),
      fun folder hfolder => store.constraints.folderRows folder (List.mem_of_mem_filter hfolder),
      fun folder hfolder => store.constraints.extensions folder (List.mem_of_mem_filter hfolder)⟩
    obtain ⟨hmem, hne⟩ := List.mem_filter.mp hfolder
    obtain ⟨server, hserver, hid⟩ := List.mem_map.mp (store.constraints.foreignKey folder hmem)
    refine List.mem_map.mpr ⟨server, List.mem_filter.mpr ⟨hserver, ?_⟩, hid⟩
    rw [hid]
    exact hne
  exact ⟨_, (store.deleteServer_eq_ok).mpr ⟨hbits, Store.commit_eq store hconstraints⟩⟩

theorem exists_map_fst {ε α β : Type} {x : Except ε (α × β)} (h : ∃ result, x = .ok result) :
    ∃ a, x.map Prod.fst = .ok a := by
  obtain ⟨result, rfl⟩ := h
  exact ⟨result.1, rfl⟩

/-- **What the catalogue may do, the repository does.** -/
theorem run_of_step {w : Write} (hl : store.Legible box)
    (h : Catalog.Step lower (store.catalog box) w c') (henc : w.Encodes box) :
    ∃ store', w.run lower box store = .ok store' := by
  cases h with
  | serverCreate hi hdata hname =>
      obtain ⟨token, htoken⟩ := henc
      exact exists_map_fst (exists_create hl hi hdata hname htoken (List.forall_mem_nil _))
  | serverCreateWithFolders hi hdata hfolders hname =>
      obtain ⟨token, htoken⟩ := henc
      exact exists_map_fst (exists_create hl hi hdata hname htoken hfolders)
  | serverUpdate hi hbits hdata hnull hname =>
      exact exists_map_fst (@exists_update _ _ _ _ ⟨_, _, none⟩ hl hi hbits hdata
        (List.forall_mem_nil _) hnull hname henc)
  | serverUpdateWithFolders hi hbits hdata hfolders hnull hname =>
      exact exists_map_fst (@exists_update _ _ _ _ ⟨_, _, some _⟩ hl hi hbits hdata hfolders hnull
        hname henc)
  | serverDelete hbits => exact exists_deleteServer store hbits
  | @folderCreate i id data e hi hbits hdata =>
      obtain ⟨server, hget, -⟩ := catalog_eq_some hi
      have hsome : (store.getServer i).isSome := by
        rw [hget]
        rfl
      obtain ⟨store', folder, hcreate, -⟩ := store.exists_createFolder hsome hbits hdata
      exact exists_map_fst ⟨_, hcreate⟩
  | @folderUpdate i id data e payload hi hid hbits hdata =>
      obtain ⟨server, -, -, hfolders⟩ := catalog_eq_some hi
      rw [hfolders, List.mem_map] at hid
      obtain ⟨folder, hfolder, hrow⟩ := hid
      have hmem := List.mem_of_mem_filter hfolder
      have hsome : (store.getFolder folder.id).isSome := by
        rw [Store.getFolder, List.find?_isSome]
        exact ⟨folder, hmem, decide_eq_true rfl⟩
      obtain ⟨found, hget⟩ := Option.isSome_iff_exists.mp hsome
      cases hrow
      obtain ⟨store', folder', hwrite⟩ := Store.exists_updateFolder hbits hget hdata
      exact exists_map_fst ⟨_, hwrite⟩
  | folderDelete hbits => exact store.exists_deleteFolder hbits

/-! ### Runs -/

/-- The catalogues a run of writes comes to; a write is refused where its secret does not encode or
the catalogue may not take the step. -/
inductive Catalog.Reach (lower : Str → Str) (box : SecretBox) : List Write → Catalog → Prop where
  | nil : Reach lower box [] fun _ => none
  | step {writes : List Write} {w : Write} {c c' : Catalog} (h : Reach lower box writes c)
      (henc : w.Encodes box) (hstep : c.Step lower w c') : Reach lower box (writes ++ [w]) c'
  | refused {writes : List Write} {w : Write} {c : Catalog} (h : Reach lower box writes c)
      (hno : ¬(w.Encodes box ∧ ∃ c', c.Step lower w c')) : Reach lower box (writes ++ [w]) c

theorem Catalog.Reach.wf {writes : List Write} (h : Reach lower box writes c) : c.Wf := by
  induction h with
  | nil =>
      constructor
      · intro i e he
        cases he
      · intro i j e e' id he
        cases he
  | step _ _ hstep ih => exact hstep.wf ih
  | refused _ _ ih => exact ih

/-- The database after the writes, from an empty one; a write that raises leaves it alone. -/
def Store.after (lower : Str → Str) (box : SecretBox) (writes : List Write) : Store :=
  writes.foldl (fun store w => (w.run lower box store).toOption.getD store) .empty

theorem after_concat (writes : List Write) (w : Write) :
    Store.after lower box (writes ++ [w]) =
      (w.run lower box (Store.after lower box writes)).toOption.getD
        (Store.after lower box writes) := by
  rw [Store.after, List.foldl_append]
  rfl

theorem reach_of_writes (lower : Str → Str) (box : SecretBox) (writes : List Write) :
    Catalog.Reach lower box writes ((Store.after lower box writes).catalog box) ∧
      (Store.after lower box writes).Legible box := by
  induction writes using List.reverseRecOn with
  | nil => exact ⟨.nil, List.forall_mem_nil _⟩
  | append_singleton writes w ih =>
      obtain ⟨hreach, hl⟩ := ih
      rw [after_concat]
      cases hrun : w.run lower box (Store.after lower box writes) with
      | ok store' =>
          obtain ⟨hstep, henc, hl'⟩ := step_of_run hl hrun
          exact ⟨.step hreach henc hstep, hl'⟩
      | error error =>
          refine ⟨.refused hreach fun ⟨henc, c', hstep⟩ => ?_, hl⟩
          obtain ⟨store', hok⟩ := run_of_step hl hstep henc
          rw [hrun] at hok
          cases hok

/-- **After any writes the database stands for the catalogue those writes come to**: each of them
was done exactly where the catalogue may take its step, and did what the step does.  A server reads
back as it was created and updated since, with its secret and its own folders; names and folder ids
tell servers apart; and what the next write does, it does to one server, the others staying as they
are. -/
theorem repository_refines (lower : Str → Str) (box : SecretBox) (writes : List Write) :
    Catalog.Reach lower box writes ((Store.after lower box writes).catalog box) ∧
    ((Store.after lower box writes).catalog box).Wf ∧
    ∀ (w : Write) (store' : Store),
      w.run lower box (Store.after lower box writes) = .ok store' →
        ∃ i, ∀ j, j ≠ i →
          store'.catalog box j = (Store.after lower box writes).catalog box j := by
  obtain ⟨hreach, hl⟩ := reach_of_writes lower box writes
  refine ⟨hreach, hreach.wf, fun w store' hrun => ?_⟩
  exact (step_of_run hl hrun).1.frame hreach.wf

end MediaScanMonitor
