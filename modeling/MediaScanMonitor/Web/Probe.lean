import MediaScanMonitor.Servers.Probe
import MediaScanMonitor.Web.Forms
import MediaScanMonitor.Web.Refine

/-!
# Web — `web/serverprobe.py`

A server is tested before it is saved, from the form, and after, from its row; the engine runs the
snapshot of `build_runtime_config`.  All three make a `ServerRuntime`.

* `snapshot_of_catalog`: the snapshot is what the catalogue says of the enabled servers.
* `runs_what_is_tested`: so after any writes; and the tests ask the server the engine runs.
-/

namespace MediaScanMonitor
open Py

def runtimeFromServer (server : Server) (secret : Option Str) : ServerRuntime :=
  server.runtime secret

def runtimeFromCreate (data : ServerCreate) : ServerRuntime where
  serverId := 0
  name := data.name
  type := data.type
  baseUrl := data.baseUrl
  verifyTls := data.verifyTls
  timeoutSeconds := data.timeoutSeconds
  secret := data.secret
  scanMode := data.scanMode
  debounceMode := data.debounceMode
  debounceWindowSeconds := data.debounceWindowSeconds
  retryAttempts := data.retryAttempts
  webhookMethod := data.webhookMethod
  webhookHeadersJson := data.webhookHeadersJson
  webhookBodyTemplate := data.webhookBodyTemplate
  webhookPayloadPreset := data.webhookPayloadPreset

/-- The form of a new server, its enumerations read. -/
structure ServerForm where
  name : Str
  type : ServerType
  baseUrl : Str
  secret : Str
  scanMode : ScanMode
  debounceMode : DebounceMode
  debounceWindowSeconds : Int
  retryAttempts : Int
  timeoutSeconds : PyFloat
  verifyTls : Bool
  enabled : Bool
  webhookMethod : Str
  webhookHeadersJson : Str
  webhookBodyTemplate : Str
  webhookPayloadPreset : WebhookPreset
  eventTypes : List FsEventType

/-- The payload of `ui_create_server_with_folders`. -/
def ServerForm.created (form : ServerForm) : ServerCreate where
  name := form.name
  type := form.type
  baseUrl := form.baseUrl
  secret := orNone form.secret
  scanMode := form.scanMode
  debounceMode := form.debounceMode
  debounceWindowSeconds := form.debounceWindowSeconds
  retryAttempts := form.retryAttempts
  timeoutSeconds := form.timeoutSeconds
  verifyTls := form.verifyTls
  enabled := form.enabled
  webhookMethod := orNone form.webhookMethod
  webhookHeadersJson := orNone form.webhookHeadersJson
  webhookBodyTemplate := orNone form.webhookBodyTemplate
  webhookPayloadPreset := form.webhookPayloadPreset
  eventTypes := form.eventTypes

/-- The payload of `ui_test_server_config`. -/
def ServerForm.tested (form : ServerForm) : ServerCreate where
  name := orElse (some form.name) (str "test")
  type := form.type
  baseUrl := form.baseUrl
  secret := orNone form.secret
  verifyTls := form.verifyTls
  timeoutSeconds := form.timeoutSeconds
  webhookMethod := orNone form.webhookMethod
  webhookHeadersJson := orNone form.webhookHeadersJson
  webhookBodyTemplate := orNone form.webhookBodyTemplate
  webhookPayloadPreset := form.webhookPayloadPreset

/-! ### What the snapshot is for -/

/-- The routes of a server, as the catalogue has it. -/
def Entry.routes (lower : Str → Str) (i : Int) (e : Entry) : List FolderRoute :=
  (e.folders.filter (·.2.enabled)).map fun (_, folder) =>
    { serverId := i
      serverName := e.settings.name
      path := normalizePath folder.path
      extensions := (folder.extensions.map (normalizeExtension lower)).dedup
      libraryId := folder.libraryId
      scanMode := e.settings.scanMode
      eventTypes := e.settings.eventTypes }

/-- The settings, under the id they are kept under. -/
def ServerCreate.runtime (settings : ServerCreate) (i : Int) : ServerRuntime :=
  { runtimeFromCreate settings with serverId := i }

/-- What the engine is to run: of the enabled servers, in some order, the settings and the routes
of the folders that are enabled too; and it watches where these routes lead. -/
structure Catalog.Snapshot (lower : Str → Str) (c : Catalog) (config : RuntimeConfig) : Prop where
  servers : ∀ i, config.servers.lookup i =
    ((c i).filter fun e => e.settings.enabled).map fun e => e.settings.runtime i
  routes : ∃ ids : List Int, ids.Nodup ∧ (∀ i, i ∈ ids ↔ i ∈ config.servers) ∧
    config.routes = ids.flatMap fun i => ((c i).map (Entry.routes lower i)).getD []
  watchPaths : config.watchPaths = (config.routes.map FolderRoute.path).dedup
  ignoreDirs : config.ignoreDirs = MediaScanMonitor.ignoreDirs

variable {lower : Str → Str} {box : SecretBox} {store : Store} {server : Server}
  {settings : ServerCreate} {e : Entry} {i : Int} {config : RuntimeConfig}

/-! ### The snapshot of a database -/

theorem runtime_eq {secret : Option Str} (hs : server.settings box = some settings)
    (hsecret : Store.resolveSecret box server = some secret) :
    server.runtime secret = settings.runtime server.id := by
  obtain ⟨secret', eventTypes, hsecret', -, rfl⟩ := settings_eq_some.mp hs
  cases hsecret.symm.trans hsecret'
  rfl

/-- The routes that an iteration adds. -/
theorem mapM_folderRoute (hs : server.settings box = some settings) (folders : List Folder) :
    folders.mapM (server.folderRoute lower) = some (folders.map fun folder =>
      { serverId := server.id
        serverName := settings.name
        path := normalizePath folder.path
        extensions := (folder.filetypes.map (normalizeExtension lower)).dedup
        libraryId := folder.libraryId
        scanMode := settings.scanMode
        eventTypes := settings.eventTypes }) := by
  obtain ⟨secret, eventTypes, -, htypes, rfl⟩ := settings_eq_some.mp hs
  refine mapM_eq_some fun folder _ => ?_
  rw [Server.folderRoute, htypes]
  rfl

theorem routes_of_entry (hget : store.getServer server.id = some server)
    (he : store.catalog box server.id = some e) :
    ((store.listFolders server.id).filter (·.enabled)).mapM (server.folderRoute lower) =
      some (e.routes lower server.id) := by
  obtain ⟨server', hget', hs, hfolders⟩ := catalog_eq_some he
  cases hget.symm.trans hget'
  rw [mapM_folderRoute hs, Entry.routes, hfolders, List.filter_map, List.map_map]
  rfl

/-- An iteration adds what the catalogue has of the server. -/
theorem Assembly.add_of_entry {a a' : Assembly} (hget : store.getServer server.id = some server)
    (he : store.catalog box server.id = some e) (h : a.add lower box store server = some a') :
    a'.routes = a.routes ++ e.routes lower server.id ∧
      a'.watchPaths = a.watchPaths ++ (e.routes lower server.id).map FolderRoute.path := by
  obtain ⟨secret, routes, -, hmap, -, hroutes, hpaths⟩ := Assembly.add_eq_some h
  rw [routes_of_entry hget he, Option.some_inj] at hmap
  rw [hmap]
  exact ⟨hroutes, hpaths⟩

/-- The loop adds the routes of one server after the other. -/
theorem Assembly.routes_foldlM {servers : List Server} {a a' : Assembly}
    (hservers : ∀ server ∈ servers, store.getServer server.id = some server ∧
      ∃ e, store.catalog box server.id = some e)
    (h : servers.foldlM (Assembly.add lower box store) a = some a') :
    a'.routes = a.routes ++ (servers.map Server.id).flatMap fun i =>
        ((store.catalog box i).map (Entry.routes lower i)).getD [] := by
  induction servers generalizing a with
  | nil =>
      cases h
      exact (List.append_nil _).symm
  | cons server servers ih =>
      rw [List.forall_mem_cons] at hservers
      obtain ⟨⟨hget, e, he⟩, hservers⟩ := hservers
      simp only [List.foldlM_cons, Option.bind_eq_bind, Option.bind_eq_some_iff] at h
      obtain ⟨b, hb, h⟩ := h
      rw [ih hservers h, (Assembly.add_of_entry hget he hb).1, List.map_cons, List.flatMap_cons, he,
        List.append_assoc]
      rfl

theorem Assembly.watchPaths_foldlM {servers : List Server} {a a' : Assembly}
    (h : servers.foldlM (Assembly.add lower box store) a = some a')
    (ha : a.watchPaths = a.routes.map FolderRoute.path) :
    a'.watchPaths = a'.routes.map FolderRoute.path := by
  induction servers generalizing a with
  | nil =>
      cases h
      exact ha
  | cons server servers ih =>
      simp only [List.foldlM_cons, Option.bind_eq_bind, Option.bind_eq_some_iff] at h
      obtain ⟨b, hb, h⟩ := h
      obtain ⟨secret, routes, -, -, -, hroutes, hpaths⟩ := Assembly.add_eq_some hb
      refine ih h ?_
      rw [hroutes, hpaths, ha, List.map_append]

theorem mem_listServers : server ∈ store.listServers ↔
    store.getServer server.id = some server ∧ server.enabled = true := by
  rw [Store.listServers, List.mem_filter, getServer_iff]
  simp

/-- The servers of the snapshot. -/
theorem mem_servers_iff (h : buildRuntimeConfig lower box store = some config) :
    i ∈ config.servers ↔ i ∈ store.listServers.map Server.id := by
  obtain ⟨a, ha, rfl⟩ := Option.map_eq_some_iff.mp h
  obtain ⟨⟨more, hmore, hids⟩, -, -⟩ := Assembly.foldlM_add_mono ha
  rw [← hids, Assembly.config, mem_toAList, hmore]
  rfl

theorem lookup_snapshot (hl : store.Legible box)
    (h : buildRuntimeConfig lower box store = some config) (i : Int) :
    config.servers.lookup i = ((store.catalog box i).filter fun e => e.settings.enabled).map
      fun e => e.settings.runtime i := by
  have hnone (hno : ∀ server, store.getServer i = some server → server.enabled = false) :
      config.servers.lookup i = none := by
    rw [AList.lookup_eq_none, mem_servers_iff h, List.mem_map]
    rintro ⟨server, hserver, rfl⟩
    obtain ⟨hget, henabled⟩ := mem_listServers.mp hserver
    rw [hno server hget] at henabled
    cases henabled
  cases hget : store.getServer i with
  | none =>
      rw [catalog_of_none hget, hnone fun server hserver => by rw [hget] at hserver; cases hserver]
      rfl
  | some server =>
      obtain ⟨hmem, rfl⟩ := getServer_iff.mp hget
      obtain ⟨settings, hs⟩ := hl server hmem
      have henabled : settings.enabled = server.enabled := by
        obtain ⟨_, _, -, -, rfl⟩ := settings_eq_some.mp hs
        rfl
      rw [catalog_of_getServer hget hs]
      cases hon : server.enabled with
      | true =>
          obtain ⟨secret, hsecret, hlookup⟩ :=
            (holds_of_build h (mem_listServers.mpr ⟨hget, hon⟩)).runtime
          rw [hlookup, runtime_eq hs hsecret, Option.filter_some, if_pos (henabled.trans hon)]
          rfl
      | false =>
          rw [Option.filter_some, if_neg (by rw [henabled, hon]; exact Bool.false_ne_true)]
          refine hnone fun server' hget' => ?_
          cases hget.symm.trans hget'
          exact hon

/-- **The snapshot** is what the catalogue says of the enabled servers. -/
theorem snapshot_of_catalog (hl : store.Legible box)
    (h : buildRuntimeConfig lower box store = some config) :
    (store.catalog box).Snapshot lower config := by
  have hentry (server : Server) (hserver : server ∈ store.listServers) :
      store.getServer server.id = some server ∧ ∃ e, store.catalog box server.id = some e := by
    obtain ⟨e, he, -⟩ := exists_entry hl (List.mem_of_mem_filter hserver)
    exact ⟨(mem_listServers.mp hserver).1, e, he⟩
  refine ⟨lookup_snapshot hl h, ⟨store.listServers.map Server.id, ?_, ?_, ?_⟩, ?_, ?_⟩
  · exact store.constraints.serverIds.sublist (List.filter_sublist.map Server.id)
  · exact fun i => (mem_servers_iff h).symm
  all_goals obtain ⟨a, ha, rfl⟩ := Option.map_eq_some_iff.mp h
  · exact Assembly.routes_foldlM hentry ha
  · exact congrArg List.dedup (Assembly.watchPaths_foldlM ha rfl)
  · rfl

/-! ### Tests -/

variable {py : Interpreter} {clients : Clients} {form : ServerForm}

/-- The id is not read by a test. -/
theorem test_runtime (py : Interpreter) (clients : Clients) (settings : ServerCreate) (i : Int) :
    testAdapter py clients (settings.runtime i) =
      testAdapter py clients (runtimeFromCreate settings) :=
  (test_congr py clients ⟨rfl, rfl, rfl, rfl, rfl, fun _ => rfl, rfl, rfl, rfl, rfl⟩).2 (.inr rfl)

/-- A form is tested as the server it will be saved as, but for the attempts at a webhook. -/
theorem test_form (py : Interpreter) (clients : Clients) (hname : form.name ≠ []) :
    (testAdapter py clients (runtimeFromCreate form.tested)).request =
        (testAdapter py clients (runtimeFromCreate form.created)).request ∧
      (form.type ≠ .webhook ∨ form.retryAttempts = 3 →
        testAdapter py clients (runtimeFromCreate form.tested) =
          testAdapter py clients (runtimeFromCreate form.created)) := by
  have hsame : orElse (some form.name) (str "test") = form.name := if_neg hname
  have halike : (runtimeFromCreate form.created).TestsAlike (runtimeFromCreate form.tested) :=
    ⟨rfl, rfl, rfl, rfl, rfl, fun _ => hsame, rfl, rfl, rfl, rfl⟩
  obtain ⟨hrequest, htest⟩ := test_congr py clients halike
  exact ⟨hrequest, fun h => htest (h.imp_right Eq.symm)⟩

/-- **After any writes the engine gets its snapshot, and in it what the catalogue has of the
enabled servers.**  A server that is kept is tested, from its row, as the engine runs it and as its
settings were before they were saved; and the test tells what its last attempt came to.  The test
of a form sends what the test of the saved server sends, a webhook's as often as if the form said
three attempts. -/
theorem runs_what_is_tested (lower : Str → Str) (box : SecretBox) (py : Interpreter)
    (clients : Clients) (writes : List Write) :
    let store := Store.after lower box writes
    ∃ config, buildRuntimeConfig lower box store = some config ∧
      (store.catalog box).Snapshot lower config ∧
      ∀ i e, store.catalog box i = some e → ∃ server secret,
        store.getServer i = some server ∧ Store.resolveSecret box server = some secret ∧
        (∀ running, config.servers.lookup i = some running →
          running = runtimeFromServer server secret) ∧
        testAdapter py clients (runtimeFromServer server secret) =
          testAdapter py clients (runtimeFromCreate e.settings) ∧
        (testAdapter py clients (runtimeFromServer server secret)).Truthful
          (clients.build (runtimeFromServer server secret)) ∧
        ∀ form : ServerForm, form.name ≠ [] → e.settings = form.created →
          (testAdapter py clients (runtimeFromCreate form.tested)).request =
              (testAdapter py clients (runtimeFromServer server secret)).request ∧
            (form.type ≠ .webhook ∨ form.retryAttempts = 3 →
              testAdapter py clients (runtimeFromCreate form.tested) =
                testAdapter py clients (runtimeFromServer server secret)) := by
  intro store
  obtain ⟨-, hl⟩ := reach_of_writes lower box writes
  obtain ⟨config, hbuild⟩ := Option.isSome_iff_exists.mp
    ((isSome_build_iff lower box store).mpr (readable_of_legible hl))
  refine ⟨config, hbuild, snapshot_of_catalog hl hbuild, fun i e he => ?_⟩
  obtain ⟨server, hget, hs, -⟩ := catalog_eq_some he
  obtain ⟨secret, _, hsecret, -, -⟩ := settings_eq_some.mp hs
  obtain ⟨-, rfl⟩ := getServer_iff.mp hget
  have hruntime : runtimeFromServer server secret = e.settings.runtime server.id :=
    runtime_eq hs hsecret
  refine ⟨server, secret, hget, hsecret, fun running hrunning => ?_, ?_, truthful_test _ _ _,
    fun form hname hform => ?_⟩
  · rw [lookup_snapshot hl hbuild, he, Option.map_eq_some_iff] at hrunning
    obtain ⟨e', he', rfl⟩ := hrunning
    cases (Option.filter_eq_some_iff.mp he').1
    exact hruntime.symm
  · rw [hruntime, test_runtime]
  · rw [hruntime, test_runtime, hform]
    exact test_form py clients hname

end MediaScanMonitor
