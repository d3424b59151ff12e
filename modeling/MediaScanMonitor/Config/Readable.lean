import MediaScanMonitor.Config.Build
import Mathlib.Data.List.Dedup

/-!
# Config — the databases that can be read

Nothing in the loop of `build_runtime_config` catches what `SecretBox.decrypt` and
`parse_event_types` raise.

* `toOption_buildOrRaise`: `buildOrRaise` is `buildRuntimeConfig`, with the exception told.
* `isSome_build_iff`: it returns exactly where every enabled server is `Readable`.
* `holds_of_build`: what it returns has all of every enabled server.
* `isolates_iff`: so a server that is not readable takes all others with it.
-/

namespace MediaScanMonitor
open Py

/-- The exceptions that tell `rebuild_engine` what to do. -/
inductive PyError where
  | runtimeError
  | secretDecryptError
  | valueError
  deriving DecidableEq

/-- `parse_event_types` is called for each enabled folder, and returns. -/
def Server.Parses (store : Store) (server : Server) : Prop :=
  ∀ folder ∈ (store.listFolders server.id).filter (·.enabled),
    (parseEventTypes server.eventTypes).isSome = true

/-- The secret, if there is one, decrypts. -/
def Server.Decrypts (box : SecretBox) (server : Server) : Prop :=
  (Store.resolveSecret box server).isSome = true

/-- An iteration for the server returns. -/
def Server.Readable (box : SecretBox) (store : Store) (server : Server) : Prop :=
  server.Decrypts box ∧ server.Parses store

instance (box : SecretBox) (server : Server) : Decidable (server.Decrypts box) :=
  inferInstanceAs (Decidable (_ = true))

instance (box : SecretBox) (store : Store) (server : Server) :
    Decidable (server.Readable box store) :=
  inferInstanceAs (Decidable (_ = true ∧ ∀ folder ∈ (store.listFolders server.id).filter _, _))

/-- Every enabled server can be read. -/
def Store.Readable (box : SecretBox) (store : Store) : Prop :=
  ∀ server ∈ store.listServers, server.Readable box store

instance (box : SecretBox) (store : Store) : Decidable (store.Readable box) :=
  inferInstanceAs (Decidable (∀ server ∈ store.listServers, _))

/-- One iteration of the loop, with what it raises. -/
def Assembly.addOrRaise (lower : Str → Str) (box : SecretBox) (store : Store) (a : Assembly)
    (server : Server) : Except PyError Assembly :=
  match Store.resolveSecret box server, a.add lower box store server with
  | none, _ => .error .secretDecryptError
  | some _, none => .error .valueError
  | some _, some a => .ok a

/-- `build_runtime_config`, when nothing is committed in between. -/
def buildOrRaise (lower : Str → Str) (box : SecretBox) (store : Store) :
    Except PyError RuntimeConfig :=
  (store.listServers.foldlM (Assembly.addOrRaise lower box store) .empty).map Assembly.config

variable {lower : Str → Str} {box : SecretBox} {store : Store} {server : Server}
  {config : RuntimeConfig}

/-! ### One iteration -/

theorem isSome_mapM {α β : Type} {f : α → Option β} {l : List α} :
    (l.mapM f).isSome = true ↔ ∀ x ∈ l, (f x).isSome = true := by
  induction l with
  | nil => simp
  | cons x l ih =>
      rw [List.mapM_cons, List.forall_mem_cons, ← ih]
      cases f x with
      | none => simp
      | some y => cases l.mapM f <;> simp

theorem exists_mem_of_mapM {α β : Type} {f : α → Option β} {l : List α} {ys : List β}
    (h : l.mapM f = some ys) : ∀ x ∈ l, ∃ y ∈ ys, f x = some y := by
  induction l generalizing ys with
  | nil => simp
  | cons x l ih =>
      simp only [List.mapM_cons, Option.bind_eq_bind, Option.bind_eq_some_iff] at h
      obtain ⟨y, hy, ys, hys, hcons⟩ := h
      cases hcons
      intro z hz
      rcases List.mem_cons.mp hz with rfl | hz
      · exact ⟨y, List.mem_cons_self, hy⟩
      · obtain ⟨w, hw, hfw⟩ := ih hys z hz
        exact ⟨w, List.mem_cons_of_mem _ hw, hfw⟩

namespace Assembly
variable {a a' : Assembly} {servers : List Server}

/-- What an iteration adds. -/
theorem add_eq_some (h : a.add lower box store server = some a') :
    ∃ secret routes, Store.resolveSecret box server = some secret ∧
      ((store.listFolders server.id).filter (·.enabled)).mapM (server.folderRoute lower) =
        some routes ∧
      a'.servers = a.servers ++ [⟨server.id, server.runtime secret⟩] ∧
      a'.routes = a.routes ++ routes ∧
      a'.watchPaths = a.watchPaths ++ routes.map FolderRoute.path := by
  simp only [add, Option.bind_eq_bind, Option.bind_eq_some_iff] at h
  obtain ⟨secret, hsecret, routes, hroutes, hpure⟩ := h
  cases hpure
  exact ⟨secret, routes, hsecret, hroutes, rfl, rfl, rfl⟩

theorem isSome_add (lower : Str → Str) (a : Assembly) :
    (a.add lower box store server).isSome = true ↔
    server.Readable box store := by
  have hroutes : (((store.listFolders server.id).filter (·.enabled)).mapM
      (server.folderRoute lower)).isSome = true ↔ server.Parses store := by
    simp only [isSome_mapM, Server.Parses, Server.folderRoute, Option.isSome_map]
  rw [Server.Readable, ← hroutes, Server.Decrypts, add]
  cases Store.resolveSecret box server with
  | none => simp
  | some secret =>
      cases ((store.listFolders server.id).filter (·.enabled)).mapM (server.folderRoute lower) with
      | none => simp
      | some routes => simp

theorem isSome_foldlM_add : (servers.foldlM (add lower box store) a).isSome = true ↔
    ∀ server ∈ servers, server.Readable box store := by
  induction servers generalizing a with
  | nil => simp
  | cons server servers ih =>
      rw [List.foldlM_cons, List.forall_mem_cons, ← isSome_add lower a]
      cases a.add lower box store server with
      | none => simp
      | some a' => simpa using ih (a := a')

theorem toOption_addOrRaise :
    (a.addOrRaise lower box store server).toOption = a.add lower box store server := by
  rw [addOrRaise]
  cases hsecret : Store.resolveSecret box server with
  | none => simp [add, hsecret, Except.toOption]
  | some secret => cases a.add lower box store server <;> rfl

theorem toOption_foldlM_addOrRaise :
    (servers.foldlM (addOrRaise lower box store) a).toOption =
      servers.foldlM (add lower box store) a := by
  induction servers generalizing a with
  | nil => rfl
  | cons server servers ih =>
      rw [List.foldlM_cons, List.foldlM_cons, ← toOption_addOrRaise]
      cases a.addOrRaise lower box store server with
      | error e => rfl
      | ok a' => exact ih

/-- An iteration raises what `rebuild_engine` lets through. -/
theorem foldlM_addOrRaise_ne (servers : List Server) :
    servers.foldlM (addOrRaise lower box store) a ≠ .error .runtimeError := by
  induction servers generalizing a with
  | nil =>
      intro h
      cases h
  | cons server servers ih =>
      rw [List.foldlM_cons, addOrRaise]
      cases Store.resolveSecret box server with
      | none =>
          intro h
          cases h
      | some secret =>
          cases a.add lower box store server with
          | none =>
              intro h
              cases h
          | some a' => exact ih

/-- What is there stays there. -/
theorem foldlM_add_mono (h : servers.foldlM (add lower box store) a = some a') :
    (∃ more, a'.servers = a.servers ++ more ∧ more.map Sigma.fst = servers.map Server.id) ∧
      a.routes ⊆ a'.routes ∧ a.watchPaths ⊆ a'.watchPaths := by
  induction servers generalizing a with
  | nil =>
      cases h
      exact ⟨⟨[], by simp, rfl⟩, List.Subset.refl _, List.Subset.refl _⟩
  | cons server servers ih =>
      simp only [List.foldlM_cons, Option.bind_eq_bind, Option.bind_eq_some_iff] at h
      obtain ⟨b, hb, h⟩ := h
      obtain ⟨secret, routes, -, -, hservers, hroutes, hpaths⟩ := add_eq_some hb
      obtain ⟨⟨more, hmore, hids⟩, hr, hp⟩ := ih h
      refine ⟨⟨⟨server.id, server.runtime secret⟩ :: more, ?_, ?_⟩, ?_, ?_⟩
      · rw [hmore, hservers]
        simp
      · simp [hids]
      · exact List.Subset.trans (by simp [hroutes]) hr
      · exact List.Subset.trans (by simp [hpaths]) hp

/-- Every server it goes through ends up in the assembly, with its folders. -/
theorem of_mem_foldlM_add (h : servers.foldlM (add lower box store) a = some a')
    (hserver : server ∈ servers) :
    ∃ secret, Store.resolveSecret box server = some secret ∧
      (⟨server.id, server.runtime secret⟩ : Σ _ : Int, ServerRuntime) ∈ a'.servers ∧
      ∀ folder ∈ (store.listFolders server.id).filter (·.enabled),
        ∃ route, server.folderRoute lower folder = some route ∧ route ∈ a'.routes ∧
          route.path ∈ a'.watchPaths := by
  induction servers generalizing a with
  | nil => cases hserver
  | cons s servers ih =>
      simp only [List.foldlM_cons, Option.bind_eq_bind, Option.bind_eq_some_iff] at h
      obtain ⟨b, hb, h⟩ := h
      rcases List.mem_cons.mp hserver with rfl | hserver
      · obtain ⟨secret, routes, hsecret, hmap, hservers, hroutes, hpaths⟩ := add_eq_some hb
        obtain ⟨⟨more, hmore, -⟩, hr, hp⟩ := foldlM_add_mono h
        refine ⟨secret, hsecret, by simp [hmore, hservers], fun folder hfolder => ?_⟩
        obtain ⟨route, hroute, hfold⟩ := exists_mem_of_mapM hmap folder hfolder
        refine ⟨route, hfold, hr (by simp [hroutes, hroute]), hp ?_⟩
        rw [hpaths]
        exact List.mem_append_right _ (List.mem_map_of_mem hroute)
      · exact ih h hserver

end Assembly

/-! ### The snapshot -/

theorem toOption_buildOrRaise (lower : Str → Str) (box : SecretBox) (store : Store) :
    (buildOrRaise lower box store).toOption = buildRuntimeConfig lower box store := by
  rw [buildOrRaise, buildRuntimeConfig, ← Assembly.toOption_foldlM_addOrRaise]
  cases store.listServers.foldlM (Assembly.addOrRaise lower box store) .empty <;> rfl

theorem buildOrRaise_eq_ok :
    buildOrRaise lower box store = .ok config ↔
      buildRuntimeConfig lower box store = some config := by
  rw [← toOption_buildOrRaise]
  cases buildOrRaise lower box store <;> simp [Except.toOption]

theorem buildOrRaise_ne : buildOrRaise lower box store ≠ .error .runtimeError := by
  intro h
  rw [buildOrRaise] at h
  cases hfold : store.listServers.foldlM (Assembly.addOrRaise lower box store) .empty with
  | error e =>
      rw [hfold] at h
      cases h
      exact Assembly.foldlM_addOrRaise_ne store.listServers hfold
  | ok a =>
      rw [hfold] at h
      cases h

theorem isSome_build_iff (lower : Str → Str) (box : SecretBox) (store : Store) :
    (buildRuntimeConfig lower box store).isSome = true ↔ store.Readable box := by
  rw [buildRuntimeConfig, Option.isSome_map]
  exact Assembly.isSome_foldlM_add

/-- The snapshot has all of the server: its `ServerRuntime`, and for each enabled folder the route
and the watch path. -/
structure RuntimeConfig.Holds (lower : Str → Str) (box : SecretBox) (store : Store)
    (config : RuntimeConfig) (server : Server) : Prop where
  runtime : ∃ secret, Store.resolveSecret box server = some secret ∧
    config.servers.lookup server.id = some (server.runtime secret)
  folders : ∀ folder ∈ (store.listFolders server.id).filter (·.enabled),
    ∃ route, server.folderRoute lower folder = some route ∧ route ∈ config.routes ∧
      route.path ∈ config.watchPaths

/-- The snapshot has all of every enabled server whose secret decrypts. -/
def RuntimeConfig.HoldsOthers (lower : Str → Str) (box : SecretBox) (store : Store)
    (config : RuntimeConfig) : Prop :=
  ∀ server ∈ store.listServers, server.Decrypts box → config.Holds lower box store server

theorem holds_of_build (h : buildRuntimeConfig lower box store = some config)
    (hserver : server ∈ store.listServers) : config.Holds lower box store server := by
  obtain ⟨a, ha, rfl⟩ := Option.map_eq_some_iff.mp h
  obtain ⟨secret, hsecret, hmem, hfolders⟩ := Assembly.of_mem_foldlM_add ha hserver
  obtain ⟨⟨more, hmore, hids⟩, -, -⟩ := Assembly.foldlM_add_mono ha
  refine ⟨⟨secret, hsecret, ?_⟩, fun folder hfolder => ?_⟩
  · have hnodup : a.servers.NodupKeys := by
      rw [List.NodupKeys, hmore]
      have hlisted : (store.listServers.map Server.id).Nodup :=
        store.constraints.serverIds.sublist (List.filter_sublist.map Server.id)
      simpa [Assembly.empty, List.keys, hids] using hlisted
    show a.servers.toAList.lookup server.id = _
    rw [AList.lookup_to_alist]
    exact (List.mem_dlookup_iff hnodup).mpr hmem
  · obtain ⟨route, hroute, hr, hp⟩ := hfolders folder hfolder
    exact ⟨route, hroute, hr, List.mem_dedup.mpr hp⟩

/-- `build_runtime_config` returns a snapshot, with every server it could read. -/
def Isolates (lower : Str → Str) (box : SecretBox) (store : Store) : Prop :=
  ∃ config, buildRuntimeConfig lower box store = some config ∧
    config.HoldsOthers lower box store

theorem isolates_iff (lower : Str → Str) (box : SecretBox) (store : Store) :
    Isolates lower box store ↔ store.Readable box := by
  rw [← isSome_build_iff lower]
  constructor
  · rintro ⟨config, h, -⟩
    rw [h]
    rfl
  · intro h
    obtain ⟨config, h⟩ := Option.isSome_iff_exists.mp h
    exact ⟨config, h, fun server hserver _ => holds_of_build h hserver⟩

end MediaScanMonitor
