import MediaScanMonitor.Config.Readable
import MediaScanMonitor.Db.Validate
import MediaScanMonitor.Watcher.Backend

/-!
# Config — the path of a folder, from the form to the watcher

A path goes through `normalize_path` where it is validated, where the snapshot is built and in
`set_roots`.  Each pass strips white space around the whole string before it resolves it, so a
pass can bare white space that the next one strips.

* `normalizePath_of_isabs`: what `normalize_path` makes of an absolute string.
* `normalizePath_fixed_iff`: when it is left alone by the next pass.
* `stored_path_canonical_iff`: when the folder has one path everywhere, and when two spellings of
  one path are stored as one string.
-/

namespace MediaScanMonitor
open Py Posix

/-- The last name does not end in white space. -/
def EndsClean (ns : Loc) : Prop := ∀ n ∈ ns.getLast?, rstrip n.val = n.val

instance (ns : Loc) : Decidable (EndsClean ns) :=
  decidable_of_iff (ns.getLast?.all fun n => rstrip n.val = n.val)
    (by simp [EndsClean, Option.all_eq_true])

variable {p : Str}

theorem clean_iff_endsClean (d : Bool) (ns : Loc) : AbsPath.Clean ⟨d, ns⟩ ↔ EndsClean ns := by
  rcases List.eq_nil_or_concat' ns with rfl | ⟨ns, n, rfl⟩
  · exact iff_of_true rfl (by simp [EndsClean])
  · rw [AbsPath.concat_eq_push, AbsPath.clean_push_iff]
    simp [EndsClean]

/-- **`normalize_path`** keeps the names an absolute string resolves to, and two slashes in
front. -/
theorem normalizePath_of_isabs (h : isabs (strip p) = true) :
    normalizePath p = AbsPath.toStr ⟨doubled (strip p), resolve (strip p)⟩ :=
  AbsPath.normpath_eq h

theorem normalizePath_fixed_iff (h : isabs (strip p) = true) :
    normalizePath (normalizePath p) = normalizePath p ↔ EndsClean (resolve (strip p)) := by
  rw [normalizePath_of_isabs h, ← AbsPath.clean_iff, clean_iff_endsClean]

/-- Two absolute strings that resolve to the same names. -/
theorem normalizePath_eq_iff {q : Str} (hp : isabs (strip p) = true) (hq : isabs (strip q) = true)
    (h : resolve (strip p) = resolve (strip q)) :
    normalizePath p = normalizePath q ↔ doubled (strip p) = doubled (strip q) := by
  rw [normalizePath_of_isabs hp, normalizePath_of_isabs hq, AbsPath.toStr_inj, h,
    AbsPath.mk.injEq, and_iff_left rfl]

theorem path_folderRoute {lower : Str → Str} {server : Server} {folder : Folder}
    {route : FolderRoute} (h : server.folderRoute lower folder = some route) :
    route.path = normalizePath folder.path := by
  obtain ⟨eventTypes, -, rfl⟩ := Option.map_eq_some_iff.mp h
  rfl

variable {lower : Str → Str} {store store' later : Store} {raw raw' data data' : FolderCreate}
  {folder : Folder} {server : Server} {serverId : Int} {box : SecretBox} {config : RuntimeConfig}
  {w : World} {ign : List Str}

/-- The path of the folder is one string where it is stored, in the snapshot and in the watcher. -/
def OnePath (folder : Folder) (route : FolderRoute) (root : Str) : Prop :=
  normalizePath folder.path = folder.path ∧ route.path = folder.path ∧ root = folder.path

/-- **The path of a folder** is a canonical form exactly when the last name it resolves to does not
end in white space, as far as one spelling goes, and for two spellings of the same names when both
or neither start with exactly two slashes. -/
theorem stored_path_canonical_iff (hdata : raw.validate lower = some data)
    (hcreate : store.createFolder serverId data = .ok (store', folder))
    (hfolder : folder ∈ (later.listFolders server.id).filter (·.enabled))
    (hserver : server ∈ later.listServers)
    (hbuild : buildRuntimeConfig lower box later = some config)
    (hdata' : raw'.validate lower = some data') :
    (∃ route ∈ config.routes, server.folderRoute lower folder = some route ∧
      route.path ∈ config.watchPaths ∧ ∃ root ∈ (w.setRoots ign config.watchPaths).roots,
        root = normalizePath route.path ∧
          (OnePath folder route root ↔ EndsClean (resolve (strip raw.path)))) ∧
      (resolve (strip raw.path) = resolve (strip raw'.path) →
        (data.path = data'.path ↔ doubled (strip raw.path) = doubled (strip raw'.path))) := by
  obtain ⟨habs, hpath⟩ := FolderCreate.validate_path hdata
  obtain ⟨habs', hpath'⟩ := FolderCreate.validate_path hdata'
  refine ⟨?_, fun h => ?_⟩
  · obtain ⟨route, hroute, hmem, hwatch⟩ := (holds_of_build hbuild hserver).folders folder hfolder
    refine ⟨route, hmem, hroute, hwatch, normalizePath route.path, ?_, rfl, ?_⟩
    · exact List.mem_dedup.mpr (List.mem_map_of_mem hwatch)
    · have hstored : folder.path = data.path :=
        congrArg Folder.path (Store.createFolder_eq_ok _ hcreate).1
      rw [OnePath, path_folderRoute hroute, hstored, hpath,
        ← normalizePath_fixed_iff habs]
      constructor
      · exact fun h => h.1
      · intro h
        exact ⟨h, h, by rw [h, h]⟩
  · rw [hpath, hpath', normalizePath_eq_iff habs habs' h]

/-- A folder at this path. -/
def rawPath (path : String) : FolderCreate := { tvFolder with path := str path }

/-- Two spellings of `/data/tv`. -/
theorem stored_path_canonical_tv :
    (rawPath "/data//tv/").validate asciiLower = some tvFolder ∧
      (rawPath " /data/x/../tv/. ").validate asciiLower = some tvFolder ∧
      ∃ route : FolderRoute, route.path = str "/data/tv" ∧
        OnePath (tvFolder.row 1 1) route (str "/data/tv") := by
  have hdata : (rawPath "/data//tv/").validate asciiLower = some tvFolder := by decide +kernel
  have hdata' : (rawPath " /data/x/../tv/. ").validate asciiLower = some tvFolder := by
    decide +kernel
  obtain ⟨store', hcreate⟩ := @createFolder_newServer tvFolder (by decide +kernel)
  obtain ⟨server, hserver, hid⟩ :
      ∃ server ∈ (storedFolder tvFolder).listServers, server.id = 1 := by decide +kernel
  have hfolder : tvFolder.row 1 1 ∈
      ((storedFolder tvFolder).listFolders server.id).filter (·.enabled) := by
    rw [hid]
    decide +kernel
  obtain ⟨config, hbuild⟩ := Option.isSome_iff_exists.mp (by decide +kernel :
    (buildRuntimeConfig asciiLower markBox (storedFolder tvFolder)).isSome)
  obtain ⟨⟨route, -, -, -, root, -, hroot, hiff⟩, hsame⟩ := @stored_path_canonical_iff asciiLower
    newServer store' (storedFolder tvFolder) _ _ _ _ _ server 1 markBox config (.fresh .bare) []
    hdata hcreate hfolder hserver hbuild hdata'
  have hone := hiff.mpr (by decide +kernel)
  have hpath : route.path = str "/data/tv" := hone.2.1
  have hkept : root = str "/data/tv" := hone.2.2
  exact ⟨hdata, hdata', route, hpath, hkept ▸ hone⟩

/-- `/data/tv /` is stored with the space at its end, and watched without it; `//data/tv` is stored
apart from `/data/tv`. -/
theorem stored_path_not_canonical :
    ((rawPath "/data/tv /").validate asciiLower).map FolderCreate.path = some (str "/data/tv ") ∧
      normalizePath (str "/data/tv ") = str "/data/tv" ∧
      resolve (str "//data/tv") = resolve (str "/data/tv") ∧
      ((rawPath "//data/tv").validate asciiLower).map FolderCreate.path = some (str "//data/tv") ∧
      ((rawPath "/data/tv").validate asciiLower).map FolderCreate.path = some (str "/data/tv") := by
  decide +kernel

end MediaScanMonitor
