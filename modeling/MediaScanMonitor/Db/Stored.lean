import MediaScanMonitor.Db.Validate

/-!
# Db — what the write cores store

Every row goes back to payloads that went through their validators, of the `FolderCreate` it was
created from and of each `FolderUpdate` since.

* `normal_of_stored`: its path is normalised, and so are its extensions.
* `stored_of_written`: the rows that any run of the write cores leaves.
-/

namespace MediaScanMonitor
open Py Posix

/-- A row created from a validated payload and changed by validated payloads. -/
inductive Folder.Stored (lower : Str → Str) : Folder → Prop where
  | created {raw data : FolderCreate} (id serverId : Int) (h : raw.validate lower = some data) :
      Stored lower (data.row id serverId)
  | updated {folder folder' : Folder} {raw data : FolderUpdate} (hfolder : Stored lower folder)
      (h : raw.validate lower = some data) (hupdate : folder.update lower data = .ok folder') :
      Stored lower folder'

/-! ### The fields -/

/-- An extension as the validators leave it. -/
structure NormalExtension (T : CaseTable) (e : Str) : Prop where
  ne : e ≠ []
  lower : T.lower e = e
  strip : strip e = e

structure Folder.Normal (T : CaseTable) (folder : Folder) : Prop where
  path : ∃ a : AbsPath, folder.path = a.toStr
  extensions : ∀ e ∈ folder.filetypes, NormalExtension T e

section
variable {T : CaseTable} {p path e : Str} {exts : List Str} {folder : Folder}

theorem exists_toStr_of_valid (h : normalizeAndRequireAbsolute p = some path) :
    ∃ a : AbsPath, path = a.toStr := by
  obtain ⟨habs, rfl⟩ := normalizeAndRequireAbsolute_eq_some_iff.mp h
  exact AbsPath.exists_toStr_of_normpath habs

theorem extension_normalize (h : normalizeExtension T.lower e ≠ []) :
    NormalExtension T (normalizeExtension T.lower e) where
  ne := h
  lower := CaseTable.lower_lower _
  strip := by rw [normalizeExtension_eq, ← CaseTable.lower_strip, strip_bare]

/-- What `update_folder` makes of a list of extensions. -/
theorem extension_of_mem_update
    (h : e ∈ ((exts.map (normalizeExtension T.lower)).filter (· ≠ [])).eraseDups) :
    NormalExtension T e := by
  rw [List.mem_eraseDups, List.mem_filter, List.mem_map, decide_eq_true_eq] at h
  obtain ⟨⟨ext, -, rfl⟩, hne⟩ := h
  exact extension_normalize hne

theorem normal_create {raw data : FolderCreate} (id serverId : Int)
    (h : raw.validate T.lower = some data) : (data.row id serverId).Normal T where
  path := by
    obtain ⟨path, hpath, rfl⟩ := Option.map_eq_some_iff.mp h
    exact exists_toStr_of_valid hpath
  extensions e he := by
    rw [FolderCreate.row, FolderCreate.validate_extensions h] at he
    obtain ⟨hne, ext, -, rfl⟩ := mem_normalizeExtensions.mp he
    exact extension_normalize hne

theorem normal_update {folder' : Folder} {raw data : FolderUpdate} (hfolder : folder.Normal T)
    (h : raw.validate T.lower = some data) (hupdate : folder.update T.lower data = .ok folder') :
    folder'.Normal T := by
  simp only [Folder.update, bind_eq_ok] at hupdate
  obtain ⟨_, -, path, hpath, enabled, -, hpure⟩ := hupdate
  cases hpure
  refine ⟨?_, fun e he => ?_⟩
  · cases hfield : data.path.join with
    | none =>
        rw [setColumn_eq_ok hpath, hfield]
        exact hfolder.path
    | some q =>
        obtain ⟨p, hp⟩ := FolderUpdate.validate_path h (Option.join_eq_some_iff.mp hfield)
        rw [setColumn_eq_ok hpath, hfield]
        exact exists_toStr_of_valid hp
  · dsimp only at he
    split at he
    · exact extension_of_mem_update he
    · exact hfolder.extensions e he

/-- **A stored row is normal.** -/
theorem normal_of_stored (h : folder.Stored T.lower) : folder.Normal T := by
  induction h with
  | created id serverId h => exact normal_create id serverId h
  | updated _ h hupdate ih => exact normal_update ih h hupdate

end

/-! ### Runs -/

/-- The payloads of the write went through their validators. -/
def Write.Validated (lower : Str → Str) : Write → Prop
  | .serverCreateWithFolders _ _ folders | .serverUpdateWithFolders _ _ _ folders =>
    ∀ data ∈ folders, ∃ raw : FolderCreate, raw.validate lower = some data
  | .folderCreate _ data => ∃ raw : FolderCreate, raw.validate lower = some data
  | .folderUpdate _ data => ∃ raw : FolderUpdate, raw.validate lower = some data
  | .serverCreate .. | .serverUpdate .. | .serverDelete _ | .folderDelete _ => True

namespace Store

/-- The database after a run of the write cores; one that raises leaves it alone. -/
inductive Written (lower : Str → Str) (box : SecretBox) : Store → Prop where
  | empty : Written lower box .empty
  | write {store store' : Store} {write : Write} (hstore : Written lower box store)
      (h : write.Validated lower) (hrun : write.run lower box store = .ok store') :
      Written lower box store'

def Stored (lower : Str → Str) (store : Store) : Prop :=
  ∀ folder ∈ store.folders, folder.Stored lower

variable {lower : Str → Str} {box : SecretBox} {store store' : Store} {serverId : Int}
  {ids : List Int} {folders : List FolderCreate} {rows : List Folder} {folder : Folder}

/-- New rows beside stored ones. -/
theorem stored_append (hrows : ∀ row ∈ rows, row.Stored lower)
    (h : ∀ data ∈ folders, ∃ raw : FolderCreate, raw.validate lower = some data) :
    ∀ row ∈ rows ++ newFolders serverId ids folders, row.Stored lower := by
  intro row hrow
  rcases List.mem_append.mp hrow with hrow | hrow
  · exact hrows row hrow
  · obtain ⟨⟨data, k⟩, hk, rfl⟩ := List.mem_map.mp hrow
    obtain ⟨raw, hraw⟩ := h data (List.fst_mem_of_mem_zipIdx hk)
    exact .created _ _ hraw

theorem folders_createServerWithFolders {nonce : Nat} {data : ServerCreate} {server : Server}
    (h : store.createServerWithFolders box nonce data folders = .ok (store', server)) :
    store'.folders =
      store.folders ++ newFolders server.id (store.folders.map Folder.id) folders := by
  simp only [createServerWithFolders, bind_eq_ok] at h
  obtain ⟨_, -, _, hcommit, hpure⟩ := h
  cases hpure
  exact (commit_eq_ok hcommit).2.1

/-- Of the rows there were, an update keeps some and rewrites one. -/
theorem stored_updateFolder {folderId : Int} {raw data : FolderUpdate} (hs : store.Stored lower)
    (h : raw.validate lower = some data)
    (hrun : store.updateFolder lower folderId data = .ok (store', folder)) :
    store'.Stored lower := by
  obtain ⟨old, hget, hupdate, -, hfolders⟩ := updateFolder_eq_ok hrun
  intro row hrow
  rw [hfolders] at hrow
  obtain ⟨f, hf, rfl⟩ := List.mem_map.mp hrow
  split
  · exact .updated (hs old (getFolder_eq_some hget).1) h hupdate
  · exact hs f hf

/-- **A write core stores what went through the validators.** -/
theorem stored_write {write : Write} (hs : store.Stored lower) (h : write.Validated lower)
    (hrun : write.run lower box store = .ok store') : store'.Stored lower := by
  cases write with
  | serverCreate nonce data =>
      obtain ⟨server, hcreate⟩ := map_fst_eq_ok hrun
      rw [Stored, folders_createServerWithFolders hcreate]
      exact stored_append hs (List.forall_mem_nil _)
  | serverCreateWithFolders nonce data folders =>
      obtain ⟨server, hcreate⟩ := map_fst_eq_ok hrun
      rw [Stored, folders_createServerWithFolders hcreate]
      exact stored_append hs h
  | serverUpdate nonce serverId data =>
      obtain ⟨server', hupdate⟩ := map_fst_eq_ok hrun
      simp only [updateServer, bind_eq_ok] at hupdate
      obtain ⟨_, -, _, -, _, hcommit, hpure⟩ := hupdate
      cases hpure
      rw [Stored, (commit_eq_ok hcommit).2.1]
      exact hs
  | serverUpdateWithFolders nonce serverId data folders =>
      obtain ⟨server', hupdate⟩ := map_fst_eq_ok hrun
      simp only [updateServerWithFolders, bind_eq_ok] at hupdate
      obtain ⟨_, -, _, -, _, hcommit, hpure⟩ := hupdate
      cases hpure
      rw [Stored, (commit_eq_ok hcommit).2.1, replaceFolders]
      exact stored_append (fun row hrow => hs row (List.mem_of_mem_filter hrow)) h
  | serverDelete serverId =>
      rw [Stored, (commit_eq_ok ((store.deleteServer_eq_ok).mp hrun).2).2.1]
      exact fun row hrow => hs row (List.mem_of_mem_filter hrow)
  | folderCreate serverId data =>
      obtain ⟨folder, hcreate⟩ := map_fst_eq_ok hrun
      obtain ⟨rfl, hcommit⟩ := createFolder_eq_ok store hcreate
      rw [Stored, (commit_eq_ok hcommit).2.1]
      obtain ⟨raw, hraw⟩ := h
      intro row hrow
      rcases List.mem_append.mp hrow with hrow | hrow
      · exact hs row hrow
      · rw [List.mem_singleton.mp hrow]
        exact .created _ _ hraw
  | folderUpdate folderId data =>
      obtain ⟨raw, hraw⟩ := h
      obtain ⟨folder, hupdate⟩ := map_fst_eq_ok hrun
      exact stored_updateFolder hs hraw hupdate
  | folderDelete folderId =>
      rw [Stored, (commit_eq_ok ((store.deleteFolder_eq_ok).mp hrun).2).2.1]
      exact fun row hrow => hs row (List.mem_of_mem_filter hrow)

/-- **The rows any run of the write cores leaves.** -/
theorem stored_of_written (h : store.Written lower box) : store.Stored lower := by
  induction h with
  | empty => exact List.forall_mem_nil _
  | write _ h hrun ih => exact stored_write ih h hrun

end Store

end MediaScanMonitor
