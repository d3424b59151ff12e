import MediaScanMonitor.Db.Repo
import MediaScanMonitor.Library.Case

/-!
# Db — the validators of `db/schemas.py`

A raw payload becomes a validated one, or raises.  The extensions of a folder go through
`normalize_extension` once where they are validated and once more in `update_folder` and
`set_filetypes`; `create_folder` stores them as they come.

* `normalizeExtension_twice`: a second pass cuts off what the first one has bared.
* `extension_paths_agree_iff`: when the three ways to write a list of extensions agree.
-/

namespace MediaScanMonitor
open Py

/-- The loop `_normalize_extensions` and `set_filetypes` share. -/
def normalizeExtensions (lower : Str → Str) (value : List Str) : List Str :=
  value.foldl (fun out ext =>
    let norm := normalizeExtension lower ext
    if norm ≠ [] ∧ norm ∉ out then out ++ [norm] else out) []

/-- `_normalize_and_require_absolute`: `none` where it raises. -/
def normalizeAndRequireAbsolute (value : Str) : Option Str :=
  let normalized := normalizePath value
  if Posix.isabs normalized then some normalized else none

/-- `FolderCreate(**raw)`: `none` where a validator raises. -/
def FolderCreate.validate (lower : Str → Str) (raw : FolderCreate) : Option FolderCreate :=
  (normalizeAndRequireAbsolute raw.path).map fun path =>
    { raw with path, extensions := normalizeExtensions lower raw.extensions }

/-- `FolderUpdate(**raw)`: `none` where a validator raises.  A null passes them all. -/
def FolderUpdate.validate (lower : Str → Str) (raw : FolderUpdate) : Option FolderUpdate :=
  let extensions := raw.extensions.map (Option.map (normalizeExtensions lower))
  match raw.path.join with
  | none => some { raw with extensions }
  | some path => (normalizeAndRequireAbsolute path).map fun path =>
      { raw with path := some (some path), extensions }

namespace Store
variable (lower : Str → Str) (store : Store)

/-- `set_filetypes`, with the extensions of the rows it returns. -/
def setFiletypes (folderId : Int) (extensions : List Str) :
    Except RepoError (Store × List Str) := do
  let folder ← store.requireFolder folderId
  let normalized := normalizeExtensions lower extensions
  let store' ← store.commit store.servers
    (store.folders.map fun f =>
      if f.id = folder.id then { f with filetypes := normalized } else f)
  return (store', normalized)

/-- The extensions persisted for a folder. -/
def extensions (folderId : Int) : Option (List Str) :=
  (store.getFolder folderId).map Folder.filetypes

end Store

/-! ### One extension -/

/-- `ext` without the white space around it, the dots then in front, and the white space around
what is left. -/
def bare (ext : Str) : Str := strip (lstripOf dot (strip ext))

variable {lower : Str → Str} {T : CaseTable} {ext : Str} {exts : List Str}

theorem normalizeExtension_eq (lower : Str → Str) (ext : Str) :
    normalizeExtension lower ext = lower (bare ext) := rfl

@[simp] theorem strip_bare (ext : Str) : strip (bare ext) = bare ext := strip_strip _

theorem lower_bare (ext : Str) : T.lower (bare ext) = bare (T.lower ext) := by
  rw [bare, bare, CaseTable.lower_strip, CaseTable.lower_lstripOf_dot, CaseTable.lower_strip]

theorem bare_of_head (hstrip : strip ext = ext) (hdot : ext.head? ≠ some dot) : bare ext = ext := by
  have hleft : lstripOf dot ext = ext := by
    rw [← List.nil_append ext]
    exact lstripOf_append 0 hdot
  rw [bare, hstrip, hleft, hstrip]

theorem length_bare_lt (hstrip : strip ext = ext) (hdot : ext.head? = some dot) :
    (bare ext).length < ext.length := by
  obtain ⟨s, rfl⟩ := List.head?_eq_some_iff.mp hdot
  have hleft : lstripOf dot (dot :: s) = lstripOf dot s := by simp [lstripOf]
  rw [bare, hstrip, hleft, List.length_cons, Nat.lt_succ_iff]
  exact (length_strip_le _).trans (List.dropWhile_suffix _).length_le

/-- **The second pass** of `normalize_extension` bares what the first one left. -/
theorem normalizeExtension_twice (ext : Str) :
    normalizeExtension T.lower (normalizeExtension T.lower ext) = T.lower (bare (bare ext)) := by
  rw [normalizeExtension_eq, normalizeExtension_eq, ← lower_bare, CaseTable.lower_lower]

/-- A normalised extension is a fixed point when it does not start with a dot. -/
theorem normalizeExtension_fixed_iff :
    normalizeExtension T.lower (normalizeExtension T.lower ext) = normalizeExtension T.lower ext ↔
      (bare ext).head? ≠ some dot := by
  constructor
  · intro h hdot
    have hhead : (T.lower (bare ext)).head? = some dot := (CaseTable.head?_lower rfl).mpr hdot
    have hstrip : strip (T.lower (bare ext)) = T.lower (bare ext) := by
      rw [← CaseTable.lower_strip, strip_bare]
    have hlt := length_bare_lt hstrip hhead
    rw [normalizeExtension_twice, normalizeExtension_eq, lower_bare] at h
    rw [h] at hlt
    exact lt_irrefl _ hlt
  · intro hdot
    rw [normalizeExtension_twice, normalizeExtension_eq, bare_of_head (strip_bare ext) hdot]

/-! ### Lists of extensions -/

theorem normalizeExtensions_concat (lower : Str → Str) (value : List Str) (ext : Str) :
    normalizeExtensions lower (value ++ [ext]) =
      if normalizeExtension lower ext ≠ [] ∧
        normalizeExtension lower ext ∉ normalizeExtensions lower value
      then normalizeExtensions lower value ++ [normalizeExtension lower ext]
      else normalizeExtensions lower value := by
  rw [normalizeExtensions, List.foldl_concat]
  rfl

theorem mem_normalizeExtensions {x : Str} : x ∈ normalizeExtensions lower exts ↔
    x ≠ [] ∧ ∃ ext ∈ exts, normalizeExtension lower ext = x := by
  induction exts using List.reverseRecOn with
  | nil => simp [normalizeExtensions]
  | append_singleton exts ext ih =>
      rw [normalizeExtensions_concat]
      simp only [List.mem_append, List.mem_singleton, or_and_right, exists_or, exists_eq_left]
      split
      · rename_i hnew
        rw [List.mem_append, ih, List.mem_singleton]
        constructor
        · rintro (⟨hne, hold⟩ | rfl)
          · exact ⟨hne, .inl hold⟩
          · exact ⟨hnew.1, .inr rfl⟩
        · rintro ⟨hne, hold | rfl⟩
          · exact .inl ⟨hne, hold⟩
          · exact .inr rfl
      · rename_i hno
        rw [ih]
        refine and_congr_right fun hne => ⟨.inl, ?_⟩
        rintro (hold | rfl)
        · exact hold
        · have hmem : normalizeExtension lower ext ∈ normalizeExtensions lower exts := by
            by_contra hnot
            exact hno ⟨hne, hnot⟩
          exact (ih.mp hmem).2

theorem nodup_normalizeExtensions (lower : Str → Str) (exts : List Str) :
    (normalizeExtensions lower exts).Nodup := by
  induction exts using List.reverseRecOn with
  | nil => exact List.nodup_nil
  | append_singleton exts ext ih =>
      rw [normalizeExtensions_concat]
      split
      · rename_i hnew
        exact List.concat_eq_append ▸ ih.concat hnew.2
      · exact ih

/-- The loop as `update_folder` has it. -/
theorem normalizeExtensions_eq (lower : Str → Str) (exts : List Str) :
    normalizeExtensions lower exts =
      ((exts.map (normalizeExtension lower)).filter (· ≠ [])).eraseDups := by
  induction exts using List.reverseRecOn with
  | nil => rfl
  | append_singleton exts ext ih =>
      rw [normalizeExtensions_concat, List.map_append, List.filter_append, List.eraseDups_append,
        ← ih]
      by_cases hnil : normalizeExtension lower ext = []
      · simp [hnil, List.removeAll]
      · have hkept : ([ext].map (normalizeExtension lower)).filter (· ≠ []) =
            [normalizeExtension lower ext] := by simp [hnil]
        have hmem : normalizeExtension lower ext ∈ normalizeExtensions lower exts ↔
            normalizeExtension lower ext ∈
              (exts.map (normalizeExtension lower)).filter (· ≠ []) := by
          rw [ih, List.mem_eraseDups]
        rw [hkept]
        generalize (exts.map (normalizeExtension lower)).filter (· ≠ []) = old at hmem
        by_cases hold : normalizeExtension lower ext ∈ old
        · rw [if_neg fun h => h.2 (hmem.mpr hold), List.removeAll, List.filter_singleton]
          simp [hold]
        · rw [if_pos ⟨hnil, mt hmem.mp hold⟩, List.removeAll, List.filter_singleton]
          simp [hold, List.eraseDups_cons]

/-- A list the normaliser leaves alone goes through the loop as it is. -/
theorem normalizeExtensions_of_fixed (hnodup : exts.Nodup) (hnil : [] ∉ exts)
    (hfixed : ∀ x ∈ exts, normalizeExtension lower x = x) :
    normalizeExtensions lower exts = exts := by
  induction exts using List.reverseRecOn with
  | nil => rfl
  | append_singleton exts ext ih =>
      have hext : normalizeExtension lower ext = ext := hfixed ext (by simp)
      have hprev := ih (hnodup.sublist (List.sublist_append_left exts _))
        (fun h => hnil (List.mem_append_left _ h)) fun x hx => hfixed x (List.mem_append_left _ hx)
      have hnew : ext ≠ [] ∧ ext ∉ exts := by
        constructor
        · rintro rfl
          exact hnil (by simp)
        · exact fun h => (List.nodup_append.mp hnodup).2.2 ext h ext (by simp) rfl
      rw [normalizeExtensions_concat, hext, hprev, if_pos hnew]

/-! ### What is persisted -/

namespace Store
variable {store store' : Store} {serverId folderId : Int} {folder : Folder} {data : FolderCreate}
  {update : FolderUpdate}

theorem extensions_createFolder (h : store.createFolder serverId data = .ok (store', folder)) :
    store'.extensions folder.id = some data.extensions := by
  obtain ⟨rfl, hcommit⟩ := createFolder_eq_ok _ h
  have hfresh : ∀ f ∈ store.folders, f.id ≠ nextId (store.folders.map Folder.id) :=
    fun f hf => (lt_nextId (List.mem_map_of_mem hf)).ne
  rw [extensions, getFolder, (commit_eq_ok hcommit).2.1, List.find?_append,
    List.find?_eq_none.mpr fun f hf => by rw [decide_eq_true_eq]; exact hfresh f hf]
  simp [FolderCreate.row]

/-- What is persisted for a folder once `f` has rewritten its row. -/
theorem extensions_map (hget : store.getFolder folderId = some folder) (f : Folder → Folder)
    (hid : ∀ row : Folder, row.id = folder.id → (f row).id = folder.id)
    (hfolders : store'.folders = store.folders.map fun g => if g.id = folder.id then f g else g) :
    store'.extensions folderId = some (f folder).filetypes := by
  have hsame : (fun g : Folder => decide (g.id = folderId)) ∘
      (fun g => if g.id = folder.id then f g else g) = fun g => decide (g.id = folderId) := by
    funext g
    rw [Function.comp_apply]
    split
    · rename_i h
      rw [hid g h, h]
    · rfl
  rw [getFolder] at hget
  rw [extensions, getFolder, hfolders, List.find?_map, hsame, hget]
  simp

theorem extensions_updateFolder (hexts : update.extensions.join = some exts)
    (h : store.updateFolder lower folderId update = .ok (store', folder)) :
    store'.extensions folderId = some (normalizeExtensions lower exts) := by
  obtain ⟨old, hget, hupdate, -, hfolders⟩ := updateFolder_eq_ok h
  obtain ⟨⟨hid, -⟩, -⟩ := Folder.update_eq_ok hupdate
  rw [putFolder, hid] at hfolders
  rw [extensions_map hget (fun _ => folder) (fun _ _ => hid) hfolders, normalizeExtensions_eq]
  simp only [Folder.update, bind_eq_ok] at hupdate
  obtain ⟨_, -, _, -, _, -, hpure⟩ := hupdate
  cases hpure
  rw [hexts]

theorem extensions_setFiletypes {normalized : List Str}
    (h : store.setFiletypes lower folderId exts = .ok (store', normalized)) :
    store'.extensions folderId = some (normalizeExtensions lower exts) := by
  simp only [setFiletypes, bind_eq_ok, requireFolder_eq_ok] at h
  obtain ⟨folder, ⟨-, hget⟩, _, hcommit, hpure⟩ := h
  cases hpure
  exact extensions_map hget
    (fun row => { row with filetypes := normalizeExtensions lower exts }) (fun _ h => h)
    (commit_eq_ok hcommit).2.1

theorem exists_setFiletypes (hid : intError folderId = none)
    (hget : store.getFolder folderId = some folder)
    (hexts : (normalizeExtensions lower exts).findSome? textError = none) :
    ∃ store' normalized, store.setFiletypes lower folderId exts = .ok (store', normalized) := by
  have hconstraints := store.constraints.map
    (f := fun f => if f.id = folder.id
      then { f with filetypes := normalizeExtensions lower exts } else f)
    (fun x _ => by split <;> rfl) (fun x _ => by split <;> rfl)
    (fun x hx => by split <;> exact store.constraints.folderRows x hx)
    (fun x hx => by
      split
      case isTrue => exact hexts
      case isFalse => exact store.constraints.extensions x hx)
  simp only [setFiletypes, bind_eq_ok, requireFolder_eq_ok]
  exact ⟨_, _, folder, ⟨hid, hget⟩, _, commit_eq store hconstraints, rfl⟩

end Store

/-! ### Validated payloads -/

/-- **The path of a folder** is normalised, and has to be absolute. -/
theorem normalizeAndRequireAbsolute_eq_some_iff {p path : Str} :
    normalizeAndRequireAbsolute p = some path ↔
      Posix.isabs (strip p) = true ∧ path = normalizePath p := by
  rw [normalizeAndRequireAbsolute]
  constructor
  · intro h
    split at h
    · rename_i habs
      cases h
      exact ⟨Posix.isabs_of_isabs_normpath habs, rfl⟩
    · cases h
  · rintro ⟨habs, rfl⟩
    refine if_pos ?_
    rw [normalizePath, Posix.AbsPath.normpath_eq habs]
    exact Posix.AbsPath.isabs_toStr _

theorem FolderCreate.validate_path {raw data : FolderCreate} (h : raw.validate lower = some data) :
    Posix.isabs (strip raw.path) = true ∧ data.path = normalizePath raw.path := by
  obtain ⟨path, hpath, rfl⟩ := Option.map_eq_some_iff.mp h
  exact normalizeAndRequireAbsolute_eq_some_iff.mp hpath

theorem FolderUpdate.validate_path {raw data : FolderUpdate} {path : Str}
    (h : raw.validate lower = some data) (hpath : data.path = some (some path)) :
    ∃ p, normalizeAndRequireAbsolute p = some path := by
  rw [validate] at h
  split at h
  · rename_i hnull
    cases h
    rw [hpath] at hnull
    cases hnull
  · obtain ⟨q, hq, rfl⟩ := Option.map_eq_some_iff.mp h
    cases hpath
    exact ⟨_, hq⟩

theorem FolderCreate.validate_extensions {raw data : FolderCreate}
    (h : raw.validate lower = some data) :
    data.extensions = normalizeExtensions lower raw.extensions := by
  obtain ⟨path, -, rfl⟩ := Option.map_eq_some_iff.mp h
  rfl

theorem FolderUpdate.validate_extensions {raw update : FolderUpdate}
    (h : raw.validate lower = some update) :
    update.extensions = raw.extensions.map (Option.map (normalizeExtensions lower)) := by
  rw [validate] at h
  split at h
  · cases h
    rfl
  · obtain ⟨path, -, rfl⟩ := Option.map_eq_some_iff.mp h
    rfl

/-- **The three ways to write a list of extensions** persist one list, and that a normal form,
exactly when one pass of the normaliser bares no dot in front of an entry. -/
theorem extension_paths_agree_iff {store₁ store₂ store₃ created updated replaced : Store}
    {raw data : FolderCreate} {changes update : FolderUpdate} {folder folder' : Folder}
    {serverId id₂ id₃ : Int} {filetypes : List Str}
    (hraw : raw.extensions = exts) (hdata : raw.validate T.lower = some data)
    (hcreate : store₁.createFolder serverId data = .ok (created, folder))
    (hchanges : changes.extensions = some (some exts))
    (hchanged : changes.validate T.lower = some update)
    (hupdate : store₂.updateFolder T.lower id₂ update = .ok (updated, folder'))
    (hset : store₃.setFiletypes T.lower id₃ exts = .ok (replaced, filetypes)) :
    (∃ persisted, created.extensions folder.id = some persisted ∧
        updated.extensions id₂ = some persisted ∧ replaced.extensions id₃ = some persisted ∧
        persisted.Nodup ∧ [] ∉ persisted ∧
        ∀ x ∈ persisted, normalizeExtension T.lower x = x) ↔
      ∀ ext ∈ exts, (bare ext).head? ≠ some dot := by
  have hjoin : update.extensions.join = some (normalizeExtensions T.lower exts) := by
    rw [FolderUpdate.validate_extensions hchanged, hchanges]
    rfl
  rw [Store.extensions_createFolder hcreate, FolderCreate.validate_extensions hdata, hraw,
    Store.extensions_updateFolder hjoin hupdate, Store.extensions_setFiletypes hset]
  constructor
  · rintro ⟨persisted, hcreated, -, -, -, -, hfixed⟩ ext hext hdot
    cases hcreated
    have hne : normalizeExtension T.lower ext ≠ [] := by
      intro hnil
      rw [normalizeExtension_eq, CaseTable.lower_eq_nil] at hnil
      rw [hnil] at hdot
      cases hdot
    -- an entry that bares a dot is persisted with it, and the next pass strips it
    have hmem := mem_normalizeExtensions.mpr ⟨hne, ext, hext, rfl⟩
    exact normalizeExtension_fixed_iff.mp (hfixed _ hmem) hdot
  · intro hbare
    have hnil : [] ∉ normalizeExtensions T.lower exts :=
      fun h => (mem_normalizeExtensions.mp h).1 rfl
    have hnodup := nodup_normalizeExtensions T.lower exts
    have hfixed : ∀ x ∈ normalizeExtensions T.lower exts, normalizeExtension T.lower x = x := by
      intro x hx
      obtain ⟨-, ext, hext, rfl⟩ := mem_normalizeExtensions.mp hx
      exact normalizeExtension_fixed_iff.mpr (hbare ext hext)
    exact ⟨_, rfl, congrArg some (normalizeExtensions_of_fixed hnodup hnil hfixed), rfl, hnodup,
      hnil, hfixed⟩

/-- A new server. -/
def newServer : Store := storeAfter [.serverCreate 0 plexServer]

/-- A server with this folder. -/
def storedFolder (data : FolderCreate) : Store :=
  storeAfter [.serverCreate 0 plexServer, .folderCreate 1 data]

/-- The first folder of a new server. -/
theorem createFolder_newServer {data : FolderCreate} (hdata : data.Storable) :
    ∃ store', newServer.createFolder 1 data = .ok (store', data.row 1 1) := by
  have hserver : (newServer.getServer 1).isSome := by decide +kernel
  obtain ⟨store', folder, h, -⟩ := newServer.exists_createFolder hserver (by decide) hdata
  obtain ⟨rfl, -⟩ := Store.createFolder_eq_ok _ h
  exact ⟨store', h⟩

/-- A server with one folder. -/
def oneFolder : Store := storeAfter [.serverCreate 0 plexServer, .folderCreate 1 tvFolder]

/-- A new folder with these extensions. -/
def rawFolder (exts : List Str) : FolderCreate := { tvFolder with extensions := exts }

/-- A change of the extensions only. -/
def rawChange (exts : List Str) : FolderUpdate := { extensions := some (some exts) }

def mixedExts : List Str := [str " .MKV ", str "mkv", str ".", str "srt"]

/-- A folder with these extensions, one that is given them, and one they are set for. -/
theorem extension_paths_agree_mixed :
    ∃ created updated replaced folder folder' filetypes persisted,
      oneFolder.createFolder 1 (rawFolder [str "mkv", str "srt"]) = .ok (created, folder) ∧
        oneFolder.updateFolder CaseTable.ascii.lower 1 (rawChange [str "mkv", str "srt"]) =
          .ok (updated, folder') ∧
        oneFolder.setFiletypes CaseTable.ascii.lower 1 mixedExts = .ok (replaced, filetypes) ∧
        created.extensions folder.id = some persisted ∧ updated.extensions 1 = some persisted ∧
        replaced.extensions 1 = some persisted := by
  have hserver : (oneFolder.getServer 1).isSome := by decide +kernel
  obtain ⟨folder₀, hget⟩ : ∃ folder₀, oneFolder.getFolder 1 = some folder₀ :=
    Option.isSome_iff_exists.mp (by decide +kernel)
  obtain ⟨created, folder, hcreate, -⟩ :=
    @Store.exists_createFolder oneFolder 1 hserver (by decide)
      (rawFolder [str "mkv", str "srt"]) (by decide +kernel)
  obtain ⟨updated, folder', hupdate⟩ :=
    @Store.exists_updateFolder CaseTable.ascii.lower _ _ _ (rawChange [str "mkv", str "srt"])
      (by decide) hget (by decide +kernel)
  obtain ⟨replaced, filetypes, hset⟩ :=
    @Store.exists_setFiletypes CaseTable.ascii.lower mixedExts _ _ _ (by decide) hget
      (by decide +kernel)
  have hraw : (rawFolder mixedExts).validate CaseTable.ascii.lower =
      some (rawFolder [str "mkv", str "srt"]) := by decide +kernel
  have hchanged : (rawChange mixedExts).validate CaseTable.ascii.lower =
      some (rawChange [str "mkv", str "srt"]) := by rfl
  obtain ⟨persisted, h₁, h₂, h₃, -⟩ :=
    (extension_paths_agree_iff rfl hraw hcreate rfl hchanged hupdate hset).mpr (by decide +kernel)
  exact ⟨_, _, _, _, _, _, persisted, hcreate, hupdate, hset, h₁, h₂, h₃⟩

/-- `. .mkv` bares a dot: `create_folder` stores `.mkv`, `update_folder` stores `mkv`. -/
theorem extension_paths_differ :
    ((oneFolder.createFolder 1 (rawFolder [str ".mkv"])).toOption.bind
        fun (created, folder) => created.extensions folder.id) = some [str ".mkv"] ∧
      (rawFolder [str ". .mkv"]).validate CaseTable.ascii.lower = some (rawFolder [str ".mkv"]) ∧
      ((oneFolder.updateFolder CaseTable.ascii.lower 1 (rawChange [str ".mkv"])).toOption.bind
        fun (updated, _) => updated.extensions 1) = some [str "mkv"] ∧
      (rawChange [str ". .mkv"]).validate CaseTable.ascii.lower =
        some (rawChange [str ".mkv"]) := by
  refine ⟨by decide +kernel, by decide +kernel, by decide +kernel, ?_⟩
  rfl

end MediaScanMonitor
