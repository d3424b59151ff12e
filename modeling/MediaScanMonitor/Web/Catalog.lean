import MediaScanMonitor.Web.Twins
import Mathlib.Logic.Function.Basic

/-!
# Web — what the repository is for

A *catalogue* has an entry for each server id that is in use: the settings the server was given,
its secret in plain text among them, and its folders with their ids.  Its steps say what each write
is to do, and when it may be done: what cannot be stored may not.

* `Step.wf`: names and folder ids go on telling servers apart.
* `Step.frame`: a step changes the entry of one server only.
-/

namespace MediaScanMonitor
open Py

/-! ### The catalogue -/

structure Entry where
  settings : ServerCreate
  folders : List (Int × FolderCreate)

abbrev Catalog := Int → Option Entry

/-- The settings, with those set that the payload sets. -/
def ServerCreate.updated (settings : ServerCreate) (data : ServerUpdate) : ServerCreate where
  name := data.name.join.getD settings.name
  type := data.type.join.getD settings.type
  baseUrl := data.baseUrl.join.getD settings.baseUrl
  verifyTls := data.verifyTls.join.getD settings.verifyTls
  timeoutSeconds := data.timeoutSeconds.join.getD settings.timeoutSeconds
  secret := data.secret.getD settings.secret
  scanMode := data.scanMode.join.getD settings.scanMode
  debounceMode := data.debounceMode.join.getD settings.debounceMode
  debounceWindowSeconds := data.debounceWindowSeconds.join.getD settings.debounceWindowSeconds
  retryAttempts := data.retryAttempts.join.getD settings.retryAttempts
  enabled := data.enabled.join.getD settings.enabled
  webhookMethod := data.webhookMethod.getD settings.webhookMethod
  webhookHeadersJson := data.webhookHeadersJson.getD settings.webhookHeadersJson
  webhookBodyTemplate := data.webhookBodyTemplate.getD settings.webhookBodyTemplate
  webhookPayloadPreset := data.webhookPayloadPreset.join.getD settings.webhookPayloadPreset
  eventTypes := data.eventTypes.join.getD settings.eventTypes

/-- The folder, with those fields set that the payload sets. -/
def FolderCreate.updated (lower : Str → Str) (folder : FolderCreate) (data : FolderUpdate) :
    FolderCreate where
  path := data.path.join.getD folder.path
  libraryId := data.libraryId.getD folder.libraryId
  libraryName := folder.libraryName
  extensions :=
    match data.extensions.join with
    | some exts => ((exts.map (normalizeExtension lower)).filter (· ≠ [])).eraseDups
    | none => folder.extensions
  enabled := data.enabled.join.getD folder.enabled

/-- Settings a row can hold: texts that encode, integers of 64 bits, and a timeout that is a
number. -/
def ServerCreate.Storable (settings : ServerCreate) : Prop :=
  (Store.empty.newServer settings none).bindError = none ∧ settings.timeoutSeconds ≠ .nan

namespace Catalog
variable (c : Catalog)

def put (i : Int) (e : Entry) : Catalog := Function.update c i (some e)

/-- No server other than `i` has the name. -/
def NameFree (i : Int) (name : Str) : Prop :=
  ∀ j e, c j = some e → j ≠ i → e.settings.name ≠ name

/-- Folder ids that may be given out. -/
def Fresh (ids : List Int) : Prop :=
  ids.Nodup ∧ ∀ i e, c i = some e → ∀ id ∈ ids, id ∉ e.folders.map Prod.fst

/-- What a write is to do, and when. -/
inductive Step (lower : Str → Str) (c : Catalog) : Write → Catalog → Prop where
  | serverCreate {nonce : Nat} {i : Int} {data : ServerCreate} (hi : c i = none)
      (hdata : data.Storable) (hname : c.NameFree i data.name) :
      Step lower c (.serverCreate nonce data) (c.put i ⟨data, []⟩)
  | serverCreateWithFolders {nonce : Nat} {i : Int} {data : ServerCreate}
      {folders : List FolderCreate} {rows : List (Int × FolderCreate)} (hi : c i = none)
      (hdata : data.Storable) (hfolders : ∀ folder ∈ folders, folder.Storable)
      (hname : c.NameFree i data.name) (hrows : rows.map Prod.snd = folders)
      (hids : c.Fresh (rows.map Prod.fst)) :
      Step lower c (.serverCreateWithFolders nonce data folders) (c.put i ⟨data, rows⟩)
  | serverUpdate {nonce : Nat} {i : Int} {data : ServerUpdate} {e : Entry} (hi : c i = some e)
      (hbits : intError i = none) (hdata : (e.settings.updated data).Storable)
      (hnull : data.NoNull) (hname : c.NameFree i (e.settings.updated data).name) :
      Step lower c (.serverUpdate nonce i data) (c.put i ⟨e.settings.updated data, e.folders⟩)
  | serverUpdateWithFolders {nonce : Nat} {i : Int} {data : ServerUpdate}
      {folders : List FolderCreate} {e : Entry} {rows : List (Int × FolderCreate)}
      (hi : c i = some e) (hbits : intError i = none)
      (hdata : (e.settings.updated data).Storable)
      (hfolders : ∀ folder ∈ folders, folder.Storable) (hnull : data.NoNull)
      (hname : c.NameFree i (e.settings.updated data).name) (hrows : rows.map Prod.snd = folders)
      (hids : c.Fresh (rows.map Prod.fst)) :
      Step lower c (.serverUpdateWithFolders nonce i data folders)
        (c.put i ⟨e.settings.updated data, rows⟩)
  | serverDelete {i : Int} (hbits : intError i = none) :
      Step lower c (.serverDelete i) (Function.update c i none)
  | folderCreate {i id : Int} {data : FolderCreate} {e : Entry} (hi : c i = some e)
      (hbits : intError i = none) (hdata : data.Storable) (hid : c.Fresh [id]) :
      Step lower c (.folderCreate i data) (c.put i ⟨e.settings, e.folders ++ [(id, data)]⟩)
  | folderUpdate {i id : Int} {data : FolderUpdate} {e : Entry} {folder : FolderCreate}
      (hi : c i = some e) (hid : (id, folder) ∈ e.folders) (hbits : intError id = none)
      (hdata : data.Storable lower) :
      Step lower c (.folderUpdate id data) (c.put i ⟨e.settings, e.folders.map fun (j, f) =>
        (j, if j = id then f.updated lower data else f)⟩)
  | folderDelete {id : Int} (hbits : intError id = none) :
      Step lower c (.folderDelete id) fun i => (c i).map fun e =>
        ⟨e.settings, e.folders.filter (·.1 ≠ id)⟩

/-- Names and folder ids tell servers apart. -/
structure Wf : Prop where
  names : ∀ i e, c i = some e → c.NameFree i e.settings.name
  folderIds : ∀ i j e e' id, c i = some e → c j = some e' → id ∈ e.folders.map Prod.fst →
    id ∈ e'.folders.map Prod.fst → i = j

variable {c} {c' : Catalog} {lower : Str → Str} {w : Write} {i j : Int} {e : Entry}

/-- An entry is written. -/
theorem Wf.put (h : c.Wf) (hname : c.NameFree i e.settings.name)
    (hids : ∀ id ∈ e.folders.map Prod.fst, ∀ j e', c j = some e' → j ≠ i →
      id ∉ e'.folders.map Prod.fst) : (c.put i e).Wf where
  names j e' he' k e'' he'' hk := by
    rw [Catalog.put] at he' he''
    by_cases hj : j = i
    · subst hj
      rw [Function.update_self, Option.some_inj] at he'
      rw [Function.update_of_ne hk] at he''
      exact he' ▸ hname k e'' he'' hk
    · rw [Function.update_of_ne hj] at he'
      by_cases hki : k = i
      · subst hki
        rw [Function.update_self, Option.some_inj] at he''
        rw [← he'']
        exact (hname j e' he' hj).symm
      · rw [Function.update_of_ne hki] at he''
        exact h.names j e' he' k e'' he'' hk
  folderIds j k e' e'' id he' he'' hid hid' := by
    rw [Catalog.put] at he' he''
    by_cases hj : j = i
    · by_cases hk : k = i
      · rw [hj, hk]
      · rw [hj, Function.update_self, Option.some_inj] at he'
        rw [Function.update_of_ne hk] at he''
        exact absurd hid' (hids id (he' ▸ hid) k e'' he'' hk)
    · rw [Function.update_of_ne hj] at he'
      by_cases hk : k = i
      · rw [hk, Function.update_self, Option.some_inj] at he''
        exact absurd hid (hids id (he'' ▸ hid') j e' he' hj)
      · rw [Function.update_of_ne hk] at he''
        exact h.folderIds j k e' e'' id he' he'' hid hid'

theorem Fresh.not_mem {ids : List Int} (h : c.Fresh ids) :
    ∀ id ∈ ids, ∀ j e, c j = some e → j ≠ i → id ∉ e.folders.map Prod.fst :=
  fun id hid j e he _ => h.2 j e he id hid

/-- The folders of an entry are of no other. -/
theorem Wf.not_mem (h : c.Wf) (hi : c i = some e) {ids : List Int}
    (hids : ids ⊆ e.folders.map Prod.fst) :
    ∀ id ∈ ids, ∀ j e', c j = some e' → j ≠ i → id ∉ e'.folders.map Prod.fst :=
  fun id hid _ _ he' hj hid' => hj (h.folderIds _ _ _ _ id hi he' (hids hid) hid').symm

/-- Entries that are dropped, or lose folders. -/
theorem Wf.mono (h : c.Wf) (hsub : ∀ i e', c' i = some e' → ∃ e, c i = some e ∧
    e'.settings = e.settings ∧ e'.folders ⊆ e.folders) : c'.Wf where
  names i e' he' j e'' he'' hj := by
    obtain ⟨e, he, hsettings, -⟩ := hsub i e' he'
    obtain ⟨f, hf, hsettings', -⟩ := hsub j e'' he''
    rw [hsettings, hsettings']
    exact h.names i e he j f hf hj
  folderIds i j e' e'' id he' he'' hid hid' := by
    obtain ⟨e, he, -, hfolders⟩ := hsub i e' he'
    obtain ⟨f, hf, -, hfolders'⟩ := hsub j e'' he''
    exact h.folderIds i j e f id he hf (List.map_subset _ hfolders hid)
      (List.map_subset _ hfolders' hid')

theorem Step.wf (h : c.Step lower w c') (hwf : c.Wf) : c'.Wf := by
  cases h with
  | serverCreate hi hdata hname => exact hwf.put hname (by simp)
  | serverCreateWithFolders hi hdata hfolders hname hrows hids =>
      exact hwf.put hname hids.not_mem
  | serverUpdate hi hbits hdata hnull hname =>
      exact hwf.put hname (hwf.not_mem hi (List.Subset.refl _))
  | serverUpdateWithFolders hi hbits hdata hfolders hnull hname hrows hids =>
      exact hwf.put hname hids.not_mem
  | @serverDelete i =>
      refine hwf.mono fun j e' he' => ?_
      by_cases hj : j = i
      · rw [hj, Function.update_self] at he'
        cases he'
      · rw [Function.update_of_ne hj] at he'
        exact ⟨e', he', rfl, List.Subset.refl _⟩
  | @folderCreate i id data e hi hbits hdata hid =>
      have hname : c.NameFree i e.settings.name := hwf.names _ _ hi
      refine hwf.put hname ?_
      rw [List.map_append, List.map_singleton]
      intro id hmem j e' he' hj
      rcases List.mem_append.mp hmem with hold | hnew
      · exact hwf.not_mem hi (List.Subset.refl _) id hold j e' he' hj
      · exact hid.not_mem id hnew j e' he' hj
  | @folderUpdate i id data e folder hi =>
      have hname : c.NameFree i e.settings.name := hwf.names _ _ hi
      refine hwf.put hname (hwf.not_mem hi ?_)
      rw [List.map_map]
      exact List.Subset.refl _
  | folderDelete =>
      refine hwf.mono fun i e' he' => ?_
      obtain ⟨e, he, rfl⟩ := Option.map_eq_some_iff.mp he'
      exact ⟨e, he, rfl, List.filter_subset_self _⟩

/-- **A step leaves all entries alone but one.** -/
theorem Step.frame (h : c.Step lower w c') (hwf : c.Wf) : ∃ i, ∀ j, j ≠ i → c' j = c j := by
  cases h with
  | @serverCreate _ i | @serverCreateWithFolders _ i | @serverUpdate _ i
  | @serverUpdateWithFolders _ i | @serverDelete i | @folderCreate i | @folderUpdate i =>
      exact ⟨i, fun j hj => Function.update_of_ne hj _ _⟩
  | @folderDelete id =>
      have hsame (j : Int) (hno : ∀ e, c j = some e → id ∉ e.folders.map Prod.fst) :
          ((c j).map fun e => ⟨e.settings, e.folders.filter (·.1 ≠ id)⟩) = c j := by
        cases hc : c j with
        | none => rfl
        | some e =>
            rw [Option.map_some, List.filter_eq_self.mpr]
            intro row hrow
            exact decide_eq_true fun heq => hno e hc (heq ▸ List.mem_map_of_mem hrow)
      by_cases hsome : ∃ i e, c i = some e ∧ id ∈ e.folders.map Prod.fst
      · obtain ⟨i, e, he, hid⟩ := hsome
        exact ⟨i, fun j hj => hsame j fun e' he' hid' =>
          hj (hwf.folderIds _ _ _ _ id he' he hid' hid)⟩
      · exact ⟨0, fun j _ => hsame j fun e' he' hid' => hsome ⟨j, e', he', hid'⟩⟩

end Catalog

end MediaScanMonitor
