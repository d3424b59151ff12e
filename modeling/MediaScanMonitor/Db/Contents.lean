import MediaScanMonitor.Db.Validate
import MediaScanMonitor.Library.Shrink

/-!
# Db — what a folder holds

A folder without its id, its extensions as a set.  Two stores have the same folders for a server
if they hold the same contents as often.  A list of rows is written anew, each field as it was or
shorter: what a pass of the normalisers changes it shortens, once extensions are in lower case.

* `keptIff_contents`: contents that are changed field by field get shorter.
* `biUnion_normalizeExtensions`: extensions that come in pieces, as a set.
* `perm_validate_iff`: rows go through `FolderCreate` unchanged, as a whole, exactly if each does.
-/

namespace MediaScanMonitor
open Py Posix Shrink

structure FolderContents where
  path : Str
  libraryId : Option Str
  libraryName : Option Str
  enabled : Bool
  extensions : Finset Str
  deriving DecidableEq

def FolderCreate.contents (data : FolderCreate) : FolderContents where
  path := data.path
  libraryId := data.libraryId
  libraryName := data.libraryName
  enabled := data.enabled
  extensions := data.extensions.toFinset

namespace Store

/-- What the folders of a server hold. -/
def contents (store : Store) (serverId : Int) : List FolderContents :=
  (store.listFolders serverId).map fun folder => folder.data.contents

/-- The same folders, in whatever order. -/
def SameFolders (store store' : Store) (serverId : Int) : Prop :=
  (store'.contents serverId).Perm (store.contents serverId)

instance (store store' : Store) (serverId : Int) : Decidable (SameFolders store store' serverId) :=
  inferInstanceAs (Decidable (List.Perm _ _))

end Store

/-- Whether a folder can be stored depends on what it holds. -/
theorem storable_of_contents {data data' : FolderCreate} (h : data.contents = data'.contents)
    (hdata : data.Storable) : data'.Storable := by
  simp only [FolderCreate.contents, FolderContents.mk.injEq] at h
  obtain ⟨hpath, hid, hname, -, hexts⟩ := h
  have hmem (e : Str) : e ∈ data'.extensions ↔ e ∈ data.extensions := by
    rw [← List.mem_toFinset, ← hexts, List.mem_toFinset]
  refine ⟨?_, ?_⟩
  · rw [Folder.bindError, FolderCreate.row, ← hpath, ← hid, ← hname]
    exact hdata.1
  · refine List.findSome?_eq_none_iff.mpr fun e he => ?_
    exact List.findSome?_eq_none_iff.mp hdata.2 e ((hmem e).mp he)

/-! ### Lengths -/

def optionLength (s : Option Str) : Nat := s.elim 0 fun s => s.length + 1

def FolderContents.length (c : FolderContents) : Nat :=
  c.path.length + optionLength c.libraryId + optionLength c.libraryName +
    ∑ e ∈ c.extensions, e.length

theorem le_of_eq_or_lt {α : Type} {size : α → Nat} {x y : α} (h : x = y ∨ size x < size y) :
    size x ≤ size y := by
  rcases h with rfl | h
  · exact le_rfl
  · exact h.le

/-- What sets of extensions are measured by. -/
def totalLength (exts : Finset Str) : Nat := ∑ e ∈ exts, e.length

/-- **Contents that are changed field by field.** -/
theorem keptIff_contents {c c' : FolderContents} {keepsPath keepsId keepsName keepsExts : Prop}
    (hpath : KeptIff List.length keepsPath c.path c'.path)
    (hid : KeptIff optionLength keepsId c.libraryId c'.libraryId)
    (hname : KeptIff optionLength keepsName c.libraryName c'.libraryName)
    (henabled : c'.enabled = c.enabled)
    (hexts : KeptIff totalLength keepsExts c.extensions c'.extensions) :
    KeptIff FolderContents.length (keepsPath ∧ keepsId ∧ keepsName ∧ keepsExts) c c' := by
  obtain ⟨path, libraryId, libraryName, enabled, extensions⟩ := c
  obtain ⟨path', libraryId', libraryName', enabled', extensions'⟩ := c'
  dsimp only at hpath hid hname henabled hexts
  subst henabled
  refine .intro ?_ ?_
  · rw [FolderContents.mk.injEq, hpath.eq_iff, hid.eq_iff, hname.eq_iff, hexts.eq_iff, eq_self,
      true_and]
  · have hpath_le := le_of_eq_or_lt hpath.eq_or_lt
    have hid_le := le_of_eq_or_lt hid.eq_or_lt
    have hname_le := le_of_eq_or_lt hname.eq_or_lt
    have hexts_le : ∑ e ∈ extensions', e.length ≤ ∑ e ∈ extensions, e.length :=
      le_of_eq_or_lt hexts.eq_or_lt
    simp only [FolderContents.length, FolderContents.mk.injEq, true_and]
    by_contra! hno
    obtain ⟨hne, hsum⟩ := hno
    exact hne (hpath.eq_or_lt.resolve_right (by omega)) (hid.eq_or_lt.resolve_right (by omega))
      (hname.eq_or_lt.resolve_right (by omega))
      (hexts.eq_or_lt.resolve_right (by rw [totalLength, totalLength]; omega))

/-! ### The normalisers -/

section
variable {T : CaseTable} {lower : Str → Str} {p e : Str}

theorem eq_or_length_lt_of_sublist {α : Type} {s t : List α} (h : s.Sublist t) :
    s = t ∨ s.length < t.length := by
  rcases h.length_le.eq_or_lt with heq | hlt
  · exact .inl (h.eq_of_length heq)
  · exact .inr hlt

theorem strip_sublist (s : Str) : (strip s).Sublist s :=
  (rstrip_isPrefix _).sublist.trans (List.dropWhile_suffix _).sublist

theorem bare_sublist (ext : Str) : (bare ext).Sublist ext :=
  (strip_sublist _).trans ((List.dropWhile_suffix _).sublist.trans (strip_sublist _))

/-- **`normalize_path` shortens an absolute path** that it changes. -/
theorem normalizePath_eq_or_length_lt (h : isabs (strip p) = true) :
    normalizePath p = p ∨ (normalizePath p).length < p.length := by
  rw [normalizePath]
  rcases eq_or_length_lt_of_sublist (strip_sublist p) with hstrip | hstrip
  · rw [hstrip] at h ⊢
    exact normpath_eq_or_length_lt h
  · have hle := le_of_eq_or_lt (normpath_eq_or_length_lt h)
    exact .inr (hle.trans_lt hstrip)

theorem normalizeExtension_of_lower (h : T.lower e = e) :
    normalizeExtension T.lower e = bare e := by
  rw [normalizeExtension_eq, lower_bare, h]

/-- So does `normalize_extension` what is in lower case. -/
theorem normalizeExtension_eq_or_length_lt (h : T.lower e = e) :
    normalizeExtension T.lower e = e ∨ (normalizeExtension T.lower e).length < e.length := by
  rw [normalizeExtension_of_lower h]
  exact eq_or_length_lt_of_sublist (bare_sublist e)

/-- Extensions that come in pieces. -/
theorem biUnion_normalizeExtensions (lower : Str → Str) (pieces : Str → List Str)
    (exts : List Str) :
    (normalizeExtensions lower (exts.flatMap pieces)).toFinset =
      exts.toFinset.biUnion fun e => (normalizeExtensions lower (pieces e)).toFinset := by
  ext x
  simp only [List.mem_toFinset, mem_normalizeExtensions, List.mem_flatMap, Finset.mem_biUnion]
  constructor
  · rintro ⟨hne, q, ⟨e, he, hq⟩, rfl⟩
    exact ⟨e, he, hne, q, hq, rfl⟩
  · rintro ⟨e, he, hne, q, hq, rfl⟩
    exact ⟨hne, q, ⟨e, he, hq⟩, rfl⟩

theorem sum_normalizeExtensions_le (lower : Str → Str) (exts : List Str) :
    ∑ e ∈ (normalizeExtensions lower exts).toFinset, e.length ≤
      (exts.flatMap (normalizeExtension lower)).length := by
  induction exts using List.reverseRecOn with
  | nil => exact Nat.zero_le _
  | append_singleton exts ext ih =>
      rw [normalizeExtensions_concat, List.flatMap_append, List.length_append,
        List.flatMap_singleton]
      split
      · rename_i hnew
        rw [List.toFinset_append, Finset.union_comm, List.toFinset_cons, List.toFinset_nil,
          insert_empty_eq, ← Finset.insert_eq,
          Finset.sum_insert fun h => hnew.2 (List.mem_toFinset.mp h)]
        omega
      · exact ih.trans (Nat.le_add_right _ _)

/-- An extension by itself. -/
theorem normalizeExtensions_singleton (lower : Str → Str) (e : Str) :
    normalizeExtensions lower [e] =
      if normalizeExtension lower e = [] then [] else [normalizeExtension lower e] := by
  have h := normalizeExtensions_concat lower [] e
  rw [List.nil_append] at h
  rw [h]
  by_cases hnil : normalizeExtension lower e = []
  · rw [if_pos hnil, if_neg fun hno => hno.1 hnil]
    rfl
  · rw [if_neg hnil, if_pos ⟨hnil, List.not_mem_nil⟩]
    rfl

/-- **An extension by itself** stays if the normaliser leaves it alone. -/
theorem keptIff_singleton (hne : e ≠ []) (h : T.lower e = e) :
    KeptIff totalLength (normalizeExtension T.lower e = e) {e}
      (normalizeExtensions T.lower [e]).toFinset := by
  refine .intro ?_ ?_
  · rw [normalizeExtensions_singleton]
    split
    · rename_i hnil
      rw [hnil]
      exact iff_of_false (Finset.singleton_ne_empty e).symm hne.symm
    · simp
  · rcases normalizeExtension_eq_or_length_lt h with heq | hlt
    · rw [normalizeExtensions_singleton, heq, if_neg hne]
      exact .inl rfl
    · refine .inr ((sum_normalizeExtensions_le T.lower [e]).trans_lt ?_)
      rwa [List.flatMap_singleton, totalLength, Finset.sum_singleton]

end

/-! ### Rows that go through `FolderCreate` -/

/-- The validators leave the row alone. -/
def FolderCreate.Stable (lower : Str → Str) (raw : FolderCreate) : Prop :=
  normalizePath raw.path = raw.path ∧
    ∀ e ∈ raw.extensions, e ≠ [] ∧ normalizeExtension lower e = e

instance (lower : Str → Str) (raw : FolderCreate) : Decidable (raw.Stable lower) :=
  inferInstanceAs (Decidable (_ ∧ _))

section
variable {T : CaseTable} {lower : Str → Str} {raw data : FolderCreate}

theorem contents_validate (h : raw.validate lower = some data) :
    data.contents = { raw.contents with
      path := normalizePath raw.path
      extensions := raw.extensions.toFinset.biUnion fun e =>
        (normalizeExtensions lower [e]).toFinset } := by
  have hpath := (FolderCreate.validate_path h).2
  have hone := biUnion_normalizeExtensions lower (fun e => [e]) raw.extensions
  rw [List.flatMap_singleton'] at hone
  obtain ⟨path, -, rfl⟩ := Option.map_eq_some_iff.mp h
  simp only [FolderCreate.contents, hone] at hpath ⊢
  rw [hpath]

/-- What the validators leave is in lower case. -/
theorem lower_of_validate (h : raw.validate T.lower = some data) :
    ∀ e ∈ data.extensions, e ≠ [] ∧ T.lower e = e := by
  intro e he
  rw [FolderCreate.validate_extensions h] at he
  obtain ⟨hne, ext, -, rfl⟩ := mem_normalizeExtensions.mp he
  exact ⟨hne, CaseTable.lower_lower _⟩

theorem lower_of_stable (h : raw.Stable T.lower) :
    ∀ e ∈ raw.extensions, e ≠ [] ∧ T.lower e = e := by
  intro e he
  obtain ⟨hne, hfixed⟩ := h.2 e he
  refine ⟨hne, ?_⟩
  rw [← hfixed]
  exact CaseTable.lower_lower _

/-- **One row in lower case**: its contents are kept if it is stable, and get shorter if not. -/
theorem keptIff_validate (h : raw.validate T.lower = some data)
    (hexts : ∀ e ∈ raw.extensions, e ≠ [] ∧ T.lower e = e) :
    KeptIff FolderContents.length (raw.Stable T.lower) raw.contents data.contents := by
  have hpath : KeptIff List.length (normalizePath raw.path = raw.path) raw.path
      (normalizePath raw.path) :=
    .intro Iff.rfl (normalizePath_eq_or_length_lt (FolderCreate.validate_path h).1)
  have hset : KeptIff totalLength
      (∀ e ∈ raw.extensions.toFinset, normalizeExtension T.lower e = e) raw.extensions.toFinset
      (raw.extensions.toFinset.biUnion fun e => (normalizeExtensions T.lower [e]).toFinset) := by
    refine keptIff_biUnion fun e he => ?_
    obtain ⟨hne, hlower⟩ := hexts e (List.mem_toFinset.mp he)
    exact keptIff_singleton hne hlower
  rw [contents_validate h]
  have hstable : raw.Stable T.lower ↔ normalizePath raw.path = raw.path ∧ True ∧ True ∧
      ∀ e ∈ raw.extensions.toFinset, normalizeExtension T.lower e = e := by
    rw [FolderCreate.Stable, true_and, true_and]
    refine and_congr_right fun _ => forall_congr' fun e => ?_
    rw [List.mem_toFinset]
    exact forall_congr' fun he => and_iff_right (hexts e he).1
  rw [hstable]
  exact keptIff_contents hpath (.refl _ _) (.refl _ _) rfl hset

theorem eq_map_of_mapM {α : Type} {f : α → Option α} {l ys : List α} (h : l.mapM f = some ys) :
    (∀ x ∈ l, f x = some ((f x).getD x)) ∧ ys = l.map fun x => (f x).getD x := by
  induction l generalizing ys with
  | nil =>
      cases h
      exact ⟨List.forall_mem_nil _, rfl⟩
  | cons x l ih =>
      simp only [List.mapM_cons, Option.bind_eq_bind, Option.bind_eq_some_iff] at h
      obtain ⟨y, hx, zs, hl, hpure⟩ := h
      cases hpure
      obtain ⟨hall, rfl⟩ := ih hl
      rw [List.forall_mem_cons, List.map_cons, hx]
      exact ⟨⟨rfl, hall⟩, rfl⟩

/-- **Rows that go through `FolderCreate`** hold what they held, as a whole, exactly if each is left
alone. -/
theorem perm_validate_iff {rows datas : List FolderCreate}
    (h : rows.mapM (FolderCreate.validate T.lower) = some datas) :
    (datas.map FolderCreate.contents).Perm (rows.map FolderCreate.contents) ↔
      ∀ raw ∈ rows, raw.Stable T.lower := by
  obtain ⟨hvalid, rfl⟩ := eq_map_of_mapM h
  rw [List.map_map]
  constructor
  · intro hperm
    -- as a whole they are in lower case, for that is how they come out
    have hlower : ∀ raw ∈ rows, ∀ e ∈ raw.extensions, e ≠ [] ∧ T.lower e = e := by
      intro raw hraw e he
      obtain ⟨other, hother, heq⟩ :=
        List.mem_map.mp (hperm.mem_iff.mpr (List.mem_map_of_mem hraw))
      refine lower_of_validate (hvalid other hother) e ?_
      have hexts : ((other.validate T.lower).getD other).extensions.toFinset =
        raw.extensions.toFinset := congrArg FolderContents.extensions heq
      rw [← List.mem_toFinset, hexts]
      exact List.mem_toFinset.mpr he
    exact (perm_map_iff_of_kept fun raw hraw =>
      keptIff_validate (hvalid raw hraw) (hlower raw hraw)).mp hperm
  · intro hstable
    exact (perm_map_iff_of_kept fun raw hraw =>
      keptIff_validate (hvalid raw hraw) (lower_of_stable (hstable raw hraw))).mpr hstable

end

end MediaScanMonitor
