import MediaScanMonitor.Db.Stored
import MediaScanMonitor.Library.Fields
import MediaScanMonitor.Web.Twins
import Mathlib.Data.List.Sort
import Mathlib.Data.List.Lex

/-!
# Web — the folder editor of the detail form

`_folder_editor.html` writes the folders of a server into the fields of a form, and
`_parse_folder_rows` reads them back: strings without the white space around them, extensions split
on commas and white space, and then through the validators of `FolderCreate`.

* `parse_folderEditor`: the rows come back one by one, each as `resubmitted`.
* `contents_resubmitted`: when a row comes back as it was, and that it is shorter if not.
* `unedited_save_iff`: when a save without an edit leaves the folders alone.
-/

namespace MediaScanMonitor
open Py Posix Shrink

/-! ### The form -/

structure FolderRead where
  id : Int
  serverId : Int
  path : Str
  libraryId : Option Str
  libraryName : Option Str
  enabled : Bool
  extensions : List Str

/-- `FolderRead.from_model`. -/
def FolderRead.fromModel (folder : Folder) : FolderRead where
  id := folder.id
  serverId := folder.serverId
  path := folder.path
  libraryId := folder.libraryId
  libraryName := folder.libraryName
  enabled := folder.enabled
  extensions := folder.filetypes.insertionSort (· ≤ ·)

/-- A submitted form. -/
abbrev FormData := List (Str × Str)

/-- `form.get(key)`: of several fields with one name the last. -/
def FormData.get (form : FormData) (key : Str) : Option Str :=
  (form.reverse.find? fun field => field.1 = key).map Prod.snd

/-- `key in form`. -/
def FormData.contains (form : FormData) (key : Str) : Bool := form.any fun field => field.1 = key

inductive FolderColumn where
  | path | libraryId | libraryName | extensions | enabled
  deriving DecidableEq

def FolderColumn.name : FolderColumn → Str
  | .path => str "path"
  | .libraryId => str "library_id"
  | .libraryName => str "library_name"
  | .extensions => str "extensions"
  | .enabled => str "enabled"

/-- `folder-<i>-<column>`. -/
def fieldName (i : Nat) (column : FolderColumn) : Str :=
  str "folder-" ++ (formatNat i ++ (str "-" ++ column.name))

/-- The fields of a row of the editor, `loop.index0` being `i`.  A box that is not checked is not
submitted. -/
def folderRow (i : Nat) (f : FolderRead) : FormData :=
  [(fieldName i .path, f.path), (fieldName i .libraryId, f.libraryId.getD []),
    (fieldName i .libraryName, f.libraryName.getD []),
    (fieldName i .extensions, (str ", ").intercalate f.extensions)] ++
    if f.enabled then [(fieldName i .enabled, str "on")] else []

/-- The row the editor starts with. -/
def starterRow : FormData :=
  [(fieldName 0 .path, []), (fieldName 0 .libraryId, []), (fieldName 0 .libraryName, []),
    (fieldName 0 .extensions, []), (fieldName 0 .enabled, str "on")]

/-- The fields of `_folder_editor.html`. -/
def folderEditor (folders : List FolderRead) : FormData :=
  if folders = [] then starterRow else folders.zipIdx.flatMap fun (f, i) => folderRow i f

/-! ### Reading it -/

/-- `[,\s]`. -/
def separates (c : CodePoint) : Bool := c = comma || isspace c

/-- `_split_extensions`. -/
def splitExtensions (raw : Str) : List Str := fields separates (strip raw)

/-- `s or None`. -/
def orNone (s : Str) : Option Str := if s = [] then none else some s

/-- One turn of the loop of `_parse_folder_rows`: `none` where a validator raises, `some none` where
the row is skipped. -/
def parseFolderRow (lower : Str → Str) (form : FormData) (i : Nat) : Option (Option FolderCreate) :=
  let path := strip ((form.get (fieldName i .path)).getD [])
  if path = [] then some none
  else
    let libraryId := strip ((form.get (fieldName i .libraryId)).getD [])
    let data : FolderCreate := {
      path
      libraryId := orNone libraryId
      libraryName := orNone (strip ((form.get (fieldName i .libraryName)).getD []))
      extensions := splitExtensions ((form.get (fieldName i .extensions)).getD [])
      enabled := form.contains (fieldName i .enabled) }
    (data.validate lower).map some

/-- `re.fullmatch(r"folder-(\d+)-path", key)`, as the number in it. -/
def rowIndex (D : DigitTable) (key : Str) : Option Nat :=
  (between (str "folder-") (str "-path") key).bind D.int

/-- The numbers of the rows, sorted. -/
def rowIndices (D : DigitTable) (form : FormData) : List Nat :=
  (form.filterMap fun field => rowIndex D field.1).dedup.insertionSort (· ≤ ·)

/-- `_parse_folder_rows`. -/
def parseFolderRows (D : DigitTable) (lower : Str → Str) (form : FormData) :
    Option (List FolderCreate) :=
  ((rowIndices D form).mapM (parseFolderRow lower form)).map List.reduceOption

/-! ### The names of the fields -/

section
variable {D : DigitTable} {lower : Str → Str} {i j : Nat} {a b column : FolderColumn}
  {form : FormData} {key v : Str} {f : FolderRead} {folders : List FolderRead}

theorem takeWhile_formatNat (i : Nat) (s : Str) :
    (formatNat i ++ (str "-" ++ s)).takeWhile (fun c => 48 ≤ c.val ∧ c.val ≤ 57) = formatNat i := by
  have hdigits : ∀ c ∈ formatNat i, 48 ≤ c.val ∧ c.val ≤ 57 := by
    intro c hc
    rw [formatNat_eq] at hc
    obtain ⟨d, hd, rfl⟩ := List.mem_map.mp hc
    obtain ⟨hval, hrange⟩ :=
      val_ofChar_of_isDigit (Nat.isDigit_of_mem_toDigits (by decide) (by decide) hd)
    rwa [hval]
  rw [List.takeWhile_append_of_pos fun c hc => decide_eq_true (hdigits c hc)]
  have hstop : (str "-" ++ s).takeWhile (fun c => 48 ≤ c.val ∧ c.val ≤ 57) = [] := by
    rw [show str "-" = [CodePoint.ofChar '-'] from rfl, List.singleton_append,
      List.takeWhile_cons_of_neg (by decide)]
  rw [hstop, List.append_nil]

/-- A name tells the row and the column. -/
theorem fieldName_inj : fieldName i a = fieldName j b ↔ i = j ∧ a = b := by
  constructor
  · intro h
    have hrest := List.append_cancel_left h
    have hformat := congrArg (List.takeWhile fun c : CodePoint => 48 ≤ c.val ∧ c.val ≤ 57) hrest
    rw [takeWhile_formatNat, takeWhile_formatNat] at hformat
    rw [hformat] at hrest
    have hname : a.name = b.name := List.append_cancel_left (List.append_cancel_left hrest)
    refine ⟨formatNat_injective hformat, ?_⟩
    revert hname
    cases a <;> cases b <;> decide
  · rintro ⟨rfl, rfl⟩
    rfl

/-- The pattern of `_parse_folder_rows` finds the paths. -/
theorem rowIndex_fieldName (D : DigitTable) (i : Nat) (column : FolderColumn) :
    rowIndex D (fieldName i column) = if column = .path then some i else none := by
  have hother : ∀ s : Str, (str "-path").length ≤ s.length → ¬ str "-path" <:+ s →
      rowIndex D (str "folder-" ++ (formatNat i ++ s)) = none := by
    intro s hlen hs
    rw [rowIndex, between_eq_none hlen hs]
    rfl
  cases column with
  | path =>
      have hname : fieldName i .path = str "folder-" ++ (formatNat i ++ str "-path") := rfl
      rw [hname, rowIndex, between_append]
      exact int_formatNat D i
  | libraryId | libraryName | extensions | enabled =>
      exact hother _ (by decide) (by decide)

theorem rowIndex_folderRow (D : DigitTable) (i : Nat) (f : FolderRead) :
    (folderRow i f).filterMap (fun field => rowIndex D field.1) = [i] := by
  rw [folderRow]
  split <;> simp [rowIndex_fieldName]

/-! ### Looking a field up -/

/-- What a row of the editor has in a column. -/
def FolderRead.value (f : FolderRead) : FolderColumn → Option Str
  | .path => some f.path
  | .libraryId => some (f.libraryId.getD [])
  | .libraryName => some (f.libraryName.getD [])
  | .extensions => some ((str ", ").intercalate f.extensions)
  | .enabled => if f.enabled then some (str "on") else none

theorem get_eq_some (h : (key, v) ∈ form) (hone : ∀ w, (key, w) ∈ form → w = v) :
    form.get key = some v := by
  rw [FormData.get]
  cases hfind : form.reverse.find? fun field => field.1 = key with
  | none =>
      have hno := List.find?_eq_none.mp hfind (key, v) (List.mem_reverse.mpr h)
      simp at hno
  | some field =>
      obtain ⟨name, w⟩ := field
      have hname : name = key := by simpa using List.find?_some hfind
      have hmem : (name, w) ∈ form := List.mem_reverse.mp (List.mem_of_find?_eq_some hfind)
      rw [Option.map_some, hone w (hname ▸ hmem)]

theorem contains_iff : form.contains key = true ↔ ∃ v, (key, v) ∈ form := by
  simp [FormData.contains]

theorem exists_column_of_mem (h : (key, v) ∈ folderRow i f) :
    ∃ column, key = fieldName i column := by
  rw [folderRow, List.mem_append] at h
  rcases h with h | h
  · simp only [List.mem_cons, List.not_mem_nil, or_false, Prod.mk.injEq] at h
    rcases h with ⟨rfl, -⟩ | ⟨rfl, -⟩ | ⟨rfl, -⟩ | ⟨rfl, -⟩ <;> exact ⟨_, rfl⟩
  · split at h
    · simp only [List.mem_singleton, Prod.mk.injEq] at h
      exact ⟨_, h.1⟩
    · cases h

theorem mem_folderRow_iff :
    (fieldName i column, v) ∈ folderRow i f ↔ f.value column = some v := by
  cases henabled : f.enabled <;> cases column <;>
    simp [folderRow, fieldName_inj, FolderRead.value, henabled, eq_comm]

/-- The fields of one row are those of its folder. -/
theorem mem_folderEditor_iff (hi : folders[i]? = some f) :
    (fieldName i column, v) ∈ folderEditor folders ↔ f.value column = some v := by
  have hne : folders ≠ [] := by
    rintro rfl
    cases hi
  rw [folderEditor, if_neg hne, List.mem_flatMap, ← @mem_folderRow_iff i column v f]
  constructor
  · rintro ⟨⟨g, j⟩, hg, hmem⟩
    obtain ⟨other, hname⟩ := exists_column_of_mem hmem
    obtain ⟨rfl, -⟩ := fieldName_inj.mp hname
    have hgi := List.mk_mem_zipIdx_iff_getElem?.mp hg
    cases hi.symm.trans hgi
    exact hmem
  · intro hmem
    exact ⟨(f, i), List.mk_mem_zipIdx_iff_getElem?.mpr hi, hmem⟩

theorem get_folderEditor (hi : folders[i]? = some f) (hv : f.value column = some v) :
    (folderEditor folders).get (fieldName i column) = some v := by
  refine get_eq_some ((mem_folderEditor_iff hi).mpr hv) fun w hw => ?_
  exact Option.some_inj.mp (((mem_folderEditor_iff hi).mp hw).symm.trans hv)

theorem contains_folderEditor (hi : folders[i]? = some f) :
    (folderEditor folders).contains (fieldName i column) = (f.value column).isSome := by
  rw [Bool.eq_iff_iff, contains_iff, Option.isSome_iff_exists]
  exact exists_congr fun v => mem_folderEditor_iff hi

end

/-! ### The rows that come back -/

/-- A row of the editor as it comes back. -/
def FolderRead.resubmitted (lower : Str → Str) (f : FolderRead) : FolderCreate where
  path := normalizePath f.path
  libraryId := orNone (strip (f.libraryId.getD []))
  libraryName := orNone (strip (f.libraryName.getD []))
  extensions := normalizeExtensions lower (splitExtensions ((str ", ").intercalate f.extensions))
  enabled := f.enabled

section
variable {D : DigitTable} {lower : Str → Str} {i : Nat} {p : Str} {f : FolderRead}
  {folders : List FolderRead}

theorem isabs_strip (h : isabs p = true) : isabs (strip p) = true ∧ strip p ≠ [] := by
  obtain ⟨s, rfl⟩ := startswith_iff.mp h
  rw [List.singleton_append, strip_of_head s isspace_slash, rstrip_cons s isspace_slash]
  exact ⟨rfl, List.cons_ne_nil _ _⟩

theorem parseFolderRow_folderEditor (lower : Str → Str) (hi : folders[i]? = some f)
    (hpath : isabs f.path = true) :
    parseFolderRow lower (folderEditor folders) i = some (some (f.resubmitted lower)) := by
  obtain ⟨habs, hne⟩ := isabs_strip hpath
  rw [parseFolderRow, get_folderEditor hi rfl, get_folderEditor hi rfl, get_folderEditor hi rfl,
    get_folderEditor hi rfl, contains_folderEditor hi]
  have hvalid : normalizeAndRequireAbsolute (strip f.path) = some (normalizePath f.path) := by
    refine normalizeAndRequireAbsolute_eq_some_iff.mpr ⟨?_, ?_⟩
    · rwa [strip_strip]
    · rw [normalizePath, normalizePath, strip_strip]
  have henabled : (f.value .enabled).isSome = f.enabled := by
    rw [FolderRead.value]
    cases f.enabled <;> rfl
  simp only [Option.getD_some, if_neg hne, FolderCreate.validate, hvalid, henabled]
  rfl

theorem mapM_eq_some {α β : Type} {g : α → Option β} {k : α → β} {l : List α}
    (h : ∀ x ∈ l, g x = some (k x)) : l.mapM g = some (l.map k) := by
  induction l with
  | nil => rfl
  | cons x l ih =>
      rw [List.forall_mem_cons] at h
      rw [List.mapM_cons, h.1, ih h.2]
      rfl

theorem rowIndices_folderEditor (D : DigitTable) (hne : folders ≠ []) :
    rowIndices D (folderEditor folders) = folders.zipIdx.map Prod.snd := by
  have hrows : (folderEditor folders).filterMap (fun field => rowIndex D field.1) =
      folders.zipIdx.map Prod.snd := by
    rw [folderEditor, if_neg hne, List.filterMap_flatMap]
    simp only [rowIndex_folderRow]
    exact List.map_eq_flatMap.symm
  rw [rowIndices, hrows, List.zipIdx_map_snd, ← List.range_eq_range',
    List.nodup_range.dedup]
  exact List.Pairwise.insertionSort_eq List.pairwise_le_range

/-- **The folders come back row by row.** -/
theorem parse_folderEditor (D : DigitTable) (lower : Str → Str)
    (hpath : ∀ f ∈ folders, isabs f.path = true) :
    parseFolderRows D lower (folderEditor folders) =
      some (folders.map (FolderRead.resubmitted lower)) := by
  by_cases hne : folders = []
  · -- the starter row has no path, and is skipped
    have hindices : rowIndices D starterRow = [0] := by
      rw [rowIndices, starterRow]
      simp [rowIndex_fieldName]
    have hskip : parseFolderRow lower starterRow 0 = some none := rfl
    subst hne
    rw [parseFolderRows, folderEditor, if_pos rfl, hindices, List.mapM_cons, hskip]
    rfl
  · have hrows : (folders.zipIdx.map Prod.snd).mapM (parseFolderRow lower (folderEditor folders)) =
        some (folders.zipIdx.map fun x => some (x.1.resubmitted lower)) := by
      rw [List.mapM_map]
      refine mapM_eq_some fun ⟨f, i⟩ h => ?_
      have hi := List.mk_mem_zipIdx_iff_getElem?.mp h
      exact parseFolderRow_folderEditor lower hi (hpath f (List.mem_of_getElem? hi))
    have hkept : (folders.zipIdx.map fun x => some (x.1.resubmitted lower)).reduceOption =
        folders.zipIdx.map (FolderRead.resubmitted lower ∘ Prod.fst) :=
      List.filterMap_map.trans (congrFun List.filterMap_eq_map folders.zipIdx)
    rw [parseFolderRows, rowIndices_folderEditor D hne, hrows, Option.map_some, hkept,
      ← List.map_map, List.zipIdx_map_fst]

end

/-! ### When a folder survives -/

/-- A string the form leaves alone: not blank, with no white space around it. -/
def Typed (s : Str) : Prop := s ≠ [] ∧ strip s = s

instance (s : Str) : Decidable (Typed s) := inferInstanceAs (Decidable (_ ∧ _))

/-- An extension the form leaves alone: one part, with no dot in front. -/
def Plain (e : Str) : Prop := (∀ c ∈ e, separates c = false) ∧ e.head? ≠ some dot

instance (e : Str) : Decidable (Plain e) :=
  have : Decidable (∀ c ∈ e, separates c = false) := List.decidableBAll _ _
  inferInstanceAs (Decidable (_ ∧ _))

structure Folder.Survives (folder : Folder) : Prop where
  path : strip folder.path = folder.path
  libraryId : ∀ s ∈ folder.libraryId, Typed s
  libraryName : ∀ s ∈ folder.libraryName, Typed s
  extensions : ∀ e ∈ folder.filetypes, Plain e

theorem Folder.survives_iff {folder : Folder} : folder.Survives ↔
    strip folder.path = folder.path ∧ (∀ s ∈ folder.libraryId, Typed s) ∧
      (∀ s ∈ folder.libraryName, Typed s) ∧ ∀ e ∈ folder.filetypes, Plain e := by
  constructor
  · intro h
    exact ⟨h.path, h.libraryId, h.libraryName, h.extensions⟩
  · rintro ⟨hpath, hid, hname, hexts⟩
    exact ⟨hpath, hid, hname, hexts⟩

instance (folder : Folder) : Decidable folder.Survives :=
  have : Decidable (∀ e ∈ folder.filetypes, Plain e) := List.decidableBAll _ _
  decidable_of_iff' _ Folder.survives_iff

section
variable {T : CaseTable} {a : AbsPath} {e : Str} {field : Option Str}

theorem keptIff_path (a : AbsPath) :
    KeptIff List.length (strip a.toStr = a.toStr) a.toStr (normalizePath a.toStr) := by
  rw [normalizePath]
  rcases eq_or_length_lt_of_sublist (strip_sublist a.toStr) with hstrip | hstrip
  · refine .kept hstrip ?_
    rw [hstrip, AbsPath.normpath_toStr]
  · have habs := (isabs_strip (AbsPath.isabs_toStr a)).1
    have hle := le_of_eq_or_lt (normpath_eq_or_length_lt habs)
    refine .shrunk (fun heq => ?_) (hle.trans_lt hstrip)
    rw [heq] at hstrip
    exact lt_irrefl _ hstrip

theorem keptIff_orNone (field : Option Str) :
    KeptIff optionLength (∀ s ∈ field, Typed s) field (orNone (strip (field.getD []))) := by
  cases field with
  | none => exact .kept (fun s hs => by cases hs) rfl
  | some s =>
      have hone : (∀ t ∈ some s, Typed t) ↔ Typed s := by simp
      rw [hone, Option.getD_some, orNone]
      by_cases hnil : strip s = []
      · rw [if_pos hnil]
        refine .shrunk (fun h => h.1 ?_) (Nat.succ_pos _)
        rw [← h.2, hnil]
      · rw [if_neg hnil]
        rcases eq_or_length_lt_of_sublist (strip_sublist s) with hstrip | hstrip
        · refine .kept ⟨?_, hstrip⟩ (congrArg some hstrip)
          rwa [hstrip] at hnil
        · refine .shrunk (fun h => ?_) (Nat.succ_lt_succ hstrip)
          rw [h.2] at hstrip
          exact lt_irrefl _ hstrip

theorem flatMap_bare_sublist (pieces : List Str) :
    (pieces.flatMap bare).Sublist pieces.flatten := by
  induction pieces with
  | nil => exact .slnil
  | cons q pieces ih => exact (bare_sublist q).append ih

/-- **What becomes of one extension.** -/
theorem keptIff_extension (h : NormalExtension T e) :
    KeptIff totalLength (Plain e) {e}
      (normalizeExtensions T.lower (fields separates e)).toFinset := by
  by_cases hsep : ∀ c ∈ e, separates c = false
  · rw [fields_of_not h.ne hsep]
    have hfixed : normalizeExtension T.lower e = e ↔ e.head? ≠ some dot := by
      rw [normalizeExtension_of_lower h.lower]
      constructor
      · intro heq hdot
        have hlt := length_bare_lt h.strip hdot
        rw [heq] at hlt
        exact lt_irrefl _ hlt
      · exact bare_of_head h.strip
    have hplain : Plain e ↔ normalizeExtension T.lower e = e := by
      rw [hfixed, Plain, and_iff_right hsep]
    rw [hplain]
    exact keptIff_singleton h.ne h.lower
  · refine .shrunk (fun hplain => hsep hplain.1) ?_
    have hpieces : ∀ q ∈ fields separates e, normalizeExtension T.lower q = bare q := by
      intro q hq
      refine normalizeExtension_of_lower (CaseTable.lower_eq_self_iff.mpr fun c hc => ?_)
      exact CaseTable.lower_eq_self_iff.mp h.lower c (mem_of_mem_fields hq hc).1
    rw [totalLength, totalLength, Finset.sum_singleton]
    calc ∑ x ∈ (normalizeExtensions T.lower (fields separates e)).toFinset, x.length
        ≤ ((fields separates e).flatMap (normalizeExtension T.lower)).length :=
          sum_normalizeExtensions_le T.lower _
      _ = ((fields separates e).flatMap bare).length := by rw [List.flatMap_congr hpieces]
      _ ≤ (fields separates e).flatten.length := (flatMap_bare_sublist _).length_le
      _ = (e.filter fun c => !separates c).length := by rw [flatten_fields]
      _ < e.length := by
          rw [List.length_filter_lt_length_iff_exists]
          simpa using hsep

theorem separates_of_space {c : CodePoint} (h : isspace c = true) : separates c = true := by
  simp [separates, h]

/-- The extensions come back as their parts. -/
theorem fields_extensions (exts : List Str) :
    splitExtensions ((str ", ").intercalate exts) = exts.flatMap (fields separates) := by
  have hglue : str ", " = [comma, CodePoint.ofChar ' '] := rfl
  have hspace : isspace (CodePoint.ofChar ' ') = true := by decide +kernel
  rw [splitExtensions, fields_strip fun c => separates_of_space, hglue]
  refine fields_intercalate (List.cons_ne_nil _ _) (fun c hc => ?_) exts
  rcases List.mem_pair.mp hc with rfl | rfl
  · rfl
  · exact separates_of_space hspace

/-- **A folder comes back as it was** exactly if it survives, and else shorter. -/
theorem contents_resubmitted {folder : Folder} (h : folder.Normal T) :
    KeptIff FolderContents.length folder.Survives folder.data.contents
      ((FolderRead.fromModel folder).resubmitted T.lower).contents := by
  obtain ⟨a, ha⟩ := h.path
  have hpath : KeptIff List.length (strip folder.path = folder.path) folder.path
      (normalizePath folder.path) := by
    rw [ha]
    exact keptIff_path a
  have hid := keptIff_orNone folder.libraryId
  have hname := keptIff_orNone folder.libraryName
  have hback : ((FolderRead.fromModel folder).resubmitted T.lower).extensions.toFinset =
      folder.filetypes.toFinset.biUnion fun e =>
        (normalizeExtensions T.lower (fields separates e)).toFinset := by
    have hsorted : (FolderRead.fromModel folder).extensions.toFinset = folder.filetypes.toFinset :=
      List.toFinset_eq_of_perm _ _ (List.perm_insertionSort _ _)
    simp only [FolderRead.resubmitted, fields_extensions, biUnion_normalizeExtensions, hsorted]
  have hexts : KeptIff totalLength
      (∀ e ∈ folder.filetypes.toFinset, Plain e) folder.filetypes.toFinset
      ((FolderRead.fromModel folder).resubmitted T.lower).extensions.toFinset := by
    rw [hback]
    exact keptIff_biUnion fun e he => keptIff_extension (h.extensions e (List.mem_toFinset.mp he))
  rw [Folder.survives_iff]
  simp only [← List.mem_toFinset]
  exact keptIff_contents hpath hid hname rfl hexts

end

/-! ### A save without an edit -/

section
variable {T : CaseTable} {box : SecretBox} {nonce : Nat} {store : Store} {serverId : Int}
  {server : Server} {data : ServerUpdate} {token : Option Str}

/-- **A save without an edit** leaves the folders alone exactly if every one of them survives: its
path does not end in white space, its library id and name are not blank and have no white space
around them, and its extensions have no comma and no white space in them and no dot in front. -/
theorem unedited_save_iff (D : DigitTable)
    (hstored : ∀ folder ∈ store.listFolders serverId, folder.Stored T.lower)
    (hget : store.requireServer serverId = .ok server)
    (htoken : server.newToken box nonce data = .ok token) (hbind : data.bindError = none)
    (hnull : data.NoNull) (htimeout : data.timeoutSeconds ≠ some (some .nan))
    (hfree : store.NameFree serverId data) :
    (∃ folders result,
        parseFolderRows D T.lower
            (folderEditor ((store.listFolders serverId).map FolderRead.fromModel)) = some folders ∧
          store.updateServerWithFolders box nonce serverId data folders = .ok result ∧
          store.SameFolders result.1 serverId) ↔
      ∀ folder ∈ store.listFolders serverId, folder.Survives := by
  have hpath : ∀ f ∈ (store.listFolders serverId).map FolderRead.fromModel,
      isabs f.path = true := by
    intro f hf
    obtain ⟨folder, hfolder, rfl⟩ := List.mem_map.mp hf
    obtain ⟨a, ha⟩ := (normal_of_stored (hstored folder hfolder)).path
    rw [FolderRead.fromModel, ha]
    exact AbsPath.isabs_toStr a
  have hparse := parse_folderEditor D T.lower hpath
  rw [List.map_map] at hparse
  have hkept : ∀ folder ∈ store.listFolders serverId,
      KeptIff FolderContents.length folder.Survives folder.data.contents
        ((FolderRead.fromModel folder).resubmitted T.lower).contents :=
    fun folder hfolder => contents_resubmitted (normal_of_stored (hstored folder hfolder))
  by_cases hstorable : Update.Storable ⟨serverId, data, some ((store.listFolders serverId).map
      (FolderRead.resubmitted T.lower ∘ FolderRead.fromModel))⟩
  · obtain ⟨store', hwrite, hrows⟩ := exists_repoWrite hget htoken hbind hnull htimeout hfree
      hstorable
    have hsame : store.SameFolders store' serverId ↔
        ∀ folder ∈ store.listFolders serverId, folder.Survives := by
      rw [Store.SameFolders, contents_replaceFolders hrows, Store.contents, List.map_map]
      exact perm_map_iff_of_kept hkept
    rw [← hsame]
    constructor
    · rintro ⟨folders, result, hfolders, hupdate, h⟩
      cases hparse.symm.trans hfolders
      cases hwrite.symm.trans hupdate
      exact h
    · intro h
      exact ⟨_, _, hparse, hwrite, h⟩
  · -- rows that survive can be stored, as those can that are there
    refine iff_of_false ?_ fun hsurvive => hstorable ?_
    · rintro ⟨folders, result, hfolders, hupdate, -⟩
      cases hparse.symm.trans hfolders
      exact hstorable (@storable_of_repoWrite _ _ _ _ ⟨serverId, data, some _⟩ hget _ hupdate)
    · refine List.forall_mem_map.mpr fun folder hfolder => ?_
      refine storable_of_contents ((hkept folder hfolder).eq_iff.mpr
        (hsurvive folder hfolder)).symm ?_
      exact store.constraints.storable (List.mem_of_mem_filter hfolder)

end

/-- A payload without fields. -/
theorem noNull_empty : ServerUpdate.NoNull {} := by constructor <;> decide

theorem unedited_save_tv :
    ∃ folders result,
      parseFolderRows DigitTable.ascii CaseTable.ascii.lower
          (folderEditor ((FolderRoutes.twoServers.listFolders 1).map FolderRead.fromModel)) =
          some folders ∧
        FolderRoutes.twoServers.updateServerWithFolders markBox 0 1 {} folders = .ok result ∧
        FolderRoutes.twoServers.SameFolders result.1 1 := by
  obtain ⟨server, hget⟩ : ∃ server, FolderRoutes.twoServers.requireServer 1 = .ok server :=
    ⟨_, rfl⟩
  have hvalid : ∀ data ∈ [tvFolder],
      ∃ raw : FolderCreate, raw.validate CaseTable.ascii.lower = some data :=
    List.forall_mem_singleton.mpr ⟨tvFolder, by decide +kernel⟩
  have hfirst : (storeAfter [.serverCreateWithFolders 0 plexServer [tvFolder]]).Written
      CaseTable.ascii.lower markBox :=
    @Store.Written.write _ _ _ _ (.serverCreateWithFolders 0 plexServer [tvFolder]) .empty hvalid
      rfl
  have hwritten : FolderRoutes.twoServers.Written CaseTable.ascii.lower markBox :=
    @Store.Written.write _ _ _ _ (.serverCreate 0 webhookServer) hfirst trivial rfl
  refine (unedited_save_iff DigitTable.ascii (fun folder hfolder => ?_) hget rfl rfl noNull_empty
    nofun ?_).mpr ?_
  · exact Store.stored_of_written hwritten folder (List.mem_of_mem_filter hfolder)
  · decide +kernel
  · decide +kernel

/-- The JSON API takes `mkv,mp4` as one extension; a save without an edit makes two of it. -/
theorem unedited_save_splits :
    (rawFolder [str "mkv,mp4"]).validate CaseTable.ascii.lower =
        some (rawFolder [str "mkv,mp4"]) ∧
      (storedFolder (rawFolder [str "mkv,mp4"])).Written CaseTable.ascii.lower markBox ∧
      parseFolderRows DigitTable.ascii CaseTable.ascii.lower
          (folderEditor (((storedFolder (rawFolder [str "mkv,mp4"])).listFolders 1).map
            FolderRead.fromModel)) = some [rawFolder [str "mkv", str "mp4"]] ∧
      ¬ ∃ folders result,
        parseFolderRows DigitTable.ascii CaseTable.ascii.lower
            (folderEditor (((storedFolder (rawFolder [str "mkv,mp4"])).listFolders 1).map
              FolderRead.fromModel)) = some folders ∧
          (storedFolder (rawFolder [str "mkv,mp4"])).updateServerWithFolders markBox 0 1 {}
            folders = .ok result ∧
          (storedFolder (rawFolder [str "mkv,mp4"])).SameFolders result.1 1 := by
  have hvalid : (rawFolder [str "mkv,mp4"]).validate CaseTable.ascii.lower =
      some (rawFolder [str "mkv,mp4"]) := by decide +kernel
  have hserver : newServer.Written CaseTable.ascii.lower markBox :=
    @Store.Written.write _ _ _ _ (.serverCreate 0 plexServer) .empty trivial rfl
  have hparse : parseFolderRows DigitTable.ascii CaseTable.ascii.lower
      (folderEditor (((storedFolder (rawFolder [str "mkv,mp4"])).listFolders 1).map
        FolderRead.fromModel)) = some [rawFolder [str "mkv", str "mp4"]] := by decide +kernel
  obtain ⟨saved, hsave, hdiffer⟩ : ∃ saved,
      (storedFolder (rawFolder [str "mkv,mp4"])).updateServerWithFolders markBox 0 1 {}
          [rawFolder [str "mkv", str "mp4"]] = .ok saved ∧
        ¬ (storedFolder (rawFolder [str "mkv,mp4"])).SameFolders saved.1 1 :=
    ⟨_, rfl, by decide +kernel⟩
  refine ⟨hvalid, @Store.Written.write _ _ _ _ (.folderCreate 1 _) hserver ⟨_, hvalid⟩ rfl,
    hparse, ?_⟩
  rintro ⟨folders, result, hfolders, hupdate, hsame⟩
  cases hparse.symm.trans hfolders
  cases hsave.symm.trans hupdate
  exact hdiffer hsame

end MediaScanMonitor
