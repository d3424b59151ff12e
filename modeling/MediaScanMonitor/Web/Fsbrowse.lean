import MediaScanMonitor.Config.Readable
import MediaScanMonitor.Library.Query
import Mathlib.Data.List.Lex
import Mathlib.Data.List.Sort

/-!
# Web — the folder browser

`list_directory` of `web/fsbrowse.py` lists the directories in a directory, and `ui_browse_fs`
renders them as links, with one to the directory above and one to each on the way down
(`_path_crumbs`).  A link carries its path percent encoded.

* `scanLoop_eq_ok`: the loop takes the first sub-directories, up to `MAX_ENTRIES`.
* `shows_of_listDirectory`: what the page of a directory shows and where its links lead.
* `exists_page_iff`: when there is a page.
-/

namespace Posix
open Py

/-- `posixpath.abspath`. -/
def abspath (cwd : AbsPath) (p : Str) : Str := normpath (if isabs p then p else join cwd.toStr p)

/-- `posixpath.dirname`. -/
def dirname (p : Str) : Str :=
  let head := p.rdropWhile (· ≠ slash)
  if head ≠ [] ∧ head ≠ List.replicate head.length slash then rstripOf slash head else head

variable {p s t : Str} {cwd a : AbsPath} {n : Name}

theorem isabs_append (h : isabs s = true) (t : Str) : isabs (s ++ t) = true :=
  startswith_iff.mpr ((startswith_iff.mp h).trans (List.prefix_append s t))

theorem isabs_join (cwd : AbsPath) (h : isabs p = false) : isabs (join cwd.toStr p) = true := by
  rw [join, if_neg (by rw [← isabs, h]; simp)]
  split
  · exact isabs_append cwd.isabs_toStr p
  · exact isabs_append cwd.isabs_toStr _

theorem exists_abspath (cwd : AbsPath) (p : Str) : ∃ a : AbsPath, abspath cwd p = a.toStr := by
  rw [abspath]
  refine AbsPath.exists_toStr_of_normpath ?_
  split
  · assumption
  · rename_i h
    exact isabs_join cwd (Bool.eq_false_iff.mpr h)

namespace AbsPath

/-- The path with its last name left out, `/` and `//` having none. -/
def up (a : AbsPath) : Option AbsPath :=
  if a.segs = [] then none else some { a with segs := a.segs.dropLast }

theorem up_push (a : AbsPath) (n : Name) : (a.push n).up = some a := by
  rw [up, if_neg (by simp)]
  simp [push]

theorem head_append (u : Str) {v : Str} (h : slash ∉ v) :
    (u ++ slash :: v).rdropWhile (· ≠ slash) = u ++ [slash] := by
  have hv : ∀ c ∈ v.reverse, decide (c ≠ slash) = true := by
    intro c hc
    rw [decide_eq_true_eq]
    rintro rfl
    exact h (List.mem_reverse.mp hc)
  rw [List.rdropWhile, List.reverse_append, List.reverse_cons, List.append_assoc,
    List.dropWhile_append_of_pos hv]
  simp

theorem rstripOf_concat {u : Str} (h : u.getLast? ≠ some slash) :
    rstripOf slash (u ++ [slash]) = u := by
  rw [rstripOf, List.rdropWhile_concat_pos _ _ _ (by simp)]
  refine List.rdropWhile_eq_self_iff.mpr fun hne => ?_
  rw [List.getLast?_eq_some_getLast hne] at h
  simpa using h

/-- **`dirname`** takes the last name off. -/
theorem dirname_toStr (a : AbsPath) : dirname a.toStr = (a.up.getD a).toStr := by
  obtain ⟨d, s⟩ := a
  rcases List.eq_nil_or_concat' s with rfl | ⟨s, n, rfl⟩
  · cases d <;> decide
  · rw [concat_eq_push, up_push, Option.getD_some]
    by_cases hs : s = []
    · subst hs
      have hpush : (push ⟨d, []⟩ n).toStr = (if d then [slash] else []) ++ slash :: n.val := by
        cases d <;> simp [toStr, root, push]
      have hroot : (if d then [slash] else []) ++ [slash] = toStr ⟨d, []⟩ := by
        cases d <;> rfl
      rw [dirname, hpush, head_append _ n.ok.2.1, hroot]
      cases d <;> rfl
    · have hpush : (push ⟨d, s⟩ n).toStr = toStr ⟨d, s⟩ ++ slash :: n.val := by
        rw [toStr, root_push, segs_push, body_append hs (by simp), body_singleton, toStr]
        simp
      have hlast : (toStr ⟨d, s⟩).getLast? ≠ some slash := by
        have hbody : body s ≠ [] := by
          intro e
          have hsplit := splitOn_body hs
          rw [e, List.splitOn_nil] at hsplit
          obtain ⟨m, hm⟩ := List.exists_mem_of_ne_nil _ hs
          have hmem : m.val ∈ [([] : Str)] := hsplit ▸ List.mem_map_of_mem hm
          exact m.ok.1 (List.mem_singleton.mp hmem)
        rw [toStr, List.getLast?_append_of_ne_nil _ hbody]
        exact getLast?_body hs
      have hnot : toStr ⟨d, s⟩ ++ [slash] ≠
          List.replicate (toStr ⟨d, s⟩ ++ [slash]).length slash := by
        intro e
        have hall := List.eq_replicate_iff.mp e
        refine hlast ?_
        rw [List.getLast?_eq_some_getLast (toStr_ne_nil _)]
        exact congrArg some
          (hall.2 _ (List.mem_append_left _ (List.getLast_mem (toStr_ne_nil _))))
      rw [dirname, hpush, head_append _ n.ok.2.1, if_pos ⟨by simp, hnot⟩, rstripOf_concat hlast]

end AbsPath

end Posix

namespace MediaScanMonitor
open Py Posix

/-! ### `web/fsbrowse.py` -/

/-- `IGNORED_DIR_NAMES`. -/
def ignoredDirNames : List Str := [str "@eaDir", str "#snapshot"]

/-- `MAX_ENTRIES`. -/
def maxEntries : Nat := 1000

structure FsEntry where
  name : Str
  path : Str

structure DirListing where
  path : Str
  parent : Option Str
  entries : List FsEntry
  truncated : Bool

inductive OsError where
  | fileNotFound | notADirectory | permission | other
  deriving DecidableEq

/-- What `list_directory` raises: a path with a NUL is no `OSError`. -/
inductive ListError where
  | osError (exc : OsError)
  | valueError

/-- What `os.scandir` finds, and what `is_dir` answers, `none` where it raises. -/
structure DirEntry where
  name : Name
  isDir : Option Bool

/-- What `os.scandir` does at each path: it raises, or the turns of its iterator, where one may
raise too. -/
abbrev Disk := Str → Except OsError (List (Except OsError DirEntry))

/-- The loop of `list_directory`, with the entries so far. -/
def scanLoop (target : Str) : List (Except OsError DirEntry) → List FsEntry →
    Except ListError (List FsEntry × Bool)
  | [], entries => .ok (entries, false)
  | .error exc :: _, _ => .error (.osError exc)
  | .ok entry :: it, entries =>
    if entry.name.val ∈ ignoredDirNames then scanLoop target it entries
    else if entry.isDir = some true then
      if maxEntries ≤ entries.length then .ok (entries, true)
      else
        scanLoop target it (entries ++ [⟨entry.name.val, join target entry.name.val⟩])
    else scanLoop target it entries

/-- `list_directory`. -/
def listDirectory (lower : Str → Str) (cwd : AbsPath) (disk : Disk) (path : Str) :
    Except ListError DirListing :=
  let target := normpath (abspath cwd (if path = [] then [slash] else path))
  if 0 ∈ target then .error .valueError
  else
    match disk target with
    | .error exc => .error (.osError exc)
    | .ok it => (scanLoop target it []).map fun (entries, truncated) =>
      let parent := dirname target
      { path := target
        parent := if parent = target then none else some parent
        entries := entries.insertionSort fun e f => lower e.name ≤ lower f.name
        truncated }

/-! ### The page -/

/-- One turn of the loop of `_path_crumbs`. -/
def crumbStep (acc : Str × List (Str × Str)) (part : Str) : Str × List (Str × Str) :=
  (acc.1 ++ slash :: part, acc.2 ++ [(part, acc.1 ++ slash :: part)])

/-- `_path_crumbs`: names and paths. -/
def pathCrumbs (path : Str) : List (Str × Str) :=
  (((path.splitOn slash).filter (· ≠ [])).foldl crumbStep ([], [([slash], [slash])])).2

/-- `_fs_error_message`. -/
def fsErrorMessage : OsError → Str
  | .fileNotFound => str "That folder no longer exists."
  | .notADirectory => str "That path is a file, not a folder."
  | .permission => str "Permission denied reading that folder."
  | .other => str "Couldn't read that folder."

/-- A button, or the inert label of the folder one is in. -/
structure Crumb where
  name : Str
  url : Option Str

structure FsLink where
  name : Str
  url : Str

/-- What `_fs_listing.html` shows. -/
structure FsPage where
  crumbs : List Crumb
  error : Option Str
  up : Option Str
  entries : List FsLink
  truncated : Option Nat
  currentPath : Str

/-- A text on a page that is sent as UTF-8: `none` where it cannot be. -/
def shown (s : Str) : Option Str := if IsClean s then some s else none

/-- `/ui/fs?path={{ path | urlencode }}`. -/
def fsUrl (path : Str) : Option Str := (quote path).map fun value => str "/ui/fs?path=" ++ value

/-- The last crumb is inert, the root apart. -/
def renderCrumbs (crumbs : List (Str × Str)) : Option (List Crumb) :=
  crumbs.zipIdx.mapM fun ((name, path), i) => do
    let name ← shown name
    if i + 1 = crumbs.length ∧ i ≠ 0 then return ⟨name, none⟩
    else return ⟨name, some (← fsUrl path)⟩

def renderEntry (entry : FsEntry) : Option FsLink := do
  return ⟨← shown entry.name, ← fsUrl entry.path⟩

/-- The path above, which may be there or not. -/
def renderUp : Option Str → Option (Option Str)
  | none => some none
  | some parent => (fsUrl parent).map some

/-- `ui_browse_fs`: `none` where the page is not answered. -/
def uiBrowseFs (lower : Str → Str) (cwd : AbsPath) (disk : Disk) (path : Str) : Option FsPage :=
  let requested := normpath (abspath cwd (if path = [] then [slash] else path))
  match listDirectory lower cwd disk path with
  | .error .valueError => none
  | .error (.osError exc) => do
    let crumbs ← renderCrumbs (pathCrumbs requested)
    return ⟨crumbs, some (fsErrorMessage exc), none, [], none, []⟩
  | .ok listing => do
    let crumbs ← renderCrumbs (pathCrumbs listing.path)
    let up ← renderUp listing.parent
    let entries ← listing.entries.mapM renderEntry
    let truncated := if listing.truncated then some listing.entries.length else none
    return ⟨crumbs, none, up, entries, truncated, ← shown listing.path⟩

/-- The path that the handler reads from a link. -/
def requestedPath (url : Str) : Str := (queryParam (str "path") url).getD []

/-! ### What is listed -/

/-- The names of the sub-directories that are found, in order: what cannot be read is none. -/
def subdirs (it : List (Except OsError DirEntry)) : List Name :=
  it.filterMap fun turn =>
    match turn with
    | .error _ => none
    | .ok entry =>
      if entry.name.val ∉ ignoredDirNames ∧ entry.isDir = some true then some entry.name else none

/-- The names of a listing: the first ones, sorted by what `lower` makes of them. -/
def listedDirs (lower : Str → Str) (it : List (Except OsError DirEntry)) : List Name :=
  ((subdirs it).take maxEntries).insertionSort fun n m => lower n.val ≤ lower m.val

def fsEntry (target : Str) (n : Name) : FsEntry := ⟨n.val, join target n.val⟩

variable {lower : Str → Str} {cwd a : AbsPath} {disk : Disk} {target path url : Str} {n : Name}
  {it : List (Except OsError DirEntry)} {turn : Except OsError DirEntry} {entry : DirEntry}
  {entries found : List FsEntry} {truncated : Bool} {exc : OsError}

theorem subdirs_skip (h : entry.name.val ∈ ignoredDirNames ∨ entry.isDir ≠ some true) :
    subdirs (.ok entry :: it) = subdirs it := by
  rw [subdirs, List.filterMap_cons_none]
  · rfl
  · exact if_neg fun hkept => h.elim hkept.1 fun hdir => hdir hkept.2

theorem subdirs_take (h : entry.name.val ∉ ignoredDirNames) (hdir : entry.isDir = some true) :
    subdirs (.ok entry :: it) = entry.name :: subdirs it := by
  rw [subdirs, @List.filterMap_cons_some _ _ _ _ _ entry.name]
  · rfl
  · exact if_pos ⟨h, hdir⟩

theorem scanLoop_skip (h : entry.name.val ∈ ignoredDirNames ∨ entry.isDir ≠ some true) :
    scanLoop target (.ok entry :: it) entries = scanLoop target it entries := by
  rw [scanLoop]
  split
  · rfl
  · rename_i hname
    exact if_neg (h.resolve_left hname)

theorem scanLoop_take (h : entry.name.val ∉ ignoredDirNames) (hdir : entry.isDir = some true) :
    scanLoop target (.ok entry :: it) entries =
      if maxEntries ≤ entries.length then .ok (entries, true)
      else scanLoop target it (entries ++ [fsEntry target entry.name]) := by
  rw [scanLoop, if_neg h, if_pos hdir]
  rfl

/-- The loop takes the first sub-directories, up to `MAX_ENTRIES`, and tells whether there are
more. -/
theorem scanLoop_eq_ok (h : scanLoop target it entries = .ok (found, truncated))
    (hle : entries.length ≤ maxEntries) :
    found = (entries ++ (subdirs it).map (fsEntry target)).take maxEntries ∧
      (truncated = true ↔ maxEntries < entries.length + (subdirs it).length) := by
  induction it generalizing entries with
  | nil =>
      cases h
      simp [subdirs, List.take_of_length_le hle, hle]
  | cons turn it ih =>
      cases turn with
      | error exc => cases h
      | ok entry =>
          by_cases hskip : entry.name.val ∈ ignoredDirNames ∨ entry.isDir ≠ some true
          · rw [scanLoop_skip hskip] at h
            rw [subdirs_skip hskip]
            exact ih h hle
          · obtain ⟨hname, hdir⟩ := not_or.mp hskip
            rw [not_not] at hdir
            rw [scanLoop_take hname hdir] at h
            rw [subdirs_take hname hdir, List.map_cons, List.length_cons]
            split at h
            · rename_i hfull
              cases h
              rw [List.take_append_of_le_length hfull, List.take_of_length_le hle]
              exact ⟨rfl, iff_of_true rfl (by omega)⟩
            · rename_i hroom
              have hroom' : (entries ++ [fsEntry target entry.name]).length ≤ maxEntries := by
                rw [List.length_append, List.length_singleton]
                omega
              obtain ⟨hfound, htruncated⟩ := ih h hroom'
              rw [hfound, htruncated, List.append_assoc, List.length_append, List.length_singleton,
                List.singleton_append]
              exact ⟨rfl, by rw [Nat.add_assoc, Nat.add_comm 1]⟩

/-- No turn of the iterator raises before the sub-directory after the last one that is listed. -/
def Reads (it : List (Except OsError DirEntry)) (count : Nat) : Prop :=
  ∀ before exc after, it = before ++ .error exc :: after →
    maxEntries < count + (subdirs before).length

theorem reads_cons (hne : ∀ exc, turn ≠ .error exc) {count : Nat} :
    Reads (turn :: it) count ↔ ∀ before exc after, it = before ++ .error exc :: after →
      maxEntries < count + (subdirs (turn :: before)).length := by
  constructor
  · intro h before exc after hit
    exact h (turn :: before) exc after (by rw [hit, List.cons_append])
  · intro h before exc after hit
    cases before with
    | nil => exact absurd (List.cons.inj hit).1 (hne exc)
    | cons first before =>
        obtain ⟨rfl, hrest⟩ := List.cons.inj hit
        exact h before exc after hrest

/-- **The loop raises** what a turn raises, if it comes to it. -/
theorem exists_scanLoop_iff (hle : entries.length ≤ maxEntries) :
    (∃ result, scanLoop target it entries = .ok result) ↔ Reads it entries.length := by
  induction it generalizing entries with
  | nil =>
      refine iff_of_true ⟨_, rfl⟩ fun before exc after hit => ?_
      simp at hit
  | cons turn it ih =>
      cases turn with
      | error exc =>
          refine iff_of_false (fun ⟨_, h⟩ => by cases h) fun h => ?_
          have hfull := h [] exc it rfl
          rw [subdirs, List.filterMap_nil, List.length_nil] at hfull
          omega
      | ok entry =>
          rw [reads_cons fun exc h => by cases h]
          by_cases hskip : entry.name.val ∈ ignoredDirNames ∨ entry.isDir ≠ some true
          · simp only [scanLoop_skip hskip, subdirs_skip hskip]
            exact ih hle
          · obtain ⟨hname, hdir⟩ := not_or.mp hskip
            rw [not_not] at hdir
            simp only [scanLoop_take hname hdir, subdirs_take hname hdir, List.length_cons]
            split
            · rename_i hfull
              exact iff_of_true ⟨_, rfl⟩ fun before exc after _ => by omega
            · rename_i hroom
              rw [ih (by rw [List.length_append, List.length_singleton]; omega), Reads]
              simp only [List.length_append, List.length_singleton, Nat.add_assoc, Nat.add_comm 1]

/-- What the loop collects. -/
theorem scanLoop_nil_eq_ok {result : List FsEntry × Bool} :
    scanLoop target it [] = .ok result ↔ Reads it 0 ∧
      result = (((subdirs it).take maxEntries).map (fsEntry target),
        decide (maxEntries < (subdirs it).length)) := by
  have hok : ∀ {found truncated}, scanLoop target it [] = .ok (found, truncated) →
      (found, truncated) = (((subdirs it).take maxEntries).map (fsEntry target),
        decide (maxEntries < (subdirs it).length)) := by
    intro found truncated h
    obtain ⟨hfound, htruncated⟩ := scanLoop_eq_ok h (Nat.zero_le _)
    rw [List.nil_append, ← List.map_take] at hfound
    rw [List.length_nil, Nat.zero_add] at htruncated
    rw [hfound, Prod.mk.injEq, and_iff_right rfl, Bool.eq_iff_iff, htruncated, decide_eq_true_eq]
  constructor
  · intro h
    exact ⟨(@exists_scanLoop_iff target it [] (Nat.zero_le _)).mp ⟨result, h⟩, hok h⟩
  · rintro ⟨hreads, rfl⟩
    obtain ⟨result, h⟩ := (@exists_scanLoop_iff target it [] (Nat.zero_le _)).mpr hreads
    exact h.trans (congrArg Except.ok (hok h))

/-! ### The way down -/

/-- The names with a slash in front of each. -/
def below (ns : Loc) : Str := ns.flatMap fun n => slash :: n.val

theorem below_concat (ns : Loc) (n : Name) : below (ns ++ [n]) = below ns ++ slash :: n.val := by
  rw [below, List.flatMap_append, List.flatMap_singleton, ← below]

theorem toStr_eq_below {ns : Loc} (h : ns ≠ []) : AbsPath.toStr ⟨false, ns⟩ = below ns := by
  induction ns with
  | nil => exact absurd rfl h
  | cons n ns ih =>
      by_cases hns : ns = []
      · subst hns
        simp [AbsPath.toStr, AbsPath.root, below]
      · have htail := ih hns
        rw [AbsPath.toStr, AbsPath.root, if_neg (by simp), List.singleton_append] at htail ⊢
        rw [AbsPath.body_cons n hns, htail]
        simp [below]

theorem filter_splitOn (a : AbsPath) :
    (a.toStr.splitOn slash).filter (· ≠ []) = a.segs.map Name.val := by
  have hcons : ∀ t : Str, ((slash :: t).splitOn slash).filter (· ≠ []) =
      (t.splitOn slash).filter (· ≠ []) := by
    intro t
    rw [← List.nil_append (slash :: t), List.splitOn_append_cons_self, List.splitOn_nil,
      List.singleton_append, List.filter_cons_of_neg (by simp)]
  have hbody : ((AbsPath.body a.segs).splitOn slash).filter (· ≠ []) = a.segs.map Name.val := by
    by_cases h : a.segs = []
    · rw [h]
      rfl
    · rw [AbsPath.splitOn_body h, List.filter_eq_self]
      intro s hs
      obtain ⟨n, -, rfl⟩ := List.mem_map.mp hs
      simpa using n.ok.1
  rw [AbsPath.toStr, AbsPath.root]
  split
  · rw [List.cons_append, hcons, List.cons_append, hcons, List.nil_append, hbody]
  · rw [List.cons_append, hcons, List.nil_append, hbody]

/-- The name of a crumb. -/
def crumbName (ns : Loc) : Str := (ns.getLast?.map Name.val).getD [slash]

theorem crumbName_concat (ns : Loc) (n : Name) : crumbName (ns ++ [n]) = n.val := by
  rw [crumbName, List.getLast?_concat, Option.map_some, Option.getD_some]

theorem foldl_crumbStep (ms ps : Loc) (crumbs : List (Str × Str)) :
    (ms.map Name.val).foldl crumbStep (below ps, crumbs) =
      (below (ps ++ ms),
        crumbs ++ ms.inits.tail.map fun t => (crumbName (ps ++ t), below (ps ++ t))) := by
  induction ms generalizing ps crumbs with
  | nil => simp
  | cons m ms ih =>
      have hstep : crumbStep (below ps, crumbs) m.val =
          (below (ps ++ [m]), crumbs ++ [(crumbName (ps ++ [m]), below (ps ++ [m]))]) := by
        rw [crumbStep, below_concat, crumbName_concat]
      have hinits : ms.inits = [] :: ms.inits.tail := by
        cases ms <;> simp
      rw [List.map_cons, List.foldl_cons, hstep, ih, List.inits_cons, List.tail_cons, hinits]
      simp [List.append_assoc, Function.comp_def]

/-- **The crumbs** of a path are the directories on the way down to it, under `/` even where the
path is under `//`. -/
theorem pathCrumbs_toStr (a : AbsPath) :
    pathCrumbs a.toStr = a.segs.inits.map fun ns => (crumbName ns, AbsPath.toStr ⟨false, ns⟩) := by
  have hinits : a.segs.inits = [] :: a.segs.inits.tail := by
    cases a.segs <;> simp
  have htail : a.segs.inits.tail.map (fun t => (crumbName t, below t)) =
      a.segs.inits.tail.map fun t => (crumbName t, AbsPath.toStr ⟨false, t⟩) := by
    refine List.map_congr_left fun t ht => ?_
    have hne : t ≠ [] := by
      rintro rfl
      cases hs : a.segs with
      | nil => simp [hs] at ht
      | cons n ns => simp [hs] at ht
    rw [toStr_eq_below hne]
  rw [pathCrumbs, filter_splitOn, show (([] : Str), [([slash], [slash])]) =
    (below [], [([slash], [slash])]) from rfl, foldl_crumbStep, hinits, List.map_cons]
  simp only [List.nil_append, htail, List.tail_cons]
  rfl

/-! ### Links -/

theorem shown_eq_some {s t : Str} : shown s = some t ↔ IsClean s ∧ s = t := by
  rw [shown, Option.ite_none_right_eq_some, Option.some_inj]

theorem isSome_fsUrl : (fsUrl path).isSome = true ↔ IsClean path := by
  rw [fsUrl, Option.isSome_map, quote_eq_percentEncode, isSome_percentEncode]

/-- The handler reads the path that was written, whoever wrote it. -/
theorem requestedPath_append {S : SafeSet} {value : Str} (h : S.percentEncode path = some value) :
    requestedPath (str "/ui/fs?path=" ++ value) = path := by
  have hurl : str "/ui/fs?path=" ++ value =
      str "/ui/fs" ++ question :: (str "path" ++ equals :: value) := rfl
  rw [requestedPath, hurl,
    queryParam_append (by decide) (by decide) (by decide +kernel) (by decide) h, Option.getD_some]

/-- **A link leads** to the path it was made for. -/
theorem requestedPath_of_fsUrl (h : fsUrl path = some url) : requestedPath url = path := by
  obtain ⟨value, hvalue, rfl⟩ := Option.map_eq_some_iff.mp h
  exact requestedPath_append (quote_eq_percentEncode path ▸ hvalue)

/-- What is made of each item of a list, seen through `g`. -/
theorem map_of_mapM {α β γ : Type} {f : α → Option β} {g : β → γ} {k : α → γ} {l : List α}
    {ys : List β} (hf : ∀ x y, f x = some y → g y = k x) (h : l.mapM f = some ys) :
    ys.map g = l.map k := by
  induction l generalizing ys with
  | nil =>
      cases h
      rfl
  | cons x l ih =>
      simp only [List.mapM_cons, Option.bind_eq_bind, Option.bind_eq_some_iff] at h
      obtain ⟨y, hy, rest, hrest, hcons⟩ := h
      cases hcons
      rw [List.map_cons, List.map_cons, hf x y hy, ih hrest]

/-- What one sees of a crumb: its name, and where it leads. -/
def Crumb.view (c : Crumb) : Str × Option Str := (c.name, c.url.map requestedPath)

def FsLink.view (l : FsLink) : Str × Str := (l.name, requestedPath l.url)

theorem view_of_renderCrumbs {crumbs : List (Str × Str)} {rendered : List Crumb}
    (h : renderCrumbs crumbs = some rendered) :
    rendered.map Crumb.view = crumbs.zipIdx.map fun (c, i) =>
      (c.1, if i + 1 = crumbs.length ∧ i ≠ 0 then none else some c.2) := by
  refine map_of_mapM (fun ((name, path), i) y hy => ?_) h
  simp only [Option.bind_eq_bind, Option.bind_eq_some_iff, shown_eq_some] at hy
  obtain ⟨_, ⟨-, rfl⟩, hy⟩ := hy
  split at hy
  · rename_i hlast
    cases hy
    exact congrArg (Prod.mk name) (if_pos hlast).symm
  · rename_i hlink
    simp only [Option.bind_eq_some_iff] at hy
    obtain ⟨url, hurl, hy⟩ := hy
    cases hy
    rw [Crumb.view, Option.map_some, requestedPath_of_fsUrl hurl]
    exact congrArg (Prod.mk name) (if_neg hlink).symm

theorem view_of_renderEntry {entry : FsEntry} {link : FsLink} (h : renderEntry entry = some link) :
    link.view = (entry.name, entry.path) := by
  simp only [renderEntry, Option.bind_eq_bind, Option.bind_eq_some_iff, shown_eq_some] at h
  obtain ⟨_, ⟨-, rfl⟩, url, hurl, h⟩ := h
  cases h
  rw [FsLink.view, requestedPath_of_fsUrl hurl]

/-! ### What a page shows -/

/-- The directory that a request opens. -/
def opened (cwd : AbsPath) (path : Str) : AbsPath :=
  parse (abspath cwd (if path = [] then [slash] else path))

theorem abspath_eq_opened (cwd : AbsPath) (path : Str) :
    normpath (abspath cwd (if path = [] then [slash] else path)) = (opened cwd path).toStr := by
  obtain ⟨b, hb⟩ := exists_abspath cwd (if path = [] then [slash] else path)
  rw [opened, hb, AbsPath.normpath_toStr, AbsPath.parse_toStr]

/-- The crumbs lead down to `a`, the last one being no link. -/
def FsPage.Trail (page : FsPage) (a : AbsPath) : Prop :=
  page.crumbs.map Crumb.view = a.segs.inits.map fun ns =>
    (crumbName ns, if ns = a.segs ∧ ns ≠ [] then none else some (AbsPath.toStr ⟨false, ns⟩))

/-- The page that `ui_browse_fs` renders where it reports an error. -/
structure FsPage.Fails (page : FsPage) : Prop where
  error : ∃ exc, page.error = some (fsErrorMessage exc)
  currentPath : page.currentPath = []
  up : page.up = none
  entries : page.entries = []

/-- The page of the directory `a`, in which the iterator finds `it`. -/
structure FsPage.Shows (lower : Str → Str) (page : FsPage) (a : AbsPath)
    (it : List (Except OsError DirEntry)) : Prop where
  error : page.error = none
  currentPath : page.currentPath = a.toStr
  up : page.up.map requestedPath = a.up.map AbsPath.toStr
  entries : page.entries.map FsLink.view =
    (listedDirs lower it).map fun n => (n.val, (a.push n).toStr)
  truncated : page.truncated = if maxEntries < (subdirs it).length then some maxEntries else none

theorem trail_of_renderCrumbs {page : FsPage}
    (h : renderCrumbs (pathCrumbs a.toStr) = some page.crumbs) : page.Trail a := by
  rw [FsPage.Trail, view_of_renderCrumbs h, pathCrumbs_toStr]
  refine List.ext_getElem (by simp) fun i hi hi' => ?_
  have hle : i ≤ a.segs.length := by
    simp only [List.length_map, List.length_inits] at hi'
    omega
  have htake : a.segs.take i = a.segs ↔ i = a.segs.length := by
    rw [List.take_eq_self_iff]
    omega
  have hlast : (i + 1 = a.segs.length + 1 ∧ i ≠ 0) ↔
      (a.segs.take i = a.segs ∧ a.segs.take i ≠ []) := by
    rw [htake]
    constructor
    · rintro ⟨hi, hne⟩
      refine ⟨by omega, fun e => hne ?_⟩
      rw [htake.mpr (by omega)] at e
      rw [show i = a.segs.length by omega, e, List.length_nil]
    · rintro ⟨hi, hne⟩
      exact ⟨by omega, fun e => hne (by rw [e, List.take_zero])⟩
  simp only [List.getElem_map, List.getElem_zipIdx, List.getElem_inits, List.length_map,
    List.length_inits, Nat.zero_add]
  simp only [hlast]

/-- The listing of the directory `a`, in which the iterator finds `it`. -/
def listingOf (lower : Str → Str) (a : AbsPath) (it : List (Except OsError DirEntry)) :
    DirListing where
  path := a.toStr
  parent := a.up.map AbsPath.toStr
  entries := (listedDirs lower it).map (fsEntry a.toStr)
  truncated := maxEntries < (subdirs it).length

theorem parent_eq (a : AbsPath) :
    (if dirname a.toStr = a.toStr then none else some (dirname a.toStr)) =
      a.up.map AbsPath.toStr := by
  rw [AbsPath.dirname_toStr]
  obtain ⟨d, s⟩ := a
  rcases List.eq_nil_or_concat' s with rfl | ⟨s, n, rfl⟩
  · exact if_pos rfl
  · rw [AbsPath.concat_eq_push, AbsPath.up_push, Option.getD_some, Option.map_some]
    refine if_neg fun e => ?_
    have hlength := congrArg (fun b : AbsPath => b.segs.length) (AbsPath.toStr_injective e)
    simp at hlength

/-- **`list_directory`** lists the directory that the request opens. -/
theorem listDirectory_eq_ok {listing : DirListing} :
    listDirectory lower cwd disk path = .ok listing ↔ 0 ∉ (opened cwd path).toStr ∧
      ∃ it, disk (opened cwd path).toStr = .ok it ∧ Reads it 0 ∧
        listing = listingOf lower (opened cwd path) it := by
  have hsort : ∀ it, (((subdirs it).take maxEntries).map
      (fsEntry (opened cwd path).toStr)).insertionSort (fun e f => lower e.name ≤ lower f.name) =
        (listedDirs lower it).map (fsEntry (opened cwd path).toStr) := fun it =>
    (List.map_insertionSort (fun n m : Name => lower n.val ≤ lower m.val)
      (fun e f : FsEntry => lower e.name ≤ lower f.name) _ _ fun _ _ _ _ => Iff.rfl).symm
  unfold listDirectory
  simp only [abspath_eq_opened, parent_eq]
  split
  · rename_i hnul
    exact iff_of_false (fun h => by cases h) fun h => h.1 hnul
  · rename_i hnul
    rw [and_iff_right hnul]
    cases hdisk : disk (opened cwd path).toStr with
    | error exc => exact iff_of_false (fun h => by cases h) fun ⟨it, hit, _⟩ => by cases hit
    | ok it =>
        simp only [Except.ok.injEq, exists_eq_left']
        cases hscan : scanLoop (opened cwd path).toStr it [] with
        | error exc =>
            refine iff_of_false (fun h => by cases h) fun ⟨hreads, _⟩ => ?_
            cases hscan.symm.trans (scanLoop_nil_eq_ok.mpr ⟨hreads, rfl⟩)
        | ok result =>
            obtain ⟨hreads, rfl⟩ := scanLoop_nil_eq_ok.mp hscan
            rw [and_iff_right hreads, Except.map, Except.ok.injEq, hsort, eq_comm]
            rfl

/-! ### Names that can be sent -/

theorem isClean_toStr (a : AbsPath) : IsClean a.toStr ↔ ∀ n ∈ a.segs, IsClean n.val := by
  have hroot : ∀ d, IsClean (AbsPath.root ⟨d, []⟩) := by decide
  have hbody : IsClean (AbsPath.body a.segs) ↔ ∀ n ∈ a.segs, IsClean n.val := by
    induction a.segs with
    | nil => simp [IsClean]
    | cons n ns ih =>
        rw [List.forall_mem_cons]
        by_cases hns : ns = []
        · subst hns
          simp
        · have hslash : isSurrogate slash = false := by decide
          rw [AbsPath.body_cons n hns, isClean_append, isClean_cons, ih, and_iff_right hslash]
  rw [AbsPath.toStr, isClean_append, hbody]
  exact and_iff_right (hroot a.dbl)

theorem isClean_push (a : AbsPath) (n : Name) :
    IsClean (a.push n).toStr ↔ IsClean a.toStr ∧ IsClean n.val := by
  rw [isClean_toStr, isClean_toStr, AbsPath.segs_push, List.forall_mem_append,
    List.forall_mem_singleton]

theorem isClean_up {b : AbsPath} (h : IsClean a.toStr) (hb : a.up = some b) : IsClean b.toStr := by
  rw [AbsPath.up] at hb
  split at hb
  · cases hb
  · cases hb
    rw [isClean_toStr] at h ⊢
    exact fun n hn => h n (List.dropLast_subset _ hn)

theorem isClean_crumb (h : IsClean a.toStr) {name : Str}
    (hcrumb : (name, path) ∈ pathCrumbs a.toStr) : IsClean name ∧ IsClean path := by
  rw [pathCrumbs_toStr, List.mem_map] at hcrumb
  obtain ⟨ns, hns, hcrumb⟩ := hcrumb
  cases hcrumb
  rw [isClean_toStr] at h ⊢
  have hclean : ∀ n ∈ ns, IsClean n.val := fun n hn =>
    h n (((List.mem_inits _ _).mp hns).subset hn)
  refine ⟨?_, hclean⟩
  rcases List.eq_nil_or_concat' ns with rfl | ⟨ns, n, rfl⟩
  · decide
  · rw [crumbName_concat]
    exact hclean n (List.mem_append_right _ (List.mem_singleton.mpr rfl))

/-- The crumbs of a path that can be sent can be sent. -/
theorem exists_renderCrumbs (h : IsClean a.toStr) :
    ∃ crumbs, renderCrumbs (pathCrumbs a.toStr) = some crumbs := by
  refine Option.isSome_iff_exists.mp (isSome_mapM.mpr fun ((name, path), i) hmem => ?_)
  obtain ⟨hname, hpath⟩ := isClean_crumb h (List.fst_mem_of_mem_zipIdx hmem)
  obtain ⟨url, hurl⟩ := Option.isSome_iff_exists.mp (isSome_fsUrl.mpr hpath)
  simp only [shown, if_pos hname, hurl, Option.bind_eq_bind, Option.bind_some]
  split <;> rfl

theorem isSome_renderEntry (a : AbsPath) (n : Name) :
    (renderEntry (fsEntry a.toStr n)).isSome = true ↔ IsClean n.val ∧ IsClean a.toStr := by
  rw [renderEntry, fsEntry, AbsPath.join_toStr]
  constructor
  · intro h
    obtain ⟨link, hlink⟩ := Option.isSome_iff_exists.mp h
    simp only [Option.bind_eq_bind, Option.bind_eq_some_iff, shown_eq_some] at hlink
    obtain ⟨_, ⟨hname, -⟩, url, hurl, -⟩ := hlink
    have hpush := isSome_fsUrl.mp (Option.isSome_iff_exists.mpr ⟨url, hurl⟩)
    exact ⟨hname, ((isClean_push a n).mp hpush).1⟩
  · rintro ⟨hname, hclean⟩
    obtain ⟨url, hurl⟩ := Option.isSome_iff_exists.mp
      (isSome_fsUrl.mpr ((isClean_push a n).mpr ⟨hclean, hname⟩))
    simp [shown, hname, hurl]

/-! ### When there is a page -/

theorem renderUp_eq_some {parent up : Option Str} (h : renderUp parent = some up) :
    up.map requestedPath = parent := by
  cases parent with
  | none =>
      cases h
      rfl
  | some parent =>
      obtain ⟨url, hurl, rfl⟩ := Option.map_eq_some_iff.mp h
      rw [Option.map_some, requestedPath_of_fsUrl hurl]

/-- A list that is cut off has `MAX_ENTRIES`. -/
theorem truncated_listingOf (lower : Str → Str) (a : AbsPath)
    (it : List (Except OsError DirEntry)) :
    (if (listingOf lower a it).truncated then some (listingOf lower a it).entries.length
      else none) = if maxEntries < (subdirs it).length then some maxEntries else none := by
  simp only [listingOf, decide_eq_true_eq]
  split
  · rename_i hmore
    rw [List.length_map, listedDirs, List.length_insertionSort, List.length_take,
      min_eq_left (le_of_lt hmore)]
  · rfl

/-- `a` can be listed, and its listing sent as UTF-8. -/
structure Listable (disk : Disk) (a : AbsPath) (it : List (Except OsError DirEntry)) : Prop where
  nul : 0 ∉ a.toStr
  scandir : disk a.toStr = .ok it
  reads : Reads it 0
  path : IsClean a.toStr
  names : ∀ n ∈ (subdirs it).take maxEntries, IsClean n.val

theorem mem_listedDirs : n ∈ listedDirs lower it ↔ n ∈ (subdirs it).take maxEntries :=
  (List.perm_insertionSort _ _).mem_iff

/-- **A page** shows the way down to the directory that was requested, and an error or what is in
it. -/
theorem uiBrowseFs_cases {page : FsPage} (h : uiBrowseFs lower cwd disk path = some page) :
    page.Trail (opened cwd path) ∧ (page.Fails ∨ ∃ it,
      Listable disk (opened cwd path) it ∧ page.Shows lower (opened cwd path) it) := by
  rw [uiBrowseFs] at h
  simp only [abspath_eq_opened] at h
  cases hlist : listDirectory lower cwd disk path with
  | error failure =>
      rw [hlist] at h
      cases failure with
      | valueError => cases h
      | osError exc =>
          simp only [Option.bind_eq_bind, Option.bind_eq_some_iff] at h
          obtain ⟨crumbs, hcrumbs, h⟩ := h
          cases h
          exact ⟨trail_of_renderCrumbs hcrumbs, .inl ⟨⟨exc, rfl⟩, rfl, rfl, rfl⟩⟩
  | ok listing =>
      obtain ⟨hnul, it, hdisk, hreads, rfl⟩ := listDirectory_eq_ok.mp hlist
      rw [hlist] at h
      simp only [Option.bind_eq_bind, Option.bind_eq_some_iff, shown_eq_some] at h
      obtain ⟨crumbs, hcrumbs, up, hup, entries, hentries, _, ⟨hclean, rfl⟩, h⟩ := h
      cases h
      have hviews := map_of_mapM (fun entry link => view_of_renderEntry) hentries
      have hnames : ∀ n ∈ (subdirs it).take maxEntries, IsClean n.val := by
        intro n hn
        have hmem : fsEntry (opened cwd path).toStr n ∈
            (listingOf lower (opened cwd path) it).entries :=
          List.mem_map_of_mem (mem_listedDirs.mpr hn)
        have hsome := isSome_mapM.mp (Option.isSome_iff_exists.mpr ⟨entries, hentries⟩) _ hmem
        exact ((isSome_renderEntry _ n).mp hsome).1
      refine ⟨trail_of_renderCrumbs hcrumbs, .inr ⟨it, ⟨hnul, hdisk, hreads, hclean, hnames⟩, ?_⟩⟩
      refine ⟨rfl, rfl, renderUp_eq_some hup, ?_, truncated_listingOf lower _ it⟩
      rw [hviews, listingOf, List.map_map]
      refine List.map_congr_left fun n _ => ?_
      rw [Function.comp_apply, fsEntry, AbsPath.join_toStr]

/-- **A directory can be opened** exactly when it can be listed. -/
theorem exists_page_iff :
    (∃ page, uiBrowseFs lower cwd disk path = some page ∧ page.currentPath ≠ []) ↔
      ∃ it, Listable disk (opened cwd path) it := by
  constructor
  · rintro ⟨page, h, hpath⟩
    rcases (uiBrowseFs_cases h).2 with hfails | ⟨it, hlistable, -⟩
    · exact absurd hfails.currentPath hpath
    · exact ⟨it, hlistable⟩
  · rintro ⟨it, h⟩
    have hlist := (@listDirectory_eq_ok lower cwd disk path _).mpr
      ⟨h.nul, it, h.scandir, h.reads, rfl⟩
    obtain ⟨crumbs, hcrumbs⟩ := exists_renderCrumbs h.path
    obtain ⟨up, hup⟩ : ∃ up, renderUp ((opened cwd path).up.map AbsPath.toStr) = some up := by
      cases hparent : (opened cwd path).up with
      | none => exact ⟨none, rfl⟩
      | some b =>
          have hb := isSome_fsUrl.mpr (isClean_up h.path hparent)
          obtain ⟨url, hurl⟩ := Option.isSome_iff_exists.mp hb
          exact ⟨some url, Option.map_eq_some_iff.mpr ⟨url, hurl, rfl⟩⟩
    obtain ⟨entries, hentries⟩ : ∃ entries,
        ((listedDirs lower it).map (fsEntry (opened cwd path).toStr)).mapM renderEntry =
          some entries := by
      refine Option.isSome_iff_exists.mp (isSome_mapM.mpr fun entry hentry => ?_)
      obtain ⟨n, hn, rfl⟩ := List.mem_map.mp hentry
      exact (isSome_renderEntry _ n).mpr ⟨h.names n (mem_listedDirs.mp hn), h.path⟩
    have hshown : shown (opened cwd path).toStr = some (opened cwd path).toStr :=
      shown_eq_some.mpr ⟨h.path, rfl⟩
    rw [uiBrowseFs, hlist]
    simp only [hcrumbs, hentries, hshown, Option.bind_eq_bind, Option.bind_some, listingOf, hup]
    exact ⟨_, rfl, AbsPath.toStr_ne_nil _⟩

end MediaScanMonitor
