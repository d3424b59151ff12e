import MediaScanMonitor.Library.Percent
import MediaScanMonitor.Normalize
import MediaScanMonitor.Pipeline.Segments
import MediaScanMonitor.Servers.Base

/-!
# Servers — `servers/plex.py`

A file name is a byte string, and its `str` stands for it by `fsdecode`.  `quote` encodes a path as
UTF-8, and raises where the name is not: nothing in `trigger` catches that.

* `scans_trigger_iff`: when a targeted request gets through, with its path and no other parameter.
* `scannable_iff`: the same, for the requests of an event, told by the names of the folder scanned.
-/

namespace MediaScanMonitor
open Py Posix

namespace PlexAdapter

/-- `_headers`. -/
def headers (server : ServerRuntime) : List (Str × Str) :=
  [(str "X-Plex-Token", server.secret.getD [])]

/-- The URL without a query. -/
def refreshUrl (server : ServerRuntime) (req : ScanRequest) : Str :=
  rstripOf slash server.baseUrl ++ str "/library/sections/" ++ formatId req.libraryId ++
    str "/refresh"

/-- `trigger`. -/
def trigger (repr : Str → Str) (client : Client) (server : ServerRuntime) (req : ScanRequest) :
    Triggered :=
  let send := fun url =>
    sendRequest client server ⟨str "GET", url, headers server, none⟩ (str "Plex scan triggered")
  match req.scanMode, req.scanPath with
  | .targeted, some scanPath =>
    match quote scanPath with
    | some quoted => send (refreshUrl server req ++ str "?path=" ++ quoted)
    | none => ⟨none, .error (unicodeEncodeError repr scanPath)⟩
  | _, _ => send (refreshUrl server req)

/-! ### What is sent -/

/-- `path`, in bytes. -/
def pathKey : List Byte := [112, 97, 116, 104]

/-- The request is made, and its URL has one parameter: the path, with these bytes. -/
def Scans (bytes : List Byte) (t : Triggered) : Prop :=
  ∃ request attempts, t.sent = some (request, attempts) ∧ 1 ≤ attempts ∧
    urlParams request.url = [(pathKey, bytes)]

/-- The configured part of the URL leaves the query to the path: it has no `?` and no `#`.  One
with a `#` is all there is of the URL, and would have to have that query itself. -/
def Leaves (server : ServerRuntime) (req : ScanRequest) (bytes : List Byte) : Prop :=
  if hash ∈ refreshUrl server req then urlParams (refreshUrl server req) = [(pathKey, bytes)]
  else question ∉ refreshUrl server req

variable {repr : Str → Str} {client : Client} {server : ServerRuntime} {req : ScanRequest}
  {scanPath : Str} {bytes : List Byte}

theorem quote_of_isClean (h : IsClean scanPath) (hbytes : fsencode scanPath = some bytes) :
    quote scanPath = some (bytes.flatMap quoteByte) := by
  rw [fsencode_of_isClean h] at hbytes
  rw [quote, encode_eq_some.mpr ⟨h, Option.some_inj.mp hbytes⟩, Option.map_some]

theorem quote_eq_none (h : ¬ IsClean scanPath) : quote scanPath = none := by
  rw [quote, encode, if_neg h, Option.map_none]

/-- **When a targeted request gets through**: its path has no surrogates. -/
theorem scans_trigger_iff (hmode : req.scanMode = .targeted) (hpath : req.scanPath = some scanPath)
    (hbytes : fsencode scanPath = some bytes) :
    Scans bytes (trigger repr client server req) ↔
      IsClean scanPath ∧ Leaves server req bytes := by
  rw [trigger, hmode, hpath]
  by_cases hclean : IsClean scanPath
  · simp only [quote_of_isClean hclean hbytes, hclean, true_and]
    have hquery : str "?path=" = question :: (str "path" ++ [equals]) := by decide
    have happend : refreshUrl server req ++ str "?path=" ++ bytes.flatMap quoteByte =
        refreshUrl server req ++ question :: (str "path" ++ equals :: bytes.flatMap quoteByte) := by
      rw [hquery]
      simp
    have hkey : unquote (str "path") = pathKey := by decide
    have hparams : urlParams (refreshUrl server req ++
          question :: (str "path" ++ equals :: bytes.flatMap quoteByte)) =
          [(unquote (str "path"), unquote (bytes.flatMap quoteByte))] ↔ _ :=
      urlParams_eq_iff (by decide) (isPlain_flatMap bytes)
    rw [hkey, unquote_flatMap] at hparams
    rw [happend]
    constructor
    · rintro ⟨request, attempts, hsent, -, hurl⟩
      obtain ⟨rfl, -⟩ := Prod.mk.inj (Option.some.inj hsent)
      exact hparams.mp hurl
    · intro h
      exact ⟨_, _, rfl, Retry.Policy.one_le_last, hparams.mpr h⟩
  · simp only [quote_eq_none hclean, hclean, false_and, iff_false]
    rintro ⟨request, attempts, hsent, -⟩
    cases hsent

end PlexAdapter

/-! ### Names of files -/

/-- What the kernel calls a directory entry. -/
structure FileName where
  val : List Byte
  ne_nil : val ≠ []
  slash_not_mem : 47 ∉ val
  nul_not_mem : 0 ∉ val
  ne_dot : val ≠ [46]
  ne_dots : val ≠ [46, 46]

namespace FileName

theorem isName (n : FileName) : IsName (fsdecode n.val) := by
  have hnot : ∀ {t : Str} {s : List Byte}, fsencode t = some s → n.val ≠ s →
      fsdecode n.val ≠ t := by
    rintro t s ht hne rfl
    rw [fsencode_fsdecode, Option.some_inj] at ht
    exact hne ht
  refine ⟨hnot fsencode_nil n.ne_nil, fun hslash => ?_, hnot (by decide) n.ne_dot,
    hnot (by decide) n.ne_dots⟩
  exact n.slash_not_mem (mem_of_mem_fsencode (fsencode_fsdecode n.val) hslash (by decide))

/-- The `str` of a name. -/
def name (n : FileName) : Name := ⟨fsdecode n.val, n.isName⟩

/-- The absolute path of these names. -/
def absPath (dbl : Bool) (names : List FileName) : AbsPath := ⟨dbl, names.map name⟩

/-- The bytes of a path. -/
def pathBytes (dbl : Bool) (names : List FileName) : List Byte :=
  (if dbl then [47, 47] else [47]) ++ [47].intercalate (names.map val)

theorem fsencode_append {s t : Str} {u v : List Byte} (hs : fsencode s = some u)
    (ht : fsencode t = some v) : fsencode (s ++ t) = some (u ++ v) := by
  induction s generalizing u with
  | nil =>
      cases hs
      exact ht
  | cons c s ih =>
      rw [fsencode_cons, Option.bind_eq_some_iff] at hs
      obtain ⟨bytes, hc, hrest⟩ := hs
      obtain ⟨w, hw, rfl⟩ := Option.map_eq_some_iff.mp hrest
      rw [List.cons_append, fsencode_cons, hc, Option.bind_some, ih hw, Option.map_some,
        List.append_assoc]

theorem fsencode_slash {t : Str} {v : List Byte} (h : fsencode t = some v) :
    fsencode (slash :: t) = some (47 :: v) := by
  have hslash : fsencode [slash] = some [47] := by decide
  exact fsencode_append hslash h

theorem fsencode_body (names : List FileName) :
    fsencode (AbsPath.body (names.map name)) = some ([47].intercalate (names.map val)) := by
  induction names with
  | nil => rfl
  | cons n names ih =>
      have hname : fsencode n.name.val = some n.val := fsencode_fsdecode n.val
      cases names with
      | nil => simpa using hname
      | cons m names =>
          have hvals : [47].intercalate ((n :: m :: names).map val) =
              n.val ++ 47 :: [47].intercalate ((m :: names).map val) := by
            rw [List.map_cons, List.map_cons, List.intercalate_cons_cons, List.append_assoc]
            rfl
          rw [List.map_cons, AbsPath.body_cons _ (by simp), hvals]
          exact fsencode_append hname (fsencode_slash ih)

/-- The bytes of a path are those of its names. -/
theorem fsencode_toStr (dbl : Bool) (names : List FileName) :
    fsencode (absPath dbl names).toStr = some (pathBytes dbl names) := by
  have hbody := fsencode_body names
  cases dbl with
  | false => exact fsencode_slash hbody
  | true => exact fsencode_slash (fsencode_slash hbody)

theorem isClean_root (a : AbsPath) : IsClean a.root := by
  rw [AbsPath.root]
  split <;> decide

/-- A path has no surrogates where its names are UTF-8. -/
theorem isClean_toStr_iff (dbl : Bool) (names : List FileName) :
    IsClean (absPath dbl names).toStr ↔ ∀ n ∈ names, IsUtf8 n.val := by
  rw [AbsPath.toStr, isClean_append, and_iff_right (isClean_root _)]
  induction names with
  | nil => simp [absPath, AbsPath.body, IsClean]
  | cons n names ih =>
      have hname : IsClean n.name.val ↔ IsUtf8 n.val := isClean_fsdecode_iff
      have hslash : isSurrogate slash = false := by decide
      rw [List.forall_mem_cons, ← ih, ← hname]
      cases names with
      | nil => simp [absPath, IsClean]
      | cons m names =>
          have hbody : AbsPath.body (absPath dbl (n :: m :: names)).segs =
              n.name.val ++ slash :: AbsPath.body (absPath dbl (m :: names)).segs :=
            AbsPath.body_cons _ (by simp)
          rw [hbody, isClean_append, isClean_cons, and_iff_right hslash]

/-- A name that loses its end is a name of a file, as long as it is a name. -/
theorem exists_of_prefix {n : FileName} {m : Name} (h : m.val <+: n.name.val) :
    ∃ n' : FileName, n'.name = m := by
  obtain ⟨val', hbegin, hval⟩ := exists_fsdecode h
  have hne : ∀ {t : Str} {s : List Byte}, fsdecode s = t → m.val ≠ t → val' ≠ s := by
    rintro t s rfl hm rfl
    exact hm hval.symm
  refine ⟨⟨val', hne fsdecode_nil m.ok.1, fun hmem => n.slash_not_mem (hbegin.subset hmem),
    fun hmem => n.nul_not_mem (hbegin.subset hmem), hne (by decide) m.ok.2.2.1,
    hne (by decide) m.ok.2.2.2⟩, Name.ext hval⟩

/-- What the watcher makes of a path of files is a path of files. -/
theorem exists_normalizePath (dbl : Bool) (names : List FileName) :
    ∃ names', normalizePath (absPath dbl names).toStr = (absPath dbl names').toStr := by
  rw [AbsPath.normalizePath_toStr, AbsPath.trim]
  rcases List.eq_nil_or_concat' names with rfl | ⟨names, n, rfl⟩
  · exact ⟨[], rfl⟩
  · have hlast : (absPath dbl (names ++ [n])).segs.getLast? = some n.name := by simp [absPath]
    have hinit : (absPath dbl (names ++ [n])).segs.dropLast = names.map name := by simp [absPath]
    simp only [hlast, hinit]
    rw [AbsPath.step]
    cases hm : toName? (rstrip n.name.val) with
    | some m =>
        have hbegin : m.val <+: n.name.val := by
          rw [AbsPath.toName?_eq_some hm]
          exact rstrip_isPrefix _
        obtain ⟨n', rfl⟩ := exists_of_prefix hbegin
        exact ⟨names ++ [n'], by simp [absPath, AbsPath.push]⟩
    | none =>
        simp only
        split
        · exact ⟨names.dropLast, by simp [absPath, List.map_dropLast]⟩
        · exact ⟨names, rfl⟩

end FileName

/-! ### The folder scanned -/

section Folder
variable {a b : AbsPath}

/-- The names of a path that the test of a route lets through, below those of the route. -/
theorem exists_below (h : isPathPrefix a.toStr b.toStr = true) :
    ∃ t k, b.segs = a.segs ++ t ∧
      b.toStr = a.toStr ++ List.replicate k slash ++ AbsPath.body t := by
  by_cases ha : a.segs = []
  · obtain ⟨s, hs⟩ := prefix_of_isPathPrefix h
    obtain ⟨dbl, ns⟩ := a
    obtain rfl : ns = [] := ha
    obtain ⟨dbl', ms⟩ := b
    cases dbl with
    | false =>
        cases dbl' with
        | false => exact ⟨ms, 0, rfl, rfl⟩
        | true => exact ⟨ms, 1, rfl, rfl⟩
    | true =>
        cases dbl' with
        | true => exact ⟨ms, 0, rfl, rfl⟩
        | false =>
            have hbody : slash :: s = AbsPath.body ms := (List.cons.inj hs).2
            have hne := AbsPath.body_take_ne ms [] fun _ => by simp
            rw [List.append_nil, ← hbody] at hne
            exact absurd rfl hne
  · have hle : a ≤ b := by
      rw [← AbsPath.eq_or_sep_prefix_toStr ha, ← startswith_iff]
      rw [isPathPrefix, endswith_toStr ha] at h
      split at h
      · rename_i heq
        exact .inl heq
      · exact .inr h
    obtain ⟨t, rfl⟩ := AbsPath.le_iff_exists_extend.mp hle
    by_cases ht : t = []
    · subst ht
      exact ⟨[], 0, by simp, by simp [AbsPath.body]⟩
    · refine ⟨t, 1, rfl, ?_⟩
      have hroot : (a.extend t).root = a.root := rfl
      rw [AbsPath.toStr, AbsPath.toStr, hroot, AbsPath.segs_extend, AbsPath.body_append ha ht]
      simp

/-- The folder scanned for a path that a route lets through. -/
theorem exists_scanPath (h : isPathPrefix a.toStr b.toStr = true) :
    ∃ dbl t, a.segs ++ t <+: b.segs ∧
      (computeScanPath a.toStr b.toStr).1 = (⟨dbl, a.segs ++ t⟩ : AbsPath).toStr := by
  obtain ⟨t, k, hsegs, hb⟩ := exists_below h
  obtain ⟨dbl, -, hscan⟩ := exists_computeScanPath hb
  refine ⟨dbl, nextName t, ?_, hscan⟩
  rw [hsegs]
  exact (List.prefix_append_right_inj _).mpr (nextName_isPrefix t)

end Folder

/-! ### The requests of an event -/

variable {lower repr : Str → Str} {client : Client} {server : ServerRuntime}
  {config : RuntimeConfig} {event : FsEvent} {r : ScanRequest} {dbl : Bool} {names : List FileName}

/-- A targeted request scans a folder of files. -/
theorem exists_folder (hevent : event.path = normalizePath (FileName.absPath dbl names).toStr)
    (hroutes : ∀ f ∈ config.routes, isabs f.path = true ∧ normalizePath f.path = f.path)
    (hr : r ∈ route lower event config) (hmode : r.scanMode = .targeted) :
    ∃ dbl folder, r.scanPath = some (FileName.absPath dbl folder).toStr := by
  obtain ⟨f, hf, hacc, -, rfl⟩ := mem_route.mp hr
  obtain ⟨names', hnames'⟩ := FileName.exists_normalizePath dbl names
  obtain ⟨a, -, ha⟩ := exists_clean_of_normalized (hroutes f hf).1 (hroutes f hf).2
  have hbelow := hacc.below
  rw [ha, hevent, hnames'] at hbelow
  obtain ⟨dbl', t, hbegin, hscan⟩ := exists_scanPath hbelow
  have htake := List.prefix_iff_eq_take.mp hbegin
  have hmode' : f.scanMode = .targeted := hmode
  refine ⟨dbl', names'.take (a.segs ++ t).length, ?_⟩
  rw [(targeted_request event hmode').1, ha, hevent, hnames', hscan, FileName.absPath,
    List.map_take]
  exact congrArg (fun ns => some (AbsPath.toStr ⟨dbl', ns⟩)) htake

/-- **What Plex can be told to scan**: of the requests of an event that the watcher reports, those
of a folder whose names are UTF-8, where the configured part of the URL leaves the query alone. -/
theorem scannable_iff (hevent : event.path = normalizePath (FileName.absPath dbl names).toStr)
    (hroutes : ∀ f ∈ config.routes, isabs f.path = true ∧ normalizePath f.path = f.path)
    (hr : r ∈ route lower event config) (hmode : r.scanMode = .targeted) :
    ∃ dbl folder, r.scanPath = some (FileName.absPath dbl folder).toStr ∧
      fsencode (FileName.absPath dbl folder).toStr = some (FileName.pathBytes dbl folder) ∧
      (PlexAdapter.Scans (FileName.pathBytes dbl folder)
          (PlexAdapter.trigger repr client server r) ↔
        (∀ n ∈ folder, IsUtf8 n.val) ∧
          PlexAdapter.Leaves server r (FileName.pathBytes dbl folder)) := by
  obtain ⟨dbl', folder, hpath⟩ := exists_folder hevent hroutes hr hmode
  have hbytes := FileName.fsencode_toStr dbl' folder
  refine ⟨dbl', folder, hpath, hbytes, ?_⟩
  rw [PlexAdapter.scans_trigger_iff hmode hpath hbytes, FileName.isClean_toStr_iff]

/-- `/data`, `Tom & Jerry` in it, and a file in that. -/
def tomNames : List FileName :=
  [⟨[100, 97, 116, 97], by decide, by decide, by decide, by decide, by decide⟩,
    ⟨[84, 111, 109, 32, 38, 32, 74, 101, 114, 114, 121], by decide, by decide, by decide,
      by decide, by decide⟩,
    ⟨[97], by decide, by decide, by decide, by decide, by decide⟩]

def tomEvent : FsEvent := ⟨normalizePath (FileName.absPath false tomNames).toStr, .created, false⟩

theorem scannable_iff_tom :
    let f := makeFolderRoute 1 (str "/data") [] (some (str "2")) [.created]
    let server := makeServerRuntime 1 .off 0
    ∃ dbl folder, (scanRequest tomEvent f).scanPath = some (FileName.absPath dbl folder).toStr ∧
      fsencode (FileName.absPath dbl folder).toStr = some (FileName.pathBytes dbl folder) ∧
      (PlexAdapter.Scans (FileName.pathBytes dbl folder)
          (PlexAdapter.trigger id (fun _ _ => .response ⟨200⟩) server (scanRequest tomEvent f)) ↔
        (∀ n ∈ folder, IsUtf8 n.val) ∧
          PlexAdapter.Leaves server (scanRequest tomEvent f) (FileName.pathBytes dbl folder)) := by
  intro f server
  have hroute : scanRequest tomEvent f ∈ route asciiLower tomEvent (makeRuntimeConfig [f] ∅) := by
    decide +kernel
  have hevent : tomEvent.path = normalizePath (FileName.absPath false tomNames).toStr := rfl
  exact scannable_iff hevent (by decide +kernel) hroute rfl

/-- `/data`, a folder below it that is called by the byte `0xFF`, and a file in that. -/
def latinNames : List FileName :=
  [⟨[100, 97, 116, 97], by decide, by decide, by decide, by decide, by decide⟩,
    ⟨[255], by decide, by decide, by decide, by decide, by decide⟩,
    ⟨[97], by decide, by decide, by decide, by decide, by decide⟩]

def latinEvent : FsEvent :=
  ⟨normalizePath (FileName.absPath false latinNames).toStr, .created, false⟩

def latinConfig : RuntimeConfig :=
  makeRuntimeConfig [makeFolderRoute 1 (str "/data") [] (some (str "2")) [.created]] ∅

def latinRequest : ScanRequest :=
  scanRequest latinEvent (makeFolderRoute 1 (str "/data") [] (some (str "2")) [.created])

/-- A client that is always answered. -/
def answering : Client := fun _ _ => .response ⟨200⟩

/-- The folder is not scanned: `quote` raises. -/
theorem latin_not_scanned :
    latinRequest ∈ route asciiLower latinEvent latinConfig ∧
      latinRequest.scanMode = .targeted ∧
      latinRequest.scanPath = some (FileName.absPath false (latinNames.take 2)).toStr ∧
      (PlexAdapter.trigger id answering (makeServerRuntime 1 .off 0) latinRequest).sent = none ∧
      ¬ PlexAdapter.Scans (FileName.pathBytes false (latinNames.take 2))
        (PlexAdapter.trigger id answering (makeServerRuntime 1 .off 0) latinRequest) := by
  have hpath : latinRequest.scanPath = some (FileName.absPath false (latinNames.take 2)).toStr := by
    decide +kernel
  have hquote : quote (FileName.absPath false (latinNames.take 2)).toStr = none := by
    decide +kernel
  have hsent : (PlexAdapter.trigger id answering (makeServerRuntime 1 .off 0) latinRequest).sent =
      none := by
    have hmode : latinRequest.scanMode = .targeted := rfl
    simp only [PlexAdapter.trigger, hmode, hpath, hquote]
  refine ⟨by decide +kernel, rfl, hpath, hsent, ?_⟩
  rintro ⟨request, attempts, h, -⟩
  rw [hsent] at h
  cases h

end MediaScanMonitor
