import MediaScanMonitor.Pipeline.Filters

/-!
# Pipeline — `router.py`

`route` maps an event to one scan request for each route that accepts it.

* `computeScanPath_eq_iff`: the folder scanned for a path, told without cutting strings.
* `mem_route`: a request comes from a route that accepts the event.
-/

namespace MediaScanMonitor
open Py

/-- `compute_scan_path`. -/
def computeScanPath (folderRoot filePath : Str) : Str × Option Str :=
  let relative := lstripOf slash (filePath.drop folderRoot.length)
  match relative.splitOn slash with
  | topFolder :: _ :: _ => (rstripOf slash folderRoot ++ [slash] ++ topFolder, some topFolder)
  | _ => (folderRoot, none)

/-- `_is_path_prefix`. -/
def isPathPrefix (pre path : Str) : Bool :=
  if path = pre then true
  else
    let prefixWithSep := if endswith pre slash then pre else pre ++ [slash]
    startswith path prefixWithSep

/-- `f"{library_id}"`. -/
def formatId : Option Str → Str
  | some libraryId => libraryId
  | none => str "None"

/-- The request `route` appends for a route. -/
def scanRequest (event : FsEvent) (folderRoute : FolderRoute) : ScanRequest :=
  let (scanPath, topFolder, scanKey) :=
    match folderRoute.scanMode with
    | .targeted =>
      let (scanPath, topFolder) := computeScanPath folderRoute.path event.path
      (some scanPath, topFolder, scanPath)
    | .library => (none, none, str "lib:" ++ formatId folderRoute.libraryId)
  { serverId := folderRoute.serverId
    serverName := folderRoute.serverName
    scanMode := folderRoute.scanMode
    scanPath := scanPath
    libraryId := folderRoute.libraryId
    scanKey := scanKey
    eventType := event.eventType
    filePath := event.path
    topFolder := topFolder }

/-- `route`. -/
def route (lower : Str → Str) (event : FsEvent) (config : RuntimeConfig) : List ScanRequest :=
  if isIgnored event.path config.ignoreDirs then []
  else
    config.routes.filterMap fun folderRoute =>
      if !isPathPrefix folderRoute.path event.path then none
      else if !extensionMatches lower event.path folderRoute.extensions then none
      else if event.eventType ∉ folderRoute.eventTypes then none
      else some (scanRequest event folderRoute)

/-! ### The folder scanned -/

variable {lower : Str → Str} {config : RuntimeConfig} {event : FsEvent} {f : FolderRoute}
  {root path dir : Str} {r : ScanRequest}

/-- `dir` is the folder scanned for `path` below `root`: `root` itself for an entry directly in
it, and `root` with the next segment of `path` for anything deeper. -/
def ScansAs (root path dir : Str) : Prop :=
  (∃ k name, slash ∉ name ∧ path = root ++ List.replicate k slash ++ name ∧ dir = root) ∨
    ∃ k top rest, top ≠ [] ∧ slash ∉ top ∧
      path = root ++ List.replicate k slash ++ (top ++ slash :: rest) ∧
      dir = rstripOf slash root ++ [slash] ++ top

/-- A string has no `/`, or it is cut at the first one. -/
theorem not_mem_or_split (s : Str) :
    slash ∉ s ∨ ∃ top rest, slash ∉ top ∧ s = top ++ slash :: rest := by
  by_cases h : slash ∈ s
  · obtain ⟨top, rest, e, htop⟩ := List.eq_append_cons_of_mem h
    exact .inr ⟨top, rest, htop, e⟩
  · exact .inl h

/-- What `compute_scan_path` makes of what is left of the path below the root. -/
theorem computeScanPath_append (root : Str) (k : Nat) {s : Str} (h : s.head? ≠ some slash) :
    computeScanPath root (root ++ List.replicate k slash ++ s) =
      match s.splitOn slash with
      | topFolder :: _ :: _ => (rstripOf slash root ++ [slash] ++ topFolder, some topFolder)
      | _ => (root, none) := by
  rw [computeScanPath, List.append_assoc, List.drop_left, lstripOf_append k h]

theorem computeScanPath_of_not_mem (root : Str) (k : Nat) {name : Str} (h : slash ∉ name) :
    computeScanPath root (root ++ List.replicate k slash ++ name) = (root, none) := by
  have hhead : name.head? ≠ some slash := fun e => h (List.mem_of_head? e)
  rw [computeScanPath_append root k hhead, List.splitOn_eq_singleton h]

theorem computeScanPath_of_split (root : Str) (k : Nat) {top rest : Str} (hne : top ≠ [])
    (htop : slash ∉ top) :
    computeScanPath root (root ++ List.replicate k slash ++ (top ++ slash :: rest)) =
      (rstripOf slash root ++ [slash] ++ top, some top) := by
  have hhead : (top ++ slash :: rest).head? ≠ some slash := by
    obtain ⟨c, top, rfl⟩ := List.exists_cons_of_ne_nil hne
    rintro ⟨⟩
    exact htop List.mem_cons_self
  rw [computeScanPath_append root k hhead, List.splitOn_append_cons_self,
    List.splitOn_eq_singleton htop]
  cases hrest : rest.splitOn slash with
  | nil => exact absurd hrest (List.splitOn_ne_nil slash rest)
  | cons segment segments => rfl

/-- **`compute_scan_path`** scans `dir` for a path below the root exactly when `ScansAs` says so. -/
theorem computeScanPath_eq_iff (h : root <+: path) :
    (computeScanPath root path).1 = dir ↔ ScansAs root path dir := by
  obtain ⟨tail, rfl⟩ := h
  have hcut := eq_append_lstripOf slash tail
  generalize (tail.takeWhile (· = slash)).length = k at hcut
  have hhead := head?_lstripOf slash tail
  generalize lstripOf slash tail = s at hcut hhead
  subst hcut
  constructor
  · rintro rfl
    rcases not_mem_or_split s with hs | ⟨top, rest, htop, rfl⟩
    · refine .inl ⟨k, s, hs, by simp, ?_⟩
      rw [← List.append_assoc, computeScanPath_of_not_mem root k hs]
    · have hne : top ≠ [] := by
        rintro rfl
        exact hhead rfl
      refine .inr ⟨k, top, rest, hne, htop, by simp, ?_⟩
      rw [← List.append_assoc, computeScanPath_of_split root k hne htop]
  · rintro (⟨j, name, hname, e, rfl⟩ | ⟨j, top, rest, hne, htop, e, rfl⟩)
    · rw [e, computeScanPath_of_not_mem dir j hname]
    · rw [e, computeScanPath_of_split root j hne htop]

theorem prefix_of_isPathPrefix (h : isPathPrefix root path = true) : root <+: path := by
  rw [isPathPrefix] at h
  split at h
  · rename_i e
    exact e ▸ List.prefix_rfl
  · have h' := startswith_iff.mp h
    split at h'
    · exact h'
    · exact (List.prefix_append _ _).trans h'

/-! ### The requests of an event -/

/-- The route accepts events at `path`, of the types it subscribes to. -/
structure Accepts (lower : Str → Str) (config : RuntimeConfig) (f : FolderRoute) (path : Str) :
    Prop where
  notIgnored : isIgnored path config.ignoreDirs = false
  below : isPathPrefix f.path path = true
  extension : extensionMatches lower path f.extensions = true

theorem mem_route : r ∈ route lower event config ↔ ∃ f ∈ config.routes,
    Accepts lower config f event.path ∧ event.eventType ∈ f.eventTypes ∧
      r = scanRequest event f := by
  rw [route]
  cases hign : isIgnored event.path config.ignoreDirs with
  | true =>
      refine iff_of_false (by simp) ?_
      rintro ⟨f, -, ⟨hno, -, -⟩, -⟩
      rw [hign] at hno
      cases hno
  | false =>
      simp only [Bool.false_eq_true, ↓reduceIte, List.mem_filterMap]
      refine exists_congr fun f => and_congr_right fun _ => ?_
      constructor
      · intro h
        split at h
        · cases h
        · split at h
          · cases h
          · split at h
            · cases h
            · rename_i hpre hext htype
              cases h
              exact ⟨⟨hign, by simpa using hpre, by simpa using hext⟩, by simpa using htype, rfl⟩
      · rintro ⟨⟨-, hpre, hext⟩, htype, rfl⟩
        simp [hpre, hext, htype]

/-- `key` is the debounce key of a request that `f` makes at `path`. -/
def Keyed (f : FolderRoute) (path key : Str) : Prop :=
  match f.scanMode with
  | .targeted => ScansAs f.path path key
  | .library => key = str "lib:" ++ formatId f.libraryId

theorem scanKey_eq_iff (h : f.path <+: event.path) {key : Str} :
    (scanRequest event f).scanKey = key ↔ Keyed f event.path key := by
  rw [scanRequest, Keyed]
  cases f.scanMode with
  | targeted => exact computeScanPath_eq_iff h
  | library => exact eq_comm

/-- A request's scan path follows from its mode and its key. -/
theorem scanPath_scanRequest (event : FsEvent) (f : FolderRoute) :
    (scanRequest event f).scanPath =
      match f.scanMode with
      | .targeted => some (scanRequest event f).scanKey
      | .library => none := by
  rw [scanRequest]
  cases f.scanMode <;> rfl

/-- A request's key follows from its target. -/
theorem scanKey_scanRequest (event : FsEvent) (f : FolderRoute) :
    (scanRequest event f).scanKey =
      match (scanRequest event f).scanPath with
      | some scanPath => scanPath
      | none => str "lib:" ++ formatId (scanRequest event f).libraryId := by
  rw [scanRequest]
  cases f.scanMode <;> rfl

end MediaScanMonitor
