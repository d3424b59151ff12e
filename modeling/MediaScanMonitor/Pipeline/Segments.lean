import MediaScanMonitor.Library.Posix
import MediaScanMonitor.Pipeline.Router

/-!
# Pipeline — routing by segments

What `router.py` does with strings, told of segment lists.

* `isPathPrefix_iff`, `isIgnored_iff_segments`: the two tests of a route.
* `computeScanPath_extend`: the folder scanned is the route's, with the next segment where
  at least two remain.
* `route_spec`: the requests of an event.
-/

namespace MediaScanMonitor
open Py Posix

/-- A normalised absolute path with a single leading slash. -/
def Normal (p : Str) : Prop :=
  isabs p = true ∧ startswith p [slash, slash] = false ∧ normpath p = p

instance (p : Str) : Decidable (Normal p) := inferInstanceAs (Decidable (_ ∧ _ ∧ _))

/-- The segments of a normalised path: the empty one in front of the first slash, and the names. -/
def segments (p : Str) : List Str := if p = [slash] then [[]] else p.splitOn slash

/-- The path of these names. -/
def pathOf (ns : Loc) : AbsPath := ⟨false, ns⟩

theorem toStr_pathOf (ns : Loc) : (pathOf ns).toStr = slash :: AbsPath.body ns := rfl

theorem normal_iff {p : Str} : Normal p ↔ ∃ ns, p = (pathOf ns).toStr := by
  constructor
  · rintro ⟨habs, hsingle, hnorm⟩
    obtain ⟨⟨dbl, ns⟩, ha⟩ := AbsPath.exists_toStr_of_normpath habs
    rw [hnorm] at ha
    cases dbl with
    | false => exact ⟨ns, ha⟩
    | true =>
        have hdouble : startswith p [slash, slash] = true :=
          startswith_iff.mpr ⟨AbsPath.body ns, ha.symm⟩
        rw [hsingle] at hdouble
        cases hdouble
  · rintro ⟨ns, rfl⟩
    refine ⟨AbsPath.isabs_toStr _, ?_, AbsPath.normpath_toStr _⟩
    rw [Bool.eq_false_iff, Ne, startswith_iff]
    rintro ⟨t, ht⟩
    have hbody : slash :: t = AbsPath.body ns := by simpa [toStr_pathOf] using ht
    refine AbsPath.body_take_ne ns [] (fun _ => by simp) ?_
    rw [List.append_nil, ← hbody]
    rfl

/-- A spelling without its root is empty only where there are no names. -/
theorem body_eq_nil {ns : Loc} (h : AbsPath.body ns = []) : ns = [] := by
  by_contra hne
  have hsplit := AbsPath.splitOn_body hne
  rw [h, List.splitOn_nil] at hsplit
  obtain ⟨n, hn⟩ := List.exists_mem_of_ne_nil ns hne
  have hmem : n.val ∈ [([] : Str)] := hsplit ▸ List.mem_map_of_mem hn
  exact n.ok.1 (List.mem_singleton.mp hmem)

@[simp] theorem segments_pathOf (ns : Loc) :
    segments (pathOf ns).toStr = [] :: ns.map Name.val := by
  rw [segments, toStr_pathOf]
  split
  · rename_i h
    rw [body_eq_nil (List.cons.inj h).2, List.map_nil]
  · rename_i h
    have hne : ns ≠ [] := by
      rintro rfl
      exact h rfl
    rw [← List.nil_append (slash :: _), List.splitOn_append_cons_self, AbsPath.splitOn_body hne,
      List.splitOn_nil]
    rfl

theorem segments_isPrefix {ns ms : Loc} :
    segments (pathOf ns).toStr <+: segments (pathOf ms).toStr ↔ ns <+: ms := by
  rw [segments_pathOf, segments_pathOf, List.cons_prefix_cons,
    List.prefix_map_iff_of_injective fun _ _ => Name.ext]
  simp

theorem endswith_toStr {a : AbsPath} (h : a.segs ≠ []) : endswith a.toStr slash = false := by
  have hbody : AbsPath.body a.segs ≠ [] := fun e => h (body_eq_nil e)
  rw [endswith, AbsPath.toStr, List.getLast?_append_of_ne_nil _ hbody]
  exact decide_eq_false (AbsPath.getLast?_body h)

/-! ### The tests of a route -/

variable {lower : Str → Str} {config : RuntimeConfig} {event event' : FsEvent} {f : FolderRoute}
  {path : Str}

theorem isIgnored_iff_segments {ignoreDirs : List Str} (h : Normal path) :
    isIgnored path ignoreDirs = true ↔ ∃ segment ∈ segments path, segment ∈ ignoreDirs := by
  obtain ⟨ns, rfl⟩ := normal_iff.mp h
  rw [isIgnored_iff]
  refine exists_congr fun segment => and_congr_left fun _ => ?_
  rw [AbsPath.mem_splitOn_toStr, segments_pathOf, List.mem_cons, List.mem_map]
  rfl

theorem isPathPrefix_iff {pre : Str} (hpre : Normal pre) (h : Normal path) :
    isPathPrefix pre path = true ↔ segments pre <+: segments path := by
  obtain ⟨ns, rfl⟩ := normal_iff.mp hpre
  obtain ⟨ms, rfl⟩ := normal_iff.mp h
  rw [segments_isPrefix, isPathPrefix]
  by_cases hns : ns = []
  · subst hns
    have hstart : startswith (pathOf ms).toStr [slash] = true := (pathOf ms).isabs_toStr
    refine iff_of_true ?_ (List.nil_prefix)
    split
    · rfl
    · exact hstart
  · have hle : pathOf ns ≤ pathOf ms ↔ ns <+: ms := by simp [AbsPath.le_def, pathOf]
    rw [← hle, ← AbsPath.eq_or_sep_prefix_toStr hns, ← startswith_iff]
    split
    · rename_i heq
      exact iff_of_true rfl (.inl heq)
    · rename_i hne
      have hend : endswith (pathOf ns).toStr slash = false := endswith_toStr hns
      simp [hend, hne]

/-! ### The folder scanned -/

/-- What the route of names `ns` scans below it: the next name, if at least two remain. -/
def nextName : Loc → Loc
  | n :: _ :: _ => [n]
  | _ => []

theorem nextName_isPrefix (t : Loc) : nextName t <+: t := by
  rcases t with _ | ⟨n, _ | ⟨m, t⟩⟩
  · exact List.prefix_rfl
  · exact List.nil_prefix
  · exact ⟨m :: t, rfl⟩

theorem exists_toStr_append (ns t : Loc) : ∃ k, (pathOf (ns ++ t)).toStr =
    (pathOf ns).toStr ++ List.replicate k slash ++ AbsPath.body t := by
  by_cases ht : t = []
  · exact ⟨0, by simp [ht]⟩
  · by_cases hns : ns = []
    · exact ⟨0, by simp [hns, toStr_pathOf]⟩
    · exact ⟨1, by simp [toStr_pathOf, AbsPath.body_append hns ht]⟩

/-- The folder of the route and one name, as `compute_scan_path` spells it. -/
theorem exists_rstripOf_append (a : AbsPath) (n : Name) :
    ∃ dbl, (a.dbl = false → dbl = false) ∧
      rstripOf slash a.toStr ++ [slash] ++ n.val = (⟨dbl, a.segs ++ [n]⟩ : AbsPath).toStr := by
  by_cases ha : a.segs = []
  · refine ⟨false, fun _ => rfl, ?_⟩
    obtain ⟨dbl, ns⟩ := a
    obtain rfl : ns = [] := ha
    have hroot : rstripOf slash (⟨dbl, []⟩ : AbsPath).toStr = [] := by cases dbl <;> rfl
    have hone : (⟨false, [n]⟩ : AbsPath).toStr = slash :: n.val := by
      rw [AbsPath.toStr, AbsPath.body_singleton]
      rfl
    rw [hroot]
    exact hone.symm
  · refine ⟨a.dbl, fun h => h, ?_⟩
    have hstrip : rstripOf slash a.toStr = a.toStr := by
      refine List.rdropWhile_eq_self_iff.mpr fun hne => ?_
      have hend := endswith_toStr ha
      rw [endswith, List.getLast?_eq_some_getLast hne] at hend
      simpa using hend
    have hroot : (⟨a.dbl, a.segs ++ [n]⟩ : AbsPath).root = a.root := rfl
    rw [hstrip, AbsPath.toStr, AbsPath.toStr, hroot,
      AbsPath.body_append ha (List.cons_ne_nil n []), AbsPath.body_singleton]
    simp

/-- **`compute_scan_path`** on a path that is `t` below the root. -/
theorem exists_computeScanPath {a b : AbsPath} {t : Loc} {k : Nat}
    (hb : b.toStr = a.toStr ++ List.replicate k slash ++ AbsPath.body t) :
    ∃ dbl, (a.dbl = false → dbl = false) ∧
      (computeScanPath a.toStr b.toStr).1 = (⟨dbl, a.segs ++ nextName t⟩ : AbsPath).toStr := by
  have hhead : (AbsPath.body t).head? ≠ some slash := by
    intro h
    obtain ⟨s, hs⟩ := List.head?_eq_some_iff.mp h
    have hne := AbsPath.body_take_ne t [] fun _ => by simp
    rw [List.append_nil, hs] at hne
    exact hne rfl
  have hself : (⟨a.dbl, a.segs ++ []⟩ : AbsPath).toStr = a.toStr := by rw [List.append_nil]
  rw [hb, computeScanPath_append _ k hhead]
  rcases t with _ | ⟨n, _ | ⟨m, t⟩⟩
  · exact ⟨a.dbl, fun h => h, hself.symm⟩
  · refine ⟨a.dbl, fun h => h, ?_⟩
    have hnext : nextName [n] = [] := rfl
    rw [AbsPath.splitOn_body (List.cons_ne_nil n []), hnext, hself]
    rfl
  · rw [AbsPath.splitOn_body (List.cons_ne_nil n _)]
    exact exists_rstripOf_append a n

theorem computeScanPath_extend (ns t : Loc) :
    (computeScanPath (pathOf ns).toStr (pathOf (ns ++ t)).toStr).1 =
      (pathOf (ns ++ nextName t)).toStr := by
  obtain ⟨k, hk⟩ := exists_toStr_append ns t
  obtain ⟨dbl, hdbl, hscan⟩ := exists_computeScanPath hk
  rw [hscan, hdbl rfl]
  rfl

/-! ### The requests of an event -/

/-- What a route has to meet for an event. -/
def Meets (lower : Str → Str) (config : RuntimeConfig) (event : FsEvent) (f : FolderRoute) : Prop :=
  (∀ segment ∈ segments event.path, segment ∉ config.ignoreDirs) ∧
    segments f.path <+: segments event.path ∧
    extensionMatches lower event.path f.extensions = true ∧ event.eventType ∈ f.eventTypes

instance (lower : Str → Str) (config : RuntimeConfig) (event : FsEvent) (f : FolderRoute) :
    Decidable (Meets lower config event f) :=
  inferInstanceAs (Decidable ((∀ segment ∈ segments event.path, _) ∧ _ ∧ _ ∧ _))

/-- The segment of the event that a targeted request adds to its route's: the next one, if at
least two remain. -/
def nextSegment (f : FolderRoute) (event : FsEvent) : List Str :=
  match (segments event.path).drop (segments f.path).length with
  | segment :: _ :: _ => [segment]
  | _ => []

/-- A normalised path of these segments. -/
def Spells (p : Str) (segs : List Str) : Prop := Normal p ∧ segments p = segs

theorem nextSegment_eq (ns t : Loc) {f : FolderRoute} {event : FsEvent}
    (hf : f.path = (pathOf ns).toStr) (he : event.path = (pathOf (ns ++ t)).toStr) :
    nextSegment f event = (nextName t).map Name.val := by
  have hdrop : (segments event.path).drop (segments f.path).length = t.map Name.val := by
    rw [hf, he, segments_pathOf, segments_pathOf, List.map_append]
    simp
  rw [nextSegment, hdrop]
  rcases t with _ | ⟨n, _ | ⟨m, t⟩⟩ <;> rfl

/-- An event under a route, in names. -/
theorem exists_names (hf : Normal f.path) (he : Normal event.path)
    (h : segments f.path <+: segments event.path) :
    ∃ ns t, f.path = (pathOf ns).toStr ∧ event.path = (pathOf (ns ++ t)).toStr := by
  obtain ⟨ns, hns⟩ := normal_iff.mp hf
  obtain ⟨ms, hms⟩ := normal_iff.mp he
  rw [hns, hms, segments_isPrefix] at h
  obtain ⟨t, rfl⟩ := h
  exact ⟨ns, t, hns, hms⟩

theorem targeted_request (event : FsEvent) (hmode : f.scanMode = .targeted) :
    (scanRequest event f).scanPath = some (computeScanPath f.path event.path).1 ∧
      (scanRequest event f).scanKey = (computeScanPath f.path event.path).1 := by
  rw [scanRequest, hmode]
  exact ⟨rfl, rfl⟩

/-- What a targeted route makes of an event under it. -/
theorem targets (hf : Normal f.path) (he : Normal event.path)
    (h : segments f.path <+: segments event.path) :
    Spells (computeScanPath f.path event.path).1 (segments f.path ++ nextSegment f event) := by
  obtain ⟨ns, t, hns, hms⟩ := exists_names hf he h
  rw [nextSegment_eq ns t hns hms, hns, hms, computeScanPath_extend]
  refine ⟨normal_iff.mpr ⟨_, rfl⟩, ?_⟩
  rw [segments_pathOf, segments_pathOf, List.map_append]
  rfl

theorem Normal.ext {p q : Str} (hp : Normal p) (hq : Normal q) (h : segments p = segments q) :
    p = q := by
  obtain ⟨ns, rfl⟩ := normal_iff.mp hp
  obtain ⟨ms, rfl⟩ := normal_iff.mp hq
  rw [segments_pathOf, segments_pathOf, List.cons.injEq] at h
  rw [List.map_injective_iff.mpr (fun _ _ => Name.ext) h.2]

theorem route_eq_map (hroutes : ∀ f ∈ config.routes, Normal f.path) (he : Normal event.path) :
    route lower event config =
      (config.routes.filter fun f => Meets lower config event f).map (scanRequest event) := by
  rw [route]
  split
  · rename_i hign
    obtain ⟨segment, hmem, hdir⟩ := (isIgnored_iff_segments he).mp hign
    have hnone : config.routes.filter (fun f => Meets lower config event f) = [] := by
      refine List.filter_eq_nil_iff.mpr fun f _ hmeets => ?_
      exact (of_decide_eq_true hmeets).1 segment hmem hdir
    rw [hnone, List.map_nil]
  · rename_i hign
    have hclear : ∀ segment ∈ segments event.path, segment ∉ config.ignoreDirs :=
      fun segment hmem hdir => hign ((isIgnored_iff_segments he).mpr ⟨segment, hmem, hdir⟩)
    rw [← List.filterMap_eq_map, List.filterMap_filter]
    refine List.filterMap_congr fun f hf => ?_
    have hpre := isPathPrefix_iff (hroutes f hf) he
    have hmeets : Meets lower config event f ↔ isPathPrefix f.path event.path = true ∧
        extensionMatches lower event.path f.extensions = true ∧
          event.eventType ∈ f.eventTypes := by
      rw [Meets, hpre]
      exact and_iff_right hclear
    by_cases h : Meets lower config event f
    · obtain ⟨h₁, h₂, h₃⟩ := hmeets.mp h
      simp [h, h₁, h₂, h₃]
    · have hno := mt hmeets.mpr h
      simp only [h, decide_false, Bool.false_eq_true, if_false]
      split
      · rfl
      · split
        · rfl
        · split
          · rfl
          · rename_i h₁ h₂ h₃
            exact absurd ⟨by simpa using h₁, by simpa using h₂, by simpa using h₃⟩ hno

/-- **`route` by segments.** -/
theorem route_spec (hroutes : ∀ f ∈ config.routes, Normal f.path) (he : Normal event.path) :
    route lower event config =
        (config.routes.filter fun f => Meets lower config event f).map (scanRequest event) ∧
      ∀ f ∈ config.routes, f.scanMode = .targeted → segments f.path <+: segments event.path →
        (∃ scanPath, (scanRequest event f).scanPath = some scanPath ∧
          (scanRequest event f).scanKey = scanPath ∧
          Spells scanPath (segments f.path ++ nextSegment f event)) ∧
        ∀ event' : FsEvent, Normal event'.path → segments f.path <+: segments event'.path →
          ((scanRequest event' f).scanKey = (scanRequest event f).scanKey ↔
            nextSegment f event' = nextSegment f event) := by
  refine ⟨route_eq_map hroutes he, fun f hf hmode hpre => ?_⟩
  obtain ⟨hpath, hkey⟩ := targeted_request event hmode
  have hspells := targets (hroutes f hf) he hpre
  refine ⟨⟨_, hpath, hkey, hspells⟩, fun event' he' hpre' => ?_⟩
  have hspells' := targets (hroutes f hf) he' hpre'
  rw [(targeted_request event' hmode).2, hkey]
  constructor
  · intro h
    have hsegs := hspells'.2.symm.trans ((congrArg segments h).trans hspells.2)
    exact List.append_cancel_left hsegs
  · intro h
    exact hspells'.1.ext hspells.1 (by rw [hspells'.2, hspells.2, h])

/-- A route on `/`, and one on a sibling of the event's folder. -/
def rootRoute : FolderRoute := makeFolderRoute 1 (str "/") [] none [.created]

def rootConfig : RuntimeConfig :=
  makeRuntimeConfig [rootRoute, makeFolderRoute 2 (str "/data/tv") [] none [.created]] ∅

def siblingEvent : FsEvent := ⟨str "/data/tv2/Show/a.mkv", .created, false⟩

theorem route_spec_root :
    route asciiLower siblingEvent rootConfig = [scanRequest siblingEvent rootRoute] ∧
      ∃ scanPath, (scanRequest siblingEvent rootRoute).scanPath = some scanPath ∧
        Spells scanPath [[], str "data"] := by
  obtain ⟨hroute, htargets⟩ := @route_spec asciiLower rootConfig siblingEvent (by decide +kernel)
    (by decide +kernel)
  obtain ⟨⟨scanPath, hpath, -, hspells⟩, -⟩ :=
    htargets rootRoute (by decide +kernel) rfl (by decide +kernel)
  have hsegments : segments rootRoute.path ++ nextSegment rootRoute siblingEvent =
      [[], str "data"] := by decide +kernel
  rw [hsegments] at hspells
  exact ⟨hroute.trans (by decide +kernel), scanPath, hpath, hspells⟩

end MediaScanMonitor
