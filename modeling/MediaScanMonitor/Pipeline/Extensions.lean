import MediaScanMonitor.Config.Readable
import MediaScanMonitor.Db.Validate
import MediaScanMonitor.Pipeline.Filters

/-!
# Pipeline — the extensions of a folder, end to end

An extension goes through `normalize_extension` where it is validated and where the snapshot is
built, and `extension_matches` compares what comes out with what follows the last dot of a name.

* `mem_routeExtensions`: what of a raw list a route has.
* `extensionMatches_iff`: what a route accepts, without cutting strings.
* `extensions_mean_iff`: when a route accepts what its raw list means.
-/

namespace MediaScanMonitor
open Py

variable {T : CaseTable} {ext : Str} {exts : List Str}

/-! ### What a list of extensions means -/

/-- White space and dots. -/
def junk (c : CodePoint) : Bool := isspace c || c = dot

/-- `ext` without the white space around it and whatever white space and dots are then in front. -/
def fullyBare (ext : Str) : Str := (strip ext).dropWhile junk

/-- The extensions a raw list means: fully bared, in lower case, none of them empty. -/
def meant (T : CaseTable) (exts : List Str) : List Str :=
  (exts.map fun ext => T.lower (fullyBare ext)).filter (· ≠ [])

/-- `p` is of an extension that the list means, if it means any. -/
def Means (T : CaseTable) (exts : List Str) (p : Str) : Prop :=
  meant T exts = [] ∨ ∃ ext ∈ meant T exts, ∃ base, base ≠ [] ∧
    T.lower (afterLast slash p) = base ++ dot :: ext

theorem mem_meant {x : Str} :
    x ∈ meant T exts ↔ x ≠ [] ∧ ∃ ext ∈ exts, T.lower (fullyBare ext) = x := by
  rw [meant, List.mem_filter, List.mem_map, and_comm]
  simp

theorem junk_of_space {c : CodePoint} (h : isspace c = true) : junk c = true := by
  simp [junk, h]

theorem junk_of_dot {c : CodePoint} (h : decide (c = dot) = true) : junk c = true := by
  simpa [junk] using Or.inr h

/-- The white space behind is off before the dots in front are. -/
theorem bare_eq (ext : Str) : bare ext = (lstripOf dot (strip ext)).dropWhile isspace := by
  have hend : rstrip (strip ext) = strip ext := rstrip_rstrip _
  exact rstrip_of_isSuffix ((List.dropWhile_suffix _).trans (List.dropWhile_suffix _)) hend

/-- A pass of the normaliser leaves the rest of the junk in front. -/
theorem fullyBare_bare (ext : Str) : fullyBare (bare ext) = fullyBare ext := by
  rw [fullyBare, strip_bare, bare_eq, dropWhile_dropWhile fun _ => junk_of_space, lstripOf,
    dropWhile_dropWhile fun _ => junk_of_dot, fullyBare]

theorem fullyBare_eq_self (hstrip : strip ext = ext) (hdot : dot ∉ ext) : fullyBare ext = ext := by
  rw [fullyBare, hstrip]
  cases hs : ext with
  | nil => rfl
  | cons c s =>
      have hspace : isspace c = false := head?_strip (s := ext) (by rw [hstrip, hs]; rfl)
      have hne : c ≠ dot := by
        rintro rfl
        exact hdot (hs ▸ List.mem_cons_self)
      exact List.dropWhile_cons_of_neg (by simp [junk, hspace, hne])

/-! ### What the route has -/

/-- The extensions of the route: bared by two passes, if the first one leaves something. -/
def kept (T : CaseTable) (exts : List Str) : List Str :=
  (exts.filter (bare · ≠ [])).map fun ext => T.lower (bare (bare ext))

theorem mem_kept {x : Str} :
    x ∈ kept T exts ↔ ∃ ext ∈ exts, bare ext ≠ [] ∧ T.lower (bare (bare ext)) = x := by
  simp [kept, and_assoc]

/-- What the snapshot makes of what `create_folder` stored. -/
def routeExtensions (T : CaseTable) (exts : List Str) : List Str :=
  ((normalizeExtensions T.lower exts).map (normalizeExtension T.lower)).dedup

theorem mem_routeExtensions {x : Str} : x ∈ routeExtensions T exts ↔ x ∈ kept T exts := by
  rw [routeExtensions, List.mem_dedup, List.mem_map, mem_kept]
  constructor
  · rintro ⟨y, hy, rfl⟩
    obtain ⟨hne, ext, hext, rfl⟩ := mem_normalizeExtensions.mp hy
    rw [normalizeExtension_eq, Ne, CaseTable.lower_eq_nil] at hne
    exact ⟨ext, hext, hne, (normalizeExtension_twice ext).symm⟩
  · rintro ⟨ext, hext, hne, rfl⟩
    refine ⟨_, mem_normalizeExtensions.mpr ⟨?_, ext, hext, rfl⟩, normalizeExtension_twice ext⟩
    rwa [normalizeExtension_eq, Ne, CaseTable.lower_eq_nil]

/-- What a route keeps and a file can have is meant. -/
theorem mem_meant_of_mem_kept {x : Str} (hx : x ∈ kept T exts) (hne : x ≠ []) (hdot : dot ∉ x) :
    x ∈ meant T exts := by
  obtain ⟨ext, hext, -, rfl⟩ := mem_kept.mp hx
  have hbare : dot ∉ bare (bare ext) := fun h => hdot ((CaseTable.mem_lower rfl).mpr h)
  refine mem_meant.mpr ⟨hne, ext, hext, ?_⟩
  rw [← fullyBare_eq_self (strip_bare _) hbare, fullyBare_bare, fullyBare_bare]

/-- A file has an extension where its name has a dot that is not its first character. -/
theorem extensionMatches_iff {lower : Str → Str} {p : Str} (h : exts ≠ []) :
    extensionMatches lower p exts = true ↔ ∃ base rest, base ≠ [] ∧ dot ∉ rest ∧
      afterLast slash p = base ++ dot :: rest ∧ lower rest ∈ exts := by
  rw [extensionMatches, if_neg (by simpa using h)]
  dsimp only
  by_cases hdot : dot ∈ afterLast slash p
  · obtain ⟨base, rest, hrest, hname⟩ := exists_last hdot
    rw [hname, rpartition_append base hrest]
    constructor
    · intro hmatch
      refine ⟨base, rest, ?_, hrest, rfl, ?_⟩
      · rintro rfl
        simp at hmatch
      · exact (by simpa using hmatch : base ≠ [] ∧ lower rest ∈ exts).2
    · rintro ⟨base', rest', hbase, hrest', heq, hmem⟩
      have hr := congrArg (afterLast dot) heq
      rw [afterLast_append base hrest, afterLast_append base' hrest'] at hr
      subst hr
      have hb := List.append_cancel_right heq
      subst hb
      simpa [hbase] using hmem
  · rw [rpartition_of_not_mem hdot]
    refine iff_of_false (by simp) ?_
    rintro ⟨base, rest, -, -, heq, -⟩
    exact hdot (by rw [heq]; simp)

/-! ### When the two agree -/

/-- What makes a route accept what its raw list means. -/
structure MeansWhatItSays (T : CaseTable) (exts : List Str) : Prop where
  /-- What a pass of the normaliser leaves, the next one leaves something of. -/
  lasting : ∀ ext ∈ exts, bare ext ≠ [] → bare (bare ext) ≠ []
  /-- Where nothing but white space and dots is given, one pass leaves nothing. -/
  cleared : (∀ ext ∈ exts, fullyBare ext = []) → ∀ ext ∈ exts, bare ext = []
  /-- What an entry has after its last dot, the route has too. -/
  closed : ∀ ext ∈ exts, fullyBare ext ≠ [] → slash ∉ fullyBare ext →
    afterLast dot (T.lower (fullyBare ext)) ∈ kept T exts
  /-- The route does not tell a `σ` from a `ς` where the name in front of the dot decides. -/
  sigma : ∀ base rest, base ≠ [] → slash ∉ base → slash ∉ rest → dot ∉ rest →
    (T.lower rest ∈ kept T exts ↔ afterLast dot (T.lower (base ++ dot :: rest)) ∈ kept T exts)

theorem kept_eq_nil : kept T exts = [] ↔ ∀ ext ∈ exts, bare ext = [] := by
  simp [kept, List.filter_eq_nil_iff]

theorem meant_eq_nil : meant T exts = [] ↔ ∀ ext ∈ exts, fullyBare ext = [] := by
  simp [meant, List.filter_eq_nil_iff]

/-- What the route accepts. -/
def Takes (T : CaseTable) (exts : List Str) (p : Str) : Prop :=
  kept T exts = [] ∨ ∃ base rest, base ≠ [] ∧ dot ∉ rest ∧
    afterLast slash p = base ++ dot :: rest ∧ T.lower rest ∈ kept T exts

/-- What follows the last dot of a name, in the lower case of the name. -/
theorem exists_lower_name (T : CaseTable) (base : Str) {rest : Str} (hrest : dot ∉ rest) :
    ∃ u b, T.lower (base ++ dot :: rest) = u ++ dot :: T.lowerFrom b rest ∧
      dot ∉ T.lowerFrom b rest ∧ (u = [] ↔ base = []) ∧
      afterLast dot (T.lower (base ++ dot :: rest)) = T.lowerFrom b rest := by
  obtain ⟨u, b, hlower, hnil⟩ := @CaseTable.exists_lower_append T dot rfl base rest
  have hv : dot ∉ T.lowerFrom b rest := fun h => hrest ((CaseTable.mem_lowerFrom rfl).mp h)
  exact ⟨u, b, hlower, hv, hnil, by rw [hlower, afterLast_append u hv]⟩

/-- A route without a sigma tells none apart. -/
theorem sigma_of_none (hsmall : ∀ x ∈ kept T exts, smallSigma ∉ x)
    (hfinal : ∀ x ∈ kept T exts, finalSigma ∉ x) (base : Str) {rest : Str} (hrest : dot ∉ rest) :
    T.lower rest ∈ kept T exts ↔ afterLast dot (T.lower (base ++ dot :: rest)) ∈ kept T exts := by
  obtain ⟨u, b, -, -, -, hlast⟩ := exists_lower_name T base hrest
  rw [hlast]
  constructor
  · intro h
    rwa [CaseTable.lowerFrom_eq_of_no_sigma (hsmall _ h) (hfinal _ h) b]
  · intro h
    rwa [CaseTable.lower, CaseTable.lowerFrom_eq_of_no_sigma (hsmall _ h) (hfinal _ h) false]

theorem MeansWhatItSays.means_of_takes (h : MeansWhatItSays T exts) {p : Str}
    (htakes : Takes T exts p) : Means T exts p := by
  rcases htakes with hnil | ⟨base, rest, hbase, hrest, hname, hmem⟩
  · refine .inl (meant_eq_nil.mpr fun ext hext => ?_)
    rw [← fullyBare_bare, kept_eq_nil.mp hnil ext hext]
    rfl
  · have hslash : slash ∉ base ++ dot :: rest := hname ▸ not_mem_afterLast slash p
    rw [List.mem_append, List.mem_cons, not_or, not_or] at hslash
    obtain ⟨u, b, hlower, hv, hnil, hlast⟩ := exists_lower_name T base hrest
    have hkept := (h.sigma base rest hbase hslash.1 hslash.2.2 hrest).mp hmem
    rw [hlast] at hkept
    generalize T.lowerFrom b rest = v at hlower hv hkept
    have hne : v ≠ [] := by
      obtain ⟨ext, hext, hbare, rfl⟩ := mem_kept.mp hkept
      rw [Ne, CaseTable.lower_eq_nil]
      exact h.lasting ext hext hbare
    exact .inr ⟨v, mem_meant_of_mem_kept hkept hne hv, u, mt hnil.mp hbase, by rw [hname, hlower]⟩

/-- A name that ends in a dot and an extension that is meant ends in a dot and one that is kept. -/
theorem kept_of_lower (hclosed : ∀ ext ∈ exts, fullyBare ext ≠ [] → slash ∉ fullyBare ext →
      afterLast dot (T.lower (fullyBare ext)) ∈ kept T exts)
    {name base : Str} (hslash : slash ∉ name) (hext : ext ∈ meant T exts)
    (hname : T.lower name = base ++ dot :: ext) : afterLast dot (T.lower name) ∈ kept T exts := by
  obtain ⟨hne, e, he, rfl⟩ := mem_meant.mp hext
  rw [hname, afterLast_append_cons]
  refine hclosed e he (mt CaseTable.lower_eq_nil.mpr hne) fun h => hslash ?_
  refine (CaseTable.mem_lower (T := T) rfl).mp ?_
  rw [hname, List.mem_append, List.mem_cons]
  exact .inr (.inr ((CaseTable.mem_lower rfl).mpr h))

theorem MeansWhatItSays.takes_of_means (h : MeansWhatItSays T exts) {p : Str}
    (hmeans : Means T exts p) : Takes T exts p := by
  rcases hmeans with hnil | ⟨ext, hext, base, hbase, hlower⟩
  · exact .inl (kept_eq_nil.mpr (h.cleared (meant_eq_nil.mp hnil)))
  · have hslash := not_mem_afterLast slash p
    have hdot : dot ∈ afterLast slash p := by
      refine (CaseTable.mem_lower (T := T) rfl).mp ?_
      rw [hlower]
      simp
    obtain ⟨front, rest, hrest, hname⟩ := exists_last hdot
    rw [hname] at hlower hslash
    obtain ⟨u, b, hcut, hv, hnil, -⟩ := exists_lower_name T front hrest
    have hfront : front ≠ [] := by
      intro hfront
      rw [hcut, hnil.mpr hfront, List.nil_append] at hlower
      obtain ⟨c, base, rfl⟩ := List.exists_cons_of_ne_nil hbase
      rw [List.cons_append, List.cons.injEq] at hlower
      exact hv (by rw [hlower.2]; simp)
    have hkept := kept_of_lower h.closed hslash hext hlower
    rw [List.mem_append, List.mem_cons, not_or, not_or] at hslash
    exact .inr ⟨front, rest, hfront, hrest, hname,
      (h.sigma front rest hfront hslash.1 hslash.2.2 hrest).mpr hkept⟩

/-- The file `name` right under the root. -/
theorem afterLast_root {name : Str} (h : slash ∉ name) : afterLast slash (slash :: name) = name :=
  afterLast_append [] h

theorem smallSigma_ne : smallSigma ≠ slash ∧ smallSigma ≠ dot := by decide

section
variable (h : ∀ p, Takes T exts p ↔ Means T exts p)
include h

/-- A route of a list that means nothing takes the path of no name, too. -/
theorem kept_eq_nil_of_forall (hnil : meant T exts = []) : kept T exts = [] := by
  rcases (h []).mpr (.inl hnil) with hkept | ⟨base, rest, -, -, hname, -⟩
  · exact hkept
  · have hlen := congrArg List.length hname
    simp [afterLast] at hlen

/-- A file `σ.ext` in lower case. -/
theorem closed_of_forall (hne : fullyBare ext ≠ []) (hext : ext ∈ exts)
    (hslash : slash ∉ fullyBare ext) : afterLast dot (T.lower (fullyBare ext)) ∈ kept T exts := by
  have hmeant : T.lower (fullyBare ext) ∈ meant T exts :=
    mem_meant.mpr ⟨mt CaseTable.lower_eq_nil.mp hne, ext, hext, rfl⟩
  have hsettled : ∀ c ∈ T.lower (fullyBare ext), T.Settled c :=
    fun c => CaseTable.settled_of_mem_lowerFrom
  have hslash' : slash ∉ T.lower (fullyBare ext) := mt (CaseTable.mem_lower rfl).mp hslash
  generalize T.lower (fullyBare ext) = x at hmeant hsettled hslash'
  have hname : slash ∉ [smallSigma] ++ dot :: x := by
    simpa [hslash', smallSigma_ne.1.symm] using (by decide : slash ≠ dot)
  -- no character of the name changes case, so `means` reads the name as it stands
  have hlower : ∀ c ∈ [smallSigma] ++ dot :: x, T.Settled c := by
    intro c hc
    rw [List.mem_append, List.mem_singleton, List.mem_cons] at hc
    rcases hc with rfl | rfl | hc
    · exact CaseTable.settled_smallSigma
    · exact CaseTable.settled_of_separator rfl
    · exact hsettled c hc
  have hmeans : Means T exts (slash :: ([smallSigma] ++ dot :: x)) := by
    refine .inr ⟨x, hmeant, [smallSigma], List.cons_ne_nil _ _, ?_⟩
    rw [afterLast_root hname]
    exact CaseTable.lowerFrom_of_settled hlower
  rcases (h _).mpr hmeans with hnil | ⟨base, rest, -, hrest, hcut, hmem⟩
  · rw [← fullyBare_bare, kept_eq_nil.mp hnil ext hext] at hne
    exact absurd rfl hne
  · rw [afterLast_root hname] at hcut
    have hx : afterLast dot x = rest := by
      have hlast := congrArg (afterLast dot) hcut
      rwa [afterLast_append_cons, afterLast_append base hrest] at hlast
    have hself : T.lower rest = rest := by
      refine CaseTable.lowerFrom_of_settled fun c hc => hlower c ?_
      rw [hcut, List.mem_append, List.mem_cons]
      exact .inr (.inr hc)
    rwa [hx, ← hself]

/-- A file `σ.`. -/
theorem lasting_of_forall (hext : ext ∈ exts) (hne : bare ext ≠ []) : bare (bare ext) ≠ [] := by
  intro hnil
  have hkept : [] ∈ kept T exts := mem_kept.mpr ⟨ext, hext, hne, by rw [hnil]; rfl⟩
  have hname : slash ∉ [smallSigma] ++ [dot] := by decide
  have htakes : Takes T exts (slash :: ([smallSigma] ++ [dot])) :=
    .inr ⟨[smallSigma], [], List.cons_ne_nil _ _, List.not_mem_nil, afterLast_root hname, hkept⟩
  rcases (h _).mp htakes with hnone | ⟨x, hx, base, hbase, hlower⟩
  · rw [kept_eq_nil_of_forall h hnone] at hkept
    cases hkept
  · have hself : T.lower ([smallSigma] ++ [dot]) = [smallSigma] ++ [dot] := by
      refine CaseTable.lowerFrom_of_settled fun c hc => ?_
      rcases List.mem_pair.mp hc with rfl | rfl
      · exact CaseTable.settled_smallSigma
      · exact CaseTable.settled_of_separator rfl
    rw [afterLast_root hname, hself] at hlower
    have hlen := congrArg List.length hlower
    have hx' := List.length_pos_of_ne_nil (mem_meant.mp hx).1
    have hbase' := List.length_pos_of_ne_nil hbase
    simp at hlen
    omega

theorem sigma_of_forall {base rest : Str} (hbase : base ≠ []) (hslash : slash ∉ base)
    (hslash' : slash ∉ rest) (hrest : dot ∉ rest) :
    T.lower rest ∈ kept T exts ↔
      afterLast dot (T.lower (base ++ dot :: rest)) ∈ kept T exts := by
  have hname : slash ∉ base ++ dot :: rest := by
    rw [List.mem_append, List.mem_cons, not_or, not_or]
    exact ⟨hslash, by decide, hslash'⟩
  have hroot := afterLast_root hname
  obtain ⟨u, b, hlower, hv, hu, hlast⟩ := exists_lower_name T base hrest
  constructor
  · intro hmem
    have htakes : Takes T exts (slash :: (base ++ dot :: rest)) :=
      .inr ⟨base, rest, hbase, hrest, hroot, hmem⟩
    rcases (h _).mp htakes with hnone | ⟨x, hx, front, -, hx'⟩
    · rw [kept_eq_nil_of_forall h hnone] at hmem
      cases hmem
    · rw [hroot] at hx'
      exact kept_of_lower (fun ext hext hne => closed_of_forall h hne hext) hname hx hx'
  · intro hmem
    rw [hlast] at hmem
    generalize T.lowerFrom b rest = v at hlower hv hmem
    have hne : v ≠ [] := by
      obtain ⟨ext, hext, hbare, rfl⟩ := mem_kept.mp hmem
      exact mt CaseTable.lower_eq_nil.mp (lasting_of_forall h hext hbare)
    have hmeans : Means T exts (slash :: (base ++ dot :: rest)) :=
      .inr ⟨v, mem_meant_of_mem_kept hmem hne hv, u, mt hu.mp hbase, by rw [hroot, hlower]⟩
    rcases (h _).mpr hmeans with hnone | ⟨front, rest', -, hrest', hcut, hmem'⟩
    · rw [hnone] at hmem
      cases hmem
    · rw [hroot] at hcut
      have hr := congrArg (afterLast dot) hcut
      rw [afterLast_append base hrest, afterLast_append front hrest'] at hr
      rwa [hr]

theorem meansWhatItSays_of_forall : MeansWhatItSays T exts where
  lasting _ hext hne := lasting_of_forall h hext hne
  cleared hall := kept_eq_nil.mp (kept_eq_nil_of_forall h (meant_eq_nil.mpr hall))
  closed _ hext hne hslash := closed_of_forall h hne hext hslash
  sigma _ _ hbase hslash hslash' hrest := sigma_of_forall h hbase hslash hslash' hrest

end

theorem takes_iff_means : (∀ p, Takes T exts p ↔ Means T exts p) ↔ MeansWhatItSays T exts :=
  ⟨meansWhatItSays_of_forall, fun h _ => ⟨h.means_of_takes, h.takes_of_means⟩⟩

/-! ### The route of a stored folder -/

theorem extensionMatches_routeExtensions (p : Str) :
    extensionMatches T.lower p (routeExtensions T exts) = true ↔ Takes T exts p := by
  by_cases hnil : kept T exts = []
  · have hroute : routeExtensions T exts = [] :=
      List.eq_nil_iff_forall_not_mem.mpr fun x hx => by
        rw [mem_routeExtensions, hnil] at hx
        cases hx
    rw [hroute]
    exact iff_of_true rfl (.inl hnil)
  · have hroute : routeExtensions T exts ≠ [] := by
      obtain ⟨x, hx⟩ := List.exists_mem_of_ne_nil _ hnil
      exact List.ne_nil_of_mem (mem_routeExtensions.mpr hx)
    simp only [extensionMatches_iff hroute, mem_routeExtensions, Takes, hnil, false_or]

variable {store store' later : Store} {raw data : FolderCreate} {folder : Folder} {server : Server}
  {serverId : Int} {box : SecretBox} {config : RuntimeConfig}

/-- **What a raw list of extensions means** is what the route of the folder accepts, for every
path, exactly when `MeansWhatItSays`. -/
theorem extensions_mean_iff (hdata : raw.validate T.lower = some data)
    (hcreate : store.createFolder serverId data = .ok (store', folder))
    (hfolder : folder ∈ (later.listFolders server.id).filter (·.enabled))
    (hserver : server ∈ later.listServers)
    (hbuild : buildRuntimeConfig T.lower box later = some config) :
    ∃ route ∈ config.routes, server.folderRoute T.lower folder = some route ∧
      ((∀ p, extensionMatches T.lower p route.extensions = true ↔ Means T raw.extensions p) ↔
        MeansWhatItSays T raw.extensions) := by
  obtain ⟨route, hroute, hmem, -⟩ := (holds_of_build hbuild hserver).folders folder hfolder
  refine ⟨route, hmem, hroute, ?_⟩
  have hexts : route.extensions = routeExtensions T raw.extensions := by
    obtain ⟨eventTypes, -, rfl⟩ := Option.map_eq_some_iff.mp hroute
    have hstored : folder.filetypes = data.extensions :=
      congrArg Folder.filetypes (Store.createFolder_eq_ok _ hcreate).1
    rw [routeExtensions, ← FolderCreate.validate_extensions hdata, ← hstored]
  simp only [hexts, extensionMatches_routeExtensions]
  exact takes_iff_means

/-- Extensions with dots and white space around them, and an entry that is nothing else. -/
def spelledExts : List Str := [str " .MKV ", str "..srt", str ". .Ass", str " . "]

theorem spelledExts_mean : MeansWhatItSays CaseTable.ascii spelledExts where
  lasting := by decide +kernel
  cleared := by decide +kernel
  closed := by decide +kernel
  sigma base _ _ _ _ hrest :=
    sigma_of_none (by decide +kernel) (by decide +kernel) base hrest

def spelledFolder : FolderCreate := rawFolder [str "mkv", str "srt", str ".ass"]

theorem extensions_mean_spelled :
    ∃ config, buildRuntimeConfig CaseTable.ascii.lower markBox (storedFolder spelledFolder) =
        some config ∧
      ∃ route ∈ config.routes, ∀ p,
        extensionMatches CaseTable.ascii.lower p route.extensions = true ↔
          Means CaseTable.ascii spelledExts p := by
  obtain ⟨store', hcreate⟩ := @createFolder_newServer spelledFolder (by decide +kernel)
  obtain ⟨server, hserver, hid⟩ :
      ∃ server ∈ (storedFolder spelledFolder).listServers, server.id = 1 := by decide +kernel
  have hfolder : spelledFolder.row 1 1 ∈
      ((storedFolder spelledFolder).listFolders server.id).filter (·.enabled) := by
    rw [hid]
    decide +kernel
  obtain ⟨config, hbuild⟩ := Option.isSome_iff_exists.mp (by decide +kernel :
    (buildRuntimeConfig CaseTable.ascii.lower markBox (storedFolder spelledFolder)).isSome)
  have hdata : (rawFolder spelledExts).validate CaseTable.ascii.lower = some spelledFolder := by
    decide +kernel
  obtain ⟨route, hmem, -, hiff⟩ := extensions_mean_iff hdata hcreate hfolder hserver hbuild
  exact ⟨config, hbuild, route, hmem, hiff.mpr spelledExts_mean⟩

def gzFolder : FolderCreate := rawFolder [str "tar.gz"]

/-- `tar.gz` is stored and kept in the route, and no name has it after its last dot. -/
theorem tar_gz_not_accepted :
    gzFolder.validate CaseTable.ascii.lower = some gzFolder ∧
      ((buildRuntimeConfig CaseTable.ascii.lower markBox (storedFolder gzFolder)).map fun config =>
        config.routes.map fun route => (route.extensions,
          extensionMatches CaseTable.ascii.lower (str "/data/tv/x.tar.gz") route.extensions)) =
            some [([str "tar.gz"], false)] ∧
      Means CaseTable.ascii gzFolder.extensions (str "/data/tv/x.tar.gz") := by
  refine ⟨by decide +kernel, by decide +kernel, .inr ⟨str "tar.gz", by decide +kernel, str "x", ?_⟩⟩
  decide +kernel

end MediaScanMonitor
