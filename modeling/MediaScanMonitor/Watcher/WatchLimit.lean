import MediaScanMonitor.Watcher.Exact
import Mathlib.Data.List.Perm.Subperm

/-!
# Watcher — the watch-limit gate

`watcher/watch_limit.py` counts the directories a configuration will watch, root by root.

* `watchCount_le_countDirs`: the count is never below the number of watches `set_roots` makes.
* `countDirs_eq_iff`: it is that number exactly when no existing root is ignored and none lies
  under another.
-/

namespace MediaScanMonitor
open Py Posix Inotify

/-! ### Counting without repetition -/

/-- A list without repetition is as long as one that holds its elements exactly when the longer
list repeats nothing and holds nothing else. -/
theorem length_eq_iff_of_subset {α : Type*} {k l : List α} (hk : k.Nodup) (h : k ⊆ l) :
    l.length = k.length ↔ l.Nodup ∧ l ⊆ k := by
  have hsub : k.Subperm l := List.subperm_of_subset hk h
  constructor
  · intro hlen
    have hperm : k.Perm l := hsub.perm_of_length_le hlen.le
    exact ⟨hperm.nodup_iff.mp hk, hperm.symm.subset⟩
  · rintro ⟨hl, hlk⟩
    exact ((List.subperm_of_subset hl hlk).antisymm hsub).length_eq

namespace World
variable {fs : Fs} {ign : List Str} {a d : AbsPath} {R : List Str} {p : Str}

/-- `count_dirs`. -/
def countDirs (fs : Fs) (roots : List Str) (ignoreDirs : List Str) : Nat :=
  roots.foldl (fun total root =>
    if fs.isDir (parse root).segs then
      (osWalk ignoreDirs fs fs.height root).foldl (fun total _ => total + 1) total
    else total) 0

/-- The number of watches a backend holds. -/
def watchCount (w : World) : Nat := w.watches.keys.length

/-- No existing root is ignored, and none lies under another existing root. -/
structure Unnested (fs : Fs) (ign : List Str) (R : List Str) : Prop where
  notIgnored : ∀ r ∈ R, fs.isDir (parse r).segs = true → isIgnored ign r = false
  apart : ∀ r ∈ R, ∀ r' ∈ R, fs.isDir (parse r).segs = true → fs.isDir (parse r').segs = true →
    parse r ≤ parse r' → r = r'

/-! ### What is counted -/

/-- The directories `count_dirs` counts, in its order. -/
def counted (fs : Fs) (ign : List Str) (R : List Str) : List Str :=
  (R.filter fun r => fs.isDir (parse r).segs).flatMap fun r =>
    (osWalk ign fs fs.height r).map Prod.fst

theorem countDirs_eq_length : countDirs fs R ign = (counted fs ign R).length := by
  have hwalk : ∀ (entries : List (Str × List Name)) (total : Nat),
      entries.foldl (fun total _ => total + 1) total = total + entries.length := by
    intro entries
    induction entries with
    | nil => simp
    | cons entry entries ih =>
        intro total
        rw [List.foldl_cons, ih, List.length_cons]
        omega
  have key : ∀ (R : List Str) (total : Nat),
      R.foldl (fun total root =>
        if fs.isDir (parse root).segs then
          (osWalk ign fs fs.height root).foldl (fun total _ => total + 1) total
        else total) total = total + (counted fs ign R).length := by
    intro R
    induction R with
    | nil => simp [counted]
    | cons r R ih =>
        intro total
        rw [List.foldl_cons, ih]
        simp only [counted, List.filter_cons]
        split
        · rw [hwalk, List.flatMap_cons, List.length_append, List.length_map, Nat.add_assoc]
        · rfl
  exact (key R 0).trans (Nat.zero_add _)

theorem mem_walked : p ∈ (osWalk ign fs fs.height a.toStr).map Prod.fst ↔
    ∃ d, Visits ign fs a d ∧ p = d.toStr := by
  constructor
  · intro hp
    obtain ⟨t, rfl⟩ := fst_mem_osWalk hp
    obtain ⟨⟨s, files⟩, hmem, hs⟩ := List.mem_map.mp hp
    dsimp only at hs
    subst hs
    exact ⟨a.extend t, visits_iff_mem_osWalk.mpr ⟨files, hmem⟩, rfl⟩
  · rintro ⟨d, hd, rfl⟩
    obtain ⟨files, hmem⟩ := visits_iff_mem_osWalk.mp hd
    exact List.mem_map.mpr ⟨_, hmem, rfl⟩

theorem mem_counted (hR : ∀ r ∈ R, Normalized r) : p ∈ counted fs ign R ↔
    ∃ r ∈ R, fs.isDir (parse r).segs = true ∧ ∃ d, Visits ign fs (parse r) d ∧ p = d.toStr := by
  simp only [counted, List.mem_flatMap, List.mem_filter, and_assoc]
  refine exists_congr fun r => and_congr_right fun hr => and_congr_right fun _ => ?_
  obtain ⟨a, rfl⟩ := (hR r hr).spelled
  rw [AbsPath.parse_toStr, mem_walked]

/-! ### What is watched -/

section
variable (hnames : ∀ l, fs.node l ≠ none → ∀ n ∈ l, rstrip n.val = n.val)
  (hR : ∀ r ∈ R, Normalized r)
include hnames hR

theorem mem_keys_setRoots : p ∈ ((fresh fs).setRoots ign R).watches.keys ↔
    ∃ r ∈ R, fs.isDir (parse r).segs = true ∧ isIgnored ign r = false ∧
      ∃ d, Inside fs ign (parse r) d ∧ p = d.toStr := by
  rw [AList.mem_keys.symm, show p ∈ ((fresh fs).setRoots ign R).watches ↔ p ∈ watched fs ign [R]
    from Iff.rfl, mem_watched_singleton hR]
  refine exists_congr fun r => and_congr_right fun hr => and_congr_right fun _ =>
    and_congr_right fun hi => ?_
  obtain ⟨a, rfl⟩ := (hR r hr).spelled
  rw [AbsPath.parse_toStr]
  constructor
  · rintro ⟨d, hd, rfl, -, -⟩
    have hinside := (visits_iff_inside hi).mp hd
    have htrim : d.trim = d := clean_of_names hnames (Fs.node_ne_none_of_isDir hinside.isDir)
    exact ⟨d, hinside, by rw [htrim]⟩
  · rintro ⟨d, hd, rfl⟩
    exact attaches_of_clean hd.le hd.isDir hd.notIgnored
      (clean_of_names hnames (Fs.node_ne_none_of_isDir hd.isDir))

/-- Every watch is counted. -/
theorem keys_subset_counted : ((fresh fs).setRoots ign R).watches.keys ⊆ counted fs ign R := by
  intro p hp
  obtain ⟨r, hr, hdir, -, d, hd, rfl⟩ := (mem_keys_setRoots hnames hR).mp hp
  exact (mem_counted hR).mpr ⟨r, hr, hdir, d, visits_of_le hd.le hd.isDir hd.notIgnored, rfl⟩

/-- **The count is never too small.** -/
theorem watchCount_le_countDirs :
    ((fresh fs).setRoots ign R).watchCount ≤ countDirs fs R ign := by
  rw [countDirs_eq_length]
  exact (List.subperm_of_subset (AList.keys_nodup _) (keys_subset_counted hnames hR)).length_le

/-- What is counted is watched when no existing root is ignored. -/
theorem counted_subset_keys_iff : counted fs ign R ⊆ ((fresh fs).setRoots ign R).watches.keys ↔
    ∀ r ∈ R, fs.isDir (parse r).segs = true → isIgnored ign r = false := by
  constructor
  · intro h r hr hdir
    obtain ⟨a, rfl⟩ := (hR r hr).spelled
    have hself : a.toStr ∈ counted fs ign R := by
      refine (mem_counted hR).mpr ⟨_, hr, hdir, a, ?_, rfl⟩
      rw [AbsPath.parse_toStr] at hdir ⊢
      exact ⟨[], by simp, by simp, hdir⟩
    obtain ⟨_, -, -, -, d, hd, heq⟩ := (mem_keys_setRoots hnames hR).mp (h hself)
    rw [heq]
    exact hd.notIgnored
  · intro h p hp
    obtain ⟨r, hr, hdir, d, hd, rfl⟩ := (mem_counted hR).mp hp
    refine (mem_keys_setRoots hnames hR).mpr ⟨r, hr, hdir, h r hr hdir, d, ?_, rfl⟩
    obtain ⟨a, rfl⟩ := (hR r hr).spelled
    have hi := h _ hr hdir
    rw [AbsPath.parse_toStr] at hd ⊢
    exact (visits_iff_inside hi).mp hd

end

/-- Nothing is counted twice when no existing root lies under another. -/
theorem nodup_counted_iff (hR : ∀ r ∈ R, Normalized r) (hnodup : R.Nodup)
    (hign : ∀ r ∈ R, fs.isDir (parse r).segs = true → isIgnored ign r = false) :
    (counted fs ign R).Nodup ↔ ∀ r ∈ R, ∀ r' ∈ R, fs.isDir (parse r).segs = true →
      fs.isDir (parse r').segs = true → parse r ≤ parse r' → r = r' := by
  have hwalked : ∀ r ∈ R.filter fun r => fs.isDir (parse r).segs, ∀ p,
      p ∈ (osWalk ign fs fs.height r).map Prod.fst ↔
        ∃ d, Inside fs ign (parse r) d ∧ p = d.toStr := by
    intro r hr p
    obtain ⟨hr, hdir⟩ := List.mem_filter.mp hr
    have hi := hign r hr hdir
    obtain ⟨a, rfl⟩ := (hR r hr).spelled
    rw [mem_walked, AbsPath.parse_toStr]
    exact exists_congr fun d => and_congr_left fun _ => visits_iff_inside hi
  rw [counted, List.nodup_flatMap]
  constructor
  · rintro ⟨-, hpair⟩ r hr r' hr' hdir hdir' hle
    by_contra hne
    have hsymm : Std.Symm (Function.onFun List.Disjoint
        fun r => (osWalk ign fs fs.height r).map Prod.fst) := ⟨fun _ _ h => h.symm⟩
    have hin : r ∈ R.filter fun r => fs.isDir (parse r).segs := List.mem_filter.mpr ⟨hr, hdir⟩
    have hin' : r' ∈ R.filter fun r => fs.isDir (parse r).segs :=
      List.mem_filter.mpr ⟨hr', hdir'⟩
    have hi : isIgnored ign (parse r').toStr = false := by
      obtain ⟨a, rfl⟩ := (hR r' hr').spelled
      rw [AbsPath.parse_toStr]
      exact hign _ hr' hdir'
    -- the lower of the two roots is counted in both walks
    exact hpair.forall hin hin' hne
      ((hwalked r hin _).mpr ⟨parse r', ⟨hle, hdir', hi⟩, rfl⟩)
      ((hwalked r' hin' _).mpr ⟨parse r', ⟨le_rfl, hdir', hi⟩, rfl⟩)
  · intro hapart
    refine ⟨fun r hr => ?_, (hnodup.filter _).pairwise_of_forall_ne fun r hr r' hr' hne => ?_⟩
    · obtain ⟨a, rfl⟩ := (hR r (List.mem_filter.mp hr).1).spelled
      exact nodup_osWalk _ a
    · intro p hp hp'
      obtain ⟨d, hd, rfl⟩ := (hwalked r hr p).mp hp
      obtain ⟨d', hd', heq⟩ := (hwalked r' hr' _).mp hp'
      rw [← AbsPath.toStr_injective heq] at hd'
      obtain ⟨hr, hdir⟩ := List.mem_filter.mp hr
      obtain ⟨hr', hdir'⟩ := List.mem_filter.mp hr'
      -- two roots above one directory: one of them is above the other
      rcases List.prefix_or_prefix_of_prefix hd.le.2 hd'.le.2 with hsegs | hsegs
      · exact hne (hapart r hr r' hr' hdir hdir' ⟨hd.le.1.trans hd'.le.1.symm, hsegs⟩)
      · exact hne (hapart r' hr' r hr hdir' hdir ⟨hd'.le.1.trans hd.le.1.symm, hsegs⟩).symm

/-! ### When the gate counts what will be watched -/

/-- **The gate's count** is the number of watches a new backend holds after `set_roots` exactly
when no existing root is ignored and none lies under another. -/
theorem countDirs_eq_iff (hnames : ∀ l, fs.node l ≠ none → ∀ n ∈ l, rstrip n.val = n.val)
    (hR : ∀ r ∈ R, Normalized r) (hnodup : R.Nodup) :
    countDirs fs R ign = ((fresh fs).setRoots ign R).watchCount ↔ Unnested fs ign R := by
  rw [countDirs_eq_length, watchCount,
    length_eq_iff_of_subset (AList.keys_nodup _) (keys_subset_counted hnames hR),
    counted_subset_keys_iff hnames hR]
  constructor
  · rintro ⟨honce, hign⟩
    exact ⟨hign, (nodup_counted_iff hR hnodup hign).mp honce⟩
  · rintro ⟨hign, hapart⟩
    exact ⟨(nodup_counted_iff hR hnodup hign).mpr hapart, hign⟩

theorem countDirs_eq_library :
    countDirs library [str "/a", str "/z"] [str "@eaDir"] =
        ((fresh library).setRoots [str "@eaDir"] [str "/a", str "/z"]).watchCount ↔
      Unnested library [str "@eaDir"] [str "/a", str "/z"] := by
  have hkept : ∀ l ∈ library.dom, ∀ n ∈ l, rstrip n.val = n.val := by decide +kernel
  exact countDirs_eq_iff (fun l hl => hkept l (library.mem_dom hl)) (by decide +kernel)
    (by decide +kernel)

/-- `/a/b` is counted under `/a` and again as a root, and watched once; the ignored root `/a/b` is
counted and not watched. -/
theorem countDirs_differs :
    (∀ r ∈ [str "/a", str "/a/b"], Normalized r) ∧
      (∀ l ∈ nested.dom, ∀ n ∈ l, rstrip n.val = n.val) ∧
      countDirs nested [str "/a", str "/a/b"] [] = 3 ∧
      ((fresh nested).setRoots [] [str "/a", str "/a/b"]).watchCount = 2 ∧
      countDirs nested [str "/a/b"] [str "b"] = 1 ∧
      ((fresh nested).setRoots [str "b"] [str "/a/b"]).watchCount = 0 := by
  decide +kernel

end World

end MediaScanMonitor
