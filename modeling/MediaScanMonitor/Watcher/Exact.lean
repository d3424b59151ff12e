import MediaScanMonitor.Watcher.SetRoots
import Mathlib.Data.List.Nodup

/-!
# Watcher — the walk of a subtree, entry by entry

* `nodup_osWalk`: a walk visits no directory twice.
* `snd_walkAddWatches`: the synthetic events, directory by directory.
* `exactWalk_iff`: when a walk watches every directory and reports every entry under its own path.
-/

namespace MediaScanMonitor
open Py Posix Inotify

namespace World
variable {w : World} {ign : List Str} {fs : Fs} {a d : AbsPath} {n : Name} {e : FsEvent}

/-! ### The order of a walk -/

/-- What is visited below one subdirectory. -/
theorem fst_mem_osWalk {fuel : Nat} {s : Str}
    (h : s ∈ (osWalk ign fs fuel a.toStr).map Prod.fst) : ∃ t : Loc, s = (a.extend t).toStr := by
  obtain ⟨⟨s, files⟩, hmem, rfl⟩ := List.mem_map.mp h
  obtain ⟨t, -, hs, -⟩ := (mem_osWalk_fuel fuel a).mp hmem
  exact ⟨t, hs⟩

theorem nodup_scandir {l : Loc} {ds ns : List Name} (h : fs.scandir l = some (ds, ns)) :
    ds.Nodup ∧ ns.Nodup := by
  rw [Fs.scandir] at h
  split at h
  · cases h
    have hentries : (fs.entries l).Nodup := List.nodup_dedup _
    exact ⟨hentries.filter _, hentries.filter _⟩
  · cases h

/-- **A walk visits no directory twice.** -/
theorem nodup_osWalk (fuel : Nat) (a : AbsPath) :
    ((osWalk ign fs fuel a.toStr).map Prod.fst).Nodup := by
  induction fuel generalizing a with
  | zero => exact List.nodup_nil
  | succ fuel ih =>
      rw [osWalk, AbsPath.parse_toStr]
      cases hs : fs.scandir a.segs with
      | none => exact List.nodup_nil
      | some listing =>
          obtain ⟨dirnames, filenames⟩ := listing
          simp only [AbsPath.join_toStr]
          rw [List.map_cons, List.map_flatMap, List.nodup_cons]
          constructor
          -- every path of a subtree is longer than that of its root
          · intro hmem
            obtain ⟨n, -, hn⟩ := List.mem_flatMap.mp hmem
            obtain ⟨t, ht⟩ := fst_mem_osWalk hn
            have hlen := congrArg (fun b => b.segs.length) (AbsPath.toStr_injective ht)
            simp at hlen
          -- two subtrees differ in the name after `a`
          · refine List.nodup_flatMap.mpr ⟨fun n _ => ih _, ?_⟩
            refine ((nodup_scandir hs).1.filter _).imp fun {n m} hne => ?_
            intro s hn hm
            obtain ⟨t, rfl⟩ := fst_mem_osWalk hn
            obtain ⟨t', ht'⟩ := fst_mem_osWalk hm
            have hsegs := congrArg AbsPath.segs (AbsPath.toStr_injective ht')
            simp only [AbsPath.extend_push, AbsPath.segs_extend, List.append_cancel_left_eq,
              List.cons.injEq] at hsegs
            exact hne hsegs.1

/-! ### The synthetic events -/

/-- What the loop body adds for one directory. -/
def report (ign : List Str) (root : Str) (entry : Str × List Name) : List FsEvent :=
  if isIgnored ign (normalizePath entry.1) then []
  else synthetic root entry.1 (normalizePath entry.1) entry.2

/-- **The synthetic events of a walk**, directory by directory. -/
theorem snd_walkAddWatches (ign : List Str) (w : World) (root : Str) :
    (w.walkAddWatches ign root).2 =
      (osWalk ign w.inst.fs w.inst.fs.height root).flatMap (report ign root) := by
  have key : ∀ (entries : List (Str × List Name)) (acc : World × List FsEvent),
      (entries.foldl (visit ign root) acc).2 = acc.2 ++ entries.flatMap (report ign root) := by
    intro entries
    induction entries with
    | nil => simp
    | cons entry entries ih =>
        intro acc
        have hvisit : (visit ign root acc entry).2 = acc.2 ++ report ign root entry := by
          rw [visit, report]
          split
          · exact (List.append_nil _).symm
          · rfl
        rw [List.foldl_cons, ih, hvisit, List.append_assoc, List.flatMap_cons]
  exact key _ (w, [])

/-! ### What is found at and under a root -/

/-- An existing directory at or under `a`, no name of its path ignored. -/
structure Inside (fs : Fs) (ign : List Str) (a d : AbsPath) : Prop where
  le : a ≤ d
  isDir : fs.isDir d.segs = true
  notIgnored : isIgnored ign d.toStr = false

/-- An entry of the directory that is no directory. -/
def IsFile (fs : Fs) (d : AbsPath) (n : Name) : Prop :=
  fs.node (d.segs ++ [n]) ≠ none ∧ fs.isDir (d.segs ++ [n]) = false

/-- The events of the entries below `a`: a directory that is not ignored, or a file directly in
such a directory or in `a`. -/
def Found (fs : Fs) (ign : List Str) (a : AbsPath) (e : FsEvent) : Prop :=
  (∃ d, Inside fs ign a d ∧ d ≠ a ∧ e = ⟨d.toStr, .created, true⟩) ∨
    ∃ d n, Inside fs ign a d ∧ IsFile fs d n ∧ e = ⟨(d.push n).toStr, .created, false⟩

/-- A walk of `a` watches the directories and reports the entries, each under its own path and
once. -/
structure ExactWalk (fs : Fs) (ign : List Str) (a : AbsPath) (result : World × List FsEvent) :
    Prop where
  watches : ∀ p, p ∈ result.1.watches ↔ ∃ d, Inside fs ign a d ∧ p = d.toStr
  live : ∀ p ∈ result.1.watches, Live result.1 p
  events : ∀ e, e ∈ result.2 ↔ Found fs ign a e
  once : result.2.Nodup

/-- No directory below `a` that is not ignored, and no file directly in such a directory or in `a`,
has a name that ends in white space. -/
structure NamesKept (fs : Fs) (ign : List Str) (a : AbsPath) : Prop where
  dirs : ∀ d, Inside fs ign a d → d ≠ a → d.Clean
  files : ∀ d n, Inside fs ign a d → IsFile fs d n → rstrip n.val = n.val

section
variable (hign : isIgnored ign a.toStr = false)
include hign

theorem visits_iff_inside : Visits ign fs a d ↔ Inside fs ign a d := by
  constructor
  · rintro ⟨t, rfl, ht, hdir⟩
    exact ⟨AbsPath.le_extend a t, hdir, isIgnored_extend.mpr ⟨hign, ht⟩⟩
  · intro h
    exact visits_of_le h.le h.isDir h.notIgnored

/-- The directories of a walk with their files. -/
theorem mem_osWalk_inside {s : Str} {files : List Name} :
    (s, files) ∈ osWalk ign fs fs.height a.toStr ↔
      ∃ d dirs, Inside fs ign a d ∧ s = d.toStr ∧ fs.scandir d.segs = some (dirs, files) := by
  rw [mem_osWalk]
  constructor
  · rintro ⟨t, rfl, ht, dirs, hs⟩
    exact ⟨a.extend t, dirs, (visits_iff_inside hign).mp ⟨t, rfl, ht, (Fs.scandir_eq_some hs).1⟩,
      rfl, hs⟩
  · rintro ⟨d, dirs, hd, rfl, hs⟩
    obtain ⟨t, rfl, ht, -⟩ := (visits_iff_inside hign).mpr hd
    exact ⟨t, rfl, ht, dirs, hs⟩

end

theorem isDir_dropLast {l : Loc} (h : fs.isDir l = true) : fs.isDir l.dropLast = true := by
  rcases List.eq_nil_or_concat' l with rfl | ⟨l, n, rfl⟩
  · exact h
  · rw [List.dropLast_concat]
    exact Fs.isDir_parent (Fs.node_ne_none_of_isDir h)

theorem isFile_iff {ds ns : List Name} (hs : fs.scandir d.segs = some (ds, ns)) :
    n ∈ ns ↔ IsFile fs d n := (Fs.scandir_eq_some hs).2.2 n

/-- What is reported of a directory: itself, and the files in it. -/
theorem mem_report {files : List Name} :
    e ∈ report ign a.toStr (d.toStr, files) ↔ isIgnored ign d.trim.toStr = false ∧
      ((d.trim ≠ a ∧ e = ⟨d.trim.toStr, .created, true⟩) ∨
        ∃ n ∈ files, e = ⟨(d.push n).trim.toStr, .created, false⟩) := by
  rw [report, AbsPath.normalizePath_toStr]
  cases isIgnored ign d.trim.toStr with
  | true => simp
  | false =>
      simp only [Bool.false_eq_true, if_false, synthetic, AbsPath.join_toStr,
        AbsPath.normalizePath_toStr, Ne, AbsPath.toStr_inj, true_and, List.mem_append,
        List.mem_map]
      refine or_congr ?_ (exists_congr fun n => and_congr_right fun _ => eq_comm)
      split <;> simp_all

theorem NamesKept.clean (hroot : a.Clean) (h : NamesKept fs ign a) (hd : Inside fs ign a d) :
    d.Clean := by
  by_cases hda : d = a
  · rw [hda]
    exact hroot
  · exact h.dirs d hd hda

theorem NamesKept.clean_file (h : NamesKept fs ign a) (hd : Inside fs ign a d)
    (hfile : IsFile fs d n) : (d.push n).Clean :=
  AbsPath.clean_push_iff.mpr (h.files d n hd hfile)

section Kept
variable (hroot : a.Clean) (hign : isIgnored ign a.toStr = false)
include hroot hign

omit hign in
/-- Where the names are kept, what is reported of a directory bears the directory's own path. -/
theorem NamesKept.mem_report {files : List Name} (h : NamesKept fs ign a)
    (hd : Inside fs ign a d) (hfiles : ∀ n ∈ files, IsFile fs d n) :
    e ∈ report ign a.toStr (d.toStr, files) ↔ (d ≠ a ∧ e = ⟨d.toStr, .created, true⟩) ∨
      ∃ n ∈ files, e = ⟨(d.push n).toStr, .created, false⟩ := by
  have htrim : d.trim = d := h.clean hroot hd
  rw [World.mem_report, htrim, and_iff_right hd.notIgnored]
  refine or_congr_right (exists_congr fun n => and_congr_right fun hn => ?_)
  have hclean : (d.push n).trim = d.push n := h.clean_file hd (hfiles n hn)
  rw [hclean]

theorem NamesKept.mem_events (h : NamesKept w.inst.fs ign a) :
    e ∈ (w.walkAddWatches ign a.toStr).2 ↔ Found w.inst.fs ign a e := by
  rw [snd_walkAddWatches, List.mem_flatMap]
  constructor
  · rintro ⟨⟨s, files⟩, hmem, he⟩
    obtain ⟨d, dirs, hd, rfl, hs⟩ := (mem_osWalk_inside hign).mp hmem
    rcases (h.mem_report hroot hd fun n hn => (isFile_iff hs).mp hn).mp he with
      ⟨hda, rfl⟩ | ⟨n, hn, rfl⟩
    · exact .inl ⟨d, hd, hda, rfl⟩
    · exact .inr ⟨d, n, hd, (isFile_iff hs).mp hn, rfl⟩
  · intro hfound
    obtain ⟨d, hd, hreport⟩ : ∃ d, Inside w.inst.fs ign a d ∧
        ∀ {dirs files}, w.inst.fs.scandir d.segs = some (dirs, files) →
          (d ≠ a ∧ e = ⟨d.toStr, .created, true⟩) ∨
            ∃ n ∈ files, e = ⟨(d.push n).toStr, .created, false⟩ := by
      rcases hfound with ⟨d, hd, hda, rfl⟩ | ⟨d, n, hd, hfile, rfl⟩
      · exact ⟨d, hd, fun _ => .inl ⟨hda, rfl⟩⟩
      · exact ⟨d, hd, fun hs => .inr ⟨n, (isFile_iff hs).mpr hfile, rfl⟩⟩
    obtain ⟨dirs, files, hs⟩ := Fs.scandir_of_isDir hd.isDir
    exact ⟨_, (mem_osWalk_inside hign).mpr ⟨d, dirs, hd, rfl, hs⟩,
      (h.mem_report hroot hd fun n hn => (isFile_iff hs).mp hn).mpr (hreport hs)⟩

omit hign in
/-- An event that is reported of `d` names `d`, or an entry of `d`. -/
theorem NamesKept.eq_of_mem_report {d' : AbsPath} {files files' : List Name}
    (h : NamesKept fs ign a) (hd : Inside fs ign a d) (hd' : Inside fs ign a d')
    (hfiles : ∀ n ∈ files, IsFile fs d n) (hfiles' : ∀ n ∈ files', IsFile fs d' n)
    (he : e ∈ report ign a.toStr (d.toStr, files))
    (he' : e ∈ report ign a.toStr (d'.toStr, files')) : d = d' := by
  -- the flag of the event tells a directory from a file, and its path tells the rest
  rcases (h.mem_report hroot hd hfiles).mp he with ⟨-, rfl⟩ | ⟨n, hn, rfl⟩
  · rcases (h.mem_report hroot hd' hfiles').mp he' with ⟨-, heq⟩ | ⟨n, -, heq⟩
    · exact AbsPath.toStr_injective (congrArg FsEvent.path heq)
    · cases congrArg FsEvent.isDir heq
  · rcases (h.mem_report hroot hd' hfiles').mp he' with ⟨-, heq⟩ | ⟨m, hm, heq⟩
    · cases congrArg FsEvent.isDir heq
    · have hpush := AbsPath.toStr_injective (congrArg FsEvent.path heq)
      exact (AbsPath.push_inj.mp hpush).1

omit hign in
theorem NamesKept.nodup_report {files : List Name} (h : NamesKept fs ign a)
    (hd : Inside fs ign a d) (hfiles : ∀ n ∈ files, IsFile fs d n) (hnodup : files.Nodup) :
    (report ign a.toStr (d.toStr, files)).Nodup := by
  have htrim : d.trim = d := h.clean hroot hd
  rw [report, AbsPath.normalizePath_toStr, htrim, if_neg (by rw [hd.notIgnored]; simp), synthetic]
  rw [List.nodup_append]
  refine ⟨?_, ?_, ?_⟩
  · split
    · exact List.nodup_singleton _
    · exact List.nodup_nil
  · refine (List.nodup_map_iff_inj_on hnodup).mpr fun n hn m hm heq => ?_
    have hpath := congrArg FsEvent.path heq
    simp only [AbsPath.join_toStr, AbsPath.normalizePath_toStr, AbsPath.toStr_inj] at hpath
    have hclean : (d.push n).trim = d.push n := h.clean_file hd (hfiles n hn)
    have hclean' : (d.push m).trim = d.push m := h.clean_file hd (hfiles m hm)
    rw [hclean, hclean'] at hpath
    exact (AbsPath.push_inj.mp hpath).2
  · intro x hx y hy
    obtain ⟨n, -, rfl⟩ := List.mem_map.mp hy
    split at hx
    · rw [List.mem_singleton.mp hx]
      intro heq
      cases congrArg FsEvent.isDir heq
    · cases hx

theorem NamesKept.nodup_events (h : NamesKept w.inst.fs ign a) :
    (w.walkAddWatches ign a.toStr).2.Nodup := by
  rw [snd_walkAddWatches]
  refine List.nodup_flatMap.mpr ⟨?_, ?_⟩
  · rintro ⟨s, files⟩ hmem
    obtain ⟨d, dirs, hd, rfl, hs⟩ := (mem_osWalk_inside hign).mp hmem
    exact h.nodup_report hroot hd (fun n hn => (isFile_iff hs).mp hn) (nodup_scandir hs).2
  · have hnodup : ((osWalk ign w.inst.fs w.inst.fs.height a.toStr).map Prod.fst).Nodup :=
      nodup_osWalk _ a
    refine (List.pairwise_map.mp hnodup).imp_of_mem ?_
    rintro ⟨s, files⟩ ⟨s', files'⟩ hmem hmem' hne e he he'
    obtain ⟨d, dirs, hd, rfl, hs⟩ := (mem_osWalk_inside hign).mp hmem
    obtain ⟨d', dirs', hd', rfl, hs'⟩ := (mem_osWalk_inside hign).mp hmem'
    exact hne (congrArg AbsPath.toStr (h.eq_of_mem_report hroot hd hd'
      (fun n hn => (isFile_iff hs).mp hn) (fun n hn => (isFile_iff hs').mp hn) he he'))

end Kept

/-! ### When a walk is exact -/

section
variable (hroot : a.Clean) (hign : isIgnored ign a.toStr = false) (hempty : w.watches = ∅)
  (hfull : w.inst.full = false)
include hempty hfull

theorem mem_watches_iff_attaches {p : Str} :
    p ∈ (w.walkAddWatches ign a.toStr).1.watches ↔ Attaches ign w.inst.fs a p := by
  rw [mem_walkAddWatches hfull, hempty]
  exact or_iff_right (AList.notMem_empty p)

include hroot hign

theorem NamesKept.exactWalk (h : NamesKept w.inst.fs ign a) :
    ExactWalk w.inst.fs ign a (w.walkAddWatches ign a.toStr) where
  watches p := by
    rw [mem_watches_iff_attaches hempty hfull]
    constructor
    · rintro ⟨d, hd, rfl, -, -⟩
      have hinside := (visits_iff_inside hign).mp hd
      have htrim : d.trim = d := h.clean hroot hinside
      exact ⟨d, hinside, by rw [htrim]⟩
    · rintro ⟨d, hd, rfl⟩
      exact attaches_of_clean hd.le hd.isDir hd.notIgnored (h.clean hroot hd)
  live p hp := by
    have hattaches := (mem_watches_iff_attaches hempty hfull).mp hp
    refine live_walkAddWatches hfull (.inr ⟨?_, hattaches⟩)
    rw [hempty]
    exact AList.notMem_empty p
  events _ := h.mem_events hroot hign
  once := h.nodup_events hroot hign

/-- The directories of an exact walk are those of one call of `set_roots`. -/
theorem ExactWalk.clean_dirs (hdir : w.inst.fs.isDir a.segs = true)
    (h : ExactWalk w.inst.fs ign a (w.walkAddWatches ign a.toStr)) (hd : Inside w.inst.fs ign a d) :
    d.Clean := by
  have hnormal : ∀ r ∈ [a.toStr], Normalized r := by
    intro r hr
    rw [List.mem_singleton.mp hr]
    exact normalized_toStr hroot
  have htarget : ∀ p, p ∈ target w.inst.fs ign [a.toStr] ↔
      ∃ d, Inside w.inst.fs ign a d ∧ p = d.toStr := by
    intro p
    simp only [target, Set.mem_ofPred_eq, List.mem_singleton, exists_eq_left, AbsPath.parse_toStr]
    constructor
    · rintro ⟨-, -, d, hle, hd, hi, rfl⟩
      exact ⟨d, ⟨hle, hd, hi⟩, rfl⟩
    · rintro ⟨d, hd, rfl⟩
      exact ⟨hdir, hign, d, hd.le, hd.isDir, hd.notIgnored, rfl⟩
  have hwatched : watched w.inst.fs ign [[a.toStr]] = target w.inst.fs ign [a.toStr] := by
    ext p
    rw [htarget, ← h.watches, mem_watches_iff_attaches hempty hfull, mem_watched_singleton hnormal]
    simp [hdir, hign]
  have hkept := (watched_singleton_iff hnormal).mp hwatched
  exact AbsPath.clean_iff.mpr (hkept _ ((htarget _).mpr ⟨d, hd, rfl⟩))

omit hroot hempty hfull in
/-- What is reported of a file whose name is not kept is no file. -/
theorem ExactWalk.clean_files (h : ExactWalk w.inst.fs ign a (w.walkAddWatches ign a.toStr))
    (hd : Inside w.inst.fs ign a d) (hfile : IsFile w.inst.fs d n) : rstrip n.val = n.val := by
  have hmem := (h.events ⟨(d.push n).toStr, .created, false⟩).mpr (.inr ⟨d, n, hd, hfile, rfl⟩)
  rw [snd_walkAddWatches, List.mem_flatMap] at hmem
  obtain ⟨⟨s, files⟩, hvisited, he⟩ := hmem
  obtain ⟨d', dirs, hd', rfl, hs⟩ := (mem_osWalk_inside hign).mp hvisited
  rcases (mem_report.mp he).2 with ⟨-, heq⟩ | ⟨m, hm, heq⟩
  · cases congrArg FsEvent.isDir heq
  · have hpath := AbsPath.toStr_injective (congrArg FsEvent.path heq)
    rw [AbsPath.trim_push, AbsPath.step] at hpath
    split at hpath
    · rename_i k hk
      obtain ⟨-, rfl⟩ := AbsPath.push_inj.mp hpath
      rw [AbsPath.toName?_eq_some hk, rstrip_rstrip]
    · -- the name is gone, and the event names a directory
      have hisDir : w.inst.fs.isDir (d.push n).segs = true := by
        rw [hpath]
        split
        · exact isDir_dropLast hd'.isDir
        · exact hd'.isDir
      rw [AbsPath.segs_push, hfile.2] at hisDir
      cases hisDir

end

/-- **The walk of a subtree** is exact, on a backend that watches nothing, exactly when no name in
the subtree ends in white space. -/
theorem exactWalk_iff {root : Str} (hroot : Normalized root)
    (hdir : w.inst.fs.isDir (parse root).segs = true) (hign : isIgnored ign root = false)
    (hempty : w.watches = ∅) (hfull : w.inst.full = false) :
    ExactWalk w.inst.fs ign (parse root) (w.walkAddWatches ign root) ↔
      NamesKept w.inst.fs ign (parse root) := by
  obtain ⟨a, hclean, rfl⟩ := exists_clean_of_normalized hroot.1 hroot.2
  rw [AbsPath.parse_toStr] at hdir ⊢
  constructor
  · intro h
    exact ⟨fun d hd _ => h.clean_dirs hclean hign hempty hfull hdir hd,
      fun d n hd hfile => h.clean_files hign hd hfile⟩
  · exact fun h => h.exactWalk hclean hign hempty hfull

/-- Where no name in the tree ends in white space, no path of the tree does. -/
theorem clean_of_names (h : ∀ l, fs.node l ≠ none → ∀ n ∈ l, rstrip n.val = n.val)
    (hd : fs.node d.segs ≠ none) : d.Clean := by
  obtain ⟨dbl, segs⟩ := d
  rcases List.eq_nil_or_concat' segs with rfl | ⟨l, n, rfl⟩
  · rfl
  · rw [AbsPath.concat_eq_push]
    exact AbsPath.clean_push_iff.mpr (h _ hd n (by simp))

theorem namesKept_of_names (h : ∀ l, fs.node l ≠ none → ∀ n ∈ l, rstrip n.val = n.val) :
    NamesKept fs ign a where
  dirs _ hd _ := clean_of_names h (Fs.node_ne_none_of_isDir hd.isDir)
  files d n _ hfile := h _ hfile.1 n (by simp)

/-- `/a` with a directory, a file in it and an ignored directory. -/
def library : Fs :=
  ((nested.create [.lit "a", .lit "b"] (.lit "c.mkv") false).create [.lit "a"] (.lit "@eaDir")
    true).create [.lit "a", .lit "@eaDir"] (.lit "d") true

theorem exactWalk_library :
    ExactWalk library [str "@eaDir"] (parse (str "/a"))
      (walkAddWatches [str "@eaDir"] (fresh library) (str "/a")) := by
  have hkept : ∀ l ∈ library.dom, ∀ n ∈ l, rstrip n.val = n.val := by decide +kernel
  exact (exactWalk_iff (w := fresh library) (by decide +kernel) (by decide +kernel)
    (by decide +kernel) rfl rfl).mpr (namesKept_of_names fun l hl => hkept l (library.mem_dom hl))

/-- `/a` with a directory `b ` in it. -/
def spaced : Fs := (Fs.bare.create [] (.lit "a") true).create [.lit "a"] (.lit "b ") true

/-- The walk leaves `/a/b ` unwatched and reports a directory `/a/b` that is not there. -/
theorem walkAddWatches_spaced :
    spaced.isDir (parse (str "/a/b ")).segs = true ∧
      spaced.isDir (parse (str "/a/b")).segs = false ∧
      (walkAddWatches [] (fresh spaced) (str "/a")).1.watches.keys = [str "/a"] ∧
      (walkAddWatches [] (fresh spaced) (str "/a")).2 = [⟨str "/a/b", .created, true⟩] := by
  decide +kernel

end World

end MediaScanMonitor
