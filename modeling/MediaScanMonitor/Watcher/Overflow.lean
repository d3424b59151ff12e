import MediaScanMonitor.Watcher.History

/-!
# Watcher — the resync after a queue overflow

When `events()` reads `IN_Q_OVERFLOW` it walks every root again.  `_add_watch` leaves a recorded
path alone, so the walk cannot tell a watch that died with its directory, or went away with it,
from a live one.

* `live_walkAll_iff`: after the walks a path has a live watch exactly when it had one before, or
  was not recorded and a walk records it.
* `covered_turn_overflow_iff`: in every state a history reaches, the resync leaves a live watch on
  every directory under the roots if and only if no such directory is recorded with a watch that
  is not on it (and the names of those not recorded are kept by `normalize_path`).
-/

namespace MediaScanMonitor
open Py Posix Inotify

namespace World
variable {w w' : World} {ign : List Str} {fs : Fs} {a d : AbsPath} {p : Str} {R : List Str}

/-! ### Stale paths -/

/-- `d` is recorded with a descriptor the kernel has given, and it is not that of a live watch on
what is found at `d`. -/
def Stale (w : World) (d : AbsPath) : Prop :=
  ∃ wd, w.watches.lookup d.toStr = some wd ∧ wd < w.inst.nextWd ∧ w.inst.wdAt d.segs ≠ some wd

/-- No `_add_watch` brings a stale path back: the path is recorded, and what is found there keeps
its watch or gets a descriptor that was never given. -/
theorem Stale.addWatch (h : Stale w d) (hfull : w.inst.full = false) (a : AbsPath) :
    Stale (w.addWatch a.toStr) d := by
  rcases addWatch_cases hfull a with ⟨e, -⟩ | ⟨v, hadd⟩
  · rwa [e]
  · obtain ⟨wd, hl, hlt, hne⟩ := h
    have hda : d.toStr ≠ a.toStr := fun e => hadd.new (e ▸ AList.lookup_isSome.mp (by simp [hl]))
    refine ⟨wd, (hadd.lookup_ne hda).trans hl, hlt.trans_le hadd.nextWd_le, fun he => ?_⟩
    by_cases e : d.segs = a.segs
    · rw [e, hadd.live] at he
      cases he
      rcases hadd.origin with ⟨h', -⟩ | ⟨-, h', -⟩
      · exact hne (e ▸ h')
      · omega
    · exact hne ((hadd.other _ e).symm.trans he)

theorem Stale.not_live (h : Stale w d) : ¬ Live w d.toStr := fun hl => by
  obtain ⟨wd, hwd, -, hne⟩ := h
  obtain ⟨wd', hwd', hat⟩ := live_toStr.mp hl
  rw [hwd] at hwd'
  cases hwd'
  exact hne hat

theorem Stale.walkAddWatches (h : Stale w d) (hfull : w.inst.full = false) :
    Stale (w.walkAddWatches ign a.toStr).1 d :=
  (walkAddWatches_induct (P := fun w' => Stale w' d ∧ w'.inst.full = false) ⟨h, hfull⟩
    fun _ e h' _ _ _ => ⟨h'.1.addWatch h'.2 e.trim, (addWatch_fields h'.2 e.trim).2.1⟩).1

/-- A recorded path is live or stale. -/
theorem Sound.live_or_stale (h : Sound w) (hd : d.toStr ∈ w.watches) :
    Live w d.toStr ∨ Stale w d := by
  obtain ⟨wd, hwd⟩ := Option.isSome_iff_exists.mp (AList.lookup_isSome.mpr hd)
  by_cases e : w.inst.wdAt d.segs = some wd
  · exact .inl (live_toStr.mpr ⟨wd, hwd, e⟩)
  · exact .inr ⟨wd, hwd, h.lt hwd, e⟩

/-! ### Walking the roots again -/

/-- A walk makes live what it records, and nothing else. -/
theorem live_walkAddWatches_iff (h : Sound w) : Live (w.walkAddWatches ign a.toStr).1 d.toStr ↔
    Live w d.toStr ∨ (d.toStr ∉ w.watches ∧ Attaches ign w.inst.fs a d.toStr) := by
  refine ⟨fun hl => ?_, live_walkAddWatches h.full⟩
  by_cases hd : d.toStr ∈ w.watches
  · exact .inl ((h.live_or_stale hd).resolve_right fun hs => (hs.walkAddWatches h.full).not_live hl)
  · exact .inr ⟨hd, ((mem_walkAddWatches h.full).mp hl.mem).resolve_left hd⟩

/-- **What walking several trees makes live.** -/
theorem live_walkAll_iff {roots : List Str} (h : Sound w) (hr : ∀ r ∈ roots, Spelled r) :
    Live (walkAll ign w roots) d.toStr ↔ Live w d.toStr ∨
      (d.toStr ∉ w.watches ∧ ∃ r ∈ roots, Attaches ign w.inst.fs (parse r) d.toStr) := by
  induction roots generalizing w with
  | nil => simp [walkAll]
  | cons r roots ih =>
      obtain ⟨a, rfl⟩ := hr r (by simp)
      have ih' := ih (w := (w.walkAddWatches ign a.toStr).1) (h.walkAddWatches a) fun r' hr' =>
        hr r' (by simp [hr'])
      rw [show walkAll ign w (a.toStr :: roots) =
        walkAll ign (w.walkAddWatches ign a.toStr).1 roots from rfl, ih',
        live_walkAddWatches_iff h, mem_walkAddWatches h.full, fs_walkAddWatches, or_assoc]
      refine or_congr_right ?_
      simp only [List.mem_cons, exists_eq_or_imp, AbsPath.parse_toStr]
      tauto

/-! ### The resync -/

/-- Every directory at or under a root, none of its names ignored, has a live watch that is
recorded under its path. -/
def Covered (ign : List Str) (w : World) : Prop :=
  ∀ r ∈ w.roots, ∀ d : AbsPath, parse r ≤ d → w.inst.fs.isDir d.segs = true →
    isIgnored ign d.toStr = false → Live w d.toStr

theorem turn_overflow {q : List Raw} (hq : w.inst.queue = Raw.overflow :: q) :
    (w.turn ign).1 = walkAll ign w.dequeue (w.roots.insertionSort (· ≤ ·)) := by
  rw [turn, hq]
  dsimp only
  rw [handle_fst]
  rfl

/-- **When the resync restores coverage.**  After any history, events lost or not: exactly when
every directory to be covered is recorded with a live watch on it, or is not recorded and one of
the walks records it. -/
theorem covered_turn_overflow_iff {l : List Act} {q : List Raw} (hR : ∀ r ∈ R, isabs r = true)
    (h : Lts.Run (history ign) Lts.free (start fs ign R) l w)
    (hq : w.inst.queue = Raw.overflow :: q) :
    Covered ign (w.turn ign).1 ↔ ∀ r ∈ w.roots, ∀ d : AbsPath, parse r ≤ d →
      w.inst.fs.isDir d.segs = true → isIgnored ign d.toStr = false →
        (d.toStr ∈ w.watches → Live w d.toStr) ∧
          (d.toStr ∉ w.watches → ∃ r' ∈ w.roots, Attaches ign w.inst.fs (parse r') d.toStr) := by
  have hs : Sound w.dequeue := (sound_history h (sound_start fs ign hR)).dequeue
  have hsorted : ∀ r ∈ w.roots.insertionSort (· ≤ ·), Spelled r := fun r hr =>
    hs.roots r ((List.mem_insertionSort _).mp hr)
  obtain ⟨hroots, hfs⟩ := roots_walkAll ign hs hsorted
  rw [Covered, turn_overflow hq, hroots, hfs]
  refine forall₂_congr fun r hr => forall_congr' fun d => forall₃_congr fun hle hd hi => ?_
  rw [live_walkAll_iff hs hsorted]
  simp only [List.mem_insertionSort]
  constructor
  · intro hl
    refine ⟨fun hm => hl.resolve_right fun e => e.1 hm, fun hm => ?_⟩
    exact (hl.resolve_left fun e => hm e.mem).2
  · intro hc
    by_cases hm : d.toStr ∈ w.watches
    · exact .inl (hc.1 hm)
    · exact .inr ⟨hm, hc.2 hm⟩

/-! ### A directory created again -/

/-- `/a/x` is created and watched, removed and created again; the events of the removal and of
the second creation are lost. -/
def recreated : List Act :=
  [.op (.create [.lit "a"] (.lit "x") true), .turn, .op (.remove [.lit "a"] (.lit "x")),
    .op (.create [.lit "a"] (.lit "x") true), .lose []]

def afterRecreated : World := recreated.foldl (history []).next (start shelf [] [str "/a"])

theorem run_recreated :
    Lts.Run (history []) Lts.free (start shelf [] [str "/a"]) recreated afterRecreated :=
  Lts.run_of_exec (by decide)

theorem queue_recreated : afterRecreated.inst.queue = [Raw.overflow] := by decide

theorem covered_turn_overflow_recreated :
    Covered [] (afterRecreated.turn []).1 ↔ ∀ r ∈ afterRecreated.roots, ∀ d : AbsPath,
      parse r ≤ d → afterRecreated.inst.fs.isDir d.segs = true → isIgnored [] d.toStr = false →
        (d.toStr ∈ afterRecreated.watches → Live afterRecreated d.toStr) ∧
          (d.toStr ∉ afterRecreated.watches →
            ∃ r' ∈ afterRecreated.roots,
              Attaches [] afterRecreated.inst.fs (parse r') d.toStr) :=
  covered_turn_overflow_iff (by decide) run_recreated queue_recreated

/-- The resync leaves the new `/a/x` without a watch: its path is still recorded, with the watch
that died with the old one. -/
theorem resync_misses_recreated :
    Lts.Run (history []) Lts.free (start shelf [] [str "/a"]) recreated afterRecreated ∧
      afterRecreated.inst.queue = [Raw.overflow] ∧ ¬ Covered [] (afterRecreated.turn []).1 := by
  refine ⟨run_recreated, queue_recreated, fun h => ?_⟩
  have hlive := h (str "/a") (by decide) ⟨false, [.lit "a", .lit "x"]⟩ (by decide) (by decide)
    (by decide)
  obtain ⟨wd, -, hwd⟩ := live_toStr.mp hlive
  have hdead : (afterRecreated.turn []).1.inst.wdAt [.lit "a", .lit "x"] = none := by decide
  rw [hdead] at hwd
  cases hwd

end World

end MediaScanMonitor
