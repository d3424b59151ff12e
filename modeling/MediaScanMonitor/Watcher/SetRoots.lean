import MediaScanMonitor.Library.Edit
import MediaScanMonitor.Watcher.Spec

/-!
# Watcher — what a sequence of `set_roots` calls leaves watched

A call of `set_roots` edits the set of watched paths: it strips the trees of the roots that are
gone and then walks the roots that are new, and it does neither for a root that stays.  So the
watched set after a sequence of calls is that of the sequence of edits (`watches_setRoots_run`).

* `watched_singleton_iff`: one call on a new backend watches exactly the existing directories at or
  under its existing roots, none of them ignored, if and only if none of these has a name that
  ends in white space.
* `watched_setRoots_iff`: a sequence of calls leaves what its last call alone would leave, and
  these directories, if and only if moreover no call strips one of them for good (as it does when
  it drops a root nested in another, or above another, that stays) and every other path a call
  adds is stripped again (as it is not when the root that is dropped is `/`).
-/

namespace Posix.AbsPath
open Py MediaScanMonitor
variable {a : AbsPath}

theorem length_trim_le (a : AbsPath) : a.trim.segs.length ≤ a.segs.length := by
  obtain ⟨d, s⟩ := a
  rcases List.eq_nil_or_concat' s with rfl | ⟨s, n, rfl⟩
  · exact le_rfl
  · rw [concat_eq_push, trim_push, step]
    split
    · simp [push]
    · split
      · simp only [push, List.length_dropLast, List.length_append]
        omega
      · simp [push]

/-- What is trimmed without losing a name is clean. -/
theorem clean_trim (h : a.trim.segs.length = a.segs.length) : a.trim.Clean := by
  obtain ⟨d, s⟩ := a
  rcases List.eq_nil_or_concat' s with rfl | ⟨s, n, rfl⟩
  · rfl
  · rw [concat_eq_push, trim_push] at h ⊢
    unfold step at h ⊢
    cases hm : toName? (rstrip n.val) with
    | some m =>
        refine clean_push_iff.mpr ?_
        rw [toName?_eq_some hm, rstrip_rstrip]
    | none =>
        rw [hm] at h
        dsimp only at h
        split at h <;> simp [push] at h

end Posix.AbsPath

namespace MediaScanMonitor
open Py Posix

/-- A root as the configuration holds it: absolute and normalised. -/
def Normalized (r : Str) : Prop := isabs r = true ∧ normalizePath r = r

instance (r : Str) : Decidable (Normalized r) := inferInstanceAs (Decidable (_ ∧ _))

/-- The roots a call of `set_roots` keeps spell absolute paths. -/
theorem spelled_newRoots {R : List Str} (hR : ∀ r ∈ R, isabs r = true) :
    ∀ r ∈ (R.map normalizePath).dedup, Spelled r := by
  intro r hr
  obtain ⟨r₀, hr₀, rfl⟩ := List.mem_map.mp (List.mem_dedup.mp hr)
  exact spelled_normalizePath (hR r₀ hr₀)

theorem normalized_toStr {a : AbsPath} (h : a.Clean) : Normalized a.toStr :=
  ⟨a.isabs_toStr, h.normalizePath⟩

theorem Normalized.spelled {r : Str} (h : Normalized r) : Spelled r := by
  obtain ⟨a, -, ha⟩ := exists_clean_of_normalized h.1 h.2
  exact ⟨a, ha⟩

namespace World
variable {w : World} {fs : Fs} {ign : List Str} {p : Str} {old new : List Str}
  {calls : List (List Str)}

/-! ### One call -/

/-- The edit one call makes when it replaces the roots `old` by `new`. -/
def rootsEdit (fs : Fs) (ign : List Str) (old new : List Str) : Edit Str where
  drop := {p | ∃ g ∈ old, g ∉ new ∧ inTree g p = true}
  add := {p | ∃ r ∈ new, r ∉ old ∧ fs.isDir (parse r).segs = true ∧ isIgnored ign r = false ∧
    Attaches ign fs (parse r) p}

theorem foldl_removeWatchTree_fields : ∀ (gs : List Str) (w : World),
    (gs.foldl removeWatchTree w).inst.fs = w.inst.fs ∧
      (gs.foldl removeWatchTree w).inst.full = w.inst.full ∧
      (gs.foldl removeWatchTree w).inst.queue = w.inst.queue
  | [], _ => ⟨rfl, rfl, rfl⟩
  | g :: gs, w => by
      obtain ⟨h₁, h₂, h₃⟩ := foldl_removeWatchTree_fields gs (w.removeWatchTree g)
      obtain ⟨f₁, f₂, -, -, f₃, -⟩ := removeWatchTree_fields w g
      exact ⟨h₁.trans f₁, h₂.trans f₃, h₃.trans f₂⟩

theorem mem_foldl_removeWatchTree : ∀ (gs : List Str) (w : World),
    p ∈ (gs.foldl removeWatchTree w).watches ↔ p ∈ w.watches ∧ ∀ g ∈ gs, inTree g p = false
  | [], w => by simp
  | g :: gs, w => by
      rw [List.foldl_cons, mem_foldl_removeWatchTree, mem_removeWatchTree, and_assoc]
      simp

/-- One round of `set_roots`' second loop. -/
theorem addRoot_spec (hfull : w.inst.full = false) (a : AbsPath) :
    (addRoot ign w a.toStr).inst.fs = w.inst.fs ∧ (addRoot ign w a.toStr).inst.full = false ∧
      (p ∈ (addRoot ign w a.toStr).watches ↔ p ∈ w.watches ∨
        (w.inst.fs.isDir a.segs = true ∧ isIgnored ign a.toStr = false ∧
          Attaches ign w.inst.fs a p)) := by
  have hcond : (w.inst.fs.isDir (parse a.toStr).segs && !isIgnored ign a.toStr) = true ↔
      w.inst.fs.isDir a.segs = true ∧ isIgnored ign a.toStr = false := by
    rw [AbsPath.parse_toStr, Bool.and_eq_true, Bool.not_eq_true']
  unfold addRoot
  split
  · rename_i h
    refine ⟨fs_walkAddWatches _ _ _, (walkAddWatches_fields hfull ign a).2.1, ?_⟩
    rw [mem_walkAddWatches hfull]
    have h' := hcond.mp h
    exact or_congr_right ⟨fun e => ⟨h'.1, h'.2, e⟩, fun e => e.2.2⟩
  · rename_i h
    exact ⟨rfl, hfull, .inl, fun e => e.elim id fun e => absurd (hcond.mpr ⟨e.1, e.2.1⟩) h⟩

/-- The second loop of `set_roots`, over roots that are spelled as paths are. -/
theorem mem_foldl_addRoot (ign : List Str) : ∀ (rs : List Str) (w : World), (∀ r ∈ rs, Spelled r) →
    w.inst.full = false →
      (rs.foldl (addRoot ign) w).inst.fs = w.inst.fs ∧
      (rs.foldl (addRoot ign) w).inst.full = false ∧
      (p ∈ (rs.foldl (addRoot ign) w).watches ↔ p ∈ w.watches ∨
        ∃ r ∈ rs, w.inst.fs.isDir (parse r).segs = true ∧ isIgnored ign r = false ∧
          Attaches ign w.inst.fs (parse r) p)
  | [], w, _, hfull => by simp [hfull]
  | r :: rs, w, hrs, hfull => by
      obtain ⟨a, rfl⟩ := hrs r (by simp)
      obtain ⟨hfs, hfull', hmem⟩ := addRoot_spec (p := p) hfull a
      obtain ⟨ihfs, ihfull, ih⟩ :=
        mem_foldl_addRoot ign rs (addRoot ign w a.toStr) (fun r hr => hrs r (by simp [hr])) hfull'
      refine ⟨ihfs.trans hfs, ihfull, ?_⟩
      rw [List.foldl_cons, ih, hfs, hmem, or_assoc]
      simp only [List.mem_cons, exists_eq_or_imp, AbsPath.parse_toStr]

theorem dedup_map_normalizePath (h : ∀ r ∈ new, Normalized r) :
    (new.map normalizePath).dedup = new.dedup := by
  rw [List.map_congr_left (g := id) fun r hr => (h r hr).2, List.map_id]

/-- **One call is one edit.** -/
theorem setRoots_edit (hfull : w.inst.full = false) (hnew : ∀ r ∈ new, Normalized r) :
    (w.setRoots ign new).inst.fs = w.inst.fs ∧ (w.setRoots ign new).inst.full = false ∧
      (w.setRoots ign new).roots = new.dedup ∧
      {p | p ∈ (w.setRoots ign new).watches} =
        (rootsEdit w.inst.fs ign w.roots new).apply {p | p ∈ w.watches} := by
  obtain ⟨hfs, hfull', -⟩ := foldl_removeWatchTree_fields (goneRoots w.roots new.dedup) w
  have hadded : ∀ r ∈ addedRoots w.roots new.dedup, Spelled r := fun r hr =>
    (hnew r (List.mem_dedup.mp (List.mem_filter.mp hr).1)).spelled
  obtain ⟨hfs', hfull'', -⟩ :=
    mem_foldl_addRoot (p := []) ign _ _ hadded (hfull'.trans hfull)
  unfold setRoots
  rw [dedup_map_normalizePath hnew]
  refine ⟨hfs'.trans hfs, hfull'', rfl, Set.ext fun p => ?_⟩
  have hmem := (mem_foldl_addRoot (p := p) ign _ _ hadded (hfull'.trans hfull)).2.2
  rw [Set.mem_ofPred_eq, hmem, hfs, mem_foldl_removeWatchTree, Edit.mem_apply]
  simp only [rootsEdit, addedRoots, goneRoots, List.mem_filter, List.mem_dedup, decide_eq_true_eq,
    Set.mem_ofPred_eq, and_assoc, and_imp, not_exists, not_and, Bool.not_eq_true]

/-! ### A sequence of calls -/

/-- The edits of a sequence of calls on a backend whose roots are `old`. -/
def rootsEdits (fs : Fs) (ign : List Str) : List Str → List (List Str) → List (Edit Str)
  | _, [] => []
  | old, new :: calls => rootsEdit fs ign old new :: rootsEdits fs ign new calls

/-- What a sequence of calls on a new backend leaves watched. -/
def watched (fs : Fs) (ign : List Str) (calls : List (List Str)) : Set Str :=
  {p | p ∈ (calls.foldl (setRoots ign) (fresh fs)).watches}

theorem rootsEdits_dedup : ∀ (calls : List (List Str)),
    rootsEdits fs ign old.dedup calls = rootsEdits fs ign old calls
  | [] => rfl
  | new :: calls => by simp only [rootsEdits, rootsEdit, List.mem_dedup]

theorem watches_setRoots_run : ∀ (calls : List (List Str)) (w : World),
    w.inst.full = false → (∀ R ∈ calls, ∀ r ∈ R, Normalized r) →
      {p | p ∈ (calls.foldl (setRoots ign) w).watches} =
        (rootsEdits w.inst.fs ign w.roots calls).foldl Edit.apply {p | p ∈ w.watches}
  | [], _, _, _ => rfl
  | new :: calls, w, hfull, hcalls => by
      obtain ⟨hfs, hfull', hroots, hw⟩ := setRoots_edit hfull (hcalls new (by simp))
      rw [List.foldl_cons, watches_setRoots_run calls _ hfull' fun R hR => hcalls R (by simp [hR]),
        hfs, hroots, hw, rootsEdits_dedup]
      rfl

theorem watched_eq_run (hcalls : ∀ R ∈ calls, ∀ r ∈ R, Normalized r) :
    watched fs ign calls = Edit.run (rootsEdits fs ign [] calls) :=
  (watches_setRoots_run calls (fresh fs) rfl hcalls).trans (by
    rw [show {p | p ∈ (fresh fs).watches} = (∅ : Set Str) from
      Set.eq_empty_of_forall_notMem fun p hp => AList.notMem_empty p hp]
    rfl)

/-! ### The target -/

/-- The spellings of the existing directories at or under an existing root, none ignored. -/
def target (fs : Fs) (ign : List Str) (R : List Str) : Set Str :=
  {p | ∃ r ∈ R, fs.isDir (parse r).segs = true ∧ isIgnored ign r = false ∧
    ∃ d : AbsPath, parse r ≤ d ∧ fs.isDir d.segs = true ∧ isIgnored ign d.toStr = false ∧
      p = d.toStr}

/-- A call adds what is at or under its new roots, where no name ends in white space. -/
theorem attaches_of_clean {a d : AbsPath} (hle : a ≤ d) (hd : fs.isDir d.segs = true)
    (hi : isIgnored ign d.toStr = false) (hc : d.Clean) : Attaches ign fs a d.toStr :=
  ⟨d, visits_of_le hle hd hi, by rw [hc], hi, by rw [hc]; exact Fs.node_ne_none_of_isDir hd⟩

/-- A root that enters adds its tree. -/
theorem exists_add {r : Str} (hd : fs.isDir (parse r).segs = true) (hi : isIgnored ign r = false)
    (hp : Attaches ign fs (parse r) p) : ∀ (calls : List (List Str)) (old : List Str), r ∉ old →
      (∃ R ∈ calls, r ∈ R) → ∃ e ∈ rootsEdits fs ign old calls, p ∈ e.add
  | [], _, _, h => by simp at h
  | new :: calls, old, hold, h => by
      by_cases hr : r ∈ new
      · exact ⟨_, List.mem_cons_self, r, hr, hold, hd, hi, hp⟩
      · obtain ⟨R, hR, hrR⟩ := h
        have hR' : R ∈ calls := (List.mem_cons.mp hR).resolve_left fun e => hr (e ▸ hrR)
        obtain ⟨e, he, hadd⟩ := exists_add hd hi hp calls new hr ⟨R, hR', hrR⟩
        exact ⟨e, List.mem_cons_of_mem _ he, hadd⟩

/-- Every directory of the target is added at some point, when their names are kept. -/
theorem exists_add_of_target {R : List Str} (hnames : ∀ p ∈ target fs ign R, normalizePath p = p)
    (hR : R ∈ calls) : ∀ p ∈ target fs ign R, ∃ e ∈ rootsEdits fs ign [] calls, p ∈ e.add := by
  rintro p hp
  obtain ⟨r, hr, hrd, hri, d, hle, hd, hi, rfl⟩ := id hp
  have hc : d.Clean := AbsPath.clean_iff.mpr (hnames _ hp)
  exact exists_add hrd hri (attaches_of_clean hle hd hi hc) calls [] (by simp) ⟨R, hR, hr⟩

/-- What a walk of a root of `R` visits is in the target. -/
theorem mem_target_of_visits {R : List Str} {r : Str} {d : AbsPath} (hr : r ∈ R)
    (hn : Normalized r) (hrd : fs.isDir (parse r).segs = true) (hri : isIgnored ign r = false)
    (hv : Visits ign fs (parse r) d) : d.toStr ∈ target fs ign R := by
  obtain ⟨a, -, rfl⟩ := exists_clean_of_normalized hn.1 hn.2
  obtain ⟨t, rfl, ht, hd⟩ := hv
  rw [AbsPath.parse_toStr] at hrd hd ⊢
  exact ⟨a.toStr, hr, by rwa [AbsPath.parse_toStr], hri, a.extend t,
    by rw [AbsPath.parse_toStr]; exact AbsPath.le_extend a t, hd,
    isIgnored_extend.mpr ⟨hri, ht⟩, rfl⟩

section Fresh
variable {R : List Str} (hR : ∀ r ∈ R, Normalized r)
include hR

theorem mem_watched_singleton : p ∈ watched fs ign [R] ↔ ∃ r ∈ R,
    fs.isDir (parse r).segs = true ∧ isIgnored ign r = false ∧ Attaches ign fs (parse r) p := by
  rw [watched_eq_run (by simpa using hR)]
  simp [rootsEdits, Edit.run, Edit.mem_apply, rootsEdit]

/-- **One call on a new backend**: the target, if and only if the names in it are kept. -/
theorem watched_singleton_iff :
    watched fs ign [R] = target fs ign R ↔ ∀ p ∈ target fs ign R, normalizePath p = p := by
  constructor
  · intro h
    -- the deepest directory whose name is not kept would have nothing recorded for it
    have key : ∀ (k : Nat) (d : AbsPath), fs.height - d.segs.length ≤ k →
        d.toStr ∈ target fs ign R → d.Clean := by
      intro k
      induction k with
      | zero =>
          intro d hk hd
          obtain ⟨_, -, -, -, d', -, hd', -, hdd'⟩ := hd
          obtain rfl := AbsPath.toStr_injective hdd'
          have := Fs.length_lt_height (Fs.node_ne_none_of_isDir hd')
          omega
      | succ k ih =>
          intro d hk hd
          obtain ⟨r, hr, hrd, hri, e, hv, hde, -, -⟩ := (mem_watched_singleton hR).mp (h ▸ hd)
          obtain rfl := AbsPath.toStr_injective hde
          have hlen := AbsPath.length_trim_le e
          by_cases hlt : e.trim.segs.length = e.segs.length
          · exact AbsPath.clean_trim hlt
          · have hlt' := Fs.length_lt_height (Fs.node_ne_none_of_isDir hv.choose_spec.2.2)
            have hclean : e.Clean := ih e (by omega)
              (mem_target_of_visits hr (hR r hr) hrd hri hv)
            rw [AbsPath.Clean] at hclean
            rw [hclean] at hlt
            exact absurd rfl hlt
    rintro p hp
    obtain ⟨r, -, -, -, d, -, -, -, rfl⟩ := id hp
    exact (key _ d le_rfl hp).normalizePath
  · intro hnames
    ext p
    rw [mem_watched_singleton hR]
    constructor
    · rintro ⟨r, hr, hrd, hri, d, hv, rfl, -, -⟩
      have hd := mem_target_of_visits hr (hR r hr) hrd hri hv
      rwa [AbsPath.clean_iff.mpr (hnames _ hd)]
    · rintro hp
      obtain ⟨r, hr, hrd, hri, d, hle, hd, hi, rfl⟩ := id hp
      exact ⟨r, hr, hrd, hri, attaches_of_clean hle hd hi (AbsPath.clean_iff.mpr (hnames _ hp))⟩

/-- **`set_roots` by its last call**: a sequence of calls that ends with `R` leaves what
`set_roots(R)` alone leaves, and that is the target, if and only if the target's names are kept,
no call strips a directory of the target for good, and whatever else a call adds is stripped. -/
theorem watched_setRoots_iff (hcalls : ∀ R ∈ calls, ∀ r ∈ R, Normalized r) :
    (watched fs ign (calls ++ [R]) = watched fs ign [R] ∧
        watched fs ign [R] = target fs ign R) ↔
      (∀ p ∈ target fs ign R, normalizePath p = p) ∧
        Edit.Restored (rootsEdits fs ign [] (calls ++ [R])) (target fs ign R) ∧
        Edit.Cleared (rootsEdits fs ign [] (calls ++ [R])) (target fs ign R) := by
  have hall : ∀ R' ∈ calls ++ [R], ∀ r ∈ R', Normalized r := by
    intro R' hR'
    rcases List.mem_append.mp hR' with h | h
    · exact hcalls R' h
    · rwa [List.mem_singleton.mp h]
  rw [watched_singleton_iff hR, and_comm]
  refine and_congr_right fun hnames => ?_
  rw [(watched_singleton_iff hR).mpr hnames, watched_eq_run hall]
  exact Edit.run_eq_iff (exists_add_of_target hnames (by simp))

end Fresh

/-! ### A root nested in a root that is dropped -/

/-- `/a` with a directory `b` in it. -/
def nested : Fs := (Fs.bare.create [] (.lit "a") true).create [.lit "a"] (.lit "b") true

theorem watched_setRoots_nested :
    (watched nested [] ([[str "/a"]] ++ [[str "/a/b"]]) = watched nested [] [[str "/a/b"]] ∧
        watched nested [] [[str "/a/b"]] = target nested [] [str "/a/b"]) ↔
      (∀ p ∈ target nested [] [str "/a/b"], normalizePath p = p) ∧
        Edit.Restored (rootsEdits nested [] [] ([[str "/a"]] ++ [[str "/a/b"]]))
          (target nested [] [str "/a/b"]) ∧
        Edit.Cleared (rootsEdits nested [] [] ([[str "/a"]] ++ [[str "/a/b"]]))
          (target nested [] [str "/a/b"]) :=
  watched_setRoots_iff (by decide) (by decide)

/-- `set_roots({/a, /a/b})` and then `set_roots({/a/b})` leave `/a/b` unwatched: the second call
strips the tree of `/a`, and `/a/b` is not new. -/
theorem setRoots_drops_nested :
    (∀ R ∈ [[str "/a", str "/a/b"], [str "/a/b"]], ∀ r ∈ R, Normalized r) ∧
      watched nested [] [[str "/a", str "/a/b"], [str "/a/b"]] ≠
        watched nested [] [[str "/a/b"]] := by
  refine ⟨by decide, fun h => ?_⟩
  have hin : str "/a/b" ∈ watched nested [] [[str "/a/b"]] := by
    show str "/a/b" ∈ AList.keys _
    decide
  have hout : str "/a/b" ∉ watched nested [] [[str "/a", str "/a/b"], [str "/a/b"]] := by
    show str "/a/b" ∉ AList.keys _
    decide
  exact hout (h ▸ hin)

end World

end MediaScanMonitor
