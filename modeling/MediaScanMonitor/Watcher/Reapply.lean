import MediaScanMonitor.Watcher.Coverage
import MediaScanMonitor.Watcher.Exact
import MediaScanMonitor.Watcher.Generator
import MediaScanMonitor.Watcher.Overflow

/-!
# Watcher — applying roots again

`set_roots` is a diff against the current roots: it strips the trees of the roots that are gone
and walks those that are new.  Between two calls, and during a call, directories come and go and
the kernel may run out of watches.

* `live_setRoots_iff`: what one call that nothing disturbs makes live.
* `uninterrupted_setRoots`: such a call, step by step, is `setRoots`.
* `reapply`: after any history, such a call covers the roots it adds, and leaves the watches under
  the roots it keeps as they were.
-/

namespace MediaScanMonitor
open Py Posix Inotify

namespace World
variable {w : World} {ign : List Str} {d : AbsPath} {p : Str} {gone R : List Str}

/-! ### The trees that are stripped -/

theorem lookup_removeWatchTrees (gone : List Str) (w : World) (p : Str) :
    (gone.foldl removeWatchTree w).watches.lookup p =
      if ∃ g ∈ gone, inTree g p = true then none else w.watches.lookup p := by
  induction gone generalizing w with
  | nil => simp
  | cons g gone ih =>
      rw [List.foldl_cons, ih, lookup_removeWatchTree]
      by_cases hg : inTree g p = true <;> simp [hg]

theorem nextWd_removeWatchTrees (gone : List Str) (w : World) :
    (gone.foldl removeWatchTree w).inst.nextWd = w.inst.nextWd := by
  induction gone generalizing w with
  | nil => rfl
  | cons g gone ih =>
      obtain ⟨-, -, -, hnext, -⟩ := removeWatchTree_fields w g
      rw [List.foldl_cons, ih, hnext]

theorem wdAt_removeWatchTrees (gone : List Str) (w : World) (l : Loc) (wd : Nat) :
    (gone.foldl removeWatchTree w).inst.wdAt l = some wd ↔ w.inst.wdAt l = some wd ∧
      ∀ g ∈ gone, ∀ p, inTree g p = true → w.watches.lookup p ≠ some wd := by
  induction gone generalizing w with
  | nil => simp
  | cons g gone ih =>
      rw [List.foldl_cons, ih, wdAt_removeWatchTree, and_assoc]
      refine and_congr_right fun _ => ?_
      rw [List.forall_mem_cons]
      refine and_congr_right fun hg => forall₂_congr fun g' _ => forall₂_congr fun p _ => ?_
      rw [lookup_removeWatchTree]
      by_cases hp : inTree g p = true
      · simp [hp, hg p hp]
      · rw [if_neg hp]

/-- The watch of `p` is recorded for a path under one of the roots, `p` itself included. -/
def SharedWith (gone : List Str) (w : World) (p : Str) : Prop :=
  ∃ g ∈ gone, ∃ k, inTree g k = true ∧ w.watches.lookup k = w.watches.lookup p

theorem live_removeWatchTrees :
    Live (gone.foldl removeWatchTree w) p ↔ Live w p ∧ ¬ SharedWith gone w p := by
  -- `p` shares its watch with itself, so a path that is stripped needs no case of its own
  have hpath : (∃ g ∈ gone, inTree g p = true) → SharedWith gone w p := by
    rintro ⟨g, hg, hin⟩
    exact ⟨g, hg, p, hin, rfl⟩
  constructor
  · rintro ⟨wd, hwd, hat⟩
    rw [lookup_removeWatchTrees] at hwd
    split at hwd
    · cases hwd
    · obtain ⟨hat, hother⟩ := (wdAt_removeWatchTrees _ _ _ _).mp hat
      refine ⟨⟨wd, hwd, hat⟩, ?_⟩
      rintro ⟨g, hg, k, hin, heq⟩
      exact hother g hg k hin (heq.trans hwd)
  · rintro ⟨⟨wd, hwd, hat⟩, hno⟩
    refine ⟨wd, ?_, (wdAt_removeWatchTrees _ _ _ _).mpr ⟨hat, fun g hg k hin heq => ?_⟩⟩
    · rw [lookup_removeWatchTrees, if_neg fun h => hno (hpath h), hwd]
    · exact hno ⟨g, hg, k, hin, heq.trans hwd.symm⟩

/-! ### The trees that are walked -/

/-- Nothing changes the tree between the walks of one call. -/
theorem foldl_addRoot_eq (ign : List Str) : ∀ (added : List Str) (w : World),
    (∀ r ∈ added, Spelled r) → added.foldl (addRoot ign) w = walkAll ign w
      (added.filter fun r => w.inst.fs.isDir (parse r).segs && !isIgnored ign r)
  | [], _, _ => rfl
  | r :: added, w, h => by
      obtain ⟨a, rfl⟩ := h r (by simp)
      have ih := foldl_addRoot_eq ign added (addRoot ign w a.toStr) fun r hr => h r (by simp [hr])
      rw [List.foldl_cons, ih, List.filter_cons, addRoot]
      split
      · rw [fs_walkAddWatches]
        rfl
      · rfl

/-- **What one call makes live**: what was live and keeps its watch, and what a walk of an added
root records. -/
theorem live_setRoots_iff (h : Sound w) (hR : ∀ r ∈ R, isabs r = true) :
    let new := (R.map normalizePath).dedup
    let gone := goneRoots w.roots new
    Live (w.setRoots ign R) d.toStr ↔ (Live w d.toStr ∧ ¬ SharedWith gone w d.toStr) ∨
      (d.toStr ∉ (gone.foldl removeWatchTree w).watches ∧ ∃ r ∈ new, r ∉ w.roots ∧
        w.inst.fs.isDir (parse r).segs = true ∧ isIgnored ign r = false ∧
          Attaches ign w.inst.fs (parse r) d.toStr) := by
  intro new gone
  have hnew : ∀ r ∈ addedRoots w.roots new, Spelled r := fun r hr =>
    spelled_newRoots hR r (List.mem_filter.mp hr).1
  obtain ⟨hfs, -, -⟩ := foldl_removeWatchTree_fields gone w
  have hworld : Live (w.setRoots ign R) d.toStr ↔ Live ((addedRoots w.roots new).foldl
      (addRoot ign) (gone.foldl removeWatchTree w)) d.toStr := Iff.rfl
  rw [hworld, foldl_addRoot_eq ign _ _ hnew, live_walkAll_iff (h.removeWatchTrees gone) fun r hr =>
    hnew r (List.mem_filter.mp hr).1, live_removeWatchTrees, hfs]
  refine or_congr_right (and_congr_right fun _ => exists_congr fun r => ?_)
  simp only [addedRoots, List.mem_filter, decide_eq_true_eq, Bool.and_eq_true, Bool.not_eq_true',
    and_assoc]

/-! ### One watch more, or a failure -/

/-- What `_add_watch` can do, watches to be had or not. -/
theorem addWatch_bound (w : World) (a : AbsPath) : (w.addWatch a.toStr).roots = w.roots ∧
    w.inst.nextWd ≤ (w.addWatch a.toStr).inst.nextWd ∧
      ∀ p wd, (w.addWatch a.toStr).watches.lookup p = some wd → w.watches.lookup p = some wd ∨
        (p = a.toStr ∧ wd < (w.addWatch a.toStr).inst.nextWd) := by
  obtain ⟨hle, hlt⟩ := w.inst.addWatch_lt (parse a.toStr)
  unfold addWatch
  split
  · exact ⟨rfl, le_rfl, fun p wd h => .inl h⟩
  · split
    · rename_i inst wd hadd
      rw [hadd] at hle hlt
      refine ⟨rfl, hle, fun p v hv => ?_⟩
      by_cases hp : p = a.toStr
      · subst hp
        rw [AList.lookup_insert] at hv
        cases hv
        exact .inr ⟨rfl, hlt wd rfl⟩
      · rw [AList.lookup_insert_ne hp] at hv
        exact .inl hv
    · rename_i inst hadd
      rw [hadd] at hle
      exact ⟨rfl, hle, fun p wd h => .inl h⟩

/-- `w` with other roots. -/
def withRoots (w : World) (R : List Str) : World := { w with roots := R }

theorem addWatch_withRoots (w : World) (R : List Str) (p : Str) :
    (w.withRoots R).addWatch p = (w.addWatch p).withRoots R := by
  unfold addWatch
  rw [show (w.withRoots R).watches = w.watches from rfl,
    show (w.withRoots R).inst = w.inst from rfl]
  split
  · rfl
  · split <;> rfl

theorem walkAddWatches_withRoots (w : World) (R : List Str) (a : Str) :
    ((w.withRoots R).walkAddWatches ign a).1 = (w.walkAddWatches ign a).1.withRoots R := by
  have key : ∀ (entries : List (Str × List Name)) (w : World) (events : List FsEvent),
      (entries.foldl (visit ign a) (w.withRoots R, events)).1 =
        (entries.foldl (visit ign a) (w, events)).1.withRoots R := by
    intro entries
    induction entries with
    | nil => exact fun _ _ => rfl
    | cons entry entries ih =>
        intro w events
        rw [List.foldl_cons, List.foldl_cons]
        simp only [visit]
        split
        · exact ih w events
        · rw [addWatch_withRoots]
          exact ih _ _
  exact key _ w []

theorem foldl_addRoot_withRoots (R : List Str) : ∀ (added : List Str) (w : World),
    added.foldl (addRoot ign) (w.withRoots R) = (added.foldl (addRoot ign) w).withRoots R
  | [], _ => rfl
  | r :: added, w => by
      have hstep : addRoot ign (w.withRoots R) r = (addRoot ign w r).withRoots R := by
        simp only [addRoot]
        rw [show (w.withRoots R).inst = w.inst from rfl]
        split
        · exact walkAddWatches_withRoots w R r
        · rfl
      rw [List.foldl_cons, List.foldl_cons, hstep, foldl_addRoot_withRoots R added]

end World

/-! ### The steps of a call -/

namespace Reapply
variable {ign : List Str} {g g₁ g₂ : Gen}

/-- What happens to the backend and around it: the tree changes, the kernel runs out of watches or
has some to give again, `set_roots` is called, the call in progress goes on. -/
inductive Act where
  | op (op : Inst.Op)
  | limit (full : Bool)
  | setRoots (roots : List Str)
  | sync

def limit (w : World) (full : Bool) : World := { w with inst := { w.inst with full := full } }

def system (ign : List Str) : Lts.System Gen Act where
  enabled g
    | .op op => g.world.inst.enabled op
    | .limit _ => True
    | .setRoots roots => g.busy = .idle ∧ ∀ r ∈ roots, isabs r = true
    | .sync => g.busy ≠ .idle
  next g
    | .op op => { g with world := g.world.apply op }
    | .limit full => { g with world := limit g.world full }
    | .setRoots roots => g.setRoots roots
    | .sync => g.sync ign

instance (ign : List Str) (g : Gen) : ∀ act, Decidable ((system ign).enabled g act)
  | .op op => inferInstanceAs (Decidable (g.world.inst.enabled op))
  | .limit _ => .isTrue trivial
  | .setRoots roots => inferInstanceAs (Decidable (g.busy = .idle ∧ ∀ r ∈ roots, isabs r = true))
  | .sync => inferInstanceAs (Decidable (g.busy ≠ .idle))

/-- The call in progress goes on, and nothing else happens. -/
def Uninterrupted (ign : List Str) : Gen → Gen → Prop :=
  Relation.ReflTransGen fun g g' => g.busy ≠ .idle ∧ g' = g.sync ign

/-- A call that has ended does not go on. -/
theorem Uninterrupted.eq_of_idle (h : Uninterrupted ign g g₁) (hidle : g.busy = .idle) :
    g = g₁ := by
  rcases Relation.ReflTransGen.cases_head h with h | ⟨_, ⟨hbusy, -⟩, -⟩
  · exact h
  · exact absurd hidle hbusy

/-- A call ends in one way. -/
theorem Uninterrupted.unique (h₁ : Uninterrupted ign g g₁) (h₂ : Uninterrupted ign g g₂)
    (hidle₁ : g₁.busy = .idle) (hidle₂ : g₂.busy = .idle) : g₁ = g₂ := by
  have hunique : Relator.RightUnique fun g g' : Gen => g.busy ≠ .idle ∧ g' = g.sync ign := by
    rintro a b c ⟨-, rfl⟩ ⟨-, rfl⟩
    rfl
  rcases Relation.ReflTransGen.total_of_right_unique hunique h₁ h₂ with h | h
  · exact Uninterrupted.eq_of_idle h hidle₁
  · exact (Uninterrupted.eq_of_idle h hidle₂).symm

theorem uninterrupted_walk {s s' : World × Walk} (h : Walk.Steps ign s s')
    (todo : List World.Task) (left : List Str) (out : List FsEvent) :
    Uninterrupted ign ⟨s.1, todo, .roots (some s.2) left, out⟩
      ⟨s'.1, todo, .roots (some s'.2) left, out⟩ := by
  induction h with
  | refl => exact .refl
  | @tail b c _ hbc ih =>
      obtain ⟨hne, rfl⟩ := hbc
      refine .tail ih ⟨by simp, ?_⟩
      simp only [Gen.sync, if_neg hne]

theorem uninterrupted_added (todo : List World.Task) (out : List FsEvent) :
    ∀ (added : List Str) (w : World), (∀ r ∈ added, Spelled r) →
      Uninterrupted ign ⟨w, todo, .roots none added, out⟩
        ⟨added.foldl (World.addRoot ign) w, todo, .idle, out⟩
  | [], w, _ => .single ⟨by simp, rfl⟩
  | r :: added, w, h => by
      obtain ⟨a, rfl⟩ := h r (by simp)
      have ih := uninterrupted_added todo out added (World.addRoot ign w a.toStr) fun r hr =>
        h r (by simp [hr])
      rw [List.foldl_cons]
      rw [World.addRoot] at ih ⊢
      by_cases hcond : (w.inst.fs.isDir (parse a.toStr).segs &&
          !World.isIgnored ign a.toStr) = true
      · rw [if_pos hcond] at ih ⊢
        have hwalk := uninterrupted_walk (Walk.steps_walkAddWatches ign a w) todo added out
        refine .head ⟨by simp, ?_⟩ (hwalk.trans (.head ⟨by simp, ?_⟩ ih))
        · simp only [Gen.sync, if_pos hcond]
        · simp only [Gen.sync, if_true]
      · rw [if_neg hcond] at ih ⊢
        refine .head ⟨by simp, ?_⟩ ih
        simp only [Gen.sync, if_neg hcond]

/-- **A call that nothing interrupts** is `set_roots`. -/
theorem uninterrupted_setRoots {R : List Str} (hR : ∀ r ∈ R, isabs r = true) :
    Uninterrupted ign (g.setRoots R)
      { g with world := g.world.setRoots ign R, busy := .idle } := by
  have hadded : ∀ r ∈ World.addedRoots g.world.roots (R.map normalizePath).dedup, Spelled r :=
    fun r hr => spelled_newRoots hR r (List.mem_filter.mp hr).1
  have hcall := @uninterrupted_added ign g.todo g.out _
    (((World.goneRoots g.world.roots (R.map normalizePath).dedup).foldl World.removeWatchTree
      g.world).withRoots (R.map normalizePath).dedup) hadded
  rw [World.foldl_addRoot_withRoots] at hcall
  exact hcall

/-! ### What every history keeps -/

/-- The roots of a call: absolute, their normal forms normalised, none of them `/`, and none under
another. -/
def Proper (R : List Str) : Prop :=
  (∀ r ∈ R, isabs r = true ∧ Normalized (normalizePath r) ∧ (parse (normalizePath r)).segs ≠ []) ∧
    World.Apart (R.map normalizePath).dedup

instance (R : List Str) : Decidable (Proper R) := inferInstanceAs (Decidable (_ ∧ _))

/-- The name an operation brings into the tree. -/
def newName : Inst.Op → Option Name
  | .create _ n _ => some n
  | .remove _ _ => none
  | .rename _ _ _ n' => some n'

/-- The histories: roots that are apart, and no name that ends in white space. -/
def Plain (_ : Gen) : Act → Prop
  | .op op => ∀ n ∈ newName op, rstrip n.val = n.val
  | .setRoots roots => Proper roots
  | .limit _ | .sync => True

instance (g : Gen) : ∀ act, Decidable (Plain g act)
  | .op op => inferInstanceAs (Decidable (∀ n ∈ newName op, rstrip n.val = n.val))
  | .setRoots roots => inferInstanceAs (Decidable (Proper roots))
  | .limit _ | .sync => .isTrue trivial

/-- A path at or under a root that does not end in white space. -/
def Within (roots : List Str) (p : Str) : Prop :=
  ∃ d : AbsPath, p = d.toStr ∧ World.Under roots d ∧ d.Clean

/-- What is recorded and what the roots are, watches to be had or not. -/
structure Tracked (w : World) : Prop where
  lt : ∀ {p wd}, w.watches.lookup p = some wd → wd < w.inst.nextWd
  roots : ∀ r ∈ w.roots, Normalized r ∧ (parse r).segs ≠ []
  apart : World.Apart w.roots
  keys : ∀ p ∈ w.watches, Within w.roots p
  names : ∀ l, w.inst.fs.node l ≠ none → ∀ n ∈ l, rstrip n.val = n.val

section
variable {w : World} {a : AbsPath} {R : List Str}

theorem Tracked.sound (h : Tracked w) (hfull : w.inst.full = false) : World.Sound w where
  full := hfull
  lt := h.lt
  roots r hr := (h.roots r hr).1.spelled
  keys p hp := by
    obtain ⟨d, rfl, -, -⟩ := h.keys p hp
    exact ⟨d, rfl⟩

theorem Tracked.addWatch (h : Tracked w) (ha : World.Under w.roots a) (hclean : a.Clean) :
    Tracked (w.addWatch a.toStr) := by
  obtain ⟨hroots, hnext, hlookup⟩ := World.addWatch_bound w a
  refine ⟨fun {p wd} hp => ?_, ?_, ?_, fun p hp => ?_, ?_⟩
  · rcases hlookup p wd hp with hold | ⟨-, hlt⟩
    · exact (h.lt hold).trans_le hnext
    · exact hlt
  · rw [hroots]
    exact h.roots
  · rw [hroots]
    exact h.apart
  · rw [hroots]
    obtain ⟨wd, hwd⟩ := Option.isSome_iff_exists.mp (AList.lookup_isSome.mpr hp)
    rcases hlookup p wd hwd with hold | ⟨rfl, -⟩
    · exact h.keys p (World.mem_of_lookup hold)
    · exact ⟨a, rfl, ha, hclean⟩
  · rw [World.fs_addWatch]
    exact h.names

theorem names_apply {s : Inst} {op : Inst.Op} (hen : s.enabled op)
    (hnames : ∀ l, s.fs.node l ≠ none → ∀ n ∈ l, rstrip n.val = n.val)
    (hnew : ∀ n ∈ newName op, rstrip n.val = n.val) :
    ∀ l, (s.apply op).fs.node l ≠ none → ∀ n ∈ l, rstrip n.val = n.val := by
  have hentry : ∀ {l : Loc} {m : Name}, s.fs.isDir l = true → rstrip m.val = m.val →
      ∀ n ∈ l ++ [m], rstrip n.val = n.val := by
    intro l m hdir hm n hn
    rcases List.mem_append.mp hn with hn | hn
    · exact hnames l (Fs.node_ne_none_of_isDir hdir) n hn
    · rwa [List.mem_singleton.mp hn]
  cases op with
  | create l₀ n₀ dir =>
      intro l hl
      rw [Inst.fs_create, Fs.node_create hen] at hl
      by_cases e : l = l₀ ++ [n₀]
      · rw [e]
        exact hentry hen.1 (hnew n₀ rfl)
      · rw [Function.update_of_ne e] at hl
        exact hnames l hl
  | remove l₀ n₀ =>
      intro l hl
      rw [Inst.fs_remove, Fs.node_remove hen] at hl
      by_cases e : l = l₀ ++ [n₀]
      · rw [e, Function.update_self] at hl
        exact absurd rfl hl
      · rw [Function.update_of_ne e] at hl
        exact hnames l hl
  | rename l₀ n₀ l₁ n₁ =>
      -- a path of the moved tree: the names of its new parent, its new name, and names it had
      intro l hl
      rw [show (s.apply (.rename l₀ n₀ l₁ n₁)).fs = s.fs.rename (l₀ ++ [n₀]) l₁ n₁ from rfl,
        Fs.node_rename hen] at hl
      obtain ⟨v, hv⟩ := Option.ne_none_iff_exists'.mp hl
      rcases Fs.movedNode_eq_some hv with ⟨t, rfl, ht⟩ | ⟨-, -, hsame⟩
      · intro n hn
        rcases List.mem_append.mp hn with hn | hn
        · exact hentry hen.2.2.1 (hnew n₁ rfl) n hn
        · exact hnames (l₀ ++ [n₀] ++ t) (by rw [ht]; exact Option.some_ne_none _) n
            (List.mem_append_right _ hn)
      · exact hnames l (by rw [hsame]; exact Option.some_ne_none _)

theorem Tracked.apply (h : Tracked w) {op : Inst.Op} (hen : w.inst.enabled op)
    (hnew : ∀ n ∈ newName op, rstrip n.val = n.val) : Tracked (w.apply op) where
  lt {p wd} hp := by
    have hlt := h.lt hp
    cases op <;> exact hlt
  roots := h.roots
  apart := h.apart
  keys := h.keys
  names := names_apply hen h.names hnew

/-- The roots a call is given, once they are normalised. -/
theorem Proper.normalized (hR : Proper R) : ∀ r ∈ (R.map normalizePath).dedup,
    Normalized r ∧ (parse r).segs ≠ [] := by
  intro r hr
  obtain ⟨r₀, hr₀, rfl⟩ := List.mem_map.mp (List.mem_dedup.mp hr)
  exact (hR.1 r₀ hr₀).2

/-- What is left recorded is under a root that stays. -/
theorem Tracked.kept_keys {new : List Str} {p : Str} (h : Tracked w)
    (hp : p ∈ ((World.goneRoots w.roots new).foldl World.removeWatchTree w).watches) :
    ∃ r ∈ w.roots, r ∈ new ∧ ∃ d : AbsPath, p = d.toStr ∧ parse r ≤ d ∧ d.Clean := by
  obtain ⟨hp, hno⟩ := (World.mem_foldl_removeWatchTree _ _).mp hp
  obtain ⟨d, rfl, ⟨r, hr, hrd⟩, hclean⟩ := h.keys p hp
  refine ⟨r, hr, ?_, d, rfl, hrd, hclean⟩
  by_contra hrnew
  have hgone : r ∈ World.goneRoots w.roots new := List.mem_filter.mpr ⟨hr, by simpa using hrnew⟩
  obtain ⟨hnormal, hseg⟩ := h.roots r hr
  obtain ⟨a, rfl⟩ := hnormal.spelled
  rw [AbsPath.parse_toStr] at hrd hseg
  have hin := (World.inTree_toStr hseg).mpr hrd
  rw [hno _ hgone] at hin
  cases hin

/-- **The first half of a call**: nothing stays recorded under the roots that are gone. -/
theorem Tracked.setRoots (h : Tracked w) (hR : Proper R) :
    Tracked (((World.goneRoots w.roots (R.map normalizePath).dedup).foldl World.removeWatchTree
      w).withRoots (R.map normalizePath).dedup) := by
  have hroots := hR.normalized
  have hapart := hR.2
  generalize (R.map normalizePath).dedup = new at hroots hapart
  obtain ⟨hfs, -, -⟩ := World.foldl_removeWatchTree_fields (World.goneRoots w.roots new) w
  refine ⟨fun {p wd} hp => ?_, hroots, hapart, fun p hp => ?_, ?_⟩
  · rw [World.withRoots, World.lookup_removeWatchTrees] at hp
    rw [World.withRoots, World.nextWd_removeWatchTrees]
    split at hp
    · cases hp
    · exact h.lt hp
  · obtain ⟨r, -, hrnew, d, rfl, hrd, hclean⟩ := h.kept_keys hp
    exact ⟨d, rfl, ⟨r, hrnew, hrd⟩, hclean⟩
  · rw [World.withRoots, hfs]
    exact h.names

/-! ### The second half of a call -/

/-- What a frame of a walk is about: a path under a root, and names that do not end in white
space. -/
def FrameIn (roots : List Str) : Frame → Prop
  | .toList p => Within roots p
  | .toAttach p dirnames _ => Within roots p ∧ ∀ n ∈ dirnames, rstrip n.val = n.val

/-- What is in progress: a call of `set_roots`, or nothing. -/
def BusyIn (roots : List Str) : Busy → Prop
  | .idle => True
  | .events _ => False
  | .roots walk left =>
    (∀ r ∈ left, r ∈ roots) ∧ ∀ k ∈ walk, ∀ f ∈ k.stack, FrameIn roots f

theorem Tracked.step {k : Walk} (h : Tracked w) (hk : ∀ f ∈ k.stack, FrameIn w.roots f) :
    Tracked (k.step ign w).1 ∧ (k.step ign w).1.roots = w.roots ∧
      ∀ f ∈ (k.step ign w).2.stack, FrameIn w.roots f := by
  obtain ⟨root, stack, syn⟩ := k
  cases stack with
  | nil => exact ⟨h, rfl, hk⟩
  | cons f rest =>
      have hrest : ∀ f ∈ rest, FrameIn w.roots f := fun f hf => hk f (by simp [hf])
      cases f with
      | toList p =>
          obtain ⟨d, rfl, hu, hclean⟩ := hk (.toList p) (by simp)
          simp only [Walk.step, AbsPath.parse_toStr]
          cases hscan : w.inst.fs.scandir d.segs with
          | none => exact ⟨h, rfl, hrest⟩
          | some listed =>
              refine ⟨h, rfl, fun f hf => ?_⟩
              rcases List.mem_cons.mp hf with rfl | hf
              · refine ⟨⟨d, rfl, hu, hclean⟩, fun n hn => ?_⟩
                have hdir := ((Fs.scandir_eq_some hscan).2.1 n).mp (List.mem_filter.mp hn).1
                exact h.names _ (Fs.node_ne_none_of_isDir hdir) n (by simp)
              · exact hrest f hf
      | toAttach p dirnames filenames =>
          obtain ⟨⟨d, rfl, hu, hclean⟩, hnames⟩ := hk (.toAttach p dirnames filenames) (by simp)
          have hframes : ∀ f ∈ dirnames.map (fun n => Frame.toList (join d.toStr n.val)) ++ rest,
              FrameIn w.roots f := by
            intro f hf
            rcases List.mem_append.mp hf with hf | hf
            · obtain ⟨n, hn, rfl⟩ := List.mem_map.mp hf
              exact ⟨d.push n, AbsPath.join_toStr d n, hu.mono (AbsPath.le_push d n),
                AbsPath.clean_push_iff.mpr (hnames n hn)⟩
            · exact hrest f hf
          have htrim : d.trim = d := hclean
          simp only [Walk.step, World.visit, AbsPath.normalizePath_toStr, htrim]
          cases hi : World.isIgnored ign d.toStr with
          | true => exact ⟨h, rfl, hframes⟩
          | false => exact ⟨h.addWatch hu hclean, (World.addWatch_bound w d).1, hframes⟩

end

/-- The invariant of the histories. -/
structure Steady (g : Gen) : Prop where
  world : Tracked g.world
  busy : BusyIn g.world.roots g.busy

theorem steady_fresh {fs : Fs} (hnames : ∀ l, fs.node l ≠ none → ∀ n ∈ l, rstrip n.val = n.val) :
    Steady (Gen.fresh fs) where
  world := {
    lt := fun h => by cases h
    roots := fun r hr => by cases hr
    apart := fun r hr => by cases hr
    keys := fun p hp => absurd hp (AList.notMem_empty p)
    names := hnames }
  busy := trivial

theorem Steady.sync (h : Steady g) : Steady (g.sync ign) := by
  obtain ⟨hworld, hbusy⟩ := h
  obtain ⟨w, todo, busy, out⟩ := g
  cases busy with
  | idle => exact ⟨hworld, hbusy⟩
  | events walk => exact hbusy.elim
  | roots walk left =>
      cases walk with
      | none =>
          cases left with
          | nil => exact ⟨hworld, trivial⟩
          | cons added left =>
              have hleft : ∀ r ∈ left, r ∈ w.roots := fun r hr => hbusy.1 r (by simp [hr])
              rw [Gen.sync]
              dsimp only
              split
              · refine ⟨hworld, hleft, fun k hk f hf => ?_⟩
                cases hk
                rw [List.mem_singleton.mp hf]
                have hadded : added ∈ w.roots := hbusy.1 added (by simp)
                obtain ⟨hisabs, hnormal⟩ := (hworld.roots added hadded).1
                obtain ⟨a, hclean, rfl⟩ := exists_clean_of_normalized hisabs hnormal
                exact ⟨a, rfl, ⟨_, hadded, by rw [AbsPath.parse_toStr]⟩, hclean⟩
              · exact ⟨hworld, hleft, fun k hk => by cases hk⟩
      | some k =>
          rw [Gen.sync]
          dsimp only
          split
          · exact ⟨hworld, hbusy.1, fun k hk => by cases hk⟩
          · obtain ⟨htracked, hroots, hframes⟩ := @Tracked.step ign w k hworld (hbusy.2 k rfl)
            refine ⟨htracked, fun r hr => ?_, fun k' hk' => ?_⟩
            · dsimp only
              rw [hroots]
              exact hbusy.1 r hr
            · cases hk'
              dsimp only
              rw [hroots]
              exact hframes

/-- **Every step of a history keeps the invariant**, `add_watch` failing or not. -/
theorem Steady.next {act : Act} (h : Steady g) (hen : (system ign).enabled g act)
    (hplain : Plain g act) : Steady ((system ign).next g act) := by
  cases act with
  | op op => exact ⟨h.world.apply hen hplain, h.busy⟩
  | limit full =>
      obtain ⟨hlt, hroots, hapart, hkeys, hnames⟩ := h.world
      exact ⟨⟨hlt, hroots, hapart, hkeys, hnames⟩, h.busy⟩
  | setRoots roots =>
      refine ⟨h.world.setRoots hplain, fun r hr => (List.mem_filter.mp hr).1, fun k hk => ?_⟩
      cases hk
  | sync => exact h.sync

theorem steady_run {fs : Fs} {l : List Act}
    (hnames : ∀ l, fs.node l ≠ none → ∀ n ∈ l, rstrip n.val = n.val)
    (h : Lts.Run (system ign) Plain (Gen.fresh fs) l g) : Steady g :=
  h.invariant (steady_fresh hnames) fun _ _ hs hen hplain => hs.next hen hplain

/-! ### A call after any history -/

/-- The directories at and under a root, none of them ignored, have live watches. -/
def RootCovered (ign : List Str) (w : World) (r : Str) : Prop :=
  ∀ d, World.Inside w.inst.fs ign (parse r) d → World.Live w d.toStr

section
variable {w : World} {R : List Str} {r : Str} {d : AbsPath}

theorem Tracked.fs_setRoots (h : Tracked w) (hfull : w.inst.full = false) (hR : Proper R) :
    (w.setRoots ign R).inst.fs = w.inst.fs := by
  have hadded : ∀ r ∈ World.addedRoots w.roots (R.map normalizePath).dedup, Spelled r := fun r hr =>
    (hR.normalized r (List.mem_filter.mp hr).1).1.spelled
  obtain ⟨hfs, -, -⟩ := World.foldl_removeWatchTree_fields
    (World.goneRoots w.roots (R.map normalizePath).dedup) w
  rw [World.setRoots]
  dsimp only
  rw [World.foldl_addRoot_eq ign _ _ hadded]
  exact (World.roots_walkAll ign ((h.sound hfull).removeWatchTrees _) fun r hr =>
    hadded r (List.mem_filter.mp hr).1).2.trans hfs

section
variable (h : Tracked w) (hfull : w.inst.full = false) (hR : Proper R)
  (hr : r ∈ (R.map normalizePath).dedup) (hd : World.Inside w.inst.fs ign (parse r) d)
include h hfull hR hr hd

/-- A root that is added is covered: nothing is recorded under it before it is walked. -/
theorem Tracked.live_of_added (hold : r ∉ w.roots) : World.Live (w.setRoots ign R) d.toStr := by
  refine (World.live_setRoots_iff (h.sound hfull) fun r hr => (hR.1 r hr).1).mpr (.inr ⟨?_, ?_⟩)
  · intro hrec
    obtain ⟨r', hr', hnew, d', heq, hle, -⟩ := h.kept_keys hrec
    rw [← AbsPath.toStr_injective heq] at hle
    exact hold (hR.2.eq_of_above hr hnew hd.le.2 hle.2 ▸ hr')
  · obtain ⟨a, rfl⟩ := (hR.normalized r hr).1.spelled
    rw [AbsPath.parse_toStr] at hd
    have hdir : w.inst.fs.isDir a.segs = true := Fs.isDir_above hd.le.2 hd.isDir
    refine ⟨_, hr, hold, by rwa [AbsPath.parse_toStr],
      World.isIgnored_of_le hd.le hd.notIgnored, ?_⟩
    rw [AbsPath.parse_toStr]
    exact World.attaches_of_clean hd.le hd.isDir hd.notIgnored
      (World.clean_of_names h.names (Fs.node_ne_none_of_isDir hd.isDir))

/-- Under a root that stays no walk records anything. -/
theorem Tracked.live_kept_iff (hold : r ∈ w.roots) : World.Live (w.setRoots ign R) d.toStr ↔
    World.Live w d.toStr ∧ ¬ World.SharedWith
      (World.goneRoots w.roots (R.map normalizePath).dedup) w d.toStr := by
  refine (World.live_setRoots_iff (h.sound hfull) fun r hr => (hR.1 r hr).1).trans
    (or_iff_left ?_)
  rintro ⟨-, r', hr', hnew, -, -, e, ⟨t, rfl, -, hdir⟩, heq, -, -⟩
  have htrim : ((parse r').extend t).trim = (parse r').extend t :=
    World.clean_of_names h.names (Fs.node_ne_none_of_isDir hdir)
  rw [htrim] at heq
  have hle := AbsPath.le_extend (parse r') t
  rw [← AbsPath.toStr_injective heq] at hle
  exact hnew (hR.2.eq_of_above hr hr' hd.le.2 hle.2 ▸ hold)

end

/-- **Applying roots again.**  After any history of calls, changes of the tree and failures, a
call that nothing interrupts and that finds watches to be had covers every root that it adds.
Under a root that stays, a directory has a live watch if and only if it had one before that is not
recorded under a dropped root as well. -/
theorem reapply {fs : Fs} {l : List Act} {g' : Gen}
    (hnames : ∀ l, fs.node l ≠ none → ∀ n ∈ l, rstrip n.val = n.val)
    (h : Lts.Run (system ign) Plain (Gen.fresh fs) l g) (hfull : g.world.inst.full = false)
    (hR : Proper R)
    (hcall : Uninterrupted ign (g.setRoots R) g') (hdone : g'.busy = .idle) :
    ∀ r ∈ (R.map normalizePath).dedup,
      (r ∉ g.world.roots → RootCovered ign g'.world r) ∧
        (r ∈ g.world.roots → ∀ d, World.Inside g.world.inst.fs ign (parse r) d →
          (World.Live g'.world d.toStr ↔ World.Live g.world d.toStr ∧ ¬ World.SharedWith
            (World.goneRoots g.world.roots (R.map normalizePath).dedup) g.world d.toStr)) := by
  have htracked : Tracked g.world := (steady_run hnames h).world
  have heq : g' = { g with world := g.world.setRoots ign R, busy := .idle } :=
    hcall.unique (uninterrupted_setRoots fun r hr => (hR.1 r hr).1) hdone rfl
  have hworld : g'.world = g.world.setRoots ign R := congrArg Gen.world heq
  intro r hr
  rw [hworld]
  refine ⟨fun hold d hd => ?_, fun hold d hd => htracked.live_kept_iff hfull hR hr hd hold⟩
  rw [htracked.fs_setRoots hfull hR] at hd
  exact htracked.live_of_added hfull hR hr hd hold

end

/-! ### A root that appears late -/

/-- `set_roots({/a})` while there is no `/a`; the kernel runs out of watches; `/a` and `/b` are
created; there are watches again. -/
def late : List Act :=
  [.setRoots [str "/a"], .sync, .sync, .limit true, .op (.create [] (.lit "a") true),
    .op (.create [] (.lit "b") true), .limit false]

def afterLate : Gen := late.foldl (system []).next (Gen.fresh Fs.bare)

theorem run_late : Lts.Run (system []) Plain (Gen.fresh Fs.bare) late afterLate :=
  Lts.run_of_exec (by decide +kernel)

theorem names_bare : ∀ l, Fs.bare.node l ≠ none → ∀ n ∈ l, rstrip n.val = n.val := by
  intro l hl
  have hdom := Fs.bare.mem_dom hl
  rw [List.mem_singleton.mp hdom]
  simp

theorem reapply_late :
    RootCovered [] (afterLate.world.setRoots [] [str "/a", str "/b"]) (str "/b") ∧
      ∀ d, World.Inside afterLate.world.inst.fs [] (parse (str "/a")) d →
        (World.Live (afterLate.world.setRoots [] [str "/a", str "/b"]) d.toStr ↔
          World.Live afterLate.world d.toStr ∧ ¬ World.SharedWith
            (World.goneRoots afterLate.world.roots
              ([str "/a", str "/b"].map normalizePath).dedup) afterLate.world d.toStr) := by
  have hcall := reapply names_bare run_late (by decide +kernel) (by decide +kernel)
    (@uninterrupted_setRoots [] afterLate [str "/a", str "/b"] (by decide +kernel)) rfl
  constructor
  · exact (hcall (str "/b") (by decide +kernel)).1 (by decide +kernel)
  · exact (hcall (str "/a") (by decide +kernel)).2 (by decide +kernel)

/-- `set_roots({/a})` once more, with `/a` there and watches to be had, leaves it unwatched. -/
theorem setRoots_again_misses :
    Lts.Run (system []) Plain (Gen.fresh Fs.bare) late afterLate ∧
      afterLate.busy = .idle ∧ afterLate.world.inst.full = false ∧ Proper [str "/a"] ∧
      afterLate.world.inst.fs.isDir (parse (str "/a")).segs = true ∧
      ∃ g', Uninterrupted [] (afterLate.setRoots [str "/a"]) g' ∧ g'.busy = .idle ∧
        g'.world.watches.keys = [] ∧ ¬ RootCovered [] g'.world (str "/a") := by
  refine ⟨run_late, rfl, by decide +kernel, by decide +kernel, by decide +kernel, _,
    uninterrupted_setRoots (by decide +kernel), rfl, by decide +kernel, fun hcovered => ?_⟩
  have hinside : World.Inside (afterLate.world.setRoots [] [str "/a"]).inst.fs []
      (parse (str "/a")) (parse (str "/a")) := ⟨le_rfl, by decide +kernel, by decide +kernel⟩
  have hmem := AList.mem_keys.mp (hcovered _ hinside).mem
  have hkeys : (afterLate.world.setRoots [] [str "/a"]).watches.keys = [] := by decide +kernel
  rw [hkeys] at hmem
  cases hmem

end Reapply

end MediaScanMonitor
