import MediaScanMonitor.Watcher.Generator

/-!
# Watcher — the watched paths and the current roots

`events()` acts on a queued event without looking at the roots, and an event outlives the root it
came from.

* `Contained`: every key of `_watches` is at or under a current root, and no name in it is ignored.
* `Careful`: the steps that keep this.  No walk of `events()` lists an existing directory outside
  the current roots, no walk lists one whose normalised path leaves them, and `set_roots` drops
  `/`, whose subtree it does not recognise, only when nothing is left behind.
* `contained_of_run`: careful steps, in any order, keep the keys inside the roots.
-/

namespace MediaScanMonitor
open Py Posix Inotify

namespace World
variable {w w' : World} {ign : List Str} {a b d : AbsPath} {p : Str} {roots R : List Str}

/-- Every watched path is at or under a root, and is not ignored. -/
def Contained (ign : List Str) (w : World) : Prop :=
  ∀ p ∈ w.watches, ∃ a : AbsPath, p = a.toStr ∧ Under w.roots a ∧ World.isIgnored ign p = false

/-- One watch more, at or under a root. -/
theorem Contained.addWatch (h : Contained ign w) (hfull : w.inst.full = false)
    (ha : Under w.roots a) (hi : World.isIgnored ign a.toStr = false) :
    Contained ign (w.addWatch a.toStr) := by
  intro p hp
  obtain ⟨-, -, hroots⟩ := addWatch_fields hfull a
  rw [hroots]
  rcases (mem_addWatch_iff hfull).mp hp with hp | ⟨rfl, -⟩
  · exact h p hp
  · exact ⟨a, rfl, ha, hi⟩

/-- The paths recorded under a dropped root go with it, unless the root is `/`. -/
theorem contained_setRoots (h : Contained ign w) (hs : Sound w)
    (hroot : (∃ r ∈ goneRoots w.roots R, (parse r).segs = []) → ∀ p ∈ w.watches,
      Under R (parse p) ∨ ∃ r ∈ goneRoots w.roots R, inTree r p = true) :
    Contained ign { (goneRoots w.roots R).foldl removeWatchTree w with roots := R } := by
  intro p hp
  obtain ⟨hp, hno⟩ := (mem_foldl_removeWatchTree _ _).mp hp
  obtain ⟨a, rfl, ⟨r, hr, hra⟩, hi⟩ := h p hp
  refine ⟨a, rfl, ?_, hi⟩
  by_cases hrR : r ∈ R
  · exact ⟨r, hrR, hra⟩
  · have hgone : r ∈ goneRoots w.roots R := List.mem_filter.mpr ⟨hr, by simpa using hrR⟩
    obtain ⟨b, rfl⟩ := hs.roots r hr
    rw [AbsPath.parse_toStr] at hra
    by_cases hb : b.segs = []
    · -- `/` goes: what its test misses is under a root that stays, or goes with another root
      rcases hroot ⟨_, hgone, by rwa [AbsPath.parse_toStr]⟩ _ hp with hu | ⟨g, hg, hgp⟩
      · rwa [AbsPath.parse_toStr] at hu
      · rw [hno g hg] at hgp; cases hgp
    · have hin := (inTree_toStr hb).mpr hra
      rw [hno _ hgone] at hin; cases hin

end World

/-! ### A walk inside the roots -/

namespace Walk
variable {w : World} {ign : List Str} {k : Walk} {roots : List Str} {top : Str → Prop}
open World

/-- What a frame of a walk is about: a path at or under a root, or the top of the walk, not yet
listed; and, once listed, one whose normalised path is at or under a root too. -/
def FrameOk (ign roots : List Str) (top : Str → Prop) : Frame → Prop
  | .toList p => ∃ d : AbsPath, p = d.toStr ∧ (Under roots d ∨ top p)
  | .toAttach p _ _ => ∃ d : AbsPath, p = d.toStr ∧ Under roots d ∧
      (World.isIgnored ign d.trim.toStr = false → Under roots d.trim)

/-- Normalising the path of what is listed next does not take it out of the roots. -/
def Keeps (ign : List Str) (w : World) (k : Walk) : Prop :=
  ∀ p ∈ k.listing, w.inst.fs.isDir (parse p).segs = true → Under w.roots (parse p) →
    World.isIgnored ign (normalizePath p) = false → Under w.roots (parse (normalizePath p))

instance : Decidable (k.Keeps ign w) := inferInstanceAs (Decidable (∀ p ∈ k.listing, _))

/-- **One step of a walk keeps the watches inside the roots.** -/
theorem contained_step (hs : Sound w) (hc : Contained ign w)
    (hk : ∀ f ∈ k.stack, FrameOk ign w.roots top f)
    (htop : ∀ p ∈ k.listing, top p → w.inst.fs.isDir (parse p).segs = true →
      Under w.roots (parse p))
    (hkeeps : Keeps ign w k) :
    Sound (k.step ign w).1 ∧ Contained ign (k.step ign w).1 ∧
      (k.step ign w).1.roots = w.roots ∧ (k.step ign w).2.root = k.root ∧
      ∀ f ∈ (k.step ign w).2.stack, FrameOk ign w.roots top f := by
  obtain ⟨root, stack, syn⟩ := k
  cases stack with
  | nil => exact ⟨hs, hc, rfl, rfl, hk⟩
  | cons f rest =>
      have hrest : ∀ f ∈ rest, FrameOk ign w.roots top f := fun f hf => hk f (by simp [hf])
      cases f with
      | toList p =>
          obtain ⟨d, rfl, hd⟩ := hk (.toList p) (by simp)
          simp only [step, AbsPath.parse_toStr]
          cases hscan : w.inst.fs.scandir d.segs with
          | none => exact ⟨hs, hc, rfl, rfl, hrest⟩
          | some listed =>
              have hdir := (Fs.scandir_eq_some hscan).1
              have hu : Under w.roots d := hd.elim id fun h => by
                have := htop _ rfl h (by rwa [AbsPath.parse_toStr])
                rwa [AbsPath.parse_toStr] at this
              refine ⟨hs, hc, rfl, rfl, fun f hf => ?_⟩
              rcases List.mem_cons.mp hf with rfl | hf
              · refine ⟨d, rfl, hu, fun hi => ?_⟩
                have hkept := hkeeps _ rfl (by rwa [AbsPath.parse_toStr])
                  (by rwa [AbsPath.parse_toStr]) (by rwa [AbsPath.normalizePath_toStr])
                rwa [AbsPath.normalizePath_toStr, AbsPath.parse_toStr] at hkept
              · exact hrest f hf
      | toAttach p dirnames filenames =>
          obtain ⟨d, rfl, hu, hkept⟩ := hk (.toAttach p dirnames filenames) (by simp)
          have hframes : ∀ f ∈ dirnames.map (fun n => Frame.toList (join d.toStr n.val)) ++ rest,
              FrameOk ign w.roots top f := fun f hf => by
            rcases List.mem_append.mp hf with hf | hf
            · obtain ⟨n, -, rfl⟩ := List.mem_map.mp hf
              exact ⟨d.push n, AbsPath.join_toStr d n, .inl (hu.mono (AbsPath.le_push d n))⟩
            · exact hrest f hf
          simp only [step, visit, AbsPath.normalizePath_toStr]
          cases hi : World.isIgnored ign d.trim.toStr with
          | true => exact ⟨hs, hc, rfl, trivial, hframes⟩
          | false =>
              exact ⟨hs.addWatch _, hc.addWatch hs.full (hkept hi) hi,
                (addWatch_fields hs.full _).2.2, trivial, hframes⟩

end Walk

/-! ### The steps of the system -/

namespace Gen
variable {ign : List Str} {g : Gen} {fs : Fs}
open World

/-- The walk of `events()` in progress. -/
def eventsWalk? (g : Gen) : Option Walk :=
  match g.busy with
  | .events walk => some walk
  | _ => none

/-- **The steps that keep the watches inside the roots.** -/
def Careful (ign : List Str) (g : Gen) : Act → Prop
  | .setRoots R =>
    let newRoots := (R.map normalizePath).dedup
    (∃ r ∈ goneRoots g.world.roots newRoots, (parse r).segs = []) → ∀ p ∈ g.world.watches,
      Under newRoots (parse p) ∨ ∃ r ∈ goneRoots g.world.roots newRoots, inTree r p = true
  | .sync =>
    (∀ k ∈ g.eventsWalk?, k.listing = some k.root →
      g.world.inst.fs.isDir (parse k.root).segs = true → Under g.world.roots (parse k.root)) ∧
    ∀ k ∈ g.walk?, k.Keeps ign g.world
  | _ => True

instance (g : Gen) : ∀ act, Decidable (Careful ign g act)
  | .setRoots R =>
    inferInstanceAs (Decidable ((∃ r ∈ goneRoots g.world.roots (R.map normalizePath).dedup, _) →
      ∀ p ∈ g.world.watches.keys, _))
  | .sync => inferInstanceAs (Decidable (_ ∧ _))
  | .op _ | .lose _ | .read | .resume => .isTrue trivial

/-- What is in progress lists and attaches inside the roots. -/
def BusyOk (ign roots : List Str) : Busy → Prop
  | .idle => True
  | .events k => ∀ f ∈ k.stack, Walk.FrameOk ign roots (· = k.root) f
  | .roots k left => (∀ r ∈ left, r ∈ roots) ∧
      ∀ k', k = some k' → ∀ f ∈ k'.stack, Walk.FrameOk ign roots (fun _ => False) f

/-- The invariant of careful runs. -/
structure Safe (ign : List Str) (g : Gen) : Prop where
  sound : Sound g.world
  contained : Contained ign g.world
  todo : ∀ root, .walk root ∈ g.todo → Spelled root
  busy : BusyOk ign g.world.roots g.busy

theorem safe_fresh (ign : List Str) (fs : Fs) : Safe ign (fresh fs) where
  sound := sound_fresh fs
  contained p hp := absurd hp (AList.notMem_empty p)
  todo root h := by cases h
  busy := trivial

/-- The generator settles: nothing is watched or dropped, and a walk starts at its top. -/
theorem Safe.settle (hs : Sound g.world) (hc : Contained ign g.world)
    (ht : ∀ root, .walk root ∈ g.todo → Spelled root) : Safe ign g.settle := by
  obtain ⟨w, todo, busy, out⟩ := g
  cases todo with
  | nil => exact ⟨hs, hc, ht, trivial⟩
  | cons task todo =>
      have ht' : ∀ root, .walk root ∈ todo → Spelled root := fun root h => ht root (by simp [h])
      cases task with
      | yieldEvent e => exact ⟨hs, hc, ht', trivial⟩
      | walk root =>
          obtain ⟨a, rfl⟩ := ht root (by simp)
          refine ⟨hs, hc, ht', fun f hf => ?_⟩
          rw [List.mem_singleton.mp hf]
          exact ⟨a, rfl, .inr rfl⟩

theorem Safe.read (h : Safe ign g) : Safe ign (g.read ign) := by
  rw [Gen.read]
  cases g.world.inst.queue with
  | nil => exact h
  | cons e q =>
      have hs := h.sound.dequeue
      have ht : ∀ root, .walk root ∈ (g.world.dequeue.decode ign e).2 → Spelled root :=
        fun root hr => spelled_of_walk_mem_decode hs.roots hr
      dsimp only
      rcases decode_fst g.world.dequeue e with e' | ⟨p, e'⟩
      · exact Safe.settle (by rw [e']; exact hs) (by rw [e']; exact h.contained) ht
      · refine Safe.settle (by rw [e']; exact hs.removeWatchTree p) ?_ ht
        rw [e']
        intro q hq
        obtain ⟨-, -, -, -, -, hroots⟩ := removeWatchTree_fields g.world.dequeue p
        rw [hroots]
        exact h.contained q ((mem_removeWatchTree _ p q).mp hq).1

theorem Safe.setRoots (h : Safe ign g) {R : List Str} (hR : ∀ r ∈ R, isabs r = true)
    (hcare : Careful ign g (.setRoots R)) : Safe ign (g.setRoots R) := by
  have hnew := spelled_newRoots hR
  refine ⟨?_, contained_setRoots h.contained h.sound hcare, h.todo, fun r hr => ?_, ?_⟩
  · exact (h.sound.removeWatchTrees _).withRoots hnew
  · exact (List.mem_filter.mp hr).1
  · intro k' hk'; cases hk'

theorem Safe.sync (h : Safe ign g) (hcare : Careful ign g .sync) : Safe ign (g.sync ign) := by
  obtain ⟨w, todo, busy, out⟩ := g
  cases busy with
  | idle => exact h
  | events k =>
      rw [Gen.sync]
      dsimp only
      split
      · refine Safe.settle h.sound h.contained fun root hr => h.todo root ?_
        simpa using hr
      · obtain ⟨hs, hc, hroots, hroot, hf⟩ := Walk.contained_step h.sound h.contained h.busy
          (fun p hp htop hd => htop ▸ hcare.1 k rfl (htop ▸ hp) (htop ▸ hd))
          (hcare.2 k rfl)
        refine ⟨hs, hc, h.todo, fun f hf' => ?_⟩
        dsimp only
        rw [hroots, hroot]
        exact hf f hf'
  | roots k left =>
      cases k with
      | none =>
          cases left with
          | nil => exact ⟨h.sound, h.contained, h.todo, trivial⟩
          | cons added left =>
              have hleft : ∀ r ∈ left, r ∈ w.roots := fun r hr => h.busy.1 r (by simp [hr])
              rw [Gen.sync]
              dsimp only
              split
              · refine ⟨h.sound, h.contained, h.todo, hleft, fun k' hk' f hf => ?_⟩
                cases hk'
                rw [List.mem_singleton.mp hf]
                obtain ⟨a, rfl⟩ := h.sound.roots added (h.busy.1 added (by simp))
                exact ⟨a, rfl, .inl ⟨a.toStr, h.busy.1 _ (by simp), by
                  rw [AbsPath.parse_toStr]⟩⟩
              · exact ⟨h.sound, h.contained, h.todo, hleft, fun k' hk' => by cases hk'⟩
      | some k =>
          rw [Gen.sync]
          dsimp only
          split
          · exact ⟨h.sound, h.contained, h.todo, h.busy.1, fun k' hk' => by cases hk'⟩
          · obtain ⟨hs, hc, hroots, -, hf⟩ := Walk.contained_step h.sound h.contained
              (h.busy.2 k rfl) (fun _ _ htop _ => htop.elim) (hcare.2 k rfl)
            refine ⟨hs, hc, h.todo, fun r hr => ?_, fun k' hk' => ?_⟩
            · dsimp only
              rw [hroots]
              exact h.busy.1 r hr
            · cases hk'
              dsimp only
              rw [hroots]
              exact hf

/-- **A careful step keeps the invariant.** -/
theorem Safe.next (h : Safe ign g) {act : Act} (hen : (system ign).enabled g act)
    (hcare : Careful ign g act) : Safe ign ((system ign).next g act) := by
  cases act with
  | op op => exact ⟨h.sound.apply op, h.contained, h.todo, h.busy⟩
  | lose kept =>
      exact ⟨⟨h.sound.full, h.sound.lt, h.sound.roots, h.sound.keys⟩, h.contained, h.todo, h.busy⟩
  | setRoots R => exact h.setRoots hen.2 hcare
  | read => exact h.read
  | resume => exact Safe.settle h.sound h.contained h.todo
  | sync => exact h.sync hcare

/-- **The watches stay inside the roots** in every state careful steps reach, whatever happens to
the tree; with no roots nothing is watched. -/
theorem contained_of_run {l : List Act}
    (h : Lts.Run (system ign) (Careful ign) (fresh fs) l g) :
    Contained ign g.world ∧ (g.world.roots = [] → g.world.watches.keys = []) := by
  have hsafe : Safe ign g := h.invariant (safe_fresh ign fs) fun _ _ hs hen hc => hs.next hen hc
  refine ⟨hsafe.contained, fun hr => List.eq_nil_iff_forall_not_mem.mpr fun p hp => ?_⟩
  obtain ⟨a, -, ⟨r, hr', -⟩, -⟩ := hsafe.contained p (AList.mem_keys.mpr hp)
  rw [hr] at hr'
  cases hr'

/-! ### An event outlives its root -/

/-- `set_roots({/a})` on a new backend; `/a/x` appears and its event is handled. -/
def adopted : List Act :=
  .setRoots [str "/a"] :: List.replicate 5 .sync ++
    [.op (.create [.lit "a"] (.lit "x") true), .read, .resume] ++ List.replicate 3 .sync

theorem contained_adopted :
    Contained [] (adopted.foldl (system []).next (fresh shelf)).world ∧
      ((adopted.foldl (system []).next (fresh shelf)).world.roots = [] →
        (adopted.foldl (system []).next (fresh shelf)).world.watches.keys = []) :=
  contained_of_run (Lts.run_of_exec (by decide))

/-- `set_roots({/a})`; `/a/x` appears; `set_roots({})` before its event is handled. -/
def parked : List Act :=
  .setRoots [str "/a"] :: List.replicate 5 .sync ++
    [.op (.create [.lit "a"] (.lit "x") true), .setRoots [], .sync, .read, .resume] ++
    List.replicate 2 .sync

/-- The parked backend watches `/a/x`. -/
theorem parked_watches :
    Lts.Run (system []) Lts.free (fresh shelf) parked
        (parked.foldl (system []).next (fresh shelf)) ∧
      (parked.foldl (system []).next (fresh shelf)).world.roots = [] ∧
      (parked.foldl (system []).next (fresh shelf)).world.watches.keys = [str "/a/x"] :=
  ⟨Lts.run_of_exec (by decide), by decide, by decide⟩

end Gen

end MediaScanMonitor
