import MediaScanMonitor.Library.Lts
import MediaScanMonitor.Watcher.SetRoots

/-!
# Watcher — histories

A history of the backend between two `set_roots` calls: other processes change the tree (`op`),
a queue overflow drops events and queues its own (`lose`), and `events()` handles the oldest
queued event (`turn`).

`Sound` is what every operation of the backend keeps: watches are to be had, a recorded
descriptor is one the kernel has given, the roots are spelled as the configuration spells them,
and so is every recorded path.  It holds all along a history (`sound_history`).
-/

namespace MediaScanMonitor
open Py Posix Inotify

namespace World
variable {w w' : World} {ign : List Str} {fs : Fs} {a b : AbsPath} {p : Str} {wd : Nat}

/-! ### The system -/

/-- The tree changes; the backend does not notice. -/
def apply (w : World) (op : Inst.Op) : World := { w with inst := w.inst.apply op }

@[simp] theorem inst_apply (w : World) (op : Inst.Op) : (w.apply op).inst = w.inst.apply op := rfl

/-- The queue without its oldest event. -/
def dequeue (w : World) : World := { w with inst := { w.inst with queue := w.inst.queue.tail } }

/-- Events are lost, and an overflow event is queued. -/
def lose (w : World) (kept : List Raw) : World := { w with inst := w.inst.overflow kept }

/-- `events()` handles the oldest queued event. -/
def turn (ign : List Str) (w : World) : World × List FsEvent :=
  match w.inst.queue with
  | [] => (w, [])
  | e :: _ => handle ign w.dequeue e

/-- A new backend after its first `set_roots`. -/
def start (fs : Fs) (ign : List Str) (R : List Str) : World := (fresh fs).setRoots ign R

/-- `/a`, empty. -/
def shelf : Fs := Fs.bare.create [] (.lit "a") true

inductive Act where
  | op (op : Inst.Op)
  | lose (kept : List Raw)
  | turn

def history (ign : List Str) : Lts.System World Act where
  enabled w
    | .op op => w.inst.enabled op
    | .lose kept => kept.Sublist w.inst.queue
    | .turn => w.inst.queue ≠ []
  next w
    | .op op => w.apply op
    | .lose kept => w.lose kept
    | .turn => (w.turn ign).1

instance (w : World) : ∀ act, Decidable ((history ign).enabled w act)
  | .op op => inferInstanceAs (Decidable (w.inst.enabled op))
  | .lose kept => inferInstanceAs (Decidable (kept.Sublist w.inst.queue))
  | .turn => inferInstanceAs (Decidable (w.inst.queue ≠ []))

/-! ### What every operation keeps -/

structure Sound (w : World) : Prop where
  full : w.inst.full = false
  lt : ∀ {p wd}, w.watches.lookup p = some wd → wd < w.inst.nextWd
  roots : ∀ r ∈ w.roots, Spelled r
  keys : ∀ p ∈ w.watches, Spelled p

theorem sound_fresh (fs : Fs) : Sound (fresh fs) where
  full := rfl
  lt h := by cases h
  roots r hr := by cases hr
  keys p hp := absurd hp (AList.notMem_empty p)

/-- A descriptor in use is one the kernel has given. -/
theorem Added.wd_lt (h : Added w a wd w') : wd < w'.inst.nextWd := Inst.wdAt_lt h.live

theorem Added.nextWd_le (h : Added w a wd w') : w.inst.nextWd ≤ w'.inst.nextWd := by
  rcases h.origin with ⟨-, e⟩ | ⟨-, -, e⟩ <;> omega

theorem Sound.addWatch (h : Sound w) (a : AbsPath) : Sound (w.addWatch a.toStr) := by
  rcases addWatch_cases h.full a with ⟨e, -⟩ | ⟨wd, hadd⟩
  · rwa [e]
  · refine ⟨hadd.full, fun {q v} hq => ?_, fun r hr => h.roots r (hadd.roots ▸ hr), fun q hq => ?_⟩
    · by_cases e : q = a.toStr
      · subst e
        rw [hadd.lookup_self] at hq
        cases hq
        exact hadd.wd_lt
      · rw [hadd.lookup_ne e] at hq
        exact (h.lt hq).trans_le hadd.nextWd_le
    · rcases hadd.mem_iff.mp hq with e | hq
      · exact ⟨a, e⟩
      · exact h.keys q hq

theorem Sound.walkAddWatches (h : Sound w) (a : AbsPath) :
    Sound (w.walkAddWatches ign a.toStr).1 :=
  walkAddWatches_induct (P := Sound) h fun _ d h' _ _ _ => h'.addWatch d.trim

theorem Sound.walkAll {roots : List Str} (h : Sound w) (hr : ∀ r ∈ roots, Spelled r) :
    Sound (walkAll ign w roots) := by
  induction roots generalizing w with
  | nil => exact h
  | cons r roots ih =>
      obtain ⟨a, rfl⟩ := hr r (by simp)
      exact ih (h.walkAddWatches a) fun r' hr' => hr r' (by simp [hr'])

theorem Sound.removeWatchTree (h : Sound w) (root : Str) : Sound (w.removeWatchTree root) := by
  obtain ⟨-, -, -, hnext, hfull, hroots⟩ := removeWatchTree_fields w root
  refine ⟨hfull.trans h.full, fun {q v} hq => ?_, fun r hr => h.roots r (hroots ▸ hr),
    fun q hq => h.keys q ((mem_removeWatchTree w root q).mp hq).1⟩
  rw [lookup_removeWatchTree] at hq
  split at hq
  · cases hq
  · rw [hnext]
    exact h.lt hq

theorem Sound.handle (h : Sound w) (e : Raw) : Sound (handle ign w e).1 := by
  rw [handle_fst]
  split
  · exact h.walkAll fun r hr => h.roots r ((List.mem_insertionSort _).mp hr)
  · cases e.path with
    | none => exact h
    | some a =>
        dsimp only
        split
        · exact h
        · split
          · exact h.walkAddWatches a.trim
          · split
            · exact h.removeWatchTree a.trim.toStr
            · exact h

theorem Sound.apply (h : Sound w) (op : Inst.Op) : Sound (w.apply op) := by
  refine ⟨(Inst.full_apply w.inst op).trans h.full, fun {q v} hq => ?_, h.roots, h.keys⟩
  cases op <;> exact h.lt hq

theorem Sound.dequeue (h : Sound w) : Sound w.dequeue := ⟨h.full, h.lt, h.roots, h.keys⟩

theorem Sound.turn (h : Sound w) : Sound (w.turn ign).1 := by
  rw [World.turn]
  split
  · exact h
  · exact h.dequeue.handle _

theorem Sound.addRoot (h : Sound w) {r : Str} (hr : Spelled r) : Sound (addRoot ign w r) := by
  obtain ⟨a, rfl⟩ := hr
  rw [World.addRoot]
  split
  · exact h.walkAddWatches a
  · exact h

theorem Sound.foldl {f : World → Str → World} {P : Str → Prop}
    (hf : ∀ w r, Sound w → P r → Sound (f w r)) :
    ∀ (rs : List Str) {w : World}, Sound w → (∀ r ∈ rs, P r) → Sound (rs.foldl f w)
  | [], _, h, _ => h
  | r :: rs, w, h, hrs =>
      Sound.foldl hf rs (hf w r h (hrs r (by simp))) fun r' hr' => hrs r' (by simp [hr'])

theorem Sound.removeWatchTrees (h : Sound w) (gone : List Str) :
    Sound (gone.foldl World.removeWatchTree w) :=
  Sound.foldl (P := fun _ => True) (fun _ _ h _ => h.removeWatchTree _) gone h fun _ _ => trivial

theorem Sound.withRoots (h : Sound w) {R : List Str} (hR : ∀ r ∈ R, Spelled r) :
    Sound { w with roots := R } :=
  ⟨h.full, h.lt, hR, h.keys⟩

theorem Sound.setRoots (h : Sound w) {R : List Str} (hR : ∀ r ∈ R, isabs r = true) :
    Sound (w.setRoots ign R) := by
  have hnew := spelled_newRoots hR
  rw [World.setRoots]
  generalize (R.map normalizePath).dedup = new at hnew
  have hgone := h.removeWatchTrees (goneRoots w.roots new)
  have hadd : Sound ((addedRoots w.roots new).foldl (World.addRoot ign)
      ((goneRoots w.roots new).foldl World.removeWatchTree w)) :=
    Sound.foldl (P := Spelled) (fun _ _ h hr => h.addRoot hr) _ hgone fun r hr =>
      hnew r (List.mem_filter.mp hr).1
  exact hadd.withRoots hnew

theorem sound_start (fs : Fs) (ign : List Str) {R : List Str} (hR : ∀ r ∈ R, isabs r = true) :
    Sound (start fs ign R) :=
  (sound_fresh fs).setRoots hR

/-- **Soundness lasts**, whatever happens to the tree and to the queue. -/
theorem sound_history {G : World → Act → Prop} {l : List Act}
    (h : Lts.Run (history ign) G w l w') (h₀ : Sound w) : Sound w' :=
  h.invariant h₀ fun _ act hs _ _ => match act with
    | .op op => hs.apply op
    | .lose _ => ⟨hs.full, hs.lt, hs.roots, hs.keys⟩
    | .turn => hs.turn

/-- A creation leaves the watches alone: nothing is found at the new entry before. -/
theorem Live.create {l : Loc} {n : Name} {b : Bool} {p : Str}
    (hc : w.inst.fs.canCreate l n) (h : Live w p) :
    Live (w.apply (.create l n b)) p := by
  obtain ⟨wd, hl, hw⟩ := h
  obtain ⟨v, hv, -⟩ := Inst.wdAt_eq_some.mp hw
  refine ⟨wd, hl, ?_⟩
  rw [inst_apply, Inst.wdAt_create hc, if_neg, hw]
  intro e
  rw [e, hc.2] at hv
  cases hv

/-! ### Under the roots -/

section Under
variable {roots : List Str}

/-- `a` is at or under one of the roots. -/
def Under (roots : List Str) (a : AbsPath) : Prop := ∃ r ∈ roots, parse r ≤ a

instance : Decidable (Under roots a) := inferInstanceAs (Decidable (∃ r ∈ roots, parse r ≤ a))

theorem Under.mono (h : Under roots a) (hab : a ≤ b) : Under roots b := by
  obtain ⟨r, hr, hra⟩ := h
  exact ⟨r, hr, hra.trans hab⟩

end Under

/-! ### Fields along a history -/

theorem roots_walkAll (ign : List Str) :
    ∀ {roots : List Str} {w : World}, Sound w → (∀ r ∈ roots, Spelled r) →
    (walkAll ign w roots).roots = w.roots ∧ (walkAll ign w roots).inst.fs = w.inst.fs
  | [], _, _, _ => ⟨rfl, rfl⟩
  | r :: roots, w, h, hr => by
      obtain ⟨a, rfl⟩ := hr r (by simp)
      have hr' : ∀ r' ∈ roots, Spelled r' := fun r' hr' => hr r' (by simp [hr'])
      obtain ⟨h₁, h₂⟩ := roots_walkAll ign (h.walkAddWatches a) hr'
      exact ⟨h₁.trans (walkAddWatches_fields h.full ign a).2.2, h₂.trans (fs_walkAddWatches w ign a)⟩

theorem roots_handle (h : Sound w) (e : Raw) : (handle ign w e).1.roots = w.roots := by
  rw [handle_fst]
  split
  · exact (roots_walkAll ign h fun r hr => h.roots r ((List.mem_insertionSort _).mp hr)).1
  · cases e.path with
    | none => rfl
    | some a =>
        dsimp only
        split
        · rfl
        · split
          · exact (walkAddWatches_fields h.full ign a.trim).2.2
          · split
            · obtain ⟨-, -, -, -, -, hroots⟩ := removeWatchTree_fields w a.trim.toStr
              exact hroots
            · rfl

/-- The roots stay. -/
theorem roots_history {G : World → Act → Prop} {l : List Act}
    (h : Lts.Run (history ign) G w l w') (h₀ : Sound w) : w'.roots = w.roots := by
  refine (h.invariant (P := fun v => Sound v ∧ v.roots = w.roots) ⟨h₀, rfl⟩
    fun v act hv _ _ => ?_).2
  have hsound : Sound ((history ign).next v act) := match act with
    | .op op => hv.1.apply op
    | .lose _ => ⟨hv.1.full, hv.1.lt, hv.1.roots, hv.1.keys⟩
    | .turn => hv.1.turn
  refine ⟨hsound, ?_⟩
  cases act with
  | op op => exact hv.2
  | lose kept => exact hv.2
  | turn =>
      show (v.turn ign).1.roots = w.roots
      rw [turn]
      split
      · exact hv.2
      · exact (roots_handle hv.1.dequeue _).trans hv.2

end World

end MediaScanMonitor
