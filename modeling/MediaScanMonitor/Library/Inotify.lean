import MediaScanMonitor.Library.Fs

/-!
# Library — an inotify instance over a directory tree

The kernel side of inotify and the part of `asyncinotify` that names events.

* A watch belongs to an object: `inotify_add_watch` on an object that is watched already returns
  its watch descriptor again, and the watch dies with the object (`unwatch`).
* `asyncinotify` remembers for each descriptor the path it was first added under (`label`), returns
  the watch it has where the descriptor is given again, and gives an event the label of its watch
  joined with the entry name.  Renaming a directory does not change the label of its watch.
* Each creation, removal or renaming of an entry of a directory with a live watch queues one
  event (a rename two, one for each end) in the order of the operations (`note`).

`IN_IGNORED` and the `_SELF` events are left out.
-/

namespace Inotify
open Posix

/-! ### Event masks (the kernel's ABI) -/

def movedFrom : Nat := 0x40
def movedTo : Nat := 0x80
def create : Nat := 0x100
def delete : Nat := 0x200
def qOverflow : Nat := 0x4000
def isdir : Nat := 0x40000000

def dirBit (d : Bool) : Nat := if d then isdir else 0

/-- An event as it is read: its path, none for a queue overflow, and its mask. -/
structure Raw where
  path : Option AbsPath
  mask : Nat
  deriving DecidableEq

def Raw.overflow : Raw := ⟨none, qOverflow⟩

/-- A filesystem and one inotify instance on it. -/
structure Inst where
  fs : Fs
  /-- The live watch on an object, by inode number. -/
  wdOf : Nat → Option Nat
  label : Nat → AbsPath
  nextWd : Nat
  queue : List Raw
  /-- The kernel has no watch left to give (`ENOSPC`). -/
  full : Bool
  wd_lt : ∀ {i w}, wdOf i = some w → w < nextWd
  wd_inj : ∀ {i j w}, wdOf i = some w → wdOf j = some w → i = j
  wd_ino : ∀ {i w}, wdOf i = some w → i < fs.nextIno

namespace Inst
variable {s : Inst} {l m : Loc} {n : Name} {p : AbsPath} {i w w' : Nat}

/-- A new instance: nothing is watched, nothing is queued. -/
def fresh (fs : Fs) : Inst where
  fs := fs
  wdOf _ := none
  label _ := ⟨false, []⟩
  nextWd := 1
  queue := []
  full := false
  wd_lt h := by cases h
  wd_inj h := by cases h
  wd_ino h := by cases h

/-- The watch descriptor of the live watch on the object at `l`. -/
def wdAt (s : Inst) (l : Loc) : Option Nat := (s.fs.node l).bind fun v => s.wdOf v.ino

theorem wdAt_eq_some : s.wdAt l = some w ↔ ∃ v, s.fs.node l = some v ∧ s.wdOf v.ino = some w := by
  rw [wdAt, Option.bind_eq_some_iff]

/-- A live watch is on one object, found at one location. -/
theorem wdAt_inj (h : s.wdAt l = some w) (h' : s.wdAt m = some w) : l = m := by
  obtain ⟨v, hv, hw⟩ := wdAt_eq_some.mp h
  obtain ⟨v', hv', hw'⟩ := wdAt_eq_some.mp h'
  exact s.fs.ino_inj hv hv' (s.wd_inj hw hw')

theorem wdAt_lt (h : s.wdAt l = some w) : w < s.nextWd := by
  obtain ⟨v, -, hw⟩ := wdAt_eq_some.mp h
  exact s.wd_lt hw

/-! ### The calls of the watcher -/

/-- `inotify_add_watch`: an error where nothing is found, or when a new watch is needed and the
kernel has none left. -/
def addWatch (s : Inst) (p : AbsPath) : Inst × Option Nat :=
  match s.fs.node p.segs with
  | none => (s, none)
  | some v =>
    match s.wdOf v.ino with
    | some w => (s, some w)
    | none =>
      if h : s.full = false ∧ v.ino < s.fs.nextIno then
        ({ s with
            wdOf := Function.update s.wdOf v.ino (some s.nextWd)
            label := Function.update s.label s.nextWd p
            nextWd := s.nextWd + 1
            wd_lt := by
              intro i w hw
              by_cases e : i = v.ino
              · rw [e, Function.update_self] at hw; cases hw; exact Nat.lt_succ_self _
              · rw [Function.update_of_ne e] at hw; exact Nat.lt_succ_of_lt (s.wd_lt hw)
            wd_inj := by
              intro i j w hi hj
              by_cases e : i = v.ino <;> by_cases e' : j = v.ino
              · rw [e, e']
              · rw [e, Function.update_self] at hi
                rw [Function.update_of_ne e'] at hj
                cases hi
                exact absurd (s.wd_lt hj) (lt_irrefl _)
              · rw [e', Function.update_self] at hj
                rw [Function.update_of_ne e] at hi
                cases hj
                exact absurd (s.wd_lt hi) (lt_irrefl _)
              · rw [Function.update_of_ne e] at hi
                rw [Function.update_of_ne e'] at hj
                exact s.wd_inj hi hj
            wd_ino := by
              intro i w hw
              by_cases e : i = v.ino
              · exact e ▸ h.2
              · rw [Function.update_of_ne e] at hw; exact s.wd_ino hw },
          some s.nextWd)
      else (s, none)

@[simp] theorem fs_addWatch (s : Inst) (p : AbsPath) : (s.addWatch p).1.fs = s.fs := by
  unfold addWatch
  split
  · rfl
  · split
    · rfl
    · split <;> rfl

/-- `inotify_rm_watch`; on a dead descriptor it fails and changes nothing. -/
def rmWatch (s : Inst) (w : Nat) : Inst :=
  { s with
    wdOf := fun i => if s.wdOf i = some w then none else s.wdOf i
    wd_lt := by
      intro i w' hw
      split at hw
      · cases hw
      · exact s.wd_lt hw
    wd_inj := by
      intro i j w' hi hj
      split at hi
      · cases hi
      · split at hj
        · cases hj
        · exact s.wd_inj hi hj
    wd_ino := by
      intro i w' hw
      split at hw
      · cases hw
      · exact s.wd_ino hw }

/-- What `inotify_add_watch` does where something is found: the watch of the object, kept with its
label, or a new one that is labelled with the path; no other watch changes. -/
theorem addWatch_cases (hfull : s.full = false) (p : AbsPath) :
    (s.fs.node p.segs = none ∧ s.addWatch p = (s, none)) ∨
      ∃ s' w, s.addWatch p = (s', some w) ∧ s'.fs = s.fs ∧ s'.queue = s.queue ∧
        s'.full = false ∧
        s'.label = (if s.wdAt p.segs = none then Function.update s.label w p else s.label) ∧
        s'.wdAt p.segs = some w ∧ (∀ m, m ≠ p.segs → s'.wdAt m = s.wdAt m) ∧
        ((s.wdAt p.segs = some w ∧ s'.nextWd = s.nextWd) ∨
          (s.wdAt p.segs = none ∧ w = s.nextWd ∧ s'.nextWd = s.nextWd + 1)) := by
  unfold addWatch
  cases hv : s.fs.node p.segs with
  | none => exact .inl ⟨rfl, rfl⟩
  | some v =>
      right
      dsimp only
      have hat : s.wdAt p.segs = s.wdOf v.ino := by rw [wdAt, hv]; rfl
      cases hw : s.wdOf v.ino with
      | some w =>
          have hlabel : s.label =
              if s.wdAt p.segs = none then Function.update s.label w p else s.label := by
            rw [hat, hw, if_neg (Option.some_ne_none w)]
          exact ⟨s, w, rfl, rfl, rfl, hfull, hlabel, hat.trans hw, fun _ _ => rfl,
            .inl ⟨hat.trans hw, rfl⟩⟩
      | none =>
          dsimp only
          rw [dif_pos ⟨hfull, s.fs.ino_lt hv⟩]
          refine ⟨_, s.nextWd, rfl, rfl, rfl, hfull, (if_pos (hat.trans hw)).symm, ?_,
            fun m hm => ?_, .inr ⟨hat.trans hw, rfl, rfl⟩⟩
          · simp [wdAt, hv]
          · unfold wdAt
            cases hm' : s.fs.node m with
            | none => rfl
            | some v' =>
                have hne : v'.ino ≠ v.ino := fun e => hm (s.fs.ino_inj hm' hv e)
                simp [Function.update_of_ne hne]

/-- A descriptor that is given is one of the kernel's, and none is taken back. -/
theorem addWatch_lt (s : Inst) (p : AbsPath) : s.nextWd ≤ (s.addWatch p).1.nextWd ∧
    ∀ w, (s.addWatch p).2 = some w → w < (s.addWatch p).1.nextWd := by
  unfold addWatch
  cases hv : s.fs.node p.segs with
  | none => exact ⟨le_rfl, fun w hw => by cases hw⟩
  | some v =>
      dsimp only
      cases hw : s.wdOf v.ino with
      | some w =>
          refine ⟨le_rfl, fun w' hw' => ?_⟩
          cases hw'
          exact s.wd_lt hw
      | none =>
          dsimp only
          split
          · refine ⟨Nat.le_succ _, fun w' hw' => ?_⟩
            cases hw'
            exact Nat.lt_succ_self _
          · exact ⟨le_rfl, fun w' hw' => by cases hw'⟩

@[simp] theorem fs_rmWatch (s : Inst) (w : Nat) : (s.rmWatch w).fs = s.fs := rfl

/-- Removing a watch removes it and no other. -/
theorem wdAt_rmWatch (s : Inst) (w : Nat) (l : Loc) :
    (s.rmWatch w).wdAt l = if s.wdAt l = some w then none else s.wdAt l := by
  unfold wdAt
  rw [fs_rmWatch]
  cases s.fs.node l with
  | none => rfl
  | some v => rfl

/-! ### The operations of other processes -/

/-- The event queued for a change of the entry `l/n`. -/
def note (s : Inst) (l : Loc) (n : Name) (mask : Nat) : List Raw :=
  match s.wdAt l with
  | some w => [⟨some ((s.label w).push n), mask⟩]
  | none => []

/-- The watches once the object at `l` is gone. -/
def unwatch (s : Inst) (l : Loc) : Nat → Option Nat :=
  match s.fs.node l with
  | some v => Function.update s.wdOf v.ino none
  | none => s.wdOf

theorem unwatch_eq_some (h : s.unwatch l i = some w) : s.wdOf i = some w := by
  unfold unwatch at h
  cases hv : s.fs.node l with
  | none => rwa [hv] at h
  | some v =>
      rw [hv] at h
      dsimp only at h
      by_cases e : i = v.ino
      · rw [e, Function.update_self] at h; cases h
      · rwa [Function.update_of_ne e] at h

/-- What happens to the tree: an entry appears, disappears or is renamed. -/
inductive Op where
  | create (l : Loc) (n : Name) (d : Bool)
  | remove (l : Loc) (n : Name)
  | rename (l : Loc) (n : Name) (l' : Loc) (n' : Name)
  deriving DecidableEq

def enabled (s : Inst) : Op → Prop
  | .create l n _ => s.fs.canCreate l n
  | .remove l n => s.fs.canRemove l n
  | .rename l n l' n' => s.fs.canRename (l ++ [n]) l' n'

instance (s : Inst) : ∀ op, Decidable (s.enabled op)
  | .create l n _ => inferInstanceAs (Decidable (s.fs.canCreate l n))
  | .remove l n => inferInstanceAs (Decidable (s.fs.canRemove l n))
  | .rename l n l' n' => inferInstanceAs (Decidable (s.fs.canRename (l ++ [n]) l' n'))

theorem nextIno_le_create (fs : Fs) (l : Loc) (n : Name) (d : Bool) :
    fs.nextIno ≤ (fs.create l n d).nextIno := by
  unfold Fs.create; split
  · exact Nat.le_succ _
  · exact le_rfl

theorem nextIno_remove (fs : Fs) (l : Loc) (n : Name) : (fs.remove l n).nextIno = fs.nextIno := by
  unfold Fs.remove; split <;> rfl

theorem nextIno_rename (fs : Fs) (a l : Loc) (n : Name) :
    (fs.rename a l n).nextIno = fs.nextIno := by
  unfold Fs.rename; split <;> rfl

/-- The instance after an operation that is enabled. -/
def apply (s : Inst) : Op → Inst
  | .create l n d =>
    { s with
      fs := s.fs.create l n d
      queue := s.queue ++ s.note l n (create ||| dirBit d)
      wd_ino := fun h => (s.wd_ino h).trans_le (nextIno_le_create _ _ _ _) }
  | .remove l n =>
    { s with
      fs := s.fs.remove l n
      wdOf := s.unwatch (l ++ [n])
      queue := s.queue ++ s.note l n (delete ||| dirBit (s.fs.isDir (l ++ [n])))
      wd_lt := fun h => s.wd_lt (unwatch_eq_some h)
      wd_inj := fun h h' => s.wd_inj (unwatch_eq_some h) (unwatch_eq_some h')
      wd_ino := fun h => by rw [nextIno_remove]; exact s.wd_ino (unwatch_eq_some h) }
  | .rename l n l' n' =>
    { s with
      fs := s.fs.rename (l ++ [n]) l' n'
      wdOf := s.unwatch (l' ++ [n'])
      queue := s.queue ++ (s.note l n (movedFrom ||| dirBit (s.fs.isDir (l ++ [n]))) ++
        s.note l' n' (movedTo ||| dirBit (s.fs.isDir (l ++ [n]))))
      wd_lt := fun h => s.wd_lt (unwatch_eq_some h)
      wd_inj := fun h h' => s.wd_inj (unwatch_eq_some h) (unwatch_eq_some h')
      wd_ino := fun h => by rw [nextIno_rename]; exact s.wd_ino (unwatch_eq_some h) }

@[simp] theorem fs_create (s : Inst) (l : Loc) (n : Name) (d : Bool) :
    (s.apply (.create l n d)).fs = s.fs.create l n d := rfl

@[simp] theorem fs_remove (s : Inst) (l : Loc) (n : Name) :
    (s.apply (.remove l n)).fs = s.fs.remove l n := rfl

@[simp] theorem full_apply (s : Inst) (op : Op) : (s.apply op).full = s.full := by
  cases op <;> rfl

/-- A new object has no watch. -/
theorem wdOf_nextIno (s : Inst) : s.wdOf s.fs.nextIno = none := by
  cases h : s.wdOf s.fs.nextIno with
  | none => rfl
  | some w => exact absurd (s.wd_ino h) (lt_irrefl _)

/-- Taking the watch off the object at `l` leaves those of the objects elsewhere. -/
theorem unwatch_of_ne {v : Node} (hv : s.fs.node m = some v) (hm : m ≠ l) :
    s.unwatch l v.ino = s.wdOf v.ino := by
  unfold unwatch
  cases hl : s.fs.node l with
  | none => rfl
  | some v' =>
      exact Function.update_of_ne (fun e => hm (s.fs.ino_inj hv hl e)) _ _

theorem wdAt_create {d : Bool} (h : s.fs.canCreate l n) (m : Loc) :
    (s.apply (.create l n d)).wdAt m = if m = l ++ [n] then none else s.wdAt m := by
  simp only [wdAt, apply, Fs.node_create h]
  by_cases e : m = l ++ [n]
  · subst e
    simp [s.wdOf_nextIno]
  · rw [Function.update_of_ne e, if_neg e]

theorem wdAt_remove (h : s.fs.canRemove l n) (m : Loc) :
    (s.apply (.remove l n)).wdAt m = if m = l ++ [n] then none else s.wdAt m := by
  simp only [wdAt, apply, Fs.node_remove h]
  by_cases e : m = l ++ [n]
  · subst e
    simp
  · rw [Function.update_of_ne e, if_neg e]
    cases hm : s.fs.node m with
    | none => rfl
    | some v => exact unwatch_of_ne hm e

variable {l' : Loc} {n' : Name}

/-- What moves keeps its watch. -/
theorem wdAt_rename_under (h : s.fs.canRename (l ++ [n]) l' n') (t : Loc) :
    (s.apply (.rename l n l' n')).wdAt (l' ++ [n'] ++ t) = s.wdAt (l ++ [n] ++ t) := by
  simp only [wdAt, apply, Fs.node_rename h, Fs.movedNode_under]
  cases hm : s.fs.node (l ++ [n] ++ t) with
  | none => rfl
  | some v => exact unwatch_of_ne hm fun e => h.2.2.2.1 ⟨t, e⟩

theorem wdAt_rename_other (h : s.fs.canRename (l ++ [n]) l' n') {m : Loc}
    (hb : ¬ l' ++ [n'] <+: m) :
    (s.apply (.rename l n l' n')).wdAt m = if l ++ [n] <+: m then none else s.wdAt m := by
  simp only [wdAt, apply, Fs.node_rename h]
  by_cases ha : l ++ [n] <+: m
  · rw [Fs.movedNode_gone hb ha, if_pos ha]; rfl
  · rw [Fs.movedNode_other hb ha, if_neg ha]
    cases hm : s.fs.node m with
    | none => rfl
    | some v => exact unwatch_of_ne hm fun e => hb (e ▸ List.prefix_rfl)

/-- A queue overflow: some queued events are lost, and the overflow event is queued. -/
def overflow (s : Inst) (kept : List Raw) : Inst :=
  { s with queue := kept ++ [Raw.overflow] }

end Inst

end Inotify
