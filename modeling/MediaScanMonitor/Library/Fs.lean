import MediaScanMonitor.Library.Posix
import Mathlib.Data.List.Dedup
import Mathlib.Logic.Function.Basic

/-!
# Library — directory trees

A filesystem as the objects found at each location (a list of names under `/`).  An object is a
file or a directory and has an inode number, which it keeps when it is renamed: two directories
that take the same name one after the other are different objects.  Hard links and symbolic
links are left out.

`create`, `remove` and `rename` are the system calls that change the tree; each leaves the
filesystem alone when its precondition fails (`canCreate`, `canRemove`, `canRename`).
-/

namespace Posix

structure Node where
  ino : Nat
  isDir : Bool
  deriving DecidableEq

/-- A filesystem: what is found where, with every location listed in `dom`. -/
structure Fs where
  node : Loc → Option Node
  dom : List Loc
  nextIno : Nat
  mem_dom : ∀ {l}, node l ≠ none → l ∈ dom
  root_dir : ∃ i, node [] = some ⟨i, true⟩
  parent_dir : ∀ {l n}, node (l ++ [n]) ≠ none → ∃ i, node l = some ⟨i, true⟩
  ino_lt : ∀ {l v}, node l = some v → v.ino < nextIno
  ino_inj : ∀ {l l' v v'}, node l = some v → node l' = some v' → v.ino = v'.ino → l = l'

namespace Fs
variable {fs : Fs} {l l' a b : Loc} {n n' : Name} {v : Node} {d : Bool}

/-- The filesystem with nothing under `/`. -/
def bare : Fs where
  node l := if l = [] then some ⟨0, true⟩ else none
  dom := [[]]
  nextIno := 1
  mem_dom {l} h := by
    by_cases e : l = []
    · simp [e]
    · rw [if_neg e] at h; exact absurd rfl h
  root_dir := ⟨0, rfl⟩
  parent_dir {l n} h := by rw [if_neg (by simp)] at h; exact absurd rfl h
  ino_lt {l v} h := by
    split at h
    · cases h; exact Nat.one_pos
    · cases h
  ino_inj {l l' v v'} h h' _ := by
    rw [Option.ite_none_right_eq_some] at h h'
    rw [h.1, h'.1]

def isDir (fs : Fs) (l : Loc) : Bool := (fs.node l).any Node.isDir

/-- The entries of a directory, in the order `dom` lists them. -/
def entries (fs : Fs) (l : Loc) : List Name :=
  ((fs.dom.filter fun m => m.dropLast = l ∧ fs.node m ≠ none).filterMap List.getLast?).dedup

/-- `os.scandir`: the subdirectories and the other entries, or nothing to list. -/
def scandir (fs : Fs) (l : Loc) : Option (List Name × List Name) :=
  if fs.isDir l then
    some ((fs.entries l).filter fun n => fs.isDir (l ++ [n]),
      (fs.entries l).filter fun n => !fs.isDir (l ++ [n]))
  else none

theorem isDir_iff : fs.isDir l = true ↔ ∃ i, fs.node l = some ⟨i, true⟩ := by
  unfold isDir
  cases h : fs.node l with
  | none => simp
  | some v => obtain ⟨i, d⟩ := v; simp

theorem isDir_root (fs : Fs) : fs.isDir [] = true := isDir_iff.mpr fs.root_dir

theorem node_ne_none_of_isDir (h : fs.isDir l = true) : fs.node l ≠ none := by
  obtain ⟨i, hi⟩ := isDir_iff.mp h
  simp [hi]

theorem isDir_parent (h : fs.node (l ++ [n]) ≠ none) : fs.isDir l = true :=
  isDir_iff.mpr (fs.parent_dir h)

theorem isDir_of_prefix {t : Loc} (ht : t ≠ []) (h : fs.node (l ++ t) ≠ none) :
    fs.isDir l = true := by
  induction t using List.reverseRecOn with
  | nil => exact absurd rfl ht
  | append_singleton t m ih =>
      rw [← List.append_assoc] at h
      by_cases e : t = []
      · subst e; simpa using isDir_parent h
      · exact ih e (node_ne_none_of_isDir (isDir_parent h))

/-- What is above a directory is one. -/
theorem isDir_above (h : l <+: l') (hd : fs.isDir l' = true) : fs.isDir l = true := by
  obtain ⟨t, rfl⟩ := h
  by_cases ht : t = []
  · rwa [ht, List.append_nil] at hd
  · exact isDir_of_prefix ht (node_ne_none_of_isDir hd)

theorem mem_entries : n ∈ fs.entries l ↔ fs.node (l ++ [n]) ≠ none := by
  simp only [entries, List.mem_dedup, List.mem_filterMap, List.mem_filter, decide_eq_true_eq]
  constructor
  · rintro ⟨m, ⟨-, rfl, hm⟩, hn⟩
    rwa [List.dropLast_append_getLast? n hn]
  · intro h
    exact ⟨l ++ [n], ⟨fs.mem_dom h, by simp, h⟩, by simp⟩

theorem entries_eq_nil : fs.entries l = [] ↔ ∀ n, fs.node (l ++ [n]) = none := by
  rw [List.eq_nil_iff_forall_not_mem]
  exact forall_congr' fun n => by rw [mem_entries, not_not]

theorem scandir_eq_some {ds ns : List Name} (h : fs.scandir l = some (ds, ns)) :
    fs.isDir l = true ∧ (∀ n, n ∈ ds ↔ fs.isDir (l ++ [n]) = true) ∧
      ∀ n, n ∈ ns ↔ fs.node (l ++ [n]) ≠ none ∧ fs.isDir (l ++ [n]) = false := by
  unfold scandir at h
  split at h
  · rename_i hd
    cases h
    refine ⟨hd, fun n => ?_, fun n => ?_⟩
    · simp only [List.mem_filter, mem_entries, and_iff_right_iff_imp]
      exact node_ne_none_of_isDir
    · simp only [List.mem_filter, mem_entries, Bool.not_eq_true']
  · cases h

theorem scandir_of_isDir (h : fs.isDir l = true) : ∃ ds ns, fs.scandir l = some (ds, ns) :=
  ⟨_, _, by rw [scandir, if_pos h]⟩

/-! ### The system calls -/

def canCreate (fs : Fs) (l : Loc) (n : Name) : Prop :=
  fs.isDir l = true ∧ fs.node (l ++ [n]) = none

instance : Decidable (fs.canCreate l n) := inferInstanceAs (Decidable (_ ∧ _))

/-- `mkdir` or the creation of a file: a new object at `l/n`. -/
def create (fs : Fs) (l : Loc) (n : Name) (d : Bool) : Fs :=
  if h : fs.canCreate l n then
    { node := Function.update fs.node (l ++ [n]) (some ⟨fs.nextIno, d⟩)
      dom := (l ++ [n]) :: fs.dom
      nextIno := fs.nextIno + 1
      mem_dom := by
        intro m hm
        by_cases e : m = l ++ [n]
        · exact List.mem_cons.mpr (.inl e)
        · rw [Function.update_of_ne e] at hm
          exact List.mem_cons_of_mem _ (fs.mem_dom hm)
      root_dir := by
        rw [Function.update_of_ne (by simp)]
        exact fs.root_dir
      parent_dir := by
        intro m k hm
        by_cases e : m ++ [k] = l ++ [n]
        · obtain ⟨rfl, -⟩ := List.append_inj' e rfl
          rw [Function.update_of_ne (fun e => by simpa using congrArg List.length e)]
          exact isDir_iff.mp h.1
        · rw [Function.update_of_ne e] at hm
          obtain ⟨i, hi⟩ := fs.parent_dir hm
          refine ⟨i, ?_⟩
          rw [Function.update_of_ne, hi]
          rintro rfl
          rw [h.2] at hi
          cases hi
      ino_lt := by
        intro m w hm
        by_cases e : m = l ++ [n]
        · rw [e, Function.update_self] at hm
          cases hm
          exact Nat.lt_succ_self _
        · rw [Function.update_of_ne e] at hm
          exact Nat.lt_succ_of_lt (fs.ino_lt hm)
      ino_inj := by
        intro m m' w w' hm hm' hw
        by_cases e : m = l ++ [n] <;> by_cases e' : m' = l ++ [n]
        · rw [e, e']
        · rw [e, Function.update_self] at hm
          rw [Function.update_of_ne e'] at hm'
          cases hm
          exact absurd hw.symm (fs.ino_lt hm').ne
        · rw [e', Function.update_self] at hm'
          rw [Function.update_of_ne e] at hm
          cases hm'
          exact absurd hw (fs.ino_lt hm).ne
        · rw [Function.update_of_ne e] at hm
          rw [Function.update_of_ne e'] at hm'
          exact fs.ino_inj hm hm' hw }
  else fs

theorem node_create (h : fs.canCreate l n) :
    (fs.create l n d).node = Function.update fs.node (l ++ [n]) (some ⟨fs.nextIno, d⟩) := by
  rw [create, dif_pos h]

def canRemove (fs : Fs) (l : Loc) (n : Name) : Prop :=
  fs.node (l ++ [n]) ≠ none ∧ fs.entries (l ++ [n]) = []

instance : Decidable (fs.canRemove l n) := inferInstanceAs (Decidable (_ ∧ _))

/-- `rmdir` of an empty directory, or `unlink`. -/
def remove (fs : Fs) (l : Loc) (n : Name) : Fs :=
  if h : fs.canRemove l n then
    { node := Function.update fs.node (l ++ [n]) none
      dom := fs.dom
      nextIno := fs.nextIno
      mem_dom := by
        intro m hm
        by_cases e : m = l ++ [n]
        · rw [e, Function.update_self] at hm
          exact absurd rfl hm
        · rw [Function.update_of_ne e] at hm
          exact fs.mem_dom hm
      root_dir := by
        rw [Function.update_of_ne (by simp)]
        exact fs.root_dir
      parent_dir := by
        intro m k hm
        have e : m ++ [k] ≠ l ++ [n] := fun e => by
          rw [e, Function.update_self] at hm
          exact hm rfl
        rw [Function.update_of_ne e] at hm
        have e' : m ≠ l ++ [n] := fun e' => hm (entries_eq_nil.mp h.2 k ▸ e' ▸ rfl)
        rw [Function.update_of_ne e']
        exact fs.parent_dir hm
      ino_lt := by
        intro m w hm
        by_cases e : m = l ++ [n]
        · rw [e, Function.update_self] at hm; cases hm
        · rw [Function.update_of_ne e] at hm; exact fs.ino_lt hm
      ino_inj := by
        intro m m' w w' hm hm' hw
        have e : m ≠ l ++ [n] := fun e => by rw [e, Function.update_self] at hm; cases hm
        have e' : m' ≠ l ++ [n] := fun e => by rw [e, Function.update_self] at hm'; cases hm'
        rw [Function.update_of_ne e] at hm
        rw [Function.update_of_ne e'] at hm'
        exact fs.ino_inj hm hm' hw }
  else fs

theorem node_remove (h : fs.canRemove l n) :
    (fs.remove l n).node = Function.update fs.node (l ++ [n]) none := by
  rw [remove, dif_pos h]

/-- `rename` needs an object at `a`, a directory above `b`, a `b` not inside `a`, and nothing
at `b` but possibly an object of `a`'s kind that is not a directory with entries. -/
def canRename (fs : Fs) (a : Loc) (l : Loc) (n : Name) : Prop :=
  a ≠ [] ∧ fs.node a ≠ none ∧ fs.isDir l = true ∧ ¬ a <+: l ++ [n] ∧
    (fs.node (l ++ [n]) = none ∨
      (fs.isDir (l ++ [n]) = fs.isDir a ∧ fs.entries (l ++ [n]) = []))

instance : Decidable (fs.canRename a l n) := inferInstanceAs (Decidable (_ ∧ _))

/-- What is found at `m` after everything at and under `a` has moved to `b`. -/
def movedNode (fs : Fs) (a b : Loc) (m : Loc) : Option Node :=
  if b <+: m then fs.node (a ++ m.drop b.length) else if a <+: m then none else fs.node m

theorem movedNode_under (fs : Fs) (a b t : Loc) : fs.movedNode a b (b ++ t) = fs.node (a ++ t) := by
  rw [movedNode, if_pos (List.prefix_append _ _), List.drop_left]

theorem movedNode_gone {m : Loc} (hb : ¬ b <+: m) (ha : a <+: m) : fs.movedNode a b m = none := by
  rw [movedNode, if_neg hb, if_pos ha]

theorem movedNode_other {m : Loc} (hb : ¬ b <+: m) (ha : ¬ a <+: m) :
    fs.movedNode a b m = fs.node m := by
  rw [movedNode, if_neg hb, if_neg ha]

/-- Where what is found at `m` after the move was found before it. -/
theorem movedNode_eq_some {m : Loc} (h : fs.movedNode a b m = some v) :
    (∃ t, m = b ++ t ∧ fs.node (a ++ t) = some v) ∨
      (¬ b <+: m ∧ ¬ a <+: m ∧ fs.node m = some v) := by
  by_cases hb : b <+: m
  · obtain ⟨t, rfl⟩ := hb
    rw [movedNode_under] at h
    exact .inl ⟨t, rfl, h⟩
  · by_cases ha : a <+: m
    · rw [movedNode_gone hb ha] at h; cases h
    · rw [movedNode_other hb ha] at h
      exact .inr ⟨hb, ha, h⟩

/-- `rename a l/n`. -/
def rename (fs : Fs) (a l : Loc) (n : Name) : Fs :=
  if h : fs.canRename a l n then
    { node := fs.movedNode a (l ++ [n])
      dom := fs.dom ++ fs.dom.map fun m => l ++ [n] ++ m.drop a.length
      nextIno := fs.nextIno
      mem_dom := by
        intro m hm
        obtain ⟨w, hw⟩ := Option.ne_none_iff_exists'.mp hm
        rcases movedNode_eq_some hw with ⟨t, rfl, ht⟩ | ⟨-, -, hm⟩
        · refine List.mem_append_right _ (List.mem_map.mpr ⟨a ++ t, ?_, by simp⟩)
          exact fs.mem_dom (by simp [ht])
        · exact List.mem_append_left _ (fs.mem_dom (by simp [hm]))
      root_dir := by
        rw [movedNode_other (by simp) (by simpa using h.1)]
        exact fs.root_dir
      parent_dir := by
        intro m k hm
        obtain ⟨w, hw⟩ := Option.ne_none_iff_exists'.mp hm
        rcases movedNode_eq_some hw with ⟨t, ht, hn⟩ | ⟨hb, ha, hn⟩
        · rcases List.eq_nil_or_concat' t with rfl | ⟨t, j, rfl⟩
          · rw [List.append_nil] at ht
            obtain ⟨rfl, -⟩ := List.append_inj' ht rfl
            rw [movedNode_other]
            · exact isDir_iff.mp h.2.2.1
            · exact fun e => absurd e.length_le (by simp)
            · exact fun e => h.2.2.2.1 (e.trans (List.prefix_append _ _))
          · rw [← List.append_assoc] at ht hn
            obtain ⟨rfl, -⟩ := List.append_inj' ht rfl
            rw [movedNode_under]
            exact fs.parent_dir (n := j) (by rw [hn]; exact Option.some_ne_none _)
        · rw [movedNode_other]
          · exact fs.parent_dir (n := k) (by simp [hn])
          · exact fun e => hb (e.trans (List.prefix_append _ _))
          · exact fun e => ha (e.trans (List.prefix_append _ _))
      ino_lt := by
        intro m w hw
        rcases movedNode_eq_some hw with ⟨t, -, hn⟩ | ⟨-, -, hn⟩ <;> exact fs.ino_lt hn
      ino_inj := by
        intro m m' w w' hw hw' hi
        rcases movedNode_eq_some hw with ⟨t, rfl, hn⟩ | ⟨-, ha, hn⟩ <;>
          rcases movedNode_eq_some hw' with ⟨t', rfl, hn'⟩ | ⟨-, ha', hn'⟩
        · rw [List.append_cancel_left (fs.ino_inj hn hn' hi)]
        · exact absurd ⟨t, fs.ino_inj hn hn' hi⟩ ha'
        · exact absurd ⟨t', (fs.ino_inj hn hn' hi).symm⟩ ha
        · exact fs.ino_inj hn hn' hi }
  else fs

theorem node_rename (h : fs.canRename a l n) :
    (fs.rename a l n).node = fs.movedNode a (l ++ [n]) := by
  rw [rename, dif_pos h]

/-- A bound no location's length reaches. -/
def height (fs : Fs) : Nat := (fs.dom.map List.length).foldr max 0 + 1

theorem length_lt_height (h : fs.node l ≠ none) : l.length < fs.height := by
  have key : ∀ ls : List Loc, l ∈ ls → l.length ≤ (ls.map List.length).foldr max 0 := by
    intro ls
    induction ls with
    | nil => simp
    | cons m ls ih =>
        intro hm
        rw [List.map_cons, List.foldr_cons]
        rcases List.mem_cons.mp hm with rfl | hm
        · exact le_max_left _ _
        · exact (ih hm).trans (le_max_right _ _)
  exact Nat.lt_succ_of_le (key _ (fs.mem_dom h))

end Fs

end Posix
