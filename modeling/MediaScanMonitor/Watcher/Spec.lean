import MediaScanMonitor.Watcher.Backend

/-!
# Watcher — what the operations of the backend do

One statement per operation, on spellings of absolute paths and while the kernel has watches to
give (`full = false`); the results about whole runs read the operations through these alone.

* `mem_osWalk`: a walk visits the existing directories at or under its top, no name below the top
  being ignored.
* `addWatch_cases`: `_add_watch` leaves everything alone (the path is recorded, or nothing is
  there) or records one new watch (`Added`).
* `lookup_removeWatchTree`, `wdAt_removeWatchTree`: `_remove_watch_tree` drops the recorded paths
  it takes to be in the tree, and kills their watches.
* `walkAddWatches_induct`: what every `_add_watch` of a walk keeps, the walk keeps.
-/

namespace MediaScanMonitor
open Py Posix Inotify

namespace World
variable {w w' : World} {ign : List Str} {a b r : AbsPath} {n : Name} {t : Loc} {wd : Nat}

/-! ### Ignored paths -/

/-- A path is ignored when a name is (or when the empty component before the first slash is). -/
theorem isIgnored_toStr : isIgnored ign a.toStr = true ↔ [] ∈ ign ∨ ∃ n ∈ a.segs, n.val ∈ ign := by
  simp only [isIgnored, List.any_eq_true, AbsPath.mem_splitOn_toStr, decide_eq_true_eq]
  constructor
  · rintro ⟨s, rfl | ⟨n, hn, rfl⟩, hs⟩
    · exact .inl hs
    · exact .inr ⟨n, hn, hs⟩
  · rintro (h | ⟨n, hn, h⟩)
    · exact ⟨[], .inl rfl, h⟩
    · exact ⟨n.val, .inr ⟨n, hn, rfl⟩, h⟩

theorem isIgnored_eq_false :
    isIgnored ign a.toStr = false ↔ [] ∉ ign ∧ ∀ n ∈ a.segs, n.val ∉ ign := by
  rw [← Bool.not_eq_true, isIgnored_toStr]
  push Not
  rfl

theorem isIgnored_extend : isIgnored ign (a.extend t).toStr = false ↔
    isIgnored ign a.toStr = false ∧ ∀ n ∈ t, n.val ∉ ign := by
  simp only [isIgnored_eq_false, AbsPath.segs_extend, List.mem_append, or_imp, forall_and,
    and_assoc]

/-- What is above a path that is not ignored is not ignored. -/
theorem isIgnored_of_le (h : a ≤ b) (hb : isIgnored ign b.toStr = false) :
    isIgnored ign a.toStr = false := by
  obtain ⟨t, rfl⟩ := AbsPath.le_iff_exists_extend.mp h
  exact (isIgnored_extend.mp hb).1

/-! ### The walk -/

/-- **What a walk visits.** -/
theorem mem_osWalk_fuel {fs : Fs} {s : Str} {files : List Name} :
    ∀ (fuel : Nat) (a : AbsPath), (s, files) ∈ osWalk ign fs fuel a.toStr ↔
      ∃ t : Loc, t.length < fuel ∧ s = (a.extend t).toStr ∧ (∀ n ∈ t, n.val ∉ ign) ∧
        ∃ dirs, fs.scandir (a.segs ++ t) = some (dirs, files)
  | 0, a => by simp [osWalk]
  | fuel + 1, a => by
      rw [osWalk, AbsPath.parse_toStr]
      cases hs : fs.scandir a.segs with
      | none =>
          simp only [List.not_mem_nil, false_iff]
          rintro ⟨t, -, -, -, dirs, h⟩
          have hd : fs.isDir a.segs = true :=
            Fs.isDir_above (List.prefix_append _ _) (Fs.scandir_eq_some h).1
          obtain ⟨_, _, h'⟩ := Fs.scandir_of_isDir hd
          rw [h'] at hs; cases hs
      | some p =>
          obtain ⟨dirs, files'⟩ := p
          simp only [List.mem_cons, List.mem_flatMap, List.mem_filter, decide_eq_true_eq,
            AbsPath.join_toStr, mem_osWalk_fuel fuel]
          constructor
          · rintro (h | ⟨n, ⟨-, hign⟩, t, ht, hst, hnt, ds, hds⟩)
            · cases h
              exact ⟨[], by simp, by simp, by simp, dirs, by simpa using hs⟩
            · refine ⟨n :: t, by simpa using ht, by simpa using hst, ?_, ds, by simpa using hds⟩
              rintro m (_ | ⟨_, hm⟩)
              · exact hign
              · exact hnt m hm
          · rintro ⟨t, ht, hst, hnt, ds, hds⟩
            cases t with
            | nil =>
                rw [List.append_nil, hs] at hds
                cases hds
                exact .inl (by simp [hst])
            | cons n t =>
                have hdir : fs.isDir (a.segs ++ [n]) = true :=
                  Fs.isDir_above ⟨t, by simp⟩ (Fs.scandir_eq_some hds).1
                refine .inr ⟨n, ⟨((Fs.scandir_eq_some hs).2.1 n).mpr hdir, hnt n (by simp)⟩, t,
                  by simpa using ht, by simpa using hst, fun m hm => hnt m (by simp [hm]), ds,
                  by simpa using hds⟩

theorem mem_osWalk {fs : Fs} {s : Str} {files : List Name} :
    (s, files) ∈ osWalk ign fs fs.height a.toStr ↔
      ∃ t : Loc, s = (a.extend t).toStr ∧ (∀ n ∈ t, n.val ∉ ign) ∧
        ∃ dirs, fs.scandir (a.segs ++ t) = some (dirs, files) := by
  rw [mem_osWalk_fuel]
  refine exists_congr fun t => ⟨fun h => h.2, fun h => ⟨?_, h⟩⟩
  obtain ⟨-, -, dirs, hs⟩ := h
  have := Fs.length_lt_height (Fs.node_ne_none_of_isDir (Fs.scandir_eq_some hs).1)
  rw [List.length_append] at this
  omega

/-! ### One watch more -/

/-- `w'` is `w` with a watch on what is found at `a`, recorded as `wd`. -/
structure Added (w : World) (a : AbsPath) (wd : Nat) (w' : World) : Prop where
  new : a.toStr ∉ w.watches
  watches : w'.watches = w.watches.insert a.toStr wd
  roots : w'.roots = w.roots
  fs : w'.inst.fs = w.inst.fs
  queue : w'.inst.queue = w.inst.queue
  full : w'.inst.full = false
  /-- A watch keeps the path it was first added under. -/
  label : w'.inst.label =
    if w.inst.wdAt a.segs = none then Function.update w.inst.label wd a else w.inst.label
  live : w'.inst.wdAt a.segs = some wd
  other : ∀ m, m ≠ a.segs → w'.inst.wdAt m = w.inst.wdAt m
  /-- The object was watched already, or its watch is a new one. -/
  origin : (w.inst.wdAt a.segs = some wd ∧ w'.inst.nextWd = w.inst.nextWd) ∨
    (w.inst.wdAt a.segs = none ∧ wd = w.inst.nextWd ∧ w'.inst.nextWd = w.inst.nextWd + 1)

/-- **What `_add_watch` does.** -/
theorem addWatch_cases (hfull : w.inst.full = false) (a : AbsPath) :
    (w.addWatch a.toStr = w ∧ (a.toStr ∈ w.watches ∨ w.inst.fs.node a.segs = none)) ∨
      ∃ wd, Added w a wd (w.addWatch a.toStr) := by
  unfold addWatch
  by_cases hmem : a.toStr ∈ w.watches
  · exact .inl ⟨if_pos hmem, .inl hmem⟩
  · rw [if_neg hmem, AbsPath.parse_toStr]
    rcases Inst.addWatch_cases hfull a with ⟨hnone, h⟩ | ⟨s', wd, h, hfs, hq, hf, hl, hlive, ho, horig⟩
    · rw [h]
      exact .inl ⟨rfl, .inr hnone⟩
    · rw [h]
      exact .inr ⟨wd, hmem, rfl, rfl, hfs, hq, hf, hl, hlive, ho, horig⟩

/-- The labels of the other watches. -/
theorem Added.label_ne (h : Added w a wd w') {v : Nat} (hv : v ≠ wd) :
    w'.inst.label v = w.inst.label v := by
  rw [h.label]
  split
  · exact Function.update_of_ne hv _ _
  · rfl

/-- A watch that is new is labelled with the path, and one that is not keeps its label. -/
theorem Added.label_self (h : Added w a wd w') :
    (w.inst.wdAt a.segs = none ∧ w'.inst.label wd = a) ∨
      (w.inst.wdAt a.segs = some wd ∧ w'.inst.label wd = w.inst.label wd) := by
  rcases h.origin with ⟨hold, -⟩ | ⟨hnone, -⟩
  · exact .inr ⟨hold, by rw [h.label, hold, if_neg (Option.some_ne_none wd)]⟩
  · exact .inl ⟨hnone, by rw [h.label, if_pos hnone, Function.update_self]⟩

theorem Added.lookup_self (h : Added w a wd w') : w'.watches.lookup a.toStr = some wd := by
  rw [h.watches, AList.lookup_insert]

theorem Added.lookup_ne (h : Added w a wd w') {p : Str} (hp : p ≠ a.toStr) :
    w'.watches.lookup p = w.watches.lookup p := by
  rw [h.watches, AList.lookup_insert_ne hp]

theorem Added.mem_iff (h : Added w a wd w') {p : Str} :
    p ∈ w'.watches ↔ p = a.toStr ∨ p ∈ w.watches := by
  rw [h.watches, AList.mem_insert]

/-- Where something is found, `_add_watch` leaves the path recorded. -/
theorem mem_addWatch (hfull : w.inst.full = false) (ha : w.inst.fs.node a.segs ≠ none) :
    a.toStr ∈ (w.addWatch a.toStr).watches := by
  rcases addWatch_cases hfull a with ⟨h, hm | hn⟩ | ⟨wd, h⟩
  · rwa [h]
  · exact absurd hn ha
  · exact h.mem_iff.mpr (.inl rfl)

theorem mem_of_lookup {p : Str} (h : w.watches.lookup p = some wd) : p ∈ w.watches :=
  AList.lookup_isSome.mp (by rw [h]; rfl)

/-! ### A tree of watches less -/

theorem inTree_toStr (h : a.segs ≠ []) : inTree a.toStr b.toStr = true ↔ a ≤ b := by
  rw [inTree, Bool.or_eq_true, decide_eq_true_eq, startswith_iff, AbsPath.eq_or_sep_prefix_toStr h]

theorem popWatch_fields (w : World) (p : Str) :
    (w.popWatch p).inst.fs = w.inst.fs ∧ (w.popWatch p).inst.queue = w.inst.queue ∧
      (w.popWatch p).inst.label = w.inst.label ∧ (w.popWatch p).inst.nextWd = w.inst.nextWd ∧
      (w.popWatch p).inst.full = w.inst.full ∧ (w.popWatch p).roots = w.roots := by
  unfold popWatch
  split <;> exact ⟨rfl, rfl, rfl, rfl, rfl, rfl⟩

theorem lookup_popWatch (w : World) (p q : Str) :
    (w.popWatch p).watches.lookup q = if q = p then none else w.watches.lookup q := by
  unfold popWatch
  cases h : w.watches.lookup p with
  | none =>
      by_cases e : q = p
      · subst e; rw [if_pos rfl]; exact h
      · rw [if_neg e]
  | some wd =>
      by_cases e : q = p
      · subst e; rw [if_pos rfl]; exact AList.lookup_erase _ _
      · rw [if_neg e]; exact AList.lookup_erase_ne e

theorem wdAt_popWatch (w : World) (p : Str) (l : Loc) {wd : Nat} :
    (w.popWatch p).inst.wdAt l = some wd ↔
      w.inst.wdAt l = some wd ∧ w.watches.lookup p ≠ some wd := by
  unfold popWatch
  cases h : w.watches.lookup p with
  | none => simp
  | some wd' =>
      dsimp only
      rw [Inst.wdAt_rmWatch]
      by_cases e : w.inst.wdAt l = some wd'
      · rw [if_pos e, e]
        simp only [reduceCtorEq, Option.some.injEq, ne_eq, false_iff, not_and, not_not]
        exact id
      · rw [if_neg e]
        refine ⟨fun hl => ⟨hl, fun e' => e ?_⟩, fun hl => hl.1⟩
        rw [hl, e']

/-- Popping paths one after another. -/
theorem foldl_popWatch : ∀ (ps : List Str) (w : World),
    let w' := ps.foldl popWatch w
    (w'.inst.fs = w.inst.fs ∧ w'.inst.queue = w.inst.queue ∧ w'.inst.label = w.inst.label ∧
      w'.inst.nextWd = w.inst.nextWd ∧ w'.inst.full = w.inst.full ∧ w'.roots = w.roots) ∧
    (∀ q, w'.watches.lookup q = if q ∈ ps then none else w.watches.lookup q) ∧
    ∀ l wd, w'.inst.wdAt l = some wd ↔
      w.inst.wdAt l = some wd ∧ ∀ p ∈ ps, w.watches.lookup p ≠ some wd
  | [], w => by simp
  | p :: ps, w => by
      obtain ⟨⟨f₁, f₂, f₃, f₄, f₅, f₆⟩, hl, hw⟩ := foldl_popWatch ps (w.popWatch p)
      obtain ⟨g₁, g₂, g₃, g₄, g₅, g₆⟩ := popWatch_fields w p
      refine ⟨⟨f₁.trans g₁, f₂.trans g₂, f₃.trans g₃, f₄.trans g₄, f₅.trans g₅, f₆.trans g₆⟩,
        fun q => ?_, fun l wd => ?_⟩
      · rw [List.foldl_cons, hl, lookup_popWatch]
        by_cases e : q = p <;> by_cases e' : q ∈ ps <;> simp [e, e']
      · rw [List.foldl_cons, hw, wdAt_popWatch, and_assoc]
        refine and_congr_right fun _ => ?_
        simp only [List.mem_cons, forall_eq_or_imp, lookup_popWatch]
        refine and_congr_right fun hp => forall₂_congr fun q _ => ?_
        by_cases e : q = p
        · subst e; simp [hp]
        · rw [if_neg e]

section RemoveWatchTree
variable (w : World) (root : Str)

theorem removeWatchTree_fields :
    (w.removeWatchTree root).inst.fs = w.inst.fs ∧
      (w.removeWatchTree root).inst.queue = w.inst.queue ∧
      (w.removeWatchTree root).inst.label = w.inst.label ∧
      (w.removeWatchTree root).inst.nextWd = w.inst.nextWd ∧
      (w.removeWatchTree root).inst.full = w.inst.full ∧
      (w.removeWatchTree root).roots = w.roots :=
  (foldl_popWatch _ w).1

/-- **The paths in the tree are dropped**, and no other. -/
theorem lookup_removeWatchTree (p : Str) :
    (w.removeWatchTree root).watches.lookup p =
      if inTree root p = true then none else w.watches.lookup p := by
  rw [removeWatchTree, (foldl_popWatch _ w).2.1]
  by_cases h : inTree root p = true
  · rw [if_pos h]
    by_cases hp : p ∈ w.watches
    · rw [if_pos (List.mem_filter.mpr ⟨AList.mem_keys.mp hp, h⟩)]
    · rw [if_neg (fun e => hp (AList.mem_keys.mpr (List.mem_filter.mp e).1)),
        AList.lookup_eq_none.mpr hp]
  · rw [if_neg h, if_neg (fun e => h (List.mem_filter.mp e).2)]

theorem mem_removeWatchTree (p : Str) :
    p ∈ (w.removeWatchTree root).watches ↔ p ∈ w.watches ∧ inTree root p = false := by
  rw [← AList.lookup_isSome, ← AList.lookup_isSome, lookup_removeWatchTree]
  cases inTree root p <;> simp

/-- **The watches recorded in the tree die**, and no other. -/
theorem wdAt_removeWatchTree (l : Loc) (wd : Nat) :
    (w.removeWatchTree root).inst.wdAt l = some wd ↔
      w.inst.wdAt l = some wd ∧ ∀ p, inTree root p = true → w.watches.lookup p ≠ some wd := by
  rw [removeWatchTree, (foldl_popWatch _ w).2.2]
  refine and_congr_right fun _ => ⟨fun h p hp e => ?_, fun h p hp => h p (List.mem_filter.mp hp).2⟩
  have hmem : p ∈ w.watches := AList.lookup_isSome.mp (by simp [e])
  exact h p (List.mem_filter.mpr ⟨AList.mem_keys.mp hmem, hp⟩) e

end RemoveWatchTree

/-! ### A whole walk -/

@[simp] theorem fs_addWatch (w : World) (p : Str) : (w.addWatch p).inst.fs = w.inst.fs := by
  have h := Inst.fs_addWatch w.inst (parse p)
  unfold addWatch
  split
  · rfl
  · split <;> rename_i e <;> rwa [e] at h

/-- The directories of a walk of `a`: existing, at or under `a`, no name below `a` ignored. -/
def Visits (ign : List Str) (fs : Fs) (a d : AbsPath) : Prop :=
  ∃ t : Loc, d = a.extend t ∧ (∀ n ∈ t, n.val ∉ ign) ∧ fs.isDir d.segs = true

/-- A walk that starts above a directory that is not ignored visits it. -/
theorem visits_of_le {fs : Fs} {d : AbsPath} (h : a ≤ d) (hd : fs.isDir d.segs = true)
    (hi : isIgnored ign d.toStr = false) : Visits ign fs a d := by
  obtain ⟨t, rfl⟩ := AbsPath.le_iff_exists_extend.mp h
  exact ⟨t, rfl, (isIgnored_extend.mp hi).2, hd⟩

theorem visits_iff_mem_osWalk {fs : Fs} {d : AbsPath} :
    Visits ign fs a d ↔ ∃ files, (d.toStr, files) ∈ osWalk ign fs fs.height a.toStr := by
  simp only [mem_osWalk, AbsPath.toStr_inj]
  constructor
  · rintro ⟨t, rfl, ht, hd⟩
    obtain ⟨ds, ns, hs⟩ := Fs.scandir_of_isDir hd
    exact ⟨ns, t, rfl, ht, ds, hs⟩
  · rintro ⟨files, t, rfl, ht, ds, hs⟩
    exact ⟨t, rfl, ht, (Fs.scandir_eq_some hs).1⟩

/-- **What every `_add_watch` of a walk keeps, the walk keeps.** -/
theorem walkAddWatches_induct {P : World → Prop} (h₀ : P w)
    (hstep : ∀ w' d, P w' → w'.inst.fs = w.inst.fs → Visits ign w.inst.fs a d →
      isIgnored ign d.trim.toStr = false → P (w'.addWatch d.trim.toStr)) :
    P (w.walkAddWatches ign a.toStr).1 := by
  unfold walkAddWatches
  have key : ∀ (es : List (Str × List Name)) (acc : World × List FsEvent),
      (∀ e ∈ es, ∃ d, e.1 = d.toStr ∧ Visits ign w.inst.fs a d) →
      P acc.1 → acc.1.inst.fs = w.inst.fs → P (es.foldl (visit ign a.toStr) acc).1 := by
    intro es
    induction es with
    | nil => intro acc _ h _; exact h
    | cons e es ih =>
        intro acc hes hP hf
        obtain ⟨d, hd, hv⟩ := hes e (by simp)
        refine ih _ (fun e' he' => hes e' (by simp [he'])) ?_ ?_ <;> unfold visit <;>
          rw [hd, AbsPath.normalizePath_toStr] <;> dsimp only <;> split
        · exact hP
        · rename_i hi
          exact hstep _ d hP hf hv (by simpa using hi)
        · exact hf
        · rw [fs_addWatch]; exact hf
  refine key _ _ (fun e he => ?_) h₀ rfl
  obtain ⟨s, files⟩ := e
  obtain ⟨t, hs, ht, dirs, hdirs⟩ := mem_osWalk.mp he
  exact ⟨a.extend t, hs, t, rfl, ht, (Fs.scandir_eq_some hdirs).1⟩

@[simp] theorem fs_walkAddWatches (w : World) (ign : List Str) (a : AbsPath) :
    (w.walkAddWatches ign a.toStr).1.inst.fs = w.inst.fs :=
  walkAddWatches_induct (P := fun w' => w'.inst.fs = w.inst.fs) rfl
    fun w' d h _ _ _ => by rw [fs_addWatch]; exact h

theorem addWatch_fields (hfull : w.inst.full = false) (a : AbsPath) :
    (w.addWatch a.toStr).inst.queue = w.inst.queue ∧ (w.addWatch a.toStr).inst.full = false ∧
      (w.addWatch a.toStr).roots = w.roots := by
  rcases addWatch_cases hfull a with ⟨h, -⟩ | ⟨wd, h⟩
  · rw [h]; exact ⟨rfl, hfull, rfl⟩
  · exact ⟨h.queue, h.full, h.roots⟩

theorem walkAddWatches_fields (hfull : w.inst.full = false) (ign : List Str) (a : AbsPath) :
    (w.walkAddWatches ign a.toStr).1.inst.queue = w.inst.queue ∧
      (w.walkAddWatches ign a.toStr).1.inst.full = false ∧
      (w.walkAddWatches ign a.toStr).1.roots = w.roots :=
  walkAddWatches_induct
    (P := fun w' => w'.inst.queue = w.inst.queue ∧ w'.inst.full = false ∧ w'.roots = w.roots)
    ⟨rfl, hfull, rfl⟩ fun w' d h _ _ _ => by
      obtain ⟨h₁, h₂, h₃⟩ := addWatch_fields h.2.1 d.trim
      exact ⟨h₁.trans h.1, h₂, h₃.trans h.2.2⟩

theorem mem_addWatch_iff (hfull : w.inst.full = false) {p : Str} :
    p ∈ (w.addWatch a.toStr).watches ↔
      p ∈ w.watches ∨ (p = a.toStr ∧ w.inst.fs.node a.segs ≠ none) := by
  rcases addWatch_cases hfull a with ⟨h, hm | hn⟩ | ⟨wd, h⟩
  · rw [h]
    exact ⟨.inl, fun e => e.elim id fun e => e.1 ▸ hm⟩
  · rw [h]
    exact ⟨.inl, fun e => e.elim id fun e => absurd hn e.2⟩
  · rw [h.mem_iff, or_comm]
    refine or_congr_right ⟨fun e => ⟨e, ?_⟩, fun e => e.1⟩
    obtain ⟨v, hv, -⟩ := Inst.wdAt_eq_some.mp h.live
    rw [← h.fs, hv]
    exact Option.some_ne_none _

/-- `p` is what a walk of `a` records for a directory it visits. -/
def Attaches (ign : List Str) (fs : Fs) (a : AbsPath) (p : Str) : Prop :=
  ∃ d, Visits ign fs a d ∧ p = d.trim.toStr ∧ isIgnored ign p = false ∧
    fs.node d.trim.segs ≠ none

/-- **A walk records what it visits, under normalised paths**, and forgets nothing. -/
theorem mem_walkAddWatches (hfull : w.inst.full = false) {p : Str} :
    p ∈ (w.walkAddWatches ign a.toStr).1.watches ↔
      p ∈ w.watches ∨ Attaches ign w.inst.fs a p := by
  have key : ∀ (es : List (Str × List Name)) (acc : World × List FsEvent),
      (∀ e ∈ es, ∃ d : AbsPath, e.1 = d.toStr) → acc.1.inst.fs = w.inst.fs →
      acc.1.inst.full = false →
      (p ∈ (es.foldl (visit ign a.toStr) acc).1.watches ↔ p ∈ acc.1.watches ∨
        ∃ e ∈ es, ∃ d : AbsPath, e.1 = d.toStr ∧ p = d.trim.toStr ∧ isIgnored ign p = false ∧
          w.inst.fs.node d.trim.segs ≠ none) := by
    intro es
    induction es with
    | nil => intro acc _ _ _; simp
    | cons e es ih =>
        intro acc hes hf hfl
        obtain ⟨d, hd⟩ := hes e (by simp)
        have hvisit : visit ign a.toStr acc e = if isIgnored ign d.trim.toStr = true then acc else
            (acc.1.addWatch d.trim.toStr,
              acc.2 ++ synthetic a.toStr e.1 d.trim.toStr e.2) := by
          rw [visit, hd, AbsPath.normalizePath_toStr]
        have hhead : p ∈ (visit ign a.toStr acc e).1.watches ↔ p ∈ acc.1.watches ∨
            (p = d.trim.toStr ∧ isIgnored ign p = false ∧
              w.inst.fs.node d.trim.segs ≠ none) := by
          rw [hvisit]
          split
          · rename_i hi
            refine ⟨.inl, fun h => h.elim id ?_⟩
            rintro ⟨rfl, hi', -⟩
            rw [hi] at hi'; cases hi'
          · rename_i hi
            rw [mem_addWatch_iff hfl, hf]
            refine or_congr_right ⟨?_, fun h => ⟨h.1, h.2.2⟩⟩
            rintro ⟨rfl, hn⟩
            exact ⟨rfl, by simpa using hi, hn⟩
        have hfs' : (visit ign a.toStr acc e).1.inst.fs = w.inst.fs := by
          rw [hvisit]; split
          · exact hf
          · rw [fs_addWatch]; exact hf
        have hfull' : (visit ign a.toStr acc e).1.inst.full = false := by
          rw [hvisit]; split
          · exact hfl
          · exact (addWatch_fields hfl _).2.1
        rw [List.foldl_cons, ih _ (fun e' he' => hes e' (by simp [he'])) hfs' hfull', hhead, or_assoc]
        refine or_congr_right ?_
        constructor
        · rintro (h | ⟨e', he', h⟩)
          · exact ⟨e, by simp, d, hd, h⟩
          · exact ⟨e', by simp [he'], h⟩
        · rintro ⟨e', he', d', hd', h⟩
          rcases List.mem_cons.mp he' with rfl | he'
          · rw [hd, AbsPath.toStr_inj] at hd'
            exact .inl (hd' ▸ h)
          · exact .inr ⟨e', he', d', hd', h⟩
  have hall : ∀ e ∈ osWalk ign w.inst.fs w.inst.fs.height a.toStr, ∃ d : AbsPath, e.1 = d.toStr := by
    rintro ⟨s, files⟩ he
    obtain ⟨t, hs, -⟩ := mem_osWalk.mp he
    exact ⟨_, hs⟩
  rw [walkAddWatches, key _ _ hall rfl hfull]
  refine or_congr_right ⟨?_, ?_⟩
  · rintro ⟨e, he, d, hd, h⟩
    exact ⟨d, visits_iff_mem_osWalk.mpr ⟨e.2, hd ▸ he⟩, h⟩
  · rintro ⟨d, hv, h⟩
    obtain ⟨files, hf⟩ := visits_iff_mem_osWalk.mp hv
    exact ⟨_, hf, d, rfl, h⟩

/-! ### One turn -/

/-- The mask of an event that makes `events()` walk a new subtree. -/
def appears (mask : Nat) : Bool :=
  maskIsDir mask &&
    (maskToEventType mask = some .created || maskToEventType mask = some .movedTo)

/-- The mask of an event that makes `events()` drop a subtree. -/
def vanishes (mask : Nat) : Bool :=
  maskIsDir mask &&
    (maskToEventType mask = some .deleted || maskToEventType mask = some .movedFrom)

/-- The walks of several trees, one after another. -/
def walkAll (ign : List Str) (w : World) (roots : List Str) : World :=
  roots.foldl (fun w root => (w.walkAddWatches ign root).1) w

theorem runTasks_walks (roots : List Str) :
    (runTasks ign w (roots.map .walk)).1 = walkAll ign w roots := by
  induction roots generalizing w with
  | nil => rfl
  | cons r roots ih => exact ih

/-- **What a turn does to the watches.** -/
theorem handle_fst (w : World) (e : Raw) : (handle ign w e).1 =
    if e.mask &&& IN_Q_OVERFLOW ≠ 0 then walkAll ign w (w.roots.insertionSort (· ≤ ·))
    else match e.path with
      | none => w
      | some a =>
        if isIgnored ign a.trim.toStr then w
        else if appears e.mask then (w.walkAddWatches ign a.trim.toStr).1
        else if vanishes e.mask then w.removeWatchTree a.trim.toStr
        else w := by
  rw [handle, decode]
  split
  · exact runTasks_walks _
  · cases e.path with
    | none => rfl
    | some a =>
        dsimp only
        rw [AbsPath.normalizePath_toStr, appears, vanishes]
        cases isIgnored ign a.trim.toStr with
        | true => rfl
        | false =>
            rw [if_neg Bool.false_ne_true, if_neg Bool.false_ne_true]
            cases maskToEventType e.mask with
            | none => cases maskIsDir e.mask <;> rfl
            | some t => cases maskIsDir e.mask <;> cases t <;> rfl

/-- A turn begins by dropping a subtree, or by leaving the watches alone. -/
theorem decode_fst (w : World) (e : Raw) :
    (decode ign w e).1 = w ∨ ∃ p, (decode ign w e).1 = w.removeWatchTree p := by
  rw [decode]
  split
  · exact .inl rfl
  · cases e.path with
    | none => exact .inl rfl
    | some a =>
        dsimp only
        split
        · exact .inl rfl
        · cases maskToEventType e.mask with
          | none => exact .inl rfl
          | some t =>
              dsimp only
              split
              · exact .inl rfl
              · split
                · exact .inr ⟨_, rfl⟩
                · exact .inl rfl

/-! ### Live watches -/

/-- `p` is recorded and its watch is live on what is found at `p`. -/
def Live (w : World) (p : Str) : Prop :=
  ∃ wd, w.watches.lookup p = some wd ∧ w.inst.wdAt (parse p).segs = some wd

theorem Live.mem {p : Str} (h : Live w p) : p ∈ w.watches := by
  obtain ⟨wd, h, -⟩ := h
  exact AList.lookup_isSome.mp (by simp [h])

theorem live_toStr : Live w a.toStr ↔
    ∃ wd, w.watches.lookup a.toStr = some wd ∧ w.inst.wdAt a.segs = some wd := by
  rw [Live, AbsPath.parse_toStr]

theorem Added.live_self (h : Added w a wd w') : Live w' a.toStr :=
  live_toStr.mpr ⟨wd, h.lookup_self, h.live⟩

/-- One watch more kills no watch. -/
theorem Added.wdAt_mono (h : Added w a wd w') {m : Loc} {v : Nat} (hm : w.inst.wdAt m = some v) :
    w'.inst.wdAt m = some v := by
  by_cases e : m = a.segs
  · subst e
    rcases h.origin with ⟨h', -⟩ | ⟨h', -⟩
    · rw [hm] at h'; rw [h.live, h']
    · rw [hm] at h'; cases h'
  · rw [h.other m e, hm]

theorem Live.addWatch (hfull : w.inst.full = false) {p : Str} (h : Live w p) (a : AbsPath) :
    Live (w.addWatch a.toStr) p := by
  rcases addWatch_cases hfull a with ⟨e, -⟩ | ⟨wd, hadd⟩
  · rwa [e]
  · obtain ⟨v, hv, hw⟩ := h
    have hne : p ≠ a.toStr := by
      rintro rfl
      exact hadd.new (AList.lookup_isSome.mp (by simp [hv]))
    exact ⟨v, by rw [hadd.lookup_ne hne, hv], hadd.wdAt_mono hw⟩

/-- A walk keeps live watches, and the paths it records are live. -/
theorem live_walkAddWatches (hfull : w.inst.full = false) {p : Str}
    (h : Live w p ∨ (p ∉ w.watches ∧ Attaches ign w.inst.fs a p)) :
    Live (w.walkAddWatches ign a.toStr).1 p := by
  have hinv : ((w.walkAddWatches ign a.toStr).1.inst.full = false) ∧
      (Live (w.walkAddWatches ign a.toStr).1 p ∨
        (p ∉ w.watches ∧ p ∉ (w.walkAddWatches ign a.toStr).1.watches)) := by
    refine walkAddWatches_induct
      (P := fun w' => w'.inst.full = false ∧ (Live w' p ∨ (p ∉ w.watches ∧ p ∉ w'.watches)))
      ⟨hfull, h.imp id fun h => ⟨h.1, h.1⟩⟩ fun w' d hw' _ _ _ =>
        ⟨(addWatch_fields hw'.1 _).2.1, ?_⟩
    rcases hw'.2 with hl | ⟨hp, hp'⟩
    · exact .inl (hl.addWatch hw'.1 _)
    · rcases addWatch_cases hw'.1 d.trim with ⟨e, -⟩ | ⟨wd, hadd⟩
      · rw [e]; exact .inr ⟨hp, hp'⟩
      · by_cases e : p = d.trim.toStr
        · exact .inl (e ▸ hadd.live_self)
        · exact .inr ⟨hp, fun hm => (hadd.mem_iff.mp hm).elim e hp'⟩
  refine hinv.2.resolve_right fun hno => ?_
  rcases h with h | h
  · exact hno.1 h.mem
  · exact hno.2 ((mem_walkAddWatches hfull).mpr (.inr h.2))

end World

end MediaScanMonitor
