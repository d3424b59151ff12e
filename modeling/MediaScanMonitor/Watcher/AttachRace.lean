import MediaScanMonitor.Watcher.Generator

/-!
# Watcher — the attach race

A directory appears, and `events()` walks it while other processes go on creating entries in it.
The walk lists a directory before it attaches the watch, so an entry created between the two is
neither listed nor announced by an event.

* `Tidy`: what is recorded or watched at or under `top` is so under its own path.
* `Covered`: an entry is done (a directory with a live watch, a file that has been yielded), or
  something that is still due will see to it: a walk that is to list it, a listing with it, an
  event for it.
* `attach_race_closed`: when no entry is created in a directory that is listed and not yet
  attached (unless a walk that is still due will list the directory again), and no name ends in
  white space, every directory has a live watch and every file has been yielded once the walk has
  ended and the queue is empty.
-/

namespace Posix.AbsPath
open Py MediaScanMonitor

def parent (a : AbsPath) : AbsPath := { a with segs := a.segs.dropLast }

theorem parent_le (a : AbsPath) : a.parent ≤ a := ⟨rfl, a.segs.dropLast_prefix⟩

@[simp] theorem parent_push (a : AbsPath) (n : Name) : (a.push n).parent = a := by
  simp [parent, push]

theorem exists_push {a : AbsPath} (h : a.segs ≠ []) : ∃ n, a = a.parent.push n :=
  ⟨a.segs.getLast h, by
    obtain ⟨d, s⟩ := a
    rw [push, parent, List.dropLast_append_getLast h]⟩

@[simp] theorem dbl_trim (a : AbsPath) : a.trim.dbl = a.dbl := by
  obtain ⟨d, s⟩ := a
  rcases List.eq_nil_or_concat' s with rfl | ⟨s, n, rfl⟩
  · rfl
  · rw [concat_eq_push, trim_push, step]
    split
    · rfl
    · split <;> rfl

theorem eq_of_segs {a b : AbsPath} (hd : a.dbl = b.dbl) (hs : a.segs = b.segs) : a = b := by
  obtain ⟨d, s⟩ := a
  obtain ⟨d', s'⟩ := b
  cases hd
  cases hs
  rfl

/-- What is at or under a path is the path, or at or under an entry of it. -/
theorem le_iff_eq_or_push {a b : AbsPath} : a ≤ b ↔ b = a ∨ ∃ n, a.push n ≤ b := by
  rw [le_iff_exists_extend]
  constructor
  · rintro ⟨t, rfl⟩
    cases t with
    | nil => exact .inl (extend_nil a)
    | cons n t => exact .inr ⟨n, by rw [← extend_push]; exact le_extend _ t⟩
  · rintro (rfl | ⟨n, h⟩)
    · exact ⟨[], (extend_nil _).symm⟩
    · exact le_iff_exists_extend.mp ((le_push a n).trans h)

end Posix.AbsPath

namespace MediaScanMonitor
open Py Posix Inotify

/-! ### Watches under their own paths -/

namespace World
variable {w w' : World} {ign : List Str} {top a d x : AbsPath} {l : Loc} {n : Name} {b : Bool}

/-- What is recorded or watched at or under `top` is so under its own path, and every live watch
is spelled with as many leading slashes as `top`. -/
structure Tidy (top : AbsPath) (w : World) : Prop where
  live : ∀ d, top ≤ d → d.toStr ∈ w.watches → Live w d.toStr
  label : ∀ d, top ≤ d → ∀ wd, w.inst.wdAt d.segs = some wd →
    w.watches.lookup d.toStr = some wd ∧ w.inst.label wd = d
  spelled : ∀ l wd, w.inst.wdAt l = some wd → (w.inst.label wd).dbl = top.dbl

theorem Tidy.addWatch (h : Tidy top w) (hfull : w.inst.full = false) (ha : a.dbl = top.dbl) :
    Tidy top (w.addWatch a.toStr) := by
  rcases addWatch_cases hfull a with ⟨e, -⟩ | ⟨v, hadd⟩
  · rwa [e]
  · have hother : ∀ m wd, m ≠ a.segs → (w.addWatch a.toStr).inst.wdAt m = some wd →
        w.inst.wdAt m = some wd ∧ (w.addWatch a.toStr).inst.label wd = w.inst.label wd := by
      intro m wd hm hwd
      refine ⟨(hadd.other m hm).symm.trans hwd, hadd.label_ne ?_⟩
      rintro rfl
      exact hm (Inst.wdAt_inj hwd hadd.live)
    refine ⟨fun d hd hmem => ?_, fun d hd wd hwd => ?_, fun m wd hwd => ?_⟩
    · rcases hadd.mem_iff.mp hmem with e | hmem
      · exact e ▸ hadd.live_self
      · exact (h.live d hd hmem).addWatch hfull a
    · by_cases e : d.segs = a.segs
      · obtain rfl : d = a := AbsPath.eq_of_segs (hd.1.symm.trans ha.symm) e
        rw [hadd.live] at hwd
        cases hwd
        rcases hadd.label_self with ⟨-, hlabel⟩ | ⟨hold, -⟩
        · exact ⟨hadd.lookup_self, hlabel⟩
        · exact absurd (mem_of_lookup (h.label d hd _ hold).1) hadd.new
      · obtain ⟨hwd', hlabel⟩ := hother d.segs wd e hwd
        obtain ⟨h₁, h₂⟩ := h.label d hd wd hwd'
        refine ⟨?_, hlabel.trans h₂⟩
        rw [hadd.lookup_ne fun e' => e (congrArg AbsPath.segs (AbsPath.toStr_injective e')), h₁]
    · by_cases e : m = a.segs
      · rw [e, hadd.live] at hwd
        cases hwd
        rcases hadd.label_self with ⟨-, hlabel⟩ | ⟨hold, hlabel⟩
        · rw [hlabel, ha]
        · rw [hlabel, h.spelled _ _ hold]
      · obtain ⟨hwd', hlabel⟩ := hother m wd e hwd
        rw [hlabel]
        exact h.spelled m wd hwd'

theorem Tidy.create (h : Tidy top w) (hc : w.inst.fs.canCreate l n) :
    Tidy top (w.apply (.create l n b)) := by
  have hwd : ∀ m wd, (w.apply (.create l n b)).inst.wdAt m = some wd →
      w.inst.wdAt m = some wd := by
    intro m wd e
    rw [inst_apply, Inst.wdAt_create hc] at e
    split at e
    · cases e
    · exact e
  exact ⟨fun d hd hm => (h.live d hd hm).create hc, fun d hd wd e => h.label d hd wd (hwd _ _ e),
    fun m wd e => h.spelled m wd (hwd _ _ e)⟩

end World

/-! ### What is still due -/

/-- A frame of a walk that is to list `a`. -/
def Frame.Reaches (a : AbsPath) : Frame → Prop
  | .toList p => parse p ≤ a
  | .toAttach p dirnames _ => ∃ n ∈ dirnames, (parse p).push n ≤ a

/-- The frame that is to attach `a`. -/
def Frame.Attaches (a : AbsPath) : Frame → Prop
  | .toAttach p _ _ => p = a.toStr
  | .toList _ => False

/-- The frame that has listed the file `x`. -/
def Frame.Lists (x : AbsPath) : Frame → Prop
  | .toAttach p _ filenames => ∃ n ∈ filenames, x = (parse p).push n
  | .toList _ => False

instance (a : AbsPath) : ∀ f : Frame, Decidable (f.Reaches a)
  | .toList p => inferInstanceAs (Decidable (parse p ≤ a))
  | .toAttach p dirnames _ => inferInstanceAs (Decidable (∃ n ∈ dirnames, (parse p).push n ≤ a))

instance (a : AbsPath) : ∀ f : Frame, Decidable (f.Attaches a)
  | .toAttach p _ _ => inferInstanceAs (Decidable (p = a.toStr))
  | .toList _ => .isFalse id

def World.Task.Reaches (a : AbsPath) : World.Task → Prop
  | .walk root => parse root ≤ a
  | .yieldEvent _ => False

instance (a : AbsPath) : ∀ t : World.Task, Decidable (t.Reaches a)
  | .walk root => inferInstanceAs (Decidable (parse root ≤ a))
  | .yieldEvent _ => .isFalse id

def World.Task.Tells (x : AbsPath) : World.Task → Prop
  | .yieldEvent e => e.path = x.toStr
  | .walk _ => False

/-- The event of a creation at `a`. -/
def creation (a : AbsPath) (d : Bool) : Raw := ⟨some a, Inotify.create ||| dirBit d⟩

theorem creation_inj {a b : AbsPath} {d c : Bool} : creation a d = creation b c ↔ a = b ∧ d = c := by
  rw [creation, creation, Raw.mk.injEq, Option.some.injEq]
  refine and_congr_right fun _ => ?_
  cases d <;> cases c <;> decide

theorem creation_mask (a : AbsPath) (d : Bool) :
    ¬ (creation a d).mask &&& IN_Q_OVERFLOW ≠ 0 := by
  show ¬ (Inotify.create ||| dirBit d) &&& IN_Q_OVERFLOW ≠ 0
  cases d <;> decide

/-- An event that makes `events()` walk a directory at or above `a`. -/
def RawReaches (a : AbsPath) (e : Raw) : Prop :=
  ∃ q ∈ e.path, e = creation q true ∧ q.trim ≤ a

instance (a : AbsPath) (e : Raw) : Decidable (RawReaches a e) :=
  inferInstanceAs (Decidable (∃ q ∈ e.path, e = creation q true ∧ q.trim ≤ a))

/-- An event that makes `events()` yield the file `x`. -/
def RawTells (x : AbsPath) (e : Raw) : Prop :=
  ∃ q ∈ e.path, e = creation q false ∧ q.trim = x

namespace Gen
variable {ign : List Str} {g : Gen} {a x top : AbsPath}
open World

/-- The frames of the walk in progress. -/
def frames (g : Gen) : List Frame :=
  match g.walk? with
  | some k => k.stack
  | none => []

/-- A walk that is still due is to list `a`. -/
def Reaches (g : Gen) (a : AbsPath) : Prop :=
  (∃ f ∈ g.frames, f.Reaches a) ∨ (∃ t ∈ g.todo, t.Reaches a) ∨
    ∃ e ∈ g.world.inst.queue, RawReaches a e

instance (g : Gen) (a : AbsPath) : Decidable (g.Reaches a) :=
  inferInstanceAs (Decidable (_ ∨ _ ∨ _))

/-- The walk in progress has listed `a` and is to attach it. -/
def Attaching (g : Gen) (a : AbsPath) : Prop := ∃ f ∈ g.frames, f.Attaches a

/-- `x` has been yielded, or is going to be. -/
def Told (g : Gen) (x : AbsPath) : Prop :=
  (∃ e ∈ g.out, e.path = x.toStr) ∨ (∃ t ∈ g.todo, t.Tells x) ∨
    (∃ k, g.walk? = some k ∧ ∃ e ∈ k.synthetic, e.path = x.toStr) ∨
    ∃ e ∈ g.world.inst.queue, RawTells x e

/-- An entry that is done, or that something still due will see to. -/
def Covered (g : Gen) (x : AbsPath) : Prop :=
  if g.world.inst.fs.isDir x.segs = true then
    Live g.world x.toStr ∨ g.Reaches x ∨ g.Attaching x
  else g.Told x ∨ g.Reaches x.parent ∨ ∃ f ∈ g.frames, f.Lists x

/-- **The steps of the environment that a walk survives**: an entry is created under a clean
name, and not in a directory that is listed and not attached, unless a walk that is still due is
to list it again. -/
def NoGap (ign : List Str) (top : AbsPath) (g : Gen) : Act → Prop
  | .op (.create l n _) =>
    let dir : AbsPath := ⟨top.dbl, l⟩
    top ≤ dir → World.isIgnored ign (dir.push n).toStr = false →
      rstrip n.val = n.val ∧ (g.Attaching dir → g.world.inst.wdAt l ≠ none ∨ g.Reaches dir)
  | .read | .resume | .sync => True
  | _ => False

instance (g : Gen) : ∀ act, Decidable (NoGap ign top g act)
  | .op (.create l n _) => inferInstanceAs (Decidable (top ≤ ⟨top.dbl, l⟩ →
      World.isIgnored ign ((⟨top.dbl, l⟩ : AbsPath).push n).toStr = false → rstrip n.val = n.val ∧
        ((∃ f ∈ g.frames, f.Attaches ⟨top.dbl, l⟩) →
          g.world.inst.wdAt l ≠ none ∨ g.Reaches ⟨top.dbl, l⟩)))
  | .read | .resume | .sync => .isTrue trivial
  | .op (.remove _ _) | .op (.rename _ _ _ _) | .lose _ | .setRoots _ => .isFalse id

/-- The invariant of a walk of `top`. -/
structure Race (ign : List Str) (top : AbsPath) (g : Gen) : Prop where
  sound : Sound g.world
  tidy : Tidy top g.world
  dir : g.world.inst.fs.isDir top.segs = true
  clean : ∀ x, top ≤ x → g.world.inst.fs.node x.segs ≠ none →
    World.isIgnored ign x.toStr = false → x.Clean
  queue : ∀ e ∈ g.world.inst.queue, ∃ a d, e = creation a d ∧ a.dbl = top.dbl
  todo : ∀ root, .walk root ∈ g.todo → ∃ a : AbsPath, root = a.toStr ∧ a.dbl = top.dbl
  events : ∀ k left, g.busy ≠ .roots k left
  frames : ∀ f ∈ g.frames, ∃ a : AbsPath, f.path = a.toStr ∧ a.dbl = top.dbl
  covered : ∀ x, top ≤ x → g.world.inst.fs.node x.segs ≠ none →
    World.isIgnored ign x.toStr = false → g.Covered x

/-! ### The generator settles -/

section Settle
variable {w : World} {todo : List World.Task} {out : List FsEvent}

theorem Covered.settle (h : Covered ⟨w, todo, .idle, out⟩ x) :
    Covered (Gen.settle ⟨w, todo, .idle, out⟩) x := by
  cases todo with
  | nil => exact h
  | cons task todo =>
      have hfs : (Gen.settle ⟨w, task :: todo, .idle, out⟩).world = w := by cases task <;> rfl
      -- what a task was due to do, the suspended generator has done or the walk is about to do
      have hreach : ∀ a, Reaches ⟨w, task :: todo, .idle, out⟩ a →
          Reaches (Gen.settle ⟨w, task :: todo, .idle, out⟩) a := by
        rintro a (⟨f, hf, -⟩ | ⟨t, ht, hta⟩ | hq)
        · cases hf
        · rcases List.mem_cons.mp ht with rfl | ht'
          · cases t with
            | yieldEvent e => exact hta.elim
            | walk root =>
                exact .inl ⟨.toList root, by simp [Gen.settle, frames, walk?, Walk.start], hta⟩
          · refine .inr (.inl ⟨t, ?_, hta⟩)
            cases task <;> exact ht'
        · refine .inr (.inr ?_)
          rwa [hfs]
      unfold Covered at h ⊢
      rw [hfs]
      split at h
      · rename_i hd
        rw [if_pos hd]
        rcases h with h | h | ⟨f, hf, -⟩
        · exact .inl h
        · exact .inr (.inl (hreach _ h))
        · cases hf
      · rename_i hd
        rw [if_neg hd]
        rcases h with (⟨e, he, hex⟩ | ⟨t, ht, htx⟩ | ⟨k, hk, -⟩ | hq) | h | ⟨f, hf, -⟩
        · refine .inl (.inl ⟨e, ?_, hex⟩)
          cases task
          · exact List.mem_append_left _ he
          · exact he
        · rcases List.mem_cons.mp ht with rfl | ht'
          · cases t with
            | yieldEvent e => exact .inl (.inl ⟨e, List.mem_append_right _ (by simp), htx⟩)
            | walk root => exact htx.elim
          · refine .inl (.inr (.inl ⟨t, ?_, htx⟩))
            cases task <;> exact ht'
        · cases hk
        · refine .inl (.inr (.inr (.inr ?_)))
          rwa [hfs]
        · exact .inr (.inl (hreach _ h))
        · cases hf

/-- The end of a walk: its synthetic events are to be yielded. -/
theorem Covered.finish {root : Str} {syn : List FsEvent}
    (h : Covered ⟨w, todo, .events ⟨root, [], syn⟩, out⟩ x) :
    Covered ⟨w, syn.map .yieldEvent ++ todo, .idle, out⟩ x := by
  have hreach : ∀ a, Reaches ⟨w, todo, .events ⟨root, [], syn⟩, out⟩ a →
      Reaches ⟨w, syn.map .yieldEvent ++ todo, .idle, out⟩ a := by
    rintro a (⟨f, hf, -⟩ | ⟨t, ht, hta⟩ | hq)
    · cases hf
    · exact .inr (.inl ⟨t, List.mem_append_right _ ht, hta⟩)
    · exact .inr (.inr hq)
  unfold Covered at h ⊢
  split at h
  · rename_i hd
    rw [if_pos hd]
    rcases h with h | h | ⟨f, hf, -⟩
    · exact .inl h
    · exact .inr (.inl (hreach _ h))
    · cases hf
  · rename_i hd
    rw [if_neg hd]
    rcases h with (hout | ⟨t, ht, htx⟩ | ⟨k, hk, e, he, hex⟩ | hq) | h | ⟨f, hf, -⟩
    · exact .inl (.inl hout)
    · exact .inl (.inr (.inl ⟨t, List.mem_append_right _ ht, htx⟩))
    · cases hk
      exact .inl (.inr (.inl ⟨.yieldEvent e,
        List.mem_append_left _ (List.mem_map_of_mem he), hex⟩))
    · exact .inl (.inr (.inr (.inr hq)))
    · exact .inr (.inl (hreach _ h))
    · cases hf

theorem Race.settle (h : Race ign top ⟨w, todo, .idle, out⟩) :
    Race ign top (Gen.settle ⟨w, todo, .idle, out⟩) := by
  have hworld : (Gen.settle ⟨w, todo, .idle, out⟩).world = w := by
    rcases todo with _ | ⟨_ | _, todo⟩ <;> rfl
  refine ⟨by rw [hworld]; exact h.sound, by rw [hworld]; exact h.tidy, by rw [hworld]; exact h.dir,
    by rw [hworld]; exact h.clean, by rw [hworld]; exact h.queue, ?_, ?_, ?_,
    fun x hx hn hi => (h.covered x hx (by rwa [hworld] at hn) hi).settle⟩
  · intro root hr
    rcases todo with _ | ⟨_ | _, todo⟩
    · cases hr
    · exact h.todo root (List.mem_cons_of_mem _ hr)
    · exact h.todo root (List.mem_cons_of_mem _ hr)
  · rcases todo with _ | ⟨_ | _, todo⟩ <;> intro k left e <;> cases e
  · intro f hf
    rcases todo with _ | ⟨e | root, todo⟩
    · cases hf
    · cases hf
    · rw [show (Gen.settle ⟨w, .walk root :: todo, .idle, out⟩).frames = [.toList root] from rfl,
        List.mem_singleton] at hf
      rw [hf]
      exact h.todo root (by simp)

theorem Race.finish {root : Str} {syn : List FsEvent}
    (h : Race ign top ⟨w, todo, .events ⟨root, [], syn⟩, out⟩) :
    Race ign top ⟨w, syn.map .yieldEvent ++ todo, .idle, out⟩ :=
  ⟨h.sound, h.tidy, h.dir, h.clean, h.queue, fun root hr => h.todo root (by simpa using hr),
    fun _ _ e => (by cases e), fun f hf => (by cases hf),
    fun x hx hn hi => (h.covered x hx hn hi).finish⟩

end Settle

/-! ### The generator reads an event -/

section Steps
variable {w : World} {todo : List World.Task} {out : List FsEvent}

theorem decode_creation (w : World) (a : AbsPath) (d : Bool) : w.decode ign (creation a d) =
    (w, if World.isIgnored ign a.trim.toStr = true then []
      else .yieldEvent ⟨a.trim.toStr, .created, d⟩ :: if d then [.walk a.trim.toStr] else []) := by
  rw [decode, if_neg (creation_mask a d), creation]
  dsimp only
  rw [AbsPath.normalizePath_toStr]
  cases hi : World.isIgnored ign a.trim.toStr with
  | true => rfl
  | false => cases d <;> rfl

theorem Race.read (h : Race ign top g) (hidle : g.busy = .idle) (htodo : g.todo = []) :
    Race ign top (g.read ign) := by
  obtain ⟨w, todo, busy, out⟩ := g
  cases hidle
  cases htodo
  rw [Gen.read]
  dsimp only
  cases hq : w.inst.queue with
  | nil => exact h
  | cons e q =>
      obtain ⟨a, d, rfl, ha⟩ := h.queue e (by rw [hq]; simp)
      have hmem : ∀ e', e' ∈ w.inst.queue → e' = creation a d ∨ e' ∈ w.dequeue.inst.queue :=
        fun e' he' => by
          rw [hq] at he'
          rw [dequeue, hq]
          exact List.mem_cons.mp he'
      have hback : ∀ e', e' ∈ w.dequeue.inst.queue → e' ∈ w.inst.queue := fun e' he' => by
        rw [hq]
        rw [dequeue, hq] at he'
        exact List.mem_cons_of_mem _ he'
      dsimp only
      rw [decode_creation]
      generalize htasks : (if World.isIgnored ign a.trim.toStr = true then []
        else Task.yieldEvent ⟨a.trim.toStr, .created, d⟩ ::
          if d = true then [Task.walk a.trim.toStr] else []) = tasks
      have hreach : ∀ b, World.isIgnored ign b.toStr = false → Reaches ⟨w, [], .idle, out⟩ b →
          Reaches ⟨w.dequeue, tasks, .idle, out⟩ b := by
        rintro b hb (⟨f, hf, -⟩ | ⟨t, ht, -⟩ | ⟨e', he', q', hq', hcr, hle⟩)
        · cases hf
        · cases ht
        · rcases hmem e' he' with rfl | he'
          · obtain ⟨rfl, rfl⟩ := creation_inj.mp hcr
            rw [if_neg (by rw [isIgnored_of_le hle hb]; exact Bool.false_ne_true)] at htasks
            refine .inr (.inl ⟨.walk a.trim.toStr, by simp [← htasks], ?_⟩)
            rwa [World.Task.Reaches, AbsPath.parse_toStr]
          · exact .inr (.inr ⟨e', he', q', hq', hcr, hle⟩)
      have hrace : Race ign top ⟨w.dequeue, tasks, .idle, out⟩ := by
        refine ⟨h.sound.dequeue, ⟨h.tidy.live, h.tidy.label, h.tidy.spelled⟩, h.dir, h.clean,
          fun e' he' => h.queue e' (hback e' he'), fun root hr => ?_, fun _ _ e => (by cases e),
          fun f hf => (by cases hf), fun x hx hn hi => ?_⟩
        · rw [← htasks] at hr
          split at hr
          · cases hr
          · cases d
            · simp at hr
            · refine ⟨a.trim, by simpa using hr, by rw [AbsPath.dbl_trim, ha]⟩
        · have hcov := h.covered x hx hn hi
          unfold Covered at hcov ⊢
          split at hcov
          · rename_i hd
            rw [if_pos (by exact hd)]
            rcases hcov with hl | hr | ⟨f, hf, -⟩
            · exact .inl hl
            · exact .inr (.inl (hreach x hi hr))
            · cases hf
          · rename_i hd
            rw [if_neg (by exact hd)]
            rcases hcov with (hout | ⟨t, ht, -⟩ | ⟨k, hk, -⟩ | ⟨e', he', q', hq', hcr, htr⟩) | hr |
              ⟨f, hf, -⟩
            · exact .inl (.inl hout)
            · cases ht
            · cases hk
            · rcases hmem e' he' with rfl | he'
              · obtain ⟨rfl, rfl⟩ := creation_inj.mp hcr
                subst htr
                rw [if_neg (by rw [hi]; exact Bool.false_ne_true)] at htasks
                exact .inl (.inr (.inl ⟨.yieldEvent ⟨a.trim.toStr, .created, false⟩,
                  by simp [← htasks], rfl⟩))
              · exact .inl (.inr (.inr (.inr ⟨e', he', q', hq', hcr, htr⟩)))
            · exact .inr (.inl (hreach x.parent (isIgnored_of_le x.parent_le hi) hr))
            · cases hf
      exact hrace.settle

/-! ### The steps of the walk -/

/-- On the way from a listed directory down to an existing one that is not ignored, the first
name is among the listed directories the walk descends into. -/
theorem mem_dirnames {fs : Fs} {d b : AbsPath} {n : Name} {dirnames filenames : List Name}
    (hs : fs.scandir d.segs = some (dirnames, filenames)) (hle : d.push n ≤ b)
    (hb : fs.isDir b.segs = true) (hi : World.isIgnored ign b.toStr = false) :
    n ∈ dirnames.filter fun n => n.val ∉ ign := by
  have hdir : fs.isDir (d.segs ++ [n]) = true := Fs.isDir_above hle.2 hb
  obtain ⟨t, rfl⟩ := AbsPath.le_iff_exists_extend.mp hle
  refine List.mem_filter.mpr ⟨((Fs.scandir_eq_some hs).2.1 n).mpr hdir, ?_⟩
  have hn := (isIgnored_eq_false.mp hi).2 n (by simp [AbsPath.push])
  simpa using hn

/-- What a listing leaves of the walks that are due. -/
theorem Reaches.list {root : Str} {d b : AbsPath} {rest : List Frame} {syn : List FsEvent}
    {dirnames filenames : List Name} (hs : w.inst.fs.scandir d.segs = some (dirnames, filenames))
    (hb : w.inst.fs.isDir b.segs = true) (hi : World.isIgnored ign b.toStr = false)
    (h : Reaches ⟨w, todo, .events ⟨root, .toList d.toStr :: rest, syn⟩, out⟩ b) :
    b = d ∨ Reaches ⟨w, todo, .events ⟨root, .toAttach d.toStr
      (dirnames.filter fun n => n.val ∉ ign) filenames :: rest, syn⟩, out⟩ b := by
  rcases h with ⟨f, hf, hfb⟩ | ht | hq
  · rcases List.mem_cons.mp hf with rfl | hf
    · rw [Frame.Reaches, AbsPath.parse_toStr, AbsPath.le_iff_eq_or_push] at hfb
      refine hfb.imp id fun ⟨n, hn⟩ => .inl ⟨_, List.mem_cons_self, n, mem_dirnames hs hn hb hi, ?_⟩
      rwa [AbsPath.parse_toStr]
    · exact .inr (.inl ⟨f, List.mem_cons_of_mem _ hf, hfb⟩)
  · exact .inr (.inr (.inl ht))
  · exact .inr (.inr (.inr hq))

section WalkSteps
variable {root : Str} {d b : AbsPath} {rest : List Frame} {syn : List FsEvent}
  {dirnames filenames : List Name}

/-- A directory that is gone is not listed. -/
theorem Race.list_none (h : Race ign top ⟨w, todo, .events ⟨root, .toList d.toStr :: rest, syn⟩, out⟩)
    (hs : w.inst.fs.isDir d.segs = false) :
    Race ign top ⟨w, todo, .events ⟨root, rest, syn⟩, out⟩ := by
  have hreach : ∀ b : AbsPath, w.inst.fs.isDir b.segs = true →
      Reaches ⟨w, todo, .events ⟨root, .toList d.toStr :: rest, syn⟩, out⟩ b →
        Reaches ⟨w, todo, .events ⟨root, rest, syn⟩, out⟩ b := by
    rintro b hb (⟨f, hf, hfb⟩ | h)
    · rcases List.mem_cons.mp hf with rfl | hf
      · -- nothing exists under what is no directory
        rw [Frame.Reaches, AbsPath.parse_toStr] at hfb
        exact absurd (Fs.isDir_above hfb.2 hb) (Bool.eq_false_iff.mp hs)
      · exact .inl ⟨f, hf, hfb⟩
    · exact .inr h
  refine ⟨h.sound, h.tidy, h.dir, h.clean, h.queue, h.todo, fun _ _ e => (by cases e),
    fun f hf => h.frames f (List.mem_cons_of_mem _ hf), fun x hx hn hi => ?_⟩
  have hcov := h.covered x hx hn hi
  unfold Covered at hcov ⊢
  split at hcov
  · rename_i hd
    rw [if_pos (by exact hd)]
    rcases hcov with hl | hr | ⟨f, hf, hfx⟩
    · exact .inl hl
    · exact .inr (.inl (hreach x hd hr))
    · rcases List.mem_cons.mp hf with rfl | hf
      · exact hfx.elim
      · exact .inr (.inr ⟨f, hf, hfx⟩)
  · rename_i hd
    rw [if_neg (by exact hd)]
    rcases hcov with (hout | ht | ⟨k, hk, he⟩ | hq) | hr | ⟨f, hf, hfx⟩
    · exact .inl (.inl hout)
    · exact .inl (.inr (.inl ht))
    · cases hk
      exact .inl (.inr (.inr (.inl ⟨_, rfl, he⟩)))
    · exact .inl (.inr (.inr (.inr hq)))
    · have hseg : x.segs ≠ [] := fun e => hd (by rw [e]; exact Fs.isDir_root _)
      obtain ⟨n, hx'⟩ := AbsPath.exists_push hseg
      have hp : w.inst.fs.isDir x.parent.segs = true := by
        rw [hx'] at hn
        exact Fs.isDir_parent hn
      exact .inr (.inl (hreach x.parent hp hr))
    · rcases List.mem_cons.mp hf with rfl | hf
      · exact hfx.elim
      · exact .inr (.inr ⟨f, hf, hfx⟩)

/-- A listing: the directory is to be attached, and its entries are in the listing. -/
theorem Race.list_some (h : Race ign top ⟨w, todo, .events ⟨root, .toList d.toStr :: rest, syn⟩, out⟩)
    (hs : w.inst.fs.scandir d.segs = some (dirnames, filenames)) :
    Race ign top ⟨w, todo, .events ⟨root, .toAttach d.toStr
      (dirnames.filter fun n => n.val ∉ ign) filenames :: rest, syn⟩, out⟩ := by
  refine ⟨h.sound, h.tidy, h.dir, h.clean, h.queue, h.todo, fun _ _ e => (by cases e),
    fun f hf => ?_, fun x hx hn hi => ?_⟩
  · rcases List.mem_cons.mp hf with rfl | hf
    · exact h.frames (.toList d.toStr) (by simp [Gen.frames, walk?])
    · exact h.frames f (List.mem_cons_of_mem _ hf)
  · have hcov := h.covered x hx hn hi
    unfold Covered at hcov ⊢
    split at hcov
    · rename_i hd
      rw [if_pos (by exact hd)]
      rcases hcov with hl | hr | ⟨f, hf, hfx⟩
      · exact .inl hl
      · rcases Reaches.list hs hd hi hr with rfl | hr
        · exact .inr (.inr ⟨_, List.mem_cons_self, rfl⟩)
        · exact .inr (.inl hr)
      · rcases List.mem_cons.mp hf with rfl | hf
        · exact hfx.elim
        · exact .inr (.inr ⟨f, List.mem_cons_of_mem _ hf, hfx⟩)
    · rename_i hd
      rw [if_neg (by exact hd)]
      rcases hcov with (hout | ht | ⟨k, hk, he⟩ | hq) | hr | ⟨f, hf, hfx⟩
      · exact .inl (.inl hout)
      · exact .inl (.inr (.inl ht))
      · cases hk
        exact .inl (.inr (.inr (.inl ⟨_, rfl, he⟩)))
      · exact .inl (.inr (.inr (.inr hq)))
      · have hseg : x.segs ≠ [] := fun e => hd (by rw [e]; exact Fs.isDir_root _)
        obtain ⟨n, hx'⟩ := AbsPath.exists_push hseg
        have hp : w.inst.fs.isDir x.parent.segs = true := by
          rw [hx'] at hn
          exact Fs.isDir_parent hn
        rcases Reaches.list hs hp (isIgnored_of_le x.parent_le hi) hr with e | hr
        · -- a file in the directory that is listed is in the listing
          have hmem : n ∈ filenames := by
            refine ((Fs.scandir_eq_some hs).2.2 n).mpr ?_
            rw [hx', e] at hn hd
            exact ⟨hn, by simpa using hd⟩
          refine .inr (.inr ⟨_, List.mem_cons_self, n, hmem, ?_⟩)
          rw [AbsPath.parse_toStr, ← e]
          exact hx'
        · exact .inr (.inl hr)
      · rcases List.mem_cons.mp hf with rfl | hf
        · exact hfx.elim
        · exact .inr (.inr ⟨f, List.mem_cons_of_mem _ hf, hfx⟩)

/-- What the loop body does with a directory. -/
theorem visit_toStr (ign : List Str) (root : Str) (w : World) (syn : List FsEvent) (d : AbsPath)
    (filenames : List Name) : visit ign root (w, syn) (d.toStr, filenames) =
    if World.isIgnored ign d.trim.toStr = true then (w, syn)
    else (w.addWatch d.trim.toStr, syn ++ synthetic root d.toStr d.trim.toStr filenames) := by
  rw [visit, AbsPath.normalizePath_toStr]

/-- The loop body only adds: to the watches and to the synthetic events. -/
theorem visit_spec (ign : List Str) (root : Str) (syn : List FsEvent) (filenames : List Name)
    (hs : Sound w) (htidy : Tidy top w) (hd : d.dbl = top.dbl) :
    let r := visit ign root (w, syn) (d.toStr, filenames)
    Sound r.1 ∧ Tidy top r.1 ∧ r.1.inst.fs = w.inst.fs ∧ r.1.inst.queue = w.inst.queue ∧
      (∀ p, Live w p → Live r.1 p) ∧ ∀ e ∈ syn, e ∈ r.2 := by
  dsimp only
  rw [visit_toStr]
  split
  · exact ⟨hs, htidy, rfl, rfl, fun _ h => h, fun _ h => h⟩
  · exact ⟨hs.addWatch _, htidy.addWatch hs.full (by rw [AbsPath.dbl_trim, hd]), fs_addWatch _ _,
      (addWatch_fields hs.full _).1, fun _ h => h.addWatch hs.full _,
      fun _ h => List.mem_append_left _ h⟩

/-- The loop body: the directory is attached and the files that were listed are to be yielded. -/
theorem Race.attach (h : Race ign top
    ⟨w, todo, .events ⟨root, .toAttach d.toStr dirnames filenames :: rest, syn⟩, out⟩) :
    let r := visit ign root (w, syn) (d.toStr, filenames)
    Race ign top ⟨r.1, todo, .events ⟨root,
      dirnames.map (fun n => .toList (join d.toStr n.val)) ++ rest, r.2⟩, out⟩ := by
  obtain ⟨a, ha, hdbl⟩ :=
    h.frames (.toAttach d.toStr dirnames filenames) (by simp [Gen.frames, walk?])
  obtain rfl := AbsPath.toStr_injective ha
  obtain ⟨hs, htidy, hfs, hqueue, hlive, hsyn⟩ :=
    visit_spec ign root syn filenames h.sound h.tidy hdbl
  have hvisit := visit_toStr ign root w syn d filenames
  dsimp only
  generalize visit ign root (w, syn) (d.toStr, filenames) = r at hs htidy hfs hqueue hlive hsyn hvisit
  have hreach : ∀ b, Reaches
      ⟨w, todo, .events ⟨root, .toAttach d.toStr dirnames filenames :: rest, syn⟩, out⟩ b →
        Reaches ⟨r.1, todo, .events ⟨root,
          dirnames.map (fun n => .toList (join d.toStr n.val)) ++ rest, r.2⟩, out⟩ b := by
    rintro b (⟨f, hf, hfb⟩ | ht | ⟨e, he, hq⟩)
    · rcases List.mem_cons.mp hf with rfl | hf
      · obtain ⟨n, hn, hle⟩ := hfb
        rw [AbsPath.parse_toStr] at hle
        refine .inl ⟨.toList (join d.toStr n.val), List.mem_append_left _ (List.mem_map_of_mem hn), ?_⟩
        rwa [Frame.Reaches, AbsPath.join_toStr, AbsPath.parse_toStr]
      · exact .inl ⟨f, List.mem_append_right _ hf, hfb⟩
    · exact .inr (.inl ht)
    · exact .inr (.inr ⟨e, by rwa [hqueue], hq⟩)
  refine ⟨hs, htidy, by rw [hfs]; exact h.dir, by rw [hfs]; exact h.clean,
    by rw [hqueue]; exact h.queue, h.todo, fun _ _ e => (by cases e), fun f hf => ?_,
    fun x hx hn hi => ?_⟩
  · rcases List.mem_append.mp hf with hf | hf
    · obtain ⟨n, -, rfl⟩ := List.mem_map.mp hf
      exact ⟨d.push n, AbsPath.join_toStr d n, hdbl⟩
    · exact h.frames f (List.mem_cons_of_mem _ hf)
  · rw [hfs] at hn
    have hcov := h.covered x hx hn hi
    unfold Covered at hcov ⊢
    rw [hfs]
    split at hcov
    · rename_i hd
      rw [if_pos (by exact hd)]
      rcases hcov with hl | hr | ⟨f, hf, hfx⟩
      · exact .inl (hlive _ hl)
      · exact .inr (.inl (hreach x hr))
      · rcases List.mem_cons.mp hf with rfl | hf
        · -- `x` is the directory that is attached now
          obtain rfl := AbsPath.toStr_injective hfx
          have hclean : d.trim = d := h.clean d hx hn hi
          rw [hclean, if_neg (by rw [hi]; exact Bool.false_ne_true)] at hvisit
          refine .inl (htidy.live d hx ?_)
          rw [hvisit]
          exact mem_addWatch h.sound.full hn
        · exact .inr (.inr ⟨f, List.mem_append_right _ hf, hfx⟩)
    · rename_i hd
      rw [if_neg (by exact hd)]
      rcases hcov with (hout | ht | ⟨k, hk, e, he, hex⟩ | ⟨e, he, hq⟩) | hr | ⟨f, hf, hfx⟩
      · exact .inl (.inl hout)
      · exact .inl (.inr (.inl ht))
      · cases hk
        exact .inl (.inr (.inr (.inl ⟨_, rfl, e, hsyn e he, hex⟩)))
      · exact .inl (.inr (.inr (.inr ⟨e, by rwa [hqueue], hq⟩)))
      · exact .inr (.inl (hreach x.parent hr))
      · rcases List.mem_cons.mp hf with rfl | hf
        · -- `x` is a file of the directory that is attached now
          obtain ⟨n, hnf, hx'⟩ := hfx
          rw [AbsPath.parse_toStr] at hx'
          have htop : top ≤ d := (AbsPath.le_push_iff.mp (hx' ▸ hx)).resolve_right fun e => by
            rw [← hx'] at e
            exact hd (e ▸ h.dir)
          have hid : World.isIgnored ign d.toStr = false :=
            isIgnored_of_le (hx' ▸ AbsPath.le_push d n) hi
          have hclean : d.trim = d := h.clean d htop
            (Fs.node_ne_none_of_isDir (Fs.isDir_parent (n := n) (by rw [hx'] at hn; exact hn))) hid
          rw [hclean, if_neg (by rw [hid]; exact Bool.false_ne_true)] at hvisit
          refine .inl (.inr (.inr (.inl ⟨_, rfl, ⟨x.toStr, .created, false⟩, ?_, rfl⟩)))
          rw [hvisit]
          refine List.mem_append_right _ (List.mem_append_right _ (List.mem_map.mpr ⟨n, hnf, ?_⟩))
          rw [AbsPath.join_toStr, ← hx', (h.clean x hx hn hi).normalizePath]
        · exact .inr (.inr ⟨f, List.mem_append_right _ hf, hfx⟩)

end WalkSteps

/-- The call in progress goes on. -/
theorem Race.sync (h : Race ign top g) : Race ign top (g.sync ign) := by
  obtain ⟨w, todo, busy, out⟩ := g
  cases busy with
  | idle => exact h
  | roots k left => exact absurd rfl (h.events k left)
  | events k =>
      obtain ⟨root, stack, syn⟩ := k
      cases stack with
      | nil =>
          have hsettle : ∀ (t : List World.Task) (b : Busy),
              Gen.settle ⟨w, t, b, out⟩ = Gen.settle ⟨w, t, .idle, out⟩ := fun t b => by
            rcases t with _ | ⟨_ | _, t⟩ <;> rfl
          rw [Gen.sync]
          dsimp only
          rw [if_pos rfl, hsettle]
          exact h.finish.settle
      | cons f rest =>
          obtain ⟨d, hd, -⟩ := h.frames f (by simp [Gen.frames, walk?])
          rw [Gen.sync]
          dsimp only
          rw [if_neg (List.cons_ne_nil _ _)]
          cases f with
          | toList p =>
              obtain rfl : p = d.toStr := hd
              simp only [Walk.step, AbsPath.parse_toStr]
              cases hs : w.inst.fs.scandir d.segs with
              | none =>
                  refine h.list_none (Bool.eq_false_iff.mpr fun hdir => ?_)
                  obtain ⟨_, _, hs'⟩ := Fs.scandir_of_isDir hdir
                  rw [hs] at hs'
                  cases hs'
              | some listed => exact h.list_some hs
          | toAttach p dirnames filenames =>
              obtain rfl : p = d.toStr := hd
              exact h.attach

/-! ### An entry is created -/

theorem Reaches.mono {a b : AbsPath} (h : g.Reaches a) (hab : a ≤ b) : g.Reaches b := by
  rcases h with ⟨f, hf, hfa⟩ | ⟨t, ht, hta⟩ | ⟨e, he, q, hq, hcr, hle⟩
  · refine .inl ⟨f, hf, ?_⟩
    cases f with
    | toList p => exact hfa.trans hab
    | toAttach p dirnames filenames =>
        obtain ⟨n, hn, hle⟩ := hfa
        exact ⟨n, hn, hle.trans hab⟩
  · refine .inr (.inl ⟨t, ht, ?_⟩)
    cases t with
    | walk root => exact hta.trans hab
    | yieldEvent e => exact hta.elim
  · exact .inr (.inr ⟨e, he, q, hq, hcr, hle.trans hab⟩)

/-- **A creation in a directory that is watched, or that a walk still has to list**, is seen. -/
theorem Race.create {l : Loc} {n : Name} {b : Bool} (h : Race ign top g)
    (hc : g.world.inst.fs.canCreate l n) (hcare : NoGap ign top g (.op (.create l n b))) :
    Race ign top { g with world := g.world.apply (.create l n b) } := by
  have hnode : ∀ m, (g.world.inst.fs.create l n b).node m =
      if m = l ++ [n] then some ⟨g.world.inst.fs.nextIno, b⟩ else g.world.inst.fs.node m := fun m => by
    rw [Fs.node_create hc, Function.update_apply]
  have hisDir : ∀ m, m ≠ l ++ [n] →
      (g.world.inst.fs.create l n b).isDir m = g.world.inst.fs.isDir m := fun m hm => by
    rw [Fs.isDir, hnode, if_neg hm, Fs.isDir]
  have htopne : top.segs ≠ l ++ [n] := fun e => by
    have := Fs.node_ne_none_of_isDir h.dir
    rw [e] at this
    exact this hc.2
  -- the new entry, when it is in the subtree, is an entry of a directory of the subtree
  have hnew : ∀ x : AbsPath, top ≤ x → x.segs = l ++ [n] →
      x = (⟨top.dbl, l⟩ : AbsPath).push n ∧ top ≤ ⟨top.dbl, l⟩ := by
    intro x hx hseg
    have hx' : x = (⟨top.dbl, l⟩ : AbsPath).push n := AbsPath.eq_of_segs hx.1.symm hseg
    refine ⟨hx', (AbsPath.le_push_iff.mp (hx' ▸ hx)).resolve_right fun e => htopne ?_⟩
    rw [e]
    rfl
  have hqueue : ∀ e, e ∈ (g.world.apply (.create l n b)).inst.queue ↔
      e ∈ g.world.inst.queue ∨ e ∈ g.world.inst.note l n (Inotify.create ||| dirBit b) :=
    fun e => List.mem_append
  have hreach : ∀ a, g.Reaches a →
      Reaches { g with world := g.world.apply (.create l n b) } a := by
    rintro a (hf | ht | ⟨e, he, hea⟩)
    · exact .inl hf
    · exact .inr (.inl ht)
    · exact .inr (.inr ⟨e, (hqueue e).mpr (.inl he), hea⟩)
  refine ⟨h.sound.apply _, h.tidy.create hc, ?_, fun x hx hn hi => ?_, fun e he => ?_, h.todo,
    h.events, h.frames, fun x hx hn hi => ?_⟩
  · show (g.world.inst.fs.create l n b).isDir top.segs = true
    rw [hisDir _ htopne]
    exact h.dir
  · by_cases hseg : x.segs = l ++ [n]
    · obtain ⟨rfl, htop⟩ := hnew x hx hseg
      exact AbsPath.clean_push_iff.mpr (hcare htop hi).1
    · refine h.clean x hx ?_ hi
      rwa [inst_apply, Inst.fs_create, hnode, if_neg hseg] at hn
  · rcases (hqueue e).mp he with he | he
    · exact h.queue e he
    · rw [Inst.note] at he
      split at he
      · rename_i wd hwd
        rw [List.mem_singleton.mp he]
        exact ⟨_, b, rfl, h.tidy.spelled l wd hwd⟩
      · cases he
  · by_cases hseg : x.segs = l ++ [n]
    · obtain ⟨rfl, htop⟩ := hnew x hx hseg
      have hclean := hcare htop hi
      have hi' : World.isIgnored ign (⟨top.dbl, l⟩ : AbsPath).toStr = false :=
        isIgnored_of_le (AbsPath.le_push _ n) hi
      -- its directory is watched, or is to be listed
      have hdir : g.world.inst.wdAt l ≠ none ∨ g.Reaches ⟨top.dbl, l⟩ := by
        have hcov := h.covered ⟨top.dbl, l⟩ htop (Fs.node_ne_none_of_isDir hc.1) hi'
        unfold Covered at hcov
        rw [if_pos (by exact hc.1)] at hcov
        rcases hcov with hl | hr | ha
        · obtain ⟨wd, -, hwd⟩ := live_toStr.mp hl
          exact .inl (by rw [hwd]; exact Option.some_ne_none wd)
        · exact .inr hr
        · exact hclean.2 ha
      have hb : (g.world.apply (.create l n b)).inst.fs.isDir
          ((⟨top.dbl, l⟩ : AbsPath).push n).segs = b := by
        show (g.world.inst.fs.create l n b).isDir (l ++ [n]) = b
        rw [Fs.isDir, hnode, if_pos rfl]
        rfl
      have htrim : ((⟨top.dbl, l⟩ : AbsPath).push n).trim = (⟨top.dbl, l⟩ : AbsPath).push n :=
        AbsPath.clean_push_iff.mpr hclean.1
      unfold Covered
      dsimp only
      rw [hb]
      rcases hdir with hw | hr
      · obtain ⟨wd, hwd⟩ := Option.ne_none_iff_exists'.mp hw
        have hnote : creation ((⟨top.dbl, l⟩ : AbsPath).push n) b ∈
            (g.world.apply (.create l n b)).inst.queue := by
          refine (hqueue _).mpr (.inr ?_)
          rw [Inst.note, hwd]
          dsimp only
          rw [(h.tidy.label _ htop wd hwd).2]
          exact List.mem_singleton.mpr rfl
        cases b with
        | true =>
            rw [if_pos rfl]
            exact .inr (.inl (.inr (.inr ⟨_, hnote, _, rfl, rfl, htrim.le⟩)))
        | false =>
            rw [if_neg Bool.false_ne_true]
            exact .inl (.inr (.inr (.inr ⟨_, hnote, _, rfl, rfl, htrim⟩)))
      · cases b with
        | true =>
            rw [if_pos rfl]
            exact .inr (.inl (hreach _ (hr.mono (AbsPath.le_push _ n))))
        | false =>
            rw [if_neg Bool.false_ne_true]
            refine .inr (.inl (hreach _ ?_))
            rwa [AbsPath.parent_push]
    · have hn' : g.world.inst.fs.node x.segs ≠ none := by
        rwa [inst_apply, Inst.fs_create, hnode, if_neg hseg] at hn
      have hcov := h.covered x hx hn' hi
      unfold Covered at hcov ⊢
      rw [inst_apply, Inst.fs_create, hisDir _ hseg]
      split at hcov
      · rename_i hd
        rw [if_pos (by exact hd)]
        rcases hcov with hl | hr | ha
        · exact .inl (hl.create hc)
        · exact .inr (.inl (hreach x hr))
        · exact .inr (.inr ha)
      · rename_i hd
        rw [if_neg (by exact hd)]
        rcases hcov with (hout | ht | hk | ⟨e, he, hq⟩) | hr | hf
        · exact .inl (.inl hout)
        · exact .inl (.inr (.inl ht))
        · exact .inl (.inr (.inr (.inl hk)))
        · exact .inl (.inr (.inr (.inr ⟨e, (hqueue e).mpr (.inl he), hq⟩)))
        · exact .inr (.inl (hreach x.parent hr))
        · exact .inr (.inr hf)

end Steps

/-! ### The whole race -/

/-- The walk of `top`, a directory that has just appeared, is about to start: what is recorded or
watched at or under it is so under its own path, only creations are queued, and no name at or
under it ends in white space. -/
structure Appeared (ign : List Str) (top : AbsPath) (g : Gen) : Prop where
  sound : Sound g.world
  tidy : Tidy top g.world
  dir : g.world.inst.fs.isDir top.segs = true
  clean : ∀ x, top ≤ x → g.world.inst.fs.node x.segs ≠ none →
    World.isIgnored ign x.toStr = false → x.Clean
  queue : ∀ e ∈ g.world.inst.queue, ∃ a d, e = creation a d ∧ a.dbl = top.dbl
  todo : g.todo = []
  walk : g.busy = .events (.start top.toStr)

/-- At the start everything at or under `top` is still to be listed. -/
theorem Appeared.race (h : Appeared ign top g) : Race ign top g := by
  have hframes : g.frames = [.toList top.toStr] := by rw [Gen.frames, walk?, h.walk]; rfl
  have hreach : ∀ a, top ≤ a → g.Reaches a := fun a ha =>
    .inl ⟨.toList top.toStr, by rw [hframes]; simp, by rwa [Frame.Reaches, AbsPath.parse_toStr]⟩
  refine ⟨h.sound, h.tidy, h.dir, h.clean, h.queue, fun root hr => ?_, fun k left e => ?_,
    fun f hf => ?_, fun x hx hn _ => ?_⟩
  · rw [h.todo] at hr; cases hr
  · rw [h.walk] at e; cases e
  · rw [hframes, List.mem_singleton] at hf
    exact ⟨top, by rw [hf]; rfl, rfl⟩
  · unfold Covered
    split
    · exact .inr (.inl (hreach x hx))
    · rename_i hd
      have hseg : x.segs ≠ [] := fun e => hd (by rw [e]; exact Fs.isDir_root _)
      obtain ⟨n, hx'⟩ := AbsPath.exists_push hseg
      refine .inr (.inl (hreach x.parent ((AbsPath.le_push_iff.mp (hx' ▸ hx)).resolve_right ?_)))
      intro e
      exact hd (by rw [hx', ← e]; exact h.dir)

/-- **A step without a gap keeps the invariant.** -/
theorem Race.next (h : Race ign top g) {act : Act} (hen : (system ign).enabled g act)
    (hcare : NoGap ign top g act) : Race ign top ((system ign).next g act) := by
  cases act with
  | op op =>
      cases op with
      | create l n b => exact h.create hen hcare
      | remove l n => exact hcare.elim
      | rename l n l' n' => exact hcare.elim
  | lose kept => exact hcare.elim
  | setRoots R => exact hcare.elim
  | read => exact h.read hen.1 hen.2.1
  | resume =>
      obtain ⟨w, todo, busy, out⟩ := g
      obtain ⟨hidle, -⟩ := hen
      cases hidle
      exact h.settle
  | sync => exact h.sync

/-- **The attach race is closed** for creations outside the gap: once the walk has ended and the
queue is empty, every directory at or under `top` has a live watch and every file has been
yielded, none of their names being ignored. -/
theorem attach_race_closed {g₀ : Gen} {l : List Act} (h₀ : Appeared ign top g₀)
    (h : Lts.Run (system ign) (NoGap ign top) g₀ l g) (hidle : g.busy = .idle)
    (htodo : g.todo = []) (hq : g.world.inst.queue = []) :
    ∀ x : AbsPath, top ≤ x → World.isIgnored ign x.toStr = false →
      (g.world.inst.fs.isDir x.segs = true → Live g.world x.toStr) ∧
        (g.world.inst.fs.node x.segs ≠ none → g.world.inst.fs.isDir x.segs = false →
          ∃ e ∈ g.out, e.path = x.toStr) := by
  have hrace : Race ign top g := h.invariant h₀.race fun _ _ hr hen hc => hr.next hen hc
  have hframes : g.frames = [] := by rw [Gen.frames, walk?, hidle]
  have hreach : ∀ a, ¬ g.Reaches a := by
    rintro a (⟨f, hf, -⟩ | ⟨t, ht, -⟩ | ⟨e, he, -⟩)
    · rw [hframes] at hf; cases hf
    · rw [htodo] at ht; cases ht
    · rw [hq] at he; cases he
  intro x hx hi
  refine ⟨fun hd => ?_, fun hn hd => ?_⟩
  · have hcov := hrace.covered x hx (Fs.node_ne_none_of_isDir hd) hi
    unfold Covered at hcov
    rw [if_pos hd] at hcov
    rcases hcov with hl | hr | ⟨f, hf, -⟩
    · exact hl
    · exact absurd hr (hreach x)
    · rw [hframes] at hf; cases hf
  · have hcov := hrace.covered x hx hn hi
    unfold Covered at hcov
    rw [if_neg (by rw [hd]; exact Bool.false_ne_true)] at hcov
    rcases hcov with (hout | ⟨t, ht, -⟩ | ⟨k, hk, -⟩ | ⟨e, he, -⟩) | hr | ⟨f, hf, -⟩
    · exact hout
    · rw [htodo] at ht; cases ht
    · rw [walk?, hidle] at hk; cases hk
    · rw [hq] at he; cases he
    · exact absurd hr (hreach _)
    · rw [hframes] at hf; cases hf

/-! ### A creation after the watch is attached, and one before -/

/-- The walk of `/a` on a new backend is about to start. -/
def beforeWalk : Gen := ⟨.fresh shelf, [], .events (.start (str "/a")), []⟩

theorem appeared_beforeWalk : Appeared [] ⟨false, [.lit "a"]⟩ beforeWalk where
  sound := sound_fresh shelf
  tidy := ⟨fun d _ hd => absurd hd (AList.notMem_empty _),
    fun d _ wd hwd => absurd hwd (by rw [show beforeWalk.world.inst.wdAt d.segs = none by
      rw [Inst.wdAt]; exact Option.bind_eq_none_iff.mpr fun _ _ => rfl]; exact fun h => by cases h),
    fun l wd hwd => absurd hwd (by rw [show beforeWalk.world.inst.wdAt l = none by
      rw [Inst.wdAt]; exact Option.bind_eq_none_iff.mpr fun _ _ => rfl]; exact fun h => by cases h)⟩
  dir := by decide
  clean x hx hn _ := by
    -- only `/a` exists at or under `/a`
    have hseg : x.segs ∈ beforeWalk.world.inst.fs.dom := beforeWalk.world.inst.fs.mem_dom hn
    have hdom : beforeWalk.world.inst.fs.dom = [[.lit "a"], []] := by decide
    rw [hdom] at hseg
    obtain ⟨d, segs⟩ := x
    rcases List.mem_cons.mp hseg with rfl | hseg
    · cases d <;> decide
    · rw [List.mem_singleton] at hseg
      exact congrArg (AbsPath.mk d) hseg ▸ by cases d <;> decide
  queue e he := by cases he
  todo := rfl
  walk := by decide

/-- A directory and a file are created once `/a` is attached. -/
def seen : List Act :=
  [.sync, .sync, .op (.create [.lit "a"] (.lit "b") true), .op (.create [.lit "a"] (.lit "f") false),
    .sync, .read, .resume, .sync, .sync, .sync, .read]

theorem attach_race_closed_seen :
    Live (seen.foldl (system []).next beforeWalk).world
        (⟨false, [.lit "a", .lit "b"]⟩ : AbsPath).toStr ∧
      ∃ e ∈ (seen.foldl (system []).next beforeWalk).out,
        e.path = (⟨false, [.lit "a", .lit "f"]⟩ : AbsPath).toStr := by
  have h := attach_race_closed appeared_beforeWalk (Lts.run_of_exec (l := seen) (by decide))
    (by decide) (by decide) (by decide)
  exact ⟨(h ⟨false, [.lit "a", .lit "b"]⟩ (by decide) (by decide)).1 (by decide),
    (h ⟨false, [.lit "a", .lit "f"]⟩ (by decide) (by decide)).2 (by decide) (by decide)⟩

/-- `/a/x` appears; its walk lists it; a directory and a file are created in it; the walk attaches
it and ends. -/
def lost : List Act :=
  .setRoots [str "/a"] :: List.replicate 5 .sync ++
    [.op (.create [.lit "a"] (.lit "x") true), .read, .resume, .sync,
      .op (.create [.lit "a", .lit "x"] (.lit "d") true),
      .op (.create [.lit "a", .lit "x"] (.lit "f") false), .sync, .sync]

/-- The directory is not watched and the file is never yielded. -/
theorem attach_race_loses :
    Lts.Run (system []) Lts.free (fresh shelf) lost (lost.foldl (system []).next (fresh shelf)) ∧
      (lost.foldl (system []).next (fresh shelf)).busy = .idle ∧
      (lost.foldl (system []).next (fresh shelf)).todo = [] ∧
      (lost.foldl (system []).next (fresh shelf)).world.inst.queue = [] ∧
      (lost.foldl (system []).next (fresh shelf)).world.inst.fs.isDir
        [.lit "a", .lit "x", .lit "d"] = true ∧
      (lost.foldl (system []).next (fresh shelf)).world.inst.fs.node
        [.lit "a", .lit "x", .lit "f"] ≠ none ∧
      (lost.foldl (system []).next (fresh shelf)).world.inst.wdAt
        [.lit "a", .lit "x", .lit "d"] = none ∧
      ∀ e ∈ (lost.foldl (system []).next (fresh shelf)).out, e.path ≠ str "/a/x/f" :=
  ⟨Lts.run_of_exec (by decide), by decide, by decide, by decide, by decide, by decide, by decide,
    by decide⟩

end Gen

end MediaScanMonitor
