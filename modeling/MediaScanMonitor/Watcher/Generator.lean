import MediaScanMonitor.Watcher.History

/-!
# Watcher — the generator, step by step

`events()` and `set_roots` run on one thread, but other processes do not wait for them: the tree
may change between any two system calls of a walk, and while `events()` is suspended at a `yield`
or at its read, `set_roots` may be called.

* A walk in progress is a stack of `Frame`s.  `os.walk` lists a directory, the loop body attaches
  the watch and collects the synthetic events, and the walk descends into what was listed
  (`Walk.step`).
* `Gen` is the backend with its generator: the rest of the turn (`todo`), the call in progress
  (`busy`), and what `events()` has yielded (`out`).  `settle` runs the generator on to its next
  suspension, or to the next walk.
* `set_roots` is the removals (and the new `_roots`, which nothing reads before the call returns)
  in one step, then the walks of the added roots.

`turn_run` is the refinement: a turn that nothing interrupts is `turn`, in its watches and in what
it yields.
-/

namespace MediaScanMonitor
open Py Posix Inotify

/-! ### A walk -/

/-- A directory `os.walk` is to list, or has listed and handed to the loop body. -/
inductive Frame where
  | toList (dirpath : Str)
  | toAttach (dirpath : Str) (dirnames filenames : List Name)
  deriving DecidableEq

def Frame.path : Frame → Str
  | .toList dirpath | .toAttach dirpath _ _ => dirpath

/-- A `_walk_add_watches` in progress. -/
structure Walk where
  root : Str
  stack : List Frame
  synthetic : List FsEvent
  deriving DecidableEq

namespace Walk

def start (root : Str) : Walk := ⟨root, [.toList root], []⟩

/-- The directory that is listed next. -/
def listing (k : Walk) : Option Str :=
  match k.stack with
  | .toList dirpath :: _ => some dirpath
  | _ => none

/-- One step of a walk: a listing, or the loop body and the descent. -/
def step (ign : List Str) (w : World) (k : Walk) : World × Walk :=
  match k.stack with
  | [] => (w, k)
  | .toList dirpath :: rest =>
    match w.inst.fs.scandir (parse dirpath).segs with
    | none => (w, { k with stack := rest })
    | some (dirnames, filenames) =>
      (w, { k with
        stack := .toAttach dirpath (dirnames.filter fun n => n.val ∉ ign) filenames :: rest })
  | .toAttach dirpath dirnames filenames :: rest =>
    let r := World.visit ign k.root (w, k.synthetic) (dirpath, filenames)
    (r.1, { k with
      stack := dirnames.map (fun n => .toList (join dirpath n.val)) ++ rest
      synthetic := r.2 })

end Walk

/-! ### The generator -/

/-- The synchronous call in progress: none, a walk of `events()`, or `set_roots` with the roots
it has left to add. -/
inductive Busy where
  | idle
  | events (walk : Walk)
  | roots (walk : Option Walk) (left : List Str)
  deriving DecidableEq

/-- The backend with its generator. -/
structure Gen where
  world : World
  todo : List World.Task
  busy : Busy
  out : List FsEvent

namespace Gen

/-- The walk in progress. -/
def walk? (g : Gen) : Option Walk :=
  match g.busy with
  | .events walk => some walk
  | .roots walk _ => walk
  | .idle => none

/-- A new backend, its generator at the first read. -/
def fresh (fs : Fs) : Gen := ⟨.fresh fs, [], .idle, []⟩

/-- The generator runs on to its next `yield` or read, or starts the next walk. -/
def settle (g : Gen) : Gen :=
  match g.todo with
  | [] => { g with busy := .idle }
  | .yieldEvent event :: todo => { g with todo := todo, busy := .idle, out := g.out ++ [event] }
  | .walk root :: todo => { g with todo := todo, busy := .events (.start root) }

/-- The generator reads the oldest queued event. -/
def read (ign : List Str) (g : Gen) : Gen :=
  match g.world.inst.queue with
  | [] => g
  | e :: _ =>
    let r := g.world.dequeue.decode ign e
    settle { g with world := r.1, todo := r.2 }

/-- `set_roots` up to its first walk. -/
def setRoots (g : Gen) (roots : List Str) : Gen :=
  let newRoots := (roots.map normalizePath).dedup
  { g with
    world := { (World.goneRoots g.world.roots newRoots).foldl World.removeWatchTree g.world with
      roots := newRoots }
    busy := .roots none (World.addedRoots g.world.roots newRoots) }

/-- The call in progress goes on by one step. -/
def sync (ign : List Str) (g : Gen) : Gen :=
  match g.busy with
  | .idle => g
  | .events walk =>
    if walk.stack = [] then settle { g with todo := walk.synthetic.map .yieldEvent ++ g.todo }
    else
      let r := walk.step ign g.world
      { g with world := r.1, busy := .events r.2 }
  | .roots none [] => { g with busy := .idle }
  | .roots none (added :: left) =>
    if g.world.inst.fs.isDir (parse added).segs && !World.isIgnored ign added then
      { g with busy := .roots (some (.start added)) left }
    else { g with busy := .roots none left }
  | .roots (some walk) left =>
    if walk.stack = [] then { g with busy := .roots none left }
    else
      let r := walk.step ign g.world
      { g with world := r.1, busy := .roots (some r.2) left }

inductive Act where
  | op (op : Inst.Op)
  | lose (kept : List Raw)
  | setRoots (roots : List Str)
  | read
  | resume
  | sync

/-- The steps of the backend and of the world around it. -/
def system (ign : List Str) : Lts.System Gen Act where
  enabled g
    | .op op => g.world.inst.enabled op
    | .lose kept => kept.Sublist g.world.inst.queue
    | .setRoots roots => g.busy = .idle ∧ ∀ r ∈ roots, isabs r = true
    | .read => g.busy = .idle ∧ g.todo = [] ∧ g.world.inst.queue ≠ []
    | .resume => g.busy = .idle ∧ g.todo ≠ []
    | .sync => g.busy ≠ .idle
  next g
    | .op op => { g with world := g.world.apply op }
    | .lose kept => { g with world := g.world.lose kept }
    | .setRoots roots => g.setRoots roots
    | .read => g.read ign
    | .resume => g.settle
    | .sync => g.sync ign

instance (ign : List Str) (g : Gen) : ∀ act, Decidable ((system ign).enabled g act)
  | .op op => inferInstanceAs (Decidable (g.world.inst.enabled op))
  | .lose kept => inferInstanceAs (Decidable (kept.Sublist g.world.inst.queue))
  | .setRoots roots => inferInstanceAs (Decidable (g.busy = .idle ∧ ∀ r ∈ roots, isabs r = true))
  | .read =>
    inferInstanceAs (Decidable (g.busy = .idle ∧ g.todo = [] ∧ g.world.inst.queue ≠ []))
  | .resume => inferInstanceAs (Decidable (g.busy = .idle ∧ g.todo ≠ []))
  | .sync => inferInstanceAs (Decidable (g.busy ≠ .idle))

end Gen

/-! ### A walk nothing interrupts -/

namespace Walk
variable {w : World} {ign : List Str} {root : Str} {rest : List Frame} {syn : List FsEvent}

/-- The walk goes on while it has something left to do. -/
def Steps (ign : List Str) : World × Walk → World × Walk → Prop :=
  Relation.ReflTransGen fun s s' => s.2.stack ≠ [] ∧ s' = step ign s.1 s.2

theorem fs_foldl_visit (es : List (Str × List Name)) (acc : World × List FsEvent) :
    (es.foldl (World.visit ign root) acc).1.inst.fs = acc.1.inst.fs := by
  induction es generalizing acc with
  | nil => rfl
  | cons e es ih =>
      rw [List.foldl_cons, ih, World.visit]
      split
      · rfl
      · exact World.fs_addWatch _ _

/-- Listing a directory and everything below it is what `os.walk` and the loop body do. -/
theorem steps_osWalk : ∀ (fuel : Nat) (a : AbsPath) (w : World) (syn : List FsEvent)
    (rest : List Frame), w.inst.fs.height ≤ a.segs.length + fuel →
      let r := (World.osWalk ign w.inst.fs fuel a.toStr).foldl (World.visit ign root) (w, syn)
      Steps ign (w, ⟨root, .toList a.toStr :: rest, syn⟩) (r.1, ⟨root, rest, r.2⟩)
  | fuel, a, w, syn, rest, hfuel => by
      cases hs : w.inst.fs.scandir a.segs with
      | none =>
          have hwalk : World.osWalk ign w.inst.fs fuel a.toStr = [] := by
            cases fuel with
            | zero => rfl
            | succ fuel => rw [World.osWalk, AbsPath.parse_toStr, hs]
          rw [hwalk]
          refine .single ⟨by simp, ?_⟩
          simp only [step, AbsPath.parse_toStr, hs, List.foldl_nil]
      | some p =>
          obtain ⟨dirnames, filenames⟩ := p
          cases fuel with
          | zero =>
              have hd := (Fs.scandir_eq_some hs).1
              have := Fs.length_lt_height (Fs.node_ne_none_of_isDir hd)
              omega
          | succ fuel =>
              -- the descent into the listed directories, one after another
              have hdown : ∀ (ns : List Name) (w' : World) (syn' : List FsEvent),
                  w'.inst.fs = w.inst.fs →
                  let r := (ns.flatMap fun n =>
                    World.osWalk ign w.inst.fs fuel (join a.toStr n.val)).foldl
                      (World.visit ign root) (w', syn')
                  Steps ign
                    (w', ⟨root, ns.map (fun n => .toList (join a.toStr n.val)) ++ rest, syn'⟩)
                    (r.1, ⟨root, rest, r.2⟩) := by
                intro ns
                induction ns with
                | nil => exact fun _ _ _ => .refl
                | cons n ns ih =>
                    intro w' syn' hfs
                    have h₁ := steps_osWalk fuel (a.push n) w' syn'
                      (ns.map (fun n => .toList (join a.toStr n.val)) ++ rest)
                      (by rw [hfs, AbsPath.segs_push, List.length_append, List.length_singleton]
                          omega)
                    have h₂ := ih
                      ((World.osWalk ign w.inst.fs fuel (a.push n).toStr).foldl
                        (World.visit ign root) (w', syn')).1
                      ((World.osWalk ign w.inst.fs fuel (a.push n).toStr).foldl
                        (World.visit ign root) (w', syn')).2
                      ((fs_foldl_visit _ _).trans hfs)
                    rw [hfs] at h₁
                    rw [List.flatMap_cons, List.foldl_append, AbsPath.join_toStr]
                    simp only [List.map_cons, List.cons_append, AbsPath.join_toStr] at h₁ h₂ ⊢
                    exact h₁.trans h₂
              have hbody := hdown (dirnames.filter fun n => n.val ∉ ign)
                (World.visit ign root (w, syn) (a.toStr, filenames)).1
                (World.visit ign root (w, syn) (a.toStr, filenames)).2
                (fs_foldl_visit [(a.toStr, filenames)] (w, syn))
              rw [World.osWalk, AbsPath.parse_toStr, hs]
              refine .head ⟨by simp, rfl⟩ (.head ⟨?_, rfl⟩ ?_)
              · simp [step, AbsPath.parse_toStr, hs]
              · simp only [step, AbsPath.parse_toStr, hs]
                exact hbody

/-- **A walk that nothing interrupts** is `_walk_add_watches`. -/
theorem steps_walkAddWatches (ign : List Str) (a : AbsPath) (w : World) :
    Steps ign (w, start a.toStr) ((w.walkAddWatches ign a.toStr).1,
      ⟨a.toStr, [], (w.walkAddWatches ign a.toStr).2⟩) :=
  steps_osWalk _ a w [] [] (Nat.le_add_left _ _)

end Walk

namespace Gen
variable {ign : List Str} {g : Gen}

/-- The labels of the backend's own steps. -/
def Act.own : Act → Prop
  | .read | .resume | .sync => True
  | _ => False

/-- A run of the backend's own steps. -/
def OwnRun (ign : List Str) (g g' : Gen) : Prop :=
  ∃ l, (∀ act ∈ l, act.own) ∧ Lts.Run (system ign) Lts.free g l g'

theorem OwnRun.refl (g : Gen) : OwnRun ign g g := ⟨[], by simp, .nil⟩

theorem OwnRun.trans {g₁ g₂ g₃ : Gen} (h₁ : OwnRun ign g₁ g₂) (h₂ : OwnRun ign g₂ g₃) :
    OwnRun ign g₁ g₃ := by
  obtain ⟨l₁, hl₁, h₁⟩ := h₁
  obtain ⟨l₂, hl₂, h₂⟩ := h₂
  exact ⟨l₁ ++ l₂, fun act h => (List.mem_append.mp h).elim (hl₁ act) (hl₂ act), h₁.trans h₂⟩

theorem OwnRun.one (ign : List Str) (act : Act) (hown : act.own) (hen : (system ign).enabled g act) :
    OwnRun ign g ((system ign).next g act) :=
  ⟨[act], by simpa using hown, .one hen trivial⟩

/-- A walk of `events()` that nothing interrupts, in the system. -/
theorem ownRun_of_steps {s s' : World × Walk} (h : Walk.Steps ign s s') (todo : List World.Task)
    (out : List FsEvent) :
    OwnRun ign ⟨s.1, todo, .events s.2, out⟩ ⟨s'.1, todo, .events s'.2, out⟩ := by
  induction h with
  | refl => exact .refl _
  | @tail b c _ hbc ih =>
      obtain ⟨hne, rfl⟩ := hbc
      have hsync := OwnRun.one (g := ⟨b.1, todo, .events b.2, out⟩) ign .sync
        trivial (by simp [system])
      simp only [system, sync, if_neg hne] at hsync
      exact ih.trans hsync

theorem ownRun_settle (w : World) (todo : List World.Task) (out : List FsEvent) :
    OwnRun ign ⟨w, todo, .idle, out⟩ (settle ⟨w, todo, .idle, out⟩) := by
  by_cases h : todo = []
  · subst h; exact .refl _
  · exact .one ign .resume trivial ⟨rfl, h⟩

/-- The synthetic events of a walk are yielded one resumption after another. -/
theorem ownRun_yields (ign : List Str) (w : World) (todo : List World.Task) : ∀ (es out : List FsEvent),
    OwnRun ign (settle ⟨w, es.map .yieldEvent ++ todo, .idle, out⟩)
      (settle ⟨w, todo, .idle, out ++ es⟩)
  | [], out => by simpa using OwnRun.refl _
  | e :: es, out => by
      have h := (ownRun_settle w (es.map .yieldEvent ++ todo) (out ++ [e])).trans
        (ownRun_yields ign w todo es (out ++ [e]))
      simpa [settle] using h

/-- The tasks of a turn, run to the end without interruption. -/
theorem ownRun_tasks (ign : List Str) : ∀ (tasks : List World.Task) (w : World) (out : List FsEvent),
    (∀ root, .walk root ∈ tasks → Spelled root) →
      OwnRun ign (settle ⟨w, tasks, .idle, out⟩)
        ⟨(World.runTasks ign w tasks).1, [], .idle, out ++ (World.runTasks ign w tasks).2⟩
  | [], w, out, _ => by simpa [settle, World.runTasks] using OwnRun.refl _
  | .yieldEvent e :: tasks, w, out, h => by
      have ih := ownRun_tasks ign tasks w (out ++ [e]) fun root hr => h root (by simp [hr])
      have h' := (ownRun_settle w tasks (out ++ [e])).trans ih
      simpa [settle, World.runTasks] using h'
  | .walk root :: tasks, w, out, h => by
      obtain ⟨a, rfl⟩ := h root (by simp)
      have hwalk := ownRun_of_steps (Walk.steps_walkAddWatches ign a w) tasks out
      have hend := OwnRun.one ign .sync
        (g := ⟨(w.walkAddWatches ign a.toStr).1, tasks,
          .events ⟨a.toStr, [], (w.walkAddWatches ign a.toStr).2⟩, out⟩) trivial (by simp [system])
      have hyield := ownRun_yields ign (w.walkAddWatches ign a.toStr).1 tasks
        (w.walkAddWatches ign a.toStr).2 out
      have ih := ownRun_tasks ign tasks (w.walkAddWatches ign a.toStr).1
        (out ++ (w.walkAddWatches ign a.toStr).2) fun root hr => h root (by simp [hr])
      rw [World.runTasks, ← List.append_assoc]
      exact hwalk.trans (hend.trans (hyield.trans ih))

/-- The walks a turn asks for are of spelled paths. -/
theorem spelled_of_walk_mem_decode {w : World} (hroots : ∀ r ∈ w.roots, Spelled r) {e : Raw}
    {root : Str} (h : .walk root ∈ (w.decode ign e).2) : Spelled root := by
  rw [World.decode] at h
  split at h
  · obtain ⟨r, hr, hrr⟩ := List.mem_map.mp h
    obtain rfl : r = root := by simpa using hrr
    exact hroots r ((List.mem_insertionSort _).mp hr)
  · cases hp : e.path with
    | none => rw [hp] at h; simp at h
    | some a =>
        rw [hp] at h
        dsimp only at h
        split at h
        · simp at h
        · split at h
          · simp at h
          · split at h
            · simp only [List.mem_cons, reduceCtorEq, World.Task.walk.injEq, List.not_mem_nil,
                or_false, false_or] at h
              exact ⟨a.trim, h.trans (AbsPath.normalizePath_toStr a)⟩
            · split at h <;> simp at h

/-- **A turn that nothing interrupts** is `turn`, in its watches and in what it yields. -/
theorem turn_run (hidle : g.busy = .idle) (htodo : g.todo = [])
    (hq : g.world.inst.queue ≠ []) (hroots : ∀ r ∈ g.world.roots, Spelled r) :
    OwnRun ign g ⟨(g.world.turn ign).1, [], .idle, g.out ++ (g.world.turn ign).2⟩ := by
  have hread := OwnRun.one ign .read trivial ⟨hidle, htodo, hq⟩
  obtain ⟨e, q, he⟩ := List.exists_cons_of_ne_nil hq
  have hnext : (system ign).next g .read =
      settle ⟨(g.world.dequeue.decode ign e).1, (g.world.dequeue.decode ign e).2, .idle, g.out⟩ := by
    rw [show (system ign).next g .read = g.read ign from rfl, read, he, hidle]
  have htasks := ownRun_tasks ign (g.world.dequeue.decode ign e).2
    (g.world.dequeue.decode ign e).1 g.out fun root hr =>
      spelled_of_walk_mem_decode (w := g.world.dequeue) hroots hr
  rw [hnext] at hread
  have hturn : g.world.turn ign = World.handle ign g.world.dequeue e := by rw [World.turn, he]
  rw [hturn, World.handle]
  exact hread.trans htasks

end Gen

end MediaScanMonitor
