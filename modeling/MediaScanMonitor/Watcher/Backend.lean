import MediaScanMonitor.Library.Inotify
import MediaScanMonitor.Normalize
import MediaScanMonitor.Pipeline.Events
import Mathlib.Data.List.Sort
import Mathlib.Data.List.Lex

/-!
# Watcher — `InotifyBackend`

`watcher/inotify_backend.py`, function by function, over the inotify library.  A `World` is the
backend's `_watches` and `_roots` next to the inotify instance they talk to.

`os.walk` is `osWalk`: it lists a directory, hands the listing to the loop body and descends into
the subdirectories the body leaves in `dirnames`.  The body's pruning does not depend on what it
did before, so `osWalk` prunes while it descends and `visit` is the rest of the body.

`events()` is a generator.  Reading an event runs up to the first `yield` (`decode`); what is left
of the turn is a list of `Task`s, one resumption each: a value to yield, or a tree to walk, whose
synthetic events are yielded next.  `runTasks` goes through them, and `handle` is a whole turn,
without interruption.
-/

namespace MediaScanMonitor
open Py Posix Inotify

/-! ### Masks -/

def IN_MOVED_FROM : Nat := 0x00000040
def IN_MOVED_TO : Nat := 0x00000080
def IN_CREATE : Nat := 0x00000100
def IN_DELETE : Nat := 0x00000200
def IN_Q_OVERFLOW : Nat := 0x00004000
def IN_ISDIR : Nat := 0x40000000

/-- `mask_to_event_type`. -/
def maskToEventType (mask : Nat) : Option FsEventType :=
  if mask &&& IN_CREATE ≠ 0 then some .created
  else if mask &&& IN_MOVED_TO ≠ 0 then some .movedTo
  else if mask &&& IN_DELETE ≠ 0 then some .deleted
  else if mask &&& IN_MOVED_FROM ≠ 0 then some .movedFrom
  else none

/-- `mask_is_dir`. -/
def maskIsDir (mask : Nat) : Bool := mask &&& IN_ISDIR ≠ 0

/-! ### Watch bookkeeping -/

/-- The backend's fields, and the inotify instance with its filesystem. -/
structure World where
  inst : Inst
  watches : AList fun _ : Str => Nat
  roots : List Str

namespace World

/-- A new backend. -/
def fresh (fs : Fs) : World := ⟨.fresh fs, ∅, []⟩

/-- `_is_ignored`. -/
def isIgnored (ignoreDirs : List Str) (path : Str) : Bool :=
  (path.splitOn slash).any fun segment => segment ∈ ignoreDirs

/-- `_add_watch`; a failing `add_watch` is logged and skipped. -/
def addWatch (w : World) (path : Str) : World :=
  if path ∈ w.watches then w
  else
    match w.inst.addWatch (parse path) with
    | (inst, some wd) => { w with inst := inst, watches := w.watches.insert path wd }
    | (inst, none) => { w with inst := inst }

/-- The body of `_remove_watch_tree`'s loop; `rm_watch` on a dead watch fails silently. -/
def popWatch (w : World) (path : Str) : World :=
  match w.watches.lookup path with
  | some wd => { w with inst := w.inst.rmWatch wd, watches := w.watches.erase path }
  | none => w

/-- The paths `_remove_watch_tree` takes to be at or below `root`. -/
def inTree (root path : Str) : Bool := path = root || startswith path (root ++ [slash])

/-- `_remove_watch_tree`. -/
def removeWatchTree (w : World) (root : Str) : World :=
  (w.watches.keys.filter (inTree root)).foldl popWatch w

/-- `os.walk(top)` with the ignored subdirectories pruned: each directory with its files.
`fuel` bounds the depth of the descent. -/
def osWalk (ignoreDirs : List Str) (fs : Fs) : Nat → Str → List (Str × List Name)
  | 0, _ => []
  | fuel + 1, top =>
    match fs.scandir (parse top).segs with
    | none => []
    | some (dirnames, filenames) =>
      (top, filenames) ::
        (dirnames.filter fun name => name.val ∉ ignoreDirs).flatMap fun name =>
          osWalk ignoreDirs fs fuel (join top name.val)

/-- What one directory adds to the synthetic events of a walk of `root`. -/
def synthetic (root dirpath normDir : Str) (filenames : List Name) : List FsEvent :=
  (if normDir ≠ root then [⟨normDir, .created, true⟩] else []) ++
    filenames.map fun name => ⟨normalizePath (join dirpath name.val), .created, false⟩

/-- The loop body of `_walk_add_watches`, after the pruning. -/
def visit (ignoreDirs : List Str) (root : Str) (acc : World × List FsEvent)
    (entry : Str × List Name) : World × List FsEvent :=
  let normDir := normalizePath entry.1
  if isIgnored ignoreDirs normDir then acc
  else (acc.1.addWatch normDir, acc.2 ++ synthetic root entry.1 normDir entry.2)

/-- `_walk_add_watches`. -/
def walkAddWatches (ignoreDirs : List Str) (w : World) (root : Str) : World × List FsEvent :=
  (osWalk ignoreDirs w.inst.fs w.inst.fs.height root).foldl (visit ignoreDirs root) (w, [])

/-- The body of `set_roots`' second loop. -/
def addRoot (ignoreDirs : List Str) (w : World) (added : Str) : World :=
  if w.inst.fs.isDir (parse added).segs && !isIgnored ignoreDirs added then
    (w.walkAddWatches ignoreDirs added).1
  else w

/-- The roots `set_roots` drops. -/
def goneRoots (old new : List Str) : List Str := old.filter fun r => r ∉ new

/-- The roots `set_roots` adds. -/
def addedRoots (old new : List Str) : List Str := new.filter fun r => r ∉ old

/-- `set_roots`. -/
def setRoots (ignoreDirs : List Str) (w : World) (roots : List Str) : World :=
  let newRoots := (roots.map normalizePath).dedup
  let w' := (goneRoots w.roots newRoots).foldl removeWatchTree w
  let w'' := (addedRoots w.roots newRoots).foldl (addRoot ignoreDirs) w'
  { w'' with roots := newRoots }

/-! ### The event generator -/

/-- One resumption of `events()` within the turn of an event. -/
inductive Task where
  | yieldEvent (event : FsEvent)
  | walk (root : Str)
  deriving DecidableEq

/-- A turn of `events()` up to its first `yield`, and what is left of the turn. -/
def decode (ignoreDirs : List Str) (w : World) (event : Raw) : World × List Task :=
  if event.mask &&& IN_Q_OVERFLOW ≠ 0 then
    (w, (w.roots.insertionSort (· ≤ ·)).map .walk)
  else
    match event.path with
    | none => (w, [])
    | some pathObj =>
      let path := normalizePath pathObj.toStr
      if isIgnored ignoreDirs path then (w, [])
      else
        match maskToEventType event.mask with
        | none => (w, [])
        | some eventType =>
          let isDir := maskIsDir event.mask
          if isDir && (eventType = .created || eventType = .movedTo) then
            (w, [.yieldEvent ⟨path, eventType, true⟩, .walk path])
          else if isDir && (eventType = .deleted || eventType = .movedFrom) then
            (w.removeWatchTree path, [.yieldEvent ⟨path, eventType, true⟩])
          else (w, [.yieldEvent ⟨path, eventType, isDir⟩])

/-- The tasks of a turn, run without interruption: the world after them and what they yield. -/
def runTasks (ignoreDirs : List Str) (w : World) : List Task → World × List FsEvent
  | [] => (w, [])
  | .yieldEvent event :: tasks =>
    let r := runTasks ignoreDirs w tasks
    (r.1, event :: r.2)
  | .walk root :: tasks =>
    let r := w.walkAddWatches ignoreDirs root
    let r' := runTasks ignoreDirs r.1 tasks
    (r'.1, r.2 ++ r'.2)

/-- A whole turn of `events()`: the world after it and the events it yields. -/
def handle (ignoreDirs : List Str) (w : World) (event : Raw) : World × List FsEvent :=
  let r := w.decode ignoreDirs event
  runTasks ignoreDirs r.1 r.2

end World

end MediaScanMonitor
