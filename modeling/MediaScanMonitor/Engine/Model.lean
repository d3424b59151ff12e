import MediaScanMonitor.Pipeline.Coalesce

/-!
# Engine — `Engine`

`engine.py` on one event loop.  Each task of the engine is a phase: where it is suspended, with the
local variables it still needs.  A label of `step` is what one task does from one `await` to the
next, with what the awaited call returned (`none` where it raised):

* `start` (`StartPhase`): the configuration is read in a thread and published, the adapters are
  built, the pipeline is wired, the gate is asked, the roots are attached, events are consumed;
* `rebuild` (`RebuildPhase`), any number of them, one at a time under `_lock`;
* `aclose` (`ClosePhase`);
* the consume loop: `events()` reads an event (`read`) and yields what the turn has to yield
  (`yield`), and `_handle_event` submits the requests one after another (`submit`);
* the loop steps the tasks of the debouncer (`loop`).

The iterations of `_build_adapters` are steps of their own, though only a skipped adapter, whose
client is closed, suspends there.  `reads`, `verdicts`, `created`, `closed`, `triggers` and the
history of `set_roots` calls are a ledger that no step of the code reads.
-/

namespace MediaScanMonitor
open Py
open Debouncer (OfLoop Suspended)

inductive EngineState where
  | starting | running | blocked | stopped
  deriving DecidableEq

/-- What `check_watch_limit` measures. -/
structure WatchLimitStatus where
  current : Int
  dirs : Int
  needed : Int
  recommended : Int
  ok : Bool
  deriving DecidableEq

/-- A configuration, as one read of the database returned it. -/
structure Snapshot where
  read : Nat
  config : RuntimeConfig
  deriving DecidableEq

/-- `_build_adapters` in progress: the servers to go, and the clients so far by server. -/
structure Build where
  todo : List Int
  clients : List (Int × Nat)
  deriving DecidableEq

/-- The servers `_build_adapters` goes through. -/
def Build.of (config : RuntimeConfig) : Build := ⟨config.servers.keys, []⟩

/-- One iteration of `_build_adapters`, with the client of number `client`. -/
def Build.next (b : Build) (serverId : Int) (todo : List Int) (client : Nat) (ok : Bool) : Build :=
  ⟨todo, if ok then b.clients ++ [(serverId, client)] else b.clients⟩

/-- Where `start` is suspended. -/
inductive StartPhase where
  | idle
  | reading (park : Bool)
  | building (park : Bool) (sn : Snapshot) (b : Build)
  | policy (park : Bool) (sn : Snapshot)
  | limit (park : Bool) (sn : Snapshot) (policy : Option Str)
  | looping
  | finished
  deriving DecidableEq

/-- Where a `rebuild` is suspended. -/
inductive RebuildPhase where
  | waiting
  | reading
  | building (sn : Snapshot) (b : Build)
  | policy (sn : Snapshot) (clients : List (Int × Nat))
  | limit (sn : Snapshot) (clients : List (Int × Nat)) (policy : Option Str)
  | closing (old : List Nat)
  | finished
  deriving DecidableEq

/-- The rebuild holds `_lock`. -/
def RebuildPhase.holds : RebuildPhase → Bool
  | .waiting | .finished => false
  | .reading | .building _ _ | .policy _ _ | .limit _ _ _ | .closing _ => true

/-- Where `aclose` is suspended. -/
inductive ClosePhase where
  | idle
  | timers (tasks : List Nat)
  | clients (left : List Nat)
  | returned
  deriving DecidableEq

/-- The watcher, as far as the engine acts on it. -/
structure Watching where
  closed : Bool
  /-- The `set_roots` calls, the latest first. -/
  roots : List (List Str)
  deriving DecidableEq

/-- `set_roots`. -/
def Watching.setRoots (roots : List Str) (w : Watching) : Watching :=
  { w with roots := roots :: w.roots }

/-- `aclose` of the watcher. -/
def Watching.aclose (w : Watching) : Watching := { w with closed := true }

structure Engine where
  config : Option Snapshot
  watcher : Option Watching
  /-- The servers the dispatcher has an adapter for. -/
  adapters : Option (List Int)
  debouncer : Option Debouncer
  clients : List (Int × Nat)
  started : Bool
  state : EngineState
  watchLimit : Option WatchLimitStatus
  start : StartPhase
  /-- What `events()` still has to yield in its turn. -/
  turn : List FsEvent
  /-- What `_handle_event` still has to submit. -/
  todo : List ScanRequest
  rebuilds : List RebuildPhase
  closing : ClosePhase
  reads : Nat
  /-- The gate decisions, by the read of the configuration, the latest first. -/
  verdicts : List (Nat × Bool)
  created : Nat
  closed : List Nat
  triggers : List ScanRequest

namespace Engine

/-- `Engine(repo, watcher=…)`. -/
def init (watcher : Option Watching) : Engine where
  config := none
  watcher := watcher
  adapters := none
  debouncer := none
  clients := []
  started := false
  state := .stopped
  watchLimit := none
  start := .idle
  turn := []
  todo := []
  rebuilds := []
  closing := .idle
  reads := 0
  verdicts := []
  created := 0
  closed := []
  triggers := []

/-! ### The shared parts -/

/-- What `_gate_ok` returns for the policy and the limit it read. -/
def gateOk (policy : Option Str) (limit : WatchLimitStatus) : Bool :=
  let policy :=
    match policy with
    | none | some [] => str "enforce"
    | some policy => policy
  if policy = str "off" then true else limit.ok

/-- The roots for a configuration and its gate decision. -/
def rootsFor (sn : Snapshot) (gateOk : Bool) : List Str :=
  if gateOk then sn.config.watchPaths else []

/-- The state for a gate decision. -/
def stateFor (gateOk : Bool) : EngineState := if gateOk then .running else .blocked

/-- A client is created, and closed again where its adapter is skipped. -/
def createClient (s : Engine) (ok : Bool) : Engine :=
  { s with
    created := s.created + 1
    closed := if ok then s.closed else s.created :: s.closed }

/-- The configuration of a read: the snapshot is the one of number `reads`. -/
def snapshot (s : Engine) (config : RuntimeConfig) : Snapshot := ⟨s.reads, config⟩

/-! ### `start` -/

/-- `start` has read its configuration: it is published, and a watcher made where none is given. -/
def publish (s : Engine) (park : Bool) (config : RuntimeConfig) : Engine :=
  { s with
    config := some (s.snapshot config)
    watcher := some (s.watcher.getD ⟨false, []⟩)
    start := .building park (s.snapshot config) (.of config)
    reads := s.reads + 1 }

/-- `start` has its gate decision: the roots are attached, and the consume loop reached. -/
def attach (s : Engine) (park : Bool) (sn : Snapshot) (gateOk : Bool) : Engine :=
  let s := { s with verdicts := (sn.read, gateOk) :: s.verdicts }
  if !gateOk && !park then { s with state := .blocked, start := .finished }
  else
    { s with
      watcher := s.watcher.map (Watching.setRoots (rootsFor sn gateOk))
      state := stateFor gateOk
      start := .looping }

/-- `start` has its adapters: the pipeline is wired and the gate asked.  With nothing to watch
`_gate_ok` answers without a suspension. -/
def wire (s : Engine) (park : Bool) (sn : Snapshot) (clients : List (Int × Nat)) : Engine :=
  let s :=
    { s with
      clients := clients
      adapters := some (clients.map Prod.fst)
      debouncer := some (.init sn.config.servers) }
  if sn.config.watchPaths = [] then { s with watchLimit := none }.attach park sn true
  else { s with start := .policy park sn }

/-! ### `rebuild` -/

def setRebuild (s : Engine) (k : Nat) (phase : RebuildPhase) : Engine :=
  { s with rebuilds := s.rebuilds.set k phase }

/-- The swap, and the old clients left to close. -/
def swap (s : Engine) (k : Nat) (sn : Snapshot) (clients : List (Int × Nat)) (gateOk : Bool) :
    Engine :=
  { s with
    adapters := some (clients.map Prod.fst)
    debouncer := s.debouncer.map fun (d : Debouncer) => d.updateServers sn.config.servers
    config := some sn
    clients := clients
    watcher := s.watcher.map (Watching.setRoots (rootsFor sn gateOk))
    state := stateFor gateOk
    verdicts := (sn.read, gateOk) :: s.verdicts }.setRebuild k (.closing (s.clients.map Prod.snd))

/-- The rebuild has its adapters and asks the gate. -/
def rebuilt (s : Engine) (k : Nat) (sn : Snapshot) (clients : List (Int × Nat)) : Engine :=
  if sn.config.watchPaths = [] then { s with watchLimit := none }.swap k sn clients true
  else s.setRebuild k (.policy sn clients)

/-! ### Events -/

/-- The requests `_handle_event` makes of an event. -/
def requests (lower : Str → Str) (s : Engine) (event : FsEvent) : List ScanRequest :=
  match s.config, s.debouncer with
  | some sn, some _ => route lower event sn.config
  | _, _ => []

/-- A dispatch starts an adapter's trigger where the dispatcher has the adapter. -/
def triggered (s : Engine) (d d' : Debouncer) : List ScanRequest :=
  (d'.dispatches.drop d.dispatches.length).filterMap fun e =>
    match d'.jobs[e.1]? with
    | some job => if job.req.serverId ∈ s.adapters.getD [] then some job.req else none
    | none => none

/-- The debouncer takes a step from `d` to `d'`. -/
def setDebouncer (s : Engine) (d d' : Debouncer) : Engine :=
  { s with debouncer := some d', triggers := s.triggers ++ s.triggered d d' }

/-- `events()` and `_handle_event` are not in the middle of something. -/
def AtEvents (s : Engine) : Prop :=
  s.start = .looping ∧ s.todo = [] ∧ ∀ d ∈ s.debouncer, ¬ Suspended d

instance (s : Engine) : Decidable s.AtEvents :=
  inferInstanceAs (Decidable (_ ∧ _ ∧ _))

/-! ### The steps -/

inductive Act where
  | start (park : Bool)
  | startRead (config : Option RuntimeConfig)
  | startBuild (ok : Bool)
  | startBuilt
  | startPolicy (policy : Option (Option Str))
  | startLimit (limit : Option WatchLimitStatus)
  | rebuild
  | acquire (k : Nat)
  | rebuildRead (k : Nat) (config : Option RuntimeConfig)
  | rebuildBuild (k : Nat) (ok : Bool)
  | rebuildBuilt (k : Nat)
  | rebuildPolicy (k : Nat) (policy : Option (Option Str))
  | rebuildLimit (k : Nat) (limit : Option WatchLimitStatus)
  | rebuildClose (k : Nat)
  | read (events : List FsEvent)
  | yield
  | submit
  | loop (act : Debouncer.Act)
  | aclose
  | closeTimers
  | closeClient

/-- A step of `start`. -/
def stepStart (s : Engine) : Act → Option Engine
  | .start park =>
    -- a second call raises
    if s.started then some s
    else some { s with started := true, state := .starting, start := .reading park }
  | .startRead config =>
    match s.start, config with
    | .reading park, some config => some (s.publish park config)
    | .reading _, none => some { s with start := .finished }
    | _, _ => none
  | .startBuild ok =>
    match s.start with
    | .building park sn b =>
      match b.todo with
      | serverId :: todo =>
        some { s.createClient ok with
          start := .building park sn (b.next serverId todo s.created ok) }
      | [] => none
    | _ => none
  | .startBuilt =>
    match s.start with
    | .building park sn b =>
      match b.todo with
      | [] => some (s.wire park sn b.clients)
      | _ :: _ => none
    | _ => none
  | .startPolicy policy =>
    match s.start, policy with
    | .policy park sn, some policy => some { s with start := .limit park sn policy }
    | .policy _ _, none => some { s with start := .finished }
    | _, _ => none
  | .startLimit limit =>
    match s.start, limit with
    | .limit park sn policy, some limit =>
      some ({ s with watchLimit := some limit }.attach park sn (gateOk policy limit))
    | .limit _ _ _, none => some { s with start := .finished }
    | _, _ => none
  | _ => none

/-- A step of a rebuild. -/
def stepRebuild (s : Engine) : Act → Option Engine
  | .rebuild =>
    -- the call raises, and `rebuild_engine` logs it
    if !s.started || s.adapters.isNone || s.debouncer.isNone || s.watcher.isNone then some s
    else some { s with rebuilds := s.rebuilds ++ [.waiting] }
  | .acquire k =>
    match s.rebuilds[k]? with
    | some .waiting =>
      if s.rebuilds.any RebuildPhase.holds then none else some (s.setRebuild k .reading)
    | _ => none
  | .rebuildRead k config =>
    match s.rebuilds[k]?, config with
    | some .reading, some config =>
      some { s.setRebuild k (.building (s.snapshot config) (.of config)) with reads := s.reads + 1 }
    | some .reading, none => some (s.setRebuild k .finished)
    | _, _ => none
  | .rebuildBuild k ok =>
    match s.rebuilds[k]? with
    | some (.building sn b) =>
      match b.todo with
      | serverId :: todo =>
        some ((s.createClient ok).setRebuild k (.building sn (b.next serverId todo s.created ok)))
      | [] => none
    | _ => none
  | .rebuildBuilt k =>
    match s.rebuilds[k]? with
    | some (.building sn b) =>
      match b.todo with
      | [] => some (s.rebuilt k sn b.clients)
      | _ :: _ => none
    | _ => none
  | .rebuildPolicy k policy =>
    match s.rebuilds[k]?, policy with
    | some (.policy sn clients), some policy => some (s.setRebuild k (.limit sn clients policy))
    | some (.policy _ _), none => some (s.setRebuild k .finished)
    | _, _ => none
  | .rebuildLimit k limit =>
    match s.rebuilds[k]?, limit with
    | some (.limit sn clients policy), some limit =>
      some ({ s with watchLimit := some limit }.swap k sn clients (gateOk policy limit))
    | some (.limit _ _ _), none => some (s.setRebuild k .finished)
    | _, _ => none
  | .rebuildClose k =>
    match s.rebuilds[k]? with
    | some (.closing (client :: old)) =>
      some { s.setRebuild k (.closing old) with closed := client :: s.closed }
    | some (.closing []) => some (s.setRebuild k .finished)
    | _ => none
  | _ => none

/-- A step of the consume loop or of the debouncer's tasks. -/
def stepEvents (lower : Str → Str) (s : Engine) : Act → Option Engine
  | .read events =>
    -- whether a closed backend still hands out what it had queued is left open
    if s.AtEvents ∧ s.turn = [] then some { s with turn := events } else none
  | .yield =>
    match s.turn with
    | event :: turn =>
      if s.AtEvents then some { s with turn := turn, todo := s.requests lower event } else none
    | [] => none
  | .submit =>
    match s.debouncer, s.todo with
    | some d, req :: todo =>
      if Suspended d then none else some { s.setDebouncer d (d.submit req) with todo := todo }
    | _, _ => none
  | .loop act =>
    match s.debouncer with
    | some d =>
      if OfLoop act ∧ Debouncer.machine.enabled d act then
        some (s.setDebouncer d (Debouncer.machine.next d act))
      else none
    | none => none
  | _ => none

/-- A step of `aclose`. -/
def stepClose (s : Engine) : Act → Option Engine
  | .aclose =>
    match s.closing with
    | .idle =>
      let s := { s with watcher := s.watcher.map Watching.aclose }
      match s.debouncer with
      | some d =>
        some { s with
          debouncer := some d.aclose
          closing := .timers (d.timers.entries.map Sigma.snd) }
      | none => some { s with closing := .clients (s.clients.map Prod.snd) }
    | _ => none
  | .closeTimers =>
    match s.closing, s.debouncer with
    | .timers tasks, some d =>
      if ∀ task ∈ tasks, d.At task fun job => job.phase = .ended then
        some { s with closing := .clients (s.clients.map Prod.snd) }
      else none
    | _, _ => none
  | .closeClient =>
    match s.closing with
    | .clients (client :: left) =>
      some { s with closed := client :: s.closed, closing := .clients left }
    | .clients [] => some { s with clients := [], state := .stopped, closing := .returned }
    | _ => none
  | _ => none

/-- What one task does from one `await` to the next. -/
def step (lower : Str → Str) (s : Engine) (act : Act) : Option Engine :=
  match act with
  | .start _ | .startRead _ | .startBuild _ | .startBuilt | .startPolicy _ | .startLimit _ =>
    s.stepStart act
  | .rebuild | .acquire _ | .rebuildRead _ _ | .rebuildBuild _ _ | .rebuildBuilt _
  | .rebuildPolicy _ _ | .rebuildLimit _ _ | .rebuildClose _ => s.stepRebuild act
  | .read _ | .yield | .submit | .loop _ => s.stepEvents lower act
  | .aclose | .closeTimers | .closeClient => s.stepClose act

/-- The engine on its event loop. -/
def system (lower : Str → Str) : Lts.System Engine Act where
  enabled s act := (s.step lower act).isSome = true
  next s act := (s.step lower act).getD s

instance (lower : Str → Str) (s : Engine) (act : Act) : Decidable ((system lower).enabled s act) :=
  inferInstanceAs (Decidable (_ = true))

/-- A step that is enabled leads to what `step` gives. -/
theorem step_eq {lower : Str → Str} {s : Engine} {act : Act} (h : (system lower).enabled s act) :
    s.step lower act = some ((system lower).next s act) := by
  obtain ⟨s', hs'⟩ := Option.isSome_iff_exists.mp h
  show s.step lower act = some ((s.step lower act).getD s)
  rw [hs', Option.getD_some]

/-- A step that gives a state is enabled, and leads there. -/
theorem enabled_of_step {lower : Str → Str} {s s' : Engine} {act : Act}
    (h : s.step lower act = some s') :
    (system lower).enabled s act ∧ (system lower).next s act = s' := by
  constructor
  · show (s.step lower act).isSome = true
    rw [h]
    rfl
  · show (s.step lower act).getD s = s'
    rw [h]
    rfl

end Engine

end MediaScanMonitor
