import MediaScanMonitor.Config.Build
import MediaScanMonitor.Engine.Steps

/-!
# Engine — the service around it

The engine with what `Engine` leaves out: the database it reads, the config writes that call
`rebuild_engine`, the adapters it builds, and the deliveries they make.  A label of `step` is

* a config write that commits (`commit`), and the `rebuild_engine` it then calls (`call`);
* a read of `build_runtime_config`, by `start` or by a rebuild (`listServers`, `listFolders`);
* an HTTP request of a delivery in progress (`attempt`);
* a step of the engine (`engine`).

Every step of the service is a step of the engine or leaves the engine alone (`Step`).  `rows`,
`origins` and `todoOrigins` say from which row of the database things come, and `skipped`,
`retired` and `broken` keep a ledger; no step of the code reads them.
-/

namespace MediaScanMonitor
open Py
open Debouncer (OfLoop)

/-- `create_adapter(server, client)`. -/
structure Adapter where
  server : ServerRuntime
  client : Nat
  /-- The row the server was read from. -/
  row : Option Nat
  deriving DecidableEq

/-- A task that builds the runtime: `start`, or the rebuild of a number. -/
abbrev Task := Option Nat

/-- Its local variables: what `build_runtime_config` has read, and the adapters built. -/
structure Locals where
  reading : Option Reading
  adapters : AList fun _ : Int => Adapter

structure Service where
  engine : Engine
  store : Store
  /-- The committed writes that have still to call `rebuild_engine`. -/
  calls : Nat
  locals : Task → Locals
  /-- `_adapters` of the dispatcher. -/
  adapters : AList fun _ : Int => Adapter
  /-- The rows the servers of the installed configuration were read from. -/
  rows : AList fun _ : Int => Nat
  /-- The servers `create_adapter` raised for, by the read of the configuration. -/
  skipped : List (Nat × Int)
  /-- The row each job of the debouncer was routed for. -/
  origins : List (Option Nat)
  /-- The rows of what `_handle_event` still has to submit. -/
  todoOrigins : List (Option Nat)
  /-- The triggers started so far: the job and the adapter. -/
  deliveries : List (Nat × Adapter)
  /-- The clients closed by rebuilds. -/
  retired : List Nat
  /-- The deliveries that made a request on a client a rebuild had closed. -/
  broken : List Nat

namespace Service

/-- `Engine(repo, watcher=…)` on a database. -/
def init (store : Store) (watcher : Option Watching) : Service where
  engine := .init watcher
  store := store
  calls := 0
  locals _ := ⟨none, ∅⟩
  adapters := ∅
  rows := ∅
  skipped := []
  origins := []
  todoOrigins := []
  deliveries := []
  retired := []
  broken := []

/-! ### Reading the configuration -/

/-- The task is in `build_runtime_config`. -/
def reads (s : Service) : Task → Bool
  | none =>
    match s.engine.start with
    | .reading _ => true
    | _ => false
  | some k => s.engine.rebuilds[k]? = some .reading

def setLocals (s : Service) (task : Task) (locals : Locals) : Service :=
  { s with locals := Function.update s.locals task locals }

def setReading (s : Service) (task : Task) (r : Reading) : Service :=
  s.setLocals task { s.locals task with reading := some r }

/-- `build_runtime_config` returns the configuration to the task. -/
def HasRead (s : Service) (task : Task) (config : RuntimeConfig) : Prop :=
  ∃ r ∈ (s.locals task).reading, r.todo = [] ∧ r.done.config = config

instance (s : Service) (task : Task) (config : RuntimeConfig) :
    Decidable (s.HasRead task config) :=
  inferInstanceAs (Decidable (∃ r ∈ (s.locals task).reading, _))

/-- The rows the servers of the task's configuration were read from. -/
def rowsOf (s : Service) (task : Task) : AList fun _ : Int => Nat :=
  ((s.locals task).reading.map fun r => r.done.rows.toAList).getD ∅

/-! ### Adapters -/

/-- The adapter the task builds for a server of its configuration. -/
def adapterFor (s : Service) (task : Task) (sn : Snapshot) (serverId : Int) : Option Adapter :=
  (sn.config.servers.lookup serverId).map fun server =>
    ⟨server, s.engine.created, (s.rowsOf task).lookup serverId⟩

/-- An iteration of `_build_adapters`, where `create_adapter` returns (`ok`) or raises. -/
def build (s : Service) (task : Task) (sn : Snapshot) (b : Build) (ok : Bool) : Service :=
  match b.todo with
  | [] => s
  | serverId :: _ =>
    match ok, s.adapterFor task sn serverId with
    | true, some adapter =>
      s.setLocals task
        { s.locals task with adapters := (s.locals task).adapters.insert serverId adapter }
    | _, _ => { s with skipped := (sn.read, serverId) :: s.skipped }

/-- `set_adapters`. -/
def install (s : Service) (task : Task) : Service :=
  { s with adapters := (s.locals task).adapters, rows := s.rowsOf task }

/-- The triggers a step of the debouncer from `d` to `d'` starts. -/
def triggered (s : Service) (d d' : Debouncer) : List (Nat × Adapter) :=
  (d.started d').filterMap fun e =>
    match d'.jobs[e.1]? with
    | some job => (s.adapters.lookup job.req.serverId).map fun adapter => (e.1, adapter)
    | none => none

/-- The trigger is in progress. -/
def InFlight (s : Service) (delivery : Nat × Adapter) : Prop :=
  ∃ d ∈ s.engine.debouncer, d.At delivery.1 fun job => job.phase = .dispatching

instance (s : Service) (delivery : Nat × Adapter) : Decidable (s.InFlight delivery) :=
  inferInstanceAs (Decidable (∃ d ∈ s.engine.debouncer, _))

/-! ### The steps -/

inductive Act where
  | commit (write : Write)
  | call
  | listServers (task : Task)
  | listFolders (task : Task)
  | attempt (n : Nat)
  | engine (act : Engine.Act)

/-- A configuration the engine goes on with is the one that was read. -/
def Admits (s : Service) : Engine.Act → Prop
  | .startRead (some config) => s.HasRead none config
  | .rebuildRead k (some config) => s.HasRead (some k) config
  | _ => True

instance (s : Service) : ∀ act, Decidable (s.Admits act)
  | .startRead (some config) => inferInstanceAs (Decidable (s.HasRead none config))
  | .rebuildRead k (some config) => inferInstanceAs (Decidable (s.HasRead (some k) config))
  | .start _ | .startRead none | .startBuild _ | .startBuilt | .startPolicy _ | .startLimit _
  | .rebuild | .acquire _ | .rebuildRead _ none | .rebuildBuild _ _ | .rebuildBuilt _
  | .rebuildPolicy _ _ | .rebuildLimit _ _ | .rebuildClose _ | .read _ | .yield | .submit
  | .loop _ | .aclose | .closeTimers | .closeClient => .isTrue trivial

/-- What a step of the engine to `e` does around it. -/
def after (s : Service) (act : Engine.Act) (e : Engine) : Service :=
  match act with
  | .startRead (some _) => { s with engine := e, rows := s.rowsOf none }
  | .startBuild ok =>
    match s.engine.start with
    | .building _ sn b => { s.build none sn b ok with engine := e }
    | _ => { s with engine := e }
  | .startBuilt => { s.install none with engine := e }
  | .rebuildBuild k ok =>
    match s.engine.rebuilds[k]? with
    | some (.building sn b) =>
      { s.build (some k) sn b ok with
        engine := e
        retired := if ok then s.retired else s.engine.created :: s.retired }
    | _ => { s with engine := e }
  | .rebuildBuilt k =>
    match s.engine.rebuilds[k]? with
    | some (.building sn _) =>
      -- with nothing to watch the gate is passed, and the swap made, in the same step
      if sn.config.watchPaths = [] then { s.install (some k) with engine := e }
      else { s with engine := e }
    | _ => { s with engine := e }
  | .rebuildLimit k (some _) => { s.install (some k) with engine := e }
  | .rebuildClose k =>
    match s.engine.rebuilds[k]? with
    | some (.closing (client :: _)) => { s with engine := e, retired := client :: s.retired }
    | _ => { s with engine := e }
  | .yield =>
    { s with
      engine := e
      todoOrigins := e.todo.map fun req => s.rows.lookup req.serverId }
  | .submit =>
    match s.engine.debouncer, e.debouncer with
    | some d, some d' =>
      { s with
        engine := e
        origins := s.origins ++ [s.todoOrigins.head?.join]
        todoOrigins := s.todoOrigins.tail
        deliveries := s.deliveries ++ s.triggered d d' }
    | _, _ => { s with engine := e }
  | .loop _ =>
    match s.engine.debouncer, e.debouncer with
    | some d, some d' =>
      { s with engine := e, deliveries := s.deliveries ++ s.triggered d d' }
    | _, _ => { s with engine := e }
  | _ => { s with engine := e }

/-- What one task does from one `await` to the next. -/
def step (lower : Str → Str) (box : SecretBox) (s : Service) : Act → Option Service
  | .commit write =>
    match write.run lower box s.store with
    | .ok store => some { s with store := store, calls := s.calls + 1 }
    | .error _ => none
  | .call =>
    if s.calls = 0 then none
    else (s.engine.step lower .rebuild).map fun e => { s with engine := e, calls := s.calls - 1 }
  | .listServers task =>
    if s.reads task ∧ (s.locals task).reading.isNone then
      some (s.setReading task (.start s.store))
    else none
  | .listFolders task =>
    match (s.locals task).reading with
    | some r => if s.reads task then (r.next lower box s.store).map (s.setReading task) else none
    | none => none
  | .attempt n =>
    match s.deliveries[n]? with
    | some delivery =>
      if s.InFlight delivery then
        some { s with
          broken := if delivery.2.client ∈ s.retired then n :: s.broken else s.broken }
      else none
    | none => none
  | .engine act => if s.Admits act then (s.engine.step lower act).map (s.after act) else none

/-- The service: the event loop, the worker threads and the config writes. -/
def system (lower : Str → Str) (box : SecretBox) : Lts.System Service Act where
  enabled s act := (s.step lower box act).isSome = true
  next s act := (s.step lower box act).getD s

instance (lower : Str → Str) (box : SecretBox) (s : Service) (act : Act) :
    Decidable ((system lower box).enabled s act) :=
  inferInstanceAs (Decidable (_ = true))

/-! ### What a step can be -/

variable {lower : Str → Str} {box : SecretBox} {s s' : Service} {act : Act}

/-- The outcomes of a step. -/
inductive Step (lower : Str → Str) (box : SecretBox) (s : Service) : Act → Service → Prop where
  | commit {write : Write} {store : Store} (h : write.run lower box s.store = .ok store) :
      Step lower box s (.commit write) { s with store := store, calls := s.calls + 1 }
  | call (hc : s.calls ≠ 0) (hen : (Engine.system lower).enabled s.engine .rebuild) :
      Step lower box s .call
        { s with
          engine := (Engine.system lower).next s.engine .rebuild
          calls := s.calls - 1 }
  | listServers {task : Task} (h : s.reads task = true) (hr : (s.locals task).reading = none) :
      Step lower box s (.listServers task) (s.setReading task (.start s.store))
  | listFolders {task : Task} {r r' : Reading} (h : s.reads task = true)
      (hr : (s.locals task).reading = some r) (hn : r.next lower box s.store = some r') :
      Step lower box s (.listFolders task) (s.setReading task r')
  | attempt {n : Nat} {delivery : Nat × Adapter} (h : s.deliveries[n]? = some delivery)
      (hf : s.InFlight delivery) :
      Step lower box s (.attempt n)
        { s with broken := if delivery.2.client ∈ s.retired then n :: s.broken else s.broken }
  | engine {act : Engine.Act} (hadm : s.Admits act)
      (hen : (Engine.system lower).enabled s.engine act) :
      Step lower box s (.engine act)
        (s.after act ((Engine.system lower).next s.engine act))

/-- What an enabled step can be. -/
theorem step_cases (h : (system lower box).enabled s act) :
    Step lower box s act ((system lower box).next s act) := by
  obtain ⟨s', hs'⟩ := Option.isSome_iff_exists.mp h
  have hnext : (system lower box).next s act = s' := by
    show (s.step lower box act).getD s = s'
    rw [hs', Option.getD_some]
  rw [hnext]
  clear h hnext
  cases act with
  | commit write =>
      simp only [step] at hs'
      split at hs' <;> cases hs'
      exact .commit ‹_›
  | call =>
      simp only [step] at hs'
      split at hs' <;> try cases hs'
      obtain ⟨e, he, rfl⟩ := Option.map_eq_some_iff.mp hs'
      obtain ⟨hen, rfl⟩ := Engine.enabled_of_step he
      exact .call ‹_› hen
  | listServers task =>
      simp only [step] at hs'
      split at hs' <;> cases hs'
      rename_i hg
      exact .listServers hg.1 (Option.isNone_iff_eq_none.mp hg.2)
  | listFolders task =>
      simp only [step] at hs'
      split at hs' <;> try cases hs'
      split at hs' <;> try cases hs'
      obtain ⟨r', hr', rfl⟩ := Option.map_eq_some_iff.mp hs'
      exact .listFolders ‹_› ‹_› hr'
  | attempt n =>
      simp only [step] at hs'
      split at hs' <;> try cases hs'
      split at hs' <;> cases hs'
      exact .attempt ‹_› ‹_›
  | engine act =>
      simp only [step] at hs'
      split at hs' <;> try cases hs'
      obtain ⟨e, he, rfl⟩ := Option.map_eq_some_iff.mp hs'
      obtain ⟨hen, rfl⟩ := Engine.enabled_of_step he
      exact .engine ‹_› hen

/-- A step of the engine is one of the service, where what it was to read is what was read. -/
theorem engine_enabled {act : Engine.Act} (hadm : s.Admits act)
    (hen : (Engine.system lower).enabled s.engine act) :
    (system lower box).enabled s (.engine act) ∧ (system lower box).next s (.engine act) =
      s.after act ((Engine.system lower).next s.engine act) := by
  have h : s.step lower box (.engine act) =
      some (s.after act ((Engine.system lower).next s.engine act)) := by
    rw [step, if_pos hadm, Engine.step_eq hen, Option.map_some]
  constructor
  · show (s.step lower box (.engine act)).isSome = true
    rw [h]
    rfl
  · show (s.step lower box (.engine act)).getD s = _
    rw [h]
    rfl

/-- Around the engine nothing changes the engine. -/
theorem engine_after (s : Service) (act : Engine.Act) (e : Engine) :
    (s.after act e).engine = e := by
  unfold after
  repeat' split
  all_goals rfl

/-- **The service refines the engine**: its steps are steps of the engine, or none. -/
theorem engine_next (h : Step lower box s act s') :
    s'.engine = s.engine ∨ ∃ act', (Engine.system lower).enabled s.engine act' ∧
      s'.engine = (Engine.system lower).next s.engine act' := by
  cases h with
  | commit h => exact .inl rfl
  | call hc hen => exact .inr ⟨_, hen, rfl⟩
  | listServers h hr => exact .inl rfl
  | listFolders h hr hn => exact .inl rfl
  | attempt h hf => exact .inl rfl
  | engine hadm hen => exact .inr ⟨_, hen, engine_after _ _ _⟩

/-- What the steps of the engine keep is kept by the steps of the service. -/
theorem engine_invariant {P : Engine → Prop} {G : Service → Act → Prop} {s₀ : Service}
    {l : List Act} (h : Lts.Run (system lower box) G s₀ l s) (h₀ : P s₀.engine)
    (hstep : ∀ e act, P e → (Engine.system lower).enabled e act →
      P ((Engine.system lower).next e act)) : P s.engine :=
  h.invariant (P := fun s => P s.engine) h₀ fun s act hs hen _ => by
    rcases engine_next (step_cases hen) with e | ⟨act', hen', e⟩
    · rw [e]
      exact hs
    · rw [e]
      exact hstep _ _ hs hen'

end Service

end MediaScanMonitor
