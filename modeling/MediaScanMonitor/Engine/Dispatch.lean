import MediaScanMonitor.Engine.Converge
import MediaScanMonitor.Observ.EventsBus
import MediaScanMonitor.Servers.Adapters

/-!
# Engine — `_dispatch`

`Dispatcher.dispatch` calls the adapter of a request and keeps its exceptions from the debouncer;
`_dispatch` publishes what comes of it.  Only a cancellation gets through both.

* `truthful_dispatch`: the dispatcher reports what the last attempt came to.
* `dispatch_records`: `_dispatch` publishes one record, which says so.
* `Service.dispatcher_eq`: a request comes in where there is a dispatcher.
-/

namespace MediaScanMonitor
open Py

/-! ### `pipeline/dispatcher.py` -/

namespace Dispatcher

/-- `dispatch`. -/
def dispatch (py : Interpreter) (clients : Nat → Client) (adapters : AList fun _ : Int => Adapter)
    (req : ScanRequest) : Triggered :=
  match adapters.lookup req.serverId with
  | none =>
    ⟨none, .ok ⟨false, none, str "no adapter for server_id=" ++ formatInt req.serverId⟩⟩
  | some adapter =>
    let t := triggerAdapter py (clients adapter.client) adapter.server req
    match t.result with
    | .ok _ => t
    | .error exc =>
      -- `CancelledError` is no `Exception`.
      if exc.cls = .cancelledError then t
      else { t with result := .ok ⟨false, none, str "adapter raised: " ++ exc.repr⟩ }

/-- What the last attempt at the request came to, if one was made. -/
def lastOutcome (py : Interpreter) (clients : Nat → Client)
    (adapters : AList fun _ : Int => Adapter) (req : ScanRequest) : Option Outcome :=
  (adapters.lookup req.serverId).bind fun adapter =>
    (dispatch py clients adapters req).lastOutcome (clients adapter.client)

end Dispatcher

/-! ### `Engine._dispatch` -/

def ScanMode.value : ScanMode → Str
  | .targeted => str "targeted"
  | .library => str "library"

/-- The record of a request, at a time. -/
def eventRecord (ts : Str) (req : ScanRequest) (result : TriggerResult) : EventRecord where
  ts := ts
  serverId := req.serverId
  serverName := req.serverName
  scanMode := req.scanMode.value
  scanKey := req.scanKey
  scanPath := req.scanPath
  libraryId := req.libraryId
  eventType := req.eventType.value
  filePath := req.filePath
  ok := result.ok
  statusCode := result.statusCode
  detail := result.detail

/-- `asyncio.QueueFull()`. -/
def queueFullError : Raised := ⟨.otherException, str "QueueFull", [], str "QueueFull()"⟩

namespace Engine

/-- `_dispatch`, at a time: the bus after it. -/
def dispatch (py : Interpreter) (clients : Nat → Client) (now : Str)
    (dispatcher : Option (AList fun _ : Int => Adapter)) (bus : Option EventsBus)
    (req : ScanRequest) : Except Raised (Option EventsBus) :=
  match dispatcher with
  | none => .ok bus
  | some adapters =>
    match (Dispatcher.dispatch py clients adapters req).result, bus with
    | .error exc, _ => .error exc
    | .ok _, none => .ok none
    | .ok result, some bus =>
      match bus.publish (eventRecord now req result) with
      | .ok bus => .ok (some bus)
      | .error .queueFull => .error queueFullError

end Engine

/-! ### One record -/

variable {py : Interpreter} {clients : Nat → Client} {adapters : AList fun _ : Int => Adapter}
  {req : ScanRequest} {now : Str} {bus : EventsBus} {capacity : Nat}
  {l : List (Bus.Act EventRecord)}

/-- **The dispatcher** returns, and reports what the last attempt came to. -/
theorem truthful_dispatch (py : Interpreter) (adapters : AList fun _ : Int => Adapter)
    (req : ScanRequest)
    (hcancel : ∀ k request n exc,
      clients k request n = .raised exc → exc.cls ≠ .cancelledError) :
    ∃ result, (Dispatcher.dispatch py clients adapters req).result = .ok result ∧
      result.ok = (Dispatcher.lastOutcome py clients adapters req).any Outcome.isSuccess ∧
      result.statusCode =
        (Dispatcher.lastOutcome py clients adapters req).bind Outcome.statusCode := by
  rw [Dispatcher.lastOutcome, Dispatcher.dispatch]
  cases hlookup : adapters.lookup req.serverId with
  | none => exact ⟨_, rfl, rfl, rfl⟩
  | some adapter =>
      have htruth := truthful_trigger py (clients adapter.client) adapter.server req
      simp only [Option.bind_some]
      generalize triggerAdapter py (clients adapter.client) adapter.server req = t at htruth ⊢
      cases hresult : t.result with
      | ok result =>
          exact ⟨result, hresult, htruth.ok result hresult, htruth.statusCode result hresult⟩
      | error exc =>
          rcases htruth.raised exc hresult with hlast | ⟨hsent, hcls⟩
          · obtain ⟨⟨request, n⟩, -, houtcome⟩ := Option.map_eq_some_iff.mp hlast
            have hcls : exc.cls ≠ .cancelledError := hcancel _ _ _ _ houtcome
            simp only [if_neg hcls]
            have hlast' : ∀ result, Triggered.lastOutcome (clients adapter.client)
                { t with result := result } = some (.raised exc) := fun _ => hlast
            rw [hlast']
            exact ⟨_, rfl, rfl, rfl⟩
          · simp only [if_neg hcls]
            have hlast : ∀ result, Triggered.lastOutcome (clients adapter.client)
                { t with result := result } = none := by
              intro result
              rw [Triggered.lastOutcome, hsent, Option.map_none]
            rw [hlast]
            exact ⟨_, rfl, rfl, rfl⟩

/-- **One truthful record** for each request that is dispatched. -/
theorem dispatch_records
    (hbus : Lts.Run (Bus.system EventRecord) Lts.free (Bus.init capacity) l bus)
    (hcancel : ∀ k request n exc,
      clients k request n = .raised exc → exc.cls ≠ .cancelledError) :
    ∃ record bus', Engine.dispatch py clients now (some adapters) (some bus) req =
        .ok (some bus') ∧
      bus.publish record = .ok bus' ∧ bus'.published = bus.published ++ [record] ∧
      (record.ok = true ↔ ∃ r, Dispatcher.lastOutcome py clients adapters req =
        some (.response r) ∧ 200 ≤ r.statusCode ∧ r.statusCode ≤ 299) ∧
      record.statusCode =
        match Dispatcher.lastOutcome py clients adapters req with
        | some (.response r) => some r.statusCode
        | some (.raised _) | none => none := by
  obtain ⟨result, hresult, hok, hstatus⟩ := truthful_dispatch py adapters req hcancel
  have hpublish := Bus.publish_eq (Bus.sound_run hbus) (eventRecord now req result)
  refine ⟨eventRecord now req result, _, ?_, hpublish, rfl, ?_, ?_⟩
  · simp only [Engine.dispatch, hresult, hpublish]
  · rw [show (eventRecord now req result).ok = result.ok from rfl, hok]
    rcases Dispatcher.lastOutcome py clients adapters req with _ | ⟨r | exc⟩
    · simp
    · simp [Outcome.isSuccess, Response.isSuccess]
    · simp [Outcome.isSuccess]
  · rw [show (eventRecord now req result).statusCode = result.statusCode from rfl, hstatus]
    rcases Dispatcher.lastOutcome py clients adapters req with _ | ⟨r | exc⟩ <;> rfl

/-- A request to a server that fails once, of a Plex adapter. -/
def flaky : Nat → Client := fun _ _ n => if n = 1 then .response ⟨503⟩ else .response ⟨200⟩

/-- Templates without variables, and no headers. -/
def plainInterpreter : Interpreter :=
  ⟨id, id, fun _ => .ok (some []), fun s _ => .ok s, nofun, nofun⟩

theorem dispatch_records_flaky :
    let adapters := AList.insert 1 ⟨makeServerRuntime 1 .off 0, 0, none⟩ ∅
    let req := scanRequest tomEvent (makeFolderRoute 1 (str "/data") [] none [.created])
    ∃ record bus', Engine.dispatch plainInterpreter flaky (str "now") (some adapters)
        (some (Bus.init 200)) req = .ok (some bus') ∧
      (Bus.init 200).publish record = .ok bus' ∧ bus'.published = [record] ∧
      (record.ok = true ↔ ∃ r, Dispatcher.lastOutcome plainInterpreter flaky adapters req =
        some (.response r) ∧ 200 ≤ r.statusCode ∧ r.statusCode ≤ 299) ∧
      record.statusCode =
        match Dispatcher.lastOutcome plainInterpreter flaky adapters req with
        | some (.response r) => some r.statusCode
        | some (.raised _) | none => none := by
  intro adapters req
  refine dispatch_records .nil fun k request n exc h => ?_
  rw [flaky] at h
  split at h <;> cases h

/-! ### The dispatcher of the service -/

namespace Service
variable {lower : Str → Str} {box : SecretBox} {store : Store} {watcher : Option Watching}
  {acts : List Act} {s : Service}

/-- `_dispatcher`. -/
def dispatcher (s : Service) : Option (AList fun _ : Int => Adapter) :=
  s.engine.adapters.map fun _ => s.adapters

/-- `_dispatch` is called by the debouncer, which is there together with the dispatcher. -/
theorem dispatcher_eq (h : Lts.Run (system lower box) Lts.free (init store watcher) acts s)
    (hd : s.engine.debouncer ≠ none) : s.dispatcher = some s.adapters := by
  cases hadapters : s.engine.adapters with
  | none => exact absurd ((wired_run h).early.nothing hadapters).2.1 hd
  | some ids => rw [dispatcher, hadapters, Option.map_some]

end Service

end MediaScanMonitor
