import MediaScanMonitor.Engine.Lock
import MediaScanMonitor.Engine.Service

/-!
# Engine — the bench

What the tasks do to the adapters, with everything else left out.  Each task is at a stage: it has
not read its configuration, it builds from one, or it is past its swap; `Bench.Step` is what can
happen to the stages, to what is built, and to what is installed.

* `bench_next`: every step of the service is a step of its bench.  What is proved of the bench
  holds of the service.
-/

namespace MediaScanMonitor
open Py
open Debouncer (OfLoop)

/-- How far a task is. -/
inductive Stage where
  | before
  | building (sn : Snapshot) (b : Build)
  | closing (old : List Nat)
  | after

/-- Before the gate has answered, `start` has installed its adapters, a rebuild has not. -/
def StartPhase.stage : StartPhase → Stage
  | .idle | .reading _ => .before
  | .building _ sn b => .building sn b
  | .policy _ _ | .limit _ _ _ | .looping | .finished => .after

def RebuildPhase.stage : RebuildPhase → Stage
  | .waiting | .reading => .before
  | .building sn b => .building sn b
  | .policy sn clients | .limit sn clients _ => .building sn ⟨[], clients⟩
  | .closing old => .closing old
  | .finished => .after

structure Bench where
  config : Option Snapshot
  /-- The servers the dispatcher has an adapter for. -/
  dispatcher : Option (List Int)
  /-- The servers of the debouncer. -/
  servers : Option (AList fun _ : Int => ServerRuntime)
  clients : List (Int × Nat)
  adapters : AList fun _ : Int => Adapter
  rows : AList fun _ : Int => Nat
  skipped : List (Nat × Int)
  created : Nat
  retired : List Nat
  stage : Task → Stage
  /-- The adapters each task has built. -/
  made : Task → AList fun _ : Int => Adapter
  /-- The rows each task has read its servers from. -/
  read : Task → AList fun _ : Int => Nat
  /-- `aclose` has been called. -/
  closed : Bool

namespace Bench

def init : Bench where
  config := none
  dispatcher := none
  servers := none
  clients := []
  adapters := ∅
  rows := ∅
  skipped := []
  created := 0
  retired := []
  stage _ := .before
  made _ := ∅
  read _ := ∅
  closed := false

def setStage (b : Bench) (task : Task) (stage : Stage) : Bench :=
  { b with stage := Function.update b.stage task stage }

@[simp] theorem stage_setStage (b : Bench) (task : Task) (stage : Stage) :
    (b.setStage task stage).stage task = stage :=
  Function.update_self ..

theorem stage_setStage_ne (b : Bench) {task t : Task} (stage : Stage) (h : t ≠ task) :
    (b.setStage task stage).stage t = b.stage t :=
  Function.update_of_ne h ..

/-- What a rebuild does leaves the stage of `start` alone. -/
@[simp] theorem stage_setStage_some (b : Bench) (k : Nat) (stage : Stage) :
    (b.setStage (some k) stage).stage none = b.stage none :=
  b.stage_setStage_ne stage (Option.some_ne_none k).symm

theorem setStage_self {b : Bench} {task : Task} {stage : Stage} (h : b.stage task = stage) :
    b.setStage task stage = b := by
  rw [setStage, ← h, Function.update_eq_self]

/-- Two benches that differ in one stage. -/
theorem eq_setStage {b b' : Bench} {task : Task} {stage : Stage}
    (h : { b' with stage := b.stage } = b)
    (hstage : b'.stage = Function.update b.stage task stage) : b' = b.setStage task stage := by
  obtain ⟨⟩ := b'
  rw [setStage, ← hstage, ← h]

/-- `create_adapter` returns. -/
def make (b : Bench) (task : Task) (serverId : Int) (server : ServerRuntime) : Bench :=
  { b with
    created := b.created + 1
    made := Function.update b.made task
      ((b.made task).insert serverId ⟨server, b.created, (b.read task).lookup serverId⟩) }

/-- `create_adapter` raises: the client is closed, by a rebuild or by `start`. -/
def skip (b : Bench) (task : Task) (sn : Snapshot) (serverId : Int) : Bench :=
  { b with
    created := b.created + 1
    skipped := (sn.read, serverId) :: b.skipped
    retired := if task.isSome then b.created :: b.retired else b.retired }

/-- What the task has built becomes what is installed. -/
def install (b : Bench) (task : Task) (sn : Snapshot) (clients : List (Int × Nat)) : Bench :=
  { b with
    config := some sn
    dispatcher := some (clients.map Prod.fst)
    servers := some sn.config.servers
    clients := clients
    adapters := b.made task
    rows := b.read task }

/-- The steps, each with the rebuild whose swap it is. -/
inductive Step (b : Bench) : Option Nat → Bench → Prop where
  | idle : Step b none b
  | read {task : Task} {rows : AList fun _ : Int => Nat} (h : b.stage task = .before) :
      Step b none { b with read := Function.update b.read task rows }
  /-- `start` publishes what it has read. -/
  | publish {sn : Snapshot} (h : b.stage none = .before) (hd : b.dispatcher = none)
      (hread : ∀ i ∈ sn.config.servers, i ∈ b.read none) :
      Step b none ({ b with config := some sn, rows := b.read none }.setStage none
        (.building sn (.of sn.config)))
  | load {k : Nat} {sn : Snapshot} (h : b.stage (some k) = .before) (hd : b.dispatcher ≠ none)
      (hread : ∀ i ∈ sn.config.servers, i ∈ b.read (some k)) :
      Step b none (b.setStage (some k) (.building sn (.of sn.config)))
  | make {task : Task} {sn : Snapshot} {w : Build} {serverId : Int} {todo : List Int}
      {server : ServerRuntime} (h : b.stage task = .building sn w)
      (hw : w.todo = serverId :: todo)
      (hserver : sn.config.servers.lookup serverId = some server) :
      Step b none ((b.make task serverId server).setStage task
        (.building sn (w.next serverId todo b.created true)))
  | skip {task : Task} {sn : Snapshot} {w : Build} {serverId : Int} {todo : List Int}
      (h : b.stage task = .building sn w) (hw : w.todo = serverId :: todo) :
      Step b none ((b.skip task sn serverId).setStage task
        (.building sn (w.next serverId todo b.created false)))
  /-- `start` wires the pipeline. -/
  | wire {sn : Snapshot} {w : Build} (h : b.stage none = .building sn w) (hw : w.todo = [])
      (hd : b.dispatcher = none) :
      Step b none ({ b.install none sn w.clients with config := b.config }.setStage none .after)
  | swap {k : Nat} {sn : Snapshot} {w : Build} (h : b.stage (some k) = .building sn w)
      (hw : w.todo = []) (hd : b.dispatcher ≠ none) :
      Step b (some k) ((b.install (some k) sn w.clients).setStage (some k)
        (.closing (b.clients.map Prod.snd)))
  | close {k client : Nat} {old : List Nat} (h : b.stage (some k) = .closing (client :: old)) :
      Step b none ({ b with retired := client :: b.retired }.setStage (some k) (.closing old))
  /-- A task comes to its end: it raises, or has closed what it had to close. -/
  | leave {task : Task} (h : b.stage task ≠ .after) : Step b none (b.setStage task .after)
  /-- `aclose` is called. -/
  | aclose : Step b none { b with closed := true }
  /-- `aclose` returns. -/
  | release (h : b.closed = true) : Step b none { b with clients := [] }

/-- Every adapter still to build is one of the configuration. -/
def Listed (b : Bench) : Prop :=
  ∀ (task : Task) (sn : Snapshot) (w : Build), b.stage task = .building sn w →
    ∀ i ∈ w.todo, i ∈ sn.config.servers

theorem listed_init : Listed init := by
  intro task sn w h
  cases h

/-- One task has another stage. -/
theorem Listed.setStage {b : Bench} (hb : b.Listed) {task : Task} {stage : Stage}
    (h : ∀ (sn : Snapshot) (w : Build), stage = .building sn w →
      ∀ i ∈ w.todo, i ∈ sn.config.servers) : (b.setStage task stage).Listed := by
  intro t sn w ht
  by_cases e : t = task
  · rw [e, stage_setStage] at ht
    exact h sn w ht
  · rw [stage_setStage_ne _ _ e] at ht
    exact hb t sn w ht

theorem Listed.next {b b' : Bench} {k : Option Nat} (hb : b.Listed) (h : Step b k b') :
    b'.Listed := by
  cases h with
  | idle | read h | aclose | release h => exact hb
  | publish h | load h =>
      refine Listed.setStage hb fun sn' w e i hi => ?_
      cases e
      exact hi
  | @make task sn w serverId todo server h hw hserver =>
      refine Listed.setStage hb fun sn' w' e i hi => ?_
      cases e
      exact hb _ _ _ h i (hw ▸ List.mem_cons_of_mem _ hi)
  | @skip task sn w serverId todo h hw =>
      refine Listed.setStage hb fun sn' w' e i hi => ?_
      cases e
      exact hb _ _ _ h i (hw ▸ List.mem_cons_of_mem _ hi)
  | wire h hw hd | swap h hw hd | close h | leave h =>
      exact Listed.setStage hb fun sn' w' e => by cases e

theorem Step.of_eq {b b' b'' : Bench} {k : Option Nat} (h : Step b k b'') (e : b' = b'') :
    Step b k b' :=
  e ▸ h

/-- A task that only goes on. -/
theorem Step.same {b b' : Bench} {task : Task} {stage : Stage} (h : b.stage task = stage)
    (e : b' = b.setStage task stage) : Step b none b' :=
  Step.idle.of_eq (e.trans (setStage_self h))

end Bench

namespace Service

variable {lower : Str → Str} {box : SecretBox} {s s' : Service} {act : Act}

/-- The stage of a task. -/
def stage (e : Engine) : Task → Stage
  | none => e.start.stage
  | some k => (e.rebuilds[k]?).elim .before RebuildPhase.stage

/-- The bench of the service. -/
def bench (s : Service) : Bench where
  config := s.engine.config
  dispatcher := s.engine.adapters
  servers := s.engine.debouncer.map Debouncer.servers
  clients := s.engine.clients
  adapters := s.adapters
  rows := s.rows
  skipped := s.skipped
  created := s.engine.created
  retired := s.retired
  stage := stage s.engine
  made task := (s.locals task).adapters
  read := s.rowsOf
  closed := decide (s.engine.closing ≠ .idle)

/-- The rebuild whose swap the step is. -/
def swapOf (s : Service) : Act → Option Nat
  | .engine (.rebuildBuilt k) =>
    match s.engine.rebuilds[k]? with
    | some (.building sn _) => if sn.config.watchPaths = [] then some k else none
    | _ => none
  | .engine (.rebuildLimit k (some _)) => some k
  | _ => none

theorem bench_init (store : Store) (watcher : Option Watching) :
    (init store watcher).bench = .init := by
  simp only [bench, Bench.init, init, Engine.init]
  congr 1
  funext task
  cases task <;> rfl

/-! ### The stages -/

theorem stage_setRebuild {e : Engine} {k : Nat} {p : RebuildPhase} (p' : RebuildPhase)
    (hk : e.rebuilds[k]? = some p) :
    stage (e.setRebuild k p') = Function.update (stage e) (some k) p'.stage := by
  funext task
  cases task with
  | none => rfl
  | some j =>
      simp only [stage, Function.update_apply, Option.some.injEq,
        Engine.getElem?_setRebuild e (List.getElem?_eq_some_iff.mp hk).1, eq_comm (a := j)]
      split <;> rfl

theorem stage_some {k : Nat} {p : RebuildPhase} (hk : s.engine.rebuilds[k]? = some p) :
    s.bench.stage (some k) = p.stage := by
  show (s.engine.rebuilds[k]?).elim _ _ = _
  rw [hk]
  rfl

theorem stage_none {p : StartPhase} (h : s.engine.start = p) : s.bench.stage none = p.stage := by
  show s.engine.start.stage = _
  rw [h]

/-- `start` goes on. -/
theorem stage_start {e e' : Engine} (h : e'.rebuilds = e.rebuilds) :
    stage e' = Function.update (stage e) none e'.start.stage := by
  funext task
  cases task with
  | none => rfl
  | some j =>
      rw [Function.update_of_ne (Option.some_ne_none j)]
      simp only [stage, h]

/-- A rebuild that waits for the lock is where it was before the call. -/
theorem stage_append {e e' : Engine} (h : e'.rebuilds = e.rebuilds ++ [.waiting])
    (hstart : e'.start = e.start) : stage e' = stage e := by
  funext task
  cases task with
  | none => simp only [stage, hstart]
  | some j =>
      simp only [stage, h, List.getElem?_append]
      split
      · rfl
      · rw [List.getElem?_eq_none (by omega : e.rebuilds.length ≤ j)]
        cases hj : [RebuildPhase.waiting][j - e.rebuilds.length]? with
        | none => rfl
        | some p =>
            obtain rfl := List.mem_singleton.mp (List.mem_of_getElem? hj)
            rfl

/-- `reads` says that the task has its configuration to read. -/
theorem stage_of_reads {task : Task} (h : s.reads task = true) : s.bench.stage task = .before := by
  cases task with
  | none =>
      rw [reads] at h
      split at h
      · rename_i hstart
        exact stage_none hstart
      · cases h
  | some k => exact stage_some (of_decide_eq_true h)

/-! ### An iteration of `_build_adapters` -/

theorem build_ok {task : Task} {sn : Snapshot} {b : Build} {serverId : Int} {todo : List Int}
    {server : ServerRuntime} (hb : b.todo = serverId :: todo)
    (hserver : sn.config.servers.lookup serverId = some server) :
    s.build task sn b true = s.setLocals task
      { s.locals task with
        adapters := (s.locals task).adapters.insert serverId
          ⟨server, s.engine.created, (s.rowsOf task).lookup serverId⟩ } := by
  have h : s.adapterFor task sn serverId =
      some ⟨server, s.engine.created, (s.rowsOf task).lookup serverId⟩ := by
    rw [adapterFor, hserver]
    rfl
  simp only [build, hb, h]

theorem build_raised {task : Task} {sn : Snapshot} {b : Build} {serverId : Int} {todo : List Int}
    (hb : b.todo = serverId :: todo) :
    s.build task sn b false = { s with skipped := (sn.read, serverId) :: s.skipped } := by
  simp only [build, hb]

/-- What a task has built is not what it has read. -/
theorem bench_setLocals (s : Service) (e : Engine) (retired : List Nat) (task : Task)
    (adapters : AList fun _ : Int => Adapter) :
    ({ s.setLocals task { s.locals task with adapters := adapters } with
        engine := e, retired := retired } : Service).bench =
      { ({ s with engine := e, retired := retired } : Service).bench with
        made := Function.update s.bench.made task adapters } := by
  simp only [bench, setLocals]
  congr 1 <;> funext t <;> by_cases h : t = task
  · rw [h, Function.update_self, Function.update_self]
  · rw [Function.update_of_ne h, Function.update_of_ne h]
  · rw [h]
    simp only [rowsOf, Function.update_self]
  · simp only [rowsOf, Function.update_of_ne h]

/-- Every server of a configuration was read from a row. -/
theorem HasRead.mem_rows {task : Task} {config : RuntimeConfig} (h : s.HasRead task config) :
    ∀ i ∈ config.servers, i ∈ s.rowsOf task := by
  obtain ⟨r, hr, -, rfl⟩ := h
  intro i hi
  rw [rowsOf, hr]
  exact r.done.mem_rows hi

/-! ### The refinement -/

/-- The swap of a rebuild. -/
theorem bench_swap (hs : Engine.Wired s.engine) {k : Nat} {p : RebuildPhase} {sn : Snapshot}
    {w : Build} (hk : s.engine.rebuilds[k]? = some p) (hp : p.stage = .building sn w)
    (hw : w.todo = []) (limit : Option WatchLimitStatus) (gateOk : Bool) :
    Bench.Step s.bench (some k)
      ({ s.install (some k) with
        engine := { s.engine with watchLimit := limit }.swap k sn w.clients gateOk } :
          Service).bench := by
  have hd := hs.early.wired hk
  obtain ⟨d, hd'⟩ := Option.ne_none_iff_exists'.mp (hs.pipeline hd).1
  refine (Bench.Step.swap ((stage_some hk).trans hp) hw hd).of_eq
    (Bench.eq_setStage ?_ (stage_setRebuild _ hk))
  simp only [bench, install, Bench.install, Engine.swap, Engine.setRebuild, hd', Option.map_some,
    Handling.servers_updateServers]
  rfl

/-- A step of the engine is a step of the bench. -/
theorem bench_after (hs : Engine.Wired s.engine) (hl : s.bench.Listed) {act : Engine.Act}
    {e : Engine} (hadm : s.Admits act) (h : Engine.Step lower s.engine act e) :
    Bench.Step s.bench (s.swapOf (.engine act)) (s.after act e).bench := by
  have hunwired : s.engine.Unwired → s.bench.dispatcher = none := hs.early.unwired
  cases h with
  | startAgain | rebuildSkipped | read | yield => exact .idle
  | start h => exact .same (stage_none (hs.early.idle h)) (Bench.eq_setStage rfl (stage_start rfl))
  | startRead h =>
      have hd := hunwired (by rw [Engine.Unwired, h]; trivial)
      exact (Bench.Step.publish (stage_none h) hd hadm.mem_rows).of_eq
        (Bench.eq_setStage rfl (stage_start rfl))
  | startReadRaised h =>
      refine (Bench.Step.leave ?_).of_eq (Bench.eq_setStage rfl (stage_start rfl))
      simp [stage_none h, StartPhase.stage]
  | @startBuild park ok sn b serverId todo h hb =>
      have hstage := stage_none h
      cases ok with
      | true =>
          obtain ⟨server, hserver⟩ := Option.isSome_iff_exists.mp
            (AList.lookup_isSome.mpr (hl _ _ _ hstage serverId (hb ▸ List.mem_cons_self)))
          simp only [after, h, build_ok hb hserver]
          exact (Bench.Step.make hstage hb hserver).of_eq
            ((bench_setLocals ..).trans (Bench.eq_setStage rfl (stage_start rfl)))
      | false =>
          simp only [after, h, build_raised hb]
          exact (Bench.Step.skip hstage hb).of_eq (Bench.eq_setStage rfl (stage_start rfl))
  | startBuilt h hb =>
      have hd := hunwired (by rw [Engine.Unwired, h]; trivial)
      have hstep := Bench.Step.wire (stage_none h) hb hd
      rw [Engine.wire]
      split
      · rcases Engine.attach_cases _ _ _ _ with e | e <;> rw [e]
        · exact hstep.of_eq (Bench.eq_setStage rfl (stage_start rfl))
        · exact hstep.of_eq (Bench.eq_setStage rfl (stage_start rfl))
      · exact hstep.of_eq (Bench.eq_setStage rfl (stage_start rfl))
  | startPolicy h => exact .same (stage_none h) (Bench.eq_setStage rfl (stage_start rfl))
  | startPolicyRaised h => exact .same (stage_none h) (Bench.eq_setStage rfl (stage_start rfl))
  | startLimit h =>
      rcases Engine.attach_cases _ _ _ _ with e | e <;> rw [e]
      · exact .same (stage_none h) (Bench.eq_setStage rfl (stage_start rfl))
      · exact .same (stage_none h) (Bench.eq_setStage rfl (stage_start rfl))
  | startLimitRaised h => exact .same (stage_none h) (Bench.eq_setStage rfl (stage_start rfl))
  | rebuild hadapters hwatcher =>
      refine Bench.Step.idle.of_eq ?_
      show ({ s with engine := _ } : Service).bench = _
      have hstage : stage { s.engine with rebuilds := s.engine.rebuilds ++ [.waiting] } =
          stage s.engine := stage_append rfl rfl
      simp only [bench, hstage]
      rfl
  | acquire h => exact .same (stage_some h) (Bench.eq_setStage rfl (stage_setRebuild _ h))
  | rebuildRead h =>
      exact (Bench.Step.load (stage_some h) (hs.early.wired h) hadm.mem_rows).of_eq
        (Bench.eq_setStage rfl (stage_setRebuild _ h))
  | rebuildReadRaised h | rebuildPolicyRaised h | rebuildLimitRaised h =>
      refine (Bench.Step.leave ?_).of_eq (Bench.eq_setStage rfl (stage_setRebuild _ h))
      simp [stage_some h, RebuildPhase.stage]
  | @rebuildBuild k ok sn b serverId todo h hb =>
      have hstage := stage_some h
      cases ok with
      | true =>
          obtain ⟨server, hserver⟩ := Option.isSome_iff_exists.mp
            (AList.lookup_isSome.mpr (hl _ _ _ hstage serverId (hb ▸ List.mem_cons_self)))
          simp only [after, h, build_ok hb hserver]
          exact (Bench.Step.make hstage hb hserver).of_eq
            ((bench_setLocals ..).trans (Bench.eq_setStage rfl (stage_setRebuild _ h)))
      | false =>
          simp only [after, h, build_raised hb]
          exact (Bench.Step.skip hstage hb).of_eq (Bench.eq_setStage rfl (stage_setRebuild _ h))
  | @rebuildBuilt k sn b h hb =>
      obtain ⟨todo, clients⟩ := b
      obtain rfl : todo = [] := hb
      rw [Engine.rebuilt]
      by_cases hpaths : sn.config.watchPaths = []
      · simp only [after, swapOf, h, if_pos hpaths]
        exact bench_swap hs h rfl rfl none true
      · simp only [after, swapOf, h, if_neg hpaths]
        exact .same (stage_some h) (Bench.eq_setStage rfl (stage_setRebuild _ h))
  | rebuildPolicy h => exact .same (stage_some h) (Bench.eq_setStage rfl (stage_setRebuild _ h))
  | rebuildLimit h => exact bench_swap hs h rfl rfl _ _
  | rebuildClose h =>
      simp only [after, h]
      exact (Bench.Step.close (stage_some h)).of_eq (Bench.eq_setStage rfl (stage_setRebuild _ h))
  | rebuildOver h =>
      simp only [after, h]
      refine (Bench.Step.leave ?_).of_eq (Bench.eq_setStage rfl (stage_setRebuild _ h))
      simp [stage_some h, RebuildPhase.stage]
  | @submit d req todo h htodo =>
      simp only [after, h, Engine.setDebouncer]
      refine Bench.Step.idle.of_eq ?_
      simp only [bench, h, Option.map_some, Handling.servers_submit]
      rfl
  | @loop d act h hact hen =>
      simp only [after, h, Engine.setDebouncer]
      refine Bench.Step.idle.of_eq ?_
      simp only [bench, h, Option.map_some, Handling.servers_next (.inl hact)]
      rfl
  | @aclose d h hd =>
      refine Bench.Step.aclose.of_eq ?_
      simp only [after, bench, hd, Option.map_some, Handling.servers_aclose]
      rfl
  | acloseUnwired h hd => exact .aclose
  | closeTimers h | closeClient h =>
      refine Bench.Step.idle.of_eq ?_
      simp only [after, bench, h]
      rfl
  | returned h =>
      refine (Bench.Step.release (decide_eq_true (by simp [h]))).of_eq ?_
      simp only [after, bench, h]
      rfl

theorem bench_setReading (s : Service) (task : Task) (r : Reading) :
    (s.setReading task r).bench =
      { s.bench with read := Function.update s.bench.read task r.done.rows.toAList } := by
  simp only [bench, setReading, setLocals]
  congr 1 <;> funext t <;> by_cases h : t = task
  · rw [h, Function.update_self]
  · rw [Function.update_of_ne h]
  · rw [h]
    simp only [rowsOf, Function.update_self]
    rfl
  · simp only [rowsOf, Function.update_of_ne h]

/-- **The service refines its bench.** -/
theorem bench_next (hs : Engine.Wired s.engine) (hl : s.bench.Listed)
    (h : Step lower box s act s') : Bench.Step s.bench (s.swapOf act) s'.bench := by
  cases h with
  | commit h => exact .idle
  | call hc hen =>
      exact bench_after hs hl (show s.Admits .rebuild from trivial) (Engine.step_cases hen)
  | listServers h hr =>
      rw [bench_setReading]
      exact .read (stage_of_reads h)
  | listFolders h hr hn =>
      rw [bench_setReading]
      exact .read (stage_of_reads h)
  | attempt h hf => exact .idle
  | engine hadm hen => exact bench_after hs hl hadm (Engine.step_cases hen)

section Run
variable {store : Store} {watcher : Option Watching} {l : List Act}

/-- What every step of the bench keeps holds of the bench of every reachable service, and what the
steps of the service keep, given that, holds of the service. -/
theorem service_invariant {P : Bench → Prop} {Q : Service → Prop} {G : Service → Act → Prop}
    (h : Lts.Run (system lower box) G (init store watcher) l s) (hP₀ : P .init)
    (hP : ∀ b k b', P b → Bench.Step b k b' → P b') (hQ₀ : Q (init store watcher))
    (hQ : ∀ s s' act, Engine.Wired s.engine → P s.bench → Q s → Step lower box s act s' →
      Bench.Step s.bench (s.swapOf act) s'.bench → G s act → Q s') : P s.bench ∧ Q s := by
  have hall : Engine.Wired s.engine ∧ s.bench.Listed ∧ P s.bench ∧ Q s :=
    h.invariant (P := fun s => Engine.Wired s.engine ∧ s.bench.Listed ∧ P s.bench ∧ Q s)
      ⟨Engine.wired_init watcher, bench_init store watcher ▸ Bench.listed_init,
        bench_init store watcher ▸ hP₀, hQ₀⟩
      fun s act ⟨hw, hl, hp, hq⟩ hen hG => by
        have hstep := step_cases hen
        have hbench := bench_next hw hl hstep
        refine ⟨?_, hl.next hbench, hP _ _ _ hp hbench, hQ _ _ act hw hp hq hstep hbench hG⟩
        rcases engine_next hstep with e | ⟨act', hen', e⟩ <;> rw [e]
        · exact hw
        · exact hw.next (Engine.step_cases hen')
  exact hall.2.2

theorem bench_invariant {P : Bench → Prop} {G : Service → Act → Prop}
    (h : Lts.Run (system lower box) G (init store watcher) l s) (h₀ : P .init)
    (hstep : ∀ b k b', P b → Bench.Step b k b' → P b') : P s.bench :=
  (service_invariant (Q := fun _ => True) h h₀ hstep trivial fun _ _ _ _ _ _ _ _ _ => trivial).1

end Run

end Service

end MediaScanMonitor
