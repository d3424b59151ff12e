import MediaScanMonitor.Engine.Wiring

/-!
# Engine — from a request to a delivery

What becomes of the requests: `_handle_event` has them to submit, the debouncer keeps them, and the
dispatcher hands them to an adapter.  `Delivers` is what a step of the service can do to them, with
everything else left out (`delivers_next`).
-/

namespace MediaScanMonitor
open Py
open Debouncer (OfLoop Suspended Armed)

/-- Where the requests are. -/
structure Post where
  debouncer : Option Debouncer
  adapters : AList fun _ : Int => Adapter
  /-- The rows of the installed configuration. -/
  rows : AList fun _ : Int => Nat
  todo : List ScanRequest
  todoOrigins : List (Option Nat)
  origins : List (Option Nat)
  deliveries : List (Nat × Adapter)

namespace Service

variable {lower : Str → Str} {box : SecretBox} {s s' : Service} {act : Act}

def post (s : Service) : Post where
  debouncer := s.engine.debouncer
  adapters := s.adapters
  rows := s.rows
  todo := s.engine.todo
  todoOrigins := s.todoOrigins
  origins := s.origins
  deliveries := s.deliveries

inductive Delivers (lower : Str → Str) (s : Service) : Act → Post → Prop where
  | same {act : Act} : Delivers lower s act s.post
  | publish {act : Act} (hn : s.engine.adapters = none) (rows : AList fun _ : Int => Nat) :
      Delivers lower s act { s.post with rows := rows }
  | wire {act : Act} (hn : s.engine.adapters = none)
      (servers : AList fun _ : Int => ServerRuntime) :
      Delivers lower s act
        { s.post with
          debouncer := some (.init servers)
          adapters := (s.locals none).adapters
          rows := s.rowsOf none }
  | swap {act : Act} {k : Nat} {d : Debouncer} (hk : s.swapOf act = some k)
      (hd : s.engine.debouncer = some d) (servers : AList fun _ : Int => ServerRuntime) :
      Delivers lower s act
        { s.post with
          debouncer := some (d.updateServers servers)
          adapters := (s.locals (some k)).adapters
          rows := s.rowsOf (some k) }
  | yield {act : Act} (event : FsEvent) (hw : s.engine.adapters ≠ none)
      (htodo : s.engine.todo = []) :
      Delivers lower s act
        { s.post with
          todo := s.engine.requests lower event
          todoOrigins := (s.engine.requests lower event).map fun req =>
            s.rows.lookup req.serverId }
  | submit {act : Act} {d : Debouncer} {req : ScanRequest} {todo : List ScanRequest}
      (hact : s.swapOf act = none) (hd : s.engine.debouncer = some d)
      (htodo : s.engine.todo = req :: todo) :
      Delivers lower s act
        { s.post with
          debouncer := some (d.submit req)
          todo := todo
          todoOrigins := s.todoOrigins.tail
          origins := s.origins ++ [s.todoOrigins.head?.join]
          deliveries := s.deliveries ++ s.triggered d (d.submit req) }
  | loop {act : Act} {d : Debouncer} {act' : Debouncer.Act} (hno : s.swapOf act = none)
      (hd : s.engine.debouncer = some d) (hact : OfLoop act')
      (hen : Debouncer.machine.enabled d act') :
      Delivers lower s act
        { s.post with
          debouncer := some (Debouncer.machine.next d act')
          deliveries := s.deliveries ++ s.triggered d (Debouncer.machine.next d act') }
  | aclose {act : Act} {d : Debouncer} (hd : s.engine.debouncer = some d) :
      Delivers lower s act { s.post with debouncer := some d.aclose }

theorem Delivers.of_eq {p p' : Post} (h : Delivers lower s act p') (e : p = p') :
    Delivers lower s act p := e ▸ h

/-- `start` that comes to its loop, or returns, delivers nothing. -/
theorem post_attach (s : Service) (e : Engine) (park gateOk : Bool) (sn : Snapshot) :
    ({ s with engine := e.attach park sn gateOk } : Service).post =
      ({ s with engine := e } : Service).post := by
  rcases e.attach_cases park sn gateOk with h | h <;> rw [h] <;> rfl

/-- What a step of the engine does to the requests. -/
theorem delivers_after (hs : Engine.Wired s.engine) {act : Engine.Act} {e : Engine}
    (h : Engine.Step lower s.engine act e) :
    Delivers lower s (.engine act) (s.after act e).post := by
  have hunwired : s.engine.Unwired → s.engine.adapters = none := hs.early.unwired
  cases h with
  | startAgain | rebuildSkipped | start | startReadRaised | startPolicy | startPolicyRaised
  | startLimitRaised | rebuild | acquire | rebuildRead | rebuildReadRaised | rebuildPolicy
  | rebuildPolicyRaised | rebuildLimitRaised | read | acloseUnwired | closeTimers | closeClient
  | returned => exact .same
  | startRead h => exact .publish (hunwired (by rw [Engine.Unwired, h]; trivial)) _
  | startBuild h hb | rebuildBuild h hb =>
      simp only [after, h]
      refine Delivers.same.of_eq ?_
      unfold build
      repeat' split
      all_goals rfl
  | @startBuilt park sn b h hb =>
      have hwire := hunwired (by rw [Engine.Unwired, h]; trivial)
      refine (Delivers.wire hwire sn.config.servers).of_eq ?_
      simp only [after, Engine.wire]
      split
      · exact post_attach (s.install none) _ _ _ _
      · rfl
  | startLimit h => exact Delivers.same.of_eq (post_attach s _ _ _ _)
  | @rebuildBuilt k sn b h hb =>
      obtain ⟨d, hd⟩ := Option.ne_none_iff_exists'.mp (hs.pipeline (hs.early.wired h)).1
      by_cases hpaths : sn.config.watchPaths = []
      · refine (Delivers.swap (k := k) ?_ hd sn.config.servers).of_eq ?_
        · simp only [swapOf, h, if_pos hpaths]
        · simp only [after, h, if_pos hpaths, Engine.rebuilt, Engine.swap, Engine.setRebuild, post,
            hd, Option.map_some]
          rfl
      · simp only [after, h, if_neg hpaths, Engine.rebuilt]
        exact .same
  | @rebuildLimit k sn clients policy limit h =>
      obtain ⟨d, hd⟩ := Option.ne_none_iff_exists'.mp (hs.pipeline (hs.early.wired h)).1
      refine (Delivers.swap (k := k) rfl hd sn.config.servers).of_eq ?_
      simp only [after, Engine.swap, Engine.setRebuild, post, hd, Option.map_some]
      rfl
  | rebuildClose h =>
      simp only [after, h]
      exact .same
  | rebuildOver h =>
      simp only [after, h]
      exact .same
  | @yield event turn h hturn =>
      have hw := hs.done
      rw [Engine.Done, h.1] at hw
      exact .yield event hw h.2.1
  | submit h htodo =>
      simp only [after, h, Engine.setDebouncer]
      exact .submit rfl h htodo
  | loop h hact hen =>
      simp only [after, h, Engine.setDebouncer]
      exact .loop rfl h hact hen
  | aclose h hd => exact .aclose hd

/-- What a step of the service does to the requests. -/
theorem delivers_next (hs : Engine.Wired s.engine) (h : Step lower box s act s') :
    Delivers lower s act s'.post := by
  cases h with
  | commit | listServers | listFolders | attempt => exact .same
  | call hc hen =>
      have hstep := Engine.step_cases hen
      generalize (Engine.system lower).next s.engine .rebuild = e at hstep
      cases hstep with
      | rebuildSkipped => exact .same
      | rebuild hadapters hwatcher => exact .same
  | engine hadm hen => exact delivers_after hs (Engine.step_cases hen)

/-! ### Steps the service can take -/

section
variable {d d' : Debouncer}

theorem triggered_congr (h : s'.adapters = s.adapters) (d d' : Debouncer) :
    s'.triggered d d' = s.triggered d d' := by
  simp only [triggered, h]

theorem mem_triggered {t : Nat} {time : ℚ} {job : Job} {a : Adapter}
    (he : (t, time) ∈ d.started d') (hj : d'.jobs[t]? = some job)
    (ha : s.adapters.lookup job.req.serverId = some a) : (t, a) ∈ s.triggered d d' :=
  List.mem_filterMap.mpr ⟨_, he, by simp [hj, ha]⟩

/-- The loop takes the debouncer one step on. -/
theorem loop_step {act : Debouncer.Act} (hd : s.engine.debouncer = some d) (hact : OfLoop act)
    (hen : Debouncer.machine.enabled d act) :
    (system lower box).enabled s (.engine (.loop act)) ∧
      ((system lower box).next s (.engine (.loop act))).post =
        { s.post with
          debouncer := some (Debouncer.machine.next d act)
          deliveries := s.deliveries ++ s.triggered d (Debouncer.machine.next d act) } := by
  have hstep : s.engine.step lower (.loop act) =
      some (s.engine.setDebouncer d (Debouncer.machine.next d act)) := by
    simp only [Engine.step, Engine.stepEvents, hd]
    exact if_pos ⟨hact, hen⟩
  obtain ⟨hengine, hnext⟩ := Engine.enabled_of_step hstep
  obtain ⟨henabled, hservice⟩ := @engine_enabled lower box s (.loop act) trivial hengine
  refine ⟨henabled, ?_⟩
  rw [hservice, hnext]
  simp only [after, hd, Engine.setDebouncer]
  rfl

/-- `_handle_event` submits the next request. -/
theorem submit_step {req : ScanRequest} {todo : List ScanRequest}
    (hd : s.engine.debouncer = some d) (htodo : s.engine.todo = req :: todo)
    (hawake : ¬ Suspended d) :
    (system lower box).enabled s (.engine .submit) ∧
      ((system lower box).next s (.engine .submit)).post =
        { s.post with
          debouncer := some (d.submit req)
          todo := todo
          todoOrigins := s.todoOrigins.tail
          origins := s.origins ++ [s.todoOrigins.head?.join]
          deliveries := s.deliveries ++ s.triggered d (d.submit req) } := by
  have hstep : s.engine.step lower .submit =
      some { s.engine.setDebouncer d (d.submit req) with todo := todo } := by
    simp only [Engine.step, Engine.stepEvents, hd, htodo]
    exact if_neg hawake
  obtain ⟨hengine, hnext⟩ := Engine.enabled_of_step hstep
  obtain ⟨henabled, hservice⟩ := @engine_enabled lower box s .submit trivial hengine
  refine ⟨henabled, ?_⟩
  rw [hservice, hnext]
  simp only [after, hd, Engine.setDebouncer]
  rfl

/-- What a swap can be. -/
theorem swap_cases {act : Act} {k : Nat} (hstep : Step lower box s act s')
    (hk : s.swapOf act = some k) (hd : s.engine.debouncer = some d) :
    ∃ sn clients, s.bench.stage (some k) = .building sn ⟨[], clients⟩ ∧
      s'.engine.rebuilds[k]? = some (.closing (s.engine.clients.map Prod.snd)) ∧
      s'.post =
        { s.post with
          debouncer := some (d.updateServers sn.config.servers)
          adapters := (s.locals (some k)).adapters
          rows := s.rowsOf (some k) } := by
  cases hstep with
  | @engine act hadm hen =>
      have hengine := Engine.step_cases hen
      generalize (Engine.system lower).next s.engine act = e at hengine
      cases hengine with
      | @rebuildBuilt j sn b h hb =>
          by_cases hpaths : sn.config.watchPaths = []
          · simp only [swapOf, h, if_pos hpaths, Option.some.injEq] at hk
            subst hk
            obtain ⟨todo, clients⟩ := b
            cases hb
            simp only [after, h, if_pos hpaths, Engine.rebuilt]
            refine ⟨sn, clients, stage_some h, ?_, ?_⟩
            · exact List.getElem?_set_self (List.getElem?_eq_some_iff.mp h).1
            · simp only [Engine.swap, Engine.setRebuild, post, hd, Option.map_some]
              rfl
          · simp only [swapOf, h, if_neg hpaths] at hk
            cases hk
      | @rebuildLimit j sn clients policy limit h =>
          cases hk
          refine ⟨sn, clients, stage_some h, ?_, ?_⟩
          · exact List.getElem?_set_self (List.getElem?_eq_some_iff.mp h).1
          · simp only [after, Engine.swap, Engine.setRebuild, post, hd, Option.map_some]
            rfl
      | _ => cases hk
  | _ => cases hk

end

/-! ### Runs of a service with one server -/

/-- The limit is high enough. -/
def ample : WatchLimitStatus := ⟨8192, 2, 100, 8192, true⟩

/-- A database with one server, whose window is 30 s. -/
def oneServer : Store := storeAfter [.serverCreateWithFolders 0 plexServer [tvFolder]]

/-- `start` reads it and comes to its loop. -/
def launching : List Act :=
  [.engine (.start true), .listServers none, .listFolders none,
    .engine (.startRead (some (configOf oneServer))), .engine (.startBuild true),
    .engine .startBuilt, .engine (.startPolicy (some none)), .engine (.startLimit (some ample))]

/-- An event comes in, and the timer of its request is armed. -/
def arming : List Act :=
  [.engine (.read [⟨str "/data/tv/Show/first.mkv", .created, false⟩]), .engine .yield,
    .engine .submit, .engine (.loop (.run 0))]

/-- The window of the request has elapsed, and its trigger is started. -/
def firing : List Act :=
  [.engine (.loop (.tick 30)), .engine (.loop (.wake 0)), .engine (.loop (.run 0))]

/-- A rebuild reads a database with one server and swaps. -/
def swapping (k : Nat) (store : Store) : List Act :=
  [.engine (.acquire k), .listServers (some k), .listFolders (some k),
    .engine (.rebuildRead k (some (configOf store))), .engine (.rebuildBuild k true),
    .engine (.rebuildBuilt k), .engine (.rebuildPolicy k (some none)),
    .engine (.rebuildLimit k (some ample))]

end Service

end MediaScanMonitor
