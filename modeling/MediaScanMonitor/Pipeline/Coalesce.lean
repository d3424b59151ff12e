import MediaScanMonitor.Pipeline.Debounce
import MediaScanMonitor.Pipeline.Router

/-!
# Pipeline — what coalescing keeps

`Handling` is a debouncer whose callers are the engine's event handler: an event is routed, and
its requests are submitted one after another, each submission awaited.  The configuration stays
and nothing is closed, so the loop only steps tasks and time passes.

Two requests of one debounce key displace each other.  The key of a targeted request is its scan
path alone, so two routes of one server with different library ids may have requests of one key.

* `Carried`: a submission's key is armed, or has been dispatched, at or after it.
* `fire_one`, `drain`: an armed timer can fire, and so can all of them, one after another.
* `coalesces_iff`: coalescing keeps every target exactly for the `Separated` configurations.
-/

namespace MediaScanMonitor
open Py
open Debouncer (OfLoop Suspended)

/-! ### The system -/

/-- The debouncer, and what the event handler still has to submit. -/
structure Handling where
  deb : Debouncer
  todo : List ScanRequest

namespace Handling

inductive Act where
  | event (event : FsEvent)
  | submit
  | loop (act : Debouncer.Act)

/-- `_handle_event` over and over, with one configuration. -/
def system (lower : Str → Str) (config : RuntimeConfig) : Lts.System Handling Act where
  enabled s
    | .event _ => s.todo = [] ∧ ¬ Suspended s.deb
    | .submit => s.todo ≠ [] ∧ ¬ Suspended s.deb
    | .loop act => OfLoop act ∧ Debouncer.machine.enabled s.deb act
  next s
    | .event event => { s with todo := route lower event config }
    | .submit =>
      match s.todo with
      | [] => s
      | req :: todo => ⟨s.deb.submit req, todo⟩
    | .loop act => { s with deb := Debouncer.machine.next s.deb act }

def start (config : RuntimeConfig) : Handling := ⟨.init config.servers, []⟩

/-! ### The property and its condition -/

variable {lower : Str → Str} {config : RuntimeConfig} {s s' : Handling} {d d' : Debouncer}
  {t u : Nat} {job : Job} {key : Int × Str} {req : ScanRequest}

/-- The same scan of the same server. -/
def SameTarget (req req' : ScanRequest) : Prop :=
  req'.serverId = req.serverId ∧ req'.libraryId = req.libraryId ∧ req'.scanPath = req.scanPath

/-- When every armed timer has fired, each request to a trailing server has been followed, or
answered, by a dispatch of its target. -/
def Coalesces (lower : Str → Str) (config : RuntimeConfig) : Prop :=
  ∀ l s, Lts.Run (system lower config) Lts.free (start config) l s →
    (∀ t, ¬ s.deb.Pending t) →
    ∀ (t : Nat) (job : Job), s.deb.jobs[t]? = some job →
      (Debouncer.windowOf config.servers job.req.serverId).isSome →
      ∃ (u : Nat) (job' : Job), t ≤ u ∧ s.deb.jobs[u]? = some job' ∧
        u ∈ s.deb.dispatches.map Prod.fst ∧ SameTarget job.req job'.req

/-- No two routes of one trailing server that scan differently accept paths of one key. -/
def Separated (lower : Str → Str) (config : RuntimeConfig) : Prop :=
  ∀ f ∈ config.routes, ∀ g ∈ config.routes, f.serverId = g.serverId →
    (Debouncer.windowOf config.servers f.serverId).isSome →
    f.eventTypes ≠ [] → g.eventTypes ≠ [] →
    (f.libraryId ≠ g.libraryId ∨ f.scanMode ≠ g.scanMode) →
    ∀ p q key, Accepts lower config f p → Accepts lower config g q →
      Keyed f p key → ¬ Keyed g q key

/-! ### A key is carried on -/

/-- The key is armed, or has been dispatched, for a submission at or after `t`. -/
def Carried (d : Debouncer) (t : Nat) (key : Int × Str) : Prop :=
  ∃ (u : Nat) (job : Job), t ≤ u ∧ d.jobs[u]? = some job ∧ job.req.key = key ∧
    (Debouncer.Armed job ∨ u ∈ d.dispatches.map Prod.fst)

/-- A submission of a key that a timer is waited for carries it. -/
theorem carried_submit (hw : (Debouncer.windowOf d.servers req.serverId).isSome)
    (ht : t ≤ d.jobs.length) : Carried (d.submit req) t req.key := by
  obtain ⟨window, hw⟩ := Option.isSome_iff_exists.mp hw
  rw [Debouncer.submit_of_some d hw]
  refine ⟨d.jobs.length, ⟨req, _, some window, .created, false⟩, ht,
    Debouncer.getElem?_concat.mpr (.inr ⟨(Debouncer.length_dropTimer d req.key).symm, rfl⟩), rfl,
    .inl ⟨rfl, .inl rfl⟩⟩

/-- Nothing but `update_servers` and `aclose` ends what is carried. -/
theorem Carried.next (h : Carried d t key) (hd : d.Good) {act : Debouncer.Act}
    (hen : Debouncer.machine.enabled d act) (hact : OfLoop act ∨ ∃ req, act = .submit req) :
    Carried (Debouncer.machine.next d act) t key := by
  obtain ⟨u, job, htu, hj, rfl, hor⟩ := h
  obtain ⟨job', hj', hs⟩ := Debouncer.kept_next hen hj
  have hkey : job'.req.key = job.req.key := by rw [hs.req]
  rcases hor with ha | hmem
  · rcases Debouncer.pending_next hd hen hj ha with ⟨job₁, hj₁, ha₁⟩ | hmem | hdis
    · rw [Option.mem_def, hj'] at hj₁
      cases hj₁
      exact ⟨u, job', htu, hj', hkey, .inl ha₁⟩
    · exact ⟨u, job', htu, hj', hkey, .inr hmem⟩
    · rcases hact with hact | ⟨req, rfl⟩
      · cases act <;> first | exact hact.elim | exact hdis.elim
      · obtain ⟨hk, hw⟩ := hdis
        exact hk ▸ carried_submit hw (htu.trans (Debouncer.lt_of_getElem? hj).le)
  · exact ⟨u, job', htu, hj', hkey, .inr (((Debouncer.dispatches_next hen).map _).subset hmem)⟩

/-! ### Runs of the handler -/

/-- The request comes from an event. -/
def Routed (lower : Str → Str) (config : RuntimeConfig) (req : ScanRequest) : Prop :=
  ∃ event, req ∈ route lower event config

structure Inv (lower : Str → Str) (config : RuntimeConfig) (s : Handling) : Prop where
  good : s.deb.Good
  servers : s.deb.servers = config.servers
  todo : ∀ req ∈ s.todo, Routed lower config req
  jobs : ∀ (t : Nat) (job : Job), s.deb.jobs[t]? = some job →
    Routed lower config job.req ∧ job.window = Debouncer.windowOf config.servers job.req.serverId
  carried : ∀ (t : Nat) (job : Job), s.deb.jobs[t]? = some job → job.window.isSome →
    Carried s.deb t job.req.key

theorem inv_start (lower : Str → Str) (config : RuntimeConfig) : Inv lower config (start config) where
  good := Debouncer.good_init config.servers
  servers := rfl
  todo req h := by cases h
  jobs t job hj := by cases hj
  carried t job hj := by cases hj

theorem servers_submit (d : Debouncer) (req : ScanRequest) : (d.submit req).servers = d.servers := by
  rw [Debouncer.submit]
  split
  · rfl
  · split <;> rfl

theorem servers_run (d : Debouncer) (task : Nat) : (d.run task).servers = d.servers := by
  rw [Debouncer.run]
  split
  · rfl
  · split
    · rfl
    · split
      · rfl
      · rw [Debouncer.fireAfter]
        split <;> rfl
      · rfl

theorem servers_next {act : Debouncer.Act} (hact : OfLoop act ∨ ∃ req, act = .submit req) :
    (Debouncer.machine.next d act).servers = d.servers := by
  cases act with
  | submit req => exact servers_submit d req
  | run task => exact servers_run d task
  | wake task => rfl
  | finish task => rfl
  | tick dt => rfl
  | updateServers servers => simp [OfLoop] at hact
  | aclose => simp [OfLoop] at hact

theorem servers_dropTimer (d : Debouncer) (key : Int × Str) :
    (d.dropTimer key).servers = d.servers := by
  rw [Debouncer.dropTimer]
  split <;> rfl

theorem servers_updateServers (d : Debouncer) (servers : AList fun _ : Int => ServerRuntime) :
    (d.updateServers servers).servers = servers := by
  rw [Debouncer.updateServers]
  exact List.foldlRecOn (motive := fun d : Debouncer => d.servers = servers) _ _ rfl
    fun d hd key _ => (servers_dropTimer d key).trans hd

theorem servers_aclose (d : Debouncer) : d.aclose.servers = d.servers := by
  rw [Debouncer.aclose]
  exact List.foldlRecOn (motive := fun d' : Debouncer => d'.servers = d.servers) _ _ rfl
    fun _ hd _ _ => hd

/-- A step of the debouncer keeps the invariant. -/
theorem Inv.deb (h : Inv lower config s) (act : Debouncer.Act) {todo : List ScanRequest}
    (hen : Debouncer.machine.enabled s.deb act)
    (hact : OfLoop act ∨ ∃ req, act = .submit req ∧ Routed lower config req)
    (htodo : ∀ req ∈ todo, Routed lower config req) :
    Inv lower config ⟨Debouncer.machine.next s.deb act, todo⟩ := by
  have hact' : OfLoop act ∨ ∃ req, act = .submit req :=
    hact.imp_right fun ⟨req, e, _⟩ => ⟨req, e⟩
  refine ⟨h.good.next hen, (servers_next hact').trans h.servers, htodo, fun t job hj => ?_,
    fun t job hj hw => ?_⟩
  · rcases Debouncer.getJob_next hen hj with ⟨job₀, hj₀, hs⟩ | ⟨e, -, -, hw, -⟩
    · rw [hs.req, hs.window]
      exact h.jobs t job₀ hj₀
    · rcases hact with hact | ⟨req, e', hr⟩
      · exact absurd hact (by simp [e, OfLoop])
      · cases e.symm.trans e'
        exact ⟨hr, h.servers ▸ hw⟩
  · rcases Debouncer.getJob_next hen hj with ⟨job₀, hj₀, hs⟩ | ⟨rfl, rfl, -, hw', -⟩
    · rw [hs.req]
      exact (h.carried t job₀ hj₀ (hs.window ▸ hw)).next h.good hen hact'
    · exact carried_submit (hw' ▸ hw) le_rfl

theorem inv_run {l : List Act} (h : Lts.Run (system lower config) Lts.free (start config) l s) :
    Inv lower config s := by
  refine h.invariant (inv_start lower config) fun s act hs hen _ => ?_
  cases act with
  | event event => exact ⟨hs.good, hs.servers, fun req hr => ⟨event, hr⟩, hs.jobs, hs.carried⟩
  | submit =>
      obtain ⟨d, todo⟩ := s
      cases todo with
      | nil => exact hs
      | cons req todo =>
          exact hs.deb (.submit req) trivial
            (.inr ⟨req, rfl, hs.todo req List.mem_cons_self⟩)
            fun req' hr' => hs.todo req' (List.mem_cons_of_mem req hr')
  | loop act => exact hs.deb act hen.2 (.inl hen.1) hs.todo

/-! ### Separated configurations keep every target -/

/-- Two routed requests of one server's key, in a separated configuration, are one target. -/
theorem Separated.sameTarget (h : Separated lower config) {req req' : ScanRequest}
    (hr : Routed lower config req) (hr' : Routed lower config req')
    (hw : (Debouncer.windowOf config.servers req.serverId).isSome) (hk : req'.key = req.key) :
    SameTarget req req' := by
  obtain ⟨event, hr⟩ := hr
  obtain ⟨event', hr'⟩ := hr'
  obtain ⟨f, hf, hacc, hty, rfl⟩ := mem_route.mp hr
  obtain ⟨g, hg, hacc', hty', rfl⟩ := mem_route.mp hr'
  obtain ⟨hserver, hkey⟩ : g.serverId = f.serverId ∧
      (scanRequest event' g).scanKey = (scanRequest event f).scanKey := Prod.mk.inj hk
  have hsame : ¬ (f.libraryId ≠ g.libraryId ∨ f.scanMode ≠ g.scanMode) := fun hne =>
    h f hf g hg hserver.symm hw (List.ne_nil_of_mem hty) (List.ne_nil_of_mem hty') hne
      event.path event'.path _ hacc hacc'
      ((scanKey_eq_iff (prefix_of_isPathPrefix hacc.below)).mp rfl)
      ((scanKey_eq_iff (prefix_of_isPathPrefix hacc'.below)).mp hkey)
  push Not at hsame
  refine ⟨hserver, hsame.1.symm, ?_⟩
  rw [scanPath_scanRequest, scanPath_scanRequest, hkey, hsame.2]

theorem Separated.coalesces (h : Separated lower config) : Coalesces lower config := by
  intro l s hrun hsettled t job hj hw
  have hinv := inv_run hrun
  obtain ⟨hr, hwin⟩ := hinv.jobs t job hj
  obtain ⟨u, job', htu, hj', hk, hor⟩ := hinv.carried t job hj (hwin ▸ hw)
  refine ⟨u, job', htu, hj', ?_, h.sameTarget hr (hinv.jobs u job' hj').1 hw hk⟩
  exact hor.resolve_left fun ha => hsettled u ⟨job', hj', ha⟩

/-! ### Armed timers can fire -/

/-- The runs of the loop alone. -/
abbrev LoopRun (d : Debouncer) (l : List Debouncer.Act) (d' : Debouncer) : Prop :=
  Lts.Run Debouncer.machine (fun _ act => OfLoop act) d l d'

theorem Good.loopRun {l : List Debouncer.Act} (hd : d.Good) (h : LoopRun d l d') : d'.Good :=
  h.invariant hd fun _ _ hd hen _ => hd.next hen

/-- A stored timer's task can reach the end of its sleep. -/
theorem wake_up (hd : d.Good) (hj : d.jobs[t]? = some job) (ha : Debouncer.Armed job) :
    ∃ l d', LoopRun d l d' ∧ d'.timers = d.timers ∧ d'.dispatches = d.dispatches ∧
      ∃ job', d'.jobs[t]? = some job' ∧ job'.req = job.req ∧ job'.cancelled = false ∧
        job'.phase = .woken := by
  have hsleep : ∀ {d : Debouncer} {job : Job} {wake : ℚ}, d.jobs[t]? = some job →
      job.cancelled = false → job.phase = .sleeping wake →
      ∃ l d', LoopRun d l d' ∧ d'.timers = d.timers ∧ d'.dispatches = d.dispatches ∧
        ∃ job', d'.jobs[t]? = some job' ∧ job'.req = job.req ∧ job'.cancelled = false ∧
          job'.phase = .woken := by
    intro d job wake hj hc hp
    -- wait until the sleep may end, and end it
    have htick : (0 : ℚ) ≤ max 0 (wake - d.now) := le_max_left _ _
    have hdue : wake ≤ d.now + max 0 (wake - d.now) :=
      sub_le_iff_le_add'.mp (le_max_right 0 (wake - d.now))
    have hwait : LoopRun d [.tick (max 0 (wake - d.now))]
        { d with now := d.now + max 0 (wake - d.now) } :=
      Lts.Run.one (a := Debouncer.Act.tick (max 0 (wake - d.now))) htick trivial
    have hwake : LoopRun { d with now := d.now + max 0 (wake - d.now) } [.wake t]
        (({ d with now := d.now + max 0 (wake - d.now) } : Debouncer).setPhase t .woken) :=
      Lts.Run.one (a := Debouncer.Act.wake t) ⟨job, hj, hc, wake, hdue, hp⟩ trivial
    refine ⟨_, _, hwait.trans hwake, rfl, rfl, { job with phase := .woken }, ?_, rfl, hc, rfl⟩
    rw [Debouncer.getElem?_setPhase, if_pos rfl, hj]
    rfl
  obtain ⟨hc, hp | ⟨wake, hp⟩ | hp⟩ := ha
  · have ht := hd.timely t job hj
    rw [Debouncer.OnTime, hp] at ht
    obtain ⟨window, hw⟩ := Option.isSome_iff_exists.mp ht.1
    have hrun : Debouncer.machine.next d (.run t) =
        d.setPhase t (.sleeping (d.now + window)) := by
      show d.run t = _
      simp [Debouncer.run, hj, hc, hp, hw]
    have hj' : (Debouncer.machine.next d (.run t)).jobs[t]? =
        some { job with phase := .sleeping (d.now + window) } := by
      rw [hrun, Debouncer.getElem?_setPhase, if_pos rfl, hj]
      rfl
    obtain ⟨l, d', hl, htimers, hdisp, job', hj'', hreq, hrest⟩ := hsleep hj' hc rfl
    have hfirst : LoopRun d [.run t] (Debouncer.machine.next d (.run t)) :=
      Lts.Run.one (a := Debouncer.Act.run t) ⟨job, hj, .inl hp⟩ trivial
    refine ⟨_, d', hfirst.trans hl, ?_, ?_, job', hj'', hreq, hrest⟩
    · rw [htimers, hrun]
      rfl
    · rw [hdisp, hrun]
      rfl
  · exact hsleep hj hc hp
  · exact ⟨[], d, .nil, rfl, rfl, job, hj, rfl, hc, hp⟩

/-- **A stored timer can fire.** -/
theorem fire_one (hd : d.Good) (hl : d.timers.lookup key = some t) :
    ∃ l d', LoopRun d l d' ∧ d'.timers = d.timers.erase key ∧
      d'.dispatches.map Prod.fst = d.dispatches.map Prod.fst ++ [t] := by
  obtain ⟨job, hj, rfl, ha⟩ := (hd.stored key t).mp hl
  obtain ⟨l, d₁, hrun, htimers, hdisp, job', hj', hreq, hc, hp⟩ := wake_up hd hj ha
  have hnext : Debouncer.machine.next d₁ (.run t) = d₁.fireAfter t job' := by
    show d₁.run t = _
    simp [Debouncer.run, hj', hc, hp]
  have hlast : LoopRun d₁ [.run t] (d₁.fireAfter t job') :=
    hnext ▸ Lts.Run.one (a := Debouncer.Act.run t) ⟨job', hj', .inr (.inl hp)⟩ trivial
  refine ⟨l ++ [.run t], _, hrun.trans hlast, ?_, ?_⟩ <;>
    rw [Debouncer.fireAfter, hreq, htimers, if_pos hl]
  · rfl
  · simp [Debouncer.setPhase, hdisp]

/-- Steps of the loop make no new jobs. -/
theorem LoopRun.same {l : List Debouncer.Act} (h : LoopRun d l d') (hj : d'.jobs[t]? = some job) :
    ∃ job₀, d.jobs[t]? = some job₀ ∧ Debouncer.Same job₀ job := by
  induction h generalizing job with
  | nil => exact ⟨job, hj, .refl job⟩
  | snoc _ hen hact ih =>
      rcases Debouncer.getJob_next hen hj with ⟨job₁, hj₁, hs⟩ | ⟨rfl, -⟩
      · obtain ⟨job₀, hj₀, hs₀⟩ := ih hj₁
        exact ⟨job₀, hj₀, hs.req.trans hs₀.req, hs.submitted.trans hs₀.submitted,
          hs.window.trans hs₀.window⟩
      · exact hact.elim

theorem LoopRun.kept {l : List Debouncer.Act} (h : LoopRun d l d') (hj : d.jobs[t]? = some job) :
    ∃ job', d'.jobs[t]? = some job' ∧ Debouncer.Same job job' := by
  induction h with
  | nil => exact ⟨job, hj, .refl job⟩
  | snoc _ hen _ ih =>
      obtain ⟨job₁, hj₁, hs₁⟩ := ih
      obtain ⟨job₂, hj₂, hs₂⟩ := Debouncer.kept_next hen hj₁
      exact ⟨job₂, hj₂, hs₂.req.trans hs₁.req, hs₂.submitted.trans hs₁.submitted,
        hs₂.window.trans hs₁.window⟩

theorem LoopRun.dispatches {l : List Debouncer.Act} (h : LoopRun d l d') :
    d.dispatches <+: d'.dispatches := by
  induction h with
  | nil => exact List.prefix_rfl
  | snoc _ hen _ ih => exact ih.trans (Debouncer.dispatches_next hen)

theorem LoopRun.length {l : List Debouncer.Act} (h : LoopRun d l d') :
    d'.jobs.length = d.jobs.length := by
  induction h with
  | nil => rfl
  | snoc _ hen hact ih =>
      obtain ⟨⟨req, rfl⟩, -⟩ | ⟨-, hlen⟩ := (Debouncer.outcome hen).length
      · exact hact.elim
      · exact hlen.trans ih

/-- An armed job can be dispatched. -/
theorem exists_dispatch (hd : d.Good) (hj : d.jobs[t]? = some job) (ha : Debouncer.Armed job) :
    ∃ l d' time job', LoopRun d l d' ∧ (t, time) ∈ d.started d' ∧ d'.jobs[t]? = some job' ∧
      job'.req = job.req := by
  obtain ⟨l, d', hrun, -, hdisp⟩ := fire_one hd (hd.lookup hj ha)
  obtain ⟨new, hnew⟩ := hrun.dispatches
  rw [← hnew, List.map_append, List.append_cancel_left_eq] at hdisp
  obtain ⟨job', hj', hsame⟩ := hrun.kept hj
  have ht : t ∈ new.map Prod.fst := by
    rw [hdisp]
    exact List.mem_singleton_self t
  obtain ⟨⟨t', time⟩, he, rfl⟩ := List.mem_map.mp ht
  refine ⟨l, d', time, job', hrun, ?_, hj', hsame.req⟩
  rw [Debouncer.started, ← hnew, List.drop_left]
  exact he

/-- Every dispatch can come to its end. -/
theorem exists_awake (d : Debouncer) : ∃ l d', LoopRun d l d' ∧ ¬ Suspended d' := by
  have hdone : ∀ k, ∃ l d', LoopRun d l d' ∧
      ∀ t < k, ¬ d'.At t fun job => job.phase = .dispatching := by
    intro k
    induction k with
    | zero => exact ⟨[], d, .nil, fun t ht => absurd ht (Nat.not_lt_zero t)⟩
    | succ k ih =>
        obtain ⟨l, d', hrun, hdone⟩ := ih
        by_cases hk : d'.At k fun job => job.phase = .dispatching
        · refine ⟨l ++ [.finish k], _, hrun.snoc (a := Debouncer.Act.finish k) hk trivial, ?_⟩
          rintro t ht ⟨job, hj, hp⟩
          change (d'.setPhase k .ended).jobs[t]? = some job at hj
          rw [Debouncer.getElem?_setPhase] at hj
          split at hj
          · obtain ⟨job₀, -, rfl⟩ := Option.map_eq_some_iff.mp hj
            cases hp
          · exact hdone t (by omega) ⟨job, hj, hp⟩
        · refine ⟨l, d', hrun, fun t ht hat => ?_⟩
          rcases Nat.lt_succ_iff_lt_or_eq.mp ht with hlt | rfl
          · exact hdone t hlt hat
          · exact hk hat
  obtain ⟨l, d', hrun, hall⟩ := hdone d.jobs.length
  refine ⟨l, d', hrun, ?_⟩
  rintro ⟨job, hmem, -, hp⟩
  obtain ⟨t, ht⟩ := List.mem_iff_getElem?.mp hmem
  exact hall t (hrun.length ▸ (List.getElem?_eq_some_iff.mp ht).1) ⟨job, ht, hp⟩

/-- The timers that have fired are of different keys, and none of them is armed again. -/
structure Single (d : Debouncer) : Prop where
  free : ∀ (t : Nat) (job : Job), d.jobs[t]? = some job → job.window.isSome →
    t ∈ d.dispatches.map Prod.fst → d.timers.lookup job.req.key = none
  unique : ∀ (t u : Nat) (job job' : Job), d.jobs[t]? = some job → d.jobs[u]? = some job' →
    job.window.isSome → job'.window.isSome → job'.req.key = job.req.key →
    t ∈ d.dispatches.map Prod.fst → u ∈ d.dispatches.map Prod.fst → t = u

/-- One more timer fires. -/
theorem Single.fire {l : List Debouncer.Act} (h : Single d) (hd : d.Good) (hrun : LoopRun d l d')
    (hl : d.timers.lookup key = some t) (htimers : d'.timers = d.timers.erase key)
    (hdisp : d'.dispatches.map Prod.fst = d.dispatches.map Prod.fst ++ [t]) : Single d' := by
  have hkey : ∀ job, d'.jobs[t]? = some job → job.req.key = key := fun job hj => by
    obtain ⟨job₀, hj₀, hs⟩ := hrun.same hj
    obtain ⟨job₁, hj₁, hk, -⟩ := (hd.stored key t).mp hl
    rw [Option.mem_def, hj₀] at hj₁
    cases hj₁
    rw [hs.req, hk]
  -- a timer that had fired before is not of the key that fires now
  have hother : ∀ u job, d'.jobs[u]? = some job → job.window.isSome →
      u ∈ d.dispatches.map Prod.fst → d.timers.lookup job.req.key = none := fun u job hj hw hu => by
    obtain ⟨job₀, hj₀, hs⟩ := hrun.same hj
    rw [hs.req]
    exact h.free u job₀ hj₀ (hs.window ▸ hw) hu
  have hne : ∀ u job, d'.jobs[u]? = some job → job.window.isSome →
      u ∈ d.dispatches.map Prod.fst → job.req.key ≠ key := fun u job hj hw hu e => by
    have hnone := hother u job hj hw hu
    rw [e, hl] at hnone
    cases hnone
  refine ⟨fun u job hj hw hu => ?_, fun u v job job' hj hj' hw hw' hk hu hv => ?_⟩
  · rw [htimers]
    rw [hdisp, List.mem_append, List.mem_singleton] at hu
    rcases hu with hu | rfl
    · rw [AList.lookup_erase_ne (hne u job hj hw hu)]
      exact hother u job hj hw hu
    · rw [hkey job hj, AList.lookup_erase]
  · rw [hdisp, List.mem_append, List.mem_singleton] at hu hv
    rcases hu with hu | rfl <;> rcases hv with hv | rfl
    · obtain ⟨job₀, hj₀, hs⟩ := hrun.same hj
      obtain ⟨job₁, hj₁, hs'⟩ := hrun.same hj'
      exact h.unique u v job₀ job₁ hj₀ hj₁ (hs.window ▸ hw) (hs'.window ▸ hw')
        (by rw [← hs.req, ← hs'.req, hk]) hu hv
    · exact absurd (hk.symm.trans (hkey job' hj')) (hne u job hj hw hu)
    · exact absurd (hk.trans (hkey job hj)) (hne v job' hj' hw' hv)
    · rfl

/-- **The armed timers can all fire**, each once. -/
theorem drain (n : Nat) (hn : d.timers.keys.length = n) (hd : d.Good) (h : Single d) :
    ∃ l d', LoopRun d l d' ∧ (∀ t, ¬ d'.Pending t) ∧ Single d' := by
  induction n generalizing d with
  | zero =>
      refine ⟨[], d, .nil, ?_, h⟩
      rintro t ⟨job, hj, ha⟩
      have hmem :=
        AList.mem_keys.mp (AList.lookup_isSome.mp (Option.isSome_of_eq_some (hd.lookup hj ha)))
      rw [List.length_eq_zero_iff.mp hn] at hmem
      cases hmem
  | succ n ih =>
      obtain ⟨key, hkey⟩ := List.exists_mem_of_length_pos (Nat.lt_of_lt_of_eq n.succ_pos hn.symm)
      obtain ⟨t, hl⟩ := Option.isSome_iff_exists.mp (AList.lookup_isSome.mpr (AList.mem_keys.mpr hkey))
      obtain ⟨l₁, d₁, h₁, htimers, hdisp⟩ := fire_one hd hl
      have hlen : d₁.timers.keys.length = n := by
        have := @List.length_erase_of_mem _ instBEqOfDecidableEq _ key _ hkey
        rw [htimers, AList.keys_erase, this, hn, Nat.add_sub_cancel]
      obtain ⟨l₂, d₂, h₂, hpend, hsingle⟩ :=
        ih hlen (Good.loopRun hd h₁) (h.fire hd h₁ hl htimers hdisp)
      exact ⟨l₁ ++ l₂, d₂, h₁.trans h₂, hpend, hsingle⟩

/-! ### Handling events before any timer fires -/

/-- Only immediate dispatches have started, and they are over. -/
structure Quiet (d : Debouncer) : Prop where
  awake : ¬ Suspended d
  unfired : ∀ (t : Nat) (job : Job), d.jobs[t]? = some job → job.window.isSome →
    t ∉ d.dispatches.map Prod.fst

/-- The request has been submitted. -/
def Has (d : Debouncer) (req : ScanRequest) : Prop :=
  ∃ (t : Nat) (job : Job), d.jobs[t]? = some job ∧ job.req = req

theorem Has.kept (h : Has d req)
    (hkept : ∀ (t : Nat) (job : Job), d.jobs[t]? = some job →
      ∃ job', d'.jobs[t]? = some job' ∧ Debouncer.Same job job') : Has d' req := by
  obtain ⟨t, job, hj, rfl⟩ := h
  obtain ⟨job', hj', hs⟩ := hkept t job hj
  exact ⟨t, job', hj', hs.req⟩

theorem loop_run {l : List Debouncer.Act} (h : LoopRun d l d') (todo : List ScanRequest) :
    Lts.Run (system lower config) Lts.free ⟨d, todo⟩ (l.map .loop) ⟨d', todo⟩ := by
  induction h with
  | nil => exact .nil
  | @snoc l d' act _ hen hact ih =>
      rw [List.map_append]
      exact .snoc (a := Act.loop act) ih ⟨hact, hen⟩ trivial

theorem has_submit (d : Debouncer) (req : ScanRequest) : Has (d.submit req) req := by
  obtain ⟨job, hj, hreq, -⟩ := d.submit_cases req
  exact ⟨d.jobs.length, job, hj, hreq⟩

/-- Arming a timer suspends nobody and dispatches nothing. -/
theorem Quiet.submit_trailing (h : Quiet d) {window : ℚ} (hd : d.Good)
    (hw : Debouncer.windowOf d.servers req.serverId = some window) : Quiet (d.submit req) := by
  rw [Debouncer.submit_of_some d hw]
  have hdrop := Debouncer.drops_dropTimer d req.key
  refine ⟨?_, fun t job hj hjw => ?_⟩
  · rintro ⟨job, hmem, hnone, hp⟩
    obtain ⟨t, hj⟩ := List.mem_iff_getElem?.mp hmem
    rcases Debouncer.getElem?_concat.mp hj with hj | ⟨-, rfl⟩
    · rcases hdrop.getJob hj with ⟨hj₀, -⟩ | ⟨-, job₀, hj₀, rfl⟩
      · exact h.awake ⟨job, List.mem_of_getElem? hj₀, hnone, hp⟩
      · exact h.awake ⟨job₀, List.mem_of_getElem? hj₀, hnone, hp⟩
    · cases hnone
  · show t ∉ (d.dropTimer req.key).dispatches.map Prod.fst
    rw [hdrop.dispatches]
    rcases Debouncer.getElem?_concat.mp hj with hj | ⟨rfl, -⟩
    · obtain ⟨job₀, hj₀, hs⟩ := hdrop.same hj
      exact h.unfired t job₀ hj₀ (hs.window ▸ hjw)
    · rw [Debouncer.length_dropTimer]
      exact fun hmem => (hd.lt hmem).false

/-- An immediate dispatch, once it is over, leaves no trace among the timers. -/
theorem Quiet.submit_off (h : Quiet d) (req : ScanRequest) :
    Quiet ((d.dispatchNow req).setPhase d.jobs.length .ended) := by
  refine ⟨?_, fun t job hj hjw => ?_⟩
  · rintro ⟨job, hmem, hnone, hp⟩
    obtain ⟨t, hj⟩ := List.mem_iff_getElem?.mp hmem
    rw [Debouncer.getElem?_setPhase] at hj
    split at hj
    · obtain ⟨job₀, -, rfl⟩ := Option.map_eq_some_iff.mp hj
      cases hp
    · rename_i hne
      rcases Debouncer.getElem?_concat.mp hj with hj | ⟨rfl, -⟩
      · exact h.awake ⟨job, List.mem_of_getElem? hj, hnone, hp⟩
      · exact hne rfl
  · obtain ⟨job₀, hj₀, hs⟩ := Debouncer.same_setPhase hj
    rcases Debouncer.getElem?_concat.mp hj₀ with hj₀ | ⟨-, rfl⟩
    · show t ∉ (d.dispatches ++ [(d.jobs.length, d.now)]).map Prod.fst
      rw [List.map_append, List.mem_append, not_or]
      refine ⟨h.unfired t job₀ hj₀ (hs.window ▸ hjw), fun hmem => ?_⟩
      exact (Debouncer.lt_of_getElem? hj₀).ne (List.mem_singleton.mp hmem)
    · rw [hs.window] at hjw
      cases hjw

/-- A submission is handled to its end before any timer fires. -/
theorem submit_one (hd : d.Good) (hq : Quiet d) (req : ScanRequest) (todo : List ScanRequest) :
    ∃ l d', Lts.Run (system lower config) Lts.free ⟨d, req :: todo⟩ l ⟨d', todo⟩ ∧ d'.Good ∧
      Quiet d' ∧ Has d' req ∧ ∀ r, Has d r → Has d' r := by
  have hstep : Lts.Run (system lower config) Lts.free ⟨d, req :: todo⟩ [.submit]
      ⟨d.submit req, todo⟩ :=
    Lts.Run.one (a := Act.submit) ⟨List.cons_ne_nil _ _, hq.awake⟩ trivial
  have hen : Debouncer.machine.enabled d (.submit req) := trivial
  have hkept : ∀ r, Has d r → Has (d.submit req) r := fun r hr =>
    hr.kept fun t job hj => Debouncer.kept_next hen hj
  cases hw : Debouncer.windowOf d.servers req.serverId with
  | some window =>
      exact ⟨_, _, hstep, hd.submit req, hq.submit_trailing hd hw, has_submit d req, hkept⟩
  | none =>
      have hnow := Debouncer.submit_of_none d hw
      have hphase : (d.submit req).At d.jobs.length fun job => job.phase = .dispatching := by
        rw [hnow]
        exact ⟨_, Debouncer.getElem?_concat.mpr (.inr ⟨rfl, rfl⟩), rfl⟩
      have hfinish : LoopRun (d.submit req) [.finish d.jobs.length]
          ((d.submit req).setPhase d.jobs.length .ended) :=
        Lts.Run.one (a := Debouncer.Act.finish d.jobs.length) hphase trivial
      have hfin : ∀ r, Has (d.submit req) r →
          Has ((d.submit req).setPhase d.jobs.length .ended) r := fun r hr =>
        hr.kept fun _ _ hj => Debouncer.kept_setPhase _ _ hj
      exact ⟨_, _, hstep.trans (loop_run hfinish todo), Good.loopRun (hd.submit req) hfinish,
        hnow ▸ hq.submit_off req, hfin req (has_submit d req), fun r hr => hfin r (hkept r hr)⟩

/-- The requests of an event are handled before any timer fires. -/
theorem submit_all (hd : d.Good) (hq : Quiet d) (todo : List ScanRequest) :
    ∃ l d', Lts.Run (system lower config) Lts.free ⟨d, todo⟩ l ⟨d', []⟩ ∧ d'.Good ∧ Quiet d' ∧
      (∀ req ∈ todo, Has d' req) ∧ ∀ r, Has d r → Has d' r := by
  induction todo generalizing d with
  | nil => exact ⟨[], d, .nil, hd, hq, (fun req h => by cases h), fun r hr => hr⟩
  | cons req todo ih =>
      obtain ⟨l₁, d₁, h₁, hd₁, hq₁, hreq, hkept₁⟩ := submit_one hd hq req todo
      obtain ⟨l₂, d₂, h₂, hd₂, hq₂, htodo, hkept₂⟩ := ih hd₁ hq₁
      refine ⟨l₁ ++ l₂, d₂, h₁.trans h₂, hd₂, hq₂, fun r hr => ?_, fun r hr => hkept₂ r (hkept₁ r hr)⟩
      rcases List.mem_cons.mp hr with rfl | hr
      · exact hkept₂ r hreq
      · exact htodo r hr

theorem handle_event (hd : d.Good) (hq : Quiet d) (event : FsEvent) :
    ∃ l d', Lts.Run (system lower config) Lts.free ⟨d, []⟩ l ⟨d', []⟩ ∧ d'.Good ∧ Quiet d' ∧
      (∀ req ∈ route lower event config, Has d' req) ∧ ∀ r, Has d r → Has d' r := by
  obtain ⟨l, d', h, hrest⟩ := submit_all hd hq
    (route lower event config)
  exact ⟨_, d', .cons (a := Act.event event) ⟨rfl, hq.awake⟩ trivial h, hrest⟩

theorem quiet_init (servers : AList fun _ : Int => ServerRuntime) : Quiet (.init servers) where
  awake := fun ⟨_, h, _⟩ => by cases h
  unfired t job hj := by cases hj

theorem Quiet.single (h : Quiet d) : Single d where
  free t job hj hw hmem := absurd hmem (h.unfired t job hj hw)
  unique t _ job _ hj _ hw _ _ hmem := absurd hmem (h.unfired t job hj hw)

/-- Two events are handled before any timer fires, and then all timers fire. -/
theorem exists_settled (e₁ e₂ : FsEvent) :
    ∃ l s, Lts.Run (system lower config) Lts.free (start config) l s ∧
      (∀ t, ¬ s.deb.Pending t) ∧ Single s.deb ∧
      (∀ req ∈ route lower e₁ config, Has s.deb req) ∧
      ∀ req ∈ route lower e₂ config, Has s.deb req := by
  obtain ⟨l₁, d₁, h₁, hd₁, hq₁, hr₁, -⟩ :=
    handle_event (Debouncer.good_init config.servers)
      (quiet_init config.servers) e₁
  obtain ⟨l₂, d₂, h₂, hd₂, hq₂, hr₂, hkept⟩ :=
    handle_event hd₁ hq₁ e₂
  obtain ⟨l₃, d₃, h₃, hpend, hsingle⟩ := drain _ rfl hd₂ hq₂.single
  have hlast : ∀ r, Has d₂ r → Has d₃ r := fun r hr => hr.kept fun _ _ hj => LoopRun.kept h₃ hj
  exact ⟨_, ⟨d₃, []⟩, (h₁.trans h₂).trans (loop_run h₃ []), hpend, hsingle,
    fun req hr => hlast req (hkept req (hr₁ req hr)), fun req hr => hlast req (hr₂ req hr)⟩

/-! ### Colliding routes lose a target -/

theorem key_of_sameTarget {req req' : ScanRequest} (hr : Routed lower config req)
    (hr' : Routed lower config req') (h : SameTarget req req') : req'.key = req.key := by
  obtain ⟨event, hr⟩ := hr
  obtain ⟨event', hr'⟩ := hr'
  obtain ⟨f, -, -, -, rfl⟩ := mem_route.mp hr
  obtain ⟨g, -, -, -, rfl⟩ := mem_route.mp hr'
  refine Prod.ext h.1 ?_
  show (scanRequest event' g).scanKey = (scanRequest event f).scanKey
  rw [scanKey_scanRequest, scanKey_scanRequest, h.2.2, h.2.1]

/-- Of two requests of one key, with no timer fired between them, one dispatch answers both. -/
theorem Coalesces.sameTarget (h : Coalesces lower config) {e₁ e₂ : FsEvent}
    {req req' : ScanRequest} (hr : req ∈ route lower e₁ config) (hr' : req' ∈ route lower e₂ config)
    (hw : (Debouncer.windowOf config.servers req.serverId).isSome) (hk : req'.key = req.key) :
    SameTarget req req' := by
  obtain ⟨l, s, hrun, hpend, hsingle, hhas, hhas'⟩ :=
    exists_settled e₁ e₂
  have hinv := inv_run hrun
  obtain ⟨t, job, hj, rfl⟩ := hhas req hr
  obtain ⟨t', job', hj', rfl⟩ := hhas' req' hr'
  have hserver : job'.req.serverId = job.req.serverId := congrArg Prod.fst hk
  obtain ⟨u, jobᵤ, -, hu, humem, hutarget⟩ := h l s hrun hpend t job hj hw
  obtain ⟨v, jobᵥ, -, hv, hvmem, hvtarget⟩ := h l s hrun hpend t' job' hj' (hserver ▸ hw)
  have hkᵤ := key_of_sameTarget ⟨e₁, hr⟩ (hinv.jobs u jobᵤ hu).1 hutarget
  have hkᵥ := key_of_sameTarget ⟨e₂, hr'⟩ (hinv.jobs v jobᵥ hv).1 hvtarget
  have hwᵤ : jobᵤ.window.isSome := by rw [(hinv.jobs u jobᵤ hu).2, hutarget.1]; exact hw
  have hwᵥ : jobᵥ.window.isSome := by
    rw [(hinv.jobs v jobᵥ hv).2, hvtarget.1, hserver]
    exact hw
  obtain rfl := hsingle.unique u v jobᵤ jobᵥ hu hv hwᵤ hwᵥ (by rw [hkᵤ, hkᵥ, hk]) humem hvmem
  cases hu.symm.trans hv
  exact ⟨hserver, hvtarget.2.1.symm.trans hutarget.2.1, hvtarget.2.2.symm.trans hutarget.2.2⟩

theorem Coalesces.separated (h : Coalesces lower config) : Separated lower config := by
  intro f hf g hg hserver hw hty hty' hne p q key hacc hacc' hkey hkey'
  obtain ⟨ty, hty⟩ := List.exists_mem_of_ne_nil _ hty
  obtain ⟨ty', hty'⟩ := List.exists_mem_of_ne_nil _ hty'
  have hr : scanRequest ⟨p, ty, false⟩ f ∈ route lower ⟨p, ty, false⟩ config :=
    mem_route.mpr ⟨f, hf, hacc, hty, rfl⟩
  have hr' : scanRequest ⟨q, ty', false⟩ g ∈ route lower ⟨q, ty', false⟩ config :=
    mem_route.mpr ⟨g, hg, hacc', hty', rfl⟩
  have hk : (scanRequest ⟨p, ty, false⟩ f).scanKey = key :=
    (scanKey_eq_iff (prefix_of_isPathPrefix hacc.below)).mpr hkey
  have hk' : (scanRequest ⟨q, ty', false⟩ g).scanKey = key :=
    (scanKey_eq_iff (prefix_of_isPathPrefix hacc'.below)).mpr hkey'
  obtain ⟨-, hlib, hpath⟩ := h.sameTarget hr hr' hw (Prod.ext hserver.symm (hk'.trans hk.symm))
  -- one target has one library id, and a scan path only in targeted mode
  rw [scanPath_scanRequest, scanPath_scanRequest] at hpath
  rcases hne with hne | hne
  · exact hne hlib.symm
  · cases hf' : f.scanMode <;> cases hg' : g.scanMode <;> simp_all

/-- **Coalescing keeps every scan target** exactly when routes of one trailing server that scan
differently never share a key. -/
theorem coalesces_iff (lower : Str → Str) (config : RuntimeConfig) :
    Coalesces lower config ↔ Separated lower config :=
  ⟨fun h => h.separated, fun h => h.coalesces⟩

/-- One folder of a server in two libraries. -/
def sharedFolder : RuntimeConfig :=
  makeRuntimeConfig
    [makeFolderRoute 1 (str "/data/tv") [str "mkv"] (some (str "2")) [.created],
      makeFolderRoute 1 (str "/data/tv") [str "mkv"] (some (str "3")) [.created]]
    (AList.singleton 1 (makeServerRuntime 1 .trailing 30))

/-- A new episode is announced to one of the two libraries only. -/
theorem shared_folder_loses : ¬ Coalesces asciiLower sharedFolder := fun h =>
  h.separated _ List.mem_cons_self _ (List.mem_cons_of_mem _ List.mem_cons_self) rfl (by decide)
    (by decide) (by decide) (.inl (by decide)) (str "/data/tv/Show/ep.mkv")
    (str "/data/tv/Show/ep.mkv") (str "/data/tv/Show") ⟨by decide, by decide, by decide⟩
    ⟨by decide, by decide, by decide⟩
    (.inr ⟨1, str "Show", str "ep.mkv", by decide, by decide, by decide, by decide⟩)
    (.inr ⟨1, str "Show", str "ep.mkv", by decide, by decide, by decide, by decide⟩)

end Handling

end MediaScanMonitor
