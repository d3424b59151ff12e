import MediaScanMonitor.Library.Lts
import MediaScanMonitor.Pipeline.Events
import Mathlib.Algebra.Order.Field.Rat

/-!
# Pipeline — `Debouncer`

`pipeline/debounce.py` with the part of the event loop its timer tasks live on.  A *job* is one
submission: `Job.window` is the window `submit` read for it, or `none` where it was dispatched at
once.  The job of a timer task is that task, and jobs are numbered in the order of submission, so
`_timers` holds their numbers.

A task is stepped by the loop (`run`): before its first step it is `created`, in `_sleep` it is
`sleeping`, and between the end of the sleep and its next step it is `woken`.  `task.cancel()`
only marks the task; the mark is read at its next step, which throws `CancelledError` into it,
and `_fire_after` ends there, at its first line, in the sleep or in the dispatch.

* `Drops`, `Good.drops`: what cancelling the timers of some keys does, whoever does it.
* `Good`: the invariant.  A key has a stored timer exactly when a task is armed for it, and no
  armed task has been dispatched.
* `outcome`: what a step of the machine is.
* `pending_next`: a pending job stays so, or is dispatched, or the step displaces it.
* `debouncer_safety`: what holds of every run.
-/

namespace MediaScanMonitor
open Py

inductive Phase where
  | created
  | sleeping (wake : ℚ)
  | woken
  | dispatching
  | ended
  deriving DecidableEq

/-- One submission, with its task. -/
structure Job where
  req : ScanRequest
  submitted : ℚ
  window : Option ℚ
  phase : Phase
  cancelled : Bool
  deriving DecidableEq

/-- What `task.cancel()` does to its task. -/
def Job.cancel (job : Job) : Job := { job with cancelled := true }

/-- The key of `_timers`. -/
def ScanRequest.key (req : ScanRequest) : Int × Str := (req.serverId, req.scanKey)

structure Debouncer where
  servers : AList fun _ : Int => ServerRuntime
  timers : AList fun _ : Int × Str => Nat
  now : ℚ
  jobs : List Job
  /-- The dispatches started so far: the job and the time. -/
  dispatches : List (Nat × ℚ)

namespace Debouncer

/-- A new `Debouncer`. -/
def init (servers : AList fun _ : Int => ServerRuntime) : Debouncer := ⟨servers, ∅, 0, [], []⟩

/-- `task.cancel()`. -/
def cancel (d : Debouncer) (task : Nat) : Debouncer :=
  { d with jobs := d.jobs.modify task Job.cancel }

def setPhase (d : Debouncer) (task : Nat) (phase : Phase) : Debouncer :=
  { d with jobs := d.jobs.modify task fun job => { job with phase := phase } }

/-- `await self._dispatch(req)` in the caller's own task. -/
def dispatchNow (d : Debouncer) (req : ScanRequest) : Debouncer :=
  { d with
    jobs := d.jobs ++ [⟨req, d.now, none, .dispatching, false⟩]
    dispatches := d.dispatches ++ [(d.jobs.length, d.now)] }

/-- `self._timers[key] = asyncio.create_task(self._fire_after(key, req, window))`. -/
def arm (d : Debouncer) (req : ScanRequest) (window : ℚ) : Debouncer :=
  { d with
    timers := d.timers.insert req.key d.jobs.length
    jobs := d.jobs ++ [⟨req, d.now, some window, .created, false⟩] }

/-- The window `submit` reads for a server: none where it dispatches at once. -/
def windowOf (servers : AList fun _ : Int => ServerRuntime) (serverId : Int) : Option ℚ :=
  match servers.lookup serverId with
  | none => none
  | some server =>
    match server.debounceMode with
    | .off => none
    | .trailing => some server.debounceWindowSeconds

/-- `submit`, up to its `await`. -/
def submit (d : Debouncer) (req : ScanRequest) : Debouncer :=
  match windowOf d.servers req.serverId with
  | none => d.dispatchNow req
  | some window =>
    match d.timers.lookup req.key with
    | some pending => (d.cancel pending).arm req window
    | none => d.arm req window

/-- The body of `update_servers`' loop. -/
def dropTimer (d : Debouncer) (key : Int × Str) : Debouncer :=
  match d.timers.lookup key with
  | some task => { d with timers := d.timers.erase key }.cancel task
  | none => d

/-- `update_servers`. -/
def updateServers (d : Debouncer) (servers : AList fun _ : Int => ServerRuntime) : Debouncer :=
  (d.timers.keys.filter fun key => key.1 ∉ servers).foldl dropTimer { d with servers := servers }

/-- `aclose`; the tasks it then awaits are stepped by the loop. -/
def aclose (d : Debouncer) : Debouncer :=
  (d.timers.entries.map fun entry => entry.2).foldl cancel { d with timers := ∅ }

/-- What `_fire_after` does when its sleep has ended, up to the dispatch. -/
def fireAfter (d : Debouncer) (task : Nat) (job : Job) : Debouncer :=
  if d.timers.lookup job.req.key = some task then
    { d with
      timers := d.timers.erase job.req.key
      dispatches := d.dispatches ++ [(task, d.now)] }.setPhase task .dispatching
  else d.setPhase task .ended

/-- The loop steps a task. -/
def run (d : Debouncer) (task : Nat) : Debouncer :=
  match d.jobs[task]? with
  | none => d
  | some job =>
    if job.cancelled then d.setPhase task .ended
    else
      match job.phase, job.window with
      | .created, some window => d.setPhase task (.sleeping (d.now + window))
      | .woken, _ => d.fireAfter task job
      | _, _ => d

/-- What a step finds of a job. -/
def At (d : Debouncer) (task : Nat) (p : Job → Prop) : Prop := ∃ job ∈ d.jobs[task]?, p job

instance (d : Debouncer) (task : Nat) (p : Job → Prop) [DecidablePred p] :
    Decidable (d.At task p) :=
  inferInstanceAs (Decidable (∃ job ∈ d.jobs[task]?, p job))

/-- The loop has a step of the task to make. -/
def Scheduled (job : Job) : Prop :=
  job.phase = .created ∨ job.phase = .woken ∨ job.cancelled = true ∧ job.phase ≠ .ended

/-- The task is in a sleep that may end at `now`. -/
def Due (now : ℚ) (job : Job) : Prop :=
  job.cancelled = false ∧ ∃ wake ≤ now, job.phase = .sleeping wake

instance : DecidablePred Scheduled := fun _ => inferInstanceAs (Decidable (_ ∨ _))

instance (now : ℚ) : DecidablePred (Due now) := fun job =>
  match h : job.phase with
  | .sleeping wake =>
    decidable_of_iff (job.cancelled = false ∧ wake ≤ now)
      (and_congr_right fun _ => ⟨fun hw => ⟨wake, hw, h⟩, fun ⟨_, hw, e⟩ => by
        rw [h] at e
        cases e
        exact hw⟩)
  | .created | .woken | .dispatching | .ended =>
    .isFalse fun ⟨_, _, _, e⟩ => by rw [h] at e; cases e

inductive Act where
  | submit (req : ScanRequest)
  | run (task : Nat)
  | wake (task : Nat)
  | finish (task : Nat)
  | tick (dt : ℚ)
  | updateServers (servers : AList fun _ : Int => ServerRuntime)
  | aclose

/-- The debouncer on its event loop: calls, and steps of the loop, in any order. -/
def machine : Lts.System Debouncer Act where
  enabled d
    | .run task => d.At task Scheduled
    | .wake task => d.At task (Due d.now)
    | .finish task => d.At task fun job => job.phase = .dispatching
    | .tick dt => 0 ≤ dt
    | .submit _ | .updateServers _ | .aclose => True
  next d
    | .submit req => d.submit req
    | .run task => d.run task
    | .wake task => d.setPhase task .woken
    | .finish task => d.setPhase task .ended
    | .tick dt => { d with now := d.now + dt }
    | .updateServers servers => d.updateServers servers
    | .aclose => d.aclose

/-- The step is one of the loop, and no call. -/
def OfLoop : Act → Prop
  | .run _ | .wake _ | .finish _ | .tick _ => True
  | .submit _ | .updateServers _ | .aclose => False

instance : DecidablePred OfLoop
  | .run _ | .wake _ | .finish _ | .tick _ => .isTrue trivial
  | .submit _ | .updateServers _ | .aclose => .isFalse id

/-- A caller of `submit` is inside its dispatch. -/
def Suspended (d : Debouncer) : Prop :=
  ∃ job ∈ d.jobs, job.window = none ∧ job.phase = .dispatching

instance (d : Debouncer) : Decidable (Suspended d) :=
  inferInstanceAs (Decidable (∃ job ∈ d.jobs, job.window = none ∧ job.phase = .dispatching))

instance (d : Debouncer) : ∀ act, Decidable (machine.enabled d act)
  | .run task => inferInstanceAs (Decidable (d.At task Scheduled))
  | .wake task => inferInstanceAs (Decidable (d.At task (Due d.now)))
  | .finish task => inferInstanceAs (Decidable (d.At task fun job => job.phase = .dispatching))
  | .tick dt => inferInstanceAs (Decidable (0 ≤ dt))
  | .submit _ | .updateServers _ | .aclose => .isTrue trivial

/-! ### Cancelled timers -/

variable {d d' : Debouncer} {ks : List (Int × Str)} {key : Int × Str} {t u : Nat}
  {job : Job} {req : ScanRequest} {window : ℚ}

/-- The task is not cancelled and has not fired. -/
def Armed (job : Job) : Prop :=
  job.cancelled = false ∧ (job.phase = .created ∨ (∃ wake, job.phase = .sleeping wake) ∨
    job.phase = .woken)

instance : DecidablePred Armed := fun job =>
  match h : job.phase with
  | .created | .sleeping _ | .woken =>
    decidable_of_iff (job.cancelled = false) (by simp [Armed, h])
  | .dispatching | .ended => .isFalse fun ha => by simp [Armed, h] at ha

/-- The job waits for its dispatch. -/
def Pending (d : Debouncer) (t : Nat) : Prop := d.At t Armed

/-- `d'` is `d` with the timers of `ks` removed and their tasks cancelled. -/
structure Drops (ks : List (Int × Str)) (d d' : Debouncer) : Prop where
  timers : ∀ key, d'.timers.lookup key = if key ∈ ks then none else d.timers.lookup key
  jobs : ∀ t, d'.jobs[t]? =
    if ∃ key ∈ ks, d.timers.lookup key = some t then d.jobs[t]?.map Job.cancel else d.jobs[t]?
  now : d'.now = d.now
  dispatches : d'.dispatches = d.dispatches

theorem getElem?_cancel (d : Debouncer) (u t : Nat) :
    (d.cancel u).jobs[t]? = if u = t then d.jobs[t]?.map Job.cancel else d.jobs[t]? := by
  rw [cancel, List.getElem?_modify]
  split <;> simp

theorem cancel_cancel (o : Option Job) : (o.map Job.cancel).map Job.cancel = o.map Job.cancel := by
  cases o <;> rfl

theorem drops_nil (d : Debouncer) : Drops [] d d where
  timers key := by simp
  jobs t := by simp
  now := rfl
  dispatches := rfl

theorem drops_dropTimer (d : Debouncer) (key : Int × Str) : Drops [key] d (d.dropTimer key) := by
  rw [dropTimer]
  cases h : d.timers.lookup key with
  | none =>
      refine ⟨fun k => ?_, fun t => by simp [h], rfl, rfl⟩
      by_cases e : k = key
      · rw [if_pos (List.mem_singleton.mpr e), e, h]
      · rw [if_neg (mt List.mem_singleton.mp e)]
  | some task =>
      refine ⟨fun k => ?_, fun t => by rw [getElem?_cancel]; simp [h], rfl, rfl⟩
      by_cases e : k = key
      · rw [if_pos (List.mem_singleton.mpr e), e]
        exact AList.lookup_erase key d.timers
      · rw [if_neg (mt List.mem_singleton.mp e)]
        exact AList.lookup_erase_ne e

theorem Drops.trans {k : Int × Str} {d₁ : Debouncer} (h₁ : Drops [k] d d₁) (h₂ : Drops ks d₁ d') :
    Drops (k :: ks) d d' where
  timers key := by
    rw [h₂.timers, h₁.timers]
    by_cases e : key = k
    · simp [e]
    · simp [List.mem_cons, e]
  jobs t := by
    have hjobs : d₁.jobs[t]? =
        if d.timers.lookup k = some t then d.jobs[t]?.map Job.cancel else d.jobs[t]? := by
      simpa only [List.mem_singleton, exists_eq_left] using h₁.jobs t
    have htimers : ∀ key, d₁.timers.lookup key = if key = k then none else d.timers.lookup key := by
      simpa only [List.mem_singleton] using h₁.timers
    rw [h₂.jobs, hjobs]
    simp only [htimers, List.mem_cons, exists_eq_or_imp]
    -- a task hit twice is cancelled twice, which is cancelling it
    by_cases hk : d.timers.lookup k = some t
    · simp only [hk, ↓reduceIte, true_or, cancel_cancel, ite_self]
    · have hiff : (∃ key ∈ ks, (if key = k then none else d.timers.lookup key) = some t) ↔
          ∃ key ∈ ks, d.timers.lookup key = some t := by
        refine exists_congr fun key => and_congr_right fun _ => ?_
        by_cases e : key = k
        · rw [if_pos e, e]
          exact ⟨fun h => absurd h (by simp), fun h => absurd h hk⟩
        · rw [if_neg e]
      simp only [hiff, hk, ↓reduceIte, false_or]
  now := h₂.now.trans h₁.now
  dispatches := h₂.dispatches.trans h₁.dispatches

theorem drops_foldl (d : Debouncer) (ks : List (Int × Str)) : Drops ks d (ks.foldl dropTimer d) := by
  induction ks generalizing d with
  | nil => exact drops_nil d
  | cons k ks ih => exact (drops_dropTimer d k).trans (ih (d.dropTimer k))

theorem drops_updateServers (d : Debouncer) (servers : AList fun _ : Int => ServerRuntime) :
    Drops (d.timers.keys.filter fun key => key.1 ∉ servers) d (d.updateServers servers) := by
  obtain ⟨h₁, h₂, h₃, h₄⟩ := drops_foldl { d with servers := servers }
    (d.timers.keys.filter fun key => key.1 ∉ servers)
  exact ⟨h₁, h₂, h₃, h₄⟩

theorem Drops.dispatching (h : Drops ks d d') (hat : d.At t fun job => job.phase = .dispatching) :
    d'.At t fun job => job.phase = .dispatching := by
  obtain ⟨job, hj, hp⟩ := hat
  rw [Option.mem_def] at hj
  rw [At, h.jobs, hj]
  split
  · exact ⟨job.cancel, rfl, hp⟩
  · exact ⟨job, rfl, hp⟩

theorem foldl_cancel (ts : List Nat) (d : Debouncer) :
    (ts.foldl cancel d).timers = d.timers ∧ (ts.foldl cancel d).now = d.now ∧
      (ts.foldl cancel d).dispatches = d.dispatches ∧
      ∀ t, (ts.foldl cancel d).jobs[t]? =
        if t ∈ ts then d.jobs[t]?.map Job.cancel else d.jobs[t]? := by
  induction ts generalizing d with
  | nil => exact ⟨rfl, rfl, rfl, fun t => by simp⟩
  | cons u ts ih =>
      obtain ⟨h₁, h₂, h₃, h₄⟩ := ih (d.cancel u)
      refine ⟨h₁, h₂, h₃, fun t => ?_⟩
      rw [List.foldl_cons, h₄, getElem?_cancel]
      by_cases e : u = t
      · rw [if_pos e, if_pos (List.mem_cons.mpr (.inl e.symm)), cancel_cancel, ite_self]
      · simp [e, Ne.symm e]

theorem drops_aclose (d : Debouncer) : Drops d.timers.keys d d.aclose := by
  obtain ⟨h₁, h₂, h₃, h₄⟩ :=
    foldl_cancel (d.timers.entries.map fun entry => entry.2) { d with timers := ∅ }
  refine ⟨fun key => ?_, fun t => ?_, h₂, h₃⟩
  · rw [aclose, h₁, AList.lookup_empty]
    by_cases hk : key ∈ d.timers.keys
    · rw [if_pos hk]
    · rw [if_neg hk, AList.lookup_eq_none.mpr (mt AList.mem_keys.mp hk)]
  · have hiff : t ∈ d.timers.entries.map (fun entry => entry.2) ↔
        ∃ key ∈ d.timers.keys, d.timers.lookup key = some t := by
      simp only [List.mem_map]
      constructor
      · rintro ⟨⟨key, u⟩, he, rfl⟩
        have hl := AList.mem_lookup_iff.mpr he
        exact ⟨key, AList.mem_keys.mp (AList.lookup_isSome.mp (by rw [hl]; rfl)), hl⟩
      · rintro ⟨key, -, hl⟩
        exact ⟨⟨key, t⟩, AList.mem_lookup_iff.mp hl, rfl⟩
    rw [aclose, h₄]
    simp only [hiff]

/-! ### The invariant -/

/-- A task that waits has a window, and its sleep is in order at `now`. -/
def OnTime (now : ℚ) (job : Job) : Prop :=
  match job.phase with
  | .created => job.window.isSome ∧ job.submitted ≤ now
  | .sleeping wake => ∃ window, job.window = some window ∧ job.submitted + window ≤ wake
  | .woken => ∃ window, job.window = some window ∧ job.submitted + window ≤ now
  | .dispatching | .ended => True

structure Good (d : Debouncer) : Prop where
  /-- The stored timers are the armed tasks, each under its key. -/
  stored : ∀ key t, d.timers.lookup key = some t ↔ d.At t fun job => job.req.key = key ∧ Armed job
  once : (d.dispatches.map Prod.fst).Nodup
  /-- What has been dispatched is not armed, and was not dispatched early. -/
  fired : ∀ e ∈ d.dispatches, d.At e.1 fun job =>
    ¬ Armed job ∧ ∀ window ∈ job.window, job.submitted + window ≤ e.2
  timely : ∀ (t : Nat) (job : Job), d.jobs[t]? = some job → OnTime d.now job

theorem good_init (servers : AList fun _ : Int => ServerRuntime) : Good (init servers) where
  stored key t := by
    refine iff_of_false (fun h => ?_) fun ⟨job, hj, _⟩ => by cases hj
    rw [init, AList.lookup_empty] at h
    cases h
  once := List.nodup_nil
  fired e he := by cases he
  timely t job hj := by cases hj

theorem not_armed_cancel (job : Job) : ¬ Armed job.cancel := fun h => by cases h.1

/-- An armed task is stored. -/
theorem Good.lookup (h : Good d) (hj : d.jobs[t]? = some job) (ha : Armed job) :
    d.timers.lookup job.req.key = some t :=
  (h.stored _ t).mpr ⟨job, hj, rfl, ha⟩

/-- A pending job has not been dispatched. -/
theorem Good.not_mem (h : Good d) (hp : d.Pending t) : t ∉ d.dispatches.map Prod.fst := by
  intro hmem
  obtain ⟨e, he, rfl⟩ := List.mem_map.mp hmem
  obtain ⟨job, hj, hna, -⟩ := h.fired e he
  obtain ⟨job', hj', ha⟩ := hp
  rw [hj] at hj'
  cases hj'
  exact hna ha

/-- A job after timers were dropped. -/
theorem Drops.getJob (h : Drops ks d d') (hj : d'.jobs[t]? = some job) :
    d.jobs[t]? = some job ∧ (∀ key ∈ ks, d.timers.lookup key ≠ some t) ∨
      (∃ key ∈ ks, d.timers.lookup key = some t) ∧
        ∃ job₀, d.jobs[t]? = some job₀ ∧ job = job₀.cancel := by
  rw [h.jobs] at hj
  split at hj
  · rename_i hit
    obtain ⟨job₀, h₀, rfl⟩ := Option.map_eq_some_iff.mp hj
    exact .inr ⟨hit, job₀, h₀, rfl⟩
  · rename_i hit
    exact .inl ⟨hj, fun key hk hl => hit ⟨key, hk, hl⟩⟩

/-- Dropping timers keeps the invariant. -/
theorem Good.drops (hd : Good d) (h : Drops ks d d') : Good d' where
  stored key t := by
    rw [h.timers]
    constructor
    · intro hl
      split at hl
      · cases hl
      · rename_i hk
        obtain ⟨job, hj, rfl, ha⟩ := (hd.stored key t).mp hl
        refine ⟨job, ?_, rfl, ha⟩
        rw [Option.mem_def, h.jobs, if_neg, hj]
        rintro ⟨key', hk', hl'⟩
        obtain ⟨job', hj', rfl, -⟩ := (hd.stored key' t).mp hl'
        rw [hj] at hj'
        cases hj'
        exact hk hk'
    · rintro ⟨job, hj, rfl, ha⟩
      rcases h.getJob hj with ⟨hj₀, hout⟩ | ⟨-, job₀, -, rfl⟩
      · have hl := hd.lookup hj₀ ha
        rw [if_neg fun hk => hout _ hk hl, hl]
      · exact absurd ha (not_armed_cancel job₀)
  once := by
    rw [h.dispatches]
    exact hd.once
  fired e he := by
    rw [h.dispatches] at he
    obtain ⟨job, hj, hna, hw⟩ := hd.fired e he
    by_cases hit : ∃ key ∈ ks, d.timers.lookup key = some e.1
    · exact ⟨job.cancel, by rw [Option.mem_def, h.jobs, if_pos hit, hj]; rfl, not_armed_cancel job, hw⟩
    · exact ⟨job, by rw [Option.mem_def, h.jobs, if_neg hit, hj], hna, hw⟩
  timely t job hj := by
    rw [h.now]
    rcases h.getJob hj with ⟨hj₀, -⟩ | ⟨-, job₀, hj₀, rfl⟩
    · exact hd.timely t job hj₀
    · exact hd.timely t job₀ hj₀

/-- A pending job whose key is not dropped stays as it is. -/
theorem Good.drops_other (hd : Good d) (h : Drops ks d d') (hj : d.jobs[t]? = some job)
    (hk : job.req.key ∉ ks) : d'.jobs[t]? = some job := by
  rw [h.jobs, if_neg, hj]
  rintro ⟨key, hkey, hl⟩
  obtain ⟨job', hj', rfl, -⟩ := (hd.stored key t).mp hl
  rw [hj] at hj'
  cases hj'
  exact hk hkey

/-! ### A step of one task -/

theorem getElem?_setPhase (d : Debouncer) (u t : Nat) (phase : Phase) :
    (d.setPhase u phase).jobs[t]? =
      if u = t then d.jobs[t]?.map fun job => { job with phase := phase } else d.jobs[t]? := by
  rw [setPhase, List.getElem?_modify]
  split <;> simp

/-- A step that leaves the task as armed as it was, and on time. -/
theorem Good.setPhase (hd : Good d) {phase : Phase} (hj : d.jobs[u]? = some job)
    (ha : Armed { job with phase := phase } ↔ Armed job)
    (ht : OnTime d.now { job with phase := phase }) : Good (d.setPhase u phase) where
  stored key t := by
    refine (hd.stored key t).trans ?_
    rw [At, At, getElem?_setPhase]
    by_cases e : u = t
    · subst e
      simp [hj, ha]
    · rw [if_neg e]
  once := hd.once
  fired e he := by
    obtain ⟨job', hj', hna, hw⟩ := hd.fired e he
    by_cases e' : u = e.1
    · rw [Option.mem_def, ← e', hj] at hj'
      cases hj'
      exact ⟨{ job with phase := phase }, by simp [getElem?_setPhase, ← e', hj], mt ha.mp hna, hw⟩
    · exact ⟨job', by rw [Option.mem_def, getElem?_setPhase, if_neg e', hj'], hna, hw⟩
  timely t job' hj' := by
    rw [getElem?_setPhase] at hj'
    by_cases e : u = t
    · subst e
      rw [if_pos rfl, hj] at hj'
      cases hj'
      exact ht
    · rw [if_neg e] at hj'
      exact hd.timely t job' hj'

/-- The task passes its sleep as the stored timer of its key, and is dispatched. -/
theorem Good.fire (hd : Good d) (hj : d.jobs[u]? = some job) (ha : Armed job)
    (hw : ∀ window ∈ job.window, job.submitted + window ≤ d.now) :
    Good ({ d with
      timers := d.timers.erase job.req.key
      dispatches := d.dispatches ++ [(u, d.now)] }.setPhase u .dispatching) where
  stored key t := by
    show (d.timers.erase job.req.key).lookup key = some t ↔ _
    rw [At, getElem?_setPhase]
    by_cases e : u = t
    · subst e
      refine iff_of_false (fun hl => ?_) fun ⟨job', hj', _, ha'⟩ => ?_
      · -- the only key that stores the task is the one just deleted
        by_cases ek : key = job.req.key
        · rw [ek, AList.lookup_erase] at hl
          cases hl
        · rw [AList.lookup_erase_ne ek] at hl
          obtain ⟨job', hj', hk, -⟩ := (hd.stored key u).mp hl
          rw [Option.mem_def, hj] at hj'
          cases hj'
          exact ek hk.symm
      · rw [if_pos rfl, hj] at hj'
        cases hj'
        exact absurd ha'.2 (by simp)
    · rw [if_neg e]
      by_cases ek : key = job.req.key
      · rw [ek, AList.lookup_erase]
        refine iff_of_false (by simp) fun ⟨job', hj', hk, ha'⟩ => ?_
        have hl := hd.lookup hj' ha'
        rw [hk, hd.lookup hj ha] at hl
        cases hl
        exact e rfl
      · rw [AList.lookup_erase_ne ek]
        exact hd.stored key t
  once := by
    show ((d.dispatches ++ [(u, d.now)]).map Prod.fst).Nodup
    rw [List.map_append, List.nodup_append]
    refine ⟨hd.once, List.nodup_singleton _, fun t ht t' ht' => ?_⟩
    obtain rfl := List.mem_singleton.mp ht'
    rintro rfl
    exact hd.not_mem ⟨job, hj, ha⟩ ht
  fired e he := by
    rcases List.mem_append.mp he with he | he
    · obtain ⟨job', hj', hna, hw'⟩ := hd.fired e he
      refine ⟨job', ?_, hna, hw'⟩
      rw [Option.mem_def, getElem?_setPhase, if_neg, hj']
      intro e'
      rw [Option.mem_def, ← e', hj] at hj'
      cases hj'
      exact hna ha
    · rw [List.mem_singleton] at he
      subst he
      exact ⟨{ job with phase := .dispatching }, by simp [getElem?_setPhase, hj],
        fun h => by simp [Armed] at h, hw⟩
  timely t job' hj' := by
    rw [getElem?_setPhase] at hj'
    by_cases e : u = t
    · subst e
      rw [if_pos rfl, hj] at hj'
      cases hj'
      exact trivial
    · rw [if_neg e] at hj'
      exact hd.timely t job' hj'

/-! ### A new job -/

theorem getElem?_concat {jobs : List Job} {new : Job} :
    (jobs ++ [new])[t]? = some job ↔ jobs[t]? = some job ∨ t = jobs.length ∧ new = job := by
  rcases lt_trichotomy t jobs.length with h | h | h
  · rw [List.getElem?_append_left h]
    exact ⟨.inl, fun h' => h'.resolve_right fun e => h.ne e.1⟩
  · subst h
    simp
  · rw [List.getElem?_eq_none (by simp; omega), List.getElem?_eq_none h.le]
    simp [h.ne']

theorem lt_of_getElem? (hj : d.jobs[t]? = some job) : t < d.jobs.length :=
  (List.getElem?_eq_some_iff.mp hj).1

/-- What has been dispatched is a job. -/
theorem Good.lt (hd : Good d) (h : t ∈ d.dispatches.map Prod.fst) : t < d.jobs.length := by
  obtain ⟨e, he, rfl⟩ := List.mem_map.mp h
  obtain ⟨job, hj, -⟩ := hd.fired e he
  exact lt_of_getElem? hj

theorem Good.dispatchNow (hd : Good d) (req : ScanRequest) : Good (d.dispatchNow req) where
  stored key t := by
    refine (hd.stored key t).trans (exists_congr fun job => ?_)
    simp only [Option.mem_def, Debouncer.dispatchNow, getElem?_concat]
    refine ⟨fun h => ⟨.inl h.1, h.2⟩, fun ⟨hj, hk, ha⟩ => ⟨hj.resolve_right ?_, hk, ha⟩⟩
    rintro ⟨-, rfl⟩
    exact absurd ha.2 (by simp)
  once := by
    show ((d.dispatches ++ [(d.jobs.length, d.now)]).map Prod.fst).Nodup
    rw [List.map_append, List.nodup_append]
    refine ⟨hd.once, List.nodup_singleton _, fun t ht t' ht' => ?_⟩
    rw [List.map_singleton, List.mem_singleton] at ht'
    rintro rfl
    exact absurd (hd.lt ht) (by simp [ht'])
  fired e he := by
    rcases List.mem_append.mp he with he | he
    · obtain ⟨job, hj, hf⟩ := hd.fired e he
      exact ⟨job, getElem?_concat.mpr (.inl hj), hf⟩
    · rw [List.mem_singleton] at he
      subst he
      exact ⟨_, getElem?_concat.mpr (.inr ⟨rfl, rfl⟩), fun h => absurd h.2 (by simp), by simp⟩
  timely t job hj := by
    rcases getElem?_concat.mp hj with hj | ⟨-, rfl⟩
    · exact hd.timely t job hj
    · exact trivial

theorem Good.arm (hd : Good d) (hfree : d.timers.lookup req.key = none) (window : ℚ) :
    Good (d.arm req window) where
  stored key t := by
    have hnew : Armed ⟨req, d.now, some window, .created, false⟩ := ⟨rfl, .inl rfl⟩
    show (d.timers.insert req.key d.jobs.length).lookup key = some t ↔
      ∃ job ∈ (d.jobs ++ [⟨req, d.now, some window, .created, false⟩])[t]?, _
    simp only [Option.mem_def, getElem?_concat]
    by_cases e : key = req.key
    · subst e
      rw [AList.lookup_insert]
      constructor
      · rintro h
        cases h
        exact ⟨_, .inr ⟨rfl, rfl⟩, rfl, hnew⟩
      · rintro ⟨job, hj | ⟨rfl, -⟩, hk, ha⟩
        · have hl := hd.lookup hj ha
          rw [hk, hfree] at hl
          cases hl
        · rfl
    · rw [AList.lookup_insert_ne e]
      refine (hd.stored key t).trans (exists_congr fun job => ?_)
      refine ⟨fun h => ⟨.inl h.1, h.2⟩, fun ⟨hj, hk, ha⟩ => ⟨hj.resolve_right ?_, hk, ha⟩⟩
      rintro ⟨-, rfl⟩
      exact e hk.symm
  once := hd.once
  fired e he := by
    obtain ⟨job, hj, hf⟩ := hd.fired e he
    exact ⟨job, getElem?_concat.mpr (.inl hj), hf⟩
  timely t job hj := by
    rcases getElem?_concat.mp hj with hj | ⟨-, rfl⟩
    · exact hd.timely t job hj
    · exact ⟨rfl, le_rfl⟩

/-- Arming a key is dropping its timer and arming it afresh. -/
theorem submit_of_some (d : Debouncer) (h : windowOf d.servers req.serverId = some window) :
    d.submit req = (d.dropTimer req.key).arm req window := by
  rw [submit, h, dropTimer]
  cases hl : d.timers.lookup req.key with
  | none => rfl
  | some pending =>
      have hins : ∀ n, (d.timers.erase req.key).insert req.key n = d.timers.insert req.key n :=
        fun n => AList.ext (by
          have hfree := List.notMem_keys_kerase req.key d.timers.nodupKeys
          exact congrArg (List.cons ⟨req.key, n⟩) (List.kerase_of_notMem_keys hfree))
      simp [arm, cancel, hins]

theorem submit_of_none (d : Debouncer) (h : windowOf d.servers req.serverId = none) :
    d.submit req = d.dispatchNow req := by
  rw [submit, h]

@[simp] theorem next_submit (d : Debouncer) (req : ScanRequest) :
    machine.next d (.submit req) = d.submit req := rfl

theorem Good.dropTimer (hd : Good d) (key : Int × Str) : Good (d.dropTimer key) :=
  hd.drops (drops_dropTimer d key)

theorem lookup_dropTimer (d : Debouncer) (key : Int × Str) :
    (d.dropTimer key).timers.lookup key = none := by
  rw [(drops_dropTimer d key).timers, if_pos (List.mem_singleton.mpr rfl)]

theorem Good.submit (hd : Good d) (req : ScanRequest) : Good (d.submit req) := by
  cases h : windowOf d.servers req.serverId with
  | none =>
      rw [submit_of_none d h]
      exact hd.dispatchNow req
  | some window =>
      rw [submit_of_some d h]
      exact (hd.dropTimer req.key).arm (lookup_dropTimer d req.key) window

/-! ### Every step -/

theorem Good.fireAfter (hd : Good d) (hj : d.jobs[u]? = some job) (ha : Armed job)
    (hw : job.phase = .woken) : Good (d.fireAfter u job) := by
  rw [Debouncer.fireAfter, if_pos (hd.lookup hj ha)]
  refine hd.fire hj ha fun window hwin => ?_
  have ht := hd.timely u job hj
  rw [OnTime, hw] at ht
  obtain ⟨window', hwin', hle⟩ := ht
  cases hwin.symm.trans hwin'
  exact hle

/-- What a step of a scheduled task can be. -/
theorem run_cases (hj : d.jobs[u]? = some job) (hs : Scheduled job) :
    (job.cancelled = true ∧ d.run u = d.setPhase u .ended) ∨
    (job.cancelled = false ∧ job.phase = .created ∧
      ((job.window = none ∧ d.run u = d) ∨
        ∃ window, job.window = some window ∧
          d.run u = d.setPhase u (.sleeping (d.now + window)))) ∨
    (job.cancelled = false ∧ job.phase = .woken ∧ d.run u = d.fireAfter u job) := by
  rw [run, hj]
  cases hc : job.cancelled with
  | true => exact .inl ⟨rfl, by simp [hc]⟩
  | false =>
      rcases hs with hp | hp | ⟨hc', -⟩
      · cases hw : job.window with
        | none => exact .inr (.inl ⟨rfl, hp, .inl ⟨rfl, by simp [hc, hp, hw]⟩⟩)
        | some window => exact .inr (.inl ⟨rfl, hp, .inr ⟨window, rfl, by simp [hc, hp, hw]⟩⟩)
      · exact .inr (.inr ⟨rfl, hp, by simp [hc, hp]⟩)
      · rw [hc] at hc'
        cases hc'

theorem Good.run (hd : Good d) (hj : d.jobs[u]? = some job) (hs : Scheduled job) :
    Good (d.run u) := by
  rcases run_cases hj hs with ⟨hc, e⟩ | ⟨hc, hp, ⟨-, e⟩ | ⟨window, hw, e⟩⟩ | ⟨hc, hp, e⟩
  · rw [e]
    exact hd.setPhase hj (by simp [Armed, hc]) trivial
  · rwa [e]
  · rw [e]
    refine hd.setPhase hj (by simp [Armed, hp]) ⟨window, hw, ?_⟩
    have ht := hd.timely u job hj
    rw [OnTime, hp] at ht
    exact add_le_add_left ht.2 window
  · rw [e]
    exact hd.fireAfter hj ⟨hc, .inr (.inr hp)⟩ hp

theorem Good.tick (hd : Good d) {dt : ℚ} (hdt : 0 ≤ dt) : Good { d with now := d.now + dt } where
  stored := hd.stored
  once := hd.once
  fired := hd.fired
  timely t job hj := by
    have ht := hd.timely t job hj
    have hnow : d.now ≤ d.now + dt := le_add_of_nonneg_right hdt
    rw [OnTime] at ht ⊢
    cases hp : job.phase with
    | created =>
        rw [hp] at ht
        exact ⟨ht.1, ht.2.trans hnow⟩
    | sleeping wake => rwa [hp] at ht
    | woken =>
        rw [hp] at ht
        obtain ⟨window, hw, hle⟩ := ht
        exact ⟨window, hw, hle.trans hnow⟩
    | dispatching => trivial
    | ended => trivial

theorem Good.next (hd : Good d) {act : Act} (hen : machine.enabled d act) :
    Good (machine.next d act) := by
  cases act with
  | submit req => exact hd.submit req
  | run task =>
      obtain ⟨job, hj, hs⟩ := hen
      exact hd.run hj hs
  | wake task =>
      obtain ⟨job, hj, hc, wake, hw, hp⟩ := hen
      have ht := hd.timely task job hj
      rw [OnTime, hp] at ht
      obtain ⟨window, hwin, hle⟩ := ht
      exact hd.setPhase hj (by simp [Armed, hp]) ⟨window, hwin, hle.trans hw⟩
  | finish task =>
      obtain ⟨job, hj, hp⟩ := hen
      exact hd.setPhase hj (by simp [Armed, hp]) trivial
  | tick dt => exact hd.tick hen
  | updateServers servers => exact hd.drops (drops_updateServers d servers)
  | aclose => exact hd.drops (drops_aclose d)

theorem good_run {servers : AList fun _ : Int => ServerRuntime} {G : Debouncer → Act → Prop}
    {l : List Act} (h : Lts.Run machine G (init servers) l d) : Good d :=
  h.invariant (good_init servers) fun _ _ hd hen _ => hd.next hen

/-! ### What a step is -/

/-- The outcomes of a step. -/
inductive Outcome (d : Debouncer) : Act → Debouncer → Prop where
  | dispatched {req : ScanRequest} (h : windowOf d.servers req.serverId = none) :
      Outcome d (.submit req) (d.dispatchNow req)
  | armed {req : ScanRequest} {window : ℚ} (h : windowOf d.servers req.serverId = some window) :
      Outcome d (.submit req) ((d.dropTimer req.key).arm req window)
  /-- A task goes on, and starts no dispatch. -/
  | moved {act : Act} {u : Nat} {job : Job} {phase : Phase} (hact : OfLoop act)
      (hj : d.jobs[u]? = some job) (hp : phase ≠ .dispatching)
      (ha : Armed { job with phase := phase } → Armed job) : Outcome d act (d.setPhase u phase)
  | fired {act : Act} {u : Nat} {job : Job} (hact : OfLoop act) (hj : d.jobs[u]? = some job)
      (ha : Armed job) :
      Outcome d act
        ({ d with
          timers := d.timers.erase job.req.key
          dispatches := d.dispatches ++ [(u, d.now)] }.setPhase u .dispatching)
  | stayed {act : Act} (hact : OfLoop act) (now : ℚ) : Outcome d act { d with now := now }
  | dropped {act : Act} {ks : List (Int × Str)} {d' : Debouncer}
      (hact : ∀ req, act ≠ .submit req) (h : Drops ks d d') : Outcome d act d'

theorem not_armed_ended (job : Job) : ¬ Armed { job with phase := .ended } := fun h => by
  rcases h.2 with h | ⟨_, h⟩ | h <;> cases h

theorem outcome {act : Act} (hen : machine.enabled d act) :
    Outcome d act (machine.next d act) := by
  cases act with
  | submit req =>
      rw [next_submit]
      cases hw : windowOf d.servers req.serverId with
      | none =>
          rw [submit_of_none d hw]
          exact .dispatched hw
      | some window =>
          rw [submit_of_some d hw]
          exact .armed hw
  | run task =>
      obtain ⟨job, hj, hs⟩ := hen
      show Outcome d (.run task) (d.run task)
      rcases run_cases hj hs with ⟨-, e⟩ | ⟨hc, hp, ⟨-, e⟩ | ⟨window, -, e⟩⟩ | ⟨hc, hp, e⟩
      · rw [e]
        exact .moved trivial hj nofun fun h => absurd h (not_armed_ended job)
      · rw [e]
        exact .stayed (show OfLoop (.run task) from trivial) d.now
      · rw [e]
        exact .moved trivial hj nofun fun _ => ⟨hc, .inl hp⟩
      · rw [e, fireAfter]
        split
        · exact .fired trivial hj ⟨hc, .inr (.inr hp)⟩
        · exact .moved trivial hj nofun fun h => absurd h (not_armed_ended job)
  | wake task =>
      obtain ⟨job, hj, hc, wake, -, hp⟩ := hen
      exact .moved trivial hj nofun fun _ => ⟨hc, .inr (.inl ⟨wake, hp⟩)⟩
  | finish task =>
      obtain ⟨job, hj, hp⟩ := hen
      exact .moved trivial hj nofun fun h => absurd h (not_armed_ended job)
  | tick dt => exact .stayed (show OfLoop (.tick dt) from trivial) _
  | updateServers servers => exact .dropped nofun (drops_updateServers d servers)
  | aclose => exact .dropped nofun (drops_aclose d)

theorem length_dropTimer (d : Debouncer) (key : Int × Str) :
    (d.dropTimer key).jobs.length = d.jobs.length := by
  rw [dropTimer]
  cases d.timers.lookup key with
  | none => rfl
  | some task => exact List.length_modify _ _ _

theorem Drops.length (h : Drops ks d d') : d'.jobs.length = d.jobs.length := by
  have hiff : ∀ t, d'.jobs[t]? = none ↔ d.jobs[t]? = none := fun t => by
    rw [h.jobs]
    split
    · exact Option.map_eq_none_iff
    · rfl
  have h₁ := List.getElem?_eq_none_iff.mp ((hiff _).mp (List.getElem?_length (l := d'.jobs)))
  have h₂ := List.getElem?_eq_none_iff.mp ((hiff _).mpr (List.getElem?_length (l := d.jobs)))
  omega

/-- A submission is one job more, and nothing else is. -/
theorem Outcome.length {act : Act} (h : Outcome d act d') :
    (∃ req, act = .submit req) ∧ d'.jobs.length = d.jobs.length + 1 ∨
      (∀ req, act ≠ .submit req) ∧ d'.jobs.length = d.jobs.length := by
  have hloop : ∀ {act : Act}, OfLoop act → ∀ req, act ≠ .submit req := fun hact req e => by
    rw [e] at hact
    exact hact
  cases h with
  | dispatched hw => exact .inl ⟨⟨_, rfl⟩, List.length_append⟩
  | @armed req window hw =>
      refine .inl ⟨⟨_, rfl⟩, ?_⟩
      rw [← length_dropTimer d req.key]
      exact List.length_append
  | moved hact hj hp ha => exact .inr ⟨hloop hact, List.length_modify ..⟩
  | fired hact hj ha => exact .inr ⟨hloop hact, List.length_modify ..⟩
  | stayed hact now => exact .inr ⟨hloop hact, rfl⟩
  | dropped hact h => exact .inr ⟨hact, h.length⟩

/-- The dispatches a step starts. -/
def started (d d' : Debouncer) : List (Nat × ℚ) := d'.dispatches.drop d.dispatches.length

theorem started_of_eq (h : d'.dispatches = d.dispatches) : d.started d' = [] := by
  rw [started, h, List.drop_length]

theorem started_of_append {e : Nat × ℚ} (h : d'.dispatches = d.dispatches ++ [e]) :
    d.started d' = [e] := by
  rw [started, h, List.drop_left]

/-- What a step starts was pending, or is what it submits. -/
theorem Outcome.of_started {act : Act} (h : Outcome d act d') {e : Nat × ℚ}
    (he : e ∈ d.started d') :
    d.Pending e.1 ∧ OfLoop act ∨ e.1 = d.jobs.length ∧ ∃ req, act = .submit req := by
  cases h with
  | @dispatched req hw =>
      rw [started_of_append rfl] at he
      cases List.mem_singleton.mp he
      exact .inr ⟨rfl, req, rfl⟩
  | @armed req window hw =>
      have hsame : ((d.dropTimer req.key).arm req window).dispatches = d.dispatches :=
        (drops_dropTimer d req.key).dispatches
      rw [started_of_eq hsame] at he
      cases he
  | @fired act u job hact hj ha =>
      rw [started_of_append rfl] at he
      cases List.mem_singleton.mp he
      exact .inl ⟨⟨job, hj, ha⟩, hact⟩
  | @moved act u job phase hact hj hp ha =>
      have hsame : (d.setPhase u phase).dispatches = d.dispatches := rfl
      rw [started_of_eq hsame] at he
      cases he
  | stayed hact now =>
      have hsame : ({ d with now := now } : Debouncer).dispatches = d.dispatches := rfl
      rw [started_of_eq hsame] at he
      cases he
  | dropped hact h =>
      rw [started_of_eq h.dispatches] at he
      cases he

/-- A phase that is set, and what was there before. -/
theorem getJob_setPhase {phase : Phase} (hj : (d.setPhase u phase).jobs[t]? = some job) :
    d.jobs[t]? = some job ∧ u ≠ t ∨
      u = t ∧ ∃ job₀, d.jobs[t]? = some job₀ ∧ job = { job₀ with phase := phase } := by
  rw [getElem?_setPhase] at hj
  split at hj
  · rename_i e
    obtain ⟨job₀, hj₀, rfl⟩ := Option.map_eq_some_iff.mp hj
    exact .inr ⟨e, job₀, hj₀, rfl⟩
  · rename_i e
    exact .inl ⟨hj, e⟩

/-- A job that is armed was armed, or has just been submitted. -/
theorem Outcome.of_armed {act : Act} (h : Outcome d act d') (hj : d'.jobs[t]? = some job)
    (ha : Armed job) :
    (∃ job₀, d.jobs[t]? = some job₀ ∧ Armed job₀ ∧ job.req = job₀.req) ∨
      t = d.jobs.length ∧ act = .submit job.req := by
  have hdrops : ∀ {ks : List (Int × Str)} {d' : Debouncer}, Drops ks d d' →
      d'.jobs[t]? = some job → ∃ job₀, d.jobs[t]? = some job₀ ∧ Armed job₀ ∧ job.req = job₀.req :=
    fun h hj => by
      rcases h.getJob hj with ⟨hj₀, -⟩ | ⟨-, job₀, hj₀, rfl⟩
      · exact ⟨job, hj₀, ha, rfl⟩
      · exact absurd ha (not_armed_cancel job₀)
  cases h with
  | @dispatched req hw =>
      rcases getElem?_concat.mp hj with hj | ⟨rfl, rfl⟩
      · exact .inl ⟨job, hj, ha, rfl⟩
      · exact .inr ⟨rfl, rfl⟩
  | @armed req window hw =>
      rcases getElem?_concat.mp hj with hj | ⟨rfl, rfl⟩
      · exact .inl (hdrops (drops_dropTimer d req.key) hj)
      · exact .inr ⟨length_dropTimer d req.key, rfl⟩
  | moved hact hj₁ hp hback =>
      refine .inl ?_
      rcases getJob_setPhase hj with ⟨hj₀, -⟩ | ⟨rfl, job₀, hj₀, rfl⟩
      · exact ⟨job, hj₀, ha, rfl⟩
      · cases hj₁.symm.trans hj₀
        exact ⟨_, hj₀, hback ha, rfl⟩
  | fired hact hj₁ ha₁ =>
      refine .inl ?_
      rcases getJob_setPhase hj with ⟨hj₀, -⟩ | ⟨rfl, job₀, hj₀, rfl⟩
      · exact ⟨job, hj₀, ha, rfl⟩
      · cases hj₁.symm.trans hj₀
        exact ⟨_, hj₀, ha₁, rfl⟩
  | stayed hact now => exact .inl ⟨job, hj, ha, rfl⟩
  | dropped hact h => exact .inl (hdrops h hj)

/-- A dispatch in progress was so, or the step starts it. -/
theorem Outcome.of_dispatching {act : Act} (h : Outcome d act d') (hj : d'.jobs[t]? = some job)
    (hp : job.phase = .dispatching) :
    (d.At t fun job => job.phase = .dispatching) ∨ ∃ e ∈ d.started d', e.1 = t := by
  have hdrops : ∀ {ks : List (Int × Str)} {d' : Debouncer}, Drops ks d d' →
      d'.jobs[t]? = some job → d.At t fun job => job.phase = .dispatching := fun h hj => by
    rcases h.getJob hj with ⟨hj₀, -⟩ | ⟨-, job₀, hj₀, rfl⟩
    · exact ⟨job, hj₀, hp⟩
    · exact ⟨job₀, hj₀, hp⟩
  cases h with
  | @dispatched req hw =>
      rcases getElem?_concat.mp hj with hj | ⟨rfl, rfl⟩
      · exact .inl ⟨job, hj, hp⟩
      · exact .inr ⟨(d.jobs.length, d.now), by rw [started_of_append rfl]; simp, rfl⟩
  | @armed req window hw =>
      rcases getElem?_concat.mp hj with hj | ⟨rfl, rfl⟩
      · exact .inl (hdrops (drops_dropTimer d req.key) hj)
      · cases hp
  | moved hact hj₁ hp₁ hback =>
      rcases getJob_setPhase hj with ⟨hj₀, -⟩ | ⟨rfl, job₀, hj₀, rfl⟩
      · exact .inl ⟨job, hj₀, hp⟩
      · exact absurd hp hp₁
  | @fired act u job₁ hact hj₁ ha₁ =>
      rcases getJob_setPhase hj with ⟨hj₀, -⟩ | ⟨rfl, job₀, hj₀, rfl⟩
      · exact .inl ⟨job, hj₀, hp⟩
      · exact .inr ⟨(u, d.now), by rw [started_of_append rfl]; simp, rfl⟩
  | stayed hact now => exact .inl ⟨job, hj, hp⟩
  | dropped hact h => exact .inl (hdrops h hj)

/-- The step cuts off a request that waits for its dispatch. -/
def Displaces (d : Debouncer) (waiting : ScanRequest) : Act → Prop
  | .submit req => req.key = waiting.key ∧ (windowOf d.servers req.serverId).isSome
  | .updateServers servers => waiting.serverId ∉ servers
  | .aclose => True
  | .run _ | .wake _ | .finish _ | .tick _ => False

/-- The same submission, at another point of its life. -/
structure Same (job job' : Job) : Prop where
  req : job'.req = job.req
  submitted : job'.submitted = job.submitted
  window : job'.window = job.window

theorem same_setPhase {phase : Phase} (hj : (d.setPhase u phase).jobs[t]? = some job) :
    ∃ job₀, d.jobs[t]? = some job₀ ∧ Same job₀ job := by
  rw [getElem?_setPhase] at hj
  split at hj
  · obtain ⟨job₀, hj₀, rfl⟩ := Option.map_eq_some_iff.mp hj
    exact ⟨job₀, hj₀, rfl, rfl, rfl⟩
  · exact ⟨job, hj, rfl, rfl, rfl⟩

theorem Drops.same (h : Drops ks d d') (hj : d'.jobs[t]? = some job) :
    ∃ job₀, d.jobs[t]? = some job₀ ∧ Same job₀ job := by
  rcases h.getJob hj with ⟨hj₀, -⟩ | ⟨-, job₀, hj₀, rfl⟩
  · exact ⟨job, hj₀, rfl, rfl, rfl⟩
  · exact ⟨job₀, hj₀, rfl, rfl, rfl⟩

/-- A job after a step was there before it, or is the one the step submits. -/
theorem getJob_next {act : Act} (hen : machine.enabled d act)
    (hj : (machine.next d act).jobs[t]? = some job) :
    (∃ job₀, d.jobs[t]? = some job₀ ∧ Same job₀ job) ∨
      act = .submit job.req ∧ t = d.jobs.length ∧ job.submitted = d.now ∧
        job.window = windowOf d.servers job.req.serverId ∧
        (job.window.isSome → Armed job) := by
  have h := outcome hen
  generalize machine.next d act = d' at h hj
  cases h with
  | dispatched hw =>
      rcases getElem?_concat.mp hj with hj | ⟨rfl, rfl⟩
      · exact .inl ⟨job, hj, rfl, rfl, rfl⟩
      · exact .inr ⟨rfl, rfl, rfl, hw.symm, fun h => by cases h⟩
  | @armed req window hw =>
      rcases getElem?_concat.mp hj with hj | ⟨rfl, rfl⟩
      · exact .inl ((drops_dropTimer d req.key).same hj)
      · exact .inr ⟨rfl, length_dropTimer d req.key, (drops_dropTimer d req.key).now, hw.symm,
          fun _ => ⟨rfl, .inl rfl⟩⟩
  | moved hact hj₀ hp ha => exact .inl (same_setPhase hj)
  | fired hact hj₀ ha => exact .inl (same_setPhase (d := { d with timers := _, dispatches := _ }) hj)
  | stayed hact now => exact .inl ⟨job, hj, rfl, rfl, rfl⟩
  | dropped hact h => exact .inl (h.same hj)

theorem Same.refl (job : Job) : Same job job := ⟨rfl, rfl, rfl⟩

theorem kept_setPhase (u : Nat) (phase : Phase) (hj : d.jobs[t]? = some job) :
    ∃ job', (d.setPhase u phase).jobs[t]? = some job' ∧ Same job job' := by
  rw [getElem?_setPhase, hj]
  split
  · exact ⟨_, rfl, rfl, rfl, rfl⟩
  · exact ⟨job, rfl, .refl job⟩

theorem Drops.kept (h : Drops ks d d') (hj : d.jobs[t]? = some job) :
    ∃ job', d'.jobs[t]? = some job' ∧ Same job job' := by
  rw [h.jobs, hj]
  split
  · exact ⟨_, rfl, rfl, rfl, rfl⟩
  · exact ⟨job, rfl, .refl job⟩

/-- A job stays, as the same submission. -/
theorem kept_next {act : Act} (hen : machine.enabled d act) (hj : d.jobs[t]? = some job) :
    ∃ job', (machine.next d act).jobs[t]? = some job' ∧ Same job job' := by
  have h := outcome hen
  generalize machine.next d act = d' at h
  cases h with
  | dispatched hw => exact ⟨job, getElem?_concat.mpr (.inl hj), .refl job⟩
  | @armed req window hw =>
      obtain ⟨job', hj', hs⟩ := (drops_dropTimer d req.key).kept hj
      exact ⟨job', getElem?_concat.mpr (.inl hj'), hs⟩
  | moved hact hj₀ hp ha => exact kept_setPhase _ _ hj
  | fired hact hj₀ ha => exact kept_setPhase (d := { d with timers := _, dispatches := _ }) _ _ hj
  | stayed hact now => exact ⟨job, hj, .refl job⟩
  | dropped hact h => exact h.kept hj

/-- The log of dispatches only grows. -/
theorem dispatches_next {act : Act} (hen : machine.enabled d act) :
    d.dispatches <+: (machine.next d act).dispatches := by
  have h := outcome hen
  generalize machine.next d act = d' at h
  cases h with
  | dispatched hw | fired hact hj₀ ha => exact List.prefix_append _ _
  | @armed req window hw => exact (drops_dropTimer d req.key).dispatches ▸ List.prefix_rfl
  | moved hact hj₀ hp ha | stayed hact now => exact List.prefix_rfl
  | dropped hact h => exact h.dispatches ▸ List.prefix_rfl

theorem started_append {d'' : Debouncer} (h : d.dispatches <+: d'.dispatches)
    (h' : d'.dispatches <+: d''.dispatches) :
    d.started d'' = d.started d' ++ d'.started d'' := by
  obtain ⟨new, hnew⟩ := h
  obtain ⟨new', hnew'⟩ := h'
  simp [started, ← hnew', ← hnew]

/-- What is submitted is dispatched at once, or armed. -/
theorem submit_cases (d : Debouncer) (req : ScanRequest) :
    ∃ job, (d.submit req).jobs[d.jobs.length]? = some job ∧ job.req = req ∧
      ((∃ time, (d.jobs.length, time) ∈ d.started (d.submit req)) ∨ Armed job) := by
  cases hw : windowOf d.servers req.serverId with
  | none =>
      rw [submit_of_none d hw]
      refine ⟨_, getElem?_concat.mpr (.inr ⟨rfl, rfl⟩), rfl, .inl ⟨d.now, ?_⟩⟩
      rw [started_of_append rfl]
      exact List.mem_singleton_self _
  | some window =>
      rw [submit_of_some d hw]
      exact ⟨_, getElem?_concat.mpr (.inr ⟨(length_dropTimer d req.key).symm, rfl⟩), rfl,
        .inr ⟨rfl, .inl rfl⟩⟩

theorem length_submit (d : Debouncer) (req : ScanRequest) :
    (d.submit req).jobs.length = d.jobs.length + 1 := by
  have hen : machine.enabled d (.submit req) := trivial
  obtain ⟨-, hlen⟩ | ⟨hne, -⟩ := (outcome hen).length
  · exact hlen
  · exact absurd rfl (hne req)

theorem pending_setPhase_ne {phase : Phase} (hj : d.jobs[t]? = some job) (ha : Armed job)
    (e : u ≠ t) : (d.setPhase u phase).Pending t :=
  ⟨job, by rw [Option.mem_def, getElem?_setPhase, if_neg e, hj], ha⟩

theorem pending_setPhase {phase : Phase} (hj : d.jobs[t]? = some job)
    (ha : Armed { job with phase := phase }) : (d.setPhase t phase).Pending t :=
  ⟨{ job with phase := phase }, by simp [getElem?_setPhase, hj], ha⟩

/-- **A pending job** stays pending, or is dispatched, or the step displaces it. -/
theorem pending_next (hd : Good d) {act : Act} (hen : machine.enabled d act)
    (hj : d.jobs[t]? = some job) (ha : Armed job) :
    (machine.next d act).Pending t ∨ t ∈ (machine.next d act).dispatches.map Prod.fst ∨
      Displaces d job.req act := by
  cases act with
  | submit req =>
      cases hw : windowOf d.servers req.serverId with
      | none =>
          rw [next_submit, submit_of_none d hw]
          exact .inl ⟨job, getElem?_concat.mpr (.inl hj), ha⟩
      | some window =>
          by_cases hk : req.key = job.req.key
          · exact .inr (.inr ⟨hk, by rw [hw]; rfl⟩)
          · rw [next_submit, submit_of_some d hw]
            have hj' := hd.drops_other (drops_dropTimer d req.key) hj fun h =>
              hk (List.mem_singleton.mp h).symm
            exact .inl ⟨job, getElem?_concat.mpr (.inl hj'), ha⟩
  | run task =>
      obtain ⟨job', hj', hs⟩ := hen
      change (d.run task).Pending t ∨ t ∈ (d.run task).dispatches.map Prod.fst ∨ False
      by_cases e : task = t
      · subst e
        rw [Option.mem_def, hj] at hj'
        cases hj'
        rcases run_cases hj hs with ⟨hc, -⟩ | ⟨hc, -, ⟨-, e⟩ | ⟨window, -, e⟩⟩ | ⟨hc, hp, e⟩
        · exact absurd hc (by simp [ha.1])
        · exact .inl (e.symm ▸ ⟨job, hj, ha⟩)
        · exact .inl (e ▸ pending_setPhase hj ⟨hc, .inr (.inl ⟨_, rfl⟩)⟩)
        · rw [e, fireAfter, if_pos (hd.lookup hj ha)]
          exact .inr (.inl (by simp [setPhase]))
      · refine .inl ?_
        rcases run_cases hj' hs with ⟨-, e'⟩ | ⟨-, -, ⟨-, e'⟩ | ⟨window, -, e'⟩⟩ | ⟨-, -, e'⟩ <;>
          rw [e']
        · exact pending_setPhase_ne hj ha e
        · exact ⟨job, hj, ha⟩
        · exact pending_setPhase_ne hj ha e
        · rw [fireAfter]
          split
          · exact pending_setPhase_ne (d := { d with timers := _, dispatches := _ }) hj ha e
          · exact pending_setPhase_ne hj ha e
  | wake task =>
      obtain ⟨job', hj', hc, wake, -, hp⟩ := hen
      refine .inl ?_
      by_cases e : task = t
      · subst e
        rw [Option.mem_def, hj] at hj'
        cases hj'
        exact pending_setPhase hj ⟨hc, .inr (.inr rfl)⟩
      · exact pending_setPhase_ne hj ha e
  | finish task =>
      obtain ⟨job', hj', hp⟩ := hen
      refine .inl (pending_setPhase_ne hj ha ?_)
      rintro rfl
      rw [Option.mem_def, hj] at hj'
      cases hj'
      exact absurd ha.2 (by simp [hp])
  | tick dt => exact .inl ⟨job, hj, ha⟩
  | updateServers servers =>
      by_cases hs : job.req.serverId ∈ servers
      · refine .inl ⟨job, hd.drops_other (drops_updateServers d servers) hj fun h => ?_, ha⟩
        have := (List.mem_filter.mp h).2
        exact absurd hs (of_decide_eq_true this)
      · exact .inr (.inr hs)
  | aclose => exact .inr (.inr trivial)

/-! ### Every run -/

section Run
variable {servers : AList fun _ : Int => ServerRuntime} {l : List Act}

/-- A job is a submission of the run, with the window read there. -/
theorem submitted_run (h : Lts.Run machine Lts.free (init servers) l d)
    (hj : d.jobs[t]? = some job) :
    ∃ l₁ l₂ d₁, l = l₁ ++ .submit job.req :: l₂ ∧
      Lts.Run machine Lts.free (init servers) l₁ d₁ ∧ d₁.jobs.length = t ∧
      job.submitted = d₁.now ∧ job.window = windowOf d₁.servers job.req.serverId := by
  induction h generalizing job with
  | nil => cases hj
  | @snoc l d act h hen _ ih =>
      rcases getJob_next hen hj with ⟨job₀, hj₀, hs⟩ | ⟨rfl, rfl, hnow, hw, -⟩
      · obtain ⟨l₁, l₂, d₁, rfl, h₁, hlen, hnow, hw⟩ := ih hj₀
        refine ⟨l₁, l₂ ++ [act], d₁, ?_, h₁, hlen, hs.submitted.trans hnow, ?_⟩
        · rw [hs.req, List.append_assoc, List.cons_append]
        · rw [hs.window, hs.req, hw]
      · exact ⟨l, [], d, rfl, h, rfl, hnow, hw⟩

/-- A job that waits for a timer is dispatched, pending, or was displaced while pending. -/
theorem accounted_run (h : Lts.Run machine Lts.free (init servers) l d)
    (hj : d.jobs[t]? = some job) (hw : job.window.isSome) :
    t ∈ d.dispatches.map Prod.fst ∨ d.Pending t ∨ ∃ l₁ act l₂ d₁, l = l₁ ++ act :: l₂ ∧
      Lts.Run machine Lts.free (init servers) l₁ d₁ ∧ d₁.Pending t ∧ Displaces d₁ job.req act := by
  induction h generalizing job with
  | nil => cases hj
  | @snoc l d act h hen _ ih =>
      rcases getJob_next hen hj with ⟨job₀, hj₀, hs⟩ | ⟨-, -, -, -, ha⟩
      · rw [hs.req]
        rcases ih hj₀ (hs.window ▸ hw) with hmem | hp | ⟨l₁, act₁, l₂, d₁, rfl, h₁, hp, hdis⟩
        · exact .inl (((dispatches_next hen).map _).subset hmem)
        · obtain ⟨job', hj', ha⟩ := hp
          rw [Option.mem_def, hj₀] at hj'
          cases hj'
          rcases pending_next (good_run h) hen hj₀ ha with hp | hmem | hdis
          · exact .inr (.inl hp)
          · exact .inl hmem
          · exact .inr (.inr ⟨l, act, [], d, rfl, h, ⟨job₀, hj₀, ha⟩, hdis⟩)
        · exact .inr (.inr ⟨l₁, act₁, l₂ ++ [act], d₁, by simp, h₁, hp, hdis⟩)
      · exact .inr (.inl ⟨job, hj, ha hw⟩)

/-- What the debouncer promises of a run from `init servers` along `l` to `d`. -/
structure Safe (servers : AList fun _ : Int => ServerRuntime) (l : List Act) (d : Debouncer) :
    Prop where
  /-- Each submission is dispatched at most once. -/
  once : ∀ t, (d.dispatches.map Prod.fst).count t ≤ 1
  /-- An uncancelled task that has not fired is the stored one, and the only one of its key. -/
  stored : ∀ (t : Nat) (job : Job), d.jobs[t]? = some job → Armed job →
    d.timers.lookup job.req.key = some t ∧
    ∀ (u : Nat) (job' : Job), d.jobs[u]? = some job' → Armed job' →
      job'.req.key = job.req.key → u = t
  /-- An undispatched request of a trailing server is pending, or it was while a step displaced
  it: a later submission of its key, an `update_servers` without its server, or `aclose`. -/
  accounted : ∀ (t : Nat) (job : Job), d.jobs[t]? = some job → job.window.isSome →
    t ∉ d.dispatches.map Prod.fst →
    d.Pending t ∨ ∃ l₁ act l₂ d₁, l = l₁ ++ act :: l₂ ∧
      Lts.Run machine Lts.free (init servers) l₁ d₁ ∧ d₁.Pending t ∧ Displaces d₁ job.req act
  /-- A dispatch starts no earlier than the window after its submission. -/
  onTime : ∀ e ∈ d.dispatches, ∃ job, d.jobs[e.1]? = some job ∧
    ∀ window ∈ job.window, job.submitted + window ≤ e.2
  /-- The jobs are the submissions of the run, with the time and the window read there. -/
  submissions : ∀ (t : Nat) (job : Job), d.jobs[t]? = some job →
    ∃ l₁ l₂ d₁, l = l₁ ++ .submit job.req :: l₂ ∧
      Lts.Run machine Lts.free (init servers) l₁ d₁ ∧ d₁.jobs.length = t ∧
      job.submitted = d₁.now ∧ job.window = windowOf d₁.servers job.req.serverId

/-- **Debouncer safety**, for every interleaving of calls and steps of the loop. -/
theorem debouncer_safety (h : Lts.Run machine Lts.free (init servers) l d) :
    Safe servers l d where
  once t := List.nodup_iff_count_le_one.mp (good_run h).once t
  stored t job hj ha := by
    refine ⟨(good_run h).lookup hj ha, fun u job' hj' ha' hk => ?_⟩
    have hl := (good_run h).lookup hj' ha'
    rw [hk, (good_run h).lookup hj ha] at hl
    exact (Option.some.inj hl).symm
  accounted t job hj hw hmem := (accounted_run h hj hw).resolve_left hmem
  onTime e he := by
    obtain ⟨job, hj, -, hw⟩ := (good_run h).fired e he
    exact ⟨job, hj, hw⟩
  submissions t job hj := submitted_run h hj

/-- Server 1, with a window of 30 s. -/
def plexServers : AList fun _ : Int => ServerRuntime :=
  AList.singleton 1 (makeServerRuntime 1 .trailing 30)

def plexRequest (filePath : Str) : ScanRequest where
  serverId := 1
  serverName := str "plex-1"
  scanMode := .targeted
  scanPath := some (str "/data/tv/Show")
  libraryId := some (str "2")
  scanKey := str "/data/tv/Show"
  eventType := .created
  filePath := filePath
  topFolder := some (str "Show")

/-- The second submission lands in the loop turn in which the sleep of the first has ended. -/
def rearm : List Act :=
  [.submit (plexRequest (str "/data/tv/Show/first.mkv")), .run 0, .tick 30, .wake 0,
    .submit (plexRequest (str "/data/tv/Show/second.mkv")), .run 0, .run 1, .tick 30, .wake 1, .run 1]

theorem debouncer_safety_rearm :
    Safe plexServers rearm (rearm.foldl machine.next (init plexServers)) ∧
      (rearm.foldl machine.next (init plexServers)).dispatches = [(1, 60)] :=
  ⟨debouncer_safety (Lts.run_of_exec (by decide +kernel)), by decide +kernel⟩

end Run

end Debouncer

end MediaScanMonitor
