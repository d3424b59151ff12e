import MediaScanMonitor.Engine.Model

/-!
# Engine — what a step can be

`Step` says what each label does, one constructor for each outcome, and `step_cases` reads it off
`step`.  `Early` is what holds before the pipeline is wired: there is nothing to close and nothing
to rebuild.
-/

namespace MediaScanMonitor
open Py
open Debouncer (OfLoop Suspended)

namespace Engine

variable {lower : Str → Str} {s s' : Engine} {act : Act}

/-- The outcomes of a step. -/
inductive Step (lower : Str → Str) (s : Engine) : Act → Engine → Prop where
  | startAgain {park : Bool} (h : s.started = true) : Step lower s (.start park) s
  | start {park : Bool} (h : s.started = false) :
      Step lower s (.start park)
        { s with started := true, state := .starting, start := .reading park }
  | startRead {park : Bool} {config : RuntimeConfig} (h : s.start = .reading park) :
      Step lower s (.startRead (some config)) (s.publish park config)
  | startReadRaised {park : Bool} (h : s.start = .reading park) :
      Step lower s (.startRead none) { s with start := .finished }
  | startBuild {park ok : Bool} {sn : Snapshot} {b : Build} {serverId : Int} {todo : List Int}
      (h : s.start = .building park sn b) (hb : b.todo = serverId :: todo) :
      Step lower s (.startBuild ok)
        { s.createClient ok with
          start := .building park sn (b.next serverId todo s.created ok) }
  | startBuilt {park : Bool} {sn : Snapshot} {b : Build} (h : s.start = .building park sn b)
      (hb : b.todo = []) : Step lower s .startBuilt (s.wire park sn b.clients)
  | startPolicy {park : Bool} {sn : Snapshot} {policy : Option Str}
      (h : s.start = .policy park sn) :
      Step lower s (.startPolicy (some policy)) { s with start := .limit park sn policy }
  | startPolicyRaised {park : Bool} {sn : Snapshot} (h : s.start = .policy park sn) :
      Step lower s (.startPolicy none) { s with start := .finished }
  | startLimit {park : Bool} {sn : Snapshot} {policy : Option Str} {limit : WatchLimitStatus}
      (h : s.start = .limit park sn policy) :
      Step lower s (.startLimit (some limit))
        ({ s with watchLimit := some limit }.attach park sn (gateOk policy limit))
  | startLimitRaised {park : Bool} {sn : Snapshot} {policy : Option Str}
      (h : s.start = .limit park sn policy) :
      Step lower s (.startLimit none) { s with start := .finished }
  | rebuildSkipped : Step lower s .rebuild s
  | rebuild (hadapters : s.adapters ≠ none) (hwatcher : s.watcher ≠ none) :
      Step lower s .rebuild { s with rebuilds := s.rebuilds ++ [.waiting] }
  | acquire {k : Nat} (h : s.rebuilds[k]? = some .waiting) :
      Step lower s (.acquire k) (s.setRebuild k .reading)
  | rebuildRead {k : Nat} {config : RuntimeConfig} (h : s.rebuilds[k]? = some .reading) :
      Step lower s (.rebuildRead k (some config))
        { s.setRebuild k (.building (s.snapshot config) (.of config)) with reads := s.reads + 1 }
  | rebuildReadRaised {k : Nat} (h : s.rebuilds[k]? = some .reading) :
      Step lower s (.rebuildRead k none) (s.setRebuild k .finished)
  | rebuildBuild {k : Nat} {ok : Bool} {sn : Snapshot} {b : Build} {serverId : Int}
      {todo : List Int} (h : s.rebuilds[k]? = some (.building sn b))
      (hb : b.todo = serverId :: todo) :
      Step lower s (.rebuildBuild k ok)
        ((s.createClient ok).setRebuild k (.building sn (b.next serverId todo s.created ok)))
  | rebuildBuilt {k : Nat} {sn : Snapshot} {b : Build}
      (h : s.rebuilds[k]? = some (.building sn b)) (hb : b.todo = []) :
      Step lower s (.rebuildBuilt k) (s.rebuilt k sn b.clients)
  | rebuildPolicy {k : Nat} {sn : Snapshot} {clients : List (Int × Nat)} {policy : Option Str}
      (h : s.rebuilds[k]? = some (.policy sn clients)) :
      Step lower s (.rebuildPolicy k (some policy)) (s.setRebuild k (.limit sn clients policy))
  | rebuildPolicyRaised {k : Nat} {sn : Snapshot} {clients : List (Int × Nat)}
      (h : s.rebuilds[k]? = some (.policy sn clients)) :
      Step lower s (.rebuildPolicy k none) (s.setRebuild k .finished)
  | rebuildLimit {k : Nat} {sn : Snapshot} {clients : List (Int × Nat)} {policy : Option Str}
      {limit : WatchLimitStatus} (h : s.rebuilds[k]? = some (.limit sn clients policy)) :
      Step lower s (.rebuildLimit k (some limit))
        ({ s with watchLimit := some limit }.swap k sn clients (gateOk policy limit))
  | rebuildLimitRaised {k : Nat} {sn : Snapshot} {clients : List (Int × Nat)}
      {policy : Option Str} (h : s.rebuilds[k]? = some (.limit sn clients policy)) :
      Step lower s (.rebuildLimit k none) (s.setRebuild k .finished)
  | rebuildClose {k client : Nat} {old : List Nat}
      (h : s.rebuilds[k]? = some (.closing (client :: old))) :
      Step lower s (.rebuildClose k)
        { s.setRebuild k (.closing old) with closed := client :: s.closed }
  | rebuildOver {k : Nat} (h : s.rebuilds[k]? = some (.closing [])) :
      Step lower s (.rebuildClose k) (s.setRebuild k .finished)
  | read {events : List FsEvent} (h : s.AtEvents) (hturn : s.turn = []) :
      Step lower s (.read events) { s with turn := events }
  | yield {event : FsEvent} {turn : List FsEvent} (h : s.AtEvents)
      (hturn : s.turn = event :: turn) :
      Step lower s .yield { s with turn := turn, todo := s.requests lower event }
  | submit {d : Debouncer} {req : ScanRequest} {todo : List ScanRequest}
      (h : s.debouncer = some d) (htodo : s.todo = req :: todo) :
      Step lower s .submit { s.setDebouncer d (d.submit req) with todo := todo }
  | loop {d : Debouncer} {act : Debouncer.Act} (h : s.debouncer = some d) (hact : OfLoop act)
      (hen : Debouncer.machine.enabled d act) :
      Step lower s (.loop act) (s.setDebouncer d (Debouncer.machine.next d act))
  | aclose {d : Debouncer} (h : s.closing = .idle) (hd : s.debouncer = some d) :
      Step lower s .aclose
        { s with
          watcher := s.watcher.map Watching.aclose
          debouncer := some d.aclose
          closing := .timers (d.timers.entries.map Sigma.snd) }
  | acloseUnwired (h : s.closing = .idle) (hd : s.debouncer = none) :
      Step lower s .aclose
        { s with
          watcher := s.watcher.map Watching.aclose
          closing := .clients (s.clients.map Prod.snd) }
  | closeTimers {tasks : List Nat} (h : s.closing = .timers tasks) :
      Step lower s .closeTimers { s with closing := .clients (s.clients.map Prod.snd) }
  | closeClient {client : Nat} {left : List Nat} (h : s.closing = .clients (client :: left)) :
      Step lower s .closeClient { s with closed := client :: s.closed, closing := .clients left }
  | returned (h : s.closing = .clients []) :
      Step lower s .closeClient { s with clients := [], state := .stopped, closing := .returned }

theorem stepStart_cases (h : s.stepStart act = some s') : Step lower s act s' := by
  cases act with
  | start park =>
      simp only [stepStart] at h
      split at h <;> cases h
      · exact .startAgain ‹_›
      · exact .start (Bool.eq_false_iff.mpr ‹_›)
  | startRead config =>
      simp only [stepStart] at h
      split at h <;> cases h
      · exact .startRead ‹_›
      · exact .startReadRaised ‹_›
  | startBuild ok =>
      simp only [stepStart] at h
      split at h <;> try cases h
      split at h <;> cases h
      exact .startBuild ‹_› ‹_›
  | startBuilt =>
      simp only [stepStart] at h
      split at h <;> try cases h
      split at h <;> cases h
      exact .startBuilt ‹_› ‹_›
  | startPolicy policy =>
      simp only [stepStart] at h
      split at h <;> cases h
      · exact .startPolicy ‹_›
      · exact .startPolicyRaised ‹_›
  | startLimit limit =>
      simp only [stepStart] at h
      split at h <;> cases h
      · exact .startLimit ‹_›
      · exact .startLimitRaised ‹_›
  | _ => cases h

theorem stepRebuild_cases (h : s.stepRebuild act = some s') : Step lower s act s' := by
  cases act with
  | rebuild =>
      simp only [stepRebuild] at h
      split at h <;> cases h
      · exact .rebuildSkipped
      · rename_i hg
        simp only [Bool.or_eq_true, not_or, Option.isNone_iff_eq_none] at hg
        exact .rebuild hg.1.1.2 hg.2
  | acquire k =>
      simp only [stepRebuild] at h
      split at h <;> try cases h
      split at h <;> cases h
      exact .acquire ‹_›
  | rebuildRead k config =>
      simp only [stepRebuild] at h
      split at h <;> cases h
      · exact .rebuildRead ‹_›
      · exact .rebuildReadRaised ‹_›
  | rebuildBuild k ok =>
      simp only [stepRebuild] at h
      split at h <;> try cases h
      split at h <;> cases h
      exact .rebuildBuild ‹_› ‹_›
  | rebuildBuilt k =>
      simp only [stepRebuild] at h
      split at h <;> try cases h
      split at h <;> cases h
      exact .rebuildBuilt ‹_› ‹_›
  | rebuildPolicy k policy =>
      simp only [stepRebuild] at h
      split at h <;> cases h
      · exact .rebuildPolicy ‹_›
      · exact .rebuildPolicyRaised ‹_›
  | rebuildLimit k limit =>
      simp only [stepRebuild] at h
      split at h <;> cases h
      · exact .rebuildLimit ‹_›
      · exact .rebuildLimitRaised ‹_›
  | rebuildClose k =>
      simp only [stepRebuild] at h
      split at h <;> cases h
      · exact .rebuildClose ‹_›
      · exact .rebuildOver ‹_›
  | _ => cases h

theorem stepEvents_cases (h : s.stepEvents lower act = some s') : Step lower s act s' := by
  cases act with
  | read events =>
      simp only [stepEvents] at h
      split at h <;> cases h
      rename_i hg
      exact .read hg.1 hg.2
  | yield =>
      simp only [stepEvents] at h
      split at h <;> try cases h
      split at h <;> cases h
      exact .yield ‹_› ‹_›
  | submit =>
      simp only [stepEvents] at h
      split at h <;> try cases h
      split at h <;> cases h
      exact .submit ‹_› ‹_›
  | loop act =>
      simp only [stepEvents] at h
      split at h <;> try cases h
      split at h <;> cases h
      rename_i hg
      exact .loop ‹_› hg.1 hg.2
  | _ => cases h

theorem stepClose_cases (h : s.stepClose act = some s') : Step lower s act s' := by
  cases act with
  | aclose =>
      simp only [stepClose] at h
      split at h <;> try cases h
      split at h <;> cases h
      · exact .aclose ‹_› ‹_›
      · exact .acloseUnwired ‹_› ‹_›
  | closeTimers =>
      simp only [stepClose] at h
      split at h <;> try cases h
      split at h <;> cases h
      exact .closeTimers ‹_›
  | closeClient =>
      simp only [stepClose] at h
      split at h <;> cases h
      · exact .closeClient ‹_›
      · exact .returned ‹_›
  | _ => cases h

/-- What an enabled step can be. -/
theorem step_cases (h : (system lower).enabled s act) :
    Step lower s act ((system lower).next s act) := by
  have h := step_eq h
  generalize (system lower).next s act = s' at h ⊢
  simp only [step] at h
  split at h
  all_goals first
    | exact stepStart_cases h
    | exact stepRebuild_cases h
    | exact stepEvents_cases h
    | exact stepClose_cases h

/-- A rebuild closes the next of the clients it has to close. -/
theorem rebuildClose_enabled {k client : Nat} {old : List Nat}
    (hk : s.rebuilds[k]? = some (.closing (client :: old))) :
    (system lower).enabled s (.rebuildClose k) ∧ (system lower).next s (.rebuildClose k) =
      { s.setRebuild k (.closing old) with closed := client :: s.closed } :=
  enabled_of_step (by simp only [step, stepRebuild, hk])

/-! ### The parts of a step -/

/-- `start` reaches its loop, or it returns blocked. -/
theorem attach_cases (s : Engine) (park : Bool) (sn : Snapshot) (gateOk : Bool) :
    s.attach park sn gateOk =
        { s with
          verdicts := (sn.read, gateOk) :: s.verdicts
          watcher := s.watcher.map (Watching.setRoots (rootsFor sn gateOk))
          state := stateFor gateOk
          start := .looping } ∨
      s.attach park sn gateOk =
        { s with
          verdicts := (sn.read, gateOk) :: s.verdicts
          state := .blocked
          start := .finished } := by
  simp only [attach]
  split
  · exact .inr rfl
  · exact .inl rfl

section
variable (s : Engine) (park ok : Bool) (sn : Snapshot) (clients : List (Int × Nat))

@[simp] theorem rebuilds_attach : (s.attach park sn ok).rebuilds = s.rebuilds :=
  (attach_cases s park sn ok).elim (fun e => by rw [e]) fun e => by rw [e]

@[simp] theorem closed_attach : (s.attach park sn ok).closed = s.closed :=
  (attach_cases s park sn ok).elim (fun e => by rw [e]) fun e => by rw [e]

@[simp] theorem rebuilds_wire : (s.wire park sn clients).rebuilds = s.rebuilds := by
  rw [wire]
  split
  · rw [rebuilds_attach]
  · rfl

@[simp] theorem closed_wire : (s.wire park sn clients).closed = s.closed := by
  rw [wire]
  split
  · rw [closed_attach]
  · rfl

end

/-- A new phase at `k`. -/
theorem getElem?_setRebuild {k j : Nat} {phase : RebuildPhase} (s : Engine)
    (h : k < s.rebuilds.length) :
    (s.setRebuild k phase).rebuilds[j]? = if k = j then some phase else s.rebuilds[j]? := by
  rw [setRebuild]
  by_cases e : k = j
  · rw [if_pos e, ← e, List.getElem?_set_self h]
  · rw [if_neg e, List.getElem?_set_ne e]

/-! ### Before the pipeline is wired -/

/-- `start` has not built its adapters. -/
def Unwired (s : Engine) : Prop :=
  match s.start with
  | .idle | .reading _ | .building _ _ _ => True
  | .policy _ _ | .limit _ _ _ | .looping | .finished => False

structure Early (s : Engine) : Prop where
  nothing : s.adapters = none → s.clients = [] ∧ s.debouncer = none ∧ s.rebuilds = []
  unwired : s.Unwired → s.adapters = none
  idle : s.started = false → s.start = .idle

theorem early_init (watcher : Option Watching) : Early (init watcher) where
  nothing _ := ⟨rfl, rfl, rfl⟩
  unwired _ := rfl
  idle _ := rfl

/-- A rebuild is only called on a wired engine. -/
theorem Early.wired (hs : Early s) {k : Nat} {phase : RebuildPhase}
    (h : s.rebuilds[k]? = some phase) : s.adapters ≠ none := by
  intro e
  rw [(hs.nothing e).2.2] at h
  cases h

theorem Early.wired_of_debouncer (hs : Early s) {d : Debouncer} (h : s.debouncer = some d) :
    s.adapters ≠ none := by
  intro e
  rw [(hs.nothing e).2.1] at h
  cases h

theorem Early.started (hs : Early s) (h : s.start ≠ .idle) : s.started = true := by
  cases e : s.started with
  | true => rfl
  | false => exact absurd (hs.idle e) h

/-- `start` goes on. -/
theorem Early.of_started (hs : Early s) (h : s.start ≠ .idle)
    (hstarted : s'.started = s.started)
    (hnothing : s'.adapters = none → s'.clients = [] ∧ s'.debouncer = none ∧ s'.rebuilds = [])
    (hunwired : s'.Unwired → s'.adapters = none) : Early s' where
  nothing := hnothing
  unwired := hunwired
  idle e := by
    rw [hstarted, hs.started h] at e
    cases e

/-- The adapters are there, and `start` stays where it is. -/
theorem Early.of_wired (hs : Early s) (hw : s.adapters ≠ none) (hadapters : s'.adapters ≠ none)
    (hstarted : s'.started = s.started) (hstart : s'.start = s.start) : Early s' where
  nothing h := absurd h hadapters
  unwired h := absurd (hs.unwired (by rwa [Unwired, ← hstart])) hw
  idle h := hstart.trans (hs.idle (hstarted.symm.trans h))

/-- `start` comes to its loop, or returns. -/
theorem early_attach {park gateOk : Bool} {sn : Snapshot} (hstarted : s.started = true)
    (hnothing : s.adapters = none → s.clients = [] ∧ s.debouncer = none ∧ s.rebuilds = []) :
    Early (s.attach park sn gateOk) := by
  have hne : ¬ s.started = false := by simp [hstarted]
  rcases s.attach_cases park sn gateOk with e | e <;> rw [e]
  · exact ⟨hnothing, fun h => absurd h id, fun h => absurd h hne⟩
  · exact ⟨hnothing, fun h => absurd h id, fun h => absurd h hne⟩

theorem Early.next (hs : Early s) (h : Step lower s act s') : Early s' := by
  cases h with
  | startAgain | rebuildSkipped => exact hs
  | start h =>
      exact ⟨hs.nothing, fun _ => hs.unwired (by rw [Unwired, hs.idle h]; trivial),
        fun e => by cases e⟩
  | startRead h =>
      exact hs.of_started (by simp [h]) rfl hs.nothing fun _ =>
        hs.unwired (by rw [Unwired, h]; trivial)
  | startReadRaised h => exact hs.of_started (by simp [h]) rfl hs.nothing fun h => absurd h id
  | startBuild h hb =>
      exact hs.of_started (by simp [h]) rfl hs.nothing fun _ =>
        hs.unwired (by rw [Unwired, h]; trivial)
  | startBuilt h hb =>
      have hne : s.start ≠ .idle := by simp [h]
      rw [wire]
      split
      · exact early_attach (hs.started hne) fun e => by cases e
      · exact hs.of_started hne rfl (fun e => by cases e) fun h => absurd h id
  | startPolicy h => exact hs.of_started (by simp [h]) rfl hs.nothing fun h => absurd h id
  | startPolicyRaised h => exact hs.of_started (by simp [h]) rfl hs.nothing fun h => absurd h id
  | startLimit h => exact early_attach (hs.started (by simp [h])) hs.nothing
  | startLimitRaised h => exact hs.of_started (by simp [h]) rfl hs.nothing fun h => absurd h id
  | rebuild hadapters hwatcher => exact hs.of_wired hadapters hadapters rfl rfl
  | acquire h => exact hs.of_wired (hs.wired h) (hs.wired h) rfl rfl
  | rebuildRead h => exact hs.of_wired (hs.wired h) (hs.wired h) rfl rfl
  | rebuildReadRaised h => exact hs.of_wired (hs.wired h) (hs.wired h) rfl rfl
  | rebuildBuild h hb => exact hs.of_wired (hs.wired h) (hs.wired h) rfl rfl
  | rebuildBuilt h hb =>
      rw [rebuilt]
      split
      · exact hs.of_wired (hs.wired h) (Option.some_ne_none _) rfl rfl
      · exact hs.of_wired (hs.wired h) (hs.wired h) rfl rfl
  | rebuildPolicy h => exact hs.of_wired (hs.wired h) (hs.wired h) rfl rfl
  | rebuildPolicyRaised h => exact hs.of_wired (hs.wired h) (hs.wired h) rfl rfl
  | rebuildLimit h => exact hs.of_wired (hs.wired h) (Option.some_ne_none _) rfl rfl
  | rebuildLimitRaised h => exact hs.of_wired (hs.wired h) (hs.wired h) rfl rfl
  | rebuildClose h => exact hs.of_wired (hs.wired h) (hs.wired h) rfl rfl
  | rebuildOver h => exact hs.of_wired (hs.wired h) (hs.wired h) rfl rfl
  | read h hturn => exact ⟨hs.nothing, hs.unwired, hs.idle⟩
  | yield h hturn => exact ⟨hs.nothing, hs.unwired, hs.idle⟩
  | submit h htodo =>
      exact hs.of_wired (hs.wired_of_debouncer h) (hs.wired_of_debouncer h) rfl rfl
  | loop h hact hen =>
      exact hs.of_wired (hs.wired_of_debouncer h) (hs.wired_of_debouncer h) rfl rfl
  | aclose h hd =>
      exact hs.of_wired (hs.wired_of_debouncer hd) (hs.wired_of_debouncer hd) rfl rfl
  | acloseUnwired h hd => exact ⟨hs.nothing, hs.unwired, hs.idle⟩
  | closeTimers h => exact ⟨hs.nothing, hs.unwired, hs.idle⟩
  | closeClient h => exact ⟨hs.nothing, hs.unwired, hs.idle⟩
  | returned h => exact ⟨fun e => ⟨rfl, (hs.nothing e).2⟩, hs.unwired, hs.idle⟩

end Engine

end MediaScanMonitor
