import MediaScanMonitor.Engine.Steps

/-!
# Engine — the roots and the state follow the installed configuration

`start` asks the gate without the lock and after it has wired the pipeline, so a rebuild can swap
its configuration in before `start` has its decision; `start` then attaches the roots of the
configuration it has read itself.  `Agreed` excludes just that, unless the two agree in roots and
state.

* `Rooted`: the invariant, one condition for each phase of `start`.
* `roots_follow`: in every run that meets `Agreed`, the consume loop runs on the roots and the
  state of the installed configuration.
-/

namespace MediaScanMonitor
open Py

/-- The configuration a rebuild is at work on. -/
def RebuildPhase.snapshot : RebuildPhase → Option Snapshot
  | .building sn _ | .policy sn _ | .limit sn _ _ => some sn
  | .waiting | .reading | .closing _ | .finished => none

namespace Engine

variable {lower : Str → Str} {s s' : Engine} {act : Act}

/-- `roots` was the last `set_roots`, and `state` is the engine's. -/
def Attached (s : Engine) (roots : List Str) (state : EngineState) : Prop :=
  s.watcher.bind (fun w => w.roots.head?) = some roots ∧ s.state = state

instance (s : Engine) (roots : List Str) (state : EngineState) :
    Decidable (s.Attached roots state) :=
  inferInstanceAs (Decidable (_ ∧ _))

/-- The engine is attached as the last gate decision for the installed configuration says, which
is one of a read from number `n` on. -/
def FollowsFrom (n : Nat) (s : Engine) : Prop :=
  ∃ sn ok, n ≤ sn.read ∧ s.config = some sn ∧ s.verdicts.lookup sn.read = some ok ∧
    s.Attached (rootsFor sn ok) (stateFor ok)

/-- The roots last set are the watch paths of the installed configuration where the last gate
decision for it was ok, and none otherwise; the state is running or blocked accordingly. -/
def Follows (s : Engine) : Prop :=
  ∃ sn ok, s.config = some sn ∧ s.verdicts.lookup sn.read = some ok ∧
    s.Attached (if ok then sn.config.watchPaths else []) (if ok then .running else .blocked)

/-- `start` has its gate decision for the configuration that is installed, or attaches what is
attached already; and the engine is not closed.  A configuration is known by its read. -/
def Agreed (s : Engine) : Act → Prop
  | .startLimit (some limit) =>
    match s.start with
    | .limit _ sn policy =>
      s.config.map Snapshot.read = some sn.read ∨
        s.Attached (rootsFor sn (gateOk policy limit)) (stateFor (gateOk policy limit))
    | _ => True
  | .aclose => False
  | _ => True

/-! ### The invariant -/

/-- What `start` knows where it is suspended.  Its own read is the one of number 0. -/
def AtPhase (s : Engine) : Prop :=
  match s.start with
  | .idle | .reading _ => s.reads = 0
  | .building _ sn _ => sn.read = 0 ∧ s.config = some sn ∧ 0 < s.reads ∧ s.watcher ≠ none
  | .policy _ sn | .limit _ sn _ =>
    sn.read = 0 ∧ (s.config = some sn ∨ s.FollowsFrom 1) ∧ 0 < s.reads ∧ s.watcher ≠ none
  | .looping => s.FollowsFrom 0
  | .finished => True

structure Rooted (s : Engine) : Prop where
  early : Early s
  running : s.closing = .idle
  wired : s.adapters ≠ none → 0 < s.reads ∧ s.watcher ≠ none
  /-- A rebuild reads after `start`. -/
  later : ∀ (k : Nat) (phase : RebuildPhase) (sn : Snapshot), s.rebuilds[k]? = some phase →
    phase.snapshot = some sn → 1 ≤ sn.read
  phase : AtPhase s

theorem rooted_init (watcher : Option Watching) : Rooted (init watcher) where
  early := early_init watcher
  running := rfl
  wired h := absurd rfl h
  later k phase sn h := by cases h
  phase := rfl

/-- On a wired engine a rebuild goes on. -/
theorem Rooted.later_setRebuild (hs : Rooted s) {k : Nat} {phase phase' : RebuildPhase}
    (h : s.rebuilds[k]? = some phase) (hsn : ∀ sn, phase'.snapshot = some sn → 1 ≤ sn.read) :
    ∀ (j : Nat) (p : RebuildPhase) (sn : Snapshot),
      (s.setRebuild k phase').rebuilds[j]? = some p → p.snapshot = some sn → 1 ≤ sn.read := by
  intro j p sn hj hp
  rw [getElem?_setRebuild s (List.getElem?_eq_some_iff.mp h).1] at hj
  split at hj
  · cases hj
    exact hsn sn hp
  · exact hs.later j p sn hj hp

theorem Rooted.setRebuild (hs : Rooted s) {k : Nat} {phase phase' : RebuildPhase}
    (h : s.rebuilds[k]? = some phase) (hsn : ∀ sn, phase'.snapshot = some sn → 1 ≤ sn.read)
    (he : Early (s.setRebuild k phase')) : Rooted (s.setRebuild k phase') :=
  ⟨he, hs.running, hs.wired, hs.later_setRebuild h hsn, hs.phase⟩

theorem Rooted.watchLimit (hs : Rooted s) (limit : Option WatchLimitStatus) :
    Rooted { s with watchLimit := limit } :=
  ⟨⟨hs.early.nothing, hs.early.unwired, hs.early.idle⟩, hs.running, hs.wired, hs.later, hs.phase⟩

/-- On a wired engine a later read is nothing to `start`. -/
theorem Rooted.phase_reads (hs : Rooted s) (hw : s.adapters ≠ none) {n : Nat} (hn : s.reads ≤ n) :
    AtPhase { s with reads := n } := by
  have hphase := hs.phase
  have hstart : ({ s with reads := n } : Engine).start = s.start := rfl
  rw [AtPhase] at hphase ⊢
  rw [hstart]
  cases e : s.start with
  | idle | reading | building => exact absurd (hs.early.unwired (by rw [Unwired, e]; trivial)) hw
  | policy | limit =>
      rw [e] at hphase
      obtain ⟨hsn, hc, hreads, hw⟩ := hphase
      exact ⟨hsn, hc, hreads.trans_le hn, hw⟩
  | looping =>
      rw [e] at hphase
      exact hphase
  | finished => trivial

theorem last_setRoots {watcher : Option Watching} (hw : watcher ≠ none) (roots : List Str) :
    (watcher.map (Watching.setRoots roots)).bind (fun w => w.roots.head?) = some roots := by
  obtain ⟨w, rfl⟩ := Option.ne_none_iff_exists'.mp hw
  rfl

/-- A swap installs what it attaches. -/
theorem followsFrom_swap (hw : s.watcher ≠ none) {k n : Nat} {sn : Snapshot} (h : n ≤ sn.read)
    (clients : List (Int × Nat)) (ok : Bool) : (s.swap k sn clients ok).FollowsFrom n :=
  ⟨sn, ok, h, rfl, List.lookup_cons_self, last_setRoots hw _, rfl⟩

theorem watcher_swap {k : Nat} {sn : Snapshot} {clients : List (Int × Nat)} {ok : Bool}
    (hw : s.watcher ≠ none) : (s.swap k sn clients ok).watcher ≠ none := by
  simpa [swap, setRebuild] using hw

theorem Rooted.swap (hs : Rooted s) {k : Nat} {phase : RebuildPhase} {sn : Snapshot}
    (h : s.rebuilds[k]? = some phase) (hsn : phase.snapshot = some sn) (clients : List (Int × Nat))
    (ok : Bool) (he : Early (s.swap k sn clients ok)) : Rooted (s.swap k sn clients ok) where
  early := he
  running := hs.running
  wired _ := ⟨(hs.wired (hs.early.wired h)).1, watcher_swap (hs.wired (hs.early.wired h)).2⟩
  later := hs.later_setRebuild (s := s) h fun sn e => by cases e
  phase := by
    have hread := hs.later k phase sn h hsn
    obtain ⟨hreads, hw⟩ := hs.wired (hs.early.wired h)
    have hstart : (s.swap k sn clients ok).start = s.start := rfl
    have hphase := hs.phase
    rw [AtPhase] at hphase ⊢
    rw [hstart]
    cases e : s.start with
    | idle | reading | building =>
        exact absurd (hs.early.unwired (by rw [Unwired, e]; trivial)) (hs.early.wired h)
    | policy | limit =>
        rw [e] at hphase
        exact ⟨hphase.1, .inr (followsFrom_swap hw hread clients ok), hreads, watcher_swap hw⟩
    | looping => exact followsFrom_swap hw (Nat.zero_le _) clients ok
    | finished => trivial

/-- A decision for the read of `start` is none for a later read. -/
theorem lookup_later {sn sn' : Snapshot} {ok : Bool} {verdicts : List (Nat × Bool)}
    (hsn : sn.read = 0) (hread : 1 ≤ sn'.read) :
    List.lookup sn'.read ((sn.read, ok) :: verdicts) = verdicts.lookup sn'.read := by
  have hne : (sn'.read == sn.read) = false := by
    rw [beq_eq_false_iff_ne]
    omega
  rw [List.lookup_cons, hne]

/-- `start` attaches the installed configuration, or what is attached already. -/
theorem followsFrom_attach {park ok : Bool} {sn : Snapshot} (hw : s.watcher ≠ none)
    (hsn : sn.read = 0) (h : s.config = some sn ∨ s.FollowsFrom 1)
    (hagreed : s.config.map Snapshot.read = some sn.read ∨
      s.Attached (rootsFor sn ok) (stateFor ok)) :
    (s.attach park sn ok).start = .finished ∨ (s.attach park sn ok).FollowsFrom 0 := by
  rcases s.attach_cases park sn ok with e | e <;> rw [e]
  · refine .inr ?_
    have hroots := last_setRoots hw (rootsFor sn ok)
    rcases h with hc | ⟨sn', ok', hread, hc, hl, hroots', hstate'⟩
    · exact ⟨sn, ok, Nat.zero_le _, hc, List.lookup_cons_self, hroots, rfl⟩
    · rcases hagreed with hc' | ⟨hroots₁, hstate₁⟩
      · rw [hc] at hc'
        have hsame : sn'.read = sn.read := Option.some.inj hc'
        omega
      · -- a rebuild has installed `sn'`, whose decision is kept, and both attach the same
        exact ⟨sn', ok', Nat.zero_le _, hc, (lookup_later hsn hread).trans hl,
          hroots.trans (hroots₁.symm.trans hroots'), hstate₁.symm.trans hstate'⟩
  · exact .inl rfl

theorem rooted_attach {park ok : Bool} {sn : Snapshot} (he : Early (s.attach park sn ok))
    (hrunning : s.closing = .idle) (hreads : 0 < s.reads) (hw : s.watcher ≠ none)
    (hlater : ∀ (k : Nat) (phase : RebuildPhase) (sn : Snapshot), s.rebuilds[k]? = some phase →
      phase.snapshot = some sn → 1 ≤ sn.read)
    (h : (s.attach park sn ok).start = .finished ∨ (s.attach park sn ok).FollowsFrom 0) :
    Rooted (s.attach park sn ok) := by
  have hphase : AtPhase (s.attach park sn ok) := by
    rw [AtPhase]
    rcases h with h | h
    · rw [h]
      trivial
    · rcases s.attach_cases park sn ok with e | e
      · rw [e] at h ⊢
        exact h
      · rw [e]
        trivial
  rcases s.attach_cases park sn ok with e | e <;> rw [e] at he hphase ⊢
  · exact ⟨he, hrunning, fun _ => ⟨hreads, by simpa using hw⟩, hlater, hphase⟩
  · exact ⟨he, hrunning, fun _ => ⟨hreads, hw⟩, hlater, hphase⟩

theorem Rooted.next (hs : Rooted s) (h : Step lower s act s') (hG : Agreed s act) :
    Rooted s' := by
  have he := hs.early.next h
  have hphase := hs.phase
  rw [AtPhase] at hphase
  cases h with
  | startAgain | rebuildSkipped => exact hs
  | start h =>
      rw [hs.early.idle h] at hphase
      exact ⟨he, hs.running, hs.wired, hs.later, hphase⟩
  | startRead h =>
      rw [h] at hphase
      refine ⟨he, hs.running, fun _ => ⟨Nat.succ_pos _, Option.some_ne_none _⟩, hs.later, ?_⟩
      exact ⟨hphase, rfl, Nat.succ_pos _, Option.some_ne_none _⟩
  | startReadRaised h => exact ⟨he, hs.running, hs.wired, hs.later, trivial⟩
  | startBuild h hb =>
      rw [h] at hphase
      exact ⟨he, hs.running, hs.wired, hs.later, hphase⟩
  | startBuilt h hb =>
      rw [h] at hphase
      obtain ⟨hsn, hc, hreads, hw⟩ := hphase
      rw [wire] at he ⊢
      split at he
      · rename_i hpaths
        rw [if_pos hpaths]
        exact rooted_attach he hs.running hreads hw hs.later
          (followsFrom_attach hw hsn (.inl hc) (.inl (by rw [hc]; rfl)))
      · rename_i hpaths
        rw [if_neg hpaths]
        exact ⟨he, hs.running, fun _ => ⟨hreads, hw⟩, hs.later, hsn, .inl hc, hreads, hw⟩
  | startPolicy h =>
      rw [h] at hphase
      exact ⟨he, hs.running, hs.wired, hs.later, hphase⟩
  | startPolicyRaised h => exact ⟨he, hs.running, hs.wired, hs.later, trivial⟩
  | startLimit h =>
      rw [h] at hphase
      rw [Agreed, h] at hG
      obtain ⟨hsn, hc, hreads, hw⟩ := hphase
      exact rooted_attach he hs.running hreads hw hs.later (followsFrom_attach hw hsn hc hG)
  | startLimitRaised h => exact ⟨he, hs.running, hs.wired, hs.later, trivial⟩
  | rebuild hadapters hwatcher =>
      refine ⟨he, hs.running, hs.wired, fun k phase sn hk hsn => ?_, hs.phase⟩
      rw [List.getElem?_append] at hk
      split at hk
      · exact hs.later k phase sn hk hsn
      · obtain rfl := List.mem_singleton.mp (List.mem_of_getElem? hk)
        cases hsn
  | acquire h => exact hs.setRebuild h (fun sn e => by cases e) he
  | rebuildRead h =>
      have hw := hs.early.wired h
      obtain ⟨hreads, hwatcher⟩ := hs.wired hw
      refine ⟨he, hs.running, fun _ => ⟨Nat.succ_pos _, hwatcher⟩,
        hs.later_setRebuild h fun sn e => ?_, ?_⟩
      · cases e
        exact hreads
      · exact hs.phase_reads hw (Nat.le_succ _)
  | rebuildReadRaised h => exact hs.setRebuild h (fun sn e => by cases e) he
  | rebuildBuild h hb =>
      exact ⟨he, hs.running, hs.wired,
        hs.later_setRebuild h fun sn e => hs.later _ _ _ h e, hs.phase⟩
  | @rebuildBuilt k sn b h hb =>
      rw [rebuilt] at he ⊢
      split at he
      · rename_i hpaths
        rw [if_pos hpaths]
        exact (hs.watchLimit none).swap h rfl b.clients true he
      · rename_i hpaths
        rw [if_neg hpaths]
        exact hs.setRebuild h (fun sn e => hs.later _ _ _ h e) he
  | rebuildPolicy h => exact hs.setRebuild h (fun sn e => hs.later _ _ _ h e) he
  | rebuildPolicyRaised h => exact hs.setRebuild h (fun sn e => by cases e) he
  | @rebuildLimit k sn clients policy limit h =>
      exact (hs.watchLimit (some limit)).swap h rfl _ _ he
  | rebuildLimitRaised h => exact hs.setRebuild h (fun sn e => by cases e) he
  | rebuildClose h =>
      exact ⟨he, hs.running, hs.wired, hs.later_setRebuild h (fun sn e => by cases e), hs.phase⟩
  | rebuildOver h => exact hs.setRebuild h (fun sn e => by cases e) he
  | read h hturn => exact ⟨he, hs.running, hs.wired, hs.later, hs.phase⟩
  | yield h hturn => exact ⟨he, hs.running, hs.wired, hs.later, hs.phase⟩
  | submit h htodo => exact ⟨he, hs.running, hs.wired, hs.later, hs.phase⟩
  | loop h hact hen => exact ⟨he, hs.running, hs.wired, hs.later, hs.phase⟩
  | aclose h hd => exact hG.elim
  | acloseUnwired h hd => exact hG.elim
  | closeTimers h | closeClient h | returned h =>
      rw [hs.running] at h
      cases h

instance (s : Engine) (act : Act) : Decidable (Agreed s act) :=
  match act with
  | .startLimit (some limit) =>
    match h : s.start with
    | .limit _ sn policy =>
      decidable_of_iff (s.config.map Snapshot.read = some sn.read ∨
          s.Attached (rootsFor sn (gateOk policy limit)) (stateFor (gateOk policy limit)))
        (by rw [Agreed, h])
    | .idle | .reading _ | .building _ _ _ | .policy _ _ | .looping | .finished =>
      .isTrue (by rw [Agreed, h]; trivial)
  | .aclose => .isFalse id
  | .start _ | .startRead _ | .startBuild _ | .startBuilt | .startPolicy _ | .startLimit none
  | .rebuild | .acquire _ | .rebuildRead _ _ | .rebuildBuild _ _ | .rebuildBuilt _
  | .rebuildPolicy _ _ | .rebuildLimit _ _ | .rebuildClose _ | .read _ | .yield | .submit
  | .loop _ | .closeTimers | .closeClient => .isTrue trivial

/-! ### Every run -/

section Run
variable {watcher : Option Watching} {l : List Act}

theorem rooted_run (h : Lts.Run (system lower) Agreed (init watcher) l s) : Rooted s :=
  h.invariant (rooted_init watcher) fun _ _ hs hen hG => hs.next (step_cases hen) hG

/-- **The roots and the state follow the installed configuration** while events are consumed. -/
theorem roots_follow (h : Lts.Run (system lower) Agreed (init watcher) l s)
    (hloop : s.start = .looping) : s.Follows := by
  have hphase := (rooted_run h).phase
  rw [AtPhase, hloop] at hphase
  obtain ⟨sn, ok, -, hc, hl, ha⟩ := hphase
  exact ⟨sn, ok, hc, hl, ha⟩

/-- One folder of one server. -/
def tvConfig : RuntimeConfig :=
  makeRuntimeConfig [makeFolderRoute 1 (str "/data/tv") [] (some (str "2")) [.created]]
    Debouncer.plexServers

/-- The last server is gone. -/
def noConfig : RuntimeConfig := makeRuntimeConfig [] ∅

def enough : WatchLimitStatus := ⟨1000000, 100, 200, 400, true⟩

/-- `start` comes to its loop, and a rebuild takes the folder away. -/
def settledFirst : List Act :=
  [.start true, .startRead (some tvConfig), .startBuild true, .startBuilt, .startPolicy (some none),
    .startLimit (some enough), .rebuild, .acquire 0, .rebuildRead 0 (some noConfig),
    .rebuildBuilt 0, .rebuildClose 0, .rebuildClose 0]

/-- The rebuild runs while `start` waits for its gate check. -/
def overtaken : List Act :=
  [.start true, .startRead (some tvConfig), .startBuild true, .startBuilt, .rebuild, .acquire 0,
    .rebuildRead 0 (some noConfig), .rebuildBuilt 0, .rebuildClose 0, .rebuildClose 0,
    .startPolicy (some none), .startLimit (some enough)]

theorem roots_follow_settledFirst :
    (settledFirst.foldl (system asciiLower).next (init none)).Follows :=
  roots_follow (Lts.run_of_exec (by decide +kernel)) (by decide +kernel)

/-- Once overtaken, `start` leaves the watcher on the folder that is gone. -/
theorem overtaken_does_not_follow :
    ∃ s, Lts.Run (system asciiLower) Lts.free (init none) overtaken s ∧ s.start = .looping ∧
      s.rebuilds = [.finished] ∧ s.state = .running ∧ ¬ s.Follows := by
  refine ⟨_, Lts.run_of_exec (by decide +kernel), by decide +kernel, by decide +kernel,
    by decide +kernel, ?_⟩
  rintro ⟨sn, ok, hc, -, hroots, -⟩
  have hc' : (overtaken.foldl (system asciiLower).next (init none)).config =
      some ⟨1, noConfig⟩ := rfl
  obtain rfl := Option.some.inj (hc'.symm.trans hc)
  cases ok <;> exact absurd hroots (by decide +kernel)

/-- The condition is exact: an attach that breaks it leaves the engine on other roots, or in
another state, than those of the installed configuration. -/
theorem agreed_of_follows {limit : WatchLimitStatus}
    (h : Lts.Run (system lower) Agreed (init watcher) l s)
    (hen : (system lower).enabled s (.startLimit (some limit)))
    (hloop : ((system lower).next s (.startLimit (some limit))).start = .looping)
    (hf : ((system lower).next s (.startLimit (some limit))).Follows) :
    Agreed s (.startLimit (some limit)) := by
  have hphase := (rooted_run h).phase
  rw [AtPhase] at hphase
  have hstep := step_cases hen
  generalize (system lower).next s (.startLimit (some limit)) = s' at hstep hloop hf
  cases hstep with
  | @startLimit park sn policy limit h =>
      rw [h] at hphase
      rw [Agreed, h]
      obtain ⟨hsn, hc | ⟨sn', ok', hread, hc, hl, hroots, hstate⟩, hreads, hw⟩ := hphase
      · exact .inl (by rw [hc]; rfl)
      · rcases attach_cases { s with watchLimit := some limit } park sn (gateOk policy limit)
          with e | e
        · rw [e] at hf
          obtain ⟨sn₂, ok₂, hc₂, hl₂, hroots₂, hstate₂⟩ := hf
          obtain rfl := Option.some.inj (hc₂.symm.trans hc)
          have hok := Option.some.inj (hl₂.symm.trans ((lookup_later hsn hread).trans hl))
          subst hok
          exact .inr ⟨hroots.trans (hroots₂.symm.trans (last_setRoots hw _)),
            hstate.trans hstate₂.symm⟩
        · rw [e] at hloop
          cases hloop

end Run

end Engine

end MediaScanMonitor
