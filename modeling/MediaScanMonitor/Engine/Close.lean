import MediaScanMonitor.Engine.Roots

/-!
# Engine — `aclose` is terminal

`aclose` takes no lock and leaves no mark, so what `start`, a rebuild or an event handler was at
resumes on the closed engine, and a later `rebuild` is served as before it.  `Orderly` excludes
the steps that undo the close.

* `Owned`: the invariant.  Each client is closed, installed, held by an unfinished `start` or
  rebuild, or left to a rebuild to close; and after the return nothing is left that could act.
* `aclose_terminal`: in every run that meets `Orderly`, nothing comes back after the return.
-/

namespace MediaScanMonitor
open Py
open Debouncer (OfLoop Suspended Armed)

/-- The clients an unfinished `start` holds. -/
def StartPhase.held : StartPhase → List Nat
  | .building _ _ b => b.clients.map Prod.snd
  | .idle | .reading _ | .policy _ _ | .limit _ _ _ | .looping | .finished => []

/-- The clients an unfinished rebuild holds. -/
def RebuildPhase.held : RebuildPhase → List Nat
  | .building _ b => b.clients.map Prod.snd
  | .policy _ clients | .limit _ clients _ => clients.map Prod.snd
  | .waiting | .reading | .closing _ | .finished => []

/-- The clients a rebuild has still to close. -/
def RebuildPhase.old : RebuildPhase → List Nat
  | .closing old => old
  | .waiting | .reading | .building _ _ | .policy _ _ | .limit _ _ _ | .finished => []

/-! ### Steps of the debouncer's loop -/

namespace Debouncer

variable {d d' : Debouncer} {act : Act} {job : Job} {u : Nat}

/-- What a step of the loop does to the jobs and the dispatches. -/
structure LoopStep (d d' : Debouncer) : Prop where
  windows : d'.jobs.map Job.window = d.jobs.map Job.window
  armed : ∀ job' ∈ d'.jobs, Armed job' → ∃ job ∈ d.jobs, Armed job ∧ job'.req = job.req
  /-- At most one armed job is dispatched. -/
  fired : d'.dispatches = d.dispatches ∨ ∃ t job job', d.jobs[t]? = some job ∧ Armed job ∧
    d'.dispatches = d.dispatches ++ [(t, d.now)] ∧ d'.jobs[t]? = some job' ∧ job'.req = job.req

theorem LoopStep.refl (d : Debouncer) : LoopStep d d where
  windows := rfl
  armed job hj ha := ⟨job, hj, ha, rfl⟩
  fired := .inl rfl

theorem windows_setPhase (d : Debouncer) (u : Nat) (phase : Phase) :
    (d.setPhase u phase).jobs.map Job.window = d.jobs.map Job.window := by
  refine List.ext_getElem? fun t => ?_
  rw [List.getElem?_map, List.getElem?_map, getElem?_setPhase]
  split
  · rw [Option.map_map]
    rfl
  · rfl

theorem armed_setPhase {phase : Phase} (hj : d.jobs[u]? = some job)
    (ha : Armed { job with phase := phase } → Armed job) :
    ∀ job' ∈ (d.setPhase u phase).jobs, Armed job' →
      ∃ job ∈ d.jobs, Armed job ∧ job'.req = job.req := by
  intro job' hj' ha'
  obtain ⟨t, ht⟩ := List.mem_iff_getElem?.mp hj'
  rw [getElem?_setPhase] at ht
  by_cases e : u = t
  · subst e
    rw [if_pos rfl, hj] at ht
    cases ht
    exact ⟨job, List.mem_of_getElem? hj, ha ha', rfl⟩
  · rw [if_neg e] at ht
    exact ⟨job', List.mem_of_getElem? ht, ha', rfl⟩

theorem loopStep_setPhase {phase : Phase} (hj : d.jobs[u]? = some job)
    (ha : Armed { job with phase := phase } → Armed job) : LoopStep d (d.setPhase u phase) where
  windows := windows_setPhase d u phase
  armed := armed_setPhase hj ha
  fired := .inl rfl

theorem loopStep_fireAfter (hj : d.jobs[u]? = some job) (ha : Armed job) :
    LoopStep d (d.fireAfter u job) := by
  rw [fireAfter]
  split
  · refine ⟨windows_setPhase { d with timers := _, dispatches := _ } u .dispatching,
      armed_setPhase (d := { d with timers := _, dispatches := _ }) hj fun h => ha,
      .inr ⟨u, job, { job with phase := .dispatching }, hj, ha, rfl, ?_, rfl⟩⟩
    rw [getElem?_setPhase, if_pos rfl, hj]
    rfl
  · exact loopStep_setPhase hj fun _ => ha

theorem loopStep_next (hen : machine.enabled d act) (hact : OfLoop act) :
    LoopStep d (machine.next d act) := by
  cases act with
  | submit req => exact hact.elim
  | run task =>
      obtain ⟨job, hj, hs⟩ := hen
      change LoopStep d (d.run task)
      rcases run_cases hj hs with ⟨hc, e⟩ | ⟨hc, hp, ⟨-, e⟩ | ⟨window, -, e⟩⟩ | ⟨hc, hp, e⟩ <;>
        rw [e]
      · exact loopStep_setPhase hj fun h => absurd h.2 (by simp)
      · exact .refl d
      · exact loopStep_setPhase hj fun _ => ⟨hc, .inl hp⟩
      · exact loopStep_fireAfter hj ⟨hc, .inr (.inr hp)⟩
  | wake task =>
      obtain ⟨job, hj, hc, wake, -, hp⟩ := hen
      exact loopStep_setPhase hj fun _ => ⟨hc, .inr (.inl ⟨wake, hp⟩)⟩
  | finish task =>
      obtain ⟨job, hj, -⟩ := hen
      exact loopStep_setPhase hj fun h => absurd h.2 (by simp)
  | tick dt =>
      exact ⟨rfl, fun job hj ha => ⟨job, hj, ha, rfl⟩, .inl rfl⟩
  | updateServers servers => exact hact.elim
  | aclose => exact hact.elim

end Debouncer

namespace Engine

variable {lower : Str → Str} {s s' : Engine} {act : Act}

/-! ### The condition -/

/-- A configuration may be installed with these clients: `aclose` has not read `_clients` yet, or
there are none and it has not returned. -/
def Takes (s : Engine) (clients : List (Int × Nat)) : Prop :=
  match s.closing with
  | .idle | .timers _ => True
  | .clients _ => clients = []
  | .returned => False

/-- A submission of the request arms no timer and triggers nothing. -/
def Inert (s : Engine) (req : ScanRequest) : Prop :=
  (∀ d ∈ s.debouncer, Debouncer.windowOf d.servers req.serverId = none) ∧
    req.serverId ∉ s.adapters.getD []

/-- No unfinished `start` or rebuild holds a client, and no timer is armed for a server that has
an adapter. -/
def Settled (s : Engine) : Prop :=
  s.start.held = [] ∧ (∀ phase ∈ s.rebuilds, phase.held = []) ∧
    ∀ d ∈ s.debouncer, ∀ job ∈ d.jobs, Armed job → job.req.serverId ∉ s.adapters.getD []

/-- The step does not undo the close: a configuration is installed only as long as `aclose` still
finds its clients, `aclose` returns to a settled engine, and then nothing is begun that has to be
closed again.  A rebuild whose gate check raises must not drop clients, closed engine or not. -/
def Orderly (s : Engine) : Act → Prop
  | .start _ => s.closing = .returned → s.started = true
  | .startBuild ok | .rebuildBuild _ ok => s.closing = .returned → ok = false
  | .startBuilt =>
    match s.start with
    | .building _ sn b =>
      -- with nothing to watch the roots are set at once, else the gate is asked first
      s.Takes b.clients ∨ sn.config.watchPaths ≠ [] ∧ b.clients = []
    | _ => True
  | .startLimit (some _) => s.Takes []
  | .rebuildBuilt k =>
    match s.rebuilds[k]? with
    | some (.building sn b) => s.Takes b.clients ∨ sn.config.watchPaths ≠ []
    | _ => True
  | .rebuildPolicy k none =>
    match s.rebuilds[k]? with
    | some (.policy _ clients) => clients = []
    | _ => True
  | .rebuildLimit k (some _) =>
    match s.rebuilds[k]? with
    | some (.limit _ clients _) => s.Takes clients
    | _ => True
  | .rebuildLimit k none =>
    match s.rebuilds[k]? with
    | some (.limit _ clients _) => clients = []
    | _ => True
  | .submit => s.closing = .returned → ∀ req ∈ s.todo.head?, s.Inert req
  | .closeClient => s.closing = .clients [] → s.Settled
  | _ => True

instance (s : Engine) (clients : List (Int × Nat)) : Decidable (s.Takes clients) :=
  match h : s.closing with
  | .idle | .timers _ => .isTrue (by rw [Takes, h]; trivial)
  | .clients _ => decidable_of_iff (clients = []) (by rw [Takes, h])
  | .returned => .isFalse (by rw [Takes, h]; exact id)

instance (s : Engine) (req : ScanRequest) : Decidable (s.Inert req) :=
  inferInstanceAs (Decidable (_ ∧ _))

instance (s : Engine) : Decidable s.Settled :=
  inferInstanceAs (Decidable (_ ∧ _ ∧ _))

instance (s : Engine) (act : Act) : Decidable (Orderly s act) :=
  match act with
  | .start _ | .startBuild _ | .rebuildBuild _ _ | .submit | .closeClient =>
    inferInstanceAs (Decidable (_ → _))
  | .startBuilt =>
    match h : s.start with
    | .building _ sn b =>
      decidable_of_iff (s.Takes b.clients ∨ sn.config.watchPaths ≠ [] ∧ b.clients = [])
        (by rw [Orderly, h])
    | .idle | .reading _ | .policy _ _ | .limit _ _ _ | .looping | .finished =>
      .isTrue (by rw [Orderly, h]; trivial)
  | .startLimit (some _) => inferInstanceAs (Decidable (s.Takes []))
  | .rebuildBuilt k =>
    match h : s.rebuilds[k]? with
    | some (.building sn b) =>
      decidable_of_iff (s.Takes b.clients ∨ sn.config.watchPaths ≠ []) (by rw [Orderly, h])
    | none | some .waiting | some .reading | some (.policy _ _) | some (.limit _ _ _)
    | some (.closing _) | some .finished => .isTrue (by rw [Orderly, h]; trivial)
  | .rebuildPolicy k none =>
    match h : s.rebuilds[k]? with
    | some (.policy _ clients) => decidable_of_iff (clients = []) (by rw [Orderly, h])
    | none | some .waiting | some .reading | some (.building _ _) | some (.limit _ _ _)
    | some (.closing _) | some .finished => .isTrue (by rw [Orderly, h]; trivial)
  | .rebuildLimit k limit =>
    match h : s.rebuilds[k]?, limit with
    | some (.limit _ clients _), some _ => decidable_of_iff (s.Takes clients) (by rw [Orderly, h])
    | some (.limit _ clients _), none => decidable_of_iff (clients = []) (by rw [Orderly, h])
    | none, none | some .waiting, none | some .reading, none | some (.building _ _), none
    | some (.policy _ _), none | some (.closing _), none | some .finished, none
    | none, some _ | some .waiting, some _ | some .reading, some _ | some (.building _ _), some _
    | some (.policy _ _), some _ | some (.closing _), some _ | some .finished, some _ =>
      .isTrue (by rw [Orderly, h]; trivial)
  | .startRead _ | .startPolicy _ | .startLimit none | .rebuild | .acquire _ | .rebuildRead _ _
  | .rebuildPolicy _ (some _) | .rebuildClose _ | .read _ | .yield | .loop _ | .aclose
  | .closeTimers => .isTrue trivial

/-! ### Who closes a client -/

/-- The client is closed, installed, held by an unfinished `start` or rebuild, or left to a
rebuild to close. -/
def Accounted (s : Engine) (c : Nat) : Prop :=
  c ∈ s.closed ∨ c ∈ s.clients.map Prod.snd ∨ c ∈ s.start.held ∨
    ∃ (k : Nat) (phase : RebuildPhase),
      s.rebuilds[k]? = some phase ∧ (c ∈ phase.held ∨ c ∈ phase.old)

structure Owned (s : Engine) : Prop where
  early : Early s
  accounted : ∀ c < s.created, s.Accounted c
  /-- `aclose` finds the installed clients. -/
  collected : ∀ left, s.closing = .clients left →
    ∀ c ∈ s.clients.map Prod.snd, c ∈ s.closed ∨ c ∈ left
  returned : s.closing = .returned → s.clients = [] ∧ s.state = .stopped ∧ s.Settled

theorem owned_init (watcher : Option Watching) : Owned (init watcher) where
  early := early_init watcher
  accounted c hc := absurd hc (Nat.not_lt_zero c)
  collected left h := by cases h
  returned h := by cases h

variable {k c : Nat} {phase phase' : RebuildPhase}

/-- A rebuild goes on, and says what becomes of its clients. -/
theorem Accounted.setRebuild (hk : s.rebuilds[k]? = some phase)
    (hphase : c ∈ phase.held ∨ c ∈ phase.old → c ∈ phase'.held ∨ c ∈ phase'.old)
    (h : s.Accounted c) : (s.setRebuild k phase').Accounted c := by
  have hlt := (List.getElem?_eq_some_iff.mp hk).1
  rcases h with h | h | h | ⟨j, p, hj, hp⟩
  · exact .inl h
  · exact .inr (.inl h)
  · exact .inr (.inr (.inl h))
  · refine .inr (.inr (.inr ?_))
    by_cases e : k = j
    · subst e
      cases hk.symm.trans hj
      exact ⟨k, phase', by rw [getElem?_setRebuild s hlt, if_pos rfl], hphase hp⟩
    · exact ⟨j, p, by rw [getElem?_setRebuild s hlt, if_neg e, hj], hp⟩

theorem accounted_setRebuild (hk : s.rebuilds[k]? = some phase)
    (h : c ∈ phase'.held ∨ c ∈ phase'.old) : (s.setRebuild k phase').Accounted c :=
  .inr (.inr (.inr ⟨k, phase',
    by rw [getElem?_setRebuild s (List.getElem?_eq_some_iff.mp hk).1, if_pos rfl], h⟩))

theorem Settled.setRebuild (hs : Settled s) (hheld : phase'.held = []) :
    Settled (s.setRebuild k phase') := by
  obtain ⟨hstart, hrebuilds, htimers⟩ := hs
  refine ⟨hstart, fun p hp => ?_, htimers⟩
  rcases List.mem_or_eq_of_mem_set hp with hp | rfl
  · exact hrebuilds p hp
  · exact hheld

/-- A `start` that holds nothing goes on. -/
theorem Accounted.of_start (h : s.Accounted c) (hheld : s.start.held = []) (p : StartPhase) :
    ({ s with start := p } : Engine).Accounted c := by
  rw [Accounted, hheld] at h
  exact h.imp_right fun h => h.imp_right fun h => h.imp_left fun h => absurd h List.not_mem_nil

/-- A client is created: it is closed, or the build holds it. -/
theorem accounted_createClient {ok : Bool} (hs : ∀ c < s.created, s.Accounted c)
    (hc : c < (s.createClient ok).created) :
    (s.createClient ok).Accounted c ∨ c = s.created ∧ ok = true := by
  have hc : c < s.created + 1 := hc
  cases ok with
  | true =>
      rcases Nat.lt_succ_iff_lt_or_eq.mp hc with hc | rfl
      · exact .inl (hs c hc)
      · exact .inr ⟨rfl, rfl⟩
  | false =>
      refine .inl ?_
      rcases Nat.lt_succ_iff_lt_or_eq.mp hc with hc | rfl
      · exact (hs c hc).imp_left fun h => List.mem_cons_of_mem _ h
      · exact .inl List.mem_cons_self

theorem closed_createClient {ok : Bool} (h : c ∈ s.closed) : c ∈ (s.createClient ok).closed := by
  rw [createClient]
  cases ok with
  | true => exact h
  | false => exact List.mem_cons_of_mem _ h

/-- What a build holds after one more server is what it held, and the new client if it is kept. -/
theorem map_snd_next (b : Build) (serverId : Int) (todo : List Int) (client : Nat) (ok : Bool) :
    (b.next serverId todo client ok).clients.map Prod.snd =
      b.clients.map Prod.snd ++ if ok then [client] else [] := by
  rw [Build.next]
  cases ok <;> simp

theorem held_next {b : Build} {serverId : Int} {todo : List Int} {client : Nat} {ok : Bool}
    (h : c ∈ b.clients.map Prod.snd ∨ c = client ∧ ok = true) :
    c ∈ (b.next serverId todo client ok).clients.map Prod.snd := by
  rw [map_snd_next, List.mem_append]
  refine h.imp_right ?_
  rintro ⟨rfl, rfl⟩
  exact List.mem_singleton_self c

theorem Owned.watchLimit (hs : Owned s) (limit : Option WatchLimitStatus) :
    Owned { s with watchLimit := limit } :=
  ⟨⟨hs.early.nothing, hs.early.unwired, hs.early.idle⟩, hs.accounted, hs.collected, hs.returned⟩

theorem Owned.swap (hs : Owned s) {sn : Snapshot} {clients : List (Int × Nat)} {ok : Bool}
    (hk : s.rebuilds[k]? = some phase) (hheld : phase.held = clients.map Prod.snd)
    (hold : phase.old = []) (htakes : s.Takes clients) (he : Early (s.swap k sn clients ok)) :
    Owned (s.swap k sn clients ok) where
  early := he
  accounted c hc := by
    have hlt := (List.getElem?_eq_some_iff.mp hk).1
    have hget : ∀ j, (s.swap k sn clients ok).rebuilds[j]? =
        if k = j then some (.closing (s.clients.map Prod.snd)) else s.rebuilds[j]? :=
      fun j => getElem?_setRebuild s hlt
    rcases hs.accounted c hc with h | h | h | ⟨j, p, hj, hp⟩
    · exact .inl h
    · -- the clients that were installed are left to the rebuild
      exact .inr (.inr (.inr ⟨k, .closing _, by rw [hget, if_pos rfl], .inr h⟩))
    · exact .inr (.inr (.inl h))
    · by_cases e : k = j
      · subst e
        cases hk.symm.trans hj
        rw [hheld, hold] at hp
        exact .inr (.inl (hp.resolve_right List.not_mem_nil))
      · exact .inr (.inr (.inr ⟨j, p, by rw [hget, if_neg e, hj], hp⟩))
  collected left h := by
    have hclosing : s.closing = .clients left := h
    rw [Takes, hclosing] at htakes
    subst htakes
    intro c hc
    cases hc
  returned h := by
    have hclosing : s.closing = .returned := h
    rw [Takes, hclosing] at htakes
    exact htakes.elim

theorem Owned.of_start (hs : Owned s) {p : StartPhase} (he : Early { s with start := p })
    (hheld : s.start.held = []) (hp : p.held = []) : Owned { s with start := p } where
  early := he
  accounted c hc := (hs.accounted c hc).of_start hheld p
  collected := hs.collected
  returned h := by
    obtain ⟨hclients, hstate, -, hset⟩ := hs.returned h
    exact ⟨hclients, hstate, hp, hset⟩

theorem owned_attach {park ok : Bool} {sn : Snapshot} (he : Early (s.attach park sn ok))
    (hacc : ∀ p, ∀ c < s.created, ({ s with start := p } : Engine).Accounted c)
    (hcollected : ∀ left, s.closing = .clients left →
      ∀ c ∈ s.clients.map Prod.snd, c ∈ s.closed ∨ c ∈ left)
    (htakes : s.Takes []) : Owned (s.attach park sn ok) := by
  have hreturned : s.closing ≠ .returned := by
    intro h
    rwa [Takes, h] at htakes
  rcases s.attach_cases park sn ok with e | e <;> rw [e] at he ⊢
  · exact ⟨he, hacc _, hcollected, fun h => absurd h hreturned⟩
  · exact ⟨he, hacc _, hcollected, fun h => absurd h hreturned⟩

/-- `start` installs what it holds: nothing was installed before. -/
theorem owned_wire (hs : Owned s) {park : Bool} {sn : Snapshot} {b : Build}
    (h : s.start = .building park sn b)
    (hG : s.Takes b.clients ∨ sn.config.watchPaths ≠ [] ∧ b.clients = [])
    (he : Early (s.wire park sn b.clients)) : Owned (s.wire park sn b.clients) := by
  have hclients : s.clients = [] :=
    (hs.early.nothing (hs.early.unwired (by rw [Unwired, h]; trivial))).1
  have hacc : ∀ c < s.created, c ∈ s.closed ∨ c ∈ b.clients.map Prod.snd ∨
      ∃ (k : Nat) (phase : RebuildPhase), s.rebuilds[k]? = some phase ∧
        (c ∈ phase.held ∨ c ∈ phase.old) := by
    intro c hc
    have hc := hs.accounted c hc
    rw [Accounted, hclients, h] at hc
    exact hc.imp_right fun hc => hc.resolve_left List.not_mem_nil
  have hcollected : ∀ left, s.closing = .clients left →
      ∀ c ∈ b.clients.map Prod.snd, c ∈ s.closed ∨ c ∈ left := by
    intro left hleft c hc
    rw [Takes, hleft] at hG
    rw [hG.elim id And.right] at hc
    cases hc
  rw [wire] at he ⊢
  split at he
  · rename_i hpaths
    rw [if_pos hpaths]
    have htakes := hG.resolve_right fun h => h.1 hpaths
    refine owned_attach he (fun p c hc => (hacc c hc).imp_right fun h => h.imp_right .inr)
      hcollected ?_
    rw [Takes] at htakes ⊢
    cases e : s.closing with
    | idle => trivial
    | timers tasks => trivial
    | clients left => rfl
    | returned => rwa [e] at htakes
  · rename_i hpaths
    rw [if_neg hpaths]
    refine ⟨he, fun c hc => (hacc c hc).imp_right fun h => h.imp_right .inr, hcollected,
      fun hr => ?_⟩
    obtain ⟨-, hstate, -, hrebuilds, -⟩ := hs.returned hr
    have hnone : b.clients = [] := by
      rcases hG with hG | hG
      · rw [Takes, show s.closing = .returned from hr] at hG
        exact hG.elim
      · exact hG.2
    refine ⟨hnone, hstate, rfl, hrebuilds, fun d hd job hj => ?_⟩
    cases hd
    cases hj

theorem Owned.returned_setRebuild (hs : Owned s) (hk : s.rebuilds[k]? = some phase)
    (hheld : phase.held = [] → phase'.held = []) (hr : s.closing = .returned) :
    s.clients = [] ∧ s.state = .stopped ∧ (s.setRebuild k phase').Settled := by
  obtain ⟨hclients, hstate, hset⟩ := hs.returned hr
  exact ⟨hclients, hstate, hset.setRebuild (hheld (hset.2.1 phase (List.mem_of_getElem? hk)))⟩

theorem Owned.setRebuild (hs : Owned s) (hk : s.rebuilds[k]? = some phase)
    (hheld : phase'.held = phase.held) (hold : phase'.old = phase.old)
    (he : Early (s.setRebuild k phase')) : Owned (s.setRebuild k phase') where
  early := he
  accounted c hc := (hs.accounted c hc).setRebuild hk fun h => by rwa [hheld, hold]
  collected := hs.collected
  returned := hs.returned_setRebuild hk fun h => hheld.trans h

/-- The jobs armed on a settled engine are still those without an adapter. -/
theorem Settled.setDebouncer (hs : Settled s) {d d' : Debouncer} (hd : s.debouncer = some d)
    (harmed : ∀ job' ∈ d'.jobs, Armed job' → ∃ job ∈ d.jobs, Armed job ∧ job'.req = job.req) :
    Settled (s.setDebouncer d d') := by
  obtain ⟨hstart, hrebuilds, htimers⟩ := hs
  refine ⟨hstart, hrebuilds, fun d₁ hd₁ job' hj' ha' => ?_⟩
  cases hd₁
  obtain ⟨job, hj, ha, hreq⟩ := harmed job' hj' ha'
  rw [hreq]
  exact htimers d hd job hj ha

theorem Inert.submit {d : Debouncer} {req : ScanRequest} (h : s.Inert req)
    (hd : s.debouncer = some d) : d.submit req = d.dispatchNow req :=
  Debouncer.submit_of_none d (h.1 d hd)

/-- A dispatch at once arms nothing. -/
theorem armed_dispatchNow (d : Debouncer) (req : ScanRequest) :
    ∀ job' ∈ (d.dispatchNow req).jobs, Armed job' →
      ∃ job ∈ d.jobs, Armed job ∧ job'.req = job.req := by
  intro job' hj' ha'
  rcases List.mem_append.mp hj' with hj | hj
  · exact ⟨job', hj, ha', rfl⟩
  · obtain rfl := List.mem_singleton.mp hj
    exact absurd ha'.2 (by simp)

theorem Owned.next (hs : Owned s) (h : Step lower s act s') (hG : Orderly s act) : Owned s' := by
  have he := hs.early.next h
  cases h with
  | startAgain | rebuildSkipped => exact hs
  | start h =>
      refine ⟨he, fun c hc => ?_, hs.collected, fun hr => ?_⟩
      · exact (hs.accounted c hc).of_start (by rw [hs.early.idle h]; rfl) _
      · rw [hG hr] at h
        cases h
  | startRead h =>
      refine ⟨he, fun c hc => ?_, hs.collected, fun hr => ?_⟩
      · exact (hs.accounted c hc).of_start (by rw [h]; rfl) _
      · obtain ⟨hclients, hstate, -, hset⟩ := hs.returned hr
        exact ⟨hclients, hstate, rfl, hset⟩
  | startReadRaised h => exact hs.of_start he (by rw [h]; rfl) rfl
  | @startBuild park ok sn b serverId todo h hb =>
      refine ⟨he, fun c hc => ?_, fun left hleft c hc => ?_, fun hr => ?_⟩
      · rcases accounted_createClient hs.accounted hc with hc | hc
        · rw [Accounted, show (s.createClient ok).start = s.start from rfl, h] at hc
          exact hc.imp_right fun hc => hc.imp_right fun hc =>
            hc.imp_left fun hc => held_next (.inl hc)
        · exact .inr (.inr (.inl (held_next (.inr hc))))
      · exact (hs.collected left hleft c hc).imp_left closed_createClient
      · obtain ⟨hclients, hstate, hheld, hset⟩ := hs.returned hr
        obtain rfl : ok = false := hG hr
        rw [h] at hheld
        exact ⟨hclients, hstate, hheld, hset⟩
  | startBuilt h hb =>
      rw [Orderly, h] at hG
      exact owned_wire hs h hG he
  | startPolicy h => exact hs.of_start he (by rw [h]; rfl) rfl
  | startPolicyRaised h => exact hs.of_start he (by rw [h]; rfl) rfl
  | startLimit h =>
      exact owned_attach he (fun p c hc => (hs.accounted c hc).of_start (by rw [h]; rfl) p)
        hs.collected hG
  | startLimitRaised h => exact hs.of_start he (by rw [h]; rfl) rfl
  | rebuild hadapters hwatcher =>
      refine ⟨he, fun c hc => ?_, hs.collected, fun hr => ?_⟩
      · refine (hs.accounted c hc).imp_right fun h => h.imp_right fun h => h.imp_right ?_
        rintro ⟨j, p, hj, hp⟩
        refine ⟨j, p, ?_, hp⟩
        rw [List.getElem?_append_left (List.getElem?_eq_some_iff.mp hj).1, hj]
      · obtain ⟨hclients, hstate, hstart, hrebuilds, htimers⟩ := hs.returned hr
        refine ⟨hclients, hstate, hstart, fun p hp => ?_, htimers⟩
        rcases List.mem_append.mp hp with hp | hp
        · exact hrebuilds p hp
        · obtain rfl := List.mem_singleton.mp hp
          rfl
  | acquire h => exact hs.setRebuild h rfl rfl he
  | rebuildRead h =>
      exact ⟨he, fun c hc => (hs.accounted c hc).setRebuild h id, hs.collected,
        hs.returned_setRebuild h fun _ => rfl⟩
  | rebuildReadRaised h => exact hs.setRebuild h rfl rfl he
  | @rebuildBuild k ok sn b serverId todo h hb =>
      refine ⟨he, fun c hc => ?_, fun left hleft c hc => ?_, fun hr => ?_⟩
      · rcases accounted_createClient hs.accounted hc with hc | hc
        · exact hc.setRebuild (s := s.createClient ok) h fun hc =>
            hc.imp_left fun hc => held_next (.inl hc)
        · exact accounted_setRebuild (s := s.createClient ok) h (.inl (held_next (.inr hc)))
      · exact (hs.collected left hleft c hc).imp_left closed_createClient
      · obtain rfl : ok = false := hG hr
        exact hs.returned_setRebuild h id hr
  | @rebuildBuilt k sn b h hb =>
      rw [Orderly, h] at hG
      rw [rebuilt] at he ⊢
      split at he
      · rename_i hpaths
        rw [if_pos hpaths]
        exact (hs.watchLimit none).swap h rfl rfl (hG.resolve_right fun h => h hpaths) he
      · rename_i hpaths
        rw [if_neg hpaths]
        exact hs.setRebuild h rfl rfl he
  | rebuildPolicy h => exact hs.setRebuild h rfl rfl he
  | rebuildPolicyRaised h =>
      rw [Orderly, h] at hG
      exact hs.setRebuild h (by rw [hG]; rfl) rfl he
  | rebuildLimit h =>
      rw [Orderly, h] at hG
      exact (hs.watchLimit _).swap h rfl rfl hG he
  | rebuildLimitRaised h =>
      rw [Orderly, h] at hG
      exact hs.setRebuild h (by rw [hG]; rfl) rfl he
  | @rebuildClose k client old h =>
      refine ⟨he, fun c hc => ?_, fun left hleft c hc => ?_, hs.returned_setRebuild h id⟩
      · by_cases e : c = client
        · exact .inl (List.mem_cons.mpr (.inl e))
        · have hleft : (s.setRebuild k (.closing old)).Accounted c :=
            (hs.accounted c hc).setRebuild h fun hc =>
              hc.imp_right fun hc => (List.mem_cons.mp hc).resolve_left e
          exact hleft.imp_left fun h => List.mem_cons_of_mem _ h
      · exact (hs.collected left hleft c hc).imp_left fun h => List.mem_cons_of_mem _ h
  | rebuildOver h => exact hs.setRebuild h rfl rfl he
  | read h hturn => exact ⟨he, hs.accounted, hs.collected, hs.returned⟩
  | yield h hturn => exact ⟨he, hs.accounted, hs.collected, hs.returned⟩
  | submit h htodo =>
      refine ⟨he, hs.accounted, hs.collected, fun hr => ?_⟩
      obtain ⟨hclients, hstate, hset⟩ := hs.returned hr
      have hinert : s.Inert _ := hG hr _ (by rw [htodo]; rfl)
      rw [hinert.submit h]
      exact ⟨hclients, hstate, hset.setDebouncer h (armed_dispatchNow _ _)⟩
  | loop h hact hen =>
      refine ⟨he, hs.accounted, hs.collected, fun hr => ?_⟩
      obtain ⟨hclients, hstate, hset⟩ := hs.returned hr
      exact ⟨hclients, hstate, hset.setDebouncer h (Debouncer.loopStep_next hen hact).armed⟩
  | aclose h hd => exact ⟨he, hs.accounted, (fun left e => by cases e), fun e => by cases e⟩
  | acloseUnwired h hd =>
      refine ⟨he, hs.accounted, fun left hleft c hc => ?_, fun e => by cases e⟩
      cases hleft
      exact .inr hc
  | closeTimers h =>
      refine ⟨he, hs.accounted, fun left hleft c hc => ?_, fun e => by cases e⟩
      cases hleft
      exact .inr hc
  | closeClient h =>
      refine ⟨he, fun c hc => ?_, fun left hleft c hc => ?_, fun e => by cases e⟩
      · exact (hs.accounted c hc).imp_left fun h => List.mem_cons_of_mem _ h
      · cases hleft
        rcases hs.collected _ h c hc with hc | hc
        · exact .inl (List.mem_cons_of_mem _ hc)
        · exact (List.mem_cons.mp hc).imp_left fun e => List.mem_cons.mpr (.inl e)
  | returned h =>
      refine ⟨he, fun c hc => ?_, (fun left e => by cases e), fun _ => ⟨rfl, rfl, hG h⟩⟩
      rcases hs.accounted c hc with hc | hc | hc
      · exact .inl hc
      · exact .inl ((hs.collected [] h c hc).resolve_right List.not_mem_nil)
      · exact .inr (.inr hc)

/-! ### After the return -/

/-- The submissions that armed a timer. -/
def armed (s : Engine) : Nat :=
  (((s.debouncer.map Debouncer.jobs).getD []).map Job.window).countP Option.isSome

/-- The `set_roots` calls. -/
def rootsSet (s : Engine) : List (List Str) := (s.watcher.map Watching.roots).getD []

/-- A step of the loop on a settled engine triggers nothing. -/
theorem triggered_loop (hs : Settled s) {d d' : Debouncer} (hd : s.debouncer = some d)
    (h : Debouncer.LoopStep d d') : s.triggered d d' = [] := by
  rw [triggered]
  rcases h.fired with e | ⟨t, job, job', hj, ha, e, hj', hreq⟩
  · rw [e, List.drop_length]
    rfl
  · have hout : job'.req.serverId ∉ s.adapters.getD [] := by
      rw [hreq]
      exact hs.2.2 d hd job (List.mem_of_getElem? hj) ha
    simp [e, hj', hout]

theorem triggered_dispatchNow (d : Debouncer) {req : ScanRequest}
    (h : req.serverId ∉ s.adapters.getD []) : s.triggered d (d.dispatchNow req) = [] := by
  simp [triggered, Debouncer.dispatchNow, h]

/-- `s'` is still closed, and what `s` had armed, triggered and set is all there is. -/
structure Kept (s s' : Engine) : Prop where
  returned : s'.closing = .returned
  armed : s'.armed = s.armed
  triggers : s'.triggers = s.triggers
  roots : s'.rootsSet = s.rootsSet

theorem Kept.trans {s'' : Engine} (h : Kept s s') (h' : Kept s' s'') : Kept s s'' where
  returned := h'.returned
  armed := h'.armed.trans h.armed
  triggers := h'.triggers.trans h.triggers
  roots := h'.roots.trans h.roots

theorem not_takes (hr : s.closing = .returned) (clients : List (Int × Nat)) :
    ¬ s.Takes clients := by
  rw [Takes, hr]
  exact id

/-- **A step after the return** arms nothing, triggers nothing and sets no roots. -/
theorem Owned.kept (hs : Owned s) (hr : s.closing = .returned) (h : Step lower s act s')
    (hG : Orderly s act) : Kept s s' := by
  obtain ⟨-, -, hset⟩ := hs.returned hr
  cases h with
  | startAgain => exact ⟨hr, rfl, rfl, rfl⟩
  | rebuildSkipped => exact ⟨hr, rfl, rfl, rfl⟩
  | start h => exact ⟨hr, rfl, rfl, rfl⟩
  | startRead h =>
      refine ⟨hr, rfl, rfl, ?_⟩
      show ((some (s.watcher.getD ⟨false, []⟩)).map Watching.roots).getD [] = s.rootsSet
      rw [rootsSet]
      cases s.watcher with
      | none => rfl
      | some w => rfl
  | startReadRaised h => exact ⟨hr, rfl, rfl, rfl⟩
  | startBuild h hb => exact ⟨hr, rfl, rfl, rfl⟩
  | @startBuilt park sn b h hb =>
      have hd : s.debouncer = none :=
        (hs.early.nothing (hs.early.unwired (by rw [Unwired, h]; trivial))).2.1
      rw [Orderly, h] at hG
      have hpaths := (hG.resolve_left (not_takes hr _)).1
      rw [wire, if_neg hpaths]
      refine ⟨hr, ?_, rfl, rfl⟩
      rw [armed, armed, hd]
      rfl
  | startPolicy h => exact ⟨hr, rfl, rfl, rfl⟩
  | startPolicyRaised h => exact ⟨hr, rfl, rfl, rfl⟩
  | startLimit h => exact absurd hG (not_takes hr _)
  | startLimitRaised h => exact ⟨hr, rfl, rfl, rfl⟩
  | rebuild hadapters hwatcher => exact ⟨hr, rfl, rfl, rfl⟩
  | acquire h => exact ⟨hr, rfl, rfl, rfl⟩
  | rebuildRead h => exact ⟨hr, rfl, rfl, rfl⟩
  | rebuildReadRaised h => exact ⟨hr, rfl, rfl, rfl⟩
  | rebuildBuild h hb => exact ⟨hr, rfl, rfl, rfl⟩
  | rebuildBuilt h hb =>
      rw [Orderly, h] at hG
      rw [rebuilt, if_neg (hG.resolve_left (not_takes hr _))]
      exact ⟨hr, rfl, rfl, rfl⟩
  | rebuildPolicy h => exact ⟨hr, rfl, rfl, rfl⟩
  | rebuildPolicyRaised h => exact ⟨hr, rfl, rfl, rfl⟩
  | rebuildLimit h =>
      rw [Orderly, h] at hG
      exact absurd hG (not_takes hr _)
  | rebuildLimitRaised h => exact ⟨hr, rfl, rfl, rfl⟩
  | rebuildClose h => exact ⟨hr, rfl, rfl, rfl⟩
  | rebuildOver h => exact ⟨hr, rfl, rfl, rfl⟩
  | read h hturn => exact ⟨hr, rfl, rfl, rfl⟩
  | yield h hturn => exact ⟨hr, rfl, rfl, rfl⟩
  | @submit d req todo h htodo =>
      have hinert : s.Inert req := hG hr _ (by rw [htodo]; rfl)
      rw [hinert.submit h]
      refine ⟨hr, ?_, ?_, rfl⟩
      · rw [armed, armed, h]
        simp [setDebouncer, Debouncer.dispatchNow]
      · show s.triggers ++ s.triggered d (d.dispatchNow req) = s.triggers
        rw [triggered_dispatchNow d hinert.2, List.append_nil]
  | @loop d act h hact hen =>
      have hloop := Debouncer.loopStep_next hen hact
      refine ⟨hr, ?_, ?_, rfl⟩
      · rw [armed, armed, h]
        exact congrArg (List.countP _) hloop.windows
      · show s.triggers ++ s.triggered d (Debouncer.machine.next d act) = s.triggers
        rw [triggered_loop hset h hloop, List.append_nil]
  | aclose h | acloseUnwired h | closeTimers h | closeClient h | returned h =>
      rw [hr] at h
      cases h

/-! ### The clients a rebuild closes -/

/-- What is left to a rebuild to close is closed by the steps it has to go. -/
theorem ends_closed {old : List Nat} (hk : s.rebuilds[k]? = some (.closing old)) (hc : c ∈ old) :
    ∃ n s', Lts.Run (system lower) Orderly s (List.replicate n (.rebuildClose k)) s' ∧
      c ∈ s'.closed := by
  induction old generalizing s with
  | nil => cases hc
  | cons client old ih =>
      obtain ⟨hen, hnext⟩ := rebuildClose_enabled hk
      rcases List.mem_cons.mp hc with rfl | hc
      · refine ⟨1, _, Lts.Run.one hen trivial, ?_⟩
        rw [hnext]
        exact List.mem_cons_self
      · have hk' : ({ s.setRebuild k (.closing old) with
            closed := client :: s.closed } : Engine).rebuilds[k]? = some (.closing old) :=
          (getElem?_setRebuild s (List.getElem?_eq_some_iff.mp hk).1).trans (if_pos rfl)
        obtain ⟨n, s', hrun, hclosed⟩ := ih hk' hc
        exact ⟨n + 1, s', .cons hen trivial (hnext.symm ▸ hrun), hclosed⟩

/-! ### Every run -/

/-- What `s'` owes to the close that has returned in `s`. -/
structure Terminal (lower : Str → Str) (s s' : Engine) : Prop where
  state : s'.state = .stopped
  /-- No timer was armed since. -/
  armed : s'.armed = s.armed
  /-- No trigger was started since. -/
  triggers : s'.triggers = s.triggers
  roots : s'.rootsSet = s.rootsSet
  /-- A client is closed, or a rebuild has only to go on for it to be closed. -/
  clients : ∀ c < s'.created, ∃ k n s'',
    Lts.Run (system lower) Orderly s' (List.replicate n (.rebuildClose k)) s'' ∧ c ∈ s''.closed

section Run
variable {watcher : Option Watching} {l l₁ l₂ : List Act} {s₁ s₂ : Engine}

theorem owned_run (h : Lts.Run (system lower) Orderly (init watcher) l s) : Owned s :=
  h.invariant (owned_init watcher) fun _ _ hs hen hG => hs.next (step_cases hen) hG

theorem Owned.run (hs : Owned s₁) (hr : s₁.closing = .returned)
    (h : Lts.Run (system lower) Orderly s₁ l s₂) : Owned s₂ ∧ Kept s₁ s₂ :=
  h.invariant (P := fun s => Owned s ∧ Kept s₁ s) ⟨hs, hr, rfl, rfl, rfl⟩
    fun _ _ ⟨ho, hk⟩ hen hG =>
      ⟨ho.next (step_cases hen) hG, hk.trans (ho.kept hk.returned (step_cases hen) hG)⟩

/-- After the return each client is closed, or left to a rebuild to close. -/
theorem Owned.closed (hs : Owned s) (hr : s.closing = .returned) (hc : c < s.created) :
    ∃ k n s', Lts.Run (system lower) Orderly s (List.replicate n (.rebuildClose k)) s' ∧
      c ∈ s'.closed := by
  obtain ⟨hclients, -, hstart, hrebuilds, -⟩ := hs.returned hr
  rcases hs.accounted c hc with h | h | h | ⟨k, phase, hk, h⟩
  · exact ⟨0, 0, s, .nil, h⟩
  · rw [hclients] at h
    cases h
  · rw [hstart] at h
    cases h
  · rw [hrebuilds phase (List.mem_of_getElem? hk)] at h
    cases phase with
    | closing old => exact ⟨k, ends_closed hk (h.resolve_left List.not_mem_nil)⟩
    | _ => exact absurd (h.resolve_left List.not_mem_nil) List.not_mem_nil

/-- **`aclose` is terminal** in the runs that meet `Orderly`. -/
theorem aclose_terminal (h₁ : Lts.Run (system lower) Orderly (init watcher) l₁ s₁)
    (hr : s₁.closing = .returned) (h₂ : Lts.Run (system lower) Orderly s₁ l₂ s₂) :
    Terminal lower s₁ s₂ := by
  obtain ⟨hs, hk⟩ := (owned_run h₁).run hr h₂
  exact
    { state := (hs.returned hk.returned).2.1
      armed := hk.armed
      triggers := hk.triggers
      roots := hk.roots
      clients := fun c hc => hs.closed hk.returned hc }

/-- Server 1 is triggered at once, server 2 after 30 s. -/
def pairServers : AList fun _ : Int => ServerRuntime :=
  (AList.singleton 2 (makeServerRuntime 2 .trailing 30)).insert 1 (makeServerRuntime 1 .off 30)

/-- Both servers have the folder. -/
def pairConfig : RuntimeConfig :=
  makeRuntimeConfig
    [makeFolderRoute 1 (str "/data/tv") [] (some (str "2")) [.created],
      makeFolderRoute 2 (str "/data/tv") [] (some (str "2")) [.created]]
    pairServers

/-- An event comes in, and the handler is suspended in the dispatch to server 1. -/
def handling : List Act :=
  [.start true, .startRead (some pairConfig), .startBuild true, .startBuild true, .startBuilt,
    .startPolicy (some none), .startLimit (some enough),
    .read [⟨str "/data/tv/Show/first.mkv", .created, false⟩], .yield, .submit]

/-- The handler comes to its end, and the timer of server 2 is cancelled. -/
def closedAtRest : List Act :=
  handling ++ [.loop (.finish 0), .submit, .aclose, .loop (.run 1), .closeTimers, .closeClient,
    .closeClient, .closeClient]

/-- The engine is closed while the handler is suspended. -/
def closedInDispatch : List Act :=
  handling ++ [.aclose, .closeTimers, .closeClient, .closeClient, .closeClient]

/-- The handler goes on to server 2, a rebuild is called, and the window elapses. -/
def resumed : List Act :=
  [.loop (.finish 0), .submit, .rebuild, .acquire 0, .rebuildRead 0 (some pairConfig),
    .rebuildBuild 0 true, .rebuildBuild 0 true, .rebuildBuilt 0, .rebuildPolicy 0 (some none),
    .rebuildLimit 0 (some enough), .rebuildClose 0, .loop (.run 1), .loop (.tick 30),
    .loop (.wake 1), .loop (.run 1)]

theorem aclose_terminal_closedAtRest :
    ∃ s₁ s₂, s₁.closing = .returned ∧ s₁.armed = 1 ∧ s₂.rebuilds = [.finished] ∧
      Terminal asciiLower s₁ s₂ :=
  ⟨closedAtRest.foldl (system asciiLower).next (init none), _, by decide +kernel,
    by decide +kernel, by decide +kernel,
    aclose_terminal (Lts.run_of_exec (by decide +kernel)) (by decide +kernel)
      (Lts.run_of_exec (l := [.rebuild, .acquire 0, .rebuildRead 0 none]) (by decide +kernel))⟩

/-- After the return a timer is armed and a trigger started, the roots are set, the engine is
running, and nobody closes the new clients. -/
theorem aclose_is_undone :
    ∃ s₁ s₂, Lts.Run (system asciiLower) Lts.free (init none) closedInDispatch s₁ ∧
      s₁.closing = .returned ∧ Lts.Run (system asciiLower) Lts.free s₁ resumed s₂ ∧
      s₂.state = .running ∧ s₁.armed < s₂.armed ∧ s₁.triggers.length < s₂.triggers.length ∧
      s₁.rootsSet.length < s₂.rootsSet.length ∧ s₂.created = 4 ∧ s₂.closed = [1, 0] ∧
      s₂.rebuilds = [.finished] ∧ ¬ Terminal asciiLower s₁ s₂ := by
  refine ⟨_, _, Lts.run_of_exec (by decide +kernel), by decide +kernel,
    Lts.run_of_exec (by decide +kernel), by decide +kernel, by decide +kernel, by decide +kernel,
    by decide +kernel, by decide +kernel, by decide +kernel, by decide +kernel, ?_⟩
  intro h
  exact absurd h.state (by decide +kernel)

end Run

end Engine

end MediaScanMonitor
