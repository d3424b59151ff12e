import MediaScanMonitor.Config.Readable
import MediaScanMonitor.Engine.Steps

/-!
# Engine — a write core after its commit

`rebuild_engine` lets through every exception of `rebuild()` but `RuntimeError`, and `rebuild()`
every exception of `build_runtime_config`.  `rebuildAlone` is `rebuild()` with nobody in between.

* `rebuildAlone_run`, `rebuildAlone_raised`: it is a run of the engine.
* `reflects_iff`: the core returns, and its write is installed, exactly if the database can be read.
* `secrets_isolated_iff`: what one secret that does not decrypt does to the other servers.
* `not_installed_of_unreadable`: while it is there, no write is installed.
-/

namespace MediaScanMonitor
open Py Lts

namespace Engine

/-- What a rebuild is answered on its way. -/
structure Answers where
  /-- `create_adapter` returns for the server. -/
  adapts : Int → Bool
  policy : Option Str
  limit : WatchLimitStatus

/-- `start()` has wired the pipeline: `rebuild()` does not raise `RuntimeError`. -/
def CanRebuild (s : Engine) : Prop :=
  s.started = true ∧ s.adapters ≠ none ∧ s.debouncer ≠ none ∧ s.watcher ≠ none

instance (s : Engine) : Decidable s.CanRebuild :=
  decidable_of_iff (s.started = true ∧ s.adapters.isSome = true ∧ s.debouncer.isSome = true ∧
    s.watcher.isSome = true) (by simp only [Option.isSome_iff_ne_none, CanRebuild])

/-- `_build_adapters` from an iteration to its end. -/
def buildAdapters (adapts : Int → Bool) :
    List Int → List (Int × Nat) → Engine → Engine × List (Int × Nat)
  | [], clients, s => (s, clients)
  | serverId :: todo, clients, s =>
    buildAdapters adapts todo
      (if adapts serverId then clients ++ [(serverId, s.created)] else clients)
      (s.createClient (adapts serverId))

/-- The gate, as it is answered, and the swap. -/
def gateAndSwap (s : Engine) (k : Nat) (sn : Snapshot) (clients : List (Int × Nat))
    (a : Answers) : Engine :=
  if sn.config.watchPaths = [] then { s with watchLimit := none }.swap k sn clients true
  else { s with watchLimit := some a.limit }.swap k sn clients (gateOk a.policy a.limit)

/-- `rebuild()`, where `build_runtime_config` returns or raises `read`. -/
def rebuildAlone (s : Engine) (read : Except PyError RuntimeConfig) (a : Answers) :
    Except PyError Engine :=
  if s.CanRebuild then do
    let config ← read
    let k := s.rebuilds.length
    let sn := s.snapshot config
    let s := { s with rebuilds := s.rebuilds ++ [RebuildPhase.reading], reads := s.reads + 1 }
    let (s, clients) := s.buildAdapters a.adapts config.servers.keys []
    let s' := s.gateAndSwap k sn clients a
    return { s'.setRebuild k .finished with closed := (s.clients.map Prod.snd).reverse ++ s'.closed }
  else .error .runtimeError

/-- `rebuild_engine`. -/
def rebuildEngine (s : Engine) (rebuilt : Except PyError Engine) : Except PyError Engine :=
  match rebuilt with
  | .error .runtimeError => .ok s
  | rebuilt => rebuilt

/-- What a write core does once its write is committed. -/
def afterCommit (lower : Str → Str) (box : SecretBox) (store : Store) (s : Engine) (a : Answers) :
    Except PyError Engine :=
  s.rebuildEngine (s.rebuildAlone (buildOrRaise lower box store) a)

variable {lower : Str → Str} {box : SecretBox} {store : Store} {s s' : Engine} {a : Answers}
  {config : RuntimeConfig} {k : Nat}

/-! ### A run of the engine -/

@[simp] theorem setRebuild_setRebuild (s : Engine) (k : Nat) (p p' : RebuildPhase) :
    (s.setRebuild k p).setRebuild k p' = s.setRebuild k p' := by
  simp [setRebuild, List.set_set]

theorem setRebuild_of_getElem? {p : RebuildPhase} (h : s.rebuilds[k]? = some p) :
    s.setRebuild k p = s := by
  obtain ⟨hlt, hget⟩ := List.getElem?_eq_some_iff.mp h
  rw [setRebuild, ← hget, List.set_getElem_self hlt]

theorem buildAdapters_setRebuild (adapts : Int → Bool) (todo : List Int)
    (clients : List (Int × Nat)) (s : Engine) (k : Nat) (p : RebuildPhase) :
    buildAdapters adapts todo clients (s.setRebuild k p) =
      ((buildAdapters adapts todo clients s).1.setRebuild k p,
        (buildAdapters adapts todo clients s).2) := by
  induction todo generalizing clients s with
  | nil => rfl
  | cons serverId todo ih => exact ih _ (s.createClient (adapts serverId))

/-- Building touches the clients made so far and nothing else. -/
theorem buildAdapters_eq (adapts : Int → Bool) (todo : List Int) (clients : List (Int × Nat))
    (s : Engine) : ∃ created closed,
      (buildAdapters adapts todo clients s).1 = { s with created := created, closed := closed } := by
  induction todo generalizing clients s with
  | nil => exact ⟨s.created, s.closed, rfl⟩
  | cons serverId todo ih => exact ih _ (s.createClient (adapts serverId))

theorem buildAdapters_run (lower : Str → Str) (adapts : Int → Bool) {sn : Snapshot} (todo : List Int)
    (clients : List (Int × Nat)) (hk : s.rebuilds[k]? = some (.building sn ⟨todo, clients⟩)) :
    ∃ l, Run (system lower) free s l ((buildAdapters adapts todo clients s).1.setRebuild k
      (.building sn ⟨[], (buildAdapters adapts todo clients s).2⟩)) := by
  induction todo generalizing clients s with
  | nil =>
      refine ⟨[], ?_⟩
      rw [buildAdapters, setRebuild_of_getElem? hk]
      exact .nil
  | cons serverId todo ih =>
      have hstep : s.step lower (.rebuildBuild k (adapts serverId)) =
          some ((s.createClient (adapts serverId)).setRebuild k (.building sn
            ((Build.mk (serverId :: todo) clients).next serverId todo s.created
              (adapts serverId)))) := by
        simp only [step, stepRebuild, hk]
      obtain ⟨hen, hnext⟩ := enabled_of_step hstep
      have hlt : k < s.rebuilds.length := (List.getElem?_eq_some_iff.mp hk).1
      obtain ⟨l, hl⟩ := ih (s := (s.createClient (adapts serverId)).setRebuild k (.building sn
        ((Build.mk (serverId :: todo) clients).next serverId todo s.created (adapts serverId))))
        _ (List.getElem?_set_self hlt)
      rw [buildAdapters_setRebuild, setRebuild_setRebuild] at hl
      refine ⟨.rebuildBuild k (adapts serverId) :: l, .cons hen trivial ?_⟩
      rw [hnext]
      exact hl

theorem close_run (lower : Str → Str) {old : List Nat} (hk : s.rebuilds[k]? = some (.closing old)) :
    ∃ l, Run (system lower) free s l
      { s.setRebuild k .finished with closed := old.reverse ++ s.closed } := by
  induction old generalizing s with
  | nil =>
      have hstep : s.step lower (.rebuildClose k) = some (s.setRebuild k .finished) := by
        simp only [step, stepRebuild, hk]
      obtain ⟨hen, hnext⟩ := enabled_of_step hstep
      refine ⟨[.rebuildClose k], ?_⟩
      have hrun := Run.one hen (G := free) trivial
      rwa [hnext] at hrun
  | cons client old ih =>
      obtain ⟨hen, hnext⟩ := @rebuildClose_enabled lower s k client old hk
      have hlt : k < s.rebuilds.length := (List.getElem?_eq_some_iff.mp hk).1
      obtain ⟨l, hl⟩ := ih
        (s := { s.setRebuild k (.closing old) with closed := client :: s.closed })
        (List.getElem?_set_self hlt)
      refine ⟨.rebuildClose k :: l, .cons hen trivial ?_⟩
      rw [hnext]
      convert hl using 1
      simp [setRebuild, List.set_set]

/-- The lock is free. -/
def LockFree (s : Engine) : Prop := ∀ phase ∈ s.rebuilds, phase.holds = false

/-- A rebuild that is called gets a free lock. -/
theorem acquire_run (lower : Str → Str) (hc : s.CanRebuild) (hfree : s.LockFree) :
    Run (system lower) free s [.rebuild, .acquire s.rebuilds.length]
      { s with rebuilds := s.rebuilds ++ [.reading] } := by
  have hcall : s.step lower .rebuild = some { s with rebuilds := s.rebuilds ++ [.waiting] } := by
    obtain ⟨hstarted, hadapters, hd, hw⟩ := hc
    rw [step, stepRebuild, if_neg (by simp [hstarted, hadapters, hd, hw])]
  have hacquire : step lower { s with rebuilds := s.rebuilds ++ [.waiting] }
      (.acquire s.rebuilds.length) = some { s with rebuilds := s.rebuilds ++ [.reading] } := by
    have hwaiting : RebuildPhase.waiting.holds = false := rfl
    rw [LockFree] at hfree
    simpa [step, stepRebuild, setRebuild, hwaiting] using hfree
  obtain ⟨hen, hnext⟩ := enabled_of_step hcall
  obtain ⟨hen', hnext'⟩ := enabled_of_step hacquire
  refine .cons hen trivial ?_
  rw [hnext, ← hnext']
  exact .one hen' trivial

/-- The swap, from wherever the rebuild is. -/
theorem swap_setRebuild (s : Engine) (k : Nat) (p : RebuildPhase) (sn : Snapshot)
    (clients : List (Int × Nat)) (ok : Bool) :
    (s.setRebuild k p).swap k sn clients ok = s.swap k sn clients ok := by
  simp [swap, setRebuild, List.set_set]

theorem gateAndSwap_setRebuild (s : Engine) (k : Nat) (p : RebuildPhase) (sn : Snapshot)
    (clients : List (Int × Nat)) (a : Answers) :
    (s.setRebuild k p).gateAndSwap k sn clients a = s.gateAndSwap k sn clients a := by
  rw [gateAndSwap, gateAndSwap]
  split
  · exact swap_setRebuild { s with watchLimit := none } k p sn clients true
  · exact swap_setRebuild { s with watchLimit := some a.limit } k p sn clients _

/-- The old clients are left to close. -/
theorem closing_gateAndSwap (sn : Snapshot) (clients : List (Int × Nat)) (a : Answers)
    (hlt : k < s.rebuilds.length) :
    (s.gateAndSwap k sn clients a).rebuilds[k]? = some (.closing (s.clients.map Prod.snd)) := by
  rw [gateAndSwap]
  split <;> exact List.getElem?_set_self hlt

/-- The gate and the swap, once the adapters are built. -/
theorem gate_run (lower : Str → Str) {sn : Snapshot} {clients : List (Int × Nat)} (a : Answers)
    (hk : s.rebuilds[k]? = some (.building sn ⟨[], clients⟩)) :
    ∃ l, Run (system lower) free s l (s.gateAndSwap k sn clients a) := by
  have hbuilt : s.step lower (.rebuildBuilt k) = some (s.rebuilt k sn clients) := by
    simp only [step, stepRebuild, hk]
  obtain ⟨hen, hnext⟩ := enabled_of_step hbuilt
  by_cases hpaths : sn.config.watchPaths = []
  · refine ⟨[.rebuildBuilt k], ?_⟩
    have hrun := Run.one hen (G := free) trivial
    rw [hnext, rebuilt, if_pos hpaths] at hrun
    rwa [gateAndSwap, if_pos hpaths]
  · rw [rebuilt, if_neg hpaths] at hnext
    have hlt : k < s.rebuilds.length := (List.getElem?_eq_some_iff.mp hk).1
    have hpolicy : (s.setRebuild k (.policy sn clients)).step lower
        (.rebuildPolicy k (some a.policy)) =
          some (s.setRebuild k (.limit sn clients a.policy)) := by
      simp [step, stepRebuild, getElem?_setRebuild s hlt]
    have hlimit : (s.setRebuild k (.limit sn clients a.policy)).step lower
        (.rebuildLimit k (some a.limit)) =
          some ({ s with watchLimit := some a.limit }.swap k sn clients
            (gateOk a.policy a.limit)) := by
      simp only [step, stepRebuild, getElem?_setRebuild s hlt, if_pos]
      exact congrArg some (swap_setRebuild { s with watchLimit := some a.limit } k _ _ _ _)
    obtain ⟨hen', hnext'⟩ := enabled_of_step hpolicy
    obtain ⟨hen'', hnext''⟩ := enabled_of_step hlimit
    refine ⟨[.rebuildBuilt k, .rebuildPolicy k (some a.policy), .rebuildLimit k (some a.limit)], ?_⟩
    rw [gateAndSwap, if_neg hpaths, ← hnext'']
    refine .cons hen trivial ?_
    rw [hnext]
    refine .cons hen' trivial ?_
    rw [hnext']
    exact .one hen'' trivial

/-- **What `rebuildAlone` leaves is what a run of the engine leaves.** -/
theorem rebuildAlone_run (h : s.rebuildAlone (.ok config) a = .ok s') (hfree : s.LockFree) :
    ∃ l, Run (system lower) free s l s' := by
  rw [rebuildAlone] at h
  split at h
  case isFalse => cases h
  case isTrue hc =>
    simp only [bind_eq_ok] at h
    obtain ⟨_, hread, hpure⟩ := h
    cases hread
    have hacquire := acquire_run lower hc hfree
    have hread : step lower { s with rebuilds := s.rebuilds ++ [.reading] }
        (.rebuildRead s.rebuilds.length (some config)) =
          some (setRebuild { s with rebuilds := s.rebuilds ++ [.reading], reads := s.reads + 1 }
            s.rebuilds.length (.building (s.snapshot config) ⟨config.servers.keys, []⟩)) := by
      simp [step, stepRebuild, setRebuild, snapshot, Build.of]
    obtain ⟨hen, hnext⟩ := enabled_of_step hread
    have hfirst := Run.one hen (G := free) trivial
    rw [hnext] at hfirst
    generalize hs₁ : ({ s with
      rebuilds := s.rebuilds ++ [RebuildPhase.reading]
      reads := s.reads + 1 } : Engine) = s₁ at hfirst hpure
    have hlt : s.rebuilds.length < s₁.rebuilds.length := by simp [← hs₁]
    -- building touches no rebuild, so the phase is written once, at its end
    obtain ⟨l, hbuild⟩ := buildAdapters_run lower a.adapts config.servers.keys []
      (s := s₁.setRebuild s.rebuilds.length
        (.building (s.snapshot config) ⟨config.servers.keys, []⟩)) (List.getElem?_set_self hlt)
    rw [buildAdapters_setRebuild, setRebuild_setRebuild] at hbuild
    obtain ⟨created, closed, hs₂⟩ := buildAdapters_eq a.adapts config.servers.keys [] s₁
    generalize buildAdapters a.adapts config.servers.keys [] s₁ = built at hbuild hpure hs₂
    obtain ⟨s₂, clients⟩ := built
    have hlt₂ : s.rebuilds.length < s₂.rebuilds.length := by
      rw [show s₂ = _ from hs₂]
      exact hlt
    obtain ⟨l', hgate⟩ := gate_run lower a
      (s := s₂.setRebuild s.rebuilds.length (.building (s.snapshot config) ⟨[], clients⟩))
      (List.getElem?_set_self hlt₂)
    rw [gateAndSwap_setRebuild] at hgate
    obtain ⟨l'', hclose⟩ := close_run lower
      (closing_gateAndSwap (s.snapshot config) clients a hlt₂)
    cases hpure
    exact ⟨_, ((hacquire.trans hfirst).trans hbuild).trans (hgate.trans hclose)⟩

/-- A rebuild whose read raises. -/
def raised (s : Engine) : Engine := { s with rebuilds := s.rebuilds ++ [.finished] }

theorem rebuildAlone_raised (hc : s.CanRebuild) (hfree : s.LockFree) :
    Run (system lower) free s [.rebuild, .acquire s.rebuilds.length,
      .rebuildRead s.rebuilds.length none] s.raised := by
  have hread : step lower { s with rebuilds := s.rebuilds ++ [.reading] }
      (.rebuildRead s.rebuilds.length none) = some s.raised := by
    simp [step, stepRebuild, setRebuild, raised]
  obtain ⟨hen, hnext⟩ := enabled_of_step hread
  have hrun := (acquire_run lower hc hfree).trans (Run.one hen (G := free) trivial)
  rwa [hnext] at hrun

/-! ### What the core does -/

theorem config_gateAndSwap (s : Engine) (k : Nat) (sn : Snapshot) (clients : List (Int × Nat))
    (a : Answers) : (s.gateAndSwap k sn clients a).config = some sn := by
  rw [gateAndSwap]
  split <;> rfl

theorem exists_rebuildAlone (hc : s.CanRebuild) (config : RuntimeConfig) (a : Answers) :
    ∃ s', s.rebuildAlone (.ok config) a = .ok s' ∧ s'.config = some (s.snapshot config) := by
  rw [rebuildAlone, if_pos hc]
  exact ⟨_, rfl, config_gateAndSwap ..⟩

theorem rebuildAlone_error (hc : s.CanRebuild) (e : PyError) (a : Answers) :
    s.rebuildAlone (.error e) a = .error e := by
  rw [rebuildAlone, if_pos hc]
  rfl

/-- A write is committed into `store`, and the engine goes from `s` to `s'`: what is installed has
all of every enabled server whose secret decrypts. -/
def Reflects (lower : Str → Str) (box : SecretBox) (store : Store) (s s' : Engine) : Prop :=
  s.CanRebuild → ∃ sn, s'.config = some sn ∧ sn.config.HoldsOthers lower box store

theorem afterCommit_unwired (hc : ¬ s.CanRebuild) :
    s.afterCommit lower box store a = .ok s := by
  rw [afterCommit, rebuildAlone, if_neg hc]
  rfl

theorem afterCommit_unreadable (lower : Str → Str) (a : Answers) (hc : s.CanRebuild)
    (h : ¬ store.Readable box) :
    ∃ e, s.afterCommit lower box store a = .error e := by
  rw [afterCommit]
  cases hread : buildOrRaise lower box store with
  | ok config =>
      have hsome := buildOrRaise_eq_ok.mp hread
      exact absurd ((isSome_build_iff lower box store).mp (by rw [hsome]; rfl)) h
  | error e =>
      rw [rebuildAlone_error hc]
      cases e with
      | runtimeError => exact absurd hread buildOrRaise_ne
      | secretDecryptError => exact ⟨_, rfl⟩
      | valueError => exact ⟨_, rfl⟩

theorem afterCommit_readable (lower : Str → Str) (a : Answers) (hc : s.CanRebuild)
    (h : store.Readable box) :
    ∃ s' config, s.afterCommit lower box store a = .ok s' ∧
      s'.config = some (s.snapshot config) ∧ config.HoldsOthers lower box store := by
  obtain ⟨config, hconfig, hholds⟩ := (isolates_iff lower box store).mpr h
  obtain ⟨s', hs', hinstalled⟩ := exists_rebuildAlone hc config a
  refine ⟨s', config, ?_, hinstalled, hholds⟩
  rw [afterCommit, buildOrRaise_eq_ok.mpr hconfig, hs']
  rfl

theorem reflects_iff :
    (∃ s', s.afterCommit lower box store a = .ok s' ∧ Reflects lower box store s s') ↔
      ¬ s.CanRebuild ∨ store.Readable box := by
  constructor
  · rintro ⟨s', hs', -⟩
    by_contra hno
    rw [not_or, not_not] at hno
    obtain ⟨e, he⟩ := afterCommit_unreadable lower a hno.1 hno.2
    rw [he] at hs'
    cases hs'
  · intro h
    by_cases hc : s.CanRebuild
    · obtain ⟨s', config, hs', hinstalled, hholds⟩ :=
        afterCommit_readable lower a hc (h.resolve_left (not_not_intro hc))
      exact ⟨s', hs', fun _ => ⟨_, hinstalled, hholds⟩⟩
    · exact ⟨s, afterCommit_unwired hc, fun hc' => absurd hc' hc⟩

/-- Servers whose secret decrypts are read and, after a write, installed, exactly where no other
server's secret fails to. -/
theorem secrets_isolated_iff (lower : Str → Str) (box : SecretBox) (store : Store) :
    (Isolates lower box store ↔ store.Readable box) ∧
      ∀ (write : Write) (store' : Store), write.run lower box store = .ok store' →
        ∀ (s : Engine) (a : Answers),
          (∃ s', s.afterCommit lower box store' a = .ok s' ∧ Reflects lower box store' s s') ↔
            ¬ s.CanRebuild ∨ store'.Readable box := by
  refine ⟨isolates_iff lower box store, ?_⟩
  intro write store' _ s a
  exact reflects_iff

/-! ### One write after another -/

/-- The database and the engine, from one write core to the next. -/
def cores (lower : Str → Str) (box : SecretBox) : System (Store × Engine) (Write × Answers) where
  enabled c core := ∃ store, core.1.run lower box c.1 = .ok store
  next c core :=
    match core.1.run lower box c.1 with
    | .error _ => c
    | .ok store =>
      match c.2.afterCommit lower box store core.2 with
      | .ok s => (store, s)
      | .error _ => (store, c.2.raised)

/-- A server that cannot be read, whoever's it is, keeps every write from being installed. -/
theorem not_installed_of_unreadable {store' : Store} {l : List (Write × Answers)}
    (h : Run (cores lower box)
      (fun c core => ¬ ((cores lower box).next c core).1.Readable box) (store, s) l (store', s'))
    (hc : s.CanRebuild) : s'.CanRebuild ∧ s'.config = s.config := by
  refine h.invariant (P := fun c => c.2.CanRebuild ∧ c.2.config = s.config) ⟨hc, rfl⟩ ?_
  rintro ⟨store₁, s₁⟩ ⟨write, a⟩ ⟨hc₁, hconfig⟩ ⟨store₂, hwrite⟩ hunreadable
  simp only [cores, hwrite] at hunreadable ⊢
  cases hafter : s₁.afterCommit lower box store₂ a with
  | error e => exact ⟨hc₁, hconfig⟩
  | ok s₂ =>
      rw [hafter] at hunreadable
      obtain ⟨e, he⟩ := afterCommit_unreadable lower a hc₁ hunreadable
      rw [he] at hafter
      cases hafter

/-! ### A token of another key -/

/-- `markBox` with another key. -/
def otherBox : SecretBox where
  encrypt _ plaintext := some (str "hAAAA" ++ plaintext)
  decrypt token := if token.take 5 = str "hAAAA" then some (token.drop 5) else none
  decrypt_encrypt h := by
    cases h
    rfl

/-- A server with a token of `markBox`, and one without. -/
def mixedStore : Store :=
  storeAfter [.serverCreate 0 plexServer, .serverCreate 0 webhookServer]

/-- An engine in its loop, with nothing configured. -/
def idleEngine : Engine :=
  [Act.start true, .startRead (some Assembly.empty.config), .startBuilt].foldl
    (system asciiLower).next (init (some ⟨false, []⟩))

def plainAnswers : Answers := ⟨fun _ => true, none, ⟨100, 10, 12, 15, true⟩⟩

/-- With the key its tokens were made with, the database is read and what it holds installed. -/
theorem secrets_isolated_markBox :
    (∃ s', idleEngine.afterCommit asciiLower markBox mixedStore plainAnswers = .ok s' ∧
      Reflects asciiLower markBox mixedStore idleEngine s') ∧ mixedStore.Readable markBox := by
  have hreadable : mixedStore.Readable markBox := by decide +kernel
  obtain ⟨store', hwrite, hstore⟩ : ∃ store',
      (Write.serverCreate 0 webhookServer).run asciiLower markBox
        (storeAfter [.serverCreate 0 plexServer]) = .ok store' ∧ store' = mixedStore :=
    ⟨_, rfl, rfl⟩
  subst hstore
  exact ⟨((secrets_isolated_iff asciiLower markBox _).2 _ _ hwrite idleEngine plainAnswers).mpr
    (.inr hreadable), hreadable⟩

/-- The server without a secret is not read, and the folder it gets afterwards not installed. -/
theorem other_token_blocks_all :
    ¬ Isolates asciiLower otherBox mixedStore ∧ idleEngine.CanRebuild ∧
      ∃ store', (Write.folderCreate 2 filmFolder).run asciiLower otherBox mixedStore = .ok store' ∧
        (idleEngine.afterCommit asciiLower otherBox store' plainAnswers).map Engine.config =
          .error .secretDecryptError := by
  have hunreadable : ¬ mixedStore.Readable otherBox := by decide +kernel
  exact ⟨fun h => hunreadable ((isolates_iff asciiLower otherBox mixedStore).mp h), by decide +kernel,
    _, rfl, rfl⟩

end Engine

end MediaScanMonitor
