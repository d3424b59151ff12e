import MediaScanMonitor.Engine.Bench

/-!
# Engine — server state is from one snapshot

The configuration, the servers of the debouncer, the adapters and the clients are written by
`start` and by every rebuild, each after awaits of its own.

* `Bench.Built`: how far the adapters of a configuration are built, skipped ones included.
* `one_snapshot`: before `aclose`, what is installed was built from the installed configuration.
-/

namespace MediaScanMonitor
open Py

namespace Bench

variable {b b' : Bench} {k : Option Nat} {sn : Snapshot} {skipped skipped' : List (Nat × Int)}
  {adapters : AList fun _ : Int => Adapter} {w : Build} {serverId : Int} {todo : List Int}

/-! ### One build -/

/-- The adapters and clients that `_build_adapters` has made of a configuration so far. -/
structure Built (sn : Snapshot) (skipped : List (Nat × Int))
    (adapters : AList fun _ : Int => Adapter) (w : Build) : Prop where
  keys : ∀ i, i ∈ adapters ↔ i ∈ w.clients.map Prod.fst
  nodup : (w.clients.map Prod.fst ++ w.todo).Nodup
  subset : ∀ i ∈ w.clients.map Prod.fst ++ w.todo, i ∈ sn.config.servers
  missing : ∀ i ∈ sn.config.servers, i ∈ w.clients.map Prod.fst ++ w.todo ∨ (sn.read, i) ∈ skipped
  own : ∀ (i : Int) (a : Adapter), adapters.lookup i = some a →
    sn.config.servers.lookup i = some a.server ∧ (i, a.client) ∈ w.clients

theorem built_of (sn : Snapshot) (skipped : List (Nat × Int)) :
    Built sn skipped ∅ (.of sn.config) where
  keys i := by simp [Build.of]
  nodup := by simpa [Build.of] using AList.keys_nodup sn.config.servers
  subset i hi := by simpa [Build.of, AList.mem_keys] using hi
  missing i hi := .inl (by simpa [Build.of, AList.mem_keys] using hi)
  own i a h := by
    rw [AList.lookup_empty] at h
    cases h

/-- More servers are skipped, in this build or another. -/
theorem Built.mono (h : Built sn skipped adapters w) (hsub : ∀ x ∈ skipped, x ∈ skipped') :
    Built sn skipped' adapters w :=
  { h with missing := fun i hi => (h.missing i hi).imp_right (hsub _) }

/-- `create_adapter` has returned the adapter of the next server. -/
theorem Built.make (h : Built sn skipped adapters w) (hw : w.todo = serverId :: todo)
    {server : ServerRuntime} (hserver : sn.config.servers.lookup serverId = some server)
    (client : Nat) (row : Option Nat) :
    Built sn skipped (adapters.insert serverId ⟨server, client, row⟩)
      (w.next serverId todo client true) := by
  obtain ⟨todo', clients⟩ := w
  obtain rfl : todo' = serverId :: todo := hw
  have hids : ((clients ++ [(serverId, client)]).map Prod.fst ++ todo) =
      clients.map Prod.fst ++ serverId :: todo := by simp
  refine ⟨fun i => ?_, ?_, ?_, ?_, fun i a ha => ?_⟩
  · simp only [Build.next, if_pos, AList.mem_insert, h.keys i, List.map_append, List.mem_append,
      List.map_cons, List.map_nil, List.mem_singleton]
    exact or_comm
  · simpa only [Build.next, if_pos, hids] using h.nodup
  · simpa only [Build.next, if_pos, hids] using h.subset
  · simpa only [Build.next, if_pos, hids] using h.missing
  · simp only [Build.next, if_pos]
    by_cases e : i = serverId
    · rw [e, AList.lookup_insert] at ha
      cases ha
      exact ⟨e ▸ hserver, by simp [e]⟩
    · rw [AList.lookup_insert_ne e] at ha
      exact ⟨(h.own i a ha).1, List.mem_append_left _ (h.own i a ha).2⟩

/-- `create_adapter` has raised for the next server. -/
theorem Built.skip (h : Built sn skipped adapters w) (hw : w.todo = serverId :: todo)
    (client : Nat) :
    Built sn ((sn.read, serverId) :: skipped) adapters (w.next serverId todo client false) := by
  obtain ⟨todo', clients⟩ := w
  obtain rfl : todo' = serverId :: todo := hw
  refine ⟨h.keys, ?_, fun i hi => h.subset i ?_, fun i hi => ?_, h.own⟩
  · exact h.nodup.sublist (List.Sublist.append_left (List.sublist_cons_self serverId todo) _)
  · simp only [Build.next, List.mem_append, List.mem_cons] at hi ⊢
    tauto
  · have := h.missing i hi
    simp only [Build.next, List.mem_append, List.mem_cons, Prod.mk.injEq, true_and] at this ⊢
    tauto

/-! ### The invariant -/

/-- What a task has built agrees with its stage. -/
def Agrees (skipped : List (Nat × Int)) (made : AList fun _ : Int => Adapter) : Stage → Prop
  | .before => made = ∅
  | .building sn w => Built sn skipped made w
  | .closing _ | .after => True

theorem Agrees.mono {made : AList fun _ : Int => Adapter} {stage : Stage}
    (h : Agrees skipped made stage) (hsub : ∀ x ∈ skipped, x ∈ skipped') :
    Agrees skipped' made stage := by
  cases stage with
  | building sn w => exact Built.mono h hsub
  | before | closing | after => exact h

structure Sound (b : Bench) : Prop where
  tasks : ∀ task, Agrees b.skipped (b.made task) (b.stage task)
  /-- No rebuild swaps before `start` has wired what it builds. -/
  published : ∀ (sn : Snapshot) (w : Build), b.stage none = .building sn w →
    b.config = some sn ∧ b.dispatcher = none
  installed : b.closed = false → ∀ ids, b.dispatcher = some ids →
    ∃ sn, b.config = some sn ∧ b.servers = some sn.config.servers ∧
      ids = b.clients.map Prod.fst ∧ Built sn b.skipped b.adapters ⟨[], b.clients⟩

theorem sound_init : Sound init where
  tasks _ := rfl
  published sn w h := by cases h
  installed _ ids h := by cases h

/-- A task goes on to its next stage. -/
theorem Sound.agrees_setStage (hb : Sound b) {task : Task} {stage : Stage}
    (h : Agrees b.skipped (b.made task) stage) (t : Task) :
    Agrees b.skipped (b.made t) ((b.setStage task stage).stage t) := by
  by_cases e : t = task
  · rwa [e, stage_setStage]
  · rw [stage_setStage_ne _ _ e]
    exact hb.tasks t

theorem Sound.built (hb : Sound b) {task : Task} (h : b.stage task = .building sn w) :
    Built sn b.skipped (b.made task) w := by
  have := hb.tasks task
  rwa [h] at this

theorem Sound.empty (hb : Sound b) {task : Task} (h : b.stage task = .before) :
    b.made task = ∅ := by
  have := hb.tasks task
  rwa [h] at this

theorem Sound.next (hb : Sound b) (h : Step b k b') : Sound b' := by
  cases h with
  | idle => exact hb
  | read h => exact ⟨hb.tasks, hb.published, hb.installed⟩
  | @publish sn h hd hread =>
      refine ⟨hb.agrees_setStage ?_, fun sn' w' e => ?_, fun _ ids e => ?_⟩
      · rw [hb.empty h]
        exact built_of sn _
      · rw [stage_setStage] at e
        cases e
        exact ⟨rfl, hd⟩
      · cases hd.symm.trans e
  | @load k sn h hd hread =>
      refine ⟨hb.agrees_setStage ?_, fun sn' w' e => ?_, hb.installed⟩
      · rw [hb.empty h]
        exact built_of sn _
      · exact hb.published sn' w' ((stage_setStage_some ..).symm.trans e)
  | @make task sn w serverId todo server h hw hserver =>
      refine ⟨fun t => ?_, fun sn' w' e => ?_, hb.installed⟩
      · by_cases e : t = task
        · simp only [e, setStage, Bench.make, Function.update_self]
          exact (hb.built h).make hw hserver _ _
        · simp only [setStage, Bench.make, Function.update_of_ne e]
          exact hb.tasks t
      · cases task with
        | none =>
            rw [stage_setStage] at e
            cases e
            exact hb.published _ _ h
        | some k => exact hb.published sn' w' ((stage_setStage_some ..).symm.trans e)
  | @skip task sn w serverId todo h hw =>
      refine ⟨fun t => ?_, fun sn' w' e => ?_, fun hc ids hids => ?_⟩
      · by_cases e : t = task
        · simp only [e, setStage, Bench.skip, Function.update_self]
          exact (hb.built h).skip hw _
        · simp only [setStage, Bench.skip, Function.update_of_ne e]
          exact (hb.tasks t).mono fun x hx => List.mem_cons_of_mem _ hx
      · cases task with
        | none =>
            rw [stage_setStage] at e
            cases e
            exact hb.published _ _ h
        | some k => exact hb.published sn' w' ((stage_setStage_some ..).symm.trans e)
      · obtain ⟨sn, hconfig, hservers, hids, hbuilt⟩ := hb.installed hc ids hids
        exact ⟨sn, hconfig, hservers, hids, hbuilt.mono fun x hx => List.mem_cons_of_mem _ hx⟩
  | @wire sn w h hw hd =>
      refine ⟨hb.agrees_setStage trivial, fun sn' w' e => ?_, fun _ ids e => ?_⟩
      · rw [stage_setStage] at e
        cases e
      · cases e
        obtain ⟨todo, clients⟩ := w
        cases hw
        exact ⟨sn, (hb.published _ _ h).1, rfl, rfl, hb.built h⟩
  | @swap k sn w h hw hd =>
      refine ⟨hb.agrees_setStage trivial, fun sn' w' e => ?_, fun _ ids e => ?_⟩
      · exact absurd (hb.published sn' w' ((stage_setStage_some ..).symm.trans e)).2 hd
      · cases e
        obtain ⟨todo, clients⟩ := w
        cases hw
        exact ⟨sn, rfl, rfl, rfl, hb.built h⟩
  | close h =>
      exact ⟨hb.agrees_setStage trivial,
        fun sn' w' e => hb.published sn' w' ((stage_setStage_some ..).symm.trans e), hb.installed⟩
  | @leave task h =>
      refine ⟨hb.agrees_setStage trivial, fun sn' w' e => ?_, hb.installed⟩
      cases task with
      | none =>
          rw [stage_setStage] at e
          cases e
      | some k => exact hb.published sn' w' ((stage_setStage_some ..).symm.trans e)
  | aclose => exact ⟨hb.tasks, hb.published, fun h => by cases h⟩
  | release h => exact ⟨hb.tasks, hb.published, fun h' => by cases h.symm.trans h'⟩

end Bench

namespace Service

variable {lower : Str → Str} {box : SecretBox} {store : Store} {watcher : Option Watching}
  {l : List Act} {s : Service}

/-- The debouncer, the dispatcher and the clients are those of the configuration. -/
structure OneSnapshot (s : Service) (sn : Snapshot) (d : Debouncer) (ids : List Int) : Prop where
  config : s.engine.config = some sn
  debouncer : s.engine.debouncer = some d
  servers : d.servers = sn.config.servers
  dispatcher : s.engine.adapters = some ids ∧ ∀ i, i ∈ ids ↔ i ∈ s.adapters
  /-- `_adapters` and `_clients` have the same keys. -/
  clients : (s.engine.clients.map Prod.fst).Nodup ∧
    ∀ i, i ∈ s.adapters ↔ i ∈ s.engine.clients.map Prod.fst
  subset : ∀ i ∈ s.adapters, i ∈ sn.config.servers
  /-- The servers without an adapter are those that were skipped. -/
  missing : ∀ i ∈ sn.config.servers, i ∉ s.adapters → (sn.read, i) ∈ s.skipped
  own : ∀ (i : Int) (a : Adapter), s.adapters.lookup i = some a →
    sn.config.servers.lookup i = some a.server ∧ (i, a.client) ∈ s.engine.clients

theorem sound_run (h : Lts.Run (system lower box) Lts.free (init store watcher) l s) :
    s.bench.Sound :=
  bench_invariant h Bench.sound_init fun _ _ _ hb h => hb.next h

/-- **Server state is from one snapshot**, from the wiring of the pipeline to `aclose`. -/
theorem one_snapshot (h : Lts.Run (system lower box) Lts.free (init store watcher) l s)
    (hopen : s.engine.closing = .idle) (hwired : s.engine.adapters ≠ none) :
    ∃ sn d ids, s.OneSnapshot sn d ids := by
  obtain ⟨ids, hids⟩ := Option.ne_none_iff_exists'.mp hwired
  obtain ⟨sn, hconfig, hservers, rfl, hbuilt⟩ :=
    (sound_run h).installed (by simp [bench, hopen]) ids hids
  obtain ⟨d, hd, hdservers⟩ := Option.map_eq_some_iff.mp hservers
  have hsubset : ∀ i ∈ s.adapters, i ∈ sn.config.servers := fun i hi =>
    hbuilt.subset i (by simpa using (hbuilt.keys i).mp hi)
  have hnodup : (s.engine.clients.map Prod.fst).Nodup :=
    List.Nodup.sublist (List.sublist_append_left _ _) hbuilt.nodup
  have hmissing : ∀ i ∈ sn.config.servers, i ∉ s.adapters → (sn.read, i) ∈ s.skipped :=
    fun i hi hne => (hbuilt.missing i hi).resolve_left fun h =>
      hne ((hbuilt.keys i).mpr (by simpa using h))
  exact ⟨sn, d, _,
    { config := hconfig
      debouncer := hd
      servers := hdservers
      dispatcher := ⟨hids, fun i => (hbuilt.keys i).symm⟩
      clients := ⟨hnodup, hbuilt.keys⟩
      subset := hsubset
      missing := hmissing
      own := hbuilt.own }⟩

/-- A database with two servers. -/
def twoServers : Store :=
  storeAfter [.serverCreateWithFolders 0 plexServer [tvFolder],
    .serverCreateWithFolders 0 webhookServer [tvFolder]]

/-- `start` skips server 2; while it waits for the gate, a rebuild skips server 1 and swaps. -/
def skipping : List Act :=
  [.engine (.start true), .listServers none, .listFolders none, .listFolders none,
    .engine (.startRead (some (configOf twoServers))), .engine (.startBuild true),
    .engine (.startBuild false), .engine .startBuilt, .engine (.startPolicy (some none)),
    .engine .rebuild, .engine (.acquire 0), .listServers (some 0), .listFolders (some 0),
    .listFolders (some 0), .engine (.rebuildRead 0 (some (configOf twoServers))),
    .engine (.rebuildBuild 0 false), .engine (.rebuildBuild 0 true), .engine (.rebuildBuilt 0),
    .engine (.rebuildPolicy 0 (some none)),
    .engine (.rebuildLimit 0 (some ⟨8192, 2, 100, 8192, true⟩))]

theorem one_snapshot_skipping :
    ∃ s : Service, (∃ sn d ids, s.OneSnapshot sn d ids) ∧ s.skipped = [(1, 1), (0, 2)] ∧
      s.adapters.keys = [2] :=
  ⟨skipping.foldl (system asciiLower markBox).next (init twoServers none),
    one_snapshot (Lts.run_of_exec (by decide +kernel)) (by decide +kernel) (by decide +kernel),
    by decide +kernel, by decide +kernel⟩

end Service

end MediaScanMonitor
