import MediaScanMonitor.Engine.Delivery

/-!
# Engine — a request reaches the server it was routed for

A request carries the id of its server, and the database gives the id of a deleted row to a new
one.  What waits while a rebuild swaps is kept when the new configuration has a server of that id,
whichever row it was read from.

* `Bench.Rowed`: an adapter knows the row its server was read from.
* `SameRow`: at a swap, what waits was routed for the rows of the new adapters.
* `delivered_to_origin`: then every delivery goes to an adapter of the row it was routed for.
-/

namespace MediaScanMonitor
open Py
open Debouncer (OfLoop Armed Outcome)

namespace Bench

variable {b b' : Bench} {k : Option Nat}

/-- The adapters were built from servers that were read from these rows. -/
def FromRows (rows : AList fun _ : Int => Nat) (adapters : AList fun _ : Int => Adapter) : Prop :=
  ∀ (i : Int) (a : Adapter), adapters.lookup i = some a → a.row.isSome ∧ a.row = rows.lookup i

theorem fromRows_empty (rows : AList fun _ : Int => Nat) : FromRows rows ∅ := by
  intro i a h
  rw [AList.lookup_empty] at h
  cases h

theorem FromRows.insert {rows : AList fun _ : Int => Nat} {adapters : AList fun _ : Int => Adapter}
    (h : FromRows rows adapters) {serverId : Int} (hread : serverId ∈ rows)
    (server : ServerRuntime) (client : Nat) :
    FromRows rows (adapters.insert serverId ⟨server, client, rows.lookup serverId⟩) := by
  intro i a ha
  by_cases e : i = serverId
  · rw [e, AList.lookup_insert] at ha
    cases ha
    exact ⟨AList.lookup_isSome.mpr hread, by rw [e]⟩
  · rw [AList.lookup_insert_ne e] at ha
    exact h i a ha

structure Rowed (b : Bench) : Prop where
  sound : b.Sound
  /-- Every server a task builds for was read from a row. -/
  read : ∀ (task : Task) (sn : Snapshot) (w : Build), b.stage task = .building sn w →
    ∀ i ∈ sn.config.servers, i ∈ b.read task
  made : ∀ task, FromRows (b.read task) (b.made task)
  installed : FromRows b.rows b.adapters
  early : b.dispatcher = none → b.adapters = ∅

theorem rowed_init : Rowed init where
  sound := sound_init
  read task sn w h := by cases h
  made task := fromRows_empty _
  installed := fromRows_empty _
  early _ := rfl

/-- A task goes on to its next stage. -/
theorem Rowed.read_setStage (hb : Rowed b) {task : Task} {stage : Stage}
    (h : ∀ (sn : Snapshot) (w : Build), stage = .building sn w →
      ∀ i ∈ sn.config.servers, i ∈ b.read task) (t : Task) (sn : Snapshot) (w : Build)
    (ht : (b.setStage task stage).stage t = .building sn w) :
    ∀ i ∈ sn.config.servers, i ∈ b.read t := by
  by_cases e : t = task
  · rw [e] at ht ⊢
    rw [stage_setStage] at ht
    exact h sn w ht
  · rw [stage_setStage_ne _ _ e] at ht
    exact hb.read t sn w ht

theorem Rowed.next (hb : Rowed b) (h : Step b k b') : Rowed b' := by
  have hsound := hb.sound.next h
  cases h with
  | idle => exact hb
  | @read task rows h =>
      refine ⟨hsound, fun t sn w ht i hi => ?_, fun t => ?_, hb.installed, hb.early⟩
      · have hne : t ≠ task := fun e => by
          rw [e] at ht
          cases h.symm.trans ht
        show i ∈ Function.update b.read task rows t
        rw [Function.update_of_ne hne]
        exact hb.read t sn w ht i hi
      · show FromRows (Function.update b.read task rows t) (b.made t)
        by_cases e : t = task
        · -- nothing is built before the configuration is read
          rw [e, hb.sound.empty h]
          exact fromRows_empty _
        · rw [Function.update_of_ne e]
          exact hb.made t
  | publish h hd hread =>
      refine ⟨hsound, hb.read_setStage fun sn' w' e => ?_, hb.made, ?_, hb.early⟩
      · cases e
        exact hread
      · exact (hb.early hd).symm ▸ fromRows_empty _
  | load h hd hread =>
      refine ⟨hsound, hb.read_setStage fun sn' w' e => ?_, hb.made, hb.installed, hb.early⟩
      cases e
      exact hread
  | @make task sn w serverId todo server h hw hserver =>
      refine ⟨hsound, hb.read_setStage fun sn' w' e => ?_, fun t => ?_, hb.installed, hb.early⟩
      · cases e
        exact hb.read task sn w h
      · by_cases e : t = task
        · simp only [e, setStage, Bench.make, Function.update_self]
          refine (hb.made task).insert (hb.read task sn w h serverId ?_) _ _
          exact AList.lookup_isSome.mp (by rw [hserver]; rfl)
        · simp only [setStage, Bench.make, Function.update_of_ne e]
          exact hb.made t
  | @skip task sn w serverId todo h hw =>
      refine ⟨hsound, hb.read_setStage fun sn' w' e => ?_, hb.made, hb.installed, hb.early⟩
      cases e
      exact hb.read task sn w h
  | wire h hw hd =>
      exact ⟨hsound, hb.read_setStage fun sn' w' e => (by cases e), hb.made, hb.made none,
        fun e => by cases e⟩
  | @swap k sn w h hw hd =>
      exact ⟨hsound, hb.read_setStage fun sn' w' e => (by cases e), hb.made, hb.made (some k),
        fun e => by cases e⟩
  | close h | leave h =>
      exact ⟨hsound, hb.read_setStage fun sn' w' e => (by cases e), hb.made, hb.installed, hb.early⟩
  | aclose | release h => exact ⟨hsound, hb.read, hb.made, hb.installed, hb.early⟩

end Bench

/-! ### What waits -/

namespace Post

variable {p : Post} {d d' : Debouncer} {adapters : AList fun _ : Int => Adapter}

/-- An adapter for the request is one of the row it was routed for. -/
def ForRow (adapters : AList fun _ : Int => Adapter) (req : ScanRequest) (origin : Option Nat) :
    Prop :=
  ∀ a ∈ adapters.lookup req.serverId, origin = a.row

instance (adapters : AList fun _ : Int => Adapter) (req : ScanRequest) (origin : Option Nat) :
    Decidable (ForRow adapters req origin) :=
  inferInstanceAs (Decidable (∀ a ∈ adapters.lookup req.serverId, _))

/-- Every request that waits, for its timer or for `submit`, is for the row of its adapter. -/
def Fits (p : Post) (adapters : AList fun _ : Int => Adapter) : Prop :=
  (∀ d ∈ p.debouncer, ∀ x ∈ d.jobs.zip p.origins, Armed x.1 → ForRow adapters x.1.req x.2) ∧
    ∀ x ∈ p.todo.zip p.todoOrigins, ForRow adapters x.1 x.2

instance (p : Post) (adapters : AList fun _ : Int => Adapter) : Decidable (p.Fits adapters) :=
  inferInstanceAs (Decidable ((∀ d ∈ p.debouncer, _) ∧ _))

/-- Every delivery went to an adapter of the row its request was routed for. -/
def Delivered (origins : List (Option Nat)) (deliveries : List (Nat × Adapter)) : Prop :=
  ∀ x ∈ deliveries, x.2.row.isSome ∧ origins[x.1]? = some x.2.row

instance (origins : List (Option Nat)) (deliveries : List (Nat × Adapter)) :
    Decidable (Delivered origins deliveries) :=
  inferInstanceAs (Decidable (∀ x ∈ deliveries, _))

/-- The rows are those of the jobs, and of what is still to be submitted. -/
structure Numbered (p : Post) : Prop where
  early : p.debouncer = none → p.todo = [] ∧ p.todoOrigins = [] ∧ p.origins = []
  good : ∀ d ∈ p.debouncer, d.Good
  numbered : ∀ d ∈ p.debouncer, p.origins.length = d.jobs.length
  submitted : p.todoOrigins.length = p.todo.length

structure Traced (p : Post) : Prop extends Numbered p where
  fits : p.Fits p.adapters
  delivered : Delivered p.origins p.deliveries

theorem getElem?_of_isPrefix {α : Type} {l l' : List α} (h : l <+: l') {t : Nat} {x : α}
    (ht : l[t]? = some x) : l'[t]? = some x := by
  obtain ⟨hlt, rfl⟩ := List.getElem?_eq_some_iff.mp ht
  exact List.prefix_iff_getElem?.mp h t hlt

theorem Delivered.append {origins origins' : List (Option Nat)} {old new : List (Nat × Adapter)}
    (h : Delivered origins old) (hpre : origins <+: origins') (hnew : Delivered origins' new) :
    Delivered origins' (old ++ new) := by
  intro x hx
  rcases List.mem_append.mp hx with hx | hx
  · exact ⟨(h x hx).1, getElem?_of_isPrefix hpre (h x hx).2⟩
  · exact hnew x hx

/-- What is armed after a step was routed for the row of its adapter, if what the step submits
is. -/
theorem fits_outcome {act : Debouncer.Act} {origins origins' : List (Option Nat)}
    (hlen : origins.length = d.jobs.length) (hpre : origins <+: origins')
    (h : Outcome d act d')
    (hfits : ∀ x ∈ d.jobs.zip origins, Armed x.1 → ForRow adapters x.1.req x.2)
    (hnew : ∀ (req : ScanRequest) (origin : Option Nat), act = .submit req →
      origins'[d.jobs.length]? = some origin → ForRow adapters req origin) :
    ∀ x ∈ d'.jobs.zip origins', Armed x.1 → ForRow adapters x.1.req x.2 := by
  intro x hx ha
  obtain ⟨t, ht⟩ := List.mem_iff_getElem?.mp hx
  obtain ⟨hjob, horigin⟩ := List.getElem?_zip_eq_some.mp ht
  rcases h.of_armed hjob ha with ⟨job₀, hj₀, ha₀, hreq⟩ | ⟨rfl, hact⟩
  · have hlt := (List.getElem?_eq_some_iff.mp hj₀).1
    obtain ⟨o, ho⟩ : ∃ o, origins[t]? = some o := ⟨_, List.getElem?_eq_getElem (hlen ▸ hlt)⟩
    have hsame : o = x.2 := Option.some.inj ((getElem?_of_isPrefix hpre ho).symm.trans horigin)
    rw [hreq, ← hsame]
    exact hfits (job₀, o) (List.mem_iff_getElem?.mpr ⟨t, List.getElem?_zip_eq_some.mpr ⟨hj₀, ho⟩⟩)
      ha₀
  · exact hnew _ _ hact horigin

end Post

/-! ### Every step -/

namespace Service

variable {lower : Str → Str} {box : SecretBox} {s s' : Service} {act : Act} {p : Post}

/-- Every request that waits while a rebuild swaps was routed for the row of its new adapter. -/
def SameRow (s : Service) (act : Act) : Prop :=
  ∀ k ∈ s.swapOf act, s.post.Fits (s.locals (some k)).adapters

instance (s : Service) (act : Act) : Decidable (SameRow s act) :=
  inferInstanceAs (Decidable (∀ k ∈ s.swapOf act, _))

/-- What a step triggers is a job it starts, on an adapter of the dispatcher. -/
theorem of_triggered {d d' : Debouncer} {t : Nat} {a : Adapter} (h : (t, a) ∈ s.triggered d d') :
    ∃ time job, (t, time) ∈ d.started d' ∧ d'.jobs[t]? = some job ∧
      s.adapters.lookup job.req.serverId = some a := by
  obtain ⟨⟨t', time⟩, he, hsome⟩ := List.mem_filterMap.mp h
  split at hsome
  · rename_i job hjob
    obtain ⟨a', ha, e⟩ := Option.map_eq_some_iff.mp hsome
    cases e
    exact ⟨time, job, he, hjob, ha⟩
  · cases hsome

/-- A pending request is for the row of its adapter. -/
theorem origin_of_pending {d : Debouncer} {t : Nat} {job : Job}
    (ht : s.post.Traced) (hd : s.engine.debouncer = some d) (hj : d.jobs[t]? = some job)
    (ha : Armed job) {a : Adapter} (hlookup : s.adapters.lookup job.req.serverId = some a) :
    s.origins[t]? = some a.row := by
  have hlt := (List.getElem?_eq_some_iff.mp hj).1
  rw [← ht.numbered d hd] at hlt
  have ho := List.getElem?_eq_getElem hlt
  have hfit := ht.fits.1 d hd (job, _)
    (List.mem_iff_getElem?.mpr ⟨t, List.getElem?_zip_eq_some.mpr ⟨hj, ho⟩⟩) ha a hlookup
  exact ho.trans (congrArg some hfit)

theorem numbered_next (hw : Engine.Wired s.engine) (hn : s.post.Numbered)
    (h : Delivers lower s act p) : p.Numbered := by
  cases h with
  | same => exact hn
  | publish hwire rows => exact ⟨hn.early, hn.good, hn.numbered, hn.submitted⟩
  | wire hwire servers =>
      obtain ⟨-, -, horigins⟩ := hn.early (hw.early.nothing hwire).2.1
      refine ⟨fun e => by (cases e), fun d hd => ?_, fun d hd => ?_, hn.submitted⟩
      · cases hd
        exact Debouncer.good_init servers
      · cases hd
        exact congrArg List.length horigins
  | @swap k d hk hd servers =>
      have hen : Debouncer.machine.enabled d (.updateServers servers) := trivial
      refine ⟨fun e => by (cases e), fun d' hd' => ?_, fun d' hd' => ?_, hn.submitted⟩
      · cases hd'
        exact (hn.good d hd).next hen
      · cases hd'
        exact (hn.numbered d hd).trans (Debouncer.drops_updateServers d servers).length.symm
  | yield event hwired htodo =>
      exact ⟨fun e => absurd e (hw.pipeline hwired).1, hn.good, hn.numbered, List.length_map ..⟩
  | @submit d req todo hact hd htodo =>
      have hsub := hn.submitted
      rw [show s.post.todo = req :: todo from htodo] at hsub
      obtain ⟨origin, origins, horigins⟩ := List.exists_cons_of_length_eq_add_one hsub
      rw [horigins] at hsub
      rw [show s.todoOrigins = origin :: origins from horigins]
      refine ⟨fun e => by (cases e), fun d' hd' => ?_, fun d' hd' => ?_, Nat.succ.inj hsub⟩
      · cases hd'
        exact (hn.good d hd).submit req
      · cases hd'
        rw [Debouncer.length_submit, ← hn.numbered d hd]
        exact List.length_append
  | @loop d act' hno hd hact hen =>
      refine ⟨fun e => by (cases e), fun d' hd' => ?_, fun d' hd' => ?_, hn.submitted⟩
      · cases hd'
        exact (hn.good d hd).next hen
      · cases hd'
        obtain ⟨⟨req, rfl⟩, -⟩ | ⟨-, hlen⟩ := (Debouncer.outcome hen).length
        · exact hact.elim
        · exact (hn.numbered d hd).trans hlen.symm
  | @aclose d hd =>
      have hen : Debouncer.machine.enabled d .aclose := trivial
      refine ⟨fun e => by (cases e), fun d' hd' => ?_, fun d' hd' => ?_, hn.submitted⟩
      · cases hd'
        exact (hn.good d hd).next hen
      · cases hd'
        exact (hn.numbered d hd).trans (Debouncer.drops_aclose d).length.symm

theorem traced_next (hw : Engine.Wired s.engine) (hr : s.bench.Rowed) (ht : s.post.Traced)
    (h : Delivers lower s act p) (hG : s.SameRow act) : p.Traced := by
  have hnumbered := numbered_next hw ht.toNumbered h
  cases h with
  | same => exact ht
  | publish hn rows => exact ⟨hnumbered, ht.fits, ht.delivered⟩
  | wire hn servers =>
      obtain ⟨htodo, -, -⟩ := ht.early (hw.early.nothing hn).2.1
      refine ⟨hnumbered, ⟨fun d hd x hx => ?_, fun x hx => ?_⟩, ht.delivered⟩
      · cases hd
        cases hx
      · rw [show s.post.todo = [] from htodo] at hx
        cases hx
  | @swap k d hk hd servers =>
      have hout : Debouncer.Outcome d (.updateServers servers) _ := Debouncer.outcome trivial
      have hfits := hG k hk
      refine ⟨hnumbered, ⟨fun d' hd' => ?_, hfits.2⟩, ht.delivered⟩
      cases hd'
      exact Post.fits_outcome (ht.numbered d hd) List.prefix_rfl hout (hfits.1 d hd)
        fun _ _ e => by cases e
  | yield event hwired htodo =>
      refine ⟨hnumbered, ⟨ht.fits.1, fun x hx a ha => ?_⟩, ht.delivered⟩
      -- the requests are routed for the rows of the installed configuration
      obtain ⟨req, -, rfl⟩ : ∃ req ∈ s.engine.requests lower event,
          (req, s.rows.lookup req.serverId) = x :=
        List.mem_map.mp (List.map_prod_left_eq_zip.symm ▸ hx)
      exact (hr.installed _ a ha).2.symm
  | @submit d req todo hact hd htodo =>
      have hen : Debouncer.machine.enabled d (.submit req) := trivial
      have hout := Debouncer.outcome hen
      have hsub := ht.submitted
      rw [show s.post.todo = req :: todo from htodo] at hsub
      obtain ⟨origin, origins, horigins⟩ := List.exists_cons_of_length_eq_add_one hsub
      have hfit := ht.fits.2
      rw [show s.post.todo = req :: todo from htodo, horigins] at hfit
      have hnew : (s.origins ++ [origin])[d.jobs.length]? = some origin := by
        rw [← ht.numbered d hd]
        exact List.getElem?_concat_length
      rw [show s.todoOrigins = origin :: origins from horigins] at hnumbered ⊢
      refine ⟨hnumbered, ⟨fun d' hd' => ?_, fun x hx => hfit x (List.mem_cons_of_mem _ hx)⟩,
        ht.delivered.append (List.prefix_append _ _) fun ⟨t, a⟩ hx => ?_⟩
      · cases hd'
        refine Post.fits_outcome (ht.numbered d hd) (List.prefix_append _ _) hout
          (ht.fits.1 d hd) fun req' o e ho => ?_
        cases e
        cases hnew.symm.trans ho
        exact hfit (req, origin) List.mem_cons_self
      · obtain ⟨time, job, he, hjob, ha⟩ := of_triggered hx
        obtain ⟨-, hloop⟩ | ⟨rfl, -⟩ := hout.of_started he
        · exact absurd hloop id
        · obtain ⟨job₀, hj₀, -⟩ | ⟨e, -⟩ := Debouncer.getJob_next hen hjob
          · exact absurd (List.getElem?_eq_some_iff.mp hj₀).1 (lt_irrefl _)
          · cases e
            have horigin : origin = a.row := hfit (job.req, origin) List.mem_cons_self a ha
            exact ⟨(hr.installed _ _ ha).1, hnew.trans (congrArg some horigin)⟩
  | @loop d act' hno hd hact hen =>
      have hout := Debouncer.outcome hen
      have hne : ∀ req, act' ≠ .submit req := fun req e => by
        rw [e] at hact
        exact hact
      refine ⟨hnumbered, ⟨fun d' hd' => ?_, ht.fits.2⟩,
        ht.delivered.append List.prefix_rfl fun x hx => ?_⟩
      · cases hd'
        exact Post.fits_outcome (ht.numbered d hd) List.prefix_rfl hout (ht.fits.1 d hd)
          fun req _ e => absurd e (hne req)
      · obtain ⟨time, job, he, hjob, ha⟩ := of_triggered hx
        obtain ⟨⟨job₀, hj₀, ha₀⟩, -⟩ | ⟨-, req, e⟩ := hout.of_started he
        · obtain ⟨job', hj', hsame⟩ := Debouncer.kept_next hen hj₀
          cases hjob.symm.trans hj'
          have hsome := (hr.installed _ _ ha).1
          rw [hsame.req] at ha
          exact ⟨hsome, origin_of_pending ht hd hj₀ ha₀ ha⟩
        · exact absurd e (hne req)
  | @aclose d hd =>
      have hout : Debouncer.Outcome d .aclose _ := Debouncer.outcome trivial
      refine ⟨hnumbered, ⟨fun d' hd' => ?_, ht.fits.2⟩, ht.delivered⟩
      cases hd'
      exact Post.fits_outcome (ht.numbered d hd) List.prefix_rfl hout (ht.fits.1 d hd)
        fun _ _ e => by cases e

/-! ### Every run -/

section Run
variable {store : Store} {watcher : Option Watching} {l : List Act}

theorem numbered_init (store : Store) (watcher : Option Watching) :
    (init store watcher).post.Numbered where
  early _ := ⟨rfl, rfl, rfl⟩
  good d h := by cases h
  numbered d h := by cases h
  submitted := rfl

theorem traced_init (store : Store) (watcher : Option Watching) :
    (init store watcher).post.Traced where
  toNumbered := numbered_init store watcher
  fits := ⟨fun d h => by (cases h), fun x h => by cases h⟩
  delivered x h := by cases h

/-- **A request reaches the server it was routed for** in the runs that meet `SameRow`. -/
theorem delivered_to_origin
    (h : Lts.Run (system lower box) SameRow (init store watcher) l s) :
    Post.Delivered s.origins s.deliveries :=
  (service_invariant (Q := fun s => s.post.Traced) h Bench.rowed_init (fun _ _ _ hb h => hb.next h)
    (traced_init store watcher) fun _ _ _ hw hr ht hstep _ hG =>
      traced_next hw hr ht (delivers_next hw hstep) hG).2.delivered

/-- The server is renamed while its timer is armed. -/
def renameArmed : List Act :=
  let rename : Write := .serverUpdate 0 1 { name := some (some (str "den")) }
  launching ++ arming ++ [.commit rename, .call] ++
    swapping 0 (storeAfter [.serverCreateWithFolders 0 plexServer [tvFolder], rename]) ++ firing

theorem delivered_to_origin_renamed :
    ∃ s : Service, Post.Delivered s.origins s.deliveries ∧
      s.deliveries.map (fun x => x.2.server.name) = [str "den"] :=
  ⟨renameArmed.foldl (system asciiLower markBox).next (init oneServer none),
    delivered_to_origin (Lts.run_of_exec (by decide +kernel)), by decide +kernel⟩

/-- The server is deleted and another one created before a rebuild reads the database. -/
def replaceArmed : List Act :=
  let create : Write := .serverCreateWithFolders 0 { plexServer with name := str "den" } [tvFolder]
  launching ++ arming ++ [.commit (.serverDelete 1), .call, .commit create, .call] ++
    swapping 0 (storeAfter [.serverCreateWithFolders 0 plexServer [tvFolder], .serverDelete 1,
      create]) ++ firing

/-- The request of the deleted server is handed to the adapter of the new one. -/
theorem id_reuse_redirects :
    ∃ s : Service,
      Lts.Run (system asciiLower markBox) Lts.free (init oneServer none) replaceArmed s ∧
      s.origins = [some 0] ∧ s.deliveries.map (fun x => (x.1, x.2.row)) = [(0, some 1)] ∧
      s.deliveries.map (fun x => x.2.server.name) = [str "den"] ∧
      ¬ Post.Delivered s.origins s.deliveries :=
  ⟨_, Lts.run_of_exec (by decide +kernel), by decide +kernel, by decide +kernel,
    by decide +kernel, by decide +kernel⟩

end Run

end Service

end MediaScanMonitor
