import MediaScanMonitor.Engine.Origins

/-!
# Engine — what waits and does not fit goes astray

The converse of `delivered_to_origin`.  A request that waits can always be handed to the adapter of
its server id, whichever row that adapter was built from.

* `exists_delivery`, `exists_delivery_of_todo`: for an armed timer, and for what `_handle_event` has
  still to submit.
* `misdelivered_of_not_sameRow`: after a swap against `SameRow` the service has only to go on for a
  request to reach an adapter of another row.
-/

namespace MediaScanMonitor
open Py
open Debouncer (OfLoop Suspended Armed)
open Handling (LoopRun Good.loopRun LoopRun.dispatches LoopRun.length exists_awake exists_dispatch)

namespace Service

variable {lower : Str → Str} {box : SecretBox} {s s' : Service} {act : Act} {d d' : Debouncer}

/-- The loop takes the debouncer on: what it dispatches on the way is delivered. -/
theorem exists_loopRun {l : List Debouncer.Act} (hd : s.engine.debouncer = some d)
    (h : LoopRun d l d') :
    ∃ l' s' new, Lts.Run (system lower box) Lts.free s l' s' ∧
      s'.post = { s.post with debouncer := some d', deliveries := s.deliveries ++ new } ∧
      ∀ t time job a, (t, time) ∈ d.started d' → d'.jobs[t]? = some job →
        s.adapters.lookup job.req.serverId = some a → (t, a) ∈ new := by
  induction h with
  | nil =>
      refine ⟨[], s, [], .nil, ?_, fun t time job a he => ?_⟩
      · rw [List.append_nil, ← hd]
        rfl
      · rw [Debouncer.started_of_eq rfl] at he
        cases he
  | @snoc l d₁ act hrun hen hact ih =>
      obtain ⟨l₁, s₁, new, hrun₁, hpost, hnew⟩ := ih
      have hd₁ : s₁.engine.debouncer = some d₁ := congrArg Post.debouncer hpost
      have hadapters : s₁.adapters = s.adapters := congrArg Post.adapters hpost
      obtain ⟨henabled, hpost₂⟩ := @loop_step lower box s₁ d₁ act hd₁ hact hen
      refine ⟨_, _, new ++ s.triggered d₁ (Debouncer.machine.next d₁ act),
        hrun₁.snoc henabled trivial, ?_, ?_⟩
      · have hdel : s₁.deliveries = s.deliveries ++ new := congrArg Post.deliveries hpost
        rw [hpost₂, hpost, triggered_congr hadapters, hdel, List.append_assoc]
      · intro t time job a he hj ha
        rw [Debouncer.started_append (LoopRun.dispatches hrun)
          (Debouncer.dispatches_next hen)] at he
        rcases List.mem_append.mp he with he | he
        · obtain ⟨job₁, hj₁, hsame⟩ | ⟨rfl, -⟩ := Debouncer.getJob_next hen hj
          · exact List.mem_append_left _ (hnew t time job₁ a he hj₁ (hsame.req ▸ ha))
          · exact hact.elim
        · exact List.mem_append_right _ (mem_triggered he hj ha)

/-- An armed request can be handed to the adapter of its server. -/
theorem exists_delivery (hd : s.engine.debouncer = some d) (hgood : d.Good) {t : Nat} {job : Job}
    (hj : d.jobs[t]? = some job) (ha : Armed job) {a : Adapter}
    (hlookup : s.adapters.lookup job.req.serverId = some a) :
    ∃ l s', Lts.Run (system lower box) Lts.free s l s' ∧ s'.origins = s.origins ∧
      (t, a) ∈ s'.deliveries := by
  obtain ⟨l, d', time, job', hrun, he, hj', hreq⟩ := exists_dispatch hgood hj ha
  obtain ⟨l', s', new, hrun', hpost, hnew⟩ := @exists_loopRun lower box s d d' l hd hrun
  refine ⟨l', s', hrun', congrArg Post.origins hpost, ?_⟩
  rw [show s'.deliveries = s.deliveries ++ new from congrArg Post.deliveries hpost]
  exact List.mem_append_right _ (hnew t time job' a he hj' (hreq ▸ hlookup))

/-- The next request is submitted, once the dispatch the handler waits for has come to its end. -/
theorem exists_submit {req : ScanRequest} {todo : List ScanRequest}
    (hd : s.engine.debouncer = some d) (htodo : s.engine.todo = req :: todo) :
    ∃ l s' loop d' old, Lts.Run (system lower box) Lts.free s l s' ∧ LoopRun d loop d' ∧
      s'.post =
        { s.post with
          debouncer := some (d'.submit req)
          todo := todo
          todoOrigins := s.todoOrigins.tail
          origins := s.origins ++ [s.todoOrigins.head?.join]
          deliveries := old ++ s.triggered d' (d'.submit req) } := by
  obtain ⟨loop, d', hloop, hawake⟩ := exists_awake d
  obtain ⟨l, s', new, hrun, hpost, -⟩ := @exists_loopRun lower box s d d' loop hd hloop
  have hd' : s'.engine.debouncer = some d' := congrArg Post.debouncer hpost
  have htodo' : s'.engine.todo = req :: todo := (congrArg Post.todo hpost).trans htodo
  obtain ⟨henabled, hpost'⟩ := @submit_step lower box s' d' req todo hd' htodo' hawake
  refine ⟨_, _, loop, d', s'.deliveries, hrun.snoc henabled trivial, hloop, ?_⟩
  rw [hpost', triggered_congr (congrArg Post.adapters hpost),
    show s'.todoOrigins = s.todoOrigins from congrArg Post.todoOrigins hpost,
    show s'.origins = s.origins from congrArg Post.origins hpost, hpost]

/-- A request that `_handle_event` has still to submit can be handed to the adapter of its
server. -/
theorem exists_delivery_of_todo {req : ScanRequest} {origin : Option Nat} {a : Adapter}
    {todo : List ScanRequest} (hd : s.engine.debouncer = some d) (hgood : d.Good)
    (hlen : s.origins.length = d.jobs.length) (htodo : s.engine.todo = todo)
    (hmem : (req, origin) ∈ todo.zip s.todoOrigins)
    (hlookup : s.adapters.lookup req.serverId = some a) :
    ∃ l s' t, Lts.Run (system lower box) Lts.free s l s' ∧ s'.origins[t]? = some origin ∧
      (t, a) ∈ s'.deliveries := by
  induction todo generalizing s d with
  | nil => cases hmem
  | cons first todo ih =>
      obtain ⟨l, s', loop, d', old, hrun, hloop, hpost⟩ :=
        @exists_submit lower box s d first todo hd htodo
      have hd' : s'.engine.debouncer = some (d'.submit first) := congrArg Post.debouncer hpost
      have hgood' : (d'.submit first).Good := (Good.loopRun hgood hloop).submit first
      have hadapters : s'.adapters = s.adapters := congrArg Post.adapters hpost
      have hlen' : s.origins.length = d'.jobs.length :=
        hlen.trans (hloop.length).symm
      have horigins : s'.origins = s.origins ++ [s.todoOrigins.head?.join] :=
        congrArg Post.origins hpost
      have htodoOrigins : s'.todoOrigins = s.todoOrigins.tail := congrArg Post.todoOrigins hpost
      cases hrest : s.todoOrigins with
      | nil =>
          rw [hrest] at hmem
          cases hmem
      | cons origin₀ rest =>
          rw [hrest] at hmem horigins htodoOrigins
          rcases List.mem_cons.mp hmem with e | hmem
          · -- it is the one just submitted
            cases e
            have horigin : s'.origins[d'.jobs.length]? = some origin := by
              rw [horigins, ← hlen']
              exact List.getElem?_concat_length
            obtain ⟨job, hj, rfl, ⟨time, he⟩ | ha⟩ := d'.submit_cases req
            · refine ⟨l, s', _, hrun, horigin, ?_⟩
              rw [show s'.deliveries = old ++ _ from congrArg Post.deliveries hpost]
              exact List.mem_append_right _ (mem_triggered he hj hlookup)
            · obtain ⟨l', s'', hrun', horigins', hmem⟩ :=
                @exists_delivery lower box s' _ hd' hgood' _ job hj ha a (hadapters ▸ hlookup)
              exact ⟨l ++ l', s'', _, hrun.trans hrun', horigins' ▸ horigin, hmem⟩
          · have hlen'' : s'.origins.length = (d'.submit first).jobs.length := by
              rw [horigins, Debouncer.length_submit, List.length_append, hlen']
              rfl
            obtain ⟨l', s'', t, hrun', hdelivered⟩ := ih hd' hgood' hlen''
              (congrArg Post.todo hpost) (htodoOrigins ▸ hmem) (hadapters ▸ hlookup)
            exact ⟨l ++ l', s'', t, hrun.trans hrun', hdelivered⟩

/-- What waits and is not for the row of its adapter can be handed to it. -/
theorem exists_misdelivery (hearly : s.engine.debouncer = none → s.engine.todo = [])
    (hgood : ∀ d ∈ s.engine.debouncer, d.Good)
    (hlen : ∀ d ∈ s.engine.debouncer, s.origins.length = d.jobs.length)
    (h : ¬ s.post.Fits s.adapters) :
    ∃ l s', Lts.Run (system lower box) Lts.free s l s' ∧
      ¬ Post.Delivered s'.origins s'.deliveries := by
  have hwrong : ∀ {l : List Act} {s' : Service} {t : Nat} {a : Adapter} {origin : Option Nat},
      s'.origins[t]? = some origin → origin ≠ a.row → (t, a) ∈ s'.deliveries →
      ¬ Post.Delivered s'.origins s'.deliveries := fun horigin hne hmem hdelivered =>
    hne (Option.some.inj (horigin.symm.trans (hdelivered _ hmem).2))
  rcases not_and_or.mp h with h | h
  · simp only [Post.ForRow, not_forall] at h
    obtain ⟨d, hd, ⟨job, origin⟩, hmem, ha, a, hlookup, hne⟩ := h
    obtain ⟨t, ht⟩ := List.mem_iff_getElem?.mp hmem
    obtain ⟨hj, horigin⟩ := List.getElem?_zip_eq_some.mp ht
    obtain ⟨l, s', hrun, horigins, hdel⟩ :=
      @exists_delivery lower box s d hd (hgood d hd) t job hj ha a hlookup
    exact ⟨l, s', hrun, hwrong (l := l) (horigins ▸ horigin) hne hdel⟩
  · simp only [Post.ForRow, not_forall] at h
    obtain ⟨⟨req, origin⟩, hmem, a, hlookup, hne⟩ := h
    cases hd : s.engine.debouncer with
    | none =>
        rw [show s.post.todo = [] from hearly hd] at hmem
        cases hmem
    | some d =>
        obtain ⟨l, s', t, hrun, horigin, hdel⟩ := @exists_delivery_of_todo lower box s d req origin
          a _ hd (hgood d hd) (hlen d hd) rfl hmem hlookup
        exact ⟨l, s', hrun, hwrong (l := l) horigin hne hdel⟩

/-! ### After a swap -/

/-- What waits and has an adapter among the new ones still waits after the swap. -/
theorem fits_of_swap {k : Nat} (hsound : s.bench.Sound) (hd : s.engine.debouncer = some d)
    (hgood : d.Good) (hstep : Step lower box s act s') (hk : s.swapOf act = some k)
    (hfits : s'.post.Fits s'.adapters) : s.post.Fits (s.locals (some k)).adapters := by
  obtain ⟨sn, clients, hstage, -, hpost⟩ := swap_cases hstep hk hd
  rw [show s'.adapters = (s.locals (some k)).adapters from congrArg Post.adapters hpost,
    hpost] at hfits
  refine ⟨fun d₀ hd₀ x hx ha a hlookup => ?_, hfits.2⟩
  obtain rfl : d = d₀ := Option.some.inj (hd.symm.trans hd₀)
  obtain ⟨job, origin⟩ := x
  obtain ⟨t, ht⟩ := List.mem_iff_getElem?.mp hx
  obtain ⟨hj, horigin⟩ := List.getElem?_zip_eq_some.mp ht
  have hserver : job.req.serverId ∈ sn.config.servers :=
    AList.lookup_isSome.mp (by rw [((hsound.built hstage).own _ a hlookup).1]; rfl)
  have hkept : (d.updateServers sn.config.servers).jobs[t]? = some job := by
    rw [(Debouncer.drops_updateServers d sn.config.servers).jobs, if_neg, hj]
    rintro ⟨key, hkey, hl⟩
    obtain ⟨job', hj', rfl, -⟩ := (hgood.stored key t).mp hl
    cases hj.symm.trans hj'
    simp [ScanRequest.key, hserver] at hkey
  exact hfits.1 _ rfl (job, origin)
    (List.mem_iff_getElem?.mpr ⟨t, List.getElem?_zip_eq_some.mpr ⟨hkept, horigin⟩⟩) ha a hlookup

/-- `SameRow` is exact: after a swap against it the service has only to go on, and a request is
handed to an adapter of a row it was not routed for. -/
theorem misdelivered_of_not_sameRow {store : Store} {watcher : Option Watching} {l : List Act}
    (h : Lts.Run (system lower box) Lts.free (init store watcher) l s)
    (hen : (system lower box).enabled s act) (hG : ¬ s.SameRow act) :
    ∃ l' s', Lts.Run (system lower box) Lts.free s (act :: l') s' ∧
      ¬ Post.Delivered s'.origins s'.deliveries := by
  have hinvariant : ∀ {l : List Act} {s : Service},
      Lts.Run (system lower box) Lts.free (init store watcher) l s →
        s.bench.Sound ∧ s.post.Numbered := fun h =>
    service_invariant (Q := fun s => s.post.Numbered) h Bench.sound_init
      (fun _ _ _ hb h => hb.next h) (numbered_init store watcher)
      fun _ _ _ hw _ hn hstep _ _ => numbered_next hw hn (delivers_next hw hstep)
  obtain ⟨hsound, hnumbered⟩ := hinvariant h
  obtain ⟨-, hnumbered'⟩ := hinvariant (h.snoc hen trivial)
  simp only [SameRow, not_forall] at hG
  obtain ⟨k, hk, hfits⟩ := hG
  have hd : s.engine.debouncer ≠ none := fun hd => by
    obtain ⟨htodo, -, -⟩ := hnumbered.early hd
    refine hfits ⟨fun d hd' => ?_, fun x hx => ?_⟩
    · cases hd.symm.trans hd'
    · rw [htodo] at hx
      cases hx
  obtain ⟨d, hd⟩ := Option.ne_none_iff_exists'.mp hd
  obtain ⟨l', s', hrun, hwrong⟩ := @exists_misdelivery lower box
    ((system lower box).next s act) (fun e => (hnumbered'.early e).1) hnumbered'.good
    hnumbered'.numbered fun hfits' =>
      hfits (fits_of_swap hsound hd (hnumbered.good d hd) (step_cases hen) hk hfits')
  exact ⟨l', s', .cons hen trivial hrun, hwrong⟩

end Service

end MediaScanMonitor
