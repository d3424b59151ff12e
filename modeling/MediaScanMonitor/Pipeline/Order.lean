import MediaScanMonitor.Pipeline.Coalesce

/-!
# Pipeline — in which order the dispatches of a key start

Jobs are numbered in the order of submission, so the dispatches of a key are in order when their
numbers go up along the log.  A timer survives an `update_servers` that puts its server on `off`,
and what is submitted then is dispatched at once, before the older request the timer still holds.

* `Ordered`: the log is in order, and no dispatch is ahead of an armed timer of its key.
* `Ordered.next`: every step keeps that, but for a dispatch at once past an armed timer of the key.
* `lasting_iff`: it is what it takes for the loop alone never to get out of order.
* `dispatches_in_order`: the runs without such a dispatch are those that stay in order, however the
  loop goes on.
-/

namespace MediaScanMonitor
open Py

namespace Debouncer
variable {d d' : Debouncer} {t u : Nat} {job : Job} {act : Act} {l : List Act}
  {servers : AList fun _ : Int => ServerRuntime}

/-- The key of a job. -/
def keyOf (d : Debouncer) (t : Nat) : Option (Int × Str) := d.jobs[t]?.map fun job => job.req.key

/-- The dispatches of each key start in the order of submission. -/
def InOrder (d : Debouncer) : Prop :=
  d.dispatches.Pairwise fun e e' => d.keyOf e.1 = d.keyOf e'.1 → e.1 < e'.1

/-- The order holds, however the loop goes on. -/
def Lasting (d : Debouncer) : Prop := ∀ l d', Handling.LoopRun d l d' → InOrder d'

/-- Nothing is dispatched at once while a timer of its key is stored. -/
def Unovertaken (d : Debouncer) : Act → Prop
  | .submit req => windowOf d.servers req.serverId = none → d.timers.lookup req.key = none
  | .run _ | .wake _ | .finish _ | .tick _ | .updateServers _ | .aclose => True

/-- The consume loop submits one request after another, and nothing is closed. -/
def Consuming (d : Debouncer) : Act → Prop
  | .submit _ => ¬ Suspended d
  | .run _ | .wake _ | .finish _ | .tick _ | .updateServers _ => True
  | .aclose => False

instance (d : Debouncer) : ∀ act, Decidable (Consuming d act)
  | .submit _ => inferInstanceAs (Decidable (¬ Suspended d))
  | .run _ | .wake _ | .finish _ | .tick _ | .updateServers _ => .isTrue trivial
  | .aclose => .isFalse id

theorem keyOf_eq (hj : d.jobs[t]? = some job) : d.keyOf t = some job.req.key := by
  rw [keyOf, hj]
  rfl

theorem keyOf_next (hen : machine.enabled d act) (ht : t < d.jobs.length) :
    (machine.next d act).keyOf t = d.keyOf t := by
  obtain ⟨job', hj', hs⟩ := kept_next hen (List.getElem?_eq_getElem ht)
  rw [keyOf_eq hj', keyOf_eq (List.getElem?_eq_getElem ht), hs.req]

/-- A step starts one dispatch at most. -/
theorem Outcome.dispatches (h : Outcome d act d') :
    d'.dispatches = d.dispatches ∨ ∃ e, d'.dispatches = d.dispatches ++ [e] := by
  cases h with
  | dispatched hw | fired hact hj ha => exact .inr ⟨_, rfl⟩
  | @armed req window hw => exact .inl (drops_dropTimer d req.key).dispatches
  | moved hact hj hp ha | stayed hact now => exact .inl rfl
  | dropped hact h => exact .inl h.dispatches

/-- What a submission starts, it dispatches at once. -/
theorem windowOf_of_started {req : ScanRequest} {e : Nat × ℚ}
    (he : e ∈ d.started (machine.next d (.submit req))) :
    windowOf d.servers req.serverId = none := by
  cases hw : windowOf d.servers req.serverId with
  | none => rfl
  | some window =>
      have hsame : ((d.dropTimer req.key).arm req window).dispatches = d.dispatches :=
        (drops_dropTimer d req.key).dispatches
      rw [next_submit, submit_of_some d hw, started_of_eq hsame] at he
      cases he

/-! ### The invariant -/

structure Ordered (d : Debouncer) : Prop where
  inOrder : InOrder d
  /-- An armed timer is ahead of no dispatch of its key. -/
  ahead : ∀ (t : Nat) (job : Job), d.jobs[t]? = some job → Armed job →
    ∀ e ∈ d.dispatches, d.keyOf e.1 = some job.req.key → e.1 < t

theorem ordered_init (servers : AList fun _ : Int => ServerRuntime) : Ordered (init servers) where
  inOrder := .nil
  ahead t job hj := by cases hj

/-- A dispatch that starts is of a later submission than those of its key before. -/
theorem Ordered.started (h : Ordered d) (hd : Good d) (hen : machine.enabled d act)
    {e e' : Nat × ℚ} (he : e ∈ d.dispatches) (he' : e' ∈ d.started (machine.next d act))
    (hk : d.keyOf e.1 = (machine.next d act).keyOf e'.1) : e.1 < e'.1 := by
  have hlt := hd.lt (List.mem_map_of_mem he)
  rcases (outcome hen).of_started he' with ⟨⟨job, hj, ha⟩, -⟩ | ⟨hnew, -⟩
  · rw [keyOf_next hen (lt_of_getElem? hj), keyOf_eq hj] at hk
    exact h.ahead _ job hj ha e he hk
  · rw [hnew]
    exact hlt

theorem Ordered.inOrder_next (h : Ordered d) (hd : Good d) (hen : machine.enabled d act) :
    InOrder (machine.next d act) := by
  have hold : d.dispatches.Pairwise fun e e' =>
      (machine.next d act).keyOf e.1 = (machine.next d act).keyOf e'.1 → e.1 < e'.1 := by
    refine h.inOrder.imp_of_mem fun {e e'} he he' hlt hk => hlt ?_
    rwa [keyOf_next hen (hd.lt (List.mem_map_of_mem he)),
      keyOf_next hen (hd.lt (List.mem_map_of_mem he'))] at hk
  rcases (outcome hen).dispatches with hsame | ⟨e', hnew⟩
  · rw [InOrder, hsame]
    exact hold
  · rw [InOrder, hnew, List.pairwise_append]
    refine ⟨hold, List.pairwise_singleton _ _, fun e he e₁ he₁ hk => ?_⟩
    have hstarted : e₁ ∈ d.started (machine.next d act) := by
      rw [started_of_append hnew]
      exact he₁
    rw [keyOf_next hen (hd.lt (List.mem_map_of_mem he))] at hk
    exact h.started hd hen he hstarted hk

/-- **A step keeps the order**, if it dispatches nothing past an armed timer of its key. -/
theorem Ordered.next (h : Ordered d) (hd : Good d) (hen : machine.enabled d act)
    (hclear : Unovertaken d act) : Ordered (machine.next d act) := by
  refine ⟨h.inOrder_next hd hen, fun t job hj ha e he hk => ?_⟩
  have hd' := hd.next hen
  have hnew : e ∈ d.dispatches ∨ e ∈ d.started (machine.next d act) := by
    obtain ⟨new, hnew⟩ := dispatches_next hen
    rw [← hnew] at he
    refine (List.mem_append.mp he).imp_right fun he => ?_
    rwa [Debouncer.started, ← hnew, List.drop_left]
  rcases (outcome hen).of_armed hj ha with ⟨job₀, hj₀, ha₀, hreq⟩ | ⟨rfl, rfl⟩
  · rcases hnew with he₀ | he₀
    · rw [keyOf_next hen (hd.lt (List.mem_map_of_mem he₀)), hreq] at hk
      exact h.ahead t job₀ hj₀ ha₀ e he₀ hk
    · -- a step that starts a dispatch leaves no timer of that key armed
      refine absurd ?_ (hd'.not_mem ⟨job, hj, ha⟩)
      rcases (outcome hen).of_started he₀ with ⟨⟨job₁, hj₁, ha₁⟩, -⟩ | ⟨heq, req, rfl⟩
      · rw [keyOf_next hen (lt_of_getElem? hj₁), keyOf_eq hj₁, hreq] at hk
        have hl := hd.lookup hj₁ ha₁
        rw [Option.some.inj hk, hd.lookup hj₀ ha₀] at hl
        rw [Option.some.inj hl]
        exact List.mem_map_of_mem he
      · have hw := windowOf_of_started he₀
        have hreq' : req.key = job₀.req.key := by
          rw [next_submit, submit_of_none d hw, heq,
            keyOf_eq (getElem?_concat.mpr (.inr ⟨rfl, rfl⟩)), hreq] at hk
          exact Option.some.inj hk
        have hl := hclear hw
        rw [hreq', hd.lookup hj₀ ha₀] at hl
        cases hl
  · rcases hnew with he₀ | he₀
    · exact hd.lt (List.mem_map_of_mem he₀)
    · refine absurd ?_ (hd'.not_mem ⟨job, hj, ha⟩)
      rcases (outcome hen).of_started he₀ with ⟨-, hact⟩ | ⟨heq, -⟩
      · exact hact.elim
      · rw [← heq]
        exact List.mem_map_of_mem he

/-! ### When the order lasts -/

theorem unovertaken_of_ofLoop (hact : OfLoop act) : Unovertaken d act := by
  cases act with
  | submit req => exact hact.elim
  | _ => trivial

/-- **The order lasts** exactly in the ordered states: a timer that is behind a dispatch of its key
can fire. -/
theorem lasting_iff (hd : Good d) : Lasting d ↔ Ordered d := by
  constructor
  · intro h
    refine ⟨h [] d .nil, fun t job hj ha e he hk => ?_⟩
    obtain ⟨l, d', time, job', hrun, hstarted, hj', hreq⟩ := Handling.exists_dispatch hd hj ha
    obtain ⟨new, hnew⟩ := hrun.dispatches
    have hpair := h l d' hrun
    rw [InOrder, ← hnew, List.pairwise_append] at hpair
    rw [started, ← hnew, List.drop_left] at hstarted
    refine hpair.2.2 e he _ hstarted ?_
    obtain ⟨job₁, hj₁⟩ : ∃ job₁, d.jobs[e.1]? = some job₁ :=
      ⟨_, List.getElem?_eq_getElem (hd.lt (List.mem_map_of_mem he))⟩
    obtain ⟨job₂, hj₂, hs⟩ := hrun.kept hj₁
    rw [keyOf_eq hj₁] at hk
    rw [keyOf_eq hj₂, keyOf_eq hj', hs.req, hreq, hk]
  · intro h l d' hrun
    have hkeep : Good d' ∧ Ordered d' :=
      hrun.invariant (P := fun d => Good d ∧ Ordered d) ⟨hd, h⟩ fun s act hs hen hact =>
        ⟨hs.1.next hen, hs.2.next hs.1 hen (unovertaken_of_ofLoop hact)⟩
    exact hkeep.2.inOrder

/-- From an ordered state a step leads to one exactly if it overtakes no timer. -/
theorem unovertaken_iff (h : Ordered d) (hd : Good d) (hen : machine.enabled d act) :
    Unovertaken d act ↔ Ordered (machine.next d act) := by
  refine ⟨h.next hd hen, fun hnext => ?_⟩
  cases act with
  | submit req =>
      intro hw
      by_contra hne
      obtain ⟨t, hl⟩ := Option.ne_none_iff_exists'.mp hne
      obtain ⟨job, hj, hk, ha⟩ := (hd.stored _ t).mp hl
      rw [next_submit, submit_of_none d hw] at hnext
      have hlt := hnext.ahead t job (getElem?_concat.mpr (.inl hj)) ha (d.jobs.length, d.now)
        (List.mem_append_right _ List.mem_cons_self)
        (by rw [keyOf_eq (getElem?_concat.mpr (.inr ⟨rfl, rfl⟩)), hk])
      exact absurd (lt_of_getElem? hj) hlt.not_gt
  | _ => trivial

/-- **The runs that dispatch nothing past an armed timer of its key** are those that stay in order
for good, and in them the dispatches of each key start in the order of submission. -/
theorem dispatches_in_order :
    (Lts.Run machine Unovertaken (init servers) l d → InOrder d) ∧
      (Lts.Run machine Unovertaken (init servers) l d ↔
        Lts.Run machine (fun d act => Lasting (machine.next d act)) (init servers) l d) := by
  have hinit : Lasting (init servers) :=
    (lasting_iff (good_init servers)).mpr (ordered_init servers)
  constructor
  · intro h
    have hkeep : Good d ∧ Ordered d :=
      h.invariant (P := fun d => Good d ∧ Ordered d) ⟨good_init servers, ordered_init servers⟩
        fun s act hs hen hclear => ⟨hs.1.next hen, hs.2.next hs.1 hen hclear⟩
    exact hkeep.2.inOrder
  · refine Lts.run_guard_iff (I := Good) (good_init servers) hinit (fun _ _ hd hen => hd.next hen)
      fun d act hd hlasting hen => ?_
    rw [lasting_iff (hd.next hen)]
    exact unovertaken_iff ((lasting_iff hd).mp hlasting) hd hen

/-- Server 1, with no window. -/
def plexServersOff : AList fun _ : Int => ServerRuntime :=
  AList.singleton 1 (makeServerRuntime 1 .off 30)

/-- The server is put on `off` while a timer is armed. -/
def switchOff : List Act :=
  [.submit (plexRequest (str "/data/tv/Show/first.mkv")), .run 0, .updateServers plexServersOff,
    .submit (plexRequest (str "/data/tv/Show/second.mkv")), .finish 1, .tick 30, .wake 0, .run 0]

/-- The older of two requests of one key is dispatched after the newer. -/
theorem switched_off_out_of_order :
    ∃ d, Lts.Run machine Consuming (init plexServers) switchOff d ∧
      d.dispatches = [(1, 0), (0, 30)] ∧ ¬ InOrder d := by
  have hlog : (switchOff.foldl machine.next (init plexServers)).dispatches = [(1, 0), (0, 30)] := by
    decide +kernel
  refine ⟨_, Lts.run_of_exec (by decide +kernel), hlog, fun h => ?_⟩
  rw [InOrder, hlog, List.pairwise_pair] at h
  exact absurd (h (by decide +kernel)) (by decide)

end Debouncer

end MediaScanMonitor
