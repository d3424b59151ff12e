import MediaScanMonitor.Engine.Origins

/-!
# Engine — deliveries in progress while a rebuild closes clients

A rebuild closes the clients it has replaced, whoever still uses them.

* `Bench.Separate`: a client has one owner at most: a task that builds, what is installed, or a
  rebuild that closes it.
* `Grounded`: at a swap, no trigger in progress uses a client that is installed.
* `clients_open`: then no client is closed by a rebuild under a trigger in progress.
* `retired_of_not_grounded`: after any other swap the rebuild has only to go on for one to be.
-/

namespace MediaScanMonitor
open Py
open Debouncer (OfLoop Armed)

namespace Bench

variable {b b' : Bench} {k : Option Nat} {c : Nat}

/-! ### One owner -/

/-- Who will close a client, or has closed it as a rebuild. -/
inductive Owner where
  | gone
  | installed
  | task (task : Task)
  deriving DecidableEq

def Owns (b : Bench) : Owner → Nat → Prop
  | .gone, c => c ∈ b.retired ∨
    ∃ (k : Nat) (old : List Nat), b.stage (some k) = .closing old ∧ c ∈ old
  | .installed, c => c ∈ b.clients.map Prod.snd
  | .task task, c => ∃ sn w, b.stage task = .building sn w ∧ c ∈ w.clients.map Prod.snd

structure Separate (b : Bench) : Prop where
  sound : b.Sound
  lt : ∀ o c, b.Owns o c → c < b.created
  unique : ∀ o o' c, b.Owns o c → b.Owns o' c → o = o'
  /-- No rebuild closes what is installed. -/
  adapters : ∀ (i : Int) (a : Adapter), b.adapters.lookup i = some a →
    a.client < b.created ∧ ¬ b.Owns .gone a.client

theorem not_owns_init (o : Owner) : ¬ init.Owns o c := by
  intro h
  cases o with
  | gone =>
      rcases h with h | ⟨k, old, h, -⟩
      · cases h
      · cases h
  | installed => cases h
  | task task =>
      obtain ⟨sn, w, h, -⟩ := h
      cases h

theorem separate_init : Separate init where
  sound := sound_init
  lt o c h := absurd h (not_owns_init o)
  unique o o' c h := absurd h (not_owns_init o)
  adapters i a h := by
    rw [show init.adapters.lookup i = none from AList.lookup_empty i] at h
    cases h

/-- Clients change hands as `next` says, and at most the one just created is new. -/
theorem Separate.transfer (hb : Separate b) (hsound : b'.Sound) (next : Owner → Owner)
    (new : Owner) (hcreated : b.created ≤ b'.created)
    (howns : ∀ o c, b'.Owns o c → (∃ o₀, b.Owns o₀ c ∧ next o₀ = o) ∨
      c = b.created ∧ o = new ∧ b.created < b'.created)
    (hadapters : ∀ (i : Int) (a : Adapter), b'.adapters.lookup i = some a →
      a.client < b'.created ∧ ¬ b'.Owns .gone a.client) : Separate b' where
  sound := hsound
  lt o c h := by
    rcases howns o c h with ⟨o₀, h, -⟩ | ⟨rfl, -, hlt⟩
    · exact (hb.lt o₀ c h).trans_le hcreated
    · exact hlt
  unique o o' c h h' := by
    rcases howns o c h with ⟨o₀, h₀, rfl⟩ | ⟨rfl, rfl, -⟩
    · rcases howns o' c h' with ⟨o₁, h₁, rfl⟩ | ⟨rfl, -, -⟩
      · rw [hb.unique o₀ o₁ c h₀ h₁]
      · exact absurd (hb.lt o₀ _ h₀) (lt_irrefl _)
    · rcases howns o' _ h' with ⟨o₁, h₁, -⟩ | ⟨-, rfl, -⟩
      · exact absurd (hb.lt o₁ _ h₁) (lt_irrefl _)
      · rfl
  adapters := hadapters

/-- No client changes hands. -/
theorem Separate.keep (hb : Separate b) (hsound : b'.Sound) (new : Owner)
    (hcreated : b.created ≤ b'.created) (hadapters : b'.adapters = b.adapters)
    (howns : ∀ o c, b'.Owns o c → b.Owns o c ∨ c = b.created ∧ o = new ∧ b.created < b'.created) :
    Separate b' := by
  refine hb.transfer hsound id new hcreated
    (fun o c h => (howns o c h).imp_left fun h => ⟨o, h, rfl⟩) fun i a ha => ?_
  rw [hadapters] at ha
  obtain ⟨hlt, hgone⟩ := hb.adapters i a ha
  refine ⟨hlt.trans_le hcreated, fun h => ?_⟩
  rcases howns .gone _ h with h | ⟨e, -, -⟩
  · exact hgone h
  · exact hlt.ne e

/-- Who owns a client when one task has another stage. -/
theorem owns_setStage {task : Task} {stage : Stage} {o : Owner}
    (h : (b.setStage task stage).Owns o c) :
    b.Owns o c ∧ o ≠ .task task ∨ (o = .gone ∧ ∃ old, stage = .closing old ∧ c ∈ old) ∨
      (o = .task task ∧ ∃ sn w, stage = .building sn w ∧ c ∈ w.clients.map Prod.snd) := by
  cases o with
  | gone =>
      rcases h with h | ⟨k, old, hk, hc⟩
      · exact .inl ⟨.inl h, nofun⟩
      · by_cases e : some k = task
        · rw [e, stage_setStage] at hk
          exact .inr (.inl ⟨rfl, old, hk, hc⟩)
        · rw [stage_setStage_ne _ _ e] at hk
          exact .inl ⟨.inr ⟨k, old, hk, hc⟩, nofun⟩
  | installed => exact .inl ⟨h, nofun⟩
  | task t =>
      obtain ⟨sn, w, ht, hc⟩ := h
      by_cases e : t = task
      · subst e
        rw [stage_setStage] at ht
        exact .inr (.inr ⟨rfl, sn, w, ht, hc⟩)
      · rw [stage_setStage_ne _ _ e] at ht
        exact .inl ⟨⟨sn, w, ht, hc⟩, fun h => e (by cases h; rfl)⟩

/-- What is closed already, when an adapter is skipped. -/
theorem owns_skip {task : Task} {sn : Snapshot} {serverId : Int}
    (h : (b.skip task sn serverId).Owns .gone c) : b.Owns .gone c ∨ c = b.created := by
  rcases h with h | h
  · rw [Bench.skip] at h
    dsimp only at h
    split at h
    · rcases List.mem_cons.mp h with rfl | h
      · exact .inr rfl
      · exact .inl (.inl h)
    · exact .inl (.inl h)
  · exact .inl (.inr h)

/-- A rebuild closes what it had to close. -/
theorem owns_close {k client : Nat} {old : List Nat}
    (hk : b.stage (some k) = .closing (client :: old))
    (h : ({ b with retired := client :: b.retired }.setStage (some k) (.closing old)).Owns
      .gone c) :
    b.Owns .gone c := by
  rcases owns_setStage h with ⟨(h | h), -⟩ | ⟨-, old', e, hc⟩ | ⟨e, -⟩
  · rcases List.mem_cons.mp h with rfl | h
    · exact .inr ⟨k, _, hk, List.mem_cons_self⟩
    · exact .inl h
  · exact .inr h
  · cases e
    exact .inr ⟨k, _, hk, List.mem_cons_of_mem _ hc⟩
  · cases e

/-- `_build_adapters` owns the clients it has made. -/
theorem Sound.owns (hb : Sound b) {task : Task} {sn : Snapshot} {w : Build}
    (h : b.stage task = .building sn w) {i : Int} {a : Adapter}
    (ha : (b.made task).lookup i = some a) : b.Owns (.task task) a.client :=
  ⟨sn, w, h, List.mem_map.mpr ⟨_, ((hb.built h).own i a ha).2, rfl⟩⟩

theorem Separate.next (hb : Separate b) (h : Step b k b') : Separate b' := by
  have hsound := hb.sound.next h
  cases h with
  | idle => exact hb
  | read h | aclose => exact hb.keep hsound .gone le_rfl rfl fun o c h => .inl h
  | publish h hd hread =>
      refine hb.keep hsound .gone le_rfl rfl fun o c ho => ?_
      rcases owns_setStage ho with ⟨ho, -⟩ | ⟨-, old, e, -⟩ | ⟨-, sn, w, e, hc⟩
      · exact .inl ho
      · cases e
      · cases e
        cases hc
  | load h hd hread =>
      refine hb.keep hsound .gone le_rfl rfl fun o c ho => ?_
      rcases owns_setStage ho with ⟨ho, -⟩ | ⟨-, old, e, -⟩ | ⟨-, sn, w, e, hc⟩
      · exact .inl ho
      · cases e
      · cases e
        cases hc
  | @make task sn w serverId todo server h hw hserver =>
      refine hb.keep hsound (.task task) (Nat.le_succ _) rfl fun o c ho => ?_
      rcases owns_setStage ho with ⟨ho, -⟩ | ⟨-, old, e, -⟩ | ⟨rfl, sn', w', e, hc⟩
      · exact .inl ho
      · cases e
      · cases e
        rw [Build.next, if_pos rfl, List.map_append, List.mem_append] at hc
        rcases hc with hc | hc
        · exact .inl ⟨sn, w, h, hc⟩
        · exact .inr ⟨List.mem_singleton.mp hc, rfl, Nat.lt_succ_self _⟩
  | @skip task sn w serverId todo h hw =>
      refine hb.keep hsound .gone (Nat.le_succ _) rfl fun o c ho => ?_
      rcases owns_setStage ho with ⟨ho, -⟩ | ⟨-, old, e, -⟩ | ⟨rfl, sn', w', e, hc⟩
      · cases o with
        | gone => exact (owns_skip ho).imp_right fun e => ⟨e, rfl, Nat.lt_succ_self _⟩
        | installed | task t => exact .inl ho
      · cases e
      · cases e
        exact .inl ⟨sn, w, h, hc⟩
  | @wire sn w h hw hd =>
      -- what `start` has built is installed
      refine hb.transfer hsound (fun o => if o = .task none then .installed else o) .gone le_rfl
        (fun o c ho => .inl ?_) fun i a ha => ?_
      · rcases owns_setStage ho with ⟨ho, hne⟩ | ⟨-, old, e, -⟩ | ⟨-, sn', w', e, -⟩
        · cases o with
          | installed => exact ⟨.task none, ⟨sn, w, h, ho⟩, if_pos rfl⟩
          | gone => exact ⟨.gone, ho, if_neg (by simp)⟩
          | task t => exact ⟨.task t, ho, if_neg hne⟩
        · cases e
        · cases e
      · have hown := hb.sound.owns h ha
        refine ⟨hb.lt _ _ hown, fun hgone => ?_⟩
        rcases owns_setStage hgone with ⟨hgone, -⟩ | ⟨-, old, e, -⟩ | ⟨e, -⟩
        · cases hb.unique _ .gone _ hown hgone
        · cases e
        · cases e
  | @swap k sn w h hw hd =>
      -- what the rebuild has built is installed, and it will close what was installed
      refine hb.transfer hsound
        (fun o => if o = .task (some k) then .installed else if o = .installed then .gone else o)
        .gone le_rfl (fun o c ho => .inl ?_) fun i a ha => ?_
      · rcases owns_setStage ho with ⟨ho, hne⟩ | ⟨rfl, old, e, hc⟩ | ⟨-, sn', w', e, -⟩
        · cases o with
          | installed => exact ⟨.task (some k), ⟨sn, w, h, ho⟩, if_pos rfl⟩
          | gone => exact ⟨.gone, ho, rfl⟩
          | task t => exact ⟨.task t, ho, (if_neg hne).trans (if_neg (by simp))⟩
        · cases e
          exact ⟨.installed, hc, rfl⟩
        · cases e
      · have hown := hb.sound.owns h ha
        refine ⟨hb.lt _ _ hown, fun hgone => ?_⟩
        rcases owns_setStage hgone with ⟨hgone, -⟩ | ⟨-, old, e, hc⟩ | ⟨e, -⟩
        · cases hb.unique _ .gone _ hown hgone
        · cases e
          cases hb.unique _ .installed _ hown hc
        · cases e
  | @close k client old h =>
      refine hb.keep hsound .gone le_rfl rfl fun o c ho => .inl ?_
      cases o with
      | gone => exact owns_close h ho
      | installed => exact ho
      | task t =>
          rcases owns_setStage ho with ⟨ho, -⟩ | ⟨e, -⟩ | ⟨-, sn, w, e, -⟩
          · exact ho
          · cases e
          · cases e
  | leave h =>
      refine hb.keep hsound .gone le_rfl rfl fun o c ho => .inl ?_
      rcases owns_setStage ho with ⟨ho, -⟩ | ⟨-, old, e, -⟩ | ⟨-, sn, w, e, hc⟩
      · exact ho
      · cases e
      · cases e
  | release h =>
      refine hb.keep hsound .gone le_rfl rfl fun o c ho => .inl ?_
      cases o with
      | installed => cases ho
      | gone | task t => exact ho

/-- A rebuild closes what was closed, or to be closed, already, and at its swap what is
installed. -/
theorem gone_next (h : Step b k b') (hc : c < b.created) (hgone : b'.Owns .gone c) :
    b.Owns .gone c ∨ k ≠ none ∧ b.Owns .installed c := by
  cases h with
  | idle | read h | aclose | release h => exact .inl hgone
  | publish h hd hread | load h hd hread | make h hw hserver | wire h hw hd | leave h =>
      rcases owns_setStage hgone with ⟨hgone, -⟩ | ⟨-, old, e, -⟩ | ⟨e, -⟩
      · exact .inl hgone
      · cases e
      · cases e
  | skip h hw =>
      rcases owns_setStage hgone with ⟨hgone, -⟩ | ⟨-, old, e, -⟩ | ⟨e, -⟩
      · exact .inl ((owns_skip hgone).resolve_right hc.ne)
      · cases e
      · cases e
  | swap h hw hd =>
      rcases owns_setStage hgone with ⟨hgone, -⟩ | ⟨-, old, e, hc⟩ | ⟨e, -⟩
      · exact .inl hgone
      · cases e
        exact .inr ⟨nofun, hc⟩
      · cases e
  | close h => exact .inl (owns_close h hgone)

theorem created_next (h : Step b k b') : b.created ≤ b'.created := by
  cases h with
  | make | skip => exact Nat.le_succ _
  | _ => exact le_rfl

end Bench

namespace Service

variable {lower : Str → Str} {box : SecretBox} {s s' : Service} {act : Act}

/-! ### Triggers in progress -/

/-- No trigger in progress uses a client that a swap is about to replace. -/
def Grounded (s : Service) (act : Act) : Prop :=
  ∀ _k ∈ s.swapOf act, ∀ x ∈ s.deliveries, s.InFlight x →
    x.2.client ∉ s.engine.clients.map Prod.snd

instance (s : Service) (act : Act) : Decidable (Grounded s act) :=
  inferInstanceAs (Decidable (∀ _k ∈ s.swapOf act, ∀ x ∈ s.deliveries, s.InFlight x → _))

structure Airborne (s : Service) : Prop where
  early : s.engine.debouncer = none → s.deliveries = []
  good : ∀ d ∈ s.engine.debouncer, d.Good
  started : ∀ d ∈ s.engine.debouncer, ∀ x ∈ s.deliveries, x.1 ∈ d.dispatches.map Prod.fst
  safe : ∀ x ∈ s.deliveries, s.InFlight x →
    x.2.client < s.engine.created ∧ ¬ s.bench.Owns .gone x.2.client
  broken : s.broken = []

/-- What a step does to the debouncer, and the triggers it starts. -/
theorem Delivers.debouncer {p : Post} (hw : Engine.Wired s.engine) (h : Delivers lower s act p) :
    (p.debouncer = s.engine.debouncer ∧ p.deliveries = s.deliveries) ∨
    (s.engine.debouncer = none ∧ (∃ servers, p.debouncer = some (.init servers)) ∧
      p.deliveries = s.deliveries) ∨
    ∃ d act' new, s.engine.debouncer = some d ∧ Debouncer.machine.enabled d act' ∧
      p.debouncer = some (Debouncer.machine.next d act') ∧ p.deliveries = s.deliveries ++ new ∧
      ∀ x ∈ new, s.swapOf act = none ∧ (∃ i, s.adapters.lookup i = some x.2) ∧
        ∃ time, (x.1, time) ∈ d.started (Debouncer.machine.next d act') := by
  have hnew : ∀ {d d' : Debouncer}, s.swapOf act = none → ∀ x ∈ s.triggered d d',
      s.swapOf act = none ∧ (∃ i, s.adapters.lookup i = some x.2) ∧
        ∃ time, (x.1, time) ∈ d.started d' := fun hno x hx => by
    obtain ⟨time, job, he, -, ha⟩ := of_triggered hx
    exact ⟨hno, ⟨_, ha⟩, time, he⟩
  cases h with
  | same | publish | yield => exact .inl ⟨rfl, rfl⟩
  | wire hn servers => exact .inr (.inl ⟨(hw.early.nothing hn).2.1, ⟨servers, rfl⟩, rfl⟩)
  | @swap k d hk hd servers =>
      exact .inr (.inr ⟨d, .updateServers servers, [], hd, trivial, rfl, (List.append_nil _).symm,
        fun x hx => by cases hx⟩)
  | @submit d req todo hno hd htodo =>
      exact .inr (.inr ⟨d, .submit req, _, hd, trivial, rfl, rfl, hnew hno⟩)
  | @loop d act' hno hd hact hen => exact .inr (.inr ⟨d, act', _, hd, hen, rfl, rfl, hnew hno⟩)
  | @aclose d hd =>
      exact .inr (.inr ⟨d, .aclose, [], hd, trivial, rfl, (List.append_nil _).symm,
        fun x hx => by cases hx⟩)

/-- A trigger in progress was so before the step, or the step starts it. -/
theorem Airborne.inFlight {d : Debouncer} {act' : Debouncer.Act} {x : Nat × Adapter}
    (ha : s.Airborne) (hd : s.engine.debouncer = some d) (hen : Debouncer.machine.enabled d act')
    (hx : x ∈ s.deliveries)
    (hf : (Debouncer.machine.next d act').At x.1 fun job => job.phase = .dispatching) :
    s.InFlight x := by
  obtain ⟨job, hj, hp⟩ := hf
  have hgood := ha.good d hd
  have hstarted := ha.started d hd x hx
  rcases (Debouncer.outcome hen).of_dispatching hj hp with hat | ⟨e, he, hex⟩
  · exact ⟨d, hd, hat⟩
  · -- what has been started is not started again
    rcases (Debouncer.outcome hen).of_started he with ⟨hpending, -⟩ | ⟨hlen, -⟩
    · exact absurd (hex ▸ hstarted) (hgood.not_mem hpending)
    · exact absurd (hgood.lt hstarted) (by omega)

theorem Airborne.next (hw : Engine.Wired s.engine) (hb : s.bench.Separate) (ha : s.Airborne)
    (h : Delivers lower s act s'.post) (hstep : Bench.Step s.bench (s.swapOf act) s'.bench)
    (hcreated : s.engine.created ≤ s'.engine.created) (hbroken : s'.broken = [])
    (hG : s.Grounded act) : s'.Airborne := by
  -- what is not closed, and not about to be replaced by a swap, stays so
  have hsafe : ∀ c, c < s.engine.created → ¬ s.bench.Owns .gone c →
      (∀ k ∈ s.swapOf act, c ∉ s.engine.clients.map Prod.snd) →
      c < s'.engine.created ∧ ¬ s'.bench.Owns .gone c := fun c hlt hgone hswap =>
    ⟨hlt.trans_le hcreated, fun h => by
      rcases Bench.gone_next hstep hlt h with h | ⟨hne, hc⟩
      · exact hgone h
      · obtain ⟨k, hk⟩ := Option.ne_none_iff_exists'.mp hne
        exact hswap k hk hc⟩
  have hold : ∀ x ∈ s.deliveries, s.InFlight x →
      x.2.client < s'.engine.created ∧ ¬ s'.bench.Owns .gone x.2.client := fun x hx hf =>
    hsafe _ (ha.safe x hx hf).1 (ha.safe x hx hf).2 fun k hk => hG k hk x hx hf
  rcases Delivers.debouncer hw h with ⟨hd, hdel⟩ | ⟨hnone, ⟨servers, hd⟩, hdel⟩ |
      ⟨d, act', new, hd₀, hen, hd, hdel, hnew⟩ <;>
    replace hd : s'.engine.debouncer = _ := hd <;> replace hdel : s'.deliveries = _ := hdel
  · refine ⟨?_, ?_, ?_, fun x hx hf => hold x (hdel ▸ hx) ?_, hbroken⟩
    · rw [hd, hdel]
      exact ha.early
    · rw [hd]
      exact ha.good
    · rw [hd, hdel]
      exact ha.started
    · rwa [InFlight, hd] at hf
  · have hempty : s'.deliveries = [] := hdel.trans (ha.early hnone)
    refine ⟨fun _ => hempty, fun d hd' => ?_, ?_, ?_, hbroken⟩
    · rw [hd] at hd'
      cases hd'
      exact Debouncer.good_init servers
    · rw [hempty]
      intro d hd x hx
      cases hx
    · rw [hempty]
      intro x hx
      cases hx
  · have hgood := ha.good d hd₀
    refine ⟨fun e => ?_, ?_, ?_, ?_, hbroken⟩
    · rw [hd] at e
      cases e
    · rw [hd]
      rintro _ ⟨⟩
      exact hgood.next hen
    · rw [hd, hdel]
      rintro _ ⟨⟩ x hx
      rcases List.mem_append.mp hx with hx | hx
      · exact (List.IsPrefix.map _ (Debouncer.dispatches_next hen)).subset (ha.started d hd₀ x hx)
      · obtain ⟨-, -, time, ht⟩ := hnew x hx
        exact List.mem_map.mpr ⟨_, List.mem_of_mem_drop ht, rfl⟩
    · rw [hdel]
      intro x hx hf
      rcases List.mem_append.mp hx with hx | hx
      · obtain ⟨d', hd', hat⟩ := hf
        rw [hd] at hd'
        cases hd'
        exact hold x hx (ha.inFlight hd₀ hen hx hat)
      · obtain ⟨hno, ⟨i, hi⟩, -⟩ := hnew x hx
        have hfree := hb.adapters i x.2 hi
        refine hsafe _ hfree.1 hfree.2 fun k hk => ?_
        rw [hno] at hk
        cases hk

@[simp] theorem broken_build (s : Service) (task : Task) (sn : Snapshot) (b : Build) (ok : Bool) :
    (s.build task sn b ok).broken = s.broken := by
  unfold build
  repeat' split
  all_goals rfl

@[simp] theorem broken_after (s : Service) (act : Engine.Act) (e : Engine) :
    (s.after act e).broken = s.broken := by
  unfold after
  repeat' split
  all_goals first | rfl | exact broken_build _ _ _ _ _

/-- Only a request on a closed client is recorded. -/
theorem broken_next (ha : s.Airborne) (h : Step lower box s act s') : s'.broken = [] := by
  cases h with
  | @attempt n delivery h hf =>
      have hopen := (ha.safe delivery (List.mem_of_getElem? h) hf).2
      exact (if_neg fun h => hopen (.inl h)).trans ha.broken
  | @engine act hadm hen => exact (broken_after s act _).trans ha.broken
  | _ => exact ha.broken

/-! ### A swap under a trigger in progress -/

/-- What is left to a rebuild to close is closed by the steps it has to go, under any trigger. -/
theorem ends_retired {k c : Nat} {old : List Nat}
    (hk : s.engine.rebuilds[k]? = some (.closing old)) (hc : c ∈ old) :
    ∃ n s', Lts.Run (system lower box) Lts.free s
        (List.replicate n (.engine (.rebuildClose k))) s' ∧
      s'.engine.debouncer = s.engine.debouncer ∧ s'.deliveries = s.deliveries ∧
      c ∈ s'.retired := by
  induction old generalizing s with
  | nil => cases hc
  | cons client old ih =>
      obtain ⟨hclose, hengine⟩ := @Engine.rebuildClose_enabled lower s.engine k client old hk
      obtain ⟨hen, hnext⟩ := @engine_enabled lower box s (.rebuildClose k) trivial hclose
      rw [hengine] at hnext
      simp only [after, hk] at hnext
      rcases List.mem_cons.mp hc with rfl | hc
      · refine ⟨1, _, .one hen trivial, ?_⟩
        rw [hnext]
        exact ⟨rfl, rfl, List.mem_cons_self⟩
      · have hk' : ((system lower box).next s (.engine (.rebuildClose k))).engine.rebuilds[k]? =
            some (.closing old) := by
          rw [hnext]
          exact List.getElem?_set_self (List.getElem?_eq_some_iff.mp hk).1
        obtain ⟨n, s', hrun, hd, hdel, hretired⟩ := ih hk' hc
        rw [hnext] at hd hdel
        exact ⟨n + 1, s', .cons hen trivial hrun, hd, hdel, hretired⟩

/-- `Grounded` is exact: after a swap against it the rebuild has only to go on, and a client is
closed under a trigger in progress. -/
theorem retired_of_not_grounded (hen : (system lower box).enabled s act)
    (hG : ¬ s.Grounded act) :
    ∃ k n s', Lts.Run (system lower box) Lts.free s
        (act :: List.replicate n (.engine (.rebuildClose k))) s' ∧
      ∃ x ∈ s'.deliveries, s'.InFlight x ∧ x.2.client ∈ s'.retired := by
  simp only [Grounded, not_forall, not_not] at hG
  obtain ⟨k, hk, x, hx, ⟨d, hd, hat⟩, hc⟩ := hG
  obtain ⟨sn, clients, -, hclosing, hpost⟩ := swap_cases (step_cases hen) hk hd
  obtain ⟨n, s', hrun, hd', hdel, hretired⟩ := @ends_retired lower box _ _ _ _ hclosing hc
  have hold : ((system lower box).next s act).deliveries = s.deliveries :=
    congrArg Post.deliveries hpost
  refine ⟨k, n, s', .cons hen trivial hrun, x, hdel ▸ hold ▸ hx,
    ⟨_, hd'.trans (congrArg Post.debouncer hpost), ?_⟩, hretired⟩
  exact (Debouncer.drops_updateServers d sn.config.servers).dispatching hat

/-! ### Every run -/

section Run
variable {store : Store} {watcher : Option Watching} {l : List Act}

theorem airborne_init (store : Store) (watcher : Option Watching) :
    (init store watcher).Airborne where
  early _ := rfl
  good d h := by cases h
  started d h := by cases h
  safe x h := by cases h
  broken := rfl

theorem airborne_run (h : Lts.Run (system lower box) Grounded (init store watcher) l s) :
    s.Airborne :=
  (service_invariant h Bench.separate_init (fun _ _ _ hb h => hb.next h)
    (airborne_init store watcher) fun _ _ _ hw hb ha hstep hbench hG =>
      ha.next hw hb (delivers_next hw hstep) hbench (Bench.created_next hbench)
        (broken_next ha hstep) hG).2

/-- **No client is closed by a rebuild under a trigger in progress**, and no request is made on a
closed one, in the runs that meet `Grounded`. -/
theorem clients_open (h : Lts.Run (system lower box) Grounded (init store watcher) l s) :
    (∀ x ∈ s.deliveries, s.InFlight x → x.2.client ∉ s.retired) ∧ s.broken = [] :=
  ⟨fun x hx hf hc => ((airborne_run h).safe x hx hf).2 (.inl hc), (airborne_run h).broken⟩

/-- The trigger comes to its end before the next rebuild swaps. -/
def settled : List Act :=
  launching ++ arming ++ firing ++ [.attempt 0, .engine (.loop (.finish 0)), .engine .rebuild] ++
    swapping 0 oneServer ++ [.engine (.rebuildClose 0), .engine (.rebuildClose 0)]

theorem clients_open_settled :
    ∃ s : Service, s.deliveries.length = 1 ∧ s.retired = [0] ∧
      (∀ x ∈ s.deliveries, s.InFlight x → x.2.client ∉ s.retired) ∧ s.broken = [] :=
  ⟨settled.foldl (system asciiLower markBox).next (init oneServer none), by decide +kernel,
    by decide +kernel, clients_open (Lts.run_of_exec (by decide +kernel))⟩

/-- The trigger waits before it tries again, while a rebuild swaps and closes the old client. -/
def retrying : List Act :=
  launching ++ arming ++ firing ++ [.attempt 0, .engine .rebuild] ++ swapping 0 oneServer ++
    [.engine (.rebuildClose 0), .engine (.rebuildClose 0), .attempt 0]

/-- The second request of the delivery is made on a client that a rebuild has closed. -/
theorem retry_on_closed_client :
    ∃ s : Service, Lts.Run (system asciiLower markBox) Lts.free (init oneServer none) retrying s ∧
      s.retired = [0] ∧ s.broken = [0] ∧
      ¬ ((∀ x ∈ s.deliveries, s.InFlight x → x.2.client ∉ s.retired) ∧ s.broken = []) :=
  ⟨_, Lts.run_of_exec (by decide +kernel), by decide +kernel, by decide +kernel,
    by decide +kernel⟩

end Run

end Service

end MediaScanMonitor
