import MediaScanMonitor.Engine.Lock
import MediaScanMonitor.Engine.Service

/-!
# Engine — config writes converge

Every write commits and then calls `rebuild_engine`, and a rebuild reads the configuration in
several reads under the lock.  A rebuild may read a mixture of two states of the database; but
then the write that changed it in between has its own rebuild still to come.

* `Converging`: the invariant.  Some rebuild has still to begin its reads (`Due`), or what has
  been read is current (`Fresh`) and installed or about to be.
* `writes_converge`: when all calls have returned, the installed configuration is the one of the
  database.
-/

namespace MediaScanMonitor
open Py

/-- The rebuild has the lock, and its swap still to make. -/
def RebuildPhase.Swaps : RebuildPhase → Prop
  | .reading | .building _ _ | .policy _ _ | .limit _ _ _ => True
  | .waiting | .closing _ | .finished => False

namespace Service

variable {lower : Str → Str} {box : SecretBox} {s s' : Service} {act : Act}

/-! ### What the steps around the engine leave alone -/

section After
variable (s) (task : Task) (act : Engine.Act) (e : Engine)

@[simp] theorem store_build (sn : Snapshot) (b : Build) (ok : Bool) :
    (s.build task sn b ok).store = s.store := by
  unfold build
  repeat' split
  all_goals rfl

@[simp] theorem calls_build (sn : Snapshot) (b : Build) (ok : Bool) :
    (s.build task sn b ok).calls = s.calls := by
  unfold build
  repeat' split
  all_goals rfl

@[simp] theorem reading_build (sn : Snapshot) (b : Build) (ok : Bool) (t : Task) :
    ((s.build task sn b ok).locals t).reading = (s.locals t).reading := by
  unfold build
  repeat' split
  all_goals try rfl
  simp only [setLocals, Function.update_apply]
  split
  · rename_i h
    rw [h]
  · rfl

@[simp] theorem store_after : (s.after act e).store = s.store := by
  unfold after
  repeat' split
  all_goals first | rfl | exact store_build _ _ _ _ _

@[simp] theorem calls_after : (s.after act e).calls = s.calls := by
  unfold after
  repeat' split
  all_goals first | rfl | exact calls_build _ _ _ _ _

@[simp] theorem reading_after (t : Task) :
    ((s.after act e).locals t).reading = (s.locals t).reading := by
  unfold after
  repeat' split
  all_goals first | rfl | exact reading_build _ _ _ _ _ _

end After

/-! ### What the tasks have read -/

theorem update_reading (s : Service) (task t : Task) (r : Reading) :
    ((s.setReading task r).locals t).reading =
      if t = task then some r else (s.locals t).reading := by
  simp only [setReading, setLocals, Function.update_apply]
  split <;> rfl

/-- A rebuild that does not have the lock yet has read nothing. -/
def Unread (s : Service) : Prop :=
  ∀ k, s.engine.rebuilds[k]? = none ∨ s.engine.rebuilds[k]? = some .waiting →
    (s.locals (some k)).reading = none

theorem Unread.engine (hs : s.Unread) {act : Engine.Act} {e : Engine}
    (h : Engine.Step lower s.engine act e) (hengine : s'.engine = e)
    (hreading : ∀ t, (s'.locals t).reading = (s.locals t).reading) : s'.Unread := by
  intro k hk
  rw [hreading]
  rw [hengine] at hk
  rcases Engine.rebuilds_cases h with e | e | ⟨j, p, p', hj, e, hp', -⟩
  · rw [e] at hk
    exact hs k hk
  · rw [e, List.getElem?_append] at hk
    split at hk
    · exact hs k hk
    · exact hs k (.inl (List.getElem?_eq_none (by omega)))
  · rw [e] at hk
    by_cases hjk : j = k
    · rw [← hjk, List.getElem?_set_self (List.getElem?_eq_some_iff.mp hj).1] at hk
      rcases hk with hk | hk
      · cases hk
      · exact absurd (Option.some.inj hk) hp'
    · rw [List.getElem?_set_ne hjk] at hk
      exact hs k hk

theorem Unread.read (hs : s.Unread) {task : Task} (h : s.reads task = true) (r : Reading) :
    (s.setReading task r).Unread := by
  intro k hk
  replace hk : s.engine.rebuilds[k]? = none ∨ s.engine.rebuilds[k]? = some .waiting := hk
  have hne : some k ≠ task := fun e => by
    rw [← e] at h
    rw [of_decide_eq_true h] at hk
    rcases hk with hk | hk <;> cases hk
  rw [update_reading, if_neg hne]
  exact hs k hk

theorem Unread.next (hs : s.Unread) (h : Step lower box s act s') : s'.Unread := by
  cases h with
  | commit h => exact hs
  | call hc hen => exact hs.engine (Engine.step_cases hen) rfl fun _ => rfl
  | listServers h hr => exact hs.read h _
  | listFolders h hr hn => exact hs.read h _
  | attempt h hf => exact hs
  | @engine act hadm hen =>
      exact hs.engine (Engine.step_cases hen) (engine_after ..) (reading_after s act _)

/-! ### The invariant -/

section Invariant
variable (lower : Str → Str) (box : SecretBox)

/-- The installed configuration is the one of the database. -/
def Current (s : Service) : Prop :=
  ∃ sn, s.engine.config = some sn ∧ buildRuntimeConfig lower box s.store = some sn.config

/-- A rebuild has still to begin its reads. -/
def Due (s : Service) : Prop :=
  s.calls ≠ 0 ∨ ∃ k, s.engine.rebuilds[k]? = some .waiting ∨
    s.engine.rebuilds[k]? = some .reading ∧ (s.locals (some k)).reading = none

/-- What the rebuild has read is what the database holds. -/
def Fresh (s : Service) (k : Nat) : Prop :=
  match s.engine.rebuilds[k]? with
  | some .reading => ∀ r ∈ (s.locals (some k)).reading, r.Current lower box s.store
  | some (.building sn _) | some (.policy sn _) | some (.limit sn _ _) =>
    buildRuntimeConfig lower box s.store = some sn.config
  | none | some .waiting | some (.closing _) | some .finished => True

structure Converging (s : Service) : Prop where
  wired : Engine.Wired s.engine
  exclusive : Engine.Exclusive s.engine
  looping : s.engine.start = .looping
  unread : s.Unread
  due : s.Due ∨ (∀ k, s.Fresh lower box k) ∧
    (s.Current lower box ∨
      ∃ (k : Nat) (p : RebuildPhase), s.engine.rebuilds[k]? = some p ∧ p.Swaps)

end Invariant

/-- What does not touch the rebuilds, the configuration or the database. -/
theorem Converging.same (hs : Converging lower box s) (hwired : Engine.Wired s'.engine)
    (hexclusive : Engine.Exclusive s'.engine) (hloop : s'.engine.start = .looping)
    (hunread : s'.Unread) (hstore : s'.store = s.store) (hcalls : s'.calls = s.calls)
    (hreading : ∀ t, (s'.locals t).reading = (s.locals t).reading)
    (hrebuilds : s'.engine.rebuilds = s.engine.rebuilds)
    (hconfig : s'.engine.config = s.engine.config) : Converging lower box s' where
  wired := hwired
  exclusive := hexclusive
  looping := hloop
  unread := hunread
  due := by
    refine hs.due.imp (fun h => ?_) fun ⟨hfresh, h⟩ => ⟨fun k => ?_, ?_⟩
    · rw [Due] at h ⊢
      simpa only [hcalls, hrebuilds, hreading] using h
    · have := hfresh k
      rw [Fresh] at this ⊢
      rwa [hrebuilds, hreading, hstore]
    · rw [hrebuilds]
      refine h.imp_left fun h => ?_
      rw [Current] at h ⊢
      rwa [hconfig, hstore]

/-- One rebuild goes on. -/
theorem Converging.move (hs : Converging lower box s) {k : Nat} {p p' : RebuildPhase}
    (hwired : Engine.Wired s'.engine) (hexclusive : Engine.Exclusive s'.engine)
    (hloop : s'.engine.start = .looping) (hunread : s'.Unread)
    (hstore : s'.store = s.store) (hcalls : s'.calls = s.calls)
    (hreading : ∀ t, (s'.locals t).reading = (s.locals t).reading)
    (hk : s.engine.rebuilds[k]? = some p)
    (hset : s'.engine.rebuilds = s.engine.rebuilds.set k p') (hp : p ≠ .waiting)
    (hread : p = .reading → (s.locals (some k)).reading ≠ none)
    (hfresh : s.Fresh lower box k → s'.Fresh lower box k)
    (hcurrent : s.Fresh lower box k → s'.Current lower box ∨ p'.Swaps ∨
      ¬ p.Swaps ∧ s'.engine.config = s.engine.config) : Converging lower box s' where
  wired := hwired
  exclusive := hexclusive
  looping := hloop
  unread := hunread
  due := by
    have hlt := (List.getElem?_eq_some_iff.mp hk).1
    have hother : ∀ {j : Nat}, k ≠ j → s'.engine.rebuilds[j]? = s.engine.rebuilds[j]? :=
      fun {j} e => by rw [hset, List.getElem?_set_ne e]
    refine hs.due.imp (fun h => ?_) fun ⟨hfreshes, h⟩ => ⟨fun j => ?_, ?_⟩
    · rcases h with h | ⟨j, h⟩
      · exact .inl (hcalls ▸ h)
      · -- the rebuild that is due is another one
        have hne : k ≠ j := by
          rintro rfl
          rw [hk] at h
          rcases h with h | ⟨h, hr⟩
          · exact hp (Option.some.inj h)
          · exact hread (Option.some.inj h) hr
        refine .inr ⟨j, ?_⟩
        rwa [hother hne, hreading]
    · by_cases e : k = j
      · subst e
        exact hfresh (hfreshes k)
      · have := hfreshes j
        rw [Fresh] at this ⊢
        rwa [hother e, hreading, hstore]
    · rcases hcurrent (hfreshes k) with hc | hswaps | ⟨hswaps, hconfig⟩
      · exact .inl hc
      · exact .inr ⟨k, p', by rw [hset, List.getElem?_set_self hlt], hswaps⟩
      · refine h.imp (fun h => ?_) fun ⟨j, q, hj, hq⟩ => ⟨j, q, ?_, hq⟩
        · rw [Current] at h ⊢
          rwa [hconfig, hstore]
        · rwa [hother]
          rintro rfl
          rw [hk] at hj
          cases hj
          exact hswaps hq

/-- One more rebuild waits for the lock. -/
theorem Converging.append (hwired : Engine.Wired s'.engine)
    (hexclusive : Engine.Exclusive s'.engine) (hloop : s'.engine.start = .looping)
    (hunread : s'.Unread) (hrebuilds : s'.engine.rebuilds = s.engine.rebuilds ++ [.waiting]) :
    Converging lower box s' :=
  ⟨hwired, hexclusive, hloop, hunread,
    .inl (.inr ⟨s.engine.rebuilds.length, .inl (by simp [hrebuilds])⟩)⟩

/-- A swap installs what the rebuild has read. -/
theorem Fresh.current {k : Nat} {p : RebuildPhase} {sn : Snapshot} {e : Engine}
    (h : s.Fresh lower box k) (hk : s.engine.rebuilds[k]? = some p)
    (hp : (∃ b, p = .building sn b) ∨ (∃ clients policy, p = .limit sn clients policy))
    (hconfig : e.config = some sn) (act : Engine.Act) :
    (s.after act e).Current lower box := by
  refine ⟨sn, by rw [engine_after, hconfig], ?_⟩
  rw [Fresh, hk] at h
  rw [store_after]
  rcases hp with ⟨b, rfl⟩ | ⟨clients, policy, rfl⟩
  · exact h
  · exact h

/-! ### Every step -/

/-- No rebuild raises. -/
def Calm (_ : Service) : Act → Prop
  | .engine (.rebuildRead _ none) | .engine (.rebuildPolicy _ none)
  | .engine (.rebuildLimit _ none) => False
  | _ => True

instance (s : Service) : ∀ act, Decidable (Calm s act)
  | .engine (.rebuildRead _ none) | .engine (.rebuildPolicy _ none)
  | .engine (.rebuildLimit _ none) => .isFalse id
  | .engine (.rebuildRead _ (some _)) | .engine (.rebuildPolicy _ (some _))
  | .engine (.rebuildLimit _ (some _)) | .engine (.start _) | .engine (.startRead _)
  | .engine (.startBuild _) | .engine .startBuilt | .engine (.startPolicy _)
  | .engine (.startLimit _) | .engine .rebuild | .engine (.acquire _)
  | .engine (.rebuildBuild _ _) | .engine (.rebuildBuilt _) | .engine (.rebuildClose _)
  | .engine (.read _) | .engine .yield | .engine .submit | .engine (.loop _) | .engine .aclose
  | .engine .closeTimers | .engine .closeClient | .commit _ | .call | .listServers _
  | .listFolders _ | .attempt _ => .isTrue trivial

theorem Converging.engine (hs : Converging lower box s) {act : Engine.Act}
    (hadm : s.Admits act) (hen : (Engine.system lower).enabled s.engine act)
    (hG : Calm s (.engine act)) :
    Converging lower box (s.after act ((Engine.system lower).next s.engine act)) := by
  have hstep := Engine.step_cases hen
  have hexclusive := hs.exclusive.next hen
  generalize (Engine.system lower).next s.engine act = e at *
  have hunread := hs.unread.engine hstep (engine_after s act e) (reading_after s act e)
  have hwired := hs.wired.next hstep
  have hloop := Engine.looping_next hs.wired hs.looping hstep
  rw [← engine_after s act e] at hwired hexclusive hloop
  have hsame : e.rebuilds = s.engine.rebuilds → e.config = s.engine.config →
      Converging lower box (s.after act e) := fun hrebuilds hconfig => by
    rw [← engine_after s act e] at hrebuilds hconfig
    exact hs.same hwired hexclusive hloop hunread (store_after ..) (calls_after ..)
      (reading_after s act e) hrebuilds hconfig
  have hmove : ∀ {k : Nat} {p p' : RebuildPhase}, s.engine.rebuilds[k]? = some p →
      e.rebuilds = s.engine.rebuilds.set k p' → p ≠ .waiting →
      (p = .reading → (s.locals (some k)).reading ≠ none) →
      (s.Fresh lower box k → (s.after act e).Fresh lower box k) →
      (s.Fresh lower box k → (s.after act e).Current lower box ∨ p'.Swaps ∨
        ¬ p.Swaps ∧ e.config = s.engine.config) →
      Converging lower box (s.after act e) := fun hk hset hp hread hfresh hcurrent => by
    rw [← engine_after s act e] at hset
    refine hs.move hwired hexclusive hloop hunread (store_after ..) (calls_after ..)
      (reading_after s act e) hk hset hp hread hfresh ?_
    rwa [engine_after]
  have hget : ∀ {k : Nat} {p p' : RebuildPhase}, s.engine.rebuilds[k]? = some p →
      e.rebuilds = s.engine.rebuilds.set k p' → (s.after act e).engine.rebuilds[k]? = some p' :=
    fun hk hset => by
      rw [engine_after, hset, List.getElem?_set_self (List.getElem?_eq_some_iff.mp hk).1]
  cases hstep with
  | startAgain | rebuildSkipped => exact hsame rfl rfl
  | start h | startRead h | startReadRaised h | startBuild h hb | startBuilt h hb | startPolicy h
  | startPolicyRaised h | startLimit h | startLimitRaised h =>
      have hloop := hs.looping
      first
        | rw [hs.wired.early.idle h] at hloop; cases hloop
        | rw [h] at hloop; cases hloop
  | rebuild hadapters hwatcher => exact Converging.append hwired hexclusive hloop hunread rfl
  | @acquire k h =>
      -- the rebuild has its reads to begin
      have hk : (s.engine.setRebuild k .reading).rebuilds[k]? = some .reading :=
        List.getElem?_set_self (List.getElem?_eq_some_iff.mp h).1
      exact ⟨hwired, hexclusive, hloop, hunread,
        .inl (.inr ⟨k, .inr ⟨hk, hs.unread k (.inr h)⟩⟩)⟩
  | @rebuildRead k config h =>
      obtain ⟨r, hr, htodo, rfl⟩ := hadm
      refine hmove h rfl (by simp) (fun _ e => ?_) (fun hf => ?_)
        fun _ => .inr (.inl trivial)
      · rw [e] at hr
        cases hr
      · rw [Fresh, hget h rfl, store_after]
        rw [Fresh, h] at hf
        exact (hf r hr).config_eq htodo
  | rebuildReadRaised h | rebuildPolicyRaised h | rebuildLimitRaised h => exact hG.elim
  | @rebuildBuild k ok sn b serverId todo h hb =>
      refine hmove h rfl (by simp) (by simp) (fun hf => ?_) fun _ => .inr (.inl trivial)
      rw [Fresh, hget h rfl, store_after]
      rwa [Fresh, h] at hf
  | @rebuildBuilt k sn b h hb =>
      by_cases hpaths : sn.config.watchPaths = []
      · simp only [Engine.rebuilt, if_pos hpaths] at *
        refine hmove h rfl (by simp) (by simp) (fun hf => ?_)
          fun hf => .inl (hf.current h (.inl ⟨b, rfl⟩) rfl _)
        rw [Fresh, hget h rfl]
        trivial
      · simp only [Engine.rebuilt, if_neg hpaths] at *
        refine hmove h rfl (by simp) (by simp) (fun hf => ?_)
          fun _ => .inr (.inl trivial)
        rw [Fresh, hget h rfl, store_after]
        rwa [Fresh, h] at hf
  | @rebuildPolicy k sn clients policy h =>
      refine hmove h rfl (by simp) (by simp) (fun hf => ?_) fun _ => .inr (.inl trivial)
      rw [Fresh, hget h rfl, store_after]
      rwa [Fresh, h] at hf
  | @rebuildLimit k sn clients policy limit h =>
      refine hmove h rfl (by simp) (by simp) (fun hf => ?_)
        fun hf => .inl (hf.current h (.inr ⟨clients, policy, rfl⟩) rfl _)
      rw [Fresh, hget h rfl]
      trivial
  | rebuildClose h | rebuildOver h =>
      refine hmove h rfl (by simp) (by simp) (fun _ => ?_)
        fun _ => .inr (.inr ⟨id, rfl⟩)
      rw [Fresh, hget h rfl]
      trivial
  | read h hturn | yield h hturn | submit h htodo | loop h hact hen | aclose h hd
  | acloseUnwired h hd | closeTimers h | closeClient h | returned h => exact hsame rfl rfl

/-- A rebuild that is reading is the only one whose reads matter. -/
theorem fresh_of_reading {k : Nat} (hexclusive : Engine.Exclusive s.engine)
    (hk : s.engine.rebuilds[k]? = some .reading) (hfresh : s.Fresh lower box k) (j : Nat) :
    s.Fresh lower box j := by
  by_cases e : j = k
  · rwa [e]
  rw [Fresh]
  cases hj : s.engine.rebuilds[j]? with
  | none => trivial
  | some p =>
      have hfree : p.holds = true → False := fun hp => e (hexclusive j k p .reading hj hk hp rfl)
      cases p with
      | waiting | finished | closing => trivial
      | reading | building | policy | limit => exact (hfree rfl).elim

/-- A rebuild reads a part of the configuration. -/
theorem Converging.read (hs : Converging lower box s) {k : Nat} {r : Reading}
    (hk : s.engine.rebuilds[k]? = some .reading)
    (hr : (s.locals (some k)).reading = none ∨ s.Fresh lower box k →
      r.Current lower box s.store) :
    Converging lower box (s.setReading (some k) r) where
  wired := hs.wired
  exclusive := hs.exclusive
  looping := hs.looping
  unread := hs.unread.read (show s.reads (some k) = true from decide_eq_true hk) r
  due := by
    by_cases hdue : (s.setReading (some k) r).Due
    · exact .inl hdue
    -- no other rebuild is due, so what was due was this read, or nothing
    have hcurrent : r.Current lower box s.store := by
      refine hr (hs.due.imp (fun h => ?_) fun h => h.1 k)
      rcases h with h | ⟨j, h | ⟨h, hnone⟩⟩
      · exact absurd (.inl h) hdue
      · exact absurd (.inr ⟨j, .inl h⟩) hdue
      · by_cases e : j = k
        · exact e ▸ hnone
        · refine absurd (.inr ⟨j, .inr ⟨h, ?_⟩⟩) hdue
          rw [update_reading, if_neg (by simpa using e)]
          exact hnone
    refine .inr ⟨fresh_of_reading hs.exclusive hk ?_, .inr ⟨k, .reading, hk, trivial⟩⟩
    rw [Fresh, show (s.setReading (some k) r).engine.rebuilds[k]? = some .reading from hk]
    intro r' hr'
    rw [update_reading, if_pos rfl] at hr'
    cases hr'
    exact hcurrent

theorem Converging.next (hs : Converging lower box s) (h : Step lower box s act s')
    (hG : Calm s act) : Converging lower box s' := by
  -- `start` is past its reads
  have hstart : s.reads none = false := by simp [reads, hs.looping]
  have hunread := hs.unread.next h
  cases h with
  | commit h =>
      exact ⟨hs.wired, hs.exclusive, hs.looping, hunread, .inl (.inl (Nat.succ_ne_zero _))⟩
  | call hc hen =>
      have hwired := hs.wired.next (Engine.step_cases hen)
      have hexclusive := hs.exclusive.next hen
      have hloop := Engine.looping_next hs.wired hs.looping (Engine.step_cases hen)
      have hw : s.engine.adapters ≠ none := by
        have := hs.wired.done
        rwa [Engine.Done, hs.looping] at this
      rw [hs.wired.next_rebuild hw] at hwired hexclusive hloop hunread ⊢
      exact Converging.append hwired hexclusive hloop hunread rfl
  | @listServers task h hr =>
      cases task with
      | none =>
          rw [hstart] at h
          cases h
      | some k => exact hs.read (of_decide_eq_true h) fun _ => Reading.current_start ..
  | @listFolders task r r' h hr hn =>
      cases task with
      | none =>
          rw [hstart] at h
          cases h
      | some k =>
          have hk := of_decide_eq_true h
          refine hs.read hk fun hf => ?_
          rcases hf with hf | hf
          · rw [hr] at hf
            cases hf
          · rw [Fresh, hk] at hf
            exact (hf r hr).next hn
  | attempt h hf =>
      exact hs.same hs.wired hs.exclusive hs.looping hs.unread rfl rfl (fun _ => rfl) rfl rfl
  | engine hadm hen => exact hs.engine hadm hen hG

/-! ### Every run -/

/-- All writes have returned, and so have all rebuilds. -/
def Returned (s : Service) : Prop :=
  s.calls = 0 ∧ ∀ p ∈ s.engine.rebuilds, p = .finished

instance (s : Service) : Decidable s.Returned :=
  inferInstanceAs (Decidable (_ ∧ _))

section Run
variable {store : Store} {watcher : Option Watching} {l l₁ l₂ : List Act} {s₁ s₂ : Service}

theorem wired_run (h : Lts.Run (system lower box) Lts.free (init store watcher) l s) :
    Engine.Wired s.engine :=
  engine_invariant h (Engine.wired_init watcher) fun _ _ hs hen => hs.next (Engine.step_cases hen)

theorem exclusive_run (h : Lts.Run (system lower box) Lts.free (init store watcher) l s) :
    Engine.Exclusive s.engine :=
  engine_invariant h (fun _ _ _ _ h => by cases h) fun _ _ hs hen => hs.next hen

theorem unread_run (h : Lts.Run (system lower box) Lts.free (init store watcher) l s) :
    s.Unread :=
  h.invariant (fun _ _ => rfl) fun _ _ hs hen _ => hs.next (step_cases hen)

theorem looping_run {G : Service → Act → Prop} (h : Lts.Run (system lower box) G s₁ l s₂)
    (hwired : Engine.Wired s₁.engine) (hloop : s₁.engine.start = .looping) :
    s₂.engine.start = .looping :=
  (engine_invariant (P := fun e => Engine.Wired e ∧ e.start = .looping) h ⟨hwired, hloop⟩
    fun _ _ hs hen => ⟨hs.1.next (Engine.step_cases hen),
      Engine.looping_next hs.1 hs.2 (Engine.step_cases hen)⟩).2

/-- When everything has returned, nothing is due and no swap is to come. -/
theorem Converging.current (hs : Converging lower box s) (hr : s.Returned) :
    s.Current lower box := by
  have hfinished : ∀ {k : Nat} {p : RebuildPhase}, s.engine.rebuilds[k]? = some p →
      p = .finished := fun h => hr.2 _ (List.mem_of_getElem? h)
  rcases hs.due with (h | ⟨k, h | ⟨h, -⟩⟩) | ⟨-, h | ⟨k, p, h, hp⟩⟩
  · exact absurd hr.1 h
  · cases hfinished h
  · cases hfinished h
  · exact h
  · rw [hfinished h] at hp
    exact hp.elim

/-- **Config writes converge**: once `start` is in its loop and no rebuild raises, the writes of a
run leave the configuration of the final database installed. -/
theorem writes_converge (h₁ : Lts.Run (system lower box) Lts.free (init store watcher) l₁ s₁)
    (hloop : s₁.engine.start = .looping) (h₂ : Lts.Run (system lower box) Calm s₁ l₂ s₂)
    (hw : s₁.Returned ∧ s₁.Current lower box ∨ ∃ write, .commit write ∈ l₂)
    (hr : s₂.Returned) : s₂.Current lower box := by
  have hrun : ∀ {s : Service} {l : List Act}, Converging lower box s →
      Lts.Run (system lower box) Calm s l s₂ → s₂.Current lower box := fun hs h =>
    Converging.current (h.invariant hs fun _ _ hs hen hG => hs.next (step_cases hen) hG) hr
  rcases hw with ⟨hr₁, hcurrent⟩ | ⟨write, hwrite⟩
  · -- nothing is in progress, so whatever comes first comes from a current engine
    refine hrun ⟨wired_run h₁, exclusive_run h₁, hloop, unread_run h₁, .inr ⟨fun k => ?_,
      .inl hcurrent⟩⟩ h₂
    rw [Fresh]
    cases hk : s₁.engine.rebuilds[k]? with
    | none => trivial
    | some p =>
        rw [hr₁.2 p (List.mem_of_getElem? hk)]
        trivial
  · -- from the first commit on a rebuild is due
    obtain ⟨m, s, m', hm, hen, hG, h⟩ := h₂.of_mem hwrite
    have hfree := h₁.trans (hm.mono fun _ _ _ => trivial)
    have hwired := wired_run hfree
    have hexclusive := exclusive_run hfree
    have hloop := looping_run hm (wired_run h₁) hloop
    have hunread := unread_run hfree
    refine hrun ?_ h
    have hstep := step_cases hen
    generalize (system lower box).next s (.commit write) = s' at hstep
    cases hstep with
    | commit hok =>
        exact ⟨hwired, hexclusive, hloop, hunread, .inl (.inl (Nat.succ_ne_zero _))⟩

/-- The engine starts on an empty database. -/
def starting : List Act :=
  [.engine (.start true), .listServers none, .engine (.startRead (some (configOf .empty))),
    .engine .startBuilt]

/-- A rebuild with one server to build goes on with what it has read, to its last client. -/
def installing (k : Nat) (config : RuntimeConfig) : List Act :=
  [.engine (.rebuildRead k (some config)), .engine (.rebuildBuild k true),
    .engine (.rebuildBuilt k), .engine (.rebuildPolicy k (some none)),
    .engine (.rebuildLimit k (some ⟨8192, 2, 100, 8192, true⟩))]

/-- The server is created with a folder. -/
def created : Write := .serverCreateWithFolders 0 plexServer [tvFolder]

/-- The server gets another name, and a folder more. -/
def renamed : Write :=
  .serverUpdateWithFolders 0 1 ({ name := some (some (str "plex-2")) } : ServerUpdate)
    [tvFolder, filmFolder]

/-- The server as it was created, with the folders it gets later. -/
def torn : RuntimeConfig :=
  let server := (storeAfter [created]).listServers.head?
  (server.elim none (Assembly.empty.add asciiLower markBox (storeAfter [created, renamed]))).elim
    Assembly.empty.config Assembly.config

/-- The second write commits between the two reads of the rebuild of the first. -/
def overlapping : List Act :=
  [.commit created, .call, .engine (.acquire 0), .listServers (some 0), .commit renamed, .call,
    .listFolders (some 0)] ++ installing 0 torn ++
  [.engine (.rebuildClose 0), .engine (.acquire 1), .listServers (some 1),
    .listFolders (some 1)] ++ installing 1 (configOf (storeAfter [created, renamed])) ++
  [.engine (.rebuildClose 1), .engine (.rebuildClose 1)]

theorem writes_converge_overlapping :
    ∃ s : Service, s.Current asciiLower markBox ∧ torn ≠ configOf (storeAfter [created]) ∧
      s.engine.config.map Snapshot.config = some (configOf (storeAfter [created, renamed])) ∧
      torn ≠ configOf (storeAfter [created, renamed]) :=
  ⟨overlapping.foldl (system asciiLower markBox).next
      (starting.foldl (system asciiLower markBox).next (init .empty none)),
    writes_converge (Lts.run_of_exec (by decide +kernel)) (by decide +kernel)
      (Lts.run_of_exec (by decide +kernel)) (.inr ⟨created, by simp [overlapping]⟩)
      (by decide +kernel),
    by decide +kernel, by decide +kernel, by decide +kernel⟩

end Run

end Service

end MediaScanMonitor
