import MediaScanMonitor.Engine.Close
import MediaScanMonitor.Engine.Delivery
import MediaScanMonitor.Engine.Wiring

/-!
# Engine — rebuilds that raise

A rebuild creates its clients before it asks the gate, and the reads of the gate can raise.

* `Unshared`: the clients a rebuild has built are its own until its swap, and open.
* `keeps_of_not_over`: up to its swap no step of a rebuild changes what is installed.
* `failed_rebuild_iff`: a rebuild that raises has changed nothing, and has left a client open
  exactly if it had created an adapter.
-/

namespace MediaScanMonitor
open Py Lts
open Debouncer (OfLoop)

/-- The rebuild has swapped, or raised. -/
def RebuildPhase.over : RebuildPhase → Bool
  | .closing _ | .finished => true
  | .waiting | .reading | .building _ _ | .policy _ _ | .limit _ _ _ => false

namespace Engine

variable {lower : Str → Str} {s s' : Engine} {act : Act}

/-! ### Whose clients -/

/-- The client is closed, installed, left to somebody to close, or built by `start`. -/
inductive Away (s : Engine) (c : Nat) : Prop where
  | closed (h : c ∈ s.closed)
  | installed (h : c ∈ s.clients.map Prod.snd)
  | closing {left : List Nat} (h : s.closing = .clients left) (hc : c ∈ left)
  | old {k : Nat} {p : RebuildPhase} (h : s.rebuilds[k]? = some p) (hc : c ∈ p.old)
  | start (h : c ∈ s.start.held)

/-- A rebuild has built the client, and has not swapped. -/
def Builds (s : Engine) (c : Nat) : Prop :=
  ∃ (k : Nat) (p : RebuildPhase), s.rebuilds[k]? = some p ∧ c ∈ p.held

structure Unshared (s : Engine) : Prop where
  wired : Wired s
  exclusive : Exclusive s
  away_lt : ∀ c, s.Away c → c < s.created
  builds_lt : ∀ c, s.Builds c → c < s.created
  not_away : ∀ c, s.Builds c → ¬ s.Away c

theorem unshared_init (watcher : Option Watching) : Unshared (init watcher) where
  wired := wired_init watcher
  exclusive _ _ _ _ h := by cases h
  away_lt c h := by
    cases h with
    | closed h | installed h | start h => cases h
    | closing h | old h => cases h
  builds_lt c h := by
    obtain ⟨k, p, hk, -⟩ := h
    cases hk
  not_away c h := by
    obtain ⟨k, p, hk, -⟩ := h
    cases hk

/-- A rebuild that has built something holds the lock. -/
theorem holds_of_held {p : RebuildPhase} {c : Nat} (h : c ∈ p.held) : p.holds = true := by
  cases p with
  | waiting | finished => cases h
  | reading | building | policy | limit | closing => rfl

theorem of_held_next {b : Build} {serverId : Int} {todo : List Int} {client c : Nat} {ok : Bool}
    (h : c ∈ (b.next serverId todo client ok).clients.map Prod.snd) :
    c ∈ b.clients.map Prod.snd ∨ c = client ∧ ok = true := by
  rw [map_snd_next, List.mem_append] at h
  refine h.imp_right fun h => ?_
  cases ok with
  | true => exact ⟨List.mem_singleton.mp h, rfl⟩
  | false => cases h

/-- While `start` builds there are no rebuilds. -/
theorem Early.rebuilds_eq_nil (hs : Early s) {park : Bool} {sn : Snapshot} {b : Build}
    (h : s.start = .building park sn b) : s.rebuilds = [] :=
  (hs.nothing (hs.unwired (by rw [Unwired, h]; trivial))).2.2

namespace Unshared

/-- Clients change hands among those who are done with building; no new one is created. -/
theorem keep (hs : Unshared s) (hw : Wired s') (he : Exclusive s') (hcreated : s'.created = s.created)
    (haway : ∀ c, s'.Away c → s.Away c) (hbuilds : ∀ c, s'.Builds c → s.Builds c) :
    Unshared s' where
  wired := hw
  exclusive := he
  away_lt c h := hcreated ▸ hs.away_lt c (haway c h)
  builds_lt c h := hcreated ▸ hs.builds_lt c (hbuilds c h)
  not_away c h h' := hs.not_away c (hbuilds c h) (haway c h')

/-- Nothing but `start` and what is no matter of clients. -/
theorem same (hs : Unshared s) (hw : Wired s') (he : Exclusive s')
    (hcreated : s'.created = s.created) (hclosed : s'.closed = s.closed)
    (hclients : s'.clients = s.clients) (hclosing : s'.closing = s.closing)
    (hrebuilds : s'.rebuilds = s.rebuilds) (hstart : s'.start.held ⊆ s.start.held) :
    Unshared s' := by
  refine hs.keep hw he hcreated ?_ ?_
  · intro c h
    cases h with
    | closed h => exact .closed (hclosed ▸ h)
    | installed h => exact .installed (hclients ▸ h)
    | closing h hc => exact .closing (hclosing ▸ h) hc
    | old h hc => exact .old (hrebuilds ▸ h) hc
    | start h => exact .start (hstart h)
  · intro c h
    rwa [Builds, hrebuilds] at h

/-- One rebuild goes on, without a new client. -/
theorem move (hs : Unshared s) {k : Nat} {p p' : RebuildPhase} (hk : s.rebuilds[k]? = some p)
    (hw : Wired s') (he : Exclusive s') (hset : s'.rebuilds = s.rebuilds.set k p')
    (hcreated : s'.created = s.created) (hclosed : ∀ c ∈ s'.closed, s.Away c)
    (hclients : s'.clients = s.clients) (hclosing : s'.closing = s.closing)
    (hstart : s'.start = s.start) (hheld : p'.held ⊆ p.held) (hold : p'.old ⊆ p.old) :
    Unshared s' := by
  have hget : ∀ j, s'.rebuilds[j]? = if k = j then some p' else s.rebuilds[j]? := fun j => by
    rw [hset]
    exact getElem?_setRebuild s (List.getElem?_eq_some_iff.mp hk).1
  refine hs.keep hw he hcreated ?_ ?_
  · intro c h
    cases h with
    | closed h => exact hclosed c h
    | installed h => exact .installed (hclients ▸ h)
    | closing h hc => exact .closing (hclosing ▸ h) hc
    | old h hc =>
        rw [hget] at h
        split at h
        · cases h
          exact .old hk (hold hc)
        · exact .old h hc
    | start h => exact .start (hstart ▸ h)
  · rintro c ⟨j, q, h, hc⟩
    rw [hget] at h
    split at h
    · cases h
      exact ⟨k, p, hk, hheld hc⟩
    · exact ⟨j, q, h, hc⟩

/-- After a swap nobody builds: the rebuild had the lock. -/
theorem swap (hs : Unshared s) {k : Nat} {p : RebuildPhase} (hk : s.rebuilds[k]? = some p)
    (hp : p.holds = true) (hw : Wired s') (he : Exclusive s')
    (hset : s'.rebuilds = s.rebuilds.set k (.closing (s.clients.map Prod.snd)))
    (hcreated : s'.created = s.created) (hclosed : s'.closed = s.closed)
    (hclients : s'.clients.map Prod.snd ⊆ p.held) (hclosing : s'.closing = s.closing)
    (hstart : s'.start = s.start) : Unshared s' := by
  have hget : ∀ j, s'.rebuilds[j]? =
      if k = j then some (.closing (s.clients.map Prod.snd)) else s.rebuilds[j]? := fun j => by
    rw [hset]
    exact getElem?_setRebuild s (List.getElem?_eq_some_iff.mp hk).1
  have hnone : ∀ c, ¬ s'.Builds c := by
    rintro c ⟨j, q, hj, hc⟩
    rw [hget] at hj
    split at hj
    · cases hj
      cases hc
    · rename_i hne
      exact hne (hs.exclusive k j p q hk hj hp (holds_of_held hc))
  refine ⟨hw, he, ?_, fun c h => absurd h (hnone c), fun c h => absurd h (hnone c)⟩
  intro c h
  rw [hcreated]
  cases h with
  | closed h => exact hs.away_lt c (.closed (hclosed ▸ h))
  | installed h => exact hs.builds_lt c ⟨k, p, hk, hclients h⟩
  | closing h hc => exact hs.away_lt c (.closing (hclosing ▸ h) hc)
  | old h hc =>
      rw [hget] at h
      split at h
      · cases h
        exact hs.away_lt c (.installed hc)
      · exact hs.away_lt c (.old h hc)
  | start h => exact hs.away_lt c (.start (hstart ▸ h))

/-- `start` goes on while there are no rebuilds. -/
theorem of_rebuilds_eq_nil (hw : Wired s') (he : Exclusive s') (hrebuilds : s'.rebuilds = [])
    (haway : ∀ c, s'.Away c → c < s'.created) : Unshared s' := by
  have hnone : ∀ c, ¬ s'.Builds c := by
    rintro c ⟨k, p, hk, -⟩
    rw [hrebuilds] at hk
    cases hk
  exact ⟨hw, he, haway, fun c h => absurd h (hnone c), fun c h => absurd h (hnone c)⟩

theorem startBuild (hs : Unshared s) {park ok : Bool} {sn : Snapshot} {b : Build} {serverId : Int}
    {todo : List Int} (h : s.start = .building park sn b)
    (hw : Wired { s.createClient ok with
      start := .building park sn (b.next serverId todo s.created ok) })
    (he : Exclusive { s.createClient ok with
      start := .building park sn (b.next serverId todo s.created ok) }) :
    Unshared { s.createClient ok with
      start := .building park sn (b.next serverId todo s.created ok) } := by
  have hnew : ∀ c, s.Away c → c < s.created + 1 := fun c h => by
    have := hs.away_lt c h
    omega
  refine of_rebuilds_eq_nil hw he (hs.wired.early.rebuilds_eq_nil h) ?_
  intro c hc
  change c < s.created + 1
  cases hc with
  | closed hc =>
      cases ok with
      | true => exact hnew c (.closed hc)
      | false =>
          rcases List.mem_cons.mp hc with rfl | hc
          · omega
          · exact hnew c (.closed hc)
  | installed hc => exact hnew c (.installed hc)
  | closing hl hc => exact hnew c (.closing hl hc)
  | old hk hc => exact hnew c (.old hk hc)
  | start hc =>
      rcases of_held_next hc with hc | ⟨rfl, -⟩
      · exact hnew c (.start (by rw [h]; exact hc))
      · omega

/-- What `start` has built is installed. -/
theorem startBuilt (hs : Unshared s) {park : Bool} {sn : Snapshot} {b : Build}
    (h : s.start = .building park sn b) (hw : Wired s') (he : Exclusive s')
    (hcreated : s'.created = s.created) (hclosed : s'.closed = s.closed)
    (hclients : s'.clients = b.clients) (hclosing : s'.closing = s.closing)
    (hrebuilds : s'.rebuilds = s.rebuilds) (hstart : s'.start.held = []) : Unshared s' := by
  refine of_rebuilds_eq_nil hw he (hrebuilds.trans (hs.wired.early.rebuilds_eq_nil h)) ?_
  intro c hc
  rw [hcreated]
  cases hc with
  | closed hc => exact hs.away_lt c (.closed (hclosed ▸ hc))
  | installed hc =>
      rw [hclients] at hc
      exact hs.away_lt c (.start (by rw [h]; exact hc))
  | closing hl hc => exact hs.away_lt c (.closing (hclosing ▸ hl) hc)
  | old hk hc => exact hs.away_lt c (.old (hrebuilds ▸ hk) hc)
  | start hc =>
      rw [hstart] at hc
      cases hc

/-- A rebuild is called. -/
theorem rebuild (hs : Unshared s) (hw : Wired { s with rebuilds := s.rebuilds ++ [.waiting] })
    (he : Exclusive { s with rebuilds := s.rebuilds ++ [.waiting] }) :
    Unshared { s with rebuilds := s.rebuilds ++ [.waiting] } := by
  have hold : ∀ {k : Nat} {p : RebuildPhase}, (s.rebuilds ++ [.waiting])[k]? = some p →
      s.rebuilds[k]? = some p ∨ p = .waiting := fun {k p} hk => by
    rw [List.getElem?_append] at hk
    split at hk
    · exact .inl hk
    · exact .inr (List.mem_singleton.mp (List.mem_of_getElem? hk))
  refine hs.keep hw he rfl ?_ ?_
  · intro c h
    cases h with
    | closed h => exact .closed h
    | installed h => exact .installed h
    | closing h hc => exact .closing h hc
    | old hk hc =>
        rcases hold hk with hk | rfl
        · exact .old hk hc
        · cases hc
    | start h => exact .start h
  · rintro c ⟨k, p, hk, hc⟩
    rcases hold hk with hk | rfl
    · exact ⟨k, p, hk, hc⟩
    · cases hc

/-- `aclose` goes on: what it has to close was closed or installed. -/
theorem close (hs : Unshared s) (hw : Wired s') (he : Exclusive s')
    (hcreated : s'.created = s.created) (hclosed : ∀ c ∈ s'.closed, s.Away c)
    (hclients : s'.clients ⊆ s.clients)
    (hclosing : ∀ left, s'.closing = .clients left → ∀ c ∈ left, s.Away c)
    (hrebuilds : s'.rebuilds = s.rebuilds) (hstart : s'.start = s.start) : Unshared s' := by
  refine hs.keep hw he hcreated ?_ ?_
  · intro c h
    cases h with
    | closed h => exact hclosed c h
    | installed h => exact .installed (List.map_subset _ hclients h)
    | closing h hc => exact hclosing _ h c hc
    | old hk hc => exact .old (hrebuilds ▸ hk) hc
    | start h => exact .start (hstart ▸ h)
  · intro c h
    rwa [Builds, hrebuilds] at h

theorem rebuildBuild (hs : Unshared s) {k : Nat} {ok : Bool} {sn : Snapshot} {b : Build}
    {serverId : Int} {todo : List Int} (hk : s.rebuilds[k]? = some (.building sn b))
    (hw : Wired ((s.createClient ok).setRebuild k
      (.building sn (b.next serverId todo s.created ok))))
    (he : Exclusive ((s.createClient ok).setRebuild k
      (.building sn (b.next serverId todo s.created ok)))) :
    Unshared ((s.createClient ok).setRebuild k
      (.building sn (b.next serverId todo s.created ok))) := by
  have hget : ∀ j, ((s.createClient ok).setRebuild k
      (.building sn (b.next serverId todo s.created ok))).rebuilds[j]? =
        if k = j then some (.building sn (b.next serverId todo s.created ok))
        else s.rebuilds[j]? := fun j =>
    getElem?_setRebuild (s.createClient ok) (List.getElem?_eq_some_iff.mp hk).1
  -- what is away was away, or is the new client, closed at once
  have haway : ∀ c, ((s.createClient ok).setRebuild k
      (.building sn (b.next serverId todo s.created ok))).Away c →
        s.Away c ∨ c = s.created ∧ ok = false := by
    intro c h
    cases h with
    | closed h =>
        cases ok with
        | true => exact .inl (.closed h)
        | false =>
            rcases List.mem_cons.mp h with rfl | h
            · exact .inr ⟨rfl, rfl⟩
            · exact .inl (.closed h)
    | installed h => exact .inl (.installed h)
    | closing h hc => exact .inl (.closing h hc)
    | old h hc =>
        rw [hget] at h
        split at h
        · cases h
          cases hc
        · exact .inl (.old h hc)
    | start h => exact .inl (.start h)
  -- what is being built was, or is the new client, kept
  have hbuilds : ∀ c, ((s.createClient ok).setRebuild k
      (.building sn (b.next serverId todo s.created ok))).Builds c →
        s.Builds c ∨ c = s.created ∧ ok = true := by
    rintro c ⟨j, q, h, hc⟩
    rw [hget] at h
    split at h
    · cases h
      exact (of_held_next hc).imp_left fun hc => ⟨k, _, hk, hc⟩
    · exact .inl ⟨j, q, h, hc⟩
  refine ⟨hw, he, ?_, ?_, ?_⟩
  · intro c h
    change c < s.created + 1
    rcases haway c h with h | ⟨rfl, -⟩
    · have := hs.away_lt c h
      omega
    · omega
  · intro c h
    change c < s.created + 1
    rcases hbuilds c h with h | ⟨rfl, -⟩
    · have := hs.builds_lt c h
      omega
    · omega
  · intro c h h'
    rcases hbuilds c h with h | ⟨rfl, hok⟩
    · rcases haway c h' with h' | ⟨rfl, -⟩
      · exact hs.not_away c h h'
      · exact (hs.builds_lt _ h).false
    · rcases haway _ h' with h' | ⟨-, hno⟩
      · exact (hs.away_lt _ h').false
      · rw [hok] at hno
        cases hno

theorem next (hs : Unshared s) (hen : (system lower).enabled s act) :
    Unshared ((system lower).next s act) := by
  have h := step_cases hen
  have hw := hs.wired.next h
  have he := hs.exclusive.next hen
  generalize (system lower).next s act = s' at h hw he
  -- `same` where the clients stay put, `move` where one rebuild changes its phase, `swap` where its
  -- clients are installed, and `close` where those of the engine are given up
  cases h with
  | startAgain | rebuildSkipped => exact hs
  | start h => exact hs.same hw he rfl rfl rfl rfl rfl (List.nil_subset _)
  | startRead h => exact hs.same hw he rfl rfl rfl rfl rfl (List.nil_subset _)
  | startReadRaised h | startPolicy h | startPolicyRaised h | startLimitRaised h =>
      exact hs.same hw he rfl rfl rfl rfl rfl (List.nil_subset _)
  | startBuild h hb => exact hs.startBuild h hw he
  | startBuilt h hb =>
      rw [wire] at hw he ⊢
      split at hw
      · rename_i hpaths
        rw [if_pos hpaths] at he ⊢
        rcases attach_cases _ _ _ _ with e | e <;> rw [e] at hw he ⊢ <;>
          exact hs.startBuilt h hw he rfl rfl rfl rfl rfl rfl
      · rename_i hpaths
        rw [if_neg hpaths] at he ⊢
        exact hs.startBuilt h hw he rfl rfl rfl rfl rfl rfl
  | startLimit h =>
      rcases attach_cases _ _ _ _ with e | e <;> rw [e] at hw he ⊢ <;>
        exact hs.same hw he rfl rfl rfl rfl rfl (List.nil_subset _)
  | rebuild hadapters hwatcher => exact hs.rebuild hw he
  | acquire h | rebuildReadRaised h | rebuildPolicyRaised h | rebuildLimitRaised h
  | rebuildOver h =>
      exact hs.move h hw he rfl rfl (fun _ hc => .closed hc) rfl rfl rfl (List.nil_subset _)
        (List.nil_subset _)
  | rebuildPolicy h =>
      exact hs.move h hw he rfl rfl (fun _ hc => .closed hc) rfl rfl rfl (List.Subset.refl _)
        (List.nil_subset _)
  | rebuildRead h =>
      exact hs.move h hw he rfl rfl (fun _ hc => .closed hc) rfl rfl rfl (List.nil_subset _)
        (List.nil_subset _)
  | rebuildBuild h hb => exact hs.rebuildBuild h hw he
  | rebuildBuilt h hb =>
      rw [rebuilt] at hw he ⊢
      split at hw
      · rename_i hpaths
        rw [if_pos hpaths] at he ⊢
        exact hs.swap h rfl hw he rfl rfl rfl (List.Subset.refl _) rfl rfl
      · rename_i hpaths
        rw [if_neg hpaths] at he ⊢
        exact hs.move h hw he rfl rfl (fun _ hc => .closed hc) rfl rfl rfl (List.Subset.refl _)
          (List.nil_subset _)
  | rebuildLimit h => exact hs.swap h rfl hw he rfl rfl rfl (List.Subset.refl _) rfl rfl
  | rebuildClose h =>
      refine hs.move h hw he rfl rfl ?_ rfl rfl rfl (List.nil_subset _) (List.subset_cons_self _ _)
      intro c hc
      rcases List.mem_cons.mp hc with rfl | hc
      · exact .old h List.mem_cons_self
      · exact .closed hc
  | read h hturn | yield h hturn | submit h htodo | loop h hact hen =>
      exact hs.same hw he rfl rfl rfl rfl rfl (List.Subset.refl _)
  | aclose h hd =>
      refine hs.close hw he rfl (fun _ hc => .closed hc) (List.Subset.refl _) ?_ rfl rfl
      intro left hleft
      cases hleft
  | acloseUnwired h hd =>
      refine hs.close hw he rfl (fun _ hc => .closed hc) (List.Subset.refl _) ?_ rfl rfl
      intro left hleft c hc
      cases hleft
      exact .installed hc
  | closeTimers h =>
      refine hs.close hw he rfl (fun _ hc => .closed hc) (List.Subset.refl _) ?_ rfl rfl
      intro left hleft c hc
      cases hleft
      exact .installed hc
  | closeClient h =>
      refine hs.close hw he rfl ?_ (List.Subset.refl _) ?_ rfl rfl
      · intro c hc
        rcases List.mem_cons.mp hc with rfl | hc
        · exact .closing h List.mem_cons_self
        · exact .closed hc
      · intro left hleft c hc
        cases hleft
        exact .closing h (List.mem_cons_of_mem _ hc)
  | returned h =>
      refine hs.close hw he rfl (fun _ hc => .closed hc) (List.nil_subset _) ?_ rfl rfl
      intro left hleft
      cases hleft

end Unshared

/-! ### The steps of one rebuild -/

/-- A step of rebuild `k`. -/
def Own (k : Nat) : Act → Prop
  | .acquire j | .rebuildRead j _ | .rebuildBuild j _ | .rebuildBuilt j | .rebuildPolicy j _
  | .rebuildLimit j _ | .rebuildClose j => j = k
  | _ => False

/-- Rebuild `k` raises: in `build_runtime_config`, `get_setting` or `check_watch_limit`. -/
def Raises (k : Nat) : Act → Prop
  | .rebuildRead j none | .rebuildPolicy j none | .rebuildLimit j none => j = k
  | _ => False

/-- Rebuild `k` has swapped, or raised. -/
def Over (k : Nat) (s : Engine) : Prop :=
  ∃ p, s.rebuilds[k]? = some p ∧ p.over = true

/-- The clients rebuild `k` has built and not installed. -/
def held (k : Nat) (s : Engine) : List Nat := ((s.rebuilds[k]?).map RebuildPhase.held).getD []

theorem builds_of_mem_held {k c : Nat} (h : c ∈ s.held k) : s.Builds c := by
  rw [held] at h
  cases hk : s.rebuilds[k]? with
  | none =>
      rw [hk] at h
      cases h
  | some p =>
      rw [hk] at h
      exact ⟨k, p, hk, h⟩

/-- What is over stays over. -/
theorem Over.next {k : Nat} (hs : s.Over k) (h : Step lower s act s') : s'.Over k := by
  have hsame : s'.rebuilds = s.rebuilds → s'.Over k := fun e => by rwa [Over, e]
  have hset : ∀ {j : Nat} {p p' : RebuildPhase}, s.rebuilds[j]? = some p →
      s'.rebuilds = s.rebuilds.set j p' → (p.over = true → p'.over = true) → s'.Over k :=
    fun {j p p'} hj e hp => by
      obtain ⟨q, hk, hq⟩ := hs
      by_cases hjk : j = k
      · subst hjk
        cases hk.symm.trans hj
        exact ⟨p', by rw [e, List.getElem?_set_self (List.getElem?_eq_some_iff.mp hk).1], hp hq⟩
      · exact ⟨q, by rw [e, List.getElem?_set_ne hjk, hk], hq⟩
  cases h with
  | startBuilt h hb => exact hsame (rebuilds_wire ..)
  | startLimit h => exact hsame (rebuilds_attach ..)
  | rebuild hadapters hwatcher =>
      obtain ⟨p, hk, hp⟩ := hs
      exact ⟨p, by rw [List.getElem?_append_left (List.getElem?_eq_some_iff.mp hk).1, hk], hp⟩
  | acquire h | rebuildRead h | rebuildReadRaised h | rebuildBuild h hb | rebuildPolicy h
  | rebuildPolicyRaised h | rebuildLimit h | rebuildLimitRaised h =>
      refine hset h rfl ?_
      intro hover
      cases hover
  | rebuildBuilt h hb =>
      rw [rebuilt] at hset ⊢
      split
      · rename_i hpaths
        rw [if_pos hpaths] at hset
        refine hset h rfl ?_
        intro hover
        cases hover
      · rename_i hpaths
        rw [if_neg hpaths] at hset
        refine hset h rfl ?_
        intro hover
        cases hover
  | rebuildClose h | rebuildOver h => exact hset h rfl fun _ => rfl
  | _ => exact hsame rfl

/-- The client a step creates for rebuild `k`. -/
def newClients (k : Nat) (s : Engine) : Act → List Nat
  | .rebuildBuild j _ => if j = k then [s.created] else []
  | _ => []

/-- Of these, the client that an adapter is created with. -/
def keptClients (k : Nat) (s : Engine) : Act → List Nat
  | .rebuildBuild j true => if j = k then [s.created] else []
  | _ => []

/-- Up to its swap a rebuild holds the clients it has created adapters with. -/
theorem held_eq {k : Nat} (h : Step lower s act s') (hover : ¬ s'.Over k) :
    s'.held k = s.held k ++ s.keptClients k act := by
  have hkeep : s'.held k = s.held k → s.keptClients k act = [] →
      s'.held k = s.held k ++ s.keptClients k act := fun hheld hkept => by
    rw [hheld, hkept, List.append_nil]
  have hsame : s'.rebuilds = s.rebuilds → s'.held k = s.held k := fun e => by rw [held, held, e]
  -- the phase of `k` itself is not over, so there its clients are the same
  have hset : ∀ {j : Nat} {p p' : RebuildPhase}, s.rebuilds[j]? = some p →
      s'.rebuilds = s.rebuilds.set j p' → p'.over = true ∨ p'.held = p.held →
      s'.held k = s.held k := fun {j p p'} hj e hp => by
    rw [held, held, e]
    by_cases hjk : j = k
    · subst hjk
      have hget := List.getElem?_set_self (a := p') (List.getElem?_eq_some_iff.mp hj).1
      rcases hp with hp | hp
      · exact absurd ⟨p', by rw [e, hget], hp⟩ hover
      · rw [hget, hj, Option.map_some, Option.map_some, hp]
    · rw [List.getElem?_set_ne hjk]
  cases h with
  | startBuilt h hb => exact hkeep (hsame (rebuilds_wire ..)) rfl
  | startLimit h => exact hkeep (hsame (rebuilds_attach ..)) rfl
  | rebuild hadapters hwatcher =>
      refine hkeep ?_ rfl
      rw [held, held, List.getElem?_append]
      split
      · rfl
      · rename_i hlt
        rw [List.getElem?_eq_none (not_lt.mp hlt)]
        cases hp : [RebuildPhase.waiting][k - s.rebuilds.length]? with
        | none => rfl
        | some p =>
            obtain rfl := List.mem_singleton.mp (List.mem_of_getElem? hp)
            rfl
  | acquire h | rebuildRead h | rebuildPolicy h => exact hkeep (hset h rfl (.inr rfl)) rfl
  | rebuildReadRaised h | rebuildPolicyRaised h | rebuildLimitRaised h | rebuildOver h
  | rebuildLimit h | rebuildClose h => exact hkeep (hset h rfl (.inl rfl)) rfl
  | rebuildBuilt h hb =>
      rw [rebuilt] at hkeep hset ⊢
      split
      · rename_i hpaths
        rw [if_pos hpaths] at hkeep hset
        exact hkeep (hset h rfl (.inl rfl)) rfl
      · rename_i hpaths
        rw [if_neg hpaths] at hkeep hset
        exact hkeep (hset h rfl (.inr rfl)) rfl
  | @rebuildBuild j ok sn b serverId todo h hb =>
      have hlt := (List.getElem?_eq_some_iff.mp h).1
      rw [held, getElem?_setRebuild (s.createClient ok) hlt]
      by_cases hjk : j = k
      · subst hjk
        have hheld : s.held j = b.clients.map Prod.snd := by
          rw [held, h]
          rfl
        have hkept : s.keptClients j (.rebuildBuild j ok) = if ok then [s.created] else [] := by
          cases ok with
          | true => exact if_pos rfl
          | false => rfl
        rw [if_pos rfl, hheld, hkept]
        exact map_snd_next ..
      · have hkept : s.keptClients k (.rebuildBuild j ok) = [] := by
          cases ok with
          | true => exact if_neg hjk
          | false => rfl
        rw [if_neg hjk, hkept, List.append_nil]
        rfl
  | _ => exact hkeep (hsame rfl) rfl

/-- The other clients it has closed. -/
theorem closed_step (k : Nat) (h : Step lower s act s') :
    s.closed ⊆ s'.closed ∧ ∀ c ∈ s.newClients k act, c ∈ s.keptClients k act ∨ c ∈ s'.closed := by
  have hnone : s.newClients k act = [] →
      ∀ c ∈ s.newClients k act, c ∈ s.keptClients k act ∨ c ∈ s'.closed := fun hnew c hc => by
    rw [hnew] at hc
    cases hc
  cases h with
  | startBuilt h hb => exact ⟨fun c hc => by rwa [closed_wire], hnone rfl⟩
  | startLimit h => exact ⟨fun c hc => by rwa [closed_attach], hnone rfl⟩
  | startBuild h hb => exact ⟨fun c hc => closed_createClient hc, hnone rfl⟩
  | rebuildClose h | closeClient h => exact ⟨List.subset_cons_self _ _, hnone rfl⟩
  | rebuildBuilt h hb =>
      refine ⟨?_, hnone rfl⟩
      rw [rebuilt]
      split <;> exact List.Subset.refl _
  | @rebuildBuild j ok sn b serverId todo h hb =>
      refine ⟨fun c hc => closed_createClient hc, fun c hc => ?_⟩
      cases ok with
      | true => exact .inl hc
      | false =>
          rw [newClients] at hc
          split at hc
          · rw [List.mem_singleton.mp hc]
            exact .inr List.mem_cons_self
          · cases hc
  | _ => exact ⟨List.Subset.refl _, hnone rfl⟩

end Engine

namespace Service

variable {lower : Str → Str} {box : SecretBox} {s s' : Service} {act : Act} {k : Nat}

/-- What a rebuild that returns replaces. -/
structure Installed where
  config : Option Snapshot
  adapters : AList fun _ : Int => Adapter
  /-- The servers the dispatcher has an adapter for. -/
  dispatcher : Option (List Int)
  /-- `_servers` of the debouncer. -/
  servers : Option (AList fun _ : Int => ServerRuntime)
  clients : List (Int × Nat)
  watcher : Option Watching
  state : EngineState
  watchLimit : Option WatchLimitStatus

def installed (s : Service) : Installed where
  config := s.engine.config
  adapters := s.adapters
  dispatcher := s.engine.adapters
  servers := s.engine.debouncer.map Debouncer.servers
  clients := s.engine.clients
  watcher := s.engine.watcher
  state := s.engine.state
  watchLimit := s.engine.watchLimit

/-- A step of rebuild `k`. -/
def Own (k : Nat) : Act → Prop
  | .listServers task | .listFolders task => task = some k
  | .engine act => Engine.Own k act
  | _ => False

/-- Rebuild `k` raises. -/
def Raises (k : Nat) : Act → Prop
  | .engine act => Engine.Raises k act
  | _ => False

theorem adapters_build (s : Service) (task : Task) (sn : Snapshot) (b : Build) (ok : Bool) :
    (s.build task sn b ok).adapters = s.adapters := by
  rw [build]
  repeat' split
  all_goals rfl

theorem over_of_set {e e' : Engine} {p p' : RebuildPhase} (hk : e.rebuilds[k]? = some p)
    (hset : e'.rebuilds = e.rebuilds.set k p') (hp : p'.over = true) : e'.Over k :=
  ⟨p', by rw [hset, List.getElem?_set_self (List.getElem?_eq_some_iff.mp hk).1], hp⟩

/-- Up to its swap no step of a rebuild changes what is installed. -/
theorem keeps_of_not_over (h : Step lower box s act s') (hown : Own k act)
    (hover : ¬ s'.engine.Over k) : s'.installed = s.installed := by
  cases h with
  | commit h | call hc hen | attempt h hf => cases hown
  | listServers h hr | listFolders h hr hn => rfl
  | @engine act hadm hen =>
      have hstep := Engine.step_cases hen
      generalize (Engine.system lower).next s.engine act = e at hstep hover ⊢
      rw [engine_after] at hover
      cases hstep with
      | acquire h | rebuildRead h | rebuildReadRaised h | rebuildPolicy h | rebuildPolicyRaised h
      | rebuildLimitRaised h => rfl
      | rebuildBuild h hb =>
          simp only [after, h]
          simp [installed, adapters_build, Engine.createClient, Engine.setRebuild]
      | rebuildBuilt h hb =>
          obtain rfl : _ = k := hown
          rw [Engine.rebuilt] at hover ⊢
          split at hover
          · exact absurd (over_of_set h rfl rfl) hover
          · rename_i hpaths
            simp only [after, h, if_neg hpaths]
            rfl
      | rebuildLimit h | rebuildClose h | rebuildOver h =>
          obtain rfl : _ = k := hown
          exact absurd (over_of_set h rfl rfl) hover
      | _ => cases hown

/-- A rebuild that raises does nothing else. -/
theorem raise_cases (h : Step lower box s act s') (hr : Raises k act) :
    ¬ s.engine.Over k ∧ Own k act ∧ s'.installed = s.installed ∧
      s'.engine.closed = s.engine.closed := by
  have hnot : ∀ {p : RebuildPhase}, s.engine.rebuilds[k]? = some p → p.over = false →
      ¬ s.engine.Over k := by
    rintro p hp hover ⟨q, hq, hq'⟩
    cases hp.symm.trans hq
    rw [hover] at hq'
    cases hq'
  cases h with
  | commit h | call hc hen | listServers h hr | listFolders h hr hn | attempt h hf => cases hr
  | @engine act hadm hen =>
      have hstep := Engine.step_cases hen
      generalize (Engine.system lower).next s.engine act = e at hstep ⊢
      cases hstep with
      | rebuildReadRaised h | rebuildPolicyRaised h | rebuildLimitRaised h =>
          obtain rfl : _ = k := hr
          exact ⟨hnot h rfl, rfl, rfl, rfl⟩
      | _ => cases hr

/-! ### The run of one rebuild -/

/-- The client a step creates for rebuild `k`. -/
def newClients (k : Nat) (s : Service) : Act → List Nat
  | .engine act => s.engine.newClients k act
  | _ => []

/-- The clients that rebuild `k` creates along the labels. -/
def createdBy (lower : Str → Str) (box : SecretBox) (k : Nat) : Service → List Act → List Nat
  | _, [] => []
  | s, act :: l => s.newClients k act ++ createdBy lower box k ((system lower box).next s act) l

theorem createdBy_append (l m : List Act) (s : Service) :
    createdBy lower box k s (l ++ m) = createdBy lower box k s l ++
      createdBy lower box k (l.foldl (system lower box).next s) m := by
  induction l generalizing s with
  | nil => rfl
  | cons act l ih =>
      rw [List.cons_append, createdBy, ih, createdBy, List.foldl_cons, List.append_assoc]

/-- Of these, the client that an adapter is created with. -/
def keptClients (k : Nat) (s : Service) : Act → List Nat
  | .engine act => s.engine.keptClients k act
  | _ => []

/-- Up to its swap a rebuild holds the clients it has created adapters with, and has closed the
others. -/
theorem held_step (h : Step lower box s act s') (hover : ¬ s'.engine.Over k) :
    s'.engine.held k = s.engine.held k ++ s.keptClients k act ∧
      s.engine.closed ⊆ s'.engine.closed ∧
      ∀ c ∈ s.newClients k act, c ∈ s.keptClients k act ∨ c ∈ s'.engine.closed := by
  cases h with
  | commit h | listServers h hr | listFolders h hr hn | attempt h hf =>
      exact ⟨(List.append_nil _).symm, List.Subset.refl _, List.forall_mem_nil _⟩
  | call hc hen =>
      have hstep := Engine.step_cases hen
      exact ⟨Engine.held_eq hstep hover, Engine.closed_step k hstep⟩
  | engine hadm hen =>
      have hstep := Engine.step_cases hen
      rw [engine_after] at hover ⊢
      exact ⟨Engine.held_eq hstep hover, Engine.closed_step k hstep⟩

theorem keptClients_subset (k : Nat) (s : Service) (act : Act) :
    s.keptClients k act ⊆ s.newClients k act := by
  intro c hc
  cases act with
  | engine act =>
      cases act with
      | rebuildBuild j ok =>
          cases ok with
          | true => exact hc
          | false => cases hc
      | _ => cases hc
  | _ => cases hc

/-- An adapter is created for rebuild `k`. -/
theorem keptClients_eq_nil : s.keptClients k act = [] ↔ act ≠ .engine (.rebuildBuild k true) := by
  cases act with
  | engine act =>
      cases act with
      | rebuildBuild j ok =>
          cases ok <;> simp [keptClients, Engine.keptClients]
      | _ => simp [keptClients, Engine.keptClients]
  | _ => simp [keptClients]

theorem over_next (h : Step lower box s act s') (hs : s.engine.Over k) : s'.engine.Over k := by
  rcases engine_next h with e | ⟨act', hen, e⟩
  · rwa [e]
  · rw [e]
    exact hs.next (Engine.step_cases hen)

section Run
variable {s₀ : Service} {l : List Act}

/-- Up to its end no step of a rebuild changes what is installed. -/
theorem keeps_run (h : Run (system lower box) free s₀ l s) (hover : ¬ s.engine.Over k) :
    Run (system lower box)
      (fun s act => Own k act → ((system lower box).next s act).installed = s.installed) s₀ l s := by
  induction h with
  | nil => exact .nil
  | snoc h hen _ ih =>
      refine .snoc (ih fun hs => hover (over_next (step_cases hen) hs)) hen ?_
      intro hown
      exact keeps_of_not_over (step_cases hen) hown hover

/-- What a rebuild has created it holds, or has closed; and it holds nothing as long as no adapter
was created. -/
theorem held_run (h : Run (system lower box) free s₀ l s)
    (h₀ : s₀.engine.rebuilds[k]? = some .waiting) (hover : ¬ s.engine.Over k) :
    (∀ c, c ∈ createdBy lower box k s₀ l → c ∈ s.engine.held k ∨ c ∈ s.engine.closed) ∧
      (∀ c, c ∈ s.engine.held k → c ∈ createdBy lower box k s₀ l) ∧
      (s.engine.held k = [] ↔ .engine (.rebuildBuild k true) ∉ l) := by
  induction h with
  | nil =>
      have hnone : s₀.engine.held k = [] := by
        rw [Engine.held, h₀]
        rfl
      rw [hnone]
      exact ⟨fun c hc => .inl hc, fun c hc => hc, iff_of_true rfl List.not_mem_nil⟩
  | @snoc l s act h hen _ ih =>
      have hstep := step_cases hen
      obtain ⟨hmade, hheld, hnone⟩ := ih fun hs => hover (over_next hstep hs)
      obtain ⟨hnext, hclosed, hnew⟩ := held_step hstep hover
      have hcreated : createdBy lower box k s₀ (l ++ [act]) =
          createdBy lower box k s₀ l ++ s.newClients k act := by
        rw [createdBy_append, ← h.eq_foldl, createdBy, createdBy, List.append_nil]
      rw [hcreated, hnext]
      refine ⟨fun c hc => ?_, fun c hc => ?_, ?_⟩
      · rw [List.mem_append]
        rcases List.mem_append.mp hc with hc | hc
        · exact (hmade c hc).imp .inl (hclosed ·)
        · exact (hnew c hc).imp_left .inr
      · rcases List.mem_append.mp hc with hc | hc
        · exact List.mem_append_left _ (hheld c hc)
        · exact List.mem_append_right _ (keptClients_subset k s act hc)
      · rw [List.append_eq_nil_iff, hnone, keptClients_eq_nil, List.mem_append, List.mem_singleton,
          not_or, ne_comm]

theorem unshared_run {store : Store} {watcher : Option Watching}
    (h : Run (system lower box) free (init store watcher) l s) : Engine.Unshared s.engine :=
  engine_invariant h (Engine.unshared_init watcher) fun _ _ hs hen => hs.next hen

/-- **A rebuild that raises changes nothing**, and closes what it has created exactly if it has
created no adapter. -/
theorem failed_rebuild_iff {store : Store} {watcher : Option Watching} {l₀ : List Act}
    (h₀ : Run (system lower box) free (init store watcher) l₀ s₀)
    (hk : s₀.engine.rebuilds[k]? = some .waiting) (h : Run (system lower box) free s₀ l s)
    (hen : (system lower box).enabled s act) (hr : Raises k act) :
    Run (system lower box)
        (fun s act => Own k act → ((system lower box).next s act).installed = s.installed) s₀
        (l ++ [act]) ((system lower box).next s act) ∧
      ((∀ act ∈ l, Own k act) → ((system lower box).next s act).installed = s₀.installed) ∧
      ((∀ c ∈ createdBy lower box k s₀ l, c ∈ ((system lower box).next s act).engine.closed) ↔
        .engine (.rebuildBuild k true) ∉ l) := by
  obtain ⟨hover, hown, hinstalled, hclosed⟩ := raise_cases (step_cases hen) hr
  have hkeeps := keeps_run (k := k) h hover
  obtain ⟨hmade, hheld, hnone⟩ := held_run h hk hover
  refine ⟨.snoc hkeeps hen fun _ => hinstalled, ?_, ?_⟩
  · intro hall
    rw [hinstalled]
    exact (hkeeps.of_labels hall).invariant (P := fun s => s.installed = s₀.installed) rfl
      fun s act hs _ hkeep => (hkeep.2 hkeep.1).trans hs
  · rw [hclosed, ← hnone]
    constructor
    -- a client that is closed is held by no rebuild, and one that is held was created here
    · intro hall
      refine List.eq_nil_iff_forall_not_mem.mpr fun c hc => ?_
      exact (unshared_run (h₀.trans h)).not_away c (Engine.builds_of_mem_held hc)
        (.closed (hall c (hheld c hc)))
    · intro hnil c hc
      refine (hmade c hc).resolve_left ?_
      rw [hnil]
      exact List.not_mem_nil

/-- A rebuild is called on a running engine, and comes to its gate. -/
def calling : List Act := launching ++ [.engine .rebuild]

def gating (ok : Bool) : List Act :=
  [.engine (.acquire 0), .listServers (some 0), .listFolders (some 0),
    .engine (.rebuildRead 0 (some (configOf oneServer))), .engine (.rebuildBuild 0 ok),
    .engine (.rebuildBuilt 0)]

/-- The adapter of the one server is skipped, and `get_setting` raises. -/
theorem failed_rebuild_skipped :
    ∃ s₀ s : Service,
      ((system asciiLower markBox).next s (.engine (.rebuildPolicy 0 none))).installed =
        s₀.installed ∧
      createdBy asciiLower markBox 0 s₀ (gating false) = [1] ∧
      ∀ c ∈ createdBy asciiLower markBox 0 s₀ (gating false),
        c ∈ ((system asciiLower markBox).next s (.engine (.rebuildPolicy 0 none))).engine.closed := by
  have hcalling : Run (system asciiLower markBox) free (init oneServer none) calling
      (calling.foldl (system asciiLower markBox).next (init oneServer none)) :=
    run_of_exec (by decide +kernel)
  have hraises : Raises 0 (.engine (.rebuildPolicy 0 none)) := rfl
  have hfail := failed_rebuild_iff hcalling (by decide +kernel)
    (run_of_exec (l := gating false) (by decide +kernel)) (by decide +kernel) hraises
  exact ⟨_, _, hfail.2.1 (by simp [gating, Own, Engine.Own]), by decide +kernel,
    hfail.2.2.mpr (by simp [gating])⟩

/-- The adapter is built, and `get_setting` raises: its client stays open. -/
theorem failing_gate_leaks :
    ∃ s₀ s : Service, Run (system asciiLower markBox) free (init oneServer none) calling s₀ ∧
      Run (system asciiLower markBox) free s₀ (gating true) s ∧
      (system asciiLower markBox).enabled s (.engine (.rebuildPolicy 0 none)) ∧
      ¬ ∀ c ∈ createdBy asciiLower markBox 0 s₀ (gating true),
        c ∈ ((system asciiLower markBox).next s (.engine (.rebuildPolicy 0 none))).engine.closed :=
  ⟨_, _, run_of_exec (by decide +kernel), run_of_exec (by decide +kernel), by decide +kernel,
    by decide +kernel⟩

end Run

end Service

end MediaScanMonitor
