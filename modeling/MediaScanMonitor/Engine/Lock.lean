import MediaScanMonitor.Engine.Steps

/-!
# Engine — the lock and the pipeline

What holds of every reachable engine, whatever is called when.

* `Wired`: the pipeline is wired as a whole, and `start` has wired it when it comes to its gate.
* `Exclusive`: one rebuild at a time is between `acquire` and its return (`_lock`).
-/

namespace MediaScanMonitor
open Py

namespace Engine

variable {lower : Str → Str} {s s' : Engine} {act : Act}

/-! ### One rebuild at a time -/

/-- At most one rebuild holds `_lock`. -/
def Exclusive (s : Engine) : Prop :=
  ∀ (j k : Nat) (p q : RebuildPhase), s.rebuilds[j]? = some p → s.rebuilds[k]? = some q →
    p.holds = true → q.holds = true → j = k

/-- What a step does to the rebuilds: none, one more, or one that holds the lock goes on. -/
theorem rebuilds_cases (h : Step lower s act s') :
    s'.rebuilds = s.rebuilds ∨ s'.rebuilds = s.rebuilds ++ [.waiting] ∨
      ∃ (k : Nat) (p p' : RebuildPhase), s.rebuilds[k]? = some p ∧
        s'.rebuilds = s.rebuilds.set k p' ∧ p' ≠ .waiting ∧
        (p.holds = true ∨ act = .acquire k) := by
  cases h with
  | startBuilt h hb =>
      exact .inl (rebuilds_wire ..)
  | startLimit h => exact .inl (rebuilds_attach ..)
  | rebuild hadapters hwatcher => exact .inr (.inl rfl)
  | @acquire k h => exact .inr (.inr ⟨k, _, _, h, rfl, by simp, .inr rfl⟩)
  | @rebuildBuilt k sn b h hb =>
      refine .inr (.inr ⟨k, .building sn b, ?_⟩)
      rw [rebuilt]
      split
      · exact ⟨_, h, rfl, by simp, .inl rfl⟩
      · exact ⟨_, h, rfl, by simp, .inl rfl⟩
  | rebuildRead h | rebuildReadRaised h | rebuildBuild h | rebuildPolicy h | rebuildPolicyRaised h
  | rebuildLimit h | rebuildLimitRaised h | rebuildClose h | rebuildOver h =>
      exact .inr (.inr ⟨_, _, _, h, rfl, by simp, .inl rfl⟩)
  | _ => exact .inl rfl

/-- A rebuild comes to the lock when no rebuild holds it. -/
theorem free_of_acquire {k : Nat} (hen : (system lower).enabled s (.acquire k)) :
    s.rebuilds.any RebuildPhase.holds = false := by
  have h := step_eq hen
  generalize (system lower).next s (.acquire k) = s' at h
  simp only [step, stepRebuild] at h
  split at h <;> try cases h
  split at h <;> cases h
  exact Bool.eq_false_iff.mpr ‹_›

theorem Exclusive.next (hs : Exclusive s) (hen : (system lower).enabled s act) :
    Exclusive ((system lower).next s act) := by
  intro i j p q hi hj hp hq
  rcases rebuilds_cases (step_cases hen) with e | e | ⟨k, p₀, p', hk, e, -, hold⟩
  · rw [e] at hi hj
    exact hs i j p q hi hj hp hq
  · have hkept : ∀ {i : Nat} {p : RebuildPhase}, (s.rebuilds ++ [.waiting])[i]? = some p →
        p.holds = true → s.rebuilds[i]? = some p := fun {i p} hi hp => by
      rw [List.getElem?_append] at hi
      split at hi
      · exact hi
      · obtain rfl := List.mem_singleton.mp (List.mem_of_getElem? hi)
        cases hp
    rw [e] at hi hj
    exact hs i j p q (hkept hi hp) (hkept hj hq) hp hq
  · have hlt := (List.getElem?_eq_some_iff.mp hk).1
    have hother : ∀ {m : Nat} {r : RebuildPhase}, k ≠ m → (s.rebuilds.set k p')[m]? = some r →
        r.holds = true → s.rebuilds[m]? = some r ∧ p₀.holds = true := fun {m r} hne hm hr => by
      rw [List.getElem?_set_ne hne] at hm
      refine ⟨hm, hold.elim id fun hact => ?_⟩
      -- a rebuild that comes to the lock finds it free
      have hfree := List.any_eq_false.mp (free_of_acquire (hact ▸ hen))
      exact absurd hr (hfree r (List.mem_of_getElem? hm))
    rw [e] at hi hj
    by_cases hik : k = i
    · by_cases hjk : k = j
      · exact hik.symm.trans hjk
      · obtain ⟨hj, hp₀⟩ := hother hjk hj hq
        exact absurd (hs k j p₀ q hk hj hp₀ hq) hjk
    · obtain ⟨hi, hp₀⟩ := hother hik hi hp
      exact absurd (hs k i p₀ p hk hi hp₀ hp) hik

/-! ### The pipeline -/

/-- What `start` has done where it is suspended. -/
def Done (s : Engine) : Prop :=
  match s.start with
  | .idle | .reading _ | .finished => True
  | .building _ _ _ => s.watcher ≠ none
  | .policy _ _ | .limit _ _ _ | .looping => s.adapters ≠ none

structure Wired (s : Engine) : Prop where
  early : Early s
  pipeline : s.adapters ≠ none → s.debouncer ≠ none ∧ s.watcher ≠ none ∧ s.started = true
  done : s.Done

theorem wired_init (watcher : Option Watching) : Wired (init watcher) where
  early := early_init watcher
  pipeline h := absurd rfl h
  done := trivial

/-- A rebuild goes on. -/
theorem Wired.setRebuild (hs : Wired s) {k : Nat} {phase : RebuildPhase}
    (he : Early (s.setRebuild k phase)) : Wired (s.setRebuild k phase) :=
  ⟨he, hs.pipeline, hs.done⟩

theorem Wired.swap (hs : Wired s) {k : Nat} {phase : RebuildPhase} {sn : Snapshot}
    {clients : List (Int × Nat)} {ok : Bool} (hk : s.rebuilds[k]? = some phase)
    (he : Early (s.swap k sn clients ok)) : Wired (s.swap k sn clients ok) where
  early := he
  pipeline _ := by
    obtain ⟨hd, hw, hstarted⟩ := hs.pipeline (hs.early.wired hk)
    exact ⟨by simpa [Engine.swap, Engine.setRebuild] using hd,
      by simpa [Engine.swap, Engine.setRebuild] using hw, hstarted⟩
  done := by
    have hstart : (s.swap k sn clients ok).start = s.start := rfl
    have hdone := hs.done
    rw [Done] at hdone ⊢
    rw [hstart]
    cases e : s.start with
    | building =>
        exact absurd (hs.early.unwired (by rw [Unwired, e]; trivial)) (hs.early.wired hk)
    | idle | reading | finished => trivial
    | policy | limit | looping => exact Option.some_ne_none _

theorem wired_attach {park ok : Bool} {sn : Snapshot} (he : Early (s.attach park sn ok))
    (hw : s.adapters ≠ none)
    (h : s.debouncer ≠ none ∧ s.watcher ≠ none ∧ s.started = true) :
    Wired (s.attach park sn ok) := by
  obtain ⟨hd, hwatcher, hstarted⟩ := h
  rcases s.attach_cases park sn ok with e | e <;> rw [e] at he ⊢
  · exact ⟨he, fun _ => ⟨hd, by simpa using hwatcher, hstarted⟩, hw⟩
  · exact ⟨he, fun _ => ⟨hd, hwatcher, hstarted⟩, trivial⟩

theorem Wired.next (hs : Wired s) (h : Step lower s act s') : Wired s' := by
  have he := hs.early.next h
  have hdone := hs.done
  rw [Done] at hdone
  cases h with
  | startAgain | rebuildSkipped => exact hs
  | start h =>
      exact ⟨he, fun hw => absurd (hs.pipeline hw).2.2 (by simp [h]), trivial⟩
  | startRead h =>
      exact ⟨he, fun hw => ⟨(hs.pipeline hw).1, Option.some_ne_none _, (hs.pipeline hw).2.2⟩,
        Option.some_ne_none _⟩
  | startReadRaised h => exact ⟨he, hs.pipeline, trivial⟩
  | startBuild h hb =>
      rw [h] at hdone
      exact ⟨he, hs.pipeline, hdone⟩
  | startBuilt h hb =>
      rw [h] at hdone
      have hstarted := hs.early.started (by simp [h])
      rw [wire] at he ⊢
      split at he
      · rename_i hpaths
        rw [if_pos hpaths]
        exact wired_attach he (Option.some_ne_none _) ⟨Option.some_ne_none _, hdone, hstarted⟩
      · rename_i hpaths
        rw [if_neg hpaths]
        exact ⟨he, fun _ => ⟨Option.some_ne_none _, hdone, hstarted⟩, Option.some_ne_none _⟩
  | startPolicy h =>
      rw [h] at hdone
      exact ⟨he, hs.pipeline, hdone⟩
  | startPolicyRaised h => exact ⟨he, hs.pipeline, trivial⟩
  | startLimit h =>
      rw [h] at hdone
      exact wired_attach he hdone (hs.pipeline hdone)
  | startLimitRaised h => exact ⟨he, hs.pipeline, trivial⟩
  | rebuild hadapters hwatcher => exact ⟨he, hs.pipeline, hs.done⟩
  | acquire h | rebuildReadRaised h | rebuildPolicy h | rebuildPolicyRaised h
  | rebuildLimitRaised h | rebuildOver h => exact hs.setRebuild he
  | rebuildRead h | rebuildBuild h | rebuildClose h => exact ⟨he, hs.pipeline, hs.done⟩
  | @rebuildBuilt k sn b h hb =>
      rw [rebuilt] at he ⊢
      split at he
      · rename_i hpaths
        rw [if_pos hpaths]
        have hs' : Wired { s with watchLimit := none } :=
          ⟨⟨hs.early.nothing, hs.early.unwired, hs.early.idle⟩, hs.pipeline, hs.done⟩
        exact hs'.swap h he
      · rename_i hpaths
        rw [if_neg hpaths]
        exact hs.setRebuild he
  | @rebuildLimit k sn clients policy limit h =>
      have hs' : Wired { s with watchLimit := some limit } :=
        ⟨⟨hs.early.nothing, hs.early.unwired, hs.early.idle⟩, hs.pipeline, hs.done⟩
      exact hs'.swap h he
  | read h hturn | yield h hturn => exact ⟨he, hs.pipeline, hs.done⟩
  | submit h htodo | loop h hact hen =>
      exact ⟨he, fun hw => ⟨Option.some_ne_none _, (hs.pipeline hw).2⟩, hs.done⟩
  | aclose h hd =>
      refine ⟨he, fun hw => ⟨Option.some_ne_none _, ?_, (hs.pipeline hw).2.2⟩, ?_⟩
      · simpa using (hs.pipeline hw).2.1
      · rw [Done]
        cases e : s.start with
        | building =>
            rw [e] at hdone
            simpa using hdone
        | idle | reading | finished => trivial
        | policy | limit | looping =>
            rw [e] at hdone
            exact hdone
  | acloseUnwired h hd =>
      refine ⟨he, fun hw => absurd hd (hs.pipeline hw).1, ?_⟩
      rw [Done]
      cases e : s.start with
      | building =>
          rw [e] at hdone
          simpa using hdone
      | idle | reading | finished => trivial
      | policy | limit | looping =>
          rw [e] at hdone
          exact hdone
  | closeTimers h | closeClient h | returned h => exact ⟨he, hs.pipeline, hs.done⟩

/-- On a wired engine a rebuild that is called waits for the lock. -/
theorem Wired.next_rebuild (hs : Wired s) (hw : s.adapters ≠ none) :
    (system lower).next s .rebuild = { s with rebuilds := s.rebuilds ++ [.waiting] } := by
  obtain ⟨hd, hwatcher, hstarted⟩ := hs.pipeline hw
  show (s.step lower .rebuild).getD s = _
  rw [step, stepRebuild, if_neg]
  · rfl
  · simp [hstarted, hw, hd, hwatcher]

/-- `start` in its loop stays there. -/
theorem looping_next (hs : Wired s) (hloop : s.start = .looping) (h : Step lower s act s') :
    s'.start = .looping := by
  cases h with
  | start h =>
      rw [hs.early.idle h] at hloop
      cases hloop
  | startRead h | startReadRaised h | startBuild h | startBuilt h | startPolicy h
  | startPolicyRaised h | startLimit h | startLimitRaised h =>
      rw [h] at hloop
      cases hloop
  | rebuildBuilt h hb =>
      rw [rebuilt]
      split <;> exact hloop
  | _ => exact hloop

end Engine

end MediaScanMonitor
