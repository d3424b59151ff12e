import Mathlib.Data.List.Basic

/-!
# Library — guarded transition systems

A system is given by its labelled steps: when a label is enabled in a state, and the state it
leads to.  A *run* from `s₀` takes enabled labels one after another; a *guarded* run takes only
steps that also meet a side condition `G`, read on the state before the step.

* `Run.invariant`: what holds at the start and is kept by every guarded step holds in every
  state a guarded run reaches.
* `Run.trans`: runs compose, and `Run.of_mem` takes one apart at a label.
* `Run.strengthen`: what a guard brings about along a run.
* `run_guard_iff`: a guard that says exactly when a step keeps `P`.
* `along_congr`, `Along.foldl`: what every step of a deterministic machine meets.
* `Run.lastWrite`: what a register holds is what the last label that writes it wrote.
* `Run.history`: what relates the labels of a run to its state, read off one step.
* `Once`: a step of a run met a condition.
* `run_of_exec`: with decidable guards a concrete run is checked by evaluation.
-/

namespace Lts

/-- A labelled transition system: the labels enabled in a state and the state each leads to. -/
structure System (σ α : Type*) where
  enabled : σ → α → Prop
  next : σ → α → σ

variable {σ α : Type*} {M : System σ α}

/-- The side condition every step meets. -/
def free : σ → α → Prop := fun _ _ => True

/-- The runs of `M` from `s₀` whose every step meets `G`, with their labels in order. -/
inductive Run (M : System σ α) (G : σ → α → Prop) (s₀ : σ) : List α → σ → Prop where
  | nil : Run M G s₀ [] s₀
  | snoc {l : List α} {s : σ} {a : α} (h : Run M G s₀ l s) (hen : M.enabled s a) (hG : G s a) :
      Run M G s₀ (l ++ [a]) (M.next s a)

variable {G : σ → α → Prop} {s₀ s₁ s : σ} {l m : List α} {a : α}

/-- What holds at the start and survives every guarded step holds all along a guarded run. -/
theorem Run.invariant {P : σ → Prop} (h : Run M G s₀ l s) (h₀ : P s₀)
    (hstep : ∀ s a, P s → M.enabled s a → G s a → P (M.next s a)) : P s := by
  induction h with
  | nil => exact h₀
  | snoc _ hen hG ih => exact hstep _ _ ih hen hG

theorem Run.one (hen : M.enabled s a) (hG : G s a) : Run M G s [a] (M.next s a) :=
  .snoc (l := []) .nil hen hG

theorem Run.trans (h₁ : Run M G s₀ l s₁) (h₂ : Run M G s₁ m s) : Run M G s₀ (l ++ m) s := by
  induction h₂ with
  | nil => rwa [List.append_nil]
  | snoc _ hen hG ih =>
      rw [← List.append_assoc]
      exact .snoc ih hen hG

theorem Run.cons (hen : M.enabled s₀ a) (hG : G s₀ a) (h : Run M G (M.next s₀ a) l s) :
    Run M G s₀ (a :: l) s :=
  (Run.one hen hG).trans h

/-- A weaker guard has more runs. -/
theorem Run.mono {G' : σ → α → Prop} (h : Run M G s₀ l s) (hG : ∀ s a, G s a → G' s a) :
    Run M G' s₀ l s := by
  induction h with
  | nil => exact .nil
  | snoc _ hen h ih => exact .snoc ih hen (hG _ _ h)

/-- What all labels of a run meet may join its guard. -/
theorem Run.of_labels {Q : α → Prop} (h : Run M G s₀ l s) (hl : ∀ a ∈ l, Q a) :
    Run M (fun s a => Q a ∧ G s a) s₀ l s := by
  induction h with
  | nil => exact .nil
  | snoc _ hen hG ih =>
      have hQ := hl _ (List.mem_append_right _ List.mem_cons_self)
      exact .snoc (ih fun a ha => hl a (List.mem_append_left _ ha)) hen ⟨hQ, hG⟩

/-- The labels say where a run ends. -/
theorem Run.eq_foldl (h : Run M G s₀ l s) : s = l.foldl M.next s₀ := by
  induction h with
  | nil => rfl
  | snoc _ _ _ ih => rw [List.foldl_append, ← ih, List.foldl_cons, List.foldl_nil]

/-- A label of a run was taken somewhere along it. -/
theorem Run.of_mem (h : Run M G s₀ l s) (ha : a ∈ l) :
    ∃ l₁ s₁ l₂, Run M G s₀ l₁ s₁ ∧ M.enabled s₁ a ∧ G s₁ a ∧ Run M G (M.next s₁ a) l₂ s := by
  induction h with
  | nil => cases ha
  | @snoc l s b h hen hG ih =>
      rcases List.mem_append.mp ha with ha | ha
      · obtain ⟨l₁, s₁, l₂, h₁, hen₁, hG₁, h₂⟩ := ih ha
        exact ⟨l₁, s₁, l₂ ++ [b], h₁, hen₁, hG₁, .snoc h₂ hen hG⟩
      · obtain rfl := List.mem_singleton.mp ha
        exact ⟨l, s, [], h, hen, hG, .nil⟩

/-- A guard that brings another one about, in the states of an invariant. -/
theorem Run.strengthen {G' : σ → α → Prop} {I : σ → Prop} (h : Run M G s₀ l s) (h₀ : I s₀)
    (hI : ∀ s a, I s → M.enabled s a → G s a → I (M.next s a))
    (hG : ∀ s a, I s → M.enabled s a → G s a → G' s a) : Run M G' s₀ l s := by
  induction h with
  | nil => exact .nil
  | snoc h hen ha ih => exact .snoc ih hen (hG _ _ (h.invariant h₀ hI) hen ha)

/-- A guard that says when a step keeps `P`, of states that keep an invariant `I` anyway: the runs
that meet it are those that stay in `P`. -/
theorem run_guard_iff {I P : σ → Prop} (h₀ : I s₀) (hP₀ : P s₀)
    (hI : ∀ s a, I s → M.enabled s a → I (M.next s a))
    (hP : ∀ s a, I s → P s → M.enabled s a → (G s a ↔ P (M.next s a))) :
    Run M G s₀ l s ↔ Run M (fun s a => P (M.next s a)) s₀ l s := by
  constructor
  · intro h
    refine h.strengthen (I := fun s => I s ∧ P s) ⟨h₀, hP₀⟩ ?_ ?_
    · intro s a hs hen hG
      exact ⟨hI s a hs.1 hen, (hP s a hs.1 hs.2 hen).mp hG⟩
    · intro s a hs hen hG
      exact (hP s a hs.1 hs.2 hen).mp hG
  · intro h
    refine h.strengthen (I := fun s => I s ∧ P s) ⟨h₀, hP₀⟩ ?_ ?_
    · intro s a hs hen hnext
      exact ⟨hI s a hs.1 hen, hnext⟩
    · intro s a hs hen hnext
      exact (hP s a hs.1 hs.2 hen).mpr hnext

/-- The steps `f` takes along the labels all meet `P`, read on the state before the step. -/
def Along (f : σ → α → σ) (P : σ → α → Prop) : σ → List α → Prop
  | _, [] => True
  | s, a :: l => P s a ∧ Along f P (f s a) l

theorem along_congr {f : σ → α → σ} {P Q : σ → α → Prop} (h : ∀ s a, P s a ↔ Q s a) :
    Along f P s l ↔ Along f Q s l := by
  induction l generalizing s with
  | nil => rfl
  | cons a l ih => rw [Along, Along, h, ih]

theorem Along.foldl {f : σ → α → σ} {P : σ → α → Prop} {I : σ → Prop} (h : Along f P s l)
    (h₀ : I s) (hstep : ∀ s a, P s a → I s → I (f s a)) : I (l.foldl f s) := by
  induction l generalizing s with
  | nil => exact h₀
  | cons a l ih => exact ih h.2 (hstep s a h.1 h₀)

/-- The last value the labels write, where `w` says what each writes. -/
def lastWrite {β : Type*} (w : α → Option β) (l : List α) : Option β := (l.filterMap w).getLast?

variable {β : Type*} {w : α → Option β}

@[simp] theorem lastWrite_nil : lastWrite w [] = none := rfl

@[simp] theorem lastWrite_concat : lastWrite w (l ++ [a]) = (w a).or (lastWrite w l) := by
  rw [lastWrite, List.filterMap_append, List.getLast?_append]
  cases h : w a with
  | none => simp [h, lastWrite]
  | some v => simp [h]

theorem mem_of_lastWrite {v : β} (h : lastWrite w l = some v) : ∃ a ∈ l, w a = some v :=
  List.mem_filterMap.mp (List.mem_of_getLast? h)

theorem exists_lastWrite {v : β} (ha : a ∈ l) (h : w a = some v) : ∃ u, lastWrite w l = some u :=
  ⟨_, List.getLast?_eq_some_getLast (List.ne_nil_of_mem (List.mem_filterMap.mpr ⟨a, ha, h⟩))⟩

/-- What relates the last write to the state, read off one step. -/
theorem Run.lastWrite {P : Option β → σ → Prop} (h : Run M G s₀ l s) (h₀ : P none s₀)
    (hstep : ∀ o s a, P o s → M.enabled s a → P ((w a).or o) (M.next s a)) :
    P (lastWrite w l) s := by
  induction h with
  | nil => exact h₀
  | snoc _ hen _ ih =>
      rw [lastWrite_concat]
      exact hstep _ _ _ ih hen

/-- What the labels of a run and its state keep to, read off one step. -/
theorem Run.history {P : List α → σ → Prop} (h : Run M G s₀ l s) (h₀ : P [] s₀)
    (hstep : ∀ l s a, Run M G s₀ l s → P l s → M.enabled s a → P (l ++ [a]) (M.next s a)) :
    P l s := by
  induction h with
  | nil => exact h₀
  | snoc h hen _ ih => exact hstep _ _ _ h ih hen

/-- A step of the run met `P`, read on the state before it. -/
def Once (M : System σ α) (G : σ → α → Prop) (s₀ : σ) (l : List α) (P : σ → α → Prop) : Prop :=
  ∃ l₁ s₁ a l₂, l = l₁ ++ a :: l₂ ∧ Run M G s₀ l₁ s₁ ∧ P s₁ a

theorem Once.append {P : σ → α → Prop} (h : Once M G s₀ l P) (m : List α) :
    Once M G s₀ (l ++ m) P := by
  obtain ⟨l₁, s₁, a, l₂, rfl, hrun, hP⟩ := h
  exact ⟨l₁, s₁, a, l₂ ++ m, by rw [List.append_assoc, List.cons_append], hrun, hP⟩

theorem Run.once {P : σ → α → Prop} (h : Run M G s₀ l s) (hP : P s a) :
    Once M G s₀ (l ++ [a]) P :=
  ⟨l, s, a, [], rfl, h, hP⟩

/-- The system of a partial step function. -/
def ofStep (step : σ → α → Option σ) : System σ α where
  enabled s a := (step s a).isSome = true
  next s a := (step s a).getD s

theorem ofStep_next {step : σ → α → Option σ} (h : (ofStep step).enabled s a) :
    step s a = some ((ofStep step).next s a) := by
  obtain ⟨s', hs'⟩ := Option.isSome_iff_exists.mp h
  have hnext : (ofStep step).next s a = (step s a).getD s := rfl
  rw [hnext, hs']
  rfl

instance (step : σ → α → Option σ) : ∀ s a, Decidable ((ofStep step).enabled s a) :=
  fun s a => inferInstanceAs (Decidable ((step s a).isSome = true))

/-- Executing the labels one after another, while they are enabled and meet the guard. -/
def exec (M : System σ α) (G : σ → α → Prop) [∀ s a, Decidable (M.enabled s a)]
    [∀ s a, Decidable (G s a)] (s : σ) : List α → Option σ
  | [] => some s
  | a :: l => if M.enabled s a ∧ G s a then exec M G (M.next s a) l else none

theorem run_of_exec [∀ s a, Decidable (M.enabled s a)] [∀ s a, Decidable (G s a)] :
    ∀ {l : List α} {s₀ : σ}, (exec M G s₀ l).isSome → Run M G s₀ l (l.foldl M.next s₀)
  | [], _, _ => .nil
  | a :: l, s₀, h => by
      by_cases hg : M.enabled s₀ a ∧ G s₀ a
      · rw [exec, if_pos hg] at h
        exact .cons hg.1 hg.2 (run_of_exec h)
      · rw [exec, if_neg hg] at h
        cases h

instance : ∀ (s : σ) (a : α), Decidable (free s a) := fun _ _ => .isTrue trivial

end Lts
