import Mathlib.Data.List.Basic
import Mathlib.Data.List.Induction
import Mathlib.Data.Set.Basic

/-!
# Library — sets edited step by step

An edit drops some elements of a set and then adds some.  A sequence of edits from the empty set
leaves the elements whose last addition no later edit drops (`mem_run`).

`run_eq_iff` compares the result with a target every element of which is added at some point: the
two are equal exactly when no target element is dropped for good (`Restored`) and everything else
that is added is dropped again (`Cleared`).
-/

/-- An edit of a set: what it drops, and what it adds afterwards. -/
structure Edit (α : Type*) where
  drop : Set α
  add : Set α

namespace Edit
variable {α : Type*} {es : List (Edit α)} {x : α} {T : Set α}

def apply (s : Set α) (e : Edit α) : Set α := s \ e.drop ∪ e.add

/-- What a sequence of edits leaves, from the empty set. -/
def run (es : List (Edit α)) : Set α := es.foldl apply ∅

theorem mem_apply {s : Set α} {e : Edit α} : x ∈ apply s e ↔ (x ∈ s ∧ x ∉ e.drop) ∨ x ∈ e.add :=
  Iff.rfl

@[simp] theorem run_nil : run ([] : List (Edit α)) = ∅ := rfl

@[simp] theorem run_concat (es : List (Edit α)) (e : Edit α) :
    run (es ++ [e]) = apply (run es) e := by
  rw [run, List.foldl_append]; rfl

/-- **What is left**: what an edit adds and no later one drops. -/
theorem mem_run : x ∈ run es ↔
    ∃ pre e post, es = pre ++ e :: post ∧ x ∈ e.add ∧ ∀ e' ∈ post, x ∉ e'.drop := by
  induction es using List.reverseRecOn with
  | nil => simp
  | append_singleton es d ih =>
      rw [run_concat, mem_apply, ih]
      constructor
      · rintro (⟨⟨pre, e, post, rfl, hadd, hpost⟩, hd⟩ | hadd)
        · refine ⟨pre, e, post ++ [d], by simp, hadd, fun e' he' => ?_⟩
          rcases List.mem_append.mp he' with he' | he'
          · exact hpost e' he'
          · rwa [List.mem_singleton.mp he']
        · exact ⟨es, d, [], rfl, hadd, by simp⟩
      · rintro ⟨pre, e, post, heq, hadd, hpost⟩
        rcases List.eq_nil_or_concat' post with rfl | ⟨post, e', rfl⟩
        · obtain ⟨-, hde⟩ := List.append_inj' heq rfl
          cases hde
          exact .inr hadd
        · rw [show pre ++ e :: (post ++ [e']) = pre ++ e :: post ++ [e'] by simp] at heq
          obtain ⟨rfl, hde⟩ := List.append_inj' heq rfl
          cases hde
          exact .inl ⟨⟨pre, e, post, rfl, hadd, fun e' he' => hpost e' (by simp [he'])⟩,
            hpost _ (by simp)⟩

/-- The last element with a property splits a list. -/
theorem exists_last {β : Type*} {P : β → Prop} {l : List β} (h : ∃ b ∈ l, P b) :
    ∃ pre b post, l = pre ++ b :: post ∧ P b ∧ ∀ c ∈ post, ¬ P c := by
  induction l with
  | nil => simp at h
  | cons a l ih =>
      by_cases hl : ∃ b ∈ l, P b
      · obtain ⟨pre, b, post, rfl, hb, hpost⟩ := ih hl
        exact ⟨a :: pre, b, post, rfl, hb, hpost⟩
      · obtain ⟨b, hb, hP⟩ := h
        refine ⟨[], a, l, rfl, ?_, fun c hc hPc => hl ⟨c, hc, hPc⟩⟩
        rcases List.mem_cons.mp hb with rfl | hb
        · exact hP
        · exact absurd ⟨b, hb, hP⟩ hl

/-- An edit that drops an element of `T` adds it again, or a later one does. -/
def Restored (es : List (Edit α)) (T : Set α) : Prop :=
  ∀ x ∈ T, ∀ pre e post, es = pre ++ e :: post → x ∈ e.drop → ∃ e' ∈ e :: post, x ∈ e'.add

/-- What an edit adds outside `T`, a later one drops. -/
def Cleared (es : List (Edit α)) (T : Set α) : Prop :=
  ∀ x ∉ T, ∀ pre e post, es = pre ++ e :: post → x ∈ e.add → ∃ e' ∈ post, x ∈ e'.drop

/-- **When a sequence of edits ends at a target** that it adds piece by piece. -/
theorem run_eq_iff (hT : ∀ x ∈ T, ∃ e ∈ es, x ∈ e.add) :
    run es = T ↔ Restored es T ∧ Cleared es T := by
  constructor
  · rintro h
    refine ⟨fun x hx pre e post heq hdrop => ?_, fun x hx pre e post heq hadd => ?_⟩
    · obtain ⟨pre', e', post', heq', hadd, hpost⟩ := mem_run.mp (h ▸ hx)
      -- the surviving addition does not come before the drop
      rw [heq] at heq'
      rcases List.append_eq_append_iff.mp heq' with ⟨t, -, ht⟩ | ⟨t, -, ht⟩
      · exact ⟨e', by rw [ht]; simp, hadd⟩
      · cases t with
        | nil =>
            cases ht
            exact ⟨e, by simp, hadd⟩
        | cons c t =>
            cases ht
            exact absurd hdrop (hpost e (by simp))
    · by_contra hno
      push Not at hno
      exact hx (h ▸ mem_run.mpr ⟨pre, e, post, heq, hadd, hno⟩)
  · rintro ⟨hres, hclr⟩
    ext x
    constructor
    · intro hx
      obtain ⟨pre, e, post, heq, hadd, hpost⟩ := mem_run.mp hx
      by_contra hno
      obtain ⟨e', he', hdrop⟩ := hclr x hno pre e post heq hadd
      exact hpost e' he' hdrop
    · intro hx
      obtain ⟨pre, e, post, heq, hadd, hlast⟩ := exists_last (hT x hx)
      refine mem_run.mpr ⟨pre, e, post, heq, hadd, fun e' he' hdrop => ?_⟩
      obtain ⟨pre', post', rfl⟩ := List.append_of_mem he'
      obtain ⟨e'', he'', hadd'⟩ := hres x hx (pre ++ e :: pre') e' post' (by simp [heq]) hdrop
      exact hlast e'' (List.mem_append_right _ he'') hadd'

end Edit
