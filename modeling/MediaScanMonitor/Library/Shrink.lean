import Mathlib.Algebra.Order.BigOperators.Group.Finset
import Mathlib.Algebra.Order.BigOperators.Group.List

/-!
# Library — maps that shrink what they change

A map that makes smaller, by some measure, whatever it changes.  It cannot make up for one item in
another: where it leaves a list or a set alone as a whole, it leaves every item alone.

* `KeptIff`: what becomes of one item, and when it is kept.
* `perm_map_iff`: lists, up to their order.
* `biUnion_eq_iff`: sets, where an item may become several.
-/

namespace Shrink

section Item
variable {α : Type*} {μ : α → ℕ} {k : Prop} {x y : α}

/-- `y` is `x` if `k` holds, and smaller if it does not. -/
inductive KeptIff (μ : α → ℕ) (k : Prop) (x y : α) : Prop where
  | kept (hk : k) (h : y = x)
  | shrunk (hk : ¬ k) (h : μ y < μ x)

theorem KeptIff.intro (hk : y = x ↔ k) (h : y = x ∨ μ y < μ x) : KeptIff μ k x y := by
  by_cases heq : y = x
  · exact .kept (hk.mp heq) heq
  · exact .shrunk (fun hyes => heq (hk.mpr hyes)) (h.resolve_left heq)

theorem KeptIff.refl (μ : α → ℕ) (x : α) : KeptIff μ True x x := .kept trivial rfl

theorem KeptIff.eq_iff (h : KeptIff μ k x y) : y = x ↔ k := by
  cases h with
  | kept hk h => exact iff_of_true h hk
  | shrunk hk h =>
      refine iff_of_false ?_ hk
      rintro rfl
      exact lt_irrefl _ h

theorem KeptIff.eq_or_lt (h : KeptIff μ k x y) : y = x ∨ μ y < μ x := by
  cases h with
  | kept _ h => exact .inl h
  | shrunk _ h => exact .inr h

end Item

section List
variable {α β : Type*} {f g : α → β} {l : List α}

/-- **On lists**: `g` makes what `f` makes, or something smaller. -/
theorem perm_map_iff (μ : β → ℕ) (h : ∀ x ∈ l, g x = f x ∨ μ (g x) < μ (f x)) :
    (l.map g).Perm (l.map f) ↔ ∀ x ∈ l, g x = f x := by
  constructor
  · intro hperm
    by_contra hno
    simp only [not_forall] at hno
    obtain ⟨x, hx, hne⟩ := hno
    have hle : ∀ y ∈ l, μ (g y) ≤ μ (f y) := by
      intro y hy
      rcases h y hy with heq | hlt
      · rw [heq]
      · exact hlt.le
    have hsum : (l.map fun y => μ (g y)).sum < (l.map fun y => μ (f y)).sum :=
      List.sum_lt_sum _ _ hle ⟨x, hx, (h x hx).resolve_left hne⟩
    have heq := (hperm.map μ).sum_eq
    rw [List.map_map, List.map_map] at heq
    exact hsum.ne heq
  · intro heq
    rw [List.map_congr_left heq]

/-- Item by item. -/
theorem perm_map_iff_of_kept {μ : β → ℕ} {k : α → Prop}
    (h : ∀ x ∈ l, KeptIff μ (k x) (f x) (g x)) : (l.map g).Perm (l.map f) ↔ ∀ x ∈ l, k x := by
  rw [perm_map_iff μ fun x hx => (h x hx).eq_or_lt]
  exact forall₂_congr fun x hx => (h x hx).eq_iff

end List

section Finset
variable {α : Type*} [DecidableEq α] {μ : α → ℕ} {g : α → Finset α} {s : Finset α}

theorem sum_biUnion_le (μ : α → ℕ) (s : Finset α) (g : α → Finset α) :
    ∑ y ∈ s.biUnion g, μ y ≤ ∑ x ∈ s, ∑ y ∈ g x, μ y := by
  induction s using Finset.induction_on with
  | empty => simp
  | insert x s hx ih =>
      have hunion : ∑ y ∈ g x ∪ s.biUnion g, μ y + ∑ y ∈ g x ∩ s.biUnion g, μ y =
        ∑ y ∈ g x, μ y + ∑ y ∈ s.biUnion g, μ y := Finset.sum_union_inter
      rw [Finset.biUnion_insert, Finset.sum_insert hx]
      omega

theorem biUnion_eq_self (h : ∀ x ∈ s, g x = {x}) : s.biUnion g = s := by
  rw [Finset.biUnion_congr rfl h, Finset.biUnion_singleton_eq_self]

/-- A set with an item that is changed shrinks. -/
theorem sum_biUnion_lt (h : ∀ x ∈ s, g x = {x} ∨ ∑ y ∈ g x, μ y < μ x) {x : α} (hx : x ∈ s)
    (hne : g x ≠ {x}) : ∑ y ∈ s.biUnion g, μ y < ∑ x ∈ s, μ x := by
  have hle : ∀ y ∈ s, ∑ z ∈ g y, μ z ≤ μ y := by
    intro y hy
    rcases h y hy with heq | hlt
    · rw [heq, Finset.sum_singleton]
    · exact hlt.le
  calc ∑ y ∈ s.biUnion g, μ y
      ≤ ∑ x ∈ s, ∑ y ∈ g x, μ y := sum_biUnion_le μ s g
    _ < ∑ x ∈ s, μ x := Finset.sum_lt_sum hle ⟨x, hx, (h x hx).resolve_left hne⟩

/-- **On sets**: an item becomes itself, or items that are smaller together. -/
theorem biUnion_eq_iff (μ : α → ℕ) (h : ∀ x ∈ s, g x = {x} ∨ ∑ y ∈ g x, μ y < μ x) :
    s.biUnion g = s ↔ ∀ x ∈ s, g x = {x} := by
  constructor
  · intro heq x hx
    by_contra hne
    have hlt := sum_biUnion_lt h hx hne
    rw [heq] at hlt
    exact lt_irrefl _ hlt
  · exact biUnion_eq_self

theorem biUnion_eq_or_sum_lt (h : ∀ x ∈ s, g x = {x} ∨ ∑ y ∈ g x, μ y < μ x) :
    s.biUnion g = s ∨ ∑ y ∈ s.biUnion g, μ y < ∑ x ∈ s, μ x := by
  by_cases hall : ∀ x ∈ s, g x = {x}
  · exact .inl (biUnion_eq_self hall)
  · simp only [not_forall] at hall
    obtain ⟨x, hx, hne⟩ := hall
    exact .inr (sum_biUnion_lt h hx hne)

/-- Item by item. -/
theorem keptIff_biUnion {k : α → Prop}
    (h : ∀ x ∈ s, KeptIff (fun t => ∑ y ∈ t, μ y) (k x) {x} (g x)) :
    KeptIff (fun t => ∑ y ∈ t, μ y) (∀ x ∈ s, k x) s (s.biUnion g) := by
  have hitem : ∀ x ∈ s, g x = {x} ∨ ∑ y ∈ g x, μ y < μ x := by
    intro x hx
    have hx' := (h x hx).eq_or_lt
    rwa [Finset.sum_singleton] at hx'
  refine .intro ?_ (biUnion_eq_or_sum_lt hitem)
  rw [biUnion_eq_iff μ hitem]
  exact forall₂_congr fun x hx => (h x hx).eq_iff

end Finset

end Shrink
