import Mathlib.Order.Nat
import Mathlib.Tactic.ByContra

/-!
# Library — retrying

A body is attempted with the number of the attempt, over and over, while it fails with an error
that is worth another attempt and the policy does not stop.

* `again_of_lt_last`, `not_again_last`: every attempt but the last one is followed by another.
* `last_eq`: which tells the last one.
-/

namespace Retry

structure Policy (ε : Type*) where
  /-- The error is worth another attempt. -/
  retry : ε → Bool
  /-- The attempt of this number is the last one in any case. -/
  stop : Nat → Bool
  bound : Nat
  stop_of_le : ∀ n, bound ≤ n → stop n = true

namespace Policy
variable {ε β : Type*} (p : Policy ε) (body : Nat → Except ε β)

/-- There is an attempt after the one of this number. -/
def again (n : Nat) : Bool :=
  match body n with
  | .ok _ => false
  | .error e => p.retry e && !p.stop n

theorem again_eq_true {n : Nat} :
    p.again body n = true ↔ (∃ e, body n = .error e ∧ p.retry e = true) ∧ p.stop n = false := by
  rw [again]
  cases body n with
  | ok _ => simp
  | error e => simp

theorem lt_bound_of_again {n : Nat} (h : p.again body n = true) : n < p.bound := by
  by_contra hle
  have hstop := p.stop_of_le n (not_lt.mp hle)
  rw [((p.again_eq_true body).mp h).2] at hstop
  cases hstop

/-- The last attempt, from the one of this number on. -/
def lastFrom (n : Nat) : Nat := if p.again body n = true then lastFrom (n + 1) else n
termination_by p.bound - n
decreasing_by
  have := p.lt_bound_of_again body (by assumption)
  omega

/-- The last attempt. -/
def last : Nat := p.lastFrom body 1

variable {p body}

theorem le_lastFrom (n : Nat) : n ≤ p.lastFrom body n := by
  fun_induction lastFrom p body n with
  | case1 n _ ih => omega
  | case2 n _ => exact le_rfl

theorem again_of_lt_lastFrom {n i : Nat} (hle : n ≤ i) (hlt : i < p.lastFrom body n) :
    p.again body i = true := by
  fun_induction lastFrom p body n with
  | case1 n h ih =>
      rcases hle.eq_or_lt with rfl | hlt'
      · exact h
      · exact ih hlt' hlt
  | case2 n _ => omega

theorem not_again_lastFrom (n : Nat) : p.again body (p.lastFrom body n) = false := by
  fun_induction lastFrom p body n with
  | case1 n _ ih => exact ih
  | case2 n h => exact Bool.not_eq_true _ ▸ h

theorem one_le_last : 1 ≤ p.last body := le_lastFrom 1

theorem again_of_lt_last {i : Nat} (hle : 1 ≤ i) (hlt : i < p.last body) :
    p.again body i = true := again_of_lt_lastFrom hle hlt

theorem not_again_last : p.again body (p.last body) = false := not_again_lastFrom 1

/-- **The last attempt** is the first one that no other follows. -/
theorem last_eq {k : Nat} (hk : 1 ≤ k) (hbefore : ∀ i, 1 ≤ i → i < k → p.again body i = true)
    (hlast : p.again body k = false) : p.last body = k := by
  rcases lt_trichotomy (p.last body) k with hlt | heq | hgt
  · have hagain := hbefore _ one_le_last hlt
    rw [not_again_last] at hagain
    cases hagain
  · exact heq
  · rw [again_of_lt_last hk hgt] at hlast
    cases hlast

end Policy

/-- At most so many attempts, and one at least. -/
def stopAfter {ε : Type*} (attempts : Int) (retry : ε → Bool) : Policy ε where
  retry := retry
  stop n := attempts ≤ n
  bound := attempts.toNat
  stop_of_le n h := by
    rw [decide_eq_true_eq]
    omega

end Retry
