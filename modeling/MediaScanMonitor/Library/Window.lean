import Mathlib.Algebra.Order.Group.Defs
import Mathlib.Order.Basic

/-!
# Library — sliding windows

Times are recorded one after another, none before the last.  A log is *paced* if, whenever a time
was added, the window that ends there held at most `n` times.

* `Paced.Ico`, `Paced.Ioc`: then every half-open interval as long as the window does.
-/

namespace Window

variable {T : Type*} [LinearOrder T] {w a b t : T} {n : Nat} {ts us : List T}

/-- How many of the times come after the cutoff. -/
def after (ts : List T) (cutoff : T) : Nat := ts.countP fun t => cutoff < t

@[simp] theorem after_nil : after [] a = 0 := rfl

@[simp] theorem after_append : after (ts ++ us) a = after ts a + after us a := List.countP_append

theorem after_singleton : after [t] a = if a < t then 1 else 0 := by
  simp [after, List.countP_cons]

theorem after_anti (ts : List T) (h : a ≤ b) : after ts b ≤ after ts a :=
  List.countP_mono_left fun t _ => by simpa using h.trans_lt

/-- Dropping the times up to a cutoff loses none after a later one. -/
theorem after_filter (h : a ≤ b) : after (ts.filter fun t => a < t) b = after ts b := by
  rw [after, after, List.countP_filter]
  exact List.countP_congr fun t _ => by simpa using h.trans_lt

theorem length_filter (ts : List T) (a : T) : (ts.filter fun t => a < t).length = after ts a :=
  List.countP_eq_length_filter.symm

variable [AddCommGroup T]

/-- The window of length `w` that ends in each time held at most `n` up to then. -/
inductive Paced (w : T) (n : Nat) : List T → Prop where
  | nil : Paced w n []
  | snoc {ts : List T} {t : T} (h : Paced w n ts) (hle : ∀ u ∈ ts, u ≤ t)
      (hn : after (ts ++ [t]) (t - w) ≤ n) : Paced w n (ts ++ [t])

/-- A paced log, for any kind of interval that holds nothing a window before its own times. -/
theorem Paced.countP_le {I : T → Bool} (h : Paced w n ts)
    (hI : ∀ u t, I u = true → I t = true → t - w < u) : ts.countP I ≤ n := by
  induction h with
  | nil => exact Nat.zero_le _
  | @snoc ts t _ _ hn ih =>
      cases ht : I t with
      | false => simpa [List.countP_append, List.countP_cons, ht] using ih
      | true =>
          refine le_trans (List.countP_mono_left fun u _ hu => ?_) hn
          exact decide_eq_true (hI u t hu ht)

variable [IsOrderedAddMonoid T]

theorem Paced.Ico (h : Paced w n ts) (x : T) : ts.countP (fun t => x ≤ t ∧ t < x + w) ≤ n := by
  refine h.countP_le fun u t hu ht => ?_
  simp only [decide_eq_true_eq] at hu ht
  exact (sub_lt_iff_lt_add.mpr ht.2).trans_le hu.1

theorem Paced.Ioc (h : Paced w n ts) (x : T) : ts.countP (fun t => x < t ∧ t ≤ x + w) ≤ n := by
  refine h.countP_le fun u t hu ht => ?_
  simp only [decide_eq_true_eq] at hu ht
  exact (sub_le_iff_le_add.mpr ht.2).trans_lt hu.1

end Window
