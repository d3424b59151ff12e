import MediaScanMonitor.Library.Double
import MediaScanMonitor.Library.Str
import MediaScanMonitor.Library.Window
import Mathlib.Algebra.Order.Ring.Rat

/-!
# Web — `web/ratelimit.py`

`_failures` maps a key that is not there to `[]`: `_prune` removes a key it leaves no time of.  A
clock reading is an argument of the function that makes it.  Times are doubles, and a cutoff is a
rounded difference; over the rationals the same code has an exact one.

* `map_val_recent`: the two keep the same times, as long as no cutoff rounds onto one.
* `unbroken_of_window`: with the windows of the application none does.
-/

namespace MediaScanMonitor
open Py

structure LoginRateLimiter (T : Type) [OfNat T 300] where
  maxAttempts : Nat := 5
  windowSeconds : T := 300

abbrev Failures (T : Type) := Str → List T

namespace LoginRateLimiter

section
variable {T : Type} [LinearOrder T] [Sub T] [OfNat T 300] (limiter : LoginRateLimiter T)
  (failures : Failures T) (key : Str)

/-- What `_prune` returns. -/
def recent (now : T) : List T := (failures key).filter fun t => now - limiter.windowSeconds < t

/-- What `_prune` leaves. -/
def prune (now : T) : Failures T := Function.update failures key (limiter.recent failures key now)

def allowed (now : T) : Bool := (limiter.recent failures key now).length < limiter.maxAttempts

/-- `record_failure`: the clock is read twice. -/
def recordFailure (now now' : T) : Failures T :=
  Function.update failures key (limiter.recent failures key now ++ [now'])

def reset : Failures T := Function.update failures key []

theorem length_recent (now : T) : (limiter.recent failures key now).length =
    Window.after (failures key) (now - limiter.windowSeconds) :=
  Window.length_filter _ _

variable {limiter failures key} {key' : Str} {now now' y : T}

/-- Pruning loses nothing of the window, for any key. -/
theorem after_prune (h : now - limiter.windowSeconds ≤ y) :
    Window.after (limiter.prune failures key now key') y = Window.after (failures key') y := by
  by_cases hkey : key' = key
  · subst hkey
    rw [prune, Function.update_self]
    exact Window.after_filter h
  · rw [prune, Function.update_of_ne hkey]

omit [Sub T] [OfNat T 300] in
/-- One more time for one key. -/
theorem after_update (times : Str → List T) (ts : List T) (t : T) :
    Window.after (Function.update times key (ts ++ [t]) key') y =
      Window.after (Function.update times key ts key') y +
        if key = key' ∧ y < t then 1 else 0 := by
  by_cases hkey : key = key'
  · subst hkey
    rw [Function.update_self, Function.update_self, Window.after_append, Window.after_singleton]
    simp
  · rw [Function.update_of_ne (Ne.symm hkey), Function.update_of_ne (Ne.symm hkey)]
    simp [hkey]

theorem after_recordFailure (h : now - limiter.windowSeconds ≤ y) :
    Window.after (limiter.recordFailure failures key now now' key') y =
      Window.after (failures key') y + if key = key' ∧ y < now' then 1 else 0 := by
  rw [recordFailure, after_update, ← prune, after_prune h]

end

/-! ### Cutoffs that are rounded -/

/-- The limiter that computes with the rationals. -/
def exact (limiter : LoginRateLimiter Double) : LoginRateLimiter ℚ where
  maxAttempts := limiter.maxAttempts
  windowSeconds := limiter.windowSeconds.val

/-- The times of a key, as rationals. -/
def exactly (times : Str → List Double) (key : Str) : List ℚ := (times key).map Subtype.val

variable (limiter : LoginRateLimiter Double) (failures : Failures Double) (key : Str)

/-- The cutoff does not round onto a time that is kept for the key. -/
def Unbroken (now : Double) : Prop :=
  ∀ t ∈ failures key, Double.Clear now limiter.windowSeconds t

instance (now : Double) : Decidable (limiter.Unbroken failures key now) :=
  inferInstanceAs (Decidable (∀ t ∈ failures key, _))

variable {limiter failures key} {now now' : Double} {exactFailures : Failures ℚ}

/-- Where no cutoff breaks the window, `_prune` keeps what is in it. -/
theorem map_val_recent (h : limiter.Unbroken failures key now)
    (hexact : exactFailures key = exactly failures key) :
    (limiter.recent failures key now).map Subtype.val =
      limiter.exact.recent exactFailures key now.val := by
  rw [recent, recent, hexact, exactly, List.filter_map]
  refine congrArg _ (List.filter_congr fun t ht => ?_)
  exact decide_eq_decide.mpr (Double.sub_lt_iff (h t ht))

/-- **The windows of the application break nothing**: they are multiples of four seconds, and the
clock has not gone on for `2 ^ 55` seconds. -/
theorem unbroken_of_window {n : ℕ} (hwindow : limiter.windowSeconds.val = 4 * n)
    (hnow : 0 ≤ now.val ∧ now.val < 2 ^ 55) (hpast : ∀ t ∈ failures key, 0 ≤ t.val) :
    limiter.Unbroken failures key now := by
  intro t ht
  refine @Double.clear_of_mul _ _ _ n 2 (hpast t ht) ?_ ?_ ?_
  · rw [hwindow]
    push_cast
    ring
  · rw [hwindow]
    positivity
  · rcases hnow.1.eq_or_lt with hzero | hpos
    · rw [← hzero]
      decide +kernel
    · refine Binary64.ulpExp_le hpos.ne' ?_ (by norm_num)
      rw [abs_of_pos hpos]
      exact_mod_cast hnow.2

end LoginRateLimiter

end MediaScanMonitor
