import MediaScanMonitor.Library.Retry
import MediaScanMonitor.Library.Str
import Mathlib.Data.ENat.Lattice

/-!
# Servers — `servers/http.py`

`request_with_retry`, over what the requests of one call come to: a response of some status, or an
exception.  `AsyncRetrying` with `reraise` is `Retry.stopAfter`: the exception of the last attempt
leaves the loop.

* `requests_eq`: how many requests are sent.
* `ending_eq`: the call ends as the last of them.
* `retry_contract`: both, told by the first outcome that is worth no retry.
-/

namespace MediaScanMonitor
open Py

structure Response where
  statusCode : Int
  deriving DecidableEq

/-- `is_success`. -/
def Response.isSuccess (r : Response) : Bool := 200 ≤ r.statusCode && r.statusCode ≤ 299

/-- A 5xx. -/
def Response.isServerError (r : Response) : Bool := 500 ≤ r.statusCode && r.statusCode < 600

/-- The classes that some `except` tells apart; `cancelledError` is no `Exception`. -/
inductive ErrorClass where
  | transportError | httpError | templateError | valueError | otherException | cancelledError
  deriving DecidableEq

/-- An exception object. -/
structure Raised where
  cls : ErrorClass
  /-- `type(exc).__name__`. -/
  name : Str
  /-- `str(exc)`. -/
  text : Str
  repr : Str
  deriving DecidableEq

/-- What a request comes to. -/
inductive Outcome where
  | response (r : Response)
  | raised (e : Raised)
  deriving DecidableEq

/-- What leaves the body of the loop other than by `return`; `retryableStatus` is
`_RetryableStatus`. -/
inductive Failure where
  | exception (e : Raised)
  | retryableStatus (r : Response)
  deriving DecidableEq

/-- `_is_retryable`. -/
def isRetryable : Failure → Bool
  | .exception e => e.cls = .transportError
  | .retryableStatus _ => true

/-- How a call of `request_with_retry` ends. -/
inductive Ending where
  | returned (r : Response)
  | raised (e : Raised)
  | assertionError
  deriving DecidableEq

structure Exchange where
  /-- The requests that were sent. -/
  requests : Nat
  ending : Ending
  deriving DecidableEq

/-- The body of the loop: `none` where it comes to its end without a `return`. -/
def attempt (client : Nat → Outcome) (n : Nat) : Except Failure (Option Response) :=
  match client n with
  | .raised e => .error (.exception e)
  | .response response =>
    if 500 ≤ response.statusCode ∧ response.statusCode < 600 then
      .error (.retryableStatus response)
    else .ok (some response)

/-- `request_with_retry`. -/
def requestWithRetry (client : Nat → Outcome) (attempts : Int) : Exchange :=
  let n := (Retry.stopAfter attempts isRetryable).last (attempt client)
  { requests := n
    ending :=
      match attempt client n with
      | .ok (some response) => .returned response
      -- The loop is over, and the `raise` below it is reached.
      | .ok none => .assertionError
      | .error (.retryableStatus response) => .returned response
      | .error (.exception e) => .raised e }

/-! ### The contract -/

/-- Neither a transport error nor a 5xx. -/
def Outcome.isConclusive : Outcome → Bool
  | .response r => !r.isServerError
  | .raised e => e.cls ≠ .transportError

/-- The response is returned, the exception is raised. -/
def Outcome.ending : Outcome → Ending
  | .response r => .returned r
  | .raised e => .raised e

/-- The number of the first conclusive outcome. -/
noncomputable def firstConclusive (client : Nat → Outcome) : ℕ∞ :=
  ⨅ n : { n : Nat // 1 ≤ n ∧ (client n).isConclusive = true }, (n : ℕ∞)

variable {client : Nat → Outcome} {attempts : Int} {k : Nat}

theorem isServerError_eq_true {r : Response} :
    r.isServerError = true ↔ 500 ≤ r.statusCode ∧ r.statusCode < 600 := by
  simp [Response.isServerError]

theorem again_stopAfter (client : Nat → Outcome) (attempts : Int) (n : Nat) :
    (Retry.stopAfter attempts isRetryable).again (attempt client) n = true ↔
      (client n).isConclusive = false ∧ (n : Int) < attempts := by
  rw [Retry.Policy.again, attempt]
  cases client n with
  | raised e => simp [isRetryable, Outcome.isConclusive, Retry.stopAfter]
  | response r =>
      simp only [Outcome.isConclusive, ← isServerError_eq_true]
      by_cases h : r.isServerError = true
      · simp [h, isRetryable, Retry.stopAfter]
      · simp [h]

/-- The call ends as the last request does. -/
theorem ending_eq (client : Nat → Outcome) (attempts : Int) :
    (requestWithRetry client attempts).ending =
      (client (requestWithRetry client attempts).requests).ending := by
  simp only [requestWithRetry, attempt]
  cases client _ with
  | raised e => rfl
  | response r =>
      by_cases h : 500 ≤ r.statusCode ∧ r.statusCode < 600
      · simp only [h, and_self, ↓reduceIte, Outcome.ending]
      · simp only [h, ↓reduceIte, Outcome.ending]

theorem firstConclusive_le (hk : 1 ≤ k) (h : (client k).isConclusive = true) :
    firstConclusive client ≤ k :=
  iInf_le (fun n : { n : Nat // 1 ≤ n ∧ (client n).isConclusive = true } => (n : ℕ∞)) ⟨k, hk, h⟩

/-- Nothing before the first conclusive outcome is one. -/
theorem not_isConclusive (hk : 1 ≤ k) (h : (k : ℕ∞) < firstConclusive client) :
    (client k).isConclusive = false := by
  by_contra hc
  exact absurd (firstConclusive_le hk (Bool.not_eq_false _ ▸ hc)) (not_le.mpr h)

/-- The first conclusive outcome is one. -/
theorem isConclusive_of_eq (h : firstConclusive client = k) :
    1 ≤ k ∧ (client k).isConclusive = true := by
  have hne : Nonempty { n : Nat // 1 ≤ n ∧ (client n).isConclusive = true } := by
    by_contra hempty
    rw [not_nonempty_iff] at hempty
    rw [firstConclusive, iInf_of_empty] at h
    cases h
  obtain ⟨⟨n, hn⟩, he⟩ := ENat.exists_eq_iInf
    fun n : { n : Nat // 1 ≤ n ∧ (client n).isConclusive = true } => (n : ℕ∞)
  rw [firstConclusive, ← he, Nat.cast_inj] at h
  exact h ▸ hn

theorem one_le_firstConclusive (client : Nat → Outcome) : 1 ≤ firstConclusive client :=
  le_iInf fun n => by exact_mod_cast n.2.1

/-- The requests go on up to the first conclusive outcome, within the attempts there are. -/
theorem requests_eq (client : Nat → Outcome) (attempts : Int) :
    ((requestWithRetry client attempts).requests : ℕ∞) =
      min (firstConclusive client) (max 1 attempts).toNat := by
  have hcast : ((min (firstConclusive client) (max 1 attempts).toNat).toNat : ℕ∞) =
      min (firstConclusive client) (max 1 attempts).toNat :=
    ENat.natCast_toNat (ne_top_of_le_ne_top (ENat.natCast_ne_top _) (min_le_right _ _))
  generalize (min (firstConclusive client) (max 1 attempts).toNat).toNat = k at hcast
  have hone : 1 ≤ k := by
    have hle : (1 : ℕ∞) ≤ k := by
      rw [hcast]
      refine le_min (one_le_firstConclusive client) ?_
      exact_mod_cast (by omega : 1 ≤ (max 1 attempts).toNat)
    exact_mod_cast hle
  rw [← hcast, Nat.cast_inj]
  refine Retry.Policy.last_eq hone (fun i hi hlt => ?_) ?_
  · have hbelow : (i : ℕ∞) < min (firstConclusive client) (max 1 attempts).toNat := by
      rw [← hcast]
      exact_mod_cast hlt
    rw [lt_min_iff, Nat.cast_lt] at hbelow
    exact (again_stopAfter client attempts i).mpr
      ⟨not_isConclusive hi hbelow.1, by omega⟩
  · rw [← Bool.not_eq_true, again_stopAfter]
    rintro ⟨hno, hlt⟩
    have hm : k < (max 1 attempts).toNat := by omega
    have hfirst : firstConclusive client = k := by
      rcases min_choice (firstConclusive client) ((max 1 attempts).toNat : ℕ∞) with h | h
      · rw [hcast, h]
      · rw [h, Nat.cast_inj] at hcast
        omega
    rw [(isConclusive_of_eq hfirst).2] at hno
    cases hno

/-- **The retry contract.** -/
theorem retry_contract (client : Nat → Outcome) (attempts : Int) :
    let k := firstConclusive client
    let m := (max 1 attempts).toNat
    ((requestWithRetry client attempts).requests : ℕ∞) = min k m ∧
      (∀ n : Nat, k = n → k ≤ m →
        match client n with
        | .response r => (requestWithRetry client attempts).ending = .returned r
        | .raised e => (requestWithRetry client attempts).ending = .raised e) ∧
      (m < k →
        match client m with
        | .response r => r.isServerError = true ∧
            (requestWithRetry client attempts).ending = .returned r
        | .raised e => e.cls = .transportError ∧
            (requestWithRetry client attempts).ending = .raised e) ∧
      (requestWithRetry client attempts).ending ≠ .assertionError := by
  intro k m
  have hreq : ((requestWithRetry client attempts).requests : ℕ∞) = min k m :=
    requests_eq client attempts
  have hend := ending_eq client attempts
  refine ⟨hreq, fun n hn hle => ?_, fun hlt => ?_, ?_⟩
  · rw [min_eq_left hle, hn, Nat.cast_inj] at hreq
    rw [hend, hreq]
    cases client n with
    | response r => rfl
    | raised e => rfl
  · have hone : 1 ≤ m := by omega
    have hno : (client m).isConclusive = false := not_isConclusive hone hlt
    rw [min_eq_right hlt.le, Nat.cast_inj] at hreq
    rw [hend, hreq]
    cases hm : client m with
    | response r =>
        rw [hm] at hno
        exact ⟨by simpa [Outcome.isConclusive] using hno, rfl⟩
    | raised e =>
        rw [hm] at hno
        exact ⟨by simpa [Outcome.isConclusive] using hno, rfl⟩
  · rw [hend]
    cases client _ <;> exact nofun

end MediaScanMonitor
