import MediaScanMonitor.Library.Utf8
import MediaScanMonitor.Pipeline.Events
import MediaScanMonitor.Servers.Http

/-!
# Servers — `servers/base.py`

What a trigger of an adapter comes to, and the part that the adapters share: the request is made
with retries, an `httpx.HTTPError` is reported, and the status tells the rest.

* `truthful_sendRequest`: a request is reported as its last attempt.
-/

namespace MediaScanMonitor
open Py

structure TriggerResult where
  ok : Bool
  statusCode : Option Int
  detail : Str
  deriving DecidableEq

/-- The arguments of `client.request`. -/
structure HttpRequest where
  method : Str
  url : Str
  headers : List (Str × Str)
  content : Option (List Byte)
  deriving DecidableEq

/-- A client: what the attempts at a request come to. -/
abbrev Client := HttpRequest → Nat → Outcome

/-- A call of `trigger`. -/
structure Triggered where
  /-- The request that was sent, and how many times. -/
  sent : Option (HttpRequest × Nat)
  result : Except Raised TriggerResult

/-- `str(n)`. -/
def formatInt (n : Int) : Str := str (toString n)

/-- `f"{type(exc).__name__}: {exc}"`, reported without a status. -/
def reportError (exc : Raised) : TriggerResult := ⟨false, none, exc.name ++ str ": " ++ exc.text⟩

/-- An `httpx.HTTPError`. -/
def Raised.isHttpError (exc : Raised) : Bool :=
  exc.cls = .transportError || exc.cls = .httpError

/-- `AssertionError("unreachable")`. -/
def unreachable : Raised :=
  ⟨.otherException, str "AssertionError", str "unreachable", str "AssertionError('unreachable')"⟩

/-- The request is made, and what it comes to is reported. -/
def sendRequest (client : Client) (server : ServerRuntime) (request : HttpRequest)
    (triggered : Str) : Triggered :=
  let exchange := requestWithRetry (client request) server.retryAttempts
  { sent := some (request, exchange.requests)
    result :=
      match exchange.ending with
      | .returned resp =>
        if resp.isSuccess then .ok ⟨true, some resp.statusCode, triggered⟩
        else .ok ⟨false, some resp.statusCode, str "HTTP " ++ formatInt resp.statusCode⟩
      | .raised exc => if exc.isHttpError then .ok (reportError exc) else .error exc
      | .assertionError => .error unreachable }

/-! ### `UnicodeEncodeError` -/

/-- A hexadecimal digit of `\\u%04x`. -/
def lowerHex (n : Nat) : CodePoint := codePoint (if n < 10 then 48 + n else 87 + n)

/-- What `s.encode('utf-8')` raises at the first run of surrogates; `repr` is that of strings. -/
def unicodeEncodeError (repr : Str → Str) (s : Str) : Raised :=
  let start := (s.takeWhile fun c => !isSurrogate c).length
  let run := (s.drop start).takeWhile isSurrogate
  let stop := start + run.length
  { cls := .valueError
    name := str "UnicodeEncodeError"
    text := str "'utf-8' codec can't encode " ++
      (match run with
        | [c] => str "character '\\u" ++ [lowerHex (c.val / 4096), lowerHex (c.val / 256 % 16),
            lowerHex (c.val / 16 % 16), lowerHex (c.val % 16)] ++ str "' in position " ++
            formatInt start
        | _ => str "characters in position " ++ formatInt start ++ str "-" ++
            formatInt (stop - 1)) ++
      str ": surrogates not allowed"
    repr := str "UnicodeEncodeError('utf-8', " ++ repr s ++ str ", " ++ formatInt start ++
      str ", " ++ formatInt stop ++ str ", 'surrogates not allowed')" }

/-! ### What is reported -/

variable {client : Client}

/-- The last attempt at a request. -/
def Triggered.lastOutcome (client : Client) (t : Triggered) : Option Outcome :=
  t.sent.map fun (request, attempts) => client request attempts

/-- The status of a response. -/
def Outcome.statusCode : Outcome → Option Int
  | .response r => some r.statusCode
  | .raised _ => none

def Outcome.isSuccess : Outcome → Bool
  | .response r => r.isSuccess
  | .raised _ => false

/-- What a trigger may come to: it reports its last attempt, or raises an exception that the last
attempt has raised, or that is no cancellation where nothing was sent. -/
structure Triggered.Truthful (client : Client) (t : Triggered) : Prop where
  ok : ∀ result, t.result = .ok result → result.ok = (t.lastOutcome client).any Outcome.isSuccess
  statusCode : ∀ result, t.result = .ok result →
    result.statusCode = (t.lastOutcome client).bind Outcome.statusCode
  raised : ∀ exc, t.result = .error exc →
    t.lastOutcome client = some (.raised exc) ∨ t.sent = none ∧ exc.cls ≠ .cancelledError

/-- A trigger that reports what its last attempt came to. -/
theorem truthful_ok {sent : Option (HttpRequest × Nat)} {result : TriggerResult}
    (hok : result.ok = (Triggered.lastOutcome client ⟨sent, .ok result⟩).any Outcome.isSuccess)
    (hstatus : result.statusCode =
      (Triggered.lastOutcome client ⟨sent, .ok result⟩).bind Outcome.statusCode) :
    Triggered.Truthful client ⟨sent, .ok result⟩ where
  ok r h := by
    cases h
    exact hok
  statusCode r h := by
    cases h
    exact hstatus
  raised exc h := by cases h

/-- A trigger that raises. -/
theorem truthful_error {sent : Option (HttpRequest × Nat)} {exc : Raised}
    (h : Triggered.lastOutcome client ⟨sent, .error exc⟩ = some (.raised exc) ∨
      sent = none ∧ exc.cls ≠ .cancelledError) :
    Triggered.Truthful client ⟨sent, .error exc⟩ where
  ok r hr := by cases hr
  statusCode r hr := by cases hr
  raised e he := by
    cases he
    exact h

/-- An exception before the request, reported or not. -/
theorem truthful_reportError (exc : Raised) :
    Triggered.Truthful client ⟨none, .ok (reportError exc)⟩ := truthful_ok rfl rfl

theorem truthful_raise {exc : Raised} (h : exc.cls ≠ .cancelledError) :
    Triggered.Truthful client ⟨none, .error exc⟩ := truthful_error (.inr ⟨rfl, h⟩)

/-- **A request that is made** is reported as its last attempt. -/
theorem truthful_sendRequest (client : Client) (server : ServerRuntime) (request : HttpRequest)
    (triggered : Str) : (sendRequest client server request triggered).Truthful client := by
  have hend := ending_eq (client request) server.retryAttempts
  rw [sendRequest]
  generalize requestWithRetry (client request) server.retryAttempts = exchange at hend
  simp only [hend]
  cases hlast : client request exchange.requests with
  | response r =>
      simp only [Outcome.ending]
      by_cases hok : r.isSuccess = true
      · rw [if_pos hok]
        apply truthful_ok
        · simp [Triggered.lastOutcome, hlast, Outcome.isSuccess, hok]
        · simp [Triggered.lastOutcome, hlast, Outcome.statusCode]
      · rw [if_neg hok]
        apply truthful_ok
        · simp [Triggered.lastOutcome, hlast, Outcome.isSuccess, hok]
        · simp [Triggered.lastOutcome, hlast, Outcome.statusCode]
  | raised exc =>
      simp only [Outcome.ending]
      split
      · apply truthful_ok
        · simp [Triggered.lastOutcome, hlast, Outcome.isSuccess, reportError]
        · simp [Triggered.lastOutcome, hlast, Outcome.statusCode, reportError]
      · exact truthful_error (.inl (by simp [Triggered.lastOutcome, hlast]))

end MediaScanMonitor
