import MediaScanMonitor.Servers.Adapters

/-!
# Servers — the tests of the adapters

`test` of an adapter asks whether a server can be reached.  A library server is sent one request of
its own; a webhook the request of an event that has not happened.

* `truthful_test`: a test reports its last attempt.
* `test_congr`: what a test reads of a server.
-/

namespace MediaScanMonitor
open Py

structure TestResult where
  ok : Bool
  detail : Str
  deriving DecidableEq

/-- A call of `test`. -/
structure Tested where
  /-- The request that was sent, and how many times. -/
  sent : Option (HttpRequest × Nat)
  result : Except Raised TestResult

/-- The request of `test`. -/
def Tested.request (t : Tested) : Option HttpRequest := t.sent.map Prod.fst

/-- The one request of a library server. -/
def probe (client : Client) (server : ServerRuntime) (url : Str) (headers : List (Str × Str)) :
    Tested :=
  let sent := sendRequest client { server with retryAttempts := 1 } ⟨str "GET", url, headers, none⟩
    (str "reachable")
  ⟨sent.sent, sent.result.map fun result => ⟨result.ok, result.detail⟩⟩

def PlexAdapter.test (client : Client) (server : ServerRuntime) : Tested :=
  probe client server (rstripOf slash server.baseUrl ++ str "/identity") (headers server)

def EmbyAdapter.test (client : Client) (server : ServerRuntime) : Tested :=
  probe client server (rstripOf slash server.baseUrl ++ str "/System/Info") (headers server)

def JellyfinAdapter.test (client : Client) (server : ServerRuntime) : Tested :=
  probe client server (rstripOf slash server.baseUrl ++ str "/System/Info") (headers server)

def AudiobookshelfAdapter.test (client : Client) (server : ServerRuntime) : Tested :=
  probe client server (rstripOf slash server.baseUrl ++ str "/api/me") (headers server)

namespace WebhookAdapter

/-- The event of a test. -/
def testRequest (server : ServerRuntime) : ScanRequest where
  serverId := server.serverId
  serverName := server.name
  scanMode := server.scanMode
  scanPath := none
  libraryId := none
  scanKey := str "test"
  eventType := .created
  filePath := str "/__msm_test__"
  topFolder := none

def test (py : Interpreter) (client : Client) (server : ServerRuntime) : Tested :=
  let sent := send py client server (testRequest server) true
  { sent := sent.sent
    result := sent.result.map fun result =>
      if result.ok then ⟨true, str "reachable"⟩
      else
        match result.statusCode with
        | some statusCode => ⟨false, str "HTTP " ++ formatInt statusCode⟩
        | none => ⟨false, result.detail⟩ }

end WebhookAdapter

/-- `build_client`: the client depends on `verify_tls` and `timeout_seconds`. -/
abbrev Clients := Bool → PyFloat → Client

def Clients.build (clients : Clients) (server : ServerRuntime) : Client :=
  clients server.verifyTls server.timeoutSeconds

/-- `test` of the adapter that `create_adapter` makes for a server, with a client of its own. -/
def testAdapter (py : Interpreter) (clients : Clients) (server : ServerRuntime) : Tested :=
  let client := clients.build server
  match server.type with
  | .webhook => WebhookAdapter.test py client server
  | .plex => PlexAdapter.test client server
  | .emby => EmbyAdapter.test client server
  | .jellyfin => JellyfinAdapter.test client server
  | .audiobookshelf => AudiobookshelfAdapter.test client server

variable {py : Interpreter} {client : Client} {server server' : ServerRuntime}

/-! ### What a test tells -/

/-- The last attempt at the request. -/
def Tested.lastOutcome (client : Client) (t : Tested) : Option Outcome :=
  t.sent.map fun (request, attempts) => client request attempts

/-- A test tells what its last attempt came to, or raises an exception that the last attempt has
raised, or that is no cancellation where nothing was sent. -/
structure Tested.Truthful (client : Client) (t : Tested) : Prop where
  ok : ∀ result, t.result = .ok result →
    result.ok = (t.lastOutcome client).any Outcome.isSuccess
  raised : ∀ exc, t.result = .error exc →
    t.lastOutcome client = some (.raised exc) ∨ t.sent = none ∧ exc.cls ≠ .cancelledError

/-- A test is as truthful as the trigger it makes. -/
theorem truthful_of_triggered {t : Triggered} (h : t.Truthful client)
    {f : TriggerResult → TestResult} (hf : ∀ result, (f result).ok = result.ok) :
    Tested.Truthful client ⟨t.sent, t.result.map f⟩ where
  ok result hresult := by
    cases hresult' : t.result with
    | error exc =>
        rw [hresult'] at hresult
        cases hresult
    | ok result' =>
        rw [hresult'] at hresult
        cases hresult
        rw [hf]
        exact h.ok result' hresult'
  raised exc hexc := by
    refine h.raised exc ?_
    cases hresult : t.result with
    | ok result =>
        rw [hresult] at hexc
        cases hexc
    | error exc' =>
        rw [hresult] at hexc
        cases hexc
        rfl

theorem truthful_probe (url : Str) (headers : List (Str × Str)) :
    (probe client server url headers).Truthful client :=
  truthful_of_triggered (truthful_sendRequest client _ _ _) fun _ => rfl

/-- **Every test** tells what its last attempt came to. -/
theorem truthful_test (py : Interpreter) (clients : Clients) (server : ServerRuntime) :
    (testAdapter py clients server).Truthful (clients.build server) := by
  rw [testAdapter]
  cases server.type with
  | webhook =>
      refine truthful_of_triggered (truthful_send py _ server _ true) fun result => ?_
      cases hok : result.ok with
      | true => rfl
      | false =>
          rw [if_neg Bool.false_ne_true]
          cases result.statusCode <;> rfl
  | plex => exact truthful_probe _ _
  | emby => exact truthful_probe _ _
  | jellyfin => exact truthful_probe _ _
  | audiobookshelf => exact truthful_probe _ _

/-! ### What a test reads -/

/-- Servers that a test does not tell apart, but for how often it tries. -/
structure ServerRuntime.TestsAlike (server server' : ServerRuntime) : Prop where
  type : server'.type = server.type
  baseUrl : server'.baseUrl = server.baseUrl
  verifyTls : server'.verifyTls = server.verifyTls
  timeoutSeconds : server'.timeoutSeconds = server.timeoutSeconds
  secret : server'.secret = server.secret
  name : server.type = .webhook → server'.name = server.name
  webhookMethod : server'.webhookMethod = server.webhookMethod
  webhookHeadersJson : server'.webhookHeadersJson = server.webhookHeadersJson
  webhookBodyTemplate : server'.webhookBodyTemplate = server.webhookBodyTemplate
  webhookPayloadPreset : server'.webhookPayloadPreset = server.webhookPayloadPreset

namespace WebhookAdapter

/-- The request of a test, or what the test comes to without one. -/
def prepare (py : Interpreter) (server : ServerRuntime) : Except Triggered HttpRequest :=
  let url := strip server.baseUrl
  if url = [] then .error ⟨none, .ok ⟨false, none, str "webhook url (base_url) is empty"⟩⟩
  else
    let method := py.upper (orElse server.webhookMethod (str "POST"))
    let context := context server (testRequest server) true
    match bodyTemplate server with
    | .error exc => .error ⟨none, .error exc⟩
    | .ok template =>
      match (do return (← py.render template context, ← headers py server context)) with
      | .error exc =>
        .error (if isCaught exc then ⟨none, .ok (reportError exc)⟩ else ⟨none, .error exc⟩)
      | .ok (body, headers) =>
        match encode body with
        | none => .error ⟨none, .error (unicodeEncodeError py.repr body)⟩
        | some content => .ok ⟨method, url, headers, some content⟩

theorem send_eq_prepare : send py client server (testRequest server) true =
    match prepare py server with
    | .error triggered => triggered
    | .ok request => sendRequest client server request (str "webhook delivered") := by
  rw [send, prepare]
  by_cases hurl : strip server.baseUrl = []
  · simp only [hurl, if_true]
  · simp only [hurl, if_false]
    cases bodyTemplate server with
    | error exc => rfl
    | ok template =>
        dsimp only
        generalize (do return (← py.render template _, ← headers py server _) :
          Except Raised (Str × List (Str × Str))) = rendering
        cases rendering with
        | error exc => rfl
        | ok parts =>
            dsimp only
            cases encode parts.1 <;> rfl

theorem prepare_congr (h : server.TestsAlike server') (htype : server.type = .webhook) :
    prepare py server' = prepare py server := by
  have hcontext : context server' (testRequest server') true =
      context server (testRequest server) true := by
    rw [context, context, h.name htype, h.secret]
    rfl
  have htemplate : bodyTemplate server' = bodyTemplate server := by
    rw [bodyTemplate, bodyTemplate, h.webhookPayloadPreset, h.webhookBodyTemplate]
  have hheaders : headers py server' = headers py server := by
    funext context
    rw [headers, headers, h.webhookHeadersJson]
  rw [prepare, prepare, hcontext, htemplate, hheaders, h.baseUrl, h.webhookMethod]

end WebhookAdapter

/-- **What a test reads**: the address, what the client is built with, the credentials and what a
webhook sends; and a webhook, how often it is to try. -/
theorem test_congr (py : Interpreter) (clients : Clients) (h : server.TestsAlike server') :
    (testAdapter py clients server').request = (testAdapter py clients server).request ∧
      (server.type ≠ .webhook ∨ server'.retryAttempts = server.retryAttempts →
        testAdapter py clients server' = testAdapter py clients server) := by
  rw [testAdapter, testAdapter, Clients.build, Clients.build, h.type, h.verifyTls,
    h.timeoutSeconds]
  cases htype : server.type with
  | webhook =>
      dsimp only
      rw [WebhookAdapter.test, WebhookAdapter.test, WebhookAdapter.send_eq_prepare,
        WebhookAdapter.send_eq_prepare, WebhookAdapter.prepare_congr h htype]
      cases WebhookAdapter.prepare py server with
      | error triggered => exact ⟨rfl, fun _ => rfl⟩
      | ok request =>
          refine ⟨rfl, fun hattempts => ?_⟩
          rcases hattempts with hne | hattempts
          · exact absurd rfl hne
          · simp only [sendRequest, hattempts]
  | plex =>
      dsimp only
      rw [PlexAdapter.test, PlexAdapter.test, PlexAdapter.headers, PlexAdapter.headers, h.baseUrl,
        h.secret]
      exact ⟨rfl, fun _ => rfl⟩
  | emby =>
      dsimp only
      rw [EmbyAdapter.test, EmbyAdapter.test, EmbyAdapter.headers, EmbyAdapter.headers, h.baseUrl,
        h.secret]
      exact ⟨rfl, fun _ => rfl⟩
  | jellyfin =>
      dsimp only
      rw [JellyfinAdapter.test, JellyfinAdapter.test, JellyfinAdapter.headers,
        JellyfinAdapter.headers, h.baseUrl, h.secret]
      exact ⟨rfl, fun _ => rfl⟩
  | audiobookshelf =>
      dsimp only
      rw [AudiobookshelfAdapter.test, AudiobookshelfAdapter.test, AudiobookshelfAdapter.headers,
        AudiobookshelfAdapter.headers, h.baseUrl, h.secret]
      exact ⟨rfl, fun _ => rfl⟩

end MediaScanMonitor
