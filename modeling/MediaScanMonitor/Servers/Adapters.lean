import MediaScanMonitor.Db.Models
import MediaScanMonitor.Servers.Plex

/-!
# Servers — the other adapters

`servers/emby.py`, `jellyfin.py`, `audiobookshelf.py` and `webhook.py` with its presets, and
`create_adapter`.  The first three make one request of their own; the webhook renders templates
first.  What Python and Jinja do for it are the functions of an `Interpreter`.

* `truthful_trigger`: every adapter reports what its last attempt came to, or raises.
-/

namespace MediaScanMonitor
open Py

/-! ### Libraries -/

namespace EmbyAdapter

def headers (server : ServerRuntime) : List (Str × Str) :=
  [(str "X-Emby-Token", server.secret.getD [])]

def trigger (client : Client) (server : ServerRuntime) (req : ScanRequest) : Triggered :=
  let url := rstripOf slash server.baseUrl ++ str "/Items/" ++ formatId req.libraryId ++
    str "/Refresh?Recursive=true"
  sendRequest client server ⟨str "POST", url, headers server, none⟩ (str "Emby refresh triggered")

end EmbyAdapter

namespace JellyfinAdapter

def headers (server : ServerRuntime) : List (Str × Str) :=
  [(str "Authorization", str "MediaBrowser Token=\"" ++ server.secret.getD [] ++ str "\"")]

def trigger (client : Client) (server : ServerRuntime) (req : ScanRequest) : Triggered :=
  let url := rstripOf slash server.baseUrl ++ str "/Items/" ++ formatId req.libraryId ++
    str "/Refresh" ++
    str "?Recursive=true&metadataRefreshMode=Default&imageRefreshMode=Default"
  sendRequest client server ⟨str "POST", url, headers server, none⟩
    (str "Jellyfin refresh triggered")

end JellyfinAdapter

namespace AudiobookshelfAdapter

def headers (server : ServerRuntime) : List (Str × Str) :=
  [(str "Authorization", str "Bearer " ++ server.secret.getD [])]

def trigger (client : Client) (server : ServerRuntime) (req : ScanRequest) : Triggered :=
  let url := rstripOf slash server.baseUrl ++ str "/api/libraries/" ++ formatId req.libraryId ++
    str "/scan"
  sendRequest client server ⟨str "POST", url, headers server, none⟩
    (str "Audiobookshelf scan triggered")

end AudiobookshelfAdapter

/-! ### Webhooks -/

/-- The variables of a template. -/
structure Context where
  eventType : Str
  filePath : Str
  hostPath : Str
  scanPath : Option Str
  topFolder : Option Str
  libraryId : Option Str
  serverName : Str
  appName : Str
  secret : Str
  isTest : Bool

/-- What Python and Jinja compute.  A task is not cancelled while they do. -/
structure Interpreter where
  /-- `str.upper`. -/
  upper : Str → Str
  /-- `repr`, of strings. -/
  repr : Str → Str
  /-- `json.loads`: the items of an object, each value as `str` spells it; `none` for a value that
  is no object. -/
  loads : Str → Except Raised (Option (List (Str × Str)))
  /-- `from_string` and `render` of the sandboxed environment. -/
  render : Str → Context → Except Raised Str
  loads_cls : ∀ s exc, loads s = .error exc → exc.cls ≠ .cancelledError
  render_cls : ∀ s context exc, render s context = .error exc → exc.cls ≠ .cancelledError

/-- `ValueError(text)`, with its `repr`. -/
def valueError (text repr : Str) : Raised := ⟨.valueError, str "ValueError", text, repr⟩

/-- `APP_NAME`. -/
def appName : Str := str "media-scan-monitor"

/-- `DEFAULT_BODY_TEMPLATE`. -/
def defaultBodyTemplate : Str :=
  str "\x7b\n" ++
    str "  \"event\": \x7b\x7b event_type | tojson \x7d\x7d,\n" ++
    str "  \"file_path\": \x7b\x7b file_path | tojson \x7d\x7d,\n" ++
    str "  \"scan_path\": \x7b\x7b scan_path | tojson \x7d\x7d,\n" ++
    str "  \"top_folder\": \x7b\x7b top_folder | tojson \x7d\x7d,\n" ++
    str "  \"library_id\": \x7b\x7b library_id | tojson \x7d\x7d,\n" ++
    str "  \"server\": \x7b\x7b server_name | tojson \x7d\x7d\n" ++
    str "\x7d"

/-- `_SONARR_RADARR_TEMPLATE`. -/
def sonarrRadarrTemplate : Str :=
  str "\x7b\n" ++
    str "  \"eventType\": \x7b\x7b (\"Test\" if is_test else \"Download\") | tojson \x7d\x7d,\n" ++
    str "  \"instanceName\": \x7b\x7b app_name | tojson \x7d\x7d,\n" ++
    str "  \"file_path\": \x7b\x7b file_path | tojson \x7d\x7d\n" ++
    str "\x7d"

/-- `get_preset(preset).body_template`. -/
def getPreset : WebhookPreset → Except Raised Str
  | .sonarrRadarr => .ok sonarrRadarrTemplate
  | .custom =>
    .error (valueError (str "no webhook preset registered for <WebhookPreset.custom: 'custom'>")
      (str "ValueError(\"no webhook preset registered for <WebhookPreset.custom: 'custom'>\")"))

/-- `x or y`. -/
def orElse (x : Option Str) (y : Str) : Str := if x.getD [] = [] then y else x.getD []

/-- `headers[key] = value`. -/
def setItem (headers : List (Str × Str)) (key value : Str) : List (Str × Str) :=
  if key ∈ headers.map Prod.fst then
    headers.map fun header => if header.1 = key then (key, value) else header
  else headers ++ [(key, value)]

namespace WebhookAdapter
variable (py : Interpreter)

/-- `_context`. -/
def context (server : ServerRuntime) (req : ScanRequest) (isTest : Bool) : Context where
  eventType := req.eventType.value
  filePath := req.filePath
  hostPath := req.filePath
  scanPath := req.scanPath
  topFolder := req.topFolder
  libraryId := req.libraryId
  serverName := server.name
  appName := appName
  secret := server.secret.getD []
  isTest := isTest

/-- `_headers`. -/
def headers (server : ServerRuntime) (context : Context) : Except Raised (List (Str × Str)) := do
  let raw ← py.loads (orElse server.webhookHeadersJson (str "\x7b\x7d"))
  match raw with
  | none => .error (valueError (str "webhook_headers_json must be a JSON object")
      (str "ValueError('webhook_headers_json must be a JSON object')"))
  | some items =>
    items.foldlM (fun headers item => do
      return setItem headers item.1 (← py.render item.2 context))
      [(str "Content-Type", str "application/json")]

/-- The template of the body. -/
def bodyTemplate (server : ServerRuntime) : Except Raised Str :=
  match server.webhookPayloadPreset with
  | .custom => .ok (orElse server.webhookBodyTemplate defaultBodyTemplate)
  | preset => getPreset preset

/-- What `_send` catches around the rendering. -/
def isCaught (exc : Raised) : Bool := exc.cls = .templateError || exc.cls = .valueError

/-- `_send`. -/
def send (client : Client) (server : ServerRuntime) (req : ScanRequest) (isTest : Bool) :
    Triggered :=
  let url := strip server.baseUrl
  if url = [] then ⟨none, .ok ⟨false, none, str "webhook url (base_url) is empty"⟩⟩
  else
    let method := py.upper (orElse server.webhookMethod (str "POST"))
    let context := context server req isTest
    match bodyTemplate server with
    | .error exc => ⟨none, .error exc⟩
    | .ok template =>
      match (do return (← py.render template context, ← headers py server context)) with
      | .error exc =>
        if isCaught exc then ⟨none, .ok (reportError exc)⟩ else ⟨none, .error exc⟩
      | .ok (body, headers) =>
        match encode body with
        -- `body.encode("utf-8")` is an argument of the call, and its exception no `HTTPError`.
        | none => ⟨none, .error (unicodeEncodeError py.repr body)⟩
        | some content =>
          sendRequest client server ⟨method, url, headers, some content⟩ (str "webhook delivered")

/-- `trigger`. -/
def trigger (client : Client) (server : ServerRuntime) (req : ScanRequest) : Triggered :=
  send py client server req false

end WebhookAdapter

/-- `trigger` of the adapter that `create_adapter` makes for a server. -/
def triggerAdapter (py : Interpreter) (client : Client) (server : ServerRuntime)
    (req : ScanRequest) : Triggered :=
  match server.type with
  | .webhook => WebhookAdapter.trigger py client server req
  | .plex => PlexAdapter.trigger py.repr client server req
  | .emby => EmbyAdapter.trigger client server req
  | .jellyfin => JellyfinAdapter.trigger client server req
  | .audiobookshelf => AudiobookshelfAdapter.trigger client server req

/-! ### What a trigger may come to -/

variable {py : Interpreter} {client : Client} {server : ServerRuntime} {req : ScanRequest}

/-- A computation that raises, taken apart at a bind. -/
theorem bind_eq_error {ε α β : Type} {x : Except ε α} {f : α → Except ε β} {e : ε} :
    x >>= f = .error e ↔ x = .error e ∨ ∃ a, x = .ok a ∧ f a = .error e := by
  cases x with
  | error e' =>
      constructor
      · intro h
        cases h
        exact .inl rfl
      · rintro (h | ⟨a, h, -⟩)
        · cases h
          rfl
        · cases h
  | ok a =>
      constructor
      · intro h
        exact .inr ⟨a, rfl, h⟩
      · rintro (h | ⟨a', h, hf⟩)
        · cases h
        · cases h
          exact hf

/-- The error of a loop is one of its body. -/
theorem foldlM_eq_error {ε α β : Type} {f : β → α → Except ε β} {l : List α} {b : β} {e : ε}
    (h : l.foldlM f b = .error e) : ∃ b', ∃ a ∈ l, f b' a = .error e := by
  induction l generalizing b with
  | nil => cases h
  | cons a l ih =>
      rw [List.foldlM_cons] at h
      rcases bind_eq_error.mp h with h | ⟨b', -, h⟩
      · exact ⟨b, a, List.mem_cons_self, h⟩
      · obtain ⟨b'', a', ha', h⟩ := ih h
        exact ⟨b'', a', List.mem_cons_of_mem _ ha', h⟩

theorem cls_of_bodyTemplate {exc : Raised} (h : WebhookAdapter.bodyTemplate server = .error exc) :
    exc.cls ≠ .cancelledError := by
  rw [WebhookAdapter.bodyTemplate] at h
  cases hpreset : server.webhookPayloadPreset with
  | custom =>
      rw [hpreset] at h
      cases h
  | sonarrRadarr =>
      rw [hpreset] at h
      cases h

theorem cls_of_headers {context : Context} {exc : Raised}
    (h : WebhookAdapter.headers py server context = .error exc) : exc.cls ≠ .cancelledError := by
  rw [WebhookAdapter.headers] at h
  rcases bind_eq_error.mp h with hloads | ⟨raw, -, h⟩
  · exact py.loads_cls _ _ hloads
  · cases raw with
    | none =>
        cases h
        exact fun hcls => by cases hcls
    | some items =>
        obtain ⟨headers, item, -, hitem⟩ := foldlM_eq_error h
        rcases bind_eq_error.mp hitem with hrender | ⟨_, -, hpure⟩
        · exact py.render_cls _ _ _ hrender
        · cases hpure

theorem truthful_send (py : Interpreter) (client : Client) (server : ServerRuntime)
    (req : ScanRequest) (isTest : Bool) :
    (WebhookAdapter.send py client server req isTest).Truthful client := by
  rw [WebhookAdapter.send]
  split
  · exact truthful_ok rfl rfl
  · cases htemplate : WebhookAdapter.bodyTemplate server with
    | error exc => exact truthful_raise (cls_of_bodyTemplate htemplate)
    | ok template =>
        simp only
        split
        · rename_i exc hrendering
          split
          · exact truthful_reportError exc
          · refine truthful_raise ?_
            rcases bind_eq_error.mp hrendering with hrender | ⟨body, -, hrendering⟩
            · exact py.render_cls _ _ _ hrender
            · rcases bind_eq_error.mp hrendering with hheaders | ⟨headers, -, hpure⟩
              · exact cls_of_headers hheaders
              · cases hpure
        · split
          · exact truthful_raise fun hcls => by cases hcls
          · exact truthful_sendRequest client server _ _

/-- **Every adapter** reports what its last attempt came to, or raises. -/
theorem truthful_trigger (py : Interpreter) (client : Client) (server : ServerRuntime)
    (req : ScanRequest) : (triggerAdapter py client server req).Truthful client := by
  rw [triggerAdapter]
  cases server.type with
  | webhook => exact truthful_send py client server req false
  | plex =>
      simp only [PlexAdapter.trigger]
      split
      · split
        · exact truthful_sendRequest client server _ _
        · exact truthful_raise fun hcls => by cases hcls
      · exact truthful_sendRequest client server _ _
  | emby => exact truthful_sendRequest client server _ _
  | jellyfin => exact truthful_sendRequest client server _ _
  | audiobookshelf => exact truthful_sendRequest client server _ _

end MediaScanMonitor
