import MediaScanMonitor.Library.Str
import Mathlib.Data.List.AList
import Mathlib.Data.Rat.Defs

/-!
# Config — the runtime snapshot

The enumerations of `db/models.py` and the frozen dataclasses of `config/runtime.py`.  A Python
`dict` is an `AList`; a `frozenset` is a list of which only membership and iteration are used.
-/

namespace MediaScanMonitor
open Py

inductive ServerType where
  | webhook | plex | emby | jellyfin | audiobookshelf
  deriving DecidableEq

inductive ScanMode where
  | targeted | library
  deriving DecidableEq

inductive DebounceMode where
  | off | trailing
  deriving DecidableEq

inductive WebhookPreset where
  | custom | sonarrRadarr
  deriving DecidableEq

inductive FsEventType where
  | created | movedTo | deleted | movedFrom
  deriving DecidableEq

/-- A `float`.  The finite ones are as good as rationals here: they are stored and handed on. -/
inductive PyFloat where
  | finite (x : ℚ)
  | infinite (negative : Bool)
  | nan
  deriving DecidableEq

instance (n : Nat) : OfNat PyFloat n := ⟨.finite n⟩

structure ServerRuntime where
  serverId : Int
  name : Str
  type : ServerType
  baseUrl : Str
  verifyTls : Bool
  timeoutSeconds : PyFloat
  secret : Option Str
  scanMode : ScanMode
  debounceMode : DebounceMode
  debounceWindowSeconds : Int
  retryAttempts : Int
  webhookMethod : Option Str
  webhookHeadersJson : Option Str
  webhookBodyTemplate : Option Str
  webhookPayloadPreset : WebhookPreset
  deriving DecidableEq

structure FolderRoute where
  serverId : Int
  serverName : Str
  path : Str
  /-- Normalised; empty means every extension. -/
  extensions : List Str
  libraryId : Option Str
  scanMode : ScanMode
  eventTypes : List FsEventType
  deriving DecidableEq

/-- Unlike Mathlib's, this instance evaluates. -/
instance : DecidableEq (AList fun _ : Int => ServerRuntime) := fun xs ys =>
  decidable_of_iff (xs.entries = ys.entries) AList.ext_iff.symm

structure RuntimeConfig where
  watchPaths : List Str
  routes : List FolderRoute
  servers : AList fun _ : Int => ServerRuntime
  ignoreDirs : List Str
  deriving DecidableEq

/-! ### The factories of `tests/pipeline/factories.py` -/

def makeServerRuntime (serverId : Int) (debounceMode : DebounceMode)
    (debounceWindowSeconds : Int) : ServerRuntime where
  serverId := serverId
  name := str "plex-1"
  type := .plex
  baseUrl := str "http://plex:32400"
  verifyTls := true
  timeoutSeconds := 10
  secret := some (str "token")
  scanMode := .targeted
  debounceMode := debounceMode
  debounceWindowSeconds := debounceWindowSeconds
  retryAttempts := 3
  webhookMethod := none
  webhookHeadersJson := none
  webhookBodyTemplate := none
  webhookPayloadPreset := .custom

def makeFolderRoute (serverId : Int) (path : Str) (extensions : List Str) (libraryId : Option Str)
    (eventTypes : List FsEventType) : FolderRoute where
  serverId := serverId
  serverName := str "plex-1"
  path := path
  extensions := extensions
  libraryId := libraryId
  scanMode := .targeted
  eventTypes := eventTypes

def makeRuntimeConfig (routes : List FolderRoute) (servers : AList fun _ : Int => ServerRuntime) :
    RuntimeConfig where
  watchPaths := (routes.map FolderRoute.path).dedup
  routes := routes
  servers := servers
  ignoreDirs := [str "@eaDir", str "#snapshot"]

end MediaScanMonitor
