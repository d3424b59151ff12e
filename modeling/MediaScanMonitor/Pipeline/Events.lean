import MediaScanMonitor.Config.Runtime

/-!
# Pipeline — events and scan requests

`pipeline/events.py`: what crosses from the watcher to the router, and from the router to the
debouncer and the dispatcher.
-/

namespace MediaScanMonitor
open Py

structure FsEvent where
  path : Str
  eventType : FsEventType
  isDir : Bool
  deriving DecidableEq

structure ScanRequest where
  serverId : Int
  serverName : Str
  scanMode : ScanMode
  scanPath : Option Str
  libraryId : Option Str
  scanKey : Str
  eventType : FsEventType
  filePath : Str
  topFolder : Option Str
  deriving DecidableEq

end MediaScanMonitor
