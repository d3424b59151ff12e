import MediaScanMonitor.Library.Lts
import MediaScanMonitor.Library.Str
import MediaScanMonitor.Library.Posix
import MediaScanMonitor.Library.Fs
import MediaScanMonitor.Library.Inotify
import MediaScanMonitor.Library.Edit
import MediaScanMonitor.Normalize
import MediaScanMonitor.Config.Runtime
import MediaScanMonitor.Db.Models
import MediaScanMonitor.Db.Schemas
import MediaScanMonitor.Db.Repo
import MediaScanMonitor.Config.Build
import MediaScanMonitor.Pipeline.Events
import MediaScanMonitor.Watcher.Backend
import MediaScanMonitor.Watcher.Spec
import MediaScanMonitor.Watcher.SetRoots
import MediaScanMonitor.Watcher.History
import MediaScanMonitor.Watcher.Overflow
import MediaScanMonitor.Watcher.Generator
import MediaScanMonitor.Watcher.Containment
import MediaScanMonitor.Watcher.AttachRace
import MediaScanMonitor.Watcher.Coverage
import MediaScanMonitor.Pipeline.Debounce
import MediaScanMonitor.Pipeline.Filters
import MediaScanMonitor.Pipeline.Router
import MediaScanMonitor.Pipeline.Coalesce
import MediaScanMonitor.Pipeline.MoveOut
import MediaScanMonitor.Engine.Model
import MediaScanMonitor.Engine.Steps
import MediaScanMonitor.Engine.Roots
import MediaScanMonitor.Engine.Close
import MediaScanMonitor.Engine.Lock
import MediaScanMonitor.Engine.Service
import MediaScanMonitor.Engine.Converge
import MediaScanMonitor.Engine.Bench
import MediaScanMonitor.Engine.Wiring
import MediaScanMonitor.Engine.Delivery
import MediaScanMonitor.Engine.Origins
import MediaScanMonitor.Engine.Redirect
import MediaScanMonitor.Engine.InFlight
import MediaScanMonitor.Web.Auth
import MediaScanMonitor.Web.Lockout
import MediaScanMonitor.Web.Reset
import MediaScanMonitor.Library.Window
import MediaScanMonitor.Web.Login
import MediaScanMonitor.Web.Writes
import MediaScanMonitor.Web.Folders
import MediaScanMonitor.Web.Replace
import MediaScanMonitor.Web.RateLimit
import MediaScanMonitor.Config.Readable
import MediaScanMonitor.Engine.WriteCore
import MediaScanMonitor.Engine.Failing
import MediaScanMonitor.Pipeline.Segments
import MediaScanMonitor.Library.Case
import MediaScanMonitor.Db.Validate
import MediaScanMonitor.Pipeline.Extensions
import MediaScanMonitor.Config.Paths
import MediaScanMonitor.Watcher.Exact
import MediaScanMonitor.Watcher.WatchLimit
import MediaScanMonitor.Watcher.Reapply
import MediaScanMonitor.Watcher.Aclose
import MediaScanMonitor.Library.Retry
import MediaScanMonitor.Servers.Http
import MediaScanMonitor.Web.Attempts
import MediaScanMonitor.Pipeline.Order
import MediaScanMonitor.Library.Recent
import MediaScanMonitor.Observ.EventsBus
import MediaScanMonitor.Library.Utf8
import MediaScanMonitor.Library.Percent
import MediaScanMonitor.Servers.Base
import MediaScanMonitor.Servers.Plex
import MediaScanMonitor.Servers.Adapters
import MediaScanMonitor.Engine.Dispatch
import MediaScanMonitor.Library.Shrink
import MediaScanMonitor.Db.Contents
import MediaScanMonitor.Web.Twins
import MediaScanMonitor.Library.Fields
import MediaScanMonitor.Web.Forms
import MediaScanMonitor.Library.EventStream
import MediaScanMonitor.Library.Json
import MediaScanMonitor.Library.JsonObject
import MediaScanMonitor.Servers.Webhook
import MediaScanMonitor.Web.Stream
import MediaScanMonitor.Web.Bootstrap
import MediaScanMonitor.Db.Key
import MediaScanMonitor.Web.Sessions
import MediaScanMonitor.Web.Catalog
import MediaScanMonitor.Web.Refine
import MediaScanMonitor.Servers.Probe
import MediaScanMonitor.Web.Probe
import MediaScanMonitor.Library.Resume
import MediaScanMonitor.Web.Api
import MediaScanMonitor.Web.Redact
import MediaScanMonitor.Library.Query
import MediaScanMonitor.Web.Fsbrowse
import MediaScanMonitor.Web.Picker
