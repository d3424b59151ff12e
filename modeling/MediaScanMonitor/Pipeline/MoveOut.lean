import MediaScanMonitor.Pipeline.Router
import MediaScanMonitor.Watcher.History

/-!
# Pipeline — a directory moved out

Renaming a directory out of the watched tree is one `IN_MOVED_FROM` for the directory, and
`events()` yields one event for it.  What moves in is listed and replayed; of what moves out
nothing is: the router sees the path of the directory alone, and tests the extension of its name.

* `queue_moveOut`, `handle_moveOut`: the event queued, and the event yielded for it.
* `moved_out_iff`: when the move is announced for every route that a file inside concerns.
-/

namespace MediaScanMonitor
open Py Posix Inotify

variable {lower : Str → Str} {config : RuntimeConfig} {w : World} {l l' : Loc} {n n' : Name}
  {wd : Nat} {d : AbsPath} {f : FolderRoute} {events : List FsEvent}

/-- The event for the directory `d` moved out. -/
def moveOut (d : AbsPath) : Raw := ⟨some d, movedFrom ||| isdir⟩

/-- A directory that leaves the watched tree queues one event. -/
theorem queue_moveOut (hdir : w.inst.fs.isDir (l ++ [n]) = true) (hwd : w.inst.wdAt l = some wd)
    (hout : w.inst.wdAt l' = none) :
    (w.apply (.rename l n l' n')).inst.queue =
      w.inst.queue ++ [moveOut ((w.inst.label wd).push n)] := by
  show w.inst.queue ++ (w.inst.note l n (movedFrom ||| dirBit (w.inst.fs.isDir (l ++ [n]))) ++
    w.inst.note l' n' (movedTo ||| dirBit (w.inst.fs.isDir (l ++ [n])))) = _
  rw [hdir]
  simp only [Inst.note, hwd, hout, List.append_nil]
  rfl

theorem isIgnored_eq (ign : List Str) (path : Str) :
    World.isIgnored ign path = isIgnored path ign := by
  rw [World.isIgnored, isIgnored]
  cases ign with
  | nil => simp
  | cons dir ign => rfl

/-- What `events()` yields for the move, in whatever state it reads the event. -/
theorem handle_moveOut (ign : List Str) (v : World) (d : AbsPath) :
    (v.handle ign (moveOut d)).2 =
      if isIgnored (normalizePath d.toStr) ign then []
      else [⟨normalizePath d.toStr, .movedFrom, true⟩] := by
  have hqueue : ¬ (movedFrom ||| isdir) &&& IN_Q_OVERFLOW ≠ 0 := by decide
  have htype : maskToEventType (movedFrom ||| isdir) = some .movedFrom := by decide
  have hisdir : maskIsDir (movedFrom ||| isdir) = true := by decide
  simp only [World.handle, World.decode, moveOut, if_neg hqueue, htype, hisdir, isIgnored_eq]
  cases isIgnored (normalizePath d.toStr) ign with
  | true => rfl
  | false => rfl

/-- The route is concerned by the move of `d`: it subscribes to `moved_from`, `d` lies under its
path, and it accepts a file inside `d`. -/
def Concerned (lower : Str → Str) (config : RuntimeConfig) (fs : Fs) (d : AbsPath)
    (f : FolderRoute) : Prop :=
  .movedFrom ∈ f.eventTypes ∧ isPathPrefix f.path d.toStr = true ∧
    ∃ file : AbsPath, d < file ∧ fs.node file.segs ≠ none ∧ fs.isDir file.segs = false ∧
      Accepts lower config f (normalizePath file.toStr)

/-- The events make a request for the route's server and library. -/
def Announced (lower : Str → Str) (config : RuntimeConfig) (events : List FsEvent)
    (f : FolderRoute) : Prop :=
  ∃ event ∈ events, ∃ req ∈ route lower event config,
    req.serverId = f.serverId ∧ req.libraryId = f.libraryId

/-- Some route of the server and library of `f` that subscribes to `moved_from` accepts the path
of `d` itself. -/
def NameAccepted (lower : Str → Str) (config : RuntimeConfig) (d : AbsPath) (f : FolderRoute) :
    Prop :=
  ∃ g ∈ config.routes, g.serverId = f.serverId ∧ g.libraryId = f.libraryId ∧
    .movedFrom ∈ g.eventTypes ∧ Accepts lower config g (normalizePath d.toStr)

theorem announced_moveOut_iff (v : World) (d : AbsPath) (f : FolderRoute) :
    Announced lower config (v.handle config.ignoreDirs (moveOut d)).2 f ↔
      NameAccepted lower config d f := by
  rw [handle_moveOut]
  constructor
  · rintro ⟨event, hevent, req, hreq, hserver, hlib⟩
    split at hevent
    · cases hevent
    · obtain rfl := List.mem_singleton.mp hevent
      obtain ⟨g, hg, hacc, hty, rfl⟩ := mem_route.mp hreq
      exact ⟨g, hg, hserver, hlib, hty, hacc⟩
  · rintro ⟨g, hg, hserver, hlib, hty, hacc⟩
    rw [if_neg (by rw [hacc.notIgnored]; exact Bool.false_ne_true)]
    exact ⟨_, List.mem_singleton_self _, _, mem_route.mpr ⟨g, hg, hacc, hty, rfl⟩, hserver, hlib⟩

/-- **A directory moved out** is announced for every route that one of its files concerns exactly
when its own name passes the filter of such a route. -/
theorem moved_out_iff (lower : Str → Str) (config : RuntimeConfig)
    (hdir : w.inst.fs.isDir (l ++ [n]) = true) (hwd : w.inst.wdAt l = some wd)
    (hd : (w.inst.label wd).push n = d) (hout : w.inst.wdAt l' = none) :
    ∃ event, (w.apply (.rename l n l' n')).inst.queue = w.inst.queue ++ [event] ∧
      ∀ v : World,
        (∀ f ∈ config.routes, Concerned lower config w.inst.fs d f →
          Announced lower config (v.handle config.ignoreDirs event).2 f) ↔
        ∀ f ∈ config.routes, Concerned lower config w.inst.fs d f →
          NameAccepted lower config d f := by
  subst hd
  refine ⟨_, queue_moveOut hdir hwd hout, fun v => ?_⟩
  exact forall₂_congr fun f _ => forall_congr' fun _ => announced_moveOut_iff v _ f

/-- `/a/Show/ep.mkv` and `/a/Film.mkv/film.mkv`, and a place to move them to. -/
def shows : Fs :=
  (((((Fs.bare.create [] (.lit "a") true).create [.lit "a"] (.lit "Show") true).create
    [.lit "a", .lit "Show"] (.lit "ep.mkv") false).create [.lit "a"] (.lit "Film.mkv") true).create
    [.lit "a", .lit "Film.mkv"] (.lit "film.mkv") false).create [] (.lit "b") true

/-- One folder `/a` for `mkv` files. -/
def showConfig : RuntimeConfig :=
  makeRuntimeConfig
    [makeFolderRoute 1 (str "/a") [str "mkv"] (some (str "2")) [.deleted, .movedFrom]]
    (AList.singleton 1 (makeServerRuntime 1 .trailing 30))

/-- The watcher of `showConfig`, started on `shows`. -/
def showWorld : World := .start shows showConfig.ignoreDirs showConfig.watchPaths

/-- `/a/Film.mkv` is moved out: its name passes the filter. -/
theorem moved_out_film :
    ∃ event, (showWorld.apply (.rename [.lit "a"] (.lit "Film.mkv") [.lit "b"]
        (.lit "Film.mkv"))).inst.queue = showWorld.inst.queue ++ [event] ∧
      ∀ v : World,
        (∀ f ∈ showConfig.routes,
          Concerned asciiLower showConfig shows ⟨false, [.lit "a", .lit "Film.mkv"]⟩ f →
            Announced asciiLower showConfig (v.handle showConfig.ignoreDirs event).2 f) ↔
        ∀ f ∈ showConfig.routes,
          Concerned asciiLower showConfig shows ⟨false, [.lit "a", .lit "Film.mkv"]⟩ f →
            NameAccepted asciiLower showConfig ⟨false, [.lit "a", .lit "Film.mkv"]⟩ f :=
  moved_out_iff asciiLower showConfig (by decide)
    (show showWorld.inst.wdAt [.lit "a"] = some 1 by decide) (by decide) (by decide)

/-- `/a/Show` is moved out, with an episode in it: nothing is announced. -/
theorem show_moves_out_unannounced :
    (showWorld.apply (.rename [.lit "a"] (.lit "Show") [.lit "b"] (.lit "Show"))).inst.queue =
        [moveOut ⟨false, [.lit "a", .lit "Show"]⟩] ∧
      ∃ f ∈ showConfig.routes,
        Concerned asciiLower showConfig shows ⟨false, [.lit "a", .lit "Show"]⟩ f ∧
        ∀ v : World, ¬ Announced asciiLower showConfig
          (v.handle showConfig.ignoreDirs (moveOut ⟨false, [.lit "a", .lit "Show"]⟩)).2 f := by
  refine ⟨by decide, _, List.mem_singleton_self _, ⟨by decide, by decide,
    ⟨false, [.lit "a", .lit "Show", .lit "ep.mkv"]⟩, lt_of_le_not_ge (by decide) (by decide),
    by decide, by decide,
    ⟨by decide, by decide, by decide⟩⟩, fun v h => ?_⟩
  obtain ⟨g, hg, -, -, -, hacc⟩ := (announced_moveOut_iff v _ _).mp h
  obtain rfl := List.mem_singleton.mp hg
  exact absurd hacc.extension (by decide)

end MediaScanMonitor
