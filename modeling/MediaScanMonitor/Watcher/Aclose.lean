import MediaScanMonitor.Watcher.Generator

/-!
# Watcher — closing the event stream

`events()` awaits each read as a task of its own, so that `aclose()` can cancel a read that never
ends.  It looks at `_closing` only where the await raises `CancelledError`.

A `Stream` is the generator of `Gen` with the points at which it is suspended.  `aclose()` may be
called at each of them, and again later; between two steps the tree, the queue and the roots may
become anything (`Act.world`).  A task that is cancelled before it is done ends cancelled, and so
does the await whose own task is cancelled.

* `gen_read`, `gen_sync`: the steps of a stream are those of `Gen`.
* `quiet_close_iff`: after `aclose()` the stream ends without another read exactly when it was
  suspended in a read that was not done, or had ended.
-/

namespace MediaScanMonitor
open Py Posix Inotify

/-! ### The stream -/

/-- The task of `Inotify.get()` that `events()` awaits. -/
inductive GetTask where
  | pending
  | done (event : Raw)
  | failed
  | cancelled
  deriving DecidableEq

/-- Where `events()` is. -/
inductive Pos where
  | unstarted
  | reading (task : GetTask)
  | yielded
  | walking
  | finished
  deriving DecidableEq

/-- `_get_task`. -/
def Pos.getTask : Pos → Option GetTask
  | .reading task => some task
  | _ => none

/-- `events()` with the flag of its backend. -/
structure Stream where
  gen : Gen
  pos : Pos
  closing : Bool
  /-- How often `Inotify.get()` was called. -/
  gets : Nat
  /-- How often an exception left `events()`. -/
  raises : Nat

/-- `Inotify.close()` and `_watches.clear()`: nothing is watched or queued, and no watch is to be
had. -/
def World.close (w : World) : World :=
  { w with inst := { Inst.fresh w.inst.fs with full := true }, watches := ∅ }

namespace Stream
variable {ign : List Str} {fs : Fs} {s t : Stream}

/-- A new backend and its generator, not started. -/
def fresh (fs : Fs) : Stream := ⟨.fresh fs, .unstarted, false, 0, 0⟩

/-- `events()` runs on: to its next `yield`, to its next walk, or to a call of `Inotify.get()`. -/
def goOn (s : Stream) : Stream :=
  match s.gen.todo with
  | [] => { s with gen := s.gen.settle, pos := .reading .pending, gets := s.gets + 1 }
  | .yieldEvent _ :: _ => { s with gen := s.gen.settle, pos := .yielded }
  | .walk _ :: _ => { s with gen := s.gen.settle, pos := .walking }

/-- The walk in progress goes on by one step. -/
def sync (ign : List Str) (s : Stream) : Stream :=
  match s.gen.busy with
  | .events walk =>
    if walk.stack = [] then
      goOn { s with gen := { s.gen with todo := walk.synthetic.map .yieldEvent ++ s.gen.todo } }
    else { s with gen := s.gen.sync ign }
  | _ => s

/-- The read ends with the oldest queued event. -/
def arrive (s : Stream) : Stream :=
  match s.gen.world.inst.queue with
  | [] => s
  | e :: _ => { s with
      gen := { s.gen with world := s.gen.world.dequeue }, pos := .reading (.done e) }

/-- The await returns the event, or raises what the read has raised. -/
def wake (ign : List Str) (s : Stream) : Stream :=
  match s.pos with
  | .reading (.done e) =>
    let r := s.gen.world.decode ign e
    goOn { s with gen := { s.gen with world := r.1, todo := r.2 } }
  | .reading .cancelled =>
    if s.closing then { s with pos := .finished }
    else { s with pos := .finished, raises := s.raises + 1 }
  | .reading .failed => { s with pos := .finished, raises := s.raises + 1 }
  | _ => s

/-- The read ends with an error. -/
def fail (s : Stream) : Stream :=
  match s.pos with
  | .reading .pending => { s with pos := .reading .failed }
  | _ => s

/-- The task that awaits the read is cancelled. -/
def cancel (s : Stream) : Stream :=
  match s.pos with
  | .reading _ => { s with pos := .reading .cancelled }
  | _ => s

/-- `aclose`. -/
def close (s : Stream) : Stream :=
  { s with
    closing := true
    pos := if s.pos = .reading .pending then .reading .cancelled else s.pos
    gen := { s.gen with world := s.gen.world.close } }

inductive Act where
  | world (w : World)
  | resume
  | sync
  | arrive
  | fail
  | wake
  | cancel
  | close

def system (ign : List Str) : Lts.System Stream Act where
  enabled s
    | .world _ => True
    | .resume => s.pos = .unstarted ∨ s.pos = .yielded
    | .sync => s.pos = .walking
    | .arrive => s.pos = .reading .pending ∧ s.gen.world.inst.queue ≠ []
    | .fail => s.pos = .reading .pending
    | .wake => ∃ task ∈ s.pos.getTask, task ≠ .pending
    | .cancel => s.pos.getTask ≠ none
    | .close => s.pos ≠ .walking
  next s
    | .world w => { s with gen := { s.gen with world := w } }
    | .resume => s.goOn
    | .sync => s.sync ign
    | .arrive => s.arrive
    | .fail => s.fail
    | .wake => s.wake ign
    | .cancel => s.cancel
    | .close => s.close

instance (ign : List Str) (s : Stream) : ∀ act, Decidable ((system ign).enabled s act)
  | .world _ => .isTrue trivial
  | .resume => inferInstanceAs (Decidable (s.pos = .unstarted ∨ s.pos = .yielded))
  | .sync => inferInstanceAs (Decidable (s.pos = .walking))
  | .arrive =>
    inferInstanceAs (Decidable (s.pos = .reading .pending ∧ s.gen.world.inst.queue ≠ []))
  | .fail => inferInstanceAs (Decidable (s.pos = .reading .pending))
  | .wake => inferInstanceAs (Decidable (∃ task ∈ s.pos.getTask, task ≠ .pending))
  | .cancel => inferInstanceAs (Decidable (s.pos.getTask ≠ none))
  | .close => inferInstanceAs (Decidable (s.pos ≠ .walking))

/-! ### The steps of `Gen` -/

@[simp] theorem gen_goOn (s : Stream) : s.goOn.gen = s.gen.settle := by
  unfold goOn
  split <;> rfl

theorem gen_sync (hbusy : ∀ walk left, s.gen.busy ≠ .roots walk left) :
    (s.sync ign).gen = s.gen.sync ign := by
  rw [sync]
  cases hb : s.gen.busy with
  | idle => rw [Gen.sync, hb]
  | events walk =>
      dsimp only
      split
      · rename_i hstack
        rw [gen_goOn, Gen.sync, hb]
        dsimp only
        rw [if_pos hstack]
      · rfl
  | roots walk left => exact absurd hb (hbusy walk left)

/-- A read that ends and is handed on at once is `Gen`'s. -/
theorem gen_read (hq : s.gen.world.inst.queue ≠ []) :
    (s.arrive.wake ign).gen = s.gen.read ign := by
  obtain ⟨e, q, hq⟩ := List.exists_cons_of_ne_nil hq
  rw [arrive, Gen.read, hq]
  simp only [wake, gen_goOn]

/-! ### After `aclose` -/

/-- A step that takes `events()` on from where it is suspended. -/
def Act.resumes : Act → Bool
  | .resume | .wake => true
  | _ => false

/-- The events of the tasks before the next walk. -/
def yields : List World.Task → List FsEvent
  | .yieldEvent e :: todo => e :: yields todo
  | _ => []

/-- The synthetic events `events()` has computed and not yet yielded. -/
def computed (s : Stream) : List FsEvent := yields s.gen.todo

/-- No read is started and nothing is raised; what is yielded is computed already; and once it is
yielded, the next resumption ends the stream. -/
structure Quiet (ign : List Str) (s : Stream) : Prop where
  silent : ∀ l t, Lts.Run (system ign) Lts.free s l t → t.gets = s.gets ∧ t.raises = s.raises
  yields : ∀ l t, Lts.Run (system ign) Lts.free s l t →
    ∃ es, t.gen.out = s.gen.out ++ es ∧ es <+: s.computed
  ends : ∀ l t, Lts.Run (system ign) Lts.free s l t →
    s.computed.length < l.countP Act.resumes → t.pos = .finished

/-- The stream has ended, or it is closing and its read is cancelled. -/
def Shut (s : Stream) : Prop :=
  s.pos = .finished ∨ (s.pos = .reading .cancelled ∧ s.closing = true)

/-- What a step of a shut stream does. -/
structure Rests (s t : Stream) (resumed : Bool) : Prop where
  shut : Shut t
  gets : t.gets = s.gets
  raises : t.raises = s.raises
  out : t.gen.out = s.gen.out
  finished : s.pos = .finished ∨ resumed = true → t.pos = .finished

theorem Shut.next {act : Act} (h : Shut s) (hen : (system ign).enabled s act) :
    Rests s ((system ign).next s act) act.resumes := by
  obtain ⟨gen, pos, closing, gets, raises⟩ := s
  rcases h with rfl | ⟨rfl, rfl⟩
  · -- the stream has ended: only the world and the flag change
    cases act with
    | world w => exact ⟨.inl rfl, rfl, rfl, rfl, fun _ => rfl⟩
    | resume => simp [system] at hen
    | sync => simp [system] at hen
    | arrive => simp [system] at hen
    | fail => simp [system] at hen
    | wake => simp [system, Pos.getTask] at hen
    | cancel => simp [system, Pos.getTask] at hen
    | close => exact ⟨.inl rfl, rfl, rfl, rfl, fun _ => rfl⟩
  · cases act with
    | world w => exact ⟨.inr ⟨rfl, rfl⟩, rfl, rfl, rfl, by simp [Act.resumes]⟩
    | resume => simp [system] at hen
    | sync => simp [system] at hen
    | arrive => simp [system] at hen
    | fail => simp [system] at hen
    | wake => exact ⟨.inl rfl, rfl, rfl, rfl, fun _ => rfl⟩
    | cancel => exact ⟨.inr ⟨rfl, rfl⟩, rfl, rfl, rfl, by simp [Act.resumes]⟩
    | close => exact ⟨.inr ⟨rfl, rfl⟩, rfl, rfl, rfl, by simp [Act.resumes]⟩

/-- **A shut stream stays shut**, and its first resumption ends it. -/
theorem Shut.run {l : List Act} (h : Shut s) (hrun : Lts.Run (system ign) Lts.free s l t) :
    Rests s t (decide (0 < l.countP Act.resumes)) := by
  induction hrun with
  | nil => exact ⟨h, rfl, rfl, rfl, by simp⟩
  | @snoc l u act _ hen _ ih =>
      have hnext := ih.shut.next hen
      refine ⟨hnext.shut, hnext.gets.trans ih.gets, hnext.raises.trans ih.raises,
        hnext.out.trans ih.out, fun hfin => hnext.finished ?_⟩
      rw [List.countP_append, List.countP_singleton, decide_eq_true_eq] at hfin
      cases hact : act.resumes with
      | true => exact .inr rfl
      | false =>
          rw [hact] at hfin
          exact .inl (ih.finished (by simpa using hfin))

theorem Shut.quiet (h : Shut s) : Quiet ign s where
  silent l t hrun := ⟨(h.run hrun).gets, (h.run hrun).raises⟩
  yields l t hrun := ⟨[], by rw [(h.run hrun).out, List.append_nil], List.nil_prefix⟩
  ends l t hrun hcount := (h.run hrun).finished (.inr (decide_eq_true (by omega)))

/-! ### A stream that is not shut -/

/-- Where `events()` runs on to, it has not ended. -/
theorem goOn_ne_finished (s : Stream) : s.goOn.pos ≠ .finished := by
  unfold goOn
  split <;> simp

/-- A stream that is suspended at a `yield`, or not started, outlives its computed events. -/
theorem exists_resumed (hpos : s.pos = .unstarted ∨ s.pos = .yielded) :
    ∃ t, Lts.Run (system ign) Lts.free s (List.replicate (s.computed.length + 1) .resume) t ∧
      t.pos ≠ .finished := by
  obtain ⟨⟨w, todo, busy, out⟩, pos, closing, gets, raises⟩ := s
  induction todo generalizing busy out pos with
  | nil => exact ⟨_, .one hpos trivial, goOn_ne_finished _⟩
  | cons task todo ih =>
      cases task with
      | walk root => exact ⟨_, .one hpos trivial, goOn_ne_finished _⟩
      | yieldEvent e =>
          obtain ⟨t, hrun, ht⟩ := ih .yielded .idle (out ++ [e]) (.inr rfl)
          exact ⟨t, .cons hpos trivial hrun, ht⟩

theorem not_quiet_of_suspended (hpos : s.pos = .unstarted ∨ s.pos = .yielded) :
    ¬ Quiet ign s := by
  intro hquiet
  obtain ⟨t, hrun, ht⟩ := @exists_resumed ign s hpos
  refine ht (hquiet.ends _ t hrun ?_)
  rw [List.countP_replicate, if_pos (show Act.resume.resumes = true from rfl)]
  exact Nat.lt_succ_self _

/-- While a read is awaited the turn is over. -/
def TurnOver (s : Stream) : Prop := s.pos.getTask ≠ none → s.gen.todo = []

theorem turnOver_goOn (s : Stream) : TurnOver s.goOn := by
  obtain ⟨⟨w, todo, busy, out⟩, pos, closing, gets, raises⟩ := s
  cases todo with
  | nil => exact fun _ => rfl
  | cons task todo =>
      intro h
      cases task <;> exact absurd rfl h

theorem TurnOver.next {act : Act} (h : TurnOver s) (hen : (system ign).enabled s act) :
    TurnOver ((system ign).next s act) := by
  cases act with
  | world w => exact h
  | resume => exact turnOver_goOn s
  | sync =>
      have hpos : s.pos = .walking := hen
      show TurnOver (s.sync ign)
      unfold sync
      split
      · split
        · exact turnOver_goOn _
        · -- the walk is still in progress
          intro htask
          exact absurd (congrArg Pos.getTask hpos) htask
      · exact h
  | arrive =>
      intro _
      have htodo : s.gen.todo = [] := h (by rw [hen.1]; simp [Pos.getTask])
      simp only [system, arrive]
      split <;> exact htodo
  | fail =>
      intro _
      have hpos : s.pos = .reading .pending := hen
      have htodo : s.gen.todo = [] := h (by rw [hpos]; simp [Pos.getTask])
      simp only [system, fail]
      split <;> exact htodo
  | wake =>
      simp only [system, wake]
      split
      · exact turnOver_goOn _
      · intro htask
        split at htask <;> exact absurd rfl htask
      · exact fun htask => absurd rfl htask
      · exact h
  | cancel =>
      intro _
      simp only [system, cancel]
      split <;> exact h hen
  | close =>
      intro htask
      refine h fun hnone => htask ?_
      simp only [system, close]
      split
      · rename_i hpos
        rw [hpos] at hnone
        cases hnone
      · exact hnone

theorem turnOver_run {l : List Act} (h : Lts.Run (system ign) Lts.free (fresh fs) l s) :
    TurnOver s :=
  h.invariant (fun htask => absurd rfl htask) fun _ _ hs hen _ => hs.next hen

/-- **Closing the stream.**  At every point of every run at which `aclose()` can be called: from
there on no read is started, nothing but what is computed is yielded, and the stream ends, if and
only if `events()` has ended or awaits a read that has not handed it an event. -/
theorem quiet_close_iff {l : List Act} (h : Lts.Run (system ign) Lts.free (fresh fs) l s)
    (hen : (system ign).enabled s .close) : Quiet ign s.close ↔
      s.pos = .finished ∨ s.pos = .reading .pending ∨ s.pos = .reading .cancelled := by
  constructor
  · intro hquiet
    cases hpos : s.pos with
    | finished => exact .inl rfl
    | walking => exact absurd hpos hen
    | unstarted => exact absurd hquiet (not_quiet_of_suspended (.inl (by simp [close, hpos])))
    | yielded => exact absurd hquiet (not_quiet_of_suspended (.inr (by simp [close, hpos])))
    | reading task =>
        cases task with
        | pending => exact .inr (.inl rfl)
        | cancelled => exact .inr (.inr rfl)
        | failed =>
            have hclosed : s.close.pos = .reading .failed := by simp [close, hpos]
            have hwake : (system ign).enabled s.close .wake :=
              ⟨.failed, by rw [hclosed]; rfl, by simp⟩
            have hraises := (hquiet.silent [.wake] _ (.one hwake trivial)).2
            have hnext : (system ign).next s.close .wake = s.close.wake ign := rfl
            rw [hnext, wake, hclosed] at hraises
            exact absurd hraises (Nat.succ_ne_self _)
        | done e =>
            -- the read is done: the await returns the event, and the turn goes on
            have hclosed : s.close.pos = .reading (.done e) := by simp [close, hpos]
            have htodo : s.gen.todo = [] := turnOver_run h (by rw [hpos]; simp [Pos.getTask])
            have hcomputed : s.close.computed = [] := congrArg yields htodo
            have hwake : (system ign).enabled s.close .wake :=
              ⟨.done e, by rw [hclosed]; rfl, by simp⟩
            have hfin := hquiet.ends [.wake] _ (.one hwake trivial) (by rw [hcomputed]; decide)
            have hnext : (system ign).next s.close .wake = s.close.wake ign := rfl
            rw [hnext, wake, hclosed] at hfin
            exact absurd hfin (goOn_ne_finished _)
  · intro hpos
    refine Shut.quiet ?_
    rcases hpos with hpos | hpos | hpos
    · exact .inl (by simp [close, hpos])
    · exact .inr ⟨by simp [close, hpos], rfl⟩
    · exact .inr ⟨by simp [close, hpos], rfl⟩

/-! ### Closing between two reads -/

/-- `/a` is watched, and a file `x` has appeared in it. -/
def busyShelf : World :=
  (World.start World.shelf [] [str "/a"]).apply (.create [.lit "a"] (.lit "x") false)

/-- `events()` is started and awaits its first read. -/
theorem quiet_close_first_read :
    Quiet [] (fresh World.shelf).goOn.close ↔
      (fresh World.shelf).goOn.pos = .finished ∨
        (fresh World.shelf).goOn.pos = .reading .pending ∨
        (fresh World.shelf).goOn.pos = .reading .cancelled := by
  have hrun : Lts.Run (system []) Lts.free (fresh World.shelf) [.resume] (fresh World.shelf).goOn :=
    .one (.inl rfl) trivial
  exact quiet_close_iff hrun (by decide)

/-- The file's event is read and yielded, and the backend is closed while the consumer handles
it. -/
def closedAtYield : List Act := [.resume, .world busyShelf, .arrive, .wake, .close]

def afterClose : Stream := closedAtYield.foldl (system []).next (fresh World.shelf)

/-- The next resumption reads again, and so does the start of a stream that is closed already. -/
theorem reads_after_close :
    Lts.Run (system []) Lts.free (fresh World.shelf) closedAtYield afterClose ∧
      afterClose.closing = true ∧ afterClose.gets = 1 ∧ (system []).enabled afterClose .resume ∧
      ((system []).next afterClose .resume).gets = 2 ∧ ¬ Quiet [] afterClose ∧
      (fresh World.shelf).close.gets = 0 ∧
      (system []).enabled (fresh World.shelf).close .resume ∧
      ((system []).next (fresh World.shelf).close .resume).gets = 1 ∧
      ¬ Quiet [] (fresh World.shelf).close :=
  ⟨Lts.run_of_exec (by decide +kernel), rfl, rfl, by decide +kernel, by decide +kernel,
    not_quiet_of_suspended (by decide +kernel), rfl, by decide +kernel, by decide +kernel,
    not_quiet_of_suspended (by decide +kernel)⟩

end Stream

end MediaScanMonitor
