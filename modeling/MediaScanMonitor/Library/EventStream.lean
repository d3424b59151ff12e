import MediaScanMonitor.Library.Utf8

/-!
# Library — event streams

The receiver of a `text/event-stream`, which reads its lines as they come in: a line names a field
and its value, and an empty line dispatches what the `data` lines before it were.  A receiver has no
use for how the stream was cut on its way.  Of the fields `id` and `retry` nothing is kept.

* `feed_frame`: one `data` line and an empty one are one message.
* `dispatched_of_prefix`: of a stream that breaks off, the messages are those of its whole frames.
-/

namespace Py.EventStream

/-- `\r`. -/
def carriageReturn : CodePoint := 13

/-- `:`. -/
def colon : CodePoint := 58

/-- A blank. -/
def blank : CodePoint := 32

structure Receiver where
  /-- The line that is being read. -/
  line : Str
  /-- The last character was a carriage return. -/
  afterReturn : Bool
  eventType : Str
  data : Str
  /-- The type and the data of every event. -/
  dispatched : List (Str × Str)
  deriving DecidableEq

namespace Receiver

def init : Receiver := ⟨[], false, [], [], []⟩

/-- A field is processed. -/
def field (r : Receiver) (name value : Str) : Receiver :=
  if name = str "event" then { r with eventType := value }
  else if name = str "data" then { r with data := r.data ++ value ++ [newline] }
  else r

/-- The event is dispatched; its last line break is no part of it. -/
def dispatch (r : Receiver) : Receiver :=
  if r.data = [] then { r with eventType := [] }
  else
    { r with
      eventType := []
      data := []
      dispatched := r.dispatched ++ [(r.eventType, r.data.dropLast)] }

/-- The line has come to its end. -/
def endLine (r : Receiver) : Receiver :=
  let next := { r with line := [] }
  if r.line = [] then next.dispatch
  -- A comment.
  else if r.line.head? = some colon then next
  else
    let value := (r.line.dropWhile (· ≠ colon)).drop 1
    next.field (r.line.takeWhile (· ≠ colon))
      (if value.head? = some blank then value.tail else value)

/-- A character comes in. -/
def step (r : Receiver) (c : CodePoint) : Receiver :=
  if c = newline then
    if r.afterReturn then { r with afterReturn := false } else r.endLine
  else if c = carriageReturn then { r.endLine with afterReturn := true }
  else { r with line := r.line ++ [c], afterReturn := false }

def feed (r : Receiver) (s : Str) : Receiver := s.foldl step r

/-- Between two events. -/
structure Idle (r : Receiver) : Prop where
  line : r.line = []
  afterReturn : r.afterReturn = false
  eventType : r.eventType = []
  data : r.data = []

end Receiver

/-- The messages of a stream. -/
def messages (s : Str) : List Str := (Receiver.init.feed s).dispatched.map Prod.snd

/-- An event of one line. -/
def frame (payload : Str) : Str := str "data: " ++ payload ++ [newline, newline]

/-- No line ends. -/
def OneLine (s : Str) : Prop := ∀ c ∈ s, c ≠ newline ∧ c ≠ carriageReturn

instance (s : Str) : Decidable (OneLine s) := List.decidableBAll _ s

variable {r : Receiver} {s t payload received : Str} {payloads : List Str}

theorem oneLine_append : OneLine (s ++ t) ↔ OneLine s ∧ OneLine t := List.forall_mem_append

namespace Receiver

theorem idle_init : Idle init := ⟨rfl, rfl, rfl, rfl⟩

theorem feed_append (r : Receiver) (s t : Str) : r.feed (s ++ t) = (r.feed s).feed t :=
  List.foldl_append

/-- Characters of a line are collected. -/
theorem feed_oneLine (hr : r.afterReturn = false) (h : OneLine s) :
    r.feed s = { r with line := r.line ++ s } := by
  induction s generalizing r with
  | nil =>
      rw [List.append_nil]
      rfl
  | cons c s ih =>
      obtain ⟨⟨hnew, hreturn⟩, hs⟩ := List.forall_mem_cons.mp h
      have hstep : r.step c = { r with line := r.line ++ [c], afterReturn := false } := by
        rw [step, if_neg hnew, if_neg hreturn]
      have hrest := ih (r := r.step c) (by rw [hstep]) hs
      rw [feed, List.foldl_cons, ← feed, hrest, hstep]
      simp [hr]

/-- A `data` line. -/
theorem endLine_data (hr : r.Idle) (payload : Str) :
    { r with line := str "data: " ++ payload }.endLine =
      { r with data := payload ++ [newline] } := by
  have hline : str "data: " ++ payload = str "data" ++ colon :: blank :: payload := by
    rw [show str "data: " = str "data" ++ [colon, blank] by decide]
    simp
  have hhead : (str "data" ++ colon :: blank :: payload).head? = some 100 := rfl
  have hname : (str "data" ++ colon :: blank :: payload).takeWhile (· ≠ colon) = str "data" := rfl
  have hvalue : ((str "data" ++ colon :: blank :: payload).dropWhile (· ≠ colon)).drop 1 =
      blank :: payload := rfl
  have hblank : (blank :: payload).head? = some blank := rfl
  have hnocolon : some (100 : CodePoint) ≠ some colon := by decide
  have hnoevent : str "data" ≠ str "event" := by decide
  rw [endLine, hline]
  simp only [hname, hvalue, hhead, hblank, if_neg hnocolon, if_true, List.tail_cons]
  rw [if_neg (by simp), field, if_neg hnoevent, if_pos rfl, hr.data, hr.line, List.nil_append]

theorem step_newline (hr : r.afterReturn = false) : r.step newline = r.endLine := by
  rw [step, if_pos rfl, hr, if_neg Bool.false_ne_true]

/-- What the first of the two line ends makes of a frame. -/
theorem feed_data (hr : r.Idle) (h : OneLine payload) :
    r.feed (str "data: " ++ payload ++ [newline]) = { r with data := payload ++ [newline] } := by
  have hline : OneLine (str "data: " ++ payload) := oneLine_append.mpr ⟨by decide, h⟩
  have hstep : { r with line := str "data: " ++ payload }.step newline =
      { r with line := str "data: " ++ payload }.endLine := step_newline hr.afterReturn
  rw [feed_append, feed_oneLine hr.afterReturn hline, hr.line, List.nil_append, feed,
    List.foldl_cons, List.foldl_nil, hstep, endLine_data hr]
  simp only [hr.line]

/-- **One frame is one message.** -/
theorem feed_frame (hr : r.Idle) (h : OneLine payload) :
    r.feed (frame payload) = { r with dispatched := r.dispatched ++ [([], payload)] } := by
  have hframe : frame payload = str "data: " ++ payload ++ [newline] ++ [newline] := by
    rw [frame]
    simp
  have hstep : { r with data := payload ++ [newline] }.step newline =
      { r with data := payload ++ [newline] }.endLine := step_newline hr.afterReturn
  rw [hframe, feed_append, feed_data hr h, feed, List.foldl_cons, List.foldl_nil, hstep, endLine,
    if_pos hr.line, dispatch, if_neg (by simp), List.dropLast_concat]
  simp [hr.line, hr.eventType, hr.data]

theorem Idle.message (hr : r.Idle) (payload : Str) :
    { r with dispatched := r.dispatched ++ [([], payload)] }.Idle :=
  ⟨hr.line, hr.afterReturn, hr.eventType, hr.data⟩

/-- A frame that breaks off is none. -/
theorem dispatched_part (hr : r.Idle) (h : OneLine payload) (hs : s <+: frame payload)
    (hne : s ≠ frame payload) : (r.feed s).dispatched = r.dispatched := by
  have hline : OneLine (str "data: " ++ payload) := oneLine_append.mpr ⟨by decide, h⟩
  have hframe : frame payload = str "data: " ++ payload ++ [newline] ++ [newline] := by
    rw [frame]
    simp
  rw [hframe] at hs hne
  rcases List.prefix_concat_iff.mp hs with heq | hs
  · exact absurd heq hne
  · rcases List.prefix_concat_iff.mp hs with rfl | hs
    · rw [feed_data hr h]
    · rw [feed_oneLine hr.afterReturn fun c hc => hline c (hs.subset hc)]

/-- **A stream that breaks off**: the messages are those of the frames that came in whole. -/
theorem dispatched_of_prefix (hr : r.Idle) (h : ∀ payload ∈ payloads, OneLine payload)
    (hs : received <+: payloads.flatMap frame) :
    ∃ k ≤ payloads.length, (payloads.take k).flatMap frame <+: received ∧
      (k < payloads.length → ¬(payloads.take (k + 1)).flatMap frame <+: received) ∧
      (r.feed received).dispatched = r.dispatched ++ (payloads.take k).map ([], ·) := by
  induction payloads generalizing r received with
  | nil =>
      obtain rfl := List.prefix_nil.mp hs
      exact ⟨0, le_rfl, List.nil_prefix, fun h => absurd h (lt_irrefl 0), (List.append_nil _).symm⟩
  | cons payload payloads ih =>
      rw [List.forall_mem_cons] at h
      by_cases hwhole : frame payload <+: received
      · obtain ⟨rest, rfl⟩ := hwhole
        rw [List.flatMap_cons, List.prefix_append_right_inj] at hs
        obtain ⟨k, hk, htake, hnext, hmessages⟩ := ih (hr.message payload) h.2 hs
        refine ⟨k + 1, Nat.succ_le_succ hk, ?_, fun hlt => ?_, ?_⟩
        · rwa [List.take_succ_cons, List.flatMap_cons, List.prefix_append_right_inj]
        · rw [List.take_succ_cons, List.flatMap_cons, List.prefix_append_right_inj]
          exact hnext (Nat.lt_of_succ_lt_succ hlt)
        · rw [feed_append, feed_frame hr h.1, hmessages, List.take_succ_cons, List.map_cons,
            List.append_assoc]
          rfl
      · have hpart : received <+: frame payload := by
          rw [List.flatMap_cons] at hs
          rcases List.prefix_or_prefix_of_prefix hs (List.prefix_append _ _) with hs | hs
          · exact hs
          · exact absurd hs hwhole
        have hne : received ≠ frame payload := by
          rintro rfl
          exact hwhole List.prefix_rfl
        refine ⟨0, Nat.zero_le _, List.nil_prefix, fun _ => ?_, ?_⟩
        · rwa [List.take_succ_cons, List.take_zero, List.flatMap_singleton]
        · rw [dispatched_part hr h.1 hpart hne, List.take_zero, List.map_nil, List.append_nil]

end Receiver

/-- The messages of a new stream that breaks off. -/
theorem messages_of_prefix (h : ∀ payload ∈ payloads, OneLine payload)
    (hs : received <+: payloads.flatMap frame) :
    ∃ k ≤ payloads.length, (payloads.take k).flatMap frame <+: received ∧
      (k < payloads.length → ¬(payloads.take (k + 1)).flatMap frame <+: received) ∧
      messages received = payloads.take k := by
  obtain ⟨k, hk, htake, hnext, hdispatched⟩ :=
    Receiver.dispatched_of_prefix Receiver.idle_init h hs
  refine ⟨k, hk, htake, hnext, ?_⟩
  rw [messages, hdispatched, Receiver.init, List.nil_append, List.map_map]
  exact List.map_id _

end Py.EventStream
