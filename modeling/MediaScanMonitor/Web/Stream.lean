import MediaScanMonitor.Library.EventStream
import MediaScanMonitor.Library.JsonObject
import MediaScanMonitor.Observ.EventsBus

/-!
# Web — the event streams of `web/pages.py`

`/events/stream` and `/events/raw/stream`: a generator replays what the bus remembers, subscribes
and passes on what is published then, each record as a frame of its own (`_sse_frame`).  The two
generators differ in their records.  One generator is followed here while everything else that uses
the bus does what it likes.

* `messages_sseFrame`, `messages_rawSseFrame`: what a client reads off a stream that breaks off.
* `SseStream.Sound`: what was sent, told by where the generator stands.
* `SseStream.accounted`: no record is sent twice or out of order, and which are missed.
-/

namespace MediaScanMonitor
open Py Recent

/-! ### Frames -/

/-- An optional string. -/
def optStr (s : Option Str) : Json.Scalar := s.elim .null .str

/-- The names of `dataclasses.fields`. -/
def EventRecord.fieldNames : List Str :=
  [str "ts", str "server_id", str "server_name", str "scan_mode", str "scan_key", str "scan_path",
    str "library_id", str "event_type", str "file_path", str "ok", str "status_code", str "detail"]

/-- `dataclasses.asdict`. -/
def EventRecord.asdict (record : EventRecord) : List (Str × Json.Scalar) :=
  fieldNames.zip [.str record.ts, .int record.serverId, .str record.serverName,
    .str record.scanMode, .str record.scanKey, optStr record.scanPath, optStr record.libraryId,
    .str record.eventType, .str record.filePath, .bool record.ok,
    record.statusCode.elim .null .int, .str record.detail]

def RawEventRecord.fieldNames : List Str :=
  [str "ts", str "event_type", str "path", str "is_dir", str "matched"]

def RawEventRecord.asdict (record : RawEventRecord) : List (Str × Json.Scalar) :=
  fieldNames.zip [.str record.ts, .str record.eventType, .str record.path, .bool record.isDir,
    .bool record.matched]

/-- `f"data: {json.dumps(d)}\n\n"`. -/
def dataFrame (d : List (Str × Json.Scalar)) : Str :=
  str "data: " ++ Json.dumps d ++ str "\n\n"

/-- `_sse_frame`. -/
def sseFrame (record : EventRecord) : Str := dataFrame record.asdict

/-- `_raw_sse_frame`. -/
def rawSseFrame (record : RawEventRecord) : Str := dataFrame record.asdict

section Frames
variable {α : Type} {asdict : α → List (Str × Json.Scalar)} {records : List α} {received : Str}

theorem dataFrame_eq (d : List (Str × Json.Scalar)) :
    dataFrame d = EventStream.frame (Json.dumps d) := rfl

/-- A printable text is one line. -/
theorem oneLine_of_printable {s : Str} (h : Json.Printable s) : EventStream.OneLine s := by
  intro c hc
  have hrange := h c hc
  constructor
  · rintro rfl
    exact absurd hrange.1 (by decide)
  · rintro rfl
    exact absurd hrange.1 (by decide)

/-- **A client reads the records whose frames came in whole**, wherever the stream breaks off. -/
theorem messages_dataFrame (h : received <+: records.flatMap (dataFrame ∘ asdict)) :
    ∃ k ≤ records.length, (records.take k).flatMap (dataFrame ∘ asdict) <+: received ∧
      (k < records.length →
        ¬(records.take (k + 1)).flatMap (dataFrame ∘ asdict) <+: received) ∧
      EventStream.messages received = (records.take k).map (Json.dumps ∘ asdict) := by
  have hflat : ∀ l : List α, (l.map (Json.dumps ∘ asdict)).flatMap EventStream.frame =
      l.flatMap (dataFrame ∘ asdict) := fun l => List.flatMap_map _ _ l
  have hlines : ∀ payload ∈ records.map (Json.dumps ∘ asdict), EventStream.OneLine payload := by
    intro payload hpayload
    obtain ⟨record, -, rfl⟩ := List.mem_map.mp hpayload
    exact oneLine_of_printable (Json.printable_dumps _)
  rw [← hflat] at h
  obtain ⟨k, hk, htake, hnext, hmessages⟩ := EventStream.messages_of_prefix hlines h
  rw [List.length_map] at hk hnext
  rw [← List.map_take, hflat] at htake
  rw [← List.map_take, hflat] at hnext
  rw [← List.map_take] at hmessages
  exact ⟨k, hk, htake, hnext, hmessages⟩

/-- Every frame can be sent, one byte a character. -/
theorem encode_dataFrame (records : List α) :
    encode (records.flatMap (dataFrame ∘ asdict)) =
      some ((records.flatMap (dataFrame ∘ asdict)).map fun c => byte c.val) := by
  refine encode_of_lt fun c hc => ?_
  obtain ⟨record, -, hc⟩ := List.mem_flatMap.mp hc
  rw [Function.comp_apply, dataFrame, List.mem_append, List.mem_append] at hc
  have hends : (str "data: " ++ str "\n\n").all (fun c => c.val < 0x80) = true := by decide
  have hend : ∀ c ∈ str "data: " ++ str "\n\n", c.val < 0x80 := fun c hc =>
    of_decide_eq_true (List.all_eq_true.mp hends c hc)
  rcases hc with (hc | hc) | hc
  · exact hend c (List.mem_append_left _ hc)
  · exact lt_of_le_of_lt (Json.printable_dumps _ c hc).2 (by decide)
  · exact hend c (List.mem_append_right _ hc)

end Frames

theorem EventRecord.isKeys (record : EventRecord) :
    Json.IsKeys (record.asdict.map Prod.fst) := by
  have hkeys : Json.IsKeys EventRecord.fieldNames :=
    Json.isKeys_of_ascii (by decide) (by decide)
  exact hkeys

theorem RawEventRecord.isKeys (record : RawEventRecord) :
    Json.IsKeys (record.asdict.map Prod.fst) := by
  have hkeys : Json.IsKeys RawEventRecord.fieldNames :=
    Json.isKeys_of_ascii (by decide) (by decide)
  exact hkeys

/-- **The wire format of `/events/stream`**: every stream of frames can be encoded, and of one that
breaks off a client reads the records whose frames came in whole, each as it was exactly when no
string of it has a pair of surrogates. -/
theorem messages_sseFrame {records : List EventRecord} {received : Str}
    (h : received <+: records.flatMap sseFrame) :
    encode (records.flatMap sseFrame) =
        some ((records.flatMap sseFrame).map fun c => byte c.val) ∧
      (∃ k ≤ records.length, (records.take k).flatMap sseFrame <+: received ∧
        (k < records.length → ¬(records.take (k + 1)).flatMap sseFrame <+: received) ∧
        EventStream.messages received = (records.take k).map fun r => Json.dumps r.asdict) ∧
      ∀ record ∈ records, Json.loads (Json.dumps record.asdict) = some record.asdict ↔
        ∀ member ∈ record.asdict, member.2.Unpaired :=
  ⟨encode_dataFrame records, messages_dataFrame h,
    fun record _ => Json.loads_dumps_eq_iff record.isKeys⟩

/-- The wire format of `/events/raw/stream`. -/
theorem messages_rawSseFrame {records : List RawEventRecord} {received : Str}
    (h : received <+: records.flatMap rawSseFrame) :
    encode (records.flatMap rawSseFrame) =
        some ((records.flatMap rawSseFrame).map fun c => byte c.val) ∧
      (∃ k ≤ records.length, (records.take k).flatMap rawSseFrame <+: received ∧
        (k < records.length → ¬(records.take (k + 1)).flatMap rawSseFrame <+: received) ∧
        EventStream.messages received = (records.take k).map fun r => Json.dumps r.asdict) ∧
      ∀ record ∈ records, Json.loads (Json.dumps record.asdict) = some record.asdict ↔
        ∀ member ∈ record.asdict, member.2.Unpaired :=
  ⟨encode_dataFrame records, messages_dataFrame h,
    fun record _ => Json.loads_dumps_eq_iff record.isKeys⟩

/-- An event of a file whose name is no text, on a stream that breaks off in its second frame. -/
def lateEvent : EventRecord where
  ts := str "2026-06-20T18:30:00+00:00"
  serverId := 1
  serverName := str "plex-1"
  scanMode := str "targeted"
  scanKey := str "/media"
  scanPath := some (str "/media")
  libraryId := none
  eventType := str "created"
  filePath := str "/media/\"\n" ++ [0xDC80]
  ok := true
  statusCode := some 200
  detail := str "ok"

theorem messages_sseFrame_late :
    let stream := [lateEvent, lateEvent].flatMap sseFrame
    ∃ k ≤ 2, ([lateEvent, lateEvent].take k).flatMap sseFrame <+: stream.take 400 ∧
      EventStream.messages (stream.take 400) =
        ([lateEvent, lateEvent].take k).map fun r => Json.dumps r.asdict := by
  intro stream
  obtain ⟨-, ⟨k, hk, hwhole, -, hmessages⟩, -⟩ :=
    @messages_sseFrame [lateEvent, lateEvent] _ (List.take_prefix 400 stream)
  exact ⟨k, hk, hwhole, hmessages⟩

/-! ### The generator -/

/-- Where `_event_generator` is suspended. -/
inductive SsePhase (α : Type) where
  | created
  /-- At the `yield` of the first loop, with what is left of `recent`. -/
  | replaying (rest : List α)
  /-- At `get` of the queue that is the `k`-th of the bus, or at the `yield` behind it. -/
  | live (k : Nat)
  /-- At `is_disconnected`, with a record of the queue in hand. -/
  | asking (k : Nat) (record : α)
  /-- At its end, with a subscription that is not closed yet. -/
  | ended (k : Option Nat)
  deriving DecidableEq

/-- A generator and the bus that it shares. -/
structure SseStream (α : Type) where
  bus : Bus α
  phase : SsePhase α
  sent : List α
  /-- How many records were published when `recent` was called. -/
  start : Nat
  deriving DecidableEq

namespace SseStream
variable {α : Type}

/-- The limit of `recent`. -/
def recentLimit : Nat := 50

/-- The first loop goes on; behind it the generator subscribes. -/
def replayFrom (s : SseStream α) : List α → SseStream α
  | record :: rest => { s with phase := .replaying rest, sent := s.sent ++ [record] }
  | [] => { s with bus := s.bus.subscribe, phase := .live s.bus.subscribers.length }

/-- `recent` is called. -/
def atStart (s : SseStream α) : SseStream α := { s with start := s.bus.published.length }

/-- The queue of the generator. -/
def queueOf (s : SseStream α) (k : Nat) : List (Numbered α) :=
  (s.bus.subscribers[k]?.map Subscriber.queue).getD []

inductive Act (α : Type) where
  /-- Somebody else uses the bus. -/
  | other (act : Bus.Act α)
  /-- The first `__anext__`. -/
  | start
  /-- The frame was sent, and the next one is asked for. -/
  | resume
  /-- A record is taken out of the queue. -/
  | get
  /-- `is_disconnected` answers. -/
  | answer (disconnected : Bool)
  /-- The task of the response is cancelled. -/
  | cancel
  /-- The subscription is closed. -/
  | finalize

/-- The queue that the generator holds. -/
def SsePhase.subscription : SsePhase α → Option Nat
  | .created | .replaying _ => none
  | .live k | .asking k _ => some k
  | .ended k => k

/-- What somebody else does to the bus leaves the queue alone. -/
def isOther (own : Option Nat) : Bus.Act α → Bool
  | .publish _ | .subscribe => true
  | .read k | .unsubscribe k => own ≠ some k

/-- Whether the generator can take a step of its own. -/
def mayTake (s : SseStream α) (act : Act α) : Bool :=
  match act, s.phase with
  | .start, .created => true
  | .resume, .replaying _ => true
  | .get, .live k => !(s.queueOf k).isEmpty
  | .answer _, .asking _ _ => true
  | .cancel, .ended _ => false
  | .cancel, _ => true
  | .finalize, .ended (some _) => true
  | _, _ => false

def system (α : Type) : Lts.System (SseStream α) (Act α) where
  enabled s
    | .other act =>
      (Bus.system α).enabled s.bus act ∧ isOther (SsePhase.subscription s.phase) act = true
    | act => s.mayTake act = true
  next s
    | .other act => { s with bus := (Bus.system α).next s.bus act }
    | .start => s.atStart.replayFrom (s.bus.recent recentLimit)
    | .resume => match s.phase with
      | .replaying rest => s.replayFrom rest
      | _ => s
    | .get => match s.phase with
      | .live k => match s.queueOf k with
        | record :: _ =>
          { s with
            bus := { s.bus with subscribers := s.bus.subscribers.modify k Subscriber.get }
            phase := .asking k record.item }
        | [] => s
      | _ => s
    | .answer disconnected => match s.phase with
      | .asking k record =>
        if disconnected then { s with phase := .ended (some k) }
        else { s with phase := .live k, sent := s.sent ++ [record] }
      | _ => s
    | .cancel => { s with phase := .ended (SsePhase.subscription s.phase) }
    | .finalize => match s.phase with
      | .ended (some k) =>
        { s with
          bus := { s.bus with subscribers := s.bus.subscribers.modify k Subscriber.discard }
          phase := .ended none }
      | _ => s

/-- A new response. -/
def init (capacity : Nat) : SseStream α := ⟨Bus.init capacity, .created, [], 0⟩

/-! ### What was sent -/

variable {s : SseStream α} {l : List (Act α)} {capacity k : Nat} {own : Option Nat}
  {bus bus' : Bus α} {record : Numbered α}

/-- What `recent` returned. -/
def replayed (s : SseStream α) : List (Numbered α) :=
  ((numbered s.bus.published).take s.start).rtake (min recentLimit s.bus.capacity)

/-- The generator has subscribed, and has taken these records in. -/
structure Subscribed (s : SseStream α) (k : Nat) (taken : List α) : Prop where
  start : s.start ≤ s.bus.published.length
  sub : ∃ sub, s.bus.subscribers[k]? = some sub ∧ sub.registered = true ∧ s.start ≤ sub.since ∧
    (s.replayed = [] → sub.since = s.start) ∧
    taken = s.replayed.map Numbered.item ++ sub.received.map Numbered.item

/-- What was sent, told by where the generator stands. -/
def Told (s : SseStream α) : Prop :=
  match s.phase with
  | .created => s.sent = []
  | .replaying rest =>
    s.start ≤ s.bus.published.length ∧ s.sent ++ rest = s.replayed.map Numbered.item ∧
      s.replayed ≠ []
  | .live k => s.Subscribed k s.sent
  | .asking k record => s.Subscribed k (s.sent ++ [record])
  | .ended _ => s.sent.Sublist s.bus.published

/-- The invariant. -/
structure Sound (capacity : Nat) (s : SseStream α) : Prop where
  bus : s.bus.Sound capacity
  told : s.Told

/-- What others do to a bus, seen from a queue. -/
structure Kept (own : Option Nat) (bus bus' : Bus α) : Prop where
  published : bus.published <+: bus'.published
  capacity : bus'.capacity = bus.capacity
  sub : ∀ k sub, own = some k → bus.subscribers[k]? = some sub →
    ∃ sub', bus'.subscribers[k]? = some sub' ∧ sub'.registered = sub.registered ∧
      sub'.since = sub.since ∧ sub'.received = sub.received

theorem map_item_numbered (l : List α) : (numbered l).map Numbered.item = l := by
  refine List.ext_getElem? fun i => ?_
  rw [numbered, List.getElem?_map, List.getElem?_mapIdx, Option.map_map]
  exact congrFun Option.map_id _

theorem mem_numbered {l : List α} (h : record ∈ numbered l) :
    (numbered l)[record.number]? = some record := by
  obtain ⟨before, after, heq⟩ := List.append_of_mem h
  rw [number_of_append heq, heq, List.getElem?_append_right le_rfl, Nat.sub_self,
    List.getElem?_cons_zero]

theorem numbered_take (l : List α) (n : Nat) : (numbered l).take n = numbered (l.take n) := by
  refine List.ext_getElem? fun i => ?_
  rw [numbered, numbered, List.getElem?_take, List.getElem?_mapIdx, List.getElem?_mapIdx,
    List.getElem?_take]
  split <;> rfl

/-- What was published later changes nothing of what was before. -/
theorem take_of_prefix {l l' : List α} {n : Nat} (h : l <+: l') (hn : n ≤ l.length) :
    (numbered l').take n = (numbered l).take n := by
  obtain ⟨later, rfl⟩ := h
  rw [numbered_take, numbered_take, List.take_append_of_le_length hn]

/-- **What others do** leaves the queue registered, and what was read of it. -/
theorem kept_other (hsound : bus.Sound capacity) {act : Bus.Act α}
    (h : isOther own act = true) : Kept own bus ((Bus.system α).next bus act) := by
  cases act with
  | publish record =>
      simp only [Bus.system, Bus.publish_eq hsound, Except.toOption, Option.getD_some]
      refine ⟨List.prefix_append _ _, rfl, fun k sub _ hsub => ?_⟩
      refine ⟨bus.deliver record sub, by rw [List.getElem?_map, hsub]; rfl, ?_⟩
      rw [Bus.deliver]
      split <;> exact ⟨rfl, rfl, rfl⟩
  | subscribe =>
      refine ⟨List.prefix_rfl, rfl, fun k sub _ hsub => ⟨sub, ?_, rfl, rfl, rfl⟩⟩
      exact List.getElem?_append_left (List.getElem?_eq_some_iff.mp hsub).1 ▸ hsub
  | read j =>
      refine ⟨List.prefix_rfl, rfl, fun k sub hown hsub => ⟨sub, ?_, rfl, rfl, rfl⟩⟩
      have hne : j ≠ k := by
        rintro rfl
        simp [isOther, hown] at h
      exact (List.getElem?_modify_ne _ _ hne).trans hsub
  | unsubscribe j =>
      refine ⟨List.prefix_rfl, rfl, fun k sub hown hsub => ⟨sub, ?_, rfl, rfl, rfl⟩⟩
      have hne : j ≠ k := by
        rintro rfl
        simp [isOther, hown] at h
      exact (List.getElem?_modify_ne _ _ hne).trans hsub

theorem Kept.replayed {s s' : SseStream α} (h : Kept own s.bus s'.bus)
    (hstart : s'.start = s.start) (hle : s.start ≤ s.bus.published.length) :
    s'.replayed = s.replayed := by
  rw [SseStream.replayed, SseStream.replayed, h.capacity, hstart, take_of_prefix h.published hle]

theorem Kept.subscribed {s s' : SseStream α} {taken : List α} (hs : s.Subscribed k taken)
    (h : Kept (some k) s.bus s'.bus) (hstart : s'.start = s.start) : s'.Subscribed k taken := by
  obtain ⟨hle, sub, hsub, hreg, hsince, hgap, htaken⟩ := hs
  obtain ⟨sub', hsub', hreg', hsince', hreceived⟩ := h.sub k sub rfl hsub
  have hreplayed := h.replayed hstart hle
  refine ⟨hstart ▸ hle.trans h.published.length_le, sub', hsub', hreg'.trans hreg, ?_, ?_, ?_⟩
  · rw [hstart, hsince']
    exact hsince
  · rw [hreplayed, hstart, hsince']
    exact hgap
  · rw [hreplayed, hreceived]
    exact htaken

/-- A step of somebody else. -/
theorem sound_other (h : s.Sound capacity) {act : Bus.Act α}
    (hother : isOther (SsePhase.subscription s.phase) act = true)
    (hbus : ((Bus.system α).next s.bus act).Sound capacity) :
    Sound capacity { s with bus := (Bus.system α).next s.bus act } := by
  have hkept := kept_other h.bus hother
  refine ⟨hbus, ?_⟩
  have htold := h.told
  rw [Told] at htold ⊢
  cases hphase : s.phase with
  | created =>
      rw [hphase] at htold
      exact htold
  | replaying rest =>
      rw [hphase] at htold
      have hreplayed : SseStream.replayed { s with bus := (Bus.system α).next s.bus act } =
          s.replayed := hkept.replayed rfl htold.1
      exact ⟨htold.1.trans hkept.published.length_le, hreplayed ▸ htold.2⟩
  | live k =>
      rw [hphase] at htold hkept
      have hs : s.Subscribed k s.sent := htold
      exact Kept.subscribed hs hkept rfl
  | asking k record =>
      rw [hphase] at htold hkept
      have hs : s.Subscribed k (s.sent ++ [record]) := htold
      exact Kept.subscribed hs hkept rfl
  | ended k =>
      rw [hphase] at htold
      exact htold.trans hkept.published.sublist

/-- The bus remembers what `recent` returns. -/
theorem recent_eq (h : bus.Sound capacity) :
    bus.recent recentLimit =
      (((numbered bus.published).take bus.published.length).rtake
        (min recentLimit bus.capacity)).map Numbered.item := by
  have hall : (numbered bus.published).take bus.published.length = numbered bus.published := by
    rw [← length_numbered, List.take_length]
  rw [Bus.recent, if_neg (by decide), h.buffer, rtake_rtake, hall, List.rtake, List.rtake,
    List.map_drop, map_item_numbered, length_numbered]
  rfl

/-- The generator goes on with the first loop, or behind it. -/
theorem sound_replayFrom (hbus : s.bus.Sound capacity) (hstart : s.start ≤ s.bus.published.length)
    (rest : List α) (hsent : s.sent ++ rest = s.replayed.map Numbered.item)
    (hgap : s.replayed = [] → s.start = s.bus.published.length) :
    (s.replayFrom rest).Sound capacity := by
  cases rest with
  | cons record rest =>
      refine ⟨hbus, hstart, ?_, ?_⟩
      · have happend : s.sent ++ [record] ++ rest = s.sent ++ record :: rest := by
          rw [List.append_assoc, List.singleton_append]
        exact happend.trans hsent
      · intro hnil
        have hlength := congrArg List.length hsent
        have hreplayed : s.replayed = [] := hnil
        rw [hreplayed, List.map_nil, List.length_append, List.length_cons, List.length_nil]
          at hlength
        omega
  | nil =>
      rw [List.append_nil] at hsent
      refine ⟨Bus.sound_subscribe hbus, hstart, ⟨[], true, s.bus.published.length, []⟩, ?_, rfl,
        hstart, fun hnil => (hgap hnil).symm, ?_⟩
      · exact List.getElem?_concat_length
      · rw [List.map_nil, List.append_nil]
        exact hsent

theorem sound_get (h : bus.Sound capacity) (k : Nat) :
    Bus.Sound capacity { bus with subscribers := bus.subscribers.modify k Subscriber.get } := by
  refine h.modify (fun sub => ?_) (fun stream sub hkeeps hreg => ?_) k
  · rw [Subscriber.get]
    split <;> rfl
  · refine (hkeeps ?_).get
    rw [Subscriber.get] at hreg
    split at hreg <;> exact hreg

theorem sound_discard (h : bus.Sound capacity) (k : Nat) :
    Bus.Sound capacity { bus with subscribers := bus.subscribers.modify k Subscriber.discard } := by
  refine h.modify (f := Subscriber.discard) (fun _ => rfl) (fun _ _ _ hreg => ?_) k
  cases hreg

theorem sound_bus (h : bus.Sound capacity) (act : Bus.Act α) :
    ((Bus.system α).next bus act).Sound capacity := by
  cases act with
  | publish record => exact Bus.sound_publish h record
  | subscribe => exact Bus.sound_subscribe h
  | read k => exact sound_get h k
  | unsubscribe k => exact sound_discard h k

/-- What was replayed and what was read and is queued, in the order of its publication. -/
theorem sublist_numbered {sub : Subscriber α} (hsub : s.start ≤ sub.since)
    (hkeeps : sub.Keeps (s.bus.publishedSince sub)) :
    (s.replayed ++ (sub.received ++ sub.queue)).Sublist (numbered s.bus.published) := by
  have hreplayed : s.replayed.Sublist ((numbered s.bus.published).take s.start) :=
    (rtake_suffix _ _).sublist
  have hsince : (s.bus.publishedSince sub).Sublist ((numbered s.bus.published).drop s.start) := by
    rw [Bus.publishedSince, ← Nat.add_sub_cancel' hsub, ← List.drop_drop]
    exact List.drop_sublist _ _
  have happend := hreplayed.append (hkeeps.inOrder.trans hsince)
  rwa [List.take_append_drop] at happend

theorem Subscribed.sublist {taken : List α} (hbus : s.bus.Sound capacity)
    (h : s.Subscribed k taken) : taken.Sublist s.bus.published := by
  obtain ⟨hstart, sub, hsub, hreg, hsince, -, rfl⟩ := h
  have hall := sublist_numbered hsince (hbus.keeps sub (List.mem_of_getElem? hsub) hreg)
  rw [← List.append_assoc] at hall
  have hmap := ((List.sublist_append_left _ _).trans hall).map Numbered.item
  rwa [map_item_numbered, List.map_append] at hmap

/-- **No record is sent twice or out of order.** -/
theorem Sound.sublist (h : s.Sound capacity) : s.sent.Sublist s.bus.published := by
  have htold := h.told
  rw [Told] at htold
  cases hphase : s.phase with
  | created =>
      rw [hphase] at htold
      have hnil : s.sent = [] := htold
      exact hnil ▸ List.nil_sublist _
  | replaying rest =>
      rw [hphase] at htold
      obtain ⟨-, hsent, -⟩ := htold
      have hreplayed : s.replayed.Sublist (numbered s.bus.published) :=
        (rtake_suffix _ _).sublist.trans (List.take_sublist _ _)
      have hmap := hreplayed.map Numbered.item
      rw [map_item_numbered, ← hsent] at hmap
      exact (List.sublist_append_left _ _).trans hmap
  | live k =>
      rw [hphase] at htold
      exact Subscribed.sublist h.bus htold
  | asking k record =>
      rw [hphase] at htold
      exact (List.sublist_append_left _ _).trans (Subscribed.sublist h.bus htold)
  | ended k =>
      rw [hphase] at htold
      exact htold

/-- A record is taken out of the queue. -/
theorem Subscribed.get (hs : s.Subscribed k s.sent) {queue : List (Numbered α)}
    (hqueue : s.queueOf k = record :: queue) :
    Subscribed { s with
        bus := { s.bus with subscribers := s.bus.subscribers.modify k Subscriber.get }
        phase := .asking k record.item } k (s.sent ++ [record.item]) := by
  obtain ⟨hstart, sub, hsub, hreg, hsince, hgap, hsent⟩ := hs
  have hq : sub.queue = record :: queue := by
    rw [queueOf, hsub] at hqueue
    exact hqueue
  have hget : sub.get = { sub with queue := queue, received := sub.received ++ [record] } := by
    rw [Subscriber.get]
    simp only [hq]
  refine ⟨hstart, sub.get, ?_, ?_, ?_, ?_, ?_⟩
  · rw [List.getElem?_modify_eq, hsub]
    rfl
  · rw [hget]
    exact hreg
  · rw [hget]
    exact hsince
  · rw [hget]
    exact hgap
  · rw [hget, hsent, List.map_append, List.append_assoc]
    rfl

theorem sound_step {act : Act α} (h : s.Sound capacity) (hen : (system α).enabled s act) :
    ((system α).next s act).Sound capacity := by
  have htold := h.told
  rw [Told] at htold
  cases act with
  | other act => exact sound_other h hen.2 (sound_bus h.bus act)
  | start =>
      simp only [system] at hen
      cases hphase : s.phase with
      | created =>
          rw [hphase] at htold
          have hsent : s.sent = [] := htold
          have hreplayed : s.atStart.sent ++ s.bus.recent recentLimit =
              s.atStart.replayed.map Numbered.item := by
            rw [recent_eq h.bus, show s.atStart.sent = [] from hsent]
            rfl
          have hlast : s.atStart.start = s.atStart.bus.published.length := rfl
          have hbus : s.atStart.bus.Sound capacity := h.bus
          exact sound_replayFrom hbus hlast.le _ hreplayed fun _ => hlast
      | replaying | live | asking | ended => simp [mayTake, hphase] at hen
  | resume =>
      simp only [system] at hen ⊢
      cases hphase : s.phase with
      | replaying rest =>
          rw [hphase] at htold
          obtain ⟨hstart, hsent, hne⟩ := htold
          exact sound_replayFrom h.bus hstart rest hsent fun hnil => absurd hnil hne
      | created | live | asking | ended => simp [mayTake, hphase] at hen
  | get =>
      simp only [system] at hen ⊢
      cases hphase : s.phase with
      | live k =>
          rw [hphase] at htold
          have hs : s.Subscribed k s.sent := htold
          cases hqueue : s.queueOf k with
          | nil => simp [mayTake, hphase, hqueue] at hen
          | cons record queue =>
              simp only [hqueue]
              exact ⟨sound_get h.bus k, hs.get hqueue⟩
      | created | replaying | asking | ended => simp [mayTake, hphase] at hen
  | answer disconnected =>
      simp only [system] at hen ⊢
      cases hphase : s.phase with
      | asking k record =>
          rw [hphase] at htold
          have hs : s.Subscribed k (s.sent ++ [record]) := htold
          cases disconnected with
          | true =>
              simp only [if_true]
              exact ⟨h.bus, h.sublist⟩
          | false =>
              simp only [Bool.false_eq_true, if_false]
              exact ⟨h.bus, hs.start, hs.sub⟩
      | created | replaying | live | ended => simp [mayTake, hphase] at hen
  | cancel => exact ⟨h.bus, h.sublist⟩
  | finalize =>
      simp only [system] at hen ⊢
      cases hphase : s.phase with
      | ended k =>
          cases k with
          | none => simp [mayTake, hphase] at hen
          | some k => exact ⟨sound_discard h.bus k, h.sublist⟩
      | created | replaying | live | asking => simp [mayTake, hphase] at hen

theorem sound_run (h : Lts.Run (system α) Lts.free (init capacity) l s) : s.Sound capacity :=
  h.invariant ⟨Bus.sound_init capacity, rfl⟩ fun _ _ hsound hen _ => sound_step hsound hen

/-- Every record published is one that was replayed, came later, or was too early to be. -/
theorem mem_published {sub : Subscriber α} (hbus : s.bus.Sound capacity)
    (hkeeps : sub.Keeps (s.bus.publishedSince sub)) (hmem : record ∈ numbered s.bus.published)
    (hno : record ∉ s.replayed ++ (sub.received ++ sub.queue)) :
    record.number < s.start ∧ min recentLimit capacity ≤ s.start - (record.number + 1) ∨
      s.start ≤ record.number ∧ record.number < sub.since ∨
      sub.since ≤ record.number ∧
        subscriberQueueMaxsize ≤ s.bus.published.length - (record.number + 1) := by
  rw [List.mem_append, not_or] at hno
  have hget := mem_numbered hmem
  by_cases hearly : record.number < s.start
  · left
    have htake : record ∈ numbered (s.bus.published.take s.start) := by
      rw [← numbered_take]
      refine List.mem_of_getElem? (i := record.number) ?_
      rw [List.getElem?_take, if_pos hearly, hget]
    have hreplayed : s.replayed = (numbered (s.bus.published.take s.start)).rtake
        (min recentLimit capacity) := by
      rw [replayed, numbered_take, hbus.capacity]
    have hnumber := number_of_not_mem List.suffix_rfl htake (hreplayed ▸ hno.1)
    rw [List.length_take] at hnumber
    omega
  · right
    by_cases hgap : record.number < sub.since
    · exact .inl ⟨by omega, hgap⟩
    · right
      have hdrop : record ∈ s.bus.publishedSince sub := by
        refine List.mem_of_getElem? (i := record.number - sub.since) ?_
        rw [Bus.publishedSince, List.getElem?_drop, Nat.add_sub_cancel' (by omega), hget]
      exact ⟨by omega, number_of_not_mem (List.drop_suffix _ _) hdrop
        fun hlatest => hno.2 (hkeeps.latest.subset hlatest)⟩

/-- **What a client of a stream is sent**, over any interleaving of the generator with publications
and other subscribers: nothing twice or out of order; once it has subscribed, it was sent what
`recent` returned and what it has read since; and a record that it neither was sent nor has in its
queue was one too many for `recent`, was published between `recent` and the subscription, or has
been pushed out of the queue.  Where `recent` had nothing to return there is no such gap. -/
theorem accounted (h : Lts.Run (system α) Lts.free (init capacity) l s) :
    s.sent.Sublist s.bus.published ∧
      ∀ k, s.phase = .live k → ∃ sub, s.bus.subscribers[k]? = some sub ∧
        s.start ≤ sub.since ∧ (s.replayed = [] → sub.since = s.start) ∧
        s.sent = (s.replayed ++ sub.received).map Numbered.item ∧
        (s.replayed ++ (sub.received ++ sub.queue)).Sublist (numbered s.bus.published) ∧
        ∀ record ∈ numbered s.bus.published,
          record ∉ s.replayed ++ (sub.received ++ sub.queue) →
          record.number < s.start ∧ min recentLimit capacity ≤ s.start - (record.number + 1) ∨
            s.start ≤ record.number ∧ record.number < sub.since ∨
            sub.since ≤ record.number ∧
              subscriberQueueMaxsize ≤ s.bus.published.length - (record.number + 1) := by
  have hsound := sound_run h
  refine ⟨hsound.sublist, fun k hphase => ?_⟩
  have htold := hsound.told
  rw [Told, hphase] at htold
  obtain ⟨-, sub, hsub, hreg, hsince, hgap, hsent⟩ := htold
  have hkeeps := hsound.bus.keeps sub (List.mem_of_getElem? hsub) hreg
  refine ⟨sub, hsub, hsince, hgap, ?_, sublist_numbered hsince hkeeps, fun record hmem hno =>
    mem_published hsound.bus hkeeps hmem hno⟩
  rw [hsent, List.map_append]

instance (s : SseStream α) : ∀ act, Decidable ((system α).enabled s act)
  | .other _ => inferInstanceAs (Decidable (_ ∧ _ = true))
  | .start | .resume | .get | .answer _ | .cancel | .finalize =>
    inferInstanceAs (Decidable (_ = true))

/-- A record is published while the last one that `recent` returned is sent. -/
def gap : List (Act Nat) :=
  [.other (.publish 1), .start, .other (.publish 2), .resume, .other (.publish 3), .get,
    .answer false]

theorem accounted_gap :
    let s := gap.foldl (system Nat).next (init 200)
    s.sent = [1, 3] ∧ s.sent.Sublist s.bus.published ∧ s.bus.published = [1, 2, 3] := by
  have hrun : Lts.Run (system Nat) Lts.free (init 200) gap _ := Lts.run_of_exec (by decide)
  exact ⟨rfl, (accounted hrun).1, rfl⟩

end SseStream

end MediaScanMonitor
