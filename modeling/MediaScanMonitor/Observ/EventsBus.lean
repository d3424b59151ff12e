import MediaScanMonitor.Library.Lts
import MediaScanMonitor.Library.Recent
import MediaScanMonitor.Library.Str

/-!
# Observ — `observ/events_bus.py`

`EventsBus` and `RawEventsBus`, which differ in their records only.  A subscriber is a run of the
generator `subscribe` from its first step on: its queue is registered, it reads one record after
another, and it is closed.  `received`, `since`, `published` and the numbers of the records are a
ledger that no step of the code reads.

* `Subscriber.Keeps`: what a queue holds of the records published since it was registered.
* `publish_eq`: no queue is full when a record is put into it.
* `Bus.delivery`: what the subscribers get, and what `recent` returns.
-/

namespace MediaScanMonitor
open Py Recent

structure EventRecord where
  ts : Str
  serverId : Int
  serverName : Str
  scanMode : Str
  scanKey : Str
  scanPath : Option Str
  libraryId : Option Str
  eventType : Str
  filePath : Str
  ok : Bool
  statusCode : Option Int
  detail : Str
  deriving DecidableEq

structure RawEventRecord where
  ts : Str
  eventType : Str
  path : Str
  isDir : Bool
  matched : Bool
  deriving DecidableEq

/-- `_SUBSCRIBER_QUEUE_MAXSIZE`. -/
def subscriberQueueMaxsize : Nat := 100

/-- What `put_nowait` raises. -/
inductive QueueFull where
  | queueFull
  deriving DecidableEq

/-- `full` of an `asyncio.Queue`; one of size 0 is unbounded. -/
def queueFull {α : Type} (maxsize : Nat) (queue : List α) : Bool :=
  0 < maxsize && maxsize ≤ queue.length

structure Subscriber (α : Type) where
  queue : List (Numbered α)
  /-- The queue is in `_subscribers`. -/
  registered : Bool
  /-- How many records were published before. -/
  since : Nat
  received : List (Numbered α)
  deriving DecidableEq

structure Bus (α : Type) where
  capacity : Nat
  buffer : List α
  subscribers : List (Subscriber α)
  published : List α
  deriving DecidableEq

abbrev EventsBus := Bus EventRecord

abbrev RawEventsBus := Bus RawEventRecord

variable {α : Type}

/-- An iteration of the loop of `publish`. -/
def Subscriber.put (record : Numbered α) (sub : Subscriber α) :
    Except QueueFull (Subscriber α) :=
  -- `get_nowait` raises on an empty queue, which is suppressed.
  let queue := if queueFull subscriberQueueMaxsize sub.queue then sub.queue.tail else sub.queue
  if queueFull subscriberQueueMaxsize queue then .error .queueFull
  else .ok { sub with queue := queue ++ [record] }

/-- `get`, of a queue that is not empty. -/
def Subscriber.get (sub : Subscriber α) : Subscriber α :=
  match sub.queue with
  | [] => sub
  | record :: queue => { sub with queue := queue, received := sub.received ++ [record] }

/-- `discard`. -/
def Subscriber.discard (sub : Subscriber α) : Subscriber α := { sub with registered := false }

namespace Bus

/-- A new bus. -/
def init (capacity : Nat) : Bus α := ⟨capacity, [], [], []⟩

/-- `publish`: a plain function, which comes to its end without a suspension. -/
def publish (bus : Bus α) (record : α) : Except QueueFull (Bus α) := do
  let subscribers ← bus.subscribers.mapM fun sub =>
    if sub.registered then sub.put ⟨bus.published.length, record⟩ else .ok sub
  return { bus with
    buffer := (bus.buffer ++ [record]).rtake bus.capacity
    subscribers := subscribers
    published := bus.published ++ [record] }

/-- `recent`. -/
def recent (bus : Bus α) (limit : Int) : List α :=
  if limit ≤ 0 then [] else bus.buffer.rtake limit.toNat

/-- The first step of `subscribe`. -/
def subscribe (bus : Bus α) : Bus α :=
  { bus with
    subscribers := bus.subscribers ++ [⟨[], true, bus.published.length, []⟩] }

/-- The records published since the subscriber registered. -/
def publishedSince (bus : Bus α) (sub : Subscriber α) : List (Numbered α) :=
  (numbered bus.published).drop sub.since

inductive Act (α : Type) where
  | publish (record : α)
  | subscribe
  | read (k : Nat)
  | unsubscribe (k : Nat)

def system (α : Type) : Lts.System (Bus α) (Act α) where
  enabled bus
    | .publish _ | .subscribe => True
    | .read k => (bus.subscribers[k]?.any fun sub => sub.registered && !sub.queue.isEmpty) = true
    | .unsubscribe k => (bus.subscribers[k]?.any Subscriber.registered) = true
  next bus
    | .publish record => (bus.publish record).toOption.getD bus
    | .subscribe => bus.subscribe
    | .read k => { bus with subscribers := bus.subscribers.modify k Subscriber.get }
    | .unsubscribe k => { bus with subscribers := bus.subscribers.modify k Subscriber.discard }

instance (bus : Bus α) : ∀ act, Decidable ((system α).enabled bus act)
  | .publish _ | .subscribe => .isTrue trivial
  | .read _ | .unsubscribe _ => inferInstanceAs (Decidable (_ = true))

end Bus

/-! ### A queue -/

namespace Subscriber
variable {stream : List (Numbered α)} {sub : Subscriber α} {record : Numbered α}

/-- What the subscriber was given of the records published since it registered. -/
structure Keeps (stream : List (Numbered α)) (sub : Subscriber α) : Prop where
  length : sub.queue.length ≤ subscriberQueueMaxsize
  pending : sub.queue <:+ stream
  inOrder : (sub.received ++ sub.queue).Sublist stream
  latest : stream.rtake subscriberQueueMaxsize <:+ sub.received ++ sub.queue

theorem subscriberQueueMaxsize_pos : 0 < subscriberQueueMaxsize := by decide

theorem queueFull_eq_true {queue : List (Numbered α)} :
    queueFull subscriberQueueMaxsize queue = true ↔ subscriberQueueMaxsize ≤ queue.length := by
  rw [queueFull, Bool.and_eq_true, decide_eq_true_eq, decide_eq_true_eq]
  exact and_iff_right subscriberQueueMaxsize_pos

/-- The queue takes the record in, and keeps the latest ones. -/
def push (record : Numbered α) (sub : Subscriber α) : Subscriber α :=
  { sub with queue := (sub.queue ++ [record]).rtake subscriberQueueMaxsize }

/-- A queue that is full drops its oldest record. -/
theorem put_eq (h : sub.queue.length ≤ subscriberQueueMaxsize) (record : Numbered α) :
    sub.put record = .ok (sub.push record) := by
  have hpos := subscriberQueueMaxsize_pos
  by_cases hfull : subscriberQueueMaxsize ≤ sub.queue.length
  · have hlength : sub.queue.length = subscriberQueueMaxsize := le_antisymm h hfull
    obtain ⟨oldest, queue, hq⟩ := List.exists_cons_of_length_pos (hlength ▸ hpos)
    have hroom : ¬ subscriberQueueMaxsize ≤ queue.length := by
      rw [← hlength, hq, List.length_cons]
      omega
    have hend : (oldest :: queue ++ [record]).rtake subscriberQueueMaxsize = queue ++ [record] :=
      rtake_concat_eq List.suffix_rfl (hq ▸ hlength)
    rw [put, push]
    simp only [queueFull_eq_true, hq, if_pos (hq ▸ hfull), List.tail_cons, if_neg hroom, hend]
  · have hend : (sub.queue ++ [record]).rtake subscriberQueueMaxsize = sub.queue ++ [record] := by
      rw [List.rtake, List.length_append, List.length_singleton, Nat.sub_eq_zero_of_le (by omega),
        List.drop_zero]
    rw [put, push]
    simp only [queueFull_eq_true, if_neg hfull, hend]

/-- A record is published. -/
theorem Keeps.push (h : sub.Keeps stream) (record : Numbered α) :
    (sub.push record).Keeps (stream ++ [record]) where
  length := by
    rw [Subscriber.push, length_rtake]
    exact min_le_left _ _
  pending := (rtake_suffix _ _).trans (suffix_concat h.pending record)
  inOrder := by
    have hsublist : ((sub.queue ++ [record]).rtake subscriberQueueMaxsize).Sublist
        (sub.queue ++ [record]) := (rtake_suffix _ _).sublist
    refine (hsublist.append_left sub.received).trans ?_
    rw [← List.append_assoc]
    exact h.inOrder.append (List.Sublist.refl [record])
  latest := by
    have hlatest := rtake_concat_suffix subscriberQueueMaxsize_pos h.latest record
    by_cases hroom : (sub.queue ++ [record]).length ≤ subscriberQueueMaxsize
    · have hall : (sub.queue ++ [record]).rtake subscriberQueueMaxsize = sub.queue ++ [record] := by
        rw [List.rtake, Nat.sub_eq_zero_of_le hroom, List.drop_zero]
      rw [Subscriber.push, hall]
      rwa [List.append_assoc] at hlatest
    · -- The queue was full of the latest records.
      have hlength : ((sub.queue ++ [record]).rtake subscriberQueueMaxsize).length =
          ((stream ++ [record]).rtake subscriberQueueMaxsize).length := by
        have hle := (suffix_concat h.pending record).length_le
        rw [length_rtake, length_rtake]
        omega
      rw [eq_of_suffix (rtake_suffix _ _)
        ((rtake_suffix _ _).trans (suffix_concat h.pending record)) hlength.symm]
      exact List.suffix_append _ _

/-- A record is read. -/
theorem Keeps.get (h : sub.Keeps stream) : sub.get.Keeps stream := by
  rw [Subscriber.get]
  split
  · exact h
  · rename_i record queue hq
    have happend : sub.received ++ [record] ++ queue = sub.received ++ sub.queue := by
      rw [hq, List.append_assoc, List.singleton_append]
    have hlength := h.length
    rw [hq, List.length_cons] at hlength
    exact
      { length := (Nat.le_succ _).trans hlength
        pending := (hq ▸ List.suffix_cons record queue).trans h.pending
        inOrder := happend ▸ h.inOrder
        latest := happend ▸ h.latest }

end Subscriber

/-! ### The bus -/

namespace Bus
variable {bus bus' : Bus α} {sub : Subscriber α} {l : List (Act α)} {capacity : Nat}

/-- The invariant. -/
structure Sound (capacity : Nat) (bus : Bus α) : Prop where
  capacity : bus.capacity = capacity
  buffer : bus.buffer = bus.published.rtake bus.capacity
  since : ∀ sub ∈ bus.subscribers, sub.since ≤ bus.published.length
  keeps : ∀ sub ∈ bus.subscribers, sub.registered = true → sub.Keeps (bus.publishedSince sub)

theorem mapM_eq_ok {ε β γ : Type} {f : β → Except ε γ} {g : β → γ} {l : List β}
    (h : ∀ x ∈ l, f x = .ok (g x)) : l.mapM f = .ok (l.map g) := by
  induction l with
  | nil => rfl
  | cons x l ih =>
      rw [List.forall_mem_cons] at h
      rw [List.mapM_cons, h.1, ih h.2]
      rfl

/-- A record is put into the queues. -/
def deliver (bus : Bus α) (record : α) (sub : Subscriber α) : Subscriber α :=
  if sub.registered then sub.push ⟨bus.published.length, record⟩ else sub

/-- **`publish` does not raise**: it appends to the buffer and to each queue that is registered. -/
theorem publish_eq (h : bus.Sound capacity) (record : α) :
    bus.publish record = .ok { bus with
      buffer := (bus.buffer ++ [record]).rtake bus.capacity
      subscribers := bus.subscribers.map (bus.deliver record)
      published := bus.published ++ [record] } := by
  have hput : ∀ sub ∈ bus.subscribers,
      (if sub.registered then sub.put ⟨bus.published.length, record⟩
        else Except.ok (ε := QueueFull) sub) = .ok (bus.deliver record sub) := by
    intro sub hsub
    rw [deliver]
    split
    · rename_i hreg
      exact Subscriber.put_eq (h.keeps sub hsub hreg).length _
    · rfl
  rw [publish, mapM_eq_ok hput]
  rfl

theorem mem_modify {β : Type} {l : List β} {k : Nat} {f : β → β} {x : β}
    (h : x ∈ l.modify k f) : x ∈ l ∨ ∃ y ∈ l, x = f y := by
  obtain ⟨i, hi⟩ := List.mem_iff_getElem?.mp h
  rw [List.getElem?_modify, Option.map_eq_map, Option.map_eq_some_iff] at hi
  obtain ⟨y, hy, rfl⟩ := hi
  split
  · exact .inr ⟨y, List.mem_of_getElem? hy, rfl⟩
  · exact .inl (List.mem_of_getElem? hy)

/-- A subscriber does something by itself. -/
theorem Sound.modify (h : bus.Sound capacity) {f : Subscriber α → Subscriber α}
    (hsince : ∀ sub, (f sub).since = sub.since)
    (hf : ∀ stream sub, (sub.registered = true → sub.Keeps stream) →
      (f sub).registered = true → (f sub).Keeps stream) (k : Nat) :
    Sound capacity { bus with subscribers := bus.subscribers.modify k f } where
  capacity := h.capacity
  buffer := h.buffer
  since sub hsub := by
    rcases mem_modify hsub with hold | ⟨old, hold, rfl⟩
    · exact h.since sub hold
    · rw [hsince]
      exact h.since old hold
  keeps sub hsub hreg := by
    rcases mem_modify hsub with hold | ⟨old, hold, rfl⟩
    · exact h.keeps sub hold hreg
    · rw [publishedSince, hsince]
      exact hf _ old (h.keeps old hold) hreg

theorem sound_publish (h : bus.Sound capacity) (record : α) :
    Sound capacity ((system α).next bus (.publish record)) := by
  simp only [system, publish_eq h, Except.toOption, Option.getD_some]
  refine ⟨h.capacity, ?_, ?_, ?_⟩
  · rw [h.buffer]
    exact rtake_concat_rtake _ _ _
  · intro sub hsub
    obtain ⟨sub, hmem, rfl⟩ := List.mem_map.mp hsub
    have hsince := h.since sub hmem
    rw [List.length_append, List.length_singleton, deliver]
    split <;> exact Nat.le_succ_of_le hsince
  · intro sub hsub hreg
    obtain ⟨sub, hmem, rfl⟩ := List.mem_map.mp hsub
    have hsince := h.since sub hmem
    rw [deliver] at hreg ⊢
    split at hreg
    · rename_i hreg'
      rw [if_pos hreg']
      simp only [publishedSince, numbered_concat]
      rw [List.drop_append_of_le_length (by rwa [length_numbered])]
      exact (h.keeps sub hmem hreg').push _
    · rename_i hreg'
      exact absurd hreg hreg'

theorem sound_subscribe (h : bus.Sound capacity) : Sound capacity bus.subscribe where
  capacity := h.capacity
  buffer := h.buffer
  since sub hsub := by
    rcases List.mem_append.mp hsub with hsub | hsub
    · exact h.since sub hsub
    · obtain rfl := List.mem_singleton.mp hsub
      exact le_rfl
  keeps sub hsub hreg := by
    rcases List.mem_append.mp hsub with hsub | hsub
    · exact h.keeps sub hsub hreg
    · obtain rfl := List.mem_singleton.mp hsub
      have hnone : bus.subscribe.publishedSince ⟨[], true, bus.published.length, []⟩ = [] := by
        rw [publishedSince, List.drop_eq_nil_iff, length_numbered]
        exact le_rfl
      rw [hnone]
      exact
        { length := Nat.zero_le _
          pending := List.suffix_rfl
          inOrder := List.Sublist.refl _
          latest := (List.rtake_nil subscriberQueueMaxsize).symm ▸ List.suffix_rfl }

theorem sound_init (capacity : Nat) : Sound capacity (init capacity : Bus α) where
  capacity := rfl
  buffer := (List.rtake_nil capacity).symm
  since := nofun
  keeps := nofun

theorem sound_run (h : Lts.Run (system α) Lts.free (init capacity) l bus) :
    bus.Sound capacity := by
  refine h.invariant (sound_init capacity) fun bus act hsound _ _ => ?_
  cases act with
  | publish record => exact sound_publish hsound record
  | subscribe => exact sound_subscribe hsound
  | read k =>
      refine hsound.modify (fun sub => ?_) (fun stream sub hkeeps hreg => ?_) k
      · rw [Subscriber.get]
        split <;> rfl
      · refine (hkeeps ?_).get
        rw [Subscriber.get] at hreg
        split at hreg <;> exact hreg
  | unsubscribe k =>
      refine hsound.modify (f := Subscriber.discard) (fun _ => rfl) (fun _ _ _ hreg => ?_) k
      cases hreg

/-- **Delivery**, over any interleaving of publications, subscriptions, reads and closings. -/
theorem delivery (h : Lts.Run (system α) Lts.free (init capacity) l bus) :
    (∀ record, ∃ bus', bus.publish record = .ok bus') ∧
      (∀ sub ∈ bus.subscribers, sub.registered = true →
        (sub.received ++ sub.queue).Sublist (bus.publishedSince sub) ∧
        (∀ record ∈ bus.publishedSince sub, record ∉ sub.received ++ sub.queue →
          subscriberQueueMaxsize ≤ bus.published.length - (record.number + 1)) ∧
        (bus.publishedSince sub).rtake
          (min (bus.publishedSince sub).length subscriberQueueMaxsize) <:+
            sub.received ++ sub.queue) ∧
      ∀ limit, 0 < limit →
        bus.recent limit =
          bus.published.rtake (min limit.toNat (min capacity bus.published.length)) := by
  have hsound := sound_run h
  refine ⟨fun record => ⟨_, publish_eq hsound record⟩, fun sub hsub hreg => ?_, ?_⟩
  · have hkeeps := hsound.keeps sub hsub hreg
    refine ⟨hkeeps.inOrder, fun record hrecord hno => ?_, ?_⟩
    · exact number_of_not_mem (List.drop_suffix _ _) hrecord fun hlatest =>
        hno (hkeeps.latest.subset hlatest)
    · rw [min_comm, rtake_min_length]
      exact hkeeps.latest
  · intro limit hlimit
    rw [recent, if_neg (not_le.mpr hlimit), hsound.buffer, rtake_rtake, hsound.capacity,
      ← min_assoc, rtake_min_length]

/-- A reader of one record, on a bus that keeps two. -/
def oneRead : List (Act Nat) := [.subscribe, .publish 10, .read 0, .publish 20, .publish 30]

theorem delivery_oneRead :
    let bus := oneRead.foldl (system Nat).next (init 2)
    bus.subscribers = [⟨[⟨1, 20⟩, ⟨2, 30⟩], true, 0, [⟨0, 10⟩]⟩] ∧
      (∀ sub ∈ bus.subscribers, sub.registered = true →
        (sub.received ++ sub.queue).Sublist (bus.publishedSince sub)) ∧
      bus.recent 50 = [20, 30] := by
  have hrun : Lts.Run (system Nat) Lts.free (init 2) oneRead _ := Lts.run_of_exec (by decide)
  obtain ⟨-, hsubscribers, hrecent⟩ := delivery hrun
  exact ⟨rfl, fun sub hsub hreg => (hsubscribers sub hsub hreg).1, hrecent 50 (by decide)⟩

end Bus

end MediaScanMonitor
