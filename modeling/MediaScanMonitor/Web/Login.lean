import MediaScanMonitor.Library.Lts
import MediaScanMonitor.Web.Auth
import MediaScanMonitor.Web.RateLimit

/-!
# Web — `POST /auth/login` side by side with others

A handler asks the limiter and goes to a worker thread in one turn of the event loop; it records
its failure in another, once the thread is done.  In between, others are let through.  Times are
rationals here: the window of the login limiter is compared without rounding
(`LoginRateLimiter.unbroken_of_window`).

* `invariant_next`: what the limiter and the handlers account for.
* `guesses_bounded`: the failed verifications of a key stay under the limit in every half-open
  interval, as long as handlers that overlap leave room for each other.
* `exceeds_of_not_leavesRoom`: where they do not, wrong guesses in flight exceed it.
-/

namespace MediaScanMonitor.Login
open Py Lts Window

inductive Phase where
  /-- The 429 answer. -/
  | throttled
  /-- `check_password` is with its thread. -/
  | verifying (password : Str)
  /-- It is done: when, and what it returns. -/
  | verified (time : ℚ) (ok : Bool)
  /-- The redirect to `/`. -/
  | loggedIn
  /-- The 401 answer. -/
  | rejected
  deriving DecidableEq

structure Handler where
  key : Str
  phase : Phase
  deriving DecidableEq

structure State where
  /-- The last clock reading. -/
  now : ℚ
  credential : Credential
  failures : Failures ℚ
  handlers : List Handler
  /-- Kept nowhere: when the verifications of a key failed. -/
  failed : Str → List ℚ

inductive Label where
  /-- A request comes in. -/
  | post (key password : Str) (time : ℚ)
  /-- The thread of a handler verifies. -/
  | verify (k : Nat) (time : ℚ)
  /-- A handler goes on after its thread. -/
  | conclude (k : Nat) (time time' : ℚ)
  /-- Something else sets the password. -/
  | store (credential : Credential)

namespace Phase

def isVerifying : Phase → Bool
  | verifying _ => true
  | _ => false

def isVerified : Phase → Bool
  | verified _ _ => true
  | _ => false

/-- Past its check with the limiter and not yet recorded. -/
def inFlight (phase : Phase) : Bool := phase.isVerifying || phase.isVerified

/-- It waits to record a verification made after the cutoff. -/
def awaits (cutoff : ℚ) : Phase → Bool
  | verified time _ => cutoff < time
  | _ => false

end Phase

variable (hasher : PasswordHasher) (limiter : LoginRateLimiter ℚ)

/-- `login`, up to its `await`. -/
def State.post (s : State) (key password : Str) (time : ℚ) : State :=
  { s with
    now := time
    failures := limiter.prune s.failures key time
    handlers := s.handlers ++ [⟨key,
      if limiter.allowed s.failures key time then .verifying password else .throttled⟩] }

/-- `check_password`, in its thread. -/
def State.verify (s : State) (k : Nat) (time : ℚ) : State :=
  match s.handlers[k]? with
  | some ⟨key, .verifying password⟩ =>
    let ok := s.credential.checkPassword hasher password
    { s with
      now := time
      handlers := s.handlers.set k ⟨key, .verified time ok⟩
      failed := if ok then s.failed else Function.update s.failed key (s.failed key ++ [time]) }
  | _ => s

/-- `login`, from its `await` on. -/
def State.conclude (s : State) (k : Nat) (time time' : ℚ) : State :=
  match s.handlers[k]? with
  | some ⟨key, .verified _ true⟩ =>
    { s with
      failures := LoginRateLimiter.reset s.failures key
      handlers := s.handlers.set k ⟨key, .loggedIn⟩ }
  | some ⟨key, .verified _ false⟩ =>
    { s with
      now := time'
      failures := limiter.recordFailure s.failures key time time'
      handlers := s.handlers.set k ⟨key, .rejected⟩ }
  | _ => s

/-- What `check_password` is about to return. -/
def State.ok (s : State) (k : Nat) : Bool :=
  match s.handlers[k]? with
  | some ⟨_, .verifying password⟩ => s.credential.checkPassword hasher password
  | _ => false

def system : System State Label where
  enabled s
    | .post _ _ time => s.now ≤ time
    | .verify k time => s.now ≤ time ∧ s.handlers[k]?.any (·.phase.isVerifying) = true
    | .conclude k time time' =>
      (s.now ≤ time ∧ time ≤ time') ∧ s.handlers[k]?.any (·.phase.isVerified) = true
    | .store _ => True
  next s
    | .post key password time => s.post limiter key password time
    | .verify k time => s.verify hasher k time
    | .conclude k time time' => s.conclude limiter k time time'
    | .store credential => { s with credential }

def State.init (credential : Credential) (now : ℚ) : State where
  now := now
  credential := credential
  failures _ := []
  handlers := []
  failed _ := []

section
variable (handlers : List Handler) (key : Str)

/-- How many handlers of the key are still to be verified. -/
def unverified : Nat := handlers.countP fun h => h.key = key ∧ h.phase.isVerifying

/-- How many are past their check and not yet recorded. -/
def inFlight : Nat := handlers.countP fun h => h.key = key ∧ h.phase.inFlight

/-- How many wait to record a verification made after the cutoff. -/
def awaiting (cutoff : ℚ) : Nat := handlers.countP fun h => h.key = key ∧ h.phase.awaits cutoff

end

/-- No login succeeds. -/
def Fails (s : State) : Label → Prop
  | .verify k _ => s.ok hasher k = false
  | _ => True

/-- A handler that is let through while others of its key are in flight leaves them room: with it,
the guesses that failed in the window and those still to be verified are no more than the limit. -/
def LeavesRoom (s : State) : Label → Prop
  | .post key _ time => limiter.allowed s.failures key time = true → inFlight s.handlers key ≠ 0 →
    after (s.failed key) (time - limiter.windowSeconds) + unverified s.handlers key <
      limiter.maxAttempts
  | _ => True

instance (s : State) : ∀ a, Decidable ((system hasher limiter).enabled s a)
  | .post _ _ time => inferInstanceAs (Decidable (s.now ≤ time))
  | .verify .. | .conclude .. => inferInstanceAs (Decidable (_ ∧ _))
  | .store _ => .isTrue trivial

instance (s : State) : ∀ a, Decidable (Fails hasher s a)
  | .verify k _ => inferInstanceAs (Decidable (s.ok hasher k = false))
  | .post .. | .conclude .. | .store _ => .isTrue trivial

instance (s : State) : ∀ a, Decidable (LeavesRoom limiter s a)
  | .post .. => inferInstanceAs (Decidable (_ → _ → _))
  | .verify .. | .conclude .. | .store _ => .isTrue trivial

variable {hasher limiter} {s : State} {key : Str}

/-! ### Counting handlers -/

theorem countP_set_add {α : Type*} {xs : List α} {k : Nat} {x y : α} (p : α → Bool)
    (h : xs[k]? = some x) :
    (xs.set k y).countP p + (if p x then 1 else 0) = xs.countP p + (if p y then 1 else 0) := by
  obtain ⟨hk, rfl⟩ := List.getElem?_eq_some_iff.mp h
  have := List.boole_getElem_le_countP (p := p) hk
  rw [List.countP_set hk]
  omega

section
variable (handlers : List Handler) (key : Str)

theorem awaiting_le_inFlight (cutoff : ℚ) :
    awaiting handlers key cutoff ≤ inFlight handlers key := by
  refine List.countP_mono_left fun h _ hh => ?_
  simp only [decide_eq_true_eq] at hh ⊢
  refine ⟨hh.1, ?_⟩
  cases hphase : h.phase <;> simp_all [Phase.awaits, Phase.inFlight, Phase.isVerified]

theorem unverified_le_inFlight : unverified handlers key ≤ inFlight handlers key := by
  refine List.countP_mono_left fun h _ hh => ?_
  simp only [decide_eq_true_eq] at hh ⊢
  exact ⟨hh.1, by rw [Phase.inFlight, hh.2, Bool.true_or]⟩

end

variable {handlers : List Handler}

/-- A new handler. -/
theorem unverified_append (phase : Phase) (key' : Str) :
    unverified (handlers ++ [⟨key, phase⟩]) key' =
      unverified handlers key' + if key = key' ∧ phase.isVerifying then 1 else 0 := by
  simp [unverified, List.countP_append, List.countP_singleton]

theorem awaiting_append (phase : Phase) (key' : Str) (cutoff : ℚ) :
    awaiting (handlers ++ [⟨key, phase⟩]) key' cutoff =
      awaiting handlers key' cutoff + if key = key' ∧ phase.awaits cutoff then 1 else 0 := by
  simp [awaiting, List.countP_append, List.countP_singleton]

variable {k : Nat} {phase : Phase} (phase' : Phase)

/-- A handler that goes on. -/
theorem unverified_set (h : handlers[k]? = some ⟨key, phase⟩) (key' : Str) :
    unverified (handlers.set k ⟨key, phase'⟩) key' +
        (if key = key' ∧ phase.isVerifying then 1 else 0) =
      unverified handlers key' + if key = key' ∧ phase'.isVerifying then 1 else 0 := by
  simpa [unverified] using
    countP_set_add (fun h : Handler => decide (h.key = key' ∧ h.phase.isVerifying)) h

theorem awaiting_set (h : handlers[k]? = some ⟨key, phase⟩) (key' : Str) (cutoff : ℚ) :
    awaiting (handlers.set k ⟨key, phase'⟩) key' cutoff +
        (if key = key' ∧ phase.awaits cutoff then 1 else 0) =
      awaiting handlers key' cutoff + if key = key' ∧ phase'.awaits cutoff then 1 else 0 := by
  simpa [awaiting] using
    countP_set_add (fun h : Handler => decide (h.key = key' ∧ h.phase.awaits cutoff)) h

/-! ### The invariant -/

structure Invariant (limiter : LoginRateLimiter ℚ) (s : State) : Prop where
  /-- No verification lies ahead, and none has let anybody in. -/
  verified : ∀ h ∈ s.handlers, ∀ time ok, h.phase = .verified time ok → time ≤ s.now ∧ ok = false
  failed : ∀ key, ∀ time ∈ s.failed key, time ≤ s.now
  /-- What failed in the window is with the limiter, or waits to be recorded. -/
  recorded : ∀ key cutoff, s.now - limiter.windowSeconds ≤ cutoff →
    after (s.failed key) cutoff ≤ after (s.failures key) cutoff + awaiting s.handlers key cutoff
  room : ∀ key, after (s.failed key) (s.now - limiter.windowSeconds) + unverified s.handlers key ≤
    limiter.maxAttempts
  paced : ∀ key, Paced limiter.windowSeconds limiter.maxAttempts (s.failed key)

theorem invariant_init (credential : Credential) (now : ℚ) :
    Invariant limiter (State.init credential now) where
  verified h hh := by cases hh
  failed _ _ ht := by cases ht
  recorded _ _ _ := Nat.zero_le _
  room _ := Nat.zero_le _
  paced _ := .nil

/-- What `allowed` says of the failed verifications, with nobody in flight. -/
theorem Invariant.failed_lt (h : Invariant limiter s) {time : ℚ} (hle : s.now ≤ time)
    (hallowed : limiter.allowed s.failures key time = true)
    (hflight : inFlight s.handlers key = 0) :
    after (s.failed key) (time - limiter.windowSeconds) < limiter.maxAttempts := by
  have hrecorded := h.recorded key (time - limiter.windowSeconds) (sub_le_sub_right hle _)
  have hawaiting := awaiting_le_inFlight s.handlers key (time - limiter.windowSeconds)
  rw [LoginRateLimiter.allowed, decide_eq_true_iff, LoginRateLimiter.length_recent] at hallowed
  omega

/-- The window moves on with the clock. -/
theorem Invariant.room_later (h : Invariant limiter s) {time : ℚ} (hle : s.now ≤ time)
    (key : Str) : after (s.failed key) (time - limiter.windowSeconds) + unverified s.handlers key ≤
      limiter.maxAttempts :=
  (Nat.add_le_add_right (after_anti _ (sub_le_sub_right hle _)) _).trans (h.room key)

theorem invariant_post (h : Invariant limiter s) {password : Str} {time : ℚ} (hle : s.now ≤ time)
    (hroom : LeavesRoom limiter s (.post key password time)) :
    Invariant limiter (s.post limiter key password time) := by
  rw [State.post]
  refine ⟨?_, ?_, ?_, ?_, h.paced⟩
  · intro handler hmem t ok hphase
    rcases List.mem_append.mp hmem with hmem | hmem
    · obtain ⟨hle', hok⟩ := h.verified handler hmem t ok hphase
      exact ⟨hle'.trans hle, hok⟩
    · obtain rfl := List.mem_singleton.mp hmem
      dsimp only at hphase
      split at hphase <;> cases hphase
  · intro key' t ht
    exact (h.failed key' t ht).trans hle
  · intro key' cutoff hcutoff
    have hold := h.recorded key' cutoff ((sub_le_sub_right hle _).trans hcutoff)
    dsimp only
    rw [LoginRateLimiter.after_prune hcutoff, awaiting_append]
    omega
  · intro key'
    have hold := h.room_later hle key'
    dsimp only
    rw [unverified_append]
    by_cases hallowed : limiter.allowed s.failures key time = true
    · by_cases hkey : key = key'
      · subst hkey
        rw [if_pos hallowed, if_pos ⟨rfl, rfl⟩]
        by_cases hflight : inFlight s.handlers key = 0
        · have hlt := h.failed_lt hle hallowed hflight
          have := unverified_le_inFlight s.handlers key
          omega
        · have := hroom hallowed hflight
          omega
      · rw [if_neg fun h => hkey h.1]
        exact hold
    · rw [if_neg hallowed]
      simpa [Phase.isVerifying] using hold

theorem invariant_verify (h : Invariant limiter s) {k : Nat} {time : ℚ} (hle : s.now ≤ time)
    (hfails : Fails hasher s (.verify k time)) : Invariant limiter (s.verify hasher k time) := by
  rw [State.verify]
  split
  case h_2 => exact h
  case h_1 key password hk =>
    have hwrong : s.credential.checkPassword hasher password = false := by
      simpa [Fails, State.ok, hk] using hfails
    simp only [hwrong, Bool.false_eq_true, if_false]
    have hfailed : ∀ key' cutoff,
        after (Function.update s.failed key (s.failed key ++ [time]) key') cutoff =
          after (s.failed key') cutoff + if key = key' ∧ cutoff < time then 1 else 0 := by
      intro key' cutoff
      rw [LoginRateLimiter.after_update, Function.update_eq_self]
    have hunverified : ∀ key', unverified (s.handlers.set k ⟨key, .verified time false⟩) key' +
        (if key = key' then 1 else 0) = unverified s.handlers key' := by
      intro key'
      simpa [Phase.isVerifying] using unverified_set (.verified time false) hk key'
    have hawaiting : ∀ key' cutoff,
        awaiting (s.handlers.set k ⟨key, .verified time false⟩) key' cutoff =
          awaiting s.handlers key' cutoff + if key = key' ∧ cutoff < time then 1 else 0 := by
      intro key' cutoff
      simpa [Phase.awaits] using awaiting_set (.verified time false) hk key' cutoff
    refine ⟨?_, ?_, ?_, ?_, ?_⟩
    · intro handler hmem t ok hphase
      rcases List.mem_or_eq_of_mem_set hmem with hmem | rfl
      · obtain ⟨hle', hok⟩ := h.verified handler hmem t ok hphase
        exact ⟨hle'.trans hle, hok⟩
      · cases hphase
        exact ⟨le_rfl, rfl⟩
    · intro key' t ht
      dsimp only at ht ⊢
      by_cases hkey : key' = key
      · rw [hkey, Function.update_self] at ht
        rcases List.mem_append.mp ht with ht | ht
        · exact (h.failed key t ht).trans hle
        · exact (List.mem_singleton.mp ht).le
      · rw [Function.update_of_ne hkey] at ht
        exact (h.failed key' t ht).trans hle
    · intro key' cutoff hcutoff
      have hold := h.recorded key' cutoff ((sub_le_sub_right hle _).trans hcutoff)
      dsimp only
      rw [hfailed, hawaiting]
      omega
    · intro key'
      have hold := h.room_later hle key'
      have hnew := hunverified key'
      dsimp only
      rw [hfailed]
      by_cases hkey : key = key'
      · rw [if_pos hkey] at hnew
        split <;> omega
      · rw [if_neg hkey] at hnew
        rw [if_neg fun h => hkey h.1]
        omega
    · intro key'
      dsimp only
      by_cases hkey : key' = key
      · have hold := h.room_later hle key
        have hnew := hunverified key
        rw [hkey, Function.update_self]
        refine .snoc (h.paced key) (fun t ht => (h.failed key t ht).trans hle) ?_
        rw [after_append, after_singleton]
        rw [if_pos rfl] at hnew
        split <;> omega
      · rw [Function.update_of_ne hkey]
        exact h.paced key'

theorem invariant_conclude (h : Invariant limiter s) {k : Nat} {time time' : ℚ}
    (hle : s.now ≤ time) (hle' : time ≤ time') :
    Invariant limiter (s.conclude limiter k time time') := by
  rw [State.conclude]
  split
  case h_1 key t hk => cases (h.verified _ (List.mem_of_getElem? hk) t true rfl).2
  case h_3 => exact h
  case h_2 key t hk =>
    have ht := (h.verified _ (List.mem_of_getElem? hk) t false rfl).1
    have hnow := hle.trans hle'
    have hunverified : ∀ key', unverified (s.handlers.set k ⟨key, .rejected⟩) key' =
        unverified s.handlers key' := by
      intro key'
      simpa [Phase.isVerifying] using unverified_set .rejected hk key'
    have hawaiting : ∀ key' cutoff, awaiting (s.handlers.set k ⟨key, .rejected⟩) key' cutoff +
        (if key = key' ∧ cutoff < t then 1 else 0) = awaiting s.handlers key' cutoff := by
      intro key' cutoff
      simpa [Phase.awaits] using awaiting_set .rejected hk key' cutoff
    refine ⟨?_, ?_, ?_, ?_, h.paced⟩
    · intro handler hmem t ok hphase
      rcases List.mem_or_eq_of_mem_set hmem with hmem | rfl
      · obtain ⟨hle, hok⟩ := h.verified handler hmem t ok hphase
        exact ⟨hle.trans hnow, hok⟩
      · cases hphase
    · intro key' u hu
      exact (h.failed key' u hu).trans hnow
    · intro key' cutoff hcutoff
      have hold := h.recorded key' cutoff ((sub_le_sub_right hnow _).trans hcutoff)
      have hnew := hawaiting key' cutoff
      dsimp only
      rw [LoginRateLimiter.after_recordFailure ((sub_le_sub_right hle' _).trans hcutoff)]
      by_cases hkey : key = key' ∧ cutoff < t
      · -- the recorded time is no earlier than the verification
        rw [if_pos hkey] at hnew
        rw [if_pos ⟨hkey.1, hkey.2.trans_le (ht.trans hnow)⟩]
        omega
      · rw [if_neg hkey] at hnew
        omega
    · intro key'
      have hold := h.room_later hnow key'
      dsimp only
      rw [hunverified]
      exact hold

theorem invariant_next {a : Label} (h : Invariant limiter s)
    (hen : (system hasher limiter).enabled s a) (hfails : Fails hasher s a)
    (hroom : LeavesRoom limiter s a) :
    Invariant limiter ((system hasher limiter).next s a) := by
  cases a with
  | post key password time => exact invariant_post h hen hroom
  | verify k time => exact invariant_verify h hen.1 hfails
  | conclude k time time' => exact invariant_conclude h hen.1.1 hen.1.2
  | store credential => exact ⟨h.verified, h.failed, h.recorded, h.room, h.paced⟩

theorem invariant_run {credential : Credential} {now : ℚ} {l : List Label}
    (h : Run (system hasher limiter) (fun s a => Fails hasher s a ∧ LeavesRoom limiter s a)
      (State.init credential now) l s) : Invariant limiter s :=
  h.invariant (invariant_init credential now) fun _ _ hs hen hG =>
    invariant_next hs hen hG.1 hG.2

/-- Every guess still to be verified is wrong. -/
def AllWrong (hasher : PasswordHasher) (s : State) : Prop :=
  ∀ key password, ⟨key, .verifying password⟩ ∈ s.handlers →
    s.credential.checkPassword hasher password = false

/-- The threads of the handlers of a key verify, all at one time. -/
theorem verify_all (hwrong : AllWrong hasher s) :
    ∃ l s', Run (system hasher limiter) (Fails hasher) s l s' ∧
      s'.failed key = s.failed key ++ List.replicate (unverified s.handlers key) s.now := by
  induction hn : unverified s.handlers key generalizing s with
  | zero => exact ⟨[], s, .nil, by simp⟩
  | succ n ih =>
      obtain ⟨handler, hmem, hhandler⟩ :=
        List.countP_pos_iff.mp (hn ▸ n.succ_pos : 0 < unverified s.handlers key)
      obtain ⟨key', phase⟩ := handler
      obtain ⟨rfl, hphase⟩ := of_decide_eq_true hhandler
      cases phase with
      | verifying password =>
          have hfalse := hwrong key' password hmem
          obtain ⟨k, hk⟩ := List.mem_iff_getElem?.mp hmem
          have hnext : (system hasher limiter).next s (.verify k s.now) =
              { s with
                handlers := s.handlers.set k ⟨key', .verified s.now false⟩
                failed := Function.update s.failed key' (s.failed key' ++ [s.now]) } := by
            show s.verify hasher k s.now = _
            simp [State.verify, hk, hfalse]
          have hless : unverified (s.handlers.set k ⟨key', .verified s.now false⟩) key' = n := by
            simpa [Phase.isVerifying, hn] using unverified_set (.verified s.now false) hk key'
          have hwrong' : AllWrong hasher ((system hasher limiter).next s (.verify k s.now)) := by
            rw [hnext]
            intro key password hmem
            rcases List.mem_or_eq_of_mem_set hmem with hmem | e
            · exact hwrong key password hmem
            · cases e
          obtain ⟨l, s', hrun, hfailed⟩ := @ih ((system hasher limiter).next s (.verify k s.now))
            hwrong' (by rw [hnext]; exact hless)
          have hen : s.handlers[k]?.any (·.phase.isVerifying) = true := by
            simp [hk, Phase.isVerifying]
          refine ⟨.verify k s.now :: l, s', .cons ⟨le_rfl, hen⟩ ?_ hrun, ?_⟩
          · simp [Fails, State.ok, hk, hfalse]
          · rw [hfailed, hnext]
            simp [List.replicate_succ]
      | _ => cases hphase

/-- The condition is exact: where a handler is let through against it, and no guess in flight is
right, the threads have only to verify for the limit to be exceeded. -/
theorem exceeds_of_not_leavesRoom {credential : Credential} {now time : ℚ} {password : Str}
    {l : List Label} (hwindow : 0 < limiter.windowSeconds)
    (h : Run (system hasher limiter) (fun s a => Fails hasher s a ∧ LeavesRoom limiter s a)
      (State.init credential now) l s)
    (hle : s.now ≤ time) (hroom : ¬ LeavesRoom limiter s (.post key password time))
    (hwrong : AllWrong hasher (s.post limiter key password time)) :
    ∃ l' s' x, Run (system hasher limiter) (Fails hasher) s (.post key password time :: l') s' ∧
      limiter.maxAttempts <
        (s'.failed key).countP fun t => x < t ∧ t ≤ x + limiter.windowSeconds := by
  have hinv : Invariant limiter s := invariant_run h
  simp only [LeavesRoom, Classical.not_imp, not_lt] at hroom
  obtain ⟨hallowed, -, hfull⟩ := hroom
  obtain ⟨l', s', hrun, hfailed⟩ := @verify_all hasher limiter _ key hwrong
  refine ⟨l', s', time - limiter.windowSeconds, .cons hle trivial hrun, ?_⟩
  have hguesses : unverified (s.post limiter key password time).handlers key =
      unverified s.handlers key + 1 := by
    rw [State.post, unverified_append, if_pos hallowed, if_pos ⟨rfl, rfl⟩]
  have hafter : (s.failed key).countP (fun t => time - limiter.windowSeconds < t ∧
      t ≤ time - limiter.windowSeconds + limiter.windowSeconds) =
        after (s.failed key) (time - limiter.windowSeconds) := by
    refine List.countP_congr fun t ht => ?_
    simp only [decide_eq_true_eq, sub_add_cancel]
    exact and_iff_left ((hinv.failed key t ht).trans hle)
  rw [hfailed, hguesses, List.countP_append, show (s.post limiter key password time).failed =
    s.failed from rfl, hafter, List.countP_replicate, if_pos (by simpa [State.post] using hwindow)]
  omega

end MediaScanMonitor.Login
