import MediaScanMonitor.Library.Lts
import MediaScanMonitor.Web.RateLimit

/-!
# Web — the limiter as a sliding window

Calls of the limiter for any keys, one after another, on a clock that never goes back.  For one key
they come as `reset_password` makes them: a time is recorded right after `allowed` has returned
true, and the key is not reset.  For the other keys they come as they like.

* `Invariant`: what a limiter with exact cutoffs keeps of a key accounts for the window that ends
  now.
* `exactly_bounded`: no window holds more attempts than its limit, and none is refused under it.
* `exists_exact_run`: a limiter with rounded cutoffs follows it, as long as none breaks the window.
* `attempts_bounded`: so it keeps the limit, too.
* `unbroken_run`: with the windows of the application none does.
-/

namespace MediaScanMonitor.Attempts
open Py Lts Window

/-- A call, with what it reads off the clock. -/
inductive Call (T : Type) where
  | allowed (key : Str) (now : T)
  | recordFailure (key : Str) (now now' : T)
  | reset (key : Str)

structure State (T : Type) where
  /-- The last clock reading. -/
  now : T
  failures : Failures T
  /-- Kept nowhere: the attempts recorded for a key. -/
  recorded : Str → List T
  /-- Kept nowhere: the last call for the key was `allowed`, and returned true. -/
  admitted : Str → Bool

section
variable {T : Type} [LinearOrder T] [Sub T] [OfNat T 300] (limiter : LoginRateLimiter T)

def system : System (State T) (Call T) where
  enabled s
    | .allowed _ now => s.now ≤ now
    | .recordFailure _ now now' => s.now ≤ now ∧ now ≤ now'
    | .reset _ => True
  next s
    | .allowed key now =>
      { s with
        now := now
        failures := limiter.prune s.failures key now
        admitted := Function.update s.admitted key (limiter.allowed s.failures key now) }
    | .recordFailure key now now' =>
      { now := now'
        failures := limiter.recordFailure s.failures key now now'
        recorded := Function.update s.recorded key (s.recorded key ++ [now'])
        admitted := Function.update s.admitted key false }
    | .reset key =>
      { s with
        failures := LoginRateLimiter.reset s.failures key
        admitted := Function.update s.admitted key false }

/-- A new limiter. -/
def State.init (now : T) : State T := ⟨now, fun _ => [], fun _ => [], fun _ => false⟩

/-- `reset_password` makes the calls for the key. -/
def Attempting (key : Str) (s : State T) : Call T → Prop
  | .allowed _ _ => True
  | .recordFailure key' _ _ => key' = key → s.admitted key = true
  | .reset key' => key' ≠ key

instance (s : State T) : ∀ call, Decidable ((system limiter).enabled s call)
  | .allowed _ now => inferInstanceAs (Decidable (s.now ≤ now))
  | .recordFailure _ now now' => inferInstanceAs (Decidable (s.now ≤ now ∧ now ≤ now'))
  | .reset _ => .isTrue trivial

instance (key : Str) (s : State T) : ∀ call, Decidable (Attempting key s call)
  | .allowed _ _ => .isTrue trivial
  | .recordFailure key' _ _ => inferInstanceAs (Decidable (key' = key → _))
  | .reset key' => inferInstanceAs (Decidable (key' ≠ key))

end

/-! ### Exact cutoffs -/

section
variable {limiter : LoginRateLimiter ℚ} {s : State ℚ} {key : Str} {now now' : ℚ}

structure Invariant (limiter : LoginRateLimiter ℚ) (key : Str) (s : State ℚ) : Prop where
  past : ∀ t ∈ s.recorded key, t ≤ s.now
  /-- The limiter has forgotten nothing of the window. -/
  kept : ∀ y, s.now - limiter.windowSeconds ≤ y → after (s.failures key) y = after (s.recorded key) y
  /-- An attempt that is let through and not recorded yet has room. -/
  room : s.admitted key = true →
    after (s.recorded key) (s.now - limiter.windowSeconds) < limiter.maxAttempts
  paced : Paced limiter.windowSeconds limiter.maxAttempts (s.recorded key)

theorem invariant_init (now : ℚ) : Invariant limiter key (.init now) where
  past t ht := by cases ht
  kept y _ := rfl
  room h := by cases h
  paced := .nil

/-- The clock goes on. -/
theorem after_later (ts : List ℚ) (h : s.now ≤ now) :
    after ts (now - limiter.windowSeconds) ≤ after ts (s.now - limiter.windowSeconds) :=
  after_anti ts (sub_le_sub_right h _)

/-- What the limiter counts is what was recorded in the window. -/
theorem Invariant.length_recent (h : Invariant limiter key s) (hnow : s.now ≤ now) :
    (limiter.recent s.failures key now).length =
      after (s.recorded key) (now - limiter.windowSeconds) := by
  rw [LoginRateLimiter.length_recent]
  exact h.kept _ (sub_le_sub_right hnow _)

theorem Invariant.allowed (h : Invariant limiter key s) (hnow : s.now ≤ now) (key' : Str) :
    Invariant limiter key ((system limiter).next s (.allowed key' now)) where
  past t ht := (h.past t ht).trans hnow
  kept y hy := (LoginRateLimiter.after_prune hy).trans
    (h.kept y ((sub_le_sub_right hnow _).trans hy))
  room hadmitted := by
    change after (s.recorded key) (now - limiter.windowSeconds) < limiter.maxAttempts
    change Function.update s.admitted key' (limiter.allowed s.failures key' now) key = true
      at hadmitted
    by_cases hkey : key = key'
    · subst hkey
      rw [Function.update_self, LoginRateLimiter.allowed, h.length_recent hnow] at hadmitted
      exact of_decide_eq_true hadmitted
    · rw [Function.update_of_ne hkey] at hadmitted
      exact (after_later _ hnow).trans_lt (h.room hadmitted)
  paced := h.paced

/-- A time is recorded for another key. -/
theorem Invariant.recordOther (h : Invariant limiter key s) (hnow : s.now ≤ now)
    (hnow' : now ≤ now') {key' : Str} (hkey : key' ≠ key) :
    Invariant limiter key ((system limiter).next s (.recordFailure key' now now')) := by
  have hrecorded : Function.update s.recorded key' (s.recorded key' ++ [now']) key =
      s.recorded key :=
    Function.update_of_ne hkey.symm _ _
  refine ⟨fun t ht => ?_, fun y hy => ?_, fun hadmitted => ?_, ?_⟩
  · change t ∈ Function.update s.recorded key' (s.recorded key' ++ [now']) key at ht
    rw [hrecorded] at ht
    exact (h.past t ht).trans (hnow.trans hnow')
  · change after (limiter.recordFailure s.failures key' now now' key) y =
      after (Function.update s.recorded key' (s.recorded key' ++ [now']) key) y
    have hcut := sub_le_sub_right hnow' limiter.windowSeconds
    rw [hrecorded, LoginRateLimiter.after_recordFailure (hcut.trans hy), if_neg fun hk => hkey hk.1,
      Nat.add_zero]
    exact h.kept y ((sub_le_sub_right (hnow.trans hnow') _).trans hy)
  · change after (Function.update s.recorded key' (s.recorded key' ++ [now']) key)
      (now' - limiter.windowSeconds) < limiter.maxAttempts
    change Function.update s.admitted key' false key = true at hadmitted
    rw [Function.update_of_ne hkey.symm] at hadmitted
    rw [hrecorded]
    exact (after_later _ (hnow.trans hnow')).trans_lt (h.room hadmitted)
  · change Paced limiter.windowSeconds limiter.maxAttempts
      (Function.update s.recorded key' (s.recorded key' ++ [now']) key)
    rw [hrecorded]
    exact h.paced

/-- The attempt that was let through is recorded. -/
theorem Invariant.record (h : Invariant limiter key s) (hnow : s.now ≤ now) (hnow' : now ≤ now')
    (hadmitted : s.admitted key = true) :
    Invariant limiter key ((system limiter).next s (.recordFailure key now now')) := by
  have hrecorded : Function.update s.recorded key (s.recorded key ++ [now']) key =
      s.recorded key ++ [now'] := Function.update_self _ _ _
  have hpast : ∀ t ∈ s.recorded key, t ≤ now' := fun t ht =>
    (h.past t ht).trans (hnow.trans hnow')
  refine ⟨fun t ht => ?_, fun y hy => ?_, fun hno => ?_, ?_⟩
  · change t ∈ Function.update s.recorded key (s.recorded key ++ [now']) key at ht
    rw [hrecorded] at ht
    rcases List.mem_append.mp ht with ht | ht
    · exact hpast t ht
    · exact (List.mem_singleton.mp ht).le
  · change after (limiter.recordFailure s.failures key now now' key) y =
      after (Function.update s.recorded key (s.recorded key ++ [now']) key) y
    have hcut := sub_le_sub_right hnow' limiter.windowSeconds
    rw [hrecorded, LoginRateLimiter.after_recordFailure (hcut.trans hy), after_append,
      after_singleton, h.kept y ((sub_le_sub_right (hnow.trans hnow') _).trans hy)]
    simp
  · change Function.update s.admitted key false key = true at hno
    rw [Function.update_self] at hno
    cases hno
  · change Paced limiter.windowSeconds limiter.maxAttempts
      (Function.update s.recorded key (s.recorded key ++ [now']) key)
    rw [hrecorded]
    refine h.paced.snoc hpast ?_
    -- there was room when the attempt was let through, and time has only moved the window on
    have hroom := (after_later (s.recorded key) (hnow.trans hnow')).trans_lt (h.room hadmitted)
    rw [after_append, after_singleton]
    split <;> omega

theorem Invariant.reset (h : Invariant limiter key s) {key' : Str} (hkey : key' ≠ key) :
    Invariant limiter key ((system limiter).next s (.reset key')) where
  past := h.past
  kept y hy := by
    change after (Function.update s.failures key' [] key) y = after (s.recorded key) y
    rw [Function.update_of_ne hkey.symm]
    exact h.kept y hy
  room hadmitted := by
    change Function.update s.admitted key' false key = true at hadmitted
    rw [Function.update_of_ne hkey.symm] at hadmitted
    exact h.room hadmitted
  paced := h.paced

theorem Invariant.next (h : Invariant limiter key s) {call : Call ℚ}
    (hen : (system limiter).enabled s call) (hcall : Attempting key s call) :
    Invariant limiter key ((system limiter).next s call) := by
  cases call with
  | allowed key' now => exact h.allowed hen key'
  | recordFailure key' now now' =>
      by_cases hkey : key' = key
      · subst hkey
        exact h.record hen.1 hen.2 (hcall rfl)
      · exact h.recordOther hen.1 hen.2 hkey
  | reset key' => exact h.reset hcall

/-- A limiter with exact cutoffs is a sliding window. -/
theorem exactly_bounded {l : List (Call ℚ)}
    (h : Run (system limiter) (Attempting key) (.init now) l s) :
    (∀ x, (s.recorded key).countP (fun t => x ≤ t ∧ t < x + limiter.windowSeconds) ≤
        limiter.maxAttempts) ∧
      ∀ x, (s.recorded key).countP (fun t => x < t ∧ t ≤ x + limiter.windowSeconds) ≤
        limiter.maxAttempts := by
  have hinv : Invariant limiter key s :=
    h.invariant (invariant_init now) fun _ _ hs hen hcall => hs.next hen hcall
  exact ⟨hinv.paced.Ico, hinv.paced.Ioc⟩

end

/-! ### Rounded cutoffs -/

variable {limiter : LoginRateLimiter Double} {s : State Double} {key : Str} {now : Double}

/-- No cutoff of a call for the key breaks the window. -/
def Unbroken (limiter : LoginRateLimiter Double) (key : Str) (s : State Double) :
    Call Double → Prop
  | .allowed key' now | .recordFailure key' now _ =>
    key' = key → limiter.Unbroken s.failures key now
  | .reset _ => True

instance (s : State Double) : ∀ call, Decidable (Unbroken limiter key s call)
  | .allowed .. | .recordFailure .. => inferInstanceAs (Decidable (_ → _))
  | .reset _ => .isTrue trivial

def Call.exact : Call Double → Call ℚ
  | .allowed key now => .allowed key now.val
  | .recordFailure key now now' => .recordFailure key now.val now'.val
  | .reset key => .reset key

/-- Two maps are written at the same place: they go on agreeing at another one, and they agree
there if what is written does. -/
theorem update_rel {α β : Type} {R : α → β → Prop} {f : Str → α} {g : Str → β} {x : α} {y : β}
    {key' : Str} (h : R (f key) (g key)) (hxy : key' = key → R x y) :
    R (Function.update f key' x key) (Function.update g key' y key) := by
  by_cases hkey : key' = key
  · subst hkey
    rw [Function.update_self, Function.update_self]
    exact hxy rfl
  · rw [Function.update_of_ne (Ne.symm hkey), Function.update_of_ne (Ne.symm hkey)]
    exact h

/-- The same of one map. -/
theorem update_pred {α : Type} {P : α → Prop} {f : Str → α} {x : α} {key' : Str} (h : P (f key))
    (hx : key' = key → P x) : P (Function.update f key' x key) :=
  update_rel (R := fun x _ => P x) (g := f) (y := x) h hx

/-- The states of the two limiters, as far as the key is concerned. -/
structure Follows (key : Str) (s : State Double) (t : State ℚ) : Prop where
  now : t.now = s.now.val
  failures : t.failures key = LoginRateLimiter.exactly s.failures key
  recorded : t.recorded key = LoginRateLimiter.exactly s.recorded key
  admitted : t.admitted key = s.admitted key

variable {t : State ℚ} {call : Call Double}

theorem Follows.next (h : Follows key s t) (hunbroken : Unbroken limiter key s call) :
    Follows key ((system limiter).next s call)
      ((system limiter.exact).next t call.exact) := by
  have hrecent {key' : Str} {now : Double} (hkey : key' = key)
      (hclear : limiter.Unbroken s.failures key now) :
      limiter.exact.recent t.failures key' now.val =
        (limiter.recent s.failures key' now).map Subtype.val := by
    subst hkey
    exact (LoginRateLimiter.map_val_recent hclear h.failures).symm
  cases call with
  | allowed key' now =>
      refine ⟨rfl, ?_, h.recorded, ?_⟩
      · exact update_rel (R := fun us ts => us = List.map Subtype.val ts) h.failures fun hkey =>
          hrecent hkey (hunbroken hkey)
      · refine update_rel h.admitted fun hkey => ?_
        rw [LoginRateLimiter.allowed, LoginRateLimiter.allowed, hrecent hkey (hunbroken hkey),
          List.length_map]
        rfl
  | recordFailure key' now now' =>
      refine ⟨rfl, ?_, ?_, update_rel h.admitted fun _ => rfl⟩
      · refine update_rel (R := fun us ts => us = List.map Subtype.val ts) h.failures fun hkey => ?_
        rw [List.map_append, hrecent hkey (hunbroken hkey)]
        rfl
      · refine update_rel (R := fun us ts => us = List.map Subtype.val ts) h.recorded fun hkey => ?_
        subst hkey
        rw [List.map_append, h.recorded]
        rfl
  | reset key' =>
      refine ⟨h.now, ?_, h.recorded, update_rel h.admitted fun _ => rfl⟩
      exact update_rel (R := fun us ts => us = List.map Subtype.val ts) h.failures fun _ => rfl

theorem Follows.enabled (h : Follows key s t) (hen : (system limiter).enabled s call) :
    (system limiter.exact).enabled t call.exact := by
  cases call with
  | allowed key' now => exact h.now.trans_le hen
  | recordFailure key' now now' => exact ⟨h.now.trans_le hen.1, hen.2⟩
  | reset key' => trivial

theorem Follows.attempting (h : Follows key s t) (hcall : Attempting key s call) :
    Attempting key t call.exact := by
  cases call with
  | allowed key' now => trivial
  | recordFailure key' now now' => exact fun hkey => h.admitted.trans (hcall hkey)
  | reset key' => exact hcall

/-- **The limiter follows the exact one** as long as no cutoff breaks the window. -/
theorem exists_exact_run {l : List (Call Double)}
    (h : Run (system limiter) (fun s call => Attempting key s call ∧ Unbroken limiter key s call)
      (.init now) l s) :
    ∃ t, Run (system limiter.exact) (Attempting key) (.init now.val) (l.map Call.exact) t ∧
      Follows key s t := by
  induction h with
  | nil => exact ⟨_, .nil, rfl, rfl, rfl, rfl⟩
  | snoc _ hen hcall ih =>
      obtain ⟨t, hrun, ht⟩ := ih
      rw [List.map_append]
      exact ⟨_, .snoc hrun (ht.enabled hen) (ht.attempting hcall.1), ht.next hcall.2⟩

/-! ### Refusals -/

/-- What the limiter keeps of a key is some of what was recorded for it. -/
structure Keeps (key : Str) (s : State Double) : Prop where
  past : ∀ t ∈ s.recorded key, t ≤ s.now
  kept : (s.failures key).Sublist (s.recorded key)

/-- A time is recorded for some key. -/
theorem forall_mem_record {P : Double → Prop} {times : Str → List Double} {key' : Str}
    {time : Double} (h : ∀ t ∈ times key, P t) (htime : P time) :
    ∀ t ∈ Function.update times key' (times key' ++ [time]) key, P t := by
  refine update_pred (P := fun ts => ∀ t ∈ ts, P t) h fun hkey => ?_
  subst hkey
  exact List.forall_mem_append.mpr ⟨h, List.forall_mem_singleton.mpr htime⟩

theorem Keeps.next (h : Keeps key s) (hen : (system limiter).enabled s call) :
    Keeps key ((system limiter).next s call) := by
  have hrecent (now : Double) : (limiter.recent s.failures key now).Sublist (s.recorded key) :=
    List.filter_sublist.trans h.kept
  cases call with
  | allowed key' now =>
      refine ⟨fun t ht => (h.past t ht).trans hen, ?_⟩
      refine update_pred (P := fun ts => List.Sublist ts (s.recorded key)) h.kept fun hkey => ?_
      subst hkey
      exact hrecent now
  | recordFailure key' now now' =>
      have hpast : ∀ t ∈ s.recorded key, t ≤ now' :=
        fun t ht => (h.past t ht).trans (hen.1.trans hen.2)
      refine ⟨forall_mem_record hpast le_rfl, update_rel h.kept fun hkey => ?_⟩
      subst hkey
      exact (hrecent now).append_right [now']
  | reset key' =>
      refine ⟨h.past, ?_⟩
      exact update_pred (P := fun ts => List.Sublist ts (s.recorded key)) h.kept fun _ =>
        List.nil_sublist _

/-- An attempt is refused only if the window that ends there holds as many as the limit: this takes
nothing of the cutoffs, nor of the calls. -/
theorem refused_full {G : State Double → Call Double → Prop} {l : List (Call Double)}
    {time : Double} (h : Run (system limiter) G (.init now) l s) (htime : s.now ≤ time)
    (hrefused : limiter.allowed s.failures key time = false) :
    limiter.maxAttempts ≤ (s.recorded key).countP fun t =>
      time.val - limiter.windowSeconds.val < t.val ∧ t.val ≤ time.val := by
  have hkeeps : Keeps key s :=
    h.invariant ⟨List.forall_mem_nil _, List.nil_sublist _⟩ fun _ _ hs hen _ => hs.next hen
  rw [LoginRateLimiter.allowed, decide_eq_false_iff_not, not_lt,
    LoginRateLimiter.length_recent] at hrefused
  refine hrefused.trans (hkeeps.kept.countP_le.trans (List.countP_mono_left fun t ht hcut => ?_))
  exact decide_eq_true ⟨Double.sub_lt_of_sub_lt (of_decide_eq_true hcut),
    (hkeeps.past t ht).trans htime⟩

/-! ### The window -/

/-- **The limiter is a sliding window** as long as no cutoff breaks it: every half-open interval as
long as the window holds at most the limit of a key's attempts, and one is refused only if the
window that ends there holds that many. -/
theorem attempts_bounded {l : List (Call Double)}
    (h : Run (system limiter) (fun s call => Attempting key s call ∧ Unbroken limiter key s call)
      (.init now) l s) :
    (∀ x : ℚ, (s.recorded key).countP (fun t => x ≤ t.val ∧
        t.val < x + limiter.windowSeconds.val) ≤ limiter.maxAttempts) ∧
      (∀ x : ℚ, (s.recorded key).countP (fun t => x < t.val ∧
        t.val ≤ x + limiter.windowSeconds.val) ≤ limiter.maxAttempts) ∧
      ∀ time : Double, s.now ≤ time → limiter.allowed s.failures key time = false →
        limiter.maxAttempts ≤ (s.recorded key).countP fun t =>
          time.val - limiter.windowSeconds.val < t.val ∧ t.val ≤ time.val := by
  obtain ⟨t, hrun, ht⟩ := exists_exact_run h
  obtain ⟨hIco, hIoc⟩ := exactly_bounded hrun
  simp only [ht.recorded, LoginRateLimiter.exactly, List.countP_map] at hIco hIoc
  exact ⟨hIco, hIoc, fun time htime hrefused => refused_full h htime hrefused⟩

/-- The address of a client. -/
def client : Str := str "10.0.0.1"

def oneAttempt : LoginRateLimiter Double where
  maxAttempts := 1

/-- Two attempts, one window of 300 s apart. -/
def twoAttempts : List (Call Double) :=
  [.allowed client 0, .recordFailure client 0 0, .allowed client 300, .recordFailure client 300 300]

theorem attempts_bounded_one :
    ∃ s, Run (system oneAttempt)
        (fun s call => Attempting client s call ∧ Unbroken oneAttempt client s call) (.init 0)
        twoAttempts s ∧
      s.recorded client = [0, 300] ∧
      (s.recorded client).countP (fun t => 0 ≤ t.val ∧ t.val < 0 + (300 : Double).val) ≤ 1 := by
  have hrun : Run (system oneAttempt)
      (fun s call => Attempting client s call ∧ Unbroken oneAttempt client s call) (.init 0)
      twoAttempts _ := run_of_exec (by decide +kernel)
  exact ⟨_, hrun, by decide +kernel, (attempts_bounded hrun).1 0⟩

/-- One attempt in a tenth of a second. -/
def tenthOfASecond : LoginRateLimiter Double where
  maxAttempts := 1
  windowSeconds := 0.1

/-- Two attempts that are closer than that. -/
def tooClose : List (Call Double) :=
  [.allowed client 0.9, .recordFailure client 0.9 0.9, .allowed client 1.0,
    .recordFailure client 1.0 1.0]

theorem rounding_admits_two :
    ∃ s, Run (system tenthOfASecond) (Attempting client) (.init 0.9) tooClose s ∧
      1 < (s.recorded client).countP fun t =>
        (0.9 : Double).val ≤ t.val ∧ t.val < (0.9 : Double).val + (0.1 : Double).val :=
  ⟨_, run_of_exec (by decide +kernel), by decide +kernel⟩

/-- The clock has not gone on for `2 ^ 55` seconds. -/
def Call.Early : Call Double → Prop
  | .allowed _ now | .recordFailure _ now _ => now.val < 2 ^ 55
  | .reset _ => True

/-- With the windows of the application, no cutoff breaks anything. -/
theorem unbroken_run {n : ℕ} {l : List (Call Double)}
    (hwindow : limiter.windowSeconds.val = 4 * n) (hnow : 0 ≤ now.val)
    (h : Run (system limiter) (fun s call => Attempting key s call ∧ call.Early)
      (.init now) l s) :
    Run (system limiter) (fun s call => Attempting key s call ∧ Unbroken limiter key s call)
      (.init now) l s := by
  refine h.strengthen (I := fun s => 0 ≤ s.now.val ∧ Keeps key s ∧
    ∀ t ∈ s.recorded key, 0 ≤ t.val) ?_ ?_ ?_
  · exact ⟨hnow, ⟨List.forall_mem_nil _, List.nil_sublist _⟩, List.forall_mem_nil _⟩
  · rintro s call ⟨hle, hkeeps, hall⟩ hen -
    cases call with
    | allowed key' now => exact ⟨hle.trans hen, hkeeps.next hen, hall⟩
    | recordFailure key' now now' =>
        have hnow' : 0 ≤ now'.val := hle.trans (hen.1.trans hen.2)
        exact ⟨hnow', hkeeps.next hen, forall_mem_record hall hnow'⟩
    | reset key' => exact ⟨hle, hkeeps.next hen, hall⟩
  · rintro s call ⟨hle, hkeeps, hall⟩ hen ⟨hcall, hearly⟩
    have hpast : ∀ t ∈ s.failures key, 0 ≤ t.val := fun t ht => hall t (hkeeps.kept.subset ht)
    refine ⟨hcall, ?_⟩
    cases call with
    | allowed key' now =>
        exact fun _ => LoginRateLimiter.unbroken_of_window hwindow ⟨hle.trans hen, hearly⟩ hpast
    | recordFailure key' now now' =>
        exact fun _ => LoginRateLimiter.unbroken_of_window hwindow ⟨hle.trans hen.1, hearly⟩ hpast
    | reset key' => trivial

end MediaScanMonitor.Attempts
