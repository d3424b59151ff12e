import MediaScanMonitor.Library.Lts
import MediaScanMonitor.Web.Auth

/-!
# Web — resets and changes of the password side by side

Each request does its writes in a worker thread and nothing orders the threads.  A label is one
write, or the check of the current password; it carries what the request has in hand.

* `reset_alone`, `change_alone`: a request whose steps nothing comes between is the function of
  `web/auth.py`.
* `past_iff`: what a handler is past was done by a step of the run.
* `retrievable_iff`: when everybody has finished, the live password can be had exactly if the steps
  came in the right order.
-/

namespace MediaScanMonitor.Auth
open Py Lts

/-- A request, at what it does next. -/
inductive Handler where
  /-- `reset_password`: `_write_initial_password_file`, `set_setting`, `set_password`. -/
  | writing (generated : Str)
  | flagging (generated : Str)
  | storing (generated : Str)
  | reset (generated : Str)
  /-- `change_password`: `check_password`, `set_password`, and the two of
  `clear_initial_password`. -/
  | verifying (current new confirm : Str)
  | setting (new : Str)
  | clearing (new : Str)
  | unlinking (new : Str)
  | changed (new : Str)
  | refused (error : Str)
  deriving DecidableEq

/-- The response is sent. -/
def Handler.finished : Handler → Bool
  | .reset _ | .changed _ | .refused _ => true
  | _ => false

structure State where
  credential : Credential
  handlers : List Handler
  deriving DecidableEq

inductive Label where
  | resetPassword (generated : Str)
  | changePassword (current new confirm : Str)
  | writeFile (k : Nat) (generated : Str)
  | setFlag (k : Nat) (generated : Str)
  | storeGenerated (k salt : Nat) (generated : Str)
  | verify (k : Nat) (current new confirm : Str)
  | storeNew (k salt : Nat) (new : Str)
  | clearFlag (k : Nat) (new : Str)
  | deleteFile (k : Nat) (new : Str)

namespace Label

/-- The handler that takes the step, and where it stands. -/
def source : Label → Option (Nat × Handler)
  | resetPassword _ | changePassword _ _ _ => none
  | writeFile k generated => some (k, .writing generated)
  | setFlag k generated => some (k, .flagging generated)
  | storeGenerated k _ generated => some (k, .storing generated)
  | verify k current new confirm => some (k, .verifying current new confirm)
  | storeNew k _ new => some (k, .setting new)
  | clearFlag k new => some (k, .clearing new)
  | deleteFile k new => some (k, .unlinking new)

variable (hasher : PasswordHasher) (credential : Credential)

/-- Where the step leaves its handler. -/
def target : Label → Handler
  | resetPassword generated => .writing generated
  | changePassword current new confirm => .verifying current new confirm
  | writeFile _ generated => .flagging generated
  | setFlag _ generated => .storing generated
  | storeGenerated _ _ generated => .reset generated
  | verify _ current new confirm =>
    match credential.changeError hasher current new confirm with
    | some error => .refused error
    | none => .setting new
  | storeNew _ _ new => .clearing new
  | clearFlag _ new => .unlinking new
  | deleteFile _ new => .changed new

/-- What the step does to the credential. -/
def effect : Label → Credential
  | resetPassword _ | changePassword _ _ _ | verify _ _ _ _ => credential
  | writeFile _ generated => credential.writeInitialPasswordFile generated
  | setFlag _ _ => credential.setMustChange (str "1")
  | storeGenerated _ salt generated => credential.setPassword hasher salt generated
  | storeNew _ salt new => credential.setPassword hasher salt new
  | clearFlag _ _ => credential.setMustChange (str "0")
  | deleteFile _ _ => credential.unlink

end Label

/-- Any requests, their steps in any order, none of which fails. -/
def system (hasher : PasswordHasher) : System State Label where
  enabled s a :=
    match a.source with
    | none => True
    | some (k, handler) => s.handlers[k]? = some handler
  next s a :=
    { credential := a.effect hasher s.credential
      handlers :=
        match a.source with
        | none => s.handlers ++ [a.target hasher s.credential]
        | some (k, _) => s.handlers.set k (a.target hasher s.credential) }

instance (hasher : PasswordHasher) (s : State) (a : Label) :
    Decidable ((system hasher).enabled s a) :=
  match h : a.source with
  | none => .isTrue (by simp [system, h])
  | some (k, handler) =>
    decidable_of_iff (s.handlers[k]? = some handler) (by simp [system, h])

variable {hasher : PasswordHasher} {c : Credential} {s₀ s : State} {l : List Label} {a : Label}
  {p : Str}

/-! ### One request alone -/

theorem reset_alone (salt : Nat) (generated : Str) :
    ∃ l s, Run (system hasher) free ⟨c, []⟩ l s ∧
      s = ⟨c.generateAndStore hasher salt generated, [.reset generated]⟩ :=
  ⟨[.resetPassword generated, .writeFile 0 generated, .setFlag 0 generated,
      .storeGenerated 0 salt generated], _,
    .cons trivial trivial (.cons rfl trivial (.cons rfl trivial (.cons rfl trivial .nil))), rfl⟩

theorem change_alone {c' : Credential} {salt : Nat} {current new confirm : Str}
    (h : c.changePassword hasher salt current new confirm = .ok c') :
    ∃ l s, Run (system hasher) free ⟨c, []⟩ l s ∧ s = ⟨c', [.changed new]⟩ := by
  rw [Credential.changePassword] at h
  split at h
  · cases h
  · rename_i hnone
    cases h
    have hverify : (system hasher).next ⟨c, [.verifying current new confirm]⟩
        (.verify 0 current new confirm) = ⟨c, [.setting new]⟩ := by
      simp [system, Label.source, Label.target, Label.effect, hnone]
    refine ⟨[.changePassword current new confirm, .verify 0 current new confirm,
      .storeNew 0 salt new, .clearFlag 0 new, .deleteFile 0 new], _,
      .cons trivial trivial (.cons rfl trivial ?_), rfl⟩
    exact hverify ▸ .cons rfl trivial (.cons rfl trivial (.cons rfl trivial .nil))

/-! ### What a handler is past -/

/-- Replacing one element of a list, for an existence. -/
theorem exists_mem_set {α : Type*} {xs : List α} {k : Nat} {x y : α} {Q : α → Prop} {R : Prop}
    (hx : xs[k]? = some x) (hy : Q y ↔ Q x ∨ R) :
    (∃ z ∈ xs.set k y, Q z) ↔ (∃ z ∈ xs, Q z) ∨ R := by
  obtain ⟨hk, rfl⟩ := List.getElem?_eq_some_iff.mp hx
  have hset : y ∈ xs.set k y := List.mem_set hk y
  constructor
  · rintro ⟨z, hz, hQ⟩
    rcases List.mem_or_eq_of_mem_set hz with hz | rfl
    · exact .inl ⟨z, hz, hQ⟩
    · rcases hy.mp hQ with hQ | hR
      · exact .inl ⟨xs[k], List.getElem_mem hk, hQ⟩
      · exact .inr hR
  · rintro (⟨z, hz, hQ⟩ | hR)
    · obtain ⟨i, hi⟩ := List.mem_iff_getElem?.mp hz
      by_cases hik : k = i
      · subst hik
        rw [hx] at hi
        cases hi
        exact ⟨y, hset, hy.mpr (.inl hQ)⟩
      · exact ⟨z, List.mem_iff_getElem?.mpr ⟨i, by rw [List.getElem?_set_ne hik, hi]⟩, hQ⟩
    · exact ⟨y, hset, hy.mpr (.inr hR)⟩

/-- A write, and what it wrote. -/
inductive Event where
  | wroteFile (generated : Str)
  | setFlag
  | storedGenerated (generated : Str)
  | storedNew (new : Str)
  | clearedFlag
  | deletedFile
  deriving DecidableEq

def Label.event : Label → Option Event
  | resetPassword _ | changePassword _ _ _ | verify _ _ _ _ => none
  | writeFile _ generated => some (.wroteFile generated)
  | setFlag _ _ => some .setFlag
  | storeGenerated _ _ generated => some (.storedGenerated generated)
  | storeNew _ _ new => some (.storedNew new)
  | clearFlag _ _ => some .clearedFlag
  | deleteFile _ _ => some .deletedFile

/-- What the handler has written. -/
def Handler.past : Handler → List Event
  | writing _ | verifying _ _ _ | setting _ | refused _ => []
  | flagging generated => [.wroteFile generated]
  | storing generated => [.wroteFile generated, .setFlag]
  | reset generated => [.wroteFile generated, .setFlag, .storedGenerated generated]
  | clearing new => [.storedNew new]
  | unlinking new => [.storedNew new, .clearedFlag]
  | changed new => [.storedNew new, .clearedFlag, .deletedFile]

/-- A step adds its write to the past of its handler. -/
theorem past_target (hasher : PasswordHasher) (credential : Credential) (a : Label) :
    (a.target hasher credential).past =
      (a.source.elim [] fun source => source.2.past) ++ a.event.toList := by
  cases a with
  | verify k current new confirm =>
      rw [Label.target]
      split <;> rfl
  | _ => rfl

/-- What was written in a run, some handler has written. -/
theorem past_iff {e : Event} (h : Run (system hasher) free ⟨c, []⟩ l s) :
    (∃ handler ∈ s.handlers, e ∈ handler.past) ↔ ∃ a ∈ l, a.event = some e := by
  induction h with
  | nil => simp
  | @snoc l s a _ hen _ ih =>
      have hlast : (∃ b ∈ l ++ [a], b.event = some e) ↔
          (∃ b ∈ l, b.event = some e) ∨ a.event = some e := by
        simp [or_and_right, exists_or]
      have hpast := past_target hasher s.credential a
      rw [hlast, ← ih]
      simp only [system] at hen ⊢
      cases hsource : a.source with
      | none =>
          rw [hsource] at hpast
          simp [or_and_right, exists_or, hpast]
      | some source =>
          rw [hsource] at hpast hen
          exact exists_mem_set hen (by simp [hpast])

/-! ### Who wrote last -/

/-- The last value of the file is `none` where it is deleted. -/
def Event.file : Event → Option (Option Str)
  | wroteFile generated => some (some generated)
  | deletedFile => some none
  | _ => none

def Event.flag : Event → Option Bool
  | setFlag => some true
  | clearedFlag => some false
  | _ => none

/-- A password, and whether the operator chose it. -/
def Event.stored : Event → Option (Bool × Str)
  | storedGenerated generated => some (false, generated)
  | storedNew new => some (true, new)
  | _ => none

/-- The last write of one kind in the run. -/
def last {β : Type} (kind : Event → Option β) (l : List Label) : Option β :=
  lastWrite (fun a => a.event.bind kind) l

theorem file_of_last {content : Option Str} (h : Run (system hasher) free s₀ l s)
    (hlast : last Event.file l = some content) :
    s.credential.initialPassword = content.map (· ++ [newline]) := by
  refine h.lastWrite (P := fun o s => ∀ content, o = some content →
    s.credential.initialPassword = content.map (· ++ [newline])) (by simp) ?_ content hlast
  intro o s a ih _ content hcontent
  cases a <;> first
    | exact ih content hcontent
    | cases hcontent; rfl

theorem flag_of_last {flag : Bool} (h : Run (system hasher) free s₀ l s)
    (hlast : last Event.flag l = some flag) : s.credential.isMustChange = flag := by
  refine h.lastWrite (P := fun o s => ∀ flag, o = some flag → s.credential.isMustChange = flag)
    (by simp) ?_ flag hlast
  intro o s a ih _ flag hflag
  cases a <;> first
    | exact ih flag hflag
    | cases hflag; rfl

theorem hash_of_last {chosen : Bool} (h : Run (system hasher) free s₀ l s)
    (hlast : last Event.stored l = some (chosen, p)) (q : Str) :
    s.credential.checkPassword hasher q = true ↔ q = p := by
  refine h.lastWrite (P := fun o s => ∀ stored, o = some stored →
    (s.credential.checkPassword hasher q = true ↔ q = stored.2)) (by simp) ?_ (chosen, p) hlast
  intro o s a ih _ stored hstored
  cases a <;> first
    | exact ih stored hstored
    | cases hstored; exact Credential.checkPassword_setPassword

/-! ### Once all have finished -/

/-- No password was stored, or the live one is the choice of a change that went through, or it was
generated, the file holds it and it must be changed. -/
def Retrievable (hasher : PasswordHasher) (l : List Label) (s : State) : Prop :=
  (∀ a ∈ l, a.event.bind Event.stored = none) ∨
    ∃ password, s.credential.checkPassword hasher password = true ∧
      (.changed password ∈ s.handlers ∨
        .reset password ∈ s.handlers ∧
          s.credential.initialPassword = some (password ++ [newline]) ∧
          s.credential.isMustChange = true)

/-- If the last password stored was generated and no change stored it too, the file was last
written with it and the flag last set. -/
def Ordered (l : List Label) : Prop :=
  ∀ generated, last Event.stored l = some (false, generated) →
    (∃ a ∈ l, a.event = some (.storedNew generated)) ∨
      last Event.file l = some (some generated) ∧ last Event.flag l = some true

theorem changed_mem_iff (h : Run (system hasher) free ⟨c, []⟩ l s)
    (hdone : ∀ handler ∈ s.handlers, handler.finished = true) :
    .changed p ∈ s.handlers ↔ ∃ a ∈ l, a.event = some (.storedNew p) := by
  rw [← past_iff h]
  constructor
  · intro hp
    exact ⟨_, hp, by simp [Handler.past]⟩
  · rintro ⟨handler, hmem, hpast⟩
    have hfin := hdone handler hmem
    cases handler with
    | changed new =>
        obtain rfl : p = new := by simpa [Handler.past] using hpast
        exact hmem
    | reset | refused => simp [Handler.past] at hpast
    | _ => cases hfin

theorem reset_mem_iff (h : Run (system hasher) free ⟨c, []⟩ l s)
    (hdone : ∀ handler ∈ s.handlers, handler.finished = true) :
    .reset p ∈ s.handlers ↔ ∃ a ∈ l, a.event = some (.storedGenerated p) := by
  rw [← past_iff h]
  constructor
  · intro hp
    exact ⟨_, hp, by simp [Handler.past]⟩
  · rintro ⟨handler, hmem, hpast⟩
    have hfin := hdone handler hmem
    cases handler with
    | reset generated =>
        obtain rfl : p = generated := by simpa [Handler.past] using hpast
        exact hmem
    | changed | refused => simp [Handler.past] at hpast
    | _ => cases hfin

/-- A reset that went through has written the file and set the flag. -/
theorem last_of_reset (h : Run (system hasher) free ⟨c, []⟩ l s) (hp : .reset p ∈ s.handlers) :
    (∃ content, last Event.file l = some content) ∧ ∃ flag, last Event.flag l = some flag := by
  constructor
  · obtain ⟨a, ha, he⟩ := (past_iff (e := .wroteFile p) h).mp ⟨_, hp, by simp [Handler.past]⟩
    exact exists_lastWrite ha (by rw [he]; rfl)
  · obtain ⟨a, ha, he⟩ := (past_iff (e := .setFlag) h).mp ⟨_, hp, by simp [Handler.past]⟩
    exact exists_lastWrite ha (by rw [he]; rfl)

theorem ordered_of_retrievable (h : Run (system hasher) free ⟨c, []⟩ l s)
    (hdone : ∀ handler ∈ s.handlers, handler.finished = true) (hr : Retrievable hasher l s) :
    Ordered l := by
  intro generated hlast
  rcases hr with hnone | ⟨password, hlive, hpass⟩
  · obtain ⟨a, ha, hstored⟩ := mem_of_lastWrite hlast
    rw [hnone a ha] at hstored
    cases hstored
  · obtain rfl := (hash_of_last h hlast password).mp hlive
    rcases hpass with hchanged | ⟨hreset, hfile, hflag⟩
    · exact .inl ((changed_mem_iff h hdone).mp hchanged)
    · obtain ⟨⟨content, hcontent⟩, flag, hflag'⟩ := last_of_reset h hreset
      have hfile' := file_of_last h hcontent
      rw [hfile] at hfile'
      rw [flag_of_last h hflag'] at hflag
      refine .inr ⟨?_, by rw [hflag', hflag]⟩
      cases content with
      | none => cases hfile'
      | some content =>
          rw [hcontent, List.append_cancel_right (Option.some.inj hfile')]

theorem retrievable_of_ordered (h : Run (system hasher) free ⟨c, []⟩ l s)
    (hdone : ∀ handler ∈ s.handlers, handler.finished = true) (hord : Ordered l) :
    Retrievable hasher l s := by
  cases hlast : last Event.stored l with
  | none =>
      refine .inl fun a ha => ?_
      cases hstored : a.event.bind Event.stored with
      | none => rfl
      | some stored =>
          obtain ⟨_, hsome⟩ := exists_lastWrite (w := fun a => a.event.bind Event.stored) ha hstored
          cases hlast.symm.trans hsome
  | some stored =>
      obtain ⟨chosen, password⟩ := stored
      have hlive := (hash_of_last h hlast password).mpr rfl
      obtain ⟨a, ha, hstored⟩ := mem_of_lastWrite hlast
      obtain ⟨e, he, hkind⟩ := Option.bind_eq_some_iff.mp hstored
      refine .inr ⟨password, hlive, ?_⟩
      cases e with
      | storedNew new =>
          cases hkind
          exact .inl ((changed_mem_iff h hdone).mpr ⟨a, ha, he⟩)
      | storedGenerated generated =>
          cases hkind
          have hreset := (reset_mem_iff h hdone).mpr ⟨a, ha, he⟩
          rcases hord _ hlast with hnew | ⟨hfile, hflag⟩
          · exact .inl ((changed_mem_iff h hdone).mpr hnew)
          · exact .inr ⟨hreset, file_of_last h hfile, flag_of_last h hflag⟩
      | _ => cases hkind

/-- Once every request is answered, somebody can have the live password exactly if the steps were
taken in a good order. -/
theorem retrievable_iff (h : Run (system hasher) free ⟨c, []⟩ l s)
    (hdone : ∀ handler ∈ s.handlers, handler.finished = true) :
    Retrievable hasher l s ↔ Ordered l :=
  ⟨ordered_of_retrievable h hdone, retrievable_of_ordered h hdone⟩

/-- A reset that comes between the check of a change and its writes. -/
def resetDuringChange : List Label :=
  [.changePassword (str "old") (str "new") (str "new"), .resetPassword (str "g1"),
    .verify 0 (str "old") (str "new") (str "new"), .writeFile 1 (str "g1"), .setFlag 1 (str "g1"),
    .storeGenerated 1 0 (str "g1"), .storeNew 0 0 (str "new"), .clearFlag 0 (str "new"),
    .deleteFile 0 (str "new")]

theorem retrievable_iff_resetDuringChange :
    Retrievable markHasher resetDuringChange
      (resetDuringChange.foldl (system markHasher).next ⟨.original, []⟩) ↔
      Ordered resetDuringChange :=
  retrievable_iff (run_of_exec (by decide +kernel)) (by decide +kernel)

/-- Two resets: the first writes the file first and its hash last. -/
def crossedResets : List Label :=
  [.resetPassword (str "g1"), .resetPassword (str "g2"), .writeFile 0 (str "g1"),
    .writeFile 1 (str "g2"), .setFlag 0 (str "g1"), .setFlag 1 (str "g2"),
    .storeGenerated 1 0 (str "g2"), .storeGenerated 0 0 (str "g1")]

/-- The live password is then one the file does not hold. -/
theorem crossed_resets_lock_out :
    ∃ l s, Run (system markHasher) free ⟨.original, []⟩ l s ∧
      (∀ handler ∈ s.handlers, handler.finished = true) ∧ ¬ Retrievable markHasher l s := by
  have hrun : Run (system markHasher) free ⟨.original, []⟩ crossedResets
      (crossedResets.foldl (system markHasher).next ⟨.original, []⟩) :=
    run_of_exec (by decide +kernel)
  have hdone : ∀ handler ∈ (crossedResets.foldl (system markHasher).next ⟨.original, []⟩).handlers,
      handler.finished = true := by decide +kernel
  refine ⟨_, _, hrun, hdone, fun hr => ?_⟩
  rcases ordered_of_retrievable hrun hdone hr (str "g1") (by decide +kernel) with
    ⟨a, ha, he⟩ | ⟨hfile, -⟩
  · revert a
    simp [crossedResets, Label.event]
  · exact absurd hfile (by decide +kernel)

end MediaScanMonitor.Auth
