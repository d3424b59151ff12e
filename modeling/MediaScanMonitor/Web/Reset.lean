import MediaScanMonitor.Library.Lts
import MediaScanMonitor.Web.Auth

/-!
# Web — a reset that fails half-way

`reset_to_generated_password` is a list of effects.  A call does the first few of them, and then it
has returned, the process has died, or the next effect has raised `OSError` and done nothing.

* `run_of_done`: a call that returns is `generateAndStore`.
* `keeps_iff`: a call keeps the live password retrievable, and the rest too where it raises, exactly
  if it `Survives`.
* `kept_iff`: so do the calls of a sequence.
-/

namespace MediaScanMonitor.Reset
open Py Lts

inductive Effect where
  /-- `path.parent.mkdir`. -/
  | mkdir
  /-- `os.open` with `O_CREAT` and `O_TRUNC`. -/
  | openTruncate
  /-- One character of `handle.write(value + "\n")` reaches the file. -/
  | write (c : CodePoint)
  /-- `path.chmod`. -/
  | chmod
  /-- `repo.set_setting(MUST_CHANGE_KEY, "1")`. -/
  | setFlag
  /-- `set_password`. -/
  | storeHash (salt : Nat) (generated : Str)

structure Account where
  credential : Credential
  /-- Kept nowhere: the operator chose the live password. -/
  chosen : Bool

def Effect.run (hasher : PasswordHasher) (account : Account) : Effect → Account
  | .mkdir | .chmod => account
  | .openTruncate =>
    { account with credential := { account.credential with initialPassword := some [] } }
  | .write c =>
    { account with credential := { account.credential with
        initialPassword := account.credential.initialPassword.map (· ++ [c]) } }
  | .setFlag => { account with credential := account.credential.setMustChange (str "1") }
  | .storeHash salt generated =>
    { credential := account.credential.setPassword hasher salt generated, chosen := false }

/-- How a call ends, and after how many effects if early. -/
inductive Ending where
  | returned
  | crash (after : Nat)
  | osError (after : Nat)

structure Call where
  salt : Nat
  generated : Str
  ending : Ending

namespace Call
variable (call : Call)

/-- What is written to the file. -/
def text : Str := call.generated ++ [newline]

/-- `_generate_and_store`. -/
def effects : List Effect :=
  .mkdir :: .openTruncate :: (call.text.map .write ++
    [.chmod, .setFlag, .storeHash call.salt call.generated])

/-- How many of the effects there are. -/
def ran : Nat :=
  match call.ending with
  | .returned => call.effects.length
  | .crash after | .osError after => after

/-- It is with `OSError` that the call ends. -/
def raises : Prop :=
  match call.ending with
  | .returned | .crash _ => False
  | .osError after => after < call.effects.length

def run (hasher : PasswordHasher) (account : Account) : Account :=
  (call.effects.take call.ran).foldl (Effect.run hasher) account

/-- What the call leaves in the file it has truncated. -/
def written : Str := call.text.take (call.ran - 2)

end Call

variable {hasher : PasswordHasher} {account : Account} {call : Call}

/-! ### What a call leaves -/

theorem length_effects : call.effects.length = call.text.length + 5 := by
  simp [Call.effects]

theorem foldl_write (content text : Str)
    (h : account.credential.initialPassword = some content) :
    (text.map Effect.write).foldl (Effect.run hasher) account =
      { account with credential := { account.credential with
          initialPassword := some (content ++ text) } } := by
  induction text generalizing account content with
  | nil =>
      rw [List.append_nil, ← h]
      rfl
  | cons c text ih =>
      rw [List.map_cons, List.foldl_cons, ih (content ++ [c]) (by simp [Effect.run, h])]
      simp [Effect.run]

/-- Before the file is opened nothing has changed. -/
theorem run_of_lt (h : call.ran < 2) : call.run hasher account = account := by
  rw [Call.run]
  obtain h | h : call.ran = 0 ∨ call.ran = 1 := by omega
  · rw [h]
    rfl
  · rw [h]
    rfl

/-- The effects after the first two. -/
theorem run_of_le (h : 2 ≤ call.ran) :
    call.run hasher account =
      (([.chmod, .setFlag, .storeHash call.salt call.generated] : List Effect).take
        (call.ran - 2 - call.text.length)).foldl (Effect.run hasher)
        { account with credential := { account.credential with
            initialPassword := some call.written } } := by
  obtain ⟨k, hk⟩ := Nat.exists_eq_add_of_le' h
  rw [Call.run, Call.effects, Call.written, hk]
  simp only [List.take_succ_cons, List.foldl_cons, List.take_append, List.foldl_append,
    List.length_map, Nat.add_sub_cancel, ← List.map_take]
  rw [foldl_write [] _ rfl]
  rfl

/-- Between the truncation and the last effect. -/
theorem run_of_mid (h : 2 ≤ call.ran) (hlt : call.ran < call.effects.length) :
    call.run hasher account =
      { account with credential :=
        { passwordHash := account.credential.passwordHash
          mustChangePassword :=
            if call.ran + 1 = call.effects.length then some (str "1")
            else account.credential.mustChangePassword
          initialPassword := some call.written } } := by
  rw [run_of_le h]
  rw [length_effects] at hlt ⊢
  obtain hn | hn | hn : call.ran - 2 - call.text.length = 0 ∨
      call.ran - 2 - call.text.length = 1 ∨ call.ran - 2 - call.text.length = 2 := by omega
  · rw [hn, if_neg (by omega)]
    rfl
  · rw [hn, if_neg (by omega)]
    rfl
  · rw [hn, if_pos (by omega)]
    rfl

/-- A call all of whose effects there are. -/
theorem run_of_done (h : call.effects.length ≤ call.ran) :
    call.run hasher account =
      { credential := account.credential.generateAndStore hasher call.salt call.generated
        chosen := false } := by
  rw [length_effects] at h
  rw [run_of_le (by omega), Call.written, List.take_of_length_le (by omega),
    List.take_of_length_le (by simp; omega)]
  rfl

/-! ### What is retrievable -/

/-- A file with this content tells a password that passes. -/
def Reads (hasher : PasswordHasher) (credential : Credential) (content : Str) : Prop :=
  ∃ password, credential.checkPassword hasher password = true ∧
    (content = password ∨ content = password ++ [newline])

def InFile (hasher : PasswordHasher) (credential : Credential) : Prop :=
  ∃ content, credential.initialPassword = some content ∧ Reads hasher credential content

/-- The operator chose the live password, or the file tells it. -/
def Retrievable (hasher : PasswordHasher) (account : Account) : Prop :=
  account.chosen = true ∨ InFile hasher account.credential

/-- A password that was retrievable still is; and where the call raises, nothing has changed that
a login, the flag or the operator could tell. -/
structure Keeps (hasher : PasswordHasher) (account : Account) (call : Call) : Prop where
  retrievable : Retrievable hasher account → Retrievable hasher (call.run hasher account)
  passwordHash : call.raises →
    (call.run hasher account).credential.passwordHash = account.credential.passwordHash
  mustChangePassword : call.raises →
    (call.run hasher account).credential.mustChangePassword = account.credential.mustChangePassword
  retrievable_iff : call.raises →
    (Retrievable hasher (call.run hasher account) ↔ Retrievable hasher account)

/-- A call that ends between the truncation and the last effect leaves a password that the operator
did not choose in the file, or was not there to be lost; and the flag it has set was set before. -/
structure Survives (hasher : PasswordHasher) (account : Account) (call : Call) : Prop where
  kept : 2 ≤ call.ran → call.ran < call.effects.length → account.chosen = false →
    InFile hasher account.credential → Reads hasher account.credential call.written
  found : 2 ≤ call.ran → call.raises → account.chosen = false →
    Reads hasher account.credential call.written → InFile hasher account.credential
  flag : call.raises → call.ran + 1 = call.effects.length →
    account.credential.mustChangePassword = some (str "1")

theorem Call.not_raises_of_le (h : call.effects.length ≤ call.ran) : ¬ call.raises := by
  cases hending : call.ending with
  | returned | crash _ => simp [Call.raises, hending]
  | osError after =>
      simp only [Call.ran, hending] at h
      simp only [Call.raises, hending]
      omega

theorem reads_congr {c c' : Credential} {content : Str} (h : c'.passwordHash = c.passwordHash) :
    Reads hasher c' content ↔ Reads hasher c content := by
  simp only [Reads, Credential.checkPassword_congr h]

theorem retrievable_run_of_mid (h : 2 ≤ call.ran) (hlt : call.ran < call.effects.length) :
    Retrievable hasher (call.run hasher account) ↔
      account.chosen = true ∨ Reads hasher account.credential call.written := by
  rw [run_of_mid h hlt, Retrievable, InFile]
  simp only [Option.some.injEq, exists_eq_left']
  exact or_congr_right (reads_congr rfl)

theorem retrievable_run_of_done (h : call.effects.length ≤ call.ran) :
    Retrievable hasher (call.run hasher account) := by
  rw [run_of_done h]
  exact .inr ⟨_, rfl, call.generated, Credential.checkPassword_setPassword.mpr rfl, .inr rfl⟩

/-- `Keeps`, for a call that ends between the truncation and the last effect. -/
theorem keeps_iff_of_mid (h : 2 ≤ call.ran) (hlt : call.ran < call.effects.length) :
    Keeps hasher account call ↔ Survives hasher account call := by
  have hret : Retrievable hasher (call.run hasher account) ↔
      account.chosen = true ∨ Reads hasher account.credential call.written :=
    retrievable_run_of_mid h hlt
  have hflag : (call.run hasher account).credential.mustChangePassword =
      if call.ran + 1 = call.effects.length then some (str "1")
      else account.credential.mustChangePassword := by rw [run_of_mid h hlt]
  constructor
  · intro hkeeps
    refine ⟨fun _ _ hchosen hfile => ?_, fun _ hraises hchosen hreads => ?_,
      fun hraises hlast => ?_⟩
    · exact (hret.mp (hkeeps.retrievable (.inr hfile))).resolve_left (by simp [hchosen])
    · exact ((hkeeps.retrievable_iff hraises).mp (hret.mpr (.inr hreads))).resolve_left
        (by simp [hchosen])
    · rw [← hkeeps.mustChangePassword hraises, hflag, if_pos hlast]
  · intro hsurvives
    have hkept : Retrievable hasher account → Retrievable hasher (call.run hasher account) := by
      intro hold
      rw [hret]
      cases hchosen : account.chosen with
      | true => exact .inl rfl
      | false =>
          exact .inr (hsurvives.kept h hlt hchosen (hold.resolve_left (by simp [hchosen])))
    refine ⟨hkept, fun _ => by rw [run_of_mid h hlt], fun hraises => ?_,
      fun hraises => ⟨fun hnew => ?_, hkept⟩⟩
    · rw [hflag]
      split
      case isTrue hlast => rw [hsurvives.flag hraises hlast]
      case isFalse => rfl
    · rcases hret.mp hnew with hchosen | hreads
      · exact .inl hchosen
      · cases hchosen : account.chosen with
        | true => exact .inl hchosen
        | false => exact .inr (hsurvives.found h hraises hchosen hreads)

theorem keeps_iff : Keeps hasher account call ↔ Survives hasher account call := by
  by_cases h : 2 ≤ call.ran
  · by_cases hlt : call.ran < call.effects.length
    · exact keeps_iff_of_mid h hlt
    · have hraises := call.not_raises_of_le (by omega)
      exact ⟨fun _ => ⟨fun _ h => absurd h hlt, fun _ h => absurd h hraises,
          fun h => absurd h hraises⟩,
        fun _ => ⟨fun _ => retrievable_run_of_done (by omega), fun h => absurd h hraises,
          fun h => absurd h hraises, fun h => absurd h hraises⟩⟩
  · have hrun : call.run hasher account = account := run_of_lt (by omega)
    have hlen : call.effects.length = call.text.length + 5 := length_effects
    constructor
    · intro _
      exact ⟨fun h' => absurd h' h, fun h' => absurd h' h, by omega⟩
    · intro _
      exact ⟨by rw [hrun]; exact id, fun _ => by rw [hrun], fun _ => by rw [hrun],
        fun _ => by rw [hrun]⟩

/-! ### A sequence of calls -/

/-- The live password stays retrievable from the first call to the last, and each call keeps what
it should. -/
def Kept (hasher : PasswordHasher) (account : Account) (calls : List Call) : Prop :=
  (Retrievable hasher account →
      Retrievable hasher (calls.foldl (fun account call => call.run hasher account) account)) ∧
    Along (fun account call => call.run hasher account) (Keeps hasher) account calls

theorem kept_iff (hasher : PasswordHasher) (account : Account) (calls : List Call) :
    Kept hasher account calls ↔
      Along (fun account call => call.run hasher account) (Survives hasher) account calls := by
  rw [Kept, along_congr fun _ _ => keeps_iff]
  constructor
  · exact And.right
  · intro h
    refine ⟨fun hret => ?_, h⟩
    exact h.foldl hret fun _ _ hsurvives => (keeps_iff.mpr hsurvives).retrievable

/-- The generated password is live, and the disk is full when the next is to be written. -/
theorem full_disk_locks_out :
    ¬ Kept markHasher ⟨.bootstrapped, false⟩ [⟨0, str "g2", .osError 2⟩] := by
  rintro ⟨hkept, -⟩
  have hfile : InFile markHasher .bootstrapped := ⟨_, rfl, str "g1", by decide, .inr rfl⟩
  rcases hkept (.inr hfile) with hchosen | ⟨content, hcontent, password, hlive, hreads⟩
  · cases hchosen
  · obtain rfl := (@PasswordHasher.verify_hash markHasher 0 (str "g1") password).mp hlive
    cases hcontent
    revert hreads
    decide

end MediaScanMonitor.Reset
