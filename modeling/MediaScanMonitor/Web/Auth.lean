import MediaScanMonitor.Library.Str

/-!
# Web — `web/auth.py`

What the password functions read and write: the `Setting` rows `password_hash` and
`must_change_password`, and the initial-password file.
-/

namespace MediaScanMonitor
open Py

/-- `argon2.PasswordHasher`.  A hash depends on a salt, and `verify` is `false` where it raises. -/
structure PasswordHasher where
  hash : Nat → Str → Str
  verify : Str → Str → Bool
  verify_hash : ∀ {salt : Nat} {password other : Str},
    verify (hash salt password) other = true ↔ other = password

/-- The two settings and the file, `none` where there is no such row or file. -/
@[ext] structure Credential where
  passwordHash : Option Str
  mustChangePassword : Option Str
  initialPassword : Option Str
  deriving DecidableEq

namespace Credential
variable (hasher : PasswordHasher) (credential : Credential)

/-- `set_password`. -/
def setPassword (salt : Nat) (password : Str) : Credential :=
  { credential with passwordHash := some (hasher.hash salt password) }

/-- `check_password`. -/
def checkPassword (password : Str) : Bool :=
  match credential.passwordHash with
  | none => false
  | some stored => hasher.verify stored password

/-- `set_setting(MUST_CHANGE_KEY, value)`. -/
def setMustChange (value : Str) : Credential := { credential with mustChangePassword := some value }

/-- `is_must_change`. -/
def isMustChange : Bool := credential.mustChangePassword = some (str "1")

/-- `_write_initial_password_file`, where nothing raises. -/
def writeInitialPasswordFile (value : Str) : Credential :=
  { credential with initialPassword := some (value ++ [newline]) }

/-- `path.unlink()`, its `OSError` suppressed. -/
def unlink : Credential := { credential with initialPassword := none }

/-- `_generate_and_store`, and `reset_to_generated_password`, which only logs besides. -/
def generateAndStore (salt : Nat) (generated : Str) : Credential :=
  ((credential.writeInitialPasswordFile generated).setMustChange (str "1")).setPassword hasher salt
    generated

/-- `clear_initial_password`. -/
def clearInitialPassword : Credential := (credential.setMustChange (str "0")).unlink

/-- What `change_password` refuses with. -/
def changeError (current new confirm : Str) : Option Str :=
  if credential.checkPassword hasher current = false then
    some (str "Current password is incorrect.")
  else if strip new = [] then some (str "New password must not be empty.")
  else if new ≠ confirm then some (str "New password and confirmation do not match.")
  else none

/-- `change_password`. -/
def changePassword (salt : Nat) (current new confirm : Str) : Except Str Credential :=
  match credential.changeError hasher current new confirm with
  | some error => .error error
  | none => .ok (credential.setPassword hasher salt new).clearInitialPassword

/-- Only the password that was set passes. -/
@[simp] theorem checkPassword_setPassword {hasher : PasswordHasher} {credential : Credential}
    {salt : Nat} {password other : Str} :
    (credential.setPassword hasher salt password).checkPassword hasher other = true ↔
      other = password :=
  hasher.verify_hash

theorem checkPassword_congr {hasher : PasswordHasher} {c c' : Credential} {password : Str}
    (h : c'.passwordHash = c.passwordHash) :
    c'.checkPassword hasher password = c.checkPassword hasher password := by
  rw [checkPassword, checkPassword, h]

end Credential

/-- A hasher that only marks what it is given. -/
def markHasher : PasswordHasher where
  hash _ password := str "$argon2id$" ++ password
  verify stored password := stored = str "$argon2id$" ++ password
  verify_hash := by
    intro _ password other
    rw [decide_eq_true_iff, List.append_cancel_left_eq]
    exact eq_comm

/-- The operator has set the password `old`. -/
def Credential.original : Credential :=
  Credential.setPassword markHasher ⟨none, none, none⟩ 0 (str "old")

/-- The first run has generated the password `g1`. -/
def Credential.bootstrapped : Credential :=
  Credential.generateAndStore markHasher ⟨none, none, none⟩ 0 (str "g1")

end MediaScanMonitor
