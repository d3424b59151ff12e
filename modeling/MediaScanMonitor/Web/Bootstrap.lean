import MediaScanMonitor.Web.Reset

/-!
# Web — the first password

`bootstrap_password` runs at every start of the web server.  A start finds its own environment, and
may die after any of its effects, so that a start that generates is a `Reset.Call`.

* `run_of_set`, `run_of_stores`, `run_of_not_stores`: what one start does.
* `bootstrap_starts`: over any sequence of starts the first one that gets to its end decides the
  password, and whether it must be changed.
-/

namespace MediaScanMonitor.Bootstrap
open Py Reset

/-- What reading a file comes to. -/
inductive ReadOutcome where
  | text (s : Str)
  | osError
  | decodeError

/-- The environment of a start, and what the file is that it names. -/
structure Env where
  /-- `MSM_PASSWORD_FILE`. -/
  passwordFile : Option Str
  contents : ReadOutcome
  /-- `MSM_PASSWORD`. -/
  password : Option Str

/-- `_read_secret_file`, of which `OSError` is caught: `none` where it raises something else. -/
def Env.fileValue (env : Env) : Option Str :=
  if env.passwordFile.getD [] = [] then some []
  else
    match env.contents with
    | .text s => some (strip s)
    | .osError => some []
    | .decodeError => none

/-- The password that the environment supplies, empty where it supplies none. -/
def Env.value (env : Env) : Option Str :=
  env.fileValue.map fun value => if value = [] then strip (env.password.getD []) else value

structure Start where
  env : Env
  salt : Nat
  /-- What `generate_password` returns. -/
  generated : Str
  ending : Reset.Ending

namespace Start
variable (start : Start)

/-- `_generate_and_store`. -/
def call : Reset.Call := ⟨start.salt, start.generated, start.ending⟩

/-- Where the password is supplied, `set_password` is the only effect. -/
def storesValue : Bool :=
  match start.ending with
  | .returned => true
  | .crash after | .osError after => 0 < after

/-- `bootstrap_password`. -/
def run (hasher : PasswordHasher) (account : Account) : Account :=
  if account.credential.passwordHash.isSome then account
  else
    match start.env.value with
    | none => account
    | some value =>
      if value = [] then start.call.run hasher account
      else if start.storesValue then
        { credential := account.credential.setPassword hasher start.salt value, chosen := true }
      else account

/-- Nothing is supplied. -/
def Generates : Prop := start.env.value = some []

/-- The password of the start. -/
def password : Str :=
  match start.env.value with
  | none | some [] => start.generated
  | some value => value

/-- The start stores its password. -/
def Stores : Prop :=
  ∃ value, start.env.value = some value ∧
    (value = [] → start.call.effects.length ≤ start.call.ran) ∧
    (value ≠ [] → start.storesValue = true)

/-- The start dies between the flag and the hash. -/
def DiesFlagged : Prop := start.Generates ∧ start.call.ran + 1 = start.call.effects.length

instance : Decidable start.Generates := inferInstanceAs (Decidable (_ = _))

end Start

variable {hasher : PasswordHasher} {account : Account} {start : Start} {starts : List Start}

/-! ### One start -/

theorem run_of_set (h : account.credential.passwordHash.isSome = true) :
    start.run hasher account = account := if_pos h

theorem run_of_generates (h : account.credential.passwordHash = none) (hgen : start.Generates) :
    start.run hasher account = start.call.run hasher account := by
  rw [Start.run, h, if_neg (by simp), hgen]
  exact if_pos rfl

theorem password_of_generates (hgen : start.Generates) : start.password = start.generated := by
  rw [Start.password, hgen]

theorem password_of_value {value : Str} (h : start.env.value = some value) (hne : value ≠ []) :
    start.password = value := by
  rw [Start.password, h]
  cases value with
  | nil => exact absurd rfl hne
  | cons c value => rfl

/-- A start that stores its password. -/
theorem run_of_stores (h : account.credential.passwordHash = none) (hstores : start.Stores) :
    start.run hasher account =
      if start.Generates then
        { credential := account.credential.generateAndStore hasher start.salt start.generated
          chosen := false }
      else
        { credential := account.credential.setPassword hasher start.salt start.password
          chosen := true } := by
  obtain ⟨value, hvalue, hgenerate, hstore⟩ := hstores
  by_cases hnil : value = []
  · subst hnil
    have hgen : start.Generates := hvalue
    rw [if_pos hgen, run_of_generates h hgen, run_of_done (hgenerate rfl)]
    rfl
  · have hno : ¬start.Generates := by
      rw [Start.Generates, hvalue]
      simpa using hnil
    rw [if_neg hno, Start.run, h, if_neg (by simp), hvalue, password_of_value hvalue hnil]
    simp only [if_neg hnil, hstore hnil, if_true]

/-- A start that dies before it stores its password. -/
theorem run_of_not_stores (h : account.credential.passwordHash = none) (hno : ¬start.Stores) :
    (start.run hasher account).credential.passwordHash = none ∧
      ((start.run hasher account).credential.isMustChange = true ↔
        account.credential.isMustChange = true ∨ start.DiesFlagged) := by
  cases hvalue : start.env.value with
  | none =>
      have hflag : ¬start.DiesFlagged := by
        rintro ⟨hgen, -⟩
        rw [Start.Generates, hvalue] at hgen
        cases hgen
      have hrun : start.run hasher account = account := by
        rw [Start.run, h, if_neg (by simp), hvalue]
      rw [hrun]
      exact ⟨h, (or_iff_left hflag).symm⟩
  | some value =>
      by_cases hnil : value = []
      · subst hnil
        have hlt : start.call.ran < start.call.effects.length := by
          by_contra hle
          exact hno ⟨[], hvalue, fun _ => by omega, fun hne => absurd rfl hne⟩
        rw [run_of_generates h hvalue]
        by_cases hran : 2 ≤ start.call.ran
        · rw [run_of_mid hran hlt]
          refine ⟨h, ?_⟩
          by_cases hlast : start.call.ran + 1 = start.call.effects.length
          · simp [Credential.isMustChange, hlast, Start.DiesFlagged, Start.Generates, hvalue]
          · simp [Credential.isMustChange, hlast, Start.DiesFlagged]
        · have hlength : start.call.effects.length = start.call.text.length + 5 := length_effects
          have hflag : ¬start.DiesFlagged := by
            rintro ⟨-, hlast⟩
            omega
          rw [run_of_lt (by omega)]
          exact ⟨h, (or_iff_left hflag).symm⟩
      · have hflag : ¬start.DiesFlagged := by
          rintro ⟨hgen, -⟩
          rw [Start.Generates, hvalue, Option.some_inj] at hgen
          exact hnil hgen
        have hstore : start.storesValue = false := by
          by_contra htrue
          exact hno ⟨value, hvalue, fun h => absurd h hnil, fun _ => by simpa using htrue⟩
        have hrun : start.run hasher account = account := by
          rw [Start.run, h, if_neg (by simp), hvalue]
          simp [hnil, hstore]
        rw [hrun]
        exact ⟨h, (or_iff_left hflag).symm⟩

/-! ### A sequence of starts -/

/-- The starts of one installation. -/
def runs (hasher : PasswordHasher) (account : Account) (starts : List Start) : Account :=
  starts.foldl (fun account start => start.run hasher account) account

theorem runs_append (starts starts' : List Start) :
    runs hasher account (starts ++ starts') = runs hasher (runs hasher account starts) starts' :=
  List.foldl_append

/-- A password that is set stays. -/
theorem runs_of_set (h : account.credential.passwordHash.isSome = true) (starts : List Start) :
    runs hasher account starts = account := by
  induction starts with
  | nil => rfl
  | cons start starts ih =>
      rw [runs, List.foldl_cons, run_of_set h]
      exact ih

/-- Starts that all die too early leave no password, and at most the flag. -/
theorem runs_of_not_stores (h : account.credential.passwordHash = none)
    (hno : ∀ start ∈ starts, ¬start.Stores) :
    (runs hasher account starts).credential.passwordHash = none ∧
      ((runs hasher account starts).credential.isMustChange = true ↔
        account.credential.isMustChange = true ∨ ∃ start ∈ starts, start.DiesFlagged) := by
  induction starts generalizing account with
  | nil => exact ⟨h, by simp [runs]⟩
  | cons start starts ih =>
      rw [List.forall_mem_cons] at hno
      obtain ⟨hnone, hflag⟩ := @run_of_not_stores hasher _ _ h hno.1
      obtain ⟨hrest, hrestFlag⟩ := ih hnone hno.2
      refine ⟨hrest, hrestFlag.trans ?_⟩
      rw [hflag, or_assoc, List.exists_mem_cons_iff]

/-- What the deciding start leaves. -/
structure Decided (hasher : PasswordHasher) (account : Account) (start : Start)
    (final : Account) : Prop where
  /-- Its password is the live one. -/
  password : ∀ password,
    final.credential.checkPassword hasher password = true ↔ password = start.password
  /-- The operator knows it from the environment, or the file tells it. -/
  retrievable : Retrievable hasher final
  file : start.Generates → final.credential.initialPassword = some (start.generated ++ [newline])
  /-- It must be changed if it was generated, or if the flag was there. -/
  flag : final.credential.isMustChange = true ↔
    start.Generates ∨ account.credential.isMustChange = true

theorem decided_of_stores (h : account.credential.passwordHash = none) (hstores : start.Stores) :
    Decided hasher account start (start.run hasher account) := by
  rw [run_of_stores h hstores]
  by_cases hgen : start.Generates
  · rw [if_pos hgen]
    refine ⟨fun password => ?_, ?_, fun _ => rfl, ?_⟩
    · rw [password_of_generates hgen]
      exact Credential.checkPassword_setPassword
    · exact .inr ⟨_, rfl, start.generated, Credential.checkPassword_setPassword.mpr rfl, .inr rfl⟩
    · exact iff_of_true rfl (.inl hgen)
  · rw [if_neg hgen]
    refine ⟨fun password => Credential.checkPassword_setPassword, .inl rfl,
      fun h => absurd h hgen, ?_⟩
    exact (or_iff_right hgen).symm

/-- **Over any sequence of starts**, each in an environment of its own and dying after any of its
effects, the first one that stores its password decides: no later start changes anything, and the
password must be changed exactly if it was generated or an earlier start died between the flag and
the hash.  As long as none stores it, there is no password. -/
theorem bootstrap_starts (hnone : account.credential.passwordHash = none)
    (hflag : account.credential.isMustChange = false) (starts : List Start) :
    ((∀ start ∈ starts, ¬start.Stores) →
      (runs hasher account starts).credential.passwordHash = none) ∧
    ∀ before start after, starts = before ++ start :: after →
      (∀ earlier ∈ before, ¬earlier.Stores) → start.Stores →
        let final := runs hasher account starts
        (∀ password,
          final.credential.checkPassword hasher password = true ↔ password = start.password) ∧
        Retrievable hasher final ∧
        (start.Generates →
          final.credential.initialPassword = some (start.generated ++ [newline])) ∧
        (final.credential.isMustChange = true ↔
          start.Generates ∨ ∃ earlier ∈ before, earlier.DiesFlagged) := by
  refine ⟨fun hno => (runs_of_not_stores hnone hno).1, ?_⟩
  rintro before start after rfl hbefore hstores
  obtain ⟨hbeforeNone, hbeforeFlag⟩ := @runs_of_not_stores hasher _ _ hnone hbefore
  have hdecided := @decided_of_stores hasher _ _ hbeforeNone hstores
  have hset : (start.run hasher (runs hasher account before)).credential.passwordHash.isSome =
      true := by
    have hlive := (hdecided.password start.password).mpr rfl
    rw [Credential.checkPassword] at hlive
    split at hlive
    · cases hlive
    · rename_i hsome
      rw [hsome]
      rfl
  have hfinal : runs hasher account (before ++ start :: after) =
      start.run hasher (runs hasher account before) := by
    rw [runs_append]
    exact runs_of_set hset after
  rw [hfinal]
  refine ⟨hdecided.password, hdecided.retrievable, hdecided.file, ?_⟩
  rw [hdecided.flag, hbeforeFlag, hflag]
  simp

/-- A first start dies between the flag and the hash; the second one finds a password in its
environment. -/
def interrupted : List Start :=
  [⟨⟨none, .osError, none⟩, 0, str "g", .crash 6⟩,
    ⟨⟨none, .osError, some (str " chosen ")⟩, 1, str "h", .returned⟩]

theorem bootstrap_starts_interrupted :
    let final := runs markHasher ⟨⟨none, none, none⟩, false⟩ interrupted
    (∀ password,
      final.credential.checkPassword markHasher password = true ↔ password = str "chosen") ∧
      final.credential.isMustChange = true := by
  have hearly : ¬(⟨⟨none, .osError, none⟩, 0, str "g", .crash 6⟩ : Start).Stores := by
    rintro ⟨value, hvalue, hgenerate, -⟩
    obtain rfl : [] = value := Option.some_inj.mp hvalue
    exact absurd (hgenerate rfl) (by decide)
  obtain ⟨-, hdecides⟩ := @bootstrap_starts markHasher ⟨⟨none, none, none⟩, false⟩ rfl rfl
    interrupted
  obtain ⟨hpassword, -, -, hflag⟩ := hdecides [_] _ [] rfl (by simpa using hearly)
    ⟨str "chosen", by decide, by decide, fun _ => rfl⟩
  exact ⟨hpassword, hflag.mpr (.inr ⟨_, List.mem_cons_self, by decide, by decide⟩)⟩

end MediaScanMonitor.Bootstrap
