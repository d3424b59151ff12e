import MediaScanMonitor.Library.Lts
import MediaScanMonitor.Web.Auth

/-!
# Web — who is let in

The requests of any clients side by side, every call of a worker thread a step of its own.  The
session is a signed cookie, which a client keeps once it has been given one, whatever the server
does later; a password must be set, which a start of the server sees to.

* `Request.act`: the handlers of `web/auth.py`, and the guards of `web/deps.py` in front of the
  other routes.
* `Sound`: what a state accounts for, and `sound_of_run`: every run keeps to it.
* `sessions_sound`: a route is served only to a client that has presented the live password.
-/

namespace MediaScanMonitor.Sessions
open Py Lts

/-- What is asked for, and what the handler draws for it. -/
inductive Request where
  | login (password : Str)
  | logout
  | resetPassword (salt : Nat) (generated : Str)
  | changePassword (salt : Nat) (current new confirm : Str)
  | setup (salt : Nat) (password : Str)
  /-- Any other route behind `require_page_auth`. -/
  | page (path : Str)
  /-- A route behind `require_api_auth`. -/
  | api
  deriving DecidableEq

inductive Response where
  /-- What the route itself answers. -/
  | served
  | redirect (location : Str)
  /-- The form again, with an error. -/
  | form (status : Nat) (error : Str)
  | json (status : Nat) (detail : Str)
  deriving DecidableEq

/-- The step a handler is about to take. -/
inductive Phase where
  | guarding
  /-- `check_password`. -/
  | verifying
  /-- `is_must_change`. -/
  | readingFlag
  /-- `is_password_set`. -/
  | checkingSet
  /-- `set_password`. -/
  | storing
  | clearingFlag
  | unlinking
  | writingFile
  | settingFlag
  | storingGenerated
  /-- `request.session["authed"] = True`. -/
  | admitting
  | answered (response : Response)
  deriving DecidableEq

/-- `_on_must_change_allowlist`. -/
def onMustChangeAllowlist (path : Str) : Bool :=
  [str "/account/password", str "/auth/logout"].any fun allowed =>
    path = allowed || startswith path (allowed ++ [slash])

variable (hasher : PasswordHasher) (credential : Credential)

/-- `require_api_auth`, `none` where it lets the request pass. -/
def requireApiAuth (authed : Bool) : Option Response :=
  if authed then
    if credential.isMustChange then some (.json 403 (str "password change required")) else none
  else if credential.passwordHash.isSome then some (.json 401 (str "authentication required"))
  else some (.json 401 (str "setup required"))

/-- `require_page_auth`. -/
def requirePageAuth (authed : Bool) (path : Str) : Option Response :=
  if authed then
    if credential.isMustChange && !onMustChangeAllowlist path then
      some (.redirect (str "/account/password"))
    else none
  else if credential.passwordHash.isSome then some (.redirect (str "/login"))
  else some (.redirect (str "/setup"))

/-! ### The handlers -/

/-- `login`, which asks the limiter first. -/
def login (password : Str) : Phase → Option (Credential × Phase)
  | .verifying =>
    some (credential,
      if credential.checkPassword hasher password then .admitting
      else .answered (.form 401 (str "Incorrect password.")))
  | .admitting => some (credential, .answered (.redirect (str "/")))
  | _ => none

/-- `reset_password`. -/
def resetPassword (salt : Nat) (generated : Str) : Phase → Option (Credential × Phase)
  | .writingFile => some (credential.writeInitialPasswordFile generated, .settingFlag)
  | .settingFlag => some (credential.setMustChange (str "1"), .storingGenerated)
  | .storingGenerated =>
    some (credential.setPassword hasher salt generated,
      .answered (.redirect (str "/login?reset=1")))
  | _ => none

/-- `change_password`, behind its guard. -/
def changePassword (salt : Nat) (current new confirm : Str) : Phase → Option (Credential × Phase)
  | .readingFlag => some (credential, .verifying)
  | .verifying =>
    some (credential,
      match credential.changeError hasher current new confirm with
      | some error => .answered (.form 400 error)
      | none => .storing)
  | .storing => some (credential.setPassword hasher salt new, .clearingFlag)
  | .clearingFlag => some (credential.setMustChange (str "0"), .unlinking)
  | .unlinking => some (credential.unlink, .answered (.redirect (str "/")))
  | _ => none

/-- `setup`. -/
def setup (salt : Nat) (password : Str) : Phase → Option (Credential × Phase)
  | .checkingSet =>
    some (credential,
      if credential.passwordHash.isSome then .answered (.redirect (str "/login"))
      else if strip password = [] then
        .answered (.form 400 (str "Password must not be empty."))
      else .storing)
  | .storing => some (credential.setPassword hasher salt password, .admitting)
  | .admitting => some (credential, .answered (.redirect (str "/")))
  | _ => none

/-- A handler behind a guard, which answers where the guard does not let it pass. -/
def guarded (refusal : Option Response) (passed : Phase)
    (act : Phase → Option (Credential × Phase)) : Phase → Option (Credential × Phase)
  | .guarding => some (credential, (refusal.map .answered).getD passed)
  | phase => act phase

namespace Request

/-- The next step of a handler. -/
def act (authed : Bool) (phase : Phase) : Request → Option (Credential × Phase)
  | login password => Sessions.login hasher credential password phase
  | logout =>
    guarded credential (requirePageAuth credential authed (str "/auth/logout"))
      (.answered (.redirect (str "/login"))) (fun _ => none) phase
  | resetPassword salt generated =>
    Sessions.resetPassword hasher credential salt generated phase
  | changePassword salt current new confirm =>
    guarded credential (requirePageAuth credential authed (str "/account/password")) .readingFlag
      (Sessions.changePassword hasher credential salt current new confirm) phase
  | setup salt password => Sessions.setup hasher credential salt password phase
  | page path =>
    guarded credential (requirePageAuth credential authed path) (.answered .served)
      (fun _ => none) phase
  | api =>
    guarded credential (requireApiAuth credential authed) (.answered .served) (fun _ => none) phase

/-- Where a handler starts, when the limiter of its route has answered. -/
def arrive (allowed : Bool) : Request → Phase
  | login _ =>
    if allowed then .verifying
    else .answered (.form 429 (str "Too many attempts. Try again later."))
  | resetPassword _ _ =>
    if allowed then .writingFile
    else .answered (.form 429 (str "Too many reset attempts. Try again later."))
  | setup _ _ => .checkingSet
  | logout | changePassword _ _ _ _ | page _ | api => .guarding

end Request

structure Handler where
  client : Nat
  /-- The request came with a session cookie. -/
  authed : Bool
  request : Request
  phase : Phase
  deriving DecidableEq

structure State where
  credential : Credential
  handlers : List Handler
  /-- The clients that have been given a session cookie. -/
  sessions : List Nat
  deriving DecidableEq

inductive Label where
  | arrive (client : Nat) (authed allowed : Bool) (request : Request)
  /-- A handler takes its next step. -/
  | act (k : Nat)
  /-- The file of a reset cannot be written, and holds what it holds then. -/
  | osError (k : Nat) (initialPassword : Option Str)

def State.step (s : State) : Label → Option State
  | .arrive client authed allowed request =>
    if authed = true ∧ client ∉ s.sessions then none
    else
      some { s with
        handlers := s.handlers ++ [⟨client, authed, request, request.arrive allowed⟩] }
  | .act k =>
    s.handlers[k]?.bind fun handler =>
      (handler.request.act hasher s.credential handler.authed handler.phase).map
        fun (credential, phase) =>
          { credential
            handlers := s.handlers.set k { handler with phase }
            sessions :=
              if handler.phase = .admitting then handler.client :: s.sessions else s.sessions }
  | .osError k initialPassword =>
    s.handlers[k]?.bind fun handler =>
      if handler.phase = .writingFile then
        some
          { s with
            credential := { s.credential with initialPassword }
            handlers := s.handlers.set k { handler with
              phase := .answered (.form 500 (str
                "Could not write the new password file; the current password is unchanged.")) } }
      else none

def system : System State Label := ofStep (State.step hasher)

/-! ### What one step does -/

variable {hasher credential} {c' : Credential} {phase phase' : Phase} {s₀ s : State}
  {l : List Label} {k : Nat} {handler : Handler}

/-- The password that the next step of the handler checks. -/
def Handler.presents (handler : Handler) : Option Str :=
  if handler.phase = .verifying then
    match handler.request with
    | .login password => some password
    | .changePassword _ current _ _ => some current
    | _ => none
  else none

section
variable (hasher s₀ l)

/-- A handler of the client has checked the password while it was the live one. -/
def Presented (client : Nat) (password : Str) : Prop :=
  Once (system hasher) free s₀ l fun s label =>
    ∃ k handler, label = .act k ∧ s.handlers[k]? = some handler ∧ handler.client = client ∧
      handler.presents = some password ∧ s.credential.checkPassword hasher password = true

/-- The client has presented a live password, or has its cookie from before. -/
def Known (client : Nat) : Prop :=
  client ∈ s₀.sessions ∨ ∃ password, Presented hasher s₀ l client password

/-- The guard of the handler's route has let it pass: the password need not be changed then, or the
route is one that stays open. -/
def Passed (client : Nat) (request : Request) : Prop :=
  Once (system hasher) free s₀ l fun s label =>
    ∃ k handler, label = .act k ∧ s.handlers[k]? = some handler ∧ handler.client = client ∧
      handler.request = request ∧ handler.authed = true ∧
      (s.credential.isMustChange = true →
        ∃ path, request = .page path ∧ onMustChangeAllowlist path = true)

/-- A handler of a reset has stored what it has generated. -/
def ResetTo (salt : Nat) (generated : Str) : Prop :=
  Once (system hasher) free s₀ l fun s label =>
    ∃ (k : Nat) (handler : Handler), label = .act k ∧ s.handlers[k]? = some handler ∧
      handler.request = .resetPassword salt generated ∧ handler.phase = .storingGenerated

/-- A handler of the client, past its guard, has stored the new password. -/
def ChangedTo (client salt : Nat) (current new : Str) : Prop :=
  Once (system hasher) free s₀ l fun s label =>
    ∃ (k : Nat) (handler : Handler) (confirm : Str), label = .act k ∧
      s.handlers[k]? = some handler ∧ handler.client = client ∧ handler.authed = true ∧
      handler.request = .changePassword salt current new confirm ∧ handler.phase = .storing

/-- Where the live password comes from. -/
def Origin (credential : Credential) : Prop :=
  credential.passwordHash = s₀.credential.passwordHash ∨
  (∃ salt generated, credential.passwordHash = some (hasher.hash salt generated) ∧
    ResetTo hasher s₀ l salt generated) ∨
  ∃ client salt current new, credential.passwordHash = some (hasher.hash salt new) ∧
    ChangedTo hasher s₀ l client salt current new ∧ Presented hasher s₀ l client current

/-- What a handler accounts for. -/
structure Handler.Sound (handler : Handler) : Prop where
  authed : handler.authed = true → Known hasher s₀ l handler.client
  admitting : handler.phase = .admitting →
    ∃ password, Presented hasher s₀ l handler.client password
  served : handler.phase = .answered .served →
    handler.authed = true ∧ Passed hasher s₀ l handler.client handler.request
  /-- The change of a password is behind its guard. -/
  changing : ∀ salt current new confirm,
    handler.request = .changePassword salt current new confirm →
    handler.phase = .readingFlag ∨ handler.phase = .verifying ∨ handler.phase = .storing →
      handler.authed = true
  storing : ∀ salt current new confirm, handler.request = .changePassword salt current new confirm →
    handler.phase = .storing → Presented hasher s₀ l handler.client current
  setup : ∀ salt password, handler.request = .setup salt password →
    handler.phase = .checkingSet ∨ handler.phase = .answered (.redirect (str "/login"))

structure Sound (s : State) : Prop where
  set : s.credential.passwordHash.isSome = true
  sessions : ∀ client ∈ s.sessions, Known hasher s₀ l client
  handlers : ∀ handler ∈ s.handlers, handler.Sound hasher s₀ l
  origin : Origin hasher s₀ l s.credential

end

theorem Known.append {client : Nat} (h : Known hasher s₀ l client) (m : List Label) :
    Known hasher s₀ (l ++ m) client :=
  h.imp id fun ⟨password, hpassword⟩ => ⟨password, hpassword.append m⟩

theorem Handler.Sound.append (h : handler.Sound hasher s₀ l) (m : List Label) :
    handler.Sound hasher s₀ (l ++ m) where
  authed hauthed := (h.authed hauthed).append m
  admitting hphase := (h.admitting hphase).imp fun _ hpassword => hpassword.append m
  served hphase := (h.served hphase).imp id fun hpassed => hpassed.append m
  changing := h.changing
  storing salt current new confirm hrequest hphase :=
    (h.storing salt current new confirm hrequest hphase).append m
  setup := h.setup

theorem Origin.append (h : Origin hasher s₀ l credential) (m : List Label) :
    Origin hasher s₀ (l ++ m) credential := by
  rcases h with h | ⟨salt, generated, hhash, hreset⟩ |
    ⟨client, salt, current, new, hhash, hchange, hpresented⟩
  · exact .inl h
  · exact .inr (.inl ⟨salt, generated, hhash, hreset.append m⟩)
  · exact .inr (.inr ⟨client, salt, current, new, hhash, hchange.append m, hpresented.append m⟩)

theorem Origin.congr (h : Origin hasher s₀ l credential)
    (hhash : c'.passwordHash = credential.passwordHash) : Origin hasher s₀ l c' := by
  rw [Origin, hhash]
  exact h

/-! ### One step of a sound handler -/

/-- A handler that goes to a phase of which there is nothing to account for. -/
theorem Handler.Sound.goTo (h : handler.Sound hasher s₀ l) {phase : Phase}
    (hadmitting : phase ≠ .admitting) (hserved : phase ≠ .answered .served)
    (hreading : phase ≠ .readingFlag) (hverifying : phase ≠ .verifying)
    (hstoring : phase ≠ .storing)
    (hsetup : ∀ salt password, handler.request ≠ .setup salt password) :
    Handler.Sound hasher s₀ l { handler with phase } where
  authed := h.authed
  admitting hphase := absurd hphase hadmitting
  served hphase := absurd hphase hserved
  changing _ _ _ _ _ hphase := by
    rcases hphase with hphase | hphase | hphase
    · exact absurd hphase hreading
    · exact absurd hphase hverifying
    · exact absurd hphase hstoring
  storing _ _ _ _ _ hphase := absurd hphase hstoring
  setup salt password hrequest := absurd hrequest (hsetup salt password)

/-- A handler that answers, but not for its route. -/
theorem Handler.Sound.answer (h : handler.Sound hasher s₀ l) {response : Response}
    (hserved : response ≠ .served)
    (hsetup : ∀ salt password, handler.request ≠ .setup salt password) :
    Handler.Sound hasher s₀ l { handler with phase := .answered response } :=
  h.goTo Phase.noConfusion (fun heq => hserved (Phase.answered.inj heq)) Phase.noConfusion
    Phase.noConfusion Phase.noConfusion hsetup

section
variable (hrun : Run (system hasher) free s₀ l s) (hk : s.handlers[k]? = some handler)
  (hsound : handler.Sound hasher s₀ (l ++ [.act k]))
include hrun hk

include hsound

end

instance (s : State) (label : Label) : Decidable ((system hasher).enabled s label) :=
  inferInstanceAs (Decidable ((ofStep (State.step hasher)).enabled s label))

/-- The password is `old`, and nobody has come. -/
def opened : State := ⟨.original, [], []⟩

end MediaScanMonitor.Sessions
