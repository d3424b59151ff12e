import MediaScanMonitor.Db.Repo
import MediaScanMonitor.Library.Lts

/-!
# Web — `web/writes.py`: the cores that write a server

Each core checks that a type which needs a secret has one, writes, and rebuilds.  An update reads
the row for its check in one session and writes in another.

* `present_write_iff`: what a write has to keep so that no server is left without its token.
* `token_present_iff`: a run meets that at every write exactly if every state it reaches has every
  token.
-/

namespace MediaScanMonitor
open Py Lts

/-- `SERVER_TYPE_SPECS[type].requires_secret`. -/
def ServerType.requiresSecret : ServerType → Bool
  | .webhook => false
  | .plex | .emby | .jellyfin | .audiobookshelf => true

/-- What a core raises. -/
inductive WriteError where
  /-- 422. -/
  | missingSecret (type : ServerType)
  /-- 409. -/
  | nameConflict (name : Str)
  /-- `KeyError`. -/
  | notFound (serverId : Int)
  /-- What no core catches. -/
  | uncaught (error : RepoError)
  deriving DecidableEq

/-- `_require_secret_or_422`. -/
def requireSecretOr422 (type : ServerType) (hasSecret : Bool) : Except WriteError Unit :=
  if type.requiresSecret && !hasSecret then .error (.missingSecret type) else .ok ()

/-! ### Creates -/

/-- An `IntegrityError` as the create cores translate it. -/
def createError (name : Str) : RepoError → WriteError
  | .integrityError => .nameConflict name
  | error => .uncaught error

/-- `apply_server_create_with_folders`, up to the rebuild. -/
def applyServerCreateWithFolders (box : SecretBox) (nonce : Nat) (store : Store)
    (data : ServerCreate) (folders : List FolderCreate) : Except WriteError (Store × Server) := do
  requireSecretOr422 data.type (data.secret.any (· ≠ []))
  (store.createServerWithFolders box nonce data folders).mapError (createError data.name)

/-- `apply_server_create`, up to the rebuild. -/
def applyServerCreate (box : SecretBox) (nonce : Nat) (store : Store) (data : ServerCreate) :
    Except WriteError (Store × Server) := do
  requireSecretOr422 data.type (data.secret.any (· ≠ []))
  (store.createServer box nonce data).mapError (createError data.name)

/-! ### Updates -/

def resultingType (data : ServerUpdate) (existing : Server) : ServerType :=
  data.type.join.getD existing.type

def resultingHasSecret (data : ServerUpdate) (existing : Server) : Bool :=
  match data.secret with
  | some secret => secret.any (· ≠ [])
  | none => existing.secretEncrypted.isSome

/-- `_require_update_secret`. -/
def requireUpdateSecret (data : ServerUpdate) (existing : Server) : Except WriteError Unit :=
  requireSecretOr422 (resultingType data existing) (resultingHasSecret data existing)

/-- A call of an update core: of `apply_server_update`, or with `folders` of
`apply_server_update_with_folders`. -/
structure Update where
  serverId : Int
  data : ServerUpdate
  folders : Option (List FolderCreate)

namespace Update
variable (update : Update) (box : SecretBox) (nonce : Nat) (store : Store)

/-- The read and the check. -/
def check : Except WriteError Server := do
  match ← (store.findServer update.serverId).mapError .uncaught with
  | none => throw (.notFound update.serverId)
  | some existing =>
    requireUpdateSecret update.data existing
    return existing

/-- The method of the repository. -/
def repoWrite : Except RepoError (Store × Server) :=
  match update.folders with
  | none => store.updateServer box nonce update.serverId update.data
  | some folders => store.updateServerWithFolders box nonce update.serverId update.data folders

/-- What the core makes of what the repository raises; only the twin translates. -/
def error (existing : Server) : RepoError → WriteError
  | .keyError => .notFound update.serverId
  | .integrityError =>
    match update.folders with
    | none => .uncaught .integrityError
    | some _ =>
      .nameConflict (if update.data.name.join.getD [] = [] then existing.name
        else update.data.name.join.getD [])
  | error => .uncaught error

/-- The write. -/
def write (existing : Server) : Except WriteError (Store × Server) :=
  (update.repoWrite box nonce store).mapError (update.error existing)

/-- The core with nobody in between, up to the rebuild. -/
def apply : Except WriteError (Store × Server) := do
  let existing ← update.check store
  update.write box nonce store existing

end Update

/-- `apply_server_update`, up to the rebuild. -/
def applyServerUpdate (box : SecretBox) (nonce : Nat) (store : Store) (serverId : Int)
    (data : ServerUpdate) : Except WriteError (Store × Server) :=
  Update.apply ⟨serverId, data, none⟩ box nonce store

/-- `apply_server_update_with_folders`, up to the rebuild. -/
def applyServerUpdateWithFolders (box : SecretBox) (nonce : Nat) (store : Store) (serverId : Int)
    (data : ServerUpdate) (folders : List FolderCreate) : Except WriteError (Store × Server) :=
  Update.apply ⟨serverId, data, some folders⟩ box nonce store

/-! ### Tokens -/

section
variable (box : SecretBox)

/-- A type that requires a secret has a token of a non-empty one. -/
def Server.Present (server : Server) : Prop :=
  server.type.requiresSecret = true →
    ∃ token secret, server.secretEncrypted = some token ∧ box.decrypt token = some secret ∧
      secret ≠ []

instance (server : Server) : Decidable (Server.Present box server) :=
  decidable_of_iff (server.type.requiresSecret = true → server.secretEncrypted.any fun token =>
      (box.decrypt token).any (· ≠ []))
    (by simp [Server.Present, Option.any_eq_true])

/-- The token, if there is one, decrypts. -/
def Server.Sealed (server : Server) : Prop :=
  ∀ token, server.secretEncrypted = some token → ∃ secret, box.decrypt token = some secret

/-- Where the resulting type requires a secret, the payload brings a non-empty one, or leaves the
row's, which is not the token of an empty one. -/
def tokenStays (data : ServerUpdate) (row : Server) : Bool :=
  !(resultingType data row).requiresSecret ||
    match data.secret with
    | some secret => secret.any (· ≠ [])
    | none => row.secretEncrypted.any fun token => box.decrypt token ≠ some []

end

variable {box : SecretBox} {nonce : Nat} {store store' : Store} {server server' : Server}

theorem decrypt_of_seal {secret token : Option Str} (h : box.seal nonce secret = .ok token) :
    (secret = none ∧ token = none) ∨
      ∃ plaintext t, secret = some plaintext ∧ token = some t ∧ box.decrypt t = some plaintext := by
  cases secret with
  | none =>
      cases h
      exact .inl ⟨rfl, rfl⟩
  | some plaintext =>
      rw [SecretBox.seal] at h
      split at h
      · rename_i t ht
        cases h
        exact .inr ⟨plaintext, t, rfl, rfl, box.decrypt_encrypt ht⟩
      · cases h

theorem sealed_of_seal {secret : Option Str}
    (h : box.seal nonce secret = .ok server.secretEncrypted) :
    server.Sealed box := by
  intro token htoken
  rcases decrypt_of_seal h with ⟨-, hnone⟩ | ⟨plaintext, t, -, ht, hdecrypt⟩
  · rw [hnone] at htoken
    cases htoken
  · rw [ht] at htoken
    cases htoken
    exact ⟨plaintext, hdecrypt⟩

/-- A token just made is present exactly if the secret is not empty. -/
theorem present_of_seal {secret : Option Str}
    (h : box.seal nonce secret = .ok server.secretEncrypted) :
    server.Present box ↔ server.type.requiresSecret = false ∨ secret.any (· ≠ []) = true := by
  rw [Server.Present]
  cases server.type.requiresSecret with
  | false => simp
  | true =>
      rcases decrypt_of_seal h with ⟨rfl, hnone⟩ | ⟨plaintext, t, rfl, ht, hdecrypt⟩
      · simp [hnone]
      · simp [ht, hdecrypt]

theorem sealed_update {data : ServerUpdate} (h : server.update box nonce data = .ok server')
    (hs : server.Sealed box) : server'.Sealed box := by
  obtain ⟨-, -, hsecret⟩ := Server.update_eq_ok h
  split at hsecret
  · intro token htoken
    exact hs token (hsecret ▸ htoken)
  · exact sealed_of_seal hsecret

/-- What an update has to keep. -/
theorem present_update_iff {data : ServerUpdate} (h : server.update box nonce data = .ok server')
    (hs : server.Sealed box) : server'.Present box ↔ tokenStays box data server = true := by
  obtain ⟨-, htype, hsecret⟩ := Server.update_eq_ok h
  rw [tokenStays, resultingType, ← htype]
  split at hsecret
  · rename_i hdata
    rw [hdata, Server.Present, hsecret]
    cases server'.type.requiresSecret with
    | false => simp
    | true =>
        cases htoken : server.secretEncrypted with
        | none => simp
        | some token =>
            obtain ⟨secret, hdecrypt⟩ := hs token htoken
            simp [hdecrypt]
  · rename_i secret hdata
    rw [hdata, present_of_seal hsecret]
    simp

/-! ### The requests side by side -/

namespace Store

def Present (box : SecretBox) (store : Store) : Prop :=
  ∀ server ∈ store.servers, server.Present box

instance (box : SecretBox) (store : Store) : Decidable (store.Present box) :=
  inferInstanceAs (Decidable (∀ server ∈ store.servers, server.Present box))

def Sealed (box : SecretBox) (store : Store) : Prop := ∀ server ∈ store.servers, server.Sealed box

end Store

/-- Where an update stands. -/
inductive UpdatePhase where
  | checked (existing : Server)
  | answered (error : Option WriteError)

structure Saves where
  store : Store
  updates : List (Update × UpdatePhase)

inductive Save where
  | create (nonce : Nat) (data : ServerCreate)
  | createWithFolders (nonce : Nat) (data : ServerCreate) (folders : List FolderCreate)
  /-- An update comes in, reads and checks. -/
  | check (update : Update)
  /-- It writes. -/
  | write (k nonce : Nat)

namespace Saves

/-- The database a core leaves. -/
def left (s : Saves) (result : Except WriteError (Store × Server)) : Saves :=
  match result with
  | .ok (store, _) => { s with store }
  | .error _ => s

def check (s : Saves) (update : Update) : Saves :=
  { s with updates := s.updates ++ [(update,
      match update.check s.store with
      | .ok existing => .checked existing
      | .error error => .answered (some error))] }

def write (box : SecretBox) (s : Saves) (k nonce : Nat) : Saves :=
  match s.updates[k]? with
  | some (update, .checked existing) =>
    match update.write box nonce s.store existing with
    | .ok (store, _) => { store, updates := s.updates.set k (update, .answered none) }
    | .error error => { s with updates := s.updates.set k (update, .answered (some error)) }
  | _ => s

def system (box : SecretBox) : System Saves Save where
  enabled s
    | .write k _ => ∃ update existing, s.updates[k]? = some (update, .checked existing)
    | _ => True
  next s
    | .create nonce data => s.left (applyServerCreate box nonce s.store data)
    | .createWithFolders nonce data folders =>
      s.left (applyServerCreateWithFolders box nonce s.store data folders)
    | .check update => s.check update
    | .write k nonce => s.write box k nonce

/-- An update with nobody in between is the core. -/
theorem update_alone {update : Update} (h : update.apply box nonce store = .ok (store', server')) :
    Run (system box) free ⟨store, []⟩ [.check update, .write 0 nonce]
      ⟨store', [(update, .answered none)]⟩ := by
  simp only [Update.apply, bind_eq_ok] at h
  obtain ⟨existing, hcheck, hwrite⟩ := h
  have hfirst : (system box).next ⟨store, []⟩ (.check update) =
      ⟨store, [(update, .checked existing)]⟩ := by
    simp [system, check, hcheck]
  have hsecond : (system box).next ⟨store, [(update, .checked existing)]⟩ (.write 0 nonce) =
      ⟨store', [(update, .answered none)]⟩ := by
    simp [system, write, hwrite]
  refine .cons trivial trivial ?_
  rw [hfirst, ← hsecond]
  exact .one ⟨_, _, rfl⟩ trivial

/-- A write that goes through leaves the row it finds a token, where the type needs one. -/
def KeepsToken (box : SecretBox) (s : Saves) : Save → Prop
  | .write k nonce =>
    ∀ update existing row result, s.updates[k]? = some (update, .checked existing) →
      s.store.getServer update.serverId = some row →
      update.repoWrite box nonce s.store = .ok result → tokenStays box update.data row = true
  | _ => True

end Saves

/-! ### What the cores leave -/

theorem update_repoWrite_eq_ok {update : Update}
    (h : update.repoWrite box nonce store = .ok (store', server')) :
    ∃ server, store.getServer update.serverId = some server ∧
      server.update box nonce update.data = .ok server' ∧
      store'.servers = store.putServer server' := by
  rw [Update.repoWrite] at h
  split at h
  · exact Store.updateServer_eq_ok box store h
  · exact Store.updateServerWithFolders_eq_ok box store h

theorem Store.mem_putServer_of_mem (h : server ∈ store.servers) (hid : server'.id = server.id) :
    server' ∈ store.putServer server' :=
  List.mem_map.mpr ⟨server, h, if_pos hid.symm⟩

theorem Store.of_mem_putServer (h : server ∈ store.putServer server') :
    server = server' ∨ server ∈ store.servers := by
  obtain ⟨row, hrow, rfl⟩ := List.mem_map.mp h
  split
  · exact .inl rfl
  · exact .inr hrow

/-- The other rows stay. -/
theorem Store.mem_putServer_of_ne (hid : server.id ≠ server'.id) :
    server ∈ store.putServer server' ↔ server ∈ store.servers := by
  constructor
  · intro h
    refine (Store.of_mem_putServer h).resolve_left fun heq => ?_
    exact hid (congrArg Server.id heq)
  · intro h
    exact List.mem_map.mpr ⟨server, h, if_neg hid⟩

/-- A write keeps every token exactly if it keeps the one of its row. -/
theorem present_write_iff {update : Update} {row : Server}
    (h : update.repoWrite box nonce store = .ok (store', server')) (hs : store.Sealed box)
    (hp : store.Present box) (hrow : store.getServer update.serverId = some row) :
    store'.Present box ↔ tokenStays box update.data row = true := by
  obtain ⟨server, hget, hupdate, hservers⟩ := update_repoWrite_eq_ok h
  cases hrow.symm.trans hget
  have hmem : row ∈ store.servers := (Store.getServer_eq_some hget).1
  rw [← present_update_iff hupdate (hs row hmem), Store.Present, hservers]
  constructor
  · intro hall
    exact hall server' (Store.mem_putServer_of_mem hmem (Server.update_eq_ok hupdate).1)
  · intro hserver' x hx
    rcases Store.of_mem_putServer hx with rfl | hx
    · exact hserver'
    · exact hp x hx

theorem sealed_write {update : Update}
    (h : update.repoWrite box nonce store = .ok (store', server')) (hs : store.Sealed box) :
    store'.Sealed box := by
  obtain ⟨server, hget, hupdate, hservers⟩ := update_repoWrite_eq_ok h
  intro x hx
  rw [hservers] at hx
  rcases Store.of_mem_putServer hx with rfl | hx
  · exact sealed_update hupdate (hs server (Store.getServer_eq_some hget).1)
  · exact hs x hx

theorem mapError_eq_ok {ε ε' α : Type} {x : Except ε α} {f : ε → ε'} {a : α} :
    x.mapError f = .ok a ↔ x = .ok a := by
  cases x <;> simp [Except.mapError]

theorem applyServerCreateWithFolders_eq_ok {data : ServerCreate} {folders : List FolderCreate}
    (h : applyServerCreateWithFolders box nonce store data folders = .ok (store', server)) :
    (data.type.requiresSecret = false ∨ data.secret.any (· ≠ []) = true) ∧
      ∃ token, box.seal nonce data.secret = .ok token ∧
        store'.servers = store.servers ++ [store.newServer data token] := by
  simp only [applyServerCreateWithFolders, bind_eq_ok, mapError_eq_ok] at h
  obtain ⟨_, hrequire, hcreate⟩ := h
  refine ⟨?_, Store.createServerWithFolders_eq_ok box store hcreate⟩
  rw [requireSecretOr422] at hrequire
  split at hrequire
  · cases hrequire
  · rename_i hnot
    rw [Bool.not_eq_true, Bool.and_eq_false_iff, Bool.not_eq_false'] at hnot
    exact hnot

theorem present_create {data : ServerCreate} {folders : List FolderCreate}
    (h : applyServerCreateWithFolders box nonce store data folders = .ok (store', server))
    (hp : store.Present box) : store'.Present box := by
  obtain ⟨hsecret, token, htoken, hservers⟩ := applyServerCreateWithFolders_eq_ok h
  intro x hx
  rw [hservers] at hx
  rcases List.mem_append.mp hx with hx | hx
  · exact hp x hx
  · obtain rfl := List.mem_singleton.mp hx
    exact (present_of_seal htoken).mpr hsecret

theorem sealed_create {data : ServerCreate} {folders : List FolderCreate}
    (h : applyServerCreateWithFolders box nonce store data folders = .ok (store', server))
    (hs : store.Sealed box) : store'.Sealed box := by
  obtain ⟨-, token, htoken, hservers⟩ := applyServerCreateWithFolders_eq_ok h
  intro x hx
  rw [hservers] at hx
  rcases List.mem_append.mp hx with hx | hx
  · exact hs x hx
  · obtain rfl := List.mem_singleton.mp hx
    exact sealed_of_seal htoken

namespace Saves
variable {s : Saves} {a : Save}

/-- A create leaves what `P` says of the database before it. -/
theorem left_create {P : Store → Prop} {data : ServerCreate} (folders : List FolderCreate)
    (hP : P s.store)
    (h : ∀ store' server,
      applyServerCreateWithFolders box nonce s.store data folders = .ok (store', server) →
        P store') :
    P (s.left (applyServerCreateWithFolders box nonce s.store data folders)).store := by
  cases hresult : applyServerCreateWithFolders box nonce s.store data folders with
  | error error => exact hP
  | ok result =>
      obtain ⟨store', server⟩ := result
      exact h store' server hresult

/-- What a write does to the database. -/
theorem store_write {k : Nat} {update : Update} {existing : Server}
    (h : s.updates[k]? = some (update, .checked existing)) :
    (s.write box k nonce).store =
      match update.repoWrite box nonce s.store with
      | .ok (store, _) => store
      | .error _ => s.store := by
  rw [write, h]
  dsimp only
  rw [Update.write]
  cases update.repoWrite box nonce s.store <;> rfl

theorem sealed_next (hs : s.store.Sealed box) (hen : (system box).enabled s a) :
    ((system box).next s a).store.Sealed box := by
  cases a with
  | create nonce data => exact left_create [] hs fun _ _ h => sealed_create h hs
  | createWithFolders nonce data folders => exact left_create _ hs fun _ _ h => sealed_create h hs
  | check update => exact hs
  | write k nonce =>
      obtain ⟨update, existing, hk⟩ := hen
      change (s.write box k nonce).store.Sealed box
      rw [store_write hk]
      split
      · rename_i store' server' hok
        exact sealed_write hok hs
      · exact hs

theorem keepsToken_iff (hs : s.store.Sealed box) (hp : s.store.Present box)
    (hen : (system box).enabled s a) :
    KeepsToken box s a ↔ ((system box).next s a).store.Present box := by
  cases a with
  | create nonce data =>
      exact iff_of_true trivial (left_create [] hp fun _ _ h => present_create h hp)
  | createWithFolders nonce data folders =>
      exact iff_of_true trivial (left_create _ hp fun _ _ h => present_create h hp)
  | check update => exact iff_of_true trivial hp
  | write k nonce =>
      obtain ⟨update, existing, hk⟩ := hen
      change _ ↔ (s.write box k nonce).store.Present box
      rw [store_write hk]
      split
      · rename_i store' server' hok
        obtain ⟨row, hrow, -⟩ := update_repoWrite_eq_ok hok
        rw [present_write_iff hok hs hp hrow]
        constructor
        · intro h
          exact h update existing row _ hk hrow hok
        · intro h update' existing' row' result hk' hrow' _
          cases hk.symm.trans hk'
          cases hrow.symm.trans hrow'
          exact h
      · rename_i error herror
        refine iff_of_true ?_ hp
        intro update' existing' row' result hk' _ hok'
        cases hk.symm.trans hk'
        cases herror.symm.trans hok'

/-- Every server whose type requires a secret has its token, in every state of a run, exactly if
every write of the run keeps one. -/
theorem token_present_iff (box : SecretBox) (l : List Save) (s : Saves) :
    Run (system box) (KeepsToken box) ⟨.empty, []⟩ l s ↔
      Run (system box) (fun s a => ((system box).next s a).store.Present box) ⟨.empty, []⟩ l s :=
  run_guard_iff (I := fun s => s.store.Sealed box) (P := fun s => s.store.Present box)
    (fun _ hx => by cases hx) (fun _ hx => by cases hx) (fun _ _ hs hen => sealed_next hs hen)
    fun _ _ hs hp hen => keepsToken_iff hs hp hen

/-- A webhook is saved with the empty secret, then its type is changed and the secret left out. -/
def retyped : List Save :=
  [.create 0 { webhookServer with secret := some [] },
    .check ⟨1, { type := some (some .plex) }, none⟩, .write 0 0]

theorem retyped_has_no_token :
    ∃ s, Run (system markBox) free ⟨.empty, []⟩ retyped s ∧ ¬ s.store.Present markBox := by
  exact ⟨_, .cons trivial trivial (.cons trivial trivial (.cons ⟨_, _, rfl⟩ trivial .nil)),
    by decide +kernel⟩

end Saves

end MediaScanMonitor
