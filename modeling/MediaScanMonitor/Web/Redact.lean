import MediaScanMonitor.Web.Api
import MediaScanMonitor.Web.Refine

/-!
# Web — secrets do not show

Two sites get the same requests, but for the secrets in them, and under keys of their own.  Their
databases are the same but for the tokens (`Store.Same`), and every step of a route keeps that.

* `alike_handler`: on such databases a route does the same, and answers the same.
* `secrets_do_not_show`: so do all routes side by side, in any order of their steps.
-/

namespace MediaScanMonitor
open Py Resume

/-! ### What is left without the secrets -/

/-- The row, of its token only that there is one. -/
def Server.redacted (server : Server) : Server :=
  { server with secretEncrypted := server.secretEncrypted.map fun _ => [] }

/-- Rows that differ in the token only, which both have or neither. -/
def Server.Same (x y : Server) : Prop := x.redacted = y.redacted

/-- Databases that differ in the tokens only. -/
structure Store.Same (s t : Store) : Prop where
  servers : s.servers.map Server.redacted = t.servers.map Server.redacted
  folders : s.folders = t.folders
  inserts : s.inserts = t.inserts

/-- Such databases, all of whose rows can be read. -/
structure Store.SameLegible (box box' : SecretBox) (s t : Store) : Prop where
  same : s.Same t
  left : s.Legible box
  right : t.Legible box'

/-- Secrets that can be stored, and are empty both or neither. -/
structure SameSecret (box box' : SecretBox) (nonce nonce' : Nat) (secret secret' : Option Str) :
    Prop where
  empty : secret.map List.isEmpty = secret'.map List.isEmpty
  left : ∃ token, box.seal nonce secret = .ok token
  right : ∃ token, box'.seal nonce' secret' = .ok token

structure ServerCreate.Same (box box' : SecretBox) (nonce nonce' : Nat)
    (data data' : ServerCreate) : Prop where
  fields : data' = { data with secret := data'.secret }
  secret : SameSecret box box' nonce nonce' data.secret data'.secret

structure ServerUpdate.Same (box box' : SecretBox) (nonce nonce' : Nat)
    (data data' : ServerUpdate) : Prop where
  fields : data' = { data with secret := data'.secret }
  secret : data.secret = none ∧ data'.secret = none ∨
    ∃ secret secret', data.secret = some secret ∧ data'.secret = some secret' ∧
      SameSecret box box' nonce nonce' secret secret'

/-- The request has no secret in it. -/
def Api.Request.secretFree : Api.Request → Bool
  | .createServer .. | .updateServer .. | .uiCreateServerWithFolders .. | .uiUpdateServer .. =>
    false
  | _ => true

/-- Requests that differ in their secrets only. -/
inductive Api.Request.Same (box box' : SecretBox) : Api.Request → Api.Request → Prop where
  | free {request : Api.Request} (h : request.secretFree = true) : Same box box' request request
  | createServer {raised : Option PyError} {nonce nonce' : Nat} {data data' : ServerCreate}
      (h : data.Same box box' nonce nonce' data') :
      Same box box' (.createServer raised nonce data) (.createServer raised nonce' data')
  | updateServer {raised : Option PyError} {nonce nonce' : Nat} {serverId : Int}
      {data data' : ServerUpdate} (h : data.Same box box' nonce nonce' data') :
      Same box box' (.updateServer raised nonce serverId data)
        (.updateServer raised nonce' serverId data')
  | uiCreateServerWithFolders {raised : Option PyError} {nonce nonce' : Nat}
      {data data' : ServerCreate} {folders : List FolderCreate}
      (h : data.Same box box' nonce nonce' data') :
      Same box box' (.uiCreateServerWithFolders raised nonce data folders)
        (.uiCreateServerWithFolders raised nonce' data' folders)
  | uiUpdateServer {raised : Option PyError} {nonce nonce' : Nat} {serverId : Int}
      {data data' : ServerUpdate} {folders : List FolderCreate}
      (h : data.Same box box' nonce nonce' data') :
      Same box box' (.uiUpdateServer raised nonce serverId data folders)
        (.uiUpdateServer raised nonce' serverId data' folders)

variable {box box' : SecretBox} {lower repr : Str → Str} {nonce nonce' : Nat} {s t : Store}
  {x y : Server} {data data' : ServerUpdate} {serverId : Int} {raised : Option PyError}

/-! ### Rows -/

theorem Server.Same.congr {α : Type} {f : Server → α} (hf : ∀ server, f server.redacted = f server)
    (h : x.Same y) : f x = f y := by
  rw [← hf x, ← hf y, h]

theorem isSome_redacted (server : Server) :
    server.redacted.secretEncrypted.isSome = server.secretEncrypted.isSome := by
  rw [Server.redacted, Option.isSome_map]

theorem fromModel_redacted (server : Server) (folders : List Folder) :
    ServerRead.fromModel server.redacted folders = ServerRead.fromModel server folders := by
  simp only [ServerRead.fromModel, isSome_redacted]
  rfl

/-- What a row is written with, of its token only that there is one. -/
theorem redacted_written (server : Server) (data : ServerUpdate) (token : Option Str) :
    (server.written data token).redacted =
      server.redacted.written { data with secret := none } (token.map fun _ => []) := rfl

theorem SameSecret.exists_tokens {secret secret' : Option Str}
    (h : SameSecret box box' nonce nonce' secret secret') :
    ∃ token token', box.seal nonce secret = .ok token ∧ box'.seal nonce' secret' = .ok token' ∧
      token.map (fun _ => ([] : Str)) = token'.map fun _ => [] := by
  obtain ⟨token, htoken⟩ := h.left
  obtain ⟨token', htoken'⟩ := h.right
  refine ⟨token, token', htoken, htoken', ?_⟩
  have hempty := h.empty
  rcases decrypt_of_seal htoken with ⟨rfl, rfl⟩ | ⟨_, _, rfl, rfl, -⟩ <;>
    rcases decrypt_of_seal htoken' with ⟨rfl, rfl⟩ | ⟨_, _, rfl, rfl, -⟩
  · rfl
  · cases hempty
  · cases hempty
  · rfl

theorem SameSecret.any_eq {secret secret' : Option Str}
    (h : SameSecret box box' nonce nonce' secret secret') :
    secret.any (· ≠ []) = secret'.any (· ≠ []) := by
  have hany (secret : Option Str) :
      secret.any (· ≠ []) = (secret.map List.isEmpty).any fun empty => !empty := by
    rcases secret with _ | _ | _ <;> rfl
  rw [hany, hany, h.empty]

/-- The token of either row after the update. -/
theorem exists_newTokens (h : data.Same box box' nonce nonce' data') (hxy : x.Same y) :
    ∃ token token', x.newToken box nonce data = .ok token ∧
      y.newToken box' nonce' data' = .ok token' ∧
      token.map (fun _ => ([] : Str)) = token'.map fun _ => [] := by
  rw [Server.newToken, Server.newToken]
  rcases h.secret with ⟨hdata, hdata'⟩ | ⟨secret, secret', hdata, hdata', hsecret⟩
  · rw [hdata, hdata']
    exact ⟨_, _, rfl, rfl, congrArg Server.secretEncrypted hxy⟩
  · rw [hdata, hdata']
    exact hsecret.exists_tokens

/-! ### Tables -/

section
variable {servers servers' : List Server} {folders : List Folder}

theorem map_of_redacted {α : Type} {f : Server → α}
    (h : servers.map Server.redacted = servers'.map Server.redacted)
    (hf : ∀ server, f server.redacted = f server) : servers.map f = servers'.map f := by
  have hmap (servers : List Server) : servers.map f = (servers.map Server.redacted).map f := by
    rw [List.map_map]
    exact List.map_congr_left fun server _ => (hf server).symm
  rw [hmap, h, ← hmap]

theorem forall_of_redacted {P : Server → Prop}
    (h : servers.map Server.redacted = servers'.map Server.redacted)
    (hP : ∀ server, P server.redacted = P server) :
    (∀ server ∈ servers, P server) ↔ ∀ server ∈ servers', P server := by
  have hmap : servers.map P = servers'.map P := map_of_redacted h hP
  have hforall (servers : List Server) :
      (∀ server ∈ servers, P server) ↔ ∀ p ∈ servers.map P, p := by
    rw [List.forall_mem_map]
  rw [hforall, hmap, ← hforall]

/-- The constraints do not read the tokens. -/
theorem constraints_of_redacted (h : servers.map Server.redacted = servers'.map Server.redacted)
    (hc : Constraints servers folders) : Constraints servers' folders := by
  have hids : servers.map Server.id = servers'.map Server.id := map_of_redacted h fun _ => rfl
  have hnames : servers.map Server.name = servers'.map Server.name :=
    map_of_redacted h fun _ => rfl
  exact ⟨hids ▸ hc.serverIds, hnames ▸ hc.names, hc.folderIds, hids ▸ hc.foreignKey,
    (forall_of_redacted h fun _ => rfl).mp hc.serverRows,
    (forall_of_redacted h fun _ => rfl).mp hc.timeouts, hc.folderRows, hc.extensions⟩

/-- Nor does what is raised where they do not hold. -/
theorem flushError_of_redacted (h : servers.map Server.redacted = servers'.map Server.redacted) :
    flushError servers folders = flushError servers' folders := by
  have hids : servers.map Server.id = servers'.map Server.id := map_of_redacted h fun _ => rfl
  have hnames : servers.map Server.name = servers'.map Server.name :=
    map_of_redacted h fun _ => rfl
  have htimeouts : (∀ server ∈ servers, server.timeoutSeconds ≠ .nan) ↔
      ∀ server ∈ servers', server.timeoutSeconds ≠ .nan :=
    forall_of_redacted h fun _ => rfl
  have hbind (servers : List Server) : servers.findSome? Server.bindError =
      (servers.map Server.bindError).findSome? id := by
    rw [List.findSome?_map]
    rfl
  have hrows : servers.map Server.bindError = servers'.map Server.bindError :=
    map_of_redacted h fun _ => rfl
  simp only [flushError, hbind, hrows, hids, hnames, htimeouts]

end

namespace Store.Same
variable (h : s.Same t)
include h

theorem getServer (serverId : Int) :
    s.getServer serverId = none ∧ t.getServer serverId = none ∨
      ∃ x y, s.getServer serverId = some x ∧ t.getServer serverId = some y ∧ x.Same y := by
  have hfind (store : Store) : (store.getServer serverId).map Server.redacted =
      (store.servers.map Server.redacted).find? (·.id = serverId) := by
    rw [List.find?_map]
    rfl
  have hmap : (s.getServer serverId).map Server.redacted =
      (t.getServer serverId).map Server.redacted := by
    rw [hfind, h.servers, ← hfind]
  cases hs : s.getServer serverId with
  | none =>
      rw [hs, Option.map_none, eq_comm, Option.map_eq_none_iff] at hmap
      exact .inl ⟨rfl, hmap⟩
  | some x =>
      rw [hs, Option.map_some, eq_comm, Option.map_eq_some_iff] at hmap
      obtain ⟨y, ht, hxy⟩ := hmap
      exact .inr ⟨x, y, rfl, ht, hxy.symm⟩

theorem listFolders (serverId : Int) : s.listFolders serverId = t.listFolders serverId := by
  rw [Store.listFolders, h.folders]
  rfl

theorem findFolder (folderId : Int) : s.findFolder folderId = t.findFolder folderId := by
  rw [Store.findFolder, Store.findFolder, Store.getFolder, Store.getFolder, h.folders]

theorem requireFolder (folderId : Int) : s.requireFolder folderId = t.requireFolder folderId := by
  rw [Store.requireFolder, Store.requireFolder, h.findFolder]

theorem putFolder (folder : Folder) : s.putFolder folder = t.putFolder folder := by
  rw [Store.putFolder, Store.putFolder, h.folders]

theorem putServer (hxy : x.Same y) :
    (s.putServer x).map Server.redacted = (t.putServer y).map Server.redacted := by
  have hput (store : Store) (server : Server) : (store.putServer server).map Server.redacted =
      (store.servers.map Server.redacted).map fun row =>
        if row.id = server.redacted.id then server.redacted else row := by
    rw [Store.putServer, List.map_map, List.map_map]
    refine List.map_congr_left fun row _ => ?_
    rw [Function.comp_apply, Function.comp_apply, apply_ite Server.redacted]
    rfl
  rw [hput, hput, h.servers, hxy]

theorem rows (update : Update) : update.rows s = update.rows t := by
  rw [Update.rows, Update.rows]
  split
  · exact h.folders
  · simp only [Store.replaceFolders, Store.folderIdsOf, h.folders]
    rfl

/-- A commit goes through on both sides, or on neither. -/
theorem commit {α β : Type} {A : α → β → Prop} {a : α} {b : β} (hab : A a b)
    {servers servers' : List Server} {folders folders' : List Folder}
    (hservers : servers.map Server.redacted = servers'.map Server.redacted)
    (hfolders : folders = folders') :
    AlikeResult Store.Same A
      (do let store ← s.commit servers folders; return (store, a))
      (do let store ← t.commit servers' folders'; return (store, b)) := by
  subst hfolders
  by_cases hc : Constraints servers folders
  · have hc' : Constraints servers' folders := constraints_of_redacted hservers hc
    rw [s.commit_eq hc, t.commit_eq hc']
    exact .ok ⟨hservers, rfl, h.inserts⟩ hab
  · have hc' : ¬Constraints servers' folders := fun hc' =>
      hc (constraints_of_redacted hservers.symm hc')
    have hs : s.commit servers folders = .error (flushError servers folders) := dif_neg hc
    have ht : t.commit servers' folders = .error (flushError servers' folders) := dif_neg hc'
    rw [hs, ht, flushError_of_redacted hservers]
    exact .error _

end Store.Same

/-! ### Methods of the repository -/

theorem same_createServerWithFolders {data data' : ServerCreate} (h : s.Same t)
    (hdata : data.Same box box' nonce nonce' data') (folders : List FolderCreate) :
    AlikeResult Store.Same Server.Same (s.createServerWithFolders box nonce data folders)
      (t.createServerWithFolders box' nonce' data' folders) := by
  obtain ⟨token, token', htoken, htoken', hsame⟩ := hdata.secret.exists_tokens
  have hids : s.servers.map Server.id = t.servers.map Server.id :=
    map_of_redacted h.servers fun _ => rfl
  have hnew : (s.newServer data token).Same (t.newServer data' token') := by
    rw [hdata.fields, Server.Same, Server.redacted, Server.redacted, Store.newServer,
      Store.newServer, hids, h.inserts, hsame]
  have hid : (s.newServer data token).id = (t.newServer data' token').id :=
    hnew.congr fun _ => rfl
  have hservers : (s.servers ++ [s.newServer data token]).map Server.redacted =
      (t.servers ++ [t.newServer data' token']).map Server.redacted := by
    rw [List.map_append, List.map_append, h.servers, List.map_singleton, List.map_singleton, hnew]
  have hnext : Store.Same { s with inserts := s.inserts + 1 } { t with inserts := t.inserts + 1 } :=
    ⟨h.servers, h.folders, congrArg (· + 1) h.inserts⟩
  rw [Store.createServerWithFolders, Store.createServerWithFolders, htoken, htoken']
  refine hnext.commit hnew hservers ?_
  rw [hid, h.folders]

theorem noNull_of_same (hdata : data.Same box box' nonce nonce' data') (h : data.NoNull) :
    data'.NoNull := by
  rw [hdata.fields]
  exact ⟨h.1, h.2, h.3, h.4, h.5, h.6, h.7, h.8, h.9, h.10, h.11⟩

theorem null_of_same (hdata : data.Same box box' nonce nonce' data') (h : ¬data.NoNull) :
    ¬data'.NoNull := by
  intro h'
  rw [hdata.fields] at h'
  exact h ⟨h'.1, h'.2, h'.3, h'.4, h'.5, h'.6, h'.7, h'.8, h'.9, h'.10, h'.11⟩

theorem repoWrite_of_error {update : Update} {error : RepoError}
    (hget : s.requireServer update.serverId = .error error) :
    update.repoWrite box nonce s = .error error := by
  rw [Update.repoWrite]
  split
  · rw [Store.updateServer, hget]
    rfl
  · rw [Store.updateServerWithFolders, hget]
    rfl

/-- The row is read on both sides, or the id is refused in both. -/
theorem Store.Same.findServer (h : s.Same t) (serverId : Int) :
    (∃ error, s.findServer serverId = .error error ∧ t.findServer serverId = .error error) ∨
      (s.findServer serverId = .ok none ∧ t.findServer serverId = .ok none) ∨
      ∃ x y, s.findServer serverId = .ok (some x) ∧ t.findServer serverId = .ok (some y) ∧
        x.Same y := by
  cases hid : intError serverId with
  | some error => exact .inl ⟨error, s.findServer_error hid, t.findServer_error hid⟩
  | none =>
      rw [s.findServer_eq hid, t.findServer_eq hid]
      rcases h.getServer serverId with ⟨hs, ht⟩ | ⟨x, y, hs, ht, hxy⟩
      · exact .inr (.inl ⟨congrArg _ hs, congrArg _ ht⟩)
      · exact .inr (.inr ⟨x, y, congrArg _ hs, congrArg _ ht, hxy⟩)

/-- The row is there on both sides, or an update raises the same. -/
theorem Store.Same.requireServer (h : s.Same t) (serverId : Int) :
    (∃ error, s.requireServer serverId = .error error ∧ t.requireServer serverId = .error error) ∨
      ∃ x y, s.requireServer serverId = .ok x ∧ t.requireServer serverId = .ok y ∧ x.Same y := by
  rw [Store.requireServer, Store.requireServer]
  rcases h.findServer serverId with ⟨error, hs, ht⟩ | ⟨hs, ht⟩ | ⟨x, y, hs, ht, hxy⟩
  · rw [hs, ht]
    exact .inl ⟨error, rfl, rfl⟩
  · rw [hs, ht]
    exact .inl ⟨.keyError, rfl, rfl⟩
  · rw [hs, ht]
    exact .inr ⟨x, y, rfl, rfl, hxy⟩

/-- Both rows are written, or both are refused. -/
theorem same_repoWrite (h : s.Same t) (hdata : data.Same box box' nonce nonce' data')
    (folders : Option (List FolderCreate)) :
    AlikeResult Store.Same Server.Same (Update.repoWrite ⟨serverId, data, folders⟩ box nonce s)
      (Update.repoWrite ⟨serverId, data', folders⟩ box' nonce' t) := by
  rcases h.requireServer serverId with ⟨error, hs, ht⟩ | ⟨x, y, hs, ht, hxy⟩
  · rw [@repoWrite_of_error _ _ _ ⟨serverId, data, folders⟩ _ hs,
      @repoWrite_of_error _ _ _ ⟨serverId, data', folders⟩ _ ht]
    exact .error _
  · obtain ⟨token, token', htoken, htoken', hsame⟩ := exists_newTokens hdata hxy
    have hbind : data'.bindError = data.bindError := by rw [hdata.fields]; rfl
    rw [repoWrite_eq ⟨serverId, data, folders⟩ hs, repoWrite_eq ⟨serverId, data', folders⟩ ht,
      update_eq_bind, update_eq_bind, htoken, htoken', hbind]
    cases data.bindError with
    | some error => exact .error _
    | none =>
        by_cases hnull : data.NoNull
        · have hwritten : (x.written data token).Same (y.written data' token') := by
            rw [Server.Same, redacted_written, redacted_written, hdata.fields, hsame, hxy]
          simp only [bind, Except.bind, raiseIf, setFields_of_noNull _ hnull,
            setFields_of_noNull _ (noNull_of_same hdata hnull)]
          exact h.commit hwritten (h.putServer hwritten) (h.rows ⟨serverId, data, folders⟩)
        · simp only [bind, Except.bind, raiseIf, setFields_of_null _ hnull,
            setFields_of_null _ (null_of_same hdata hnull)]
          exact .error _

/-! ### Steps -/

theorem map_eq_bind {ε α β : Type} (x : Except ε α) (b : β) :
    (x.map fun a => (a, b)) = do let a ← x; return (a, b) := by
  cases x <;> rfl

theorem map_pair_eq_ok {ε α β : Type} {x : Except ε α} {a : α} {b b' : β}
    (h : (x.map fun a => (a, b)) = .ok (a, b')) : x = .ok a := by
  cases x with
  | error e => cases h
  | ok a' =>
      cases h
      rfl

section
variable (h : s.SameLegible box box' t)
include h

theorem alike_applyServerCreateWithFolders {data data' : ServerCreate}
    (hdata : data.Same box box' nonce nonce' data') (folders : List FolderCreate) :
    AlikeResult (Store.SameLegible box box') Server.Same
      (applyServerCreateWithFolders box nonce s data folders)
      (applyServerCreateWithFolders box' nonce' t data' folders) := by
  have htype : data'.type = data.type := by rw [hdata.fields]
  have hname : data'.name = data.name := by rw [hdata.fields]
  rw [applyServerCreateWithFolders, applyServerCreateWithFolders, htype, hname,
    ← hdata.secret.any_eq]
  cases requireSecretOr422 data.type (data.secret.any (· ≠ [])) with
  | error error => exact .error _
  | ok _ =>
      refine .mapError _ ?_
      refine (same_createServerWithFolders h.same hdata folders).strengthen
        fun s' x t' y hs ht hst => ?_
      obtain ⟨_, _, -, -, -, -, -, -, -, hleft⟩ := create_of_run hs h.left
      obtain ⟨_, _, -, -, -, -, -, -, -, hright⟩ := create_of_run ht h.right
      exact ⟨hst, hleft, hright⟩

/-- The check passes on both sides, or fails with the same. -/
theorem alike_check (hdata : data.Same box box' nonce nonce' data')
    (folders : Option (List FolderCreate)) (f : WriteError → Api.Failure) :
    AlikeResult (Store.SameLegible box box') Server.Same
      (((Update.check ⟨serverId, data, folders⟩ s).map fun x => (s, x)).mapError f)
      (((Update.check ⟨serverId, data', folders⟩ t).map fun y => (t, y)).mapError f) := by
  refine .mapError _ ?_
  rw [Core.check_eq, Core.check_eq]
  rcases h.same.findServer serverId with ⟨error, hs, ht⟩ | ⟨hs, ht⟩ | ⟨x, y, hs, ht, hxy⟩
  · rw [hs, ht]
    exact .error _
  · rw [hs, ht]
    exact .error _
  · have htype : resultingType data' y = resultingType data x := by
      rw [hdata.fields]
      exact congrArg data.type.join.getD (hxy.congr (f := Server.type) fun _ => rfl).symm
    have hsecret : resultingHasSecret data' y = resultingHasSecret data x := by
      rw [resultingHasSecret, resultingHasSecret]
      rcases hdata.secret with ⟨hd, hd'⟩ | ⟨secret, secret', hd, hd', hsecret⟩
      · rw [hd, hd']
        exact (hxy.congr (f := fun server => server.secretEncrypted.isSome)
          isSome_redacted).symm
      · rw [hd, hd']
        exact hsecret.any_eq.symm
    rw [hs, ht]
    dsimp only
    rw [requireUpdateSecret, requireUpdateSecret, htype, hsecret]
    cases requireSecretOr422 (resultingType data x) (resultingHasSecret data x) with
    | error error => exact .error _
    | ok _ => exact .ok h hxy

theorem alike_write (hdata : data.Same box box' nonce nonce' data')
    (folders : Option (List FolderCreate)) (hxy : x.Same y) :
    AlikeResult (Store.SameLegible box box') Server.Same
      (Update.write ⟨serverId, data, folders⟩ box nonce s x)
      (Update.write ⟨serverId, data', folders⟩ box' nonce' t y) := by
  have herror : Update.error ⟨serverId, data', folders⟩ y =
      Update.error ⟨serverId, data, folders⟩ x := by
    have hname : x.name = y.name := hxy.congr (f := Server.name) fun _ => rfl
    funext error
    cases error <;> simp only [Update.error]
    rw [hdata.fields, hname]
  rw [Update.write, Update.write, herror]
  refine .mapError _ ?_
  refine (same_repoWrite h.same hdata folders).strengthen fun s' x t' y hs ht hst => ?_
  obtain ⟨_, -, -, -, -, -, -, -, hleft, -⟩ := update_of_run hs h.left
  obtain ⟨_, -, -, -, -, -, -, -, hright, -⟩ := update_of_run ht h.right
  exact ⟨hst, hleft, hright⟩

theorem alike_createFolder (serverId : Int) (data : FolderCreate) :
    AlikeResult (Store.SameLegible box box') Eq
      (s.createFolder serverId data) (t.createFolder serverId data) := by
  have hsame : AlikeResult Store.Same Eq (s.createFolder serverId data)
      (t.createFolder serverId data) := by
    rw [Store.createFolder, Store.createFolder, h.same.folders]
    cases intError serverId with
    | some error => exact .error _
    | none => exact h.same.commit rfl h.same.servers rfl
  refine hsame.strengthen fun s' x t' y hs ht hst => ⟨hst, ?_, ?_⟩
  · obtain ⟨-, hcommit⟩ := Store.createFolder_eq_ok s hs
    exact legible_congr (Store.commit_eq_ok hcommit).1 h.left
  · obtain ⟨-, hcommit⟩ := Store.createFolder_eq_ok t ht
    exact legible_congr (Store.commit_eq_ok hcommit).1 h.right

theorem alike_updateFolder (folderId : Int) (data : FolderUpdate) :
    AlikeResult (Store.SameLegible box box') Eq
      (s.updateFolder lower folderId data) (t.updateFolder lower folderId data) := by
  have hsame : AlikeResult Store.Same Eq (s.updateFolder lower folderId data)
      (t.updateFolder lower folderId data) := by
    rw [Store.updateFolder, Store.updateFolder, h.same.requireFolder folderId]
    cases t.requireFolder folderId with
    | error error => exact .error _
    | ok folder =>
        simp only [bind, Except.bind]
        cases folder.update lower data with
        | error error => exact .error _
        | ok folder' => exact h.same.commit rfl h.same.servers (h.same.putFolder folder')
  refine hsame.strengthen fun s' x t' y hs ht hst => ⟨hst, ?_, ?_⟩
  · obtain ⟨_, _, _, -, -, -, -, -, hl⟩ := folderUpdate_of_run hs h.left
    exact hl
  · obtain ⟨_, _, _, -, -, -, -, -, hl⟩ := folderUpdate_of_run ht h.right
    exact hl

theorem alike_deleteServer (serverId : Int) :
    AlikeResult (Store.SameLegible box box') Eq
      ((s.deleteServer serverId).map fun store => (store, ()))
      ((t.deleteServer serverId).map fun store => (store, ())) := by
  have hservers : (s.servers.filter (·.id ≠ serverId)).map Server.redacted =
      (t.servers.filter (·.id ≠ serverId)).map Server.redacted := by
    have hfilter (servers : List Server) : (servers.filter (·.id ≠ serverId)).map Server.redacted =
        (servers.map Server.redacted).filter (·.id ≠ serverId) := by
      rw [List.filter_map]
      rfl
    rw [hfilter, h.same.servers, ← hfilter]
  have hsame : AlikeResult Store.Same Eq
      ((s.deleteServer serverId).map fun store => (store, ()))
      ((t.deleteServer serverId).map fun store => (store, ())) := by
    rw [map_eq_bind, map_eq_bind, Store.deleteServer, Store.deleteServer, h.same.folders]
    cases intError serverId with
    | some error => exact .error _
    | none => exact h.same.commit rfl hservers rfl
  refine hsame.strengthen fun s' _ t' _ hs ht hst => ⟨hst, ?_, ?_⟩
  · exact (delete_of_run (map_pair_eq_ok hs) h.left).2.2
  · exact (delete_of_run (map_pair_eq_ok ht) h.right).2.2

theorem alike_deleteFolder (folderId : Int) :
    AlikeResult (Store.SameLegible box box') Eq
      ((s.deleteFolder folderId).map fun store => (store, ()))
      ((t.deleteFolder folderId).map fun store => (store, ())) := by
  have hsame : AlikeResult Store.Same Eq
      ((s.deleteFolder folderId).map fun store => (store, ()))
      ((t.deleteFolder folderId).map fun store => (store, ())) := by
    rw [map_eq_bind, map_eq_bind, Store.deleteFolder, Store.deleteFolder, h.same.folders]
    cases intError folderId with
    | some error => exact .error _
    | none => exact h.same.commit rfl h.same.servers rfl
  refine hsame.strengthen fun s' _ t' _ hs ht hst => ⟨hst, ?_, ?_⟩
  · exact (folderDelete_of_run (map_pair_eq_ok hs) h.left).2.2
  · exact (folderDelete_of_run (map_pair_eq_ok ht) h.right).2.2

/-- The configuration is read on both sides. -/
theorem alike_rebuild (raised : Option PyError) :
    AlikeResult (Store.SameLegible box box') Eq
      (match buildOrRaise lower box s with
        | .error exc => Api.swallowing s (some exc)
        | .ok _ => Api.swallowing s raised)
      (match buildOrRaise lower box' t with
        | .error exc => Api.swallowing t (some exc)
        | .ok _ => Api.swallowing t raised) := by
  have hbuild {box : SecretBox} {store : Store} (hl : store.Legible box) :
      ∃ config, buildOrRaise lower box store = .ok config := by
    obtain ⟨config, hconfig⟩ := Option.isSome_iff_exists.mp
      ((isSome_build_iff lower box store).mpr (readable_of_legible hl))
    exact ⟨config, buildOrRaise_eq_ok.mpr hconfig⟩
  obtain ⟨_, hs⟩ := hbuild h.left
  obtain ⟨_, ht⟩ := hbuild h.right
  rw [hs, ht]
  rcases raised with _ | _ | _ | _
  · exact .ok h rfl
  · exact .ok h rfl
  · exact .error _
  · exact .error _

end

/-! ### Routes -/

theorem forall₂_same {xs ys : List Server}
    (h : xs.map Server.redacted = ys.map Server.redacted) : List.Forall₂ Server.Same xs ys := by
  rw [← List.forall₂_eq_eq_eq, List.forall₂_map_left_iff, List.forall₂_map_right_iff] at h
  exact h

namespace Api

theorem alike_fromModel (hxy : x.Same y) (folders : List Folder) :
    Alike (Store.SameLegible box box') Eq (fromModel x folders) (fromModel y folders) := by
  have hread : ServerRead.fromModel x folders = ServerRead.fromModel y folders :=
    hxy.congr (f := fun server => ServerRead.fromModel server folders)
      fun server => fromModel_redacted server folders
  rw [fromModel, fromModel, hread]
  cases ServerRead.fromModel y folders with
  | none => exact .raise _
  | some read => exact .answer rfl

theorem alike_findServer (serverId : Int) :
    Alike (Store.SameLegible box box') (Option.Rel Server.Same)
      (lookup (·.findServer serverId) : Handler (Option Server))
      (lookup (·.findServer serverId)) := by
  refine .call fun s t h => .mapError _ ?_
  dsimp only
  rcases h.same.findServer serverId with ⟨error, hs, ht⟩ | ⟨hs, ht⟩ | ⟨x, y, hs, ht, hxy⟩
  · rw [hs, ht]
    exact .error _
  · rw [hs, ht]
    exact .ok h .none
  · rw [hs, ht]
    exact .ok h (.some hxy)

theorem alike_askFolders (serverId : Int) :
    Alike (Store.SameLegible box box') Eq
      (Prog.ask (·.listFolders serverId) : Handler (List Folder))
      (Prog.ask (·.listFolders serverId)) :=
  .ask fun _ _ h => h.same.listFolders serverId

theorem alike_findFolder (folderId : Int) :
    Alike (Store.SameLegible box box') Eq
      (lookup (·.findFolder folderId) : Handler (Option Folder))
      (lookup (·.findFolder folderId)) := by
  refine .call fun s t h => .mapError _ ?_
  dsimp only
  rw [h.same.findFolder folderId]
  cases t.findFolder folderId with
  | error error => exact .error _
  | ok found => exact .ok h rfl

theorem alike_readServer (detail : Str) (serverId : Int) :
    Alike (Store.SameLegible box box') Eq (readServer detail serverId)
      (readServer detail serverId) := by
  refine .bind (alike_findServer serverId) fun _ _ hxy => ?_
  cases hxy with
  | none => exact .raise _
  | some hxy =>
      refine .bind (alike_askFolders serverId) fun folders _ heq => ?_
      subst heq
      exact alike_fromModel hxy folders

theorem alike_listServers :
    Alike (Store.SameLegible box box') Eq listServers listServers := by
  refine .bind (A := List.Forall₂ Server.Same) (.ask fun s t h => forall₂_same h.same.servers)
    fun xs ys hxys => ?_
  rw [← List.forall₂_eq_eq_eq]
  refine .mapM hxys fun x y hxy => ?_
  have hid : x.id = y.id := hxy.congr (f := Server.id) fun _ => rfl
  rw [hid]
  refine .bind (alike_askFolders y.id) fun folders _ heq => ?_
  subst heq
  exact alike_fromModel hxy folders

theorem alike_rebuildEngine (raised : Option PyError) :
    Alike (Store.SameLegible box box') Eq (rebuildEngine lower box raised)
      (rebuildEngine lower box' raised) :=
  .call fun _ _ h => alike_rebuild h raised

theorem alike_saveUpdate (hdata : data.Same box box' nonce nonce' data')
    (folders : Option (List FolderCreate)) (failure : WriteError → Failure) :
    Alike (Store.SameLegible box box') Eq
      (saveUpdate lower box raised failure nonce ⟨serverId, data, folders⟩)
      (saveUpdate lower box' raised failure nonce' ⟨serverId, data', folders⟩) := by
  refine .bind (.call fun s t h => alike_check h hdata folders failure) fun x y hxy => ?_
  refine .bind (.call fun s t h => .mapError failure (alike_write h hdata folders hxy))
    fun _ _ _ => ?_
  exact alike_rebuildEngine raised

theorem alike_requireServer (serverId : Int) :
    Alike (Store.SameLegible box box') Eq (requireServer serverId) (requireServer serverId) := by
  refine .bind (alike_findServer serverId) fun _ _ hxy => ?_
  cases hxy with
  | none => exact .raise _
  | some _ => exact .answer rfl

theorem alike_ownedFolder (serverId folderId : Int) :
    Alike (Store.SameLegible box box') Eq (ownedFolder serverId folderId)
      (ownedFolder serverId folderId) := by
  refine .bind (alike_findFolder folderId) fun folder _ heq => ?_
  subst heq
  cases folder with
  | none => exact .raise _
  | some folder =>
      dsimp only
      split
      · exact .raise _
      · exact .answer rfl

theorem alike_showErrors (error : Failure) :
    Alike (Store.SameLegible box box') Eq (showErrors error) (showErrors error) := by
  unfold showErrors
  split
  · exact .answer rfl
  · exact .answer rfl
  · exact .answer rfl
  · exact .raise _

theorem alike_showKeyErrors (error : Failure) :
    Alike (Store.SameLegible box box') Eq (showKeyErrors error) (showKeyErrors error) := by
  unfold showKeyErrors
  split
  · exact .answer rfl
  · exact alike_showErrors _

/-- **A route** does the same on databases that differ in the tokens only, and answers the same,
with secrets of its own. -/
theorem alike_handler {request request' : Request} (h : request.Same box box' request') :
    Alike (Store.SameLegible box box') Eq (handler lower repr box request)
      (handler lower repr box' request') := by
  cases h with
  | @free request hfree =>
      cases request with
      | listServers => exact alike_listServers.map fun _ _ => congrArg _
      | getServer serverId => exact (alike_readServer _ serverId).map fun _ _ => congrArg _
      | deleteServer raised serverId =>
          refine .bind (A := Eq) (.bind (A := Eq) (.call fun s t h => ?_)
            fun _ _ _ => alike_rebuildEngine raised) fun _ _ _ => .answer rfl
          exact .mapError _ (alike_deleteServer h serverId)
      | listFolders serverId =>
          refine Alike.map (.bind (alike_requireServer serverId) fun _ _ _ => ?_)
            fun _ _ => congrArg _
          exact .bind (alike_askFolders serverId) fun _ _ heq => .answer (congrArg _ heq)
      | createFolder raised serverId data =>
          refine Alike.map (.bind (alike_requireServer serverId) fun _ _ _ => ?_)
            fun _ _ => congrArg _
          refine .bind (.call fun s t h => .mapError _ (alike_createFolder h serverId data))
            fun folder _ heq => ?_
          subst heq
          refine .bind (alike_rebuildEngine raised) fun _ _ _ => ?_
          refine .bind (alike_findFolder folder.id) fun found _ heq => ?_
          subst heq
          cases found with
          | none => exact .raise _
          | some _ => exact .answer rfl
      | getFolder serverId folderId =>
          refine Alike.map (.bind (alike_requireServer serverId) fun _ _ _ => ?_)
            fun _ _ => congrArg _
          exact .bind (alike_ownedFolder serverId folderId) fun _ _ heq => .answer (congrArg _ heq)
      | updateFolder raised serverId folderId data =>
          refine Alike.map (.bind (alike_requireServer serverId) fun _ _ _ => ?_)
            fun _ _ => congrArg _
          refine .bind (alike_ownedFolder serverId folderId) fun _ _ _ => ?_
          refine .bind (.call fun s t h => .mapError _ (alike_updateFolder h folderId data))
            fun folder _ heq => ?_
          subst heq
          exact .bind (alike_rebuildEngine raised) fun _ _ _ => .answer rfl
      | deleteFolder raised serverId folderId =>
          refine .bind (A := Eq) (.bind (alike_requireServer serverId) fun _ _ _ => ?_)
            fun _ _ _ => .answer rfl
          refine .bind (alike_ownedFolder serverId folderId) fun _ _ _ => ?_
          refine .bind (A := Eq) (.call fun s t h => ?_) fun _ _ _ => alike_rebuildEngine raised
          exact .mapError _ (alike_deleteFolder h folderId)
      | serverDetail serverId => exact (alike_readServer _ serverId).map fun _ _ => congrArg _
      | createServer | updateServer | uiCreateServerWithFolders | uiUpdateServer => cases hfree
  | @createServer raised _ _ _ _ hdata =>
      refine Alike.map ?_ fun _ _ => congrArg _
      refine .bind (A := Server.Same) (.call fun s t h => ?_) fun x y hxy => ?_
      · exact .mapError _ (alike_applyServerCreateWithFolders h hdata [])
      · have hid : x.id = y.id := hxy.congr (f := Server.id) fun _ => rfl
        rw [hid]
        exact .bind (alike_rebuildEngine raised) fun _ _ _ => alike_readServer _ _
  | updateServer hdata =>
      refine Alike.map (.bind (alike_saveUpdate hdata none _) fun _ _ _ => ?_) fun _ _ => congrArg _
      exact alike_readServer _ _
  | @uiCreateServerWithFolders raised _ _ _ _ folders hdata =>
      refine Alike.handle ?_ fun error => ?_
      · refine .bind (A := Server.Same) (.call fun s t h => ?_) fun x y hxy => ?_
        · exact .mapError _ (alike_applyServerCreateWithFolders h hdata folders)
        · have hid : x.id = y.id := hxy.congr (f := Server.id) fun _ => rfl
          rw [hid]
          exact .bind (alike_rebuildEngine raised) fun _ _ _ => .answer rfl
      · exact alike_showErrors error
  | @uiUpdateServer raised _ _ _ _ _ folders hdata =>
      refine Alike.handle ?_ fun error => ?_
      · exact .bind (alike_saveUpdate hdata (some folders) _) fun _ _ _ => .answer rfl
      · exact alike_showKeyErrors error

/-! ### Routes side by side -/

/-- **Secrets do not show.**  Two sites start with an empty database, each with its key, and get the
same requests, but for the secrets in them, with their steps in the same order, whatever it is.
Then every request has come to the same answer or the same exception on both, or is still at work
on both; and the databases differ in the tokens only. -/
theorem secrets_do_not_show (lower repr : Str → Str) {acts acts' : List (Act Request)}
    (h : List.Forall₂ (AlikeAct (Request.Same box box')) acts acts') :
    (run lower repr box acts).results = (run lower repr box' acts').results ∧
      (run lower repr box acts).shared.Same (run lower repr box' acts').shared := by
  have hempty : Store.SameLegible box box' .empty .empty :=
    ⟨⟨rfl, rfl, rfl⟩, List.forall_mem_nil _, List.forall_mem_nil _⟩
  have halike : AlikeState (Store.SameLegible box box') Eq (run lower repr box acts)
      (run lower repr box' acts') := alike_run (fun _ _ hrequest => alike_handler hrequest) hempty h
  exact ⟨halike.results_eq, halike.shared.same⟩

/-- A server is created with this token, while somebody lists the servers. -/
def createAndList (secret : Str) : List (Act Request) :=
  [.arrive (.createServer none 0 { plexServer with secret := some secret }), .step 0,
    .arrive .listServers, .step 1, .step 0, .step 1, .step 0, .step 0]

theorem secrets_do_not_show_tokens :
    (run asciiLower id markBox (createAndList (str "one"))).results =
        (run asciiLower id markBox (createAndList (str "another"))).results ∧
      (run asciiLower id markBox (createAndList (str "one"))).results.all Option.isSome := by
  have hcreate : ServerCreate.Same markBox markBox 0 0
      { plexServer with secret := some (str "one") }
      { plexServer with secret := some (str "another") } :=
    ⟨rfl, by decide, ⟨_, rfl⟩, ⟨_, rfl⟩⟩
  have hlist : Request.Same markBox markBox .listServers .listServers := .free rfl
  refine ⟨(secrets_do_not_show asciiLower id ?_).1, by decide +kernel⟩
  exact .cons (.arrive (.createServer hcreate)) (.cons (.step 0) (.cons (.arrive hlist)
    (.cons (.step 1) (.cons (.step 0) (.cons (.step 1) (.cons (.step 0) (.cons (.step 0) .nil)))))))

end Api

end MediaScanMonitor
