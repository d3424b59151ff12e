import MediaScanMonitor.Config.Readable
import MediaScanMonitor.Db.Contents
import MediaScanMonitor.Web.Folders
import MediaScanMonitor.Web.Writes

/-!
# Web — the two update cores

`apply_server_update` and `apply_server_update_with_folders`, line by line, with what each has done
by the time it raises.  `Update.apply` is what both do up to the rebuild.

* `run_applyServerUpdate`: a core leaves the database alone and calls no rebuild, up to its commit.
* `exists_repoWrite`, `repoWrite_conflict`, `repoWrite_token_error`: what the method of the
  repository comes to, once the row is there.
* `twins_agree_iff`: when the two come to the same.
-/

namespace MediaScanMonitor
open Py

/-- What a core raises: before the rebuild, or what `rebuild_engine` lets through. -/
inductive CoreError where
  | core (error : WriteError)
  | rebuild (exc : PyError)
  deriving DecidableEq

structure Site where
  store : Store
  /-- The calls of `rebuild_engine`. -/
  rebuilds : Nat

/-- What is done stays done when an exception is raised. -/
abbrev Core := ExceptT CoreError (StateM Site)

namespace Core

/-- `repo.get_server`. -/
def getServer (serverId : Int) : Core (Option Server) := do
  match (← get).store.findServer serverId with
  | .ok found => return found
  | .error error => throw (.core (.uncaught error))

/-- A check, which may raise. -/
def check (result : Except WriteError Unit) : Core Unit :=
  match result with
  | .ok () => return
  | .error error => throw (.core error)

/-- A method of the repository in its own session, which is committed or rolled back; `translate`
is what becomes of its exception. -/
def session (method : Store → Except RepoError (Store × Server))
    (translate : RepoError → WriteError) : Core Server := do
  let site ← get
  match method site.store with
  | .ok (store, server) =>
    set { site with store }
    return server
  | .error error => throw (.core (translate error))

/-- `rebuild_engine`, where it raises `raised`, or returns. -/
def rebuildEngine (raised : Option PyError) : Core Unit := do
  modify fun site => { site with rebuilds := site.rebuilds + 1 }
  match raised with
  | none => return
  | some exc => throw (.rebuild exc)

/-- `apply_server_update`. -/
def applyServerUpdate (box : SecretBox) (nonce : Nat) (raised : Option PyError) (serverId : Int)
    (data : ServerUpdate) : Core Server := do
  match ← getServer serverId with
  | none => throw (.core (.notFound serverId))
  | some existing =>
    check (requireUpdateSecret data existing)
    let server ← session (·.updateServer box nonce serverId data) fun
      | .keyError => .notFound serverId
      | .integrityError => .uncaught .integrityError
      | error => .uncaught error
    rebuildEngine raised
    return server

/-- `apply_server_update_with_folders`. -/
def applyServerUpdateWithFolders (box : SecretBox) (nonce : Nat) (raised : Option PyError)
    (serverId : Int) (data : ServerUpdate) (folders : List FolderCreate) : Core Server := do
  match ← getServer serverId with
  | none => throw (.core (.notFound serverId))
  | some existing =>
    check (requireUpdateSecret data existing)
    let server ← session (·.updateServerWithFolders box nonce serverId data folders) fun
      | .keyError => .notFound serverId
      -- `data.name or existing.name`
      | .integrityError => .nameConflict (if data.name.join.getD [] = [] then existing.name
          else data.name.join.getD [])
      | error => .uncaught error
    rebuildEngine raised
    return server

/-- What a core answers, and what it leaves, when its work up to the rebuild comes to `result`. -/
def after (raised : Option PyError) (site : Site) :
    Except WriteError (Store × Server) → Except CoreError Server × Site
  | .error error => (.error (.core error), site)
  | .ok (store, server) =>
    (match raised with
      | none => .ok server
      | some exc => .error (.rebuild exc),
      ⟨store, site.rebuilds + 1⟩)

variable {box : SecretBox} {nonce : Nat} {raised : Option PyError} {serverId : Int}
  {data : ServerUpdate}

theorem run_bind {α β : Type} (x : Core α) (f : α → Core β) (site : Site) :
    (x >>= f).run site =
      match x.run site with
      | (.ok a, site') => (f a).run site'
      | (.error error, site') => (.error error, site') := by
  rw [ExceptT.run_bind]
  rcases hx : x.run site with ⟨_ | a, site'⟩
  · simp [bind, StateT.bind, hx]
    rfl
  · simp [bind, StateT.bind, hx]

theorem run_getServer (site : Site) :
    (getServer serverId).run site =
      (((site.store.findServer serverId).mapError .uncaught).mapError .core, site) := by
  rw [getServer, run_bind]
  have hget : (get : Core Site).run site = (.ok site, site) := rfl
  rw [hget]
  dsimp only
  cases site.store.findServer serverId <;> rfl

theorem run_check (result : Except WriteError Unit) (site : Site) :
    (check result).run site = (result.mapError .core, site) := by
  cases result <;> rfl

theorem run_session (method : Store → Except RepoError (Store × Server))
    (translate : RepoError → WriteError) (site : Site) :
    (session method translate).run site =
      match method site.store with
      | .ok (store, server) => (.ok server, { site with store })
      | .error error => (.error (.core (translate error)), site) := by
  have hget : (get : Core Site).run site = (.ok site, site) := rfl
  rw [session, run_bind, hget]
  dsimp only
  rcases method site.store with _ | ⟨_, _⟩ <;> rfl

theorem run_rebuildEngine (site : Site) :
    (rebuildEngine raised).run site =
      (match raised with
        | none => .ok ()
        | some exc => .error (.rebuild exc),
        { site with rebuilds := site.rebuilds + 1 }) := by
  cases raised <;> rfl

/-- What follows the check of a core: its session, and the rebuild. -/
theorem run_write (method : Store → Except RepoError (Store × Server))
    (translate : RepoError → WriteError) (site : Site) :
    (do
      let server ← session method translate
      rebuildEngine raised
      return server : Core Server).run site =
      after raised site ((method site.store).mapError translate) := by
  rw [run_bind, run_session]
  rcases method site.store with error | ⟨store, server⟩
  · rfl
  · simp only [run_bind, run_rebuildEngine, Except.mapError, after]
    cases raised <;> rfl

/-- The read and the check of a core. -/
theorem check_eq (update : Update) (store : Store) :
    update.check store =
      match store.findServer update.serverId with
      | .error error => .error (.uncaught error)
      | .ok none => .error (.notFound update.serverId)
      | .ok (some existing) => (requireUpdateSecret update.data existing).map fun _ => existing := by
  rw [Update.check]
  rcases store.findServer update.serverId with error | _ | existing
  · rfl
  · rfl
  · dsimp only [Except.mapError]
    cases hrequire : requireUpdateSecret update.data existing <;>
      simp [bind, Except.bind, pure, Except.pure, Except.map, hrequire]

/-- **A core leaves the database alone** and calls no rebuild, up to its commit. -/
theorem run_applyServerUpdate (site : Site) :
    (applyServerUpdate box nonce raised serverId data).run site =
      after raised site (Update.apply ⟨serverId, data, none⟩ box nonce site.store) := by
  rw [applyServerUpdate, run_bind, run_getServer, Update.apply, check_eq]
  dsimp only
  rcases site.store.findServer serverId with error | _ | existing
  · rfl
  · rfl
  · dsimp only [Except.mapError]
    rw [run_bind, run_check]
    cases requireUpdateSecret data existing with
    | error error => rfl
    | ok =>
        dsimp only [Except.mapError, Except.map]
        exact run_write _ _ site

theorem run_applyServerUpdateWithFolders (folders : List FolderCreate) (site : Site) :
    (applyServerUpdateWithFolders box nonce raised serverId data folders).run site =
      after raised site (Update.apply ⟨serverId, data, some folders⟩ box nonce site.store) := by
  rw [applyServerUpdateWithFolders, run_bind, run_getServer, Update.apply, check_eq]
  dsimp only
  rcases site.store.findServer serverId with error | _ | existing
  · rfl
  · rfl
  · dsimp only [Except.mapError]
    rw [run_bind, run_check]
    cases requireUpdateSecret data existing with
    | error error => rfl
    | ok =>
        dsimp only [Except.mapError, Except.map]
        exact run_write _ _ site

end Core

/-! ### What a payload does to a row -/

/-- No explicit null for a column that is NOT NULL. -/
structure ServerUpdate.NoNull (data : ServerUpdate) : Prop where
  name : data.name ≠ some none
  type : data.type ≠ some none
  baseUrl : data.baseUrl ≠ some none
  verifyTls : data.verifyTls ≠ some none
  timeoutSeconds : data.timeoutSeconds ≠ some none
  scanMode : data.scanMode ≠ some none
  debounceMode : data.debounceMode ≠ some none
  debounceWindowSeconds : data.debounceWindowSeconds ≠ some none
  retryAttempts : data.retryAttempts ≠ some none
  enabled : data.enabled ≠ some none
  webhookPayloadPreset : data.webhookPayloadPreset ≠ some none

/-- The token of the row after the update. -/
def Server.newToken (box : SecretBox) (nonce : Nat) (server : Server) (data : ServerUpdate) :
    Except RepoError (Option Str) :=
  match data.secret with
  | none => pure server.secretEncrypted
  | some secret => box.seal nonce secret

/-- The row after the update. -/
def Server.written (server : Server) (data : ServerUpdate) (secretEncrypted : Option Str) :
    Server where
  id := server.id
  name := data.name.join.getD server.name
  type := data.type.join.getD server.type
  baseUrl := data.baseUrl.join.getD server.baseUrl
  verifyTls := data.verifyTls.join.getD server.verifyTls
  timeoutSeconds := data.timeoutSeconds.join.getD server.timeoutSeconds
  secretEncrypted := secretEncrypted
  scanMode := data.scanMode.join.getD server.scanMode
  debounceMode := data.debounceMode.join.getD server.debounceMode
  debounceWindowSeconds := data.debounceWindowSeconds.join.getD server.debounceWindowSeconds
  retryAttempts := data.retryAttempts.join.getD server.retryAttempts
  enabled := data.enabled.join.getD server.enabled
  webhookMethod := setNullable data.webhookMethod server.webhookMethod
  webhookHeadersJson := setNullable data.webhookHeadersJson server.webhookHeadersJson
  webhookBodyTemplate := setNullable data.webhookBodyTemplate server.webhookBodyTemplate
  webhookPayloadPreset := data.webhookPayloadPreset.join.getD server.webhookPayloadPreset
  eventTypes :=
    match data.eventTypes.join with
    | some types => serializeEventTypes types
    | none => server.eventTypes
  row := server.row

/-- `update_server`, once the token is made. -/
def Server.setFields (server : Server) (data : ServerUpdate) (secretEncrypted : Option Str) :
    Except RepoError Server := do
  let name ← setColumn data.name server.name
  let type ← setColumn data.type server.type
  let baseUrl ← setColumn data.baseUrl server.baseUrl
  let verifyTls ← setColumn data.verifyTls server.verifyTls
  let timeoutSeconds ← setColumn data.timeoutSeconds server.timeoutSeconds
  let scanMode ← setColumn data.scanMode server.scanMode
  let debounceMode ← setColumn data.debounceMode server.debounceMode
  let debounceWindowSeconds ← setColumn data.debounceWindowSeconds server.debounceWindowSeconds
  let retryAttempts ← setColumn data.retryAttempts server.retryAttempts
  let enabled ← setColumn data.enabled server.enabled
  let webhookPayloadPreset ← setColumn data.webhookPayloadPreset server.webhookPayloadPreset
  return { server with
    name, type, baseUrl, verifyTls, timeoutSeconds, secretEncrypted, scanMode, debounceMode
    debounceWindowSeconds, retryAttempts, enabled, webhookPayloadPreset
    webhookMethod := setNullable data.webhookMethod server.webhookMethod
    webhookHeadersJson := setNullable data.webhookHeadersJson server.webhookHeadersJson
    webhookBodyTemplate := setNullable data.webhookBodyTemplate server.webhookBodyTemplate
    eventTypes :=
      match data.eventTypes.join with
      | some types => serializeEventTypes types
      | none => server.eventTypes }

section
variable {box : SecretBox} {nonce : Nat} {server server' : Server} {data : ServerUpdate}
  {token : Option Str}

theorem update_eq_bind (box : SecretBox) (nonce : Nat) (server : Server) (data : ServerUpdate) :
    server.update box nonce data =
      (do
        let token ← server.newToken box nonce data
        raiseIf data.bindError
        server.setFields data token) := by
  rw [Server.update, Server.newToken]
  cases data.secret <;> rfl

theorem setColumn_of_ne {α : Type} {field : Option (Option α)} (old : α) (h : field ≠ some none) :
    setColumn field old = .ok (field.join.getD old) := by
  obtain ⟨v, hv⟩ := exists_setColumn old h
  rw [hv, setColumn_eq_ok hv]

theorem setFields_of_noNull (token : Option Str) (h : data.NoNull) :
    server.setFields data token = .ok (server.written data token) := by
  simp only [Server.setFields, bind_eq_ok]
  exact ⟨_, setColumn_of_ne _ h.name, _, setColumn_of_ne _ h.type,
    _, setColumn_of_ne _ h.baseUrl, _, setColumn_of_ne _ h.verifyTls,
    _, setColumn_of_ne _ h.timeoutSeconds, _, setColumn_of_ne _ h.scanMode,
    _, setColumn_of_ne _ h.debounceMode, _, setColumn_of_ne _ h.debounceWindowSeconds,
    _, setColumn_of_ne _ h.retryAttempts, _, setColumn_of_ne _ h.enabled,
    _, setColumn_of_ne _ h.webhookPayloadPreset, rfl⟩

theorem noNull_of_setFields (h : server.setFields data token = .ok server') : data.NoNull := by
  simp only [Server.setFields, bind_eq_ok] at h
  obtain ⟨_, hname, _, htype, _, hurl, _, hverify, _, htimeout, _, hmode, _, hdebounce, _,
    hwindow, _, hretry, _, henabled, _, hpreset, -⟩ := h
  exact ⟨ne_null_of_setColumn hname, ne_null_of_setColumn htype, ne_null_of_setColumn hurl,
    ne_null_of_setColumn hverify, ne_null_of_setColumn htimeout, ne_null_of_setColumn hmode,
    ne_null_of_setColumn hdebounce, ne_null_of_setColumn hwindow, ne_null_of_setColumn hretry,
    ne_null_of_setColumn henabled, ne_null_of_setColumn hpreset⟩

/-- What raises nothing but `IntegrityError`. -/
def OnlyIntegrity {α : Type} (x : Except RepoError α) : Prop :=
  ∀ error, x = .error error → error = .integrityError

theorem OnlyIntegrity.bind {α β : Type} {x : Except RepoError α} {f : α → Except RepoError β}
    (hx : OnlyIntegrity x) (hf : ∀ a, OnlyIntegrity (f a)) : OnlyIntegrity (x >>= f) := by
  intro error h
  cases x with
  | error e =>
      cases h
      exact hx _ rfl
  | ok a => exact hf a error h

theorem onlyIntegrity_setColumn {α : Type} (field : Option (Option α)) (old : α) :
    OnlyIntegrity (setColumn field old) := by
  intro error h
  rcases field with _ | _ | _
  · cases h
  · cases h
    rfl
  · cases h

/-- Once the token is made, an update fails of a null only. -/
theorem setFields_of_null (token : Option Str) (h : ¬ data.NoNull) :
    server.setFields data token = .error .integrityError := by
  have honly : OnlyIntegrity (server.setFields data token) := by
    rw [Server.setFields]
    iterate 11 refine (onlyIntegrity_setColumn _ _).bind fun _ => ?_
    intro error herror
    cases herror
  cases hset : server.setFields data token with
  | ok server' => exact absurd (noNull_of_setFields hset) h
  | error error => rw [honly error hset]

end

/-! ### What is committed -/

/-- The payload does not name the server like another one. -/
def Store.NameFree (store : Store) (serverId : Int) (data : ServerUpdate) : Prop :=
  ∀ other ∈ store.servers, other.id ≠ serverId → data.name ≠ some (some other.name)

instance (store : Store) (serverId : Int) (data : ServerUpdate) :
    Decidable (store.NameFree serverId data) := List.decidableBAll _ _

/-- The folder table an update writes. -/
def Update.rows (update : Update) (store : Store) : List Folder :=
  match update.folders with
  | none => store.folders
  | some folders => store.replaceFolders update.serverId (store.folderIdsOf update.serverId) folders

section
variable {box : SecretBox} {nonce : Nat} {store : Store} {serverId : Int} {server server' : Server}
  {data : ServerUpdate} {update : Update} {token : Option Str} {rows : List Folder}

theorem putServer_id (store : Store) (server' : Server) :
    (store.putServer server').map Server.id = store.servers.map Server.id := by
  rw [Store.putServer, List.map_map]
  refine List.map_congr_left fun s _ => ?_
  rw [Function.comp_apply]
  split
  · rename_i hid
    exact hid.symm
  · rfl

/-- The columns an update sets are bound before the row is written. -/
theorem bindError_written (hserver : server.bindError = none) (hdata : data.bindError = none) :
    (server.written data token).bindError = none := by
  simp only [Server.bindError, ServerUpdate.bindError, Option.or_eq_none_iff] at hserver hdata ⊢
  obtain ⟨hname, hurl, hwindow, hretry, hmethod, hheaders, hbody⟩ := hserver
  obtain ⟨hname', hurl', hwindow', hretry', hmethod', hheaders', hbody'⟩ := hdata
  exact ⟨error_getD hname hname', error_getD hurl hurl', error_getD hwindow hwindow',
    error_getD hretry hretry', error_setNullable hmethod hmethod',
    error_setNullable hheaders hheaders', error_setNullable hbody hbody'⟩

/-- What the driver raises is no `IntegrityError`. -/
theorem bindError_ne {error : RepoError} (h : data.bindError = some error) :
    error ≠ .keyError ∧ error ≠ .integrityError := by
  have htext (field : Option Str) (h : field.bind textError = some error) :
      error = .encodeError := by
    obtain ⟨s, -, hs⟩ := Option.bind_eq_some_iff.mp h
    rw [textError] at hs
    split at hs
    · cases hs
    · exact (Option.some.inj hs).symm
  have hint (field : Option Int) (h : field.bind intError = some error) :
      error = .overflowError := by
    obtain ⟨i, -, hi⟩ := Option.bind_eq_some_iff.mp h
    rw [intError] at hi
    split at hi
    · cases hi
    · exact (Option.some.inj hi).symm
  have hcases : error = .encodeError ∨ error = .overflowError := by
    simp only [ServerUpdate.bindError, Option.or_eq_some_iff] at h
    rcases h with h | ⟨-, h | ⟨-, h | ⟨-, h | ⟨-, h | ⟨-, h | ⟨-, h⟩⟩⟩⟩⟩⟩
    · exact .inl (htext _ h)
    · exact .inl (htext _ h)
    · exact .inr (hint _ h)
    · exact .inr (hint _ h)
    · exact .inl (htext _ h)
    · exact .inl (htext _ h)
    · exact .inl (htext _ h)
  rcases hcases with rfl | rfl
  · exact ⟨nofun, nofun⟩
  · exact ⟨nofun, nofun⟩

/-- A row that can be bound is written unless another server has its name, or its timeout is NaN. -/
theorem constraints_putServer_iff (hget : store.getServer serverId = some server)
    (hid : server'.id = serverId) (hbind : server'.bindError = none)
    (hrows : Constraints store.servers rows) :
    Constraints (store.putServer server') rows ↔
      (∀ other ∈ store.servers, other.id ≠ serverId → other.name ≠ server'.name) ∧
        server'.timeoutSeconds ≠ .nan := by
  obtain ⟨hmem, hserver⟩ := Store.getServer_eq_some hget
  have hnodup : store.servers.Nodup := List.Nodup.of_map _ store.constraints.serverIds
  have hnames : ((store.putServer server').map Server.name).Nodup ↔
      ∀ x ∈ store.servers, ∀ y ∈ store.servers,
        (if x.id = server'.id then server' else x).name =
          (if y.id = server'.id then server' else y).name → x = y := by
    rw [Store.putServer, List.map_map, List.nodup_map_iff_inj_on hnodup]
    rfl
  constructor
  · intro h
    refine ⟨fun other hother hne heq => ?_, h.timeouts _ (Store.mem_putServer_of_mem hmem ?_)⟩
    · have hinj := hnames.mp h.names server hmem other hother
      rw [if_pos (hserver.trans hid.symm), if_neg (hid ▸ hne)] at hinj
      rw [← hinj heq.symm] at hne
      exact hne hserver
    · exact hid.trans hserver.symm
  · rintro ⟨hfree, htimeout⟩
    have hput {P : Server → Prop} (hold : ∀ x ∈ store.servers, P x) (hnew : P server') :
        ∀ x ∈ store.putServer server', P x := by
      intro x hx
      rcases Store.of_mem_putServer hx with rfl | hx
      · exact hnew
      · exact hold x hx
    refine ⟨?_, hnames.mpr ?_, hrows.folderIds, ?_, hput hrows.serverRows hbind,
      hput hrows.timeouts htimeout, hrows.folderRows, hrows.extensions⟩
    · rw [putServer_id]
      exact store.constraints.serverIds
    · intro x hx y hy h
      by_cases hxid : x.id = server'.id
      · by_cases hyid : y.id = server'.id
        · exact Store.server_ext hx hy (hxid.trans hyid.symm)
        · rw [if_pos hxid, if_neg hyid] at h
          exact absurd h.symm (hfree y hy (hid ▸ hyid))
      · by_cases hyid : y.id = server'.id
        · rw [if_neg hxid, if_pos hyid] at h
          exact absurd h (hfree x hx (hid ▸ hxid))
        · rw [if_neg hxid, if_neg hyid] at h
          exact List.inj_on_of_nodup_map store.constraints.names hx hy h
    · rw [putServer_id]
      exact hrows.foreignKey

theorem name_written_iff (hget : store.getServer serverId = some server) :
    (∀ other ∈ store.servers, other.id ≠ serverId → other.name ≠ (server.written data token).name) ↔
      store.NameFree serverId data := by
  obtain ⟨hmem, hserver⟩ := Store.getServer_eq_some hget
  refine forall₂_congr fun other hother => forall_congr' fun hne => not_congr ?_
  rw [Server.written]
  rcases data.name with _ | _ | name
  · refine iff_of_false (fun h => hne ?_) (by simp)
    rw [List.inj_on_of_nodup_map store.constraints.names hother hmem h, hserver]
  · refine iff_of_false (fun h => hne ?_) (by simp)
    rw [List.inj_on_of_nodup_map store.constraints.names hother hmem h, hserver]
  · simp [eq_comm]

theorem timeout_written_iff (hget : store.getServer serverId = some server) :
    (server.written data token).timeoutSeconds ≠ .nan ↔
      data.timeoutSeconds ≠ some (some .nan) := by
  have hold := store.constraints.timeouts server (Store.getServer_eq_some hget).1
  rw [Server.written]
  rcases data.timeoutSeconds with _ | _ | timeout
  · simpa using hold
  · simpa using hold
  · simp

/-- The folders of the update can be stored. -/
def Update.Storable (update : Update) : Prop :=
  ∀ data ∈ update.folders.getD [], data.Storable

theorem constraints_rows_iff (hget : store.getServer update.serverId = some server) :
    Constraints store.servers (update.rows store) ↔ update.Storable := by
  rw [Update.rows, Update.Storable]
  cases update.folders with
  | none => exact iff_of_true store.constraints (List.forall_mem_nil _)
  | some folders =>
      have hsome : (store.getServer update.serverId).isSome := by
        rw [hget]
        rfl
      constructor
      · intro h
        exact h.storable_newFolders
      · intro hfolders
        obtain ⟨store', -, hservers, hrows⟩ :=
          store.exists_replaceFolders hsome (store.folderIdsOf update.serverId) hfolders
        have hconstraints := store'.constraints
        rw [hservers, hrows] at hconstraints
        exact hconstraints

/-- The two methods of the repository. -/
theorem repoWrite_eq (update : Update) (hget : store.requireServer update.serverId = .ok server) :
    update.repoWrite box nonce store =
      (do
        let server' ← server.update box nonce update.data
        let store' ← store.commit (store.putServer server') (update.rows store)
        return (store', server')) := by
  rw [Update.repoWrite, Update.rows]
  cases update.folders with
  | none =>
      simp only [Store.updateServer, hget]
      rfl
  | some folders =>
      simp only [Store.updateServerWithFolders, hget]
      rfl

/-- What is written was there. -/
theorem requireServer_of_repoWrite {result : Store × Server}
    (h : update.repoWrite box nonce store = .ok result) :
    ∃ server, store.requireServer update.serverId = .ok server := by
  rw [Update.repoWrite] at h
  split at h
  · simp only [Store.updateServer, bind_eq_ok] at h
    obtain ⟨server, hget, -⟩ := h
    exact ⟨server, hget⟩
  · simp only [Store.updateServerWithFolders, bind_eq_ok] at h
    obtain ⟨server, hget, -⟩ := h
    exact ⟨server, hget⟩

/-- What a flush raises at a server's row that can be bound but not written. -/
theorem flushError_of_server {servers : List Server} {folders : List Folder}
    (hbind : ∀ s ∈ servers, s.bindError = none)
    (h : ¬((servers.map Server.name).Nodup ∧ ∀ s ∈ servers, s.timeoutSeconds ≠ .nan)) :
    flushError servers folders = .integrityError := by
  have hnone : servers.findSome? Server.bindError = none := List.findSome?_eq_none_iff.mpr hbind
  rw [flushError, hnone, if_neg h]
  rfl

section
variable (hget : store.requireServer update.serverId = .ok server)
include hget

/-- A write that goes through. -/
theorem exists_repoWrite (htoken : server.newToken box nonce update.data = .ok token)
    (hbind : update.data.bindError = none) (hnull : update.data.NoNull)
    (htimeout : update.data.timeoutSeconds ≠ some (some .nan))
    (hfree : store.NameFree update.serverId update.data) (hstorable : update.Storable) :
    ∃ store', update.repoWrite box nonce store = .ok (store', server.written update.data token) ∧
      store'.folders = update.rows store := by
  have hfound := ((store.requireServer_eq_ok).mp hget).2
  obtain ⟨hmem, hid⟩ := Store.getServer_eq_some hfound
  have hwritten : (server.written update.data token).id = update.serverId := hid
  have hbound : (server.written update.data token).bindError = none :=
    bindError_written (store.constraints.serverRows server hmem) hbind
  have hconstraints := (constraints_putServer_iff hfound hwritten hbound
    ((constraints_rows_iff hfound).mpr hstorable)).mpr ⟨(name_written_iff hfound).mpr hfree,
      (timeout_written_iff hfound).mpr htimeout⟩
  refine ⟨{ store with
    servers := store.putServer (server.written update.data token)
    folders := update.rows store
    constraints := hconstraints }, ?_, rfl⟩
  rw [repoWrite_eq update hget, update_eq_bind]
  simp only [bind_eq_ok]
  exact ⟨_, ⟨_, htoken, (), raiseIf_eq_ok.mpr hbind, setFields_of_noNull token hnull⟩, _,
    store.commit_eq hconstraints, rfl⟩

/-- One that does not, once its values are bound. -/
theorem repoWrite_conflict (htoken : server.newToken box nonce update.data = .ok token)
    (hbind : update.data.bindError = none)
    (h : ¬(update.data.NoNull ∧ update.data.timeoutSeconds ≠ some (some .nan) ∧
      store.NameFree update.serverId update.data)) :
    update.repoWrite box nonce store = .error .integrityError := by
  have hfound := ((store.requireServer_eq_ok).mp hget).2
  obtain ⟨hmem, hid⟩ := Store.getServer_eq_some hfound
  rw [repoWrite_eq update hget, update_eq_bind, htoken, hbind]
  by_cases hnull : update.data.NoNull
  · have hwritten : (server.written update.data token).id = update.serverId := hid
    have hbound : (server.written update.data token).bindError = none :=
      bindError_written (store.constraints.serverRows server hmem) hbind
    -- the row fails whatever the folders are
    have hserver : ¬(((store.putServer (server.written update.data token)).map Server.name).Nodup ∧
        ∀ s ∈ store.putServer (server.written update.data token), s.timeoutSeconds ≠ .nan) := by
      rintro ⟨hnames, htimeouts⟩
      have hrow : Constraints (store.putServer (server.written update.data token))
          store.folders := by
        refine ⟨?_, hnames, store.constraints.folderIds, ?_, ?_, htimeouts,
          store.constraints.folderRows, store.constraints.extensions⟩
        · rw [putServer_id]
          exact store.constraints.serverIds
        · rw [putServer_id]
          exact store.constraints.foreignKey
        · intro s hs
          rcases Store.of_mem_putServer hs with rfl | hs
          · exact hbound
          · exact store.constraints.serverRows s hs
      obtain ⟨hfree, htimeout⟩ :=
        (constraints_putServer_iff hfound hwritten hbound store.constraints).mp hrow
      exact h ⟨hnull, (timeout_written_iff hfound).mp htimeout, (name_written_iff hfound).mp hfree⟩
    have hcommit : store.commit (store.putServer (server.written update.data token))
        (update.rows store) = .error .integrityError := by
      rw [Store.commit, dif_neg fun hall => hserver ⟨hall.names, hall.timeouts⟩]
      refine congrArg _ (flushError_of_server (fun s hs => ?_) hserver)
      rcases Store.of_mem_putServer hs with rfl | hs
      · exact hbound
      · exact store.constraints.serverRows s hs
    simp only [bind, Except.bind, raiseIf, setFields_of_noNull token hnull, hcommit]
  · simp only [bind, Except.bind, raiseIf, setFields_of_null token hnull]

theorem repoWrite_token_error {error : RepoError}
    (htoken : server.newToken box nonce update.data = .error error) :
    update.repoWrite box nonce store = .error error := by
  rw [repoWrite_eq update hget, update_eq_bind, htoken]
  rfl

theorem repoWrite_bind_error {error : RepoError}
    (htoken : server.newToken box nonce update.data = .ok token)
    (hbind : update.data.bindError = some error) :
    update.repoWrite box nonce store = .error error := by
  rw [repoWrite_eq update hget, update_eq_bind, htoken, hbind]
  rfl

/-- What is written can be stored. -/
theorem storable_of_repoWrite {result : Store × Server}
    (h : update.repoWrite box nonce store = .ok result) : update.Storable := by
  rw [repoWrite_eq update hget] at h
  simp only [bind_eq_ok] at h
  obtain ⟨server', -, store', hcommit, -⟩ := h
  obtain ⟨hservers, hfolders, -⟩ := Store.commit_eq_ok hcommit
  have hconstraints := store'.constraints
  rw [hfolders] at hconstraints
  rw [Update.rows] at hconstraints
  rw [Update.Storable]
  cases hupdate : update.folders with
  | none => exact List.forall_mem_nil _
  | some folders =>
      rw [hupdate] at hconstraints
      exact hconstraints.storable_newFolders

end

end

/-! ### The two side by side -/

/-- Two rows that are alike but for their tokens, which decrypt to the same, and are the same where
they are made with one nonce. -/
structure Server.Alike (box : SecretBox) (nonce nonce' : Nat) (s t : Server) : Prop where
  columns : t = { s with secretEncrypted := t.secretEncrypted }
  token : t.secretEncrypted.map box.decrypt = s.secretEncrypted.map box.decrypt
  nonce : nonce = nonce' → s = t

/-- Both cores return one row and leave the same folders, or both raise the same; and one that
raises has left the database as it was and called no rebuild. -/
structure Agree (box : SecretBox) (nonce nonce' : Nat) (serverId : Int) (site : Site)
    (first second : Except CoreError Server × Site) : Prop where
  answers :
    match first.1, second.1 with
    | .ok s, .ok t =>
      s.Alike box nonce nonce' t ∧ Store.SameFolders first.2.store second.2.store serverId
    | .error e, .error f => e = f
    | _, _ => False
  first : ∀ e, first.1 = .error e → first.2 = site
  second : ∀ e, second.1 = .error e → second.2 = site

/-- The call comes to its write: the server is there, the check lets it through, a new secret
encodes, and the driver can bind the values. -/
def ComesToWrite (box : SecretBox) (nonce : Nat) (store : Store) (serverId : Int)
    (data : ServerUpdate) : Prop :=
  ∃ existing token, store.requireServer serverId = .ok existing ∧
    requireUpdateSecret data existing = .ok () ∧ existing.newToken box nonce data = .ok token ∧
    data.bindError = none

/-- What a write has to be for the cores to come to the same. -/
structure Harmless (T : CaseTable) (store : Store) (serverId : Int) (data : ServerUpdate)
    (raised raised' : Option PyError) : Prop where
  noNull : data.NoNull
  timeout : data.timeoutSeconds ≠ some (some .nan)
  nameFree : store.NameFree serverId data
  stable : ∀ folder ∈ store.listFolders serverId, folder.data.Stable T.lower
  rebuilds : raised = none ∧ raised' = none

section
variable {T : CaseTable} {box : SecretBox} {nonce nonce' : Nat} {store store' : Store}
  {site : Site} {serverId : Int} {existing s t : Server} {data : ServerUpdate}
  {folders : List FolderCreate} {raised raised' : Option PyError} {error : WriteError}
  {token token' : Option Str}

/-- Both make the same of the secret. -/
theorem newToken_cases (server : Server) (data : ServerUpdate)
    (hbox : ∀ plaintext, (box.encrypt nonce plaintext).isSome =
      (box.encrypt nonce' plaintext).isSome) :
    (∃ token token', server.newToken box nonce data = .ok token ∧
        server.newToken box nonce' data = .ok token' ∧
        token'.map box.decrypt = token.map box.decrypt ∧ (nonce = nonce' → token = token')) ∨
      (server.newToken box nonce data = .error .encodeError ∧
        server.newToken box nonce' data = .error .encodeError) := by
  simp only [Server.newToken]
  rcases data.secret with _ | _ | plaintext
  · exact .inl ⟨_, _, rfl, rfl, rfl, fun _ => rfl⟩
  · exact .inl ⟨_, _, rfl, rfl, rfl, fun _ => rfl⟩
  · simp only [SecretBox.seal]
    have hboth := hbox plaintext
    cases hfirst : box.encrypt nonce plaintext with
    | none =>
        rw [hfirst, Option.isSome_none, eq_comm, Option.isSome_eq_false_iff,
          Option.isNone_iff_eq_none] at hboth
        rw [hboth]
        exact .inr ⟨rfl, rfl⟩
    | some t =>
        rw [hfirst, Option.isSome_some, eq_comm, Option.isSome_iff_exists] at hboth
        obtain ⟨t', hsecond⟩ := hboth
        rw [hsecond]
        refine .inl ⟨_, _, rfl, rfl, ?_, ?_⟩
        · rw [Option.map_some, Option.map_some, box.decrypt_encrypt hfirst,
            box.decrypt_encrypt hsecond]
        · rintro rfl
          rw [← hfirst, hsecond]

theorem alike_written (hdecrypt : token'.map box.decrypt = token.map box.decrypt)
    (hnonce : nonce = nonce' → token = token') :
    (existing.written data token).Alike box nonce nonce' (existing.written data token') where
  columns := rfl
  token := hdecrypt
  nonce h := by rw [hnonce h]

theorem agree_of_error (error : WriteError) :
    Agree box nonce nonce' serverId site (Core.after raised site (.error error))
      (Core.after raised' site (.error error)) where
  answers := rfl
  first _ _ := rfl
  second _ _ := rfl

/-- Two commits agree exactly if they leave the same folders and no rebuild raises. -/
theorem agree_of_ok_iff (halike : s.Alike box nonce nonce' t) :
    Agree box nonce nonce' serverId site (Core.after raised site (.ok (store, s)))
        (Core.after raised' site (.ok (store', t))) ↔
      Store.SameFolders store store' serverId ∧ raised = none ∧ raised' = none := by
  have hmoved : ∀ st : Store, (⟨st, site.rebuilds + 1⟩ : Site) ≠ site := by
    intro st h
    exact Nat.succ_ne_self _ (congrArg Site.rebuilds h)
  constructor
  · intro h
    cases raised with
    | some exc => exact absurd (h.first _ rfl) (hmoved store)
    | none =>
        cases raised' with
        | some exc => exact absurd (h.second _ rfl) (hmoved store')
        | none => exact ⟨h.answers.2, rfl, rfl⟩
  · rintro ⟨hsame, rfl, rfl⟩
    refine ⟨⟨halike, hsame⟩, ?_, ?_⟩ <;> intro e he <;> cases he

/-- A replacement leaves its own list. -/
theorem contents_replaceFolders (h : store'.folders =
    store.replaceFolders serverId (store.folderIdsOf serverId) folders) :
    store'.contents serverId = folders.map FolderCreate.contents := by
  have hold : (store.folders.filter (·.id ∉ store.folderIdsOf serverId)).filter
      (·.serverId = serverId) = [] := by
    rw [List.filter_eq_nil_iff]
    intro folder hfolder hserver
    obtain ⟨hmem, hunread⟩ := List.mem_filter.mp hfolder
    refine of_decide_eq_true hunread ?_
    exact List.mem_map_of_mem (List.mem_filter.mpr ⟨hmem, hserver⟩)
  have hnew : (newFolders serverId (store.folders.map Folder.id) folders).filter
      (·.serverId = serverId) = newFolders serverId (store.folders.map Folder.id) folders :=
    List.filter_eq_self.mpr fun row hrow => decide_eq_true (of_mem_newFolders hrow).1
  rw [Store.contents, Store.listFolders, h, Store.replaceFolders, List.filter_append, hold, hnew,
    List.nil_append]
  conv_rhs => rw [← @data_newFolders serverId (store.folders.map Folder.id) folders]
  rw [List.map_map]
  rfl

theorem contents_eq_map (store : Store) (serverId : Int) : store.contents serverId =
    ((store.listFolders serverId).map Folder.data).map FolderCreate.contents := by
  rw [List.map_map]
  rfl

/-- Folders that the validators leave as they are can be stored anew. -/
theorem storable_of_stable
    (hfolders : ((store.listFolders serverId).map Folder.data).mapM
      (FolderCreate.validate T.lower) = some folders)
    (hstable : ∀ folder ∈ store.listFolders serverId, folder.data.Stable T.lower) :
    ∀ data ∈ folders, data.Storable := by
  intro data hdata
  have hperm := (perm_validate_iff hfolders).mpr (List.forall_mem_map.mpr hstable)
  have hmem := hperm.subset (List.mem_map_of_mem hdata)
  obtain ⟨raw, hraw, hcontents⟩ := List.mem_map.mp hmem
  obtain ⟨folder, hfolder, rfl⟩ := List.mem_map.mp hraw
  refine storable_of_contents hcontents ?_
  exact store.constraints.storable (List.mem_of_mem_filter hfolder)

/-- Where the call comes to its write. -/
theorem check_eq_ok_iff {update : Update} : update.check store = .ok existing ↔
    store.requireServer update.serverId = .ok existing ∧
      requireUpdateSecret update.data existing = .ok () := by
  rw [Core.check_eq, Store.requireServer]
  rcases store.findServer update.serverId with error | _ | server
  · simp [bind, Except.bind]
  · simp [bind, Except.bind, throw, throwThe, MonadExceptOf.throw]
  · change _ ↔ Except.ok server = Except.ok existing ∧ _
    rw [Except.ok.injEq]
    constructor
    · intro h
      cases hrequire : requireUpdateSecret update.data server with
      | error error =>
          simp only [hrequire] at h
          cases h
      | ok =>
          simp only [hrequire] at h
          cases h
          exact ⟨rfl, hrequire⟩
    · rintro ⟨rfl, hrequire⟩
      simp only [hrequire]
      rfl

/-- The write of a core that has checked. -/
theorem apply_of_check {update : Update} {result : Except RepoError (Store × Server)}
    (hget : store.requireServer update.serverId = .ok existing)
    (hrequire : requireUpdateSecret update.data existing = .ok ())
    (h : update.repoWrite box nonce store = result) :
    update.apply box nonce store = result.mapError (update.error existing) := by
  rw [Update.apply, check_eq_ok_iff.mpr ⟨hget, hrequire⟩, ← h]
  rfl

theorem apply_of_check_error {update : Update} (h : update.check store = .error error) :
    update.apply box nonce store = .error error := by
  rw [Update.apply, h]
  rfl

section
variable (hget : site.store.requireServer serverId = .ok existing)
  (hrequire : requireUpdateSecret data existing = .ok ())
include hget hrequire

/-- The first commits: they agree if the folders are left as they are and the rebuilds return. -/
theorem agree_commit_iff (htoken : existing.newToken box nonce data = .ok token)
    (htoken' : existing.newToken box nonce' data = .ok token')
    (hdecrypt : token'.map box.decrypt = token.map box.decrypt)
    (hnonce : nonce = nonce' → token = token') (hbind : data.bindError = none)
    (hnull : data.NoNull) (htimeout : data.timeoutSeconds ≠ some (some .nan))
    (hfree : site.store.NameFree serverId data)
    (hfolders : ((site.store.listFolders serverId).map Folder.data).mapM
      (FolderCreate.validate T.lower) = some folders) :
    Agree box nonce nonce' serverId site
        (Core.after raised site (Update.apply ⟨serverId, data, none⟩ box nonce site.store))
        (Core.after raised' site
          (Update.apply ⟨serverId, data, some folders⟩ box nonce' site.store)) ↔
      (∀ folder ∈ site.store.listFolders serverId, folder.data.Stable T.lower) ∧
        raised = none ∧ raised' = none := by
  obtain ⟨store, hfirst, hrows⟩ := @exists_repoWrite box nonce site.store existing
    ⟨serverId, data, none⟩ token hget htoken hbind hnull htimeout hfree (List.forall_mem_nil _)
  rw [apply_of_check hget hrequire hfirst]
  by_cases hstorable : ∀ data ∈ folders, data.Storable
  · obtain ⟨store', hsecond, hrows'⟩ := @exists_repoWrite box nonce' site.store existing
      ⟨serverId, data, some folders⟩ token' hget htoken' hbind hnull htimeout hfree hstorable
    have hkept : store.contents serverId = site.store.contents serverId := by
      rw [Store.contents, Store.listFolders, hrows]
      rfl
    rw [apply_of_check hget hrequire hsecond]
    refine (agree_of_ok_iff (alike_written hdecrypt hnonce)).trans (and_congr_left' ?_)
    rw [Store.SameFolders, contents_replaceFolders hrows', hkept, contents_eq_map,
      perm_validate_iff hfolders, List.forall_mem_map]
  · -- the second fails at a folder that the validators have made unstorable
    cases hsecond : Update.repoWrite ⟨serverId, data, some folders⟩ box nonce' site.store with
    | ok result =>
        exact absurd (@storable_of_repoWrite _ _ _ _ ⟨serverId, data, some folders⟩ hget _ hsecond)
          hstorable
    | error error =>
        rw [apply_of_check hget hrequire hsecond]
        refine iff_of_false (fun hagree => ?_) fun h => ?_
        · have hanswers := hagree.answers
          cases raised <;> cases hanswers
        · exact hstorable (storable_of_stable hfolders h.1)

/-- The row is refused: one core lets the `IntegrityError` through, the other makes a conflict of
it. -/
theorem not_agree_conflict (htoken : existing.newToken box nonce data = .ok token)
    (htoken' : existing.newToken box nonce' data = .ok token') (hbind : data.bindError = none)
    (h : ¬(data.NoNull ∧ data.timeoutSeconds ≠ some (some .nan) ∧
      site.store.NameFree serverId data)) :
    ¬ Agree box nonce nonce' serverId site
        (Core.after raised site (Update.apply ⟨serverId, data, none⟩ box nonce site.store))
        (Core.after raised' site
          (Update.apply ⟨serverId, data, some folders⟩ box nonce' site.store)) := by
  have hfirst := @repoWrite_conflict box nonce site.store existing ⟨serverId, data, none⟩ token
    hget htoken hbind h
  have hsecond := @repoWrite_conflict box nonce' site.store existing ⟨serverId, data, some folders⟩
    token' hget htoken' hbind h
  rw [apply_of_check hget hrequire hfirst, apply_of_check hget hrequire hsecond]
  intro hagree
  cases hagree.answers

/-- Neither gets to its statement: both let the same exception through. -/
theorem agree_of_unwritten {error : RepoError} (hne : error ≠ .keyError ∧ error ≠ .integrityError)
    (hfirst : Update.repoWrite ⟨serverId, data, none⟩ box nonce site.store = .error error)
    (hsecond : Update.repoWrite ⟨serverId, data, some folders⟩ box nonce' site.store =
      .error error) :
    Agree box nonce nonce' serverId site
      (Core.after raised site (Update.apply ⟨serverId, data, none⟩ box nonce site.store))
      (Core.after raised' site
        (Update.apply ⟨serverId, data, some folders⟩ box nonce' site.store)) := by
  rw [apply_of_check hget hrequire hfirst, apply_of_check hget hrequire hsecond]
  cases error with
  | keyError => exact absurd rfl hne.1
  | integrityError => exact absurd rfl hne.2
  | encodeError | overflowError => exact agree_of_error _

end

/-- **The two update cores agree** exactly if every call that comes to its write sets no column to
null that must not be, nor the timeout to NaN, takes no other server's name, and finds folders that
`FolderCreate` leaves as they are, and if the rebuilds return. -/
theorem twins_agree_iff
    (hfolders : ((site.store.listFolders serverId).map Folder.data).mapM
      (FolderCreate.validate T.lower) = some folders)
    (hbox : ∀ plaintext, (box.encrypt nonce plaintext).isSome =
      (box.encrypt nonce' plaintext).isSome) :
    Agree box nonce nonce' serverId site
        ((Core.applyServerUpdate box nonce raised serverId data).run site)
        ((Core.applyServerUpdateWithFolders box nonce' raised' serverId data folders).run site) ↔
      (ComesToWrite box nonce site.store serverId data →
        Harmless T site.store serverId data raised raised') := by
  rw [Core.run_applyServerUpdate, Core.run_applyServerUpdateWithFolders]
  cases hcheck : Update.check ⟨serverId, data, none⟩ site.store with
  | error error =>
      have hcheck' : Update.check ⟨serverId, data, some folders⟩ site.store = .error error :=
        hcheck
      rw [apply_of_check_error hcheck, apply_of_check_error hcheck']
      refine iff_of_true (agree_of_error error) ?_
      rintro ⟨existing, _, hget, hrequire, -⟩
      cases hcheck.symm.trans (check_eq_ok_iff.mpr ⟨hget, hrequire⟩)
  | ok existing =>
      obtain ⟨hget, hrequire⟩ := check_eq_ok_iff.mp hcheck
      rcases newToken_cases existing data hbox with
        ⟨token, token', htoken, htoken', hdecrypt, hnonce⟩ | ⟨htoken, htoken'⟩
      · cases hbind : data.bindError with
        | some error =>
            refine iff_of_true (agree_of_unwritten hget hrequire (bindError_ne hbind)
              (@repoWrite_bind_error _ _ _ _ ⟨serverId, data, none⟩ _ hget _ htoken hbind)
              (@repoWrite_bind_error _ _ _ _ ⟨serverId, data, some folders⟩ _ hget _ htoken'
                hbind)) ?_
            rintro ⟨_, _, -, -, -, hnone⟩
            cases hbind.symm.trans hnone
        | none =>
            have hcomes : ComesToWrite box nonce site.store serverId data :=
              ⟨existing, token, hget, hrequire, htoken, hbind⟩
            rw [forall_prop_of_true hcomes]
            by_cases hrow : data.NoNull ∧ data.timeoutSeconds ≠ some (some .nan) ∧
                site.store.NameFree serverId data
            · obtain ⟨hnull, htimeout, hfree⟩ := hrow
              refine (agree_commit_iff hget hrequire htoken htoken' hdecrypt hnonce hbind hnull
                htimeout hfree hfolders).trans ?_
              constructor
              · rintro ⟨hstable, hreturn⟩
                exact ⟨hnull, htimeout, hfree, hstable, hreturn⟩
              · intro h
                exact ⟨h.stable, h.rebuilds⟩
            · refine iff_of_false (not_agree_conflict hget hrequire htoken htoken' hbind hrow)
                fun h => ?_
              exact hrow ⟨h.noNull, h.timeout, h.nameFree⟩
      · have herror : RepoError.encodeError ≠ .keyError ∧
            RepoError.encodeError ≠ .integrityError := by
          decide
        refine iff_of_true (agree_of_unwritten hget hrequire herror
          (@repoWrite_token_error _ _ _ _ ⟨serverId, data, none⟩ hget _ htoken)
          (@repoWrite_token_error _ _ _ _ ⟨serverId, data, some folders⟩ hget _ htoken')) ?_
        rintro ⟨row, _, hrow, -, hok, -⟩
        cases hget.symm.trans hrow
        cases htoken.symm.trans hok

end

/-- A new token, and the server is switched off. -/
def disable : ServerUpdate where
  enabled := some (some false)
  secret := some (some (str "new"))

theorem noNull_disable : disable.NoNull := by constructor <;> decide

theorem twins_agree_disable :
    Agree markBox 0 1 1 ⟨FolderRoutes.twoServers, 0⟩
      ((Core.applyServerUpdate markBox 0 none 1 disable).run ⟨FolderRoutes.twoServers, 0⟩)
      ((Core.applyServerUpdateWithFolders markBox 1 none 1 disable [tvFolder]).run
        ⟨FolderRoutes.twoServers, 0⟩) := by
  have hexpressed : ((FolderRoutes.twoServers.listFolders 1).map Folder.data).mapM
      (FolderCreate.validate CaseTable.ascii.lower) = some [tvFolder] := by decide +kernel
  refine (@twins_agree_iff CaseTable.ascii markBox 0 1 ⟨FolderRoutes.twoServers, 0⟩ 1 disable
    [tvFolder] none none hexpressed fun _ => rfl).mpr fun _ => ?_
  exact
    { noNull := noNull_disable
      timeout := by decide
      nameFree := by decide +kernel
      stable := by decide +kernel
      rebuilds := ⟨rfl, rfl⟩ }

/-- The second server is given the name of the first. -/
def rename : ServerUpdate where
  name := some (some (str "plex"))

theorem rename_differs :
    ((Core.applyServerUpdate markBox 0 none 2 rename).run ⟨FolderRoutes.twoServers, 0⟩).1 =
        .error (.core (.uncaught .integrityError)) ∧
      ((Core.applyServerUpdateWithFolders markBox 0 none 2 rename []).run
        ⟨FolderRoutes.twoServers, 0⟩).1 = .error (.core (.nameConflict (str "plex"))) ∧
      ((FolderRoutes.twoServers.listFolders 2).map Folder.data).mapM
        (FolderCreate.validate CaseTable.ascii.lower) = some [] ∧
      ¬ Agree markBox 0 0 2 ⟨FolderRoutes.twoServers, 0⟩
        ((Core.applyServerUpdate markBox 0 none 2 rename).run ⟨FolderRoutes.twoServers, 0⟩)
        ((Core.applyServerUpdateWithFolders markBox 0 none 2 rename []).run
          ⟨FolderRoutes.twoServers, 0⟩) := by
  have hfirst : ((Core.applyServerUpdate markBox 0 none 2 rename).run
      ⟨FolderRoutes.twoServers, 0⟩).1 = .error (.core (.uncaught .integrityError)) := by rfl
  have hsecond : ((Core.applyServerUpdateWithFolders markBox 0 none 2 rename []).run
      ⟨FolderRoutes.twoServers, 0⟩).1 = .error (.core (.nameConflict (str "plex"))) := by rfl
  refine ⟨hfirst, hsecond, by decide +kernel, fun hagree => ?_⟩
  have hanswers := hagree.answers
  rw [hfirst, hsecond] at hanswers
  cases hanswers

end MediaScanMonitor
