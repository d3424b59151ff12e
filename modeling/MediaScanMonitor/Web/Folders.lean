import MediaScanMonitor.Config.Readable
import MediaScanMonitor.Library.Lts

/-!
# Web — `web/api/folders.py` beside the other writers of folders

A `PATCH` or a `DELETE` of a folder looks for its server in one session, for the folder in another,
writes by the folder's id in a third, and rebuilds.  A whole-set replacement deletes by id what its
session has read before.  A new row gets the id after the highest one, so an id comes back.

* `owned_next`: the row a request is about to write is one of its server's.
* `own_folders_only`: no request touches a row of another server, or fails with anything but a 404.
-/

namespace MediaScanMonitor.FolderRoutes
open Py Lts

/-- Where a session of `update_server_with_folders` stands. -/
inductive SessionPhase where
  /-- It has read the server, and the ids of its folders. -/
  | loaded (read : List Int)
  | committed
  | failed (error : RepoError)
  deriving DecidableEq

structure Session where
  serverId : Int
  folders : List FolderCreate
  phase : SessionPhase
  deriving DecidableEq

inductive Method where
  | patch (data : FolderUpdate)
  | delete

inductive Answer where
  | ok
  /-- 404. -/
  | notFound (detail : Str)
  /-- What the route does not catch: 500. -/
  | uncaught (error : RepoError)
  /-- What `rebuild_engine` lets through: 500. -/
  | raised (exc : PyError)
  deriving DecidableEq

/-- What a request is answered after its rebuild. -/
def Answer.after : Option PyError → Answer
  | none => .ok
  | some exc => .raised exc

inductive RequestPhase where
  /-- Past `_require_server`. -/
  | serverFound
  /-- Past `_owned_folder`. -/
  | owned
  /-- Past the write of the core. -/
  | written
  | answered (answer : Answer)
  deriving DecidableEq

/-- `PATCH` or `DELETE /api/servers/{server_id}/folders/{folder_id}`. -/
structure Request where
  serverId : Int
  folderId : Int
  method : Method
  phase : RequestPhase

structure State where
  store : Store
  sessions : List Session
  requests : List Request

inductive Label where
  /-- `create_folder`. -/
  | create (serverId : Int) (data : FolderCreate)
  /-- A replacement reads; the fields of the server stay as they are. -/
  | load (serverId : Int) (folders : List FolderCreate)
  /-- Its flush and commit. -/
  | commit (k : Nat)
  /-- `_require_server`. -/
  | request (serverId folderId : Int) (method : Method)
  /-- `_owned_folder`. -/
  | own (k : Nat)
  /-- The write of `apply_folder_update` or `apply_folder_delete`. -/
  | write (k : Nat)
  /-- Its `rebuild_engine`, which returns or lets an exception through. -/
  | rebuild (k : Nat) (raised : Option PyError)

namespace State
variable (lower : Str → Str) (s : State)

def create (serverId : Int) (data : FolderCreate) : State :=
  match s.store.createFolder serverId data with
  | .ok (store, _) => { s with store }
  | .error _ => s

def load (serverId : Int) (folders : List FolderCreate) : State :=
  { s with sessions := s.sessions ++ [⟨serverId, folders,
      match s.store.requireServer serverId with
      | .error error => .failed error
      | .ok _ => .loaded (s.store.folderIdsOf serverId)⟩] }

def commit (k : Nat) : State :=
  match s.sessions[k]? with
  | some ⟨serverId, folders, .loaded read⟩ =>
    match s.store.commit s.store.servers (s.store.replaceFolders serverId read folders) with
    | .ok store =>
      { s with store, sessions := s.sessions.set k ⟨serverId, folders, .committed⟩ }
    | .error error =>
      { s with sessions := s.sessions.set k ⟨serverId, folders, .failed error⟩ }
  | _ => s

def request (serverId folderId : Int) (method : Method) : State :=
  { s with requests := s.requests ++ [⟨serverId, folderId, method,
      match s.store.findServer serverId with
      | .error error => .answered (.uncaught error)
      | .ok none => .answered (.notFound (str "server not found"))
      | .ok (some _) => .serverFound⟩] }

def own (k : Nat) : State :=
  match s.requests[k]? with
  | some ⟨serverId, folderId, method, .serverFound⟩ =>
    { s with requests := s.requests.set k ⟨serverId, folderId, method,
        match s.store.findFolder folderId with
        | .error error => .answered (.uncaught error)
        | .ok found =>
          if found.any (·.serverId = serverId) then .owned
          else .answered (.notFound (str "folder not found"))⟩ }
  | _ => s

/-- What the write of a request makes of the database. -/
def written (folderId : Int) : Method → Except RepoError Store
  | .patch data => (s.store.updateFolder lower folderId data).map Prod.fst
  | .delete => s.store.deleteFolder folderId

def write (k : Nat) : State :=
  match s.requests[k]? with
  | some ⟨serverId, folderId, method, .owned⟩ =>
    match s.written lower folderId method with
    | .ok store =>
      { s with store, requests := s.requests.set k ⟨serverId, folderId, method, .written⟩ }
    | .error error =>
      { s with requests := s.requests.set k ⟨serverId, folderId, method,
          .answered (.uncaught error)⟩ }
  | _ => s

def rebuild (k : Nat) (raised : Option PyError) : State :=
  match s.requests[k]? with
  | some ⟨serverId, folderId, method, .written⟩ =>
    { s with requests := s.requests.set k ⟨serverId, folderId, method,
        .answered (.after raised)⟩ }
  | _ => s

end State

def SessionPhase.isLoaded : SessionPhase → Bool
  | loaded _ => true
  | _ => false

def system (lower : Str → Str) : System State Label where
  enabled s
    | .create _ _ | .load _ _ | .request _ _ _ => True
    | .commit k => s.sessions[k]?.any (·.phase.isLoaded) = true
    | .own k => s.requests[k]?.any (·.phase = .serverFound) = true
    | .write k => s.requests[k]?.any (·.phase = .owned) = true
    | .rebuild k _ => s.requests[k]?.any (·.phase = .written) = true
  next s
    | .create serverId data => s.create serverId data
    | .load serverId folders => s.load serverId folders
    | .commit k => s.commit k
    | .request serverId folderId method => s.request serverId folderId method
    | .own k => s.own k
    | .write k => s.write lower k
    | .rebuild k raised => s.rebuild k raised

instance (lower : Str → Str) (s : State) : ∀ a, Decidable ((system lower).enabled s a)
  | .create .. | .load .. | .request .. => .isTrue trivial
  | .commit _ | .own _ | .write _ | .rebuild .. => inferInstanceAs (Decidable (_ = true))

/-- The server a step inserts rows for, and how many: none for a server that is not there, or of a
payload that cannot be stored. -/
def State.inserts (s : State) : Label → Option (Int × Nat)
  | .create serverId data =>
    if (s.store.getServer serverId).isSome ∧ intError serverId = none ∧ data.Storable then
      some (serverId, 1)
    else none
  | .commit k =>
    s.sessions[k]?.bind fun session =>
      if (s.store.getServer session.serverId).isSome ∧ ∀ data ∈ session.folders, data.Storable then
        some (session.serverId, session.folders.length)
      else none
  | _ => none

/-- The request whose write a step is. -/
def State.writer (s : State) : Label → Option Request
  | .write k => s.requests[k]?
  | _ => none

/-- A patch finds its row, and what it sets can be stored. -/
def Request.GoesThrough (lower : Str → Str) (store : Store) (r : Request) : Prop :=
  intError r.folderId = none ∧
    match r.method with
    | .patch data => (store.getFolder r.folderId).isSome ∧ data.Storable lower
    | .delete => True

instance (lower : Str → Str) (store : Store) : DecidablePred (Request.GoesThrough lower store)
  | ⟨_, _, .patch _, _⟩ => inferInstanceAs (Decidable (_ ∧ _ ∧ _))
  | ⟨_, _, .delete, _⟩ => inferInstanceAs (Decidable (_ ∧ True))

/-- A request comes with ids that SQLite has, and a rebuild returns. -/
def Undisturbed (s : State) : Label → Prop
  | .request serverId _ _ => intError serverId = none
  | .own k => ∀ r ∈ s.requests[k]?, intError r.folderId = none
  | .rebuild _ raised => raised = none
  | _ => True

instance (s : State) : DecidablePred (Undisturbed s)
  | .request .. => inferInstanceAs (Decidable (_ = _))
  | .own _ => inferInstanceAs (Decidable (∀ r ∈ (_ : Option Request), intError r.folderId = none))
  | .rebuild .. => inferInstanceAs (Decidable (_ = _))
  | .create .. | .load .. | .commit _ | .write _ => .isTrue trivial

/-- No step gives a row of another server the id a request past its check addresses; a request
that writes goes through; and nothing else raises. -/
structure Steady (lower : Str → Str) (s : State) (a : Label) : Prop where
  ids : ∀ rows ∈ s.inserts a, ∀ r ∈ s.requests, r.phase = .owned →
    nextId (s.store.folders.map Folder.id) ≤ r.folderId →
    r.folderId < nextId (s.store.folders.map Folder.id) + rows.2 → r.serverId = rows.1
  writes : ∀ r ∈ s.writer a, r.GoesThrough lower s.store
  undisturbed : Undisturbed s a

instance (lower : Str → Str) (s : State) (a : Label) : Decidable (Steady lower s a) :=
  decidable_of_iff ((∀ rows ∈ s.inserts a, ∀ r ∈ s.requests, r.phase = .owned →
      nextId (s.store.folders.map Folder.id) ≤ r.folderId →
      r.folderId < nextId (s.store.folders.map Folder.id) + rows.2 → r.serverId = rows.1) ∧
    (∀ r ∈ s.writer a, r.GoesThrough lower s.store) ∧ Undisturbed s a)
    ⟨fun ⟨hids, hwrites, hundisturbed⟩ => ⟨hids, hwrites, hundisturbed⟩,
      fun h => ⟨h.ids, h.writes, h.undisturbed⟩⟩

/-- The request is answered with an error that is not caught. -/
def RequestPhase.crashed : RequestPhase → Bool
  | .answered (.uncaught _) | .answered (.raised _) => true
  | _ => false

/-- A write leaves every row of another server; and no request is answered with an error that is
not caught. -/
structure Proper (lower : Str → Str) (s : State) (a : Label) : Prop where
  others : ∀ r ∈ s.writer a,
    ((system lower).next s a).store.folders.filter (·.serverId ≠ r.serverId) =
      s.store.folders.filter (·.serverId ≠ r.serverId)
  answers : ∀ r ∈ ((system lower).next s a).requests, r.phase.crashed = false

variable {lower : Str → Str} {s : State} {a : Label}

/-! ### What the steps do to the rows -/

/-- Each row of the new table has the id and the server of an old one, or is one of the `count`
new rows of `serverId`. -/
def Extends (store store' : Store) (serverId : Int) (count : Nat) : Prop :=
  ∀ row' ∈ store'.folders,
    (∃ row ∈ store.folders, row.id = row'.id ∧ row.serverId = row'.serverId) ∨
      row'.serverId = serverId ∧ nextId (store.folders.map Folder.id) ≤ row'.id ∧
        row'.id < nextId (store.folders.map Folder.id) + count

theorem Extends.refl (store : Store) (serverId : Int) (count : Nat) :
    Extends store store serverId count :=
  fun row' h => .inl ⟨row', h, rfl, rfl⟩

theorem extends_append {store store' : Store} {serverId : Int} {folders : List FolderCreate}
    {rows : List Folder} (hrows : ∀ row ∈ rows, row ∈ store.folders)
    (h : store'.folders = rows ++
      newFolders serverId (store.folders.map Folder.id) folders) :
    Extends store store' serverId folders.length := by
  intro row' hrow'
  rw [h] at hrow'
  rcases List.mem_append.mp hrow' with hold | hnew
  · exact .inl ⟨row', hrows row' hold, rfl, rfl⟩
  · exact .inr (of_mem_newFolders hnew)

theorem extends_create (serverId : Int) (data : FolderCreate) :
    ∃ i n, (s.inserts (.create serverId data) = some (i, n) ∨ n = 0) ∧
      Extends s.store (s.create serverId data).store i n := by
  rw [State.create]
  split
  · rename_i store' folder hok
    obtain ⟨hinserted, hfolders⟩ := Store.inserted_of_createFolder _ hok
    exact ⟨serverId, 1, .inl (if_pos hinserted), extends_append (fun _ h => h) hfolders⟩
  · exact ⟨serverId, 0, .inr rfl, .refl _ _ _⟩

theorem extends_commit (k : Nat) :
    ∃ i n, (s.inserts (.commit k) = some (i, n) ∨ n = 0) ∧
      Extends s.store (s.commit k).store i n := by
  rw [State.commit]
  split
  · rename_i serverId folders read hk
    split
    · rename_i store' hcommit
      obtain ⟨hservers, hfolders, -⟩ := Store.commit_eq_ok hcommit
      have hext : Extends s.store store' serverId folders.length :=
        extends_append (fun _ h => List.mem_of_mem_filter h) hfolders
      have hconstraints := store'.constraints
      rw [hfolders] at hconstraints
      have hstorable : ∀ data ∈ folders, data.Storable := hconstraints.storable_newFolders
      cases folders with
      | nil => exact ⟨serverId, 0, .inr rfl, hext⟩
      | cons data folders =>
          refine ⟨serverId, _, .inl ?_, hext⟩
          have hserver := hconstraints.foreignKey (data.row _ serverId)
            (List.mem_append_right _ List.mem_cons_self)
          rw [hservers] at hserver
          rw [State.inserts, hk]
          exact if_pos ⟨(Store.getServer_isSome _).mpr hserver, hstorable⟩
    · exact ⟨0, 0, .inr rfl, .refl _ _ _⟩
  · exact ⟨0, 0, .inr rfl, .refl _ _ _⟩

theorem filter_map_of_eq {α : Type} {xs : List α} {f : α → α} {p : α → Bool}
    (hp : ∀ x ∈ xs, p (f x) = p x) (hf : ∀ x ∈ xs, p x = true → f x = x) :
    (xs.map f).filter p = xs.filter p := by
  rw [List.filter_map, List.filter_congr (p := p ∘ f) (q := p) hp]
  refine (List.map_congr_left fun x hx => ?_).trans (List.map_id _)
  exact hf x (List.mem_of_mem_filter hx) (List.mem_filter.mp hx).2

/-- What a request makes of the rows: all keep their ids and servers, and those of a server whose
rows it does not address stay as they are. -/
theorem folders_written (serverId : Int) {folderId : Int} {method : Method} {store' : Store}
    (h : s.written lower folderId method = .ok store') :
    Extends s.store store' 0 0 ∧
      ((∀ row ∈ s.store.folders, row.id = folderId → row.serverId = serverId) →
        store'.folders.filter (·.serverId ≠ serverId) =
          s.store.folders.filter (·.serverId ≠ serverId)) := by
  cases method with
  | patch data =>
      obtain ⟨folder', hpatch⟩ := Store.map_fst_eq_ok h
      obtain ⟨folder, hget, hupdate, -, hfolders⟩ := Store.updateFolder_eq_ok hpatch
      obtain ⟨hmem, hid⟩ := Store.getFolder_eq_some hget
      obtain ⟨hid', hserver'⟩ := (Folder.update_eq_ok hupdate).1
      rw [Store.putFolder, hid'] at hfolders
      constructor
      · intro row' hrow'
        rw [hfolders] at hrow'
        obtain ⟨row, hrow, rfl⟩ := List.mem_map.mp hrow'
        refine .inl ⟨row, hrow, ?_, ?_⟩
        · split <;> simp_all
        · split
          case isTrue heq => rw [Store.folder_ext hrow hmem heq, hserver']
          case isFalse => rfl
      · intro hown
        rw [hfolders]
        refine filter_map_of_eq ?_ ?_
        · intro row hrow
          split
          case isTrue heq => rw [Store.folder_ext hrow hmem heq, hserver']
          case isFalse => rfl
        · intro row hrow hother
          split
          case isTrue heq => simp [hown row hrow (heq.trans hid)] at hother
          case isFalse => rfl
  | delete =>
      obtain ⟨-, hcommit⟩ := (s.store.deleteFolder_eq_ok).mp h
      obtain ⟨-, hfolders, -⟩ := Store.commit_eq_ok hcommit
      constructor
      · intro row' hrow'
        rw [hfolders] at hrow'
        exact .inl ⟨row', List.mem_of_mem_filter hrow', rfl, rfl⟩
      · intro hown
        rw [hfolders, List.filter_filter]
        refine List.filter_congr fun row hrow => ?_
        by_cases hid : row.id = folderId
        · simp [hown row hrow hid]
        · simp [hid]

/-! ### What the steps do to the requests -/

/-- The row a request past its check addresses, if there is one, is of its server. -/
def Owned (s : State) : Prop :=
  ∀ r ∈ s.requests, r.phase = .owned → ∀ row ∈ s.store.folders, row.id = r.folderId →
    row.serverId = r.serverId

def Caught (s : State) : Prop := ∀ r ∈ s.requests, r.phase.crashed = false

/-- A step's rows, all but the new ones it inserts, are old ones. -/
theorem extends_next (lower : Str → Str) (s : State) (a : Label) :
    ∃ i n, (s.inserts a = some (i, n) ∨ n = 0) ∧
      Extends s.store ((system lower).next s a).store i n := by
  cases a with
  | create serverId data => exact extends_create serverId data
  | commit k => exact extends_commit k
  | load | request => exact ⟨0, 0, .inr rfl, .refl _ _ _⟩
  | own k =>
      refine ⟨0, 0, .inr rfl, ?_⟩
      change Extends s.store (s.own k).store 0 0
      rw [State.own]
      split <;> exact .refl _ _ _
  | rebuild k raised =>
      refine ⟨0, 0, .inr rfl, ?_⟩
      change Extends s.store (s.rebuild k raised).store 0 0
      rw [State.rebuild]
      split <;> exact .refl _ _ _
  | write k =>
      refine ⟨0, 0, .inr rfl, ?_⟩
      change Extends s.store (s.write lower k).store 0 0
      rw [State.write]
      split
      · split
        · rename_i store' hok
          exact (folders_written 0 hok).1
        · exact .refl _ _ _
      · exact .refl _ _ _

@[simp] theorem requests_create (serverId : Int) (data : FolderCreate) :
    (s.create serverId data).requests = s.requests := by
  rw [State.create]
  split <;> rfl

@[simp] theorem requests_commit (k : Nat) : (s.commit k).requests = s.requests := by
  rw [State.commit]
  split
  · split <;> rfl
  · rfl

/-- A request past its check was so before, or has just found its row. -/
theorem of_owned_next {r : Request} (hr : r ∈ ((system lower).next s a).requests)
    (hphase : r.phase = .owned) :
    r ∈ s.requests ∨ ((system lower).next s a).store = s.store ∧
      ∃ folder, s.store.getFolder r.folderId = some folder ∧ folder.serverId = r.serverId := by
  cases a with
  | create serverId data => exact .inl (requests_create serverId data ▸ hr)
  | commit k => exact .inl (requests_commit k ▸ hr)
  | load serverId folders => exact .inl hr
  | request serverId folderId method =>
      rcases List.mem_append.mp hr with hr | hr
      · exact .inl hr
      · obtain rfl := List.mem_singleton.mp hr
        dsimp only at hphase
        split at hphase <;> cases hphase
  | own k =>
      change r ∈ (s.own k).requests at hr
      change _ ∨ (s.own k).store = s.store ∧ _
      rw [State.own] at hr ⊢
      split at hr
      · rename_i serverId folderId method hk
        rcases List.mem_or_eq_of_mem_set hr with hr | rfl
        · exact .inl hr
        · dsimp only at hphase
          split at hphase
          · cases hphase
          · rename_i found hfind
            split at hphase
            · rename_i hany
              obtain ⟨folder, hget, hserver⟩ := (Option.any_eq_true _ _).mp hany
              have hfound := (s.store.findFolder_eq_ok).mp hfind
              exact .inr ⟨rfl, folder, hfound.2.trans hget, of_decide_eq_true hserver⟩
            · cases hphase
      · exact .inl hr
  | rebuild k raised =>
      change r ∈ (s.rebuild k raised).requests at hr
      rw [State.rebuild] at hr
      split at hr
      · rcases List.mem_or_eq_of_mem_set hr with hr | rfl
        · exact .inl hr
        · cases hphase
      · exact .inl hr
  | write k =>
      change r ∈ (s.write lower k).requests at hr
      rw [State.write] at hr
      split at hr
      · split at hr
        all_goals
          rcases List.mem_or_eq_of_mem_set hr with hr | rfl
          · exact .inl hr
          · cases hphase
      · exact .inl hr

theorem owned_next (h : Owned s) (hsteady : Steady lower s a) :
    Owned ((system lower).next s a) := by
  intro r hr hphase row' hrow' hid
  rcases of_owned_next hr hphase with hr | ⟨hstore, folder, hget, hserver⟩
  · obtain ⟨i, n, hinserts, hext⟩ := extends_next lower s a
    rcases hext row' hrow' with ⟨row, hrow, hid', hserver⟩ | ⟨hserver, hle, hlt⟩
    · rw [← hserver]
      exact h r hr hphase row hrow (hid'.trans hid)
    · rcases hinserts with hinserts | rfl
      · rw [hserver, hsteady.ids (i, n) hinserts r hr hphase (hid ▸ hle) (hid ▸ hlt)]
      · omega
  · rw [hstore] at hrow'
    obtain ⟨hmem, hid'⟩ := Store.getFolder_eq_some hget
    rw [Store.folder_ext hrow' hmem (hid.trans hid'.symm)]
    exact hserver

/-- A request that goes through writes, and the other way round. -/
theorem goesThrough_iff {serverId folderId : Int} {method : Method} {phase : RequestPhase} :
    Request.GoesThrough lower s.store ⟨serverId, folderId, method, phase⟩ ↔
      ∃ store', s.written lower folderId method = .ok store' := by
  cases method with
  | patch data =>
      constructor
      · rintro ⟨hid, hsome, hdata⟩
        obtain ⟨folder, hget⟩ := Option.isSome_iff_exists.mp hsome
        obtain ⟨store', folder', hok⟩ := Store.exists_updateFolder hid hget hdata
        exact ⟨store', by rw [State.written, hok]; rfl⟩
      · rintro ⟨store', hok⟩
        obtain ⟨folder', hpatch⟩ := Store.map_fst_eq_ok hok
        obtain ⟨hid, hsome, hdata⟩ := Store.storable_of_updateFolder hpatch
        exact ⟨hid, hsome, hdata⟩
  | delete =>
      constructor
      · rintro ⟨hid, -⟩
        exact s.store.exists_deleteFolder hid
      · rintro ⟨store', hok⟩
        exact ⟨((s.store.deleteFolder_eq_ok).mp hok).1, trivial⟩

theorem caught_next (h : Caught s) (hsteady : Steady lower s a) :
    Caught ((system lower).next s a) := by
  intro r hr
  cases a with
  | create serverId data => exact h r (requests_create serverId data ▸ hr)
  | commit k => exact h r (requests_commit k ▸ hr)
  | load serverId folders => exact h r hr
  | request serverId folderId method =>
      rcases List.mem_append.mp hr with hr | hr
      · exact h r hr
      · obtain rfl := List.mem_singleton.mp hr
        rw [s.store.findServer_eq hsteady.undisturbed]
        cases s.store.getServer serverId <;> rfl
  | own k =>
      change r ∈ (s.own k).requests at hr
      rw [State.own] at hr
      split at hr
      · rename_i serverId folderId method hk
        rcases List.mem_or_eq_of_mem_set hr with hr | rfl
        · exact h r hr
        · rw [s.store.findFolder_eq (hsteady.undisturbed _ hk)]
          dsimp only
          split <;> rfl
      · exact h r hr
  | write k =>
      change r ∈ (s.write lower k).requests at hr
      rw [State.write] at hr
      split at hr
      · rename_i serverId folderId method hk
        obtain ⟨store', hok⟩ := goesThrough_iff.mp (hsteady.writes _ hk)
        rw [hok] at hr
        rcases List.mem_or_eq_of_mem_set hr with hr | rfl
        · exact h r hr
        · rfl
      · exact h r hr
  | rebuild k raised =>
      obtain rfl : raised = none := hsteady.undisturbed
      change r ∈ (s.rebuild k none).requests at hr
      rw [State.rebuild] at hr
      split at hr
      · rcases List.mem_or_eq_of_mem_set hr with hr | rfl
        · exact h r hr
        · rfl
      · exact h r hr

theorem others_next (h : Owned s) {k : Nat} {r : Request} (hk : s.requests[k]? = some r) :
    (s.write lower k).store.folders.filter (·.serverId ≠ r.serverId) =
      s.store.folders.filter (·.serverId ≠ r.serverId) := by
  rw [State.write]
  split
  · rename_i serverId folderId method hk'
    cases hk.symm.trans hk'
    split
    · rename_i store' hok
      exact (folders_written _ hok).2 fun row hrow hid =>
        h _ (List.mem_of_getElem? hk) rfl row hrow hid
    · rfl
  · rfl

/-- As long as ids do not come back under a request, and nothing it does raises, it touches no row
of another server, and it succeeds or is answered with a 404. -/
theorem own_folders_only {store : Store} {l : List Label}
    (h : Run (system lower) (Steady lower) ⟨store, [], []⟩ l s) :
    Run (system lower) (Proper lower) ⟨store, [], []⟩ l s := by
  refine h.strengthen (I := fun s => Owned s ∧ Caught s) ⟨?_, ?_⟩ ?_ ?_
  · intro r hr
    cases hr
  · intro r hr
    cases hr
  · intro s a hs _ hsteady
    exact ⟨owned_next hs.1 hsteady, caught_next hs.2 hsteady⟩
  · intro s a hs _ hsteady
    refine ⟨?_, caught_next hs.2 hsteady⟩
    intro r hr
    cases a with
    | write k => exact others_next hs.1 hr
    | _ => cases hr

/-! ### What an unsteady step leads to -/

/-- The ids a step has for its new rows are all given out. -/
theorem exists_inserted {rows : Int × Nat} (hen : (system lower).enabled s a)
    (hrows : rows ∈ s.inserts a) {i : Int} (hle : nextId (s.store.folders.map Folder.id) ≤ i)
    (hlt : i < nextId (s.store.folders.map Folder.id) + rows.2) :
    ∃ row ∈ ((system lower).next s a).store.folders, row.id = i ∧ row.serverId = rows.1 := by
  have hgiven : ∀ serverId folders, rows = (serverId, List.length folders) →
      ∃ row ∈ newFolders serverId (s.store.folders.map Folder.id) folders,
        row.id = i ∧ row.serverId = rows.1 := by
    rintro serverId folders rfl
    obtain ⟨row, hrow, hid⟩ := exists_mem_newFolders serverId hle hlt
    exact ⟨row, hrow, hid, (of_mem_newFolders hrow).1⟩
  cases a with
  | create serverId data =>
      obtain ⟨⟨hserver, hid, hdata⟩, heq⟩ := Option.ite_none_right_eq_some.mp hrows
      cases heq
      obtain ⟨store', folder, hok, hfolders⟩ := s.store.exists_createFolder hserver hid hdata
      obtain ⟨row, hrow, hspec⟩ := hgiven serverId [data] rfl
      refine ⟨row, ?_, hspec⟩
      change row ∈ (s.create serverId data).store.folders
      rw [State.create, hok]
      exact hfolders ▸ List.mem_append_right _ hrow
  | commit k =>
      obtain ⟨⟨serverId, folders, phase⟩, hk, hsession⟩ := Option.bind_eq_some_iff.mp hrows
      obtain ⟨⟨hserver, hstorable⟩, heq⟩ := Option.ite_none_right_eq_some.mp hsession
      cases heq
      change s.sessions[k]?.any _ = true at hen
      rw [hk] at hen
      cases phase with
      | loaded read =>
          obtain ⟨store', hok, -, hfolders⟩ :=
            s.store.exists_replaceFolders hserver read hstorable
          obtain ⟨row, hrow, hspec⟩ := hgiven serverId folders rfl
          refine ⟨row, ?_, hspec⟩
          change row ∈ (s.commit k).store.folders
          simp only [State.commit, hk, hok, hfolders]
          exact List.mem_append_right _ hrow
      | committed | failed => cases hen
  | load | request | own | write | rebuild => cases hrows

/-- An id that comes back under a request leaves it before a row of another server. -/
theorem not_owned_of_ids {rows : Int × Nat} (hen : (system lower).enabled s a)
    (hrows : rows ∈ s.inserts a) {r : Request} (hr : r ∈ s.requests) (hphase : r.phase = .owned)
    (hle : nextId (s.store.folders.map Folder.id) ≤ r.folderId)
    (hlt : r.folderId < nextId (s.store.folders.map Folder.id) + rows.2)
    (hne : r.serverId ≠ rows.1) : ¬ Owned ((system lower).next s a) := by
  intro howned
  have hr' : r ∈ ((system lower).next s a).requests := by
    cases a with
    | create serverId data => exact (requests_create serverId data).symm ▸ hr
    | commit k => exact (requests_commit k).symm ▸ hr
    | load | request | own | write | rebuild => cases hrows
  obtain ⟨row, hrow, hid, hserver⟩ := exists_inserted hen hrows hle hlt
  exact hne ((howned r hr' hphase row hrow hid).symm.trans hserver)

/-- A `DELETE` that stands before a row of another server deletes it. -/
theorem not_proper_of_delete {k : Nat} {r : Request} (hk : s.requests[k]? = some r)
    (hphase : r.phase = .owned) (hmethod : r.method = .delete) (hid : intError r.folderId = none)
    {row : Folder} (hrow : row ∈ s.store.folders) (heq : row.id = r.folderId)
    (hne : row.serverId ≠ r.serverId) : ¬ Proper lower s (.write k) := by
  intro h
  obtain ⟨serverId, folderId, method, phase⟩ := r
  cases hphase
  cases hmethod
  obtain ⟨store', hok⟩ := s.store.exists_deleteFolder hid
  obtain ⟨-, hfolders, -⟩ := Store.commit_eq_ok ((s.store.deleteFolder_eq_ok).mp hok).2
  have hothers := h.others _ hk
  change (s.write lower k).store.folders.filter _ = _ at hothers
  simp only [State.write, hk, State.written, hok, hfolders] at hothers
  have hmem : row ∈ s.store.folders.filter (·.serverId ≠ serverId) :=
    List.mem_filter.mpr ⟨hrow, decide_eq_true hne⟩
  rw [← hothers] at hmem
  have := (List.mem_filter.mp (List.mem_of_mem_filter hmem)).2
  simp [heq] at this

/-- A write that does not go through is answered with an error. -/
theorem not_proper_of_not_goesThrough {k : Nat} {r : Request} (hk : s.requests[k]? = some r)
    (hphase : r.phase = .owned) (h : ¬ r.GoesThrough lower s.store) :
    ¬ Proper lower s (.write k) := by
  intro hproper
  obtain ⟨serverId, folderId, method, phase⟩ := r
  cases hphase
  have hlt := (List.getElem?_eq_some_iff.mp hk).1
  cases hwritten : s.written lower folderId method with
  | error error =>
      have hanswers := hproper.answers
      change ∀ r ∈ (s.write lower k).requests, _ at hanswers
      simp only [State.write, hk, hwritten] at hanswers
      cases hanswers _ (List.mem_set hlt _)
  | ok store' => exact h (goesThrough_iff.mpr ⟨store', hwritten⟩)

/-- An id that SQLite does not have, or a rebuild that raises, is answered with an error. -/
theorem not_proper_of_disturbed (hen : (system lower).enabled s a) (h : ¬ Undisturbed s a) :
    ¬ Proper lower s a := by
  intro hproper
  have hanswers := hproper.answers
  cases a with
  | create | load | commit | write => exact h trivial
  | request serverId folderId method =>
      obtain ⟨error, herror⟩ := Option.ne_none_iff_exists'.mp h
      have hnew := hanswers _ (List.mem_append_right _ (List.mem_singleton_self _))
      rw [s.store.findServer_error herror] at hnew
      cases hnew
  | own k =>
      obtain ⟨⟨serverId, folderId, method, phase⟩, hk, hphase⟩ := (Option.any_eq_true _ _).mp hen
      obtain rfl : phase = .serverFound := of_decide_eq_true hphase
      have hlt := (List.getElem?_eq_some_iff.mp hk).1
      refine h fun r hr => ?_
      cases hk.symm.trans hr
      by_contra hid
      obtain ⟨error, herror⟩ := Option.ne_none_iff_exists'.mp hid
      change ∀ r ∈ (s.own k).requests, _ at hanswers
      simp only [State.own, hk, s.store.findFolder_error herror] at hanswers
      cases hanswers _ (List.mem_set hlt _)
  | rebuild k raised =>
      obtain ⟨⟨serverId, folderId, method, phase⟩, hk, hphase⟩ := (Option.any_eq_true _ _).mp hen
      obtain rfl : phase = .written := of_decide_eq_true hphase
      have hlt := (List.getElem?_eq_some_iff.mp hk).1
      obtain ⟨exc, rfl⟩ := Option.ne_none_iff_exists'.mp h
      change ∀ r ∈ (s.rebuild k (some exc)).requests, _ at hanswers
      simp only [State.rebuild, hk] at hanswers
      cases hanswers _ (List.mem_set hlt _)

/-- A step that is not steady is not proper, or brings a request before a row of another server. -/
theorem unsteady_goes_wrong (hen : (system lower).enabled s a) (h : ¬ Steady lower s a) :
    ¬ Proper lower s a ∨ ¬ Owned ((system lower).next s a) := by
  by_contra hno
  obtain ⟨hproper, howned⟩ := not_or.mp hno
  rw [not_not] at hproper howned
  refine h ⟨?_, ?_, ?_⟩
  · intro rows hrows r hr hphase hle hlt
    by_contra hne
    exact not_owned_of_ids hen hrows hr hphase hle hlt hne howned
  · intro r hr
    cases a with
    | write k =>
        change s.requests[k]? = some r at hr
        change s.requests[k]?.any _ = true at hen
        rw [hr] at hen
        by_contra hgoes
        exact not_proper_of_not_goesThrough hr (of_decide_eq_true hen) hgoes hproper
    | create | load | commit | request | own | rebuild => cases hr
  · by_contra hdisturbed
    exact not_proper_of_disturbed hen hdisturbed hproper

/-- Two servers; the first has a folder. -/
def twoServers : Store :=
  storeAfter [.serverCreateWithFolders 0 plexServer [tvFolder], .serverCreate 0 webhookServer]

/-- A folder is created, for another server, while a patch is past its check. -/
def patchDuringCreate : List Label :=
  [.request 1 1 (.patch { enabled := some (some false) }), .own 0, .create 2 filmFolder, .write 0,
    .rebuild 0 none]

theorem own_folders_only_create :
    Run (system asciiLower) (Proper asciiLower) ⟨twoServers, [], []⟩ patchDuringCreate
      (patchDuringCreate.foldl (system asciiLower).next ⟨twoServers, [], []⟩) :=
  own_folders_only (run_of_exec (by decide +kernel))

/-- The folder is deleted under a patch, and its id comes back at the other server. -/
def reuseUnderPatch : List Label :=
  [.request 1 1 (.patch { enabled := some (some false) }), .own 0, .request 1 1 .delete, .own 1,
    .write 1, .create 2 filmFolder]

theorem patch_hits_another_server :
    ∃ s, Run (system asciiLower) free ⟨twoServers, [], []⟩ reuseUnderPatch s ∧
      (system asciiLower).enabled s (.write 0) ∧ ¬ Proper asciiLower s (.write 0) :=
  ⟨_, run_of_exec (by decide +kernel), by decide +kernel,
    fun h => absurd (h.others _ rfl) (by decide +kernel)⟩

end MediaScanMonitor.FolderRoutes
