import MediaScanMonitor.Web.Folders

/-!
# Web — whole-set replacements side by side

`update_server_with_folders` on one server, by calls that leave its own fields as they are.

* `replace_alone`: a call with nobody in between is the method of the repository.
* `contents_commit`: a commit leaves what its session had not read, and its own list.
* `last_list_iff`: the folders end as the list of the last call exactly if it has read every row.
* `serialized_iff`: they end as the list of some call also by coincidence.
-/

namespace MediaScanMonitor.FolderRoutes
open Py Lts

/-- The folders of a server, as a payload would list them. -/
def contents (store : Store) (serverId : Int) : List FolderCreate :=
  (store.listFolders serverId).map Folder.data

/-- Nothing but replacements of the folders of one server. -/
def OnlyReplaces (serverId : Int) (_ : State) : Label → Prop
  | .load i _ => i = serverId
  | .commit _ => True
  | _ => False

instance (serverId : Int) (s : State) : ∀ a, Decidable (OnlyReplaces serverId s a)
  | .load i _ => inferInstanceAs (Decidable (i = serverId))
  | .commit _ => .isTrue trivial
  | .create .. | .request .. | .own _ | .write _ | .rebuild .. => .isFalse id

/-- The rows of the server a session has not read. -/
def unread (store : Store) (serverId : Int) (read : List Int) : List Folder :=
  (store.listFolders serverId).filter (·.id ∉ read)

variable {lower : Str → Str} {s : State} {l : List Label} {store store' : Store} {serverId : Int}

/-! ### One call -/

theorem replace_alone {box : SecretBox} {nonce : Nat} {data : ServerUpdate}
    {server server' : Server} {folders : List FolderCreate}
    (hget : store.getServer serverId = some server)
    (hdata : server.update box nonce data = .ok server)
    (h : store.updateServerWithFolders box nonce serverId data folders = .ok (store', server')) :
    Run (system lower) (OnlyReplaces serverId) ⟨store, [], []⟩ [.load serverId folders, .commit 0]
      ⟨store', [⟨serverId, folders, .committed⟩], []⟩ := by
  simp only [Store.updateServerWithFolders, bind_eq_ok] at h
  obtain ⟨found, hfound, _, hserver, _, hcommit, hpure⟩ := h
  cases (((store.requireServer_eq_ok).mp hfound).2).symm.trans hget
  cases hdata.symm.trans hserver
  cases hpure
  rw [store.putServer_self (Store.getServer_eq_some hget).1] at hcommit
  have hload : (system lower).next ⟨store, [], []⟩ (.load serverId folders) =
      ⟨store, [⟨serverId, folders, .loaded (store.folderIdsOf serverId)⟩], []⟩ := by
    simp [system, State.load, hfound]
  have hnext : (system lower).next
      ⟨store, [⟨serverId, folders, .loaded (store.folderIdsOf serverId)⟩], []⟩ (.commit 0) =
      ⟨store', [⟨serverId, folders, .committed⟩], []⟩ := by
    simp [system, State.commit, hcommit]
  refine .cons trivial rfl ?_
  rw [hload, ← hnext]
  exact .one rfl trivial

/-- What a commit leaves of the server's folders. -/
theorem contents_commit {k : Nat} {folders : List FolderCreate} {read : List Int}
    (hk : s.sessions[k]? = some ⟨serverId, folders, .loaded read⟩)
    (hok : s.store.commit s.store.servers (s.store.replaceFolders serverId read folders) =
      .ok store') :
    contents (s.commit k).store serverId =
      (unread s.store serverId read).map Folder.data ++ folders := by
  have hstore : (s.commit k).store = store' := by
    simp [State.commit, hk, hok]
  have hfolders := (Store.commit_eq_ok hok).2.1
  have hnew : (newFolders serverId (s.store.folders.map Folder.id) folders).filter
      (·.serverId = serverId) = newFolders serverId (s.store.folders.map Folder.id) folders :=
    List.filter_eq_self.mpr fun row hrow => decide_eq_true (of_mem_newFolders hrow).1
  rw [hstore, contents, Store.listFolders, hfolders, Store.replaceFolders, List.filter_append, hnew,
    List.map_append, data_newFolders, unread, Store.listFolders, List.filter_comm]

/-- A call goes on with its list. -/
theorem lists_commit (k : Nat) :
    (s.commit k).sessions.map Session.folders = s.sessions.map Session.folders := by
  rw [State.commit]
  split
  · rename_i serverId folders read hk
    have hset (phase : SessionPhase) :
        (s.sessions.set k ⟨serverId, folders, phase⟩).map Session.folders =
          s.sessions.map Session.folders := by
      obtain ⟨hlt, hget⟩ := List.getElem?_eq_some_iff.mp hk
      have hlt' : k < (s.sessions.map Session.folders).length := by rwa [List.length_map]
      have hown : folders = (s.sessions.map Session.folders)[k] := by rw [List.getElem_map, hget]
      rw [List.map_set]
      dsimp only
      rw [hown, List.set_getElem_self hlt']
    split
    · exact hset _
    · exact hset _
  · rfl

/-! ### Any number of calls -/

structure Replacing (serverId : Int) (s : State) : Prop where
  server : (s.store.getServer serverId).isSome
  sessions : ∀ session ∈ s.sessions, session.serverId = serverId

/-- The folders of the server are the list of one call, in some order. -/
def Serialized (serverId : Int) (s : State) : Prop :=
  ∃ folders ∈ s.sessions.map Session.folders, (contents s.store serverId).Perm folders

instance (serverId : Int) (s : State) : Decidable (Serialized serverId s) :=
  inferInstanceAs (Decidable (∃ folders ∈ s.sessions.map Session.folders,
    (contents s.store serverId).Perm folders))

/-- What the session commits on has no row it has not read; or those rows and its own list happen
to make the list of some call. -/
def LeavesOneList (serverId : Int) (s : State) (k : Nat) : Prop :=
  ∃ own read, s.sessions[k]? = some ⟨serverId, own, .loaded read⟩ ∧
    (unread s.store serverId read = [] ∨
      ∃ folders ∈ s.sessions.map Session.folders,
        ((unread s.store serverId read).map Folder.data ++ own).Perm folders)

theorem replacing_next {a : Label} (h : Replacing serverId s) (hen : (system lower).enabled s a)
    (ha : OnlyReplaces serverId s a) : Replacing serverId ((system lower).next s a) := by
  cases a with
  | load i folders =>
      obtain rfl : i = serverId := ha
      refine ⟨h.server, fun session hsession => ?_⟩
      rcases List.mem_append.mp hsession with hold | hnew
      · exact h.sessions session hold
      · obtain rfl := List.mem_singleton.mp hnew
        rfl
  | commit k =>
      change Replacing serverId (s.commit k)
      rw [State.commit]
      split
      · rename_i i folders read hk
        obtain rfl : i = serverId := h.sessions _ (List.mem_of_getElem? hk)
        have hset (phase : SessionPhase) :
            ∀ session ∈ s.sessions.set k ⟨i, folders, phase⟩, session.serverId = i := by
          intro session hsession
          rcases List.mem_or_eq_of_mem_set hsession with hold | rfl
          · exact h.sessions session hold
          · rfl
        split
        · rename_i store' hok
          refine ⟨?_, hset _⟩
          rw [Store.getServer, (Store.commit_eq_ok hok).1]
          exact h.server
        · exact ⟨h.server, hset _⟩
      · exact h
  | create | request | own | write | rebuild => cases ha

/-- A run in which all calls have returned ends with the commit of one of them. -/
theorem exists_last_commit (hserver : (store.getServer serverId).isSome)
    (h : Run (system lower) (OnlyReplaces serverId) ⟨store, [], []⟩ l s)
    (hdone : ∀ session ∈ s.sessions, session.phase = .committed) (hne : s.sessions ≠ []) :
    ∃ l₁ s₁ k own read store', l = l₁ ++ [.commit k] ∧
      Run (system lower) (OnlyReplaces serverId) ⟨store, [], []⟩ l₁ s₁ ∧ s = s₁.commit k ∧
      s₁.sessions[k]? = some ⟨serverId, own, .loaded read⟩ ∧
      s₁.store.commit s₁.store.servers (s₁.store.replaceFolders serverId read own) =
        .ok store' := by
  have hreplacing : ∀ {l s}, Run (system lower) (OnlyReplaces serverId) ⟨store, [], []⟩ l s →
      Replacing serverId s := by
    intro l s h
    refine h.invariant ⟨hserver, ?_⟩ fun s a hs hen ha => replacing_next hs hen ha
    intro session hsession
    cases hsession
  cases h with
  | nil => exact absurd rfl hne
  | @snoc l₁ s₁ a h₁ hen ha =>
      cases a with
      | commit k =>
          obtain ⟨⟨i, own, phase⟩, hk, hloaded⟩ := (Option.any_eq_true _ _).mp hen
          obtain rfl : i = serverId := (hreplacing h₁).sessions _ (List.mem_of_getElem? hk)
          cases phase with
          | committed | failed => cases hloaded
          | loaded read =>
              cases hok : s₁.store.commit s₁.store.servers
                  (s₁.store.replaceFolders i read own) with
              | ok store' => exact ⟨l₁, s₁, k, own, read, store', rfl, h₁, rfl, hk, hok⟩
              | error error =>
                  -- the call would have failed
                  change ∀ session ∈ (s₁.commit k).sessions, _ at hdone
                  simp only [State.commit, hk, hok] at hdone
                  have hlt := (List.getElem?_eq_some_iff.mp hk).1
                  cases hdone _ (List.mem_set hlt _)
      | load i folders =>
          have hlast := hdone _ (List.mem_append_right _ (List.mem_singleton_self _))
          dsimp only at hlast
          split at hlast <;> cases hlast
      | create | request | own | write | rebuild => cases ha

/-- **The folders are the list of the call that commits last** exactly if its session has read
every row there is then. -/
theorem last_list_iff (hserver : (store.getServer serverId).isSome)
    (h : Run (system lower) (OnlyReplaces serverId) ⟨store, [], []⟩ l s)
    (hdone : ∀ session ∈ s.sessions, session.phase = .committed) (hne : s.sessions ≠ []) :
    ∃ l₁ s₁ k own read, l = l₁ ++ [.commit k] ∧
      Run (system lower) (OnlyReplaces serverId) ⟨store, [], []⟩ l₁ s₁ ∧
      s₁.sessions[k]? = some ⟨serverId, own, .loaded read⟩ ∧
      ((contents s.store serverId).Perm own ↔ unread s₁.store serverId read = []) := by
  obtain ⟨l₁, s₁, k, own, read, store', hl, h₁, rfl, hk, hok⟩ :=
    exists_last_commit hserver h hdone hne
  refine ⟨l₁, s₁, k, own, read, hl, h₁, hk, ?_⟩
  rw [contents_commit hk hok]
  constructor
  · intro hperm
    have hlength := hperm.length_eq
    rw [List.length_append, List.length_map] at hlength
    exact List.eq_nil_of_length_eq_zero (by omega)
  · intro hclean
    rw [hclean]
    exact .refl _

/-- Every run in which all calls have returned ends with a commit; the folders are then the list of
one call exactly if that commit leaves one list. -/
theorem serialized_iff (hserver : (store.getServer serverId).isSome)
    (h : Run (system lower) (OnlyReplaces serverId) ⟨store, [], []⟩ l s)
    (hdone : ∀ session ∈ s.sessions, session.phase = .committed) (hne : s.sessions ≠ []) :
    ∃ l₁ s₁ k, l = l₁ ++ [.commit k] ∧
      Run (system lower) (OnlyReplaces serverId) ⟨store, [], []⟩ l₁ s₁ ∧
      (Serialized serverId s ↔ LeavesOneList serverId s₁ k) := by
  obtain ⟨l₁, s₁, k, own, read, store', hl, h₁, rfl, hk, hok⟩ :=
    exists_last_commit hserver h hdone hne
  refine ⟨l₁, s₁, k, hl, h₁, ?_⟩
  rw [Serialized, lists_commit, contents_commit hk hok]
  constructor
  · intro hone
    exact ⟨own, read, hk, .inr hone⟩
  · rintro ⟨own', read', hk', hclean | hone⟩
    · cases hk.symm.trans hk'
      rw [hclean]
      exact ⟨own, List.mem_map_of_mem (List.mem_of_getElem? hk), .refl _⟩
    · cases hk.symm.trans hk'
      exact hone

/-- A second call reads after the commit of the first. -/
def oneAfterAnother : List Label :=
  [.load 1 [tvFolder, filmFolder], .commit 0, .load 1 [filmFolder], .commit 1]

theorem serialized_iff_oneAfterAnother :
    ∃ l₁ s₁ k, oneAfterAnother = l₁ ++ [.commit k] ∧
      Run (system asciiLower) (OnlyReplaces 1) ⟨twoServers, [], []⟩ l₁ s₁ ∧
      (Serialized 1 (oneAfterAnother.foldl (system asciiLower).next ⟨twoServers, [], []⟩) ↔
        LeavesOneList 1 s₁ k) :=
  serialized_iff (by decide +kernel) (run_of_exec (by decide +kernel)) (by decide +kernel)
    (by decide +kernel)

/-- Both calls read before either commits. -/
def bothReadFirst : List Label :=
  [.load 1 [tvFolder, filmFolder], .load 1 [filmFolder], .commit 0, .commit 1]

theorem replacements_add_up :
    ∃ s, Run (system asciiLower) (OnlyReplaces 1) ⟨twoServers, [], []⟩ bothReadFirst s ∧
      (∀ session ∈ s.sessions, session.phase = .committed) ∧ ¬ Serialized 1 s :=
  ⟨_, run_of_exec (by decide +kernel), by decide +kernel, by decide +kernel⟩

end MediaScanMonitor.FolderRoutes
