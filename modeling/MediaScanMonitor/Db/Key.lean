import MediaScanMonitor.Library.Lts
import MediaScanMonitor.Library.Utf8
import MediaScanMonitor.Db.Schemas
import Mathlib.Logic.Function.Basic

/-!
# Db — the secret key

`load_or_create_key` runs in every process, twice in one that serves the web.  Processes come at
any time, their file operations interleave, and each of them may exit between two of these.

* `Fate`: the file is absent, or one process is about to fill it, or its contents are final.
* `fate_of_run`: every run keeps to that.
* `key_agreement`: all processes that get a key from the file get one and the same.
-/

namespace MediaScanMonitor.Key
open Py Lts

/-- `bytes.isspace` on one byte. -/
def isspace (b : Byte) : Bool := b.val ∈ [9, 10, 11, 12, 13, 32]

/-- `s.strip()`, of `bytes`. -/
def strip (s : List Byte) : List Byte := (s.dropWhile isspace).rdropWhile isspace

/-- `s.encode("ascii")`, `none` where it raises. -/
def encodeAscii (s : Str) : Option (List Byte) :=
  s.mapM fun c => if h : c.val < 128 then some ⟨c.val, by omega⟩ else none

/-- The `Fernet` class. -/
structure Fernet where
  /-- `Fernet(key)`, `none` where it raises `ValueError`. -/
  box : List Byte → Option SecretBox
  /-- A key is the base64 of 32 bytes, which takes 44 characters. -/
  length_of_box : ∀ {key box'}, box key = some box' → 44 ≤ key.length

/-- What `Fernet.generate_key` returns. -/
structure Generated (fernet : Fernet) where
  bytes : List Byte
  length_bytes : bytes.length = 44
  isSome_box : (fernet.box bytes).isSome = true
  noSpace : ∀ b ∈ bytes, isspace b = false

structure Env where
  /-- `MSM_SECRET_KEY`. -/
  secretKey : Option Str
  /-- `run`, without `--no-web`. -/
  web : Bool

/-- The environment supplies no key. -/
def Env.Keyless (env : Env) : Prop := env.secretKey.getD [] = []

instance (env : Env) : Decidable env.Keyless := inferInstanceAs (Decidable (_ = _))

/-- Where `_cmd_run` is.  Until it is done with the keys it keeps that of the `SecretBox` it has
made, if it has made it. -/
inductive Phase (fernet : Fernet) where
  /-- At the start of `load_or_create_key`. -/
  | checking (box : Option (List Byte))
  | reading (box : Option (List Byte))
  | opening (box : Option (List Byte)) (key : Generated fernet)
  | writing (box : Option (List Byte)) (key : Generated fernet)
  | running (box : List Byte) (sessionSecret : Option (List Byte))
  | exited

variable {fernet : Fernet}

/-- `SecretBox(_load_key())` comes first, and `_load_key().decode("ascii")` after it. -/
def Env.obtained (env : Env) (box : Option (List Byte)) (key : List Byte) : Phase fernet :=
  match box with
  | none =>
    if (fernet.box key).isSome then
      if env.web then .checking (some key) else .running key none
    else .exited
  | some box => if key.all (·.val < 128) then .running box (some key) else .exited

inductive Action (fernet : Fernet) where
  /-- `path.exists()`, and `Fernet.generate_key()` where it does not. -/
  | check (generated : Generated fernet)
  /-- `path.read_bytes()`. -/
  | read
  /-- `os.open` with `O_CREAT` and `O_EXCL`. -/
  | openExclusive
  /-- `os.write`, which writes that many bytes. -/
  | write (count : Nat)
  /-- The process dies, or the next call raises. -/
  | exit

/-- One action of a process on the file, `none` where it is elsewhere. -/
def Env.act (env : Env) (file : Option (List Byte)) :
    Phase fernet → Action fernet → Option (Option (List Byte) × Phase fernet)
  | .checking box, .check generated =>
    if env.Keyless then
      if file.isSome then some (file, .reading box) else some (file, .opening box generated)
    else
      match encodeAscii (Py.strip (env.secretKey.getD [])) with
      | none => some (file, .exited)
      | some key => some (file, env.obtained box key)
  | .reading box, .read => file.map fun contents => (file, env.obtained box (strip contents))
  | .opening box key, .openExclusive =>
    if file.isSome then some (file, .exited) else some (some [], .writing box key)
  | .writing box key, .write count =>
    some (some (key.bytes.take count), env.obtained box key.bytes)
  | _, .exit => some (file, .exited)
  | _, _ => none

structure Proc (fernet : Fernet) where
  env : Env
  phase : Phase fernet

def Proc.goTo (proc : Proc fernet) (phase : Phase fernet) : Proc fernet := ⟨proc.env, phase⟩

structure State (fernet : Fernet) where
  file : Option (List Byte)
  procs : Nat → Option (Proc fernet)

inductive Label (fernet : Fernet) where
  | start (pid : Nat) (env : Env)
  | act (pid : Nat) (action : Action fernet)

def State.step (s : State fernet) : Label fernet → Option (State fernet)
  | .start pid env =>
    if (s.procs pid).isSome then none
    else some { s with procs := Function.update s.procs pid (some ⟨env, .checking none⟩) }
  | .act pid action =>
    (s.procs pid).bind fun proc =>
      (proc.env.act s.file proc.phase action).map fun (file, phase) =>
        ⟨file, Function.update s.procs pid (some (proc.goTo phase))⟩

def system (fernet : Fernet) : System (State fernet) (Label fernet) := ofStep State.step

/-! ### What a process holds -/

namespace Phase

/-- The key of the `SecretBox`. -/
def box : Phase fernet → Option (List Byte)
  | .checking box | .reading box | .opening box _ | .writing box _ => box
  | .running box _ => some box
  | .exited => none

def sessionSecret : Phase fernet → Option (List Byte)
  | .running _ sessionSecret => sessionSecret
  | _ => none

def Writes : Phase fernet → Prop
  | .writing _ _ => True
  | _ => False

end Phase

variable {env : Env} {box : Option (List Byte)} {key contents : List Byte}
  {phase phase' : Phase fernet} {action : Action fernet} {file file' : Option (List Byte)}
  {s s' : State fernet} {l : List (Label fernet)} {pid : Nat} {proc : Proc fernet}

@[simp] theorem goTo_phase : (proc.goTo phase).phase = phase := rfl

@[simp] theorem goTo_env : (proc.goTo phase).env = proc.env := rfl

theorem not_writes_obtained : ¬(env.obtained box key : Phase fernet).Writes := by
  cases box with
  | none =>
      rw [Env.obtained]
      repeat' split
      all_goals exact id
  | some box =>
      rw [Env.obtained]
      split
      all_goals exact id

/-- A process has the key of its `SecretBox` from its first load. -/
theorem box_obtained {key' : List Byte}
    (h : (env.obtained box key : Phase fernet).box = some key') :
    box = some key' ∨ box = none ∧ key' = key ∧ (fernet.box key).isSome = true := by
  cases box with
  | none =>
      rw [Env.obtained] at h
      by_cases hbox : (fernet.box key).isSome = true
      · rw [if_pos hbox] at h
        split at h
        · exact .inr ⟨rfl, (Option.some_inj.mp h).symm, hbox⟩
        · exact .inr ⟨rfl, (Option.some_inj.mp h).symm, hbox⟩
      · rw [if_neg hbox] at h
        cases h
  | some box =>
      rw [Env.obtained] at h
      split at h
      · exact .inl h
      · cases h

theorem sessionSecret_obtained {secret : List Byte}
    (h : (env.obtained box key : Phase fernet).sessionSecret = some secret) :
    secret = key ∧ box.isSome = true ∧ (env.obtained box key : Phase fernet).box = box := by
  cases box with
  | none =>
      rw [Env.obtained] at h
      repeat' split at h
      all_goals cases h
  | some box =>
      rw [Env.obtained] at h ⊢
      split at h
      · rename_i hascii
        rw [if_pos hascii]
        exact ⟨(Option.some_inj.mp h).symm, rfl, rfl⟩
      · cases h

/-- The phase tells of no key that the one before it did not tell of. -/
def Phase.Keeps (phase phase' : Phase fernet) : Prop :=
  ¬phase'.Writes ∧ phase'.sessionSecret = none ∧ (phase'.box = none ∨ phase'.box = phase.box)

/-- What an action comes to. -/
theorem act_cases (h : env.act file phase action = some (file', phase')) :
    (file' = file ∧ phase.Keeps phase') ∨
    (file' = file ∧ ¬env.Keyless ∧ ¬phase'.Writes) ∨
    (file' = file ∧ ∃ contents, file = some contents ∧
      phase' = env.obtained phase.box (strip contents)) ∨
    (file = none ∧ file' = some [] ∧ phase'.sessionSecret = none ∧ phase'.box = phase.box) ∨
    (phase.Writes ∧ ∃ (key : Generated fernet) (count : Nat),
      file' = some (key.bytes.take count) ∧ phase' = env.obtained phase.box key.bytes) := by
  have hexit (phase : Phase fernet) : phase.Keeps .exited := ⟨id, rfl, .inl rfl⟩
  cases action with
  | exit =>
      have h : some (file, .exited) = some (file', phase') := by
        rw [← h]
        cases phase <;> rfl
      cases h
      exact .inl ⟨rfl, hexit phase⟩
  | check generated =>
      cases phase with
      | checking box =>
          by_cases hkeyless : env.Keyless
          · rw [Env.act, if_pos hkeyless] at h
            split at h
            · cases h
              exact .inl ⟨rfl, id, rfl, .inr rfl⟩
            · cases h
              exact .inl ⟨rfl, id, rfl, .inr rfl⟩
          · rw [Env.act, if_neg hkeyless] at h
            split at h
            · cases h
              exact .inl ⟨rfl, hexit _⟩
            · cases h
              exact .inr (.inl ⟨rfl, hkeyless, not_writes_obtained⟩)
      | reading | opening | writing | running | exited => cases h
  | read =>
      cases phase with
      | reading box =>
          obtain ⟨contents, hcontents, h⟩ := Option.map_eq_some_iff.mp h
          cases h
          exact .inr (.inr (.inl ⟨rfl, contents, hcontents, rfl⟩))
      | checking | opening | writing | running | exited => cases h
  | openExclusive =>
      cases phase with
      | opening box key =>
          rw [Env.act] at h
          split at h
          · cases h
            exact .inl ⟨rfl, hexit _⟩
          · rename_i hfile
            cases h
            exact .inr (.inr (.inr (.inl ⟨by simpa using hfile, rfl, rfl, rfl⟩)))
      | checking | reading | writing | running | exited => cases h
  | write count =>
      cases phase with
      | writing box key =>
          cases h
          exact .inr (.inr (.inr (.inr ⟨trivial, key, count, rfl, rfl⟩)))
      | checking | reading | opening | running | exited => cases h

/-! ### What happens to the file -/

def State.All (s : State fernet) (P : Nat → Proc fernet → Prop) : Prop :=
  ∀ pid proc, s.procs pid = some proc → P pid proc

theorem State.All.update {P Q : Nat → Proc fernet → Prop} (h : s.All P)
    (hproc : Q pid proc) (himp : ∀ pid' proc', pid' ≠ pid → P pid' proc' → Q pid' proc') :
    (State.mk file' (Function.update s.procs pid (some proc))).All Q := by
  intro pid' proc' hproc'
  by_cases hpid : pid' = pid
  · subst hpid
    obtain rfl : proc = proc' := by simpa [State.procs] using hproc'
    exact hproc
  · refine himp _ _ hpid (h _ _ ?_)
    simpa [State.procs, hpid] using hproc'

/-- A step starts a process or lets one act. -/
theorem step_cases {label : Label fernet} (hen : (system fernet).enabled s label) :
    (∃ pid env, (system fernet).next s label =
      ⟨s.file, Function.update s.procs pid (some ⟨env, .checking none⟩)⟩) ∨
    ∃ pid proc file' phase' action, s.procs pid = some proc ∧
      proc.env.act s.file proc.phase action = some (file', phase') ∧
      (system fernet).next s label =
        ⟨file', Function.update s.procs pid (some (proc.goTo phase'))⟩ := by
  have h : s.step label = some ((system fernet).next s label) := ofStep_next hen
  generalize (system fernet).next s label = s' at h ⊢
  cases label with
  | start pid env =>
      rw [State.step] at h
      split at h
      · cases h
      · exact .inl ⟨pid, env, (Option.some_inj.mp h).symm⟩
  | act pid action =>
      obtain ⟨proc, hproc, h⟩ := Option.bind_eq_some_iff.mp h
      obtain ⟨⟨file', phase'⟩, hact, h⟩ := Option.map_eq_some_iff.mp h
      exact .inr ⟨pid, proc, file', phase', action, hproc, hact, h.symm⟩

/-- Without a key in its environment the process has none yet. -/
def Proc.Boxless (proc : Proc fernet) : Prop :=
  proc.env.Keyless → proc.phase.box = none ∧ proc.phase.sessionSecret = none

/-- What the file tells of the key that processes got from it, or put into it. -/
structure Tells (contents key : List Byte) (proc : Proc fernet) : Prop where
  not_writes : ¬proc.phase.Writes
  box : proc.env.Keyless → ∀ key', proc.phase.box = some key' → key' = key
  sessionSecret : proc.env.Keyless → ∀ secret, proc.phase.sessionSecret = some secret →
    secret = strip contents ∧ proc.phase.box.isSome = true

/-- How far the file has come. -/
inductive Fate (s : State fernet) : Prop where
  | absent (hfile : s.file = none)
      (hall : s.All fun _ proc => ¬proc.phase.Writes ∧ proc.Boxless)
  /-- One process has created it. -/
  | pending (writer : Nat) (hfile : s.file = some [])
      (hall : s.All fun pid proc => (proc.phase.Writes → pid = writer) ∧ proc.Boxless)
  /-- Nothing is written any more.  What is in it is the key, or begins it. -/
  | settled (contents key : List Byte) (hfile : s.file = some contents)
      (hkey : strip contents = key ∨ contents.length < 44 ∧ strip contents <+: key)
      (hall : s.All fun _ proc => Tells contents key proc)

theorem boxless_of_keeps (h : proc.Boxless) (hkeeps : proc.phase.Keeps phase') :
    (proc.goTo phase').Boxless := by
  intro hkeyless
  obtain ⟨-, hsecret, hbox⟩ := hkeeps
  rw [(h hkeyless).1, or_self] at hbox
  exact ⟨hbox, hsecret⟩

theorem tells_of_keeps (h : Tells contents key proc) (hkeeps : proc.phase.Keeps phase') :
    Tells contents key (proc.goTo phase') where
  not_writes := hkeeps.1
  box hkeyless key' hkey' := by
    have hkey' : phase'.box = some key' := hkey'
    rcases hkeeps.2.2 with hbox | hbox
    · rw [hbox] at hkey'
      cases hkey'
    · exact h.box hkeyless key' (hbox ▸ hkey')
  sessionSecret _ secret hsecret := by
    have hsecret : phase'.sessionSecret = some secret := hsecret
    rw [hkeeps.2.1] at hsecret
    cases hsecret

theorem tells_of_not_keyless (hkeyless : ¬proc.env.Keyless) (hwrites : ¬proc.phase.Writes) :
    Tells contents key proc where
  not_writes := hwrites
  box h := absurd h hkeyless
  sessionSecret h := absurd h hkeyless

/-- What `strip` takes off, it takes off the ends. -/
theorem length_strip_le (s : List Byte) : (strip s).length ≤ s.length :=
  ((List.rdropWhile_prefix _ _).length_le).trans (List.dropWhile_sublist _).length_le

theorem strip_eq_self {s : List Byte} (h : ∀ b ∈ s, isspace b = false) : strip s = s := by
  have hdrop : s.dropWhile isspace = s := by
    cases s with
    | nil => rfl
    | cons b s => rw [List.dropWhile_cons_of_neg (by simp [h b List.mem_cons_self])]
  rw [strip, hdrop, List.rdropWhile_eq_self_iff]
  intro hne
  simp [h _ (List.getLast_mem hne)]

/-- A process that reads the file when it is settled. -/
theorem tells_of_read (h : Tells contents key proc)
    (hkey : strip contents = key ∨ contents.length < 44 ∧ strip contents <+: key) :
    Tells contents key (proc.goTo (proc.env.obtained proc.phase.box (strip contents))) where
  not_writes := not_writes_obtained
  box hkeyless key' hkey' := by
    obtain hbox | ⟨-, rfl, haccepts⟩ := box_obtained hkey'
    · exact h.box hkeyless key' hbox
    · rcases hkey with hkey | ⟨hlt, -⟩
      · exact hkey
      · obtain ⟨box', hbox'⟩ := Option.isSome_iff_exists.mp haccepts
        have hle := fernet.length_of_box hbox'
        have := length_strip_le contents
        omega
  sessionSecret _ secret hsecret := by
    obtain ⟨rfl, hsome, hbox⟩ := sessionSecret_obtained hsecret
    refine ⟨rfl, ?_⟩
    exact (congrArg Option.isSome hbox).trans hsome

/-- A process that reads the file before it is filled. -/
theorem boxless_of_read (h : proc.Boxless) (hlt : key.length < 44) :
    (proc.goTo (proc.env.obtained proc.phase.box key)).Boxless := by
  intro hkeyless
  obtain ⟨hbox, -⟩ := h hkeyless
  rw [goTo_phase, hbox]
  constructor
  · rw [Option.eq_none_iff_forall_ne_some]
    intro key' hkey'
    obtain hnone | ⟨-, rfl, haccepts⟩ := box_obtained hkey'
    · cases hnone
    · obtain ⟨box', hbox'⟩ := Option.isSome_iff_exists.mp haccepts
      have hle := fernet.length_of_box hbox'
      omega
  · rw [Option.eq_none_iff_forall_ne_some]
    intro secret hsecret
    obtain ⟨-, hsome, -⟩ := sessionSecret_obtained hsecret
    cases hsome

/-- The process that fills the file. -/
theorem tells_of_write (h : proc.Boxless) (generated : Generated fernet) (contents : List Byte) :
    Tells contents generated.bytes
      (proc.goTo (proc.env.obtained proc.phase.box generated.bytes)) where
  not_writes := not_writes_obtained
  box hkeyless key' hkey' := by
    obtain hbox | ⟨-, rfl, -⟩ := box_obtained hkey'
    · rw [(h hkeyless).1] at hbox
      cases hbox
    · rfl
  sessionSecret hkeyless secret hsecret := by
    obtain ⟨-, hsome, -⟩ := sessionSecret_obtained hsecret
    rw [(h hkeyless).1] at hsome
    cases hsome

theorem boxless_checking (env : Env) : (Proc.mk env (.checking none : Phase fernet)).Boxless :=
  fun _ => ⟨rfl, rfl⟩

theorem tells_checking (env : Env) :
    Tells contents key (Proc.mk env (.checking none : Phase fernet)) where
  not_writes := id
  box _ _ h := by cases h
  sessionSecret _ _ h := by cases h

theorem Fate.start (h : Fate s) (pid : Nat) (env : Env) :
    Fate (State.mk s.file (Function.update s.procs pid (some ⟨env, .checking none⟩))) := by
  have hnew := @boxless_checking fernet env
  cases h with
  | absent hfile hall => exact .absent hfile (hall.update ⟨id, hnew⟩ fun _ _ _ h => h)
  | pending writer hfile hall =>
      exact .pending writer hfile (hall.update ⟨False.elim, hnew⟩ fun _ _ _ h => h)
  | settled contents key hfile hkey hall =>
      exact .settled contents key hfile hkey
        (hall.update (tells_checking env) fun _ _ _ h => h)

/-- While the file is absent or empty, a process that tells of no key may come to tell of it. -/
theorem tells_of_boxless {proc : Proc fernet} (hwrites : ¬proc.phase.Writes) (h : proc.Boxless) :
    Tells contents key proc where
  not_writes := hwrites
  box hkeyless key' hkey' := by
    rw [(h hkeyless).1] at hkey'
    cases hkey'
  sessionSecret hkeyless secret hsecret := by
    rw [(h hkeyless).2] at hsecret
    cases hsecret

theorem Fate.act (h : Fate s) (hproc : s.procs pid = some proc)
    (hact : proc.env.act s.file proc.phase action = some (file', phase')) :
    Fate (State.mk file' (Function.update s.procs pid (some (proc.goTo phase')))) := by
  cases h with
  | absent hfile hall =>
      obtain ⟨hwrites, hboxless⟩ := hall _ _ hproc
      obtain ⟨rfl, hkeeps⟩ | ⟨rfl, hkeyless, hno⟩ | ⟨-, contents, hcontents, -⟩ |
        ⟨-, rfl, hsecret, hbox⟩ | ⟨hwriting, -⟩ := act_cases hact
      · exact .absent hfile
          (hall.update ⟨hkeeps.1, boxless_of_keeps hboxless hkeeps⟩ fun _ _ _ h => h)
      · exact .absent hfile (hall.update ⟨hno, fun h => absurd h hkeyless⟩ fun _ _ _ h => h)
      · rw [hfile] at hcontents
        cases hcontents
      · refine .pending pid rfl (hall.update ⟨fun _ => rfl, fun hkeyless => ?_⟩ ?_)
        · exact ⟨hbox.trans (hboxless hkeyless).1, hsecret⟩
        · exact fun _ _ _ h => ⟨fun hwriting => absurd hwriting h.1, h.2⟩
      · exact absurd hwriting hwrites
  | pending writer hfile hall =>
      obtain ⟨hwrites, hboxless⟩ := hall _ _ hproc
      obtain ⟨rfl, hkeeps⟩ | ⟨rfl, hkeyless, hno⟩ | ⟨rfl, contents, hcontents, rfl⟩ |
        ⟨hnone, -⟩ | ⟨hwriting, key, count, rfl, rfl⟩ := act_cases hact
      · refine .pending writer hfile (hall.update ⟨?_, boxless_of_keeps hboxless hkeeps⟩ ?_)
        · exact fun hwriting => absurd hwriting hkeeps.1
        · exact fun _ _ _ h => h
      · refine .pending writer hfile (hall.update ⟨fun hwriting => absurd hwriting hno, ?_⟩ ?_)
        · exact fun h => absurd h hkeyless
        · exact fun _ _ _ h => h
      · obtain rfl : [] = contents := Option.some_inj.mp (hfile.symm.trans hcontents)
        refine .pending writer hfile (hall.update ⟨?_, ?_⟩ fun _ _ _ h => h)
        · exact fun hwriting => absurd hwriting not_writes_obtained
        · exact boxless_of_read hboxless (by decide)
      · rw [hfile] at hnone
        cases hnone
      · refine .settled (key.bytes.take count) key.bytes rfl ?_
          (hall.update (tells_of_write hboxless key _) ?_)
        · have hstrip : strip (key.bytes.take count) = key.bytes.take count :=
            strip_eq_self fun b hb => key.noSpace b (List.mem_of_mem_take hb)
          rw [hstrip]
          by_cases hcount : 44 ≤ count
          · exact .inl (List.take_of_length_le (by rw [key.length_bytes]; exact hcount))
          · refine .inr ⟨?_, List.take_prefix _ _⟩
            rw [List.length_take]
            omega
        · -- There is no other process that writes.
          rintro pid' proc' hne ⟨hwrites', hboxless'⟩
          refine tells_of_boxless (fun hwriting' => hne ?_) hboxless'
          rw [hwrites' hwriting', hwrites hwriting]
  | settled contents key hfile hkey hall =>
      have htells := hall _ _ hproc
      obtain ⟨rfl, hkeeps⟩ | ⟨rfl, hkeyless, hno⟩ | ⟨rfl, contents', hcontents, rfl⟩ |
        ⟨hnone, -⟩ | ⟨hwriting, -⟩ := act_cases hact
      · exact .settled contents key hfile hkey
          (hall.update (tells_of_keeps htells hkeeps) fun _ _ _ h => h)
      · exact .settled contents key hfile hkey
          (hall.update (tells_of_not_keyless hkeyless hno) fun _ _ _ h => h)
      · obtain rfl : contents = contents' := Option.some_inj.mp (hfile.symm.trans hcontents)
        exact .settled contents key hfile hkey
          (hall.update (tells_of_read htells hkey) fun _ _ _ h => h)
      · rw [hfile] at hnone
        cases hnone
      · exact absurd hwriting htells.not_writes

/-- No process has come. -/
def State.init (file : Option (List Byte)) : State fernet := ⟨file, fun _ => none⟩

theorem fate_init (file : Option (List Byte)) : Fate (.init file : State fernet) := by
  cases file with
  | none => exact .absent rfl fun _ _ h => by cases h
  | some contents => exact .settled contents _ rfl (.inl rfl) fun _ _ h => by cases h

theorem fate_of_run {file : Option (List Byte)}
    (h : Run (system fernet) free (.init file) l s) : Fate s := by
  refine h.invariant (fate_init file) fun s label hs hen _ => ?_
  obtain ⟨pid, env, hnext⟩ | ⟨pid, proc, file', phase', action, hproc, hact, hnext⟩ :=
    step_cases hen
  · rw [hnext]
    exact hs.start pid env
  · rw [hnext]
    exact hs.act hproc hact

/-! ### A file that holds no key -/

/-- Nothing is being written to the file, and it holds no key. -/
structure State.Refused (s : State fernet) (contents : List Byte) : Prop where
  file : s.file = some contents
  not_writes : ∀ pid proc, s.procs pid = some proc → ¬proc.phase.Writes
  box : fernet.box (strip contents) = none

/-- A key that the process has now it had in `s`. -/
def Had (s : State fernet) (pid : Nat) (proc : Proc fernet) : Prop :=
  proc.env.Keyless → ∀ key, proc.phase.box = some key →
    ∃ proc', s.procs pid = some proc' ∧ proc'.phase.box = some key

theorem refused_of_run (hrefused : s.Refused contents) (h : Run (system fernet) free s l s') :
    s'.Refused contents ∧ s'.All (Had s) := by
  refine h.invariant (P := fun s' => s'.Refused contents ∧ s'.All (Had s))
    ⟨hrefused, fun pid proc hproc _ key hkey => ⟨proc, hproc, hkey⟩⟩ ?_
  rintro s₁ label ⟨hrefused₁, hhad⟩ hen -
  obtain ⟨pid, env, hnext⟩ | ⟨pid, proc, file', phase', action, hproc, hact, hnext⟩ :=
    step_cases hen
  · rw [hnext]
    refine ⟨⟨hrefused₁.file, ?_, hrefused.box⟩, hhad.update ?_ fun _ _ _ h => h⟩
    · exact State.All.update (Q := fun _ proc => ¬proc.phase.Writes) hrefused₁.not_writes id
        fun _ _ _ h => h
    · intro _ key hkey
      cases hkey
  · rw [hnext]
    have hwrites := hrefused₁.not_writes pid proc hproc
    suffices hstep : file' = s₁.file ∧ ¬phase'.Writes ∧ Had s pid (proc.goTo phase') by
      obtain ⟨rfl, hno, hnew⟩ := hstep
      refine ⟨⟨hrefused₁.file, ?_, hrefused.box⟩, hhad.update hnew fun _ _ _ h => h⟩
      exact State.All.update (Q := fun _ proc => ¬proc.phase.Writes) hrefused₁.not_writes hno
        fun _ _ _ h => h
    obtain ⟨rfl, hno, -, hbox⟩ | ⟨rfl, hkeyless, hno⟩ | ⟨rfl, contents', hcontents, rfl⟩ |
      ⟨hnone, -⟩ | ⟨hwriting, -⟩ := act_cases hact
    · refine ⟨rfl, hno, fun hkeyless key hkey => ?_⟩
      rcases hbox with hbox | hbox
      · rw [goTo_phase, hbox] at hkey
        cases hkey
      · exact hhad pid proc hproc hkeyless key (hbox ▸ hkey)
    · exact ⟨rfl, hno, fun h => absurd h hkeyless⟩
    · obtain rfl : contents = contents' :=
        Option.some_inj.mp (hrefused₁.file.symm.trans hcontents)
      refine ⟨rfl, not_writes_obtained, fun hkeyless key hkey => ?_⟩
      rw [goTo_phase] at hkey
      obtain hbox | ⟨-, -, haccepts⟩ := box_obtained hkey
      · exact hhad pid proc hproc hkeyless key hbox
      · rw [hrefused.box] at haccepts
        cases haccepts
    · rw [hrefused₁.file] at hnone
      cases hnone
    · exact absurd hwriting hwrites

/-! ### Agreement -/

/-- **However the processes interleave, and wherever each of them exits**: those that get a
`SecretBox` without a key in their environment get it of one and the same key.  The session secret
of such a process is that key too, unless the file was not written whole.  Once nobody writes to
the file any more and it holds no key, no process gets one that has not got it. -/
theorem key_agreement {file : Option (List Byte)}
    (h : Run (system fernet) free (.init file) l s) :
    (∀ pid pid' proc proc', s.procs pid = some proc → s.procs pid' = some proc' →
      proc.env.Keyless → proc'.env.Keyless →
      ∀ key key', proc.phase.box = some key → proc'.phase.box = some key' → key = key') ∧
    (∀ pid proc, s.procs pid = some proc → proc.env.Keyless →
      ∀ secret, proc.phase.sessionSecret = some secret →
        ∃ key, proc.phase.box = some key ∧ secret <+: key ∧
          (secret ≠ key → ∃ contents, s.file = some contents ∧ contents.length < 44)) ∧
    ∀ contents, s.Refused contents → ∀ l' s', Run (system fernet) free s l' s' →
      s'.file = some contents ∧
        ∀ pid proc, s'.procs pid = some proc → proc.env.Keyless →
          ∀ key, proc.phase.box = some key →
            ∃ proc', s.procs pid = some proc' ∧ proc'.phase.box = some key := by
  have hfate := fate_of_run h
  refine ⟨?_, ?_, ?_⟩
  · intro pid pid' proc proc' hproc hproc' hkeyless hkeyless' key key' hkey hkey'
    cases hfate with
    | absent _ hall =>
        rw [((hall _ _ hproc).2 hkeyless).1] at hkey
        cases hkey
    | pending _ _ hall =>
        rw [((hall _ _ hproc).2 hkeyless).1] at hkey
        cases hkey
    | settled _ _ _ _ hall =>
        rw [(hall _ _ hproc).box hkeyless _ hkey, (hall _ _ hproc').box hkeyless' _ hkey']
  · intro pid proc hproc hkeyless secret hsecret
    cases hfate with
    | absent _ hall =>
        rw [((hall _ _ hproc).2 hkeyless).2] at hsecret
        cases hsecret
    | pending _ _ hall =>
        rw [((hall _ _ hproc).2 hkeyless).2] at hsecret
        cases hsecret
    | settled contents key hfile hkey hall =>
        obtain ⟨rfl, hsome⟩ := (hall _ _ hproc).sessionSecret hkeyless _ hsecret
        obtain ⟨key', hbox⟩ := Option.isSome_iff_exists.mp hsome
        obtain rfl := (hall _ _ hproc).box hkeyless _ hbox
        refine ⟨key', hbox, ?_⟩
        rcases hkey with rfl | ⟨hlt, hbegins⟩
        · exact ⟨List.prefix_refl _, fun hne => absurd rfl hne⟩
        · exact ⟨hbegins, fun _ => ⟨contents, hfile, hlt⟩⟩
  · intro contents hrefused l' s' h'
    obtain ⟨hrefused', hhad⟩ := refused_of_run hrefused h'
    exact ⟨hrefused'.file, hhad⟩

/-! ### Three processes -/

instance : ∀ (s : State fernet) label, Decidable ((system fernet).enabled s label) :=
  fun s label => inferInstanceAs (Decidable ((ofStep State.step).enabled s label))

/-- Every key that is long enough will do. -/
def lengthFernet : Fernet where
  box key := if 44 ≤ key.length then some markBox else none
  length_of_box h := by
    split at h
    · assumption
    · cases h

/-- The key of a letter, and of the `=` at its end. -/
def keyOf (b : Byte) : List Byte := List.replicate 43 b ++ [61]

def generatedOf (b : Byte) (h : isspace b = false) : Generated lengthFernet where
  bytes := keyOf b
  length_bytes := by simp [keyOf]
  isSome_box := by simp [lengthFernet, keyOf]
  noSpace b' hb' := by
    rcases List.mem_append.mp hb' with hb' | hb'
    · rw [List.eq_of_mem_replicate hb']
      exact h
    · rw [List.mem_singleton.mp hb']
      rfl

/-- Two processes find no file, and both have generated a key when the file is created. -/
def race : List (Label lengthFernet) :=
  [.start 0 ⟨none, true⟩, .start 1 ⟨none, true⟩,
    .act 0 (.check (generatedOf 65 rfl)), .act 1 (.check (generatedOf 66 rfl)),
    .act 1 .openExclusive, .act 0 .openExclusive, .act 1 (.write 44),
    .start 2 ⟨none, false⟩, .act 2 (.check (generatedOf 67 rfl)), .act 2 .read,
    .act 1 (.check (generatedOf 68 rfl)), .act 1 .read]

/-- The other process has failed; a third one gets the key that was written. -/
theorem key_agreement_race :
    ∃ s, Run (system lengthFernet) free (.init none) race s ∧
      ∀ proc, s.procs 2 = some proc → ∀ key, proc.phase.box = some key →
        key = keyOf 66 := by
  have hrun : Run (system lengthFernet) free (.init none) race _ := run_of_exec (by decide)
  refine ⟨_, hrun, fun proc hproc key hkey => ?_⟩
  have hkeyless : proc.env.Keyless := by
    cases hproc
    rfl
  exact (key_agreement hrun).1 2 1 proc _ hproc rfl hkeyless rfl key _ hkey rfl

end MediaScanMonitor.Key
