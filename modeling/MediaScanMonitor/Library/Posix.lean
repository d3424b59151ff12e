import MediaScanMonitor.Library.Str
import Mathlib.Data.List.Infix

/-!
# Library — POSIX paths

`posixpath.normpath` and `posixpath.join` on strings, and the absolute paths they produce as
component lists.  An `AbsPath` is a list of *names* (non-empty, without `/`, neither `.` nor
`..`) under `/`, or under `//`, which POSIX and `normpath` keep apart from `/`.

* `normpath_join`: joining one more component and normalising pushes it, drops it (empty, `.`)
  or pops a name (`..`).
* `normpath_eq`: an absolute string normalises to the spelling of an `AbsPath`.
* `normpath_eq_or_length_lt`: it gets shorter when it changes.
* `parse_toStr`: the spelling determines the path.
* `sep_prefix_toStr`: `b` starts with `a` and a slash exactly when `a`'s names are a proper
  prefix of `b`'s.
-/

namespace Posix
open Py

/-! ### The functions of `posixpath` -/

/-- `posixpath.splitroot`, without the drive that POSIX never has. -/
def splitroot (p : Str) : Str × Str :=
  if p.take 1 ≠ [slash] then ([], p)
  else if (p.drop 1).take 1 ≠ [slash] ∨ (p.drop 2).take 1 = [slash] then ([slash], p.drop 1)
  else (p.take 2, p.drop 2)

/-- One turn of `normpath`'s loop over the components, below `root`. -/
def normStep (root : Str) (comps : List Str) (comp : Str) : List Str :=
  if comp = [] ∨ comp = [dot] then comps
  else if comp ≠ [dot, dot] ∨ (root = [] ∧ comps = []) ∨ comps.getLast? = some [dot, dot] then
    comps ++ [comp]
  else comps.dropLast

/-- `posixpath.normpath`. -/
def normpath (p : Str) : Str :=
  if p = [] then [dot]
  else
    let root := (splitroot p).1
    let comps := ((splitroot p).2.splitOn slash).foldl (normStep root) []
    let q := root ++ [slash].intercalate comps
    if q = [] then [dot] else q

/-- `posixpath.join` of two parts. -/
def join (a b : Str) : Str :=
  if startswith b [slash] then b
  else if a = [] ∨ a.getLast? = some slash then a ++ b
  else a ++ slash :: b

/-- `posixpath.isabs`. -/
def isabs (p : Str) : Bool := startswith p [slash]

/-! ### Names and absolute paths -/

/-- What a directory entry may be called. -/
def IsName (n : Str) : Prop := n ≠ [] ∧ slash ∉ n ∧ n ≠ [dot] ∧ n ≠ [dot, dot]

instance (n : Str) : Decidable (IsName n) := inferInstanceAs (Decidable (_ ∧ _))

@[ext] structure Name where
  val : Str
  ok : IsName val
  deriving DecidableEq

/-- A name written as a literal. -/
def Name.lit (s : String) (h : decide (IsName (str s)) = true := by exact Eq.refl true) : Name :=
  ⟨str s, of_decide_eq_true h⟩

/-- A location: the names on the way down from `/`. -/
abbrev Loc := List Name

def toName? (s : Str) : Option Name := if h : IsName s then some ⟨s, h⟩ else none

/-- An absolute path without `.`, `..` or empty components, under `/` or, with `dbl`, `//`. -/
structure AbsPath where
  dbl : Bool
  segs : List Name
  deriving DecidableEq

namespace AbsPath

def root (a : AbsPath) : Str := if a.dbl then [slash, slash] else [slash]

/-- The spelling of the names, without the root. -/
def body (ns : List Name) : Str := [slash].intercalate (ns.map Name.val)

def toStr (a : AbsPath) : Str := a.root ++ body a.segs

def push (a : AbsPath) (n : Name) : AbsPath := { a with segs := a.segs ++ [n] }

theorem concat_eq_push (d : Bool) (s : List Name) (n : Name) :
    (⟨d, s ++ [n]⟩ : AbsPath) = push ⟨d, s⟩ n := rfl

/-- The path one normalising step beyond `a`: `comp` pushed, dropped, or `a`'s last name popped. -/
def step (a : AbsPath) (comp : Str) : AbsPath :=
  match toName? comp with
  | some n => a.push n
  | none => if comp = [dot, dot] then { a with segs := a.segs.dropLast } else a

end AbsPath

/-- The absolute path a string spells, its empty and dot components left out. -/
def parse (s : Str) : AbsPath :=
  { dbl := (splitroot s).1 == [slash, slash]
    segs := ((splitroot s).2.splitOn slash).filterMap toName? }

/-! ### Spelling and reading back -/

namespace AbsPath
variable {a b : AbsPath} {n : Name} {ns ms : List Name}

theorem toName?_val (n : Name) : toName? n.1 = some n := by
  rw [toName?, dif_pos n.2]

theorem toName?_eq_some {s : Str} (h : toName? s = some n) : n.1 = s := by
  simp only [toName?] at h
  split at h
  · cases h; rfl
  · cases h

@[simp] theorem root_ne_nil (a : AbsPath) : a.root ≠ [] := by
  unfold root; split <;> simp

@[simp] theorem root_push (a : AbsPath) (n : Name) : (a.push n).root = a.root := rfl

@[simp] theorem segs_push (a : AbsPath) (n : Name) : (a.push n).segs = a.segs ++ [n] := rfl

theorem push_inj {m : Name} : a.push n = b.push m ↔ a = b ∧ n = m := by
  obtain ⟨d, s⟩ := a
  obtain ⟨d', s'⟩ := b
  simp only [push, mk.injEq]
  constructor
  · rintro ⟨hd, hs⟩
    obtain ⟨rfl, hn⟩ := List.append_inj' hs rfl
    exact ⟨⟨hd, rfl⟩, (List.cons.inj hn).1⟩
  · rintro ⟨⟨rfl, rfl⟩, rfl⟩
    exact ⟨rfl, rfl⟩

@[simp] theorem body_nil : body [] = [] := rfl

theorem body_cons (n : Name) (h : ns ≠ []) : body (n :: ns) = n.1 ++ slash :: body ns := by
  rw [body, List.map_cons, List.intercalate_cons_of_ne_nil (by simpa using h)]
  simp [body]

@[simp] theorem body_singleton (n : Name) : body [n] = n.1 := by simp [body]

theorem body_append (h₁ : ns ≠ []) (h₂ : ms ≠ []) :
    body (ns ++ ms) = body ns ++ slash :: body ms := by
  induction ns with
  | nil => exact absurd rfl h₁
  | cons n ns ih =>
      cases ns with
      | nil => rw [body_singleton]; exact body_cons n h₂
      | cons n' ns =>
          rw [List.cons_append, body_cons n (by simp), ih (by simp), body_cons n (by simp)]
          simp

/-- A name does not start with a slash, so neither does a spelling without its root. -/
theorem name_take_ne (n : Name) (t : Str) : (n.1 ++ t).take 1 ≠ [slash] := by
  obtain ⟨s, hs⟩ := n
  cases s with
  | nil => exact absurd rfl hs.1
  | cons c s =>
      intro h
      simp only [List.cons_append, List.take_succ_cons, List.take_zero, List.cons.injEq,
        and_true] at h
      exact hs.2.1 (h ▸ List.mem_cons_self)

theorem body_take_ne (ns : List Name) (t : Str) (h : ns = [] → t.take 1 ≠ [slash]) :
    (body ns ++ t).take 1 ≠ [slash] := by
  cases ns with
  | nil => exact h rfl
  | cons n ns =>
      cases ns with
      | nil => rw [body_singleton]; exact name_take_ne n t
      | cons n' ns =>
          rw [body_cons n (by simp), List.append_assoc]
          exact name_take_ne n _

theorem splitroot_root (a : AbsPath) {t : Str} (h : t.take 1 ≠ [slash]) :
    splitroot (a.root ++ t) = (a.root, t) := by
  unfold root
  split <;> simp [splitroot, h]

theorem splitroot_toStr (a : AbsPath) : splitroot a.toStr = (a.root, body a.segs) := by
  refine splitroot_root a ?_
  simpa using body_take_ne a.segs [] (fun _ => by simp)

theorem splitOn_body (h : ns ≠ []) : (body ns).splitOn slash = ns.map Name.val :=
  List.splitOn_intercalate _ (by rintro _ hl; obtain ⟨n, -, rfl⟩ := List.mem_map.mp hl; exact n.2.2.1)
    (by simpa using h)

theorem filterMap_toName? (ns : List Name) : (ns.map Name.val).filterMap toName? = ns := by
  induction ns with
  | nil => rfl
  | cons n ns ih => rw [List.map_cons, List.filterMap_cons, toName?_val, ih]

@[simp] theorem parse_toStr (a : AbsPath) : parse a.toStr = a := by
  obtain ⟨dbl, segs⟩ := a
  have hdbl : (root ⟨dbl, segs⟩ == [slash, slash]) = dbl := by cases dbl <;> rfl
  simp only [parse, splitroot_toStr, hdbl, mk.injEq, true_and]
  by_cases h : segs = []
  · subst h; rfl
  · rw [splitOn_body h, filterMap_toName?]

theorem toStr_injective : Function.Injective toStr := fun a b h => by
  rw [← parse_toStr a, h, parse_toStr]

@[simp] theorem toStr_inj : a.toStr = b.toStr ↔ a = b := toStr_injective.eq_iff

theorem toStr_ne_nil (a : AbsPath) : a.toStr ≠ [] := by simp [toStr]

/-- A spelling starts with a slash, with one or with two. -/
theorem isabs_toStr (a : AbsPath) : isabs a.toStr = true := by
  refine startswith_iff.mpr ?_
  rw [toStr, root]
  split
  · exact ⟨slash :: body a.segs, rfl⟩
  · exact List.prefix_append _ _

/-- The components `str.split` finds in a spelling: the names, and empty ones for the root. -/
theorem mem_splitOn_toStr (a : AbsPath) {s : Str} :
    s ∈ a.toStr.splitOn slash ↔ s = [] ∨ ∃ n ∈ a.segs, n.1 = s := by
  have hbody : s ∈ (body a.segs).splitOn slash ↔
      (a.segs = [] ∧ s = []) ∨ ∃ n ∈ a.segs, n.1 = s := by
    by_cases h : a.segs = []
    · simp [h]
    · rw [splitOn_body h]; simp [h]
  have hcons : ∀ t : Str, s ∈ (slash :: t).splitOn slash ↔ s = [] ∨ s ∈ t.splitOn slash := by
    intro t
    rw [show slash :: t = [] ++ slash :: t from rfl, List.splitOn_append_cons_self]
    simp
  unfold toStr root
  split <;> simp only [List.cons_append, List.nil_append, hcons, hbody] <;> tauto

/-! ### Joining and normalising -/

theorem foldl_normStep (root : Str) :
    ∀ (ns : List Name) (comps : List Str),
      (ns.map Name.val).foldl (normStep root) comps = comps ++ ns.map Name.val
  | [], comps => by simp
  | n :: ns, comps => by
      rw [List.map_cons, List.foldl_cons, foldl_normStep root ns]
      simp [normStep, n.2.1, n.2.2.2.1, n.2.2.2.2]

theorem normpath_of_fold (a : AbsPath) {p rest : Str} (hp : p = a.root ++ rest)
    (hrest : rest.take 1 ≠ [slash]) {b : AbsPath} (hb : b.root = a.root)
    (hfold : (rest.splitOn slash).foldl (normStep a.root) [] = b.segs.map Name.val) :
    normpath p = b.toStr := by
  subst hp
  have hne : a.root ++ rest ≠ [] := by simp
  simp only [normpath, if_neg hne, splitroot_root a hrest, hfold]
  rw [← hb]
  exact if_neg (toStr_ne_nil b)

/-- A spelling is normalised. -/
@[simp] theorem normpath_toStr (a : AbsPath) : normpath a.toStr = a.toStr := by
  have hrest : (body a.segs).take 1 ≠ [slash] := by
    simpa using body_take_ne a.segs [] fun _ => by simp
  refine normpath_of_fold a rfl hrest rfl ?_
  by_cases h : a.segs = []
  · rw [h]
    rfl
  · rw [splitOn_body h, foldl_normStep, List.nil_append]

theorem getLast?_body (h : ns ≠ []) : (body ns).getLast? ≠ some slash := by
  obtain ⟨ms, n, rfl⟩ := List.eq_nil_or_concat' ns |>.resolve_left h
  have hlast : (n.1).getLast? ≠ some slash := fun e => n.2.2.1 (List.mem_of_getLast? e)
  have hn : n.1 ≠ [] := n.2.1
  by_cases hm : ms = []
  · subst hm; simpa using hlast
  · rw [body_append hm (by simp), body_singleton, List.getLast?_append]
    simpa [List.getLast?_cons, List.getLast?_eq_some_getLast hn] using hlast

theorem join_toStr_of (a : AbsPath) {m : Str} (hm : slash ∉ m) :
    join a.toStr m = a.root ++ (if a.segs = [] then m else body a.segs ++ slash :: m) := by
  have hs : startswith m [slash] = false := by
    rw [Bool.eq_false_iff, Ne, startswith_iff]
    rintro ⟨t, rfl⟩
    exact hm (by simp)
  by_cases h : a.segs = []
  · have hl : a.root.getLast? = some slash := by
      unfold root; split <;> rfl
    simp [join, hs, hl, h, toStr]
  · have hl : ¬ (a.toStr = [] ∨ a.toStr.getLast? = some slash) := by
      rintro (e | e)
      · exact toStr_ne_nil a e
      · have hb : body a.segs ≠ [] := fun e' => by
          have := splitOn_body h
          rw [e', List.splitOn_nil] at this
          obtain ⟨n, hn⟩ := List.exists_mem_of_ne_nil _ h
          have hmem : n.1 ∈ [([] : Str)] := this ▸ List.mem_map_of_mem hn
          exact n.2.1 (List.mem_singleton.mp hmem)
        rw [toStr, List.getLast?_append_of_ne_nil _ hb] at e
        exact getLast?_body h e
    rw [join, hs, if_neg (by simp), if_neg hl, if_neg h, toStr, List.append_assoc]

/-- Joining a component writes it after a slash. -/
theorem exists_join_eq (a : AbsPath) :
    ∃ s : Str, ∀ m : Str, slash ∉ m → join a.toStr m = s ++ [slash] ++ m := by
  by_cases h : a.segs = []
  · obtain ⟨s, hs⟩ : ∃ s, a.root = s ++ [slash] := by
      unfold root
      split
      · exact ⟨[slash], rfl⟩
      · exact ⟨[], rfl⟩
    exact ⟨s, fun m hm => by rw [join_toStr_of a hm, if_pos h, hs]⟩
  · exact ⟨a.toStr, fun m hm => by rw [join_toStr_of a hm, if_neg h, toStr]; simp⟩

/-- Joining a name spells the path with the name pushed. -/
@[simp] theorem join_toStr (a : AbsPath) (n : Name) : join a.toStr n.1 = (a.push n).toStr := by
  rw [join_toStr_of a n.2.2.1]
  by_cases h : a.segs = []
  · simp [h, toStr]
  · rw [if_neg h, toStr, root_push, segs_push, body_append h (by simp), body_singleton]

theorem map_val_step (a : AbsPath) {m : Str} (hm : slash ∉ m) :
    (a.step m).segs.map Name.val = normStep a.root (a.segs.map Name.val) m := by
  have hlast : (a.segs.map Name.val).getLast? ≠ some [dot, dot] := by
    intro e
    obtain ⟨n, -, hn⟩ := List.mem_map.mp (List.mem_of_getLast? e)
    exact n.2.2.2.2 hn
  unfold step
  cases hn : toName? m with
  | some n =>
      obtain rfl := toName?_eq_some hn
      simp [normStep, n.2.1, n.2.2.2.1, n.2.2.2.2]
  | none =>
      have hbad : ¬ IsName m := fun h => by simp [toName?, h] at hn
      by_cases hdd : m = [dot, dot]
      · subst hdd
        have h₁ : ¬ ([dot, dot] = ([] : Str) ∨ [dot, dot] = [dot]) := by decide
        have h₂ : ¬ ([dot, dot] ≠ [dot, dot] ∨ (a.root = [] ∧ a.segs.map Name.val = []) ∨
            (a.segs.map Name.val).getLast? = some [dot, dot]) := by
          rintro (e | e | e)
          · exact e rfl
          · exact root_ne_nil a e.1
          · exact hlast e
        rw [normStep, if_neg h₁, if_neg h₂, if_pos rfl, List.map_dropLast]
      · have : m = [] ∨ m = [dot] := by
          by_contra hne
          simp only [not_or] at hne
          exact hbad ⟨hne.1, hm, hne.2, hdd⟩
        rw [normStep, if_pos this]
        simp [hdd]

theorem root_step (a : AbsPath) (m : Str) : (a.step m).root = a.root := by
  unfold step; split
  · rfl
  · split <;> rfl

/-- **Joining a component and normalising is one normalising step.** -/
theorem normpath_join (a : AbsPath) {m : Str} (hm : slash ∉ m) :
    normpath (join a.toStr m) = (a.step m).toStr := by
  refine normpath_of_fold a (join_toStr_of a hm) ?_ (root_step a m) ?_
  · by_cases h : a.segs = []
    · simp only [h, if_true]
      intro e
      cases m with
      | nil => simp at e
      | cons c m =>
          simp only [List.take_succ_cons, List.take_zero, List.cons.injEq] at e
          exact hm (by simp [e.1])
    · rw [if_neg h]; exact body_take_ne _ _ fun e => absurd e h
  · by_cases h : a.segs = []
    · rw [if_pos h, List.splitOn_eq_singleton hm, map_val_step a hm, h]; rfl
    · rw [if_neg h, List.splitOn_append_cons_self, splitOn_body h, List.splitOn_eq_singleton hm,
        List.foldl_append, foldl_normStep, List.nil_append, map_val_step a hm]
      rfl

@[simp] theorem step_name (a : AbsPath) (n : Name) : a.step n.1 = a.push n := by
  rw [step, toName?_val]

/-- The pieces `str.split` cuts out hold no separator. -/
theorem not_mem_of_mem_splitOn : ∀ (s : Str) {p : Str}, p ∈ s.splitOn slash → slash ∉ p
  | [], p, h => by rw [List.splitOn_nil, List.mem_singleton] at h; simp [h]
  | c :: s, p, h => by
      rw [List.splitOn_cons_eq_if_modifyHead] at h
      split at h
      · rcases List.mem_cons.mp h with rfl | h
        · simp
        · exact not_mem_of_mem_splitOn s h
      · rename_i hc
        cases hs : s.splitOn slash with
        | nil => exact absurd hs (List.splitOn_ne_nil _ _)
        | cons q qs =>
            rw [hs, List.modifyHead_cons] at h
            rcases List.mem_cons.mp h with rfl | h
            · have := not_mem_of_mem_splitOn s (hs ▸ List.mem_cons_self : q ∈ s.splitOn slash)
              simp only [List.mem_cons, not_or]
              exact ⟨fun e => hc (by simp [e]), this⟩
            · exact not_mem_of_mem_splitOn s (hs ▸ List.mem_cons_of_mem _ h)

/-- `normpath`'s loop below an absolute root is a walk of normalising steps. -/
theorem foldl_step : ∀ (ps : List Str) (a : AbsPath), (∀ p ∈ ps, slash ∉ p) →
    (ps.foldl step a).segs.map Name.val = ps.foldl (normStep a.root) (a.segs.map Name.val) ∧
      (ps.foldl step a).root = a.root
  | [], _, _ => ⟨rfl, rfl⟩
  | p :: ps, a, h => by
      obtain ⟨h₁, h₂⟩ := foldl_step ps (a.step p) fun q hq => h q (List.mem_cons_of_mem _ hq)
      rw [List.foldl_cons, List.foldl_cons, h₁, h₂, root_step,
        map_val_step a (h p List.mem_cons_self)]
      exact ⟨rfl, rfl⟩

theorem foldl_step_dbl (d : Bool) (ps : List Str) (ns : Loc) :
    ps.foldl step ⟨d, ns⟩ = ⟨d, (ps.foldl step ⟨false, ns⟩).segs⟩ := by
  induction ps generalizing ns with
  | nil => rfl
  | cons p ps ih =>
      have hstep : ∀ e : Bool, step ⟨e, ns⟩ p = ⟨e, (step ⟨false, ns⟩ p).segs⟩ := by
        intro e
        unfold step
        split
        · rfl
        · split <;> rfl
      rw [List.foldl_cons, List.foldl_cons, hstep d, ih, ← hstep false]

theorem step_nil (a : AbsPath) : a.step [] = a := rfl

end AbsPath

/-- The names a string resolves to: its components, without the empty and the dot ones, and `..`
taking back the one before. -/
def resolve (p : Str) : Loc := ((p.splitOn slash).foldl AbsPath.step ⟨false, []⟩).segs

/-- `p` starts with exactly two slashes. -/
def doubled (p : Str) : Bool :=
  startswith p [slash, slash] && !startswith p [slash, slash, slash]

theorem resolve_cons (t : Str) : resolve (slash :: t) = resolve t := by
  rw [resolve, ← List.nil_append (slash :: t), List.splitOn_append_cons_self, List.splitOn_nil,
    List.singleton_append, List.foldl_cons, AbsPath.step_nil]
  rfl

/-- What `splitroot` cuts an absolute string into. -/
theorem splitroot_of_isabs {p : Str} (h : isabs p = true) :
    (splitroot p).1 = AbsPath.root ⟨doubled p, []⟩ ∧ resolve (splitroot p).2 = resolve p := by
  obtain ⟨t, rfl⟩ := startswith_iff.mp h
  rw [List.singleton_append]
  rcases t with _ | ⟨c, t⟩
  · exact ⟨rfl, rfl⟩
  · by_cases hc : c = slash
    · subst hc
      by_cases ht : t.take 1 = [slash]
      · obtain ⟨u, rfl⟩ : ∃ u, t = slash :: u := by
          cases t with
          | nil => cases ht
          | cons d u => exact ⟨u, by rw [(List.cons.inj ht).1]⟩
        exact ⟨rfl, (resolve_cons _).symm⟩
      · have hsplit : splitroot (slash :: slash :: t) = ([slash, slash], t) := by
          simp [splitroot, ht]
        have hthree : startswith (slash :: slash :: t) [slash, slash, slash] = false := by
          rw [Bool.eq_false_iff, Ne, startswith_iff]
          rintro ⟨u, hu⟩
          refine ht ?_
          rw [← (List.cons.inj (List.cons.inj hu).2).2]
          rfl
        have hdoubled : doubled (slash :: slash :: t) = true := by
          rw [doubled, hthree]
          rfl
        rw [hsplit, hdoubled, resolve_cons, resolve_cons]
        exact ⟨rfl, rfl⟩
    · have hsplit : splitroot (slash :: c :: t) = ([slash], c :: t) := by
        simp [splitroot, hc]
      have hdoubled : doubled (slash :: c :: t) = false := by
        simp [doubled, startswith, Ne.symm hc]
      rw [hsplit, hdoubled, resolve_cons]
      exact ⟨rfl, rfl⟩

namespace AbsPath
variable {a b : AbsPath} {n : Name} {ns ms : List Name}

/-- **`normpath`** keeps the names an absolute string resolves to, and two slashes in front. -/
theorem normpath_eq {p : Str} (h : isabs p = true) :
    normpath p = toStr ⟨doubled p, resolve p⟩ := by
  obtain ⟨hroot, hresolve⟩ := splitroot_of_isabs h
  have hne : p ≠ [] := by
    rintro rfl
    cases h
  have hfold : ((splitroot p).2.splitOn slash).foldl (normStep (root ⟨doubled p, []⟩)) [] =
      (resolve p).map Name.val := by
    have hstep := (foldl_step ((splitroot p).2.splitOn slash) ⟨doubled p, []⟩
      fun q hq => not_mem_of_mem_splitOn _ hq).1
    rw [foldl_step_dbl, ← resolve, hresolve] at hstep
    exact hstep.symm
  rw [normpath, if_neg hne]
  dsimp only
  rw [hroot, hfold]
  exact if_neg (toStr_ne_nil ⟨doubled p, resolve p⟩)

/-- An absolute string normalises to the spelling of an absolute path. -/
theorem exists_toStr_of_normpath {p : Str} (h : isabs p = true) :
    ∃ a : AbsPath, normpath p = a.toStr := ⟨_, normpath_eq h⟩

end AbsPath

/-! ### Lengths -/

/-- What components take in a path, each with a slash. -/
def weight (comps : List Str) : Nat := (comps.flatMap fun c => slash :: c).length

theorem weight_append (xs ys : List Str) : weight (xs ++ ys) = weight xs + weight ys := by
  simp [weight]

/-- A turn of the loop pushes the component, or the components take no more than before. -/
theorem weight_normStep (root : Str) (comps : List Str) (comp : Str) :
    normStep root comps comp = comps ++ [comp] ∨
      weight (normStep root comps comp) ≤ weight comps := by
  rw [normStep]
  split
  · exact .inr le_rfl
  · split
    · exact .inl rfl
    · refine .inr ?_
      rcases List.eq_nil_or_concat' comps with rfl | ⟨init, last, rfl⟩
      · exact le_rfl
      · rw [List.dropLast_concat, weight_append]
        exact Nat.le_add_right _ _

theorem weight_foldl_normStep (root : Str) (comps acc : List Str) :
    comps.foldl (normStep root) acc = acc ++ comps ∨
      weight (comps.foldl (normStep root) acc) < weight acc + weight comps := by
  induction comps generalizing acc with
  | nil => exact .inl (List.append_nil acc).symm
  | cons comp comps ih =>
      have hcons : weight (comp :: comps) = comp.length + 1 + weight comps := by
        rw [weight, List.flatMap_cons, List.length_append, List.length_cons, weight]
      rw [List.foldl_cons, hcons]
      rcases weight_normStep root acc comp with hpush | hle
      · have hone : weight [comp] = comp.length + 1 := by simp [weight]
        have hih := ih (acc ++ [comp])
        rw [List.append_assoc, List.singleton_append, weight_append, hone] at hih
        rw [hpush]
        rcases hih with heq | hlt
        · exact .inl heq
        · exact .inr (by omega)
      · rcases ih (normStep root acc comp) with heq | hlt
        · rw [heq, weight_append]
          exact .inr (by omega)
        · exact .inr (by omega)

theorem length_intercalate {comps : List Str} (h : comps ≠ []) :
    ([slash].intercalate comps).length + 1 = weight comps := by
  induction comps with
  | nil => exact absurd rfl h
  | cons comp comps ih =>
      cases comps with
      | nil => simp [weight]
      | cons next comps =>
          have hih := ih (List.cons_ne_nil next comps)
          rw [List.intercalate_cons_cons]
          simp only [weight, List.flatMap_cons, List.length_append, List.length_cons,
            List.length_nil] at hih ⊢
          omega

theorem splitroot_append (p : Str) : (splitroot p).1 ++ (splitroot p).2 = p := by
  rw [splitroot]
  split
  · rfl
  · rename_i hslash
    split
    · have hone : p.take 1 = [slash] := not_not.mp hslash
      rw [← hone, List.take_append_drop]
    · exact List.take_append_drop 2 p

/-- **`normpath` shortens an absolute path** that it changes. -/
theorem normpath_eq_or_length_lt {p : Str} (h : isabs p = true) :
    normpath p = p ∨ (normpath p).length < p.length := by
  have hne : p ≠ [] := by
    rintro rfl
    cases h
  have hroot : (splitroot p).1 ≠ [] := by
    obtain ⟨t, rfl⟩ := startswith_iff.mp h
    rw [splitroot, if_neg (by simp)]
    split <;> simp
  have hrest : [slash].intercalate ((splitroot p).2.splitOn slash) = (splitroot p).2 :=
    List.intercalate_splitOn slash
  have hsplit : (splitroot p).2.splitOn slash ≠ [] := List.splitOn_ne_nil _ _
  have hp := congrArg List.length (splitroot_append p)
  rw [List.length_append] at hp
  have hlen := length_intercalate hsplit
  rw [hrest] at hlen
  rw [normpath, if_neg hne]
  dsimp only
  rw [if_neg fun hnil => hroot (List.append_eq_nil_iff.mp hnil).1]
  rcases weight_foldl_normStep (splitroot p).1 ((splitroot p).2.splitOn slash) [] with heq | hlt
  · rw [heq, List.nil_append, hrest, splitroot_append]
    exact .inl rfl
  · rw [List.length_append]
    by_cases hnil : ((splitroot p).2.splitOn slash).foldl (normStep (splitroot p).1) [] = []
    · rw [hnil, List.intercalate_nil, List.length_nil, List.append_nil]
      by_cases hempty : (splitroot p).2 = []
      · left
        have happ := splitroot_append p
        rwa [hempty, List.append_nil] at happ
      · have := List.length_pos_iff.mpr hempty
        exact .inr (by omega)
    · have hshort := length_intercalate hnil
      have hzero : weight [] = 0 := rfl
      exact .inr (by omega)

/-! ### Relative strings -/

/-- What `normpath`'s loop collects: components that are not empty. -/
theorem foldl_normStep_ne_nil (root : Str) (ps : List Str) (hps : ∀ p ∈ ps, slash ∉ p) :
    ∀ comps : List Str, (∀ c ∈ comps, c ≠ [] ∧ slash ∉ c) →
      ∀ c ∈ ps.foldl (normStep root) comps, c ≠ [] ∧ slash ∉ c := by
  induction ps with
  | nil => exact fun _ h => h
  | cons p ps ih =>
      intro comps hcomps
      rw [List.foldl_cons]
      refine ih (fun q hq => hps q (List.mem_cons_of_mem _ hq)) _ fun c hc => ?_
      unfold normStep at hc
      split at hc
      · exact hcomps c hc
      · rename_i hkept
        split at hc
        · rcases List.mem_append.mp hc with hc | hc
          · exact hcomps c hc
          · rw [List.mem_singleton.mp hc]
            exact ⟨fun e => hkept (.inl e), hps p List.mem_cons_self⟩
        · exact hcomps c (List.dropLast_subset _ hc)

theorem head?_intercalate {comps : List Str} (h : ∀ c ∈ comps, c ≠ [] ∧ slash ∉ c) :
    ([slash].intercalate comps).head? ≠ some slash := by
  cases comps with
  | nil => simp
  | cons c comps =>
      obtain ⟨hne, hslash⟩ := h c List.mem_cons_self
      have hhead : c.head? ≠ some slash := fun e => hslash (List.mem_of_head? e)
      by_cases hcs : comps = []
      · rw [hcs]
        simpa using hhead
      · rw [List.intercalate_cons_of_ne_nil hcs, List.append_assoc,
          List.head?_append_of_ne_nil _ hne]
        exact hhead

/-- **`normpath`** makes nothing absolute. -/
theorem isabs_of_isabs_normpath {p : Str} (h : isabs (normpath p) = true) : isabs p = true := by
  by_contra hrel
  have htake : p.take 1 ≠ [slash] := by
    intro e
    refine hrel (startswith_iff.mpr ?_)
    exact e ▸ List.take_prefix 1 p
  have hsplit : splitroot p = ([], p) := if_pos htake
  have hcomps := foldl_normStep_ne_nil [] (p.splitOn slash)
    (fun q hq => AbsPath.not_mem_of_mem_splitOn p hq) [] fun _ hc => absurd hc List.not_mem_nil
  obtain ⟨t, ht⟩ := startswith_iff.mp h
  have hhead : (normpath p).head? = some slash := by
    rw [← ht]
    rfl
  rw [normpath] at hhead
  split at hhead
  · exact absurd hhead (by decide)
  · dsimp only at hhead
    rw [hsplit, List.nil_append] at hhead
    split at hhead
    · exact absurd hhead (by decide)
    · exact head?_intercalate hcomps hhead

namespace AbsPath
variable {a b : AbsPath} {n : Name} {ns ms : List Name}

/-! ### The order of absolute paths -/

/-- `a ≤ b`: `b` is at or under `a`, by names and with the same root. -/
instance : PartialOrder AbsPath where
  le a b := a.dbl = b.dbl ∧ a.segs <+: b.segs
  le_refl _ := ⟨rfl, List.prefix_rfl⟩
  le_trans _ _ _ h₁ h₂ := ⟨h₁.1.trans h₂.1, h₁.2.trans h₂.2⟩
  le_antisymm a b h₁ h₂ := by
    obtain ⟨d, s⟩ := a
    obtain ⟨d', s'⟩ := b
    obtain rfl : d = d' := h₁.1
    obtain rfl : s = s' := h₁.2.eq_of_length (le_antisymm h₁.2.length_le h₂.2.length_le)
    rfl

instance (a b : AbsPath) : Decidable (a ≤ b) :=
  inferInstanceAs (Decidable (a.dbl = b.dbl ∧ a.segs <+: b.segs))

theorem le_def : a ≤ b ↔ a.dbl = b.dbl ∧ a.segs <+: b.segs := Iff.rfl

theorem root_inj (h : a.root = b.root) : a.dbl = b.dbl := by
  unfold root at h
  cases ha : a.dbl <;> cases hb : b.dbl <;> simp_all

/-- **`b` starts with `a` and a slash exactly when `b` is strictly under `a`**, `a` not a root. -/
theorem sep_prefix_toStr (h : a.segs ≠ []) : a.toStr ++ [slash] <+: b.toStr ↔ a < b := by
  constructor
  · rintro ⟨t, ht⟩
    have hsplit : (a.root, body a.segs ++ slash :: t) = (b.root, body b.segs) := by
      rw [← splitroot_toStr b, ← ht,
        ← splitroot_root a (body_take_ne a.segs (slash :: t) fun e => absurd e h)]
      simp [toStr]
    obtain ⟨hr, hb⟩ := Prod.mk.inj hsplit
    have hbne : b.segs ≠ [] := fun e => by simp [e] at hb
    have hmap := splitOn_body hbne
    rw [← hb, List.splitOn_append_cons_self, splitOn_body h] at hmap
    obtain ⟨l₁, l₂, e, h₁, h₂⟩ := List.map_eq_append_iff.mp hmap.symm
    obtain rfl : l₁ = a.segs := List.map_injective_iff.mpr (fun _ _ => Name.ext) h₁
    refine lt_of_le_of_ne ⟨root_inj hr, l₂, e.symm⟩ fun eab => ?_
    have : l₂ = [] := by simpa [eab] using e
    rw [this] at h₂
    exact List.splitOn_ne_nil _ _ h₂.symm
  · intro hlt
    obtain ⟨hd, t, ht⟩ := hlt.le
    have htne : t ≠ [] := fun e => by
      subst e
      exact hlt.not_ge ⟨hd.symm, by simp [← ht]⟩
    refine ⟨body t, ?_⟩
    have hroot : a.root = b.root := by simp [root, hd]
    rw [toStr, toStr, ← ht, body_append h htne, hroot]
    simp

/-- `b` is `a` or starts with `a` and a slash exactly when it is at or under `a`. -/
theorem eq_or_sep_prefix_toStr (h : a.segs ≠ []) :
    (b.toStr = a.toStr ∨ a.toStr ++ [slash] <+: b.toStr) ↔ a ≤ b := by
  rw [sep_prefix_toStr h, toStr_inj, le_iff_lt_or_eq, or_comm, eq_comm]

theorem le_push (a : AbsPath) (n : Name) : a ≤ a.push n := ⟨rfl, List.prefix_append _ _⟩

/-- `a` with the names of `t` pushed one after another. -/
def extend (a : AbsPath) (t : Loc) : AbsPath := { a with segs := a.segs ++ t }

@[simp] theorem segs_extend (a : AbsPath) (t : Loc) : (a.extend t).segs = a.segs ++ t := rfl

@[simp] theorem extend_nil (a : AbsPath) : a.extend [] = a := by simp [extend]

@[simp] theorem extend_push (a : AbsPath) (n : Name) (t : Loc) :
    (a.push n).extend t = a.extend (n :: t) := by simp [extend, push]

theorem le_iff_exists_extend : a ≤ b ↔ ∃ t, b = a.extend t := by
  constructor
  · rintro ⟨hd, t, ht⟩
    exact ⟨t, by simp [extend, hd, ht]⟩
  · rintro ⟨t, rfl⟩
    exact ⟨rfl, List.prefix_append _ _⟩

theorem le_extend (a : AbsPath) (t : Loc) : a ≤ a.extend t := ⟨rfl, List.prefix_append _ _⟩

/-- Under a path is the path itself, or under it by one more name. -/
theorem le_push_iff : a ≤ b.push n ↔ a ≤ b ∨ a = b.push n := by
  obtain ⟨d, s⟩ := a
  obtain ⟨d', s'⟩ := b
  simp only [le_def, push, List.prefix_concat_iff, mk.injEq]
  tauto

end AbsPath

end Posix
