import Mathlib.Data.List.DropRight
import Mathlib.Data.Fin.Basic

/-!
# Library — Python strings

A Python `str` is a sequence of code points, lone surrogates included, so `Str` is a list of
`CodePoint`s and not a list of `Char`s.  The methods below follow the library reference: the
white space of `str.strip` is `str.isspace`'s, and `split` is `List.splitOn`.

* `rstrip_append_of_ne`, `rstrip_append_of_eq`: what `rstrip` leaves of a concatenation.
* `strip_of_head`: a string that starts with no white space loses some only at its end.
* `eq_append_lstripOf`, `lstripOf_append`: `lstrip` of one character cuts off a run of it.
-/

namespace Py

/-- A code point, `0 … 0x10FFFF`, surrogates included. -/
abbrev CodePoint := Fin 0x110000

abbrev Str := List CodePoint

instance : LawfulBEq Str := inferInstance

def CodePoint.ofChar (c : Char) : CodePoint := ⟨c.toNat % 0x110000, Nat.mod_lt _ (by decide)⟩

/-- The `str` of a Lean string literal. -/
def str (s : String) : Str := s.toList.map CodePoint.ofChar

/-- `/`. -/
def slash : CodePoint := 47

/-- `.`. -/
def dot : CodePoint := 46

/-- `,`. -/
def comma : CodePoint := 44

/-- `\n`. -/
def newline : CodePoint := 10

/-- `str.isspace` on one code point. -/
def isspace (c : CodePoint) : Bool :=
  c.val ∈ [9, 10, 11, 12, 13, 28, 29, 30, 31, 32, 133, 160, 5760, 8192, 8193, 8194, 8195, 8196,
    8197, 8198, 8199, 8200, 8201, 8202, 8232, 8233, 8239, 8287, 12288]

/-- `s.rstrip()`. -/
def rstrip (s : Str) : Str := s.rdropWhile isspace

/-- `s.strip()`. -/
def strip (s : Str) : Str := rstrip (s.dropWhile isspace)

/-- `s.startswith(p)`. -/
def startswith (s p : Str) : Bool := p.isPrefixOf s

/-- `s.endswith(c)`, for one character. -/
def endswith (s : Str) (c : CodePoint) : Bool := s.getLast? = some c

/-- `s.lstrip(c)`, for one character. -/
def lstripOf (c : CodePoint) (s : Str) : Str := s.dropWhile (· = c)

/-- `s.rstrip(c)`, for one character. -/
def rstripOf (c : CodePoint) (s : Str) : Str := s.rdropWhile (· = c)

/-- `s.rsplit(c, 1)[-1]`: what follows the last `c`. -/
def afterLast (c : CodePoint) (s : Str) : Str := s.rtakeWhile (· ≠ c)

/-- `s.rpartition(c)`. -/
def rpartition (c : CodePoint) (s : Str) : Str × Str × Str :=
  if c ∈ s then ((s.rdropWhile (· ≠ c)).dropLast, [c], afterLast c s) else ([], [], s)

/-- `s.lower()`, for a string of ASCII characters. -/
def asciiLower (s : Str) : Str := s.map fun c => if 65 ≤ c ∧ c ≤ 90 then c + 32 else c

/-- `asciiLower` of one character, by its number. -/
theorem mem_asciiLower {c d : CodePoint} :
    d ∈ asciiLower [c] ↔ if 65 ≤ c.val ∧ c.val ≤ 90 then d.val = c.val + 32 else d = c := by
  have hupper : 65 ≤ c ∧ c ≤ 90 ↔ 65 ≤ c.val ∧ c.val ≤ 90 := by simp [Fin.le_def]
  rw [asciiLower, List.map_cons, List.map_nil, List.mem_singleton]
  simp only [hupper]
  split
  · rw [Fin.ext_iff, Fin.val_add]
    have h32 : (32 : CodePoint).val = 32 := rfl
    omega
  · exact Iff.rfl

theorem asciiLower_of_not {c : CodePoint} (h : ¬(65 ≤ c.val ∧ c.val ≤ 90)) :
    asciiLower [c] = [c] := by
  have hmem : c ∈ asciiLower [c] := by simp [mem_asciiLower, h]
  rw [asciiLower, List.map_cons, List.map_nil, List.mem_singleton] at hmem
  rw [asciiLower, List.map_cons, List.map_nil, ← hmem]

theorem startswith_iff {s p : Str} : startswith s p = true ↔ p <+: s :=
  List.isPrefixOf_iff_prefix

@[simp] theorem isspace_slash : isspace slash = false := by decide

@[simp] theorem rstrip_nil : rstrip [] = [] := rfl

@[simp] theorem rstrip_rstrip (s : Str) : rstrip (rstrip s) = rstrip s :=
  List.rdropWhile_idempotent _ _

theorem rstrip_isPrefix (s : Str) : rstrip s <+: s := List.rdropWhile_prefix _ _

theorem rstrip_append_of_ne {t : Str} (s : Str) (h : rstrip t ≠ []) :
    rstrip (s ++ t) = s ++ rstrip t := by
  induction t using List.reverseRecOn with
  | nil => exact absurd rstrip_nil h
  | append_singleton t c ih =>
      simp only [rstrip, ← List.append_assoc, List.rdropWhile_concat] at ih h ⊢
      by_cases hc : isspace c = true
      · rw [if_pos hc] at h ⊢
        rw [if_pos hc]
        exact ih h
      · rw [if_neg hc, if_neg hc, List.append_assoc]

theorem rstrip_append_of_eq {t : Str} (s : Str) (h : rstrip t = []) :
    rstrip (s ++ t) = rstrip s := by
  induction t using List.reverseRecOn with
  | nil => rw [List.append_nil]
  | append_singleton t c ih =>
      simp only [rstrip, ← List.append_assoc, List.rdropWhile_concat] at ih h ⊢
      by_cases hc : isspace c = true
      · rw [if_pos hc] at h ⊢
        exact ih h
      · rw [if_neg hc] at h
        exact absurd h (by simp)

theorem rstrip_concat_of_not {c : CodePoint} (s : Str) (hc : isspace c = false) :
    rstrip (s ++ [c]) = s ++ [c] :=
  List.rdropWhile_concat_neg _ _ _ (by simp [hc])

/-- A string with no white space in front loses some only at its end. -/
theorem strip_of_head {c : CodePoint} (s : Str) (hc : isspace c = false) :
    strip (c :: s) = rstrip (c :: s) := by
  simp [strip, hc]

theorem head?_dropWhile {p : CodePoint → Bool} {c : CodePoint} {s : Str}
    (h : (s.dropWhile p).head? = some c) : p c = false := by
  have hnot := List.head?_dropWhile_not p s
  rw [h] at hnot
  exact hnot

/-- A string that starts with no white space keeps its first character. -/
theorem rstrip_cons {c : CodePoint} (s : Str) (hc : isspace c = false) :
    rstrip (c :: s) = c :: rstrip s := by
  by_cases h : rstrip s = []
  · have hone : rstrip [c] = [c] := rstrip_concat_of_not [] hc
    rw [h, ← List.singleton_append, rstrip_append_of_eq _ h, hone]
  · exact rstrip_append_of_ne [c] h

theorem strip_eq_self {s : Str} (hhead : ∀ c, s.head? = some c → isspace c = false)
    (hlast : rstrip s = s) : strip s = s := by
  cases s with
  | nil => rfl
  | cons c s => rw [strip_of_head s (hhead c rfl), hlast]

/-- What `strip` leaves starts with no white space. -/
theorem head?_strip {s : Str} {c : CodePoint} (h : (strip s).head? = some c) :
    isspace c = false := by
  rw [strip] at h
  cases hs : s.dropWhile isspace with
  | nil => simp [hs] at h
  | cons d t =>
      have hd : isspace d = false := head?_dropWhile (s := s) (by rw [hs]; rfl)
      rw [hs, rstrip_cons t hd] at h
      cases h
      exact hd

@[simp] theorem strip_strip (s : Str) : strip (strip s) = strip s :=
  strip_eq_self (fun _ => head?_strip) (rstrip_rstrip _)

/-- An end of a string that ends in no white space ends in none. -/
theorem rstrip_of_isSuffix {s t : Str} (h : t <:+ s) (hs : rstrip s = s) : rstrip t = t := by
  refine List.rdropWhile_eq_self_iff.mpr fun hne => ?_
  rw [h.getLast hne]
  exact List.rdropWhile_eq_self_iff.mp hs _

/-- Of two cuts in front the wider one decides. -/
theorem dropWhile_dropWhile {p q : CodePoint → Bool} (h : ∀ c, p c = true → q c = true) (s : Str) :
    (s.dropWhile p).dropWhile q = s.dropWhile q := by
  induction s with
  | nil => rfl
  | cons c s ih =>
      by_cases hp : p c = true
      · rw [List.dropWhile_cons_of_pos hp, List.dropWhile_cons_of_pos (h c hp), ih]
      · rw [List.dropWhile_cons_of_neg hp]

/-- A prefix is taken off where the rest does not go on with it. -/
theorem takeWhile_append_of_all {p : CodePoint → Bool} {s rest : Str} (hs : ∀ c ∈ s, p c = true)
    (hrest : ∀ c, rest.head? = some c → p c = false) : (s ++ rest).takeWhile p = s := by
  rw [List.takeWhile_append_of_pos hs]
  cases rest with
  | nil => simp
  | cons c rest => rw [List.takeWhile_cons_of_neg (by simp [hrest c rfl]), List.append_nil]

theorem length_strip_le (s : Str) : (strip s).length ≤ s.length :=
  (rstrip_isPrefix _).length_le.trans (List.dropWhile_suffix _).length_le

/-- `lstrip` of `c` cuts off the run of `c`s in front. -/
theorem eq_append_lstripOf (c : CodePoint) (s : Str) :
    s = List.replicate (s.takeWhile (· = c)).length c ++ lstripOf c s := by
  have hrun : s.takeWhile (· = c) = List.replicate (s.takeWhile (· = c)).length c :=
    List.eq_replicate_iff.mpr ⟨rfl, fun x hx => by simpa using List.mem_takeWhile_imp hx⟩
  rw [← hrun]
  exact (List.takeWhile_append_dropWhile).symm

theorem lstripOf_append {c : CodePoint} (k : Nat) {s : Str} (h : s.head? ≠ some c) :
    lstripOf c (List.replicate k c ++ s) = s := by
  induction k with
  | zero =>
      cases s with
      | nil => rfl
      | cons x s => simpa [lstripOf] using h
  | succ k ih => simpa [lstripOf, List.replicate_succ] using ih

theorem head?_lstripOf (c : CodePoint) (s : Str) : (lstripOf c s).head? ≠ some c := by
  intro h
  have hno := head?_dropWhile h
  simp at hno

/-! ### The last occurrence of a character -/

theorem exists_last {c : CodePoint} {s : Str} (h : c ∈ s) : ∃ u v, c ∉ v ∧ s = u ++ c :: v := by
  obtain ⟨v, u, he, hv⟩ := List.eq_append_cons_of_mem (List.mem_reverse.mpr h)
  refine ⟨u.reverse, v.reverse, fun hmem => hv (List.mem_reverse.mp hmem), ?_⟩
  rw [← List.reverse_reverse s, he]
  simp

theorem afterLast_of_not_mem {c : CodePoint} {s : Str} (h : c ∉ s) : afterLast c s = s := by
  refine List.rtakeWhile_eq_self_iff.mpr fun x hx => decide_eq_true ?_
  rintro rfl
  exact h hx

theorem afterLast_append {c : CodePoint} (u : Str) {v : Str} (h : c ∉ v) :
    afterLast c (u ++ c :: v) = v := by
  induction v using List.reverseRecOn with
  | nil => exact List.rtakeWhile_concat_neg _ _ _ (by simp)
  | append_singleton v x ih =>
      rw [List.mem_append, List.mem_singleton, not_or] at h
      rw [← List.cons_append, ← List.append_assoc, afterLast,
        List.rtakeWhile_concat_pos _ _ _ (by simpa using Ne.symm h.2), ← afterLast, ih h.1]

theorem afterLast_append_cons (c : CodePoint) (u w : Str) :
    afterLast c (u ++ c :: w) = afterLast c w := by
  by_cases h : c ∈ w
  · obtain ⟨w₁, w₂, hw₂, rfl⟩ := exists_last h
    rw [← List.cons_append, ← List.append_assoc, afterLast_append _ hw₂, afterLast_append _ hw₂]
  · rw [afterLast_append u h, afterLast_of_not_mem h]

theorem not_mem_afterLast (c : CodePoint) (s : Str) : c ∉ afterLast c s := by
  intro h
  simpa using List.mem_rtakeWhile_imp h

theorem rpartition_of_not_mem {c : CodePoint} {s : Str} (h : c ∉ s) :
    rpartition c s = ([], [], s) := if_neg h

theorem rpartition_append {c : CodePoint} (u : Str) {v : Str} (h : c ∉ v) :
    rpartition c (u ++ c :: v) = (u, [c], v) := by
  have hdrop : (u ++ c :: v).rdropWhile (· ≠ c) = u ++ [c] := by
    induction v using List.reverseRecOn with
    | nil => exact List.rdropWhile_concat_neg _ _ _ (by simp)
    | append_singleton v x ih =>
        rw [List.mem_append, List.mem_singleton, not_or] at h
        rw [← List.cons_append, ← List.append_assoc,
          List.rdropWhile_concat_pos _ _ _ (by simpa using Ne.symm h.2), ih h.1]
  rw [rpartition, if_pos (by simp), hdrop, afterLast_append u h, List.dropLast_concat]

end Py
