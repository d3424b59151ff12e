import MediaScanMonitor.Library.Str

/-!
# Library — lists and numbers in text

`re.split` on runs of separators, with the empty parts left out, and the decimal numbers of `str(n)`
and `int(s)`.  What is a digit, and which, is told by the Unicode database (`DigitTable`); of its
entries nothing is used but those of the ASCII digits.

* `fields_append_cons`: a separator cuts.
* `fields_intercalate`: what is joined with separators comes apart again, and further where an item
  has separators of its own.
* `flatten_fields`: nothing but separators is lost.
* `int_formatNat`: a number is read back.
-/

namespace Py

/-! ### Splitting -/

section
variable {sep : CodePoint → Bool} {c : CodePoint} {s t : Str}

/-- `re.split`, on runs of separators. -/
def splitRuns (sep : CodePoint → Bool) : Str → List Str
  | [] => [[]]
  | c :: s =>
    if sep c then
      if s.head?.any sep then splitRuns sep s else [] :: splitRuns sep s
    else (splitRuns sep s).modifyHead (c :: ·)

/-- The parts that are not empty. -/
def fields (sep : CodePoint → Bool) (s : Str) : List Str := (splitRuns sep s).filter (· ≠ [])

/-- A run splits like its characters one by one, but for empty parts. -/
theorem splitRuns_eq (sep : CodePoint → Bool) (s : Str) :
    ∃ first rest rest', splitRuns sep s = first :: rest ∧ s.splitOnP sep = first :: rest' ∧
      rest.filter (· ≠ []) = rest'.filter (· ≠ []) := by
  induction s with
  | nil => exact ⟨[], [], [], rfl, rfl, rfl⟩
  | cons c s ih =>
      obtain ⟨first, rest, rest', hruns, hsplit, hfilter⟩ := ih
      by_cases hc : sep c = true
      · have hcons : (c :: s).splitOnP sep = [] :: s.splitOnP sep := by
          rw [List.splitOnP_cons_eq_if_modifyHead, if_pos hc]
        rw [splitRuns, if_pos hc, hcons, hruns, hsplit]
        by_cases hnext : s.head?.any sep = true
        · -- the run goes on, so nothing stands in front of its next separator
          obtain ⟨d, hd, hsep⟩ := (Option.any_eq_true _ _).mp hnext
          obtain ⟨u, rfl⟩ := List.head?_eq_some_iff.mp hd
          rw [List.splitOnP_cons_eq_if_modifyHead, if_pos hsep] at hsplit
          obtain rfl := (List.cons.inj hsplit).1
          rw [if_pos hnext]
          refine ⟨[], rest, [] :: rest', rfl, rfl, hfilter.trans ?_⟩
          exact (List.filter_cons_of_neg (by simp)).symm
        · rw [if_neg hnext]
          exact ⟨[], _, _, rfl, rfl, by rw [List.filter_cons, List.filter_cons, hfilter]⟩
      · rw [splitRuns, if_neg hc, List.splitOnP_cons_eq_if_modifyHead, if_neg hc, hruns, hsplit]
        exact ⟨c :: first, rest, rest', rfl, rfl, hfilter⟩

theorem fields_eq (sep : CodePoint → Bool) (s : Str) :
    fields sep s = (s.splitOnP sep).filter (· ≠ []) := by
  obtain ⟨first, rest, rest', hruns, hsplit, hfilter⟩ := splitRuns_eq sep s
  rw [fields, hruns, hsplit, List.filter_cons, List.filter_cons, hfilter]

@[simp] theorem fields_nil : fields sep [] = [] := rfl

/-- A separator cuts. -/
theorem fields_append_cons (s t : Str) (hc : sep c = true) :
    fields sep (s ++ c :: t) = fields sep s ++ fields sep t := by
  rw [fields_eq, fields_eq, fields_eq, List.splitOnP_append_cons s t hc, List.filter_append]

theorem fields_cons (s : Str) (hc : sep c = true) : fields sep (c :: s) = fields sep s :=
  fields_append_cons [] s hc

theorem fields_concat (s : Str) (hc : sep c = true) : fields sep (s ++ [c]) = fields sep s := by
  rw [fields_append_cons s [] hc, fields_nil, List.append_nil]

/-- What has no separators is one part. -/
theorem fields_of_not (hne : s ≠ []) (h : ∀ c ∈ s, sep c = false) : fields sep s = [s] := by
  rw [fields_eq, List.splitOnP_eq_singleton h]
  simp [hne]

theorem flatten_filter_ne_nil (parts : List Str) :
    (parts.filter (· ≠ [])).flatten = parts.flatten := by
  induction parts with
  | nil => rfl
  | cons part parts ih =>
      by_cases hnil : part = []
      · rw [List.filter_cons_of_neg (by simp [hnil]), ih, hnil]
        rfl
      · rw [List.filter_cons_of_pos (by simp [hnil]), List.flatten_cons, List.flatten_cons, ih]

/-- **Nothing but separators is lost.** -/
theorem flatten_fields (sep : CodePoint → Bool) (s : Str) :
    (fields sep s).flatten = s.filter fun c => !sep c := by
  rw [fields_eq, flatten_filter_ne_nil]
  induction s with
  | nil => rfl
  | cons c s ih =>
      rw [List.splitOnP_cons_eq_if_modifyHead]
      by_cases hc : sep c = true
      · rw [if_pos hc, List.flatten_cons, List.nil_append, ih,
          List.filter_cons_of_neg (by simp [hc])]
      · rw [if_neg hc, List.filter_cons_of_pos (by simp [hc]), ← ih]
        cases hsplit : s.splitOnP sep with
        | nil => exact absurd hsplit (List.splitOnP_ne_nil _ _)
        | cons first rest => rfl

theorem mem_of_mem_fields (h : t ∈ fields sep s) (hc : c ∈ t) : c ∈ s ∧ sep c = false := by
  have hflat : c ∈ (fields sep s).flatten := List.mem_flatten_of_mem h hc
  rw [flatten_fields, List.mem_filter, Bool.not_eq_true'] at hflat
  exact hflat

/-- White space around a string is no part of it. -/
theorem fields_strip (h : ∀ c, isspace c = true → sep c = true) (s : Str) :
    fields sep (strip s) = fields sep s := by
  have hleft : fields sep (s.dropWhile isspace) = fields sep s := by
    induction s with
    | nil => rfl
    | cons c s ih =>
        by_cases hc : isspace c = true
        · rw [List.dropWhile_cons_of_pos hc, ih, fields_cons s (h c hc)]
        · rw [List.dropWhile_cons_of_neg hc]
  have hright : ∀ u : Str, fields sep (rstrip u) = fields sep u := by
    intro u
    induction u using List.reverseRecOn with
    | nil => rfl
    | append_singleton u c ih =>
        by_cases hc : isspace c = true
        · rw [rstrip_append_of_eq u (by simp [rstrip, hc]), ih, fields_concat u (h c hc)]
        · rw [rstrip_concat_of_not u (Bool.eq_false_iff.mpr hc)]
  rw [strip, hright, hleft]

/-- **What is joined comes apart again.** -/
theorem fields_intercalate {glue : Str} (hne : glue ≠ []) (hglue : ∀ c ∈ glue, sep c = true)
    (items : List Str) : fields sep (glue.intercalate items) = items.flatMap (fields sep) := by
  have hskip : ∀ (u v : Str), (∀ c ∈ u, sep c = true) → fields sep (u ++ v) = fields sep v := by
    intro u v hu
    induction u with
    | nil => rfl
    | cons c u ih =>
        rw [List.forall_mem_cons] at hu
        rw [List.cons_append, fields_cons _ hu.1, ih hu.2]
  obtain ⟨g, gs, rfl⟩ := List.exists_cons_of_ne_nil hne
  rw [List.forall_mem_cons] at hglue
  induction items with
  | nil => rfl
  | cons item items ih =>
      cases items with
      | nil => simp
      | cons next items =>
          rw [List.intercalate_cons_cons, List.append_assoc, List.cons_append,
            fields_append_cons _ _ hglue.1, hskip gs _ hglue.2, ih]
          exact List.flatMap_cons.symm

end

/-! ### Numbers -/

/-- `str(n)`. -/
def formatNat (n : Nat) : Str := str (toString n)

/-- What `int` and `\d` read of the Unicode database: the value of a digit. -/
structure DigitTable where
  digit : CodePoint → Option Nat
  digit_ofChar : ∀ c : Char, c.isDigit = true →
    digit (CodePoint.ofChar c) = some (c.toNat - '0'.toNat)

/-- `int(s)`; `none` where `\d+` does not match `s`. -/
def DigitTable.int (D : DigitTable) (s : Str) : Option Nat :=
  if s = [] then none else s.foldlM (fun n c => (D.digit c).map (10 * n + ·)) 0

theorem formatNat_eq (n : Nat) : formatNat n = (Nat.toDigits 10 n).map CodePoint.ofChar := by
  rw [formatNat, str, Nat.toString_eq_repr, Nat.repr_eq_ofList_toDigits, String.toList_ofList]

/-- A number is read back. -/
@[simp] theorem int_formatNat (D : DigitTable) (n : Nat) : D.int (formatNat n) = some n := by
  have hread : ∀ (cs : List Char) (k : Nat), (∀ c ∈ cs, c.isDigit = true) →
      (cs.map CodePoint.ofChar).foldlM (fun n c => (D.digit c).map (10 * n + ·)) k =
        some (Nat.ofDigitChars 10 cs k) := by
    intro cs
    induction cs with
    | nil => intro k _; rfl
    | cons c cs ih =>
        intro k hcs
        rw [List.forall_mem_cons] at hcs
        rw [List.map_cons, List.foldlM_cons, D.digit_ofChar c hcs.1, Nat.ofDigitChars_cons]
        exact ih _ hcs.2
  have hne : (Nat.toDigits 10 n).map CodePoint.ofChar ≠ [] := by
    simp [Nat.toDigits_ne_nil]
  have hdigit : ∀ c ∈ Nat.toDigits 10 n, c.isDigit = true := fun c hc =>
    Nat.isDigit_of_mem_toDigits (by decide) (by decide) hc
  rw [DigitTable.int, formatNat_eq, if_neg hne, hread _ _ hdigit, Nat.ofDigitChars_ten_toDigits]

theorem val_ofChar_of_isDigit {c : Char} (h : c.isDigit = true) :
    (CodePoint.ofChar c).val = c.toNat ∧ 48 ≤ c.toNat ∧ c.toNat ≤ 57 := by
  rw [Char.isDigit, Bool.and_eq_true, decide_eq_true_eq, decide_eq_true_eq] at h
  have hrange : 48 ≤ c.toNat ∧ c.toNat ≤ 57 :=
    ⟨UInt32.le_iff_toNat_le.mp h.1, UInt32.le_iff_toNat_le.mp h.2⟩
  exact ⟨Nat.mod_eq_of_lt (by omega), hrange⟩

/-- The database, of which only the entries of the ASCII digits are filled in. -/
def DigitTable.ascii : DigitTable where
  digit c := if 48 ≤ c.val ∧ c.val ≤ 57 then some (c.val - 48) else none
  digit_ofChar c hc := by
    obtain ⟨hval, hrange⟩ := val_ofChar_of_isDigit hc
    rw [hval, if_pos hrange]
    rfl

theorem formatNat_injective : Function.Injective formatNat := by
  intro m n h
  have hread := congrArg DigitTable.ascii.int h
  rw [int_formatNat, int_formatNat] at hread
  exact Option.some_inj.mp hread

/-! ### What stands between two ends -/

/-- The group of `re.fullmatch`, between two fixed ends. -/
def between (start stop s : Str) : Option Str :=
  if startswith s start && stop.isSuffixOf (s.drop start.length) then
    some ((s.drop start.length).take ((s.drop start.length).length - stop.length))
  else none

theorem between_append (start stop s : Str) :
    between start stop (start ++ (s ++ stop)) = some s := by
  rw [between, List.drop_left]
  simp [startswith]

theorem between_eq_none {start stop s t : Str} (hlen : stop.length ≤ t.length)
    (h : ¬ stop <:+ t) : between start stop (start ++ (s ++ t)) = none := by
  have hno : ¬ stop <:+ s ++ t := by
    intro hsuffix
    exact h (List.suffix_of_suffix_length_le hsuffix (List.suffix_append s t) hlen)
  rw [between, List.drop_left]
  simp [hno]

end Py
