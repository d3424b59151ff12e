import MediaScanMonitor.Library.Utf8

/-!
# Library — percent encoding and queries

`urllib.parse.quote` with `safe='/'`, and how a query is read: it starts at the first `?` and ends
at a `#`, its parameters stand between `&`s, and the name of each ends at the first `=`.

* `unquote_flatMap`: what is quoted is got back.
* `urlParams_eq_iff`: when a URL with a parameter appended has that one and no other.
-/

namespace Py

-- Membership in a string is decided with this.
instance lawfulBEqCodePoint : LawfulBEq CodePoint := inferInstance

/-- `%`. -/
def percent : CodePoint := 37

/-- `&`. -/
def ampersand : CodePoint := 38

/-- `=`. -/
def equals : CodePoint := 61

/-- `?`. -/
def question : CodePoint := 63

/-- `#`. -/
def hash : CodePoint := 35

/-! ### Quoting -/

/-- The bytes that `quote` leaves as they are. -/
def isSafe (b : Byte) : Bool :=
  (65 ≤ b.val && b.val ≤ 90) || (97 ≤ b.val && b.val ≤ 122) || (48 ≤ b.val && b.val ≤ 57) ||
    b.val ∈ [95, 46, 45, 126, 47]

/-- A hexadecimal digit. -/
def hexDigit (n : Nat) : CodePoint := codePoint (if n < 10 then 48 + n else 55 + n)

/-- A byte, quoted. -/
def quoteByte (b : Byte) : Str :=
  if isSafe b then [codePoint b.val] else [percent, hexDigit (b.val / 16), hexDigit (b.val % 16)]

/-- `quote(s, safe='/')`: `none` where it raises. -/
def quote (s : Str) : Option Str := (encode s).map fun bytes => bytes.flatMap quoteByte

/-- The value of a hexadecimal digit. -/
def hexValue (c : CodePoint) : Option Nat :=
  if 48 ≤ c.val ∧ c.val ≤ 57 then some (c.val - 48)
  else if 65 ≤ c.val ∧ c.val ≤ 70 then some (c.val - 55)
  else if 97 ≤ c.val ∧ c.val ≤ 102 then some (c.val - 87)
  else none

/-- The byte that two hexadecimal digits stand for. -/
def hexPair : Str → Option Byte
  | c :: d :: _ =>
    match hexValue c, hexValue d with
    | some m, some n => some (byte (16 * m + n))
    | _, _ => none
  | _ => none

/-- A character that is read, or the byte that it quotes with the two behind it. -/
def unquoteNext (c : CodePoint) (s : Str) : List Byte × Nat :=
  if c = percent then
    match hexPair s with
    | some b => ([b], 2)
    | none => (utf8 c, 0)
  else (utf8 c, 0)

/-- `unquote_to_bytes`. -/
def unquote (s : Str) : List Byte := scan unquoteNext 0 s

/-! ### Queries -/

/-- The query of a URL. -/
def urlQuery (url : Str) : Option Str :=
  let s := url.takeWhile (· ≠ hash)
  if question ∈ s then some ((s.dropWhile (· ≠ question)).drop 1) else none

/-- A parameter, its name in front of the first `=`. -/
def param (s : Str) : List Byte × List Byte :=
  (unquote (s.takeWhile (· ≠ equals)), unquote ((s.dropWhile (· ≠ equals)).drop 1))

/-- The parameters of a query. -/
def queryParams (query : Str) : List (List Byte × List Byte) :=
  ((query.splitOn ampersand).filter (· ≠ [])).map param

/-- The parameters of a URL. -/
def urlParams (url : Str) : List (List Byte × List Byte) := ((urlQuery url).map queryParams).getD []

/-- The characters that end something. -/
def reserved : List CodePoint := [hash, question, ampersand, equals]

/-- A string that ends nothing. -/
def IsPlain (s : Str) : Prop := ∀ c ∈ s, c ∉ reserved

instance (s : Str) : Decidable (IsPlain s) := List.decidableBAll _ s

variable {b : Byte} {c : CodePoint} {s t : Str} {bytes : List Byte}

/-! ### The round trip -/

theorem hexValue_hexDigit : ∀ n < 16, hexValue (hexDigit n) = some n := by decide +kernel

theorem hexDigit_not_mem : ∀ n < 16, hexDigit n ∉ reserved := by decide +kernel

theorem lt_of_isSafe : ∀ b : Byte, isSafe b = true → b.val < 0x80 ∧ b.val ≠ 37 := by
  decide +kernel

theorem not_mem_of_isSafe : ∀ b : Byte, isSafe b = true → codePoint b.val ∉ reserved := by
  decide +kernel

/-- What is quoted ends nothing. -/
theorem isPlain_flatMap (bytes : List Byte) : IsPlain (bytes.flatMap quoteByte) := by
  intro c hc
  obtain ⟨b, -, hcb⟩ := List.mem_flatMap.mp hc
  rw [quoteByte] at hcb
  split at hcb
  · rename_i hsafe
    exact List.mem_singleton.mp hcb ▸ not_mem_of_isSafe b hsafe
  · simp only [List.mem_cons, List.not_mem_nil, or_false] at hcb
    rcases hcb with rfl | rfl | rfl
    · decide
    · exact hexDigit_not_mem _ (by omega)
    · exact hexDigit_not_mem _ (by omega)

theorem unquoteNext_of_ne (h : c ≠ percent) (s : Str) : unquoteNext c s = (utf8 c, 0) := if_neg h

/-- A byte is read back as it was quoted. -/
theorem unquoteNext_quoteByte (b : Byte) : ∃ c s, quoteByte b = c :: s ∧
    ∀ rest, unquoteNext c (s ++ rest) = ([b], s.length) := by
  rw [quoteByte]
  split
  · rename_i hsafe
    obtain ⟨hlt, hne⟩ := lt_of_isSafe b hsafe
    have hval : (codePoint b.val).val = b.val := val_codePoint (by omega)
    refine ⟨_, _, rfl, fun rest => ?_⟩
    have hpercent : codePoint b.val ≠ percent := by
      intro h
      exact hne (hval.symm.trans (congrArg Fin.val h))
    rw [unquoteNext_of_ne hpercent, utf8_of_lt (by omega), hval]
    exact congrArg (fun b => ([b], 0)) (Fin.ext (val_byte b.isLt))
  · have hb : byte (16 * (b.val / 16) + b.val % 16) = b := by
      rw [Nat.div_add_mod]
      exact Fin.ext (val_byte b.isLt)
    refine ⟨_, _, rfl, fun rest => ?_⟩
    rw [unquoteNext, if_pos rfl, List.cons_append, List.cons_append, hexPair,
      hexValue_hexDigit _ (by omega), hexValue_hexDigit _ (by omega)]
    simp only [hb, List.length_cons, List.length_nil]

/-- **What is quoted is got back.** -/
theorem unquote_flatMap (bytes : List Byte) : unquote (bytes.flatMap quoteByte) = bytes := by
  have hscan := scan_flatMap (fun b (_ : b ∈ bytes) => unquoteNext_quoteByte b) []
  rwa [List.append_nil, scan_nil, List.append_nil, List.flatMap_singleton'] at hscan

theorem unquote_cons (h : c ≠ percent) (s : Str) : unquote (c :: s) = utf8 c ++ unquote s := by
  rw [unquote, scan, unquoteNext_of_ne h]
  rfl

/-- What is quoted does not reach across a character that is no hexadecimal digit. -/
theorem unquote_append (h : hexValue c = none) (s t : Str) :
    unquote (s ++ c :: t) = unquote s ++ unquote (c :: t) := by
  refine scan_append (fun a s => ?_) (fun a s => ?_) 0 (Nat.zero_le _)
  · have hpair : hexPair (s ++ c :: t) = hexPair s := by
      match s with
      | [] =>
          cases t with
          | nil => rfl
          | cons d t => simp [hexPair, h]
      | [d] => simp [hexPair, h]
      | d :: e :: s => rfl
    rw [unquoteNext, unquoteNext, hpair]
  · rw [unquoteNext]
    split
    · match s with
      | [] | [_] => exact Nat.zero_le _
      | d :: e :: s =>
          rw [List.length_cons, List.length_cons]
          split <;> simp
    · exact Nat.zero_le _

/-! ### The parameters of a URL -/

theorem dropWhile_eq {p : CodePoint → Bool} (h : ∀ d ∈ s, p d = true) (hc : p c = false) :
    ((s ++ c :: t).dropWhile p).drop 1 = t := by
  rw [List.dropWhile_append_of_pos h, List.dropWhile_cons_of_neg (by simp [hc]),
    List.drop_succ_cons, List.drop_zero]

theorem ne_of_not_mem (h : c ∉ s) : ∀ d ∈ s, decide (d ≠ c) = true := by
  intro d hd
  rw [decide_eq_true_eq]
  rintro rfl
  exact h hd

theorem IsPlain.not_mem (h : IsPlain s) (hc : c ∈ reserved) : c ∉ s := fun hs => h c hs hc

/-- A query begins at the first `?`. -/
theorem urlQuery_eq (hs : question ∉ s) (hhash : hash ∉ s ++ question :: t) :
    urlQuery (s ++ question :: t) = some t := by
  have hall : (s ++ question :: t).takeWhile (· ≠ hash) = s ++ question :: t :=
    List.takeWhile_eq_self_iff.mpr (ne_of_not_mem hhash)
  rw [urlQuery]
  simp only [hall, List.mem_append, List.mem_cons, true_or, or_true, ↓reduceIte]
  rw [dropWhile_eq (ne_of_not_mem hs) (by decide)]

/-- The name of a parameter ends at the first `=`. -/
theorem param_eq (h : equals ∉ s) : param (s ++ equals :: t) = (unquote s, unquote t) := by
  rw [param, takeWhile_append_of_all (ne_of_not_mem h) (by simp),
    dropWhile_eq (ne_of_not_mem h) (by decide)]

/-- A URL ends at the first `#`. -/
theorem urlParams_append_of_mem (h : hash ∈ s) (t : Str) : urlParams (s ++ t) = urlParams s := by
  have hcut : (s ++ t).takeWhile (· ≠ hash) = s.takeWhile (· ≠ hash) := by
    obtain ⟨before, after, rfl, hbefore⟩ := List.eq_append_cons_of_mem h
    rw [List.append_assoc, List.cons_append,
      takeWhile_append_of_all (ne_of_not_mem hbefore) (by simp),
      takeWhile_append_of_all (ne_of_not_mem hbefore) (by simp)]
  rw [urlParams, urlParams, urlQuery, urlQuery, hcut]

/-- The last piece of a string ends as the string does. -/
theorem exists_mem_splitOn (ht : ampersand ∉ t) (s : Str) :
    ∃ u, u ++ t ∈ (s ++ t).splitOn ampersand := by
  induction hn : s.length using Nat.strong_induction_on generalizing s with
  | _ n ih =>
    by_cases hs : ampersand ∈ s
    · obtain ⟨before, after, rfl, -⟩ := List.eq_append_cons_of_mem hs
      rw [List.length_append, List.length_cons] at hn
      obtain ⟨u, hu⟩ := ih after.length (by omega) after rfl
      refine ⟨u, ?_⟩
      rw [List.append_assoc, List.cons_append, List.splitOn_append_cons_self]
      exact List.mem_append_right _ hu
    · refine ⟨s, ?_⟩
      rw [List.splitOn_eq_singleton (by simp [hs, ht])]
      exact List.mem_singleton.mpr rfl

section Appended
variable {target name value : Str}

/-- What is appended has no other `?` and no other `=`. -/
theorem not_mem_appended (hname : IsPlain name) (hvalue : IsPlain value) (hc : c ∈ reserved)
    (hquestion : c ≠ question) (hequals : c ≠ equals) :
    c ∉ question :: (name ++ equals :: value) := by
  simp only [List.mem_cons, List.mem_append, not_or]
  exact ⟨hquestion, hname.not_mem hc, hequals, hvalue.not_mem hc⟩

theorem length_unquote_append_lt (s t : Str) :
    (unquote t).length < (unquote (s ++ question :: t)).length := by
  rw [unquote_append (by decide), unquote_cons (by decide), utf8_of_lt (by decide)]
  simp only [List.length_append, List.length_cons]
  omega

/-- A parameter that has something in front of its `?` is another one. -/
theorem param_ne (hname : IsPlain name) (u : Str) :
    param (u ++ question :: (name ++ equals :: value)) ≠ (unquote name, unquote value) := by
  intro h
  by_cases hu : equals ∈ u
  · obtain ⟨before, after, rfl, hbefore⟩ := List.eq_append_cons_of_mem hu
    rw [List.append_assoc, List.cons_append, param_eq hbefore] at h
    have hlength := congrArg (fun p => p.2.length) h
    have hlt := length_unquote_append_lt after (name ++ equals :: value)
    have hle : (unquote value).length ≤ (unquote (name ++ equals :: value)).length := by
      rw [unquote_append (by decide), unquote_cons (by decide)]
      simp only [List.length_append]
      omega
    simp only at hlength
    omega
  · have hnone : equals ∉ u ++ question :: name := by
      simp only [List.mem_cons, List.mem_append, not_or]
      exact ⟨hu, by decide, hname.not_mem (by decide)⟩
    have happend : u ++ question :: (name ++ equals :: value) =
        u ++ question :: name ++ equals :: value := by simp
    rw [happend, param_eq hnone] at h
    have hlength := congrArg (fun p => p.1.length) h
    have hlt := length_unquote_append_lt u name
    simp only at hlength
    omega

/-- **A parameter is appended to a URL**, which then has that one and no other: exactly where the
URL had no query and no fragment, or had a fragment and that very parameter. -/
theorem urlParams_eq_iff (hname : IsPlain name) (hvalue : IsPlain value) :
    urlParams (target ++ question :: (name ++ equals :: value)) =
        [(unquote name, unquote value)] ↔
      if hash ∈ target then urlParams target = [(unquote name, unquote value)]
      else question ∉ target := by
  have hno : ampersand ∉ question :: (name ++ equals :: value) :=
    not_mem_appended hname hvalue (by decide) (by decide) (by decide)
  split
  · rename_i hhash
    rw [urlParams_append_of_mem hhash]
  · rename_i hhash
    have hnohash : hash ∉ target ++ question :: (name ++ equals :: value) := by
      rw [List.mem_append, not_or]
      exact ⟨hhash, not_mem_appended hname hvalue (by decide) (by decide) (by decide)⟩
    constructor
    · intro h hquestion
      -- The query began before, so its last parameter is not the one appended.
      obtain ⟨before, after, rfl, hbefore⟩ := List.eq_append_cons_of_mem hquestion
      rw [List.append_assoc, List.cons_append] at h hnohash
      rw [urlParams, urlQuery_eq hbefore hnohash] at h
      obtain ⟨u, hu⟩ := exists_mem_splitOn hno after
      have hmem : param (u ++ question :: (name ++ equals :: value)) ∈
          queryParams (after ++ question :: (name ++ equals :: value)) := by
        refine List.mem_map_of_mem (List.mem_filter.mpr ⟨hu, ?_⟩)
        simp
      rw [Option.map_some, Option.getD_some] at h
      rw [h, List.mem_singleton] at hmem
      exact param_ne hname u hmem
    · intro hquestion
      have hsplit : (name ++ equals :: value).splitOn ampersand = [name ++ equals :: value] :=
        List.splitOn_eq_singleton fun hmem => hno (List.mem_cons_of_mem _ hmem)
      rw [urlParams, urlQuery_eq hquestion hnohash, Option.map_some, Option.getD_some, queryParams,
        hsplit, List.filter_cons_of_pos (by simp), List.filter_nil, List.map_singleton,
        param_eq (hname.not_mem (by decide))]

end Appended

end Py
