import MediaScanMonitor.Library.Percent

/-!
# Library — a parameter of a query, from the link to the handler

A value is written into a link as its bytes, percent encoded but for those of a set of *safe* ones,
which differs from writer to writer.  It is read the way a form is: a `+` stands for a space, and of
several parameters with one name the last one counts.

* `unquote_percent`: what is percent encoded is got back, whatever the safe set.
* `queryParam_append`: a handler reads the value that was written.
-/

namespace Py

/-- `+`. -/
def plus : CodePoint := 43

/-! ### Writing -/

/-- A byte that means itself in a query. -/
def IsLiteral (b : Byte) : Prop :=
  b.val < 0x80 ∧ b.val ≠ 37 ∧ codePoint b.val ≠ plus ∧ codePoint b.val ∉ reserved

instance (b : Byte) : Decidable (IsLiteral b) := inferInstanceAs (Decidable (_ ∧ _))

/-- The bytes that a writer leaves as they are. -/
structure SafeSet where
  mem : Byte → Bool
  literal : ∀ b, mem b = true → IsLiteral b

/-- Those of `quote`, with `safe='/'`. -/
def SafeSet.quote : SafeSet where
  mem := isSafe
  literal := by decide +kernel

/-- Those of JavaScript's `encodeURIComponent`. -/
def SafeSet.component : SafeSet where
  mem b := (65 ≤ b.val && b.val ≤ 90) || (97 ≤ b.val && b.val ≤ 122) ||
    (48 ≤ b.val && b.val ≤ 57) || b.val ∈ [45, 95, 46, 33, 126, 42, 39, 40, 41]
  literal := by decide +kernel

variable (S : SafeSet)

/-- A byte, percent encoded. -/
def SafeSet.percentByte (b : Byte) : Str :=
  if S.mem b then [codePoint b.val] else [percent, hexDigit (b.val / 16), hexDigit (b.val % 16)]

/-- A string, percent encoded: `none` where it has no encoding. -/
def SafeSet.percentEncode (s : Str) : Option Str :=
  (encode s).map fun bytes => bytes.flatMap S.percentByte

theorem quote_eq_percentEncode (s : Str) : quote s = SafeSet.quote.percentEncode s := rfl

/-- `encodeURIComponent`: `none` where it raises. -/
def encodeURIComponent (s : Str) : Option Str := SafeSet.component.percentEncode s

variable {S} {b : Byte} {c : CodePoint} {s t v name target : Str}

theorem percentEncode_eq_some (h : S.percentEncode s = some v) :
    IsClean s ∧ v = (s.flatMap utf8).flatMap S.percentByte := by
  obtain ⟨bytes, hbytes, rfl⟩ := Option.map_eq_some_iff.mp h
  obtain ⟨hclean, rfl⟩ := encode_eq_some.mp hbytes
  exact ⟨hclean, rfl⟩

theorem percentEncode_of_isClean (S : SafeSet) (h : IsClean s) :
    S.percentEncode s = some ((s.flatMap utf8).flatMap S.percentByte) := by
  rw [SafeSet.percentEncode, encode, if_pos h, Option.map_some]

theorem isSome_percentEncode : (S.percentEncode s).isSome = true ↔ IsClean s := by
  constructor
  · intro h
    obtain ⟨v, hv⟩ := Option.isSome_iff_exists.mp h
    exact (percentEncode_eq_some hv).1
  · intro h
    rw [percentEncode_of_isClean S h]
    rfl

theorem hexDigit_ne_plus : ∀ n < 16, hexDigit n ≠ plus := by decide +kernel

/-- A percent encoded byte ends nothing and stands for no space. -/
theorem of_mem_percentByte (h : c ∈ S.percentByte b) : c ≠ plus ∧ c ∉ reserved := by
  rw [SafeSet.percentByte] at h
  split at h
  · rename_i hsafe
    obtain ⟨-, -, hplus, hreserved⟩ := S.literal b hsafe
    rw [List.mem_singleton.mp h]
    exact ⟨hplus, hreserved⟩
  · simp only [List.mem_cons, List.not_mem_nil, or_false] at h
    rcases h with rfl | rfl | rfl
    · exact ⟨by decide, by decide⟩
    · exact ⟨hexDigit_ne_plus _ (by omega), hexDigit_not_mem _ (by omega)⟩
    · exact ⟨hexDigit_ne_plus _ (by omega), hexDigit_not_mem _ (by omega)⟩

theorem unquoteNext_percentByte (S : SafeSet) (b : Byte) : ∃ c s, S.percentByte b = c :: s ∧
    ∀ rest, unquoteNext c (s ++ rest) = ([b], s.length) := by
  rw [SafeSet.percentByte]
  split
  · rename_i hsafe
    obtain ⟨hlt, hne, -, -⟩ := S.literal b hsafe
    have hval : (codePoint b.val).val = b.val := val_codePoint (by omega)
    have hpercent : codePoint b.val ≠ percent := by
      intro h
      exact hne (hval.symm.trans (congrArg Fin.val h))
    refine ⟨_, _, rfl, fun rest => ?_⟩
    rw [unquoteNext_of_ne hpercent, utf8_of_lt (by omega), hval]
    exact congrArg (fun b => ([b], 0)) (Fin.ext (val_byte b.isLt))
  · rename_i hsafe
    -- A byte outside the safe set is written as `quote` writes one outside its own.
    have hb : byte (16 * (b.val / 16) + b.val % 16) = b := by
      rw [Nat.div_add_mod]
      exact Fin.ext (val_byte b.isLt)
    refine ⟨_, _, rfl, fun rest => ?_⟩
    rw [unquoteNext, if_pos rfl, List.cons_append, List.cons_append, hexPair,
      hexValue_hexDigit _ (by omega), hexValue_hexDigit _ (by omega)]
    simp only [hb, List.length_cons, List.length_nil]

/-- **What is percent encoded is got back**, whatever the safe set. -/
theorem unquote_percent (S : SafeSet) (bytes : List Byte) :
    unquote (bytes.flatMap S.percentByte) = bytes := by
  have hscan := scan_flatMap (fun b (_ : b ∈ bytes) => unquoteNext_percentByte S b) []
  rwa [List.append_nil, scan_nil, List.append_nil, List.flatMap_singleton'] at hscan

/-! ### Reading -/

/-- A query as `parse_qsl` takes it, a `+` being a space. -/
def unplus (query : Str) : Str := query.map fun c => if c = plus then 32 else c

/-- `request.query_params.get(name)`, of a query whose bytes are UTF-8. -/
def queryParam (name url : Str) : Option Str :=
  let params := queryParams (((urlQuery url).map unplus).getD [])
  (params.reverse.find? fun p => fsdecode p.1 = name).map fun p => fsdecode p.2

theorem unplus_eq_self (h : plus ∉ s) : unplus s = s := by
  have hid : ∀ c ∈ s, (if c = plus then 32 else c) = id c := by
    intro c hc
    have hne : c ≠ plus := by
      rintro rfl
      exact h hc
    exact if_neg hne
  rw [unplus, List.map_congr_left hid, List.map_id]

/-- **A handler reads the value that was written.** -/
theorem queryParam_append (htarget : question ∉ target ∧ hash ∉ target) (hname : IsPlain name)
    (hread : fsdecode (unquote name) = name) (hplus : plus ∉ name)
    (hv : S.percentEncode s = some v) :
    queryParam name (target ++ question :: (name ++ equals :: v)) = some s := by
  obtain ⟨hclean, rfl⟩ := percentEncode_eq_some hv
  have hmem : ∀ c ∈ (s.flatMap utf8).flatMap S.percentByte, c ≠ plus ∧ c ∉ reserved := by
    intro c hc
    obtain ⟨b, -, hb⟩ := List.mem_flatMap.mp hc
    exact of_mem_percentByte hb
  have hvalue : IsPlain ((s.flatMap utf8).flatMap S.percentByte) := fun c hc => (hmem c hc).2
  have hnohash : hash ∉ target ++
      question :: (name ++ equals :: (s.flatMap utf8).flatMap S.percentByte) := by
    rw [List.mem_append, not_or]
    exact ⟨htarget.2, not_mem_appended hname hvalue (by decide) (by decide) (by decide)⟩
  have hquery := urlQuery_eq htarget.1 hnohash
  have hparams : urlParams (target ++ question ::
      (name ++ equals :: (s.flatMap utf8).flatMap S.percentByte)) =
        [(unquote name, unquote ((s.flatMap utf8).flatMap S.percentByte))] := by
    rw [urlParams_eq_iff hname hvalue, if_neg htarget.2]
    exact htarget.1
  have hunplus : plus ∉ name ++ equals :: (s.flatMap utf8).flatMap S.percentByte := by
    simp only [List.mem_append, List.mem_cons, not_or]
    exact ⟨hplus, by decide, fun hc => (hmem plus hc).1 rfl⟩
  rw [urlParams, hquery, Option.map_some, Option.getD_some] at hparams
  rw [queryParam, hquery, Option.map_some, unplus_eq_self hunplus, Option.getD_some,
    hparams, unquote_percent]
  simp [hread, fsdecode_flatMap hclean]

end Py
