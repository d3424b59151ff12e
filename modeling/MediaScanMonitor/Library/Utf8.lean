import MediaScanMonitor.Library.Str

/-!
# Library — UTF-8 and file names

`str.encode('utf-8')`, and the codec of file names, which decodes a byte that no character starts
with as a surrogate of its own (`surrogateescape`).  Decoders read a list from left to right and
skip what they have read (`scan`).

* `scan_flatMap`: a decoder that reads what one item is encoded to reads a whole encoding.
* `scan_append`: a decoder stops at a boundary it does not look across.
* `fsencode_fsdecode`: every byte string is got back from its name.
* `isClean_fsdecode_iff`: the names without surrogates are those of UTF-8 byte strings.
-/

namespace Py

/-! ### Reading a list -/

section Scan
variable {α β γ : Type*}

/-- What `next` makes of an item and of those behind it, which it has read as many of as it says. -/
def scan (next : α → List α → List β × Nat) : Nat → List α → List β
  | _, [] => []
  | skip + 1, _ :: s => scan next skip s
  | 0, a :: s => (next a s).1 ++ scan next (next a s).2 s

variable {next : α → List α → List β × Nat} {s t : List α}

@[simp] theorem scan_nil (n : Nat) : scan next n [] = [] := by rw [scan]

theorem scan_eq_drop (n : Nat) (s : List α) : scan next n s = scan next 0 (s.drop n) := by
  induction s generalizing n with
  | nil => rw [List.drop_nil, scan_nil, scan_nil]
  | cons a s ih =>
      cases n with
      | zero => rfl
      | succ n => rw [scan, ih, List.drop_succ_cons]

/-- A decoder that does not look across a boundary reads both sides by themselves. -/
theorem scan_append (hnext : ∀ a s, next a (s ++ t) = next a s)
    (hskip : ∀ a s, (next a s).2 ≤ s.length) (n : Nat) (hn : n ≤ s.length) :
    scan next n (s ++ t) = scan next n s ++ scan next 0 t := by
  induction s generalizing n with
  | nil =>
      obtain rfl := Nat.le_zero.mp hn
      rfl
  | cons a s ih =>
      cases n with
      | zero =>
          rw [List.cons_append, scan, scan, hnext, ih _ (hskip a s), List.append_assoc]
      | succ n =>
          rw [List.cons_append, scan, scan]
          exact ih n (Nat.le_of_succ_le_succ hn)

/-- A decoder that reads each encoding of one item reads the encoding of many. -/
theorem scan_flatMap {encode : γ → List α} {decode : γ → List β} {xs : List γ}
    (h : ∀ x ∈ xs, ∃ a s, encode x = a :: s ∧
      ∀ rest, next a (s ++ rest) = (decode x, s.length)) (rest : List α) :
    scan next 0 (xs.flatMap encode ++ rest) = xs.flatMap decode ++ scan next 0 rest := by
  induction xs with
  | nil => rfl
  | cons x xs ih =>
      rw [List.forall_mem_cons] at h
      obtain ⟨⟨a, s, hx, hnext⟩, hxs⟩ := h
      rw [List.flatMap_cons, List.flatMap_cons, hx, List.append_assoc, List.cons_append, scan,
        hnext, scan_eq_drop, List.drop_left, ih hxs, List.append_assoc]

end Scan

/-! ### UTF-8 -/

abbrev Byte := Fin 256

-- Numerals of the two types are read with these.
instance neZeroByte : @NeZero Nat Zero.ofOfNat0 256 := ⟨Nat.succ_ne_zero 255⟩

instance neZeroCodePoint : @NeZero Nat Zero.ofOfNat0 0x110000 := ⟨Nat.succ_ne_zero 0x10ffff⟩

def byte (n : Nat) : Byte := Fin.ofNat 256 n

@[simp] theorem val_byte {n : Nat} (h : n < 256) : (byte n).val = n := Nat.mod_eq_of_lt h

def codePoint (n : Nat) : CodePoint := Fin.ofNat 0x110000 n

theorem val_codePoint {n : Nat} (h : n < 0x110000) : (codePoint n).val = n := Nat.mod_eq_of_lt h

def isSurrogate (c : CodePoint) : Bool := 0xD800 ≤ c.val && c.val ≤ 0xDFFF

/-- No lone surrogates. -/
def IsClean (s : Str) : Prop := ∀ c ∈ s, isSurrogate c = false

instance (s : Str) : Decidable (IsClean s) := List.decidableBAll _ s

theorem isClean_cons {c : CodePoint} {s : Str} :
    IsClean (c :: s) ↔ isSurrogate c = false ∧ IsClean s := List.forall_mem_cons

theorem isClean_append {s t : Str} : IsClean (s ++ t) ↔ IsClean s ∧ IsClean t :=
  List.forall_mem_append

/-- The bytes of a code point. -/
def utf8 (c : CodePoint) : List Byte :=
  if c.val < 0x80 then [byte c.val]
  else if c.val < 0x800 then [byte (0xC0 + c.val / 64), byte (0x80 + c.val % 64)]
  else if c.val < 0x10000 then
    [byte (0xE0 + c.val / 4096), byte (0x80 + c.val / 64 % 64), byte (0x80 + c.val % 64)]
  else
    [byte (0xF0 + c.val / 262144), byte (0x80 + c.val / 4096 % 64), byte (0x80 + c.val / 64 % 64),
      byte (0x80 + c.val % 64)]

/-- `s.encode('utf-8')`: `none` where it raises. -/
def encode (s : Str) : Option (List Byte) := if IsClean s then some (s.flatMap utf8) else none

/-- The code point that a sequence of this shape stands for. -/
def codePointOf : List Byte → CodePoint
  | [b] => codePoint b.val
  | [b, c] => codePoint (b.val % 32 * 64 + c.val % 64)
  | [b, c, d] => codePoint (b.val % 16 * 4096 + c.val % 64 * 64 + d.val % 64)
  | [b, c, d, e] =>
    codePoint (b.val % 8 * 262144 + c.val % 64 * 4096 + d.val % 64 * 64 + e.val % 64)
  | _ => 0

/-- How many bytes follow the first one of a sequence. -/
def following (b : Byte) : Nat :=
  if b.val < 0xC0 then 0 else if b.val < 0xE0 then 1 else if b.val < 0xF0 then 2 else 3

/-- The code point a well-formed sequence starts with: the bytes are those of a code point that is
no surrogate. -/
def decodeNext (b : Byte) (s : List Byte) : Option CodePoint :=
  let bytes := b :: s.take (following b)
  let c := codePointOf bytes
  if utf8 c = bytes ∧ isSurrogate c = false then some c else none

/-- The surrogate that stands for a byte. -/
def escape (b : Byte) : CodePoint := codePoint (0xDC00 + b.val)

/-- A character, or a byte that no character starts with. -/
def readChar (b : Byte) (s : List Byte) : Str × Nat :=
  match decodeNext b s with
  | some c => ([c], following b)
  | none => ([escape b], 0)

/-- `os.fsdecode`. -/
def fsdecode (s : List Byte) : Str := scan readChar 0 s

def fsencodeChar (c : CodePoint) : Option (List Byte) :=
  if isSurrogate c then
    if 0xDC80 ≤ c.val ∧ c.val ≤ 0xDCFF then some [byte (c.val - 0xDC00)] else none
  else some (utf8 c)

/-- `os.fsencode`: `none` where it raises. -/
def fsencode (s : Str) : Option (List Byte) := (s.mapM fsencodeChar).map List.flatten

/-- A byte string that is the encoding of some string. -/
def IsUtf8 (s : List Byte) : Prop := ∃ t, encode t = some s

variable {b : Byte} {c : CodePoint} {s : List Byte} {t : Str}

/-! ### One character -/

/-- A code point is got back from its bytes, and the first of them tells how many there are. -/
theorem utf8_eq_cons (c : CodePoint) :
    ∃ b s, utf8 c = b :: s ∧ s.length = following b ∧ codePointOf (utf8 c) = c := by
  have hc : c.val < 0x110000 := c.isLt
  rw [utf8]
  split_ifs with h₁ h₂ h₃
  · refine ⟨_, _, rfl, ?_, ?_⟩
    · rw [following, val_byte (by omega), if_pos (by omega)]
      rfl
    · simp only [codePointOf, Fin.ext_iff]
      rw [val_byte (by omega), val_codePoint hc]
  · refine ⟨_, _, rfl, ?_, ?_⟩
    · rw [following, val_byte (by omega), if_neg (by omega), if_pos (by omega)]
      rfl
    · simp only [codePointOf, Fin.ext_iff]
      rw [val_byte (by omega), val_byte (by omega), val_codePoint (by omega)]
      omega
  · refine ⟨_, _, rfl, ?_, ?_⟩
    · rw [following, val_byte (by omega), if_neg (by omega), if_neg (by omega), if_pos (by omega)]
      rfl
    · simp only [codePointOf, Fin.ext_iff]
      rw [val_byte (by omega), val_byte (by omega), val_byte (by omega), val_codePoint (by omega)]
      omega
  · refine ⟨_, _, rfl, ?_, ?_⟩
    · rw [following, val_byte (by omega), if_neg (by omega), if_neg (by omega), if_neg (by omega)]
      rfl
    · simp only [codePointOf, Fin.ext_iff]
      rw [val_byte (by omega), val_byte (by omega), val_byte (by omega), val_byte (by omega),
        val_codePoint (by omega)]
      omega

theorem utf8_of_lt (h : c.val < 0x80) : utf8 c = [byte c.val] := if_pos h

/-- The bytes of a character are read as that character. -/
theorem decodeNext_utf8 (h : isSurrogate c = false) (hc : utf8 c = b :: s) (rest : List Byte) :
    decodeNext b (s ++ rest) = some c := by
  obtain ⟨b', s', hcons, hlength, hback⟩ := utf8_eq_cons c
  obtain ⟨rfl, rfl⟩ := List.cons.inj (hc.symm.trans hcons)
  have htake : b :: (s ++ rest).take (following b) = utf8 c := by
    rw [hc, ← hlength, List.take_left]
  rw [decodeNext]
  simp only [htake, hback, h, and_self, ↓reduceIte]

theorem decodeNext_eq_some (h : decodeNext b s = some c) :
    utf8 c = b :: s.take (following b) ∧ isSurrogate c = false := by
  rw [decodeNext] at h
  split at h
  · rename_i hcond
    cases h
    exact hcond
  · cases h

/-- A byte that no character starts with is none of ASCII. -/
theorem le_of_decodeNext_eq_none (h : decodeNext b s = none) : 0x80 ≤ b.val := by
  by_contra hlt
  have hval : (codePoint b.val).val = b.val := val_codePoint (by omega)
  have hbyte : byte b.val = b := Fin.ext (val_byte b.isLt)
  have hutf8 : utf8 (codePoint b.val) = [b] := by
    rw [utf8_of_lt (by omega), hval, hbyte]
  have hclean : isSurrogate (codePoint b.val) = false := by
    rw [isSurrogate, hval, decide_eq_false (by omega), Bool.false_and]
  have hsome := decodeNext_utf8 hclean hutf8 s
  rw [List.nil_append, h] at hsome
  cases hsome

theorem fsencodeChar_of_not (h : isSurrogate c = false) : fsencodeChar c = some (utf8 c) := by
  rw [fsencodeChar, h]
  rfl

/-- A byte is got back from the surrogate that stands for it. -/
theorem fsencodeChar_escape (h : 0x80 ≤ b.val) : fsencodeChar (escape b) = some [b] := by
  have hval : (escape b).val = 0xDC00 + b.val := val_codePoint (by omega)
  have hbyte : byte ((escape b).val - 0xDC00) = b := by
    rw [hval, Nat.add_sub_cancel_left]
    exact Fin.ext (val_byte b.isLt)
  have hsurrogate : isSurrogate (escape b) = true := by
    rw [isSurrogate, hval, decide_eq_true (by omega), decide_eq_true (by omega), Bool.true_and]
  rw [fsencodeChar, hsurrogate, if_pos rfl, if_pos (by omega), hbyte]

/-! ### File names -/

@[simp] theorem fsdecode_nil : fsdecode [] = [] := scan_nil 0

theorem fsdecode_cons (b : Byte) (s : List Byte) :
    fsdecode (b :: s) =
      match decodeNext b s with
      | some c => c :: fsdecode (s.drop (following b))
      | none => escape b :: fsdecode s := by
  rw [fsdecode, scan, readChar]
  split
  · rw [scan_eq_drop]
    rfl
  · rfl

@[simp] theorem fsencode_nil : fsencode [] = some [] := rfl

theorem fsencode_cons (c : CodePoint) (t : Str) :
    fsencode (c :: t) = (fsencodeChar c).bind fun s => (fsencode t).map (s ++ ·) := by
  rw [fsencode, fsencode, List.mapM_cons]
  cases fsencodeChar c with
  | none => rfl
  | some s => cases t.mapM fsencodeChar <;> rfl

/-- **Every byte string is got back from its name.** -/
theorem fsencode_fsdecode (s : List Byte) : fsencode (fsdecode s) = some s := by
  induction hn : s.length using Nat.strong_induction_on generalizing s with
  | _ n ih =>
    cases s with
    | nil => rw [fsdecode_nil, fsencode_nil]
    | cons b s =>
        rw [List.length_cons] at hn
        rw [fsdecode_cons]
        split
        · rename_i c hc
          obtain ⟨hutf8, hclean⟩ := decodeNext_eq_some hc
          have hlt : (s.drop (following b)).length < n := by
            rw [List.length_drop]
            omega
          rw [fsencode_cons, fsencodeChar_of_not hclean, hutf8, Option.bind_some,
            ih _ hlt _ rfl, Option.map_some, List.cons_append, List.take_append_drop]
        · rename_i hnone
          rw [fsencode_cons, fsencodeChar_escape (le_of_decodeNext_eq_none hnone), Option.bind_some,
            ih _ (by omega) s rfl, Option.map_some, List.singleton_append]

/-- A string is got back from its encoding. -/
theorem fsdecode_flatMap (h : IsClean t) : fsdecode (t.flatMap utf8) = t := by
  have hread : ∀ c ∈ t, ∃ b s, utf8 c = b :: s ∧
      ∀ rest, readChar b (s ++ rest) = ([c], s.length) := by
    intro c hc
    obtain ⟨b, s, hcons, hlength, -⟩ := utf8_eq_cons c
    refine ⟨b, s, hcons, fun rest => ?_⟩
    rw [readChar, decodeNext_utf8 (h c hc) hcons rest, hlength]
  have hscan := scan_flatMap hread []
  rwa [List.append_nil, scan_nil, List.append_nil, List.flatMap_singleton'] at hscan

theorem fsencode_of_isClean (h : IsClean t) : fsencode t = some (t.flatMap utf8) := by
  induction t with
  | nil => rfl
  | cons c t ih =>
      obtain ⟨hc, ht⟩ := isClean_cons.mp h
      rw [fsencode_cons, fsencodeChar_of_not hc, ih ht]
      rfl

theorem encode_eq_some : encode t = some s ↔ IsClean t ∧ t.flatMap utf8 = s := by
  rw [encode]
  split
  · rename_i h
    simp [h]
  · rename_i h
    simp [h]

/-- What stands in ASCII is encoded character by character. -/
theorem encode_of_lt (h : ∀ c ∈ t, c.val < 0x80) : encode t = some (t.map fun c => byte c.val) := by
  refine encode_eq_some.mpr ⟨fun c hc => ?_, ?_⟩
  · have hlt := h c hc
    rw [isSurrogate, decide_eq_false (by omega), Bool.false_and]
  · induction t with
    | nil => rfl
    | cons c t ih =>
        rw [List.forall_mem_cons] at h
        rw [List.flatMap_cons, utf8_of_lt h.1, ih h.2]
        rfl

/-- **The names without surrogates** are those of UTF-8 byte strings. -/
theorem isClean_fsdecode_iff : IsClean (fsdecode s) ↔ IsUtf8 s := by
  constructor
  · intro h
    have hback := fsencode_fsdecode s
    rw [fsencode_of_isClean h, Option.some_inj] at hback
    exact ⟨_, encode_eq_some.mpr ⟨h, hback⟩⟩
  · rintro ⟨t, ht⟩
    obtain ⟨hclean, rfl⟩ := encode_eq_some.mp ht
    rwa [fsdecode_flatMap hclean]

/-- An ASCII character of a name is a byte of it. -/
theorem mem_of_mem_fsencode (h : fsencode t = some s) (hc : c ∈ t) (hlt : c.val < 0x80) :
    byte c.val ∈ s := by
  induction t generalizing s with
  | nil => cases hc
  | cons d t ih =>
      rw [fsencode_cons, Option.bind_eq_some_iff] at h
      obtain ⟨bytes, hd, hrest⟩ := h
      obtain ⟨s', hs', rfl⟩ := Option.map_eq_some_iff.mp hrest
      rcases List.mem_cons.mp hc with rfl | hc
      · have hno : isSurrogate c = false := by
          rw [isSurrogate, decide_eq_false (by omega), Bool.false_and]
        rw [fsencodeChar_of_not hno, utf8_of_lt hlt, Option.some_inj] at hd
        rw [← hd]
        exact List.mem_cons_self
      · exact List.mem_append_right _ (ih hs' hc)

/-- A byte that no character starts with is none before less either. -/
theorem decodeNext_eq_none {s' : List Byte} (h : decodeNext b s = none) (hs : s' <+: s) :
    decodeNext b s' = none := by
  obtain ⟨rest, rfl⟩ := hs
  cases hc : decodeNext b s' with
  | none => rfl
  | some c =>
      obtain ⟨hutf8, hclean⟩ := decodeNext_eq_some hc
      obtain ⟨b', s'', hcons, hlength, -⟩ := utf8_eq_cons c
      obtain ⟨rfl, rfl⟩ := List.cons.inj (hutf8.symm.trans hcons)
      have hfollow := decodeNext_utf8 hclean hutf8 (s'.drop (following b) ++ rest)
      rw [← List.append_assoc, List.take_append_drop, h] at hfollow
      cases hfollow

/-- What a name begins with is a name, of what its bytes begin with. -/
theorem exists_fsdecode (h : t <+: fsdecode s) : ∃ s', s' <+: s ∧ fsdecode s' = t := by
  induction hn : s.length using Nat.strong_induction_on generalizing s t with
  | _ n ih =>
    cases t with
    | nil => exact ⟨[], List.nil_prefix, fsdecode_nil⟩
    | cons c t =>
        cases s with
        | nil =>
            rw [fsdecode_nil] at h
            cases List.prefix_nil.mp h
        | cons b s =>
            rw [List.length_cons] at hn
            rw [fsdecode_cons] at h
            split at h
            · rename_i d hd
              obtain ⟨rfl, ht⟩ := List.cons_prefix_cons.mp h
              obtain ⟨hutf8, hclean⟩ := decodeNext_eq_some hd
              obtain ⟨b', s₀, hcons, hlength, -⟩ := utf8_eq_cons c
              obtain ⟨rfl, rfl⟩ := List.cons.inj (hutf8.symm.trans hcons)
              have hlt : (s.drop (following b)).length < n := by
                rw [List.length_drop]
                omega
              obtain ⟨s', ⟨rest, hrest⟩, rfl⟩ := ih _ hlt ht rfl
              refine ⟨b :: (s.take (following b) ++ s'), ⟨rest, ?_⟩, ?_⟩
              · rw [List.cons_append, List.append_assoc, hrest, List.take_append_drop]
              · have hdrop : (s.take (following b) ++ s').drop (following b) = s' :=
                  List.drop_left' hlength
                rw [fsdecode_cons, decodeNext_utf8 hclean hutf8]
                simp only [hdrop]
            · rename_i hnone
              obtain ⟨rfl, ht⟩ := List.cons_prefix_cons.mp h
              obtain ⟨s', hbegin, rfl⟩ := ih _ (by omega) ht rfl
              refine ⟨b :: s', List.cons_prefix_cons.mpr ⟨rfl, hbegin⟩, ?_⟩
              rw [fsdecode_cons, decodeNext_eq_none hnone hbegin]

end Py
