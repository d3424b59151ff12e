import MediaScanMonitor.Library.Fields
import MediaScanMonitor.Library.Percent

/-!
# Library — JSON

`json.dumps` and `json.loads`, of objects of strings, integers, booleans and `None`; nested values
and floats are not read (`none`).  A string may be spelled in more than one way: `dumps` escapes
what is no printable ASCII character, `tojson` a few characters more.

A surrogate is spelled as the half of an astral character is, so that a high one in front of a low
one is read back as the character the two stand for (`joinPairs`).

* `scanString_spelled`: a string is read back, however it is spelled, but for its pairs.
* `joinPairs_eq_self_iff`: which strings have pairs.
* `reads_dumpsScalar`: a value is read back, whatever but a digit follows it.
-/

namespace Py.Json

inductive Scalar where
  | null
  | bool (b : Bool)
  | int (n : Int)
  | str (s : Str)
  deriving DecidableEq

/-- The characters of the syntax, in the order of their numbers. -/
def quotation : CodePoint := 34
def minus : CodePoint := 45
def colon : CodePoint := 58
def backslash : CodePoint := 92
def letterF : CodePoint := 102
def letterN : CodePoint := 110
def letterT : CodePoint := 116
def letterU : CodePoint := 117
def openBrace : CodePoint := 123
def closeBrace : CodePoint := 125

/-! ### Surrogates -/

def isHigh (c : CodePoint) : Bool := 0xD800 ≤ c.val && c.val ≤ 0xDBFF

def isLow (c : CodePoint) : Bool := 0xDC00 ≤ c.val && c.val ≤ 0xDFFF

/-- The character that two surrogates stand for. -/
def joinPair (h l : CodePoint) : CodePoint :=
  codePoint (0x10000 + (h.val - 0xD800) * 0x400 + (l.val - 0xDC00))

/-- Every high surrogate is joined with a low one behind it. -/
def joinPairs : Str → Str
  | [] => []
  | [c] => [c]
  | h :: l :: s =>
    if isHigh h && isLow l then joinPair h l :: joinPairs s else h :: joinPairs (l :: s)

/-- No high surrogate stands in front of a low one. -/
def Unpaired (s : Str) : Prop := s.IsChain fun h l => ¬(isHigh h = true ∧ isLow l = true)

/-! ### `json.dumps` -/

/-- A hexadecimal digit of `'\\u{0:04x}'`. -/
def hexDigit (n : Nat) : CodePoint := codePoint (if n < 10 then 48 + n else 87 + n)

def escapeUnit (n : Nat) : Str :=
  [backslash, letterU, hexDigit (n / 4096), hexDigit (n / 256 % 16), hexDigit (n / 16 % 16),
    hexDigit (n % 16)]

/-- `ESCAPE_DCT`, less the controls that have no letter of their own. -/
def escapeLetters : List (CodePoint × CodePoint) :=
  [(quotation, quotation), (backslash, backslash), (10, 110), (13, 114), (9, 116), (12, 102),
    (8, 98)]

def escapePair (c : CodePoint) : Str :=
  escapeUnit (0xD800 + (c.val - 0x10000) / 0x400) ++ escapeUnit (0xDC00 + (c.val - 0x10000) % 0x400)

/-- `ESCAPE_ASCII.sub(replace, c)`. -/
def encodeChar (c : CodePoint) : Str :=
  match escapeLetters.lookup c with
  | some letter => [backslash, letter]
  | none =>
    if 0x20 ≤ c.val ∧ c.val ≤ 0x7E then [c]
    else if c.val < 0x10000 then escapeUnit c.val
    else escapePair c

/-- `py_encode_basestring_ascii`. -/
def encodeString (s : Str) : Str := quotation :: s.flatMap encodeChar ++ [quotation]

/-- `int.__repr__`. -/
def formatInt : Int → Str
  | .ofNat n => formatNat n
  | .negSucc n => minus :: formatNat (n + 1)

def dumpsScalar : Scalar → Str
  | .null => Py.str "null"
  | .bool true => Py.str "true"
  | .bool false => Py.str "false"
  | .int n => formatInt n
  | .str s => encodeString s

/-- A member, of which the key and the value are spelled. -/
def memberText (member : Str × Str) : Str := member.1 ++ Py.str ": " ++ member.2

/-- An object: `lead` and `trail` stand within the braces, `sep` behind the commas. -/
def objectText (lead sep trail : Str) (members : List (Str × Str)) : Str :=
  openBrace :: lead ++ (comma :: sep).intercalate (members.map memberText) ++ trail ++ [closeBrace]

/-- `json.dumps(d)`. -/
def dumps (d : List (Str × Scalar)) : Str :=
  objectText [] (Py.str " ") [] (d.map fun member => (encodeString member.1, dumpsScalar member.2))

/-! ### `json.loads` -/

/-- White space between tokens. -/
def isWs (c : CodePoint) : Bool := c.val ∈ [9, 10, 13, 32]

def skipWs (s : Str) : Str := s.dropWhile isWs

/-- `_decode_uXXXX`. -/
def hex4 : Str → Option (Nat × Str)
  | a :: b :: c :: d :: s =>
    match hexValue a, hexValue b, hexValue c, hexValue d with
    | some a, some b, some c, some d => some (4096 * a + 256 * b + 16 * c + d, s)
    | _, _, _, _ => none
  | _ => none

/-- The low surrogate that is spelled next. -/
def lowNext : Str → Option (CodePoint × Str)
  | b :: u :: s =>
    if b = backslash ∧ u = letterU then
      match hex4 s with
      | some (n, s) => if isLow (codePoint n) then some (codePoint n, s) else none
      | none => none
    else none
  | _ => none

/-- What `\u` introduces. -/
def readUnit (s : Str) : Option (CodePoint × Str) :=
  match hex4 s with
  | none => none
  | some (n, s) =>
    if isHigh (codePoint n) then
      match lowNext s with
      | some (l, s) => some (joinPair (codePoint n) l, s)
      | none => some (codePoint n, s)
    else some (codePoint n, s)

/-- `BACKSLASH`. -/
def backslashLetters : List (CodePoint × CodePoint) :=
  [(quotation, quotation), (backslash, backslash), (slash, slash), (98, 8), (102, 12), (110, 10),
    (114, 13), (116, 9)]

/-- What a backslash introduces. -/
def readEscape : Str → Option (CodePoint × Str)
  | [] => none
  | c :: s =>
    if c = letterU then readUnit s else (backslashLetters.lookup c).map fun value => (value, s)

/-- `py_scanstring`, behind the quotation mark; every step of it reads something. -/
def scanStringFrom : Nat → Str → Option (Str × Str)
  | 0, _ => none
  | _ + 1, [] => none
  | n + 1, c :: s =>
    if c = quotation then some ([], s)
    else if c = backslash then
      match readEscape s with
      | none => none
      | some (value, s) => (scanStringFrom n s).map (Prod.map (value :: ·) id)
    else if c.val < 0x20 then none
    else (scanStringFrom n s).map (Prod.map (c :: ·) id)

def scanString (s : Str) : Option (Str × Str) := scanStringFrom (s.length + 1) s

/-- The digits of `NUMBER_RE`, and what follows them. -/
def scanNat (s : Str) : Option (Nat × Str) :=
  let digits := s.takeWhile fun c => 48 ≤ c.val ∧ c.val ≤ 57
  if digits.head? = some 48 then some (0, s.drop 1)
  else (DigitTable.ascii.int digits).map fun n => (n, s.drop digits.length)

/-- What is left of a literal. -/
def scanLiteral (literal : Str) (value : Scalar) (s : Str) : Option (Scalar × Str) :=
  if startswith s literal then some (value, s.drop literal.length) else none

/-- `scan_once`. -/
def scanScalar : Str → Option (Scalar × Str)
  | [] => none
  | c :: s =>
    if c = quotation then (scanString s).map (Prod.map Scalar.str id)
    else if c = letterN then scanLiteral (Py.str "ull") .null s
    else if c = letterT then scanLiteral (Py.str "rue") (.bool true) s
    else if c = letterF then scanLiteral (Py.str "alse") (.bool false) s
    else if c = minus then (scanNat s).map (Prod.map (fun n : Nat => Scalar.int (-(n : Int))) id)
    else (scanNat (c :: s)).map (Prod.map (fun n : Nat => Scalar.int (n : Int)) id)

/-- A member, from the quotation mark of its key on. -/
def scanMember (s : Str) : Option ((Str × Scalar) × Str) :=
  match s with
  | [] => none
  | c :: s =>
    if c = quotation then
      match scanString s with
      | none => none
      | some (key, s) =>
        match skipWs s with
        | [] => none
        | c :: s =>
          if c = colon then (scanScalar (skipWs s)).map (Prod.map (key, ·) id) else none
    else none

/-- The loop of `JSONObject`; every turn of it reads a member. -/
def scanMembersFrom : Nat → Str → Option (List (Str × Scalar) × Str)
  | 0, _ => none
  | n + 1, s =>
    match scanMember s with
    | none => none
    | some (member, s) =>
      match skipWs s with
      | [] => none
      | c :: s =>
        if c = closeBrace then some ([member], s)
        else if c = comma then
          (scanMembersFrom n (skipWs s)).map (Prod.map (member :: ·) id)
        else none

/-- `JSONObject`, behind the brace. -/
def scanObject (s : Str) : Option (List (Str × Scalar) × Str) :=
  match skipWs s with
  | [] => none
  | c :: rest =>
    if c = closeBrace then some ([], rest) else scanMembersFrom (s.length + 1) (c :: rest)

/-- `dict(pairs)`: the last value of a key, at the place of its first. -/
def dictOf (pairs : List (Str × Scalar)) : List (Str × Scalar) :=
  pairs.foldl (fun d pair =>
    if pair.1 ∈ d.map Prod.fst then
      d.map fun member => if member.1 = pair.1 then pair else member
    else d ++ [pair]) []

/-- `json.loads(s)`, of an object. -/
def loads (s : Str) : Option (List (Str × Scalar)) :=
  match skipWs s with
  | [] => none
  | c :: s =>
    if c = openBrace then
      match scanObject s with
      | some (pairs, s) => if skipWs s = [] then some (dictOf pairs) else none
      | none => none
    else none

/-! ### Spellings of a character -/

/-- How a character may stand in a string. -/
inductive Spelling (c : CodePoint) : Str → Prop where
  | plain : 0x20 ≤ c.val → isSurrogate c = false → c ≠ quotation → c ≠ backslash → Spelling c [c]
  | letter {l : CodePoint} : l ≠ letterU → backslashLetters.lookup l = some c →
      Spelling c [backslash, l]
  | unit : c.val < 0x10000 → Spelling c (escapeUnit c.val)
  | pair : 0x10000 ≤ c.val → Spelling c (escapePair c)

variable {c h l : CodePoint} {s t rest : Str} {n : Nat} {enc : CodePoint → Str}

theorem isHigh_eq_true : isHigh c = true ↔ 0xD800 ≤ c.val ∧ c.val ≤ 0xDBFF := by
  rw [isHigh, Bool.and_eq_true, decide_eq_true_eq, decide_eq_true_eq]

theorem isLow_eq_true : isLow c = true ↔ 0xDC00 ≤ c.val ∧ c.val ≤ 0xDFFF := by
  rw [isLow, Bool.and_eq_true, decide_eq_true_eq, decide_eq_true_eq]

theorem isSurrogate_eq_true : isSurrogate c = true ↔ 0xD800 ≤ c.val ∧ c.val ≤ 0xDFFF := by
  rw [isSurrogate, Bool.and_eq_true, decide_eq_true_eq, decide_eq_true_eq]

theorem hexValue_hexDigit : ∀ n < 16, hexValue (hexDigit n) = some n := by decide +kernel

/-- Four digits are read back as the number they spell. -/
theorem hex4_digits (h : n < 0x10000) (rest : Str) :
    hex4 (hexDigit (n / 4096) :: hexDigit (n / 256 % 16) :: hexDigit (n / 16 % 16) ::
      hexDigit (n % 16) :: rest) = some (n, rest) := by
  have hn : 4096 * (n / 4096) + 256 * (n / 256 % 16) + 16 * (n / 16 % 16) + n % 16 = n := by omega
  rw [hex4, hexValue_hexDigit _ (by omega), hexValue_hexDigit _ (by omega),
    hexValue_hexDigit _ (by omega), hexValue_hexDigit _ (by omega)]
  simp only [hn]

theorem escapeUnit_append (n : Nat) (rest : Str) :
    escapeUnit n ++ rest = backslash :: letterU :: hexDigit (n / 4096) ::
      hexDigit (n / 256 % 16) :: hexDigit (n / 16 % 16) :: hexDigit (n % 16) :: rest := rfl

theorem lowNext_escapeUnit (h : n < 0x10000) (rest : Str) :
    lowNext (escapeUnit n ++ rest) =
      if isLow (codePoint n) then some (codePoint n, rest) else none := by
  rw [escapeUnit_append, lowNext, if_pos ⟨rfl, rfl⟩, hex4_digits h]

theorem readEscape_escapeUnit (h : n < 0x10000) (rest : Str) :
    readEscape (letterU :: hexDigit (n / 4096) :: hexDigit (n / 256 % 16) ::
      hexDigit (n / 16 % 16) :: hexDigit (n % 16) :: rest) =
      if isHigh (codePoint n) then
        match lowNext rest with
        | some (l, s) => some (joinPair (codePoint n) l, s)
        | none => some (codePoint n, rest)
      else some (codePoint n, rest) := by
  rw [readEscape, if_pos rfl, readUnit, hex4_digits h]

theorem codePoint_val (c : CodePoint) : codePoint c.val = c := Fin.ext (val_codePoint c.isLt)

/-- The halves of an astral character. -/
theorem escapePair_spec (h : 0x10000 ≤ c.val) :
    ∃ m n, escapePair c = escapeUnit m ++ escapeUnit n ∧ m < 0x10000 ∧ n < 0x10000 ∧
      isHigh (codePoint m) = true ∧ isLow (codePoint m) = false ∧ isLow (codePoint n) = true ∧
      joinPair (codePoint m) (codePoint n) = c := by
  have hc : c.val < 0x110000 := c.isLt
  refine ⟨_, _, rfl, by omega, by omega, ?_, ?_, ?_, ?_⟩
  · rw [isHigh_eq_true, val_codePoint (by omega)]
    omega
  · rw [Bool.eq_false_iff, Ne, isLow_eq_true, val_codePoint (by omega)]
    omega
  · rw [isLow_eq_true, val_codePoint (by omega)]
    omega
  · have hsum : 0x10000 + (0xD800 + (c.val - 0x10000) / 0x400 - 0xD800) * 0x400 +
        (0xDC00 + (c.val - 0x10000) % 0x400 - 0xDC00) = c.val := by omega
    rw [joinPair, val_codePoint (by omega), val_codePoint (by omega), hsum, codePoint_val]

theorem val_of_backslashLetters (h : backslashLetters.lookup l = some c) : c.val < 0x80 := by
  obtain ⟨_, _, heq, -⟩ := List.lookup_eq_some_iff.mp h
  have hmem : (l, c) ∈ backslashLetters := heq ▸ List.mem_append_right _ List.mem_cons_self
  have hall : backslashLetters.all (fun pair => pair.2.val < 0x80) = true := by decide
  exact of_decide_eq_true (List.all_eq_true.mp hall _ hmem)

/-- A surrogate is spelled by its number. -/
theorem Spelling.eq_escapeUnit (h : Spelling c t) (hc : isSurrogate c = true) :
    t = escapeUnit c.val := by
  have hrange := isSurrogate_eq_true.mp hc
  cases h with
  | plain _ hno => exact absurd hc (by simp [hno])
  | letter _ hl =>
      have hlt := val_of_backslashLetters hl
      omega
  | unit => rfl
  | pair => omega

/-- Only a low surrogate is spelled as one. -/
theorem Spelling.lowNext_append (h : Spelling c t) (hc : isLow c = false) (rest : Str) :
    lowNext (t ++ rest) = none := by
  cases h with
  | plain _ _ _ hno =>
      cases rest with
      | nil => rfl
      | cons d rest => exact if_neg fun hand => hno hand.1
  | letter hno => exact if_neg fun hand => hno hand.2
  | unit hlt => rw [lowNext_escapeUnit hlt, codePoint_val, hc, if_neg Bool.false_ne_true]
  | pair hle =>
      obtain ⟨m, n, hsplit, hm, -, -, hnot, -, -⟩ := escapePair_spec hle
      rw [hsplit, List.append_assoc, lowNext_escapeUnit hm, hnot, if_neg Bool.false_ne_true]

/-- **A character is read back**, however it is spelled, unless it is the first of a pair. -/
theorem Spelling.scanStringFrom_append (h : Spelling c t)
    (hpair : isHigh c = true → lowNext rest = none) (n : Nat) :
    scanStringFrom (n + 1) (t ++ rest) = (scanStringFrom n rest).map (Prod.map (c :: ·) id) := by
  have hquote : backslash ≠ quotation := by decide
  cases h with
  | plain hle _ hq hb =>
      rw [List.singleton_append, scanStringFrom, if_neg hq, if_neg hb, if_neg (by omega)]
  | @letter l hno hl =>
      have hread : readEscape (l :: rest) = some (c, rest) := by
        rw [readEscape, if_neg hno, hl]
        rfl
      rw [List.cons_append, List.singleton_append, scanStringFrom, if_neg hquote, if_pos rfl, hread]
  | unit hlt =>
      have hread : readEscape (letterU :: hexDigit (c.val / 4096) :: hexDigit (c.val / 256 % 16) ::
          hexDigit (c.val / 16 % 16) :: hexDigit (c.val % 16) :: rest) = some (c, rest) := by
        rw [readEscape_escapeUnit hlt, codePoint_val]
        split
        · rename_i hhigh
          rw [hpair hhigh]
        · rfl
      rw [escapeUnit_append, scanStringFrom, if_neg hquote, if_pos rfl, hread]
  | pair hle =>
      obtain ⟨m, n', hsplit, hm, hn, hhigh, -, hlow, hjoin⟩ := escapePair_spec hle
      have hread : readEscape (letterU :: hexDigit (m / 4096) :: hexDigit (m / 256 % 16) ::
          hexDigit (m / 16 % 16) :: hexDigit (m % 16) :: (escapeUnit n' ++ rest)) =
          some (c, rest) := by
        rw [readEscape_escapeUnit hm, if_pos hhigh, lowNext_escapeUnit hn, if_pos hlow]
        simp only [hjoin]
      rw [hsplit, List.append_assoc, escapeUnit_append, scanStringFrom, if_neg hquote, if_pos rfl,
        hread]

/-! ### Strings -/

theorem Spelling.ne_nil (h : Spelling c t) : t ≠ [] := by
  cases h <;> exact List.cons_ne_nil _ _

theorem length_le_flatMap (henc : ∀ c ∈ s, Spelling c (enc c)) :
    s.length ≤ (s.flatMap enc).length := by
  induction s with
  | nil => exact Nat.zero_le _
  | cons c s ih =>
      rw [List.forall_mem_cons] at henc
      have hpos := List.length_pos_iff.mpr henc.1.ne_nil
      have hrest := ih henc.2
      rw [List.flatMap_cons, List.length_append, List.length_cons]
      omega

theorem scanStringFrom_quotation (n : Nat) (rest : Str) :
    scanStringFrom (n + 1) (quotation :: rest) = some ([], rest) := by
  rw [scanStringFrom, if_pos rfl]

/-- Two surrogates in a row are read as the character they stand for. -/
theorem scanStringFrom_pair (hh : isHigh h = true) (hl : isLow l = true) (n : Nat) (rest : Str) :
    scanStringFrom (n + 1) (escapeUnit h.val ++ (escapeUnit l.val ++ rest)) =
      (scanStringFrom n rest).map (Prod.map (joinPair h l :: ·) id) := by
  have hhigh := isHigh_eq_true.mp hh
  have hlow := isLow_eq_true.mp hl
  have hread : readEscape (letterU :: hexDigit (h.val / 4096) :: hexDigit (h.val / 256 % 16) ::
      hexDigit (h.val / 16 % 16) :: hexDigit (h.val % 16) :: (escapeUnit l.val ++ rest)) =
      some (joinPair h l, rest) := by
    rw [readEscape_escapeUnit (by omega), codePoint_val, if_pos hh,
      lowNext_escapeUnit (by omega), codePoint_val, if_pos hl]
  rw [escapeUnit_append, scanStringFrom, if_neg (by decide), if_pos rfl, hread]

theorem scanStringFrom_spelled (henc : ∀ c ∈ s, Spelling c (enc c)) (hn : s.length < n)
    (rest : Str) :
    scanStringFrom n (s.flatMap enc ++ quotation :: rest) = some (joinPairs s, rest) := by
  obtain ⟨n, rfl⟩ : ∃ m, n = m + 1 := ⟨n - 1, by omega⟩
  induction s using joinPairs.induct generalizing n with
  | case1 => exact scanStringFrom_quotation n rest
  | case2 c =>
      rw [List.length_singleton] at hn
      obtain ⟨n, rfl⟩ : ∃ m, n = m + 1 := ⟨n - 1, by omega⟩
      have hquote : lowNext (quotation :: rest) = none := by
        have hno : quotation ≠ backslash := by decide
        cases rest with
        | nil => rfl
        | cons d rest => rw [lowNext, if_neg fun hand => hno hand.1]
      rw [List.flatMap_singleton, (henc c List.mem_cons_self).scanStringFrom_append
        (fun _ => hquote), scanStringFrom_quotation]
      rfl
  | case3 h l s hpair ih =>
      rw [List.forall_mem_cons, List.forall_mem_cons] at henc
      obtain ⟨hh, hl⟩ := (Bool.and_eq_true _ _).mp hpair
      have hhigh := isHigh_eq_true.mp hh
      have hlow := isLow_eq_true.mp hl
      rw [List.length_cons, List.length_cons] at hn
      obtain ⟨n, rfl⟩ : ∃ m, n = m + 1 := ⟨n - 1, by omega⟩
      rw [List.flatMap_cons, List.flatMap_cons,
        henc.1.eq_escapeUnit (isSurrogate_eq_true.mpr (by omega)),
        henc.2.1.eq_escapeUnit (isSurrogate_eq_true.mpr (by omega)),
        List.append_assoc, List.append_assoc, scanStringFrom_pair hh hl, ih henc.2.2 n (by omega),
        joinPairs, if_pos hpair]
      rfl
  | case4 h l s hpair ih =>
      rw [List.forall_mem_cons] at henc
      rw [List.length_cons] at hn
      obtain ⟨n, rfl⟩ : ∃ m, n = m + 1 := ⟨n - 1, by omega⟩
      have hnext : isHigh h = true →
          lowNext ((l :: s).flatMap enc ++ quotation :: rest) = none := by
        intro hh
        have hl : isLow l = false := by simpa [hh] using hpair
        rw [List.flatMap_cons, List.append_assoc]
        exact (henc.2 l List.mem_cons_self).lowNext_append hl _
      rw [List.flatMap_cons, List.append_assoc, henc.1.scanStringFrom_append hnext,
        ih henc.2 n (by omega), joinPairs, if_neg hpair]
      rfl

/-- **A string is read back**, however it is spelled, but for its pairs. -/
theorem scanString_spelled (henc : ∀ c ∈ s, Spelling c (enc c)) (rest : Str) :
    scanString (s.flatMap enc ++ quotation :: rest) = some (joinPairs s, rest) := by
  have hlength := length_le_flatMap henc
  refine scanStringFrom_spelled henc ?_ rest
  rw [List.length_append]
  omega

/-- `dumps` spells every character. -/
theorem spelling_encodeChar (c : CodePoint) : Spelling c (encodeChar c) := by
  rw [encodeChar]
  split
  · rename_i letter hletter
    obtain ⟨_, _, heq, -⟩ := List.lookup_eq_some_iff.mp hletter
    have hmem : (c, letter) ∈ escapeLetters := heq ▸ List.mem_append_right _ List.mem_cons_self
    have hall : escapeLetters.all (fun pair =>
        pair.2 ≠ letterU ∧ backslashLetters.lookup pair.2 = some pair.1) = true := by decide
    obtain ⟨hletter, hback⟩ := of_decide_eq_true (List.all_eq_true.mp hall _ hmem)
    exact .letter hletter hback
  · rename_i hnone
    have hno : c ≠ quotation ∧ c ≠ backslash := by
      constructor
      · rintro rfl
        exact absurd hnone (by decide)
      · rintro rfl
        exact absurd hnone (by decide)
    split
    · rename_i hrange
      refine .plain hrange.1 ?_ hno.1 hno.2
      rw [Bool.eq_false_iff, Ne, isSurrogate_eq_true]
      omega
    · split
      · rename_i hlt
        exact .unit hlt
      · exact .pair (by omega)

theorem joinPairs_of_unpaired (h : Unpaired s) : joinPairs s = s := by
  induction s using joinPairs.induct with
  | case1 => rfl
  | case2 c => rfl
  | case3 h l s hpair ih =>
      exact absurd ((Bool.and_eq_true _ _).mp hpair) (List.isChain_cons_cons.mp ‹_›).1
  | case4 h l s hpair ih => rw [joinPairs, if_neg hpair, ih (List.isChain_cons_cons.mp ‹_›).2]

theorem length_joinPairs_le (s : Str) : (joinPairs s).length ≤ s.length := by
  induction s using joinPairs.induct with
  | case1 => exact le_rfl
  | case2 c => exact le_rfl
  | case3 h l s hpair ih =>
      rw [joinPairs, if_pos hpair]
      simp only [List.length_cons]
      omega
  | case4 h l s hpair ih =>
      rw [joinPairs, if_neg hpair]
      simp only [List.length_cons] at ih ⊢
      omega

/-- A string with a pair is read back as a shorter one. -/
theorem joinPairs_eq_self_iff : joinPairs s = s ↔ Unpaired s := by
  refine ⟨fun heq => ?_, joinPairs_of_unpaired⟩
  induction s using joinPairs.induct with
  | case1 => exact .nil
  | case2 c => exact .singleton c
  | case3 h l s hpair ih =>
      rw [joinPairs, if_pos hpair] at heq
      have hlength := congrArg List.length heq
      have hle := length_joinPairs_le s
      simp only [List.length_cons] at hlength
      omega
  | case4 h l s hpair ih =>
      rw [joinPairs, if_neg hpair] at heq
      refine List.isChain_cons_cons.mpr ⟨?_, ih (List.cons.inj heq).2⟩
      rwa [Bool.and_eq_true] at hpair

theorem unpaired_of_not_high (h : ∀ c ∈ s, isHigh c = false) : Unpaired s := by
  refine List.isChain_iff_getElem.mpr fun i hi hpair => ?_
  rw [h s[i] (List.getElem_mem _)] at hpair
  exact Bool.false_ne_true hpair.1

/-- The surrogates of a file name are low ones. -/
theorem isHigh_of_mem_fsdecode {bytes : List Byte} (h : c ∈ fsdecode bytes) :
    isHigh c = false := by
  induction hn : bytes.length using Nat.strong_induction_on generalizing bytes with
  | _ n ih =>
    cases bytes with
    | nil =>
        rw [fsdecode_nil] at h
        cases h
    | cons b bytes =>
        rw [List.length_cons] at hn
        rw [fsdecode_cons] at h
        split at h
        · rename_i d hd
          rcases List.mem_cons.mp h with rfl | h
          · have hclean := (decodeNext_eq_some hd).2
            rw [Bool.eq_false_iff, Ne, isHigh_eq_true]
            rw [Bool.eq_false_iff, Ne, isSurrogate_eq_true] at hclean
            omega
          · refine ih _ ?_ h rfl
            rw [List.length_drop]
            omega
        · rename_i hnone
          rcases List.mem_cons.mp h with rfl | h
          · have hle := le_of_decodeNext_eq_none hnone
            rw [Bool.eq_false_iff, Ne, isHigh_eq_true, escape, val_codePoint (by omega)]
            omega
          · exact ih _ (by omega) h rfl

/-- **The name of a file has no pairs.** -/
theorem unpaired_fsdecode (bytes : List Byte) : Unpaired (fsdecode bytes) :=
  unpaired_of_not_high fun _ => isHigh_of_mem_fsdecode

/-! ### Values -/

/-- No digit comes next. -/
def NoDigit (s : Str) : Prop := ∀ c, s.head? = some c → ¬(48 ≤ c.val ∧ c.val ≤ 57)

/-- A text that is read as a value, whatever but a digit follows. -/
structure Reads (t : Str) (value : Scalar) : Prop where
  head : ∀ c, t.head? = some c → isWs c = false
  read : ∀ rest, NoDigit rest → scanScalar (t ++ rest) = some (value, rest)

/-- The value that is read back. -/
def Scalar.joined : Scalar → Scalar
  | .str s => .str (joinPairs s)
  | value => value

theorem reads_string (henc : ∀ c ∈ s, Spelling c (enc c)) :
    Reads (quotation :: s.flatMap enc ++ [quotation]) (.str (joinPairs s)) where
  head c hc := by
    cases hc
    decide
  read rest _ := by
    have happend : quotation :: s.flatMap enc ++ [quotation] ++ rest =
        quotation :: (s.flatMap enc ++ quotation :: rest) := by simp
    rw [happend, scanScalar, if_pos rfl, scanString_spelled henc]
    rfl

/-- A number has no leading zero. -/
theorem head?_toDigits (n : Nat) (h : 0 < n) : (Nat.toDigits 10 n).head? ≠ some '0' := by
  have hdigit : ∀ d < 10, 0 < d → d.digitChar ≠ '0' := by decide
  induction n using Nat.strong_induction_on with
  | _ n ih =>
    by_cases hlt : n < 10
    · rw [Nat.toDigits_of_lt_base hlt, List.head?_cons, Ne, Option.some_inj]
      exact hdigit n hlt h
    · rw [Nat.toDigits_of_base_le (by decide) (by omega),
        List.head?_append_of_ne_nil _ Nat.toDigits_ne_nil]
      exact ih (n / 10) (by omega) (by omega)

theorem formatNat_eq_cons (n : Nat) : ∃ c s, formatNat n = c :: s ∧ 48 ≤ c.val ∧ c.val ≤ 57 ∧
    (c = 48 → n = 0) := by
  have hne : Nat.toDigits 10 n ≠ [] := Nat.toDigits_ne_nil
  obtain ⟨d, ds, hd⟩ := List.exists_cons_of_ne_nil hne
  have hdigit : d.isDigit = true :=
    Nat.isDigit_of_mem_toDigits (b := 10) (n := n) (by decide) (by decide)
      (hd ▸ List.mem_cons_self)
  obtain ⟨hval, hlo, hhi⟩ := val_ofChar_of_isDigit hdigit
  refine ⟨CodePoint.ofChar d, ds.map CodePoint.ofChar, ?_, by omega, by omega, fun h48 => ?_⟩
  · rw [formatNat_eq, hd]
    rfl
  · by_contra hpos
    refine head?_toDigits n (by omega) ?_
    rw [hd, List.head?_cons, Option.some_inj]
    have hnat : d.toNat = 48 := by rw [← hval, h48]; rfl
    exact Char.ext (UInt32.toNat_inj.mp hnat)

theorem mem_formatNat {c : CodePoint} (h : c ∈ formatNat n) : 48 ≤ c.val ∧ c.val ≤ 57 := by
  rw [formatNat_eq] at h
  obtain ⟨d, hd, rfl⟩ := List.mem_map.mp h
  obtain ⟨hval, hlo, hhi⟩ :=
    val_ofChar_of_isDigit (Nat.isDigit_of_mem_toDigits (by decide) (by decide) hd)
  omega

theorem scanNat_formatNat (n : Nat) (hrest : NoDigit rest) :
    scanNat (formatNat n ++ rest) = some (n, rest) := by
  have hdigits : (formatNat n ++ rest).takeWhile (fun c => 48 ≤ c.val ∧ c.val ≤ 57) =
      formatNat n := by
    refine takeWhile_append_of_all (fun c hc => ?_) (fun c hc => ?_)
    · exact decide_eq_true (mem_formatNat hc)
    · exact decide_eq_false (hrest c hc)
  obtain ⟨c, s, hcons, -, -, hzero⟩ := formatNat_eq_cons n
  rw [scanNat, hdigits]
  by_cases h48 : (formatNat n).head? = some 48
  · rw [hcons, List.head?_cons, Option.some_inj] at h48
    obtain rfl := hzero h48
    have hread : (formatNat 0).head? = some 48 := by decide
    rw [if_pos hread]
    rfl
  · simp only [if_neg h48, int_formatNat, Option.map_some, List.drop_left]

theorem scanLiteral_append (literal : Str) (value : Scalar) (rest : Str) :
    scanLiteral literal value (literal ++ rest) = some (value, rest) := by
  rw [scanLiteral, if_pos (startswith_iff.mpr (List.prefix_append _ _)), List.drop_left]

theorem reads_formatInt (n : Int) : Reads (formatInt n) (.int n) := by
  cases n with
  | ofNat n =>
      obtain ⟨c, s, hcons, hlo, hhi, -⟩ := formatNat_eq_cons n
      have hne : ∀ d : CodePoint, ¬(48 ≤ d.val ∧ d.val ≤ 57) → c ≠ d := by
        rintro d hd rfl
        exact hd ⟨hlo, hhi⟩
      refine ⟨fun d hd => ?_, fun rest hrest => ?_⟩
      · rw [formatInt, hcons, List.head?_cons, Option.some_inj] at hd
        have hws : ∀ w ∈ [9, 10, 13, 32], c.val ≠ w := by
          intro w hw
          simp only [List.mem_cons, List.not_mem_nil, or_false] at hw
          omega
        rw [← hd, isWs, decide_eq_false_iff_not]
        exact fun hmem => hws _ hmem rfl
      · have hnat := scanNat_formatNat n hrest
        rw [hcons, List.cons_append] at hnat
        rw [formatInt, hcons, List.cons_append, scanScalar, if_neg (hne _ (by decide)),
          if_neg (hne _ (by decide)), if_neg (hne _ (by decide)), if_neg (hne _ (by decide)),
          if_neg (hne _ (by decide)), hnat]
        rfl
  | negSucc n =>
      refine ⟨fun d hd => ?_, fun rest hrest => ?_⟩
      · cases hd
        decide
      · rw [formatInt, List.cons_append, scanScalar, if_neg (by decide), if_neg (by decide),
          if_neg (by decide), if_neg (by decide), if_pos rfl, scanNat_formatNat _ hrest]
        rfl

/-- A literal, told by its first letter. -/
theorem reads_literal (c : CodePoint) (literal : Str) {value : Scalar} (hc : isWs c = false)
    (hscan : ∀ s, scanScalar (c :: s) = scanLiteral literal value s) :
    Reads (c :: literal) value where
  head d hd := by
    cases hd
    exact hc
  read rest _ := by rw [List.cons_append, hscan, scanLiteral_append]

theorem reads_dumpsScalar (value : Scalar) : Reads (dumpsScalar value) value.joined := by
  cases value with
  | null => exact reads_literal letterN (Py.str "ull") (by decide) fun _ => rfl
  | bool b =>
      cases b with
      | true => exact reads_literal letterT (Py.str "rue") (by decide) fun _ => rfl
      | false => exact reads_literal letterF (Py.str "alse") (by decide) fun _ => rfl
  | int n => exact reads_formatInt n
  | str s => exact reads_string fun c _ => spelling_encodeChar c

end Py.Json
