import MediaScanMonitor.Library.Str

/-!
# Library — `str.lower`

`s.lower()` maps each code point by the Unicode database, and `Σ` by what stands around it: to `ς`
where a cased character comes before it and none after, characters the database ignores left out,
and to `σ` elsewhere.  `CaseTable` is what it reads of the database.  Of its entries nothing is
used but the fields: a mapping is in lower case, and separators have no case.

* `lower_lower`, `lower_eq_self_iff`: the strings in lower case.
* `lower_dropWhile`, `lower_rstrip`: it commutes with cutting off separators.
-/

namespace Py

/-- `Σ`. -/
def capitalSigma : CodePoint := ⟨0x3A3, by decide⟩

/-- `σ`. -/
def smallSigma : CodePoint := ⟨0x3C3, by decide⟩

/-- `ς`. -/
def finalSigma : CodePoint := ⟨0x3C2, by decide⟩

/-- White space, `.` and `/`. -/
def separator (c : CodePoint) : Bool := isspace c || c = dot || c = slash

/-- What `str.lower` reads of the Unicode database. -/
structure CaseTable where
  lowercase : CodePoint → Str
  cased : CodePoint → Bool
  ignorable : CodePoint → Bool
  lowercase_ne_nil : ∀ c, lowercase c ≠ []
  lowercase_of_mem : ∀ {c d}, c ≠ capitalSigma → d ∈ lowercase c →
    lowercase d = [d] ∧ d ≠ capitalSigma
  lowercase_sigma : lowercase smallSigma = [smallSigma] ∧ lowercase finalSigma = [finalSigma]
  lowercase_separator : ∀ {c}, separator c → lowercase c = [c]
  eq_of_separator : ∀ {c d}, d ∈ lowercase c → separator d → d = c
  cased_separator : ∀ {c}, separator c → cased c = false
  ignorable_space : ∀ {c}, isspace c → ignorable c = false

namespace CaseTable
variable (T : CaseTable)

/-- The first character that is not ignored is cased. -/
def casedNext : Str → Bool
  | [] => false
  | c :: s => if T.ignorable c then casedNext s else T.cased c

/-- What `c` becomes in front of `s`; `before` tells that the last character before it, ignored
ones left out, is cased. -/
def image (before : Bool) (c : CodePoint) (s : Str) : Str :=
  if c = capitalSigma then [if before && !T.casedNext s then finalSigma else smallSigma]
  else T.lowercase c

def lowerFrom (before : Bool) : Str → Str
  | [] => []
  | c :: s => T.image before c s ++ lowerFrom (if T.ignorable c then before else T.cased c) s

/-- `s.lower()`. -/
def lower (s : Str) : Str := T.lowerFrom false s

/-- `c` is its own lower case. -/
def Settled (c : CodePoint) : Prop := T.lowercase c = [c] ∧ c ≠ capitalSigma

variable {T} {b : Bool} {c d : CodePoint} {s t : Str}

/-! ### One code point -/

theorem separator_of_space (h : isspace c = true) : separator c = true := by
  simp [separator, h]

theorem capitalSigma_not_separator : separator capitalSigma = false := by decide

theorem settled_of_separator (h : separator c = true) : T.Settled c := by
  refine ⟨T.lowercase_separator h, ?_⟩
  rintro rfl
  rw [capitalSigma_not_separator] at h
  cases h

theorem settled_smallSigma : T.Settled smallSigma := ⟨T.lowercase_sigma.1, by decide⟩

theorem image_of_settled (h : T.Settled c) : T.image b c s = [c] := by
  rw [image, if_neg h.2, h.1]

theorem image_ne_nil : T.image b c s ≠ [] := by
  rw [image]
  split
  · exact List.cons_ne_nil _ _
  · exact T.lowercase_ne_nil c

theorem settled_of_mem_image (h : d ∈ T.image b c s) : T.Settled d := by
  rw [image] at h
  split at h
  · rw [List.mem_singleton] at h
    subst h
    split
    · exact ⟨T.lowercase_sigma.2, by decide⟩
    · exact settled_smallSigma
  · rename_i hc
    exact T.lowercase_of_mem hc h

/-- A separator comes from itself only. -/
theorem eq_of_mem_image (h : d ∈ T.image b c s) (hd : separator d = true) : d = c := by
  rw [image] at h
  split at h
  · rw [List.mem_singleton] at h
    have hno : separator smallSigma = false ∧ separator finalSigma = false := by decide
    subst h
    split at hd
    · rw [hno.2] at hd
      cases hd
    · rw [hno.1] at hd
      cases hd
  · exact T.eq_of_separator h hd

/-! ### Strings in lower case -/

theorem settled_of_mem_lowerFrom (h : d ∈ T.lowerFrom b s) : T.Settled d := by
  induction s generalizing b with
  | nil => cases h
  | cons c s ih =>
      rw [lowerFrom, List.mem_append] at h
      rcases h with h | h
      · exact settled_of_mem_image h
      · exact ih h

theorem lowerFrom_of_settled (h : ∀ c ∈ s, T.Settled c) : T.lowerFrom b s = s := by
  induction s generalizing b with
  | nil => rfl
  | cons c s ih =>
      obtain ⟨hc, hs⟩ := List.forall_mem_cons.mp h
      rw [lowerFrom, image_of_settled hc, ih hs]
      rfl

theorem lower_eq_self_iff : T.lower s = s ↔ ∀ c ∈ s, T.Settled c := by
  constructor
  · intro h c hc
    rw [← h] at hc
    exact settled_of_mem_lowerFrom hc
  · exact lowerFrom_of_settled

@[simp] theorem lower_lower (s : Str) : T.lower (T.lower s) = T.lower s :=
  lowerFrom_of_settled fun _ => settled_of_mem_lowerFrom

theorem lowerFrom_eq_nil : T.lowerFrom b s = [] ↔ s = [] := by
  cases s with
  | nil => exact iff_of_true rfl rfl
  | cons c s => simp [lowerFrom, image_ne_nil]

@[simp] theorem lower_eq_nil : T.lower s = [] ↔ s = [] := lowerFrom_eq_nil

@[simp] theorem lower_nil : T.lower [] = [] := rfl

/-! ### Separators -/

theorem mem_lowerFrom (hc : separator c = true) : c ∈ T.lowerFrom b s ↔ c ∈ s := by
  induction s generalizing b with
  | nil => exact Iff.rfl
  | cons x s ih =>
      rw [lowerFrom, List.mem_append, List.mem_cons, ih]
      refine or_congr_left ⟨fun h => eq_of_mem_image h hc, ?_⟩
      rintro rfl
      rw [image_of_settled (settled_of_separator hc)]
      exact List.mem_singleton_self _

theorem mem_lower (hc : separator c = true) : c ∈ T.lower s ↔ c ∈ s := mem_lowerFrom hc

theorem head?_lower (hc : separator c = true) : (T.lower s).head? = some c ↔ s.head? = some c := by
  cases s with
  | nil => exact Iff.rfl
  | cons x s =>
      rw [lower, lowerFrom, List.head?_append_of_ne_nil _ image_ne_nil, List.head?_cons,
        Option.some_inj]
      constructor
      · intro h
        exact (eq_of_mem_image (List.mem_of_head? h) hc).symm
      · rintro rfl
        rw [image_of_settled (settled_of_separator hc)]
        rfl

/-- Separators in front are cut off before or after. -/
theorem lower_dropWhile {p : CodePoint → Bool} (hp : ∀ c, p c = true → separator c = true)
    (s : Str) : T.lower (s.dropWhile p) = (T.lower s).dropWhile p := by
  induction s with
  | nil => rfl
  | cons c s ih =>
      rw [lower, lower, lowerFrom]
      by_cases hc : p c = true
      · -- a separator leaves the state as it is at the start
        have hstate : (if T.ignorable c then false else T.cased c) = false := by
          split
          · rfl
          · exact T.cased_separator (hp c hc)
        rw [List.dropWhile_cons_of_pos hc, image_of_settled (settled_of_separator (hp c hc)),
          hstate, List.singleton_append, List.dropWhile_cons_of_pos hc]
        exact ih
      · rw [List.dropWhile_cons_of_neg hc, lowerFrom]
        obtain ⟨d, u, hd⟩ : ∃ d u, T.image false c s = d :: u :=
          List.exists_cons_of_ne_nil image_ne_nil
        have hpd : ¬ p d = true := by
          intro h
          have hmem : d ∈ T.image false c s := hd ▸ List.mem_cons_self
          exact hc (eq_of_mem_image hmem (hp d h) ▸ h)
        rw [hd, List.cons_append, List.dropWhile_cons_of_neg hpd]

theorem casedNext_concat (hc : isspace c = true) : T.casedNext (s ++ [c]) = T.casedNext s := by
  induction s with
  | nil => simp [casedNext, T.ignorable_space hc, T.cased_separator (separator_of_space hc)]
  | cons x s ih => rw [List.cons_append, casedNext, casedNext, ih]

theorem lowerFrom_concat_space (hc : isspace c = true) :
    T.lowerFrom b (s ++ [c]) = T.lowerFrom b s ++ [c] := by
  induction s generalizing b with
  | nil => simp [lowerFrom, image_of_settled (settled_of_separator (separator_of_space hc))]
  | cons x s ih =>
      have himage : T.image b x (s ++ [c]) = T.image b x s := by
        rw [image, image, casedNext_concat hc]
      rw [List.cons_append, lowerFrom, lowerFrom, himage, ih, List.append_assoc]

theorem exists_lowerFrom_concat (b : Bool) (s : Str) (c : CodePoint) :
    ∃ u b', T.lowerFrom b (s ++ [c]) = u ++ T.image b' c [] := by
  induction s generalizing b with
  | nil => exact ⟨[], b, by simp [lowerFrom]⟩
  | cons x s ih =>
      obtain ⟨u, b', hu⟩ := ih (if T.ignorable x then b else T.cased x)
      exact ⟨T.image b x (s ++ [c]) ++ u, b', by rw [List.cons_append, lowerFrom, hu,
        List.append_assoc]⟩

theorem lower_rstrip (s : Str) : T.lower (rstrip s) = rstrip (T.lower s) := by
  induction s using List.reverseRecOn with
  | nil => rfl
  | append_singleton s c ih =>
      by_cases hc : isspace c = true
      · have hconcat : T.lower (s ++ [c]) = T.lower s ++ [c] := lowerFrom_concat_space hc
        have hdrop : rstrip [c] = [] := by simp [rstrip, hc]
        rw [hconcat, rstrip_append_of_eq _ hdrop, rstrip_append_of_eq _ hdrop, ih]
      · -- the last character of what `c` becomes is no white space either
        obtain ⟨u, b', hu⟩ := @exists_lowerFrom_concat T false s c
        obtain ⟨v, d, hv⟩ := (List.eq_nil_or_concat' (T.image b' c [])).resolve_left image_ne_nil
        have hd : isspace d = false := by
          by_contra h
          have hspace : isspace d = true := by simpa using h
          have hmem : d ∈ T.image b' c [] := hv ▸ List.mem_append_right v (List.mem_singleton_self d)
          exact hc (eq_of_mem_image hmem (separator_of_space hspace) ▸ hspace)
        rw [rstrip_concat_of_not s (by simpa using hc), lower, hu, hv, ← List.append_assoc,
          rstrip_concat_of_not _ hd]

theorem lower_strip (s : Str) : T.lower (strip s) = strip (T.lower s) := by
  rw [strip, strip, lower_rstrip, lower_dropWhile fun _ => separator_of_space]

theorem lower_lstripOf_dot (s : Str) : T.lower (lstripOf dot s) = lstripOf dot (T.lower s) := by
  refine lower_dropWhile (fun c hc => ?_) s
  have hdot : c = dot := by simpa using hc
  rw [hdot]
  rfl

/-- Only a sigma depends on what stands around it. -/
theorem lowerFrom_eq_of_no_sigma (hsmall : smallSigma ∉ T.lowerFrom b s)
    (hfinal : finalSigma ∉ T.lowerFrom b s) (b' : Bool) : T.lowerFrom b' s = T.lowerFrom b s := by
  induction s generalizing b b' with
  | nil => rfl
  | cons c s ih =>
      rw [lowerFrom, List.mem_append, not_or] at hsmall hfinal
      have hc : c ≠ capitalSigma := by
        rintro rfl
        rw [image, if_pos rfl, List.mem_singleton] at hsmall hfinal
        split at hfinal
        · exact hfinal.1 rfl
        · rename_i hno
          rw [if_neg hno] at hsmall
          exact hsmall.1 rfl
      rw [lowerFrom, lowerFrom, image, image, if_neg hc, if_neg hc, ih hsmall.2 hfinal.2]

theorem exists_lowerFrom_append (b : Bool) (s t : Str) :
    ∃ u b', T.lowerFrom b (s ++ t) = u ++ T.lowerFrom b' t ∧ (u = [] ↔ s = []) := by
  induction s generalizing b with
  | nil => exact ⟨[], b, rfl, Iff.rfl⟩
  | cons c s ih =>
      obtain ⟨u, b', hu, -⟩ := ih (if T.ignorable c then b else T.cased c)
      refine ⟨T.image b c (s ++ t) ++ u, b', ?_, ?_⟩
      · rw [List.cons_append, lowerFrom, hu, List.append_assoc]
      · simp [image_ne_nil]

/-- A separator stays where it is, and what comes after it goes into lower case by itself but for
a sigma. -/
theorem exists_lower_append (hc : separator c = true) (s t : Str) :
    ∃ u b', T.lower (s ++ c :: t) = u ++ c :: T.lowerFrom b' t ∧ (u = [] ↔ s = []) := by
  obtain ⟨u, b, hu, hnil⟩ := @exists_lowerFrom_append T false s (c :: t)
  rw [lowerFrom, image_of_settled (settled_of_separator hc)] at hu
  exact ⟨u, _, hu, hnil⟩

end CaseTable

/-! ### ASCII -/

/-- An ASCII letter. -/
def asciiCased (c : CodePoint) : Bool :=
  (65 ≤ c.val && c.val ≤ 90) || (97 ≤ c.val && c.val ≤ 122)

/-- `'`, `.`, `:`, `^` and the grave accent. -/
def asciiIgnorable (c : CodePoint) : Bool := c.val ∈ [39, 46, 58, 94, 96]

section
variable {c d : CodePoint}

theorem separator_not_letter (h : separator c = true) :
    ¬(65 ≤ c.val ∧ c.val ≤ 90) ∧ ¬(97 ≤ c.val ∧ c.val ≤ 122) := by
  simp [separator, isspace, dot, slash, Fin.ext_iff] at h ⊢
  omega

theorem asciiLower_singleton_ne_nil (c : CodePoint) : asciiLower [c] ≠ [] := by
  simp [asciiLower]

theorem asciiLower_of_mem (hc : c ≠ capitalSigma) (hd : d ∈ asciiLower [c]) :
    asciiLower [d] = [d] ∧ d ≠ capitalSigma := by
  rw [mem_asciiLower] at hd
  have hsigma : capitalSigma.val = 931 := rfl
  rw [Ne, Fin.ext_iff] at hc ⊢
  split at hd
  · exact ⟨asciiLower_of_not (by omega), by omega⟩
  · rename_i hupper
    subst hd
    exact ⟨asciiLower_of_not hupper, hc⟩

theorem asciiLower_sigma :
    asciiLower [smallSigma] = [smallSigma] ∧ asciiLower [finalSigma] = [finalSigma] := by decide

theorem asciiLower_separator (h : separator c = true) : asciiLower [c] = [c] :=
  asciiLower_of_not (separator_not_letter h).1

theorem eq_of_separator_asciiLower (hd : d ∈ asciiLower [c]) (hsep : separator d = true) :
    d = c := by
  rw [mem_asciiLower] at hd
  have hno := separator_not_letter hsep
  split at hd
  · omega
  · exact hd

theorem asciiCased_separator (h : separator c = true) : asciiCased c = false := by
  have hno := separator_not_letter h
  simp only [asciiCased, Bool.or_eq_false_iff, Bool.and_eq_false_iff, decide_eq_false_iff_not]
  omega

theorem asciiIgnorable_space (h : isspace c = true) : asciiIgnorable c = false := by
  simp [isspace, asciiIgnorable] at h ⊢
  omega

end

/-- The database, of which only the entries of ASCII characters are filled in. -/
def CaseTable.ascii : CaseTable where
  lowercase c := asciiLower [c]
  cased := asciiCased
  ignorable := asciiIgnorable
  lowercase_ne_nil := asciiLower_singleton_ne_nil
  lowercase_of_mem := asciiLower_of_mem
  lowercase_sigma := asciiLower_sigma
  lowercase_separator := asciiLower_separator
  eq_of_separator := eq_of_separator_asciiLower
  cased_separator := asciiCased_separator
  ignorable_space := asciiIgnorable_space

end Py
