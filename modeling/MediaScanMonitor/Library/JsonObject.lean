import MediaScanMonitor.Library.Json

/-!
# Library — JSON objects

An object is read back member by member, whatever white space stands between its tokens; `dumps`
puts a blank behind its commas, and a text that is written by hand may put lines.

* `loads_objectText`: an object is read back.
* `loads_dumps_eq_iff`: when a dictionary is read back as it was.
* `printable_dumps`: what `dumps` writes is printable ASCII, so that it is one line.
-/

namespace Py.Json

variable {c : CodePoint} {s t rest : Str} {n : Nat} {enc : CodePoint → Str}

/-! ### Objects -/

/-- A member that is read: the key, spelled between its quotation marks, and the value. -/
structure ReadsMember (text : Str × Str) (member : Str × Scalar) : Prop where
  key : ∃ body, text.1 = quotation :: body ∧
    ∀ rest, scanString (body ++ rest) = some (member.1, rest)
  value : Reads text.2 member.2

variable {text : Str × Str} {member : Str × Scalar} {texts : List (Str × Str)}
  {members : List (Str × Scalar)} {ws lead sep trail : Str}

theorem skipWs_append (hws : ws.all isWs = true)
    (hs : ∀ c, s.head? = some c → isWs c = false) : skipWs (ws ++ s) = s := by
  rw [skipWs, List.dropWhile_append_of_pos (List.all_eq_true.mp hws)]
  cases s with
  | nil => rfl
  | cons c s => exact List.dropWhile_cons_of_neg (by simp [hs c rfl])

theorem skipWs_cons (hc : isWs c = false) (s : Str) : skipWs (c :: s) = c :: s :=
  List.dropWhile_cons_of_neg (by simp [hc])

theorem scanMember_memberText (h : ReadsMember text member) (hrest : NoDigit rest) :
    scanMember (memberText text ++ rest) = some (member, rest) := by
  obtain ⟨body, hkey, hread⟩ := h.key
  have hspace : (Py.str " ").all isWs = true := by decide
  have hcolon : isWs colon = false := by decide
  have hhead : ∀ c, (text.2 ++ rest).head? = some c → isWs c = false := by
    intro c hc
    cases htext : text.2 with
    | nil =>
        -- An empty text is read as nothing.
        have hnone := h.value.read [] (fun c hc => by cases hc)
        rw [htext] at hnone
        cases hnone
    | cons d t =>
        rw [htext] at hc
        exact h.value.head c (by rw [htext]; exact hc)
  have happend : memberText text ++ rest =
      quotation :: (body ++ (colon :: (Py.str " " ++ (text.2 ++ rest)))) := by
    rw [memberText, hkey]
    simp [Py.str, colon]
    rfl
  rw [happend, scanMember, if_pos rfl, hread]
  simp only [skipWs_cons hcolon, if_true, skipWs_append hspace hhead, h.value.read rest hrest,
    Option.map_some, Prod.map_apply, id_eq]

theorem noDigit_cons (h : ¬(48 ≤ c.val ∧ c.val ≤ 57)) (s : Str) : NoDigit (c :: s) := by
  intro d hd
  cases hd
  exact h

/-- White space is no digit. -/
theorem noDigit_append (hws : ws.all isWs = true) (hs : NoDigit s) : NoDigit (ws ++ s) := by
  cases ws with
  | nil => exact hs
  | cons c ws =>
      refine noDigit_cons ?_ _
      have hc : isWs c = true := List.all_eq_true.mp hws c List.mem_cons_self
      rw [isWs, decide_eq_true_eq] at hc
      simp only [List.mem_cons, List.not_mem_nil, or_false] at hc
      omega

/-- The members of an object begin with the quotation mark of a key. -/
theorem intercalate_eq_cons (h : List.Forall₂ ReadsMember texts members) (hne : texts ≠ [])
    (glue rest : Str) : ∃ s, glue.intercalate (texts.map memberText) ++ rest = quotation :: s := by
  cases h with
  | nil => exact absurd rfl hne
  | @cons text member texts members htext htexts =>
      obtain ⟨body, hkey, -⟩ := htext.key
      cases texts with
      | nil =>
          rw [List.map_singleton, List.intercalate_singleton, memberText, hkey]
          exact ⟨_, rfl⟩
      | cons next texts =>
          rw [List.map_cons, List.map_cons, List.intercalate_cons_cons, memberText, hkey]
          exact ⟨_, rfl⟩

/-- **The members are read one by one**, whatever white space stands behind the commas. -/
theorem scanMembersFrom_intercalate (hsep : sep.all isWs = true) (htrail : trail.all isWs = true)
    (h : List.Forall₂ ReadsMember texts members) (hne : texts ≠ []) (hn : texts.length ≤ n)
    (rest : Str) :
    scanMembersFrom n ((comma :: sep).intercalate (texts.map memberText) ++
      (trail ++ closeBrace :: rest)) = some (members, rest) := by
  have hclose : isWs closeBrace = false := by decide
  have hcomma : isWs comma = false := by decide
  induction h generalizing n with
  | nil => exact absurd rfl hne
  | @cons text member texts members htext htexts ih =>
      obtain ⟨n, rfl⟩ : ∃ m, n = m + 1 := ⟨n - 1, by rw [List.length_cons] at hn; omega⟩
      cases htexts with
      | nil =>
          have hend : skipWs (trail ++ closeBrace :: rest) = closeBrace :: rest :=
            skipWs_append htrail fun c hc => by cases hc; exact hclose
          have hdigit : NoDigit (trail ++ closeBrace :: rest) :=
            noDigit_append htrail (noDigit_cons (by decide) _)
          rw [List.map_singleton, List.intercalate_singleton, scanMembersFrom,
            scanMember_memberText htext hdigit]
          simp only [hend, if_true]
      | @cons next member' texts members hnext htexts =>
          have hmore : next :: texts ≠ [] := List.cons_ne_nil _ _
          have hall : List.Forall₂ ReadsMember (next :: texts) (member' :: members) :=
            .cons hnext htexts
          obtain ⟨s, hs⟩ := intercalate_eq_cons hall hmore (comma :: sep)
            (trail ++ closeBrace :: rest)
          have hskip : skipWs (sep ++ quotation :: s) = quotation :: s :=
            skipWs_append hsep fun c hc => by cases hc; decide
          have hdigit : NoDigit (comma :: (sep ++ quotation :: s)) := noDigit_cons (by decide) _
          have hbrace : comma ≠ closeBrace := by decide
          have happend : (comma :: sep).intercalate ((text :: next :: texts).map memberText) ++
              (trail ++ closeBrace :: rest) =
                memberText text ++ comma :: (sep ++ quotation :: s) := by
            rw [List.map_cons, List.map_cons, List.intercalate_cons_cons, ← List.map_cons,
              List.append_assoc, List.append_assoc, hs, List.cons_append]
          have hrest := ih hmore (n := n) (by simpa using hn)
          rw [hs] at hrest
          rw [happend, scanMembersFrom, scanMember_memberText htext hdigit]
          simp only [skipWs_cons hcomma, if_neg hbrace, if_true, hskip, hrest, Option.map_some,
            Prod.map_apply, id_eq]

theorem length_le_intercalate (glue : Str) (texts : List (Str × Str)) :
    texts.length ≤ (glue.intercalate (texts.map memberText)).length := by
  have hpos : ∀ text : Str × Str, 1 ≤ (memberText text).length := by
    intro text
    rw [memberText, List.length_append, List.length_append]
    have hglue : (Py.str ": ").length = 2 := by decide
    omega
  induction texts with
  | nil => exact Nat.zero_le _
  | cons text texts ih =>
      have htext := hpos text
      cases texts with
      | nil =>
          rw [List.map_singleton, List.intercalate_singleton, List.length_singleton]
          exact htext
      | cons next texts =>
          rw [List.map_cons, List.map_cons, List.intercalate_cons_cons, List.length_append,
            List.length_append, ← List.map_cons]
          simp only [List.length_cons] at ih ⊢
          omega

/-- **An object is read back**, whatever white space stands in it. -/
theorem loads_objectText (hlead : lead.all isWs = true) (hsep : sep.all isWs = true)
    (htrail : trail.all isWs = true) (h : List.Forall₂ ReadsMember texts members) :
    loads (objectText lead sep trail texts) = some (dictOf members) := by
  have hopen : isWs openBrace = false := by decide
  have hclose : ∀ c, (closeBrace :: ([] : Str)).head? = some c → isWs c = false := by
    intro c hc
    cases hc
    decide
  have hscan : scanObject (lead ++ ((comma :: sep).intercalate (texts.map memberText) ++
      (trail ++ [closeBrace]))) = some (members, []) := by
    by_cases hne : texts = []
    · subst hne
      cases h with
      | nil =>
          have hall : (lead ++ trail).all isWs = true := by
            rw [List.all_append, hlead, htrail]
            rfl
          rw [List.map_nil, List.intercalate_nil, List.nil_append, ← List.append_assoc, scanObject,
            skipWs_append hall hclose]
          rfl
    · obtain ⟨s, hs⟩ := intercalate_eq_cons h hne (comma :: sep) (trail ++ [closeBrace])
      have hskip : skipWs (lead ++ quotation :: s) = quotation :: s :=
        skipWs_append hlead fun c hc => by cases hc; decide
      have hbrace : quotation ≠ closeBrace := by decide
      have hfuel : texts.length ≤ (lead ++ quotation :: s).length + 1 := by
        have hle := length_le_intercalate (comma :: sep) texts
        rw [List.length_append, ← hs, List.length_append]
        omega
      have hread := scanMembersFrom_intercalate hsep htrail h hne hfuel []
      rw [hs] at hread ⊢
      rw [scanObject, hskip]
      simp only [if_neg hbrace, hread]
  have happend : objectText lead sep trail texts = openBrace :: (lead ++
      ((comma :: sep).intercalate (texts.map memberText) ++ (trail ++ [closeBrace]))) := by
    rw [objectText]
    simp only [List.cons_append, List.append_assoc]
  rw [happend, loads, skipWs_cons hopen]
  simp only [if_true, hscan]
  rfl

/-! ### `json.loads` of `json.dumps` -/

theorem readsMember_spelled {key : Str} {value : Scalar} (henc : ∀ c ∈ key, Spelling c (enc c))
    (ht : Reads t value) :
    ReadsMember (quotation :: key.flatMap enc ++ [quotation], t) (joinPairs key, value) where
  key := by
    refine ⟨key.flatMap enc ++ [quotation], rfl, fun rest => ?_⟩
    rw [List.append_assoc, List.singleton_append, scanString_spelled henc]
  value := ht

/-- A dictionary whose keys differ. -/
theorem dictOf_of_nodup {pairs : List (Str × Scalar)} (h : (pairs.map Prod.fst).Nodup) :
    dictOf pairs = pairs := by
  have hfold : ∀ (d pairs : List (Str × Scalar)), ((d ++ pairs).map Prod.fst).Nodup →
      pairs.foldl (fun d pair =>
        if pair.1 ∈ d.map Prod.fst then
          d.map fun member => if member.1 = pair.1 then pair else member
        else d ++ [pair]) d = d ++ pairs := by
    intro d pairs
    induction pairs generalizing d with
    | nil =>
        intro _
        rw [List.foldl_nil, List.append_nil]
    | cons pair pairs ih =>
        intro hnodup
        have hno : pair.1 ∉ d.map Prod.fst := by
          rw [List.map_append, List.map_cons, List.nodup_append] at hnodup
          exact fun hmem => hnodup.2.2 _ hmem _ List.mem_cons_self rfl
        rw [List.foldl_cons, if_neg hno, ih (d ++ [pair]) (by rwa [List.append_assoc]),
          List.append_assoc]
        rfl
  exact hfold [] pairs h

/-- What `dumps` writes is read back, but for the pairs. -/
theorem loads_dumps (d : List (Str × Scalar)) :
    loads (dumps d) = some (dictOf (d.map (Prod.map joinPairs Scalar.joined))) := by
  refine loads_objectText rfl (by decide) rfl ?_
  induction d with
  | nil => exact .nil
  | cons member d ih =>
      exact .cons (readsMember_spelled (fun c _ => spelling_encodeChar c)
        (reads_dumpsScalar member.2)) ih

/-- A value without pairs. -/
def Scalar.Unpaired : Scalar → Prop
  | .str s => Json.Unpaired s
  | _ => True

theorem Scalar.joined_eq_self_iff {value : Scalar} : value.joined = value ↔ value.Unpaired := by
  cases value with
  | str s =>
      rw [Scalar.joined, Scalar.str.injEq]
      exact joinPairs_eq_self_iff
  | null | bool | int => exact iff_of_true rfl trivial

/-- Keys that are told apart when they are read back. -/
structure IsKeys (keys : List Str) : Prop where
  nodup : keys.Nodup
  unpaired : ∀ key ∈ keys, Json.Unpaired key

theorem isKeys_of_ascii {keys : List Str} (hnodup : keys.Nodup)
    (h : keys.all (fun key => key.all fun c => c.val < 0x80) = true) : IsKeys keys := by
  refine ⟨hnodup, fun key hkey => ?_⟩
  have hkey := List.all_eq_true.mp (List.all_eq_true.mp h key hkey)
  refine List.isChain_iff_getElem.mpr fun i hi => ?_
  have hlt := of_decide_eq_true (hkey key[i] (List.getElem_mem _))
  rw [isHigh_eq_true]
  omega

theorem dictOf_joined {d : List (Str × Scalar)} (hkeys : IsKeys (d.map Prod.fst)) :
    dictOf (d.map (Prod.map joinPairs Scalar.joined)) =
      d.map fun member => (member.1, member.2.joined) := by
  have hjoin : d.map (Prod.map joinPairs Scalar.joined) =
      d.map fun member => (member.1, member.2.joined) := by
    refine List.map_congr_left fun member hmember => ?_
    rw [Prod.map, joinPairs_of_unpaired (hkeys.unpaired _ (List.mem_map_of_mem hmember))]
  have hnodup : ((d.map fun member => (member.1, member.2.joined)).map Prod.fst).Nodup := by
    rw [List.map_map]
    exact hkeys.nodup
  rw [hjoin, dictOf_of_nodup hnodup]

theorem map_joined_eq_self_iff {d : List (Str × Scalar)} :
    (d.map fun member => (member.1, member.2.joined)) = d ↔
      ∀ member ∈ d, member.2.Unpaired := by
  have hvalue : ∀ member : Str × Scalar,
      (member.1, member.2.joined) = id member ↔ member.2.Unpaired := by
    intro member
    rw [← Scalar.joined_eq_self_iff, Prod.ext_iff]
    exact and_iff_right rfl
  calc (d.map fun member => (member.1, member.2.joined)) = d
      ↔ (d.map fun member => (member.1, member.2.joined)) = d.map id := by rw [List.map_id]
    _ ↔ ∀ member ∈ d, (member.1, member.2.joined) = id member := List.map_inj_left
    _ ↔ ∀ member ∈ d, member.2.Unpaired := forall₂_congr fun member _ => hvalue member

/-- **The round trip**: a dictionary is read back as it was exactly when no value of it has a
pair. -/
theorem loads_dumps_eq_iff {d : List (Str × Scalar)} (hkeys : IsKeys (d.map Prod.fst)) :
    loads (dumps d) = some d ↔ ∀ member ∈ d, member.2.Unpaired := by
  rw [loads_dumps, dictOf_joined hkeys, Option.some_inj, map_joined_eq_self_iff]

/-! ### The characters of a text -/

/-- Printable ASCII. -/
def Printable (s : Str) : Prop := ∀ c ∈ s, 0x20 ≤ c.val ∧ c.val ≤ 0x7E

instance (s : Str) : Decidable (Printable s) := List.decidableBAll _ s

theorem printable_append : Printable (s ++ t) ↔ Printable s ∧ Printable t :=
  List.forall_mem_append

theorem printable_cons : Printable (c :: s) ↔ (0x20 ≤ c.val ∧ c.val ≤ 0x7E) ∧ Printable s :=
  List.forall_mem_cons

theorem printable_hexDigit : ∀ n < 16, 0x20 ≤ (hexDigit n).val ∧ (hexDigit n).val ≤ 0x7E := by
  decide +kernel

theorem printable_escapeUnit (h : n < 0x10000) : Printable (escapeUnit n) := by
  simp only [escapeUnit, printable_cons]
  exact ⟨by decide, by decide, printable_hexDigit _ (by omega), printable_hexDigit _ (by omega),
    printable_hexDigit _ (by omega), printable_hexDigit _ (by omega), fun c hc => by cases hc⟩

theorem printable_encodeChar (c : CodePoint) : Printable (encodeChar c) := by
  rw [encodeChar]
  split
  · rename_i letter hletter
    obtain ⟨_, _, heq, -⟩ := List.lookup_eq_some_iff.mp hletter
    have hmem : (c, letter) ∈ escapeLetters := heq ▸ List.mem_append_right _ List.mem_cons_self
    have hall : escapeLetters.all (fun pair => 0x20 ≤ pair.2.val ∧ pair.2.val ≤ 0x7E) = true := by
      decide
    have hletter := of_decide_eq_true (List.all_eq_true.mp hall _ hmem)
    simp only [printable_cons]
    exact ⟨by decide, hletter, fun c hc => by cases hc⟩
  · split
    · rename_i hrange
      exact printable_cons.mpr ⟨hrange, fun c hc => by cases hc⟩
    · have hc : c.val < 0x110000 := c.isLt
      split
      · rename_i hlt
        exact printable_escapeUnit hlt
      · exact printable_append.mpr
          ⟨printable_escapeUnit (by omega), printable_escapeUnit (by omega)⟩

theorem printable_flatMap (h : ∀ c ∈ s, Printable (enc c)) : Printable (s.flatMap enc) := by
  intro d hd
  obtain ⟨c, hc, hdc⟩ := List.mem_flatMap.mp hd
  exact h c hc d hdc

theorem printable_encodeString (s : Str) : Printable (encodeString s) := by
  rw [encodeString, printable_append, printable_cons, printable_cons]
  exact ⟨⟨by decide, printable_flatMap fun c _ => printable_encodeChar c⟩, by decide,
    fun c hc => by cases hc⟩

theorem printable_dumpsScalar (value : Scalar) : Printable (dumpsScalar value) := by
  have hnat : ∀ n, Printable (formatNat n) := fun n c hc => by
    have hrange := mem_formatNat hc
    omega
  cases value with
  | null => decide
  | bool b => cases b <;> decide
  | int n =>
      cases n with
      | ofNat n => exact hnat n
      | negSucc n => exact printable_cons.mpr ⟨by decide, hnat _⟩
  | str s => exact printable_encodeString s

theorem printable_intercalate {glue : Str} {items : List Str} (hglue : Printable glue)
    (h : ∀ item ∈ items, Printable item) : Printable (glue.intercalate items) := by
  induction items with
  | nil => exact fun c hc => by cases hc
  | cons item items ih =>
      rw [List.forall_mem_cons] at h
      cases items with
      | nil => simpa using h.1
      | cons next items =>
          rw [List.intercalate_cons_cons, printable_append, printable_append]
          exact ⟨⟨h.1, hglue⟩, ih h.2⟩

/-- **What `dumps` writes is printable ASCII.** -/
theorem printable_dumps (d : List (Str × Scalar)) : Printable (dumps d) := by
  have hmembers : ∀ text ∈ d.map fun member => (encodeString member.1, dumpsScalar member.2),
      Printable (memberText text) := by
    intro text htext
    obtain ⟨member, -, rfl⟩ := List.mem_map.mp htext
    rw [memberText, printable_append, printable_append]
    exact ⟨⟨printable_encodeString _, by decide⟩, printable_dumpsScalar _⟩
  rw [dumps, objectText, printable_append, printable_append, List.cons_append, printable_cons]
  refine ⟨⟨⟨by decide, ?_⟩, by decide⟩, by decide⟩
  rw [List.nil_append]
  refine printable_intercalate (by decide) fun item hitem => ?_
  obtain ⟨text, htext, rfl⟩ := List.mem_map.mp hitem
  exact hmembers text htext

end Py.Json
