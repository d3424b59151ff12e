import Mathlib.Data.List.DropRight
import Mathlib.Data.List.Infix
import Mathlib.Order.Nat

/-!
# Library — the latest items of a stream

A buffer of some capacity keeps the end of what it is given (`List.rtake`), and a bounded queue the
end of what it was given and did not hand out yet.  An item of the stream is told from an equal one
by its number (`numbered`).

* `rtake_concat_rtake`: the end is kept item by item.
* `rtake_concat_suffix`, `rtake_concat_eq`: a bounded queue loses none of the latest items.
* `number_of_not_mem`: how many items are newer than one that is not among the latest.
-/

namespace Recent
variable {α : Type*} {l t : List α} {m n : Nat}

/-! ### The end of a list -/

theorem length_rtake (l : List α) (n : Nat) : (l.rtake n).length = min n l.length := by
  rw [List.rtake, List.length_drop]
  omega

theorem rtake_suffix (l : List α) (n : Nat) : l.rtake n <:+ l := List.drop_suffix _ _

/-- An end of a list is as much of it as it is long. -/
theorem eq_rtake (h : t <:+ l) : t = l.rtake t.length :=
  (List.suffix_iff_eq_drop.mp h)

theorem eq_of_suffix {s : List α} (hs : s <:+ l) (ht : t <:+ l) (h : s.length = t.length) :
    s = t := by
  rw [eq_rtake hs, h, ← eq_rtake ht]

theorem rtake_suffix_rtake (h : m ≤ n) : l.rtake m <:+ l.rtake n := by
  refine List.suffix_of_suffix_length_le (rtake_suffix l m) (rtake_suffix l n) ?_
  rw [length_rtake, length_rtake]
  omega

theorem rtake_rtake (l : List α) (m n : Nat) : (l.rtake n).rtake m = l.rtake (min m n) := by
  refine eq_of_suffix ((rtake_suffix _ m).trans (rtake_suffix l n)) (rtake_suffix l _) ?_
  simp only [length_rtake]
  omega

theorem rtake_min_length (l : List α) (n : Nat) : l.rtake (min n l.length) = l.rtake n := by
  rw [eq_rtake (rtake_suffix l n), length_rtake]

theorem suffix_concat (h : t <:+ l) (x : α) : t ++ [x] <:+ l ++ [x] := by
  obtain ⟨s, rfl⟩ := h
  exact ⟨s, (List.append_assoc s t [x]).symm⟩

/-- A buffer that keeps the end of a stream keeps it as items come in. -/
theorem rtake_concat_rtake (l : List α) (n : Nat) (x : α) :
    (l.rtake n ++ [x]).rtake n = (l ++ [x]).rtake n := by
  have hsuffix := (rtake_suffix (l.rtake n ++ [x]) n).trans (suffix_concat (rtake_suffix l n) x)
  refine eq_of_suffix hsuffix (rtake_suffix _ n) ?_
  simp only [length_rtake, List.length_append, List.length_singleton]
  omega

/-- The latest items stay at the end as one more comes in. -/
theorem rtake_concat_suffix (hn : 0 < n) (h : l.rtake n <:+ t) (x : α) :
    (l ++ [x]).rtake n <:+ t ++ [x] := by
  obtain ⟨n, rfl⟩ := Nat.exists_eq_succ_of_ne_zero hn.ne'
  rw [Nat.succ_eq_add_one, List.rtake_concat_succ]
  exact suffix_concat ((rtake_suffix_rtake n.le_succ).trans h) x

/-- A queue of `n` items drops its oldest one for the one that comes in. -/
theorem rtake_concat_eq {x y : α} {q : List α} (h : y :: q <:+ l) (hn : (y :: q).length = n) :
    (l ++ [x]).rtake n = q ++ [x] := by
  obtain rfl := hn
  rw [List.length_cons, List.rtake_concat_succ,
    ← eq_rtake ((List.suffix_cons y q).trans h)]

/-! ### Numbers -/

/-- An item of a stream, with its number. -/
structure Numbered (α : Type*) where
  number : Nat
  item : α
  deriving DecidableEq

/-- The items of a stream, with their numbers. -/
def numbered (l : List α) : List (Numbered α) := l.mapIdx Numbered.mk

@[simp] theorem length_numbered (l : List α) : (numbered l).length = l.length :=
  List.length_mapIdx

@[simp] theorem numbered_concat (l : List α) (x : α) :
    numbered (l ++ [x]) = numbered l ++ [⟨l.length, x⟩] :=
  List.mapIdx_concat

/-- The items after one of a stream are the newer ones. -/
theorem number_of_append {s q : List (Numbered α)} {e : Numbered α}
    (h : numbered l = s ++ e :: q) : e.number = s.length := by
  have hget : (numbered l)[s.length]? = some e := by
    rw [h, List.getElem?_append_right le_rfl, Nat.sub_self, List.getElem?_cons_zero]
  rw [numbered, List.getElem?_mapIdx, Option.map_eq_some_iff] at hget
  obtain ⟨x, -, rfl⟩ := hget
  rfl

/-- An item of the end of a stream that is not among the latest ones has as many newer ones. -/
theorem number_of_not_mem {t : List (Numbered α)} {e : Numbered α} (ht : t <:+ numbered l)
    (h : e ∈ t) (hno : e ∉ t.rtake n) : n ≤ l.length - (e.number + 1) := by
  obtain ⟨before, hbefore⟩ := ht
  obtain ⟨s, q, rfl⟩ := List.append_of_mem h
  rw [← List.append_assoc] at hbefore
  have hlength := congrArg List.length hbefore
  rw [length_numbered, List.length_append, List.length_cons] at hlength
  rw [number_of_append hbefore.symm]
  by_contra hlt
  refine hno ?_
  have hend : (s ++ e :: q).rtake (e :: q).length <:+ (s ++ e :: q).rtake n := by
    refine rtake_suffix_rtake ?_
    rw [List.length_cons]
    omega
  rw [← eq_rtake (List.suffix_append s (e :: q))] at hend
  exact hend.subset List.mem_cons_self

end Recent
