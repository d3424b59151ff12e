import MediaScanMonitor.Library.Posix

/-!
# Normalize — `normalize.py`

`normalize_path` strips white space around the whole string and then takes `os.path.normpath`.
On the spelling of an absolute path only the last name can lose anything: its trailing white
space, and with it possibly the whole component (`AbsPath.trim`).  The spelling is a fixed point
exactly when the last name does not end in white space (`AbsPath.Clean`).
-/

namespace MediaScanMonitor
open Py Posix

/-- `normalize_path`. -/
def normalizePath (path : Str) : Str := normpath (strip path)

/-- `normalize_extension`. -/
def normalizeExtension (lower : Str → Str) (ext : Str) : Str :=
  lower (strip (lstripOf dot (strip ext)))

end MediaScanMonitor

namespace Posix.AbsPath
open Py MediaScanMonitor

/-- `a` with the white space after its last name stripped, and what is left normalised. -/
def trim (a : AbsPath) : AbsPath :=
  match a.segs.getLast? with
  | none => a
  | some n => step { a with segs := a.segs.dropLast } (rstrip n.val)

/-- The last name of `a` does not end in white space. -/
def Clean (a : AbsPath) : Prop := a.trim = a

instance (a : AbsPath) : Decidable a.Clean := inferInstanceAs (Decidable (_ = _))

theorem trim_push (a : AbsPath) (n : Name) : (a.push n).trim = a.step (rstrip n.val) := by
  simp [trim, push]

theorem slash_not_mem_rstrip (n : Name) : slash ∉ rstrip n.val :=
  fun h => n.ok.2.1 ((rstrip_isPrefix n.val).subset h)

/-- **`normalize_path` on a spelling trims the path.** -/
theorem normalizePath_toStr (a : AbsPath) : normalizePath a.toStr = a.trim.toStr := by
  have hstrip : ∀ t : Str, strip (a.root ++ t) = rstrip (a.root ++ t) := fun t => by
    unfold root
    split <;> exact strip_of_head _ isspace_slash
  rw [normalizePath, toStr, hstrip, ← toStr]
  obtain ⟨d, s⟩ := a
  rcases List.eq_nil_or_concat' s with rfl | ⟨s, n, rfl⟩
  · cases d <;> decide
  · obtain ⟨x, hx⟩ := exists_join_eq ⟨d, s⟩
    have hpush : toStr ⟨d, s ++ [n]⟩ = x ++ [slash] ++ n.val := by
      rw [← hx _ n.ok.2.1, join_toStr]; rfl
    have hr : rstrip (x ++ [slash] ++ n.val) = x ++ [slash] ++ rstrip n.val := by
      by_cases h : rstrip n.val = []
      · rw [rstrip_append_of_eq _ h, h, rstrip_concat_of_not x isspace_slash, List.append_nil]
      · exact rstrip_append_of_ne _ h
    rw [hpush, hr, ← hx _ (slash_not_mem_rstrip n), normpath_join _ (slash_not_mem_rstrip n)]
    exact congrArg toStr (trim_push ⟨d, s⟩ n).symm

theorem clean_iff {a : AbsPath} : a.Clean ↔ normalizePath a.toStr = a.toStr := by
  rw [normalizePath_toStr, toStr_inj, Clean]

theorem Clean.normalizePath {a : AbsPath} (h : a.Clean) : normalizePath a.toStr = a.toStr :=
  clean_iff.mp h

/-- A path is clean when its last name is. -/
theorem clean_push_iff {a : AbsPath} {n : Name} : (a.push n).Clean ↔ rstrip n.val = n.val := by
  rw [Clean, trim_push]
  constructor
  · intro h
    have hseg := congrArg AbsPath.segs h
    unfold step at hseg
    cases hn : toName? (rstrip n.val) with
    | some m =>
        rw [hn] at hseg
        simp only [segs_push, List.append_cancel_left_eq, List.cons.injEq, and_true] at hseg
        rw [← toName?_eq_some hn, hseg]
    | none =>
        rw [hn] at hseg
        have := congrArg List.length hseg
        dsimp only at this
        split at this <;> simp at this
  · intro h
    rw [h, step_name]

end Posix.AbsPath

namespace MediaScanMonitor
open Py Posix

/-- `p` spells an absolute path. -/
def Spelled (p : Str) : Prop := ∃ a : AbsPath, p = a.toStr

/-- What `normalize_path` makes of an absolute string spells a path. -/
theorem spelled_normalizePath {s : Str} (habs : isabs s = true) : Spelled (normalizePath s) := by
  obtain ⟨t, rfl⟩ := startswith_iff.mp habs
  refine AbsPath.exists_toStr_of_normpath ?_
  rw [show [slash] ++ t = slash :: t from rfl, strip_of_head t isspace_slash]
  refine startswith_iff.mpr ?_
  by_cases h : rstrip t = []
  · have : rstrip ([slash] ++ t) = rstrip [slash] := rstrip_append_of_eq _ h
    rw [show slash :: t = [slash] ++ t from rfl, this]
    exact List.prefix_rfl
  · rw [show slash :: t = [slash] ++ t from rfl, rstrip_append_of_ne _ h]
    exact List.prefix_append _ _

/-- A normalised absolute string is the spelling of a clean path. -/
theorem exists_clean_of_normalized {s : Str} (habs : isabs s = true)
    (hnorm : normalizePath s = s) : ∃ a : AbsPath, a.Clean ∧ s = a.toStr := by
  obtain ⟨a, ha⟩ := spelled_normalizePath habs
  have hsa : s = a.toStr := hnorm ▸ ha
  exact ⟨a, AbsPath.clean_iff.mpr (hsa ▸ hnorm), hsa⟩

end MediaScanMonitor
