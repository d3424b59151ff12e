import MediaScanMonitor.Pipeline.Events

/-!
# Pipeline — `filters.py`

`str.lower` is a parameter of what uses it: nothing here depends on the case table.
-/

namespace MediaScanMonitor
open Py

/-- `is_ignored`. -/
def isIgnored (path : Str) (ignoreDirs : List Str) : Bool :=
  if ignoreDirs.isEmpty then false
  else (path.splitOn slash).any fun segment => segment ∈ ignoreDirs

/-- `extension_matches`. -/
def extensionMatches (lower : Str → Str) (path : Str) (extensions : List Str) : Bool :=
  if extensions.isEmpty then true
  else
    let name := afterLast slash path
    let (base, dot, ext) := rpartition dot name
    if dot.isEmpty || base.isEmpty then false else lower ext ∈ extensions

theorem isIgnored_iff {path : Str} {ignoreDirs : List Str} :
    isIgnored path ignoreDirs = true ↔ ∃ segment ∈ path.splitOn slash, segment ∈ ignoreDirs := by
  rw [isIgnored]
  cases ignoreDirs with
  | nil => simp
  | cons dir ignoreDirs => simp

end MediaScanMonitor
