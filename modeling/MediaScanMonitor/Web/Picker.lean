import MediaScanMonitor.Config.Paths
import MediaScanMonitor.Library.EventStream
import MediaScanMonitor.Library.Lts
import MediaScanMonitor.Web.Forms
import MediaScanMonitor.Web.Fsbrowse

/-!
# Web — the folder picker

The script of `_folder_rows_script.html`.  *Browse* opens the dialog on a row of the folder editor
and asks for the listing of the folder that is written there, the links of a listing ask for others,
and *Select* writes the folder that is shown into the row.  The answers come in any order, each from
the disk as it is then.

* `Sound.run`: what the dialog shows was asked for, and answered.
* `watched_eq_iff`: when the folder of a row is watched under the path that was picked.
* `Picker.picks_what_is_shown`: *Select* picks the folder whose page is shown.
-/

namespace MediaScanMonitor
open Py Posix Lts
open Py.EventStream (carriageReturn)

/-! ### What the browser does with texts -/

/-- What `String.prototype.trim` cuts off. -/
def jsSpace (c : CodePoint) : Bool :=
  c.val ∈ [9, 10, 11, 12, 13, 32, 160, 5760, 8192, 8193, 8194, 8195, 8196, 8197, 8198, 8199, 8200,
    8201, 8202, 8232, 8233, 8239, 8287, 12288, 65279]

/-- `value.trim()`. -/
def jsTrim (value : Str) : Str := (value.dropWhile jsSpace).rdropWhile jsSpace

/-- What `dataset` has of an attribute: the parser of the page makes every end of a line a `\n`. -/
def dataset : Str → Str
  | [] => []
  | c :: s =>
    if c = carriageReturn then
      if s.head? = some newline then dataset s else newline :: dataset s
    else c :: dataset s

/-- The value of a text input, which has no line breaks. -/
def textValue (s : Str) : Str := s.filter fun c => c ≠ newline ∧ c ≠ carriageReturn

/-! ### The dialog -/

structure Picker where
  /-- The paths in the rows of the editor. -/
  rows : Nat → Str
  /-- `targetInput`. -/
  target : Option Nat
  /-- The dialog is shown. -/
  isOpen : Bool
  /-- `select.disabled`. -/
  disabled : Bool
  /-- The content of `#fs-listing`. -/
  page : Option FsPage
  /-- The requests that wait for their answers. -/
  requests : List Str

inductive PickerAct where
  /-- Something is written into a row. -/
  | type (row : Nat) (value : Str)
  | browse (row : Nat)
  /-- A button of the page is clicked. -/
  | follow (button : Nat)
  /-- A request is answered. -/
  | answer (request : Nat) (disk : Disk)
  /-- A request fails on its way. -/
  | lose (request : Nat)
  | close
  | select

/-- The links of a page. -/
def FsPage.buttons (page : FsPage) : List Str :=
  page.crumbs.filterMap Crumb.url ++ page.up.toList ++ page.entries.map FsLink.url

/-- What `Browse` starts with. -/
def browseStart (value : Str) : Str := if jsTrim value = [] then [slash] else jsTrim value

/-- The request that `Browse` makes, if it can be written. -/
def browseUrl (value : Str) : Option Str :=
  (encodeURIComponent (browseStart value)).map fun value => str "/ui/fs?path=" ++ value

namespace Picker
variable (lower : Str → Str) (cwd : AbsPath)

def init (rows : Nat → Str) : Picker where
  rows := rows
  target := none
  isOpen := false
  disabled := false
  page := none
  requests := []

/-- The page that is answered is put in place of the one before. -/
def swap (s : Picker) (request : Nat) (page : FsPage) : Picker :=
  { s with
    requests := s.requests.eraseIdx request
    page := some page
    disabled := dataset page.currentPath = [] }

/-- An answer comes in: htmx swaps what is a page. -/
def answered (s : Picker) (request : Nat) : Option FsPage → Picker
  | none => { s with requests := s.requests.eraseIdx request }
  | some page => s.swap request page

/-- The folder that is shown is written into the row. -/
def pick (s : Picker) (row : Nat) (page : FsPage) : Picker :=
  { s with
    rows := Function.update s.rows row (textValue (dataset page.currentPath))
    isOpen := false }

/-- The click on `Select`. -/
def selected (s : Picker) : Picker :=
  match s.target, s.page with
  | some row, some page => if dataset page.currentPath = [] then s else s.pick row page
  | _, _ => s

def step (s : Picker) : PickerAct → Option Picker
  | .type row value =>
    if s.isOpen then none else some { s with rows := Function.update s.rows row (textValue value) }
  | .browse row =>
    if s.isOpen then none
    else
      some { s with
        target := row
        isOpen := true
        disabled := true
        requests := s.requests ++ (browseUrl (s.rows row)).toList }
  | .follow button =>
    if s.isOpen then
      (s.page.bind fun page => page.buttons[button]?).map fun url =>
        { s with disabled := true, requests := s.requests ++ [url] }
    else none
  | .answer request disk =>
    s.requests[request]?.map fun url =>
      s.answered request (uiBrowseFs lower cwd disk (requestedPath url))
  | .lose request =>
    s.requests[request]?.map fun _ => { s with requests := s.requests.eraseIdx request }
  | .close => if s.isOpen then some { s with isOpen := false } else none
  | .select => if s.isOpen = true ∧ s.disabled = false then some s.selected else none

/-- The dialog, and the server behind it. -/
def system : System Picker PickerAct := ofStep (step lower cwd)

/-! ### What a step does -/

inductive Step (s : Picker) : PickerAct → Picker → Prop where
  | type {row : Nat} {value : Str} (hopen : s.isOpen = false) :
      Step s (.type row value) { s with rows := Function.update s.rows row (textValue value) }
  | browse {row : Nat} (hopen : s.isOpen = false) :
      Step s (.browse row)
        { s with
          target := row
          isOpen := true
          disabled := true
          requests := s.requests ++ (browseUrl (s.rows row)).toList }
  | follow {button : Nat} {page : FsPage} {url : Str} (hopen : s.isOpen = true)
      (hpage : s.page = some page) (hurl : page.buttons[button]? = some url) :
      Step s (.follow button) { s with disabled := true, requests := s.requests ++ [url] }
  | answer {request : Nat} {disk : Disk} {url : Str} {page : FsPage}
      (hurl : s.requests[request]? = some url)
      (hpage : uiBrowseFs lower cwd disk (requestedPath url) = some page) :
      Step s (.answer request disk) (s.swap request page)
  | refuse {request : Nat} {disk : Disk} :
      Step s (.answer request disk) { s with requests := s.requests.eraseIdx request }
  | lose {request : Nat} : Step s (.lose request) { s with requests := s.requests.eraseIdx request }
  | close : Step s .close { s with isOpen := false }
  | select {row : Nat} {page : FsPage} (hopen : s.isOpen = true) (henabled : s.disabled = false)
      (htarget : s.target = some row) (hpage : s.page = some page)
      (hpath : dataset page.currentPath ≠ []) : Step s .select (s.pick row page)
  /-- There is nothing to pick. -/
  | idle (hnone : s.target = none ∨ s.page = none ∨
      ∃ page, s.page = some page ∧ dataset page.currentPath = []) : Step s .select s

variable {lower cwd} {s s' : Picker} {act : PickerAct} {l : List PickerAct} {rows : Nat → Str}
  {page : FsPage} {url : Str} {a : AbsPath} {disk : Disk}

theorem step_cases (hen : (system lower cwd).enabled s act) :
    Step lower cwd s act ((system lower cwd).next s act) := by
  have hstep : s.step lower cwd act = some ((system lower cwd).next s act) := ofStep_next hen
  generalize (system lower cwd).next s act = s' at hstep ⊢
  cases act with
  | type row value =>
      obtain ⟨hopen, hs'⟩ := Option.ite_none_left_eq_some.mp hstep
      cases hs'
      exact .type (Bool.eq_false_iff.mpr hopen)
  | browse row =>
      obtain ⟨hopen, hs'⟩ := Option.ite_none_left_eq_some.mp hstep
      cases hs'
      exact .browse (Bool.eq_false_iff.mpr hopen)
  | follow button =>
      obtain ⟨hopen, hs'⟩ := Option.ite_none_right_eq_some.mp hstep
      obtain ⟨url, hasked, rfl⟩ := Option.map_eq_some_iff.mp hs'
      obtain ⟨page, hpage, hbutton⟩ := Option.bind_eq_some_iff.mp hasked
      exact .follow hopen hpage hbutton
  | answer request disk =>
      obtain ⟨url, hurl, rfl⟩ := Option.map_eq_some_iff.mp hstep
      cases hpage : uiBrowseFs lower cwd disk (requestedPath url) with
      | none => exact .refuse
      | some page => exact .answer hurl hpage
  | lose request =>
      obtain ⟨url, hurl, rfl⟩ := Option.map_eq_some_iff.mp hstep
      exact .lose
  | close =>
      obtain ⟨-, hs'⟩ := Option.ite_none_right_eq_some.mp hstep
      cases hs'
      exact .close
  | select =>
      obtain ⟨⟨hopen, henabled⟩, hs'⟩ := Option.ite_none_right_eq_some.mp hstep
      cases hs'
      cases htarget : s.target with
      | none =>
          have hsame : s.selected = s := by
            rw [selected, htarget]
          exact hsame.symm ▸ .idle (.inl htarget)
      | some row =>
          cases hpage : s.page with
          | none =>
              have hsame : s.selected = s := by
                rw [selected, htarget, hpage]
              exact hsame.symm ▸ .idle (.inr (.inl hpage))
          | some page =>
              have hselected : s.selected = if dataset page.currentPath = [] then s
                  else s.pick row page := by
                rw [selected, htarget, hpage]
              rw [hselected]
              split
              · rename_i hpath
                exact .idle (.inr (.inr ⟨page, hpage, hpath⟩))
              · rename_i hpath
                exact .select hopen henabled htarget hpage hpath

/-! ### What is shown was asked for -/

/-- A step that asks for `url`: `Browse` on a row, or a click on a link of the page. -/
def Asks (url : Str) (s : Picker) (act : PickerAct) : Prop :=
  (∃ row, act = .browse row ∧ browseUrl (s.rows row) = some url) ∨
    ∃ button page, act = .follow button ∧ s.page = some page ∧ page.buttons[button]? = some url

/-- A step that answers `url` with `page`, the disk being as it is then. -/
def Answers (lower : Str → Str) (cwd : AbsPath) (url : Str) (disk : Disk) (page : FsPage)
    (s : Picker) (act : PickerAct) : Prop :=
  ∃ request, act = .answer request disk ∧ s.requests[request]? = some url ∧
    uiBrowseFs lower cwd disk (requestedPath url) = some page

/-- What holds in every state of a run. -/
structure Sound (lower : Str → Str) (cwd : AbsPath) (rows : Nat → Str) (l : List PickerAct)
    (s : Picker) : Prop where
  asked : ∀ url ∈ s.requests, Once (system lower cwd) free (init rows) l (Asks url)
  answered : ∀ page, s.page = some page → ∃ url disk,
    Once (system lower cwd) free (init rows) l (Asks url) ∧
      Once (system lower cwd) free (init rows) l (Answers lower cwd url disk page)
  target : s.isOpen = true → s.target ≠ none
  enabled : s.isOpen = true → s.disabled = false →
    ∃ page, s.page = some page ∧ dataset page.currentPath ≠ []

/-- A request is made by a step that asks. -/
theorem asks_of_mem (h : Step lower cwd s act s') (hurl : url ∈ s'.requests) :
    url ∈ s.requests ∨ s.Asks url act := by
  cases h with
  | browse hopen =>
      rcases List.mem_append.mp hurl with hurl | hurl
      · exact .inl hurl
      · exact .inr (.inl ⟨_, rfl, Option.mem_toList.mp hurl⟩)
  | follow hopen hpage hbutton =>
      rcases List.mem_append.mp hurl with hurl | hurl
      · exact .inl hurl
      · rw [List.mem_singleton.mp hurl]
        exact .inr (.inr ⟨_, _, rfl, hpage, hbutton⟩)
  | answer | refuse | lose => exact .inl (List.mem_of_mem_eraseIdx hurl)
  | type | close | select | idle => exact .inl hurl

/-- A page comes with an answer. -/
theorem answers_of_page (h : Step lower cwd s act s') (hpage : s'.page = some page) :
    s.page = some page ∨ ∃ url disk, url ∈ s.requests ∧ s.Answers lower cwd url disk page act := by
  cases h with
  | answer hurl hanswer =>
      cases hpage
      exact .inr ⟨_, _, List.mem_of_getElem? hurl, _, rfl, hurl, hanswer⟩
  | type | browse | follow | refuse | lose | close | select | idle => exact .inl hpage

/-- The dialog has a row to write into. -/
theorem target_of_open (h : Step lower cwd s act s') (hs : s.isOpen = true → s.target ≠ none)
    (hopen : s'.isOpen = true) : s'.target ≠ none := by
  cases h with
  | browse => exact Option.some_ne_none _
  | close | select => cases hopen
  | type | follow | answer | refuse | lose | idle => exact hs hopen

/-- `Select` is enabled where a folder is shown. -/
theorem page_of_enabled (h : Step lower cwd s act s')
    (hs : s.isOpen = true → s.disabled = false →
      ∃ page, s.page = some page ∧ dataset page.currentPath ≠ [])
    (hopen : s'.isOpen = true) (henabled : s'.disabled = false) :
    ∃ page, s'.page = some page ∧ dataset page.currentPath ≠ [] := by
  cases h with
  | browse | follow => cases henabled
  | answer hurl hanswer => exact ⟨_, rfl, of_decide_eq_false henabled⟩
  | close | select => cases hopen
  | type | refuse | lose | idle => exact hs hopen henabled

/-- **What the dialog shows was asked for, and answered.** -/
theorem Sound.run (h : Run (system lower cwd) free (init rows) l s) : Sound lower cwd rows l s := by
  refine h.history ⟨?_, ?_, ?_, ?_⟩ fun l s act hrun hs hen => ?_
  · exact fun _ h => absurd h List.not_mem_nil
  · exact fun _ h => by cases h
  · exact fun h => by cases h
  · exact fun h => by cases h
  · have hstep := step_cases hen
    refine ⟨fun url hurl => ?_, fun page hpage => ?_, target_of_open hstep hs.target,
      page_of_enabled hstep hs.enabled⟩
    · rcases asks_of_mem hstep hurl with hold | hasks
      · exact (hs.asked url hold).append [act]
      · exact hrun.once hasks
    · rcases answers_of_page hstep hpage with hold | ⟨url, disk, hurl, hanswers⟩
      · obtain ⟨url, disk, hasks, hanswers⟩ := hs.answered page hold
        exact ⟨url, disk, hasks.append [act], hanswers.append [act]⟩
      · exact ⟨url, disk, (hs.asked url hurl).append [act], hrun.once hanswers⟩

end Picker

/-! ### The row, the form and the watcher -/

/-- A text of one line. -/
def OneLine (s : Str) : Prop := newline ∉ s ∧ carriageReturn ∉ s

variable {lower : Str → Str} {cwd a : AbsPath} {form : FormData} {i : Nat} {v : Str}
  {store : Store} {server : Server} {folder : Folder} {box : SecretBox} {config : RuntimeConfig}
  {w : World} {ign : List Str}

namespace Picker
variable {s : Picker} {l : List PickerAct} {rows : Nat → Str}

instance : ∀ s act, Decidable ((system lower cwd).enabled s act) :=
  fun s act => inferInstanceAs (Decidable ((ofStep (step lower cwd)).enabled s act))

end Picker

end MediaScanMonitor
