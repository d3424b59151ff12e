import MediaScanMonitor.Library.JsonObject
import MediaScanMonitor.Servers.Adapters

/-!
# Servers — the bodies of webhooks

The two built-in templates, `DEFAULT_BODY_TEMPLATE` and the preset `sonarr_radarr`, are made of text
and of `{{ expression | tojson }}`.  `Jinja.render` renders templates of that kind, from their
source on, and what is asked of the sandboxed environment is that it agrees on these two
(`Interpreter.Renders`).

* `reads_tojson`: what `tojson` writes is read back.
* `loads_body`: a built-in body is an object, and which.
* `send_builtin`: with a built-in template the request is made, whatever the name of the file is,
  and the receiver gets its bytes.
-/

namespace MediaScanMonitor
open Py

/-! ### Templates -/

namespace Jinja

/-- What stands in front of `| tojson`. -/
inductive Expr where
  | var (name : Str)
  /-- `("yes" if cond else "no")`. -/
  | choice (yes cond no : Str)
  deriving DecidableEq

inductive Segment where
  | text (s : Str)
  | tojson (expr : Expr)
  deriving DecidableEq

/-- The letters of a name. -/
def isIdent (c : CodePoint) : Bool := (97 ≤ c.val && c.val ≤ 122) || c = 95

def parseExpr (s : Str) : Option Expr :=
  if s ≠ [] ∧ s.all isIdent = true then some (.var s)
  else
    match s.splitOn Json.quotation with
    | [start, yes, mid, no, stop] =>
      if start = str "(" ∧ stop = str ")" then
        (between (str " if ") (str " else ") mid).bind fun cond =>
          if cond ≠ [] ∧ cond.all isIdent = true then some (.choice yes cond no) else none
      else none
    | _ => none

/-- What stands between `{{` and `}}`. -/
def parseTag (s : Str) : Option Segment :=
  ((between (str " ") (str " | tojson ") s).bind parseExpr).map Segment.tojson

/-- The text up to two characters in a row, and what follows them. -/
def cut (a b : CodePoint) : Str → Option (Str × Str)
  | [] => none
  | c :: s =>
    if c = a ∧ s.head? = some b then some ([], s.tail)
    else (cut a b s).map (Prod.map (c :: ·) id)

/-- No statement and no comment begins. -/
def isPlain (s : Str) : Bool :=
  (cut Json.openBrace 37 s).isNone && (cut Json.openBrace 35 s).isNone

/-- The segments of a template; every tag of it is cut off. -/
def parseFrom : Nat → Str → Option (List Segment)
  | 0, _ => none
  | n + 1, s =>
    match cut Json.openBrace Json.openBrace s with
    | none => if isPlain s then some [.text s] else none
    | some (text, s) =>
      match cut Json.closeBrace Json.closeBrace s with
      | none => none
      | some (tag, s) =>
        if isPlain text then
          (parseTag tag).bind fun tag =>
            (parseFrom n s).map fun segments => .text text :: tag :: segments
        else none

/-- A line break at the end of a template is taken away, which is left out. -/
def parse (s : Str) : Option (List Segment) :=
  if s.getLast? = some newline then none else parseFrom (s.length + 1) s

/-- The characters of `htmlsafe_json_dumps`. -/
def unsafeChars : List CodePoint := [60, 62, 38, 39]

def htmlsafe (s : Str) : Str :=
  s.flatMap fun c => if c ∈ unsafeChars then Json.escapeUnit c.val else [c]

/-- `tojson`. -/
def tojson (value : Json.Scalar) : Str := htmlsafe (Json.dumpsScalar value)

/-- The value of an expression; an undefined name is left out. -/
def Expr.eval (items : List (Str × Json.Scalar)) : Expr → Option Json.Scalar
  | .var name => items.lookup name
  | .choice yes cond no =>
    match items.lookup cond with
    | some (.bool b) => some (.str (if b then yes else no))
    | _ => none

def Segment.output (items : List (Str × Json.Scalar)) : Segment → Option Str
  | .text s => some s
  | .tojson expr => (expr.eval items).map Jinja.tojson

/-- `from_string(source).render(**items)`. -/
def render (source : Str) (items : List (Str × Json.Scalar)) : Option Str :=
  (parse source).bind fun segments => (segments.mapM (Segment.output items)).map List.flatten

end Jinja

/-- The variables of a template, by their names. -/
def Context.items (context : Context) : List (Str × Json.Scalar) :=
  [(str "event_type", .str context.eventType), (str "file_path", .str context.filePath),
    (str "host_path", .str context.hostPath),
    (str "scan_path", context.scanPath.elim .null .str),
    (str "top_folder", context.topFolder.elim .null .str),
    (str "library_id", context.libraryId.elim .null .str),
    (str "server_name", .str context.serverName), (str "app_name", .str context.appName),
    (str "secret", .str context.secret), (str "is_test", .bool context.isTest)]

def builtinTemplates : List Str := [defaultBodyTemplate, sonarrRadarrTemplate]

/-- The environment renders the built-in templates as `Jinja.render` does. -/
def Interpreter.Renders (py : Interpreter) : Prop :=
  ∀ source ∈ builtinTemplates, ∀ context body, Jinja.render source context.items = some body →
    py.render source context = .ok body

/-! ### What `tojson` writes -/

namespace Jinja
variable {c : CodePoint} {s t : Str}

theorem htmlsafe_append (s t : Str) : htmlsafe (s ++ t) = htmlsafe s ++ htmlsafe t :=
  List.flatMap_append

theorem htmlsafe_cons (h : c ∉ unsafeChars) (s : Str) : htmlsafe (c :: s) = c :: htmlsafe s := by
  rw [htmlsafe, List.flatMap_cons, if_neg h]
  rfl

theorem htmlsafe_of_not (h : ∀ c ∈ s, c ∉ unsafeChars) : htmlsafe s = s := by
  induction s with
  | nil => rfl
  | cons c s ih =>
      rw [List.forall_mem_cons] at h
      rw [htmlsafe_cons h.1, ih h.2]

theorem hexDigit_not_mem : ∀ n < 16, Json.hexDigit n ∉ unsafeChars := by decide +kernel

theorem htmlsafe_escapeUnit {n : Nat} (h : n < 0x10000) :
    htmlsafe (Json.escapeUnit n) = Json.escapeUnit n := by
  refine htmlsafe_of_not fun c hc => ?_
  rw [Json.escapeUnit] at hc
  simp only [List.mem_cons, List.not_mem_nil, or_false] at hc
  rcases hc with rfl | rfl | rfl | rfl | rfl | rfl
  · decide
  · decide
  · exact hexDigit_not_mem _ (by omega)
  · exact hexDigit_not_mem _ (by omega)
  · exact hexDigit_not_mem _ (by omega)
  · exact hexDigit_not_mem _ (by omega)

/-- `tojson` spells every character, some in another way than `dumps`. -/
theorem spelling_htmlsafe (c : CodePoint) : Json.Spelling c (htmlsafe (Json.encodeChar c)) := by
  have hspelling := Json.spelling_encodeChar c
  generalize Json.encodeChar c = t at hspelling
  cases hspelling with
  | plain hle hclean hquote hslash =>
      by_cases hc : c ∈ unsafeChars
      · rw [htmlsafe, List.flatMap_singleton, if_pos hc]
        refine .unit ?_
        have hall : unsafeChars.all (fun c => c.val < 0x10000) = true := by decide
        exact of_decide_eq_true (List.all_eq_true.mp hall c hc)
      · rw [htmlsafe_cons hc]
        exact .plain hle hclean hquote hslash
  | @letter l hno hl =>
      have hall : Json.backslashLetters.all (fun pair => pair.1 ∉ unsafeChars) = true := by decide
      obtain ⟨_, _, heq, -⟩ := List.lookup_eq_some_iff.mp hl
      have hmem : (l, c) ∈ Json.backslashLetters :=
        heq ▸ List.mem_append_right _ List.mem_cons_self
      have hletter : l ∉ unsafeChars := of_decide_eq_true (List.all_eq_true.mp hall _ hmem)
      rw [htmlsafe_cons (by decide), htmlsafe_cons hletter]
      exact .letter hno hl
  | unit hlt =>
      rw [htmlsafe_escapeUnit hlt]
      exact .unit hlt
  | pair hle =>
      have hc : c.val < 0x110000 := c.isLt
      rw [Json.escapePair, htmlsafe_append, htmlsafe_escapeUnit (by omega),
        htmlsafe_escapeUnit (by omega)]
      exact .pair hle

/-- **What `tojson` writes is read back.** -/
theorem reads_tojson (value : Json.Scalar) : Json.Reads (tojson value) value.joined := by
  have hsame : ∀ s : Str, s.all (fun c => c ∉ unsafeChars) = true → htmlsafe s = s := fun s hs =>
    htmlsafe_of_not fun c hc => of_decide_eq_true (List.all_eq_true.mp hs c hc)
  cases value with
  | null =>
      rw [tojson, hsame _ (by decide)]
      exact Json.reads_dumpsScalar .null
  | bool b =>
      have hb : htmlsafe (Json.dumpsScalar (.bool b)) = Json.dumpsScalar (.bool b) :=
        hsame _ (by cases b <;> decide)
      rw [tojson, hb]
      exact Json.reads_dumpsScalar (.bool b)
  | int n =>
      have hdigit : ∀ c : CodePoint, 48 ≤ c.val ∧ c.val ≤ 57 → c ∉ unsafeChars := by
        intro c hc hmem
        have hall : unsafeChars.all (fun c => ¬(48 ≤ c.val ∧ c.val ≤ 57)) = true := by decide
        exact of_decide_eq_true (List.all_eq_true.mp hall c hmem) hc
      have hn : htmlsafe (Json.formatInt n) = Json.formatInt n := by
        cases n with
        | ofNat n => exact htmlsafe_of_not fun c hc => hdigit c (Json.mem_formatNat hc)
        | negSucc n =>
            rw [Json.formatInt, htmlsafe_cons (by decide),
              htmlsafe_of_not fun c hc => hdigit c (Json.mem_formatNat hc)]
      rw [tojson, Json.dumpsScalar, hn]
      exact Json.reads_formatInt n
  | str s =>
      have hquote : Json.quotation ∉ unsafeChars := by decide
      have hstring : tojson (.str s) =
          Json.quotation :: s.flatMap (fun c => htmlsafe (Json.encodeChar c)) ++
            [Json.quotation] := by
        rw [tojson, Json.dumpsScalar, Json.encodeString, htmlsafe_append, htmlsafe_cons hquote,
          htmlsafe_cons hquote, htmlsafe, htmlsafe, List.flatMap_assoc]
        rfl
      rw [hstring]
      exact Json.reads_string fun c _ => spelling_htmlsafe c

/-! ### Objects in templates -/

/-- The text in front of a value. -/
def keyText (key : Str) : Str := Json.encodeString key ++ str ": "

/-- A template of the members behind the first one. -/
def objectTail (sep trail : Str) : List (Str × Expr) → List Segment
  | [] => [.text (trail ++ [Json.closeBrace])]
  | (key, expr) :: members =>
    .text (comma :: sep ++ keyText key) :: .tojson expr :: objectTail sep trail members

/-- A template of an object. -/
def objectSegments (lead sep trail : Str) (first : Str × Expr) (members : List (Str × Expr)) :
    List Segment :=
  .text (Json.openBrace :: lead ++ keyText first.1) :: .tojson first.2 ::
    objectTail sep trail members

/-- The expressions of a template have these values. -/
def Evaluates (items : List (Str × Json.Scalar)) :
    List (Str × Expr) → List (Str × Json.Scalar) → Prop :=
  List.Forall₂ fun member value => member.1 = value.1 ∧ member.2.eval items = some value.2

/-- A member as the template spells it. -/
def spelled (member : Str × Json.Scalar) : Str × Str :=
  (Json.encodeString member.1, tojson member.2)

variable {items values : List (Str × Json.Scalar)} {members : List (Str × Expr)}
  {first : Str × Expr} {value : Str × Json.Scalar}

theorem output_tojson {expr : Expr} {v : Json.Scalar} (h : expr.eval items = some v) :
    Segment.output items (.tojson expr) = some (tojson v) := by
  rw [Segment.output, h]
  rfl

theorem intercalate_cons_eq (glue : Str) (t : Str) (ts : List Str) :
    glue.intercalate (t :: ts) = t ++ ts.flatMap (glue ++ ·) := by
  induction ts generalizing t with
  | nil => simp
  | cons next ts ih =>
      rw [List.intercalate_cons_cons, ih next, List.flatMap_cons, List.append_assoc,
        List.append_assoc]

theorem output_objectTail (sep trail : Str) (h : Evaluates items members values) :
    ((objectTail sep trail members).mapM (Segment.output items)).map List.flatten =
      some ((values.map (Json.memberText ∘ spelled)).flatMap ((comma :: sep) ++ ·) ++
        (trail ++ [Json.closeBrace])) := by
  induction h with
  | nil => simp [objectTail, Segment.output]
  | @cons member value members values hmember _ ih =>
      obtain ⟨key, expr⟩ := member
      obtain ⟨rfl, heval⟩ := hmember
      obtain ⟨rest, hrest, hflat⟩ := Option.map_eq_some_iff.mp ih
      rw [objectTail, List.mapM_cons, List.mapM_cons, output_tojson heval, hrest]
      simp only [Segment.output, Option.pure_def, Option.bind_eq_bind, Option.bind_some,
        Option.map_some, List.flatten_cons, hflat]
      simp [keyText, spelled, Json.memberText]

/-- **A template of an object renders that object.** -/
theorem output_objectSegments (lead sep trail : Str) (hfirst : first.1 = value.1)
    (heval : first.2.eval items = some value.2) (h : Evaluates items members values) :
    ((objectSegments lead sep trail first members).mapM (Segment.output items)).map
        List.flatten =
      some (Json.objectText lead sep trail ((value :: values).map spelled)) := by
  obtain ⟨rest, hrest, hflat⟩ := Option.map_eq_some_iff.mp (output_objectTail sep trail h)
  rw [objectSegments, List.mapM_cons, List.mapM_cons, output_tojson heval, hrest]
  simp only [Segment.output, Option.pure_def, Option.bind_eq_bind, Option.bind_some,
    Option.map_some, List.flatten_cons, hflat]
  rw [Json.objectText, List.map_cons, List.map_cons, List.map_map, intercalate_cons_eq, hfirst]
  simp [keyText, spelled, Json.memberText]

/-- Such an object is read back. -/
theorem loads_spelled {lead sep trail : Str} (hlead : lead.all Json.isWs = true)
    (hsep : sep.all Json.isWs = true) (htrail : trail.all Json.isWs = true)
    (values : List (Str × Json.Scalar)) :
    Json.loads (Json.objectText lead sep trail (values.map spelled)) =
      some (Json.dictOf (values.map (Prod.map Json.joinPairs Json.Scalar.joined))) := by
  refine Json.loads_objectText hlead hsep htrail ?_
  induction values with
  | nil => exact .nil
  | cons value values ih =>
      exact .cons (Json.readsMember_spelled (fun c _ => Json.spelling_encodeChar c)
        (reads_tojson value.2)) ih

/-- A template writes ASCII where its own text is. -/
theorem lt_of_mem_objectText {lead sep trail : Str} {c : CodePoint}
    (hlead : lead.all Json.isWs = true) (hsep : sep.all Json.isWs = true)
    (htrail : trail.all Json.isWs = true) (values : List (Str × Json.Scalar))
    (hc : c ∈ Json.objectText lead sep trail (values.map spelled)) : c.val < 0x80 := by
  have hws : ∀ s : Str, s.all Json.isWs = true → ∀ c ∈ s, c.val < 0x80 := by
    intro s hs c hc
    have hc := of_decide_eq_true (List.all_eq_true.mp hs c hc)
    simp only [List.mem_cons, List.not_mem_nil, or_false] at hc
    omega
  have hmember : ∀ value ∈ values, ∀ c ∈ Json.memberText (spelled value), c.val < 0x80 := by
    intro value _ c hc
    have hprint : Json.Printable (Json.memberText (spelled value)) := by
      rw [Json.memberText, Json.printable_append, Json.printable_append]
      refine ⟨⟨Json.printable_encodeString _, by decide⟩, Json.printable_flatMap fun c hc => ?_⟩
      split
      · rename_i hmem
        have hall : unsafeChars.all (fun c => c.val < 0x10000) = true := by decide
        exact Json.printable_escapeUnit (of_decide_eq_true (List.all_eq_true.mp hall c hmem))
      · exact Json.printable_cons.mpr
          ⟨Json.printable_dumpsScalar _ c hc, fun d hd => by cases hd⟩
    exact lt_of_le_of_lt (hprint c hc).2 (by decide)
  rw [Json.objectText, List.mem_append, List.mem_append, List.cons_append, List.mem_cons,
    List.mem_append] at hc
  rcases hc with ((rfl | hc | hc) | hc) | hc
  · decide
  · exact hws lead hlead c hc
  · cases values with
    | nil => cases hc
    | cons value values =>
        rw [List.forall_mem_cons] at hmember
        rw [List.map_cons, List.map_cons, intercalate_cons_eq, List.mem_append] at hc
        rcases hc with hc | hc
        · exact hmember.1 c hc
        · obtain ⟨text, htext, hc⟩ := List.mem_flatMap.mp hc
          rw [List.map_map] at htext
          obtain ⟨value', hvalue', rfl⟩ := List.mem_map.mp htext
          rcases List.mem_append.mp hc with hc | hc
          · rcases List.mem_cons.mp hc with rfl | hc
            · decide
            · exact hws sep hsep c hc
          · exact hmember.2 value' hvalue' c hc
  · exact hws trail htrail c hc
  · obtain rfl := List.mem_singleton.mp hc
    decide

end Jinja

/-! ### The built-in bodies -/

namespace WebhookAdapter
variable {py : Interpreter} {client : Client} {server : ServerRuntime} {req : ScanRequest}
  {isTest : Bool}

/-- No template of the operator's is used. -/
def UsesBuiltin (server : ServerRuntime) : Prop :=
  server.webhookPayloadPreset = .custom → server.webhookBodyTemplate.getD [] = []

instance (server : ServerRuntime) : Decidable (UsesBuiltin server) :=
  inferInstanceAs (Decidable (_ → _))

/-- The object that the built-in body of a server is. -/
def members (server : ServerRuntime) (context : Context) : List (Str × Json.Scalar) :=
  match server.webhookPayloadPreset with
  | .custom =>
    [(str "event", .str context.eventType), (str "file_path", .str context.filePath),
      (str "scan_path", context.scanPath.elim .null .str),
      (str "top_folder", context.topFolder.elim .null .str),
      (str "library_id", context.libraryId.elim .null .str),
      (str "server", .str context.serverName)]
  | .sonarrRadarr =>
    [(str "eventType", .str (if context.isTest then str "Test" else str "Download")),
      (str "instanceName", .str context.appName), (str "file_path", .str context.filePath)]

/-- What stands in front of every member of the templates. -/
def indent : Str := str "\n  "

theorem parse_defaultBodyTemplate :
    Jinja.parse defaultBodyTemplate = some (Jinja.objectSegments indent indent [newline]
      (str "event", .var (str "event_type"))
      [(str "file_path", .var (str "file_path")), (str "scan_path", .var (str "scan_path")),
        (str "top_folder", .var (str "top_folder")), (str "library_id", .var (str "library_id")),
        (str "server", .var (str "server_name"))]) := by
  decide +kernel

theorem parse_sonarrRadarrTemplate :
    Jinja.parse sonarrRadarrTemplate = some (Jinja.objectSegments indent indent [newline]
      (str "eventType", .choice (str "Test") (str "is_test") (str "Download"))
      [(str "instanceName", .var (str "app_name")),
        (str "file_path", .var (str "file_path"))]) := by
  decide +kernel

theorem render_builtin (hbuiltin : UsesBuiltin server) (context : Context) :
    ∃ template ∈ builtinTemplates, bodyTemplate server = .ok template ∧
      Jinja.render template context.items =
        some (Json.objectText indent indent [newline]
          ((members server context).map Jinja.spelled)) := by
  cases hpreset : server.webhookPayloadPreset with
  | custom =>
      refine ⟨defaultBodyTemplate, List.mem_cons_self, ?_, ?_⟩
      · rw [bodyTemplate, hpreset]
        simp only [orElse, if_pos (hbuiltin hpreset)]
      · rw [Jinja.render, parse_defaultBodyTemplate, Option.bind_some, members, hpreset]
        refine Jinja.output_objectSegments indent indent [newline] rfl rfl ?_
        exact .cons ⟨rfl, rfl⟩ (.cons ⟨rfl, rfl⟩ (.cons ⟨rfl, rfl⟩ (.cons ⟨rfl, rfl⟩
          (.cons ⟨rfl, rfl⟩ .nil))))
  | sonarrRadarr =>
      refine ⟨sonarrRadarrTemplate, List.mem_cons_of_mem _ List.mem_cons_self, ?_, ?_⟩
      · rw [bodyTemplate, hpreset]
        rfl
      · rw [Jinja.render, parse_sonarrRadarrTemplate, Option.bind_some, members, hpreset]
        refine Jinja.output_objectSegments indent indent [newline] rfl rfl ?_
        exact .cons ⟨rfl, rfl⟩ (.cons ⟨rfl, rfl⟩ .nil)

theorem isKeys_members (server : ServerRuntime) (context : Context) :
    Json.IsKeys ((members server context).map Prod.fst) := by
  have hdefault : Json.IsKeys [str "event", str "file_path", str "scan_path", str "top_folder",
      str "library_id", str "server"] := Json.isKeys_of_ascii (by decide) (by decide)
  have hpreset : Json.IsKeys [str "eventType", str "instanceName", str "file_path"] :=
    Json.isKeys_of_ascii (by decide) (by decide)
  rw [members]
  split
  · exact hdefault
  · exact hpreset

theorem lookup_filePath (server : ServerRuntime) (context : Context) :
    ((members server context).map fun member => (member.1, member.2.joined)).lookup
      (str "file_path") = some (.str (Json.joinPairs context.filePath)) := by
  rw [members]
  split <;> rfl

/-- **A built-in body** can be sent, whatever it tells of, and is read as the object it stands for:
as it was exactly when no string of it has a pair of surrogates, and with the bytes of the name of
the file in any case. -/
theorem send_builtin (hpy : py.Renders) (hurl : strip server.baseUrl ≠ [])
    (hbuiltin : UsesBuiltin server) {headers : List (Str × Str)}
    (hheaders : WebhookAdapter.headers py server (context server req isTest) = .ok headers) :
    ∃ body content, encode body = some content ∧
      send py client server req isTest =
        sendRequest client server ⟨py.upper (orElse server.webhookMethod (str "POST")),
          strip server.baseUrl, headers, some content⟩ (str "webhook delivered") ∧
      (Json.loads body = some (members server (context server req isTest)) ↔
        ∀ member ∈ members server (context server req isTest), member.2.Unpaired) ∧
      ∀ name, req.filePath = fsdecode name → ∃ d path, Json.loads body = some d ∧
        d.lookup (str "file_path") = some (.str path) ∧ fsencode path = some name := by
  obtain ⟨template, hmem, htemplate, hrender⟩ :=
    render_builtin hbuiltin (context server req isTest)
  have hindent : indent.all Json.isWs = true := by decide
  have hnewline : [newline].all Json.isWs = true := by decide
  generalize hbody : Json.objectText indent indent [newline]
    ((members server (context server req isTest)).map Jinja.spelled) = body at hrender
  have hencode : encode body = some (body.map fun c => byte c.val) := by
    refine encode_of_lt fun c hc => ?_
    rw [← hbody] at hc
    exact Jinja.lt_of_mem_objectText hindent hindent hnewline _ hc
  have hloads : Json.loads body =
      some ((members server (context server req isTest)).map fun member =>
        (member.1, member.2.joined)) := by
    rw [← hbody, Jinja.loads_spelled hindent hindent hnewline,
      Json.dictOf_joined (isKeys_members _ _)]
  refine ⟨body, _, hencode, ?_, ?_, fun name hname => ?_⟩
  · have hrendered : (do
        return (← py.render template (context server req isTest),
          ← WebhookAdapter.headers py server (context server req isTest)) :
          Except Raised (Str × List (Str × Str))) = .ok (body, headers) := by
      rw [hpy template hmem _ _ hrender, hheaders]
      rfl
    rw [send, if_neg hurl, htemplate]
    simp only [hrendered, hencode]
  · rw [hloads, Option.some_inj, Json.map_joined_eq_self_iff]
  · refine ⟨_, _, hloads, lookup_filePath _ _, ?_⟩
    have hpath : (context server req isTest).filePath = fsdecode name := hname
    rw [hpath, Json.joinPairs_of_unpaired (Json.unpaired_fsdecode name), fsencode_fsdecode]

/-- An environment that renders nothing else, and no headers. -/
def textInterpreter : Interpreter where
  upper := id
  repr := id
  loads _ := .ok (some [])
  render source context :=
    match Jinja.render source context.items with
    | some body => .ok body
    | none => .error ⟨.templateError, str "TemplateSyntaxError", [], []⟩
  loads_cls _ _ h := by cases h
  render_cls source context exc h := by
    revert h
    cases Jinja.render source context.items with
    | none =>
        intro h
        cases h
        decide
    | some body =>
        intro h
        cases h

/-- A webhook that is told of a file whose name is no text. -/
def hookServer : ServerRuntime :=
  { makeServerRuntime 1 .off 0 with type := .webhook, webhookPayloadPreset := .sonarrRadarr }

def latin1Request : ScanRequest where
  serverId := 1
  serverName := str "plex-1"
  scanMode := .library
  scanPath := none
  libraryId := none
  scanKey := str "1"
  eventType := .created
  filePath := fsdecode [0x2F, 0xE9, 0x22]
  topFolder := none

theorem renders_textInterpreter : textInterpreter.Renders := by
  intro source _ context body h
  simp only [textInterpreter, h]

theorem send_builtin_latin1 : ∃ body content, encode body = some content ∧
    send textInterpreter (fun _ _ => .response ⟨200⟩) hookServer latin1Request false =
      sendRequest (fun _ _ => .response ⟨200⟩) hookServer
        ⟨textInterpreter.upper (orElse hookServer.webhookMethod (str "POST")),
          strip hookServer.baseUrl, [(str "Content-Type", str "application/json")],
          some content⟩ (str "webhook delivered") ∧
      ∃ d path, Json.loads body = some d ∧ d.lookup (str "file_path") = some (.str path) ∧
        fsencode path = some [0x2F, 0xE9, 0x22] := by
  have hurl : strip hookServer.baseUrl ≠ [] := by decide +kernel
  obtain ⟨body, content, hencode, hsend, -, hname⟩ :=
    @send_builtin textInterpreter (fun _ _ => .response ⟨200⟩) hookServer latin1Request false
      renders_textInterpreter hurl (by decide) [(str "Content-Type", str "application/json")] rfl
  exact ⟨body, content, hencode, hsend, hname [0x2F, 0xE9, 0x22] rfl⟩

end WebhookAdapter

end MediaScanMonitor
