import MapFilter.Configuration
import MapFilter.Toml.Lexical
import MapFilter.Toml.Scalar

/-!
# TOML: documents

A document is a table of named values, some of which are tables themselves. Its lines add to it, and
no line may change what an earlier one has said: how a table came to be decides what may still be
added to it.

* `Value`, `Origin`, `Entries`;
* `define?`: a value under a dotted key;
* `open?`, `append?`: a table under a header, alone or as the next one of an array;
* `within?`: a change to a table further down;
* `value?`: a value, with arrays and tables at most `maxDepth` deep in each other;
* `Line`, `lines?`, `document?`;
* `Settings.ofText`: the settings in the text of a document.
-/

namespace MapFilter

/-! ## Values and tables -/

namespace Toml

/-- How a table came to be. -/
inductive Origin where
  /-- It has a header of its own, or is the document. -/
  | header
  /-- It is named on the way to another table by a header. -/
  | implied
  /-- It is named by a dotted key. -/
  | dotted
  /-- It is written out as a value. -/
  | written
deriving DecidableEq

/-- A value. Of numbers, dates and times no more is kept than what they are. -/
inductive Value where
  | string (text : List Char)
  | boolean (b : Bool)
  | integer
  | float
  | dateTime
  | array (items : List Value)
  | table (origin : Origin) (entries : List (List Char × Value))
  /-- An array of tables with headers; the last one is still open. -/
  | tables (earlier : List (List (List Char × Value))) (last : List (List Char × Value))

/-- The named values of a table, in the order in which the names came up. -/
abbrev Entries := List (List Char × Value)

/-- The entries with the value under a key changed by `f`, which is given `none` where the key is
new. -/
def alter? (k : List Char) (f : Option Value → Option Value) : Entries → Option Entries
  | [] => (f none).map fun v => [(k, v)]
  | (k', v) :: t =>
    if k = k' then (f (some v)).map fun v => (k, v) :: t else (alter? k f t).map ((k', v) :: ·)

/-- The entries with the table under a path changed by `f`. Tables on the way come up as implied
ones, or as dotted ones if the path belongs to a dotted key, which may not enter a table that has a
header. A path leads into the last table of an array, and never into a value. -/
def within? (dotted : Bool) : List (List Char) → (Origin → Entries → Option Entries) →
    Origin → Entries → Option Entries
  | [], f, o, t => f o t
  | k :: ks, f, _, t =>
    alter? k (fun
      | none =>
        let o : Origin := if dotted then .dotted else .implied
        (within? dotted ks f o []).map (.table o)
      | some (.table o u) =>
        if o = .written ∨ (dotted ∧ o = .header) then none
        else (within? dotted ks f o u).map (.table o)
      | some (.tables e u) => (within? dotted ks f .header u).map (.tables e)
      | some _ => none) t

/-- The entries with a value under a dotted key. The key must be new, and dotted keys alone may add
to a table that a dotted key has made. -/
def define? (path : List (List Char)) (k : List Char) (v : Value) (o : Origin) (t : Entries) :
    Option Entries :=
  within? true path (fun o t =>
    if (o = .dotted) = (path = []) then none
    else alter? k (fun
      | none => some v
      | some _ => none) t) o t

/-- The entries with a table for a header. The table must be new, or implied by an earlier header. -/
def open? (path : List (List Char)) (k : List Char) (t : Entries) : Option Entries :=
  within? false path (fun _ t => alter? k (fun
    | none => some (.table .header [])
    | some (.table .implied u) => some (.table .header u)
    | some _ => none) t) .header t

/-- The entries with one more table in the array of a header. -/
def append? (path : List (List Char)) (k : List Char) (t : Entries) : Option Entries :=
  within? false path (fun _ t => alter? k (fun
    | none => some (.tables [] [])
    | some (.tables e u) => some (.tables (e ++ [u]) [])
    | some _ => none) t) .header t

/-! ## Lines -/

/-- How deep arrays and written tables may stand in each other. -/
def maxDepth : Nat := 80

/-- Whether a character may stand in a value without quotes. -/
def isScalar (c : Char) : Bool :=
  !(isSpace c || c == '\n' || c == '\r' || c == ',' || c == ']' || c == '}' || c == '#' ||
    c == '[' || c == '{' || c == '"' || c == '\'' || c == '=')

/-- The value of a run without quotes. -/
def scalarOf? (s : List Char) : Option Value :=
  if s = "true".toList then some (.boolean true)
  else if s = "false".toList then some (.boolean false)
  else if (integer? s).isSome then some .integer
  else if isFloat s then some .float
  else if isDateTime s then some .dateTime
  else none

/-- Reads a value without quotes. One blank may stand between a date and a time. -/
def scalar? (s : List Char) : Option (Value × List Char) :=
  let run := s.takeWhile isScalar
  let rest := s.dropWhile isScalar
  let joined : Option (Value × List Char) :=
    match rest with
    | ' ' :: t =>
      let time := t.takeWhile isScalar
      if (afterDate? run == some []) && (time.head?.any Char.isDigit) then
        if isDateTime (run ++ ' ' :: time) then some (.dateTime, t.dropWhile isScalar) else none
      else (scalarOf? run).map fun v => (v, rest)
    | _ => (scalarOf? run).map fun v => (v, rest)
  joined

/-- Reads a string, or a value without quotes. -/
def atom? (s : List Char) : Option (Value × List Char) :=
  match s with
  | '"' :: _ => (string? s).map fun p => (.string p.1, p.2)
  | '\'' :: _ => (string? s).map fun p => (.string p.1, p.2)
  | _ => scalar? s

/-- Reads items with commas between them up to the closing character. There may be a comma after
the last item, and blanks, line breaks and comments around each. -/
def listed? {α : Type} (item : List Char → Option (α × List Char)) (close : Char) (s : List Char) :
    Option (List α × List Char) :=
  match skip s with
  | [] => none
  | c :: t =>
    if c = close then some ([], t)
    else
      match item (c :: t) with
      | none => none
      | some (a, u) =>
        match skip u with
        | [] => none
        | d :: v =>
          if d = close then some ([a], v)
          else if d = ',' ∧ v.length < s.length then
            (listed? item close v).map fun p => (a :: p.1, p.2)
          else none
termination_by s.length

/-- A value under a dotted key. -/
structure Definition where
  /-- The keys before the last one. -/
  path : List (List Char)
  key : List Char
  value : Value

/-- Reads a key, an equals sign and a value. -/
def definition? (value : List Char → Option (Value × List Char)) (s : List Char) :
    Option (Definition × List Char) :=
  match path? s with
  | some ((path, k), t) =>
    match blanks t with
    | '=' :: u => (value (blanks u)).map fun p => (⟨path, k, p.1⟩, p.2)
    | _ => none
  | none => none

/-- The table that is written out by a sequence of definitions. -/
def written? (ds : List Definition) : Option Value :=
  (ds.foldlM (fun t d => define? d.path d.key d.value .written t) []).map (.table .written)

/-- Reads a value in which arrays and tables stand at most `depth` deep in each other. -/
def value? : Nat → List Char → Option (Value × List Char)
  | 0, s => atom? s
  | depth + 1, s =>
    match s with
    | '[' :: t => (listed? (value? depth) ']' t).map fun p => (.array p.1, p.2)
    | '\x7b' :: t =>
      match listed? (definition? (value? depth)) '\x7d' t with
      | some (ds, u) => (written? ds).map fun v => (v, u)
      | none => none
    | _ => atom? s

/-- A line of a document that says something. -/
inductive Line where
  | definition (d : Definition)
  | header (path : List (List Char)) (key : List Char)
  | arrayHeader (path : List (List Char)) (key : List Char)

/-- Reads what a line says. -/
def line? (s : List Char) : Option (Line × List Char) :=
  match s with
  | '[' :: '[' :: t =>
    match path? (blanks t) with
    | some ((path, k), ']' :: ']' :: u) => some (.arrayHeader path k, u)
    | _ => none
  | '[' :: t =>
    match path? (blanks t) with
    | some ((path, k), ']' :: u) => some (.header path k, u)
    | _ => none
  | _ => (definition? (value? maxDepth) s).map fun p => (.definition p.1, p.2)

/-- Reads the lines of a document. -/
def lines? (s : List Char) : Option (List Line) :=
  match skip s with
  | [] => some []
  | c :: t =>
    match line? (c :: t) with
    | none => none
    | some (l, u) =>
      match lineEnd u with
      | none => none
      | some v => if v.length < s.length then (lines? v).map (l :: ·) else none
termination_by s.length

/-- A document in the making: the path of the table that definitions belong to, and all entries. -/
structure Draft where
  path : List (List Char) := []
  entries : Entries := []

/-- The draft after one more line. -/
def Draft.add? (d : Draft) : Line → Option Draft
  | .definition e =>
    (within? false d.path (define? e.path e.key e.value) .header d.entries).map
      fun t => { d with entries := t }
  | .header path k => (open? path k d.entries).map fun t => ⟨path ++ [k], t⟩
  | .arrayHeader path k => (append? path k d.entries).map fun t => ⟨path ++ [k], t⟩

/-- The entries of a document. A byte order mark may stand at its start. -/
def document? (s : List Char) : Option Entries :=
  match lines? (if s.head? = some '\ufeff' then s.drop 1 else s) with
  | none => none
  | some ls => (ls.foldlM Draft.add? {}).map Draft.entries

end Toml

/-! ## Settings in a document -/

namespace Settings

/-- The settings that a `refactor` section gives by its value for `enabled`. -/
def ofEnabled? : Option Toml.Value → Option Settings
  | none => some {}
  | some (.boolean b) => some { refactor := b }
  | some _ => none

/-- The settings in a document. The section `refactor` is a table, or an array that begins with the
value for `enabled`; a date or time stands for a section that says nothing. Whatever else the
document holds is of no concern. -/
def ofEntries? (t : Toml.Entries) : Option Settings :=
  match t.lookup "refactor".toList with
  | none => some {}
  | some (.table _ u) => ofEnabled? (u.lookup "enabled".toList)
  | some (.array items) => ofEnabled? items.head?
  | some .dateTime => some {}
  | some _ => none

/-- The settings in the text of a document, or what is wrong with that text. -/
def ofText (s : List Char) : Except String Settings :=
  match Toml.document? s with
  | none => .error "the text is no document"
  | some t =>
    match ofEntries? t with
    | none => .error "a setting has a value of another type"
    | some settings => .ok settings

end Settings

end MapFilter
