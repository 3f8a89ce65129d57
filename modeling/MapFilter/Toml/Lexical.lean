/-!
# TOML: blanks, strings and keys

Readers of the small parts of a TOML document. A reader takes a text and gives what it has read and
the rest of the text, or `none`.

* `blanks`, `skip`, `lineEnd`: blanks on a line, blanks across lines with comments, the end of a line;
* `string?`: the four forms of strings;
* `key?`, `path?`: a key and a dotted sequence of keys.
-/

namespace MapFilter.Toml

/-! ## Blanks and comments -/

/-- Whether a character may stand on its own in a comment or between quotes: a tab, or anything that
is no control character. -/
def isPlain (c : Char) : Bool := c == '\t' || (0x20 ≤ c.toNat && c.toNat != 0x7f)

/-- Whether the character is a blank within a line. -/
def isSpace (c : Char) : Bool := c == ' ' || c == '\t'

/-- Leaves out the blanks at the start of a text. -/
def blanks (s : List Char) : List Char := s.dropWhile isSpace

/-- Leaves out a line break at the start of a text. -/
def lineBreak? : List Char → Option (List Char)
  | '\n' :: s => some s
  | '\r' :: '\n' :: s => some s
  | _ => none

/-- Leaves out blanks, line breaks and comments at the start of a text. -/
def skip : List Char → List Char
  | ' ' :: s => skip s
  | '\t' :: s => skip s
  | '\n' :: s => skip s
  | '\r' :: '\n' :: s => skip s
  | '#' :: s => skip (s.dropWhile isPlain)
  | s => s
termination_by s => s.length
decreasing_by
  all_goals simp only [List.length_cons]
  all_goals try have := (List.dropWhile_suffix isPlain : s.dropWhile isPlain <:+ s).length_le
  all_goals omega

/-- Leaves out blanks and line breaks at the start of a text. -/
def margin : List Char → List Char
  | ' ' :: s => margin s
  | '\t' :: s => margin s
  | '\n' :: s => margin s
  | '\r' :: '\n' :: s => margin s
  | s => s

theorem length_margin_le (s : List Char) : (margin s).length ≤ s.length := by
  fun_induction margin s with
  | case5 => exact Nat.le_refl _
  | _ => simp only [List.length_cons]; omega

/-- Leaves out the rest of a line that holds no more than blanks and a comment. -/
def lineEnd (s : List Char) : Option (List Char) :=
  let t := match blanks s with
    | '#' :: t => t.dropWhile isPlain
    | t => t
  if t = [] then some [] else lineBreak? t

/-! ## Strings -/

/-- The value of a hexadecimal digit. -/
def hexDigit? (c : Char) : Option Nat :=
  if c.isDigit then some (c.toNat - '0'.toNat)
  else if 'a' ≤ c ∧ c ≤ 'f' then some (c.toNat - 'a'.toNat + 10)
  else if 'A' ≤ c ∧ c ≤ 'F' then some (c.toNat - 'A'.toNat + 10)
  else none

/-- The number with the given hexadecimal digits. -/
def hexValue (ds : List Nat) : Nat := ds.foldl (fun v d => 16 * v + d) 0

/-- Reads a character by its number in `n` hexadecimal digits. -/
def numbered? (n : Nat) (s : List Char) : Option (Char × List Char) :=
  match (s.take n).mapM hexDigit? with
  | none => none
  | some ds =>
    if ds.length = n ∧ (hexValue ds).isValidChar then some (Char.ofNat (hexValue ds), s.drop n)
    else none

/-- Reads what follows a backslash. -/
def escape? : List Char → Option (Char × List Char)
  | 'b' :: s => some ('\x08', s)
  | 't' :: s => some ('\t', s)
  | 'n' :: s => some ('\n', s)
  | 'f' :: s => some ('\x0c', s)
  | 'r' :: s => some ('\r', s)
  | 'e' :: s => some ('\x1b', s)
  | '"' :: s => some ('"', s)
  | '\\' :: s => some ('\\', s)
  | 'x' :: s => numbered? 2 s
  | 'u' :: s => numbered? 4 s
  | 'U' :: s => numbered? 8 s
  | _ => none

theorem length_numbered?_le {n : Nat} {s : List Char} {p : Char × List Char}
    (h : numbered? n s = some p) : p.2.length ≤ s.length := by
  unfold numbered? at h
  split at h
  · cases h
  · split at h
    · cases h; simp
    · cases h

theorem length_escape?_le {s : List Char} {p : Char × List Char} (h : escape? s = some p) :
    p.2.length ≤ s.length := by
  unfold escape? at h
  split at h
  case h_12 => cases h
  case h_9 | h_10 | h_11 => exact Nat.le_succ_of_le (length_numbered?_le h)
  all_goals cases h; exact Nat.le_succ _

/-- Reads a string on one line up to its closing double quote. -/
def basic? : List Char → Option (List Char × List Char)
  | [] => none
  | '"' :: s => some ([], s)
  | '\\' :: s =>
    match _ : escape? s with
    | none => none
    | some (c, t) => (basic? t).map fun p => (c :: p.1, p.2)
  | c :: s => if isPlain c then (basic? s).map fun p => (c :: p.1, p.2) else none
termination_by s => s.length
decreasing_by
  · have := length_escape?_le ‹escape? s = _›
    simp only [List.length_cons] at this ⊢
    omega
  · exact Nat.lt_succ_self _

/-- Reads a string without escapes on one line up to its closing quote. -/
def literal? : List Char → Option (List Char × List Char)
  | [] => none
  | '\'' :: s => some ([], s)
  | c :: s => if isPlain c then (literal? s).map fun p => (c :: p.1, p.2) else none

/-- The quotes at the start of a text that still belong to a string before its three closing quotes:
up to two of them. -/
def innerQuotes (q : Char) (s : List Char) : List Char := (s.take 2).takeWhile (· == q)

/-- Reads a string over several lines up to its three closing double quotes. A backslash at the end
of a line takes all blanks and line breaks after it away. -/
def basicLines? : List Char → Option (List Char × List Char)
  | [] => none
  | '"' :: '"' :: '"' :: s =>
    let qs := innerQuotes '"' s
    some (qs, s.drop qs.length)
  | '\\' :: s =>
    match lineBreak? (blanks s) with
    | some _ => basicLines? (margin s)
    | none =>
      match _ : escape? s with
      | none => none
      | some (c, t) => (basicLines? t).map fun p => (c :: p.1, p.2)
  | '\n' :: s => (basicLines? s).map fun p => ('\n' :: p.1, p.2)
  | '\r' :: '\n' :: s => (basicLines? s).map fun p => ('\r' :: '\n' :: p.1, p.2)
  | c :: s => if isPlain c then (basicLines? s).map fun p => (c :: p.1, p.2) else none
termination_by s => s.length
decreasing_by
  · exact Nat.lt_succ_of_le (length_margin_le s)
  · have := length_escape?_le ‹escape? s = _›
    simp only [List.length_cons] at this ⊢
    omega
  all_goals simp only [List.length_cons]; omega

/-- Reads a string without escapes over several lines up to its three closing quotes. -/
def literalLines? : List Char → Option (List Char × List Char)
  | [] => none
  | '\'' :: '\'' :: '\'' :: s =>
    let qs := innerQuotes '\'' s
    some (qs, s.drop qs.length)
  | '\n' :: s => (literalLines? s).map fun p => ('\n' :: p.1, p.2)
  | '\r' :: '\n' :: s => (literalLines? s).map fun p => ('\r' :: '\n' :: p.1, p.2)
  | c :: s => if isPlain c then (literalLines? s).map fun p => (c :: p.1, p.2) else none

/-- Reads a string. A line break right after three opening quotes does not belong to it. -/
def string? : List Char → Option (List Char × List Char)
  | '"' :: '"' :: '"' :: s => basicLines? ((lineBreak? s).getD s)
  | '\'' :: '\'' :: '\'' :: s => literalLines? ((lineBreak? s).getD s)
  | '"' :: s => basic? s
  | '\'' :: s => literal? s
  | _ => none

/-! ## Keys -/

/-- Whether the character may stand in a key without quotes. -/
def isBare (c : Char) : Bool :=
  c.isAlphanum || c == '_' || c == '-'

/-- Reads a key: a string on one line, or a run of letters, digits, underscores and dashes. -/
def key? : List Char → Option (List Char × List Char)
  | '"' :: s => basic? s
  | '\'' :: s => literal? s
  | s => if s.takeWhile isBare = [] then none else some (s.takeWhile isBare, s.dropWhile isBare)

/-- Reads keys with dots between them: the keys before the last one, and the last one. -/
def path? (s : List Char) : Option ((List (List Char) × List Char) × List Char) :=
  match key? s with
  | none => none
  | some (k, t) =>
    match blanks t with
    | '.' :: u =>
      let v := blanks u
      if v.length < s.length then (path? v).map fun p => ((k :: p.1.1, p.1.2), p.2) else none
    | u => some (([], k), u)
termination_by s.length

end MapFilter.Toml
