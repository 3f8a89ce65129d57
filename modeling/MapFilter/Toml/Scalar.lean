/-!
# TOML: numbers, dates and times

A scalar without quotes is a run of characters that has to be, as a whole, a truth value, a number, a
date or a time. Of numbers only those count that can be represented: integers in 128 bits, decimal
fractions as a finite double.

* `integer?`, `isFloat`, `isDateTime`.
-/

namespace MapFilter.Toml

/-! ## Digits -/

/-- The digits of a run in which single underscores may stand between two digits. -/
def ungroup? (isDigit : Char → Bool) : List Char → Option (List Char)
  | [] => none
  | [c] => if isDigit c then some [c] else none
  | c :: '_' :: s => if isDigit c then (ungroup? isDigit s).map (c :: ·) else none
  | c :: s => if isDigit c then (ungroup? isDigit s).map (c :: ·) else none

/-- The digits of a decimal run without a needless zero in front. -/
def decimal? (s : List Char) : Option (List Char) :=
  match ungroup? Char.isDigit s with
  | some ('0' :: _ :: _) => none
  | ds => ds

/-- The value of the digits of a run in the given base, if each is one of its digits. -/
def inBase? (base : Nat) (s : List Char) : Option Nat :=
  let value (c : Char) : Nat :=
    if c.isDigit then c.toNat - '0'.toNat else c.toLower.toNat - 'a'.toNat + 10
  let isDigit (c : Char) : Bool :=
    (c.isDigit || ('a' ≤ c.toLower && c.toLower ≤ 'f')) && value c < base
  (ungroup? isDigit s).map fun ds => ds.foldl (fun n c => base * n + value c) 0

/-! ## Numbers -/

/-- The number that a run stands for as an integer, with no bound on its size. -/
def unboundedInteger? : List Char → Option Int
  | '0' :: 'x' :: s => (inBase? 16 s).map Int.ofNat
  | '0' :: 'o' :: s => (inBase? 8 s).map Int.ofNat
  | '0' :: 'b' :: s => (inBase? 2 s).map Int.ofNat
  | '+' :: s => (decimal? s).map fun ds => Int.ofNat (Nat.ofDigitChars 10 ds 0)
  | '-' :: s => (decimal? s).map fun ds => -Int.ofNat (Nat.ofDigitChars 10 ds 0)
  | s => (decimal? s).map fun ds => Int.ofNat (Nat.ofDigitChars 10 ds 0)

/-- The integer that a run stands for, if it fits 128 bits with or without a sign. -/
def integer? (s : List Char) : Option Int :=
  match unboundedInteger? s with
  | some n => if -Int.ofNat (1 <<< 127) ≤ n ∧ n < Int.ofNat (1 <<< 128) then some n else none
  | none => none

/-- Whether `m · 10 ^ e` is rounded to a finite double: it lies below the middle between the
greatest one and the next power of two. -/
def isFiniteDecimal (m : Nat) (e : Int) : Bool :=
  -- far off the bound, the number of digits decides
  let digits : Int := (Nat.toDigits 10 m).length
  if m = 0 ∨ digits + e < 300 then true
  else if 320 < digits + e then false
  else if 0 ≤ e then m * Nat.pow 10 e.toNat < (1 <<< 1024) - (1 <<< 970)
  else m < ((1 <<< 1024) - (1 <<< 970)) * Nat.pow 10 (-e).toNat

/-- The value of the exponent of a decimal fraction. -/
def exponent? : List Char → Option Int
  | '+' :: s => (ungroup? Char.isDigit s).map fun ds => Int.ofNat (Nat.ofDigitChars 10 ds 0)
  | '-' :: s => (ungroup? Char.isDigit s).map fun ds => -Int.ofNat (Nat.ofDigitChars 10 ds 0)
  | s => (ungroup? Char.isDigit s).map fun ds => Int.ofNat (Nat.ofDigitChars 10 ds 0)

/-- Whether a run is a decimal fraction without a sign. -/
def isUnsignedFloat (s : List Char) : Bool :=
  let isMark (c : Char) : Bool := c == 'e' || c == 'E'
  let mantissa := s.takeWhile fun c => !isMark c
  let exponent : Option Int := match s.dropWhile fun c => !isMark c with
    | [] => some 0
    | _ :: e => exponent? e
  let whole := decimal? (mantissa.takeWhile (· != '.'))
  match mantissa.dropWhile (· != '.'), whole, exponent with
  | [], some ds, some e => mantissa != s && isFiniteDecimal (Nat.ofDigitChars 10 ds 0) e
  | _ :: f, some ds, some e =>
    match ungroup? Char.isDigit f with
    | some fs => isFiniteDecimal (Nat.ofDigitChars 10 (ds ++ fs) 0) (e - fs.length)
    | none => false
  | _, _, _ => false

/-- Whether a run is a decimal fraction, infinite or not a number. -/
def isFloat (s : List Char) : Bool :=
  let t := match s with
    | '+' :: t => t
    | '-' :: t => t
    | t => t
  t == "inf".toList || t == "nan".toList || isUnsignedFloat t

/-! ## Dates and times -/

/-- Reads a number of exactly `n` digits. -/
def fixed? (n : Nat) (s : List Char) : Option (Nat × List Char) :=
  if (s.take n).length = n ∧ (s.take n).all Char.isDigit then
    some (Nat.ofDigitChars 10 (s.take n) 0, s.drop n)
  else none

/-- The number of days of a month. -/
def daysIn (year month : Nat) : Nat :=
  if month = 2 then
    if year % 4 = 0 ∧ (year % 100 ≠ 0 ∨ year % 400 = 0) then 29 else 28
  else if month ∈ [4, 6, 9, 11] then 30 else 31

/-- Leaves out a date that exists. -/
def afterDate? (s : List Char) : Option (List Char) :=
  match fixed? 4 s with
  | some (year, '-' :: s) =>
    match fixed? 2 s with
    | some (month, '-' :: s) =>
      match fixed? 2 s with
      | some (day, s) =>
        if 1 ≤ month ∧ month ≤ 12 ∧ 1 ≤ day ∧ day ≤ daysIn year month then some s else none
      | none => none
    | _ => none
  | _ => none

/-- Leaves out a time: hours and minutes, then seconds and a fraction of them if they are given. -/
def afterTime? (s : List Char) : Option (List Char) :=
  match fixed? 2 s with
  | some (hour, ':' :: s) =>
    match fixed? 2 s with
    | some (minute, s) =>
      if 23 < hour ∨ 59 < minute then none
      else
        match s with
        | ':' :: s =>
          match fixed? 2 s with
          | some (second, s) =>
            if 60 < second then none
            else
              match s with
              | '.' :: s =>
                if s.takeWhile Char.isDigit = [] then none else some (s.dropWhile Char.isDigit)
              | s => some s
          | none => none
        | s => some s
    | none => none
  | _ => none

/-- Whether a text is the distance of a clock from universal time: at most a day. -/
def isZone (s : List Char) : Bool :=
  let isDistance (s : List Char) : Bool := match fixed? 2 s with
    | some (hours, ':' :: s) =>
      match fixed? 2 s with
      | some (minutes, []) => hours * 60 + minutes ≤ 24 * 60
      | _ => false
    | _ => false
  match s with
  | ['Z'] => true
  | ['z'] => true
  | '+' :: s => isDistance s
  | '-' :: s => isDistance s
  | _ => false

/-- Whether a text is a date, a time, or both with or without a zone. -/
def isDateTime (s : List Char) : Bool :=
  match afterDate? s with
  | some [] => true
  | some (c :: s) =>
    if c == 'T' || c == 't' || c == ' ' then
      match afterTime? s with
      | some [] => true
      | some s => isZone s
      | none => false
    else false
  | none => afterTime? s == some []

end MapFilter.Toml
