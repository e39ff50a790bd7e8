import PrettyPayload.Text.Digit

/-!
# Numbers and dates of TOML

Integers have 64 bits and may be written in four bases; between two digits there may be an
underscore. Floats and dates are only checked, since no setting holds one: a float must not exceed
the largest double, and a date must be one of the calendar.
-/

namespace PrettyPayload

namespace Toml

/-! ## Digits -/

/-- The digits at the start of a text, with single underscores between them left out, and what
follows them. -/
def digits (base : Nat) : Text → Text × Text
  | [] => ([], [])
  | '_' :: c :: t =>
    if Text.isDigit base c then
      let (more, rest) := digits base t
      (c :: more, rest)
    else ([], '_' :: c :: t)
  | c :: t =>
    if Text.isDigit base c then
      let (more, rest) := digits base t
      (c :: more, rest)
    else ([], c :: t)

def digits? (base : Nat) (t : Text) : Option (Text × Text) :=
  if t.head?.any (Text.isDigit base) then some (digits base t) else none

def sign (t : Text) : Bool × Text :=
  match t with
  | '-' :: rest => (true, rest)
  | '+' :: rest => (false, rest)
  | _ => (false, t)

/-- The digits of a whole number in base ten and what follows them; a zero stands alone. -/
def whole? (t : Text) : Option (Text × Text) :=
  match t with
  | '0' :: rest => some (['0'], rest)
  | _ => digits? 10 t

/-! ## Integers -/

def inRange (n : Int) : Option Int :=
  if -0x8000000000000000 ≤ n ∧ n < 0x8000000000000000 then some n else none

/-- The integer at the start of a text and what follows it. Only base ten has a sign. -/
def integer? (t : Text) : Option (Int × Text) := do
  let (negative, base, written) ←
    match t with
    | '0' :: 'x' :: u => (digits? 16 u).map (false, 16, ·)
    | '0' :: 'o' :: u => (digits? 8 u).map (false, 8, ·)
    | '0' :: 'b' :: u => (digits? 2 u).map (false, 2, ·)
    | _ => (whole? (sign t).2).map ((sign t).1, 10, ·)
  let value : Int := Text.ofDigits base written.1
  let n ← inRange (if negative then -value else value)
  return (n, written.2)

/-! ## Floats -/

def exponent? (t : Text) : Option (Int × Text) :=
  let magnitude (t : Text) : Option (Int × Text) :=
    (digits? 10 (sign t).2).map fun (written, rest) =>
      let n : Int := Text.ofDigits 10 written
      (if (sign t).1 then -n else n, rest)
  match t with
  | 'e' :: u => magnitude u
  | 'E' :: u => magnitude u
  | _ => none

/-- Half a step above the largest double: from here on a number counts as infinite. -/
def infinityStart : Nat := Nat.pow 2 1024 - Nat.pow 2 970

/-- Whether a number of so many digits, times a power of ten, counts as infinite. -/
def isInfinite (mantissa : Text) (exponent : Int) : Bool :=
  let n := Text.ofDigits 10 mantissa
  if n = 0 ∨ exponent + mantissa.length < 300 then false
  else if exponent > 310 then true
  else infinityStart * Nat.pow 10 (-exponent).toNat ≤ n * Nat.pow 10 exponent.toNat

/-- The text behind a float of ordinary form, which has a fraction or an exponent. -/
def decimal? (t : Text) : Option Text := do
  let (negative, u) := sign t
  let (whole, u) ← whole? u
  let (fraction, exponent, rest) ←
    match u with
    | '.' :: v => do
      let (fraction, rest) ← digits? 10 v
      match exponent? rest with
      | some (n, rest) => some (fraction, n, rest)
      | none => some (fraction, 0, rest)
    | _ => (exponent? u).map (([] : Text), ·)
  if !negative && isInfinite (whole ++ fraction) (exponent - fraction.length) then none
  else some rest

def float? (t : Text) : Option Text :=
  match decimal? t with
  | some rest => some rest
  | none =>
    match Text.dropPrefix? "inf".toList (sign t).2 with
    | some rest => some rest
    | none => Text.dropPrefix? "nan".toList (sign t).2

/-! ## Dates -/

/-- The number that exactly so many digits at the start of a text spell, and what follows them. -/
def fixedNumber? (digits : Nat) (t : Text) : Option (Nat × Text) :=
  let written := t.take digits
  if written.length = digits ∧ written.all (Text.isDigit 10) then
    some (Text.ofDigits 10 written, t.drop digits)
  else none

def isLeapYear (year : Nat) : Bool := year % 4 = 0 && (year % 100 ≠ 0 || year % 400 = 0)

def daysIn (year month : Nat) : Nat :=
  if month = 2 then (if isLeapYear year then 29 else 28)
  else if month ∈ [4, 6, 9, 11] then 30
  else 31

def day? (t : Text) : Option Text := do
  let (year, t) ← fixedNumber? 4 t
  let t ← Text.dropPrefix? ['-'] t
  let (month, t) ← fixedNumber? 2 t
  let t ← Text.dropPrefix? ['-'] t
  let (day, t) ← fixedNumber? 2 t
  if 1 ≤ month ∧ month ≤ 12 ∧ 1 ≤ day ∧ day ≤ daysIn year month then some t else none

def hourAndMinute? (t : Text) : Option Text := do
  let (hour, t) ← fixedNumber? 2 t
  let t ← Text.dropPrefix? [':'] t
  let (minute, t) ← fixedNumber? 2 t
  if hour < 24 ∧ minute < 60 then some t else none

def time? (t : Text) : Option Text := do
  let t ← hourAndMinute? t
  let t ← Text.dropPrefix? [':'] t
  let (second, t) ← fixedNumber? 2 t
  if second ≤ 60 then
    match t with
    | '.' :: u =>
      if u.head?.any (Text.isDigit 10) then some (u.dropWhile (Text.isDigit 10)) else some t
    | _ => some t
  else none

def skipOffset (t : Text) : Text :=
  match t with
  | 'Z' :: rest => rest
  | 'z' :: rest => rest
  | '+' :: rest => (hourAndMinute? rest).getD t
  | '-' :: rest => (hourAndMinute? rest).getD t
  | _ => t

def date? (t : Text) : Option Text :=
  match day? t with
  | none => time? t
  | some rest =>
    match rest with
    | c :: u =>
      if c = 'T' ∨ c = 't' ∨ c = ' ' then
        match time? u with
        | some behind => some (skipOffset behind)
        | none => some rest
      else some rest
    | [] => some []

end Toml

end PrettyPayload
