import Typeahead.Data.Value

/-!
# Scalars

The unquoted scalars of TOML: truth values, integers in four bases, numbers with a fraction or an exponent, and
dates and times.  `scalar?` tells which of them a word is.
-/

namespace Typeahead.Data.Toml

/-- The value of a digit in some base. -/
def digit? (base : Nat) (c : Char) : Option Nat :=
  let n :=
    if '0' ≤ c ∧ c ≤ '9' then c.toNat - 48
    else if 'a' ≤ c ∧ c ≤ 'f' then c.toNat - 87
    else if 'A' ≤ c ∧ c ≤ 'F' then c.toNat - 55
    else base
  if n < base then some n else none

/-- The number that digits stand for, most significant first, when `value` has been read before them.  An
underscore may stand between two digits; `afterDigit` tells whether a digit came just before. -/
def digitsFrom? (base : Nat) (afterDigit : Bool) (value : Nat) : List Char → Option Nat
  | [] => if afterDigit then some value else none
  | '_' :: rest => if afterDigit then digitsFrom? base false value rest else none
  | c :: rest => (digit? base c).bind fun d => digitsFrom? base true (value * base + d) rest

/-- The number that a run of one or more digits stands for. -/
def digits? (base : Nat) (cs : List Char) : Option Nat := digitsFrom? base false 0 cs

/-- A decimal number without superfluous zeros in front. -/
def decimal? : List Char → Option Nat
  | ['0'] => some 0
  | '0' :: _ => none
  | cs => digits? 10 cs

/-- The sign of a number and what follows it. -/
def splitSign : List Char → Option Bool × List Char
  | '+' :: rest => (some false, rest)
  | '-' :: rest => (some true, rest)
  | cs => (none, cs)

/-- An integer.  Only decimal ones can have a sign. -/
def integer? (cs : List Char) : Option Int :=
  match cs with
  | '0' :: 'x' :: rest => (digits? 16 rest).map Int.ofNat
  | '0' :: 'o' :: rest => (digits? 8 rest).map Int.ofNat
  | '0' :: 'b' :: rest => (digits? 2 rest).map Int.ofNat
  | cs =>
    let (negative, body) := splitSign cs
    (decimal? body).map fun n => if negative = some true then -(n : Int) else n

/-- Whether the text is an exponent: digits with or without a sign. -/
def isExponent (cs : List Char) : Bool := (digits? 10 (splitSign cs).2).isSome

/-- Whether the text is a number with a fraction, an exponent or both, or a name of an infinity or of no number. -/
def isReal (cs : List Char) : Bool :=
  let body := (splitSign cs).2
  let isMark (c : Char) : Bool := c == 'e' || c == 'E'
  let mantissa := body.takeWhile fun c => !isMark c
  let whole := mantissa.takeWhile (· != '.')
  let fractionOk := match mantissa.dropWhile (· != '.') with
    | [] => true
    | _ :: fraction => (digits? 10 fraction).isSome
  let exponentOk := match body.dropWhile fun c => !isMark c with
    | [] => true
    | _ :: exponent => isExponent exponent
  if body = ['i', 'n', 'f'] || body = ['n', 'a', 'n'] then true
  else (decimal? whole).isSome && fractionOk && exponentOk && whole.length < body.length

/-- The least number that is rounded beyond the range of double precision: half a unit in the last place above the
greatest one. -/
def overflowBound : Nat := Nat.pow 2 1024 - Nat.pow 2 970

/-- Whether `digits` times ten to the power of `scale` is in the range of double precision.  Numbers of very many or
very few places are told by their number of places alone. -/
def isRepresentable (digits : Nat) (scale : Int) : Bool :=
  let places := (Nat.toDigits 10 digits).length + scale
  if digits = 0 || places < 309 then true
  else if 309 < places then false
  else if 0 ≤ scale then digits * Nat.pow 10 scale.toNat < overflowBound
  else digits < overflowBound * Nat.pow 10 (-scale).toNat

/-- Whether a number with a fraction or an exponent is in the range of double precision; the names of the infinities
and of no number are. -/
def realInRange (cs : List Char) : Bool :=
  let body := (splitSign cs).2.filter (· != '_')
  let isMark (c : Char) : Bool := c == 'e' || c == 'E'
  let mantissa := body.takeWhile fun c => !isMark c
  let whole := mantissa.takeWhile (· != '.')
  let fraction := (mantissa.dropWhile (· != '.')).drop 1
  let (negative, exponent) := splitSign ((body.dropWhile fun c => !isMark c).drop 1)
  let size : Int := (digits? 10 exponent).getD 0
  match digits? 10 (whole ++ fraction) with
  | none => true
  | some n => isRepresentable n ((if negative = some true then -size else size) - fraction.length)

/-- The number that two decimal digits stand for. -/
def twoDigits? (a b : Char) : Option Nat := do
  let tens ← digit? 10 a
  let ones ← digit? 10 b
  pure (10 * tens + ones)

/-- The number of days of a month. -/
def daysOfMonth (year month : Nat) : Nat :=
  if month = 2 then if year % 4 = 0 ∧ (year % 100 ≠ 0 ∨ year % 400 = 0) then 29 else 28
  else if month = 4 ∨ month = 6 ∨ month = 9 ∨ month = 11 then 30
  else 31

/-- Reads a date such as `2024-02-29`; returns what follows it. -/
def date? : List Char → Option (List Char)
  | y1 :: y2 :: y3 :: y4 :: '-' :: m1 :: m2 :: '-' :: d1 :: d2 :: rest => do
    let century ← twoDigits? y1 y2
    let decade ← twoDigits? y3 y4
    let month ← twoDigits? m1 m2
    let day ← twoDigits? d1 d2
    if 1 ≤ month ∧ month ≤ 12 ∧ 1 ≤ day ∧ day ≤ daysOfMonth (100 * century + decade) month then some rest else none
  | _ => none

/-- Reads the seconds of a time, such as `00.5`; returns what follows them. -/
def seconds? : List Char → Option (List Char)
  | s1 :: s2 :: rest => do
    let second ← twoDigits? s1 s2
    if 60 < second then none
    else match rest with
      | '.' :: fraction =>
        if (fraction.takeWhile Char.isDigit).isEmpty then none else some (fraction.dropWhile Char.isDigit)
      | rest => some rest
  | _ => none

/-- Reads a time such as `23:59:00.5` or `23:59`; returns what follows it. -/
def time? : List Char → Option (List Char)
  | h1 :: h2 :: ':' :: m1 :: m2 :: rest => do
    let hour ← twoDigits? h1 h2
    let minute ← twoDigits? m1 m2
    if 23 < hour ∨ 59 < minute then none
    else match rest with
      | ':' :: rest => seconds? rest
      | rest => some rest
  | _ => none

/-- Whether the text is an offset from universal time. -/
def isOffset : List Char → Bool
  | ['Z'] | ['z'] => true
  | [sign, h1, h2, ':', m1, m2] =>
    match twoDigits? h1 h2, twoDigits? m1 m2 with
    | some hour, some minute => (sign == '+' || sign == '-') && decide (hour ≤ 23 ∧ minute ≤ 59)
    | _, _ => false
  | _ => false

/-- Whether the text is a date, a time, or a date and a time with or without an offset. -/
def isDatetime (cs : List Char) : Bool :=
  match date? cs with
  | some [] => true
  | some (mark :: rest) =>
    (mark == 'T' || mark == 't' || mark == ' ') &&
      (match time? rest with
        | some [] => true
        | some offset => isOffset offset
        | none => false)
  | none => time? cs == some []

/-- The scalar that a word stands for. -/
def scalar? (cs : List Char) : Option Value :=
  let text := String.ofList cs
  if text = "true" then some (.bool true)
  else if text = "false" then some (.bool false)
  else match integer? cs with
    | some i => some (.int i)
    | none =>
      if isReal cs then some (.real text (realInRange cs))
      else if isDatetime cs then some (.datetime text)
      else none

end Typeahead.Data.Toml
