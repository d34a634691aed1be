import BulkEdit.Toml.Value

/-!
# Unquoted TOML values

Booleans, numbers, dates and times by their spelling. Underscores stand only between two digits, only
a plain decimal integer has a sign and no leading zeros, and integers have 64 bits with the sign. A
time may lack its seconds.
-/

namespace BulkEdit.Toml.Scalar

def isDecimal (c : Char) : Bool := c.isDigit

/-- The value of a hexadecimal digit in either case. -/
def digit? (c : Char) : Option Nat :=
  if '0' ≤ c ∧ c ≤ '9' then some (c.toNat - 48)
  else if 'a' ≤ c ∧ c ≤ 'f' then some (c.toNat - 87)
  else if 'A' ≤ c ∧ c ≤ 'F' then some (c.toNat - 55)
  else none

/-- The digits of a base without the underscores between them. At least one is needed. -/
def digits? (base : Nat) : Text → Option (List Nat)
  | [] => none
  | [c] => (digit? c).bind fun d => if d < base then some [d] else none
  | c :: '_' :: rest =>
    (digit? c).bind fun d => if d < base then (digits? base rest).map (d :: ·) else none
  | c :: next :: rest =>
    (digit? c).bind fun d => if d < base then (digits? base (next :: rest)).map (d :: ·) else none

def numberOf (base : Nat) (digits : List Nat) : Nat := digits.foldl (fun n d => n * base + d) 0

/-- Decimal digits without a leading zero. -/
def plainDigits? (text : Text) : Option (List Nat) :=
  (digits? 10 text).bind fun digits =>
    match digits with
    | 0 :: _ :: _ => none
    | digits => some digits

/-- A sign and what follows it. -/
def splitSign : Text → Option Bool × Text
  | '+' :: rest => (some false, rest)
  | '-' :: rest => (some true, rest)
  | text => (none, text)

/-- Keeps integers of 64 bits. -/
def bounded (value : Int) : Option Value :=
  if -9223372036854775808 ≤ value ∧ value ≤ 9223372036854775807 then some (.integer value) else none

def integer? (text : Text) : Option Value :=
  match text with
  | '0' :: 'x' :: rest => (digits? 16 rest).bind fun ds => bounded (numberOf 16 ds)
  | '0' :: 'o' :: rest => (digits? 8 rest).bind fun ds => bounded (numberOf 8 ds)
  | '0' :: 'b' :: rest => (digits? 2 rest).bind fun ds => bounded (numberOf 2 ds)
  | text =>
    let (sign, rest) := splitSign text
    (plainDigits? rest).bind fun ds =>
      bounded (if sign = some true then -(numberOf 10 ds : Int) else numberOf 10 ds)

/-- The exponent of a float, which may have leading zeros. -/
def exponent? : Text → Option Int
  | [] => some 0
  | mark :: rest =>
    if mark = 'e' ∨ mark = 'E' then
      let (sign, digits) := splitSign rest
      (digits? 10 digits).map fun ds =>
        if sign = some true then -(numberOf 10 ds : Int) else numberOf 10 ds
    else none

def isExponentMark (c : Char) : Bool := c == 'e' || c == 'E'

/-- A finite float has a fraction or an exponent and does not exceed what 64 bits can hold. -/
def finite? (text : Text) : Option Value :=
  let (sign, rest) := splitSign text
  let negative := sign == some true
  let whole := rest.takeWhile fun c => !(c == '.' || isExponentMark c)
  let build (fraction : List Nat) (scale : Text) : Option Value := do
    let wholeDigits ← plainDigits? whole
    let exponent ← exponent? scale
    let value := Binary64.ofDecimal negative (numberOf 10 (wholeDigits ++ fraction))
      (exponent - fraction.length)
    match value with
    | .finite _ _ _ => some (.float value)
    | _ => none
  match rest.drop whole.length with
  | '.' :: after =>
    let fraction := after.takeWhile fun c => !isExponentMark c
    (digits? 10 fraction).bind fun ds => build ds (after.drop fraction.length)
  | [] => none
  | scale => build [] scale

def float? (text : Text) : Option Value :=
  let (sign, rest) := splitSign text
  if rest = ['i', 'n', 'f'] then some (.float (.infinite (sign == some true)))
  else if rest = ['n', 'a', 'n'] then some (.float .nan)
  else finite? text

/-- A number of exactly so many decimal digits at the start, and the rest. -/
def fixed? (count : Nat) (text : Text) : Option (Nat × Text) :=
  let shown := text.take count
  if shown.length = count ∧ shown.all isDecimal then
    some (numberOf 10 (shown.filterMap digit?), text.drop count)
  else none

def isLeap (year : Nat) : Bool := year % 4 == 0 && (year % 100 != 0 || year % 400 == 0)

def daysIn (year month : Nat) : Nat :=
  if month = 2 then (if isLeap year then 29 else 28)
  else if month = 4 ∨ month = 6 ∨ month = 9 ∨ month = 11 then 30
  else 31

/-- The given character at the start, dropped. -/
def mark? (c : Char) : Text → Option Text
  | first :: rest => if first = c then some rest else none
  | [] => none

/-- What follows a date. -/
def afterDate? (text : Text) : Option Text := do
  let (year, rest) ← fixed? 4 text
  let rest ← mark? '-' rest
  let (month, rest) ← fixed? 2 rest
  let rest ← mark? '-' rest
  let (day, rest) ← fixed? 2 rest
  if 1 ≤ month ∧ month ≤ 12 ∧ 1 ≤ day ∧ day ≤ daysIn year month then some rest else none

/-- What follows the fraction of a second. -/
def afterFraction? : Text → Option Text
  | '.' :: rest =>
    if (rest.takeWhile isDecimal).isEmpty then none else some (rest.dropWhile isDecimal)
  | rest => some rest

/-- What follows the seconds, if there are any. A minute may have a leap second. -/
def afterSeconds? : Text → Option Text
  | ':' :: rest => do
    let (second, rest) ← fixed? 2 rest
    if second ≤ 60 then afterFraction? rest else none
  | rest => some rest

/-- What follows a time of day. -/
def afterTime? (text : Text) : Option Text := do
  let (hour, rest) ← fixed? 2 text
  let rest ← mark? ':' rest
  let (minute, rest) ← fixed? 2 rest
  if hour ≤ 23 ∧ minute ≤ 59 then afterSeconds? rest else none

/-- Whether the text is a distance from universal time, of a day at most. -/
def isOffset (text : Text) : Bool :=
  text == ['Z'] || text == ['z'] ||
    match splitSign text with
    | (some _, rest) =>
      match do
        let (hour, rest) ← fixed? 2 rest
        let rest ← mark? ':' rest
        let (minute, rest) ← fixed? 2 rest
        if minute ≤ 59 ∧ hour * 60 + minute ≤ 1440 then some rest else none with
      | some [] => true
      | _ => false
    | (none, _) => false

def isTimeSeparator (c : Char) : Bool := c == 'T' || c == 't' || c == ' '

/-- Whether the text is a date, a time of day, or both with or without an offset. -/
def isDateTime (text : Text) : Bool :=
  match afterDate? text with
  | some [] => true
  | some (separator :: rest) =>
    isTimeSeparator separator &&
      match afterTime? rest with
      | some after => after.isEmpty || isOffset after
      | none => false
  | none => afterTime? text == some []

/-- Whether the text is so long and has its dashes where a date has them. -/
def isDateShaped (text : Text) : Bool :=
  text.length == 10 && (text.drop 4).head? == some '-' && (text.drop 7).head? == some '-'

def value? (text : Text) : Option Value :=
  if text = ['t', 'r', 'u', 'e'] then some (.boolean true)
  else if text = ['f', 'a', 'l', 's', 'e'] then some (.boolean false)
  else if isDateTime text then some (.dateTime text)
  else
    match integer? text with
    | some value => some value
    | none => float? text

end BulkEdit.Toml.Scalar
