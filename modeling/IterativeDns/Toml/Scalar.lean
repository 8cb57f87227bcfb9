import IterativeDns.Document
import IterativeDns.Text.Digits
import IterativeDns.Text.Precision

/-!
# Scalars of TOML

The lexical level of TOML 1.1: blanks, comments, strings of all four kinds, numbers and moments.
A reader takes the text that is left and returns what it read with the text after it, or nothing
if the text breaks a rule.
-/

namespace IterativeDns.Toml

open Text

/-! ### Blanks and comments -/

def isSpace (c : Char) : Bool :=
  c == ' ' || c == '\t'

/-- Characters that may stand nowhere in a document except as part of a line end. -/
def isControl (c : Char) : Bool :=
  (c.toNat < 0x20 && c != '\t') || c.toNat == 0x7F

/-- The text without blanks at its start. -/
def skipSpaces (cs : List Char) : List Char :=
  cs.dropWhile isSpace

/-- The text after a line end. -/
def lineEnd? : List Char → Option (List Char)
  | '\n' :: cs => some cs
  | '\r' :: '\n' :: cs => some cs
  | _ => none

/-- The text after a comment whose `#` has been read; the line end stays. -/
def skipComment? (cs : List Char) : Option (List Char) :=
  let line := cs.takeWhile (· != '\n')
  let rest := cs.dropWhile (· != '\n')
  let body := if !rest.isEmpty && line.getLast? == some '\r' then line.dropLast else line
  if body.any isControl then none else some rest

/-- The text after blanks, a comment and the end of the line or of the document. -/
def finishLine? (cs : List Char) : Option (List Char) :=
  match skipSpaces cs with
  | [] => some []
  | '#' :: rest =>
    match skipComment? rest with
    | some [] => some []
    | some rest => lineEnd? rest
    | none => none
  | rest => lineEnd? rest

/-- The text after blanks, comments and line ends. Every line is finished in turn; `fuel` is at
least their number. -/
def skipLines? : (fuel : Nat) → List Char → Option (List Char)
  | 0, cs => some cs
  | fuel + 1, cs =>
    match skipSpaces cs with
    | '#' :: rest =>
      match skipComment? rest with
      | some rest => skipLines? fuel rest
      | none => none
    | rest =>
      match lineEnd? rest with
      | some rest => skipLines? fuel rest
      | none => some rest

/-! ### Strings -/

/-- The character with a given code point, which must not be a surrogate. -/
def charOfCode? (n : Nat) : Option Char :=
  if h : n.isValidChar then some (Char.ofNatAux n h) else none

/-- The character written by hexadecimal digits. -/
def charOfHex? (digits : List Char) : Option Char :=
  (numeral? 16 digits).bind charOfCode?

/-- The character meant by a letter after a backslash. -/
def escaped? : Char → Option Char
  | 'b' => some '\x08'
  | 't' => some '\t'
  | 'n' => some '\n'
  | 'f' => some '\x0c'
  | 'r' => some '\r'
  | 'e' => some '\x1b'
  | '"' => some '"'
  | '\\' => some '\\'
  | _ => none

/-- Puts a character, if there is one, in front of what is read after it. -/
def push (c? : Option Char) (rest? : Option (List Char × List Char)) :
    Option (List Char × List Char) :=
  match c?, rest? with
  | some c, some (cs, rest) => some (c :: cs, rest)
  | _, _ => none

/-- The rest of a string in double quotes. -/
def basicBody : List Char → Option (List Char × List Char)
  | [] => none
  | '"' :: cs => some ([], cs)
  | '\\' :: 'x' :: a :: b :: cs => push (charOfHex? [a, b]) (basicBody cs)
  | '\\' :: 'u' :: a :: b :: c :: d :: cs => push (charOfHex? [a, b, c, d]) (basicBody cs)
  | '\\' :: 'U' :: a :: b :: c :: d :: e :: f :: g :: h :: cs =>
    push (charOfHex? [a, b, c, d, e, f, g, h]) (basicBody cs)
  | '\\' :: c :: cs => push (escaped? c) (basicBody cs)
  | c :: cs => if isControl c then none else push (some c) (basicBody cs)

/-- The rest of a string in single quotes. -/
def literalBody : List Char → Option (List Char × List Char)
  | [] => none
  | '\'' :: cs => some ([], cs)
  | c :: cs => if isControl c then none else push (some c) (literalBody cs)

def isBlankLine (cs : List Char) : Bool :=
  (lineEnd? (skipSpaces cs)).isSome

/-- The rest of a string in three double quotes. Line ends stay as they are written, but after a
backslash at the end of a line (`skipping`) blanks and line ends are passed over. Up to two quotes
may stand before the closing ones. -/
def longBasicBody : (skipping : Bool) → List Char → Option (List Char × List Char)
  | _, [] => none
  | _, '"' :: '"' :: '"' :: '"' :: '"' :: cs => some (['"', '"'], cs)
  | _, '"' :: '"' :: '"' :: '"' :: cs => some (['"'], cs)
  | _, '"' :: '"' :: '"' :: cs => some ([], cs)
  | skipping, '\r' :: '\n' :: cs =>
    if skipping then longBasicBody true cs
    else push (some '\r') (push (some '\n') (longBasicBody false cs))
  | _, '\\' :: 'x' :: a :: b :: cs => push (charOfHex? [a, b]) (longBasicBody false cs)
  | _, '\\' :: 'u' :: a :: b :: c :: d :: cs =>
    push (charOfHex? [a, b, c, d]) (longBasicBody false cs)
  | _, '\\' :: 'U' :: a :: b :: c :: d :: e :: f :: g :: h :: cs =>
    push (charOfHex? [a, b, c, d, e, f, g, h]) (longBasicBody false cs)
  | _, '\\' :: c :: cs =>
    if isBlankLine (c :: cs) then longBasicBody true (c :: cs)
    else push (escaped? c) (longBasicBody false cs)
  | skipping, c :: cs =>
    if skipping && (isSpace c || c == '\n') then longBasicBody true cs
    else if isControl c && c != '\n' then none
    else push (some c) (longBasicBody false cs)

/-- The rest of a string in three single quotes. -/
def longLiteralBody : List Char → Option (List Char × List Char)
  | [] => none
  | '\'' :: '\'' :: '\'' :: '\'' :: '\'' :: cs => some (['\'', '\''], cs)
  | '\'' :: '\'' :: '\'' :: '\'' :: cs => some (['\''], cs)
  | '\'' :: '\'' :: '\'' :: cs => some ([], cs)
  | '\r' :: '\n' :: cs => push (some '\r') (push (some '\n') (longLiteralBody cs))
  | c :: cs =>
    if isControl c && c != '\n' then none else push (some c) (longLiteralBody cs)

/-- The text after a line end right behind opening quotes, which does not belong to the string. -/
def skipFirstLineEnd (cs : List Char) : List Char :=
  (lineEnd? cs).getD cs

/-- Characters read as a string. -/
def asString (read? : Option (List Char × List Char)) : Option (String × List Char) :=
  read?.map fun (cs, rest) => (String.ofList cs, rest)

/-! ### Numbers

The form of a number is checked here. A number of good form may still stand for none: it can be
too large, or have a digit that its base does not know behind an underscore, and then it is
`unreadable`. -/

/-- A whole number if there is one and it has at most 128 bits, with a sign or without. -/
def wholeNumber (n? : Option Int) : Document :=
  match n? with
  | some n =>
    if -170141183460469231731687303715884105728 ≤ n
      ∧ n ≤ 340282366920938463463374607431768211455 then .integer n else .unreadable
  | none => .unreadable

/-- The text without its underscores, each of which has to stand right before a digit and right
behind a digit or where `bound` says that one may. -/
def dropUnderscores? (isDigit : Char → Bool) : (bound : Bool) → List Char → Option (List Char)
  | _, [] => some []
  | bound, '_' :: cs =>
    if bound && (cs.head?.any isDigit) then dropUnderscores? isDigit false cs else none
  | _, c :: cs => (dropUnderscores? isDigit (isDigit c) cs).map (c :: ·)

/-- The text without its underscores, one right behind a sign allowed. -/
def plainNumeral? (isDigit : Char → Bool) : List Char → Option (List Char)
  | '-' :: cs => (dropUnderscores? isDigit true cs).map ('-' :: ·)
  | '+' :: cs => (dropUnderscores? isDigit true cs).map ('+' :: ·)
  | cs => dropUnderscores? isDigit false cs

/-- A digit of some base. -/
def isAnyDigit (c : Char) : Bool :=
  (digit? c).isSome

/-- The text without a sign at its start. -/
def unsigned : List Char → List Char
  | '-' :: cs => cs
  | '+' :: cs => cs
  | cs => cs

/-- A whole number in a base other than ten, given what stands behind the mark of the base. -/
def basedNumber? (base : Nat) (cs : List Char) : Option Document :=
  if cs.all fun c => c == '_' || (digitBelow? base c).isSome then
    (dropUnderscores? isAnyDigit false cs).map fun digits =>
      wholeNumber ((numeral? base digits).map Int.ofNat)
  else none

/-- A digit of a decimal number or an underscore. -/
def isGroupChar (c : Char) : Bool :=
  c.isDigit || c == '_'

def digitCount (cs : List Char) : Nat :=
  cs.countP Char.isDigit

/-- An exponent with its `e`, or nothing. -/
def isExponent : List Char → Bool
  | [] => true
  | e :: cs =>
    (e == 'e' || e == 'E') && (unsigned cs).all isGroupChar && 0 < digitCount (unsigned cs)

/-- A number with a fraction, an exponent or both, without its sign. More than one digit before
the fraction must not start with a zero. -/
def isFloat (cs : List Char) : Bool :=
  let whole := cs.takeWhile isGroupChar
  0 < digitCount whole && (digitCount whole ≤ 1 || whole.head? != some '0') &&
    match cs.dropWhile isGroupChar with
    | '.' :: rest =>
      0 < digitCount (rest.takeWhile isGroupChar) && isExponent (rest.dropWhile isGroupChar)
    | rest => isExponent rest

/-- The digits of a decimal number without its sign, and the power of ten to which the last one
counts. -/
def decimalParts (cs : List Char) : Nat × Int :=
  let mantissa := cs.takeWhile fun c => c != 'e' && c != 'E'
  let exponent := cs.drop (mantissa.length + 1)
  let fraction := (mantissa.dropWhile (· != '.')).drop 1
  let power := ((numeral? 10 (unsigned exponent)).map Int.ofNat).getD 0
  ((numeral? 10 (mantissa.filter Char.isDigit)).getD 0,
    (if exponent.head? == some '-' then -power else power) - fraction.length)

/-- A number with a fraction, an exponent or both. -/
def float? (cs : List Char) : Option Document :=
  if isFloat (unsigned cs) then
    (plainNumeral? Char.isDigit cs).map fun cs =>
      let (mantissa, exponent) := decimalParts (unsigned cs)
      if overflows mantissa exponent then .unreadable else .float (String.ofList cs)
  else none

/-- A whole number in base ten. More than one digit must not start with a zero. -/
def integer? (cs : List Char) : Option Document :=
  match unsigned cs with
  | '0' :: _ :: _ => none
  | _ =>
    (plainNumeral? isAnyDigit cs).map fun cs => wholeNumber (int? cs)

/-! ### Moments -/

def twoDigits? : List Char → Option Nat
  | [a, b] => numeral? 10 [a, b]
  | _ => none

def isLeapYear (year : Nat) : Bool :=
  year % 4 == 0 && (year % 100 != 0 || year % 400 == 0)

def daysOfMonth (year month : Nat) : Nat :=
  if month == 2 then (if isLeapYear year then 29 else 28)
  else if [4, 6, 9, 11].contains month then 30 else 31

def isDate : List Char → Bool
  | [y1, y2, y3, y4, '-', m1, m2, '-', d1, d2] =>
    match numeral? 10 [y1, y2, y3, y4], twoDigits? [m1, m2], twoDigits? [d1, d2] with
    | some year, some month, some day =>
      1 ≤ month && month ≤ 12 && 1 ≤ day && day ≤ daysOfMonth year month
    | _, _, _ => false
  | _ => false

def isSecondFraction : List Char → Bool
  | [] => true
  | '.' :: cs => (numeral? 10 cs).isSome
  | _ => false

/-- The seconds of a time of day, which may be left out; the last minute may have a leap second. -/
def isSeconds : List Char → Bool
  | [] => true
  | ':' :: s1 :: s2 :: fraction =>
    match twoDigits? [s1, s2] with
    | some second => second ≤ 60 && isSecondFraction fraction
    | none => false
  | _ => false

/-- A time of day `hh:mm` or `hh:mm:ss`, the latter perhaps with a fraction. -/
def isTime : List Char → Bool
  | h1 :: h2 :: ':' :: m1 :: m2 :: seconds =>
    match twoDigits? [h1, h2], twoDigits? [m1, m2] with
    | some hour, some minute => hour < 24 && minute < 60 && isSeconds seconds
    | _, _ => false
  | _ => false

/-- The difference to universal time: nothing, `Z`, or a sign, hours and minutes. -/
def isOffset : List Char → Bool
  | [] | ['Z'] | ['z'] => true
  | [sign, h1, h2, ':', m1, m2] =>
    (sign == '+' || sign == '-') &&
      match twoDigits? [h1, h2], twoDigits? [m1, m2] with
      | some hour, some minute => hour < 24 && minute < 60
      | _, _ => false
  | _ => false

/-- A date, a time of day, or a date and a time with or without an offset. -/
def isMoment (cs : List Char) : Bool :=
  let clock := cs.drop 11
  let isTimeChar : Char → Bool := fun c => c.isDigit || c == ':' || c == '.'
  isDate cs || isTime cs
    || (isDate (cs.take 10) && (cs[10]?.any fun c => c == 'T' || c == 't' || c == ' ')
        && isTime (clock.takeWhile isTimeChar) && isOffset (clock.dropWhile isTimeChar))

/-! ### Unquoted scalars -/

/-- Characters that end an unquoted scalar. -/
def endsScalar (c : Char) : Bool :=
  isSpace c || ['\n', '\r', ',', '=', '[', ']', '\x7b', '\x7d', '#', '"', '\''].contains c

/-- The characters of an unquoted scalar and the text after it. A date may be followed by a blank
and a time of day. -/
def scalarChars (cs : List Char) : List Char × List Char :=
  let word := cs.takeWhile fun c => !endsScalar c
  let rest := cs.dropWhile fun c => !endsScalar c
  match rest with
  | ' ' :: d :: tail =>
    if isDate word && d.isDigit then
      (word ++ ' ' :: (d :: tail).takeWhile (!endsScalar ·), (d :: tail).dropWhile (!endsScalar ·))
    else (word, rest)
  | _ => (word, rest)

/-- A number or a moment that starts with digits or an underscore, a sign in front allowed. What
follows the digits tells which of them it is. -/
def numeric? (cs : List Char) : Option Document :=
  match (unsigned cs).dropWhile Char.isDigit with
  | [] => integer? cs
  | '-' :: _ | ':' :: _ => if isMoment cs then some (.moment (String.ofList cs)) else none
  | rest =>
    if rest.any fun c => c == '.' || c == 'e' || c == 'E' then float? cs
    else if rest.head? == some '_' then integer? cs
    else none

/-- The value of an unquoted scalar. -/
def scalar? (cs : List Char) : Option Document :=
  if cs == "true".toList then some (.bool true)
  else if cs == "false".toList then some (.bool false)
  else match cs with
    | '0' :: 'x' :: digits => basedNumber? 16 digits
    | '0' :: 'o' :: digits => basedNumber? 8 digits
    | '0' :: 'b' :: digits => basedNumber? 2 digits
    | _ =>
      let word := unsigned cs
      if word == "inf".toList || word == "nan".toList then some (.float (String.ofList cs))
      else if word.head?.any isGroupChar then numeric? cs
      else none

end IterativeDns.Toml
