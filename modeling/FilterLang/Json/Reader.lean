import FilterLang.Json.Basic
import FilterLang.Text.Digits

/-! Reading JSON text. Containers may be nested 127 deep. -/

namespace FilterLang.Json

open Text

/-- The text without the blanks at its front. -/
def skip (cs : List Char) : List Char :=
  cs.dropWhile fun c => c == ' ' || c == '\n' || c == '\t' || c == '\r'

def hexDigit? (c : Char) : Option Nat :=
  if c.isDigit then some (c.toNat - '0'.toNat)
  else if 'a' ≤ c && c ≤ 'f' then some (c.toNat - 'a'.toNat + 10)
  else if 'A' ≤ c && c ≤ 'F' then some (c.toNat - 'A'.toNat + 10)
  else none

/-- The number that four hexadecimal digits stand for. -/
def hexUnit? (a b c d : Char) : Option Nat := do
  pure ((((← hexDigit? a) * 16 + (← hexDigit? b)) * 16 + (← hexDigit? c)) * 16 + (← hexDigit? d))

/-- The character that an escape of one letter stands for. -/
def shortEscape? : Char → Option Char
  | '"' => some '"'
  | '\\' => some '\\'
  | '/' => some '/'
  | 'b' => some '\x08'
  | 'f' => some '\x0c'
  | 'n' => some '\n'
  | 'r' => some '\r'
  | 't' => some '\t'
  | _ => none

/-- The code points of a string up to its closing quote, and the text after it. A character above
`U+FFFF` may be escaped as two surrogates. -/
def readPoints : List Char → Option (List Nat × List Char)
  | [] => none
  | '"' :: rest => some ([], rest)
  | '\\' :: 'u' :: a :: b :: c :: d :: rest => do
    let unit ← hexUnit? a b c d
    let (points, rest) ← readPoints rest
    pure (unit :: points, rest)
  | '\\' :: c :: rest => do
    let e ← shortEscape? c
    let (points, rest) ← readPoints rest
    pure (e.toNat :: points, rest)
  | c :: rest =>
    if c.toNat < 0x20 || c == '\\' then none
    else (readPoints rest).map fun (points, rest) => (c.toNat :: points, rest)

/-- The characters that code points stand for; half of a surrogate pair stands for none. -/
def charsOfPoints? : List Nat → Option (List Char)
  | [] => some []
  | high :: low :: rest =>
    if 0xD800 ≤ high && high < 0xDC00 then
      if 0xDC00 ≤ low && low < 0xE000 then
        (charsOfPoints? rest).map (.ofNat (0x10000 + (high - 0xD800) * 0x400 + (low - 0xDC00)) :: ·)
      else none
    else if 0xDC00 ≤ high && high < 0xE000 then none
    else (charsOfPoints? (low :: rest)).map (.ofNat high :: ·)
  | [point] => if 0xD800 ≤ point && point < 0xE000 then none else some [.ofNat point]

/-- A string up to its closing quote, if it has a value, and the text after it. -/
def readString (cs : List Char) : Option (Option String × List Char) :=
  (readPoints cs).map fun (points, rest) => ((charsOfPoints? points).map .ofList, rest)

/-- The digits after a point; there must be one. -/
def readFraction : List Char → Option (List Char × List Char)
  | '.' :: rest =>
    let digits := rest.takeWhile Char.isDigit
    if digits.isEmpty then none else some (digits, rest.dropWhile Char.isDigit)
  | rest => some ([], rest)

/-- The exponent, if there is one; it must have a digit. -/
def readExponent : List Char → Option (Option Int × List Char)
  | [] => some (none, [])
  | c :: rest =>
    if c == 'e' || c == 'E' then
      let (negative, rest) := takeSign rest
      let digits := rest.takeWhile Char.isDigit
      let exponent : Int := digitsValue digits
      if digits.isEmpty then none
      else some (some (if negative then -exponent else exponent), rest.dropWhile Char.isDigit)
    else some (none, c :: rest)

/-- A number: no leading zeros, no plus sign. A negative zero is not whole. What is not whole is
rounded to the nearest double. -/
def readNumber (cs : List Char) : Option (Json × List Char) := do
  let (negative, cs) := match cs with
    | '-' :: rest => (true, rest)
    | rest => (false, rest)
  let whole := cs.takeWhile Char.isDigit
  if whole.isEmpty || (whole.length > 1 && whole.head? == some '0') then none
  let (fraction, rest) ← readFraction (cs.dropWhile Char.isDigit)
  let (exponent, rest) ← readExponent rest
  let magnitude := digitsValue whole
  let fits :=
    if negative then 0 < magnitude && magnitude ≤ 0x8000000000000000
    else magnitude ≤ 0xffffffffffffffff
  if fraction.isEmpty && exponent.isNone && fits then
    some (int (if negative then -magnitude else magnitude), rest)
  else
    let x := Double.ofDecimal negative (digitsValue (whole ++ fraction))
      (exponent.getD 0 - fraction.length)
    some (if x.isFinite then float x else unreadable, rest)

/-- The members of an object, if each of its names has a value. -/
def named? : List (Option String × Json) → Option (List (String × Json))
  | [] => some []
  | (some name, j) :: rest => (named? rest).map ((name, j) :: ·)
  | (none, _) :: _ => none

/-- A container, unless no more may be opened. -/
def within (depth : Nat) (container : Json) : Json := if depth = 0 then unreadable else container

mutual

/-- Reads one document from the front of a text. `fuel` bounds the characters read, `depth` the
containers that may still be opened. -/
def readValue : (fuel depth : Nat) → List Char → Option (Json × List Char)
  | 0, _, _ => none
  | fuel + 1, depth, cs =>
    match skip cs with
    | '{' :: rest =>
      match skip rest with
      | '}' :: rest => some (within depth (object []), rest)
      | rest => (readMembers fuel (depth - 1) rest).map fun (members, rest) =>
          (within depth ((named? members).elim unreadable object), rest)
    | '[' :: rest =>
      match skip rest with
      | ']' :: rest => some (within depth (array []), rest)
      | rest => (readItems fuel (depth - 1) rest).map fun (items, rest) =>
          (within depth (array items), rest)
    | '"' :: rest => (readString rest).map fun (s?, rest) => (s?.elim unreadable string, rest)
    | 'n' :: 'u' :: 'l' :: 'l' :: rest => some (null, rest)
    | 't' :: 'r' :: 'u' :: 'e' :: rest => some (bool true, rest)
    | 'f' :: 'a' :: 'l' :: 's' :: 'e' :: rest => some (bool false, rest)
    | cs => readNumber cs

/-- Reads the items of an array up to its closing bracket. -/
def readItems : (fuel depth : Nat) → List Char → Option (List Json × List Char)
  | 0, _, _ => none
  | fuel + 1, depth, cs => do
    let (j, rest) ← readValue fuel depth cs
    match skip rest with
    | ',' :: rest => (readItems fuel depth rest).map fun (items, rest) => (j :: items, rest)
    | ']' :: rest => some ([j], rest)
    | _ => none

/-- Reads the members of an object up to its closing brace. -/
def readMembers : (fuel depth : Nat) → List Char → Option (List (Option String × Json) × List Char)
  | 0, _, _ => none
  | fuel + 1, depth, cs =>
    match skip cs with
    | '"' :: rest => do
      let (name?, rest) ← readString rest
      match skip rest with
      | ':' :: rest =>
        let (j, rest) ← readValue fuel depth rest
        match skip rest with
        | ',' :: rest =>
          (readMembers fuel depth rest).map fun (members, rest) => ((name?, j) :: members, rest)
        | '}' :: rest => some ([(name?, j)], rest)
        | _ => none
      | _ => none
    | _ => none

end

/-- The document that a text holds, with nothing but blanks around it. Parts of it may be
unreadable, so that a field that nobody asks for does no harm. -/
def ofText? (text : String) : Option Json :=
  let cs := text.toList
  match readValue (cs.length + 1) 127 cs with
  | some (j, rest) => if (skip rest).isEmpty then some j else none
  | none => none

/-- The document that a text holds, if all of it is readable. -/
def ofReadableText? (text : String) : Option Json := (ofText? text).filter isReadable

end FilterLang.Json
