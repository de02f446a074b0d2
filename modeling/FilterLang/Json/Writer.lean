import FilterLang.Double.Shortest
import FilterLang.Json.Basic
import FilterLang.Text.Digits

/-! Writing JSON text without blanks. -/

namespace FilterLang.Json

open Text

def hexChar (n : Nat) : Char := if n < 10 then Char.ofNat (48 + n) else Char.ofNat (87 + n)

/-- A character inside quotes: the quote, the backslash and the control characters are escaped. -/
def escaped (c : Char) : List Char :=
  if c = '"' then ['\\', '"']
  else if c = '\\' then ['\\', '\\']
  else if c = '\x08' then ['\\', 'b']
  else if c = '\x0c' then ['\\', 'f']
  else if c = '\n' then ['\\', 'n']
  else if c = '\r' then ['\\', 'r']
  else if c = '\t' then ['\\', 't']
  else if c.toNat < 0x20 then ['\\', 'u', '0', '0', hexChar (c.toNat / 16), hexChar (c.toNat % 16)]
  else [c]

def quoted (s : String) : List Char := '"' :: (s.toList.flatMap escaped ++ ['"'])

/-- A decimal with a point and at least one digit on each side of it; with an exponent below `1e-5`
and from `1e16` on. -/
def decimalText (d : Double.Decimal) : List Char :=
  let count : Int := d.digits.length
  if 0 < d.point ∧ d.point ≤ 16 then
    if count ≤ d.point then
      d.digits ++ List.replicate (d.point - count).toNat '0' ++ ['.', '0']
    else d.digits.take d.point.toNat ++ '.' :: d.digits.drop d.point.toNat
  else if -5 < d.point ∧ d.point ≤ 0 then
    '0' :: '.' :: (List.replicate (-d.point).toNat '0' ++ d.digits)
  else
    let mantissa := match d.digits with
      | first :: next :: rest => first :: '.' :: next :: rest
      | digits => digits
    let exponent := d.point - 1
    mantissa ++ 'e' :: (if exponent < 0 then '-' else '+') :: decimal exponent.natAbs

/-- A finite number by its shortest digits; the others have no written form and become `null`. -/
def floatText : Double → List Char
  | .nan => ['n', 'u', 'l', 'l']
  | .number negative rank =>
    if rank.val = Double.infinityRank then ['n', 'u', 'l', 'l']
    else
      let magnitude :=
        if rank.val = 0 then ['0', '.', '0'] else decimalText (Double.shortest .even rank)
      if negative then '-' :: magnitude else magnitude

mutual

/-- The text of a document, members in their order. What is unreadable becomes `null`. -/
def write : Json → List Char
  | null | unreadable => ['n', 'u', 'l', 'l']
  | bool b => if b then ['t', 'r', 'u', 'e'] else ['f', 'a', 'l', 's', 'e']
  | int i => intText i
  | float x => floatText x
  | string s => quoted s
  | array items => '[' :: (writeItems items ++ [']'])
  | object members => '{' :: (writeMembers members ++ ['}'])

def writeItems : List Json → List Char
  | [] => []
  | [j] => j.write
  | j :: rest => j.write ++ ',' :: writeItems rest

def writeMembers : List (String × Json) → List Char
  | [] => []
  | [(name, j)] => quoted name ++ ':' :: j.write
  | (name, j) :: rest => quoted name ++ ':' :: (j.write ++ ',' :: writeMembers rest)

end

def text (j : Json) : String := String.ofList j.write

end FilterLang.Json
