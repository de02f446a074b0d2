import FilterLang.Qualifier.Basic

/-! Tokens and their places in a filter text. Places are byte offsets in the UTF-8 text. -/

namespace FilterLang

/-- A range of bytes, its end excluded. -/
structure Span where
  start : Nat
  stop : Nat
  deriving DecidableEq

namespace Span

def length (s : Span) : Nat := s.stop - s.start

def isEmpty (s : Span) : Bool := s.start == s.stop

/-- The least span that covers both. -/
def merge (s t : Span) : Span := ⟨min s.start t.start, max s.stop t.stop⟩

end Span

/-- A token of the filter language. -/
inductive Token where
  /-- The name of a member or a column, or a bare word that stands for a boolean. -/
  | identifier (name : String)
  | operator (comparison : Comparison)
  | connective (c : Connective)
  /-- An integer, quoted text or null. -/
  | constant (value : Value)
  /-- The argument with the given index. -/
  | parameter (index : Nat)
  | separator
  | openGroup
  | closeGroup
  deriving DecidableEq

/-- A token with its place. -/
structure PlacedToken where
  token : Token
  span : Span
  deriving DecidableEq

namespace Token

/-- The token that a word is: one of the four reserved words in any case, or an identifier. -/
def ofWord (word : String) : Token :=
  if Text.sameWord word "and" then connective .and
  else if Text.sameWord word "or" then connective .or
  else if Text.sameWord word "null" then constant .null
  else match Comparison.ofSymbol? word with
    | some comparison => operator comparison
    | none => identifier word

/-- A token in messages. -/
def display : Token → String
  | identifier name => "identifier '" ++ name ++ "'"
  | operator comparison => "operator '" ++ comparison.symbol ++ "'"
  | connective c => "'" ++ c.keyword ++ "'"
  | constant value => "constant " ++ value.literal
  | parameter index => "parameter \x7b" ++ String.ofList (Text.decimal index) ++ "\x7d"
  | separator => "'.'"
  | openGroup => "'('"
  | closeGroup => "')'"

end Token

/-- Why a text is not a sequence of tokens. -/
inductive LexError.Cause where
  /-- The character starts no token. -/
  | unexpectedCharacter (c : Char)
  | unterminatedString
  /-- A brace that does not open a parameter of digits. -/
  | malformedParameter
  /-- An integer above 64 bits. -/
  | invalidInteger (digits : String)
  deriving DecidableEq

/-- What is wrong, the byte at which the bad lexeme starts, and the whole text. -/
structure LexError where
  cause : LexError.Cause
  position : Nat
  input : String
  deriving DecidableEq

def LexError.message (e : LexError) : String :=
  let place := String.ofList (Text.decimal e.position)
  match e.cause with
  | .unexpectedCharacter c =>
    "unexpected character '" ++ c.toString ++ "' at position " ++ place ++ " in \"" ++ e.input ++
      "\""
  | .unterminatedString =>
    "unterminated string literal starting at position " ++ place ++ " in \"" ++ e.input ++ "\""
  | .malformedParameter =>
    "malformed parameter reference at position " ++ place ++ " in \"" ++ e.input ++ "\""
  | .invalidInteger digits =>
    "invalid integer literal '" ++ digits ++ "' at position " ++ place ++ " in \"" ++ e.input ++
      "\""

end FilterLang
