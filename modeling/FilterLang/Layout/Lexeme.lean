import FilterLang.Text.Basic

/-! Lexemes of declarations: what the attributes and the type of a field are written with.

Brackets group the lexemes between them. Blanks and comments separate lexemes and are not kept;
block comments nest. A documentation comment stands for an attribute. -/

namespace FilterLang.Layout

/-- A lexeme of a declaration. -/
inductive Lexeme where
  /-- A name or a keyword; a name that is also a keyword keeps the mark `r#`. -/
  | word (name : String)
  /-- A text literal, given by what it stands for. -/
  | text (value : String)
  | number
  /-- A character or a sequence of bytes. -/
  | literal
  | lifetime
  /-- The two colons between the words of a path. -/
  | colons
  /-- Any other character. -/
  | mark (c : Char)
  /-- Brackets, given by the opening one, and what stands in them. -/
  | group (opening : Char) (inside : List Lexeme)

namespace Lexeme

/-- The blanks between lexemes: white space and the two marks of writing direction. -/
def isGap (c : Char) : Bool := Text.isBlank c || c == '\u200e' || c == '\u200f'

/-- Beyond ASCII, where there are no marks, all but the gaps belong to words. -/
def isWordChar (c : Char) : Bool := c.isAlphanum || c == '_' || (128 ≤ c.toNat && !isGap c)

/-- The text after a block comment that stands in `depth` others. -/
def afterComment : (depth : Nat) → List Char → Option (List Char)
  | _, [] => none
  | depth, '/' :: '*' :: rest => afterComment (depth + 1) rest
  | 0, '*' :: '/' :: rest => some rest
  | depth + 1, '*' :: '/' :: rest => afterComment depth rest
  | depth, _ :: rest => afterComment depth rest

/-- What stands at the front of a text: a comment, given by the text after it, a documentation
comment, inner or outer, or neither. -/
inductive Comment where
  | plain (rest : List Char)
  | documentation (inner : Bool) (rest : List Char)
  | none

/-- Three slashes or a bar of two stars start documentation, more of them a comment like any
other. -/
def comment (cs : List Char) : Comment :=
  let line (rest : List Char) := rest.dropWhile (· != '\n')
  let block (f : List Char → Comment) (rest : List Char) : Comment :=
    match afterComment 0 rest with
    | some rest => f rest
    | Option.none => .none
  match cs with
  | '/' :: '/' :: '!' :: rest => .documentation true (line rest)
  | '/' :: '/' :: '/' :: '/' :: rest => .plain (line rest)
  | '/' :: '/' :: '/' :: rest => .documentation false (line rest)
  | '/' :: '/' :: rest => .plain (line rest)
  | '/' :: '*' :: '!' :: rest => block (.documentation true) rest
  | '/' :: '*' :: '*' :: '/' :: rest => .plain rest
  | '/' :: '*' :: '*' :: '*' :: rest => block .plain ('*' :: '*' :: rest)
  | '/' :: '*' :: '*' :: rest => block (.documentation false) rest
  | '/' :: '*' :: rest => block .plain rest
  | _ => .none

/-- The text without the gaps and comments at its front. -/
def skipGaps : (fuel : Nat) → List Char → List Char
  | 0, cs => cs
  | fuel + 1, cs =>
    let cs := cs.dropWhile isGap
    match comment cs with
    | .plain rest => skipGaps fuel rest
    | _ => cs

def hexValue? (c : Char) : Option Nat :=
  if c.isDigit then some (c.toNat - 48)
  else if 'a' ≤ c.toLower && c.toLower ≤ 'f' then some (c.toLower.toNat - 87)
  else none

/-- The character with the number that hexadecimal digits stand for; underscores are skipped. -/
def hexChar? (digits : List Char) : Option Char := do
  let values ← (digits.filter (· != '_')).mapM hexValue?
  let n := values.foldl (fun n d => n * 16 + d) 0
  if values.isEmpty || 0x10FFFF < n || (0xD800 ≤ n && n < 0xE000) then none else some (.ofNat n)

/-- The character that an escape stands for, the backslash already read, and what follows it. -/
def escape? : List Char → Option (Char × List Char)
  | 'x' :: a :: b :: rest => (hexChar? [a, b]).map (·, rest)
  | 'u' :: '{' :: rest =>
    (hexChar? (rest.takeWhile (· != '}'))).map (·, (rest.dropWhile (· != '}')).drop 1)
  | 'n' :: rest => some ('\n', rest)
  | 'r' :: rest => some ('\r', rest)
  | 't' :: rest => some ('\t', rest)
  | '0' :: rest => some ('\x00', rest)
  | c :: rest => if c == '\\' || c == '\'' || c == '"' then some (c, rest) else none
  | [] => none

/-- The characters of a text literal up to its closing quote, and what follows it. A line break
after a backslash is skipped together with the blanks after it. -/
def readText : (fuel : Nat) → List Char → Option (List Char × List Char)
  | 0, _ => none
  | _ + 1, [] => none
  | _ + 1, '"' :: rest => some ([], rest)
  | fuel + 1, '\\' :: c :: rest =>
    if c == '\n' || c == '\r' then
      readText fuel (rest.dropWhile fun c => c == ' ' || c == '\t' || c == '\n' || c == '\r')
    else do
      let (e, rest) ← escape? (c :: rest)
      let (cs, rest) ← readText fuel rest
      pure (e :: cs, rest)
  | fuel + 1, '\r' :: '\n' :: rest => (readText fuel rest).map fun (cs, rest) => ('\n' :: cs, rest)
  | fuel + 1, c :: rest =>
    if c == '\r' || c == '\\' then none
    else (readText fuel rest).map fun (cs, rest) => (c :: cs, rest)

/-- The characters of a raw literal that ends with a quote and the given number of hashes. -/
def readRaw (hashes : Nat) : List Char → Option (List Char × List Char)
  | [] => none
  | c :: rest =>
    if c == '"' && rest.take hashes == List.replicate hashes '#' then some ([], rest.drop hashes)
    else (readRaw hashes rest).map fun (cs, rest) => (c :: cs, rest)

/-- A raw literal, if hashes and a quote start one. -/
def rawText? (cs : List Char) : Option (List Char × List Char) :=
  let hashes := (cs.takeWhile (· == '#')).length
  match cs.drop hashes with
  | '"' :: rest => readRaw hashes rest
  | _ => none

/-- What follows the closing quote of a sequence of bytes. -/
def afterBytes : List Char → Option (List Char)
  | [] => none
  | '"' :: rest => some rest
  | '\\' :: _ :: rest => afterBytes rest
  | _ :: rest => afterBytes rest

/-- What follows a character in single quotes, the opening one already read. -/
def afterCharacter : List Char → Option (List Char)
  | '\\' :: 'x' :: _ :: _ :: '\'' :: rest => some rest
  | '\\' :: rest => match escape? rest with
    | some (_, '\'' :: rest) => some rest
    | _ => none
  | _ :: '\'' :: rest => some rest
  | _ => none

/-- What follows the suffix of a literal. -/
def afterSuffix (cs : List Char) : List Char :=
  if cs.head?.all Char.isDigit then cs else cs.dropWhile isWordChar

/-- The literal that starts with a word: the word says whether it is raw and whether it is text. -/
def prefixedLiteral? (word rest : List Char) : Option (Lexeme × List Char) :=
  match word, rest with
  | ['r'], rest => (rawText? rest).map fun (cs, rest) => (text (String.ofList cs), rest)
  | ['b', 'r'], rest | ['c', 'r'], rest => (rawText? rest).map fun (_, rest) => (literal, rest)
  | ['b'], '"' :: rest | ['c'], '"' :: rest => (afterBytes rest).map (literal, ·)
  | ['b'], '\'' :: rest => (afterCharacter rest).map (literal, ·)
  | _, _ => none

/-- The word, number or literal with a letter in front that stands at the front of a text. -/
def scanWord (cs : List Char) : Lexeme × List Char :=
  let word := cs.takeWhile isWordChar
  let rest := cs.dropWhile isWordChar
  match prefixedLiteral? word rest with
  | some (l, rest) => (l, afterSuffix rest)
  | none => match word, rest with
    | ['r'], '#' :: c :: rest =>
      if isWordChar c then
        (.word (String.ofList ('r' :: '#' :: c :: rest.takeWhile isWordChar)),
          rest.dropWhile isWordChar)
      else (.word "r", '#' :: c :: rest)
    | _, _ =>
      (if word.head?.any Char.isDigit then number else .word (String.ofList word), rest)

/-- The lexeme at the front of a text without gaps and brackets at its front. -/
def scan? (cs : List Char) : Option (Lexeme × List Char) :=
  match cs with
  | [] => none
  | '"' :: rest =>
    (readText (rest.length + 1) rest).map fun (cs, rest) =>
      (text (String.ofList cs), afterSuffix rest)
  | '\'' :: rest => match afterCharacter rest with
    | some rest => some (literal, afterSuffix rest)
    | none => if rest.head?.any isWordChar then some (lifetime, rest.dropWhile isWordChar) else none
  | ':' :: ':' :: rest => some (colons, rest)
  | '/' :: '*' :: _ => none
  | c :: rest =>
    if isWordChar c then some (scanWord (c :: rest))
    else if "~!@#$%^&*-=+|;:,<.>/?".toList.contains c then some (mark c, rest)
    else none

/-- The bracket that closes one. -/
def closing? : Char → Option Char
  | '(' => some ')'
  | '[' => some ']'
  | '{' => some '}'
  | _ => none

/-- The lexemes up to a closing bracket, or to the end of the text, and the text after them. `fuel`
bounds the characters read. -/
def readGroup : (fuel : Nat) → (close : Option Char) → List Char →
    Option (List Lexeme × List Char)
  | 0, _, _ => none
  | fuel + 1, close, cs =>
    let cs := skipGaps cs.length cs
    match cs with
    | [] => if close.isNone then some ([], []) else none
    | c :: rest =>
      if close == some c then some ([], rest)
      else match closing? c, comment cs with
        | some close', _ => do
          let (inside, rest) ← readGroup fuel (some close') rest
          let (ls, rest) ← readGroup fuel close rest
          pure (group c inside :: ls, rest)
        | none, .documentation inner rest => do
          let (ls, rest) ← readGroup fuel close rest
          let text := group '[' [word "doc", mark '=', literal]
          pure ((if inner then [mark '#', mark '!', text] else [mark '#', text]) ++ ls, rest)
        | none, _ => do
          let (l, rest) ← scan? cs
          let (ls, rest) ← readGroup fuel close rest
          pure (l :: ls, rest)

/-- The lexemes of a text. -/
def ofText? (source : String) : Option (List Lexeme) :=
  (readGroup (source.length + 1) none source.toList).map (·.1)

/-- The lexemes up to the angle bracket that closes one already read, and those after it; `depth`
others are open between. An arrow closes nothing. -/
def readAngled : (depth : Nat) → List Lexeme → Option (List Lexeme × List Lexeme)
  | _, [] => none
  | depth, mark '-' :: mark '>' :: rest =>
    (readAngled depth rest).map fun (inside, rest) => (mark '-' :: mark '>' :: inside, rest)
  | 0, mark '>' :: rest => some ([], rest)
  | depth + 1, mark '>' :: rest =>
    (readAngled depth rest).map fun (inside, rest) => (mark '>' :: inside, rest)
  | depth, mark '<' :: rest =>
    (readAngled (depth + 1) rest).map fun (inside, rest) => (mark '<' :: inside, rest)
  | depth, l :: rest => (readAngled depth rest).map fun (inside, rest) => (l :: inside, rest)

end Lexeme

end FilterLang.Layout
