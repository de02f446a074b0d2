import FilterLang.Layout.Lexeme

/-! The attributes of declared fields.

An attribute is written `#[member(…)]`, with `object`, `many`, `skip` and `name = "…"` in its
list, or `#[member]` alone; attributes with any other name say nothing about members. -/

namespace FilterLang.Layout

/-- Why no members can be laid out for a declaration. -/
inductive LayoutError where
  | notAStruct
  | withoutFieldNames
  /-- The value of `name` is no text literal. -/
  | nameIsNoText
  | unknownOption
  | objectAndMany
  /-- The attribute has a value instead of a list of options. -/
  | notAList
  /-- A literal stands where an option is expected. -/
  | literalOption
  /-- Something else, or nothing, stands where an option is expected. -/
  | noOption (atEnd : Bool)
  /-- No word follows the colons of a path. -/
  | noWord (atEnd : Bool)
  /-- A mark does not stand where it has to. -/
  | missing (mark : Char)
  /-- The name has no value, as the list ends or as what follows is none. -/
  | noValue (atEnd : Bool)
  deriving DecidableEq

/-- What is expected, and whether the text ends before it. -/
def LayoutError.expected (atEnd : Bool) (what : String) : String :=
  (if atEnd then "unexpected end of input, " else "") ++ "expected " ++ what

def LayoutError.message : LayoutError → String
  | notAStruct => "Members derive only supports structs"
  | withoutFieldNames => "Members derive only supports structs with named fields"
  | nameIsNoText => "expected a string literal, as in \x60name = \"Title\"\x60"
  | unknownOption =>
    "unsupported member attribute, expected one of \x60name\x60, \x60object\x60, \x60many\x60, " ++
      "\x60skip\x60"
  | objectAndMany => "a member cannot be both \x60object\x60 and \x60many\x60"
  | notAList => "expected parentheses: #[member(...)]"
  | literalOption => "unexpected literal in nested attribute, expected ident"
  | noOption false => "unexpected token in nested attribute, expected ident"
  | noOption true => expected true "nested attribute"
  | noWord atEnd => expected atEnd "ident"
  | missing mark => expected false ("\x60" ++ mark.toString ++ "\x60")
  | noValue atEnd => expected atEnd "an expression"

/-- What follows a path whose first word is already read. -/
def afterPath (last : Bool) : List Lexeme → Except LayoutError (List Lexeme)
  | .colons :: .word _ :: rest => afterPath last rest
  | [.colons] => .error (.noWord last)
  | .colons :: _ => .error (.noWord false)
  | rest => .ok rest

/-- A path, given by its word if it has only one, and what follows it. `last` says whether the text
ends with the lexemes. -/
def readPath (last : Bool) : List Lexeme → Except LayoutError (Option String × List Lexeme)
  | .colons :: .word _ :: rest => return (none, ← afterPath last rest)
  | .word _ :: .colons :: rest => return (none, ← afterPath last (.colons :: rest))
  | .word name :: rest => .ok (some name, rest)
  | .colons :: rest | rest => match rest with
    | [] => .error (.noOption last)
    | .text _ :: _ | .number :: _ | .literal :: _ | .mark '-' :: .number :: _ =>
      .error .literalOption
    | _ => .error (.noOption false)

/-- What an attribute holds beside its name. -/
inductive Contents where
  | nothing
  | list (items : List Lexeme)
  | value

/-- An attribute; one whose name is a path of several words has no name. -/
structure Attribute where
  name : Option String
  contents : Contents

namespace Attribute

/-- The attribute that stands in brackets. -/
def ofLexemes? (inside : List Lexeme) : Option Attribute :=
  match readPath true inside with
  | .ok (name, []) => some ⟨name, .nothing⟩
  | .ok (name, [.group _ items]) => some ⟨name, .list items⟩
  | .ok (name, .mark '=' :: _ :: _) => some ⟨name, .value⟩
  | _ => none

/-- Attributes written one after the other. -/
def allOfLexemes? : List Lexeme → Option (List Attribute)
  | [] => some []
  | .mark '#' :: .group '[' inside :: rest => do
    pure ((← ofLexemes? inside) :: (← allOfLexemes? rest))
  | _ => none

/-- The attributes that a text holds. -/
def allOfText? (source : String) : Option (List Attribute) :=
  (Lexeme.ofText? source).bind allOfLexemes?

end Attribute

/-- What the attributes of a field say. -/
structure Options where
  name : Option String := none
  object : Bool := false
  many : Bool := false
  skip : Bool := false
  deriving DecidableEq

/-- The keywords with which no expression starts. -/
def declarationWords : List String :=
  ["abstract", "as", "become", "box", "do", "dyn", "else", "enum", "extern", "final", "fn", "impl",
    "in", "macro", "mod", "mut", "override", "priv", "pub", "ref", "struct", "trait", "type",
    "typeof", "unsized", "use", "virtual", "where"]

/-- Whether an expression may start with lexemes. -/
def startsExpression : List Lexeme → Bool
  | [] => false
  | .mark '.' :: rest => match rest with
    | .mark '.' :: _ => true
    | _ => false
  | .mark c :: _ => ['-', '!', '*', '&', '|', '<'].contains c
  | .word name :: _ => !declarationWords.contains name
  | _ => true

/-- Whether an expression that starts with a literal goes on. -/
def goesOn : List Lexeme → Bool
  | .mark c :: _ =>
    ['+', '-', '*', '/', '%', '^', '&', '|', '<', '>', '=', '!', '.', '?'].contains c
  | .group opening _ :: _ => opening == '(' || opening == '['
  | .word name :: _ => name == "as"
  | _ => false

/-- The text that stands for a name, and what follows it. Attributes in front of it are skipped. -/
def readName (last : Bool) : List Lexeme → Except LayoutError (String × List Lexeme)
  | [] => .error (.noValue last)
  | .mark '#' :: .group '[' _ :: rest => readName last rest
  | .text name :: rest => if goesOn rest then .error .nameIsNoText else .ok (name, rest)
  | rest => .error (if startsExpression rest then .nameIsNoText else .noValue false)

namespace Options

/-- Adds one option of a list; `last` says whether the list ends with it. -/
def add (o : Options) (last : Bool) (item : List Lexeme) : Except LayoutError Options := do
  let (option, rest) ← readPath last item
  let (o, rest) ← match option with
    | some "object" => pure ({ o with object := true }, rest)
    | some "many" => pure ({ o with many := true }, rest)
    | some "skip" => pure ({ o with skip := true }, rest)
    | some "name" => match rest with
      | .mark '=' :: rest => do
        let (name, rest) ← readName last rest
        pure ({ o with name := some name }, rest)
      | _ => throw (.missing '=')
    | _ => throw .unknownOption
  if rest.isEmpty then pure o else throw (.missing ',')

/-- The parts of a list between its commas. -/
def items : List Lexeme → List (List Lexeme)
  | [] => [[]]
  | .mark ',' :: rest => [] :: items rest
  | l :: rest => match items rest with
    | [] => [[l]]
    | item :: more => (l :: item) :: more

/-- Adds the options of a list in order; it may end with a comma. -/
def addAll (o : Options) : List (List Lexeme) → Except LayoutError Options
  | [] | [[]] => .ok o
  | item :: rest => do addAll (← o.add rest.isEmpty item) rest

/-- Adds what one attribute says. -/
def addAttribute (o : Options) (a : Attribute) : Except LayoutError Options :=
  if a.name = some "member" then
    match a.contents with
    | .nothing => .ok o
    | .list inside => o.addAll (items inside)
    | .value => .error .notAList
  else .ok o

/-- What all attributes of a field say. -/
def ofAttributes (attributes : List Attribute) : Except LayoutError Options :=
  attributes.foldlM addAttribute {}

end Options

end FilterLang.Layout
