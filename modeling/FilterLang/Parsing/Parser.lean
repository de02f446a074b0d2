import FilterLang.Parsing.Stack
import FilterLang.Token.Lexer

/-! Parsing: from a filter text and its arguments to a filter. -/

namespace FilterLang

open Parsing

def ParseError.message : ParseError → String
  | lex e => e.message
  | empty => "empty qualifier"
  | malformed position fault =>
    "syntax error at position " ++ String.ofList (Text.decimal position) ++ ": " ++ fault.message
  | invalidBoolean word position =>
    "invalid boolean literal '" ++ word ++ "' at position " ++ String.ofList (Text.decimal position)
  | argumentOutOfRange index position count =>
    "parameter reference \x7b" ++ String.ofList (Text.decimal index) ++ "\x7d at position " ++
      String.ofList (Text.decimal position) ++ " is out of range (" ++
      String.ofList (Text.decimal count) ++ " argument(s) supplied)"

namespace Parsing

/-- Shifts a token and reduces. -/
def Stack.shift (args : List Value) (s : Stack) (t : PlacedToken) : Except ParseError Stack :=
  Stack.reduce args (⟨.token t.token, t.span⟩ :: s)

/-- Shifts all tokens from a place to the end of the text. -/
def Stack.run (args : List Value) (s : Stack) (c : Cursor) : Except ParseError Stack :=
  match _h : c.next with
  | (.finished, _) => .ok s
  | (.fault e, _) => .error (.lex e)
  | (.token t, c') =>
    match s.shift args t with
    | .ok s' => Stack.run args s' c'
    | .error e => .error e
termination_by c.rest.length
decreasing_by exact Cursor.rest_length_lt _h

/-- The entry at a place counted from the lowest one. -/
def Stack.fromBottom? (s : Stack) (place : Nat) : Option Entry := s.reverse[place]?

/-- What is wrong with more than one entry, the text being read up to a position. -/
def Stack.leftover (position : Nat) (s : Stack) : ParseError :=
  match s.fromBottom? 0 with
  | some ⟨.token .openGroup, span⟩ => .malformed span.start .unclosedGroup
  | _ =>
    match s.fromBottom? 1 with
    | some e => .malformed e.span.start (.unexpected e.category)
    | none => .malformed position .incomplete

/-- The filter that a reduced stack holds, the text being read up to a position. A single name
stands for equality with the first argument. -/
def Stack.finish (args : List Value) (position : Nat) (s : Stack) : Except ParseError Qualifier :=
  if 1 < s.length then .error (s.leftover position)
  else
    match s with
    | [] => .error .empty
    | ⟨.qualifier q, _⟩ :: _ => .ok q
    | ⟨.token (.identifier name), span⟩ :: _ =>
      match argument args 0 span.start with
      | .ok v => .ok (.property name ⟨.equals, v⟩)
      | .error e => .error e
    | e :: _ => .error (.malformed e.span.start (.notAQualifier e.category))

end Parsing

/-- The filter that a text stands for, each parameter replaced by its argument. -/
def parse (input : String) (args : List Value) : Except ParseError Qualifier :=
  match Stack.run args [] (Cursor.start input) with
  | .ok s => s.finish args (Cursor.start input).toEnd.position
  | .error e => .error e

end FilterLang
