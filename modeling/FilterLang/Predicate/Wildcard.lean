import FilterLang.Text.Fold

/-! Wildcard patterns: `%` stands for any run of characters, everything else for itself up to case.

A pattern is cut at its wildcards. The first segment must start the text, the last one must end it,
and each segment between is taken at its first place in what is left. Patterns are compiled by an
engine, which may refuse one; what it refuses is left open. -/

namespace FilterLang.Wildcard

/-- The engine that compiles patterns: its complaint about a pattern, if it refuses it. -/
class Engine where
  refusal? : String → Option String

/-- What is left of a text after a prefix. -/
def afterPrefix? : List Char → List Char → Option (List Char)
  | [], text => some text
  | _ :: _, [] => none
  | c :: segment, d :: text => if c = d then afterPrefix? segment text else none

/-- What is left of a text after the first place of a segment in it. -/
def afterFirst? (segment : List Char) : List Char → Option (List Char)
  | [] => afterPrefix? segment []
  | d :: text =>
    match afterPrefix? segment (d :: text) with
    | some rest => some rest
    | none => afterFirst? segment text

/-- Whether a text fits segments of which each follows a wildcard. -/
def matchesAfterWildcard : List (List Char) → List Char → Bool
  | [], _ => true
  | [last], text => last.isSuffixOf text
  | segment :: more, text =>
    match afterFirst? segment text with
    | some rest => matchesAfterWildcard more rest
    | none => false

/-- Whether a text fits segments of which the first stands at the start. -/
def matchesSegments : List (List Char) → List Char → Bool
  | [], text => text.isEmpty
  | [only], text => only == text
  | first :: more, text =>
    match afterPrefix? first text with
    | some rest => matchesAfterWildcard more rest
    | none => false

/-- Whether a whole text fits a pattern, up to simple case folding. -/
def isMatch (pattern text : String) : Bool :=
  matchesSegments ((pattern.toList.splitOn '%').map (·.map Text.fold))
    (text.toList.map Text.fold)

end FilterLang.Wildcard
