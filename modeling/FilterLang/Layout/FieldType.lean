import FilterLang.Layout.Lexeme

/-! The declared types of fields: which of them are optional. -/

namespace FilterLang.Layout

/-- Whether the first of the arguments between angle brackets is a type: no lifetime, constant,
named argument or bound. -/
def startsWithType : List Lexeme → Bool
  | [] | .text _ :: _ | .number :: _ | .literal :: _ | .lifetime :: _ => false
  | .group opening _ :: _ => opening != '{'
  | .mark c :: _ => c != '-' && c != ','
  | .colons :: _ => true
  | .word name :: rest =>
    let after := match rest with
      | .mark '<' :: rest | .colons :: .mark '<' :: rest => match Lexeme.readAngled 0 rest with
        | some (_, after) => after
        | none => []
      | rest => rest
    match after with
    | .mark '=' :: _ | .mark ':' :: _ => false
    | _ => name != "true" && name != "false"

/-- The last word of a path and its arguments between angle brackets, if there is nothing but a
path. `fuel` bounds its words. -/
def lastSegment? : (fuel : Nat) → List Lexeme → Option (String × List Lexeme)
  | fuel + 1, .word name :: rest =>
    match rest with
    | [] => some (name, [])
    | .colons :: .mark '<' :: rest | .mark '<' :: rest =>
      match Lexeme.readAngled 0 rest with
      | some (arguments, []) => some (name, arguments)
      | some (_, .colons :: rest) => lastSegment? fuel rest
      | _ => none
    | .colons :: rest => lastSegment? fuel rest
    | _ => none
  | _, _ => none

/-- Whether a type is a path that ends in `Option` with a type as its first argument. -/
def isOption (type : List Lexeme) : Bool :=
  let path := match type with
    | .word "dyn" :: _ | .word "impl" :: _ => []
    | .colons :: rest => rest
    | .mark '<' :: rest => match Lexeme.readAngled 0 rest with
      | some (_, .colons :: rest) => rest
      | _ => []
    | path => path
  match lastSegment? path.length path with
  | some ("Option", arguments) => startsWithType arguments
  | _ => false

end FilterLang.Layout
