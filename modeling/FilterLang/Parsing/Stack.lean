import FilterLang.Token.Basic

/-! The stack of the parser and its reductions.

Tokens are shifted onto a stack. Whenever the topmost entries have the categories of a rule, the
rule replaces them by one entry; of several rules the first in the list `Rule.all` is taken. -/

namespace FilterLang.Parsing

/-! ### Stacks -/

/-- What an entry of the stack holds. -/
inductive Item where
  | token (t : Token)
  | predicate (p : Predicate)
  | qualifier (q : Qualifier)
  /-- A path without its end; the outermost relationship comes first. -/
  | path (elements : List String)

/-- What rules look at. -/
inductive Category where
  | identifier
  | operator
  | connective
  | constant
  | parameter
  | separator
  | openGroup
  | closeGroup
  | predicate
  | qualifier
  | path
  deriving DecidableEq

/-- The name of a category in messages. -/
def Category.name : Category → String
  | identifier => "identifier"
  | operator => "operator"
  | connective => "conjunction"
  | constant => "constant"
  | parameter => "parameter reference"
  | separator => "'.'"
  | openGroup => "'('"
  | closeGroup => "')'"
  | predicate => "predicate"
  | qualifier => "qualifier"
  | path => "path"

def Item.category : Item → Category
  | token (.identifier _) => .identifier
  | token (.operator _) => .operator
  | token (.connective _) => .connective
  | token (.constant _) => .constant
  | token (.parameter _) => .parameter
  | token .separator => .separator
  | token .openGroup => .openGroup
  | token .closeGroup => .closeGroup
  | predicate _ => .predicate
  | qualifier _ => .qualifier
  | path _ => .path

/-- An item with the part of the text that it covers. -/
structure Entry where
  item : Item
  span : Span

def Entry.category (e : Entry) : Category := e.item.category

/-- Entries, the topmost first. -/
abbrev Stack := List Entry

/-- Why the tokens do not reduce to one filter. -/
inductive Fault where
  | unclosedGroup
  /-- An entry of this category stands where no rule takes it up. -/
  | unexpected (found : Category)
  /-- All that is left is an entry of this category. -/
  | notAQualifier (found : Category)
  /-- A rule takes up an entry of the first category and finds one of another, or none. -/
  | mismatch (wanted : Category) (found : Option Category)
  /-- An entry of this category does not hold what such an entry holds. -/
  | noContent (wanted : Category)
  /-- More than one entry is left, but not a second one. -/
  | incomplete
  deriving DecidableEq

end Parsing

/-- Why a text is not a filter. -/
inductive ParseError where
  | lex (e : LexError)
  /-- The text has no token. -/
  | empty
  | malformed (position : Nat) (fault : Parsing.Fault)
  /-- A bare word other than `true` and `false` is compared with. -/
  | invalidBoolean (word : String) (position : Nat)
  | argumentOutOfRange (index position count : Nat)
  deriving DecidableEq

namespace Parsing

def Fault.message : Fault → String
  | unclosedGroup => "unclosed '('"
  | unexpected found => "unexpected " ++ found.name
  | notAQualifier found => "expected a qualifier, found " ++ found.name
  | mismatch wanted (some found) => "expected " ++ wanted.name ++ ", found " ++ found.name
  | mismatch wanted none => "expected " ++ wanted.name ++ ", found nothing"
  | noContent wanted => "expected " ++ wanted.name
  | incomplete => "incomplete qualifier"

/-! ### Rules -/

/-- A reduction. -/
inductive Rule where
  /-- A filter in parentheses. -/
  | group
  /-- Two filters with a connective between them. -/
  | join
  /-- A name with a predicate. -/
  | property
  /-- An operator with a constant. -/
  | constantPredicate
  /-- An operator with a parameter. -/
  | argumentPredicate
  /-- An operator with a bare word. -/
  | booleanPredicate
  /-- A path with a filter at its end. -/
  | pathEnd
  /-- A path with one more element. -/
  | pathStep
  /-- The first element of a path. -/
  | pathStart
  deriving DecidableEq

namespace Rule

/-- The rules in the order in which they are tried. -/
def all : List Rule :=
  [group, join, property, constantPredicate, argumentPredicate, booleanPredicate, pathEnd, pathStep,
    pathStart]

/-- The categories that a rule replaces, the lowest first. -/
def pattern : Rule → List Category
  | group => [.openGroup, .qualifier, .closeGroup]
  | join => [.qualifier, .connective, .qualifier]
  | property => [.identifier, .predicate]
  | constantPredicate => [.operator, .constant]
  | argumentPredicate => [.operator, .parameter]
  | booleanPredicate => [.operator, .identifier]
  | pathEnd => [.path, .qualifier]
  | pathStep => [.path, .identifier, .separator]
  | pathStart => [.identifier, .separator]

/-- Whether the topmost entries have the categories of a rule. -/
def fits (r : Rule) (s : Stack) : Bool :=
  (s.take r.pattern.length).map Entry.category == r.pattern.reverse

end Rule

/-- The rule to apply, if one fits. -/
def Stack.rule? (s : Stack) : Option Rule := Rule.all.find? (·.fits s)

/-- The argument with an index; the position is that of the reference to it. -/
def argument (args : List Value) (index position : Nat) : Except ParseError Value :=
  match args[index]? with
  | some v => .ok v
  | none => .error (.argumentOutOfRange index position args.length)

/-- The boolean that a bare word stands for, in any case. -/
def booleanWord? (word : String) : Option Bool :=
  if Text.sameWord word "true" then some true
  else if Text.sameWord word "false" then some false
  else none

/-- The boolean that a bare word at a position stands for. -/
def boolean (word : String) (position : Nat) : Except ParseError Bool :=
  match booleanWord? word with
  | some b => .ok b
  | none => .error (.invalidBoolean word position)

/-! ### Pops -/

section Pops

/-- What takes entries off the stack. -/
abbrev Pops := StateT Stack (Except ParseError)

/-- Takes off the topmost entry, which has to be of a category. -/
def pop (wanted : Category) : Pops Entry
  | [] => .error (.malformed 0 (.mismatch wanted none))
  | e :: s =>
    if e.category = wanted then .ok (e, s)
    else .error (.malformed e.span.start (.mismatch wanted (some e.category)))

/-- Takes off the topmost entry, for what it holds and its span. -/
def popContent {α : Type} (wanted : Category) (content? : Item → Option α) : Pops (α × Span) := do
  let e ← pop wanted
  match content? e.item with
  | some content => return (content, e.span)
  | none => throw (.malformed e.span.start (.noContent wanted))

def popIdentifier : Pops (String × Span) :=
  popContent .identifier fun | .token (.identifier name) => some name | _ => none

def popOperator : Pops (Comparison × Span) :=
  popContent .operator fun | .token (.operator c) => some c | _ => none

def popConnective : Pops (Connective × Span) :=
  popContent .connective fun | .token (.connective c) => some c | _ => none

def popConstant : Pops (Value × Span) :=
  popContent .constant fun | .token (.constant v) => some v | _ => none

def popParameter : Pops (Nat × Span) :=
  popContent .parameter fun | .token (.parameter index) => some index | _ => none

def popPredicate : Pops (Predicate × Span) :=
  popContent .predicate fun | .predicate p => some p | _ => none

def popQualifier : Pops (Qualifier × Span) :=
  popContent .qualifier fun | .qualifier q => some q | _ => none

def popPath : Pops (List String × Span) :=
  popContent .path fun | .path elements => some elements | _ => none

/-- Takes off the entries of a rule and gives the one that it puts in their place. -/
def Rule.reduced (args : List Value) : Rule → Pops Entry
  | group => do
    let close ← pop .closeGroup
    let (q, _) ← popQualifier
    let opening ← pop .openGroup
    return ⟨.qualifier q, opening.span.merge close.span⟩
  | join => do
    let (r, right) ← popQualifier
    let (c, _) ← popConnective
    let (l, left) ← popQualifier
    return ⟨.qualifier (.join c l r), left.merge right⟩
  | property => do
    let (p, right) ← popPredicate
    let (name, left) ← popIdentifier
    return ⟨.qualifier (.property name p), left.merge right⟩
  | constantPredicate => do
    let (v, right) ← popConstant
    let (c, left) ← popOperator
    return ⟨.predicate ⟨c, v⟩, left.merge right⟩
  | argumentPredicate => do
    let (index, right) ← popParameter
    let (c, left) ← popOperator
    let v ← argument args index right.start
    return ⟨.predicate ⟨c, v⟩, left.merge right⟩
  | booleanPredicate => do
    let (word, right) ← popIdentifier
    let (c, left) ← popOperator
    let b ← boolean word right.start
    return ⟨.predicate ⟨c, .bool b⟩, left.merge right⟩
  | pathEnd => do
    let (q, right) ← popQualifier
    let (elements, left) ← popPath
    return ⟨.qualifier (.path elements q), left.merge right⟩
  | pathStep => do
    let separator ← pop .separator
    let (name, _) ← popIdentifier
    let (elements, left) ← popPath
    return ⟨.path (elements ++ [name]), left.merge separator.span⟩
  | pathStart => do
    let separator ← pop .separator
    let (name, left) ← popIdentifier
    return ⟨.path [name], left.merge separator.span⟩

/-- Replaces the topmost entries by one, as a rule says. -/
def Rule.apply (args : List Value) (r : Rule) (s : Stack) : Except ParseError Stack :=
  (r.reduced args s).map fun (e, s) => e :: s

/-- At least some entries are taken off. -/
def Takes {α : Type} (n : Nat) (x : Pops α) : Prop :=
  ∀ s a s', x s = .ok (a, s') → s'.length + n ≤ s.length

variable {α β : Type}

theorem Takes.bind {m n : Nat} {x : Pops α} {f : α → Pops β} (hx : Takes m x)
    (hf : ∀ a, Takes n (f a)) : Takes (m + n) (x >>= f) := by
  intro s b s' h
  change Except.bind (x s) (fun p => f p.1 p.2) = _ at h
  cases hs : x s with
  | error e => rw [hs] at h; cases h
  | ok p =>
    rw [hs] at h
    have hx := hx s p.1 p.2 hs
    have hf := hf p.1 p.2 b s' h
    omega

theorem takes_pure (a : α) : Takes 0 (pure a) := by
  rintro s _ _ ⟨⟩
  exact Nat.le_refl _

theorem takes_throw (n : Nat) (e : ParseError) : Takes n (throw e : Pops α) := nofun

theorem takes_pop (wanted : Category) : Takes 1 (pop wanted) := by
  intro s e s' h
  rw [pop.eq_def] at h
  split at h
  · cases h
  · split at h
    · cases h
      exact Nat.le_refl _
    · cases h

theorem takes_popContent (wanted : Category) (content? : Item → Option α) :
    Takes 1 (popContent wanted content?) := by
  change Takes (1 + 0) _
  refine (takes_pop wanted).bind fun e => ?_
  split
  · exact takes_pure _
  · exact takes_throw 0 _

theorem takes_lift (x : Except ParseError α) : Takes 0 (liftM x : Pops α) := by
  intro s a s' h
  cases x with
  | error e => cases h
  | ok b =>
    cases h
    exact Nat.le_refl _

end Pops

/-! ### Reduction -/

/-- A rule takes off as many entries as it has categories. -/
theorem Rule.takes_reduced (args : List Value) (r : Rule) :
    Takes r.pattern.length (r.reduced args) := by
  cases r with
  | group =>
    exact (takes_pop _).bind fun _ => (takes_popContent _ _).bind fun _ =>
      (takes_pop _).bind fun _ => takes_pure _
  | join =>
    exact (takes_popContent _ _).bind fun _ => (takes_popContent _ _).bind fun _ =>
      (takes_popContent _ _).bind fun _ => takes_pure _
  | property | constantPredicate | pathEnd =>
    exact (takes_popContent _ _).bind fun _ => (takes_popContent _ _).bind fun _ => takes_pure _
  | argumentPredicate | booleanPredicate =>
    exact (takes_popContent _ _).bind fun _ => (takes_popContent _ _).bind fun _ =>
      (takes_lift _).bind fun _ => takes_pure _
  | pathStep =>
    exact (takes_pop _).bind fun _ => (takes_popContent _ _).bind fun _ =>
      (takes_popContent _ _).bind fun _ => takes_pure _
  | pathStart =>
    exact (takes_pop _).bind fun _ => (takes_popContent _ _).bind fun _ => takes_pure _

/-- A reduction makes the stack smaller. -/
theorem Rule.length_apply_lt {args : List Value} {r : Rule} {s s' : Stack}
    (h : r.apply args s = .ok s') : s'.length < s.length := by
  rw [apply] at h
  cases hs : r.reduced args s with
  | error e => rw [hs] at h; cases h
  | ok p =>
    rw [hs] at h
    cases h
    have htakes := r.takes_reduced args s p.1 p.2 hs
    have hpattern : 2 ≤ r.pattern.length := by cases r <;> decide
    rw [List.length_cons]
    omega

/-- Reduces as long as a rule fits. -/
def Stack.reduce (args : List Value) (s : Stack) : Except ParseError Stack :=
  match s.rule? with
  | none => .ok s
  | some r =>
    match _h : r.apply args s with
    | .ok s' => Stack.reduce args s'
    | .error e => .error e
termination_by s.length
decreasing_by exact Rule.length_apply_lt _h

end Parsing

end FilterLang
