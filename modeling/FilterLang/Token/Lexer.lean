import FilterLang.Text.Basic
import FilterLang.Text.Letter
import FilterLang.Text.Numeral
import FilterLang.Token.Basic

/-! Reading tokens from a filter text.

`scan` reads one lexeme from the front of a list of characters. A `Cursor` is a place in a text;
`Cursor.next` moves it over blanks and one lexeme. After an error the cursor is at the end. -/

namespace FilterLang

namespace Token

open Text

/-- What stands at the front of a text that starts with a lexeme. -/
inductive Scan where
  /-- A token, the characters it is written with, and the text after them. -/
  | token (t : Token) (lexeme rest : List Char)
  | fault (cause : LexError.Cause)

/-- A character that may start a word. -/
def startsWord (c : Char) : Bool := isLetter c || c == '_'

/-- A character that may continue a word. -/
def continuesWord (c : Char) : Bool := isLetter c || isNumeral c || c == '_'

def scanWord (c : Char) (rest : List Char) : Scan :=
  let lexeme := c :: rest.takeWhile continuesWord
  .token (ofWord (String.ofList lexeme)) lexeme (rest.dropWhile continuesWord)

def scanInteger (c : Char) (rest : List Char) : Scan :=
  let lexeme := c :: rest.takeWhile Char.isDigit
  match int64OfInt? (digitsValue lexeme) with
  | some i => .token (constant (.int i)) lexeme (rest.dropWhile Char.isDigit)
  | none => .fault (.invalidInteger (String.ofList lexeme))

/-- An operator takes a following `=` into its lexeme, unless it is `=` itself. -/
def operatorLexeme (c : Char) (rest : List Char) : List Char × List Char :=
  if c ≠ '=' ∧ rest.head? = some '=' then ([c, '='], rest.tail) else ([c], rest)

def scanOperator (c : Char) (rest : List Char) : Scan :=
  let (lexeme, rest) := operatorLexeme c rest
  match Comparison.ofSymbol? (String.ofList lexeme) with
  | some comparison => .token (operator comparison) lexeme rest
  | none => .fault (.unexpectedCharacter c)

/-- The characters up to the closing quote, the characters they are written with (the quote
included), and the text after it. A backslash stands for the character after it. -/
def readQuoted? : List Char → Option (List Char × List Char × List Char)
  | [] => none
  | '\'' :: rest => some ([], ['\''], rest)
  | ['\\'] => none
  | '\\' :: c :: rest =>
    (readQuoted? rest).map fun (cs, lexeme, rest) => (c :: cs, '\\' :: c :: lexeme, rest)
  | c :: rest => (readQuoted? rest).map fun (cs, lexeme, rest) => (c :: cs, c :: lexeme, rest)

/-- Quoted text, the opening quote already read. -/
def scanString (rest : List Char) : Scan :=
  match readQuoted? rest with
  | some (cs, lexeme, rest) => .token (constant (.text (String.ofList cs))) ('\'' :: lexeme) rest
  | none => .fault .unterminatedString

/-- Digits and a closing brace, the opening brace already read. An index fits in 64 bits. -/
def scanParameter (rest : List Char) : Scan :=
  let digits := rest.takeWhile Char.isDigit
  match rest.dropWhile Char.isDigit with
  | '}' :: rest =>
    if digits.isEmpty || 0xffffffffffffffff < digitsValue digits then .fault .malformedParameter
    else .token (parameter (digitsValue digits)) ('{' :: (digits ++ ['}'])) rest
  | _ => .fault .malformedParameter

/-- Reads the lexeme that starts with the given character. -/
def scan (c : Char) (rest : List Char) : Scan :=
  if c = '(' then .token openGroup [c] rest
  else if c = ')' then .token closeGroup [c] rest
  else if c = '.' then .token separator [c] rest
  else if c = '=' ∨ c = '<' ∨ c = '>' ∨ c = '!' then scanOperator c rest
  else if c = '\'' then scanString rest
  else if c = '{' then scanParameter rest
  else if c.isDigit then scanInteger c rest
  else if startsWord c then scanWord c rest
  else .fault (.unexpectedCharacter c)

/-- Quoted text is read without loss. -/
theorem readQuoted?_append {cs value lexeme rest : List Char}
    (h : readQuoted? cs = some (value, lexeme, rest)) : cs = lexeme ++ rest := by
  fun_induction readQuoted? cs generalizing value lexeme rest with
  | case1 => cases h
  | case2 =>
    cases h
    rfl
  | case3 => cases h
  | case4 c tail ih =>
    obtain ⟨⟨value', lexeme', rest'⟩, hread, heq⟩ := Option.map_eq_some_iff.mp h
    cases heq
    rw [ih hread]
    rfl
  | case5 c tail _ _ _ ih =>
    obtain ⟨⟨value', lexeme', rest'⟩, hread, heq⟩ := Option.map_eq_some_iff.mp h
    cases heq
    rw [ih hread]
    rfl

/-- A scanner splits the text it is given; nothing is lost. -/
def Scan.Splits (s : Scan) (text : List Char) : Prop :=
  ∀ t lexeme rest, s = .token t lexeme rest → text = lexeme ++ rest ∧ lexeme ≠ []

theorem Scan.splits_fault (cause : LexError.Cause) (text : List Char) :
    (Scan.fault cause).Splits text := by
  intro t lexeme rest h
  cases h

theorem Scan.splits_token (t : Token) {lexeme rest text : List Char}
    (h : text = lexeme ++ rest) (hne : lexeme ≠ []) : (Scan.token t lexeme rest).Splits text := by
  intro t' lexeme' rest' heq
  cases heq
  exact ⟨h, hne⟩

/-- A single character is a lexeme. -/
theorem Scan.splits_singleton (t : Token) (c : Char) (rest : List Char) :
    (Scan.token t [c] rest).Splits (c :: rest) :=
  splits_token t rfl (List.cons_ne_nil c [])

/-- A lexeme takes the characters with a property that follow its first one. -/
theorem Scan.splits_takeWhile (t : Token) (p : Char → Bool) (c : Char) (rest : List Char) :
    (Scan.token t (c :: rest.takeWhile p) (rest.dropWhile p)).Splits (c :: rest) := by
  refine splits_token t ?_ (List.cons_ne_nil c _)
  rw [List.cons_append, List.takeWhile_append_dropWhile]

theorem scanWord_splits (c : Char) (rest : List Char) : (scanWord c rest).Splits (c :: rest) :=
  Scan.splits_takeWhile _ continuesWord c rest

theorem scanInteger_splits (c : Char) (rest : List Char) :
    (scanInteger c rest).Splits (c :: rest) := by
  unfold scanInteger
  dsimp only
  split
  · exact Scan.splits_takeWhile _ Char.isDigit c rest
  · exact Scan.splits_fault _ _

theorem operatorLexeme_append (c : Char) (rest : List Char) :
    (operatorLexeme c rest).1 ++ (operatorLexeme c rest).2 = c :: rest := by
  unfold operatorLexeme
  split
  · rename_i h
    obtain ⟨tail, rfl⟩ := List.head?_eq_some_iff.mp h.2
    rfl
  · rfl

theorem operatorLexeme_ne_nil (c : Char) (rest : List Char) : (operatorLexeme c rest).1 ≠ [] := by
  unfold operatorLexeme
  split
  · exact List.cons_ne_nil c ['=']
  · exact List.cons_ne_nil c []

theorem scanOperator_splits (c : Char) (rest : List Char) :
    (scanOperator c rest).Splits (c :: rest) := by
  unfold scanOperator
  dsimp only
  split
  · exact Scan.splits_token _ (operatorLexeme_append c rest).symm (operatorLexeme_ne_nil c rest)
  · exact Scan.splits_fault _ _

theorem scanString_splits (rest : List Char) : (scanString rest).Splits ('\'' :: rest) := by
  unfold scanString
  split
  · rename_i hread
    refine Scan.splits_token _ ?_ (List.cons_ne_nil _ _)
    rw [readQuoted?_append hread]
    rfl
  · exact Scan.splits_fault _ _

theorem scanParameter_splits (rest : List Char) : (scanParameter rest).Splits ('{' :: rest) := by
  unfold scanParameter
  dsimp only
  split
  · rename_i hdrop
    split
    · exact Scan.splits_fault _ _
    · refine Scan.splits_token _ ?_ (List.cons_ne_nil _ _)
      have h := List.takeWhile_append_dropWhile (p := Char.isDigit) (l := rest)
      rw [hdrop] at h
      rw [List.cons_append, List.append_assoc, List.singleton_append, h]
  · exact Scan.splits_fault _ _

/-- Scanning loses nothing, and a lexeme has at least one character. -/
theorem scan_splits (c : Char) (rest : List Char) : (scan c rest).Splits (c :: rest) := by
  unfold scan
  split
  · exact Scan.splits_singleton _ c rest
  split
  · exact Scan.splits_singleton _ c rest
  split
  · exact Scan.splits_singleton _ c rest
  split
  · exact scanOperator_splits c rest
  split
  · rename_i h
    subst h
    exact scanString_splits rest
  split
  · rename_i h
    subst h
    exact scanParameter_splits rest
  split
  · exact scanInteger_splits c rest
  split
  · exact scanWord_splits c rest
  · exact Scan.splits_fault _ _

end Token

/-- The number of bytes that characters take. -/
def byteLength (cs : List Char) : Nat := cs.foldr (fun c n => c.utf8Size + n) 0

/-- A place in a text: its byte offset, and the characters after it. -/
structure Cursor where
  input : String
  position : Nat
  rest : List Char
  deriving DecidableEq

/-- What a cursor moved over. -/
inductive Cursor.Step where
  | token (t : PlacedToken)
  | fault (e : LexError)
  | finished
  deriving DecidableEq

namespace Cursor

/-- The start of a text. -/
def start (input : String) : Cursor := ⟨input, 0, input.toList⟩

/-- The end of the text. -/
def toEnd (c : Cursor) : Cursor := ⟨c.input, byteLength c.input.toList, []⟩

/-- Moves over blanks and one lexeme. -/
def next (c : Cursor) : Step × Cursor :=
  let blanks := c.rest.takeWhile Text.isBlank
  let start := c.position + byteLength blanks
  match c.rest.dropWhile Text.isBlank with
  | [] => (.finished, ⟨c.input, start, []⟩)
  | first :: rest =>
    match Token.scan first rest with
    | .token t lexeme rest =>
      let stop := start + byteLength lexeme
      (.token ⟨t, ⟨start, stop⟩⟩, ⟨c.input, stop, rest⟩)
    | .fault cause => (.fault ⟨cause, start, c.input⟩, c.toEnd)

/-- A token takes at least one character. -/
theorem rest_length_lt {c c' : Cursor} {t : PlacedToken} (h : c.next = (.token t, c')) :
    c'.rest.length < c.rest.length := by
  have hd : (c.rest.dropWhile Text.isBlank).length ≤ c.rest.length :=
    (List.dropWhile_sublist _).length_le
  unfold next at h
  dsimp only at h
  split at h
  · cases h
  · rename_i first rest heq
    split at h
    · rename_i lexeme rest' hscan
      obtain ⟨hsplit, hne⟩ := Token.scan_splits first rest _ _ _ hscan
      cases h
      rw [heq, hsplit, List.length_append] at hd
      have hpos := List.length_pos_iff.mpr hne
      dsimp only
      omega
    · cases h

/-- The tokens from a place to the end of the text, or the first error. -/
def tokens (c : Cursor) : Except LexError (List PlacedToken) :=
  match _h : c.next with
  | (.finished, _) => .ok []
  | (.fault e, _) => .error e
  | (.token t, c') => (c'.tokens).map (t :: ·)
termination_by c.rest.length
decreasing_by exact rest_length_lt _h

end Cursor

end FilterLang
