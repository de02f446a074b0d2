/-! Texts and their characters: words up to case, sets of code points given by ranges and maps given
by runs, and white space. -/

namespace FilterLang.Text

/-! ### Words -/

/-- Equality up to the case of the ASCII letters; all other characters must agree exactly. -/
def sameWord (s t : String) : Bool := s.toList.map Char.toLower == t.toList.map Char.toLower

@[simp] theorem sameWord_self (s : String) : sameWord s s = true := by simp [sameWord]

theorem sameWord_comm (s t : String) : sameWord s t = sameWord t s := by
  simp only [sameWord, Bool.beq_comm]

/-! ### Sets of code points and maps of them -/

/-- Membership in a set of code points given by inclusive ranges. -/
def inRanges (ranges : List (Nat × Nat)) (c : Char) : Bool :=
  ranges.any fun (first, last) => first ≤ c.toNat && c.toNat ≤ last

/-- Every `step`-th code point from `first` to `last` is sent to the one `offset` further on. -/
structure Run where
  first : Nat
  last : Nat
  step : Nat
  offset : Int

namespace Run

def covers (r : Run) (code : Nat) : Bool :=
  r.first ≤ code && code ≤ r.last && (code - r.first) % r.step = 0

/-- The image of a character under a map that leaves all characters outside its runs alone. -/
def apply (runs : List Run) (c : Char) : Char :=
  match runs.find? (·.covers c.toNat) with
  | some r => Char.ofNat (c.toNat + r.offset).toNat
  | none => c

end Run

/-! ### White space -/

/-- The code points of the property `White_Space`. -/
def blankRanges : List (Nat × Nat) := [
  (9, 13), (32, 32), (133, 133), (160, 160), (5760, 5760), (8192, 8202), (8232, 8233),
  (8239, 8239), (8287, 8287), (12288, 12288)]

/-- A blank character separates tokens and is trimmed from texts read as numbers or dates. -/
def isBlank (c : Char) : Bool := inRanges blankRanges c

/-- The text without the blanks at its two ends. -/
def trim (cs : List Char) : List Char :=
  ((cs.dropWhile isBlank).reverse.dropWhile isBlank).reverse

end FilterLang.Text
