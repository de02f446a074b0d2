import FilterLang.Parsing.Parser

/-! The grammar of filters and its reader by recursive descent.

A filter is a sequence of terms with connectives between them, and a term is a path, possibly empty,
before a comparison or a filter in parentheses. `Derives` says for which filter tokens stand,
`readFilter` reads one from the front of a list of tokens, and `readAll_eq_some_iff` says that the
two agree. -/

namespace FilterLang.Parsing

/-- The value for which a token stands after an operator. -/
def operandValue? (args : List Value) : Token → Option Value
  | .constant v => some v
  | .parameter index => args[index]?
  | .identifier word => (booleanWord? word).map .bool
  | _ => none

/-- A filter at the end of a path; an empty path is none. -/
def underPath : List String → Qualifier → Qualifier
  | [], q => q
  | name :: names, q => .path (name :: names) q

/-- The tokens of the elements of a path. -/
def pathTokens (elements : List String) : List Token :=
  elements.flatMap fun name => [.identifier name, .separator]

/-- What the grammar derives. -/
inductive Phrase where
  /-- A comparison, or a filter in parentheses. -/
  | atom
  /-- An atom at the end of a path. -/
  | term
  /-- Terms with connectives between them. -/
  | filter

/-- The tokens that make a phrase, and the filter for which it stands. -/
inductive Derives (args : List Value) : Phrase → List Token → Qualifier → Prop
  | comparison (name : String) (c : Comparison) {t : Token} {v : Value}
    (h : operandValue? args t = some v) :
    Derives args .atom [.identifier name, .operator c, t] (.property name ⟨c, v⟩)
  | group {ts : List Token} {q : Qualifier} (h : Derives args .filter ts q) :
    Derives args .atom (.openGroup :: (ts ++ [.closeGroup])) q
  | path (elements : List String) {ts : List Token} {q : Qualifier} (h : Derives args .atom ts q) :
    Derives args .term (pathTokens elements ++ ts) (underPath elements q)
  | term {ts : List Token} {q : Qualifier} (h : Derives args .term ts q) : Derives args .filter ts q
  | join (c : Connective) {ls rs : List Token} {l r : Qualifier} (hl : Derives args .filter ls l)
    (hr : Derives args .term rs r) :
    Derives args .filter (ls ++ .connective c :: rs) (.join c l r)

/-- A filter read from the front of a list of tokens, and what it leaves. -/
structure Taken (ts : List Token) where
  qualifier : Qualifier
  rest : List Token
  rest_lt : rest.length < ts.length

mutual

/-- Reads a term; the elements of its path are those given and those read. -/
def readTerm (args : List Value) (elements : List String) (ts : List Token) : Option (Taken ts) :=
  match ts with
  | .identifier name :: .separator :: us =>
    match readTerm args (elements ++ [name]) us with
    | some ⟨q, rest, h⟩ => some ⟨q, rest, by simp only [List.length_cons]; omega⟩
    | none => none
  | .identifier name :: .operator c :: t :: us =>
    match operandValue? args t with
    | some v =>
      some ⟨underPath elements (.property name ⟨c, v⟩), us, by simp only [List.length_cons]; omega⟩
    | none => none
  | .openGroup :: us =>
    match readFilter args us with
    | some ⟨q, .closeGroup :: rest, h⟩ =>
      some ⟨underPath elements q, rest, by simp only [List.length_cons] at h ⊢; omega⟩
    | _ => none
  | _ => none
termination_by (ts.length, 0)

/-- Reads a filter: a term, and all that is joined to it. -/
def readFilter (args : List Value) (ts : List Token) : Option (Taken ts) :=
  match readTerm args [] ts with
  | some first => readMore args first
  | none => none
termination_by (ts.length, 2)
decreasing_by
  · exact Prod.Lex.right _ (by omega)
  · exact Prod.Lex.left _ _ first.rest_lt

/-- Reads the terms that are joined to a filter, from left to right. -/
def readMore (args : List Value) {ts : List Token} (left : Taken ts) : Option (Taken ts) :=
  match left with
  | ⟨l, .connective c :: us, h⟩ =>
    match readTerm args [] us with
    | some ⟨r, rest, h'⟩ =>
      readMore args ⟨.join c l r, rest, by simp only [List.length_cons] at h; omega⟩
    | none => none
  | left => some left
termination_by (left.rest.length, 1)
decreasing_by
  · exact Prod.Lex.left _ _ (Nat.lt_succ_self _)
  · exact Prod.Lex.left _ _ (Nat.lt_succ_of_lt h')

end

variable {args : List Value}

mutual

/-- What is read as a term is an atom at the end of a path. -/
theorem derives_of_readTerm {elements : List String} {ts : List Token} {taken : Taken ts}
    (h : readTerm args elements ts = some taken) :
    ∃ names us q, Derives args .atom us q ∧ ts = pathTokens names ++ us ++ taken.rest ∧
      taken.qualifier = underPath (elements ++ names) q := by
  rw [readTerm.eq_def] at h
  split at h
  · rename_i name us
    split at h
    · rename_i q rest hrest hread
      cases h
      obtain ⟨names, vs, q', hq', hts, hq⟩ := derives_of_readTerm hread
      exact ⟨name :: names, vs, q', hq', by simp [hts, pathTokens], by simpa using hq⟩
    · cases h
  · rename_i name c t us
    split at h
    · rename_i v hv
      cases h
      exact ⟨[], _, _, .comparison name c hv, rfl, by simp⟩
    · cases h
  · rename_i us
    split at h
    · rename_i q rest hrest hread
      cases h
      obtain ⟨vs, hq, hts⟩ := derives_of_readFilter hread
      exact ⟨[], _, q, .group hq, by simp [hts, pathTokens], by simp⟩
    · cases h
  · cases h
termination_by (ts.length, 0)

theorem derives_of_readFilter {ts : List Token} {taken : Taken ts}
    (h : readFilter args ts = some taken) :
    ∃ us, Derives args .filter us taken.qualifier ∧ ts = us ++ taken.rest := by
  rw [readFilter] at h
  split at h
  · rename_i first hfirst
    have hlt := first.rest_lt
    obtain ⟨names, us, q, hq, hts, hfq⟩ := derives_of_readTerm hfirst
    refine derives_of_readMore h (.term ?_) hts
    rw [hfq]
    exact .path names hq
  · cases h
termination_by (ts.length, 2)
decreasing_by
  · exact Prod.Lex.right _ (by omega)
  · exact Prod.Lex.left _ _ ‹_›

theorem derives_of_readMore {ts ls rest : List Token} {l : Qualifier}
    {hlt : rest.length < ts.length} {taken : Taken ts}
    (h : readMore args ⟨l, rest, hlt⟩ = some taken)
    (hl : Derives args .filter ls l) (hts : ts = ls ++ rest) :
    ∃ us, Derives args .filter us taken.qualifier ∧ ts = us ++ taken.rest := by
  rw [readMore.eq_def] at h
  split at h
  · rename_i l' c us _ heq
    obtain ⟨rfl, hus⟩ : l = l' ∧ rest = .connective c :: us := by simpa using heq
    have hlen : us.length < rest.length := by simp [hus]
    split at h
    · rename_i r rest' hrest hread
      obtain ⟨names, vs, q, hq, hrs, rfl⟩ := derives_of_readTerm hread
      exact derives_of_readMore h (.join c hl (.path names hq)) (by simp [hts, hus, hrs])
    · cases h
  · cases h
    exact ⟨ls, hl, hts⟩
termination_by (rest.length, 1)
decreasing_by all_goals exact Prod.Lex.left _ _ (by omega)

end

theorem readTerm_pathTokens {elements : List String} (names : List String)
    {ts us rest : List Token} {q : Qualifier}
    (h : ∃ hlt, readTerm args (elements ++ names) us = some ⟨q, rest, hlt⟩)
    (hts : ts = pathTokens names ++ us) :
    ∃ hlt, readTerm args elements ts = some ⟨q, rest, hlt⟩ := by
  induction names generalizing elements ts with
  | nil =>
    obtain rfl : ts = us := hts
    rwa [List.append_nil] at h
  | cons name names ih =>
    rw [List.append_cons] at h
    obtain ⟨hlt, h⟩ := ih h rfl
    obtain rfl : ts = .identifier name :: .separator :: (pathTokens names ++ us) := hts
    refine ⟨Nat.lt_add_right 2 hlt, ?_⟩
    rw [readTerm, h]

/-- What the reader finds where tokens start with a phrase. -/
def Found (args : List Value) (q : Qualifier) (ts rest : List Token) : Phrase → Prop
  | .atom => ∀ elements, ∃ h, readTerm args elements ts = some ⟨underPath elements q, rest, h⟩
  | .term => ∃ h, readTerm args [] ts = some ⟨q, rest, h⟩
  | .filter => ∃ h, readFilter args ts = readMore args ⟨q, rest, h⟩

theorem Derives.found {p : Phrase} {ts us : List Token} {q : Qualifier} (h : Derives args p us q)
    (rest : List Token) (hts : ts = us ++ rest) : Found args q ts rest p := by
  induction h generalizing ts rest with
  | @comparison name c t v hv =>
    intro elements
    obtain rfl : ts = .identifier name :: .operator c :: t :: rest := hts
    refine ⟨by simp only [List.length_cons]; omega, ?_⟩
    rw [readTerm, hv]
  | @group us q _ ih =>
    intro elements
    obtain rfl : ts = .openGroup :: (us ++ .closeGroup :: rest) := by simpa using hts
    obtain ⟨hlt, ih⟩ := ih (.closeGroup :: rest) rfl
    refine ⟨by simp only [List.length_cons] at hlt ⊢; omega, ?_⟩
    rw [readTerm, ih, readMore]
    exact nofun
  | path elements _ ih =>
    refine readTerm_pathTokens elements ?_ (by rw [hts, List.append_assoc])
    exact ih rest rfl elements
  | term _ ih =>
    obtain ⟨hlt, ih⟩ := ih rest hts
    exact ⟨hlt, by rw [readFilter, ih]⟩
  | @join c ls rs l r _ _ ihl ihr =>
    obtain rfl : ts = ls ++ .connective c :: (rs ++ rest) := by simpa using hts
    obtain ⟨hl, ihl⟩ := ihl (.connective c :: (rs ++ rest)) rfl
    obtain ⟨hr, ihr⟩ := ihr rest rfl
    refine ⟨by simp only [List.length_cons] at hr hl ⊢; omega, ?_⟩
    rw [ihl, readMore, ihr]

/-- The filter for which a whole list of tokens stands. -/
def readAll (args : List Value) (ts : List Token) : Option Qualifier :=
  match readFilter args ts with
  | some ⟨q, [], _⟩ => some q
  | _ => none

theorem readAll_eq_some_iff {ts : List Token} {q : Qualifier} :
    readAll args ts = some q ↔ Derives args .filter ts q := by
  constructor
  · intro h
    rw [readAll] at h
    split at h
    · rename_i q' _ hread
      cases h
      obtain ⟨us, hq, hts⟩ := derives_of_readFilter hread
      rwa [hts, List.append_nil]
    · cases h
  · intro h
    obtain ⟨hlt, hread⟩ := h.found [] (List.append_nil ts).symm
    rw [readAll, hread, readMore]
    exact nofun

end FilterLang.Parsing
