import FilterLang.Proofs.Parsing.Acceptance
import FilterLang.Proofs.Token.Lexing

/-! Reading back the text of a filter.

`Qualifier.reread` says what becomes of a filter that is written and parsed again: columns turn into
properties, values without a literal of their own into text, paths that follow each other into one,
and clauses into what joins their children from the left. Texts are related to the phrases of the
grammar by `Writes`, in front of any text that a lexeme could not run into. Main statement:
`parse_display`. -/

namespace FilterLang

open Parsing Text Token

/-- The value that is read where a value was written. -/
def Value.reread : Value → Value
  | null => null
  | bool b => bool b
  | int i => if 0 ≤ i.toInt then int i else text (display (int i))
  | v => text v.display

/-- The token for which the literal of a value stands. -/
def Value.literalToken : Value → Token
  | bool b => .identifier (display (bool b))
  | v => .constant v.reread

theorem Value.operandValue?_literalToken (args : List Value) (v : Value) :
    operandValue? args v.literalToken = some v.reread := by
  cases v with
  | bool b => cases b <;> rfl
  | _ => rfl

theorem int64OfInt?_toInt (i : Int64) : int64OfInt? i.toInt = some i := by
  rw [int64OfInt?, if_pos ⟨i.le_toInt, Int.le_of_lt_add_one i.toInt_lt⟩, Int64.ofInt_toInt]

theorem Lexes.literal (v : Value) {rest : List Char} {ts : List Token} (hrest : Delimited rest)
    (h : Lexes rest ts) : Lexes (v.literal.toList ++ rest) (v.literalToken :: ts) := by
  cases v with
  | null => exact word (by decide) hrest h
  | bool b =>
    cases b with
    | true => exact word (by decide) hrest h
    | false => exact word (by decide) hrest h
  | int i =>
    rw [Value.literal, Value.literalToken, Value.reread]
    · split
      · rename_i hi
        rw [Value.display, String.toList_ofList, intText, if_neg (Int.not_lt.mpr hi)]
        refine natural ?_ hrest h
        rw [Int.natAbs_of_nonneg hi, int64OfInt?_toInt]
      · exact quote _ h
    · nofun
  | float x => exact quote _ h
  | text s => exact quote _ h
  | dateTime t => exact quote _ h
  | bytes b => exact quote _ h

namespace Qualifier

/-- A filter whose names are read as names, without empty paths and clauses. -/
inductive Writable : Qualifier → Prop
  | column {name : String} (hname : IsName name) (p : Predicate) : Writable (.column name p)
  | property {name : String} (hname : IsName name) (p : Predicate) : Writable (.property name p)
  | path {elements : List String} (hne : elements ≠ []) (hnames : ∀ e ∈ elements, IsName e)
    {target : Qualifier} (h : Writable target) : Writable (.path elements target)
  | clause (c : Connective) {children : List Qualifier} (hne : children ≠ [])
    (h : ∀ q ∈ children, Writable q) : Writable (.clause c children)

theorem size_pos (q : Qualifier) : 0 < q.size := by
  cases q <;> simp only [size] <;> omega

mutual

/-- What is read where a filter was written. -/
def reread : Qualifier → Qualifier
  | column name p => property name ⟨p.comparison, p.operand.reread⟩
  | property name p => property name ⟨p.comparison, p.operand.reread⟩
  | path elements (path more target) => (path (elements ++ more) target).reread
  | path elements target => path elements target.reread
  | clause c [] => clause c []
  | clause c (first :: others) => rereadOnto c first.reread others
termination_by q => (q.size, 0)
decreasing_by
  all_goals exact Prod.Lex.left _ _ (by simp only [size, sizes]; omega)

/-- What is read where more children of a clause follow what was read. -/
def rereadOnto (c : Connective) (left : Qualifier) : List Qualifier → Qualifier
  | [] => left
  | q :: others => rereadOnto c (join c left q.reread) others
termination_by qs => (sizes qs, 1)
decreasing_by
  · exact Prod.Lex.right' _ (Nat.le_add_right ..) Nat.zero_lt_one
  · exact Prod.Lex.left _ _ (by have := q.size_pos; simp only [sizes]; omega)

end

end Qualifier

/-- A text that stands for a phrase, whatever delimited text follows it. -/
def Writes (args : List Value) (p : Phrase) (text : String) (q : Qualifier) : Prop :=
  ∃ ts, Derives args p ts q ∧ ∀ rest us, Delimited rest → Lexes rest us →
    Lexes (text.toList ++ rest) (ts ++ us)

namespace Writes

variable {args : List Value}

theorem leaf {name : String} (hname : IsName name) (p : Predicate) :
    Writes args .atom (Qualifier.leafText name p)
      (.property name ⟨p.comparison, p.operand.reread⟩) := by
  refine ⟨_, .comparison name p.comparison (p.operand.operandValue?_literalToken args), ?_⟩
  intro rest us hrest h
  have hvalue := Lexes.operator p.comparison (Lexes.literal p.operand hrest h)
  have hleaf := Lexes.name hname (delimited_cons (by decide)) hvalue.space
  simpa [Qualifier.leafText, Predicate.display] using hleaf

theorem group {text : String} {q : Qualifier} (h : Writes args .filter text q) :
    Writes args .atom ("(" ++ text ++ ")") q := by
  obtain ⟨ts, hq, hlex⟩ := h
  refine ⟨_, .group hq, ?_⟩
  intro rest us hrest h
  have hgroup := (hlex _ _ (delimited_cons (by decide)) h.closeGroup).openGroup
  simpa using hgroup

theorem lexes_dotted {elements : List String} (hne : elements ≠ [])
    (hnames : ∀ e ∈ elements, IsName e) {rest : List Char} {us : List Token} (h : Lexes rest us) :
    Lexes ((Qualifier.dotted elements).toList ++ '.' :: rest) (pathTokens elements ++ us) := by
  induction elements with
  | nil => exact (hne rfl).elim
  | cons name names ih =>
    obtain ⟨hname, hnames⟩ := List.forall_mem_cons.mp hnames
    cases names with
    | nil =>
      have hlast := Lexes.name hname (delimited_cons (by decide)) h.separator
      simpa [Qualifier.dotted, pathTokens] using hlast
    | cons name' names =>
      have hmore := (ih (List.cons_ne_nil _ _) hnames).separator
      have hfirst := Lexes.name hname (delimited_cons (by decide)) hmore
      simpa [Qualifier.dotted, pathTokens] using hfirst

theorem path {elements : List String} (hne : elements ≠ []) (hnames : ∀ e ∈ elements, IsName e)
    {text : String} {q : Qualifier} (h : Writes args .atom text q) :
    Writes args .term (Qualifier.dotted elements ++ "." ++ text) (.path elements q) := by
  obtain ⟨ts, hq, hlex⟩ := h
  have hpath := Derives.path elements hq
  obtain ⟨name, names, rfl⟩ := List.exists_cons_of_ne_nil hne
  refine ⟨_, hpath, ?_⟩
  intro rest us hrest h
  have hdotted := lexes_dotted hne hnames (hlex rest us hrest h)
  simpa using hdotted

theorem filter_of_atom {text : String} {q : Qualifier} (h : Writes args .atom text q) :
    Writes args .filter text q := by
  obtain ⟨ts, hq, hlex⟩ := h
  exact ⟨ts, .term (.path [] hq), hlex⟩

theorem filter_of_term {text : String} {q : Qualifier} (h : Writes args .term text q) :
    Writes args .filter text q := by
  obtain ⟨ts, hq, hlex⟩ := h
  exact ⟨ts, .term hq, hlex⟩

theorem join (c : Connective) {left right : String} {l r : Qualifier}
    (hl : Writes args .filter left l) (hr : Writes args .atom right r) :
    Writes args .filter (left ++ (" " ++ c.keyword ++ " ") ++ right) (.join c l r) := by
  obtain ⟨ls, hl, hleft⟩ := hl
  obtain ⟨rs, hr, hright⟩ := hr
  refine ⟨_, .join c hl (.path [] hr), ?_⟩
  intro rest us hrest h
  have hright := (hright rest us hrest h).space
  have hconnective := Lexes.connective c (delimited_cons (by decide)) hright
  have hjoin := hleft _ _ (delimited_cons (by decide)) hconnective.space
  simpa [pathTokens] using hjoin

end Writes

namespace Qualifier

theorem dotted_append {elements more : List String} (hne : elements ≠ []) (hne' : more ≠ []) :
    dotted (elements ++ more) = dotted elements ++ "." ++ dotted more :=
  String.intercalate_append_of_ne_nil hne hne'

theorem display_path_path {elements more : List String} (hne : elements ≠ []) (hne' : more ≠ [])
    (target : Qualifier) :
    display (path elements (path more target)) = display (path (elements ++ more) target) := by
  cases target <;> simp [display, dotted_append hne hne', String.append_assoc]

theorem display_path_clause (elements : List String) (c : Connective)
    (children : List Qualifier) :
    display (path elements (clause c children)) =
      dotted elements ++ "." ++ ("(" ++ display (clause c children) ++ ")") := by
  have hopen : ".(" = "." ++ "(" := rfl
  simp only [display, hopen, String.append_assoc]

mutual

theorem writes_display (args : List Value) {q : Qualifier} (h : q.Writable) :
    Writes args .filter q.display q.reread := by
  match q, h with
  | .column name p, .column hname _ =>
    rw [reread]
    exact (Writes.leaf hname p).filter_of_atom
  | .property name p, .property hname _ =>
    rw [reread]
    exact (Writes.leaf hname p).filter_of_atom
  | .path elements (.column name p), .path hne hnames (.column hname _) =>
    rw [reread, reread]
    · exact ((Writes.leaf hname p).path hne hnames).filter_of_term
    · nofun
  | .path elements (.property name p), .path hne hnames (.property hname _) =>
    rw [reread, reread]
    · exact ((Writes.leaf hname p).path hne hnames).filter_of_term
    · nofun
  | .path elements (.path more target), .path hne hnames (.path hne' hnames' h) =>
    rw [reread, display_path_path hne hne']
    have hall := List.forall_mem_append.mpr ⟨hnames, hnames'⟩
    exact writes_display args (.path (by simp [hne]) hall h)
  | .path elements (.clause c children), .path hne hnames h =>
    rw [reread, display_path_clause]
    · exact ((writes_display args h).group.path hne hnames).filter_of_term
    · nofun
  | .clause c [], .clause _ hne _ => exact (hne rfl).elim
  | .clause c (first :: others), .clause _ _ h =>
    obtain ⟨hfirst, hothers⟩ := List.forall_mem_cons.mp h
    rw [reread, display, displayAll]
    exact writes_displayAll args c (writes_display args hfirst).group.filter_of_atom hothers
termination_by (q.size, 0)
decreasing_by
  all_goals exact Prod.Lex.left _ _ (by simp only [size, sizes]; omega)

theorem writes_displayAll (args : List Value) (c : Connective) {text : String} {left : Qualifier}
    (hleft : Writes args .filter text left) {qs : List Qualifier} (h : ∀ q ∈ qs, q.Writable) :
    Writes args .filter (String.intercalate (" " ++ c.keyword ++ " ") (text :: displayAll qs))
      (rereadOnto c left qs) := by
  match qs with
  | [] =>
    rw [displayAll, rereadOnto, String.intercalate_singleton]
    exact hleft
  | q :: others =>
    obtain ⟨hq, hothers⟩ := List.forall_mem_cons.mp h
    have hjoin := hleft.join c (writes_display args hq).group
    rw [displayAll, rereadOnto, String.intercalate_cons_cons, ← String.intercalate_cons_append]
    exact writes_displayAll args c hjoin hothers
termination_by (sizes qs, 1)
decreasing_by
  · exact Prod.Lex.right' _ (Nat.le_add_right ..) Nat.zero_lt_one
  · exact Prod.Lex.left _ _ (by have := q.size_pos; simp only [sizes]; omega)

end

end Qualifier

theorem Writes.parse_eq {args : List Value} {text : String} {q : Qualifier}
    (h : Writes args .filter text q) : parse text args = .ok q := by
  obtain ⟨ts, hq, hlex⟩ := h
  have hlex := hlex [] [] delimited_nil .nil
  rw [List.append_nil, List.append_nil] at hlex
  obtain ⟨placed, htokens, rfl⟩ := hlex.tokens text 0
  exact parse_of_derives htokens hq

/-- The text of a filter is parsed to what the filter is reread as. -/
theorem parse_display {q : Qualifier} (h : q.Writable) (args : List Value) :
    parse q.display args = .ok q.reread :=
  (Qualifier.writes_display args h).parse_eq

theorem parse_display_dotted :
    let q : Qualifier := .path ["owner"] (.path ["home"] (.column "name" ⟨.equals, .text "it's"⟩))
    q.Writable ∧ parse q.display [] =
      .ok (.path ["owner", "home"] (.property "name" ⟨.equals, .text "it's"⟩)) := by
  intro q
  have howner : IsName "owner" := ⟨by decide, by decide⟩
  have hhome : IsName "home" := ⟨by decide, by decide⟩
  have hname : IsName "name" := ⟨by decide, by decide⟩
  have hq : q.Writable := by
    refine .path (by decide) ?_ (.path (by decide) ?_ (.column hname _))
    · rintro _ (_ | ⟨_, ⟨⟩⟩)
      exact howner
    · rintro _ (_ | ⟨_, ⟨⟩⟩)
      exact hhome
  refine ⟨hq, (parse_display hq []).trans ?_⟩
  simp [q, Qualifier.reread, Value.reread, Value.display]

end FilterLang
