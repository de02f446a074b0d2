import FilterLang.Proofs.Sql.Splicing
import FilterLang.Proofs.Token.Lexing

/-! The text of a condition tells the shape of the filter.

A leaf is three words, subject, operator and object, with single blanks between them
(`SpellsLeaf`); a clause is its children in parentheses with the connective between them. `Spells`
states this grammar with any parameter names, so what was bound before does not matter to it. No
leaf starts with a parenthesis and no object holds a closing one, so a text in front of a closing
parenthesis is spelled in one way only (`Spells.unique`), and precedence never decides what is
grouped. Main statement: `sameShape_of_sql_eq`. -/

namespace FilterLang

open Token

/-! ### Filters up to the way to their members -/

theorem Token.IsName.notMem {name : String} (h : IsName name) {c : Char}
    (hc : continuesWord c = false) : c ∉ name.toList := by
  obtain ⟨first, others, hname, hfirst, hothers⟩ := exists_cons_of_isWord h.isWord_eq
  rw [hname]
  intro hmem
  have hcont : continuesWord c = true := by
    rcases List.mem_cons.mp hmem with rfl | hmem
    · rw [startsWord, Bool.or_eq_true] at hfirst
      rcases hfirst with hletter | hunderscore
      · rw [continuesWord, hletter, Bool.true_or, Bool.true_or]
      · rw [continuesWord, hunderscore, Bool.or_true]
    · exact hothers c hmem
  rw [hc] at hcont
  exact Bool.false_ne_true hcont

namespace Qualifier

mutual

/-- A filter with members in place of columns. -/
def onMembers : Qualifier → Qualifier
  | column name p => property name p
  | property name p => property name p
  | path elements target => path elements target.onMembers
  | clause c children => clause c (onMembersAll children)

def onMembersAll : List Qualifier → List Qualifier
  | [] => []
  | q :: rest => q.onMembers :: onMembersAll rest

end

/-- A filter without paths whose names are read as names and whose clauses combine at least two
children. -/
inductive Branching : Qualifier → Prop
  | column {name : String} (hname : IsName name) (p : Predicate) : Branching (.column name p)
  | property {name : String} (hname : IsName name) (p : Predicate) : Branching (.property name p)
  | clause (c : Connective) {children : List Qualifier} (hlength : 2 ≤ children.length)
    (h : ∀ q ∈ children, Branching q) : Branching (.clause c children)

theorem Branching.pair (c : Connective) {q q' : Qualifier} (h : q.Branching)
    (h' : q'.Branching) : (Qualifier.clause c [q, q']).Branching := by
  refine .clause c (Nat.le_refl 2) ?_
  simp only [List.forall_mem_cons]
  exact ⟨h, h', nofun⟩

end Qualifier

theorem Predicate.isNull_of_isBound {p : Predicate} (h : p.isBound = true)
    (hc : p.comparison = .equals ∨ p.comparison = .notEqual) : p.operand.isNull = false := by
  obtain ⟨c, v⟩ := p
  cases v with
  | null => rcases hc with rfl | rfl <;> cases h
  | _ => rfl

/-! ### Identifiers and operators -/

namespace Sql

section Identifiers

variable (d : Dialect) {name : String}

theorem toList_identifier (h : IsName name) :
    (d.identifier name).toList =
      if d.quotesIdentifiers then d.quotes.1 :: (name.toList ++ [d.quotes.2])
      else name.toList := by
  rw [Dialect.identifier]
  split
  · have hclosing : d.quotes.2 ∉ name.toList := h.notMem (by cases d <;> rfl)
    have hsame : ∀ c ∈ name.toList, (if c = d.quotes.2 then [c, c] else [c]) = [c] := by
      intro c hc
      refine if_neg ?_
      rintro rfl
      exact hclosing hc
    have hflat : (name.toList.flatMap fun c => if c = d.quotes.2 then [c, c] else [c]) =
        name.toList := by
      rw [List.flatMap_congr hsame, List.flatMap_singleton']
    rw [Dialect.quoteIdentifier, String.toList_ofList, hflat]
  · rfl

theorem identifier_inj {name' : String} (h : IsName name) (h' : IsName name')
    (heq : (d.identifier name).toList = (d.identifier name').toList) : name = name' := by
  rw [toList_identifier d h, toList_identifier d h'] at heq
  split at heq
  · exact String.toList_inj.mp (List.append_cancel_right (List.cons.inj heq).2)
  · exact String.toList_inj.mp heq

/-- An identifier holds neither a blank nor a parenthesis. -/
theorem notMem_identifier (h : IsName name) {c : Char} (hc : c ∈ [' ', '(', ')']) :
    c ∉ (d.identifier name).toList := by
  have hname : c ∉ name.toList := by
    simp only [List.mem_cons, List.not_mem_nil, or_false] at hc
    rcases hc with rfl | rfl | rfl <;> exact h.notMem (by decide)
  have hquotes : c ≠ d.quotes.1 ∧ c ≠ d.quotes.2 := by
    have hnone : d.quotes.1 ∉ [' ', '(', ')'] ∧ d.quotes.2 ∉ [' ', '(', ')'] := by
      cases d <;> simp [Dialect.quotes]
    exact ⟨fun heq => hnone.1 (heq ▸ hc), fun heq => hnone.2 (heq ▸ hc)⟩
  rw [toList_identifier d h]
  split
  · simp [hname, hquotes]
  · exact hname

theorem identifier_ne_nil (h : IsName name) : (d.identifier name).toList ≠ [] := by
  obtain ⟨c, cs, hcs, -⟩ := exists_cons_of_isWord h.isWord_eq
  rw [toList_identifier d h, hcs]
  split <;> exact List.cons_ne_nil _ _

end Identifiers

theorem sqlSymbol_spec (c : Comparison) : ' ' ∉ c.sqlSymbol.toList ∧ c.sqlSymbol ≠ "IS" := by
  cases c <;> decide

theorem sqlSymbol_inj {c c' : Comparison} (h : c.sqlSymbol = c'.sqlSymbol) : c = c' := by
  revert h
  cases c <;> cases c' <;> decide

namespace Dialect

/-- The operator of a comparison with a pattern. -/
def likeWord : Dialect → String
  | postgres _ => "ILIKE"
  | _ => "LIKE"

/-- The operator of a comparison. -/
def operator (d : Dialect) (c : Comparison) : String :=
  if c = .like then d.likeWord else c.sqlSymbol

/-- The subject or the object of a comparison, as it is compared. -/
def wrap (d : Dialect) (c : Comparison) (cs : List Char) : List Char :=
  if c = .like then d.likeForm.before.toList ++ cs ++ d.likeForm.after.toList else cs

theorem likeWord_cases (d : Dialect) : d.likeWord = "LIKE" ∨ d.likeWord = "ILIKE" := by
  cases d <;> simp [likeWord]

theorem toList_between (d : Dialect) : d.likeForm.between.toList =
    d.likeForm.after.toList ++ ' ' :: (d.likeWord.toList ++ ' ' :: d.likeForm.before.toList) := by
  cases d <;> simp [likeForm, likeWord]

theorem operator_spec (d : Dialect) (c : Comparison) :
    ' ' ∉ (d.operator c).toList ∧ d.operator c ≠ "IS" := by
  rw [operator]
  split
  · rcases d.likeWord_cases with hword | hword <;> rw [hword] <;> decide
  · exact sqlSymbol_spec c

theorem operator_inj (d : Dialect) {c c' : Comparison} (h : d.operator c = d.operator c') :
    c = c' := by
  have hlike : ∀ c, c ≠ .like → d.likeWord ≠ Comparison.sqlSymbol c := by
    intro c hc
    revert hc
    rcases d.likeWord_cases with hword | hword <;> rw [hword] <;> cases c <;> decide
  rw [operator, operator] at h
  split at h <;> split at h
  · rename_i hc hc'
    rw [hc, hc']
  · rename_i hc'
    exact absurd h (hlike c' hc')
  · rename_i hc _
    exact absurd h.symm (hlike c hc)
  · exact sqlSymbol_inj h

end Dialect

/-! ### Texts cut at a character -/

/-- A text behind a condition: nothing, or the parenthesis that closes it. -/
def Closes (rest : List Char) : Prop := ∀ c tail, rest = c :: tail → c = ')'

theorem closes_nil : Closes [] := by
  intro c tail h
  cases h

theorem closes_cons (rest : List Char) : Closes (')' :: rest) := by
  intro c tail h
  exact (List.cons.inj h).1.symm

theorem Closes.wrapped (d : Dialect) {rest : List Char} (h : Closes rest) :
    Closes (d.likeForm.after.toList ++ rest) := by
  have hafter : d.likeForm.after = "" ∨ d.likeForm.after = ")" := by
    cases d <;> simp [Dialect.likeForm]
  rcases hafter with hafter | hafter
  · rwa [hafter]
  · rw [hafter]
    exact closes_cons rest

/-- What comes before the first of a character is determined by the whole. -/
theorem cut_inj {x : Char} {cs cs' rest rest' : List Char} (h : x ∉ cs) (h' : x ∉ cs')
    (hrest : ∀ c tail, rest = c :: tail → c = x) (hrest' : ∀ c tail, rest' = c :: tail → c = x)
    (heq : cs ++ rest = cs' ++ rest') : cs = cs' ∧ rest = rest' := by
  have hbefore : ∀ {ds : List Char}, x ∉ ds → ∀ c ∈ ds, (c != x) = true := by
    intro ds hds c hc
    rw [bne_iff_ne]
    rintro rfl
    exact hds hc
  have hbehind : ∀ {ds : List Char}, (∀ c tail, ds = c :: tail → c = x) →
      ∀ c tail, ds = c :: tail → (c != x) = false := by
    intro ds hds c tail hcons
    rw [hds c tail hcons, bne_self_eq_false]
  exact Text.append_inj_of_head (hbefore h) (hbefore h') (hbehind hrest) (hbehind hrest') heq

theorem split_inj {x : Char} {cs cs' rest rest' : List Char} (h : x ∉ cs) (h' : x ∉ cs')
    (heq : cs ++ x :: rest = cs' ++ x :: rest') : cs = cs' ∧ rest = rest' := by
  have hhead : ∀ (rest : List Char) c tail, x :: rest = c :: tail → c = x :=
    fun _ _ _ h => (List.cons.inj h).1.symm
  obtain ⟨hcs, hrest⟩ := cut_inj h h' (hhead rest) (hhead rest') heq
  exact ⟨hcs, (List.cons.inj hrest).2⟩

/-! ### What a condition is spelled like -/

/-- Subject, operator and object of a predicate on a column; the parameter may have any name. -/
inductive SpellsLeaf (d : Dialect) (name : String) :
    Predicate → List Char → String → List Char → Prop
  | null : SpellsLeaf d name ⟨.equals, .null⟩ (d.identifier name).toList "IS" "NULL".toList
  | notNull :
    SpellsLeaf d name ⟨.notEqual, .null⟩ (d.identifier name).toList "IS" "NOT NULL".toList
  | bound {p : Predicate} (h : p.isBound = true) {parameter : List Char} (hp : ')' ∉ parameter) :
    SpellsLeaf d name p (d.wrap p.comparison (d.identifier name).toList)
      (d.operator p.comparison) (d.wrap p.comparison parameter)

mutual

/-- The texts of a filter as a condition, whatever names its parameters have. -/
inductive Spells (d : Dialect) : Qualifier → List Char → Prop
  | leaf {name : String} (hname : IsName name) {p : Predicate} {subject object : List Char}
    {operator : String} (h : SpellsLeaf d name p subject operator object) :
    Spells d (.property name p) (subject ++ ' ' :: (operator.toList ++ ' ' :: object))
  | clause {c : Connective} {q q' : Qualifier} {qs : List Qualifier} {cs : List Char}
    (h : SpellsChildren d c (q :: q' :: qs) cs) : Spells d (.clause c (q :: q' :: qs)) cs

/-- The texts of children, each in parentheses, with a connective between them. -/
inductive SpellsChildren (d : Dialect) : Connective → List Qualifier → List Char → Prop
  | last {c : Connective} {q : Qualifier} {cs : List Char} (h : Spells d q cs) :
    SpellsChildren d c [q] ('(' :: (cs ++ [')']))
  | cons {c : Connective} {q : Qualifier} {qs : List Qualifier} {cs cs' : List Char}
    (h : Spells d q cs) (hs : SpellsChildren d c qs cs') :
    SpellsChildren d c (q :: qs)
      ('(' :: (cs ++ ')' :: ' ' :: (c.sqlKeyword.toList ++ ' ' :: cs')))

end

variable {d : Dialect}

namespace SpellsLeaf

variable {name name' operator operator' : String} {p p' : Predicate}
  {subject subject' object object' rest rest' : List Char}

theorem blank_notMem (h : SpellsLeaf d name p subject operator object) (hname : IsName name) :
    ' ' ∉ subject ∧ ' ' ∉ operator.toList := by
  have hidentifier := notMem_identifier d hname (c := ' ') (by decide)
  cases h with
  | null => exact ⟨hidentifier, by decide⟩
  | notNull => exact ⟨hidentifier, by decide⟩
  | bound h hp =>
    refine ⟨?_, (d.operator_spec _).1⟩
    rw [Dialect.wrap]
    split
    · have haround : ' ' ∉ d.likeForm.before.toList ∧ ' ' ∉ d.likeForm.after.toList := by
        cases d <;> simp [Dialect.likeForm]
      simp [hidentifier, haround]
    · exact hidentifier

/-- A leaf starts with no parenthesis. -/
theorem exists_cons (h : SpellsLeaf d name p subject operator object) (hname : IsName name) :
    ∃ c cs, subject = c :: cs ∧ c ≠ '(' := by
  have hidentifier : ∀ cs, ∃ c tail, (d.identifier name).toList ++ cs = c :: tail ∧ c ≠ '(' := by
    obtain ⟨c, tail, htail⟩ := List.exists_cons_of_ne_nil (identifier_ne_nil d hname)
    refine fun cs => ⟨c, tail ++ cs, by rw [htail, List.cons_append], ?_⟩
    rintro rfl
    exact notMem_identifier d hname (c := '(') (by decide) (htail ▸ List.mem_cons_self)
  cases h with
  | null => simpa using hidentifier []
  | notNull => simpa using hidentifier []
  | bound h hp =>
    rw [Dialect.wrap]
    split
    · have hbefore : d.likeForm.before = "" ∨ d.likeForm.before = "UPPER(" := by
        cases d <;> simp [Dialect.likeForm]
      rcases hbefore with hbefore | hbefore
      · rw [hbefore]
        exact hidentifier _
      · rw [hbefore]
        exact ⟨'U', _, rfl, by decide⟩
    · simpa using hidentifier []

/-- A leaf is determined by its text, up to its operand. -/
theorem unique (h : SpellsLeaf d name p subject operator object)
    (h' : SpellsLeaf d name' p' subject' operator' object') (hname : IsName name)
    (hname' : IsName name') (hrest : Closes rest) (hrest' : Closes rest')
    (heq : subject ++ ' ' :: (operator.toList ++ ' ' :: (object ++ rest)) =
      subject' ++ ' ' :: (operator'.toList ++ ' ' :: (object' ++ rest'))) :
    name = name' ∧ p.SameShape p' ∧ rest = rest' := by
  obtain ⟨hsubject, heq⟩ :=
    split_inj (h.blank_notMem hname).1 (h'.blank_notMem hname').1 heq
  obtain ⟨hoperator, hobject⟩ :=
    split_inj (h.blank_notMem hname).2 (h'.blank_notMem hname').2 heq
  rw [String.toList_inj] at hoperator
  cases h with
  | null =>
    cases h' with
    | null =>
      exact ⟨identifier_inj d hname hname' hsubject, ⟨rfl, fun _ => rfl⟩,
        List.append_cancel_left hobject⟩
    | notNull => cases hobject
    | bound _ _ => exact absurd hoperator.symm (d.operator_spec _).2
  | notNull =>
    cases h' with
    | null => cases hobject
    | notNull =>
      exact ⟨identifier_inj d hname hname' hsubject, ⟨rfl, fun _ => rfl⟩,
        List.append_cancel_left hobject⟩
    | bound _ _ => exact absurd hoperator.symm (d.operator_spec _).2
  | bound h hp =>
    cases h' with
    | null => exact absurd hoperator (d.operator_spec _).2
    | notNull => exact absurd hoperator (d.operator_spec _).2
    | bound h' hp' =>
      have hcomparison : p.comparison = p'.comparison := d.operator_inj hoperator
      have hshape : p.SameShape p' :=
        ⟨hcomparison, fun hc => (Predicate.isNull_of_isBound h hc).trans
          (Predicate.isNull_of_isBound h' (hcomparison ▸ hc)).symm⟩
      rw [← hcomparison] at hsubject hobject
      rw [Dialect.wrap, Dialect.wrap] at hsubject hobject
      split at hsubject
      · rename_i hlike
        rw [if_pos hlike, if_pos hlike] at hobject
        have hidentifier := List.append_cancel_left (List.append_cancel_right hsubject)
        simp only [List.append_assoc] at hobject
        obtain ⟨-, hafter⟩ := cut_inj hp hp' (hrest.wrapped d) (hrest'.wrapped d)
          (List.append_cancel_left hobject)
        exact ⟨identifier_inj d hname hname' hidentifier, hshape,
          List.append_cancel_left hafter⟩
      · rename_i hlike
        rw [if_neg hlike, if_neg hlike] at hobject
        exact ⟨identifier_inj d hname hname' hsubject, hshape,
          (cut_inj hp hp' hrest hrest' hobject).2⟩

end SpellsLeaf

theorem exists_cons_of_spellsChildren {c : Connective} {qs : List Qualifier} {cs : List Char}
    (h : SpellsChildren d c qs cs) : ∃ tail, cs = '(' :: tail := by
  cases h <;> exact ⟨_, rfl⟩

theorem sqlKeyword_inj {c c' : Connective} {rest rest' : List Char}
    (h : c.sqlKeyword.toList ++ ' ' :: rest = c'.sqlKeyword.toList ++ ' ' :: rest') :
    c = c' ∧ rest = rest' := by
  have hblank : ∀ c : Connective, ' ' ∉ c.sqlKeyword.toList := by
    intro c
    cases c <;> decide
  obtain ⟨hkeyword, hrest⟩ := split_inj (hblank c) (hblank c') h
  refine ⟨?_, hrest⟩
  revert hkeyword
  cases c <;> cases c' <;> decide

mutual

/-- A filter is determined by its text in front of a closing parenthesis, up to its operands. -/
theorem Spells.unique {q q' : Qualifier} {cs cs' rest rest' : List Char} (h : Spells d q cs)
    (h' : Spells d q' cs') (hrest : Closes rest) (hrest' : Closes rest')
    (heq : cs ++ rest = cs' ++ rest') : q.SameShape q' ∧ rest = rest' := by
  match h, h' with
  | .leaf hname h, .leaf hname' h' =>
    simp only [List.append_assoc, List.cons_append] at heq
    obtain ⟨rfl, hshape, hrest⟩ := h.unique h' hname hname' hrest hrest' heq
    exact ⟨.property _ hshape, hrest⟩
  | .leaf hname h, .clause h' =>
    obtain ⟨c, subject, rfl, hc⟩ := h.exists_cons hname
    obtain ⟨tail, rfl⟩ := exists_cons_of_spellsChildren h'
    exact absurd (List.cons.inj heq).1 hc
  | .clause h, .leaf hname' h' =>
    obtain ⟨c, subject, rfl, hc⟩ := h'.exists_cons hname'
    obtain ⟨tail, rfl⟩ := exists_cons_of_spellsChildren h
    exact absurd (List.cons.inj heq).1.symm hc
  | .clause h, .clause h' =>
    obtain ⟨hshapes, hconnective, hrest⟩ := h.unique h' hrest hrest' heq
    obtain rfl := hconnective (by simp)
    exact ⟨.clause _ hshapes, hrest⟩

/-- Of two children or more the connective is determined as well. -/
theorem SpellsChildren.unique {c c' : Connective} {qs qs' : List Qualifier}
    {cs cs' rest rest' : List Char} (h : SpellsChildren d c qs cs)
    (h' : SpellsChildren d c' qs' cs') (hrest : Closes rest) (hrest' : Closes rest')
    (heq : cs ++ rest = cs' ++ rest') :
    Qualifier.SameShapes qs qs' ∧ (2 ≤ qs.length → c = c') ∧ rest = rest' := by
  match h, h' with
  | .last h, .last h' =>
    simp only [List.cons_append, List.append_assoc, List.nil_append] at heq
    obtain ⟨hshape, hrest⟩ :=
      h.unique h' (closes_cons _) (closes_cons _) (List.cons.inj heq).2
    exact ⟨.cons hshape .nil, fun hlength => absurd hlength (by simp), (List.cons.inj hrest).2⟩
  | .last h, .cons h' _ =>
    simp only [List.cons_append, List.append_assoc, List.nil_append] at heq
    obtain ⟨-, hafter⟩ := h.unique h' (closes_cons _) (closes_cons _) (List.cons.inj heq).2
    exact absurd (hrest _ _ (List.cons.inj hafter).2) (by decide)
  | .cons h _, .last h' =>
    simp only [List.cons_append, List.append_assoc, List.nil_append] at heq
    obtain ⟨-, hafter⟩ := h.unique h' (closes_cons _) (closes_cons _) (List.cons.inj heq).2
    exact absurd (hrest' _ _ (List.cons.inj hafter).2.symm) (by decide)
  | .cons h hs, .cons h' hs' =>
    simp only [List.cons_append, List.append_assoc] at heq
    obtain ⟨hshape, hafter⟩ := h.unique h' (closes_cons _) (closes_cons _) (List.cons.inj heq).2
    obtain ⟨rfl, htail⟩ := sqlKeyword_inj (List.cons.inj (List.cons.inj hafter).2).2
    obtain ⟨hshapes, -, hrest⟩ := hs.unique hs' hrest hrest' htail
    exact ⟨.cons hshape hshapes, fun _ => rfl, hrest⟩

end

/-! ### Conditions are spelled so -/

namespace Fragment

theorem toList_text_append (d : Dialect) (f g : Fragment) :
    (text d (f ++ g)).toList = (text d f).toList ++ (text d g).toList := by
  rw [text, List.map_append, String.join_append, String.toList_append]
  rfl

theorem toList_text_cons (d : Dialect) (piece : Piece) (f : Fragment) :
    (text d (piece :: f)).toList = (piece.text d).toList ++ (text d f).toList := by
  rw [text, List.map_cons, String.join_cons, String.toList_append]
  rfl

theorem text_nil (d : Dialect) : text d [] = "" := rfl

theorem toList_text_group (d : Dialect) (f : Fragment) :
    (text d (.keyword "(" :: (f ++ [.keyword ")"]))).toList =
      '(' :: ((f.text d).toList ++ [')']) := by
  simp [toList_text_cons, toList_text_append, text_nil, Piece.text]

end Fragment

open Fragment (toList_text_append toList_text_cons toList_text_group text_nil)

theorem toList_text_boundFragment (d : Dialect) (column : String) (c : Comparison)
    (parameter : String) :
    (Fragment.text d (boundFragment d column c parameter)).toList =
      d.wrap c (d.identifier column).toList ++
        ' ' :: ((d.operator c).toList ++ ' ' :: d.wrap c parameter.toList) := by
  rw [boundFragment, Dialect.wrap, Dialect.wrap, Dialect.operator]
  split
  · simp [text_likeFragment, Dialect.renderLike, d.toList_between]
  · simp [toList_text_cons, text_nil, Piece.text]

theorem comparison_spells {t : Table} {column : String} {p : Predicate} {b b' : Binder}
    {f : Fragment} (hname : IsName column) (h : comparison d t column p b = .ok (f, b')) :
    Spells d (.property column p) (f.text d).toList := by
  rcases comparison_ok h with ⟨rfl, rfl, -⟩ | ⟨rfl, rfl, -⟩ | ⟨hbound, name, hbind, rfl⟩
  · have htext : (Fragment.text d [.identifier column, .keyword " IS NULL"]).toList =
        (d.identifier column).toList ++ ' ' :: ("IS".toList ++ ' ' :: "NULL".toList) := by
      simp [toList_text_cons, text_nil, Piece.text]
    rw [htext]
    exact .leaf hname .null
  · have htext : (Fragment.text d [.identifier column, .keyword " IS NOT NULL"]).toList =
        (d.identifier column).toList ++ ' ' :: ("IS".toList ++ ' ' :: "NOT NULL".toList) := by
      simp [toList_text_cons, text_nil, Piece.text]
    rw [htext]
    exact .leaf hname .notNull
  · rw [toList_text_boundFragment]
    refine .leaf hname (.bound hbound ?_)
    obtain ⟨-, -, rfl, -⟩ := Binder.bind_ok hbind
    intro hmem
    rcases NameSupply.mem_next hmem with hcolumn | hmark | hunderscore | hdigit
    · exact hname.notMem (by decide) hcolumn
    · cases d <;> cases hmark
    · exact absurd hunderscore (by decide)
    · exact absurd hdigit (by decide)

mutual

/-- A filter is compiled to one of its texts. -/
theorem condition_spells {t : Table} {q : Qualifier} {b b' : Binder} {f : Fragment}
    (hq : q.Branching) (h : condition d t q b = .ok (f, b')) :
    Spells d q.onMembers (f.text d).toList := by
  match q, hq with
  | .column name p, .column hname _ =>
    rw [condition] at h
    exact comparison_spells hname h
  | .property name p, .property hname _ =>
    rw [condition] at h
    exact comparison_spells hname h
  | .clause c [], .clause _ hlength _ => exact absurd hlength (by simp)
  | .clause c [_], .clause _ hlength _ => exact absurd hlength (by simp)
  | .clause c (first :: second :: others), .clause _ _ hall =>
    rw [condition] at h
    · split at h
      · rename_i hparts
        cases h
        exact .clause (conditions_spells c (List.cons_ne_nil _ _) hall hparts)
      · cases h
    · nofun

theorem conditions_spells {t : Table} (c : Connective) {qs : List Qualifier} {b b' : Binder}
    {fs : List Fragment} (hne : qs ≠ []) (hall : ∀ q ∈ qs, q.Branching)
    (h : conditions d t qs b = .ok (fs, b')) :
    SpellsChildren d c (Qualifier.onMembersAll qs)
      (Fragment.text d (Fragment.separate (" " ++ c.sqlKeyword ++ " ") fs)).toList := by
  match qs with
  | [] => exact absurd rfl hne
  | [q] =>
    obtain ⟨f, _, _, hfirst, hrest, rfl⟩ := conditions_cons_ok h
    cases hrest
    rw [Fragment.separate, toList_text_group]
    exact .last (condition_spells (hall q List.mem_cons_self) hfirst)
  | q :: q' :: others =>
    obtain ⟨hq, hothers⟩ := List.forall_mem_cons.mp hall
    obtain ⟨f, _, _, hfirst, hrest, rfl⟩ := conditions_cons_ok h
    have hspelled := SpellsChildren.cons (condition_spells hq hfirst)
      (conditions_spells c (List.cons_ne_nil q' others) hothers hrest)
    obtain ⟨_, _, _, -, -, rfl⟩ := conditions_cons_ok hrest
    rw [Fragment.separate, toList_text_append, toList_text_group]
    · simpa [Qualifier.onMembersAll, toList_text_cons, Piece.text] using hspelled
    · nofun

end

/-- Conditions with one text are those of filters of one shape, up to columns in place of members:
the text tells how the comparisons are grouped, and of every comparison the name, the operator and
whether it is with null. -/
theorem sameShape_of_sql_eq {d : Dialect} {t t' : Table} {q q' : Qualifier} {c c' : Command}
    (hq : q.Branching) (hq' : q'.Branching) (hc : compileQualifier d t q = .ok c)
    (hc' : compileQualifier d t' q' = .ok c') (hsql : c.sql = c'.sql) :
    q.onMembers.SameShape q'.onMembers := by
  obtain ⟨⟨f, b⟩, hcondition, rfl⟩ := exists_of_map_eq_ok hc
  obtain ⟨⟨f', b'⟩, hcondition', rfl⟩ := exists_of_map_eq_ok hc'
  have hspells := condition_spells hq hcondition
  have hspells' := condition_spells hq' hcondition'
  have htext : (f.text d).toList ++ [] = (f'.text d).toList ++ [] :=
    congrArg (fun text => text.toList ++ []) hsql
  exact (hspells.unique hspells' closes_nil closes_nil htext).1

/-- The columns of one filter are the members of the other, and the operands differ. -/
theorem sameShape_of_sql_eq_oracle :
    let q : Qualifier := .clause .and [.column "a" ⟨.equals, .int 1⟩,
      .clause .or [.property "b" ⟨.like, .text "x%"⟩, .column "c" ⟨.equals, .null⟩]]
    let q' : Qualifier := .clause .and [.property "a" ⟨.equals, .bool true⟩,
      .clause .or [.column "b" ⟨.like, .text ")"⟩, .property "c" ⟨.equals, .null⟩]]
    ∃ c c', compileQualifier .oracle ⟨"t", []⟩ q = .ok c ∧
      compileQualifier .oracle ⟨"t", []⟩ q' = .ok c' ∧ q.Branching ∧ q'.Branching ∧
      c.sql = c'.sql ∧ q.onMembers.SameShape q'.onMembers := by
  intro q q'
  have ha : IsName "a" := ⟨by decide, by decide⟩
  have hb : IsName "b" := ⟨by decide, by decide⟩
  have hc : IsName "c" := ⟨by decide, by decide⟩
  have hq : q.Branching := .pair .and (.column ha _) (.pair .or (.property hb _) (.column hc _))
  have hq' : q'.Branching := .pair .and (.property ha _) (.pair .or (.column hb _) (.property hc _))
  have hsql : (compileQualifier .oracle ⟨"t", []⟩ q).map Command.sql =
      (compileQualifier .oracle ⟨"t", []⟩ q').map Command.sql := by
    decide +kernel
  obtain ⟨c, hcompile⟩ : ∃ c, compileQualifier .oracle ⟨"t", []⟩ q = .ok c := ⟨_, rfl⟩
  obtain ⟨c', hcompile'⟩ : ∃ c, compileQualifier .oracle ⟨"t", []⟩ q' = .ok c := ⟨_, rfl⟩
  rw [hcompile, hcompile'] at hsql
  have hsame : c.sql = c'.sql := Except.ok.inj hsql
  exact ⟨c, c', hcompile, hcompile', hq, hq', hsame,
    sameShape_of_sql_eq hq hq' hcompile hcompile' hsame⟩

end Sql
end FilterLang
