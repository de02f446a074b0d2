import Mathlib.Data.List.Forall2
import FilterLang.Proofs.Evaluation.Support
import FilterLang.Proofs.Parsing.SourceOrder

/-! The shape of parsed filters.

Joining two filters extends the left one, or else the right one, and makes a new clause of the two
only if neither is a clause of the connective (`join_append`, `join_prepend`, `join_pair`). So no
clause has one of its kind as its first or second child (`mayBeParsed_join`). Terms without
parentheses are no clauses, and where one connective joins them they become the children of a single
one (`Derives.chains`, `derives_of_terms`). Main statement: `parse_shape`. -/

namespace FilterLang

namespace Qualifier

def IsClause (c : Connective) (q : Qualifier) : Prop := ∃ children, q = clause c children

/-- What a node of a parsed filter may be. -/
def MayBeParsed : Qualifier → Prop
  | column _ _ => False
  | property _ _ => True
  | path elements _ => elements ≠ []
  | clause c children => ∃ first second rest, children = first :: second :: rest ∧
    ¬first.IsClause c ∧ ¬second.IsClause c

/-- A filter all of whose nodes may be parsed. -/
def IsShaped (q : Qualifier) : Prop := ∀ node, Occurs node q → node.MayBeParsed

theorem not_isClause_property (c : Connective) (name : String) (p : Predicate) :
    ¬(property name p).IsClause c := nofun

theorem not_isClause_path (c : Connective) (elements : List String) (q : Qualifier) :
    ¬(path elements q).IsClause c := nofun

theorem isClause_clause_iff {c d : Connective} {children : List Qualifier} :
    (clause d children).IsClause c ↔ d = c := by
  constructor
  · rintro ⟨_, ⟨⟩⟩
    rfl
  · rintro rfl
    exact ⟨children, rfl⟩

/-- A clause of the connective on the left takes the right filter as its last child. -/
theorem join_append (c : Connective) (children : List Qualifier) (right : Qualifier) :
    join c (clause c children) right = clause c (children ++ [right]) := by
  rw [join.eq_def]
  exact if_pos rfl

/-- Otherwise, one on the right takes the left filter as its first child. -/
theorem join_prepend {c : Connective} {left : Qualifier} (h : ¬left.IsClause c)
    (children : List Qualifier) :
    join c left (clause c children) = clause c (left :: children) := by
  cases left with
  | clause d others =>
    rw [isClause_clause_iff] at h
    simp only [join, if_neg h, if_pos]
  | _ => simp only [join, if_pos]

/-- Otherwise, the two make a clause of their own. -/
theorem join_pair {c : Connective} {left right : Qualifier} (hl : ¬left.IsClause c)
    (hr : ¬right.IsClause c) : join c left right = clause c [left, right] := by
  have hclause : ∀ e others, right = clause e others → e ≠ c := by
    rintro e others rfl
    exact mt isClause_clause_iff.mpr hr
  cases left with
  | clause d children =>
    rw [isClause_clause_iff] at hl
    cases right with
    | clause e others => simp only [join, if_neg hl, if_neg (hclause e others rfl)]
    | _ => simp only [join, if_neg hl]
  | _ =>
    cases right with
    | clause e others => simp only [join, if_neg (hclause e others rfl)]
    | _ => simp only [join]

theorem IsClauseOf.occurs {c : Connective} {q child node : Qualifier} {children : List Qualifier}
    (h : IsClauseOf c q children) (hchild : child ∈ children) (hnode : Occurs node child) :
    Occurs node q := by
  rcases h with rfl | rfl
  · rwa [List.mem_singleton.mp hchild] at hnode
  · exact .clause c hchild hnode

/-- The first two children of a joined filter are no clauses of its connective if the same is true
of the sides. -/
theorem mayBeParsed_join (c : Connective) {left right : Qualifier} (hl : left.MayBeParsed)
    (hr : right.MayBeParsed) : (join c left right).MayBeParsed := by
  by_cases hleft : left.IsClause c
  · obtain ⟨children, rfl⟩ := hleft
    obtain ⟨first, second, rest, rfl, hfirst, hsecond⟩ := hl
    rw [join_append]
    exact ⟨first, second, rest ++ [right], rfl, hfirst, hsecond⟩
  · by_cases hright : right.IsClause c
    · obtain ⟨children, rfl⟩ := hright
      obtain ⟨first, second, rest, rfl, hfirst, hsecond⟩ := hr
      rw [join_prepend hleft]
      exact ⟨left, first, second :: rest, rfl, hleft, hfirst⟩
    · rw [join_pair hleft hright]
      exact ⟨left, right, [], rfl, hleft, hright⟩

/-- A filter that is no clause is added to the children of the filter on its left. -/
theorem IsClauseOf.join_right {c : Connective} {left right : Qualifier} {children : List Qualifier}
    (h : IsClauseOf c left children) (hchildren : ∀ child ∈ children, ¬child.IsClause c)
    (hright : ¬right.IsClause c) : IsClauseOf c (join c left right) (children ++ [right]) := by
  rcases h with rfl | rfl
  · exact .inr (join_pair (hchildren left List.mem_cons_self) hright)
  · exact .inr (join_append c children right)

namespace IsShaped

theorem property (name : String) (p : Predicate) : (property name p).IsShaped := by
  rintro _ ⟨⟩
  trivial

theorem path {elements : List String} (helements : elements ≠ []) {q : Qualifier}
    (h : q.IsShaped) : (path elements q).IsShaped := by
  intro node hnode
  cases hnode with
  | root => exact helements
  | path _ hnode => exact h node hnode

/-- A node of a joined filter is its root or a node of one of the sides. -/
theorem join (c : Connective) {left right : Qualifier} (hl : left.IsShaped)
    (hr : right.IsShaped) : (join c left right).IsShaped := by
  obtain ⟨ls, rs, hjoin, hls, hrs⟩ := exists_join c left right
  have hroot := mayBeParsed_join c (hl left .root) (hr right .root)
  rw [hjoin] at hroot ⊢
  intro node hnode
  cases hnode with
  | root => exact hroot
  | clause _ hchild hnode =>
    rcases List.mem_append.mp hchild with hchild | hchild
    · exact hl node (hls.occurs hchild hnode)
    · exact hr node (hrs.occurs hchild hnode)

end IsShaped

end Qualifier

namespace Parsing

open Qualifier

variable {args : List Value}

theorem Derives.isShaped {p : Phrase} {ts : List Token} {q : Qualifier} (h : Derives args p ts q) :
    q.IsShaped := by
  induction h with
  | comparison name c hv => exact .property name _
  | group _ ih => exact ih
  | path elements _ ih =>
    cases elements with
    | nil => exact ih
    | cons name names => exact ih.path (List.cons_ne_nil name names)
  | term _ ih => exact ih
  | join c _ _ ihl ihr => exact ihl.join c ihr

theorem StandsFor.isShaped {ts : List Token} {q : Qualifier} (h : StandsFor args ts q) :
    q.IsShaped := by
  cases h with
  | derived h => exact h.isShaped
  | shorthand hts hv hq => exact hq ▸ .property _ _

/-- Tokens without parentheses, with a connective between them and no other. -/
structure JoinedBy (c : Connective) (ts : List Token) : Prop where
  mem : .connective c ∈ ts
  eq_of_mem : ∀ d, .connective d ∈ ts → d = c
  openGroup_notMem : .openGroup ∉ ts
  closeGroup_notMem : .closeGroup ∉ ts

theorem intercalate_cons {α : Type} (sep : α) (l : List α) (ls : List (List α)) :
    [sep].intercalate (l :: ls) = l ++ ls.flatMap (sep :: ·) := by
  induction ls generalizing l with
  | nil => rw [List.intercalate_singleton, List.flatMap_nil, List.append_nil]
  | cons l' ls ih =>
    rw [List.intercalate_cons_cons, ih, List.flatMap_cons, List.append_assoc, List.cons_append]
    rfl

/-- A term and the filter for which it stands, which is no clause. -/
structure StandsAsTerm (args : List Value) (term : List Token) (q : Qualifier) : Prop where
  derives : Derives args .term term q
  not_isClause : ∀ c, ¬q.IsClause c

theorem not_isClause_of_mem {terms : List (List Token)} {children : List Qualifier}
    (h : List.Forall₂ (StandsAsTerm args) terms children) :
    ∀ child ∈ children, ∀ c, ¬child.IsClause c := by
  induction h with
  | nil => exact List.forall_mem_nil _
  | cons h _ ih => exact List.forall_mem_cons.mpr ⟨h.not_isClause, ih⟩

/-- What a phrase without parentheses is where no connective but one occurs. -/
def Chains (args : List Value) (c : Connective) (ts : List Token) (q : Qualifier) : Phrase → Prop
  | .atom | .term => .connective c ∉ ts ∧ ∀ d, ¬q.IsClause d
  | .filter => ∃ terms children, ts = [.connective c].intercalate terms ∧ terms ≠ [] ∧
    (∀ term ∈ terms, .connective c ∉ term) ∧ List.Forall₂ (StandsAsTerm args) terms children ∧
    IsClauseOf c q children

theorem not_isClause_underPath {q : Qualifier} (h : ∀ c, ¬q.IsClause c) (elements : List String) :
    ∀ c, ¬(underPath elements q).IsClause c := by
  cases elements with
  | nil => exact h
  | cons name names => exact fun _ => not_isClause_path _ _ _

theorem connective_notMem_pathTokens (c : Connective) (elements : List String) :
    .connective c ∉ pathTokens elements := by
  simp [pathTokens]

theorem Derives.chains {p : Phrase} {ts : List Token} {q : Qualifier} (h : Derives args p ts q)
    {c : Connective} (hc : ∀ d, .connective d ∈ ts → d = c) (hgroup : .openGroup ∉ ts) :
    Chains args c ts q p := by
  induction h with
  | @comparison name comparison t v hv =>
    refine ⟨?_, fun _ => not_isClause_property _ _ _⟩
    intro hmem
    obtain rfl : t = .connective c := by simpa [eq_comm] using hmem
    cases hv
  | group _ _ => exact (hgroup List.mem_cons_self).elim
  | @path elements ts q _ ih =>
    obtain ⟨hnot, hclause⟩ := ih (fun d hd => hc d (List.mem_append_right _ hd))
      (fun hmem => hgroup (List.mem_append_right _ hmem))
    refine ⟨fun hmem => ?_, not_isClause_underPath hclause elements⟩
    exact (List.mem_append.mp hmem).elim (connective_notMem_pathTokens c elements) hnot
  | @term ts q h ih =>
    obtain ⟨hnot, hclause⟩ := ih hc hgroup
    refine ⟨[ts], [q], (List.intercalate_singleton ..).symm, List.cons_ne_nil _ _, ?_,
      .cons ⟨h, hclause⟩ .nil, .inl rfl⟩
    exact List.forall_mem_singleton.mpr hnot
  | @join d ls rs l r _ hr ihl ihr =>
    obtain rfl : d = c := hc d (by simp)
    obtain ⟨terms, children, rfl, hne, hterms, hstands, hl⟩ :=
      ihl (fun e he => hc e (by simp [he])) (fun hmem => hgroup (by simp [hmem]))
    obtain ⟨hnot, hclause⟩ :=
      ihr (fun e he => hc e (by simp [he])) (fun hmem => hgroup (by simp [hmem]))
    obtain ⟨term, terms, rfl⟩ := List.exists_cons_of_ne_nil hne
    refine ⟨term :: terms ++ [rs], children ++ [r], ?_, by simp, ?_, ?_, ?_⟩
    · simp [intercalate_cons]
    · exact List.forall_mem_append.mpr ⟨hterms, List.forall_mem_singleton.mpr hnot⟩
    · exact List.rel_append hstands (.cons ⟨hr, hclause⟩ .nil)
    · exact hl.join_right (fun child hchild => not_isClause_of_mem hstands child hchild d)
        (hclause d)

/-- Terms behind a clause of the connective between them are added to its children. -/
theorem Derives.append_terms {c : Connective} {ls : List Token} {children : List Qualifier}
    (hl : Derives args .filter ls (.clause c children)) {terms : List (List Token)}
    {more : List Qualifier} (h : List.Forall₂ (StandsAsTerm args) terms more) :
    Derives args .filter (ls ++ terms.flatMap (.connective c :: ·))
      (.clause c (children ++ more)) := by
  induction h generalizing ls children with
  | nil => rwa [List.flatMap_nil, List.append_nil, List.append_nil]
  | @cons term child terms more hterm _ ih =>
    have hjoin := Derives.join c hl hterm.derives
    rw [join_append] at hjoin
    rw [List.flatMap_cons, List.append_cons, ← List.append_assoc]
    exact ih hjoin

/-- Terms with a connective between them stand for one clause. -/
theorem derives_of_terms (c : Connective) {terms : List (List Token)} {children : List Qualifier}
    (h : List.Forall₂ (StandsAsTerm args) terms children) (hlength : 1 < terms.length) :
    Derives args .filter ([.connective c].intercalate terms) (.clause c children) := by
  rcases h with _ | ⟨hfirst, _ | ⟨hsecond, h⟩⟩
  · cases hlength
  · exact (Nat.lt_irrefl 1 hlength).elim
  · have hpair := Derives.join c (.term hfirst.derives) hsecond.derives
    rw [join_pair (hfirst.not_isClause c) (hsecond.not_isClause c)] at hpair
    rw [intercalate_cons, List.flatMap_cons, ← List.append_assoc]
    exact hpair.append_terms h

/-- Tokens that one connective joins, without parentheses, stand for the clause of the terms. -/
theorem JoinedBy.standsFor_iff {c : Connective} {ts : List Token} (h : JoinedBy c ts)
    {q : Qualifier} :
    StandsFor args ts q ↔ ∃ children,
      List.Forall₂ (StandsAsTerm args) (ts.splitOn (.connective c)) children ∧
        q = .clause c children := by
  constructor
  · intro hq
    cases hq with
    | shorthand hts =>
      rw [hts] at h
      simpa using h.mem
    | derived hq =>
      obtain ⟨terms, children, hts, hne, hterms, hstands, hclause⟩ :=
        hq.chains h.eq_of_mem h.openGroup_notMem
      rw [hts, List.splitOn_intercalate _ hterms hne]
      rcases hclause with rfl | rfl
      · obtain ⟨term, rfl⟩ := List.length_eq_one_iff.mp hstands.length_eq
        rw [List.intercalate_singleton] at hts
        exact (hterms term List.mem_cons_self (hts ▸ h.mem)).elim
      · exact ⟨children, hstands, rfl⟩
  · rintro ⟨children, hstands, rfl⟩
    have hts : [.connective c].intercalate (ts.splitOn (.connective c)) = ts :=
      List.intercalate_splitOn _
    have hlength : 1 < (ts.splitOn (.connective c)).length := by
      rcases hterms : ts.splitOn (.connective c) with _ | ⟨term, _ | ⟨_, _⟩⟩
      · rw [hterms] at hts
        exact absurd h.mem (hts ▸ List.not_mem_nil)
      · rw [hterms, List.intercalate_singleton] at hts
        rw [hterms, hts] at hstands
        rcases hstands with _ | ⟨hterm, _⟩
        exact ((hterm.derives.chains h.eq_of_mem h.openGroup_notMem).1 h.mem).elim
      · rw [hterms, List.length_cons, List.length_cons]
        omega
    exact .derived (hts ▸ derives_of_terms c hstands hlength)

end Parsing

open Parsing

/-- Every node of a parsed filter is a comparison of a member, a path with an element, or a clause
of two or more whose first two are no clauses of its kind. Where one connective joins the terms of a
text without parentheses, it is parsed exactly if they all are, to the one clause of their filters,
none of which is a clause. -/
theorem parse_shape (input : String) (args : List Value) :
    (∀ q, parse input args = .ok q → ∀ node, Qualifier.Occurs node q → node.MayBeParsed) ∧
      ∀ ts c, (Cursor.start input).tokens = .ok ts → JoinedBy c (ts.map (·.token)) →
        ∀ q, parse input args = .ok q ↔ ∃ children,
          List.Forall₂ (StandsAsTerm args) ((ts.map (·.token)).splitOn (.connective c)) children ∧
            q = .clause c children := by
  constructor
  · intro q hq
    obtain ⟨ts, -, hstands⟩ := standsFor_of_parse hq
    exact hstands.isShaped
  · intro ts c hts hjoined q
    rw [parse_iff_standsFor hts]
    exact hjoined.standsFor_iff

theorem parse_shape_or :
    let input := "a = 1 or b.c = 2 or d < null"
    let ts : List PlacedToken :=
      [⟨.identifier "a", ⟨0, 1⟩⟩, ⟨.operator .equals, ⟨2, 3⟩⟩, ⟨.constant (.int 1), ⟨4, 5⟩⟩,
        ⟨.connective .or, ⟨6, 8⟩⟩, ⟨.identifier "b", ⟨9, 10⟩⟩, ⟨.separator, ⟨10, 11⟩⟩,
        ⟨.identifier "c", ⟨11, 12⟩⟩, ⟨.operator .equals, ⟨13, 14⟩⟩, ⟨.constant (.int 2), ⟨15, 16⟩⟩,
        ⟨.connective .or, ⟨17, 19⟩⟩, ⟨.identifier "d", ⟨20, 21⟩⟩, ⟨.operator .lessThan, ⟨22, 23⟩⟩,
        ⟨.constant .null, ⟨24, 28⟩⟩]
    let q : Qualifier :=
      .clause .or [.property "a" ⟨.equals, .int 1⟩, .path ["b"] (.property "c" ⟨.equals, .int 2⟩),
        .property "d" ⟨.lessThan, .null⟩]
    (Cursor.start input).tokens = .ok ts ∧ JoinedBy .or (ts.map (·.token)) ∧
      parse input [] = .ok q ∧ (∀ node, Qualifier.Occurs node q → node.MayBeParsed) ∧
      ∃ children,
        List.Forall₂ (StandsAsTerm []) ((ts.map (·.token)).splitOn (.connective .or)) children ∧
          q = .clause .or children := by
  intro input ts q
  have hts : (Cursor.start input).tokens = .ok ts := by decide +kernel
  have hjoined : JoinedBy .or (ts.map (·.token)) :=
    ⟨by decide +kernel, by simp [ts], by decide +kernel, by decide +kernel⟩
  have hq : parse input [] = .ok q := by decide +kernel
  obtain ⟨hshape, hterms⟩ := parse_shape input []
  exact ⟨hts, hjoined, hq, hshape q hq, (hterms ts .or hts hjoined q).mp hq⟩

/-- Further on among its children, a clause may have one of its kind. -/
example : parse "a = 1 or b = 2 or (c = 3 or d = 4)" [] =
    .ok (.clause .or [.property "a" ⟨.equals, .int 1⟩, .property "b" ⟨.equals, .int 2⟩,
      .clause .or [.property "c" ⟨.equals, .int 3⟩, .property "d" ⟨.equals, .int 4⟩]]) := by
  decide +kernel

end FilterLang
