import FilterLang.Qualifier.Basic

/-! The leaves and the skeletons of filters, and what joining two filters does to them.

A joined filter is one clause of the children of its two sides, in their order (`exists_join`); so
its leaves are those of the left filter before those of the right one (`leaves_join`). Its skeleton
is that of the two skeletons joined (`skeleton_join`). -/

namespace FilterLang.Qualifier

/-- A name and a predicate on it, where a node is a leaf. -/
def Visit.leaf? : Visit → Option (String × Predicate)
  | column name p | property name p => some (name, p)
  | path _ | clause _ _ => none

/-- The leaves from left to right. -/
def leaves (q : Qualifier) : List (String × Predicate) := q.visits.filterMap Visit.leaf?

theorem leaves_property (name : String) (p : Predicate) : (property name p).leaves = [(name, p)] :=
  rfl

theorem leaves_path (elements : List String) (q : Qualifier) :
    (path elements q).leaves = q.leaves :=
  rfl

theorem leaves_clause (c : Connective) (qs : List Qualifier) :
    (clause c qs).leaves = qs.flatMap leaves := by
  change (visitsAll qs).filterMap Visit.leaf? = qs.flatMap leaves
  induction qs with
  | nil => rfl
  | cons q qs ih => rw [visitsAll, List.filterMap_append, List.flatMap_cons, ih, leaves]

/-- Children that a filter is the clause of, or the filter alone. -/
def IsClauseOf (c : Connective) (q : Qualifier) (children : List Qualifier) : Prop :=
  children = [q] ∨ q = clause c children

/-- A joined filter is a clause of what its sides are clauses of. -/
theorem exists_join (c : Connective) (left right : Qualifier) :
    ∃ ls rs, join c left right = clause c (ls ++ rs) ∧ IsClauseOf c left ls ∧
      IsClauseOf c right rs := by
  have hright : ∀ (left : Qualifier) (e : Connective) (others : List Qualifier),
      ∃ rs, (if e = c then clause c (left :: others) else clause c [left, clause e others]) =
        clause c (left :: rs) ∧ IsClauseOf c (clause e others) rs := by
    intro left e others
    split
    · rename_i he
      exact ⟨others, rfl, .inr (by rw [he])⟩
    · exact ⟨[clause e others], rfl, .inl rfl⟩
  rw [join.eq_def]
  split
  · rename_i d children
    split
    · rename_i hd
      exact ⟨children, [right], rfl, .inr (by rw [hd]), .inl rfl⟩
    · split
      · rename_i e others
        obtain ⟨rs, hrs, hclause⟩ := hright (clause d children) e others
        exact ⟨[clause d children], rs, hrs, .inl rfl, hclause⟩
      · exact ⟨[clause d children], [right], rfl, .inl rfl, .inl rfl⟩
  · rename_i e others _
    obtain ⟨rs, hrs, hclause⟩ := hright left e others
    exact ⟨[left], rs, hrs, .inl rfl, hclause⟩
  · exact ⟨[left], [right], rfl, .inl rfl, .inl rfl⟩

theorem IsClauseOf.flatMap_leaves {c : Connective} {q : Qualifier} {children : List Qualifier}
    (h : IsClauseOf c q children) : children.flatMap leaves = q.leaves := by
  rcases h with rfl | rfl
  · exact List.flatMap_singleton ..
  · exact (leaves_clause c children).symm

/-- Joining keeps the leaves and their order. -/
theorem leaves_join (c : Connective) (left right : Qualifier) :
    (join c left right).leaves = left.leaves ++ right.leaves := by
  obtain ⟨ls, rs, hjoin, hls, hrs⟩ := exists_join c left right
  rw [hjoin, leaves_clause, List.flatMap_append, hls.flatMap_leaves, hrs.flatMap_leaves]

mutual

/-- A filter without its operands. -/
def skeleton : Qualifier → Qualifier
  | column name p => column name ⟨p.comparison, .null⟩
  | property name p => property name ⟨p.comparison, .null⟩
  | path elements target => path elements target.skeleton
  | clause c children => clause c (skeletons children)

def skeletons : List Qualifier → List Qualifier
  | [] => []
  | q :: rest => q.skeleton :: skeletons rest

end

theorem skeletons_append (qs rs : List Qualifier) :
    skeletons (qs ++ rs) = skeletons qs ++ skeletons rs := by
  induction qs with
  | nil => rfl
  | cons q qs ih => rw [List.cons_append, skeletons, skeletons, ih, List.cons_append]

/-- Whether filters are joined into one clause does not depend on their operands. -/
theorem skeleton_join (c : Connective) (left right : Qualifier) :
    (join c left right).skeleton = join c left.skeleton right.skeleton := by
  have hclause : ∀ q : Qualifier, (∀ d children, q ≠ clause d children) →
      ∀ d children, q.skeleton ≠ clause d children := by
    intro q h d children
    cases q with
    | clause d' children' => exact (h d' children' rfl).elim
    | _ => nofun
  fun_cases join c left right with
  | case1 right children =>
    simp only [skeleton, join, skeletons_append, skeletons, if_pos]
  | case2 d children hd others =>
    simp only [skeleton, join, skeletons, if_neg hd, if_pos]
  | case3 d children hd e others he =>
    simp only [skeleton, join, skeletons, if_neg hd, if_neg he]
  | case4 d children hd right hright =>
    simp only [skeleton, skeletons]
    rw [join, if_neg hd]
    exact hclause right hright
  | case5 left others hleft =>
    simp only [skeleton, skeletons]
    rw [join, if_pos rfl]
    exact hclause left hleft
  | case6 left e others hleft he =>
    simp only [skeleton, skeletons]
    rw [join, if_neg he]
    exact hclause left hleft
  | case7 left right hleft hright =>
    simp only [skeleton, skeletons]
    rw [join]
    · exact hclause left hleft
    · exact hclause right hright

end FilterLang.Qualifier
