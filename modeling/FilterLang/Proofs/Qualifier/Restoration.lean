import FilterLang.Proofs.Evaluation.Outcome
import FilterLang.Proofs.Predicate.Restoration

/-! Evaluation of filters that are written and read again.

What is read differs from what was written by its operands, by the paths that became one and by the
clauses that joined their children; only the operands can change an outcome (`agrees_reread`). Main
statement: `outcome_parse_display_iff`. -/

namespace FilterLang

namespace Qualifier

/-- The operands with which members are compared. -/
def operands (q : Qualifier) : List Value :=
  q.visits.filterMap fun
    | .property _ p => some p.operand
    | _ => none

theorem operands_path (elements : List String) (q : Qualifier) :
    (path elements q).operands = q.operands := by
  simp [operands, visits]

theorem operands_subset_clause (c : Connective) {q : Qualifier} {children : List Qualifier}
    (h : q ∈ children) : q.operands ⊆ (clause c children).operands := by
  have hvisits : q.visits ⊆ visitsAll children := by
    induction children with
    | nil => cases h
    | cons first others ih =>
      rw [visitsAll]
      rcases List.mem_cons.mp h with rfl | h
      · exact List.subset_append_left _ _
      · exact List.subset_append_of_subset_right _ (ih h)
  rw [operands, operands, visits]
  exact List.filterMap_subset _ (List.subset_cons_of_subset _ hvisits)

variable [Wildcard.Engine]

/-- Filters with the same outcome on all objects whose values are in a set. -/
structure Agrees (V : Value → Prop) (q q' : Qualifier) : Prop where
  supports : q.supportsEvaluation = true
  supports' : q'.supportsEvaluation = true
  outcome_eq : ∀ e : Entity, (∀ v, e.Has v → V v) → q'.outcome e = q.outcome e

theorem toOption_holdsFor (p : Predicate) (v : Value) :
    (holdsFor p v).toOption = (p.holds v).toOption := by
  rw [holdsFor]
  cases p.holds v <;> rfl

namespace Agrees

variable {V : Value → Prop}

theorem property (name : String) {p p' : Predicate}
    (h : ∀ v, v = .null ∨ V v → (p'.holds v).toOption = (p.holds v).toOption) :
    Agrees V (.property name p) (.property name p') := by
  refine ⟨rfl, rfl, fun e he => ?_⟩
  rw [outcome, outcome, evaluate, evaluate]
  split
  · rename_i v hv
    rw [toOption_holdsFor, toOption_holdsFor]
    exact h v ((Entity.has_of_value_eq_ok hv).imp_right (he v))
  · rfl

theorem path (elements : List String) {q q' : Qualifier} (h : Agrees V q q') :
    Agrees V (.path elements q) (.path elements q') := by
  refine ⟨h.supports, h.supports', fun e he => ?_⟩
  rw [outcome, outcome, evaluate, evaluate]
  exact Entity.toOption_follow_congr elements fun e' he' =>
    h.outcome_eq e' fun v hv => he v (he' v hv)

theorem path_path (elements more : List String) {q q' : Qualifier}
    (h : Agrees V (.path (elements ++ more) q) q') :
    Agrees V (.path elements (.path more q)) q' := by
  refine ⟨h.supports, h.supports', fun e he => ?_⟩
  rw [outcome_path_path, h.outcome_eq e he]

/-- A clause of one child is the child. -/
theorem clause_singleton (c : Connective) {q q' : Qualifier} (h : Agrees V q q') :
    Agrees V (.clause c [q]) q' := by
  have hsupports : ∀ q' ∈ [q], q'.supportsEvaluation = true := by
    rintro _ (_ | ⟨_, ⟨⟩⟩)
    exact h.supports
  refine ⟨supportEvaluation_iff.mpr hsupports, h.supports', fun e he => ?_⟩
  rw [outcome_clause c hsupports]
  exact (h.outcome_eq e he).trans (c.combine_singleton _).symm

/-- The first two children of a clause may be joined. -/
theorem clause_cons (c : Connective) {left q q' : Qualifier} {others : List Qualifier}
    (hleft : left.supportsEvaluation = true) (hq : q.supportsEvaluation = true)
    (h : Agrees V (.clause c (join c left q :: others)) q') :
    Agrees V (.clause c (left :: q :: others)) q' := by
  have hjoined := supportEvaluation_iff.mp h.supports
  have hothers := (List.forall_mem_cons.mp hjoined).2
  have hall : ∀ q' ∈ left :: q :: others, q'.supportsEvaluation = true := by
    rw [List.forall_mem_cons, List.forall_mem_cons]
    exact ⟨hleft, hq, hothers⟩
  refine ⟨supportEvaluation_iff.mpr hall, h.supports', fun e he => ?_⟩
  rw [h.outcome_eq e he, outcome_clause c hjoined, outcome_clause c hall]
  simp only [List.map_cons, Connective.combine_cons]
  rw [outcome_join c hleft hq, c.seq_assoc]

/-- Sides that agree are joined to filters that agree. -/
theorem join (c : Connective) {left left' right right' : Qualifier} (hleft : Agrees V left left')
    (hright : Agrees V right right') :
    Agrees V (join c left right) (Qualifier.join c left' right') := by
  refine ⟨supportsEvaluation_join c hleft.supports hright.supports,
    supportsEvaluation_join c hleft.supports' hright.supports', fun e he => ?_⟩
  rw [outcome_join c hleft.supports' hright.supports', hleft.outcome_eq e he,
    hright.outcome_eq e he, outcome_join c hleft.supports hright.supports]

end Agrees

section Reread

variable {W V : Value → Prop}

theorem agrees_property (hrestored : ∀ w v, W w → V v → w.RestoredFor v) (name : String)
    (p : Predicate) (hp : W p.operand) :
    Agrees V (property name p) (property name ⟨p.comparison, p.operand.reread⟩) := by
  refine .property name fun v hv => ?_
  have hv : p.operand.RestoredFor v := by
    rcases hv with rfl | hv
    · exact Predicate.restoredFor_null p.operand
    · exact hrestored _ v hp hv
  exact (Predicate.holds_reread_iff p.operand v).mpr hv p.comparison

mutual

/-- What is read agrees with what was written on the values for which the operands are restored. -/
theorem agrees_reread (hrestored : ∀ w v, W w → V v → w.RestoredFor v) {q : Qualifier}
    (hq : q.supportsEvaluation = true) (hw : ∀ w ∈ q.operands, W w) : Agrees V q q.reread := by
  match q with
  | .column name p => cases hq
  | .property name p =>
    rw [reread]
    exact agrees_property hrestored name p (hw _ (by simp [operands, visits]))
  | .path elements (.column name p) => cases hq
  | .path elements (.property name p) =>
    rw [reread, reread]
    · exact .path elements (agrees_property hrestored name p (hw _ (by simp [operands, visits])))
    · nofun
  | .path elements (.path more target) =>
    rw [reread]
    refine .path_path elements more (agrees_reread hrestored hq ?_)
    simpa only [operands_path] using hw
  | .path elements (.clause c children) =>
    rw [reread]
    · rw [operands_path] at hw
      exact .path elements (agrees_reread hrestored hq hw)
    · nofun
  | .clause c [] =>
    rw [reread]
    exact ⟨hq, hq, fun _ _ => rfl⟩
  | .clause c (first :: others) =>
    obtain ⟨hfirst, hothers⟩ := List.forall_mem_cons.mp (supportEvaluation_iff.mp hq)
    have hw : ∀ q ∈ first :: others, ∀ w ∈ q.operands, W w := fun q hmem w hq =>
      hw w (operands_subset_clause c hmem hq)
    obtain ⟨hwfirst, hwothers⟩ := List.forall_mem_cons.mp hw
    rw [reread]
    exact agrees_rereadOnto hrestored c (agrees_reread hrestored hfirst hwfirst) hothers hwothers
termination_by (q.size, 0)
decreasing_by
  all_goals exact Prod.Lex.left _ _ (by simp only [size, sizes]; omega)

theorem agrees_rereadOnto (hrestored : ∀ w v, W w → V v → w.RestoredFor v) (c : Connective)
    {left left' : Qualifier} (hleft : Agrees V left left') {qs : List Qualifier}
    (hqs : ∀ q ∈ qs, q.supportsEvaluation = true) (hw : ∀ q ∈ qs, ∀ w ∈ q.operands, W w) :
    Agrees V (clause c (left :: qs)) (rereadOnto c left' qs) := by
  match qs with
  | [] =>
    rw [rereadOnto]
    exact .clause_singleton c hleft
  | q :: others =>
    obtain ⟨hq, hothers⟩ := List.forall_mem_cons.mp hqs
    obtain ⟨hwq, hwothers⟩ := List.forall_mem_cons.mp hw
    -- The induction goes on with the joined filter in the place of the first two children.
    have hjoin := hleft.join c (agrees_reread hrestored hq hwq)
    rw [rereadOnto]
    exact .clause_cons c hleft.supports hq (agrees_rereadOnto hrestored c hjoin hothers hwothers)
termination_by (sizes qs, 1)
decreasing_by
  · exact Prod.Lex.right' _ (Nat.le_add_right ..) Nat.zero_lt_one
  · exact Prod.Lex.left _ _ (by have := q.size_pos; simp only [sizes]; omega)

end

end Reread

end Qualifier

/-- The object whose only member is a value. -/
def Entity.single (name : String) (v : Value) : Entity := .mk "T" [(name, .value v)]

theorem Entity.has_single {name : String} {v w : Value} (h : (single name v).Has w) : w = v := by
  have hmember : ∀ {other : String} {m : Member}, (single name v).member? other = some m →
      m = .value v := by
    intro other m hm
    simp only [single, member?, members, List.lookup_cons, List.lookup_nil] at hm
    split at hm
    · cases hm
      rfl
    · cases hm
  cases h with
  | value h => cases hmember h; rfl
  | one h => cases hmember h
  | many h => cases hmember h

theorem Qualifier.outcome_single [Wildcard.Engine] (name : String) (p : Predicate) (v : Value) :
    (property name p).outcome (.single name v) = (p.holds v).toOption := by
  have hvalue : (Entity.single name v).value name = .ok v := by
    simp [Entity.value, Entity.single, Entity.member?, Entity.members]
  rw [outcome, evaluate, hvalue]
  exact toOption_holdsFor p v

/-- Every filter is parsed again from its text, and what is parsed has the outcomes of the filter
exactly if the operands are restored for the values they are compared with. -/
theorem outcome_parse_display_iff [Wildcard.Engine] (W V : Value → Prop) :
    (∀ q : Qualifier, q.Writable → ∃ q', parse q.display [] = .ok q') ∧
    ((∀ q : Qualifier, q.Writable → q.supportsEvaluation = true → (∀ w ∈ q.operands, W w) →
      ∀ q', parse q.display [] = .ok q' →
        ∀ e : Entity, (∀ v, e.Has v → V v) → q'.outcome e = q.outcome e) ↔
      ∀ w v, W w → V v → w.RestoredFor v) := by
  have hparse : ∀ {q : Qualifier}, q.Writable → parse q.display [] = .ok q.reread := fun hq =>
    (Qualifier.writes_display [] hq).parse_eq
  refine ⟨fun q hq => ⟨q.reread, hparse hq⟩, ?_, ?_⟩
  · -- One comparison with one member tells the operand apart from what is read for it.
    intro h w v hw hv
    refine (Predicate.holds_reread_iff w v).mp fun c => ?_
    have hname : Token.IsName "x" := ⟨by decide, by decide⟩
    have hq : (Qualifier.property "x" ⟨c, w⟩).Writable := .property hname _
    have hoperands : ∀ w' ∈ (Qualifier.property "x" ⟨c, w⟩).operands, W w' := by
      rintro _ (_ | ⟨_, ⟨⟩⟩)
      exact hw
    have hvalues : ∀ v', (Entity.single "x" v).Has v' → V v' := fun v' hv' =>
      Entity.has_single hv' ▸ hv
    have hsame := h _ hq rfl hoperands _ (hparse hq) (.single "x" v) hvalues
    rw [Qualifier.reread, Qualifier.outcome_single, Qualifier.outcome_single] at hsame
    exact hsame
  · intro h q hq hsupports hw q' hq' e he
    rw [hparse hq] at hq'
    cases hq'
    exact (Qualifier.agrees_reread h hsupports hw).outcome_eq e he

/-- Bytes equal to an operand no longer equal what is read where it was written. -/
theorem parse_display_bytes :
    let _ : Wildcard.Engine := ⟨fun _ => none⟩
    let q : Qualifier := .property "x" ⟨.equals, .bytes [0xAB]⟩
    q.Writable ∧ q.display = "x = 'AB'" ∧
      ∃ q', parse q.display [] = .ok q' ∧ q.evaluate (.single "x" (.bytes [0xAB])) = .ok true ∧
        q'.evaluate (.single "x" (.bytes [0xAB])) = .ok false := by
  intro _ q
  have hq : q.Writable := .property ⟨by decide, by decide⟩ _
  refine ⟨hq, by decide, _, (Qualifier.writes_display [] hq).parse_eq, rfl, ?_⟩
  rw [Qualifier.reread]
  decide

end FilterLang
