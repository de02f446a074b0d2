import Mathlib.Data.List.Forall2
import FilterLang.Proofs.Qualifier.Join
import FilterLang.Proofs.Qualifier.Rereading
import FilterLang.Proofs.Token.Reading

/-! Arguments written into the text in place of the parameters.

`replace` puts other characters in the place of ranges of bytes, and `inline` the literals of the
arguments, between blanks, in the place of the parameters that refer to them. The text has the same
tokens as before but for literals instead of parameters (`lexes_replace`), and these stand for the
same values. Main statement: `parse_inline`. -/

namespace FilterLang

open Parsing Text Token

/-! ### Arguments in the text -/

/-- The characters of a text that fit in a number of bytes, and those after them. -/
def splitBytes : Nat → List Char → List Char × List Char
  | _, [] => ([], [])
  | n, c :: cs =>
    if c.utf8Size ≤ n then
      let (front, rest) := splitBytes (n - c.utf8Size) cs
      (c :: front, rest)
    else ([], c :: cs)

/-- A text that starts at a byte position, with other characters in the place of ranges of bytes,
which stand in their order. -/
def replace (position : Nat) : List (Span × List Char) → List Char → List Char
  | [], cs => cs
  | (span, new) :: edits, cs =>
    (splitBytes (span.start - position) cs).1 ++ new ++
      replace span.stop edits (splitBytes (span.stop - position) cs).2

/-- The literal of the argument to which a token refers, between blanks, in the place of the token. -/
def inlining? (args : List Value) (t : PlacedToken) : Option (Span × List Char) :=
  match t.token with
  | .parameter index => args[index]?.map fun v => (t.span, ' ' :: (v.literal.toList ++ [' ']))
  | _ => none

/-- A text with the literals of the arguments in the place of the parameters. -/
def inline (args : List Value) (input : String) : String :=
  match (Cursor.start input).tokens with
  | .ok ts => String.ofList (replace 0 (ts.filterMap (inlining? args)) input.toList)
  | .error _ => input

/-- The indices of the arguments to which a text refers. -/
def references (input : String) : List Nat :=
  match (Cursor.start input).tokens with
  | .ok ts => ts.filterMap fun t => match t.token with
    | .parameter index => some index
    | _ => none
  | .error _ => []

/-- Whether the literal of a value is read as the value itself. -/
def Value.hasLiteral : Value → Bool
  | null | bool _ | text _ => true
  | int i => 0 ≤ i.toInt
  | float _ | dateTime _ | bytes _ => false

/-! ### Filters that vary with the arguments -/

theorem Value.reread_eq_self {v : Value} (h : v.hasLiteral = true) : v.reread = v := by
  cases v with
  | int i => exact if_pos (of_decide_eq_true h)
  | null | bool b | text s => rfl
  | float x | dateTime t | bytes b => cases h

/-- An operand with other arguments: it is the same, or it is the argument at the same index. -/
def Value.VariesBy (v : Value) (args args' : List Value) (v' : Value) : Prop :=
  v' = v ∨ ∃ index : Nat, args[index]? = some v ∧ args'[index]? = some v'

namespace Qualifier

/-- A filter with other arguments: nothing but operands that are arguments is different. -/
structure VariesBy (q : Qualifier) (args args' : List Value) (q' : Qualifier) : Prop where
  skeleton_eq : q'.skeleton = q.skeleton
  leaves : List.Forall₂
    (fun leaf leaf' => leaf.2.operand.VariesBy args args' leaf'.2.operand) q.leaves q'.leaves

variable {args args' : List Value}

theorem VariesBy.property (name : String) (c : Comparison) {v v' : Value}
    (h : v.VariesBy args args' v') :
    (property name ⟨c, v⟩).VariesBy args args' (.property name ⟨c, v'⟩) :=
  ⟨rfl, .cons h .nil⟩

theorem VariesBy.path {q q' : Qualifier} (elements : List String) (h : q.VariesBy args args' q') :
    (path elements q).VariesBy args args' (.path elements q') :=
  ⟨congrArg (Qualifier.path elements) h.skeleton_eq, h.leaves⟩

theorem VariesBy.join {l l' r r' : Qualifier} (c : Connective) (hl : l.VariesBy args args' l')
    (hr : r.VariesBy args args' r') : (join c l r).VariesBy args args' (join c l' r') where
  skeleton_eq := by rw [skeleton_join, skeleton_join, hl.skeleton_eq, hr.skeleton_eq]
  leaves := by
    rw [leaves_join, leaves_join]
    exact List.rel_append hl.leaves hr.leaves

end Qualifier

/-! ### Replacement -/

section Replacement

theorem splitBytes_zero (cs : List Char) : splitBytes 0 cs = ([], cs) := by
  cases cs with
  | nil => rfl
  | cons c cs => rw [splitBytes, if_neg (Nat.not_le.mpr c.utf8Size_pos)]

theorem splitBytes_append (front cs : List Char) (n : Nat) :
    splitBytes (byteLength front + n) (front ++ cs) =
      (front ++ (splitBytes n cs).1, (splitBytes n cs).2) := by
  induction front with
  | nil => rw [List.nil_append, List.nil_append, byteLength, List.foldr_nil, Nat.zero_add]
  | cons c front ih =>
    have hsize : c.utf8Size + byteLength front + n - c.utf8Size = byteLength front + n := by omega
    rw [List.cons_append, splitBytes, byteLength_cons, if_pos (by omega), hsize, ih]
    rfl

theorem splitBytes_byteLength (front cs : List Char) :
    splitBytes (byteLength front) (front ++ cs) = (front, cs) := by
  rw [← Nat.add_zero (byteLength front), splitBytes_append, splitBytes_zero, List.append_nil]

theorem head?_splitBytes {n : Nat} {cs : List Char} {c : Char}
    (h : c ∈ (splitBytes n cs).1.head?) : c ∈ cs.head? := by
  cases cs with
  | nil => exact h
  | cons d cs =>
    rw [splitBytes] at h
    split at h
    · exact h
    · cases h

theorem replace_append {position : Nat} {edits : List (Span × List Char)} {front : List Char}
    (h : ∀ edit ∈ edits, position + byteLength front ≤ edit.1.start ∧ edit.1.start ≤ edit.1.stop)
    (cs : List Char) :
    replace position edits (front ++ cs) =
      front ++ replace (position + byteLength front) edits cs := by
  cases edits with
  | nil => rfl
  | cons edit edits =>
    obtain ⟨⟨start, stop⟩, new⟩ := edit
    obtain ⟨hstart, hstop⟩ := h _ List.mem_cons_self
    dsimp only at hstart hstop
    have hstart' : start - position =
        byteLength front + (start - (position + byteLength front)) := by omega
    have hstop' : stop - position =
        byteLength front + (stop - (position + byteLength front)) := by omega
    rw [replace, replace, hstart', hstop', splitBytes_append, splitBytes_append]
    simp only [List.append_assoc]

theorem replace_cons (position : Nat) (old new : List Char) (edits : List (Span × List Char))
    (cs : List Char) :
    replace position ((⟨position, position + byteLength old⟩, new) :: edits) (old ++ cs) =
      new ++ replace (position + byteLength old) edits cs := by
  rw [replace, Nat.sub_self, splitBytes_zero, Nat.add_sub_cancel_left, splitBytes_byteLength]
  rfl

/-- Where what is put in starts with a blank, lexemes end as they did before. -/
theorem endsAs_replace {edits : List (Span × List Char)}
    (h : ∀ edit ∈ edits, ∃ new, edit.2 = ' ' :: new) (position : Nat) (cs : List Char) :
    EndsAs cs (replace position edits cs) := by
  cases edits with
  | nil => exact .refl cs
  | cons edit edits =>
    obtain ⟨span, new⟩ := edit
    obtain ⟨new, rfl⟩ := h _ List.mem_cons_self
    rw [replace]
    cases hfront : (splitBytes (span.start - position) cs).1 with
    | nil => exact .space cs _
    | cons c front =>
      rintro _ ⟨⟩
      exact .inl (head?_splitBytes (by rw [hfront]; rfl))

end Replacement

namespace Cursor

/-- Tokens stand behind the place where the cursor starts. -/
theorem position_le_of_mem_tokens {c : Cursor} {ts : List PlacedToken} (h : c.tokens = .ok ts) :
    ∀ t ∈ ts, c.position ≤ t.span.start ∧ t.span.start ≤ t.span.stop := by
  fun_induction Cursor.tokens c generalizing ts with
  | case1 c c' hn =>
    cases h
    exact fun t ht => (List.not_mem_nil ht).elim
  | case2 c e c' hn => cases h
  | case3 c t c' hn ih =>
    cases hts : c'.tokens with
    | error e => rw [hts] at h; cases h
    | ok ts' =>
      rw [hts] at h
      cases h
      obtain ⟨blanks, lexeme, -, -, hstart, hstop, hnext, -⟩ := exists_of_next hn
      refine List.forall_mem_cons.mpr ⟨by omega, ?_⟩
      intro u hu
      have hu := ih hts u hu
      omega

end Cursor

variable {args : List Value}

theorem span_of_inlining? {t : PlacedToken} {edit : Span × List Char}
    (h : inlining? args t = some edit) : edit.1 = t.span ∧ ∃ new, edit.2 = ' ' :: new := by
  rw [inlining?] at h
  split at h
  · obtain ⟨v, -, rfl⟩ := Option.map_eq_some_iff.mp h
    exact ⟨rfl, _, rfl⟩
  · cases h

theorem exists_blank_of_mem_inlinings {ts : List PlacedToken} :
    ∀ edit ∈ ts.filterMap (inlining? args), ∃ new, edit.2 = ' ' :: new := by
  intro edit hedit
  obtain ⟨t, -, ht⟩ := List.mem_filterMap.mp hedit
  exact (span_of_inlining? ht).2

theorem position_le_of_mem_inlinings (args : List Value) {c : Cursor} {ts : List PlacedToken}
    (h : c.tokens = .ok ts) :
    ∀ edit ∈ ts.filterMap (inlining? args),
      c.position ≤ edit.1.start ∧ edit.1.start ≤ edit.1.stop := by
  intro edit hedit
  obtain ⟨t, ht, hinlining⟩ := List.mem_filterMap.mp hedit
  rw [(span_of_inlining? hinlining).1]
  exact Cursor.position_le_of_mem_tokens h t ht

/-! ### Tokens of the new text -/

/-- A token after the literals are put in. -/
def inlinedToken (args : List Value) : Token → Token
  | .parameter index => (args[index]?.map Value.literalToken).getD (.parameter index)
  | t => t

theorem inlinedToken_of_eq_none {t : PlacedToken} (h : inlining? args t = none) :
    inlinedToken args t.token = t.token := by
  obtain ⟨t, span⟩ := t
  cases t with
  | parameter index =>
    rw [inlining?, Option.map_eq_none_iff] at h
    rw [inlinedToken, h]
    rfl
  | _ => rfl

theorem inlinedToken_of_eq_some {t : PlacedToken} {edit : Span × List Char}
    (h : inlining? args t = some edit) :
    ∃ v : Value, edit = (t.span, ' ' :: (v.literal.toList ++ [' '])) ∧
      inlinedToken args t.token = v.literalToken := by
  obtain ⟨t, span⟩ := t
  cases t with
  | parameter index =>
    obtain ⟨v, hv, rfl⟩ := Option.map_eq_some_iff.mp h
    refine ⟨v, rfl, ?_⟩
    rw [inlinedToken, hv]
    rfl
  | _ => cases h

/-- A text is read with literals in the place of the parameters. -/
theorem lexes_replace {c : Cursor} {ts : List PlacedToken} (h : c.tokens = .ok ts) :
    Lexes (replace c.position (ts.filterMap (inlining? args)) c.rest)
      (ts.map fun t => inlinedToken args t.token) := by
  fun_induction Cursor.tokens c generalizing ts with
  | case1 c c' hn =>
    cases h
    have hblank := Lexes.blanks (Cursor.isBlank_of_next_finished hn) .nil
    rwa [List.append_nil] at hblank
  | case2 c e c' hn => cases h
  | case3 c t c' hn ih =>
    cases hts : c'.tokens with
    | error e => rw [hts] at h; cases h
    | ok ts =>
      rw [hts] at h
      cases h
      obtain ⟨blanks, lexeme, hblanks, hrest, hstart, hstop, hnext, hread⟩ :=
        Cursor.exists_of_next hn
      have hbehind := position_le_of_mem_inlinings args hts
      have ih := ih hts
      rw [hrest, List.map_cons]
      cases hedit : inlining? args t with
      | none =>
        have hplace : c.position + byteLength (blanks ++ lexeme) = c'.position := by
          rw [byteLength_append]
          omega
        rw [List.filterMap_cons_none hedit, inlinedToken_of_eq_none hedit, ← List.append_assoc,
          replace_append (hplace ▸ hbehind), hplace, List.append_assoc]
        exact .blanks hblanks
          (hread _ _ (endsAs_replace exists_blank_of_mem_inlinings c'.position c'.rest) ih)
      | some edit =>
        obtain ⟨v, rfl, htoken⟩ := inlinedToken_of_eq_some hedit
        have hspan : t.span = ⟨c.position + byteLength blanks,
            c.position + byteLength blanks + byteLength lexeme⟩ := by
          rw [← hstart, ← hstop]
        have hbehind' : ∀ edit ∈ (t.span, ' ' :: (v.literal.toList ++ [' '])) ::
            ts.filterMap (inlining? args),
            c.position + byteLength blanks ≤ edit.1.start ∧ edit.1.start ≤ edit.1.stop := by
          refine List.forall_mem_cons.mpr ⟨by dsimp only; omega, ?_⟩
          intro edit hmem
          have hmem := hbehind edit hmem
          omega
        rw [List.filterMap_cons_some hedit, htoken, replace_append hbehind', hspan, replace_cons,
          ← hstart, ← hstop, ← hnext]
        rw [List.cons_append, List.append_assoc]
        exact .blanks hblanks (.space (.literal v (delimited_cons (by decide)) ih.space))

/-! ### Derivations -/

namespace Parsing

/-- A token in the place of a parameter has the value of the parameter. -/
theorem operandValue?_inlinedToken {t : Token} {v : Value}
    (hargs : ∀ index v, t = .parameter index → args[index]? = some v → v.hasLiteral = true)
    (h : operandValue? args t = some v) : operandValue? args (inlinedToken args t) = some v := by
  cases t with
  | parameter index =>
    have hv : args[index]? = some v := h
    rw [inlinedToken, hv]
    change operandValue? args v.literalToken = some v
    rw [v.operandValue?_literalToken, Value.reread_eq_self (hargs index v rfl hv)]
  | _ => exact h

theorem map_inlinedToken_pathTokens (args : List Value) (elements : List String) :
    (pathTokens elements).map (inlinedToken args) = pathTokens elements := by
  induction elements with
  | nil => rfl
  | cons name elements ih =>
    change .identifier name :: .separator :: (pathTokens elements).map (inlinedToken args) = _
    rw [ih]
    rfl

/-- Phrases stand for the same filter with literals in the place of parameters. -/
theorem Derives.inlined {p : Phrase} {ts : List Token} {q : Qualifier} (h : Derives args p ts q)
    (hargs : ∀ index v, .parameter index ∈ ts → args[index]? = some v → v.hasLiteral = true) :
    Derives args p (ts.map (inlinedToken args)) q := by
  induction h with
  | @comparison name c t v hv =>
    refine .comparison name c (operandValue?_inlinedToken ?_ hv)
    rintro index v rfl
    exact hargs index v (by simp)
  | group _ ih =>
    rw [List.map_cons, List.map_append]
    refine .group (ih ?_)
    intro index v hmem
    exact hargs index v (List.mem_cons_of_mem _ (List.mem_append_left _ hmem))
  | path elements _ ih =>
    rw [List.map_append, map_inlinedToken_pathTokens]
    refine .path elements (ih ?_)
    intro index v hmem
    exact hargs index v (List.mem_append_right _ hmem)
  | term _ ih => exact .term (ih hargs)
  | join c _ _ ihl ihr =>
    rw [List.map_append, List.map_cons]
    refine .join c (ihl ?_) (ihr ?_)
    · intro index v hmem
      exact hargs index v (List.mem_append_left _ hmem)
    · intro index v hmem
      exact hargs index v (List.mem_append_right _ (List.mem_cons_of_mem _ hmem))

/-- What tokens stand for with one list of arguments or with another, as long. -/
theorem Derives.exists_variesBy {args' : List Value} (hlength : args'.length = args.length)
    {p : Phrase} {ts : List Token} {q : Qualifier} (h : Derives args p ts q) :
    ∃ q', Derives args' p ts q' ∧ q.VariesBy args args' q' := by
  induction h with
  | @comparison name c t v hv =>
    have hoperand : ∃ v', operandValue? args' t = some v' ∧ v.VariesBy args args' v' := by
      cases t with
      | parameter index =>
        obtain ⟨hindex, -⟩ := List.getElem?_eq_some_iff.mp hv
        have hv' := List.getElem?_eq_getElem (hlength ▸ hindex)
        exact ⟨_, hv', .inr ⟨index, hv, hv'⟩⟩
      | _ => exact ⟨v, hv, .inl rfl⟩
    obtain ⟨v', hv', hvaries⟩ := hoperand
    exact ⟨_, .comparison name c hv', .property name c hvaries⟩
  | group _ ih =>
    obtain ⟨q', hq', hvaries⟩ := ih
    exact ⟨q', .group hq', hvaries⟩
  | path elements _ ih =>
    obtain ⟨q', hq', hvaries⟩ := ih
    refine ⟨_, .path elements hq', ?_⟩
    cases elements with
    | nil => exact hvaries
    | cons name names => exact hvaries.path (name :: names)
  | term _ ih =>
    obtain ⟨q', hq', hvaries⟩ := ih
    exact ⟨q', .term hq', hvaries⟩
  | join c _ _ ihl ihr =>
    obtain ⟨l', hl', hl⟩ := ihl
    obtain ⟨r', hr', hr⟩ := ihr
    exact ⟨_, .join c hl' hr', hl.join c hr⟩

theorem StandsFor.exists_variesBy {args' : List Value} (hlength : args'.length = args.length)
    {ts : List Token} {q : Qualifier} (h : StandsFor args ts q) :
    ∃ q', StandsFor args' ts q' ∧ q.VariesBy args args' q' := by
  cases h with
  | derived h =>
    obtain ⟨q', hq', hvaries⟩ := h.exists_variesBy hlength
    exact ⟨q', .derived hq', hvaries⟩
  | @shorthand name v hts hv hq =>
    cases args' with
    | nil =>
      obtain rfl := List.length_eq_zero_iff.mp hlength.symm
      cases hv
    | cons v' args' =>
      rw [List.head?_eq_getElem?] at hv
      rw [hq]
      exact ⟨_, .shorthand hts rfl rfl, .property name .equals (.inr ⟨0, hv, rfl⟩)⟩

/-- What tokens stand for, literals in the place of parameters stand for too. -/
theorem StandsFor.inlined {ts : List Token} {q : Qualifier} (h : StandsFor args ts q)
    (hargs : ∀ index v, .parameter index ∈ ts → args[index]? = some v → v.hasLiteral = true) :
    StandsFor args (ts.map (inlinedToken args)) q := by
  cases h with
  | derived h => exact .derived (h.inlined hargs)
  | shorthand hts hv hq =>
    refine .shorthand ?_ hv hq
    rw [hts]
    rfl

end Parsing

theorem tokens_inline (args : List Value) {input : String} {ts : List PlacedToken}
    (hts : (Cursor.start input).tokens = .ok ts) :
    ∃ placed, (Cursor.start (inline args input)).tokens = .ok placed ∧
      placed.map (·.token) = (ts.map (·.token)).map (inlinedToken args) := by
  obtain ⟨placed, hplaced, hmap⟩ := (lexes_replace hts).tokens (inline args input) 0
  refine ⟨placed, ?_, by rw [hmap, List.map_map]; rfl⟩
  rw [← hplaced, Cursor.start]
  congr 2
  rw [inline, hts]
  exact String.toList_ofList

theorem mem_references {input : String} {ts : List PlacedToken}
    (hts : (Cursor.start input).tokens = .ok ts) {index : Nat}
    (h : .parameter index ∈ ts.map (·.token)) : index ∈ references input := by
  obtain ⟨t, ht, htoken⟩ := List.mem_map.mp h
  rw [references, hts]
  exact List.mem_filterMap.mpr ⟨t, ht, by rw [htoken]⟩

/-- A text is parsed to the same filter with the literals of the arguments in the place of the
parameters, and other arguments, as many, change the operands that they are and nothing else. -/
theorem parse_inline {input : String} {args : List Value} {q : Qualifier}
    (h : parse input args = .ok q)
    (hargs : ∀ index ∈ references input, ∀ v, args[index]? = some v → v.hasLiteral = true) :
    parse (inline args input) args = .ok q ∧
      ∀ args' : List Value, args'.length = args.length →
        ∃ q', parse input args' = .ok q' ∧ q.VariesBy args args' q' := by
  obtain ⟨ts, hts, hq⟩ := standsFor_of_parse h
  constructor
  · have hinlined := hq.inlined fun index v hmem => hargs index (mem_references hts hmem) v
    obtain ⟨placed, hplaced, hmap⟩ := tokens_inline args hts
    rw [← hmap] at hinlined
    exact hinlined.parse_eq hplaced
  · intro args' hlength
    obtain ⟨q', hq', hvaries⟩ := hq.exists_variesBy hlength
    exact ⟨q', hq'.parse_eq hts, hvaries⟩

theorem parse_inline_quotes :
    let input := "a={0}or b={1}and c>{2}"
    let args : List Value := [.text "' or '\\", .bool true, .int 7]
    let q : Qualifier := .clause .and
      [.clause .or
        [.property "a" ⟨.equals, .text "' or '\\"⟩, .property "b" ⟨.equals, .bool true⟩],
      .property "c" ⟨.greaterThan, .int 7⟩]
    parse input args = .ok q ∧
      (∀ index ∈ references input, ∀ v, args[index]? = some v → v.hasLiteral = true) ∧
      parse (inline args input) args = .ok q ∧
      ∀ args' : List Value, args'.length = args.length →
        ∃ q', parse input args' = .ok q' ∧ q.VariesBy args args' q' := by
  intro input args q
  have h : parse input args = .ok q := by decide +kernel
  have hall : ∀ v ∈ args, v.hasLiteral = true := by decide
  have hargs : ∀ index ∈ references input, ∀ v, args[index]? = some v → v.hasLiteral = true :=
    fun _ _ v hv => hall v (List.mem_of_getElem? hv)
  exact ⟨h, hargs, parse_inline h hargs⟩

example : inline [.text "it's", .bool true] "a={0}or b!={1}" = "a= 'it\\'s' or b!= true " := by
  decide +kernel

end FilterLang
