import FilterLang.Qualifier.Basic
import FilterLang.Sql.Command

/-! Filters as conditions of SQL. -/

namespace FilterLang.Sql

/-- The comparison of a column with a parameter. -/
def likeFragment (d : Dialect) (column parameter : String) : Fragment :=
  [.keyword d.likeForm.before, .identifier column, .keyword d.likeForm.between,
    .parameter parameter, .keyword d.likeForm.after]

theorem text_likeFragment (d : Dialect) (column parameter : String) :
    (likeFragment d column parameter).text d = d.renderLike (d.identifier column) parameter := by
  simp only [likeFragment, Fragment.text, List.map_cons, List.map_nil, Piece.text,
    String.join_cons, String.join_nil, Dialect.renderLike, String.append_assoc, String.append_empty]

/-- A predicate on a column. Null is not bound when it is compared for equality. -/
def comparison (d : Dialect) (t : Table) (column : String) (p : Predicate) (b : Binder) :
    Except CompileError (Fragment × Binder) :=
  match p.comparison, p.operand with
  | .equals, .null => .ok ([.identifier column, .keyword " IS NULL"], b)
  | .notEqual, .null => .ok ([.identifier column, .keyword " IS NOT NULL"], b)
  | .like, v =>
    match b.bind d t column v with
    | .ok (name, b) => .ok (likeFragment d column name, b)
    | .error e => .error e
  | c, v =>
    match b.bind d t column (comparedValue t column v) with
    | .ok (name, b) =>
      .ok ([.identifier column, .keyword (" " ++ c.sqlSymbol ++ " "), .parameter name], b)
    | .error e => .error e

/-- The condition of a clause without children. -/
def emptyClause : Connective → Fragment
  | .and => [.keyword "1 = 1"]
  | .or => [.keyword "1 = 0"]

mutual

/-- The condition that a filter is; the children of a clause stand in parentheses. -/
def condition (d : Dialect) (t : Table) : Qualifier → Binder →
    Except CompileError (Fragment × Binder)
  | .column name p, b => comparison d t name p b
  | .property name p, b => comparison d t name p b
  | .path elements _, _ => .error (.pathNotCompilable (Qualifier.dotted elements))
  | .clause c [], b => .ok (emptyClause c, b)
  | .clause c children, b =>
    match conditions d t children b with
    | .ok (parts, b) => .ok (Fragment.separate (" " ++ c.sqlKeyword ++ " ") parts, b)
    | .error e => .error e

/-- The conditions of children, each in parentheses. -/
def conditions (d : Dialect) (t : Table) : List Qualifier → Binder →
    Except CompileError (List Fragment × Binder)
  | [], b => .ok ([], b)
  | q :: rest, b =>
    match condition d t q b with
    | .error e => .error e
    | .ok (f, b) =>
      match conditions d t rest b with
      | .ok (fs, b) => .ok ((.keyword "(" :: (f ++ [.keyword ")"])) :: fs, b)
      | .error e => .error e

end

/-- The condition after its keyword, or nothing. -/
def whereClause (d : Dialect) (t : Table) (q : Option Qualifier) (b : Binder) :
    Except CompileError (Fragment × Binder) :=
  match q with
  | none => .ok ([], b)
  | some q => (condition d t q b).map fun (f, b) => (.keyword " WHERE " :: f, b)

/-- A filter as a condition with its parameters, without the keyword. -/
def compileQualifier (d : Dialect) (t : Table) (q : Qualifier) : Except CompileError Command :=
  (condition d t q {}).map fun (f, b) => ⟨d, f, b.parameters⟩

end FilterLang.Sql
