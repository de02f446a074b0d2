import FilterLang.Sql.Dialect

/-! The choice of a dialect. -/

namespace FilterLang.Sql

/-- The dialects, unconfigured. -/
inductive DialectKind where
  | generic
  | mysql
  | postgres
  | oracle
  | firebird
  deriving DecidableEq

def DialectKind.all : List DialectKind := [generic, mysql, postgres, oracle, firebird]

/-- A dialect and what is configured about it. -/
structure Settings where
  kind : DialectKind
  quotesIdentifiers : Option Bool := none
  generator : Option String := none
  deriving DecidableEq

def defaultGenerator : String := "GEN_IDENTITY"

/-- The dialect chosen. Settings that a dialect does not have are ignored. -/
def Settings.dialect (s : Settings) : Dialect :=
  match s.kind with
  | .generic => .generic (s.quotesIdentifiers.getD false)
  | .mysql => .mysql (s.quotesIdentifiers.getD true)
  | .postgres => .postgres (s.quotesIdentifiers.getD false)
  | .oracle => .oracle
  | .firebird => .firebird (s.generator.getD defaultGenerator)

/-- A dialect as it is when nothing is configured. -/
def DialectKind.dialect (k : DialectKind) : Dialect := (Settings.mk k none none).dialect

end FilterLang.Sql
