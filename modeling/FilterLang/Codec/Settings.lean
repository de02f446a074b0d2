import FilterLang.Codec.Record
import FilterLang.Json.Reader
import FilterLang.Json.Writer
import FilterLang.Sql.Settings

/-! The choice of a dialect in JSON. -/

namespace FilterLang.Sql

namespace DialectKind

def tag : DialectKind → String
  | generic => "generic"
  | mysql => "mysql"
  | postgres => "postgres"
  | oracle => "oracle"
  | firebird => "firebird"

/-- The dialect with a name; two have a second name. -/
def ofTag? : String → Option DialectKind
  | "my_sql" => some mysql
  | "postgresql" => some postgres
  | name => all.find? (·.tag == name)

def decode? (j : Json) : Option DialectKind := j.unit?.bind ofTag?

end DialectKind

namespace Settings

/-- Settings that are not set are left out. -/
def encode (s : Settings) : Json :=
  .object ([("dialect", .string s.kind.tag)] ++
    (s.quotesIdentifiers.map fun b => ("delimited_identifiers", Json.bool b)).toList ++
    (s.generator.map fun g => ("generator", Json.string g)).toList)

def decode? (j : Json) : Option Settings := do
  match ← j.fields? ["dialect", "delimited_identifiers", "generator"] with
  | [kind, quotes, generator] =>
    pure ⟨← Json.required? DialectKind.decode? kind,
      ← Json.optional? (Json.nullable? Json.bool?) none quotes,
      ← Json.optional? (Json.nullable? Json.string?) none generator⟩
  | _ => none

/-- Reads settings from a text. -/
def ofText? (text : String) : Option Settings := (Json.ofText? text).bind decode?

end Settings

end FilterLang.Sql
