import FilterLang.Sql.Error
import FilterLang.Sql.NativeType

/-! The dialects of SQL and where they differ. -/

namespace FilterLang.Sql

/-- A dialect. Three of them quote identifiers or not, as configured; one never quotes and one
always does. -/
inductive Dialect where
  | generic (quotes : Bool)
  | mysql (quotes : Bool)
  | postgres (quotes : Bool)
  | oracle
  /-- Keys that the database makes are read from the generator. -/
  | firebird (generator : String)
  deriving DecidableEq

/-- Where a dialect writes the row limit. -/
inductive RowLimit where
  /-- `SELECT TOP n …` -/
  | top
  /-- `SELECT FIRST n …` -/
  | first
  /-- `SELECT … LIMIT n` -/
  | limit
  /-- `SELECT * FROM (…) WHERE ROWNUM <= n` -/
  | rowNum
  deriving DecidableEq

/-- How a pattern is compared: the texts around the column and the parameter. -/
structure LikeForm where
  before : String
  between : String
  after : String
  deriving DecidableEq

/-- How the key that the database made for the last row is read. -/
inductive KeyQuery where
  | identity
  | lastInsertId
  | sequence (name : String)
  | generator (name : String)
  deriving DecidableEq

def KeyQuery.sql : KeyQuery → String
  | identity => "SELECT @@IDENTITY"
  | lastInsertId => "SELECT LAST_INSERT_ID()"
  | sequence name => "SELECT currval('" ++ name ++ "')"
  | generator name => "SELECT GEN_ID(" ++ name ++ ", 0) FROM RDB$DATABASE"

namespace Dialect

def name : Dialect → String
  | generic _ => "generic"
  | mysql _ => "mysql"
  | postgres _ => "postgresql"
  | oracle => "oracle"
  | firebird _ => "firebird"

def quotesIdentifiers : Dialect → Bool
  | generic quotes | mysql quotes | postgres quotes => quotes
  | oracle => false
  | firebird _ => true

/-- The quotes around an identifier. -/
def quotes : Dialect → Char × Char
  | generic _ => ('[', ']')
  | mysql _ => ('\x60', '\x60')
  | postgres _ | oracle | firebird _ => ('"', '"')

/-- An identifier in quotes; a closing quote in it is doubled. -/
def quoteIdentifier (d : Dialect) (name : String) : String :=
  let (opening, closing) := d.quotes
  String.ofList
    (opening :: (name.toList.flatMap (fun c => if c = closing then [c, c] else [c]) ++ [closing]))

/-- An identifier as it stands in a statement. -/
def identifier (d : Dialect) (name : String) : String :=
  if d.quotesIdentifiers then d.quoteIdentifier name else name

/-- The character before a parameter name. -/
def parameterMark : Dialect → Char
  | generic _ | firebird _ => '@'
  | mysql _ => '?'
  | postgres _ | oracle => ':'

/-- The greatest length of a parameter name with its mark. -/
def parameterNameLimit? : Dialect → Option Nat
  | postgres _ | oracle => some 30
  | generic _ | mysql _ | firebird _ => none

/-- A parameter name from a base and a suffix. Where names are limited, the base is cut so that the
suffix stays whole. -/
def parameterName (d : Dialect) (base suffix : String) : String :=
  let name := d.parameterMark :: base.toList
  let kept := match d.parameterNameLimit? with
    | some limit => name.take (limit - suffix.length)
    | none => name
  String.ofList (kept ++ suffix.toList)

def rowLimit : Dialect → RowLimit
  | generic _ => .top
  | mysql _ | postgres _ => .limit
  | oracle => .rowNum
  | firebird _ => .first

def likeForm : Dialect → LikeForm
  | generic _ | mysql _ => ⟨"", " LIKE ", ""⟩
  | postgres _ => ⟨"", " ILIKE ", ""⟩
  | oracle | firebird _ => ⟨"UPPER(", ") LIKE UPPER(", ")"⟩

/-- A pattern comparison with a column and a parameter that are already written. -/
def renderLike (d : Dialect) (column parameter : String) : String :=
  d.likeForm.before ++ column ++ d.likeForm.between ++ parameter ++ d.likeForm.after

def typeMap : Dialect → TypeMap
  | generic _ => .ofList "IMAGE" [(.boolean, "BIT"), (.int16, "SMALLINT"), (.int32, "INT"),
      (.int64, "BIGINT"), (.double, "FLOAT"), (.decimal, "DECIMAL"), (.string, "NVARCHAR"),
      (.dateTime, "DATETIME"), (.bytes, "VARBINARY"), (.guid, "UNIQUEIDENTIFIER")]
  | mysql _ => .ofList "LONGBLOB" [(.boolean, "TINYINT"), (.int16, "SMALLINT"), (.int32, "INT"),
      (.int64, "BIGINT"), (.double, "DOUBLE"), (.decimal, "DECIMAL"), (.string, "VARCHAR"),
      (.dateTime, "DATETIME"), (.bytes, "BLOB"), (.guid, "CHAR")]
  | postgres _ => .ofList "BYTEA" [(.boolean, "BOOLEAN"), (.int16, "SMALLINT"), (.int32, "INTEGER"),
      (.int64, "BIGINT"), (.double, "DOUBLE PRECISION"), (.decimal, "NUMERIC"),
      (.string, "VARCHAR"), (.dateTime, "TIMESTAMP"), (.bytes, "BYTEA"), (.guid, "UUID"),
      (.interval, "INTERVAL")]
  | oracle => .ofList "BLOB" [(.boolean, "NUMBER"), (.int16, "NUMBER"), (.int32, "NUMBER"),
      (.int64, "NUMBER"), (.double, "BINARY_DOUBLE"), (.decimal, "NUMBER"), (.string, "VARCHAR2"),
      (.dateTime, "TIMESTAMP"), (.bytes, "RAW"), (.guid, "RAW"),
      (.interval, "INTERVAL DAY TO SECOND")]
  | firebird _ => .ofList "BLOB" [(.boolean, "BOOLEAN"), (.int16, "SMALLINT"), (.int32, "INTEGER"),
      (.int64, "BIGINT"), (.double, "DOUBLE PRECISION"), (.decimal, "DECIMAL"),
      (.string, "VARCHAR"), (.dateTime, "TIMESTAMP"), (.bytes, "BLOB"), (.guid, "CHAR")]

/-- The native type of the parameters for a logical type. -/
def nativeType (d : Dialect) (type : LogicalType) : NativeType := d.typeMap.get type

/-- How the key made for a column is read. -/
def keyQuery (d : Dialect) (table column : String) : Except CompileError KeyQuery :=
  match d with
  | generic _ => .ok .identity
  | mysql _ => .ok .lastInsertId
  | postgres _ => .ok (.sequence (table ++ "_" ++ column ++ "_seq"))
  | oracle => .error (.unreadableKey d.name table column)
  | firebird generator => .ok (.generator generator)

end Dialect

/-- Why a key could not be read. -/
inductive KeyError where
  | compile (e : CompileError)
  | execution (text : String)
  deriving DecidableEq

def KeyError.message : KeyError → String
  | compile e => e.message
  | execution text => "execution error: " ++ text

/-- Reads the key made for a column by the last insertion. A dialect that cannot read keys runs no
query. -/
def retrieveKey {m : Type → Type} [Monad m] {α : Type} (d : Dialect)
    (query : String → m (Except String α)) (table column : String) : m (Except KeyError α) :=
  match d.keyQuery table column with
  | .error e => pure (.error (.compile e))
  | .ok q => do return (← query q.sql).mapError .execution

end FilterLang.Sql
