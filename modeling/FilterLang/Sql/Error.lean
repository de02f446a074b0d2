import FilterLang.Schema.LogicalType

/-! Why a statement cannot be written for a dialect. -/

namespace FilterLang.Sql

/-- A statement that writes columns. -/
inductive WriteStatement where
  | insert
  | update
  deriving DecidableEq

def WriteStatement.keyword : WriteStatement → String
  | insert => "INSERT"
  | update => "UPDATE"

inductive CompileError where
  /-- A value is bound for a column whose type the dialect does not have. -/
  | unmappableType (dialect column : String) (type : LogicalType)
  /-- A filter on related objects; only columns are compared in SQL. -/
  | pathNotCompilable (path : String)
  /-- The dialect cannot read a key that the database made. -/
  | unreadableKey (dialect table column : String)
  | nothingToWrite (statement : WriteStatement) (table : String)
  deriving DecidableEq

def CompileError.message : CompileError → String
  | unmappableType dialect column type =>
    dialect ++ " cannot bind column '" ++ column ++ "': logical type " ++ type.text ++
      " has no native mapping"
  | pathNotCompilable path => "path qualifier '" ++ path ++ "' cannot be compiled to SQL"
  | unreadableKey dialect table column =>
    dialect ++ " does not support database-generated key " ++ table ++ "." ++ column
  | nothingToWrite statement table =>
    statement.keyword ++ " on '" ++ table ++ "' has no columns to write"

end FilterLang.Sql
