/-! Logical types: the types of columns before a dialect gives them its own. -/

namespace FilterLang

/-- The type of a column, whatever the database. -/
inductive LogicalType where
  | boolean
  | int16
  | int32
  | int64
  | double
  | decimal
  | string
  | dateTime
  | bytes
  | guid
  | interval
  /-- A type that no dialect knows. -/
  | custom (name : String)
  deriving DecidableEq

/-- The name of a type in messages. -/
def LogicalType.text : LogicalType → String
  | boolean => "boolean"
  | int16 => "int16"
  | int32 => "int32"
  | int64 => "int64"
  | double => "double"
  | decimal => "decimal"
  | string => "string"
  | dateTime => "datetime"
  | bytes => "bytes"
  | guid => "guid"
  | interval => "interval"
  | custom name => name

end FilterLang
