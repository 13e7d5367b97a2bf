import VenomDb.Sql.Ast
import VenomDb.Lib.Fallible

/-!
# Failures

The ways a call can end without a value. The source builds error texts with
`format!`; here each text is a constructor that carries the values it prints.
A panic ends the process, so a run that meets one returns neither `Ok` nor `Err`.
-/

namespace VenomDb

/-- `std::io::Error` as the storage layers raise it. -/
inductive IoError where
  /-- "Buffer pool full: all pages are pinned" -/
  | poolFull
  /-- "page full" -/
  | pageFull
  /-- `read_exact` past the end of the file. -/
  | unexpectedEof
  /-- "Checksum mismatch on page {}" -/
  | checksumMismatch (pageId : UInt32)
  /-- A read or write that the operating system refuses. -/
  | device
  deriving DecidableEq

/-- The `String` errors of the executor and of row encoding. -/
inductive SqlError where
  /-- "table '{}' not found" -/
  | tableNotFound (table : String)
  /-- "table '{}' already exists" -/
  | tableExists (table : String)
  /-- "table meta for '{}' not found" -/
  | tableMetaNotFound (table : String)
  /-- "PRIMARY KEY column '{}' cannot be NULL" -/
  | primaryKeyNull (column : String)
  /-- "duplicate primary key: {} = {}" -/
  | duplicatePrimaryKey (column : String) (key : Int64)
  /-- "expected {} values, got {}" -/
  | arity (expected got : ℕ)
  /-- "type mismatch for column '{}': expected {:?}, got {:?}" -/
  | columnTypeMismatch (column : String) (expected : DataType) (got : Value)
  /-- "unexpected end of row data" -/
  | unexpectedEnd
  /-- "utf8 error" -/
  | utf8
  /-- "type tag {} doesn't match {:?}" -/
  | tagMismatch (tag : UInt8) (ty : DataType)
  /-- "column '{}' not found" -/
  | columnNotFound (column : String)
  /-- "ORDER BY column '{}' not found" -/
  | orderByNotFound (column : String)
  /-- "ORDER BY column '{}' not in SELECT list" -/
  | orderByNotSelected (column : String)
  /-- "type mismatch: cannot assign {:?} to column '{}'" -/
  | assignTypeMismatch (value : Value) (column : String)
  /-- "UPDATE failed: new value for row is larger than original ..." -/
  | updateLarger
  /-- "type mismatch in WHERE: {:?} {:?} {:?}" -/
  | filterTypeMismatch (cell : Value) (op : Op) (right : Value)
  /-- "unsupported operator: {:?}" -/
  | unsupportedOperator (op : Op)
  /-- "fetch page {}: {}" -/
  | fetchPage (pageId : UInt32) (error : IoError)
  /-- "new page: {}" -/
  | newPage (error : IoError)
  /-- "wal insert: {}" -/
  | walInsert (error : IoError)
  /-- "wal insert new page: {}" -/
  | walInsertNewPage (error : IoError)
  /-- "flush page: {}" -/
  | flushPage (error : IoError)
  deriving DecidableEq

inductive Panic where
  /-- An index or a slice outside its array. -/
  | outOfBounds
  /-- Integer overflow, with overflow checks on. -/
  | overflow
  deriving DecidableEq

inductive Failure where
  | io (error : IoError)
  | sql (error : SqlError)
  | panic (panic : Panic)
  deriving DecidableEq

/-- `map_err` on an I/O result: wraps the I/O error in a message. -/
def Failure.wrapIo (wrap : IoError → SqlError) : Failure → Failure
  | .io error => .sql (wrap error)
  | failure => failure

end VenomDb
