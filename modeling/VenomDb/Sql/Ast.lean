import Mathlib.Tactic

/-!
# Statements and values

The abstract syntax the parser hands to the executor, and the comparison of two
literal values. `i64` is `Int64`. An `f64` is kept as its bit pattern, which is
also how rows store it and how two floats are told apart here; comparing floats
and converting an integer to a float follow IEEE 754.
-/

namespace VenomDb

namespace Float64

/-- Exponent all ones and a mantissa that is not zero. -/
def isNan (bits : UInt64) : Bool :=
  bits.toNat / 2 ^ 52 % 2 ^ 11 == 2 ^ 11 - 1 && bits.toNat % 2 ^ 52 != 0

/-- Orders the patterns that are not NaN: magnitude, negated under the sign bit.
Both zeros map to `0`. -/
def rank (bits : UInt64) : ℤ :=
  if bits.toNat < 2 ^ 63 then bits.toNat else -(bits.toNat - 2 ^ 63 : ℕ)

/-- `f64::partial_cmp`. -/
def partialCmp (left right : UInt64) : Option Ordering :=
  if isNan left || isNan right then none else some (compare (rank left) (rank right))

/-- The mantissa of a positive integer in 53 bits, rounded to nearest, ties to even. -/
def roundedMantissa (magnitude : ℕ) : ℕ :=
  let exponent := magnitude.log2
  if exponent ≤ 52 then magnitude * 2 ^ (52 - exponent)
  else
    let unit := 2 ^ (exponent - 52)
    let quotient := magnitude / unit
    let rest := magnitude % unit
    if 2 * rest > unit || (2 * rest == unit && quotient % 2 == 1) then quotient + 1 else quotient

/-- `n as f64`. -/
def ofI64 (n : Int64) : UInt64 :=
  let magnitude := n.toInt.natAbs
  if magnitude = 0 then 0
  else
    -- the mantissa still holds its leading one, which adds one to the exponent field
    let unsigned := (magnitude.log2 + 1022) * 2 ^ 52 + roundedMantissa magnitude
    UInt64.ofNat (if n.toInt < 0 then 2 ^ 63 + unsigned else unsigned)

example : ofI64 1 = 0x3FF0000000000000 := by decide
example : ofI64 (-3) = 0xC008000000000000 := by decide

end Float64

/-- A literal value in SQL. -/
inductive Value where
  | int (n : Int64)
  | float (bits : UInt64)
  | text (s : String)
  | null
  deriving DecidableEq

namespace Value

/-- `PartialOrd for Value`: numbers compare across types, texts byte by byte. -/
def partialCmp : Value → Value → Option Ordering
  | .int a, .int b => some (compare a.toInt b.toInt)
  | .float a, .float b => Float64.partialCmp a b
  | .int a, .float b => Float64.partialCmp (Float64.ofI64 a) b
  | .float a, .int b => Float64.partialCmp a (Float64.ofI64 b)
  | .text a, .text b => some (compare a b)
  | _, _ => none

end Value

inductive DataType where
  | int
  | text
  | float
  deriving DecidableEq

structure ColumnDef where
  name : String
  ty : DataType
  primaryKey : Bool
  deriving DecidableEq

inductive Op where
  | eq
  | ne
  | lt
  | gt
  | le
  | ge
  | isNull
  | isNotNull
  deriving DecidableEq

/-- A `WHERE` clause: a column compared with a literal. -/
structure Expr where
  left : String
  op : Op
  right : Value
  deriving DecidableEq

structure Assignment where
  column : String
  value : Value
  deriving DecidableEq

inductive OrderDir where
  | asc
  | desc
  deriving DecidableEq

inductive SelectColumns where
  | star
  | named (names : List String)
  deriving DecidableEq

inductive Statement where
  | createTable (table : String) (columns : List ColumnDef)
  | insert (table : String) (values : List Value)
  | update (table : String) (assignments : List Assignment) (filter : Option Expr)
  | select (table : String) (columns : SelectColumns) (filter : Option Expr)
      (orderBy : Option (String × OrderDir)) (limit : Option UInt64)
  | delete (table : String) (filter : Option Expr)
  deriving DecidableEq

/-- A row returned from a query. -/
abbrev Row := List Value

end VenomDb
