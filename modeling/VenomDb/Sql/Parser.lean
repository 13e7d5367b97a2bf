import VenomDb.Sql.Lexer

/-!
# The parser

Turns tokens into a statement. The state of the parser is the list of tokens from its
position on; past the end of the list it reads `Eof`. All lists of the grammar are
read by one loop, which ends because every round of it takes a token.
-/

namespace VenomDb

/-- The `String` errors of the parser; they print the token that was found. -/
inductive ParseError where
  /-- "unexpected token: {:?}" -/
  | unexpectedToken (got : Token)
  /-- "expected {:?}, got {:?}" -/
  | expected (expected got : Token)
  /-- "expected identifier, got {:?}" -/
  | expectedIdentifier (got : Token)
  /-- "expected type, got {:?}" -/
  | expectedType (got : Token)
  /-- "expected value, got {:?}" -/
  | expectedValue (got : Token)
  /-- "expected ',' or ')', got {:?}" -/
  | expectedCommaOrParen (got : Token)
  /-- "expected operator, got {:?}" -/
  | expectedOperator (got : Token)
  /-- "expected positive integer after LIMIT, got {:?}" -/
  | expectedLimit (got : Token)
  deriving DecidableEq

/-- `std::mem::discriminant`: the token without the value it carries. -/
def Token.discriminant : Token → Token
  | .ident _ => .ident ""
  | .intLit _ => .intLit 0
  | .floatLit _ => .floatLit 0
  | .textLit _ => .textLit ""
  | token => token

/-- A step of the parser; its state is the list of tokens it has not consumed yet. -/
abbrev Parser := Fallible ParseError (List Token)

namespace Parser

variable {α : Type}

def peek : Parser Token := fun tokens => (.ok (tokens.headD .eof), tokens)

def advance : Parser Token := fun tokens => (.ok (tokens.headD .eof), tokens.tail)

def expect (expected : Token) : Parser Unit := do
  let token ← advance
  if token.discriminant = expected.discriminant then return ()
  else Fallible.throw (.expected expected token)

def expectIdent : Parser String := do
  match ← advance with
  | .ident name => return name
  | token => Fallible.throw (.expectedIdentifier token)

/-- A literal, as `INSERT`, `UPDATE` and `WHERE` read it. -/
def parseValue : Parser Value := do
  match ← advance with
  | .intLit n => return .int n
  | .floatLit bits => return .float bits
  | .textLit s => return .text s
  | .null => return .null
  | token => Fallible.throw (.expectedValue token)

def parseType : Parser DataType := do
  match ← advance with
  | .int => return .int
  | .text => return .text
  | .float => return .float
  | token => Fallible.throw (.expectedType token)

section Reads

variable {tokens rest : List Token}

@[simp]
theorem peek_bind (next : Token → Parser α) :
    (peek >>= next) tokens = next (tokens.headD .eof) tokens := rfl

@[simp]
theorem advance_bind (next : Token → Parser α) :
    (advance >>= next) tokens = next (tokens.headD .eof) tokens.tail := rfl

/-- A step that goes one way if a keyword follows, which it takes, and another way if not. -/
theorem ite_peek_eq_ok {keyword : Token} (proper : keyword ≠ .eof) {taken skipped : Parser α}
    {value : α} :
    (peek >>= fun next => if next = keyword then advance >>= fun _ => taken else skipped) tokens =
        (.ok value, rest) ↔
      (∃ after, tokens = keyword :: after ∧ taken after = (.ok value, rest)) ∨
        (tokens.headD .eof ≠ keyword ∧ skipped tokens = (.ok value, rest)) := by
  rw [peek_bind]
  split
  next given =>
    rcases tokens with _ | ⟨token, tokens⟩
    · exact absurd given.symm proper
    · obtain rfl : token = keyword := given
      simp
  next missing =>
    constructor
    · exact fun read => .inr ⟨missing, read⟩
    · rintro (⟨after, rfl, -⟩ | ⟨-, read⟩)
      · exact absurd rfl missing
      · exact read

/-- Tokens without a value, other than the end. -/
def isPlain (token : Token) : Bool :=
  match token with
  | .ident _ | .intLit _ | .floatLit _ | .textLit _ | .eof => false
  | _ => true

theorem discriminant_eq_iff {expected : Token} (plain : isPlain expected = true) (token : Token) :
    token.discriminant = expected.discriminant ↔ token = expected := by
  have kept : expected.discriminant = expected := by
    cases expected <;> first | rfl | exact absurd plain Bool.false_ne_true
  refine ⟨fun same => ?_, fun same => by rw [same]⟩
  rw [kept] at same
  cases token <;> first | exact same | (subst same; exact absurd plain Bool.false_ne_true)

theorem expect_eq_ok (expected : Token) (plain : isPlain expected = true) {value : Unit} :
    expect expected tokens = (.ok value, rest) ↔ tokens = expected :: rest := by
  have same := discriminant_eq_iff plain
  cases tokens with
  | nil =>
      have differs : ¬Token.eof = expected := by rintro rfl; exact Bool.false_ne_true plain
      simp [expect, same, differs]
  | cons token tokens =>
      by_cases found : token = expected
      · simp [expect, found]
      · simp [expect, same, found]

theorem expectIdent_eq_ok {name : String} :
    expectIdent tokens = (.ok name, rest) ↔ tokens = .ident name :: rest := by
  cases tokens with
  | nil => simp [expectIdent]
  | cons token tokens => cases token <;> simp [expectIdent]

/-- The token of a literal. -/
def literal : Value → Token
  | .int n => .intLit n
  | .float bits => .floatLit bits
  | .text s => .textLit s
  | .null => .null

theorem parseValue_eq_ok {value : Value} :
    parseValue tokens = (.ok value, rest) ↔ tokens = literal value :: rest := by
  rw [parseValue, advance_bind]
  cases tokens with
  | nil => cases value <;> dsimp only [List.headD, List.tail] <;> simp
  | cons token tokens =>
      cases token <;> cases value <;> dsimp only [List.headD, List.tail] <;> simp [literal]

/-- The token of a type. -/
def typeToken : DataType → Token
  | .int => .int
  | .text => .text
  | .float => .float

theorem parseType_eq_ok {ty : DataType} :
    parseType tokens = (.ok ty, rest) ↔ tokens = typeToken ty :: rest := by
  cases tokens with
  | nil => cases ty <;> simp [parseType]
  | cons token tokens => cases token <;> cases ty <;> simp [parseType, typeToken]

end Reads

section Items

variable {tokens rest : List Token}

/-- `PRIMARY KEY`, if it follows. -/
def parsePrimaryKey : Parser Bool := do
  if (← peek) = .primary then do
    let _ ← advance
    expect .key
    return true
  else return false

def parseColumn : Parser ColumnDef := do
  let name ← expectIdent
  let ty ← parseType
  let primaryKey ← parsePrimaryKey
  return { name, ty, primaryKey }

def parseAssignment : Parser Assignment := do
  let column ← expectIdent
  expect .eq
  let value ← parseValue
  return { column, value }

/-- The tokens of a column definition. -/
def columnTokens (column : ColumnDef) : List Token :=
  .ident column.name :: typeToken column.ty :: if column.primaryKey then [.primary, .key] else []

/-- The tokens of an assignment. -/
def assignmentTokens (assignment : Assignment) : List Token :=
  [.ident assignment.column, .eq, literal assignment.value]

theorem parsePrimaryKey_eq_ok {primaryKey : Bool} :
    parsePrimaryKey tokens = (.ok primaryKey, rest) ↔
      tokens = (if primaryKey then [.primary, .key] else []) ++ rest ∧
        (primaryKey = false → rest.headD .eof ≠ .primary) := by
  rw [parsePrimaryKey, ite_peek_eq_ok (by decide)]
  simp only [Fallible.bind_eq_ok_iff, expect_eq_ok .key rfl, Fallible.pure_apply, Prod.mk.injEq,
    Except.ok.injEq]
  constructor
  · rintro (⟨_, rfl, _, _, rfl, rfl, rfl⟩ | ⟨missing, rfl, rfl⟩)
    · simp
    · exact ⟨rfl, fun _ => missing⟩
  · rintro ⟨rfl, ends⟩
    cases primaryKey with
    | true => exact .inl ⟨_, rfl, (), _, rfl, rfl, rfl⟩
    | false => exact .inr ⟨ends rfl, rfl, rfl⟩

theorem parseColumn_eq_ok {column : ColumnDef} :
    parseColumn tokens = (.ok column, rest) ↔
      tokens = columnTokens column ++ rest ∧
        (column.primaryKey = false → rest.headD .eof ≠ .primary) := by
  simp only [parseColumn, Fallible.bind_eq_ok_iff, expectIdent_eq_ok, parseType_eq_ok,
    parsePrimaryKey_eq_ok, Fallible.pure_apply, Prod.mk.injEq, Except.ok.injEq]
  constructor
  · rintro ⟨name, _, rfl, ty, _, rfl, primaryKey, _, ⟨rfl, ends⟩, rfl, rfl⟩
    exact ⟨rfl, ends⟩
  · rintro ⟨rfl, ends⟩
    exact ⟨column.name, _, rfl, column.ty, _, rfl, column.primaryKey, _, ⟨rfl, ends⟩, rfl, rfl⟩

theorem parseAssignment_eq_ok {assignment : Assignment} :
    parseAssignment tokens = (.ok assignment, rest) ↔
      tokens = assignmentTokens assignment ++ rest := by
  simp only [parseAssignment, Fallible.bind_eq_ok_iff, expectIdent_eq_ok, parseValue_eq_ok,
    expect_eq_ok .eq rfl, Fallible.pure_apply, Prod.mk.injEq, Except.ok.injEq]
  constructor
  · rintro ⟨column, _, rfl, _, _, rfl, value, _, rfl, rfl, rfl⟩
    rfl
  · rintro rfl
    exact ⟨assignment.column, _, rfl, (), _, rfl, assignment.value, _, rfl, rfl, rfl⟩

end Items

section Loops

/-- Succeeding takes at least one token. -/
def Consumes (item : Parser α) : Prop :=
  ∀ tokens value rest, item tokens = (.ok value, rest) → rest.length < tokens.length

/-- Succeeding gives no tokens back. -/
def Shrinks (step : Parser α) : Prop :=
  ∀ tokens value rest, step tokens = (.ok value, rest) → rest.length ≤ tokens.length

/-- `loop`: reads an item, then `more` says whether another one follows. -/
def loop (item : Parser α) (more : Parser Bool) (consumes : Consumes item)
    (shrinks : Shrinks more) : Parser (List α) := fun tokens =>
  match _ : item tokens with
  | (.error failure, rest) => (.error failure, rest)
  | (.ok value, between) =>
      match _ : more between with
      | (.error failure, rest) => (.error failure, rest)
      | (.ok false, rest) => (.ok [value], rest)
      | (.ok true, rest) =>
          match loop item more consumes shrinks rest with
          | (.error failure, rest) => (.error failure, rest)
          | (.ok values, rest) => (.ok (value :: values), rest)
  termination_by tokens => tokens.length
  decreasing_by
    exact lt_of_le_of_lt (shrinks _ _ _ (by assumption)) (consumes _ _ _ (by assumption))

/-- After an item between brackets. -/
def commaOrParen : Parser Bool := do
  match ← peek with
  | .comma => do
      let _ ← advance
      return true
  | .rParen => do
      let _ ← advance
      return false
  | token => Fallible.throw (.expectedCommaOrParen token)

/-- After an item of a list without brackets. -/
def comma : Parser Bool := do
  if (← peek) = .comma then do
    let _ ← advance
    return true
  else return false

variable {tokens rest : List Token}

theorem commaOrParen_eq_ok {again : Bool} :
    commaOrParen tokens = (.ok again, rest) ↔
      tokens = (if again then .comma else .rParen) :: rest := by
  cases tokens with
  | nil => simp [commaOrParen]
  | cons token tokens => cases token <;> cases again <;> simp [commaOrParen]

theorem comma_eq_ok {again : Bool} :
    comma tokens = (.ok again, rest) ↔
      if again then tokens = .comma :: rest else tokens = rest ∧ rest.headD .eof ≠ .comma := by
  rw [comma, ite_peek_eq_ok (by decide)]
  simp only [Fallible.pure_apply, Prod.mk.injEq, Except.ok.injEq]
  constructor
  · rintro (⟨_, rfl, rfl, rfl⟩ | ⟨missing, rfl, rfl⟩)
    · simp
    · exact ⟨rfl, missing⟩
  · cases again with
    | true =>
        rintro rfl
        exact .inl ⟨_, rfl, rfl, rfl⟩
    | false =>
        rintro ⟨rfl, ends⟩
        exact .inr ⟨ends, rfl, rfl⟩

theorem consumes_expectIdent : Consumes expectIdent := by
  intro tokens name rest read
  simp [expectIdent_eq_ok.mp read]

theorem consumes_parseValue : Consumes parseValue := by
  intro tokens value rest read
  simp [parseValue_eq_ok.mp read]

theorem consumes_parseColumn : Consumes parseColumn := by
  intro tokens column rest read
  simp [(parseColumn_eq_ok.mp read).1, columnTokens]
  omega

theorem consumes_parseAssignment : Consumes parseAssignment := by
  intro tokens assignment rest read
  simp [parseAssignment_eq_ok.mp read, assignmentTokens]
  omega

theorem shrinks_commaOrParen : Shrinks commaOrParen := by
  intro tokens again rest read
  simp [commaOrParen_eq_ok.mp read]

theorem shrinks_comma : Shrinks comma := by
  intro tokens again rest read
  have spelt := comma_eq_ok.mp read
  cases again with
  | true => simp_all
  | false => simp_all

end Loops

section Statements

/-- `CREATE TABLE name (col type, ...)` -/
def parseCreate : Parser Statement := do
  expect .create
  expect .table
  let table ← expectIdent
  expect .lParen
  let columns ← loop parseColumn commaOrParen consumes_parseColumn shrinks_commaOrParen
  return .createTable table columns

/-- `INSERT INTO name VALUES (v1, v2, ...)` -/
def parseInsert : Parser Statement := do
  expect .insert
  expect .into
  let table ← expectIdent
  expect .values
  expect .lParen
  let values ← loop parseValue commaOrParen consumes_parseValue shrinks_commaOrParen
  return .insert table values

def parseColumns : Parser SelectColumns := do
  if (← peek) = .star then do
    let _ ← advance
    return .star
  else do
    let names ← loop expectIdent comma consumes_expectIdent shrinks_comma
    return .named names

def parseOp : Parser Op := do
  match ← advance with
  | .eq => return .eq
  | .ne => return .ne
  | .lt => return .lt
  | .gt => return .gt
  | .le => return .le
  | .ge => return .ge
  | token => Fallible.throw (.expectedOperator token)

/-- After `IS`. -/
def parseIs (left : String) : Parser Expr := do
  if (← peek) = .not then do
    let _ ← advance
    expect .null
    return { left, op := .isNotNull, right := .null }
  else do
    expect .null
    return { left, op := .isNull, right := .null }

/-- `col op value`, `col IS NULL` or `col IS NOT NULL`. -/
def parseExpr : Parser Expr := do
  let left ← expectIdent
  if (← peek) = .is then do
    let _ ← advance
    parseIs left
  else do
    let op ← parseOp
    let right ← parseValue
    return { left, op, right }

/-- `WHERE expr`, if it follows; `SELECT`, `DELETE` and `UPDATE` read it alike. -/
def parseFilter : Parser (Option Expr) := do
  if (← peek) = .where then do
    let _ ← advance
    let expr ← parseExpr
    return some expr
  else return none

/-- `ASC` or `DESC`, if one follows; ascending is the default. -/
def parseDir : Parser OrderDir := do
  match ← peek with
  | .asc => do
      let _ ← advance
      return .asc
  | .desc => do
      let _ ← advance
      return .desc
  | _ => return .asc

def parseOrderBy : Parser (Option (String × OrderDir)) := do
  if (← peek) = .order then do
    let _ ← advance
    expect .by
    let column ← expectIdent
    let dir ← parseDir
    return some (column, dir)
  else return none

/-- The number after `LIMIT`. -/
def parseCount : Parser UInt64 := do
  match ← advance with
  | .intLit n =>
      if 0 ≤ n then return n.toUInt64 else Fallible.throw (.expectedLimit (.intLit n))
  | token => Fallible.throw (.expectedLimit token)

def parseLimit : Parser (Option UInt64) := do
  if (← peek) = .limit then do
    let _ ← advance
    let n ← parseCount
    return some n
  else return none

/-- `SELECT col,... FROM name [WHERE expr] [ORDER BY col [ASC|DESC]] [LIMIT n]` -/
def parseSelect : Parser Statement := do
  expect .select
  let columns ← parseColumns
  expect .from
  let table ← expectIdent
  let filter ← parseFilter
  let orderBy ← parseOrderBy
  let limit ← parseLimit
  return .select table columns filter orderBy limit

/-- `DELETE FROM name [WHERE expr]` -/
def parseDelete : Parser Statement := do
  expect .delete
  expect .from
  let table ← expectIdent
  let filter ← parseFilter
  return .delete table filter

def parseUpdate : Parser Statement := do
  expect .update
  let table ← expectIdent
  expect .set
  let assignments ← loop parseAssignment comma consumes_parseAssignment shrinks_comma
  let filter ← parseFilter
  return .update table assignments filter

/-- The statement at the front of the tokens; what follows it is not looked at. -/
def parse : Parser Statement := do
  match ← peek with
  | .create => parseCreate
  | .insert => parseInsert
  | .select => parseSelect
  | .delete => parseDelete
  | .update => parseUpdate
  | token => Fallible.throw (.unexpectedToken token)

end Statements

end Parser

end VenomDb
