import VenomDb.Sql.Ast
import VenomDb.Lib.Fallible

/-!
# The lexer

Turns SQL text into tokens. The state of the lexer is the text from its position on.
The character classes of the Unicode tables are a parameter, of which only the ASCII
part is fixed; white space is the closed list of Unicode.
-/

namespace VenomDb

inductive Token where
  | create | table | insert | into | values
  | select | «from» | where | delete
  | int | text | float | update | set
  | null | is | not
  | order | by | asc | desc | limit
  | primary | key
  | lParen | rParen | comma | semicolon | star
  | eq | ne | lt | gt | le | ge
  | ident (name : String)
  | intLit (n : Int64)
  | floatLit (bits : UInt64)
  | textLit (s : String)
  | eof
  deriving DecidableEq

/-- The `String` errors of the lexer. -/
inductive LexError where
  /-- "unexpected char '!'" -/
  | unexpectedBang
  /-- "unexpected character: '{}'" -/
  | unexpectedCharacter (c : Char)
  /-- "unterminated string literal" -/
  | unterminated
  /-- "invalid float: {}" -/
  | invalidFloat (digits : List Char)
  /-- "invalid number: {}" -/
  | invalidNumber (digits : List Char)
  deriving DecidableEq

section Characters

/-- `char::is_whitespace`: the property `White_Space`. -/
def isWhitespace (c : Char) : Bool :=
  let code := c.toNat
  (9 ≤ code && code ≤ 13) || code == 0x20 || code == 0x85 || code == 0xA0 || code == 0x1680 ||
    (0x2000 ≤ code && code ≤ 0x200A) || code == 0x2028 || code == 0x2029 || code == 0x202F ||
    code == 0x205F || code == 0x3000

/-- `char::is_alphabetic`, `char::is_numeric` and `char::to_uppercase`. -/
class Unicode where
  isAlphabetic : Char → Bool
  isNumeric : Char → Bool
  toUppercase : Char → List Char
  isAlphabetic_ascii : ∀ c, c.toNat < 128 → isAlphabetic c = c.isAlpha
  isNumeric_ascii : ∀ c, c.toNat < 128 → isNumeric c = c.isDigit
  toUppercase_ascii : ∀ c, c.toNat < 128 → toUppercase c = [c.toUpper]
  whitespace_disjoint : ∀ c, isWhitespace c → (isAlphabetic c || isNumeric c) = false

variable [Unicode]

/-- `char::is_alphanumeric`. -/
def isAlphanumeric (c : Char) : Bool := Unicode.isAlphabetic c || Unicode.isNumeric c

end Characters

section Numbers

/-- The value of a string of ASCII digits. -/
def decimal (digits : List Char) : ℕ := Nat.ofDigitChars 10 digits 0

/-- A sign and a string of digits as an `i64`, if they are one. -/
def signedI64 (negative : Bool) (digits : List Char) : Option Int64 :=
  if digits.isEmpty || !digits.all Char.isDigit then none
  else
    let value : ℤ := if negative then -decimal digits else decimal digits
    if Int64.minValue.toInt ≤ value ∧ value ≤ Int64.maxValue.toInt then some (Int64.ofInt value)
    else none

/-- `str::parse::<i64>`, on what the lexer gives it: digits after an optional minus. -/
def parseI64 (text : List Char) : Option Int64 :=
  if text.head? = some '-' then signedI64 true text.tail else signedI64 false text

/-- The nearest `f64` to `mantissa / 10 ^ scale`, ties to even, without its sign. -/
def Float64.ofDecimal (mantissa scale : ℕ) : ℕ :=
  let denominator := 10 ^ scale
  if mantissa = 0 then 0
  else
    let estimate : ℤ := (mantissa.log2 : ℤ) - denominator.log2
    let atLeast (exponent : ℤ) : Bool :=
      denominator * 2 ^ exponent.toNat ≤ mantissa * 2 ^ (-exponent).toNat
    let exponent := if atLeast estimate then estimate else estimate - 1
    -- one unit in the last place is `2 ^ unit`; below the smallest it stays there
    let unit := max (exponent - 52) (-1074)
    let numerator := mantissa * 2 ^ (-unit).toNat
    let divisor := denominator * 2 ^ unit.toNat
    let quotient := numerator / divisor
    let rest := numerator % divisor
    let rounded :=
      if 2 * rest > divisor || (2 * rest == divisor && quotient % 2 == 1) then quotient + 1
      else quotient
    min ((unit + 1074).toNat * 2 ^ 52 + rounded) (0x7FF * 2 ^ 52)

/-- `str::parse::<f64>`, on what the lexer gives it: digits and points after an optional minus. -/
def parseF64 (text : List Char) : Option UInt64 :=
  let negative := text.head? == some '-'
  let digits := if negative then text.tail else text
  let whole := digits.takeWhile Char.isDigit
  let fraction := (digits.dropWhile Char.isDigit).tail
  if (whole.isEmpty && fraction.isEmpty) || !fraction.all Char.isDigit then none
  else
    let magnitude := Float64.ofDecimal (decimal (whole ++ fraction)) fraction.length
    some (UInt64.ofNat (if negative then 2 ^ 63 + magnitude else magnitude))

example : parseF64 "1.5".toList = some 0x3FF8000000000000 := by decide
example : parseF64 "-0.1".toList = some 0xBFB999999999999A := by decide

end Numbers

/-- A step of the lexer; its state is the text it has not read yet. -/
abbrev Lexer := Fallible LexError (List Char)

namespace Lexer

def peek : Lexer (Option Char) := fun text => (.ok text.head?, text)

def advance : Lexer (Option Char) := fun text => (.ok text.head?, text.tail)

/-- Read characters as long as they are of a class. -/
def readWhile (accepts : Char → Bool) : Lexer (List Char) := fun text =>
  (.ok (text.takeWhile accepts), text.dropWhile accepts)

def skipWhitespace : Lexer Unit := do
  let _ ← readWhile isWhitespace
  return ()

/-- The loop of `read_string`, after the opening quote. -/
def readQuoted : Lexer (List Char)
  | [] => (.error .unterminated, [])
  | c :: text =>
      if c = '\'' then (.ok [], text)
      else
        match readQuoted text with
        | (.ok content, text) => (.ok (c :: content), text)
        | (.error failure, text) => (.error failure, text)

def readString : Lexer Token := do
  let _ ← advance
  let content ← readQuoted
  return .textLit (String.ofList content)

/-- An optional minus. -/
def readSign : Lexer (List Char) := do
  if (← peek) = some '-' then do
    let _ ← advance
    return ['-']
  else return []

/-- What `read_number` makes of the sign and the digits it has collected. -/
def toNumber (sign digits : List Char) : Except LexError Token :=
  if digits.contains '.' then
    match parseF64 (sign ++ digits) with
    | some bits => .ok (.floatLit bits)
    | none => .error (.invalidFloat (sign ++ digits))
  else
    match parseI64 (sign ++ digits) with
    | some n => .ok (.intLit n)
    | none => .error (.invalidNumber (sign ++ digits))

def readNumber : Lexer Token := do
  let sign ← readSign
  let digits ← readWhile fun c => c.isDigit || c == '.'
  Fallible.ofExcept (toNumber sign digits)

/-- The reserved words, in capitals. -/
def keyword : String → Option Token
  | "CREATE" => some .create
  | "TABLE" => some .table
  | "INSERT" => some .insert
  | "INTO" => some .into
  | "VALUES" => some .values
  | "SELECT" => some .select
  | "FROM" => some .from
  | "WHERE" => some .where
  | "DELETE" => some .delete
  | "INT" => some .int
  | "TEXT" => some .text
  | "FLOAT" => some .float
  | "UPDATE" => some .update
  | "SET" => some .set
  | "NULL" => some .null
  | "IS" => some .is
  | "NOT" => some .not
  | "ORDER" => some .order
  | "BY" => some .by
  | "ASC" => some .asc
  | "DESC" => some .desc
  | "LIMIT" => some .limit
  | "PRIMARY" => some .primary
  | "KEY" => some .key
  | _ => none

variable [Unicode]

/-- `str::to_uppercase`. -/
def toUppercase (word : List Char) : String := String.ofList (word.flatMap Unicode.toUppercase)

def readIdentOrKeyword : Lexer Token := do
  let word ← readWhile fun c => isAlphanumeric c || c == '_'
  return (keyword (toUppercase word)).getD (.ident (String.ofList word))

/-- A two-character operator, or the one-character one it starts with. -/
def orEqual (short : Except LexError Token) (long : Token) : Lexer Token := do
  let _ ← advance
  if (← peek) = some '=' then do
    let _ ← advance
    return long
  else Fallible.ofExcept short

/-- A token of one character. -/
def single (token : Token) : Lexer Token := do
  let _ ← advance
  return token

/-- The token that starts with a character, which is the next one of the text. -/
def tokenAt (c : Char) : Lexer Token :=
  match c with
  | '(' => single .lParen
  | ')' => single .rParen
  | ',' => single .comma
  | ';' => single .semicolon
  | '*' => single .star
  | '=' => single .eq
  | '<' => orEqual (.ok .lt) .le
  | '>' => orEqual (.ok .gt) .ge
  | '!' => orEqual (.error .unexpectedBang) .ne
  | '\'' => readString
  | c =>
      if c.isDigit || c == '-' then readNumber
      else if Unicode.isAlphabetic c || c == '_' then readIdentOrKeyword
      else Fallible.throw (.unexpectedCharacter c)

def nextToken : Lexer Token := do
  skipWhitespace
  match ← peek with
  | none => return .eof
  | some c => tokenAt c

section Lengths

variable {c : Char} {text rest : List Char} {token : Token}

omit [Unicode] in
theorem length_readQuoted (text : List Char) : (readQuoted text).2.length ≤ text.length := by
  induction text with
  | nil => simp [readQuoted]
  | cons c text ih =>
      unfold readQuoted
      split
      · simp
      · generalize readQuoted text = ended at ih ⊢
        rcases ended with ⟨_ | _, rest⟩
        · exact Nat.le_succ_of_le ih
        · exact Nat.le_succ_of_le ih

omit [Unicode] in
theorem length_readString : (readString (c :: text)).2.length ≤ text.length := by
  have shorter := length_readQuoted text
  change ((readQuoted >>= fun content => pure (.textLit (String.ofList content)) :
    Lexer Token) text).2.length ≤ _
  rw [Fallible.bind_apply]
  generalize readQuoted text = ended at shorter ⊢
  rcases ended with ⟨_ | _, rest⟩
  · exact shorter
  · exact shorter

omit [Unicode] in
theorem readNumber_minus (text : List Char) :
    readNumber ('-' :: text) =
      (toNumber ['-'] (text.takeWhile fun c => c.isDigit || c == '.'),
        text.dropWhile fun c => c.isDigit || c == '.') :=
  rfl

omit [Unicode] in
theorem readNumber_digit (text : List Char) (ne : c ≠ '-') :
    readNumber (c :: text) =
      (toNumber [] ((c :: text).takeWhile fun c => c.isDigit || c == '.'),
        (c :: text).dropWhile fun c => c.isDigit || c == '.') := by
  have sign : readSign (c :: text) = (.ok [], c :: text) := by
    simp [readSign, peek, Fallible.bind_apply, ne]
  rw [readNumber, Fallible.bind_ok sign]
  rfl

omit [Unicode] in
theorem length_readNumber (starts : (c.isDigit || c == '-') = true) :
    (readNumber (c :: text)).2.length ≤ text.length := by
  by_cases minus : c = '-'
  · subst c
    rw [readNumber_minus]
    exact (List.dropWhile_suffix _).length_le
  · have digit : c.isDigit := by simpa [minus] using starts
    rw [readNumber_digit text minus, List.dropWhile_cons, if_pos (by simp [digit])]
    exact (List.dropWhile_suffix _).length_le

theorem readIdentOrKeyword_eq (text : List Char) :
    readIdentOrKeyword text =
      let word := text.takeWhile fun c => isAlphanumeric c || c == '_'
      (.ok ((keyword (toUppercase word)).getD (.ident (String.ofList word))),
        text.dropWhile fun c => isAlphanumeric c || c == '_') :=
  rfl

theorem length_readIdentOrKeyword (starts : (Unicode.isAlphabetic c || c == '_') = true) :
    (readIdentOrKeyword (c :: text)).2.length ≤ text.length := by
  have accepted : (isAlphanumeric c || c == '_') = true := by
    rcases Bool.or_eq_true_iff.mp starts with letter | underscore
    · simp [isAlphanumeric, letter]
    · simp [underscore]
  rw [readIdentOrKeyword_eq]
  dsimp only
  rw [List.dropWhile_cons, if_pos accepted]
  exact (List.dropWhile_suffix _).length_le

omit [Unicode] in
theorem length_orEqual (short : Except LexError Token) (long : Token) :
    (orEqual short long (c :: text)).2.length ≤ text.length := by
  cases text with
  | nil => rfl
  | cons next text =>
      by_cases equal : next = '='
      · simp [orEqual, advance, peek, Fallible.bind_apply, equal]
      · simp [orEqual, advance, peek, Fallible.bind_apply, equal]

/-- A token takes at least the character it starts with. -/
theorem length_tokenAt (read : tokenAt c (c :: text) = (.ok token, rest)) :
    rest.length ≤ text.length := by
  have last : (tokenAt c (c :: text)).2.length = rest.length := by rw [read]
  rw [← last]
  unfold tokenAt at read ⊢
  split
  case h_7 => exact length_orEqual _ _
  case h_8 => exact length_orEqual _ _
  case h_9 => exact length_orEqual _ _
  case h_10 => exact length_readString
  case h_11 =>
    split
    next starts => exact length_readNumber starts
    next noDigit =>
      split
      next starts => exact length_readIdentOrKeyword starts
      next noLetter =>
        -- an unexpected character gives no token
        split at read <;> simp_all
  all_goals exact le_rfl

/-- Every token but the last one shortens the text. -/
theorem length_nextToken (read : nextToken text = (.ok token, rest)) (more : token ≠ .eof) :
    rest.length < text.length := by
  have skipped : (text.dropWhile isWhitespace).length ≤ text.length :=
    (List.dropWhile_suffix _).length_le
  change (peek >>= fun first => match first with
    | none => return .eof
    | some c => tokenAt c : Lexer Token) (text.dropWhile isWhitespace) = _ at read
  generalize text.dropWhile isWhitespace = remaining at read skipped
  cases remaining with
  | nil =>
      have ended : (Except.ok Token.eof : Except LexError Token) = .ok token :=
        congrArg Prod.fst read
      exact absurd (Except.ok.inj ended).symm more
  | cons c remaining =>
      have shorter : rest.length ≤ remaining.length := length_tokenAt read
      simp only [List.length_cons] at skipped
      omega

end Lengths

def tokenize : Lexer (List Token) := fun text =>
  match _ : nextToken text with
  | (.error failure, rest) => (.error failure, rest)
  | (.ok token, rest) =>
      if _ : token = .eof then (.ok [token], rest)
      else
        match tokenize rest with
        | (.ok tokens, rest) => (.ok (token :: tokens), rest)
        | (.error failure, rest) => (.error failure, rest)
  termination_by text => text.length
  decreasing_by exact length_nextToken (by assumption) (by assumption)

end Lexer

end VenomDb
