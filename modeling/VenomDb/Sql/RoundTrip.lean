import VenomDb.Sql.Grammar

/-!
# Writing statements as text

A statement written as text, with white space between its tokens, is read back as
the same statement.
-/

namespace VenomDb

namespace Lexer

section Spelling

/-- Letters, digits and the underscore, in ASCII. -/
def isWordChar (c : Char) : Bool := c.isAlphanum || c == '_'

/-- A word in capitals. -/
def capitals (word : List Char) : String := String.ofList (word.map Char.toUpper)

/-- An ASCII identifier that is no keyword in any letter case. -/
structure IsIdentifier (name : String) : Prop where
  starts : ∃ c rest, name.toList = c :: rest ∧ (c.isAlpha ∨ c = '_')
  word : ∀ c ∈ name.toList, isWordChar c = true
  free : keyword (capitals name.toList) = none

/-- A number in decimal. -/
def intText (n : Int64) : List Char :=
  if n.toInt < 0 then '-' :: Nat.toDigits 10 n.toInt.natAbs else Nat.toDigits 10 n.toInt.natAbs

example : intText Int64.minValue = "-9223372036854775808".toList := by decide

/-- How a token may be written. Keywords may be in any letter case. -/
inductive Spells : Token → List Char → Prop
  | keyword {token : Token} {word : List Char} (letters : ∀ c ∈ word, c.isAlpha = true)
      (reserved : keyword (capitals word) = some token) : Spells token word
  | identifier {name : String} (identifier : IsIdentifier name) : Spells (.ident name) name.toList
  | int (n : Int64) : Spells (.intLit n) (intText n)
  | text {s : String} (unquoted : '\'' ∉ s.toList) :
      Spells (.textLit s) ('\'' :: (s.toList ++ ['\'']))
  | lParen : Spells .lParen ['(']
  | rParen : Spells .rParen [')']
  | comma : Spells .comma [',']
  | semicolon : Spells .semicolon [';']
  | star : Spells .star ['*']
  | eq : Spells .eq ['=']
  | ne : Spells .ne ['!', '=']
  | lt : Spells .lt ['<']
  | gt : Spells .gt ['>']
  | le : Spells .le ['<', '=']
  | ge : Spells .ge ['>', '=']

/-- White space, or the end of the text. -/
def Ends (text : List Char) : Prop := ∀ c ∈ text.head?, isWhitespace c = true

/-- Tokens written one after another with white space between them, and possibly around them. -/
inductive Written : List Token → List Char → Prop
  | nil {space : List Char} (blank : ∀ c ∈ space, isWhitespace c = true) : Written [] space
  | cons {token : Token} {tokens : List Token} {space word text : List Char}
      (blank : ∀ c ∈ space, isWhitespace c = true) (spells : Spells token word)
      (ends : Ends text) (rest : Written tokens text) :
      Written (token :: tokens) (space ++ (word ++ text))

end Spelling

section Characters

variable {c : Char}

theorem isAlpha_iff : c.isAlpha = true ↔
    (65 ≤ c.toNat ∧ c.toNat ≤ 90) ∨ (97 ≤ c.toNat ∧ c.toNat ≤ 122) := by
  have upper : c.isUpper = decide (c.val ≥ 65 ∧ c.val ≤ 90) := rfl
  have lower : c.isLower = (decide (c.val ≥ 97) && decide (c.val ≤ 122)) := rfl
  have either : c.isAlpha = (c.isUpper || c.isLower) := rfl
  simp only [either, upper, lower, Bool.or_eq_true, Bool.and_eq_true, decide_eq_true_eq, ge_iff_le,
    UInt32.le_iff_toNat_le]
  exact Iff.rfl

theorem isDigit_iff : c.isDigit = true ↔ 48 ≤ c.toNat ∧ c.toNat ≤ 57 := by
  simp only [Char.isDigit, Bool.and_eq_true, decide_eq_true_eq, ge_iff_le, UInt32.le_iff_toNat_le]
  exact Iff.rfl

theorem isAlphanum_iff : c.isAlphanum = true ↔
    ((65 ≤ c.toNat ∧ c.toNat ≤ 90) ∨ (97 ≤ c.toNat ∧ c.toNat ≤ 122)) ∨
      (48 ≤ c.toNat ∧ c.toNat ≤ 57) := by
  rw [Char.isAlphanum, Bool.or_eq_true, isAlpha_iff, isDigit_iff]

theorem ascii_of_isAlphanum (alphanumeric : c.isAlphanum = true) : c.toNat < 128 := by
  have range := isAlphanum_iff.mp alphanumeric
  omega

theorem not_whitespace_of_isAlphanum (alphanumeric : c.isAlphanum = true) :
    isWhitespace c = false := by
  have range := isAlphanum_iff.mp alphanumeric
  simp only [isWhitespace, Bool.or_eq_false_iff, Bool.and_eq_false_iff, decide_eq_false_iff_not,
    beq_eq_false_iff_ne]
  omega

theorem not_whitespace_of_isWordChar (word : isWordChar c = true) : isWhitespace c = false := by
  rcases Bool.or_eq_true_iff.mp word with alphanumeric | underscore
  · exact not_whitespace_of_isAlphanum alphanumeric
  · obtain rfl : c = '_' := by simpa using underscore
    decide

/-- The tables restricted to ASCII. -/
@[reducible]
def asciiTables : Unicode where
  isAlphabetic := Char.isAlpha
  isNumeric := Char.isDigit
  toUppercase := fun c => [c.toUpper]
  isAlphabetic_ascii := fun _ _ => rfl
  isNumeric_ascii := fun _ _ => rfl
  toUppercase_ascii := fun _ _ => rfl
  whitespace_disjoint := by
    intro c white
    rw [← Bool.not_eq_true]
    intro alphanumeric
    rw [not_whitespace_of_isAlphanum alphanumeric] at white
    exact absurd white (by decide)

variable [Unicode]

theorem accepts_of_isWordChar (word : isWordChar c = true) :
    (isAlphanumeric c || c == '_') = true := by
  rcases Bool.or_eq_true_iff.mp word with alphanumeric | underscore
  · have ascii := ascii_of_isAlphanum alphanumeric
    rw [isAlphanumeric, Unicode.isAlphabetic_ascii c ascii, Unicode.isNumeric_ascii c ascii]
    have split : (c.isAlpha || c.isDigit) = true := alphanumeric
    simp [split]
  · simp [underscore]

theorem rejects_of_isWhitespace (white : isWhitespace c = true) :
    (isAlphanumeric c || c == '_') = false := by
  have disjoint := Unicode.whitespace_disjoint c white
  have other : c ≠ '_' := by
    rintro rfl
    exact absurd white (by decide)
  simp [isAlphanumeric, disjoint, other]

theorem toUppercase_word {word : List Char} (ascii : ∀ c ∈ word, isWordChar c = true) :
    toUppercase word = capitals word := by
  rw [toUppercase, capitals]
  congr 1
  induction word with
  | nil => rfl
  | cons c word ih =>
      have small : c.toNat < 128 := by
        rcases Bool.or_eq_true_iff.mp (ascii c (by simp)) with alphanumeric | underscore
        · exact ascii_of_isAlphanum alphanumeric
        · obtain rfl : c = '_' := by simpa using underscore
          decide
      rw [List.flatMap_cons, List.map_cons, Unicode.toUppercase_ascii c small,
        ih fun other inside => ascii other (by simp [inside])]
      rfl

end Characters

section Tokens

/-- Reading stops where the text after a word begins. -/
theorem readWhile_append {accepts : Char → Bool} {word text : List Char}
    (all : ∀ c ∈ word, accepts c = true) (stops : ∀ c ∈ text.head?, accepts c = false) :
    readWhile accepts (word ++ text) = (.ok word, text) := by
  have taken : text.takeWhile accepts = [] := by
    cases text with
    | nil => rfl
    | cons c text => simp [stops c rfl]
  have dropped : text.dropWhile accepts = text := by
    cases text with
    | nil => rfl
    | cons c text => simp [stops c rfl]
  rw [readWhile, List.takeWhile_append_of_pos all, List.dropWhile_append_of_pos all, taken, dropped,
    List.append_nil]

variable [Unicode] {text : List Char}

theorem readIdentOrKeyword_word {word : List Char} (ascii : ∀ c ∈ word, isWordChar c = true)
    (ends : Ends text) :
    readIdentOrKeyword (word ++ text) =
      (.ok ((keyword (capitals word)).getD (.ident (String.ofList word))), text) := by
  have read := readWhile_append (fun c inside => accepts_of_isWordChar (ascii c inside))
    (fun c first => rejects_of_isWhitespace (ends c first))
  rw [readIdentOrKeyword, Fallible.bind_ok read, toUppercase_word ascii]
  rfl

theorem tokenAt_letter {c : Char} (starts : c.isAlpha = true ∨ c = '_') :
    tokenAt c = readIdentOrKeyword := by
  have ascii : c.toNat < 128 := by
    rcases starts with letter | rfl
    · exact ascii_of_isAlphanum (by simp [Char.isAlphanum, letter])
    · decide
  have noNumber : (c.isDigit || c == '-') = false := by
    rcases starts with letter | rfl
    · have range := isAlpha_iff.mp letter
      have noDigit : c.isDigit = false := by
        rw [← Bool.not_eq_true, isDigit_iff]
        omega
      have noMinus : c ≠ '-' := by
        rintro rfl
        exact absurd letter (by decide)
      simp [noDigit, noMinus]
    · decide
  have letter : (Unicode.isAlphabetic c || c == '_') = true := by
    rw [Unicode.isAlphabetic_ascii c ascii]
    simpa using starts
  unfold tokenAt
  split
  case h_11 =>
    rw [noNumber, letter]
    rfl
  all_goals exact absurd starts (by decide)

theorem tokenAt_digit {c : Char} (starts : c.isDigit = true ∨ c = '-') :
    tokenAt c = readNumber := by
  unfold tokenAt
  split
  case h_11 => rw [if_pos (by simpa using starts)]
  all_goals exact absurd starts (by decide)

omit [Unicode] in
theorem isDigit_of_mem_toDigits {n : ℕ} {c : Char} (inside : c ∈ Nat.toDigits 10 n) :
    c.isDigit = true :=
  Nat.isDigit_of_mem_toDigits (by decide) (by decide) inside

omit [Unicode] in
theorem signedI64_toDigits {n : Int64} {negative : Bool}
    (value : (if negative then -(n.toInt.natAbs : ℤ) else n.toInt.natAbs) = n.toInt) :
    signedI64 negative (Nat.toDigits 10 n.toInt.natAbs) = some n := by
  have digits : (Nat.toDigits 10 n.toInt.natAbs).all Char.isDigit = true := by
    simpa using fun c inside => isDigit_of_mem_toDigits inside
  have proper : (Nat.toDigits 10 n.toInt.natAbs).isEmpty = false := by
    simp [Nat.toDigits_ne_nil]
  have magnitude : decimal (Nat.toDigits 10 n.toInt.natAbs) = n.toInt.natAbs :=
    Nat.ofDigitChars_ten_toDigits
  rw [signedI64, digits, proper, magnitude, value]
  dsimp only
  rw [if_neg (by decide), if_pos ⟨n.minValue_le_toInt, n.toInt_le⟩, Int64.ofInt_toInt]

omit [Unicode] in
theorem head?_toDigits (n : ℕ) : (Nat.toDigits 10 n).head? ≠ some '-' := by
  intro minus
  have digit := isDigit_of_mem_toDigits (List.mem_of_head? minus)
  exact absurd digit (by decide)

omit [Unicode] in
theorem parseI64_intText (n : Int64) : parseI64 (intText n) = some n := by
  by_cases negative : n.toInt < 0
  · rw [intText, if_pos negative, parseI64, List.head?_cons, if_pos rfl]
    exact signedI64_toDigits (by rw [if_pos rfl]; omega)
  · rw [intText, if_neg negative, parseI64, if_neg (head?_toDigits _)]
    exact signedI64_toDigits (by simp; omega)

omit [Unicode] in
theorem intText_cons (n : Int64) :
    ∃ c rest, intText n = c :: rest ∧ (c.isDigit = true ∨ c = '-') := by
  by_cases negative : n.toInt < 0
  · exact ⟨'-', _, if_pos negative, .inr rfl⟩
  · have same : intText n = Nat.toDigits 10 n.toInt.natAbs := if_neg negative
    rcases List.exists_cons_of_ne_nil (Nat.toDigits_ne_nil : Nat.toDigits 10 n.toInt.natAbs ≠ [])
      with ⟨c, rest, cons⟩
    exact ⟨c, rest, same.trans cons, .inl (isDigit_of_mem_toDigits (by rw [cons]; simp))⟩

omit [Unicode] in
/-- A number is read up to the white space after it. -/
theorem readNumber_intText (n : Int64) (ends : Ends text) :
    readNumber (intText n ++ text) = (.ok (.intLit n), text) := by
  have all : ∀ c ∈ Nat.toDigits 10 n.toInt.natAbs, (c.isDigit || c == '.') = true := by
    intro c inside
    simp [isDigit_of_mem_toDigits inside]
  have stops : ∀ c ∈ text.head?, (c.isDigit || c == '.') = false := by
    intro c first
    have white := ends c first
    have noDigit : c.isDigit = false := by
      rw [← Bool.not_eq_true]
      intro digit
      rw [not_whitespace_of_isAlphanum (by simp [Char.isAlphanum, digit])] at white
      exact absurd white (by decide)
    have noPoint : c ≠ '.' := by
      rintro rfl
      exact absurd white (by decide)
    simp [noDigit, noPoint]
  have whole : (Nat.toDigits 10 n.toInt.natAbs).contains '.' = false := by
    rw [← Bool.not_eq_true, List.contains_iff_mem]
    intro inside
    exact absurd (isDigit_of_mem_toDigits inside) (by decide)
  have digits := readWhile_append all stops
  have number : ∀ sign, sign ++ Nat.toDigits 10 n.toInt.natAbs = intText n →
      toNumber sign (Nat.toDigits 10 n.toInt.natAbs) = .ok (.intLit n) := by
    intro sign same
    rw [toNumber, whole, same, parseI64_intText]
    rfl
  by_cases negative : n.toInt < 0
  · have same : intText n = '-' :: Nat.toDigits 10 n.toInt.natAbs := if_pos negative
    have sign : readSign (intText n ++ text) =
        (.ok ['-'], Nat.toDigits 10 n.toInt.natAbs ++ text) := by
      rw [same]
      rfl
    rw [readNumber, Fallible.bind_ok sign, Fallible.bind_ok digits, Fallible.ofExcept_apply,
      number ['-'] same.symm]
  · have same : intText n = Nat.toDigits 10 n.toInt.natAbs := if_neg negative
    have sign : readSign (intText n ++ text) =
        (.ok [], Nat.toDigits 10 n.toInt.natAbs ++ text) := by
      have unsigned : (Nat.toDigits 10 n.toInt.natAbs ++ text).head? ≠ some '-' := by
        rw [List.head?_append_of_ne_nil _ Nat.toDigits_ne_nil]
        exact head?_toDigits _
      rw [same, readSign, Fallible.bind_apply]
      dsimp only [peek]
      rw [if_neg unsigned]
      rfl
    rw [readNumber, Fallible.bind_ok sign, Fallible.bind_ok digits, Fallible.ofExcept_apply,
      number [] same.symm]

omit [Unicode] in
theorem readQuoted_append {content : List Char} (unquoted : '\'' ∉ content) :
    readQuoted (content ++ '\'' :: text) = (.ok content, text) := by
  induction content with
  | nil => rfl
  | cons c content ih =>
      simp only [List.mem_cons, not_or] at unquoted
      rw [List.cons_append, readQuoted, if_neg (Ne.symm unquoted.1), ih unquoted.2]

omit [Unicode] in
theorem readString_append {s : String} (unquoted : '\'' ∉ s.toList) :
    readString ('\'' :: (s.toList ++ ['\'']) ++ text) = (.ok (.textLit s), text) := by
  have read : readQuoted (s.toList ++ ['\''] ++ text) = (.ok s.toList, text) := by
    rw [List.append_assoc]
    exact readQuoted_append unquoted
  have opened : advance ('\'' :: (s.toList ++ ['\'']) ++ text) =
      (.ok (some '\''), s.toList ++ ['\''] ++ text) := rfl
  rw [readString, Fallible.bind_ok opened, Fallible.bind_ok read]
  simp

omit [Unicode] in
/-- A comparison without `=` is not continued by the white space after it. -/
theorem orEqual_short {c : Char} {short : Except LexError Token} {long : Token} (ends : Ends text) :
    orEqual short long (c :: text) = (short, text) := by
  cases text with
  | nil => rfl
  | cons next text =>
      have other : next ≠ '=' := by
        rintro rfl
        exact absurd (ends _ rfl) (by decide)
      simp [orEqual, advance, peek, Fallible.bind_apply, other]

/-- The lexer reads a token that is written out at the front of the text. -/
theorem tokenAt_spells {token : Token} {word : List Char} (spells : Spells token word)
    (ends : Ends text) :
    ∃ c rest, word = c :: rest ∧ isWhitespace c = false ∧
      tokenAt c (word ++ text) = (.ok token, text) := by
  cases spells with
  | keyword letters reserved =>
      have ascii : ∀ c ∈ word, isWordChar c = true := fun c inside => by
        simp [isWordChar, Char.isAlphanum, letters c inside]
      cases word with
      | nil =>
          have free : keyword (capitals []) = none := by decide
          simp [free] at reserved
      | cons c rest =>
          refine ⟨c, rest, rfl, not_whitespace_of_isWordChar (ascii c (by simp)), ?_⟩
          rw [tokenAt_letter (.inl (letters c (by simp))), readIdentOrKeyword_word ascii ends,
            reserved]
          rfl
  | identifier identifier =>
      rename_i name
      rcases identifier.starts with ⟨c, rest, same, starts⟩
      refine ⟨c, rest, same, not_whitespace_of_isWordChar (identifier.word c (by simp [same])), ?_⟩
      rw [tokenAt_letter starts, readIdentOrKeyword_word identifier.word ends, identifier.free]
      simp
  | int n =>
      rcases intText_cons n with ⟨c, rest, same, starts⟩
      refine ⟨c, rest, same, ?_, ?_⟩
      · rcases starts with digit | rfl
        · exact not_whitespace_of_isAlphanum (by simp [Char.isAlphanum, digit])
        · decide
      · rw [tokenAt_digit starts, readNumber_intText n ends]
  | text unquoted =>
      exact ⟨'\'', _, rfl, by decide, readString_append unquoted⟩
  | lt => exact ⟨'<', _, rfl, by decide, orEqual_short ends⟩
  | gt => exact ⟨'>', _, rfl, by decide, orEqual_short ends⟩
  | _ => exact ⟨_, _, rfl, by decide, rfl⟩

theorem nextToken_spells {token : Token} {space word : List Char}
    (blank : ∀ c ∈ space, isWhitespace c = true) (spells : Spells token word) (ends : Ends text) :
    nextToken (space ++ (word ++ text)) = (.ok token, text) := by
  rcases tokenAt_spells spells ends with ⟨c, rest, rfl, proper, read⟩
  have skipped : readWhile isWhitespace (space ++ (c :: rest ++ text)) =
      (.ok space, c :: rest ++ text) :=
    readWhile_append blank (by simpa using proper)
  have skip : skipWhitespace (space ++ (c :: rest ++ text)) = (.ok (), c :: rest ++ text) := by
    rw [skipWhitespace, Fallible.bind_ok skipped]
    rfl
  rw [nextToken, Fallible.bind_ok skip]
  exact read

theorem nextToken_blank {space : List Char} (blank : ∀ c ∈ space, isWhitespace c = true) :
    nextToken space = (.ok .eof, []) := by
  have stops : ∀ c ∈ ([] : List Char).head?, isWhitespace c = false := by simp
  have skipped : readWhile isWhitespace space = (.ok space, []) := by
    simpa using readWhile_append blank stops
  have skip : skipWhitespace space = (.ok (), []) := by
    rw [skipWhitespace, Fallible.bind_ok skipped]
    rfl
  rw [nextToken, Fallible.bind_ok skip]
  rfl

omit [Unicode] in
theorem spells_ne_eof {token : Token} {word : List Char} (spells : Spells token word) :
    token ≠ .eof := by
  cases spells with
  | keyword letters reserved =>
      rintro rfl
      unfold keyword at reserved
      split at reserved <;> simp at reserved
  | _ => simp

theorem tokenize_last {rest : List Char} (read : nextToken text = (.ok .eof, rest)) :
    tokenize text = (.ok [.eof], rest) := by
  rw [tokenize]
  split
  next failed => simp [read] at failed
  next token other again =>
    obtain ⟨rfl, rfl⟩ : Token.eof = token ∧ rest = other := by simpa [read] using again
    rfl

theorem tokenize_more {token : Token} {tokens : List Token} {rest last : List Char}
    (read : nextToken text = (.ok token, rest)) (proper : token ≠ .eof)
    (more : tokenize rest = (.ok tokens, last)) :
    tokenize text = (.ok (token :: tokens), last) := by
  rw [tokenize]
  split
  next failed => simp [read] at failed
  next _ other again =>
    obtain ⟨rfl, rfl⟩ : token = _ ∧ rest = other := by simpa [read] using again
    rw [dif_neg proper, more]

/-- The lexer gives back the tokens that were written. -/
theorem tokenize_written {tokens : List Token} (written : Written tokens text) :
    tokenize text = (.ok (tokens ++ [.eof]), []) := by
  induction written with
  | nil blank => exact tokenize_last (nextToken_blank blank)
  | cons blank spells ends rest ih =>
      exact tokenize_more (nextToken_spells blank spells ends) (spells_ne_eof spells) ih

end Tokens

end Lexer

section Statements

open VenomDb.Lexer VenomDb.Parser

/-- The names in a statement. -/
def Statement.names : Statement → List String
  | .createTable table columns => table :: columns.map ColumnDef.name
  | .insert table _ => [table]
  | .select table columns filter orderBy _ =>
      table :: ((match columns with
        | .star => []
        | .named names => names) ++ filter.toList.map Expr.left ++ orderBy.toList.map Prod.fst)
  | .delete table filter => table :: filter.toList.map Expr.left
  | .update table assignments filter =>
      table :: (assignments.map Assignment.column ++ filter.toList.map Expr.left)

/-- The literals in a statement. -/
def Statement.literals : Statement → List Value
  | .createTable .. => []
  | .insert _ values => values
  | .select _ _ filter _ _ => filter.toList.map Expr.right
  | .delete _ filter => filter.toList.map Expr.right
  | .update _ assignments filter =>
      assignments.map Assignment.value ++ filter.toList.map Expr.right

/-- A literal that SQL text can hold; texts have no quote in them, and floats are left out. -/
def WritableValue : Value → Prop
  | .int _ => True
  | .float _ => False
  | .text s => '\'' ∉ s.toList
  | .null => True

/-- The statements that can be written as text. -/
structure Writable (stmt : Statement) : Prop where
  spellable : Spellable stmt
  names : ∀ name ∈ stmt.names, IsIdentifier name
  literals : ∀ value ∈ stmt.literals, WritableValue value

/-- What a token of a statement stands for. -/
inductive Stems (stmt : Statement) : Token → Prop
  | plain {token : Token} (plain : isPlain token = true) : Stems stmt token
  | name {name : String} (inside : name ∈ stmt.names) : Stems stmt (.ident name)
  | value {value : Value} (inside : value ∈ stmt.literals) : Stems stmt (literal value)
  | count (n : Int64) : Stems stmt (.intLit n)

theorem mem_separated {α : Type} {spell : α → List Token} {items : List α} {token : Token}
    (inside : token ∈ separated spell items) :
    token = .comma ∨ ∃ item ∈ items, token ∈ spell item := by
  induction items with
  | nil => simp [separated] at inside
  | cons item items ih =>
      by_cases last : items = []
      · subst last
        exact .inr ⟨item, by simp, inside⟩
      · rw [separated_cons spell item last, List.mem_append, List.mem_cons] at inside
        rcases inside with inside | rfl | inside
        · exact .inr ⟨item, by simp, inside⟩
        · exact .inl rfl
        · rcases ih inside with isComma | ⟨other, among, spelt⟩
          · exact .inl isComma
          · exact .inr ⟨other, by simp [among], spelt⟩

section Stems

variable {stmt : Statement} {token : Token}

theorem stems_exprTokens {expr : Expr} (left : expr.left ∈ stmt.names)
    (right : expr.right ∈ stmt.literals) (inside : token ∈ exprTokens expr) : Stems stmt token := by
  rcases expr with ⟨name, op, value⟩
  rcases List.mem_cons.mp inside with rfl | inside
  · exact .name left
  · have plainOr : isPlain token = true ∨ token = literal value := by
      cases op
      case isNull => exact .inl (by rcases (by simpa using inside) with rfl | rfl <;> rfl)
      case isNotNull => exact .inl (by rcases (by simpa using inside) with rfl | rfl | rfl <;> rfl)
      all_goals
        rcases (by simpa [opToken] using inside) with rfl | rfl
        · exact .inl rfl
        · exact .inr rfl
    rcases plainOr with plain | rfl
    · exact .plain plain
    · exact .value right

theorem stems_filterTokens {filter : Option Expr}
    (left : ∀ expr ∈ filter, expr.left ∈ stmt.names)
    (right : ∀ expr ∈ filter, expr.right ∈ stmt.literals) (inside : token ∈ filterTokens filter) :
    Stems stmt token := by
  cases filter with
  | none => simp [filterTokens] at inside
  | some expr =>
      rcases List.mem_cons.mp inside with rfl | inside
      · exact .plain rfl
      · exact stems_exprTokens (left expr rfl) (right expr rfl) inside

theorem stems_orderByTokens {bare : Bool} {orderBy : Option (String × OrderDir)}
    (names : ∀ ordered ∈ orderBy, ordered.1 ∈ stmt.names)
    (inside : token ∈ orderByTokens bare orderBy) : Stems stmt token := by
  cases orderBy with
  | none => simp [orderByTokens] at inside
  | some ordered =>
      rcases ordered with ⟨column, dir⟩
      have plainOr : isPlain token = true ∨ token = .ident column := by
        cases dir with
        | desc =>
            rcases (by simpa [orderByTokens] using inside) with rfl | rfl | rfl | rfl <;>
              first | exact .inl rfl | exact .inr rfl
        | asc =>
            cases bare with
            | true =>
                rcases (by simpa [orderByTokens] using inside) with rfl | rfl | rfl <;>
                  first | exact .inl rfl | exact .inr rfl
            | false =>
                rcases (by simpa [orderByTokens] using inside) with rfl | rfl | rfl | rfl <;>
                  first | exact .inl rfl | exact .inr rfl
      rcases plainOr with plain | rfl
      · exact .plain plain
      · exact .name (names _ rfl)

theorem stems_limitTokens {limit : Option UInt64} (inside : token ∈ limitTokens limit) :
    Stems stmt token := by
  cases limit with
  | none => simp [limitTokens] at inside
  | some n =>
      rcases (by simpa [limitTokens] using inside) with rfl | rfl
      · exact .plain rfl
      · exact .count _

theorem stems_columnTokens {column : ColumnDef} (name : column.name ∈ stmt.names)
    (inside : token ∈ columnTokens column) : Stems stmt token := by
  rcases column with ⟨columnName, ty, primaryKey⟩
  simp only [columnTokens, List.mem_cons] at inside
  rcases inside with rfl | rfl | inside
  · exact .name name
  · exact .plain (by cases ty <;> rfl)
  · cases primaryKey with
    | false => simp at inside
    | true => rcases (by simpa using inside) with rfl | rfl <;> exact .plain rfl

theorem stems_columnsTokens {columns : SelectColumns}
    (names : ∀ names name, columns = .named names → name ∈ names → name ∈ stmt.names)
    (inside : token ∈ columnsTokens columns) : Stems stmt token := by
  cases columns with
  | star =>
      obtain rfl : token = .star := by simpa [columnsTokens] using inside
      exact .plain rfl
  | named columns =>
      rcases mem_separated inside with rfl | ⟨name, among, spelt⟩
      · exact .plain rfl
      · obtain rfl : token = .ident name := by simpa using spelt
        exact .name (names columns name rfl among)

end Stems

theorem stems_statementTokens {stmt : Statement} {bare : Bool} {token : Token}
    (inside : token ∈ statementTokens bare stmt) : Stems stmt token := by
  cases stmt with
  | createTable table columns =>
      simp only [statementTokens, List.mem_append, List.mem_cons, List.not_mem_nil, or_false]
        at inside
      rcases inside with ((rfl | rfl | rfl | rfl) | inside) | rfl
      · exact .plain rfl
      · exact .plain rfl
      · exact .name (by simp [Statement.names])
      · exact .plain rfl
      · rcases mem_separated inside with rfl | ⟨column, among, spelt⟩
        · exact .plain rfl
        · exact stems_columnTokens (by simpa [Statement.names] using .inr ⟨column, among, rfl⟩)
            spelt
      · exact .plain rfl
  | insert table values =>
      simp only [statementTokens, List.mem_append, List.mem_cons, List.not_mem_nil, or_false]
        at inside
      rcases inside with ((rfl | rfl | rfl | rfl | rfl) | inside) | rfl
      · exact .plain rfl
      · exact .plain rfl
      · exact .name (by simp [Statement.names])
      · exact .plain rfl
      · exact .plain rfl
      · rcases mem_separated inside with rfl | ⟨value, among, spelt⟩
        · exact .plain rfl
        · obtain rfl : token = literal value := by simpa using spelt
          exact .value among
      · exact .plain rfl
  | select table columns filter orderBy limit =>
      simp only [statementTokens, List.mem_append, List.mem_cons, List.not_mem_nil, or_false,
        List.cons_append] at inside
      rcases inside with rfl | (((inside | rfl | rfl) | inside) | inside) | inside
      · exact .plain rfl
      · refine stems_columnsTokens ?_ inside
        rintro names name rfl among
        simp [Statement.names, among]
      · exact .plain rfl
      · exact .name (by simp [Statement.names])
      · refine stems_filterTokens ?_ ?_ inside
        · rintro expr rfl
          simp [Statement.names]
        · rintro expr rfl
          simp [Statement.literals]
      · refine stems_orderByTokens ?_ inside
        rintro ordered rfl
        simp [Statement.names]
      · exact stems_limitTokens inside
  | delete table filter =>
      simp only [statementTokens, List.mem_append, List.mem_cons, List.not_mem_nil, or_false]
        at inside
      rcases inside with (rfl | rfl | rfl) | inside
      · exact .plain rfl
      · exact .plain rfl
      · exact .name (by simp [Statement.names])
      · refine stems_filterTokens ?_ ?_ inside
        · rintro expr rfl
          simp [Statement.names]
        · rintro expr rfl
          simp [Statement.literals]
  | update table assignments filter =>
      simp only [statementTokens, List.mem_append, List.mem_cons, List.not_mem_nil, or_false]
        at inside
      rcases inside with ((rfl | rfl | rfl) | inside) | inside
      · exact .plain rfl
      · exact .name (by simp [Statement.names])
      · exact .plain rfl
      · rcases mem_separated inside with rfl | ⟨assignment, among, spelt⟩
        · exact .plain rfl
        · rcases (by simpa [assignmentTokens] using spelt) with rfl | rfl | rfl
          · exact .name (by simpa [Statement.names] using .inr (.inl ⟨assignment, among, rfl⟩))
          · exact .plain rfl
          · exact .value (by simpa [Statement.literals] using .inl ⟨assignment, among, rfl⟩)
      · refine stems_filterTokens ?_ ?_ inside
        · rintro expr rfl
          simp [Statement.names]
        · rintro expr rfl
          simp [Statement.literals]

theorem spells_keyword {token : Token} (word : String)
    (letters : word.toList.all Char.isAlpha = true)
    (reserved : keyword (capitals word.toList) = some token) : ∃ word, Spells token word :=
  ⟨_, .keyword (List.all_eq_true.mp letters) reserved⟩

theorem spells_plain {token : Token} (plain : isPlain token = true) :
    ∃ word, Spells token word := by
  cases token
  case create => exact spells_keyword "CREATE" (by decide) (by decide)
  case table => exact spells_keyword "TABLE" (by decide) (by decide)
  case insert => exact spells_keyword "INSERT" (by decide) (by decide)
  case into => exact spells_keyword "INTO" (by decide) (by decide)
  case values => exact spells_keyword "VALUES" (by decide) (by decide)
  case select => exact spells_keyword "SELECT" (by decide) (by decide)
  case «from» => exact spells_keyword "FROM" (by decide) (by decide)
  case «where» => exact spells_keyword "WHERE" (by decide) (by decide)
  case delete => exact spells_keyword "DELETE" (by decide) (by decide)
  case int => exact spells_keyword "INT" (by decide) (by decide)
  case text => exact spells_keyword "TEXT" (by decide) (by decide)
  case float => exact spells_keyword "FLOAT" (by decide) (by decide)
  case update => exact spells_keyword "UPDATE" (by decide) (by decide)
  case set => exact spells_keyword "SET" (by decide) (by decide)
  case null => exact spells_keyword "NULL" (by decide) (by decide)
  case is => exact spells_keyword "IS" (by decide) (by decide)
  case not => exact spells_keyword "NOT" (by decide) (by decide)
  case order => exact spells_keyword "ORDER" (by decide) (by decide)
  case «by» => exact spells_keyword "BY" (by decide) (by decide)
  case asc => exact spells_keyword "ASC" (by decide) (by decide)
  case desc => exact spells_keyword "DESC" (by decide) (by decide)
  case limit => exact spells_keyword "LIMIT" (by decide) (by decide)
  case primary => exact spells_keyword "PRIMARY" (by decide) (by decide)
  case key => exact spells_keyword "KEY" (by decide) (by decide)
  case lParen => exact ⟨_, .lParen⟩
  case rParen => exact ⟨_, .rParen⟩
  case comma => exact ⟨_, .comma⟩
  case semicolon => exact ⟨_, .semicolon⟩
  case star => exact ⟨_, .star⟩
  case eq => exact ⟨_, .eq⟩
  case ne => exact ⟨_, .ne⟩
  case lt => exact ⟨_, .lt⟩
  case gt => exact ⟨_, .gt⟩
  case le => exact ⟨_, .le⟩
  case ge => exact ⟨_, .ge⟩
  all_goals exact absurd plain Bool.false_ne_true

theorem Writable.spells {stmt : Statement} (writable : Writable stmt) {bare : Bool} {token : Token}
    (inside : token ∈ statementTokens bare stmt) : ∃ word, Spells token word := by
  cases stems_statementTokens inside with
  | plain plain => exact spells_plain plain
  | name known => exact ⟨_, .identifier (writable.names _ known)⟩
  | count n => exact ⟨_, .int n⟩
  | @value value known =>
      have written := writable.literals value known
      cases value with
      | int n => exact ⟨_, .int n⟩
      | float bits => exact written.elim
      | text s => exact ⟨_, .text written⟩
      | null => exact spells_plain rfl

theorem exists_written {tokens : List Token}
    (spells : ∀ token ∈ tokens, ∃ word, Spells token word) :
    ∃ text, Written tokens text ∧ Ends text := by
  induction tokens with
  | nil => exact ⟨[], .nil (by simp), by simp [Ends]⟩
  | cons token tokens ih =>
      rcases ih fun other inside => spells other (by simp [inside]) with ⟨text, written, ends⟩
      rcases spells token (by simp) with ⟨word, spelt⟩
      exact ⟨[' '] ++ (word ++ text), .cons (List.all_eq_true.mp (by decide)) spelt ends written,
        by simp [Ends, isWhitespace]⟩

/-- A statement of the grammar can be written as text, and every way of writing it is read back
as the same statement. -/
theorem parse_tokenize_written [Unicode] {stmt : Statement} (writable : Writable stmt)
    (bare : Bool) :
    (∃ text, Written (statementTokens bare stmt) text) ∧
      ∀ text, Written (statementTokens bare stmt) text →
        ∃ tokens, tokenize text = (.ok tokens, []) ∧ (parse tokens).1 = .ok stmt := by
  constructor
  · rcases exists_written fun _ => writable.spells with ⟨text, written, -⟩
    exact ⟨text, written⟩
  · intro text written
    have read : parse (statementTokens bare stmt ++ [.eof]) = (.ok stmt, [.eof]) := by
      refine parse_eq_ok.mpr ⟨writable.spellable, bare, rfl, ?_⟩
      cases stmt <;> simp [Continues]
    exact ⟨_, tokenize_written written, by rw [read]⟩

/-- `DELETE FROM t WHERE id = -9223372036854775808` -/
def deleteLeast : Statement := .delete "t" (some ⟨"id", .eq, .int Int64.minValue⟩)

theorem writable_deleteLeast : Writable deleteLeast where
  spellable := by simp [deleteLeast, Spellable, SpellableExpr]
  names := by
    intro name inside
    rcases (by simpa [deleteLeast, Statement.names] using inside) with rfl | rfl
    · exact ⟨⟨'t', [], by decide, .inl (by decide)⟩, List.all_eq_true.mp (by decide), by decide⟩
    · exact ⟨⟨'i', ['d'], by decide, .inl (by decide)⟩, List.all_eq_true.mp (by decide),
        by decide⟩
  literals := by simp [deleteLeast, Statement.literals, WritableValue]

attribute [local instance] asciiTables

theorem parse_tokenize_deleteLeast :
    Writable deleteLeast ∧ (∃ text, Written (statementTokens true deleteLeast) text) ∧
      ∀ text, Written (statementTokens true deleteLeast) text →
        ∃ tokens, tokenize text = (.ok tokens, []) ∧ (parse tokens).1 = .ok deleteLeast :=
  ⟨writable_deleteLeast, parse_tokenize_written writable_deleteLeast true⟩

end Statements

end VenomDb
