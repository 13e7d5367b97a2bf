import VenomDb.Sql.Parser

/-!
# The grammar the parser reads

Every statement has its spelling as tokens. The parser succeeds exactly on a spelling
followed by a token that could not continue it, and does not look any further.
-/

namespace VenomDb

namespace Parser

variable {α : Type}

section Loops

/-- Items with commas between them. -/
def separated (spell : α → List Token) : List α → List Token
  | [] => []
  | [item] => spell item
  | item :: items => spell item ++ .comma :: separated spell items

theorem separated_cons (spell : α → List Token) (item : α) {items : List α} (more : items ≠ []) :
    separated spell (item :: items) = spell item ++ .comma :: separated spell items := by
  cases items with
  | nil => exact absurd rfl more
  | cons next items => rfl

variable {item : Parser α} {more : Parser Bool} {consumes : Consumes item} {shrinks : Shrinks more}
  {tokens rest : List Token}

/-- One round of the loop. -/
theorem loop_eq_ok {values : List α} :
    loop item more consumes shrinks tokens = (.ok values, rest) ↔
      ∃ value between, item tokens = (.ok value, between) ∧
        ((values = [value] ∧ more between = (.ok false, rest)) ∨
          ∃ others after, values = value :: others ∧ more between = (.ok true, after) ∧
            loop item more consumes shrinks after = (.ok others, rest)) := by
  rw [loop]
  split
  next failure rest' failed => simp [failed]
  next value between read =>
    have only : ∀ other after, item tokens = (.ok other, after) ↔ other = value ∧
        after = between := by
      intro other after
      rw [read, Prod.mk.injEq, Except.ok.injEq, eq_comm, eq_comm (a := between)]
    simp only [only]
    split
    next failure rest' failed => simp [failed]
    next rest' stopped => simp [stopped, eq_comm]
    next after went =>
      simp only [and_assoc]
      split
      next failure rest' failed => simp [went, failed]
      next others rest' looped => simp [went, looped, eq_comm]

/-- A list between brackets: items that end at a comma or a bracket, then the closing bracket. -/
theorem loop_commaOrParen_eq_ok (spell : α → List Token) (ends : α → Token → Prop)
    {shrinks : Shrinks commaOrParen}
    (reads : ∀ tokens value rest, item tokens = (.ok value, rest) ↔
      tokens = spell value ++ rest ∧ ends value (rest.headD .eof))
    (closes : ∀ value, ends value .comma ∧ ends value .rParen) {values : List α} :
    loop item commaOrParen consumes shrinks tokens = (.ok values, rest) ↔
      values ≠ [] ∧ tokens = separated spell values ++ .rParen :: rest := by
  induction values generalizing tokens with
  | nil => rw [loop_eq_ok]; simp
  | cons value values ih =>
      rw [loop_eq_ok]
      simp only [reads, commaOrParen_eq_ok, List.cons.injEq]
      constructor
      · rintro ⟨_, _, ⟨rfl, -⟩, ⟨⟨rfl, rfl⟩, rfl⟩ | ⟨_, _, ⟨rfl, rfl⟩, rfl, looped⟩⟩
        · exact ⟨by simp, rfl⟩
        · rcases ih.mp looped with ⟨more, rfl⟩
          exact ⟨by simp, by simp [separated_cons spell _ more]⟩
      · rintro ⟨-, rfl⟩
        by_cases last : values = []
        · subst last
          exact ⟨value, _, ⟨rfl, (closes value).2⟩, .inl ⟨⟨rfl, rfl⟩, rfl⟩⟩
        · refine ⟨value, .comma :: (separated spell values ++ .rParen :: rest),
            ⟨by simp [separated_cons spell _ last], (closes value).1⟩,
            .inr ⟨values, _, ⟨rfl, rfl⟩, rfl, ih.mpr ⟨last, rfl⟩⟩⟩

/-- A list without brackets, which ends where no comma follows. -/
theorem loop_comma_eq_ok (spell : α → List Token) {shrinks : Shrinks comma}
    (reads : ∀ tokens value rest, item tokens = (.ok value, rest) ↔ tokens = spell value ++ rest)
    {values : List α} :
    loop item comma consumes shrinks tokens = (.ok values, rest) ↔
      values ≠ [] ∧ tokens = separated spell values ++ rest ∧ rest.headD .eof ≠ .comma := by
  induction values generalizing tokens with
  | nil => rw [loop_eq_ok]; simp
  | cons value values ih =>
      rw [loop_eq_ok]
      simp only [reads, comma_eq_ok, List.cons.injEq, Bool.false_eq_true, if_false, if_true]
      constructor
      · rintro ⟨_, _, rfl, ⟨⟨rfl, rfl⟩, rfl, ends⟩ | ⟨_, _, ⟨rfl, rfl⟩, rfl, looped⟩⟩
        · exact ⟨by simp, rfl, ends⟩
        · rcases ih.mp looped with ⟨more, rfl, ends⟩
          exact ⟨by simp, by simp [separated_cons spell _ more], ends⟩
      · rintro ⟨-, rfl, ends⟩
        by_cases last : values = []
        · subst last
          exact ⟨value, _, rfl, .inl ⟨⟨rfl, rfl⟩, rfl, ends⟩⟩
        · refine ⟨value, .comma :: (separated spell values ++ rest),
            by simp [separated_cons spell _ last],
            .inr ⟨values, _, ⟨rfl, rfl⟩, rfl, ih.mpr ⟨last, rfl, ends⟩⟩⟩

end Loops

section Spelling

/-- The token of a comparison. -/
def opToken : Op → Token
  | .eq => .eq
  | .ne => .ne
  | .lt => .lt
  | .gt => .gt
  | .le => .le
  | .ge => .ge
  | .isNull | .isNotNull => .is

def exprTokens (expr : Expr) : List Token :=
  .ident expr.left :: match expr.op with
    | .isNull => [.is, .null]
    | .isNotNull => [.is, .not, .null]
    | op => [opToken op, literal expr.right]

def filterTokens : Option Expr → List Token
  | none => []
  | some expr => .where :: exprTokens expr

/-- With `bare`, the default direction is not written out. -/
def orderByTokens (bare : Bool) : Option (String × OrderDir) → List Token
  | none => []
  | some (column, .desc) => [.order, .by, .ident column, .desc]
  | some (column, .asc) => [.order, .by, .ident column] ++ if bare then [] else [.asc]

def limitTokens : Option UInt64 → List Token
  | none => []
  | some n => [.limit, .intLit n.toInt64]

def columnsTokens : SelectColumns → List Token
  | .star => [.star]
  | .named names => separated (fun name => [.ident name]) names

/-- The tokens of a statement. -/
def statementTokens (bare : Bool) : Statement → List Token
  | .createTable table columns =>
      [.create, .table, .ident table, .lParen] ++ separated columnTokens columns ++ [.rParen]
  | .insert table values =>
      [.insert, .into, .ident table, .values, .lParen] ++
        separated (fun value => [literal value]) values ++ [.rParen]
  | .select table columns filter orderBy limit =>
      .select :: columnsTokens columns ++ [.from, .ident table] ++ filterTokens filter ++
        orderByTokens bare orderBy ++ limitTokens limit
  | .delete table filter => [.delete, .from, .ident table] ++ filterTokens filter
  | .update table assignments filter =>
      [.update, .ident table, .set] ++ separated assignmentTokens assignments ++ filterTokens filter

/-- `IS NULL` and `IS NOT NULL` have no operand. -/
def SpellableExpr (expr : Expr) : Prop :=
  expr.op = .isNull ∨ expr.op = .isNotNull → expr.right = .null

/-- The statements that the grammar can express. -/
def Spellable : Statement → Prop
  | .createTable _ columns => columns ≠ []
  | .insert _ values => values ≠ []
  | .select _ columns filter _ limit =>
      columns ≠ .named [] ∧ (∀ expr ∈ filter, SpellableExpr expr) ∧ ∀ n ∈ limit, n.toNat < 2 ^ 63
  | .delete _ filter => ∀ expr ∈ filter, SpellableExpr expr
  | .update _ assignments filter => assignments ≠ [] ∧ ∀ expr ∈ filter, SpellableExpr expr

/-- A token that the statement would go on with. -/
def Continues (bare : Bool) : Statement → Token → Prop
  | .createTable .., _ => False
  | .insert .., _ => False
  | .select _ _ filter orderBy limit, next =>
      limit = none ∧
        (next = .limit ∨
          (orderBy = none ∧ (next = .order ∨ (filter = none ∧ next = .where))) ∨
          (bare ∧ (∃ column, orderBy = some (column, .asc)) ∧ (next = .asc ∨ next = .desc)))
  | .delete _ filter, next => filter = none ∧ next = .where
  | .update _ _ filter, next => filter = none ∧ (next = .where ∨ next = .comma)

end Spelling

section Clauses

variable {tokens rest : List Token}

theorem parseOp_eq_ok {op : Op} :
    parseOp tokens = (.ok op, rest) ↔
      (op ≠ .isNull ∧ op ≠ .isNotNull) ∧ tokens = opToken op :: rest := by
  cases tokens with
  | nil => cases op <;> simp [parseOp, opToken]
  | cons token tokens => cases token <;> cases op <;> simp [parseOp, opToken]

theorem parseIs_eq_ok {left : String} {expr : Expr} :
    parseIs left tokens = (.ok expr, rest) ↔
      (expr = ⟨left, .isNotNull, .null⟩ ∧ tokens = .not :: .null :: rest) ∨
        (expr = ⟨left, .isNull, .null⟩ ∧ tokens = .null :: rest) := by
  rw [parseIs, ite_peek_eq_ok (by decide)]
  simp only [Fallible.bind_eq_ok_iff, expect_eq_ok .null rfl, Fallible.pure_apply, Prod.mk.injEq,
    Except.ok.injEq]
  constructor
  · rintro (⟨_, rfl, _, _, rfl, rfl, rfl⟩ | ⟨-, _, _, rfl, rfl, rfl⟩)
    · exact .inl ⟨rfl, rfl⟩
    · exact .inr ⟨rfl, rfl⟩
  · rintro (⟨rfl, rfl⟩ | ⟨rfl, rfl⟩)
    · exact .inl ⟨_, rfl, (), _, rfl, rfl, rfl⟩
    · exact .inr ⟨by simp, (), _, rfl, rfl, rfl⟩

theorem parseExpr_eq_ok {expr : Expr} :
    parseExpr tokens = (.ok expr, rest) ↔
      SpellableExpr expr ∧ tokens = exprTokens expr ++ rest := by
  simp only [parseExpr, Fallible.bind_eq_ok_iff, ite_peek_eq_ok (show Token.is ≠ .eof by decide),
    expectIdent_eq_ok, parseOp_eq_ok, parseValue_eq_ok, parseIs_eq_ok, Fallible.pure_apply,
    Prod.mk.injEq, Except.ok.injEq]
  constructor
  · rintro ⟨left, _, rfl, ⟨_, rfl, ⟨rfl, rfl⟩ | ⟨rfl, rfl⟩⟩ |
      ⟨-, op, _, ⟨⟨notNull, notNotNull⟩, rfl⟩, right, _, rfl, rfl, rfl⟩⟩
    · exact ⟨fun _ => rfl, rfl⟩
    · exact ⟨fun _ => rfl, rfl⟩
    · refine ⟨fun isNull => isNull.elim (absurd · notNull) (absurd · notNotNull), ?_⟩
      cases op <;> simp_all [exprTokens]
  · rintro ⟨spellable, rfl⟩
    rcases expr with ⟨left, op, right⟩
    refine ⟨left, _, rfl, ?_⟩
    cases op with
    | isNull =>
        obtain rfl : right = .null := spellable (.inl rfl)
        exact .inl ⟨_, rfl, .inr ⟨rfl, rfl⟩⟩
    | isNotNull =>
        obtain rfl : right = .null := spellable (.inr rfl)
        exact .inl ⟨_, rfl, .inl ⟨rfl, rfl⟩⟩
    | _ => exact .inr ⟨by simp [opToken], _, _, ⟨by simp, rfl⟩, right, _, rfl, rfl, rfl⟩

theorem parseFilter_eq_ok {filter : Option Expr} :
    parseFilter tokens = (.ok filter, rest) ↔
      (∀ expr ∈ filter, SpellableExpr expr) ∧ tokens = filterTokens filter ++ rest ∧
        (filter = none → rest.headD .eof ≠ .where) := by
  rw [parseFilter, ite_peek_eq_ok (by decide)]
  simp only [Fallible.bind_eq_ok_iff, parseExpr_eq_ok, Fallible.pure_apply, Prod.mk.injEq,
    Except.ok.injEq]
  constructor
  · rintro (⟨_, rfl, expr, _, ⟨spellable, rfl⟩, rfl, rfl⟩ | ⟨missing, rfl, rfl⟩)
    · exact ⟨by simpa using spellable, rfl, by simp⟩
    · exact ⟨by simp, rfl, fun _ => missing⟩
  · rintro ⟨spellable, rfl, ends⟩
    cases filter with
    | some expr => exact .inl ⟨_, rfl, expr, _, ⟨spellable expr rfl, rfl⟩, rfl, rfl⟩
    | none => exact .inr ⟨ends rfl, rfl, rfl⟩

/-- The tokens of a direction. -/
def dirTokens (bare : Bool) : OrderDir → List Token
  | .desc => [.desc]
  | .asc => if bare then [] else [.asc]

theorem parseDir_apply :
    parseDir tokens =
      if tokens.headD .eof = .asc then (.ok .asc, tokens.tail)
      else if tokens.headD .eof = .desc then (.ok .desc, tokens.tail)
      else (.ok .asc, tokens) := by
  cases tokens with
  | nil => rfl
  | cons token tokens => cases token <;> rfl

theorem parseDir_eq_ok {dir : OrderDir} :
    parseDir tokens = (.ok dir, rest) ↔
      ∃ bare : Bool, tokens = dirTokens bare dir ++ rest ∧
        (bare → dir = .asc → rest.headD .eof ≠ .asc ∧ rest.headD .eof ≠ .desc) := by
  constructor
  · intro read
    rw [parseDir_apply] at read
    split at read
    next given =>
      rcases tokens with _ | ⟨token, tokens⟩
      · simp at given
      · obtain rfl : token = .asc := given
        obtain ⟨rfl, rfl⟩ : .asc = dir ∧ tokens = rest := by simpa using read
        exact ⟨false, rfl, by simp⟩
    next notAsc =>
      split at read
      next given =>
        rcases tokens with _ | ⟨token, tokens⟩
        · simp at given
        · obtain rfl : token = .desc := given
          obtain ⟨rfl, rfl⟩ : .desc = dir ∧ tokens = rest := by simpa using read
          exact ⟨false, rfl, by simp⟩
      next notDesc =>
        obtain ⟨rfl, rfl⟩ : .asc = dir ∧ tokens = rest := by simpa using read
        exact ⟨true, rfl, fun _ _ => ⟨notAsc, notDesc⟩⟩
  · rintro ⟨bare, rfl, ends⟩
    cases dir with
    | desc => rfl
    | asc =>
        cases bare with
        | false => rfl
        | true =>
            rcases ends rfl rfl with ⟨notAsc, notDesc⟩
            change parseDir rest = _
            rw [parseDir_apply, if_neg notAsc, if_neg notDesc]

theorem parseOrderBy_eq_ok {orderBy : Option (String × OrderDir)} :
    parseOrderBy tokens = (.ok orderBy, rest) ↔
      ∃ bare : Bool, tokens = orderByTokens bare orderBy ++ rest ∧
        (orderBy = none → rest.headD .eof ≠ .order) ∧
        (bare → (∃ column, orderBy = some (column, .asc)) →
          rest.headD .eof ≠ .asc ∧ rest.headD .eof ≠ .desc) := by
  rw [parseOrderBy, ite_peek_eq_ok (by decide)]
  simp only [Fallible.bind_eq_ok_iff, expect_eq_ok .by rfl, expectIdent_eq_ok, parseDir_eq_ok,
    Fallible.pure_apply, Prod.mk.injEq, Except.ok.injEq]
  constructor
  · rintro (⟨_, rfl, _, _, rfl, column, _, rfl, dir, _, ⟨bare, rfl, ends⟩, rfl, rfl⟩ |
      ⟨missing, rfl, rfl⟩)
    · refine ⟨bare, ?_, by simp, fun isBare ascending => ends isBare ?_⟩
      · cases dir <;> rfl
      · obtain ⟨_, same⟩ := ascending
        simp only [Option.some.injEq, Prod.mk.injEq] at same
        exact same.2
    · exact ⟨true, rfl, fun _ => missing, by simp⟩
  · rintro ⟨bare, rfl, notOrder, ends⟩
    cases orderBy with
    | none => exact .inr ⟨notOrder rfl, rfl, rfl⟩
    | some ordered =>
        rcases ordered with ⟨column, dir⟩
        refine .inl ⟨_, ?_, (), _, rfl, column, _, rfl, dir, _, ⟨bare, rfl, ?_⟩, rfl, rfl⟩
        · cases dir <;> rfl
        · rintro isBare rfl
          exact ends isBare ⟨column, rfl⟩

theorem toUInt64_lt {n : Int64} (positive : 0 ≤ n) : n.toUInt64.toNat < 2 ^ 63 := by
  have signed := n.toInt_toBitVec
  rw [BitVec.toInt_eq_toNat_cond] at signed
  have bits : n.toUInt64.toNat = n.toBitVec.toNat := rfl
  have atLeast := Int64.le_iff_toInt_le.mp positive
  rw [bits]
  simp only [Int64.toInt_zero] at atLeast
  split at signed <;> omega

theorem toInt64_nonneg {n : UInt64} (small : n.toNat < 2 ^ 63) : 0 ≤ n.toInt64 := by
  have signed := n.toInt64.toInt_toBitVec
  rw [BitVec.toInt_eq_toNat_cond] at signed
  have bits : n.toInt64.toBitVec.toNat = n.toNat := rfl
  rw [bits] at signed
  rw [Int64.le_iff_toInt_le, Int64.toInt_zero]
  split at signed <;> omega

theorem parseCount_eq_ok {n : UInt64} :
    parseCount tokens = (.ok n, rest) ↔ n.toNat < 2 ^ 63 ∧ tokens = .intLit n.toInt64 :: rest := by
  cases tokens with
  | nil => simp [parseCount]
  | cons token tokens =>
      cases token with
      | intLit count =>
          by_cases positive : 0 ≤ count
          · simp only [parseCount, advance_bind, List.headD_cons, positive, if_true, List.tail_cons,
              Fallible.pure_apply, Prod.mk.injEq, Except.ok.injEq, List.cons.injEq,
              Token.intLit.injEq]
            constructor
            · rintro ⟨rfl, rfl⟩
              exact ⟨toUInt64_lt positive, by simp, rfl⟩
            · rintro ⟨-, rfl, rfl⟩
              exact ⟨by simp, rfl⟩
          · simp only [parseCount, advance_bind, List.headD_cons, positive, if_false,
              Fallible.throw_apply, Prod.mk.injEq, reduceCtorEq, false_and, false_iff]
            rintro ⟨small, same⟩
            simp only [List.cons.injEq, Token.intLit.injEq] at same
            exact positive (same.1 ▸ toInt64_nonneg small)
      | _ => simp [parseCount]

theorem parseLimit_eq_ok {limit : Option UInt64} :
    parseLimit tokens = (.ok limit, rest) ↔
      (∀ n ∈ limit, n.toNat < 2 ^ 63) ∧ tokens = limitTokens limit ++ rest ∧
        (limit = none → rest.headD .eof ≠ .limit) := by
  rw [parseLimit, ite_peek_eq_ok (by decide)]
  simp only [Fallible.bind_eq_ok_iff, parseCount_eq_ok, Fallible.pure_apply, Prod.mk.injEq,
    Except.ok.injEq]
  constructor
  · rintro (⟨_, rfl, n, _, ⟨small, rfl⟩, rfl, rfl⟩ | ⟨missing, rfl, rfl⟩)
    · exact ⟨by simpa using small, rfl, by simp⟩
    · exact ⟨by simp, rfl, fun _ => missing⟩
  · rintro ⟨small, rfl, ends⟩
    cases limit with
    | none => exact .inr ⟨ends rfl, rfl, rfl⟩
    | some n => exact .inl ⟨_, rfl, n, _, ⟨small n rfl, rfl⟩, rfl, rfl⟩

theorem parseColumns_eq_ok {columns : SelectColumns} :
    parseColumns tokens = (.ok columns, rest) ↔
      columns ≠ .named [] ∧ tokens = columnsTokens columns ++ rest ∧
        (columns ≠ .star → rest.headD .eof ≠ .comma) := by
  rw [parseColumns, ite_peek_eq_ok (by decide)]
  simp only [Fallible.bind_eq_ok_iff,
    loop_comma_eq_ok (fun name => [.ident name]) (fun _ _ _ => expectIdent_eq_ok),
    Fallible.pure_apply, Prod.mk.injEq, Except.ok.injEq]
  constructor
  · rintro (⟨_, rfl, rfl, rfl⟩ | ⟨missing, names, _, ⟨some, rfl, ends⟩, rfl, rfl⟩)
    · exact ⟨by simp, rfl, by simp⟩
    · exact ⟨by simpa using some, rfl, fun _ => ends⟩
  · rintro ⟨some, rfl, ends⟩
    cases columns with
    | star => exact .inl ⟨_, rfl, rfl, rfl⟩
    | named names =>
        have proper : names ≠ [] := by simpa using some
        refine .inr ⟨?_, names, _, ⟨proper, rfl, ends (by simp)⟩, rfl, rfl⟩
        rcases names with _ | ⟨name, _ | ⟨_, _⟩⟩
        · exact absurd rfl proper
        · simp [columnsTokens, separated]
        · simp [columnsTokens, separated]

end Clauses

section Statements

variable {tokens rest : List Token} {stmt : Statement}

theorem loop_parseColumn_eq_ok {consumes : Consumes parseColumn} {shrinks : Shrinks commaOrParen}
    {columns : List ColumnDef} :
    loop parseColumn commaOrParen consumes shrinks tokens = (.ok columns, rest) ↔
      columns ≠ [] ∧ tokens = separated columnTokens columns ++ .rParen :: rest :=
  loop_commaOrParen_eq_ok columnTokens
    (fun column next => column.primaryKey = false → next ≠ .primary)
    (fun _ _ _ => parseColumn_eq_ok) (by simp)

theorem loop_parseValue_eq_ok {consumes : Consumes parseValue} {shrinks : Shrinks commaOrParen}
    {values : List Value} :
    loop parseValue commaOrParen consumes shrinks tokens = (.ok values, rest) ↔
      values ≠ [] ∧
        tokens = separated (fun value => [literal value]) values ++ .rParen :: rest :=
  loop_commaOrParen_eq_ok (fun value => [literal value]) (fun _ _ => True)
    (fun _ _ _ => by simp [parseValue_eq_ok]) (by simp)

theorem parseCreate_eq_ok :
    parseCreate tokens = (.ok stmt, rest) ↔
      ∃ table columns, stmt = .createTable table columns ∧ columns ≠ [] ∧
        tokens = statementTokens true stmt ++ rest := by
  simp only [parseCreate, Fallible.bind_eq_ok_iff, expect_eq_ok .create rfl,
    expect_eq_ok .table rfl, expect_eq_ok .lParen rfl, expectIdent_eq_ok, loop_parseColumn_eq_ok,
    Fallible.pure_apply, Prod.mk.injEq, Except.ok.injEq]
  constructor
  · rintro ⟨_, _, rfl, _, _, rfl, table, _, rfl, _, _, rfl, columns, _, ⟨some, rfl⟩, rfl, rfl⟩
    exact ⟨table, columns, rfl, some, by simp [statementTokens]⟩
  · rintro ⟨table, columns, rfl, some, rfl⟩
    exact ⟨(), _, rfl, (), _, rfl, table, _, rfl, (), _, rfl, columns, _,
      ⟨some, by simp⟩, rfl, rfl⟩

theorem parseInsert_eq_ok :
    parseInsert tokens = (.ok stmt, rest) ↔
      ∃ table values, stmt = .insert table values ∧ values ≠ [] ∧
        tokens = statementTokens true stmt ++ rest := by
  simp only [parseInsert, Fallible.bind_eq_ok_iff, expect_eq_ok .insert rfl,
    expect_eq_ok .into rfl, expect_eq_ok .values rfl, expect_eq_ok .lParen rfl, expectIdent_eq_ok,
    loop_parseValue_eq_ok, Fallible.pure_apply, Prod.mk.injEq, Except.ok.injEq]
  constructor
  · rintro ⟨_, _, rfl, _, _, rfl, table, _, rfl, _, _, rfl, _, _, rfl, values, _, ⟨some, rfl⟩,
      rfl, rfl⟩
    exact ⟨table, values, rfl, some, by simp [statementTokens]⟩
  · rintro ⟨table, values, rfl, some, rfl⟩
    exact ⟨(), _, rfl, (), _, rfl, table, _, rfl, (), _, rfl, (), _, rfl, values, _,
      ⟨some, by simp⟩, rfl, rfl⟩

theorem parseDelete_eq_ok :
    parseDelete tokens = (.ok stmt, rest) ↔
      ∃ table filter, stmt = .delete table filter ∧ (∀ expr ∈ filter, SpellableExpr expr) ∧
        tokens = statementTokens true stmt ++ rest ∧
        ¬Continues true stmt (rest.headD .eof) := by
  simp only [parseDelete, Fallible.bind_eq_ok_iff, expect_eq_ok .delete rfl,
    expect_eq_ok .from rfl, expectIdent_eq_ok, parseFilter_eq_ok, Fallible.pure_apply,
    Prod.mk.injEq, Except.ok.injEq]
  constructor
  · rintro ⟨_, _, rfl, _, _, rfl, table, _, rfl, filter, _, ⟨spellable, rfl, ends⟩, rfl, rfl⟩
    exact ⟨table, filter, rfl, spellable, by simp [statementTokens],
      fun continues => ends continues.1 continues.2⟩
  · rintro ⟨table, filter, rfl, spellable, rfl, ends⟩
    exact ⟨(), _, rfl, (), _, rfl, table, _, rfl, filter, _,
      ⟨spellable, by simp, fun missing same => ends ⟨missing, same⟩⟩, rfl, rfl⟩

theorem parseUpdate_eq_ok :
    parseUpdate tokens = (.ok stmt, rest) ↔
      ∃ table assignments filter, stmt = .update table assignments filter ∧ assignments ≠ [] ∧
        (∀ expr ∈ filter, SpellableExpr expr) ∧ tokens = statementTokens true stmt ++ rest ∧
        ¬Continues true stmt (rest.headD .eof) := by
  simp only [parseUpdate, Fallible.bind_eq_ok_iff, expect_eq_ok .update rfl,
    expect_eq_ok .set rfl, expectIdent_eq_ok,
    loop_comma_eq_ok assignmentTokens (fun _ _ _ => parseAssignment_eq_ok), parseFilter_eq_ok,
    Fallible.pure_apply, Prod.mk.injEq, Except.ok.injEq]
  constructor
  · rintro ⟨_, _, rfl, table, _, rfl, _, _, rfl, assignments, _, ⟨some, rfl, notComma⟩, filter, _,
      ⟨spellable, rfl, ends⟩, rfl, rfl⟩
    refine ⟨table, assignments, filter, rfl, some, spellable, by simp [statementTokens], ?_⟩
    rintro ⟨rfl, given | given⟩
    · exact ends rfl given
    · exact notComma given
  · rintro ⟨table, assignments, filter, rfl, some, spellable, rfl, ends⟩
    refine ⟨(), _, rfl, table, _, rfl, (), _, rfl, assignments, filterTokens filter ++ rest,
      ⟨some, by simp, ?_⟩, filter, _,
      ⟨spellable, rfl, fun missing same => ends ⟨missing, .inl same⟩⟩, rfl, rfl⟩
    cases filter with
    | none => exact fun same => ends ⟨rfl, .inr same⟩
    | some expr => simp [filterTokens]

/-- What follows the columns of a `SELECT`, and what may not follow it. -/
theorem parseSelect_eq_ok :
    parseSelect tokens = (.ok stmt, rest) ↔
      ∃ table columns filter orderBy limit,
        stmt = .select table columns filter orderBy limit ∧ Spellable stmt ∧
        ∃ bare, tokens = statementTokens bare stmt ++ rest ∧
          ¬Continues bare stmt (rest.headD .eof) := by
  simp only [parseSelect, Fallible.bind_eq_ok_iff, expect_eq_ok .select rfl,
    expect_eq_ok .from rfl, expectIdent_eq_ok, parseColumns_eq_ok, parseFilter_eq_ok,
    parseOrderBy_eq_ok, parseLimit_eq_ok, Fallible.pure_apply, Prod.mk.injEq, Except.ok.injEq]
  constructor
  · rintro ⟨_, _, rfl, columns, _, ⟨some, rfl, -⟩, _, _, rfl, table, _, rfl, filter, _,
      ⟨spellable, rfl, noWhere⟩, orderBy, _, ⟨bare, rfl, noOrder, noDir⟩, limit, _,
      ⟨small, rfl, noLimit⟩, rfl, rfl⟩
    refine ⟨table, columns, filter, orderBy, limit, rfl, ⟨some, spellable, small⟩, bare,
      by simp [statementTokens], ?_⟩
    rintro ⟨rfl, given | ⟨rfl, given | ⟨rfl, given⟩⟩ | ⟨isBare, ascending, given⟩⟩
    · exact noLimit rfl given
    · exact noOrder rfl given
    · exact noWhere rfl given
    · rcases noDir isBare ascending with ⟨notAsc, notDesc⟩
      exact given.elim notAsc notDesc
  · rintro ⟨table, columns, filter, orderBy, limit, rfl, ⟨some, spellable, small⟩, bare, rfl, ends⟩
    refine ⟨(), _, rfl, columns, _, ⟨some, by simp, by simp⟩, (), _, rfl, table,
      _, rfl, filter, orderByTokens bare orderBy ++ (limitTokens limit ++ rest),
      ⟨spellable, rfl, ?_⟩, orderBy, limitTokens limit ++ rest, ⟨bare, rfl, ?_, ?_⟩, limit, _,
      ⟨small, rfl, fun missing same => ends ⟨missing, .inl same⟩⟩, rfl, rfl⟩
    · rintro rfl
      cases orderBy with
      | some ordered => rcases ordered with ⟨column, _ | _⟩ <;> simp [orderByTokens]
      | none =>
          cases limit with
          | some n => simp [orderByTokens, limitTokens]
          | none => exact fun same => ends ⟨rfl, .inr (.inl ⟨rfl, .inr ⟨rfl, same⟩⟩)⟩
    · rintro rfl
      cases limit with
      | some n => simp [limitTokens]
      | none => exact fun same => ends ⟨rfl, .inr (.inl ⟨rfl, .inl same⟩)⟩
    · intro isBare ascending
      cases limit with
      | some n => simp [limitTokens]
      | none =>
          exact ⟨fun same => ends ⟨rfl, .inr (.inr ⟨isBare, ascending, .inl same⟩)⟩,
            fun same => ends ⟨rfl, .inr (.inr ⟨isBare, ascending, .inr same⟩)⟩⟩

theorem parse_cons_create (tokens : List Token) :
    parse (.create :: tokens) = parseCreate (.create :: tokens) := by simp [parse]

theorem parse_cons_insert (tokens : List Token) :
    parse (.insert :: tokens) = parseInsert (.insert :: tokens) := by simp [parse]

theorem parse_cons_select (tokens : List Token) :
    parse (.select :: tokens) = parseSelect (.select :: tokens) := by simp [parse]

theorem parse_cons_delete (tokens : List Token) :
    parse (.delete :: tokens) = parseDelete (.delete :: tokens) := by simp [parse]

theorem parse_cons_update (tokens : List Token) :
    parse (.update :: tokens) = parseUpdate (.update :: tokens) := by simp [parse]

/-- The parser reads exactly the spellings of the statements, up to the first token that could
not continue them. -/
theorem parse_eq_ok :
    parse tokens = (.ok stmt, rest) ↔
      Spellable stmt ∧ ∃ bare, tokens = statementTokens bare stmt ++ rest ∧
        ¬Continues bare stmt (rest.headD .eof) := by
  constructor
  · intro read
    cases tokens with
    | nil => simp [parse] at read
    | cons token tokens =>
        cases token
        case create =>
          rw [parse_cons_create] at read
          rcases parseCreate_eq_ok.mp read with ⟨table, columns, rfl, some, spelt⟩
          exact ⟨some, true, spelt, id⟩
        case insert =>
          rw [parse_cons_insert] at read
          rcases parseInsert_eq_ok.mp read with ⟨table, values, rfl, some, spelt⟩
          exact ⟨some, true, spelt, id⟩
        case select =>
          rw [parse_cons_select] at read
          rcases parseSelect_eq_ok.mp read with ⟨_, _, _, _, _, rfl, spellable, spelt⟩
          exact ⟨spellable, spelt⟩
        case delete =>
          rw [parse_cons_delete] at read
          rcases parseDelete_eq_ok.mp read with ⟨table, filter, rfl, spellable, spelt⟩
          exact ⟨spellable, true, spelt⟩
        case update =>
          rw [parse_cons_update] at read
          rcases parseUpdate_eq_ok.mp read with ⟨_, _, _, rfl, some, spellable, spelt⟩
          exact ⟨⟨some, spellable⟩, true, spelt⟩
        all_goals simp [parse] at read
  · rintro ⟨spellable, bare, rfl, ends⟩
    cases stmt with
    | createTable table columns =>
        exact (parse_cons_create _).trans <|
          parseCreate_eq_ok.mpr ⟨table, columns, rfl, spellable, rfl⟩
    | insert table values =>
        exact (parse_cons_insert _).trans <|
          parseInsert_eq_ok.mpr ⟨table, values, rfl, spellable, rfl⟩
    | select table columns filter orderBy limit =>
        exact (parse_cons_select _).trans <|
          parseSelect_eq_ok.mpr ⟨_, _, _, _, _, rfl, spellable, bare, rfl, ends⟩
    | delete table filter =>
        exact (parse_cons_delete _).trans <|
          parseDelete_eq_ok.mpr ⟨table, filter, rfl, spellable, rfl, ends⟩
    | update table assignments filter =>
        exact (parse_cons_update _).trans <|
          parseUpdate_eq_ok.mpr
            ⟨table, assignments, filter, rfl, spellable.1, spellable.2, rfl, ends⟩

end Statements

section Leftover

/-- Nothing is left but an optional semicolon and the final `Eof`. -/
def AtEnd (rest : List Token) : Prop :=
  rest = [] ∨ rest = [.eof] ∨ rest = [.semicolon] ∨ rest = [.semicolon, .eof]

/-- A parsed statement accounts for all of the tokens: they are its spelling and the end. -/
def AccountsForAll (tokens : List Token) : Prop :=
  ∀ stmt rest, parse tokens = (.ok stmt, rest) →
    (∃ bare, tokens = statementTokens bare stmt ++ rest) ∧ AtEnd rest

/-- A whole statement of the grammar with something behind it that neither continues the
statement nor ends the input. -/
def Trails (tokens : List Token) : Prop :=
  ∃ stmt bare rest, Spellable stmt ∧ tokens = statementTokens bare stmt ++ rest ∧
    ¬Continues bare stmt (rest.headD .eof) ∧ ¬AtEnd rest

/-- The parser accounts for all tokens exactly when there is no trailing text for it to drop. -/
theorem accountsForAll_iff (tokens : List Token) : AccountsForAll tokens ↔ ¬Trails tokens := by
  constructor
  · rintro accounts ⟨stmt, bare, rest, spellable, spelt, ends, more⟩
    exact more (accounts stmt rest (parse_eq_ok.mpr ⟨spellable, bare, spelt, ends⟩)).2
  · intro clean stmt rest read
    rcases parse_eq_ok.mp read with ⟨spellable, bare, spelt, ends⟩
    refine ⟨⟨bare, spelt⟩, ?_⟩
    by_contra more
    exact clean ⟨stmt, bare, rest, spellable, spelt, ends, more⟩

/-- `DELETE FROM t WHERE id = 1 AND a = 2` -/
def deleteBoth : List Token :=
  [.delete, .from, .ident "t", .where, .ident "id", .eq, .intLit 1, .ident "AND", .ident "a", .eq,
    .intLit 2, .eof]

/-- The second condition is dropped, and the statement deletes more than was written. -/
theorem deleteBoth_drops_condition : ¬AccountsForAll deleteBoth := by
  intro accounts
  have read : parse deleteBoth =
      (.ok (.delete "t" (some ⟨"id", .eq, .int 1⟩)),
        [.ident "AND", .ident "a", .eq, .intLit 2, .eof]) := rfl
  have ended := (accounts _ _ read).2
  simp [AtEnd] at ended

end Leftover

end Parser

end VenomDb
