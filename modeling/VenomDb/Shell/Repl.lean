import VenomDb.Concurrency.LockManager
import VenomDb.Engine.Executor
import VenomDb.Sql.Parser

/-!
# The shell

The loop of `main`: it reads lines, collects them until a statement looks complete, and runs it.
`BEGIN`, `COMMIT` and `ROLLBACK` are commands of the shell, which takes one lock for a statement
inside a transaction. Prompts and the layout of what is printed are left out.
-/

namespace VenomDb

namespace Shell

section Text

def trimStart (text : List Char) : List Char := text.dropWhile isWhitespace

def trimEndMatches (drops : Char → Bool) (text : List Char) : List Char :=
  (text.reverse.dropWhile drops).reverse

/-- `str::trim`. -/
def trim (text : List Char) : List Char := trimEndMatches isWhitespace (trimStart text)

variable [Unicode]

/-- `str::to_uppercase`. -/
def upper (text : List Char) : List Char := text.flatMap Unicode.toUppercase

/-- Whether a text starts with a word, whatever the case of its letters. -/
def startsWith (word : String) (text : List Char) : Bool := word.toList.isPrefixOf (upper text)

/-- `str::find`: the first byte of the first place where a pattern is found. -/
def find (pattern : List Char) : List Char → Option ℕ
  | [] => if pattern.isEmpty then some 0 else none
  | c :: text =>
      if pattern.isPrefixOf (c :: text) then some 0
      else (find pattern text).map fun offset => c.utf8Size + offset

/-- `&text[offset..]`, which panics between the bytes of a character and past the end. -/
def sliceFrom : ℕ → List Char → Except Panic (List Char)
  | 0, text => .ok text
  | _ + 1, [] => .error .outOfBounds
  | offset + 1, c :: text =>
      if c.utf8Size ≤ offset + 1 then sliceFrom (offset + 1 - c.utf8Size) text
      else .error .outOfBounds

/-- The name of a table, to head the columns that are printed. It is looked for in the text in
capitals, which may have other lengths than the text that is cut. -/
def extractTable (sql : List Char) : Except Panic (Option String) :=
  let found := ["FROM ", "INTO ", "TABLE "].findSome? fun word =>
    (find word.toList (upper sql)).map fun offset => offset + word.utf8ByteSize
  match found with
  | none => .ok none
  | some offset => do
      let rest ← sliceFrom offset sql
      return some (String.ofList (rest.takeWhile fun c => isAlphanumeric c || c == '_'))

def looksComplete (line : List Char) : Bool :=
  ["SELECT", "INSERT", "DELETE", "CREATE", "BEGIN", "COMMIT", "ROLLBACK"].any fun word =>
    startsWith word (trim line)

end Text

/-- The ways in which a statement can fail. -/
inductive Error where
  | lex (error : LexError)
  | parse (error : ParseError)
  | exec (failure : Failure)

/-- What the shell prints. -/
inductive Message where
  | bye
  | help
  | noTables
  | table (name : String)
  /-- "buffer pool hit rate: {:.1}%", of so many hits and misses -/
  | hitRate (hits misses : ℕ)
  /-- "already in a transaction — COMMIT or ROLLBACK first" -/
  | alreadyInTransaction
  /-- "transaction {} started" -/
  | started (txnId : UInt32)
  /-- "transaction {} committed" -/
  | committed (txnId : UInt32)
  /-- "transaction {} rolled back" -/
  | rolledBack (txnId : UInt32)
  | noActiveTransaction
  /-- "waiting for lock..." -/
  | waiting
  | deadlock (error : String)
  | tableCreated
  | rowInserted
  | rowsDeleted
  /-- The rows, and the columns that head them. -/
  | results (rows : List Row) (headers : Option (List String))
  | error (error : Error)

/-- A line of input, and the orders in which the maps and sets are iterated meanwhile. -/
structure Line where
  text : List Char
  order : HashOrder
  sets : SetOrder

end Shell

structure Shell where
  exec : Executor
  lm : LockManager
  currentTxn : Option UInt32
  nextTxnId : UInt32
  /-- The lines of a statement that is not complete yet. -/
  inputBuf : List Char

namespace Shell

/-- A computation of the shell, which only a panic can end. -/
abbrev Interaction := Fallible Panic Shell

def new (exec : Executor) : Shell where
  exec := exec
  lm := LockManager.new
  currentTxn := none
  nextTxnId := 1
  inputBuf := []

/-- The lock of the only row that the shell locks. -/
def tableRid : Rid := ⟨0xFFFFFFFF, 0⟩

/-- `next_txn_id += 1`. -/
def increment [Build] (txnId : UInt32) : Except Panic UInt32 :=
  if Build.overflowChecks ∧ txnId = 0xFFFFFFFF then .error .overflow else .ok (txnId + 1)

def beginTxn [Build] : Interaction (List Message) := do
  let shell ← Fallible.get
  match shell.currentTxn with
  | some _ => return [.alreadyInTransaction]
  | none => do
      Fallible.modify fun shell => { shell with currentTxn := some shell.nextTxnId }
      let next ← Fallible.ofExcept (increment shell.nextTxnId)
      Fallible.modify fun shell => { shell with nextTxnId := next }
      return [.started shell.nextTxnId]

/-- `COMMIT` and `ROLLBACK` differ in what they print. -/
def endTxn (message : UInt32 → Message) : Interaction (List Message) := do
  let shell ← Fallible.get
  match shell.currentTxn with
  | some txnId => do
      Fallible.modify fun shell =>
        { shell with currentTxn := none, lm := shell.lm.releaseAll txnId }
      return [message txnId]
  | none => return [.noActiveTransaction]

def commit : Interaction (List Message) := endTxn .committed

def rollback : Interaction (List Message) := endTxn .rolledBack

section Lines

variable [Unicode]

/-- The statement that a text spells; an empty text is none. -/
def readStatement (sql : List Char) : Except Error (Option Statement) :=
  let trimmed := trimEndMatches (· == ';') (trim sql)
  if trimmed.isEmpty then .ok none
  else
    match (Lexer.tokenize trimmed).1 with
    | .error error => .error (.lex error)
    | .ok tokens =>
        match (Parser.parse tokens).1 with
        | .error error => .error (.parse error)
        | .ok stmt => .ok (some stmt)

variable [Crc32] [Build]

def run (order : HashOrder) (sql : List Char) : Fallible Error Executor (List Row) :=
  fun exec =>
    match readStatement sql with
    | .error error => (.error error, exec)
    | .ok none => (.ok [], exec)
    | .ok (some stmt) =>
        match Executor.execute order stmt exec with
        | (.ok rows, exec') => (.ok rows, exec')
        | (.error failure, exec') => (.error (.exec failure), exec')

/-- What is printed of the rows that a statement gives. -/
def report (sql : List Char) (table : Option String) (rows : List Row) (exec : Executor) :
    List Message :=
  if rows.isEmpty then
    if startsWith "CREATE" sql then [.tableCreated]
    else if startsWith "INSERT" sql then [.rowInserted]
    else if startsWith "DELETE" sql then [.rowsDeleted]
    else []
  else
    [.results rows (table.bind fun name =>
      (exec.catalog.get name).map fun schema => schema.columns.map ColumnDef.name)]

/-- Take the lock for a statement in a transaction: what is printed, and whether to go on. -/
def lock (sets : SetOrder) (sql : List Char) : Interaction (List Message × Bool) := do
  let shell ← Fallible.get
  match shell.currentTxn with
  | none => return ([], true)
  | some txnId => do
      let isWrite := startsWith "INSERT" sql || startsWith "DELETE" sql
      let mode := if isWrite then LockMode.exclusive else LockMode.shared
      let acquired := shell.lm.acquire sets txnId tableRid mode
      Fallible.modify fun shell => { shell with lm := acquired.2 }
      match acquired.1 with
      | .ok true => return ([], true)
      | .ok false => return ([.waiting], true)
      | .error error => return ([.deadlock error], false)

/-- Run a statement and print what it gives. A panic ends the shell. -/
def submit (order : HashOrder) (sql : List Char) (table : Option String) :
    Interaction (List Message) := fun shell =>
  match run order sql shell.exec with
  | (.ok rows, exec) => (.ok (report sql table rows exec), { shell with exec := exec })
  | (.error (.exec (.panic panic)), exec) => (.error panic, { shell with exec := exec })
  | (.error error, exec) => (.ok [.error error], { shell with exec := exec })

/-- The statement collected so far, if this line completes it. -/
def complete (inputBuf line : List Char) : Option (List Char) :=
  if line.getLast? = some ';' || looksComplete line then
    some (trim (trimEndMatches (· == ';') (trim inputBuf)))
  else none

/-- A line that is no command. -/
def collect (line : Line) (text : List Char) : Interaction (List Message) := do
  Fallible.modify fun shell => { shell with inputBuf := shell.inputBuf ++ text ++ [' '] }
  let shell ← Fallible.get
  match complete shell.inputBuf text with
  | none => return []
  | some sql => do
      Fallible.modify fun shell => { shell with inputBuf := [] }
      if sql.isEmpty then return []
      else do
        let table ← Fallible.ofExcept (extractTable sql)
        let locked ← lock line.sets sql
        if locked.2 then do
          let printed ← submit line.order sql table
          return locked.1 ++ printed
        else return locked.1

/-- What a line asks of the shell. -/
inductive Command where
  | quit
  | help
  | tables
  | stats
  | «begin»
  | commit
  | rollback
  | text
  deriving DecidableEq

def command (text : List Char) : Command :=
  match String.ofList (upper text) with
  | "\\QUIT" | "\\Q" | "EXIT" | "QUIT" => .quit
  | "\\HELP" | "\\H" => .help
  | "\\TABLES" => .tables
  | "\\STATS" => .stats
  | "BEGIN" | "BEGIN;" => .begin
  | "COMMIT" | "COMMIT;" => .commit
  | "ROLLBACK" | "ROLLBACK;" => .rollback
  | _ => .text

def listTables (order : HashOrder) : Interaction (List Message) := do
  let shell ← Fallible.get
  match shell.exec.catalog.tables.keys with
  | [] => return [.noTables]
  | keys => return (order.tables keys).map .table

def stats : Interaction (List Message) := do
  let shell ← Fallible.get
  return [.hitRate shell.exec.bufferPool.hits shell.exec.bufferPool.misses]

/-- One line. -/
def enter (line : Line) : Interaction (List Message) :=
  let trimmed := trim line.text
  match command trimmed with
  | .quit => return [.bye]
  | .help => return [.help]
  | .tables => listTables line.order
  | .stats => stats
  | .begin => beginTxn
  | .commit => commit
  | .rollback => rollback
  | .text => collect line trimmed

/-- The loop, until `quit` or the end of the input. -/
def interact : List Line → Interaction (List Message)
  | [] => return []
  | line :: lines => do
      let printed ← enter line
      if command (trim line.text) = .quit then return printed
      else do
        let rest ← interact lines
        return printed ++ rest

end Lines

end Shell

end VenomDb
