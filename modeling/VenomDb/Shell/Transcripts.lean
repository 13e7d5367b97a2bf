import VenomDb.Engine.Queries
import VenomDb.Shell.Transactions
import VenomDb.Sql.RoundTrip

/-!
# Transcripts

From the lines that are typed to the rows that are printed: over any number of sessions of the
shell in which no statement failed, what it shows for each text is what the relational model says
of the statements before it, in and out of transactions.
-/

namespace VenomDb

namespace Executor

open Fallible

variable [Crc32] [Build]

/-- Only a query gives rows. -/
theorem yields_execute (order : HashOrder) {stmt : Statement}
    (noQuery : ∀ table columns filter orderBy limit,
      stmt ≠ .select table columns filter orderBy limit) :
    Yields (execute order stmt) (· = []) := by
  cases stmt with
  | createTable table columns =>
      unfold execute execCreateTable
      exact yields_bind fun _ => yields_bind fun _ => yields_bind fun _ => yields_bind fun _ =>
        yields_bind fun _ => yields_bind fun _ => yields_pure rfl
  | insert table values =>
      unfold execute execInsert
      exact yields_bind fun _ => yields_bind fun _ => yields_bind fun _ => yields_bind fun _ =>
        yields_bind fun _ => yields_bind fun _ => yields_bind fun _ => yields_bind fun _ =>
        yields_bind fun _ => yields_bind fun _ => yields_pure rfl
  | select table columns filter orderBy limit =>
      exact absurd rfl (noQuery table columns filter orderBy limit)
  | delete table filter =>
      unfold execute execDelete transact
      exact yields_bind fun _ => yields_bind fun _ => yields_bind fun _ => yields_bind fun _ =>
        yields_bind fun _ => yields_bind fun _ => yields_pure rfl
  | update table assignments filter =>
      unfold execute execUpdate transact
      exact yields_bind fun _ => yields_bind fun _ => yields_bind fun _ => yields_bind fun _ =>
        yields_bind fun _ => yields_bind fun _ => yields_pure rfl

end Executor

namespace Shell

open Fallible Executor

variable {stmts : List Statement} {shell shell' : Shell} {printed : List Message}

/-- The rows that a message shows. -/
def Message.rows : Message → List Row
  | .results rows _ => rows
  | _ => []

def shown (printed : List Message) : List Row := printed.flatMap Message.rows

/-- What is shown for a statement, by the tables before it: the rows that a query asks for, and
none for other statements. -/
def Explains [Build] (relations : Relations) : Option Statement → List Row → Prop
  | some (.select table columns filter orderBy limit), answer =>
      ∃ schema rows, relations table = some (schema, rows) ∧
        (Indexable schema filter →
          (∀ column direction, orderBy = some (column, direction) →
            ∃ index, Relations.Orderable schema columns column index) →
          ∃ found, Relations.query schema columns filter rows = some found ∧
            Relations.Answers schema columns orderBy limit found answer)
  | _, answer => answer = []

section Lines

variable [Unicode]

/-- The statement that a text spells, if there is one. -/
def spelled (sql : List Char) : Option Statement := (readStatement sql).toOption.join

/-- The statements among the texts that are submitted. -/
def statements (submitted : List (HashOrder × List Char)) : List Statement :=
  submitted.filterMap fun submitted => spelled submitted.2

theorem statements_cons (first : HashOrder × List Char) (rest : List (HashOrder × List Char)) :
    statements (first :: rest) = (spelled first.2).toList ++ statements rest := by
  rw [statements, List.filterMap_cons, statements]
  cases spelled first.2 <;> rfl

/-- What is printed for the texts that are submitted, after the statements before them. -/
inductive Transcript [Build] :
    List Statement → List (HashOrder × List Char) → List Message → Prop
  | nil {stmts : List Statement} : Transcript stmts [] []
  | cons {stmts : List Statement} {submitted : HashOrder × List Char}
      {rest : List (HashOrder × List Char)} {printed more : List Message} :
      Explains (Relations.run stmts) (spelled submitted.2) (shown printed) →
      Transcript (stmts ++ (spelled submitted.2).toList) rest more →
      Transcript stmts (submitted :: rest) (printed ++ more)

theorem shown_report (sql : List Char) (table : Option String) (rows : List Row) (exec : Executor) :
    shown (report sql table rows exec) = rows := by
  rw [report]
  split_ifs with empty
  · rw [List.isEmpty_iff.mp empty]
    rfl
  · rw [List.isEmpty_iff.mp empty]
    rfl
  · rw [List.isEmpty_iff.mp empty]
    rfl
  · rw [List.isEmpty_iff.mp empty]
    rfl
  · exact List.append_nil rows

variable [Crc32] [Build]

/-- A text is read as nothing, or it is executed. -/
theorem run_eq_ok {order : HashOrder} {sql : List Char} {rows : List Row} {exec exec' : Executor}
    (ran : run order sql exec = (.ok rows, exec')) :
    (spelled sql = none ∧ rows = [] ∧ exec' = exec) ∨
      ∃ stmt, spelled sql = some stmt ∧ execute order stmt exec = (.ok rows, exec') := by
  rw [run] at ran
  rw [spelled]
  rcases reads : readStatement sql with error | _ | stmt
  · rw [reads] at ran
    cases ran
  · rw [reads] at ran
    cases ran
    exact .inl ⟨rfl, rfl, rfl⟩
  · rw [reads] at ran
    dsimp only at ran
    rcases executed : execute order stmt exec with ⟨failure | rows', exec''⟩
    · rw [executed] at ran
      cases ran
    · rw [executed] at ran
      cases ran
      exact .inr ⟨stmt, rfl, executed⟩

theorem run_of_spelled {order : HashOrder} {sql : List Char} {stmt : Statement} {rows : List Row}
    {exec exec' : Executor} (isStmt : spelled sql = some stmt)
    (executed : execute order stmt exec = (.ok rows, exec')) :
    run order sql exec = (.ok rows, exec') := by
  rw [spelled] at isStmt
  rw [run]
  rcases reads : readStatement sql with error | _ | other
  · rw [reads] at isStmt
    cases isStmt
  · rw [reads] at isStmt
    cases isStmt
  · rw [reads] at isStmt
    obtain rfl : other = stmt := Option.some.inj isStmt
    dsimp only
    rw [executed]

/-- A statement that is submitted and does not fail is run. -/
theorem respond_eq_ok {submitted : HashOrder × List Char}
    (run : respond submitted shell = (.ok printed, shell'))
    (clean : ∀ error, .error error ∉ printed) :
    Shell.run submitted.1 submitted.2 shell.exec = (.ok (shown printed), shell'.exec) := by
  rcases bind_eq_ok run with ⟨table, between, extracted, submits⟩
  obtain ⟨-, rfl⟩ := Prod.mk.inj extracted
  rw [submit] at submits
  split at submits
  next rows exec ran =>
    cases submits
    rw [ran, shown_report]
  next => cases submits
  next error exec _ _ =>
    cases submits
    exact absurd (List.mem_singleton_self _) (clean error)

/-- One text, by the relational model. -/
theorem explains_run {order : HashOrder} {sql : List Char} {rows : List Row}
    {exec exec' : Executor} (lifetime : Lifetime stmts exec)
    (ran : run order sql exec = (.ok rows, exec')) :
    Explains (Relations.run stmts) (spelled sql) rows ∧
      Lifetime (stmts ++ (spelled sql).toList) exec' := by
  rcases run_eq_ok ran with ⟨nothing, rfl, rfl⟩ | ⟨stmt, isStmt, executed⟩
  · rw [nothing, Option.toList_none, List.append_nil]
    exact ⟨rfl, lifetime⟩
  · rw [isStmt]
    refine ⟨?_, lifetime.execute executed⟩
    cases stmt with
    | select table columns filter orderBy limit =>
        rcases lifetime.replies table columns filter orderBy limit with ⟨missing, replies⟩
        have reply : (execSelect table columns filter orderBy limit exec).1 = .ok rows :=
          congrArg Prod.fst executed
        rcases known : Relations.run stmts table with _ | ⟨schema, held⟩
        · rw [missing known] at reply
          cases reply
        · refine ⟨schema, held, known, fun indexable orderable => ?_⟩
          have answered := replies schema held known indexable orderable
          rw [reply] at answered
          rcases isFound : Relations.query schema columns filter held with _ | found
          · rw [isFound] at answered
            rcases answered with ⟨failure, ⟨⟩, -⟩
          · rw [isFound] at answered
            rcases answered with ⟨answer, ⟨⟩, answers⟩
            exact ⟨found, rfl, answers⟩
    | _ => exact yields_execute order (by simp) exec rows exec' executed

theorem transcript_perform {submitted : List (HashOrder × List Char)}
    (lifetime : Lifetime stmts shell.exec)
    (performs : perform submitted shell = (.ok printed, shell'))
    (clean : ∀ error, .error error ∉ printed) :
    Transcript stmts submitted printed ∧ Lifetime (stmts ++ statements submitted) shell'.exec := by
  induction submitted generalizing stmts shell printed with
  | nil =>
      cases performs
      rw [statements, List.filterMap_nil, List.append_nil]
      exact ⟨.nil, lifetime⟩
  | cons first rest ih =>
      rw [perform] at performs
      rcases bind_eq_ok performs with ⟨responded, between, responds, performs⟩
      rcases bind_eq_ok performs with ⟨more, between', performs, ended⟩
      cases ended
      have clean' : (∀ error, .error error ∉ responded) ∧ ∀ error, .error error ∉ more := by
        simpa [forall_and] using clean
      rcases explains_run lifetime (respond_eq_ok responds clean'.1) with ⟨explains, lifetime'⟩
      rcases ih lifetime' performs clean'.2 with ⟨transcript, lifetime''⟩
      refine ⟨.cons explains transcript, ?_⟩
      rw [List.append_assoc, ← statements_cons] at lifetime''
      exact lifetime''

/-- From text to rows: a session of the shell in which no statement failed shows, for the texts
that are submitted, what the relational model says of them. -/
theorem transcript_interact {exec : Executor} {lines : List Line} (lifetime : Lifetime stmts exec)
    (session : interact lines (new exec) = (.ok printed, shell))
    (clean : ∀ error, .error error ∉ printed) :
    Transcript stmts (submissions [] lines) (printed.filter Message.isOutcome) ∧
      Lifetime (stmts ++ statements (submissions [] lines)) shell.exec := by
  rcases follows_new exec lines with ⟨read, -, follows, all⟩
  rw [session] at follows all
  obtain rfl := all rfl
  rcases follows.ok printed rfl with ⟨performed, -⟩
  have sameExec := follows.exec
  rcases performs : perform (submissions [] read) (new exec) with ⟨result, ended⟩
  rw [performs] at performed sameExec
  dsimp only at performed sameExec
  subst performed
  rw [sameExec]
  exact transcript_perform lifetime performs fun error inside =>
    clean error (List.mem_of_mem_filter inside)

end Lines

end Shell

namespace Sample

open Shell Executor

attribute [local instance] Crc32.ieee Build.debug Lexer.asciiTables

def typed (text : String) : Line := ⟨text.toList, .ofInsertion, .ofInsertion⟩

/-- A query in a transaction. -/
def askedInside : List Line := [typed "begin;", typed " SELECT * FROM t;"]

theorem spelled_asked :
    spelled "SELECT * FROM t".toList = some (.select "t" .star none none none) := by
  decide +kernel

theorem submissions_askedInside :
    submissions [] askedInside = [(.ofInsertion, "SELECT * FROM t".toList)] := by
  rfl

theorem enter_begin (exec : Executor) : enter (typed "begin;") (new exec) =
    (.ok [.started 1], { new exec with currentTxn := some 1, nextTxnId := 2 }) := by
  have isCommand : command (trim (typed "begin;").text) = .begin := by decide
  rw [enter, isCommand]
  rfl

theorem complete_asked : complete ("SELECT * FROM t;".toList ++ [' ']) "SELECT * FROM t;".toList =
    some "SELECT * FROM t".toList := by
  decide +kernel

theorem enter_asked {shell : Shell} {exec : Executor} {rows : List Row} (solo : Shell.Solo shell)
    (empty : shell.inputBuf = [])
    (ran : run .ofInsertion "SELECT * FROM t".toList shell.exec = (.ok rows, exec)) :
    ∃ shell', enter (typed " SELECT * FROM t;") shell =
      (.ok (report "SELECT * FROM t".toList (some "t") rows exec), shell') := by
  have isCommand : command (trim (typed " SELECT * FROM t;").text) = .text := by decide
  have trimmed : trim (typed " SELECT * FROM t;").text = "SELECT * FROM t;".toList := by
    decide +kernel
  have hint : extractTable "SELECT * FROM t".toList = .ok (some "t") := rfl
  rw [enter, isCommand, trimmed]
  dsimp only
  rw [collect, Fallible.modify_bind, Fallible.get_bind, empty, List.nil_append, complete_asked]
  dsimp only
  rw [Fallible.modify_bind, if_neg (by decide), hint, Fallible.ofExcept_ok_bind]
  have solo' : Shell.Solo { shell with inputBuf := [] } := solo
  rcases lock_eq solo' (typed " SELECT * FROM t;").sets "SELECT * FROM t".toList with
    ⟨lm, locked, -⟩
  dsimp only at locked ⊢
  rw [Fallible.bind_ok locked, if_pos rfl, Fallible.bind_pure_apply, submit]
  have ran' : run (typed " SELECT * FROM t;").order "SELECT * FROM t".toList shell.exec =
    (.ok rows, exec) := ran
  dsimp only
  rw [ran']
  exact ⟨_, rfl⟩

/-- What is asked in a transaction after two inserts. -/
theorem transcript_askedInside :
    ∃ (exec : Executor) (printed : List Message) (shell : Shell),
      Lifetime [create, insertSeven, insertNull] exec ∧
      interact askedInside (new exec) = (.ok printed, shell) ∧
      Transcript [create, insertSeven, insertNull] [(.ofInsertion, "SELECT * FROM t".toList)]
        (printed.filter Message.isOutcome) ∧
      Lifetime [create, insertSeven, insertNull, .select "t" .star none none none] shell.exec := by
  rcases attains_insertedTwo with ⟨exec, session, rests, follows, idle⟩
  have lifetime := session.lifetime
  rcases (lifetime.replies "t" .star none none none).2 _ _ rfl (by simp [Indexable]) (by simp) with
    ⟨rows, reply, -⟩
  rcases asked : execSelect "t" .star none none none exec with ⟨result, exec'⟩
  rw [asked] at reply
  obtain rfl : result = .ok rows := reply
  rcases @enter_asked { new exec with currentTxn := some 1, nextTxnId := 2 } _ _
    ((LockManager.solo_new none).start _) rfl (run_of_spelled spelled_asked asked) with
    ⟨shell, entered⟩
  have typedBoth : interact askedInside (new exec) = (.ok ([.started 1] ++
      (report "SELECT * FROM t".toList (some "t") rows exec' ++ [])), shell) := by
    rw [askedInside, interact, Fallible.bind_ok (enter_begin exec), if_neg (by decide),
      Fallible.bind_pure_apply, interact, Fallible.bind_ok entered, if_neg (by decide)]
    rfl
  have clean : ∀ error, .error error ∉ [.started 1] ++
      (report "SELECT * FROM t".toList (some "t") rows exec' ++ []) := by
    intro error inside
    rw [report] at inside
    split_ifs at inside <;> simp at inside
  refine ⟨exec, _, shell, lifetime, typedBoth, ?_⟩
  have both := transcript_interact lifetime typedBoth clean
  rw [submissions_askedInside, statements_cons, spelled_asked] at both
  exact both

end Sample

end VenomDb
