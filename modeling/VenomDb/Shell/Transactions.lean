import VenomDb.Concurrency.Serializability
import VenomDb.Shell.Repl

/-!
# Transactions in the shell

There is one user, so every lock is granted and no statement waits. Nothing else happens in a
transaction: the statements of a text are those that a shell without `BEGIN`, `COMMIT` and
`ROLLBACK` runs, in the same order and with the same answers, and a rollback undoes none of them.
-/

namespace VenomDb

namespace LockManager

open LockQueue

variable {manager : LockManager} {txnId : UInt32}

/-- Every lock is granted, to the transaction that runs, if there is one. -/
def Solo (currentTxn : Option UInt32) (manager : LockManager) : Prop :=
  ∀ rid, ∀ request ∈ (manager.queue rid).requests,
    request.granted = true ∧ currentTxn = some request.txnId

theorem solo_new (currentTxn : Option UInt32) : Solo currentTxn new := by
  intro rid request inside
  simp [queue, new, LockQueue.new] at inside

/-- A transaction that is alone gets what it asks for. -/
theorem Solo.acquire (solo : Solo (some txnId) manager) (order : SetOrder) (rid : Rid)
    (mode : LockMode) :
    (manager.acquire order txnId rid mode).1 = .ok true ∧
      Solo (some txnId) (manager.acquire order txnId rid mode).2 := by
  have free : (manager.queue rid).Free txnId mode := by
    intro request inside _ other
    exact absurd (Option.some.inj (solo rid request inside).2).symm other
  rcases acquire_spec order manager txnId rid mode with ⟨queue, acquires, others⟩
  have elsewhere (kept : ∀ request ∈ queue.requests, request.granted = true ∧
      some txnId = some request.txnId) :
      Solo (some txnId) (manager.acquire order txnId rid mode).2 := by
    intro other request inside
    rw [others] at inside
    split_ifs at inside
    · exact kept request inside
    · exact solo other request inside
  generalize (manager.acquire order txnId rid mode).1 = result at acquires ⊢
  generalize (manager.acquire order txnId rid mode).2.waitsFor = waitsFor at acquires
  cases acquires with
  | held => exact ⟨rfl, elsewhere fun request inside => solo rid request inside⟩
  | upgraded =>
      refine ⟨rfl, elsewhere fun request inside => ?_⟩
      rcases mem_upgrade.mp inside with ⟨before, isBefore, rfl⟩
      have both := solo rid before isBefore
      split_ifs <;> exact both
  | granted =>
      refine ⟨rfl, elsewhere fun request inside => ?_⟩
      rcases List.mem_append.mp inside with isOld | isNew
      · exact solo rid request isOld
      · rw [List.mem_singleton.mp isNew]
        exact ⟨rfl, rfl⟩
  | queued _ notFree => exact absurd free notFree
  | deadlock _ _ notFree => exact absurd free notFree

/-- It leaves no lock behind. -/
theorem Solo.releaseAll (solo : Solo (some txnId) manager) (currentTxn : Option UInt32) :
    Solo currentTxn (manager.releaseAll txnId) := by
  intro rid request inside
  rcases Workload.mem_releaseAll inside with ⟨other, before, isBefore, same⟩
  rw [← same] at other
  exact absurd (Option.some.inj (solo rid before isBefore).2).symm other

theorem Solo.start (solo : Solo none manager) (currentTxn : Option UInt32) :
    Solo currentTxn manager := by
  intro rid request inside
  simpa using (solo rid request inside).2

end LockManager

namespace Shell

open Fallible LockManager

variable {shell other : Shell} {line : Line} {sql : List Char}

def Solo (shell : Shell) : Prop := shell.lm.Solo shell.currentTxn

/-- What a statement prints, and nothing else does. -/
def Message.isOutcome : Message → Bool
  | .tableCreated | .rowInserted | .rowsDeleted | .results _ _ | .error _ => true
  | _ => false

/-- The messages about locks. -/
def Message.isConflict : Message → Bool
  | .waiting | .deadlock _ => true
  | _ => false

section Lines

variable [Unicode]

/-- What is collected after a line, and the statement that the line submits. -/
def submission (inputBuf : List Char) (line : Line) :
    List Char × Option (HashOrder × List Char) :=
  let trimmed := trim line.text
  match command trimmed with
  | .text =>
      let collected := inputBuf ++ trimmed ++ [' ']
      match complete collected trimmed with
      | none => (collected, none)
      | some sql => ([], if sql.isEmpty then none else some (line.order, sql))
  | _ => (inputBuf, none)

/-- The statements that a text submits. It depends on nothing but the text. -/
def submissions : List Char → List Line → List (HashOrder × List Char)
  | _, [] => []
  | inputBuf, line :: lines =>
      if command (trim line.text) = .quit then []
      else
        let submitted := submission inputBuf line
        submitted.2.toList ++ submissions submitted.1 lines

variable [Crc32] [Build]

/-- One statement, without a lock. -/
def respond (submitted : HashOrder × List Char) : Interaction (List Message) := do
  let table ← ofExcept (extractTable submitted.2)
  submit submitted.1 submitted.2 table

/-- The statements of a text, one after the other. -/
def perform : List (HashOrder × List Char) → Interaction (List Message)
  | [] => return []
  | submitted :: rest => do
      let printed ← respond submitted
      let more ← perform rest
      return printed ++ more

section Submit

theorem submit_frame (order : HashOrder) (sql : List Char) (table : Option String)
    (shell : Shell) :
    (submit order sql table shell).2 =
      { shell with exec := (submit order sql table shell).2.exec } := by
  rw [submit]
  split <;> rfl

/-- A statement meets nothing but the executor. -/
theorem respects_submit (order : HashOrder) (sql : List Char) (table : Option String) :
    Respects (fun shell other : Shell => shell.exec = other.exec) (submit order sql table) := by
  intro shell other same
  rw [submit, submit, same]
  split <;> exact ⟨rfl, rfl⟩

theorem respects_respond (submitted : HashOrder × List Char) :
    Respects (fun shell other : Shell => shell.exec = other.exec) (respond submitted) :=
  (respects_ofExcept _).bind fun table => respects_submit _ _ table

omit [Crc32] [Build] in
theorem isOutcome_of_report {sql : List Char} {table : Option String} {rows : List Row}
    {exec : Executor} {message : Message} (inside : message ∈ report sql table rows exec) :
    message.isOutcome = true := by
  rw [report] at inside
  split_ifs at inside <;> simp_all [Message.isOutcome]

theorem yields_submit (order : HashOrder) (sql : List Char) (table : Option String) :
    Yields (submit order sql table) fun printed => ∀ message ∈ printed,
      message.isOutcome = true := by
  intro shell printed shell' run message inside
  rw [submit] at run
  split at run
  · cases run
    exact isOutcome_of_report inside
  · cases run
  · cases run
    rw [List.mem_singleton.mp inside]
    rfl

end Submit

section Enter

omit [Crc32] [Build] in
/-- A statement in a transaction gets its lock at once. -/
theorem lock_eq (solo : Solo shell) (sets : SetOrder) (sql : List Char) :
    ∃ lm, lock sets sql shell = (.ok ([], true), { shell with lm := lm }) ∧
      lm.Solo shell.currentTxn := by
  rcases shell with ⟨exec, lm, _ | txnId, nextTxnId, inputBuf⟩
  · exact ⟨lm, rfl, solo⟩
  · rcases LockManager.Solo.acquire solo sets tableRid
      (if startsWith "INSERT" sql || startsWith "DELETE" sql then .exclusive else .shared) with
      ⟨granted, solo'⟩
    rw [lock, get_bind]
    dsimp only
    rw [modify_bind, granted]
    exact ⟨_, rfl, solo'⟩

theorem perform_singleton (submitted : HashOrder × List Char) :
    perform [submitted] = respond submitted := by
  funext shell
  rw [perform, bind_apply]
  rcases respond submitted shell with ⟨_ | printed, shell'⟩
  · rfl
  · simp [perform]

/-- How a run of the shell compares with a run of the statements alone: it leaves the same data
and prints the same outcomes, and nothing about locks. Only the count of the transactions can
overflow besides. -/
structure Follows (performed ended : Except Panic (List Message) × Shell) : Prop where
  exec : ended.2.exec = performed.2.exec
  solo : ended.2.Solo
  ok : ∀ printed, ended.1 = .ok printed →
    performed.1 = .ok (printed.filter Message.isOutcome) ∧
      ∀ message ∈ printed, message.isConflict = false
  error : ∀ panic, ended.1 = .error panic →
    performed.1 = .error panic ∨ panic = .overflow ∧ Build.overflowChecks = true

omit [Unicode] [Crc32] in
theorem follows_ok {printed : List Message} {performed : Except Panic (List Message) × Shell}
    {shell : Shell} (exec : shell.exec = performed.2.exec) (solo : Solo shell)
    (same : performed.1 = .ok (printed.filter Message.isOutcome))
    (calm : ∀ message ∈ printed, message.isConflict = false) :
    Follows performed (.ok printed, shell) := by
  refine ⟨exec, solo, ?_, ?_⟩
  · rintro _ ⟨⟩
    exact ⟨same, calm⟩
  · rintro _ ⟨⟩

omit [Unicode] [Crc32] [Build] in
theorem filter_isOutcome {printed : List Message}
    (outcomes : ∀ message ∈ printed, message.isOutcome = true) :
    printed.filter Message.isOutcome = printed ∧ ∀ message ∈ printed,
      message.isConflict = false := by
  refine ⟨List.filter_eq_self.mpr outcomes, fun message inside => ?_⟩
  have isOutcome := outcomes message inside
  cases message <;> simp_all [Message.isOutcome, Message.isConflict]

/-- A command that submits no statement. -/
def Quiet (action : Interaction (List Message)) : Prop :=
  ∀ shell, Solo shell → Follows (.ok [], shell) (action shell) ∧
    (action shell).2.inputBuf = shell.inputBuf

omit [Unicode] [Crc32] in
theorem follows_quiet {printed : List Message} {shell' : Shell} (exec : shell'.exec = shell.exec)
    (solo : Solo shell')
    (quiet : ∀ message ∈ printed, message.isOutcome = false ∧ message.isConflict = false) :
    Follows (.ok [], shell) (.ok printed, shell') := by
  refine follows_ok exec solo ?_ fun message inside => (quiet message inside).2
  rw [List.filter_eq_nil_iff.mpr fun message inside => by simp [(quiet message inside).1]]

omit [Unicode] [Crc32] in
theorem quiet_return {printed : List Message}
    (quiet : ∀ message ∈ printed, message.isOutcome = false ∧ message.isConflict = false) :
    Quiet (return printed) :=
  fun _ solo => ⟨follows_quiet rfl solo quiet, rfl⟩

omit [Unicode] [Crc32] in
theorem quiet_listTables (order : HashOrder) : Quiet (listTables order) := by
  intro shell solo
  rw [listTables, get_bind]
  rcases shell.exec.catalog.tables.keys with _ | ⟨key, keys⟩
  · exact ⟨follows_quiet rfl solo (by simp [Message.isOutcome, Message.isConflict]), rfl⟩
  · exact ⟨follows_quiet rfl solo (by simp [Message.isOutcome, Message.isConflict]), rfl⟩

omit [Unicode] [Crc32] in
theorem quiet_stats : Quiet stats := fun _ solo =>
  ⟨follows_quiet rfl solo (by simp [Message.isOutcome, Message.isConflict]), rfl⟩

omit [Unicode] [Crc32] in
theorem quiet_beginTxn : Quiet beginTxn := by
  intro shell solo
  rw [beginTxn, get_bind]
  rcases current : shell.currentTxn with _ | txnId
  · rw [Solo, current] at solo
    dsimp only
    rw [modify_bind, increment]
    split_ifs with overflows
    · refine ⟨⟨rfl, solo.start _, ?_, ?_⟩, rfl⟩
      · rintro _ ⟨⟩
      · rintro _ ⟨⟩
        exact .inr ⟨rfl, overflows.1⟩
    · exact ⟨follows_quiet rfl (solo.start _) (by simp [Message.isOutcome, Message.isConflict]),
        rfl⟩
  · exact ⟨follows_quiet rfl solo (by simp [Message.isOutcome, Message.isConflict]), rfl⟩

omit [Unicode] [Crc32] in
/-- Neither the end of a transaction nor its rollback touches the data. -/
theorem quiet_endTxn {message : UInt32 → Message}
    (quiet : ∀ txnId, (message txnId).isOutcome = false ∧ (message txnId).isConflict = false) :
    Quiet (endTxn message) := by
  intro shell solo
  rw [endTxn, get_bind]
  rcases current : shell.currentTxn with _ | txnId
  · exact ⟨follows_quiet rfl solo (by simp [Message.isOutcome, Message.isConflict]), rfl⟩
  · rw [Solo, current] at solo
    exact ⟨follows_quiet rfl (solo.releaseAll none) (by simp [quiet]), rfl⟩

variable {text : List Char}

/-- A line after which nothing is submitted. -/
theorem collect_none
    (incomplete : complete (shell.inputBuf ++ text ++ [' ']) text = none) :
    collect line text shell =
      (.ok [], { shell with inputBuf := shell.inputBuf ++ text ++ [' '] }) := by
  rw [collect, modify_bind, get_bind, incomplete]
  rfl

theorem collect_empty
    (completed : complete (shell.inputBuf ++ text ++ [' ']) text = some sql)
    (empty : sql.isEmpty = true) :
    collect line text shell = (.ok [], { shell with inputBuf := [] }) := by
  rw [collect, modify_bind, get_bind, completed]
  dsimp only
  rw [modify_bind, if_pos empty]
  rfl

/-- A statement in its lock answers as it does without. -/
theorem follows_collect (solo : Solo shell)
    (completed : complete (shell.inputBuf ++ text ++ [' ']) text = some sql)
    (nonempty : sql.isEmpty = false) :
    Follows (respond (line.order, sql) shell) (collect line text shell) ∧
      (collect line text shell).2.inputBuf = [] := by
  rw [collect, modify_bind, get_bind, completed]
  dsimp only
  rw [modify_bind, if_neg (by simp [nonempty]), respond]
  rcases extractTable sql with panic | table
  · refine ⟨⟨rfl, solo, ?_, ?_⟩, rfl⟩
    · rintro _ ⟨⟩
    · rintro _ ⟨⟩
      exact .inl rfl
  · rw [ofExcept_ok_bind, ofExcept_ok_bind]
    dsimp only
    have solo' : Solo { shell with inputBuf := [] } := solo
    rcases lock_eq solo' line.sets sql with ⟨lm, locked, solo''⟩
    rw [bind_ok locked, if_pos rfl]
    let locked := { shell with lm := lm, inputBuf := [] }
    have frame := submit_frame line.order sql table locked
    have kept : Solo (submit line.order sql table locked).2 := by
      rw [frame]
      exact solo''
    have cleared : (submit line.order sql table locked).2.inputBuf = [] := by
      rw [frame]
    rcases respects_submit line.order sql table shell locked rfl with ⟨result, exec⟩
    rw [bind_apply]
    rcases ended : submit line.order sql table locked with ⟨panic | printed, shell'⟩
    · rw [ended] at result exec kept cleared
      refine ⟨⟨exec.symm, kept, ?_, ?_⟩, cleared⟩
      · rintro _ ⟨⟩
      · rintro _ ⟨⟩
        exact .inl result
    · rw [ended] at result exec kept cleared
      rcases filter_isOutcome (yields_submit _ _ _ _ _ _ ended) with ⟨filtered, calm⟩
      refine ⟨follows_ok exec.symm kept ?_ calm, cleared⟩
      rw [List.nil_append, filtered]
      exact result

theorem enter_of_command (notText : command (trim line.text) ≠ .text) :
    submission shell.inputBuf line = (shell.inputBuf, none) ∧ Quiet (enter line) := by
  rw [submission]
  unfold enter
  dsimp only
  cases asked : command (trim line.text) with
  | text => exact absurd asked notText
  | quit => exact ⟨rfl, quiet_return (by simp [Message.isOutcome, Message.isConflict])⟩
  | help => exact ⟨rfl, quiet_return (by simp [Message.isOutcome, Message.isConflict])⟩
  | tables => exact ⟨rfl, quiet_listTables line.order⟩
  | stats => exact ⟨rfl, quiet_stats⟩
  | «begin» => exact ⟨rfl, quiet_beginTxn⟩
  | commit => exact ⟨rfl, quiet_endTxn fun _ => ⟨rfl, rfl⟩⟩
  | rollback => exact ⟨rfl, quiet_endTxn fun _ => ⟨rfl, rfl⟩⟩

/-- What one line does: it submits a statement or none, and answers nothing else. -/
theorem follows_enter (solo : Solo shell) :
    Follows (perform (submission shell.inputBuf line).2.toList shell) (enter line shell) ∧
      ∀ printed, (enter line shell).1 = .ok printed →
        (enter line shell).2.inputBuf = (submission shell.inputBuf line).1 := by
  by_cases isText : command (trim line.text) = .text
  · rw [submission, enter, isText]
    dsimp only
    rcases completed : complete (shell.inputBuf ++ trim line.text ++ [' ']) (trim line.text) with
      _ | sql
    · rw [collect_none completed]
      exact ⟨follows_quiet rfl solo (by simp), fun _ _ => rfl⟩
    · dsimp only
      split_ifs with empty
      · rw [collect_empty completed empty]
        exact ⟨follows_quiet rfl solo (by simp), fun _ _ => rfl⟩
      · rw [Bool.not_eq_true] at empty
        rcases follows_collect solo completed empty with ⟨follows, cleared⟩
        rw [Option.toList_some, perform_singleton]
        exact ⟨follows, fun _ _ => cleared⟩
  · rcases enter_of_command isText with ⟨submits, quiet⟩
    rcases quiet shell solo with ⟨follows, kept⟩
    rw [submits]
    exact ⟨follows, fun _ _ => kept⟩

end Enter

section Interact

theorem respects_perform (submitted : List (HashOrder × List Char)) :
    Respects (fun shell other : Shell => shell.exec = other.exec) (perform submitted) := by
  induction submitted with
  | nil => exact respects_pure []
  | cons first rest ih =>
      exact (respects_respond first).bind fun _ => ih.bind fun _ => respects_pure _

theorem perform_append {submitted rest : List (HashOrder × List Char)} {printed : List Message}
    {shell' : Shell} (run : perform submitted shell = (.ok printed, shell')) :
    perform (submitted ++ rest) shell =
      ((perform rest shell').1.map (printed ++ ·), (perform rest shell').2) := by
  induction submitted generalizing shell printed with
  | nil =>
      cases run
      rw [List.nil_append]
      rcases perform rest shell' with ⟨_ | _, _⟩ <;> rfl
  | cons first others ih =>
      rw [perform] at run
      rcases bind_eq_ok run with ⟨responded, between, responds, run⟩
      rcases bind_eq_ok run with ⟨more, shell'', performs, ended⟩
      cases ended
      rw [List.cons_append, perform, bind_ok responds, bind_pure_apply, ih performs]
      rcases perform rest shell' with ⟨_ | _, _⟩
      · rfl
      · simp [Except.map]

/-- What follows two runs follows their sequence. -/
theorem Follows.append {submitted rest : List (HashOrder × List Char)} {printed : List Message}
    {shell' : Shell} {ended : Except Panic (List Message) × Shell}
    (first : Follows (perform submitted shell) (.ok printed, shell'))
    (second : Follows (perform rest shell') ended) :
    Follows (perform (submitted ++ rest) shell) (ended.1.map (printed ++ ·), ended.2) := by
  rcases first.ok printed rfl with ⟨performed, calm⟩
  have exec := first.exec
  rcases run : perform submitted shell with ⟨result, between⟩
  rw [run] at performed exec
  dsimp only at performed exec
  subst performed
  rw [perform_append run]
  rcases respects_perform rest between shell' exec.symm with ⟨same, exec'⟩
  rw [same]
  refine ⟨second.exec.trans exec'.symm, second.solo, ?_, ?_⟩
  · rcases ended with ⟨_ | more, shell''⟩
    · rintro _ ⟨⟩
    · rintro _ ⟨⟩
      rcases second.ok more rfl with ⟨performed', calm'⟩
      rw [performed', List.filter_append]
      exact ⟨rfl, List.forall_mem_append.mpr ⟨calm, calm'⟩⟩
  · rcases ended with ⟨panic | more, shell''⟩
    · rintro _ ⟨⟩
      refine (second.error panic rfl).imp_left fun panics => ?_
      rw [panics]
      rfl
    · rintro _ ⟨⟩

omit [Unicode] [Crc32] [Build] in
theorem isOk_map (result : Except Panic (List Message)) (change : List Message → List Message) :
    (result.map change).isOk = result.isOk := by
  cases result <;> rfl

/-- For every text, the shell prints the outcomes of the statements that the text submits and
leaves their data, whatever transactions it begins, commits or rolls back. When it panics, so it
was for the lines read so far. -/
theorem follows_interact (solo : Solo shell) (lines : List Line) :
    ∃ read, read <+: lines ∧
      Follows (perform (submissions shell.inputBuf read) shell) (interact lines shell) ∧
        ((interact lines shell).1.isOk → read = lines) := by
  induction lines generalizing shell with
  | nil => exact ⟨[], List.prefix_refl [], follows_quiet rfl solo (by simp), fun _ => rfl⟩
  | cons line lines ih =>
      rcases @follows_enter shell line _ _ _ solo with ⟨follows, collected⟩
      rw [interact]
      rcases entered : enter line shell with ⟨panic | printed, shell'⟩
      · rw [bind_error entered]
        rw [entered] at follows
        refine ⟨[line], List.prefix_append [line] lines, ?_, by simp [Except.isOk, Except.toBool]⟩
        have goesOn : command (trim line.text) ≠ .quit := by
          intro quits
          rw [enter, quits] at entered
          cases entered
        rw [submissions, if_neg goesOn]
        simpa [submissions] using follows
      · rw [bind_ok entered]
        rw [entered] at follows collected
        by_cases quits : command (trim line.text) = .quit
        · rw [if_pos quits]
          refine ⟨line :: lines, List.prefix_refl _, ?_, fun _ => rfl⟩
          rw [(enter_of_command (by simp [quits])).1] at follows
          rw [submissions, if_pos quits]
          exact follows
        · rw [if_neg quits, bind_pure_apply]
          rcases ih follows.solo with ⟨read, isPrefix, rest, all⟩
          refine ⟨line :: read, (List.prefix_cons_inj line).mpr isPrefix, ?_, ?_⟩
          · rw [submissions, if_neg quits]
            dsimp only
            rw [← collected printed rfl]
            exact follows.append rest
          · intro isOk
            rw [isOk_map] at isOk
            rw [all isOk]

/-- The shell on a database: transactions have no effect on it. -/
theorem follows_new (exec : Executor) (lines : List Line) :
    ∃ read, read <+: lines ∧
      Follows (perform (submissions [] read) (new exec)) (interact lines (new exec)) ∧
        ((interact lines (new exec)).1.isOk → read = lines) := by
  have solo : Solo (new exec) := solo_new none
  exact follows_interact solo lines

end Interact

end Lines

end Shell

end VenomDb
