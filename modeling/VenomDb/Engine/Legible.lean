import VenomDb.Engine.IndexRouting

/-!
# What a page of a table can hold

Whatever way statements end and however often a directory is opened, the tuples on the pages
of a table are rows of the table with anything after them. There is one exception: the undo of
a delete appends the bytes in the log record, and these are missing if the log manager had no
such tuple.
-/

namespace VenomDb

/-- The bytes of a row and anything after them, or no bytes. -/
def Legible (schema : Schema) (tuple : Bytes) : Prop :=
  tuple = [] ∨ ∃ row, Encodes schema tuple row

section Legible

variable {schema : Schema} {tuple : Bytes} {row : Row}

theorem legible_nil (schema : Schema) : Legible schema [] := .inl rfl

theorem encodes_append {bytes : Bytes} (encoded : schema.serializeRow row = .ok bytes)
    (rest : Bytes) : Encodes schema (bytes ++ rest) row :=
  ⟨bytes, rest, rfl, encoded⟩

theorem legible_of_serializeRow (encoded : schema.serializeRow row = .ok tuple) :
    Legible schema tuple := by
  refine .inr ⟨row, ?_⟩
  simpa using encodes_append encoded []

/-- The front of a tuple may be overwritten by another tuple. -/
theorem Legible.overwrite {newData : Bytes} (legible : Legible schema tuple)
    (front : Legible schema newData) :
    Legible schema (newData ++ tuple.drop newData.length) := by
  rcases front with rfl | ⟨row, bytes, rest, rfl, encoded⟩
  · simpa using legible
  · refine .inr ⟨row, ?_⟩
    rw [List.append_assoc]
    exact encodes_append encoded _

/-- A tuple of a page decodes, or it ends too soon. -/
theorem Legible.deserializeRow_ne_panic (legible : Legible schema tuple)
    (short : tuple.length < 2 ^ 16) (panic : Panic) :
    schema.deserializeRow tuple ≠ .error (.panic panic) := by
  rcases legible with rfl | ⟨row, encodes⟩
  · rw [Schema.deserializeRow]
    cases schema.columns <;> simp [Schema.deserializeFields]
  · rw [encodes.deserializeRow short]
    simp

/-- No statement panics on it. -/
theorem Legible.selectRow_ne_panic (legible : Legible schema tuple)
    (short : tuple.length < 2 ^ 16) (columns : SelectColumns) (filter : Option Expr)
    (panic : Panic) : Executor.selectRow schema columns filter tuple ≠ .error (.panic panic) := by
  have readable := legible.deserializeRow_ne_panic short panic
  rcases decoded : schema.deserializeRow tuple with failure | row
  · rw [decoded] at readable
    simpa [Executor.selectRow, decoded, bind, Except.bind] using readable
  · exact Executor.selectRow_ne_panic decoded columns filter panic

end Legible

/-- All tuples of a page, deleted ones too, are legible. -/
def Spells (schema : Schema) (data : PageData) : Prop :=
  ∃ page, Represents data page ∧ ∀ cell ∈ page.cells, Legible schema cell.bytes

namespace Spells

variable {schema : Schema} {data : PageData} {page : Page} {slotId : UInt16} {tuple : Bytes}

theorem new (schema : Schema) (pageId : UInt32) : Spells schema (Page.new pageId).data :=
  ⟨.empty, Represents.new pageId, by simp [SlottedPage.empty]⟩

theorem congr_cleared {other : PageData} (spells : Spells schema data)
    (same : other.cleared = data.cleared) : Spells schema other := by
  rcases spells with ⟨abstract, represents, legible⟩
  exact ⟨abstract, represents.congr_cleared same, legible⟩

theorem getTuple (spells : Spells schema page.data) (slotId : UInt16) :
    ∃ found, page.getTuple slotId = .ok found ∧
      ∀ tuple ∈ found, Legible schema tuple ∧ tuple.length < 2 ^ 16 := by
  rcases spells with ⟨abstract, represents, legible⟩
  refine ⟨_, represents.getTuple_eq slotId, ?_⟩
  intro tuple live
  rcases SlottedPage.get_eq_some live with ⟨inside, -, rfl⟩
  have bound := (represents.cell_bounds inside).2.2
  exact ⟨legible _ (List.getElem_mem inside), lt_of_le_of_lt bound (by decide)⟩

/-- Inserting a tuple whose length is not cut off. -/
theorem insertTuple (spells : Spells schema page.data) (legible : Legible schema tuple)
    (short : tuple.length < 2 ^ 16) :
    ∃ out, page.insertTuple tuple = .ok out ∧ Spells schema out.2.data := by
  rcases spells with ⟨abstract, represents, all⟩
  have inserted := represents.insertTuple_eq tuple
  rw [SlottedPage.insertTuple] at inserted
  split_ifs at inserted
  · rcases inserted with ⟨page', -, represents', run⟩
    refine ⟨_, run, abstract.push tuple, represents', ?_⟩
    intro cell inside
    rcases List.mem_append.mp inside with inside | inside
    · exact all cell inside
    · obtain rfl := List.mem_singleton.mp inside
      exact legible
  · exact ⟨_, inserted, abstract, represents, all⟩

/-- A tuple that was inserted was not too long. -/
theorem of_insertTuple {out : Option UInt16 × Page} (spells : Spells schema page.data)
    (legible : Legible schema tuple) (run : page.insertTuple tuple = .ok out) :
    Spells schema out.2.data := by
  by_cases short : tuple.length < 2 ^ 16
  · rcases spells.insertTuple legible short with ⟨out', run', spells'⟩
    obtain rfl : out = out' := Except.ok.inj (run.symm.trans run')
    exact spells'
  · rcases spells with ⟨abstract, represents, all⟩
    have inserted := represents.insertTuple_eq tuple
    rw [SlottedPage.insertTuple] at inserted
    split_ifs at inserted
    · simp [run] at inserted
    · obtain rfl := Except.ok.inj (run.symm.trans inserted)
      exact ⟨abstract, represents, all⟩

theorem deleteTuple (spells : Spells schema page.data) (slotId : UInt16) :
    ∃ out, page.deleteTuple slotId = .ok out ∧ Spells schema out.2.data := by
  rcases spells with ⟨abstract, represents, all⟩
  rcases represents.deleteTuple_eq slotId with ⟨page', -, represents', run, -⟩
  refine ⟨_, run, _, represents', ?_⟩
  intro cell inside
  rw [SlottedPage.deleteTuple] at inside
  split_ifs at inside
  · rcases List.mem_iff_getElem.mp inside with ⟨index, bound, rfl⟩
    simp only [SlottedPage.bury, List.length_modify] at bound
    have legible := all _ (List.getElem_mem bound)
    simp only [SlottedPage.bury, List.getElem_modify]
    split <;> exact legible
  · exact all cell inside

theorem updateTuple {newData : Bytes} (spells : Spells schema page.data)
    (legible : Legible schema newData) (slotId : UInt16) :
    ∃ out, page.updateTuple slotId newData = .ok out ∧ Spells schema out.2.data := by
  rcases spells with ⟨abstract, represents, all⟩
  rcases represents.updateTuple_eq slotId newData with ⟨page', -, represents', run, -⟩
  refine ⟨_, run, _, represents', ?_⟩
  intro cell inside
  rw [SlottedPage.updateTuple] at inside
  split_ifs at inside
  · rcases List.mem_iff_getElem.mp inside with ⟨index, bound, rfl⟩
    simp only [SlottedPage.overwrite, List.length_modify] at bound
    simp only [SlottedPage.overwrite, List.getElem_modify]
    split
    · exact (all _ (List.getElem_mem bound)).overwrite legible
    · exact all _ (List.getElem_mem bound)
  · exact all cell inside

end Spells

/-- The bytes in a log record are bytes that its page may hold. -/
def LogRecord.Legible (schema : Schema) : LogRecord → Prop
  | .insert _ _ _ _ data => VenomDb.Legible schema data
  | .delete _ _ _ _ oldData => VenomDb.Legible schema oldData
  | .update _ _ _ _ oldData newData =>
      VenomDb.Legible schema oldData ∧ VenomDb.Legible schema newData
  | _ => True

namespace WalManager

variable {owner : UInt32 → Option Schema} {pages pages' : WalPages} {count : ℕ}

/-- Every page belongs to a table and spells its rows. -/
def Owned (owner : UInt32 → Option Schema) (pages : WalPages) : Prop :=
  ∀ pageId page, pages.lookup pageId = some page →
    ∃ schema, owner pageId = some schema ∧ Spells schema page.data

/-- Every data record is about a page of a table, and legible for it. -/
def Attributed (owner : UInt32 → Option Schema) (log : List LogRecord) : Prop :=
  ∀ record ∈ log, ∀ pageId, record.pageId = some pageId →
    ∃ schema, owner pageId = some schema ∧ record.Legible schema

theorem owned_empty : Owned owner ∅ := by simp [Owned]

theorem Owned.entry {pageId : UInt32} {schema : Schema} (owned : Owned owner pages)
    (isOwner : owner pageId = some schema) : Spells schema (entry pages pageId).data := by
  rcases found : pages.lookup pageId with _ | page
  · simpa [WalManager.entry, found] using Spells.new schema pageId
  · rcases owned _ _ found with ⟨other, isOther, spells⟩
    obtain rfl : schema = other := Option.some.inj (isOwner.symm.trans isOther)
    simpa [WalManager.entry, found] using spells

theorem Owned.insert {pageId : UInt32} {schema : Schema} {page : Page}
    (owned : Owned owner pages) (isOwner : owner pageId = some schema)
    (spells : Spells schema page.data) : Owned owner (pages.insert pageId page) := by
  intro other found isFound
  by_cases same : other = pageId
  · subst same
    rw [AList.lookup_insert, Option.some.injEq] at isFound
    exact ⟨schema, isOwner, isFound ▸ spells⟩
  · rw [AList.lookup_insert_ne same] at isFound
    exact owned _ _ isFound

/-- A step of a replay on the page of a record. -/
theorem Owned.edit {pageId : UInt32} {schema : Schema} {α : Type}
    {result : Except Failure (α × Page)} (owned : Owned owner pages)
    (isOwner : owner pageId = some schema)
    (edited : ∀ out, result = .ok out → Spells schema out.2.data)
    (run : (do
      let (_, page) ← result
      return (pages.insert pageId page, 1) : Except Failure (WalPages × ℕ)) = .ok (pages', count)) :
    Owned owner pages' := by
  rcases result with failure | ⟨value, page⟩
  · simp [bind, Except.bind] at run
  · obtain ⟨rfl, -⟩ := Prod.mk.inj (Except.ok.inj run)
    exact owned.insert isOwner (edited _ rfl)

/-- A step of a replay on the page of a record, if there is one. -/
theorem Owned.editThere {pageId : UInt32} {schema : Schema} {α : Type}
    {operation : Page → Except Failure (α × Page)} (owned : Owned owner pages)
    (isOwner : owner pageId = some schema)
    (edited : ∀ {page}, Spells schema page.data →
      ∃ out, operation page = .ok out ∧ Spells schema out.2.data)
    (run : (match pages.lookup pageId with
      | none => .ok (pages, 0)
      | some page => do
          let (_, page) ← operation page
          return (pages.insert pageId page, 1) : Except Failure (WalPages × ℕ)) =
        .ok (pages', count)) : Owned owner pages' := by
  rcases found : pages.lookup pageId with _ | page
  · simp only [found] at run
    obtain ⟨rfl, -⟩ := Prod.mk.inj (Except.ok.inj run)
    exact owned
  · simp only [found] at run
    have spells := owned.entry isOwner
    rw [WalManager.entry, found] at spells
    rcases edited spells with ⟨out, ok, spells'⟩
    refine owned.edit isOwner (fun out' ok' => ?_) run
    obtain rfl : out = out' := Except.ok.inj (ok.symm.trans ok')
    exact spells'

theorem Owned.redoRecord {record : LogRecord} (owned : Owned owner pages)
    (attributed : ∀ pageId, record.pageId = some pageId →
      ∃ schema, owner pageId = some schema ∧ record.Legible schema)
    (run : redoRecord record pages = .ok (pages', count)) : Owned owner pages' := by
  cases record with
  | insert lsn txnId pageId slotId data =>
      rcases attributed pageId rfl with ⟨schema, isOwner, legible⟩
      exact owned.edit isOwner
        (fun out ok => (owned.entry isOwner).of_insertTuple legible ok) run
  | delete lsn txnId pageId slotId oldData =>
      rcases attributed pageId rfl with ⟨schema, isOwner, -⟩
      exact owned.editThere isOwner (fun spells => spells.deleteTuple slotId) run
  | update lsn txnId pageId slotId oldData newData =>
      rcases attributed pageId rfl with ⟨schema, isOwner, -, legible⟩
      refine owned.edit isOwner (fun out ok => ?_) run
      rcases (owned.entry isOwner).updateTuple legible slotId with ⟨out', ok', spells⟩
      obtain rfl : out = out' := Except.ok.inj (ok.symm.trans ok')
      exact spells
  | _ =>
      obtain ⟨rfl, -⟩ := Prod.mk.inj (Except.ok.inj run)
      exact owned

theorem Owned.undoRecord {record : LogRecord} (owned : Owned owner pages)
    (attributed : ∀ pageId, record.pageId = some pageId →
      ∃ schema, owner pageId = some schema ∧ record.Legible schema)
    (run : undoRecord record pages = .ok (pages', count)) : Owned owner pages' := by
  cases record with
  | insert lsn txnId pageId slotId data =>
      rcases attributed pageId rfl with ⟨schema, isOwner, -⟩
      exact owned.editThere isOwner (fun spells => spells.deleteTuple slotId) run
  | delete lsn txnId pageId slotId oldData =>
      rcases attributed pageId rfl with ⟨schema, isOwner, legible⟩
      exact owned.edit isOwner
        (fun out ok => (owned.entry isOwner).of_insertTuple legible ok) run
  | update lsn txnId pageId slotId oldData newData =>
      rcases attributed pageId rfl with ⟨schema, isOwner, legible, -⟩
      exact owned.editThere isOwner (fun spells => spells.updateTuple legible slotId) run
  | _ =>
      obtain ⟨rfl, -⟩ := Prod.mk.inj (Except.ok.inj run)
      exact owned

theorem Owned.replay {guard : LogRecord → Bool}
    {step : LogRecord → WalPages → Except Failure (WalPages × ℕ)} {records : List LogRecord}
    (steps : ∀ record ∈ records, ∀ pages pages' count, Owned owner pages →
      step record pages = .ok (pages', count) → Owned owner pages')
    (owned : Owned owner pages) (run : replay guard step records pages = .ok (pages', count)) :
    Owned owner pages' := by
  induction records generalizing pages count with
  | nil =>
      obtain ⟨rfl, -⟩ := Prod.mk.inj (Except.ok.inj run)
      exact owned
  | cons record records ih =>
      have others := fun other inside => steps other (List.mem_cons_of_mem _ inside)
      rw [WalManager.replay] at run
      split_ifs at run
      · rcases Fallible.except_bind_eq_ok run with ⟨⟨between, first⟩, stepped, rest⟩
        rcases Fallible.except_bind_eq_ok rest with ⟨⟨last, counts⟩, replayed, same⟩
        obtain ⟨rfl, -⟩ := Prod.mk.inj (Except.ok.inj same)
        exact ih others (steps record List.mem_cons_self _ _ _ owned stepped) replayed
      · exact ih others owned run

/-- After a replay of a log on no pages, every page belongs to a table and spells its rows. -/
theorem owned_recover {wal wal' : WalManager} {report : RecoveryReport}
    (attributed : Attributed owner wal.log) (owned : Owned owner wal.pages)
    (run : recover wal = (.ok report, wal')) : Owned owner wal'.pages ∧ wal'.log = wal.log := by
  rw [recover, Fallible.get_bind] at run
  dsimp only at run
  split_ifs at run
  · obtain ⟨-, rfl⟩ := Prod.mk.inj run
    exact ⟨owned, rfl⟩
  · rcases Fallible.bind_eq_ok run with ⟨⟨redone, count⟩, between, redo, rest⟩
    rcases Fallible.bind_eq_ok rest with ⟨⟨undone, counts⟩, after, undo, last⟩
    rw [Fallible.ofExcept_apply] at redo undo
    obtain ⟨redoes, rfl⟩ := Prod.mk.inj redo
    obtain ⟨undoes, rfl⟩ := Prod.mk.inj undo
    rw [Fallible.modify_bind] at last
    obtain ⟨-, rfl⟩ := Prod.mk.inj last
    have redone := owned.replay (fun record inside _ _ _ here step =>
      here.redoRecord (attributed record inside) step) redoes
    refine ⟨redone.replay (fun record inside _ _ _ here step => ?_) undoes, rfl⟩
    exact here.undoRecord (attributed record (List.mem_reverse.mp inside)) step

end WalManager

end VenomDb
