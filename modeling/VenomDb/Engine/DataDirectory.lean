import VenomDb.Engine.LogGrammar
import VenomDb.Recovery.LogFile
import VenomDb.Storage.CatalogFormat
import VenomDb.Storage.FileFormats

/-!
# The data directory as bytes

The executor's files are decoded ones that change from one moment to the next. Here they are byte
strings under their paths, changed by system calls, of which a crash may leave any first part. A
log record may be torn and a temporary file half written; what is read at the next start is still
the files of some moment.
-/

namespace VenomDb

/-- The files of a data directory. -/
inductive FileName
  | log
  | db
  | catalog
  | pages (table : String)
  /-- What is written before it is renamed to a file. -/
  | temporary (file : FileName)
  deriving DecidableEq

namespace FileName

def path (dataDir : String) : FileName → String
  | log => dataDir ++ "/venom.wal"
  | db => dataDir ++ "/data.db"
  | catalog => dataDir ++ "/catalog.bin"
  | pages table => dataDir ++ "/" ++ table ++ ".pages"
  | temporary file => file.path dataDir ++ ".tmp"

/-- The last character of a path. -/
def last : FileName → Char
  | log => 'l'
  | db => 'b'
  | catalog => 'n'
  | pages _ => 's'
  | temporary _ => 'p'

theorem getLast?_path (dataDir : String) (file : FileName) :
    (file.path dataDir).toList.getLast? = some file.last := by
  cases file with
  | log => simp [path, last]
  | db => simp [path, last]
  | catalog => simp [path, last]
  | pages table => rw [path, String.toList_append, List.getLast?_append]; rfl
  | temporary file => rw [path, String.toList_append, List.getLast?_append]; rfl

/-- No table has a name with which its page list would overwrite another file. -/
theorem path_injective (dataDir : String) : Function.Injective (path dataDir) := by
  intro file
  induction file with
  | temporary file ih =>
      intro other same
      have ends := getLast?_path dataDir file.temporary
      rw [same, getLast?_path, Option.some_inj] at ends
      cases other with
      | temporary other =>
          rw [path, path, String.append_left_inj] at same
          rw [ih same]
      | log => simp [last] at ends
      | db => simp [last] at ends
      | catalog => simp [last] at ends
      | pages table => simp [last] at ends
  | pages table =>
      intro other same
      have ends := getLast?_path dataDir (pages table)
      rw [same, getLast?_path, Option.some_inj] at ends
      cases other with
      | pages other =>
          rw [path, path, String.append_left_inj, String.append_right_inj] at same
          rw [same]
      | log => simp [last] at ends
      | db => simp [last] at ends
      | catalog => simp [last] at ends
      | temporary file => simp [last] at ends
  | log =>
      intro other same
      have ends := getLast?_path dataDir log
      rw [same, getLast?_path, Option.some_inj] at ends
      cases other <;> simp [last] at ends ⊢
  | db =>
      intro other same
      have ends := getLast?_path dataDir db
      rw [same, getLast?_path, Option.some_inj] at ends
      cases other <;> simp [last] at ends ⊢
  | catalog =>
      intro other same
      have ends := getLast?_path dataDir catalog
      rw [same, getLast?_path, Option.some_inj] at ends
      cases other <;> simp [last] at ends ⊢

/-- The table whose page list a file is. -/
def table : FileName → Option String
  | pages table => some table
  | _ => none

theorem apart_table : Folder.Apart table := by
  intro file other name isTable isTable'
  cases file <;> cases other <;> simp_all [table]

end FileName

/-- A data directory, as bytes. -/
abbrev DataFolder := Folder FileName UInt8

/-- A system call that changes a data directory. -/
abbrev DataCall := Folder.Call FileName UInt8

/-- The errors of reading a data directory. -/
inductive LoadError
  | log (failure : Failure)
  | catalog (error : CatalogError)

/-- All lengths and counts fit the fields that the files have for them. -/
structure Files.Small (files : Files) : Prop where
  log : ∀ record ∈ files.log, record.Fits
  pages : ∀ {table pageIds}, files.pages.lookup table = some pageIds → pageIds.length < 2 ^ 32
  catalog : ∀ file ∈ files.catalog, CatalogFile.SmallFile file

theorem Files.small_empty : Files.empty.Small :=
  ⟨by simp [empty], by simp [empty], by simp [empty]⟩

namespace DataFolder

open Folder FileName

/-- The page lists that are found. -/
def pageLists (folder : DataFolder) : AList fun _ : String => List UInt32 :=
  ofKind apart_table PageList.ofBytes folder

/-- The files as they are read: the catalog and the page lists, the log, and the pages of the data
file. -/
def decode (folder : DataFolder) : Except LoadError Files := do
  let catalog ← match folder.lookup .catalog with
    | none => .ok none
    | some bytes =>
        ((CatalogFile.readFile bytes).1.mapError LoadError.catalog).map Option.some
  let log ← (WalManager.readAllRecords (folder.content .log)).mapError LoadError.log
  return {
    log := log
    db := DiskManager.ofBytes (folder.content .db)
    pages := pageLists folder
    catalog := catalog }

/-- The log ends with a whole record. -/
def Untorn (folder : DataFolder) : Prop :=
  ∃ records, WalManager.readAllRecords (folder.content .log) = .ok records ∧
    WalManager.encode records = folder.content .log

section Holds

/-- The bytes of some files, and what an unfinished append has left behind the log. -/
structure Holds (folder : DataFolder) (files : Files) (tail : Bytes) : Prop where
  log : folder.content .log = WalManager.encode files.log ++ tail
  db : folder.content .db = DiskManager.toBytes files.db
  pages : pageLists folder = files.pages
  catalog : folder.lookup .catalog = files.catalog.map CatalogFile.toBytes

variable {folder : DataFolder} {files : Files} {tail : Bytes}

theorem Holds.empty : Holds ∅ Files.empty [] := ⟨rfl, rfl, rfl, rfl⟩

theorem Holds.readLog (holds : Holds folder files tail) (small : files.Small)
    (torn : WalManager.readAllRecords tail = .ok []) :
    WalManager.readAllRecords (folder.content .log) = .ok files.log := by
  rw [holds.log, WalManager.readAllRecords_encode small.log, torn]
  simp [Except.map]

theorem Holds.decode (holds : Holds folder files tail) (small : files.Small)
    (torn : WalManager.readAllRecords tail = .ok []) : folder.decode = .ok files := by
  have log := holds.readLog small torn
  rcases files with ⟨records, pages, lists, catalog⟩
  rw [DataFolder.decode, holds.catalog, log, holds.db, holds.pages, DiskManager.ofBytes_toBytes]
  cases catalog with
  | none => rfl
  | some file =>
      have read := CatalogFile.readFile_toBytes (small.catalog file rfl)
      simp only [Option.map_some]
      rw [read]
      rfl

theorem Holds.untorn (holds : Holds folder files tail) (small : files.Small)
    (torn : WalManager.readAllRecords tail = .ok []) (untorn : Untorn folder) :
    Holds folder files [] := by
  rcases untorn with ⟨records, read, whole⟩
  rw [holds.readLog small torn] at read
  have same : files.log = records := Except.ok.inj read
  refine ⟨?_, holds.db, holds.pages, holds.catalog⟩
  rw [← whole, same, List.append_nil]

/-- A file that is neither of the four kinds does not matter. -/
theorem Holds.insert_temporary (holds : Holds folder files tail) (file : FileName)
    (bytes : Bytes) : Holds (folder.insert file.temporary bytes) files tail where
  log := by rw [content_insert_of_ne (by simp), holds.log]
  db := by rw [content_insert_of_ne (by simp), holds.db]
  pages := by
    rw [pageLists, ofKind_insert_of_none rfl]
    exact holds.pages
  catalog := by rw [AList.lookup_insert_ne (by simp), holds.catalog]

theorem Holds.erase_temporary (holds : Holds folder files tail) (file : FileName) :
    Holds (folder.erase file.temporary) files tail where
  log := by rw [content_erase_of_ne (by simp), holds.log]
  db := by rw [content_erase_of_ne (by simp), holds.db]
  pages := by
    rw [pageLists, ofKind_erase_of_none rfl]
    exact holds.pages
  catalog := by rw [AList.lookup_erase_ne (by simp), holds.catalog]

theorem Holds.insert_log (holds : Holds folder files tail) {log : List LogRecord}
    {tail' : Bytes} :
    Holds (folder.insert .log (WalManager.encode log ++ tail'))
      { files with log := log } tail' where
  log := content_insert _ _
  db := by rw [content_insert_of_ne (by simp), holds.db]
  pages := by
    rw [pageLists, ofKind_insert_of_none rfl]
    exact holds.pages
  catalog := by rw [AList.lookup_insert_ne (by simp), holds.catalog]

theorem Holds.insert_db (holds : Holds folder files tail) (pages : List PageData) :
    Holds (folder.insert .db (DiskManager.toBytes pages)) { files with db := pages } tail where
  log := by rw [content_insert_of_ne (by simp), holds.log]
  db := content_insert _ _
  pages := by
    rw [pageLists, ofKind_insert_of_none rfl]
    exact holds.pages
  catalog := by rw [AList.lookup_insert_ne (by simp), holds.catalog]

theorem Holds.insert_pages (holds : Holds folder files tail) {table : String}
    {pageIds : List UInt32} (small : pageIds.length < 2 ^ 32) :
    Holds (folder.insert (.pages table) (PageList.toBytes pageIds))
      { files with pages := files.pages.insert table pageIds } tail where
  log := by rw [content_insert_of_ne (by simp), holds.log]
  db := by rw [content_insert_of_ne (by simp), holds.db]
  pages := by
    have isTable : FileName.table (.pages table) = some table := rfl
    rw [pageLists, ofKind_insert isTable, PageList.ofBytes_toBytes small]
    exact congrArg (AList.insert table pageIds) holds.pages
  catalog := by rw [AList.lookup_insert_ne (by simp), holds.catalog]

theorem Holds.insert_catalog (holds : Holds folder files tail) (file : CatalogFile) :
    Holds (folder.insert .catalog file.toBytes) { files with catalog := some file } tail where
  log := by rw [content_insert_of_ne (by simp), holds.log]
  db := by rw [content_insert_of_ne (by simp), holds.db]
  pages := by
    rw [pageLists, ofKind_insert_of_none rfl]
    exact holds.pages
  catalog := AList.lookup_insert _

end Holds

section Writes

/-- The system calls that take the files from one moment to the next. A log record and a temporary
file are written byte by byte, a page at once. -/
inductive Writes : Files → Files → List DataCall → Prop
  | nothing {files : Files} : Writes files files []
  | log {files : Files} (record : LogRecord) :
      Writes files { files with log := files.log ++ [record] } (appendEach .log record.toBytes)
  | db {files : Files} (index : ℕ) (data : PageData) :
      Writes files { files with db := DiskManager.store files.db index data }
        [.write .db (index * pageSize) (data.window 0 pageSize)]
  | pages {files : Files} (table : String) (pageIds : List UInt32) :
      Writes files { files with pages := files.pages.insert table pageIds }
        (replace (temporary (.pages table)) (.pages table) (PageList.toBytes pageIds))
  | catalog {files : Files} (file : CatalogFile) :
      Writes files { files with catalog := some file }
        (replace (temporary .catalog) .catalog file.toBytes)

variable {folder : DataFolder} {files files' : Files} {calls part rest : List DataCall}

theorem readAllRecords_nil : WalManager.readAllRecords [] = .ok [] :=
  WalManager.readAllRecords_short (by simp)

/-- A record has bytes to write. -/
theorem toBytes_ne_nil (record : LogRecord) : record.toBytes ≠ [] := by
  simp [LogRecord.toBytes, LogRecord.sized, Bytes.toLe]

theorem Holds.append_log (holds : Holds folder files []) (record : LogRecord) :
    Holds (folder.insert .log (WalManager.encode files.log ++ record.toBytes))
      { files with log := files.log ++ [record] } [] := by
  have longer : WalManager.encode files.log ++ record.toBytes =
      WalManager.encode (files.log ++ [record]) ++ [] := by
    simp [WalManager.encode]
  rw [longer]
  exact holds.insert_log

/-- A record of which a part was written is not read. -/
theorem Holds.cut_log (holds : Holds folder files []) {record : LogRecord} (fits : record.Fits)
    (whole : appendEach .log record.toBytes = part ++ rest) (short : rest ≠ []) :
    ∃ tail, WalManager.readAllRecords tail = .ok [] ∧ Holds (folder.run part) files tail := by
  rcases of_prefix_appendEach ⟨rest, whole.symm⟩ with ⟨written, begun, rfl⟩
  have fewer : written.length < record.toBytes.length := by
    have lengths := congrArg List.length whole
    rw [List.length_append, appendEach, appendEach, List.length_map, List.length_map] at lengths
    have some := List.length_pos_iff.mpr short
    omega
  refine ⟨written, ?_, ?_⟩
  · rw [List.prefix_iff_eq_take.mp begun]
    exact WalManager.readAllRecords_cut fits fewer
  · rw [run_appendEach, holds.log, List.append_nil]
    split_ifs with nothing
    · rw [nothing]
      exact holds
    · exact holds.insert_log

theorem Holds.cut_replace (holds : Holds folder files []) {file : FileName} {bytes : Bytes}
    (whole : replace (temporary file) file bytes = part ++ rest) (short : rest ≠ []) :
    Holds (folder.run part) files [] := by
  rcases run_replace_cut whole short with same | ⟨written, same⟩
  · rw [same]
    exact holds
  · rw [same]
    exact holds.insert_temporary _ _

theorem Holds.write_db (holds : Holds folder files []) (index : ℕ) (data : PageData) :
    Holds (folder.run [.write .db (index * pageSize) (data.window 0 pageSize)])
      { files with db := DiskManager.store files.db index data } [] := by
  rw [run_cons, perform, holds.db, DiskManager.overwrite_toBytes]
  exact holds.insert_db _

/-- Unless the last of the calls is made, the files are read as before. -/
theorem Writes.cut (writes : Writes files files' calls) (holds : Holds folder files [])
    (small : files'.Small) (whole : calls = part ++ rest) (short : rest ≠ []) :
    ∃ tail, WalManager.readAllRecords tail = .ok [] ∧ Holds (folder.run part) files tail := by
  cases writes with
  | nothing => exact absurd (List.append_eq_nil_iff.mp whole.symm).2 short
  | log record => exact holds.cut_log (small.log record (by simp)) whole short
  | db index data =>
      rcases List.append_eq_singleton_iff.mp whole.symm with ⟨rfl, -⟩ | ⟨-, nothing⟩
      · exact ⟨[], readAllRecords_nil, holds⟩
      · exact absurd nothing short
  | pages table pageIds =>
      exact ⟨[], readAllRecords_nil, holds.cut_replace whole short⟩
  | catalog file => exact ⟨[], readAllRecords_nil, holds.cut_replace whole short⟩

/-- Nothing is cut off. -/
theorem Writes.run (writes : Writes files files' calls) (holds : Holds folder files [])
    (small : files'.Small) : Holds (folder.run calls) files' [] := by
  cases writes with
  | nothing => exact holds
  | log record =>
      rw [run_appendEach, if_neg (toBytes_ne_nil record), holds.log, List.append_nil]
      exact holds.append_log record
  | db index data => exact holds.write_db index data
  | pages table pageIds =>
      have fits := small.pages (AList.lookup_insert files.pages)
      rw [run_replace]
      exact (holds.erase_temporary _).insert_pages fits
  | catalog file =>
      rw [run_replace]
      exact (holds.erase_temporary _).insert_catalog file

/-- What changes the files needs a call. -/
theorem Writes.same (writes : Writes files files' []) : files' = files := by
  generalize none : [] = calls at writes
  cases writes with
  | nothing => rfl
  | log record =>
      rw [appendEach, eq_comm, List.map_eq_nil_iff] at none
      exact absurd none (toBytes_ne_nil record)
  | db index data => exact absurd none (List.cons_ne_nil _ _).symm
  | pages table pageIds => exact absurd none (List.cons_ne_nil _ _).symm
  | catalog file => exact absurd none (List.cons_ne_nil _ _).symm

end Writes

section Performs

/-- The files at the latest moment. -/
def latest (base : Files) (history : List Moment) : Files :=
  (history.head?.map Moment.toFiles).getD base

/-- The system calls of a history, which has its latest moment first. -/
inductive Performs (base : Files) : List Moment → List DataCall → Prop
  | start : Performs base [] []
  | step {history : List Moment} {moment : Moment} {calls more : List DataCall}
      (before : Performs base history calls)
      (writes : Writes (latest base history) moment.toFiles more) :
      Performs base (moment :: history) (calls ++ more)

/-- Some of the calls of a history were made. The moments up to which all calls were made. -/
inductive Completed (base : Files) (history : List Moment) : List DataCall → List Moment → Prop
  /-- Of the calls to the next moment, some are missing. -/
  | between {moment : Moment} {done : List Moment} {calls part rest : List DataCall}
      (next : moment :: done <:+ history) (before : Performs base done calls)
      (writes : Writes (latest base done) moment.toFiles (part ++ rest)) (short : rest ≠ []) :
      Completed base history (calls ++ part) done
  | all {calls : List DataCall} (performs : Performs base history calls) :
      Completed base history calls history

variable {folder : DataFolder} {base : Files} {history done : List Moment}
  {calls part : List DataCall}

/-- The files were there at the start or at a moment. -/
def Seen (base : Files) (history : List Moment) (files : Files) : Prop :=
  files = base ∨ ∃ moment ∈ history, files = moment.toFiles

theorem seen_latest (earlier : done <:+ history) : Seen base history (latest base done) := by
  cases done with
  | nil => exact .inl rfl
  | cons moment done => exact .inr ⟨moment, earlier.subset List.mem_cons_self, rfl⟩

theorem Seen.small {seen : Files} (isSeen : Seen base history seen) (small : base.Small)
    (smalls : ∀ moment ∈ history, moment.toFiles.Small) : seen.Small := by
  rcases isSeen with rfl | ⟨moment, inside, rfl⟩
  · exact small
  · exact smalls moment inside

theorem Completed.seen (completed : Completed base history part done) :
    Seen base history (latest base done) := by
  cases completed with
  | between next before writes short => exact seen_latest ((List.suffix_cons _ _).trans next)
  | all performs => exact seen_latest (List.suffix_refl _)

/-- A later moment, none of whose calls was made unless it has none. -/
theorem Completed.cons {moment : Moment} {more : List DataCall}
    (completed : Completed base history part done)
    (writes : Writes (latest base history) moment.toFiles more) :
    ∃ done', Completed base (moment :: history) part done' ∧
      latest base done' = latest base done := by
  cases completed with
  | between next before earlier short =>
      exact ⟨done, .between (next.trans (List.suffix_cons _ _)) before earlier short, rfl⟩
  | all performs =>
      by_cases none : more = []
      · subst none
        refine ⟨moment :: history, .all ?_, writes.same⟩
        have whole := performs.step writes
        rwa [List.append_nil] at whole
      · have next := Completed.between (List.suffix_refl (moment :: history)) performs
          (show Writes _ _ ([] ++ more) from writes) none
        rw [List.append_nil] at next
        exact ⟨history, next, rfl⟩

theorem Performs.run (performs : Performs base history calls) (holds : Holds folder base [])
    (small : ∀ moment ∈ history, moment.toFiles.Small) :
    Holds (folder.run calls) (latest base history) [] := by
  induction performs with
  | start => exact holds
  | @step history moment calls more before writes ih =>
      have earlier := ih fun moment inside => small moment (List.mem_cons_of_mem _ inside)
      rw [run_append]
      exact writes.run earlier (small moment List.mem_cons_self)

/-- Whatever a crash cuts off, the directory has the files of the last moment whose calls were all
made. -/
theorem Performs.cut (performs : Performs base history calls) (holds : Holds folder base [])
    (small : ∀ moment ∈ history, moment.toFiles.Small) (cut : part <+: calls) :
    ∃ done tail, Completed base history part done ∧ WalManager.readAllRecords tail = .ok [] ∧
      Holds (folder.run part) (latest base done) tail := by
  induction performs generalizing part with
  | start =>
      rw [List.prefix_nil.mp cut]
      exact ⟨[], [], .all .start, readAllRecords_nil, holds⟩
  | @step history moment calls more before writes ih =>
      have earlier (other : Moment) (inside : other ∈ history) : other.toFiles.Small :=
        small other (List.mem_cons_of_mem _ inside)
      have here := small moment List.mem_cons_self
      rcases prefix_append_cases cut with inside | ⟨begun, ⟨rest, rfl⟩, rfl⟩
      · rcases ih earlier inside with ⟨done, tail, completed, torn, left⟩
        rcases completed.cons writes with ⟨done', completed', same⟩
        rw [← same] at left
        exact ⟨done', tail, completed', torn, left⟩
      · rw [run_append]
        have ready := before.run holds earlier
        by_cases whole : rest = []
        · subst whole
          rw [List.append_nil] at writes
          exact ⟨_, [], .all (before.step writes), readAllRecords_nil, writes.run ready here⟩
        · rcases writes.cut ready here rfl whole with ⟨tail, torn, left⟩
          exact ⟨history, tail, .between (List.suffix_refl _) before writes whole, torn, left⟩

end Performs

section Opening

variable {folder : DataFolder} {files : Files} {history : List Moment} {part : List DataCall}

/-- `DiskManager::new` and `WalManager::new` create their files. -/
def opening : List DataCall := [.touch .db, .touch .log]

theorem Holds.touch_log (holds : Holds folder files []) :
    Holds (folder.perform (.touch .log)) files [] := by
  rw [perform]
  split_ifs with present
  · exact holds
  · have nothing : folder.lookup .log = none := AList.lookup_eq_none.mpr present
    have log := holds.log
    rw [content, nothing, Option.getD_none, List.append_nil] at log
    have created : Holds (folder.insert .log (WalManager.encode files.log ++ [])) files [] :=
      holds.insert_log
    rw [List.append_nil, ← log] at created
    exact created

theorem Holds.touch_db (holds : Holds folder files []) :
    Holds (folder.perform (.touch .db)) files [] := by
  rw [perform]
  split_ifs with present
  · exact holds
  · have nothing : folder.lookup .db = none := AList.lookup_eq_none.mpr present
    have db := holds.db
    rw [content, nothing, Option.getD_none] at db
    have created := holds.insert_db files.db
    rw [← db] at created
    exact created

theorem Holds.opening (holds : Holds folder files []) (cut : part <+: opening) :
    Holds (folder.run part) files [] := by
  rcases List.prefix_cons_iff.mp cut with rfl | ⟨rest, rfl, further⟩
  · exact holds
  · rcases List.prefix_cons_iff.mp further with rfl | ⟨rest, rfl, nothing⟩
    · exact holds.touch_db
    · rw [List.prefix_nil.mp nothing]
      exact holds.touch_db.touch_log

/-- Wherever a run is cut off, the directory is read, and as the files of the last moment whose
calls were all made. -/
structure KeepsMoments (folder : DataFolder) (files : Files) (history : List Moment) : Prop where
  opens : ∀ {part}, part <+: opening → decode (folder.run part) = .ok files
  runs : ∀ {calls part}, Performs files history calls → part <+: calls →
    ∃ done, Completed files history part done ∧
      decode (folder.run (opening ++ part)) = .ok (latest files done)

theorem Holds.keepsMoments (holds : Holds folder files []) (small : files.Small)
    (smalls : ∀ moment ∈ history, moment.toFiles.Small) : KeepsMoments folder files history where
  opens := fun cut => (holds.opening cut).decode small readAllRecords_nil
  runs := by
    intro calls part performs cut
    rcases performs.cut (holds.opening (List.prefix_refl _)) smalls cut with
      ⟨done, tail, completed, torn, left⟩
    refine ⟨done, completed, ?_⟩
    rw [Folder.run_append]
    exact left.decode (completed.seen.small small smalls) torn

end Opening

end DataFolder

end VenomDb
