import VenomDb.Buffer.Client

/-!
# Forgetting the pool after a flush

Once all pages are flushed the pool holds nothing that the data file does not: a client
that pins one page at a time may lose the pool, and goes on with another one, of any
size, on the file.
-/

namespace VenomDb.BufferPool

variable {poolSize : ℕ} [Crc32] {pool pool' : BufferPool poolSize} {frameId : Fin poolSize}
  {pageId other : UInt32} {data : PageData} {contents : UInt32 → Option PageData}

/-- A page has the same content in the pool and in the file, up to the checksum. -/
structure Mirrored (pool : BufferPool poolSize) (pageId : UInt32) (data : PageData) : Prop where
  view : pool.view pageId = some data
  stored : (DiskManager.stored pool.disk.file pageId).map PageData.cleared = some data

/-- A page that is in no frame is in the file. -/
theorem mirrored_of_absent (seen : pool.view pageId = some data)
    (absent : pool.pageTable.lookup pageId = none) : Mirrored pool pageId data := by
  refine ⟨seen, ?_⟩
  rw [view, absent] at seen
  exact seen

/-- Flushing any page keeps a page that is mirrored. -/
theorem Mirrored.flushed {page : Page} (mirrored : Mirrored pool pageId data)
    (coherent : Coherent pool none) (held : (pool.frames frameId).page = some page) :
    Mirrored (pool.flushed frameId page) pageId data := by
  have seen := (coherent.continues_flushed held).view mirrored.view
  refine ⟨seen, ?_⟩
  by_cases same : pageId = page.id
  · subst same
    rw [stored_flushed]
    rw [view_of_frame (coherent.flushed held) flushed_page] at seen
    exact seen
  · rcases Option.map_eq_some_iff.mp mirrored.stored with ⟨found, present, cleared⟩
    have kept : DiskManager.stored (pool.flushed frameId page).disk.file pageId = some found :=
      DiskManager.stored_store_of_ne (Ne.symm same) present
    rw [kept, ← cleared]
    rfl

/-- Flushing a page mirrors it. -/
theorem mirrored_flushed {page : Page} (seen : pool.view page.id = some data)
    (coherent : Coherent pool none) (held : (pool.frames frameId).page = some page) :
    Mirrored (pool.flushed frameId page) page.id data := by
  have seen' := (coherent.continues_flushed held).view seen
  refine ⟨seen', ?_⟩
  rw [stored_flushed]
  rw [view_of_frame (coherent.flushed held) flushed_page] at seen'
  exact seen'

/-- `flush_page` mirrors its page and keeps the others mirrored. -/
theorem flushPage_mirrors (coherent : Coherent pool none) (pageId : UInt32) :
    ∃ pool', flushPage pageId pool = (.ok (), pool') ∧ Coherent pool' none ∧
      pool'.disk.numPages = pool.disk.numPages ∧
      (∀ data, pool.view pageId = some data → Mirrored pool' pageId data) ∧
      ∀ other data, Mirrored pool other data → Mirrored pool' other data := by
  rcases flushPage_eq coherent pageId with ⟨run, clean⟩ | ⟨frameId, page, held, rfl, run⟩
  · refine ⟨pool, run, coherent, rfl, fun data seen => ?_, fun _ _ mirrored => mirrored⟩
    rcases resident : pool.pageTable.lookup pageId with _ | frameId
    · exact mirrored_of_absent seen resident
    · rcases coherent.table resident with ⟨page, held, rfl⟩
      rcases coherent.synced frameId nofun page held (clean frameId resident) with
        ⟨found, present, cleared⟩
      refine ⟨seen, ?_⟩
      rw [view_of_frame coherent held] at seen
      rw [present, Option.map_some, cleared]
      exact seen
  · refine ⟨_, run, coherent.flushed held, rfl, ?_, ?_⟩
    · exact fun data seen => mirrored_flushed seen coherent held
    · exact fun other data mirrored => mirrored.flushed coherent held

theorem flushPages_mirrors (coherent : Coherent pool none) (pageIds : List UInt32) :
    ∃ pool', Fallible.forEach pageIds flushPage pool = (.ok (), pool') ∧ Coherent pool' none ∧
      pool'.disk.numPages = pool.disk.numPages ∧
      (∀ pageId ∈ pageIds, ∀ data, pool.view pageId = some data → Mirrored pool' pageId data) ∧
      ∀ other data, Mirrored pool other data → Mirrored pool' other data := by
  induction pageIds generalizing pool with
  | nil =>
      refine ⟨pool, rfl, coherent, rfl, ?_, fun _ _ mirrored => mirrored⟩
      exact fun pageId inside => absurd inside List.not_mem_nil
  | cons first pageIds ih =>
      rcases flushPage_mirrors coherent first with
        ⟨between, run, coherent', sameCount, mirrors, keeps⟩
      rcases ih coherent' with ⟨pool', rest, coherent'', sameCount', mirrors', keeps'⟩
      have continues : Continues pool between := by
        rcases flushPage_spec coherent first with ⟨_, run', -, continues, -⟩
        rw [run] at run'
        cases run'
        exact continues
      refine ⟨pool', ?_, coherent'', sameCount'.trans sameCount, ?_, ?_⟩
      · rw [Fallible.forEach, Fallible.bind_ok run, rest]
      · intro pageId inside data seen
        rcases List.mem_cons.mp inside with rfl | later
        · exact keeps' _ data (mirrors data seen)
        · exact mirrors' pageId later data (continues.view seen)
      · exact fun other data mirrored => keeps' other data (keeps other data mirrored)

/-- After `flush_all` the client can forget the pool: one of any size on the file that there is now
gives it every page as it last left it. -/
theorem Client.flushAll_mirrors {file : List PageData} (short : file.length < 2 ^ 32)
    (client : Client file pool none contents) (order : List UInt32 → List UInt32)
    (listed : ∀ pageIds, (order pageIds).Perm pageIds) {larger : ℕ} (frames : 0 < larger) :
    ∃ pool', BufferPool.flushAll order pool = (.ok (), pool') ∧
      ∀ pageId data, contents pageId = some data →
        ∃ frameId reopened page,
          BufferPool.fetchPage pageId
            (new (DiskManager.new pool'.disk.file []) : BufferPool larger) =
            (.ok frameId, reopened) ∧
          reopened.getPage frameId = some page ∧ page.id = pageId ∧ page.data.cleared = data := by
  have serves := client.serves short
  have coherent : Coherent pool none := serves.coherent
  rcases flushPages_mirrors coherent (order pool.pageTable.keys) with
    ⟨pool', run, coherent', sameCount, mirrors, keeps⟩
  refine ⟨pool', ?_, fun pageId data left => ?_⟩
  · rw [BufferPool.flushAll, Fallible.get_bind]
    exact run
  · have mirrored : Mirrored pool' pageId data := by
      have seen := serves.view left
      rcases resident : pool.pageTable.lookup pageId with _ | frameId
      · exact keeps pageId data (mirrored_of_absent seen resident)
      · apply mirrors pageId _ data seen
        apply (listed _).mem_iff.mpr
        apply AList.mem_keys.mp
        apply AList.lookup_isSome.mp
        rw [resident]
        rfl
    have short' : pool'.disk.file.length < 2 ^ 32 :=
      lt_of_le_of_lt coherent'.fileLength pool'.disk.numPages.toNat_lt
    exact Client.fetchPage_contents frames short' .opened mirrored.stored

end VenomDb.BufferPool

namespace VenomDb.BufferPool

attribute [local instance] Crc32.ieee

/-- Page 0 was created and changed, and is in the only frame. -/
def scribbledOnly : BufferPool 1 :=
  ((newPage (new (DiskManager.new [] []))).2.setPage ⟨0, Nat.one_pos⟩
    { Page.new 0 with data := scribbled }).unpin ⟨0, Nat.one_pos⟩ true

theorem flushAll_scribbledOnly :
    scribbledOnly.disk.file = [] ∧ ∃ pool', flushAll id scribbledOnly = (.ok (), pool') ∧
      ∃ frameId reopened page,
        BufferPool.fetchPage 0 (new (DiskManager.new pool'.disk.file []) : BufferPool 2) =
          (.ok frameId, reopened) ∧
        reopened.getPage frameId = some page ∧ page.id = 0 ∧
          page.data.cleared = scribbled.cleared := by
  have created : Client [] (newPage (new (DiskManager.new [] []) : BufferPool 1)).2
      (some (⟨0, Nat.one_pos⟩, false)) _ := .newPage .opened (Prod.ext (by rfl) rfl)
  have changed := Client.unpin true (Client.getPageMut scribbled created rfl) fun _ => rfl
  rcases changed.flushAll_mirrors (by decide) id (fun pageIds => .refl pageIds) Nat.two_pos with
    ⟨pool', run, shown⟩
  exact ⟨rfl, pool', run, shown 0 _ rfl⟩

end VenomDb.BufferPool
