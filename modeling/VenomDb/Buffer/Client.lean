import VenomDb.Buffer.Agreement
import VenomDb.Buffer.PageStore

/-!
# A client that pins one page at a time

Whatever such a client does, a page that it fetches has the content that it last left
there, in a frame or in the file. It asks for a page only while it has none pinned,
and unpins a page that it changed as dirty; it may flush at any time.
-/

namespace VenomDb.BufferPool

variable {poolSize : ℕ} [Crc32]

/-- The runs of the client on a file. `pinned` is the frame that it has pinned and whether it
changed the page there; `contents` is what it last left in each page, up to the checksum. -/
inductive Client (file : List PageData) :
    BufferPool poolSize → Option (Fin poolSize × Bool) → (UInt32 → Option PageData) → Prop
  | opened : Client file (new (DiskManager.new file [])) none fun pageId =>
      (DiskManager.stored file pageId).map PageData.cleared
  | newPage {pool pool' : BufferPool poolSize} {contents : UInt32 → Option PageData}
      {pageId : UInt32} {frameId : Fin poolSize} :
      Client file pool none contents → BufferPool.newPage pool = (.ok (pageId, frameId), pool') →
      Client file pool' (some (frameId, false))
        (Function.update contents pageId (some (Page.new pageId).data.cleared))
  | fetchPage {pool pool' : BufferPool poolSize} {contents : UInt32 → Option PageData}
      {frameId : Fin poolSize} (pageId : UInt32) :
      Client file pool none contents → BufferPool.fetchPage pageId pool = (.ok frameId, pool') →
      Client file pool' (some (frameId, false)) contents
  /-- The client asks for a page that does not exist. -/
  | missed {pool pool' : BufferPool poolSize} {contents : UInt32 → Option PageData}
      {failure : Failure} (pageId : UInt32) :
      Client file pool none contents → BufferPool.fetchPage pageId pool = (.error failure, pool') →
      Client file pool' none contents
  | getPageMut {pool : BufferPool poolSize} {contents : UInt32 → Option PageData}
      {frameId : Fin poolSize} {changed : Bool} {page : Page} (data : PageData) :
      Client file pool (some (frameId, changed)) contents → pool.getPage frameId = some page →
      Client file (pool.setPage frameId { page with data := data }) (some (frameId, true))
        (Function.update contents page.id (some data.cleared))
  | unpin {pool : BufferPool poolSize} {contents : UInt32 → Option PageData}
      {frameId : Fin poolSize} {changed : Bool} (isDirty : Bool) :
      Client file pool (some (frameId, changed)) contents → (changed = true → isDirty = true) →
      Client file (pool.unpin frameId isDirty) none contents
  | flushPage {pool pool' : BufferPool poolSize} {pinned : Option (Fin poolSize × Bool)}
      {contents : UInt32 → Option PageData} {result : Except Failure Unit} (pageId : UInt32) :
      Client file pool pinned contents → BufferPool.flushPage pageId pool = (result, pool') →
      Client file pool' pinned contents
  | flushAll {pool pool' : BufferPool poolSize} {pinned : Option (Fin poolSize × Bool)}
      {contents : UInt32 → Option PageData} {result : Except Failure Unit}
      (order : List UInt32 → List UInt32) :
      Client file pool pinned contents → BufferPool.flushAll order pool = (result, pool') →
      Client file pool' pinned contents

variable {pool pool' : BufferPool poolSize} {frameId : Fin poolSize} {pageId : UInt32}
  {pinned : Option (Fin poolSize × Bool)} {contents : UInt32 → Option PageData}

/-- The frame whose page the client changed and did not unpin yet. -/
def changedFrame (pinned : Option (Fin poolSize × Bool)) : Option (Fin poolSize) :=
  pinned.bind fun pin => if pin.2 then some pin.1 else none

/-- The pool shows every page as the client left it, and every frame that is not pinned can be
handed out and pinned. -/
structure Serves (pool : BufferPool poolSize) (pinned : Option (Fin poolSize × Bool))
    (contents : UInt32 → Option PageData) : Prop where
  coherent : Coherent pool (changedFrame pinned)
  view : ∀ {pageId data}, contents pageId = some data → pool.view pageId = some data
  held : ∀ {frameId changed}, pinned = some (frameId, changed) → ∃ page, Held pool frameId page
  available : ∀ {other}, (∀ changed, pinned ≠ some (other, changed)) → pool.Available other
  pinnable : ∀ {other}, (∀ changed, pinned ≠ some (other, changed)) → pool.Pinnable other

theorem serves_new {file : List PageData} (short : file.length < 2 ^ 32) :
    Serves (new (DiskManager.new file []) : BufferPool poolSize) none fun pageId =>
      (DiskManager.stored file pageId).map PageData.cleared where
  coherent := by
    refine coherent_new ?_ rfl
    simp only [DiskManager.new, UInt32.toNat_ofNat']
    rw [Nat.mod_eq_of_lt short]
  view := fun seen => by simpa [BufferPool.view, new, DiskManager.new] using seen
  held := by simp
  available := fun _ => .inl rfl
  pinnable := fun _ => pinnable_new

theorem Serves.newPage (serves : Serves pool none contents)
    (run : BufferPool.newPage pool = (.ok (pageId, frameId), pool')) :
    Serves pool' (some (frameId, false))
      (Function.update contents pageId (some (Page.new pageId).data.cleared)) := by
  rcases newPage_cases serves.coherent with
    ⟨pageId', frameId', pool'', run', allocated⟩ | ⟨run', -⟩ | ⟨pool'', run', -⟩
  · rw [run] at run'
    cases run'
    refine ⟨allocated.coherent, ?_, ?_, ?_, ?_⟩
    · intro other data seen
      by_cases same : other = pageId
      · subst same
        rw [Function.update_self] at seen
        rw [← seen]
        exact view_of_frame allocated.coherent allocated.held.page
      · rw [Function.update_of_ne same] at seen
        exact allocated.continues.view (serves.view seen)
    · intro other changed same
      cases same
      exact ⟨_, allocated.held⟩
    · intro other notPinned
      refine allocated.available (fun same => notPinned false (by rw [same])) ?_
      exact serves.available (by simp)
    · intro other notPinned
      refine Pinnable.of_le (serves.pinnable (by simp)) (allocated.pins fun same => ?_)
      exact notPinned false (by rw [same])
  · rw [run] at run'
    simp at run'
  · rw [run] at run'
    simp at run'

theorem Serves.fetchPage (serves : Serves pool none contents)
    (run : BufferPool.fetchPage pageId pool = (.ok frameId, pool')) :
    Serves pool' (some (frameId, false)) contents := by
  rcases fetchPage_cases serves.coherent pageId with
    ⟨frameId', pool'', data, run', fetched⟩ | ⟨run', -⟩ | ⟨-, error, pool'', run', -⟩ | ⟨run', -⟩
  · rw [run] at run'
    cases run'
    refine ⟨fetched.coherent, fun seen => fetched.continues.view (serves.view seen), ?_, ?_, ?_⟩
    · intro other changed same
      cases same
      rcases fetched.held with ⟨page, held, -⟩
      exact ⟨page, held⟩
    · intro other notPinned
      refine fetched.available (fun same => notPinned false (by rw [same])) ?_
      exact serves.available (by simp)
    · intro other notPinned
      refine Pinnable.of_le (serves.pinnable (by simp)) (fetched.pins fun same => ?_)
      exact notPinned false (by rw [same])
  · rw [run] at run'
    simp at run'
  · rw [run] at run'
    simp at run'
  · rw [run] at run'
    simp at run'

theorem Serves.missed {failure : Failure} (serves : Serves pool none contents)
    (run : BufferPool.fetchPage pageId pool = (.error failure, pool')) :
    Serves pool' none contents := by
  rcases fetchPage_cases serves.coherent pageId with
    ⟨frameId, pool'', data, run', -⟩ | ⟨run', full⟩ |
      ⟨-, error, pool'', run', coherent, continues, -, available, pins⟩ | ⟨run', -⟩
  · rw [run] at run'
    simp at run'
  · rw [run] at run'
    cases run'
    exact ⟨serves.coherent.countMiss, serves.view, by simp, fun free => serves.available free,
      fun free => serves.pinnable free⟩
  · rw [run] at run'
    cases run'
    exact ⟨coherent, fun seen => continues.view (serves.view seen), by simp,
      fun free => available _ (serves.available free),
      fun free => (serves.pinnable free).of_le (pins _)⟩
  · rw [run] at run'
    cases run'
    exact serves

omit [Crc32] in
theorem changedFrame_cases (frameId : Fin poolSize) (changed : Bool) :
    changedFrame (some (frameId, changed)) = none ∧ changed = false ∨
      changedFrame (some (frameId, changed)) = some frameId ∧ changed = true := by
  cases changed
  · exact .inl ⟨rfl, rfl⟩
  · exact .inr ⟨rfl, rfl⟩

theorem Serves.getPageMut {changed : Bool} {page : Page}
    (serves : Serves pool (some (frameId, changed)) contents)
    (got : pool.getPage frameId = some page) (data : PageData) :
    Serves (pool.setPage frameId { page with data := data }) (some (frameId, true))
      (Function.update contents page.id (some data.cleared)) := by
  rcases serves.held rfl with ⟨page', held⟩
  cases held.page.symm.trans got
  have coherent : Coherent (pool.setPage frameId { page with data := data }) (some frameId) :=
    serves.coherent.setPage ((changedFrame_cases frameId changed).imp And.left And.left) held.page
      rfl
  refine ⟨coherent, ?_, ?_, ?_, ?_⟩
  · intro other data' seen
    by_cases same : other = page.id
    · subst same
      rw [Function.update_self] at seen
      rw [← seen]
      exact view_of_frame coherent (held.setPage _).page
    · rw [Function.update_of_ne same] at seen
      rw [view_setPage_of_ne serves.coherent held.page same, serves.view seen]
  · intro other changed' same
    cases same
    exact ⟨_, held.setPage _⟩
  · intro other notPinned
    refine available_setPage held.page (serves.available ?_)
    intro changed same
    cases same
    exact notPinned true rfl
  · intro other notPinned
    refine Pinnable.of_le (serves.pinnable ?_) pins_setPage.le
    intro changed same
    cases same
    exact notPinned true rfl

theorem Serves.unpin {changed isDirty : Bool}
    (serves : Serves pool (some (frameId, changed)) contents)
    (flagged : changed = true → isDirty = true) :
    Serves (pool.unpin frameId isDirty) none contents := by
  rcases serves.held rfl with ⟨page, held⟩
  refine ⟨?_, ?_, by simp, ?_, ?_⟩
  · refine serves.coherent.unpin held ?_
    rcases changedFrame_cases frameId changed with ⟨unchanged, -⟩ | ⟨inUse, isChanged⟩
    · exact .inl unchanged
    · exact .inr ⟨inUse, flagged isChanged⟩
  · intro other data seen
    exact (continues_unpin isDirty serves.coherent held).view (serves.view seen)
  · intro other _
    by_cases same : other = frameId
    · subst same
      exact available_unpin held
    · refine available_unpin_of_ne held same (serves.available ?_)
      intro changed pinned
      cases pinned
      exact same rfl
  · intro other _
    by_cases same : other = frameId
    · subst same
      rw [Pinnable, pins_unpin _ held]
      exact UInt32.toNat_lt _
    · refine Pinnable.of_le (serves.pinnable ?_) (pins_unpin_of_ne same).le
      intro changed pinned
      cases pinned
      exact same rfl

theorem held_flushed {page page' : Page} {other : Fin poolSize} (held : Held pool other page')
    (inFrame : (pool.frames frameId).page = some page) :
    ∃ page', Held (pool.flushed frameId page) other page' := by
  by_cases same : other = frameId
  · subst same
    refine ⟨_, flushed_page, ?_, ?_⟩
    · simpa [flushed, written] using held.pinned
    · simpa [flushed, written, setFrame] using held.returns
  · refine ⟨page', ?_, ?_, ?_⟩
    · simpa [flushed, written, setFrame, same] using held.page
    · simpa [flushed, written, setFrame, same] using held.pinned
    · simpa [flushed, written, setFrame, same] using held.returns

theorem Serves.flushPage {result : Except Failure Unit} (serves : Serves pool pinned contents)
    (run : BufferPool.flushPage pageId pool = (result, pool')) : Serves pool' pinned contents := by
  rcases flushPage_eq serves.coherent pageId with ⟨run', -⟩ | ⟨frameId, page, held, -, run'⟩
  · rw [run] at run'
    cases run'
    exact serves
  · rw [run] at run'
    cases run'
    refine ⟨serves.coherent.flushed held, ?_, ?_, ?_, ?_⟩
    · intro other data seen
      exact (serves.coherent.continues_flushed held).view (serves.view seen)
    · intro other changed isPinned
      rcases serves.held isPinned with ⟨page', held'⟩
      exact held_flushed held' held
    · intro other free
      exact available_flushed held (serves.available free)
    · intro other free
      exact (serves.pinnable free).of_le pins_flushed.le

theorem Serves.flushPages {pageIds : List UInt32} {result : Except Failure Unit}
    (serves : Serves pool pinned contents)
    (run : Fallible.forEach pageIds BufferPool.flushPage pool = (result, pool')) :
    Serves pool' pinned contents := by
  induction pageIds generalizing pool with
  | nil =>
      cases run
      exact serves
  | cons pageId pageIds ih =>
      rw [Fallible.forEach] at run
      cases first : BufferPool.flushPage pageId pool with
      | mk result' between =>
          have served := serves.flushPage first
          cases result' with
          | error failure =>
              rw [Fallible.bind_error first] at run
              cases run
              exact served
          | ok =>
              rw [Fallible.bind_ok first] at run
              exact ih served run

theorem Client.serves {file : List PageData} (short : file.length < 2 ^ 32)
    (client : Client file pool pinned contents) : Serves pool pinned contents := by
  induction client with
  | opened => exact serves_new short
  | newPage _ run ih => exact ih.newPage run
  | fetchPage pageId _ run ih => exact ih.fetchPage run
  | missed pageId _ run ih => exact ih.missed run
  | getPageMut data _ got ih => exact ih.getPageMut got data
  | unpin isDirty _ flagged ih => exact ih.unpin flagged
  | flushPage pageId _ run ih => exact ih.flushPage run
  | flushAll order _ run ih => exact ih.flushPages run

/-- A fetch of a page that the client created or that the file held at the start succeeds, and
shows what the client last left there. -/
theorem Client.fetchPage_contents {file : List PageData} {data : PageData} (frames : 0 < poolSize)
    (short : file.length < 2 ^ 32) (client : Client file pool none contents)
    (left : contents pageId = some data) :
    ∃ frameId pool' page, BufferPool.fetchPage pageId pool = (.ok frameId, pool') ∧
      pool'.getPage frameId = some page ∧ page.id = pageId ∧ page.data.cleared = data := by
  have serves := client.serves short
  rcases fetchPage_cases serves.coherent pageId with
    ⟨frameId, pool', data', run, fetched⟩ | ⟨-, full⟩ | ⟨missing, -⟩ | ⟨-, frameId, -, saturated⟩
  · have same := fetched.eq_view (serves.view left)
    subst same
    rcases fetched.held with ⟨page, held, sameId, sameData⟩
    exact ⟨frameId, pool', page, run, held.page, sameId, sameData⟩
  · exact absurd (serves.available (by simp)) (full ⟨0, frames⟩)
  · rw [serves.view left] at missing
    contradiction
  · exact absurd (serves.pinnable (by simp)) saturated

end VenomDb.BufferPool

namespace VenomDb.BufferPool

attribute [local instance] Crc32.ieee

/-- A page with some content other than that of a new page. -/
def scribbled : PageData := (Page.new 0).data.put 100 [1, 2, 3]

/-- One frame: page 0 was created, changed and unpinned, and page 1 took its frame. -/
def pageZeroEvicted : BufferPool 1 :=
  let created := (newPage (new (DiskManager.new [] []))).2
  let changed :=
    (created.setPage ⟨0, Nat.one_pos⟩ { Page.new 0 with data := scribbled }).unpin ⟨0, Nat.one_pos⟩
      true
  (newPage changed).2.unpin ⟨0, Nat.one_pos⟩ false

theorem fetchPage_pageZeroEvicted :
    ∃ frameId pool' page, fetchPage 0 pageZeroEvicted = (.ok frameId, pool') ∧
      pool'.getPage frameId = some page ∧ page.id = 0 ∧ page.data.cleared = scribbled.cleared := by
  have created : Client [] (newPage (new (DiskManager.new [] []) : BufferPool 1)).2
      (some (⟨0, Nat.one_pos⟩, false)) _ := .newPage .opened (Prod.ext (by rfl) rfl)
  have changed := Client.unpin true (Client.getPageMut scribbled created rfl) fun _ => rfl
  have evicted := Client.unpin false (Client.newPage changed (Prod.ext (by rfl) rfl)) fun same =>
    same
  exact evicted.fetchPage_contents (by decide) (by decide) rfl

/-!
## A page id that is given out twice

On a file of `2 ^ 32` pages the counter starts at zero. Page 0 is read into the first frame, and a
new page gets the same id.
-/

section Reissued

/-- Page 0 of the file was fetched. -/
def oneFetched : BufferPool 3 :=
  install 0 (Page.fromBytes 0 blank) false { new ⟨huge, 0, []⟩ with misses := 1 }

/-- And page 7. -/
def twoFetched : BufferPool 3 :=
  install 1 (Page.fromBytes 7 blank) false { oneFetched.unpin 0 false with misses := 2 }

/-- A new page got id 0 again and was changed. -/
def zeroChanged : BufferPool 3 :=
  let created := (newPage (twoFetched.unpin 1 false)).2
  (created.setPage 2 { Page.new 0 with data := scribbled }).unpin 2 true

/-- Page 5 took the frame of the old page 0, and the entry of the table for id 0 is gone. -/
def zeroForgotten : BufferPool 3 :=
  install 0 (Page.fromBytes 5 blank) false { zeroChanged with
    misses := 3
    pageTable := zeroChanged.pageTable.erase 0
    replacer := ⟨[1, 2]⟩
    frames := Function.update zeroChanged.frames 0 Frame.new }

theorem client_zeroForgotten : ∃ contents,
    Client huge (zeroForgotten.unpin 0 false) none contents ∧
      contents 0 = some scribbled.cleared := by
  have start : Client huge (new (DiskManager.new huge []) : BufferPool 3) none _ := .opened
  rw [new_huge] at start
  have zero : fetchPage 0 (new ⟨huge, 0, []⟩) = (.ok 0, oneFetched) :=
    fetchPage_blank rfl rfl rfl (getElem?_huge 0)
  have first := Client.unpin false (Client.fetchPage 0 start zero) fun same => same
  have seven : fetchPage 7 (oneFetched.unpin 0 false) = (.ok 1, twoFetched) :=
    fetchPage_blank (by rfl) (by rfl) (by rfl) (getElem?_huge 7)
  have second := Client.unpin false (Client.fetchPage 7 first seven) fun same => same
  have again : newPage (twoFetched.unpin 1 false) = (.ok (0, 2), _) := Prod.ext (by rfl) rfl
  have created := Client.newPage second again
  have changed := Client.unpin true (Client.getPageMut scribbled created rfl) fun _ => rfl
  have five : fetchPage 5 zeroChanged = (.ok 0, zeroForgotten) :=
    fetchPage_blank (by rfl) (by rfl) (by rfl) (getElem?_huge 5)
  exact ⟨_, Client.unpin false (Client.fetchPage 5 changed five) fun same => same, rfl⟩

/-- The next fetch of page 0 shows the page that the file held at the start. -/
theorem fetchPage_zeroForgotten : ∃ contents,
    Client huge (zeroForgotten.unpin 0 false) none contents ∧
    contents 0 = some scribbled.cleared ∧
    ¬∃ frameId pool' page, fetchPage 0 (zeroForgotten.unpin 0 false) = (.ok frameId, pool') ∧
      pool'.getPage frameId = some page ∧ page.id = 0 ∧ page.data.cleared = scribbled.cleared := by
  rcases client_zeroForgotten with ⟨contents, client, left⟩
  refine ⟨contents, client, left, ?_⟩
  rintro ⟨frameId, pool', page, run, shown, -, same⟩
  have old : fetchPage 0 (zeroForgotten.unpin 0 false) = (.ok 1, _) :=
    fetchPage_blank (by rfl) (by rfl) (by rfl) (getElem?_huge 0)
  obtain ⟨found, rfl⟩ := Prod.mk.inj (run.symm.trans old)
  obtain rfl : frameId = 1 := Except.ok.inj found
  obtain rfl : Page.fromBytes 0 blank = page := Option.some.inj shown
  have byte := congrArg (fun data : PageData => data.get 100) same
  exact absurd byte (by decide)

end Reissued

end VenomDb.BufferPool
