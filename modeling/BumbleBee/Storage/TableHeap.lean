import BumbleBee.Concurrency.Transaction
import Mathlib.Data.List.Nodup
import Mathlib.Logic.Function.Basic

/-!
The row heap of `table_heap.cpp` over a page store: page ids are handed out from
the free list first, and an append fills the last page before linking a new one.
-/

namespace BumbleBee.Storage
open SlottedPage Concurrency Function

structure PageStore where
  pages : Int → TablePage
  freePages : List Int
  nextPageId : Int

structure TableHeap where
  firstPageId : Int
  lastPageId : Int
  pageDirectory : List Int
  deriving DecidableEq, Repr

namespace PageStore

def write (store : PageStore) (pageId : Int) (page : TablePage) : PageStore :=
  { store with pages := update store.pages pageId page }

/-- The last freed id is reused first. -/
def newPage (store : PageStore) : Int × PageStore :=
  match store.freePages with
  | id :: rest => (id, { store with freePages := rest })
  | [] => (store.nextPageId, { store with nextPageId := store.nextPageId + 1 })

def deletePage (store : PageStore) (pageId : Int) : PageStore :=
  { store with freePages := pageId :: store.freePages }

/-- `GetRow` of the slot a row id names; `none` is its out-of-range exception. -/
def getRow (store : PageStore) (rid : RID) : Option (TupleMeta × RowBytes) :=
  (store.pages rid.pageId).getRow rid.slotNum

/-- Rows of a page id, the only part of a page the layers above look at. -/
def rows (store : PageStore) (pageId : Int) : List (TupleMeta × RowBytes) := (store.pages pageId).rows

section
variable (store : PageStore)
include store

theorem getRow_eq (rid : RID) : store.getRow rid = (store.rows rid.pageId)[rid.slotNum]? :=
  TablePage.getRow_eq _ _

theorem rows_write (pageId : Int) (page : TablePage) :
    (store.write pageId page).rows = update store.rows pageId page.rows := by
  funext other
  by_cases same : other = pageId
  · subst same
    simp [rows, write]
  · simp [rows, write, same]

theorem newPage_pages : store.newPage.2.pages = store.pages := by
  unfold newPage
  split <;> rfl

theorem newPage_rows : store.newPage.2.rows = store.rows := by
  funext other
  simp only [rows, newPage_pages]

end

/-- Page ids handed out and not returned. -/
def Allocated (store : PageStore) (pageId : Int) : Prop :=
  pageId < store.nextPageId ∧ pageId ∉ store.freePages

structure Sound (store : PageStore) : Prop where
  distinct : store.freePages.Nodup
  bounded : ∀ pageId ∈ store.freePages, pageId < store.nextPageId

variable {store : PageStore}

theorem Sound.congr {after : PageStore} (sound : store.Sound) (freePages : after.freePages = store.freePages)
    (nextPageId : after.nextPageId = store.nextPageId) : after.Sound :=
  ⟨by rw [freePages]; exact sound.distinct, by rw [freePages, nextPageId]; exact sound.bounded⟩

theorem allocated_congr {after : PageStore} (freePages : after.freePages = store.freePages)
    (nextPageId : after.nextPageId = store.nextPageId) (pageId : Int) :
    after.Allocated pageId ↔ store.Allocated pageId := by
  simp only [Allocated, freePages, nextPageId]

/-- A page id handed out was not allocated, and is the only one that becomes so. -/
theorem Sound.newPage (sound : store.Sound) :
    store.newPage.2.Sound ∧ ¬store.Allocated store.newPage.1 ∧
      ∀ pageId, store.newPage.2.Allocated pageId ↔ store.Allocated pageId ∨ pageId = store.newPage.1 := by
  have distinct := sound.distinct
  have bounded := sound.bounded
  unfold PageStore.newPage Allocated
  split
  · next id rest free =>
    rw [free] at distinct bounded
    obtain ⟨fresh, tail⟩ := List.nodup_cons.mp distinct
    refine ⟨⟨tail, fun p member => bounded p (List.mem_cons_of_mem _ member)⟩, ?_, ?_⟩
    · simp [free]
    · intro pageId
      grind
  · next free =>
    refine ⟨⟨by simp [free], by simp [free]⟩, by simp, ?_⟩
    simp only [free, List.not_mem_nil, not_false_eq_true, and_true]
    omega

/-- One slot of one page rewritten in place. -/
structure SlotWritten (store : PageStore) (rid : RID) (row : TupleMeta × RowBytes) (after : PageStore) :
    Prop where
  present : ∃ old, store.getRow rid = some old
  rows : after.rows = update store.rows rid.pageId ((store.rows rid.pageId).set rid.slotNum row)
  freePages : after.freePages = store.freePages
  nextPageId : after.nextPageId = store.nextPageId

namespace SlotWritten

variable {store after : PageStore} {rid : RID} {row : TupleMeta × RowBytes}

theorem getRow_self (written : SlotWritten store rid row after) : after.getRow rid = some row := by
  obtain ⟨old, present⟩ := written.present
  rw [PageStore.getRow_eq] at present ⊢
  rw [written.rows, update_self]
  exact List.getElem?_set_self (List.getElem?_eq_some_iff.mp present).1

theorem getRow_other (written : SlotWritten store rid row after) {other : RID} (apart : other ≠ rid) :
    after.getRow other = store.getRow other := by
  rw [PageStore.getRow_eq, PageStore.getRow_eq, written.rows]
  by_cases samePage : other.pageId = rid.pageId
  · have slots : rid.slotNum ≠ other.slotNum := by
      intro sameSlot
      cases other
      cases rid
      simp_all
    rw [samePage, update_self, List.getElem?_set_ne slots]
  · rw [update_of_ne samePage]

end SlotWritten

variable {old : TupleMeta × RowBytes} {rid : RID}

theorem slotWritten_updateTupleMeta
    {tupleMeta : TupleMeta} {page : TablePage} (present : store.getRow rid = some old)
    (done : (store.pages rid.pageId).updateTupleMeta tupleMeta rid.slotNum = some page) :
    SlotWritten store rid (tupleMeta, old.2) (store.write rid.pageId page) := by
  have here := present
  rw [PageStore.getRow_eq] at here
  obtain ⟨next, updated, rows⟩ := (store.pages rid.pageId).updateTupleMeta_eq tupleMeta here
  rw [updated] at done
  cases done
  exact ⟨⟨old, present⟩, by rw [rows_write, rows]; rfl, rfl, rfl⟩

theorem slotWritten_updateRow
    {tupleMeta : TupleMeta} {row : RowBytes} {page : TablePage} (present : store.getRow rid = some old)
    (done : (store.pages rid.pageId).updateRow tupleMeta row rid.slotNum = .updated page) :
    SlotWritten store rid (tupleMeta, row) (store.write rid.pageId page) := by
  have here := present
  rw [PageStore.getRow_eq] at here
  rcases (store.pages rid.pageId).updateRow_eq tupleMeta row here with
    ⟨-, next, updated, rows⟩ | ⟨-, refused | undefined⟩
  · rw [updated] at done
    cases done
    exact ⟨⟨old, present⟩, by rw [rows_write, rows]; rfl, rfl, rfl⟩
  · rw [refused] at done
    cases done
  · rw [undefined] at done
    cases done

end PageStore

namespace TableHeap

inductive AppendResult where
  | appended (rid : RID) (heap : TableHeap) (store : PageStore)
  | tooLarge (heap : TableHeap) (store : PageStore)

/-- A heap starts with one initialised page. -/
def create (store : PageStore) : TableHeap × PageStore :=
  let (pageId, allocated) := store.newPage
  (⟨pageId, pageId, [pageId]⟩, allocated.write pageId (TablePage.init (allocated.pages pageId).overlay))

/-- The retry loop runs at most twice: the second page is empty. -/
def appendRowBytes (heap : TableHeap) (store : PageStore) (tupleMeta : TupleMeta) (row : RowBytes) :
    AppendResult :=
  let last := store.pages heap.lastPageId
  match last.insertRow tupleMeta row with
  | some (slot, page) => .appended ⟨heap.lastPageId, slot⟩ heap (store.write heap.lastPageId page)
  | none =>
    if last.getNumTuples = 0 then .tooLarge heap store
    else
      let (newPageId, allocated) := store.newPage
      let fresh := TablePage.init (allocated.pages newPageId).overlay
      let linked := (allocated.write heap.lastPageId (last.setNextPageId newPageId)).write newPageId fresh
      let grown : TableHeap := { heap with
        lastPageId := newPageId
        pageDirectory := heap.pageDirectory ++ [newPageId] }
      match fresh.insertRow tupleMeta row with
      | some (slot, page) => .appended ⟨newPageId, slot⟩ grown (linked.write newPageId page)
      | none => .tooLarge grown linked

def freeAllPages (heap : TableHeap) (store : PageStore) : PageStore :=
  heap.pageDirectory.foldl PageStore.deletePage store

theorem freeAllPages_eq (heap : TableHeap) (store : PageStore) :
    heap.freeAllPages store = { store with freePages := heap.pageDirectory.reverse ++ store.freePages } := by
  unfold freeAllPages
  induction heap.pageDirectory generalizing store with
  | nil => rfl
  | cons first rest ih => simp [ih, PageStore.deletePage]

variable {store : PageStore} {rid : RID}

theorem sound_freeAllPages {heap : TableHeap} (sound : store.Sound) (distinct : heap.pageDirectory.Nodup)
    (allocated : ∀ p ∈ heap.pageDirectory, store.Allocated p) : (heap.freeAllPages store).Sound := by
  rw [freeAllPages_eq]
  constructor
  · refine List.Nodup.append (List.nodup_reverse.mpr distinct) sound.distinct ?_
    intro p inside free
    exact (allocated p (List.mem_reverse.mp inside)).2 free
  · intro p member
    rcases List.mem_append.mp member with inside | free
    · exact (allocated p (List.mem_reverse.mp inside)).1
    · exact sound.bounded p free

theorem allocated_freeAllPages (heap : TableHeap) (store : PageStore) (pageId : Int) :
    (heap.freeAllPages store).Allocated pageId ↔
      store.Allocated pageId ∧ pageId ∉ heap.pageDirectory := by
  rw [freeAllPages_eq]
  simp only [PageStore.Allocated, List.mem_append]
  grind

/-- What the append loop may do before it places the row: nothing, or link an empty page. -/
inductive Grew (heap : TableHeap) (store : PageStore) : TableHeap → PageStore → Prop
  | kept : Grew heap store heap store
  | linked (after : PageStore)
      (rows : after.rows = update store.rows store.newPage.1 [])
      (freePages : after.freePages = store.newPage.2.freePages)
      (nextPageId : after.nextPageId = store.newPage.2.nextPageId) :
      Grew heap store { heap with
        lastPageId := store.newPage.1
        pageDirectory := heap.pageDirectory ++ [store.newPage.1] } after

theorem Grew.listed {heap grown : TableHeap} {linked : PageStore} {pageId : Int}
    (grew : Grew heap store grown linked) (listed : pageId ∈ heap.pageDirectory) :
    pageId ∈ grown.pageDirectory := by
  cases grew with
  | kept => exact listed
  | linked => exact List.mem_append_left _ listed

theorem Grew.getRow {heap grown : TableHeap} {linked : PageStore} (grew : Grew heap store grown linked)
    (old : rid.pageId ≠ store.newPage.1) : linked.getRow rid = store.getRow rid := by
  cases grew with
  | kept => rfl
  | linked after rows =>
    rw [PageStore.getRow_eq, PageStore.getRow_eq, rows, update_of_ne old]

theorem rows_create (store : PageStore) : (create store).2.rows = update store.rows store.newPage.1 [] := by
  simp only [create, PageStore.rows_write, PageStore.newPage_rows, TablePage.rows_init]

/-- Placing a row in a page that has room for it. -/
structure Placed (store : PageStore) (pageId : Int) (row : TupleMeta × RowBytes) (after : PageStore) :
    Prop where
  rows : after.rows = update store.rows pageId (store.rows pageId ++ [row])
  freePages : after.freePages = store.freePages
  nextPageId : after.nextPageId = store.nextPageId

theorem placed_write {pageId : Int} {row : TupleMeta × RowBytes} (page : TablePage)
    (rows : page.rows = store.rows pageId ++ [row]) : Placed store pageId row (store.write pageId page) :=
  ⟨by rw [PageStore.rows_write, rows], rfl, rfl⟩

namespace Placed

variable {store after : PageStore} {pageId : Int} {row : TupleMeta × RowBytes}

section
variable (placed : Placed store pageId row after)
include placed

theorem getRow_new : after.getRow ⟨pageId, (store.rows pageId).length⟩ = some row := by
  rw [PageStore.getRow_eq, placed.rows, update_self]
  exact List.getElem?_concat_length

theorem getRow_other
    (apart : rid ≠ ⟨pageId, (store.rows pageId).length⟩) : after.getRow rid = store.getRow rid := by
  rw [PageStore.getRow_eq, PageStore.getRow_eq, placed.rows]
  by_cases samePage : rid.pageId = pageId
  · have slots : rid.slotNum ≠ (store.rows pageId).length := by
      intro sameSlot
      cases rid
      simp_all
    rw [samePage, update_self]
    by_cases inside : rid.slotNum < (store.rows pageId).length
    · rw [List.getElem?_append_left inside]
    · rw [List.getElem?_eq_none (by simp; omega), List.getElem?_eq_none (by omega)]
  · rw [update_of_ne samePage]

theorem getRow_kept {old : TupleMeta × RowBytes} (found : store.getRow rid = some old) :
    after.getRow rid = some old := by
  have apart : rid ≠ ⟨pageId, (store.rows pageId).length⟩ := by
    intro same
    rw [same, PageStore.getRow_eq, List.getElem?_eq_none (Nat.le_refl _)] at found
    cases found
  rw [placed.getRow_other apart]
  exact found

end

theorem getRow_absent (store : PageStore) (pageId : Int) :
    store.getRow ⟨pageId, (store.rows pageId).length⟩ = none := by
  rw [PageStore.getRow_eq]
  exact List.getElem?_eq_none (Nat.le_refl _)

end Placed

theorem appendRowBytes_spec (heap : TableHeap) (store : PageStore) (tupleMeta : TupleMeta) (row : RowBytes) :
    ∃ grown linked, Grew heap store grown linked ∧
      (appendRowBytes heap store tupleMeta row = .tooLarge grown linked ∨
        ∃ after, Placed linked grown.lastPageId (tupleMeta, row) after ∧
          appendRowBytes heap store tupleMeta row =
            .appended ⟨grown.lastPageId, (linked.rows grown.lastPageId).length⟩ grown after) := by
  rcases (store.pages heap.lastPageId).insertRow_eq tupleMeta row with
    ⟨-, page, inserted, rows⟩ | ⟨-, full⟩
  · refine ⟨heap, store, Grew.kept, .inr ⟨store.write heap.lastPageId page, placed_write page rows, ?_⟩⟩
    simp only [appendRowBytes, inserted]
    rfl
  · by_cases empty : (store.pages heap.lastPageId).getNumTuples = 0
    · refine ⟨heap, store, Grew.kept, .inl ?_⟩
      simp only [appendRowBytes, full, if_pos empty]
    · have linkedRows : ((store.newPage.2.write heap.lastPageId
            ((store.pages heap.lastPageId).setNextPageId store.newPage.1)).write store.newPage.1
            (TablePage.init (store.newPage.2.pages store.newPage.1).overlay)).rows =
          update store.rows store.newPage.1 [] := by
        have same : ((store.pages heap.lastPageId).setNextPageId store.newPage.1).rows =
            store.rows heap.lastPageId := rfl
        rw [PageStore.rows_write, PageStore.rows_write, PageStore.newPage_rows, same,
          update_eq_self, TablePage.rows_init]
      refine ⟨_, _, Grew.linked _ linkedRows rfl rfl, ?_⟩
      rcases (TablePage.init (store.newPage.2.pages store.newPage.1).overlay).insertRow_eq tupleMeta row with
        ⟨-, page, inserted, rows⟩ | ⟨-, oversized⟩
      · right
        have here := congrFun linkedRows store.newPage.1
        rw [update_self] at here
        refine ⟨_, placed_write page ?_, ?_⟩
        · rw [here, rows, TablePage.rows_init]
        · simp only [appendRowBytes, full, if_neg empty, inserted, here, TablePage.rows_init]
      · left
        simp only [appendRowBytes, full, if_neg empty, oversized]

end TableHeap

end BumbleBee.Storage
