import Knowdy.Lib.Linked
import Knowdy.WorkerMemory

/-! # The memory pool

`knd_mempool.c`: a pool has five classes of pages, each a buffer of its own, and hands the pages out in one of
three ways: one after the other, from a list that runs through the pages themselves, or from such a list with
atomic accesses.

1. the pool and the memory,
2. `alloc_capacity` and its helpers,
3. `knd_mempool_page` and `knd_mempool_free`,
4. where the pages lie,
5. what `alloc_capacity` leaves. -/

namespace Knowdy

namespace Mempool

/-! ## (1) The pool and the memory -/

/-- `knd_mempage_t`. -/
inductive PageType where
  | large | baseX4 | baseX2 | base | smallX4 | smallX2 | small | tiny
  deriving DecidableEq, Repr

/-- The class of a page type: the types that no `case` names are base pages. -/
def PageType.kind : PageType → MemPage
  | .smallX4 => .smallX4
  | .smallX2 => .smallX2
  | .small => .small
  | .tiny => .tiny
  | _ => .base

/-- `knd_mempool_t`. -/
inductive PoolType where
  | incr | list | shared
  deriving DecidableEq, Repr

/-- The fields of `struct kndMemPool` for one class of pages. -/
structure Pages where
  /-- `pages`: the buffer. -/
  pages : Nat := 0
  pageSize : Nat := 0
  numPages : Nat := 0
  pagesUsed : Nat := 0
  pageList : Option Nat := none
  sharedPageList : Option Nat := none
  sharedPagesUsed : Nat := 0
  deriving DecidableEq, Repr

/-- `struct kndMemPool`. -/
structure KndMemPool where
  type : PoolType
  capacity : Nat := 0
  cls : MemPage → Pages := fun _ => {}

/-- The pool and the memory its pages lie in. -/
structure Memory where
  pool : KndMemPool
  /-- The pointer that is read at an address: `page->next` for a page. -/
  next : Nat → Option Nat

namespace Memory

/-- The fields of a class. -/
def cls (self : Memory) (kind : MemPage) : Pages := self.pool.cls kind

/-- The fields of a class are set. -/
def setCls (self : Memory) (kind : MemPage) (cls : Pages) : Memory :=
  { self with pool := { self.pool with cls := Function.update self.pool.cls kind cls } }

/-- `page->next = next`. -/
def setNext (self : Memory) (page : Nat) (next : Option Nat) : Memory :=
  { self with next := Function.update self.next page next }

/-- The owner of a page fills it: every pointer is lost whose bytes touch the page. -/
def fill (self : Memory) (kind : MemPage) (page : Nat) (data : Nat → Option Nat) : Memory :=
  { self with
    next := fun a => if page < a + 8 ∧ a < page + (self.cls kind).pageSize then data a else self.next a }

@[simp] theorem setCls_next (self : Memory) (kind : MemPage) (cls : Pages) :
    (self.setCls kind cls).next = self.next := rfl

@[simp] theorem setCls_type (self : Memory) (kind : MemPage) (cls : Pages) :
    (self.setCls kind cls).pool.type = self.pool.type := rfl

@[simp] theorem cls_setNext (self : Memory) (page : Nat) (next : Option Nat) :
    (self.setNext page next).cls = self.cls := rfl

@[simp] theorem cls_fill (self : Memory) (kind : MemPage) (page : Nat) (data : Nat → Option Nat) :
    (self.fill kind page data).cls = self.cls := rfl

@[simp] theorem cls_setCls_self (self : Memory) (kind : MemPage) (cls : Pages) :
    (self.setCls kind cls).cls kind = cls :=
  Function.update_self ..

theorem cls_setCls_of_ne (self : Memory) {kind kind' : MemPage} (cls : Pages) (h : kind' ≠ kind) :
    (self.setCls kind cls).cls kind' = self.cls kind' :=
  Function.update_of_ne h ..

/-- What a new value of the class leaves as it was, is as it was in all classes. -/
theorem cls_setCls_proj {β : Type} (self : Memory) (kind : MemPage) (cls : Pages) (f : Pages → β)
    (h : f cls = f (self.cls kind)) (kind' : MemPage) :
    f ((self.setCls kind cls).cls kind') = f (self.cls kind') := by
  by_cases heq : kind' = kind
  · subst heq
    rw [cls_setCls_self, h]
  · rw [cls_setCls_of_ne self cls heq]

end Memory

/-! ## (2) `alloc_capacity` -/

/-- `KND_NUM_BASE_MEMPAGES` and its siblings. -/
def defaultNumPages : MemPage → Nat := fun _ => 10000

/-- `KND_BASE_MEMPAGE_SIZE` and its siblings. -/
def defaultPageSize : MemPage → Nat
  | .base => 1024
  | .smallX4 => 512
  | .smallX2 => 256
  | .small => 128
  | .tiny => 64

/-- The number of pages and their size in the settings of a pool, zero for none. -/
structure Setting where
  numPages : Nat := 0
  pageSize : Nat := 0
  deriving DecidableEq, Repr

namespace Setting

/-- The number of pages that is asked for. -/
def num (self : Setting) (kind : MemPage) : Nat :=
  if self.numPages = 0 then defaultNumPages kind else self.numPages

/-- The page size that is asked for. -/
def size (self : Setting) (kind : MemPage) : Nat :=
  if self.pageSize = 0 then defaultPageSize kind else self.pageSize

end Setting

/-- **What `calloc` gives** for the five buffers of a pool: none, or a buffer within the address space that is
apart from the others. -/
structure Calloc (settings : MemPage → Setting) where
  result : MemPage → Option Nat
  inRange : ∀ kind pages, result kind = some pages →
    pages + (settings kind).size kind * (settings kind).num kind < 2 ^ 64
  apart : ∀ kind kind' pages pages', kind ≠ kind' → result kind = some pages → result kind' = some pages' →
    pages + (settings kind).size kind * (settings kind).num kind ≤ pages' ∨
      pages' + (settings kind').size kind' * (settings kind').num kind' ≤ pages

/-- `knd_mempool_new` and the settings. -/
def kndMempoolNew (type : PoolType) (settings : MemPage → Setting) : KndMemPool where
  type
  cls kind := { numPages := (settings kind).numPages, pageSize := (settings kind).pageSize }

variable {settings : MemPage → Setting}

/-- `alloc_page_buf`: a page has to be larger than `struct kndMemPageHeader`. -/
def allocPageBuf (calloc : Calloc settings) (pool : KndMemPool) (kind : MemPage) : Except KndErr KndMemPool :=
  let setting : Setting := { numPages := (pool.cls kind).numPages, pageSize := (pool.cls kind).pageSize }
  let numPages := setting.num kind
  let pageSize := setting.size kind
  if pageSize ≤ 8 then .error .limit
  else
    match calloc.result kind with
    | none => .error .nomem
    | some pages =>
        .ok { pool with
          capacity := pool.capacity + numPages * pageSize
          cls := Function.update pool.cls kind { pool.cls kind with pages, pageSize, numPages } }

/-- `build_linked_list`: what it stores in `*page_list`, and the pointers it leaves. -/
def buildLinkedList (pageSize : Nat) : Nat → Nat → (Nat → Option Nat) → Option Nat × (Nat → Option Nat)
  | 0, _, next => (none, next)
  | numPages + 1, pages, next =>
      let rest := buildLinkedList pageSize numPages (pages + pageSize) next
      (some pages, Function.update rest.2 pages rest.1)

/-- The list of one class is built. -/
def buildList (self : Memory) (kind : MemPage) : Memory :=
  let cls := self.cls kind
  let built := buildLinkedList cls.pageSize cls.numPages cls.pages self.next
  { self.setCls kind { cls with pageList := built.1 } with next := built.2 }

/-- The heads are stored for the atomic accesses. -/
def storeShared (self : Memory) : Memory :=
  { self with
    pool := { self.pool with
      cls := fun kind => { self.pool.cls kind with sharedPageList := (self.pool.cls kind).pageList } } }

/-- The classes in the order of `alloc_capacity`. -/
def kinds : List MemPage := [.base, .smallX4, .smallX2, .small, .tiny]

/-- `alloc_capacity`; `next` is what was in the memory. -/
def allocCapacity (calloc : Calloc settings) (pool : KndMemPool) (next : Nat → Option Nat) :
    Except KndErr Memory := do
  let pool ← kinds.foldlM (allocPageBuf calloc) pool
  let memory : Memory := { pool, next }
  match pool.type with
  | .shared => pure (storeShared (kinds.foldl buildList memory))
  | .list => pure (kinds.foldl buildList memory)
  | .incr => pure memory

/-! ## (3) `knd_mempool_page` and `knd_mempool_free` -/

/-- `get_shared_page`, without another call between its accesses. -/
def getSharedPage (self : Memory) (kind : MemPage) : Except KndErr (Nat × Memory) :=
  match (self.cls kind).sharedPageList with
  | none => .error .nomem
  | some page =>
      .ok (page, self.setCls kind { self.cls kind with
        sharedPageList := self.next page
        sharedPagesUsed := ((self.cls kind).sharedPagesUsed + 1) % 2 ^ 64 })

/-- `get_page`. -/
def getPage (self : Memory) (kind : MemPage) : Except KndErr (Nat × Memory) :=
  match (self.cls kind).pageList with
  | none => .error .nomem
  | some page =>
      .ok (page, self.setCls kind { self.cls kind with
        pageList := self.next page
        pagesUsed := ((self.cls kind).pagesUsed + 1) % 2 ^ 64 })

/-- `knd_mempool_page` for a pool of type `KND_ALLOC_INCR`. -/
def getIncrPage (self : Memory) (kind : MemPage) : Except KndErr (Nat × Memory) :=
  let cls := self.cls kind
  if (cls.pagesUsed + 1) % 2 ^ 64 > cls.numPages then .error .nomem
  else
    .ok (cls.pages + cls.pageSize * cls.pagesUsed % 2 ^ 64,
      self.setCls kind { cls with pagesUsed := (cls.pagesUsed + 1) % 2 ^ 64 })

/-- `knd_mempool_page`. -/
def kndMempoolPage (self : Memory) (type : PageType) : Except KndErr (Nat × Memory) :=
  match self.pool.type with
  | .shared => getSharedPage self type.kind
  | .list => getPage self type.kind
  | .incr => getIncrPage self type.kind

/-- The decrement of a `size_t`: it wraps around at zero. -/
def sizeDec (n : Nat) : Nat := if n = 0 then 2 ^ 64 - 1 else n - 1

theorem sizeDec_of_pos {n : Nat} (h : 0 < n) : sizeDec n = n - 1 :=
  if_neg (Nat.ne_of_gt h)

/-- A class after a page was pushed on its list. -/
def Pages.pushed (self : Pages) (page : Nat) : Pages :=
  { self with pageList := some page, pagesUsed := sizeDec self.pagesUsed }

@[simp] theorem Pages.pagesUsed_pushed (self : Pages) (page : Nat) :
    (self.pushed page).pagesUsed = sizeDec self.pagesUsed := rfl

@[simp] theorem Pages.pageSize_pushed (self : Pages) (page : Nat) : (self.pushed page).pageSize = self.pageSize := rfl

@[simp] theorem Pages.numPages_pushed (self : Pages) (page : Nat) : (self.pushed page).numPages = self.numPages := rfl

@[simp] theorem Pages.pages_pushed (self : Pages) (page : Nat) : (self.pushed page).pages = self.pages := rfl

/-- `knd_mempool_free`, whatever the type of the pool. -/
def kndMempoolFree (self : Memory) (type : PageType) (page : Nat) : Memory :=
  (self.setNext page (self.cls type.kind).pageList).setCls type.kind ((self.cls type.kind).pushed page)

@[simp] theorem kndMempoolFree_type (self : Memory) (type : PageType) (page : Nat) :
    (kndMempoolFree self type page).pool.type = self.pool.type := rfl

@[simp] theorem cls_kndMempoolFree_self (self : Memory) (type : PageType) (page : Nat) :
    (kndMempoolFree self type page).cls type.kind = (self.cls type.kind).pushed page :=
  Memory.cls_setCls_self ..

theorem cls_kndMempoolFree_of_ne (self : Memory) (type : PageType) (page : Nat) {kind : MemPage}
    (h : kind ≠ type.kind) : (kndMempoolFree self type page).cls kind = self.cls kind :=
  Memory.cls_setCls_of_ne _ _ h

/-! ## (4) Where the pages lie -/

/-- Two pieces of memory without a common byte. -/
def Apart (a n b m : Nat) : Prop := a + n ≤ b ∨ b + m ≤ a

instance (a n b m : Nat) : Decidable (Apart a n b m) := inferInstanceAs (Decidable (a + n ≤ b ∨ b + m ≤ a))

/-- The pages of a buffer. -/
def pagesFrom (pageSize : Nat) : Nat → Nat → List Nat
  | 0, _ => []
  | numPages + 1, pages => pages :: pagesFrom pageSize numPages (pages + pageSize)

@[simp] theorem mem_pagesFrom {pageSize numPages : Nat} {pages page : Nat} :
    page ∈ pagesFrom pageSize numPages pages ↔ ∃ i < numPages, page = pages + pageSize * i := by
  induction numPages generalizing pages with
  | zero => simp [pagesFrom]
  | succ n ih =>
      rw [pagesFrom, List.mem_cons, ih]
      constructor
      · rintro (rfl | ⟨i, hi, rfl⟩)
        · exact ⟨0, Nat.succ_pos n, by simp⟩
        · exact ⟨i + 1, Nat.succ_lt_succ hi, by rw [Nat.mul_succ]; omega⟩
      · rintro ⟨i, hi, rfl⟩
        cases i with
        | zero => exact .inl (by simp)
        | succ i => exact .inr ⟨i, Nat.lt_of_succ_lt_succ hi, by rw [Nat.mul_succ]; omega⟩

@[simp] theorem length_pagesFrom (pageSize numPages : Nat) (pages : Nat) :
    (pagesFrom pageSize numPages pages).length = numPages := by
  induction numPages generalizing pages with
  | zero => rfl
  | succ n ih => rw [pagesFrom, List.length_cons, ih]

theorem nodup_pagesFrom {pageSize : Nat} (h : 0 < pageSize) (numPages : Nat) (pages : Nat) :
    (pagesFrom pageSize numPages pages).Nodup := by
  induction numPages generalizing pages with
  | zero => exact List.nodup_nil
  | succ n ih =>
      refine List.nodup_cons.mpr ⟨fun hmem => ?_, ih _⟩
      obtain ⟨i, -, hi⟩ := mem_pagesFrom.mp hmem
      omega

/-- One page more is one page at the end. -/
theorem pagesFrom_succ (pageSize numPages : Nat) (pages : Nat) :
    pagesFrom pageSize (numPages + 1) pages =
      pagesFrom pageSize numPages pages ++ [pages + pageSize * numPages] := by
  induction numPages generalizing pages with
  | zero => rfl
  | succ n ih =>
      rw [pagesFrom, ih, pagesFrom, List.cons_append, Nat.mul_succ, Nat.add_assoc,
        Nat.add_comm pageSize (pageSize * n)]

/-- The pages of a class. -/
def KndMemPool.pagesOf (self : KndMemPool) (kind : MemPage) : List Nat :=
  pagesFrom (self.cls kind).pageSize (self.cls kind).numPages (self.cls kind).pages

/-- **The buffers of a pool** are apart and within the address space, and a page holds a header. -/
structure KndMemPool.Laid (pool : KndMemPool) : Prop where
  header : ∀ kind, 8 < (pool.cls kind).pageSize
  inRange : ∀ kind, (pool.cls kind).pages + (pool.cls kind).pageSize * (pool.cls kind).numPages < 2 ^ 64
  apart : ∀ kind kind', kind ≠ kind' →
    Apart (pool.cls kind).pages ((pool.cls kind).pageSize * (pool.cls kind).numPages)
      (pool.cls kind').pages ((pool.cls kind').pageSize * (pool.cls kind').numPages)

namespace KndMemPool.Laid

variable {pool pool' : KndMemPool} {kind kind' : MemPage} {page page' : Nat}

theorem nodup_pagesOf (h : pool.Laid) (kind : MemPage) : (pool.pagesOf kind).Nodup :=
  nodup_pagesFrom (Nat.lt_of_le_of_lt (Nat.zero_le 8) (h.header kind)) ..

/-- A page is in the buffer of its class. -/
theorem mem_bounds (hmem : page ∈ pool.pagesOf kind) :
    (pool.cls kind).pages ≤ page ∧
      page + (pool.cls kind).pageSize ≤
        (pool.cls kind).pages + (pool.cls kind).pageSize * (pool.cls kind).numPages := by
  obtain ⟨i, hi, rfl⟩ := mem_pagesFrom.mp hmem
  have hle : (pool.cls kind).pageSize * (i + 1) ≤ (pool.cls kind).pageSize * (pool.cls kind).numPages :=
    Nat.mul_le_mul_left _ hi
  rw [Nat.mul_succ] at hle
  omega

/-- **Two pages have no common byte.** -/
theorem apart_pages (h : pool.Laid) (hmem : page ∈ pool.pagesOf kind) (hmem' : page' ∈ pool.pagesOf kind')
    (hne : (kind, page) ≠ (kind', page')) :
    Apart page (pool.cls kind).pageSize page' (pool.cls kind').pageSize := by
  by_cases hkind : kind = kind'
  · subst hkind
    obtain ⟨i, -, rfl⟩ := mem_pagesFrom.mp hmem
    obtain ⟨j, -, rfl⟩ := mem_pagesFrom.mp hmem'
    have hij : i ≠ j := by
      rintro rfl
      exact hne rfl
    rcases Nat.lt_or_gt_of_ne hij with hlt | hlt
    · have hle := Nat.mul_le_mul_left (pool.cls kind).pageSize (Nat.succ_le_of_lt hlt)
      rw [Nat.mul_succ] at hle
      exact .inl (by omega)
    · have hle := Nat.mul_le_mul_left (pool.cls kind).pageSize (Nat.succ_le_of_lt hlt)
      rw [Nat.mul_succ] at hle
      exact .inr (by omega)
  · have hb := mem_bounds hmem
    have hb' := mem_bounds hmem'
    rcases h.apart kind kind' hkind with hlt | hlt
    · exact .inl (by omega)
    · exact .inr (by omega)

/-- The pages of one class are fewer than a counter can hold. -/
theorem numPages_lt (h : pool.Laid) (kind : MemPage) : (pool.cls kind).numPages + 1 < 2 ^ 64 := by
  have hrange := h.inRange kind
  have hle : 9 * (pool.cls kind).numPages ≤ (pool.cls kind).pageSize * (pool.cls kind).numPages :=
    Nat.mul_le_mul_right _ (h.header kind)
  omega

end KndMemPool.Laid

namespace Memory

/-- **The owner of a page touches no other page**, in particular not its header. -/
theorem next_fill {self : Memory} (h : self.pool.Laid) {kind kind' : MemPage} {page page' : Nat}
    (data : Nat → Option Nat) (hmem : page ∈ self.pool.pagesOf kind) (hmem' : page' ∈ self.pool.pagesOf kind')
    (hne : (kind, page) ≠ (kind', page')) : (self.fill kind page data).next page' = self.next page' := by
  have hapart := h.apart_pages hmem hmem' hne
  have hheader := h.header kind'
  refine if_neg fun hin => ?_
  rcases hapart with hlt | hlt
  · exact absurd hin.2 (Nat.not_lt.mpr hlt)
  · omega

end Memory

/-- The geometry of a pool: what `knd_mempool_page` and `knd_mempool_free` never write. -/
def Pages.geometry (self : Pages) : Nat × Nat × Nat := (self.pages, self.pageSize, self.numPages)

/-- The same buffers. -/
theorem KndMemPool.Laid.congr {pool pool' : KndMemPool} (h : pool.Laid)
    (heq : ∀ kind, (pool'.cls kind).geometry = (pool.cls kind).geometry) : pool'.Laid := by
  have hpages := fun kind => congrArg Prod.fst (heq kind)
  have hsize := fun kind => congrArg (Prod.fst ∘ Prod.snd) (heq kind)
  have hnum := fun kind => congrArg (Prod.snd ∘ Prod.snd) (heq kind)
  simp only [Pages.geometry, Function.comp_apply] at hpages hsize hnum
  constructor
  · intro kind
    rw [hsize]
    exact h.header kind
  · intro kind
    rw [hpages, hsize, hnum]
    exact h.inRange kind
  · intro kind kind' hne
    rw [hpages, hsize, hnum, hpages, hsize, hnum]
    exact h.apart kind kind' hne

/-- `knd_mempool_free` leaves the buffers where they are. -/
theorem geometry_kndMempoolFree (self : Memory) (type : PageType) (page : Nat) (kind : MemPage) :
    ((kndMempoolFree self type page).cls kind).geometry = (self.cls kind).geometry := by
  by_cases hkind : kind = type.kind
  · subst hkind
    simp only [cls_kndMempoolFree_self, Pages.geometry, Pages.pushed]
  · rw [cls_kndMempoolFree_of_ne _ _ _ hkind]

theorem KndMemPool.pagesOf_congr {pool pool' : KndMemPool} {kind : MemPage}
    (heq : (pool'.cls kind).geometry = (pool.cls kind).geometry) : pool'.pagesOf kind = pool.pagesOf kind := by
  simp only [Pages.geometry, Prod.mk.injEq] at heq
  rw [pagesOf, pagesOf, heq.1, heq.2.1, heq.2.2]

/-! ## (5) What `alloc_capacity` leaves -/

/-- A pool as `alloc_capacity` leaves it: no page is handed out, and the list of each class runs through all of
its pages. -/
structure Fresh (memory : Memory) : Prop where
  laid : memory.pool.Laid
  unused : ∀ kind, (memory.cls kind).pagesUsed = 0 ∧ (memory.cls kind).sharedPagesUsed = 0
  listed : memory.pool.type ≠ .incr → ∀ kind,
    Linked memory.next (memory.cls kind).pageList (memory.pool.pagesOf kind)
  shared : memory.pool.type = .shared → ∀ kind, (memory.cls kind).sharedPageList = (memory.cls kind).pageList

/-- A class once its buffer is there. -/
def opened (settings : MemPage → Setting) (kind : MemPage) (pages : Nat) : Pages where
  pages
  pageSize := (settings kind).size kind
  numPages := (settings kind).num kind

theorem allocPageBuf_ok {calloc : Calloc settings} {pool pool' : KndMemPool} {kind : MemPage}
    (hstart : pool.cls kind = (kndMempoolNew pool.type settings).cls kind)
    (h : allocPageBuf calloc pool kind = .ok pool') :
    ∃ pages, calloc.result kind = some pages ∧ 8 < (settings kind).size kind ∧ pool'.type = pool.type ∧
      pool'.cls = Function.update pool.cls kind (opened settings kind pages) := by
  unfold allocPageBuf at h
  simp only [hstart, kndMempoolNew] at h
  by_cases hsize : (settings kind).size kind ≤ 8
  · rw [if_pos hsize] at h
    cases h
  · rw [if_neg hsize] at h
    cases hcalloc : calloc.result kind with
    | none => simp [hcalloc] at h
    | some pages =>
        simp only [hcalloc, Except.ok.injEq] at h
        subst h
        exact ⟨pages, rfl, Nat.lt_of_not_le hsize, rfl, rfl⟩

/-- All buffers: the classes of the list are opened, the others as before. -/
theorem foldlM_allocPageBuf_ok {calloc : Calloc settings} {ks : List MemPage} (hnodup : ks.Nodup)
    {pool pool' : KndMemPool} (hstart : ∀ kind ∈ ks, pool.cls kind = (kndMempoolNew pool.type settings).cls kind)
    (h : ks.foldlM (allocPageBuf calloc) pool = .ok pool') :
    pool'.type = pool.type ∧ (∀ kind ∉ ks, pool'.cls kind = pool.cls kind) ∧
      ∀ kind ∈ ks, ∃ pages, calloc.result kind = some pages ∧ 8 < (settings kind).size kind ∧
        pool'.cls kind = opened settings kind pages := by
  induction ks generalizing pool with
  | nil =>
      cases h
      exact ⟨rfl, fun _ _ => rfl, by simp⟩
  | cons k ks ih =>
      rw [List.foldlM_cons] at h
      cases hk : allocPageBuf calloc pool k with
      | error err => simp [hk, bind, Except.bind] at h
      | ok mid =>
          obtain ⟨pages, hcalloc, hsize, htype, hcls⟩ := allocPageBuf_ok (hstart k (List.mem_cons_self ..)) hk
          obtain ⟨hk', hnodup⟩ := List.nodup_cons.mp hnodup
          have hrest : ks.foldlM (allocPageBuf calloc) mid = .ok pool' := by simpa [hk, bind, Except.bind] using h
          have hother : ∀ kind, kind ≠ k → mid.cls kind = pool.cls kind := fun kind hne => by
            rw [hcls, Function.update_of_ne hne]
          have hstart' : ∀ kind ∈ ks, mid.cls kind = (kndMempoolNew mid.type settings).cls kind := by
            intro kind hkind
            rw [hother kind (by rintro rfl; exact hk' hkind), hstart kind (List.mem_cons_of_mem k hkind)]
            rfl
          obtain ⟨htype', hout, hin⟩ := ih hnodup hstart' hrest
          refine ⟨htype'.trans htype, fun kind hkind => ?_, fun kind hkind => ?_⟩
          · rw [List.mem_cons, not_or] at hkind
            rw [hout kind hkind.2, hother kind hkind.1]
          · rcases List.mem_cons.mp hkind with rfl | hkind
            · refine ⟨pages, hcalloc, hsize, ?_⟩
              rw [hout kind hk', hcls, Function.update_self]
            · exact hin kind hkind

/-- The opened classes lie apart. -/
theorem laid_opened {calloc : Calloc settings} {pool : KndMemPool}
    (h : ∀ kind, ∃ pages, calloc.result kind = some pages ∧ 8 < (settings kind).size kind ∧
      pool.cls kind = opened settings kind pages) : pool.Laid := by
  constructor
  · intro kind
    obtain ⟨pages, -, hsize, hcls⟩ := h kind
    rw [hcls]
    exact hsize
  · intro kind
    obtain ⟨pages, hcalloc, -, hcls⟩ := h kind
    rw [hcls]
    exact calloc.inRange kind pages hcalloc
  · intro kind kind' hne
    obtain ⟨pages, hcalloc, -, hcls⟩ := h kind
    obtain ⟨pages', hcalloc', -, hcls'⟩ := h kind'
    rw [hcls, hcls']
    exact calloc.apart kind kind' pages pages' hne hcalloc hcalloc'

/-- `build_linked_list` writes into the headers of the pages only. -/
theorem buildLinkedList_of_notMem {pageSize numPages : Nat} {pages a : Nat} {next : Nat → Option Nat}
    (h : a ∉ pagesFrom pageSize numPages pages) :
    (buildLinkedList pageSize numPages pages next).2 a = next a := by
  induction numPages generalizing pages with
  | zero => rfl
  | succ n ih =>
      rw [pagesFrom, List.mem_cons, not_or] at h
      simp only [buildLinkedList]
      rw [Function.update_of_ne h.1, ih h.2]

/-- **`build_linked_list`**: the list runs through the pages of the buffer. -/
theorem linked_buildLinkedList {pageSize : Nat} (hsize : 0 < pageSize) (numPages pages : Nat)
    (next : Nat → Option Nat) :
    Linked (buildLinkedList pageSize numPages pages next).2 (buildLinkedList pageSize numPages pages next).1
      (pagesFrom pageSize numPages pages) := by
  induction numPages generalizing pages with
  | zero => exact .nil
  | succ n ih =>
      have hnodup := nodup_pagesFrom hsize (n + 1) pages
      exact (ih (pages + pageSize)).push (List.nodup_cons.mp hnodup).1

theorem cls_buildList (self : Memory) (kind : MemPage) :
    (buildList self kind).cls = (self.setCls kind { self.cls kind with
      pageList := (buildLinkedList (self.cls kind).pageSize (self.cls kind).numPages (self.cls kind).pages
        self.next).1 }).cls := rfl

theorem geometry_buildList (self : Memory) (kind kind' : MemPage) :
    ((buildList self kind).cls kind').geometry = (self.cls kind').geometry := by
  rw [cls_buildList]
  exact Memory.cls_setCls_proj self kind _ Pages.geometry (by rfl) kind'

theorem used_buildList (self : Memory) (kind kind' : MemPage) :
    (((buildList self kind).cls kind').pagesUsed, ((buildList self kind).cls kind').sharedPagesUsed) =
      ((self.cls kind').pagesUsed, (self.cls kind').sharedPagesUsed) := by
  rw [cls_buildList]
  exact Memory.cls_setCls_proj self kind _ (fun cls => (cls.pagesUsed, cls.sharedPagesUsed)) (by rfl) kind'

/-- The list of one class is built; the lists of the classes before are still there. -/
theorem linked_buildList {self : Memory} (hlaid : self.pool.Laid) (kind : MemPage) {kind' : MemPage}
    (h : kind' = kind ∨ Linked self.next (self.cls kind').pageList (self.pool.pagesOf kind')) :
    Linked (buildList self kind).next ((buildList self kind).cls kind').pageList
      ((buildList self kind).pool.pagesOf kind') := by
  rw [KndMemPool.pagesOf_congr (geometry_buildList self kind kind')]
  by_cases heq : kind' = kind
  · subst heq
    have hcls : ((buildList self kind').cls kind').pageList = (buildLinkedList (self.cls kind').pageSize
        (self.cls kind').numPages (self.cls kind').pages self.next).1 :=
      congrArg Pages.pageList (Memory.cls_setCls_self self kind' _)
    rw [hcls]
    exact linked_buildLinkedList (by have := hlaid.header kind'; exact Nat.lt_of_le_of_lt (Nat.zero_le 8) this) ..
  · have hcls : ((buildList self kind).cls kind').pageList = (self.cls kind').pageList :=
      congrArg Pages.pageList (Memory.cls_setCls_of_ne self _ heq)
    rw [hcls]
    refine (h.resolve_left heq).congr fun page hpage => buildLinkedList_of_notMem fun hmem => ?_
    -- a page of one class is no page of the other
    have hapart := hlaid.apart_pages hpage hmem fun hsame => heq (congrArg Prod.fst hsame)
    have hheader := hlaid.header kind
    have hheader' := hlaid.header kind'
    rcases hapart with hlt | hlt <;> omega

theorem foldl_buildList {ks : List MemPage} {self : Memory} (hlaid : self.pool.Laid) :
    (ks.foldl buildList self).pool.type = self.pool.type ∧ (ks.foldl buildList self).pool.Laid ∧
      (∀ kind, (((ks.foldl buildList self).cls kind).pagesUsed, ((ks.foldl buildList self).cls kind).sharedPagesUsed) =
        ((self.cls kind).pagesUsed, (self.cls kind).sharedPagesUsed)) ∧
      ∀ kind, kind ∈ ks ∨ Linked self.next (self.cls kind).pageList (self.pool.pagesOf kind) →
        Linked (ks.foldl buildList self).next ((ks.foldl buildList self).cls kind).pageList
          ((ks.foldl buildList self).pool.pagesOf kind) := by
  induction ks generalizing self with
  | nil => exact ⟨rfl, hlaid, fun _ => rfl, fun kind h => h.resolve_left (List.not_mem_nil)⟩
  | cons k ks ih =>
      have hlaid' : (buildList self k).pool.Laid := hlaid.congr (geometry_buildList self k)
      obtain ⟨htype, hlaid'', hused, hlinked⟩ := ih hlaid'
      rw [List.foldl_cons]
      refine ⟨htype, hlaid'', fun kind => (hused kind).trans (used_buildList self k kind), fun kind h => ?_⟩
      apply hlinked
      rcases h with h | h
      · rcases List.mem_cons.mp h with rfl | h
        · exact .inr (linked_buildList hlaid kind (.inl rfl))
        · exact .inl h
      · exact .inr (linked_buildList hlaid k (.inr h))

theorem mem_kinds (kind : MemPage) : kind ∈ kinds := by
  cases kind <;> decide

/-- **`alloc_capacity` leaves a fresh pool.** -/
theorem fresh_of_allocCapacity {calloc : Calloc settings} {type : PoolType} {next : Nat → Option Nat}
    {memory : Memory} (h : allocCapacity calloc (kndMempoolNew type settings) next = .ok memory) :
    Fresh memory ∧ memory.pool.type = type := by
  unfold allocCapacity at h
  cases hbuf : kinds.foldlM (allocPageBuf calloc) (kndMempoolNew type settings) with
  | error err => simp [hbuf, bind, Except.bind] at h
  | ok pool =>
      obtain ⟨htype, -, hopen⟩ := foldlM_allocPageBuf_ok (by decide) (fun _ _ => rfl) hbuf
      have hopen' := fun kind => hopen kind (mem_kinds kind)
      have hlaid := laid_opened hopen'
      have hunused : ∀ kind, (pool.cls kind).pagesUsed = 0 ∧ (pool.cls kind).sharedPagesUsed = 0 := by
        intro kind
        obtain ⟨pages, -, -, hcls⟩ := hopen' kind
        rw [hcls]
        exact ⟨rfl, rfl⟩
      have hpool : pool.type = type := htype
      obtain ⟨htype', hlaid', hused', hlinked'⟩ := @foldl_buildList kinds { pool, next } hlaid
      have hused'' : ∀ kind, ((kinds.foldl buildList { pool, next }).cls kind).pagesUsed = 0 ∧
          ((kinds.foldl buildList { pool, next }).cls kind).sharedPagesUsed = 0 := by
        intro kind
        have hpair := hused' kind
        simp only [Prod.mk.injEq] at hpair
        exact ⟨hpair.1.trans (hunused kind).1, hpair.2.trans (hunused kind).2⟩
      have hlinked'' := fun kind => hlinked' kind (.inl (mem_kinds kind))
      simp only [hbuf, bind, Except.bind] at h
      cases htypes : pool.type with
      | incr =>
          simp only [htypes, pure, Except.pure, Except.ok.injEq] at h
          subst h
          exact ⟨⟨hlaid, hunused, fun hne => absurd htypes hne, fun hs => by simp [htypes] at hs⟩, hpool⟩
      | list =>
          simp only [htypes, pure, Except.pure, Except.ok.injEq] at h
          subst h
          refine ⟨⟨hlaid', hused'', fun _ => hlinked'', fun hs => ?_⟩, htype'.trans hpool⟩
          rw [htype'] at hs
          simp [htypes] at hs
      | shared =>
          simp only [htypes, pure, Except.pure, Except.ok.injEq] at h
          subst h
          exact ⟨⟨hlaid'.congr fun _ => rfl, hused'', fun _ => hlinked'', fun _ _ => rfl⟩, htype'.trans hpool⟩

end Mempool

end Knowdy
