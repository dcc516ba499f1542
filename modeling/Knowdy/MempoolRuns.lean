import Knowdy.Mempool
import Knowdy.Lib.Runs

/-! # Pages of one owner

The calls of one task on a pool, in any order: it asks for pages, fills those it holds and gives them back.

* `Session`, `Event`, `Session.step` — the pool, the live pages and the calls.
* `Session.Sound` — no live page is handed out, every other page can be, and the counter is exact.
* `Freeable` — which page a pool takes back correctly: any page of a list, only the last one of a
  `KND_ALLOC_INCR` pool, none of a `KND_ALLOC_SHARED` pool.
* `contract_of_reaches` — with such pages all is well; `not_contract_incr` — another page. -/

namespace Knowdy

namespace Mempool

/-! ## (1) The calls of a task -/

/-- A pool and the pages that are live. -/
structure Session where
  memory : Memory
  /-- The pages that were handed out and not given back, with their class. -/
  live : List (MemPage × Nat) := []

/-- A call of the owner, or a write into a page. -/
inductive Event where
  | page (type : PageType)
  | free (type : PageType) (page : Nat)
  | fill (kind : MemPage) (page : Nat) (data : Nat → Option Nat)

/-- The live pages of a class. -/
def Session.liveOf (self : Session) (kind : MemPage) : List Nat :=
  (self.live.filter fun p => p.1 = kind).map Prod.snd

/-- One event. -/
def Session.step (self : Session) : Event → Session
  | .page type =>
      match kndMempoolPage self.memory type with
      | .ok (page, memory) => { memory, live := (type.kind, page) :: self.live }
      | .error _ => self
  | .free type page =>
      { memory := kndMempoolFree self.memory type page, live := self.live.erase (type.kind, page) }
  | .fill kind page data => { self with memory := self.memory.fill kind page data }

/-- **Only live pages** are freed and written. -/
def Session.Legal (self : Session) : Event → Prop
  | .page _ => True
  | .free type page => (type.kind, page) ∈ self.live
  | .fill kind page _ => (kind, page) ∈ self.live

/-- The counter of a class: the atomic one in a shared pool. -/
def usedOf : PoolType → Pages → Nat
  | .shared, cls => cls.sharedPagesUsed
  | _, cls => cls.pagesUsed

/-- **A page can be handed out**: after some more calls it is. -/
inductive HandsOut (type : PageType) (page : Nat) : Memory → Prop
  | now {memory memory' : Memory} (h : kndMempoolPage memory type = .ok (page, memory')) :
      HandsOut type page memory
  | later {memory memory' : Memory} {other : Nat} (h : kndMempoolPage memory type = .ok (other, memory'))
      (hrest : HandsOut type page memory') : HandsOut type page memory

/-- **The contract of the pool.** -/
structure Session.Sound (s : Session) : Prop where
  /-- No page that is handed out overlaps a live one. -/
  fresh : ∀ type page memory, kndMempoolPage s.memory type = .ok (page, memory) →
    ∀ kind page', (kind, page') ∈ s.live →
      Apart page (s.memory.cls type.kind).pageSize page' (s.memory.cls kind).pageSize
  /-- A page that is not live, never handed out or given back, can be handed out. -/
  reusable : ∀ type page, page ∈ s.memory.pool.pagesOf type.kind → (type.kind, page) ∉ s.live →
    HandsOut type page s.memory
  /-- The counter is the number of live pages: it has not wrapped around. -/
  counted : ∀ kind, usedOf s.memory.pool.type (s.memory.cls kind) = (s.liveOf kind).length

/-- **The pages a pool takes back correctly.** -/
def Freeable (pool : KndMemPool) (kind : MemPage) (page : Nat) : Prop :=
  match pool.type with
  | .list => True
  -- the last page that was handed out: the counter is also the place of the next page
  | .incr => page = (pool.cls kind).pages + (pool.cls kind).pageSize * ((pool.cls kind).pagesUsed - 1)
  -- the freed page goes to a list that is never read
  | .shared => False

/-- The page that is freed is one the pool takes back. -/
def Session.Kept (self : Session) : Event → Prop
  | .page _ => True
  | .free type page => (type.kind, page) ∈ self.live ∧ Freeable self.memory.pool type.kind page
  | .fill kind page _ => (kind, page) ∈ self.live

/-! ## (2) The live pages of a class -/

namespace Session

variable {s : Session} {kind : MemPage} {page : Nat}

@[simp] theorem mem_liveOf : page ∈ s.liveOf kind ↔ (kind, page) ∈ s.live := by
  simp [liveOf]

theorem liveOf_cons_self (memory memory' : Memory) (live : List (MemPage × Nat)) (kind : MemPage) (page : Nat) :
    (Session.mk memory' ((kind, page) :: live)).liveOf kind = page :: (Session.mk memory live).liveOf kind := by
  simp [liveOf]

theorem liveOf_cons_of_ne (memory memory' : Memory) (live : List (MemPage × Nat)) {kind kind' : MemPage}
    (page : Nat) (h : kind' ≠ kind) :
    (Session.mk memory' ((kind, page) :: live)).liveOf kind' = (Session.mk memory live).liveOf kind' := by
  simp [liveOf, h.symm]

/-- The pages of a class before and after one of them is given back. -/
theorem liveOf_erase_self (memory memory' : Memory) {live : List (MemPage × Nat)} {kind : MemPage} {page : Nat}
    (hmem : (kind, page) ∈ live) :
    ((Session.mk memory live).liveOf kind).Perm
      (page :: (Session.mk memory' (live.erase (kind, page))).liveOf kind) := by
  have hperm := ((List.perm_cons_erase hmem).filter fun p => p.1 = kind).map Prod.snd
  simpa [liveOf] using hperm

theorem liveOf_erase_of_ne (memory memory' : Memory) {live : List (MemPage × Nat)} {kind kind' : MemPage}
    {page : Nat} (hmem : (kind, page) ∈ live) (h : kind' ≠ kind) :
    ((Session.mk memory live).liveOf kind').Perm
      ((Session.mk memory' (live.erase (kind, page))).liveOf kind') := by
  have hperm := ((List.perm_cons_erase hmem).filter fun p => p.1 = kind').map Prod.snd
  simpa [liveOf, List.filter_cons, h.symm] using hperm

end Session

/-! ## (3) Pools with a list -/

/-- The list that pages are taken from. -/
def headOf : PoolType → Pages → Option Nat
  | .shared, cls => cls.sharedPageList
  | _, cls => cls.pageList

/-- A class after a page was taken from its list. -/
def popped : PoolType → Pages → Option Nat → Pages
  | .shared, cls, next => { cls with sharedPageList := next, sharedPagesUsed := (cls.sharedPagesUsed + 1) % 2 ^ 64 }
  | _, cls, next => { cls with pageList := next, pagesUsed := (cls.pagesUsed + 1) % 2 ^ 64 }

@[simp] theorem headOf_popped (type : PoolType) (cls : Pages) (next : Option Nat) :
    headOf type (popped type cls next) = next := by
  cases type <;> rfl

@[simp] theorem usedOf_popped (type : PoolType) (cls : Pages) (next : Option Nat) :
    usedOf type (popped type cls next) = (usedOf type cls + 1) % 2 ^ 64 := by
  cases type <;> rfl

@[simp] theorem geometry_popped (type : PoolType) (cls : Pages) (next : Option Nat) :
    (popped type cls next).geometry = cls.geometry := by
  cases type <;> rfl

/-- No page: the list is empty. -/
theorem kndMempoolPage_none {memory : Memory} {type : PageType} (hincr : memory.pool.type ≠ .incr)
    (hhead : headOf memory.pool.type (memory.cls type.kind) = none) :
    kndMempoolPage memory type = .error .nomem := by
  unfold kndMempoolPage
  cases htype : memory.pool.type with
  | incr => exact absurd htype hincr
  | list =>
      rw [htype] at hhead
      simp only [getPage, show (memory.cls type.kind).pageList = none from hhead]
  | shared =>
      rw [htype] at hhead
      simp only [getSharedPage, show (memory.cls type.kind).sharedPageList = none from hhead]

/-- The first page of the list is taken. -/
theorem kndMempoolPage_some {memory : Memory} {type : PageType} {page : Nat} (hincr : memory.pool.type ≠ .incr)
    (hhead : headOf memory.pool.type (memory.cls type.kind) = some page) :
    kndMempoolPage memory type = .ok (page,
      memory.setCls type.kind (popped memory.pool.type (memory.cls type.kind) (memory.next page))) := by
  unfold kndMempoolPage
  cases htype : memory.pool.type with
  | incr => exact absurd htype hincr
  | list =>
      rw [htype] at hhead
      simp only [getPage, show (memory.cls type.kind).pageList = some page from hhead]
      rfl
  | shared =>
      rw [htype] at hhead
      simp only [getSharedPage, show (memory.cls type.kind).sharedPageList = some page from hhead]
      rfl

/-- Every page of the list is handed out in its turn. -/
theorem handsOut_of_linked {type : PageType} {page : Nat} {l : List Nat} {memory : Memory}
    (hincr : memory.pool.type ≠ .incr)
    (hlinked : Linked memory.next (headOf memory.pool.type (memory.cls type.kind)) l) (hmem : page ∈ l) :
    HandsOut type page memory := by
  induction l generalizing memory with
  | nil => exact absurd hmem List.not_mem_nil
  | cons q l ih =>
      obtain ⟨hhead, hrest⟩ := Linked.cons_iff.mp hlinked
      have hpage := kndMempoolPage_some hincr hhead
      rcases List.mem_cons.mp hmem with rfl | hmem
      · exact .now hpage
      · exact .later hpage (ih hincr (by simpa using hrest) hmem)

/-- **The invariant of a pool with a list**: the list and the live pages are the pages of the class. -/
def Session.Listed (self : Session) : Prop :=
  ∀ kind, ∃ l, Linked self.memory.next (headOf self.memory.pool.type (self.memory.cls kind)) l ∧
    (l ++ self.liveOf kind).Perm (self.memory.pool.pagesOf kind) ∧
      usedOf self.memory.pool.type (self.memory.cls kind) = (self.liveOf kind).length

/-! ## (4) Pools without a list -/

/-- **The invariant of a pool of type `KND_ALLOC_INCR`**: the live pages are the first ones of the class. -/
def Session.Stacked (self : Session) : Prop :=
  ∀ kind, (self.memory.cls kind).pagesUsed ≤ (self.memory.cls kind).numPages ∧
    (self.liveOf kind).Perm
      (pagesFrom (self.memory.cls kind).pageSize (self.memory.cls kind).pagesUsed (self.memory.cls kind).pages)

/-- The invariant of all pools. -/
structure Session.Inv (s : Session) : Prop where
  laid : s.memory.pool.Laid
  listed : s.memory.pool.type ≠ .incr → s.Listed
  stacked : s.memory.pool.type = .incr → s.Stacked

/-! ## (5) The events keep the invariant -/

namespace Session

variable {s : Session}

/-- A live page is a page of its class. -/
theorem Inv.live_pages (hinv : s.Inv) {kind : MemPage} {page : Nat} (hmem : (kind, page) ∈ s.live) :
    page ∈ s.memory.pool.pagesOf kind := by
  have hlive : page ∈ s.liveOf kind := mem_liveOf.mpr hmem
  by_cases hincr : s.memory.pool.type = .incr
  · obtain ⟨hle, hperm⟩ := hinv.stacked hincr kind
    obtain ⟨i, hi, rfl⟩ := mem_pagesFrom.mp (hperm.mem_iff.mp hlive)
    exact mem_pagesFrom.mpr ⟨i, Nat.lt_of_lt_of_le hi hle, rfl⟩
  · obtain ⟨l, -, hperm, -⟩ := hinv.listed hincr kind
    exact hperm.mem_iff.mp (List.mem_append_right l hlive)

/-- The live pages of a class are no more than its pages. -/
theorem Inv.length_liveOf (hinv : s.Inv) (kind : MemPage) :
    (s.liveOf kind).length ≤ (s.memory.cls kind).numPages := by
  by_cases hincr : s.memory.pool.type = .incr
  · obtain ⟨hle, hperm⟩ := hinv.stacked hincr kind
    rw [hperm.length_eq, length_pagesFrom]
    exact hle
  · obtain ⟨l, -, hperm, -⟩ := hinv.listed hincr kind
    have hlen := hperm.length_eq
    rw [List.length_append, KndMemPool.pagesOf, length_pagesFrom] at hlen
    exact Nat.le_trans (Nat.le_add_left ..) (Nat.le_of_eq hlen)

/-- The counter is exact. -/
theorem Inv.counted (hinv : s.Inv) (kind : MemPage) :
    usedOf s.memory.pool.type (s.memory.cls kind) = (s.liveOf kind).length := by
  by_cases hincr : s.memory.pool.type = .incr
  · obtain ⟨-, hperm⟩ := hinv.stacked hincr kind
    rw [hperm.length_eq, length_pagesFrom, hincr]
    rfl
  · obtain ⟨l, -, -, hused⟩ := hinv.listed hincr kind
    exact hused

/-- **A page is taken from the list of its class.** -/
theorem Inv.pop (hinv : s.Inv) (hincr : s.memory.pool.type ≠ .incr) {kind : MemPage} {page : Nat}
    (hhead : headOf s.memory.pool.type (s.memory.cls kind) = some page) :
    (kind, page) ∉ s.live ∧ page ∈ s.memory.pool.pagesOf kind ∧
      (Session.mk (s.memory.setCls kind (popped s.memory.pool.type (s.memory.cls kind) (s.memory.next page)))
        ((kind, page) :: s.live)).Inv := by
  have hgeometry := s.memory.cls_setCls_proj kind _ Pages.geometry
    (geometry_popped s.memory.pool.type (s.memory.cls kind) (s.memory.next page))
  obtain ⟨l, hlinked, hperm, hused⟩ := hinv.listed hincr kind
  rw [hhead] at hlinked
  obtain ⟨l, rfl, hrest⟩ := hlinked.exists_cons
  have hnodup := hperm.nodup_iff.mpr (hinv.laid.nodup_pagesOf kind)
  have hfree : page ∉ s.liveOf kind := fun hmem =>
    (List.nodup_cons.mp hnodup).1 (List.mem_append_right l hmem)
  have hmem : page ∈ s.memory.pool.pagesOf kind := hperm.mem_iff.mp (List.mem_cons_self ..)
  refine ⟨fun h => hfree (mem_liveOf.mpr h), hmem, hinv.laid.congr hgeometry, fun _ kind' => ?_, fun h => absurd h hincr⟩
  rw [KndMemPool.pagesOf_congr (hgeometry kind')]
  by_cases hkind : kind' = kind
  · subst hkind
    refine ⟨l, ?_, ?_, ?_⟩
    · simpa using hrest
    · rw [liveOf_cons_self s.memory]
      exact List.perm_middle.trans hperm
    · have hlt : (s.liveOf kind').length + 1 < 2 ^ 64 :=
        Nat.lt_of_le_of_lt (Nat.succ_le_succ (hinv.length_liveOf kind')) (hinv.laid.numPages_lt kind')
      rw [liveOf_cons_self s.memory, List.length_cons]
      simp only [Memory.cls_setCls_self, Memory.setCls_type, usedOf_popped, hused]
      exact Nat.mod_eq_of_lt hlt
  · obtain ⟨l', hlinked', hperm', hused'⟩ := hinv.listed hincr kind'
    rw [liveOf_cons_of_ne s.memory _ _ _ hkind, Memory.cls_setCls_of_ne _ _ hkind]
    exact ⟨l', hlinked', hperm', hused'⟩

/-- **The next page of a pool without a list.** -/
theorem Inv.next (hinv : s.Inv) (hincr : s.memory.pool.type = .incr) {type : PageType}
    (hlt : (s.memory.cls type.kind).pagesUsed < (s.memory.cls type.kind).numPages) {page : Nat}
    (hpage : page = (s.memory.cls type.kind).pages +
      (s.memory.cls type.kind).pageSize * (s.memory.cls type.kind).pagesUsed) :
    ∃ memory, kndMempoolPage s.memory type = .ok (page, memory) ∧ (type.kind, page) ∉ s.live ∧
      page ∈ s.memory.pool.pagesOf type.kind ∧ memory.pool.type = .incr ∧
      (memory.cls type.kind).pagesUsed = (s.memory.cls type.kind).pagesUsed + 1 ∧
      (∀ kind, (memory.cls kind).geometry = (s.memory.cls kind).geometry) ∧
      (Session.mk memory ((type.kind, page) :: s.live)).Inv := by
  have hnum : (s.memory.cls type.kind).numPages + 1 < 2 ^ 64 := hinv.laid.numPages_lt type.kind
  have hheader : 8 < (s.memory.cls type.kind).pageSize := hinv.laid.header type.kind
  have hrange : (s.memory.cls type.kind).pages + (s.memory.cls type.kind).pageSize *
    (s.memory.cls type.kind).numPages < 2 ^ 64 := hinv.laid.inRange type.kind
  have hused : ((s.memory.cls type.kind).pagesUsed + 1) % 2 ^ 64 = (s.memory.cls type.kind).pagesUsed + 1 :=
    Nat.mod_eq_of_lt (by omega)
  have hoffset : (s.memory.cls type.kind).pageSize * (s.memory.cls type.kind).pagesUsed % 2 ^ 64 =
      (s.memory.cls type.kind).pageSize * (s.memory.cls type.kind).pagesUsed := by
    have hle := Nat.mul_le_mul_left (s.memory.cls type.kind).pageSize (Nat.le_of_lt hlt)
    exact Nat.mod_eq_of_lt (by omega)
  have hgeometry := s.memory.cls_setCls_proj type.kind
    { s.memory.cls type.kind with pagesUsed := (s.memory.cls type.kind).pagesUsed + 1 } Pages.geometry rfl
  have hrun : kndMempoolPage s.memory type = .ok (page, s.memory.setCls type.kind
      { s.memory.cls type.kind with pagesUsed := (s.memory.cls type.kind).pagesUsed + 1 }) := by
    unfold kndMempoolPage
    simp only [hincr, getIncrPage, hused, hoffset]
    rw [if_neg (by omega), hpage]
  have hmem : page ∈ s.memory.pool.pagesOf type.kind := mem_pagesFrom.mpr ⟨_, hlt, hpage⟩
  have hfree : (type.kind, page) ∉ s.live := by
    intro hlive
    obtain ⟨-, hperm⟩ := hinv.stacked hincr type.kind
    obtain ⟨i, hi, heq⟩ := mem_pagesFrom.mp (hperm.mem_iff.mp (mem_liveOf.mpr hlive))
    have hindex := Nat.eq_of_mul_eq_mul_left (by omega) (Nat.add_left_cancel (hpage.symm.trans heq))
    omega
  refine ⟨_, hrun, hfree, hmem, hincr, by simp, hgeometry, hinv.laid.congr hgeometry, fun h => absurd hincr h,
    fun _ kind => ?_⟩
  obtain ⟨hle, hperm⟩ := hinv.stacked hincr kind
  by_cases hkind : kind = type.kind
  · subst hkind
    rw [Memory.cls_setCls_self, liveOf_cons_self s.memory, pagesFrom_succ, ← hpage]
    exact ⟨hlt, (hperm.cons page).trans (List.perm_append_singleton _ _).symm⟩
  · rw [Memory.cls_setCls_of_ne _ _ hkind, liveOf_cons_of_ne s.memory _ _ _ hkind]
    exact ⟨hle, hperm⟩

/-- A pool without a list that has handed out all pages of a class. -/
theorem Inv.full (hinv : s.Inv) (hincr : s.memory.pool.type = .incr) {type : PageType}
    (hle : (s.memory.cls type.kind).numPages ≤ (s.memory.cls type.kind).pagesUsed) :
    kndMempoolPage s.memory type = .error .nomem := by
  have hnum : (s.memory.cls type.kind).numPages + 1 < 2 ^ 64 := hinv.laid.numPages_lt type.kind
  have hused := (hinv.stacked hincr type.kind).1
  unfold kndMempoolPage
  simp only [hincr, getIncrPage]
  rw [Nat.mod_eq_of_lt (by omega), if_pos (by omega)]

/-- **A page that is handed out** was free, and the invariant is kept. -/
theorem Inv.page (hinv : s.Inv) {type : PageType} {page : Nat} {memory : Memory}
    (h : kndMempoolPage s.memory type = .ok (page, memory)) :
    (type.kind, page) ∉ s.live ∧ page ∈ s.memory.pool.pagesOf type.kind ∧
      (Session.mk memory ((type.kind, page) :: s.live)).Inv := by
  by_cases hincr : s.memory.pool.type = .incr
  · by_cases hlt : (s.memory.cls type.kind).pagesUsed < (s.memory.cls type.kind).numPages
    · obtain ⟨memory', hrun, hfree, hmem, -, -, -, hinv'⟩ := hinv.next hincr hlt rfl
      rw [hrun] at h
      cases h
      exact ⟨hfree, hmem, hinv'⟩
    · rw [hinv.full hincr (Nat.le_of_not_lt hlt)] at h
      cases h
  · cases hhead : headOf s.memory.pool.type (s.memory.cls type.kind) with
    | none =>
        rw [kndMempoolPage_none hincr hhead] at h
        cases h
    | some head =>
        rw [kndMempoolPage_some hincr hhead] at h
        cases h
        exact hinv.pop hincr hhead

/-- **A page is pushed on the list of its class.** -/
theorem Inv.push (hinv : s.Inv) (hlist : s.memory.pool.type = .list) {type : PageType} {page : Nat}
    (hmem : (type.kind, page) ∈ s.live) :
    (Session.mk (kndMempoolFree s.memory type page) (s.live.erase (type.kind, page))).Listed := by
  intro kind
  obtain ⟨l, hlinked, hperm, hused⟩ := hinv.listed (by simp [hlist]) kind
  have hnodup := hperm.nodup_iff.mpr (hinv.laid.nodup_pagesOf kind)
  rw [hlist] at hlinked hused
  rw [KndMemPool.pagesOf_congr (geometry_kndMempoolFree s.memory type page kind), kndMempoolFree_type, hlist]
  by_cases hkind : kind = type.kind
  · subst hkind
    have hself := liveOf_erase_self s.memory (kndMempoolFree s.memory type page) hmem
    have hnotMem : page ∉ l := fun hin =>
      (List.nodup_append.mp hnodup).2.2 page hin page (mem_liveOf.mpr hmem) rfl
    rw [cls_kndMempoolFree_self]
    refine ⟨page :: l, hlinked.push hnotMem, ?_, ?_⟩
    · rw [List.cons_append]
      exact (List.perm_middle.symm.trans ((List.perm_append_left_iff l).mpr hself.symm)).trans hperm
    · have hsucc : (s.liveOf type.kind).length = _ := hself.length_eq
      have hsub := sizeDec_of_pos (List.length_pos_of_mem (mem_liveOf.mpr hmem))
      have hused' : (s.memory.cls type.kind).pagesUsed = (s.liveOf type.kind).length := hused
      rw [List.length_cons] at hsucc
      simp only [usedOf, Pages.pagesUsed_pushed]
      rw [hused', hsub]
      omega
  · rw [cls_kndMempoolFree_of_ne _ _ _ hkind]
    have hsame := liveOf_erase_of_ne s.memory (kndMempoolFree s.memory type page) hmem hkind
    refine ⟨l, hlinked.congr fun q hq => Function.update_of_ne ?_ _ _, ?_, hused.trans hsame.length_eq⟩
    · -- `q` is a page of another class
      have hq' : q ∈ s.memory.pool.pagesOf kind := hperm.mem_iff.mp (List.mem_append_left _ hq)
      have hapart := hinv.laid.apart_pages hq' (hinv.live_pages hmem) fun h => hkind (congrArg Prod.fst h)
      have hheader := hinv.laid.header kind
      have hheader' := hinv.laid.header type.kind
      rcases hapart with hlt | hlt <;> omega
    · exact ((List.perm_append_left_iff l).mpr hsame.symm).trans hperm

/-- **The last page of a pool without a list** is given back. -/
theorem Inv.unstack (hinv : s.Inv) (hincr : s.memory.pool.type = .incr) {type : PageType} {page : Nat}
    (hmem : (type.kind, page) ∈ s.live)
    (hpage : page = (s.memory.cls type.kind).pages +
      (s.memory.cls type.kind).pageSize * ((s.memory.cls type.kind).pagesUsed - 1)) :
    (Session.mk (kndMempoolFree s.memory type page) (s.live.erase (type.kind, page))).Stacked := by
  intro kind
  obtain ⟨hle, hperm⟩ := hinv.stacked hincr kind
  by_cases hkind : kind = type.kind
  · subst hkind
    have hself := liveOf_erase_self s.memory (kndMempoolFree s.memory type page) hmem
    have hpos : 0 < (s.liveOf type.kind).length := List.length_pos_of_mem (mem_liveOf.mpr hmem)
    have hcounted : (s.memory.cls type.kind).pagesUsed = (s.liveOf type.kind).length := by
      rw [hperm.length_eq, length_pagesFrom]
    have hused : ((kndMempoolFree s.memory type page).cls type.kind).pagesUsed =
        (s.memory.cls type.kind).pagesUsed - 1 := by
      rw [cls_kndMempoolFree_self, Pages.pagesUsed_pushed, hcounted, sizeDec_of_pos hpos]
    have hsucc : (s.memory.cls type.kind).pagesUsed = (s.memory.cls type.kind).pagesUsed - 1 + 1 := by omega
    rw [hsucc, pagesFrom_succ, ← hpage] at hperm
    have hrest := (hself.symm.trans hperm).trans (List.perm_append_singleton page _)
    rw [hused, cls_kndMempoolFree_self, Pages.pageSize_pushed, Pages.numPages_pushed, Pages.pages_pushed]
    exact ⟨Nat.le_trans (Nat.sub_le ..) hle, hrest.cons_inv⟩
  · rw [cls_kndMempoolFree_of_ne _ _ _ hkind]
    have hsame := liveOf_erase_of_ne s.memory (kndMempoolFree s.memory type page) hmem hkind
    exact ⟨hle, hsame.symm.trans hperm⟩

/-- **A page that is given back** and that the pool takes. -/
theorem Inv.free (hinv : s.Inv) {type : PageType} {page : Nat} (hmem : (type.kind, page) ∈ s.live)
    (hfree : Freeable s.memory.pool type.kind page) : (s.step (.free type page)).Inv := by
  have hlaid : (kndMempoolFree s.memory type page).pool.Laid :=
    hinv.laid.congr (geometry_kndMempoolFree s.memory type page)
  unfold Freeable at hfree
  cases htype : s.memory.pool.type with
  | list => exact ⟨hlaid, fun _ => hinv.push htype hmem, fun h => absurd (htype.symm.trans h) (by decide)⟩
  | incr =>
      rw [htype] at hfree
      exact ⟨hlaid, fun h => absurd htype h, fun _ => hinv.unstack htype hmem hfree⟩
  | shared =>
      rw [htype] at hfree
      exact absurd hfree not_false

/-- **A page that is filled** is on no list. -/
theorem Inv.fill (hinv : s.Inv) {kind : MemPage} {page : Nat} (hmem : (kind, page) ∈ s.live)
    (data : Nat → Option Nat) : (s.step (.fill kind page data)).Inv := by
  refine ⟨hinv.laid, fun hincr kind' => ?_, hinv.stacked⟩
  obtain ⟨l, hlinked, hperm, hused⟩ := hinv.listed hincr kind'
  refine ⟨l, hlinked.congr fun q hq => ?_, hperm, hused⟩
  have hnodup := hperm.nodup_iff.mpr (hinv.laid.nodup_pagesOf kind')
  refine Memory.next_fill hinv.laid data (hinv.live_pages hmem)
    (hperm.mem_iff.mp (List.mem_append_left _ hq)) fun hsame => ?_
  obtain ⟨rfl, rfl⟩ := Prod.mk.inj hsame
  exact (List.nodup_append.mp hnodup).2.2 _ hq _ (mem_liveOf.mpr hmem) rfl

/-- **Every event keeps the invariant** when only pages are freed that the pool takes back. -/
theorem Inv.step (hinv : s.Inv) {e : Event} (h : s.Kept e) : (s.step e).Inv := by
  cases e with
  | page type =>
      cases hpage : kndMempoolPage s.memory type with
      | error err => simpa [Session.step, hpage] using hinv
      | ok result => simpa [Session.step, hpage] using (hinv.page hpage).2.2
  | free type page => exact hinv.free h.1 h.2
  | fill kind page data => exact hinv.fill h data

/-- A pool without a list hands out its pages in their order. -/
theorem Inv.handsOut_incr {d : Nat} {s : Session} (hinv : s.Inv) (hincr : s.memory.pool.type = .incr)
    {type : PageType} (hlt : (s.memory.cls type.kind).pagesUsed + d < (s.memory.cls type.kind).numPages)
    {page : Nat} (hpage : page = (s.memory.cls type.kind).pages +
      (s.memory.cls type.kind).pageSize * ((s.memory.cls type.kind).pagesUsed + d)) :
    HandsOut type page s.memory := by
  induction d generalizing s with
  | zero =>
      obtain ⟨memory, hrun, -⟩ := hinv.next hincr hlt hpage
      exact .now hrun
  | succ d ih =>
      obtain ⟨memory, hrun, -, -, hincr', hused, hgeometry, hinv'⟩ :=
        hinv.next hincr (Nat.lt_of_le_of_lt (Nat.le_add_right ..) hlt) rfl
      have hsame := hgeometry type.kind
      simp only [Pages.geometry, Prod.mk.injEq] at hsame
      obtain ⟨hpages, hsize, hnum⟩ := hsame
      have hindex : (memory.cls type.kind).pagesUsed + d = (s.memory.cls type.kind).pagesUsed + (d + 1) := by
        omega
      refine .later hrun (ih hinv' hincr' ?_ ?_)
      · rw [hnum, hindex]
        exact hlt
      · rw [hpages, hsize, hindex]
        exact hpage

/-- A page that is not live is handed out in its turn. -/
theorem Inv.handsOut (hinv : s.Inv) {type : PageType} {page : Nat}
    (hmem : page ∈ s.memory.pool.pagesOf type.kind) (hfree : (type.kind, page) ∉ s.live) :
    HandsOut type page s.memory := by
  by_cases hincr : s.memory.pool.type = .incr
  · obtain ⟨i, hi, hpage⟩ := mem_pagesFrom.mp hmem
    obtain ⟨-, hperm⟩ := hinv.stacked hincr type.kind
    -- the pages in front of the counter are live
    have hge : (s.memory.cls type.kind).pagesUsed ≤ i := by
      refine Nat.le_of_not_lt fun hlt => hfree (mem_liveOf.mp (hperm.mem_iff.mpr ?_))
      exact mem_pagesFrom.mpr ⟨i, hlt, hpage⟩
    have hindex : (s.memory.cls type.kind).pagesUsed + (i - (s.memory.cls type.kind).pagesUsed) = i :=
      Nat.add_sub_cancel' hge
    refine hinv.handsOut_incr hincr (d := i - (s.memory.cls type.kind).pagesUsed) ?_ ?_
    · rw [hindex]
      exact hi
    · rw [hindex]
      exact hpage
  · obtain ⟨l, hlinked, hperm, -⟩ := hinv.listed hincr type.kind
    refine handsOut_of_linked hincr hlinked ?_
    exact (List.mem_append.mp (hperm.mem_iff.mpr hmem)).resolve_right fun h => hfree (mem_liveOf.mp h)

/-- **The invariant gives the contract.** -/
theorem Inv.sound (hinv : s.Inv) : s.Sound := by
  constructor
  · intro type page memory hpage kind page' hlive
    obtain ⟨hfree, hmem, -⟩ := hinv.page hpage
    refine hinv.laid.apart_pages hmem (hinv.live_pages hlive) fun hsame => hfree ?_
    rw [hsame]
    exact hlive
  · exact fun type page hmem hfree => hinv.handsOut hmem hfree
  · exact hinv.counted

end Session

/-- A fresh pool. -/
theorem Fresh.inv {memory : Memory} (h : Fresh memory) : (Session.mk memory []).Inv := by
  refine ⟨h.laid, fun hincr kind => ⟨memory.pool.pagesOf kind, ?_, ?_, ?_⟩, fun hincr kind => ⟨?_, ?_⟩⟩
  · have hlinked := h.listed hincr kind
    cases htype : memory.pool.type with
    | incr => exact absurd htype hincr
    | list => exact hlinked
    | shared =>
        rw [← h.shared htype kind] at hlinked
        exact hlinked
  · simp [Session.liveOf]
  · cases htype : memory.pool.type with
    | incr => exact absurd htype hincr
    | list => exact (h.unused kind).1
    | shared => exact (h.unused kind).2
  · rw [(h.unused kind).1]
    exact Nat.zero_le _
  · rw [(h.unused kind).1]
    exact .nil

/-! ## (6) Runs -/

/-- **The pool keeps its contract** in every run in which only pages are freed that it takes back. -/
theorem contract_of_reaches {settings : MemPage → Setting} {calloc : Calloc settings} {type : PoolType}
    {next : Nat → Option Nat} {memory : Memory}
    (halloc : allocCapacity calloc (kndMempoolNew type settings) next = .ok memory) {s : Session}
    (hrun : Reaches Session.step Session.Kept { memory } s) : s.Sound := by
  have hinv : s.Inv := hrun.invariant (fresh_of_allocCapacity halloc).1.inv fun _ _ hinv hkept => hinv.step hkept
  exact hinv.sound

/-- Two pages of each class. -/
def twoEach : MemPage → Setting := fun _ => { numPages := 2, pageSize := 16 }

/-- Where their buffers are. -/
def twoEachPages : MemPage → Option Nat
  | .base => some 32
  | .smallX4 => some 64
  | .smallX2 => some 96
  | .small => some 128
  | .tiny => some 160

theorem twoEachPages_inRange (kind : MemPage) (pages : Nat) (h : twoEachPages kind = some pages) :
    pages + (twoEach kind).size kind * (twoEach kind).num kind < 2 ^ 64 := by
  cases kind <;> cases h <;> decide

theorem twoEachPages_apart (kind kind' : MemPage) (pages pages' : Nat) (hne : kind ≠ kind')
    (h : twoEachPages kind = some pages) (h' : twoEachPages kind' = some pages') :
    pages + (twoEach kind).size kind * (twoEach kind).num kind ≤ pages' ∨
      pages' + (twoEach kind').size kind' * (twoEach kind').num kind' ≤ pages := by
  cases kind <;> cases h <;> cases kind' <;> cases h' <;> first | exact absurd rfl hne | decide

/-- The buffers of a small pool. -/
def twoEachCalloc : Calloc twoEach where
  result := twoEachPages
  inRange := twoEachPages_inRange
  apart := twoEachPages_apart

/-- A small pool. -/
def smallPool (type : PoolType) : Memory :=
  match allocCapacity twoEachCalloc (kndMempoolNew type twoEach) fun _ => none with
  | .ok memory => memory
  | .error _ => { pool := { type }, next := fun _ => none }

theorem allocCapacity_smallPool (type : PoolType) :
    allocCapacity twoEachCalloc (kndMempoolNew type twoEach) (fun _ => none) = .ok (smallPool type) := by
  cases type <;> rfl

/-- Two pages are taken and the first one is given back. -/
def firstBack : List Event := [.page .tiny, .page .tiny, .free .tiny 160]

/-- The pages of a list may come back in any order. -/
theorem contract_of_reaches_list : (firstBack.foldl Session.step { memory := smallPool .list }).Sound :=
  contract_of_reaches (allocCapacity_smallPool .list)
    (Reaches.refl.foldl ⟨trivial, trivial, ⟨by decide, trivial⟩, trivial⟩)

/-- **A `KND_ALLOC_INCR` pool hands out a live page** once a page before it was given back. -/
theorem not_contract_incr :
    ¬∀ (settings : MemPage → Setting) (calloc : Calloc settings) (type : PoolType) (next : Nat → Option Nat)
      (memory : Memory), allocCapacity calloc (kndMempoolNew type settings) next = .ok memory →
        ∀ s, Reaches Session.step Session.Legal { memory } s → s.Sound := by
  intro hall
  have hrun : Reaches Session.step Session.Legal { memory := smallPool .incr }
      (firstBack.foldl Session.step { memory := smallPool .incr }) :=
    Reaches.refl.foldl ⟨trivial, trivial, List.mem_cons_of_mem _ (List.mem_cons_self ..), trivial⟩
  have hsound := hall _ _ _ _ _ (allocCapacity_smallPool .incr) _ hrun
  have hpage := hsound.fresh .tiny 176 _ rfl .tiny 176 (by decide)
  exact absurd hpage (by decide)

end Mempool

end Knowdy
