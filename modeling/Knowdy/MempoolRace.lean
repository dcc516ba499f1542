import Knowdy.Lib.Threads
import Knowdy.MempoolRuns

/-! # Pages for many threads

Any number of calls of `knd_mempool_page` on a pool of type `KND_ALLOC_SHARED`, interleaved between every two
accesses: the load of the head, the read of the link in the first page, the exchange, the count. The owners of
pages fill them in between, also while another call still reads the link.

* `Stage`, `Act`, `advance` — where a call is, and its accesses; `Race`, `RaceEvent`, `Race.step` — the calls and
  the owners.
* `Race.Served` — no page is handed out twice, and none is missing when a call finds none.
* `Assigned`, `CallHolds` — what is known of the lists and of a call: a link that was read in a page that is
  still listed is still the link in that page.
* `served_of_reaches` — the pool serves its callers. -/

namespace Knowdy

namespace Mempool

/-! ## (1) The calls -/

/-- Where a call is. -/
inductive Stage where
  /-- No call. -/
  | idle
  /-- Before the load of the head. -/
  | calling (kind : MemPage)
  /-- `page_list` is loaded. -/
  | loaded (kind : MemPage) (page : Nat)
  /-- `next_page` is read. -/
  | linked (kind : MemPage) (page : Nat) (next : Option Nat)
  /-- The exchange was successful. -/
  | popped (kind : MemPage) (page : Nat)
  deriving DecidableEq

/-- The accesses of a call. -/
inductive Act where
  | call (type : PageType)
  | load
  | readNext
  /-- `atomic_compare_exchange_weak`, which may fail for no reason. -/
  | exchange (spurious : Bool)
  | count

/-- What a call returns. -/
abbrev Answer := MemPage × Except KndErr Nat

/-- The new head is stored. -/
def exchanged (self : Memory) (kind : MemPage) (next : Option Nat) : Memory :=
  self.setCls kind { self.cls kind with sharedPageList := next }

/-- One page more is counted. -/
def counted (self : Memory) (kind : MemPage) : Memory :=
  self.setCls kind { self.cls kind with sharedPagesUsed := ((self.cls kind).sharedPagesUsed + 1) % 2 ^ 64 }

/-- **One access of `get_shared_page`.** -/
def advance (self : Memory) (stage : Stage) (act : Act) : Outcome Memory Stage Answer :=
  match stage, act with
  | .idle, .call type => { shared := self, stage := .calling type.kind }
  | .calling kind, .load =>
      match (self.cls kind).sharedPageList with
      | none => { shared := self, stage := .idle, returned := [(kind, .error .nomem)] }
      | some page => { shared := self, stage := .loaded kind page }
  -- the page may be another caller's by now, and the link any bytes
  | .loaded kind page, .readNext => { shared := self, stage := .linked kind page (self.next page) }
  | .linked kind page next, .exchange spurious =>
      if spurious = false ∧ (self.cls kind).sharedPageList = some page then
        { shared := exchanged self kind next, stage := .popped kind page }
      else { shared := self, stage := .calling kind }
  | .popped kind page, .count => { shared := counted self kind, stage := .idle, returned := [(kind, .ok page)] }
  | _, _ => { shared := self, stage }

/-! ## (2) The calls and the owners -/

variable {ι : Type} [DecidableEq ι]

/-- The pool, the calls of the threads `ι`, and what they have returned. -/
abbrev Race (ι : Type) := Threads ι Memory Stage Answer

/-- An access of a call, or a write of an owner. -/
inductive RaceEvent (ι : Type) where
  | turn (t : ι) (act : Act)
  | fill (kind : MemPage) (page : Nat) (data : Nat → Option Nat)

/-- One event. -/
def Race.step (s : Race ι) : RaceEvent ι → Race ι
  | .turn t act => s.turn t (advance s.shared (s.stage t) act)
  | .fill kind page data => { s with shared := s.shared.fill kind page data }

/-- **Callers fill the pages they own.** -/
def Race.Owned (s : Race ι) : RaceEvent ι → Prop
  | .turn _ _ => True
  | .fill kind page _ => (kind, .ok page) ∈ s.log

/-- The page of an answer, with its class. -/
def Answer.page : Answer → Option (MemPage × Nat)
  | (kind, .ok page) => some (kind, page)
  | (_, .error _) => none

/-- The pages that were returned. -/
def handedOut (log : List Answer) : List (MemPage × Nat) := log.filterMap Answer.page

/-- The pages of a class that were returned. -/
def handedOutOf (log : List Answer) (kind : MemPage) : List (MemPage × Nat) :=
  (handedOut log).filter fun p => p.1 = kind

/-- **The pool serves its callers.** -/
structure Race.Served (s : Race ι) : Prop where
  /-- No two callers have a page, or a byte, in common. -/
  once : (handedOut s.log).Pairwise fun p q =>
    Apart p.2 (s.shared.cls p.1).pageSize q.2 (s.shared.cls q.1).pageSize
  /-- A call finds no page only when each one is handed out, or another call has just taken it. -/
  nomem : ∀ kind, (kind, .error .nomem) ∈ s.log → ∀ page ∈ s.shared.pool.pagesOf kind,
    (kind, page) ∈ handedOut s.log ∨ ∃ t, s.stage t = .popped kind page
  /-- When no call is under way the counters are the numbers of the pages that were handed out. -/
  used : (∀ t, s.stage t = .idle) → ∀ kind,
    (s.shared.cls kind).sharedPagesUsed = (handedOutOf s.log kind).length

/-! ## (3) What is known of the lists and of the calls -/

/-- The pages that are still listed. -/
def Listing (self : Memory) (kind : MemPage) (l : List Nat) : Prop :=
  Linked self.next (self.cls kind).sharedPageList l

/-- **The lists, and the pages that were returned.** -/
structure Assigned (memory : Memory) (log : List Answer) : Prop where
  laid : memory.pool.Laid
  /-- The list of a class runs through pages of the class. -/
  listed : ∀ kind, ∃ l, Listing memory kind l ∧ ∀ page ∈ l, page ∈ memory.pool.pagesOf kind
  /-- A page that was returned is no longer listed. -/
  gone : ∀ kind page, (kind, page) ∈ handedOut log → page ∈ memory.pool.pagesOf kind ∧
    ∀ l, Listing memory kind l → page ∉ l
  nodup : (handedOut log).Nodup
  /-- Where a call has found no page, no page is listed. -/
  empty : ∀ kind, (kind, .error .nomem) ∈ log → Listing memory kind []
  used : ∀ kind, (memory.cls kind).sharedPagesUsed = (handedOutOf log kind).length

/-- **What is known of a call** at its stage. -/
def CallHolds (memory : Memory) (log : List Answer) : Stage → Prop
  | .idle | .calling _ => True
  | .loaded kind page => page ∈ memory.pool.pagesOf kind
  -- the link is stale only when the page is no longer listed
  | .linked kind page next =>
      page ∈ memory.pool.pagesOf kind ∧ ∀ l, Listing memory kind l → page ∈ l → next = memory.next page
  | .popped kind page =>
      page ∈ memory.pool.pagesOf kind ∧ (∀ l, Listing memory kind l → page ∉ l) ∧ (kind, page) ∉ handedOut log

/-- The page a call has taken from the list. -/
def Stage.taken : Stage → Option (MemPage × Nat)
  | .popped kind page => some (kind, page)
  | _ => none

/-- Two calls have not taken the same page. -/
def NotBoth (a b : Stage) : Prop := ∀ p, a.taken = some p → b.taken ≠ some p

theorem NotBoth.symm {a b : Stage} (h : NotBoth a b) : NotBoth b a := fun p hb ha => h p ha hb

/-- A call that has taken no page. -/
theorem notBoth_of_taken {a b : Stage} (h : a.taken = none) : NotBoth a b := fun p ha => by simp [h] at ha

/-! ## (4) What an access can do -/

/-- The accesses of a call, one rule for each of their results. -/
inductive Access (memory : Memory) : Stage → Outcome Memory Stage Answer → Prop
  /-- No access of this call. -/
  | rest (stage : Stage) : Access memory stage { shared := memory, stage }
  | call (kind : MemPage) : Access memory .idle { shared := memory, stage := .calling kind }
  | empty (kind : MemPage) (hhead : (memory.cls kind).sharedPageList = none) :
      Access memory (.calling kind) { shared := memory, stage := .idle, returned := [(kind, .error .nomem)] }
  | load (kind : MemPage) (page : Nat) (hhead : (memory.cls kind).sharedPageList = some page) :
      Access memory (.calling kind) { shared := memory, stage := .loaded kind page }
  | readNext (kind : MemPage) (page : Nat) :
      Access memory (.loaded kind page) { shared := memory, stage := .linked kind page (memory.next page) }
  | retry (kind : MemPage) (page : Nat) (next : Option Nat) :
      Access memory (.linked kind page next) { shared := memory, stage := .calling kind }
  | pop (kind : MemPage) (page : Nat) (next : Option Nat)
      (hhead : (memory.cls kind).sharedPageList = some page) :
      Access memory (.linked kind page next)
        { shared := exchanged memory kind next, stage := .popped kind page }
  | count (kind : MemPage) (page : Nat) :
      Access memory (.popped kind page)
        { shared := counted memory kind, stage := .idle, returned := [(kind, .ok page)] }

theorem access_advance (memory : Memory) (stage : Stage) (act : Act) :
    Access memory stage (advance memory stage act) := by
  cases stage with
  | idle =>
      cases act with
      | call type => exact .call type.kind
      | _ => exact .rest _
  | calling kind =>
      cases act with
      | load =>
          cases hhead : (memory.cls kind).sharedPageList with
          | none => simpa only [advance, hhead] using Access.empty kind hhead
          | some page => simpa only [advance, hhead] using Access.load kind page hhead
      | _ => exact .rest _
  | loaded kind page =>
      cases act with
      | readNext => exact .readNext kind page
      | _ => exact .rest _
  | linked kind page next =>
      cases act with
      | exchange spurious =>
          by_cases hcas : spurious = false ∧ (memory.cls kind).sharedPageList = some page
          · simpa only [advance, if_pos hcas] using Access.pop kind page next hcas.2
          · simpa only [advance, if_neg hcas] using Access.retry kind page next
      | _ => exact .rest _
  | popped kind page =>
      cases act with
      | count => exact .count kind page
      | _ => exact .rest _

/-! ## (5) The accesses keep what is known -/

section Lists

variable {memory : Memory} {log : List Answer} {kind kind' : MemPage} {page : Nat} {next : Option Nat}

@[simp] theorem handedOut_nomem (kind : MemPage) (log : List Answer) :
    handedOut ((kind, .error .nomem) :: log) = handedOut log := rfl

@[simp] theorem handedOut_ok (kind : MemPage) (page : Nat) (log : List Answer) :
    handedOut ((kind, .ok page) :: log) = (kind, page) :: handedOut log := rfl

theorem geometry_exchanged (memory : Memory) (kind : MemPage) (next : Option Nat) (kind' : MemPage) :
    ((exchanged memory kind next).cls kind').geometry = (memory.cls kind').geometry :=
  memory.cls_setCls_proj kind { memory.cls kind with sharedPageList := next } Pages.geometry rfl kind'

theorem used_exchanged (memory : Memory) (kind : MemPage) (next : Option Nat) (kind' : MemPage) :
    ((exchanged memory kind next).cls kind').sharedPagesUsed = (memory.cls kind').sharedPagesUsed :=
  memory.cls_setCls_proj kind { memory.cls kind with sharedPageList := next } Pages.sharedPagesUsed rfl kind'

theorem listing_exchanged_self {l : List Nat} :
    Listing (exchanged memory kind next) kind l ↔ Linked memory.next next l := by
  rw [Listing, exchanged, Memory.cls_setCls_self, Memory.setCls_next]

theorem listing_exchanged_of_ne (h : kind' ≠ kind) {l : List Nat} :
    Listing (exchanged memory kind next) kind' l ↔ Listing memory kind' l := by
  rw [Listing, exchanged, Memory.cls_setCls_of_ne _ _ h, Memory.setCls_next, Listing]

theorem geometry_counted (memory : Memory) (kind kind' : MemPage) :
    ((counted memory kind).cls kind').geometry = (memory.cls kind').geometry :=
  memory.cls_setCls_proj kind
    { memory.cls kind with sharedPagesUsed := ((memory.cls kind).sharedPagesUsed + 1) % 2 ^ 64 }
    Pages.geometry rfl kind'

theorem listing_counted {l : List Nat} : Listing (counted memory kind) kind' l ↔ Listing memory kind' l := by
  have hhead := memory.cls_setCls_proj kind
    { memory.cls kind with sharedPagesUsed := ((memory.cls kind).sharedPagesUsed + 1) % 2 ^ 64 }
    Pages.sharedPageList rfl kind'
  rw [Listing, counted, hhead, Memory.setCls_next, Listing]

namespace Assigned

/-- A call that finds no page. -/
theorem nomem (h : Assigned memory log) (hhead : (memory.cls kind).sharedPageList = none) :
    Assigned memory ((kind, .error .nomem) :: log) := by
  refine ⟨h.laid, h.listed, h.gone, h.nodup, fun kind' hmem => ?_, h.used⟩
  rcases List.mem_cons.mp hmem with heq | hmem
  · obtain ⟨rfl, -⟩ := Prod.mk.inj heq
    rw [Listing, hhead]
    exact .nil
  · exact h.empty kind' hmem

/-- The list behind its first page. -/
theorem tail (h : Assigned memory log) (hhead : (memory.cls kind).sharedPageList = some page) :
    ∃ l, Listing memory kind (page :: l) ∧ Linked memory.next (memory.next page) l ∧
      ∀ q ∈ page :: l, q ∈ memory.pool.pagesOf kind := by
  obtain ⟨l, hl, hpages⟩ := h.listed kind
  have hl' : Linked memory.next (some page) l := by rwa [Listing, hhead] at hl
  obtain ⟨l, rfl, hrest⟩ := hl'.exists_cons
  exact ⟨l, hl, hrest, hpages⟩

/-- **The first page is taken.** -/
theorem pop (h : Assigned memory log) (hhead : (memory.cls kind).sharedPageList = some page)
    (hnext : next = memory.next page) : Assigned (exchanged memory kind next) log := by
  obtain ⟨l, hl, hrest, hpages⟩ := h.tail hhead
  refine ⟨h.laid.congr (geometry_exchanged memory kind next), fun kind' => ?_, fun kind' q hq => ?_, h.nodup,
    fun kind' hmem => ?_, fun kind' => (used_exchanged memory kind next kind').trans (h.used kind')⟩
  · rw [KndMemPool.pagesOf_congr (geometry_exchanged memory kind next kind')]
    by_cases hkind : kind' = kind
    · subst hkind
      refine ⟨l, ?_, fun q hq => hpages q (List.mem_cons_of_mem page hq)⟩
      rw [listing_exchanged_self, hnext]
      exact hrest
    · obtain ⟨l', hl', hpages'⟩ := h.listed kind'
      exact ⟨l', (listing_exchanged_of_ne hkind).mpr hl', hpages'⟩
  · rw [KndMemPool.pagesOf_congr (geometry_exchanged memory kind next kind')]
    obtain ⟨hq', hgone⟩ := h.gone kind' q hq
    refine ⟨hq', fun l' hl' hmem => ?_⟩
    by_cases hkind : kind' = kind
    · subst hkind
      rw [listing_exchanged_self, hnext] at hl'
      rw [hl'.unique hrest] at hmem
      exact hgone _ hl (List.mem_cons_of_mem page hmem)
    · exact hgone _ ((listing_exchanged_of_ne hkind).mp hl') hmem
  · by_cases hkind : kind' = kind
    · -- the list was not empty
      subst hkind
      have hnil := Linked.unique (h.empty kind' hmem) hl
      exact absurd hnil (by simp)
    · exact (listing_exchanged_of_ne hkind).mpr (h.empty kind' hmem)

/-- The pages of a class that were returned are not more than its pages. -/
theorem length_le (h : Assigned memory log) (kind : MemPage) :
    (handedOutOf log kind).length ≤ (memory.cls kind).numPages := by
  have hsub : handedOutOf log kind ⊆ (memory.pool.pagesOf kind).map (Prod.mk kind) := by
    intro p hp
    obtain ⟨hmem, heq⟩ := List.mem_filter.mp hp
    obtain ⟨kind', page⟩ := p
    have heq' : kind' = kind := by simpa using heq
    subst heq'
    exact List.mem_map_of_mem (h.gone kind' page hmem).1
  have hle := (List.subperm_of_subset (h.nodup.filter _) hsub).length_le
  rw [List.length_map, KndMemPool.pagesOf, length_pagesFrom] at hle
  exact hle

/-- **A page is returned**: it is no longer listed and no other call has returned it. -/
theorem count (h : Assigned memory log) (hpage : page ∈ memory.pool.pagesOf kind)
    (hgone : ∀ l, Listing memory kind l → page ∉ l) (hnew : (kind, page) ∉ handedOut log) :
    Assigned (counted memory kind) ((kind, .ok page) :: log) := by
  have hassigned : ∀ kind' q, (kind', q) ∈ handedOut ((kind, .ok page) :: log) →
      q ∈ memory.pool.pagesOf kind' ∧ ∀ l, Listing memory kind' l → q ∉ l := by
    intro kind' q hq
    rcases List.mem_cons.mp hq with heq | hq
    · obtain ⟨rfl, rfl⟩ := Prod.mk.inj heq
      exact ⟨hpage, hgone⟩
    · exact h.gone kind' q hq
  refine ⟨h.laid.congr (geometry_counted memory kind), fun kind' => ?_, fun kind' q hq => ?_,
    List.nodup_cons.mpr ⟨hnew, h.nodup⟩, fun kind' hmem => ?_, fun kind' => ?_⟩
  · rw [KndMemPool.pagesOf_congr (geometry_counted memory kind kind')]
    obtain ⟨l, hl, hpages⟩ := h.listed kind'
    exact ⟨l, listing_counted.mpr hl, hpages⟩
  · rw [KndMemPool.pagesOf_congr (geometry_counted memory kind kind')]
    exact ⟨(hassigned kind' q hq).1, fun l hl => (hassigned kind' q hq).2 l (listing_counted.mp hl)⟩
  · rcases List.mem_cons.mp hmem with heq | hmem
    · cases heq
    · exact listing_counted.mpr (h.empty kind' hmem)
  · by_cases hkind : kind' = kind
    · subst hkind
      have hlt : (handedOutOf log kind').length + 1 < 2 ^ 64 :=
        Nat.lt_of_le_of_lt (Nat.succ_le_succ (h.length_le kind')) (h.laid.numPages_lt kind')
      rw [counted, Memory.cls_setCls_self]
      simp only [h.used kind', handedOutOf, handedOut_ok, List.filter_cons, decide_true, if_true,
        List.length_cons]
      exact Nat.mod_eq_of_lt hlt
    · rw [counted, Memory.cls_setCls_of_ne _ _ hkind, h.used kind']
      simp [handedOutOf, Ne.symm hkind]

/-- The bytes of a page that was returned are in no list. -/
theorem listing_fill (h : Assigned memory log) (hmem : (kind, page) ∈ handedOut log)
    (data : Nat → Option Nat) {l : List Nat} :
    Listing (memory.fill kind page data) kind' l ↔ Listing memory kind' l := by
  obtain ⟨hpage, hgone⟩ := h.gone kind page hmem
  have hkeep : ∀ l, Listing memory kind' l → (∀ q ∈ l, q ∈ memory.pool.pagesOf kind') →
      Listing (memory.fill kind page data) kind' l := by
    intro l hl hpages
    refine Linked.congr hl fun q hq => Memory.next_fill h.laid data hpage (hpages q hq) fun hsame => ?_
    obtain ⟨rfl, rfl⟩ := Prod.mk.inj hsame
    exact hgone l hl hq
  obtain ⟨l₀, hl₀, hpages⟩ := h.listed kind'
  constructor
  · intro hl
    rw [Linked.unique hl (hkeep l₀ hl₀ hpages)]
    exact hl₀
  · intro hl
    rw [Linked.unique hl hl₀]
    exact hkeep l₀ hl₀ hpages

/-- **An owner fills its page.** -/
theorem fill (h : Assigned memory log) (hmem : (kind, page) ∈ handedOut log) (data : Nat → Option Nat) :
    Assigned (memory.fill kind page data) log := by
  refine ⟨h.laid, fun kind' => ?_, fun kind' q hq => ?_, h.nodup, fun kind' hnomem => ?_, h.used⟩
  · obtain ⟨l, hl, hpages⟩ := h.listed kind'
    exact ⟨l, (h.listing_fill hmem data).mpr hl, hpages⟩
  · obtain ⟨hq', hgone⟩ := h.gone kind' q hq
    exact ⟨hq', fun l hl => hgone l ((h.listing_fill hmem data).mp hl)⟩
  · exact (h.listing_fill hmem data).mpr (h.empty kind' hnomem)

end Assigned

end Lists

/-! ## (6) What is known of the other calls -/

namespace CallHolds

variable {memory : Memory} {log : List Answer} {kind : MemPage} {page : Nat} {next : Option Nat} {stage : Stage}

/-- A failed call is no news. -/
theorem nomem (h : CallHolds memory log stage) : CallHolds memory ((kind, .error .nomem) :: log) stage := by
  cases stage with
  | idle => trivial
  | calling => trivial
  | loaded => exact h
  | linked => exact h
  | popped => exact h

/-- **Another call takes the first page.** -/
theorem pop (h : CallHolds memory log stage) (hassigned : Assigned memory log)
    (hhead : (memory.cls kind).sharedPageList = some page) (hnext : next = memory.next page) :
    CallHolds (exchanged memory kind next) log stage := by
  obtain ⟨l, hl, hrest, -⟩ := hassigned.tail hhead
  -- what is listed after the exchange was listed before
  have hbefore : ∀ kind' l', Listing (exchanged memory kind next) kind' l' →
      ∃ l'', Listing memory kind' l'' ∧ ∀ q ∈ l', q ∈ l'' := by
    intro kind' l' hl'
    by_cases hkind : kind' = kind
    · subst hkind
      rw [listing_exchanged_self, hnext] at hl'
      refine ⟨_, hl, fun q hq => List.mem_cons_of_mem page ?_⟩
      rwa [hl'.unique hrest] at hq
    · exact ⟨l', (listing_exchanged_of_ne hkind).mp hl', fun q hq => hq⟩
  have hpages := fun kind' => KndMemPool.pagesOf_congr (geometry_exchanged memory kind next kind')
  cases stage with
  | idle => trivial
  | calling => trivial
  | loaded kind' q =>
      rw [CallHolds, hpages]
      exact h
  | linked kind' q next' =>
      rw [CallHolds, hpages]
      refine ⟨h.1, fun l' hl' hq => ?_⟩
      obtain ⟨l'', hl'', hsub⟩ := hbefore kind' l' hl'
      exact h.2 l'' hl'' (hsub q hq)
  | popped kind' q =>
      rw [CallHolds, hpages]
      refine ⟨h.1, fun l' hl' hq => ?_, h.2.2⟩
      obtain ⟨l'', hl'', hsub⟩ := hbefore kind' l' hl'
      exact h.2.1 l'' hl'' (hsub q hq)

/-- Another call returns its page. -/
theorem count (h : CallHolds memory log stage) (hne : stage.taken ≠ some (kind, page)) :
    CallHolds (counted memory kind) ((kind, .ok page) :: log) stage := by
  have hpages := fun kind' => KndMemPool.pagesOf_congr (geometry_counted memory kind kind')
  cases stage with
  | idle => trivial
  | calling => trivial
  | loaded kind' q =>
      rw [CallHolds, hpages]
      exact h
  | linked kind' q next' =>
      rw [CallHolds, hpages]
      exact ⟨h.1, fun l hl => h.2 l (listing_counted.mp hl)⟩
  | popped kind' q =>
      rw [CallHolds, hpages]
      refine ⟨h.1, fun l hl => h.2.1 l (listing_counted.mp hl), ?_⟩
      rw [handedOut_ok, List.mem_cons, not_or]
      exact ⟨fun heq => hne (congrArg some heq), h.2.2⟩

/-- **An owner fills its page**: a link that another call has read in it is of no use to that call. -/
theorem fill (h : CallHolds memory log stage) (hassigned : Assigned memory log)
    (hmem : (kind, page) ∈ handedOut log) (data : Nat → Option Nat) :
    CallHolds (memory.fill kind page data) log stage := by
  obtain ⟨hpage, hgone⟩ := hassigned.gone kind page hmem
  cases stage with
  | idle => trivial
  | calling => trivial
  | loaded => exact h
  | linked kind' q next' =>
      refine ⟨h.1, fun l hl hq => ?_⟩
      have hl' := (hassigned.listing_fill hmem data).mp hl
      rw [h.2 l hl' hq]
      refine (Memory.next_fill hassigned.laid data hpage h.1 fun hsame => ?_).symm
      obtain ⟨rfl, rfl⟩ := Prod.mk.inj hsame
      exact hgone l hl' hq
  | popped kind' q =>
      exact ⟨h.1, fun l hl => h.2.1 l ((hassigned.listing_fill hmem data).mp hl), h.2.2⟩

end CallHolds

/-! ## (7) Runs -/

/-- **No page is lost**: it is listed, it was returned, or a call has taken it. -/
def Race.Covered (s : Race ι) : Prop :=
  ∀ kind, ∀ page ∈ s.shared.pool.pagesOf kind, (∃ l, Listing s.shared kind l ∧ page ∈ l) ∨
    (kind, page) ∈ handedOut s.log ∨ ∃ t, s.stage t = .popped kind page

/-- What is known of the lists and of the calls. -/
abbrev Race.Sure (s : Race ι) : Prop := s.Holds Assigned CallHolds NotBoth

variable {s : Race ι}

/-- **An access keeps what is known.** -/
theorem Race.Sure.turn (h : s.Sure) {t : ι} {stage : Stage} (hstage : s.stage t = stage)
    {o : Outcome Memory Stage Answer} (ho : Access s.shared stage o) : Race.Sure (s.turn t o) := by
  have hassigned : Assigned s.shared s.log := h.shared
  have hcall : CallHolds s.shared s.log stage := hstage ▸ h.each t
  refine Threads.Holds.turn h (fun _ _ => NotBoth.symm) ?_ ?_ ?_
  · cases ho with
    | rest => exact hassigned
    | call => exact hassigned
    | empty kind hhead => exact hassigned.nomem hhead
    | load => exact hassigned
    | readNext => exact hassigned
    | retry => exact hassigned
    | pop kind page next hhead =>
        obtain ⟨l, hl, -, -⟩ := hassigned.tail hhead
        exact hassigned.pop hhead (hcall.2 _ hl (List.mem_cons_self ..))
    | count kind page => exact hassigned.count hcall.1 hcall.2.1 hcall.2.2
  · cases ho with
    | rest => exact hcall
    | call => trivial
    | empty => trivial
    | load kind page hhead =>
        obtain ⟨l, -, -, hpages⟩ := hassigned.tail hhead
        exact hpages page (List.mem_cons_self ..)
    | readNext kind page => exact ⟨hcall, fun _ _ _ => rfl⟩
    | retry => trivial
    | pop kind page next hhead =>
        obtain ⟨l, hl, hrest, hpages⟩ := hassigned.tail hhead
        have hnext := hcall.2 _ hl (List.mem_cons_self ..)
        refine ⟨?_, fun l' hl' => ?_, fun hmem => (hassigned.gone kind page hmem).2 _ hl (List.mem_cons_self ..)⟩
        · rw [KndMemPool.pagesOf_congr (geometry_exchanged s.shared kind next kind)]
          exact hcall.1
        · rw [listing_exchanged_self, hnext] at hl'
          rw [hl'.unique hrest]
          exact (List.nodup_cons.mp hl.nodup).1
    | count => trivial
  · rw [hstage]
    intro u _ hother hapart
    generalize s.stage u = other at hother hapart ⊢
    cases ho with
    | rest => exact ⟨hother, hapart⟩
    | call => exact ⟨hother, notBoth_of_taken rfl⟩
    | empty => exact ⟨hother.nomem, notBoth_of_taken rfl⟩
    | load => exact ⟨hother, notBoth_of_taken rfl⟩
    | readNext => exact ⟨hother, notBoth_of_taken rfl⟩
    | retry => exact ⟨hother, notBoth_of_taken rfl⟩
    | pop kind page next hhead =>
        obtain ⟨l, hl, -, -⟩ := hassigned.tail hhead
        refine ⟨hother.pop hassigned hhead (hcall.2 _ hl (List.mem_cons_self ..)), fun p hp hother' => ?_⟩
        -- the other call has taken a page that is no longer listed
        cases hp
        cases other with
        | popped kind' q =>
            cases hother'
            exact hother.2.1 _ hl (List.mem_cons_self ..)
        | _ => cases hother'
    | count kind page => exact ⟨hother.count (hapart _ rfl), notBoth_of_taken rfl⟩

/-- What another thread has taken it still has. -/
theorem popped_of_turn {t u : ι} {kind : MemPage} {page : Nat} {o : Outcome Memory Stage Answer}
    (hne : s.stage t ≠ .popped kind page) (hu : s.stage u = .popped kind page) :
    (s.turn t o).stage u = .popped kind page := by
  rw [Threads.stage_turn_of_ne, hu]
  rintro rfl
  exact hne hu

/-- **An access loses no page.** -/
theorem Race.Covered.turn (h : s.Covered) (hsure : s.Sure) {t : ι} {stage : Stage} (hstage : s.stage t = stage)
    {o : Outcome Memory Stage Answer} (ho : Access s.shared stage o) : Race.Covered (s.turn t o) := by
  have hassigned : Assigned s.shared s.log := hsure.shared
  have hcall : CallHolds s.shared s.log stage := hstage ▸ hsure.each t
  intro kind page hpage
  cases ho with
  | rest =>
      refine (h kind page hpage).imp_right fun hrest => hrest.imp_right fun ⟨u, hu⟩ => ⟨u, ?_⟩
      by_cases hut : u = t
      · subst hut
        rw [Threads.stage_turn_self, ← hstage, hu]
      · rw [Threads.stage_turn_of_ne hut, hu]
  | call =>
      exact (h kind page hpage).imp_right fun hrest =>
        hrest.imp_right fun ⟨u, hu⟩ => ⟨u, popped_of_turn (by simp [hstage]) hu⟩
  | empty =>
      exact (h kind page hpage).imp_right fun hrest =>
        hrest.imp_right fun ⟨u, hu⟩ => ⟨u, popped_of_turn (by simp [hstage]) hu⟩
  | load =>
      exact (h kind page hpage).imp_right fun hrest =>
        hrest.imp_right fun ⟨u, hu⟩ => ⟨u, popped_of_turn (by simp [hstage]) hu⟩
  | readNext =>
      exact (h kind page hpage).imp_right fun hrest =>
        hrest.imp_right fun ⟨u, hu⟩ => ⟨u, popped_of_turn (by simp [hstage]) hu⟩
  | retry =>
      exact (h kind page hpage).imp_right fun hrest =>
        hrest.imp_right fun ⟨u, hu⟩ => ⟨u, popped_of_turn (by simp [hstage]) hu⟩
  | pop kind' page' next hhead =>
      obtain ⟨l, hl, hrest, -⟩ := hassigned.tail hhead
      have hnext := hcall.2 _ hl (List.mem_cons_self ..)
      rw [Threads.shared_turn, KndMemPool.pagesOf_congr (geometry_exchanged s.shared kind' next kind)] at hpage
      rcases h kind page hpage with ⟨l', hl', hmem⟩ | hmem | ⟨u, hu⟩
      · by_cases hkind : kind = kind'
        · subst hkind
          rw [Linked.unique hl' hl] at hmem
          rcases List.mem_cons.mp hmem with rfl | hmem
          · exact .inr (.inr ⟨t, Threads.stage_turn_self⟩)
          · refine .inl ⟨l, ?_, hmem⟩
            rw [Threads.shared_turn, listing_exchanged_self, hnext]
            exact hrest
        · exact .inl ⟨l', (listing_exchanged_of_ne hkind).mpr hl', hmem⟩
      · exact .inr (.inl hmem)
      · exact .inr (.inr ⟨u, popped_of_turn (by simp [hstage]) hu⟩)
  | count kind' page' =>
      rw [Threads.shared_turn, KndMemPool.pagesOf_congr (geometry_counted s.shared kind' kind)] at hpage
      rcases h kind page hpage with ⟨l, hl, hmem⟩ | hmem | ⟨u, hu⟩
      · exact .inl ⟨l, listing_counted.mpr hl, hmem⟩
      · exact .inr (.inl (List.mem_cons_of_mem _ hmem))
      · by_cases hut : u = t
        · subst hut
          rw [hstage] at hu
          cases hu
          exact .inr (.inl (List.mem_cons_self ..))
        · refine .inr (.inr ⟨u, ?_⟩)
          rw [Threads.stage_turn_of_ne hut, hu]

/-- A page in the log. -/
theorem mem_handedOut {log : List Answer} {kind : MemPage} {page : Nat} (h : (kind, .ok page) ∈ log) :
    (kind, page) ∈ handedOut log :=
  List.mem_filterMap.mpr ⟨_, h, rfl⟩

/-- **Every event keeps what is known.** -/
theorem Race.sure_step {e : RaceEvent ι} (h : s.Sure ∧ s.Covered) (howned : s.Owned e) :
    Race.Sure (s.step e) ∧ Race.Covered (s.step e) := by
  obtain ⟨hsure, hcovered⟩ := h
  cases e with
  | turn t act =>
      have haccess := access_advance s.shared (s.stage t) act
      exact ⟨hsure.turn rfl haccess, hcovered.turn hsure rfl haccess⟩
  | fill kind page data =>
      have hassigned : Assigned s.shared s.log := hsure.shared
      have hmem := mem_handedOut howned
      refine ⟨Threads.Holds.write hsure (hassigned.fill hmem data) fun stage hstage =>
        hstage.fill hassigned hmem data, fun kind' q hq => ?_⟩
      refine (hcovered kind' q hq).imp_left ?_
      rintro ⟨l, hl, hmem'⟩
      exact ⟨l, (hassigned.listing_fill hmem data).mpr hl, hmem'⟩

omit [DecidableEq ι] in
/-- **What is known gives the promise.** -/
theorem Race.Sure.served (h : s.Sure) (hcovered : s.Covered) : s.Served := by
  have hassigned : Assigned s.shared s.log := h.shared
  refine ⟨?_, fun kind hnomem page hpage => ?_, fun _ => hassigned.used⟩
  · refine List.Pairwise.imp_of_mem ?_ hassigned.nodup
    intro p q hp hq hne
    exact hassigned.laid.apart_pages (hassigned.gone p.1 p.2 hp).1 (hassigned.gone q.1 q.2 hq).1 hne
  · refine (hcovered kind page hpage).resolve_left ?_
    rintro ⟨l, hl, hmem⟩
    rw [Linked.unique hl (hassigned.empty kind hnomem)] at hmem
    exact List.not_mem_nil hmem

/-- The calls before the first access. -/
def Race.start (memory : Memory) : Race ι := { shared := memory, stage := fun _ => .idle }

omit [DecidableEq ι] in
theorem Fresh.sure {memory : Memory} (h : Fresh memory) (hshared : memory.pool.type = .shared) :
    (Race.start memory : Race ι).Sure ∧ (Race.start memory : Race ι).Covered := by
  have hlist : ∀ kind, Listing memory kind (memory.pool.pagesOf kind) := fun kind => by
    rw [Listing, h.shared hshared kind]
    exact h.listed (by simp [hshared]) kind
  refine ⟨⟨⟨h.laid, fun kind => ⟨_, hlist kind, fun _ hmem => hmem⟩, ?_, List.nodup_nil, ?_, ?_⟩,
    fun _ => trivial, fun _ _ _ => notBoth_of_taken rfl⟩, fun kind page hpage => .inl ⟨_, hlist kind, hpage⟩⟩
  · exact fun kind page hmem => absurd hmem List.not_mem_nil
  · exact fun kind hmem => absurd hmem List.not_mem_nil
  · exact fun kind => (h.unused kind).2

/-- **A shared pool serves its callers** in every interleaving. -/
theorem served_of_reaches {settings : MemPage → Setting} {calloc : Calloc settings} {next : Nat → Option Nat}
    {memory : Memory} (halloc : allocCapacity calloc (kndMempoolNew .shared settings) next = .ok memory)
    {s : Race ι} (hrun : Reaches Race.step Race.Owned (Race.start memory) s) : s.Served := by
  obtain ⟨hfresh, htype⟩ := fresh_of_allocCapacity halloc
  have hsure : s.Sure ∧ s.Covered :=
    hrun.invariant (I := fun s => s.Sure ∧ s.Covered) (hfresh.sure htype)
      fun _ _ hinv howned => Race.sure_step hinv howned
  exact hsure.1.served hsure.2

/-- Two callers load the same head; the second one is the owner of the page when the first one reads the link in
it, and the exchange fails. -/
def staleLink : List (RaceEvent Bool) :=
  [.turn false (.call .tiny), .turn false .load, .turn true (.call .tiny), .turn true .load, .turn true .readNext,
    .turn true (.exchange false), .turn true .count, .fill .tiny 160 fun _ => some 160, .turn false .readNext,
    .turn false (.exchange false), .turn false .load, .turn false .readNext, .turn false (.exchange false),
    .turn false .count]

theorem served_of_reaches_staleLink :
    Race.Served (staleLink.foldl Race.step (Race.start (smallPool .shared))) :=
  served_of_reaches (allocCapacity_smallPool .shared)
    (Reaches.refl.foldl ⟨trivial, trivial, trivial, trivial, trivial, trivial, trivial, List.mem_cons_self ..,
      trivial, trivial, trivial, trivial, trivial, trivial, trivial⟩)

/-- Both have a page of their own. -/
example : (handedOut (staleLink.foldl Race.step (Race.start (smallPool .shared))).log) =
    [(.tiny, 176), (.tiny, 160)] := rfl

end Mempool

end Knowdy
