import Knowdy.WorkerMemory

/-! # What the confirmed commits keep while a worker goes on

A confirmed commit stays on `snapshot->commits`, but the pool that its pages may come from is rewound before
the next task, which then hands out the same pages from the first one on.

1. what is held, and the runs that stay below what was left,
2. the invariant,
3. taking and writing a page,
4. the programs of a task,
5. confirmations and resets: `keepsConfirmed_of_reaches`, `overwritten_by_next_task`. -/

namespace Knowdy

/-- The addresses of a cell that stay among the pages of the task. -/
def Cell.OwnLinks : Cell → PageAddr → Prop
  | .commit c, b => c.classStateRefs = some b ∨ c.procStateRefs = some b
  | .state st, b => st.children = some b
  | .stateRef ref, b => ref.state = some b ∨ ref.next = some b
  | .other, _ => False

theorem Cell.OwnLinks.links {k : Cell} {b : PageAddr} (h : k.OwnLinks b) : k.Links b := by
  cases k with
  | commit c => exact .inr h
  | state st => exact .inr (.inl h)
  | stateRef ref => exact h
  | other => exact h

theorem Cell.links_of_prev {k : Cell} {b : PageAddr} (h : k.asCommit.prev = some b) : k.Links b := by
  cases k with
  | commit c => exact .inl h
  | state st => cases h
  | stateRef ref => cases h
  | other => cases h

namespace WorkerMemory

variable {s s' : WorkerMemory} {a b x : PageAddr} {k : Cell}

/-! ## (1) What is held -/

/-- The page is on a free list of the pool of the user. -/
def Free (s : WorkerMemory) (a : PageAddr) : Prop :=
  a.pool = .user ∧ a.index ∈ (s.pools .user).sharedPageList a.kind

/-- The shared state or the task itself points to the page. -/
def Root (s : WorkerMemory) (a : PageAddr) : Prop :=
  s.commits = some a ∨ (∃ owner, s.states owner = some a) ∨ a ∈ s.own

/-- **The page is held**: it can be reached from `snapshot->commits`, from the states of a class or a proc or
from a page of the running task. -/
def Held (s : WorkerMemory) (a : PageAddr) : Prop := ∃ r, s.Root r ∧ Reach Cell.Links s.cells r a

/-- The page can be reached from `snapshot->commits`. -/
def Live (s : WorkerMemory) (a : PageAddr) : Prop :=
  ∃ c, s.commits = some c ∧ Reach Cell.Links s.cells c a

/-- The page can be reached from `snapshot->commits` or from the states of a class or a proc. -/
def Shared (s : WorkerMemory) (a : PageAddr) : Prop :=
  ∃ r, (s.commits = some r ∨ ∃ owner, s.states owner = some r) ∧ Reach Cell.Links s.cells r a

/-- How many pages of a kind an event takes from the pool of the task. -/
def Event.taskPages (s : WorkerMemory) : Event → MemPage → Nat
  | .ensureCommit site, .small => if s.commit = none ∧ site.pool = .task then 1 else 0
  | .classCommitState _ _, .tiny | .classInstCommitState _, .tiny | .procCommitState _ _, .tiny => 2
  | .otherPage .task kind _, kind' => if kind = kind' then 1 else 0
  | _, _ => 0

/-- The next `n` pages of a kind in the pool of the task come before those that earlier tasks have left. -/
def Room (s : WorkerMemory) (kind : MemPage) (n : Nat) : Prop :=
  ∀ a ∈ s.left, a.pool = .task → a.kind = kind → 0 < n → (s.pools .task).pagesUsed kind + n ≤ a.index

/-- **The event stays below what was left**: counted from the last reset, the task takes fewer pages of each
kind from the pool of the task than come before the first page that an earlier task has left there. -/
def Below (s : WorkerMemory) (e : Event) : Prop :=
  ∀ a ∈ s.left, a.pool = .task → 0 < e.taskPages s a.kind →
    (s.pools .task).pagesUsed a.kind + e.taskPages s a.kind ≤ a.index

instance (s : WorkerMemory) (e : Event) : Decidable (s.Below e) := by
  unfold Below
  infer_instance

theorem Below.room {e : Event} (h : s.Below e) (kind : MemPage) : s.Room kind (e.taskPages s kind) := by
  rintro a ha hpool rfl hpos
  exact h a ha hpool hpos

/-- **Every confirmed commit is as it was**: the list of commits is the list of the confirmed ones, and what
can be reached from one of them has the contents it had when the commit was confirmed. -/
structure KeepsConfirmed (s : WorkerMemory) : Prop where
  listed : Linked (fun a => (s.cells a).asCommit.prev) s.commits (s.confirmed.map (·.commit))
  contents : ∀ x ∈ s.confirmed, ∀ a, Reach Cell.Links x.image x.commit a → s.cells a = x.image a

/-- A worker before its first task, in a repository that may have commits. -/
structure Started (s : WorkerMemory) : Prop where
  incr : (s.pools .task).type = .incr
  shared : (s.pools .user).type = .shared
  nodup : ∀ kind, ((s.pools .user).sharedPageList kind).Nodup
  listed : Linked (fun a => (s.cells a).asCommit.prev) s.commits (s.confirmed.map (·.commit))
  images : ∀ x ∈ s.confirmed, x.image = s.cells
  held : ∀ a, s.Held a → ¬s.Free a ∧ a ∉ s.objects
  objects : ∀ a ∈ s.objects, ¬s.Free a
  left : ∀ a, a.pool = .task → s.Held a ∨ a ∈ s.objects → a ∈ s.left
  leaves : s.leaves = false
  own : s.own = []
  commit : s.commit = none
  refs : s.classInstStateRefs = none

theorem Live.held (h : s.Live a) : s.Held a := by
  obtain ⟨c, hc, hreach⟩ := h
  exact ⟨c, .inl hc, hreach⟩

theorem Shared.held (h : s.Shared a) : s.Held a := by
  obtain ⟨r, hc | hstates, hreach⟩ := h
  · exact ⟨r, .inl hc, hreach⟩
  · exact ⟨r, .inr (.inl hstates), hreach⟩

theorem Held.link (h : s.Held a) (hlink : (s.cells a).Links b) : s.Held b := by
  obtain ⟨r, hr, hreach⟩ := h
  exact ⟨r, hr, .link hreach hlink⟩

theorem held_of_own (h : a ∈ s.own) : s.Held a := ⟨a, .inr (.inr h), .root⟩

theorem held_of_states {owner : Nat} (h : s.states owner = some a) : s.Held a :=
  ⟨a, .inr (.inl ⟨owner, h⟩), .root⟩

/-! ## (2) The invariant -/

/-- **What holds between two steps.** Of the pool of the task, the shared state reaches only what earlier tasks
have left, as long as the task has put nothing there. -/
structure Sound (s : WorkerMemory) : Prop extends KeepsConfirmed s where
  incr : (s.pools .task).type = .incr
  shared : (s.pools .user).type = .shared
  nodup : ∀ kind, ((s.pools .user).sharedPageList kind).Nodup
  held : ∀ a, s.Held a → ¬s.Free a ∧ a ∉ s.objects
  objects : ∀ a ∈ s.objects, ¬s.Free a
  traced : ∀ a, s.Held a → a.pool = .task → a ∈ s.left ∨ a ∈ s.own
  untouched : s.leaves = false → ∀ a, s.Shared a → a.pool = .task → a ∈ s.left

/-- **What holds while a task is working**: its own pages are not live, and the references and states it
writes to are among them. -/
structure Working (s : WorkerMemory) : Prop extends Sound s where
  notLive : ∀ a ∈ s.own, ¬s.Live a
  commit : ∀ c, s.commit = some c → c ∈ s.own
  refs : ∀ r, s.classInstStateRefs = some r → r ∈ s.own
  closed : ∀ a ∈ s.own, ∀ b, (s.cells a).OwnLinks b → b ∈ s.own
  prev : ∀ a ∈ s.own, (s.cells a).asCommit.prev = none
  apart : s.leaves = false → ∀ a ∈ s.own, ¬s.Shared a
  ownUsed : ∀ a ∈ s.own, a.pool = .task → a.index < (s.pools .task).pagesUsed a.kind
  objectsUsed : ∀ a ∈ s.objects, a.pool = .task →
    a ∈ s.left ∨ a.index < (s.pools .task).pagesUsed a.kind

/-- The invariant. -/
structure Inv (s : WorkerMemory) : Prop where
  sound : s.Sound
  working : s.done = false → s.Working

theorem Sound.live_of_listed (h : s.Sound) {c : PageAddr} (hc : c ∈ s.confirmed.map (·.commit)) :
    s.Live c := by
  have hlisted := h.listed
  cases hcommits : s.commits with
  | none =>
      rw [hcommits] at hlisted
      generalize s.confirmed.map (·.commit) = l at hlisted hc
      cases hlisted
      cases hc
  | some head =>
      rw [hcommits] at hlisted
      exact ⟨head, hcommits, hlisted.reach (fun _ _ => Cell.links_of_prev) hc⟩

/-- What a confirmed commit reached is live. -/
theorem Sound.live_of_image (h : s.Sound) {y : Confirmed} (hy : y ∈ s.confirmed)
    (ha : Reach Cell.Links y.image y.commit a) : s.Live a := by
  obtain ⟨head, hhead, hreach⟩ := h.live_of_listed (List.mem_map_of_mem hy)
  exact ⟨head, hhead, hreach.trans (ha.congr fun b hb => h.contents y hy b hb)⟩

/-! ## (3) Writing and taking a page -/

theorem setCell_self : (s.setCell x k).cells x = k := Function.update_self _ _ _

theorem setCell_of_ne (h : a ≠ x) : (s.setCell x k).cells a = s.cells a := Function.update_of_ne h _ _

/-- **A write that points to held pages** makes nothing held. -/
theorem held_setCell (hk : ∀ b, k.Links b → s.Held b) (h : (s.setCell x k).Held a) : s.Held a := by
  obtain ⟨r, hr, hreach⟩ := h
  refine hreach.closed ⟨r, hr, .root⟩ fun a b ha hlink => ?_
  by_cases hax : a = x
  · subst hax
    rw [setCell_self] at hlink
    exact hk b hlink
  · rw [setCell_of_ne hax] at hlink
    exact ha.link hlink

theorem live_setCell_iff (hx : ¬s.Live x) : (s.setCell x k).Live a ↔ s.Live a :=
  exists_congr fun _ => and_congr_right fun hc => reach_update_iff fun h => hx ⟨_, hc, h⟩

theorem shared_setCell_iff (hx : ¬s.Shared x) : (s.setCell x k).Shared a ↔ s.Shared a :=
  exists_congr fun _ => and_congr_right fun hr => reach_update_iff fun h => hx ⟨_, hr, h⟩

/-- **A write to a page that is not live**, nor shared before the task has put something there. -/
theorem Sound.setCell (h : s.Sound) (hx : ¬s.Live x) (hshared : s.leaves = false → ¬s.Shared x)
    (hk : ∀ b, k.Links b → s.Held b) : (s.setCell x k).Sound where
  listed := by
    refine h.listed.congr fun a ha => ?_
    rw [setCell_of_ne]
    rintro rfl
    exact hx (h.live_of_listed ha)
  contents y hy a ha := by
    rw [setCell_of_ne]
    · exact h.contents y hy a ha
    · rintro rfl
      exact hx (h.live_of_image hy ha)
  incr := h.incr
  shared := h.shared
  nodup := h.nodup
  held a ha := h.held a (held_setCell hk ha)
  objects := h.objects
  traced a ha := h.traced a (held_setCell hk ha)
  untouched hleaves a ha := h.untouched hleaves a ((shared_setCell_iff (hshared hleaves)).mp ha)

/-- **A write to a page of the task.** -/
theorem Working.setCell (h : s.Working) (hx : x ∈ s.own) (hk : ∀ b, k.Links b → s.Held b)
    (hown : ∀ b, k.OwnLinks b → b ∈ s.own) (hprev : k.asCommit.prev = none) : (s.setCell x k).Working where
  toSound := h.toSound.setCell (h.notLive x hx) (fun hleaves => h.apart hleaves x hx) hk
  notLive a ha hlive := h.notLive a ha ((live_setCell_iff (h.notLive x hx)).mp hlive)
  commit := h.commit
  refs := h.refs
  closed a ha b hb := by
    by_cases hax : a = x
    · subst hax
      rw [setCell_self] at hb
      exact hown b hb
    · rw [setCell_of_ne hax] at hb
      exact h.closed a ha b hb
  prev a ha := by
    by_cases hax : a = x
    · subst hax
      rw [setCell_self]
      exact hprev
    · rw [setCell_of_ne hax]
      exact h.prev a ha
  apart hleaves a ha hshared :=
    h.apart hleaves a ha ((shared_setCell_iff (h.apart hleaves x hx)).mp hshared)
  ownUsed := h.ownUsed
  objectsUsed := h.objectsUsed

/-- **A write to a page that is not held**, of contents that point nowhere. -/
theorem Working.setCell_of_not_held (h : s.Working) (hx : ¬s.Held x) (hk : ∀ b, ¬k.Links b) :
    (s.setCell x k).Working where
  toSound := h.toSound.setCell (fun hlive => hx hlive.held) (fun _ hshared => hx hshared.held)
    fun b hb => (hk b hb).elim
  notLive a ha hlive := h.notLive a ha ((live_setCell_iff fun hlive => hx hlive.held).mp hlive)
  commit := h.commit
  refs := h.refs
  closed a ha b hb := by
    rw [setCell_of_ne (by rintro rfl; exact hx (held_of_own ha))] at hb
    exact h.closed a ha b hb
  prev a ha := by
    rw [setCell_of_ne (by rintro rfl; exact hx (held_of_own ha))]
    exact h.prev a ha
  apart hleaves a ha hshared :=
    h.apart hleaves a ha ((shared_setCell_iff fun hshared => hx hshared.held).mp hshared)
  ownUsed := h.ownUsed
  objectsUsed := h.objectsUsed

theorem held_addOwn (hk : ∀ b, ¬(s.cells x).Links b) (h : (s.addOwn x).Held a) : s.Held a ∨ a = x := by
  obtain ⟨r, hr, hreach⟩ := h
  refine hreach.closed (S := fun a => s.Held a ∨ a = x) ?_ fun a b ha hlink => ?_
  · rcases hr with hc | hstates | hown
    · exact .inl ⟨r, .inl hc, .root⟩
    · exact .inl ⟨r, .inr (.inl hstates), .root⟩
    · rcases List.mem_cons.mp hown with rfl | hown
      · exact .inr rfl
      · exact .inl (held_of_own hown)
  · rcases ha with ha | rfl
    · exact .inl (ha.link hlink)
    · exact (hk b hlink).elim

/-- **A new page of the task**, which points nowhere. -/
theorem Working.addOwn (h : s.Working) (hheld : ¬s.Held x) (hfree : ¬s.Free x) (hobject : x ∉ s.objects)
    (hused : x.pool = .task → x.index < (s.pools .task).pagesUsed x.kind)
    (hk : ∀ b, ¬(s.cells x).Links b) : (s.addOwn x).Working where
  toKeepsConfirmed := ⟨h.listed, h.contents⟩
  incr := h.incr
  shared := h.shared
  nodup := h.nodup
  held a ha := by
    rcases held_addOwn hk ha with ha | rfl
    · exact h.held a ha
    · exact ⟨hfree, hobject⟩
  objects := h.objects
  traced a ha hpool := by
    rcases held_addOwn hk ha with ha | rfl
    · exact (h.traced a ha hpool).imp_right (List.mem_cons_of_mem x)
    · exact .inr (List.mem_cons_self ..)
  untouched := h.untouched
  notLive a ha := by
    rcases List.mem_cons.mp ha with rfl | ha
    · exact fun hlive => hheld (Live.held hlive)
    · exact h.notLive a ha
  commit c hc := List.mem_cons_of_mem x (h.commit c hc)
  refs r hr := List.mem_cons_of_mem x (h.refs r hr)
  closed a ha b hb := by
    rcases List.mem_cons.mp ha with rfl | ha
    · exact (hk b hb.links).elim
    · exact List.mem_cons_of_mem x (h.closed a ha b hb)
  prev a ha := by
    rcases List.mem_cons.mp ha with rfl | ha
    · cases hprev : (s.cells a).asCommit.prev with
      | none => exact hprev
      | some b => exact (hk b (Cell.links_of_prev hprev)).elim
    · exact h.prev a ha
  apart hleaves a ha := by
    rcases List.mem_cons.mp ha with rfl | ha
    · exact fun hshared => hheld (Shared.held hshared)
    · exact h.apart hleaves a ha
  ownUsed a ha := by
    rcases List.mem_cons.mp ha with rfl | ha
    · exact hused
    · exact h.ownUsed a ha
  objectsUsed := h.objectsUsed

/-- The page has just been handed out. -/
structure Fresh (s : WorkerMemory) (a : PageAddr) : Prop where
  working : s.Working
  notHeld : ¬s.Held a
  notFree : ¬s.Free a
  notObject : a ∉ s.objects
  used : a.pool = .task → a.index < (s.pools .task).pagesUsed a.kind

/-- What a program that takes pages leaves alone. -/
structure Grown (s s' : WorkerMemory) : Prop where
  own : ∀ a ∈ s.own, a ∈ s'.own
  commit : s'.commit = s.commit
  refs : s'.classInstStateRefs = s.classInstStateRefs
  states : s'.states = s.states

theorem Grown.trans {s'' : WorkerMemory} (h : Grown s s') (h' : Grown s' s'') : Grown s s'' where
  own a ha := h'.own a (h.own a ha)
  commit := h'.commit.trans h.commit
  refs := h'.refs.trans h.refs
  states := h'.states.trans h.states

/-- What an incremental pool hands out. -/
theorem page_incr {p p' : PagePool} {kind : MemPage} {index : Nat} (htype : p.type = .incr)
    (h : p.page kind = some (index, p')) :
    index = p.pagesUsed kind ∧ p'.type = .incr ∧
      p'.pagesUsed = Function.update p.pagesUsed kind (p.pagesUsed kind + 1) := by
  rw [PagePool.page, htype] at h
  by_cases hfull : p.pagesUsed kind + 1 > p.numPages kind
  · simp only [if_pos hfull] at h
    cases h
  · simp only [if_neg hfull, Option.some.injEq, Prod.mk.injEq] at h
    obtain ⟨rfl, rfl⟩ := h
    exact ⟨rfl, rfl, rfl⟩

/-- What a shared pool hands out. -/
theorem page_shared {p p' : PagePool} {kind : MemPage} {index : Nat} (htype : p.type = .shared)
    (h : p.page kind = some (index, p')) : ∃ rest, p.sharedPageList kind = index :: rest ∧
      p'.type = .shared ∧ p'.sharedPageList = Function.update p.sharedPageList kind rest := by
  rw [PagePool.page, htype] at h
  simp only [PagePool.getSharedPage] at h
  cases hlist : p.sharedPageList kind with
  | nil =>
      rw [hlist] at h
      cases h
  | cons first rest =>
      rw [hlist] at h
      simp only [Option.some.injEq, Prod.mk.injEq] at h
      obtain ⟨rfl, rfl⟩ := h
      exact ⟨rest, rfl, htype, rfl⟩

theorem pools_setPool_self (pool : PoolName) (p : PagePool) : (s.setPool pool p).pools pool = p :=
  Function.update_self _ _ _

theorem pools_setPool_of_ne {pool pool' : PoolName} (h : pool' ≠ pool) (p : PagePool) :
    (s.setPool pool p).pools pool' = s.pools pool' := Function.update_of_ne h _ _

/-- Another state of a pool, in which no more pages are free and no fewer are used. -/
theorem Working.setPool (h : s.Working) {pool : PoolName} {p : PagePool}
    (hincr : ((s.setPool pool p).pools .task).type = .incr)
    (hshared : ((s.setPool pool p).pools .user).type = .shared)
    (hnodup : ∀ kind, (((s.setPool pool p).pools .user).sharedPageList kind).Nodup)
    (hfree : ∀ a, (s.setPool pool p).Free a → s.Free a)
    (hused : ∀ kind, (s.pools .task).pagesUsed kind ≤ ((s.setPool pool p).pools .task).pagesUsed kind) :
    (s.setPool pool p).Working where
  listed := h.listed
  contents := h.contents
  incr := hincr
  shared := hshared
  nodup := hnodup
  held a ha := ⟨fun hf => (h.held a ha).1 (hfree a hf), (h.held a ha).2⟩
  objects a ha hf := h.objects a ha (hfree a hf)
  traced := h.traced
  untouched := h.untouched
  notLive := h.notLive
  commit := h.commit
  refs := h.refs
  closed := h.closed
  prev := h.prev
  apart := h.apart
  ownUsed a ha hpool := (h.ownUsed a ha hpool).trans_le (hused a.kind)
  objectsUsed a ha hpool := (h.objectsUsed a ha hpool).imp_right fun hlt => hlt.trans_le (hused a.kind)

/-- **The next page of the pool of the task** is new to the task, and earlier tasks have not left it. -/
theorem Working.next_unused (h : s.Working) {kind : MemPage} {n : Nat} (hroom : s.Room kind (n + 1)) :
    ¬s.Held ⟨.task, kind, (s.pools .task).pagesUsed kind⟩ ∧
      (⟨.task, kind, (s.pools .task).pagesUsed kind⟩ : PageAddr) ∉ s.objects := by
  set next : PageAddr := ⟨.task, kind, (s.pools .task).pagesUsed kind⟩ with hnext
  have hleft : next ∉ s.left := by
    intro hmem
    have hle : (s.pools .task).pagesUsed kind + (n + 1) ≤ (s.pools .task).pagesUsed kind :=
      hroom next hmem rfl rfl (Nat.succ_pos n)
    omega
  have hused : ¬next.index < (s.pools .task).pagesUsed next.kind := Nat.lt_irrefl _
  constructor
  · intro hheld
    rcases h.traced next hheld rfl with hmem | hown
    · exact hleft hmem
    · exact hused (h.ownUsed next hown rfl)
  · intro hobject
    rcases h.objectsUsed next hobject rfl with hmem | hlt
    · exact hleft hmem
    · exact hused hlt

/-- **A page of the pool of the task** was the next one of its kind. -/
theorem Working.page_task (h : s.Working) {kind : MemPage} {n : Nat} (hroom : s.Room kind (n + 1))
    {index : Nat} {p : PagePool} (hp : (s.pools .task).page kind = some (index, p)) :
    (s.setPool .task p).Fresh ⟨.task, kind, index⟩ ∧ (s.setPool .task p).Room kind n := by
  obtain ⟨rfl, htype, hused⟩ := page_incr h.incr hp
  obtain ⟨hheld, hobject⟩ := h.next_unused hroom
  have htask : (s.setPool .task p).pools .task = p := pools_setPool_self .task p
  have huser : (s.setPool .task p).pools .user = s.pools .user := pools_setPool_of_ne (by decide) p
  have hself : p.pagesUsed kind = (s.pools .task).pagesUsed kind + 1 := by rw [hused, Function.update_self]
  refine ⟨⟨?_, hheld, ?_, hobject, fun _ => ?_⟩, ?_⟩
  · refine h.setPool (by rw [htask, htype]) (by rw [huser, h.shared]) (by rw [huser]; exact h.nodup) ?_ ?_
    · rintro a ⟨hpool, hmem⟩
      rw [huser] at hmem
      exact ⟨hpool, hmem⟩
    · intro kind'
      rw [htask]
      by_cases hkind : kind' = kind
      · rw [hkind, hself]
        exact Nat.le_succ _
      · rw [hused, Function.update_of_ne hkind]
  · rintro ⟨hpool, -⟩
    cases hpool
  · rw [htask]
    exact hself ▸ Nat.lt_succ_self _
  · -- one page less is left of the room
    intro a ha hpool hkind _
    have hle : (s.pools .task).pagesUsed kind + (n + 1) ≤ a.index := hroom a ha hpool hkind (Nat.succ_pos n)
    rw [htask, hself]
    omega

/-- **A page of the pool of the user** was on the free list. -/
theorem Working.page_user (h : s.Working) {kind : MemPage} {index : Nat} {p : PagePool}
    (hp : (s.pools .user).page kind = some (index, p)) : (s.setPool .user p).Fresh ⟨.user, kind, index⟩ := by
  obtain ⟨rest, hlist, htype, hlists⟩ := page_shared h.shared hp
  have huser : (s.setPool .user p).pools .user = p := pools_setPool_self .user p
  have htask : (s.setPool .user p).pools .task = s.pools .task := pools_setPool_of_ne (by decide) p
  have hself : p.sharedPageList kind = rest := by rw [hlists, Function.update_self]
  have hother : ∀ kind', kind' ≠ kind → p.sharedPageList kind' = (s.pools .user).sharedPageList kind' := by
    intro kind' hne
    rw [hlists, Function.update_of_ne hne]
  have hnodup := h.nodup kind
  rw [hlist, List.nodup_cons] at hnodup
  have hfirst : s.Free ⟨.user, kind, index⟩ := by
    refine ⟨rfl, ?_⟩
    show index ∈ (s.pools .user).sharedPageList kind
    rw [hlist]
    exact List.mem_cons_self ..
  refine ⟨?_, ?_, ?_, ?_, fun hpool => by cases hpool⟩
  · refine h.setPool (by rw [htask, h.incr]) (by rw [huser, htype]) (fun kind' => ?_) ?_
      fun kind' => by rw [htask]
    · rw [huser]
      by_cases hkind : kind' = kind
      · rw [hkind, hself]
        exact hnodup.2
      · rw [hother kind' hkind]
        exact h.nodup kind'
    · -- the free lists get shorter
      rintro a ⟨hpool, hmem⟩
      refine ⟨hpool, ?_⟩
      rw [huser] at hmem
      by_cases hkind : a.kind = kind
      · rw [hkind, hself] at hmem
        rw [hkind, hlist]
        exact List.mem_cons_of_mem index hmem
      · rwa [hother a.kind hkind] at hmem
  · exact fun hheld => (h.held _ hheld).1 hfirst
  · rintro ⟨-, hmem⟩
    rw [huser] at hmem
    exact hnodup.1 (hself ▸ hmem)
  · exact fun hobject => h.objects _ hobject hfirst

/-- **`knd_mempool_page`** hands out a page that is not held. -/
theorem yields_mempoolPage (h : s.Working) {pool : PoolName} {kind : MemPage} {n : Nat}
    (hroom : pool = .task → s.Room kind (n + 1)) :
    Yields (mempoolPage pool kind) s
      (fun a s' => s'.Fresh a ∧ Grown s s' ∧ (pool = .task → s'.Room kind n)) Working := by
  rw [Yields, run_mempoolPage]
  cases hp : (s.pools pool).page kind with
  | none => exact h
  | some r =>
      obtain ⟨index, p⟩ := r
      cases pool with
      | task =>
          obtain ⟨hfresh, hroom'⟩ := h.page_task (hroom rfl) hp
          exact ⟨hfresh, ⟨fun _ ha => ha, rfl, rfl, rfl⟩, fun _ => hroom'⟩
      | user => exact ⟨h.page_user hp, ⟨fun _ ha => ha, rfl, rfl, rfl⟩, fun h => by cases h⟩

/-- **A page for a commit, a state or a reference** becomes a page of the task. -/
theorem yields_newCell (h : s.Working) {pool : PoolName} {kind : MemPage} {n : Nat}
    (hroom : pool = .task → s.Room kind (n + 1)) (hk : ∀ b, ¬k.Links b) :
    Yields (newCell pool kind k) s (fun a s' => s'.Working ∧ a ∈ s'.own ∧ Grown s s' ∧
      (pool = .task → s'.Room kind n)) Working := by
  refine (yields_mempoolPage h hroom).bind ?_
  rintro a s₁ ⟨hfresh, hgrown, hnext⟩
  have hrun : (store a k >>= fun _ => modify (addOwn a) >>= fun _ => pure a : MemM PageAddr).run s₁
      = .ok a ((s₁.setCell a k).addOwn a) := rfl
  refine Yields.returning hrun ?_
  have hself : ∀ b, ¬((s₁.setCell a k).cells a).Links b := by
    rw [setCell_self]
    exact hk
  have hnone : ∀ b, k.Links b → s₁.Held b := fun b hb => (hk b hb).elim
  have hnotHeld : ¬(s₁.setCell a k).Held a := fun hheld => hfresh.notHeld (held_setCell hnone hheld)
  refine ⟨(hfresh.working.setCell_of_not_held hfresh.notHeld hk).addOwn hnotHeld hfresh.notFree
    hfresh.notObject hfresh.used hself, List.mem_cons_self .., ?_, hnext⟩
  exact ⟨fun b hb => List.mem_cons_of_mem a (hgrown.own b hb), hgrown.commit, hgrown.refs, hgrown.states⟩

/-! ## (4) The programs of a task -/

theorem yields_ctxCommit {Q : WorkerMemory → Prop} (hQ : Q s) :
    Yields ctxCommit s (fun c s' => s' = s ∧ s.commit = some c) Q := by
  rw [Yields, run_ctxCommit]
  cases hc : s.commit with
  | none => exact hQ
  | some c => exact ⟨rfl, rfl⟩

/-- A commit of the task. -/
theorem Working.setCommit (h : s.Working) {c : PageAddr} (hc : c ∈ s.own) : (s.setCommit c).Working where
  listed := h.listed
  contents := h.contents
  incr := h.incr
  shared := h.shared
  nodup := h.nodup
  held := h.held
  objects := h.objects
  traced := h.traced
  untouched := h.untouched
  notLive := h.notLive
  commit c' hc' := by
    cases hc'
    exact hc
  refs := h.refs
  closed := h.closed
  prev := h.prev
  apart := h.apart
  ownUsed := h.ownUsed
  objectsUsed := h.objectsUsed

/-- A reference to a new instance. -/
theorem Working.addInstRef (h : s.Working) {ref : PageAddr} (href : ref ∈ s.own) :
    (s.addInstRef ref).Working where
  listed := h.listed
  contents := h.contents
  incr := h.incr
  shared := h.shared
  nodup := h.nodup
  held := h.held
  objects := h.objects
  traced := h.traced
  untouched := h.untouched
  notLive := h.notLive
  commit := h.commit
  refs r hr := by
    cases hr
    exact href
  closed := h.closed
  prev := h.prev
  apart := h.apart
  ownUsed := h.ownUsed
  objectsUsed := h.objectsUsed

theorem held_setStates {owner : Nat} {state : PageAddr} (hstate : state ∈ s.own)
    (h : (s.setStates owner state).Held a) : s.Held a := by
  obtain ⟨r, hc | ⟨owner', hr⟩ | hown, hreach⟩ := h
  · exact ⟨r, .inl hc, hreach⟩
  · by_cases heq : owner' = owner
    · -- the new head is a page of the task
      subst heq
      have hself : (s.setStates owner' state).states owner' = some state := Function.update_self _ _ _
      cases hself.symm.trans hr
      exact ⟨state, .inr (.inr hstate), hreach⟩
    · have hother : (s.setStates owner state).states owner' = s.states owner' := Function.update_of_ne heq _ _
      exact ⟨r, .inr (.inl ⟨owner', hother.symm.trans hr⟩), hreach⟩
  · exact ⟨r, .inr (.inr hown), hreach⟩

/-- Another head of the states of a class or a proc. -/
theorem Working.setStates (h : s.Working) {owner : Nat} {state : PageAddr} (hstate : state ∈ s.own) :
    (s.setStates owner state).Working where
  listed := h.listed
  contents := h.contents
  incr := h.incr
  shared := h.shared
  nodup := h.nodup
  held a ha := h.held a (held_setStates hstate ha)
  objects := h.objects
  traced a ha := h.traced a (held_setStates hstate ha)
  untouched hleaves := by cases hleaves
  notLive := h.notLive
  commit := h.commit
  refs := h.refs
  closed := h.closed
  prev := h.prev
  apart hleaves := by cases hleaves
  ownUsed := h.ownUsed
  objectsUsed := h.objectsUsed

/-- An object that the shared state points to. -/
theorem Working.addObject (h : s.Working) (hheld : ¬s.Held x) (hfree : ¬s.Free x)
    (hused : x.pool = .task → x.index < (s.pools .task).pagesUsed x.kind) : (s.addObject x).Working where
  listed := h.listed
  contents := h.contents
  incr := h.incr
  shared := h.shared
  nodup := h.nodup
  held a ha := by
    refine ⟨(h.held a ha).1, fun hmem => ?_⟩
    rcases List.mem_cons.mp hmem with rfl | hmem
    · exact hheld ha
    · exact (h.held a ha).2 hmem
  objects a ha := by
    rcases List.mem_cons.mp ha with rfl | ha
    · exact hfree
    · exact h.objects a ha
  traced := h.traced
  untouched := h.untouched
  notLive := h.notLive
  commit := h.commit
  refs := h.refs
  closed := h.closed
  prev := h.prev
  apart := h.apart
  ownUsed := h.ownUsed
  objectsUsed a ha hpool := by
    rcases List.mem_cons.mp ha with rfl | ha
    · exact .inr (hused hpool)
    · exact h.objectsUsed a ha hpool

/-- The contents of a state. -/
theorem Working.setState (h : s.Working) (hx : x ∈ s.own) {st : StateCell}
    (hcommit : ∀ b, st.commit = some b → b ∈ s.own) (hchildren : ∀ b, st.children = some b → b ∈ s.own)
    (hnext : ∀ b, st.next = some b → s.Held b) : (s.setCell x (.state st)).Working := by
  refine h.setCell hx ?_ hchildren rfl
  rintro b (hb | hb | hb)
  · exact held_of_own (hcommit b hb)
  · exact held_of_own (hchildren b hb)
  · exact hnext b hb

/-- The contents of a reference. -/
theorem Working.setStateRef (h : s.Working) (hx : x ∈ s.own) {ref : StateRefCell}
    (hstate : ∀ b, ref.state = some b → b ∈ s.own) (hnext : ∀ b, ref.next = some b → b ∈ s.own) :
    (s.setCell x (.stateRef ref)).Working := by
  refine h.setCell hx ?_ ?_ rfl
  · rintro b (hb | hb)
    · exact held_of_own (hstate b hb)
    · exact held_of_own (hnext b hb)
  · rintro b (hb | hb)
    · exact hstate b hb
    · exact hnext b hb

/-- The contents of a commit that is not linked yet. -/
theorem Working.setCommitCell (h : s.Working) (hx : x ∈ s.own) {commit : CommitCell}
    (hprev : commit.prev = none) (hclass : ∀ b, commit.classStateRefs = some b → b ∈ s.own)
    (hproc : ∀ b, commit.procStateRefs = some b → b ∈ s.own) : (s.setCell x (.commit commit)).Working := by
  refine h.setCell hx ?_ ?_ hprev
  · rintro b (hb | hb | hb)
    · rw [hprev] at hb
      cases hb
    · exact held_of_own (hclass b hb)
    · exact held_of_own (hproc b hb)
  · rintro b (hb | hb)
    · exact hclass b hb
    · exact hproc b hb

theorem Working.classStateRefs (h : s.Working) {c : PageAddr} (hc : c ∈ s.own) :
    ∀ b, (s.cells c).asCommit.classStateRefs = some b → b ∈ s.own := by
  intro b hb
  refine h.closed c hc b ?_
  cases hcell : s.cells c with
  | commit commit =>
      rw [hcell] at hb
      exact .inl hb
  | state st => rw [hcell] at hb; cases hb
  | stateRef ref => rw [hcell] at hb; cases hb
  | other => rw [hcell] at hb; cases hb

theorem Working.procStateRefs (h : s.Working) {c : PageAddr} (hc : c ∈ s.own) :
    ∀ b, (s.cells c).asCommit.procStateRefs = some b → b ∈ s.own := by
  intro b hb
  refine h.closed c hc b ?_
  cases hcell : s.cells c with
  | commit commit =>
      rw [hcell] at hb
      exact .inr hb
  | state st => rw [hcell] at hb; cases hb
  | stateRef ref => rw [hcell] at hb; cases hb
  | other => rw [hcell] at hb; cases hb

/-- **`knd_commit_new`** in a handler. -/
theorem working_ensureCommit (h : s.Working) (site : CommitSite) (hbelow : s.Below (.ensureCommit site)) :
    (finalState (ensureCommit site) s).Working := by
  refine Yields.iff_finalState.mp (Yields.get_bind (Yields.ite (fun hnone => ?_) fun _ => h))
  have hroom : site.pool = .task → s.Room .small (0 + 1) := by
    intro hpool
    have hpages : Event.taskPages s (.ensureCommit site) .small = 1 := if_pos ⟨hnone, hpool⟩
    rw [Nat.zero_add, ← hpages]
    exact hbelow.room .small
  refine (yields_newCell h hroom ?_).bind ?_
  · rintro b (hb | hb | hb) <;> cases hb
  · rintro c s₁ ⟨h₁, hc, -⟩
    exact Yields.returning rfl (h₁.setCommit hc)

/-- **The end of `knd_import_class_inst`.** -/
theorem working_kndImportClassInst (h : s.Working) (entry : Nat) :
    (finalState (kndImportClassInst entry) s).Working := by
  have huser : ∀ {s : WorkerMemory} {kind : MemPage}, PoolName.user = .task → s.Room kind (0 + 1) :=
    fun h => by cases h
  refine Yields.iff_finalState.mp ((yields_newCell h huser ?_).bind ?_)
  · rintro b (hb | hb | hb) <;> cases hb
  rintro state s₁ ⟨h₁, hstate, -⟩
  have h₂ : (s₁.setCell state (.state { numid := 1, phase := .created })).Working :=
    h₁.setState hstate (fun b hb => by cases hb) (fun b hb => by cases hb) fun b hb => by cases hb
  refine Yields.bind (I := fun _ s' => s' = s₁.setCell state (.state { numid := 1, phase := .created }))
    (Yields.returning rfl rfl) ?_
  rintro - s₂ rfl
  refine (yields_newCell h₂ huser ?_).bind ?_
  · rintro b (hb | hb) <;> cases hb
  rintro ref s₃ ⟨h₃, href, hgrown₃, -⟩
  refine Yields.returning rfl (Working.addInstRef (h₃.setStateRef href ?_ h₃.refs) href)
  rintro b hb
  cases hb
  exact hgrown₃.own state hstate

/-- **`commit_state`** of a class, with the children of a selection. -/
theorem yields_commitState (h : s.Working) (phase : StatePhase) {n : Nat} (hroom : s.Room .tiny (n + 1)) :
    Yields (commitState phase) s
      (fun state s' => s'.Working ∧ state ∈ s'.own ∧ s'.Room .tiny n) Working := by
  refine (yields_ctxCommit h).bind ?_
  rintro c s₁ ⟨rfl, hc⟩
  refine (yields_newCell h (fun _ => hroom) ?_).bind ?_
  · rintro b (hb | hb | hb) <;> cases hb
  rintro state s₂ ⟨h₂, hstate, hgrown, hroom₂⟩
  have hcommit : ∀ b, some c = some b → b ∈ s₂.own := by
    rintro b hb
    cases hb
    exact hgrown.own c (h.commit c hc)
  -- in both cases the state points to pages of the task only
  have hwrite : ∀ st : StateCell, st.commit = some c → st.next = none →
      (∀ b, st.children = some b → b ∈ s₂.own) →
      Yields (store state (.state st) >>= fun _ => pure state) s₂
        (fun state s' => s'.Working ∧ state ∈ s'.own ∧ s'.Room .tiny n) Working := by
    intro st hst hnext hchildren
    have hrun : (store state (.state st) >>= fun _ => pure state : MemM PageAddr).run s₂
        = .ok state (s₂.setCell state (.state st)) := rfl
    refine Yields.returning hrun ⟨?_, hstate, ?_⟩
    · refine h₂.setState hstate (fun b hb => hcommit b (hst ▸ hb)) hchildren fun b hb => ?_
      rw [hnext] at hb
      cases hb
    · exact hroom₂ rfl
  refine Yields.get_bind ?_
  by_cases hphase : phase = .selected
  · rw [if_pos hphase]
    exact hwrite _ rfl rfl h₂.refs
  · rw [if_neg hphase]
    exact hwrite _ rfl rfl fun b hb => by cases hb

/-- **A new reference in a commit.** -/
theorem yields_addClassStateRef (h : s.Working) (entry : Nat) {state : PageAddr} (hstate : state ∈ s.own)
    (hroom : s.Room .tiny 1) : Yields (addClassStateRef entry state) s (fun _ => Working) Working := by
  refine (yields_ctxCommit h).bind ?_
  rintro c s₁ ⟨rfl, hc⟩
  refine (yields_newCell (n := 0) h (fun _ => hroom) ?_).bind ?_
  · rintro b (hb | hb) <;> cases hb
  rintro ref s₂ ⟨h₂, href, hgrown, -⟩
  have hc₂ : c ∈ s₂.own := hgrown.own c (h.commit c hc)
  refine Yields.returning rfl (Working.setCommitCell (h₂.setStateRef href ?_ ?_) hc₂ ?_ ?_ ?_)
  · rintro b hb
    cases hb
    exact hgrown.own state hstate
  · exact h₂.classStateRefs hc₂
  · exact h₂.prev c hc₂
  · rintro b hb
    cases hb
    exact href
  · exact h₂.procStateRefs hc₂

/-- **`knd_class_commit_state`.** -/
theorem working_kndClassCommitState (h : s.Working) (entry : Nat) (phase : StatePhase)
    (hroom : s.Room .tiny 2) : (finalState (kndClassCommitState entry phase) s).Working := by
  refine Yields.iff_finalState.mp ((yields_commitState h phase hroom).bind ?_)
  rintro state s₁ ⟨h₁, hstate, hroom₁⟩
  exact yields_addClassStateRef h₁ entry hstate hroom₁

/-- **`knd_class_inst_commit_state`.** -/
theorem working_kndClassInstCommitState (h : s.Working) (cls : Nat) (hroom : s.Room .tiny 2) :
    (finalState (kndClassInstCommitState cls) s).Working := by
  refine Yields.iff_finalState.mp ((yields_newCell (n := 1) h (fun _ => hroom) ?_).bind ?_)
  · rintro b (hb | hb | hb) <;> cases hb
  rintro state s₁ ⟨h₁, hstate, -, hroom₁⟩
  refine Yields.get_bind ?_
  set k : Cell := .state {
    numid := s₁.nextStateNumid cls, children := s₁.classInstStateRefs
    numChildren := s₁.numClassInstStateRefs, next := s₁.states cls } with hk
  -- the state points to the instances of the task and to the states the class already has
  have h₂ : (s₁.setCell state k).Working :=
    h₁.setState hstate (fun b hb => by cases hb) h₁.refs fun b hb => held_of_states hb
  refine Yields.bind (I := fun _ s' => s' = s₁.setCell state k) (Yields.returning rfl rfl) ?_
  rintro - s₂ rfl
  refine Yields.bind (I := fun _ s' => s' = (s₁.setCell state k).setStates cls state)
    (Yields.returning rfl rfl) ?_
  rintro - s₃ rfl
  exact yields_addClassStateRef (h₂.setStates hstate) cls hstate (hroom₁ rfl)

/-- **`knd_proc_commit_state`.** -/
theorem working_kndProcCommitState (h : s.Working) (proc : Nat) (phase : StatePhase)
    (hroom : s.Room .tiny 2) : (finalState (kndProcCommitState proc phase) s).Working := by
  refine Yields.iff_finalState.mp ((yields_ctxCommit h).bind ?_)
  rintro c s₁ ⟨rfl, hc⟩
  refine (yields_newCell (n := 1) h (fun _ => hroom) ?_).bind ?_
  · rintro b (hb | hb | hb) <;> cases hb
  rintro state s₂ ⟨h₂, hstate, hgrown, hroom₂⟩
  have hc₂ : c ∈ s₂.own := hgrown.own c (h.commit c hc)
  set k : Cell := .state { phase, commit := some c, next := s₂.states proc } with hk
  have h₃ : (s₂.setCell state k).Working := by
    refine h₂.setState hstate (fun b hb => ?_) (fun b hb => by cases hb) fun b hb => held_of_states hb
    cases hb
    exact hc₂
  refine Yields.get_bind ?_
  refine Yields.bind (I := fun _ s' => s' = s₂.setCell state k) (Yields.returning rfl rfl) ?_
  rintro - s₃ rfl
  refine Yields.bind (I := fun _ s' => s' = (s₂.setCell state k).setStates proc state)
    (Yields.returning rfl rfl) ?_
  rintro - s₄ rfl
  refine (yields_newCell (n := 0) (h₃.setStates hstate) (fun _ => hroom₂ rfl) ?_).bind ?_
  · rintro b (hb | hb) <;> cases hb
  rintro ref s₅ ⟨h₅, href, hgrown₅, -⟩
  have hc₅ : c ∈ s₅.own := hgrown₅.own c hc₂
  refine Yields.returning rfl (Working.setCommitCell (h₅.setStateRef href ?_ ?_) hc₅ ?_ ?_ ?_)
  · rintro b hb
    cases hb
    exact hgrown₅.own state hstate
  · exact h₅.procStateRefs hc₅
  · exact h₅.prev c hc₅
  · exact h₅.classStateRefs hc₅
  · rintro b hb
    cases hb
    exact href

/-- **Any other page.** -/
theorem working_otherPage (h : s.Working) (pool : PoolName) (kind : MemPage) (keep : Bool)
    (hbelow : s.Below (.otherPage pool kind keep)) : (finalState (otherPage pool kind keep) s).Working := by
  have hroom : pool = .task → s.Room kind (0 + 1) := by
    rintro rfl
    have hpages : Event.taskPages s (.otherPage .task kind keep) kind = 1 := if_pos rfl
    rw [Nat.zero_add, ← hpages]
    exact hbelow.room kind
  refine Yields.iff_finalState.mp ((yields_mempoolPage h hroom).bind ?_)
  rintro a s₁ ⟨hfresh, -, -⟩
  have h₂ : (s₁.setCell a .other).Working := hfresh.working.setCell_of_not_held hfresh.notHeld fun _ => id
  cases keep with
  | false => exact Yields.returning rfl h₂
  | true =>
      refine Yields.returning rfl (h₂.addObject (fun hheld => ?_) hfresh.notFree hfresh.used)
      exact hfresh.notHeld (held_setCell (k := .other) (fun b hb => False.elim hb) hheld)

/-- **A write to an object** of another kind. -/
theorem working_writeObject (h : s.Working) (a : PageAddr) : (finalState (writeObject a) s).Working := by
  refine Yields.iff_finalState.mp (Yields.get_bind (Yields.ite (fun hmem => ?_) fun _ => h))
  refine Yields.returning rfl (h.setCell_of_not_held (fun hheld => ?_) fun _ => id)
  exact (h.held a hheld).2 hmem

/-! The resolution of a commit writes to states of the task. -/

/-- The task is working on the pages `l`. -/
def WorkingOn (l : List PageAddr) (s : WorkerMemory) : Prop := s.Working ∧ s.own = l

theorem refChain_own (h : s.Working) {n : Nat} {head : Option PageAddr} (hhead : ∀ r, head = some r → r ∈ s.own) :
    ∀ r ∈ refChain s.cells n head, r ∈ s.own := by
  induction n generalizing head with
  | zero =>
      rintro r hr
      cases hr
  | succ n ih =>
      cases head with
      | none =>
          rintro r hr
          cases hr
      | some ref =>
          rintro r hr
          rcases List.mem_cons.mp hr with rfl | hr
          · exact hhead r rfl
          · refine ih (fun next hnext => ?_) r hr
            refine h.closed ref (hhead ref rfl) next ?_
            cases hcell : s.cells ref with
            | commit commit => rw [hcell] at hnext; cases hnext
            | state st => rw [hcell] at hnext; cases hnext
            | stateRef ref' => rw [hcell] at hnext; exact .inr hnext
            | other => rw [hcell] at hnext; cases hnext

theorem Working.state_of_ref (h : s.Working) {ref state : PageAddr} (href : ref ∈ s.own)
    (hstate : (s.cells ref).asStateRef.state = some state) : state ∈ s.own := by
  refine h.closed ref href state ?_
  cases hcell : s.cells ref with
  | commit commit => rw [hcell] at hstate; cases hstate
  | state st => rw [hcell] at hstate; cases hstate
  | stateRef ref' => rw [hcell] at hstate; exact .inl hstate
  | other => rw [hcell] at hstate; cases hstate

theorem Working.children (h : s.Working) {state : PageAddr} (hstate : state ∈ s.own) :
    ∀ r, (s.cells state).asState.children = some r → r ∈ s.own := by
  intro r hr
  refine h.closed state hstate r ?_
  cases hcell : s.cells state with
  | commit commit => rw [hcell] at hr; cases hr
  | state st => rw [hcell] at hr; exact hr
  | stateRef ref => rw [hcell] at hr; cases hr
  | other => rw [hcell] at hr; cases hr

section Resolve

variable {l : List PageAddr} {c : PageAddr}

theorem stable_setStateCommit (hc : c ∈ l) {state : PageAddr} (hstate : state ∈ l) :
    Moves (Stable (WorkingOn l)) (setStateCommit c state) := by
  rintro s ⟨h, rfl⟩
  refine ⟨h.setState hstate (fun b hb => ?_) (h.children hstate) fun b hb => ?_, rfl⟩
  · cases hb
    exact hc
  · -- the next state of the class stays where it was
    refine (held_of_own hstate).link ?_
    cases hcell : s.cells state with
    | commit commit => rw [hcell] at hb; cases hb
    | state st => rw [hcell] at hb; exact .inr (.inr hb)
    | stateRef ref => rw [hcell] at hb; cases hb
    | other => rw [hcell] at hb; cases hb

theorem stable_resolveRef (hc : c ∈ l) {ref : PageAddr} (href : ref ∈ l) :
    Moves (Stable (WorkingOn l)) (resolveRef c ref) := by
  rintro s ⟨h, rfl⟩
  rw [finalState, run_resolveRef, ← finalState]
  cases hstate : (s.cells ref).asStateRef.state with
  | none => exact ⟨h, rfl⟩
  | some state => exact stable_setStateCommit hc (h.state_of_ref href hstate) s ⟨h, rfl⟩

theorem stable_resolveClassRef (hc : c ∈ l) {ref : PageAddr} (href : ref ∈ l) :
    Moves (Stable (WorkingOn l)) (resolveClassRef c ref) := by
  rintro s ⟨h, rfl⟩
  rw [finalState, run_resolveClassRef, ← finalState]
  cases hstate : (s.cells ref).asStateRef.state with
  | none => exact ⟨h, rfl⟩
  | some state =>
      have hown := h.state_of_ref href hstate
      have hmoves : Moves (Stable (WorkingOn s.own)) (setStateCommit c state >>= fun _ =>
          (refChain s.cells (s.cells state).asState.numChildren (s.cells state).asState.children).forM
            (resolveRef c)) :=
        .bind (stable_setStateCommit hc hown) fun _ =>
          .forM fun r hr => stable_resolveRef hc (refChain_own h (h.children hown) r hr)
      exact (Moves.ite (fun _ => .pure _) fun _ => hmoves) s ⟨h, rfl⟩

/-- **`knd_resolve_commit`.** -/
theorem working_kndResolveCommit (h : s.Working) : (finalState kndResolveCommit s).Working := by
  refine Yields.iff_finalState.mp ((yields_ctxCommit h).bind ?_)
  rintro c s₁ ⟨rfl, hc⟩
  have hown := h.commit c hc
  refine Yields.get_bind (Yields.iff_finalState.mpr ?_)
  have hmoves : Moves (Stable (WorkingOn s₁.own)) ((refChain s₁.cells (s₁.cells c).asCommit.numClassStateRefs
      (s₁.cells c).asCommit.classStateRefs).forM (resolveClassRef c)) :=
    .forM fun r hr => stable_resolveClassRef hown (refChain_own h (h.classStateRefs hown) r hr)
  exact (hmoves s₁ ⟨h, rfl⟩).1

end Resolve

/-! ## (5) Confirmations, resets and runs -/

theorem held_pushCommit {c : PageAddr} (hown : c ∈ s.own) (h : (s.pushCommit c).Held a) : s.Held a := by
  obtain ⟨r, hc | hr, hreach⟩ := h
  · -- the new head is a page of the task
    cases hc
    exact ⟨c, .inr (.inr hown), hreach⟩
  · exact ⟨r, .inr hr, hreach⟩

/-- A commit that gets its link and becomes the head of the list. -/
theorem Working.pushCommit (h : s.Working) {c : PageAddr} (hown : c ∈ s.own)
    (hk : ∀ b, k.Links b → s.Held b) (hprev : k.asCommit.prev = s.commits) :
    ((s.setCell c k).pushCommit c).Sound := by
  have hset := h.toSound.setCell (h.notLive c hown) (fun hleaves => h.apart hleaves c hown) hk
  exact {
    listed := by
      refine .cons ?_
      show Linked _ ((s.setCell c k).cells c).asCommit.prev _
      rw [setCell_self, hprev]
      exact hset.listed
    contents := fun y hy a ha => by
      rcases List.mem_cons.mp hy with rfl | hy
      · rfl
      · exact hset.contents y hy a ha
    incr := h.incr, shared := h.shared, nodup := h.nodup
    held := fun a ha => hset.held a (held_pushCommit hown ha)
    objects := h.objects
    traced := fun a ha => hset.traced a (held_pushCommit hown ha)
    untouched := fun hleaves => by cases hleaves }

/-- **A confirmation.** -/
theorem inv_confirmCommit (h : s.Working) (now : Nat) : (finalState (confirmCommit now) s).Inv := by
  refine Yields.iff_finalState.mp ((yields_ctxCommit ⟨h.toSound, fun _ => h⟩).bind ?_)
  rintro c s₁ ⟨rfl, hc⟩
  have hown := h.commit c hc
  refine Yields.returning rfl ⟨h.pushCommit hown ?_ ?_, fun hdone => ?_⟩
  · intro b hb
    have hlinks : some b = s₁.commits ∨ (s₁.cells c).asCommit.classStateRefs = some b ∨
        (s₁.cells c).asCommit.procStateRefs = some b := by
      have hprev := h.prev c hown
      cases hhead : s₁.commits with
      | none =>
          simp only [linkToHead, hhead, Cell.Links, hprev] at hb
          rcases hb with hb | hb
          · cases hb
          · exact .inr hb
      | some head =>
          simp only [linkToHead, hhead, Cell.Links] at hb
          rcases hb with hb | hb
          · exact .inl hb.symm
          · exact .inr hb
    rcases hlinks with hhead | hclass | hproc
    · exact Live.held ⟨b, hhead.symm, .root⟩
    · exact held_of_own (h.classStateRefs hown b hclass)
    · exact held_of_own (h.procStateRefs hown b hproc)
  · show (s₁.linkToHead (s₁.cells c).asCommit).prev = s₁.commits
    cases hhead : s₁.commits with
    | none => simp only [linkToHead, hhead, h.prev c hown]
    | some head => simp only [linkToHead, hhead]
  · cases hdone

/-- **A reset** leaves the task without pages. -/
theorem Sound.kndTaskReset (h : s.Sound) : s.kndTaskReset.Working := by
  have htask : s.kndTaskReset.pools .task = (s.pools .task).reset := pools_setPool_self .task _
  have huser : s.kndTaskReset.pools .user = s.pools .user := pools_setPool_of_ne (by decide) _
  have hfree : ∀ a, s.kndTaskReset.Free a → s.Free a := by
    rintro a ⟨hpool, hmem⟩
    rw [huser] at hmem
    exact ⟨hpool, hmem⟩
  have hshared : ∀ a, s.kndTaskReset.Held a → s.Shared a := by
    rintro a ⟨r, hc | hstates | hown, hreach⟩
    · exact ⟨r, .inl hc, hreach⟩
    · exact ⟨r, .inr hstates, hreach⟩
    · cases hown
  have hheld : ∀ a, s.kndTaskReset.Held a → s.Held a := fun a ha => (hshared a ha).held
  have hleft : ∀ a, s.Shared a → a.pool = .task → a ∈ s.kndTaskReset.left := by
    intro a ha hpool
    show a ∈ s.objects ++ (if s.leaves then s.own else []) ++ s.left
    cases hleaves : s.leaves with
    | false => exact List.mem_append_right _ (h.untouched hleaves a ha hpool)
    | true =>
        rcases h.traced a ha.held hpool with hmem | hown
        · exact List.mem_append_right _ hmem
        · exact List.mem_append_left _ (List.mem_append_right _ hown)
  exact {
    listed := h.listed, contents := h.contents
    incr := by rw [htask]; exact h.incr
    shared := by rw [huser]; exact h.shared
    nodup := by rw [huser]; exact h.nodup
    held := fun a ha => ⟨fun hf => (h.held a (hheld a ha)).1 (hfree a hf), (h.held a (hheld a ha)).2⟩
    objects := fun a ha hf => h.objects a ha (hfree a hf)
    traced := fun a ha hpool => .inl (hleft a (hshared a ha) hpool)
    untouched := fun _ a ha hpool => hleft a ha hpool
    notLive := fun a ha => by cases ha
    commit := fun c hc => by cases hc
    refs := fun r hr => by cases hr
    closed := fun a ha => by cases ha
    prev := fun a ha => by cases ha
    apart := fun _ a ha => by cases ha
    ownUsed := fun a ha => by cases ha
    objectsUsed := fun a ha _ => .inl (List.mem_append_left _ (List.mem_append_left _ ha)) }

theorem Working.inv (h : s.Working) : s.Inv := ⟨h.toSound, fun _ => h⟩

/-- **One step.** -/
theorem Inv.step (h : s.Inv) (e : Event) (hbelow : s.Below e) : (s.step e).Inv := by
  by_cases hdone : s.done = true
  · -- after the confirmation only a reset does something
    cases e with
    | reset => exact h.sound.kndTaskReset.inv
    | _ =>
        simp only [WorkerMemory.step, if_pos hdone]
        exact h
  have hw := h.working (Bool.eq_false_iff.mpr hdone)
  cases e with
  | reset => exact h.sound.kndTaskReset.inv
  | ensureCommit site =>
      simp only [WorkerMemory.step, if_neg hdone]
      exact (working_ensureCommit hw site hbelow).inv
  | importClassInst entry =>
      simp only [WorkerMemory.step, if_neg hdone]
      exact (working_kndImportClassInst hw entry).inv
  | classCommitState entry phase =>
      simp only [WorkerMemory.step, if_neg hdone]
      exact (working_kndClassCommitState hw entry phase (hbelow.room .tiny)).inv
  | classInstCommitState cls =>
      simp only [WorkerMemory.step, if_neg hdone]
      exact (working_kndClassInstCommitState hw cls (hbelow.room .tiny)).inv
  | procCommitState proc phase =>
      simp only [WorkerMemory.step, if_neg hdone]
      exact (working_kndProcCommitState hw proc phase (hbelow.room .tiny)).inv
  | otherPage pool kind keep =>
      simp only [WorkerMemory.step, if_neg hdone]
      exact (working_otherPage hw pool kind keep hbelow).inv
  | writeObject a =>
      simp only [WorkerMemory.step, if_neg hdone]
      exact (working_writeObject hw a).inv
  | resolve =>
      simp only [WorkerMemory.step, if_neg hdone]
      exact (working_kndResolveCommit hw).inv
  | confirm now =>
      simp only [WorkerMemory.step, if_neg hdone]
      exact inv_confirmCommit hw now

theorem Started.inv (h : s.Started) : s.Inv := by
  have hsound : s.Sound := {
    listed := h.listed
    contents := fun x hx a _ => by rw [h.images x hx]
    incr := h.incr, shared := h.shared, nodup := h.nodup, held := h.held, objects := h.objects
    traced := fun a ha hpool => .inl (h.left a hpool (.inl ha))
    untouched := fun _ a ha hpool => h.left a hpool (.inl ha.held) }
  have hown : ∀ a, a ∉ s.own := by
    rw [h.own]
    exact fun a => List.not_mem_nil
  exact ⟨hsound, fun _ => {
    toSound := hsound
    notLive := fun a ha => (hown a ha).elim
    commit := fun c hc => by rw [h.commit] at hc; cases hc
    refs := fun r hr => by rw [h.refs] at hr; cases hr
    closed := fun a ha => (hown a ha).elim
    prev := fun a ha => (hown a ha).elim
    apart := fun _ a ha => (hown a ha).elim
    ownUsed := fun a ha => (hown a ha).elim
    objectsUsed := fun a ha hpool => .inl (h.left a hpool (.inr ha)) }⟩

/-- **The confirmed commits are kept** in every run of tasks in which no task comes, in the pool that its reset
has rewound, to a page that an earlier task has left. -/
theorem keepsConfirmed_of_reaches {s₀ s : WorkerMemory} (h₀ : s₀.Started)
    (h : Reaches step Below s₀ s) : s.KeepsConfirmed :=
  (h.invariant h₀.inv fun _ e hinv hbelow => hinv.step e hbelow).sound.toKeepsConfirmed

/-- A worker with `n` pages of each kind in both of its pools. -/
def start (n : Nat) : WorkerMemory where
  pools pool := {
    type := if pool = .task then .incr else .shared
    numPages := fun _ => n, pagesUsed := fun _ => 0, sharedPageList := fun _ => List.range n }
  cells _ := .other
  commits := none
  states _ := none
  objects := []
  commit := none
  classInstStateRefs := none
  numClassInstStateRefs := 0
  own := []
  leaves := false
  left := []
  done := false
  confirmed := []

theorem not_held_start (n : Nat) (a : PageAddr) : ¬(start n).Held a := by
  rintro ⟨r, hc | ⟨owner, hstate⟩ | hown, -⟩
  · cases hc
  · cases hstate
  · cases hown

theorem started_start (n : Nat) : (start n).Started where
  incr := rfl
  shared := rfl
  nodup _ := List.nodup_range
  listed := .nil
  images x hx := by cases hx
  held a ha := (not_held_start n a ha).elim
  objects a ha := by cases ha
  left a _ ha := by
    rcases ha with ha | ha
    · exact (not_held_start n a ha).elim
    · cases ha
  leaves := rfl
  own := rfl
  commit := rfl
  refs := rfl

/-- A task up to its confirmation: a class is imported by a handler. -/
def importClass (site : CommitSite) (entry now : Nat) : List Event :=
  [.reset, .ensureCommit site, .classCommitState entry .created, .resolve, .confirm now]

/-- A task that takes two pages for itself. -/
def scratch : List Event := [.reset, .otherPage .task .tiny false, .otherPage .task .tiny false]

/-- Three tasks. The second one takes the pages that the first one has given up, and then confirms a commit with
a class state; the third one takes them again and confirms the import of an instance. -/
def threeTasks : List Event :=
  scratch ++ scratch ++ [.ensureCommit .taskClassImport, .classCommitState 7 .created, .resolve, .confirm 5] ++
    scratch ++ [.ensureCommit .classInstImport, .importClassInst 9, .resolve, .confirm 6]

/-- The pool is rewound twice, and the pages below the states of the confirmed commit are used again. -/
theorem keepsConfirmed_of_reaches_threeTasks :
    (start 4).Started ∧ Reaches step Below (start 4) (threeTasks.foldl step (start 4)) ∧
      (threeTasks.foldl step (start 4)).confirmed.map (·.commit) = [⟨.user, .small, 1⟩, ⟨.user, .small, 0⟩] ∧
      (threeTasks.foldl step (start 4)).left = [⟨.task, .tiny, 3⟩, ⟨.task, .tiny, 2⟩, ⟨.user, .small, 0⟩] ∧
      (threeTasks.foldl step (start 4)).KeepsConfirmed := by
  have hrun : Reaches step Below (start 4) (threeTasks.foldl step (start 4)) :=
    Reaches.refl.foldl (by decide +kernel)
  exact ⟨started_start 4, hrun, by decide +kernel, by decide +kernel,
    keepsConfirmed_of_reaches (started_start 4) hrun⟩

/-- **The next task overwrites a confirmed commit** whose handler took it from the pool of the worker: the
page is handed out again, and the list of commits runs in a circle. -/
theorem overwritten_by_next_task : ¬∀ s₀ s : WorkerMemory, s₀.Started →
    Reaches step (fun _ _ => True) s₀ s → s.KeepsConfirmed := by
  intro hall
  set events := importClass .userClassImport 7 5 ++ importClass .userClassImport 8 6 with hevents
  have hkept := hall (start 4) (events.foldl step (start 4)) (started_start 4) (Reaches.refl.foldl (by decide))
  have hlist : (events.foldl step (start 4)).confirmed.map (·.commit)
      = [⟨.task, .small, 0⟩, ⟨.task, .small, 0⟩] := by decide +kernel
  have hnodup := hkept.listed.nodup
  rw [hlist] at hnodup
  exact (List.nodup_cons.mp hnodup).1 (List.mem_cons_self ..)

end WorkerMemory

end Knowdy
