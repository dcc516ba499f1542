import Knowdy.Lib.Effect
import Knowdy.Lib.Linked
import Knowdy.Lib.Pointers
import Knowdy.Lib.Runs
import Knowdy.Utils

/-! # The memory of a worker and the commits in it

`knd_mempool.c`, `knd_task.c`, `knd_commit.c`, `knd_state.c`, `knd_class.c`, `knd_class_inst.c`, `knd_proc.c`,
`knd_repo.commit.c`: a worker has a pool of its own, which `knd_task_reset` rewinds before each task, and the
pool of the user, which is never rewound. A commit, its class states and its state references take their
pages from one or the other, depending on the handler, and a confirmed commit is pushed on
`snapshot->commits`.

1. the pools and the pages,
2. the memory of a worker and its programs,
3. the events of a run.

The memory is shared by the objects of all kinds: a page that has been handed out twice is one cell. -/

namespace Knowdy

/-! ## (1) The pools -/

/-- `knd_mempage_t`. -/
inductive MemPage where
  | base | smallX4 | smallX2 | small | tiny
  deriving DecidableEq, Repr

/-- The allocation policy of a pool. -/
inductive AllocType where
  /-- `KND_ALLOC_INCR`: the pages follow each other and are never given back. -/
  | incr
  /-- `KND_ALLOC_SHARED`: the pages are on a free list. -/
  | shared
  deriving DecidableEq, Repr

/-- `struct kndMemPool`. -/
structure PagePool where
  /-- `type`. -/
  type : AllocType
  /-- `num_pages` and its siblings, by the kind of the page. -/
  numPages : MemPage → Nat
  /-- `pages_used` and its siblings: the pages handed out since the last reset. -/
  pagesUsed : MemPage → Nat
  /-- `shared_page_list` and its siblings. -/
  sharedPageList : MemPage → List Nat

/-- `get_shared_page`. -/
def PagePool.getSharedPage (self : PagePool) (kind : MemPage) : Option (Nat × PagePool) :=
  match self.sharedPageList kind with
  | [] => none   -- `knd_NOMEM`
  | index :: rest =>
      some (index, { self with sharedPageList := Function.update self.sharedPageList kind rest })

/-- `knd_mempool_page`. -/
def PagePool.page (self : PagePool) (kind : MemPage) : Option (Nat × PagePool) :=
  match self.type with
  | .shared => self.getSharedPage kind
  | .incr =>
      if self.pagesUsed kind + 1 > self.numPages kind then none   -- `knd_NOMEM`
      else some (self.pagesUsed kind,
        { self with pagesUsed := Function.update self.pagesUsed kind (self.pagesUsed kind + 1) })

/-- `knd_mempool_reset`: the counters of all kinds go back to zero. A free list is not touched. -/
def PagePool.reset (self : PagePool) : PagePool := { self with pagesUsed := fun _ => 0 }

/-- The pools a task works with. -/
inductive PoolName where
  /-- `task->mempool`. -/
  | task
  /-- `task->user_ctx->mempool`. -/
  | user
  deriving DecidableEq, Repr

/-- The address of a page. -/
structure PageAddr where
  pool : PoolName
  kind : MemPage
  index : Nat
  deriving DecidableEq, Repr

/-! ## (2) The memory of a worker -/

/-- `knd_state_phase`. -/
inductive StatePhase where
  | selected | created | updated | removed
  deriving DecidableEq, Repr

/-- `struct kndCommit`, as far as it is linked. -/
structure CommitCell where
  numid : Nat := 0
  timestamp : Nat := 0
  prev : Option PageAddr := none
  classStateRefs : Option PageAddr := none
  numClassStateRefs : Nat := 0
  procStateRefs : Option PageAddr := none
  deriving DecidableEq, Repr

/-- `struct kndState`. -/
structure StateCell where
  numid : Nat := 0
  phase : StatePhase := .selected
  commit : Option PageAddr := none
  children : Option PageAddr := none
  numChildren : Nat := 0
  next : Option PageAddr := none
  deriving DecidableEq, Repr

/-- `struct kndStateRef`: `obj` is the entry of the class, the instance or the proc. -/
structure StateRefCell where
  obj : Nat := 0
  state : Option PageAddr := none
  next : Option PageAddr := none
  deriving DecidableEq, Repr

/-- What a page holds. -/
inductive Cell where
  | commit (commit : CommitCell)
  | state (state : StateCell)
  | stateRef (ref : StateRefCell)
  /-- An object of another kind. -/
  | other
  deriving DecidableEq, Repr

namespace Cell

/-- The cell read as a commit. -/
def asCommit : Cell → CommitCell
  | commit c => c
  | _ => {}

/-- The cell read as a state. -/
def asState : Cell → StateCell
  | state st => st
  | _ => {}

/-- The cell read as a state reference. -/
def asStateRef : Cell → StateRefCell
  | stateRef ref => ref
  | _ => {}

/-- The addresses a cell holds. -/
def Links : Cell → PageAddr → Prop
  | commit c, b => c.prev = some b ∨ c.classStateRefs = some b ∨ c.procStateRefs = some b
  | state st, b => st.commit = some b ∨ st.children = some b ∨ st.next = some b
  | stateRef ref, b => ref.state = some b ∨ ref.next = some b
  | other, _ => False

end Cell

/-- A confirmed commit and the memory as it was then. -/
structure Confirmed where
  commit : PageAddr
  image : PageAddr → Cell

/-- The memory of a worker and what it keeps about its task. -/
structure WorkerMemory where
  /-- `task->mempool` and `task->user_ctx->mempool`. -/
  pools : PoolName → PagePool
  /-- The contents of the pages. -/
  cells : PageAddr → Cell
  /-- `snapshot->commits`. -/
  commits : Option PageAddr
  /-- `inst_states` of a class, `states` of a proc. -/
  states : Nat → Option PageAddr
  /-- The pages of objects of other kinds that the shared state points to: entries, bodies, items of an
  index. -/
  objects : List PageAddr
  /-- `task->ctx->commit`. -/
  commit : Option PageAddr
  /-- `task->ctx->class_inst_state_refs`. -/
  classInstStateRefs : Option PageAddr
  /-- `task->ctx->num_class_inst_state_refs`. -/
  numClassInstStateRefs : Nat
  /-- The pages of commits, states and references that the task has taken. -/
  own : List PageAddr
  /-- Has the task put one of them into the shared state? -/
  leaves : Bool
  /-- The pages that earlier tasks have left in the shared state. -/
  left : List PageAddr
  /-- Has the task confirmed its commit? -/
  done : Bool
  /-- The confirmed commits, the last one first. -/
  confirmed : List Confirmed

/-- A program of the worker: it returns an error code or stops at an assertion, which is the error `none`. -/
abbrev MemM (α : Type) := EStateM (Option KndErr) WorkerMemory α

namespace WorkerMemory

/-- Another state of a pool. -/
def setPool (self : WorkerMemory) (pool : PoolName) (p : PagePool) : WorkerMemory :=
  { self with pools := Function.update self.pools pool p }

/-- Another content of a page. -/
def setCell (a : PageAddr) (cell : Cell) (self : WorkerMemory) : WorkerMemory :=
  { self with cells := Function.update self.cells a cell }

/-- A page of the task. -/
def addOwn (a : PageAddr) (self : WorkerMemory) : WorkerMemory := { self with own := a :: self.own }

/-- Another head of the states of a class or a proc. -/
def setStates (owner : Nat) (state : PageAddr) (self : WorkerMemory) : WorkerMemory :=
  { self with states := Function.update self.states owner (some state), leaves := true }

/-- `task->ctx->commit`. -/
def setCommit (c : PageAddr) (self : WorkerMemory) : WorkerMemory := { self with commit := some c }

/-- Another head of `task->ctx->class_inst_state_refs`. -/
def addInstRef (ref : PageAddr) (self : WorkerMemory) : WorkerMemory :=
  { self with
    classInstStateRefs := some ref, numClassInstStateRefs := self.numClassInstStateRefs + 1 }

/-- An object that the shared state points to. -/
def addObject (a : PageAddr) (self : WorkerMemory) : WorkerMemory :=
  { self with objects := a :: self.objects }

/-- `assert(commit != NULL)`. -/
def ctxCommit : MemM PageAddr := fun s =>
  match s.commit with
  | none => .error none s
  | some c => .ok c s

theorem run_ctxCommit (s : WorkerMemory) : ctxCommit.run s = match s.commit with
    | none => .error none s
    | some c => .ok c s := rfl

/-- `knd_mempool_page`. -/
def mempoolPage (pool : PoolName) (kind : MemPage) : MemM PageAddr := fun s =>
  match (s.pools pool).page kind with
  | none => .error (some .nomem) s
  | some (index, p) => .ok ⟨pool, kind, index⟩ (s.setPool pool p)

theorem run_mempoolPage (pool : PoolName) (kind : MemPage) (s : WorkerMemory) :
    (mempoolPage pool kind).run s = match (s.pools pool).page kind with
      | none => .error (some .nomem) s
      | some (index, p) => .ok ⟨pool, kind, index⟩ (s.setPool pool p) := rfl

/-- A write to a page. -/
def store (a : PageAddr) (cell : Cell) : MemM Unit := modify (setCell a cell)

/-- A page for a commit, a state or a reference, with its first contents. -/
def newCell (pool : PoolName) (kind : MemPage) (cell : Cell) : MemM PageAddr := do
  let page ← mempoolPage pool kind
  store page cell
  modify (addOwn page)
  return page

/-- `knd_commit_new`. -/
def kndCommitNew (pool : PoolName) : MemM PageAddr := newCell pool .small (.commit { numid := 1 })

/-- `knd_state_new`. -/
def kndStateNew (pool : PoolName) : MemM PageAddr := newCell pool .tiny (.state {})

/-- `knd_state_ref_new`. -/
def kndStateRefNew (pool : PoolName) : MemM PageAddr := newCell pool .tiny (.stateRef {})

/-- The call sites of `knd_commit_new`. -/
inductive CommitSite where
  /-- `parse_class_import` of `knd_task.select.c`. -/
  | taskClassImport
  /-- `parse_proc_import` of `knd_task.select.c`. -/
  | taskProcImport
  /-- `parse_class_import` of `knd_repo.c`. -/
  | repoClassImport
  /-- `parse_class_import` of `knd_user.c`. -/
  | userClassImport
  /-- `knd_create_user`. -/
  | createUser
  /-- `parse_import_class_inst` of `knd_class.select.c`. -/
  | classInstImport
  /-- `run_remove_proc` of `knd_proc.select.c`. -/
  | procRemove
  /-- `parse_proc_inst_import` of `knd_proc.select.c`. -/
  | procInstSelect
  /-- `knd_import_proc_inst`. -/
  | procInstImport
  deriving DecidableEq, Repr

/-- The pool a call site takes the commit from. -/
def CommitSite.pool : CommitSite → PoolName
  | taskClassImport | classInstImport | procInstSelect => .user
  | taskProcImport | repoClassImport | userClassImport | createUser | procRemove | procInstImport => .task

/-- `if (!task->ctx->commit) knd_commit_new(…, &task->ctx->commit)`. -/
def ensureCommit (site : CommitSite) : MemM Unit := do
  let s ← get
  (if s.commit = none then do
    let c ← kndCommitNew site.pool
    modify (setCommit c)
  else pure ())

/-- The end of `knd_import_class_inst`: the state of the new instance and the reference to it. -/
def kndImportClassInst (entry : Nat) : MemM Unit := do
  let state ← kndStateNew .user
  store state (.state { numid := 1, phase := .created })
  let ref ← kndStateRefNew .user
  let s ← get
  store ref (.stateRef { obj := entry, state := some state, next := s.classInstStateRefs })
  modify (addInstRef ref)

/-- `commit_state` of `knd_class.c`, and the children that `knd_class_commit_state` adds to it. -/
def commitState (phase : StatePhase) : MemM PageAddr := do
  let c ← ctxCommit
  let state ← kndStateNew .task
  let s ← get
  (if phase = .selected then
    store state (.state {
      phase, commit := some c
      children := s.classInstStateRefs, numChildren := s.numClassInstStateRefs })
  else store state (.state { phase, commit := some c }))
  return state

/-- A new reference at the head of `commit->class_state_refs`. -/
def addClassStateRef (entry : Nat) (state : PageAddr) : MemM Unit := do
  let c ← ctxCommit
  let ref ← kndStateRefNew .task
  let s ← get
  let commit := (s.cells c).asCommit
  store ref (.stateRef { obj := entry, state := some state, next := commit.classStateRefs })
  store c (.commit { commit with
    classStateRefs := some ref, numClassStateRefs := commit.numClassStateRefs + 1 })

/-- `knd_class_commit_state`. -/
def kndClassCommitState (entry : Nat) (phase : StatePhase) : MemM Unit := do
  let state ← commitState phase
  addClassStateRef entry state

/-- The number of a new state of the instances of a class. -/
def nextStateNumid (self : WorkerMemory) (cls : Nat) : Nat :=
  match self.states cls with
  | none => 0
  | some head => (self.cells head).asState.numid + 1

/-- `knd_class_inst_commit_state`: the state also becomes the head of the states of the class. -/
def kndClassInstCommitState (cls : Nat) : MemM Unit := do
  let state ← kndStateNew .task
  let s ← get
  store state (.state {
    numid := s.nextStateNumid cls, children := s.classInstStateRefs
    numChildren := s.numClassInstStateRefs, next := s.states cls })
  modify (setStates cls state)
  addClassStateRef cls state

/-- `knd_proc_commit_state`. -/
def kndProcCommitState (proc : Nat) (phase : StatePhase) : MemM Unit := do
  let c ← ctxCommit
  let state ← kndStateNew .task
  let s ← get
  store state (.state { phase, commit := some c, next := s.states proc })
  modify (setStates proc state)
  let ref ← kndStateRefNew .task
  let s ← get
  let commit := (s.cells c).asCommit
  store ref (.stateRef { obj := proc, state := some state, next := commit.procStateRefs })
  store c (.commit { commit with procStateRefs := some ref })

/-- Any other allocation of the task; `keep` when the shared state points to the object from then on. -/
def otherPage (pool : PoolName) (kind : MemPage) (keep : Bool) : MemM Unit := do
  let page ← mempoolPage pool kind
  store page .other
  (if keep then modify (addObject page) else pure ())

/-- A write to an object of another kind that the shared state points to. -/
def writeObject (a : PageAddr) : MemM Unit := do
  let s ← get
  (if a ∈ s.objects then store a .other else pure ())

/-- The references of a list, which has `n` of them. -/
def refChain (cells : PageAddr → Cell) : Nat → Option PageAddr → List PageAddr
  | 0, _ => []
  | _ + 1, none => []
  | n + 1, some ref => ref :: refChain cells n (cells ref).asStateRef.next

/-- `state->commit = commit`. -/
def setStateCommit (c state : PageAddr) : MemM Unit := do
  let s ← get
  store state (.state { (s.cells state).asState with commit := some c })

/-- The state of a reference gets its commit. -/
def resolveRef (c ref : PageAddr) : MemM Unit := do
  let s ← get
  match (s.cells ref).asStateRef.state with
  | none => pure ()
  | some state => setStateCommit c state

theorem run_resolveRef (c ref : PageAddr) (s : WorkerMemory) :
    (resolveRef c ref).run s = (match (s.cells ref).asStateRef.state with
      | none => pure ()
      | some state => setStateCommit c state : MemM Unit).run s := rfl

/-- The body of the loop of `knd_resolve_commit`. -/
def resolveClassRef (c ref : PageAddr) : MemM Unit := do
  let s ← get
  match (s.cells ref).asStateRef.state with
  | none => pure ()
  | some state =>
      let st := (s.cells state).asState
      if st.phase = .removed then pure ()
      else do
        setStateCommit c state
        (refChain s.cells st.numChildren st.children).forM (resolveRef c)

theorem run_resolveClassRef (c ref : PageAddr) (s : WorkerMemory) :
    (resolveClassRef c ref).run s = (match (s.cells ref).asStateRef.state with
      | none => pure ()
      | some state =>
          if (s.cells state).asState.phase = .removed then pure ()
          else do
            setStateCommit c state
            (refChain s.cells (s.cells state).asState.numChildren (s.cells state).asState.children).forM
              (resolveRef c) : MemM Unit).run s := rfl

/-- `knd_resolve_commit`. -/
def kndResolveCommit : MemM Unit := do
  let c ← ctxCommit
  let s ← get
  let commit := (s.cells c).asCommit
  (refChain s.cells commit.numClassStateRefs commit.classStateRefs).forM (resolveClassRef c)

/-- The commit with its link to the head of the list. -/
def linkToHead (self : WorkerMemory) (commit : CommitCell) : CommitCell :=
  match self.commits with
  | none => commit
  | some head => { commit with prev := some head, numid := (self.cells head).asCommit.numid + 1 }

/-- The commit becomes the head of the list. It is the end of its task. -/
def pushCommit (c : PageAddr) (self : WorkerMemory) : WorkerMemory :=
  { self with
    commits := some c, done := true, leaves := true
    confirmed := ⟨c, self.cells⟩ :: self.confirmed }

/-- `check_commit_conflicts` of a commit without conflicts, and the timestamp that `build_commit_WAL` sets. -/
def confirmCommit (now : Nat) : MemM Unit := do
  let c ← ctxCommit
  modify fun s => s.setCell c (.commit { s.linkToHead (s.cells c).asCommit with timestamp := now })
  modify (pushCommit c)

/-! ## (3) Events -/

/-- What a worker does. -/
inductive Event where
  /-- `knd_task_reset`, before each task. -/
  | reset
  | ensureCommit (site : CommitSite)
  | importClassInst (entry : Nat)
  | classCommitState (entry : Nat) (phase : StatePhase)
  | classInstCommitState (cls : Nat)
  | procCommitState (proc : Nat) (phase : StatePhase)
  | otherPage (pool : PoolName) (kind : MemPage) (keep : Bool)
  | writeObject (a : PageAddr)
  | resolve
  | confirm (now : Nat)
  deriving DecidableEq, Repr

/-- The program of an event within a task. -/
def Event.program : Event → MemM Unit
  | reset => pure ()
  | ensureCommit site => WorkerMemory.ensureCommit site
  | importClassInst entry => kndImportClassInst entry
  | classCommitState entry phase => kndClassCommitState entry phase
  | classInstCommitState cls => kndClassInstCommitState cls
  | procCommitState proc phase => kndProcCommitState proc phase
  | otherPage pool kind keep => WorkerMemory.otherPage pool kind keep
  | writeObject a => WorkerMemory.writeObject a
  | resolve => kndResolveCommit
  | confirm now => confirmCommit now

/-- What a task leaves behind: the objects that the shared state points to and, when it has put one of its own
pages there, its own pages. -/
def leftBehind (self : WorkerMemory) : List PageAddr :=
  self.objects ++ (if self.leaves then self.own else []) ++ self.left

/-- `knd_task_reset`: the context is cleared and the pool of the task rewound. -/
def kndTaskReset (self : WorkerMemory) : WorkerMemory :=
  { self with
    pools := Function.update self.pools .task (self.pools .task).reset
    commit := none, classInstStateRefs := none, numClassInstStateRefs := 0
    own := [], leaves := false, left := self.leftBehind, done := false }

/-- **One step of a worker.** The confirmation is the last thing a task does. -/
def step (self : WorkerMemory) : Event → WorkerMemory
  | .reset => self.kndTaskReset
  | e => if self.done then self else finalState e.program self

end WorkerMemory

end Knowdy
