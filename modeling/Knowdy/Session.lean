import Knowdy.LiveRecords
import Knowdy.Lib.Runs

/-! # Runs of a repository

Processes that open the repository one after the other, run tasks and make snapshots: `knd_repo_open`,
`knd_task_run` and `knd_repo_snapshot` as the events of a state machine.

* `kndRepoOpen`, `kndRepoSnapshot` — the functions.
* `Session`, `Event`, `Session.step` — the machine. `confirmed` lists the clauses of the tasks whose commits were
  confirmed by an ARBITER.
* `Session.Permitted` — **the events that a repository survives**; `Session.New` — a new repository. -/

namespace Knowdy

variable {τ : Type}

/-! ## (1) Opening and storing a repository -/

/-- The first loop of `knd_repo_open`: the last snapshot folder before the first number without one. -/
def latestSnapshot (d : Disk) : Option Nat :=
  ((List.range maxSnapshots).takeWhile fun n => d.snapshotDirs n).getLast?

/-- `knd_repo_read_source_files`: the classes are those of the source files. -/
def kndRepoReadSourceFiles (source : Indices τ) : SysM τ Unit := modify (Sys.setIdx source)

/-- `fetch_class_storage`, and the source files when there is no storage. -/
def fetchClassStorage (source : Indices τ) (storage : Option (Indices τ)) : SysM τ Unit :=
  match storage with
  | none => kndRepoReadSourceFiles source
  | some idx => modify (Sys.setIdx idx)

/-- `knd_repo_snapshot_new` for a folder that was found. -/
def kndRepoSnapshotNew (n : Nat) : SysM τ Unit :=
  modifySnapshot fun _ => { path := .numbered n, numid := n }

section Open

variable [AttrVarOps τ]

/-- The end of `knd_repo_open`: a READER restores no journals. -/
def restoreAs (role : AgentRole) : SysM τ Unit :=
  match role with
  | .reader => pure ()
  | role => do
      modifySnapshot fun snapshot => { snapshot with role := role }
      kndRepoRestore

/-- `knd_repo_open` for the snapshot `n`. -/
def openSnapshot (source : Indices τ) (storage : Option (Indices τ)) (n : Nat) : SysM τ Unit := do
  kndRepoSnapshotNew n
  fetchClassStorage source storage
  let s ← get
  restoreAs s.task.role

/-- `knd_repo_open`; `storage n` is what the files in the folder of the snapshot `n` itself hold. -/
def kndRepoOpen (source : Indices τ) (storage : Nat → Option (Indices τ)) : SysM τ Unit := do
  let s ← get
  match latestSnapshot s.disk with
  | none => kndRepoReadSourceFiles source   -- `no snapshots found`
  | some n =>
      if (SnapshotPath.numbered n).size s.repoPathSize ≥ pathSize then throw (.err .limit)
      else openSnapshot source (storage n) n

theorem run_kndRepoOpen_of_latest {source : Indices τ} {storage : Nat → Option (Indices τ)} {s : Sys τ} {n : Nat}
    (h : latestSnapshot s.disk = some n) : (kndRepoOpen source storage).run s
      = (if (SnapshotPath.numbered n).size s.repoPathSize ≥ pathSize then throw (.err .limit)
        else openSnapshot source (storage n) n : SysM τ Unit).run s := by
  have hunfold : (kndRepoOpen source storage).run s = (match latestSnapshot s.disk with
      | none => kndRepoReadSourceFiles source
      | some n =>
          if (SnapshotPath.numbered n).size s.repoPathSize ≥ pathSize then throw (.err .limit)
          else openSnapshot source (storage n) n : SysM τ Unit).run s := rfl
  rw [hunfold, h]

end Open

/-- The length of the path that `knd_repo_snapshot` writes to. -/
def storagePathSize (s : Sys τ) : Nat :=
  (SnapshotPath.numbered s.snapshot.numid).size s.repoPathSize + "agent_/".length + decimalSize s.task.id

/-- `knd_repo_snapshot`: the folder of the agent in the folder of the snapshot, and the files in it. -/
def kndRepoSnapshot : SysM τ Unit := do
  let s ← get
  if storagePathSize s ≥ pathSize then throw (.err .limit)
  else do
    onDisk (kndMkpath (.numbered s.snapshot.numid) s.task.id)
    onDisk (diskWrite id)

/-! ## (2) The machine -/

/-- A repository over the lives of several processes. -/
structure Session (τ : Type) where
  /-- The state of the present process and the journals. -/
  sys : Sys τ
  /-- Did the process open the repository? -/
  isOpen : Bool
  /-- The indices in the storage files: in the folder of a snapshot (`none`) or of an agent in it. -/
  storage : Nat → Option Nat → Option (Indices τ)
  /-- The clauses of the tasks whose commits were confirmed: what happened, read by no function. -/
  confirmed : List (List TaskItem)

/-- What can happen to a repository. -/
inductive Event where
  /-- The task of an agent. -/
  | task (id now writesLeft : Nat) (body : List TaskItem)
  /-- A snapshot by an agent. -/
  | snapshot (id now writesLeft : Nat)
  /-- A new process with its role. -/
  | reopen (role : AgentRole) (now writesLeft : Nat)
  deriving DecidableEq, Repr

/-- The state in which an agent starts. -/
def Sys.begin (id now writesLeft : Nat) (self : Sys τ) : Sys τ :=
  { self with
    disk := { self.disk with writesLeft }
    task := { id, role := self.task.role }
    now }

/-- The state in which a process opens the repository: the task of the shard has the number 0. -/
def Sys.restart (role : AgentRole) (now writesLeft : Nat) (self : Sys τ) : Sys τ :=
  { self with
    resolved := fun _ => false
    ledger := {}
    disk := { self.disk with writesLeft }
    task := { id := 0, role }
    now }

namespace Session

/-- Put a storage into place. -/
def setStorage (self : Session τ) (n : Nat) (folder : Option Nat) (idx : Indices τ) : Session τ :=
  { self with storage := Function.update self.storage n (Function.update (self.storage n) folder (some idx)) }

/-- The files that the next process loads. -/
def stored (self : Session τ) : Option (Indices τ) :=
  (latestSnapshot self.sys.disk).bind fun n => self.storage n none

variable [AttrVarOps τ]

/-- A task of an agent. -/
def runTask (self : Session τ) (body : List TaskItem) (s : Sys τ) : Session τ :=
  { self with
    sys := finalState (kndParseTask kndRepoRestore body) s
    confirmed := self.confirmed ++ if confirms (kndParseTask kndRepoRestore body) s then [body] else [] }

omit [AttrVarOps τ] in
/-- A snapshot by an agent, and the files in its folder when it succeeds. -/
def runSnapshot (self : Session τ) (s : Sys τ) : Session τ :=
  let done := { self with sys := finalState kndRepoSnapshot s }
  if returns kndRepoSnapshot s then done.setStorage s.snapshot.numid (some s.task.id) s.idx else done

/-- A new process. -/
def runOpen (source : Indices τ) (self : Session τ) (s : Sys τ) : Session τ :=
  let x := kndRepoOpen source fun n => self.storage n none
  { self with sys := finalState x s, isOpen := returns x s }

/-- **One event**; a process that did not open the repository runs no task. -/
def step (source : Indices τ) (self : Session τ) : Event → Session τ
  | .task id now writesLeft body =>
      if self.isOpen then self.runTask body (self.sys.begin id now writesLeft) else self
  | .snapshot id now writesLeft =>
      if self.isOpen then self.runSnapshot (self.sys.begin id now writesLeft) else self
  | .reopen role now writesLeft => self.runOpen source (self.sys.restart role now writesLeft)

end Session

/-! ## (3) The events that a repository survives -/

/-- **The latest commit is the last one of the traversal.** -/
def LatestLast (ns : List Nat) : Prop :=
  ∀ b ∈ ns, (∀ c ∈ ns, c ≤ b) → ∀ a ∈ ns, a ≠ b → TrieBefore a b

instance (ns : List Nat) : Decidable (LatestLast ns) :=
  inferInstanceAs (Decidable (∀ b ∈ ns, (∀ c ∈ ns, c ≤ b) → ∀ a ∈ ns, a ≠ b → TrieBefore a b))

namespace Session

/-- **The latest commit is not in the memory of the agent**, which the start of a task of the agent rewinds. -/
def SparesHead (x : Session τ) (id : Nat) : Prop :=
  ∀ c ∈ x.sys.snapshot.commits, (x.sys.ledger.commits c).home ≠ some id

instance (x : Session τ) (id : Nat) : Decidable (x.SparesHead id) :=
  inferInstanceAs (Decidable (∀ c ∈ x.sys.snapshot.commits, (x.sys.ledger.commits c).home ≠ some id))

/-- **The records that a process would replay as an ARBITER create no class.** -/
def ReplaysQuietly (x : Session τ) (role : AgentRole) : Prop :=
  role ≠ .arbiter ∨ ∀ r ∈ x.sys.disk.written, createsClass r.body = false

variable [AttrVarOps τ]

/-- **What a task must meet** in an ARBITER: it writes into the range of the reader, its record can be replayed, and
the number of its commit has an id. -/
structure Journals (x : Session τ) (id now writesLeft : Nat) (body : List TaskItem) : Prop where
  /-- The journal. -/
  canWrite : CanWrite (x.sys.begin id now writesLeft)
  /-- The record. -/
  journalable : Journalable τ body
  /-- The id. -/
  number : ∀ c ∈ x.sys.snapshot.commits, (x.sys.ledger.commits c).numid + 1 < 62 ^ 8

omit [AttrVarOps τ] in
/-- **What a new process must meet**: it restores the journals without confirming anything, the latest commit is the
last one of the traversal, each record selects classes of the source files or of records that the traversal meets
before it, and there is memory for the items of the name indices. -/
structure Replays (source : Indices τ) (x : Session τ) (role : AgentRole) : Prop where
  /-- The role. -/
  restores : role ≠ .reader
  /-- An ARBITER confirms nothing. -/
  quiet : x.ReplaysQuietly role
  /-- The numbers. -/
  latest : LatestLast (x.sys.disk.written.map (·.numid))
  /-- The selected classes. -/
  selects : ∀ r ∈ x.sys.disk.written, ∀ name ∈ selectedNames r.body, name = [47] ∨
    source.classByName name ≠ none ∨
      ∃ r' ∈ x.sys.disk.written, TrieBefore r'.numid r.numid ∧ name ∈ createdNames r'.body
  /-- The memory. -/
  pages : (x.sys.disk.written.map fun r => bodyPages r.body).sum ≤ source.pool.tinyPages

/-- **The events that a repository survives.** -/
def Permitted (source : Indices τ) (x : Session τ) : Event → Prop
  | .task id now writesLeft body =>
      x.SparesHead id ∧ (x.sys.task.role = .arbiter → x.Journals id now writesLeft body)
  | .snapshot id _ _ => x.SparesHead id
  | .reopen role _ _ => x.Replays source role

omit [AttrVarOps τ] in
/-- **A new repository** with the snapshot folder `n`, without journals and storage files, and with source files that
hold classes only. -/
structure New (source : Indices τ) (n : Nat) (x : Session τ) : Prop where
  /-- The classes of the source files. -/
  named : source.Named
  /-- They have no instances. -/
  bare : source.Holds []
  /-- No process has it open. -/
  closed : x.isOpen = false
  /-- The snapshot. -/
  latest : latestSnapshot x.sys.disk = some n
  /-- The journals. -/
  empty : ∀ i k, x.sys.disk.journals (.numbered n) i k = none
  /-- The records. -/
  written : x.sys.disk.written = []
  /-- The names of the journals fit. -/
  short : (SnapshotPath.numbered n).size x.sys.repoPathSize + 23 < pathSize
  /-- The storage files. -/
  storage : ∀ m, x.storage m none = none
  /-- Nothing was confirmed. -/
  confirmed : x.confirmed = []

end Session

end Knowdy
