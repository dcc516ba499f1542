import Knowdy.Indices
import Knowdy.KndSet

/-! # The repository, its commits and its journals

The state that tasks, commits and restarts work on: the indices, the commits of the current snapshot, the
files below the repository folder and the running task.

* `TaskItem`, `WalRecord`, `Journal` — what a journal file holds, parsed; the sizes of the texts.
* `Disk` — the snapshot and agent folders and the journals in them.
* `Commit`, `Snapshot`, `Ledger` — the commits in memory and `struct kndRepoSnapshot`.
* `Task`, `Sys` — the task and the whole state; `SysM` are the programs over it.
* `Sys.small` — a repository without classes whose snapshot holds one journal. -/

namespace Knowdy

/-! ## (1) Constants -/

/-- `KND_MAX_TASKS`. -/
def maxTasks : Nat := 64

/-- `KND_MAX_JOURNALS`. -/
def maxJournals : Nat := 64

/-- `KND_MAX_JOURNAL_SIZE`. -/
def maxJournalSize : Nat := 10 * 1024 * 1024

/-- `KND_MAX_SNAPSHOTS`. -/
def maxSnapshots : Nat := 32

/-- `KND_LARGE_BUF_SIZE`: the capacity of `task->out`. -/
def largeBufSize : Nat := 1024 * 1024

/-- `KND_FILE_BUF_SIZE`: the capacity of `task->file_out`. -/
def fileBufSize : Nat := 1024 * 1024 * 10

/-- How many characters `%d` and `%zu` print. -/
def decimalSize (n : Nat) : Nat := (Nat.toDigits 10 n).length

/-! ## (2) Journals -/

/-- An instance as a task or a commit names it: `name{attr}…`. -/
structure InstText where
  /-- The name: empty for an unnamed instance, `_` for one whose name is generated. -/
  name : Name
  /-- The attribute variables, each as its GSL text. -/
  attrs : List Name := []
  /-- What `knd_generate_random_id` returns when the name is generated. -/
  random : Name := []
  deriving DecidableEq, Repr

/-- A clause in the `{repo …}` part of a task. -/
inductive TaskItem where
  /-- `{!class NAME …}`, with the clauses of the body, each as its GSL text. -/
  | importClass (name : Name) (clauses : List Name)
  /-- `{class NAME{!inst …}…}`. -/
  | selectClass (name : Name) (insts : List InstText)
  deriving DecidableEq, Repr

/-- The length of `{!inst …}` in the export of a commit. -/
def InstText.size (self : InstText) : Nat :=
  "\x7b!inst \x7d".length + self.name.length + (self.attrs.map List.length).sum

/-- The length of a clause in the export of a commit. -/
def TaskItem.size : TaskItem → Nat
  | .importClass name clauses => "\x7b!class \x7d".length + name.length + (clauses.map List.length).sum
  | .selectClass name insts =>
      "\x7bclass \x7d".length + name.length + (insts.map InstText.size).sum

/-- A `{commit …}` record of a journal. -/
structure WalRecord where
  /-- The number of the commit. -/
  numid : Nat
  /-- `_ts`. -/
  ts : Nat
  /-- `_size`: the length of the body. -/
  size : Nat
  /-- The clauses of the `{task{repo …}}` body. -/
  body : List TaskItem
  deriving DecidableEq, Repr

/-- The length of the whole record. -/
def WalRecord.totalSize (self : WalRecord) : Nat :=
  "\x7bcommit \x7b_ts \x7d\x7b_size \x7d".length + decimalSize self.numid + decimalSize self.ts
    + decimalSize self.size + "\x7d".length + self.size + "\x7d\n".length

/-- A journal file: its size and its records after the `{WAL` header. -/
structure Journal where
  /-- `st_size`. -/
  size : Nat
  /-- The records in the order of the file. -/
  records : List WalRecord
  deriving DecidableEq, Repr

/-- A journal that has just been initialized. -/
def Journal.empty : Journal := { size := "\x7bWAL\n".length, records := [] }

/-! ## (3) Folders and files -/

/-- `snapshot->path`: the path of a snapshot that was not loaded is empty, so that its agent folders are
looked for in the working directory. -/
inductive SnapshotPath where
  /-- The empty path. -/
  | cwd
  /-- `<repo path>snapshot_<n>/`. -/
  | numbered (n : Nat)
  deriving DecidableEq, Repr

/-- The folders and the journals of a repository. -/
structure Disk where
  /-- Does `<repo path>snapshot_<n>/` exist? -/
  snapshotDirs : Nat → Bool
  /-- Does `<path>agent_<i>/` exist? -/
  agentDirs : SnapshotPath → Nat → Bool
  /-- `<path>agent_<i>/journal_<k>.log`. -/
  journals : SnapshotPath → Nat → Nat → Option Journal
  /-- How many more folders and writes the file system accepts before it refuses one. -/
  writesLeft : Nat
  /-- The records that were appended to journals so far: what happened, read by no function. -/
  written : List WalRecord := []

/-- A program over the disk. -/
abbrev DiskM (α : Type) := EStateM Stop Disk α

namespace Disk

/-- Add an agent folder, and the snapshot folder it is in. -/
def addAgentDir (self : Disk) (path : SnapshotPath) (agent : Nat) : Disk :=
  { self with
    snapshotDirs := match path with
      | .cwd => self.snapshotDirs
      | .numbered n => Function.update self.snapshotDirs n true
    agentDirs := Function.update self.agentDirs path
      (Function.update (self.agentDirs path) agent true) }

/-- Replace a journal. -/
def setJournal (self : Disk) (path : SnapshotPath) (agent k : Nat) (j : Journal) : Disk :=
  { self with
    journals := Function.update self.journals path (Function.update (self.journals path) agent
      (Function.update (self.journals path agent) k (some j))) }

/-- Note that a record was appended. -/
def noteWritten (self : Disk) (r : WalRecord) : Disk := { self with written := self.written ++ [r] }

/-- One change of the file system has been made. -/
def countWrite (self : Disk) : Disk := { self with writesLeft := self.writesLeft - 1 }

end Disk

/-- A change of the file system, refused when it accepts no more. -/
def diskWrite (f : Disk → Disk) : DiskM Unit := fun d =>
  if d.writesLeft = 0 then .error (.err .ioFail) d else .ok () (f d).countWrite

/-- `knd_mkpath` for an agent folder. -/
def kndMkpath (path : SnapshotPath) (agent : Nat) : DiskM Unit := fun d =>
  if d.agentDirs path agent then .ok () d else diskWrite (fun d => d.addAgentDir path agent) d

/-- `knd_write_file` of the header `{WAL\n`: what the file held is gone. -/
def initJournal (path : SnapshotPath) (agent k : Nat) : DiskM Unit :=
  diskWrite fun d => d.setJournal path agent k .empty

/-- `knd_append_file` of a record to a journal. -/
def appendJournal (path : SnapshotPath) (agent k : Nat) (r : WalRecord) : DiskM Unit :=
  diskWrite fun d =>
    let j := (d.journals path agent k).getD { size := 0, records := [] }
    (d.setJournal path agent k { size := j.size + r.totalSize, records := j.records ++ [r] }).noteWritten r

/-! ## (4) Commits and snapshots -/

/-- `knd_commit_confirm`. -/
inductive Confirm where
  | init | failed | conflict | valid | persistent | replicated
  deriving DecidableEq, Repr

/-- `struct kndCommit`. -/
structure Commit where
  /-- `numid`; `knd_commit_new` starts it at 1. -/
  numid : Nat := 1
  /-- `timestamp`. -/
  timestamp : Nat := 0
  /-- `confirm`. -/
  confirm : Confirm := .init
  /-- `class_state_refs`, newest first. -/
  classStateRefs : List ClassStateRef := []
  /-- `rec`: the body of the journal record it was read from. -/
  record : List TaskItem := []
  /-- `prev`. -/
  prev : Option CommitAddr := none
  /-- The agent in whose `task->mempool` it is, which `knd_task_reset` rewinds at that agent's next task; none for a
  page of the user's memory and for one from `malloc`. -/
  home : Option Nat := none
  deriving DecidableEq, Repr

/-- `knd_agent_role_type`. -/
inductive AgentRole where
  | reader | writer | arbiter
  deriving DecidableEq, Repr

/-- `struct kndRepoSnapshot`. -/
structure Snapshot where
  /-- `path`. -/
  path : SnapshotPath := .cwd
  /-- `role`. -/
  role : AgentRole := .reader
  /-- `numid`. -/
  numid : Nat := 0
  /-- `commits`: the head of the list of commits. -/
  commits : Option CommitAddr := none
  /-- `commit_idx`. -/
  commitIdx : KndSet CommitAddr := {}
  /-- `num_commits`. -/
  numCommits : Nat := 0
  /-- `num_journals`. -/
  numJournals : Nat → Nat := fun _ => 0

/-- The commits in memory and the current snapshot. -/
structure Ledger where
  /-- The commits by their addresses. -/
  commits : CommitAddr → Commit := fun _ => {}
  /-- The next free address. -/
  nextCommit : CommitAddr := 0
  /-- `repo->snapshots`. -/
  snapshot : Snapshot := {}
  /-- The calls of `knd_apply_commit` so far, as the numbers of their commits: a record of what
  happened that no function reads. -/
  applied : List Nat := []

namespace Ledger

/-- Replace a commit. -/
def setCommit (self : Ledger) (c : CommitAddr) (commit : Commit) : Ledger :=
  { self with commits := Function.update self.commits c commit }

/-- Replace the snapshot. -/
def setSnapshot (self : Ledger) (snapshot : Snapshot) : Ledger := { self with snapshot }

/-- The next pointers of the list of commits. -/
def prev (self : Ledger) (c : CommitAddr) : Option CommitAddr := (self.commits c).prev

/-- Put a commit at a new address. -/
def alloc (self : Ledger) (commit : Commit) : Ledger :=
  { self with
    commits := Function.update self.commits self.nextCommit commit
    nextCommit := self.nextCommit + 1 }

end Ledger

/-! ## (5) Tasks and the whole state -/

/-- `knd_task_spec_type`, as far as the commit and restore paths tell the types apart. -/
inductive TaskType where
  | get | commit | snapshot | restore
  deriving DecidableEq, Repr

/-- `struct kndTask` and its `struct kndTaskContext`. -/
structure Task where
  /-- `id`. -/
  id : Nat
  /-- `role`. -/
  role : AgentRole
  /-- `type`. -/
  type : TaskType := .get
  /-- `ctx->commit`. -/
  commit : Option CommitAddr := none
  /-- `ctx->class_inst_state_refs`, newest first. -/
  classInstStateRefs : List ClassInst := []
  /-- `class_name_idx`: the names of the classes the task has imported. -/
  classNameIdx : List Name := []

/-- `keep_local_WAL`: `knd_task_new` sets it for the tasks of an ARBITER. -/
def Task.keepLocalWAL (self : Task) : Bool := self.role = .arbiter

/-- A repository, its files and the task that works on it. -/
structure Sys (τ : Type) where
  /-- `name` of the repository. -/
  name : Name
  /-- The length of `path` of the repository. -/
  repoPathSize : Nat
  /-- The indices. -/
  idx : Indices τ
  /-- `is_resolved` of the instances by their addresses. -/
  resolved : Nat → Bool := fun _ => false
  /-- The commits. -/
  ledger : Ledger
  /-- The files. -/
  disk : Disk
  /-- The task. -/
  task : Task
  /-- `time(NULL)`. -/
  now : Nat

variable {τ : Type}

/-- A program over the whole state. -/
abbrev SysM (τ α : Type) := EStateM Stop (Sys τ) α

namespace Sys

/-- Replace the indices. -/
def setIdx (idx : Indices τ) (self : Sys τ) : Sys τ := { self with idx }

/-- Replace the commits. -/
def setLedger (ledger : Ledger) (self : Sys τ) : Sys τ := { self with ledger }

/-- Replace the files. -/
def setDisk (disk : Disk) (self : Sys τ) : Sys τ := { self with disk }

/-- Replace the task. -/
def setTask (task : Task) (self : Sys τ) : Sys τ := { self with task }

/-- The current snapshot. -/
def snapshot (self : Sys τ) : Snapshot := self.ledger.snapshot

end Sys

/-- A program over the indices as a program over the whole state. -/
def onIdx {α : Type} (x : IdxM τ α) : SysM τ α := zoom Sys.idx Sys.setIdx x

/-- A program over the files as a program over the whole state. -/
def onDisk {α : Type} (x : DiskM α) : SysM τ α := zoom Sys.disk Sys.setDisk x

/-! ## (6) A small repository -/

/-- Indices without classes but the root. -/
def Indices.small : Indices Unit where
  classNameIdx := kndSharedDictNew ClassAddr mediumDictSize
  classes := fun _ => { name := [47], cls := some {} }
  stored := fun _ => false
  nextClass := 1
  nextInst := 0
  texts := ()
  pool := { tinyPages := 1000 }

/-- A disk with the snapshot 0 and in it one journal of agent 0. -/
def Disk.small (records : List WalRecord) : Disk where
  snapshotDirs := fun n => n = 0
  agentDirs := fun path agent => path = .numbered 0 ∧ agent = 0
  journals := fun path agent k =>
    if path = .numbered 0 ∧ agent = 0 ∧ k = 0 then
      some { size := (records.map WalRecord.totalSize).sum + 5, records }
    else none
  writesLeft := 1000

/-- A repository that is opened on this disk by the agent 0 of the given role. -/
def Sys.small (role : AgentRole) (records : List WalRecord) : Sys Unit where
  name := [114]
  repoPathSize := 4
  idx := .small
  ledger := { snapshot := { path := .numbered 0, role } }
  disk := .small records
  task := { id := 0, role }
  now := 1

/-- The record of a commit that creates one class. -/
def WalRecord.ofClass (numid : Nat) (name : Name) : WalRecord :=
  { numid, ts := 1, size := 24 + name.length, body := [.importClass name []] }

end Knowdy
