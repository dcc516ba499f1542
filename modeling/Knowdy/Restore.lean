import Knowdy.TaskSelect

/-! # Restoring a repository from its journals

`knd_repo.open.c` and `knd_apply_commit` of `knd_repo.commit.c`: the records of all journals are collected in
the commit set of the snapshot and then replayed, each through the parser of live requests, in the order in
which the set is traversed.

* `parseCommit`, `restoreJournals`, `restoreAgents` — collecting the records.
* `kndApplyCommit` — the replay of one commit.
* `kndRepoRestore` — the whole.
* `journalRecords` — the records that a restore reads, in the order of reading. -/

namespace Knowdy

variable {τ : Type}

/-! ## (1) Collecting the records -/

/-- Put a new commit into `commit_idx` under its id. -/
def indexCommit (c : CommitAddr) (numid : Nat) : SysM τ Unit := fun s =>
  match kndSetAdd s.snapshot.commitIdx (kndNumToStr numid radixBase) c with
  | (.error e, set) =>
      .error (.err e) (s.setLedger (s.ledger.setSnapshot { s.snapshot with commitIdx := set }))
  | (.ok (), set) =>
      .ok () (s.setLedger (s.ledger.setSnapshot { s.snapshot with commitIdx := set }))

/-- `parse_commit` for a record of a journal; `save_task_body` refuses a record without a size. -/
def parseCommit (r : WalRecord) : SysM τ Unit := do
  let s ← get
  set (s.setLedger (s.ledger.alloc { numid := r.numid, record := r.body }))
  kndTaskReset
  modifyTask fun t => { t with commit := some s.ledger.nextCommit }
  (if r.size = 0 then throw (.err .fail) else pure ())
  indexCommit s.ledger.nextCommit r.numid

/-- `restore_commits` for a journal. -/
def restoreCommits (j : Journal) : SysM τ Unit := do
  modifyTask fun t => { t with type := .restore }
  j.records.forM parseCommit

/-- The length of the name of a journal file of an agent. -/
def agentJournalNameSize (s : Sys τ) (agent k : Nat) : Nat :=
  s.snapshot.path.size s.repoPathSize + "agent_/".length + decimalSize agent
    + "journal_.log".length + decimalSize k

/-- The loop of `restore_journals` over the journal numbers: the first one that is missing ends it. -/
def restoreJournals (agent : Nat) : List Nat → SysM τ Unit
  | [] => pure ()
  | k :: ks => do
      let s ← get
      if agentJournalNameSize s agent k ≥ pathSize then throw (.err .limit)
      else match s.disk.journals s.snapshot.path agent k with
        | none => pure ()
        | some j => do
            restoreCommits j
            modifySnapshot fun snapshot =>
              { snapshot with numJournals := Function.update snapshot.numJournals agent k }
            restoreJournals agent ks

/-- The loop of `knd_repo_restore` over the agents: the folder of agent 0 is optional, the first other
one that is missing ends the loop. -/
def restoreAgents : List Nat → SysM τ Unit
  | [] => pure ()
  | i :: is => do
      let s ← get
      if s.disk.agentDirs s.snapshot.path i then do
        restoreJournals i (List.range maxJournals)
        restoreAgents is
      else if i = 0 then restoreAgents is
      else pure ()

/-! ## (2) Replaying a commit -/

/-- The restore that a replayed task would start: `knd_repo_restore` is never called for the role
READER, so a replay starts none. -/
def nestedRestore : SysM τ Unit := throw .abort

/-- The compare-and-exchange of `knd_apply_commit`: the commit goes in front of the list. -/
def applyPush (c : CommitAddr) : SysM τ Unit := do
  let s ← get
  modifyCommit c fun commit => { commit with prev := s.snapshot.commits }
  pushCommit c

/-- `knd_apply_commit`. -/
def kndApplyCommit [AttrVarOps τ] (c : CommitAddr) : SysM τ Unit := do
  let s ← get
  set (s.setLedger { s.ledger with
    applied := s.ledger.applied ++ [(s.ledger.commits c).numid] })
  kndTaskReset
  modifyTask fun t => { t with type := .restore, commit := some c }
  kndParseTask nestedRestore (s.ledger.commits c).record
  kndResolveCommit c
  updateCommitIndices c
  applyPush c

/-! ## (3) The restore -/

/-- The second part of `knd_repo_restore`: apply the collected commits. -/
def applyCommits [AttrVarOps τ] : SysM τ Unit := do
  let s ← get
  if s.snapshot.commitIdx.numElems = 0 then pure ()
  else do
    kndSetMap s.snapshot.commitIdx kndApplyCommit
    modifySnapshot fun snapshot => { snapshot with numCommits := snapshot.commitIdx.numElems }

/-- `knd_repo_restore`. -/
def kndRepoRestore [AttrVarOps τ] : SysM τ Unit := do
  restoreAgents (List.range maxTasks)
  applyCommits

/-! ## (4) What a restore reads -/

/-- The records of the journals of an agent, up to the first missing journal. -/
def agentRecords (journals : Nat → Option Journal) : List Nat → List WalRecord
  | [] => []
  | k :: ks =>
      match journals k with
      | none => []
      | some j => j.records ++ agentRecords journals ks

/-- The records in the folders of the agents, up to the first missing folder but that of agent 0. -/
def agentsRecords (disk : Disk) (path : SnapshotPath) : List Nat → List WalRecord
  | [] => []
  | i :: is =>
      if disk.agentDirs path i then
        agentRecords (disk.journals path i) (List.range maxJournals) ++ agentsRecords disk path is
      else if i = 0 then agentsRecords disk path is
      else []

/-- **The records that a restore of the repository reads.** -/
def journalRecords (s : Sys τ) : List WalRecord :=
  agentsRecords s.disk s.snapshot.path (List.range maxTasks)

end Knowdy
