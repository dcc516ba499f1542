import Knowdy.Repo
import Knowdy.IndexUpdates

/-! # Confirming a commit

`knd_commit.c` and `knd_repo.commit.c`: a commit is resolved and, in an ARBITER, registered in the indices,
linked in front of the list of commits and written to a journal; other roles only export it.

* `kndResolveCommit`, `updateCommitIndices`, `checkCommitConflicts` — the stages before the journal.
* `exportCommitGSL`, `buildJournalFilename`, `buildCommitWAL` — the journal.
* `kndConfirmCommit` — the whole. -/

namespace Knowdy

variable {τ : Type}

/-! ## (1) The commits of the state -/

/-- Change a commit. -/
def modifyCommit (c : CommitAddr) (f : Commit → Commit) : SysM τ Unit :=
  modify fun s => s.setLedger (s.ledger.setCommit c (f (s.ledger.commits c)))

/-- Change the current snapshot. -/
def modifySnapshot (f : Snapshot → Snapshot) : SysM τ Unit :=
  modify fun s => s.setLedger (s.ledger.setSnapshot (f s.ledger.snapshot))

/-! ## (2) Resolving -/

section Resolve

variable [AttrVarOps τ]

/-- `knd_resolve_attr_vars` for an instance. -/
def resolveInstAttrs (inst : ClassInst) : SysM τ Unit := fun s =>
  match AttrVarOps.resolveAttrVars s.idx.texts inst with
  | .error e => .error (.err e) s
  | .ok () => .ok () s

theorem run_resolveInstAttrs (inst : ClassInst) (s : Sys τ) :
    (resolveInstAttrs inst).run s = match AttrVarOps.resolveAttrVars s.idx.texts inst with
      | .error e => .error (.err e) s
      | .ok () => .ok () s := rfl

/-- `inst->is_resolved = true`. -/
def markResolved (inst : ClassInst) : SysM τ Unit :=
  modify fun s => { s with resolved := Function.update s.resolved inst.addr true }

/-- `knd_class_inst_resolve`. -/
def kndClassInstResolve (inst : ClassInst) : SysM τ Unit := do
  onIdx (kndClassAcquire inst.blueprint)
  (if inst.attrs ≠ [] then resolveInstAttrs inst else pure ())
  markResolved inst

/-- The body of the loop of `resolve_class_inst_commit`. -/
def resolveInst (inst : ClassInst) : SysM τ Unit := do
  let s ← get
  (if s.resolved inst.addr then pure () else kndClassInstResolve inst)

/-- `resolve_class_inst_commit`. -/
def resolveClassInstCommit (insts : List ClassInst) : SysM τ Unit := insts.forM resolveInst

/-- `knd_resolve_commit`, for the class states of a commit. -/
def kndResolveCommit (c : CommitAddr) : SysM τ Unit := do
  let s ← get
  (s.ledger.commits c).classStateRefs.forM fun ref => resolveClassInstCommit ref.children

/-- `update_indices` on the class states of a commit. -/
def updateCommitIndices (c : CommitAddr) : SysM τ Unit := do
  let s ← get
  onIdx (updateIndices c (s.ledger.commits c).classStateRefs)

end Resolve

/-! ## (3) Conflicts and the list of commits -/

/-- The check of one state of a class name: another commit that is confirmed wins. -/
def checkState (c d : CommitAddr) : SysM τ Unit := do
  let s ← get
  if d = c then pure ()
  else match (s.ledger.commits d).confirm with
    | .valid | .persistent => do
        modifyCommit c fun commit => { commit with confirm := .conflict }
        throw (.err .fail)
    | _ => pure ()

/-- The body of the loop of `check_class_conflicts`. -/
def checkClassState (c : CommitAddr) (ref : ClassStateRef) : SysM τ Unit :=
  match ref.phase with
  | .selected => pure ()   -- `TODO: check instances`
  | .created => do
      let s ← get
      (s.idx.classes ref.entry).dictItemStates.forM (checkState c)

/-- `check_class_conflicts`. -/
def checkClassConflicts (c : CommitAddr) : SysM τ Unit := do
  let s ← get
  (s.ledger.commits c).classStateRefs.forM (checkClassState c)

/-- Read the head of the list and take the next number; without a head the commit keeps its own. -/
def linkToHead (c : CommitAddr) : SysM τ Unit := do
  let s ← get
  match s.snapshot.commits with
  | none => pure ()
  | some head =>
      modifyCommit c fun commit =>
        { commit with prev := some head, numid := (s.ledger.commits head).numid + 1 }

theorem run_linkToHead (c : CommitAddr) (s : Sys τ) : (linkToHead c).run s = (match s.snapshot.commits with
    | none => pure ()
    | some head => modifyCommit c fun commit =>
        { commit with prev := some head, numid := (s.ledger.commits head).numid + 1 } : SysM τ Unit).run s := rfl

/-- The compare-and-exchange of `check_commit_conflicts`, not disturbed by another task. -/
def pushCommit (c : CommitAddr) : SysM τ Unit :=
  modifySnapshot fun snapshot => { snapshot with commits := some c }

/-- The end of `check_commit_conflicts`: the commit is valid and counted. -/
def markConfirmed (c : CommitAddr) : SysM τ Unit := do
  modifyCommit c fun commit => { commit with confirm := .valid }
  modifySnapshot fun snapshot => { snapshot with numCommits := snapshot.numCommits + 1 }

/-- `check_commit_conflicts`. -/
def checkCommitConflicts (c : CommitAddr) : SysM τ Unit := do
  linkToHead c
  checkClassConflicts c
  pushCommit c
  markConfirmed c

/-! ## (4) The journal -/

/-- An instance as it is exported. -/
def ClassInst.text (self : ClassInst) : InstText := { name := self.name, attrs := self.attrs }

/-- A class state as it is exported: a new class by its name alone, the clauses of its body are lost; a selected
class with the instances of its state. -/
def exportClassState (idx : Indices τ) (ref : ClassStateRef) : TaskItem :=
  match ref.phase with
  | .created => .importClass (idx.classes ref.entry).name []
  | .selected => .selectClass (idx.classes ref.entry).name (ref.children.map ClassInst.text)

/-- The length of the export of a commit. -/
def exportSize (repoName : Name) (body : List TaskItem) : Nat :=
  "\x7btask\x7brepo ".length + repoName.length + (body.map TaskItem.size).sum + "\x7d\x7d\x7d".length

/-- `export_commit_GSL`: the clauses written to `task->out`. -/
def exportCommitGSL (c : CommitAddr) : SysM τ (List TaskItem) := fun s =>
  let body := (s.ledger.commits c).classStateRefs.map (exportClassState s.idx)
  if exportSize s.name body < largeBufSize then .ok body s else .error (.err .nomem) s

/-- The export changes nothing. -/
theorem finalState_exportCommitGSL (c : CommitAddr) (s : Sys τ) :
    finalState (exportCommitGSL c) s = s := by
  have hrun : (exportCommitGSL c).run s
      = if exportSize s.name ((s.ledger.commits c).classStateRefs.map (exportClassState s.idx))
          < largeBufSize
        then .ok ((s.ledger.commits c).classStateRefs.map (exportClassState s.idx)) s
        else .error (.err .nomem) s := rfl
  rw [finalState, hrun]
  by_cases h : exportSize s.name ((s.ledger.commits c).classStateRefs.map (exportClassState s.idx))
      < largeBufSize
  · rw [if_pos h]
  · rw [if_neg h]

/-- The length of a snapshot path. -/
def SnapshotPath.size (repoPathSize : Nat) : SnapshotPath → Nat
  | .cwd => 0
  | .numbered n => repoPathSize + "snapshot_/".length + decimalSize n

/-- The length of the name of a journal file. -/
def journalNameSize (s : Sys τ) : Nat :=
  let agent := s.task.id
  s.snapshot.path.size s.repoPathSize + "agent_/".length + decimalSize agent
    + "journal_.log".length + decimalSize (s.snapshot.numJournals agent)

/-- `build_journal_filename`, down to the length of the name. -/
def buildJournalFilename : SysM τ Nat := do
  let s ← get
  onDisk (kndMkpath s.snapshot.path s.task.id)
  if journalNameSize s ≥ pathSize then throw (.err .limit) else pure (journalNameSize s)

/-- `stat` of the current journal. -/
def currentJournal (s : Sys τ) : Option Journal :=
  s.disk.journals s.snapshot.path s.task.id (s.snapshot.numJournals s.task.id)

/-- Initialize the current journal. -/
def initCurrentJournal : SysM τ Unit := do
  let s ← get
  onDisk (initJournal s.snapshot.path s.task.id (s.snapshot.numJournals s.task.id))

/-- `snapshot->num_journals[task->id]++`. -/
def switchJournal : SysM τ Unit := do
  let s ← get
  modifySnapshot fun snapshot => { snapshot with
    numJournals := Function.update snapshot.numJournals s.task.id
      (snapshot.numJournals s.task.id + 1) }

/-- The part of `build_commit_WAL` before `append_wal_rec`: find, initialize or switch the journal. The
size that is planned for it counts the length of its name instead of the record. -/
def prepareJournal : SysM τ Unit := do
  let filenameSize ← buildJournalFilename
  let s ← get
  match currentJournal s with
  | none => initCurrentJournal
  | some j =>
      if j.size + filenameSize > maxJournalSize then do
        switchJournal
        let _ ← buildJournalFilename
        initCurrentJournal
      else pure ()

/-- The record of a commit with the exported body. -/
def walRecord (s : Sys τ) (c : CommitAddr) (body : List TaskItem) : WalRecord where
  numid := (s.ledger.commits c).numid
  ts := (s.ledger.commits c).timestamp
  size := exportSize s.name body
  body := body

/-- The part of `build_commit_WAL` from `append_wal_rec` on. -/
def appendWalRec (c : CommitAddr) : SysM τ Unit := do
  let body ← exportCommitGSL c
  let s ← get
  let rec' := walRecord s c body
  if rec'.totalSize < fileBufSize then
    if s.task.keepLocalWAL then do
      onDisk (appendJournal s.snapshot.path s.task.id (s.snapshot.numJournals s.task.id) rec')
      modifyCommit c fun commit => { commit with confirm := .persistent }
    else pure ()
  else throw (.err .nomem)

/-- `build_commit_WAL`. -/
def buildCommitWAL (c : CommitAddr) : SysM τ Unit := do
  let s ← get
  modifyCommit c fun commit => { commit with timestamp := s.now }
  prepareJournal
  appendWalRec c

/-! ## (5) Confirmation -/

section Confirm

variable [AttrVarOps τ]

/-- The part of `knd_confirm_commit` that depends on the role of the task. -/
def confirmAs (role : AgentRole) (c : CommitAddr) : SysM τ Unit :=
  match role with
  | .arbiter => do
      updateCommitIndices c
      checkCommitConflicts c
      buildCommitWAL c
  | _ => do   -- `delegate commit confirmation to an Arbiter`
      let _ ← exportCommitGSL c
      pure ()

/-- `knd_confirm_commit` for the commit of the task; `knd_dedup_commit` does nothing. -/
def kndConfirmCommit : SysM τ Unit := do
  let s ← get
  match s.task.commit with
  | none => throw .abort   -- `assert(commit != NULL)`
  | some c => do
      kndResolveCommit c
      confirmAs s.task.role c

theorem kndConfirmCommit_run (s : Sys τ) : (kndConfirmCommit : SysM τ Unit).run s
    = (match s.task.commit with
      | none => throw .abort
      | some c => kndResolveCommit c >>= fun _ => confirmAs s.task.role c : SysM τ Unit).run s := rfl

theorem run_kndConfirmCommit {s : Sys τ} {c : CommitAddr} (h : s.task.commit = some c) :
    kndConfirmCommit.run s
      = (kndResolveCommit c >>= fun _ => confirmAs s.task.role c).run s := by
  rw [kndConfirmCommit_run, h]

/-- Without a commit the assertion stops the task. -/
theorem kndConfirmCommit_of_none {s : Sys τ} (h : s.task.commit = none) :
    (kndConfirmCommit : SysM τ Unit).run s = .error .abort s := by
  rw [kndConfirmCommit_run, h]
  rfl

end Confirm

end Knowdy
