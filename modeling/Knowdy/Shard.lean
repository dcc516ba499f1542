import Knowdy.Repo

/-! # A shard: its repositories, its users and the selections of a task

`knd_task.select.c`, `knd_user.c`, `knd_repo.c`, `knd_class.select.c`, `knd_proc.select.c`: a task works on
several repositories. The repository it works on is kept in `task->repo`, in the `repo` of the current user
context and in the local contexts of the parsers; every area of the grammar reads and writes its own ones.

* `RepoAddr`, `RepoEntry`, `RepoState` — the repositories and what is registered in them.
* `UserContext`, `ShardTask`, `Shard` — user contexts, the task and the whole state; `ShardM`.
* `ClassClause` … `TaskClause` — the clauses of a task, one type for each area of the grammar.
* `Shard.kndClassImport`, `Shard.kndClassSelect`, `Shard.kndProcSelect` — what the areas share.
* `Shard.RepoArea`, `Shard.UserArea`, `Shard.TaskArea` — the handlers of the areas.
* `Shard.kndConfirmCommit`, `Shard.kndTaskRun` — the end of a task and the whole of it. -/

namespace Knowdy

/-! ## (1) Repositories -/

/-- A repository of the shard. -/
inductive RepoAddr where
  /-- `shard->repo`, called `/`. -/
  | system
  /-- `shard->user->repo`: the base repository of all users. -/
  | users
  /-- The own repository of a user, called `~`. -/
  | own (user : Name)
  deriving DecidableEq, Repr

/-- `repo->base`. -/
def RepoAddr.base : RepoAddr → Option RepoAddr
  | .own _ => some .users
  | _ => none

/-- `struct kndClassEntry` and `struct kndProcEntry`: `repo` and `name`. -/
structure RepoEntry where
  repo : RepoAddr
  name : Name
  deriving DecidableEq, Repr

/-- An imported instance: its class and its name. -/
structure ImportedInst where
  blueprint : RepoEntry
  name : Name
  deriving DecidableEq, Repr

/-- `knd_state_phase`. -/
inductive EntryPhase where
  | created | selected | updated | removed
  deriving DecidableEq, Repr

/-- A `struct kndStateRef` of a commit. -/
structure EntryState where
  /-- `obj`. -/
  entry : RepoEntry
  /-- `state->phase`. -/
  phase : EntryPhase
  /-- `state->children`. -/
  children : List ImportedInst := []
  deriving DecidableEq, Repr

/-- `struct kndCommit`. -/
structure TaskCommit where
  /-- `numid`; `knd_commit_new` starts it at 1. -/
  numid : Nat := 1
  /-- `orig_state_id`. -/
  origStateId : Nat
  /-- The repository whose snapshot `orig_state_id` was read from; no function reads it. -/
  origin : RepoAddr
  /-- `class_state_refs`, newest first. -/
  classStates : List EntryState := []
  /-- `proc_state_refs`, newest first. -/
  procStates : List EntryState := []
  deriving DecidableEq, Repr

/-- `struct kndRepo` with its current snapshot. -/
structure RepoState where
  /-- `class_name_idx`. -/
  classNameIdx : SharedDict RepoEntry := kndSharedDictNew RepoEntry mediumDictSize
  /-- `proc_name_idx`. -/
  procNameIdx : SharedDict RepoEntry := kndSharedDictNew RepoEntry mediumDictSize
  /-- `snapshots->role`. -/
  role : AgentRole := .writer
  /-- `snapshots->num_commits`. -/
  numCommits : Nat := 0
  /-- `snapshots->commits`, newest first. -/
  commits : List TaskCommit := []
  /-- The records of the journals, newest first. -/
  journal : List TaskCommit := []

/-- The number that a snapshot gives the next commit. -/
def RepoState.nextNumid (self : RepoState) (c : TaskCommit) : Nat :=
  match self.commits with
  | [] => c.numid
  | head :: _ => head.numid + 1

/-! ## (2) Users, tasks and the shard -/

/-- `struct kndUserContext`. -/
structure UserContext where
  /-- `repo`. -/
  repo : RepoAddr
  /-- `base_repo`. -/
  baseRepo : Option RepoAddr := none
  /-- `acls`, as far as it is read: `allow_write`. -/
  acls : Option Bool := none

/-- The user contexts. -/
inductive CtxAddr where
  /-- `task->default_user_ctx`. -/
  | default
  /-- The one made for the user `_`. -/
  | anonymous
  /-- The one made for a user and kept in the cache. -/
  | cached (user : Name)
  deriving DecidableEq, Repr

/-- `knd_task_spec_type`, as far as the selections tell the types apart. -/
inductive SpecType where
  | get | select | liquid | commit | snapshot | restore
  deriving DecidableEq, Repr

/-- `struct kndTask` and its `struct kndTaskContext`. -/
structure ShardTask where
  /-- `role`. -/
  role : AgentRole
  /-- `type`. -/
  type : SpecType := .get
  /-- `user_ctx`. -/
  userCtx : Option CtxAddr := some .default
  /-- `repo`. -/
  repo : RepoAddr := .system
  /-- `ctx->commit`. -/
  commit : Option TaskCommit := none
  /-- `ctx->class_inst_state_refs`, newest first. -/
  instStateRefs : List ImportedInst := []
  /-- `class_name_idx`. -/
  classNames : List Name := []

/-- `struct kndShard` with one task. -/
structure Shard where
  /-- The repositories; an own repository as it is once it has been opened. -/
  repos : RepoAddr → RepoState
  /-- The user contexts; `none` for a user that is not in the cache. -/
  ctxs : CtxAddr → Option UserContext
  /-- `user->class->entry`: the class whose instances are the users. -/
  userClass : RepoEntry
  /-- `user->default_acls->allow_write`. -/
  allowWrite : Bool
  /-- The instances in the indices of their classes. -/
  insts : List ImportedInst
  /-- `user->mempool`. -/
  pool : MemPool
  /-- The task. -/
  task : ShardTask
  /-- The calls of `knd_confirm_commit` with a commit that holds a change: no function reads it. -/
  confirms : List (RepoAddr × TaskCommit) := []

/-- A program over the shard. -/
abbrev ShardM (α : Type) := EStateM Stop Shard α

/-- What a task calls and other modules are about. -/
structure ShardEnv where
  /-- `knd_repo_open` of the own repository of a user. -/
  openRepo : Name → Except KndErr Unit
  /-- `knd_repo_restore`. -/
  restore : RepoAddr → ShardM Unit
  /-- `knd_resolve_commit`. -/
  resolve : TaskCommit → Except KndErr Unit

/-! ## (3) The clauses of a task -/

/-- The body of an import: the name and the error, if any, that the other clauses of it end with. -/
structure Decl where
  name : Name
  fault : Option KndErr := none
  deriving DecidableEq, Repr

/-- A clause of a class selection. -/
inductive ClassClause where
  /-- `{!inst NAME …}`. -/
  | importInst (inst : Decl)
  /-- `{inst NAME}`. -/
  | selectInst (name : Name)
  /-- `{inst NAME {!_rm}}`. -/
  | removeInst (name : Name)
  /-- A new value of an attribute of the class. -/
  | setAttrVar
  deriving DecidableEq, Repr

/-- Does the clause import an instance? -/
def ClassClause.isImport : ClassClause → Bool
  | .importInst _ => true
  | _ => false

/-- Does a class selection import an instance? -/
def ClassClause.anyImport (clauses : List ClassClause) : Bool := clauses.any isImport

/-- A clause of a proc selection. -/
inductive ProcClause where
  /-- `{!inst NAME …}`. -/
  | importInst (inst : Decl)
  /-- `{!_rm}`. -/
  | remove
  deriving DecidableEq, Repr

/-- A clause of a repository selection. -/
inductive RepoClause where
  /-- `{!class NAME …}`. -/
  | importClass (decl : Decl)
  /-- `{class NAME …}`. -/
  | selectClass (name : Name) (clauses : List ClassClause)
  /-- `{_snapshot}`. -/
  | snapshot
  deriving DecidableEq, Repr

/-- A clause of a user selection. -/
inductive UserClause where
  /-- `{repo NAME …}`, where the name may be missing. -/
  | repo (name : Option Name) (clauses : List RepoClause)
  /-- `{!class NAME …}`. -/
  | importClass (decl : Decl)
  /-- `{class NAME …}`. -/
  | selectClass (name : Name) (clauses : List ClassClause)
  /-- `{!proc NAME …}`. -/
  | importProc (decl : Decl)
  /-- `{proc NAME …}`. -/
  | selectProc (name : Name) (clauses : List ProcClause)
  /-- `{_snapshot}`. -/
  | snapshot
  deriving DecidableEq, Repr

/-- A clause of a task. -/
inductive TaskClause where
  /-- `{!user NAME …}`. -/
  | createUser (decl : Decl)
  /-- `{user NAME …}`, where the name may be missing. -/
  | user (name : Option Name) (clauses : List UserClause)
  /-- `{!class NAME …}`. -/
  | importClass (decl : Decl)
  /-- `{class NAME …}`. -/
  | selectClass (name : Name) (clauses : List ClassClause)
  /-- `{!proc NAME …}`. -/
  | importProc (decl : Decl)
  /-- `{proc NAME …}`. -/
  | selectProc (name : Name) (clauses : List ProcClause)
  /-- `{repo NAME …}`, where the name may be missing. -/
  | repo (name : Option Name) (clauses : List RepoClause)
  /-- `{update {user NAME …}}`. -/
  | update (name : Option Name) (clauses : List UserClause)
  /-- `{_snapshot}`. -/
  | snapshot
  deriving DecidableEq, Repr

namespace Shard

/-! ## (4) The state -/

/-- Replace the task. -/
def setTask (task : ShardTask) (self : Shard) : Shard := { self with task }

/-- Replace a repository. -/
def setRepo (self : Shard) (r : RepoAddr) (repo : RepoState) : Shard :=
  { self with repos := Function.update self.repos r repo }

/-- Replace a user context. -/
def setCtx (self : Shard) (a : CtxAddr) (ctx : UserContext) : Shard :=
  { self with ctxs := Function.update self.ctxs a (some ctx) }

/-- Replace the memory pool. -/
def setPool (pool : MemPool) (self : Shard) : Shard := { self with pool }

theorem ctxs_setCtx (s : Shard) (a b : CtxAddr) (ctx : UserContext) :
    (s.setCtx a ctx).ctxs b = if b = a then some ctx else s.ctxs b :=
  Function.update_apply s.ctxs a (some ctx) b

theorem repos_setRepo (s : Shard) (r q : RepoAddr) (repo : RepoState) :
    (s.setRepo r repo).repos q = if q = r then repo else s.repos q :=
  Function.update_apply s.repos r repo q

/-- `*task->user_ctx`. -/
def userContext (self : Shard) : Option UserContext := self.task.userCtx.bind self.ctxs

/-- `task->user_ctx->repo`. -/
def userRepo (self : Shard) : Option RepoAddr := self.userContext.map UserContext.repo

/-- `knd_get_class_entry` with the base repository. -/
def kndGetClassEntry (self : Shard) (r : RepoAddr) (name : Name) : Option RepoEntry :=
  match kndSharedDictGet (self.repos r).classNameIdx name with
  | some entry => some entry
  | none => r.base.bind fun b => kndSharedDictGet (self.repos b).classNameIdx name

/-- `knd_get_proc`. -/
def kndGetProc (self : Shard) (r : RepoAddr) (name : Name) : Option RepoEntry :=
  match kndSharedDictGet (self.repos r).procNameIdx name with
  | some entry => some entry
  | none => r.base.bind fun b => kndSharedDictGet (self.repos b).procNameIdx name

/-- Change the task. -/
def modifyTask (f : ShardTask → ShardTask) : ShardM Unit := modify fun s => s.setTask (f s.task)

/-- `task->type = type`. -/
def setType (type : SpecType) : ShardM Unit := modifyTask fun t => { t with type }

/-- The user context of the task; the code reads it through the pointer without a test. -/
def getUserContext : ShardM UserContext := fun s =>
  match s.userContext with
  | some ctx => .ok ctx s
  | none => .error .abort s

theorem run_getUserContext (s : Shard) : getUserContext.run s = match s.userContext with
    | some ctx => .ok ctx s
    | none => .error .abort s := rfl

/-- `task->user_ctx->repo = task->repo`. -/
def assignUserRepo : ShardM Unit := fun s =>
  match s.task.userCtx with
  | none => .error .abort s
  | some a =>
      match s.ctxs a with
      | none => .error .abort s
      | some ctx => .ok () (s.setCtx a { ctx with repo := s.task.repo })

theorem run_assignUserRepo (s : Shard) : assignUserRepo.run s = match s.task.userCtx with
    | none => .error .abort s
    | some a =>
        match s.ctxs a with
        | none => .error .abort s
        | some ctx => .ok () (s.setCtx a { ctx with repo := s.task.repo }) := rfl

/-- The error, if any, that a body ends with. -/
def parseBody (decl : Decl) : ShardM Unit :=
  match decl.fault with
  | some e => throw (.err e)
  | none => pure ()

/-! ## (5) Commits -/

/-- `knd_commit_new` with `orig_state_id` taken from the snapshot of a repository. -/
def kndCommitNew (r : RepoAddr) : ShardM Unit := fun s =>
  .ok () (s.setTask { s.task with
    commit := some { origStateId := (s.repos r).numCommits, origin := r } })

/-- The commit of the task, made when there is none. -/
def ensureCommit (r : RepoAddr) : ShardM Unit := do
  let s ← get
  (if s.task.commit = none then kndCommitNew r else pure ())

/-- Change the commit of the task; without one an assertion fails or a null pointer is followed. -/
def modifyCommit (f : TaskCommit → TaskCommit) : ShardM Unit := fun s =>
  match s.task.commit with
  | none => .error .abort s
  | some c => .ok () (s.setTask { s.task with commit := some (f c) })

theorem run_modifyCommit (f : TaskCommit → TaskCommit) (s : Shard) :
    (modifyCommit f).run s = match s.task.commit with
      | none => .error .abort s
      | some c => .ok () (s.setTask { s.task with commit := some (f c) }) := rfl

/-- `knd_class_commit_state`. -/
def kndClassCommitState (entry : RepoEntry) (phase : EntryPhase) : ShardM Unit := do
  let s ← get
  modifyCommit fun c => { c with classStates :=
    ⟨entry, phase, if phase = .selected then s.task.instStateRefs else []⟩ :: c.classStates }

/-- `knd_proc_commit_state`. -/
def kndProcCommitState (entry : RepoEntry) (phase : EntryPhase) : ShardM Unit :=
  modifyCommit fun c => { c with procStates := ⟨entry, phase, []⟩ :: c.procStates }

/-- `knd_shared_dict_set` on the class name index of a repository, for the commit of the task if there is
one. -/
def registerClass (r : RepoAddr) (entry : RepoEntry) : ShardM Unit := fun s =>
  match kndSharedDictSet (s.repos r).classNameIdx s.pool entry.name entry
      (s.task.commit.map fun _ => 0) false with
  | (.error e, pool) => .error (.err e) (s.setPool pool)
  | (.ok (_, dict), pool) =>
      .ok () ((s.setPool pool).setRepo r { s.repos r with classNameIdx := dict })

theorem run_registerClass (r : RepoAddr) (entry : RepoEntry) (s : Shard) :
    (registerClass r entry).run s =
      match kndSharedDictSet (s.repos r).classNameIdx s.pool entry.name entry
          (s.task.commit.map fun _ => 0) false with
      | (.error e, pool) => .error (.err e) (s.setPool pool)
      | (.ok (_, dict), pool) =>
          .ok () ((s.setPool pool).setRepo r { s.repos r with classNameIdx := dict }) := rfl

/-- `knd_shared_dict_set` on the proc name index of a repository. -/
def registerProc (r : RepoAddr) (entry : RepoEntry) : ShardM Unit := fun s =>
  match kndSharedDictSet (s.repos r).procNameIdx s.pool entry.name entry
      (s.task.commit.map fun _ => 0) false with
  | (.error e, pool) => .error (.err e) (s.setPool pool)
  | (.ok (_, dict), pool) =>
      .ok () ((s.setPool pool).setRepo r { s.repos r with procNameIdx := dict })

theorem run_registerProc (r : RepoAddr) (entry : RepoEntry) (s : Shard) :
    (registerProc r entry).run s =
      match kndSharedDictSet (s.repos r).procNameIdx s.pool entry.name entry
          (s.task.commit.map fun _ => 0) false with
      | (.error e, pool) => .error (.err e) (s.setPool pool)
      | (.ok (_, dict), pool) =>
          .ok () ((s.setPool pool).setRepo r { s.repos r with procNameIdx := dict }) := rfl

/-- `knd_class_entry_clone`. -/
def kndClassEntryClone (self : RepoEntry) (r : RepoAddr) : ShardM RepoEntry := do
  registerClass r { self with repo := r }
  pure { self with repo := r }

/-- `knd_proc_entry_clone`. -/
def kndProcEntryClone (self : RepoEntry) (r : RepoAddr) : ShardM RepoEntry := do
  registerProc r { self with repo := r }
  pure { self with repo := r }

/-! ## (6) Classes -/

/-- `set_class_name`: no class of this name in the repository, in the base repository of the user or among
the classes the task has imported. -/
def setClassName (r : RepoAddr) (name : Name) : ShardM Unit := do
  let s ← get
  let ctx ← getUserContext
  if (s.kndGetClassEntry r name).isSome then throw (.err .fail)
  else if (ctx.baseRepo.bind fun b => s.kndGetClassEntry b name).isSome then throw (.err .fail)
  else if s.task.classNames.contains name then throw (.err .fail)
  else modifyTask fun t => { t with classNames := name :: t.classNames }

/-- `knd_class_import`. -/
def kndClassImport (r : RepoAddr) (decl : Decl) : ShardM Unit := do
  setClassName r decl.name
  parseBody decl
  let s ← get
  match s.task.type with
  | .restore | .commit => kndClassCommitState ⟨r, decl.name⟩ .created
  | _ => pure ()

/-- `run_set_name`: the name of a new instance of a class. -/
def setInstName (blueprint : RepoEntry) (name : Name) : ShardM Unit := do
  let s ← get
  if name ≠ [] ∧ s.insts.contains ⟨blueprint, name⟩ then throw (.err .exists) else pure ()

/-- `knd_import_class_inst`. -/
def kndImportClassInst (entry : RepoEntry) (decl : Decl) : ShardM Unit := do
  let _ ← getUserContext
  modifyTask fun t => { t with type := if t.type = .restore then .restore else .commit }
  setInstName entry decl.name
  parseBody decl
  modifyTask fun t => { t with instStateRefs := ⟨entry, decl.name⟩ :: t.instStateRefs }

/-- The part of `parse_import_class_inst` that restores a repository opened by a READER. -/
def restoreReader (env : ShardEnv) (r : RepoAddr) : ShardM Unit := do
  let s ← get
  match (s.repos r).role with
  | .reader => do
      modify fun s => s.setRepo r { s.repos r with role := .writer }
      env.restore r
      setType s.task.type
  | _ => pure ()

theorem run_restoreReader (env : ShardEnv) (r : RepoAddr) (s : Shard) :
    (restoreReader env r).run s = (match (s.repos r).role with
      | .reader => do
          modify fun s => s.setRepo r { s.repos r with role := .writer }
          env.restore r
          setType s.task.type
      | _ => pure () : ShardM Unit).run s := rfl

namespace ClassArea

/-- `parse_import_class_inst`. Returns the entry the instance was imported into. -/
def parseImportClassInst (env : ShardEnv) (r : RepoAddr) (entry : RepoEntry) (decl : Decl) :
    ShardM RepoEntry := do
  let _ ← getUserContext
  let s ← get
  let entry ← (if entry.repo ≠ r then kndClassEntryClone entry r else pure entry)
  restoreReader env r
  let s' ← get
  (if s'.task.type = .get ∧ s.task.commit = none then kndCommitNew r else pure ())
  kndImportClassInst entry decl
  pure entry

/-- `parse_select_class_inst`, `knd_select_class_inst`, `run_get_inst`. -/
def parseSelectClassInst (entry : RepoEntry) (name : Name) : ShardM Unit := do
  setType .select
  let s ← get
  if s.insts.contains ⟨entry, name⟩ then setType .get else throw (.err .noMatch)

/-- One clause of a class selection. Returns `ctx->class_entry`. -/
def parseClause (env : ShardEnv) (r : RepoAddr) (entry : RepoEntry) : ClassClause → ShardM RepoEntry
  | .importInst inst => parseImportClassInst env r entry inst
  | .selectInst name => do
      parseSelectClassInst entry name
      pure entry
  | .removeInst name => do
      parseSelectClassInst entry name
      setType .commit   -- `remove_inst`
      pure entry
  | .setAttrVar => do
      setType .commit   -- `run_set_attr_var`
      pure entry

/-- The clauses of a class selection. -/
def parseClauses (env : ShardEnv) (r : RepoAddr) : RepoEntry → List ClassClause → ShardM RepoEntry
  | entry, [] => pure entry
  | entry, clause :: clauses => do
      let entry ← parseClause env r entry clause
      parseClauses env r entry clauses

end ClassArea

/-- `run_get_class`. -/
def runGetClass (r : RepoAddr) (name : Name) : ShardM RepoEntry := do
  let s ← get
  if name.length ≥ nameSize then throw (.err .limit)
  else if name = [47] then pure ⟨r, name⟩   -- `/`
  else match s.kndGetClassEntry r name with
    | some entry => pure entry
    | none => throw (.err .noMatch)

/-- The end of `knd_class_select`. -/
def commitSelection (entry : RepoEntry) : ShardM Unit := do
  let s ← get
  match s.task.type with
  | .restore | .commit => kndClassCommitState entry .selected
  | _ => pure ()

/-- `knd_class_select`. -/
def kndClassSelect (env : ShardEnv) (r : RepoAddr) (name : Name) (clauses : List ClassClause) :
    ShardM Unit := do
  let entry ← runGetClass r name
  let entry ← ClassArea.parseClauses env r entry clauses
  commitSelection entry

/-- `parse_snapshot_task`, as far as the task is concerned. -/
def parseSnapshotTask : ShardM Unit := setType .snapshot

/-! ## (7) Procs -/

/-- `knd_proc_import`. -/
def kndProcImport (r : RepoAddr) (decl : Decl) : ShardM Unit := do
  let _ ← getUserContext
  let s ← get
  if (s.kndGetProc r decl.name).isSome then throw (.err .fail)
  else do
    parseBody decl
    if s.task.type = .commit then kndProcCommitState ⟨r, decl.name⟩ .created else pure ()

namespace ProcArea

/-- `remove_proc`. -/
def removeProc (entry : RepoEntry) : ShardM Unit := do
  setType .commit
  let s ← get
  ensureCommit s.task.repo
  kndProcCommitState entry .removed

/-- `knd_import_proc_inst`. -/
def kndImportProcInst (decl : Decl) : ShardM Unit := do
  setType .commit
  parseBody decl
  let s ← get
  ensureCommit s.task.repo

/-- `parse_proc_inst_import`. -/
def parseProcInstImport (entry : RepoEntry) (decl : Decl) : ShardM RepoEntry := do
  let s ← get
  let entry ← (match s.userRepo with
    | some u => if entry.repo ≠ u then kndProcEntryClone entry u else pure entry
    | none => pure entry)
  let s ← get
  (if s.task.type = .get then ensureCommit s.task.repo else pure ())
  kndImportProcInst decl
  pure entry

/-- One clause of a proc selection. Returns `ctx->entry`. -/
def parseClause (entry : RepoEntry) : ProcClause → ShardM RepoEntry
  | .importInst inst => parseProcInstImport entry inst
  | .remove => do
      removeProc entry
      pure entry

/-- The clauses of a proc selection. -/
def parseClauses : RepoEntry → List ProcClause → ShardM RepoEntry
  | entry, [] => pure entry
  | entry, clause :: clauses => do
      let entry ← parseClause entry clause
      parseClauses entry clauses

end ProcArea

/-- `run_get_proc`. -/
def runGetProc (r : RepoAddr) (name : Name) : ShardM RepoEntry := do
  let s ← get
  if name = [] then throw (.err .format)
  else if name.length ≥ nameSize then throw (.err .limit)
  else match s.kndGetProc r name with
    | some entry => pure entry
    | none => throw (.err .noMatch)

/-- `knd_proc_select`: the state of a commit is that of the proc that was selected. -/
def kndProcSelect (r : RepoAddr) (name : Name) (clauses : List ProcClause) : ShardM Unit := do
  let proc ← runGetProc r name
  let _ ← ProcArea.parseClauses proc clauses
  let s ← get
  if s.task.type = .commit then kndProcCommitState proc .updated else pure ()

/-! ## (8) The repository area: `knd_repo.c` -/

namespace RepoArea

/-- `run_select_repo`. -/
def runSelectRepo (name : Name) : ShardM Unit :=
  match name with
  | [] => throw (.err .fail)
  | 47 :: _ => assignUserRepo   -- `/`
  | _ => do
      let ctx ← getUserContext
      modifyTask fun t => { t with repo := ctx.repo }

/-- `parse_class_import`. -/
def parseClassImport (decl : Decl) : ShardM Unit := do
  let ctx ← getUserContext
  setType .commit
  let s ← get
  ensureCommit s.task.repo
  kndClassImport ctx.repo decl

/-- `parse_class_select`. -/
def parseClassSelect (env : ShardEnv) (name : Name) (clauses : List ClassClause) : ShardM Unit := do
  let ctx ← getUserContext
  kndClassSelect env ctx.repo name clauses

/-- One clause of a repository selection. -/
def parseClause (env : ShardEnv) : RepoClause → ShardM Unit
  | .importClass decl => parseClassImport decl
  | .selectClass name clauses => parseClassSelect env name clauses
  | .snapshot => parseSnapshotTask

end RepoArea

/-- `knd_parse_repo`. -/
def kndParseRepo (env : ShardEnv) (name : Option Name) (clauses : List RepoClause) : ShardM Unit := do
  name.forM RepoArea.runSelectRepo
  clauses.forM (RepoArea.parseClause env)

/-! ## (9) The user area: `knd_user.c` -/

/-- `knd_task_reset`. -/
def kndTaskReset : ShardM Unit := modifyTask fun t => { role := t.role }

namespace UserArea

/-- `build_user_ctx` and `knd_create_user_repo`: the own repository is opened, and the task is reset. -/
def buildUserCtx (env : ShardEnv) (name : Name) : ShardM Unit :=
  match env.openRepo name with
  | .error e => throw (.err e)
  | .ok () => do
      kndTaskReset
      modify fun s => s.setCtx (.cached name) { repo := .own name, baseRepo := some .users }

/-- `run_get_user`. -/
def runGetUser (env : ShardEnv) (name : Name) : ShardM Unit := do
  let s ← get
  if s.task.userCtx ≠ none then pure ()
  else if name.length ≥ nameSize then throw (.err .limit)
  else if name = [95] then do   -- `_`
    modify fun s => s.setCtx .anonymous
      { repo := .users, baseRepo := some .users, acls := some s.allowWrite }
    modifyTask fun t => { t with userCtx := some .anonymous }
  else if s.insts.contains ⟨s.userClass, name⟩ then do
    (if (s.ctxs (.cached name)).isSome then pure () else buildUserCtx env name)
    modifyTask fun t => { t with userCtx := some (.cached name) }
  else throw (.err .noMatch)

/-- The test of `acl->allow_write`; without an acl an assertion fails. -/
def checkAllowWrite (ctx : UserContext) : ShardM Unit :=
  match ctx.acls with
  | none => throw .abort
  | some false => throw (.err .access)
  | some true => pure ()

/-- `parse_class_import`. -/
def parseClassImport (decl : Decl) : ShardM Unit := do
  let ctx ← getUserContext
  checkAllowWrite ctx
  setType .commit
  let s ← get
  ensureCommit s.task.repo
  kndClassImport ctx.repo decl

/-- `parse_class_select`: the repository of the user first, then the base repository. -/
def parseClassSelect (env : ShardEnv) (name : Name) (clauses : List ClassClause) : ShardM Unit := fun s =>
  match s.userContext with
  | none => .error (.err .fail) s
  | some ctx =>
      match (kndClassSelect env ctx.repo name clauses).run s with
      | .ok () s' => .ok () s'
      | .error .abort s' => .error .abort s'
      | .error (.err _) s' =>
          if s'.task.type = .commit then .error (.err .fail) s'
          else match ctx.baseRepo with
            | none => .error .abort s'
            | some base => (kndClassSelect env base name clauses).run s'

theorem run_parseClassSelect (env : ShardEnv) (name : Name) (clauses : List ClassClause) (s : Shard) :
    (parseClassSelect env name clauses).run s = match s.userContext with
      | none => .error (.err .fail) s
      | some ctx =>
          match (kndClassSelect env ctx.repo name clauses).run s with
          | .ok () s' => .ok () s'
          | .error .abort s' => .error .abort s'
          | .error (.err _) s' =>
              if s'.task.type = .commit then .error (.err .fail) s'
              else match ctx.baseRepo with
                | none => .error .abort s'
                | some base => (kndClassSelect env base name clauses).run s' := rfl

/-- `parse_proc_import`: the commit is read through the pointer without a test. -/
def parseProcImport (decl : Decl) : ShardM Unit := do
  let ctx ← getUserContext
  checkAllowWrite ctx
  setType .commit
  let s ← get
  modifyCommit fun c => if c.origStateId = 0 then
    { c with origStateId := (s.repos s.task.repo).numCommits, origin := s.task.repo } else c
  kndProcImport s.task.repo decl

/-- One clause of a user selection. -/
def parseClause (env : ShardEnv) : UserClause → ShardM Unit
  | .repo name clauses => kndParseRepo env name clauses
  | .importClass decl => parseClassImport decl
  | .selectClass name clauses => parseClassSelect env name clauses
  | .importProc decl => parseProcImport decl
  | .selectProc name clauses => do
      let s ← get
      kndProcSelect s.task.repo name clauses
  | .snapshot => parseSnapshotTask

end UserArea

/-- The beginning of `knd_parse_select_user` and the name of the user, which may be missing. -/
def selectUser (env : ShardEnv) (name : Option Name) : ShardM Unit := do
  modifyTask fun t => if t.type = .restore then t else { t with userCtx := none, type := .get }
  name.forM (UserArea.runGetUser env)

/-- `knd_parse_select_user`. -/
def kndParseSelectUser (env : ShardEnv) (name : Option Name) (clauses : List UserClause) :
    ShardM Unit := do
  selectUser env name
  clauses.forM (UserArea.parseClause env)

/-- `knd_create_user`. -/
def kndCreateUser (decl : Decl) : ShardM Unit := do
  let s ← get
  ensureCommit s.task.repo
  kndImportClassInst s.userClass decl
  kndClassCommitState s.userClass .selected   -- `knd_class_inst_commit_state`

/-! ## (10) The task: `knd_task.select.c` -/

namespace TaskArea

/-- `parse_class_import`. -/
def parseClassImport (decl : Decl) : ShardM Unit := do
  setType .commit
  let s ← get
  ensureCommit s.task.repo
  kndClassImport s.task.repo decl

/-- `parse_class_select`: "no explicit repo selection -> defaults to system repo". -/
def parseClassSelect (env : ShardEnv) (name : Name) (clauses : List ClassClause) : ShardM Unit := do
  assignUserRepo
  let s ← get
  kndClassSelect env s.task.repo name clauses

/-- `parse_proc_import`. -/
def parseProcImport (decl : Decl) : ShardM Unit := do
  setType .commit
  let s ← get
  ensureCommit s.task.repo
  kndProcImport s.task.repo decl

/-- One clause of a task. -/
def parseClause (env : ShardEnv) : TaskClause → ShardM Unit
  | .createUser decl => kndCreateUser decl
  | .user name clauses => kndParseSelectUser env name clauses
  | .importClass decl => parseClassImport decl
  | .selectClass name clauses => parseClassSelect env name clauses
  | .importProc decl => parseProcImport decl
  | .selectProc name clauses => do
      let s ← get
      kndProcSelect s.task.repo name clauses
  | .repo name clauses => kndParseRepo env name clauses
  | .update name clauses => do
      setType .liquid
      kndParseSelectUser env name clauses
  | .snapshot => parseSnapshotTask

end TaskArea

/-! ## (11) The confirmation -/

/-- `knd_class_inst_update_indices`: a class of another repository is copied into this one unless it has
a class of this name; the instances are registered with their class. -/
def kndClassInstUpdateIndices (r : RepoAddr) (blueprint : RepoEntry) (insts : List ImportedInst) :
    ShardM Unit := do
  let s ← get
  match kndSharedDictGet (s.repos r).classNameIdx blueprint.name with
  | some _ => pure ()
  | none =>
      if blueprint.repo = r then throw (.err .fail)
      else do
        let _ ← kndClassEntryClone blueprint r
  modify fun s => { s with insts := insts ++ s.insts }

/-- The body of the first loop of `update_indices`. -/
def updateClassIndices (r : RepoAddr) (state : EntryState) : ShardM Unit :=
  match state.phase with
  | .created => do
      let ctx ← getUserContext
      registerClass ctx.repo state.entry
  | .selected =>
      if state.children ≠ [] then kndClassInstUpdateIndices r state.entry state.children else pure ()
  | _ => pure ()

/-- `knd_shared_dict_remove` on the proc name index of a repository. -/
def removeProcName (r : RepoAddr) (name : Name) : ShardM Unit := fun s =>
  match (s.repos r).procNameIdx.item? name with
  | none => .error (.err .fail) s
  | some _ => .ok () (s.setRepo r { s.repos r with
      procNameIdx := setItemPhase (s.repos r).procNameIdx name .removed })

theorem run_removeProcName (r : RepoAddr) (name : Name) (s : Shard) :
    (removeProcName r name).run s = match (s.repos r).procNameIdx.item? name with
      | none => .error (.err .fail) s
      | some _ => .ok () (s.setRepo r { s.repos r with
          procNameIdx := setItemPhase (s.repos r).procNameIdx name .removed }) := rfl

/-- The body of the second loop of `update_indices`. -/
def updateProcIndices (r : RepoAddr) (state : EntryState) : ShardM Unit :=
  match state.phase with
  | .removed => removeProcName r state.entry.name
  | .updated => pure ()
  | _ => registerProc r state.entry

/-- `update_indices`. -/
def updateIndices (r : RepoAddr) (c : TaskCommit) : ShardM Unit := do
  c.classStates.forM (updateClassIndices r)
  c.procStates.forM (updateProcIndices r)

/-- `check_commit_conflicts`: the class entries have only the states that this commit has made, so no
conflict is found; the commit gets its number and becomes the head of the commits. Returns it. -/
def checkCommitConflicts (r : RepoAddr) (c : TaskCommit) : ShardM TaskCommit := do
  let s ← get
  let c := { c with numid := (s.repos r).nextNumid c }
  set (s.setRepo r { s.repos r with
    commits := c :: (s.repos r).commits
    numCommits := (s.repos r).numCommits + 1 })
  pure c

/-- `build_commit_WAL`: the record is appended to a journal of the snapshot. -/
def buildCommitWAL (r : RepoAddr) (c : TaskCommit) : ShardM Unit :=
  modify fun s => s.setRepo r { s.repos r with journal := c :: (s.repos r).journal }

/-- The part of `knd_confirm_commit` that an ARBITER does. -/
def confirmAsArbiter (r : RepoAddr) (c : TaskCommit) : ShardM Unit := do
  updateIndices r c
  let c ← checkCommitConflicts r c
  buildCommitWAL r c

/-- Note that `knd_confirm_commit` was called. -/
def noteConfirm (r : RepoAddr) (c : TaskCommit) (self : Shard) : Shard :=
  { self with confirms :=
      if c.classStates = [] ∧ c.procStates = [] then self.confirms else (r, c) :: self.confirms }

/-- `knd_confirm_commit`. -/
def kndConfirmCommit (env : ShardEnv) (r : RepoAddr) : ShardM Unit := do
  let s ← get
  match s.task.commit with
  | none => throw .abort   -- `assert(commit != NULL)`
  | some c => do
      set (s.noteConfirm r c)
      match env.resolve c with
      | .error e => throw (.err e)
      | .ok () =>
          match s.task.role with
          | .arbiter => confirmAsArbiter r c
          | _ => pure ()   -- the commit is exported for an ARBITER

theorem run_kndConfirmCommit (env : ShardEnv) (r : RepoAddr) (s : Shard) :
    (kndConfirmCommit env r).run s = (match s.task.commit with
      | none => throw .abort
      | some c => do
          set (s.noteConfirm r c)
          match env.resolve c with
          | .error e => throw (.err e)
          | .ok () =>
              match s.task.role with
              | .arbiter => confirmAsArbiter r c
              | _ => pure () : ShardM Unit).run s := rfl

theorem kndConfirmCommit_of_none {env : ShardEnv} {r : RepoAddr} {s : Shard} (h : s.task.commit = none) :
    (kndConfirmCommit env r).run s = .error .abort s := by
  rw [run_kndConfirmCommit, h]
  rfl

theorem kndConfirmCommit_of_some {env : ShardEnv} {r : RepoAddr} {s : Shard} {c : TaskCommit}
    (h : s.task.commit = some c) :
    (kndConfirmCommit env r).run s = (match env.resolve c with
      | .error e => throw (.err e)
      | .ok () =>
          match s.task.role with
          | .arbiter => confirmAsArbiter r c
          | _ => pure () : ShardM Unit).run (s.noteConfirm r c) := by
  rw [run_kndConfirmCommit, h]
  rfl

/-- `knd_parse_task`. -/
def kndParseTask (env : ShardEnv) (body : List TaskClause) : ShardM Unit := do
  body.forM (TaskArea.parseClause env)
  let s ← get
  match s.task.type with
  | .commit => do
      let ctx ← getUserContext
      kndConfirmCommit env ctx.repo
  | _ => pure ()

/-- The beginning of `knd_task_run`, after `knd_task_reset`. -/
def start (self : Shard) : Shard :=
  (self.setTask { role := self.task.role }).setCtx .default
    { repo := .users, acls := some self.allowWrite }

/-- `knd_task_run`. -/
def kndTaskRun (env : ShardEnv) (body : List TaskClause) : ShardM Unit := do
  modify start
  kndParseTask env body

/-- One task after the other. -/
def step (env : ShardEnv) (s : Shard) (body : List TaskClause) : Shard := finalState (kndTaskRun env body) s

/-! ## (12) A small shard -/

/-- A shard without classes, run by an ARBITER. -/
def small (allowWrite : Bool) : Shard where
  repos := fun _ => {}
  ctxs := fun a => if a = .default then some { repo := .users, acls := some allowWrite } else none
  userClass := ⟨.system, [85]⟩
  allowWrite := allowWrite
  insts := []
  pool := { tinyPages := 1000 }
  task := { role := .arbiter }

end Shard

/-- Nothing is restored and nothing is refused. -/
def ShardEnv.plain : ShardEnv where
  openRepo _ := .ok ()
  restore _ := pure ()
  resolve _ := .ok ()

end Knowdy
