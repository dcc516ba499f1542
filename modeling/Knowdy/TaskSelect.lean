import Knowdy.Commit

/-! # Running a task

`knd_task.select.c`, `knd_class.import.c`, `knd_class.select.c` and `knd_class_inst.import.c`: the clauses of
a task build a commit, which is confirmed at the end.

* `parseClassImport`, `kndClassImport` — a new class.
* `kndClassSelect`, `parseImportClassInst`, `kndImportClassInst` — a class selection with new instances.
* `kndClassCommitState` — what a class adds to the commit; a selection takes along all the instances
  that the task has imported so far.
* `kndParseTask` — the clauses of a task and the confirmation. The first instance a task imports into a
  repository opened by a READER restores the journals; the restore is a parameter `restore` here. -/

namespace Knowdy

variable {τ : Type}

/-! ## (1) The task and its commit -/

/-- Change the task. -/
def modifyTask (f : Task → Task) : SysM τ Unit := modify fun s => s.setTask (f s.task)

/-- `knd_task_reset`. -/
def kndTaskReset : SysM τ Unit :=
  modifyTask fun t => { t with
    type := .get
    commit := none
    classInstStateRefs := []
    classNameIdx := [] }

/-- `knd_commit_new` for the commit of the task, in `task->mempool` of the agent `home` or in the memory of the user.
The address is a new one: that the next task of `home` gets the same page again, with the old commit overwritten, is
what a run of tasks has to exclude (`Session.Permitted`, and `WorkerMemory` for the pages themselves). -/
def kndCommitNew (home : Option Nat) : SysM τ Unit := do
  let s ← get
  set (s.setLedger (s.ledger.alloc { home }))
  modifyTask fun t => { t with commit := some s.ledger.nextCommit }

/-- `knd_class_commit_state`. -/
def kndClassCommitState (a : ClassAddr) (phase : ClassPhase) : SysM τ Unit := do
  let s ← get
  match s.task.commit with
  | none => throw .abort   -- `assert(commit != NULL)`
  | some c =>
      let children := if phase = .selected then s.task.classInstStateRefs else []
      modifyCommit c fun commit =>
        { commit with classStateRefs := ⟨a, phase, children⟩ :: commit.classStateRefs }

theorem run_kndClassCommitState (a : ClassAddr) (phase : ClassPhase) (s : Sys τ) :
    (kndClassCommitState a phase).run s = (match s.task.commit with
      | none => throw .abort
      | some c => modifyCommit c fun commit => { commit with
          classStateRefs := ⟨a, phase, if phase = .selected then s.task.classInstStateRefs else []⟩
            :: commit.classStateRefs } : SysM τ Unit).run s := rfl

/-! ## (2) A new class -/

/-- The check of `set_class_name` against the repository: a class of this name is a conflict, unless its
body cannot be read. -/
def checkRepoClassName (name : Name) : SysM τ Unit := do
  let s ← get
  match s.idx.classByName name with
  | none => pure ()
  | some a =>
      if (s.idx.classes a).cls.isSome || s.idx.stored a then do
        onIdx (kndClassAcquire a)
        throw (.err .fail)
      else pure ()

theorem run_checkRepoClassName (name : Name) (s : Sys τ) :
    (checkRepoClassName name).run s = (match s.idx.classByName name with
      | none => pure ()
      | some a =>
          if (s.idx.classes a).cls.isSome || s.idx.stored a then do
            onIdx (kndClassAcquire a)
            throw (.err .fail)
          else pure () : SysM τ Unit).run s := rfl

/-- The check of `set_class_name` against the classes the task has imported before. -/
def checkTaskClassName (name : Name) : SysM τ Unit := do
  let s ← get
  if s.task.classNameIdx.contains name then throw (.err .fail)
  else modifyTask fun t => { t with classNameIdx := name :: t.classNameIdx }

/-- `knd_class_entry_new` and `knd_class_new`: the entry with its name, and the body with its clauses. -/
def kndClassNew (name : Name) (clauses : List Name) : SysM τ ClassAddr := fun s =>
  let a := s.idx.nextClass
  .ok a (s.setIdx { s.idx.setEntry a { name, cls := some { clauses } } with nextClass := a + 1 })

/-- `knd_class_import` of a class whose clauses can be parsed; its bases and attributes are not resolved here. -/
def kndClassImport (name : Name) (clauses : List Name) : SysM τ Unit :=
  if name = [] then throw (.err .fail)   -- "no class name specified"
  else do
    checkRepoClassName name
    checkTaskClassName name
    let a ← kndClassNew name clauses
    kndClassCommitState a .created

/-- `parse_class_import` of `knd_repo.c`: the task becomes a commit, whatever it was, and a new one is taken from
`task->mempool`. -/
def parseClassImport (name : Name) (clauses : List Name) : SysM τ Unit := do
  modifyTask fun t => { t with type := .commit }
  let s ← get
  (if s.task.commit = none then kndCommitNew (some s.task.id) else pure ())
  kndClassImport name clauses

/-! ## (3) Instances of a selected class -/

/-- The root class `/` of the repository. -/
def rootClass : ClassAddr := 0

/-- `run_get_class`. -/
def runGetClass (name : Name) : SysM τ ClassAddr :=
  if name.length ≥ nameSize then throw (.err .limit)
  else if name = [47] then pure rootClass   -- `/`
  else do
    let s ← get
    match s.idx.classByName name with
    | none => throw (.err .noMatch)
    | some a => do
        onIdx (kndClassAcquire a)
        pure a

theorem run_runGetClass {name : Name} (s : Sys τ) (hlen : ¬name.length ≥ nameSize) (hroot : name ≠ [47]) :
    (runGetClass name).run s = (match s.idx.classByName name with
      | none => throw (.err .noMatch)
      | some a => do
          onIdx (kndClassAcquire a)
          pure a : SysM τ ClassAddr).run s := by
  rw [runGetClass, if_neg hlen, if_neg hroot]
  rfl

/-- `run_set_name` and `generate_uniq_inst_name`: the name of a new instance of a class. -/
def setInstName (c : Class) (text : InstText) : Except KndErr Name :=
  if text.name = [] then .ok []
  else if text.name.length ≥ nameSize then .error .limit
  else if text.name = [95] then .ok text.random   -- `_`
  else match c.instNameIdx.bind fun dict => kndSharedDictGet dict text.name with
    | some _ => .error .exists
    | none => .ok text.name

/-- The new entry, its number and its name: the middle part of `knd_import_class_inst`. -/
def kndClassInstNew (a : ClassAddr) (text : InstText) : SysM τ ClassInst := fun s =>
  match (s.idx.classes a).cls with
  | none => .error .abort s   -- `assert(entry->class != NULL)`
  | some c =>
      match setInstName c text with
      | .error e => .error (.err e) s
      | .ok name =>
          let inst : ClassInst :=
            { addr := s.idx.nextInst, numid := c.instIdCount + 1, name, blueprint := a,
              attrs := text.attrs }
          .ok inst (s.setIdx { s.idx.setClass a { c with instIdCount := c.instIdCount + 1 } with
            nextInst := s.idx.nextInst + 1 })

/-- `knd_import_class_inst`: the task becomes a commit unless it restores one. Returns the instance. -/
def kndImportClassInst (a : ClassAddr) (text : InstText) : SysM τ ClassInst := do
  modifyTask fun t => { t with type := if t.type = .restore then .restore else .commit }
  let inst ← kndClassInstNew a text
  modifyTask fun t => { t with classInstStateRefs := inst :: t.classInstStateRefs }
  pure inst

/-- The part of `parse_import_class_inst` that restores a repository opened by a READER. -/
def restoreReader (restore : SysM τ Unit) : SysM τ Unit := do
  let s ← get
  match s.snapshot.role with
  | .reader => do
      modifySnapshot fun snapshot => { snapshot with role := .writer }
      restore
      modifyTask fun t => { t with type := s.task.type }
  | _ => pure ()

theorem run_restoreReader (restore : SysM τ Unit) (s : Sys τ) :
    (restoreReader restore).run s = (match s.snapshot.role with
      | .reader => do
          modifySnapshot fun snapshot => { snapshot with role := .writer }
          restore
          modifyTask fun t => { t with type := s.task.type }
      | _ => pure () : SysM τ Unit).run s := rfl

/-- Only the snapshot of a READER is restored. -/
theorem restoreReader_of_ne (restore : SysM τ Unit) {s : Sys τ} (h : s.snapshot.role ≠ .reader) :
    (restoreReader restore).run s = .ok () s := by
  rw [run_restoreReader]
  cases hrole : s.snapshot.role with
  | reader => exact absurd hrole h
  | writer => rfl
  | arbiter => rfl

/-- `parse_import_class_inst`: whether a new commit is needed is decided by the commit the task had
before the restore; it is taken from `task->user_ctx->mempool`. Returns the instance. -/
def parseImportClassInst (restore : SysM τ Unit) (a : ClassAddr) (text : InstText) :
    SysM τ ClassInst := do
  let s ← get
  onIdx (kndClassAcquire a)
  restoreReader restore
  let s' ← get
  (if s'.task.type = .get ∧ s.task.commit = none then kndCommitNew none else pure ())
  kndImportClassInst a text

theorem run_parseImportClassInst (restore : SysM τ Unit) (a : ClassAddr) (text : InstText) (s : Sys τ) :
    (parseImportClassInst restore a text).run s
      = (onIdx (kndClassAcquire a) >>= fun _ => restoreReader restore >>= fun _ => get >>= fun s' =>
          (if s'.task.type = .get ∧ s.task.commit = none then kndCommitNew none else pure ()) >>= fun _ =>
            kndImportClassInst a text : SysM τ ClassInst).run s := rfl

/-- The `{!inst …}` clauses of a class selection. -/
def importInsts (restore : SysM τ Unit) (a : ClassAddr) : List InstText → SysM τ (List ClassInst)
  | [] => pure []
  | text :: texts => do
      let inst ← parseImportClassInst restore a text
      let insts ← importInsts restore a texts
      pure (inst :: insts)

/-- The end of `knd_class_select`: a commit takes along a state of the selected class. -/
def commitSelection (a : ClassAddr) : SysM τ Unit := do
  let s ← get
  match s.task.type with
  | .restore | .commit => kndClassCommitState a .selected
  | _ => pure ()

theorem run_commitSelection (a : ClassAddr) (s : Sys τ) :
    (commitSelection a).run s = (match s.task.type with
      | .restore | .commit => kndClassCommitState a .selected
      | _ => pure () : SysM τ Unit).run s := rfl

/-- `knd_class_select` with new instances; the export of the selected class is left out. Returns the
class and the instances that were imported into it. -/
def kndClassSelect (restore : SysM τ Unit) (name : Name) (texts : List InstText) :
    SysM τ (ClassAddr × List ClassInst) := do
  let a ← runGetClass name
  let insts ← importInsts restore a texts
  commitSelection a
  pure (a, insts)

/-! ## (4) The task -/

/-- One clause of a task. -/
def parseItem (restore : SysM τ Unit) : TaskItem → SysM τ Unit
  | .importClass name clauses => parseClassImport name clauses
  | .selectClass name texts => do
      let _ ← kndClassSelect restore name texts
      pure ()

/-- `knd_parse_task`: the clauses, and the confirmation of the commit if they made one. -/
def kndParseTask [AttrVarOps τ] (restore : SysM τ Unit) (body : List TaskItem) : SysM τ Unit := do
  body.forM (parseItem restore)
  let s ← get
  match s.task.type with
  | .commit => kndConfirmCommit
  | _ => pure ()

end Knowdy
