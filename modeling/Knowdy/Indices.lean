import Knowdy.Lib.Effect
import Knowdy.SharedDict
import Knowdy.SharedSet

/-! # The name and instance indices of a repository

The shared state a commit changes when it is confirmed: the class name index, the two instance
indices of each class and the text index, and the functions of `knd_repo.commit.c` and
`knd_class_inst.index.c` that change them.

* `ClassInst`, `Class`, `ClassEntry`, `Indices` — instances, classes and the indices.
* `ClassStateRef` — a class state of a commit with the instances it registers.
* `updateIndices` — `update_indices`, with `kndClassInstUpdateIndices` for the instances of a class.
* `Registration`, `registrations` — what a commit registers, in the order of `updateIndices`.
* `Indices.SameContents` — the same classes by name, instances by name and by id, and texts. -/

namespace Knowdy

/-! ## (1) Data -/

/-- How a call ends other than with `knd_OK`. -/
inductive Stop where
  /-- It returns an error code. -/
  | err (e : KndErr)
  /-- An assertion fails and the process is aborted. -/
  | abort
  deriving DecidableEq, Repr

/-- The address of a `struct kndClassEntry`. -/
abbrev ClassAddr := Nat

/-- `struct kndClassInstEntry` with its `struct kndClassInst`. -/
structure ClassInst where
  /-- The address of the entry. -/
  addr : Nat
  /-- `numid`. -/
  numid : Nat
  /-- `name`, empty for an unnamed instance. -/
  name : Name
  /-- `blueprint`: the class it is an instance of. -/
  blueprint : ClassAddr
  /-- The attribute variables, each as its GSL text. -/
  attrs : List Name
  deriving DecidableEq, Repr

/-- `id`: the number of the instance as `knd_uid_create` spells it. -/
def ClassInst.id (self : ClassInst) : List UInt8 := kndNumToStr self.numid radixBase

/-- `struct kndClass`, as far as its instances are concerned. -/
structure Class where
  /-- The clauses of the body that a task has given a new class, each as its GSL text. -/
  clauses : List Name := []
  /-- `inst_id_count`. -/
  instIdCount : Nat := 0
  /-- `inst_name_idx`. -/
  instNameIdx : Option (SharedDict ClassInst) := none
  /-- `inst_idx`. -/
  instIdx : Option (SharedSet ClassInst) := none

/-- The name index of the instances, a new one before its first use. -/
def Class.nameDict (self : Class) : SharedDict ClassInst :=
  self.instNameIdx.getD (kndSharedDictNew ClassInst mediumDictSize)

/-- The id index of the instances, a new one before its first use. -/
def Class.idSet (self : Class) : SharedSet ClassInst := self.instIdx.getD {}

/-- `struct kndClassEntry`. -/
structure ClassEntry where
  /-- `name`. -/
  name : Name
  /-- `class`: the body, `none` for the null pointer. -/
  cls : Option Class
  /-- The commits of `dict_item->states`; empty without a `dict_item`. -/
  dictItemStates : List CommitAddr := []

/-- The body of the class, as it is when it has been read. -/
def ClassEntry.body (self : ClassEntry) : Class := self.cls.getD {}

/-- The typing and the text indexing of attribute variables (`knd_class_inst.resolve.c`,
`knd_text.index.c`), which the commit path calls: `τ` is the state they work on. -/
class AttrVarOps (τ : Type) where
  /-- `knd_resolve_attr_vars` on the attribute variables of an instance. -/
  resolveAttrVars : τ → ClassInst → Except KndErr Unit
  /-- `update_attr_var_indices` for an instance. -/
  updateAttrVarIndices : ClassInst → EStateM Stop τ Unit

/-- Attributes without types or texts: nothing is refused and nothing is indexed. -/
instance : AttrVarOps Unit where
  resolveAttrVars _ _ := .ok ()
  updateAttrVarIndices _ := pure ()

/-- The indices of a `struct kndRepo` and the memory they live in. -/
structure Indices (τ : Type) where
  /-- `class_name_idx`. -/
  classNameIdx : SharedDict ClassAddr
  /-- The class entries by their addresses. -/
  classes : ClassAddr → ClassEntry
  /-- Is there a body for the entry in the class storage that `class_idx` was loaded from? -/
  stored : ClassAddr → Bool
  /-- The instance that `knd_class_inst_idx_fetch` finds under a name in the snapshot file of a class; none when
  the class has no `num_snapshot_insts`. -/
  snapshotInsts : ClassAddr → Name → Option ClassInst := fun _ _ => none
  /-- The next free class address. -/
  nextClass : ClassAddr
  /-- The next free instance address. -/
  nextInst : Nat
  /-- The text index and what the typing of attributes reads. -/
  texts : τ
  /-- The shared memory pool `user_ctx->mempool`. -/
  pool : MemPool

/-- `state->phase` of a class state: `knd_class_commit_state` is only called for a new class and for a
selected one (the removal of a class ends with "not implemented"). -/
inductive ClassPhase where
  /-- `KND_CREATED`. -/
  | created
  /-- `KND_SELECTED`. -/
  | selected
  deriving DecidableEq, Repr

/-- A `struct kndStateRef` of `commit->class_state_refs` with its state. -/
structure ClassStateRef where
  /-- `obj`: the class entry. -/
  entry : ClassAddr
  /-- `state->phase`. -/
  phase : ClassPhase
  /-- `state->children`: the imported instances, newest first; their states are all `KND_CREATED`. -/
  children : List ClassInst := []
  deriving DecidableEq, Repr

variable {τ : Type}

/-- A program over the indices. -/
abbrev IdxM (τ α : Type) := EStateM Stop (Indices τ) α

namespace Indices

/-- Replace a class entry. -/
def setEntry (self : Indices τ) (a : ClassAddr) (entry : ClassEntry) : Indices τ :=
  { self with classes := Function.update self.classes a entry }

/-- Replace the body of a class. -/
def setClass (self : Indices τ) (a : ClassAddr) (c : Class) : Indices τ :=
  self.setEntry a { self.classes a with cls := some c }

/-- `entry->dict_item = item`, as far as the states of the item are read. -/
def setDictItem (self : Indices τ) (a : ClassAddr) (states : List CommitAddr) : Indices τ :=
  self.setEntry a { self.classes a with dictItemStates := states }

/-- Replace the pool. -/
def setPool (self : Indices τ) (pool : MemPool) : Indices τ := { self with pool }

/-- Replace the class name index. -/
def setClassNameIdx (self : Indices τ) (d : SharedDict ClassAddr) : Indices τ :=
  { self with classNameIdx := d }

end Indices

/-! ## (2) The index updates of a commit -/

/-- The `KND_CREATED` case of `update_indices`: register a new class by name. -/
def registerClass (commit : CommitAddr) (a : ClassAddr) : IdxM τ Unit := fun idx =>
  match kndSharedDictSet idx.classNameIdx idx.pool (idx.classes a).name a (some commit) false with
  | (.error e, pool) => .error (.err e) (idx.setPool pool)
  | (.ok (item, dict), pool) =>
      .ok () (((idx.setPool pool).setClassNameIdx dict).setDictItem a item.states)

theorem run_registerClass (commit : CommitAddr) (a : ClassAddr) (idx : Indices τ) :
    (registerClass commit a).run idx
      = match kndSharedDictSet idx.classNameIdx idx.pool (idx.classes a).name a (some commit) false with
        | (.error e, pool) => .error (.err e) (idx.setPool pool)
        | (.ok (item, dict), pool) =>
            .ok () (((idx.setPool pool).setClassNameIdx dict).setDictItem a item.states) := rfl

/-- The two compare-and-exchange loops of `knd_class_inst_update_indices` that make the instance
indices of a class on their first use. -/
def ensureInstIdxs (a : ClassAddr) : IdxM τ Unit := fun idx =>
  match (idx.classes a).cls with
  | none => .error .abort idx   -- `assert(c != NULL)`
  | some c =>
      .ok () (idx.setClass a { c with
        instNameIdx := some c.nameDict
        instIdx := some c.idSet })

theorem run_ensureInstIdxs {a : ClassAddr} {idx : Indices τ} {c : Class}
    (h : (idx.classes a).cls = some c) :
    (ensureInstIdxs a).run idx = .ok () (idx.setClass a { c with
        instNameIdx := some c.nameDict
        instIdx := some c.idSet }) := by
  rw [EStateM.run]
  unfold ensureInstIdxs
  rw [h]

/-- Register an instance in the name index of class `a`, as a valid item. -/
def registerInstName (commit : CommitAddr) (a : ClassAddr) (inst : ClassInst) : IdxM τ Unit :=
  fun idx =>
    match (idx.classes a).cls with
    | none => .error .abort idx
    | some c =>
        match kndSharedDictSet c.nameDict idx.pool inst.name inst (some commit) false with
        | (.error e, pool) => .error (.err e) (idx.setPool pool)
        | (.ok (_, dict), pool) =>
            .ok () ((idx.setPool pool).setClass a
              { c with instNameIdx := some (setItemPhase dict inst.name .valid) })

theorem run_registerInstName {commit : CommitAddr} {a : ClassAddr} {inst : ClassInst}
    {idx : Indices τ} {c : Class} (h : (idx.classes a).cls = some c) :
    (registerInstName commit a inst).run idx
      = match kndSharedDictSet c.nameDict idx.pool inst.name inst (some commit) false with
        | (.error e, pool) => .error (.err e) (idx.setPool pool)
        | (.ok (_, dict), pool) =>
            .ok () ((idx.setPool pool).setClass a
              { c with instNameIdx := some (setItemPhase dict inst.name .valid) }) := by
  rw [EStateM.run]
  unfold registerInstName
  rw [h]

/-- Register an instance in the id index of class `a`. -/
def registerInstId (a : ClassAddr) (inst : ClassInst) : IdxM τ Unit := fun idx =>
  match (idx.classes a).cls with
  | none => .error .abort idx
  | some c =>
      match kndSharedSetAdd c.idSet inst.id inst with
      | (.error e, set) => .error (.err e) (idx.setClass a { c with instIdx := some set })
      | (.ok (), set) => .ok () (idx.setClass a { c with instIdx := some set })

theorem run_registerInstId {a : ClassAddr} {inst : ClassInst} {idx : Indices τ} {c : Class}
    (h : (idx.classes a).cls = some c) :
    (registerInstId a inst).run idx
      = match kndSharedSetAdd c.idSet inst.id inst with
        | (.error e, set) => .error (.err e) (idx.setClass a { c with instIdx := some set })
        | (.ok (), set) => .ok () (idx.setClass a { c with instIdx := some set }) := by
  rw [EStateM.run]
  unfold registerInstId
  rw [h]

/-- The lookup of the class in `knd_class_inst_update_indices` (the class is of this repository, so
no copy is made). -/
def checkClassEntry (a : ClassAddr) : IdxM τ Unit := fun idx =>
  match (idx.classes a).cls with
  | none => .error .abort idx   -- `assert(c != NULL)`
  | some _ =>
      match kndSharedDictGet idx.classNameIdx (idx.classes a).name with
      | none => .error (.err .fail) idx
      | some _ => .ok () idx

theorem run_checkClassEntry (a : ClassAddr) (idx : Indices τ) :
    (checkClassEntry a).run idx = match (idx.classes a).cls with
      | none => .error .abort idx
      | some _ =>
          match kndSharedDictGet idx.classNameIdx (idx.classes a).name with
          | none => .error (.err .fail) idx
          | some _ => .ok () idx := rfl

/-- `knd_class_acquire`: the body of a class, read from the class storage on its first use; a body
that has just been read has no instance indices. -/
def kndClassAcquire (a : ClassAddr) : IdxM τ Unit := fun idx =>
  match (idx.classes a).cls with
  | some _ => .ok () idx
  | none => if idx.stored a then .ok () (idx.setClass a {}) else .error (.err .noMatch) idx

theorem run_kndClassAcquire (a : ClassAddr) (idx : Indices τ) :
    (kndClassAcquire a).run idx = match (idx.classes a).cls with
      | some _ => .ok () idx
      | none => if idx.stored a then .ok () (idx.setClass a {}) else .error (.err .noMatch) idx := rfl

variable [AttrVarOps τ]

/-- `update_attr_var_indices` on the text index. -/
def indexAttrVars (inst : ClassInst) : IdxM τ Unit :=
  zoom Indices.texts (fun texts idx => { idx with texts })
    (AttrVarOps.updateAttrVarIndices inst)

/-- The body of the loop of `knd_class_inst_update_indices`. -/
def registerInst (commit : CommitAddr) (a : ClassAddr) (inst : ClassInst) : IdxM τ Unit := do
  (if inst.name ≠ [] then registerInstName commit a inst else pure ())
  registerInstId a inst
  (if inst.attrs ≠ [] then indexAttrVars inst else pure ())

/-- `knd_class_inst_update_indices`. -/
def kndClassInstUpdateIndices (commit : CommitAddr) (a : ClassAddr) (insts : List ClassInst) :
    IdxM τ Unit := do
  checkClassEntry a
  ensureInstIdxs a
  insts.forM (registerInst commit a)

/-- The body of the loop of `update_indices`. -/
def updateClassIndices (commit : CommitAddr) (ref : ClassStateRef) : IdxM τ Unit :=
  match ref.phase with
  | .created => registerClass commit ref.entry
  | .selected =>
      if ref.children ≠ [] then kndClassInstUpdateIndices commit ref.entry ref.children
      else pure ()

/-- `update_indices` for the class states of a commit. -/
def updateIndices (commit : CommitAddr) (refs : List ClassStateRef) : IdxM τ Unit :=
  refs.forM (updateClassIndices commit)

omit [AttrVarOps τ]

/-! ## (3) What the indices hold -/

namespace Indices

/-- The class reachable under a name. -/
def classByName (self : Indices τ) (name : Name) : Option ClassAddr :=
  kndSharedDictGet self.classNameIdx name

/-- Does class `a` have `inst_name_idx`? -/
def hasNameIdx (self : Indices τ) (a : ClassAddr) : Bool :=
  ((self.classes a).cls.bind Class.instNameIdx).isSome

/-- The instance in the name index of class `a`. -/
def indexedInst (self : Indices τ) (a : ClassAddr) (name : Name) : Option ClassInst := do
  let c ← (self.classes a).cls
  let dict ← c.instNameIdx
  kndSharedDictGet dict name

/-- The instance of class `a` reachable under a name: `knd_get_class_inst` loads the snapshot file of a class
that has no name index. -/
def instByName (self : Indices τ) (a : ClassAddr) (name : Name) : Option ClassInst :=
  if self.hasNameIdx a then self.indexedInst a name else self.snapshotInsts a name

/-- The instance of class `a` reachable under an id; a lookup by id loads no file. -/
def instById (self : Indices τ) (a : ClassAddr) (id : List UInt8) : Option ClassInst := do
  let c ← (self.classes a).cls
  let set ← c.instIdx
  (kndSharedSetGet set id).toOption

/-- **The same contents**: the same classes by name, the same instances by name and by id, the same
texts. -/
structure SameContents (idx idx' : Indices τ) : Prop where
  /-- Classes by name. -/
  classes_eq : ∀ name, idx'.classByName name = idx.classByName name
  /-- Instances by name. -/
  names_eq : ∀ a name, idx'.instByName a name = idx.instByName a name
  /-- Instances by id. -/
  ids_eq : ∀ a id, idx'.instById a id = idx.instById a id
  /-- The text index. -/
  texts_eq : idx'.texts = idx.texts

end Indices

/-- One entry that a commit makes in an index of the repository. -/
inductive Registration where
  /-- A new class in the class name index. -/
  | cls (a : ClassAddr)
  /-- An instance in the indices of class `a`. -/
  | inst (a : ClassAddr) (i : ClassInst)
  deriving DecidableEq, Repr

/-- What one class state registers. -/
def ClassStateRef.registrations (ref : ClassStateRef) : List Registration :=
  match ref.phase with
  | .created => [.cls ref.entry]
  | .selected => ref.children.map (.inst ref.entry)

/-- What a commit registers, in the order in which `updateIndices` does it. -/
def registrations (refs : List ClassStateRef) : List Registration :=
  refs.flatMap ClassStateRef.registrations

@[simp] theorem registrations_nil : registrations [] = [] := rfl

@[simp] theorem registrations_cons (ref : ClassStateRef) (refs : List ClassStateRef) :
    registrations (ref :: refs) = ref.registrations ++ registrations refs := rfl

end Knowdy
