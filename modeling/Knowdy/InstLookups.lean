import Knowdy.EntryNames
import Knowdy.IndexUpdates
import Knowdy.Lib.Runs

/-! # Lookups of the instances of a snapshot

`knd_get_class_inst` loads the instances of a class from the snapshot when the class has no name index.
`knd_class_inst_update_indices` makes a name index of its own.

* `SnapshotClass`, `ClassInsts` — what a load finds, and the indices of the class.
* `kndGetClassInst`, `kndClassInstUpdateIndices`, `removeInst` — a lookup, a commit, a removal.
* `Retrievable` — every instance of the snapshot that was not removed is found.
* `retrievable_of_reaches` — so it is when no commit comes before the load.
* `noMatch_of_commit` — and after such a commit no instance of the snapshot is found. -/

namespace Knowdy

namespace InstLookups

open Checked

/-! ## (1) A class -/

/-- `struct kndClassInst`, as far as a lookup reads it. -/
structure Inst (β : Type) where
  /-- The values of its attributes. -/
  body : β
  /-- Is `KND_REMOVED` the phase of the newest of its `states`? -/
  removed : Bool := false
  deriving DecidableEq

/-- A class of a repository that was opened from a snapshot. -/
structure SnapshotClass (β : Type) where
  /-- `num_snapshot_insts`. -/
  numSnapshotInsts : Nat
  /-- `snapshot_<n>/inst_<id>.gsp`, if there is such a file. -/
  file : Option (List UInt8)
  /-- `str_idx` of the repository. -/
  strIdx : SharedSet CharSeq := {}
  /-- The `KND_MEMPAGE_SMALL` pages that a load finds. -/
  smallPages : Nat
  /-- `task->mempool` as a load finds it. -/
  mempool : MemPool
  /-- `knd_class_inst_unmarshall` on the bytes from a record on. -/
  classInstUnmarshall : List UInt8 → List UInt8 → Nat → GspM β

/-- The indices of the class and its instances. An entry is registered under one name, and what its `inst` points
to is kept under this name. -/
structure ClassInsts (β : Type) where
  /-- `inst_name_idx`. -/
  instNameIdx : Option (SharedDict IdxEntry) := none
  /-- `inst_idx`. -/
  instIdx : Option (SharedSet IdxEntry) := none
  /-- `inst` of an entry. -/
  insts : Name → Option (Inst β) := fun _ => none
  /-- `task->user_ctx->mempool`. -/
  mempool : MemPool
  /-- The names under which instances were removed. -/
  removals : List Name := []

/-- How a call ends other than with `knd_OK`. -/
inductive LookupStop where
  /-- It returns an error code. -/
  | err (e : KndErr)
  /-- It does something undefined. -/
  | fault (f : GspFault)
  deriving DecidableEq

/-- A program over the indices of a class. -/
abbrev InstM (β α : Type) := EStateM LookupStop (ClassInsts β) α

variable {β : Type}

namespace ClassInsts

/-- The name index, a new one before its first use. -/
def nameDict (self : ClassInsts β) : SharedDict IdxEntry :=
  self.instNameIdx.getD (kndSharedDictNew IdxEntry mediumDictSize)

/-- The id index, a new one before its first use. -/
def idSet (self : ClassInsts β) : SharedSet IdxEntry := self.instIdx.getD {}

/-- Both indices are set. -/
def setIdxs (self : ClassInsts β) (nameIdx : SharedDict IdxEntry) (idx : SharedSet IdxEntry) : ClassInsts β :=
  { self with instNameIdx := some nameIdx, instIdx := some idx }

/-- The entry under a name gets its `inst`. -/
def setInst (self : ClassInsts β) (name : Name) (inst : Inst β) : ClassInsts β :=
  { self with insts := Function.update self.insts name (some inst) }

end ClassInsts

/-! ## (2) Lookups -/

/-- The load of the instances of a class into its two indices. -/
def SnapshotClass.load (c : SnapshotClass β) (nameIdx : SharedDict IdxEntry) (idx : SharedSet IdxEntry) :
    GspM (SharedDict IdxEntry × SharedSet IdxEntry) :=
  match c.file with
  | none => .err .noMatch   -- `stat` fails
  | some file => do
      let (set, load) ← kndSharedSetUnmarshallFile idx file file.length (kndClassInstEntryUnmarshall c.strIdx)
        { nameIdx, idx, smallPages := c.smallPages, mempool := c.mempool }
      return (load.nameIdx, { load.idx with dir := set.dir, numElems := set.numElems })

/-- `knd_class_inst_idx_fetch`. Both indices are published before anything is read: a load that fails leaves
`left` in them. -/
def kndClassInstIdxFetch (c : SnapshotClass β) (left : SharedDict IdxEntry × SharedSet IdxEntry) :
    InstM β (SharedDict IdxEntry) := fun s =>
  match c.load s.nameDict s.idSet with
  | .ok (nameIdx, idx) => .ok nameIdx (s.setIdxs nameIdx idx)
  | .err e => .error (.err e) (if c.file = none then s else s.setIdxs left.1 left.2)
  | .fault f => .error (.fault f) (s.setIdxs left.1 left.2)

/-- `knd_shared_set_unmarshall_elem` on the file of the class. -/
def SnapshotClass.readInst (c : SnapshotClass β) (dir : SharedSetDir) (id : List UInt8) : GspM β :=
  match c.file with
  | none => .err .ioFail
  | some file => do
      let body ← readElem file (fun id mem n _ => some <$> c.classInstUnmarshall id mem n) dir id none
      match body with
      | some body => return body
      | none => .fault .assertion   -- no record was passed

/-- `knd_class_inst_acquire`. -/
def kndClassInstAcquire (c : SnapshotClass β) (entry : IdxEntry) : InstM β (Inst β) := fun s =>
  match s.insts entry.name with
  | some inst => .ok inst s
  | none =>
      match c.readInst s.idSet.dir entry.id with
      | .ok body => .ok { body } (s.setInst entry.name { body })
      | .err e => .error (.err e) s
      | .fault f => .error (.fault f) s

/-- The name index that `knd_get_class_inst` works on. -/
def nameIdxOf (c : SnapshotClass β) (left : SharedDict IdxEntry × SharedSet IdxEntry) :
    InstM β (SharedDict IdxEntry) := fun s =>
  match s.instNameIdx with
  | some nameIdx => .ok nameIdx s
  | none =>
      if c.numSnapshotInsts = 0 then .error (.err .noMatch) s   -- the class has no instances
      else kndClassInstIdxFetch c left s

/-- The lookup in the name index. -/
def findInst (c : SnapshotClass β) (nameIdx : SharedDict IdxEntry) (name : Name) : InstM β (Inst β) :=
  match kndSharedDictGet nameIdx name with
  | none => throw (.err .noMatch)
  | some entry => do
      let inst ← kndClassInstAcquire c entry
      if inst.removed then throw (.err .noMatch) else pure inst

/-- **`knd_get_class_inst`**. -/
def kndGetClassInst (c : SnapshotClass β) (left : SharedDict IdxEntry × SharedSet IdxEntry) (name : Name) :
    InstM β (Inst β) := do
  let nameIdx ← nameIdxOf c left
  findInst c nameIdx name

/-- `remove_inst` on the instance that was selected by its name. -/
def removeInst (c : SnapshotClass β) (left : SharedDict IdxEntry × SharedSet IdxEntry) (name : Name) :
    InstM β Unit := do
  let inst ← kndGetClassInst c left name
  modify fun s => { s.setInst name { inst with removed := true } with removals := name :: s.removals }

/-! ## (3) Commits -/

/-- A `struct kndStateRef` of an instance. -/
structure InstRef (β : Type) where
  /-- Is `KND_CREATED` its phase? -/
  created : Bool
  /-- `obj`. -/
  entry : IdxEntry
  /-- `inst` of the entry. -/
  inst : Inst β
  /-- What `update_attr_var_indices` returns; it writes to neither index. -/
  indexed : Except KndErr Unit := .ok ()

/-- The registration of an instance by name, as a valid item. -/
def registerInstName (commit : CommitAddr) (ref : InstRef β) : InstM β Unit := fun s =>
  match kndSharedDictSet s.nameDict s.mempool ref.entry.name ref.entry (some commit) false with
  | (.error e, mempool) => .error (.err e) { s with mempool }
  | (.ok (_, nameIdx), mempool) =>
      .ok () ({ s with mempool, instNameIdx := some (setItemPhase nameIdx ref.entry.name .valid) }.setInst
        ref.entry.name ref.inst)

/-- The registration of an instance by id. -/
def registerInstId (ref : InstRef β) : InstM β Unit := fun s =>
  match kndSharedSetAdd s.idSet ref.entry.id ref.entry with
  | (.error e, idx) => .error (.err e) { s with instIdx := some idx }
  | (.ok (), idx) => .ok () { s with instIdx := some idx }

/-- The body of the loop of `knd_class_inst_update_indices`. -/
def registerInst (commit : CommitAddr) (ref : InstRef β) : InstM β Unit :=
  if ref.created then do
    (if ref.entry.name ≠ [] then registerInstName commit ref else pure ())
    registerInstId ref
    match ref.indexed with
    | .error e => throw (.err e)
    | .ok () => pure ()
  else pure ()

/-- **`knd_class_inst_update_indices`**. `hasEntry` is whether the class name index has the class, or a copy of it
was made. -/
def kndClassInstUpdateIndices (commit : CommitAddr) (hasEntry : Bool) (refs : List (InstRef β)) : InstM β Unit := do
  (if hasEntry = false then throw (.err .fail) else pure ())
  modify fun s => s.setIdxs s.nameDict s.idSet   -- the two compare-and-exchange loops
  refs.forM (registerInst commit)

/-! ## (4) Runs -/

/-- What happens to the class. -/
inductive InstEvent (β : Type) where
  /-- A commit of instances. -/
  | commit (commit : CommitAddr) (hasEntry : Bool) (refs : List (InstRef β))
  /-- A lookup. -/
  | get (left : SharedDict IdxEntry × SharedSet IdxEntry) (name : Name)
  /-- A removal. -/
  | remove (left : SharedDict IdxEntry × SharedSet IdxEntry) (name : Name)

/-- One event. -/
def step (c : SnapshotClass β) (s : ClassInsts β) : InstEvent β → ClassInsts β
  | .commit commit hasEntry refs => finalState (kndClassInstUpdateIndices commit hasEntry refs) s
  | .get left name => finalState (kndGetClassInst c left name) s
  | .remove left name => finalState (removeInst c left name) s

/-- The class as it is when its repository has been opened. -/
def opened (mempool : MemPool) : ClassInsts β := { mempool }

/-- **Every instance of the snapshot that was not removed is found by its name**, as it is by the first lookup
after the repository was opened. -/
def Retrievable (c : SnapshotClass β) (s : ClassInsts β) : Prop :=
  ∀ mempool left name inst s₁, (kndGetClassInst c left name).run (opened mempool) = .ok inst s₁ →
    name ∉ s.removals → ∀ left', ∃ s₂, (kndGetClassInst c left' name).run s = .ok inst s₂

/-- **No commit comes before the load** of the instances. -/
def LoadedFirst (c : SnapshotClass β) (s : ClassInsts β) : InstEvent β → Prop
  | .commit _ _ _ => c.numSnapshotInsts = 0 ∨ s.instNameIdx.isSome
  | .get _ _ | .remove _ _ => True

/-! ## (5) What a load leaves -/

/-- **Every item is valid**, and its entry has its key for a name. -/
def Plain (self : SharedDict IdxEntry) : Prop :=
  ∀ name item, self.item? name = some item → item.phase = .valid ∧ item.data.name = name

theorem plain_new : Plain (kndSharedDictNew IdxEntry mediumDictSize) := by
  intro name item h
  cases h

theorem Plain.push {self : SharedDict IdxEntry} (h : Plain self) (entry : IdxEntry) (states : List CommitAddr) :
    Plain (self.push ⟨.valid, entry.name, entry, states⟩) := by
  intro name item hitem
  rw [SharedDict.item?_push] at hitem
  split_ifs at hitem with hname
  · cases hitem
    exact ⟨rfl, hname.symm⟩
  · exact h name item hitem

theorem Plain.get {self : SharedDict IdxEntry} (h : Plain self) {name : Name} {entry : IdxEntry}
    (hget : kndSharedDictGet self name = some entry) :
    ∃ item, self.item? name = some item ∧ item.phase = .valid ∧ item.data = entry ∧ entry.name = name := by
  rw [kndSharedDictGet] at hget
  cases hitem : self.item? name with
  | none =>
      rw [hitem] at hget
      cases hget
  | some item =>
      obtain ⟨hphase, hname⟩ := h name item hitem
      simp only [hitem, hphase, reduceCtorEq, if_false, Option.some.injEq] at hget
      exact ⟨item, rfl, hphase, hget, hget ▸ hname⟩

/-- The callback of a load keeps the items plain. -/
theorem ensures_plain (strIdx : SharedSet CharSeq) (id mem : List UInt8) (n : Nat) (self : EntryLoad)
    (h : Plain self.nameIdx) :
    Ensures (fun self => Plain self.nameIdx) (kndClassInstEntryUnmarshall strIdx id mem n self) := by
  intro self' hcall
  obtain ⟨entry, -, -, -, hname, -⟩ := entryUnmarshall_registers hcall
  rw [hname]
  exact h.push entry []

theorem SnapshotClass.plain_of_load (c : SnapshotClass β) {nameIdx nameIdx' : SharedDict IdxEntry}
    {idx idx' : SharedSet IdxEntry} (h : c.load nameIdx idx = .ok (nameIdx', idx')) (hplain : Plain nameIdx) :
    Plain nameIdx' := by
  unfold load at h
  split at h
  · cases h
  · rename_i file hfile
    obtain ⟨⟨set, load⟩, hload, h⟩ := Checked.bind_eq_ok.mp h
    cases h
    exact ensures_unmarshallFile (P := fun self : EntryLoad => Plain self.nameIdx) (ensures_plain c.strIdx) idx file
      file.length hplain (set, load) hload

/-! ## (6) A class that was loaded -/

/-- No instance was loaded or committed. -/
def Unloaded (s : ClassInsts β) : Prop := s.instNameIdx = none ∧ s.instIdx = none

/-- **The instances of the snapshot are in the indices**, as a load left them. -/
structure Loaded (c : SnapshotClass β) (nameIdx₀ : SharedDict IdxEntry) (dir : SharedSetDir) (s : ClassInsts β) :
    Prop where
  /-- The name index has their items, and each of its entries under its own name. -/
  items : ∃ nameIdx, s.instNameIdx = some nameIdx ∧
    (∀ name item, nameIdx₀.item? name = some item → nameIdx.item? name = some item) ∧
    ∀ name item, nameIdx.item? name = some item → item.data.name = name
  /-- The id index knows where their records are. -/
  known : ∃ idx, s.instIdx = some idx ∧ idx.dir = dir
  /-- An instance that was read is what its record gives, unless it was removed. -/
  insts : ∀ name entry, kndSharedDictGet nameIdx₀ name = some entry → ∀ inst, s.insts name = some inst →
    c.readInst dir entry.id = .ok inst.body ∧ (inst.removed = true → name ∈ s.removals)

section Steps

variable {c : SnapshotClass β} {nameIdx₀ : SharedDict IdxEntry} {dir : SharedSetDir} {s : ClassInsts β}

/-- A name of the snapshot is taken. -/
theorem Loaded.taken (h : Loaded c nameIdx₀ dir s) (hplain : Plain nameIdx₀) {name : Name} {item : DictItem IdxEntry}
    (hitem : nameIdx₀.item? name = some item) : s.nameDict.Taken name := by
  obtain ⟨nameIdx, hidx, hitems, -⟩ := h.items
  refine ⟨item, ?_, (hplain name item hitem).1⟩
  rw [ClassInsts.nameDict, hidx]
  exact hitems name item hitem

theorem stable_registerInstName (hplain : Plain nameIdx₀) (commit : CommitAddr) (ref : InstRef β) :
    Moves (Stable (Loaded c nameIdx₀ dir)) (registerInstName commit ref) := by
  intro s h
  unfold finalState registerInstName
  simp only [EStateM.run]
  cases hset : kndSharedDictSet s.nameDict s.mempool ref.entry.name ref.entry (some commit) false with
  | mk rc mempool =>
      cases rc with
      | error e => exact ⟨h.items, h.known, h.insts⟩
      | ok r =>
          obtain ⟨item, nameIdx⟩ := r
          obtain ⟨hfree, rfl, rfl⟩ := kndSharedDictSet_ok hset
          -- the name is none of the snapshot
          have hne : ∀ name item, nameIdx₀.item? name = some item → name ≠ ref.entry.name := by
            rintro name item hitem rfl
            exact hfree (h.taken hplain hitem)
          obtain ⟨nameIdx, hidx, hitems, hnames⟩ := h.items
          refine ⟨⟨_, rfl, fun name item hitem => ?_, fun name item hitem => ?_⟩, h.known,
            fun name entry hget inst hinst => ?_⟩
          · rw [setItemPhase_push, SharedDict.item?_push, if_neg (hne name item hitem), ClassInsts.nameDict, hidx]
            exact hitems name item hitem
          · rw [setItemPhase_push, SharedDict.item?_push, ClassInsts.nameDict, hidx] at hitem
            by_cases hname : name = ref.entry.name
            · rw [if_pos hname] at hitem
              cases hitem
              exact hname.symm
            · rw [if_neg hname] at hitem
              exact hnames name item hitem
          · obtain ⟨item, hitem, -⟩ := hplain.get hget
            have hold : Function.update s.insts ref.entry.name (some ref.inst) name = some inst := hinst
            rw [Function.update_of_ne (hne name item hitem)] at hold
            exact h.insts name entry hget inst hold

theorem stable_registerInstId (ref : InstRef β) : Moves (Stable (Loaded c nameIdx₀ dir)) (registerInstId ref) := by
  intro s h
  have hdir : ∀ rc idx, kndSharedSetAdd s.idSet ref.entry.id ref.entry = (rc, idx) → idx.dir = dir := by
    intro rc idx hadd
    obtain ⟨idx₀, hidx, hdir⟩ := h.known
    rw [kndSharedSetAdd, ClassInsts.idSet, hidx] at hadd
    rw [← hdir]
    split at hadd <;> (cases hadd; rfl)
  unfold finalState registerInstId
  simp only [EStateM.run]
  cases hadd : kndSharedSetAdd s.idSet ref.entry.id ref.entry with
  | mk rc idx =>
      cases rc with
      | error e => exact ⟨h.items, ⟨idx, rfl, hdir _ _ hadd⟩, h.insts⟩
      | ok => exact ⟨h.items, ⟨idx, rfl, hdir _ _ hadd⟩, h.insts⟩

theorem stable_registerInst (hplain : Plain nameIdx₀) (commit : CommitAddr) (ref : InstRef β) :
    Moves (Stable (Loaded c nameIdx₀ dir)) (registerInst commit ref) := by
  refine .ite (fun _ => ?_) fun _ => .pure _
  refine .bind (.ite (fun _ => stable_registerInstName hplain commit ref) fun _ => .pure _) fun _ =>
    .bind (stable_registerInstId ref) fun _ => ?_
  cases ref.indexed with
  | error e => exact .throw _
  | ok => exact .pure _

/-- **A commit** drops no instance of the snapshot. -/
theorem stable_kndClassInstUpdateIndices (hplain : Plain nameIdx₀) (commit : CommitAddr) (hasEntry : Bool)
    (refs : List (InstRef β)) :
    Moves (Stable (Loaded c nameIdx₀ dir)) (kndClassInstUpdateIndices commit hasEntry refs) := by
  refine .bind (.ite (fun _ => .throw _) fun _ => .pure _) fun _ => .bind (.modify fun s h => ?_) fun _ =>
    .forM fun ref _ => stable_registerInst hplain commit ref
  obtain ⟨nameIdx, hidx, hitems⟩ := h.items
  obtain ⟨idx, hset, hdir⟩ := h.known
  refine ⟨⟨_, rfl, ?_⟩, ⟨_, rfl, ?_⟩, h.insts⟩
  · rwa [ClassInsts.nameDict, hidx, Option.getD_some]
  · rwa [ClassInsts.idSet, hset]

end Steps

/-! ## (7) Lookups of a class that was loaded -/

section Lookups

variable {c : SnapshotClass β} {nameIdx₀ : SharedDict IdxEntry} {idx₀ : SharedSet IdxEntry} {s : ClassInsts β}

/-- The state after a load. -/
theorem loaded_setIdxs (hplain : Plain nameIdx₀) (hinsts : s.insts = fun _ => none) :
    Loaded c nameIdx₀ idx₀.dir (s.setIdxs nameIdx₀ idx₀) := by
  refine ⟨⟨nameIdx₀, rfl, fun _ _ h => h, fun name item h => (hplain name item h).2⟩, ⟨idx₀, rfl, rfl⟩,
    fun name entry _ inst hinst => ?_⟩
  have hnone : s.insts name = some inst := hinst
  rw [hinsts] at hnone
  cases hnone

/-- **The index a lookup works on.** -/
theorem nameIdxOf_run (hnum : c.numSnapshotInsts ≠ 0)
    (hload : c.load (kndSharedDictNew IdxEntry mediumDictSize) {} = .ok (nameIdx₀, idx₀))
    (left : SharedDict IdxEntry × SharedSet IdxEntry)
    (h : (Unloaded s ∧ s.insts = fun _ => none) ∨ Loaded c nameIdx₀ idx₀.dir s) :
    ∃ nameIdx s', (nameIdxOf c left).run s = .ok nameIdx s' ∧ Loaded c nameIdx₀ idx₀.dir s' ∧
      s'.instNameIdx = some nameIdx ∧ s'.removals = s.removals := by
  rcases h with ⟨⟨hname, hset⟩, hinsts⟩ | h
  · refine ⟨nameIdx₀, s.setIdxs nameIdx₀ idx₀, ?_, loaded_setIdxs (c.plain_of_load hload plain_new) hinsts, rfl, rfl⟩
    have hrun : c.load s.nameDict s.idSet = .ok (nameIdx₀, idx₀) := by
      rwa [ClassInsts.nameDict, hname, ClassInsts.idSet, hset]
    unfold nameIdxOf kndClassInstIdxFetch
    simp only [EStateM.run, hname, hnum, hrun, if_false]
  · obtain ⟨nameIdx, hidx, -⟩ := h.items
    refine ⟨nameIdx, s, ?_, h, hidx, rfl⟩
    unfold nameIdxOf
    simp only [EStateM.run, hidx]

/-- What an acquisition returns. -/
theorem kndClassInstAcquire_ok {entry : IdxEntry} {inst : Inst β} {s' : ClassInsts β}
    (h : (kndClassInstAcquire c entry).run s = .ok inst s') :
    (s.insts entry.name = some inst ∧ s' = s) ∨
      s.insts entry.name = none ∧ c.readInst s.idSet.dir entry.id = .ok inst.body ∧ inst.removed = false ∧
        s' = s.setInst entry.name inst := by
  unfold kndClassInstAcquire at h
  simp only [EStateM.run] at h
  split at h
  · rename_i inst' hinst
    cases h
    exact .inl ⟨hinst, rfl⟩
  · rename_i hinst
    split at h
    · rename_i body hread
      cases h
      exact .inr ⟨hinst, hread, rfl, rfl⟩
    · cases h
    · cases h

theorem kndClassInstAcquire_error {entry : IdxEntry} {e : LookupStop} {s' : ClassInsts β}
    (h : (kndClassInstAcquire c entry).run s = .error e s') : s' = s := by
  unfold kndClassInstAcquire at h
  simp only [EStateM.run] at h
  split at h
  · cases h
  · split at h
    · cases h
    · cases h
      rfl
    · cases h
      rfl

/-- An instance that is read is what its record gives. -/
theorem Loaded.setInst {dir : SharedSetDir} (h : Loaded c nameIdx₀ dir s) {name : Name} {inst : Inst β}
    {removals : List Name} (hsub : s.removals ⊆ removals)
    (hinst : ∀ entry, kndSharedDictGet nameIdx₀ name = some entry →
      c.readInst dir entry.id = .ok inst.body ∧ (inst.removed = true → name ∈ removals)) :
    Loaded c nameIdx₀ dir { s.setInst name inst with removals } := by
  refine ⟨h.items, h.known, fun name' entry hget inst' hinst' => ?_⟩
  have hcases : Function.update s.insts name (some inst) name' = some inst' := hinst'
  by_cases hname : name' = name
  · subst hname
    rw [Function.update_self, Option.some.injEq] at hcases
    subst hcases
    exact hinst entry hget
  · rw [Function.update_of_ne hname] at hcases
    exact (h.insts name' entry hget inst' hcases).imp_right fun hmem hrem => hsub (hmem hrem)

end Lookups

section Find

variable {c : SnapshotClass β} {nameIdx₀ : SharedDict IdxEntry} {dir : SharedSetDir} {s : ClassInsts β}

/-- The entry under a name of the snapshot. -/
theorem Loaded.get (h : Loaded c nameIdx₀ dir s) (hplain : Plain nameIdx₀) {nameIdx : SharedDict IdxEntry}
    (hidx : s.instNameIdx = some nameIdx) {name : Name} {entry : IdxEntry}
    (hget : kndSharedDictGet nameIdx₀ name = some entry) : kndSharedDictGet nameIdx name = some entry := by
  obtain ⟨item, hitem, hphase, rfl, -⟩ := hplain.get hget
  obtain ⟨nameIdx', hidx', hitems, -⟩ := h.items
  obtain rfl := Option.some.inj (hidx.symm.trans hidx')
  simp [kndSharedDictGet, hitems name item hitem, hphase]

/-- An entry has the name under which it is found. -/
theorem Loaded.name_eq (h : Loaded c nameIdx₀ dir s) {nameIdx : SharedDict IdxEntry}
    (hidx : s.instNameIdx = some nameIdx) {name : Name} {entry : IdxEntry}
    (hget : kndSharedDictGet nameIdx name = some entry) : entry.name = name := by
  obtain ⟨nameIdx', hidx', -, hnames⟩ := h.items
  obtain rfl := Option.some.inj (hidx.symm.trans hidx')
  rw [kndSharedDictGet] at hget
  split at hget
  · cases hget
  · rename_i item hitem
    split_ifs at hget
    cases hget
    exact hnames name item hitem

/-- **A lookup** keeps the instances of the snapshot, and what it finds is what the record gives. -/
theorem Loaded.findInst (h : Loaded c nameIdx₀ dir s) (hplain : Plain nameIdx₀) {nameIdx : SharedDict IdxEntry}
    (hidx : s.instNameIdx = some nameIdx) (name : Name) :
    Yields (findInst c nameIdx name) s
      (fun inst s' => Loaded c nameIdx₀ dir s' ∧ s'.removals = s.removals ∧
        ∀ entry, kndSharedDictGet nameIdx₀ name = some entry → c.readInst dir entry.id = .ok inst.body)
      fun s' => Loaded c nameIdx₀ dir s' ∧ s'.removals = s.removals := by
  rw [InstLookups.findInst]
  split
  · exact .intro (fun _ _ hrun => by cases hrun) fun _ _ hrun => by
      cases hrun
      exact ⟨h, rfl⟩
  · rename_i entry hget
    have hsame : ∀ entry₀, kndSharedDictGet nameIdx₀ name = some entry₀ → entry₀ = entry := fun entry₀ hget₀ =>
      Option.some.inj ((h.get hplain hidx hget₀).symm.trans hget)
    have hname := h.name_eq hidx hget
    refine Yields.bind (I := fun inst s' => Loaded c nameIdx₀ dir s' ∧ s'.removals = s.removals ∧
      ∀ entry, kndSharedDictGet nameIdx₀ name = some entry → c.readInst dir entry.id = .ok inst.body)
      (.intro (fun inst s' hrun => ?_) fun e s' hrun => ?_) fun inst s' hI => ?_
    · rcases kndClassInstAcquire_ok hrun with ⟨hinst, rfl⟩ | ⟨-, hread, hremoved, rfl⟩
      · refine ⟨h, rfl, fun entry₀ hget₀ => ?_⟩
        rw [hname] at hinst
        exact (h.insts name entry₀ hget₀ inst hinst).1
      · have hdir : s.idSet.dir = dir := by
          obtain ⟨idx, hset, hdir⟩ := h.known
          rw [ClassInsts.idSet, hset, Option.getD_some, hdir]
        rw [hdir] at hread
        refine ⟨h.setInst (List.Subset.refl _) fun entry₀ hget₀ => ⟨?_, ?_⟩, rfl, fun entry₀ hget₀ => ?_⟩
        · rw [hname] at hget₀
          rwa [hsame entry₀ hget₀]
        · rw [hremoved]
          intro habs
          cases habs
        · rwa [hsame entry₀ hget₀]
    · rw [kndClassInstAcquire_error hrun]
      exact ⟨h, rfl⟩
    · split
      · exact .intro (fun _ _ hrun => by cases hrun) fun _ _ hrun => by
          cases hrun
          exact ⟨hI.1, hI.2.1⟩
      · exact .returning rfl hI

end Find

/-! ## (8) Runs without an early commit -/

section Runs

variable {c : SnapshotClass β} {s s' s₁ : ClassInsts β} {left : SharedDict IdxEntry × SharedSet IdxEntry} {name : Name}
  {inst : Inst β}

/-- The index of a class that was not loaded comes from a load. -/
theorem nameIdxOf_ok {nameIdx : SharedDict IdxEntry} (h : (nameIdxOf c left).run s = .ok nameIdx s')
    (hnone : s.instNameIdx = none) : c.numSnapshotInsts ≠ 0 ∧ ∃ idx, c.load s.nameDict s.idSet = .ok (nameIdx, idx) ∧
      s' = s.setIdxs nameIdx idx := by
  unfold nameIdxOf at h
  simp only [EStateM.run, hnone] at h
  split_ifs at h with hnum
  unfold kndClassInstIdxFetch at h
  split at h
  · rename_i nameIdx' idx hload
    cases h
    exact ⟨hnum, idx, hload, rfl⟩
  · cases h
  · cases h

/-- What a first lookup that returns has loaded and read. -/
theorem kndGetClassInst_opened {mempool : MemPool}
    (h : (kndGetClassInst c left name).run (opened mempool) = .ok inst s₁) :
    c.numSnapshotInsts ≠ 0 ∧ ∃ nameIdx₀ idx₀ entry,
      c.load (kndSharedDictNew IdxEntry mediumDictSize) {} = .ok (nameIdx₀, idx₀) ∧
      kndSharedDictGet nameIdx₀ name = some entry ∧ c.readInst idx₀.dir entry.id = .ok inst.body ∧
      inst.removed = false := by
  obtain ⟨nameIdx, s', hidx, hfind⟩ := run_bind_eq_ok.mp h
  obtain ⟨hnum, idx, hload, rfl⟩ := nameIdxOf_ok hidx rfl
  refine ⟨hnum, nameIdx, idx, ?_⟩
  unfold findInst at hfind
  split at hfind
  · cases hfind
  · rename_i entry hget
    obtain ⟨inst', s₂, hacquire, hfind⟩ := run_bind_eq_ok.mp hfind
    split_ifs at hfind with hremoved
    · cases hfind
    · cases hfind
      rcases kndClassInstAcquire_ok hacquire with ⟨hinst, -⟩ | ⟨-, hread, hfalse, -⟩
      · cases hinst
      · exact ⟨entry, hload, hget, hread, hfalse⟩

section Loads

variable {nameIdx₀ : SharedDict IdxEntry} {idx₀ : SharedSet IdxEntry}

/-- Nothing has happened that a later load would not find as it was, or the class was loaded. -/
def Ready (c : SnapshotClass β) (nameIdx₀ : SharedDict IdxEntry) (idx₀ : SharedSet IdxEntry) (s : ClassInsts β) : Prop :=
  (Unloaded s ∧ s.insts = fun _ => none) ∨ Loaded c nameIdx₀ idx₀.dir s

/-- **A lookup** leaves the class loaded. -/
theorem Ready.kndGetClassInst (hnum : c.numSnapshotInsts ≠ 0)
    (hload : c.load (kndSharedDictNew IdxEntry mediumDictSize) {} = .ok (nameIdx₀, idx₀))
    (h : Ready c nameIdx₀ idx₀ s) :
    Yields (kndGetClassInst c left name) s
      (fun inst s' => Loaded c nameIdx₀ idx₀.dir s' ∧ s'.removals = s.removals ∧
        ∀ entry, kndSharedDictGet nameIdx₀ name = some entry → c.readInst idx₀.dir entry.id = .ok inst.body)
      fun s' => Loaded c nameIdx₀ idx₀.dir s' ∧ s'.removals = s.removals := by
  obtain ⟨nameIdx, s', hrun, hloaded, hidx, hremovals⟩ := nameIdxOf_run hnum hload left h
  have hfind := hloaded.findInst (c.plain_of_load hload plain_new) hidx name
  rw [hremovals] at hfind
  exact (Yields.returning hrun ⟨rfl, rfl⟩ : Yields _ s (fun a s₂ => a = nameIdx ∧ s₂ = s') _).bind fun a s₂ heq => by
    obtain ⟨rfl, rfl⟩ := heq
    exact hfind

/-- **A removal** is remembered. -/
theorem Ready.removeInst (hnum : c.numSnapshotInsts ≠ 0)
    (hload : c.load (kndSharedDictNew IdxEntry mediumDictSize) {} = .ok (nameIdx₀, idx₀))
    (h : Ready c nameIdx₀ idx₀ s) :
    Yields (removeInst c left name) s (fun _ s' => Loaded c nameIdx₀ idx₀.dir s') (Loaded c nameIdx₀ idx₀.dir) := by
  refine ((h.kndGetClassInst hnum hload).mono (fun _ _ hI => hI) fun _ hQ => hQ.1).bind fun inst s' hI => ?_
  refine .returning rfl (hI.1.setInst (List.subset_cons_self ..) fun entry hget => ⟨hI.2.2 entry hget, fun _ => ?_⟩)
  exact List.mem_cons_self

/-- **Every event** that does not commit too early leaves the class ready. -/
theorem Ready.step (hnum : c.numSnapshotInsts ≠ 0)
    (hload : c.load (kndSharedDictNew IdxEntry mediumDictSize) {} = .ok (nameIdx₀, idx₀))
    (h : Ready c nameIdx₀ idx₀ s) {e : InstEvent β} (he : LoadedFirst c s e) :
    Ready c nameIdx₀ idx₀ (step c s e) := by
  right
  cases e with
  | commit commit hasEntry refs =>
      have hsome := he.resolve_left hnum
      rcases h with ⟨⟨hnone, -⟩, -⟩ | h
      · rw [hnone] at hsome
        cases hsome
      · exact stable_kndClassInstUpdateIndices (c.plain_of_load hload plain_new) commit hasEntry refs s h
  | get left name =>
      exact Yields.iff_finalState.mp
        ((h.kndGetClassInst hnum hload).mono (fun _ _ hI => hI.1) fun _ hQ => hQ.1)
  | remove left name => exact Yields.iff_finalState.mp (h.removeInst hnum hload)

/-- **An instance of the snapshot is found** unless it was removed. -/
theorem Ready.found (hnum : c.numSnapshotInsts ≠ 0)
    (hload : c.load (kndSharedDictNew IdxEntry mediumDictSize) {} = .ok (nameIdx₀, idx₀))
    (h : Ready c nameIdx₀ idx₀ s) {entry : IdxEntry} (hget : kndSharedDictGet nameIdx₀ name = some entry)
    (hread : c.readInst idx₀.dir entry.id = .ok inst.body) (hinst : inst.removed = false) (hremoved : name ∉ s.removals) :
    ∃ s₂, (InstLookups.kndGetClassInst c left name).run s = .ok inst s₂ := by
  obtain ⟨nameIdx, s', hrun, hloaded, hidx, hremovals⟩ := nameIdxOf_run hnum hload left h
  have hplain := c.plain_of_load hload plain_new
  have hname : entry.name = name := by
    obtain ⟨-, -, -, -, hname⟩ := hplain.get hget
    exact hname
  have hacquire : ∃ s₂, (kndClassInstAcquire c entry).run s' = .ok inst s₂ := by
    unfold kndClassInstAcquire
    simp only [EStateM.run]
    cases hold : s'.insts entry.name with
    | some inst' =>
        -- it was read before, and is as it was then
        rw [hname] at hold
        obtain ⟨hbody, hrem⟩ := hloaded.insts name entry hget inst' hold
        obtain ⟨body', removed'⟩ := inst'
        obtain ⟨body, removed⟩ := inst
        obtain rfl : body = body' := Checked.ok.inj (hread.symm.trans hbody)
        cases removed' with
        | false =>
            cases hinst
            exact ⟨s', rfl⟩
        | true => exact absurd (hremovals ▸ hrem rfl) hremoved
    | none =>
        have hdir : s'.idSet.dir = idx₀.dir := by
          obtain ⟨idx, hset, hdir⟩ := hloaded.known
          rw [ClassInsts.idSet, hset, Option.getD_some, hdir]
        obtain ⟨body, removed⟩ := inst
        cases hinst
        refine ⟨s'.setInst entry.name { body }, ?_⟩
        simp only [hdir, hread]
  obtain ⟨s₂, hacquire⟩ := hacquire
  refine ⟨s₂, run_bind_eq_ok.mpr ⟨nameIdx, s', hrun, ?_⟩⟩
  have hfind : findInst c nameIdx name = kndClassInstAcquire c entry >>= fun inst =>
      if inst.removed then throw (.err .noMatch) else pure inst := by
    rw [findInst, hloaded.get hplain hidx hget]
  rw [hfind]
  refine run_bind_eq_ok.mpr ⟨inst, s₂, hacquire, ?_⟩
  rw [hinst]
  rfl

end Loads

/-- **Every instance of the snapshot stays retrievable** in a run in which no commit comes before the load. -/
theorem retrievable_of_reaches {mempool : MemPool} (hrun : Reaches (step c) (LoadedFirst c) (opened mempool) s) :
    Retrievable c s := by
  intro mempool' left name inst s₁ hfirst hremoved left'
  obtain ⟨hnum, nameIdx₀, idx₀, entry, hload, hget, hread, hinst⟩ := kndGetClassInst_opened hfirst
  have hready : Ready c nameIdx₀ idx₀ s :=
    hrun.invariant (.inl ⟨⟨rfl, rfl⟩, rfl⟩) fun s e h he => h.step hnum hload he
  exact hready.found hnum hload hget hread hinst hremoved

end Runs

/-! ## (9) An early commit -/

/-- The names that the commits of a run register. -/
def committedNames (es : List (InstEvent β)) : List Name :=
  es.flatMap fun e => match e with
    | .commit _ _ refs => refs.map (·.entry.name)
    | .get _ _ | .remove _ _ => []

/-- There is a name index, and it has only names of a list. -/
def Only (names : List Name) (s : ClassInsts β) : Prop :=
  ∃ nameIdx, s.instNameIdx = some nameIdx ∧ ∀ name, (kndSharedDictGet nameIdx name).isSome → name ∈ names

section Early

variable {c : SnapshotClass β} {s : ClassInsts β} {names : List Name}

theorem stable_only_registerInst (commit : CommitAddr) {ref : InstRef β} (href : ref.entry.name ∈ names) :
    Moves (Stable (Only names)) (registerInst commit ref) := by
  refine .ite (fun _ => ?_) fun _ => .pure _
  refine .bind (.ite (fun _ => ?_) fun _ => .pure _) fun _ => .bind ?_ fun _ => ?_
  · intro s h
    unfold finalState registerInstName
    simp only [EStateM.run]
    cases hset : kndSharedDictSet s.nameDict s.mempool ref.entry.name ref.entry (some commit) false with
    | mk rc mempool =>
        cases rc with
        | error e => exact h
        | ok r =>
            obtain ⟨item, nameIdx⟩ := r
            obtain ⟨-, rfl, rfl⟩ := kndSharedDictSet_ok hset
            obtain ⟨nameIdx, hidx, honly⟩ := h
            refine ⟨_, rfl, fun name hsome => ?_⟩
            rw [kndSharedDictGet_setItemPhase_push] at hsome
            by_cases hname : name = ref.entry.name
            · rwa [hname]
            · rw [if_neg hname, ClassInsts.nameDict, hidx] at hsome
              exact honly name hsome
  · intro s h
    unfold finalState registerInstId
    simp only [EStateM.run]
    cases hadd : kndSharedSetAdd s.idSet ref.entry.id ref.entry with
    | mk rc idx =>
        cases rc with
        | error e => exact h
        | ok => exact h
  · cases ref.indexed with
    | error e => exact .throw _
    | ok => exact .pure _

/-- A lookup loads nothing when there is a name index. -/
theorem stable_only_kndGetClassInst (left : SharedDict IdxEntry × SharedSet IdxEntry) (name : Name) :
    Moves (Stable (Only names)) (kndGetClassInst c left name) := by
  refine .bind (fun s h => ?_) fun nameIdx => ?_
  · obtain ⟨nameIdx, hidx, -⟩ := id h
    unfold finalState nameIdxOf
    simp only [EStateM.run, hidx]
    exact h
  · unfold findInst
    cases kndSharedDictGet nameIdx name with
    | none => exact .throw _
    | some entry =>
        refine .bind (fun s h => ?_) fun inst => .ite (fun _ => .throw _) fun _ => .pure _
        cases hrun : (kndClassInstAcquire c entry).run s with
        | ok inst s' =>
            rw [finalState_of_ok hrun]
            rcases kndClassInstAcquire_ok hrun with ⟨-, rfl⟩ | ⟨-, -, -, rfl⟩
            · exact h
            · exact h
        | error e s' =>
            rw [finalState_of_error hrun, kndClassInstAcquire_error hrun]
            exact h

theorem stable_only_step {e : InstEvent β} (he : ∀ name ∈ committedNames [e], name ∈ names) (h : Only names s) :
    Only names (step c s e) := by
  cases e with
  | commit commit hasEntry refs =>
      refine (Moves.bind (.ite (fun _ => .throw _) fun _ => .pure _) fun _ => .bind (.modify fun s h => ?_) fun _ =>
        .forM fun ref href => stable_only_registerInst commit (he _ ?_) :
          Moves (Stable (Only names)) (kndClassInstUpdateIndices commit hasEntry refs)) s h
      · obtain ⟨nameIdx, hidx, honly⟩ := h
        refine ⟨_, rfl, ?_⟩
        rwa [ClassInsts.nameDict, hidx, Option.getD_some]
      · simpa [committedNames] using ⟨ref, href, rfl⟩
  | get left name => exact stable_only_kndGetClassInst left name s h
  | remove left name =>
      exact (Moves.bind (stable_only_kndGetClassInst left name) fun inst => .modify fun s h => h :
        Moves (Stable (Only names)) (removeInst c left name)) s h

theorem only_foldl {es : List (InstEvent β)} (hes : ∀ name ∈ committedNames es, name ∈ names) (h : Only names s) :
    Only names (es.foldl (step c) s) := by
  induction es generalizing s with
  | nil => exact h
  | cons e es ih =>
      rw [committedNames, List.flatMap_cons] at hes
      refine ih (fun name hmem => hes name (List.mem_append_right _ hmem)) (stable_only_step (fun name hmem => ?_) h)
      rw [committedNames, List.flatMap_cons, List.flatMap_nil, List.append_nil] at hmem
      exact hes name (List.mem_append_left _ hmem)

/-- **After an early commit no instance of the snapshot is found**, only what was committed. -/
theorem noMatch_of_commit (hnone : s.instNameIdx = none) (commit : CommitAddr) (refs : List (InstRef β))
    (es : List (InstEvent β)) {name : Name} (hname : name ∉ committedNames (.commit commit true refs :: es))
    (left : SharedDict IdxEntry × SharedSet IdxEntry) :
    ∃ s', (kndGetClassInst c left name).run ((InstEvent.commit commit true refs :: es).foldl (step c) s)
      = .error (.err .noMatch) s' := by
  have hnew : Only (committedNames (.commit commit true refs :: es)) (s.setIdxs s.nameDict s.idSet) := by
    refine ⟨_, rfl, fun name hsome => ?_⟩
    rw [ClassInsts.nameDict, hnone] at hsome
    cases hsome
  have hcommit : Only (committedNames (.commit commit true refs :: es)) (step c s (.commit commit true refs)) := by
    refine (Moves.forM fun ref href => stable_only_registerInst commit ?_ :
      Moves (Stable (Only _)) (refs.forM (registerInst commit))) (s.setIdxs s.nameDict s.idSet) hnew
    simpa [committedNames] using .inl ⟨ref, href, rfl⟩
  have hrun : Only (committedNames (.commit commit true refs :: es))
      ((InstEvent.commit commit true refs :: es).foldl (step c) s) := by
    rw [List.foldl_cons]
    refine only_foldl (fun name hmem => ?_) hcommit
    rw [committedNames, List.flatMap_cons]
    exact List.mem_append_right _ hmem
  obtain ⟨nameIdx, hidx, honly⟩ := hrun
  generalize (InstEvent.commit commit true refs :: es).foldl (step c) s = s' at hidx
  have hload : (nameIdxOf c left).run s' = .ok nameIdx s' := by
    unfold nameIdxOf
    simp only [EStateM.run, hidx]
  refine ⟨s', (run_bind_of_ok hload).trans ?_⟩
  cases hget : kndSharedDictGet nameIdx name with
  | some entry => exact absurd (honly name (by rw [hget]; rfl)) hname
  | none =>
      unfold findInst
      rw [hget]
      rfl

end Early

/-- The class with the instance `ann`, as it was written. -/
def annClass : SnapshotClass Unit where
  numSnapshotInsts := 1
  file := some [71, 83, 80, 49, 97, 110, 110, 123, 48, 32, 49, 125, 0, 1, 11, 1]
  smallPages := 1
  mempool := ⟨1⟩
  classInstUnmarshall := fun _ _ _ => .ok ()

/-- An instance `bob` that is committed. -/
def bobRef : InstRef Unit where
  created := true
  entry := ⟨[50], [98, 111, 98], none⟩
  inst := ⟨(), false⟩

/-- Nothing is left of a load. -/
def nothing : SharedDict IdxEntry × SharedSet IdxEntry := (kndSharedDictNew IdxEntry mediumDictSize, {})

/-- A lookup, then a commit. -/
theorem retrievable_of_reaches_ann :
    Retrievable annClass ([InstEvent.get nothing [97, 110, 110], .commit 1 true [bobRef]].foldl (step annClass)
      (opened ⟨9⟩)) :=
  retrievable_of_reaches (Reaches.refl.foldl ⟨trivial, .inr (by decide +kernel), trivial⟩)

/-- **A commit of `bob` hides `ann`.** -/
theorem not_retrievable_ann :
    ¬Retrievable annClass (step annClass (opened ⟨9⟩) (.commit 1 true [bobRef])) := by
  intro h
  have hfirst : returns (kndGetClassInst annClass nothing [97, 110, 110]) (opened ⟨9⟩) = true := by
    decide +kernel
  obtain ⟨inst, hrun⟩ := returns_iff.mp hfirst
  obtain ⟨s₂, hfound⟩ := h _ _ _ _ _ hrun (by decide +kernel) nothing
  have hlost : returns (kndGetClassInst annClass nothing [97, 110, 110])
      (step annClass (opened ⟨9⟩) (.commit 1 true [bobRef])) = false := by
    decide +kernel
  rw [returns, hfound] at hlost
  cases hlost

end InstLookups

end Knowdy
