import Knowdy.InstLookups
import Knowdy.SharedSetSafety
import Mathlib.Data.List.Basic

/-! # The two instance indices of a class

`inst_name_idx` and `inst_idx` of a class are filled by bulk loading, by commits, live or replayed from a journal, and
by the load of the instances that a snapshot has.

* `InstRepo` — the classes of a repository, with the instances that each of them has.
* `registerByName`, `classStates`, `updateIndices` — a bulk load and a commit; a load is that of `InstLookups`.
* `IdxsAgree` — the two indices of a class agree.
* `Paired`, `Filled`, `ClassInv` — the invariant, with one lemma for each way to add an instance.
* `idxsAgree_of_reaches` — the indices agree in a run without bulk loads, in which every commit imports into one class
  that has been loaded; `Inv.agree_commit_iff`: for a commit into one class this is exact. -/

namespace Knowdy

namespace InstIdxs

open Checked
open InstLookups (SnapshotClass ClassInsts InstRef InstM LookupStop Plain plain_new nameIdxOf nameIdxOf_ok)

variable {β : Type}

/-! ## (1) A repository -/

/-- A callback that notes the ids of the records. -/
def noteRecord : ElemUnmarshallCb (List (List UInt8)) := fun id _ _ ids => .ok (ids ++ [id])

/-- The ids of the instances that the snapshot has of a class. -/
def snapshotIds (c : SnapshotClass β) : List (List UInt8) :=
  match c.file with
  | none => []
  | some file =>
      match kndSharedSetUnmarshallFile ({} : SharedSet Unit) file file.length noteRecord [] with
      | .ok (_, ids) => ids
      | _ => []

/-- The classes of a repository, as far as their instances are concerned. -/
structure InstRepo (β : Type) where
  /-- The classes as the snapshot has them. -/
  snapshots : ClassAddr → SnapshotClass β
  /-- The indices of the classes. -/
  classes : ClassAddr → ClassInsts β
  /-- `user_ctx->mempool`. -/
  mempool : MemPool
  /-- The instances that were bulk loaded or committed since the repository was opened, each with its class. -/
  added : List (ClassAddr × IdxEntry) := []

/-- A repository that was opened from a snapshot. -/
def InstRepo.opened (snapshots : ClassAddr → SnapshotClass β) (mempool : MemPool) : InstRepo β :=
  { snapshots, mempool, classes := fun _ => InstLookups.opened mempool }

/-- **The number of instances of a class**: those of the snapshot and those added since. -/
def InstRepo.numInsts (self : InstRepo β) (a : ClassAddr) : Nat :=
  (snapshotIds (self.snapshots a)).length + (self.added.filter fun p => p.1 = a).length

/-- A program over a repository. -/
abbrev RepoM (β α : Type) := EStateM LookupStop (InstRepo β) α

/-- A program over one class. -/
def onClass {α : Type} (a : ClassAddr) (x : InstM β α) : RepoM β α :=
  zoom (fun repo => { repo.classes a with mempool := repo.mempool })
    (fun c repo => { repo with classes := Function.update repo.classes a c, mempool := c.mempool }) x

/-- Note the instances that were added. -/
def addInsts (insts : List (ClassAddr × IdxEntry)) : RepoM β Unit :=
  modify fun repo => { repo with added := insts ++ repo.added }

/-! ## (2) The ways to add instances -/

/-- `register_by_name`: the name index is published when it is made, and its items are valid at once. -/
def registerByName (ref : InstRef β) : InstM β Unit := fun s =>
  match kndSharedDictSet s.nameDict s.mempool ref.entry.name ref.entry none false with
  | (.error e, mempool) => .error (.err e) { s with mempool, instNameIdx := some s.nameDict }
  | (.ok (_, nameIdx), mempool) =>
      .ok () ({ s with mempool, instNameIdx := some nameIdx }.setInst ref.entry.name ref.inst)

/-- A class selection of a task. -/
structure Selection (β : Type) where
  /-- The class. -/
  entry : ClassAddr
  /-- Is it in the class name index of the repository, or is a copy of its entry made? -/
  hasEntry : Bool
  /-- The instances that it imports, in order. -/
  imports : List (InstRef β)

/-- The instances that a selection adds to its class. -/
def Selection.insts (self : Selection β) : List (ClassAddr × IdxEntry) :=
  (self.imports.filter (·.created)).map fun ref => (self.entry, ref.entry)

/-- A `struct kndStateRef` of `commit->class_state_refs` in the phase `KND_SELECTED`. -/
structure ClassState (β : Type) where
  /-- `obj`: the class entry. -/
  entry : ClassAddr
  /-- Is it in the class name index of the repository, or is a copy of its entry made? -/
  hasEntry : Bool
  /-- `state->children`. -/
  children : List (InstRef β)

/-- `knd_class_commit_state` after each class selection: the state takes along `class_inst_state_refs`, all the
instances that the task has imported so far, newest first. -/
def classStates : List (Selection β) → (classInstStateRefs : List (InstRef β)) → (refs : List (ClassState β)) →
    List (ClassState β)
  | [], _, refs => refs
  | sel :: sels, classInstStateRefs, refs =>
      let children := sel.imports.reverse ++ classInstStateRefs
      classStates sels children (⟨sel.entry, sel.hasEntry, children⟩ :: refs)

/-- `update_indices` for the selected classes of a commit. -/
def updateIndices (commit : CommitAddr) (refs : List (ClassState β)) : RepoM β Unit :=
  refs.forM fun ref =>
    if ref.children = [] then pure ()
    else onClass ref.entry (InstLookups.kndClassInstUpdateIndices commit ref.hasEntry ref.children)

/-! ## (3) Runs -/

/-- What happens to a repository. -/
inductive RepoEvent (β : Type) where
  /-- It is opened, from a snapshot with these classes. -/
  | opening (snapshots : ClassAddr → SnapshotClass β) (mempool : MemPool)
  /-- `knd_import_class_inst` in a bulk load. -/
  | bulkLoad (a : ClassAddr) (ref : InstRef β)
  /-- A commit of a task with these class selections is confirmed, or applied by a restore of the journals. -/
  | commit (commit : CommitAddr) (sels : List (Selection β))
  /-- `knd_get_class_inst` looks for its name index, and loads the instances of the snapshot if there is none. The
  rest of a lookup leaves both indices as they are. -/
  | load (a : ClassAddr) (left : SharedDict IdxEntry × SharedSet IdxEntry)

/-- What an event does. -/
def RepoEvent.run : RepoEvent β → RepoM β Unit
  | .opening snapshots mempool => set (InstRepo.opened snapshots mempool)
  | .bulkLoad a ref => do
      onClass a (registerByName ref)
      addInsts [(a, ref.entry)]
  | .commit c sels => do
      updateIndices c (classStates sels [] [])
      addInsts (sels.flatMap Selection.insts)
  | .load a left => do
      let repo ← get
      let _ ← onClass a (nameIdxOf (repo.snapshots a) left)
      pure ()

/-- One event. -/
def step (repo : InstRepo β) (e : RepoEvent β) : InstRepo β := finalState e.run repo

/-- **The event returns**: the commit is confirmed, and the load is complete. -/
def Completes (repo : InstRepo β) (e : RepoEvent β) : Prop := returns e.run repo = true

/-- The entry that a class has under a name. -/
def instByName (s : ClassInsts β) (name : Name) : Option IdxEntry :=
  s.instNameIdx.bind fun nameIdx => kndSharedDictGet nameIdx name

/-- The entry that a class has under an id. -/
def instById (s : ClassInsts β) (id : List UInt8) : Option IdxEntry :=
  s.instIdx.bind fun idx => (kndSharedSetGet idx id).toOption

/-- **The two indices of a class with `n` instances agree.** -/
structure IdxsAgree (n : Nat) (s : ClassInsts β) : Prop where
  /-- They have the same named entries. -/
  same : ∀ entry : IdxEntry, entry.name ≠ [] →
    ((∃ name, instByName s name = some entry) ↔ ∃ id, instById s id = some entry)
  /-- Each is stored under its own name. -/
  named : ∀ name entry, instByName s name = some entry → entry.name = name
  /-- And under its own id. -/
  numbered : ∀ id entry, instById s id = some entry → entry.id = id
  /-- `num_elems` is the number of the instances. -/
  count : ∀ idx, s.instIdx = some idx → idx.numElems = n

/-- **The condition on a step**: no instance is bulk loaded; a commit imports in its last selection only, and into a
class whose name index exists, unless the snapshot has no instances of it. -/
def ImportsLoaded (repo : InstRepo β) : RepoEvent β → Prop
  | .opening _ _ | .load _ _ => True
  | .bulkLoad _ _ => False
  | .commit _ sels => (∀ sel ∈ sels.dropLast, sel.imports = []) ∧
      ∀ sel ∈ sels, sel.imports ≠ [] →
        snapshotIds (repo.snapshots sel.entry) = [] ∨ (repo.classes sel.entry).instNameIdx.isSome

/-! ## (4) Two indices that agree -/

/-- **A name index and an id index with the same named entries**, each under its own name and id. -/
structure Paired (nameIdx : SharedDict IdxEntry) (idx : SharedSet IdxEntry) : Prop where
  /-- The items of the name index are valid, each under its own name. -/
  plain : Plain nameIdx
  /-- The entries of the id index are under their own ids. -/
  numbered : ∀ id entry, kndSharedSetGet idx id = .ok entry → entry.id = id
  /-- The named entries are the same. -/
  same : ∀ entry : IdxEntry, entry.name ≠ [] →
    (kndSharedDictGet nameIdx entry.name = some entry ↔ kndSharedSetGet idx entry.id = .ok entry)
  /-- `allow_overwrite` is not set. -/
  noOverwrite : idx.allowOverwrite = false

theorem kndSharedSetGet_empty (id : List UInt8) (entry : IdxEntry) :
    kndSharedSetGet ({} : SharedSet IdxEntry) id ≠ .ok entry := by
  intro h
  obtain ⟨ds, -, hds⟩ := getElem_eq_ok.mp h
  cases ds with
  | nil => cases hds
  | cons d ds =>
      cases ds with
      | nil => cases hds
      | cons d' ds =>
          rw [ElemIdx.lookup_cons (List.cons_ne_nil d' ds)] at hds
          exact absurd hds (by simp [ElemIdx.idxs])

theorem paired_new : Paired (kndSharedDictNew IdxEntry mediumDictSize) {} where
  plain := plain_new
  numbered id entry h := absurd h (kndSharedSetGet_empty id entry)
  same entry _ := by
    constructor
    · intro h
      cases h
    · intro h
      exact absurd h (kndSharedSetGet_empty _ _)
  noOverwrite := rfl

namespace Paired

variable {nameIdx : SharedDict IdxEntry} {idx idx' : SharedSet IdxEntry} {entry : IdxEntry}

/-- A name that is found is taken. -/
theorem taken (h : Paired nameIdx idx) {name : Name} (hget : kndSharedDictGet nameIdx name = some entry) :
    nameIdx.Taken name := by
  obtain ⟨item, hitem, hvalid, -⟩ := h.plain.get hget
  exact ⟨item, hitem, hvalid⟩

/-- **An entry is added** under a free name to the one index and under a free id to the other. -/
theorem push (h : Paired nameIdx idx) (hfree : ¬nameIdx.Taken entry.name)
    (hadd : kndSharedSetAdd idx entry.id entry = (.ok (), idx')) (states : List CommitAddr) :
    Paired (nameIdx.push ⟨.valid, entry.name, entry, states⟩) idx' := by
  obtain ⟨hnew, -, hover⟩ := kndSharedSetAdd_new hadd h.noOverwrite
  refine ⟨h.plain.push entry states, fun id e hget => ?_, fun e he => ?_, hover⟩
  · rw [kndSharedSetAdd_ok hadd] at hget
    split_ifs at hget with hid
    · rw [← hget, hid]
    · exact h.numbered id e hget
  · have hname : kndSharedDictGet (nameIdx.push ⟨.valid, entry.name, entry, states⟩) e.name
        = if e.name = entry.name then some entry else kndSharedDictGet nameIdx e.name :=
      kndSharedDictGet_push _ _ _
    rw [hname, kndSharedSetAdd_ok hadd]
    by_cases heq : entry = e
    · rw [heq, if_pos rfl, if_pos rfl]
      exact iff_of_true rfl rfl
    · -- another entry: it has neither the new name nor the new id
      have hother : kndSharedDictGet nameIdx e.name = some e → e.name ≠ entry.name := fun hget hsame =>
        hfree (hsame ▸ h.taken hget)
      have hid : kndSharedSetGet idx e.id = .ok e → e.id ≠ entry.id := fun hget hsame => hnew e (hsame ▸ hget)
      constructor
      · intro hget
        split_ifs at hget with hsame
        · exact absurd (Option.some.inj hget) heq
        · have hold := (h.same e he).mp hget
          rwa [if_neg (hid hold)]
      · intro hget
        split_ifs at hget with hsame
        · exact absurd hget heq
        · have hold := (h.same e he).mpr hget
          rwa [if_neg (hother hold)]

/-- **An unnamed entry is added** to the id index. -/
theorem add (h : Paired nameIdx idx) (hunnamed : entry.name = [])
    (hadd : kndSharedSetAdd idx entry.id entry = (.ok (), idx')) : Paired nameIdx idx' := by
  obtain ⟨hnew, -, hover⟩ := kndSharedSetAdd_new hadd h.noOverwrite
  refine ⟨h.plain, fun id e hget => ?_, fun e he => ?_, hover⟩
  · rw [kndSharedSetAdd_ok hadd] at hget
    split_ifs at hget with hid
    · rw [← hget, hid]
    · exact h.numbered id e hget
  · rw [kndSharedSetAdd_ok hadd, h.same e he]
    by_cases hid : e.id = entry.id
    · rw [if_pos hid]
      refine iff_of_false (fun hget => hnew e (hid ▸ hget)) ?_
      rintro rfl
      exact he hunnamed
    · rw [if_neg hid]

end Paired

/-! ## (5) A class -/

/-- **Both indices are there**: they agree and count `n` instances. -/
structure Filled (n : Nat) (s : ClassInsts β) : Prop where
  /-- The name index. -/
  hasNames : s.instNameIdx.isSome
  /-- The id index. -/
  hasIds : s.instIdx.isSome
  /-- They agree. -/
  paired : Paired s.nameDict s.idSet
  /-- `num_elems`. -/
  count : s.idSet.numElems = n

/-- **The invariant of a class** with `n` instances: it has no index and only the instances of the snapshot, or both
indices with all of its instances. -/
def ClassInv (c : SnapshotClass β) (n : Nat) (s : ClassInsts β) : Prop :=
  (s.instNameIdx = none ∧ s.instIdx = none ∧ n = (snapshotIds c).length) ∨ Filled n s

section Class

variable {c : SnapshotClass β} {n : Nat} {s s' : ClassInsts β}

theorem instByName_eq (s : ClassInsts β) (name : Name) : instByName s name = kndSharedDictGet s.nameDict name := by
  rw [instByName, ClassInsts.nameDict]
  cases s.instNameIdx with
  | none => rfl
  | some nameIdx => rfl

theorem instById_eq_some {id : List UInt8} {entry : IdxEntry} :
    instById s id = some entry ↔ kndSharedSetGet s.idSet id = .ok entry := by
  rw [instById, ClassInsts.idSet]
  cases s.instIdx with
  | none => exact iff_of_false (by simp) (kndSharedSetGet_empty id entry)
  | some idx =>
      rw [Option.bind_some, Option.getD_some]
      cases kndSharedSetGet idx id with
      | ok e => simp [Except.toOption]
      | error e => simp [Except.toOption]

theorem ClassInv.paired (h : ClassInv c n s) : Paired s.nameDict s.idSet := by
  rcases h with ⟨hnames, hids, -⟩ | h
  · rw [ClassInsts.nameDict, ClassInsts.idSet, hnames, hids]
    exact paired_new
  · exact h.paired

/-- **The two indices agree** in a class with the invariant. -/
theorem ClassInv.agree (h : ClassInv c n s) : IdxsAgree n s where
  same entry hnamed := by
    simp only [instByName_eq, instById_eq_some]
    constructor
    · rintro ⟨name, hget⟩
      obtain ⟨-, -, -, -, rfl⟩ := h.paired.plain.get hget
      exact ⟨entry.id, (h.paired.same entry hnamed).mp hget⟩
    · rintro ⟨id, hget⟩
      obtain rfl := h.paired.numbered id entry hget
      exact ⟨entry.name, (h.paired.same entry hnamed).mpr hget⟩
  named name entry hget := by
    rw [instByName_eq] at hget
    obtain ⟨-, -, -, -, hname⟩ := h.paired.plain.get hget
    exact hname
  numbered id entry hget := h.paired.numbered id entry (instById_eq_some.mp hget)
  count idx hidx := by
    rcases h with ⟨-, hids, -⟩ | h
    · rw [hids] at hidx
      cases hidx
    · rw [← h.count, ClassInsts.idSet, hidx, Option.getD_some]

/-! ## (6) A commit -/

theorem registerInstName_ok {commit : CommitAddr} {ref : InstRef β}
    (h : (InstLookups.registerInstName commit ref).run s = .ok () s') :
    ¬s.nameDict.Taken ref.entry.name ∧
      s'.instNameIdx = some (s.nameDict.push ⟨.valid, ref.entry.name, ref.entry, [commit]⟩) ∧
      s'.instIdx = s.instIdx := by
  unfold InstLookups.registerInstName at h
  simp only [EStateM.run] at h
  cases hset : kndSharedDictSet s.nameDict s.mempool ref.entry.name ref.entry (some commit) false with
  | mk rc mempool =>
      rw [hset] at h
      cases rc with
      | error e => cases h
      | ok r =>
          obtain ⟨item, nameIdx⟩ := r
          obtain ⟨hfree, rfl, rfl⟩ := kndSharedDictSet_ok hset
          cases h
          exact ⟨hfree, congrArg some (setItemPhase_push _ _), rfl⟩

theorem registerInstId_ok {ref : InstRef β} (h : (InstLookups.registerInstId ref).run s = .ok () s') :
    ∃ idx, kndSharedSetAdd s.idSet ref.entry.id ref.entry = (.ok (), idx) ∧ s'.instIdx = some idx ∧
      s'.instNameIdx = s.instNameIdx := by
  unfold InstLookups.registerInstId at h
  simp only [EStateM.run] at h
  cases hadd : kndSharedSetAdd s.idSet ref.entry.id ref.entry with
  | mk rc idx =>
      rw [hadd] at h
      cases rc with
      | error e => cases h
      | ok u =>
          cases h
          exact ⟨idx, rfl, rfl, rfl⟩

/-- The two registrations of an instance, the first only if it has a name. -/
theorem Filled.register (h : Filled n s) {commit : CommitAddr} {ref : InstRef β} {s₁ : ClassInsts β}
    (hname : (if ref.entry.name ≠ [] then InstLookups.registerInstName commit ref else pure ()).run s = .ok () s₁)
    (hid : (InstLookups.registerInstId ref).run s₁ = .ok () s') : Filled (n + 1) s' := by
  obtain ⟨idx, hadd, hidx, hkept⟩ := registerInstId_ok hid
  have hset : s'.idSet = idx := by rw [ClassInsts.idSet, hidx, Option.getD_some]
  by_cases hnamed : ref.entry.name ≠ []
  · rw [if_pos hnamed] at hname
    obtain ⟨hfree, hnames, hids⟩ := registerInstName_ok hname
    have hold : s₁.idSet = s.idSet := by rw [ClassInsts.idSet, hids, ClassInsts.idSet]
    rw [hold] at hadd
    have hdict : s'.nameDict = s.nameDict.push ⟨.valid, ref.entry.name, ref.entry, [commit]⟩ := by
      rw [ClassInsts.nameDict, hkept, hnames, Option.getD_some]
    refine ⟨by rw [hkept, hnames]; rfl, by rw [hidx]; rfl, ?_, ?_⟩
    · rw [hdict, hset]
      exact h.paired.push hfree hadd [commit]
    · rw [hset, (kndSharedSetAdd_new hadd h.paired.noOverwrite).2.1, h.count]
  · rw [if_neg hnamed] at hname
    cases hname
    have hdict : s'.nameDict = s.nameDict := by rw [ClassInsts.nameDict, hkept, ClassInsts.nameDict]
    refine ⟨by rw [hkept]; exact h.hasNames, by rw [hidx]; rfl, ?_, ?_⟩
    · rw [hdict, hset]
      exact h.paired.add (not_not.mp hnamed) hadd
    · rw [hset, (kndSharedSetAdd_new hadd h.paired.noOverwrite).2.1, h.count]

/-- **An instance of a commit** is added to both indices. -/
theorem Filled.registerInst (h : Filled n s) {commit : CommitAddr} {ref : InstRef β}
    (hrun : (InstLookups.registerInst commit ref).run s = .ok () s') :
    Filled (n + [ref].countP (·.created)) s' := by
  rw [InstLookups.registerInst] at hrun
  by_cases hcreated : ref.created = true
  · rw [if_pos hcreated] at hrun
    obtain ⟨u, s₁, hname, hrun⟩ := run_bind_eq_ok.mp hrun
    obtain ⟨u', s₂, hid, hrun⟩ := run_bind_eq_ok.mp hrun
    -- the attribute indices are elsewhere
    obtain rfl : s₂ = s' := by
      cases hindexed : ref.indexed with
      | error e =>
          rw [hindexed] at hrun
          cases hrun
      | ok v =>
          rw [hindexed] at hrun
          cases hrun
          rfl
    rw [List.countP_singleton, if_pos hcreated]
    exact h.register hname hid
  · rw [if_neg hcreated] at hrun
    cases hrun
    rw [List.countP_singleton, if_neg hcreated]
    exact h

/-- **A commit into a class** adds its instances to those that the indices have. -/
theorem ClassInv.updateIndices (h : ClassInv c n s) {commit : CommitAddr} {hasEntry : Bool} {refs : List (InstRef β)}
    (hrun : (InstLookups.kndClassInstUpdateIndices commit hasEntry refs).run s = .ok () s') :
    Filled (s.idSet.numElems + refs.countP (·.created)) s' := by
  obtain ⟨u, s₁, hentry, hrun⟩ := run_bind_eq_ok.mp hrun
  obtain ⟨u', s₂, hidxs, hrun⟩ := run_bind_eq_ok.mp hrun
  obtain rfl : s = s₁ := by
    split_ifs at hentry
    · cases hentry
    · cases hentry
      rfl
  cases hidxs
  have hstart : Filled s.idSet.numElems (s.setIdxs s.nameDict s.idSet) := ⟨rfl, rfl, h.paired, rfl⟩
  refine forM_ok_induction (fun done s' => Filled (s.idSet.numElems + done.countP (·.created)) s') hrun hstart ?_
  rintro done ref s₁ s₂ - hdone hround
  rw [List.countP_append, ← Nat.add_assoc]
  exact hdone.registerInst hround

/-- **What the indices have are all the instances**, if and only if the class has its indices or the snapshot has no
instances of it. -/
theorem ClassInv.numElems_iff (h : ClassInv c n s) :
    s.idSet.numElems = n ↔ snapshotIds c = [] ∨ s.instNameIdx.isSome := by
  rcases h with ⟨hnames, hids, hn⟩ | h
  · rw [ClassInsts.idSet, hids, hn, hnames, ← List.length_eq_zero_iff]
    constructor
    · intro hzero
      exact .inl hzero.symm
    · rintro (hzero | habs)
      · exact hzero.symm
      · cases habs
  · exact iff_of_true h.count (.inr h.hasNames)

/-! ## (7) A load -/

/-- The callback of a load adds an entry to both indices. -/
theorem paired_entryUnmarshall (strIdx : SharedSet CharSeq) (id mem : List UInt8) (k : Nat) (load : EntryLoad)
    (h : Paired load.nameIdx load.idx) :
    Ensures (fun load => Paired load.nameIdx load.idx) (kndClassInstEntryUnmarshall strIdx id mem k load) := by
  intro load' hcall
  obtain ⟨entry, rfl, -, hfree, hname, hadd⟩ := entryUnmarshall_registers hcall
  rw [hname]
  exact h.push hfree hadd []

theorem faultless_instEntryName (strIdx : SharedSet CharSeq) (name : Name) : Faultless (instEntryName strIdx name) := by
  rw [instEntryName]
  refine (faultless_ensure _ _).bind fun _ => ?_
  split_ifs
  · cases kndSharedSetGet strIdx name with
    | ok seq => exact faultless_ok _
    | error e => exact faultless_ok _
  · exact faultless_ok _

theorem faultless_registerEntry (entry : IdxEntry) (load : EntryLoad) : Faultless (registerEntry entry load) := by
  rw [registerEntry]
  split
  · exact faultless_err _
  · split
    · exact faultless_err _
    · exact faultless_ok _

/-- The callback of a load may refuse a record, which `noteRecord` does not. -/
theorem cutCalls_noteRecord (strIdx : SharedSet CharSeq) :
    CutCalls (kndClassInstEntryUnmarshall strIdx) noteRecord := by
  refine cutCalls_of_faultless (fun id mem k load => ?_) fun id mem k ids => ⟨_, rfl⟩
  rw [kndClassInstEntryUnmarshall, entryUnmarshall, scanName_append_nul]
  exact (faultless_ensure _ _).bind fun _ => (faultless_ok _).bind fun name =>
    (faultless_instEntryName strIdx name).bind fun p => faultless_registerEntry _ _

theorem counts_noteRecord : Counts (fun k ids => ids.length = k) noteRecord := by
  intro id mem n k ids hk ids' hcall
  cases hcall
  rw [List.length_append, hk, List.length_singleton]

/-- A load that returns counts the records that `noteRecord` notes. -/
theorem numElems_of_load {σ : Type} {cb : ElemUnmarshallCb σ} (hcut : CutCalls cb noteRecord)
    {self set : SharedSet IdxEntry} {file : List UInt8} {size : Nat} {t t' : σ}
    (h : kndSharedSetUnmarshallFile self file size cb t = .ok (set, t')) :
    ∃ set' ids, kndSharedSetUnmarshallFile ({} : SharedSet Unit) file size noteRecord [] = .ok (set', ids) ∧
      set.numElems = ids.length := by
  rw [kndSharedSetUnmarshallFile] at h
  obtain ⟨u, h3, h⟩ := Checked.bind_eq_ok.mp h
  obtain ⟨⟨dir, t₁⟩, hblock, h⟩ := Checked.bind_eq_ok.mp h
  cases h
  have hdirs := cut_unmarshallBlock hcut file idSize { totalSize := size, globalOffset := 3 } (size - 3) [] t []
  rw [hblock] at hdirs
  obtain ⟨⟨dir', ids⟩, hnote, hdir⟩ := hdirs
  obtain rfl : dir = dir' := hdir
  have hrecords : kndSharedSetUnmarshallFile ({} : SharedSet Unit) file size noteRecord []
      = .ok ({ dir, numElems := dir.totalElems }, ids) := by
    rw [kndSharedSetUnmarshallFile, h3, ok_bind, hnote]
    rfl
  have hlength := counts_unmarshallFile counts_noteRecord ({} : SharedSet Unit) file size rfl _ hrecords
  exact ⟨_, ids, hrecords, hlength.symm⟩

/-- **A load that returns** leaves two indices that agree, and counts the records of the file. -/
theorem load_ok {nameIdx : SharedDict IdxEntry} {idx : SharedSet IdxEntry}
    (h : c.load (kndSharedDictNew IdxEntry mediumDictSize) {} = .ok (nameIdx, idx)) :
    Paired nameIdx idx ∧ idx.numElems = (snapshotIds c).length := by
  unfold SnapshotClass.load at h
  split at h
  · cases h
  rename_i file hfile
  obtain ⟨⟨set, load⟩, hload, h⟩ := Checked.bind_eq_ok.mp h
  cases h
  constructor
  · have hpaired := ensures_unmarshallFile (P := fun load : EntryLoad => Paired load.nameIdx load.idx)
      (paired_entryUnmarshall c.strIdx) {} file file.length paired_new (set, load) hload
    exact ⟨hpaired.plain, hpaired.numbered, hpaired.same, hpaired.noOverwrite⟩
  · obtain ⟨set', ids, hrecords, hcount⟩ := numElems_of_load (cutCalls_noteRecord c.strIdx) hload
    rw [snapshotIds, hfile]
    simp only [hrecords]
    exact hcount

/-- **A load** leaves a class with both indices. -/
theorem ClassInv.nameIdxOf (h : ClassInv c n s) {left : SharedDict IdxEntry × SharedSet IdxEntry}
    {nameIdx : SharedDict IdxEntry} (hrun : (InstLookups.nameIdxOf c left).run s = .ok nameIdx s') : Filled n s' := by
  rcases h with ⟨hnames, hids, hn⟩ | h
  · obtain ⟨-, idx, hload, rfl⟩ := nameIdxOf_ok hrun hnames
    rw [ClassInsts.nameDict, hnames, ClassInsts.idSet, hids] at hload
    obtain ⟨hpaired, hcount⟩ := load_ok hload
    exact ⟨rfl, rfl, hpaired, hcount.trans hn.symm⟩
  · obtain ⟨nameIdx₀, hsome⟩ := Option.isSome_iff_exists.mp h.hasNames
    unfold InstLookups.nameIdxOf at hrun
    simp only [EStateM.run, hsome] at hrun
    cases hrun
    exact h

end Class

/-! ## (8) Class selections -/

section Selections

variable {pre : List (Selection β)} {repo repo' : InstRepo β}

/-- The last selection takes along what it imports, when nothing was imported before. -/
theorem classStates_concat (hpre : ∀ sel ∈ pre, sel.imports = []) (last : Selection β) (refs : List (ClassState β)) :
    classStates (pre ++ [last]) [] refs
      = ⟨last.entry, last.hasEntry, last.imports.reverse⟩ :: classStates pre [] refs := by
  induction pre generalizing refs with
  | nil => simp [classStates]
  | cons sel pre ih =>
      have hsel : sel.imports = [] := hpre sel List.mem_cons_self
      simp only [List.cons_append, classStates, hsel, List.reverse_nil, List.nil_append]
      exact ih (fun s hs => hpre s (List.mem_cons_of_mem _ hs)) _

/-- Selections that import nothing take nothing along. -/
theorem children_classStates (hpre : ∀ sel ∈ pre, sel.imports = []) {refs : List (ClassState β)}
    (hrefs : ∀ ref ∈ refs, ref.children = []) : ∀ ref ∈ classStates pre [] refs, ref.children = [] := by
  induction pre generalizing refs with
  | nil => exact hrefs
  | cons sel pre ih =>
      have hsel : sel.imports = [] := hpre sel List.mem_cons_self
      simp only [classStates, hsel, List.reverse_nil, List.nil_append]
      refine ih (fun s hs => hpre s (List.mem_cons_of_mem _ hs)) fun ref hmem => ?_
      rcases List.mem_cons.mp hmem with rfl | hmem
      · rfl
      · exact hrefs ref hmem

/-- Such class states change nothing. -/
theorem updateIndices_of_children {refs : List (ClassState β)} (h : ∀ ref ∈ refs, ref.children = [])
    (c : CommitAddr) (repo : InstRepo β) : (updateIndices c refs).run repo = .ok () repo := by
  induction refs with
  | nil => rfl
  | cons ref refs ih =>
      have hfirst : (if ref.children = [] then pure ()
          else onClass ref.entry (InstLookups.kndClassInstUpdateIndices c ref.hasEntry ref.children) :
          RepoM β Unit).run repo = .ok () repo := by
        rw [if_pos (h ref List.mem_cons_self)]
        rfl
      exact (run_bind_of_ok hfirst).trans (ih fun r hr => h r (List.mem_cons_of_mem _ hr))

/-- **What a commit does** whose last selection alone imports. -/
theorem updateIndices_concat (hpre : ∀ sel ∈ pre, sel.imports = []) {last : Selection β} {c : CommitAddr}
    (hrun : (updateIndices c (classStates (pre ++ [last]) [] [])).run repo = .ok () repo') :
    (if last.imports = [] then pure ()
      else onClass last.entry (InstLookups.kndClassInstUpdateIndices c last.hasEntry last.imports.reverse)).run repo
      = .ok () repo' := by
  rw [classStates_concat hpre] at hrun
  obtain ⟨u, repo₁, hfirst, hrest⟩ := run_bind_eq_ok.mp hrun
  have hnone : ∀ ref ∈ classStates pre [] ([] : List (ClassState β)), ref.children = [] :=
    children_classStates hpre fun _ h => nomatch h
  obtain rfl : repo₁ = repo' := by
    have hsame := updateIndices_of_children hnone c repo₁
    exact (EStateM.Result.ok.inj (hsame.symm.trans hrest)).2
  simp only [List.reverse_eq_nil_iff] at hfirst
  exact hfirst

/-- A program over one class leaves the others alone. -/
theorem onClass_ok {α : Type} {a : ClassAddr} {x : InstM β α} {r : α} (h : (onClass a x).run repo = .ok r repo') :
    ∃ s', x.run { repo.classes a with mempool := repo.mempool } = .ok r s' ∧
      repo' = { repo with classes := Function.update repo.classes a s', mempool := s'.mempool } :=
  run_zoom_eq_ok.mp h

theorem length_insts_self (sel : Selection β) :
    (sel.insts.filter fun p => p.1 = sel.entry).length = sel.imports.countP (·.created) := by
  rw [List.filter_eq_self.mpr, Selection.insts, List.length_map, List.countP_eq_length_filter]
  intro p hp
  obtain ⟨ref, -, rfl⟩ := List.mem_map.mp hp
  exact decide_eq_true rfl

theorem filter_insts_of_ne {sel : Selection β} {a : ClassAddr} (h : sel.entry ≠ a) :
    (sel.insts.filter fun p => p.1 = a) = [] := by
  rw [List.filter_eq_nil_iff]
  intro p hp
  obtain ⟨ref, -, rfl⟩ := List.mem_map.mp hp
  simpa using h

end Selections

/-! ## (9) Runs -/

/-- **The invariant of a repository.** -/
def Inv (repo : InstRepo β) : Prop := ∀ a, ClassInv (repo.snapshots a) (repo.numInsts a) (repo.classes a)

theorem inv_opened (snapshots : ClassAddr → SnapshotClass β) (mempool : MemPool) :
    Inv (InstRepo.opened snapshots mempool) := fun _ => .inl ⟨rfl, rfl, rfl⟩

section Runs

variable {repo : InstRepo β}

/-- The pool is no part of the invariant. -/
theorem ClassInv.withMempool {c : SnapshotClass β} {n : Nat} {s : ClassInsts β} (h : ClassInv c n s)
    (mempool : MemPool) : ClassInv c n { s with mempool } :=
  h.imp id fun h => ⟨h.hasNames, h.hasIds, h.paired, h.count⟩

theorem numInsts_added (repo : InstRepo β) (insts : List (ClassAddr × IdxEntry)) (b : ClassAddr) :
    ({ repo with added := insts ++ repo.added } : InstRepo β).numInsts b
      = repo.numInsts b + (insts.filter fun p => p.1 = b).length := by
  simp only [InstRepo.numInsts, List.filter_append, List.length_append]
  omega

/-- **One class is changed**, and it counts the instances that are added. -/
theorem Inv.update (h : Inv repo) {a : ClassAddr} {s' : ClassInsts β} {mempool : MemPool}
    {insts : List (ClassAddr × IdxEntry)}
    (hfilled : Filled (repo.numInsts a + (insts.filter fun p => p.1 = a).length) s')
    (hother : ∀ b, b ≠ a → (insts.filter fun p => p.1 = b) = []) :
    Inv { repo with classes := Function.update repo.classes a s', mempool, added := insts ++ repo.added } := by
  intro b
  show ClassInv (repo.snapshots b) (({ repo with added := insts ++ repo.added } : InstRepo β).numInsts b)
    (Function.update repo.classes a s' b)
  rw [numInsts_added]
  by_cases hb : b = a
  · subst hb
    rw [Function.update_self]
    exact .inr hfilled
  · rw [Function.update_of_ne hb, hother b hb]
    exact h b

/-- **A commit whose last selection alone imports** changes no class, or the class of that selection. -/
theorem Inv.commit_cases (h : Inv repo) {c : CommitAddr} {pre : List (Selection β)} {last : Selection β}
    (hpre : ∀ sel ∈ pre, sel.imports = []) {repo₁ : InstRepo β}
    (hrun : (updateIndices c (classStates (pre ++ [last]) [] [])).run repo = .ok () repo₁) :
    last.imports = [] ∧ repo₁ = repo ∨ last.imports ≠ [] ∧ ∃ s' mempool,
      Filled ((repo.classes last.entry).idSet.numElems + (last.insts.filter fun p => p.1 = last.entry).length) s' ∧
      repo₁ = { repo with classes := Function.update repo.classes last.entry s', mempool } := by
  have hlast := updateIndices_concat hpre hrun
  by_cases himports : last.imports = []
  · rw [if_pos himports] at hlast
    cases hlast
    exact .inl ⟨himports, rfl⟩
  · rw [if_neg himports] at hlast
    obtain ⟨s', hclass, rfl⟩ := onClass_ok hlast
    have hfilled := ((h last.entry).withMempool repo.mempool).updateIndices hclass
    rw [List.countP_reverse, ← length_insts_self] at hfilled
    exact .inr ⟨himports, s', s'.mempool, hfilled, rfl⟩

theorem flatMap_insts {pre : List (Selection β)} (hpre : ∀ sel ∈ pre, sel.imports = []) (last : Selection β) :
    (pre ++ [last]).flatMap Selection.insts = last.insts := by
  have hnil : pre.flatMap Selection.insts = [] := by
    rw [List.flatMap_eq_nil_iff]
    intro sel hsel
    rw [Selection.insts, hpre sel hsel]
    rfl
  rw [List.flatMap_append, hnil, List.flatMap_singleton, List.nil_append]

/-- **A commit** keeps the invariant. -/
theorem Inv.commit (h : Inv repo) {c : CommitAddr} {sels : List (Selection β)}
    (hok : ImportsLoaded repo (.commit c sels)) {repo₁ : InstRepo β}
    (hrun : (updateIndices c (classStates sels [] [])).run repo = .ok () repo₁) :
    Inv { repo₁ with added := sels.flatMap Selection.insts ++ repo₁.added } := by
  obtain ⟨honly, hloaded⟩ := hok
  rcases List.eq_nil_or_concat' sels with rfl | ⟨pre, last, rfl⟩
  · cases hrun
    exact h
  rw [List.dropLast_concat] at honly
  rw [flatMap_insts honly]
  rcases h.commit_cases honly hrun with ⟨himports, rfl⟩ | ⟨himports, s', mempool, hfilled, rfl⟩
  · rw [Selection.insts, himports]
    exact h
  · rw [(h last.entry).numElems_iff.mpr (hloaded last (by simp) himports)] at hfilled
    exact h.update hfilled fun b hb => filter_insts_of_ne (Ne.symm hb)

/-- **The condition is exact for commits** whose last selection alone imports. -/
theorem Inv.agree_commit_iff (h : Inv repo) {c : CommitAddr} {sels : List (Selection β)}
    (honly : ∀ sel ∈ sels.dropLast, sel.imports = []) {repo₁ : InstRepo β}
    (hrun : (RepoEvent.commit c sels).run.run repo = .ok () repo₁) :
    (∀ a, IdxsAgree (repo₁.numInsts a) (repo₁.classes a)) ↔ ImportsLoaded repo (.commit c sels) := by
  obtain ⟨u, repo₂, hupdate, hadd⟩ := run_bind_eq_ok.mp hrun
  cases hadd
  refine ⟨fun hagree => ⟨honly, fun sel hsel himports => ?_⟩, fun hok a => (h.commit hok hupdate a).agree⟩
  rcases List.eq_nil_or_concat' sels with rfl | ⟨pre, last, rfl⟩
  · cases hsel
  rw [List.dropLast_concat] at honly
  obtain rfl : sel = last := by
    rcases List.mem_append.mp hsel with hpre | hlast
    · exact absurd (honly sel hpre) himports
    · exact List.mem_singleton.mp hlast
  rcases h.commit_cases honly hupdate with ⟨hnone, -⟩ | ⟨-, s', mempool, hfilled, rfl⟩
  · exact absurd hnone himports
  · obtain ⟨idx, hidx⟩ := Option.isSome_iff_exists.mp hfilled.hasIds
    have hclass : (Function.update repo.classes sel.entry s' sel.entry).instIdx = some idx := by
      rw [Function.update_self, hidx]
    have hcount := (hagree sel.entry).count idx hclass
    have hnum := numInsts_added repo sel.insts sel.entry
    have hfill := hfilled.count
    rw [ClassInsts.idSet, hidx, Option.getD_some] at hfill
    rw [flatMap_insts honly] at hcount
    refine (h sel.entry).numElems_iff.mp ?_
    exact Nat.add_right_cancel (hfill.symm.trans (hcount.trans hnum))

/-- **Every step under the condition** keeps the invariant. -/
theorem Inv.step (h : Inv repo) {e : RepoEvent β} (hcompletes : Completes repo e) (hok : ImportsLoaded repo e) :
    Inv (step repo e) := by
  obtain ⟨u, hrun⟩ := returns_iff.mp hcompletes
  rw [InstIdxs.step]
  generalize finalState e.run repo = repo' at hrun
  cases e with
  | opening snapshots mempool =>
      cases hrun
      exact inv_opened snapshots mempool
  | bulkLoad a ref => exact hok.elim
  | commit c sels =>
      obtain ⟨v, repo₁, hupdate, hadd⟩ := run_bind_eq_ok.mp hrun
      cases hadd
      exact h.commit hok hupdate
  | load a left =>
      obtain ⟨repo₀, repo₁, hget, hrun⟩ := run_bind_eq_ok.mp hrun
      cases hget
      obtain ⟨nameIdx, repo₂, hload, hdone⟩ := run_bind_eq_ok.mp hrun
      cases hdone
      obtain ⟨s', hclass, rfl⟩ := onClass_ok hload
      have hfilled : Filled
          (repo.numInsts a + (([] : List (ClassAddr × IdxEntry)).filter fun p => p.1 = a).length) s' :=
        ((h a).withMempool repo.mempool).nameIdxOf hclass
      exact h.update hfilled fun b _ => rfl

end Runs

/-- A lookup of the instance `ann` of the snapshot, then a commit of `bob`. -/
def annRun : List (RepoEvent Unit) :=
  [.load 0 InstLookups.nothing, .commit 1 [⟨0, true, [InstLookups.bobRef]⟩]]

/-- The repository that was opened with `ann`. -/
def annRepo : InstRepo Unit := .opened (fun _ => InstLookups.annClass) ⟨9⟩

/-- A repository without a snapshot. -/
def newRepo : InstRepo Unit :=
  .opened (fun _ => { InstLookups.annClass with numSnapshotInsts := 0, file := none }) ⟨9⟩

end InstIdxs

end Knowdy
