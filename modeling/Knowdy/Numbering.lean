import Knowdy.Lib.Runs
import Knowdy.StringIdx

/-! # Numbers of classes and instances across snapshots

A class gets the next number of its repository when it is resolved, and an instance the next number of its class
when it is imported. A snapshot keeps the ids of both, and no counter.

* `InstEntry`, `ClassCell`, `NumRepo` — instances, classes and the repository with its last snapshot.
* `NumEvent`, `step` — imports, resolutions, registrations, loads, snapshots and reloads.
* `Unique` — no two classes and no two instances of a class have one id, and the id indices agree with it.
* `unique_of_known` — so it is in every run in which each counter has counted the restored numbers.
* `not_unique_of_imports` — otherwise imports bring a restored number back. -/

namespace Knowdy

namespace Numbering

/-! ## (1) Classes and instances -/

/-- `struct kndClassInstEntry`. -/
structure InstEntry where
  /-- `name`. -/
  name : Name
  /-- `numid`. -/
  numid : Nat := 0
  /-- `id`. -/
  id : List UInt8 := []
  deriving DecidableEq

/-- `struct kndClassEntry` with its class. -/
structure ClassCell where
  /-- `name`. -/
  name : Name
  /-- `numid`. -/
  numid : Nat := 0
  /-- `id`, empty before the class is resolved. -/
  id : List UInt8 := []
  /-- `is_resolved`. -/
  isResolved : Bool := false
  /-- Was the entry made by `knd_class_entry_unmarshall`? -/
  restored : Bool := false
  /-- `inst_id_count`. -/
  instIdCount : Nat := 0
  /-- The instances that were imported since the repository was opened, newest first. -/
  imported : List InstEntry := []
  /-- The instances in the file of the class, loaded or not. -/
  stored : List InstEntry := []
  /-- Is there an `inst_name_idx`? -/
  hasNameIdx : Bool := false
  /-- `inst_idx`. -/
  instIdx : Option (SharedSet InstEntry) := none

/-- **The instances of the class.** -/
def ClassCell.insts (self : ClassCell) : List InstEntry := self.imported ++ self.stored

/-- `knd_class_resolve` comes to its end: the class gets the number after `count`. -/
def ClassCell.resolve (self : ClassCell) (count : Nat) : ClassCell :=
  { self with numid := count + 1, id := kndUidCreate (count + 1), isResolved := true }

/-- `knd_import_class_inst`. A bulk load registers the name at once. -/
def ClassCell.importInst (self : ClassCell) (bulk : Bool) (name : Name) : ClassCell :=
  let numid := self.instIdCount + 1
  { self with
    instIdCount := numid
    imported := { name, numid, id := kndUidCreate numid } :: self.imported
    hasNameIdx := self.hasNameIdx || bulk }

/-- `knd_class_inst_update_indices` for one instance. `named` is whether its name was registered. -/
def ClassCell.registerInst (self : ClassCell) (entry : InstEntry) (named : Bool) : ClassCell :=
  let idx := self.instIdx.getD {}
  { self with
    hasNameIdx := true
    instIdx := some (if named then (kndSharedSetAdd idx entry.id entry).2 else idx) }

/-- The calls of `knd_class_inst_entry_unmarshall` in a load: each entry is registered under the id of its record, and
its `numid` is left 0. -/
def loadEntries (entries : List InstEntry) (idx : SharedSet InstEntry) : SharedSet InstEntry :=
  entries.foldl (fun idx entry => (kndSharedSetAdd idx entry.id entry).2) idx

/-- `knd_get_class_inst` on a class without a name index. The load stops behind `read` records; it is complete when
there are no more. -/
def ClassCell.loadInsts (self : ClassCell) (read : Nat) : ClassCell :=
  if self.hasNameIdx = false ∧ self.stored ≠ [] then
    { self with
      hasNameIdx := true
      instIdx := some (loadEntries (self.stored.take read) (self.instIdx.getD {})) }
  else self

/-- What a load makes of a record. -/
def readInst (record : List UInt8 × InstEntry) : InstEntry := { name := record.2.name, id := record.1 }

/-- The records of the file of the class after a snapshot: it is written when there is an `inst_idx`. -/
def ClassCell.records (self : ClassCell) : List InstEntry :=
  match self.instIdx with
  | some idx => (idx.idx.entries []).map readInst
  | none => self.stored

/-! ## (2) The repository -/

/-- A record of `classes.gsp`, and the file of the instances of the class. -/
structure StoredClass where
  /-- The id. -/
  id : List UInt8
  /-- The name. -/
  name : Name
  /-- The instances. -/
  insts : List InstEntry

/-- `struct kndRepo` with its last snapshot. A class is known by its place in `classes`. -/
structure NumRepo where
  /-- `class_id_count`. -/
  classIdCount : Nat := 0
  /-- The entries of `class_name_idx`. -/
  classes : List ClassCell := []
  /-- `class_idx`. -/
  classIdx : SharedSet Nat := {}
  /-- The files of the last snapshot. -/
  files : Option (List StoredClass) := none

namespace NumRepo

/-- One class changes. -/
def modify (self : NumRepo) (a : Nat) (f : ClassCell → ClassCell) : NumRepo :=
  { self with classes := self.classes.modify a f }

/-- `knd_class_resolve` for a class that is not resolved. -/
def resolveClass (self : NumRepo) (a : Nat) : NumRepo :=
  match self.classes[a]? with
  | none => self
  | some c =>
      if c.isResolved then self
      else { self.modify a fun c => c.resolve self.classIdCount with classIdCount := self.classIdCount + 1 }

/-- `index_classes` for one class. -/
def indexClass (self : NumRepo) (a : Nat) : NumRepo :=
  match self.classes[a]? with
  | none => self
  | some c => { self with classIdx := (kndSharedSetAdd self.classIdx c.id a).2 }

/-- A commit registers the imported instance at place `i` of a class. -/
def commitInst (self : NumRepo) (a i : Nat) (named : Bool) : NumRepo :=
  self.modify a fun c =>
    match c.imported[i]? with
    | none => c
    | some entry => c.registerInst entry named

/-- `knd_repo_snapshot`. -/
def snapshot (self : NumRepo) : NumRepo :=
  { self with
    files := some ((self.classIdx.idx.entries []).map fun record =>
      let c := self.classes.getD record.2 { name := [] }
      { id := record.1, name := c.name, insts := c.records }) }

/-- `knd_class_entry_unmarshall`; the class is read as a resolved one. -/
def readClass (record : StoredClass) : ClassCell where
  name := record.name
  id := record.id
  isResolved := true
  restored := true
  stored := record.insts

/-- `class_idx` after the load of the class entries from the place `a` on. -/
def loadClasses : List StoredClass → Nat → SharedSet Nat → SharedSet Nat
  | [], _, idx => idx
  | record :: records, a, idx => loadClasses records (a + 1) (kndSharedSetAdd idx record.id a).2

/-- `knd_repo_open`. Without a snapshot the source files are read, class by class. -/
def reload (self : NumRepo) : NumRepo :=
  match self.files with
  | none => {}
  | some records =>
      { classes := records.map readClass
        classIdx := loadClasses records 0 {}
        files := self.files }

end NumRepo

/-- What happens to a repository. The journals that `knd_repo_restore` replays are imports and commits again. -/
inductive NumEvent where
  /-- A class is imported. -/
  | importClass (name : Name)
  /-- A class is resolved: by a bulk load, or because an attribute refers to it. -/
  | resolveClass (a : Nat)
  /-- A class is registered by its id. -/
  | indexClass (a : Nat)
  /-- An instance is imported. -/
  | importInst (a : Nat) (bulk : Bool) (name : Name)
  /-- An instance is registered by its id. -/
  | commitInst (a i : Nat) (named : Bool)
  /-- A lookup in a class. -/
  | lookup (a read : Nat)
  /-- A snapshot is written. -/
  | snapshot
  /-- The repository is opened again. -/
  | reload

/-- One event. -/
def step (s : NumRepo) : NumEvent → NumRepo
  | .importClass name => { s with classes := s.classes ++ [{ name }] }
  | .resolveClass a => s.resolveClass a
  | .indexClass a => s.indexClass a
  | .importInst a bulk name => s.modify a fun c => c.importInst bulk name
  | .commitInst a i named => s.commitInst a i named
  | .lookup a read => s.modify a fun c => c.loadInsts read
  | .snapshot => s.snapshot
  | .reload => s.reload

/-! ## (3) The property -/

/-- **No two classes of the repository and no two instances of a class have one number**: the number that an id
spells. The indices have a class or an instance under its own id only, so no insertion under the id of one meets
another. -/
structure Unique (s : NumRepo) : Prop where
  /-- Classes with an id. -/
  classes : ∀ (a b : Nat) (c c' : ClassCell), s.classes[a]? = some c → s.classes[b]? = some c' → c.id ≠ [] → c.id = c'.id → a = b
  /-- Instances of a class. -/
  insts : ∀ (a : Nat) (c : ClassCell), s.classes[a]? = some c → (c.insts.map InstEntry.id).Nodup
  /-- What `class_idx` has. -/
  classIdx : ∀ (id : List UInt8) (a : Nat), kndSharedSetGet s.classIdx id = .ok a → ∃ c : ClassCell, s.classes[a]? = some c ∧ c.id = id
  /-- What `inst_idx` of a class has. -/
  instIdx : ∀ (a : Nat) (c : ClassCell), s.classes[a]? = some c → ∀ idx, c.instIdx = some idx →
    ∀ id entry, kndSharedSetGet idx id = .ok entry → entry ∈ c.insts ∧ entry.id = id

/-- **A counter has counted an id.** -/
def Counted (count : Nat) (id : List UInt8) : Prop := ∃ n ≤ count, id = kndUidCreate n

/-- **Each number is taken from a counter that has counted the restored numbers.** The loaders count nothing, so
this holds of a class without restored instances, and of a repository without restored classes. -/
def Known (s : NumRepo) : NumEvent → Prop
  | .importInst a _ _ => ∀ c : ClassCell, s.classes[a]? = some c → ∀ entry ∈ c.stored, Counted c.instIdCount entry.id
  | .resolveClass _ => ∀ c ∈ s.classes, c.restored = true → Counted s.classIdCount c.id
  | .importClass _ | .indexClass _ | .commitInst _ _ _ | .lookup _ _ | .snapshot | .reload => True

/-! ## (4) One class -/

/-- What holds of the instances of a class. -/
structure CellInv (c : ClassCell) : Prop where
  /-- The imported ones are counted. -/
  counted : ∀ entry ∈ c.imported, Counted c.instIdCount entry.id
  /-- No id comes twice. -/
  nodup : (c.insts.map InstEntry.id).Nodup
  /-- The id index has instances of the class under their ids. -/
  idx : ∀ idx, c.instIdx = some idx → ∀ id entry, kndSharedSetGet idx id = .ok entry →
    entry ∈ c.insts ∧ entry.id = id

theorem Counted.mono {count count' : Nat} {id : List UInt8} (h : Counted count id) (hle : count ≤ count') :
    Counted count' id := h.imp fun _ hn => ⟨hn.1.trans hle, hn.2⟩

theorem Counted.ne_next {count : Nat} {id : List UInt8} (h : Counted count id) : id ≠ kndUidCreate (count + 1) := by
  obtain ⟨n, hn, rfl⟩ := h
  intro heq
  have := kndUidCreate_inj.mp heq
  omega

/-- An insertion binds nothing but its element. -/
theorem get_of_add {α : Type} {set : SharedSet α} {key id : List UInt8} {elem a : α}
    (h : kndSharedSetGet (kndSharedSetAdd set key elem).2 id = .ok a) :
    kndSharedSetGet set id = .ok a ∨ (id = key ∧ a = elem) := by
  cases hadd : kndSharedSetAdd set key elem with
  | mk rc set' =>
      rw [hadd] at h
      cases rc with
      | error e => exact .inl ((kndSharedSetAdd_error hadd id a).mp h)
      | ok =>
          have hcases := (kndSharedSetAdd_ok hadd id a).mp h
          split_ifs at hcases with hid
          · exact .inr ⟨hid, hcases.symm⟩
          · exact .inl hcases

theorem get_nil {α : Type} (set : SharedSet α) (a : α) : kndSharedSetGet set [] ≠ .ok a := by
  intro h
  cases h

theorem get_new {α : Type} (id : List UInt8) (a : α) : kndSharedSetGet ({} : SharedSet α) id ≠ .ok a := by
  intro h
  obtain ⟨ds, -, hlookup⟩ := getElem_eq_ok.mp h
  cases ds with
  | nil => cases hlookup
  | cons i ds =>
      cases ds with
      | nil => cases hlookup
      | cons j ds =>
          rw [ElemIdx.lookup_cons (List.cons_ne_nil j ds)] at hlookup
          simp at hlookup

/-- What a load binds. -/
theorem get_of_loadEntries {entries : List InstEntry} {idx : SharedSet InstEntry} {id : List UInt8} {entry : InstEntry}
    (h : kndSharedSetGet (loadEntries entries idx) id = .ok entry) :
    kndSharedSetGet idx id = .ok entry ∨ (entry ∈ entries ∧ entry.id = id) := by
  induction entries generalizing idx with
  | nil => exact .inl h
  | cons e entries ih =>
      rcases ih h with h | ⟨hmem, hid⟩
      · refine (get_of_add h).imp_right ?_
        rintro ⟨rfl, rfl⟩
        exact ⟨List.mem_cons_self, rfl⟩
      · exact .inr ⟨List.mem_cons_of_mem _ hmem, hid⟩

namespace CellInv

variable {c : ClassCell}

/-- What the index has, a new one included. -/
theorem getD (h : CellInv c) {id : List UInt8} {entry : InstEntry}
    (hget : kndSharedSetGet (c.instIdx.getD {}) id = .ok entry) : entry ∈ c.insts ∧ entry.id = id := by
  cases hidx : c.instIdx with
  | none =>
      rw [hidx] at hget
      exact absurd hget (get_new id entry)
  | some idx =>
      rw [hidx] at hget
      exact h.idx idx hidx id entry hget

/-- **An import** gives a new number when the restored ones are counted. -/
theorem importInst (h : CellInv c) (hknown : ∀ entry ∈ c.stored, Counted c.instIdCount entry.id) (bulk : Bool)
    (name : Name) : CellInv (c.importInst bulk name) := by
  refine ⟨fun entry hmem => ?_, ?_, fun idx hidx id entry hget => ?_⟩
  · rcases List.mem_cons.mp hmem with rfl | hmem
    · exact ⟨_, le_rfl, rfl⟩
    · exact (h.counted entry hmem).mono (Nat.le_succ _)
  · refine List.nodup_cons.mpr ⟨fun hmem => ?_, h.nodup⟩
    obtain ⟨entry, hentry, hid⟩ := List.mem_map.mp hmem
    rcases List.mem_append.mp hentry with hentry | hentry
    · exact (h.counted entry hentry).ne_next hid
    · exact (hknown entry hentry).ne_next hid
  · exact (h.idx idx hidx id entry hget).imp_left (List.mem_cons_of_mem _)

theorem registerInst (h : CellInv c) {entry : InstEntry} (hmem : entry ∈ c.insts) (named : Bool) :
    CellInv (c.registerInst entry named) := by
  refine ⟨h.counted, h.nodup, fun idx hidx id entry' hget => ?_⟩
  cases hidx
  cases named with
  | false => exact h.getD hget
  | true =>
      rcases get_of_add hget with hget | ⟨rfl, rfl⟩
      · exact h.getD hget
      · exact ⟨hmem, rfl⟩

theorem loadInsts (h : CellInv c) (read : Nat) : CellInv (c.loadInsts read) := by
  unfold ClassCell.loadInsts
  split_ifs
  · refine ⟨h.counted, h.nodup, fun idx hidx id entry hget => ?_⟩
    cases hidx
    rcases get_of_loadEntries hget with hget | ⟨hmem, hid⟩
    · exact h.getD hget
    · exact ⟨List.mem_append_right _ (List.mem_of_mem_take hmem), hid⟩
  · exact h

theorem resolve (h : CellInv c) (count : Nat) : CellInv (c.resolve count) := ⟨h.counted, h.nodup, h.idx⟩

/-- The records that a snapshot writes have different ids. -/
theorem nodup_records (h : CellInv c) : (c.records.map InstEntry.id).Nodup := by
  unfold ClassCell.records
  cases hidx : c.instIdx with
  | none =>
      have hnodup := h.nodup
      rw [ClassCell.insts, List.map_append] at hnodup
      exact (List.nodup_append.mp hnodup).2.1
  | some idx =>
      rw [List.map_map]
      exact idx.idx.nodup_entries []

end CellInv

/-! ## (5) The repository -/

/-- What holds of the repository. -/
structure NumRepo.Inv (s : NumRepo) : Prop where
  /-- The instances of each class. -/
  cells : ∀ c ∈ s.classes, CellInv c
  /-- The numbers of this session are counted. -/
  counted : ∀ c ∈ s.classes, c.restored = false → c.id ≠ [] → Counted s.classIdCount c.id
  /-- A class gets its id when it is resolved. -/
  unresolved : ∀ c ∈ s.classes, c.isResolved = false → c.id = [] ∧ c.restored = false
  /-- No id comes twice. -/
  classes : ∀ (a b : Nat) (c c' : ClassCell), s.classes[a]? = some c → s.classes[b]? = some c' → c.id ≠ [] →
    c.id = c'.id → a = b
  /-- The id index has classes under their ids. -/
  classIdx : ∀ (id : List UInt8) (a : Nat), kndSharedSetGet s.classIdx id = .ok a → ∃ c : ClassCell, s.classes[a]? = some c ∧ c.id = id
  /-- The snapshot has different ids. -/
  files : ∀ records, s.files = some records → (records.map StoredClass.id).Nodup ∧
    ∀ record ∈ records, (record.insts.map InstEntry.id).Nodup

namespace NumRepo

variable {s : NumRepo}

theorem getElem?_modify (s : NumRepo) (a b : Nat) (f : ClassCell → ClassCell) :
    (s.modify a f).classes[b]? = (s.classes[b]?).map fun c => if a = b then f c else c := by
  rw [modify, List.getElem?_modify]
  by_cases h : a = b <;> simp [h]

/-- **A class of a repository in which one class changed** is the changed one or an old one. -/
theorem mem_modify {a : Nat} {f : ClassCell → ClassCell} {c : ClassCell} (h : c ∈ (s.modify a f).classes) :
    c ∈ s.classes ∨ ∃ c₀, s.classes[a]? = some c₀ ∧ c = f c₀ := by
  obtain ⟨b, hb⟩ := List.mem_iff_getElem?.mp h
  rw [getElem?_modify] at hb
  obtain ⟨c₀, hc₀, heq⟩ := Option.map_eq_some_iff.mp hb
  split_ifs at heq with hab
  · subst hab
    exact .inr ⟨c₀, hc₀, heq.symm⟩
  · subst heq
    exact .inl (List.mem_of_getElem? hc₀)

/-- A change that concerns only the instances of a class. -/
theorem Inv.modify (h : s.Inv) {a : Nat} {f : ClassCell → ClassCell}
    (hcell : ∀ c, s.classes[a]? = some c → CellInv (f c)) (hid : ∀ c, (f c).id = c.id)
    (hresolved : ∀ c, (f c).isResolved = c.isResolved) (hrestored : ∀ c, (f c).restored = c.restored) :
    Inv (s.modify a f) := by
  have hold : ∀ (b : Nat) (c : ClassCell), (s.modify a f).classes[b]? = some c → ∃ c₀ : ClassCell, s.classes[b]? = some c₀ ∧ c.id = c₀.id ∧
      c.isResolved = c₀.isResolved ∧ c.restored = c₀.restored := by
    intro b c hb
    rw [getElem?_modify] at hb
    obtain ⟨c₀, hc₀, heq⟩ := Option.map_eq_some_iff.mp hb
    split_ifs at heq
    · subst heq
      exact ⟨c₀, hc₀, hid c₀, hresolved c₀, hrestored c₀⟩
    · subst heq
      exact ⟨c₀, hc₀, rfl, rfl, rfl⟩
  refine ⟨fun c hc => ?_, fun c hc hnew hne => ?_, fun c hc hun => ?_, fun b b' c c' hb hb' hne heq => ?_,
    fun id b hget => ?_, h.files⟩
  · rcases mem_modify hc with hc | ⟨c₀, hc₀, rfl⟩
    · exact h.cells c hc
    · exact hcell c₀ hc₀
  · obtain ⟨b, hb⟩ := List.mem_iff_getElem?.mp hc
    obtain ⟨c₀, hc₀, hid', -, hrest'⟩ := hold b c hb
    rw [hid']
    exact h.counted c₀ (List.mem_of_getElem? hc₀) (hrest' ▸ hnew) (hid' ▸ hne)
  · obtain ⟨b, hb⟩ := List.mem_iff_getElem?.mp hc
    obtain ⟨c₀, hc₀, hid', hres', hrest'⟩ := hold b c hb
    rw [hid', hrest']
    exact h.unresolved c₀ (List.mem_of_getElem? hc₀) (hres' ▸ hun)
  · obtain ⟨c₀, hc₀, hid', -, -⟩ := hold b c hb
    obtain ⟨c₁, hc₁, hid'', -, -⟩ := hold b' c' hb'
    exact h.classes b b' c₀ c₁ hc₀ hc₁ (hid' ▸ hne) (by rw [← hid', heq, hid''])
  · obtain ⟨c, hc, rfl⟩ := h.classIdx id b hget
    refine ⟨if a = b then f c else c, ?_, ?_⟩
    · rw [getElem?_modify, hc]
      rfl
    · split_ifs
      · exact hid c
      · rfl

/-- **A resolution** gives a new number when the restored ones are counted. -/
theorem Inv.resolveClass (h : s.Inv) (a : Nat)
    (hknown : ∀ c ∈ s.classes, c.restored = true → Counted s.classIdCount c.id) : Inv (s.resolveClass a) := by
  unfold NumRepo.resolveClass
  cases hc : s.classes[a]? with
  | none => exact h
  | some c =>
      cases hres : c.isResolved with
      | true =>
          simp only [hres, if_true]
          exact h
      | false =>
          simp only [hres, Bool.false_eq_true, if_false]
          obtain ⟨hempty, hnew⟩ := h.unresolved c (List.mem_of_getElem? hc) hres
          -- no class has the new number
          have hfree : ∀ c' ∈ s.classes, c'.id ≠ kndUidCreate (s.classIdCount + 1) := by
            intro c' hc' heq
            cases hrest : c'.restored with
            | true => exact (hknown c' hc' hrest).ne_next heq
            | false => exact (h.counted c' hc' hrest (heq ▸ kndUidCreate_ne_nil _)).ne_next heq
          have hold : ∀ (b : Nat) (c' : ClassCell), (s.modify a fun c => c.resolve s.classIdCount).classes[b]? = some c' →
              (a ≠ b ∧ s.classes[b]? = some c') ∨ (a = b ∧ c' = c.resolve s.classIdCount) := by
            intro b c' hb
            rw [getElem?_modify] at hb
            obtain ⟨c₀, hc₀, heq⟩ := Option.map_eq_some_iff.mp hb
            by_cases hab : a = b
            · subst hab
              obtain rfl := Option.some.inj (hc.symm.trans hc₀)
              exact .inr ⟨rfl, by rw [← heq, if_pos rfl]⟩
            · rw [if_neg hab] at heq
              subst heq
              exact .inl ⟨hab, hc₀⟩
          have hmem : ∀ c' ∈ (s.modify a fun c => c.resolve s.classIdCount).classes,
              c' ∈ s.classes ∨ c' = c.resolve s.classIdCount := by
            intro c' hc'
            obtain ⟨b, hb⟩ := List.mem_iff_getElem?.mp hc'
            exact (hold b c' hb).imp (fun h => List.mem_of_getElem? h.2) (·.2)
          refine ⟨fun c' hc' => ?_, fun c' hc' hnew' hne => ?_, fun c' hc' hun => ?_,
            fun b b' c' c'' hb hb' hne heq => ?_, fun id b hget => ?_, h.files⟩
          · rcases hmem c' hc' with hc' | rfl
            · exact h.cells c' hc'
            · exact (h.cells c (List.mem_of_getElem? hc)).resolve _
          · rcases hmem c' hc' with hc' | rfl
            · exact (h.counted c' hc' hnew' hne).mono (Nat.le_succ _)
            · exact ⟨_, le_rfl, rfl⟩
          · rcases hmem c' hc' with hc' | rfl
            · exact h.unresolved c' hc' hun
            · cases hun
          · rcases hold b c' hb with ⟨hab, hb⟩ | ⟨rfl, rfl⟩
            · rcases hold b' c'' hb' with ⟨-, hb'⟩ | ⟨rfl, rfl⟩
              · exact h.classes b b' c' c'' hb hb' hne heq
              · exact absurd heq (hfree c' (List.mem_of_getElem? hb))
            · rcases hold b' c'' hb' with ⟨-, hb'⟩ | ⟨rfl, -⟩
              · exact absurd heq.symm (hfree c'' (List.mem_of_getElem? hb'))
              · rfl
          · obtain ⟨c', hb, rfl⟩ := h.classIdx id b hget
            have hab : a ≠ b := by
              rintro rfl
              obtain rfl := Option.some.inj (hc.symm.trans hb)
              rw [hempty] at hget
              exact get_nil _ _ hget
            refine ⟨c', ?_, rfl⟩
            show (s.modify a fun c => c.resolve s.classIdCount).classes[b]? = some c'
            rw [getElem?_modify, hb, Option.map_some, if_neg hab]

theorem Inv.indexClass (h : s.Inv) (a : Nat) : Inv (s.indexClass a) := by
  unfold NumRepo.indexClass
  cases hc : s.classes[a]? with
  | none => exact h
  | some c =>
      refine ⟨h.cells, h.counted, h.unresolved, h.classes, fun id b hget => ?_, h.files⟩
      rcases get_of_add hget with hget | ⟨rfl, rfl⟩
      · exact h.classIdx id b hget
      · exact ⟨c, hc, rfl⟩

theorem Inv.importClass (h : s.Inv) (name : Name) : Inv { s with classes := s.classes ++ [{ name }] } := by
  have hmem : ∀ c ∈ s.classes ++ [({ name } : ClassCell)], c ∈ s.classes ∨ c = { name } := fun c hc =>
    (List.mem_append.mp hc).imp_right List.mem_singleton.mp
  have hold : ∀ (b : Nat) (c : ClassCell), (s.classes ++ [({ name } : ClassCell)])[b]? = some c → c.id ≠ [] → s.classes[b]? = some c := by
    intro b c hb hne
    by_cases hlt : b < s.classes.length
    · rwa [List.getElem?_append_left hlt] at hb
    · rw [List.getElem?_append_right (Nat.le_of_not_lt hlt)] at hb
      obtain rfl := List.mem_singleton.mp (List.mem_of_getElem? hb)
      exact absurd rfl hne
  refine ⟨fun c hc => ?_, fun c hc hnew hne => ?_, fun c hc hun => ?_, fun a b c c' ha hb hne heq => ?_,
    fun id b hget => ?_, h.files⟩
  · rcases hmem c hc with hc | rfl
    · exact h.cells c hc
    · exact ⟨fun _ h => absurd h List.not_mem_nil, List.nodup_nil, fun _ h => by cases h⟩
  · rcases hmem c hc with hc | rfl
    · exact h.counted c hc hnew hne
    · exact absurd rfl hne
  · rcases hmem c hc with hc | rfl
    · exact h.unresolved c hc hun
    · exact ⟨rfl, rfl⟩
  · exact h.classes a b c c' (hold a c ha hne) (hold b c' hb (heq ▸ hne)) hne heq
  · obtain ⟨c, hc, rfl⟩ := h.classIdx id b hget
    exact ⟨c, by rw [List.getElem?_append_left (List.getElem?_eq_some_iff.mp hc).1, hc], rfl⟩

/-! A snapshot and its load -/

theorem Inv.snapshot (h : s.Inv) : Inv s.snapshot := by
  refine ⟨h.cells, h.counted, h.unresolved, h.classes, h.classIdx, fun records hrecords => ?_⟩
  cases hrecords
  refine ⟨?_, fun record hrecord => ?_⟩
  · rw [List.map_map]
    exact s.classIdx.idx.nodup_entries []
  · obtain ⟨⟨id, a⟩, hmem, rfl⟩ := List.mem_map.mp hrecord
    obtain ⟨ds, hid, hlookup⟩ := ElemIdx.mem_entries.mp hmem
    obtain ⟨c, hc, -⟩ := h.classIdx id a (getElem_eq_ok.mpr ⟨ds, hid, hlookup⟩)
    have hget : s.classes.getD a { name := [] } = c := by
      rw [List.getD, hc]
      rfl
    show ((s.classes.getD a { name := [] }).records.map InstEntry.id).Nodup
    rw [hget]
    exact (h.cells c (List.mem_of_getElem? hc)).nodup_records

/-- What the load of the class entries binds. -/
theorem get_of_loadClasses {records : List StoredClass} {a : Nat} {idx : SharedSet Nat} {id : List UInt8} {b : Nat}
    (h : kndSharedSetGet (loadClasses records a idx) id = .ok b) :
    kndSharedSetGet idx id = .ok b ∨ ∃ i record, records[i]? = some record ∧ b = a + i ∧ record.id = id := by
  induction records generalizing a idx with
  | nil => exact .inl h
  | cons record records ih =>
      rcases ih h with h | ⟨i, record', hi, rfl, hid⟩
      · refine (get_of_add h).imp_right ?_
        rintro ⟨rfl, rfl⟩
        exact ⟨0, record, rfl, rfl, rfl⟩
      · exact .inr ⟨i + 1, record', hi, by omega, hid⟩

theorem inv_new : Inv {} :=
  ⟨fun _ h => absurd h List.not_mem_nil, fun _ h => absurd h List.not_mem_nil, fun _ h => absurd h List.not_mem_nil,
    fun _ _ _ _ h => by simp at h, fun id a h => absurd h (get_new id a), fun _ h => by cases h⟩

theorem Inv.reload (h : s.Inv) : Inv s.reload := by
  unfold NumRepo.reload
  cases hfiles : s.files with
  | none => exact inv_new
  | some records =>
      obtain ⟨hnodup, hinsts⟩ := h.files records hfiles
      have hold : ∀ (a : Nat) (c : ClassCell), (records.map readClass)[a]? = some c → ∃ record : StoredClass,
          records[a]? = some record ∧ c = readClass record := by
        intro a c hc
        rw [List.getElem?_map] at hc
        obtain ⟨record, hrecord, heq⟩ := Option.map_eq_some_iff.mp hc
        exact ⟨record, hrecord, heq.symm⟩
      refine ⟨fun c hc => ?_, fun c hc hnew => ?_, fun c hc hun => ?_, fun a b c c' ha hb hne heq => ?_,
        fun id a hget => ?_, fun records' hrecords' => h.files records' (hfiles.trans hrecords')⟩
      · obtain ⟨record, hrecord, rfl⟩ := List.mem_map.mp hc
        exact ⟨fun _ h => absurd h List.not_mem_nil, hinsts record hrecord, fun _ h => by cases h⟩
      · obtain ⟨record, -, rfl⟩ := List.mem_map.mp hc
        cases hnew
      · obtain ⟨record, -, rfl⟩ := List.mem_map.mp hc
        cases hun
      · obtain ⟨record, hrecord, rfl⟩ := hold a c ha
        obtain ⟨record', hrecord', rfl⟩ := hold b c' hb
        have hid : ∀ (i : Nat) (r : StoredClass), records[i]? = some r → (records.map StoredClass.id)[i]? = some r.id := by
          intro i r hi
          rw [List.getElem?_map, hi]
          rfl
        have hlt := (List.getElem?_eq_some_iff.mp (hid a record hrecord)).1
        refine (List.getElem?_inj hlt hnodup).mp ?_
        rw [hid a record hrecord, hid b record' hrecord']
        exact congrArg some heq
      · rcases get_of_loadClasses hget with hget | ⟨i, record, hi, rfl, hid⟩
        · exact absurd hget (get_new id a)
        · refine ⟨readClass record, ?_, hid⟩
          rw [Nat.zero_add, List.getElem?_map, hi]
          rfl

end NumRepo

/-! ## (6) Runs -/

section Runs

variable {s : NumRepo}

/-- **Every event** keeps the numbers apart when the restored ones are known to the counters. -/
theorem inv_step (h : s.Inv) {e : NumEvent} (he : Known s e) : (step s e).Inv := by
  cases e with
  | importClass name => exact h.importClass name
  | resolveClass a => exact h.resolveClass a he
  | indexClass a => exact h.indexClass a
  | importInst a bulk name =>
      refine h.modify (fun c hc => ?_) (fun _ => rfl) (fun _ => rfl) fun _ => rfl
      exact (h.cells c (List.mem_of_getElem? hc)).importInst (he c hc) bulk name
  | commitInst a i named =>
      refine h.modify (fun c hc => ?_) (fun c => ?_) (fun c => ?_) fun c => ?_
      · have hcell := h.cells c (List.mem_of_getElem? hc)
        split
        · exact hcell
        · rename_i entry hentry
          exact hcell.registerInst (List.mem_append_left _ (List.mem_of_getElem? hentry)) named
      all_goals split <;> rfl
  | lookup a read =>
      refine h.modify (fun c hc => ?_) (fun c => ?_) (fun c => ?_) fun c => ?_
      · exact (h.cells c (List.mem_of_getElem? hc)).loadInsts read
      all_goals
        unfold ClassCell.loadInsts
        split_ifs <;> rfl
  | snapshot => exact h.snapshot
  | reload => exact h.reload

theorem NumRepo.Inv.unique (h : s.Inv) : Unique s :=
  ⟨h.classes, fun _ c hc => (h.cells c (List.mem_of_getElem? hc)).nodup, h.classIdx,
    fun _ c hc => (h.cells c (List.mem_of_getElem? hc)).idx⟩

/-- **Numbers are unique** in every run in which the counters have counted what was restored. -/
theorem unique_of_known (hrun : Reaches step Known {} s) : Unique s :=
  (hrun.invariant NumRepo.inv_new fun _ _ h he => inv_step h he).unique

/-- **Imports bring a restored number back** when the counter has not counted it. -/
theorem not_unique_of_imports {a n : Nat} {c : ClassCell} {entry : InstEntry} (hc : s.classes[a]? = some c)
    (hentry : entry ∈ c.stored) (hid : entry.id = kndUidCreate n) (hlt : c.instIdCount < n) (name : Name) :
    ¬Unique ((List.replicate (n - c.instIdCount) (.importInst a false name)).foldl step s) := by
  obtain ⟨k, hk⟩ : ∃ k, n - c.instIdCount = k + 1 := ⟨n - c.instIdCount - 1, by omega⟩
  rw [hk]
  induction k generalizing s c with
  | zero =>
      intro h
      have hc' : (step s (.importInst a false name)).classes[a]? = some (c.importInst false name) := by
        rw [step, NumRepo.getElem?_modify, hc, Option.map_some, if_pos rfl]
      refine (List.nodup_cons.mp (h.insts a _ hc')).1 ?_
      have hnum : n = c.instIdCount + 1 := by omega
      exact List.mem_map.mpr ⟨entry, List.mem_append_right _ hentry, by rw [hid, hnum]⟩
  | succ k ih =>
      have hc' : (step s (.importInst a false name)).classes[a]? = some (c.importInst false name) := by
        rw [step, NumRepo.getElem?_modify, hc, Option.map_some, if_pos rfl]
      have hcount : (c.importInst false name).instIdCount = c.instIdCount + 1 := rfl
      rw [List.replicate_succ, List.foldl_cons]
      exact ih hc' hentry (by omega) (by omega)

end Runs

/-- A class with an instance, both committed and written to a snapshot. -/
def written : List NumEvent :=
  [.importClass [97], .resolveClass 0, .indexClass 0, .importInst 0 false [98], .commitInst 0 0 true, .snapshot]

theorem unique_of_known_written : Unique ((written ++ [NumEvent.reload, .lookup 0 1]).foldl step {}) := by
  refine unique_of_known (Reaches.refl.foldl ⟨trivial, fun c hc hrestored => ?_, trivial, fun c hc entry hentry => ?_,
    trivial, trivial, trivial, trivial, trivial⟩)
  · obtain rfl := List.mem_singleton.mp hc
    cases hrestored
  · obtain rfl := Option.some.inj hc
    cases hentry

/-- **The first instance that is imported after a reload has the number of the first instance before it.** -/
theorem not_unique_written : ¬Unique ((written ++ [NumEvent.reload, .importInst 0 false [99]]).foldl step {}) := by
  intro h
  have hids : (((written ++ [NumEvent.reload, .importInst 0 false [99]]).foldl step {}).classes[0]?.map
      fun c => c.insts.map InstEntry.id) = some [[49], [49]] := by
    decide +kernel
  obtain ⟨c, hc, hids⟩ := Option.map_eq_some_iff.mp hids
  have hnodup := h.insts 0 c hc
  rw [hids] at hnodup
  exact absurd hnodup (by decide)

end Numbering

end Knowdy
