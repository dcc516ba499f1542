import Knowdy.Indices

/-! # What the index updates of a commit change

One spec lemma for each function of `Indices`, and from them what a whole run of `updateIndices` does
to the classes and instances that can be reached.

* `registerClass_ok`, `registerInstName_ok`, `registerInstId_ok` — what a returning step binds;
  `registerClass_error`, … — a refused step leaves the contents alone.
* `Indices.Grows` — every lookup is as before or answers with something the commit registers; all
  steps move the indices along it.
* `Indices.Keeps` — what all steps leave alone.
* `Registration.Refused` — the first registration of a commit is refused, judged before the call.
* `RefusedAs` — what a refused first registration leaves: the lookups in the indices are as before, but the
  class of an instance has a name index now.
* `updateIndices_error_iff` — **a failed `updateIndices` has changed nothing exactly when the first
  registration of the commit was refused** and its class had nothing left to load. -/

namespace Knowdy

variable {τ : Type}

/-! ## (1) Lookups after the elementary writes -/

namespace Indices

@[simp] theorem classByName_setPool (idx : Indices τ) (pool : MemPool) (name : Name) :
    (idx.setPool pool).classByName name = idx.classByName name := rfl

@[simp] theorem indexedInst_setPool (idx : Indices τ) (pool : MemPool) (a : ClassAddr) (name : Name) :
    (idx.setPool pool).indexedInst a name = idx.indexedInst a name := rfl

@[simp] theorem instById_setPool (idx : Indices τ) (pool : MemPool) (a : ClassAddr)
    (id : List UInt8) : (idx.setPool pool).instById a id = idx.instById a id := rfl

@[simp] theorem classByName_setEntry (idx : Indices τ) (a : ClassAddr) (entry : ClassEntry)
    (name : Name) : (idx.setEntry a entry).classByName name = idx.classByName name := rfl

@[simp] theorem classByName_setClass (idx : Indices τ) (a : ClassAddr) (c : Class) (name : Name) :
    (idx.setClass a c).classByName name = idx.classByName name := rfl

theorem classes_setEntry (idx : Indices τ) (a b : ClassAddr) (entry : ClassEntry) :
    (idx.setEntry a entry).classes b = if b = a then entry else idx.classes b :=
  Function.update_apply _ _ _ _

theorem cls_setDictItem (idx : Indices τ) (a b : ClassAddr) (states : List CommitAddr) :
    ((idx.setDictItem a states).classes b).cls = (idx.classes b).cls := by
  rw [setDictItem, classes_setEntry]
  split
  · rename_i hb
    rw [hb]
  · rfl

@[simp] theorem classByName_setDictItem (idx : Indices τ) (a : ClassAddr) (states : List CommitAddr)
    (name : Name) : (idx.setDictItem a states).classByName name = idx.classByName name := rfl

@[simp] theorem indexedInst_setDictItem (idx : Indices τ) (a b : ClassAddr) (states : List CommitAddr)
    (name : Name) : (idx.setDictItem a states).indexedInst b name = idx.indexedInst b name := by
  rw [indexedInst, cls_setDictItem]
  rfl

@[simp] theorem instById_setDictItem (idx : Indices τ) (a b : ClassAddr) (states : List CommitAddr)
    (id : List UInt8) : (idx.setDictItem a states).instById b id = idx.instById b id := by
  rw [instById, cls_setDictItem]
  rfl

theorem classes_setClass (idx : Indices τ) (a b : ClassAddr) (c : Class) :
    (idx.setClass a c).classes b
      = if b = a then { idx.classes a with cls := some c } else idx.classes b := by
  exact classes_setEntry _ _ _ _

theorem indexedInst_setClass (idx : Indices τ) (a b : ClassAddr) (c : Class) (name : Name) :
    (idx.setClass a c).indexedInst b name
      = if b = a then (c.instNameIdx.bind fun dict => kndSharedDictGet dict name)
        else idx.indexedInst b name := by
  rw [indexedInst, classes_setClass]
  split <;> rfl

theorem instById_setClass (idx : Indices τ) (a b : ClassAddr) (c : Class) (id : List UInt8) :
    (idx.setClass a c).instById b id
      = if b = a then (c.instIdx.bind fun set => (kndSharedSetGet set id).toOption)
        else idx.instById b id := by
  rw [instById, classes_setClass]
  split <;> rfl

@[simp] theorem hasNameIdx_setPool (idx : Indices τ) (pool : MemPool) (a : ClassAddr) :
    (idx.setPool pool).hasNameIdx a = idx.hasNameIdx a := rfl

theorem hasNameIdx_setClass (idx : Indices τ) (a b : ClassAddr) (c : Class) :
    (idx.setClass a c).hasNameIdx b = if b = a then c.instNameIdx.isSome else idx.hasNameIdx b := by
  rw [hasNameIdx, classes_setClass]
  split <;> rfl

theorem hasNameIdx_of_cls {idx : Indices τ} {a : ClassAddr} {c : Class} (h : (idx.classes a).cls = some c) :
    idx.hasNameIdx a = c.instNameIdx.isSome := by
  rw [hasNameIdx, h]
  rfl

/-- What the name index of a class holds is found there. -/
theorem instByName_of_indexedInst {idx : Indices τ} {a : ClassAddr} {name : Name} {i : ClassInst}
    (h : idx.indexedInst a name = some i) : idx.instByName a name = some i := by
  obtain ⟨c, hcls, dict, hdict, -⟩ : ∃ c, (idx.classes a).cls = some c ∧
      ∃ dict, c.instNameIdx = some dict ∧ kndSharedDictGet dict name = some i := by
    simpa [indexedInst, Option.bind_eq_some_iff] using h
  rw [instByName, if_pos (by rw [hasNameIdx_of_cls hcls, hdict]; rfl), h]

/-- A class without a name index has nothing in it. -/
theorem indexedInst_of_not_hasNameIdx {idx : Indices τ} {a : ClassAddr} (h : idx.hasNameIdx a = false)
    (name : Name) : idx.indexedInst a name = none := by
  rw [indexedInst]
  rw [hasNameIdx] at h
  cases hcls : (idx.classes a).cls with
  | none => rfl
  | some c =>
      rw [hcls] at h
      cases hdict : c.instNameIdx with
      | none => simp [hdict]
      | some dict => simp [hdict] at h

theorem indexedInst_of_cls {idx : Indices τ} {a : ClassAddr} {c : Class}
    (h : (idx.classes a).cls = some c) (name : Name) :
    idx.indexedInst a name = c.instNameIdx.bind fun dict => kndSharedDictGet dict name := by
  rw [indexedInst, h]
  rfl

theorem instById_of_cls {idx : Indices τ} {a : ClassAddr} {c : Class}
    (h : (idx.classes a).cls = some c) (id : List UInt8) :
    idx.instById a id = c.instIdx.bind fun set => (kndSharedSetGet set id).toOption := by
  rw [instById, h]
  rfl

/-- **The same in the indices**: the same classes by name, the same instances in the two indices of each class,
the same texts. -/
structure SameIndexed (idx idx' : Indices τ) : Prop where
  /-- Classes by name. -/
  classes_eq : ∀ name, idx'.classByName name = idx.classByName name
  /-- Instances in the name indices. -/
  names_eq : ∀ a name, idx'.indexedInst a name = idx.indexedInst a name
  /-- Instances by id. -/
  ids_eq : ∀ a id, idx'.instById a id = idx.instById a id
  /-- The text index. -/
  texts_eq : idx'.texts = idx.texts

namespace SameIndexed

theorem rfl' (idx : Indices τ) : SameIndexed idx idx := ⟨fun _ => rfl, fun _ _ => rfl, fun _ _ => rfl, rfl⟩

theorem trans {idx₁ idx₂ idx₃ : Indices τ} (h : SameIndexed idx₁ idx₂) (h' : SameIndexed idx₂ idx₃) :
    SameIndexed idx₁ idx₃ where
  classes_eq name := (h'.classes_eq name).trans (h.classes_eq name)
  names_eq a name := (h'.names_eq a name).trans (h.names_eq a name)
  ids_eq a id := (h'.ids_eq a id).trans (h.ids_eq a id)
  texts_eq := h'.texts_eq.trans h.texts_eq

instance : IsPreorder (Indices τ) SameIndexed where
  refl := rfl'
  trans _ _ _ := trans

/-- Only the pool differs. -/
theorem setPool (idx : Indices τ) (pool : MemPool) : SameIndexed idx (idx.setPool pool) :=
  ⟨fun _ => rfl, fun _ _ => rfl, fun _ _ => rfl, rfl⟩

end SameIndexed

end Indices

theorem Indices.SameContents.trans {idx₁ idx₂ idx₃ : Indices τ} (h : SameContents idx₁ idx₂)
    (h' : SameContents idx₂ idx₃) : SameContents idx₁ idx₃ where
  classes_eq name := (h'.classes_eq name).trans (h.classes_eq name)
  names_eq a name := (h'.names_eq a name).trans (h.names_eq a name)
  ids_eq a id := (h'.ids_eq a id).trans (h.ids_eq a id)
  texts_eq := h'.texts_eq.trans h.texts_eq

/-! ## (2) The steps -/

/-- Nothing is found in a new set. -/
theorem toOption_kndSharedSetGet_new {α : Type} (id : List UInt8) :
    (kndSharedSetGet ({} : SharedSet α) id).toOption = none := by
  cases hget : kndSharedSetGet ({} : SharedSet α) id with
  | error e => rfl
  | ok a =>
      obtain ⟨ds, -, hds⟩ := getElem_eq_ok.mp hget
      match ds, hds with
      | [i], hds => cases hds
      | i :: j :: ds, hds =>
          rw [ElemIdx.lookup_cons (List.cons_ne_nil j ds)] at hds
          simp at hds

/-- A new item that is made valid at once. -/
theorem setItemPhase_push {α : Type} (dict : SharedDict α) (item : DictItem α) :
    setItemPhase (dict.push item) item.key .valid = dict.push { item with phase := .valid } := by
  have hbucket : (dict.push item).bucket item.key = item :: dict.bucket item.key := by
    rw [SharedDict.bucket_push, if_pos rfl]
  simp only [setItemPhase, hbucket, List.replaceF_cons, if_true]
  simp [SharedDict.push, Function.update_idem, SharedDict.slot]

/-- Lookup in a table whose new item was made valid at once. -/
theorem kndSharedDictGet_setItemPhase_push {α : Type} (dict : SharedDict α) (item : DictItem α)
    (name : Name) :
    kndSharedDictGet (setItemPhase (dict.push item) item.key .valid) name
      = if name = item.key then some item.data else kndSharedDictGet dict name := by
  rw [setItemPhase_push, kndSharedDictGet_push]
  rfl

theorem Class.bind_instNameIdx (self : Class) (name : Name) :
    (self.instNameIdx.bind fun dict => kndSharedDictGet dict name)
      = kndSharedDictGet self.nameDict name := by
  rw [nameDict]
  cases self.instNameIdx <;> rfl

theorem Class.bind_instIdx (self : Class) (id : List UInt8) :
    (self.instIdx.bind fun set => (kndSharedSetGet set id).toOption)
      = (kndSharedSetGet self.idSet id).toOption := by
  rw [idSet]
  cases self.instIdx with
  | some set => rfl
  | none => exact (toOption_kndSharedSetGet_new id).symm

/-- **`registerClass`** binds the name of the class and changes nothing else that can be reached. -/
theorem registerClass_ok {commit : CommitAddr} {a : ClassAddr} {idx idx' : Indices τ}
    (h : (registerClass commit a).run idx = .ok () idx') :
    (∀ name, idx'.classByName name
      = if name = (idx.classes a).name then some a else idx.classByName name) ∧
    (∀ b name, idx'.indexedInst b name = idx.indexedInst b name) ∧
    (∀ b id, idx'.instById b id = idx.instById b id) ∧ idx'.texts = idx.texts := by
  rw [run_registerClass] at h
  split at h
  · cases h
  · rename_i item dict pool hset
    obtain ⟨-, rfl, rfl⟩ := kndSharedDictSet_ok hset
    cases h
    refine ⟨fun name => kndSharedDictGet_push _ _ _, fun b name => ?_, fun b id => ?_, rfl⟩
    · rw [Indices.indexedInst_setDictItem]
      rfl
    · rw [Indices.instById_setDictItem]
      rfl

/-- A refused class leaves the contents alone. -/
theorem registerClass_error {commit : CommitAddr} {a : ClassAddr} {idx idx' : Indices τ} {e : Stop}
    (h : (registerClass commit a).run idx = .error e idx') : idx.SameIndexed idx' := by
  rw [run_registerClass] at h
  split at h
  · cases h
    exact .setPool _ _
  · cases h

theorem registerClass_fails_iff {commit : CommitAddr} {a : ClassAddr} {idx : Indices τ} :
    (∃ e idx', (registerClass commit a).run idx = .error e idx') ↔
      idx.classNameIdx.Taken (idx.classes a).name ∨ idx.pool.tinyPages < 2 := by
  have hfails := @kndSharedDictSet_fails_iff _ idx.classNameIdx idx.pool (idx.classes a).name a
    (some commit)
  rw [dictPagesNeeded, if_pos (by rfl)] at hfails
  rw [← hfails]
  constructor
  · rintro ⟨e, idx', h⟩
    rw [run_registerClass] at h
    split at h
    · rename_i e' pool hset
      exact ⟨e', pool, hset⟩
    · cases h
  · rintro ⟨e, pool, hset⟩
    exact ⟨.err e, idx.setPool pool, by rw [run_registerClass, hset]⟩

/-- `ensureInstIdxs` adds empty indices only. -/
theorem sameIndexed_ensureInstIdxs {a : ClassAddr} {idx idx' : Indices τ}
    (h : (ensureInstIdxs a).run idx = .ok () idx') : idx.SameIndexed idx' := by
  cases hcls : (idx.classes a).cls with
  | none =>
      rw [EStateM.run, ensureInstIdxs, hcls] at h
      cases h
  | some c =>
      rw [run_ensureInstIdxs hcls] at h
      cases h
      refine ⟨fun _ => rfl, fun b name => ?_, fun b id => ?_, rfl⟩
      · rw [Indices.indexedInst_setClass]
        by_cases hb : b = a
        · rw [if_pos hb, hb, Indices.indexedInst_of_cls hcls]
          exact (Class.bind_instNameIdx c name).symm
        · rw [if_neg hb]
      · rw [Indices.instById_setClass]
        by_cases hb : b = a
        · rw [if_pos hb, hb, Indices.instById_of_cls hcls]
          exact (Class.bind_instIdx c id).symm
        · rw [if_neg hb]

/-- **`registerInstName`** binds the name of the instance in its class and changes nothing else that
can be reached. -/
theorem registerInstName_ok {commit : CommitAddr} {a : ClassAddr} {inst : ClassInst}
    {idx idx' : Indices τ} (h : (registerInstName commit a inst).run idx = .ok () idx') :
    (∀ name, idx'.classByName name = idx.classByName name) ∧
    (∀ b name, idx'.indexedInst b name
      = if b = a ∧ name = inst.name then some inst else idx.indexedInst b name) ∧
    (∀ b id, idx'.instById b id = idx.instById b id) ∧ idx'.texts = idx.texts := by
  cases hcls : (idx.classes a).cls with
  | none =>
      rw [EStateM.run, registerInstName, hcls] at h
      cases h
  | some c =>
      rw [run_registerInstName hcls] at h
      split at h
      · cases h
      · rename_i item dict pool hset
        obtain ⟨-, rfl, rfl⟩ := kndSharedDictSet_ok hset
        cases h
        refine ⟨fun _ => rfl, fun b name => ?_, fun b id => ?_, rfl⟩
        · rw [Indices.indexedInst_setClass]
          by_cases hb : b = a
          · have hget := kndSharedDictGet_setItemPhase_push c.nameDict
              ⟨if (some commit).isSome then .pending else .valid, inst.name, inst,
                (some commit).toList⟩ name
            rw [if_pos hb]
            show kndSharedDictGet (setItemPhase (c.nameDict.push _) inst.name .valid) name = _
            rw [hget, hb, Indices.indexedInst_of_cls hcls, Class.bind_instNameIdx]
            simp only [true_and]
          · rw [if_neg hb, if_neg fun h => hb h.1]
            rfl
        · rw [Indices.instById_setClass]
          split
          · rename_i hb
            rw [hb, Indices.instById_of_cls hcls]
          · rfl

/-- A refused name leaves the contents alone. -/
theorem registerInstName_error {commit : CommitAddr} {a : ClassAddr} {inst : ClassInst}
    {idx idx' : Indices τ} {e : Stop} (h : (registerInstName commit a inst).run idx = .error e idx') :
    idx.SameIndexed idx' := by
  cases hcls : (idx.classes a).cls with
  | none =>
      rw [EStateM.run, registerInstName, hcls] at h
      cases h
      exact .rfl' idx
  | some c =>
      rw [run_registerInstName hcls] at h
      split at h
      · cases h
        exact .setPool _ _
      · cases h

theorem registerInstName_fails_iff {commit : CommitAddr} {a : ClassAddr} {inst : ClassInst}
    {idx : Indices τ} {c : Class} (hcls : (idx.classes a).cls = some c) :
    (∃ e idx', (registerInstName commit a inst).run idx = .error e idx') ↔
      c.nameDict.Taken inst.name ∨
        idx.pool.tinyPages < 2 := by
  have hfails := @kndSharedDictSet_fails_iff _ c.nameDict idx.pool inst.name inst (some commit)
  rw [dictPagesNeeded, if_pos (by rfl)] at hfails
  rw [← hfails]
  constructor
  · rintro ⟨e, idx', h⟩
    rw [run_registerInstName hcls] at h
    split at h
    · rename_i e' pool hset
      exact ⟨e', pool, hset⟩
    · cases h
  · rintro ⟨e, pool, hset⟩
    exact ⟨.err e, idx.setPool pool, by rw [run_registerInstName hcls, hset]⟩

/-- Lookup after an insertion into a shared set, returning or not. -/
theorem toOption_kndSharedSetGet_add {α : Type} (self : SharedSet α) (key : List UInt8) (elem : α)
    (id : List UInt8) :
    (kndSharedSetGet (kndSharedSetAdd self key elem).2 id).toOption
      = if (kndSharedSetAdd self key elem).1 = .ok () ∧ id = key then some elem
        else (kndSharedSetGet self id).toOption := by
  have hcases := saveElem_cases self.allowOverwrite elem key self.idx
  have hget : ∀ (set : SharedSet α) (id : List UInt8) (b : α),
      (kndSharedSetGet set id).toOption = some b ↔ ∃ ds, id = digitsKey ds ∧ set.idx.lookup ds = some b := by
    intro set id b
    rw [← getElem_eq_ok, kndSharedSetGet]
    cases getElem id set.idx <;> simp [Except.toOption]
  rw [kndSharedSetAdd]
  cases hsave : saveElem self.allowOverwrite elem key self.idx with
  | mk rc idx =>
      rw [hsave] at hcases
      cases rc with
      | error e =>
          simp only [reduceCtorEq, false_and, if_false]
          ext b
          rw [hget, hget]
          simp [hcases]
      | ok u =>
          obtain ⟨ds, rfl, -, -, hlookup⟩ := hcases
          simp only [true_and]
          ext b
          rw [hget]
          by_cases hid : id = digitsKey ds
          · rw [if_pos hid]
            simp [hid, digitsKey_inj, hlookup]
          · rw [if_neg hid, hget]
            constructor
            · rintro ⟨es, rfl, hes⟩
              rw [hlookup, if_neg fun h => hid (by rw [h])] at hes
              exact ⟨es, rfl, hes⟩
            · rintro ⟨es, rfl, hes⟩
              exact ⟨es, rfl, by rw [hlookup, if_neg fun h => hid (by rw [h])]; exact hes⟩

/-- The effect of `registerInstId` on the lookups: the id is bound exactly when the call returns. -/
theorem registerInstId_finalState {a : ClassAddr} {inst : ClassInst} {idx : Indices τ} {c : Class}
    (hcls : (idx.classes a).cls = some c) :
    let idx' := finalState (registerInstId a inst) idx
    (∀ name, idx'.classByName name = idx.classByName name) ∧
    (∀ b name, idx'.indexedInst b name = idx.indexedInst b name) ∧
    (∀ b id, idx'.instById b id
      = if b = a ∧ id = inst.id ∧ (kndSharedSetAdd c.idSet inst.id inst).1 = .ok () then some inst
        else idx.instById b id) ∧ idx'.texts = idx.texts := by
  have hfinal : finalState (registerInstId a inst) idx
      = idx.setClass a { c with instIdx := some (kndSharedSetAdd c.idSet inst.id inst).2 } := by
    rw [finalState, run_registerInstId hcls]
    cases kndSharedSetAdd c.idSet inst.id inst with
    | mk rc set => cases rc <;> rfl
  rw [hfinal]
  refine ⟨fun _ => rfl, fun b name => ?_, fun b id => ?_, rfl⟩
  · rw [Indices.indexedInst_setClass]
    split
    · rename_i hb
      rw [hb, Indices.indexedInst_of_cls hcls]
    · rfl
  · rw [Indices.instById_setClass]
    by_cases hb : b = a
    · rw [if_pos hb, Option.bind_some, toOption_kndSharedSetGet_add, hb,
        Indices.instById_of_cls hcls, Class.bind_instIdx]
      simp [and_comm]
    · rw [if_neg hb, if_neg fun h => hb h.1]

theorem registerInstId_fails_iff {a : ClassAddr} {inst : ClassInst} {idx : Indices τ} {c : Class}
    (hcls : (idx.classes a).cls = some c) :
    (∃ e idx', (registerInstId a inst).run idx = .error e idx') ↔
      (kndSharedSetAdd c.idSet inst.id inst).1 ≠ .ok () := by
  rw [run_registerInstId hcls]
  cases kndSharedSetAdd c.idSet inst.id inst with
  | mk rc set => cases rc <;> simp

/-! ## (3) Growth -/

/-- **Growth by the registrations `regs`**: every lookup is as before, or answers with a class or an
instance that `regs` registers. -/
structure Indices.Grows (regs : List Registration) (idx idx' : Indices τ) : Prop where
  /-- Classes by name. -/
  classes : ∀ name, idx'.classByName name = idx.classByName name ∨
    ∃ a, .cls a ∈ regs ∧ idx'.classByName name = some a
  /-- Instances by name. -/
  names : ∀ a name, idx'.indexedInst a name = idx.indexedInst a name ∨
    ∃ i, .inst a i ∈ regs ∧ idx'.indexedInst a name = some i
  /-- Instances by id. -/
  ids : ∀ a id, idx'.instById a id = idx.instById a id ∨
    ∃ i, .inst a i ∈ regs ∧ idx'.instById a id = some i

section Growth

variable {regs : List Registration}

/-- Composing two lookups of a growth. -/
private theorem eq_or_trans {α : Type} {x y z : Option α} {P : α → Prop}
    (h : y = x ∨ ∃ b, P b ∧ y = some b) (h' : z = y ∨ ∃ b, P b ∧ z = some b) :
    z = x ∨ ∃ b, P b ∧ z = some b := by
  rcases h' with rfl | h'
  · exact h
  · exact .inr h'

instance : IsPreorder (Indices τ) (Indices.Grows regs) where
  refl _ := ⟨fun _ => .inl rfl, fun _ _ => .inl rfl, fun _ _ => .inl rfl⟩
  trans _ _ _ h h' := {
    classes := fun name => eq_or_trans (h.classes name) (h'.classes name)
    names := fun a name => eq_or_trans (h.names a name) (h'.names a name)
    ids := fun a id => by
      rcases h'.ids a id with heq | hnew
      · rw [heq]
        exact h.ids a id
      · exact .inr hnew }

theorem Indices.SameIndexed.grows {idx idx' : Indices τ} (h : idx.SameIndexed idx') :
    idx.Grows regs idx' :=
  ⟨fun name => .inl (h.classes_eq name), fun a name => .inl (h.names_eq a name),
    fun a id => .inl (h.ids_eq a id)⟩

/-- Registering a class of `regs`. -/
theorem grows_registerClass {commit : CommitAddr} {a : ClassAddr} (ha : .cls a ∈ regs) :
    Moves (Indices.Grows regs) (registerClass commit a : IdxM τ Unit) := by
  intro idx
  cases hrun : (registerClass commit a).run idx with
  | error e idx' =>
      rw [finalState_of_error hrun]
      exact (registerClass_error hrun).grows
  | ok u idx' =>
      rw [finalState_of_ok hrun]
      obtain ⟨hclasses, hnames, hids, -⟩ := registerClass_ok hrun
      refine ⟨fun name => ?_, fun b name => .inl (hnames b name), fun b id => .inl (hids b id)⟩
      rw [hclasses]
      split
      · exact .inr ⟨a, ha, rfl⟩
      · exact .inl rfl

/-- Registering the name of an instance of `regs`. -/
theorem grows_registerInstName {commit : CommitAddr} {a : ClassAddr} {inst : ClassInst}
    (ha : .inst a inst ∈ regs) :
    Moves (Indices.Grows regs) (registerInstName commit a inst : IdxM τ Unit) := by
  intro idx
  cases hrun : (registerInstName commit a inst).run idx with
  | error e idx' =>
      rw [finalState_of_error hrun]
      exact (registerInstName_error hrun).grows
  | ok u idx' =>
      rw [finalState_of_ok hrun]
      obtain ⟨hclasses, hnames, hids, -⟩ := registerInstName_ok hrun
      refine ⟨fun name => .inl (hclasses name), fun b name => ?_, fun b id => .inl (hids b id)⟩
      rw [hnames]
      split
      · rename_i hb
        exact .inr ⟨inst, hb.1 ▸ ha, rfl⟩
      · exact .inl rfl

/-- Registering the id of an instance of `regs`. -/
theorem grows_registerInstId {a : ClassAddr} {inst : ClassInst} (ha : .inst a inst ∈ regs) :
    Moves (Indices.Grows regs) (registerInstId a inst : IdxM τ Unit) := by
  intro idx
  cases hcls : (idx.classes a).cls with
  | none =>
      have hrun : (registerInstId a inst).run idx = .error .abort idx := by
        rw [EStateM.run, registerInstId, hcls]
      rw [finalState_of_error hrun]
      exact refl_of (Indices.Grows regs) idx
  | some c =>
      obtain ⟨hclasses, hnames, hids, -⟩ := @registerInstId_finalState _ a inst _ _ hcls
      refine ⟨fun name => .inl (hclasses name), fun b name => .inl (hnames b name), fun b id => ?_⟩
      rw [hids]
      split
      · rename_i hb
        exact .inr ⟨inst, hb.1 ▸ ha, rfl⟩
      · exact .inl rfl

/-- Looking a class up changes nothing. -/
theorem checkClassEntry_ok {a : ClassAddr} {idx idx' : Indices τ}
    (h : (checkClassEntry a).run idx = .ok () idx') :
    idx' = idx ∧ (∃ c, (idx.classes a).cls = some c) ∧
      idx.classByName (idx.classes a).name ≠ none := by
  rw [run_checkClassEntry] at h
  split at h
  · cases h
  · rename_i c hcls
    split at h
    · cases h
    · rename_i b hget
      cases h
      exact ⟨rfl, ⟨c, hcls⟩, by rw [Indices.classByName, hget]; exact Option.some_ne_none b⟩

/-- A class with a body that is not found by its name. -/
theorem checkClassEntry_error {a : ClassAddr} {idx idx' : Indices τ} {e : KndErr}
    (h : (checkClassEntry a).run idx = .error (.err e) idx') :
    idx' = idx ∧ idx.classByName (idx.classes a).name = none := by
  rw [run_checkClassEntry] at h
  split at h
  · cases h
  · split at h
    · rename_i hget
      cases h
      exact ⟨rfl, hget⟩
    · cases h

theorem checkClassEntry_abort {a : ClassAddr} {idx idx' : Indices τ}
    (h : (checkClassEntry a).run idx = .error .abort idx') : idx' = idx := by
  rw [run_checkClassEntry] at h
  split at h
  · cases h
    rfl
  · split at h <;> cases h

theorem grows_checkClassEntry (a : ClassAddr) :
    Moves (Indices.Grows regs) (checkClassEntry a : IdxM τ Unit) := by
  intro idx
  cases hrun : (checkClassEntry a).run idx with
  | ok u idx' =>
      rw [finalState_of_ok hrun, (checkClassEntry_ok hrun).1]
      exact refl_of _ idx
  | error e idx' =>
      rw [finalState_of_error hrun]
      cases e with
      | err e =>
          rw [(checkClassEntry_error hrun).1]
          exact refl_of _ idx
      | abort =>
          rw [checkClassEntry_abort hrun]
          exact refl_of _ idx

theorem grows_ensureInstIdxs (a : ClassAddr) :
    Moves (Indices.Grows regs) (ensureInstIdxs a : IdxM τ Unit) := by
  intro idx
  cases hrun : (ensureInstIdxs a).run idx with
  | ok u idx' =>
      rw [finalState_of_ok hrun]
      exact (sameIndexed_ensureInstIdxs hrun).grows
  | error e idx' =>
      rw [finalState_of_error hrun]
      cases hcls : (idx.classes a).cls with
      | none =>
          rw [EStateM.run, ensureInstIdxs, hcls] at hrun
          cases hrun
          exact refl_of _ idx
      | some c =>
          rw [run_ensureInstIdxs hcls] at hrun
          cases hrun

variable [AttrVarOps τ]

/-- The text index is none of the lookups. -/
theorem grows_indexAttrVars (inst : ClassInst) :
    Moves (Indices.Grows regs) (indexAttrVars inst : IdxM τ Unit) :=
  Moves.zoom _ fun _ _ => ⟨fun _ => .inl rfl, fun _ _ => .inl rfl, fun _ _ => .inl rfl⟩

theorem grows_registerInst {commit : CommitAddr} {a : ClassAddr} {inst : ClassInst}
    (ha : .inst a inst ∈ regs) :
    Moves (Indices.Grows regs) (registerInst commit a inst : IdxM τ Unit) :=
  .bind (.ite (fun _ => grows_registerInstName ha) fun _ => .pure _) fun _ =>
    .bind (grows_registerInstId ha) fun _ =>
      .ite (fun _ => grows_indexAttrVars inst) fun _ => .pure _

theorem grows_kndClassInstUpdateIndices {commit : CommitAddr} {a : ClassAddr}
    {insts : List ClassInst} (h : ∀ i ∈ insts, .inst a i ∈ regs) :
    Moves (Indices.Grows regs) (kndClassInstUpdateIndices commit a insts : IdxM τ Unit) :=
  .bind (grows_checkClassEntry a) fun _ => .bind (grows_ensureInstIdxs a) fun _ =>
    .forM fun i hi => grows_registerInst (h i hi)

theorem grows_updateClassIndices {commit : CommitAddr} {ref : ClassStateRef}
    (h : ∀ r ∈ ref.registrations, r ∈ regs) :
    Moves (Indices.Grows regs) (updateClassIndices commit ref : IdxM τ Unit) := by
  unfold updateClassIndices
  rw [ClassStateRef.registrations] at h
  cases hphase : ref.phase with
  | created =>
      rw [hphase] at h
      exact grows_registerClass (h _ (List.mem_singleton_self _))
  | selected =>
      rw [hphase] at h
      exact .ite (fun _ => grows_kndClassInstUpdateIndices fun i hi =>
        h _ (List.mem_map_of_mem hi)) fun _ => .pure _

/-- **Everything `updateIndices` makes reachable is registered by the commit.** -/
theorem grows_updateIndices {commit : CommitAddr} {refs : List ClassStateRef}
    (h : ∀ r ∈ registrations refs, r ∈ regs) :
    Moves (Indices.Grows regs) (updateIndices commit refs : IdxM τ Unit) :=
  .forM fun ref href => grows_updateClassIndices fun r hr =>
    h r (List.mem_flatMap.mpr ⟨ref, href, hr⟩)

end Growth

/-! ## (4) What an update leaves alone -/

/-- **What an update leaves alone**: the addresses given out, the class storage, the names of the classes and
their clauses, and how many instances each has numbered. -/
structure Indices.Keeps (idx idx' : Indices τ) : Prop where
  /-- The next free addresses. -/
  next : idx'.nextClass = idx.nextClass ∧ idx'.nextInst = idx.nextInst
  /-- The class storage. -/
  stored : idx'.stored = idx.stored
  /-- The names. -/
  names : ∀ a, (idx'.classes a).name = (idx.classes a).name
  /-- The numbers. -/
  counts : ∀ a, (idx'.classes a).cls.map Class.instIdCount = (idx.classes a).cls.map Class.instIdCount
  /-- The clauses. -/
  clauses : ∀ a, (idx'.classes a).cls.map Class.clauses = (idx.classes a).cls.map Class.clauses

instance : IsPreorder (Indices τ) Indices.Keeps where
  refl _ := ⟨⟨rfl, rfl⟩, rfl, fun _ => rfl, fun _ => rfl, fun _ => rfl⟩
  trans _ _ _ h h' := ⟨⟨h'.next.1.trans h.next.1, h'.next.2.trans h.next.2⟩, h'.stored.trans h.stored,
    fun a => (h'.names a).trans (h.names a), fun a => (h'.counts a).trans (h.counts a),
    fun a => (h'.clauses a).trans (h.clauses a)⟩

/-- Writing back the body of a class with its clauses that has numbered as many instances. -/
theorem keeps_setClass {idx : Indices τ} {a : ClassAddr} {c c' : Class}
    (h : (idx.classes a).cls = some c) (hcount : c'.instIdCount = c.instIdCount) (hclauses : c'.clauses = c.clauses) :
    idx.Keeps (idx.setClass a c') := by
  refine ⟨⟨rfl, rfl⟩, rfl, fun b => ?_, fun b => ?_, fun b => ?_⟩
  · rw [Indices.setClass, Indices.classes_setEntry]
    by_cases hb : b = a <;> simp [hb]
  · rw [Indices.classes_setClass]
    by_cases hb : b = a
    · subst hb
      rw [if_pos rfl, h, Option.map_some, Option.map_some, hcount]
    · rw [if_neg hb]
  · rw [Indices.classes_setClass]
    by_cases hb : b = a
    · subst hb
      rw [if_pos rfl, h, Option.map_some, Option.map_some, hclauses]
    · rw [if_neg hb]

theorem keeps_setDictItem (idx : Indices τ) (a : ClassAddr) (states : List CommitAddr) :
    idx.Keeps (idx.setDictItem a states) := by
  refine ⟨⟨rfl, rfl⟩, rfl, fun b => ?_, fun b => by rw [Indices.cls_setDictItem],
    fun b => by rw [Indices.cls_setDictItem]⟩
  rw [Indices.setDictItem, Indices.classes_setEntry]
  by_cases hb : b = a <;> simp [hb]

theorem keeps_registerClass (commit : CommitAddr) (a : ClassAddr) :
    Moves Indices.Keeps (registerClass commit a : IdxM τ Unit) := by
  intro idx
  rw [finalState, run_registerClass]
  split
  · rename_i h
    split at h
    · cases h
    · rename_i item dict pool _
      cases h
      have hpool : idx.Keeps ((idx.setPool pool).setClassNameIdx dict) :=
        ⟨⟨rfl, rfl⟩, rfl, fun _ => rfl, fun _ => rfl, fun _ => rfl⟩
      exact trans_of Indices.Keeps hpool (keeps_setDictItem _ a item.states)
  · rename_i h
    split at h
    · cases h
      exact ⟨⟨rfl, rfl⟩, rfl, fun _ => rfl, fun _ => rfl, fun _ => rfl⟩
    · cases h

theorem keeps_ensureInstIdxs (a : ClassAddr) :
    Moves Indices.Keeps (ensureInstIdxs a : IdxM τ Unit) := by
  intro idx
  cases hcls : (idx.classes a).cls with
  | none =>
      have hrun : (ensureInstIdxs a).run idx = .error .abort idx := by
        rw [EStateM.run, ensureInstIdxs, hcls]
      rw [finalState_of_error hrun]
      exact refl_of Indices.Keeps idx
  | some c =>
      rw [finalState_of_ok (run_ensureInstIdxs hcls)]
      exact keeps_setClass hcls rfl rfl

/-- **What registering a name can do**, however it ends: it takes memory, and may give a class another name index. -/
theorem registerInstName_cases (commit : CommitAddr) (a : ClassAddr) (inst : ClassInst) (idx : Indices τ) :
    finalState (registerInstName commit a inst) idx = idx ∨
    ∃ pool, finalState (registerInstName commit a inst) idx = idx.setPool pool ∨
      ∃ c dict, (idx.classes a).cls = some c ∧ finalState (registerInstName commit a inst) idx
        = (idx.setPool pool).setClass a { c with instNameIdx := some dict } := by
  cases hcls : (idx.classes a).cls with
  | none =>
      have hrun : (registerInstName commit a inst).run idx = .error .abort idx := by
        rw [EStateM.run, registerInstName, hcls]
      exact .inl (finalState_of_error hrun)
  | some c =>
      have hrun := @run_registerInstName τ commit a inst idx c hcls
      refine .inr ?_
      rw [finalState, hrun]
      cases kndSharedDictSet c.nameDict idx.pool inst.name inst (some commit) false with
      | mk rc pool =>
          cases rc with
          | error e => exact ⟨pool, .inl rfl⟩
          | ok r => exact ⟨pool, .inr ⟨c, _, rfl, rfl⟩⟩

/-- **What registering an id can do**, however it ends: it may give a class another id index. -/
theorem registerInstId_cases (a : ClassAddr) (inst : ClassInst) (idx : Indices τ) :
    finalState (registerInstId a inst) idx = idx ∨ ∃ c set, (idx.classes a).cls = some c ∧
      finalState (registerInstId a inst) idx = idx.setClass a { c with instIdx := some set } := by
  cases hcls : (idx.classes a).cls with
  | none =>
      have hrun : (registerInstId a inst).run idx = .error .abort idx := by
        rw [EStateM.run, registerInstId, hcls]
      exact .inl (finalState_of_error hrun)
  | some c =>
      have hrun := @run_registerInstId τ a inst idx c hcls
      refine .inr ⟨c, (kndSharedSetAdd c.idSet inst.id inst).2, rfl, ?_⟩
      rw [finalState, hrun]
      cases kndSharedSetAdd c.idSet inst.id inst with
      | mk rc set => cases rc <;> rfl

theorem keeps_registerInstName (commit : CommitAddr) (a : ClassAddr) (inst : ClassInst) :
    Moves Indices.Keeps (registerInstName commit a inst : IdxM τ Unit) := by
  intro idx
  have hpool : ∀ pool, idx.Keeps (idx.setPool pool) :=
    fun _ => ⟨⟨rfl, rfl⟩, rfl, fun _ => rfl, fun _ => rfl, fun _ => rfl⟩
  rcases registerInstName_cases commit a inst idx with hsame | ⟨pool, hpooled | ⟨c, dict, hcls, hset⟩⟩
  · rw [hsame]
    exact refl_of Indices.Keeps idx
  · rw [hpooled]
    exact hpool pool
  · rw [hset]
    exact trans_of Indices.Keeps (hpool pool)
      (@keeps_setClass τ (idx.setPool pool) a c { c with instNameIdx := some dict } hcls rfl rfl)

theorem keeps_registerInstId (a : ClassAddr) (inst : ClassInst) :
    Moves Indices.Keeps (registerInstId a inst : IdxM τ Unit) := by
  intro idx
  rcases registerInstId_cases a inst idx with hsame | ⟨c, set, hcls, hset⟩
  · rw [hsame]
    exact refl_of Indices.Keeps idx
  · rw [hset]
    exact keeps_setClass hcls rfl rfl

theorem keeps_checkClassEntry (a : ClassAddr) :
    Moves Indices.Keeps (checkClassEntry a : IdxM τ Unit) := by
  intro idx
  cases hrun : (checkClassEntry a).run idx with
  | ok u idx' =>
      rw [finalState_of_ok hrun, (checkClassEntry_ok hrun).1]
      exact refl_of _ idx
  | error e idx' =>
      rw [finalState_of_error hrun]
      cases e with
      | err e =>
          rw [(checkClassEntry_error hrun).1]
          exact refl_of _ idx
      | abort =>
          rw [checkClassEntry_abort hrun]
          exact refl_of _ idx

section Keep

variable [AttrVarOps τ]

theorem keeps_registerInst (commit : CommitAddr) (a : ClassAddr) (inst : ClassInst) :
    Moves Indices.Keeps (registerInst commit a inst : IdxM τ Unit) := by
  have htexts : Moves Indices.Keeps (indexAttrVars inst : IdxM τ Unit) :=
    Moves.zoom _ fun _ _ => ⟨⟨rfl, rfl⟩, rfl, fun _ => rfl, fun _ => rfl, fun _ => rfl⟩
  exact .bind (.ite (fun _ => keeps_registerInstName commit a inst) fun _ => .pure _) fun _ =>
    .bind (keeps_registerInstId a inst) fun _ => .ite (fun _ => htexts) fun _ => .pure _

theorem keeps_updateClassIndices (commit : CommitAddr) (ref : ClassStateRef) :
    Moves Indices.Keeps (updateClassIndices commit ref : IdxM τ Unit) := by
  unfold updateClassIndices
  cases ref.phase with
  | created => exact keeps_registerClass commit ref.entry
  | selected =>
      exact .ite (fun _ => .bind (keeps_checkClassEntry _) fun _ =>
        .bind (keeps_ensureInstIdxs _) fun _ => .forM fun i _ => keeps_registerInst commit _ i)
        fun _ => .pure _

/-- **An update gives out no address and no number.** -/
theorem keeps_updateIndices (commit : CommitAddr) (refs : List ClassStateRef) :
    Moves Indices.Keeps (updateIndices commit refs : IdxM τ Unit) :=
  .forM fun ref _ => keeps_updateClassIndices commit ref

end Keep

/-! ## (5) A failed update -/

/-- **The first registration is refused**: the very first write of the commit finds its name taken, no
tiny pages for its item, or no class to write to. -/
def Registration.Refused (idx : Indices τ) : Registration → Prop
  | .cls a => idx.classNameIdx.Taken (idx.classes a).name ∨ idx.pool.tinyPages < 2
  | .inst a i =>
      idx.classByName (idx.classes a).name = none ∨
        if i.name ≠ [] then (idx.classes a).body.nameDict.Taken i.name ∨ idx.pool.tinyPages < 2
        else (kndSharedSetAdd (idx.classes a).body.idSet i.id i).1 ≠ .ok ()

/-- Nothing of class `a` is left to load: it has a name index, or no instance in the snapshot. -/
def Indices.Loaded (idx : Indices τ) (a : ClassAddr) : Prop :=
  idx.hasNameIdx a = true ∨ ∀ name, idx.snapshotInsts a name = none

/-- **The registration hides nothing**: it is a class, or an instance of a class that is not found or has nothing
left to load. -/
def Registration.HidesNothing (idx : Indices τ) : Registration → Prop
  | .cls _ => True
  | .inst a _ => idx.classByName (idx.classes a).name = none ∨ idx.Loaded a

/-- The classes that have a name index once the registration has been refused. -/
def Registration.Publishes (idx : Indices τ) (b : ClassAddr) : Registration → Prop
  | .cls _ => False
  | .inst a _ => b = a ∧ idx.classByName (idx.classes a).name ≠ none

namespace Indices

/-- What `regs` registers is new: nothing of it can be reached yet. -/
structure Fresh (regs : List Registration) (idx : Indices τ) : Prop where
  /-- Classes by name. -/
  classes : ∀ a, .cls a ∈ regs → ∀ name, idx.classByName name ≠ some a
  /-- Instances by name. -/
  names : ∀ a i, .inst a i ∈ regs → ∀ name, idx.instByName a name ≠ some i
  /-- Instances by id. -/
  ids : ∀ a i, .inst a i ∈ regs → ∀ id, idx.instById a id ≠ some i

/-- Something that `regs` registers can be reached. -/
def Bound (regs : List Registration) (idx : Indices τ) : Prop :=
  (∃ a, .cls a ∈ regs ∧ ∃ name, idx.classByName name = some a) ∨
  ∃ a i, .inst a i ∈ regs ∧
    ((∃ name, idx.indexedInst a name = some i) ∨ ∃ id, idx.instById a id = some i)

/-- What has become reachable stays reachable, or makes room for something else that is registered. -/
theorem Grows.bound {regs : List Registration} {idx idx' : Indices τ} (h : idx.Grows regs idx')
    (hbound : idx.Bound regs) : idx'.Bound regs := by
  rcases hbound with ⟨a, ha, name, hname⟩ | ⟨a, i, hi, ⟨name, hname⟩ | ⟨id, hid⟩⟩
  · rcases h.classes name with heq | ⟨b, hb, hnew⟩
    · exact .inl ⟨a, ha, name, heq.trans hname⟩
    · exact .inl ⟨b, hb, name, hnew⟩
  · rcases h.names a name with heq | ⟨j, hj, hnew⟩
    · exact .inr ⟨a, i, hi, .inl ⟨name, heq.trans hname⟩⟩
    · exact .inr ⟨a, j, hj, .inl ⟨name, hnew⟩⟩
  · rcases h.ids a id with heq | ⟨j, hj, hnew⟩
    · exact .inr ⟨a, i, hi, .inr ⟨id, heq.trans hid⟩⟩
    · exact .inr ⟨a, j, hj, .inr ⟨id, hnew⟩⟩

/-- New entries that have become reachable are a change. -/
theorem Bound.not_sameContents {regs : List Registration} {idx idx' : Indices τ}
    (hbound : idx'.Bound regs) (hfresh : idx.Fresh regs) : ¬idx.SameContents idx' := by
  intro hsame
  rcases hbound with ⟨a, ha, name, hname⟩ | ⟨a, i, hi, ⟨name, hname⟩ | ⟨id, hid⟩⟩
  · exact hfresh.classes a ha name ((hsame.classes_eq name).symm.trans hname)
  · exact hfresh.names a i hi name ((hsame.names_eq a name).symm.trans (instByName_of_indexedInst hname))
  · exact hfresh.ids a i hi id ((hsame.ids_eq a id).symm.trans hid)

/-- **What a refused first registration leaves.** -/
structure RefusedAs (r : Registration) (idx idx' : Indices τ) : Prop where
  /-- The lookups in the indices. -/
  same : idx.SameIndexed idx'
  /-- The snapshot files. -/
  snapshots : idx'.snapshotInsts = idx.snapshotInsts
  /-- The name indices. -/
  nameIdxs : ∀ b, idx'.hasNameIdx b = true ↔ idx.hasNameIdx b = true ∨ r.Publishes idx b

/-- **A refused first registration changes what can be reached** exactly when it hides an instance: the new index
of the class is empty, and the snapshot file of the class is not read any more. -/
theorem RefusedAs.sameContents_iff {r : Registration} {idx idx' : Indices τ} (h : RefusedAs r idx idx') :
    idx.SameContents idx' ↔ r.HidesNothing idx := by
  constructor
  · intro hsame
    cases r with
    | cls a => trivial
    | inst a i =>
        by_cases hfound : idx.classByName (idx.classes a).name = none
        · exact .inl hfound
        by_cases hhas : idx.hasNameIdx a = true
        · exact .inr (.inl hhas)
        -- the class has got an empty name index
        refine .inr (.inr fun name => ?_)
        have hhas' : idx'.hasNameIdx a = true := (h.nameIdxs a).mpr (.inr ⟨rfl, hfound⟩)
        have hname := hsame.names_eq a name
        rw [instByName, instByName, if_pos hhas', if_neg hhas, h.same.names_eq,
          indexedInst_of_not_hasNameIdx (Bool.eq_false_iff.mpr hhas)] at hname
        exact hname.symm
  · intro hhides
    refine ⟨h.same.classes_eq, fun b name => ?_, h.same.ids_eq, h.same.texts_eq⟩
    rw [instByName, instByName, h.same.names_eq, h.snapshots]
    by_cases hhas : idx.hasNameIdx b = true
    · rw [if_pos hhas, if_pos ((h.nameIdxs b).mpr (.inl hhas))]
    · have hnone := indexedInst_of_not_hasNameIdx (Bool.eq_false_iff.mpr hhas) name
      by_cases hhas' : idx'.hasNameIdx b = true
      · -- the index is new, so there was nothing to load
        have hpub : r.Publishes idx b := ((h.nameIdxs b).mp hhas').resolve_left hhas
        rw [if_pos hhas', if_neg hhas, hnone]
        cases r with
        | cls a => exact hpub.elim
        | inst a i =>
            obtain ⟨rfl, hfound⟩ := hpub
            rcases hhides with hnot | hloaded | hsnapshot
            · exact absurd hnot hfound
            · exact absurd hloaded hhas
            · exact (hsnapshot name).symm
      · rw [if_neg hhas', if_neg hhas]

end Indices

section FirstRegistration

variable {regs : List Registration}

/-- A program that keeps what is reachable, run after a returning step that has made something
reachable. -/
private theorem bound_of_bind {x : IdxM τ Unit} {f : Unit → IdxM τ Unit} {idx idx₁ : Indices τ}
    (hx : x.run idx = .ok () idx₁) (hbound : idx₁.Bound regs)
    (hf : Moves (Indices.Grows regs) (f ())) : (finalState (x >>= f) idx).Bound regs := by
  have hfinal : finalState (x >>= f) idx = finalState (f ()) idx₁ := by
    rw [finalState, finalState, run_bind_of_ok hx]
  rw [hfinal]
  exact (hf idx₁).bound hbound

/-- A class that is not refused can be reached by its name. -/
theorem bound_registerClass {commit : CommitAddr} {a : ClassAddr} {idx : Indices τ}
    (ha : .cls a ∈ regs) (h : ¬Registration.Refused idx (.cls a)) :
    ∃ idx', (registerClass commit a).run idx = .ok () idx' ∧ idx'.Bound regs := by
  cases hrun : (registerClass commit a).run idx with
  | error e idx' => exact absurd (registerClass_fails_iff.mp ⟨e, idx', hrun⟩) h
  | ok u idx' =>
      obtain ⟨hclasses, -⟩ := registerClass_ok hrun
      refine ⟨idx', rfl, .inl ⟨a, ha, (idx.classes a).name, ?_⟩⟩
      rw [hclasses, if_pos rfl]

variable [AttrVarOps τ]

/-- An instance that is not refused can be reached by its name, or by its id when it has none. -/
theorem bound_registerInst {commit : CommitAddr} {a : ClassAddr} {inst : ClassInst}
    {idx : Indices τ} {c : Class} (ha : .inst a inst ∈ regs) (hcls : (idx.classes a).cls = some c)
    (hname : inst.name ≠ [] → ¬(c.nameDict.Taken inst.name ∨ idx.pool.tinyPages < 2))
    (hid : inst.name = [] → (kndSharedSetAdd c.idSet inst.id inst).1 = .ok ()) :
    (finalState (registerInst commit a inst) idx).Bound regs := by
  have hattrs : Moves (Indices.Grows regs)
      (if inst.attrs ≠ [] then indexAttrVars inst else pure () : IdxM τ Unit) :=
    .ite (fun _ => grows_indexAttrVars inst) fun _ => .pure _
  by_cases hempty : inst.name = []
  · -- an unnamed instance: its id is bound by the second step
    have hskip : registerInst commit a inst = (registerInstId a inst >>= fun _ =>
        if inst.attrs ≠ [] then indexAttrVars inst else pure () : IdxM τ Unit) := by
      rw [registerInst, if_neg fun h => h hempty, pure_bind]
    obtain ⟨-, -, hids, -⟩ := @registerInstId_finalState _ a inst _ _ hcls
    have hbound : (finalState (registerInstId a inst) idx).Bound regs := by
      refine .inr ⟨a, inst, ha, .inr ⟨inst.id, ?_⟩⟩
      rw [hids, if_pos ⟨rfl, rfl, hid hempty⟩]
    rw [hskip]
    cases hrun : (registerInstId a inst).run idx with
    | error e idx' => exact absurd (hid hempty) ((registerInstId_fails_iff hcls).mp ⟨e, idx', hrun⟩)
    | ok u idx' =>
        rw [finalState_of_ok hrun] at hbound
        exact bound_of_bind hrun hbound hattrs
  · -- a named instance: its name is bound by the first step, and the rest keeps it reachable
    have hstep : registerInst commit a inst = (registerInstName commit a inst >>= fun _ => do
        registerInstId a inst
        if inst.attrs ≠ [] then indexAttrVars inst else pure () : IdxM τ Unit) := by
      rw [registerInst, if_pos hempty]
    rw [hstep]
    cases hrun : (registerInstName commit a inst).run idx with
    | error e idx' =>
        exact absurd ((registerInstName_fails_iff hcls).mp ⟨e, idx', hrun⟩) (hname hempty)
    | ok u idx' =>
        obtain ⟨-, hnames, -⟩ := registerInstName_ok hrun
        refine bound_of_bind hrun (.inr ⟨a, inst, ha, .inl ⟨inst.name, ?_⟩⟩)
          (.bind (grows_registerInstId ha) fun _ => hattrs)
        rw [hnames, if_pos ⟨rfl, rfl⟩]

/-- The instances of a class: the first one that is not refused can be reached when the call ends. -/
theorem bound_kndClassInstUpdateIndices {commit : CommitAddr} {a : ClassAddr} {inst : ClassInst}
    {insts : List ClassInst} {idx : Indices τ} (hcls : (idx.classes a).cls ≠ none)
    (hmem : ∀ i ∈ inst :: insts, .inst a i ∈ regs)
    (h : ¬Registration.Refused idx (.inst a inst)) :
    (finalState (kndClassInstUpdateIndices commit a (inst :: insts)) idx).Bound regs := by
  obtain ⟨c, hc⟩ := Option.ne_none_iff_exists'.mp hcls
  rw [Registration.Refused, ClassEntry.body, hc, not_or] at h
  obtain ⟨hfound, hrefused⟩ := h
  have hcheck : (checkClassEntry a).run idx = .ok () idx := by
    rw [run_checkClassEntry, hc]
    cases hget : kndSharedDictGet idx.classNameIdx (idx.classes a).name with
    | none => exact absurd hget hfound
    | some b => rfl
  -- the indices of the class are there now, with the contents and the refusals they had
  set c' : Class := { c with instNameIdx := some c.nameDict, instIdx := some c.idSet } with hc'
  have hensure : (ensureInstIdxs a).run idx = .ok () (idx.setClass a c') := run_ensureInstIdxs hc
  have hclass : ((idx.setClass a c').classes a).cls = some c' := by
    rw [Indices.classes_setClass, if_pos rfl]
  have hfirst : (finalState (registerInst commit a inst) (idx.setClass a c')).Bound regs := by
    refine bound_registerInst (hmem inst (List.mem_cons_self ..)) hclass ?_ ?_
    · intro hname hbad
      exact hrefused (by rw [if_pos hname]; exact hbad)
    · intro hname
      by_contra hbad
      exact hrefused (by rw [if_neg fun h => h hname]; exact hbad)
  have hloop : finalState (kndClassInstUpdateIndices commit a (inst :: insts)) idx
      = finalState (registerInst commit a inst >>= fun _ => insts.forM (registerInst commit a))
          (idx.setClass a c') := by
    rw [finalState, finalState, kndClassInstUpdateIndices, run_bind_of_ok hcheck,
      run_bind_of_ok hensure]
    rfl
  rw [hloop]
  cases hrun : (registerInst commit a inst).run (idx.setClass a c') with
  | error e idx' =>
      rw [finalState_of_error hrun] at hfirst
      rw [finalState_of_error (run_bind_of_error hrun)]
      exact hfirst
  | ok u idx' =>
      rw [finalState_of_ok hrun] at hfirst
      exact bound_of_bind hrun hfirst
        (.forM fun i hi => grows_registerInst (hmem i (List.mem_cons_of_mem inst hi)))

/-- An instance whose first write is refused: the round fails and changes nothing. -/
theorem registerInst_refused {commit : CommitAddr} {a : ClassAddr} {inst : ClassInst}
    {idx : Indices τ} {c : Class} (hcls : (idx.classes a).cls = some c)
    (h : if inst.name ≠ [] then c.nameDict.Taken inst.name ∨ idx.pool.tinyPages < 2
      else (kndSharedSetAdd c.idSet inst.id inst).1 ≠ .ok ()) :
    ∃ e idx', (registerInst commit a inst).run idx = .error e idx' ∧ idx.SameIndexed idx' ∧
      idx'.snapshotInsts = idx.snapshotInsts ∧ ∀ b, idx'.hasNameIdx b = idx.hasNameIdx b := by
  by_cases hempty : inst.name = []
  · rw [if_neg fun h => h hempty] at h
    obtain ⟨e, idx', hrun⟩ := (registerInstId_fails_iff hcls).mpr h
    have hfinal := @run_registerInstId τ a inst idx c hcls
    rw [hrun] at hfinal
    refine ⟨e, idx', ?_, ?_, ?_⟩
    · rw [registerInst, if_neg fun h => h hempty, pure_bind]
      exact run_bind_of_error hrun
    · obtain ⟨hclasses, hnames, hids, htexts⟩ := @registerInstId_finalState _ a inst _ _ hcls
      rw [finalState_of_error hrun] at hclasses hnames hids htexts
      refine ⟨hclasses, hnames, fun b id => ?_, htexts⟩
      rw [hids, if_neg fun hb => h hb.2.2]
    · -- the body keeps its name index
      cases hadd : kndSharedSetAdd c.idSet inst.id inst with
      | mk rc set =>
          rw [hadd] at hfinal
          cases rc with
          | ok u => cases hfinal
          | error e' =>
              cases hfinal
              refine ⟨rfl, fun b => ?_⟩
              rw [Indices.hasNameIdx_setClass]
              by_cases hb : b = a
              · rw [if_pos hb, hb, Indices.hasNameIdx_of_cls hcls]
              · rw [if_neg hb]
  · rw [if_pos hempty] at h
    obtain ⟨e, idx', hrun⟩ := (registerInstName_fails_iff hcls).mpr h
    refine ⟨e, idx', ?_, registerInstName_error hrun, ?_⟩
    · rw [registerInst, if_pos hempty]
      exact run_bind_of_error hrun
    · rw [run_registerInstName hcls] at hrun
      split at hrun
      · cases hrun
        exact ⟨rfl, fun _ => rfl⟩
      · cases hrun

/-- An update of the instances of a class whose first write is refused. -/
theorem kndClassInstUpdateIndices_refused {commit : CommitAddr} {a : ClassAddr}
    {inst : ClassInst} {insts : List ClassInst} {idx : Indices τ}
    (h : Registration.Refused idx (.inst a inst)) :
    ∃ e idx', (kndClassInstUpdateIndices commit a (inst :: insts)).run idx = .error e idx' ∧
      (e ≠ .abort → Indices.RefusedAs (.inst a inst) idx idx') := by
  cases hcheck : (checkClassEntry a).run idx with
  | error e idx' =>
      refine ⟨e, idx', run_bind_of_error hcheck, fun habort => ?_⟩
      cases e with
      | err e =>
          obtain ⟨rfl, hnone⟩ := checkClassEntry_error hcheck
          exact ⟨.rfl' idx', rfl, fun b => ⟨.inl, fun h => h.resolve_right fun hpub => hpub.2 hnone⟩⟩
      | abort => exact absurd rfl habort
  | ok u idx' =>
      -- the class is there, so its first instance is the one that is refused
      obtain ⟨rfl, ⟨c, hc⟩, hfound⟩ := checkClassEntry_ok hcheck
      rcases h with hnone | hrefused
      · exact absurd hnone hfound
      · rw [ClassEntry.body, hc] at hrefused
        set c' : Class := { c with instNameIdx := some c.nameDict, instIdx := some c.idSet } with hc'
        have hensure : (ensureInstIdxs a).run idx' = .ok () (idx'.setClass a c') :=
          run_ensureInstIdxs hc
        have hclass : ((idx'.setClass a c').classes a).cls = some c' := by
          rw [Indices.classes_setClass, if_pos rfl]
        obtain ⟨e, idx₁, hrun, hsame, hsnapshots, hidxs⟩ :=
          @registerInst_refused _ _ commit a inst _ c' hclass hrefused
        refine ⟨e, idx₁, ?_, fun _ => ⟨(sameIndexed_ensureInstIdxs hensure).trans hsame, hsnapshots, fun b => ?_⟩⟩
        · rw [kndClassInstUpdateIndices, run_bind_of_ok hcheck, run_bind_of_ok hensure]
          exact run_bind_of_error hrun
        · rw [hidxs, Indices.hasNameIdx_setClass, Registration.Publishes]
          by_cases hb : b = a
          · simp [hb, hc', hfound]
          · simp [hb]

/-- A class state that registers nothing is skipped. -/
theorem updateClassIndices_of_nil {commit : CommitAddr} {ref : ClassStateRef}
    (h : ref.registrations = []) : (updateClassIndices commit ref : IdxM τ Unit) = pure () := by
  unfold updateClassIndices
  rw [ClassStateRef.registrations] at h
  cases hphase : ref.phase with
  | created =>
      rw [hphase] at h
      cases h
  | selected =>
      rw [hphase] at h
      have hchildren : ref.children = [] := List.map_eq_nil_iff.mp h
      exact if_neg fun hne => hne hchildren

/-- A class state whose first registration is refused fails. -/
theorem updateClassIndices_refused {commit : CommitAddr} {ref : ClassStateRef} {idx : Indices τ}
    {r : Registration} {rs : List Registration} (hr : ref.registrations = r :: rs)
    (h : r.Refused idx) :
    ∃ e idx', (updateClassIndices commit ref).run idx = .error e idx' ∧
      (e ≠ .abort → Indices.RefusedAs r idx idx') := by
  unfold updateClassIndices
  rw [ClassStateRef.registrations] at hr
  cases hphase : ref.phase with
  | created =>
      rw [hphase] at hr
      cases hr
      obtain ⟨e, idx', hrun⟩ := (@registerClass_fails_iff _ commit _ _).mpr h
      have hpool : ∃ pool, idx' = idx.setPool pool := by
        rw [run_registerClass] at hrun
        split at hrun
        · cases hrun
          exact ⟨_, rfl⟩
        · cases hrun
      obtain ⟨pool, rfl⟩ := hpool
      exact ⟨e, _, hrun, fun _ =>
        ⟨registerClass_error hrun, rfl, fun _ => ⟨.inl, fun h => h.resolve_right id⟩⟩⟩
  | selected =>
      rw [hphase] at hr
      obtain ⟨i, is, hchildren, rfl, -⟩ := List.map_eq_cons_iff.mp hr
      simp only [hchildren, ne_eq, reduceCtorEq, not_false_eq_true, if_true]
      exact kndClassInstUpdateIndices_refused h

/-- A class state whose first registration is not refused leaves something new behind, unless the
class has no body and the call aborts. -/
theorem updateClassIndices_not_refused {commit : CommitAddr} {ref : ClassStateRef}
    {idx : Indices τ} {r : Registration} {rs : List Registration}
    (hr : ref.registrations = r :: rs) (hmem : ∀ r ∈ ref.registrations, r ∈ regs)
    (h : ¬r.Refused idx) :
    (finalState (updateClassIndices commit ref) idx).Bound regs ∨
      (updateClassIndices commit ref).run idx = .error .abort idx := by
  unfold updateClassIndices
  rw [ClassStateRef.registrations] at hr hmem
  cases hphase : ref.phase with
  | created =>
      rw [hphase] at hr hmem
      cases hr
      obtain ⟨idx', hrun, hbound⟩ :=
        @bound_registerClass _ _ commit _ _ (hmem _ (List.mem_singleton_self _)) h
      rw [finalState_of_ok hrun]
      exact .inl hbound
  | selected =>
      rw [hphase] at hr hmem
      obtain ⟨i, is, hchildren, rfl, -⟩ := List.map_eq_cons_iff.mp hr
      simp only [hchildren, ne_eq, reduceCtorEq, not_false_eq_true, if_true]
      have hmem' : ∀ j ∈ i :: is, .inst ref.entry j ∈ regs := fun j hj =>
        hmem _ (List.mem_map_of_mem (by rw [hchildren]; exact hj))
      by_cases hcls : (idx.classes ref.entry).cls = none
      · refine .inr (run_bind_of_error ?_)
        rw [run_checkClassEntry, hcls]
      · exact .inl (bound_kndClassInstUpdateIndices hcls hmem' h)

/-- A commit that registers nothing. -/
theorem updateIndices_of_nil {commit : CommitAddr} {refs : List ClassStateRef}
    (h : registrations refs = []) (idx : Indices τ) :
    (updateIndices commit refs).run idx = .ok () idx := by
  induction refs with
  | nil => rfl
  | cons ref refs ih =>
      rw [registrations_cons, List.append_eq_nil_iff] at h
      have hskip : (updateClassIndices commit ref).run idx = .ok () idx := by
        rw [updateClassIndices_of_nil h.1]
        rfl
      exact (run_bind_of_ok hskip).trans (ih h.2)

/-- A commit whose first registration is refused fails. -/
theorem updateIndices_refused {c : CommitAddr} {refs : List ClassStateRef} {idx : Indices τ}
    {r : Registration} {rs : List Registration} (hr : registrations refs = r :: rs)
    (h : r.Refused idx) :
    ∃ e idx', (updateIndices c refs).run idx = .error e idx' ∧
      (e ≠ .abort → Indices.RefusedAs r idx idx') := by
  induction refs with
  | nil => cases hr
  | cons ref refs ih =>
      rw [registrations_cons] at hr
      cases href : ref.registrations with
      | nil =>
          -- class states without registrations come first: the refused one is further on
          rw [href, List.nil_append] at hr
          obtain ⟨e, idx', hrun, hleft⟩ := ih hr
          have hskip : (updateClassIndices c ref).run idx = .ok () idx := by
            rw [updateClassIndices_of_nil href]
            rfl
          exact ⟨e, idx', (run_bind_of_ok hskip).trans hrun, hleft⟩
      | cons r₁ rs₁ =>
          rw [href, List.cons_append, List.cons.injEq] at hr
          obtain ⟨e, idx', hrun, hleft⟩ :=
            @updateClassIndices_refused _ _ c ref idx r rs₁ (by rw [href, hr.1]) h
          exact ⟨e, idx', run_bind_of_error hrun, hr.1 ▸ hleft⟩

/-- A commit whose first registration is not refused leaves something new behind, unless it aborts. -/
theorem updateIndices_not_refused {c : CommitAddr} {refs : List ClassStateRef}
    {idx : Indices τ} {r : Registration} {rs : List Registration}
    (hr : registrations refs = r :: rs) (hmem : ∀ r ∈ registrations refs, r ∈ regs)
    (h : ¬r.Refused idx) :
    (finalState (updateIndices c refs) idx).Bound regs ∨
      (updateIndices c refs).run idx = .error .abort idx := by
  induction refs with
  | nil => cases hr
  | cons ref refs ih =>
      rw [registrations_cons] at hr hmem
      cases href : ref.registrations with
      | nil =>
          rw [href, List.nil_append] at hr hmem
          have hskip : (updateClassIndices c ref).run idx = .ok () idx := by
            rw [updateClassIndices_of_nil href]
            rfl
          have hrest : (updateIndices c (ref :: refs)).run idx
              = (updateIndices c refs).run idx := run_bind_of_ok hskip
          rw [finalState, hrest]
          exact ih hr hmem
      | cons r₁ rs₁ =>
          rw [href, List.cons_append, List.cons.injEq] at hr
          have hmem₁ : ∀ r ∈ ref.registrations, r ∈ regs := fun r hr =>
            hmem r (List.mem_append_left _ hr)
          have hmem₂ : ∀ r ∈ registrations refs, r ∈ regs := fun r hr =>
            hmem r (List.mem_append_right _ hr)
          have hfirst := @updateClassIndices_not_refused _ regs _ c ref idx r rs₁
            (by rw [href, hr.1]) hmem₁ h
          rcases hfirst with hbound | habort
          · cases hrun : (updateClassIndices c ref).run idx with
            | ok u idx' =>
                rw [finalState_of_ok hrun] at hbound
                exact .inl (bound_of_bind hrun hbound (grows_updateIndices hmem₂))
            | error e idx' =>
                have hstop : (updateIndices c (ref :: refs)).run idx = .error e idx' :=
                  run_bind_of_error hrun
                rw [finalState_of_error hrun] at hbound
                rw [finalState_of_error hstop]
                exact .inl hbound
          · exact .inr (run_bind_of_error habort)

/-- **A failed update of the indices has changed nothing exactly when the first registration of the
commit was refused** and hides nothing. -/
theorem updateIndices_error_iff {commit : CommitAddr} {refs : List ClassStateRef}
    {idx idx' : Indices τ} {e : KndErr} (hfresh : idx.Fresh (registrations refs))
    (h : (updateIndices commit refs).run idx = .error (.err e) idx') :
    idx.SameContents idx' ↔
      ∃ r, (registrations refs).head? = some r ∧ r.Refused idx ∧ r.HidesNothing idx := by
  cases hregs : registrations refs with
  | nil =>
      rw [updateIndices_of_nil hregs] at h
      cases h
  | cons r rs =>
      by_cases hr : r.Refused idx
      · obtain ⟨e', idx₁, hrun, hleft⟩ := @updateIndices_refused _ _ commit refs idx r rs hregs hr
        rw [h] at hrun
        cases hrun
        rw [(hleft fun habort => by cases habort).sameContents_iff]
        simp [hr]
      · constructor
        · intro hsame
          rcases updateIndices_not_refused hregs (fun r hr => hr) hr with hbound | habort
          · rw [finalState_of_error h] at hbound
            exact absurd hsame (hbound.not_sameContents hfresh)
          · rw [habort] at h
            cases h
        · rintro ⟨r', hr', hrefused, -⟩
          cases hr'
          exact absurd hrefused hr

end FirstRegistration

end Knowdy
