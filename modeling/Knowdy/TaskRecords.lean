import Knowdy.CommitFrames
import Knowdy.Registering
import Mathlib.Data.List.Forall2

/-! # What the clauses of a task make of its commit

The clauses of a task build the class states of its commit, in a live task as in the replay of a record.

* `TaskItem.created`, `TaskItem.selected`, `TaskItem.insts` — the classes and instances that a clause names;
  `ListsOnce`.
* `Indices.Parses`, `Parsing` — what the clauses leave alone however they end; `parses_body`.
* `Drafted` — **what returning clauses have made**: the class states and the instances; `drafted_body`.
* `Indices.Ready` — what a clause needs to return; `returns_body`. -/

namespace Knowdy

variable {τ : Type}

/-! ## (1) Bodies -/

/-- The class that a clause creates. -/
def TaskItem.created : TaskItem → List Name
  | .importClass name _ => [name]
  | .selectClass _ _ => []

/-- The class that a clause selects. -/
def TaskItem.selected : TaskItem → List Name
  | .importClass _ _ => []
  | .selectClass name _ => [name]

/-- The instances of a clause, each with the name of its class. -/
def TaskItem.insts : TaskItem → List (Name × InstText)
  | .importClass _ _ => []
  | .selectClass name texts => texts.map fun text => (name, text)

/-- The classes that a body creates. -/
def createdNames (body : List TaskItem) : List Name := body.flatMap TaskItem.created

/-- The classes that a body selects. -/
def selectedNames (body : List TaskItem) : List Name := body.flatMap TaskItem.selected

/-- The instances of a body. -/
def bodyInsts (body : List TaskItem) : List (Name × InstText) := body.flatMap TaskItem.insts

/-- The name that the instance of a text gets. -/
def InstText.finalName (self : InstText) : Name := if self.name = [95] then self.random else self.name

/-- What the instances of a body come to: of each the name of its class, its own name and its attributes. -/
def instEffects (body : List TaskItem) : List (Name × Name × List Name) :=
  (bodyInsts body).map fun p => (p.1, p.2.finalName, p.2.attrs)

/-- The tiny pages that an instance takes in the name index of its class. -/
def InstText.pages (self : InstText) : Nat := if self.name = [] then 0 else 2

/-- The tiny pages that a clause takes in the name indices. -/
def TaskItem.pages : TaskItem → Nat
  | .importClass _ _ => 2
  | .selectClass _ texts => (texts.map InstText.pages).sum

/-- **The body lists no instance under two classes**: it has no instances, or selects one class only. -/
def ListsOnce (body : List TaskItem) : Prop := bodyInsts body = [] ∨ (selectedNames body).length ≤ 1

theorem createdNames_append (body body' : List TaskItem) :
    createdNames (body ++ body') = createdNames body ++ createdNames body' := List.flatMap_append

theorem selectedNames_append (body body' : List TaskItem) :
    selectedNames (body ++ body') = selectedNames body ++ selectedNames body' := List.flatMap_append

theorem bodyInsts_append (body body' : List TaskItem) :
    bodyInsts (body ++ body') = bodyInsts body ++ bodyInsts body' := List.flatMap_append

@[simp] theorem createdNames_singleton (item : TaskItem) : createdNames [item] = item.created :=
  List.append_nil _

@[simp] theorem selectedNames_singleton (item : TaskItem) : selectedNames [item] = item.selected :=
  List.append_nil _

@[simp] theorem bodyInsts_singleton (item : TaskItem) : bodyInsts [item] = item.insts :=
  List.append_nil _

/-- Without a selection there are no instances. -/
theorem bodyInsts_eq_nil {body : List TaskItem} (h : selectedNames body = []) : bodyInsts body = [] := by
  rw [bodyInsts, List.flatMap_eq_nil_iff]
  rw [selectedNames, List.flatMap_eq_nil_iff] at h
  intro item hitem
  cases item with
  | importClass name clauses => rfl
  | selectClass name texts => cases h _ hitem

/-- The first part of a body that lists its instances once. -/
theorem ListsOnce.of_append {body body' : List TaskItem} (h : ListsOnce (body ++ body')) : ListsOnce body := by
  rcases h with h | h
  · rw [bodyInsts_append] at h
    exact .inl (List.append_eq_nil_iff.mp h).1
  · rw [selectedNames_append, List.length_append] at h
    exact .inr (by omega)

/-- The instances before the last selection of a body that lists them once. -/
theorem ListsOnce.before_select {body : List TaskItem} {name : Name} {texts : List InstText}
    (h : ListsOnce (body ++ [.selectClass name texts])) : bodyInsts body = [] := by
  rcases h with h | h
  · rw [bodyInsts_append] at h
    exact (List.append_eq_nil_iff.mp h).1
  · rw [selectedNames_append, List.length_append, selectedNames_singleton] at h
    refine bodyInsts_eq_nil (List.eq_nil_of_length_eq_zero ?_)
    have hone : (TaskItem.selectClass name texts).selected.length = 1 := rfl
    omega

/-! ## (2) What the clauses leave alone -/

/-- **What the clauses leave alone in the indices**: all lookups, and of the classes that are there the names, the
bodies and their indices; the numbers of the instances only grow. -/
structure Indices.Parses (idx idx' : Indices τ) : Prop where
  /-- All but the class entries. -/
  rest : idx'.classNameIdx = idx.classNameIdx ∧ idx'.stored = idx.stored ∧ idx'.texts = idx.texts ∧
    idx'.pool = idx.pool
  /-- No address becomes free. -/
  next : idx.nextClass ≤ idx'.nextClass
  /-- The names. -/
  names : ∀ a < idx.nextClass, (idx'.classes a).name = (idx.classes a).name
  /-- No body goes. -/
  isSome : ∀ a < idx.nextClass, (idx.classes a).cls.isSome = true → (idx'.classes a).cls.isSome = true
  /-- The indices of the bodies. -/
  idxs : ∀ a < idx.nextClass, (idx'.classes a).body.instNameIdx = (idx.classes a).body.instNameIdx ∧
    (idx'.classes a).body.instIdx = (idx.classes a).body.instIdx
  /-- The numbers. -/
  counts : ∀ a < idx.nextClass, (idx.classes a).body.instIdCount ≤ (idx'.classes a).body.instIdCount
  /-- The clauses. -/
  clauses : ∀ a < idx.nextClass, (idx'.classes a).body.clauses = (idx.classes a).body.clauses
  /-- New bodies have no indices. -/
  fresh : ∀ a, idx.nextClass ≤ a → ((idx'.classes a).body.instNameIdx = (idx.classes a).body.instNameIdx ∧
    (idx'.classes a).body.instIdx = (idx.classes a).body.instIdx) ∨
    (idx'.classes a).body.instNameIdx = none ∧ (idx'.classes a).body.instIdx = none

instance : IsPreorder (Indices τ) Indices.Parses where
  refl _ := ⟨⟨rfl, rfl, rfl, rfl⟩, le_rfl, fun _ _ => rfl, fun _ _ => id, fun _ _ => ⟨rfl, rfl⟩, fun _ _ => le_rfl,
    fun _ _ => rfl, fun _ _ => .inl ⟨rfl, rfl⟩⟩
  trans idx₁ idx₂ idx₃ h h' := by
    obtain ⟨h₁, h₂, h₃, h₄⟩ := h.rest
    obtain ⟨h₁', h₂', h₃', h₄'⟩ := h'.rest
    have hlt : ∀ a < idx₁.nextClass, a < idx₂.nextClass := fun a ha => lt_of_lt_of_le ha h.next
    refine ⟨⟨h₁'.trans h₁, h₂'.trans h₂, h₃'.trans h₃, h₄'.trans h₄⟩, h.next.trans h'.next,
      fun a ha => (h'.names a (hlt a ha)).trans (h.names a ha),
      fun a ha hs => h'.isSome a (hlt a ha) (h.isSome a ha hs), fun a ha => ⟨?_, ?_⟩,
      fun a ha => (h.counts a ha).trans (h'.counts a (hlt a ha)),
      fun a ha => (h'.clauses a (hlt a ha)).trans (h.clauses a ha), fun a ha => ?_⟩
    · exact (h'.idxs a (hlt a ha)).1.trans (h.idxs a ha).1
    · exact (h'.idxs a (hlt a ha)).2.trans (h.idxs a ha).2
    · have hkept : ((idx₃.classes a).body.instNameIdx = (idx₂.classes a).body.instNameIdx ∧
          (idx₃.classes a).body.instIdx = (idx₂.classes a).body.instIdx) ∨
          (idx₃.classes a).body.instNameIdx = none ∧ (idx₃.classes a).body.instIdx = none := by
        by_cases hnew : a < idx₂.nextClass
        · exact .inl (h'.idxs a hnew)
        · exact h'.fresh a (Nat.le_of_not_lt hnew)
      rcases hkept with hkept | hnone
      · rw [hkept.1, hkept.2]
        exact h.fresh a ha
      · exact .inr hnone

namespace Indices

/-- Replacing a body by one with the same indices and clauses and no smaller numbers. -/
theorem parses_setClass {idx : Indices τ} {a : ClassAddr} {c : Class}
    (hname : c.instNameIdx = (idx.classes a).body.instNameIdx) (hid : c.instIdx = (idx.classes a).body.instIdx)
    (hcount : (idx.classes a).body.instIdCount ≤ c.instIdCount)
    (hclauses : c.clauses = (idx.classes a).body.clauses) : idx.Parses (idx.setClass a c) := by
  -- the entry of `a` gets the body `c`, the others are as they were
  refine ⟨⟨rfl, rfl, rfl, rfl⟩, le_rfl, fun b _ => ?_, fun b _ hs => ?_, fun b _ => ?_, fun b _ => ?_,
    fun b _ => ?_, fun b _ => .inl ?_⟩
  · rw [classes_setClass]
    split
    · rename_i hb
      rw [hb]
    · rfl
  · rw [classes_setClass]
    split
    · rfl
    · exact hs
  · rw [classes_setClass]
    split
    · rename_i hb
      rw [hb]
      exact ⟨hname, hid⟩
    · exact ⟨rfl, rfl⟩
  · rw [classes_setClass]
    split
    · rename_i hb
      rw [hb]
      exact hcount
    · exact le_rfl
  · rw [classes_setClass]
    split
    · rename_i hb
      rw [hb]
      exact hclauses
    · rfl
  · rw [classes_setClass]
    split
    · rename_i hb
      rw [hb]
      exact ⟨hname, hid⟩
    · exact ⟨rfl, rfl⟩

/-- A new class. -/
def addClass (self : Indices τ) (name : Name) (clauses : List Name) : Indices τ :=
  { self.setEntry self.nextClass { name, cls := some { clauses } } with nextClass := self.nextClass + 1 }

theorem classes_addClass (idx : Indices τ) (name : Name) (clauses : List Name) (b : ClassAddr) :
    (idx.addClass name clauses).classes b
      = if b = idx.nextClass then { name, cls := some { clauses } } else idx.classes b :=
  classes_setEntry _ _ _ _

theorem classes_addClass_of_lt {idx : Indices τ} (name : Name) (clauses : List Name) {b : ClassAddr}
    (hb : b < idx.nextClass) : (idx.addClass name clauses).classes b = idx.classes b := by
  rw [classes_addClass, if_neg (Nat.ne_of_lt hb)]

theorem parses_addClass (idx : Indices τ) (name : Name) (clauses : List Name) :
    idx.Parses (idx.addClass name clauses) := by
  refine ⟨⟨rfl, rfl, rfl, rfl⟩, Nat.le_succ _, fun b hb => ?_, fun b hb => ?_, fun b hb => ?_, fun b hb => ?_,
    fun b hb => ?_, fun b hb => ?_⟩
  · rw [classes_addClass_of_lt name clauses hb]
  · rw [classes_addClass_of_lt name clauses hb]
    exact id
  · rw [classes_addClass_of_lt name clauses hb]
    exact ⟨rfl, rfl⟩
  · rw [classes_addClass_of_lt name clauses hb]
  · rw [classes_addClass_of_lt name clauses hb]
  · rw [classes_addClass]
    by_cases hnew : b = idx.nextClass
    · rw [if_pos hnew]
      exact .inr ⟨rfl, rfl⟩
    · rw [if_neg hnew]
      exact .inl ⟨rfl, rfl⟩

/-- A class has numbered another instance. -/
def countInst (self : Indices τ) (a : ClassAddr) (c : Class) : Indices τ :=
  { self.setClass a { c with instIdCount := c.instIdCount + 1 } with nextInst := self.nextInst + 1 }

theorem classes_countInst (idx : Indices τ) (a : ClassAddr) (c : Class) (b : ClassAddr) :
    (idx.countInst a c).classes b
      = if b = a then { idx.classes a with cls := some { c with instIdCount := c.instIdCount + 1 } }
        else idx.classes b := classes_setClass _ _ _ _

theorem parses_countInst {idx : Indices τ} {a : ClassAddr} {c : Class} (h : (idx.classes a).cls = some c) :
    idx.Parses (idx.countInst a c) := by
  have hbody : (idx.classes a).body = c := by rw [ClassEntry.body, h]; rfl
  have hset := @parses_setClass _ idx a { c with instIdCount := c.instIdCount + 1 } (by rw [hbody]) (by rw [hbody])
    (by rw [hbody]; exact Nat.le_succ _) (by rw [hbody])
  exact ⟨hset.rest, hset.next, hset.names, hset.isSome, hset.idxs, hset.counts, hset.clauses, hset.fresh⟩

end Indices

theorem parses_kndClassAcquire (a : ClassAddr) : Moves Indices.Parses (kndClassAcquire a : IdxM τ Unit) := by
  intro idx
  rw [finalState, run_kndClassAcquire]
  cases hcls : (idx.classes a).cls with
  | some c => exact refl_of Indices.Parses idx
  | none =>
      have hbody : (idx.classes a).body = {} := by rw [ClassEntry.body, hcls]; rfl
      by_cases hstored : idx.stored a = true
      · simp only [hstored, if_true]
        exact Indices.parses_setClass (by rw [hbody]) (by rw [hbody]) (by rw [hbody]) (by rw [hbody])
      · simp only [hstored, if_false, Bool.false_eq_true]
        exact refl_of Indices.Parses idx

/-- **What the clauses leave alone**: the lookups, the snapshot, the repository and who the task is. -/
structure Parsing (s s' : Sys τ) : Prop where
  /-- The indices. -/
  idx : s.idx.Parses s'.idx
  /-- The snapshot. -/
  snapshot : s'.snapshot = s.snapshot
  /-- The repository. -/
  name : s'.name = s.name
  /-- The task. -/
  role : s'.task.role = s.task.role

instance : IsPreorder (Sys τ) Parsing where
  refl s := ⟨refl_of Indices.Parses s.idx, rfl, rfl, rfl⟩
  trans _ _ _ h h' := ⟨trans_of Indices.Parses h.idx h'.idx, h'.snapshot.trans h.snapshot, h'.name.trans h.name,
    h'.role.trans h.role⟩

/-- The same in a repository that was not opened by a READER. -/
def ParsingLive (s s' : Sys τ) : Prop := s.snapshot.role ≠ .reader → Parsing s s'

instance : IsPreorder (Sys τ) ParsingLive where
  refl s _ := refl_of Parsing s
  trans _ _ _ h h' hrole := by
    have h₁ := h hrole
    exact trans_of Parsing h₁ (h' (by rw [h₁.snapshot]; exact hrole))

theorem parsing_modifyTask {f : Task → Task} (hrole : ∀ t, (f t).role = t.role) :
    Moves ParsingLive (modifyTask f : SysM τ Unit) :=
  fun s _ => ⟨refl_of Indices.Parses s.idx, rfl, rfl, hrole _⟩

theorem parsing_onIdx {α : Type} {x : IdxM τ α} (hx : Moves Indices.Parses x) :
    Moves ParsingLive (onIdx x) := by
  intro s _
  rw [onIdx, finalState_zoom]
  exact ⟨hx s.idx, rfl, rfl, rfl⟩

theorem parsing_kndCommitNew (home : Option Nat) : Moves ParsingLive (kndCommitNew home : SysM τ Unit) :=
  fun s _ => ⟨refl_of Indices.Parses s.idx, rfl, rfl, rfl⟩

theorem parsing_kndClassCommitState (a : ClassAddr) (phase : ClassPhase) :
    Moves ParsingLive (kndClassCommitState a phase : SysM τ Unit) := by
  refine .bind .get fun s => ?_
  cases s.task.commit with
  | none => exact .throw _
  | some c => exact .modify fun s _ => ⟨refl_of Indices.Parses s.idx, rfl, rfl, rfl⟩

theorem parsing_parseClassImport (name : Name) (clauses : List Name) :
    Moves ParsingLive (parseClassImport name clauses : SysM τ Unit) := by
  have hrepo : Moves ParsingLive (checkRepoClassName name : SysM τ Unit) := by
    refine .bind .get fun s => ?_
    cases s.idx.classByName name with
    | none => exact .pure _
    | some a =>
        exact .ite (fun _ => .bind (parsing_onIdx (parses_kndClassAcquire a)) fun _ => .throw _) fun _ => .pure _
  have htask : Moves ParsingLive (checkTaskClassName name : SysM τ Unit) :=
    .bind .get fun _ => .ite (fun _ => .throw _) fun _ => parsing_modifyTask fun _ => rfl
  have hnew : Moves ParsingLive (kndClassNew name clauses : SysM τ ClassAddr) :=
    fun s _ => ⟨s.idx.parses_addClass name clauses, rfl, rfl, rfl⟩
  exact .bind (parsing_modifyTask fun _ => rfl) fun _ => .bind .get fun _ =>
    .bind (.ite (fun _ => parsing_kndCommitNew _) fun _ => .pure _) fun _ =>
      .ite (fun _ => .throw _) fun _ => .bind hrepo fun _ => .bind htask fun _ => .bind hnew fun a =>
        parsing_kndClassCommitState a .created

theorem parsing_kndImportClassInst (a : ClassAddr) (text : InstText) :
    Moves ParsingLive (kndImportClassInst a text : SysM τ ClassInst) := by
  have hnew : Moves ParsingLive (kndClassInstNew a text : SysM τ ClassInst) := by
    intro s _
    simp only [finalState, EStateM.run]
    unfold kndClassInstNew
    cases hcls : (s.idx.classes a).cls with
    | none => exact refl_of Parsing s
    | some c =>
        simp only []
        cases setInstName c text with
        | error e => exact refl_of Parsing s
        | ok name => exact ⟨Indices.parses_countInst hcls, rfl, rfl, rfl⟩
  exact .bind (parsing_modifyTask fun _ => rfl) fun _ => .bind hnew fun _ =>
    .bind (parsing_modifyTask fun _ => rfl) fun _ => .pure _

theorem parsing_parseImportClassInst (restore : SysM τ Unit) (a : ClassAddr) (text : InstText) :
    Moves ParsingLive (parseImportClassInst restore a text : SysM τ ClassInst) := by
  have hreader : Moves ParsingLive (restoreReader restore : SysM τ Unit) := by
    intro s hrole
    rw [finalState_of_ok (restoreReader_of_ne restore hrole)]
    exact refl_of Parsing s
  exact .bind .get fun _ => .bind (parsing_onIdx (parses_kndClassAcquire a)) fun _ => .bind hreader fun _ =>
    .bind .get fun _ => .bind (.ite (fun _ => parsing_kndCommitNew _) fun _ => .pure _) fun _ =>
      parsing_kndImportClassInst a text

theorem parsing_importInsts (restore : SysM τ Unit) (a : ClassAddr) (texts : List InstText) :
    Moves ParsingLive (importInsts restore a texts : SysM τ (List ClassInst)) := by
  induction texts with
  | nil => exact .pure _
  | cons text texts ih =>
      exact .bind (parsing_parseImportClassInst restore a text) fun _ => .bind ih fun _ => .pure _

theorem parsing_parseItem (restore : SysM τ Unit) (item : TaskItem) :
    Moves ParsingLive (parseItem restore item : SysM τ Unit) := by
  cases item with
  | importClass name clauses => exact parsing_parseClassImport name clauses
  | selectClass name texts =>
      have hget : Moves ParsingLive (runGetClass name : SysM τ ClassAddr) := by
        refine .ite (fun _ => .throw _) fun _ => .ite (fun _ => .pure _) fun _ => .bind .get fun s => ?_
        cases s.idx.classByName name with
        | none => exact .throw _
        | some a => exact .bind (parsing_onIdx (parses_kndClassAcquire a)) fun _ => .pure _
      have hcommit : ∀ a, Moves ParsingLive (commitSelection a : SysM τ Unit) := by
        intro a
        refine .bind .get fun s => ?_
        cases s.task.type with
        | restore => exact parsing_kndClassCommitState a .selected
        | commit => exact parsing_kndClassCommitState a .selected
        | get => exact .pure _
        | snapshot => exact .pure _
      exact .bind (.bind hget fun a => .bind (parsing_importInsts restore a texts) fun _ =>
        .bind (hcommit a) fun _ => .pure _) fun _ => .pure _

/-- **The clauses of a task**, however they end. -/
theorem parsing_body (restore : SysM τ Unit) (body : List TaskItem) :
    Moves ParsingLive (body.forM (parseItem restore) : SysM τ Unit) :=
  .forM fun item _ => parsing_parseItem restore item

/-! ## (3) One clause that returns -/

namespace Indices

/-- The class that `run_get_class` finds under a name. -/
def Selects (idx : Indices τ) (name : Name) (a : ClassAddr) : Prop :=
  name = [47] ∧ a = rootClass ∨ name ≠ [47] ∧ idx.classByName name = some a

/-- **The classes can be found by their names**, and have bodies; the root class is not in the name index. -/
structure Named (idx : Indices τ) : Prop where
  /-- The classes in the name index. -/
  found : ∀ name a, idx.classByName name = some a →
    a < idx.nextClass ∧ (idx.classes a).name = name ∧ (idx.classes a).cls.isSome = true
  /-- The root class. -/
  root : rootClass < idx.nextClass ∧ (idx.classes rootClass).name = [47] ∧
    (idx.classes rootClass).cls.isSome = true
  /-- It is no class of the name index. -/
  unbound : idx.classByName [47] = none

theorem Named.selects {idx : Indices τ} (h : idx.Named) {name : Name} {a : ClassAddr} (hs : idx.Selects name a) :
    a < idx.nextClass ∧ (idx.classes a).name = name ∧ (idx.classes a).cls.isSome = true := by
  rcases hs with ⟨rfl, rfl⟩ | ⟨-, hfound⟩
  · exact h.root
  · exact h.found name a hfound

theorem Parses.classByName_eq {idx idx' : Indices τ} (h : idx.Parses idx') (name : Name) :
    idx'.classByName name = idx.classByName name := by
  rw [classByName, classByName, h.rest.1]

theorem Parses.selects_iff {idx idx' : Indices τ} (h : idx.Parses idx') {name : Name} {a : ClassAddr} :
    idx'.Selects name a ↔ idx.Selects name a := by
  rw [Selects, Selects, h.classByName_eq]

theorem Parses.named {idx idx' : Indices τ} (h : idx.Parses idx') (hn : idx.Named) : idx'.Named where
  found name a ha := by
    rw [h.classByName_eq] at ha
    obtain ⟨hlt, hname, hcls⟩ := hn.found name a ha
    exact ⟨lt_of_lt_of_le hlt h.next, (h.names a hlt).trans hname, h.isSome a hlt hcls⟩
  root := by
    obtain ⟨hlt, hname, hcls⟩ := hn.root
    exact ⟨lt_of_lt_of_le hlt h.next, (h.names _ hlt).trans hname, h.isSome _ hlt hcls⟩
  unbound := by
    rw [h.classByName_eq]
    exact hn.unbound

end Indices

/-- The class states of the commit of the task. -/
def Sys.refs (self : Sys τ) : List ClassStateRef :=
  match self.task.commit with
  | none => []
  | some c => (self.ledger.commits c).classStateRefs

theorem Sys.refs_of_commit {s : Sys τ} {c : CommitAddr} (h : s.task.commit = some c) :
    s.refs = (s.ledger.commits c).classStateRefs := by
  rw [refs, h]

/-- The body of the record of the commit of the task. -/
def Sys.record (self : Sys τ) : List TaskItem := self.refs.map (exportClassState self.idx)

/-- A new commit has no class states. -/
theorem refs_kndCommitNew (home : Option Nat) (s : Sys τ) : (finalState (kndCommitNew home) s).refs = [] := by
  show (Function.update s.ledger.commits s.ledger.nextCommit { home } s.ledger.nextCommit).classStateRefs = []
  rw [Function.update_self]

theorem kndClassCommitState_ok {a : ClassAddr} {phase : ClassPhase} {s s' : Sys τ}
    (h : (kndClassCommitState a phase).run s = .ok () s') :
    s'.idx = s.idx ∧ s'.task = s.task ∧
      s'.refs = ⟨a, phase, if phase = .selected then s.task.classInstStateRefs else []⟩ :: s.refs := by
  rw [run_kndClassCommitState] at h
  cases hcommit : s.task.commit with
  | none =>
      rw [hcommit] at h
      cases h
  | some c =>
      rw [hcommit] at h
      cases h
      refine ⟨rfl, rfl, ?_⟩
      rw [Sys.refs_of_commit hcommit, Sys.refs_of_commit (by exact hcommit)]
      show (Function.update s.ledger.commits c _ c).classStateRefs = _
      rw [Function.update_self]

/-- **A class import that returns.** -/
structure MakesClass (name : Name) (clauses : List Name) (s s' : Sys τ) : Prop where
  /-- There is a name. -/
  nonempty : name ≠ []
  /-- No class of this name has a body. -/
  free : ∀ a, s.idx.classByName name = some a → (s.idx.classes a).cls = none
  /-- The task has not imported it before. -/
  unseen : name ∉ s.task.classNameIdx
  /-- The indices. -/
  idx : s'.idx = s.idx.addClass name clauses
  /-- The lists of the task. -/
  lists : s'.task.classNameIdx = name :: s.task.classNameIdx ∧
    s'.task.classInstStateRefs = s.task.classInstStateRefs
  /-- The commit. -/
  refs : s'.refs = ⟨s.idx.nextClass, .created, []⟩ :: s.refs

theorem checkRepoClassName_ok {name : Name} {s s' : Sys τ} (h : (checkRepoClassName name).run s = .ok () s') :
    s' = s ∧ ∀ a, s.idx.classByName name = some a → (s.idx.classes a).cls = none := by
  rw [run_checkRepoClassName] at h
  cases hfound : s.idx.classByName name with
  | none =>
      rw [hfound] at h
      cases h
      exact ⟨rfl, fun a ha => nomatch ha⟩
  | some a =>
      rw [hfound] at h
      by_cases hbody : ((s.idx.classes a).cls.isSome || s.idx.stored a) = true
      · simp only [hbody, if_true] at h
        obtain ⟨-, s₁, -, hthrow⟩ := run_bind_eq_ok.mp h
        cases hthrow
      · simp only [hbody, if_false, Bool.false_eq_true] at h
        cases h
        refine ⟨rfl, fun b hb => ?_⟩
        cases hb
        have hnone : (s.idx.classes a).cls.isSome = false := by
          cases hs : (s.idx.classes a).cls.isSome with
          | false => rfl
          | true => simp [hs] at hbody
        exact Option.isSome_eq_false_iff.mp hnone |> Option.isNone_iff_eq_none.mp

theorem checkTaskClassName_ok {name : Name} {s s' : Sys τ} (h : (checkTaskClassName name).run s = .ok () s') :
    name ∉ s.task.classNameIdx ∧
      s' = s.setTask { s.task with classNameIdx := name :: s.task.classNameIdx } := by
  have hunfold : (checkTaskClassName name).run s = (if s.task.classNameIdx.contains name then throw (.err .fail)
      else modifyTask fun t => { t with classNameIdx := name :: t.classNameIdx } : SysM τ Unit).run s := rfl
  rw [hunfold] at h
  by_cases hseen : s.task.classNameIdx.contains name = true
  · rw [if_pos hseen] at h
    cases h
  · rw [if_neg hseen] at h
    cases h
    exact ⟨fun hmem => hseen (List.contains_iff_mem.mpr hmem), rfl⟩

theorem kndClassImport_ok {name : Name} {clauses : List Name} {s s' : Sys τ}
    (h : (kndClassImport name clauses).run s = .ok () s') : MakesClass name clauses s s' := by
  rw [kndClassImport] at h
  by_cases hname : name = []
  · rw [if_pos hname] at h
    cases h
  · rw [if_neg hname] at h
    obtain ⟨u₁, s₁, hrepo, hrest₁⟩ := run_bind_eq_ok.mp h
    obtain ⟨rfl, hfree⟩ := checkRepoClassName_ok hrepo
    obtain ⟨u₂, s₂, htask, hrest₂⟩ := run_bind_eq_ok.mp hrest₁
    obtain ⟨hunseen, rfl⟩ := checkTaskClassName_ok htask
    obtain ⟨a, s₃, hnew, hrest₃⟩ := run_bind_eq_ok.mp hrest₂
    cases hnew
    obtain ⟨hidx, htask, hrefs⟩ := kndClassCommitState_ok hrest₃
    exact ⟨hname, hfree, hunseen, hidx, by rw [htask]; exact ⟨rfl, rfl⟩, hrefs⟩

theorem parseClassImport_ok {name : Name} {clauses : List Name} {s s' : Sys τ}
    (h : (parseClassImport name clauses).run s = .ok () s') : MakesClass name clauses s s' := by
  obtain ⟨u₁, s₁, htype, hrest₁⟩ := run_bind_eq_ok.mp h
  obtain ⟨s₂, s₃, hget, hrest₂⟩ := run_bind_eq_ok.mp hrest₁
  obtain ⟨u₃, s₄, hcommit, hrest₃⟩ := run_bind_eq_ok.mp hrest₂
  cases htype
  cases hget
  set s₁ := s.setTask { s.task with type := .commit } with hs₁
  have hmade := kndClassImport_ok hrest₃
  -- the first clause of a task makes its commit, which has no class states yet
  by_cases hnone : s.task.commit = none
  · have hnew : s₄ = finalState (kndCommitNew (some s₁.task.id)) s₁ := by
      have hnone₁ : s₁.task.commit = none := hnone
      rw [if_pos hnone₁] at hcommit
      exact (finalState_of_ok hcommit).symm
    have hrefs : s₄.refs = s.refs := by rw [hnew, refs_kndCommitNew, Sys.refs, hnone]
    have hidx : s₄.idx = s.idx := by rw [hnew]; rfl
    have hlists : s₄.task.classNameIdx = s.task.classNameIdx ∧
        s₄.task.classInstStateRefs = s.task.classInstStateRefs := by rw [hnew]; exact ⟨rfl, rfl⟩
    refine ⟨hmade.nonempty, hidx ▸ hmade.free, hlists.1 ▸ hmade.unseen, hidx ▸ hmade.idx, ?_, ?_⟩
    · rw [← hlists.1, ← hlists.2]
      exact hmade.lists
    · rw [← hrefs, ← hidx]
      exact hmade.refs
  · have hnone₁ : ¬s₁.task.commit = none := hnone
    rw [if_neg hnone₁] at hcommit
    cases hcommit
    exact ⟨hmade.nonempty, hmade.free, hmade.unseen, hmade.idx, hmade.lists, hmade.refs⟩

/-- The name that an instance of this text gets. -/
def InstText.Names (text : InstText) (name : Name) : Prop :=
  text.name = [] ∧ name = [] ∨ text.name = [95] ∧ name = text.random ∨
    text.name ≠ [] ∧ text.name ≠ [95] ∧ text.name.length < nameSize ∧ name = text.name

theorem InstText.Names.eq_finalName {text : InstText} {name : Name} (h : text.Names name) : name = text.finalName := by
  rw [finalName]
  rcases h with ⟨hempty, rfl⟩ | ⟨hrandom, rfl⟩ | ⟨-, hne, -, rfl⟩
  · rw [if_neg (by rw [hempty]; exact List.cons_ne_nil 95 [] ∘ Eq.symm), hempty]
  · rw [if_pos hrandom]
  · rw [if_neg hne]

/-- A name that is not generated. -/
theorem InstText.finalName_of_plain {text : InstText} (h : text.name ≠ [95]) : text.finalName = text.name := if_neg h

theorem InstText.Names.eq_name {text : InstText} {name : Name} (h : text.Names name) (hplain : text.name ≠ [95]) :
    name = text.name := by
  rw [h.eq_finalName, finalName_of_plain hplain]

theorem setInstName_ok {c : Class} {text : InstText} {name : Name} (h : setInstName c text = .ok name) :
    text.Names name := by
  rw [setInstName] at h
  -- the branches of `set_inst_name`: no name, too long a name, a generated one, and one that is free
  by_cases hempty : text.name = []
  · rw [if_pos hempty] at h
    cases h
    exact .inl ⟨hempty, rfl⟩
  · rw [if_neg hempty] at h
    by_cases hlong : text.name.length ≥ nameSize
    · rw [if_pos hlong] at h
      cases h
    · rw [if_neg hlong] at h
      by_cases hrandom : text.name = [95]
      · rw [if_pos hrandom] at h
        cases h
        exact .inr (.inl ⟨hrandom, rfl⟩)
      · rw [if_neg hrandom] at h
        cases hget : c.instNameIdx.bind fun dict => kndSharedDictGet dict text.name with
        | some i =>
            rw [hget] at h
            cases h
        | none =>
            rw [hget] at h
            cases h
            exact .inr (.inr ⟨hempty, hrandom, Nat.lt_of_not_le hlong, rfl⟩)

theorem run_acquire_of_body {a : ClassAddr} {s : Sys τ} (h : (s.idx.classes a).cls.isSome = true) :
    (onIdx (kndClassAcquire a)).run s = .ok () s := by
  obtain ⟨c, hc⟩ := Option.isSome_iff_exists.mp h
  have hrun : (kndClassAcquire a).run s.idx = .ok () s.idx := by rw [run_kndClassAcquire, hc]
  rw [onIdx, run_zoom, hrun]
  rfl

/-- **Imports of instances that return.** -/
structure MakesInsts (a : ClassAddr) (texts : List InstText) (insts : List ClassInst) (s s' : Sys τ) : Prop where
  /-- The instances. -/
  made : List.Forall₂ (fun i text => i.blueprint = a ∧ i.attrs = text.attrs ∧ text.Names i.name) insts texts
  /-- Their numbers. -/
  numbers : ∀ i ∈ insts, (s.idx.classes a).body.instIdCount < i.numid ∧
    i.numid ≤ (s'.idx.classes a).body.instIdCount
  /-- They are numbered in order. -/
  increasing : insts.Pairwise fun i j => i.numid < j.numid
  /-- The other classes. -/
  others : ∀ b, b ≠ a → s'.idx.classes b = s.idx.classes b
  /-- No class is made. -/
  next : s'.idx.nextClass = s.idx.nextClass
  /-- The lookups. -/
  parsing : Parsing s s'
  /-- The lists of the task. -/
  lists : s'.task.classNameIdx = s.task.classNameIdx ∧
    s'.task.classInstStateRefs = insts.reverse ++ s.task.classInstStateRefs
  /-- The commit. -/
  refs : s'.refs = s.refs
  /-- The type of the task. -/
  type : s'.task.type = if texts = [] then s.task.type else if s.task.type = .restore then .restore else .commit

theorem MakesInsts.nil (a : ClassAddr) (s : Sys τ) : MakesInsts a [] [] s s where
  made := .nil
  numbers _ h := nomatch h
  increasing := .nil
  others _ _ := rfl
  next := rfl
  parsing := refl_of Parsing s
  lists := ⟨rfl, rfl⟩
  refs := rfl
  type := rfl

/-- An instance before others. -/
theorem MakesInsts.cons {a : ClassAddr} {text : InstText} {texts : List InstText} {inst : ClassInst}
    {insts : List ClassInst} {s s₁ s' : Sys τ} (ha : a < s.idx.nextClass) (h : MakesInsts a [text] [inst] s s₁)
    (h' : MakesInsts a texts insts s₁ s') : MakesInsts a (text :: texts) (inst :: insts) s s' where
  made := .cons (by cases h.made with | cons hfirst _ => exact hfirst) h'.made
  numbers i hi := by
    rcases List.mem_cons.mp hi with rfl | hi
    · obtain ⟨hlt, hle⟩ := h.numbers i (List.mem_singleton_self i)
      exact ⟨hlt, hle.trans (h'.parsing.idx.counts a (by rw [h.next]; exact ha))⟩
    · obtain ⟨hlt, hle⟩ := h'.numbers i hi
      exact ⟨lt_of_le_of_lt (h.parsing.idx.counts a ha) hlt, hle⟩
  increasing := by
    refine List.pairwise_cons.mpr ⟨fun j hj => ?_, h'.increasing⟩
    exact lt_of_le_of_lt (h.numbers inst (List.mem_singleton_self inst)).2 (h'.numbers j hj).1
  others b hb := (h'.others b hb).trans (h.others b hb)
  next := h'.next.trans h.next
  parsing := trans_of Parsing h.parsing h'.parsing
  lists := ⟨h'.lists.1.trans h.lists.1, by rw [h'.lists.2, h.lists.2]; simp⟩
  refs := h'.refs.trans h.refs
  type := by
    have hfirst : s₁.task.type = if s.task.type = .restore then .restore else .commit := h.type
    rw [h'.type, if_neg (List.cons_ne_nil _ _), hfirst]
    by_cases hrestore : s.task.type = .restore
    · simp [hrestore]
    · simp [hrestore]

theorem kndClassInstNew_ok {a : ClassAddr} {text : InstText} {inst : ClassInst} {s s' : Sys τ}
    (h : (kndClassInstNew a text).run s = .ok inst s') :
    ∃ c, (s.idx.classes a).cls = some c ∧ text.Names inst.name ∧ inst.blueprint = a ∧ inst.attrs = text.attrs ∧
      inst.numid = c.instIdCount + 1 ∧ s' = s.setIdx (s.idx.countInst a c) := by
  simp only [EStateM.run] at h
  unfold kndClassInstNew at h
  cases hcls : (s.idx.classes a).cls with
  | none =>
      simp only [hcls] at h
      cases h
  | some c =>
      simp only [hcls] at h
      cases hname : setInstName c text with
      | error e =>
          simp only [hname] at h
          cases h
      | ok name =>
          simp only [hname] at h
          cases h
          exact ⟨c, rfl, setInstName_ok hname, rfl, rfl, rfl, rfl⟩

theorem kndImportClassInst_ok {a : ClassAddr} {text : InstText} {inst : ClassInst} {s s' : Sys τ}
    (h : (kndImportClassInst a text).run s = .ok inst s') : MakesInsts a [text] [inst] s s' := by
  obtain ⟨u, s₁, htype, hrest₁⟩ := run_bind_eq_ok.mp h
  cases htype
  obtain ⟨inst', s₂, hnew, hrest₂⟩ := run_bind_eq_ok.mp hrest₁
  obtain ⟨c, hcls, hname, hblueprint, hattrs, hnumid, rfl⟩ := kndClassInstNew_ok hnew
  cases hrest₂
  have hcls' : (s.idx.classes a).cls = some c := hcls
  have hbody : (s.idx.classes a).body.instIdCount = c.instIdCount := by rw [ClassEntry.body, hcls']; rfl
  have hcount : ((s.idx.countInst a c).classes a).body.instIdCount = c.instIdCount + 1 := by
    rw [Indices.classes_countInst, if_pos rfl]
    rfl
  refine ⟨.cons ⟨hblueprint, hattrs, hname⟩ .nil, fun i hi => ?_, List.pairwise_singleton _ _, fun b hb => ?_, rfl,
    ⟨Indices.parses_countInst hcls', rfl, rfl, rfl⟩, ⟨rfl, rfl⟩, rfl, rfl⟩
  · obtain rfl := List.mem_singleton.mp hi
    show (s.idx.classes a).body.instIdCount < _ ∧ _ ≤ ((s.idx.countInst a c).classes a).body.instIdCount
    rw [hbody, hcount, hnumid]
    exact ⟨Nat.lt_succ_self _, le_rfl⟩
  · show (s.idx.countInst a c).classes b = _
    rw [Indices.classes_countInst, if_neg hb]

theorem parseImportClassInst_ok {restore : SysM τ Unit} {a : ClassAddr} {text : InstText} {inst : ClassInst}
    {s s' : Sys τ} (hrole : s.snapshot.role ≠ .reader) (hbody : (s.idx.classes a).cls.isSome = true)
    (h : (parseImportClassInst restore a text).run s = .ok inst s') : MakesInsts a [text] [inst] s s' := by
  rw [run_parseImportClassInst, run_bind_of_ok (run_acquire_of_body hbody),
    run_bind_of_ok (restoreReader_of_ne restore hrole), run_get_bind] at h
  obtain ⟨u, s₁, hcommit, hrest⟩ := run_bind_eq_ok.mp h
  have hmade := kndImportClassInst_ok hrest
  -- an instance makes the commit only where no clause before it has
  by_cases hnew : s.task.type = .get ∧ s.task.commit = none
  · rw [if_pos hnew] at hcommit
    have hs₁ : s₁ = finalState (kndCommitNew none) s := (finalState_of_ok hcommit).symm
    have hrefs : s₁.refs = s.refs := by rw [hs₁, refs_kndCommitNew, Sys.refs, hnew.2]
    have hidx : s₁.idx = s.idx := by rw [hs₁]; rfl
    have htask : s₁.task.classNameIdx = s.task.classNameIdx ∧
        s₁.task.classInstStateRefs = s.task.classInstStateRefs ∧ s₁.task.type = s.task.type := by
      rw [hs₁]
      exact ⟨rfl, rfl, rfl⟩
    have hstart : Parsing s s₁ := hs₁ ▸ parsing_kndCommitNew none s hrole
    refine ⟨hmade.made, hidx ▸ hmade.numbers, hmade.increasing, hidx ▸ hmade.others, ?_,
      trans_of Parsing hstart hmade.parsing, ?_, hmade.refs.trans hrefs, ?_⟩
    · rw [← hidx]
      exact hmade.next
    · rw [← htask.1, ← htask.2.1]
      exact hmade.lists
    · rw [← htask.2.2]
      exact hmade.type
  · rw [if_neg hnew] at hcommit
    cases hcommit
    exact hmade

theorem importInsts_ok {restore : SysM τ Unit} {a : ClassAddr} {texts : List InstText} {insts : List ClassInst}
    {s s' : Sys τ} (hrole : s.snapshot.role ≠ .reader) (ha : a < s.idx.nextClass)
    (hbody : (s.idx.classes a).cls.isSome = true) (h : (importInsts restore a texts).run s = .ok insts s') :
    MakesInsts a texts insts s s' := by
  induction texts generalizing s insts with
  | nil =>
      cases h
      exact .nil a _
  | cons text texts ih =>
      obtain ⟨inst, s₁, hfirst, hrest₁⟩ := run_bind_eq_ok.mp h
      obtain ⟨insts', s₂, hothers, hrest₂⟩ := run_bind_eq_ok.mp hrest₁
      cases hrest₂
      have hmade := parseImportClassInst_ok hrole hbody hfirst
      refine hmade.cons ha (ih ?_ ?_ (hmade.parsing.idx.isSome a ha hbody) hothers)
      · rw [hmade.parsing.snapshot]
        exact hrole
      · rw [hmade.next]
        exact ha

theorem runGetClass_named {name : Name} {a : ClassAddr} {s s' : Sys τ} (hn : s.idx.Named)
    (h : (runGetClass name).run s = .ok a s') : name.length < nameSize ∧ s.idx.Selects name a ∧ s' = s := by
  by_cases hlong : name.length ≥ nameSize
  · rw [runGetClass, if_pos hlong] at h
    cases h
  · by_cases hroot : name = [47]
    · rw [runGetClass, if_neg hlong, if_pos hroot] at h
      cases h
      exact ⟨Nat.lt_of_not_le hlong, .inl ⟨hroot, rfl⟩, rfl⟩
    · rw [run_runGetClass s hlong hroot] at h
      cases hfound : s.idx.classByName name with
      | none =>
          rw [hfound] at h
          cases h
      | some b =>
          rw [hfound] at h
          rw [run_bind_of_ok (run_acquire_of_body (hn.found name b hfound).2.2)] at h
          cases h
          exact ⟨Nat.lt_of_not_le hlong, .inr ⟨hroot, hfound⟩, rfl⟩

/-- **A class selection that returns.** -/
structure MakesSelection (name : Name) (texts : List InstText) (a : ClassAddr) (insts : List ClassInst)
    (s s' : Sys τ) : Prop where
  /-- The length of the name. -/
  short : name.length < nameSize
  /-- The class. -/
  selects : s.idx.Selects name a
  /-- The state after the imports. -/
  imports : ∃ s₁, MakesInsts a texts insts s s₁ ∧ s'.idx = s₁.idx ∧ s'.task = s₁.task ∧
    (s'.refs = ⟨a, .selected, s'.task.classInstStateRefs⟩ :: s.refs ∨ texts = [] ∧ s'.refs = s.refs)

theorem kndClassSelect_ok {restore : SysM τ Unit} {name : Name} {texts : List InstText}
    {r : ClassAddr × List ClassInst} {s s' : Sys τ} (hn : s.idx.Named) (hrole : s.snapshot.role ≠ .reader)
    (h : (kndClassSelect restore name texts).run s = .ok r s') : MakesSelection name texts r.1 r.2 s s' := by
  obtain ⟨a, s₁, hget, hrest₁⟩ := run_bind_eq_ok.mp h
  obtain ⟨hshort, hselects, rfl⟩ := runGetClass_named hn hget
  obtain ⟨insts, s₂, himport, hrest₂⟩ := run_bind_eq_ok.mp hrest₁
  obtain ⟨u, s₃, hcommit, hrest₃⟩ := run_bind_eq_ok.mp hrest₂
  cases hrest₃
  obtain ⟨hlt, -, hbody⟩ := hn.selects hselects
  have hmade := importInsts_ok hrole hlt hbody himport
  refine ⟨hshort, hselects, s₂, hmade, ?_⟩
  rw [run_commitSelection] at hcommit
  -- in a restore and in a commit the class is put on the list, with all instances so far
  have hstate : ∀ s₃, (kndClassCommitState a .selected).run s₂ = .ok () s₃ → s₃.idx = s₂.idx ∧ s₃.task = s₂.task ∧
      (s₃.refs = ⟨a, .selected, s₃.task.classInstStateRefs⟩ :: s₁.refs ∨ texts = [] ∧ s₃.refs = s₁.refs) := by
    intro s₃ hrun
    obtain ⟨hidx, htask, hrefs⟩ := kndClassCommitState_ok hrun
    refine ⟨hidx, htask, .inl ?_⟩
    rw [hrefs, if_pos rfl, htask, hmade.refs]
  -- an instance turns the task into a commit, so in the other types none was imported
  have hnone : ∀ type, s₂.task.type = type → type ≠ .restore → type ≠ .commit → texts = [] := by
    intro type htype hrestore hcommit
    by_contra htexts
    have hset := hmade.type
    rw [if_neg htexts, htype] at hset
    by_cases hr : s₁.task.type = .restore
    · rw [if_pos hr] at hset
      exact hrestore hset
    · rw [if_neg hr] at hset
      exact hcommit hset
  cases htype : s₂.task.type with
  | restore =>
      rw [htype] at hcommit
      exact hstate _ hcommit
  | commit =>
      rw [htype] at hcommit
      exact hstate _ hcommit
  | get =>
      rw [htype] at hcommit
      cases hcommit
      exact ⟨rfl, rfl, .inr ⟨hnone .get htype (by decide) (by decide), hmade.refs⟩⟩
  | snapshot =>
      rw [htype] at hcommit
      cases hcommit
      exact ⟨rfl, rfl, .inr ⟨hnone .snapshot htype (by decide) (by decide), hmade.refs⟩⟩

/-! ## (4) The clauses of a task -/

/-- The instances of texts without generated names are as long as the texts, and take the pages of the texts. -/
theorem cost_insts {a : ClassAddr} {insts : List ClassInst} {texts : List InstText}
    (h : List.Forall₂ (fun i text => i.blueprint = a ∧ i.attrs = text.attrs ∧ text.Names i.name) insts texts)
    (hplain : ∀ text ∈ texts, text.name ≠ [95]) :
    (insts.map fun i => i.text.size).sum = (texts.map InstText.size).sum ∧
      (insts.map ClassInst.pages).sum = (texts.map InstText.pages).sum := by
  induction h with
  | nil => exact ⟨rfl, rfl⟩
  | @cons i text insts texts hi _ ih =>
      obtain ⟨hsizes, hpages⟩ := ih fun t ht => hplain t (List.mem_cons_of_mem _ ht)
      obtain ⟨-, hattrs, hnames⟩ := hi
      have hname := hnames.eq_name (hplain text List.mem_cons_self)
      have hsize : i.text.size = text.size := by
        rw [InstText.size, InstText.size, ClassInst.text, hname, hattrs]
      have hpage : i.pages = text.pages := by rw [ClassInst.pages, InstText.pages, hname]
      simp only [List.map_cons, List.sum_cons, hsizes, hpages, hsize, hpage, and_self]

/-- What is related to an element of the first list. -/
theorem exists_of_forall₂ {α β : Type} {R : α → β → Prop} {l : List α} {l' : List β} (h : List.Forall₂ R l l')
    {a : α} (ha : a ∈ l) : ∃ b ∈ l', R a b := by
  induction h with
  | nil => cases ha
  | cons hab _ ih =>
      rcases List.mem_cons.mp ha with rfl | ha
      · exact ⟨_, List.mem_cons_self, hab⟩
      · obtain ⟨b, hb, hrel⟩ := ih ha
        exact ⟨b, List.mem_cons_of_mem _ hb, hrel⟩

/-- **What the clauses `body` have made** of the commit of a task that began in the state `s₀`, without class states
and instances. -/
structure Drafted (s₀ s : Sys τ) (body : List TaskItem) : Prop where
  /-- The rest. -/
  parsing : Parsing s₀ s
  /-- The names of the new classes. -/
  classNames : s.task.classNameIdx = (createdNames body).reverse
  /-- They are distinct. -/
  nodup : (createdNames body).Nodup
  /-- They are new. -/
  free : ∀ name ∈ createdNames body, name ≠ [] ∧ s₀.idx.classByName name = none
  /-- The instances. -/
  insts : List.Forall₂ (fun i p => s₀.idx.Selects p.1 i.blueprint ∧ i.attrs = p.2.attrs ∧ p.2.Names i.name)
    s.task.classInstStateRefs.reverse (bodyInsts body)
  /-- Their numbers. -/
  numbers : ∀ i ∈ s.task.classInstStateRefs, (s₀.idx.classes i.blueprint).body.instIdCount < i.numid ∧
    i.numid ≤ (s.idx.classes i.blueprint).body.instIdCount
  /-- They are distinct in a class. -/
  distinct : s.task.classInstStateRefs.Pairwise fun i j => i.blueprint = j.blueprint → j.numid < i.numid
  /-- The entries of the new classes. -/
  created : ∀ ref ∈ s.refs, ref.phase = .created → ref.children = [] ∧ s₀.idx.nextClass ≤ ref.entry ∧
    ref.entry < s.idx.nextClass ∧
    ∃ clauses, .importClass (s.idx.classes ref.entry).name clauses ∈ body ∧
      (s.idx.classes ref.entry).cls = some { clauses }
  /-- The selected classes. -/
  selected : ∀ ref ∈ s.refs, ref.phase = .selected →
    ∃ name ∈ selectedNames body, name.length < nameSize ∧ s₀.idx.Selects name ref.entry
  /-- The classes that the record creates. -/
  recordCreated : createdNames s.record = (createdNames body).reverse
  /-- The classes that it selects. -/
  recordSelected : (selectedNames s.record).Sublist (selectedNames body).reverse
  /-- The instances of the commit were imported. -/
  imported : ∀ ref ∈ s.refs, ∀ i ∈ ref.children, i ∈ s.task.classInstStateRefs
  /-- When they are listed once they are all of them. -/
  children : ListsOnce body → s.refs.flatMap ClassStateRef.children = s.task.classInstStateRefs ∧
    ∀ ref ∈ s.refs, ∀ i ∈ ref.children, i.blueprint = ref.entry
  /-- The length of the record and the tiny pages that its registration takes. -/
  cost : ListsOnce body → (∀ p ∈ bodyInsts body, p.2.name ≠ [95]) →
    (s.record.map TaskItem.size).sum ≤ (body.map TaskItem.size).sum ∧
    (s.refs.map ClassStateRef.pages).sum ≤ (body.map TaskItem.pages).sum
  /-- A restore that creates no class stays one. -/
  type : s₀.task.type = .restore → createdNames body = [] → s.task.type = .restore

namespace Drafted

variable {s₀ s s' : Sys τ} {body : List TaskItem}

/-- A task that begins. -/
theorem nil (hinsts : s₀.task.classInstStateRefs = []) (hnames : s₀.task.classNameIdx = []) (hrefs : s₀.refs = []) :
    Drafted s₀ s₀ [] where
  parsing := refl_of Parsing s₀
  classNames := hnames
  nodup := .nil
  free _ h := nomatch h
  insts := by
    rw [hinsts]
    exact .nil
  numbers i hi := by
    rw [hinsts] at hi
    cases hi
  distinct := by
    rw [hinsts]
    exact .nil
  created ref href := by
    rw [hrefs] at href
    cases href
  selected ref href := by
    rw [hrefs] at href
    cases href
  recordCreated := by
    rw [Sys.record, hrefs]
    rfl
  recordSelected := by
    rw [Sys.record, hrefs]
    exact List.Sublist.slnil
  imported ref href := by
    rw [hrefs] at href
    cases href
  children _ := by
    rw [hrefs, hinsts]
    exact ⟨rfl, fun _ h => nomatch h⟩
  cost _ _ := by
    rw [Sys.record, hrefs]
    exact ⟨le_rfl, le_rfl⟩
  type h _ := h

/-- All class states are of classes that are there. -/
theorem entry_lt (h : Drafted s₀ s body) (hn : s₀.idx.Named) {ref : ClassStateRef} (href : ref ∈ s.refs) :
    ref.entry < s.idx.nextClass := by
  cases hphase : ref.phase with
  | created => exact (h.created ref href hphase).2.2.1
  | selected =>
      obtain ⟨name, -, -, hselects⟩ := h.selected ref href hphase
      exact lt_of_lt_of_le (hn.selects hselects).1 h.parsing.idx.next

/-- The export of a class state depends on the name of the class. -/
theorem exportClassState_congr {idx idx' : Indices τ} {ref : ClassStateRef}
    (h : (idx'.classes ref.entry).name = (idx.classes ref.entry).name) :
    exportClassState idx' ref = exportClassState idx ref := by
  rw [exportClassState, exportClassState, h]

/-- The record so far stays what it is. -/
theorem record_eq (h : Drafted s₀ s body) (hn : s₀.idx.Named) {idx : Indices τ} (hp : s.idx.Parses idx) :
    s.refs.map (exportClassState idx) = s.record :=
  List.map_congr_left fun _ href => exportClassState_congr (hp.names _ (h.entry_lt hn href))

/-- The blueprint of an instance is a class of the beginning. -/
theorem blueprint_lt (h : Drafted s₀ s body) (hn : s₀.idx.Named) {i : ClassInst}
    (hi : i ∈ s.task.classInstStateRefs) : i.blueprint < s₀.idx.nextClass := by
  obtain ⟨p, -, hs, -⟩ := exists_of_forall₂ h.insts (List.mem_reverse.mpr hi)
  exact (hn.selects hs).1

/-- **A class import.** -/
theorem importClass (h : Drafted s₀ s body) (hn : s₀.idx.Named) {name : Name} {clauses : List Name}
    (hp : Parsing s s') (hmade : MakesClass name clauses s s') :
    Drafted s₀ s' (body ++ [.importClass name clauses]) := by
  have hcreated : createdNames (body ++ [.importClass name clauses]) = createdNames body ++ [name] := by
    rw [createdNames_append, createdNames_singleton]
    rfl
  have hselected : selectedNames (body ++ [.importClass name clauses]) = selectedNames body := by
    rw [selectedNames_append, selectedNames_singleton]
    exact List.append_nil _
  have hinsts : bodyInsts (body ++ [.importClass name clauses]) = bodyInsts body := by
    rw [bodyInsts_append, bodyInsts_singleton]
    exact List.append_nil _
  have hrecord : s'.record = .importClass name [] :: s.record := by
    rw [Sys.record, hmade.refs, List.map_cons, h.record_eq hn hp.idx]
    have hname : (s'.idx.classes s.idx.nextClass).name = name := by
      rw [hmade.idx, Indices.classes_addClass, if_pos rfl]
    show TaskItem.importClass (s'.idx.classes s.idx.nextClass).name [] :: _ = _
    rw [hname]
  have hold : ∀ b < s.idx.nextClass, s'.idx.classes b = s.idx.classes b := fun b hb => by
    rw [hmade.idx, Indices.classes_addClass_of_lt name clauses hb]
  refine ⟨trans_of Parsing h.parsing hp, ?_, ?_, ?_, ?_, ?_, ?_, ?_, ?_, ?_, ?_, ?_, ?_, ?_, ?_⟩
  · rw [hmade.lists.1, h.classNames, hcreated, List.reverse_append]
    rfl
  · rw [hcreated, List.nodup_append']
    refine ⟨h.nodup, List.nodup_singleton _, fun n hn' hmem => ?_⟩
    rw [List.mem_singleton.mp hmem] at hn'
    refine hmade.unseen ?_
    rw [h.classNames]
    exact List.mem_reverse.mpr hn'
  · intro n hmem
    rw [hcreated, List.mem_append, List.mem_singleton] at hmem
    rcases hmem with hmem | rfl
    · exact h.free n hmem
    · refine ⟨hmade.nonempty, ?_⟩
      -- a class in the name index has a body
      cases hfound : s₀.idx.classByName n with
      | none => rfl
      | some a =>
          obtain ⟨hlt, -, hbody⟩ := hn.found n a hfound
          have hfree := hmade.free a (by rw [h.parsing.idx.classByName_eq]; exact hfound)
          have hstays := h.parsing.idx.isSome a hlt hbody
          rw [hfree] at hstays
          cases hstays
  · rw [hmade.lists.2, hinsts]
    exact h.insts
  · intro i hi
    rw [hmade.lists.2] at hi
    obtain ⟨hlt, hle⟩ := h.numbers i hi
    exact ⟨hlt, hle.trans (hp.idx.counts _ (lt_of_lt_of_le (h.blueprint_lt hn hi) h.parsing.idx.next))⟩
  · rw [hmade.lists.2]
    exact h.distinct
  · intro ref href hphase
    rw [hmade.refs] at href
    rcases List.mem_cons.mp href with rfl | href
    · refine ⟨rfl, h.parsing.idx.next, ?_, ?_⟩
      · rw [hmade.idx]
        exact Nat.lt_succ_self _
      · rw [hmade.idx, Indices.classes_addClass, if_pos rfl]
        exact ⟨clauses, List.mem_append_right _ (List.mem_singleton_self _), rfl⟩
    · obtain ⟨hnone, hle, hlt, cl, hmem, hcls⟩ := h.created ref href hphase
      exact ⟨hnone, hle, lt_of_lt_of_le hlt hp.idx.next,
        by rw [hold _ hlt]; exact ⟨cl, List.mem_append_left _ hmem, hcls⟩⟩
  · intro ref href hphase
    rw [hmade.refs] at href
    rcases List.mem_cons.mp href with rfl | href
    · cases hphase
    · rw [hselected]
      exact h.selected ref href hphase
  · rw [hrecord, hcreated, List.reverse_append, ← h.recordCreated]
    rfl
  · rw [hrecord, hselected]
    exact h.recordSelected
  · intro ref href i hi
    rw [hmade.refs] at href
    rw [hmade.lists.2]
    rcases List.mem_cons.mp href with rfl | href
    · cases hi
    · exact h.imported ref href i hi
  · intro hlists
    obtain ⟨hall, hblueprint⟩ := h.children hlists.of_append
    rw [hmade.refs, hmade.lists.2, List.flatMap_cons, hall]
    refine ⟨rfl, fun ref href => ?_⟩
    rcases List.mem_cons.mp href with rfl | href
    · exact fun i hi => nomatch hi
    · exact hblueprint ref href
  · intro hlists hplain
    rw [hinsts] at hplain
    obtain ⟨hsize, hpages⟩ := h.cost hlists.of_append hplain
    rw [hrecord, hmade.refs]
    simp only [List.map_append, List.map_cons, List.map_nil, List.sum_append, List.sum_cons, List.sum_nil]
    have hitem : (TaskItem.importClass name []).size ≤ (TaskItem.importClass name clauses).size := Nat.le_add_right _ _
    have hnew : (TaskItem.importClass name clauses).pages = 2 := rfl
    have hstate : (⟨s.idx.nextClass, .created, []⟩ : ClassStateRef).pages = 2 := rfl
    omega
  · intro _ hnone
    rw [hcreated] at hnone
    exact absurd hnone (by simp)

/-- **A class selection.** -/
theorem selectClass (h : Drafted s₀ s body) (hn : s₀.idx.Named) {name : Name} {texts : List InstText}
    {a : ClassAddr} {insts : List ClassInst} (hmade : MakesSelection name texts a insts s s')
    (hparsing : Parsing s s') : Drafted s₀ s' (body ++ [.selectClass name texts]) := by
  have hcreated : createdNames (body ++ [.selectClass name texts]) = createdNames body := by
    rw [createdNames_append, createdNames_singleton]
    exact List.append_nil _
  have hselected : selectedNames (body ++ [.selectClass name texts]) = selectedNames body ++ [name] := by
    rw [selectedNames_append, selectedNames_singleton]
    rfl
  have hbodyInsts : bodyInsts (body ++ [.selectClass name texts])
      = bodyInsts body ++ texts.map fun text => (name, text) := by
    rw [bodyInsts_append, bodyInsts_singleton]
    rfl
  obtain ⟨s₁, hinsts, hidx, htask, hrefs⟩ := hmade.imports
  have hselects : s₀.idx.Selects name a := h.parsing.idx.selects_iff.mp hmade.selects
  obtain ⟨halt₀, haname, -⟩ := hn.selects hselects
  have halt : a < s.idx.nextClass := lt_of_lt_of_le halt₀ h.parsing.idx.next
  have hlists : s'.task.classInstStateRefs = insts.reverse ++ s.task.classInstStateRefs := by
    rw [htask, hinsts.lists.2]
  have hothers : ∀ b, b ≠ a → s'.idx.classes b = s.idx.classes b := fun b hb => by rw [hidx, hinsts.others b hb]
  have hnumbers : ∀ i ∈ insts, (s.idx.classes a).body.instIdCount < i.numid ∧
      i.numid ≤ (s'.idx.classes a).body.instIdCount := fun i hi => by rw [hidx]; exact hinsts.numbers i hi
  have hblueprint : ∀ i ∈ insts, i.blueprint = a := fun i hi => by
    obtain ⟨text, -, hb, -⟩ := exists_of_forall₂ hinsts.made hi
    exact hb
  have hrecord : s'.record = s.record ∨ s'.record
      = .selectClass name (s'.task.classInstStateRefs.map ClassInst.text) :: s.record := by
    rcases hrefs with hrefs | ⟨-, hrefs⟩
    · right
      have hname : (s'.idx.classes a).name = name := by
        rw [(trans_of Parsing h.parsing hparsing).idx.names a halt₀, haname]
      rw [Sys.record, hrefs, List.map_cons, h.record_eq hn hparsing.idx]
      show TaskItem.selectClass (s'.idx.classes a).name _ :: _ = _
      rw [hname]
    · left
      rw [Sys.record, hrefs, h.record_eq hn hparsing.idx]
  -- no instance was imported before this selection, when the instances are listed once
  have hempty : ListsOnce (body ++ [.selectClass name texts]) → s.task.classInstStateRefs = [] := by
    intro hlistsOnce
    have hlen := h.insts.length_eq
    rw [hlistsOnce.before_select, List.length_reverse] at hlen
    exact List.eq_nil_of_length_eq_zero hlen
  refine ⟨trans_of Parsing h.parsing hparsing, ?_, ?_, ?_, ?_, ?_, ?_, ?_, ?_, ?_, ?_, ?_, ?_, ?_, ?_⟩
  · rw [htask, hinsts.lists.1, hcreated]
    exact h.classNames
  · rw [hcreated]
    exact h.nodup
  · rw [hcreated]
    exact h.free
  · rw [hlists, List.reverse_append, List.reverse_reverse, hbodyInsts]
    refine List.rel_append h.insts ?_
    rw [List.forall₂_map_right_iff]
    refine hinsts.made.imp fun i text hi => ?_
    obtain ⟨hb, hattrs, hnames⟩ := hi
    exact ⟨hb ▸ hselects, hattrs, hnames⟩
  · intro i hi
    rw [hlists, List.mem_append, List.mem_reverse] at hi
    rcases hi with hi | hi
    · obtain ⟨hlt, hle⟩ := hnumbers i hi
      rw [hblueprint i hi]
      exact ⟨lt_of_le_of_lt (h.parsing.idx.counts a halt₀) hlt, hle⟩
    · obtain ⟨hlt, hle⟩ := h.numbers i hi
      exact ⟨hlt, hle.trans (hparsing.idx.counts _
        (lt_of_lt_of_le (h.blueprint_lt hn hi) h.parsing.idx.next))⟩
  · rw [hlists, List.pairwise_append]
    refine ⟨?_, h.distinct, fun i hi j hj hsame => ?_⟩
    · rw [List.pairwise_reverse]
      exact hinsts.increasing.imp fun {i j} hlt (_ : j.blueprint = i.blueprint) => hlt
    · rw [List.mem_reverse] at hi
      -- what was numbered before has a smaller number
      have hle := (h.numbers j hj).2
      rw [← hsame, hblueprint i hi] at hle
      exact lt_of_le_of_lt hle (hnumbers i hi).1
  · intro ref href hphase
    have hmem : ref ∈ s.refs := by
      rcases hrefs with hrefs | ⟨-, hrefs⟩
      · rw [hrefs] at href
        rcases List.mem_cons.mp href with rfl | href
        · cases hphase
        · exact href
      · rwa [hrefs] at href
    obtain ⟨hnone, hle, hlt, cl, hin, hcls⟩ := h.created ref hmem hphase
    have hne : ref.entry ≠ a := fun heq => absurd halt₀ (Nat.not_lt.mpr (heq ▸ hle))
    exact ⟨hnone, hle, lt_of_lt_of_le hlt hparsing.idx.next,
      by rw [hothers _ hne]; exact ⟨cl, List.mem_append_left _ hin, hcls⟩⟩
  · intro ref href hphase
    rw [hselected]
    have hold : ref ∈ s.refs → ∃ n ∈ selectedNames body ++ [name], n.length < nameSize ∧
        s₀.idx.Selects n ref.entry := fun hmem => by
      obtain ⟨n, hmem, hn⟩ := h.selected ref hmem hphase
      exact ⟨n, List.mem_append_left _ hmem, hn⟩
    rcases hrefs with hrefs | ⟨-, hrefs⟩
    · rw [hrefs] at href
      rcases List.mem_cons.mp href with rfl | href
      · exact ⟨name, List.mem_append_right _ (List.mem_singleton_self _), hmade.short, hselects⟩
      · exact hold href
    · rw [hrefs] at href
      exact hold href
  · rw [hcreated, ← h.recordCreated]
    rcases hrecord with hrecord | hrecord
    · rw [hrecord]
    · rw [hrecord]
      rfl
  · rw [hselected, List.reverse_append]
    rcases hrecord with hrecord | hrecord
    · rw [hrecord]
      exact h.recordSelected.trans (List.sublist_cons_self _ _)
    · rw [hrecord]
      exact h.recordSelected.cons_cons name
  · intro ref href i hi
    have hold : ref ∈ s.refs → i ∈ s'.task.classInstStateRefs := fun hmem => by
      rw [hlists]
      exact List.mem_append_right _ (h.imported ref hmem i hi)
    rcases hrefs with hrefs | ⟨-, hrefs⟩
    · rw [hrefs] at href
      rcases List.mem_cons.mp href with rfl | href
      · exact hi
      · exact hold href
    · rw [hrefs] at href
      exact hold href
  · intro hlistsOnce
    obtain ⟨hall, hold⟩ := h.children hlistsOnce.of_append
    rw [hempty hlistsOnce, List.append_nil] at hlists
    rw [hempty hlistsOnce] at hall
    rcases hrefs with hrefs | ⟨htexts, hrefs⟩
    · rw [hrefs, List.flatMap_cons, hall, List.append_nil]
      refine ⟨rfl, fun ref href i hi => ?_⟩
      rcases List.mem_cons.mp href with rfl | href
      · rw [hlists, List.mem_reverse] at hi
        exact hblueprint i hi
      · exact hold ref href i hi
    · have hnone : insts = [] := by
        have hlen := hinsts.made.length_eq
        rw [htexts] at hlen
        exact List.eq_nil_of_length_eq_zero hlen
      rw [hrefs, hall, hlists, hnone]
      exact ⟨rfl, hold⟩
  · intro hlistsOnce hplain
    rw [hbodyInsts] at hplain
    obtain ⟨hsize, hpages⟩ := h.cost hlistsOnce.of_append fun p hp => hplain p (List.mem_append_left _ hp)
    rw [hempty hlistsOnce, List.append_nil] at hlists
    have htexts : ∀ text ∈ texts, text.name ≠ [95] := fun text htext =>
      hplain _ (List.mem_append_right _ (List.mem_map_of_mem htext))
    obtain ⟨hsizes, hinstPages⟩ := cost_insts hinsts.made htexts
    have hitemSize : (TaskItem.selectClass name (s'.task.classInstStateRefs.map ClassInst.text)).size
        = (TaskItem.selectClass name texts).size := by
      rw [hlists, TaskItem.size, TaskItem.size, List.map_map, List.map_reverse, List.sum_reverse, ← hsizes]
      rfl
    have hitemPages : (⟨a, .selected, s'.task.classInstStateRefs⟩ : ClassStateRef).pages
        = (TaskItem.selectClass name texts).pages := by
      rw [hlists, ClassStateRef.pages, TaskItem.pages, List.map_reverse, List.sum_reverse, ← hinstPages,
        if_neg ClassPhase.noConfusion, Nat.zero_add]
    simp only [List.map_append, List.map_cons, List.map_nil, List.sum_append, List.sum_cons, List.sum_nil]
    constructor
    · rcases hrecord with hrecord | hrecord
      · rw [hrecord]
        omega
      · rw [hrecord, List.map_cons, List.sum_cons]
        omega
    · rcases hrefs with hrefs | ⟨-, hrefs⟩
      · rw [hrefs, List.map_cons, List.sum_cons]
        omega
      · rw [hrefs]
        omega
  · intro hrestore hnone
    rw [hcreated] at hnone
    have hbefore := h.type hrestore hnone
    rw [htask, hinsts.type, hbefore]
    simp

end Drafted

theorem parseItem_drafted {restore : SysM τ Unit} {s₀ s s' : Sys τ} {body : List TaskItem} {item : TaskItem}
    (hn : s₀.idx.Named) (hrole : s₀.snapshot.role ≠ .reader) (h : Drafted s₀ s body)
    (hrun : (parseItem restore item).run s = .ok () s') : Drafted s₀ s' (body ++ [item]) := by
  have hrole₁ : s.snapshot.role ≠ .reader := by rw [h.parsing.snapshot]; exact hrole
  have hparsing := (parsing_parseItem restore item).of_ok hrun hrole₁
  cases item with
  | importClass name clauses =>
      exact h.importClass hn hparsing (parseClassImport_ok hrun)
  | selectClass name texts =>
      obtain ⟨r, s₁, hselect, hrest⟩ := run_bind_eq_ok.mp hrun
      cases hrest
      exact h.selectClass hn (kndClassSelect_ok (h.parsing.idx.named hn) hrole₁ hselect) hparsing

/-- **The clauses of a task that return.** -/
theorem drafted_body {restore : SysM τ Unit} {s₀ s : Sys τ} {body : List TaskItem} (hn : s₀.idx.Named)
    (hrole : s₀.snapshot.role ≠ .reader) (h₀ : Drafted s₀ s₀ [])
    (hrun : (body.forM (parseItem restore)).run s₀ = .ok () s) : Drafted s₀ s body :=
  forM_ok_induction (fun pre s => Drafted s₀ s pre) hrun h₀ fun _ _ _ _ _ h hitem => parseItem_drafted hn hrole h hitem

/-! ## (5) Clauses that return -/

theorem Indices.Parses.indexedInst_eq {idx idx' : Indices τ} (h : idx.Parses idx') {a : ClassAddr}
    (ha : a < idx.nextClass) (name : Name) : idx'.indexedInst a name = idx.indexedInst a name := by
  have hbody : ∀ idx : Indices τ, idx.indexedInst a name
      = (idx.classes a).body.instNameIdx.bind fun dict => kndSharedDictGet dict name := by
    intro idx
    rw [Indices.indexedInst, ClassEntry.body]
    cases (idx.classes a).cls <;> rfl
  rw [hbody, hbody, (h.idxs a ha).1]

/-- **What a clause needs to return**, in a task that has its commit: a new class has a name that is not taken, a
selected class is there, and the names of new instances are short and not taken. -/
def Indices.Ready (idx : Indices τ) : TaskItem → Prop
  | .importClass name _ => name ≠ [] ∧ idx.classByName name = none
  | .selectClass name texts => name.length < nameSize ∧ ∃ a, idx.Selects name a ∧
      ∀ text ∈ texts, text.name = [] ∨
        text.name ≠ [95] ∧ text.name.length < nameSize ∧ idx.indexedInst a text.name = none

/-- The state of a class goes into the commit. -/
theorem kndClassCommitState_returns (a : ClassAddr) (phase : ClassPhase) {s : Sys τ} {c : CommitAddr}
    (hcommit : s.task.commit = some c) :
    ∃ s', (kndClassCommitState a phase).run s = .ok () s' ∧ s'.task = s.task := by
  rw [run_kndClassCommitState, hcommit]
  exact ⟨_, rfl, rfl⟩

theorem parseClassImport_returns {name : Name} {clauses : List Name} {s : Sys τ} {c : CommitAddr}
    (hcommit : s.task.commit = some c) (hname : name ≠ []) (hfree : s.idx.classByName name = none)
    (hunseen : name ∉ s.task.classNameIdx) :
    ∃ s', (parseClassImport name clauses).run s = .ok () s' ∧ s'.task.commit = some c := by
  set s₁ := s.setTask { s.task with type := .commit } with hs₁
  have hstart : (parseClassImport name clauses).run s = (kndClassImport name clauses).run s₁ := by
    have hunfold : (parseClassImport name clauses).run s
        = ((if s₁.task.commit = none then kndCommitNew (some s₁.task.id) else pure ()) >>= fun _ =>
            kndClassImport name clauses : SysM τ Unit).run s₁ := rfl
    have hsome : s₁.task.commit ≠ none := by
      show s.task.commit ≠ none
      rw [hcommit]
      exact Option.some_ne_none c
    rw [hunfold, if_neg hsome]
    rfl
  -- the two name checks pass, then the entry and its class state are made
  have hrepo : (checkRepoClassName name).run s₁ = .ok () s₁ := by
    have hfree₁ : s₁.idx.classByName name = none := hfree
    rw [run_checkRepoClassName, hfree₁]
    rfl
  have htask : (checkTaskClassName name).run s₁
      = .ok () (s₁.setTask { s₁.task with classNameIdx := name :: s₁.task.classNameIdx }) := by
    have hunfold : (checkTaskClassName name).run s₁ = (if s.task.classNameIdx.contains name then throw (.err .fail)
        else modifyTask fun t => { t with classNameIdx := name :: t.classNameIdx } : SysM τ Unit).run s₁ := rfl
    rw [hunfold, if_neg fun hmem => hunseen (List.contains_iff_mem.mp hmem)]
    rfl
  set s₂ := s₁.setTask { s₁.task with classNameIdx := name :: s₁.task.classNameIdx } with hs₂
  have hnew : (kndClassNew name clauses).run s₂
      = .ok s₂.idx.nextClass (s₂.setIdx (s₂.idx.addClass name clauses)) := rfl
  obtain ⟨s', hstate, htask'⟩ := kndClassCommitState_returns s₂.idx.nextClass .created
    (show (s₂.setIdx (s₂.idx.addClass name clauses)).task.commit = some c from hcommit)
  refine ⟨s', ?_, by rw [htask']; exact hcommit⟩
  rw [hstart, kndClassImport, if_neg hname, run_bind_of_ok hrepo, run_bind_of_ok htask, run_bind_of_ok hnew, hstate]

theorem setInstName_returns {c : Class} {text : InstText} (h : text.name = [] ∨ text.name ≠ [95] ∧
    text.name.length < nameSize ∧ c.instNameIdx.bind (fun dict => kndSharedDictGet dict text.name) = none) :
    ∃ name, setInstName c text = .ok name := by
  rw [setInstName]
  by_cases hempty : text.name = []
  · exact ⟨[], if_pos hempty⟩
  · obtain ⟨hrandom, hshort, hfree⟩ := h.resolve_left hempty
    rw [if_neg hempty, if_neg (Nat.not_le_of_lt hshort), if_neg hrandom, hfree]
    exact ⟨text.name, rfl⟩

theorem parseImportClassInst_returns (restore : SysM τ Unit) {a : ClassAddr} {text : InstText} {s : Sys τ}
    {c : CommitAddr} (hcommit : s.task.commit = some c) (hrole : s.snapshot.role ≠ .reader)
    (hbody : (s.idx.classes a).cls.isSome = true) (hready : text.name = [] ∨ text.name ≠ [95] ∧
      text.name.length < nameSize ∧ s.idx.indexedInst a text.name = none) :
    ∃ inst s', (parseImportClassInst restore a text).run s = .ok inst s' ∧ s'.task.commit = some c := by
  obtain ⟨cls, hcls⟩ := Option.isSome_iff_exists.mp hbody
  rw [Indices.indexedInst_of_cls hcls] at hready
  obtain ⟨name, hname⟩ := setInstName_returns hready
  -- the task has its commit already
  have hsome : ¬(s.task.type = .get ∧ s.task.commit = none) := fun h => by
    rw [hcommit] at h
    cases h.2
  set s₁ := s.setTask { s.task with type := if s.task.type = .restore then .restore else .commit } with hs₁
  have hnew : (kndClassInstNew a text).run s₁ = .ok
      { addr := s.idx.nextInst, numid := cls.instIdCount + 1, name, blueprint := a, attrs := text.attrs }
      (s₁.setIdx (s.idx.countInst a cls)) := by
    have hcls₁ : (s₁.idx.classes a).cls = some cls := hcls
    simp only [EStateM.run]
    unfold kndClassInstNew
    simp only [hcls₁, hname]
    rfl
  have himport : ∃ inst s', (kndImportClassInst a text).run s = .ok inst s' ∧ s'.task.commit = some c := by
    have hunfold : (kndImportClassInst a text).run s = (kndClassInstNew a text >>= fun inst =>
        (modifyTask fun t => { t with classInstStateRefs := inst :: t.classInstStateRefs }) >>= fun _ =>
          pure inst : SysM τ ClassInst).run s₁ := rfl
    rw [hunfold, run_bind_of_ok hnew]
    exact ⟨_, _, rfl, hcommit⟩
  obtain ⟨inst, s', hrun, hcommit'⟩ := himport
  refine ⟨inst, s', ?_, hcommit'⟩
  rw [run_parseImportClassInst, run_bind_of_ok (run_acquire_of_body hbody),
    run_bind_of_ok (restoreReader_of_ne restore hrole), run_get_bind, if_neg hsome]
  exact hrun

theorem importInsts_returns (restore : SysM τ Unit) {a : ClassAddr} {texts : List InstText} {s : Sys τ}
    {c : CommitAddr} (hcommit : s.task.commit = some c) (hrole : s.snapshot.role ≠ .reader)
    (ha : a < s.idx.nextClass) (hbody : (s.idx.classes a).cls.isSome = true)
    (hready : ∀ text ∈ texts, text.name = [] ∨ text.name ≠ [95] ∧ text.name.length < nameSize ∧
      s.idx.indexedInst a text.name = none) :
    ∃ insts s', (importInsts restore a texts).run s = .ok insts s' ∧ s'.task.commit = some c := by
  induction texts generalizing s with
  | nil => exact ⟨[], s, rfl, hcommit⟩
  | cons text texts ih =>
      obtain ⟨inst, s₁, hfirst, hcommit₁⟩ := parseImportClassInst_returns restore hcommit hrole hbody
        (hready text List.mem_cons_self)
      have hmade := parseImportClassInst_ok hrole hbody hfirst
      have hparses := hmade.parsing.idx
      obtain ⟨insts, s', hothers, hcommit'⟩ := ih hcommit₁ (by rw [hmade.parsing.snapshot]; exact hrole)
        (by rw [hmade.next]; exact ha) (hparses.isSome a ha hbody) fun text htext => by
          rw [hparses.indexedInst_eq ha]
          exact hready text (List.mem_cons_of_mem _ htext)
      refine ⟨inst :: insts, s', ?_, hcommit'⟩
      rw [importInsts, run_bind_of_ok hfirst, run_bind_of_ok hothers]
      rfl

theorem runGetClass_returns {name : Name} {a : ClassAddr} {s : Sys τ} (hn : s.idx.Named)
    (hshort : name.length < nameSize) (h : s.idx.Selects name a) : (runGetClass name).run s = .ok a s := by
  rcases h with ⟨hroot, rfl⟩ | ⟨hroot, hfound⟩
  · rw [runGetClass, if_neg (Nat.not_le_of_lt hshort), if_pos hroot]
    rfl
  · rw [run_runGetClass s (Nat.not_le_of_lt hshort) hroot, hfound]
    rw [run_bind_of_ok (run_acquire_of_body (hn.found name a hfound).2.2)]
    rfl

theorem kndClassSelect_returns (restore : SysM τ Unit) {name : Name} {texts : List InstText} {s : Sys τ}
    {c : CommitAddr} (hn : s.idx.Named) (hcommit : s.task.commit = some c) (hrole : s.snapshot.role ≠ .reader)
    (hready : s.idx.Ready (.selectClass name texts)) :
    ∃ r s', (kndClassSelect restore name texts).run s = .ok r s' ∧ s'.task.commit = some c := by
  obtain ⟨hshort, a, hselects, htexts⟩ := hready
  obtain ⟨hlt, -, hbody⟩ := hn.selects hselects
  obtain ⟨insts, s₁, himport, hcommit₁⟩ := importInsts_returns restore hcommit hrole hlt hbody htexts
  have hselection : ∃ s', (commitSelection a).run s₁ = .ok () s' ∧ s'.task.commit = some c := by
    have hstate : ∃ s', (kndClassCommitState a .selected).run s₁ = .ok () s' ∧ s'.task.commit = some c := by
      obtain ⟨s', hrun, htask⟩ := kndClassCommitState_returns a .selected hcommit₁
      exact ⟨s', hrun, by rw [htask]; exact hcommit₁⟩
    rw [run_commitSelection]
    cases s₁.task.type with
    | restore => exact hstate
    | commit => exact hstate
    | get => exact ⟨s₁, rfl, hcommit₁⟩
    | snapshot => exact ⟨s₁, rfl, hcommit₁⟩
  obtain ⟨s', hlast, hcommit'⟩ := hselection
  refine ⟨(a, insts), s', ?_, hcommit'⟩
  rw [kndClassSelect, run_bind_of_ok (runGetClass_returns hn hshort hselects), run_bind_of_ok himport,
    run_bind_of_ok hlast]
  rfl

theorem Indices.Parses.ready {idx idx' : Indices τ} (h : idx.Parses idx') (hn : idx.Named) {item : TaskItem}
    (hready : idx.Ready item) : idx'.Ready item := by
  cases item with
  | importClass name clauses =>
      obtain ⟨hname, hfree⟩ := hready
      exact ⟨hname, by rw [h.classByName_eq]; exact hfree⟩
  | selectClass name texts =>
      obtain ⟨hshort, a, hselects, htexts⟩ := hready
      refine ⟨hshort, a, h.selects_iff.mpr hselects, fun text htext => ?_⟩
      rw [h.indexedInst_eq (hn.selects hselects).1]
      exact htexts text htext

/-- **The clauses of a task that has its commit return** when each is ready and no class is created twice. -/
theorem body_returns {restore : SysM τ Unit} {s₀ : Sys τ} {body : List TaskItem} {c : CommitAddr}
    (hn : s₀.idx.Named) (hrole : s₀.snapshot.role ≠ .reader) (hcommit : s₀.task.commit = some c)
    (h₀ : Drafted s₀ s₀ []) (hready : ∀ item ∈ body, s₀.idx.Ready item) (hnodup : (createdNames body).Nodup) :
    ∃ s', (body.forM (parseItem restore)).run s₀ = .ok () s' ∧ s'.task.commit = some c := by
  suffices hgen : ∀ done rest s, body = done ++ rest → Drafted s₀ s done → s.task.commit = some c →
      ∃ s', (rest.forM (parseItem restore)).run s = .ok () s' ∧ s'.task.commit = some c from
    hgen [] body s₀ rfl h₀ hcommit
  intro done rest
  induction rest generalizing done with
  | nil => exact fun s _ _ hs => ⟨s, rfl, hs⟩
  | cons item rest ih =>
      intro s hbody hdone hs
      have hmem : item ∈ body := by rw [hbody]; exact List.mem_append_right _ List.mem_cons_self
      have hitem := hdone.parsing.idx.ready hn (hready item hmem)
      have hrole₁ : s.snapshot.role ≠ .reader := by rw [hdone.parsing.snapshot]; exact hrole
      have hfirst : ∃ s₁, (parseItem restore item).run s = .ok () s₁ ∧ s₁.task.commit = some c := by
        cases item with
        | importClass name clauses =>
            obtain ⟨hname, hfree⟩ := hitem
            refine parseClassImport_returns hs hname hfree fun hseen => ?_
            -- the class is not among those created before
            rw [hdone.classNames, List.mem_reverse] at hseen
            have happend : createdNames body = createdNames done ++ ([name] ++ createdNames rest) := by
              rw [hbody, createdNames_append]
              rfl
            rw [happend, List.nodup_append'] at hnodup
            exact hnodup.2.2 hseen (List.mem_append_left _ (List.mem_singleton_self name))
        | selectClass name texts =>
            obtain ⟨r, s₁, hrun, hcommit₁⟩ := kndClassSelect_returns restore
              (hdone.parsing.idx.named hn) hs hrole₁ hitem
            refine ⟨s₁, ?_, hcommit₁⟩
            rw [parseItem, run_bind_of_ok hrun]
            rfl
      obtain ⟨s₁, hrun, hcommit₁⟩ := hfirst
      obtain ⟨s', hothers, hcommit'⟩ := ih (done ++ [item]) s₁ (by rw [hbody, List.append_assoc]; rfl)
        (parseItem_drafted hn hrole hdone hrun) hcommit₁
      exact ⟨s', (run_bind_of_ok hrun).trans hothers, hcommit'⟩

end Knowdy
