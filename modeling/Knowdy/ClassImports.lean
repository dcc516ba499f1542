import Knowdy.Lib.Ancestry
import Knowdy.Output
import Knowdy.SharedDict
import Mathlib.Data.List.Forall2
import Mathlib.Data.List.Perm.Basic

/-! # Imports of classes

`knd_class_import` registers the name of a class, and the entries that its bases refer to. In a commit both go to the
name index of the task: a base that is not there yet leaves an entry without a class. The bulk load keeps the names of
the classes in the index of the repository.

* `setClassName`, `setClassVar`, `kndClassImport`, `importClasses` — the code.
* `Reads` — what the base declarations of a class leave in the memory.
* `Inv` — what a task has imported; `importClasses_ok_iff` — when it succeeds.
* `OrderIrrelevant` — every order of some declarations succeeds or fails alike, and creates the same classes.
* `orderIrrelevant_iff` — it is irrelevant where no order succeeds, or no declaration refers to another. -/

namespace Knowdy.ClassImports

/-- The address of a `struct kndClassEntry`. -/
abbrev EntryAddr := Nat

/-! ## (1) Memory -/

/-- `struct kndClassEntry`. -/
structure ClassEntry where
  /-- `name`. -/
  name : Name := []
  /-- The address of `class`, if there is one. -/
  body : Option Nat := none

/-- `struct kndClass`. -/
structure KndClass where
  /-- `name`. -/
  name : Name := []
  /-- `entry`. -/
  entry : EntryAddr
  /-- The entries of `baseclass_vars`. -/
  baseclassVars : List EntryAddr := []

/-- The type of a task. -/
inductive TaskType
  /-- `KND_BULK_LOAD_STATE`. -/
  | bulkLoad
  /-- `KND_RESTORE_STATE`. -/
  | restore
  /-- `KND_COMMIT_STATE`. -/
  | commit
  deriving DecidableEq

/-- **The memory of a task** that imports classes. -/
structure ImportState where
  /-- The class entries. -/
  entries : EntryAddr → ClassEntry
  /-- The classes. -/
  classes : Nat → KndClass
  /-- The next free address of an entry. -/
  nextEntry : Nat
  /-- The next free address of a class. -/
  nextClass : Nat
  /-- `class_name_idx` of the repository. -/
  repoIdx : SharedDict EntryAddr
  /-- `class_name_idx` of the task. -/
  taskIdx : SharedDict EntryAddr
  /-- `class_state_refs` of the commit, all `KND_CREATED`. -/
  commit : List EntryAddr

/-- What the task meets in the repositories. -/
structure Repos where
  /-- `knd_class_acquire` succeeds, and the class was not removed. -/
  acquires : EntryAddr → Bool
  /-- `knd_get_class` finds the name in the repository that this one is based on. -/
  base : Name → Bool
  /-- It finds it in the base repository of the user. -/
  shared : Name → Bool

/-- The declaration of a class, as far as names go. -/
structure ClassRecord where
  /-- The name. -/
  name : Name
  /-- The names of the bases. -/
  bases : List Name := []
  deriving DecidableEq

/-- What an import can fail with. -/
inductive ImportErr
  /-- `knd_CONFLICT`: the class exists. -/
  | conflict
  /-- `gsl_FORMAT`: a base without a name. -/
  | format
  /-- `gsl_LIMIT`: the name of a base is too long. -/
  | limit
  /-- A class without a name. -/
  | noName
  /-- The name index refused a name. -/
  | idx (e : KndErr)
  deriving DecidableEq

/-- `KND_NAME_SIZE`. -/
def nameSize : Nat := 1024 - 8

/-! ## (2) The code -/

/-- `knd_dict_set` of `knd_dict.c`, whose items are kept like those of a shared one; the pool has a page. -/
def kndDictSet (self : SharedDict EntryAddr) (key : Name) (entry : EntryAddr) :
    Except KndErr (SharedDict EntryAddr) :=
  match dictScan self key false with
  | .error e => .error e
  | .ok _ => .ok (self.push ⟨.valid, key, entry, []⟩)

namespace ImportState

variable (s : ImportState)

/-- The entry that the task has for a name. -/
def lookup (name : Name) : Option EntryAddr := kndSharedDictGet s.taskIdx name

/-- A new class with a new entry. -/
def newClass : ImportState :=
  { s with
    entries := Function.update s.entries s.nextEntry { body := some s.nextClass }
    classes := Function.update s.classes s.nextClass { entry := s.nextEntry }
    nextEntry := s.nextEntry + 1
    nextClass := s.nextClass + 1 }

/-- The name of a class and of its entry. -/
def setName (c : Nat) (name : Name) : ImportState :=
  { s with
    entries := Function.update s.entries (s.classes c).entry { s.entries (s.classes c).entry with name }
    classes := Function.update s.classes c { s.classes c with name } }

/-- A class takes over an entry. -/
def adopt (c : Nat) (entry : EntryAddr) (name : Name) : ImportState :=
  { s with
    entries := Function.update s.entries entry { s.entries entry with body := some c }
    classes := Function.update s.classes c { s.classes c with name, entry } }

/-- A new entry without a class. -/
def newEntry (name : Name) : ImportState :=
  { s with
    entries := Function.update s.entries s.nextEntry { name }
    nextEntry := s.nextEntry + 1 }

/-- A base of a class. -/
def addBase (c : Nat) (entry : EntryAddr) : ImportState :=
  { s with
    classes := Function.update s.classes c
      { s.classes c with baseclassVars := (s.classes c).baseclassVars ++ [entry] } }

/-- `knd_class_commit_state`. -/
def commitState (entry : EntryAddr) : ImportState := { s with commit := entry :: s.commit }

/-- `knd_task_reset`. -/
def reset : ImportState :=
  { s with
    taskIdx := { s.taskIdx with hashArray := fun _ => [] }
    commit := [] }

end ImportState

section Code

variable (R : Repos) (task : TaskType)

/-- Does `knd_get_class` find a class? -/
def kndGetClass (repoIdx : SharedDict EntryAddr) (name : Name) : Bool :=
  match kndSharedDictGet repoIdx name with
  | none => R.base name
  | some entry => R.acquires entry

/-- `set_class_name` in a bulk load. -/
def setClassNameBulk (self : Nat) (name : Name) (s : ImportState) : Except ImportErr ImportState :=
  match kndSharedDictGet s.repoIdx name with
  | none =>
      let s := s.setName self name
      .ok { s with repoIdx := s.repoIdx.push ⟨.valid, name, (s.classes self).entry, []⟩ }
  | some entry => if (s.entries entry).body = none then .ok (s.adopt self entry name) else .error .conflict

/-- `set_class_name` in a commit. -/
def setClassNameCommit (self : Nat) (name : Name) (s : ImportState) : Except ImportErr ImportState :=
  if kndGetClass R s.repoIdx name then .error .conflict
  else if R.shared name then .error .conflict
  else
    match s.lookup name with
    | none =>
        let s := s.setName self name
        match kndDictSet s.taskIdx name (s.classes self).entry with
        | .error e => .error (.idx e)
        | .ok taskIdx => .ok { s with taskIdx }
    | some _ => .error .conflict

/-- `set_class_name`. -/
def setClassName (self : Nat) (name : Name) (s : ImportState) : Except ImportErr ImportState :=
  match task with
  | .bulkLoad => setClassNameBulk self name s
  | _ => setClassNameCommit R self name s

/-- `set_class_var`: the entry of a base. -/
def setClassVar (s : ImportState) (name : Name) : Except ImportErr (EntryAddr × ImportState) :=
  if name = [] then .error .format
  else if nameSize ≤ name.length then .error .limit
  else
    match s.lookup name with
    | some entry => .ok (entry, s)
    | none =>
        match kndDictSet s.taskIdx name s.nextEntry with
        | .error e => .error (.idx e)
        | .ok taskIdx => .ok (s.nextEntry, { s.newEntry name with taskIdx })

/-- `parse_baseclass`. -/
def parseBaseclass (self : Nat) (s : ImportState) (name : Name) : Except ImportErr ImportState :=
  (setClassVar s name).map fun r => r.2.addBase self r.1

/-- `knd_class_import`. -/
def kndClassImport (s : ImportState) (record : ClassRecord) : Except ImportErr ImportState := do
  let self := s.nextClass
  let s ← setClassName R task self record.name s.newClass
  let s ← record.bases.foldlM (parseBaseclass self) s
  if record.name = [] then .error .noName
  else if task = .bulkLoad then .ok s
  else .ok (s.commitState (s.classes self).entry)

/-- A task that imports classes. -/
def importClasses (s : ImportState) (records : List ClassRecord) : Except ImportErr ImportState :=
  records.foldlM (kndClassImport R task) s

end Code

/-! ## (3) The bases of a class -/

theorem kndDictSet_of_get_eq_none {self : SharedDict EntryAddr} {key : Name} (h : kndSharedDictGet self key = none)
    (entry : EntryAddr) : kndDictSet self key entry = .ok (self.push ⟨.valid, key, entry, []⟩) := by
  have hscan : ∃ head, dictScan self key false = .ok head := by
    rw [kndSharedDictGet] at h
    rw [dictScan]
    cases hitem : self.item? key with
    | none => exact ⟨_, rfl⟩
    | some item =>
        rw [hitem] at h
        have hphase : item.phase = .removed := by
          by_contra hne
          simp [hne] at h
        exact ⟨self.bucket key, by simp [hphase]⟩
  obtain ⟨head, hscan⟩ := hscan
  rw [kndDictSet, hscan]

/-- A name that a base may have. -/
def GoodName (name : Name) : Prop := name ≠ [] ∧ name.length < nameSize

instance (name : Name) : Decidable (GoodName name) := inferInstanceAs (Decidable (_ ∧ _))

/-- **What the base declarations of a class leave in the memory**: an entry for each name. -/
structure Reads (c : Nat) (names : List Name) (s s' : ImportState) : Prop where
  /-- The entries stay. -/
  entries : ∀ e, e < s.nextEntry → s'.entries e = s.entries e
  /-- No address becomes free. -/
  nextEntry : s.nextEntry ≤ s'.nextEntry
  /-- So do the other classes. -/
  classes : ∀ c', c' ≠ c → s'.classes c' = s.classes c'
  /-- The bases of the class. -/
  bases : ∃ es, s'.classes c = { s.classes c with baseclassVars := (s.classes c).baseclassVars ++ es } ∧
    es.map some = names.map s'.lookup
  /-- No class is new. -/
  nextClass : s'.nextClass = s.nextClass
  /-- Nothing is committed. -/
  commit : s'.commit = s.commit
  /-- The repository stays. -/
  repoIdx : s'.repoIdx = s.repoIdx
  /-- The index of the task only grows. -/
  kept : ∀ name e, s.lookup name = some e → s'.lookup name = some e
  /-- What is new there is without a class. -/
  new : ∀ name e, s'.lookup name = some e → s.lookup name = some e ∨
    s.lookup name = none ∧ name ∈ names ∧ s.nextEntry ≤ e ∧ e < s'.nextEntry ∧ s'.entries e = { name }

namespace Reads

variable {c : Nat} {names names' : List Name} {s s' s'' : ImportState}

theorem nil (c : Nat) (s : ImportState) : Reads c [] s s where
  entries _ _ := rfl
  nextEntry := le_rfl
  classes _ _ := rfl
  bases := ⟨[], by rw [List.append_nil], rfl⟩
  nextClass := rfl
  commit := rfl
  repoIdx := rfl
  kept _ _ := id
  new _ _ := .inl

theorem trans (h : Reads c names s s') (h' : Reads c names' s' s'') : Reads c (names ++ names') s s'' where
  entries e he := (h'.entries e (lt_of_lt_of_le he h.nextEntry)).trans (h.entries e he)
  nextEntry := h.nextEntry.trans h'.nextEntry
  classes c' hc' := (h'.classes c' hc').trans (h.classes c' hc')
  bases := by
    obtain ⟨es, hself, hes⟩ := h.bases
    obtain ⟨es', hself', hes'⟩ := h'.bases
    refine ⟨es ++ es', by rw [hself', hself, List.append_assoc], ?_⟩
    rw [List.map_append, List.map_append, hes', hes]
    congr 1
    refine List.map_congr_left fun name hname => ?_
    have hmem : s'.lookup name ∈ es.map some := hes ▸ List.mem_map_of_mem hname
    obtain ⟨e, -, he⟩ := List.mem_map.mp hmem
    rw [← he, h'.kept name e he.symm]
  nextClass := h'.nextClass.trans h.nextClass
  commit := h'.commit.trans h.commit
  repoIdx := h'.repoIdx.trans h.repoIdx
  kept name e he := h'.kept name e (h.kept name e he)
  new name e he := by
    rcases h'.new name e he with he' | ⟨hnone, hmem, hle, hlt, hentry⟩
    · rcases h.new name e he' with he | ⟨hnone, hmem, hle, hlt, hentry⟩
      · exact .inl he
      · exact .inr ⟨hnone, List.mem_append_left _ hmem, hle, lt_of_lt_of_le hlt h'.nextEntry,
          (h'.entries e hlt).trans hentry⟩
    · refine .inr ⟨?_, List.mem_append_right _ hmem, h.nextEntry.trans hle, hlt, hentry⟩
      cases hlookup : s.lookup name with
      | none => rfl
      | some e' =>
          rw [h.kept name e' hlookup] at hnone
          cases hnone

/-- Every name that was read is found. -/
theorem found (h : Reads c names s s') {name : Name} (hname : name ∈ names) : ∃ e, s'.lookup name = some e := by
  obtain ⟨es, -, hes⟩ := h.bases
  have hmem : s'.lookup name ∈ es.map some := hes ▸ List.mem_map_of_mem hname
  obtain ⟨e, -, he⟩ := List.mem_map.mp hmem
  exact ⟨e, he.symm⟩

end Reads

section Bases

variable {c : Nat} {s s' : ImportState} {name : Name} {names : List Name}

/-- Lookup after a new name. -/
theorem get_push (self : SharedDict EntryAddr) (key : Name) (e : EntryAddr) (name : Name) :
    kndSharedDictGet (self.push ⟨.valid, key, e, []⟩) name =
      if name = key then some e else kndSharedDictGet self name := by
  rw [kndSharedDictGet_push]
  simp

/-- **One base declaration.** -/
theorem parseBaseclass_ok (hrun : parseBaseclass c s name = .ok s') : GoodName name ∧ Reads c [name] s s' := by
  rw [parseBaseclass, setClassVar] at hrun
  split at hrun
  · cases hrun
  rename_i hempty
  split at hrun
  · cases hrun
  rename_i hlimit
  refine ⟨⟨hempty, Nat.lt_of_not_le hlimit⟩, ?_⟩
  split at hrun
  · rename_i e he
    cases hrun
    refine ⟨fun _ _ => rfl, le_rfl, fun c' hc' => Function.update_of_ne hc' .., ⟨[e], Function.update_self .., ?_⟩,
      rfl, rfl, rfl, fun _ _ => id, fun _ _ => .inl⟩
    rw [List.map_singleton, List.map_singleton, ← he]
    rfl
  · rename_i hnone
    rw [kndDictSet_of_get_eq_none hnone] at hrun
    cases hrun
    have hlookup : ∀ key, kndSharedDictGet (s.taskIdx.push ⟨.valid, name, s.nextEntry, []⟩) key =
        if key = name then some s.nextEntry else s.lookup key := fun key => get_push _ _ _ _
    refine ⟨fun e he => Function.update_of_ne (Nat.ne_of_lt he) .., Nat.le_succ _,
      fun c' hc' => Function.update_of_ne hc' .., ⟨[s.nextEntry], Function.update_self .., ?_⟩, rfl, rfl, rfl,
      fun key e he => ?_, fun key e he => ?_⟩
    · rw [List.map_singleton, List.map_singleton]
      exact congrArg (fun x => [x]) ((hlookup name).trans (if_pos rfl)).symm
    · refine (hlookup key).trans ?_
      have hne : key ≠ name := by
        rintro rfl
        rw [hnone] at he
        cases he
      rw [if_neg hne, he]
    · have he := (hlookup key).symm.trans he
      by_cases hkey : key = name
      · subst hkey
        rw [if_pos rfl] at he
        cases he
        exact .inr ⟨hnone, List.mem_singleton_self _, le_rfl, Nat.lt_succ_self _, Function.update_self ..⟩
      · rw [if_neg hkey] at he
        exact .inl he

/-- A good name is accepted. -/
theorem parseBaseclass_of_goodName (h : GoodName name) (c : Nat) (s : ImportState) :
    ∃ s', parseBaseclass c s name = .ok s' := by
  rw [parseBaseclass, setClassVar, if_neg h.1, if_neg (Nat.not_le_of_lt h.2)]
  cases hlookup : s.lookup name with
  | some e => exact ⟨_, rfl⟩
  | none =>
      simp only [kndDictSet_of_get_eq_none hlookup s.nextEntry]
      exact ⟨_, rfl⟩

/-- **The base declarations of a class** succeed where every name is good. -/
theorem foldlM_parseBaseclass_ok (hrun : names.foldlM (parseBaseclass c) s = .ok s') :
    (∀ name ∈ names, GoodName name) ∧ Reads c names s s' := by
  induction names generalizing s with
  | nil =>
      cases hrun
      exact ⟨fun _ h => absurd h List.not_mem_nil, .nil c _⟩
  | cons name names ih =>
      rw [List.foldlM_cons, bind_eq_ok] at hrun
      obtain ⟨s₁, hround, hrest⟩ := hrun
      obtain ⟨hgood, hreads⟩ := parseBaseclass_ok hround
      obtain ⟨hgoods, hreads'⟩ := ih hrest
      exact ⟨List.forall_mem_cons.mpr ⟨hgood, hgoods⟩, hreads.trans hreads'⟩

theorem foldlM_parseBaseclass_of_goodName (h : ∀ name ∈ names, GoodName name) (c : Nat) (s : ImportState) :
    ∃ s', names.foldlM (parseBaseclass c) s = .ok s' := by
  induction names generalizing s with
  | nil => exact ⟨s, rfl⟩
  | cons name names ih =>
      obtain ⟨hgood, hgoods⟩ := List.forall_mem_cons.mp h
      obtain ⟨s₁, hround⟩ := parseBaseclass_of_goodName hgood c s
      obtain ⟨s', hrest⟩ := ih hgoods s₁
      exact ⟨s', by rw [List.foldlM_cons, hround]; exact hrest⟩

end Bases

/-! ## (4) What a task has imported -/

/-- **A class of the commit** as it was declared: its bases are the entries that the task has for their names. -/
structure Declares (s : ImportState) (e : EntryAddr) (record : ClassRecord) : Prop where
  /-- The entry is that of the name. -/
  found : s.lookup record.name = some e
  /-- The class. -/
  body : ∃ c, (s.entries e).body = some c ∧ c < s.nextClass ∧
    (s.classes c).baseclassVars.map some = record.bases.map s.lookup

/-- **What holds when the classes `done` are imported**, the last one first. -/
structure Inv (repoIdx : SharedDict EntryAddr) (done : List ClassRecord) (s : ImportState) : Prop where
  /-- The repository stays. -/
  repoIdx : s.repoIdx = repoIdx
  /-- The entry of a name has a class if the name was declared. -/
  entry : ∀ name e, s.lookup name = some e → e < s.nextEntry ∧ (s.entries e).name = name ∧
    ((s.entries e).body.isSome ↔ ∃ record ∈ done, record.name = name)
  /-- A name has an entry if it was declared or referred to. -/
  known : ∀ name, (s.lookup name).isSome ↔ ∃ record ∈ done, name = record.name ∨ name ∈ record.bases
  /-- The commit. -/
  commit : List.Forall₂ (Declares s) s.commit done

/-- **What every order needs of a declaration**: a new name, and good names. -/
structure Importable (R : Repos) (repoIdx : SharedDict EntryAddr) (record : ClassRecord) : Prop where
  /-- It has a name. -/
  name : record.name ≠ []
  /-- The bases have good names. -/
  bases : ∀ name ∈ record.bases, GoodName name
  /-- The class does not exist. -/
  new : kndGetClass R repoIdx record.name = false ∧ R.shared record.name = false

section Import

variable {R : Repos} {repoIdx : SharedDict EntryAddr} {done : List ClassRecord} {record : ClassRecord}
  {s s' : ImportState}

/-- The class that a name was registered for. -/
def ImportState.register (s : ImportState) (c : Nat) (name : Name) : ImportState :=
  let s := s.setName c name
  { s with taskIdx := s.taskIdx.push ⟨.valid, name, (s.classes c).entry, []⟩ }

theorem setClassNameCommit_eq (c : Nat) (name : Name) (s : ImportState) :
    setClassNameCommit R c name s =
      if kndGetClass R s.repoIdx name = false ∧ R.shared name = false ∧ s.lookup name = none then
        .ok (s.register c name)
      else .error .conflict := by
  rw [setClassNameCommit]
  by_cases hget : kndGetClass R s.repoIdx name = true
  · simp [hget]
  by_cases hshared : R.shared name = true
  · simp [hshared]
  rw [if_neg hget, if_neg hshared]
  have hget : kndGetClass R s.repoIdx name = false := by simpa using hget
  have hshared : R.shared name = false := by simpa using hshared
  cases hlookup : s.lookup name with
  | some e => simp
  | none =>
      rw [if_pos ⟨hget, hshared, rfl⟩]
      have hlookup : kndSharedDictGet (s.setName c name).taskIdx name = none := hlookup
      have hset := kndDictSet_of_get_eq_none hlookup ((s.setName c name).classes c).entry
      simp only [hset]
      rfl

/-- The entry of a new class. -/
theorem entries_register_newClass (s : ImportState) (name : Name) :
    (s.newClass.register s.nextClass name).entries s.nextEntry = { name, body := some s.nextClass } := by
  simp [ImportState.register, ImportState.setName, ImportState.newClass]

theorem entries_register_newClass_of_ne (s : ImportState) (name : Name) {e : EntryAddr} (h : e ≠ s.nextEntry) :
    (s.newClass.register s.nextClass name).entries e = s.entries e := by
  simp [ImportState.register, ImportState.setName, ImportState.newClass, Function.update_of_ne h]

theorem classes_register_newClass (s : ImportState) (name : Name) :
    (s.newClass.register s.nextClass name).classes s.nextClass = { name, entry := s.nextEntry } := by
  simp [ImportState.register, ImportState.setName, ImportState.newClass]

theorem classes_register_newClass_of_ne (s : ImportState) (name : Name) {c : Nat} (h : c ≠ s.nextClass) :
    (s.newClass.register s.nextClass name).classes c = s.classes c := by
  simp [ImportState.register, ImportState.setName, ImportState.newClass, Function.update_of_ne h]

theorem lookup_register_newClass (s : ImportState) (name key : Name) :
    (s.newClass.register s.nextClass name).lookup key =
      if key = name then some s.nextEntry else s.lookup key := by
  refine (get_push _ _ _ _).trans ?_
  simp [ImportState.setName, ImportState.newClass, ImportState.lookup]

/-- **A returning import in a commit**: a new name, its bases, and a reference in the commit. -/
theorem kndClassImport_commit_ok (hrun : kndClassImport R .commit s record = .ok s') :
    Importable R s.repoIdx record ∧ s.lookup record.name = none ∧
      ∃ t, Reads s.nextClass record.bases (s.newClass.register s.nextClass record.name) t ∧
        s' = t.commitState s.nextEntry := by
  rw [kndClassImport, bind_eq_ok] at hrun
  obtain ⟨s₁, hname, hrun⟩ := hrun
  rw [bind_eq_ok] at hrun
  obtain ⟨s₂, hbases, hrun⟩ := hrun
  have hname : setClassNameCommit R s.nextClass record.name s.newClass = .ok s₁ := hname
  rw [setClassNameCommit_eq] at hname
  split at hname
  · rename_i hnew
    cases hname
    obtain ⟨hgood, hreads⟩ := foldlM_parseBaseclass_ok hbases
    split at hrun
    · cases hrun
    rename_i hempty
    obtain ⟨es, hself, -⟩ := hreads.bases
    rw [classes_register_newClass] at hself
    refine ⟨⟨hempty, hgood, hnew.1, hnew.2.1⟩, hnew.2.2, s₂, hreads, ?_⟩
    rw [if_neg (by decide), hself] at hrun
    cases hrun
    rfl
  · cases hname

/-- It returns where it can. -/
theorem kndClassImport_commit_of_importable (h : Importable R s.repoIdx record) (hnew : s.lookup record.name = none) :
    ∃ s', kndClassImport R .commit s record = .ok s' := by
  have hname : setClassName R .commit s.nextClass record.name s.newClass =
      .ok (s.newClass.register s.nextClass record.name) := by
    refine (setClassNameCommit_eq _ _ _).trans (if_pos ⟨h.new.1, h.new.2, hnew⟩)
  obtain ⟨t, ht⟩ := foldlM_parseBaseclass_of_goodName h.bases s.nextClass
    (s.newClass.register s.nextClass record.name)
  refine ⟨t.commitState (t.classes s.nextClass).entry, ?_⟩
  rw [kndClassImport, bind_eq_ok]
  refine ⟨_, hname, ?_⟩
  rw [bind_eq_ok]
  exact ⟨t, ht, by rw [if_neg h.name, if_neg (by decide)]⟩

section Imported

variable {t : ImportState} (hnew : s.lookup record.name = none)
  (hreads : Reads s.nextClass record.bases (s.newClass.register s.nextClass record.name) t)

include hreads

/-- The name of the class is found. -/
theorem Reads.self_found : t.lookup record.name = some s.nextEntry := by
  refine hreads.kept _ _ ?_
  rw [lookup_register_newClass, if_pos rfl]

/-- The entry of the class. -/
theorem Reads.self_entry : t.entries s.nextEntry = { name := record.name, body := some s.nextClass } := by
  rw [hreads.entries _ (Nat.lt_succ_self _), entries_register_newClass]

/-- What a name stands for after the import: the class, what was found before, or a new entry without a class. -/
theorem Reads.lookup_cases {name : Name} {e : EntryAddr} (he : t.lookup name = some e) :
    name = record.name ∧ e = s.nextEntry ∨ name ≠ record.name ∧ s.lookup name = some e ∨
      name ≠ record.name ∧ s.lookup name = none ∧ name ∈ record.bases ∧ e < t.nextEntry ∧ t.entries e = { name } := by
  by_cases hne : name = record.name
  · rw [hne, hreads.self_found] at he
    cases he
    exact .inl ⟨hne, rfl⟩
  · rcases hreads.new name e he with he | ⟨hnone, hmem, -, helt, hfresh⟩
    · rw [lookup_register_newClass, if_neg hne] at he
      exact .inr (.inl ⟨hne, he⟩)
    · rw [lookup_register_newClass, if_neg hne] at hnone
      exact .inr (.inr ⟨hne, hnone, hmem, helt, hfresh⟩)

include hnew

/-- **What was found is found**, and was not written. -/
theorem Inv.lookup_kept (h : Inv repoIdx done s) {name : Name} {e : EntryAddr} (he : s.lookup name = some e) :
    t.lookup name = some e ∧ t.entries e = s.entries e := by
  have hne : name ≠ record.name := by
    rintro rfl
    rw [hnew] at he
    cases he
  have hel := (h.entry name e he).1
  refine ⟨hreads.kept name e (by rw [lookup_register_newClass, if_neg hne, he]), ?_⟩
  rw [hreads.entries e (Nat.lt_succ_of_lt hel), entries_register_newClass_of_ne _ _ (Nat.ne_of_lt hel)]

/-- Entries after an import. -/
theorem Inv.entry_import (h : Inv repoIdx done s) {name : Name} {e : EntryAddr} (he : t.lookup name = some e) :
    e < t.nextEntry ∧ (t.entries e).name = name ∧
      ((t.entries e).body.isSome ↔ ∃ record' ∈ record :: done, record'.name = name) := by
  have hgrow := hreads.nextEntry
  rcases hreads.lookup_cases he with ⟨rfl, rfl⟩ | ⟨hne, he⟩ | ⟨hne, hnone, -, helt, hfresh⟩
  · rw [hreads.self_entry]
    exact ⟨Nat.lt_of_succ_le hgrow, rfl, iff_of_true rfl ⟨record, List.mem_cons_self .., rfl⟩⟩
  · obtain ⟨hel, hname, hbody⟩ := h.entry name e he
    rw [(h.lookup_kept hnew hreads he).2, List.exists_mem_cons_iff, or_iff_right (Ne.symm hne)]
    exact ⟨Nat.lt_of_lt_of_le (Nat.lt_succ_of_lt hel) hgrow, hname, hbody⟩
  · rw [hfresh, List.exists_mem_cons_iff, or_iff_right (Ne.symm hne)]
    refine ⟨helt, rfl, iff_of_false (by simp) ?_⟩
    rintro ⟨record', hmem, rfl⟩
    have hknown := (h.known record'.name).mpr ⟨record', hmem, .inl rfl⟩
    rw [hnone] at hknown
    cases hknown

/-- Names after an import. -/
theorem Inv.known_import (h : Inv repoIdx done s) (name : Name) :
    (t.lookup name).isSome ↔ ∃ record' ∈ record :: done, name = record'.name ∨ name ∈ record'.bases := by
  rw [List.exists_mem_cons_iff, ← h.known]
  constructor
  · intro hsome
    obtain ⟨e, he⟩ := Option.isSome_iff_exists.mp hsome
    rcases hreads.lookup_cases he with ⟨rfl, -⟩ | ⟨-, he⟩ | ⟨-, -, hmem, -, -⟩
    · exact .inl (.inl rfl)
    · exact .inr (Option.isSome_iff_exists.mpr ⟨e, he⟩)
    · exact .inl (.inr hmem)
  · rintro ((rfl | hmem) | hsome)
    · exact Option.isSome_iff_exists.mpr ⟨_, hreads.self_found⟩
    · exact Option.isSome_iff_exists.mpr (hreads.found hmem)
    · obtain ⟨e, he⟩ := Option.isSome_iff_exists.mp hsome
      exact Option.isSome_iff_exists.mpr ⟨e, (h.lookup_kept hnew hreads he).1⟩

omit hnew

/-- The class is in the commit as it was declared. -/
theorem Reads.declares : Declares t s.nextEntry record := by
  refine ⟨hreads.self_found, s.nextClass, congrArg ClassEntry.body hreads.self_entry,
    Nat.lt_of_lt_of_eq (Nat.lt_succ_self _) hreads.nextClass.symm, ?_⟩
  obtain ⟨es, hclass, hes⟩ := hreads.bases
  rw [classes_register_newClass] at hclass
  rw [← hes]
  exact congrArg (List.map some) (congrArg KndClass.baseclassVars hclass)

include hnew

/-- The classes of the commit stay as they were declared. -/
theorem Inv.declares_kept (h : Inv repoIdx done s) {e : EntryAddr} {record' : ClassRecord}
    (hdecl : Declares s e record') : Declares t e record' := by
  obtain ⟨c, hbody, hc, hvars⟩ := hdecl.body
  have hfound := h.lookup_kept hnew hreads hdecl.found
  refine ⟨hfound.1, c, ?_, ?_, ?_⟩
  · rw [hfound.2, hbody]
  · exact Nat.lt_of_lt_of_eq (Nat.lt_succ_of_lt hc) hreads.nextClass.symm
  · have hclass : t.classes c = s.classes c := by
      rw [hreads.classes c (Nat.ne_of_lt hc), classes_register_newClass_of_ne _ _ (Nat.ne_of_lt hc)]
    rw [hclass, hvars]
    -- the bases were found when the class was declared
    refine List.map_congr_left fun name hname => ?_
    have hmem : s.lookup name ∈ (s.classes c).baseclassVars.map some := hvars ▸ List.mem_map_of_mem hname
    obtain ⟨e', -, he'⟩ := List.mem_map.mp hmem
    rw [← he', (h.lookup_kept hnew hreads he'.symm).1]

end Imported

/-- **One import more.** -/
theorem Inv.kndClassImport (h : Inv repoIdx done s) (hrun : kndClassImport R .commit s record = .ok s') :
    Inv repoIdx (record :: done) s' := by
  obtain ⟨-, hnew, t, hreads, rfl⟩ := kndClassImport_commit_ok hrun
  have hcommit : (t.commitState s.nextEntry).commit = s.nextEntry :: s.commit :=
    congrArg (s.nextEntry :: ·) hreads.commit
  refine ⟨hreads.repoIdx.trans h.repoIdx, fun name e he => h.entry_import hnew hreads he,
    fun name => h.known_import hnew hreads name, ?_⟩
  rw [hcommit]
  have hself : Declares t s.nextEntry record := hreads.declares
  refine .cons ⟨hself.found, hself.body⟩ (h.commit.imp fun e record' hdecl => ?_)
  have hkept : Declares t e record' := h.declares_kept hnew hreads hdecl
  exact ⟨hkept.found, hkept.body⟩

end Import

/-! ## (5) When a task succeeds -/

/-- **Imports in an order**: every class can be imported, and none was declared or referred to before. -/
theorem importClasses_ok_iff {R : Repos} {repoIdx : SharedDict EntryAddr} {done order : List ClassRecord}
    {s : ImportState} (h : Inv repoIdx done s) :
    (∃ s', importClasses R .commit s order = .ok s') ↔
      (∀ record ∈ order, Importable R repoIdx record ∧ ∀ earlier ∈ done,
        record.name ≠ earlier.name ∧ record.name ∉ earlier.bases) ∧
      order.Pairwise fun earlier record => record.name ≠ earlier.name ∧ record.name ∉ earlier.bases := by
  have hnew : ∀ {done s}, Inv repoIdx done s → ∀ name, s.lookup name = none ↔
      ∀ earlier ∈ done, name ≠ earlier.name ∧ name ∉ earlier.bases := by
    intro done s h name
    have hknown := not_congr (h.known name)
    simpa using hknown
  induction order generalizing done s with
  | nil => exact iff_of_true ⟨s, rfl⟩ ⟨fun _ hmem => absurd hmem List.not_mem_nil, .nil⟩
  | cons record order ih =>
      rw [List.forall_mem_cons, List.pairwise_cons]
      constructor
      · rintro ⟨s', hrun⟩
        rw [importClasses, List.foldlM_cons, bind_eq_ok] at hrun
        obtain ⟨s₁, hround, hrest⟩ := hrun
        obtain ⟨himportable, hnone, -⟩ := kndClassImport_commit_ok hround
        rw [h.repoIdx] at himportable
        obtain ⟨hall, hpairwise⟩ := (ih (h.kndClassImport hround)).mp ⟨s', hrest⟩
        exact ⟨⟨⟨himportable, (hnew h _).mp hnone⟩,
          fun later hmem => ⟨(hall later hmem).1, fun earlier hearlier =>
            (hall later hmem).2 earlier (List.mem_cons_of_mem _ hearlier)⟩⟩,
          fun later hmem => (hall later hmem).2 record (List.mem_cons_self ..), hpairwise⟩
      · rintro ⟨⟨⟨himportable, hnone⟩, hall⟩, hrecord, hpairwise⟩
        rw [← h.repoIdx] at himportable
        obtain ⟨s₁, hround⟩ := kndClassImport_commit_of_importable himportable ((hnew h _).mpr hnone)
        obtain ⟨s', hrest⟩ := (ih (h.kndClassImport hround)).mpr
          ⟨fun later hmem => ⟨(hall later hmem).1,
            List.forall_mem_cons.mpr ⟨hrecord later hmem, (hall later hmem).2⟩⟩, hpairwise⟩
        exact ⟨s', by rw [importClasses, List.foldlM_cons, hround]; exact hrest⟩

/-- What they leave. -/
theorem Inv.importClasses {R : Repos} {repoIdx : SharedDict EntryAddr} {done order : List ClassRecord}
    {s s' : ImportState} (h : Inv repoIdx done s) (hrun : importClasses R .commit s order = .ok s') :
    Inv repoIdx (order.reverse ++ done) s' := by
  induction order generalizing done s with
  | nil =>
      cases hrun
      exact h
  | cons record order ih =>
      rw [ClassImports.importClasses, List.foldlM_cons, bind_eq_ok] at hrun
      obtain ⟨s₁, hround, hrest⟩ := hrun
      rw [List.reverse_cons, List.append_assoc, List.singleton_append]
      exact ih (h.kndClassImport hround) hrest

/-- A task that was reset has imported nothing. -/
theorem inv_reset (s : ImportState) : Inv s.repoIdx [] s.reset := by
  have hnone : ∀ name, s.reset.lookup name = none := fun name => rfl
  refine ⟨rfl, fun name e he => ?_, fun name => ?_, .nil⟩
  · rw [hnone] at he
    cases he
  · rw [hnone]
    simp

/-! ## (6) The order of the declarations -/

/-- A class of a commit: its name, and of each base the name and whether its class is known to the task. -/
structure CreatedClass where
  /-- The name. -/
  name : Name
  /-- The bases. -/
  bases : List (Name × Bool)
  deriving DecidableEq

/-- The class of an entry. -/
def ImportState.created (s : ImportState) (e : EntryAddr) : CreatedClass where
  name := (s.entries e).name
  bases := match (s.entries e).body with
    | none => []
    | some c => (s.classes c).baseclassVars.map fun b => ((s.entries b).name, (s.entries b).body.isSome)

/-- **The classes that a commit creates.** -/
def ImportState.createdClasses (s : ImportState) : List CreatedClass := s.commit.map s.created

/-- The class that a record declares among others. -/
def ClassRecord.created (records : List ClassRecord) (record : ClassRecord) : CreatedClass where
  name := record.name
  bases := record.bases.map fun name => (name, records.any fun record => record.name = name)

/-- **The order is irrelevant**: every order of the declarations succeeds or fails alike, and the commits create the
same classes with the same bases. -/
structure OrderIrrelevant (R : Repos) (s : ImportState) (records : List ClassRecord) : Prop where
  /-- Success. -/
  succeeds : ∀ order order' : List ClassRecord, order.Perm records → order'.Perm records →
    ((∃ t, importClasses R .commit s order = .ok t) ↔ ∃ t, importClasses R .commit s order' = .ok t)
  /-- The classes. -/
  creates : ∀ (order order' : List ClassRecord) (t t' : ImportState), order.Perm records → order'.Perm records →
    importClasses R .commit s order = .ok t → importClasses R .commit s order' = .ok t' →
    t.createdClasses.Perm t'.createdClasses

section Order

variable {R : Repos} {repoIdx : SharedDict EntryAddr} {done records order : List ClassRecord} {s t : ImportState}

/-- Entries that were looked up. -/
theorem map_eq_of_map_some {α : Type} {lookup : Name → Option EntryAddr} {f : EntryAddr → α} {g : Name → α}
    {es : List EntryAddr} {names : List Name} (h : es.map some = names.map lookup)
    (hfound : ∀ name e, lookup name = some e → f e = g name) : es.map f = names.map g := by
  induction es generalizing names with
  | nil =>
      cases names with
      | nil => rfl
      | cons name names => cases h
  | cons e es ih =>
      cases names with
      | nil => cases h
      | cons name names =>
          rw [List.map_cons, List.map_cons, List.cons.injEq] at h
          rw [List.map_cons, List.map_cons, hfound name e h.1.symm, ih h.2]

/-- **The commit creates the classes as they were declared.** -/
theorem Inv.createdClasses_eq (h : Inv repoIdx done s) : s.createdClasses = done.map (ClassRecord.created done) := by
  have hbound : ∀ name e, s.lookup name = some e →
      ((s.entries e).name, (s.entries e).body.isSome) = (name, done.any fun record => record.name = name) := by
    intro name e he
    obtain ⟨-, hname, hbody⟩ := h.entry name e he
    rw [hname]
    refine congrArg (Prod.mk name) (Bool.eq_iff_iff.mpr (hbody.trans ?_))
    simp
  have hone : ∀ e record, Declares s e record → s.created e = record.created done := by
    intro e record hdecl
    obtain ⟨c, hbody, -, hvars⟩ := hdecl.body
    rw [ImportState.created, hbody, ClassRecord.created]
    congr 1
    · exact (h.entry _ _ hdecl.found).2.1
    · exact map_eq_of_map_some hvars hbound
  rw [ImportState.createdClasses, ← List.forall₂_eq_eq_eq, List.forall₂_map_left_iff, List.forall₂_map_right_iff]
  exact h.commit.imp hone

theorem ClassRecord.created_congr (h : order.Perm records) :
    ClassRecord.created order = ClassRecord.created records := by
  funext record
  rw [ClassRecord.created, ClassRecord.created]
  congr 1
  refine List.map_congr_left fun name _ => ?_
  rw [h.any_eq]

/-- **What an order creates** is what the records declare. -/
theorem createdClasses_perm (hperm : order.Perm records) (hrun : importClasses R .commit s.reset order = .ok t) :
    t.createdClasses.Perm (records.map (ClassRecord.created records)) := by
  have hinv := (inv_reset s).importClasses hrun
  rw [List.append_nil] at hinv
  have hreverse : order.reverse.Perm records := (List.reverse_perm order).trans hperm
  rw [hinv.createdClasses_eq, ClassRecord.created_congr hreverse]
  exact hreverse.map _

/-- When an order of distinct classes succeeds. -/
theorem importClasses_reset_ok_iff (hperm : order.Perm records) (hnodup : (records.map ClassRecord.name).Nodup) :
    (∃ t, importClasses R .commit s.reset order = .ok t) ↔
      (∀ record ∈ records, Importable R s.repoIdx record) ∧
        order.Pairwise fun earlier record => record.name ∉ earlier.bases := by
  have hdistinct : order.Pairwise fun earlier record => record.name ≠ earlier.name := by
    have hnodup := (hperm.map ClassRecord.name).nodup_iff.mpr hnodup
    exact (List.pairwise_map.mp hnodup).imp fun hne => Ne.symm hne
  rw [importClasses_ok_iff (inv_reset s)]
  constructor
  · rintro ⟨hall, hpairwise⟩
    exact ⟨fun record hmem => (hall record (hperm.mem_iff.mpr hmem)).1, hpairwise.imp And.right⟩
  · rintro ⟨hall, hpairwise⟩
    refine ⟨fun record hmem => ⟨hall record (hperm.mem_iff.mp hmem), fun _ h => absurd h List.not_mem_nil⟩, ?_⟩
    exact (hdistinct.and hpairwise).imp id

/-- **When the order of the declarations is irrelevant.** For distinct declarations that do not refer to each other in
a circle, a task finds every order alike if and only if no order succeeds, or no declaration refers to another. -/
theorem orderIrrelevant_iff (R : Repos) (s : ImportState) (records : List ClassRecord)
    (hnodup : (records.map ClassRecord.name).Nodup)
    (hacyclic : ∀ record, ¬Relation.TransGen
      (fun base heir => base ∈ records ∧ heir ∈ records ∧ base.name ∈ heir.bases) record record) :
    OrderIrrelevant R s.reset records ↔
      (∃ record ∈ records, ¬Importable R s.repoIdx record) ∨
        ∀ heir ∈ records, ∀ base ∈ records, base.name ∉ heir.bases := by
  constructor
  · intro hirrelevant
    by_contra hnot
    obtain ⟨hall, hrefers⟩ := not_or.mp hnot
    push Not at hall hrefers
    obtain ⟨heir, hheir, base, hbase, hrefers⟩ := hrefers
    -- the bases first
    obtain ⟨order, hperm, hpairwise⟩ := exists_perm_pairwise _ hacyclic records
    have hfirst : ∃ t, importClasses R .commit s.reset order = .ok t := by
      refine (importClasses_reset_ok_iff hperm hnodup).mpr ⟨hall, hpairwise.imp_of_mem fun {a b} ha hb hba hmem => ?_⟩
      exact hba ⟨hperm.mem_iff.mp hb, hperm.mem_iff.mp ha, hmem⟩
    -- the heir first
    have hne : base ≠ heir := by
      rintro rfl
      exact hacyclic base (.single ⟨hbase, hbase, hrefers⟩)
    have hperm' : (heir :: records.erase heir).Perm records := (List.perm_cons_erase hheir).symm
    obtain ⟨-, hpairwise'⟩ := (importClasses_reset_ok_iff hperm' hnodup).mp
      ((hirrelevant.succeeds order _ hperm hperm').mp hfirst)
    exact (List.pairwise_cons.mp hpairwise').1 base ((List.mem_erase_of_ne hne).mpr hbase) hrefers
  · intro hcond
    refine ⟨fun order order' hperm hperm' => ?_, fun order order' t t' hperm hperm' hrun hrun' => ?_⟩
    · rw [importClasses_reset_ok_iff hperm hnodup, importClasses_reset_ok_iff hperm' hnodup]
      refine and_congr_right fun hall => ?_
      rcases hcond with ⟨record, hmem, hnot⟩ | hapart
      · exact absurd (hall record hmem) hnot
      · have hpairwise : ∀ {l : List ClassRecord}, l.Perm records →
            l.Pairwise fun earlier record => record.name ∉ earlier.bases :=
          fun hl => List.pairwise_of_forall_mem_list fun a ha b hb =>
            hapart a (hl.mem_iff.mp ha) b (hl.mem_iff.mp hb)
        exact iff_of_true (hpairwise hperm) (hpairwise hperm')
    · exact (createdClasses_perm hperm hrun).trans (createdClasses_perm hperm' hrun').symm

end Order

/-! ## (7) The bulk load -/

/-- **The bulk load accepts every order** of distinct new classes, whether bases come before or after. -/
theorem importClasses_bulkLoad (R : Repos) {s : ImportState} {order : List ClassRecord}
    (hnodup : (order.map ClassRecord.name).Nodup)
    (hall : ∀ record ∈ order, record.name ≠ [] ∧ (∀ name ∈ record.bases, GoodName name) ∧
      kndSharedDictGet s.repoIdx record.name = none) : ∃ s', importClasses R .bulkLoad s order = .ok s' := by
  induction order generalizing s with
  | nil => exact ⟨s, rfl⟩
  | cons record order ih =>
      obtain ⟨hdistinct, hnodup⟩ := List.nodup_cons.mp hnodup
      obtain ⟨⟨hname, hbases, hnew⟩, hrest⟩ := List.forall_mem_cons.mp hall
      obtain ⟨s₁, hset, hidx⟩ : ∃ s₁, setClassName R .bulkLoad s.nextClass record.name s.newClass = .ok s₁ ∧
          ∀ name, name ≠ record.name → kndSharedDictGet s₁.repoIdx name = kndSharedDictGet s.repoIdx name := by
        have hnew : kndSharedDictGet s.newClass.repoIdx record.name = none := hnew
        rw [setClassName, setClassNameBulk, hnew]
        refine ⟨_, rfl, fun name hne => ?_⟩
        exact (get_push _ _ _ _).trans (if_neg hne)
      obtain ⟨s₂, hread⟩ := foldlM_parseBaseclass_of_goodName hbases s.nextClass s₁
      have hround : kndClassImport R .bulkLoad s record = .ok s₂ := by
        rw [kndClassImport, bind_eq_ok]
        refine ⟨s₁, hset, ?_⟩
        rw [bind_eq_ok]
        exact ⟨s₂, hread, by rw [if_neg hname, if_pos rfl]⟩
      have hrepo := (foldlM_parseBaseclass_ok hread).2.repoIdx
      obtain ⟨s', hrun⟩ := ih hnodup (s := s₂) fun later hmem => by
        obtain ⟨hname', hbases', hnew'⟩ := hrest later hmem
        have hne : later.name ≠ record.name := fun heq => hdistinct (heq ▸ List.mem_map_of_mem hmem)
        exact ⟨hname', hbases', by rw [hrepo, hidx _ hne, hnew']⟩
      exact ⟨s', by rw [importClasses, List.foldlM_cons, hround]; exact hrun⟩

/-! ## (8) An event and a concert -/

/-- The name `Event`. -/
def eventName : Name := [69, 118, 101, 110, 116]

/-- The name `Concert`. -/
def concertName : Name := [67, 111, 110, 99, 101, 114, 116]

/-- `Event`, and `Concert`, which is based on `base`. -/
def eventRecords (base : Name) : List ClassRecord := [⟨eventName, []⟩, ⟨concertName, [base]⟩]

/-- A repository without classes. -/
def noRepos : Repos := ⟨fun _ => false, fun _ => false, fun _ => false⟩

/-- The memory of a new task. -/
def newTask : ImportState where
  entries _ := {}
  classes _ := ⟨[], 0, []⟩
  nextEntry := 0
  nextClass := 0
  repoIdx := kndSharedDictNew EntryAddr mediumDictSize
  taskIdx := kndSharedDictNew EntryAddr 100
  commit := []

theorem orderIrrelevant_iff_events :
    OrderIrrelevant noRepos newTask.reset (eventRecords eventName) ↔
      (∃ record ∈ eventRecords eventName, ¬Importable noRepos newTask.repoIdx record) ∨
        ∀ heir ∈ eventRecords eventName, ∀ base ∈ eventRecords eventName, base.name ∉ heir.bases := by
  refine orderIrrelevant_iff noRepos newTask (eventRecords eventName) (by decide) fun record hcircle => ?_
  -- the heir is the longer name
  refine acyclic_of_falling (r := fun heir base => base ∈ eventRecords eventName ∧ heir ∈ eventRecords eventName ∧
    base.name ∈ heir.bases) (S := fun _ => True) (fun record => record.name.length) ?_ trivial
    (Relation.transGen_swap.mp hcircle)
  rintro heir base - ⟨-, hheir, hmem⟩
  refine ⟨trivial, ?_⟩
  rcases List.mem_cons.mp hheir with rfl | hheir
  · cases hmem
  · rw [List.mem_singleton.mp hheir] at hmem ⊢
    rw [List.mem_singleton.mp hmem]
    decide

/-- **`Concert` cannot be declared before `Event`** in a commit, only after. -/
theorem not_orderIrrelevant_events : ¬OrderIrrelevant noRepos newTask.reset (eventRecords eventName) := by
  intro h
  have hok : (importClasses noRepos .commit newTask.reset (eventRecords eventName)).isOk = true := by decide +kernel
  have hfail : (importClasses noRepos .commit newTask.reset (eventRecords eventName).reverse).isOk = false := by
    decide +kernel
  cases hrun : importClasses noRepos .commit newTask.reset (eventRecords eventName) with
  | error e =>
      rw [hrun] at hok
      cases hok
  | ok t =>
      obtain ⟨t', ht'⟩ := (h.succeeds _ _ (List.Perm.refl _) (List.reverse_perm _)).mp ⟨t, hrun⟩
      rw [ht'] at hfail
      cases hfail

end Knowdy.ClassImports
