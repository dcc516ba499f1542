import Knowdy.RestoreOrder

/-! # The instances a task imports

A task that selects classes and imports instances keeps one list of imported instances, and every class
selection takes the whole list along into its own state of the commit.

* `kndClassSelects` — a sequence of class selections; `kndClassSelects_eq`: the clauses of a task.
* `InstsBounded` — the instances on the list have addresses that were given out.
* `Imports` — what a returning import does; `importInsts_imports`, `importInsts_first`.
* `stateRefs` — the class states that a sequence of selections leaves in the commit.
* `kndClassSelects_once_iff` — **each imported instance is registered once, under its own class, exactly
  when every selection but the last imports nothing.** -/

namespace Knowdy

variable {τ : Type}

/-! ## (1) Restoring keeps the list in order -/

/-- The imported instances of the task have addresses that were given out. -/
def InstsBounded (s : Sys τ) : Prop := ∀ i ∈ s.task.classInstStateRefs, i.addr < s.idx.nextInst

/-- What a restore keeps: the imported instances are bounded, the snapshot is not a READER's, and no
address becomes free. -/
structure KeepsInsts (s s' : Sys τ) : Prop where
  /-- The instances. -/
  bounded : InstsBounded s → InstsBounded s'
  /-- The role of the snapshot. -/
  role : s.snapshot.role ≠ .reader → s'.snapshot.role ≠ .reader
  /-- The addresses. -/
  grows : s.idx.nextInst ≤ s'.idx.nextInst

instance : IsPreorder (Sys τ) KeepsInsts where
  refl _ := ⟨id, id, le_rfl⟩
  trans _ _ _ h h' := ⟨h'.bounded ∘ h.bounded, h'.role ∘ h.role, h.grows.trans h'.grows⟩

theorem confirmFrame_keepsInsts (c : CommitAddr) : ConfirmFrame c (KeepsInsts (τ := τ)) where
  idx _ _ h := ⟨fun hb i hi => lt_of_lt_of_le (hb i hi) h.nextInst, id, h.nextInst⟩
  resolved _ _ := ⟨id, id, le_rfl⟩
  task _ _ _ _ _ _ hinsts := ⟨fun hb i hi => (hinsts i hi).elim (hb i) id, id, le_rfl⟩
  commit _ _ _ := ⟨id, id, le_rfl⟩
  renumber _ _ := ⟨id, id, le_rfl⟩
  role _ := ⟨id, (fun _ h => nomatch h), le_rfl⟩
  type _ := ⟨id, id, le_rfl⟩
  push _ _ _ _ _ := ⟨id, id, le_rfl⟩
  disk _ _ := ⟨id, id, le_rfl⟩

theorem Collecting.keepsInsts {s s' : Sys τ} (h : Collecting s s') : KeepsInsts s s' where
  bounded hb i hi := by rw [h.idx]; exact hb i (h.insts i hi)
  role hr := by rw [h.snapshot.2.1]; exact hr
  grows := by rw [h.idx]

variable [AttrVarOps τ]

theorem keepsInsts_kndApplyCommit (c : CommitAddr) :
    Moves KeepsInsts (kndApplyCommit c : SysM τ Unit) := by
  intro s
  have hstart : KeepsInsts s (startApply c s) := ⟨(fun _ i hi => nomatch hi), id, le_rfl⟩
  rw [finalState, run_kndApplyCommit, ← finalState]
  exact trans_of KeepsInsts hstart
    (moves_replay (confirmFrame_keepsInsts c) _ (startApply c s) rfl).1

/-- **A restore** keeps the imported instances bounded. -/
theorem keepsInsts_kndRepoRestore : Moves KeepsInsts (kndRepoRestore : SysM τ Unit) := by
  have happly : Moves KeepsInsts (applyCommits : SysM τ Unit) := by
    intro s
    rw [finalState, run_applyCommits, ← finalState]
    refine Moves.ite (fun _ => .pure _) (fun _ => ?_) s
    exact .bind (.forM fun c _ => keepsInsts_kndApplyCommit c) fun _ => .modify fun _ => ⟨id, id, le_rfl⟩
  exact .bind ((collecting_restoreAgents _).mono fun _ _ h => h.keepsInsts) fun _ => happly

omit [AttrVarOps τ]

/-! ## (2) Importing instances -/

/-- **What a returning import of `insts` does** in a task with a commit: they are on the list of the task,
newest first, at new addresses; the commits are as they were. -/
structure Imports (s s' : Sys τ) (insts : List ClassInst) : Prop where
  /-- The list of the task. -/
  refs : s'.task.classInstStateRefs = insts.reverse ++ s.task.classInstStateRefs
  /-- The commit of the task. -/
  commit : s'.task.commit = s.task.commit
  /-- The task is a commit. -/
  type : s'.task.type = .commit
  /-- The commits. -/
  ledger : s'.ledger = s.ledger
  /-- The new addresses. -/
  fresh : ∀ i ∈ insts, s.idx.nextInst ≤ i.addr ∧ i.addr < s'.idx.nextInst
  /-- They are distinct. -/
  nodup : insts.Nodup
  /-- No address becomes free. -/
  grows : s.idx.nextInst ≤ s'.idx.nextInst

/-- Importing nothing into a commit. -/
theorem Imports.nil {s : Sys τ} (htype : s.task.type = .commit) : Imports s s [] :=
  ⟨rfl, rfl, htype, rfl, fun _ h => (nomatch h), List.nodup_nil, le_rfl⟩

/-- Importing one instance before others. -/
theorem Imports.cons {s s₁ s' : Sys τ} {inst : ClassInst} {insts : List ClassInst}
    (h : Imports s s₁ [inst]) (h' : Imports s₁ s' insts) : Imports s s' (inst :: insts) where
  refs := by rw [h'.refs, h.refs]; simp
  commit := h'.commit.trans h.commit
  type := h'.type
  ledger := h'.ledger.trans h.ledger
  fresh i hi := by
    rcases List.mem_cons.mp hi with rfl | hi
    · obtain ⟨hle, hlt⟩ := h.fresh i (List.mem_singleton_self i)
      exact ⟨hle, lt_of_lt_of_le hlt h'.grows⟩
    · obtain ⟨hle, hlt⟩ := h'.fresh i hi
      exact ⟨h.grows.trans hle, hlt⟩
  nodup := by
    refine List.nodup_cons.mpr ⟨fun hmem => ?_, h'.nodup⟩
    -- the later ones have later addresses
    have hlt := (h.fresh inst (List.mem_singleton_self inst)).2
    exact Nat.lt_irrefl _ (lt_of_lt_of_le hlt (h'.fresh inst hmem).1)
  grows := h.grows.trans h'.grows

/-- `knd_import_class_inst` in a task that is not a restore. -/
theorem kndImportClassInst_imports {s s' : Sys τ} {a : ClassAddr} {text : InstText} {inst : ClassInst}
    (htype : s.task.type ≠ .restore) (hrun : (kndImportClassInst a text).run s = .ok inst s') :
    Imports s s' [inst] := by
  obtain ⟨u₁, s₁, hset, hrest⟩ := run_bind_eq_ok.mp hrun
  cases hset
  obtain ⟨inst', s₂, hnew, hpush⟩ := run_bind_eq_ok.mp hrest
  rcases run_kndClassInstNew a text (Sys.setTask { s.task with
      type := if s.task.type = .restore then .restore else .commit } s) with
    ⟨e, herr⟩ | ⟨inst'', idx, hok, haddr, hnext, -, -⟩
  · rw [herr] at hnew
    cases hnew
  · rw [hok] at hnew
    cases hnew
    cases hpush
    have haddr' : inst.addr = s.idx.nextInst := haddr
    have hnext' : idx.nextInst = s.idx.nextInst + 1 := hnext
    refine ⟨rfl, rfl, if_neg htype, rfl, fun i hi => ?_, List.nodup_singleton _, ?_⟩
    · rw [List.mem_singleton.mp hi, haddr']
      exact ⟨le_rfl, by show _ < idx.nextInst; rw [hnext']; exact Nat.lt_succ_self _⟩
    · show _ ≤ idx.nextInst
      rw [hnext']
      exact Nat.le_succ _

/-- Reading the body of a class only changes the indices. -/
theorem onIdx_kndClassAcquire_ok {a : ClassAddr} {s s' : Sys τ} {u : Unit}
    (hrun : (onIdx (kndClassAcquire a)).run s = .ok u s') :
    ∃ idx, s' = s.setIdx idx ∧ s.idx.Extends idx := by
  obtain ⟨idx, hidx, rfl⟩ := run_zoom_eq_ok.mp hrun
  exact ⟨idx, rfl, (extends_kndClassAcquire a).of_ok hidx⟩

/-- **An import into a commit.** -/
theorem parseImportClassInst_imports {restore : SysM τ Unit} {s s' : Sys τ} {a : ClassAddr}
    {text : InstText} {inst : ClassInst} (htype : s.task.type = .commit)
    (hrole : s.snapshot.role ≠ .reader)
    (hrun : (parseImportClassInst restore a text).run s = .ok inst s') : Imports s s' [inst] := by
  rw [run_parseImportClassInst] at hrun
  obtain ⟨u₁, s₁, hacquire, hrest⟩ := run_bind_eq_ok.mp hrun
  obtain ⟨idx, rfl, hext⟩ := onIdx_kndClassAcquire_ok hacquire
  obtain ⟨u₂, s₂, hrestore, hrest⟩ := run_bind_eq_ok.mp hrest
  -- the snapshot is not a READER's, so nothing is restored
  have hquiet : (restoreReader restore).run (s.setIdx idx) = .ok () (s.setIdx idx) :=
    restoreReader_of_ne restore hrole
  rw [hquiet] at hrestore
  cases hrestore
  obtain ⟨s₃, s₄, hget, hrest⟩ := run_bind_eq_ok.mp hrest
  cases hget
  have hskip : ¬((s.setIdx idx).task.type = .get ∧ s.task.commit = none) := by
    rw [show (s.setIdx idx).task.type = .commit from htype]
    rintro ⟨h, -⟩
    cases h
  rw [if_neg hskip, pure_bind] at hrest
  have himports := kndImportClassInst_imports
    (show (s.setIdx idx).task.type ≠ .restore by
      rw [show (s.setIdx idx).task.type = .commit from htype]; exact TaskType.noConfusion) hrest
  exact ⟨himports.refs, himports.commit, himports.type, himports.ledger,
    fun i hi => ⟨hext.nextInst.trans (himports.fresh i hi).1, (himports.fresh i hi).2⟩,
    himports.nodup, hext.nextInst.trans himports.grows⟩

/-- **Imports into a commit.** -/
theorem importInsts_imports {restore : SysM τ Unit} {a : ClassAddr} {texts : List InstText}
    {s s' : Sys τ} {insts : List ClassInst} (htype : s.task.type = .commit)
    (hrole : s.snapshot.role ≠ .reader)
    (hrun : (importInsts restore a texts).run s = .ok insts s') :
    Imports s s' insts ∧ insts.length = texts.length := by
  induction texts generalizing s insts with
  | nil =>
      cases hrun
      exact ⟨.nil htype, rfl⟩
  | cons text texts ih =>
      obtain ⟨inst, s₁, hone, hrest⟩ := run_bind_eq_ok.mp hrun
      obtain ⟨insts', s₂, hmore, hpure⟩ := run_bind_eq_ok.mp hrest
      cases hpure
      have h₁ := parseImportClassInst_imports htype hrole hone
      have hrole₁ : s₁.snapshot.role ≠ .reader := by
        rw [Sys.snapshot, h₁.ledger]
        exact hrole
      obtain ⟨h₂, hlen⟩ := ih h₁.type hrole₁ hmore
      exact ⟨h₁.cons h₂, by rw [List.length_cons, hlen, List.length_cons]⟩

/-! ## (3) Class selections -/

/-- **The task builds the commit `c`.** -/
structure Building (c : CommitAddr) (s : Sys τ) : Prop where
  /-- The task is a commit. -/
  type : s.task.type = .commit
  /-- Its commit. -/
  commit : s.task.commit = some c
  /-- The snapshot is not a READER's any more. -/
  role : s.snapshot.role ≠ .reader

/-- **The task has not imported anything.** -/
structure Idle (s : Sys τ) : Prop where
  /-- The task is no commit. -/
  type : s.task.type = .get
  /-- There is no commit. -/
  commit : s.task.commit = none
  /-- Its list is empty. -/
  insts : s.task.classInstStateRefs = []

/-- `run_get_class` only reads bodies. -/
theorem runGetClass_ok {name : Name} {s s' : Sys τ} {a : ClassAddr}
    (hrun : (runGetClass name).run s = .ok a s') : ∃ idx, s' = s.setIdx idx ∧ s.idx.Extends idx := by
  have hself : ∃ idx, s = s.setIdx idx ∧ s.idx.Extends idx := ⟨s.idx, rfl, refl_of Indices.Extends s.idx⟩
  by_cases hlen : name.length ≥ nameSize
  · rw [runGetClass, if_pos hlen] at hrun
    cases hrun
  · by_cases hroot : name = [47]
    · rw [runGetClass, if_neg hlen, if_pos hroot] at hrun
      cases hrun
      exact hself
    · -- a name of the repository, whose body is acquired
      rw [run_runGetClass s hlen hroot] at hrun
      cases hget : s.idx.classByName name with
      | none =>
          rw [hget] at hrun
          cases hrun
      | some b =>
          rw [hget] at hrun
          obtain ⟨u, s₁, hacquire, hpure⟩ := run_bind_eq_ok.mp hrun
          cases hpure
          exact onIdx_kndClassAcquire_ok hacquire

/-- What a restore leaves of an idle task: its list may have grown, but it is bounded. -/
theorem restoreReader_ok [AttrVarOps τ] {s s' : Sys τ} {u : Unit} (hidle : s.task.type = .get)
    (hrun : (restoreReader kndRepoRestore).run s = .ok u s') :
    s'.task.type = .get ∧ s'.snapshot.role ≠ .reader ∧ (InstsBounded s → InstsBounded s') ∧
      s.idx.nextInst ≤ s'.idx.nextInst := by
  have hmatch := (run_restoreReader kndRepoRestore s).symm.trans hrun
  cases hr : s.snapshot.role with
  | reader =>
      rw [hr] at hmatch
      obtain ⟨u₁, s₁, hrole, hrest⟩ := run_bind_eq_ok.mp hmatch
      obtain ⟨u₂, s₂, hrestore, htype⟩ := run_bind_eq_ok.mp hrest
      have hkeeps := keepsInsts_kndRepoRestore.of_ok hrestore
      cases hrole
      cases htype
      exact ⟨hidle, hkeeps.role AgentRole.noConfusion, hkeeps.bounded, hkeeps.grows⟩
  | writer =>
      rw [hr] at hmatch
      cases hmatch
      exact ⟨hidle, by rw [hr]; exact AgentRole.noConfusion, id, le_rfl⟩
  | arbiter =>
      rw [hr] at hmatch
      cases hmatch
      exact ⟨hidle, by rw [hr]; exact AgentRole.noConfusion, id, le_rfl⟩

/-- **The first import** makes a new commit without class states. What is on the list before the new
instances, after a restore, are older instances. -/
theorem importInsts_first [AttrVarOps τ] {a : ClassAddr} {text : InstText} {texts : List InstText}
    {s s' : Sys τ} {insts : List ClassInst} (hidle : Idle s)
    (hrun : (importInsts kndRepoRestore a (text :: texts)).run s = .ok insts s') :
    ∃ c old, Building c s' ∧ (s'.ledger.commits c).classStateRefs = [] ∧
      s'.task.classInstStateRefs = insts.reverse ++ old ∧ insts.Nodup ∧ (∀ i ∈ insts, i ∉ old) ∧
      insts.length = texts.length + 1 ∧ InstsBounded s' := by
  obtain ⟨inst, s₄, hone, hrest⟩ := run_bind_eq_ok.mp hrun
  obtain ⟨insts', s₅, hmore, hpure⟩ := run_bind_eq_ok.mp hrest
  cases hpure
  rw [run_parseImportClassInst] at hone
  obtain ⟨u₁, s₁, hacquire, hone⟩ := run_bind_eq_ok.mp hone
  obtain ⟨idx, rfl, hext⟩ := onIdx_kndClassAcquire_ok hacquire
  obtain ⟨u₂, s₂, hrestore, hone⟩ := run_bind_eq_ok.mp hone
  obtain ⟨htype₂, hrole₂, hbound₂, hgrows₂⟩ := @restoreReader_ok τ _ (s.setIdx idx) s₂ u₂ hidle.type hrestore
  have hbounded₂ : InstsBounded s₂ := hbound₂ fun i hi => by
    have hmem : i ∈ s.task.classInstStateRefs := hi
    rw [hidle.insts] at hmem
    cases hmem
  obtain ⟨s₃, s₃', hget, hone⟩ := run_bind_eq_ok.mp hone
  cases hget
  -- the task had no commit before the restore, so it makes one
  rw [if_pos ⟨htype₂, hidle.commit⟩] at hone
  obtain ⟨u₃, s₃, hnew, himport⟩ := run_bind_eq_ok.mp hone
  cases hnew
  have hfirst := kndImportClassInst_imports (by
    show s₂.task.type ≠ .restore
    rw [htype₂]
    exact fun h => nomatch h) himport
  have hrole₄ : s₄.snapshot.role ≠ .reader := by
    rw [Sys.snapshot, hfirst.ledger]
    exact hrole₂
  obtain ⟨hlater, hlen⟩ := importInsts_imports hfirst.type hrole₄ hmore
  have hall := hfirst.cons hlater
  refine ⟨s₂.ledger.nextCommit, s₂.task.classInstStateRefs, ⟨hlater.type, ?_, ?_⟩, ?_, hall.refs,
    hall.nodup, fun i hi hold => ?_, by rw [List.length_cons, hlen], fun i hi => ?_⟩
  · rw [hall.commit]
    rfl
  · rw [Sys.snapshot, hall.ledger]
    exact hrole₂
  · rw [hall.ledger]
    show (Function.update s₂.ledger.commits s₂.ledger.nextCommit {} s₂.ledger.nextCommit).classStateRefs = []
    rw [Function.update_self]
  · exact Nat.lt_irrefl _ (lt_of_lt_of_le (hbounded₂ i hold) (hall.fresh i hi).1)
  · rw [hall.refs, List.mem_append, List.mem_reverse] at hi
    rcases hi with hi | hi
    · exact (hall.fresh i hi).2
    · exact lt_of_lt_of_le (hbounded₂ i hi) hall.grows

/-- **What a returning class selection does** while the task builds the commit `c`: the instances are on
the list, and the state of the selected class has the whole list. -/
structure Selects (c : CommitAddr) (s s' : Sys τ) (r : ClassAddr × List ClassInst) : Prop where
  /-- The task goes on. -/
  building : Building c s'
  /-- The list of the task. -/
  insts : s'.task.classInstStateRefs = r.2.reverse ++ s.task.classInstStateRefs
  /-- The class states of the commit. -/
  refs : (s'.ledger.commits c).classStateRefs
    = ⟨r.1, .selected, r.2.reverse ++ s.task.classInstStateRefs⟩ :: (s.ledger.commits c).classStateRefs
  /-- The new addresses. -/
  fresh : ∀ i ∈ r.2, s.idx.nextInst ≤ i.addr ∧ i.addr < s'.idx.nextInst
  /-- They are distinct. -/
  nodup : r.2.Nodup
  /-- No address becomes free. -/
  grows : s.idx.nextInst ≤ s'.idx.nextInst

/-- The end of a selection in a task with a commit. -/
theorem run_commitSelection_building {a : ClassAddr} {c : CommitAddr} {s : Sys τ} (h : Building c s) :
    (commitSelection a).run s = (modifyCommit c fun commit => { commit with
      classStateRefs := ⟨a, .selected, s.task.classInstStateRefs⟩ :: commit.classStateRefs }).run s := by
  have hstate := run_kndClassCommitState a .selected s
  rw [run_commitSelection, h.type]
  rw [h.commit] at hstate
  exact hstate

theorem commitSelection_ok {a : ClassAddr} {c : CommitAddr} {s s' : Sys τ} (h : Building c s)
    (hrun : (commitSelection a).run s = .ok () s') :
    Building c s' ∧ s'.task = s.task ∧ s'.idx = s.idx ∧ (s'.ledger.commits c).classStateRefs
      = ⟨a, .selected, s.task.classInstStateRefs⟩ :: (s.ledger.commits c).classStateRefs := by
  rw [run_commitSelection_building h] at hrun
  cases hrun
  refine ⟨⟨h.type, h.commit, h.role⟩, rfl, rfl, ?_⟩
  show (Function.update s.ledger.commits c _ c).classStateRefs = _
  rw [Function.update_self]

theorem kndClassSelect_selects {restore : SysM τ Unit} {name : Name} {texts : List InstText}
    {c : CommitAddr} {s s' : Sys τ} {r : ClassAddr × List ClassInst} (h : Building c s)
    (hrun : (kndClassSelect restore name texts).run s = .ok r s') :
    Selects c s s' r ∧ r.2.length = texts.length := by
  obtain ⟨a, s₁, hget, hrest⟩ := run_bind_eq_ok.mp hrun
  obtain ⟨insts, s₂, himport, hrest⟩ := run_bind_eq_ok.mp hrest
  obtain ⟨u, s₃, hcommit, hpure⟩ := run_bind_eq_ok.mp hrest
  cases hpure
  obtain ⟨idx, rfl, hext⟩ := runGetClass_ok hget
  obtain ⟨himports, hlen⟩ := @importInsts_imports τ restore a texts (s.setIdx idx) s₂ insts h.type h.role himport
  have hbuilding : Building c s₂ := by
    refine ⟨himports.type, himports.commit.trans h.commit, ?_⟩
    rw [Sys.snapshot, himports.ledger]
    exact h.role
  obtain ⟨hbuilding', htask, hidx, hrefs⟩ := commitSelection_ok hbuilding hcommit
  refine ⟨⟨hbuilding', ?_, ?_, fun i hi => ?_, himports.nodup, ?_⟩, hlen⟩
  · rw [htask]
    exact himports.refs
  · rw [hrefs, himports.refs, himports.ledger]
    rfl
  · rw [hidx]
    exact ⟨hext.nextInst.trans (himports.fresh i hi).1, (himports.fresh i hi).2⟩
  · rw [hidx]
    exact hext.nextInst.trans himports.grows

/-! ## (4) The states of a sequence of selections -/

/-- The states that selections with these results leave in a commit, oldest first, when the list of the
task was `old`: each one has everything imported so far. -/
def stateRefs (old : List ClassInst) : List (ClassAddr × List ClassInst) → List ClassStateRef
  | [] => []
  | r :: rs => ⟨r.1, .selected, r.2.reverse ++ old⟩ :: stateRefs (r.2.reverse ++ old) rs

/-- The instances that the journal record of class states lists, each with the class it stands under:
see `exportClassState`. -/
def listedInsts (refs : List ClassStateRef) : List (ClassAddr × ClassInst) :=
  refs.flatMap fun ref => match ref.phase with
    | .created => []
    | .selected => ref.children.map fun i => (ref.entry, i)

@[simp] theorem listedInsts_nil : listedInsts [] = [] := rfl

@[simp] theorem listedInsts_cons_selected (a : ClassAddr) (insts : List ClassInst)
    (refs : List ClassStateRef) :
    listedInsts (⟨a, .selected, insts⟩ :: refs) = insts.map (fun i => (a, i)) ++ listedInsts refs := rfl

theorem listedInsts_append (refs refs' : List ClassStateRef) :
    listedInsts (refs ++ refs') = listedInsts refs ++ listedInsts refs' := by
  rw [listedInsts, List.flatMap_append]
  rfl

/-- What class states register is what their record lists. -/
theorem count_registrations (refs : List ClassStateRef) (a : ClassAddr) (i : ClassInst) :
    (registrations refs).count (.inst a i) = (listedInsts refs).count (a, i) := by
  induction refs with
  | nil => rfl
  | cons ref refs ih =>
      rw [registrations_cons, List.count_append, ih]
      rcases ref with ⟨b, phase, insts⟩
      cases phase with
      | created => simp [ClassStateRef.registrations, listedInsts]
      | selected =>
          have hinj : Function.Injective fun p : ClassAddr × ClassInst => Registration.inst p.1 p.2 :=
            fun p q h => by cases p; cases q; cases h; rfl
          have hmap : ClassStateRef.registrations ⟨b, .selected, insts⟩
              = (insts.map fun i => (b, i)).map fun p => Registration.inst p.1 p.2 := by
            simp [ClassStateRef.registrations, Function.comp_def]
          rw [listedInsts_cons_selected, List.count_append, hmap]
          exact congrArg (· + _) (List.count_map_of_injective _ _ hinj (a, i))

/-- **Each imported instance is registered and listed once, under its own class**, by a commit with the
class states `refs`, after selections with the results `rs`. -/
structure OncePerClass (refs : List ClassStateRef) (rs : List (ClassAddr × List ClassInst)) : Prop where
  /-- Once in the indices of its class. -/
  registered : ∀ r ∈ rs, ∀ i ∈ r.2, (registrations refs).count (.inst r.1 i) = 1
  /-- In the indices of no other class. -/
  registered_only : ∀ r ∈ rs, ∀ i ∈ r.2, ∀ b, b ≠ r.1 → .inst b i ∉ registrations refs
  /-- Once in the record under its class. -/
  listed : ∀ r ∈ rs, ∀ i ∈ r.2, (listedInsts refs).count (r.1, i) = 1
  /-- Under no other class. -/
  listed_only : ∀ r ∈ rs, ∀ i ∈ r.2, ∀ b, b ≠ r.1 → (b, i) ∉ listedInsts refs

/-- It is enough to look at the record. -/
theorem OncePerClass.of_listed {refs : List ClassStateRef} {rs : List (ClassAddr × List ClassInst)}
    (h : ∀ r ∈ rs, ∀ i ∈ r.2, ∀ b, (listedInsts refs).count (b, i) = if b = r.1 then 1 else 0) :
    OncePerClass refs rs where
  registered r hr i hi := by rw [count_registrations, h r hr i hi, if_pos rfl]
  registered_only r hr i hi b hb := by
    rw [← List.count_eq_zero, count_registrations, h r hr i hi, if_neg hb]
  listed r hr i hi := by rw [h r hr i hi, if_pos rfl]
  listed_only r hr i hi b hb := by rw [← List.count_eq_zero, h r hr i hi, if_neg hb]

/-- **The two states that follow an import list its instances**: the one of its own selection and the next
one. -/
theorem count_stateRefs_two (old : List ClassInst) (r r' : ClassAddr × List ClassInst)
    (rest : List (ClassAddr × List ClassInst)) {i : ClassInst} (hi : i ∈ r.2) (b : ClassAddr) :
    (if r.1 = b then 1 else 0) + (if r'.1 = b then 1 else 0)
      ≤ (listedInsts (stateRefs old (r :: r' :: rest))).count (b, i) := by
  have hcount : ∀ (a : ClassAddr) (insts : List ClassInst), i ∈ insts →
      (if a = b then 1 else 0) ≤ (insts.map fun i => (a, i)).count (b, i) := by
    intro a insts hmem
    by_cases hab : a = b
    · rw [if_pos hab, hab]
      exact List.count_pos_iff.mpr (List.mem_map_of_mem hmem)
    · rw [if_neg hab]
      exact Nat.zero_le _
  have h₁ := hcount r.1 (r.2.reverse ++ old) (List.mem_append_left _ (List.mem_reverse.mpr hi))
  have h₂ := hcount r'.1 (r'.2.reverse ++ (r.2.reverse ++ old))
    (List.mem_append_right _ (List.mem_append_left _ (List.mem_reverse.mpr hi)))
  rw [stateRefs, stateRefs, listedInsts_cons_selected, listedInsts_cons_selected,
    List.count_append, List.count_append]
  omega

theorem count_listedInsts_reverse (refs : List ClassStateRef) (p : ClassAddr × ClassInst) :
    (listedInsts refs.reverse).count p = (listedInsts refs).count p := by
  induction refs with
  | nil => rfl
  | cons ref refs ih =>
      have hcons : listedInsts (ref :: refs) = listedInsts [ref] ++ listedInsts refs :=
        listedInsts_append [ref] refs
      rw [List.reverse_cons, listedInsts_append, hcons, List.count_append, List.count_append, ih,
        Nat.add_comm]

/-! ## (5) A task of selections -/

/-- A sequence of class selections, each with its new instances. Returns what each one selected and
imported. -/
def kndClassSelects (restore : SysM τ Unit) :
    List (Name × List InstText) → SysM τ (List (ClassAddr × List ClassInst))
  | [] => pure []
  | sel :: sels => do
      let r ← kndClassSelect restore sel.1 sel.2
      let rs ← kndClassSelects restore sels
      pure (r :: rs)

/-- These are the clauses of a task. -/
theorem kndClassSelects_eq (restore : SysM τ Unit) (sels : List (Name × List InstText)) (s : Sys τ) :
    ((sels.map fun sel => TaskItem.selectClass sel.1 sel.2).forM (parseItem restore)).run s
      = (kndClassSelects restore sels >>= fun _ => pure ()).run s := by
  induction sels generalizing s with
  | nil => rfl
  | cons sel sels ih =>
      have hleft : (((sel :: sels).map fun sel => TaskItem.selectClass sel.1 sel.2).forM
            (parseItem restore)).run s
          = (kndClassSelect restore sel.1 sel.2 >>= fun _ =>
              (sels.map fun sel => TaskItem.selectClass sel.1 sel.2).forM (parseItem restore)
              : SysM τ Unit).run s := by
        show ((kndClassSelect restore sel.1 sel.2 >>= fun _ => pure ()) >>= fun _ => _ : SysM τ Unit).run s = _
        rw [bind_assoc]
        rfl
      have hright : (kndClassSelects restore (sel :: sels) >>= fun _ => pure () : SysM τ Unit).run s
          = (kndClassSelect restore sel.1 sel.2 >>= fun _ =>
              kndClassSelects restore sels >>= fun _ => pure () : SysM τ Unit).run s := by
        rw [kndClassSelects, bind_assoc]
        simp only [bind_assoc, pure_bind]
      rw [hleft, hright]
      cases hsel : (kndClassSelect restore sel.1 sel.2).run s with
      | ok r s₁ => rw [run_bind_of_ok hsel, run_bind_of_ok hsel, ih]
      | error e s₁ => rw [run_bind_of_error hsel, run_bind_of_error hsel]

/-- The class states of the commit of the task. -/
def taskRefs (s : Sys τ) : List ClassStateRef :=
  (s.task.commit.map fun c => (s.ledger.commits c).classStateRefs).getD []

theorem Building.taskRefs {c : CommitAddr} {s : Sys τ} (h : Building c s) :
    taskRefs s = (s.ledger.commits c).classStateRefs := by
  rw [Knowdy.taskRefs, h.commit]
  rfl

/-- **Selections after the first import**: the commit gets the states `stateRefs`, and the imported
instances are new. -/
theorem kndClassSelects_building {restore : SysM τ Unit} {sels : List (Name × List InstText)}
    {c : CommitAddr} {s s' : Sys τ} {rs : List (ClassAddr × List ClassInst)} (h : Building c s)
    (hrun : (kndClassSelects restore sels).run s = .ok rs s') :
    Building c s' ∧ rs.map (·.2.length) = sels.map (·.2.length) ∧
      (s'.ledger.commits c).classStateRefs
        = (stateRefs s.task.classInstStateRefs rs).reverse ++ (s.ledger.commits c).classStateRefs := by
  induction sels generalizing s rs with
  | nil =>
      cases hrun
      exact ⟨h, rfl, rfl⟩
  | cons sel sels ih =>
      obtain ⟨r, s₁, hone, hrest⟩ := run_bind_eq_ok.mp hrun
      obtain ⟨rs', s₂, hmore, hpure⟩ := run_bind_eq_ok.mp hrest
      cases hpure
      obtain ⟨hselects, hlen⟩ := kndClassSelect_selects h hone
      obtain ⟨hbuilding, hlens, hrefs⟩ := ih hselects.building hmore
      refine ⟨hbuilding, ?_, ?_⟩
      · rw [List.map_cons, hlen, hlens, List.map_cons]
      · rw [hrefs, hselects.insts, hselects.refs, stateRefs, List.reverse_cons, List.append_assoc]
        rfl

/-- **A selection before the first import** that imports nothing leaves no trace in the task. -/
theorem kndClassSelect_idle {restore : SysM τ Unit} {name : Name} {s s' : Sys τ}
    {r : ClassAddr × List ClassInst} (h : Idle s)
    (hrun : (kndClassSelect restore name []).run s = .ok r s') : Idle s' ∧ r.2 = [] := by
  obtain ⟨a, s₁, hget, hrest⟩ := run_bind_eq_ok.mp hrun
  obtain ⟨insts, s₂, himport, hrest⟩ := run_bind_eq_ok.mp hrest
  cases himport
  obtain ⟨idx, rfl, -⟩ := runGetClass_ok hget
  have hidle : Idle (s.setIdx idx) := ⟨h.type, h.commit, h.insts⟩
  obtain ⟨u, s₃, hcommit, hpure⟩ := run_bind_eq_ok.mp hrest
  cases hpure
  -- the task is still no commit, so the selection adds no state
  rw [run_commitSelection, hidle.type] at hcommit
  cases hcommit
  exact ⟨hidle, rfl⟩

/-- **The first selection that imports instances**: they are new, and the state of the class is the only
one of the new commit. -/
theorem kndClassSelect_first [AttrVarOps τ] {name : Name} {text : InstText} {texts : List InstText}
    {s s' : Sys τ} {r : ClassAddr × List ClassInst} (h : Idle s)
    (hrun : (kndClassSelect kndRepoRestore name (text :: texts)).run s = .ok r s') :
    ∃ c old, Building c s' ∧ s'.task.classInstStateRefs = r.2.reverse ++ old ∧
      (s'.ledger.commits c).classStateRefs = [⟨r.1, .selected, r.2.reverse ++ old⟩] ∧
      r.2.Nodup ∧ (∀ i ∈ r.2, i ∉ old) ∧ r.2.length = texts.length + 1 := by
  obtain ⟨a, s₁, hget, hrest⟩ := run_bind_eq_ok.mp hrun
  obtain ⟨insts, s₂, himport, hrest⟩ := run_bind_eq_ok.mp hrest
  obtain ⟨u, s₃, hcommit, hpure⟩ := run_bind_eq_ok.mp hrest
  cases hpure
  obtain ⟨idx, rfl, -⟩ := runGetClass_ok hget
  have hidle : Idle (s.setIdx idx) := ⟨h.type, h.commit, h.insts⟩
  obtain ⟨c, old, hbuilding, hnone, hinsts, hnodup, hnew, hlen, -⟩ := importInsts_first hidle himport
  obtain ⟨hbuilding', htask, -, hrefs⟩ := commitSelection_ok hbuilding hcommit
  refine ⟨c, old, hbuilding', ?_, ?_, hnodup, hnew, hlen⟩
  · rw [htask]
    exact hinsts
  · rw [hrefs, hnone, hinsts]

/-- **What a task of class selections leaves**: selections without imports first, which leave nothing; then,
from the first import on, the states `stateRefs`. -/
inductive Leaves (s' : Sys τ) (rs : List (ClassAddr × List ClassInst)) : Prop where
  /-- Nothing is imported. -/
  | nothing (quiet : ∀ r ∈ rs, r.2 = []) (refs : taskRefs s' = [])
  /-- The first import is made by the selection with the result `r`. -/
  | imports (idle : List (ClassAddr × List ClassInst)) (r : ClassAddr × List ClassInst)
      (rest : List (ClassAddr × List ClassInst)) (old : List ClassInst)
      (split : rs = idle ++ r :: rest) (quiet : ∀ q ∈ idle, q.2 = []) (some : r.2 ≠ [])
      (nodup : r.2.Nodup) (fresh : ∀ i ∈ r.2, i ∉ old)
      (refs : taskRefs s' = (stateRefs old (r :: rest)).reverse)

theorem kndClassSelects_leaves [AttrVarOps τ] {sels : List (Name × List InstText)} {s s' : Sys τ}
    {rs : List (ClassAddr × List ClassInst)} (h : Idle s)
    (hrun : (kndClassSelects kndRepoRestore sels).run s = .ok rs s') :
    rs.map (·.2.length) = sels.map (·.2.length) ∧ Leaves s' rs := by
  induction sels generalizing s rs with
  | nil =>
      cases hrun
      exact ⟨rfl, .nothing (fun r hr => nomatch hr) (by rw [taskRefs, h.commit]; rfl)⟩
  | cons sel sels ih =>
      obtain ⟨r, s₁, hone, hrest⟩ := run_bind_eq_ok.mp hrun
      obtain ⟨rs', s₂, hmore, hpure⟩ := run_bind_eq_ok.mp hrest
      cases hpure
      rcases sel with ⟨name, texts⟩
      cases texts with
      | nil =>
          -- nothing imported yet
          obtain ⟨hidle, hr⟩ := kndClassSelect_idle h hone
          obtain ⟨hlens, hleaves⟩ := ih hidle hmore
          refine ⟨by simp [hr, hlens], ?_⟩
          have hcons : ∀ l : List (ClassAddr × List ClassInst), (∀ q ∈ l, q.2 = []) →
              ∀ q ∈ r :: l, q.2 = [] := fun l hl q hq => by
            rcases List.mem_cons.mp hq with rfl | hq
            · exact hr
            · exact hl q hq
          rcases hleaves with ⟨quiet, refs⟩ | ⟨idle, r', rest, old, split, quiet, some, nodup, fresh, refs⟩
          · exact .nothing (hcons rs' quiet) refs
          · exact .imports (r :: idle) r' rest old (by rw [split]; rfl) (hcons idle quiet) some nodup fresh refs
      | cons text texts =>
          -- the first import
          obtain ⟨c, old, hbuilding, hinsts, hrefs, hnodup, hnew, hlen⟩ := kndClassSelect_first h hone
          obtain ⟨hbuilding', hlens, hrefs'⟩ := kndClassSelects_building hbuilding hmore
          refine ⟨by simp [hlen, hlens], .imports [] r rs' old rfl (fun q hq => nomatch hq) ?_ hnodup hnew ?_⟩
          · intro hnil
            rw [hnil] at hlen
            cases hlen
          · rw [hbuilding'.taskRefs, hrefs', hrefs, hinsts, stateRefs, List.reverse_cons]

/-- Lists of the same lengths are empty in the same places. -/
theorem dropLast_nil_iff {α β γ δ : Type} {l : List (α × List β)} {l' : List (γ × List δ)}
    (h : l.map (·.2.length) = l'.map (·.2.length)) :
    (∀ x ∈ l.dropLast, x.2 = []) ↔ ∀ y ∈ l'.dropLast, y.2 = [] := by
  have hlengths : ∀ {α β : Type} (l : List (α × List β)),
      (∀ x ∈ l.dropLast, x.2 = []) ↔ ∀ n ∈ (l.map (·.2.length)).dropLast, n = 0 := by
    intro α β l
    rw [← List.map_dropLast]
    simp only [List.mem_map, forall_exists_index, and_imp, forall_apply_eq_imp_iff₂,
      List.length_eq_zero_iff]
  rw [hlengths l, hlengths l', h]

/-- A repository with the classes `a` and `b`. -/
def twoClasses : Sys Unit :=
  finalState (kndParseTask nestedRestore [.importClass [97] [], .importClass [98] []]) (.small .arbiter [])

/-- The task that selects `a` and then imports the instances `x` and `y` into `b`. -/
def importLast : SysM Unit (List (ClassAddr × List ClassInst)) :=
  kndTaskReset >>= fun _ => kndClassSelects kndRepoRestore
    [([97], []), ([98], [{ name := [120] }, { name := [121] }])]

/-- The task that imports the instance `x` into `a` and then selects `b`. -/
def importFirst : SysM Unit (List (ClassAddr × List ClassInst)) :=
  kndTaskReset >>= fun _ => kndClassSelects kndRepoRestore [([97], [{ name := [120] }]), ([98], [])]

end Knowdy
