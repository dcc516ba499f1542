import Knowdy.Restore

/-! # What a task with a commit can change

The functions that replay or confirm a commit change the state by a few kinds of steps only. A relation
that allows these steps is kept by the functions, so that every frame and invariant about a replay is shown
by looking at the steps.

* `UnderCommit c R` — the relation `R`, while the task works on the commit `c`.
* `CommitFrame c R` — `R` allows changes of the commit `c`.
* `SelectFrame c R` — `R` allows the steps of class selections, of resolving and of registering the
  commit `c`; `moves_kndClassSelect`, `moves_kndResolveCommit`, `moves_updateCommitIndices`.
* `ParseFrame c R` — the steps of class imports too; `moves_parseBody`.
* `WalFrame c R` — the steps of the conflict check and of the journal; `moves_checkCommitConflicts`,
  `moves_buildCommitWAL`.
* `ConfirmFrame c R` — all steps of an ARBITER; `moves_kndConfirmCommit`.
* `Heads c` — the head of the list of commits stays or becomes `c`. -/

namespace Knowdy

variable {τ : Type}

/-! ## (1) Relations -/

/-- The relation `R` for the runs that start while the task works on the commit `c`, which they keep. -/
def UnderCommit (c : CommitAddr) (R : Sys τ → Sys τ → Prop) (s s' : Sys τ) : Prop :=
  s.task.commit = some c → R s s' ∧ s'.task.commit = some c

instance (c : CommitAddr) (R : Sys τ → Sys τ → Prop) [IsPreorder (Sys τ) R] :
    IsPreorder (Sys τ) (UnderCommit c R) where
  refl s h := ⟨refl_of R s, h⟩
  trans _ _ _ h h' hc := by
    obtain ⟨h₁, hc₁⟩ := h hc
    obtain ⟨h₂, hc₂⟩ := h' hc₁
    exact ⟨trans_of R h₁ h₂, hc₂⟩

/-- The types that no clause but a class import changes: once a restore or a commit, the task stays one. -/
def TaskType.Stays (type type' : TaskType) : Prop :=
  (type = .restore → type' = .restore) ∧ (type = .commit → type' = .commit)

@[simp] theorem TaskType.stays_refl (type : TaskType) : type.Stays type := ⟨id, id⟩

/-- **`R` allows changes of the commit `c`** that keep its number. -/
structure CommitFrame (c : CommitAddr) (R : Sys τ → Sys τ → Prop) : Prop where
  /-- The commit. -/
  commit : ∀ s (f : Commit → Commit), (∀ commit, (f commit).numid = commit.numid) →
    R s (s.setLedger (s.ledger.setCommit c (f (s.ledger.commits c))))

/-- Addresses that were given out stay given out. -/
structure Indices.Extends (idx idx' : Indices τ) : Prop where
  /-- Classes. -/
  nextClass : idx.nextClass ≤ idx'.nextClass
  /-- Instances. -/
  nextInst : idx.nextInst ≤ idx'.nextInst

instance : IsPreorder (Indices τ) Indices.Extends where
  refl _ := ⟨le_rfl, le_rfl⟩
  trans _ _ _ h h' := ⟨h.nextClass.trans h'.nextClass, h.nextInst.trans h'.nextInst⟩

/-- **`R` allows what selecting classes and registering the commit `c` does**: changes of the indices, of
the task as long as it stays a restore or a commit, of the commit `c` and of the role of the snapshot. -/
structure SelectFrame (c : CommitAddr) (R : Sys τ → Sys τ → Prop) : Prop extends CommitFrame c R where
  /-- The indices. -/
  idx : ∀ s idx, s.idx.Extends idx → R s (s.setIdx idx)
  /-- `is_resolved`. -/
  resolved : ∀ s f, R s { s with resolved := f }
  /-- The task. -/
  task : ∀ s t, t.id = s.task.id → t.role = s.task.role → t.commit = s.task.commit →
    s.task.type.Stays t.type →
    (∀ i ∈ t.classInstStateRefs, i ∈ s.task.classInstStateRefs ∨ i.addr < s.idx.nextInst) →
    R s (s.setTask t)
  /-- The role of the snapshot. -/
  role : ∀ s, R s (s.setLedger (s.ledger.setSnapshot { s.ledger.snapshot with role := .writer }))

/-- **`R` allows what importing classes does** as well: the task becomes a commit. -/
structure ParseFrame (c : CommitAddr) (R : Sys τ → Sys τ → Prop) : Prop extends SelectFrame c R where
  /-- The type of the task. -/
  type : ∀ s, R s (s.setTask { s.task with type := .commit })

/-- **`R` allows what the conflict check and the journal do**: the commit gets its number and goes on the
list, and the journals change. -/
structure WalFrame (c : CommitAddr) (R : Sys τ → Sys τ → Prop) : Prop extends CommitFrame c R where
  /-- The number of the commit. -/
  renumber : ∀ s (f : Commit → Commit), R s (s.setLedger (s.ledger.setCommit c (f (s.ledger.commits c))))
  /-- The head of the list of commits, the number of commits and of journals. -/
  push : ∀ s head n js, head = s.ledger.snapshot.commits ∨ head = some c →
    R s (s.setLedger (s.ledger.setSnapshot
      { s.ledger.snapshot with commits := head, numCommits := n, numJournals := js }))
  /-- The files. -/
  disk : ∀ s d, R s (s.setDisk d)

/-- **`R` allows all that a task with the commit `c` does**, in an ARBITER too. -/
structure ConfirmFrame (c : CommitAddr) (R : Sys τ → Sys τ → Prop) : Prop extends
  ParseFrame c R, WalFrame c R

section Frame

variable {c : CommitAddr} {R : Sys τ → Sys τ → Prop}

/-- A single step that `R` allows and that keeps the commit of the task. -/
theorem UnderCommit.step {f : Sys τ → Sys τ} (h : ∀ s, R s (f s))
    (hc : ∀ s, (f s).task.commit = s.task.commit) :
    Moves (UnderCommit c R) (modify f : SysM τ PUnit) := fun s hs => ⟨h s, (hc s).trans hs⟩

/-! ## (2) Parsing -/

theorem moves_onIdx (hR : SelectFrame c R) {α : Type} {x : IdxM τ α} (hx : Moves Indices.Extends x) :
    Moves (UnderCommit c R) (onIdx x) := by
  intro s hs
  rw [onIdx, finalState_zoom]
  exact ⟨hR.idx s _ (hx s.idx), hs⟩

/-- Reading a body gives out no address. -/
theorem extends_kndClassAcquire (a : ClassAddr) :
    Moves Indices.Extends (kndClassAcquire a : IdxM τ Unit) := by
  intro idx
  rw [finalState, run_kndClassAcquire]
  cases (idx.classes a).cls with
  | some c => exact refl_of Indices.Extends idx
  | none =>
      by_cases hstored : idx.stored a = true
      · rw [if_pos hstored]
        exact ⟨le_rfl, le_rfl⟩
      · rw [if_neg hstored]
        exact refl_of Indices.Extends idx

theorem moves_onDisk (hR : WalFrame c R) {α : Type} (x : DiskM α) :
    Moves (UnderCommit c R) (onDisk x : SysM τ α) :=
  Moves.zoom x fun d s hs => ⟨hR.disk s d, hs⟩

theorem moves_modifyTask (hR : SelectFrame c R) {f : Task → Task}
    (hid : ∀ t, (f t).id = t.id) (hrole : ∀ t, (f t).role = t.role)
    (hcommit : ∀ t, (f t).commit = t.commit)
    (htype : ∀ t : Task, t.type.Stays (f t).type)
    (hinsts : ∀ t : Task, (f t).classInstStateRefs = t.classInstStateRefs) :
    Moves (UnderCommit c R) (modifyTask f : SysM τ Unit) :=
  UnderCommit.step (fun s => hR.task s _ (hid _) (hrole _) (hcommit _) (htype _)
    fun _ hi => .inl (hinsts s.task ▸ hi)) fun _ => hcommit _

theorem moves_modifyCommit (hR : CommitFrame c R) (f : Commit → Commit)
    (hf : ∀ commit, (f commit).numid = commit.numid) :
    Moves (UnderCommit c R) (modifyCommit c f : SysM τ Unit) :=
  UnderCommit.step (fun s => hR.commit s f hf) fun _ => rfl

theorem moves_kndClassNew (hR : SelectFrame c R) (name : Name) (clauses : List Name) :
    Moves (UnderCommit c R) (kndClassNew name clauses : SysM τ ClassAddr) :=
  fun s hs => ⟨hR.idx s _ ⟨Nat.le_succ _, le_rfl⟩, hs⟩

theorem moves_kndClassCommitState (hR : SelectFrame c R) (a : ClassAddr) (phase : ClassPhase) :
    Moves (UnderCommit c R) (kndClassCommitState a phase : SysM τ Unit) := by
  refine .get_bind fun s hs => ?_
  simp only [hs]
  refine moves_modifyCommit hR.toCommitFrame _ ?_ s hs
  exact fun _ => rfl

variable [IsPreorder (Sys τ) R]

theorem moves_checkRepoClassName (hR : SelectFrame c R) (name : Name) :
    Moves (UnderCommit c R) (checkRepoClassName name : SysM τ Unit) := by
  refine .bind .get fun s => ?_
  cases s.idx.classByName name with
  | none => exact .pure _
  | some a =>
      exact .ite (fun _ => .bind (moves_onIdx hR (extends_kndClassAcquire _)) fun _ => .throw _)
        fun _ => .pure _

theorem moves_checkTaskClassName (hR : SelectFrame c R) (name : Name) :
    Moves (UnderCommit c R) (checkTaskClassName name : SysM τ Unit) :=
  .bind .get fun _ => .ite (fun _ => .throw _) fun _ =>
    moves_modifyTask hR (fun _ => rfl) (fun _ => rfl) (fun _ => rfl) (fun _ => TaskType.stays_refl _)
      fun _ => rfl

theorem moves_kndClassImport (hR : SelectFrame c R) (name : Name) (clauses : List Name) :
    Moves (UnderCommit c R) (kndClassImport name clauses : SysM τ Unit) :=
  .ite (fun _ => .throw _) fun _ => .bind (moves_checkRepoClassName hR name) fun _ =>
    .bind (moves_checkTaskClassName hR name) fun _ => .bind (moves_kndClassNew hR name clauses) fun a =>
      moves_kndClassCommitState hR a .created

/-- The part of a class import after the task became a commit: the task has its commit, so no new one is
made. -/
theorem moves_importIntoCommit (hR : SelectFrame c R) (name : Name) (clauses : List Name) :
    Moves (UnderCommit c R) (do
      let s ← get
      (if s.task.commit = none then kndCommitNew (some s.task.id) else pure ())
      kndClassImport name clauses : SysM τ Unit) := by
  refine .get_bind fun s hs => ?_
  have hcommit : s.task.commit ≠ none := by simp [hs]
  rw [if_neg hcommit]
  exact moves_kndClassImport hR name clauses s hs

theorem moves_parseClassImport (hR : ParseFrame c R) (name : Name) (clauses : List Name) :
    Moves (UnderCommit c R) (parseClassImport name clauses : SysM τ Unit) :=
  .bind (UnderCommit.step (fun s => hR.type s) fun _ => rfl) fun _ =>
    moves_importIntoCommit hR.toSelectFrame name clauses

theorem moves_runGetClass (hR : SelectFrame c R) (name : Name) :
    Moves (UnderCommit c R) (runGetClass name : SysM τ ClassAddr) := by
  refine .ite (fun _ => .throw _) fun _ => .ite (fun _ => .pure _) fun _ => .bind .get fun s => ?_
  cases s.idx.classByName name with
  | none => exact .throw _
  | some a => exact .bind (moves_onIdx hR (extends_kndClassAcquire _)) fun _ => .pure _

/-- A new instance has the next address. -/
theorem run_kndClassInstNew (a : ClassAddr) (text : InstText) (s : Sys τ) :
    (∃ e, (kndClassInstNew a text).run s = .error e s) ∨
    ∃ inst idx, (kndClassInstNew a text).run s = .ok inst (s.setIdx idx) ∧
      inst.addr = s.idx.nextInst ∧ idx.nextInst = s.idx.nextInst + 1 ∧
      idx.nextClass = s.idx.nextClass ∧ idx.classNameIdx = s.idx.classNameIdx := by
  simp only [EStateM.run]
  unfold kndClassInstNew
  cases (s.idx.classes a).cls with
  | none => exact .inl ⟨_, rfl⟩
  | some cls =>
      dsimp only
      cases setInstName cls text with
      | error e => exact .inl ⟨_, rfl⟩
      | ok name => exact .inr ⟨_, _, rfl, rfl, rfl, rfl, rfl⟩

omit [IsPreorder (Sys τ) R] in
/-- The type of a task that imports an instance. -/
theorem moves_importType (hR : SelectFrame c R) :
    Moves (UnderCommit c R) (modifyTask fun t => { t with
      type := if t.type = .restore then .restore else .commit } : SysM τ Unit) :=
  moves_modifyTask hR (fun _ => rfl) (fun _ => rfl) (fun _ => rfl)
    (fun _ => ⟨fun h => by simp [h], fun h => by simp [h]⟩) fun _ => rfl

theorem moves_kndImportClassInst (hR : SelectFrame c R) (a : ClassAddr) (text : InstText) :
    Moves (UnderCommit c R) (kndImportClassInst a text : SysM τ ClassInst) := by
  refine .bind (moves_importType hR) fun _ s hs => ?_
  rcases run_kndClassInstNew a text s with ⟨e, hrun⟩ | ⟨inst, idx, hrun, haddr, hnext, hclass, -⟩
  · rw [finalState_of_error (run_bind_of_error hrun)]
    exact ⟨refl_of R s, hs⟩
  · -- the new instance is on the list of the task, at an address that is given out
    have hext : s.idx.Extends idx := ⟨hclass.ge, by rw [hnext]; exact Nat.le_succ _⟩
    rw [finalState, run_bind_of_ok hrun, ← finalState]
    refine ⟨trans_of R (hR.idx s idx hext) (hR.task (s.setIdx idx)
      { s.task with classInstStateRefs := inst :: s.task.classInstStateRefs } rfl rfl rfl
      (TaskType.stays_refl _) fun i hi => ?_), hs⟩
    rcases List.mem_cons.mp hi with rfl | hi
    · exact .inr (by rw [haddr]; exact hnext ▸ Nat.lt_succ_self _)
    · exact .inl hi

theorem moves_restoreReader (hR : SelectFrame c R) :
    Moves (UnderCommit c R) (restoreReader nestedRestore : SysM τ Unit) := by
  refine .bind .get fun s => ?_
  cases s.snapshot.role with
  | reader =>
      exact .bind (UnderCommit.step (fun s => hR.role s) fun _ => rfl) fun _ =>
        .throw _   -- the nested restore ends the program
  | writer => exact .pure _
  | arbiter => exact .pure _

theorem moves_parseImportClassInst (hR : SelectFrame c R) (a : ClassAddr) (text : InstText) :
    Moves (UnderCommit c R) (parseImportClassInst nestedRestore a text : SysM τ ClassInst) := by
  refine .get_bind fun s hs => ?_
  have hcommit : ∀ t : TaskType, ¬(t = .get ∧ s.task.commit = none) := by simp [hs]
  have hrest : Moves (UnderCommit c R) (do
      onIdx (kndClassAcquire a)
      restoreReader nestedRestore
      let s' ← get
      (if s'.task.type = .get ∧ s.task.commit = none then kndCommitNew none else pure ())
      kndImportClassInst a text : SysM τ ClassInst) := by
    refine .bind (moves_onIdx hR (extends_kndClassAcquire a)) fun _ =>
      .bind (moves_restoreReader hR) fun _ =>
      .bind .get fun s' => .bind ?_ fun _ => moves_kndImportClassInst hR a text
    rw [if_neg (hcommit _)]
    exact .pure _
  exact hrest s hs

theorem moves_importInsts (hR : SelectFrame c R) (a : ClassAddr) (texts : List InstText) :
    Moves (UnderCommit c R) (importInsts nestedRestore a texts : SysM τ (List ClassInst)) := by
  induction texts with
  | nil => exact .pure _
  | cons text texts ih =>
      exact .bind (moves_parseImportClassInst hR a text) fun _ => .bind ih fun _ => .pure _

theorem moves_kndClassSelect (hR : SelectFrame c R) (name : Name) (texts : List InstText) :
    Moves (UnderCommit c R)
      (kndClassSelect nestedRestore name texts : SysM τ (ClassAddr × List ClassInst)) := by
  refine .bind (moves_runGetClass hR name) fun a => .bind (moves_importInsts hR a texts) fun insts =>
    .bind (.bind .get fun s => ?_) fun _ => .pure _
  cases s.task.type with
  | restore => exact moves_kndClassCommitState hR a .selected
  | commit => exact moves_kndClassCommitState hR a .selected
  | get => exact .pure _
  | snapshot => exact .pure _

/-- **Parsing** the clauses of a commit. -/
theorem moves_parseBody (hR : ParseFrame c R) (body : List TaskItem) :
    Moves (UnderCommit c R) (body.forM (parseItem nestedRestore) : SysM τ Unit) := by
  refine .forM fun item _ => ?_
  cases item with
  | importClass name clauses => exact moves_parseClassImport hR name clauses
  | selectClass name texts =>
      exact .bind (moves_kndClassSelect hR.toSelectFrame name texts) fun _ => .pure _

/-! ## (3) Resolving and registering -/

variable [AttrVarOps τ]

theorem moves_resolveInst (hR : SelectFrame c R) (inst : ClassInst) :
    Moves (UnderCommit c R) (resolveInst inst : SysM τ Unit) := by
  have hattrs : Moves (UnderCommit c R) (resolveInstAttrs inst : SysM τ Unit) := by
    intro s
    unfold resolveInstAttrs
    cases hres : AttrVarOps.resolveAttrVars s.idx.texts inst with
    | error e => simpa [finalState, EStateM.run, hres] using refl_of (UnderCommit c R) s
    | ok u => simpa [finalState, EStateM.run, hres] using refl_of (UnderCommit c R) s
  have hmark : Moves (UnderCommit c R) (markResolved inst : SysM τ Unit) :=
    UnderCommit.step (fun s => hR.resolved s _) fun _ => rfl
  exact .bind .get fun s => .ite (fun _ => .pure _) fun _ =>
    .bind (moves_onIdx hR (extends_kndClassAcquire _)) fun _ =>
    .bind (.ite (fun _ => hattrs) fun _ => .pure _) fun _ => hmark

/-- **Resolving** the commit. -/
theorem moves_kndResolveCommit (hR : SelectFrame c R) (d : CommitAddr) :
    Moves (UnderCommit c R) (kndResolveCommit d : SysM τ Unit) :=
  .bind .get fun _ => .forM fun _ _ => .forM fun inst _ => moves_resolveInst hR inst

theorem extends_updateIndices (commit : CommitAddr) (refs : List ClassStateRef) :
    Moves Indices.Extends (updateIndices commit refs : IdxM τ Unit) :=
  (keeps_updateIndices commit refs).mono fun _ _ h => ⟨h.next.1.ge, h.next.2.ge⟩

/-- **Registering** the commit in the indices. -/
theorem moves_updateCommitIndices (hR : SelectFrame c R) (d : CommitAddr) :
    Moves (UnderCommit c R) (updateCommitIndices d : SysM τ Unit) :=
  .bind .get fun _ => moves_onIdx hR (extends_updateIndices d _)

omit [AttrVarOps τ] in
theorem moves_exportCommitGSL (d : CommitAddr) :
    Moves (UnderCommit c R) (exportCommitGSL d : SysM τ (List TaskItem)) := by
  intro s
  rw [finalState_exportCommitGSL]
  exact refl_of _ s

/-! ## (4) Confirming -/

omit [AttrVarOps τ] in
theorem moves_linkToHead (hR : WalFrame c R) :
    Moves (UnderCommit c R) (linkToHead c : SysM τ Unit) := by
  refine .bind .get fun s₀ => ?_
  cases s₀.snapshot.commits with
  | none => exact .pure _
  | some head =>
      exact UnderCommit.step (fun s => hR.renumber s fun commit =>
        { commit with prev := some head, numid := (s₀.ledger.commits head).numid + 1 }) fun _ => rfl

omit [AttrVarOps τ] in
theorem moves_checkClassConflicts (hR : CommitFrame c R) :
    Moves (UnderCommit c R) (checkClassConflicts c : SysM τ Unit) := by
  have hfail : Moves (UnderCommit c R) (do
      modifyCommit c fun commit => { commit with confirm := .conflict }
      throw (.err .fail) : SysM τ Unit) := .bind (moves_modifyCommit hR _ fun _ => rfl) fun _ => .throw _
  have hstate : ∀ d, Moves (UnderCommit c R) (checkState c d : SysM τ Unit) := by
    intro d
    refine .bind .get fun s => .ite (fun _ => .pure _) fun _ => ?_
    cases (s.ledger.commits d).confirm with
    | valid => exact hfail
    | persistent => exact hfail
    | init => exact .pure _
    | failed => exact .pure _
    | conflict => exact .pure _
    | replicated => exact .pure _
  refine .bind .get fun s => .forM fun ref _ => ?_
  unfold checkClassState
  cases ref.phase with
  | selected => exact .pure _
  | created => exact .bind .get fun s => .forM fun d _ => hstate d

omit [AttrVarOps τ] in
/-- **The conflict check** with the push. -/
theorem moves_checkCommitConflicts (hR : WalFrame c R) :
    Moves (UnderCommit c R) (checkCommitConflicts c : SysM τ Unit) :=
  .bind (moves_linkToHead hR) fun _ =>
    .bind (moves_checkClassConflicts hR.toCommitFrame) fun _ =>
      .bind (UnderCommit.step (fun s => hR.push s (some c) s.ledger.snapshot.numCommits
        s.ledger.snapshot.numJournals (.inr rfl)) fun _ => rfl) fun _ =>
        .bind (moves_modifyCommit hR.toCommitFrame _ fun _ => rfl) fun _ =>
          UnderCommit.step (fun s => hR.push s s.ledger.snapshot.commits
            (s.ledger.snapshot.numCommits + 1) s.ledger.snapshot.numJournals (.inl rfl)) fun _ => rfl

omit [AttrVarOps τ] in
theorem moves_prepareJournal (hR : WalFrame c R) :
    Moves (UnderCommit c R) (prepareJournal : SysM τ Unit) := by
  have hname : Moves (UnderCommit c R) (buildJournalFilename : SysM τ Nat) :=
    .bind .get fun _ => .bind (moves_onDisk hR _) fun _ => .ite (fun _ => .throw _) fun _ => .pure _
  have hinit : Moves (UnderCommit c R) (initCurrentJournal : SysM τ Unit) :=
    .bind .get fun _ => moves_onDisk hR _
  have hswitch : Moves (UnderCommit c R) (switchJournal : SysM τ Unit) :=
    .bind .get fun s₀ => UnderCommit.step (fun s => hR.push s s.ledger.snapshot.commits
      s.ledger.snapshot.numCommits (Function.update s.ledger.snapshot.numJournals s₀.task.id
        (s.ledger.snapshot.numJournals s₀.task.id + 1)) (.inl rfl)) fun _ => rfl
  refine .bind hname fun _ => .bind .get fun s => ?_
  cases currentJournal s with
  | none => exact hinit
  | some j =>
      exact .ite (fun _ => .bind hswitch fun _ => .bind hname fun _ => hinit) fun _ => .pure _

omit [AttrVarOps τ] in
/-- **The journal entry.** -/
theorem moves_buildCommitWAL (hR : WalFrame c R) :
    Moves (UnderCommit c R) (buildCommitWAL c : SysM τ Unit) :=
  .bind .get fun _ => .bind (moves_modifyCommit hR.toCommitFrame _ fun _ => rfl) fun _ =>
    .bind (moves_prepareJournal hR) fun _ => .bind (moves_exportCommitGSL c) fun _ =>
      .bind .get fun _ => .ite (fun _ => .ite (fun _ => .bind (moves_onDisk hR _) fun _ =>
        moves_modifyCommit hR.toCommitFrame _ fun _ => rfl) fun _ => .pure _) fun _ => .throw _

theorem moves_confirmAs (hR : ConfirmFrame c R) (role : AgentRole) :
    Moves (UnderCommit c R) (confirmAs role c : SysM τ Unit) := by
  cases role with
  | arbiter =>
      exact .bind (moves_updateCommitIndices hR.toSelectFrame c) fun _ =>
        .bind (moves_checkCommitConflicts hR.toWalFrame) fun _ => moves_buildCommitWAL hR.toWalFrame
  | reader => exact .bind (moves_exportCommitGSL c) fun _ => .pure _
  | writer => exact .bind (moves_exportCommitGSL c) fun _ => .pure _

/-- **The confirmation** of the commit. -/
theorem moves_kndConfirmCommit (hR : ConfirmFrame c R) :
    Moves (UnderCommit c R) (kndConfirmCommit : SysM τ Unit) := by
  intro s hs
  rw [finalState, run_kndConfirmCommit hs]
  exact Moves.bind (moves_kndResolveCommit hR.toSelectFrame c)
    (fun _ => moves_confirmAs hR s.task.role) s hs

/-- A confirmation in another role than ARBITER only resolves and exports. -/
theorem moves_kndConfirmCommit_of_role (hR : SelectFrame c R) {s : Sys τ}
    (hrole : s.task.role ≠ .arbiter) : UnderCommit c R s (finalState kndConfirmCommit s) := by
  intro hs
  have hconfirm : Moves (UnderCommit c R) (confirmAs s.task.role c : SysM τ Unit) := by
    cases hr : s.task.role with
    | arbiter => exact absurd hr hrole
    | reader => exact .bind (moves_exportCommitGSL c) fun _ => .pure _
    | writer => exact .bind (moves_exportCommitGSL c) fun _ => .pure _
  rw [finalState, run_kndConfirmCommit hs]
  exact Moves.bind (moves_kndResolveCommit hR c) (fun _ => hconfirm) s hs

/-- **A replayed task** with the confirmation at its end. -/
theorem moves_kndParseTask (hR : ConfirmFrame c R) (body : List TaskItem) :
    Moves (UnderCommit c R) (kndParseTask nestedRestore body : SysM τ Unit) := by
  refine .bind (moves_parseBody hR.toParseFrame body) fun _ => .bind .get fun s => ?_
  cases s.task.type with
  | commit => exact moves_kndConfirmCommit hR
  | get => exact .pure _
  | snapshot => exact .pure _
  | restore => exact .pure _

end Frame

/-! ## (5) The head of the list -/

/-- The head of the list of commits is left alone or becomes `c`. -/
def Heads (c : CommitAddr) (s s' : Sys τ) : Prop :=
  s'.snapshot.commits = s.snapshot.commits ∨ s'.snapshot.commits = some c

instance (c : CommitAddr) : IsPreorder (Sys τ) (Heads c) where
  refl _ := .inl rfl
  trans _ _ _ h h' := by
    rcases h' with h' | h'
    · rw [Heads, h']
      exact h
    · exact .inr h'

theorem confirmFrame_heads (c : CommitAddr) : ConfirmFrame c (Heads (τ := τ) c) where
  idx _ _ _ := .inl rfl
  resolved _ _ := .inl rfl
  task _ _ _ _ _ _ _ := .inl rfl
  commit _ _ _ := .inl rfl
  renumber _ _ := .inl rfl
  role _ := .inl rfl
  type _ := .inl rfl
  push _ _ _ _ hhead := hhead
  disk _ _ := .inl rfl

/-- Once in front, the commit `c` stays there. -/
theorem Heads.front {c : CommitAddr} {s s' : Sys τ} (h : Heads c s s')
    (hs : s.snapshot.commits = some c) : s'.snapshot.commits = some c := by
  rcases h with h | h
  · rw [h, hs]
  · exact h

/-- A commit that passes the conflict check is in front of the list. -/
theorem checkCommitConflicts_front {c : CommitAddr} {s s' : Sys τ}
    (hrun : (checkCommitConflicts c).run s = .ok () s') : s'.snapshot.commits = some c := by
  obtain ⟨u₁, s₁, -, hrest₁⟩ := run_bind_eq_ok.mp hrun
  obtain ⟨u₂, s₂, -, hrest₂⟩ := run_bind_eq_ok.mp hrest₁
  obtain ⟨u₃, s₃, hpush, hmark⟩ := run_bind_eq_ok.mp hrest₂
  cases hpush
  cases hmark
  rfl

end Knowdy
