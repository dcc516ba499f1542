import Knowdy.Journals
import Knowdy.ConfirmAtomic

/-! # A live task

A task that is no replay makes at most one commit, and what it does to the journals and to the list of
commits it does at the end, in an ARBITER.

* `Constructing c` — what a task leaves alone while it builds the commit `c`.
* `LiveOn c` — the task has no commit yet and `c` is the next address, or it has the commit `c`; the
  repository was not opened by a READER. `moves_liveBody` — the clauses of the task.
* `Linking c` — what the conflict check does to the list of commits.
* `LiveDone` — **what a live task comes to**: `kndParseTask_live`. -/

namespace Knowdy

variable {τ : Type}

/-! ## (1) Constructing a commit -/

/-- **What a task leaves alone while it builds the commit `c`**: the other commits, the list of commits and
the files. -/
structure Constructing (c : CommitAddr) (s s' : Sys τ) : Prop where
  /-- The other commits. -/
  others : ∀ d, d ≠ c → s'.ledger.commits d = s.ledger.commits d
  /-- The snapshot. -/
  snapshot : s'.snapshot.path = s.snapshot.path ∧ s'.snapshot.numid = s.snapshot.numid ∧
    s'.snapshot.numJournals = s.snapshot.numJournals ∧ s'.snapshot.commits = s.snapshot.commits
  /-- The role of the snapshot. -/
  reader : s.snapshot.role ≠ .reader → s'.snapshot.role ≠ .reader
  /-- The replays so far. -/
  applied : s'.ledger.applied = s.ledger.applied
  /-- The files. -/
  disk : s'.disk = s.disk
  /-- The repository. -/
  env : s'.repoPathSize = s.repoPathSize
  /-- The task. -/
  task : s'.task.id = s.task.id ∧ s'.task.role = s.task.role

instance (c : CommitAddr) : IsPreorder (Sys τ) (Constructing c) where
  refl _ := ⟨fun _ _ => rfl, ⟨rfl, rfl, rfl, rfl⟩, id, rfl, rfl, rfl, ⟨rfl, rfl⟩⟩
  trans _ _ _ h h' := {
    others := fun d hd => (h'.others d hd).trans (h.others d hd)
    snapshot := ⟨h'.snapshot.1.trans h.snapshot.1, h'.snapshot.2.1.trans h.snapshot.2.1,
      h'.snapshot.2.2.1.trans h.snapshot.2.2.1, h'.snapshot.2.2.2.trans h.snapshot.2.2.2⟩
    reader := h'.reader ∘ h.reader
    applied := h'.applied.trans h.applied
    disk := h'.disk.trans h.disk
    env := h'.env.trans h.env
    task := ⟨h'.task.1.trans h.task.1, h'.task.2.trans h.task.2⟩ }

/-- The same, when no commit is made. -/
def ConstructingOn (c : CommitAddr) (s s' : Sys τ) : Prop :=
  Constructing c s s' ∧ s'.ledger.nextCommit = s.ledger.nextCommit

instance (c : CommitAddr) : IsPreorder (Sys τ) (ConstructingOn c) where
  refl s := ⟨refl_of (Constructing c) s, rfl⟩
  trans _ _ _ h h' := ⟨trans_of (Constructing c) h.1 h'.1, h'.2.trans h.2⟩

/-- All steps of a task before the confirmation leave these alone. -/
theorem parseFrame_constructingOn (c : CommitAddr) : ParseFrame c (ConstructingOn (τ := τ) c) where
  idx _ _ _ := ⟨⟨fun _ _ => rfl, ⟨rfl, rfl, rfl, rfl⟩, id, rfl, rfl, rfl, ⟨rfl, rfl⟩⟩, rfl⟩
  resolved _ _ := ⟨⟨fun _ _ => rfl, ⟨rfl, rfl, rfl, rfl⟩, id, rfl, rfl, rfl, ⟨rfl, rfl⟩⟩, rfl⟩
  task _ _ hid hrole _ _ _ :=
    ⟨⟨fun _ _ => rfl, ⟨rfl, rfl, rfl, rfl⟩, id, rfl, rfl, rfl, ⟨hid, hrole⟩⟩, rfl⟩
  commit _ _ _ := ⟨⟨fun _ hd => Function.update_of_ne hd _ _, ⟨rfl, rfl, rfl, rfl⟩, id, rfl, rfl, rfl,
    ⟨rfl, rfl⟩⟩, rfl⟩
  role _ := ⟨⟨fun _ _ => rfl, ⟨rfl, rfl, rfl, rfl⟩, (fun _ h => nomatch h), rfl, rfl, rfl, ⟨rfl, rfl⟩⟩,
    rfl⟩
  type _ := ⟨⟨fun _ _ => rfl, ⟨rfl, rfl, rfl, rfl⟩, id, rfl, rfl, rfl, ⟨rfl, rfl⟩⟩, rfl⟩

/-- **The task builds the commit `c`**, which it has made or will make, in a repository that was not opened
by a READER. -/
structure LiveOn (c : CommitAddr) (s : Sys τ) : Prop where
  /-- The role of the snapshot. -/
  reader : s.snapshot.role ≠ .reader
  /-- The commit. -/
  commit : s.task.commit = none ∧ s.ledger.nextCommit = c ∨
    s.task.commit = some c ∧ s.ledger.nextCommit = c + 1

/-- A run of a task that builds the commit `c`. -/
def Lives (c : CommitAddr) (s s' : Sys τ) : Prop := LiveOn c s → Constructing c s s' ∧ LiveOn c s'

instance (c : CommitAddr) : IsPreorder (Sys τ) (Lives c) where
  refl s h := ⟨refl_of (Constructing c) s, h⟩
  trans _ _ _ h h' hlive := by
    obtain ⟨h₁, hlive₁⟩ := h hlive
    obtain ⟨h₂, hlive₂⟩ := h' hlive₁
    exact ⟨trans_of (Constructing c) h₁ h₂, hlive₂⟩

/-- What a program that looks up classes and makes instances leaves alone. -/
structure LooksOnly (s s' : Sys τ) : Prop where
  /-- The commits. -/
  ledger : s'.ledger = s.ledger
  /-- The files. -/
  disk : s'.disk = s.disk
  /-- The repository. -/
  env : s'.repoPathSize = s.repoPathSize
  /-- The task. -/
  task : s'.task.id = s.task.id ∧ s'.task.role = s.task.role ∧ s'.task.commit = s.task.commit

instance : IsPreorder (Sys τ) LooksOnly where
  refl _ := ⟨rfl, rfl, rfl, ⟨rfl, rfl, rfl⟩⟩
  trans _ _ _ h h' := ⟨h'.ledger.trans h.ledger, h'.disk.trans h.disk, h'.env.trans h.env,
    ⟨h'.task.1.trans h.task.1, h'.task.2.1.trans h.task.2.1, h'.task.2.2.trans h.task.2.2⟩⟩

theorem LooksOnly.lives {c : CommitAddr} {s s' : Sys τ} (h : LooksOnly s s') : Lives c s s' := by
  intro hlive
  refine ⟨⟨fun _ _ => by rw [h.ledger], ?_, ?_, by rw [h.ledger], h.disk, h.env, ⟨h.task.1, h.task.2.1⟩⟩,
    ?_, ?_⟩
  · rw [Sys.snapshot, Sys.snapshot, h.ledger]
    exact ⟨rfl, rfl, rfl, rfl⟩
  · rw [Sys.snapshot, Sys.snapshot, h.ledger]
    exact id
  · rw [Sys.snapshot, h.ledger]
    exact hlive.reader
  · rw [h.task.2.2, h.ledger]
    exact hlive.commit

/-- A program that works on a commit that is there keeps the task live. -/
theorem Lives.of_under {c : CommitAddr} {s s' : Sys τ} (hcommit : s.task.commit = some c)
    (h : UnderCommit c (ConstructingOn c) s s') : Lives c s s' := by
  intro hlive
  obtain ⟨⟨hbuild, hnext⟩, hcommit'⟩ := h hcommit
  refine ⟨hbuild, hbuild.reader hlive.reader, .inr ⟨hcommit', hnext.trans ?_⟩⟩
  rcases hlive.commit with ⟨hnone, -⟩ | ⟨-, hnext⟩
  · rw [hcommit] at hnone
    cases hnone
  · exact hnext

/-! ## (2) The clauses of a live task -/

theorem looksOnly_onIdx {α : Type} (x : IdxM τ α) : Moves LooksOnly (onIdx x : SysM τ α) :=
  Moves.zoom x fun _ _ => ⟨rfl, rfl, rfl, ⟨rfl, rfl, rfl⟩⟩

theorem looksOnly_modifyTask {f : Task → Task} (hid : ∀ t, (f t).id = t.id)
    (hrole : ∀ t, (f t).role = t.role) (hcommit : ∀ t, (f t).commit = t.commit) :
    Moves LooksOnly (modifyTask f : SysM τ Unit) := fun _ => ⟨rfl, rfl, rfl, ⟨hid _, hrole _, hcommit _⟩⟩

theorem looksOnly_runGetClass (name : Name) : Moves LooksOnly (runGetClass name : SysM τ ClassAddr) := by
  refine .ite (fun _ => .throw _) fun _ => .ite (fun _ => .pure _) fun _ => .bind .get fun s => ?_
  cases s.idx.classByName name with
  | none => exact .throw _
  | some a => exact .bind (looksOnly_onIdx _) fun _ => .pure _

theorem looksOnly_kndImportClassInst (a : ClassAddr) (text : InstText) :
    Moves LooksOnly (kndImportClassInst a text : SysM τ ClassInst) := by
  have hnew : Moves LooksOnly (kndClassInstNew a text : SysM τ ClassInst) := by
    intro s
    rcases run_kndClassInstNew a text s with ⟨e, hrun⟩ | ⟨inst, idx, hrun, -⟩
    · rw [finalState_of_error hrun]
      exact refl_of LooksOnly s
    · rw [finalState_of_ok hrun]
      exact ⟨rfl, rfl, rfl, ⟨rfl, rfl, rfl⟩⟩
  exact .bind (looksOnly_modifyTask (fun _ => rfl) (fun _ => rfl) fun _ => rfl) fun _ =>
    .bind hnew fun _ => .bind (looksOnly_modifyTask (fun _ => rfl) (fun _ => rfl) fun _ => rfl) fun _ =>
      .pure _

/-- What a class import does before the class goes into the commit. -/
theorem looksOnly_newClass (name : Name) (clauses : List Name) : Moves LooksOnly (do
    checkRepoClassName name
    checkTaskClassName name
    kndClassNew name clauses : SysM τ ClassAddr) := by
  have hrepo : Moves LooksOnly (checkRepoClassName name : SysM τ Unit) := by
    refine .bind .get fun s => ?_
    cases s.idx.classByName name with
    | none => exact .pure _
    | some a =>
        exact .ite (fun _ => .bind (looksOnly_onIdx _) fun _ => .throw _) fun _ => .pure _
  have htask : Moves LooksOnly (checkTaskClassName name : SysM τ Unit) :=
    .bind .get fun _ => .ite (fun _ => .throw _) fun _ =>
      looksOnly_modifyTask (fun _ => rfl) (fun _ => rfl) fun _ => rfl
  exact .bind hrepo fun _ => .bind htask fun _ _ => ⟨rfl, rfl, rfl, ⟨rfl, rfl, rfl⟩⟩

section Live

variable {c : CommitAddr}

/-- The state of the class goes into the commit, if there is one. -/
theorem lives_kndClassCommitState (a : ClassAddr) (phase : ClassPhase) :
    Moves (Lives c) (kndClassCommitState a phase : SysM τ Unit) := by
  intro s hlive
  rcases hlive.commit with ⟨hnone, -⟩ | ⟨hsome, -⟩
  · have hrun : (kndClassCommitState a phase).run s = .error .abort s := by
      rw [run_kndClassCommitState, hnone]
      rfl
    rw [finalState_of_error hrun]
    exact ⟨refl_of (Constructing c) s, hlive⟩
  · exact Lives.of_under hsome
      (moves_kndClassCommitState (parseFrame_constructingOn c).toSelectFrame a phase s) hlive

/-- **The commit of the task** is made. -/
theorem lives_kndCommitNew {s : Sys τ} (home : Option Nat) (hnone : s.task.commit = none) :
    Lives c s (finalState (kndCommitNew home) s) := by
  intro hlive
  have hnext : s.ledger.nextCommit = c := by
    rcases hlive.commit with ⟨-, hnext⟩ | ⟨hsome, -⟩
    · exact hnext
    · rw [hnone] at hsome
      cases hsome
  subst hnext
  exact ⟨⟨fun _ hd => Function.update_of_ne hd _ _, ⟨rfl, rfl, rfl, rfl⟩, id, rfl, rfl, rfl, ⟨rfl, rfl⟩⟩,
    hlive.reader, .inr ⟨rfl, rfl⟩⟩

theorem lives_kndClassImport (name : Name) (clauses : List Name) :
    Moves (Lives c) (kndClassImport name clauses : SysM τ Unit) := by
  have hunfold : (kndClassImport name clauses : SysM τ Unit)
      = if name = [] then throw (.err .fail) else (do
          checkRepoClassName name
          checkTaskClassName name
          kndClassNew name clauses) >>= fun a => kndClassCommitState a .created := by
    rw [kndClassImport]
    simp only [bind_assoc]
  rw [hunfold]
  exact .ite (fun _ => .throw _) fun _ =>
    .bind ((looksOnly_newClass name clauses).mono fun _ _ h => h.lives) fun a => lives_kndClassCommitState a .created

theorem lives_parseClassImport (name : Name) (clauses : List Name) :
    Moves (Lives c) (parseClassImport name clauses : SysM τ Unit) := by
  have hlooks : Moves LooksOnly (modifyTask fun t => { t with type := .commit } : SysM τ Unit) :=
    looksOnly_modifyTask (fun _ => rfl) (fun _ => rfl) fun _ => rfl
  have htype : Moves (Lives c) (modifyTask fun t => { t with type := .commit } : SysM τ Unit) :=
    hlooks.mono fun _ _ h => h.lives
  refine .bind htype fun _ => .get_bind fun s => ?_
  by_cases hnone : s.task.commit = none
  · rw [if_pos hnone]
    -- the task has no commit yet
    have hgo : (kndCommitNew (some s.task.id) >>= fun _ => kndClassImport name clauses).run s
        = (kndClassImport name clauses).run (finalState (kndCommitNew (some s.task.id)) s) := rfl
    rw [finalState, hgo, ← finalState]
    exact trans_of (Lives c) (lives_kndCommitNew _ hnone) (lives_kndClassImport name clauses _)
  · rw [if_neg hnone]
    exact lives_kndClassImport name clauses s

theorem lives_parseImportClassInst (restore : SysM τ Unit) (a : ClassAddr) (text : InstText) :
    Moves (Lives c) (parseImportClassInst restore a text : SysM τ ClassInst) := by
  intro s hlive
  have hlooks := looksOnly_onIdx (kndClassAcquire a) s
  have hinst : ∀ s : Sys τ, Lives c s (finalState (kndImportClassInst a text) s) := fun s =>
    (looksOnly_kndImportClassInst a text s).lives
  rw [finalState, run_parseImportClassInst]
  cases hacquire : (onIdx (kndClassAcquire a)).run s with
  | error e s₁ =>
      rw [finalState_of_error hacquire] at hlooks
      rw [run_bind_of_error hacquire]
      exact hlooks.lives hlive
  | ok u s₁ =>
      rw [finalState_of_ok hacquire] at hlooks
      obtain ⟨hbuild₁, hlive₁⟩ := hlooks.lives hlive
      rw [run_bind_of_ok hacquire, run_bind_of_ok (restoreReader_of_ne restore hlive₁.reader)]
      have hget : (get : SysM τ (Sys τ)).run s₁ = .ok s₁ s₁ := rfl
      rw [run_bind_of_ok hget]
      by_cases hnew : s₁.task.type = .get ∧ s.task.commit = none
      · have hgo : (kndCommitNew none >>= fun _ => kndImportClassInst a text).run s₁
            = (kndImportClassInst a text).run (finalState (kndCommitNew none) s₁) := rfl
        have hnone : s₁.task.commit = none := hlooks.task.2.2.trans hnew.2
        rw [if_pos hnew, hgo, ← finalState]
        exact trans_of (Lives c) (fun _ => ⟨hbuild₁, hlive₁⟩)
          (trans_of (Lives c) (lives_kndCommitNew none hnone) (hinst _)) hlive
      · rw [if_neg hnew]
        exact trans_of (Lives c) (fun _ => ⟨hbuild₁, hlive₁⟩) (hinst s₁) hlive

theorem lives_importInsts (restore : SysM τ Unit) (a : ClassAddr) (texts : List InstText) :
    Moves (Lives c) (importInsts restore a texts : SysM τ (List ClassInst)) := by
  induction texts with
  | nil => exact .pure _
  | cons text texts ih =>
      exact .bind (lives_parseImportClassInst restore a text) fun _ => .bind ih fun _ => .pure _

theorem lives_kndClassSelect (restore : SysM τ Unit) (name : Name) (texts : List InstText) :
    Moves (Lives c) (kndClassSelect restore name texts : SysM τ (ClassAddr × List ClassInst)) := by
  refine .bind ((looksOnly_runGetClass name).mono fun _ _ h => h.lives) fun a =>
    .bind (lives_importInsts restore a texts) fun insts => .bind (.bind .get fun s => ?_) fun _ => .pure _
  cases s.task.type with
  | restore => exact lives_kndClassCommitState a .selected
  | commit => exact lives_kndClassCommitState a .selected
  | get => exact .pure _
  | snapshot => exact .pure _

/-- **The clauses of a live task** make at most one commit, and change neither the list nor the files. -/
theorem moves_liveBody (restore : SysM τ Unit) (body : List TaskItem) :
    Moves (Lives c) (body.forM (parseItem restore) : SysM τ Unit) := by
  refine .forM fun item _ => ?_
  cases item with
  | importClass name clauses => exact lives_parseClassImport name clauses
  | selectClass name texts => exact .bind (lives_kndClassSelect restore name texts) fun _ => .pure _

end Live

/-! ## (3) The conflict check -/

/-- **What the conflict check leaves alone** beside the list of commits. -/
structure Linking (s s' : Sys τ) : Prop where
  /-- No commit is made. -/
  nextCommit : s'.ledger.nextCommit = s.ledger.nextCommit
  /-- The snapshot. -/
  snapshot : s'.snapshot.path = s.snapshot.path ∧ s'.snapshot.numid = s.snapshot.numid ∧
    s'.snapshot.numJournals = s.snapshot.numJournals ∧ s'.snapshot.role = s.snapshot.role
  /-- The replays so far. -/
  applied : s'.ledger.applied = s.ledger.applied
  /-- The files. -/
  disk : s'.disk = s.disk
  /-- The repository. -/
  env : s'.repoPathSize = s.repoPathSize
  /-- The task. -/
  task : s'.task = s.task

instance : IsPreorder (Sys τ) Linking where
  refl _ := ⟨rfl, ⟨rfl, rfl, rfl, rfl⟩, rfl, rfl, rfl, rfl⟩
  trans _ _ _ h h' := {
    nextCommit := h'.nextCommit.trans h.nextCommit
    snapshot := ⟨h'.snapshot.1.trans h.snapshot.1, h'.snapshot.2.1.trans h.snapshot.2.1,
      h'.snapshot.2.2.1.trans h.snapshot.2.2.1, h'.snapshot.2.2.2.trans h.snapshot.2.2.2⟩
    applied := h'.applied.trans h.applied
    disk := h'.disk.trans h.disk
    env := h'.env.trans h.env
    task := h'.task.trans h.task }

/-- The relation of the scan for conflicts: no number changes, and the head of the list stays. -/
def Scans (s s' : Sys τ) : Prop :=
  Linking s s' ∧ (∀ d, (s'.ledger.commits d).numid = (s.ledger.commits d).numid) ∧
    s'.snapshot.commits = s.snapshot.commits

instance : IsPreorder (Sys τ) Scans where
  refl s := ⟨refl_of Linking s, fun _ => rfl, rfl⟩
  trans _ _ _ h h' := ⟨trans_of Linking h.1 h'.1, fun d => (h'.2.1 d).trans (h.2.1 d),
    h'.2.2.trans h.2.2⟩

theorem commitFrame_scans (c : CommitAddr) : CommitFrame c (Scans (τ := τ)) where
  commit s _ hf := ⟨⟨rfl, ⟨rfl, rfl, rfl, rfl⟩, rfl, rfl, rfl, rfl⟩,
    fun d => s.ledger.numid_setCommit (hf _) d, rfl⟩

/-- **The number a commit gets**: the one after the number of the head; without a head it keeps its own. -/
def nextNumid (s : Sys τ) (c : CommitAddr) : Nat :=
  match s.snapshot.commits with
  | none => (s.ledger.commits c).numid
  | some head => (s.ledger.commits head).numid + 1

/-- **The conflict check** numbers the commit; when it returns the commit is in front of the list, and
otherwise the list is what it was. -/
structure LinksCommit (c : CommitAddr) (s s' : Sys τ) (ok : Bool) : Prop where
  /-- The rest. -/
  linking : Linking s s'
  /-- The other numbers. -/
  others : ∀ d, d ≠ c → (s'.ledger.commits d).numid = (s.ledger.commits d).numid
  /-- The number. -/
  numid : (s'.ledger.commits c).numid = nextNumid s c
  /-- The list. -/
  head : s'.snapshot.commits = if ok then some c else s.snapshot.commits

theorem linkToHead_links (c : CommitAddr) (s : Sys τ) : ∃ s', (linkToHead c).run s = .ok () s' ∧
    LinksCommit c s s' false := by
  rw [run_linkToHead]
  cases hhead : s.snapshot.commits with
  | none =>
      refine ⟨s, rfl, refl_of Linking s, fun _ _ => rfl, ?_, rfl⟩
      rw [nextNumid, hhead]
  | some head =>
      refine ⟨_, rfl, ⟨rfl, ⟨rfl, rfl, rfl, rfl⟩, rfl, rfl, rfl, rfl⟩, fun d hd => ?_, ?_, rfl⟩
      · show (Function.update s.ledger.commits c _ d).numid = _
        rw [Function.update_of_ne hd]
      · show (Function.update s.ledger.commits c _ c).numid = _
        rw [Function.update_self, nextNumid, hhead]

/-- **`check_commit_conflicts`** of the commit of the task. -/
theorem checkCommitConflicts_links {c : CommitAddr} {s : Sys τ} (hcommit : s.task.commit = some c) :
    LinksCommit c s (finalState (checkCommitConflicts c) s) (returns (checkCommitConflicts c) s) := by
  obtain ⟨s₁, hlink, h₁⟩ := linkToHead_links c s
  have hcommit₁ : s₁.task.commit = some c := by rw [h₁.linking.task, hcommit]
  obtain ⟨⟨hlinking, hnumids, hhead⟩, -⟩ :=
    moves_checkClassConflicts (commitFrame_scans c) s₁ hcommit₁
  have hrun : (checkCommitConflicts c).run s = (checkClassConflicts c >>= fun _ => pushCommit c >>=
      fun _ => markConfirmed c : SysM τ Unit).run s₁ := run_bind_of_ok hlink
  rw [finalState, returns, hrun]
  cases hcheck : (checkClassConflicts c).run s₁ with
  | error e s₂ =>
      rw [finalState_of_error hcheck] at hlinking hnumids hhead
      rw [run_bind_of_error hcheck]
      exact ⟨trans_of Linking h₁.linking hlinking, fun d hd => (hnumids d).trans (h₁.others d hd),
        (hnumids c).trans h₁.numid, hhead.trans h₁.head⟩
  | ok u s₂ =>
      rw [finalState_of_ok hcheck] at hlinking hnumids hhead
      rw [run_bind_of_ok hcheck]
      -- the push and the mark change the head and the state of the commit
      set s₃ := finalState (pushCommit c >>= fun _ => markConfirmed c) s₂ with hs₃
      have hmark : Linking s₂ s₃ := ⟨rfl, ⟨rfl, rfl, rfl, rfl⟩, rfl, rfl, rfl, rfl⟩
      have hkeep : ∀ d, (s₃.ledger.commits d).numid = (s₂.ledger.commits d).numid := fun d =>
        @Ledger.numid_setCommit s₂.ledger c { s₂.ledger.commits c with confirm := .valid } rfl d
      exact ⟨trans_of Linking h₁.linking (trans_of Linking hlinking hmark),
        fun d hd => ((hkeep d).trans (hnumids d)).trans (h₁.others d hd),
        ((hkeep c).trans (hnumids c)).trans h₁.numid, rfl⟩

/-! ## (4) The whole task -/

/-- **What a live task comes to**: the journals are enumerable, and either no record is written, the head of
the list staying or becoming the new commit, or the record of the new commit, which is in front of the list
then. The new commit has the number after that of the head. -/
structure LiveDone (s s' : Sys τ) : Prop where
  /-- The journals. -/
  journaled : Journaled s'
  /-- The snapshot. -/
  snapshot : s'.snapshot.path = s.snapshot.path ∧ s'.snapshot.numid = s.snapshot.numid
  /-- The role of the snapshot. -/
  reader : s'.snapshot.role ≠ .reader
  /-- The replays so far. -/
  applied : s'.ledger.applied = s.ledger.applied
  /-- The repository. -/
  env : s'.repoPathSize = s.repoPathSize
  /-- The task. -/
  task : s'.task.role = s.task.role
  /-- The folders of the snapshots. -/
  snapshotDirs : (∀ n, s.snapshot.path = .numbered n → s.disk.snapshotDirs n) →
    s'.disk.snapshotDirs = s.disk.snapshotDirs
  /-- The commits that were there. -/
  numids : ∀ d < s.ledger.nextCommit, (s'.ledger.commits d).numid = (s.ledger.commits d).numid
  /-- No address becomes free. -/
  grows : s.ledger.nextCommit ≤ s'.ledger.nextCommit
  /-- The list and the records. -/
  outcome : s'.disk.written = s.disk.written ∧ s'.snapshot.commits = s.snapshot.commits ∨
    s'.snapshot.commits = some s.ledger.nextCommit ∧ s.ledger.nextCommit < s'.ledger.nextCommit ∧
    (∀ head, s.snapshot.commits = some head → head < s.ledger.nextCommit →
      (s'.ledger.commits s.ledger.nextCommit).numid = (s.ledger.commits head).numid + 1) ∧
    (s'.disk.written = s.disk.written ∨ ∃ r : WalRecord,
      r.numid = (s'.ledger.commits s.ledger.nextCommit).numid ∧ r.size ≠ 0 ∧
      s'.disk.written = s.disk.written ++ [r])

/-- A task up to the conflict check of its commit, and the writer after it. -/
theorem LiveDone.of_parts {s s₁ s₂ s₃ : Sys τ} (hbuild : Constructing s.ledger.nextCommit s s₁)
    (hreader : s₁.snapshot.role ≠ .reader) (hgrows : s.ledger.nextCommit ≤ s₁.ledger.nextCommit)
    (hlink : Linking s₁ s₂) (hothers : ∀ d, d ≠ s.ledger.nextCommit →
      (s₂.ledger.commits d).numid = (s₁.ledger.commits d).numid)
    (hjournaled : Journaled s₃) (hwrite : Writing s₂ s₃) (hdirs : s₂.disk = s.disk)
    (houtcome : s₃.disk.written = s.disk.written ∧ s₃.snapshot.commits = s.snapshot.commits ∨
      s₃.snapshot.commits = some s.ledger.nextCommit ∧ s.ledger.nextCommit < s₃.ledger.nextCommit ∧
      (∀ head, s.snapshot.commits = some head → head < s.ledger.nextCommit →
        (s₃.ledger.commits s.ledger.nextCommit).numid = (s.ledger.commits head).numid + 1) ∧
      (s₃.disk.written = s.disk.written ∨ ∃ r : WalRecord,
        r.numid = (s₃.ledger.commits s.ledger.nextCommit).numid ∧ r.size ≠ 0 ∧
        s₃.disk.written = s.disk.written ++ [r])) : LiveDone s s₃ where
  journaled := hjournaled
  snapshot := ⟨hwrite.snapshot.1.trans (hlink.snapshot.1.trans hbuild.snapshot.1),
    hwrite.snapshot.2.2.2.trans (hlink.snapshot.2.1.trans hbuild.snapshot.2.1)⟩
  reader := by
    rw [hwrite.snapshot.2.1, hlink.snapshot.2.2.2]
    exact hreader
  applied := hwrite.applied.trans (hlink.applied.trans hbuild.applied)
  env := hwrite.env.trans (hlink.env.trans hbuild.env)
  task := by rw [hwrite.task, hlink.task, hbuild.task.2]
  snapshotDirs hn := by
    rw [hwrite.snapshotDirs fun n hpath => ?_, hdirs]
    rw [hdirs]
    exact hn n ((hlink.snapshot.1.trans hbuild.snapshot.1).symm.trans hpath)
  numids d hd := by
    have hne : d ≠ s.ledger.nextCommit := Nat.ne_of_lt hd
    rw [hwrite.numids, hothers d hne, hbuild.others d hne]
  grows := by rw [hwrite.nextCommit, hlink.nextCommit]; exact hgrows
  outcome := houtcome

/-- A task that only builds its commit. -/
theorem LiveDone.of_constructing {s s' : Sys τ} (hjournaled : Journaled s)
    (hbuild : Constructing s.ledger.nextCommit s s') (hlive : LiveOn s.ledger.nextCommit s') :
    LiveDone s s' := by
  have hgrows : s.ledger.nextCommit ≤ s'.ledger.nextCommit := by
    rcases hlive.commit with ⟨-, h⟩ | ⟨-, h⟩
    · exact h.ge
    · exact h ▸ Nat.le_succ _
  exact .of_parts hbuild hlive.reader hgrows (refl_of Linking s') (fun _ _ => rfl)
    (hjournaled.congr hbuild.disk hbuild.snapshot.1 hbuild.snapshot.2.2.1) (refl_of Writing s')
    hbuild.disk (.inl ⟨by rw [hbuild.disk], hbuild.snapshot.2.2.2⟩)

/-- **The conflict check and the journal** of a live task in an ARBITER. -/
theorem confirm_live {s s₁ : Sys τ} (hjournaled : Journaled s) (hwrite : CanWrite s)
    (hrole : s.task.role = .arbiter) (hbuild : Constructing s.ledger.nextCommit s s₁)
    (hlive : LiveOn s.ledger.nextCommit s₁) (hcommit : s₁.task.commit = some s.ledger.nextCommit) :
    LiveDone s (finalState (checkCommitConflicts s.ledger.nextCommit >>= fun _ =>
      buildCommitWAL s.ledger.nextCommit) s₁) := by
  set c := s.ledger.nextCommit with hc
  have hnext₁ : s₁.ledger.nextCommit = c + 1 := by
    rcases hlive.commit with ⟨hnone, -⟩ | ⟨-, h⟩
    · rw [hcommit] at hnone
      cases hnone
    · exact h
  have hgrows : c ≤ s₁.ledger.nextCommit := hnext₁ ▸ Nat.le_succ c
  have hlinks := checkCommitConflicts_links hcommit
  cases hcheck : (checkCommitConflicts c).run s₁ with
  | error e s₂ =>
      rw [finalState_of_error hcheck] at hlinks
      rw [returns, hcheck] at hlinks
      rw [finalState_of_error (run_bind_of_error hcheck)]
      have hdisk : s₂.disk = s.disk := hlinks.linking.disk.trans hbuild.disk
      exact .of_parts hbuild hlive.reader hgrows hlinks.linking hlinks.others
        (hjournaled.congr hdisk (hlinks.linking.snapshot.1.trans hbuild.snapshot.1)
          (hlinks.linking.snapshot.2.2.1.trans hbuild.snapshot.2.2.1))
        (refl_of Writing s₂) hdisk
        (.inl ⟨by rw [hdisk], hlinks.head.trans hbuild.snapshot.2.2.2⟩)
  | ok u s₂ =>
      rw [finalState_of_ok hcheck] at hlinks
      rw [returns, hcheck] at hlinks
      rw [finalState, run_bind_of_ok hcheck, ← finalState]
      have hdisk : s₂.disk = s.disk := hlinks.linking.disk.trans hbuild.disk
      have hpath := hlinks.linking.snapshot.1.trans hbuild.snapshot.1
      have hnum := hlinks.linking.snapshot.2.2.1.trans hbuild.snapshot.2.2.1
      have hid : s₂.task.id = s.task.id := by rw [hlinks.linking.task, hbuild.task.1]
      have hrole₂ : s₂.task.role = .arbiter := by rw [hlinks.linking.task, hbuild.task.2, hrole]
      obtain ⟨hjournaled₃, hwriting, hwritten⟩ := buildCommitWAL_journaled c
        (hjournaled.congr hdisk hpath hnum)
        (hwrite.congr hdisk hpath hnum hid (hlinks.linking.env.trans hbuild.env)) hrole₂
      set s₃ := finalState (buildCommitWAL c) s₂ with hs₃
      -- the new commit is in front of the list with the number after the old head
      have hhead : s₃.snapshot.commits = some c := hwriting.snapshot.2.2.1.trans hlinks.head
      have hbound : c < s₃.ledger.nextCommit := by
        rw [hwriting.nextCommit, hlinks.linking.nextCommit, hnext₁]
        exact Nat.lt_succ_self c
      have hnumid : ∀ head, s.snapshot.commits = some head → head < c →
          (s₃.ledger.commits c).numid = (s.ledger.commits head).numid + 1 := by
        intro head hfront hlt
        rw [hwriting.numids, hlinks.numid, nextNumid, hbuild.snapshot.2.2.2, hfront]
        simp only []
        rw [hbuild.others head (Nat.ne_of_lt hlt)]
      have hrecord : s₃.disk.written = s.disk.written ∨ ∃ r : WalRecord,
          r.numid = (s₃.ledger.commits c).numid ∧ r.size ≠ 0 ∧
            s₃.disk.written = s.disk.written ++ [r] := by
        rw [← hdisk, hwriting.numids]
        cases hret : returns (buildCommitWAL c) s₂ with
        | true =>
            rw [hret] at hwritten
            exact .inr hwritten
        | false =>
            rw [hret] at hwritten
            exact .inl hwritten
      exact .of_parts hbuild hlive.reader hgrows hlinks.linking hlinks.others hjournaled₃ hwriting hdisk
        (.inr ⟨hhead, hbound, hnumid, hrecord⟩)

section Task

variable [AttrVarOps τ]

/-- **Confirming the commit** of a live task. -/
theorem kndConfirmCommit_live {s s₁ : Sys τ} (hjournaled : Journaled s)
    (hwrite : s.task.role = .arbiter → CanWrite s) (hbuild : Constructing s.ledger.nextCommit s s₁)
    (hlive : LiveOn s.ledger.nextCommit s₁) : LiveDone s (finalState kndConfirmCommit s₁) := by
  set c := s.ledger.nextCommit with hc
  have hselect := (parseFrame_constructingOn (τ := τ) c).toSelectFrame
  rcases hlive.commit with ⟨hnone, -⟩ | ⟨hcommit, -⟩
  · -- without a commit the assertion stops the task
    rw [finalState_of_error (kndConfirmCommit_of_none hnone)]
    exact .of_constructing hjournaled hbuild hlive
  · rw [finalState, run_kndConfirmCommit hcommit]
    obtain ⟨hbuild₂, hlive₂⟩ := Lives.of_under hcommit (moves_kndResolveCommit hselect c s₁ ) hlive
    have hcommit₂ := (moves_kndResolveCommit hselect c s₁ hcommit).2
    cases hresolve : (kndResolveCommit c).run s₁ with
    | error e s₂ =>
        rw [finalState_of_error hresolve] at hbuild₂ hlive₂
        rw [run_bind_of_error hresolve]
        exact .of_constructing hjournaled (trans_of (Constructing c) hbuild hbuild₂) hlive₂
    | ok u s₂ =>
        rw [finalState_of_ok hresolve] at hbuild₂ hlive₂ hcommit₂
        have hbuild' := trans_of (Constructing c) hbuild hbuild₂
        rw [run_bind_of_ok hresolve, ← finalState]
        by_cases hrole : s₁.task.role = .arbiter
        · have hrole₀ : s.task.role = .arbiter := hbuild.task.2 ▸ hrole
          rw [hrole]
          have hunfold : (confirmAs .arbiter c).run s₂ = (updateCommitIndices c >>= fun _ =>
              (checkCommitConflicts c >>= fun _ => buildCommitWAL c) : SysM τ Unit).run s₂ := rfl
          rw [finalState, hunfold]
          obtain ⟨hbuild₃, hlive₃⟩ :=
            Lives.of_under hcommit₂ (moves_updateCommitIndices hselect c s₂) hlive₂
          have hcommit₃ := (moves_updateCommitIndices hselect c s₂ hcommit₂).2
          cases hupdate : (updateCommitIndices c).run s₂ with
          | error e s₃ =>
              rw [finalState_of_error hupdate] at hbuild₃ hlive₃
              rw [run_bind_of_error hupdate]
              exact .of_constructing hjournaled (trans_of (Constructing c) hbuild' hbuild₃) hlive₃
          | ok u s₃ =>
              rw [finalState_of_ok hupdate] at hbuild₃ hlive₃ hcommit₃
              rw [run_bind_of_ok hupdate, ← finalState]
              exact confirm_live hjournaled (hwrite hrole₀) hrole₀
                (trans_of (Constructing c) hbuild' hbuild₃) hlive₃ hcommit₃
        · rw [finalState_confirmAs hrole c s₂]
          exact .of_constructing hjournaled hbuild' hlive₂

/-- **A live task** of an ARBITER that can write into the range of the reader, or of another role. -/
theorem kndParseTask_live {s : Sys τ} (restore : SysM τ Unit) (body : List TaskItem)
    (hjournaled : Journaled s) (hreader : s.snapshot.role ≠ .reader) (hidle : s.task.commit = none)
    (hwrite : s.task.role = .arbiter → CanWrite s) :
    LiveDone s (finalState (kndParseTask restore body) s) := by
  set c := s.ledger.nextCommit with hc
  obtain ⟨hbuild, hlive⟩ := moves_liveBody restore body s (⟨hreader, .inl ⟨hidle, rfl⟩⟩ : LiveOn c s)
  rw [kndParseTask_eq]
  cases hrun : (body.forM (parseItem restore) : SysM τ Unit).run s with
  | error e s₁ =>
      rw [finalState_of_error hrun] at hbuild hlive
      rw [finalState_of_error (run_bind_of_error hrun)]
      exact .of_constructing hjournaled hbuild hlive
  | ok u s₁ =>
      rw [finalState_of_ok hrun] at hbuild hlive
      rw [finalState, run_bind_of_ok hrun, run_finishTask, ← finalState]
      by_cases htype : s₁.task.type = .commit
      · rw [if_pos htype]
        exact kndConfirmCommit_live hjournaled hwrite hbuild hlive
      · rw [if_neg htype]
        exact .of_constructing hjournaled hbuild hlive

end Task

end Knowdy
