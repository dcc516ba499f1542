import Knowdy.RestoreOrder
import Knowdy.Lib.Linked

/-! # What a restore writes

A restore replays the records through the parser of live requests, and a class import turns the task into a
commit: in an ARBITER the replay then confirms the commit it restores.

* `Quiet c` — what a replay without a confirmation in an ARBITER leaves alone.
* `forM_kndApplyCommit_quiet` — such replays write nothing and link each commit once.
* `Looped` — a list of commits that never ends; `kndApplyCommit_loops`: a confirmation during a replay makes
  one, and no later replay repairs it.
* `kndRepoRestore_once_iff` — **a restore is read-only and links each commit once exactly when no ARBITER
  replays the creation of a class.** -/

namespace Knowdy

variable {τ : Type}

/-! ## (1) Records that create classes -/

/-- Does the clause create a class? -/
def TaskItem.createsClass : TaskItem → Bool
  | .importClass _ _ => true
  | .selectClass _ _ => false

/-- Does a body create a class? -/
def createsClass (body : List TaskItem) : Bool := body.any TaskItem.createsClass

/-! ## (2) Quiet replays -/

/-- **What no quiet step changes**: the files, the numbers of the commits, the path and the journal numbers
of the snapshot, that it is not a READER's, and who the task is. -/
structure Silent (s s' : Sys τ) : Prop where
  /-- The files. -/
  disk : s'.disk = s.disk
  /-- The numbers of the commits. -/
  numids : ∀ d, (s'.ledger.commits d).numid = (s.ledger.commits d).numid
  /-- The path of the snapshot. -/
  path : s'.snapshot.path = s.snapshot.path
  /-- The journal numbers. -/
  numJournals : s'.snapshot.numJournals = s.snapshot.numJournals
  /-- The role of the snapshot. -/
  reader : s.snapshot.role ≠ .reader → s'.snapshot.role ≠ .reader
  /-- The task. -/
  task : s'.task.id = s.task.id ∧ s'.task.role = s.task.role

instance : IsPreorder (Sys τ) Silent where
  refl _ := ⟨rfl, fun _ => rfl, rfl, rfl, id, ⟨rfl, rfl⟩⟩
  trans _ _ _ h h' := {
    disk := h'.disk.trans h.disk
    numids := fun d => (h'.numids d).trans (h.numids d)
    path := h'.path.trans h.path
    numJournals := h'.numJournals.trans h.numJournals
    reader := h'.reader ∘ h.reader
    task := ⟨h'.task.1.trans h.task.1, h'.task.2.trans h.task.2⟩ }

/-- A change of a commit that keeps its number keeps all numbers. -/
theorem Ledger.numid_setCommit (self : Ledger) {c : CommitAddr} {commit : Commit}
    (h : commit.numid = (self.commits c).numid) (d : CommitAddr) :
    ((self.setCommit c commit).commits d).numid = (self.commits d).numid := by
  show (Function.update self.commits c commit d).numid = _
  by_cases hd : d = c
  · rw [hd, Function.update_self, h]
  · rw [Function.update_of_ne hd]

/-- **What a quiet replay of the commit `c` leaves alone**: the files, the list of commits and the other
commits; with `keep` also that the task is a restore. -/
structure Quiet (c : CommitAddr) (keep : Prop) (s s' : Sys τ) : Prop where
  /-- The other commits. -/
  others : ∀ d, d ≠ c → s'.ledger.commits d = s.ledger.commits d
  /-- The head of the list. -/
  head : s'.snapshot.commits = s.snapshot.commits
  /-- The commit set. -/
  commitIdx : s'.snapshot.commitIdx = s.snapshot.commitIdx
  /-- The type of the task. -/
  type : keep → s.task.type = .restore → s'.task.type = .restore
  /-- The files, the numbers and the roles. -/
  silent : Silent s s'

instance (c : CommitAddr) (keep : Prop) : IsPreorder (Sys τ) (Quiet c keep) where
  refl s := ⟨fun _ _ => rfl, rfl, rfl, fun _ => id, refl_of Silent s⟩
  trans _ _ _ h h' := {
    others := fun d hd => (h'.others d hd).trans (h.others d hd)
    head := h'.head.trans h.head
    commitIdx := h'.commitIdx.trans h.commitIdx
    type := fun hk ht => h'.type hk (h.type hk ht)
    silent := trans_of Silent h.silent h'.silent }

theorem selectFrame_quiet (c : CommitAddr) (keep : Prop) : SelectFrame c (Quiet (τ := τ) c keep) where
  idx _ _ _ := ⟨fun _ _ => rfl, rfl, rfl, fun _ => id, ⟨rfl, fun _ => rfl, rfl, rfl, id, ⟨rfl, rfl⟩⟩⟩
  resolved _ _ := ⟨fun _ _ => rfl, rfl, rfl, fun _ => id, ⟨rfl, fun _ => rfl, rfl, rfl, id, ⟨rfl, rfl⟩⟩⟩
  task _ _ hid hrole _ htype _ := ⟨fun _ _ => rfl, rfl, rfl, fun _ => htype.1,
    ⟨rfl, fun _ => rfl, rfl, rfl, id, ⟨hid, hrole⟩⟩⟩
  commit s _ hf := ⟨fun _ hd => Function.update_of_ne hd _ _, rfl, rfl, fun _ => id,
    ⟨rfl, fun d => s.ledger.numid_setCommit (hf _) d, rfl, rfl, id, ⟨rfl, rfl⟩⟩⟩
  role _ := ⟨fun _ _ => rfl, rfl, rfl, fun _ => id,
    ⟨rfl, fun _ => rfl, rfl, rfl, (fun _ h => nomatch h), ⟨rfl, rfl⟩⟩⟩

theorem parseFrame_quiet (c : CommitAddr) : ParseFrame c (Quiet (τ := τ) c False) where
  toSelectFrame := selectFrame_quiet c False
  type _ := ⟨fun _ _ => rfl, rfl, rfl, fun h => h.elim, ⟨rfl, fun _ => rfl, rfl, rfl, id, ⟨rfl, rfl⟩⟩⟩

/-- Forget that the task stays a restore. -/
theorem Quiet.weaken {c : CommitAddr} {s s' : Sys τ} (h : Quiet c True s s') : Quiet c False s s' :=
  ⟨h.others, h.head, h.commitIdx, fun hf => hf.elim, h.silent⟩

/-- Selections alone keep the task a restore. -/
theorem moves_parseBody_of_select {c : CommitAddr} {body : List TaskItem}
    (h : createsClass body = false) :
    Moves (UnderCommit c (Quiet c True)) (body.forM (parseItem nestedRestore) : SysM τ Unit) := by
  refine .forM fun item hitem => ?_
  have hsel : item.createsClass = false := by
    simpa using List.any_eq_false.mp h item hitem
  cases item with
  | importClass name clauses => cases hsel
  | selectClass name texts =>
      exact .bind (moves_kndClassSelect (selectFrame_quiet c True) name texts) fun _ => .pure _

section Replay

variable [AttrVarOps τ]

/-- What the end of `knd_parse_task` does in a state. -/
def finishTask : SysM τ Unit := do
  let s ← get
  match s.task.type with
  | .commit => kndConfirmCommit
  | _ => pure ()

theorem kndParseTask_eq (restore : SysM τ Unit) (body : List TaskItem) :
    kndParseTask restore body = body.forM (parseItem restore) >>= fun _ => finishTask := rfl

theorem finishTask_run (s : Sys τ) : (finishTask : SysM τ Unit).run s = (match s.task.type with
    | .commit => kndConfirmCommit
    | _ => pure () : SysM τ Unit).run s := rfl

theorem run_finishTask (s : Sys τ) :
    finishTask.run s = (if s.task.type = .commit then kndConfirmCommit else pure () : SysM τ Unit).run s := by
  rw [finishTask_run]
  cases s.task.type <;> rfl

/-- **A replay is quiet** in every role but ARBITER, and when its record creates no class. -/
theorem kndParseTask_quiet {c : CommitAddr} {s : Sys τ} {body : List TaskItem}
    (hcommit : s.task.commit = some c)
    (h : s.task.role ≠ .arbiter ∨ s.task.type = .restore ∧ createsClass body = false) :
    Quiet c False s (finalState (kndParseTask nestedRestore body) s) ∧
      (finalState (kndParseTask nestedRestore body) s).task.commit = some c := by
  rw [kndParseTask_eq]
  rcases h with hrole | ⟨htype, hbody⟩
  · -- in other roles the confirmation only resolves and exports
    obtain ⟨hparse, hc⟩ := moves_parseBody (parseFrame_quiet c) body s hcommit
    cases hrun : (body.forM (parseItem nestedRestore) : SysM τ Unit).run s with
    | error e s₁ =>
        rw [finalState_of_error (run_bind_of_error hrun)]
        rw [finalState_of_error hrun] at hparse hc
        exact ⟨hparse, hc⟩
    | ok u s₁ =>
        rw [finalState_of_ok hrun] at hparse hc
        rw [finalState, run_bind_of_ok hrun, run_finishTask, ← finalState]
        by_cases htype : s₁.task.type = .commit
        · rw [if_pos htype]
          have hrole₁ : s₁.task.role ≠ .arbiter := hparse.silent.task.2 ▸ hrole
          obtain ⟨hconfirm, hc'⟩ :=
            moves_kndConfirmCommit_of_role (selectFrame_quiet c False) hrole₁ hc
          exact ⟨trans_of (Quiet c False) hparse hconfirm, hc'⟩
        · rw [if_neg htype]
          exact ⟨hparse, hc⟩
  · -- without a class import the task stays a restore
    obtain ⟨hparse, hc⟩ := moves_parseBody_of_select hbody s hcommit
    cases hrun : (body.forM (parseItem nestedRestore) : SysM τ Unit).run s with
    | error e s₁ =>
        rw [finalState_of_error (run_bind_of_error hrun)]
        rw [finalState_of_error hrun] at hparse hc
        exact ⟨hparse.weaken, hc⟩
    | ok u s₁ =>
        rw [finalState_of_ok hrun] at hparse hc
        have htype₁ : s₁.task.type ≠ .commit := by
          rw [hparse.type trivial htype]
          exact TaskType.noConfusion
        rw [finalState, run_bind_of_ok hrun, run_finishTask, ← finalState, if_neg htype₁]
        exact ⟨hparse.weaken, hc⟩

/-- The part of a replay before the commit is linked. -/
def replayUnlinked (c : CommitAddr) (body : List TaskItem) : SysM τ Unit := do
  kndParseTask nestedRestore body
  kndResolveCommit c
  updateCommitIndices c

theorem replay_eq (c : CommitAddr) (body : List TaskItem) :
    (replay c body : SysM τ Unit) = replayUnlinked c body >>= fun _ => applyPush c := by
  rw [replay, replayUnlinked]
  simp only [bind_assoc]

omit [AttrVarOps τ] in
/-- The state after `applyPush`. -/
theorem run_applyPush (c : CommitAddr) (s : Sys τ) :
    ∃ s', (applyPush c).run s = .ok () s' ∧ Silent s s' ∧ s'.task = s.task ∧
      s'.snapshot.commitIdx = s.snapshot.commitIdx ∧ s'.snapshot.commits = some c ∧
      s'.ledger.prev = Function.update s.ledger.prev c s.snapshot.commits ∧
      ∀ d, d ≠ c → s'.ledger.commits d = s.ledger.commits d := by
  have hsilent : Silent s (s.setLedger ((s.ledger.setCommit c
      { s.ledger.commits c with prev := s.snapshot.commits }).setSnapshot
        { s.ledger.snapshot with commits := some c })) :=
    ⟨rfl, fun d => @Ledger.numid_setCommit s.ledger c
      { s.ledger.commits c with prev := s.snapshot.commits } rfl d, rfl, rfl, id, ⟨rfl, rfl⟩⟩
  refine ⟨_, rfl, hsilent, rfl, rfl, rfl, ?_, fun d hd => Function.update_of_ne hd _ _⟩
  funext d
  by_cases hd : d = c
  · subst hd
    simp [Ledger.prev, Sys.setLedger, Ledger.setSnapshot, Ledger.setCommit]
  · simp [Ledger.prev, Sys.setLedger, Ledger.setSnapshot, Ledger.setCommit, Function.update_of_ne hd]

/-- A quiet replay up to the link. -/
theorem replayUnlinked_quiet {c : CommitAddr} {s : Sys τ} {body : List TaskItem}
    (hcommit : s.task.commit = some c)
    (h : s.task.role ≠ .arbiter ∨ s.task.type = .restore ∧ createsClass body = false) :
    Quiet c False s (finalState (replayUnlinked c body) s) := by
  obtain ⟨hparse, hc⟩ := kndParseTask_quiet hcommit h
  have hrest : Moves (UnderCommit c (Quiet c False))
      (kndResolveCommit c >>= fun _ => updateCommitIndices c : SysM τ Unit) :=
    .bind (moves_kndResolveCommit (selectFrame_quiet c False) c) fun _ =>
      moves_updateCommitIndices (selectFrame_quiet c False) c
  cases hrun : (kndParseTask nestedRestore body).run s with
  | error e s₁ =>
      rw [finalState_of_error hrun] at hparse
      rw [replayUnlinked, finalState_of_error (run_bind_of_error hrun)]
      exact hparse
  | ok u s₁ =>
      rw [finalState_of_ok hrun] at hparse hc
      rw [replayUnlinked, finalState, run_bind_of_ok hrun, ← finalState]
      exact trans_of (Quiet c False) hparse (hrest s₁ hc).1

/-- **A quiet call of `knd_apply_commit`**: nothing is written, and when it returns the commit is in front
of the list. -/
theorem kndApplyCommit_quiet {c : CommitAddr} {s : Sys τ}
    (h : s.task.role ≠ .arbiter ∨ createsClass (s.ledger.commits c).record = false) :
    Silent s (finalState (kndApplyCommit c) s) ∧
    ∀ s', (kndApplyCommit c).run s = .ok () s' → s'.snapshot.commits = some c ∧
      s'.ledger.prev c = s.snapshot.commits := by
  have hbegin : Silent s (startApply c s) := ⟨rfl, fun _ => rfl, rfl, rfl, id, ⟨rfl, rfl⟩⟩
  have hstart : (startApply c s).task.role ≠ .arbiter ∨ (startApply c s).task.type = .restore ∧
      createsClass (s.ledger.commits c).record = false := h.imp id fun hr => ⟨rfl, hr⟩
  have hquiet := replayUnlinked_quiet (rfl : (startApply c s).task.commit = some c) hstart
  rw [finalState, run_kndApplyCommit, replay_eq, ← finalState]
  cases hrun : (replayUnlinked c (s.ledger.commits c).record).run (startApply c s) with
  | error e s₁ =>
      rw [finalState_of_error hrun] at hquiet
      rw [finalState_of_error (run_bind_of_error hrun), run_bind_of_error hrun]
      exact ⟨trans_of Silent hbegin hquiet.silent, fun s' hok => by cases hok⟩
  | ok u s₁ =>
      rw [finalState_of_ok hrun] at hquiet
      obtain ⟨s₂, hpush, hsilent, -, -, hhead, hprev, -⟩ := run_applyPush c s₁
      rw [run_bind_of_ok hrun, finalState_of_ok ((run_bind_of_ok hrun).trans hpush), hpush]
      refine ⟨trans_of Silent hbegin (trans_of Silent hquiet.silent hsilent), fun s' hok => ?_⟩
      cases hok
      refine ⟨hhead, ?_⟩
      rw [hprev, Function.update_self, hquiet.head]
      rfl

/-- **Quiet replays** of the commits `cs` write nothing, and link each of them once in front of the list
that was there. -/
theorem forM_kndApplyCommit_quiet {cs l : List CommitAddr} {s : Sys τ} (hcs : cs.Nodup)
    (hl : Linked s.ledger.prev s.snapshot.commits l) (hnew : ∀ c ∈ cs, c ∉ l)
    (h : s.task.role ≠ .arbiter ∨ ∀ c ∈ cs, createsClass (s.ledger.commits c).record = false) :
    Silent s (finalState (cs.forM kndApplyCommit) s) ∧
    ∀ s', (cs.forM kndApplyCommit).run s = .ok () s' →
      Linked s'.ledger.prev s'.snapshot.commits (cs.reverse ++ l) := by
  induction cs generalizing s l with
  | nil =>
      refine ⟨refl_of Silent s, fun s' hok => ?_⟩
      cases hok
      exact hl
  | cons c cs ih =>
      obtain ⟨hnotin, hcs'⟩ := List.nodup_cons.mp hcs
      obtain ⟨hothers, -, -⟩ := kndApplyCommit_frame c s
      obtain ⟨hsilent, hhead⟩ := kndApplyCommit_quiet (c := c) (s := s)
        (h.imp id fun hall => hall c (List.mem_cons_self ..))
      cases hrun : (kndApplyCommit c).run s with
      | error e s₁ =>
          rw [finalState_of_error hrun] at hsilent
          have hstop : ((c :: cs).forM kndApplyCommit).run s = .error e s₁ := run_bind_of_error hrun
          rw [finalState_of_error hstop, hstop]
          exact ⟨hsilent, fun s' hok => by cases hok⟩
      | ok u s₁ =>
          rw [finalState_of_ok hrun] at hothers hsilent
          obtain ⟨hfront, hnext⟩ := hhead s₁ hrun
          have hc : c ∉ l := hnew c (List.mem_cons_self ..)
          -- the old list goes on behind the new commit
          have hl₁ : Linked s₁.ledger.prev s₁.snapshot.commits (c :: l) := by
            rw [hfront]
            refine .cons (hnext ▸ hl.congr fun d hd => ?_)
            have hne : d ≠ c := fun heq => hc (heq ▸ hd)
            rw [Ledger.prev, hothers d hne, Ledger.prev]
          have hnew₁ : ∀ d ∈ cs, d ∉ c :: l := by
            intro d hd hmem
            rcases List.mem_cons.mp hmem with rfl | hmem
            · exact hnotin hd
            · exact hnew d (List.mem_cons_of_mem c hd) hmem
          have h₁ : s₁.task.role ≠ .arbiter ∨
              ∀ d ∈ cs, createsClass (s₁.ledger.commits d).record = false := by
            refine h.imp (fun hr => hsilent.task.2 ▸ hr) fun hall d hd => ?_
            have hne : d ≠ c := fun heq => hnotin (heq ▸ hd)
            rw [hothers d hne]
            exact hall d (List.mem_cons_of_mem c hd)
          obtain ⟨hsilent₁, hlinked⟩ := ih hcs' hl₁ hnew₁ h₁
          have hgo : ((c :: cs).forM kndApplyCommit).run s = (cs.forM kndApplyCommit).run s₁ :=
            run_bind_of_ok hrun
          refine ⟨?_, fun s' hok => ?_⟩
          · rw [finalState, hgo, ← finalState]
            exact trans_of Silent hsilent hsilent₁
          · rw [hgo] at hok
            have hdone := hlinked s' hok
            rwa [List.reverse_cons, List.append_assoc]

/-! ## (3) A confirmation during a replay -/

/-- The task stays a commit. -/
abbrev StaysCommit : Sys τ → Sys τ → Prop := Stable fun s => s.task.type = .commit

omit [AttrVarOps τ] in
theorem parseFrame_staysCommit (c : CommitAddr) : ParseFrame c (StaysCommit (τ := τ)) where
  idx _ _ _ := id
  resolved _ _ := id
  task _ _ _ _ _ htype _ := htype.2
  commit _ _ _ := id
  role _ := id
  type _ _ := rfl

omit [AttrVarOps τ] in
/-- **A class import** has turned the task into a commit. -/
theorem parseBody_type {c : CommitAddr} {body : List TaskItem} {s s' : Sys τ}
    (hcommit : s.task.commit = some c) (h : createsClass body = true)
    (hrun : (body.forM (parseItem nestedRestore)).run s = .ok () s') : s'.task.type = .commit := by
  obtain ⟨item, hmem, hcreates⟩ := List.any_eq_true.mp h
  obtain ⟨pre, post, rfl⟩ := List.append_of_mem hmem
  rw [forM_append] at hrun
  obtain ⟨u, s₁, hpre, hrest⟩ := run_bind_eq_ok.mp hrun
  obtain ⟨u₂, s₂, hitem, hpost⟩ := run_bind_eq_ok.mp hrest
  have hframe := parseFrame_staysCommit (τ := τ) c
  have hc₁ : s₁.task.commit = some c := ((moves_parseBody hframe pre).of_ok hpre hcommit).2
  cases item with
  | selectClass name texts => cases hcreates
  | importClass name clauses =>
      obtain ⟨u₃, s₃, htype, himport⟩ := run_bind_eq_ok.mp hitem
      cases htype
      obtain ⟨htype₂, hc₂⟩ :=
        (moves_importIntoCommit hframe.toSelectFrame name clauses).of_ok himport hc₁
      exact ((moves_parseBody hframe post).of_ok hpost hc₂).1 (htype₂ rfl)

/-- **A confirmation in an ARBITER** puts the commit in front of the list. -/
theorem kndConfirmCommit_front {c : CommitAddr} {s s' : Sys τ} (hcommit : s.task.commit = some c)
    (hrole : s.task.role = .arbiter) (hrun : kndConfirmCommit.run s = .ok () s') :
    s'.snapshot.commits = some c := by
  rw [run_kndConfirmCommit hcommit, hrole] at hrun
  have hframe := confirmFrame_heads (τ := τ) c
  obtain ⟨u₁, s₁, hresolve, hconfirm⟩ := run_bind_eq_ok.mp hrun
  obtain ⟨u₂, s₂, hupdate, hrest⟩ := run_bind_eq_ok.mp hconfirm
  obtain ⟨u₃, s₃, hcheck, hwal⟩ := run_bind_eq_ok.mp hrest
  have hc₁ := ((moves_kndResolveCommit hframe.toSelectFrame c).of_ok hresolve hcommit).2
  have hc₂ := ((moves_updateCommitIndices hframe.toSelectFrame c).of_ok hupdate hc₁).2
  have hc₃ := ((moves_checkCommitConflicts hframe.toWalFrame).of_ok hcheck hc₂).2
  exact ((moves_buildCommitWAL hframe.toWalFrame).of_ok hwal hc₃).1.front (checkCommitConflicts_front hcheck)

/-- The list of commits has no end. -/
def Looped (s : Sys τ) : Prop := ∀ l, ¬Linked s.ledger.prev s.snapshot.commits l

/-- What a returning call of `knd_apply_commit` does to the list, in every role: the commit is in front,
and behind it is what was in front before or the commit itself. -/
theorem kndApplyCommit_front {c : CommitAddr} {s s' : Sys τ}
    (hrun : (kndApplyCommit c).run s = .ok () s') : s'.snapshot.commits = some c ∧
      (s'.ledger.prev c = s.snapshot.commits ∨ s'.ledger.prev c = some c) := by
  have hframe := confirmFrame_heads (τ := τ) c
  have hmoves : Moves (UnderCommit c (Heads c))
      (replayUnlinked c (s.ledger.commits c).record : SysM τ Unit) :=
    .bind (moves_kndParseTask hframe _) fun _ =>
      .bind (moves_kndResolveCommit hframe.toSelectFrame c) fun _ =>
        moves_updateCommitIndices hframe.toSelectFrame c
  rw [run_kndApplyCommit, replay_eq] at hrun
  obtain ⟨u, s₁, hreplay, hpush⟩ := run_bind_eq_ok.mp hrun
  obtain ⟨s₂, hpush₂, -, -, -, hhead, hprev, -⟩ := run_applyPush c s₁
  obtain rfl : s₂ = s' := by
    rw [hpush₂] at hpush
    cases hpush
    rfl
  rw [hprev, Function.update_self]
  exact ⟨hhead, (hmoves.of_ok hreplay rfl).1⟩

/-- **An ARBITER that replays the creation of a class** links the commit to itself. -/
theorem kndApplyCommit_loops {c : CommitAddr} {s s' : Sys τ} (hrole : s.task.role = .arbiter)
    (hcreates : createsClass (s.ledger.commits c).record = true)
    (hrun : (kndApplyCommit c).run s = .ok () s') : Looped s' := by
  have hframe := confirmFrame_heads (τ := τ) c
  rw [run_kndApplyCommit, replay_eq] at hrun
  obtain ⟨u, s₁, hreplay, hpush⟩ := run_bind_eq_ok.mp hrun
  obtain ⟨s₂, hpush₂, -, -, -, hhead, hprev, -⟩ := run_applyPush c s₁
  obtain rfl : s₂ = s' := by
    rw [hpush₂] at hpush
    cases hpush
    rfl
  -- the confirmation at the end of the parser has put `c` in front already
  have hfront : s₁.snapshot.commits = some c := by
    obtain ⟨u₁, t₁, hparse, hrest⟩ := run_bind_eq_ok.mp hreplay
    rw [kndParseTask_eq] at hparse
    obtain ⟨u₂, t₂, hbody, hfinish⟩ := run_bind_eq_ok.mp hparse
    obtain ⟨u₃, t₃, hresolve, hupdate⟩ := run_bind_eq_ok.mp hrest
    have hmoved := (moves_parseBody (confirmFrame_replaying c).toParseFrame _).of_ok hbody rfl
    have htype := parseBody_type (rfl : (startApply c s).task.commit = some c) hcreates hbody
    rw [run_finishTask, if_pos htype] at hfinish
    have hconfirmed := kndConfirmCommit_front hmoved.2 (hmoved.1.task.2.trans hrole) hfinish
    have hc₁ := ((moves_kndConfirmCommit hframe).of_ok hfinish hmoved.2).2
    obtain ⟨hheads, hc₃⟩ := (moves_kndResolveCommit hframe.toSelectFrame c).of_ok hresolve hc₁
    exact ((moves_updateCommitIndices hframe.toSelectFrame c).of_ok hupdate hc₃).1.front
      (hheads.front hconfirmed)
  intro l
  rw [hhead]
  exact not_linked_of_loop (by rw [hprev, Function.update_self, hfront]) l

/-- **No later replay repairs it**: a list that went on behind the new commit would have been a list
before. -/
theorem Looped.kndApplyCommit {c : CommitAddr} {s s' : Sys τ} (h : Looped s)
    (hrun : (kndApplyCommit c).run s = .ok () s') : Looped s' := by
  obtain ⟨hothers, -, -⟩ := kndApplyCommit_frame c s
  rw [finalState_of_ok hrun] at hothers
  obtain ⟨hhead, hnext⟩ := kndApplyCommit_front hrun
  intro l hl
  rw [hhead] at hl
  rcases hnext with hnext | hnext
  · cases hl with
    | @cons _ l hrest =>
        have hnotin : c ∉ l := (List.nodup_cons.mp (Linked.cons hrest).nodup).1
        rw [hnext] at hrest
        refine h l (hrest.congr fun d hd => ?_)
        have hne : d ≠ c := fun heq => hnotin (heq ▸ hd)
        rw [Ledger.prev, Ledger.prev, hothers d hne]
  · exact not_linked_of_loop hnext l hl

/-- **An ARBITER that replays all commits** ends with a loop when one of them creates a class. -/
theorem forM_kndApplyCommit_loops {cs : List CommitAddr} {s s' : Sys τ}
    (hrole : s.task.role = .arbiter)
    (hcreates : ∃ c ∈ cs, createsClass (s.ledger.commits c).record = true)
    (hrun : (cs.forM Knowdy.kndApplyCommit).run s = .ok () s') : Looped s' := by
  obtain ⟨c, hc, hcreates⟩ := hcreates
  -- `c` is applied with its record; before it the other commits were
  refine (forM_ok_induction (fun pre s₁ => s₁.task.role = .arbiter ∧
      (∀ d, d ∉ pre → s₁.ledger.commits d = s.ledger.commits d) ∧ (c ∈ pre → Looped s₁)) hrun
    ⟨hrole, fun _ _ => rfl, fun h => nomatch h⟩ ?_).2.2 hc
  rintro pre d s₁ s₂ hd ⟨hrole₁, hkeep, hloop⟩ happly
  have hrole₂ := kndApplyCommit_role d s₁
  obtain ⟨hothers, -, -⟩ := kndApplyCommit_frame d s₁
  rw [finalState_of_ok happly] at hrole₂ hothers
  refine ⟨hrole₂.trans hrole₁, fun e he => ?_, fun hmem => ?_⟩
  · rw [List.mem_append, List.mem_singleton, not_or] at he
    rw [hothers e he.2, hkeep e he.1]
  · by_cases hpre : c ∈ pre
    · exact (hloop hpre).kndApplyCommit happly
    · rcases List.mem_append.mp hmem with hmem | hmem
      · exact absurd hmem hpre
      · rw [List.mem_singleton] at hmem
        subst hmem
        exact kndApplyCommit_loops hrole₁ (by rw [hkeep c hpre]; exact hcreates) happly

/-! ## (4) The restore -/

/-- **A restore is read-only and registers each commit once**: no journal changes, and when it returns the
list of commits ends and has each restored commit once. -/
structure RestoresOnce (s : Sys τ) : Prop where
  /-- The journals. -/
  journals : (finalState kndRepoRestore s).disk.journals = s.disk.journals
  /-- The list of commits. -/
  once : ∀ s', kndRepoRestore.run s = .ok () s' →
    s'.snapshot.commitIdx.elems.length = (journalRecords s).length ∧
    ∃ l, Linked s'.ledger.prev s'.snapshot.commits l ∧
      ∀ c ∈ s'.snapshot.commitIdx.elems, l.count c = 1

/-- **No confirmation during the restore**: the task is not one of an ARBITER, or no record that is
restored creates a class. -/
def ConfirmsNothing (s : Sys τ) : Prop :=
  s.task.role ≠ .arbiter ∨ ∀ r ∈ journalRecords s, createsClass r.body = false

omit [AttrVarOps τ] in
/-- The records that are restored are those of the collected commits. -/
theorem Collected.record_iff {L : Ledger} {cs : List CommitAddr} {rs : List WalRecord}
    (h : Collected L cs rs) (p : List TaskItem → Prop) :
    (∀ c ∈ L.snapshot.commitIdx.elems, p (L.commits c).record) ↔ ∀ r ∈ rs, p r.body := by
  have hbodies := congrArg (List.map Commit.record) h.commits
  rw [List.map_map, List.map_map] at hbodies
  have hlists : cs.map (fun c => (L.commits c).record) = rs.map WalRecord.body := hbodies
  have hleft : (∀ c ∈ cs, p (L.commits c).record) ↔
      ∀ b ∈ cs.map (fun c => (L.commits c).record), p b := by
    rw [List.forall_mem_map]
  have hright : (∀ r ∈ rs, p r.body) ↔ ∀ b ∈ rs.map WalRecord.body, p b := by
    rw [List.forall_mem_map]
  rw [hright, ← hlists, ← hleft]
  simp only [h.perm.mem_iff]

/-- The second part of a restore, without a confirmation. -/
theorem applyCommits_quiet {s : Sys τ} {cs l : List CommitAddr} {rs : List WalRecord}
    (h : Collected s.ledger cs rs) (hl : Linked s.ledger.prev s.snapshot.commits l)
    (hnew : ∀ c ∈ cs, c ∉ l)
    (hquiet : s.task.role ≠ .arbiter ∨ ∀ r ∈ rs, createsClass r.body = false) :
    Silent s (finalState applyCommits s) ∧
    ∀ s', applyCommits.run s = .ok () s' →
      Linked s'.ledger.prev s'.snapshot.commits (s.snapshot.commitIdx.elems.reverse ++ l) := by
  have hnodup : s.snapshot.commitIdx.elems.Nodup := h.perm.nodup_iff.mpr h.nodup
  have hnew' : ∀ c ∈ s.snapshot.commitIdx.elems, c ∉ l := fun c hc => hnew c (h.perm.mem_iff.mp hc)
  obtain ⟨hsilent, hlinked⟩ := forM_kndApplyCommit_quiet hnodup hl hnew'
    (hquiet.imp id (h.record_iff fun body => createsClass body = false).mpr)
  rw [finalState, run_applyCommits]
  by_cases hzero : s.snapshot.commitIdx.numElems = 0
  · -- nothing was collected
    have hcs : cs = [] := List.length_eq_zero_iff.mp (h.count ▸ hzero)
    have hnil : s.snapshot.commitIdx.elems = [] := List.perm_nil.mp (hcs ▸ h.perm)
    rw [if_pos hzero, hnil]
    refine ⟨refl_of Silent s, fun s' hok => ?_⟩
    cases hok
    exact hl
  · rw [if_neg hzero, ← finalState]
    cases hloop : (s.snapshot.commitIdx.elems.forM kndApplyCommit).run s with
    | error e s₁ =>
        rw [finalState_of_error hloop] at hsilent
        rw [finalState_of_error (run_bind_of_error hloop), run_bind_of_error hloop]
        exact ⟨hsilent, fun s' hok => by cases hok⟩
    | ok u s₁ =>
        rw [finalState_of_ok hloop] at hsilent
        rw [finalState, run_bind_of_ok hloop]
        have hcount : Silent s₁ (finalState (modifySnapshot fun snapshot =>
            { snapshot with numCommits := snapshot.commitIdx.numElems }) s₁) :=
          ⟨rfl, fun _ => rfl, rfl, rfl, id, ⟨rfl, rfl⟩⟩
        refine ⟨trans_of Silent hsilent hcount, fun s' hok => ?_⟩
        cases hok
        exact hlinked s₁ hloop

/-- The second part of a restore keeps the commit set. -/
theorem applyCommits_commitIdx {s s' : Sys τ} (hrun : applyCommits.run s = .ok () s') :
    s'.snapshot.commitIdx = s.snapshot.commitIdx := by
  have hmoves : Moves (Kept fun s => s.snapshot.commitIdx)
      (s.snapshot.commitIdx.elems.forM kndApplyCommit : SysM τ Unit) :=
    .forM fun c _ s => (kndApplyCommit_frame c s).2.1
  rw [run_applyCommits] at hrun
  by_cases hzero : s.snapshot.commitIdx.numElems = 0
  · rw [if_pos hzero] at hrun
    cases hrun
    rfl
  · rw [if_neg hzero] at hrun
    obtain ⟨u, s₁, hloop, hcount⟩ := run_bind_eq_ok.mp hrun
    have hkeep : s₁.snapshot.commitIdx = s.snapshot.commitIdx := hmoves.of_ok hloop
    cases hcount
    exact hkeep

/-- The second part of a restore in an ARBITER, when a record creates a class. -/
theorem applyCommits_loops {s s' : Sys τ} {cs : List CommitAddr} {rs : List WalRecord}
    (h : Collected s.ledger cs rs) (hrole : s.task.role = .arbiter)
    (hcreates : ¬∀ r ∈ rs, createsClass r.body = false) (hrun : applyCommits.run s = .ok () s') :
    Looped s' := by
  have hsome : ∃ c ∈ s.snapshot.commitIdx.elems, createsClass (s.ledger.commits c).record = true := by
    rw [← h.record_iff fun body => createsClass body = false] at hcreates
    push Not at hcreates
    obtain ⟨c, hc, hne⟩ := hcreates
    exact ⟨c, hc, by simpa using hne⟩
  rw [run_applyCommits] at hrun
  by_cases hzero : s.snapshot.commitIdx.numElems = 0
  · obtain ⟨c, hc, -⟩ := hsome
    have hcs : cs = [] := List.length_eq_zero_iff.mp (h.count ▸ hzero)
    have hmem := h.perm.mem_iff.mp hc
    rw [hcs] at hmem
    cases hmem
  · rw [if_neg hzero] at hrun
    obtain ⟨u, s₁, hloop, hcount⟩ := run_bind_eq_ok.mp hrun
    have hlooped := forM_kndApplyCommit_loops hrole hsome hloop
    cases hcount
    exact hlooped

/-- **A restore is read-only and registers each commit once** when the task is not one of an ARBITER or no
record creates a class; a restore that returns does so in no other case. The commits linked before it are
a list that ends, as in a snapshot that is being opened. -/
theorem kndRepoRestore_once_iff (s : Sys τ) (hidx : s.snapshot.commitIdx = {})
    (hlist : ∃ l, Linked s.ledger.prev s.snapshot.commits l ∧ ∀ c ∈ l, c < s.ledger.nextCommit) :
    (ConfirmsNothing s → RestoresOnce s) ∧
    (returns kndRepoRestore s → RestoresOnce s → ConfirmsNothing s) := by
  obtain ⟨l, hl, hbound⟩ := hlist
  cases hcollect : (restoreAgents (List.range maxTasks)).run s with
  | error e s₁ =>
      -- the journals are refused: nothing is applied
      have hmoves := (collecting_restoreAgents (List.range maxTasks)).of_error hcollect
      have hstop : kndRepoRestore.run s = .error e s₁ := run_bind_of_error hcollect
      refine ⟨fun _ => ⟨?_, fun s' hok => ?_⟩, fun hret => ?_⟩
      · rw [finalState_of_error hstop, hmoves.disk]
      · rw [hstop] at hok
        cases hok
      · rw [returns, hstop] at hret
        cases hret
  | ok u s₁ =>
      obtain ⟨hmoves, cs, hcollected, hnew⟩ := restoreAgents_ok hidx hcollect
      have hrun : kndRepoRestore.run s = applyCommits.run s₁ := run_bind_of_ok hcollect
      have hrole : s₁.task.role = s.task.role := hmoves.task.2
      constructor
      · intro hcond
        have hl₁ : Linked s₁.ledger.prev s₁.snapshot.commits l := by
          rw [hmoves.snapshot.2.2.2.1]
          refine hl.congr fun c hc => ?_
          rw [Ledger.prev, Ledger.prev, hmoves.commits c (hbound c hc)]
        have hfresh : ∀ c ∈ cs, c ∉ l := fun c hc hmem =>
          Nat.lt_irrefl _ (lt_of_lt_of_le (hbound c hmem) (hnew c hc))
        have hcond₁ : s₁.task.role ≠ .arbiter ∨ ∀ r ∈ journalRecords s, createsClass r.body = false :=
          hrole ▸ hcond
        obtain ⟨hsilent, hlinked⟩ := applyCommits_quiet hcollected hl₁ hfresh hcond₁
        refine ⟨?_, fun s' hok => ?_⟩
        · rw [finalState, hrun, ← finalState, hsilent.disk, hmoves.disk]
        · have hok₁ : applyCommits.run s₁ = .ok () s' := hrun ▸ hok
          have hset := applyCommits_commitIdx hok₁
          have hperm : s'.snapshot.commitIdx.elems.Perm cs := hset ▸ hcollected.perm
          refine ⟨?_, _, hlinked s' hok₁, fun c hc => ?_⟩
          · have hlen := congrArg List.length hcollected.commits
            rw [List.length_map, List.length_map] at hlen
            rw [hperm.length_eq, hlen]
          · refine List.count_eq_one_of_mem (hlinked s' hok₁).nodup (List.mem_append_left l ?_)
            rwa [List.mem_reverse, ← hset]
      · intro hret hrestores
        by_contra hcond
        rw [ConfirmsNothing, not_or, not_not] at hcond
        obtain ⟨a, hok⟩ := returns_iff.mp hret
        obtain ⟨-, l', hl', -⟩ := hrestores.once _ hok
        exact applyCommits_loops hcollected (hrole.trans hcond.1) hcond.2 (hrun ▸ hok) l' hl'

/-- A WRITER restores the creation of a class without writing, and links the commit once. -/
theorem kndRepoRestore_once_writer :
    let s := Sys.small .writer [.ofClass 1 [97]]
    (ConfirmsNothing s → RestoresOnce s) ∧
      (returns kndRepoRestore s → RestoresOnce s → ConfirmsNothing s) :=
  kndRepoRestore_once_iff (.small .writer [.ofClass 1 [97]]) rfl ⟨[], .nil, by simp⟩

/-- **An ARBITER that restores the creation of a class** appends the record to the journal again, and the
commit is its own predecessor. -/
theorem kndRepoRestore_arbiter :
    let s := Sys.small .arbiter [.ofClass 1 [97]]
    let s' := finalState kndRepoRestore s
    returns kndRepoRestore s ∧
      (s.disk.journals (.numbered 0) 0 0).map (·.records.length) = some 1 ∧
      (s'.disk.journals (.numbered 0) 0 0).map (·.records.length) = some 2 ∧
      s'.snapshot.commits = some 0 ∧ s'.ledger.prev 0 = some 0 ∧ ¬RestoresOnce s := by
  intro s s'
  have hret : returns kndRepoRestore s := by decide +kernel
  have hhead : s'.snapshot.commits = some 0 := by decide +kernel
  have hprev : s'.ledger.prev 0 = some 0 := by decide +kernel
  refine ⟨hret, by decide +kernel, by decide +kernel, hhead, hprev, fun h => ?_⟩
  obtain ⟨a, hok⟩ := returns_iff.mp hret
  obtain ⟨-, l, hl, -⟩ := h.once s' hok
  rw [hhead] at hl
  exact not_linked_of_loop hprev l hl

end Replay

end Knowdy
