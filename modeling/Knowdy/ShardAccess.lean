import Knowdy.Lib.Runs
import Knowdy.Shard

/-! # Writing without permission

Of all the handlers only the `!class` and the `!proc` of a user selection read `allow_write`. A task whose
other clauses import and remove nothing leaves every repository as it is.

* `TaskClause.Asks` — no import and no removal but those that ask for permission.
* `Shard.ReadOnly`, `Shard.Unwritten` — nobody may write; nothing was written.
* `Shard.Silent` — the relation along which the handlers of such tasks move the shard.
* `unwritten_of_reaches` — a run of such tasks writes nothing. -/

namespace Knowdy

/-! ## (1) Tasks that ask for permission -/

/-- A clause of a repository selection that imports nothing. -/
def RepoClause.Asks : RepoClause → Prop
  | .importClass _ => False
  | .selectClass _ clauses => ∀ clause ∈ clauses, clause.isImport = false
  | .snapshot => True

/-- A clause of a user selection: its own imports ask for permission, those inside it do not. -/
def UserClause.Asks : UserClause → Prop
  | .repo _ clauses => ∀ clause ∈ clauses, clause.Asks
  | .importClass _ | .importProc _ | .snapshot => True
  | .selectClass _ clauses => ∀ clause ∈ clauses, clause.isImport = false
  | .selectProc _ clauses => clauses = []

/-- **Every import of the clause asks for permission**, and it removes nothing from the index of procs. -/
def TaskClause.Asks : TaskClause → Prop
  | .createUser _ | .importClass _ | .importProc _ => False
  | .user _ clauses | .update _ clauses => ∀ clause ∈ clauses, clause.Asks
  | .selectClass _ clauses => ∀ clause ∈ clauses, clause.isImport = false
  | .selectProc _ clauses => clauses = []
  | .repo _ clauses => ∀ clause ∈ clauses, clause.Asks
  | .snapshot => True

namespace Shard

/-! ## (2) What such a task keeps -/

/-- No user context may write. -/
structure ReadOnly (s : Shard) : Prop where
  /-- The default acl. -/
  default_acl : s.allowWrite = false
  /-- The contexts. -/
  acls : ∀ a ctx, s.ctxs a = some ctx → ctx.acls ≠ some true

/-- **Nothing was written**: the names of the classes and the procs, the commits and the journals of every
repository and the instances are the same, and no commit with a change reached `knd_confirm_commit`. -/
structure Unwritten (s s' : Shard) : Prop where
  repos_eq : s'.repos = s.repos
  insts_eq : s'.insts = s.insts
  confirms_eq : s'.confirms = s.confirms

theorem readOnly_small : (small false).ReadOnly := by
  refine ⟨rfl, fun a ctx h => ?_⟩
  change (if a = .default then some _ else none) = some ctx at h
  split_ifs at h
  cases h
  exact fun hacl => nomatch hacl

theorem Unwritten.refl (s : Shard) : s.Unwritten s := ⟨rfl, rfl, rfl⟩

theorem Unwritten.trans {s s₁ s₂ : Shard} (h : s.Unwritten s₁) (h' : s₁.Unwritten s₂) : s.Unwritten s₂ :=
  ⟨h'.repos_eq.trans h.repos_eq, h'.insts_eq.trans h.insts_eq, h'.confirms_eq.trans h.confirms_eq⟩

/-- A task that has no commit and may not write. -/
structure Idle (s : Shard) : Prop extends s.ReadOnly where
  commit : s.task.commit = none

/-- From a task that has no commit and may not write to another one, with nothing written. -/
def Silent (s s' : Shard) : Prop := s.Idle → s'.Idle ∧ s.Unwritten s'

instance : IsPreorder Shard Silent where
  refl s h := ⟨h, .refl s⟩
  trans _ _ _ h h' hs := ⟨(h' (h hs).1).1, (h hs).2.trans (h' (h hs).1).2⟩

variable {α : Type}

/-- A change of the task that leaves the commit alone. -/
theorem silent_modifyTask {f : ShardTask → ShardTask} (h : ∀ t, t.commit = none → (f t).commit = none) :
    Moves Silent (modifyTask f) := by
  intro s hs
  exact ⟨⟨⟨hs.default_acl, hs.acls⟩, h s.task hs.commit⟩, ⟨rfl, rfl, rfl⟩⟩

theorem silent_setType (type : SpecType) : Moves Silent (setType type) :=
  silent_modifyTask fun _ h => h

theorem silent_kndTaskReset : Moves Silent kndTaskReset := silent_modifyTask fun _ _ => rfl

/-- A new or changed user context that may not write. -/
theorem silent_setCtx {s : Shard} {a : CtxAddr} {ctx : UserContext} (h : s.Idle → ctx.acls ≠ some true) :
    Silent s (s.setCtx a ctx) := by
  intro hs
  refine ⟨⟨⟨hs.default_acl, ?_⟩, hs.commit⟩, ⟨rfl, rfl, rfl⟩⟩
  intro b ctx' hb
  rw [ctxs_setCtx] at hb
  split_ifs at hb with hab
  · cases hb
    exact h hs
  · exact hs.acls b ctx' hb

theorem silent_getUserContext : Moves Silent getUserContext := by
  intro s
  rw [finalState, run_getUserContext]
  cases s.userContext <;> exact refl_of Silent s

theorem silent_assignUserRepo : Moves Silent assignUserRepo := by
  intro s
  rw [finalState, run_assignUserRepo]
  cases s.task.userCtx with
  | none => exact refl_of Silent s
  | some a =>
      dsimp only
      cases hctx : s.ctxs a with
      | none => exact refl_of Silent s
      | some ctx => exact silent_setCtx fun hs => hs.acls a ctx hctx

/-! ## (3) Selections -/

/-- Without a commit there is nothing to change. -/
theorem silent_modifyCommit (f : TaskCommit → TaskCommit) : Moves Silent (modifyCommit f) := by
  intro s hs
  have hrun : (modifyCommit f).run s = .error .abort s := by rw [run_modifyCommit, hs.commit]
  rw [finalState_of_error hrun]
  exact ⟨hs, .refl s⟩

theorem silent_kndClassCommitState (entry : RepoEntry) (phase : EntryPhase) :
    Moves Silent (kndClassCommitState entry phase) :=
  Moves.get_bind fun s => silent_modifyCommit _ s

theorem silent_kndProcCommitState (entry : RepoEntry) (phase : EntryPhase) :
    Moves Silent (kndProcCommitState entry phase) := silent_modifyCommit _

theorem silent_parseSelectClassInst (entry : RepoEntry) (name : Name) :
    Moves Silent (ClassArea.parseSelectClassInst entry name) :=
  Moves.bind (silent_setType _) fun _ => Moves.get_bind fun s =>
    Moves.ite (fun _ => silent_setType _) (fun _ => Moves.throw _) s

/-- The clauses of a class selection that imports nothing. -/
theorem silent_parseClauses (env : ShardEnv) (r : RepoAddr) (entry : RepoEntry)
    {clauses : List ClassClause} (h : ∀ clause ∈ clauses, clause.isImport = false) :
    Moves Silent (ClassArea.parseClauses env r entry clauses) := by
  induction clauses generalizing entry with
  | nil => exact Moves.pure entry
  | cons clause clauses ih =>
      refine Moves.bind ?_ fun entry => ih entry fun c hc => h c (List.mem_cons_of_mem clause hc)
      cases clause with
      | importInst inst => exact nomatch h _ (List.mem_cons_self ..)
      | selectInst name =>
          exact Moves.bind (silent_parseSelectClassInst entry name) fun _ => Moves.pure entry
      | removeInst name =>
          exact Moves.bind (silent_parseSelectClassInst entry name) fun _ =>
            Moves.bind (silent_setType _) fun _ => Moves.pure entry
      | setAttrVar => exact Moves.bind (silent_setType _) fun _ => Moves.pure entry

theorem silent_runGetClass (r : RepoAddr) (name : Name) : Moves Silent (runGetClass r name) := by
  refine Moves.get_bind fun s => Moves.ite (fun _ => Moves.throw _) (fun _ => Moves.ite
    (fun _ => Moves.pure _) fun _ => ?_) s
  cases s.kndGetClassEntry r name with
  | none => exact Moves.throw _
  | some entry => exact Moves.pure entry

theorem silent_commitSelection (entry : RepoEntry) : Moves Silent (commitSelection entry) := by
  refine Moves.get_bind fun s => ?_
  cases s.task.type with
  | restore | commit => exact silent_kndClassCommitState entry .selected s
  | get | select | liquid | snapshot => exact Moves.pure () s

/-- **A class selection** that imports nothing writes nothing. -/
theorem silent_kndClassSelect (env : ShardEnv) (r : RepoAddr) (name : Name) {clauses : List ClassClause}
    (h : ∀ clause ∈ clauses, clause.isImport = false) :
    Moves Silent (kndClassSelect env r name clauses) :=
  Moves.bind (silent_runGetClass r name) fun entry =>
    Moves.bind (silent_parseClauses env r entry h) fun entry => silent_commitSelection entry

theorem silent_runGetProc (r : RepoAddr) (name : Name) : Moves Silent (runGetProc r name) := by
  refine Moves.get_bind fun s => Moves.ite (fun _ => Moves.throw _) (fun _ => Moves.ite
    (fun _ => Moves.throw _) fun _ => ?_) s
  cases s.kndGetProc r name with
  | none => exact Moves.throw _
  | some entry => exact Moves.pure entry

/-- **A proc selection** without clauses writes nothing. -/
theorem silent_kndProcSelect (r : RepoAddr) (name : Name) : Moves Silent (kndProcSelect r name []) :=
  Moves.bind (silent_runGetProc r name) fun proc => Moves.bind (Moves.pure proc) fun _ =>
    Moves.get_bind fun s =>
      Moves.ite (fun _ => silent_kndProcCommitState proc .updated) (fun _ => Moves.pure ()) s

/-! ## (4) The areas -/

theorem silent_runSelectRepo (name : Name) : Moves Silent (RepoArea.runSelectRepo name) := by
  unfold RepoArea.runSelectRepo
  split
  · exact Moves.throw _
  · exact silent_assignUserRepo
  · exact Moves.bind silent_getUserContext fun _ => silent_modifyTask fun _ h => h

theorem silent_repoClause (env : ShardEnv) {clause : RepoClause} (h : clause.Asks) :
    Moves Silent (RepoArea.parseClause env clause) := by
  cases clause with
  | importClass decl => exact h.elim
  | selectClass name clauses =>
      exact Moves.bind silent_getUserContext fun ctx => silent_kndClassSelect env ctx.repo name h
  | snapshot => exact silent_setType _

/-- `forM` over an optional name. -/
theorem silent_forM {name : Option Name} {f : Name → ShardM PUnit} (h : ∀ name, Moves Silent (f name)) :
    Moves Silent (name.forM f) := by
  cases name with
  | none => exact Moves.pure _
  | some name => exact h name

theorem silent_kndParseRepo (env : ShardEnv) (name : Option Name) {clauses : List RepoClause}
    (h : ∀ clause ∈ clauses, clause.Asks) : Moves Silent (kndParseRepo env name clauses) :=
  Moves.bind (silent_forM silent_runSelectRepo) fun _ =>
    Moves.forM fun clause hclause => silent_repoClause env (h clause hclause)

theorem silent_buildUserCtx (env : ShardEnv) (name : Name) :
    Moves Silent (UserArea.buildUserCtx env name) := by
  unfold UserArea.buildUserCtx
  cases env.openRepo name with
  | error e => exact Moves.throw _
  | ok u =>
      exact Moves.bind silent_kndTaskReset fun _ => Moves.modify fun s =>
        silent_setCtx fun _ h => nomatch h

theorem silent_runGetUser (env : ShardEnv) (name : Name) : Moves Silent (UserArea.runGetUser env name) := by
  refine Moves.get_bind fun s => ?_
  refine Moves.ite (fun _ => Moves.pure ()) (fun _ => Moves.ite (fun _ => Moves.throw _) fun _ =>
    Moves.ite (fun _ => ?_) fun _ => Moves.ite (fun _ => ?_) fun _ => Moves.throw _) s
  · -- the context of `_` gets the default acl
    refine Moves.bind (Moves.modify fun s => silent_setCtx fun hs => ?_) fun _ =>
      silent_modifyTask fun _ h => h
    rw [hs.default_acl]
    exact fun h => nomatch h
  · exact Moves.bind (Moves.ite (fun _ => Moves.pure ()) fun _ => silent_buildUserCtx env name)
      fun _ => silent_modifyTask fun _ h => h

/-- The test of `allow_write` fails. -/
theorem run_checkAllowWrite {ctx : UserContext} (h : ctx.acls ≠ some true) (s : Shard) :
    ∃ e, (UserArea.checkAllowWrite ctx).run s = .error e s := by
  unfold UserArea.checkAllowWrite
  cases hacls : ctx.acls with
  | none => exact ⟨_, rfl⟩
  | some allow =>
      cases allow with
      | false => exact ⟨_, rfl⟩
      | true => exact (h hacls).elim

/-- **An import that asks for permission** gets no further than the question. -/
theorem silent_asking {f : UserContext → ShardM α} :
    Moves Silent (getUserContext >>= fun ctx => UserArea.checkAllowWrite ctx >>= fun _ => f ctx) := by
  intro s hs
  cases hctx : s.userContext with
  | none =>
      have hrun : getUserContext.run s = .error .abort s := by rw [run_getUserContext, hctx]
      rw [finalState_of_error (run_bind_of_error hrun)]
      exact ⟨hs, .refl s⟩
  | some ctx =>
      have hrun : getUserContext.run s = .ok ctx s := by rw [run_getUserContext, hctx]
      obtain ⟨a, -, ha⟩ := Option.bind_eq_some_iff.mp hctx
      obtain ⟨e, hrefused⟩ := run_checkAllowWrite (hs.acls a ctx ha) s
      have hfail := (run_bind_of_ok (f := fun ctx => UserArea.checkAllowWrite ctx >>= fun _ => f ctx) hrun).trans
        (run_bind_of_error hrefused)
      rw [finalState_of_error hfail]
      exact ⟨hs, .refl s⟩

/-- The selection of a class falls back to the base repository. -/
theorem silent_parseClassSelect (env : ShardEnv) (name : Name) {clauses : List ClassClause}
    (h : ∀ clause ∈ clauses, clause.isImport = false) :
    Moves Silent (UserArea.parseClassSelect env name clauses) := by
  intro s
  rw [finalState, UserArea.run_parseClassSelect]
  cases s.userContext with
  | none => exact refl_of Silent s
  | some ctx =>
      dsimp only
      have hfirst := silent_kndClassSelect env ctx.repo name h
      cases hrun : (kndClassSelect env ctx.repo name clauses).run s with
      | ok u s' => exact hfirst.of_ok hrun
      | error e s' =>
          have hs' := hfirst.of_error hrun
          cases e with
          | abort => exact hs'
          | err e =>
              dsimp only
              split_ifs
              · exact hs'
              · cases ctx.baseRepo with
                | none => exact hs'
                | some base => exact trans_of Silent hs' (silent_kndClassSelect env base name h s')

theorem silent_userClause (env : ShardEnv) {clause : UserClause} (h : clause.Asks) :
    Moves Silent (UserArea.parseClause env clause) := by
  cases clause with
  | repo name clauses => exact silent_kndParseRepo env name h
  | importClass decl => exact silent_asking
  | selectClass name clauses => exact silent_parseClassSelect env name h
  | importProc decl => exact silent_asking
  | selectProc name clauses =>
      cases h
      exact Moves.get_bind fun s => silent_kndProcSelect s.task.repo name s
  | snapshot => exact silent_setType _

theorem silent_kndParseSelectUser (env : ShardEnv) (name : Option Name) {clauses : List UserClause}
    (h : ∀ clause ∈ clauses, clause.Asks) : Moves Silent (kndParseSelectUser env name clauses) := by
  have hselect : Moves Silent (selectUser env name) := by
    refine Moves.bind (silent_modifyTask fun t ht => ?_) fun _ => silent_forM (silent_runGetUser env)
    split_ifs <;> exact ht
  exact Moves.bind hselect fun _ =>
    Moves.forM fun clause hclause => silent_userClause env (h clause hclause)

theorem silent_taskClause (env : ShardEnv) {clause : TaskClause} (h : clause.Asks) :
    Moves Silent (TaskArea.parseClause env clause) := by
  cases clause with
  | createUser decl => exact h.elim
  | user name clauses => exact silent_kndParseSelectUser env name h
  | importClass decl => exact h.elim
  | selectClass name clauses =>
      exact Moves.bind silent_assignUserRepo fun _ =>
        Moves.get_bind fun s => silent_kndClassSelect env s.task.repo name h s
  | importProc decl => exact h.elim
  | selectProc name clauses =>
      cases h
      exact Moves.get_bind fun s => silent_kndProcSelect s.task.repo name s
  | repo name clauses => exact silent_kndParseRepo env name h
  | update name clauses =>
      exact Moves.bind (silent_setType _) fun _ => silent_kndParseSelectUser env name h
  | snapshot => exact silent_setType _

/-! ## (5) The task -/

/-- Without a commit there is nothing to confirm. -/
theorem silent_kndConfirmCommit (env : ShardEnv) (r : RepoAddr) :
    Moves Silent (kndConfirmCommit env r) := by
  refine Moves.get_bind fun s hs => ?_
  rw [hs.commit]
  exact ⟨hs, .refl s⟩

theorem silent_kndParseTask (env : ShardEnv) {body : List TaskClause} (h : ∀ clause ∈ body, clause.Asks) :
    Moves Silent (kndParseTask env body) := by
  refine Moves.bind (Moves.forM fun clause hclause => silent_taskClause env (h clause hclause)) fun _ =>
    Moves.get_bind fun s => ?_
  cases s.task.type with
  | commit => exact Moves.bind silent_getUserContext (fun ctx => silent_kndConfirmCommit env ctx.repo) s
  | get | select | liquid | snapshot | restore => exact Moves.pure () s

/-- A task that asks leaves a shard that may not be written as it is. -/
theorem step_unwritten (env : ShardEnv) {body : List TaskClause} (h : ∀ clause ∈ body, clause.Asks)
    {s : Shard} (hs : s.ReadOnly) : (step env s body).ReadOnly ∧ s.Unwritten (step env s body) := by
  -- the reset makes the task idle, whatever the one before it left behind
  have hreset : (s.setTask { role := s.task.role }).Idle := ⟨⟨hs.default_acl, hs.acls⟩, rfl⟩
  obtain ⟨hstart, hsame⟩ : s.start.Idle ∧ (s.setTask { role := s.task.role }).Unwritten s.start := by
    refine silent_setCtx (fun _ => ?_) hreset
    rw [hs.default_acl]
    exact fun h => nomatch h
  obtain ⟨hidle, hrest⟩ := silent_kndParseTask env h s.start hstart
  have hstep : step env s body = finalState (kndParseTask env body) s.start := rfl
  rw [hstep]
  have hfirst : s.Unwritten s.start := ⟨hsame.repos_eq, hsame.insts_eq, hsame.confirms_eq⟩
  exact ⟨hidle.toReadOnly, hfirst.trans hrest⟩

end Shard

/-! ## (6) Runs of tasks -/

/-- **No write without permission**: a run of tasks whose imports ask for permission, on a shard nobody may
write to, registers nothing and confirms nothing. -/
theorem unwritten_of_reaches (env : ShardEnv) {s₀ s : Shard} (h₀ : s₀.ReadOnly)
    (h : Reaches (Shard.step env) (fun _ body => ∀ clause ∈ body, clause.Asks) s₀ s) :
    s₀.Unwritten s := by
  have hinv : s.ReadOnly ∧ s₀.Unwritten s := h.invariant (I := fun s => s.ReadOnly ∧ s₀.Unwritten s)
    ⟨h₀, .refl s₀⟩ fun s body hs hbody => by
      obtain ⟨hread, hsame⟩ := Shard.step_unwritten env hbody hs.1
      exact ⟨hread, hs.2.trans hsame⟩
  exact hinv.2

/-- The anonymous user is refused a class, and reads one. -/
theorem unwritten_of_reaches_refused :
    (Shard.small false).Unwritten
      (Shard.step .plain (Shard.step .plain (Shard.small false)
        [.user (some [95]) [.importClass ⟨[65], none⟩]]) [.user (some [95]) [.selectClass [47] []]]) :=
  unwritten_of_reaches .plain Shard.readOnly_small
    (.next (.next .refl (by simp [TaskClause.Asks, UserClause.Asks]))
      (by simp [TaskClause.Asks, UserClause.Asks]))

/-- A user without permission creates a class: the handler of `!class` in a repository selection,
`{task {user _ {repo ~ {!class A}}}}`, does not ask. -/
theorem writes_without_permission :
    ¬∀ (env : ShardEnv) (s : Shard) (body : List TaskClause), s.ReadOnly →
      s.Unwritten (Shard.step env s body) := by
  intro h
  have hsame := h .plain _ [.user (some [95]) [.repo (some [126]) [.importClass ⟨[65], none⟩]]]
    Shard.readOnly_small
  have hconfirms : (Shard.step .plain (Shard.small false)
      [.user (some [95]) [.repo (some [126]) [.importClass ⟨[65], none⟩]]]).confirms.length = 1 := by
    decide +kernel
  rw [hsame.confirms_eq] at hconfirms
  exact nomatch hconfirms

end Knowdy
