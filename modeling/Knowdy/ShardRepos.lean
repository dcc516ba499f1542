import Knowdy.Lib.Runs
import Knowdy.Shard

/-! # A commit and the repository it belongs to

A commit takes `orig_state_id` from one repository, its classes and instances go into one, and
`knd_confirm_commit` works on the one that `user_ctx->repo` names at the end of the task.

* `TaskCommit.InPlace`, `Shard.InPlace` — all of them are the same, for one commit and for a whole shard.
* `Shard.At` — the invariant of a task between two selections: the repository of the user and that of the
  task, and a commit that is in place in the former.
* `TaskClause.Fits` — what a clause needs of the state it is handled in.
* `inPlace_of_reaches` — a run of tasks whose clauses fit keeps every commit in place. -/

namespace Knowdy

/-! ## (1) In place -/

/-- **The commit belongs to repository `r`**: its `orig_state_id`, its new classes and its instances. -/
structure TaskCommit.InPlace (c : TaskCommit) (r : RepoAddr) : Prop where
  origin : c.origin = r
  created : ∀ state ∈ c.classStates, state.phase = .created → state.entry.repo = r
  children : ∀ state ∈ c.classStates, ∀ inst ∈ state.children, inst.blueprint.repo = r

namespace Shard

/-- **Everything is where it belongs**: the class name index of a repository holds its own classes, its
snapshot and its journals hold its own commits, and the classes these created are in that index. -/
structure InPlace (s : Shard) : Prop where
  classes : ∀ r name entry, kndSharedDictGet (s.repos r).classNameIdx name = some entry → entry.repo = r
  commits : ∀ r, ∀ c ∈ (s.repos r).commits, c.InPlace r
  journal : ∀ r, ∀ c ∈ (s.repos r).journal, c.InPlace r
  indexed : ∀ r, ∀ c ∈ (s.repos r).commits, ∀ state ∈ c.classStates, state.phase = .created →
    (kndSharedDictGet (s.repos r).classNameIdx state.entry.name).isSome

/-- The instances of a repository can be imported without a restore, or there is nothing to restore. -/
def Restored (env : ShardEnv) (s : Shard) (r : RepoAddr) : Prop :=
  (s.repos r).role ≠ .reader ∨ env.restore r = pure ()

/-- **Between two selections**: `u` is the repository of the user, `t` that of the task; what the task has
imported so far is in place in `u`. With `b`, instances can be imported into `u` without a restore. -/
structure At (env : ShardEnv) (b : Bool) (u : Option RepoAddr) (t : RepoAddr) (s : Shard) : Prop where
  inPlace : s.InPlace
  userRepo : s.userRepo = u
  taskRepo : s.task.repo = t
  commit : ∀ c, s.task.commit = some c → ∃ r, u = some r ∧ c.InPlace r
  insts : ∀ inst ∈ s.task.instStateRefs, u = some inst.blueprint.repo
  restored : b = true → ∀ r, u = some r → Restored env s r

/-! ## (2) Single steps -/

variable {env : ShardEnv} {b : Bool} {u : Option RepoAddr} {t r : RepoAddr} {s s' : Shard}

/-- Only the repositories count. -/
theorem InPlace.congr (h : s.InPlace) (hrepos : s'.repos = s.repos) : s'.InPlace := by
  obtain ⟨hclasses, hcommits, hjournal, hindexed⟩ := h
  rw [← hrepos] at hclasses hcommits hjournal hindexed
  exact ⟨hclasses, hcommits, hjournal, hindexed⟩

/-- One repository is replaced by one that is in place. -/
theorem InPlace.setRepo (h : s.InPlace) {repo : RepoState}
    (hclasses : ∀ name entry, kndSharedDictGet repo.classNameIdx name = some entry → entry.repo = r)
    (hcommits : ∀ c ∈ repo.commits, c.InPlace r) (hjournal : ∀ c ∈ repo.journal, c.InPlace r)
    (hindexed : ∀ c ∈ repo.commits, ∀ state ∈ c.classStates, state.phase = .created →
      (kndSharedDictGet repo.classNameIdx state.entry.name).isSome) : (s.setRepo r repo).InPlace where
  classes q name entry hget := by
    rw [repos_setRepo] at hget
    split_ifs at hget with hq
    · exact (hclasses name entry hget).trans hq.symm
    · exact h.classes q name entry hget
  commits q c hc := by
    rw [repos_setRepo] at hc
    split_ifs at hc with hq
    · rw [hq]
      exact hcommits c hc
    · exact h.commits q c hc
  journal q c hc := by
    rw [repos_setRepo] at hc
    split_ifs at hc with hq
    · rw [hq]
      exact hjournal c hc
    · exact h.journal q c hc
  indexed q c hc state hstate hphase := by
    rw [repos_setRepo] at hc ⊢
    split_ifs at hc ⊢
    · exact hindexed c hc state hstate hphase
    · exact h.indexed q c hc state hstate hphase

/-- A repository is replaced by one of the same role. -/
theorem role_setRepo {repo : RepoState} (h : repo.role = (s.repos r).role) (q : RepoAddr) :
    ((s.setRepo r repo).repos q).role = (s.repos q).role := by
  rw [repos_setRepo]
  split_ifs with hq
  · rw [hq, h]
  · rfl

/-- Other repositories of the same roles and the same rest. -/
theorem At.congr (h : At env b u t s) (hplace : s'.InPlace) (hctxs : s'.ctxs = s.ctxs)
    (htask : s'.task = s.task) (hroles : ∀ q, (s'.repos q).role = (s.repos q).role) :
    At env b u t s' := by
  refine ⟨hplace, ?_, by rw [htask]; exact h.taskRepo, by rw [htask]; exact h.commit,
    by rw [htask]; exact h.insts, fun hb r hr => ?_⟩
  · rw [← h.userRepo]
    show (s'.task.userCtx.bind s'.ctxs).map UserContext.repo = _
    rw [htask, hctxs]
    rfl
  · rw [Restored, hroles]
    exact h.restored hb r hr

/-- A task with the same context, repository, commit and instances. -/
theorem At.setTask (h : At env b u t s) {task : ShardTask} (hctx : task.userCtx = s.task.userCtx)
    (hrepo : task.repo = s.task.repo) (hcommit : task.commit = s.task.commit)
    (hinsts : task.instStateRefs = s.task.instStateRefs) : At env b u t (s.setTask task) where
  inPlace := h.inPlace.congr rfl
  userRepo := by
    rw [← h.userRepo]
    show (task.userCtx.bind s.ctxs).map UserContext.repo = _
    rw [hctx]
    rfl
  taskRepo := hrepo.trans h.taskRepo
  commit c hc := h.commit c (hcommit.symm.trans hc)
  insts inst hinst := h.insts inst (hinsts ▸ hinst)
  restored := h.restored

/-- A new commit of the task. -/
theorem At.setCommit (h : At env b (some r) t s) {c : TaskCommit} (hc : c.InPlace r) :
    At env b (some r) t (s.setTask { s.task with commit := some c }) where
  inPlace := h.inPlace.congr rfl
  userRepo := h.userRepo
  taskRepo := h.taskRepo
  commit c' hc' := by
    cases hc'
    exact ⟨r, rfl, hc⟩
  insts := h.insts
  restored := h.restored

theorem stable_setType (type : SpecType) : Moves (Stable (At env b u t)) (setType type) :=
  fun _ h => h.setTask rfl rfl rfl rfl

theorem stable_getUserContext (P : Shard → Prop) : Moves (Stable P) getUserContext := by
  intro s
  rw [finalState, run_getUserContext]
  cases s.userContext <;> exact id

theorem stable_parseBody (P : Shard → Prop) (decl : Decl) : Moves (Stable P) (parseBody decl) := by
  unfold parseBody
  cases decl.fault with
  | none => exact Moves.pure ()
  | some e => exact Moves.throw _

/-- **What registering a class does**: it runs out of memory or meets the name, or the index has one more
name. -/
theorem registerClass_cases (r : RepoAddr) (entry : RepoEntry) (s : Shard) :
    (∃ e pool, (registerClass r entry).run s = .error (.err e) (s.setPool pool)) ∨
      ∃ pool dict, (registerClass r entry).run s
          = .ok () ((s.setPool pool).setRepo r { s.repos r with classNameIdx := dict }) ∧
        ∀ name, kndSharedDictGet dict name = if name = entry.name then some entry
          else kndSharedDictGet (s.repos r).classNameIdx name := by
  rw [run_registerClass]
  cases hset : kndSharedDictSet (s.repos r).classNameIdx s.pool entry.name entry
      (s.task.commit.map fun _ => 0) false with
  | mk result pool =>
      cases result with
      | error e => exact .inl ⟨e, pool, rfl⟩
      | ok pair =>
          obtain ⟨item, dict⟩ := pair
          obtain ⟨-, rfl, rfl⟩ := kndSharedDictSet_ok hset
          refine .inr ⟨pool, _, rfl, fun name => ?_⟩
          rw [kndSharedDictGet_push]
          dsimp only
          -- the new item is valid or pending
          cases s.task.commit <;> rfl

/-- **A class entry of the repository itself** is registered: later lookups find at least as much. -/
theorem InPlace.registerClass (h : s.InPlace) {entry : RepoEntry} (hr : entry.repo = r) :
    (finalState (Shard.registerClass r entry) s).InPlace := by
  rcases registerClass_cases r entry s with ⟨e, pool, hrun⟩ | ⟨pool, dict, hrun, hget⟩
  · rw [finalState_of_error hrun]
    exact h.congr rfl
  · rw [finalState_of_ok hrun]
    have hpool : (setPool pool s).InPlace := h.congr rfl
    refine hpool.setRepo (fun name e he => ?_) (h.commits r) (h.journal r)
      fun c hc state hstate hphase => ?_
    · rw [hget] at he
      split_ifs at he
      · cases he
        exact hr
      · exact h.classes r name e he
    · rw [hget]
      split_ifs
      · rfl
      · exact h.indexed r c hc state hstate hphase

/-- Registering changes neither the contexts nor the task nor the role of a repository. -/
theorem registerClass_frame (r : RepoAddr) (entry : RepoEntry) (s : Shard) :
    (finalState (registerClass r entry) s).ctxs = s.ctxs ∧
      (finalState (registerClass r entry) s).task = s.task ∧
      ∀ q, ((finalState (registerClass r entry) s).repos q).role = (s.repos q).role := by
  rcases registerClass_cases r entry s with ⟨e, pool, hrun⟩ | ⟨pool, dict, hrun, -⟩
  · rw [finalState_of_error hrun]
    exact ⟨rfl, rfl, fun _ => rfl⟩
  · rw [finalState_of_ok hrun]
    have hpool : ∀ q, ((setPool pool s).repos q).role = (s.repos q).role := fun _ => rfl
    refine ⟨rfl, rfl, fun q => (role_setRepo ?_ q).trans (hpool q)⟩
    rfl

theorem At.registerClass (h : At env b u t s) {entry : RepoEntry} (hr : entry.repo = r) :
    At env b u t (finalState (Shard.registerClass r entry) s) :=
  have hframe := registerClass_frame r entry s
  h.congr (h.inPlace.registerClass hr) hframe.1 hframe.2.1 hframe.2.2

theorem stable_registerClass {entry : RepoEntry} (hr : entry.repo = r) :
    Moves (Stable (At env b u t)) (Shard.registerClass r entry) := fun _ h => h.registerClass hr

/-- A proc is registered. -/
theorem At.registerProc (h : At env b u t s) (r : RepoAddr) (entry : RepoEntry) :
    At env b u t (finalState (Shard.registerProc r entry) s) := by
  rw [finalState, run_registerProc]
  cases kndSharedDictSet (s.repos r).procNameIdx s.pool entry.name entry
      (s.task.commit.map fun _ => 0) false with
  | mk result pool =>
      cases result with
      | error e => exact h.congr (h.inPlace.congr rfl) rfl rfl fun _ => rfl
      | ok pair =>
          have hpool : (setPool pool s).InPlace := h.inPlace.congr rfl
          have hroles : ∀ q, ((setPool pool s).repos q).role = (s.repos q).role := fun _ => rfl
          refine h.congr (hpool.setRepo (h.inPlace.classes r) (h.inPlace.commits r) (h.inPlace.journal r)
            (h.inPlace.indexed r)) rfl rfl fun q => ?_
          dsimp only
          refine (role_setRepo ?_ q).trans (hroles q)
          rfl

theorem stable_registerProc (r : RepoAddr) (entry : RepoEntry) :
    Moves (Stable (At env b u t)) (Shard.registerProc r entry) := fun _ h => h.registerProc r entry

/-- A change of the commit that keeps it in place. -/
theorem At.modifyCommit (h : At env b u t s) {f : TaskCommit → TaskCommit}
    (hf : ∀ r c, s.task.commit = some c → u = some r → c.InPlace r → (f c).InPlace r) :
    At env b u t (finalState (Shard.modifyCommit f) s) := by
  rw [finalState, run_modifyCommit]
  cases hc : s.task.commit with
  | none => exact h
  | some c =>
      obtain ⟨r, rfl, hplace⟩ := h.commit c hc
      exact h.setCommit (hf r c hc rfl hplace)

/-- A state of an entry is added; a new class is one of the user's repository. -/
theorem At.kndClassCommitState (h : At env b u t s) {entry : RepoEntry} {phase : EntryPhase}
    (hcreated : phase = .created → u = some entry.repo) :
    At env b u t (finalState (Shard.kndClassCommitState entry phase) s) := by
  refine At.modifyCommit h fun r c _ hu hc => ⟨hc.origin, ?_, ?_⟩
  · intro state hstate hphase
    rcases List.mem_cons.mp hstate with rfl | hold
    · have := hcreated hphase
      rw [hu] at this
      exact (Option.some.inj this).symm
    · exact hc.created state hold hphase
  · intro state hstate inst hinst
    rcases List.mem_cons.mp hstate with rfl | hold
    · dsimp only at hinst
      split_ifs at hinst
      · have := h.insts inst hinst
        rw [hu] at this
        exact (Option.some.inj this).symm
      · cases hinst
    · exact hc.children state hold inst hinst

theorem stable_selected (entry : RepoEntry) :
    Moves (Stable (At env b u t)) (kndClassCommitState entry .selected) :=
  fun _ h => h.kndClassCommitState fun hphase => nomatch hphase

theorem stable_kndProcCommitState (entry : RepoEntry) (phase : EntryPhase) :
    Moves (Stable (At env b u t)) (kndProcCommitState entry phase) :=
  fun _ h => At.modifyCommit h fun _ _ _ _ hc => ⟨hc.origin, hc.created, hc.children⟩

/-- A commit is made; its `orig_state_id` is that of the user's repository. -/
theorem stable_kndCommitNew : Moves (Stable (At env b (some r) t)) (kndCommitNew r) :=
  fun _ h => h.setCommit ⟨rfl, fun _ hstate => (nomatch hstate), fun _ hstate => (nomatch hstate)⟩

theorem At.ensureCommit (h : At env b u t s) (hnew : s.task.commit = none → u = some r) :
    At env b u t (finalState (Shard.ensureCommit r) s) := by
  show At env b u t (finalState (if s.task.commit = none then kndCommitNew r else pure () : ShardM Unit) s)
  split_ifs with hcommit
  · cases hnew hcommit
    exact stable_kndCommitNew s h
  · exact h

theorem stable_ensureCommit (h : u = some r) : Moves (Stable (At env b u t)) (ensureCommit r) :=
  fun _ hs => hs.ensureCommit fun _ => h

/-! ## (3) Selections of classes and procs -/

theorem stable_setInstName (P : Shard → Prop) (entry : RepoEntry) (name : Name) :
    Moves (Stable P) (setInstName entry name) :=
  Moves.get_bind fun s => Moves.ite (fun _ => Moves.throw _) (fun _ => Moves.pure ()) s

/-- An instance of a class of the user's repository is imported. -/
theorem stable_kndImportClassInst (entry : RepoEntry) (decl : Decl) :
    Moves (Stable (At env b (some entry.repo) t)) (kndImportClassInst entry decl) := by
  refine Moves.bind (stable_getUserContext _) fun _ => Moves.bind ?_ fun _ =>
    Moves.bind (stable_setInstName _ entry decl.name) fun _ =>
      Moves.bind (stable_parseBody _ decl) fun _ => ?_
  · exact fun s h => h.setTask rfl rfl rfl rfl
  · intro s h
    exact ⟨h.inPlace.congr rfl, h.userRepo, h.taskRepo, h.commit,
      fun inst hinst => by
        rcases List.mem_cons.mp hinst with rfl | hold
        · rfl
        · exact h.insts inst hold, h.restored⟩

/-- Nothing is restored. -/
theorem stable_restoreReader : Moves (Stable (At env true (some r) t)) (restoreReader env r) := by
  intro s h
  rw [finalState, run_restoreReader, ← finalState]
  cases hrole : (s.repos r).role with
  | writer | arbiter => exact h
  | reader =>
      rcases h.restored rfl r rfl with hne | hnone
      · exact (hne hrole).elim
      · -- the role changes, and then nothing happens
        dsimp only
        rw [hnone]
        have hplace : (s.setRepo r { s.repos r with role := .writer }).InPlace :=
          h.inPlace.setRepo (h.inPlace.classes r) (h.inPlace.commits r) (h.inPlace.journal r)
            (h.inPlace.indexed r)
        have hrestored : Restored env (s.setRepo r { s.repos r with role := .writer }) r := by
          left
          rw [repos_setRepo, if_pos rfl]
          exact AgentRole.noConfusion
        have hat : At env true (some r) t (s.setRepo r { s.repos r with role := .writer }) :=
          ⟨hplace, h.userRepo, h.taskRepo, h.commit, h.insts, fun _ q hq => by
            cases hq
            exact hrestored⟩
        exact stable_setType s.task.type _ hat

/-- **`{!inst …}`**: the class is copied into the repository if need be. -/
theorem stable_parseImportClassInst (entry : RepoEntry) (decl : Decl) :
    Moves (Stable (At env true (some r) t)) (ClassArea.parseImportClassInst env r entry decl) := by
  refine Moves.bind (stable_getUserContext _) fun _ => Moves.get_bind fun s => ?_
  have hrest : ∀ entry : RepoEntry, entry.repo = r → Moves (Stable (At env true (some r) t)) (do
      restoreReader env r
      let s' ← get
      (if s'.task.type = .get ∧ s.task.commit = none then kndCommitNew r else pure ())
      kndImportClassInst entry decl
      pure entry : ShardM RepoEntry) := by
    rintro entry rfl
    refine Moves.bind stable_restoreReader fun _ => Moves.bind Moves.get fun s' => Moves.bind ?_ fun _ =>
      Moves.bind (stable_kndImportClassInst entry decl) fun _ => Moves.pure entry
    exact Moves.ite (fun _ => stable_kndCommitNew) fun _ => Moves.pure ()
  by_cases hrepo : entry.repo ≠ r
  · rw [if_pos hrepo, kndClassEntryClone, bind_assoc]
    refine Moves.bind (stable_registerClass rfl) (fun _ => ?_) s
    rw [pure_bind]
    exact hrest { entry with repo := r } rfl
  · rw [if_neg hrepo, pure_bind]
    exact hrest entry (not_not.mp hrepo) s

theorem stable_parseSelectClassInst (entry : RepoEntry) (name : Name) :
    Moves (Stable (At env b u t)) (ClassArea.parseSelectClassInst entry name) :=
  Moves.bind (stable_setType _) fun _ => Moves.get_bind fun s =>
    Moves.ite (fun _ => stable_setType _) (fun _ => Moves.throw _) s

/-- The clauses of a class selection, with imports only into a repository that is ready for them. -/
theorem stable_parseClauses (entry : RepoEntry) {clauses : List ClassClause}
    (h : ∀ clause ∈ clauses, clause.isImport = true → b = true ∧ u = some r) :
    Moves (Stable (At env b u t)) (ClassArea.parseClauses env r entry clauses) := by
  induction clauses generalizing entry with
  | nil => exact Moves.pure entry
  | cons clause clauses ih =>
      refine Moves.bind ?_ fun entry => ih entry fun c hc => h c (List.mem_cons_of_mem clause hc)
      cases clause with
      | importInst inst =>
          obtain ⟨rfl, rfl⟩ := h _ (List.mem_cons_self ..) rfl
          exact stable_parseImportClassInst entry inst
      | selectInst name =>
          exact Moves.bind (stable_parseSelectClassInst entry name) fun _ => Moves.pure entry
      | removeInst name =>
          exact Moves.bind (stable_parseSelectClassInst entry name) fun _ =>
            Moves.bind (stable_setType _) fun _ => Moves.pure entry
      | setAttrVar => exact Moves.bind (stable_setType _) fun _ => Moves.pure entry

theorem stable_runGetClass (P : Shard → Prop) (r : RepoAddr) (name : Name) :
    Moves (Stable P) (runGetClass r name) := by
  refine Moves.get_bind fun s => Moves.ite (fun _ => Moves.throw _) (fun _ => Moves.ite
    (fun _ => Moves.pure _) fun _ => ?_) s
  cases s.kndGetClassEntry r name with
  | none => exact Moves.throw _
  | some entry => exact Moves.pure entry

theorem stable_commitSelection (entry : RepoEntry) :
    Moves (Stable (At env b u t)) (commitSelection entry) := by
  refine Moves.get_bind fun s h => ?_
  cases s.task.type with
  | restore | commit => exact stable_selected entry s h
  | get | select | liquid | snapshot => exact h

/-- **A class selection** on repository `r`. -/
theorem stable_kndClassSelect (name : Name) {clauses : List ClassClause}
    (h : ∀ clause ∈ clauses, clause.isImport = true → b = true ∧ u = some r) :
    Moves (Stable (At env b u t)) (kndClassSelect env r name clauses) :=
  Moves.bind (stable_runGetClass _ r name) fun entry =>
    Moves.bind (stable_parseClauses entry h) fun entry => stable_commitSelection entry

/-- `{!inst …}` in a proc selection, where the task is in the repository of the user. -/
theorem stable_parseProcInstImport (entry : RepoEntry) (decl : Decl) (h : u = some t) :
    Moves (Stable (At env b u t)) (ProcArea.parseProcInstImport entry decl) := by
  refine Moves.get_bind fun s => ?_
  have hrest : ∀ entry : RepoEntry, Moves (Stable (At env b u t)) (do
      let s ← get
      (if s.task.type = .get then ensureCommit s.task.repo else pure ())
      ProcArea.kndImportProcInst decl
      pure entry : ShardM RepoEntry) := by
    intro entry s hs
    have htask : some s.task.repo = u := by rw [hs.taskRepo, h]
    refine Moves.bind (Moves.ite (fun _ => stable_ensureCommit htask.symm) fun _ => Moves.pure ())
      (fun _ => Moves.bind ?_ fun _ => Moves.pure entry) s hs
    refine Moves.bind (stable_setType _) fun _ => Moves.bind (stable_parseBody _ decl) fun _ =>
      Moves.get_bind fun s hs => ?_
    rw [hs.taskRepo]
    exact stable_ensureCommit h s hs
  refine Moves.bind ?_ hrest s
  cases s.userRepo with
  | none => exact Moves.pure entry
  | some q =>
      refine Moves.ite (fun _ => ?_) fun _ => Moves.pure entry
      exact Moves.bind (stable_registerProc q { entry with repo := q }) fun _ => Moves.pure _

/-- The clauses of a proc selection, where the task is in the repository of the user. -/
theorem stable_procClauses (entry : RepoEntry) (clauses : List ProcClause) (h : u = some t) :
    Moves (Stable (At env b u t)) (ProcArea.parseClauses entry clauses) := by
  induction clauses generalizing entry with
  | nil => exact Moves.pure entry
  | cons clause clauses ih =>
      refine Moves.bind ?_ fun entry => ih entry
      cases clause with
      | importInst inst => exact stable_parseProcInstImport entry inst h
      | remove =>
          refine Moves.bind (Moves.bind (stable_setType _) fun _ => Moves.get_bind fun s hs => ?_)
            fun _ => Moves.pure entry
          rw [hs.taskRepo]
          exact Moves.bind (stable_ensureCommit h)
            (fun _ => stable_kndProcCommitState entry .removed) s hs

theorem stable_runGetProc (P : Shard → Prop) (r : RepoAddr) (name : Name) :
    Moves (Stable P) (runGetProc r name) := by
  refine Moves.get_bind fun s => Moves.ite (fun _ => Moves.throw _) (fun _ => Moves.ite
    (fun _ => Moves.throw _) fun _ => ?_) s
  cases s.kndGetProc r name with
  | none => exact Moves.throw _
  | some entry => exact Moves.pure entry

/-- **A proc selection**: with clauses only where the task is in the repository of the user. -/
theorem stable_kndProcSelect (name : Name) {clauses : List ProcClause} (h : clauses ≠ [] → u = some t) :
    Moves (Stable (At env b u t)) (kndProcSelect r name clauses) := by
  refine Moves.bind (stable_runGetProc _ r name) fun proc => Moves.bind ?_ fun _ =>
    Moves.get_bind fun s => Moves.ite (fun _ => stable_kndProcCommitState proc .updated)
      (fun _ => Moves.pure ()) s
  cases clauses with
  | nil => exact Moves.pure proc
  | cons clause clauses =>
      exact stable_procClauses proc (clause :: clauses) (h fun hnil => nomatch hnil)

/-- **`{!class …}`** into the repository of the user. -/
theorem stable_kndClassImport (decl : Decl) :
    Moves (Stable (At env b (some r) t)) (kndClassImport r decl) := by
  have hname : Moves (Stable (At env b (some r) t)) (setClassName r decl.name) := by
    refine Moves.get_bind fun s => Moves.bind (stable_getUserContext _) (fun ctx => Moves.ite
      (fun _ => Moves.throw _) fun _ => Moves.ite (fun _ => Moves.throw _) fun _ => Moves.ite
        (fun _ => Moves.throw _) fun _ => ?_) s
    exact fun _ h => h.setTask rfl rfl rfl rfl
  refine Moves.bind hname fun _ => Moves.bind (stable_parseBody _ decl) fun _ =>
    Moves.get_bind fun s h => ?_
  cases s.task.type with
  | restore | commit => exact h.kndClassCommitState fun _ => rfl
  | get | select | liquid | snapshot => exact h

/-- **`{!proc …}`**. -/
theorem stable_kndProcImport (decl : Decl) : Moves (Stable (At env b u t)) (kndProcImport r decl) :=
  Moves.bind (stable_getUserContext _) fun _ => Moves.get_bind fun s => Moves.ite
    (fun _ => Moves.throw _) (fun _ => Moves.bind (stable_parseBody _ decl) fun _ => Moves.ite
      (fun _ => stable_kndProcCommitState ⟨r, decl.name⟩ .created) fun _ => Moves.pure ()) s

/-! ## (4) What a clause needs -/

/-- Nothing has been imported yet. -/
def Untouched (s : Shard) : Prop := s.task.commit = none ∧ s.task.instStateRefs = []

/-- A commit that is made now takes `orig_state_id` from the repository of the user. -/
def StartsHere (s : Shard) : Prop := s.task.commit = none → s.userRepo = some s.task.repo

/-- The repository of the user may become that of the task. -/
def MayAssign (s : Shard) : Prop := s.Untouched ∨ s.userRepo = some s.task.repo

/-- The repository that `{user NAME …}` selects. -/
def selectedRepo (s : Shard) : Option Name → Option RepoAddr
  | none => none
  | some name => if name = [95] then some .users else (s.ctxs (.cached name)).map UserContext.repo

/-- A selection of `{repo NAME …}`. -/
def FitsRepoName (s : Shard) (name : Name) : Prop := name.head? = some 47 → s.MayAssign

end Shard

/-- A clause of a repository selection. -/
def RepoClause.Fits (env : ShardEnv) (s : Shard) : RepoClause → Prop
  | .importClass _ => s.StartsHere
  | .selectClass _ clauses => ClassClause.anyImport clauses = true →
      ∀ r, s.userRepo = some r → Shard.Restored env s r
  | .snapshot => True

namespace Shard

/-- `{repo NAME …}`: its name and then its clauses, each where it is reached. -/
def FitsRepo (env : ShardEnv) (s : Shard) (name : Option Name) (clauses : List RepoClause) : Prop :=
  (∀ n, name = some n → s.FitsRepoName n) ∧
    ∀ s', (name.forM RepoArea.runSelectRepo).run s = .ok () s' →
      EachMeets (RepoArea.parseClause env) (RepoClause.Fits env) s' clauses

end Shard

/-- A clause of a user selection. A selection that imports instances does not fall back to another
repository. -/
def UserClause.Fits (env : ShardEnv) (s : Shard) : UserClause → Prop
  | .repo name clauses => Shard.FitsRepo env s name clauses
  | .importClass _ => s.StartsHere
  | .selectClass name clauses => ClassClause.anyImport clauses = true →
      ∀ ctx, s.userContext = some ctx → Shard.Restored env s ctx.repo ∧
        (ctx.baseRepo = some ctx.repo ∨
          ∀ e s', (Shard.kndClassSelect env ctx.repo name clauses).run s = .error (.err e) s' →
            s'.task.type = .commit)
  | .importProc _ => ∀ c, s.task.commit = some c → c.origStateId = 0 → s.userRepo = some s.task.repo
  | .selectProc _ clauses => clauses ≠ [] → s.userRepo = some s.task.repo
  | .snapshot => True

namespace Shard

/-- `{user NAME …}`: nothing has been imported yet, or the user is in the same repository. -/
def FitsUser (env : ShardEnv) (s : Shard) (name : Option Name) (clauses : List UserClause) : Prop :=
  (s.Untouched ∨ s.selectedRepo name = s.userRepo) ∧
    ∀ s', (selectUser env name).run s = .ok () s' →
      EachMeets (UserArea.parseClause env) (UserClause.Fits env) s' clauses

end Shard

/-- **What a clause of a task needs** of the state it is handled in, so that all it imports ends up in the
repository of the user, from which the commit takes `orig_state_id`. -/
def TaskClause.Fits (env : ShardEnv) (s : Shard) : TaskClause → Prop
  | .createUser _ => s.userRepo = some s.userClass.repo ∧ s.StartsHere
  | .user name clauses => Shard.FitsUser env s name clauses
  | .importClass _ => s.userRepo = some s.task.repo
  | .selectClass _ clauses => s.MayAssign ∧
      (ClassClause.anyImport clauses = true → Shard.Restored env s s.task.repo)
  | .importProc _ => s.StartsHere
  | .selectProc _ clauses => clauses ≠ [] → s.userRepo = some s.task.repo
  | .repo name clauses => Shard.FitsRepo env s name clauses
  | .update name clauses => Shard.FitsUser env (s.setTask { s.task with type := .liquid }) name clauses
  | .snapshot => True

namespace Shard

/-! ## (5) The areas -/

/-- The invariant between two clauses. -/
def Agreed (env : ShardEnv) (s : Shard) : Prop := At env false s.userRepo s.task.repo s

variable {env : ShardEnv} {b : Bool} {u : Option RepoAddr} {t r : RepoAddr} {s s' : Shard}

theorem At.agreed (h : At env b u t s) : Agreed env s := by
  obtain ⟨hplace, rfl, rfl, hcommit, hinsts, -⟩ := h
  exact ⟨hplace, rfl, rfl, hcommit, hinsts, fun h => nomatch h⟩

theorem Agreed.at (h : Agreed env s) (hrestored : b = true → ∀ r, s.userRepo = some r → Restored env s r) :
    At env b s.userRepo s.task.repo s := ⟨h.inPlace, rfl, rfl, h.commit, h.insts, hrestored⟩

/-- What a program keeps, it keeps in returning and in failing runs. -/
theorem Agreed.yields (h : Agreed env s) {α : Type} {x : ShardM α}
    (hx : Moves (Stable (At env false s.userRepo s.task.repo)) x) :
    Yields x s (fun _ => Agreed env) InPlace :=
  (Yields.of_moves hx h).mono (fun _ _ hs => hs.agreed) fun _ hs => hs.inPlace

/-- A handler that reads the user context first. -/
theorem yields_getUserContext {α : Type} {f : UserContext → ShardM α} {I : α → Shard → Prop}
    (hplace : s.InPlace) (hf : ∀ ctx, s.userContext = some ctx → Yields (f ctx) s I InPlace) :
    Yields (getUserContext >>= f) s I InPlace := by
  have hfirst : Yields getUserContext s (fun ctx s' => s = s' ∧ s.userContext = some ctx) InPlace := by
    unfold Yields
    rw [run_getUserContext]
    cases s.userContext with
    | none => exact hplace
    | some ctx => exact ⟨rfl, rfl⟩
  refine hfirst.bind fun ctx s' hs' => ?_
  obtain ⟨rfl, hctx⟩ := hs'
  exact hf ctx hctx

theorem userRepo_of_userContext {ctx : UserContext} (h : s.userContext = some ctx) :
    s.userRepo = some ctx.repo := by
  rw [userRepo, h]
  rfl

/-- **An import by a handler that makes the commit** from the repository of the task. -/
theorem At.import (h : At env b (some r) t s) (hnew : s.task.commit = none → r = t) (decl : Decl) :
    At env b (some r) t (finalState (do
      setType .commit
      let s ← get
      Shard.ensureCommit s.task.repo
      kndClassImport r decl : ShardM Unit) s) := by
  have hset : At env b (some r) t (s.setTask { s.task with type := .commit }) :=
    h.setTask rfl rfl rfl rfl
  have hfirst := hset.ensureCommit (r := s.task.repo) fun hcommit => by rw [hnew hcommit, h.taskRepo]
  exact Yields.iff_finalState.mp ((Yields.iff_finalState.mpr hfirst).bind fun _ s' hs' =>
    Yields.of_moves (stable_kndClassImport decl) hs')

/-- The same for the repository of the user. -/
theorem Agreed.import (h : Agreed env s) {ctx : UserContext} (hctx : s.userContext = some ctx)
    (hnew : s.StartsHere) (decl : Decl) :
    Yields (do
      setType .commit
      let s ← get
      Shard.ensureCommit s.task.repo
      kndClassImport ctx.repo decl : ShardM Unit) s (fun _ => Agreed env) InPlace := by
  have hu := userRepo_of_userContext hctx
  have hat : At env false (some ctx.repo) s.task.repo s := hu ▸ h
  have hdone := hat.import (fun hcommit => Option.some.inj (hu.symm.trans (hnew hcommit))) decl
  exact (Yields.iff_finalState.mpr hdone).mono (fun _ _ hs => hs.agreed) fun _ hs => hs.inPlace

/-- A class selection that fits. -/
theorem At.kndClassSelect {clauses : List ClassClause}
    (h : At env (ClassClause.anyImport clauses) u t s) (name : Name)
    (himport : ClassClause.anyImport clauses = true → u = some r) :
    At env (ClassClause.anyImport clauses) u t (finalState (Shard.kndClassSelect env r name clauses) s) := by
  refine stable_kndClassSelect name (fun clause hclause himp => ?_) s h
  have hany : ClassClause.anyImport clauses = true := List.any_eq_true.mpr ⟨clause, hclause, himp⟩
  exact ⟨hany, himport hany⟩

/-- The context of the task is replaced. -/
theorem userRepo_setCtx {a : CtxAddr} (ha : s.task.userCtx = some a) (ctx : UserContext) :
    (s.setCtx a ctx).userRepo = some ctx.repo := by
  show ((s.task.userCtx.bind (s.setCtx a ctx).ctxs).map UserContext.repo) = _
  rw [ha]
  show ((s.setCtx a ctx).ctxs a).map UserContext.repo = _
  rw [ctxs_setCtx, if_pos rfl]
  rfl

/-- As long as nothing has been imported, the invariant is only about the repositories. -/
theorem Untouched.agreed (h : s.Untouched) (hplace : s.InPlace) : Agreed env s :=
  ⟨hplace, rfl, rfl, fun _ hc => (nomatch h.1.symm.trans hc),
    fun _ hinst => (nomatch (h.2 ▸ hinst)), fun hb => nomatch hb⟩

/-- The same task on the same repositories, where the user is still in the same one or nothing has been
imported. -/
theorem Agreed.congr (h : Agreed env s) (hrepos : s'.repos = s.repos)
    (hcommit : s'.task.commit = s.task.commit) (hinsts : s'.task.instStateRefs = s.task.instStateRefs)
    (huser : s.Untouched ∨ s'.userRepo = s.userRepo) : Agreed env s' := by
  rcases huser with huntouched | huser
  · exact Untouched.agreed ⟨hcommit.trans huntouched.1, hinsts.trans huntouched.2⟩
      (h.inPlace.congr hrepos)
  · refine ⟨h.inPlace.congr hrepos, rfl, rfl, fun c hc => ?_, fun inst hinst => ?_, fun hb => nomatch hb⟩
    · rw [huser]
      exact h.commit c (hcommit ▸ hc)
    · rw [huser]
      exact h.insts inst (hinsts ▸ hinst)

/-- `task->user_ctx->repo = task->repo`, where it may be done. -/
theorem Agreed.assignUserRepo (h : Agreed env s) (hmay : s.MayAssign) :
    Yields Shard.assignUserRepo s (fun _ s' => Agreed env s' ∧ s'.repos = s.repos ∧
      s'.userRepo = some s.task.repo ∧ s'.task = s.task) InPlace := by
  unfold Yields
  rw [run_assignUserRepo]
  cases ha : s.task.userCtx with
  | none => exact h.inPlace
  | some a =>
      dsimp only
      cases s.ctxs a with
      | none => exact h.inPlace
      | some ctx =>
          have huser : (s.setCtx a { ctx with repo := s.task.repo }).userRepo = some s.task.repo :=
            userRepo_setCtx ha _
          refine ⟨h.congr rfl rfl rfl ?_, rfl, huser, rfl⟩
          rcases hmay with huntouched | hsame
          · exact .inl huntouched
          · exact .inr (huser.trans hsame.symm)

theorem Agreed.runSelectRepo (h : Agreed env s) {name : Name} (hname : s.FitsRepoName name) :
    Yields (RepoArea.runSelectRepo name) s (fun _ => Agreed env) InPlace := by
  unfold RepoArea.runSelectRepo
  split
  · exact h.inPlace
  · exact (h.assignUserRepo (hname rfl)).mono (fun _ _ hs => hs.1) fun _ hs => hs
  · exact yields_getUserContext h.inPlace fun ctx _ => h.congr rfl rfl rfl (.inr rfl)

theorem Agreed.repoClause (h : Agreed env s) {clause : RepoClause} (hfits : clause.Fits env s) :
    Yields (RepoArea.parseClause env clause) s (fun _ => Agreed env) InPlace := by
  cases clause with
  | importClass decl =>
      exact yields_getUserContext h.inPlace fun ctx hctx => h.import hctx hfits decl
  | selectClass name clauses =>
      refine yields_getUserContext h.inPlace fun ctx hctx => ?_
      have hu := userRepo_of_userContext hctx
      have hdone := (h.at hfits).kndClassSelect (r := ctx.repo) name fun _ => hu
      exact (Yields.iff_finalState.mpr hdone).mono (fun _ _ hs => hs.agreed) fun _ hs => hs.inPlace
  | snapshot => exact h.yields (stable_setType .snapshot)

/-- **`{repo NAME …}`** where it fits. -/
theorem Agreed.kndParseRepo (h : Agreed env s) {name : Option Name} {clauses : List RepoClause}
    (hfits : FitsRepo env s name clauses) :
    Yields (Shard.kndParseRepo env name clauses) s (fun _ => Agreed env) InPlace := by
  have hname : Yields (name.forM RepoArea.runSelectRepo) s (fun _ => Agreed env) InPlace := by
    cases name with
    | none => exact h
    | some name => exact h.runSelectRepo (hfits.1 name rfl)
  exact hname.then_forM (fun _ _ hs hclause => hs.repoClause hclause) hfits.2

/-- An import that asks for permission first. -/
theorem yields_checkAllowWrite {α : Type} {ctx : UserContext} {x : ShardM α} {I : α → Shard → Prop}
    (hplace : s.InPlace) (hx : Yields x s I InPlace) :
    Yields (UserArea.checkAllowWrite ctx >>= fun _ => x) s I InPlace := by
  unfold UserArea.checkAllowWrite
  cases ctx.acls with
  | none => exact hplace
  | some allow =>
      cases allow with
      | false => exact hplace
      | true => exact hx

theorem Agreed.parseClassSelect (h : Agreed env s) {name : Name} {clauses : List ClassClause}
    (hfits : UserClause.Fits env s (.selectClass name clauses)) :
    Yields (UserArea.parseClassSelect env name clauses) s (fun _ => Agreed env) InPlace := by
  unfold Yields
  rw [UserArea.run_parseClassSelect]
  cases hctx : s.userContext with
  | none => exact h.inPlace
  | some ctx =>
      dsimp only
      have hu := userRepo_of_userContext hctx
      have hat : At env (ClassClause.anyImport clauses) s.userRepo s.task.repo s :=
        h.at fun himport r hr => by
          rw [hu] at hr
          cases hr
          exact (hfits himport ctx hctx).1
      have hdone := hat.kndClassSelect (r := ctx.repo) name fun _ => hu
      cases hrun : (Shard.kndClassSelect env ctx.repo name clauses).run s with
      | ok v s' => exact (finalState_of_ok hrun ▸ hdone).agreed
      | error e s' =>
          have hs' : At env (ClassClause.anyImport clauses) s.userRepo s.task.repo s' :=
            finalState_of_error hrun ▸ hdone
          cases e with
          | abort => exact hs'.inPlace
          | err e =>
              dsimp only
              split_ifs with htype
              · exact hs'.inPlace
              · cases hbase : ctx.baseRepo with
                | none => exact hs'.inPlace
                | some base =>
                    -- the selection is tried again in the base repository: with imports only if that is
                    -- the repository of the user
                    have hsecond := hs'.kndClassSelect (r := base) name fun himport => by
                      rcases (hfits himport ctx hctx).2 with hsame | hcommit
                      · rw [hbase] at hsame
                        rw [hu, Option.some.inj hsame]
                      · exact (htype (hcommit e s' hrun)).elim
                    exact (Yields.iff_finalState.mpr hsecond).mono (fun _ _ hs => hs.agreed)
                      fun _ hs => hs.inPlace

theorem Agreed.parseProcImport (h : Agreed env s) {decl : Decl}
    (hfits : UserClause.Fits env s (.importProc decl)) :
    Yields (UserArea.parseProcImport decl) s (fun _ => Agreed env) InPlace := by
  refine yields_getUserContext h.inPlace fun ctx hctx => yields_checkAllowWrite h.inPlace ?_
  have hset : At env false s.userRepo s.task.repo (s.setTask { s.task with type := .commit }) :=
    At.setTask h rfl rfl rfl rfl
  have hmodify := hset.modifyCommit (f := fun c => if c.origStateId = 0 then
    { c with origStateId := (s.repos s.task.repo).numCommits, origin := s.task.repo } else c)
    fun r c hcommit hu hc => by
      split_ifs with hzero
      · have hsame := hfits c hcommit hzero
        rw [hu] at hsame
        exact ⟨(Option.some.inj hsame).symm, hc.created, hc.children⟩
      · exact hc
  have hdone := (Yields.iff_finalState.mpr hmodify).bind fun _ s' hs' =>
    Yields.of_moves (stable_kndProcImport (r := s.task.repo) decl) hs'
  exact hdone.mono (fun _ _ hs => hs.agreed) fun _ hs => hs.inPlace

theorem Agreed.userClause (h : Agreed env s) {clause : UserClause} (hfits : clause.Fits env s) :
    Yields (UserArea.parseClause env clause) s (fun _ => Agreed env) InPlace := by
  cases clause with
  | repo name clauses => exact h.kndParseRepo hfits
  | importClass decl =>
      exact yields_getUserContext h.inPlace fun ctx hctx =>
        yields_checkAllowWrite h.inPlace (h.import hctx hfits decl)
  | selectClass name clauses => exact h.parseClassSelect hfits
  | importProc decl => exact h.parseProcImport hfits
  | selectProc name clauses =>
      show Yields (kndProcSelect s.task.repo name clauses) s _ _
      exact h.yields (stable_kndProcSelect name hfits)
  | snapshot => exact h.yields (stable_setType .snapshot)

/-- Without a user context nothing has been imported. -/
theorem Agreed.untouched (h : Agreed env s) (hu : s.userRepo = none) : s.Untouched := by
  constructor
  · cases hc : s.task.commit with
    | none => rfl
    | some c =>
        obtain ⟨r, hr, -⟩ := h.commit c hc
        exact nomatch hu.symm.trans hr
  · cases hinsts : s.task.instStateRefs with
    | nil => rfl
    | cons inst insts =>
        have := h.insts inst (by rw [hinsts]; exact List.mem_cons_self ..)
        exact nomatch hu.symm.trans this

/-- Before the first import any user may be selected. -/
theorem stable_runGetUser (env : ShardEnv) (name : Name) :
    Moves (Stable fun s => s.Untouched ∧ s.InPlace) (UserArea.runGetUser env name) := by
  have hset : ∀ (s : Shard) (a : CtxAddr) (ctx : UserContext),
      s.Untouched ∧ s.InPlace → (s.setCtx a ctx).Untouched ∧ (s.setCtx a ctx).InPlace :=
    fun s a ctx h => ⟨h.1, h.2.congr rfl⟩
  have hctx : ∀ a, Moves (Stable fun s => s.Untouched ∧ s.InPlace)
      (modifyTask fun t => { t with userCtx := some a }) := fun a s h => ⟨h.1, h.2.congr rfl⟩
  refine Moves.get_bind fun s => Moves.ite (fun _ => Moves.pure ()) (fun _ => Moves.ite
    (fun _ => Moves.throw _) fun _ => Moves.ite (fun _ => ?_) fun _ => Moves.ite (fun _ => ?_)
      fun _ => Moves.throw _) s
  · exact Moves.bind (Moves.modify fun s h => hset s _ _ h) fun _ => hctx _
  · refine Moves.bind (Moves.ite (fun _ => Moves.pure ()) fun _ => ?_) fun _ => hctx _
    unfold UserArea.buildUserCtx
    cases env.openRepo name with
    | error e => exact Moves.throw _
    | ok v =>
        refine Moves.bind (fun s h => ⟨⟨rfl, rfl⟩, h.2.congr rfl⟩) fun _ => Moves.modify fun s h => ?_
        exact hset s _ _ h

/-- The task before a user is looked for. -/
def withoutUser (s : Shard) : Shard := s.setTask { s.task with userCtx := none, type := .get }

/-- A user in the same repository is selected. -/
theorem Agreed.runGetUser (h : Agreed env s) {name : Name} {r : RepoAddr} (hu : s.userRepo = some r)
    (hsame : s.selectedRepo (some name) = some r) :
    Yields (UserArea.runGetUser env name) s.withoutUser (fun _ => Agreed env) InPlace := by
  have hplace : s.withoutUser.InPlace := h.inPlace.congr rfl
  refine Yields.get_bind (Yields.ite (fun hctx => (hctx rfl).elim) fun _ => Yields.ite
    (fun _ => hplace) fun _ => Yields.ite (fun hname => ?_) fun hname => Yields.ite (fun _ => ?_)
      fun _ => hplace)
  · -- the anonymous user: the base repository
    rw [selectedRepo, if_pos hname] at hsame
    have huser : ∀ ctx : UserContext, ((s.setCtx .anonymous ctx).setTask
        { s.task with userCtx := some .anonymous, type := .get }).userRepo = some ctx.repo := by
      intro ctx
      show ((s.setCtx .anonymous ctx).ctxs .anonymous).map UserContext.repo = _
      rw [ctxs_setCtx, if_pos rfl]
      rfl
    exact h.congr rfl rfl rfl (.inr ((huser _).trans (hsame.trans hu.symm)))
  · -- a user in the cache
    rw [selectedRepo, if_neg hname] at hsame
    have hcached : (s.withoutUser.ctxs (.cached name)).isSome := by
      cases hctx : s.ctxs (.cached name) with
      | none => rw [hctx] at hsame; cases hsame
      | some ctx => exact congrArg Option.isSome hctx
    rw [if_pos hcached]
    exact h.congr rfl rfl rfl (.inr (hsame.trans hu.symm))

/-- **A user is selected**: nothing has been imported yet, or the user is in the same repository. -/
theorem Agreed.selectUser (h : Agreed env s) {name : Option Name}
    (hfits : s.Untouched ∨ s.selectedRepo name = s.userRepo) :
    Yields (Shard.selectUser env name) s (fun _ => Agreed env) InPlace := by
  have hfree : ∀ s : Shard, s.Untouched → s.InPlace →
      Yields (name.forM (UserArea.runGetUser env)) s (fun _ => Agreed env) InPlace := by
    intro s huntouched hplace
    cases name with
    | none => exact huntouched.agreed hplace
    | some name =>
        exact (Yields.of_moves (stable_runGetUser env name) ⟨huntouched, hplace⟩).mono
          (fun _ _ hs => hs.1.agreed hs.2) fun _ hs => hs.2
  show Yields (name.forM (UserArea.runGetUser env)) (s.setTask (if s.task.type = .restore then s.task
    else { s.task with userCtx := none, type := .get })) _ _
  by_cases hrestore : s.task.type = .restore
  · -- a replayed task keeps its user
    rw [if_pos hrestore]
    cases hu : s.userRepo with
    | none => exact hfree _ (h.untouched hu) (h.inPlace.congr rfl)
    | some r =>
        have hctx : s.task.userCtx ≠ none := by
          intro hnone
          have : s.userRepo = none := by
            show (s.task.userCtx.bind s.ctxs).map UserContext.repo = none
            rw [hnone]
            rfl
          exact nomatch this.symm.trans hu
        cases name with
        | none => exact h
        | some name =>
            refine Yields.get_bind (Yields.ite (fun _ => h) fun hnone => ?_)
            exact (hnone hctx).elim
  · rw [if_neg hrestore]
    rcases hfits with huntouched | hsame
    · exact hfree _ huntouched (h.inPlace.congr rfl)
    · cases hu : s.userRepo with
      | none => exact hfree _ (h.untouched hu) (h.inPlace.congr rfl)
      | some r =>
          cases name with
          | none => exact nomatch hsame.trans hu
          | some name => exact h.runGetUser hu (hsame.trans hu)

/-- **`{user NAME …}`** where it fits. -/
theorem Agreed.kndParseSelectUser (h : Agreed env s) {name : Option Name} {clauses : List UserClause}
    (hfits : FitsUser env s name clauses) :
    Yields (Shard.kndParseSelectUser env name clauses) s (fun _ => Agreed env) InPlace :=
  (h.selectUser hfits.1).then_forM (fun _ _ hs hclause => hs.userClause hclause) hfits.2

/-- **A clause of a task** where it fits. -/
theorem Agreed.taskClause (h : Agreed env s) {clause : TaskClause} (hfits : clause.Fits env s) :
    Yields (TaskArea.parseClause env clause) s (fun _ => Agreed env) InPlace := by
  cases clause with
  | createUser decl =>
      show Yields (do
        Shard.ensureCommit s.task.repo
        kndImportClassInst s.userClass decl
        Shard.kndClassCommitState s.userClass .selected : ShardM Unit) s _ _
      obtain ⟨hu, hnew⟩ := hfits
      have hat : At env false (some s.userClass.repo) s.task.repo s := hu ▸ h
      have hcommit := hat.ensureCommit (r := s.task.repo) fun hcommit => by rw [← hu, hnew hcommit]
      have hdone := (Yields.iff_finalState.mpr hcommit).bind fun _ s₁ hs₁ =>
        (Yields.of_moves (stable_kndImportClassInst s.userClass decl) hs₁).bind fun _ _ hs₂ =>
          Yields.of_moves (stable_selected s.userClass) hs₂
      exact hdone.mono (fun _ _ hs => hs.agreed) fun _ hs => hs.inPlace
  | user name clauses => exact h.kndParseSelectUser hfits
  | importClass decl =>
      have hat : At env false (some s.task.repo) s.task.repo s := hfits ▸ h
      have hdone := hat.import (fun _ => rfl) decl
      exact (Yields.iff_finalState.mpr hdone).mono (fun _ _ hs => hs.agreed) fun _ hs => hs.inPlace
  | selectClass name clauses =>
      refine (h.assignUserRepo hfits.1).bind fun _ s₁ hs₁ => ?_
      obtain ⟨hagreed, hrepos, hu, htask⟩ := hs₁
      show Yields (Shard.kndClassSelect env s₁.task.repo name clauses) s₁ _ _
      rw [htask]
      have hat : At env (ClassClause.anyImport clauses) s₁.userRepo s₁.task.repo s₁ :=
        hagreed.at fun himport r hr => by
          rw [hu] at hr
          cases hr
          rw [Restored, hrepos]
          exact hfits.2 himport
      have hdone := hat.kndClassSelect (r := s.task.repo) name fun _ => hu
      exact (Yields.iff_finalState.mpr hdone).mono (fun _ _ hs => hs.agreed) fun _ hs => hs.inPlace
  | importProc decl =>
      show Yields (do
        Shard.ensureCommit s.task.repo
        kndProcImport s.task.repo decl : ShardM Unit) (s.setTask { s.task with type := .commit }) _ _
      have hset : At env false s.userRepo s.task.repo (s.setTask { s.task with type := .commit }) :=
        At.setTask h rfl rfl rfl rfl
      have hdone := (Yields.iff_finalState.mpr (hset.ensureCommit hfits)).bind fun _ s₁ hs₁ =>
        Yields.of_moves (stable_kndProcImport (r := s.task.repo) decl) hs₁
      exact hdone.mono (fun _ _ hs => hs.agreed) fun _ hs => hs.inPlace
  | selectProc name clauses =>
      show Yields (kndProcSelect s.task.repo name clauses) s _ _
      exact h.yields (stable_kndProcSelect name hfits)
  | repo name clauses => exact h.kndParseRepo hfits
  | update name clauses =>
      show Yields (Shard.kndParseSelectUser env name clauses) (s.setTask { s.task with type := .liquid }) _ _
      have hset : At env false s.userRepo s.task.repo (s.setTask { s.task with type := .liquid }) :=
        At.setTask h rfl rfl rfl rfl
      exact hset.agreed.kndParseSelectUser hfits
  | snapshot => exact h.yields (stable_setType .snapshot)

/-! ## (6) The confirmation -/

/-- The created classes among the states of a commit are in the index of repository `r`. -/
def Indexed (s : Shard) (r : RepoAddr) (states : List EntryState) : Prop :=
  ∀ state ∈ states, state.phase = .created →
    (kndSharedDictGet (s.repos r).classNameIdx state.entry.name).isSome

/-- No class is lost from an index. -/
def Grows (s s' : Shard) : Prop :=
  ∀ r name, (kndSharedDictGet (s.repos r).classNameIdx name).isSome →
    (kndSharedDictGet (s'.repos r).classNameIdx name).isSome

/-- The state while the indices are updated from the state `s₀` on: the user is in repository `r`. -/
structure Confirming (r : RepoAddr) (s₀ s : Shard) : Prop where
  inPlace : s.InPlace
  userRepo : s.userRepo = some r
  grows : s₀.Grows s

theorem Grows.refl (s : Shard) : s.Grows s := fun _ _ h => h

theorem Grows.trans {s₁ s₂ : Shard} (h : s.Grows s₁) (h' : s₁.Grows s₂) : s.Grows s₂ :=
  fun r name hname => h' r name (h r name hname)

/-- Registering a class adds its name to the index and loses none. -/
theorem Confirming.registerClass {s₀ : Shard} (h : Confirming r s₀ s) {entry : RepoEntry}
    (hr : entry.repo = r) :
    Yields (Shard.registerClass r entry) s (fun _ s' => Confirming r s₀ s' ∧
      (kndSharedDictGet (s'.repos r).classNameIdx entry.name).isSome) InPlace := by
  have hplace := h.inPlace.registerClass hr
  refine Yields.intro (fun v s' hrun => ?_) fun e s' hrun => finalState_of_error hrun ▸ hplace
  rcases registerClass_cases r entry s with ⟨e, pool, herror⟩ | ⟨pool, dict, hok, hget⟩
  · exact nomatch herror.symm.trans hrun
  · cases hok.symm.trans hrun
    rw [finalState_of_ok hok] at hplace
    have hrepo : ∀ name, (kndSharedDictGet (((setPool pool s).setRepo r
        { s.repos r with classNameIdx := dict }).repos r).classNameIdx name)
          = if name = entry.name then some entry else kndSharedDictGet (s.repos r).classNameIdx name := by
      intro name
      rw [repos_setRepo, if_pos rfl]
      exact hget name
    have hgrows : s.Grows ((setPool pool s).setRepo r { s.repos r with classNameIdx := dict }) := by
      intro q name hname
      by_cases hq : q = r
      · subst hq
        rw [hrepo]
        split_ifs
        · rfl
        · exact hname
      · rw [repos_setRepo, if_neg hq]
        exact hname
    refine ⟨⟨hplace, h.userRepo, h.grows.trans hgrows⟩, ?_⟩
    rw [hrepo, if_pos rfl]
    rfl

/-- The states of a commit that are in place are taken into the indices of its repository. -/
theorem Confirming.updateClassIndices {s₀ : Shard} (h : Confirming r s₀ s) {state : EntryState}
    (hstate : state.phase = .created → state.entry.repo = r) :
    Yields (Shard.updateClassIndices r state) s (fun _ s' => Confirming r s₀ s' ∧
      s'.Indexed r [state]) InPlace := by
  have hsingle : ∀ s' : Shard, (state.phase = .created →
      (kndSharedDictGet (s'.repos r).classNameIdx state.entry.name).isSome) → s'.Indexed r [state] := by
    intro s' hs' state' hmem
    rw [List.mem_singleton.mp hmem]
    exact hs'
  unfold Shard.updateClassIndices
  cases hphase : state.phase with
  | created =>
      refine yields_getUserContext h.inPlace fun ctx hctx => ?_
      have hr : ctx.repo = r := Option.some.inj ((userRepo_of_userContext hctx).symm.trans h.userRepo)
      rw [hr]
      exact (h.registerClass (hstate hphase)).mono (fun _ _ hs => ⟨hs.1, hsingle _ fun _ => hs.2⟩)
        fun _ hs => hs
  | selected =>
      refine Yields.ite (fun _ => ?_) fun _ => ⟨h, hsingle _ fun hc => nomatch hphase.symm.trans hc⟩
      refine Yields.get_bind ?_
      have hinsts : ∀ s₁, Confirming r s₀ s₁ → Yields
          (modify fun s => { s with insts := state.children ++ s.insts } : ShardM Unit) s₁
          (fun _ s' => Confirming r s₀ s' ∧ s'.Indexed r [state]) InPlace := fun s₁ hs₁ =>
        ⟨⟨hs₁.inPlace.congr rfl, hs₁.userRepo, hs₁.grows⟩,
          hsingle _ fun hc => nomatch hphase.symm.trans hc⟩
      cases kndSharedDictGet (s.repos r).classNameIdx state.entry.name with
      | some entry => exact hinsts s h
      | none =>
          dsimp only
          split_ifs with hrepo
          · exact h.inPlace
          · -- the class is copied into the repository
            refine Yields.bind (I := fun _ s' => Confirming r s₀ s') ?_ fun _ s₁ hs₁ => hinsts s₁ hs₁
            exact (h.registerClass rfl).bind fun _ s₁ hs₁ => hs₁.1
  | updated => exact ⟨h, hsingle _ fun hc => nomatch hphase.symm.trans hc⟩
  | removed => exact ⟨h, hsingle _ fun hc => nomatch hphase.symm.trans hc⟩

/-- The class states of a commit. -/
theorem Confirming.updateClasses {a : Shard} (h : Confirming r a s) {states : List EntryState}
    (hstates : ∀ state ∈ states, state.phase = .created → state.entry.repo = r) :
    Yields (states.forM (Shard.updateClassIndices r)) s (fun _ s' => Confirming r a s' ∧
      s'.Indexed r states) InPlace := by
  induction states generalizing a s with
  | nil => exact ⟨h, fun state hmem => nomatch hmem⟩
  | cons state states ih =>
      refine (h.updateClassIndices (hstates state (List.mem_cons_self ..))).bind fun _ s₁ hs₁ => ?_
      -- what the first state has added is still there in the end
      have hrest := ih (a := s₁) ⟨hs₁.1.inPlace, hs₁.1.userRepo, .refl s₁⟩ fun state' hmem =>
        hstates state' (List.mem_cons_of_mem state hmem)
      refine hrest.mono (fun _ s' hs' => ⟨⟨hs'.1.inPlace, hs'.1.userRepo, hs₁.1.grows.trans hs'.1.grows⟩,
        fun state' hmem hphase => ?_⟩) fun _ hs' => hs'
      rcases List.mem_cons.mp hmem with rfl | hmem
      · exact hs'.1.grows r _ (hs₁.2 state' (List.mem_singleton.mpr rfl) hphase)
      · exact hs'.2 state' hmem hphase

/-- The state when the class states are done. -/
structure Updated (r : RepoAddr) (states : List EntryState) (s : Shard) : Prop where
  inPlace : s.InPlace
  indexed : s.Indexed r states

/-- Another index of procs. -/
theorem Updated.setProcs {states : List EntryState} (h : Updated r states s) (q : RepoAddr)
    (dict : SharedDict RepoEntry) : Updated r states (s.setRepo q { s.repos q with procNameIdx := dict }) where
  inPlace := h.inPlace.setRepo (h.inPlace.classes q) (h.inPlace.commits q) (h.inPlace.journal q)
    (h.inPlace.indexed q)
  indexed state hstate hphase := by
    rw [repos_setRepo]
    split_ifs with hq
    · rw [← hq]
      exact h.indexed state hstate hphase
    · exact h.indexed state hstate hphase

theorem stable_updateProcIndices (q : RepoAddr) (state : EntryState) {states : List EntryState} :
    Moves (Stable (Updated r states)) (updateProcIndices q state) := by
  have hregister : Moves (Stable (Updated r states)) (registerProc q state.entry) := by
    intro s h
    rw [finalState, run_registerProc]
    cases kndSharedDictSet (s.repos q).procNameIdx s.pool state.entry.name state.entry
        (s.task.commit.map fun _ => 0) false with
    | mk result pool =>
        have hpool : Updated r states (setPool pool s) := ⟨h.inPlace.congr rfl, h.indexed⟩
        cases result with
        | error e => exact hpool
        | ok pair => exact hpool.setProcs q pair.2
  have hremove : Moves (Stable (Updated r states)) (removeProcName q state.entry.name) := by
    intro s h
    rw [finalState, run_removeProcName]
    cases (s.repos q).procNameIdx.item? state.entry.name with
    | none => exact h
    | some item => exact h.setProcs q _
  unfold updateProcIndices
  cases state.phase with
  | created | selected => exact hregister
  | updated => exact Moves.pure ()
  | removed => exact hremove

/-- The commit becomes the head of the snapshot and is written to a journal. -/
theorem Updated.publish {c : TaskCommit} (h : Updated r c.classStates s) (hc : c.InPlace r) :
    (finalState (checkCommitConflicts r c >>= buildCommitWAL r : ShardM Unit) s).InPlace := by
  have hnumbered : ∀ n, ({ c with numid := n } : TaskCommit).InPlace r := fun _ =>
    ⟨hc.origin, hc.created, hc.children⟩
  have hpushed : (finalState (checkCommitConflicts r c) s).InPlace := by
    refine h.inPlace.setRepo (h.inPlace.classes r) (fun d hd => ?_) (h.inPlace.journal r)
      fun d hd state hstate hphase => ?_
    · rcases List.mem_cons.mp hd with rfl | hold
      · exact hnumbered _
      · exact h.inPlace.commits r d hold
    · rcases List.mem_cons.mp hd with rfl | hold
      · exact h.indexed state hstate hphase
      · exact h.inPlace.indexed r d hold state hstate hphase
  refine InPlace.setRepo hpushed (hpushed.classes r) (hpushed.commits r) (fun d hd => ?_)
    (hpushed.indexed r)
  rcases List.mem_cons.mp hd with rfl | hold
  · exact hnumbered _
  · exact hpushed.journal r d hold

/-- An ARBITER confirms a commit that is in place in the repository of the user. -/
theorem InPlace.confirmAsArbiter (h : s.InPlace) (hu : s.userRepo = some r) {c : TaskCommit}
    (hc : c.InPlace r) : (finalState (Shard.confirmAsArbiter r c) s).InPlace := by
  have hclasses := Confirming.updateClasses (a := s) ⟨h, hu, .refl s⟩ hc.created
  have hupdated : Yields (updateIndices r c) s (fun _ => Updated r c.classStates) InPlace :=
    hclasses.bind fun _ s₁ hs₁ =>
      (Yields.of_moves (Moves.forM fun state _ => stable_updateProcIndices r state)
        ⟨hs₁.1.inPlace, hs₁.2⟩).mono (fun _ _ hs => hs) fun _ hs => hs.inPlace
  exact Yields.iff_finalState.mp (hupdated.bind fun _ s₁ hs₁ =>
    Yields.iff_finalState.mpr (hs₁.publish hc))

/-- **The confirmation** of a commit that is in place in the repository of the user. -/
theorem Agreed.kndConfirmCommit (h : Agreed env s) (hu : s.userRepo = some r) :
    (finalState (Shard.kndConfirmCommit env r) s).InPlace := by
  cases hcommit : s.task.commit with
  | none =>
      rw [finalState_of_error (kndConfirmCommit_of_none hcommit)]
      exact h.inPlace
  | some c =>
      obtain ⟨q, hq, hc⟩ := h.commit c hcommit
      cases hu.symm.trans hq
      have hnote : (s.noteConfirm r c).InPlace := h.inPlace.congr rfl
      rw [finalState, kndConfirmCommit_of_some hcommit, ← finalState]
      cases env.resolve c with
      | error e => exact hnote
      | ok v =>
          cases s.task.role with
          | arbiter => exact hnote.confirmAsArbiter hu hc
          | reader | writer => exact hnote

theorem inPlace_small (allowWrite : Bool) : (small allowWrite).InPlace where
  classes _ _ _ h := nomatch h
  commits _ _ h := nomatch h
  journal _ _ h := nomatch h
  indexed _ _ h := nomatch h

/-! ## (7) Runs of tasks -/

/-- **The clauses of a task fit**, each in the state it is handled in. -/
def FitsTask (env : ShardEnv) (s : Shard) (body : List TaskClause) : Prop :=
  EachMeets (TaskArea.parseClause env) (TaskClause.Fits env) s.start body

/-- A task whose clauses fit. -/
theorem InPlace.step (h : s.InPlace) {body : List TaskClause} (hfits : FitsTask env s body) :
    (Shard.step env s body).InPlace := by
  have hstart : Agreed env s.start := Untouched.agreed ⟨rfl, rfl⟩ (h.congr rfl)
  have hclauses := forM_yields (fun _ _ hs hclause => Agreed.taskClause hs hclause) hstart hfits
  have hstep : Shard.step env s body = finalState (Shard.kndParseTask env body) s.start := rfl
  rw [hstep]
  refine Yields.iff_finalState.mp (hclauses.bind fun _ s₁ hs₁ => Yields.get_bind ?_)
  cases s₁.task.type with
  | commit =>
      exact yields_getUserContext hs₁.inPlace fun ctx hctx =>
        Yields.iff_finalState.mpr (hs₁.kndConfirmCommit (userRepo_of_userContext hctx))
  | get | select | liquid | snapshot | restore => exact hs₁.inPlace

end Shard

/-- **A commit is confirmed in the repository it was imported into**: in a run of tasks whose clauses all
fit, the class name index of a repository holds its own classes, and its snapshot and its journals hold
commits whose `orig_state_id`, classes and instances are its own. -/
theorem inPlace_of_reaches (env : ShardEnv) {s₀ s : Shard} (h₀ : s₀.InPlace)
    (h : Reaches (Shard.step env) (Shard.FitsTask env) s₀ s) : s.InPlace :=
  h.invariant h₀ fun _ _ hs hbody => hs.step hbody

/-- An instance in the repository of the anonymous user, and then one in the system repository. -/
theorem inPlace_of_reaches_two :
    (Shard.step .plain (Shard.step .plain (Shard.small true)
      [.user (some [95]) [.selectClass [47] [.importInst ⟨[97], none⟩]]])
      [.selectClass [47] [.importInst ⟨[98], none⟩]]).InPlace := by
  refine inPlace_of_reaches .plain (Shard.inPlace_small true) (.next (.next .refl ?_) ?_)
  · refine ⟨⟨.inl ⟨rfl, rfl⟩, fun s' hrun => ?_⟩, ?_⟩
    · cases hrun
      refine ⟨fun _ ctx hctx => ?_, ?_⟩
      · cases hctx
        exact ⟨.inr rfl, .inl rfl⟩
      · split <;> trivial
    · split <;> trivial
  · refine ⟨⟨.inl ⟨rfl, rfl⟩, fun _ => .inr rfl⟩, ?_⟩
    split <;> trivial

/-- `{task {!class A}}`: the class is created in the system repository, from which `orig_state_id` is taken,
and the commit ends up in the snapshot and the journal of the base repository of the users. -/
theorem inPlace_lost : ¬∀ (env : ShardEnv) (s₀ s : Shard), s₀.InPlace →
    Reaches (Shard.step env) (fun _ _ => True) s₀ s → s.InPlace := by
  intro h
  have hplace := h .plain _ _ (Shard.inPlace_small true)
    (.next .refl trivial (e := [.importClass ⟨[65], none⟩]))
  have hjournal : ((Shard.step .plain (Shard.small true) [.importClass ⟨[65], none⟩]).repos .users).journal
      = [{ origStateId := 0, origin := .system, classStates := [⟨⟨.system, [65]⟩, .created, []⟩] }] := by
    decide +kernel
  have horigin := (hplace.journal .users _ (by rw [hjournal]; exact List.mem_cons_self ..)).origin
  exact nomatch horigin

end Knowdy
