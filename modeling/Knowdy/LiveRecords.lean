import Knowdy.LiveTask
import Knowdy.RecordReplays

/-! # What a live task leaves in its journal

A live task of an ARBITER registers the commit that its clauses have built, and the record of this commit is the last
thing it writes.

* `Indices.Survives` — the classes and the names of the instances that were there are there after the task.
* `exported` — what the record of a commit is made of; the steps after the registration keep it.
* `Writes body r` — **the record `r` is that of the commit of a task with the clauses `body`**;
  `kndParseTask_writes` — a task writes it exactly when it returns with a commit.
* `Indices.Knows` — the indices know the classes and the named instances of the records; `Writes.recorded`,
  `Writes.replayable`, `Writes.knows` — what a new record adds. -/

namespace Knowdy

variable {τ : Type}

/-! ## (1) What survives a task -/

/-- **What was there survives**: the classes under their names, and the names of the instances. -/
structure Indices.Survives (idx idx' : Indices τ) : Prop where
  /-- The classes can be found. -/
  named : idx'.Named
  /-- A name stays bound to its class. -/
  bound : ∀ name a, idx.classByName name = some a → idx'.classByName name = some a
  /-- A name that is taken remains so. -/
  taken : ∀ a < idx.nextClass, ∀ name, idx.NameTaken a name → idx'.NameTaken a name

/-- The clauses of a task. -/
theorem Indices.Parses.survives {idx idx' : Indices τ} (h : idx.Parses idx') (hn : idx.Named) : idx.Survives idx' where
  named := h.named hn
  bound name a ha := by rw [h.classByName_eq, ha]
  taken a ha name := (h.nameTaken_iff ha name).mpr

/-- The clauses of a task and the registration of its commit, however it ends. -/
theorem Drafted.survives {s₀ s : Sys τ} {body : List TaskItem} {idx' : Indices τ} (h : Drafted s₀ s body)
    (hn : s₀.idx.Named) (hbinds : s.idx.Binds s.refs idx') (hroot : [47] ∉ createdNames body) :
    s₀.idx.Survives idx' where
  named := h.named hn hbinds hroot
  bound _ _ := h.bound hbinds
  taken a ha name ht := hbinds.taken a name ((h.parsing.idx.nameTaken_iff ha name).mpr ht)

/-! ## (2) What a record is made of -/

/-- **What the record of a commit is made of**: the names of the classes, the name of the repository and the class
states of the commits; with the task and the records so far. -/
def exported (s : Sys τ) : Indices τ × Name × Task × (CommitAddr → List ClassStateRef) × List WalRecord :=
  (s.idx, s.name, s.task, fun d => (s.ledger.commits d).classStateRefs, s.disk.written)

theorem exported_eq {s s' : Sys τ} (h : exported s' = exported s) : s'.idx = s.idx ∧ s'.name = s.name ∧
    s'.task = s.task ∧ (∀ c, exportedBody s' c = exportedBody s c) ∧ s'.disk.written = s.disk.written := by
  have hidx : s'.idx = s.idx := congrArg Prod.fst h
  refine ⟨hidx, congrArg (fun p => p.2.1) h, congrArg (fun p => p.2.2.1) h, fun c => ?_,
    congrArg (fun p => p.2.2.2.2) h⟩
  have hrefs : (s'.ledger.commits c).classStateRefs = (s.ledger.commits c).classStateRefs :=
    congrFun (congrArg (fun p => p.2.2.2.1) h) c
  rw [exportedBody, exportedBody, hrefs, hidx]

/-- A change of a commit that keeps its class states. -/
theorem kept_exported_modifyCommit (c : CommitAddr) {f : Commit → Commit}
    (hf : ∀ commit, (f commit).classStateRefs = commit.classStateRefs) :
    Moves (Kept exported) (modifyCommit c f : SysM τ Unit) := by
  intro s
  have hrefs : (fun d => (Function.update s.ledger.commits c (f (s.ledger.commits c)) d).classStateRefs)
      = fun d => (s.ledger.commits d).classStateRefs := by
    funext d
    by_cases hd : d = c
    · rw [hd, Function.update_self, hf]
    · rw [Function.update_of_ne hd]
  show (s.idx, s.name, s.task,
    fun d => (Function.update s.ledger.commits c (f (s.ledger.commits c)) d).classStateRefs, s.disk.written) = _
  rw [hrefs]
  rfl

theorem kept_exported_modifySnapshot (f : Snapshot → Snapshot) :
    Moves (Kept exported) (modifySnapshot f : SysM τ Unit) := fun _ => rfl

/-- A program over the files that writes no record. -/
theorem kept_exported_onDisk {α : Type} {x : DiskM α} (hx : Moves (Kept Disk.written) x) :
    Moves (Kept exported) (onDisk x : SysM τ α) := by
  intro s
  have hwritten : (finalState x s.disk).written = s.disk.written := hx s.disk
  rw [onDisk, finalState_zoom]
  show (s.idx, s.name, s.task, _, (finalState x s.disk).written) = _
  rw [hwritten]
  rfl

/-- **The conflict check.** -/
theorem kept_exported_checkCommitConflicts (c : CommitAddr) :
    Moves (Kept exported) (checkCommitConflicts c : SysM τ Unit) := by
  have hlink : Moves (Kept exported) (linkToHead c : SysM τ Unit) := by
    refine .bind .get fun s => ?_
    cases s.snapshot.commits with
    | none => exact .pure _
    | some head => exact kept_exported_modifyCommit c fun _ => rfl
  have hfail : Moves (Kept exported) (do
      modifyCommit c fun commit => { commit with confirm := .conflict }
      throw (.err .fail) : SysM τ Unit) := .bind (kept_exported_modifyCommit c fun _ => rfl) fun _ => .throw _
  have hstate : ∀ d, Moves (Kept exported) (checkState c d : SysM τ Unit) := by
    intro d
    refine .bind .get fun s => .ite (fun _ => .pure _) fun _ => ?_
    cases (s.ledger.commits d).confirm with
    | valid => exact hfail
    | persistent => exact hfail
    | init => exact .pure _
    | failed => exact .pure _
    | conflict => exact .pure _
    | replicated => exact .pure _
  have hcheck : Moves (Kept exported) (checkClassConflicts c : SysM τ Unit) := by
    refine .bind .get fun s => .forM fun ref _ => ?_
    unfold checkClassState
    cases ref.phase with
    | selected => exact .pure _
    | created => exact .bind .get fun s => .forM fun d _ => hstate d
  exact .bind hlink fun _ => .bind hcheck fun _ => .bind (kept_exported_modifySnapshot _) fun _ =>
    .bind (kept_exported_modifyCommit c fun _ => rfl) fun _ => kept_exported_modifySnapshot _

/-- **The search for the journal.** -/
theorem kept_exported_prepareJournal : Moves (Kept exported) (prepareJournal : SysM τ Unit) := by
  have hwrite : ∀ f : Disk → Disk, (∀ d, (f d).written = d.written) → Moves (Kept Disk.written) (diskWrite f) := by
    intro f hf d
    rcases diskWrite_cases f d with ⟨e, herr⟩ | hdone
    · rw [finalState_of_error herr]
      rfl
    · rw [finalState_of_ok hdone]
      exact hf d
  have hpath : ∀ path agent, Moves (Kept Disk.written) (kndMkpath path agent) := by
    intro path agent d
    have hrun : (kndMkpath path agent).run d = if d.agentDirs path agent then .ok () d
      else (diskWrite fun d => d.addAgentDir path agent).run d := rfl
    rw [finalState, hrun]
    by_cases hdir : d.agentDirs path agent = true
    · rw [if_pos hdir]
      rfl
    · rw [if_neg hdir]
      exact hwrite (fun d => d.addAgentDir path agent) (fun _ => rfl) d
  have hname : Moves (Kept exported) (buildJournalFilename : SysM τ Nat) :=
    .bind .get fun _ => .bind (kept_exported_onDisk (hpath _ _)) fun _ => .ite (fun _ => .throw _) fun _ => .pure _
  have hinit : Moves (Kept exported) (initCurrentJournal : SysM τ Unit) :=
    .bind .get fun _ => kept_exported_onDisk (hwrite _ fun _ => rfl)
  have hswitch : Moves (Kept exported) (switchJournal : SysM τ Unit) :=
    .bind .get fun _ => kept_exported_modifySnapshot _
  -- a journal that is full is closed, and the name of the next one is made
  refine .bind hname fun _ => .bind .get fun s => ?_
  cases currentJournal s with
  | none => exact hinit
  | some j => exact .ite (fun _ => .bind hswitch fun _ => .bind hname fun _ => hinit) fun _ => .pure _

/-- **The journal entry** of an ARBITER fails without a record, or appends the record of the class states of the
commit. -/
theorem buildCommitWAL_written {c : CommitAddr} {s : Sys τ} (hrole : s.task.role = .arbiter) :
    (∃ e s', (buildCommitWAL c).run s = .error e s' ∧ exported s' = exported s) ∨
    ∃ s', (buildCommitWAL c).run s = .ok () s' ∧ s'.idx = s.idx ∧ s'.name = s.name ∧
      s'.task = s.task ∧ ∃ r : WalRecord, r.body = exportedBody s c ∧
        r.size = exportSize s.name r.body ∧ r.size < largeBufSize ∧ s'.disk.written = s.disk.written ++ [r] := by
  set s₁ := finalState (modifyCommit c fun commit => { commit with timestamp := s.now }) s with hs₁
  have hkept₁ : exported s₁ = exported s :=
    @kept_exported_modifyCommit τ c (fun commit => { commit with timestamp := s.now }) (fun _ => rfl) s
  have hrun : (buildCommitWAL c).run s = (prepareJournal >>= fun _ => appendWalRec c : SysM τ Unit).run s₁ := rfl
  rw [hrun]
  -- the time stamp is no part of the record's body
  cases hprepare : prepareJournal.run s₁ with
  | error e s₂ =>
      exact .inl ⟨e, s₂, run_bind_of_error hprepare, (kept_exported_prepareJournal.of_error hprepare).trans hkept₁⟩
  | ok u s₂ =>
      have hkept₂ : exported s₂ = exported s := (kept_exported_prepareJournal.of_ok hprepare).trans hkept₁
      obtain ⟨hidx, hname, htask, hbody, hwritten⟩ := exported_eq hkept₂
      rw [run_bind_of_ok hprepare]
      rcases appendWalRec_cases c (show s₂.task.role = .arbiter by rw [htask, hrole]) with ⟨e, herr⟩ | ⟨hok, hfits⟩
      · exact .inl ⟨e, s₂, herr, hkept₂⟩
      · refine .inr ⟨_, hok, hidx, hname, htask, walRecord s₂ c (exportedBody s₂ c), hbody c, ?_, hfits, ?_⟩
        · rw [← hname]
          rfl
        · rw [← hwritten]
          rfl

/-! ## (3) The record of a task -/

/-- Does the run confirm a commit in an ARBITER? -/
def confirms (x : SysM τ Unit) (s : Sys τ) : Bool :=
  returns x s && (finalState x s).task.type = .commit && (finalState x s).task.role = .arbiter

theorem confirms_iff {x : SysM τ Unit} {s : Sys τ} : confirms x s = true ↔
    returns x s = true ∧ (finalState x s).task.type = .commit ∧ (finalState x s).task.role = .arbiter := by
  rw [confirms, Bool.and_eq_true, Bool.and_eq_true, decide_eq_true_iff, decide_eq_true_iff, and_assoc]

theorem confirms_of_error {x : SysM τ Unit} {s s' : Sys τ} {e : Stop} (h : x.run s = .error e s') :
    confirms x s = false := by
  rw [confirms, returns, h]
  rfl

section Task

variable [AttrVarOps τ]

/-- **The record `r` is that of a task** with the clauses `body`, which came to the state `s₁` with them: it holds the
class states of the commit, and these were registered before. -/
structure Writes (body : List TaskItem) (s s₁ s' : Sys τ) (r : WalRecord) : Prop where
  /-- The clauses. -/
  drafted : Drafted s s₁ body
  /-- The body of the record. -/
  record : r.body = s₁.record
  /-- Its size. -/
  sizes : r.size = exportSize s.name r.body ∧ r.size < largeBufSize
  /-- The registration of the classes. -/
  binds : s₁.idx.Binds s₁.refs s'.idx
  /-- The registration of the instances. -/
  names : s₁.idx.NamesNew (s₁.refs.flatMap ClassStateRef.children) s'.idx
  /-- The classes are found by their names. -/
  found : ∀ ref ∈ s₁.refs, ref.phase = .created ∨ ref.children ≠ [] →
    s'.idx.classByName (s₁.idx.classes ref.entry).name ≠ none
  /-- It is the last one. -/
  written : s'.disk.written = s.disk.written ++ [r]

omit [AttrVarOps τ] in
/-- The class states of a task can be registered instance by instance. -/
theorem Drafted.tidy {s₀ s : Sys τ} {body : List TaskItem} (h : Drafted s₀ s body) (hlists : ListsOnce body) :
    ∀ ref ∈ s.refs, ref.Tidy := fun ref href =>
  ⟨fun hphase => (h.created ref href hphase).1, (h.children hlists).2 ref href⟩

/-- **The confirmation of an ARBITER** after the commit was resolved: it fails without a record, or writes the record of
the task. -/
theorem confirmAs_writes {s s₁ s₂ : Sys τ} {body : List TaskItem} {c : CommitAddr} (hn : s.idx.Named)
    (hd : Drafted s s₁ body) (hcommit : s₁.task.commit = some c) (hroot : [47] ∉ createdNames body)
    (hlists : ListsOnce body) (hrole : s₂.task.role = .arbiter) (hkept : exported s₂ = exported s₁)
    (hdisk : s₁.disk = s.disk) :
    ∃ s', ((∃ e, (confirmAs .arbiter c).run s₂ = .error e s') ∧ s'.disk.written = s.disk.written ∨
        (confirmAs .arbiter c).run s₂ = .ok () s' ∧ ∃ r, Writes body s s₁ s' r) ∧
      s.idx.Survives s'.idx ∧ s'.name = s.name ∧ s'.task = s₂.task := by
  obtain ⟨hidx, hname, -, hbody, hwritten⟩ := exported_eq hkept
  have hname₀ : s₂.name = s.name := hname.trans hd.parsing.name
  have hwritten₀ : s₂.disk.written = s.disk.written := by rw [hwritten, hdisk]
  have hrefs : (s₂.ledger.commits c).classStateRefs = s₁.refs := by
    rw [Sys.refs_of_commit hcommit]
    exact congrFun (congrArg (fun p => p.2.2.2.1) hkept) c
  have hunfold : (confirmAs .arbiter c).run s₂ = (updateCommitIndices c >>= fun _ =>
      (checkCommitConflicts c >>= fun _ => buildCommitWAL c) : SysM τ Unit).run s₂ := rfl
  have hupdates : (updateCommitIndices c).run s₂ = (onIdx (updateIndices c s₁.refs)).run s₂ := by
    rw [← hrefs]
    rfl
  have hbinds := binds_updateIndices c s₁.refs s₁.idx
  rw [hunfold]
  -- the steps one after the other; each that fails leaves no record
  cases hupdate : (updateIndices c s₁.refs).run s₁.idx with
  | error e idx' =>
      rw [finalState_of_error hupdate] at hbinds
      have hstop : (updateCommitIndices c).run s₂ = .error e (s₂.setIdx idx') :=
        hupdates.trans (run_zoom_eq_error.mpr ⟨idx', by rw [hidx]; exact hupdate, rfl⟩)
      exact ⟨s₂.setIdx idx', .inl ⟨⟨e, run_bind_of_error hstop⟩, hwritten₀⟩, hd.survives hn hbinds hroot, hname₀, rfl⟩
  | ok u idx' =>
      rw [finalState_of_ok hupdate] at hbinds
      have hgo : (updateCommitIndices c).run s₂ = .ok () (s₂.setIdx idx') :=
        hupdates.trans (run_zoom_eq_ok.mpr ⟨idx', by rw [hidx]; exact hupdate, rfl⟩)
      have hsurvives := hd.survives hn hbinds hroot
      obtain ⟨hnames, hfound⟩ := updateIndices_ok (hd.tidy hlists) hupdate
      rw [run_bind_of_ok hgo]
      cases hcheck : (checkCommitConflicts c).run (s₂.setIdx idx') with
      | error e s₃ =>
          have hkept₃ := (kept_exported_checkCommitConflicts c).of_error hcheck
          obtain ⟨hidx₃, hname₃, htask₃, -, hwritten₃⟩ := exported_eq hkept₃
          refine ⟨s₃, .inl ⟨⟨e, run_bind_of_error hcheck⟩, hwritten₃.trans hwritten₀⟩, ?_, hname₃.trans hname₀,
            htask₃⟩
          rw [hidx₃]
          exact hsurvives
      | ok u s₃ =>
          have hkept₃ := (kept_exported_checkCommitConflicts c).of_ok hcheck
          obtain ⟨hidx₃, hname₃, htask₃, hbody₃, hwritten₃⟩ := exported_eq hkept₃
          have hsurvives₃ : s.idx.Survives s₃.idx := by rw [hidx₃]; exact hsurvives
          rw [run_bind_of_ok hcheck]
          rcases buildCommitWAL_written (show s₃.task.role = .arbiter by rw [htask₃]; exact hrole) with
            ⟨e, s₄, herr, hkept₄⟩ | ⟨s₄, hok, hidx₄, hname₄, htask₄, r, hr, hsize, hfits, hmore⟩
          · obtain ⟨hidx₄, hname₄, htask₄, -, hwritten₄⟩ := exported_eq hkept₄
            refine ⟨s₄, .inl ⟨⟨e, herr⟩, hwritten₄.trans (hwritten₃.trans hwritten₀)⟩, ?_,
              hname₄.trans (hname₃.trans hname₀), htask₄.trans htask₃⟩
            rw [hidx₄]
            exact hsurvives₃
          · -- the names of the classes are those from before the registration
            have hrecord : r.body = s₁.record := by
              rw [hr, hbody₃, exportedBody, Sys.record]
              show (s₂.ledger.commits c).classStateRefs.map (exportClassState idx') = _
              rw [hrefs]
              exact List.map_congr_left fun ref _ => Drafted.exportClassState_congr (hbinds.keeps.names _)
            have hidx' : s₄.idx = idx' := hidx₄.trans hidx₃
            have hname' : s₃.name = s.name := hname₃.trans hname₀
            refine ⟨s₄, .inr ⟨hok, r, hd, hrecord, ⟨by rw [← hname']; exact hsize, hfits⟩, ?_, ?_, ?_, ?_⟩, ?_,
              hname₄.trans hname', htask₄.trans htask₃⟩
            · rw [hidx']
              exact hbinds
            · rw [hidx']
              exact hnames
            · rw [hidx']
              exact hfound
            · rw [hmore, hwritten₃]
              show s₂.disk.written ++ [r] = _
              rw [hwritten₀]
            · rw [hidx₄]
              exact hsurvives₃

/-- **The confirmation** of the commit of a task writes its record exactly when it returns in an ARBITER. -/
theorem kndConfirmCommit_writes {s s₁ : Sys τ} {body : List TaskItem} (hn : s.idx.Named) (hd : Drafted s s₁ body)
    (hjournalable : s.task.role = .arbiter → [47] ∉ createdNames body ∧ ListsOnce body) (hdisk : s₁.disk = s.disk) :
    ∃ s', s' = finalState kndConfirmCommit s₁ ∧ s.idx.Survives s'.idx ∧ s'.name = s.name ∧
      (s'.disk.written = s.disk.written ∧
          ((∃ e, kndConfirmCommit.run s₁ = .error e s') ∨ s'.task.role ≠ .arbiter) ∨
        kndConfirmCommit.run s₁ = .ok () s' ∧ s'.task = s₁.task ∧ s₁.task.role = .arbiter ∧
          ∃ r, Writes body s s₁ s' r) := by
  have hsurvives := hd.parsing.idx.survives hn
  cases hcommit : s₁.task.commit with
  | none =>
      have hstop := kndConfirmCommit_of_none hcommit
      refine ⟨s₁, (finalState_of_error hstop).symm, hsurvives, hd.parsing.name, .inl ⟨by rw [hdisk], .inl ⟨_, hstop⟩⟩⟩
  | some c =>
      -- resolving sets flags only
      have hinsts : ∀ i ∈ (s₁.ledger.commits c).insts, (s₁.idx.classes i.blueprint).cls.isSome = true := by
        intro i hi
        rw [Commit.insts, ← Sys.refs_of_commit hcommit] at hi
        obtain ⟨ref, href, hi⟩ := List.mem_flatMap.mp hi
        obtain ⟨p, -, hselects, -⟩ := hd.text_of_inst (hd.imported ref href i hi)
        obtain ⟨hlt, -, hcls⟩ := hn.selects hselects
        exact hd.parsing.idx.isSome _ hlt hcls
      obtain ⟨resolved, hresolved⟩ := resolveInsts_cases hinsts
      have hfinal : finalState ((s₁.ledger.commits c).insts.forM resolveInst) s₁ = { s₁ with resolved } := by
        rcases hresolved with hok | ⟨-, e, herr⟩
        · exact finalState_of_ok hok
        · exact finalState_of_error herr
      set s₂ : Sys τ := { s₁ with resolved } with hs₂
      have hrun := run_kndConfirmCommit hcommit
      cases hresolve : (kndResolveCommit c).run s₁ with
      | error e s₂' =>
          rw [run_kndResolveCommit] at hresolve
          obtain rfl : s₂' = s₂ := (finalState_of_error hresolve).symm.trans hfinal
          have hstop : kndConfirmCommit.run s₁ = .error e s₂ :=
            hrun.trans (run_bind_of_error ((run_kndResolveCommit c s₁).trans hresolve))
          refine ⟨s₂, (finalState_of_error hstop).symm, hsurvives, hd.parsing.name, .inl ⟨?_, .inl ⟨e, hstop⟩⟩⟩
          show s₁.disk.written = _
          rw [hdisk]
      | ok u s₂' =>
          rw [run_kndResolveCommit] at hresolve
          obtain rfl : s₂' = s₂ := (finalState_of_ok hresolve).symm.trans hfinal
          have hgo : kndConfirmCommit.run s₁ = (confirmAs s₁.task.role c).run s₂ :=
            hrun.trans (run_bind_of_ok ((run_kndResolveCommit c s₁).trans hresolve))
          by_cases hrole : s₁.task.role = .arbiter
          · obtain ⟨hroot, hlists⟩ := hjournalable (hd.parsing.role ▸ hrole)
            rw [hrole] at hgo
            obtain ⟨s', hends, hsurvives', hname, htask⟩ := @confirmAs_writes τ _ s s₁ s₂ body c hn hd hcommit hroot
              hlists hrole rfl hdisk
            rw [← hgo] at hends
            rcases hends with ⟨⟨e, herr⟩, hwritten⟩ | ⟨hok, hwrites⟩
            · exact ⟨s', (finalState_of_error herr).symm, hsurvives', hname, .inl ⟨hwritten, .inl ⟨e, herr⟩⟩⟩
            · exact ⟨s', (finalState_of_ok hok).symm, hsurvives', hname, .inr ⟨hok, htask, hrole, hwrites⟩⟩
          · have hfinal' : finalState kndConfirmCommit s₁ = s₂ := by
              rw [finalState, hgo, ← finalState, finalState_confirmAs hrole]
            refine ⟨s₂, hfinal'.symm, hsurvives, hd.parsing.name, .inl ⟨?_, .inr hrole⟩⟩
            show s₁.disk.written = _
            rw [hdisk]

/-- **A live task writes its record exactly when it returns with a commit in an ARBITER**; what was there survives
in any case. -/
theorem kndParseTask_writes {s : Sys τ} (restore : SysM τ Unit) {body : List TaskItem} (hn : s.idx.Named)
    (hreader : s.snapshot.role ≠ .reader) (hcommit : s.task.commit = none)
    (hinsts : s.task.classInstStateRefs = []) (hnames : s.task.classNameIdx = [])
    (hjournalable : s.task.role = .arbiter → [47] ∉ createdNames body ∧ ListsOnce body) :
    let s' := finalState (kndParseTask restore body) s
    s.idx.Survives s'.idx ∧ s'.name = s.name ∧
      (confirms (kndParseTask restore body) s = false ∧ s'.disk.written = s.disk.written ∨
        confirms (kndParseTask restore body) s = true ∧ ∃ s₁ r, Writes body s s₁ s' r) := by
  intro s'
  have hrefs : s.refs = [] := by rw [Sys.refs, hcommit]
  have hlive := moves_liveBody restore body s (⟨hreader, .inl ⟨hcommit, rfl⟩⟩ : LiveOn s.ledger.nextCommit s)
  have hparsing := parsing_body restore body s hreader
  have hrun : (kndParseTask restore body).run s = (body.forM (parseItem restore) >>= fun _ => finishTask).run s := rfl
  cases hbody : (body.forM (parseItem restore) : SysM τ Unit).run s with
  | error e s₁ =>
      have hstop : (kndParseTask restore body).run s = .error e s₁ := hrun.trans (run_bind_of_error hbody)
      obtain rfl : s₁ = s' := (finalState_of_error hstop).symm
      rw [finalState_of_error hbody] at hlive hparsing
      exact ⟨hparsing.idx.survives hn, hparsing.name, .inl ⟨confirms_of_error hstop, by rw [hlive.1.disk]⟩⟩
  | ok u s₁ =>
      have hd := drafted_body hn hreader (.nil hinsts hnames hrefs) hbody
      rw [finalState_of_ok hbody] at hlive
      have hgo : (kndParseTask restore body).run s
          = (if s₁.task.type = .commit then kndConfirmCommit else pure () : SysM τ Unit).run s₁ :=
        hrun.trans ((run_bind_of_ok hbody).trans (run_finishTask s₁))
      by_cases htype : s₁.task.type = .commit
      · rw [if_pos htype] at hgo
        obtain ⟨t, ht, hsurvives, hname, hends⟩ := kndConfirmCommit_writes hn hd hjournalable hlive.1.disk
        obtain rfl : t = s' := by
          rw [ht, finalState, ← hgo]
          rfl
        refine ⟨hsurvives, hname, hends.imp (fun hless => ⟨?_, hless.1⟩) fun hmore => ⟨?_, s₁, hmore.2.2.2⟩⟩
        · rcases hless.2 with ⟨e, herr⟩ | hrole
          · exact confirms_of_error (hgo.trans herr)
          · have hfalse : decide (s'.task.role = .arbiter) = false := decide_eq_false hrole
            rw [confirms, hfalse, Bool.and_false]
        · obtain ⟨hok, htask, hrole, -⟩ := hmore
          rw [confirms, returns, finalState_of_ok (hgo.trans hok), hgo.trans hok, htask]
          simp [hrole, htype]
      · rw [if_neg htype] at hgo
        obtain rfl : s₁ = s' := (finalState_of_ok (hgo.trans rfl)).symm
        refine ⟨hd.parsing.idx.survives hn, hd.parsing.name, .inl ⟨?_, by rw [hlive.1.disk]⟩⟩
        have hfalse : decide (s'.task.type = .commit) = false := decide_eq_false htype
        rw [confirms, finalState_of_ok (hgo.trans rfl), hfalse, Bool.and_false, Bool.false_and]

/-! ## (4) What a record adds -/

omit [AttrVarOps τ] in
/-- **The instances of the record** are those of the task. -/
theorem Drafted.bodyInsts_record {s₀ s : Sys τ} {body : List TaskItem} (h : Drafted s₀ s body)
    (hlists : ListsOnce body) : bodyInsts s.record
      = s.task.classInstStateRefs.map fun i => ((s.idx.classes i.blueprint).name, i.text) := by
  rw [← (h.children hlists).1, List.map_flatMap, bodyInsts, Sys.record, List.flatMap_map]
  refine List.flatMap_congr fun ref href => ?_
  obtain ⟨hnone, hblueprint⟩ := h.tidy hlists ref href
  rw [exportClassState]
  -- a new class lists no instances, a selected one those of its own
  cases hphase : ref.phase with
  | created =>
      rw [hnone hphase]
      rfl
  | selected =>
      simp only [TaskItem.insts, List.map_map]
      refine List.map_congr_left fun i hi => ?_
      rw [hblueprint i hi]
      rfl

/-- **What a task of an ARBITER must meet** for its record to be replayed: it creates no class with the name of the
root class, lists its instances once, and its instances have names that can be read again and attributes that are
accepted. -/
structure Journalable (τ : Type) [AttrVarOps τ] (body : List TaskItem) : Prop where
  /-- The classes. -/
  unrooted : [47] ∉ createdNames body
  /-- The instances are listed once. -/
  listsOnce : ListsOnce body
  /-- The generated names. -/
  generated : ∀ p ∈ bodyInsts body, p.2.name = [95] → p.2.random ≠ [95] ∧ p.2.random.length < nameSize
  /-- The attributes. -/
  attrs : ∀ p ∈ bodyInsts body, AttrsAccepted τ p.2.attrs

namespace Journalable

variable {body : List TaskItem} {s₀ s : Sys τ}

/-- The name of an instance can be read again. -/
theorem plain (h : Journalable τ body) (hd : Drafted s₀ s body) {i : ClassInst}
    (hi : i ∈ s.task.classInstStateRefs) : i.name ≠ [95] ∧ i.name.length < nameSize := by
  obtain ⟨p, hp, -, -, hnames⟩ := hd.text_of_inst hi
  rcases hnames with ⟨-, hempty⟩ | ⟨hrandom, hname⟩ | ⟨-, hne, hshort, hname⟩
  · rw [hempty]
    exact ⟨(List.cons_ne_nil _ _).symm, Nat.zero_lt_of_lt (show 1 < nameSize by decide)⟩
  · rw [hname]
    exact h.generated p hp hrandom
  · rw [hname]
    exact ⟨hne, hshort⟩

/-- **The record comes to what the clauses come to.** -/
theorem effects_record (h : Journalable τ body) (hd : Drafted s₀ s body) (hn : s₀.idx.Named) :
    (instEffects s.record).Perm (instEffects body) := by
  have hrecord : instEffects s.record
      = s.task.classInstStateRefs.map fun i => ((s₀.idx.classes i.blueprint).name, i.name, i.attrs) := by
    rw [instEffects, hd.bodyInsts_record h.listsOnce, List.map_map]
    refine List.map_congr_left fun i hi => ?_
    have hfinal : i.text.finalName = i.name := if_neg (h.plain hd hi).1
    show ((s.idx.classes i.blueprint).name, i.text.finalName, i.attrs) = _
    rw [hfinal, hd.parsing.idx.names _ (hd.blueprint_lt hn hi)]
  rw [hrecord, ← hd.effects hn, List.map_reverse]
  exact (List.reverse_perm _).symm

end Journalable

omit [AttrVarOps τ] in
/-- **The indices know what the source files and the bodies hold**: the classes, and the names of the instances. -/
structure Indices.Knows (idx source : Indices τ) (bodies : List (List TaskItem)) : Prop where
  /-- The classes of the source files. -/
  kept : ∀ name, source.classByName name ≠ none → idx.classByName name ≠ none
  /-- The classes of the bodies. -/
  created : ∀ name ∈ bodies.flatMap createdNames, idx.classByName name ≠ none
  /-- The instances with names. -/
  insts : ∀ q ∈ bodies.flatMap namedInsts, ∃ a, idx.classByName q.1 = some a ∧ a < idx.nextClass ∧ idx.NameTaken a q.2

omit [AttrVarOps τ] in
/-- What is known survives. -/
theorem Indices.Knows.survives {idx idx' source : Indices τ} {bodies : List (List TaskItem)}
    (h : idx.Knows source bodies) (hs : idx.Survives idx') : idx'.Knows source bodies := by
  have hbound : ∀ name, idx.classByName name ≠ none → idx'.classByName name ≠ none := by
    intro name hname
    obtain ⟨a, ha⟩ := Option.ne_none_iff_exists'.mp hname
    rw [hs.bound name a ha]
    exact Option.some_ne_none a
  refine ⟨fun name hname => hbound name (h.kept name hname), fun name hname => hbound name (h.created name hname),
    fun q hq => ?_⟩
  obtain ⟨a, ha, hlt, ht⟩ := h.insts q hq
  have ha' := hs.bound _ a ha
  exact ⟨a, ha', (hs.named.found _ a ha').1, hs.taken a hlt _ ht⟩

/-- **After a restore the indices know the records.** -/
theorem Restoring.knows {source : Indices τ} {done : List (List TaskItem)} {s : Sys τ} (h : Restoring source done s)
    (hplain : ∀ body ∈ done, ∀ p ∈ bodyInsts body, p.2.name ≠ [95]) : s.idx.Knows source done where
  kept name hname := by
    obtain ⟨a, ha⟩ := Option.ne_none_iff_exists'.mp hname
    rw [(h.reflects.kept name a ha).1]
    exact Option.some_ne_none a
  created name hname := by
    obtain ⟨body, hbody, hname⟩ := List.mem_flatMap.mp hname
    obtain ⟨clauses, hitem⟩ := mem_createdNames.mp hname
    obtain ⟨a, ha, -⟩ := h.reflects.created body hbody name clauses hitem
    rw [ha]
    exact Option.some_ne_none a
  insts q hq := by
    obtain ⟨body, hbody, hq⟩ := List.mem_flatMap.mp hq
    rw [namedInsts, List.mem_filter, List.mem_map] at hq
    obtain ⟨⟨p, hp, rfl⟩, hne⟩ := hq
    obtain ⟨insts, hholds, hfound, heffects, -⟩ := h.reflects.insts
    have heffect : (p.1, p.2.finalName, p.2.attrs) ∈ insts.map s.idx.effect :=
      heffects.mem_iff.mpr (List.mem_flatMap.mpr ⟨body, hbody, List.mem_map.mpr ⟨p, hp, rfl⟩⟩)
    obtain ⟨i, hi, heq⟩ := List.mem_map.mp heffect
    have hname : i.name = p.2.name := by
      rw [← InstText.finalName_of_plain (hplain body hbody p hp)]
      exact congrArg (fun e => e.2.1) heq
    have hclass : (s.idx.classes i.blueprint).name = p.1 := congrArg Prod.fst heq
    have hbound := hfound i hi
    rw [hclass] at hbound
    refine ⟨i.blueprint, hbound, (hholds.counted i hi).1, h.taken _ _ ?_⟩
    rw [(hholds.byName i.blueprint p.2.name i).mpr ⟨hi, rfl, hname, of_decide_eq_true hne⟩]
    exact Option.some_ne_none i

namespace Writes

variable {source : Indices τ} {body : List TaskItem} {s s₁ s' : Sys τ} {r : WalRecord}
  {bodies : List (List TaskItem)}

/-- An instance of the record. -/
theorem inst_of_record (h : Writes body s s₁ s' r) (hn : s.idx.Named) (hr : Journalable τ body)
    {p : Name × InstText} (hp : p ∈ bodyInsts r.body) : ∃ i ∈ s₁.task.classInstStateRefs,
      p = ((s.idx.classes i.blueprint).name, i.text) ∧ i ∈ s₁.refs.flatMap ClassStateRef.children := by
  rw [h.record, h.drafted.bodyInsts_record hr.listsOnce] at hp
  obtain ⟨i, hi, rfl⟩ := List.mem_map.mp hp
  refine ⟨i, hi, ?_, ?_⟩
  · rw [h.drafted.parsing.idx.names _ (h.drafted.blueprint_lt hn hi)]
  · rw [(h.drafted.children hr.listsOnce).1]
    exact hi

/-- **The class of an instance of the record is found**, before the task and after it. -/
theorem class_of_inst (h : Writes body s s₁ s' r) (hn : s.idx.Named) (hr : Journalable τ body)
    (hs : s.idx.Survives s'.idx) {i : ClassInst} (hi : i ∈ s₁.task.classInstStateRefs) :
    (s.idx.classes i.blueprint).name ≠ [47] ∧
      s.idx.classByName (s.idx.classes i.blueprint).name = some i.blueprint := by
  obtain ⟨hall, hblueprint⟩ := h.drafted.children hr.listsOnce
  have hmem := hi
  rw [← hall] at hmem
  obtain ⟨ref, href, hchild⟩ := List.mem_flatMap.mp hmem
  have hfound := h.found ref href (.inr (List.ne_nil_of_mem hchild))
  rw [← hblueprint ref href i hchild, h.drafted.parsing.idx.names _ (h.drafted.blueprint_lt hn hi)] at hfound
  -- the root class is not in the name index
  have hroot : (s.idx.classes i.blueprint).name ≠ [47] := by
    intro heq
    rw [heq, hs.named.unbound] at hfound
    exact hfound rfl
  refine ⟨hroot, ?_⟩
  obtain ⟨p, -, hselects, -⟩ := h.drafted.text_of_inst hi
  obtain ⟨-, hname, -⟩ := hn.selects hselects
  rw [hname] at hroot ⊢
  rcases hselects with ⟨heq, -⟩ | ⟨-, hbound⟩
  · exact absurd heq hroot
  · exact hbound

/-- **The record can be replayed.** -/
theorem recorded (h : Writes body s s₁ s' r) (hn : s.idx.Named) (hr : Journalable τ body)
    (hs : s.idx.Survives s'.idx) : Recorded τ r.body where
  created name hname := by
    rw [h.record, h.drafted.recordCreated, List.mem_reverse] at hname
    refine ⟨(h.drafted.free name hname).1, ?_⟩
    rintro rfl
    exact hr.unrooted hname
  selected name hname := by
    rw [h.record, selectedNames, Sys.record, List.mem_flatMap] at hname
    obtain ⟨item, hitem, hname⟩ := hname
    obtain ⟨ref, href, rfl⟩ := List.mem_map.mp hitem
    cases hphase : ref.phase with
    | created =>
        simp only [exportClassState, hphase, TaskItem.selected] at hname
        cases hname
    | selected =>
        simp only [exportClassState, hphase, TaskItem.selected, List.mem_singleton] at hname
        obtain ⟨n, -, hshort, hselects⟩ := h.drafted.selected ref href hphase
        obtain ⟨hlt, heq, -⟩ := hn.selects hselects
        rw [hname, h.drafted.parsing.idx.names _ hlt, heq]
        exact hshort
  listsOnce := by
    rcases hr.listsOnce with hnone | hone
    · left
      have hlen := h.drafted.insts.length_eq
      rw [hnone, List.length_reverse] at hlen
      rw [h.record, h.drafted.bodyInsts_record hr.listsOnce, List.eq_nil_of_length_eq_zero hlen]
      rfl
    · right
      have hle := h.drafted.recordSelected.length_le
      rw [List.length_reverse] at hle
      rw [h.record]
      exact hle.trans hone
  insts p hp := by
    obtain ⟨i, hi, rfl, -⟩ := h.inst_of_record hn hr hp
    obtain ⟨hplain, hshort⟩ := hr.plain h.drafted hi
    obtain ⟨q, hq, -, hattrs, -⟩ := h.drafted.text_of_inst hi
    refine ⟨(h.class_of_inst hn hr hs hi).1, hplain, hshort, ?_⟩
    show AttrsAccepted τ i.attrs
    rw [hattrs]
    exact hr.attrs q hq

/-- The names of the instances of the record. -/
theorem named_of_record (h : Writes body s s₁ s' r) (hn : s.idx.Named) (hr : Journalable τ body) {q : Name × Name}
    (hq : q ∈ namedInsts r.body) : ∃ i ∈ s₁.refs.flatMap ClassStateRef.children,
      i ∈ s₁.task.classInstStateRefs ∧ q = ((s.idx.classes i.blueprint).name, i.name) ∧ i.name ≠ [] := by
  rw [namedInsts, List.mem_filter, List.mem_map] at hq
  obtain ⟨⟨p, hp, rfl⟩, hne⟩ := hq
  obtain ⟨i, hi, rfl, hmem⟩ := h.inst_of_record hn hr hp
  exact ⟨i, hmem, hi, rfl, of_decide_eq_true hne⟩

/-- They are distinct. -/
theorem nodup_named (h : Writes body s s₁ s' r) (hn : s.idx.Named) (hr : Journalable τ body)
    (hs : s.idx.Survives s'.idx) : (namedInsts r.body).Nodup := by
  have hdistinct := h.names.distinct
  rw [(h.drafted.children hr.listsOnce).1] at hdistinct
  rw [namedInsts, h.record, h.drafted.bodyInsts_record hr.listsOnce, List.map_map, List.Nodup, List.pairwise_filter,
    List.pairwise_map]
  -- two instances of one name were not registered in one class
  refine hdistinct.imp_of_mem fun {i j} hi hj hij hname _ heq => ?_
  -- classes with one name are one class
  have hclass : (s₁.idx.classes i.blueprint).name = (s₁.idx.classes j.blueprint).name := congrArg Prod.fst heq
  rw [h.drafted.parsing.idx.names _ (h.drafted.blueprint_lt hn hi),
    h.drafted.parsing.idx.names _ (h.drafted.blueprint_lt hn hj)] at hclass
  have hfound := (h.class_of_inst hn hr hs hi).2
  rw [hclass, (h.class_of_inst hn hr hs hj).2] at hfound
  exact hij (Option.some.inj hfound).symm (of_decide_eq_true hname) (congrArg Prod.snd heq)

/-- **The record is another one than those before**: with it the bodies can still be replayed. -/
theorem replayable (h : Writes body s s₁ s' r) (hn : s.idx.Named) (hr : Journalable τ body)
    (hs : s.idx.Survives s'.idx) (hknows : s.idx.Knows source bodies) (hbodies : source.Replayable bodies) :
    source.Replayable (bodies ++ [r.body]) where
  each b hb := by
    rcases List.mem_append.mp hb with hb | hb
    · exact hbodies.each b hb
    · rw [List.mem_singleton.mp hb]
      exact h.recorded hn hr hs
  nodup := by
    rw [List.flatMap_append, List.flatMap_singleton, List.nodup_append', h.record, h.drafted.recordCreated]
    refine ⟨hbodies.nodup, List.nodup_reverse.mpr h.drafted.nodup, fun name hold hnew => ?_⟩
    exact hknows.created name hold (h.drafted.free name (List.mem_reverse.mp hnew)).2
  free name hname := by
    rw [List.flatMap_append, List.flatMap_singleton, List.mem_append] at hname
    rcases hname with hold | hnew
    · exact hbodies.free name hold
    · rw [h.record, h.drafted.recordCreated, List.mem_reverse] at hnew
      by_contra hsource
      exact hknows.kept name hsource (h.drafted.free name hnew).2
  named := by
    rw [List.flatMap_append, List.flatMap_singleton, List.nodup_append']
    refine ⟨hbodies.named, h.nodup_named hn hr hs, fun q hold hnew => ?_⟩
    obtain ⟨a, ha, hlt, ht⟩ := hknows.insts q hold
    obtain ⟨i, hmem, hi, rfl, hne⟩ := h.named_of_record hn hr hnew
    -- the name would have been taken when the instance was registered
    have hsame := (h.class_of_inst hn hr hs hi).2
    obtain rfl : a = i.blueprint := Option.some.inj (ha.symm.trans hsame)
    exact h.names.free i hmem hne ((h.drafted.parsing.idx.nameTaken_iff hlt _).mpr ht)

/-- **The indices know the record** after the task. -/
theorem knows (h : Writes body s s₁ s' r) (hn : s.idx.Named) (hr : Journalable τ body)
    (hs : s.idx.Survives s'.idx) (hknows : s.idx.Knows source bodies) :
    s'.idx.Knows source (bodies ++ [r.body]) where
  kept := (hknows.survives hs).kept
  created name hname := by
    rw [List.flatMap_append, List.flatMap_singleton, List.mem_append] at hname
    rcases hname with hold | hnew
    · exact (hknows.survives hs).created name hold
    · rw [h.record, h.drafted.recordCreated, List.mem_reverse] at hnew
      obtain ⟨ref, href, hphase, rfl⟩ := h.drafted.exists_created hnew
      exact h.found ref href (.inl hphase)
  insts q hq := by
    rw [List.flatMap_append, List.flatMap_singleton, List.mem_append] at hq
    rcases hq with hold | hnew
    · exact (hknows.survives hs).insts q hold
    · obtain ⟨i, hmem, hi, rfl, hne⟩ := h.named_of_record hn hr hnew
      have hbound := hs.bound _ _ (h.class_of_inst hn hr hs hi).2
      exact ⟨i.blueprint, hbound, (hs.named.found _ _ hbound).1, h.names.taken i hmem hne⟩

end Writes

end Task

end Knowdy
