import Knowdy.CommitFrames
import Knowdy.Lib.Linked

/-! # What a failed confirmation leaves behind

`knd_confirm_commit` resolves, registers, checks, links and journals a commit, and undoes nothing when a later
stage fails.

* `Loads`, `Resolves` — what resolving changes; `kndResolveCommit_fails_iff` says when it fails.
* `NewCommit` — the entries of the commit are new and it is not linked yet.
* `FailsHarmlessly` — the failures that come before the first visible change.
* `kndConfirmCommit_unchanged_iff` — **a failed confirmation leaves the repository as it was exactly when
  it fails that early.** -/

namespace Knowdy

variable {τ : Type}

/-! ## (1) Resolving -/

/-- **Bodies of classes are read**, and nothing else happens to the indices. -/
structure Loads (idx idx' : Indices τ) : Prop where
  /-- All but the class entries. -/
  rest : idx'.classNameIdx = idx.classNameIdx ∧ idx'.stored = idx.stored ∧
    idx'.texts = idx.texts ∧ idx'.pool = idx.pool
  /-- The snapshot files. -/
  snapshots : idx'.snapshotInsts = idx.snapshotInsts
  /-- The entries but for their bodies. -/
  entries : ∀ a, (idx'.classes a).name = (idx.classes a).name ∧
    (idx'.classes a).dictItemStates = (idx.classes a).dictItemStates
  /-- The bodies. -/
  bodies : ∀ a, (idx'.classes a).cls = (idx.classes a).cls ∨
    (idx.classes a).cls = none ∧ idx.stored a = true ∧ (idx'.classes a).cls = some {}

instance : IsPreorder (Indices τ) Loads where
  refl _ := ⟨⟨rfl, rfl, rfl, rfl⟩, rfl, fun _ => ⟨rfl, rfl⟩, fun _ => .inl rfl⟩
  trans idx₁ idx₂ idx₃ h h' := by
    obtain ⟨h₁, h₂, h₃, h₄⟩ := h.rest
    obtain ⟨h₁', h₂', h₃', h₄'⟩ := h'.rest
    refine ⟨⟨h₁'.trans h₁, h₂'.trans h₂, h₃'.trans h₃, h₄'.trans h₄⟩, h'.snapshots.trans h.snapshots,
      fun a => ?_, fun a => ?_⟩
    · exact ⟨(h'.entries a).1.trans (h.entries a).1, (h'.entries a).2.trans (h.entries a).2⟩
    · rcases h.bodies a with heq | ⟨hnone, hstored, hsome⟩
      · rcases h'.bodies a with heq' | ⟨hnone', hstored', hsome'⟩
        · exact .inl (heq'.trans heq)
        · exact .inr ⟨heq ▸ hnone', h₂ ▸ hstored', hsome'⟩
      · rcases h'.bodies a with heq' | ⟨hnone', -, -⟩
        · exact .inr ⟨hnone, hstored, heq'.trans hsome⟩
        · rw [hsome] at hnone'
          cases hnone'

theorem loads_kndClassAcquire (a : ClassAddr) : Moves Loads (kndClassAcquire a : IdxM τ Unit) := by
  intro idx
  rw [finalState, run_kndClassAcquire]
  cases hcls : (idx.classes a).cls with
  | some c => exact refl_of Loads idx
  | none =>
      by_cases hstored : idx.stored a = true
      · rw [if_pos hstored]
        refine ⟨⟨rfl, rfl, rfl, rfl⟩, rfl, fun b => ?_, fun b => ?_⟩
        · show ((idx.setClass a {}).classes b).name = _ ∧ _
          by_cases hb : b = a <;> simp [Indices.setClass, Indices.classes_setEntry, hb]
        · show ((idx.setClass a {}).classes b).cls = _ ∨ _
          by_cases hb : b = a
          · subst hb
            exact .inr ⟨hcls, hstored, by rw [Indices.classes_setClass, if_pos rfl]⟩
          · exact .inl (by rw [Indices.classes_setClass, if_neg hb])
      · rw [if_neg hstored]
        exact refl_of Loads idx

namespace Loads

variable {idx idx' : Indices τ}

/-- The bodies, as they are when they have been read, are the same. -/
theorem body_eq (h : Loads idx idx') (a : ClassAddr) : (idx'.classes a).body = (idx.classes a).body := by
  rw [ClassEntry.body, ClassEntry.body]
  rcases h.bodies a with heq | ⟨hnone, -, hsome⟩
  · rw [heq]
  · rw [hnone, hsome]
    rfl

/-- A body that has been read has no name index. -/
theorem hasNameIdx_eq (h : Loads idx idx') (a : ClassAddr) : idx'.hasNameIdx a = idx.hasNameIdx a := by
  rw [Indices.hasNameIdx, Indices.hasNameIdx]
  rcases h.bodies a with heq | ⟨hnone, -, hsome⟩
  · rw [heq]
  · rw [hnone, hsome]
    rfl

theorem sameContents (h : Loads idx idx') : idx.SameContents idx' where
  classes_eq name := by rw [Indices.classByName, h.rest.1]; rfl
  names_eq a name := by
    rw [Indices.instByName, Indices.instByName, h.hasNameIdx_eq, h.snapshots]
    rcases h.bodies a with heq | ⟨hnone, -, hsome⟩
    · rw [Indices.indexedInst, Indices.indexedInst, heq]
    · rw [Indices.indexedInst, Indices.indexedInst, hnone, hsome]
      rfl
  ids_eq a id := by
    rcases h.bodies a with heq | ⟨hnone, -, hsome⟩
    · rw [Indices.instById, Indices.instById, heq]
    · rw [Indices.instById, Indices.instById, hnone, hsome]
      rfl
  texts_eq := h.rest.2.2.1

/-- The same registrations are refused. -/
theorem refused_iff (h : Loads idx idx') (r : Registration) : r.Refused idx' ↔ r.Refused idx := by
  cases r with
  | cls a => rw [Registration.Refused, Registration.Refused, h.rest.1, h.rest.2.2.2, (h.entries a).1]
  | inst a i =>
      rw [Registration.Refused, Registration.Refused, h.body_eq, h.rest.2.2.2, (h.entries a).1,
        h.sameContents.classes_eq]

/-- The same registrations hide nothing. -/
theorem hidesNothing_iff (h : Loads idx idx') (r : Registration) : r.HidesNothing idx' ↔ r.HidesNothing idx := by
  cases r with
  | cls a => exact Iff.rfl
  | inst a i =>
      rw [Registration.HidesNothing, Registration.HidesNothing, Indices.Loaded, Indices.Loaded,
        h.hasNameIdx_eq, h.snapshots, (h.entries a).1, h.sameContents.classes_eq]

/-- The same is new. -/
theorem fresh (h : Loads idx idx') {regs : List Registration} (hfresh : idx.Fresh regs) :
    idx'.Fresh regs where
  classes a ha name := by rw [h.sameContents.classes_eq]; exact hfresh.classes a ha name
  names a i hi name := by rw [h.sameContents.names_eq]; exact hfresh.names a i hi name
  ids a i hi id := by rw [h.sameContents.ids_eq]; exact hfresh.ids a i hi id

end Loads

/-- **What resolving changes**: the bodies that are read and the flags of the instances. -/
structure Resolves (s s' : Sys τ) : Prop where
  /-- The indices. -/
  idx : Loads s.idx s'.idx
  /-- The commits. -/
  ledger : s'.ledger = s.ledger
  /-- The files. -/
  disk : s'.disk = s.disk
  /-- The task. -/
  task : s'.task = s.task

instance : IsPreorder (Sys τ) Resolves where
  refl s := ⟨refl_of Loads s.idx, rfl, rfl, rfl⟩
  trans _ _ _ h h' := ⟨trans_of Loads h.idx h'.idx, h'.ledger.trans h.ledger, h'.disk.trans h.disk,
    h'.task.trans h.task⟩

section Resolve

variable [AttrVarOps τ]

/-- The instance cannot be resolved: its class has no body anywhere, or an attribute has the wrong
type. -/
def Unresolvable (idx : Indices τ) (inst : ClassInst) : Prop :=
  ((idx.classes inst.blueprint).cls = none ∧ idx.stored inst.blueprint = false) ∨
  (inst.attrs ≠ [] ∧ ∃ e, AttrVarOps.resolveAttrVars idx.texts inst = .error e)

theorem Loads.unresolvable_iff {idx idx' : Indices τ} (h : Loads idx idx') (inst : ClassInst) :
    Unresolvable idx' inst ↔ Unresolvable idx inst := by
  have hcls : ((idx'.classes inst.blueprint).cls = none ∧ idx.stored inst.blueprint = false) ↔
      ((idx.classes inst.blueprint).cls = none ∧ idx.stored inst.blueprint = false) := by
    rcases h.bodies inst.blueprint with heq | ⟨hnone, hstored, hsome⟩
    · rw [heq]
    · rw [hsome, hstored]
      simp
  rw [Unresolvable, Unresolvable, h.rest.2.1, h.rest.2.2.1, hcls]

omit [AttrVarOps τ] in
/-- Reading the body of a class fails exactly when there is none. -/
theorem run_onIdx_kndClassAcquire (a : ClassAddr) (s : Sys τ) :
    ((s.idx.classes a).cls = none ∧ s.idx.stored a = false ∧
      (onIdx (kndClassAcquire a)).run s = .error (.err .noMatch) (s.setIdx s.idx)) ∨
    (¬((s.idx.classes a).cls = none ∧ s.idx.stored a = false) ∧
      ∃ idx, (onIdx (kndClassAcquire a)).run s = .ok () (s.setIdx idx) ∧ Loads s.idx idx) := by
  have hmoves := loads_kndClassAcquire a s.idx
  have hrun := run_kndClassAcquire a s.idx
  rw [onIdx, run_zoom]
  cases hcls : (s.idx.classes a).cls with
  | some c =>
      rw [hcls] at hrun
      rw [hrun]
      exact .inr ⟨fun h => (by cases h.1), s.idx, rfl, refl_of Loads s.idx⟩
  | none =>
      rw [hcls] at hrun
      by_cases hstored : s.idx.stored a = true
      · rw [if_pos hstored] at hrun
        rw [finalState_of_ok hrun] at hmoves
        rw [hrun]
        refine .inr ⟨fun h => ?_, _, rfl, hmoves⟩
        rw [hstored] at h
        cases h.2
      · rw [if_neg hstored] at hrun
        rw [hrun]
        exact .inl ⟨rfl, Bool.eq_false_iff.mpr hstored, rfl⟩

/-- One instance that has not been resolved yet. -/
theorem run_kndClassInstResolve (inst : ClassInst) (s : Sys τ) :
    (Unresolvable s.idx inst ∧ ∃ e s', (kndClassInstResolve inst).run s = .error (.err e) s' ∧
      Resolves s s') ∨
    (¬Unresolvable s.idx inst ∧ ∃ s', (kndClassInstResolve inst).run s = .ok () s' ∧
      Resolves s s' ∧ s'.resolved = Function.update s.resolved inst.addr true) := by
  rcases run_onIdx_kndClassAcquire inst.blueprint s with ⟨hnone, hstored, hrun⟩ | ⟨hbody, idx, hrun, hloads⟩
  · exact .inl ⟨.inl ⟨hnone, hstored⟩, _, _, run_bind_of_error hrun, refl_of Loads s.idx, rfl, rfl, rfl⟩
  · have hrest : (kndClassInstResolve inst).run s
        = ((if inst.attrs ≠ [] then resolveInstAttrs inst else pure ()) >>= fun _ =>
            markResolved inst : SysM τ Unit).run (s.setIdx idx) := run_bind_of_ok hrun
    have hattrs := run_resolveInstAttrs inst (s.setIdx idx)
    rw [show (s.setIdx idx).idx = idx from rfl] at hattrs
    have hmoved : Resolves s (s.setIdx idx) := ⟨hloads, rfl, rfl, rfl⟩
    rw [hrest, Unresolvable, hloads.rest.2.2.1.symm]
    by_cases hempty : inst.attrs = []
    · rw [if_neg fun h => h hempty]
      refine .inr ⟨?_, _, rfl, ⟨hloads, rfl, rfl, rfl⟩, rfl⟩
      rintro (h | ⟨h, -⟩)
      · exact hbody h
      · exact h hempty
    · rw [if_pos hempty]
      cases hres : AttrVarOps.resolveAttrVars idx.texts inst with
      | error e =>
          rw [hres] at hattrs
          exact .inl ⟨.inr ⟨hempty, e, rfl⟩, e, _, run_bind_of_error hattrs, hmoved⟩
      | ok u =>
          rw [hres] at hattrs
          refine .inr ⟨?_, _, run_bind_of_ok hattrs, ⟨hloads, rfl, rfl, rfl⟩, rfl⟩
          rintro (h | ⟨-, e, h⟩)
          · exact hbody h
          · cases h

/-- **An instance that has not been resolved, nor comes twice in the list, cannot be resolved.** -/
def FailsToResolve (s : Sys τ) (insts : List ClassInst) : Prop :=
  ∃ pre inst post, insts = pre ++ inst :: post ∧ s.resolved inst.addr = false ∧
    (∀ i ∈ pre, i.addr ≠ inst.addr) ∧ Unresolvable s.idx inst

theorem failsToResolve_cons {s : Sys τ} {inst : ClassInst} {insts : List ClassInst} :
    FailsToResolve s (inst :: insts) ↔
      (s.resolved inst.addr = false ∧ Unresolvable s.idx inst) ∨
      FailsToResolve { s with resolved := Function.update s.resolved inst.addr true } insts := by
  constructor
  · rintro ⟨pre, j, post, heq, hflag, hfirst, hbad⟩
    cases pre with
    | nil =>
        cases heq
        exact .inl ⟨hflag, hbad⟩
    | cons i pre =>
        cases heq
        have hne : j.addr ≠ inst.addr := (hfirst inst (List.mem_cons_self ..)).symm
        refine .inr ⟨pre, j, post, rfl, ?_, fun i hi => hfirst i (List.mem_cons_of_mem _ hi), hbad⟩
        exact (Function.update_of_ne hne _ _).trans hflag
  · rintro (⟨hflag, hbad⟩ | ⟨pre, j, post, rfl, hflag, hfirst, hbad⟩)
    · exact ⟨[], inst, insts, rfl, hflag, (fun i hi => nomatch hi), hbad⟩
    · have hne : j.addr ≠ inst.addr := by
        intro heq
        rw [heq] at hflag
        exact absurd hflag (by simp)
      refine ⟨inst :: pre, j, post, rfl, (Function.update_of_ne hne _ _).symm.trans hflag, ?_, hbad⟩
      intro i hi
      rcases List.mem_cons.mp hi with rfl | hi
      · exact hne.symm
      · exact hfirst i hi

/-- Whether resolving fails depends on the bodies and the flags alone. -/
theorem Loads.failsToResolve_iff {s s' : Sys τ} (h : Loads s.idx s'.idx)
    (hflags : s'.resolved = s.resolved) (insts : List ClassInst) :
    FailsToResolve s' insts ↔ FailsToResolve s insts := by
  simp only [FailsToResolve, hflags, h.unresolvable_iff]

/-- **Resolving instances** fails exactly when one of them cannot be resolved. -/
def ResolveOutcome (s : Sys τ) (insts : List ClassInst) : Prop :=
  (FailsToResolve s insts ∧ ∃ e s', (insts.forM resolveInst).run s = .error (.err e) s' ∧
    Resolves s s') ∨
  (¬FailsToResolve s insts ∧ ∃ s', (insts.forM resolveInst).run s = .ok () s' ∧ Resolves s s')

theorem resolveOutcome (insts : List ClassInst) (s : Sys τ) : ResolveOutcome s insts := by
  induction insts generalizing s with
  | nil =>
      refine .inr ⟨?_, s, rfl, refl_of Resolves s⟩
      rintro ⟨pre, inst, post, heq, -⟩
      simp at heq
  | cons inst insts ih =>
      have hround : (resolveInst inst).run s
          = (if s.resolved inst.addr then pure () else kndClassInstResolve inst : SysM τ Unit).run s := rfl
      -- what the round does, unless it fails: the flag of the instance is set
      have hgo : ∀ s₁, (resolveInst inst).run s = .ok () s₁ → Resolves s s₁ →
          s₁.resolved = Function.update s.resolved inst.addr true →
          ¬(s.resolved inst.addr = false ∧ Unresolvable s.idx inst) →
          ResolveOutcome s (inst :: insts) := by
        intro s₁ hrun hmoved hflags hgood
        rw [ResolveOutcome, failsToResolve_cons]
        have hsame := hmoved.idx.failsToResolve_iff (s := { s with
          resolved := Function.update s.resolved inst.addr true }) hflags insts
        have hloop : ((inst :: insts).forM resolveInst).run s = (insts.forM resolveInst).run s₁ :=
          run_bind_of_ok hrun
        rcases ih s₁ with ⟨hfail, e, s', herr, hmoved'⟩ | ⟨hnofail, s', hok, hmoved'⟩
        · exact Or.inl ⟨.inr (hsame.mp hfail), e, s', hloop.trans herr,
            trans_of Resolves hmoved hmoved'⟩
        · refine Or.inr ⟨?_, s', hloop.trans hok, trans_of Resolves hmoved hmoved'⟩
          rintro (hbad | hfail)
          · exact hgood hbad
          · exact hnofail (hsame.mpr hfail)
      by_cases hflag : s.resolved inst.addr = true
      · rw [if_pos hflag] at hround
        refine hgo s hround (refl_of Resolves s) ?_ fun h => ?_
        · funext x
          by_cases hx : x = inst.addr
          · rw [hx, hflag, Function.update_self]
          · rw [Function.update_of_ne hx]
        · rw [hflag] at h
          cases h.1
      · rw [if_neg hflag] at hround
        rcases run_kndClassInstResolve inst s with ⟨hbad, e, s', herr, hmoved⟩ |
          ⟨hgood, s₁, hok, hmoved, hflags⟩
        · exact .inl ⟨failsToResolve_cons.mpr (.inl ⟨Bool.eq_false_iff.mpr hflag, hbad⟩), e, s',
            run_bind_of_error (hround.trans herr), hmoved⟩
        · exact hgo s₁ (hround.trans hok) hmoved hflags fun h => hgood h.2

/-- The instances of a commit. -/
def Commit.insts (self : Commit) : List ClassInst :=
  self.classStateRefs.flatMap ClassStateRef.children

theorem run_kndResolveCommit (c : CommitAddr) (s : Sys τ) :
    (kndResolveCommit c).run s = ((s.ledger.commits c).insts.forM resolveInst).run s := by
  rw [Commit.insts, forM_flatMap]
  rfl

end Resolve

/-! ## (2) The conflict check -/

theorem walFrame_kept_idx (c : CommitAddr) : WalFrame c (Kept (Sys.idx : Sys τ → Indices τ)) where
  commit _ _ _ := rfl
  renumber _ _ := rfl
  push _ _ _ _ _ := rfl
  disk _ _ := rfl

/-- Taking the next number keeps what the commit registers. -/
theorem linkToHead_ok (c : CommitAddr) (s : Sys τ) : ∃ s', (linkToHead c).run s = .ok () s' ∧
    (s'.ledger.commits c).classStateRefs = (s.ledger.commits c).classStateRefs := by
  rw [run_linkToHead]
  cases s.snapshot.commits with
  | none => exact ⟨s, rfl, rfl⟩
  | some head =>
      refine ⟨_, rfl, ?_⟩
      show (Function.update s.ledger.commits c _ c).classStateRefs = _
      rw [Function.update_self]

/-- Only new classes are checked for conflicts. -/
theorem run_checkClassConflicts {c : CommitAddr} {s : Sys τ}
    (h : ∀ ref ∈ (s.ledger.commits c).classStateRefs, ref.phase = .selected) :
    (checkClassConflicts c).run s = .ok () s := by
  have hunfold : (checkClassConflicts c).run s
      = ((s.ledger.commits c).classStateRefs.forM (checkClassState c)).run s := rfl
  rw [hunfold]
  revert h
  induction (s.ledger.commits c).classStateRefs with
  | nil => exact fun _ => rfl
  | cons ref refs ih =>
      intro h
      have hskip : (checkClassState c ref).run s = .ok () s := by
        unfold checkClassState
        rw [h ref (List.mem_cons_self ..)]
        rfl
      exact (run_bind_of_ok hskip).trans (ih fun r hr => h r (List.mem_cons_of_mem ref hr))

/-- A commit that registers nothing has no new classes. -/
theorem phase_of_registrations_eq_nil {refs : List ClassStateRef} (h : registrations refs = []) :
    ∀ ref ∈ refs, ref.phase = .selected := by
  intro ref href
  have hnil : ref.registrations = [] := List.flatMap_eq_nil_iff.mp h ref href
  cases hphase : ref.phase with
  | selected => rfl
  | created =>
      rw [ClassStateRef.registrations, hphase] at hnil
      cases hnil

/-- **A commit that registers nothing passes the conflict check.** -/
theorem run_checkCommitConflicts {c : CommitAddr} {s : Sys τ}
    (h : registrations (s.ledger.commits c).classStateRefs = []) :
    ∃ s', (checkCommitConflicts c).run s = .ok () s' := by
  obtain ⟨s₁, hlink, hrefs⟩ := linkToHead_ok c s
  have hcheck := @run_checkClassConflicts τ c s₁ (hrefs ▸ phase_of_registrations_eq_nil h)
  exact ⟨_, (run_bind_of_ok hlink).trans ((run_bind_of_ok hcheck).trans rfl)⟩

/-! ## (3) A failed confirmation -/

/-- **The repository is as it was**: its contents and its list of commits. -/
structure Unchanged (s s' : Sys τ) : Prop where
  /-- Classes, instances and texts. -/
  contents : s.idx.SameContents s'.idx
  /-- The list of commits. -/
  commits : ∀ l, Linked s'.ledger.prev s'.snapshot.commits l ↔
    Linked s.ledger.prev s.snapshot.commits l

/-- **The commit is new**, as one that a task has built: nothing of it can be reached yet, and it is not on
the list. -/
structure NewCommit (s : Sys τ) (c : CommitAddr) : Prop where
  /-- Its classes and instances. -/
  fresh : s.idx.Fresh (registrations (s.ledger.commits c).classStateRefs)
  /-- The list of commits. -/
  unlinked : ∃ l, Linked s.ledger.prev s.snapshot.commits l ∧ c ∉ l

theorem Resolves.unchanged {s s' : Sys τ} (h : Resolves s s') : Unchanged s s' where
  contents := h.idx.sameContents
  commits l := by rw [Sys.snapshot, Sys.snapshot, h.ledger]

variable [AttrVarOps τ]

/-- **The confirmation fails before its first visible change**: the task only exports the commit, an
instance cannot be resolved, or the first registration is refused and hides nothing. -/
def FailsHarmlessly (s : Sys τ) (c : CommitAddr) : Prop :=
  s.task.role ≠ .arbiter ∨ FailsToResolve s (s.ledger.commits c).insts ∨
  ∃ r, (registrations (s.ledger.commits c).classStateRefs).head? = some r ∧ r.Refused s.idx ∧
    r.HidesNothing s.idx

/-- In other roles than ARBITER the commit is only exported. -/
theorem finalState_confirmAs {role : AgentRole} (h : role ≠ .arbiter) (c : CommitAddr) (s : Sys τ) :
    finalState (confirmAs role c) s = s := by
  have hexport : confirmAs role c = (exportCommitGSL c >>= fun _ => pure () : SysM τ Unit) := by
    cases role with
    | arbiter => exact absurd rfl h
    | reader => rfl
    | writer => rfl
  have hfinal := finalState_exportCommitGSL c s
  rw [hexport]
  cases hrun : (exportCommitGSL c).run s with
  | error e s₁ =>
      rw [finalState_of_error hrun] at hfinal
      rw [finalState_of_error (run_bind_of_error hrun), hfinal]
  | ok body s₁ =>
      rw [finalState_of_ok hrun] at hfinal
      rw [finalState, run_bind_of_ok hrun, hfinal]
      rfl

/-- The stages after the registration leave something of the commit behind: what is registered, or the
commit on the list. -/
theorem not_unchanged_of_registered {s s₁ s' : Sys τ} {c : CommitAddr} {idx : Indices τ} {e : Stop}
    (hnew : NewCommit s c) (hmoved : Resolves s s₁) (hcommit : s₁.task.commit = some c)
    (hupdate : (updateIndices c (s₁.ledger.commits c).classStateRefs).run s₁.idx = .ok () idx)
    (hrun : (checkCommitConflicts c >>= fun _ => buildCommitWAL c).run (s₁.setIdx idx) = .error e s') :
    ¬Unchanged s s' := by
  intro hsame
  have hframe := walFrame_kept_idx (τ := τ) c
  have hkept : s'.idx = idx :=
    ((Moves.bind (moves_checkCommitConflicts hframe) fun _ => moves_buildCommitWAL hframe).of_error
      hrun hcommit).1
  have hrefs : (s₁.ledger.commits c).classStateRefs = (s.ledger.commits c).classStateRefs := by
    rw [hmoved.ledger]
  cases hregs : registrations (s.ledger.commits c).classStateRefs with
  | nil =>
      -- nothing is registered, but the commit is on the list
      obtain ⟨s₃, hcheck⟩ := @run_checkCommitConflicts τ c (s₁.setIdx idx)
        (show registrations (s₁.ledger.commits c).classStateRefs = [] by rw [hrefs, hregs])
      rw [run_bind_of_ok hcheck] at hrun
      have hcommit₃ := ((moves_checkCommitConflicts hframe).of_ok hcheck hcommit).2
      have hhead : s'.snapshot.commits = some c :=
        ((moves_buildCommitWAL (confirmFrame_heads c).toWalFrame).of_error hrun hcommit₃).1.front
          (checkCommitConflicts_front hcheck)
      obtain ⟨l, hl, hnotin⟩ := hnew.unlinked
      have hl' := (hsame.commits l).mpr hl
      rw [hhead] at hl'
      cases hl' with
      | cons _ => exact hnotin (List.mem_cons_self ..)
  | cons r rs =>
      -- the first registration was not refused, so something new can be reached
      rw [hrefs] at hupdate
      have hfirst : ¬r.Refused s₁.idx := by
        intro hrefused
        obtain ⟨e', idx', herr, -⟩ := updateIndices_refused (c := c) hregs hrefused
        rw [hupdate] at herr
        cases herr
      rcases updateIndices_not_refused (c := c) hregs (fun _ => id) hfirst with hbound | habort
      · rw [finalState_of_ok hupdate] at hbound
        exact hbound.not_sameContents hnew.fresh (hkept ▸ hsame.contents)
      · rw [hupdate] at habort
        cases habort

/-- **A failed confirmation leaves the repository as it was** when it fails before its first visible
change; of a new commit it does so in no other case. -/
theorem kndConfirmCommit_unchanged_iff {s s' : Sys τ} {c : CommitAddr} {e : KndErr}
    (hcommit : s.task.commit = some c) (hrun : kndConfirmCommit.run s = .error (.err e) s') :
    (FailsHarmlessly s c → Unchanged s s') ∧
    (NewCommit s c → Unchanged s s' → FailsHarmlessly s c) := by
  rw [run_kndConfirmCommit hcommit] at hrun
  rcases resolveOutcome (s.ledger.commits c).insts s with ⟨hfail, e₁, s₁, herr, hmoved⟩ |
    ⟨hresolved, s₁, hok, hmoved⟩
  · -- an instance is not resolved
    rw [← run_kndResolveCommit] at herr
    rw [run_bind_of_error herr] at hrun
    cases hrun
    exact ⟨fun _ => hmoved.unchanged, fun _ _ => .inr (.inl hfail)⟩
  · rw [← run_kndResolveCommit] at hok
    rw [run_bind_of_ok hok] at hrun
    by_cases hrole : s.task.role = .arbiter
    · have hharmless : FailsHarmlessly s c ↔
          ∃ r, (registrations (s.ledger.commits c).classStateRefs).head? = some r ∧
            r.Refused s₁.idx ∧ r.HidesNothing s₁.idx := by
        rw [FailsHarmlessly]
        simp only [hrole, ne_eq, not_true_eq_false, hresolved, false_or, hmoved.idx.refused_iff,
          hmoved.idx.hidesNothing_iff]
      have hrefs : (s₁.ledger.commits c).classStateRefs = (s.ledger.commits c).classStateRefs := by
        rw [hmoved.ledger]
      rw [hrole] at hrun
      have hstep : (updateCommitIndices c).run s₁
          = (onIdx (updateIndices c (s₁.ledger.commits c).classStateRefs)).run s₁ := rfl
      rw [onIdx, run_zoom] at hstep
      cases hupdate : (updateIndices c (s₁.ledger.commits c).classStateRefs).run s₁.idx with
      | error e₁ idx =>
          rw [hupdate] at hstep
          have hstop : (confirmAs .arbiter c).run s₁ = .error e₁ (s₁.setIdx idx) :=
            run_bind_of_error hstep
          rw [hstop] at hrun
          cases hrun
          rw [hrefs] at hupdate
          rw [hharmless]
          constructor
          · rintro ⟨r, hr, hrefused, hhides⟩
            obtain ⟨rs, hregs⟩ := List.head?_eq_some_iff.mp hr
            obtain ⟨e', idx', herr, hleft⟩ := updateIndices_refused (c := c) hregs hrefused
            rw [hupdate] at herr
            cases herr
            have hsame := (hleft fun habort => by cases habort).sameContents_iff.mpr hhides
            exact ⟨hmoved.idx.sameContents.trans hsame, hmoved.unchanged.commits⟩
          · intro hnew hsame
            refine (updateIndices_error_iff (hmoved.idx.fresh hnew.fresh) hupdate).mp ?_
            exact ⟨fun name => (hsame.contents.classes_eq name).trans
                (hmoved.idx.sameContents.classes_eq name).symm,
              fun a name => (hsame.contents.names_eq a name).trans
                (hmoved.idx.sameContents.names_eq a name).symm,
              fun a id => (hsame.contents.ids_eq a id).trans
                (hmoved.idx.sameContents.ids_eq a id).symm,
              hsame.contents.texts_eq.trans hmoved.idx.sameContents.texts_eq.symm⟩
      | ok u idx =>
          rw [hupdate] at hstep
          have hgo : (confirmAs .arbiter c).run s₁
              = (checkCommitConflicts c >>= fun _ => buildCommitWAL c).run (s₁.setIdx idx) :=
            run_bind_of_ok hstep
          rw [hgo] at hrun
          have hcommit₁ : s₁.task.commit = some c := by rw [hmoved.task, hcommit]
          rw [hharmless]
          refine ⟨?_, fun hnew hsame =>
            absurd hsame (not_unchanged_of_registered hnew hmoved hcommit₁ hupdate hrun)⟩
          -- a refused first registration would have ended the confirmation before
          rintro ⟨r, hr, hrefused, -⟩
          obtain ⟨rs, hregs⟩ := List.head?_eq_some_iff.mp hr
          obtain ⟨e', idx', herr, -⟩ := updateIndices_refused (c := c) hregs hrefused
          rw [hrefs, herr] at hupdate
          cases hupdate
    · -- other roles only export the commit
      have hfinal := finalState_confirmAs hrole c s₁
      rw [finalState_of_error hrun] at hfinal
      rw [hfinal]
      exact ⟨fun _ => hmoved.unchanged, fun _ _ => .inl hrole⟩

/-- The commit of a new class in an ARBITER whose journal cannot be written. -/
def unwritable : Sys Unit :=
  finalState (parseClassImport [97] [])
    { Sys.small .arbiter [] with disk := { Disk.small [] with writesLeft := 0 } }

/-- Its confirmation fails, and leaves the repository as it was exactly if it fails harmlessly. -/
theorem kndConfirmCommit_unchanged_unwritable :
    (FailsHarmlessly unwritable 0 → Unchanged unwritable (finalState kndConfirmCommit unwritable)) ∧
    (NewCommit unwritable 0 → Unchanged unwritable (finalState kndConfirmCommit unwritable) →
      FailsHarmlessly unwritable 0) :=
  @kndConfirmCommit_unchanged_iff _ _ unwritable _ 0 .ioFail rfl rfl

/-- **The journal cannot be written**: the confirmation returns an error, but the class is registered and
the commit is on the list. -/
theorem kndConfirmCommit_not_undone :
    let s' := finalState kndConfirmCommit unwritable
    failure? kndConfirmCommit unwritable = some (.err .ioFail) ∧
      unwritable.idx.classByName [97] = none ∧ s'.idx.classByName [97] = some 1 ∧
      unwritable.snapshot.commits = none ∧ s'.snapshot.commits = some 0 ∧
      ¬Unchanged unwritable s' := by
  intro s'
  have hbefore : unwritable.idx.classByName [97] = none := by decide +kernel
  have hafter : s'.idx.classByName [97] = some 1 := by decide +kernel
  refine ⟨by decide +kernel, hbefore, hafter, by decide +kernel, by decide +kernel, fun h => ?_⟩
  rw [h.contents.classes_eq, hbefore] at hafter
  cases hafter

end Knowdy
