import Knowdy.CommitFrames
import Knowdy.RestoreCollect

/-! # The order of a replay

A restore applies the collected commits in the order in which `knd_set_map` traverses the commit set.

* `Replaying c` — what the replay of the commit `c` leaves alone; `replaying_parse`.
* `forM_kndApplyCommit` — the calls of `knd_apply_commit` are those of the traversal, up to the first one
  that fails.
* `pairwise_elems` — the traversal meets the commits in the order `TrieBefore` of their numbers.
* `kndRepoRestore_in_order_iff` — **a restore applies the commits in the order of their numbers exactly
  when that order agrees with the numbers.** -/

namespace Knowdy

variable {τ : Type}

/-! ## (1) What a replay leaves alone -/

/-- **What the replay of the commit `c` leaves alone**: the other commits, the commit set, where the
snapshot is and who the task is. -/
structure Replaying (c : CommitAddr) (s s' : Sys τ) : Prop where
  /-- The other commits. -/
  others : ∀ d, d ≠ c → s'.ledger.commits d = s.ledger.commits d
  /-- No commit is made. -/
  nextCommit : s'.ledger.nextCommit = s.ledger.nextCommit
  /-- The calls of `knd_apply_commit`. -/
  applied : s'.ledger.applied = s.ledger.applied
  /-- The commit set. -/
  commitIdx : s'.snapshot.commitIdx = s.snapshot.commitIdx
  /-- The snapshot. -/
  snapshot : s'.snapshot.path = s.snapshot.path ∧ s'.snapshot.numid = s.snapshot.numid
  /-- The repository. -/
  env : s'.name = s.name ∧ s'.repoPathSize = s.repoPathSize ∧ s'.now = s.now
  /-- The task. -/
  task : s'.task.id = s.task.id ∧ s'.task.role = s.task.role

instance (c : CommitAddr) : IsPreorder (Sys τ) (Replaying c) where
  refl _ := ⟨fun _ _ => rfl, rfl, rfl, rfl, ⟨rfl, rfl⟩, ⟨rfl, rfl, rfl⟩, ⟨rfl, rfl⟩⟩
  trans _ _ _ h h' := {
    others := fun d hd => (h'.others d hd).trans (h.others d hd)
    nextCommit := h'.nextCommit.trans h.nextCommit
    applied := h'.applied.trans h.applied
    commitIdx := h'.commitIdx.trans h.commitIdx
    snapshot := ⟨h'.snapshot.1.trans h.snapshot.1, h'.snapshot.2.trans h.snapshot.2⟩
    env := ⟨h'.env.1.trans h.env.1, h'.env.2.1.trans h.env.2.1, h'.env.2.2.trans h.env.2.2⟩
    task := ⟨h'.task.1.trans h.task.1, h'.task.2.trans h.task.2⟩ }

/-- All steps of a task with the commit `c` leave these alone, those of an ARBITER included. -/
theorem confirmFrame_replaying (c : CommitAddr) : ConfirmFrame c (Replaying (τ := τ) c) where
  idx _ _ _ := ⟨fun _ _ => rfl, rfl, rfl, rfl, ⟨rfl, rfl⟩, ⟨rfl, rfl, rfl⟩, ⟨rfl, rfl⟩⟩
  resolved _ _ := ⟨fun _ _ => rfl, rfl, rfl, rfl, ⟨rfl, rfl⟩, ⟨rfl, rfl, rfl⟩, ⟨rfl, rfl⟩⟩
  task _ _ hid hrole _ _ _ :=
    ⟨fun _ _ => rfl, rfl, rfl, rfl, ⟨rfl, rfl⟩, ⟨rfl, rfl, rfl⟩, ⟨hid, hrole⟩⟩
  type _ := ⟨fun _ _ => rfl, rfl, rfl, rfl, ⟨rfl, rfl⟩, ⟨rfl, rfl, rfl⟩, ⟨rfl, rfl⟩⟩
  commit _ _ _ := ⟨fun _ hd => Function.update_of_ne hd _ _, rfl, rfl, rfl, ⟨rfl, rfl⟩,
    ⟨rfl, rfl, rfl⟩, ⟨rfl, rfl⟩⟩
  renumber _ _ := ⟨fun _ hd => Function.update_of_ne hd _ _, rfl, rfl, rfl, ⟨rfl, rfl⟩,
    ⟨rfl, rfl, rfl⟩, ⟨rfl, rfl⟩⟩
  role _ := ⟨fun _ _ => rfl, rfl, rfl, rfl, ⟨rfl, rfl⟩, ⟨rfl, rfl, rfl⟩, ⟨rfl, rfl⟩⟩
  push _ _ _ _ _ := ⟨fun _ _ => rfl, rfl, rfl, rfl, ⟨rfl, rfl⟩, ⟨rfl, rfl, rfl⟩, ⟨rfl, rfl⟩⟩
  disk _ _ := ⟨fun _ _ => rfl, rfl, rfl, rfl, ⟨rfl, rfl⟩, ⟨rfl, rfl, rfl⟩, ⟨rfl, rfl⟩⟩

/-! ## (2) The calls of `knd_apply_commit` -/

/-- The state in which `knd_apply_commit` starts to parse: the call is noted and the task restores the
commit. -/
def startApply (c : CommitAddr) (s : Sys τ) : Sys τ :=
  { s with
    ledger := { s.ledger with applied := s.ledger.applied ++ [(s.ledger.commits c).numid] }
    task := { s.task with
      type := .restore
      commit := some c
      classInstStateRefs := []
      classNameIdx := [] } }

section Calls

variable [AttrVarOps τ]

/-- The part of `knd_apply_commit` after its preparations. -/
def replay (c : CommitAddr) (body : List TaskItem) : SysM τ Unit := do
  kndParseTask nestedRestore body
  kndResolveCommit c
  updateCommitIndices c
  applyPush c

theorem run_kndApplyCommit (c : CommitAddr) (s : Sys τ) :
    (kndApplyCommit c).run s
      = (replay c (s.ledger.commits c).record).run (startApply c s) := rfl

omit [AttrVarOps τ] in
theorem moves_applyPush {c : CommitAddr} {R : Sys τ → Sys τ → Prop} [IsPreorder (Sys τ) R]
    (hR : ConfirmFrame c R) : Moves (UnderCommit c R) (applyPush c : SysM τ Unit) :=
  .bind .get fun _ => .bind (moves_modifyCommit hR.toCommitFrame _ fun _ => rfl) fun _ =>
    UnderCommit.step (fun s => hR.push s (some c) s.ledger.snapshot.numCommits
      s.ledger.snapshot.numJournals (.inr rfl)) fun _ => rfl

/-- A replay moves the state along every relation that allows the steps of an ARBITER. -/
theorem moves_replay {c : CommitAddr} {R : Sys τ → Sys τ → Prop} [IsPreorder (Sys τ) R]
    (hR : ConfirmFrame c R) (body : List TaskItem) :
    Moves (UnderCommit c R) (replay c body : SysM τ Unit) :=
  .bind (moves_kndParseTask hR body) fun _ =>
    .bind (moves_kndResolveCommit hR.toSelectFrame c) fun _ =>
      .bind (moves_updateCommitIndices hR.toSelectFrame c) fun _ => moves_applyPush hR

/-- **A call of `knd_apply_commit`** leaves the other commits alone and is noted once. -/
theorem kndApplyCommit_frame (c : CommitAddr) (s : Sys τ) :
    let s' := finalState (kndApplyCommit c) s
    (∀ d, d ≠ c → s'.ledger.commits d = s.ledger.commits d) ∧
    s'.snapshot.commitIdx = s.snapshot.commitIdx ∧
    s'.ledger.applied = s.ledger.applied ++ [(s.ledger.commits c).numid] := by
  intro s'
  have hmove := (moves_replay (confirmFrame_replaying c) (s.ledger.commits c).record
    (startApply c s) rfl).1
  exact ⟨hmove.others, hmove.commitIdx, hmove.applied⟩

/-- What no replay changes: the number of the snapshot, the name and the path of the repository, and the next
address. -/
def replayKept (s : Sys τ) : Nat × Name × Nat × CommitAddr :=
  (s.snapshot.numid, s.name, s.repoPathSize, s.ledger.nextCommit)

omit [AttrVarOps τ] in
theorem replayKept_eq {s s' : Sys τ} (h : replayKept s' = replayKept s) : s'.snapshot.numid = s.snapshot.numid ∧
    s'.name = s.name ∧ s'.repoPathSize = s.repoPathSize ∧ s'.ledger.nextCommit = s.ledger.nextCommit :=
  ⟨congrArg Prod.fst h, congrArg (fun p => p.2.1) h, congrArg (fun p => p.2.2.1) h, congrArg (fun p => p.2.2.2) h⟩

/-- A call of `knd_apply_commit` keeps these, and makes no commit. -/
theorem kndApplyCommit_kept (c : CommitAddr) : Moves (Kept replayKept) (kndApplyCommit c : SysM τ Unit) := by
  intro s
  have hmove := (moves_replay (confirmFrame_replaying c) (s.ledger.commits c).record
    (startApply c s) rfl).1
  have hnumid : (finalState (kndApplyCommit c) s).snapshot.numid = s.snapshot.numid := hmove.snapshot.2
  have hname : (finalState (kndApplyCommit c) s).name = s.name := hmove.env.1
  have hpath : (finalState (kndApplyCommit c) s).repoPathSize = s.repoPathSize := hmove.env.2.1
  have hnext : (finalState (kndApplyCommit c) s).ledger.nextCommit = s.ledger.nextCommit := hmove.nextCommit
  show (_, _, _, _) = (_, _, _, _)
  rw [hnumid, hname, hpath, hnext]

/-- A call of `knd_apply_commit` keeps the role of the task. -/
theorem kndApplyCommit_role (c : CommitAddr) (s : Sys τ) :
    (finalState (kndApplyCommit c) s).task.role = s.task.role :=
  (moves_replay (confirmFrame_replaying c) (s.ledger.commits c).record (startApply c s) rfl).1.task.2

/-- **The calls of a traversal**: those for all elements when it returns, and for some first ones when
it fails. -/
theorem forM_kndApplyCommit {cs : List CommitAddr} (hcs : cs.Nodup) (s : Sys τ) :
    (∀ s', (cs.forM kndApplyCommit).run s = .ok () s' →
      s'.ledger.applied = s.ledger.applied ++ cs.map fun c => (s.ledger.commits c).numid) ∧
    ∃ pre, pre <+: cs ∧ (finalState (cs.forM kndApplyCommit) s).ledger.applied
      = s.ledger.applied ++ pre.map fun c => (s.ledger.commits c).numid := by
  induction cs generalizing s with
  | nil =>
      refine ⟨fun s' hrun => ?_, [], List.prefix_rfl, ?_⟩
      · cases hrun
        simp
      · show s.ledger.applied = _
        simp
  | cons c cs ih =>
      obtain ⟨hnotin, hcs'⟩ := List.nodup_cons.mp hcs
      obtain ⟨hothers, -, happlied⟩ := kndApplyCommit_frame c s
      -- what was noted for `c`, and that the numbers of the others are what they were
      have hnumids : ∀ (s₁ : Sys τ) (l : List CommitAddr), (∀ d ∈ l, d ∈ cs) →
          (∀ d, d ≠ c → s₁.ledger.commits d = s.ledger.commits d) →
          (l.map fun d => (s₁.ledger.commits d).numid)
            = l.map fun d => (s.ledger.commits d).numid := by
        intro s₁ l hl hkeep
        refine List.map_congr_left fun d hd => ?_
        have hne : d ≠ c := fun heq => hnotin (heq ▸ hl d hd)
        rw [hkeep d hne]
      cases hrun : (kndApplyCommit c).run s with
      | error e s₁ =>
          rw [finalState_of_error hrun] at happlied
          have hstop : ((c :: cs).forM kndApplyCommit).run s = .error e s₁ := run_bind_of_error hrun
          refine ⟨fun s' hok => ?_, [c], List.prefix_append [c] cs, ?_⟩
          · rw [hstop] at hok
            cases hok
          · rw [finalState_of_error hstop, happlied]
            rfl
      | ok u s₁ =>
          rw [finalState_of_ok hrun] at happlied hothers
          obtain ⟨hall, pre, hpre, hfinal⟩ := ih hcs' s₁
          have hgo : ((c :: cs).forM kndApplyCommit).run s = (cs.forM kndApplyCommit).run s₁ :=
            run_bind_of_ok hrun
          refine ⟨fun s' hok => ?_, c :: pre, (List.prefix_cons_inj c).mpr hpre, ?_⟩
          · rw [hgo] at hok
            rw [hall s' hok, happlied, hnumids s₁ cs (fun _ => id) hothers]
            simp
          · rw [finalState, hgo, ← finalState, hfinal, happlied,
              hnumids s₁ pre (fun d hd => hpre.subset hd) hothers]
            simp

end Calls

/-! ## (3) The order of the traversal -/

/-- **The commits come in the order `TrieBefore` of their numbers.** -/
theorem pairwise_elems {L : Ledger} {cs : List CommitAddr} {rs : List WalRecord}
    (h : Collected L cs rs) : L.snapshot.commitIdx.elems.Pairwise fun c d =>
      TrieBefore (L.commits c).numid (L.commits d).numid :=
  h.holds.pairwise_elems

/-- **Two numbers are met in their order**: the traversal agrees with `<` on the numbers `ns`. -/
def InTrieOrder (ns : List Nat) : Prop := ∀ a ∈ ns, ∀ b ∈ ns, a < b → TrieBefore a b

instance (ns : List Nat) : Decidable (InTrieOrder ns) :=
  inferInstanceAs (Decidable (∀ a ∈ ns, ∀ b ∈ ns, a < b → TrieBefore a b))

/-- Short histories are in order: all numbers are at most 123. -/
theorem inTrieOrder_of_le {ns : List Nat} (h : ∀ n ∈ ns, n ≤ 123) : InTrieOrder ns :=
  fun _ _ b hb hab => trieBefore_of_lt hab (h b hb)

/-- Numbers in the order of the traversal are increasing exactly when the two orders agree on them. -/
theorem increasing_iff_inTrieOrder {ns : List Nat} (hsorted : ns.Pairwise TrieBefore)
    (hnodup : ns.Nodup) : ns.Pairwise (· < ·) ↔ InTrieOrder ns :=
  pairwise_iff_agree hsorted (fun h => Nat.lt_asymm h)
    (hnodup.imp fun h => Nat.lt_or_gt_of_ne h) TrieLt.asymm

/-! ## (4) The restore -/

variable [AttrVarOps τ]

/-- The numbers of the commits that a program hands to `knd_apply_commit`, in this order. -/
def appliedBy (x : SysM τ Unit) (s : Sys τ) : List Nat :=
  (finalState x s).ledger.applied.drop s.ledger.applied.length

/-- The second part of a restore is a loop over the commit set. -/
theorem run_applyCommits (s : Sys τ) :
    applyCommits.run s = (if s.snapshot.commitIdx.numElems = 0 then pure ()
      else (s.snapshot.commitIdx.elems.forM kndApplyCommit >>= fun _ => modifySnapshot fun snapshot =>
        { snapshot with numCommits := snapshot.commitIdx.numElems }) : SysM τ Unit).run s := by
  rw [← kndSetMap_eq]
  rfl

/-- The second part of a restore makes no commit and keeps the number of the snapshot. -/
theorem applyCommits_kept : Moves (Kept replayKept) (applyCommits : SysM τ Unit) := by
  intro s
  rw [finalState, run_applyCommits, ← finalState]
  by_cases hzero : s.snapshot.commitIdx.numElems = 0
  · rw [if_pos hzero]
    rfl
  · rw [if_neg hzero]
    have hcount : Moves (Kept replayKept) (modifySnapshot fun snapshot =>
        { snapshot with numCommits := snapshot.commitIdx.numElems } : SysM τ Unit) := fun _ => rfl
    exact Moves.bind (.forM fun c _ => kndApplyCommit_kept c) (fun _ => hcount) s

/-- The numbers of the collected commits, in the order of the traversal. -/
def collectedNumids (s : Sys τ) : List Nat :=
  s.snapshot.commitIdx.elems.map fun c => (s.ledger.commits c).numid

/-- The second part of a restore, after the journals of the records `rs` were collected. -/
theorem applyCommits_applied {s : Sys τ} {cs : List CommitAddr} {rs : List WalRecord}
    (h : Collected s.ledger cs rs) :
    (collectedNumids s).Perm (rs.map (·.numid)) ∧ (collectedNumids s).Pairwise TrieBefore ∧
      (∀ s', applyCommits.run s = .ok () s' →
        s'.ledger.applied = s.ledger.applied ++ collectedNumids s) ∧
      ∃ pre, pre <+: collectedNumids s ∧
        (finalState applyCommits s).ledger.applied = s.ledger.applied ++ pre := by
  rw [collectedNumids]
  set elems := s.snapshot.commitIdx.elems with helems
  refine ⟨?_, ?_, ?_⟩
  · rw [← h.numids]
    exact h.perm.map _
  · rw [List.pairwise_map]
    exact pairwise_elems h
  · have hnodup : elems.Nodup := h.perm.nodup_iff.mpr h.nodup
    have hrun := run_applyCommits s
    rw [← helems] at hrun
    by_cases hzero : s.snapshot.commitIdx.numElems = 0
    · -- nothing was collected
      have hcs : cs = [] := List.length_eq_zero_iff.mp (h.count ▸ hzero)
      have hnil : elems = [] := List.perm_nil.mp (hcs ▸ h.perm)
      rw [if_pos hzero] at hrun
      rw [finalState, hrun, hnil]
      refine ⟨fun s' hok => ?_, [], List.prefix_rfl, ?_⟩
      · cases hok
        simp
      · show s.ledger.applied = _
        simp
    · obtain ⟨hall, pre, hpre, hfinal⟩ := forM_kndApplyCommit hnodup s
      rw [if_neg hzero] at hrun
      constructor
      · intro s' hok
        rw [hrun] at hok
        obtain ⟨u, s₁, hloop, hcount⟩ := run_bind_eq_ok.mp hok
        cases hcount
        exact hall s₁ hloop
      · refine ⟨pre.map fun c => (s.ledger.commits c).numid, hpre.map _, ?_⟩
        rw [← hfinal, finalState, hrun, ← finalState]
        cases hloop : (elems.forM kndApplyCommit).run s with
        | ok u s₁ => rw [finalState, run_bind_of_ok hloop, finalState_of_ok hloop]; rfl
        | error e s₁ => rw [finalState_of_error (run_bind_of_error hloop), finalState_of_error hloop]

/-- **A restore applies the commits of the journals in the order of their numbers exactly when that
order is the order of the traversal.** With agreeing orders every run, a failing one included, applies
a first part of the increasing enumeration; a returning run applies all commits, in increasing order
only if the orders agree. -/
theorem kndRepoRestore_in_order_iff (s : Sys τ) (hidx : s.snapshot.commitIdx = {})
    (hdistinct : ((journalRecords s).map (·.numid)).Nodup) :
    (InTrieOrder ((journalRecords s).map (·.numid)) → ∃ ns : List Nat,
      ns.Perm ((journalRecords s).map (·.numid)) ∧ ns.Pairwise (· < ·) ∧
        appliedBy kndRepoRestore s <+: ns) ∧
    ∀ s', kndRepoRestore.run s = .ok () s' →
      (appliedBy kndRepoRestore s).Perm ((journalRecords s).map (·.numid)) ∧
      ((appliedBy kndRepoRestore s).Pairwise (· < ·) ↔
        InTrieOrder ((journalRecords s).map (·.numid))) := by
  set numids := (journalRecords s).map (·.numid) with hnumids
  have horder : ∀ ns : List Nat, ns.Perm numids → (InTrieOrder ns ↔ InTrieOrder numids) := by
    intro ns hperm
    simp only [InTrieOrder, hperm.mem_iff]
  cases hcollect : (restoreAgents (List.range maxTasks)).run s with
  | error e s₁ =>
      -- the journals are refused: nothing is applied
      have hmoves := (collecting_restoreAgents (List.range maxTasks)).of_error hcollect
      have hstop : kndRepoRestore.run s = .error e s₁ := run_bind_of_error hcollect
      have hnone : appliedBy kndRepoRestore s = [] := by
        rw [appliedBy, finalState_of_error hstop, hmoves.applied, List.drop_length]
      refine ⟨fun _ => ⟨numids.mergeSort, List.mergeSort_perm _ _, ?_, ?_⟩, fun s' hok => ?_⟩
      · have hsorted := List.pairwise_mergeSort' (· ≤ ·) numids
        have hne : numids.mergeSort.Nodup := (List.mergeSort_perm numids _).nodup_iff.mpr hdistinct
        exact (hsorted.and hne).imp fun h => lt_of_le_of_ne h.1 h.2
      · rw [hnone]
        exact List.nil_prefix
      · rw [hstop] at hok
        cases hok
  | ok u s₁ =>
      obtain ⟨hmoves, cs, hcollected, -⟩ := restoreAgents_ok hidx hcollect
      obtain ⟨hperm, hsorted, hall, pre, hpre, hfinal⟩ := applyCommits_applied hcollected
      set ns := collectedNumids s₁
      have hrun : kndRepoRestore.run s = applyCommits.run s₁ := run_bind_of_ok hcollect
      have hsome : appliedBy kndRepoRestore s = pre := by
        rw [appliedBy, finalState, hrun, ← finalState, hfinal, hmoves.applied, List.drop_left]
      have hnodup : ns.Nodup := hperm.nodup_iff.mpr hdistinct
      constructor
      · intro hagree
        refine ⟨ns, hperm, ?_, hsome ▸ hpre⟩
        exact (increasing_iff_inTrieOrder hsorted hnodup).mpr ((horder ns hperm).mpr hagree)
      · intro s' hok
        have happlied : appliedBy kndRepoRestore s = ns := by
          have hok' : applyCommits.run s₁ = .ok () s' := hrun ▸ hok
          rw [appliedBy, finalState_of_ok hok, hall s' hok', hmoves.applied, List.drop_left]
        rw [happlied, ← horder ns hperm]
        exact ⟨hperm, increasing_iff_inTrieOrder hsorted hnodup⟩

/-- The commits 124 and 63 of a journal are applied in increasing order exactly if the traversal meets
63 first. -/
theorem kndRepoRestore_in_order_pair :
    let s := Sys.small .writer [.ofClass 124 [97], .ofClass 63 [98]]
    (InTrieOrder [124, 63] → ∃ ns : List Nat, ns.Perm [124, 63] ∧ ns.Pairwise (· < ·) ∧
      appliedBy kndRepoRestore s <+: ns) ∧
    ∀ s', kndRepoRestore.run s = .ok () s' →
      (appliedBy kndRepoRestore s).Perm [124, 63] ∧
      ((appliedBy kndRepoRestore s).Pairwise (· < ·) ↔ InTrieOrder [124, 63]) :=
  kndRepoRestore_in_order_iff (.small .writer [.ofClass 124 [97], .ofClass 63 [98]]) rfl
    (by decide +kernel)

/-- **A journal with the commits 63 and 124** is replayed in the order 124, 63: the id `02` of 124 lies in
the subfolder before the one of the id `11` of 63. -/
theorem kndRepoRestore_out_of_order :
    let s := Sys.small .writer [.ofClass 63 [97], .ofClass 124 [98]]
    ((journalRecords s).map (·.numid)).Nodup ∧ returns kndRepoRestore s ∧
      appliedBy kndRepoRestore s = [124, 63] ∧
      ¬(appliedBy kndRepoRestore s).Pairwise (· < ·) := by
  decide +kernel

end Knowdy
