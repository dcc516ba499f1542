import Knowdy.RestoreOnce
import Mathlib.Algebra.BigOperators.Group.Finset.Basic

/-! # The journals of a snapshot

The writer puts the journals of an agent into a folder of its own and numbers them; the reader enumerates
folders and numbers up to the first that is missing, and no further than a fixed bound.

* `Layout` — folders and journals in which the reader finds everything; `journalRecords_eq`.
* `Journaled` — the journals hold exactly the records that were written.
* `CanWrite` — the folder and the number of the journal that the writer goes to are in the reader's range.
* `prepareJournal_journaled`, `buildCommitWAL_journaled` — **the writer keeps the journals enumerable.** -/

namespace Knowdy

variable {τ : Type}

/-! ## (1) The records on the disk -/

/-- The records of a journal file, none when it is missing. -/
def journalFile (o : Option Journal) : List WalRecord := (o.map Journal.records).getD []

/-- **All records in the journals below a path**, without regard to their order. -/
def diskRecords (d : Disk) (p : SnapshotPath) : Multiset WalRecord :=
  ∑ i ∈ Finset.range maxTasks, ∑ k ∈ Finset.range maxJournals, (journalFile (d.journals p i k) : Multiset WalRecord)

theorem diskRecords_congr {d d' : Disk} {p : SnapshotPath} (h : d'.journals p = d.journals p) :
    diskRecords d' p = diskRecords d p := by
  rw [diskRecords, diskRecords, h]

/-- A sum in which one summand is replaced. -/
theorem sum_update_add {n t : Nat} (ht : t < n) (F : Nat → Multiset WalRecord) (x : Multiset WalRecord) :
    ∑ i ∈ Finset.range n, Function.update F t x i + F t = ∑ i ∈ Finset.range n, F i + x := by
  have hmem : t ∈ Finset.range n := Finset.mem_range.mpr ht
  have hold := Finset.sum_update_of_mem hmem F (F t)
  rw [Function.update_eq_self] at hold
  rw [Finset.sum_update_of_mem hmem, hold]
  ac_rfl

theorem journals_setJournal (d : Disk) (p : SnapshotPath) (t k : Nat) (j : Journal) (i m : Nat) :
    (d.setJournal p t k j).journals p i m = if i = t ∧ m = k then some j else d.journals p i m := by
  have hp : (d.setJournal p t k j).journals p
      = Function.update (d.journals p) t (Function.update (d.journals p t) k (some j)) :=
    Function.update_self _ _ _
  rw [hp]
  by_cases hi : i = t
  · subst hi
    rw [Function.update_self]
    by_cases hm : m = k
    · subst hm
      rw [Function.update_self, if_pos ⟨rfl, rfl⟩]
    · rw [Function.update_of_ne hm, if_neg fun h => hm h.2]
  · rw [Function.update_of_ne hi, if_neg fun h => hi h.1]

/-- The records after one journal is replaced. -/
theorem diskRecords_setJournal (d : Disk) (p : SnapshotPath) {t k : Nat} (ht : t < maxTasks)
    (hk : k < maxJournals) (j : Journal) :
    diskRecords (d.setJournal p t k j) p + journalFile (d.journals p t k)
      = diskRecords d p + (j.records : Multiset WalRecord) := by
  have hfiles : ∀ i m, (journalFile ((d.setJournal p t k j).journals p i m) : Multiset WalRecord)
      = Function.update (fun i m => (journalFile (d.journals p i m) : Multiset WalRecord)) t
          (Function.update (fun m => (journalFile (d.journals p t m) : Multiset WalRecord)) k j.records)
          i m := by
    intro i m
    rw [journals_setJournal]
    by_cases hi : i = t
    · subst hi
      rw [Function.update_self]
      by_cases hm : m = k
      · subst hm
        rw [Function.update_self, if_pos ⟨rfl, rfl⟩]
        rfl
      · rw [Function.update_of_ne hm, if_neg fun h => hm h.2]
    · rw [Function.update_of_ne hi, if_neg fun h => hi h.1]
  have hrow : ∀ i, ∑ m ∈ Finset.range maxJournals,
        (journalFile ((d.setJournal p t k j).journals p i m) : Multiset WalRecord)
      = Function.update (fun i => ∑ m ∈ Finset.range maxJournals,
            (journalFile (d.journals p i m) : Multiset WalRecord)) t
          (∑ m ∈ Finset.range maxJournals, Function.update
            (fun m => (journalFile (d.journals p t m) : Multiset WalRecord)) k j.records m) i := by
    intro i
    by_cases hi : i = t
    · subst hi
      rw [Function.update_self]
      exact Finset.sum_congr rfl fun m _ => by rw [hfiles, Function.update_self]
    · rw [Function.update_of_ne hi]
      exact Finset.sum_congr rfl fun m _ => by rw [hfiles, Function.update_of_ne hi]
  have hinner := sum_update_add hk (fun m => (journalFile (d.journals p t m) : Multiset WalRecord))
    (j.records : Multiset WalRecord)
  have houter := sum_update_add ht (fun i => ∑ m ∈ Finset.range maxJournals,
    (journalFile (d.journals p i m) : Multiset WalRecord)) (∑ m ∈ Finset.range maxJournals, Function.update
      (fun m => (journalFile (d.journals p t m) : Multiset WalRecord)) k j.records m)
  simp only [] at hinner houter
  rw [diskRecords, diskRecords, Finset.sum_congr rfl fun i _ => hrow i]
  refine add_right_cancel (b := ∑ m ∈ Finset.range maxJournals,
    (journalFile (d.journals p t m) : Multiset WalRecord)) ?_
  rw [add_right_comm, houter, add_assoc, hinner, add_assoc, add_comm (_ : Multiset WalRecord) (j.records : Multiset WalRecord)]

/-! ## (2) What the reader enumerates -/

/-- **Folders and journals in which the reader finds everything**: an agent with a journal is in its range,
with the folders of all agents before it but that of agent 0; the journals of an agent are those below
its number, and at most that one. -/
structure Layout (d : Disk) (p : SnapshotPath) (num : Nat → Nat) : Prop where
  /-- The folders. -/
  folder : ∀ i k, d.journals p i k ≠ none →
    i < maxTasks ∧ d.agentDirs p i ∧ ∀ m, 1 ≤ m → m < i → d.agentDirs p m
  /-- There is no journal above the number. -/
  above : ∀ i k, num i < k → d.journals p i k = none
  /-- There are all journals below it. -/
  below : ∀ i k, k < num i → d.journals p i k ≠ none
  /-- The number is in range. -/
  bounded : ∀ i, num i < maxJournals

theorem agentRecords_append (journals : Nat → Option Journal) (l l' : List Nat) :
    agentRecords journals (l ++ l') = agentRecords journals l ++
      (if ∀ k ∈ l, journals k ≠ none then agentRecords journals l' else []) := by
  induction l with
  | nil => simp [agentRecords]
  | cons k l ih =>
      rw [List.cons_append, agentRecords, agentRecords]
      cases hk : journals k with
      | none => simp [hk]
      | some j => simp [hk, ih, List.append_assoc]

theorem agentsRecords_append (d : Disk) (p : SnapshotPath) (l l' : List Nat) :
    agentsRecords d p (l ++ l') = agentsRecords d p l ++
      (if ∀ i ∈ l, i ≠ 0 → d.agentDirs p i then agentsRecords d p l' else []) := by
  induction l with
  | nil => simp [agentsRecords]
  | cons i l ih =>
      rw [List.cons_append, agentsRecords, agentsRecords]
      by_cases hi : d.agentDirs p i
      · simp [hi, ih, List.append_assoc]
      · by_cases h0 : i = 0
        · subst h0
          simp [hi, ih]
        · simp [hi, h0]

namespace Layout

variable {d : Disk} {p : SnapshotPath} {num : Nat → Nat}

/-- The reader finds all journals of an agent. -/
theorem agentRecords_eq (h : Layout d p num) (i n : Nat) :
    (agentRecords (d.journals p i) (List.range n) : Multiset WalRecord)
      = ∑ k ∈ Finset.range n, (journalFile (d.journals p i k) : Multiset WalRecord) := by
  induction n with
  | zero => rfl
  | succ n ih =>
      rw [List.range_succ, agentRecords_append, Finset.sum_range_succ, ← ih, ← Multiset.coe_add]
      congr 2
      by_cases hall : ∀ k ∈ List.range n, d.journals p i k ≠ none
      · rw [if_pos hall, agentRecords]
        cases d.journals p i n <;> simp [agentRecords, journalFile]
      · -- a journal before it is missing, so it is missing as well
        rw [if_neg hall]
        push Not at hall
        obtain ⟨k, hk, hnone⟩ := hall
        have hge : num i ≤ k := Nat.le_of_not_lt fun hlt => h.below i k hlt hnone
        have hn : d.journals p i n = none := h.above i n (lt_of_le_of_lt hge (List.mem_range.mp hk))
        rw [hn]
        rfl

/-- **The reader finds all records.** -/
theorem agentsRecords_eq (h : Layout d p num) :
    (agentsRecords d p (List.range maxTasks) : Multiset WalRecord) = diskRecords d p := by
  have hgen : ∀ n, (agentsRecords d p (List.range n) : Multiset WalRecord)
      = ∑ i ∈ Finset.range n, ∑ k ∈ Finset.range maxJournals,
          (journalFile (d.journals p i k) : Multiset WalRecord) := by
    intro n
    induction n with
    | zero => rfl
    | succ n ih =>
        rw [List.range_succ, agentsRecords_append, Finset.sum_range_succ, ← ih, ← h.agentRecords_eq n,
          ← Multiset.coe_add]
        congr 2
        -- without its folder or one before it, the agent has no journal
        have hnone : (¬d.agentDirs p n ∨ ¬∀ i ∈ List.range n, i ≠ 0 → d.agentDirs p i) →
            agentRecords (d.journals p n) (List.range maxJournals) = [] := by
          intro hmissing
          have h0 : d.journals p n 0 = none := by
            by_contra hsome
            obtain ⟨-, hdir, hbefore⟩ := h.folder n 0 hsome
            rcases hmissing with hno | hno
            · exact hno hdir
            · exact hno fun i hi hi0 => hbefore i (Nat.pos_of_ne_zero hi0) (List.mem_range.mp hi)
          show agentRecords (d.journals p n) (0 :: _) = []
          rw [agentRecords, h0]
        by_cases hall : ∀ i ∈ List.range n, i ≠ 0 → d.agentDirs p i
        · rw [if_pos hall, agentsRecords]
          by_cases hdir : d.agentDirs p n
          · rw [if_pos hdir]
            simp [agentsRecords]
          · rw [if_neg hdir, hnone (.inl hdir)]
            simp [agentsRecords]
        · rw [if_neg hall, hnone (.inr hall)]
  exact hgen maxTasks

/-- More folders do not matter. -/
theorem congr {d' : Disk} (h : Layout d p num) (hjournals : d'.journals p = d.journals p)
    (hdirs : ∀ i, d.agentDirs p i → d'.agentDirs p i) : Layout d' p num where
  folder i k hk := by
    rw [hjournals] at hk
    obtain ⟨hi, hdir, hbefore⟩ := h.folder i k hk
    exact ⟨hi, hdirs i hdir, fun m hm hlt => hdirs m (hbefore m hm hlt)⟩
  above i k hk := by rw [hjournals]; exact h.above i k hk
  below i k hk := by rw [hjournals]; exact h.below i k hk
  bounded := h.bounded

/-- The journal with the number of its agent is put into place. -/
theorem setJournal (h : Layout d p num) {t : Nat} (ht : t < maxTasks) (hdir : d.agentDirs p t)
    (hbefore : ∀ m, 1 ≤ m → m < t → d.agentDirs p m) (j : Journal) :
    Layout (d.setJournal p t (num t) j) p num where
  folder i k hk := by
    rw [journals_setJournal] at hk
    by_cases heq : i = t ∧ k = num t
    · obtain ⟨rfl, rfl⟩ := heq
      exact ⟨ht, hdir, hbefore⟩
    · rw [if_neg heq] at hk
      exact h.folder i k hk
  above i k hk := by
    have hne : ¬(i = t ∧ k = num t) := by
      rintro ⟨rfl, rfl⟩
      exact Nat.lt_irrefl _ hk
    rw [journals_setJournal, if_neg hne]
    exact h.above i k hk
  below i k hk := by
    rw [journals_setJournal]
    by_cases heq : i = t ∧ k = num t
    · rw [if_pos heq]
      exact Option.some_ne_none j
    · rw [if_neg heq]
      exact h.below i k hk
  bounded := h.bounded

/-- The agent goes on to the next number when the journal of the present one is there. -/
theorem switch (h : Layout d p num) {t : Nat} (hthere : d.journals p t (num t) ≠ none)
    (hnext : num t + 1 < maxJournals) : Layout d p (Function.update num t (num t + 1)) where
  folder := h.folder
  above i k hk := by
    by_cases hi : i = t
    · subst hi
      rw [Function.update_self] at hk
      exact h.above i k (by omega)
    · rw [Function.update_of_ne hi] at hk
      exact h.above i k hk
  below i k hk := by
    by_cases hi : i = t
    · subst hi
      rw [Function.update_self] at hk
      rcases Nat.lt_succ_iff_lt_or_eq.mp hk with hlt | rfl
      · exact h.below i k hlt
      · exact hthere
    · rw [Function.update_of_ne hi] at hk
      exact h.below i k hk
  bounded i := by
    by_cases hi : i = t
    · subst hi
      rw [Function.update_self]
      exact hnext
    · rw [Function.update_of_ne hi]
      exact h.bounded i

end Layout

/-! ## (3) The writer -/

/-- **The journals hold exactly the records that were written**, and the reader finds them. -/
structure Journaled (s : Sys τ) : Prop where
  /-- The folders and files. -/
  layout : Layout s.disk s.snapshot.path s.snapshot.numJournals
  /-- The records. -/
  records : diskRecords s.disk s.snapshot.path = (s.disk.written : Multiset WalRecord)

theorem Journaled.congr {s s' : Sys τ} (h : Journaled s) (hdisk : s'.disk = s.disk)
    (hpath : s'.snapshot.path = s.snapshot.path) (hnum : s'.snapshot.numJournals = s.snapshot.numJournals) :
    Journaled s' where
  layout := by
    rw [hdisk, hpath, hnum]
    exact h.layout
  records := by
    rw [hdisk, hpath]
    exact h.records

/-- The number of the journal that the next record of the task goes to. -/
def targetJournal (s : Sys τ) : Nat :=
  match currentJournal s with
  | none => s.snapshot.numJournals s.task.id
  | some j =>
      if j.size + journalNameSize s > maxJournalSize then s.snapshot.numJournals s.task.id + 1
      else s.snapshot.numJournals s.task.id

/-- **The task can write into the range of the reader**: its folder is in the range, after those of all
agents before it, and so is the number of its journal. -/
structure CanWrite (s : Sys τ) : Prop where
  /-- The agent. -/
  agent : s.task.id < maxTasks
  /-- The folders before it. -/
  folders : ∀ m, 1 ≤ m → m < s.task.id → s.disk.agentDirs s.snapshot.path m
  /-- The journal. -/
  number : targetJournal s < maxJournals

/-- Where a task can write depends on the files, the journals and the number of the task. -/
theorem CanWrite.congr {s s' : Sys τ} (h : CanWrite s) (hdisk : s'.disk = s.disk)
    (hpath : s'.snapshot.path = s.snapshot.path) (hnum : s'.snapshot.numJournals = s.snapshot.numJournals)
    (hid : s'.task.id = s.task.id) (henv : s'.repoPathSize = s.repoPathSize) : CanWrite s' where
  agent := hid ▸ h.agent
  folders m hm hlt := by
    rw [hdisk, hpath]
    exact h.folders m hm (hid ▸ hlt)
  number := by
    have hcurrent : currentJournal s' = currentJournal s := by
      rw [currentJournal, currentJournal, hdisk, hpath, hnum, hid]
    have hname : journalNameSize s' = journalNameSize s := by
      rw [journalNameSize, journalNameSize, hpath, hnum, hid, henv]
    have htarget : targetJournal s' = targetJournal s := by
      rw [targetJournal, targetJournal, hcurrent, hname, hnum, hid]
    rw [htarget]
    exact h.number

/-- **What the writer leaves alone**: the commits but for their times and states, the list, the task. -/
structure Writing (s s' : Sys τ) : Prop where
  /-- The numbers of the commits. -/
  numids : ∀ d, (s'.ledger.commits d).numid = (s.ledger.commits d).numid
  /-- The addresses. -/
  nextCommit : s'.ledger.nextCommit = s.ledger.nextCommit
  /-- The snapshot. -/
  snapshot : s'.snapshot.path = s.snapshot.path ∧ s'.snapshot.role = s.snapshot.role ∧
    s'.snapshot.commits = s.snapshot.commits ∧ s'.snapshot.numid = s.snapshot.numid
  /-- The replays so far. -/
  applied : s'.ledger.applied = s.ledger.applied
  /-- The repository. -/
  env : s'.repoPathSize = s.repoPathSize
  /-- The task. -/
  task : s'.task = s.task
  /-- The folder of the snapshot is not new when it is there. -/
  snapshotDirs : (∀ n, s.snapshot.path = .numbered n → s.disk.snapshotDirs n) →
    s'.disk.snapshotDirs = s.disk.snapshotDirs

instance : IsPreorder (Sys τ) Writing where
  refl _ := ⟨fun _ => rfl, rfl, ⟨rfl, rfl, rfl, rfl⟩, rfl, rfl, rfl, fun _ => rfl⟩
  trans _ _ _ h h' := {
    numids := fun d => (h'.numids d).trans (h.numids d)
    nextCommit := h'.nextCommit.trans h.nextCommit
    applied := h'.applied.trans h.applied
    env := h'.env.trans h.env
    snapshot := ⟨h'.snapshot.1.trans h.snapshot.1, h'.snapshot.2.1.trans h.snapshot.2.1,
      h'.snapshot.2.2.1.trans h.snapshot.2.2.1, h'.snapshot.2.2.2.trans h.snapshot.2.2.2⟩
    task := h'.task.trans h.task
    snapshotDirs := fun hn => by
      have hsame := h.snapshotDirs hn
      refine (h'.snapshotDirs fun n hpath => ?_).trans hsame
      rw [hsame]
      exact hn n (h.snapshot.1 ▸ hpath) }

/-- A change of the file system is made or refused. -/
theorem diskWrite_cases (f : Disk → Disk) (d : Disk) :
    (∃ e, (diskWrite f).run d = .error e d) ∨ (diskWrite f).run d = .ok () (f d).countWrite := by
  have hrun : (diskWrite f).run d
      = if d.writesLeft = 0 then .error (.err .ioFail) d else .ok () (f d).countWrite := rfl
  rw [hrun]
  by_cases h : d.writesLeft = 0
  · rw [if_pos h]
    exact .inl ⟨_, rfl⟩
  · rw [if_neg h]
    exact .inr rfl

/-- **Only folders are new**: the file system after `knd_mkpath`. -/
structure Disk.MoreFolders (d d' : Disk) (path : SnapshotPath) : Prop where
  /-- The journals. -/
  journals : d'.journals = d.journals
  /-- The records. -/
  written : d'.written = d.written
  /-- The agent folders. -/
  agentDirs : ∀ p i, d.agentDirs p i → d'.agentDirs p i
  /-- The snapshot folders. -/
  snapshotDirs : (∀ n, path = .numbered n → d.snapshotDirs n) → d'.snapshotDirs = d.snapshotDirs

theorem kndMkpath_cases (path : SnapshotPath) (agent : Nat) (d : Disk) :
    (∃ e, (kndMkpath path agent).run d = .error e d) ∨
      ∃ d', (kndMkpath path agent).run d = .ok () d' ∧ d.MoreFolders d' path ∧ d'.agentDirs path agent := by
  have hrun : (kndMkpath path agent).run d
      = if d.agentDirs path agent then .ok () d
        else (diskWrite fun d => d.addAgentDir path agent).run d := by
    show (if d.agentDirs path agent then _ else _) = _
    rfl
  rw [hrun]
  by_cases h : d.agentDirs path agent
  · rw [if_pos h]
    exact .inr ⟨d, rfl, ⟨rfl, rfl, fun _ _ => id, fun _ => rfl⟩, h⟩
  · rw [if_neg h]
    rcases diskWrite_cases (fun d => d.addAgentDir path agent) d with herr | hok
    · exact .inl herr
    · have hdirs : (d.addAgentDir path agent).countWrite.agentDirs = Function.update d.agentDirs path
          (Function.update (d.agentDirs path) agent true) := rfl
      refine .inr ⟨_, hok, ⟨rfl, rfl, fun p i hi => ?_, fun hn => ?_⟩, ?_⟩
      · rw [hdirs]
        by_cases hp : p = path
        · subst hp
          rw [Function.update_self]
          by_cases hi' : i = agent
          · rw [hi', Function.update_self]
          · rw [Function.update_of_ne hi']
            exact hi
        · rw [Function.update_of_ne hp]
          exact hi
      · cases path with
        | cwd => rfl
        | numbered n =>
            show Function.update d.snapshotDirs n true = _
            rw [Function.update_eq_self_iff]
            exact (hn n rfl).symm
      · rw [hdirs, Function.update_self, Function.update_self]

/-- The folder of the journal is made; the name may still be too long. -/
theorem buildJournalFilename_cases (s : Sys τ) :
    (∃ e d, buildJournalFilename.run s = .error e (s.setDisk d) ∧ s.disk.MoreFolders d s.snapshot.path) ∨
      ∃ d, buildJournalFilename.run s = .ok (journalNameSize s) (s.setDisk d) ∧
        s.disk.MoreFolders d s.snapshot.path ∧ d.agentDirs s.snapshot.path s.task.id := by
  have hrun : buildJournalFilename.run s
      = (onDisk (kndMkpath s.snapshot.path s.task.id) >>= fun _ =>
          if journalNameSize s ≥ pathSize then throw (.err .limit) else pure (journalNameSize s) :
            SysM τ Nat).run s := rfl
  rw [hrun]
  rcases kndMkpath_cases s.snapshot.path s.task.id s.disk with ⟨e, herr⟩ | ⟨d, hok, hmore, hdir⟩
  · have hstop : (onDisk (kndMkpath s.snapshot.path s.task.id)).run s = .error e (s.setDisk s.disk) :=
      run_zoom_eq_error.mpr ⟨_, herr, rfl⟩
    exact .inl ⟨e, s.disk, run_bind_of_error hstop, ⟨rfl, rfl, fun _ _ => id, fun _ => rfl⟩⟩
  · have hgo : (onDisk (kndMkpath s.snapshot.path s.task.id)).run s = .ok () (s.setDisk d) :=
      run_zoom_eq_ok.mpr ⟨_, hok, rfl⟩
    rw [run_bind_of_ok hgo]
    by_cases hsize : journalNameSize s ≥ pathSize
    · rw [if_pos hsize]
      exact .inl ⟨_, d, rfl, hmore⟩
    · rw [if_neg hsize]
      exact .inr ⟨d, rfl, hmore, hdir⟩

/-- A journal is initialized or the file system refuses. -/
theorem initCurrentJournal_cases (s : Sys τ) :
    (∃ e, initCurrentJournal.run s = .error e s) ∨
      initCurrentJournal.run s = .ok () (s.setDisk (s.disk.setJournal s.snapshot.path s.task.id
        (s.snapshot.numJournals s.task.id) .empty).countWrite) := by
  have hrun : initCurrentJournal.run s
      = (onDisk (diskWrite fun d => d.setJournal s.snapshot.path s.task.id
          (s.snapshot.numJournals s.task.id) .empty)).run s := rfl
  rw [hrun, onDisk, run_zoom]
  rcases diskWrite_cases (fun d => d.setJournal s.snapshot.path s.task.id
    (s.snapshot.numJournals s.task.id) .empty) s.disk with ⟨e, herr⟩ | hok
  · rw [herr]
    exact .inl ⟨e, rfl⟩
  · rw [hok]
    exact .inr rfl

/-- The state after the agent went on to the next journal number. -/
def withNextJournal (s : Sys τ) : Sys τ :=
  s.setLedger (s.ledger.setSnapshot { s.ledger.snapshot with
    numJournals := Function.update s.ledger.snapshot.numJournals s.task.id
      (s.ledger.snapshot.numJournals s.task.id + 1) })

theorem run_switchJournal (s : Sys τ) : switchJournal.run s = .ok () (withNextJournal s) := rfl

theorem run_prepareJournal {s s₁ : Sys τ} {n : Nat} (h : buildJournalFilename.run s = .ok n s₁) :
    prepareJournal.run s = (match currentJournal s₁ with
      | none => initCurrentJournal
      | some j =>
          if j.size + n > maxJournalSize then
            switchJournal >>= fun _ => buildJournalFilename >>= fun _ => initCurrentJournal
          else pure () : SysM τ Unit).run s₁ := by
  have hunfold : prepareJournal.run s
      = (buildJournalFilename >>= fun n => get >>= fun s => match currentJournal s with
        | none => initCurrentJournal
        | some j =>
            if j.size + n > maxJournalSize then
              switchJournal >>= fun _ => buildJournalFilename >>= fun _ => initCurrentJournal
            else pure () : SysM τ Unit).run s := rfl
  rw [hunfold, run_bind_of_ok h]
  rfl

/-! ## (4) The writer keeps the journals enumerable -/

namespace Journaled

variable {s : Sys τ}

/-- More folders do not matter. -/
theorem setDisk (h : Journaled s) {d : Disk} (hmore : s.disk.MoreFolders d s.snapshot.path) :
    Journaled (s.setDisk d) where
  layout := h.layout.congr (congrFun hmore.journals _) (hmore.agentDirs _)
  records := by
    show diskRecords d s.snapshot.path = (d.written : Multiset WalRecord)
    rw [diskRecords_congr (congrFun hmore.journals _), hmore.written]
    exact h.records

/-- The journal of the task is initialized where there is none. -/
theorem init (h : Journaled s) (hagent : s.task.id < maxTasks)
    (hdir : s.disk.agentDirs s.snapshot.path s.task.id)
    (hbefore : ∀ m, 1 ≤ m → m < s.task.id → s.disk.agentDirs s.snapshot.path m)
    (hnone : currentJournal s = none) :
    Journaled (s.setDisk (s.disk.setJournal s.snapshot.path s.task.id
      (s.snapshot.numJournals s.task.id) .empty).countWrite) where
  layout := (h.layout.setJournal hagent hdir hbefore .empty).congr rfl fun _ => id
  records := by
    have hsum := diskRecords_setJournal s.disk s.snapshot.path hagent (h.layout.bounded s.task.id) .empty
    have hfile : (journalFile (s.disk.journals s.snapshot.path s.task.id
        (s.snapshot.numJournals s.task.id)) : Multiset WalRecord) = 0 := by
      rw [currentJournal] at hnone
      rw [hnone]
      rfl
    rw [hfile, h.records, add_zero] at hsum
    exact hsum.trans (add_zero _)

/-- The agent goes on to the next journal number. -/
theorem switch (h : Journaled s) (hsome : currentJournal s ≠ none)
    (hnext : s.snapshot.numJournals s.task.id + 1 < maxJournals) : Journaled (withNextJournal s) where
  layout := h.layout.switch hsome hnext
  records := h.records

/-- There is no journal under the next number. -/
theorem currentJournal_withNextJournal (h : Journaled s) : currentJournal (withNextJournal s) = none := by
  show s.disk.journals s.snapshot.path s.task.id (Function.update s.snapshot.numJournals s.task.id
    (s.snapshot.numJournals s.task.id + 1) s.task.id) = none
  rw [Function.update_self]
  exact h.layout.above _ _ (Nat.lt_succ_self _)

end Journaled

theorem Writing.setDisk (s : Sys τ) {d : Disk} (hmore : s.disk.MoreFolders d s.snapshot.path) :
    Writing s (s.setDisk d) :=
  ⟨fun _ => rfl, rfl, ⟨rfl, rfl, rfl, rfl⟩, rfl, rfl, rfl, hmore.snapshotDirs⟩

theorem Writing.withNextJournal (s : Sys τ) : Writing s (withNextJournal s) :=
  ⟨fun _ => rfl, rfl, ⟨rfl, rfl, rfl, rfl⟩, rfl, rfl, rfl, fun _ => rfl⟩

theorem Writing.init (s : Sys τ) : Writing s (s.setDisk (s.disk.setJournal s.snapshot.path s.task.id
    (s.snapshot.numJournals s.task.id) .empty).countWrite) :=
  ⟨fun _ => rfl, rfl, ⟨rfl, rfl, rfl, rfl⟩, rfl, rfl, rfl, fun _ => rfl⟩

/-- What a step of the writer comes to before the record is appended: the journals are enumerable, nothing
is lost, and when the step returns the folder of the agent is there. -/
structure Prepared (s s' : Sys τ) : Prop where
  /-- The journals. -/
  journaled : Journaled s'
  /-- The rest. -/
  writing : Writing s s'
  /-- The records. -/
  written : s'.disk.written = s.disk.written
  /-- The folders before that of the agent. -/
  agentDirs : ∀ i, s.disk.agentDirs s.snapshot.path i → s'.disk.agentDirs s'.snapshot.path i

/-- **Finding the journal** keeps the journals enumerable. -/
theorem prepareJournal_journaled {s : Sys τ} (h : Journaled s) (hw : CanWrite s) :
    Prepared s (finalState prepareJournal s) ∧
      ∀ s', prepareJournal.run s = .ok () s' → s'.disk.agentDirs s'.snapshot.path s'.task.id := by
  rcases buildJournalFilename_cases s with ⟨e, d, herr, hmore⟩ | ⟨d, hok, hmore, hdir⟩
  · have hstop : prepareJournal.run s = .error e (s.setDisk d) := run_bind_of_error herr
    rw [finalState_of_error hstop, hstop]
    exact ⟨⟨h.setDisk hmore, .setDisk s hmore, hmore.written, hmore.agentDirs _⟩,
      fun s' hrun => by cases hrun⟩
  · have h₁ : Journaled (s.setDisk d) := h.setDisk hmore
    have hw₁ : Writing s (s.setDisk d) := .setDisk s hmore
    have hsame : currentJournal (s.setDisk d) = currentJournal s := by
      show d.journals _ _ _ = _
      rw [hmore.journals]
      rfl
    have hbefore : ∀ m, 1 ≤ m → m < s.task.id → d.agentDirs s.snapshot.path m :=
      fun m hm hlt => hmore.agentDirs _ _ (hw.folders m hm hlt)
    have hrun := run_prepareJournal hok
    rw [hsame] at hrun
    rw [finalState, hrun]
    cases hcurrent : currentJournal s with
    | none =>
        -- the first journal of the agent
        rcases initCurrentJournal_cases (s.setDisk d) with ⟨e, hinit⟩ | hinit
        · simp only [hinit]
          exact ⟨⟨h₁, hw₁, hmore.written, hmore.agentDirs _⟩, fun s' hrun => by cases hrun⟩
        · simp only [hinit]
          refine ⟨⟨h₁.init hw.agent hdir hbefore (hsame.trans hcurrent),
            trans_of Writing hw₁ (.init _), hmore.written, hmore.agentDirs _⟩, fun s' hrun => ?_⟩
          cases hrun
          exact hdir
    | some j =>
        simp only []
        by_cases hover : j.size + journalNameSize s > maxJournalSize
        · -- the journal is full: the agent goes on to the next number
          have hnext : s.snapshot.numJournals s.task.id + 1 < maxJournals := by
            have htarget := hw.number
            rw [targetJournal, hcurrent] at htarget
            simp only [] at htarget
            rwa [if_pos hover] at htarget
          have hsome : currentJournal (s.setDisk d) ≠ none := by
            rw [hsame, hcurrent]
            exact Option.some_ne_none j
          have h₂ : Journaled (withNextJournal (s.setDisk d)) := h₁.switch hsome hnext
          have hw₂ : Writing s (withNextJournal (s.setDisk d)) :=
            trans_of Writing hw₁ (.withNextJournal _)
          have hnone := h₁.currentJournal_withNextJournal
          rw [if_pos hover, run_bind_of_ok (run_switchJournal _)]
          rcases buildJournalFilename_cases (withNextJournal (s.setDisk d)) with
            ⟨e, d', herr, hmore'⟩ | ⟨d', hok', hmore', hdir'⟩
          · rw [run_bind_of_error herr]
            exact ⟨⟨h₂.setDisk hmore', trans_of Writing hw₂ (.setDisk _ hmore'),
              hmore'.written.trans hmore.written,
              fun i hi => hmore'.agentDirs _ _ (hmore.agentDirs _ _ hi)⟩, fun s' hrun => by cases hrun⟩
          · rw [run_bind_of_ok hok']
            have h₃ := h₂.setDisk hmore'
            have hw₃ : Writing s ((withNextJournal (s.setDisk d)).setDisk d') :=
              trans_of Writing hw₂ (.setDisk _ hmore')
            have hwritten := hmore'.written.trans hmore.written
            have hdirs : ∀ i, s.disk.agentDirs s.snapshot.path i → d'.agentDirs s.snapshot.path i :=
              fun i hi => hmore'.agentDirs _ _ (hmore.agentDirs _ _ hi)
            have hnone' : currentJournal ((withNextJournal (s.setDisk d)).setDisk d') = none := by
              rw [← hnone]
              show d'.journals _ _ _ = _
              rw [hmore'.journals]
              rfl
            rcases initCurrentJournal_cases ((withNextJournal (s.setDisk d)).setDisk d') with
              ⟨e, hinit⟩ | hinit
            · rw [hinit]
              exact ⟨⟨h₃, hw₃, hwritten, hdirs⟩, fun s' hrun => by cases hrun⟩
            · rw [hinit]
              refine ⟨⟨h₃.init hw.agent hdir' (fun m hm hlt => hdirs m (hw.folders m hm hlt)) hnone',
                trans_of Writing hw₃ (.init _), hwritten, hdirs⟩, fun s' hrun => ?_⟩
              cases hrun
              exact hdir'
        · rw [if_neg hover]
          refine ⟨⟨h₁, hw₁, hmore.written, hmore.agentDirs _⟩, fun s' hrun => ?_⟩
          cases hrun
          exact hdir

/-- The journal after a record is appended to it. -/
def Journal.append (o : Option Journal) (r : WalRecord) : Journal :=
  let j := o.getD { size := 0, records := [] }
  { size := j.size + r.totalSize, records := j.records ++ [r] }

/-- The disk after a record is appended to the journal of the task. -/
def withRecord (s : Sys τ) (r : WalRecord) : Disk :=
  ((s.disk.setJournal s.snapshot.path s.task.id (s.snapshot.numJournals s.task.id)
    (.append (currentJournal s) r)).noteWritten r).countWrite

/-- **A record that is appended** is one more record in the journals. -/
theorem Journaled.append {s : Sys τ} (h : Journaled s) (hagent : s.task.id < maxTasks)
    (hdir : s.disk.agentDirs s.snapshot.path s.task.id)
    (hbefore : ∀ m, 1 ≤ m → m < s.task.id → s.disk.agentDirs s.snapshot.path m) (r : WalRecord) :
    Journaled (s.setDisk (withRecord s r)) where
  layout := (h.layout.setJournal hagent hdir hbefore _).congr rfl fun _ => id
  records := by
    have hsum := diskRecords_setJournal s.disk s.snapshot.path hagent (h.layout.bounded s.task.id)
      (.append (currentJournal s) r)
    have hfile : ((Journal.append (currentJournal s) r).records : Multiset WalRecord)
        = (journalFile (currentJournal s) : Multiset WalRecord) + {r} := by
      cases currentJournal s with
      | none => rfl
      | some j => exact (Multiset.coe_add _ _).symm
    -- what the journal held cancels
    rw [hfile, h.records, add_comm (journalFile _ : Multiset WalRecord), ← add_assoc] at hsum
    have hdone := add_right_cancel hsum
    show diskRecords (s.disk.setJournal s.snapshot.path s.task.id (s.snapshot.numJournals s.task.id)
      (.append (currentJournal s) r)) s.snapshot.path = (s.disk.written ++ [r] : List WalRecord)
    rw [hdone, ← Multiset.coe_add]
    rfl

/-- The clauses of a commit as they are exported. -/
def exportedBody (s : Sys τ) (c : CommitAddr) : List TaskItem :=
  (s.ledger.commits c).classStateRefs.map (exportClassState s.idx)

/-- The export fails or returns the clauses of the commit, which fit into the buffer. -/
theorem exportCommitGSL_cases (c : CommitAddr) (s : Sys τ) : (∃ e, (exportCommitGSL c).run s = .error e s) ∨
    (exportCommitGSL c).run s = .ok (exportedBody s c) s ∧ exportSize s.name (exportedBody s c) < largeBufSize := by
  have hrun : (exportCommitGSL c).run s
      = if exportSize s.name (exportedBody s c) < largeBufSize then .ok (exportedBody s c) s
        else .error (.err .nomem) s := rfl
  by_cases hsize : exportSize s.name (exportedBody s c) < largeBufSize
  · rw [if_pos hsize] at hrun
    exact .inr ⟨hrun, hsize⟩
  · rw [if_neg hsize] at hrun
    exact .inl ⟨_, hrun⟩

/-- A record is appended to the journal of the task, or the file system refuses. -/
theorem appendJournal_cases (s : Sys τ) (r : WalRecord) :
    (∃ e, (onDisk (appendJournal s.snapshot.path s.task.id (s.snapshot.numJournals s.task.id) r)).run s =
        .error e s) ∨
      (onDisk (appendJournal s.snapshot.path s.task.id (s.snapshot.numJournals s.task.id) r)).run s =
        .ok () (s.setDisk (withRecord s r)) := by
  have hwrite : (appendJournal s.snapshot.path s.task.id (s.snapshot.numJournals s.task.id) r).run s.disk =
      (diskWrite fun _ => (s.disk.setJournal s.snapshot.path s.task.id (s.snapshot.numJournals s.task.id)
        (.append (currentJournal s) r)).noteWritten r).run s.disk := rfl
  rcases diskWrite_cases (fun _ => (s.disk.setJournal s.snapshot.path s.task.id
    (s.snapshot.numJournals s.task.id) (.append (currentJournal s) r)).noteWritten r) s.disk with ⟨e, herr⟩ | hdone
  · exact .inl ⟨e, run_zoom_eq_error.mpr ⟨s.disk, hwrite.trans herr, rfl⟩⟩
  · exact .inr (run_zoom_eq_ok.mpr ⟨_, hwrite.trans hdone, rfl⟩)

/-- **Appending the record** of a commit in an ARBITER fails without a change or appends the record with the
number and the clauses of the commit. -/
theorem appendWalRec_cases {s : Sys τ} (c : CommitAddr) (hrole : s.task.role = .arbiter) :
    (∃ e, (appendWalRec c).run s = .error e s) ∨
      (appendWalRec c).run s = .ok () (finalState (modifyCommit c fun commit =>
        { commit with confirm := .persistent }) (s.setDisk (withRecord s (walRecord s c (exportedBody s c))))) ∧
      exportSize s.name (exportedBody s c) < largeBufSize := by
  have hkeep : s.task.keepLocalWAL = true := by rw [Task.keepLocalWAL, hrole]; rfl
  rcases exportCommitGSL_cases c s with ⟨e, herr⟩ | ⟨hok, hfits⟩
  · exact .inl ⟨e, run_bind_of_error herr⟩
  · set body := exportedBody s c with hbody
    have hrun : (appendWalRec c).run s
        = (if (walRecord s c body).totalSize < fileBufSize then
            if s.task.keepLocalWAL then
              onDisk (appendJournal s.snapshot.path s.task.id (s.snapshot.numJournals s.task.id)
                (walRecord s c body)) >>= fun _ =>
              modifyCommit c fun commit => { commit with confirm := .persistent }
            else pure ()
          else throw (.err .nomem) : SysM τ Unit).run s := by
      rw [appendWalRec, run_bind_of_ok hok]
      rfl
    rw [hrun]
    by_cases hsize : (walRecord s c body).totalSize < fileBufSize
    · rw [if_pos hsize, if_pos hkeep]
      rcases appendJournal_cases s (walRecord s c body) with ⟨e, herr⟩ | hdone
      · exact .inl ⟨e, run_bind_of_error herr⟩
      · exact .inr ⟨run_bind_of_ok hdone, hfits⟩
    · rw [if_neg hsize]
      exact .inl ⟨_, rfl⟩

theorem Writing.modifyCommit (s : Sys τ) (c : CommitAddr) (f : Commit → Commit)
    (hf : ∀ commit, (f commit).numid = commit.numid) : Writing s (finalState (modifyCommit c f) s) :=
  ⟨fun d => s.ledger.numid_setCommit (hf _) d, rfl, ⟨rfl, rfl, rfl, rfl⟩, rfl, rfl, rfl, fun _ => rfl⟩

theorem Journaled.modifyCommit {s : Sys τ} (h : Journaled s) (c : CommitAddr) (f : Commit → Commit) :
    Journaled (finalState (modifyCommit c f) s) := ⟨h.layout, h.records⟩

/-- **What `build_commit_WAL` writes**: nothing when it fails, and a record with the number of the commit
when it returns. -/
structure WritesRecord (c : CommitAddr) (s s' : Sys τ) (ok : Bool) : Prop where
  /-- The journals. -/
  journaled : Journaled s'
  /-- The rest. -/
  writing : Writing s s'
  /-- The records. -/
  written : if ok then ∃ r : WalRecord, r.numid = (s.ledger.commits c).numid ∧ r.size ≠ 0 ∧
      s'.disk.written = s.disk.written ++ [r]
    else s'.disk.written = s.disk.written

/-- **The writer keeps the journals enumerable**, in an ARBITER that can write into the range of the
reader. -/
theorem buildCommitWAL_journaled {s : Sys τ} (c : CommitAddr) (h : Journaled s) (hw : CanWrite s)
    (hrole : s.task.role = .arbiter) :
    WritesRecord c s (finalState (buildCommitWAL c) s) (returns (buildCommitWAL c) s) := by
  -- the time of the commit comes first
  set s₁ := finalState (modifyCommit c fun commit => { commit with timestamp := s.now }) s with hs₁
  have hwriting₁ : Writing s s₁ := .modifyCommit s c _ fun _ => rfl
  have hrun : (buildCommitWAL c).run s
      = (prepareJournal >>= fun _ => appendWalRec c : SysM τ Unit).run s₁ := rfl
  obtain ⟨hprep, hdir⟩ := prepareJournal_journaled (h.modifyCommit c fun commit =>
    { commit with timestamp := s.now }) (⟨hw.agent, hw.folders, hw.number⟩ : CanWrite s₁)
  rw [finalState, returns, hrun]
  cases hrun₂ : prepareJournal.run s₁ with
  | error e s₂ =>
      rw [finalState_of_error hrun₂] at hprep
      rw [run_bind_of_error hrun₂]
      exact ⟨hprep.journaled, trans_of Writing hwriting₁ hprep.writing, hprep.written⟩
  | ok u s₂ =>
      rw [finalState_of_ok hrun₂] at hprep
      have hwriting₂ : Writing s s₂ := trans_of Writing hwriting₁ hprep.writing
      have htask : s₂.task = s.task := hwriting₂.task
      rw [run_bind_of_ok hrun₂]
      rcases appendWalRec_cases c (htask ▸ hrole) with ⟨e, herr⟩ | ⟨hok, -⟩
      · rw [herr]
        exact ⟨hprep.journaled, hwriting₂, hprep.written⟩
      · rw [hok]
        set body := exportedBody s₂ c with hbody
        have hagent : s₂.task.id < maxTasks := htask ▸ hw.agent
        have hbefore : ∀ m, 1 ≤ m → m < s₂.task.id → s₂.disk.agentDirs s₂.snapshot.path m :=
          fun m hm hlt => hprep.agentDirs m (hw.folders m hm (htask ▸ hlt))
        have happend := hprep.journaled.append hagent (hdir s₂ hrun₂) hbefore (walRecord s₂ c body)
        have hwriting₃ : Writing s₂ (s₂.setDisk (withRecord s₂ (walRecord s₂ c body))) :=
          ⟨fun _ => rfl, rfl, ⟨rfl, rfl, rfl, rfl⟩, rfl, rfl, rfl, fun _ => rfl⟩
        have hwriting₄ := Writing.modifyCommit (s₂.setDisk (withRecord s₂ (walRecord s₂ c body))) c
          (fun commit => { commit with confirm := .persistent }) fun _ => rfl
        refine ⟨happend.modifyCommit c _, trans_of Writing hwriting₂
          (trans_of Writing hwriting₃ hwriting₄), ?_⟩
        refine ⟨walRecord s₂ c body, hwriting₂.numids c, ?_, ?_⟩
        · show exportSize s₂.name body ≠ 0
          rw [exportSize]
          exact Nat.succ_ne_zero _
        · show s₂.disk.written ++ [_] = _
          rw [hprep.written]
          rfl

/-! ## (5) The reader finds the numbers again -/

/-- **The number of the last journal of an agent**, 0 when it has none. -/
structure LastJournal (journals : Nat → Option Journal) (last : Nat) : Prop where
  /-- There are all journals before it. -/
  below : ∀ k < last, journals k ≠ none
  /-- There is none after it. -/
  above : ∀ k, last < k → journals k = none
  /-- It is in range. -/
  bounded : last < maxJournals

theorem Layout.of_lastJournal {d : Disk} {p : SnapshotPath} {num num' : Nat → Nat} (h : Layout d p num)
    (hlast : ∀ i, LastJournal (d.journals p i) (num' i)) : Layout d p num' where
  folder := h.folder
  above i := (hlast i).above
  below i := (hlast i).below
  bounded i := (hlast i).bounded

/-- An agent without a first journal has no journal. -/
theorem Layout.lastJournal_zero {d : Disk} {p : SnapshotPath} {num : Nat → Nat} (h : Layout d p num)
    {i : Nat} (hnone : d.journals p i 0 = none) : LastJournal (d.journals p i) 0 where
  below k hk := absurd hk (Nat.not_lt_zero k)
  above k hk := by
    have hzero : num i = 0 := by
      by_contra hne
      exact h.below i 0 (Nat.pos_of_ne_zero hne) hnone
    exact h.above i k (hzero ▸ hk)
  bounded := by decide

/-- **The journals of an agent run from its first one** to the last one before a missing one. -/
theorem Layout.lastJournal_pred {d : Disk} {p : SnapshotPath} {num : Nat → Nat} (h : Layout d p num)
    {i k : Nat} (hbelow : ∀ m < k, d.journals p i m ≠ none) (hend : k = maxJournals ∨ d.journals p i k = none) :
    LastJournal (d.journals p i) (k - 1) where
  below m hm := hbelow m (by omega)
  above m hm := by
    rcases hend with rfl | hnone
    · exact h.above i m (by have := h.bounded i; omega)
    · have hnum : num i ≤ k := Nat.le_of_not_lt fun hlt => h.below i k hlt hnone
      rcases Nat.lt_or_ge (num i) m with hlt | hge
      · exact h.above i m hlt
      · -- only the missing one is left
        obtain rfl : m = k := by omega
        exact hnone
  bounded := by
    have hbound := h.bounded i
    have hnum : k ≤ num i + 1 := by
      by_contra hlt
      exact hbelow (num i + 1) (by omega) (h.above i _ (Nat.lt_succ_self _))
    omega

theorem numJournals_restoreCommits (j : Journal) :
    Moves (Kept fun s => s.snapshot.numJournals) (restoreCommits j : SysM τ Unit) := by
  refine .bind (fun _ => rfl) fun _ => .forM fun r _ s => ?_
  show (finalState (parseCommit r) s).snapshot.numJournals = _
  rw [finalState, run_parseCommit]
  by_cases h : r.size = 0
  · rw [if_pos h]
    rfl
  · rw [if_neg h, run_indexCommit]
    cases kndSetAdd (beforeIndexing s r).snapshot.commitIdx (digitsKey (numDigits r.numid))
      s.ledger.nextCommit with
    | mk rc set => cases rc <;> rfl

/-- **The loop over the journals of an agent** leaves the number of the last one behind. -/
theorem restoreJournals_number {agent m k : Nat} {s s' : Sys τ} {num : Nat → Nat}
    (h : Layout s.disk s.snapshot.path num) (hk : k + m = maxJournals)
    (hbelow : ∀ i < k, s.disk.journals s.snapshot.path agent i ≠ none)
    (hnum : s.snapshot.numJournals agent = k - 1)
    (hrun : (restoreJournals agent (List.range' k m)).run s = .ok () s') :
    ∃ last, s'.snapshot.numJournals = Function.update s.snapshot.numJournals agent last ∧
      LastJournal (s.disk.journals s.snapshot.path agent) last := by
  induction m generalizing k s with
  | zero =>
      cases hrun
      exact ⟨k - 1, by rw [← hnum, Function.update_eq_self], h.lastJournal_pred hbelow (.inl hk)⟩
  | succ m ih =>
      rw [List.range'_succ, run_restoreJournals_cons] at hrun
      by_cases hsize : agentJournalNameSize s agent k ≥ pathSize
      · rw [if_pos hsize] at hrun
        cases hrun
      · rw [if_neg hsize] at hrun
        cases hj : s.disk.journals s.snapshot.path agent k with
        | none =>
            rw [hj] at hrun
            cases hrun
            exact ⟨k - 1, by rw [← hnum, Function.update_eq_self], h.lastJournal_pred hbelow (.inr hj)⟩
        | some j =>
            rw [hj] at hrun
            obtain ⟨u₁, s₁, hcommits, hrest⟩ := run_bind_eq_ok.mp hrun
            obtain ⟨u₂, s₂, hnote, hloop⟩ := run_bind_eq_ok.mp hrest
            have hcollect₁ := (collecting_restoreCommits j).of_ok hcommits
            have hcollect : Collecting s s₂ :=
              trans_of Collecting hcollect₁ ((collecting_noteJournal agent k).of_ok hnote)
            have hkept : s₁.snapshot.numJournals = s.snapshot.numJournals :=
              (numJournals_restoreCommits j).of_ok hcommits
            have hnum₂ : s₂.snapshot.numJournals = Function.update s.snapshot.numJournals agent k := by
              cases hnote
              show Function.update s₁.snapshot.numJournals agent k = _
              rw [hkept]
            have h₂ : Layout s₂.disk s₂.snapshot.path num := by
              rw [hcollect.disk, hcollect.snapshot.1]
              exact h
            obtain ⟨last, hlast, hjournals⟩ := ih (k := k + 1) h₂ (by omega) (fun i hi => by
                rw [hcollect.journals]
                rcases Nat.lt_succ_iff_lt_or_eq.mp hi with hlt | rfl
                · exact hbelow i hlt
                · rw [hj]
                  exact Option.some_ne_none j)
              (by rw [hnum₂, Function.update_self]; rfl) hloop
            rw [hcollect.journals] at hjournals
            exact ⟨last, by rw [hlast, hnum₂, Function.update_idem], hjournals⟩

/-- **The loop over the agents** leaves the numbers of all last journals behind. -/
theorem restoreAgents_numbers {m a : Nat} {s s' : Sys τ} {num : Nat → Nat}
    (h : Layout s.disk s.snapshot.path num) (ha : a + m = maxTasks)
    (hbefore : ∀ i < a, LastJournal (s.disk.journals s.snapshot.path i) (s.snapshot.numJournals i))
    (hafter : ∀ i, a ≤ i → s.snapshot.numJournals i = 0)
    (hrun : (restoreAgents (List.range' a m)).run s = .ok () s') (i : Nat) :
    LastJournal (s.disk.journals s.snapshot.path i) (s'.snapshot.numJournals i) := by
  -- agents whose folder or one before it is missing have no journal
  have hmissing : ∀ i j, (∃ k, s.disk.journals s.snapshot.path i k ≠ none) → 1 ≤ j → j ≤ i →
      s.disk.agentDirs s.snapshot.path j := by
    rintro i j ⟨k, hk⟩ hj hle
    obtain ⟨-, hdir, hdirs⟩ := h.folder i k hk
    rcases Nat.lt_or_eq_of_le hle with hlt | rfl
    · exact hdirs j hj hlt
    · exact hdir
  induction m generalizing a s with
  | zero =>
      cases hrun
      by_cases hi : i < a
      · exact hbefore i hi
      · rw [hafter i (Nat.le_of_not_lt hi)]
        refine h.lastJournal_zero ?_
        by_contra hsome
        have hlt := (h.folder i 0 hsome).1
        omega
  | succ m ih =>
      rw [List.range'_succ, run_restoreAgents_cons] at hrun
      by_cases hdir : s.disk.agentDirs s.snapshot.path a
      · rw [if_pos hdir] at hrun
        obtain ⟨u, s₁, hjournals, hloop⟩ := run_bind_eq_ok.mp hrun
        have hcollect := (collecting_restoreJournals a _).of_ok hjournals
        have hrange : List.range maxJournals = List.range' 0 maxJournals := List.range_eq_range'
        rw [hrange] at hjournals
        obtain ⟨last, hlast, hcorrect⟩ := restoreJournals_number h (Nat.zero_add _)
          (fun i hi => absurd hi (Nat.not_lt_zero i)) (hafter a le_rfl) hjournals
        have hsame : s₁.disk.journals s₁.snapshot.path = s.disk.journals s.snapshot.path := by
          rw [hcollect.disk, hcollect.snapshot.1]
        have hdone := ih (a := a + 1) (s := s₁) (by rw [hcollect.disk, hcollect.snapshot.1]; exact h)
          (by omega) (fun i hi => by
            rw [hsame, hlast]
            rcases Nat.lt_succ_iff_lt_or_eq.mp hi with hlt | rfl
            · rw [Function.update_of_ne (Nat.ne_of_lt hlt)]
              exact hbefore i hlt
            · rw [Function.update_self]
              exact hcorrect)
          (fun i hi => by
            rw [hlast, Function.update_of_ne (Nat.ne_of_gt hi)]
            exact hafter i (Nat.le_of_succ_le hi)) hloop
          (by rw [hsame, hcollect.disk, hcollect.snapshot.1]; exact hmissing)
        rwa [hsame] at hdone
      · rw [if_neg hdir] at hrun
        have hnone : ∀ i, a ≤ i → 1 ≤ a ∨ i = 0 → s.disk.journals s.snapshot.path i 0 = none := by
          intro i hi hcase
          by_contra hsome
          rcases hcase with hpos | rfl
          · exact hdir (hmissing i a ⟨0, hsome⟩ hpos hi)
          · obtain rfl : a = 0 := Nat.le_zero.mp hi
            exact hdir (h.folder 0 0 hsome).2.1
        by_cases hzero : a = 0
        · -- the folder of agent 0 is optional
          rw [if_pos hzero] at hrun
          subst hzero
          refine ih (a := 1) h (by omega) (fun i hi => ?_) (fun i hi => hafter i (Nat.zero_le i)) hrun
            hmissing
          obtain rfl : i = 0 := Nat.lt_one_iff.mp hi
          rw [hafter 0 le_rfl]
          exact h.lastJournal_zero (hnone 0 le_rfl (.inr rfl))
        · rw [if_neg hzero] at hrun
          cases hrun
          by_cases hi : i < a
          · exact hbefore i hi
          · rw [hafter i (Nat.le_of_not_lt hi)]
            exact h.lastJournal_zero (hnone i (Nat.le_of_not_lt hi) (.inl (Nat.pos_of_ne_zero hzero)))

/-- **A restore that has read all journals knows where to go on.** -/
theorem restoreAgents_layout {s s' : Sys τ} {num : Nat → Nat} (h : Layout s.disk s.snapshot.path num)
    (hnew : ∀ i, s.snapshot.numJournals i = 0)
    (hrun : (restoreAgents (List.range maxTasks)).run s = .ok () s') :
    Layout s'.disk s'.snapshot.path s'.snapshot.numJournals := by
  have hcollect := (collecting_restoreAgents _).of_ok hrun
  have hrange : List.range maxTasks = List.range' 0 maxTasks := List.range_eq_range'
  rw [hrange] at hrun
  rw [hcollect.disk, hcollect.snapshot.1]
  exact h.of_lastJournal (restoreAgents_numbers h (Nat.zero_add _)
    (fun i hi => absurd hi (Nat.not_lt_zero i)) (fun i _ => hnew i) hrun)

end Knowdy
