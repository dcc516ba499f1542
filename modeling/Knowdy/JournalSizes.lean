import Knowdy.Journals
import Knowdy.Lib.Runs

/-! # The size of a journal

`build_commit_WAL` switches to a new journal when the size of the current one and the content of `out` exceed
`max_journal_size`. At that time `out` holds the name of the journal; the record is written to it later.

* `newRecord` — the record of a commit, as the state is before the call.
* `Within` — no journal is larger than `max_journal_size`.
* `Fits` — a record that goes to the current journal has room in it.
* `prepareJournal_sizes`, `within_buildCommitWAL` — what one call does.
* `within_of_reaches` — the bound holds in every run in which the records fit. -/

namespace Knowdy.JournalSizes

variable {τ : Type}

/-! ## (1) Sizes -/

/-- The clauses of a commit. -/
def exported (s : Sys τ) (c : CommitAddr) : List TaskItem :=
  (s.ledger.commits c).classStateRefs.map (exportClassState s.idx)

/-- **The record** that `build_commit_WAL` makes of a commit. -/
def newRecord (s : Sys τ) (c : CommitAddr) : WalRecord :=
  { walRecord s c (exported s c) with ts := s.now }

/-- **No journal is larger** than `max_journal_size`. -/
def Within (s : Sys τ) : Prop :=
  ∀ path agent k j, s.disk.journals path agent k = some j → j.size ≤ maxJournalSize

/-- A record is no larger than `max_journal_size` minus the journal header. -/
def Small (s : Sys τ) (c : CommitAddr) : Prop :=
  (newRecord s c).totalSize ≤ maxJournalSize - Journal.empty.size

/-- **The record fits**: where it will be written, and the current journal is not left for a new one, it has room
there. -/
def Fits (s : Sys τ) (c : CommitAddr) : Prop :=
  s.task.keepLocalWAL → exportSize s.name (exported s c) < largeBufSize →
    ∀ j, currentJournal s = some j → j.size + journalNameSize s ≤ maxJournalSize →
      j.size + (newRecord s c).totalSize ≤ maxJournalSize

/-! ## (2) Runs -/

/-- What happens to a repository. -/
inductive Event (τ : Type)
  /-- `build_commit_WAL` of a commit. -/
  | write (c : CommitAddr)
  /-- Anything that leaves the journals alone. -/
  | other (s' : Sys τ)

/-- One event. -/
def step (s : Sys τ) : Event τ → Sys τ
  | .write c => finalState (buildCommitWAL c) s
  | .other s' => s'

/-- **The commits have small records**, and nothing else changes the journals. -/
def Admissible (s : Sys τ) : Event τ → Prop
  | .write c => Small s c
  | .other s' => s'.disk.journals = s.disk.journals

/-- **The records fit**, besides. -/
def Fitting (s : Sys τ) : Event τ → Prop
  | .write c => Small s c ∧ Fits s c
  | .other s' => s'.disk.journals = s.disk.journals

/-! ## (3) One call -/

variable {s s' : Sys τ} {c : CommitAddr}

theorem Within.congr (h : Within s) (hjournals : s'.disk.journals = s.disk.journals) : Within s' := by
  intro path agent k j hj
  rw [hjournals] at hj
  exact h path agent k j hj

/-- The journals after one of them is replaced, below any path. -/
theorem journals_setJournal_path (d : Disk) (path path' : SnapshotPath) (agent agent' k k' : Nat) (j : Journal) :
    (d.setJournal path agent k j).journals path' agent' k' =
      if path' = path ∧ agent' = agent ∧ k' = k then some j else d.journals path' agent' k' := by
  by_cases hpath : path' = path
  · subst hpath
    rw [journals_setJournal]
    simp
  · have hother : (d.setJournal path agent k j).journals path' = d.journals path' := Function.update_of_ne hpath ..
    rw [if_neg fun h => hpath h.1, hother]

/-- A journal that is replaced by one within the bound. -/
theorem Within.setJournal (h : Within s) {path : SnapshotPath} {agent k : Nat} {j : Journal}
    (hj : j.size ≤ maxJournalSize) (hs' : s'.disk.journals = (s.disk.setJournal path agent k j).journals) :
    Within s' := by
  intro path' agent' k' j' hj'
  rw [hs', journals_setJournal_path] at hj'
  by_cases hsame : path' = path ∧ agent' = agent ∧ k' = k
  · rw [if_pos hsame] at hj'
    obtain rfl := Option.some.inj hj'
    exact hj
  · rw [if_neg hsame] at hj'
    exact h path' agent' k' j' hj'

/-- **What is not touched** before the record is written. -/
structure SameCommit (s s' : Sys τ) : Prop where
  /-- The indices. -/
  idx : s'.idx = s.idx
  /-- The name. -/
  name : s'.name = s.name
  /-- The commits. -/
  commits : s'.ledger.commits = s.ledger.commits
  /-- The task. -/
  task : s'.task = s.task

theorem SameCommit.newRecord_eq (h : SameCommit s s') (htime : (s.ledger.commits c).timestamp = s.now) :
    walRecord s' c (exported s' c) = newRecord s c := by
  rw [walRecord, newRecord, walRecord, exported, exported, h.idx, h.name, h.commits, htime]

/-- A new journal is within the bound. -/
theorem size_empty_le : Journal.empty.size ≤ maxJournalSize := by decide

/-- The journal of the task after it was initialized. -/
theorem currentJournal_init (s : Sys τ) :
    currentJournal (s.setDisk (s.disk.setJournal s.snapshot.path s.task.id
      (s.snapshot.numJournals s.task.id) .empty).countWrite) = some .empty := by
  show (s.disk.setJournal s.snapshot.path s.task.id (s.snapshot.numJournals s.task.id) .empty).journals
    s.snapshot.path s.task.id (s.snapshot.numJournals s.task.id) = some .empty
  rw [journals_setJournal, if_pos ⟨rfl, rfl⟩]

/-- **The journal that the record goes to**: a new one, or the current one when its size and the length of its name are
within the bound. -/
def Target (s : Sys τ) (j : Journal) : Prop :=
  j = .empty ∨ (currentJournal s = some j ∧ j.size + journalNameSize s ≤ maxJournalSize)

/-- **Finding the journal** keeps the bound. -/
theorem prepareJournal_sizes (h : Within s) :
    Within (finalState prepareJournal s) ∧ ∀ s', prepareJournal.run s = .ok () s' →
      SameCommit s s' ∧ ∃ j, currentJournal s' = some j ∧ Target s j := by
  rcases buildJournalFilename_cases s with ⟨e, d, herr, hmore⟩ | ⟨d, hok, hmore, -⟩
  · have hstop : prepareJournal.run s = .error e (s.setDisk d) := run_bind_of_error herr
    rw [finalState_of_error hstop, hstop]
    exact ⟨h.congr hmore.journals, fun s' hrun => by cases hrun⟩
  have h₁ : Within (s.setDisk d) := h.congr hmore.journals
  have hsame : currentJournal (s.setDisk d) = currentJournal s := by
    show d.journals _ _ _ = _
    rw [hmore.journals]
    rfl
  have hrun := run_prepareJournal hok
  rw [hsame] at hrun
  rw [finalState, hrun]
  cases hcurrent : currentJournal s with
  | none =>
      rcases initCurrentJournal_cases (s.setDisk d) with ⟨e, hinit⟩ | hinit
      · simp only [hinit]
        exact ⟨h₁, fun s' hrun => by cases hrun⟩
      · simp only [hinit]
        refine ⟨h₁.setJournal size_empty_le rfl, fun s' hrun => ?_⟩
        cases hrun
        exact ⟨⟨rfl, rfl, rfl, rfl⟩, .empty, currentJournal_init _, .inl rfl⟩
  | some j =>
      simp only []
      by_cases hover : j.size + journalNameSize s > maxJournalSize
      · -- the agent goes on to the next number
        have h₂ : Within (withNextJournal (s.setDisk d)) := h₁.congr rfl
        rw [if_pos hover, run_bind_of_ok (run_switchJournal _)]
        rcases buildJournalFilename_cases (withNextJournal (s.setDisk d)) with
          ⟨e, d', herr, hmore'⟩ | ⟨d', hok', hmore', -⟩
        · rw [run_bind_of_error herr]
          exact ⟨h₂.congr hmore'.journals, fun s' hrun => by cases hrun⟩
        · rw [run_bind_of_ok hok']
          have h₃ : Within ((withNextJournal (s.setDisk d)).setDisk d') := h₂.congr hmore'.journals
          rcases initCurrentJournal_cases ((withNextJournal (s.setDisk d)).setDisk d') with ⟨e, hinit⟩ | hinit
          · rw [hinit]
            exact ⟨h₃, fun s' hrun => by cases hrun⟩
          · rw [hinit]
            refine ⟨h₃.setJournal size_empty_le rfl, fun s' hrun => ?_⟩
            cases hrun
            exact ⟨⟨rfl, rfl, rfl, rfl⟩, .empty, currentJournal_init _, .inl rfl⟩
      · rw [if_neg hover]
        refine ⟨h₁, fun s' hrun => ?_⟩
        cases hrun
        exact ⟨⟨rfl, rfl, rfl, rfl⟩, j, hsame.trans hcurrent, .inr ⟨hcurrent, Nat.le_of_not_lt hover⟩⟩

/-- **Appending the record** leaves the journals as they are, or the current one is longer by the record. -/
theorem journals_appendWalRec (c : CommitAddr) (s : Sys τ) :
    (finalState (appendWalRec c) s).disk.journals = s.disk.journals ∨
      s.task.keepLocalWAL ∧ exportSize s.name (exported s c) < largeBufSize ∧
        (finalState (appendWalRec c) s).disk.journals =
          (s.disk.setJournal s.snapshot.path s.task.id (s.snapshot.numJournals s.task.id)
            (.append (currentJournal s) (walRecord s c (exported s c)))).journals := by
  have hexport : (exportCommitGSL c).run s =
      if exportSize s.name (exported s c) < largeBufSize then .ok (exported s c) s else .error (.err .nomem) s := rfl
  by_cases hsize : exportSize s.name (exported s c) < largeBufSize
  · rw [if_pos hsize] at hexport
    have hrun : (appendWalRec c).run s = (if (walRecord s c (exported s c)).totalSize < fileBufSize then
        if s.task.keepLocalWAL then
          onDisk (appendJournal s.snapshot.path s.task.id (s.snapshot.numJournals s.task.id)
            (walRecord s c (exported s c))) >>= fun _ =>
          modifyCommit c fun commit => { commit with confirm := .persistent }
        else pure ()
      else throw (.err .nomem) : SysM τ Unit).run s := by
      rw [appendWalRec, run_bind_of_ok hexport]
      rfl
    rw [finalState, hrun]
    split_ifs with hroom hkeep
    · rcases appendJournal_cases s (walRecord s c (exported s c)) with ⟨e, herr⟩ | hdone
      · rw [run_bind_of_error herr]
        exact .inl rfl
      · rw [run_bind_of_ok hdone]
        exact .inr ⟨hkeep, hsize, rfl⟩
    · exact .inl rfl
    · exact .inl rfl
  · rw [if_neg hsize] at hexport
    have hstop : (appendWalRec c).run s = .error (.err .nomem) s := run_bind_of_error hexport
    rw [finalState_of_error hstop]
    exact .inl rfl

/-- **One call** keeps the bound if the record is small and fits. -/
theorem within_buildCommitWAL (h : Within s) (hsmall : Small s c) (hfits : Fits s c) :
    Within (finalState (buildCommitWAL c) s) := by
  -- the time of the commit comes first
  set s₁ := finalState (modifyCommit c fun commit => { commit with timestamp := s.now }) s with hs₁
  have hrun : (buildCommitWAL c).run s = (prepareJournal >>= fun _ => appendWalRec c : SysM τ Unit).run s₁ := rfl
  have htime : (s₁.ledger.commits c).timestamp = s₁.now := by
    show (Function.update s.ledger.commits c _ c).timestamp = s.now
    rw [Function.update_self]
  have hrecord : newRecord s₁ c = newRecord s c := by
    have hcommit : s₁.ledger.commits c = { s.ledger.commits c with timestamp := s.now } := by
      show Function.update s.ledger.commits c _ c = _
      rw [Function.update_self]
    rw [newRecord, newRecord, walRecord, walRecord, exported, exported, hcommit]
    rfl
  have hwithin₁ : Within s₁ := h.congr rfl
  obtain ⟨hwithin, hprepared⟩ := prepareJournal_sizes hwithin₁
  rw [finalState, hrun]
  cases hrun₂ : prepareJournal.run s₁ with
  | error e s₂ =>
      rw [finalState_of_error hrun₂] at hwithin
      rw [run_bind_of_error hrun₂]
      exact hwithin
  | ok u s₂ =>
      rw [finalState_of_ok hrun₂] at hwithin
      obtain ⟨hsame, j, hcurrent, htarget⟩ := hprepared s₂ hrun₂
      rw [run_bind_of_ok hrun₂]
      show Within (finalState (appendWalRec c) s₂)
      rcases journals_appendWalRec c s₂ with hkept | ⟨hkeep, hexport, hlonger⟩
      · exact hwithin.congr hkept
      · refine hwithin.setJournal ?_ hlonger
        rw [hcurrent, hsame.newRecord_eq htime, hrecord]
        show j.size + (newRecord s c).totalSize ≤ maxJournalSize
        rcases htarget with rfl | ⟨hj, hname⟩
        · rw [Small] at hsmall
          have hempty := size_empty_le
          omega
        · have hrole : s.task.keepLocalWAL := by
            rw [hsame.task] at hkeep
            exact hkeep
          have hsize : exportSize s.name (exported s c) < largeBufSize := by
            have hexported : exported s₂ c = exported s c := by
              rw [exported, exported, hsame.idx, hsame.commits]
              show List.map _ (Function.update s.ledger.commits c _ c).classStateRefs = _
              rw [Function.update_self]
              rfl
            rw [hsame.name, hexported] at hexport
            exact hexport
          exact hfits hrole hsize j hj hname

/-- **The journals stay within the bound** in every run in which the records fit. -/
theorem within_of_reaches {s₀ : Sys τ} (h₀ : Within s₀) (h : Reaches step Fitting s₀ s) : Within s := by
  refine h.invariant h₀ fun s e hwithin hfitting => ?_
  cases e with
  | write c => exact within_buildCommitWAL hwithin hfitting.1 hfitting.2
  | other s' => exact hwithin.congr hfitting

/-! ### Two journals -/

/-- An instance with an attribute of 1001 bytes. -/
def longInst : ClassInst :=
  { addr := 0, numid := 1, name := [97], blueprint := 0, attrs := [List.replicate 1001 97] }

/-- A repository with one journal, and a commit of that instance. -/
def withJournal (size : Nat) (records : List WalRecord) : Sys Unit :=
  { Sys.small .arbiter [] with
    ledger := {
      commits := fun _ => { classStateRefs := [{ entry := 0, phase := .selected, children := [longInst] }] }
      snapshot := { path := .numbered 0, role := .arbiter } }
    disk := { Disk.small [] with
      journals := fun path agent k =>
        if path = .numbered 0 ∧ agent = 0 ∧ k = 0 then some { size, records } else none } }

/-- The record of that commit, of 1065 bytes. -/
def longRecord : WalRecord := newRecord (withJournal 5 []) 0

theorem within_withJournal {size : Nat} (h : size ≤ maxJournalSize) (records : List WalRecord) :
    Within (withJournal size records) := by
  intro path agent k j hj
  have hfile : (if path = .numbered 0 ∧ agent = 0 ∧ k = 0 then some { size, records } else none) = some j := hj
  by_cases hsame : path = .numbered 0 ∧ agent = 0 ∧ k = 0
  · rw [if_pos hsame] at hfile
    obtain rfl := Option.some.inj hfile
    exact h
  · rw [if_neg hsame] at hfile
    exact absurd hfile.symm (Option.some_ne_none j)

theorem small_withJournal (size : Nat) (records : List WalRecord) : Small (withJournal size records) 0 := by
  -- the record does not depend on the journal
  have hrecord : newRecord (withJournal size records) 0 = longRecord := rfl
  have hsize : longRecord.totalSize = 1065 := by decide +kernel
  rw [Small, hrecord, hsize]
  decide

/-- A journal with room for one record. -/
def roomForOne : Sys Unit := withJournal 10484695 []

theorem fits_roomForOne : Fits roomForOne 0 := by
  intro _ _ j hj _
  obtain rfl := Option.some.inj hj
  decide +kernel

/-- Behind that record the next one starts a new journal. -/
theorem fits_roomForOne_write : Fits (step roomForOne (.write 0)) 0 := by
  intro _ _ j hj hroom
  have hsize : (currentJournal (step roomForOne (.write 0))).map Journal.size = some maxJournalSize := by decide +kernel
  have hname : 0 < journalNameSize (step roomForOne (.write 0)) := by decide +kernel
  rw [hj] at hsize
  have hfull : j.size = maxJournalSize := Option.some.inj hsize
  omega

/-- One record fills a journal, the next one is in a new journal. -/
theorem within_of_reaches_rotated :
    let s := step (step roomForOne (.write 0)) (.write 0)
    (s.disk.journals (.numbered 0) 0 1).map Journal.size = some 1070 ∧ Within s := by
  have hsmall : Small (step roomForOne (.write 0)) 0 := by
    rw [Small]
    decide +kernel
  have hfirst : Reaches step Fitting roomForOne (step roomForOne (.write 0)) :=
    .next .refl ⟨small_withJournal 10484695 [], fits_roomForOne⟩
  exact ⟨by decide +kernel,
    within_of_reaches (within_withJournal (by decide) []) (.next hfirst ⟨hsmall, fits_roomForOne_write⟩)⟩

/-- **A journal with 9845 records of 1065 bytes** takes one record more. -/
theorem not_within_long_record :
    10484930 = Journal.empty.size + ((List.replicate 9845 longRecord).map WalRecord.totalSize).sum ∧
      Within (withJournal 10484930 (List.replicate 9845 longRecord)) ∧
        ¬∀ s, Reaches step Admissible (withJournal 10484930 (List.replicate 9845 longRecord)) s → Within s := by
  refine ⟨?_, within_withJournal (by decide) _, fun h => ?_⟩
  · have hrecord : longRecord.totalSize = 1065 := by decide +kernel
    rw [List.map_replicate, List.sum_replicate, hrecord]
    decide
  · have hsmall : Admissible (withJournal 10484930 (List.replicate 9845 longRecord)) (.write 0) :=
      small_withJournal _ _
    have hwithin := h _ (.next .refl hsmall)
    have hsize : ((step (withJournal 10484930 (List.replicate 9845 longRecord)) (.write 0)).disk.journals
        (.numbered 0) 0 0).map Journal.size = some 10485995 := by decide +kernel
    obtain ⟨j, hj, hlarge⟩ := Option.map_eq_some_iff.mp hsize
    have hle := hwithin _ _ _ j hj
    rw [hlarge] at hle
    exact absurd hle (by decide)

end Knowdy.JournalSizes
