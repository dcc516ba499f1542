import Knowdy.Restore

/-! # Collecting the journals

What the first part of `knd_repo_restore` leaves in the commit set of the snapshot.

* `Collected` — the commit set holds exactly the commits of a list of records, each under its number.
* `Collecting` — what collecting leaves alone.
* `Collects` — a program collects a list of records; the rules of sequencing.
* `restoreAgents_ok` — a returning run has collected the records of all journals.
* `restoreAgents_conflict` — it is refused with `knd_CONFLICT` only when two records have one number. -/

namespace Knowdy

variable {τ : Type}

/-! ## (1) The invariant -/

/-- The commit that `parse_commit` makes of a record. -/
def WalRecord.toCommit (r : WalRecord) : Commit := { numid := r.numid, record := r.body }

/-- **The commit set holds the commits of the records `rs`**, at the addresses `cs` and each under the id
of its number. -/
structure Collected (L : Ledger) (cs : List CommitAddr) (rs : List WalRecord) : Prop where
  /-- The set refuses a second element under one id. -/
  noOverwrite : L.snapshot.commitIdx.allowOverwrite = false
  /-- The elements of the set. -/
  perm : L.snapshot.commitIdx.elems.Perm cs
  /-- How many there are. -/
  count : L.snapshot.commitIdx.numElems = cs.length
  /-- The ids. -/
  lookup : ∀ ds c, L.snapshot.commitIdx.lookup ds = some c ↔
    c ∈ cs ∧ ds = numDigits (L.commits c).numid
  /-- The commits. -/
  commits : cs.map L.commits = rs.map WalRecord.toCommit
  /-- Their addresses are in use. -/
  bound : ∀ c ∈ cs, c < L.nextCommit
  /-- The addresses are distinct. -/
  nodup : cs.Nodup

namespace Collected

variable {L : Ledger} {cs : List CommitAddr} {rs : List WalRecord}

/-- The commit set holds the commits under their numbers. -/
theorem holds (h : Collected L cs rs) : L.snapshot.commitIdx.Holds (fun c => (L.commits c).numid) (· ∈ cs) :=
  ⟨h.noOverwrite, h.lookup⟩

/-- A new snapshot has collected nothing. -/
theorem nil (h : L.snapshot.commitIdx = {}) : Collected L [] [] where
  noOverwrite := by rw [h]
  perm := by
    have helems : (({} : KndSet CommitAddr)).elems = [] := by
      have hnone : ElemIdx.elemList (fun _ => none : Digit → Option CommitAddr) = [] :=
        List.filterMap_eq_nil_iff.mpr fun _ _ => rfl
      simp [KndSet.elems, ElemIdx.new, ElemIdx.entries_node, hnone]
    rw [h, helems]
  count := by rw [h]; rfl
  lookup ds c := by
    have hnone : (({} : KndSet CommitAddr)).lookup ds = none := by
      rcases ds with _ | ⟨i, _ | ⟨j, ds⟩⟩
      · rfl
      · rfl
      · rw [KndSet.lookup, ElemIdx.lookup_cons (List.cons_ne_nil j ds)]
        exact ElemIdx.lookup_null _
    rw [h, hnone]
    simp
  commits := rfl
  bound := by simp
  nodup := List.nodup_nil

/-- The rest of the snapshot does not matter. -/
theorem congr (h : Collected L cs rs) {L' : Ledger}
    (hset : L'.snapshot.commitIdx = L.snapshot.commitIdx) (hcommits : L'.commits = L.commits)
    (hnext : L'.nextCommit = L.nextCommit) : Collected L' cs rs where
  noOverwrite := by rw [hset]; exact h.noOverwrite
  perm := by rw [hset]; exact h.perm
  count := by rw [hset]; exact h.count
  lookup ds c := by rw [hset, hcommits]; exact h.lookup ds c
  commits := by rw [hcommits]; exact h.commits
  bound c hc := by rw [hnext]; exact h.bound c hc
  nodup := h.nodup

/-- The numbers of the collected commits. -/
theorem numids (h : Collected L cs rs) : cs.map (fun c => (L.commits c).numid) = rs.map (·.numid) := by
  have hmap := congrArg (List.map Commit.numid) h.commits
  rw [List.map_map, List.map_map] at hmap
  exact hmap

/-- A number is taken exactly when a record has it. -/
theorem lookup_ne_none_iff (h : Collected L cs rs) (n : Nat) :
    L.snapshot.commitIdx.lookup (numDigits n) ≠ none ↔ n ∈ rs.map (·.numid) := by
  rw [← h.numids, List.mem_map, Option.ne_none_iff_exists']
  constructor
  · rintro ⟨c, hc⟩
    obtain ⟨hmem, hds⟩ := (h.lookup _ _).mp hc
    exact ⟨c, hmem, (numDigits_inj.mp hds).symm⟩
  · rintro ⟨c, hmem, hn⟩
    exact ⟨c, (h.lookup _ _).mpr ⟨hmem, by rw [hn]⟩⟩

end Collected

/-! ## (2) What collecting leaves alone -/

/-- **What collecting leaves alone**: the indices and files, the snapshot but for its commit set and its
journal numbers, and every commit that was there. -/
structure Collecting (s s' : Sys τ) : Prop where
  /-- The repository. -/
  env : s'.name = s.name ∧ s'.repoPathSize = s.repoPathSize ∧ s'.now = s.now
  /-- The indices. -/
  idx : s'.idx = s.idx
  /-- `is_resolved`. -/
  resolved : s'.resolved = s.resolved
  /-- The files. -/
  disk : s'.disk = s.disk
  /-- The task. -/
  task : s'.task.id = s.task.id ∧ s'.task.role = s.task.role
  /-- The snapshot. -/
  snapshot : s'.snapshot.path = s.snapshot.path ∧ s'.snapshot.role = s.snapshot.role ∧
    s'.snapshot.numid = s.snapshot.numid ∧ s'.snapshot.commits = s.snapshot.commits ∧
    s'.snapshot.numCommits = s.snapshot.numCommits
  /-- The replays so far. -/
  applied : s'.ledger.applied = s.ledger.applied
  /-- No address becomes free. -/
  grows : s.ledger.nextCommit ≤ s'.ledger.nextCommit
  /-- The commits that were there. -/
  commits : ∀ c < s.ledger.nextCommit, s'.ledger.commits c = s.ledger.commits c
  /-- The imported instances of the task: they are kept or forgotten. -/
  insts : ∀ i ∈ s'.task.classInstStateRefs, i ∈ s.task.classInstStateRefs

instance : IsPreorder (Sys τ) Collecting where
  refl _ := ⟨⟨rfl, rfl, rfl⟩, rfl, rfl, rfl, ⟨rfl, rfl⟩, ⟨rfl, rfl, rfl, rfl, rfl⟩, rfl, le_rfl,
    fun _ _ => rfl, fun _ => id⟩
  trans s s' s'' h h' := {
    env := ⟨h'.env.1.trans h.env.1, h'.env.2.1.trans h.env.2.1, h'.env.2.2.trans h.env.2.2⟩
    idx := h'.idx.trans h.idx
    resolved := h'.resolved.trans h.resolved
    disk := h'.disk.trans h.disk
    task := ⟨h'.task.1.trans h.task.1, h'.task.2.trans h.task.2⟩
    snapshot := by
      obtain ⟨h₁, h₂, h₃, h₄, h₅⟩ := h.snapshot
      obtain ⟨h₁', h₂', h₃', h₄', h₅'⟩ := h'.snapshot
      exact ⟨h₁'.trans h₁, h₂'.trans h₂, h₃'.trans h₃, h₄'.trans h₄, h₅'.trans h₅⟩
    applied := h'.applied.trans h.applied
    grows := h.grows.trans h'.grows
    commits := fun c hc => (h'.commits c (lt_of_lt_of_le hc h.grows)).trans (h.commits c hc)
    insts := fun i hi => h.insts i (h'.insts i hi) }

/-! ## (3) One record -/

/-- The state in which `parse_commit` puts the commit of a record into the set. -/
def beforeIndexing (s : Sys τ) (r : WalRecord) : Sys τ :=
  { s with
    ledger := s.ledger.alloc r.toCommit
    task := { s.task with
      type := .get
      commit := some s.ledger.nextCommit
      classInstStateRefs := []
      classNameIdx := [] } }

theorem run_parseCommit (r : WalRecord) (s : Sys τ) :
    (parseCommit r).run s
      = if r.size = 0 then .error (.err .fail) (beforeIndexing s r)
        else (indexCommit s.ledger.nextCommit r.numid).run (beforeIndexing s r) := by
  have hunfold : (parseCommit r).run s
      = ((if r.size = 0 then throw (.err .fail) else pure ()) >>= fun _ =>
          indexCommit s.ledger.nextCommit r.numid : SysM τ Unit).run (beforeIndexing s r) := rfl
  rw [hunfold]
  by_cases h : r.size = 0
  · rw [if_pos h, if_pos h]
    rfl
  · rw [if_neg h, if_neg h]
    rfl

theorem collecting_beforeIndexing (s : Sys τ) (r : WalRecord) : Collecting s (beforeIndexing s r) where
  env := ⟨rfl, rfl, rfl⟩
  idx := rfl
  resolved := rfl
  disk := rfl
  task := ⟨rfl, rfl⟩
  snapshot := ⟨rfl, rfl, rfl, rfl, rfl⟩
  applied := rfl
  grows := Nat.le_succ _
  commits c hc := by
    show Function.update s.ledger.commits s.ledger.nextCommit r.toCommit c = _
    rw [Function.update_of_ne (Nat.ne_of_lt hc)]
  insts i hi := nomatch hi

/-- The state with another commit set. -/
def withCommitIdx (s : Sys τ) (set : KndSet CommitAddr) : Sys τ :=
  s.setLedger (s.ledger.setSnapshot { s.snapshot with commitIdx := set })

theorem run_indexCommit (c : CommitAddr) (n : Nat) (s : Sys τ) :
    (indexCommit c n).run s = match kndSetAdd s.snapshot.commitIdx (digitsKey (numDigits n)) c with
      | (.error e, set) => .error (.err e) (withCommitIdx s set)
      | (.ok (), set) => .ok () (withCommitIdx s set) := by
  rw [← kndNumToStr_eq]
  rfl

theorem collecting_withCommitIdx (s : Sys τ) (set : KndSet CommitAddr) :
    Collecting s (withCommitIdx s set) where
  env := ⟨rfl, rfl, rfl⟩
  idx := rfl
  resolved := rfl
  disk := rfl
  task := ⟨rfl, rfl⟩
  snapshot := ⟨rfl, rfl, rfl, rfl, rfl⟩
  applied := rfl
  grows := le_rfl
  commits _ _ := rfl
  insts _ := id

theorem collecting_parseCommit (r : WalRecord) :
    Moves Collecting (parseCommit r : SysM τ Unit) := by
  intro s
  rw [finalState, run_parseCommit]
  have hbefore := collecting_beforeIndexing s r
  by_cases h : r.size = 0
  · rw [if_pos h]
    exact hbefore
  · rw [if_neg h, run_indexCommit]
    cases hadd : kndSetAdd (beforeIndexing s r).snapshot.commitIdx (digitsKey (numDigits r.numid))
        s.ledger.nextCommit with
    | mk rc set =>
        cases rc with
        | error e => exact trans_of Collecting hbefore (collecting_withCommitIdx _ set)
        | ok u => exact trans_of Collecting hbefore (collecting_withCommitIdx _ set)

/-- **A record that is accepted** is collected. -/
theorem parseCommit_ok {r : WalRecord} {s s' : Sys τ} {cs : List CommitAddr} {rs : List WalRecord}
    (h : Collected s.ledger cs rs) (hrun : (parseCommit r).run s = .ok () s') :
    Collected s'.ledger (cs ++ [s.ledger.nextCommit]) (rs ++ [r]) := by
  rw [run_parseCommit] at hrun
  by_cases hsize : r.size = 0
  · rw [if_pos hsize] at hrun
    cases hrun
  · rw [if_neg hsize, run_indexCommit] at hrun
    set new := s.ledger.nextCommit with hnew
    have hfresh : new ∉ cs := fun hmem => Nat.lt_irrefl _ (h.bound _ hmem)
    split at hrun
    · cases hrun
    · rename_i set hadd
      cases hrun
      have hold : ∀ c ∈ cs, Function.update s.ledger.commits new r.toCommit c = s.ledger.commits c :=
        fun c hc => Function.update_of_ne (fun heq : c = new => hfresh (heq ▸ hc)) _ _
      have hself : Function.update s.ledger.commits new r.toCommit new = r.toCommit :=
        Function.update_self ..
      have hover : (beforeIndexing s r).snapshot.commitIdx.allowOverwrite = false := h.noOverwrite
      obtain ⟨hfree, hlookup, hkeep⟩ := kndSetAdd_ok hadd
      have hperm := elems_perm_of_kndSetAdd hover hadd
      have hcount : set.numElems = s.ledger.snapshot.commitIdx.numElems + 1 := by
        rw [kndSetAdd] at hadd
        split at hadd
        · cases hadd
        · cases hadd
          rfl
      constructor
      · exact hkeep.trans h.noOverwrite
      · refine (hperm.trans ((List.perm_cons new).mpr h.perm)).trans ?_
        exact List.perm_append_singleton new cs |>.symm
      · show set.numElems = _
        rw [hcount, h.count, List.length_append, List.length_singleton]
      · intro ds c
        show set.lookup ds = some c ↔ c ∈ cs ++ [new] ∧
          ds = numDigits (Function.update s.ledger.commits new r.toCommit c).numid
        rw [hlookup, List.mem_append, List.mem_singleton]
        have hset : ∀ c, (beforeIndexing s r).snapshot.commitIdx.lookup ds = some c ↔
            c ∈ cs ∧ ds = numDigits (s.ledger.commits c).numid := fun c => h.lookup ds c
        by_cases hds : ds = numDigits r.numid
        · rw [if_pos hds]
          constructor
          · intro heq
            obtain rfl : new = c := Option.some.inj heq
            exact ⟨.inr rfl, by rw [hself, hds]; rfl⟩
          · rintro ⟨hmem | rfl, hdigits⟩
            · -- an old commit under this id would have been met by the insertion
              rw [hold c hmem] at hdigits
              have htaken := (hset c).mpr ⟨hmem, hdigits⟩
              rw [hds, hfree hover] at htaken
              cases htaken
            · rfl
        · rw [if_neg hds, hset]
          constructor
          · rintro ⟨hmem, hdigits⟩
            exact ⟨.inl hmem, by rw [hold c hmem]; exact hdigits⟩
          · rintro ⟨hmem | rfl, hdigits⟩
            · exact ⟨hmem, by rw [hold c hmem] at hdigits; exact hdigits⟩
            · rw [hself] at hdigits
              exact absurd hdigits hds
      · show (cs ++ [new]).map (Function.update s.ledger.commits new r.toCommit) = _
        rw [List.map_append, List.map_append, List.map_congr_left hold, h.commits, List.map_singleton,
          hself, List.map_singleton]
      · intro c hc
        rcases List.mem_append.mp hc with hc | hc
        · exact Nat.lt_succ_of_lt (h.bound c hc)
        · rw [List.mem_singleton.mp hc]
          exact Nat.lt_succ_self _
      · rw [List.nodup_append']
        exact ⟨h.nodup, List.nodup_singleton _, by simpa using hfresh⟩

/-- **A record is refused with `knd_CONFLICT`** only when its number has been collected. -/
theorem parseCommit_conflict {r : WalRecord} {s s' : Sys τ} {cs : List CommitAddr}
    {rs : List WalRecord} (h : Collected s.ledger cs rs)
    (hrun : (parseCommit r).run s = .error (.err .conflict) s') : r.numid ∈ rs.map (·.numid) := by
  rw [run_parseCommit] at hrun
  by_cases hsize : r.size = 0
  · rw [if_pos hsize] at hrun
    cases hrun
  · rw [if_neg hsize, run_indexCommit] at hrun
    split at hrun
    · rename_i e set hadd
      obtain ⟨-, htaken, -⟩ := kndSetAdd_error (numDigits_ne_nil _) hadd
      exact (h.lookup_ne_none_iff _).mp htaken
    · cases hrun

/-! ## (4) All records -/

/-- **The program collects the records `more s`**: a returning run adds them to the set, at new addresses,
and a run refused with `knd_CONFLICT` has met two records with one number. -/
def Collects (x : SysM τ Unit) (s : Sys τ) (more : List WalRecord) : Prop :=
  ∀ cs rs, Collected s.ledger cs rs →
    (∀ s', x.run s = .ok () s' → s.ledger.nextCommit ≤ s'.ledger.nextCommit ∧
      ∃ new, Collected s'.ledger (cs ++ new) (rs ++ more) ∧ ∀ c ∈ new, s.ledger.nextCommit ≤ c) ∧
    (∀ s', x.run s = .error (.err .conflict) s' → ¬((rs ++ more).map (·.numid)).Nodup)

/-- A program that does nothing collects nothing. -/
theorem Collects.pure (s : Sys τ) : Collects (pure ()) s [] := by
  intro cs rs h
  refine ⟨fun s' hrun => ?_, fun s' hrun => by cases hrun⟩
  cases hrun
  exact ⟨le_rfl, [], by rwa [List.append_nil, List.append_nil], by simp⟩

/-- A step that changes neither the commits nor their set collects nothing. -/
theorem Collects.modify {f : Sys τ → Sys τ} {s : Sys τ}
    (h : ∀ cs rs, Collected s.ledger cs rs → Collected (f s).ledger cs rs)
    (hnext : s.ledger.nextCommit ≤ (f s).ledger.nextCommit) :
    Collects (modify f) s [] := by
  intro cs rs hs
  refine ⟨fun s' hrun => ?_, fun s' hrun => by cases hrun⟩
  cases hrun
  exact ⟨hnext, [], by rw [List.append_nil, List.append_nil]; exact h cs rs hs, by simp⟩

/-- **Sequencing.** -/
theorem Collects.bind {x : SysM τ Unit} {f : Unit → SysM τ Unit} {s : Sys τ}
    {more₁ more₂ : List WalRecord} (hx : Collects x s more₁)
    (hf : ∀ s', x.run s = .ok () s' → Collects (f ()) s' more₂) :
    Collects (x >>= f) s (more₁ ++ more₂) := by
  intro cs rs h
  obtain ⟨hok, hconflict⟩ := hx cs rs h
  constructor
  · intro s' hrun
    obtain ⟨u, s₁, hrun₁, hrun₂⟩ := run_bind_eq_ok.mp hrun
    obtain ⟨hle₁, new₁, h₁, hnew₁⟩ := hok s₁ hrun₁
    obtain ⟨hle₂, new₂, h₂, hnew₂⟩ := (hf s₁ hrun₁ _ _ h₁).1 s' hrun₂
    refine ⟨hle₁.trans hle₂, new₁ ++ new₂, by rwa [← List.append_assoc, ← List.append_assoc],
      fun c hc => ?_⟩
    rcases List.mem_append.mp hc with hc | hc
    · exact hnew₁ c hc
    · exact hle₁.trans (hnew₂ c hc)
  · intro s' hrun
    rw [← List.append_assoc]
    rcases run_bind_eq_error.mp hrun with hfail | ⟨u, s₁, hrun₁, hrun₂⟩
    · -- what was met already is still there in the longer list
      intro hnodup
      rw [List.map_append, List.nodup_append'] at hnodup
      exact hconflict s' hfail hnodup.1
    · obtain ⟨-, new₁, h₁, -⟩ := hok s₁ hrun₁
      exact (hf s₁ hrun₁ _ _ h₁).2 s' hrun₂

theorem collects_parseCommit (r : WalRecord) (s : Sys τ) : Collects (parseCommit r) s [r] := by
  intro cs rs h
  refine ⟨fun s' hrun => ⟨((collecting_parseCommit r).of_ok hrun).grows, [s.ledger.nextCommit],
    parseCommit_ok h hrun, by simp⟩, fun s' hrun hnodup => ?_⟩
  have hmem := parseCommit_conflict h hrun
  rw [List.map_append, List.nodup_append'] at hnodup
  exact hnodup.2.2 hmem (List.mem_singleton_self _)

theorem collects_records (records : List WalRecord) (s : Sys τ) :
    Collects (records.forM parseCommit) s records := by
  induction records generalizing s with
  | nil => exact .pure s
  | cons r records ih => exact .bind (collects_parseCommit r s) fun s' _ => ih s'

theorem collects_restoreCommits (j : Journal) (s : Sys τ) :
    Collects (restoreCommits j) s j.records :=
  have htype : Collects (modifyTask fun t => { t with type := .restore }) s [] :=
    .modify (fun _ _ h => h) le_rfl
  htype.bind fun s' _ => collects_records j.records s'

theorem collecting_restoreCommits (j : Journal) :
    Moves Collecting (restoreCommits j : SysM τ Unit) := by
  have htype : Moves Collecting (modifyTask fun t => { t with type := .restore } : SysM τ Unit) :=
    fun s => ⟨⟨rfl, rfl, rfl⟩, rfl, rfl, rfl, ⟨rfl, rfl⟩, ⟨rfl, rfl, rfl, rfl, rfl⟩, rfl, le_rfl,
      fun _ _ => rfl, fun _ => id⟩
  exact .bind htype fun _ => .forM fun r _ => collecting_parseCommit r

/-- The journal number that is written down after a journal. -/
def noteJournal (agent k : Nat) : SysM τ Unit :=
  modifySnapshot fun snapshot =>
    { snapshot with numJournals := Function.update snapshot.numJournals agent k }

theorem collecting_noteJournal (agent k : Nat) :
    Moves Collecting (noteJournal agent k : SysM τ Unit) := fun _ =>
  ⟨⟨rfl, rfl, rfl⟩, rfl, rfl, rfl, ⟨rfl, rfl⟩, ⟨rfl, rfl, rfl, rfl, rfl⟩, rfl, le_rfl, fun _ _ => rfl,
    fun _ => id⟩

/-- The round of the loop over the journals, with what it reads. -/
theorem run_restoreJournals_cons (agent k : Nat) (ks : List Nat) (s : Sys τ) :
    (restoreJournals agent (k :: ks)).run s
      = if agentJournalNameSize s agent k ≥ pathSize then .error (.err .limit) s
        else match s.disk.journals s.snapshot.path agent k with
          | none => .ok () s
          | some j => (restoreCommits j >>= fun _ => noteJournal agent k >>= fun _ =>
              restoreJournals agent ks).run s := by
  have hunfold : (restoreJournals agent (k :: ks)).run s
      = (if agentJournalNameSize s agent k ≥ pathSize then throw (.err .limit)
        else match s.disk.journals s.snapshot.path agent k with
          | none => pure ()
          | some j => restoreCommits j >>= fun _ => noteJournal agent k >>= fun _ =>
              restoreJournals agent ks : SysM τ Unit).run s := rfl
  rw [hunfold]
  by_cases h : agentJournalNameSize s agent k ≥ pathSize
  · rw [if_pos h, if_pos h]
    rfl
  · rw [if_neg h, if_neg h]
    cases s.disk.journals s.snapshot.path agent k <;> rfl

/-- Collecting sees the same journals all the time. -/
theorem Collecting.journals {s s' : Sys τ} (h : Collecting s s') (agent : Nat) :
    s'.disk.journals s'.snapshot.path agent = s.disk.journals s.snapshot.path agent := by
  rw [h.disk, h.snapshot.1]

theorem collects_restoreJournals (agent : Nat) (ks : List Nat) (s : Sys τ) :
    Collects (restoreJournals agent ks) s
      (agentRecords (s.disk.journals s.snapshot.path agent) ks) := by
  induction ks generalizing s with
  | nil => exact .pure s
  | cons k ks ih =>
      intro cs rs h
      rw [run_restoreJournals_cons, agentRecords]
      by_cases hsize : agentJournalNameSize s agent k ≥ pathSize
      · rw [if_pos hsize]
        exact ⟨fun s' hrun => (by cases hrun), fun s' hrun => (by cases hrun)⟩
      · rw [if_neg hsize]
        cases hj : s.disk.journals s.snapshot.path agent k with
        | none => exact Collects.pure s cs rs h
        | some j =>
            refine Collects.bind (collects_restoreCommits j s) (fun s₁ hrun₁ => ?_) cs rs h
            have hnote : Collects (noteJournal agent k) s₁ [] :=
              .modify (fun _ _ h => h.congr rfl rfl rfl) le_rfl
            refine hnote.bind fun s₂ hrun₂ => ?_
            have h₁ := (collecting_restoreCommits j).of_ok hrun₁
            have h₂ := (collecting_noteJournal agent k).of_ok hrun₂
            rw [← (trans_of Collecting h₁ h₂).journals agent]
            exact ih s₂

theorem collecting_restoreJournals (agent : Nat) (ks : List Nat) :
    Moves Collecting (restoreJournals agent ks : SysM τ Unit) := by
  induction ks with
  | nil => exact .pure _
  | cons k ks ih =>
      refine .bind .get fun s => .ite (fun _ => .throw _) fun _ => ?_
      cases s.disk.journals s.snapshot.path agent k with
      | none => exact .pure _
      | some j =>
          exact .bind (collecting_restoreCommits j) fun _ =>
            .bind (collecting_noteJournal agent k) fun _ => ih

theorem run_restoreAgents_cons (i : Nat) (is : List Nat) (s : Sys τ) :
    (restoreAgents (i :: is)).run s
      = (if s.disk.agentDirs s.snapshot.path i then
          restoreJournals i (List.range maxJournals) >>= fun _ => restoreAgents is
        else if i = 0 then restoreAgents is else pure () : SysM τ Unit).run s := rfl

theorem collects_restoreAgents (is : List Nat) (s : Sys τ) :
    Collects (restoreAgents is) s (agentsRecords s.disk s.snapshot.path is) := by
  induction is generalizing s with
  | nil => exact .pure s
  | cons i is ih =>
      intro cs rs h
      rw [run_restoreAgents_cons, agentsRecords]
      split
      · refine Collects.bind (collects_restoreJournals i _ s) (fun s₁ hrun => ?_) cs rs h
        have h₁ := (collecting_restoreJournals i _).of_ok hrun
        rw [← h₁.disk, ← h₁.snapshot.1]
        exact ih s₁
      · split
        · exact ih s cs rs h
        · exact Collects.pure s cs rs h

theorem collecting_restoreAgents (is : List Nat) :
    Moves Collecting (restoreAgents is : SysM τ Unit) := by
  induction is with
  | nil => exact .pure _
  | cons i is ih =>
      exact .bind .get fun s => .ite (fun _ => .bind (collecting_restoreJournals i _) fun _ => ih)
        fun _ => .ite (fun _ => ih) fun _ => .pure _

/-- **The first part of a restore** collects the records of all journals at new addresses, when it
returns. -/
theorem restoreAgents_ok {s s' : Sys τ} (hidx : s.snapshot.commitIdx = {})
    (hrun : (restoreAgents (List.range maxTasks)).run s = .ok () s') :
    Collecting s s' ∧ ∃ cs, Collected s'.ledger cs (journalRecords s) ∧
      ∀ c ∈ cs, s.ledger.nextCommit ≤ c :=
  ⟨(collecting_restoreAgents _).of_ok hrun,
    ((collects_restoreAgents _ s [] [] (.nil hidx)).1 s' hrun).2⟩

/-- **It is refused with `knd_CONFLICT`** only when two records have one number. -/
theorem restoreAgents_conflict {s s' : Sys τ} (hidx : s.snapshot.commitIdx = {})
    (hrun : (restoreAgents (List.range maxTasks)).run s = .error (.err .conflict) s') :
    ¬((journalRecords s).map (·.numid)).Nodup :=
  (collects_restoreAgents _ s [] [] (.nil hidx)).2 s' hrun

/-! ## (5) All records are accepted -/

/-- **The program accepts the records `more s`** when no two records have one number and each has a size. -/
def Accepts (x : SysM τ Unit) (s : Sys τ) (more : List WalRecord) : Prop :=
  ∀ cs rs, Collected s.ledger cs rs → (∀ r ∈ more, r.size ≠ 0) → ((rs ++ more).map (·.numid)).Nodup →
    returns x s = true

/-- A program that always returns accepts all records. -/
theorem Accepts.of_ok {x : SysM τ Unit} {s s' : Sys τ} (h : x.run s = .ok () s') (more : List WalRecord) :
    Accepts x s more := fun _ _ _ _ _ => by rw [returns, h]

/-- **Sequencing.** -/
theorem Accepts.bind {x : SysM τ Unit} {f : Unit → SysM τ Unit} {s : Sys τ} {more₁ more₂ : List WalRecord}
    (hx : Accepts x s more₁) (hcollects : Collects x s more₁)
    (hf : ∀ s', x.run s = .ok () s' → Accepts (f ()) s' more₂) : Accepts (x >>= f) s (more₁ ++ more₂) := by
  intro cs rs h hsizes hnodup
  rw [← List.append_assoc] at hnodup
  have hfirst : ((rs ++ more₁).map (·.numid)).Nodup := by
    rw [List.map_append, List.nodup_append'] at hnodup
    exact hnodup.1
  obtain ⟨u, hrun⟩ := returns_iff.mp (hx cs rs h (fun r hr => hsizes r (List.mem_append_left _ hr)) hfirst)
  obtain ⟨-, new, hnew, -⟩ := (hcollects cs rs h).1 _ hrun
  rw [returns, run_bind_of_ok hrun]
  exact hf _ hrun _ _ hnew (fun r hr => hsizes r (List.mem_append_right _ hr)) hnodup

theorem accepts_parseCommit (r : WalRecord) (s : Sys τ) : Accepts (parseCommit r) s [r] := by
  intro cs rs h hsizes hnodup
  rw [returns, run_parseCommit, if_neg (hsizes r (List.mem_singleton_self r)), run_indexCommit]
  cases hadd : kndSetAdd (beforeIndexing s r).snapshot.commitIdx (digitsKey (numDigits r.numid))
      s.ledger.nextCommit with
  | mk rc set =>
      cases rc with
      | ok u => rfl
      | error e =>
          -- the set refuses a number only when it has it
          obtain ⟨-, htaken, -⟩ := kndSetAdd_error (numDigits_ne_nil _) hadd
          have hmem : r.numid ∈ rs.map (·.numid) := (h.lookup_ne_none_iff _).mp htaken
          rw [List.map_append, List.nodup_append'] at hnodup
          exact absurd (List.mem_singleton_self _) (hnodup.2.2 hmem)

theorem accepts_records (records : List WalRecord) (s : Sys τ) :
    Accepts (records.forM parseCommit) s records := by
  induction records generalizing s with
  | nil => exact .of_ok rfl []
  | cons r records ih =>
      exact (accepts_parseCommit r s).bind (collects_parseCommit r s) fun s' _ => ih s'

theorem accepts_restoreCommits (j : Journal) (s : Sys τ) : Accepts (restoreCommits j) s j.records :=
  have htype : Collects (modifyTask fun t => { t with type := .restore }) s [] :=
    .modify (fun _ _ h => h) le_rfl
  have hok : (modifyTask fun t => { t with type := .restore } : SysM τ Unit).run s
      = .ok () (s.setTask { s.task with type := .restore }) := rfl
  (Accepts.of_ok hok []).bind htype fun s' _ => accepts_records j.records s'

/-- **The names of the journals in the range of the reader are not too long.** -/
def ShortNames (s : Sys τ) : Prop :=
  ∀ i < maxTasks, ∀ k < maxJournals, agentJournalNameSize s i k < pathSize

theorem Collecting.shortNames {s s' : Sys τ} (h : Collecting s s') (hs : ShortNames s) :
    ShortNames s' := by
  intro i hi k hk
  rw [agentJournalNameSize, h.snapshot.1, h.env.2.1]
  exact hs i hi k hk

theorem accepts_restoreJournals {agent : Nat} (hagent : agent < maxTasks) {ks : List Nat} {s : Sys τ}
    (hks : ∀ k ∈ ks, k < maxJournals) (hnames : ShortNames s) :
    Accepts (restoreJournals agent ks) s (agentRecords (s.disk.journals s.snapshot.path agent) ks) := by
  induction ks generalizing s with
  | nil => exact .of_ok rfl []
  | cons k ks ih =>
      intro cs rs h
      have hshort : ¬agentJournalNameSize s agent k ≥ pathSize :=
        Nat.not_le_of_lt (hnames agent hagent k (hks k (List.mem_cons_self ..)))
      rw [agentRecords, returns, run_restoreJournals_cons, if_neg hshort]
      cases hj : s.disk.journals s.snapshot.path agent k with
      | none => exact fun _ _ => rfl
      | some j =>
          refine Accepts.bind (accepts_restoreCommits j s) (collects_restoreCommits j s)
            (fun s₁ hrun₁ => ?_) cs rs h
          have hnote : Collects (noteJournal agent k) s₁ [] :=
            .modify (fun _ _ h => h.congr rfl rfl rfl) le_rfl
          have hok : (noteJournal agent k).run s₁ = .ok () (finalState (noteJournal agent k) s₁) := rfl
          refine (Accepts.of_ok hok []).bind hnote fun s₂ hrun₂ => ?_
          have h₂ := trans_of Collecting ((collecting_restoreCommits j).of_ok hrun₁)
            ((collecting_noteJournal agent k).of_ok hrun₂)
          rw [← h₂.journals agent]
          exact ih (fun k hk => hks k (List.mem_cons_of_mem _ hk)) (h₂.shortNames hnames)

theorem accepts_restoreAgents {is : List Nat} {s : Sys τ} (his : ∀ i ∈ is, i < maxTasks)
    (hnames : ShortNames s) : Accepts (restoreAgents is) s (agentsRecords s.disk s.snapshot.path is) := by
  induction is generalizing s with
  | nil => exact .of_ok rfl []
  | cons i is ih =>
      have his' : ∀ j ∈ is, j < maxTasks := fun j hj => his j (List.mem_cons_of_mem _ hj)
      intro cs rs h
      rw [agentsRecords, returns, run_restoreAgents_cons]
      split
      · refine Accepts.bind (accepts_restoreJournals (his i (List.mem_cons_self ..))
          (fun k => List.mem_range.mp) hnames) (collects_restoreJournals i _ s) (fun s₁ hrun => ?_) cs rs h
        have h₁ := (collecting_restoreJournals i _).of_ok hrun
        rw [← h₁.disk, ← h₁.snapshot.1]
        exact ih his' (h₁.shortNames hnames)
      · split
        · exact ih his' hnames cs rs h
        · exact fun _ _ => rfl

/-- **The first part of a restore accepts all records** of the journals, when they have sizes and different
numbers and the names of the journals are not too long. -/
theorem restoreAgents_returns {s : Sys τ} (hidx : s.snapshot.commitIdx = {}) (hnames : ShortNames s)
    (hsizes : ∀ r ∈ journalRecords s, r.size ≠ 0) (hnodup : ((journalRecords s).map (·.numid)).Nodup) :
    returns (restoreAgents (List.range maxTasks)) s = true :=
  accepts_restoreAgents (fun _ => List.mem_range.mp) hnames [] [] (.nil hidx) hsizes hnodup

end Knowdy
