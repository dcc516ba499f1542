import Knowdy.Session

/-! # The invariants of a repository

What holds of a repository after every permitted event.

* `Session.Ready n` — the snapshot `n` is the latest one, and its journals hold what was written and can be enumerated.
* `Session.Ordered` — the numbers increase, and the latest commit has the largest one.
* `Session.Sound` — the records are those of the confirmed tasks and can be replayed, and the indices know them.
* `restore_returns` — **a permitted process restores all records**; `invariant_step`, `invariant_of_reaches`. -/

namespace Knowdy

variable {τ : Type}

/-! ## (1) The invariants -/

/-- **A repository with the latest snapshot `n` whose journals can be enumerated** and hold what was written;
the process that has it open goes on behind them. -/
structure Session.Ready (n : Nat) (x : Session τ) : Prop where
  /-- The snapshot. -/
  latest : latestSnapshot x.sys.disk = some n
  /-- The folders and journals. -/
  layout : ∃ num, Layout x.sys.disk (.numbered n) num
  /-- The records. -/
  records : diskRecords x.sys.disk (.numbered n) = (x.sys.disk.written : Multiset WalRecord)
  /-- Their sizes. -/
  sizes : ∀ r ∈ x.sys.disk.written, r.size ≠ 0
  /-- The names of the journals fit. -/
  short : (SnapshotPath.numbered n).size x.sys.repoPathSize + 23 < pathSize
  /-- No file that an open reads is there. -/
  storage : ∀ m, x.storage m none = none
  /-- The snapshot of the process. -/
  snapshot : x.isOpen = true → x.sys.snapshot.path = .numbered n ∧ x.sys.snapshot.numid = n ∧
    x.sys.snapshot.role ≠ .reader
  /-- Its journal numbers. -/
  numbers : x.isOpen = true → Layout x.sys.disk (.numbered n) x.sys.snapshot.numJournals

/-- **The numbers increase, and the head of the list has the largest one.** -/
structure Session.Ordered (x : Session τ) : Prop where
  /-- The records. -/
  increasing : (x.sys.disk.written.map (·.numid)).Pairwise (· < ·)
  /-- The head. -/
  head : x.isOpen = true → ∀ r ∈ x.sys.disk.written,
    ∃ c, x.sys.snapshot.commits = some c ∧ r.numid ≤ (x.sys.ledger.commits c).numid
  /-- Its address is in use. -/
  bound : x.isOpen = true → ∀ c, x.sys.snapshot.commits = some c → c < x.sys.ledger.nextCommit

/-- **The record holds what the clauses make**: the classes, though not their clauses, and the instances. -/
structure RecordOf (body : List TaskItem) (r : WalRecord) : Prop where
  /-- The classes. -/
  created : createdNames r.body = (createdNames body).reverse
  /-- The instances. -/
  effects : (instEffects r.body).Perm (instEffects body)

/-- The clauses of new classes are not exported. -/
theorem exportClassState_clauses (idx : Indices τ) (ref : ClassStateRef) {name : Name} {clauses : List Name}
    (h : exportClassState idx ref = .importClass name clauses) : clauses = [] := by
  rw [exportClassState] at h
  cases hphase : ref.phase with
  | created =>
      rw [hphase] at h
      cases h
      rfl
  | selected =>
      rw [hphase] at h
      cases h

/-- The record of a commit gives no class its clauses. -/
theorem bare_record {s : Sys τ} {name : Name} {clauses : List Name}
    (h : .importClass name clauses ∈ s.record) : clauses = [] := by
  obtain ⟨ref, -, heq⟩ := List.mem_map.mp h
  exact exportClassState_clauses _ _ heq

section Sound

variable [AttrVarOps τ]

/-- **The records are those of the confirmed tasks and can be replayed**; the indices of the process know them. -/
structure Session.Sound (source : Indices τ) (x : Session τ) : Prop where
  /-- The source files. -/
  files : source.Named ∧ source.Holds []
  /-- The bodies of the records. -/
  bodies : source.Replayable (x.sys.disk.written.map WalRecord.body)
  /-- Their lengths. -/
  fits : ∀ r ∈ x.sys.disk.written, r.size = exportSize x.sys.name r.body ∧ r.size < largeBufSize
  /-- No record gives a class clauses. -/
  bare : ∀ r ∈ x.sys.disk.written, ∀ name clauses, .importClass name clauses ∈ r.body → clauses = []
  /-- The confirmed tasks. -/
  confirmed : List.Forall₂ RecordOf x.confirmed x.sys.disk.written
  /-- The classes can be found. -/
  named : x.isOpen = true → x.sys.idx.Named
  /-- The indices know the records. -/
  knows : x.isOpen = true → x.sys.idx.Knows source (x.sys.disk.written.map WalRecord.body)

/-- **The invariant.** -/
structure Session.Invariant (source : Indices τ) (n : Nat) (x : Session τ) : Prop where
  /-- The journals. -/
  ready : x.Ready n
  /-- The numbers. -/
  ordered : x.Ordered
  /-- The records. -/
  sound : x.Sound source

/-- A new repository. -/
theorem Session.New.invariant {source : Indices τ} {n : Nat} {x : Session τ} (h : x.New source n) :
    x.Invariant source n := by
  have hclosed : ¬x.isOpen = true := by
    rw [h.closed]
    exact Bool.false_ne_true
  have hno : ∀ r, r ∉ x.sys.disk.written := by
    rw [h.written]
    exact fun _ => List.not_mem_nil
  -- no process has it open, and there is no record
  refine ⟨⟨h.latest, ?_, ?_, fun r hr => absurd hr (hno r), h.short, h.storage, (absurd · hclosed), (absurd · hclosed)⟩,
    ⟨?_, (absurd · hclosed), (absurd · hclosed)⟩, ⟨⟨h.named, h.bare⟩, ?_, fun r hr => absurd hr (hno r),
      fun r hr => absurd hr (hno r), ?_, (absurd · hclosed), (absurd · hclosed)⟩⟩
  · exact ⟨fun _ => 0, fun i k hk => absurd (h.empty i k) hk, fun i k _ => h.empty i k,
      fun i k hk => absurd hk (Nat.not_lt_zero k), fun _ => by decide⟩
  · rw [h.written, diskRecords]
    refine Finset.sum_eq_zero fun i _ => Finset.sum_eq_zero fun k _ => ?_
    rw [h.empty]
    rfl
  · rw [h.written]
    exact .nil
  · rw [h.written]
    exact ⟨fun _ hb => (List.not_mem_nil hb).elim, .nil, fun _ hname => (List.not_mem_nil hname).elim, .nil⟩
  · rw [h.written, h.confirmed]
    exact .nil

end Sound

/-- The latest snapshot depends on the snapshot folders. -/
theorem latestSnapshot_congr {d d' : Disk} (h : d'.snapshotDirs = d.snapshotDirs) :
    latestSnapshot d' = latestSnapshot d := by
  rw [latestSnapshot, latestSnapshot, h]

/-- The latest snapshot has its folder. -/
theorem snapshotDirs_of_latest {d : Disk} {n : Nat} (h : latestSnapshot d = some n) :
    d.snapshotDirs n = true := by
  have hmem := List.mem_of_getLast? h
  exact List.all_eq_true.mp List.all_takeWhile n hmem

namespace Session.Ready

variable {n : Nat} {x : Session τ}

/-- The journals of the process. -/
theorem journaled (h : x.Ready n) (hopen : x.isOpen = true) : Journaled x.sys := by
  obtain ⟨hpath, -, -⟩ := h.snapshot hopen
  refine ⟨?_, ?_⟩
  · rw [hpath]
    exact h.numbers hopen
  · rw [hpath]
    exact h.records

/-- Where the process is, the folder of its snapshot is. -/
theorem dirs (h : x.Ready n) (hopen : x.isOpen = true) (m : Nat)
    (hpath : x.sys.snapshot.path = .numbered m) : x.sys.disk.snapshotDirs m = true := by
  rw [(h.snapshot hopen).1] at hpath
  cases hpath
  exact snapshotDirs_of_latest h.latest

/-- The state in which an agent starts has the journals of the process. -/
theorem journaled_begin (h : x.Ready n) (hopen : x.isOpen = true) (id now writesLeft : Nat) :
    Journaled (x.sys.begin id now writesLeft) := by
  have hj := h.journaled hopen
  exact ⟨hj.layout.congr rfl fun _ hd => hd, hj.records⟩

end Session.Ready

/-! ## (2) Tasks -/

section Tasks

variable [AttrVarOps τ] {source : Indices τ} {n : Nat} {x : Session τ}

omit [AttrVarOps τ] in
/-- The records that a live task has written. -/
theorem LiveDone.written {s s' : Sys τ} (h : LiveDone s s') :
    ∃ more : List WalRecord, s'.disk.written = s.disk.written ++ more ∧ ∀ r ∈ more, r.size ≠ 0 := by
  rcases h.outcome with ⟨hsame, -⟩ | ⟨-, -, -, hsame | ⟨r, -, hsize, hmore⟩⟩
  · exact ⟨[], by rw [hsame, List.append_nil], by simp⟩
  · exact ⟨[], by rw [hsame, List.append_nil], by simp⟩
  · exact ⟨[r], hmore, by simpa using hsize⟩

/-- A task of the process comes to an end. -/
theorem runTask_live (h : x.Ready n) (hopen : x.isOpen = true) {id now writesLeft : Nat} {body : List TaskItem}
    (hpermitted : x.Permitted source (.task id now writesLeft body)) :
    LiveDone (x.sys.begin id now writesLeft) (x.runTask body (x.sys.begin id now writesLeft)).sys :=
  kndParseTask_live kndRepoRestore body (h.journaled_begin hopen id now writesLeft)
    (h.snapshot hopen).2.2 rfl fun hrole => (hpermitted.2 hrole).canWrite

/-- **A task** keeps the journals enumerable. -/
theorem ready_runTask (h : x.Ready n) (hopen : x.isOpen = true) {id now writesLeft : Nat} {body : List TaskItem}
    (hpermitted : x.Permitted source (.task id now writesLeft body)) :
    (x.runTask body (x.sys.begin id now writesLeft)).Ready n := by
  have hdone := runTask_live h hopen hpermitted
  set s := x.sys.begin id now writesLeft with hs
  set s' := (x.runTask body s).sys with hs'
  obtain ⟨hpath₀, hnumid₀, -⟩ := h.snapshot hopen
  have hpath : s'.snapshot.path = .numbered n := hdone.snapshot.1.trans hpath₀
  obtain ⟨more, hwritten, hsizes⟩ := hdone.written
  have hlayout : Layout s'.disk (.numbered n) s'.snapshot.numJournals := hpath ▸ hdone.journaled.layout
  -- the journals of the process are those of its snapshot, which stays the latest one
  constructor
  · exact (latestSnapshot_congr (hdone.snapshotDirs (h.dirs hopen))).trans h.latest
  · exact ⟨_, hlayout⟩
  · rw [← hpath]
    exact hdone.journaled.records
  · intro r hr
    rw [← hs', hwritten, List.mem_append] at hr
    rcases hr with hr | hr
    · exact h.sizes r hr
    · exact hsizes r hr
  · rw [← hs', hdone.env]
    exact h.short
  · exact h.storage
  · exact fun _ => ⟨hpath, hdone.snapshot.2.trans hnumid₀, hdone.reader⟩
  · exact fun _ => hlayout

/-- **A task** keeps the numbers in order: the new commit gets the number after that of the head. -/
theorem ordered_runTask (h : x.Ready n) (ho : x.Ordered) (hopen : x.isOpen = true) {id now writesLeft : Nat}
    {body : List TaskItem} (hpermitted : x.Permitted source (.task id now writesLeft body)) :
    (x.runTask body (x.sys.begin id now writesLeft)).Ordered := by
  have hdone := runTask_live h hopen hpermitted
  set s := x.sys.begin id now writesLeft with hs
  set s' := (x.runTask body s).sys with hs'
  have hbound : ∀ c, s.snapshot.commits = some c → c < s.ledger.nextCommit := ho.bound hopen
  have hhead : ∀ r ∈ s.disk.written,
      ∃ c, s.snapshot.commits = some c ∧ r.numid ≤ (s.ledger.commits c).numid := ho.head hopen
  have hincreasing : (s.disk.written.map (·.numid)).Pairwise (· < ·) := ho.increasing
  rcases hdone.outcome with ⟨hwritten, hsame⟩ | ⟨hfront, hnew, hnumid, hwritten⟩
  · -- no commit was confirmed
    refine ⟨?_, fun _ r hr => ?_, fun _ c hc => ?_⟩
    · rw [← hs', hwritten]
      exact hincreasing
    · rw [← hs', hwritten] at hr
      obtain ⟨c, hc, hle⟩ := hhead r hr
      refine ⟨c, hsame.trans hc, ?_⟩
      rw [← hs', hdone.numids c (hbound c hc)]
      exact hle
    · rw [← hs', hsame] at hc
      exact lt_of_lt_of_le (hbound c hc) hdone.grows
  · -- the new commit is in front of the list, behind all records
    have habove : ∀ r ∈ s.disk.written, r.numid < (s'.ledger.commits s.ledger.nextCommit).numid := by
      intro r hr
      obtain ⟨c, hc, hle⟩ := hhead r hr
      rw [hnumid c hc (hbound c hc)]
      exact Nat.lt_succ_of_le hle
    refine ⟨?_, fun _ r hr => ⟨_, hfront, ?_⟩, fun _ c hc => ?_⟩
    · rcases hwritten with hwritten | ⟨r, hr, -, hwritten⟩
      · rw [← hs', hwritten]
        exact hincreasing
      · rw [← hs', hwritten, List.map_append, List.pairwise_append]
        refine ⟨hincreasing, List.pairwise_singleton _ _, fun a ha b hb => ?_⟩
        obtain ⟨r₀, hr₀, rfl⟩ := List.mem_map.mp ha
        obtain rfl : b = r.numid := List.mem_singleton.mp hb
        rw [hr]
        exact habove r₀ hr₀
    · rcases hwritten with hwritten | ⟨r₀, hr₀, -, hwritten⟩
      · rw [← hs', hwritten] at hr
        exact (habove r hr).le
      · rw [← hs', hwritten] at hr
        rcases List.mem_append.mp hr with hr | hr
        · exact (habove r hr).le
        · rw [List.mem_singleton.mp hr, hr₀]
    · rw [← hs', hfront] at hc
      cases hc
      exact hnew

/-- **A task** keeps the records sound: it adds its record exactly when its commit was confirmed. -/
theorem sound_runTask (h : x.Ready n) (hso : x.Sound source) (hopen : x.isOpen = true) {id now writesLeft : Nat}
    {body : List TaskItem} (hpermitted : x.Permitted source (.task id now writesLeft body)) :
    (x.runTask body (x.sys.begin id now writesLeft)).Sound source := by
  set s := x.sys.begin id now writesLeft with hs
  have hn : s.idx.Named := hso.named hopen
  have hknows : s.idx.Knows source (x.sys.disk.written.map WalRecord.body) := hso.knows hopen
  obtain ⟨hsurvives, hname, hends⟩ := kndParseTask_writes (s := s) kndRepoRestore hn (h.snapshot hopen).2.2 rfl rfl rfl
    fun hrole => ⟨(hpermitted.2 hrole).journalable.unrooted, (hpermitted.2 hrole).journalable.listsOnce⟩
  set s' := (x.runTask body s).sys with hs'
  have hname' : s'.name = x.sys.name := hname
  rcases hends with ⟨hnone, hwritten⟩ | ⟨hconfirmed, s₁, r, hw⟩
  · -- no record, and no confirmed task
    have hbodies : s'.disk.written = x.sys.disk.written := hwritten
    have hsame : (x.runTask body s).confirmed = x.confirmed := by
      show x.confirmed ++ (if confirms (kndParseTask kndRepoRestore body) s then [body] else []) = _
      rw [hnone, if_neg Bool.false_ne_true, List.append_nil]
    refine ⟨hso.files, ?_, ?_, ?_, ?_, fun _ => hsurvives.named, fun _ => ?_⟩
    · rw [← hs', hbodies]
      exact hso.bodies
    · rw [← hs', hbodies, hname']
      exact hso.fits
    · rw [← hs', hbodies]
      exact hso.bare
    · rw [hsame, ← hs', hbodies]
      exact hso.confirmed
    · rw [← hs', hbodies]
      exact hknows.survives hsurvives
  · -- one record more, and one confirmed task more
    have hrole : x.sys.task.role = .arbiter := by
      have hrole' : s'.task.role = .arbiter := (confirms_iff.mp hconfirmed).2.2
      exact (runTask_live h hopen hpermitted).task ▸ hrole'
    have hr := (hpermitted.2 hrole).journalable
    have hbodies : s'.disk.written = x.sys.disk.written ++ [r] := hw.written
    have hmap : s'.disk.written.map WalRecord.body = x.sys.disk.written.map WalRecord.body ++ [r.body] := by
      rw [hbodies, List.map_append, List.map_singleton]
    have hmore : (x.runTask body s).confirmed = x.confirmed ++ [body] := by
      show x.confirmed ++ (if confirms (kndParseTask kndRepoRestore body) s then [body] else []) = _
      rw [hconfirmed, if_pos rfl]
    refine ⟨hso.files, ?_, fun b hb => ?_, fun b hb => ?_, ?_, fun _ => hsurvives.named, fun _ => ?_⟩
    · rw [← hs', hmap]
      exact hw.replayable hn hr hsurvives hknows hso.bodies
    · rw [← hs', hbodies] at hb
      rw [← hs', hname']
      rcases List.mem_append.mp hb with hb | hb
      · exact hso.fits b hb
      · rw [List.mem_singleton.mp hb]
        exact hw.sizes
    · rw [← hs', hbodies] at hb
      rcases List.mem_append.mp hb with hb | hb
      · exact hso.bare b hb
      · rw [List.mem_singleton.mp hb, hw.record]
        exact fun name clauses => bare_record
    · rw [hmore, ← hs', hbodies]
      refine List.rel_append hso.confirmed (.cons ⟨?_, ?_⟩ .nil)
      · rw [hw.record, hw.drafted.recordCreated]
      · rw [hw.record]
        exact hr.effects_record hw.drafted hn
    · rw [← hs', hmap]
      exact hw.knows hn hr hsurvives hknows

end Tasks

/-! ## (3) Snapshots -/

/-- What a snapshot does to the state: more folders in the folder of the snapshot. -/
theorem kndRepoSnapshot_cases (s : Sys τ) :
    ∃ d, finalState kndRepoSnapshot s = s.setDisk d ∧ s.disk.MoreFolders d (.numbered s.snapshot.numid) := by
  have hnone : s.disk.MoreFolders s.disk (.numbered s.snapshot.numid) :=
    ⟨rfl, rfl, fun _ _ => id, fun _ => rfl⟩
  have hrun : kndRepoSnapshot.run s
      = (if storagePathSize s ≥ pathSize then throw (.err .limit)
        else onDisk (kndMkpath (.numbered s.snapshot.numid) s.task.id) >>= fun _ =>
          onDisk (diskWrite id) : SysM τ Unit).run s := rfl
  rw [finalState, hrun]
  by_cases hsize : storagePathSize s ≥ pathSize
  · rw [if_pos hsize]
    exact ⟨s.disk, rfl, hnone⟩
  · rw [if_neg hsize]
    rcases kndMkpath_cases (.numbered s.snapshot.numid) s.task.id s.disk with
      ⟨e, herr⟩ | ⟨d, hok, hmore, -⟩
    · have hstop : (onDisk (kndMkpath (.numbered s.snapshot.numid) s.task.id)).run s
          = .error e (s.setDisk s.disk) := run_zoom_eq_error.mpr ⟨_, herr, rfl⟩
      rw [run_bind_of_error hstop]
      exact ⟨s.disk, rfl, hnone⟩
    · have hgo : (onDisk (kndMkpath (.numbered s.snapshot.numid) s.task.id)).run s
          = .ok () (s.setDisk d) := run_zoom_eq_ok.mpr ⟨_, hok, rfl⟩
      rw [run_bind_of_ok hgo, onDisk, run_zoom]
      rcases diskWrite_cases id d with ⟨e, herr⟩ | hdone
      · simp only [Sys.setDisk, herr]
        exact ⟨d, rfl, hmore⟩
      · simp only [Sys.setDisk, hdone]
        exact ⟨d.countWrite, rfl, hmore.journals, hmore.written, hmore.agentDirs, hmore.snapshotDirs⟩

/-- A snapshot by an agent. -/
theorem runSnapshot_cases (x : Session τ) (s : Sys τ) :
    ∃ d, (x.runSnapshot s).sys = s.setDisk d ∧ s.disk.MoreFolders d (.numbered s.snapshot.numid) ∧
      (x.runSnapshot s).isOpen = x.isOpen ∧ (∀ m, (x.runSnapshot s).storage m none = x.storage m none) ∧
      (x.runSnapshot s).confirmed = x.confirmed := by
  obtain ⟨d, hfinal, hmore⟩ := kndRepoSnapshot_cases s
  refine ⟨d, ?_, hmore, ?_, fun m => ?_, ?_⟩
  · rw [← hfinal, Session.runSnapshot]
    split <;> rfl
  · rw [Session.runSnapshot]
    split <;> rfl
  · rw [Session.runSnapshot]
    split
    · show Function.update x.storage _ _ m none = _
      -- the files go into the folder of an agent, not into that of the snapshot
      by_cases hm : m = s.snapshot.numid
      · rw [hm, Function.update_self, Function.update_of_ne (Option.some_ne_none _).symm]
      · rw [Function.update_of_ne hm]
    · rfl
  · rw [Session.runSnapshot]
    split <;> rfl

section Snapshots

variable {n : Nat} {x : Session τ}

/-- **A snapshot** keeps the journals enumerable: its files are in the folder of the agent. -/
theorem ready_runSnapshot (h : x.Ready n) (hopen : x.isOpen = true) (id now writesLeft : Nat) :
    (x.runSnapshot (x.sys.begin id now writesLeft)).Ready n := by
  set s := x.sys.begin id now writesLeft with hs
  obtain ⟨d, hsys, hmore, -, hstorage, -⟩ := runSnapshot_cases x s
  obtain ⟨hpath, hnumid, hreader⟩ := h.snapshot hopen
  have hmore' : s.disk.MoreFolders d (.numbered n) := by
    have hnumid' : s.snapshot.numid = n := hnumid
    rwa [hnumid'] at hmore
  have hjournals : d.journals = x.sys.disk.journals := hmore'.journals
  have hlayout : ∀ num, Layout x.sys.disk (.numbered n) num → Layout d (.numbered n) num :=
    fun num hl => hl.congr (congrFun hjournals _) (hmore'.agentDirs _)
  constructor
  · rw [hsys]
    refine (latestSnapshot_congr (hmore'.snapshotDirs fun m hm => ?_)).trans h.latest
    cases hm
    exact snapshotDirs_of_latest h.latest
  · rw [hsys]
    obtain ⟨num, hl⟩ := h.layout
    exact ⟨num, hlayout num hl⟩
  · rw [hsys]
    show diskRecords d _ = (d.written : Multiset WalRecord)
    rw [diskRecords_congr (congrFun hjournals _), hmore'.written]
    exact h.records
  · rw [hsys]
    show ∀ r ∈ d.written, _
    rw [hmore'.written]
    exact h.sizes
  · rw [hsys]
    exact h.short
  · exact fun m => (hstorage m).trans (h.storage m)
  · rw [hsys]
    exact fun _ => ⟨hpath, hnumid, hreader⟩
  · rw [hsys]
    exact fun _ => hlayout _ (h.numbers hopen)

/-- **A snapshot** changes neither the commits nor the records. -/
theorem ordered_runSnapshot (ho : x.Ordered) (hopen : x.isOpen = true) (id now writesLeft : Nat) :
    (x.runSnapshot (x.sys.begin id now writesLeft)).Ordered := by
  obtain ⟨d, hsys, hmore, -⟩ := runSnapshot_cases x (x.sys.begin id now writesLeft)
  have hwritten : d.written = x.sys.disk.written := hmore.written
  refine ⟨?_, fun _ => ?_, fun _ => ?_⟩
  · rw [hsys]
    show (d.written.map _).Pairwise _
    rw [hwritten]
    exact ho.increasing
  · rw [hsys]
    show ∀ r ∈ d.written, _
    rw [hwritten]
    exact ho.head hopen
  · rw [hsys]
    exact ho.bound hopen

/-- **A snapshot** keeps the records sound. -/
theorem sound_runSnapshot [AttrVarOps τ] {source : Indices τ} (hso : x.Sound source) (hopen : x.isOpen = true)
    (id now writesLeft : Nat) : (x.runSnapshot (x.sys.begin id now writesLeft)).Sound source := by
  obtain ⟨d, hsys, hmore, -, -, hconfirmed⟩ := runSnapshot_cases x (x.sys.begin id now writesLeft)
  have hwritten : (x.runSnapshot (x.sys.begin id now writesLeft)).sys.disk.written = x.sys.disk.written := by
    rw [hsys]
    exact hmore.written
  have hidx : (x.runSnapshot (x.sys.begin id now writesLeft)).sys.idx = x.sys.idx := by rw [hsys]; rfl
  have hname : (x.runSnapshot (x.sys.begin id now writesLeft)).sys.name = x.sys.name := by rw [hsys]; rfl
  refine ⟨hso.files, ?_, ?_, ?_, ?_, fun _ => ?_, fun _ => ?_⟩
  · rw [hwritten]
    exact hso.bodies
  · rw [hwritten, hname]
    exact hso.fits
  · rw [hwritten]
    exact hso.bare
  · rw [hwritten, hconfirmed]
    exact hso.confirmed
  · rw [hidx]
    exact hso.named hopen
  · rw [hwritten, hidx]
    exact hso.knows hopen

end Snapshots

/-! ## (4) Opening -/

section Reopen

/-- **The state in which `knd_repo_open` calls `knd_repo_restore`** for the snapshot `n`. -/
def Session.opening (source : Indices τ) (n : Nat) (x : Session τ) (role : AgentRole) (now writesLeft : Nat) :
    Sys τ :=
  { x.sys.restart role now writesLeft with
    idx := (x.storage n none).getD source
    ledger := { snapshot := { path := .numbered n, numid := n, role := role } } }

/-- A list of commits that are linked begins with its first commit. -/
theorem Linked.head_eq {α : Type} {next : α → Option α} {head : Option α} {l : List α}
    (h : Linked next head l) : head = l.head? := by
  cases h <;> rfl

theorem decimalSize_le_two : ∀ n < 64, decimalSize n ≤ 2 := by decide

/-- The last number of a traversal is the largest one, when the largest one is the last one. -/
theorem LatestLast.le_last {ns : List Nat} (h : LatestLast ns) (hsorted : ns.Pairwise TrieBefore) {last : Nat}
    (hlast : ns.getLast? = some last) {a : Nat} (ha : a ∈ ns) : a ≤ last := by
  have hmem := List.mem_of_getLast? hlast
  obtain ⟨top, htop⟩ := Option.isSome_iff_exists.mp (List.isSome_max?_of_mem ha)
  obtain ⟨htop, hmax⟩ := List.max?_eq_some_iff.mp htop
  by_cases heq : top = last
  · exact heq ▸ hmax a ha
  · -- the largest number is met before the last one, and it is met after all others
    obtain ⟨pre, rfl⟩ := List.getLast?_eq_some_iff.mp hlast
    have hpre : top ∈ pre := by
      rcases List.mem_append.mp htop with hpre | hend
      · exact hpre
      · exact absurd (List.mem_singleton.mp hend) heq
    have hbefore := (List.pairwise_append.mp hsorted).2.2 top hpre last (List.mem_singleton_self last)
    exact absurd hbefore (h top htop hmax last hmem (Ne.symm heq)).asymm

theorem LatestLast.perm {ns ns' : List Nat} (h : LatestLast ns) (hperm : ns.Perm ns') : LatestLast ns' :=
  fun b hb hmax a ha hne =>
    h b (hperm.mem_iff.mpr hb) (fun c hc => hmax c (hperm.mem_iff.mp hc)) a (hperm.mem_iff.mpr ha) hne

variable {source : Indices τ} {n : Nat} {x : Session τ}

/-- The journals that a process finds can be enumerated. -/
theorem layout_opening (h : x.Ready n) (role : AgentRole) (now writesLeft : Nat) :
    ∃ num, Layout (x.opening source n role now writesLeft).disk (.numbered n) num := by
  obtain ⟨num, hl⟩ := h.layout
  exact ⟨num, hl.congr rfl fun _ hd => hd⟩

/-- **A restore reads all records that were written.** -/
theorem journalRecords_opening (h : x.Ready n) (role : AgentRole) (now writesLeft : Nat) :
    (journalRecords (x.opening source n role now writesLeft)).Perm x.sys.disk.written := by
  obtain ⟨num, hl⟩ : ∃ num, Layout (x.opening source n role now writesLeft).disk (.numbered n) num :=
    layout_opening h role now writesLeft
  have hall := hl.agentsRecords_eq
  have hsame : diskRecords (x.opening source n role now writesLeft).disk (.numbered n)
      = diskRecords x.sys.disk (.numbered n) := rfl
  rw [hsame, h.records] at hall
  exact Multiset.coe_eq_coe.mp hall

/-- The names of the journals are not too long for the reader. -/
theorem shortNames_opening (h : x.Ready n) (role : AgentRole) (now writesLeft : Nat) :
    ShortNames (x.opening source n role now writesLeft) := by
  intro i hi k hk
  have hshort : (SnapshotPath.numbered n).size x.sys.repoPathSize + 23 < pathSize := h.short
  have hi' := decimalSize_le_two i hi
  have hk' := decimalSize_le_two k hk
  have hname : agentJournalNameSize (x.opening source n role now writesLeft) i k
      = (SnapshotPath.numbered n).size x.sys.repoPathSize + 7 + decimalSize i + 12 + decimalSize k := rfl
  omega

/-- No storage files come with the snapshot. -/
theorem idx_opening (h : x.Ready n) (role : AgentRole) (now writesLeft : Nat) :
    (x.opening source n role now writesLeft).idx = source := by
  rw [Session.opening, h.storage n]
  rfl

theorem stored_eq_none (h : x.Ready n) : x.stored = none := by
  rw [Session.stored, h.latest]
  exact h.storage n

variable [AttrVarOps τ]

/-- `knd_repo_open` in another role than READER goes on to the restore. -/
theorem run_kndRepoOpen (h : x.Ready n) {role : AgentRole} (hrole : role ≠ .reader) (now writesLeft : Nat) :
    (kndRepoOpen source fun m => x.storage m none).run (x.sys.restart role now writesLeft)
      = kndRepoRestore.run (x.opening source n role now writesLeft) := by
  have hlatest : latestSnapshot (x.sys.restart role now writesLeft).disk = some n := h.latest
  have hsize : ¬(SnapshotPath.numbered n).size (x.sys.restart role now writesLeft).repoPathSize ≥ pathSize :=
    Nat.not_le_of_lt (Nat.lt_of_le_of_lt (Nat.le_add_right _ _) h.short)
  rw [run_kndRepoOpen_of_latest hlatest, if_neg hsize, Session.opening, h.storage n]
  cases role with
  | reader => exact absurd rfl hrole
  | writer => rfl
  | arbiter => rfl

/-- **What a restore comes to**: every record was replayed once, in the order of the traversal, and the last commit of
the traversal is in front of the list. -/
structure Restored (n : Nat) (x : Session τ) (s : Sys τ) : Prop where
  /-- The files. -/
  disk : s.disk.journals = x.sys.disk.journals ∧ s.disk.snapshotDirs = x.sys.disk.snapshotDirs ∧
    s.disk.written = x.sys.disk.written
  /-- The snapshot. -/
  snapshot : s.snapshot.path = .numbered n ∧ s.snapshot.numid = n ∧ s.snapshot.role ≠ .reader
  /-- The journal numbers. -/
  numbers : Layout s.disk (.numbered n) s.snapshot.numJournals
  /-- The replays. -/
  applied : s.ledger.applied.Perm (x.sys.disk.written.map (·.numid)) ∧ s.ledger.applied.Pairwise TrieBefore
  /-- The head of the list. -/
  head : s.snapshot.commits.map (fun c => (s.ledger.commits c).numid) = s.ledger.applied.getLast?
  /-- Its address is in use. -/
  bound : ∀ c, s.snapshot.commits = some c → c < s.ledger.nextCommit
  /-- The repository. -/
  env : s.name = x.sys.name ∧ s.repoPathSize = x.sys.repoPathSize

/-- The records can be replayed by a process that meets its conditions. -/
theorem Session.Sound.restorable (h : x.Sound source) {role : AgentRole} (hr : x.Replays source role) :
    source.Restorable x.sys.disk.written where
  replayable := h.bodies
  selects := hr.selects
  pages := hr.pages

/-- **A permitted process restores all records.** -/
theorem restore_returns (h : x.Invariant source n) {role : AgentRole} (hr : x.Replays source role)
    (now writesLeft : Nat) :
    ∃ s', kndRepoRestore.run (x.opening source n role now writesLeft) = .ok () s' ∧ Restored n x s' ∧
      Restoring source (x.sys.disk.written.map WalRecord.body) s' := by
  obtain ⟨hready, hordered, hsound⟩ := h
  set s := x.opening source n role now writesLeft with hs
  have hperm : (journalRecords s).Perm x.sys.disk.written := journalRecords_opening hready role now writesLeft
  have hnodup : ((journalRecords s).map (·.numid)).Nodup :=
    (hperm.map _).nodup_iff.mpr (hordered.increasing.imp fun hlt => Nat.ne_of_lt hlt)
  -- the journals are read
  have hreturns := restoreAgents_returns (rfl : s.snapshot.commitIdx = {})
    (shortNames_opening hready role now writesLeft) (fun r hmem => hready.sizes r (hperm.mem_iff.mp hmem)) hnodup
  obtain ⟨u, hcollect⟩ := returns_iff.mp hreturns
  set s₁ := finalState (restoreAgents (List.range maxTasks)) s with hs₁
  obtain ⟨hmoves, cs, hcollected, -⟩ := restoreAgents_ok (rfl : s.snapshot.commitIdx = {}) hcollect
  obtain ⟨num, hl⟩ : ∃ num, Layout s.disk (.numbered n) num := layout_opening hready role now writesLeft
  have hlayout := restoreAgents_layout hl (fun _ => rfl) hcollect
  have hrun : kndRepoRestore.run s = applyCommits.run s₁ := run_bind_of_ok hcollect
  have hrole₁ : s₁.task.role = role := hmoves.task.2
  have hreader₁ : s₁.snapshot.role ≠ .reader := by
    rw [hmoves.snapshot.2.1]
    exact hr.restores
  -- the records are replayed
  have hstart : Restoring source [] s₁ := .start hsound.files.1 hsound.files.2
    (hmoves.idx.trans (idx_opening hready role now writesLeft)) hreader₁
  have hfits : ∀ r ∈ journalRecords s, exportSize s₁.name r.body < largeBufSize := by
    intro r hmem
    obtain ⟨hsize, hlt⟩ := hsound.fits r (hperm.mem_iff.mp hmem)
    have hname : s₁.name = x.sys.name := hmoves.env.1
    rw [hname, ← hsize]
    exact hlt
  have hquiet : s₁.task.role ≠ .arbiter ∨ ∀ r ∈ journalRecords s, createsClass r.body = false := by
    rw [hrole₁]
    exact hr.quiet.imp id fun hall r hmem => hall r (hperm.mem_iff.mp hmem)
  obtain ⟨s', happly, hrestoring⟩ := applyCommits_replays hcollected hstart
    ((hsound.restorable hr).perm hperm.symm) (hquiet.imp (fun hne => ⟨hne, hfits⟩) id)
  refine ⟨s', hrun.trans happly, ?_, hrestoring.perm (hperm.map _)⟩
  -- the list of commits was empty
  have hlinked₁ : Linked s₁.ledger.prev s₁.snapshot.commits [] := by
    have hnone : s₁.snapshot.commits = none := hmoves.snapshot.2.2.2.1
    rw [hnone]
    exact .nil
  obtain ⟨hsilent, hlinked⟩ := applyCommits_quiet hcollected hlinked₁ (by simp) hquiet
  obtain ⟨hnumids, hsorted, happlied, -⟩ := applyCommits_applied hcollected
  have hkept := applyCommits_kept s₁
  rw [finalState_of_ok happly] at hsilent hkept
  obtain ⟨hnumid, hname, hpathSize, hnext⟩ := replayKept_eq hkept
  have hdisk : s'.disk = s.disk := hsilent.disk.trans hmoves.disk
  have hpath : s'.snapshot.path = .numbered n := hsilent.path.trans hmoves.snapshot.1
  have happlied' : s'.ledger.applied = collectedNumids s₁ := by
    rw [happlied s' happly, hmoves.applied]
    rfl
  have hfirst := (hlinked s' happly).head_eq
  rw [List.append_nil, List.head?_reverse] at hfirst
  refine ⟨⟨by rw [hdisk]; rfl, by rw [hdisk]; rfl, by rw [hdisk]; rfl⟩, ⟨hpath, ?_, hsilent.reader hreader₁⟩, ?_,
    ⟨?_, ?_⟩, ?_, fun c hc => ?_, ⟨hname.trans hmoves.env.1, hpathSize.trans hmoves.env.2.1⟩⟩
  · exact hnumid.trans hmoves.snapshot.2.2.1
  · rw [hsilent.disk, hsilent.numJournals, ← hpath, hsilent.path]
    exact hlayout
  · rw [happlied']
    exact hnumids.trans (hperm.map _)
  · rw [happlied']
    exact hsorted
  · rw [happlied', hfirst, collectedNumids, List.getLast?_map]
    exact Option.map_congr fun c _ => hsilent.numids c
  · -- the front commit is one of those collected
    rw [hfirst] at hc
    have hmem := List.mem_of_getLast? hc
    rw [hnext]
    exact hcollected.bound c (hcollected.perm.mem_iff.mp hmem)

/-- **A permitted process** opens the repository. -/
theorem runOpen_cases (h : x.Invariant source n) {role : AgentRole} (hr : x.Replays source role)
    (now writesLeft : Nat) :
    let y := x.runOpen source (x.sys.restart role now writesLeft)
    y.isOpen = true ∧ Restored n x y.sys ∧ Restoring source (x.sys.disk.written.map WalRecord.body) y.sys := by
  intro y
  obtain ⟨s', hok, hrestored, hrestoring⟩ := restore_returns h hr now writesLeft
  have hrun := (run_kndRepoOpen h.ready hr.restores now writesLeft).trans hok
  have hsys : y.sys = s' := finalState_of_ok hrun
  have hopen : y.isOpen = true := by
    show returns (kndRepoOpen source fun n => x.storage n none) _ = true
    rw [returns, hrun]
  rw [hsys]
  exact ⟨hopen, hrestored, hrestoring⟩

/-- **A permitted process** keeps the journals enumerable. -/
theorem ready_runOpen (h : x.Invariant source n) {role : AgentRole} (hr : x.Replays source role)
    (now writesLeft : Nat) : (x.runOpen source (x.sys.restart role now writesLeft)).Ready n := by
  obtain ⟨-, hdone, -⟩ := runOpen_cases h hr now writesLeft
  obtain ⟨hjournals, hdirs, hwritten⟩ := hdone.disk
  constructor
  · exact (latestSnapshot_congr hdirs).trans h.ready.latest
  · exact ⟨_, hdone.numbers⟩
  · rw [diskRecords_congr (congrFun hjournals _), hwritten]
    exact h.ready.records
  · rw [hwritten]
    exact h.ready.sizes
  · rw [hdone.env.2]
    exact h.ready.short
  · exact h.ready.storage
  · exact fun _ => hdone.snapshot
  · exact fun _ => hdone.numbers

/-- **A permitted process** begins behind all records. -/
theorem ordered_runOpen (h : x.Invariant source n) {role : AgentRole} (hr : x.Replays source role)
    (now writesLeft : Nat) : (x.runOpen source (x.sys.restart role now writesLeft)).Ordered := by
  obtain ⟨-, hdone, -⟩ := runOpen_cases h hr now writesLeft
  set y := x.runOpen source (x.sys.restart role now writesLeft) with hy
  have hwritten := hdone.disk.2.2
  obtain ⟨hperm, hsorted⟩ := hdone.applied
  have hlatest : LatestLast y.sys.ledger.applied := hr.latest.perm hperm.symm
  refine ⟨?_, fun _ r hmem => ?_, fun _ => hdone.bound⟩
  · rw [hwritten]
    exact h.ordered.increasing
  · rw [hwritten] at hmem
    have happlied : r.numid ∈ y.sys.ledger.applied := hperm.mem_iff.mpr (List.mem_map_of_mem hmem)
    -- the head is the last commit of the traversal, and this is the one with the largest number
    cases hlast : y.sys.ledger.applied.getLast? with
    | none =>
        rw [List.getLast?_eq_none_iff.mp hlast] at happlied
        cases happlied
    | some last =>
        obtain ⟨c, hc, hnumid⟩ := Option.map_eq_some_iff.mp (hdone.head.trans hlast)
        refine ⟨c, hc, ?_⟩
        rw [hnumid]
        exact hlatest.le_last hsorted hlast happlied

/-- **A permitted process** keeps the records sound: its indices know them. -/
theorem sound_runOpen (h : x.Invariant source n) {role : AgentRole} (hr : x.Replays source role)
    (now writesLeft : Nat) : (x.runOpen source (x.sys.restart role now writesLeft)).Sound source := by
  obtain ⟨-, hdone, hrestoring⟩ := runOpen_cases h hr now writesLeft
  have hwritten := hdone.disk.2.2
  refine ⟨h.sound.files, ?_, ?_, ?_, ?_, fun _ => hrestoring.named, fun _ => ?_⟩
  · rw [hwritten]
    exact h.sound.bodies
  · rw [hwritten, hdone.env.1]
    exact h.sound.fits
  · rw [hwritten]
    exact h.sound.bare
  · rw [hwritten]
    exact h.sound.confirmed
  · rw [hwritten]
    exact hrestoring.knows fun body hbody p hp => ((h.sound.bodies.each body hbody).insts p hp).2.1

/-- **Every permitted event keeps the invariant.** -/
theorem invariant_step (h : x.Invariant source n) {e : Event} (hpermitted : x.Permitted source e) :
    (x.step source e).Invariant source n := by
  cases e with
  | task id now writesLeft body =>
      rw [Session.step]
      split
      · rename_i hopen
        exact ⟨ready_runTask h.ready hopen hpermitted, ordered_runTask h.ready h.ordered hopen hpermitted,
          sound_runTask h.ready h.sound hopen hpermitted⟩
      · exact h
  | snapshot id now writesLeft =>
      rw [Session.step]
      split
      · rename_i hopen
        exact ⟨ready_runSnapshot h.ready hopen id now writesLeft, ordered_runSnapshot h.ordered hopen id now writesLeft,
          sound_runSnapshot h.sound hopen id now writesLeft⟩
      · exact h
  | reopen role now writesLeft =>
      exact ⟨ready_runOpen h hpermitted now writesLeft, ordered_runOpen h hpermitted now writesLeft,
        sound_runOpen h hpermitted now writesLeft⟩

/-- **The invariant of all runs** of a new repository. -/
theorem invariant_of_reaches {x₀ : Session τ} (h₀ : x₀.New source n)
    (h : Reaches (Session.step source) (Session.Permitted source) x₀ x) : x.Invariant source n :=
  h.invariant h₀.invariant fun _ _ hinv hpermitted => invariant_step hinv hpermitted

end Reopen

end Knowdy
