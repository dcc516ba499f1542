import Knowdy.Indices
import Knowdy.KndSet
import Knowdy.Lib.Runs

/-! # The numbers of instances across a restart

An instance gets the next number of its class when it is imported. The journals have no numbers: a restart reads the
records in the order of the commit set, and imports the instances of each in the order of the record.

* `Inst`, `Task`, `Repo` — instances, the tasks that import them, and the repository with its journals.
* `kndRepoRestore` — the replay of the journals.
* `InstEvent`, `step` — imports, confirmations, failures and restarts, of any number of tasks at a time.
* `SameNumids` — the replay gives each journalled instance the number and the id that it has.
* `Numbered` — the instances of a class in the order of their numbers; `fits_iff`: the replay is right exactly if
  the record lists each class so.
* `fits_insert_iff` — when one record more keeps this.
* `sameNumids_commit_iff` — a commit keeps the numbers exactly if it is `SureCommit`: one instance at most, the next
  one of its class and replayed behind the others of it.
* `sameNumids_iff` — **the numbers are the same in every state of a run exactly if each of its commits is so.** -/

namespace Knowdy

namespace InstReplay

/-! ## (1) Instances and tasks -/

/-- `struct kndClassInstEntry`. -/
structure Inst where
  /-- `blueprint`. -/
  blueprint : ClassAddr
  /-- `numid`. -/
  numid : Nat
  /-- `id`. -/
  id : List UInt8
  deriving DecidableEq

/-- The instance of a class with a number. -/
def newInst (a : ClassAddr) (numid : Nat) : Inst := { blueprint := a, numid, id := kndUidCreate numid }

/-- `inst_id_count` of the classes. The loaders count nothing, so it is 0 when a repository is opened. -/
abbrev InstCounts := ClassAddr → Nat

/-- `knd_import_class_inst`: the instance gets the next number of its class. -/
def kndImportClassInst (a : ClassAddr) : StateM InstCounts Inst := fun counts =>
  (newInst a (counts a + 1), Function.update counts a (counts a + 1))

/-- A `struct kndStateRef` of a class in the phase `KND_SELECTED`. -/
structure ClassState where
  /-- `obj`: the class entry. -/
  entry : ClassAddr
  /-- `state->children`. -/
  children : List Inst
  deriving DecidableEq

/-- A task with its commit. -/
structure Task where
  /-- The class of the selection that is being read. -/
  selected : Option ClassAddr := none
  /-- Is `type` `KND_COMMIT_STATE`? -/
  isCommit : Bool := false
  /-- `class_inst_state_refs`, newest first. -/
  classInstStateRefs : List Inst := []
  /-- `commit->class_state_refs`, newest first. -/
  classStateRefs : List ClassState := []

/-- The end of `knd_class_select`: the state of a commit takes along all instances of the task. -/
def Task.commitState (self : Task) : Task :=
  match self.selected with
  | none => self
  | some a =>
      if self.isCommit then
        { self with selected := none, classStateRefs := ⟨a, self.classInstStateRefs⟩ :: self.classStateRefs }
      else { self with selected := none }

/-- Does `knd_parse_task` come to `knd_confirm_commit`? -/
def Task.Ready (self : Task) : Prop := self.selected = none ∧ self.isCommit = true

instance (task : Task) : Decidable task.Ready := inferInstanceAs (Decidable (_ ∧ _))

/-! ## (2) The journals and their replay -/

/-- A record of a journal: the clauses `{class … {!inst …} …}` of a commit, each instance given by the one that it was
written for. -/
structure Record where
  /-- `numid` of the commit. -/
  numid : Nat
  /-- The clauses. -/
  body : List ClassState
  deriving DecidableEq

/-- `parse_commit` for each record: the commits go to `commit_idx`. -/
def parseCommits : List Record → KndSet Record → Except KndErr (KndSet Record)
  | [], commitIdx => .ok commitIdx
  | r :: rs, commitIdx =>
      match kndSetAdd commitIdx (kndUidCreate r.numid) r with
      | (.error e, _) => .error e
      | (.ok (), commitIdx) => parseCommits rs commitIdx

/-- `knd_class_select` in a replay: each `{!inst …}` clause imports an instance of the selected class. -/
def replayClass (ref : ClassState) : StateM InstCounts ClassState := do
  let children ← ref.children.mapM fun _ => kndImportClassInst ref.entry
  pure { ref with children }

/-- `knd_apply_commit`. -/
def kndApplyCommit (r : Record) : StateM InstCounts Record := do
  let body ← r.body.mapM replayClass
  pure { r with body }

/-- `knd_repo_restore`: the records with the instances that the replay makes, in its order, and the counts. -/
def kndRepoRestore (journal : List Record) : Except KndErr (List Record × InstCounts) :=
  match parseCommits journal {} with
  | .error e => .error e
  | .ok commitIdx => .ok ((commitIdx.elems.mapM kndApplyCommit).run fun _ => 0)

/-! ## (3) Runs -/

/-- A repository, its journals and the tasks that write to it. -/
structure Repo where
  /-- Was it opened? -/
  isOpen : Bool := true
  /-- `inst_id_count`. -/
  instIdCount : InstCounts := fun _ => 0
  /-- The number of the newest commit of `snapshot->commits`, 0 without one. -/
  head : Nat := 0
  /-- The records of all journals. -/
  journal : List Record := []
  /-- The tasks. -/
  tasks : Nat → Task := fun _ => {}

/-- A task goes on. -/
def Repo.setTask (self : Repo) (t : Nat) (task : Task) : Repo :=
  { self with tasks := Function.update self.tasks t task }

/-- What happens to a repository. The tasks go on in any order. -/
inductive InstEvent where
  /-- `run_get_class`: a task selects a class. -/
  | select (t : Nat) (a : ClassAddr)
  /-- A task imports an instance of the selected class. -/
  | importInst (t : Nat)
  /-- The selection ends. -/
  | commitState (t : Nat)
  /-- The task ends, and its commit is confirmed and written to a journal. -/
  | confirm (t : Nat)
  /-- The task fails, `pushed` when its commit was linked to the head before that. -/
  | fail (t : Nat) (pushed : Bool)
  /-- The process is started again. -/
  | restart

/-- One event; one that the task is not ready for changes nothing. -/
def Repo.run (s : Repo) : InstEvent → Repo
  | .select t a =>
      let task := s.tasks t
      if task.selected = none then s.setTask t { task with selected := some a } else s
  | .importInst t =>
      let task := s.tasks t
      match task.selected with
      | none => s
      | some a =>
          let (inst, instIdCount) := (kndImportClassInst a).run s.instIdCount
          { s with instIdCount }.setTask t
            { task with isCommit := true, classInstStateRefs := inst :: task.classInstStateRefs }
  | .commitState t => s.setTask t (s.tasks t).commitState
  | .confirm t =>
      let task := s.tasks t
      if task.Ready then
        { s with head := s.head + 1, journal := ⟨s.head + 1, task.classStateRefs⟩ :: s.journal }.setTask t {}
      else s
  | .fail t pushed => { s with head := if pushed then s.head + 1 else s.head }.setTask t {}
  | .restart =>
      match kndRepoRestore s.journal with
      | .error _ => { s with isOpen := false }
      | .ok (journal, instIdCount) =>
          -- the instances are those of the replay from now on
          { instIdCount, journal, head := (journal.getLast?.map Record.numid).getD 0 }

/-- One event of a process; a repository that could not be opened has none. -/
def step (s : Repo) (e : InstEvent) : Repo := if s.isOpen then s.run e else s

/-! ## (4) The property -/

/-- **A restart gives every journalled instance the number and the id that it has.** -/
def SameNumids (s : Repo) : Prop :=
  match kndRepoRestore s.journal with
  | .error _ => False
  | .ok (replayed, _) => replayed.Perm s.journal

instance (s : Repo) : Decidable (SameNumids s) :=
  match hrun : kndRepoRestore s.journal with
  | .error _ => .isFalse (by rw [SameNumids, hrun]; exact id)
  | .ok (replayed, _) => decidable_of_iff (replayed.Perm s.journal) (by rw [SameNumids, hrun])

/-- The instances of the clauses of a record, each with the class under which it is listed. -/
def listed (body : List ClassState) : List (ClassAddr × Inst) :=
  body.flatMap fun ref => ref.children.map fun inst => (ref.entry, inst)

/-- The instances of some records. -/
def listings (rs : List Record) : List (ClassAddr × Inst) := rs.flatMap fun r => listed r.body

/-- **A commit is `Sure` to keep the numbers**: its number is new; it lists one instance at most; all instances of its
class with smaller numbers are journalled; and the records that have them are replayed before. -/
def SureCommit (s : Repo) (task : Task) : Prop :=
  (∀ r ∈ s.journal, r.numid ≠ s.head + 1) ∧
  (listed task.classStateRefs).length ≤ 1 ∧
  ∀ p ∈ listed task.classStateRefs,
    (∀ n < p.2.numid, 0 < n → (p.1, newInst p.1 n) ∈ listings s.journal) ∧
    ∀ r ∈ s.journal, (∃ q ∈ listed r.body, q.1 = p.1) → TrieBefore r.numid (s.head + 1)

instance (s : Repo) (task : Task) : Decidable (SureCommit s task) :=
  inferInstanceAs (Decidable (_ ∧ _ ∧ _))

/-- The events that keep the numbers. -/
def Sure (s : Repo) : InstEvent → Prop
  | .confirm t => (s.tasks t).Ready → SureCommit s (s.tasks t)
  | .select _ _ | .importInst _ | .commitState _ | .fail _ _ | .restart => True

instance (s : Repo) : (e : InstEvent) → Decidable (Sure s e)
  | .confirm t => inferInstanceAs (Decidable ((s.tasks t).Ready → SureCommit s (s.tasks t)))
  | .select _ _ | .importInst _ | .commitState _ | .fail _ _ | .restart => inferInstanceAs (Decidable True)

/-! ## (5) A record that replays to itself -/

/-- The class of a listed instance has one instance more. -/
def countInst (counts : InstCounts) (p : ClassAddr × Inst) : InstCounts :=
  Function.update counts p.1 (counts p.1 + 1)

theorem countInst_self (counts : InstCounts) (a : ClassAddr) (inst : Inst) :
    countInst counts (a, inst) a = counts a + 1 := Function.update_self ..

theorem countInst_of_ne (counts : InstCounts) {a b : ClassAddr} (inst : Inst) (h : b ≠ a) :
    countInst counts (b, inst) a = counts a := Function.update_of_ne h.symm ..

/-- **The replay of the listed instances makes these instances again**: each is the next one of the class under which
it is listed. -/
def Fits (counts : InstCounts) (l : List (ClassAddr × Inst)) : Prop :=
  AllAllowed countInst (fun counts p => p.2 = newInst p.1 (counts p.1 + 1)) counts l

/-- The instances that are listed under a class. -/
def instsOf (a : ClassAddr) (l : List (ClassAddr × Inst)) : List Inst := (l.filter fun p => p.1 = a).map Prod.snd

/-- **The instances of a class after the number `n`**, in the order of their numbers and without a gap. -/
def Numbered (a : ClassAddr) (n : Nat) (insts : List Inst) : Prop :=
  AllAllowed (fun n _ => n + 1) (fun n inst => inst = newInst a (n + 1)) n insts

theorem mem_instsOf {a : ClassAddr} {inst : Inst} {l : List (ClassAddr × Inst)} :
    inst ∈ instsOf a l ↔ (a, inst) ∈ l := by
  simp [instsOf]

theorem instsOf_append (a : ClassAddr) (l l' : List (ClassAddr × Inst)) :
    instsOf a (l ++ l') = instsOf a l ++ instsOf a l' := by
  simp [instsOf]

theorem instsOf_cons_self (a : ClassAddr) (inst : Inst) (l : List (ClassAddr × Inst)) :
    instsOf a ((a, inst) :: l) = inst :: instsOf a l := by
  simp [instsOf]

theorem instsOf_cons_of_ne {a b : ClassAddr} (inst : Inst) (l : List (ClassAddr × Inst)) (h : b ≠ a) :
    instsOf a ((b, inst) :: l) = instsOf a l := by
  simp [instsOf, h]

/-- The counts after the replay. -/
theorem foldl_countInst (l : List (ClassAddr × Inst)) (counts : InstCounts) (a : ClassAddr) :
    l.foldl countInst counts a = counts a + (instsOf a l).length := by
  induction l generalizing counts with
  | nil => rfl
  | cons p l ih =>
      obtain ⟨b, inst⟩ := p
      rw [List.foldl_cons, ih]
      by_cases hb : b = a
      · subst hb
        rw [instsOf_cons_self, countInst_self, List.length_cons]
        omega
      · rw [instsOf_cons_of_ne inst l hb, countInst_of_ne counts inst hb]

/-- **The listed instances fit exactly if each class has its instances in the order of their numbers.** -/
theorem fits_iff {counts : InstCounts} {l : List (ClassAddr × Inst)} :
    Fits counts l ↔ ∀ a, Numbered a (counts a) (instsOf a l) := by
  induction l generalizing counts with
  | nil => exact iff_of_true trivial fun _ => trivial
  | cons p l ih =>
      obtain ⟨b, inst⟩ := p
      have hfits : Fits counts ((b, inst) :: l)
          ↔ inst = newInst b (counts b + 1) ∧ Fits (countInst counts (b, inst)) l := Iff.rfl
      rw [hfits, ih]
      constructor
      · rintro ⟨hinst, hrest⟩ a
        by_cases hb : b = a
        · subst hb
          have hafter := hrest b
          rw [countInst_self] at hafter
          rw [instsOf_cons_self]
          exact ⟨hinst, hafter⟩
        · rw [instsOf_cons_of_ne inst l hb, ← countInst_of_ne counts inst hb]
          exact hrest a
      · intro hall
        have hb := hall b
        rw [instsOf_cons_self] at hb
        refine ⟨hb.1, fun a => ?_⟩
        by_cases hba : b = a
        · subst hba
          rw [countInst_self]
          exact hb.2
        · rw [countInst_of_ne counts inst hba, ← instsOf_cons_of_ne inst l hba]
          exact hall a

namespace Numbered

variable {a : ClassAddr} {n : Nat} {insts insts' : List Inst} {inst : Inst}

theorem cons_iff : Numbered a n (inst :: insts) ↔ inst = newInst a (n + 1) ∧ Numbered a (n + 1) insts := Iff.rfl

theorem append_iff :
    Numbered a n (insts ++ insts') ↔ Numbered a n insts ∧ Numbered a (n + insts.length) insts' := by
  have hlength : insts.foldl (fun n _ => n + 1) n = n + insts.length := by
    induction insts generalizing n with
    | nil => rfl
    | cons _ insts ih =>
        rw [List.foldl_cons, ih, List.length_cons]
        omega
  rw [Numbered, allAllowed_append, hlength]
  rfl

/-- The instances of a numbered list. -/
theorem mem_iff (h : Numbered a n insts) : inst ∈ insts ↔ ∃ m, n < m ∧ m ≤ n + insts.length ∧ inst = newInst a m := by
  induction insts generalizing n with
  | nil =>
      refine iff_of_false List.not_mem_nil ?_
      rintro ⟨m, hn, hm, -⟩
      exact absurd hm (not_le_of_gt hn)
  | cons first insts ih =>
      obtain ⟨rfl, hrest⟩ := cons_iff.mp h
      rw [List.mem_cons, ih hrest, List.length_cons]
      constructor
      · rintro (rfl | ⟨m, hn, hm, rfl⟩)
        · exact ⟨n + 1, by omega, by omega, rfl⟩
        · exact ⟨m, by omega, by omega, rfl⟩
      · rintro ⟨m, hn, hm, rfl⟩
        rcases Nat.lt_or_ge (n + 1) m with hlt | hle
        · exact .inr ⟨m, hlt, by omega, rfl⟩
        · have heq : m = n + 1 := by omega
          exact .inl (heq ▸ rfl)

/-- The numbers increase. -/
theorem pairwise (h : Numbered a n insts) : insts.Pairwise fun i j => i.numid < j.numid := by
  induction insts generalizing n with
  | nil => exact List.Pairwise.nil
  | cons first insts ih =>
      obtain ⟨rfl, hrest⟩ := cons_iff.mp h
      refine List.pairwise_cons.mpr ⟨fun inst hinst => ?_, ih hrest⟩
      obtain ⟨m, hm, -, rfl⟩ := hrest.mem_iff.mp hinst
      exact hm

/-- **One instance more** keeps the numbers exactly if it is the last one and has the next number. -/
theorem insert_iff (h : Numbered a n (insts ++ insts')) : Numbered a n (insts ++ inst :: insts') ↔
    insts' = [] ∧ inst = newInst a (n + insts.length + 1) := by
  obtain ⟨hfront, hback⟩ := append_iff.mp h
  rw [append_iff, cons_iff, and_iff_right hfront]
  constructor
  · rintro ⟨rfl, hshift⟩
    refine ⟨?_, rfl⟩
    cases insts' with
    | nil => rfl
    | cons next insts' =>
        -- the next instance would have two numbers
        have heq := hback.1.symm.trans hshift.1
        have hnum : n + insts.length + 1 = n + insts.length + 1 + 1 := congrArg Inst.numid heq
        omega
  · rintro ⟨rfl, rfl⟩
    exact ⟨rfl, trivial⟩

end Numbered

/-- Instances that fit have the class under which they are listed, and each number after a smaller one of its
class. -/
theorem Fits.pairwise {counts : InstCounts} {l : List (ClassAddr × Inst)} (h : Fits counts l) :
    (∀ p ∈ l, p.2.blueprint = p.1) ∧ l.Pairwise fun p q => p.1 = q.1 → p.2.numid < q.2.numid := by
  induction l generalizing counts with
  | nil => exact ⟨by simp, List.Pairwise.nil⟩
  | cons p l ih =>
      obtain ⟨hp, hrest⟩ := h
      obtain ⟨hclass, hnumids⟩ := ih hrest
      refine ⟨fun q hq => ?_, List.pairwise_cons.mpr ⟨fun q hq hpq => ?_, hnumids⟩⟩
      · rcases List.mem_cons.mp hq with rfl | hq
        · rw [hp]
          rfl
        · exact hclass q hq
      · have hnumbered := fits_iff.mp hrest q.1
        obtain ⟨m, hm, -, heq⟩ := hnumbered.mem_iff.mp (mem_instsOf.mpr hq)
        rw [countInst, ← hpq, Function.update_self] at hm
        rw [heq, hp]
        exact hm

/-! ## (6) The replay -/

/-- The instances that a clause lists. -/
def ClassState.listing (self : ClassState) : List (ClassAddr × Inst) :=
  self.children.map fun inst => (self.entry, inst)

theorem run_replayClass (ref : ClassState) (counts : InstCounts) :
    ((replayClass ref).run counts).2 = ref.listing.foldl countInst counts ∧
      (((replayClass ref).run counts).1 = ref ↔ Fits counts ref.listing) := by
  have hcounts := run_mapM_snd (f := fun _ : Inst => kndImportClassInst ref.entry)
    (fun _ _ => rfl) ref.children counts
  have hinsts := mapM_eq_self_iff (f := fun _ : Inst => kndImportClassInst ref.entry)
    (fun _ _ => rfl) (fun _ _ => eq_comm) ref.children counts
  constructor
  · rw [ClassState.listing, List.foldl_map]
    exact hcounts
  · rw [Fits, ClassState.listing, allAllowed_map]
    refine Iff.trans ?_ hinsts
    exact ClassState.mk.injEq .. ▸ and_iff_right rfl

/-- **The replay of a commit** makes its instances again exactly if they fit. -/
theorem run_kndApplyCommit (r : Record) (counts : InstCounts) :
    ((kndApplyCommit r).run counts).2 = (listed r.body).foldl countInst counts ∧
      (((kndApplyCommit r).run counts).1 = r ↔ Fits counts (listed r.body)) := by
  have hcounts := run_mapM_snd (fun counts ref => (run_replayClass ref counts).1) r.body counts
  have hbody := mapM_eq_self_iff (fun counts ref => (run_replayClass ref counts).1)
    (fun counts ref => (run_replayClass ref counts).2) r.body counts
  constructor
  · rw [listed, List.foldl_flatMap]
    exact hcounts
  · rw [Fits, listed, allAllowed_flatMap]
    refine Iff.trans ?_ hbody
    exact Record.mk.injEq .. ▸ and_iff_right rfl

/-- **The replay of some commits.** -/
theorem run_replay (rs : List Record) (counts : InstCounts) :
    let replayed := (rs.mapM kndApplyCommit).run counts
    replayed.2 = (listings rs).foldl countInst counts ∧ replayed.1.map Record.numid = rs.map Record.numid ∧
      (replayed.1 = rs ↔ Fits counts (listings rs)) := by
  have hcounts := run_mapM_snd (fun counts r => (run_kndApplyCommit r counts).1) rs counts
  have hsame := mapM_eq_self_iff (fun counts r => (run_kndApplyCommit r counts).1)
    (fun counts r => (run_kndApplyCommit r counts).2) rs counts
  refine ⟨?_, map_run_mapM (fun _ _ => rfl) rs counts, ?_⟩
  · rw [listings, List.foldl_flatMap]
    exact hcounts
  · rw [Fits, listings, allAllowed_flatMap]
    exact hsame

/-! ## (7) The order of the replay -/

/-- Records with new numbers are collected. -/
theorem parseCommits_of_nodup {rs : List Record} {commitIdx : KndSet Record} {P : Record → Prop}
    (hheld : commitIdx.Holds Record.numid P) (hnodup : (rs.map Record.numid).Nodup)
    (hfree : ∀ r ∈ rs, ∀ r', P r' → r'.numid ≠ r.numid) :
    ∃ commitIdx', parseCommits rs commitIdx = .ok commitIdx' ∧
      commitIdx'.Holds Record.numid fun r => r ∈ rs ∨ P r := by
  induction rs generalizing commitIdx P with
  | nil => exact ⟨commitIdx, rfl, hheld.congr fun r => by simp⟩
  | cons r rs ih =>
      obtain ⟨hnew, hnodup'⟩ := List.nodup_cons.mp hnodup
      obtain ⟨commitIdx₁, hadd, hheld₁, -⟩ := hheld.kndSetAdd_free (hfree r List.mem_cons_self)
      obtain ⟨commitIdx', hrun, hheld'⟩ := ih hheld₁ hnodup' fun r₁ hr₁ r' hr' => by
        rcases hr' with rfl | hr'
        · exact fun heq => hnew (heq ▸ List.mem_map_of_mem hr₁)
        · exact hfree r₁ (List.mem_cons_of_mem r hr₁) r' hr'
      refine ⟨commitIdx', by rw [parseCommits, hadd]; exact hrun, hheld'.congr fun r' => ?_⟩
      rw [List.mem_cons]
      exact or_left_comm.trans or_assoc.symm

/-- Collected records have distinct numbers. -/
theorem nodup_of_parseCommits {rs : List Record} {commitIdx commitIdx' : KndSet Record} {P : Record → Prop}
    (hheld : commitIdx.Holds Record.numid P) (hrun : parseCommits rs commitIdx = .ok commitIdx') :
    (rs.map Record.numid).Nodup ∧ ∀ r ∈ rs, ∀ r', P r' → r'.numid ≠ r.numid := by
  induction rs generalizing commitIdx P with
  | nil => exact ⟨List.nodup_nil, by simp⟩
  | cons r rs ih =>
      -- the record would be refused otherwise
      have hfree : ∀ r', P r' → r'.numid ≠ r.numid := by
        intro r' hr' heq
        obtain ⟨e, commitIdx₁, hadd⟩ := hheld.kndSetAdd_taken hr' heq
        rw [parseCommits, hadd] at hrun
        cases hrun
      obtain ⟨commitIdx₁, hadd, hheld₁, -⟩ := hheld.kndSetAdd_free hfree
      rw [parseCommits, hadd] at hrun
      obtain ⟨hnodup, hrest⟩ := ih hheld₁ hrun
      refine ⟨List.nodup_cons.mpr ⟨?_, hnodup⟩, fun r₁ hr₁ r' hr' => ?_⟩
      · intro hmem
        obtain ⟨r₁, hr₁, heq⟩ := List.mem_map.mp hmem
        exact hrest r₁ hr₁ r (.inl rfl) heq.symm
      · rcases List.mem_cons.mp hr₁ with rfl | hr₁
        · exact hfree r' hr'
        · exact hrest r₁ hr₁ r' (.inr hr')

/-- Records in the order in which the commit set is traversed. -/
def InOrder (rs : List Record) : Prop := rs.Pairwise fun r r' => TrieBefore r.numid r'.numid

/-- There is one such order only. -/
theorem InOrder.eq_of_perm {rs rs' : List Record} (h : InOrder rs) (h' : InOrder rs') (hperm : rs.Perm rs') :
    rs = rs' :=
  List.Perm.eq_of_pairwise (fun _ _ _ _ hlt hgt => absurd hgt (TrieLt.asymm hlt)) h h' hperm

/-- **A restore of journals** goes through their records in order. -/
theorem kndRepoRestore_of_nodup {journal : List Record} (hnodup : (journal.map Record.numid).Nodup) :
    ∃ rs, rs.Perm journal ∧ InOrder rs ∧
      kndRepoRestore journal = .ok ((rs.mapM kndApplyCommit).run fun _ => 0) := by
  obtain ⟨commitIdx, hrun, hheld⟩ := parseCommits_of_nodup (KndSet.holds_new Record.numid) hnodup (by simp)
  have hmem : ∀ r, r ∈ commitIdx.elems ↔ r ∈ journal := fun r => hheld.mem_elems.trans (or_iff_left id)
  refine ⟨commitIdx.elems, ?_, hheld.pairwise_elems, by rw [kndRepoRestore, hrun]⟩
  exact (List.perm_ext_iff_of_nodup hheld.nodup_elems hnodup.of_map).mpr hmem

/-- A list with the numbers of another one, and its elements, is that one. -/
theorem eq_of_perm_of_numids {rs rs' : List Record} (hnodup : (rs.map Record.numid).Nodup) (hperm : rs'.Perm rs)
    (hnumids : rs'.map Record.numid = rs.map Record.numid) : rs' = rs := by
  have hinj := List.inj_on_of_nodup_map hnodup
  refine List.ext_getElem hperm.length_eq fun k hk hk' => ?_
  apply hinj (hperm.mem_iff.mp (List.getElem_mem hk)) (List.getElem_mem hk')
  have hget := List.getElem_of_eq hnumids (by simpa using hk)
  simpa using hget

/-- **The numbers are the same** exactly if no commit number is there twice and the instances fit in the order of the
replay. -/
theorem sameNumids_iff_fits {s : Repo} : SameNumids s ↔
    (s.journal.map Record.numid).Nodup ∧
      ∀ rs, rs.Perm s.journal → InOrder rs → Fits (fun _ => 0) (listings rs) := by
  by_cases hnodup : (s.journal.map Record.numid).Nodup
  · obtain ⟨rs, hperm, horder, hrun⟩ := kndRepoRestore_of_nodup hnodup
    obtain ⟨-, hnumids, hsame⟩ := run_replay rs fun _ => 0
    have hnodup' : (rs.map Record.numid).Nodup := (hperm.map _).nodup_iff.mpr hnodup
    have hperms : SameNumids s ↔ ((rs.mapM kndApplyCommit).run fun _ => 0).1.Perm rs := by
      rw [SameNumids, hrun]
      exact ⟨fun h => h.trans hperm.symm, fun h => h.trans hperm⟩
    rw [hperms, and_iff_right hnodup]
    constructor
    · intro hreplayed rs' hperm' horder'
      rw [horder'.eq_of_perm horder (hperm'.trans hperm.symm)]
      exact hsame.mp (eq_of_perm_of_numids hnodup' hreplayed hnumids)
    · intro hfits
      rw [hsame.mpr (hfits rs hperm horder)]
  · refine iff_of_false (fun hsame => ?_) fun h => hnodup h.1
    rw [SameNumids, kndRepoRestore] at hsame
    split at hsame
    · exact hsame
    · rename_i hrun
      split at hrun
      · cases hrun
      · rename_i hparse
        exact hnodup (nodup_of_parseCommits (KndSet.holds_new Record.numid) hparse).1

/-! ## (8) One commit more -/

theorem listings_append (rs rs' : List Record) : listings (rs ++ rs') = listings rs ++ listings rs' :=
  List.flatMap_append

theorem listings_cons (r : Record) (rs : List Record) : listings (r :: rs) = listed r.body ++ listings rs := rfl

theorem mem_listings {p : ClassAddr × Inst} {rs : List Record} :
    p ∈ listings rs ↔ ∃ r ∈ rs, p ∈ listed r.body := List.mem_flatMap

/-- **A record with one instance of the class `a`** between others, for that class. -/
theorem numbered_insert_iff {rs rs' : List Record} {r : Record} {a : ClassAddr} {n : Nat}
    (hfits : Fits (fun _ => 0) (listings (rs ++ rs'))) (hbody : listed r.body = [(a, newInst a n)])
    (hpos : 0 < n) (hnew : (a, newInst a n) ∉ listings (rs ++ rs')) :
    Numbered a 0 (instsOf a (listings (rs ++ r :: rs'))) ↔
      (∀ m < n, 0 < m → (a, newInst a m) ∈ listings (rs ++ rs')) ∧ ∀ q ∈ listings rs', q.1 ≠ a := by
  have hnumbered := fits_iff.mp hfits a
  have hmem : ∀ m, (a, newInst a m) ∈ listings (rs ++ rs') ↔
      0 < m ∧ m ≤ (instsOf a (listings rs)).length + (instsOf a (listings rs')).length := by
    intro m
    rw [← mem_instsOf, hnumbered.mem_iff, listings_append, instsOf_append, List.length_append, Nat.zero_add]
    constructor
    · rintro ⟨k, hk, hle, heq⟩
      obtain rfl : m = k := congrArg Inst.numid heq
      exact ⟨hk, hle⟩
    · rintro ⟨hm, hle⟩
      exact ⟨m, hm, hle, rfl⟩
  have hnone : instsOf a (listings rs') = [] ↔ ∀ q ∈ listings rs', q.1 ≠ a := by
    rw [List.eq_nil_iff_forall_not_mem]
    constructor
    · rintro hall ⟨b, inst⟩ hq rfl
      exact hall inst (mem_instsOf.mpr hq)
    · intro hall inst hinst
      exact hall (a, inst) (mem_instsOf.mp hinst) rfl
  rw [hmem] at hnew
  rw [listings_append, instsOf_append] at hnumbered
  rw [listings_append, listings_cons, hbody, instsOf_append, List.singleton_append, instsOf_cons_self,
    hnumbered.insert_iff, hnone, and_comm]
  refine and_congr_left fun hlast => ?_
  rw [hnone.mpr hlast, List.length_nil] at hmem hnew
  simp only [hmem]
  constructor
  · intro heq
    have hn : n = 0 + (instsOf a (listings rs)).length + 1 := congrArg Inst.numid heq
    omega
  · intro hall
    -- the number before `n` is that of the last instance
    have hprev := hall (n - 1)
    have hn : n = 0 + (instsOf a (listings rs)).length + 1 := by omega
    exact hn ▸ rfl

/-- **One commit more in the replay**, with at most one instance. -/
theorem fits_insert_iff {rs rs' : List Record} {r : Record}
    (hfits : Fits (fun _ => 0) (listings (rs ++ rs'))) (hlength : (listed r.body).length ≤ 1)
    (hmade : ∀ p ∈ listed r.body, p.2 = newInst p.1 p.2.numid ∧ 0 < p.2.numid ∧ p ∉ listings (rs ++ rs')) :
    Fits (fun _ => 0) (listings (rs ++ r :: rs')) ↔ ∀ p ∈ listed r.body,
      (∀ n < p.2.numid, 0 < n → (p.1, newInst p.1 n) ∈ listings (rs ++ rs')) ∧ ∀ q ∈ listings rs', q.1 ≠ p.1 := by
  rcases hbody : listed r.body with _ | ⟨⟨a, inst⟩, _ | ⟨q, l⟩⟩
  · -- no instance
    refine iff_of_true ?_ (by simp)
    rw [listings_append, listings_cons, hbody, List.nil_append, ← listings_append]
    exact hfits
  · -- one instance, which changes the list of its class only
    obtain ⟨hinst, hpos, hnew⟩ := hmade (a, inst) (hbody ▸ List.mem_singleton_self _)
    obtain ⟨n, rfl⟩ : ∃ n, inst = newInst a n := ⟨inst.numid, hinst⟩
    have hother : ∀ b, b ≠ a → instsOf b (listings (rs ++ r :: rs')) = instsOf b (listings (rs ++ rs')) := by
      intro b hb
      rw [listings_append, listings_cons, hbody, List.singleton_append, listings_append, instsOf_append,
        instsOf_append, instsOf_cons_of_ne _ _ (Ne.symm hb)]
    have hclass : Fits (fun _ => 0) (listings (rs ++ r :: rs')) ↔
        Numbered a 0 (instsOf a (listings (rs ++ r :: rs'))) := by
      rw [fits_iff]
      constructor
      · exact fun hall => hall a
      · intro ha b
        by_cases hb : b = a
        · subst hb
          exact ha
        · rw [hother b hb]
          exact fits_iff.mp hfits b
    rw [List.forall_mem_singleton]
    exact hclass.trans (numbered_insert_iff hfits hbody hpos hnew)
  · rw [hbody] at hlength
    exact absurd hlength (by simp)

/-! ## (9) The invariant -/

/-- **What holds of a task.** -/
structure TaskInv (s : Repo) (task : Task) : Prop where
  /-- Its instances have numbers that were counted. -/
  made : ∀ i ∈ task.classInstStateRefs,
    i = newInst i.blueprint i.numid ∧ 0 < i.numid ∧ i.numid ≤ s.instIdCount i.blueprint
  /-- They are not in a journal. -/
  fresh : ∀ i ∈ task.classInstStateRefs, (i.blueprint, i) ∉ listings s.journal
  /-- The newest comes first. -/
  newestFirst : task.classInstStateRefs.Pairwise fun i j => i.blueprint = j.blueprint → j.numid < i.numid
  /-- A task with instances is a commit. -/
  isCommit : task.classInstStateRefs ≠ [] → task.isCommit = true
  /-- Each class state has the instances that were imported before it was made. -/
  children : ∀ ref ∈ task.classStateRefs, ref.children <:+ task.classInstStateRefs
  /-- The newer class states have the instances of the older ones. -/
  grows : task.classStateRefs.Pairwise fun new old => old.children ⊆ new.children
  /-- An instance is listed under its class when the selection has ended. -/
  home : ∀ i ∈ task.classInstStateRefs, task.selected = some i.blueprint ∨
    (i.blueprint, i) ∈ listed task.classStateRefs

theorem mem_listed {p : ClassAddr × Inst} {body : List ClassState} :
    p ∈ listed body ↔ ∃ ref ∈ body, p.2 ∈ ref.children ∧ p.1 = ref.entry := by
  rw [listed, List.mem_flatMap]
  refine exists_congr fun ref => and_congr_right fun _ => ?_
  rw [List.mem_map]
  constructor
  · rintro ⟨inst, hinst, rfl⟩
    exact ⟨hinst, rfl⟩
  · rintro ⟨hinst, heq⟩
    exact ⟨p.2, hinst, by rw [← heq]⟩

namespace TaskInv

variable {s : Repo} {task : Task}

/-- A new task. -/
theorem new (s : Repo) : TaskInv s {} := by
  constructor <;> simp

/-- What a task lists it has imported. -/
theorem mem_refs (h : TaskInv s task) {p : ClassAddr × Inst} (hp : p ∈ listed task.classStateRefs) :
    p.2 ∈ task.classInstStateRefs := by
  obtain ⟨ref, href, hinst, -⟩ := mem_listed.mp hp
  exact (h.children ref href).subset hinst

/-- **A commit whose listing fits has one instance at most**: the instances of a selection are listed newest first,
and those of an earlier one twice. -/
theorem length_le_one (h : TaskInv s task) {counts : InstCounts} (hfits : Fits counts (listed task.classStateRefs)) :
    (listed task.classStateRefs).length ≤ 1 := by
  obtain ⟨hclass, hnumids⟩ := hfits.pairwise
  have hchildren := h.children
  have hgrows := h.grows
  cases hrefs : task.classStateRefs with
  | nil => simp [listed]
  | cons new olds =>
      rw [hrefs] at hclass hnumids hchildren hgrows
      have hin : ∀ i ∈ new.children, (new.entry, i) ∈ listed (new :: olds) := fun i hi =>
        mem_listed.mpr ⟨new, List.mem_cons_self, hi, rfl⟩
      have hsplit : listed (new :: olds) = new.listing ++ listed olds := rfl
      rw [hsplit, List.pairwise_append] at hnumids
      obtain ⟨hnew, -, hcross⟩ := hnumids
      -- an instance of an older state would be listed after itself
      have holds : listed olds = [] := by
        refine List.eq_nil_iff_forall_not_mem.mpr fun q hq => ?_
        obtain ⟨old, hold, hinst, hentry⟩ := mem_listed.mp hq
        have hmem : q.2 ∈ new.children := (List.pairwise_cons.mp hgrows).1 old hold hinst
        have hq' : q ∈ listed (new :: olds) := hsplit ▸ List.mem_append_right _ hq
        have hsame : new.entry = q.1 := (hclass (new.entry, q.2) (hin q.2 hmem)).symm.trans (hclass q hq')
        exact lt_irrefl _ (hcross (new.entry, q.2) (List.mem_map_of_mem hmem) q hq hsame)
      have hcount : new.children.length ≤ 1 := by
        have hnewest := h.newestFirst.sublist (hchildren new List.mem_cons_self).sublist
        rw [ClassState.listing, List.pairwise_map] at hnew
        have hnone : new.children.Pairwise fun _ _ => False := by
          refine (hnew.and hnewest).imp_of_mem fun {i j} hi hj hij => ?_
          have hblueprint := (hclass _ (hin i hi)).trans (hclass _ (hin j hj)).symm
          exact Nat.lt_asymm (hij.1 rfl) (hij.2 hblueprint)
        rcases hlist : new.children with _ | ⟨i, _ | ⟨j, rest⟩⟩
        · simp
        · simp
        · rw [hlist] at hnone
          exact ((List.pairwise_cons.mp hnone).1 j List.mem_cons_self).elim
      rw [hsplit, holds, List.append_nil, ClassState.listing, List.length_map]
      exact hcount

/-- **A commit with one instance lists it under its class.** -/
theorem blueprint_eq (h : TaskInv s task) (hready : task.Ready) (hlength : (listed task.classStateRefs).length ≤ 1)
    {p : ClassAddr × Inst} (hp : p ∈ listed task.classStateRefs) : p.2.blueprint = p.1 := by
  rcases h.home p.2 (h.mem_refs hp) with hselected | hhome
  · rw [hready.1] at hselected
    cases hselected
  · rcases hlist : listed task.classStateRefs with _ | ⟨q, _ | ⟨q', l⟩⟩
    · rw [hlist] at hp
      cases hp
    · rw [hlist, List.mem_singleton] at hp hhome
      exact congrArg Prod.fst (hhome.trans hp.symm)
    · rw [hlist] at hlength
      exact absurd hlength (by simp)

end TaskInv

theorem mem_listings_of_perm {rs rs' : List Record} (hperm : rs.Perm rs') (p : ClassAddr × Inst) :
    p ∈ listings rs ↔ p ∈ listings rs' := by
  rw [mem_listings, mem_listings]
  simp only [hperm.mem_iff]

/-- The records behind `r` list nothing under a class exactly if those that do come before it. -/
theorem forall_ne_iff_trieBefore {rs rs' : List Record} {r : Record} (horder : InOrder (rs ++ r :: rs'))
    (a : ClassAddr) : (∀ q ∈ listings rs', q.1 ≠ a) ↔
      ∀ r' ∈ rs ++ rs', (∃ q ∈ listed r'.body, q.1 = a) → TrieBefore r'.numid r.numid := by
  obtain ⟨-, hback, hcross⟩ := List.pairwise_append.mp horder
  constructor
  · rintro hnone r' hr' ⟨q, hq, heq⟩
    rcases List.mem_append.mp hr' with hfront | hbehind
    · exact hcross r' hfront r List.mem_cons_self
    · exact absurd heq (hnone q (mem_listings.mpr ⟨r', hbehind, hq⟩))
  · intro hall q hq heq
    obtain ⟨r', hr', hq'⟩ := mem_listings.mp hq
    have hbefore := hall r' (List.mem_append_right rs hr') ⟨q, hq', heq⟩
    exact TrieLt.asymm hbefore ((List.pairwise_cons.mp hback).1 r' hr')

/-- **A commit keeps the numbers exactly if it is sure to.** -/
theorem sameNumids_commit_iff {s s' : Repo} {task : Task} (hsame : SameNumids s) (htask : TaskInv s task)
    (hready : task.Ready) (hjournal : s'.journal = ⟨s.head + 1, task.classStateRefs⟩ :: s.journal) :
    SameNumids s' ↔ SureCommit s task := by
  obtain ⟨hnodup, hfits⟩ := sameNumids_iff_fits.mp hsame
  rw [sameNumids_iff_fits, hjournal, SureCommit]
  generalize hr : Record.mk (s.head + 1) task.classStateRefs = r
  have hnumid : s.head + 1 = r.numid := hr ▸ rfl
  have hbody : task.classStateRefs = r.body := hr ▸ rfl
  by_cases hnew : ∀ r' ∈ s.journal, r'.numid ≠ s.head + 1
  · have hnodup' : ((r :: s.journal).map Record.numid).Nodup := by
      refine List.nodup_cons.mpr ⟨fun hmem => ?_, hnodup⟩
      obtain ⟨r', hr', heq⟩ := List.mem_map.mp hmem
      exact hnew r' hr' (heq.trans hnumid.symm)
    -- the place of the commit in the order of the replay
    obtain ⟨all, hperm, horder, -⟩ := kndRepoRestore_of_nodup hnodup'
    obtain ⟨rs, rs', rfl⟩ := List.append_of_mem (hperm.mem_iff.mpr List.mem_cons_self)
    have hperm₀ : (rs ++ rs').Perm s.journal := (List.perm_middle.symm.trans hperm).cons_inv
    have hsublist : (rs ++ rs').Sublist (rs ++ r :: rs') := (List.sublist_cons_self r rs').append_left rs
    have hfits₀ := hfits _ hperm₀ (horder.sublist hsublist)
    have hmem := mem_listings_of_perm hperm₀
    have hone : (∀ all, all.Perm (r :: s.journal) → InOrder all → Fits (fun _ => 0) (listings all)) ↔
        Fits (fun _ => 0) (listings (rs ++ r :: rs')) := by
      refine ⟨fun hall => hall _ hperm horder, fun h all hperm' horder' => ?_⟩
      rw [horder'.eq_of_perm horder (hperm'.trans hperm.symm)]
      exact h
    have hlength : Fits (fun _ => 0) (listings (rs ++ r :: rs')) → (listed r.body).length ≤ 1 := by
      intro h
      rw [listings_append, listings_cons] at h
      have hmiddle := (allAllowed_append.mp (allAllowed_append.mp h).2).1
      rw [← hbody] at hmiddle ⊢
      exact htask.length_le_one hmiddle
    have hmade : (listed r.body).length ≤ 1 → ∀ p ∈ listed r.body,
        p.2 = newInst p.1 p.2.numid ∧ 0 < p.2.numid ∧ p ∉ listings (rs ++ rs') := by
      rw [← hbody]
      intro hle p hp
      have hclass := htask.blueprint_eq hready hle hp
      obtain ⟨hinst, hpos, -⟩ := htask.made p.2 (htask.mem_refs hp)
      have hfresh := htask.fresh p.2 (htask.mem_refs hp)
      rw [hclass] at hinst hfresh
      exact ⟨hinst, hpos, fun hin => hfresh ((hmem p).mp hin)⟩
    have hsure : ∀ p ∈ listed r.body,
        ((∀ n < p.2.numid, 0 < n → (p.1, newInst p.1 n) ∈ listings (rs ++ rs')) ∧ ∀ q ∈ listings rs', q.1 ≠ p.1) ↔
        (∀ n < p.2.numid, 0 < n → (p.1, newInst p.1 n) ∈ listings s.journal) ∧
          ∀ r' ∈ s.journal, (∃ q ∈ listed r'.body, q.1 = p.1) → TrieBefore r'.numid r.numid := by
      intro p _
      rw [forall_ne_iff_trieBefore horder]
      simp only [hmem, hperm₀.mem_iff]
    rw [and_iff_right hnodup', and_iff_right hnew, hone, hbody, hnumid, ← forall₂_congr hsure]
    constructor
    · intro h
      exact ⟨hlength h, (fits_insert_iff hfits₀ (hlength h) (hmade (hlength h))).mp h⟩
    · rintro ⟨hle, h⟩
      exact (fits_insert_iff hfits₀ hle (hmade hle)).mpr h
  · -- the number is taken
    refine iff_of_false (fun h => ?_) fun h => hnew h.1
    refine hnew fun r' hr' heq => ?_
    exact (List.nodup_cons.mp h.1).1 (List.mem_map.mpr ⟨r', hr', heq.trans hnumid⟩)

/-- **What holds of a repository** as long as the numbers are the same. -/
structure Inv (s : Repo) : Prop where
  /-- It was opened. -/
  isOpen : s.isOpen = true
  /-- The numbers are the same. -/
  same : SameNumids s
  /-- The journalled numbers were counted. -/
  counted : ∀ p ∈ listings s.journal, p.2.numid ≤ s.instIdCount p.1
  /-- The tasks. -/
  task : ∀ t, TaskInv s (s.tasks t)
  /-- No two tasks have an instance in common. -/
  apart : ∀ t t', t ≠ t' → ∀ i ∈ (s.tasks t).classInstStateRefs, i ∉ (s.tasks t').classInstStateRefs

/-- A new repository. -/
theorem inv_new : Inv {} where
  isOpen := rfl
  same := by decide +kernel
  counted := by simp [listings]
  task _ := TaskInv.new _
  apart := by simp

/-- More is counted, and nothing that the task has imported is journalled. -/
theorem TaskInv.frame {s s' : Repo} {task : Task} (h : TaskInv s task)
    (hcounts : ∀ a, s.instIdCount a ≤ s'.instIdCount a)
    (hfresh : ∀ i ∈ task.classInstStateRefs, (i.blueprint, i) ∉ listings s'.journal) : TaskInv s' task where
  made i hi := ⟨(h.made i hi).1, (h.made i hi).2.1, (h.made i hi).2.2.trans (hcounts _)⟩
  fresh := hfresh
  newestFirst := h.newestFirst
  isCommit := h.isCommit
  children := h.children
  grows := h.grows
  home := h.home

/-- A selection ends: its class state has all instances of the task. -/
theorem TaskInv.commitState {s : Repo} {task : Task} (h : TaskInv s task) : TaskInv s task.commitState := by
  rw [Task.commitState]
  cases hselected : task.selected with
  | none => exact h
  | some a =>
      cases hcommit : task.isCommit with
      | true =>
          refine { h with isCommit := fun _ => rfl, children := ?_, grows := ?_, home := ?_ }
          · intro ref href
            rcases List.mem_cons.mp href with rfl | href
            · exact List.suffix_rfl
            · exact h.children ref href
          · exact List.pairwise_cons.mpr ⟨fun ref href => (h.children ref href).subset, h.grows⟩
          · intro i hi
            refine .inr (mem_listed.mpr ?_)
            rcases h.home i hi with hsome | hlisted
            · rw [hselected] at hsome
              exact ⟨_, List.mem_cons_self, hi, (Option.some.inj hsome).symm⟩
            · obtain ⟨ref, href, hin⟩ := mem_listed.mp hlisted
              exact ⟨ref, List.mem_cons_of_mem _ href, hin⟩
      | false =>
          -- the task has imported nothing
          have hnil : task.classInstStateRefs = [] := by
            by_contra hne
            rw [h.isCommit hne] at hcommit
            cases hcommit
          have hnone : ∀ i, i ∉ task.classInstStateRefs := by simp [hnil]
          exact { h with
            isCommit := fun hne => absurd hnil hne
            home := fun i hi => absurd hi (hnone i) }

theorem commitState_classInstStateRefs (task : Task) :
    task.commitState.classInstStateRefs = task.classInstStateRefs := by
  rw [Task.commitState]
  split
  · rfl
  · split <;> rfl

/-- An instance is imported: it has the next number of the selected class. -/
theorem TaskInv.importInst {s : Repo} {task : Task} {a : ClassAddr} (h : TaskInv s task)
    (hselected : task.selected = some a) (hcounted : ∀ p ∈ listings s.journal, p.2.numid ≤ s.instIdCount p.1)
    {counts : InstCounts} (hcounts : ∀ b, s.instIdCount b ≤ counts b) (hcount : counts a = s.instIdCount a + 1) :
    TaskInv { s with instIdCount := counts }
      { task with
        isCommit := true
        classInstStateRefs := newInst a (s.instIdCount a + 1) :: task.classInstStateRefs } where
  made i hi := by
    rcases List.mem_cons.mp hi with rfl | hi
    · exact ⟨rfl, Nat.succ_pos _, hcount.ge⟩
    · exact ⟨(h.made i hi).1, (h.made i hi).2.1, (h.made i hi).2.2.trans (hcounts _)⟩
  fresh i hi := by
    rcases List.mem_cons.mp hi with rfl | hi
    · exact fun hin => absurd (hcounted _ hin) (Nat.not_succ_le_self _)
    · exact h.fresh i hi
  newestFirst := by
    refine List.pairwise_cons.mpr ⟨fun i hi hblueprint => ?_, h.newestFirst⟩
    have hle := (h.made i hi).2.2
    rw [← hblueprint] at hle
    exact Nat.lt_succ_of_le hle
  isCommit _ := rfl
  children ref href := (h.children ref href).trans (List.suffix_cons _ _)
  grows := h.grows
  home i hi := by
    rcases List.mem_cons.mp hi with rfl | hi
    · exact .inl hselected
    · exact h.home i hi

namespace Inv

variable {s : Repo}

/-- A task goes on. -/
theorem setTask (h : Inv s) {t : Nat} {task : Task} (htask : TaskInv s task)
    (hapart : ∀ t', t' ≠ t → ∀ i ∈ task.classInstStateRefs, i ∉ (s.tasks t').classInstStateRefs) :
    Inv (s.setTask t task) where
  isOpen := h.isOpen
  same := h.same
  counted := h.counted
  task t' := by
    show TaskInv _ (Function.update s.tasks t task t')
    by_cases ht : t' = t
    · rw [ht, Function.update_self]
      exact htask.frame (fun _ => le_rfl) htask.fresh
    · rw [Function.update_of_ne ht]
      exact (h.task t').frame (fun _ => le_rfl) (h.task t').fresh
  apart t₁ t₂ hne i hi := by
    show i ∉ (Function.update s.tasks t task t₂).classInstStateRefs
    change i ∈ (Function.update s.tasks t task t₁).classInstStateRefs at hi
    by_cases h₁ : t₁ = t <;> by_cases h₂ : t₂ = t
    · exact absurd (h₁.trans h₂.symm) hne
    · rw [h₁, Function.update_self] at hi
      rw [Function.update_of_ne h₂]
      exact hapart t₂ h₂ i hi
    · rw [Function.update_of_ne h₁] at hi
      rw [h₂, Function.update_self]
      exact fun hin => hapart t₁ h₁ i hin hi
    · rw [Function.update_of_ne h₁] at hi
      rw [Function.update_of_ne h₂]
      exact h.apart t₁ t₂ hne i hi

/-- More is counted, and the commits have another head. -/
theorem frame (h : Inv s) {counts : InstCounts} (hcounts : ∀ b, s.instIdCount b ≤ counts b) (head : Nat) :
    Inv { s with instIdCount := counts, head } where
  isOpen := h.isOpen
  same := h.same
  counted p hp := (h.counted p hp).trans (hcounts _)
  task t := (h.task t).frame hcounts (h.task t).fresh
  apart := h.apart

/-- A task without instances. -/
theorem reset (h : Inv s) (t : Nat) : Inv (s.setTask t {}) := h.setTask (TaskInv.new s) (by simp)

/-- A class is selected. -/
theorem select (h : Inv s) (t : Nat) (a : ClassAddr) : Inv (s.run (.select t a)) := by
  by_cases hselected : (s.tasks t).selected = none
  · have hrun : s.run (.select t a) = s.setTask t { s.tasks t with selected := some a } := if_pos hselected
    rw [hrun]
    refine h.setTask { h.task t with home := fun i hi => .inr ?_ } fun t' ht i => h.apart t t' ht.symm i
    rcases (h.task t).home i hi with hsome | hlisted
    · rw [hselected] at hsome
      cases hsome
    · exact hlisted
  · have hrun : s.run (.select t a) = s := if_neg hselected
    rw [hrun]
    exact h

/-- A selection ends. -/
theorem commitState (h : Inv s) (t : Nat) : Inv (s.run (.commitState t)) := by
  refine h.setTask (h.task t).commitState fun t' ht i => ?_
  rw [commitState_classInstStateRefs]
  exact h.apart t t' ht.symm i

/-- An instance is imported: no other task has it. -/
theorem importInst (h : Inv s) (t : Nat) : Inv (s.run (.importInst t)) := by
  rw [Repo.run]
  cases hselected : (s.tasks t).selected with
  | none => exact h
  | some a =>
      have hcount : Function.update s.instIdCount a (s.instIdCount a + 1) a = s.instIdCount a + 1 :=
        Function.update_self ..
      have hcounts : ∀ b, s.instIdCount b ≤ Function.update s.instIdCount a (s.instIdCount a + 1) b := by
        intro b
        by_cases hb : b = a
        · rw [hb, hcount]
          exact Nat.le_succ _
        · exact (Function.update_of_ne hb ..).ge
      have htask := (h.task t).importInst hselected h.counted hcounts hcount
      rw [hselected] at htask
      refine (h.frame hcounts s.head).setTask htask fun t' ht i hi => ?_
      rcases List.mem_cons.mp hi with rfl | hi
      · exact fun hin => absurd ((h.task t').made _ hin).2.2 (Nat.not_succ_le_self _)
      · exact h.apart t t' ht.symm i hi

/-- **A sure commit is confirmed.** -/
theorem confirm (h : Inv s) {t : Nat} (hsure : Sure s (.confirm t)) : Inv (s.run (.confirm t)) := by
  by_cases hready : (s.tasks t).Ready
  · have hrun : s.run (.confirm t) = Repo.setTask { s with
        head := s.head + 1
        journal := ⟨s.head + 1, (s.tasks t).classStateRefs⟩ :: s.journal } t {} := if_pos hready
    have htask := h.task t
    have hcommit := hsure hready
    have hmem : ∀ p ∈ listed (s.tasks t).classStateRefs, p.2 ∈ (s.tasks t).classInstStateRefs := fun p =>
      htask.mem_refs
    rw [hrun]
    refine ⟨h.isOpen, (sameNumids_commit_iff h.same htask hready rfl).mpr hcommit, fun p hp => ?_, fun t' => ?_,
      (h.reset t).apart⟩
    · rcases List.mem_append.mp hp with hnew | hold
      · have hle := (htask.made p.2 (hmem p hnew)).2.2
        rw [htask.blueprint_eq hready hcommit.2.1 hnew] at hle
        exact hle
      · exact h.counted p hold
    · show TaskInv _ (Function.update s.tasks t {} t')
      by_cases ht : t' = t
      · rw [ht, Function.update_self]
        exact TaskInv.new _
      · rw [Function.update_of_ne ht]
        refine (h.task t').frame (fun _ => le_rfl) fun i hi hin => ?_
        -- the journal has the instances of the task `t` now
        rcases List.mem_append.mp hin with hnew | hold
        · exact h.apart t t' (Ne.symm ht) i (hmem _ hnew) hi
        · exact (h.task t').fresh i hi hold
  · have hrun : s.run (.confirm t) = s := if_neg hready
    rw [hrun]
    exact h

/-- **A restart** gives all instances their numbers again. -/
theorem restart (h : Inv s) : Inv (s.run .restart) := by
  obtain ⟨hnodup, hfits⟩ := sameNumids_iff_fits.mp h.same
  obtain ⟨rs, hperm, horder, hrun⟩ := kndRepoRestore_of_nodup hnodup
  obtain ⟨hcounts, -, hself⟩ := run_replay rs fun _ => 0
  have hfits' := hfits rs hperm horder
  have hreplayed : (rs.mapM kndApplyCommit).run (fun _ => 0) = (rs, (listings rs).foldl countInst fun _ => 0) :=
    Prod.ext (hself.mpr hfits') hcounts
  have hopened : s.run .restart = {
      instIdCount := (listings rs).foldl countInst fun _ => 0
      journal := rs
      head := (rs.getLast?.map Record.numid).getD 0 } := by
    rw [Repo.run, hrun, hreplayed]
  rw [hopened]
  refine ⟨rfl, ?_, fun p hp => ?_, fun _ => TaskInv.new _, by simp⟩
  · exact sameNumids_iff_fits.mpr ⟨(hperm.map _).nodup_iff.mpr hnodup, fun rs' hperm' =>
      hfits rs' (hperm'.trans hperm)⟩
  · obtain ⟨m, -, hle, heq⟩ := (fits_iff.mp hfits' p.1).mem_iff.mp (mem_instsOf.mpr hp)
    show p.2.numid ≤ (listings rs).foldl countInst (fun _ => 0) p.1
    rw [foldl_countInst, heq]
    exact hle

/-- **One event** keeps the invariant if it is sure to keep the numbers. -/
theorem step {e : InstEvent} (h : Inv s) (hsure : Sure s e) : Inv (step s e) := by
  rw [InstReplay.step, if_pos h.isOpen]
  cases e with
  | select t a => exact h.select t a
  | importInst t => exact h.importInst t
  | commitState t => exact h.commitState t
  | confirm t => exact h.confirm hsure
  | fail t pushed => exact (h.frame (fun _ => le_rfl) _).reset t
  | restart => exact h.restart

/-- **An event that keeps the numbers was sure to.** -/
theorem sure {e : InstEvent} (h : Inv s) (hsame : SameNumids (InstReplay.step s e)) : Sure s e := by
  cases e with
  | confirm t =>
      intro hready
      have hrun : InstReplay.step s (.confirm t) = Repo.setTask { s with
          head := s.head + 1
          journal := ⟨s.head + 1, (s.tasks t).classStateRefs⟩ :: s.journal } t {} :=
        (if_pos h.isOpen).trans (if_pos hready)
      rw [hrun] at hsame
      exact (sameNumids_commit_iff h.same (h.task t) hready rfl).mp hsame
  | select t a => trivial
  | importInst t => trivial
  | commitState t => trivial
  | fail t pushed => trivial
  | restart => trivial

end Inv

/-! ## (10) Runs -/

/-- **The replay of the journals gives all instances their numbers and ids in every state of a run exactly if each
confirmation of the run is sure to keep them.** -/
theorem sameNumids_iff (es : List InstEvent) :
    (∀ pre, pre <+: es → SameNumids (pre.foldl step {})) ↔ AllAllowed step Sure {} es :=
  forall_prefix_iff_allAllowed (fun _ h => h.same) (fun _ _ h => h.step) (fun _ _ h => h.sure) inv_new es

/-- Two tasks that overlap: both imports are confirmed in the order in which they were made. -/
example : AllAllowed step Sure {} [.select 0 1, .select 1 1, .importInst 0, .importInst 1, .commitState 0,
    .commitState 1, .confirm 0, .confirm 1, .restart] := by
  decide +kernel

/-- **Two instances of one selection**: the record lists the second one first, so that it has the number 1 after a
restart. -/
theorem not_sameNumids_pair :
    ¬SameNumids ([.select 0 1, .importInst 0, .importInst 0, .commitState 0, .confirm 0].foldl step {}) := by
  decide +kernel

end InstReplay

end Knowdy
