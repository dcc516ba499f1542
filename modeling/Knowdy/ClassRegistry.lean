import Knowdy.Repo
import Knowdy.Lib.Runs

/-! # Concurrent registration of classes

Any number of tasks of ARBITERs that import classes into one repository and confirm them, interleaved between
every two accesses to what they share: the dictionary of the class names, the list of commits and the states
of the commits.

* `Stage`, `ClassTask`, `Registry` — where a task is in `knd_confirm_commit`, and what is shared.
* `Action`, `Registry.step` — one access. An insertion is `dictScan` followed by `dictPublish`;
  `Registry.step_scan_publish` — the two are `kndSharedDictSet` when nothing comes between them.
* `Registry.Undisturbed` — no insertion starts while an item of its name is pending.
* `Registry.Inv` — the pending items of a name belong to one commit; `inv_step`.
* `confirmed_unique` — **at most one commit that creates a class of a name is confirmed**, in every run of
  undisturbed insertions. -/

namespace Knowdy

/-! ## (1) Tasks and what they share -/

/-- A class that a task creates: its name and its entry. -/
structure NewClass where
  /-- The name. -/
  name : Name
  /-- The entry. -/
  entry : ClassAddr
  deriving DecidableEq, Repr

/-- Where a task is between its import and the return of `knd_confirm_commit`. -/
inductive Stage where
  /-- The clauses of the task are parsed. -/
  | importing
  /-- `update_indices`: the classes that are left to register. -/
  | inserting (todo : List NewClass)
  /-- `knd_shared_dict_set` has looked for the name of the class in the bucket `origHead`. -/
  | scanned (cls : NewClass) (todo : List NewClass) (origHead : List (DictItem ClassAddr))
  /-- `check_commit_conflicts` has loaded the head of the list. -/
  | checking (head : Option CommitAddr)
  /-- `check_class_conflicts` has returned. -/
  | swapping (head : Option CommitAddr)
  /-- The commit is on the list. -/
  | pushed
  /-- `check_commit_conflicts` has returned. -/
  | logging
  /-- `knd_confirm_commit` has returned `knd_OK`. -/
  | accepted
  /-- The task has failed. -/
  | rejected

/-- A task with its commit. -/
structure ClassTask where
  /-- Where it is. -/
  stage : Stage := .importing
  /-- The classes of `class_state_refs`, newest first. -/
  classes : List NewClass := []
  /-- `dict_item` of the classes that are registered. -/
  items : List (DictItem ClassAddr) := []
  /-- `confirm`. -/
  confirm : Confirm := .init
  /-- `numid`. -/
  numid : Nat := 1
  /-- `prev`. -/
  prev : Option CommitAddr := none

/-- **The commit is confirmed**: it has passed the check for conflicts. -/
def ClassTask.Confirmed (self : ClassTask) : Prop := self.confirm = .valid ∨ self.confirm = .persistent

instance (t : ClassTask) : Decidable t.Confirmed :=
  inferInstanceAs (Decidable (t.confirm = .valid ∨ t.confirm = .persistent))

/-- What the tasks share, and the tasks by the addresses of their commits. -/
structure Registry where
  /-- `class_name_idx`. -/
  dict : SharedDict ClassAddr
  /-- `commits` of the snapshot. -/
  head : Option CommitAddr
  /-- The tasks. -/
  tasks : CommitAddr → ClassTask
  /-- The next free class entry. -/
  nextClass : ClassAddr

/-- One access of a task to what is shared. -/
inductive Action where
  /-- `knd_class_import`. -/
  | importClass (c : CommitAddr) (name : Name)
  /-- The end of the task: `knd_confirm_commit` resolves the commit and begins to register it. -/
  | begin (c : CommitAddr)
  /-- The first part of `knd_shared_dict_set`. -/
  | scan (c : CommitAddr)
  /-- Its last part. -/
  | publish (c : CommitAddr)
  /-- The load of the head in `check_commit_conflicts`. -/
  | load (c : CommitAddr)
  /-- `check_class_conflicts`. -/
  | check (c : CommitAddr)
  /-- The compare-and-exchange. -/
  | swap (c : CommitAddr)
  /-- The store of `KND_VALID_STATE`. -/
  | confirm (c : CommitAddr)
  /-- `build_commit_WAL`, which may fail. -/
  | log (c : CommitAddr) (ok : Bool)
  /-- Any other failure before the commit is on the list, such as a lack of memory. -/
  | fail (c : CommitAddr)
  deriving DecidableEq, Repr

namespace Registry

/-- Replace a task. -/
def setTask (self : Registry) (c : CommitAddr) (t : ClassTask) : Registry :=
  { self with tasks := Function.update self.tasks c t }

/-- A task returns an error. -/
def reject (self : Registry) (c : CommitAddr) : Registry :=
  self.setTask c { self.tasks c with stage := .rejected }

/-- A task goes on to another stage. -/
def goto (self : Registry) (c : CommitAddr) (stage : Stage) : Registry :=
  self.setTask c { self.tasks c with stage := stage }

/-! ## (2) The accesses -/

/-- `set_class_name`: a class of this name in the repository or in the task is a conflict. -/
def runImport (self : Registry) (c : CommitAddr) (name : Name) : Registry :=
  let t := self.tasks c
  if (kndSharedDictGet self.dict name).isSome || t.classes.any (fun cls => cls.name = name) then self.reject c
  else
    { self with nextClass := self.nextClass + 1 }.setTask c
      { t with classes := ⟨name, self.nextClass⟩ :: t.classes }

/-- The new item of `knd_shared_dict_set`: a commit inserts pending items. -/
def newItem (c : CommitAddr) (cls : NewClass) : DictItem ClassAddr :=
  { phase := .pending, key := cls.name, data := cls.entry, states := [c] }

/-- The first part of an insertion. -/
def runScan (self : Registry) (c : CommitAddr) (cls : NewClass) (todo : List NewClass) : Registry :=
  match dictScan self.dict cls.name false with
  | .error _ => self.reject c
  | .ok origHead => self.goto c (.scanned cls todo origHead)

/-- The last part of an insertion; the new item becomes the `dict_item` of the entry. -/
def runPublish (self : Registry) (c : CommitAddr) (cls : NewClass) (todo : List NewClass)
    (origHead : List (DictItem ClassAddr)) : Registry :=
  match dictPublish self.dict origHead (newItem c cls) with
  | .error _ => self.reject c
  | .ok dict =>
      let t := self.tasks c
      { self with dict }.setTask c
        { t with stage := .inserting todo, items := newItem c cls :: t.items }

/-- The load of the head: the commit gets the next number. -/
def runLoad (self : Registry) (c : CommitAddr) : Registry :=
  let t := self.tasks c
  match self.head with
  | none => self.goto c (.checking none)
  | some head =>
      self.setTask c { t with
        stage := .checking (some head)
        prev := some head
        numid := (self.tasks head).numid + 1 }

/-- Does `check_class_conflicts` meet another commit that is confirmed? It looks at the states of the items
that the commit itself has inserted. -/
def conflicts (self : Registry) (c : CommitAddr) : Bool :=
  (self.tasks c).items.any fun item =>
    item.states.any fun d => d ≠ c && decide (self.tasks d).Confirmed

/-- `check_class_conflicts`. -/
def runCheck (self : Registry) (c : CommitAddr) (head : Option CommitAddr) : Registry :=
  if self.conflicts c then
    self.setTask c { self.tasks c with stage := .rejected, confirm := .conflict }
  else self.goto c (.swapping head)

/-- The compare-and-exchange: another head is loaded again. -/
def runSwap (self : Registry) (c : CommitAddr) (head : Option CommitAddr) : Registry :=
  if self.head = head then { self with head := some c }.goto c .pushed else self.goto c (.inserting [])

/-- The journal. -/
def runLog (self : Registry) (c : CommitAddr) (ok : Bool) : Registry :=
  if ok then self.setTask c { self.tasks c with stage := .accepted, confirm := .persistent }
  else self.reject c

/-- **One access.** -/
def step (self : Registry) (a : Action) : Registry :=
  match a with
  | .importClass c name =>
      match (self.tasks c).stage with
      | .importing => self.runImport c name
      | _ => self
  | .begin c =>
      match (self.tasks c).stage with
      | .importing => self.goto c (.inserting (self.tasks c).classes)
      | _ => self
  | .scan c =>
      match (self.tasks c).stage with
      | .inserting (cls :: todo) => self.runScan c cls todo
      | _ => self
  | .publish c =>
      match (self.tasks c).stage with
      | .scanned cls todo origHead => self.runPublish c cls todo origHead
      | _ => self
  | .load c =>
      match (self.tasks c).stage with
      | .inserting [] => self.runLoad c
      | _ => self
  | .check c =>
      match (self.tasks c).stage with
      | .checking head => self.runCheck c head
      | _ => self
  | .swap c =>
      match (self.tasks c).stage with
      | .swapping head => self.runSwap c head
      | _ => self
  | .confirm c =>
      match (self.tasks c).stage with
      | .pushed => self.setTask c { self.tasks c with stage := .logging, confirm := .valid }
      | _ => self
  | .log c ok =>
      match (self.tasks c).stage with
      | .logging => self.runLog c ok
      | _ => self
  | .fail c =>
      match (self.tasks c).stage with
      | .importing | .inserting _ | .scanned _ _ _ => self.reject c
      | _ => self

end Registry

namespace Registry

@[simp] theorem tasks_setTask (s : Registry) (c : CommitAddr) (t : ClassTask) :
    (s.setTask c t).tasks c = t := Function.update_self ..

/-- **The two parts of an insertion**, one right after the other, are `knd_shared_dict_set`, when the pool
has the pages for the item and its state. -/
theorem step_scan_publish {s : Registry} {c : CommitAddr} {cls : NewClass} {todo : List NewClass}
    (hstage : (s.tasks c).stage = .inserting (cls :: todo)) {pool : MemPool} (hpool : 2 ≤ pool.tinyPages) :
    match (kndSharedDictSet s.dict pool cls.name cls.entry (some c) false).1 with
    | .error _ => ((s.step (.scan c)).step (.publish c)) = s.reject c
    | .ok (item, dict) => ((s.step (.scan c)).step (.publish c)).dict = dict ∧ item = newItem c cls := by
  have hscan : s.step (.scan c) = s.runScan c cls todo := by rw [step, hstage]
  rw [hscan, runScan]
  by_cases htaken : s.dict.Taken cls.name
  · rw [kndSharedDictSet_of_taken htaken, dictScan_of_taken htaken]
    simp only [step, reject, tasks_setTask]
  · have hitem : ∃ pool', dictItemNew pool cls.name cls.entry (some c) = (.ok (newItem c cls), pool') := by
      obtain ⟨tiny⟩ := pool
      obtain ⟨n, rfl⟩ : ∃ n, tiny = n + 2 := ⟨tiny - 2, (Nat.sub_add_cancel hpool).symm⟩
      exact ⟨⟨n⟩, rfl⟩
    obtain ⟨pool', hitem⟩ := hitem
    have hpublish : dictPublish s.dict (s.dict.bucket cls.name) (newItem c cls)
        = .ok (s.dict.push (newItem c cls)) := dictPublish_self s.dict (newItem c cls)
    rw [kndSharedDictSet_of_not_taken htaken, dictScan_of_not_taken htaken, hitem]
    refine ⟨?_, rfl⟩
    have hdict : (s.goto c (.scanned cls todo (s.dict.bucket cls.name))).dict = s.dict := rfl
    simp only [step, goto, tasks_setTask, runPublish]
    rw [goto] at hdict
    rw [hdict, hpublish]
    rfl

end Registry

/-! ## (3) The invariant -/

/-- **An item of the name is pending**: a commit has inserted it. -/
def SharedDict.Pending (self : SharedDict ClassAddr) (name : Name) : Prop :=
  ∃ item ∈ self.bucket name, item.key = name ∧ item.phase = .pending

instance (d : SharedDict ClassAddr) (name : Name) : Decidable (d.Pending name) :=
  inferInstanceAs (Decidable (∃ item ∈ d.bucket name, item.key = name ∧ item.phase = .pending))

/-- The class still has to be registered, or the task has failed. -/
def Stage.Awaits (cls : NewClass) : Stage → Prop
  | .importing => True
  | .inserting todo => cls ∈ todo
  | .scanned cls' todo _ => cls = cls' ∨ cls ∈ todo
  | .rejected => True
  | _ => False

/-- The next class to register has no pending item. -/
def Stage.Free (d : SharedDict ClassAddr) : Stage → Prop
  | .inserting (cls :: _) => ¬d.Pending cls.name
  | _ => True

instance (d : SharedDict ClassAddr) : (stage : Stage) → Decidable (stage.Free d)
  | .inserting (cls :: _) => inferInstanceAs (Decidable (¬d.Pending cls.name))
  | .inserting [] | .importing | .scanned _ _ _ | .checking _ | .swapping _ | .pushed | .logging
  | .accepted | .rejected => inferInstanceAs (Decidable True)

namespace Registry

/-- The class is registered for the commit `c`. -/
def Registered (s : Registry) (c : CommitAddr) (cls : NewClass) : Prop :=
  ∃ item ∈ s.dict.bucket cls.name, item.key = cls.name ∧ item.phase = .pending ∧ item.states = [c]

/-- **No insertion starts while an item of its name is pending.** -/
def Undisturbed (s : Registry) : Action → Prop
  | .scan c => (s.tasks c).stage.Free s.dict
  | _ => True

instance (s : Registry) : (a : Action) → Decidable (s.Undisturbed a)
  | .scan c => inferInstanceAs (Decidable ((s.tasks c).stage.Free s.dict))
  | .importClass _ _ | .begin _ | .publish _ | .load _ | .check _ | .swap _ | .confirm _ | .log _ _
  | .fail _ => inferInstanceAs (Decidable True)

/-- What is known of a task at its stage. -/
structure TaskInv (s : Registry) (c : CommitAddr) (t : ClassTask) : Prop where
  /-- Since the bucket was loaded items have only been linked in front of it. -/
  scanned : ∀ cls todo origHead, t.stage = .scanned cls todo origHead →
    ∃ new, s.dict.bucket cls.name = new ++ origHead ∧
      ∀ item ∈ origHead, item.key = cls.name → item.phase ≠ .pending
  /-- Classes are registered one after the other. -/
  registered : ∀ cls ∈ t.classes, t.stage.Awaits cls ∨ s.Registered c cls
  /-- A commit is confirmed when all its classes are registered. -/
  confirmed : t.Confirmed → ∀ cls ∈ t.classes, s.Registered c cls
  /-- A task that has returned was confirmed or rejected. -/
  accepted : t.stage = .accepted → t.Confirmed
  /-- A task that still imports is not confirmed. -/
  importing : t.stage = .importing → ¬t.Confirmed

/-- **The invariant**: the pending items of a name belong to one commit. -/
structure Inv (s : Registry) : Prop where
  /-- The dictionary. -/
  unique : ∀ name, ∀ item ∈ s.dict.bucket name, ∀ other ∈ s.dict.bucket name,
    item.key = name → item.phase = .pending → other.key = name → other.phase = .pending →
      item.states = other.states
  /-- The tasks. -/
  tasks : ∀ c, s.TaskInv c (s.tasks c)

/-- The tasks have not begun, and no item is pending. -/
structure Idle (s : Registry) : Prop where
  /-- The dictionary. -/
  dict : ∀ name, ¬s.dict.Pending name
  /-- The tasks. -/
  tasks : ∀ c, s.tasks c = {}

theorem Idle.inv {s : Registry} (h : s.Idle) : s.Inv where
  unique name item hitem other hother hkey hphase _ _ :=
    absurd ⟨item, hitem, hkey, hphase⟩ (h.dict name)
  tasks c := by
    rw [h.tasks c]
    have hinit : ¬ClassTask.Confirmed {} := by decide
    exact ⟨fun _ _ _ hstage => (nomatch hstage), fun cls hcls => (nomatch hcls),
      fun hconf => absurd hconf hinit, fun hstage => (nomatch hstage), fun _ => hinit⟩

section Steps

variable {s : Registry}

/-- The tasks see the dictionary only. -/
theorem TaskInv.congr {s' : Registry} {c : CommitAddr} {t : ClassTask} (h : s.TaskInv c t)
    (hdict : s'.dict = s.dict) : s'.TaskInv c t := by
  have hregistered : ∀ cls, s'.Registered c cls ↔ s.Registered c cls := by
    intro cls
    rw [Registered, Registered, hdict]
  refine ⟨fun cls todo origHead hstage => ?_, fun cls hcls => ?_, fun hconf cls hcls => ?_, h.accepted,
    h.importing⟩
  · rw [hdict]
    exact h.scanned cls todo origHead hstage
  · rw [hregistered]
    exact h.registered cls hcls
  · rw [hregistered]
    exact h.confirmed hconf cls hcls

/-- **A step of one task** that does not change the dictionary. -/
theorem Inv.setTask (h : s.Inv) {c : CommitAddr} {t : ClassTask} (ht : s.TaskInv c t) {s' : Registry}
    (hdict : s'.dict = s.dict) (htasks : s'.tasks = Function.update s.tasks c t) : s'.Inv where
  unique := by
    rw [hdict]
    exact h.unique
  tasks d := by
    rw [htasks]
    by_cases hd : d = c
    · subst hd
      rw [Function.update_self]
      exact ht.congr hdict
    · rw [Function.update_of_ne hd]
      exact (h.tasks d).congr hdict

/-- The stages that say nothing of their own. -/
def Plain (stage : Stage) : Prop :=
  (∀ cls todo origHead, stage ≠ .scanned cls todo origHead) ∧ stage ≠ .accepted ∧ stage ≠ .importing

/-- A task at another stage, in which all classes wait that waited before. -/
theorem TaskInv.goto {c : CommitAddr} {t u : ClassTask} (h : s.TaskInv c t) (hclasses : u.classes = t.classes)
    (hconf : u.Confirmed → t.Confirmed) (hplain : Plain u.stage)
    (hwaits : ∀ cls, t.stage.Awaits cls → u.stage.Awaits cls) : s.TaskInv c u where
  scanned cls todo origHead hstage := absurd hstage (hplain.1 cls todo origHead)
  registered cls hcls := (h.registered cls (hclasses ▸ hcls)).imp (hwaits cls) id
  confirmed hc cls hcls := h.confirmed (hconf hc) cls (hclasses ▸ hcls)
  accepted hstage := absurd hstage hplain.2.1
  importing hstage := absurd hstage hplain.2.2

/-- **A task that fails** keeps what it has registered. -/
theorem inv_reject (h : s.Inv) (c : CommitAddr) : (s.reject c).Inv := by
  have hplain : Plain .rejected :=
    ⟨fun _ _ _ heq => (nomatch heq), fun heq => (nomatch heq), fun heq => (nomatch heq)⟩
  exact h.setTask ((h.tasks c).goto (u := { s.tasks c with stage := .rejected }) rfl id hplain
    fun _ _ => trivial) rfl rfl

theorem inv_runImport (h : s.Inv) {c : CommitAddr} (hstage : (s.tasks c).stage = .importing) (name : Name) :
    (s.runImport c name).Inv := by
  have hconf := (h.tasks c).importing hstage
  rw [runImport]
  split
  · exact inv_reject h c
  · have ht : s.TaskInv c { s.tasks c with classes := ⟨name, s.nextClass⟩ :: (s.tasks c).classes } := by
      refine ⟨fun cls todo origHead heq => ?_, fun cls _ => .inl ?_, fun hc => absurd hc hconf,
        fun heq => ?_, fun _ => hconf⟩
      · rw [hstage] at heq
        cases heq
      · rw [hstage]
        trivial
      · rw [hstage] at heq
        cases heq
    exact h.setTask ht rfl rfl

/-- The task begins to register its classes: all of them are left. -/
theorem inv_begin (h : s.Inv) {c : CommitAddr} (hstage : (s.tasks c).stage = .importing) :
    (s.goto c (.inserting (s.tasks c).classes)).Inv := by
  have hconf := (h.tasks c).importing hstage
  have ht : s.TaskInv c { s.tasks c with stage := .inserting (s.tasks c).classes } :=
    ⟨fun _ _ _ heq => (nomatch heq), fun cls hcls => .inl hcls, fun hc => absurd hc hconf,
      fun heq => (nomatch heq), fun heq => (nomatch heq)⟩
  exact h.setTask ht rfl rfl

/-- **A scan** that is not disturbed: no item of the name is pending in the bucket it has loaded. -/
theorem inv_runScan (h : s.Inv) {c : CommitAddr} {cls : NewClass} {todo : List NewClass}
    (hstage : (s.tasks c).stage = .inserting (cls :: todo)) (hfree : ¬s.dict.Pending cls.name) :
    (s.runScan c cls todo).Inv := by
  have ht := h.tasks c
  rw [runScan]
  split
  · exact inv_reject h c
  · rename_i origHead hscan
    have horig : origHead = s.dict.bucket cls.name := by
      by_cases htaken : s.dict.Taken cls.name
      · rw [dictScan_of_taken htaken] at hscan
        cases hscan
      · rw [dictScan_of_not_taken htaken] at hscan
        cases hscan
        rfl
    have ht' : s.TaskInv c { s.tasks c with stage := .scanned cls todo origHead } := by
      refine ⟨fun cls' todo' origHead' heq => ?_, fun cls' hcls' => ?_, ht.confirmed,
        fun heq => (nomatch heq), fun heq => (nomatch heq)⟩
      · cases heq
        exact ⟨[], horig.symm, fun item hitem hkey hphase => hfree ⟨item, horig ▸ hitem, hkey, hphase⟩⟩
      · refine (ht.registered cls' hcls').imp (fun hwait => ?_) id
        rw [hstage] at hwait
        exact List.mem_cons.mp hwait
    exact h.setTask ht' rfl rfl

section Push

variable {s' : Registry} {item : DictItem ClassAddr}

/-- What was in a bucket is behind what was linked in front of it. -/
theorem exists_bucket_push (d : SharedDict ClassAddr) (item : DictItem ClassAddr) (name : Name) :
    ∃ front, (d.push item).bucket name = front ++ d.bucket name := by
  rw [d.bucket_push]
  split
  · exact ⟨[item], rfl⟩
  · exact ⟨[], rfl⟩

theorem eq_or_mem_of_mem_push {d : SharedDict ClassAddr} {name : Name} {x : DictItem ClassAddr}
    (hmem : x ∈ (d.push item).bucket name) : x = item ∨ x ∈ d.bucket name := by
  rw [d.bucket_push] at hmem
  split at hmem
  · exact List.mem_cons.mp hmem
  · exact .inr hmem

/-- A class stays registered when an item is linked. -/
theorem Registered.push {d : CommitAddr} {cls : NewClass} (h : s.Registered d cls)
    (hdict : s'.dict = s.dict.push item) : s'.Registered d cls := by
  obtain ⟨x, hx, hrest⟩ := h
  obtain ⟨front, hfront⟩ := exists_bucket_push s.dict item cls.name
  refine ⟨x, ?_, hrest⟩
  rw [hdict, hfront]
  exact List.mem_append_right front hx

/-- What is known of a task stays known when an item is linked. -/
theorem TaskInv.push {d : CommitAddr} {t : ClassTask} (h : s.TaskInv d t) (hdict : s'.dict = s.dict.push item) :
    s'.TaskInv d t := by
  refine ⟨fun cls todo origHead heq => ?_, fun cls hcls => ?_, fun hconf cls hcls => ?_, h.accepted, h.importing⟩
  · obtain ⟨new, hbucket, horig⟩ := h.scanned cls todo origHead heq
    obtain ⟨front, hfront⟩ := exists_bucket_push s.dict item cls.name
    exact ⟨front ++ new, by rw [hdict, hfront, hbucket, List.append_assoc], horig⟩
  · exact (h.registered cls hcls).imp id fun hreg => hreg.push hdict
  · exact (h.confirmed hconf cls hcls).push hdict

/-- A published item was not inserted by anybody since its bucket was loaded. -/
theorem push_of_dictPublish {d dict : SharedDict ClassAddr} {c : CommitAddr} {cls : NewClass}
    {new origHead : List (DictItem ClassAddr)} (hbucket : d.bucket cls.name = new ++ origHead)
    (hpublish : dictPublish d origHead (newItem c cls) = .ok dict) :
    dict = d.push (newItem c cls) ∧ ∀ item ∈ new, item.key ≠ cls.name := by
  -- the items in front of the loaded bucket are those that the check has seen
  have htake : (d.bucket cls.name).take ((d.bucket cls.name).length - origHead.length) = new := by
    rw [hbucket, List.length_append, Nat.add_sub_cancel, List.take_left]
  have hcheck : dictPublish d origHead (newItem c cls)
      = if new.any fun item => item.key = cls.name then .error .conflict else .ok (d.push (newItem c cls)) := by
    rw [← htake]
    rfl
  rw [hcheck] at hpublish
  split at hpublish
  · cases hpublish
  · rename_i hnew
    cases hpublish
    exact ⟨rfl, fun item hitem hkey => hnew (List.any_eq_true.mpr ⟨item, hitem, by simpa using hkey⟩)⟩

/-- An item of a name that has no pending one is linked: the pending items of a name belong to one commit still. -/
theorem Inv.unique_push (h : s.Inv) (hfree : ∀ x ∈ s.dict.bucket item.key, x.key = item.key → x.phase ≠ .pending)
    (name : Name) : ∀ a ∈ (s.dict.push item).bucket name, ∀ b ∈ (s.dict.push item).bucket name, a.key = name →
      a.phase = .pending → b.key = name → b.phase = .pending → a.states = b.states := by
  intro a ha b hb hkey hphase hkey' hphase'
  -- a pending item of the new name can only be the new item
  rcases eq_or_mem_of_mem_push ha with heq | hold
  · rcases eq_or_mem_of_mem_push hb with heq' | hold'
    · rw [heq, heq']
    · rw [heq] at hkey
      exact absurd hphase' (hfree b (hkey ▸ hold') (hkey'.trans hkey.symm))
  · rcases eq_or_mem_of_mem_push hb with heq' | hold'
    · rw [heq'] at hkey'
      exact absurd hphase (hfree a (hkey' ▸ hold) (hkey.trans hkey'.symm))
    · exact h.unique name a hold b hold' hkey hphase hkey' hphase'

end Push

/-- **Publishing** a class whose name was free when its bucket was loaded: nobody else has inserted it. -/
theorem inv_runPublish (h : s.Inv) {c : CommitAddr} {cls : NewClass} {todo : List NewClass}
    {origHead : List (DictItem ClassAddr)} (hstage : (s.tasks c).stage = .scanned cls todo origHead) :
    (s.runPublish c cls todo origHead).Inv := by
  have ht := h.tasks c
  obtain ⟨new, hbucket, horig⟩ := ht.scanned cls todo origHead hstage
  rw [runPublish]
  split
  · exact inv_reject h c
  · rename_i dict hpublish
    obtain ⟨rfl, hnew⟩ := push_of_dictPublish hbucket hpublish
    have hfree : ∀ item ∈ s.dict.bucket cls.name, item.key = cls.name → item.phase ≠ .pending := by
      intro item hitem hkey
      rw [hbucket] at hitem
      rcases List.mem_append.mp hitem with hitem | hitem
      · exact absurd hkey (hnew item hitem)
      · exact horig item hitem hkey
    set s' : Registry := Registry.setTask { s with dict := s.dict.push (newItem c cls) } c
      { s.tasks c with stage := .inserting todo, items := newItem c cls :: (s.tasks c).items }
    have hdict : s'.dict = s.dict.push (newItem c cls) := rfl
    have hself : s'.Registered c cls := by
      have hbucket' : s'.dict.bucket cls.name = newItem c cls :: s.dict.bucket cls.name :=
        (s.dict.bucket_push (newItem c cls) cls.name).trans (if_pos rfl)
      refine ⟨newItem c cls, ?_, rfl, rfl, rfl⟩
      rw [hbucket']
      exact List.mem_cons_self ..
    refine ⟨h.unique_push hfree, fun d => ?_⟩
    by_cases hd : d = c
    · subst hd
      have htask : s'.tasks d
          = { s.tasks d with stage := .inserting todo, items := newItem d cls :: (s.tasks d).items } :=
        Function.update_self ..
      rw [htask]
      refine ⟨fun _ _ _ heq => (nomatch heq), fun cls' hcls' => ?_, fun hconf cls' hcls' => ?_,
        fun heq => (nomatch heq), fun heq => (nomatch heq)⟩
      · rcases ht.registered cls' hcls' with hwait | hreg
        · rw [hstage] at hwait
          rcases hwait with rfl | hwait
          · exact .inr hself
          · exact .inl hwait
        · exact .inr (hreg.push hdict)
      · exact (ht.confirmed hconf cls' hcls').push hdict
    · have htask : s'.tasks d = s.tasks d := Function.update_of_ne hd _ _
      rw [htask]
      exact (h.tasks d).push hdict

section Registered

variable {s' : Registry} {c : CommitAddr} {u : ClassTask}

/-- When no class waits any more, all of them are registered. -/
theorem Inv.registered (h : s.Inv) (hnone : ∀ cls, ¬(s.tasks c).stage.Awaits cls) :
    ∀ cls ∈ (s.tasks c).classes, s.Registered c cls := fun cls hcls =>
  ((h.tasks c).registered cls hcls).resolve_left (hnone cls)

/-- **A task goes on** when no class of it waits any more. -/
theorem Inv.goOn (h : s.Inv) (hnone : ∀ cls, ¬(s.tasks c).stage.Awaits cls)
    (hclasses : u.classes = (s.tasks c).classes) (hconf : u.Confirmed → (s.tasks c).Confirmed)
    (hplain : Plain u.stage) (hdict : s'.dict = s.dict) (htasks : s'.tasks = Function.update s.tasks c u) :
    s'.Inv :=
  h.setTask ((h.tasks c).goto hclasses hconf hplain fun cls hwait => absurd hwait (hnone cls)) hdict htasks

/-- **A task is confirmed** when no class of it waits any more. -/
theorem Inv.confirm (h : s.Inv) (hnone : ∀ cls, ¬(s.tasks c).stage.Awaits cls)
    (hclasses : u.classes = (s.tasks c).classes) (hconf : u.Confirmed)
    (hscanned : ∀ cls todo origHead, u.stage ≠ .scanned cls todo origHead) (himporting : u.stage ≠ .importing)
    (hdict : s'.dict = s.dict) (htasks : s'.tasks = Function.update s.tasks c u) : s'.Inv := by
  have hall : ∀ cls ∈ u.classes, s.Registered c cls := fun cls hcls => h.registered hnone cls (hclasses ▸ hcls)
  have ht : s.TaskInv c u :=
    ⟨fun cls todo origHead heq => absurd heq (hscanned cls todo origHead), fun cls hcls => .inr (hall cls hcls),
      fun _ => hall, fun _ => hconf, fun heq => absurd heq himporting⟩
  exact h.setTask ht hdict htasks

end Registered

theorem inv_runLoad (h : s.Inv) {c : CommitAddr} (hnone : ∀ cls, ¬(s.tasks c).stage.Awaits cls) :
    (s.runLoad c).Inv := by
  have hplain : ∀ head, Plain (.checking head) := fun _ =>
    ⟨fun _ _ _ heq => (nomatch heq), fun heq => (nomatch heq), fun heq => (nomatch heq)⟩
  rw [runLoad]
  split
  · exact h.goOn (u := { s.tasks c with stage := .checking none }) hnone rfl id (hplain none) rfl rfl
  · rename_i head hhead
    exact h.goOn (u := { s.tasks c with
      stage := .checking (some head), prev := some head, numid := (s.tasks head).numid + 1 }) hnone rfl id
      (hplain (some head)) rfl rfl

theorem inv_runCheck (h : s.Inv) {c : CommitAddr} (hnone : ∀ cls, ¬(s.tasks c).stage.Awaits cls)
    (head : Option CommitAddr) : (s.runCheck c head).Inv := by
  rw [runCheck]
  split
  · refine h.goOn (u := { s.tasks c with stage := .rejected, confirm := .conflict }) hnone rfl (fun hconf => ?_)
      ⟨fun _ _ _ heq => (nomatch heq), fun heq => (nomatch heq), fun heq => (nomatch heq)⟩ rfl rfl
    rcases hconf with hconf | hconf <;> cases hconf
  · exact h.goOn (u := { s.tasks c with stage := .swapping head }) hnone rfl id
      ⟨fun _ _ _ heq => (nomatch heq), fun heq => (nomatch heq), fun heq => (nomatch heq)⟩ rfl rfl

theorem inv_runSwap (h : s.Inv) {c : CommitAddr} (hnone : ∀ cls, ¬(s.tasks c).stage.Awaits cls)
    (head : Option CommitAddr) : (s.runSwap c head).Inv := by
  rw [runSwap]
  split
  · exact h.goOn (u := { s.tasks c with stage := .pushed }) hnone rfl id
      ⟨fun _ _ _ heq => (nomatch heq), fun heq => (nomatch heq), fun heq => (nomatch heq)⟩ rfl rfl
  · exact h.goOn (u := { s.tasks c with stage := .inserting [] }) hnone rfl id
      ⟨fun _ _ _ heq => (nomatch heq), fun heq => (nomatch heq), fun heq => (nomatch heq)⟩ rfl rfl

theorem inv_runLog (h : s.Inv) {c : CommitAddr} (hnone : ∀ cls, ¬(s.tasks c).stage.Awaits cls) (ok : Bool) :
    (s.runLog c ok).Inv := by
  rw [runLog]
  split
  · exact h.confirm (u := { s.tasks c with stage := .accepted, confirm := .persistent }) hnone rfl (.inr rfl)
      (fun _ _ _ heq => (nomatch heq)) (fun heq => (nomatch heq)) rfl rfl
  · exact inv_reject h c

/-- **Every access keeps the invariant**, when insertions are undisturbed. -/
theorem inv_step (h : s.Inv) {a : Action} (hallowed : s.Undisturbed a) : (s.step a).Inv := by
  cases a with
  | importClass c name =>
      rw [step]
      split
      · rename_i hstage
        exact inv_runImport h hstage name
      · exact h
  | begin c =>
      rw [step]
      split
      · rename_i hstage
        exact inv_begin h hstage
      · exact h
  | scan c =>
      rw [step]
      split
      · rename_i cls todo hstage
        rw [Undisturbed, hstage] at hallowed
        exact inv_runScan h hstage hallowed
      · exact h
  | publish c =>
      rw [step]
      split
      · rename_i cls todo origHead hstage
        exact inv_runPublish h hstage
      · exact h
  | load c =>
      rw [step]
      split
      · rename_i hstage
        refine inv_runLoad h fun cls => ?_
        rw [hstage]
        exact List.not_mem_nil
      · exact h
  | check c =>
      rw [step]
      split
      · rename_i head hstage
        refine inv_runCheck h (fun cls => ?_) head
        rw [hstage]
        exact id
      · exact h
  | swap c =>
      rw [step]
      split
      · rename_i head hstage
        refine inv_runSwap h (fun cls => ?_) head
        rw [hstage]
        exact id
      · exact h
  | confirm c =>
      rw [step]
      split
      · rename_i hstage
        refine h.confirm (u := { s.tasks c with stage := .logging, confirm := .valid }) (fun cls => ?_) rfl (.inl rfl)
          (fun _ _ _ heq => (nomatch heq)) (fun heq => (nomatch heq)) rfl rfl
        rw [hstage]
        exact id
      · exact h
  | log c ok =>
      rw [step]
      split
      · rename_i hstage
        refine inv_runLog h (fun cls => ?_) ok
        rw [hstage]
        exact id
      · exact h
  | fail c =>
      rw [step]
      split
      · exact inv_reject h c
      · exact inv_reject h c
      · exact inv_reject h c
      · exact h

end Steps

end Registry

/-! ## (4) All interleavings -/

/-- Does the commit create a class of the name? -/
def ClassTask.Creates (self : ClassTask) (name : Name) : Prop := ∃ cls ∈ self.classes, cls.name = name

/-- **At most one commit that creates a class of a name is confirmed**, whatever the interleaving, and every
other such task that returns has failed; no insertion may start while an item of its name is pending. -/
theorem confirmed_unique {s₀ s : Registry} (h₀ : s₀.Idle)
    (h : Reaches Registry.step Registry.Undisturbed s₀ s) {name : Name} {c d : CommitAddr} (hne : c ≠ d)
    (hc : (s.tasks c).Creates name) (hd : (s.tasks d).Creates name) (hconfirmed : (s.tasks c).Confirmed) :
    ¬(s.tasks d).Confirmed ∧ (s.tasks d).stage ≠ .accepted := by
  have hinv : s.Inv := h.invariant h₀.inv fun _ _ hinv hallowed => Registry.inv_step hinv hallowed
  have hnot : ¬(s.tasks d).Confirmed := by
    intro hconfirmed'
    obtain ⟨cls, hcls, rfl⟩ := hc
    obtain ⟨cls', hcls', hname⟩ := hd
    -- both have a pending item of the name, so these belong to one commit
    obtain ⟨item, hitem, hkey, hphase, hstates⟩ := (hinv.tasks c).confirmed hconfirmed cls hcls
    obtain ⟨item', hitem', hkey', hphase', hstates'⟩ := (hinv.tasks d).confirmed hconfirmed' cls' hcls'
    rw [hname] at hitem' hkey'
    have hsame := hinv.unique cls.name item hitem item' hitem' hkey hphase hkey' hphase'
    rw [hstates, hstates'] at hsame
    exact hne (List.cons.inj hsame).1
  exact ⟨hnot, fun hstage => hnot ((hinv.tasks d).accepted hstage)⟩

/-- A repository without classes. -/
def Registry.empty : Registry where
  dict := kndSharedDictNew ClassAddr mediumDictSize
  head := none
  tasks := fun _ => {}
  nextClass := 1

theorem Registry.empty_idle : Registry.empty.Idle where
  dict _ := fun ⟨_, hitem, _⟩ => nomatch hitem
  tasks _ := rfl

/-- A task that creates the class `a` from its import to the journal. -/
def Registry.confirmActions (c : CommitAddr) : List Action :=
  [.begin c, .scan c, .publish c, .load c, .check c, .swap c, .confirm c, .log c true]

/-- Two tasks import the class `a` and look for it before either has registered it; the one that publishes its item
first is confirmed, the insertion of the other one finds the bucket changed. -/
theorem confirmed_unique_pair :
    let s := ([.importClass 0 [97], .importClass 1 [97], .begin 0, .begin 1, .scan 0, .scan 1, .publish 0, .publish 1,
      .load 0, .load 1, .check 0, .check 1, .swap 0, .swap 1, .confirm 0, .confirm 1, .log 0 true, .log 1 true] :
      List Action).foldl Registry.step Registry.empty
    (s.tasks 0).Confirmed ∧ ¬(s.tasks 1).Confirmed ∧ (s.tasks 1).stage ≠ .accepted := by
  intro s
  have hrun : Reaches Registry.step Registry.Undisturbed Registry.empty s :=
    Reaches.foldl .refl (by decide +kernel)
  have hconfirmed : (s.tasks 0).Confirmed := by decide +kernel
  have hfirst : (s.tasks 0).Creates [97] := ⟨⟨[97], 1⟩, by decide +kernel, rfl⟩
  have hsecond : (s.tasks 1).Creates [97] := ⟨⟨[97], 2⟩, by decide +kernel, rfl⟩
  exact ⟨hconfirmed, confirmed_unique Registry.empty_idle hrun (by decide) hfirst hsecond hconfirmed⟩

/-- **Two tasks import the class `a`** before either of them registers it, and are confirmed one after the
other: the second insertion tolerates the pending item of the first, and the check for conflicts looks at
the states of the item of its own commit only. -/
theorem confirmed_twice :
    let s := ([.importClass 0 [97], .importClass 1 [97]] ++ Registry.confirmActions 0
      ++ Registry.confirmActions 1 : List Action).foldl Registry.step Registry.empty
    (s.tasks 0).classes.map NewClass.name = [[97]] ∧ (s.tasks 1).classes.map NewClass.name = [[97]] ∧
      (s.tasks 0).confirm = .persistent ∧ (s.tasks 1).confirm = .persistent := by
  decide +kernel

end Knowdy
