import Knowdy.ConfirmAtomic
import Knowdy.RestoreOnce
import Knowdy.TaskRecords

/-! # Replaying records

When the replay of a record returns, and what it brings into the indices.

* `Indices.Takes` — what the body of a record needs to be replayed.
* `Drafted.admits` — the commit of such a body can be registered.
* `Indices.Reflects source bodies` — **the indices hold the classes of the source files and what the bodies have
  made, each once**.
* `kndApplyCommit_replays` — a replay returns and adds its body; `forM_kndApplyCommit_replays` — a whole traversal. -/

namespace Knowdy

variable {τ : Type}

/-! ## (1) What a record needs -/

/-- The names of the instances of a body, each after that of its class; instances without names are left out. -/
def namedInsts (body : List TaskItem) : List (Name × Name) :=
  ((bodyInsts body).map fun p => (p.1, p.2.name)).filter fun p => p.2 ≠ []

theorem mem_bodyInsts {body : List TaskItem} {p : Name × InstText} :
    p ∈ bodyInsts body ↔ ∃ texts, .selectClass p.1 texts ∈ body ∧ p.2 ∈ texts := by
  rw [bodyInsts, List.mem_flatMap]
  constructor
  · rintro ⟨item, hitem, hp⟩
    cases item with
    | importClass name clauses => cases hp
    | selectClass name texts =>
        obtain ⟨text, htext, rfl⟩ := List.mem_map.mp hp
        exact ⟨texts, hitem, htext⟩
  · rintro ⟨texts, hitem, hp⟩
    exact ⟨_, hitem, List.mem_map.mpr ⟨p.2, hp, rfl⟩⟩

theorem mem_createdNames {body : List TaskItem} {name : Name} :
    name ∈ createdNames body ↔ ∃ clauses, .importClass name clauses ∈ body := by
  rw [createdNames, List.mem_flatMap]
  constructor
  · rintro ⟨item, hitem, hname⟩
    cases item with
    | importClass name' clauses =>
        obtain rfl := List.mem_singleton.mp hname
        exact ⟨clauses, hitem⟩
    | selectClass name' texts => cases hname
  · rintro ⟨clauses, hitem⟩
    exact ⟨_, hitem, List.mem_singleton_self name⟩

/-- Elements that are related have the same image. -/
theorem map_eq_of_forall₂ {α β γ : Type} {R : α → β → Prop} {f : α → γ} {g : β → γ} {l : List α} {l' : List β}
    (h : List.Forall₂ R l l') (hfg : ∀ a, ∀ b ∈ l', R a b → f a = g b) : l.map f = l'.map g := by
  induction h with
  | nil => rfl
  | @cons a b l l' hab _ ih =>
      rw [List.map_cons, List.map_cons, hfg a b List.mem_cons_self hab,
        ih fun a' b' hb' => hfg a' b' (List.mem_cons_of_mem _ hb')]

/-- One class is selected by a name. -/
theorem Indices.Selects.unique {idx : Indices τ} {name : Name} {a b : ClassAddr} (h : idx.Selects name a)
    (h' : idx.Selects name b) : a = b := by
  rcases h with ⟨hroot, rfl⟩ | ⟨hroot, hfound⟩
  · rcases h' with ⟨-, rfl⟩ | ⟨hroot', -⟩
    · rfl
    · exact absurd hroot hroot'
  · rcases h' with ⟨hroot', -⟩ | ⟨-, hfound'⟩
    · exact absurd hroot' hroot
    · exact Option.some.inj (hfound.symm.trans hfound')

section Takes

variable [AttrVarOps τ]

/-- **What a body needs to be replayed**: its clauses can return, its classes and named instances are distinct, its
instances are listed once, in classes that can be found, and there is memory for the items of the name indices. -/
structure Indices.Takes (idx : Indices τ) (body : List TaskItem) : Prop where
  /-- The clauses. -/
  ready : ∀ item ∈ body, idx.Ready item
  /-- The new classes. -/
  nodup : (createdNames body).Nodup
  /-- None of them is the root class. -/
  unrooted : [47] ∉ createdNames body
  /-- The instances. -/
  listsOnce : ListsOnce body
  /-- Their names. -/
  names : (namedInsts body).Nodup
  /-- Their classes. -/
  classes : ∀ p ∈ bodyInsts body, p.1 ≠ [47]
  /-- Their attributes. -/
  attrs : ∀ p ∈ bodyInsts body, AttrsAccepted τ p.2.attrs
  /-- The memory. -/
  pages : (body.map TaskItem.pages).sum ≤ idx.pool.tinyPages

/-- An instance of such a body. -/
theorem Indices.Takes.inst {idx : Indices τ} {body : List TaskItem} (h : idx.Takes body) {p : Name × InstText}
    (hp : p ∈ bodyInsts body) : ∃ a, idx.classByName p.1 = some a ∧ (p.2.name = [] ∨ p.2.name ≠ [95] ∧
      p.2.name.length < nameSize ∧ idx.indexedInst a p.2.name = none) := by
  obtain ⟨texts, hitem, htext⟩ := mem_bodyInsts.mp hp
  obtain ⟨-, a, hselects, htexts⟩ := h.ready _ hitem
  rcases hselects with ⟨hroot, -⟩ | ⟨-, hfound⟩
  · exact absurd hroot (h.classes p hp)
  · exact ⟨a, hfound, htexts p.2 htext⟩

/-- Its name is not generated. -/
theorem Indices.Takes.plain {idx : Indices τ} {body : List TaskItem} (h : idx.Takes body) {p : Name × InstText}
    (hp : p ∈ bodyInsts body) : p.2.name ≠ [95] := by
  obtain ⟨-, -, hempty | ⟨hne, -⟩⟩ := h.inst hp
  · rw [hempty]
    exact (List.cons_ne_nil _ _).symm
  · exact hne

end Takes

/-! ## (2) The commit of a body can be registered -/

/-- Clauses leave the instances of the indices alone. -/
theorem Indices.Holds.parses {idx idx' : Indices τ} {insts : List ClassInst} (h : idx.Holds insts)
    (hp : idx.Parses idx') : idx'.Holds insts := by
  have hid : ∀ (idx : Indices τ) a id, idx.instById a id
      = (idx.classes a).body.instIdx.bind fun set => (kndSharedSetGet set id).toOption := by
    intro idx a id
    rw [Indices.instById, ClassEntry.body]
    cases (idx.classes a).cls <;> rfl
  have hname : ∀ (idx : Indices τ) a name, idx.indexedInst a name
      = (idx.classes a).body.instNameIdx.bind fun dict => kndSharedDictGet dict name := by
    intro idx a name
    rw [Indices.indexedInst, ClassEntry.body]
    cases (idx.classes a).cls <;> rfl
  -- a class that is not there yet has no instances
  have hnoId : ∀ a, idx.nextClass ≤ a → ∀ id, idx.instById a id = none := by
    intro a ha id
    cases hget : idx.instById a id with
    | none => rfl
    | some i =>
        obtain ⟨hi, rfl, -⟩ := (h.byId a id i).mp hget
        exact absurd (h.counted i hi).1 (Nat.not_lt.mpr ha)
  have hnoName : ∀ a, idx.nextClass ≤ a → ∀ name, idx.indexedInst a name = none := by
    intro a ha name
    cases hget : idx.indexedInst a name with
    | none => rfl
    | some i =>
        obtain ⟨hi, rfl, -⟩ := (h.byName a name i).mp hget
        exact absurd (h.counted i hi).1 (Nat.not_lt.mpr ha)
  refine h.congr (fun a id => ?_) (fun a name => ?_) hp.next hp.counts
  · by_cases ha : a < idx.nextClass
    · rw [hid, hid, (hp.idxs a ha).2]
    · rw [hnoId a (Nat.le_of_not_lt ha)]
      rcases hp.fresh a (Nat.le_of_not_lt ha) with ⟨-, hsame⟩ | ⟨-, hnone⟩
      · rw [hid, hsame, ← hid]
        exact hnoId a (Nat.le_of_not_lt ha) id
      · rw [hid, hnone]
        rfl
  · by_cases ha : a < idx.nextClass
    · rw [hname, hname, (hp.idxs a ha).1]
    · rw [hnoName a (Nat.le_of_not_lt ha)]
      rcases hp.fresh a (Nat.le_of_not_lt ha) with ⟨hsame, -⟩ | ⟨hnone, -⟩
      · rw [hname, hsame, ← hname]
        exact hnoName a (Nat.le_of_not_lt ha) name
      · rw [hname, hnone]
        rfl

/-- Clauses leave the names of the instances alone. -/
theorem Indices.Parses.nameTaken_iff {idx idx' : Indices τ} (h : idx.Parses idx') {a : ClassAddr}
    (ha : a < idx.nextClass) (name : Name) : idx'.NameTaken a name ↔ idx.NameTaken a name := by
  rw [NameTaken, NameTaken, Class.nameDict, Class.nameDict, (h.idxs a ha).1]

namespace Drafted

variable {s₀ s : Sys τ} {body : List TaskItem}

/-- The text of an instance that was imported. -/
theorem text_of_inst (h : Drafted s₀ s body) {i : ClassInst} (hi : i ∈ s.task.classInstStateRefs) :
    ∃ p ∈ bodyInsts body, s₀.idx.Selects p.1 i.blueprint ∧ i.attrs = p.2.attrs ∧ p.2.Names i.name :=
  exists_of_forall₂ h.insts (List.mem_reverse.mpr hi)

/-- The children of a class state were imported. -/
theorem child (h : Drafted s₀ s body) (hlists : ListsOnce body) {ref : ClassStateRef} (href : ref ∈ s.refs)
    {i : ClassInst} (hi : i ∈ ref.children) : i ∈ s.task.classInstStateRefs ∧ i.blueprint = ref.entry := by
  obtain ⟨hall, hblueprint⟩ := h.children hlists
  refine ⟨?_, hblueprint ref href i hi⟩
  rw [← hall]
  exact List.mem_flatMap.mpr ⟨ref, href, hi⟩

/-- **What the instances come to.** -/
theorem effects (h : Drafted s₀ s body) (hn : s₀.idx.Named) :
    s.task.classInstStateRefs.reverse.map (fun i => ((s₀.idx.classes i.blueprint).name, i.name, i.attrs))
      = instEffects body := by
  refine map_eq_of_forall₂ h.insts fun i p _ hi => ?_
  obtain ⟨hselects, hattrs, hnames⟩ := hi
  rw [(hn.selects hselects).2.1, hnames.eq_finalName, hattrs]

variable [AttrVarOps τ]

/-- The instances differ from each other. -/
theorem apart (h : Drafted s₀ s body) (hn : s₀.idx.Named) (ht : s₀.idx.Takes body) :
    s.task.classInstStateRefs.Pairwise ClassInst.Apart := by
  set f : ClassInst → Name × Name := fun i => ((s₀.idx.classes i.blueprint).name, i.name) with hf
  -- no name is generated, so the instances have the names of their texts
  have hmap : s.task.classInstStateRefs.reverse.map f = (bodyInsts body).map fun p => (p.1, p.2.name) := by
    refine map_eq_of_forall₂ h.insts fun i p hp hi => ?_
    obtain ⟨hselects, -, hnames⟩ := hi
    rw [hf]
    exact Prod.ext (hn.selects hselects).2.1 (hnames.eq_name (ht.plain hp))
  have hnames := ht.names
  rw [namedInsts, ← hmap, List.Nodup, List.pairwise_filter, List.pairwise_map, List.pairwise_reverse] at hnames
  refine (h.distinct.and hnames).imp fun {i j} hij hsame => ⟨(hij.1 hsame).ne', fun hne heq => ?_⟩
  refine hij.2 ?_ ?_ ?_
  · exact decide_eq_true (heq ▸ hne : j.name ≠ [])
  · exact decide_eq_true hne
  · exact Prod.ext (congrArg (fun a => (s₀.idx.classes a).name) hsame.symm) heq.symm

/-- **The commit of a body that can be replayed can be registered.** -/
theorem admits (h : Drafted s₀ s body) (hn : s₀.idx.Named) {old : List ClassInst} (hholds : s₀.idx.Holds old)
    (ht : s₀.idx.Takes body) : s.idx.Admits old s.refs where
  holds := hholds.parses h.parsing.idx
  tidy ref href := ⟨fun hphase => (h.created ref href hphase).1, fun i hi => (h.child ht.listsOnce href hi).2⟩
  free ref href hphase := by
    obtain ⟨-, -, -, clauses, hitem, -⟩ := h.created ref href hphase
    have hnone := (h.free _ (mem_createdNames.mpr ⟨clauses, hitem⟩)).2
    rw [← h.parsing.idx.classByName_eq] at hnone
    exact not_taken_of_get hnone
  found ref href hne := by
    obtain ⟨i, hi⟩ := List.exists_mem_of_ne_nil _ hne
    obtain ⟨hi', hblueprint⟩ := h.child ht.listsOnce href hi
    obtain ⟨p, hp, hselects, -⟩ := h.text_of_inst hi'
    rw [hblueprint] at hselects
    obtain ⟨hlt, hname, hcls⟩ := hn.selects hselects
    obtain ⟨a, hfound, -⟩ := ht.inst hp
    refine ⟨h.parsing.idx.isSome _ hlt hcls, ?_⟩
    rw [h.parsing.idx.names _ hlt, hname, h.parsing.idx.classByName_eq, hfound]
    exact Option.some_ne_none a
  insts ref href i hi := by
    obtain ⟨hi', hblueprint⟩ := h.child ht.listsOnce href hi
    obtain ⟨p, hp, -, hattrs, -⟩ := h.text_of_inst hi'
    rw [hattrs, ← hblueprint]
    exact ⟨(h.numbers i hi').2, ht.attrs p hp⟩
  entries ref href := h.entry_lt hn href
  apart := by
    rw [(h.children ht.listsOnce).1]
    refine List.pairwise_append.mpr ⟨hholds.apart, h.apart hn ht, fun j hj i hi hsame => ⟨?_, fun hne heq => ?_⟩⟩
    · -- the number of the new instance is behind those of the class
      have hle := (hholds.counted j hj).2
      rw [hsame] at hle
      exact Nat.ne_of_lt (lt_of_le_of_lt hle (h.numbers i hi).1)
    · obtain ⟨p, hp, hselects, -, hnames⟩ := h.text_of_inst hi
      have hname := hnames.eq_name (ht.plain hp)
      obtain ⟨a, hfound, hempty | ⟨-, -, hfree⟩⟩ := ht.inst hp
      · exact hne (heq.trans (hname.trans hempty))
      · -- its name is not found in the class
        have ha : a = i.blueprint := Indices.Selects.unique (.inr ⟨ht.classes p hp, hfound⟩) hselects
        rw [ha, ← hname, ← heq, ← hsame, (hholds.byName _ _ j).mpr ⟨hj, rfl, rfl, hne⟩] at hfree
        cases hfree
  pages := by
    rw [h.parsing.idx.rest.2.2.2]
    exact ((h.cost ht.listsOnce fun p hp => ht.plain hp).2).trans ht.pages

end Drafted

/-! ## (3) The replay of one commit -/

section Replay

variable [AttrVarOps τ]

/-- **An instance of a class with a body resolves** by setting its flag; it is refused only for its attributes, which
are then not accepted. -/
theorem resolveInst_cases {i : ClassInst} {s : Sys τ} (hcls : (s.idx.classes i.blueprint).cls.isSome = true) :
    ∃ resolved, (resolveInst i).run s = .ok () { s with resolved } ∨
      ¬AttrsAccepted τ i.attrs ∧ ∃ e, (resolveInst i).run s = .error e { s with resolved } := by
  have hunfold : (resolveInst i).run s
      = (if s.resolved i.addr then pure () else kndClassInstResolve i : SysM τ Unit).run s := rfl
  rw [hunfold]
  by_cases hflag : s.resolved i.addr = true
  · rw [if_pos hflag]
    exact ⟨s.resolved, .inl rfl⟩
  · rw [if_neg hflag, kndClassInstResolve, run_bind_of_ok (run_acquire_of_body hcls)]
    -- the attributes are looked at when there are any
    have hattrs : ((if i.attrs ≠ [] then resolveInstAttrs i else pure ()) : SysM τ Unit).run s = .ok () s ∨
        ¬AttrsAccepted τ i.attrs ∧
          ∃ e, ((if i.attrs ≠ [] then resolveInstAttrs i else pure ()) : SysM τ Unit).run s = .error e s := by
      by_cases hempty : i.attrs = []
      · rw [if_neg (not_not_intro hempty)]
        exact .inl rfl
      · rw [if_pos hempty, run_resolveInstAttrs]
        cases hresolve : AttrVarOps.resolveAttrVars s.idx.texts i with
        | ok u => exact .inl rfl
        | error e =>
            refine .inr ⟨fun haccepted => ?_, _, rfl⟩
            have hok := (haccepted hempty s.idx.texts i rfl).1
            rw [hresolve] at hok
            cases hok
    rcases hattrs with hok | ⟨hrefused, e, herr⟩
    · rw [run_bind_of_ok hok]
      exact ⟨Function.update s.resolved i.addr true, .inl rfl⟩
    · rw [run_bind_of_error herr]
      exact ⟨s.resolved, .inr ⟨hrefused, e, rfl⟩⟩

/-- **Instances resolve** in classes with bodies, however it ends: only flags are set, and it returns when their
attributes are accepted. -/
theorem resolveInsts_cases {insts : List ClassInst} {s : Sys τ}
    (h : ∀ i ∈ insts, (s.idx.classes i.blueprint).cls.isSome = true) :
    ∃ resolved, (insts.forM resolveInst).run s = .ok () { s with resolved } ∨
      ¬(∀ i ∈ insts, AttrsAccepted τ i.attrs) ∧
        ∃ e, (insts.forM resolveInst).run s = .error e { s with resolved } := by
  induction insts generalizing s with
  | nil => exact ⟨s.resolved, .inl rfl⟩
  | cons i insts ih =>
      obtain ⟨resolved, hok | ⟨hrefused, e, herr⟩⟩ := resolveInst_cases (h i List.mem_cons_self)
      · have hgo : ((i :: insts).forM resolveInst).run s = (insts.forM resolveInst).run { s with resolved } :=
          run_bind_of_ok hok
        rw [hgo]
        obtain ⟨resolved', hothers | ⟨hrefused, hothers⟩⟩ :=
          @ih { s with resolved } fun j hj => h j (List.mem_cons_of_mem _ hj)
        · exact ⟨resolved', .inl hothers⟩
        · exact ⟨resolved', .inr ⟨fun hall => hrefused fun j hj => hall j (List.mem_cons_of_mem _ hj), hothers⟩⟩
      · have hstop : ((i :: insts).forM resolveInst).run s = .error e { s with resolved } := run_bind_of_error herr
        exact ⟨resolved, .inr ⟨fun hall => hrefused (hall i List.mem_cons_self), e, hstop⟩⟩

/-- **They all resolve** when their attributes are accepted. -/
theorem resolveInsts_returns {insts : List ClassInst} {s : Sys τ} (h : ∀ i ∈ insts,
    (s.idx.classes i.blueprint).cls.isSome = true ∧ AttrsAccepted τ i.attrs) :
    ∃ resolved, (insts.forM resolveInst).run s = .ok () { s with resolved } := by
  obtain ⟨resolved, hok | ⟨hrefused, -⟩⟩ := resolveInsts_cases fun i hi => (h i hi).1
  · exact ⟨resolved, hok⟩
  · exact absurd (fun i hi => (h i hi).2) hrefused

/-- **A confirmation in another role than ARBITER** resolves the commit and exports it, if the export fits. -/
theorem kndConfirmCommit_returns {s : Sys τ} {c : CommitAddr} (hcommit : s.task.commit = some c)
    (hrole : s.task.role ≠ .arbiter) (h : ∀ i ∈ (s.ledger.commits c).insts,
      (s.idx.classes i.blueprint).cls.isSome = true ∧ AttrsAccepted τ i.attrs)
    (hsize : exportSize s.name s.record < largeBufSize) :
    ∃ resolved, kndConfirmCommit.run s = .ok () { s with resolved } := by
  obtain ⟨resolved, hresolve⟩ := resolveInsts_returns h
  rw [run_kndConfirmCommit hcommit, run_bind_of_ok ((run_kndResolveCommit c s).trans hresolve)]
  refine ⟨resolved, ?_⟩
  rw [Sys.record, Sys.refs_of_commit hcommit] at hsize
  -- the record of the commit fits into the buffer
  have hexport : (exportCommitGSL c).run { s with resolved }
      = .ok ((s.ledger.commits c).classStateRefs.map (exportClassState s.idx)) { s with resolved } := by
    have hunfold : (exportCommitGSL c).run { s with resolved }
        = if exportSize s.name ((s.ledger.commits c).classStateRefs.map (exportClassState s.idx)) < largeBufSize
          then .ok ((s.ledger.commits c).classStateRefs.map (exportClassState s.idx)) { s with resolved }
          else .error (.err .nomem) { s with resolved } := rfl
    rw [hunfold, if_pos hsize]
  have hgo : (exportCommitGSL c >>= fun _ => pure () : SysM τ Unit).run { s with resolved }
      = .ok () { s with resolved } := run_bind_of_ok hexport
  cases hr : s.task.role with
  | arbiter => exact absurd hr hrole
  | reader => exact hgo
  | writer => exact hgo

/-- **What a replay comes to**: the class states of the body were made as in a live task, and are registered. -/
structure Replayed (c : CommitAddr) (old : List ClassInst) (s s₁ s' : Sys τ) : Prop where
  /-- The body. -/
  drafted : Drafted (startApply c s) s₁ (s.ledger.commits c).record
  /-- The names of the classes. -/
  binds : s₁.idx.Binds s₁.refs s'.idx
  /-- The new classes. -/
  bound : ∀ ref ∈ s₁.refs, ref.phase = .created → s'.idx.classByName (s₁.idx.classes ref.entry).name ≠ none
  /-- The instances. -/
  holds : s'.idx.Holds (old ++ s₁.task.classInstStateRefs)
  /-- Their names are taken. -/
  taken : ∀ i ∈ s₁.task.classInstStateRefs, i.name ≠ [] → s'.idx.NameTaken i.blueprint i.name
  /-- The text index. -/
  texts : (s₁.task.classInstStateRefs.forM indexTexts).run s.idx.texts = .ok () s'.idx.texts
  /-- The memory. -/
  pages : s.idx.pool.tinyPages
    ≤ s'.idx.pool.tinyPages + ((s.ledger.commits c).record.map TaskItem.pages).sum
  /-- The repository. -/
  name : s'.name = s.name

/-- **A replay returns** for a body that can be replayed: in another role than ARBITER when its export fits, and in
every role when it creates no class. -/
theorem kndApplyCommit_replays {c : CommitAddr} {s : Sys τ} {old : List ClassInst} (hn : s.idx.Named)
    (hreader : s.snapshot.role ≠ .reader) (hholds : s.idx.Holds old) (hrefs : (s.ledger.commits c).classStateRefs = [])
    (ht : s.idx.Takes (s.ledger.commits c).record)
    (hquiet : s.task.role ≠ .arbiter ∧ exportSize s.name (s.ledger.commits c).record < largeBufSize ∨
      createsClass (s.ledger.commits c).record = false) :
    ∃ s₁ s', (kndApplyCommit c).run s = .ok () s' ∧ Replayed c old s s₁ s' := by
  set body := (s.ledger.commits c).record with hbodyDef
  set s₀ := startApply c s with hs₀
  have h₀ : Drafted s₀ s₀ [] := .nil rfl rfl hrefs
  have hn₀ : s₀.idx.Named := hn
  obtain ⟨s₁, hbody, hcommit⟩ := @body_returns τ nestedRestore s₀ body c hn₀ hreader rfl h₀ ht.ready ht.nodup
  have hdrafted := drafted_body hn₀ hreader h₀ hbody
  have hadmits := hdrafted.admits hn₀ hholds ht
  have hinsts : (s₁.ledger.commits c).insts = s₁.task.classInstStateRefs := by
    rw [Commit.insts, ← Sys.refs_of_commit hcommit]
    exact (hdrafted.children ht.listsOnce).1
  have hresolves : ∀ i ∈ (s₁.ledger.commits c).insts,
      (s₁.idx.classes i.blueprint).cls.isSome = true ∧ AttrsAccepted τ i.attrs := by
    rw [hinsts]
    intro i hi
    obtain ⟨p, hp, hselects, hattrs, -⟩ := hdrafted.text_of_inst hi
    obtain ⟨hlt, -, hcls⟩ := hn₀.selects hselects
    rw [hattrs]
    exact ⟨hdrafted.parsing.idx.isSome _ hlt hcls, ht.attrs p hp⟩
  -- a confirmation only exports the commit
  have hfinish : ∃ resolved, finishTask.run s₁ = .ok () { s₁ with resolved } := by
    rw [run_finishTask]
    by_cases htype : s₁.task.type = .commit
    · rw [if_pos htype]
      rcases hquiet with ⟨hrole, hsize⟩ | hnone
      · refine kndConfirmCommit_returns hcommit ?_ hresolves ?_
        · rw [hdrafted.parsing.role]
          exact hrole
        · have hcost := (hdrafted.cost ht.listsOnce fun p hp => ht.plain hp).1
          rw [hdrafted.parsing.name]
          refine lt_of_le_of_lt ?_ hsize
          rw [exportSize, exportSize]
          show _ + s.name.length + _ + _ ≤ _
          omega
      · -- without a new class the task stays a restore
        have hcreated : createdNames body = [] := by
          rw [List.eq_nil_iff_forall_not_mem]
          intro name hname
          obtain ⟨clauses, hitem⟩ := mem_createdNames.mp hname
          have hcreates := List.any_eq_false.mp hnone _ hitem
          exact hcreates rfl
        rw [hdrafted.type rfl hcreated] at htype
        cases htype
    · rw [if_neg htype]
      exact ⟨s₁.resolved, rfl⟩
  obtain ⟨resolved₂, hfinish⟩ := hfinish
  obtain ⟨resolved₃, hresolve⟩ := @resolveInsts_returns τ _ _ { s₁ with resolved := resolved₂ } hresolves
  obtain ⟨idx', hupdate, hholds', htexts, hpages⟩ := updateIndices_returns c hadmits
  rw [(hdrafted.children ht.listsOnce).1] at hholds' htexts
  set s₃ : Sys τ := { s₁ with resolved := resolved₃ } with hs₃
  have hindices : (updateCommitIndices c).run s₃ = .ok () (s₃.setIdx idx') := by
    have hunfold : (updateCommitIndices c).run s₃
        = (onIdx (updateIndices c (s₁.ledger.commits c).classStateRefs)).run s₃ := rfl
    rw [Sys.refs_of_commit hcommit] at hupdate
    rw [hunfold]
    exact run_zoom_eq_ok.mpr ⟨idx', hupdate, rfl⟩
  set s' := finalState (applyPush c) (s₃.setIdx idx') with hs'
  have hpush : (applyPush c).run (s₃.setIdx idx') = .ok () s' := rfl
  have hregistered := updateIndices_ok hadmits.tidy hupdate
  refine ⟨s₁, s', ?_, hdrafted, (binds_updateIndices c s₁.refs).of_ok hupdate, ?_, hholds', ?_, ?_, ?_, ?_⟩
  · rw [run_kndApplyCommit, replay, kndParseTask_eq, bind_assoc, run_bind_of_ok hbody, run_bind_of_ok hfinish,
      run_bind_of_ok ((run_kndResolveCommit c _).trans hresolve), run_bind_of_ok hindices, hpush]
  · exact fun ref href hphase => hregistered.2 ref href (.inl hphase)
  · rw [← (hdrafted.children ht.listsOnce).1]
    exact hregistered.1.taken
  · have hsame : s₁.idx.texts = s.idx.texts := hdrafted.parsing.idx.rest.2.2.1
    rw [← hsame]
    exact htexts
  · have hpool : s₁.idx.pool = s.idx.pool := hdrafted.parsing.idx.rest.2.2.2
    have hcost := (hdrafted.cost ht.listsOnce fun p hp => ht.plain hp).2
    rw [hpool] at hpages
    show _ ≤ idx'.pool.tinyPages + (body.map TaskItem.pages).sum
    omega
  · exact hdrafted.parsing.name

end Replay

/-! ## (4) The replay of all records -/

/-- The tiny pages that a body takes in the name indices. -/
def bodyPages (body : List TaskItem) : Nat := (body.map TaskItem.pages).sum

/-- What an instance comes to in the indices: the name of its class, its own name and its attributes. -/
def Indices.effect (idx : Indices τ) (i : ClassInst) : Name × Name × List Name :=
  ((idx.classes i.blueprint).name, i.name, i.attrs)

/-- The body gives a new class its clauses. -/
theorem clauses_unique {body : List TaskItem} (h : (createdNames body).Nodup) {name : Name}
    {clauses clauses' : List Name} (hitem : .importClass name clauses ∈ body)
    (hitem' : .importClass name clauses' ∈ body) : clauses = clauses' := by
  induction body with
  | nil => cases hitem
  | cons item body ih =>
      have hsplit : createdNames (item :: body) = item.created ++ createdNames body := List.flatMap_cons
      rw [hsplit, List.nodup_append'] at h
      obtain ⟨-, hbody, hdisjoint⟩ := h
      rcases List.mem_cons.mp hitem with rfl | hmem
      · rcases List.mem_cons.mp hitem' with heq | hmem'
        · cases heq
          rfl
        · exact absurd (mem_createdNames.mpr ⟨_, hmem'⟩) (hdisjoint (List.mem_singleton_self name))
      · rcases List.mem_cons.mp hitem' with rfl | hmem'
        · exact absurd (mem_createdNames.mpr ⟨_, hmem⟩) (hdisjoint (List.mem_singleton_self name))
        · exact ih hbody hmem hmem'

namespace Drafted

variable {s₀ s : Sys τ} {body : List TaskItem} {idx' : Indices τ}

/-- The name of a new class. -/
theorem name_of_created (h : Drafted s₀ s body) {ref : ClassStateRef} (href : ref ∈ s.refs)
    (hphase : ref.phase = .created) : (s.idx.classes ref.entry).name ∈ createdNames body := by
  obtain ⟨-, -, -, clauses, hitem, -⟩ := h.created ref href hphase
  exact mem_createdNames.mpr ⟨clauses, hitem⟩

/-- The class state of a new class. -/
theorem exists_created (h : Drafted s₀ s body) {name : Name} (hname : name ∈ createdNames body) :
    ∃ ref ∈ s.refs, ref.phase = .created ∧ (s.idx.classes ref.entry).name = name := by
  rw [← List.mem_reverse, ← h.recordCreated, Sys.record, createdNames, List.mem_flatMap] at hname
  obtain ⟨item, hitem, hname⟩ := hname
  obtain ⟨ref, href, rfl⟩ := List.mem_map.mp hitem
  cases hphase : ref.phase with
  | created =>
      simp only [exportClassState, hphase, TaskItem.created, List.mem_singleton] at hname
      exact ⟨ref, href, hphase, hname.symm⟩
  | selected =>
      simp only [exportClassState, hphase, TaskItem.created] at hname
      cases hname

/-- **A name that was bound before the task stays bound to its class.** -/
theorem bound (h : Drafted s₀ s body) (hbinds : s.idx.Binds s.refs idx') {name : Name} {a : ClassAddr}
    (ha : s₀.idx.classByName name = some a) : idx'.classByName name = some a := by
  rw [hbinds.others fun ref href hphase heq => ?_, h.parsing.idx.classByName_eq, ha]
  have hnone := (h.free _ (h.name_of_created href hphase)).2
  rw [heq, ha] at hnone
  cases hnone

/-- A name that is bound after the task. -/
theorem bound_cases (h : Drafted s₀ s body) (hbinds : s.idx.Binds s.refs idx') {name : Name} {a : ClassAddr}
    (ha : idx'.classByName name = some a) : s₀.idx.classByName name = some a ∨
      ∃ ref ∈ s.refs, ref.phase = .created ∧ (s.idx.classes ref.entry).name = name ∧ ref.entry = a := by
  rcases hbinds.bound name with heq | ⟨ref, href, hphase, hname, hbound⟩
  · rw [heq, h.parsing.idx.classByName_eq] at ha
    exact .inl ha
  · rw [hbound] at ha
    exact .inr ⟨ref, href, hphase, hname, Option.some.inj ha⟩

/-- **The classes can still be found by their names.** -/
theorem named (h : Drafted s₀ s body) (hn : s₀.idx.Named) (hbinds : s.idx.Binds s.refs idx')
    (hroot : [47] ∉ createdNames body) : idx'.Named := by
  have hn₁ := h.parsing.idx.named hn
  have hkeeps := hbinds.keeps
  refine ⟨fun name a ha => ?_, ?_, ?_⟩
  · rw [hkeeps.next.1, hkeeps.names, hkeeps.isSome_eq]
    rcases h.bound_cases hbinds ha with hold | ⟨ref, href, hphase, hname, rfl⟩
    · rw [← h.parsing.idx.classByName_eq] at hold
      exact hn₁.found name a hold
    · obtain ⟨-, -, hlt, clauses, -, hcls⟩ := h.created ref href hphase
      exact ⟨hlt, hname, by rw [hcls]; rfl⟩
  · rw [hkeeps.next.1, hkeeps.names, hkeeps.isSome_eq]
    exact hn₁.root
  · rw [hbinds.others fun ref href hphase heq => ?_]
    · exact hn₁.unbound
    · rw [← heq] at hroot
      exact hroot (h.name_of_created href hphase)

end Drafted

section Records

variable [AttrVarOps τ]

/-- **What a record needs for itself to be replayed**: plain names, and instances that are listed once in classes other
than the root class and with attributes that are accepted. -/
structure Recorded (τ : Type) [AttrVarOps τ] (body : List TaskItem) : Prop where
  /-- The new classes. -/
  created : ∀ name ∈ createdNames body, name ≠ [] ∧ name ≠ [47]
  /-- The selected classes. -/
  selected : ∀ name ∈ selectedNames body, name.length < nameSize
  /-- The instances are listed once. -/
  listsOnce : ListsOnce body
  /-- The instances. -/
  insts : ∀ p ∈ bodyInsts body, p.1 ≠ [47] ∧ p.2.name ≠ [95] ∧ p.2.name.length < nameSize ∧
    AttrsAccepted τ p.2.attrs

/-- **Bodies that can be replayed into the indices of the source files**, if each selects classes that are there. -/
structure Indices.Replayable (source : Indices τ) (bodies : List (List TaskItem)) : Prop where
  /-- Each body. -/
  each : ∀ body ∈ bodies, Recorded τ body
  /-- No class is created twice. -/
  nodup : (bodies.flatMap createdNames).Nodup
  /-- None is a class of the source files. -/
  free : ∀ name ∈ bodies.flatMap createdNames, source.classByName name = none
  /-- No name is given twice in a class. -/
  named : (bodies.flatMap namedInsts).Nodup

theorem Indices.Replayable.perm {source : Indices τ} {bodies bodies' : List (List TaskItem)}
    (h : source.Replayable bodies) (hperm : bodies.Perm bodies') : source.Replayable bodies' where
  each body hbody := h.each body (hperm.mem_iff.mpr hbody)
  nodup := ((hperm.flatMap_right _).nodup_iff).mp h.nodup
  free name hname := h.free name ((hperm.flatMap_right _).mem_iff.mpr hname)
  named := ((hperm.flatMap_right _).nodup_iff).mp h.named

/-- **The indices reflect the bodies**: they hold the classes of the source files and those that the bodies create, each
with its clauses, and the instances of the bodies, each once; the text index comes from these instances. -/
structure Indices.Reflects (idx source : Indices τ) (bodies : List (List TaskItem)) : Prop where
  /-- The classes of the source files. -/
  kept : ∀ name a, source.classByName name = some a → idx.classByName name = some a ∧
    (idx.classes a).body.clauses = (source.classes a).body.clauses
  /-- The classes of the bodies. -/
  created : ∀ body ∈ bodies, ∀ name clauses, .importClass name clauses ∈ body →
    ∃ a, idx.classByName name = some a ∧ (idx.classes a).body.clauses = clauses
  /-- There are no other classes. -/
  only : ∀ name a, idx.classByName name = some a →
    source.classByName name = some a ∨ name ∈ bodies.flatMap createdNames
  /-- No class comes from two places. -/
  once : (bodies.flatMap createdNames).Nodup ∧
    ∀ name ∈ bodies.flatMap createdNames, source.classByName name = none
  /-- The instances. -/
  insts : ∃ insts, idx.Holds insts ∧
    (∀ i ∈ insts, idx.classByName (idx.classes i.blueprint).name = some i.blueprint) ∧
    (insts.map idx.effect).Perm (bodies.flatMap instEffects) ∧
    (insts.forM indexTexts).run source.texts = .ok () idx.texts

/-- **A restore that has replayed the bodies `done`.** -/
structure Restoring (source : Indices τ) (done : List (List TaskItem)) (s : Sys τ) : Prop where
  /-- The names of the classes. -/
  named : s.idx.Named
  /-- What is there. -/
  reflects : s.idx.Reflects source done
  /-- The names of the instances are taken. -/
  taken : ∀ a name, s.idx.indexedInst a name ≠ none → s.idx.NameTaken a name
  /-- The memory that is left. -/
  pages : source.pool.tinyPages ≤ s.idx.pool.tinyPages + (done.map bodyPages).sum
  /-- The role of the snapshot. -/
  reader : s.snapshot.role ≠ .reader

omit [AttrVarOps τ] in
theorem mem_namedInsts {body : List TaskItem} {p : Name × InstText} (hp : p ∈ bodyInsts body) (hname : p.2.name ≠ []) :
    (p.1, p.2.name) ∈ namedInsts body := by
  rw [namedInsts, List.mem_filter]
  exact ⟨List.mem_map.mpr ⟨p, hp, rfl⟩, decide_eq_true hname⟩

/-- An instance that the indices hold comes from one of the bodies. -/
theorem Indices.Reflects.exists_text {idx source : Indices τ} {bodies : List (List TaskItem)}
    (h : idx.Reflects source bodies) {a : ClassAddr} {name : Name} {i : ClassInst}
    (hi : idx.indexedInst a name = some i) : name ≠ [] ∧ idx.classByName (idx.classes a).name = some a ∧
      ∃ body ∈ bodies, ∃ p ∈ bodyInsts body, p.1 = (idx.classes a).name ∧ p.2.finalName = name := by
  obtain ⟨insts, hholds, hfound, hperm, -⟩ := h.insts
  obtain ⟨hmem, rfl, rfl, hne⟩ := (hholds.byName _ _ _).mp hi
  refine ⟨hne, hfound i hmem, ?_⟩
  have heffect : idx.effect i ∈ bodies.flatMap instEffects :=
    hperm.mem_iff.mp (List.mem_map_of_mem hmem)
  obtain ⟨body, hbody, heffect⟩ := List.mem_flatMap.mp heffect
  obtain ⟨p, hp, heq⟩ := List.mem_map.mp heffect
  exact ⟨body, hbody, p, hp, congrArg Prod.fst heq, congrArg (fun e => e.2.1) heq⟩

namespace Restoring

variable {source : Indices τ} {done rest : List (List TaskItem)} {body : List TaskItem} {s : Sys τ}

/-- Before the first replay. -/
theorem start (hn : source.Named) (hbare : source.Holds []) (hidx : s.idx = source)
    (hreader : s.snapshot.role ≠ .reader) : Restoring source [] s := by
  subst hidx
  have hreflects : s.idx.Reflects s.idx [] := ⟨fun name a ha => ⟨ha, rfl⟩, fun _ h => (nomatch h),
    fun name a ha => .inl ha, ⟨.nil, fun _ h => (nomatch h)⟩, ⟨[], hbare, fun _ h => (nomatch h), .nil, rfl⟩⟩
  refine ⟨hn, hreflects, fun a name hne => ?_, le_rfl, hreader⟩
  obtain ⟨i, hi⟩ := Option.ne_none_iff_exists'.mp hne
  obtain ⟨hmem, -⟩ := (hbare.byName a name i).mp hi
  cases hmem

/-- A new class of the next body is not there yet. -/
theorem created_free (h : Restoring source done s) (hr : source.Replayable (done ++ body :: rest)) {name : Name}
    (hname : name ∈ createdNames body) : s.idx.classByName name = none := by
  have hnodup := hr.nodup
  rw [List.flatMap_append, List.flatMap_cons, List.nodup_append'] at hnodup
  cases hfound : s.idx.classByName name with
  | none => rfl
  | some a =>
      -- a class that is there comes from the source files or from a body before
      rcases h.reflects.only name a hfound with hsource | hdone
      · have hfree := hr.free name (List.mem_flatMap.mpr ⟨body, by simp, hname⟩)
        rw [hsource] at hfree
        cases hfree
      · exact absurd (List.mem_append_left _ hname) (hnodup.2.2 hdone)

/-- A class that the next body selects can be found. -/
theorem selects (h : Restoring source done s) {name : Name} (hname : name = [47] ∨ source.classByName name ≠ none ∨
    name ∈ done.flatMap createdNames) : ∃ a, s.idx.Selects name a := by
  by_cases hroot : name = [47]
  · exact ⟨rootClass, .inl ⟨hroot, rfl⟩⟩
  · -- classes of the source files and of bodies before are both found by name
    rcases hname.resolve_left hroot with hsource | hdone
    · obtain ⟨a, ha⟩ := Option.ne_none_iff_exists'.mp hsource
      exact ⟨a, .inr ⟨hroot, (h.reflects.kept name a ha).1⟩⟩
    · obtain ⟨b, hb, hcreated⟩ := List.mem_flatMap.mp hdone
      obtain ⟨clauses, hitem⟩ := mem_createdNames.mp hcreated
      obtain ⟨a, ha, -⟩ := h.reflects.created b hb name clauses hitem
      exact ⟨a, .inr ⟨hroot, ha⟩⟩

/-- An instance of the next body is not there yet. -/
theorem inst_free (h : Restoring source done s) (hr : source.Replayable (done ++ body :: rest)) {a : ClassAddr}
    {p : Name × InstText} (hp : p ∈ bodyInsts body) (ha : s.idx.classByName p.1 = some a) :
    s.idx.indexedInst a p.2.name = none := by
  cases hfound : s.idx.indexedInst a p.2.name with
  | none => rfl
  | some i =>
      exfalso
      obtain ⟨hne, -, b, hb, q, hq, hclass, hname⟩ := h.reflects.exists_text hfound
      have hplain : q.2.name ≠ [95] := ((hr.each b (List.mem_append_left _ hb)).insts q hq).2.1
      rw [InstText.finalName, if_neg hplain] at hname
      rw [(h.named.found p.1 a ha).2.1] at hclass
      have hnodup := hr.named
      rw [List.flatMap_append, List.flatMap_cons, List.nodup_append'] at hnodup
      refine hnodup.2.2 (List.mem_flatMap.mpr ⟨b, hb, ?_⟩) (List.mem_append_left _ (mem_namedInsts hp hne))
      rw [← hclass, ← hname]
      exact mem_namedInsts hq (hname ▸ hne)

/-- **The next body can be replayed.** -/
theorem takes (h : Restoring source done s) (hr : source.Replayable (done ++ body :: rest))
    (hselects : ∀ name ∈ selectedNames body, name = [47] ∨ source.classByName name ≠ none ∨
      name ∈ done.flatMap createdNames)
    (hpages : ((done ++ [body]).map bodyPages).sum ≤ source.pool.tinyPages) : s.idx.Takes body := by
  have hrecorded := hr.each body (by simp)
  -- what the clauses need comes from the record, the rest from the body being a new one
  refine ⟨fun item hitem => ?_, ?_, fun hroot => (hrecorded.created _ hroot).2 rfl, hrecorded.listsOnce, ?_,
    fun p hp => (hrecorded.insts p hp).1, fun p hp => (hrecorded.insts p hp).2.2.2, ?_⟩
  · cases item with
    | importClass name clauses =>
        have hname := mem_createdNames.mpr ⟨clauses, hitem⟩
        exact ⟨(hrecorded.created name hname).1, h.created_free hr hname⟩
    | selectClass name texts =>
        have hname : name ∈ selectedNames body := List.mem_flatMap.mpr ⟨_, hitem, List.mem_singleton_self name⟩
        obtain ⟨a, ha⟩ := h.selects (hselects name hname)
        refine ⟨hrecorded.selected name hname, a, ha, fun text htext => ?_⟩
        have hp : (name, text) ∈ bodyInsts body := mem_bodyInsts.mpr ⟨texts, hitem, htext⟩
        obtain ⟨hroot, hplain, hshort, -⟩ := hrecorded.insts _ hp
        -- instances are listed in classes of the name index only
        rcases ha with ⟨hslash, -⟩ | ⟨-, hfound⟩
        · exact absurd hslash hroot
        · exact .inr ⟨hplain, hshort, h.inst_free hr hp hfound⟩
  · have hnodup := hr.nodup
    rw [List.flatMap_append, List.flatMap_cons, List.nodup_append', List.nodup_append'] at hnodup
    exact hnodup.2.1.1
  · have hnodup := hr.named
    rw [List.flatMap_append, List.flatMap_cons, List.nodup_append', List.nodup_append'] at hnodup
    exact hnodup.2.1.1
  · have hleft := h.pages
    rw [List.map_append, List.sum_append, List.map_singleton, List.sum_singleton, bodyPages] at hpages
    omega

end Restoring

namespace Drafted

variable {s₀ s : Sys τ} {body : List TaskItem} {idx' : Indices τ}

omit [AttrVarOps τ] in
/-- A class that was there keeps its name and its clauses. -/
theorem entry_kept (h : Drafted s₀ s body) (hbinds : s.idx.Binds s.refs idx') {a : ClassAddr}
    (ha : a < s₀.idx.nextClass) : (idx'.classes a).name = (s₀.idx.classes a).name ∧
      (idx'.classes a).body.clauses = (s₀.idx.classes a).body.clauses :=
  ⟨(hbinds.keeps.names a).trans (h.parsing.idx.names a ha),
    (hbinds.keeps.clauses_eq a).trans (h.parsing.idx.clauses a ha)⟩

omit [AttrVarOps τ] in
/-- A new class is found with its clauses. -/
theorem found_created (h : Drafted s₀ s body) (hbinds : s.idx.Binds s.refs idx')
    (hbound : ∀ ref ∈ s.refs, ref.phase = .created → idx'.classByName (s.idx.classes ref.entry).name ≠ none)
    {name : Name} {clauses : List Name} (hitem : .importClass name clauses ∈ body) :
    ∃ a, idx'.classByName name = some a ∧ (idx'.classes a).body.clauses = clauses := by
  have hname := mem_createdNames.mpr ⟨clauses, hitem⟩
  obtain ⟨ref, href, hphase, rfl⟩ := h.exists_created hname
  obtain ⟨a, ha⟩ := Option.ne_none_iff_exists'.mp (hbound ref href hphase)
  refine ⟨a, ha, ?_⟩
  rcases h.bound_cases hbinds ha with hold | ⟨ref', href', hphase', hsame, rfl⟩
  · rw [(h.free _ hname).2] at hold
    cases hold
  · -- the entry that was bound has the clauses of the item with this name
    obtain ⟨-, -, -, clauses', hitem', hcls⟩ := h.created ref' href' hphase'
    rw [hsame] at hitem'
    rw [hbinds.keeps.clauses_eq, ClassEntry.body, hcls]
    exact clauses_unique h.nodup hitem' hitem

omit [AttrVarOps τ] in
/-- An instance that was imported is found in its class. -/
theorem inst_bound (h : Drafted s₀ s body) (hbinds : s.idx.Binds s.refs idx') (hn : s₀.idx.Named)
    (hclasses : ∀ p ∈ bodyInsts body, p.1 ≠ [47]) {i : ClassInst} (hi : i ∈ s.task.classInstStateRefs) :
    (idx'.classes i.blueprint).name = (s₀.idx.classes i.blueprint).name ∧
      idx'.classByName (idx'.classes i.blueprint).name = some i.blueprint := by
  obtain ⟨p, hp, hselects, -⟩ := h.text_of_inst hi
  obtain ⟨hlt, hname, -⟩ := hn.selects hselects
  obtain ⟨hkept, -⟩ := h.entry_kept hbinds hlt
  refine ⟨hkept, ?_⟩
  rcases hselects with ⟨hroot, -⟩ | ⟨-, hfound⟩
  · exact absurd hroot (hclasses p hp)
  · rw [hkept, hname]
    exact h.bound hbinds hfound

end Drafted

/-- **A replay adds its body** to what the indices reflect. -/
theorem Indices.Reflects.replayed {source : Indices τ} {done : List (List TaskItem)} {c : CommitAddr}
    {s s₁ s' : Sys τ} {insts : List ClassInst} (hn : s.idx.Named) (h : s.idx.Reflects source done)
    (hholds : s.idx.Holds insts)
    (hfound : ∀ i ∈ insts, s.idx.classByName (s.idx.classes i.blueprint).name = some i.blueprint)
    (heffects : (insts.map s.idx.effect).Perm (done.flatMap instEffects))
    (htexts : (insts.forM indexTexts).run source.texts = .ok () s.idx.texts)
    (hr : Replayed c insts s s₁ s') (hclasses : ∀ p ∈ bodyInsts (s.ledger.commits c).record, p.1 ≠ [47])
    (hnodup : ((done ++ [(s.ledger.commits c).record]).flatMap createdNames).Nodup)
    (hfree : ∀ name ∈ (done ++ [(s.ledger.commits c).record]).flatMap createdNames,
      source.classByName name = none) :
    s'.idx.Reflects source (done ++ [(s.ledger.commits c).record]) := by
  have hd := hr.drafted
  set body := (s.ledger.commits c).record with hbody
  refine ⟨fun name a ha => ?_, fun b hb name clauses hitem => ?_, fun name a ha => ?_, ⟨hnodup, hfree⟩,
    insts ++ s₁.task.classInstStateRefs, hr.holds, fun i hi => ?_, ?_, ?_⟩
  · obtain ⟨hold, hclauses⟩ := h.kept name a ha
    exact ⟨hd.bound hr.binds hold, (hd.entry_kept hr.binds (hn.found name a hold).1).2.trans hclauses⟩
  · rcases List.mem_append.mp hb with hb | hb
    · obtain ⟨a, hold, hclauses⟩ := h.created b hb name clauses hitem
      exact ⟨a, hd.bound hr.binds hold, (hd.entry_kept hr.binds (hn.found name a hold).1).2.trans hclauses⟩
    · obtain rfl := List.mem_singleton.mp hb
      exact hd.found_created hr.binds hr.bound hitem
  · rw [List.flatMap_append, List.mem_append]
    rcases hd.bound_cases hr.binds ha with hold | ⟨ref, href, hphase, rfl, -⟩
    · exact (h.only name a hold).imp id .inl
    · exact .inr (.inr (List.mem_flatMap.mpr ⟨body, List.mem_singleton_self body, hd.name_of_created href hphase⟩))
  · rcases List.mem_append.mp hi with hi | hi
    · rw [(hd.entry_kept hr.binds (hholds.counted i hi).1).1]
      exact hd.bound hr.binds (hfound i hi)
    · exact (hd.inst_bound hr.binds hn hclasses hi).2
  · -- the effects of the instances that were there, and of the new ones
    have hold : insts.map s'.idx.effect = insts.map s.idx.effect := by
      refine List.map_congr_left fun i hi => ?_
      rw [Indices.effect, Indices.effect, (hd.entry_kept hr.binds (hholds.counted i hi).1).1]
      rfl
    have hnew : (s₁.task.classInstStateRefs.map s'.idx.effect).Perm (instEffects body) := by
      have heq : s₁.task.classInstStateRefs.map s'.idx.effect
          = s₁.task.classInstStateRefs.map fun i => ((s.idx.classes i.blueprint).name, i.name, i.attrs) := by
        refine List.map_congr_left fun i hi => ?_
        rw [Indices.effect, (hd.inst_bound hr.binds hn hclasses hi).1]
        rfl
      rw [heq, ← hd.effects hn, List.map_reverse]
      exact (List.reverse_perm _).symm
    rw [List.map_append, hold, List.flatMap_append, List.flatMap_singleton]
    exact heffects.append hnew
  · rw [forM_append, run_bind_of_ok htexts]
    exact hr.texts

/-- **The replay of the next record.** -/
theorem Restoring.step {source : Indices τ} {done rest : List (List TaskItem)} {c : CommitAddr} {s : Sys τ}
    (h : Restoring source done s) (hrefs : (s.ledger.commits c).classStateRefs = [])
    (hr : source.Replayable (done ++ (s.ledger.commits c).record :: rest))
    (hselects : ∀ name ∈ selectedNames (s.ledger.commits c).record, name = [47] ∨
      source.classByName name ≠ none ∨ name ∈ done.flatMap createdNames)
    (hpages : ((done ++ [(s.ledger.commits c).record]).map bodyPages).sum ≤ source.pool.tinyPages)
    (hquiet : s.task.role ≠ .arbiter ∧ exportSize s.name (s.ledger.commits c).record < largeBufSize ∨
      createsClass (s.ledger.commits c).record = false) :
    ∃ s', (kndApplyCommit c).run s = .ok () s' ∧ Restoring source (done ++ [(s.ledger.commits c).record]) s' ∧
      s'.name = s.name := by
  have htakes := h.takes hr hselects hpages
  obtain ⟨insts, hholds, hfound, heffects, htexts⟩ := h.reflects.insts
  obtain ⟨s₁, s', hrun, hreplayed⟩ := kndApplyCommit_replays h.named h.reader hholds hrefs htakes hquiet
  have hfirst : done ++ (s.ledger.commits c).record :: rest = done ++ [(s.ledger.commits c).record] ++ rest := by
    rw [List.append_assoc, List.singleton_append]
  have hnodup := hr.nodup
  rw [hfirst, List.flatMap_append] at hnodup
  have hfree : ∀ name ∈ (done ++ [(s.ledger.commits c).record]).flatMap createdNames,
      source.classByName name = none := fun name hname => hr.free name (by
    rw [hfirst, List.flatMap_append]
    exact List.mem_append_left _ hname)
  refine ⟨s', hrun, ⟨hreplayed.drafted.named h.named hreplayed.binds htakes.unrooted, ?_, fun a name hne => ?_, ?_, ?_⟩,
    hreplayed.name⟩
  · exact h.reflects.replayed h.named hholds hfound heffects htexts hreplayed htakes.classes
      (List.nodup_append'.mp hnodup).1 hfree
  · obtain ⟨i, hi⟩ := Option.ne_none_iff_exists'.mp hne
    obtain ⟨hmem, rfl, rfl, hnamed⟩ := (hreplayed.holds.byName a name i).mp hi
    rcases List.mem_append.mp hmem with hold | hnew
    · -- an instance that was there
      have hget := (hholds.byName i.blueprint i.name i).mpr ⟨hold, rfl, rfl, hnamed⟩
      have hkept := hreplayed.drafted.parsing.idx.nameTaken_iff (hholds.counted i hold).1 i.name
      refine hreplayed.binds.taken _ _ (hkept.mpr ?_)
      refine h.taken _ _ ?_
      rw [hget]
      exact Option.some_ne_none i
    · exact hreplayed.taken i hnew hnamed
  · have hleft := h.pages
    have htaken := hreplayed.pages
    rw [List.map_append, List.sum_append, List.map_singleton, List.sum_singleton, bodyPages]
    omega
  · have hsilent := (kndApplyCommit_quiet (c := c) (s := s) (hquiet.imp And.left id)).1
    rw [finalState_of_ok hrun] at hsilent
    exact hsilent.reader h.reader

/-- **Each body selects classes that are there** when it is replayed. -/
def Indices.SelectsBefore (source : Indices τ) (bodies : List (List TaskItem)) : Prop :=
  ∀ done body rest, bodies = done ++ body :: rest → ∀ name ∈ selectedNames body,
    name = [47] ∨ source.classByName name ≠ none ∨ name ∈ done.flatMap createdNames

/-- **The replay of all records returns**, and the indices reflect all of them. -/
theorem forM_kndApplyCommit_replays {source : Indices τ} {cs : List CommitAddr} {done rest : List (List TaskItem)}
    {s : Sys τ} (h : Restoring source done s) (hcs : cs.Nodup)
    (hrecords : cs.map (fun c => (s.ledger.commits c).record) = rest)
    (hrefs : ∀ c ∈ cs, (s.ledger.commits c).classStateRefs = []) (hr : source.Replayable (done ++ rest))
    (hselects : source.SelectsBefore (done ++ rest))
    (hpages : ((done ++ rest).map bodyPages).sum ≤ source.pool.tinyPages)
    (hquiet : s.task.role ≠ .arbiter ∧ (∀ body ∈ rest, exportSize s.name body < largeBufSize) ∨
      ∀ body ∈ rest, createsClass body = false) :
    ∃ s', (cs.forM kndApplyCommit).run s = .ok () s' ∧ Restoring source (done ++ rest) s' := by
  induction cs generalizing s done rest with
  | nil =>
      subst hrecords
      rw [List.map_nil, List.append_nil]
      exact ⟨s, rfl, h⟩
  | cons c cs ih =>
      obtain ⟨hnotin, hcs'⟩ := List.nodup_cons.mp hcs
      subst hrecords
      rw [List.map_cons] at hr hselects hpages hquiet ⊢
      set body := (s.ledger.commits c).record with hbody
      set rest := cs.map (fun c => (s.ledger.commits c).record) with hrest
      have hfirst : done ++ body :: rest = done ++ [body] ++ rest := by
        rw [List.append_assoc, List.singleton_append]
      have hpages₁ : ((done ++ [body]).map bodyPages).sum ≤ source.pool.tinyPages := by
        rw [hfirst, List.map_append, List.sum_append] at hpages
        omega
      obtain ⟨s₁, hrun, h₁, hname⟩ := h.step (hrefs c List.mem_cons_self) hr (hselects done body rest rfl) hpages₁
        (hquiet.imp (fun hw => ⟨hw.1, hw.2 body List.mem_cons_self⟩) fun hall => hall body List.mem_cons_self)
      -- the other commits are as they were
      obtain ⟨hothers, -, -⟩ := kndApplyCommit_frame c s
      have hrole := kndApplyCommit_role c s
      rw [finalState_of_ok hrun] at hothers hrole
      have hne : ∀ d ∈ cs, d ≠ c := fun d hd heq => hnotin (heq ▸ hd)
      have hrecords₁ : cs.map (fun c => (s₁.ledger.commits c).record) = rest :=
        List.map_congr_left fun d hd => by rw [hothers d (hne d hd)]
      rw [hfirst] at hr hselects hpages ⊢
      obtain ⟨s', hloop, h'⟩ := ih h₁ hcs' hrecords₁ (fun d hd => by
        rw [hothers d (hne d hd)]
        exact hrefs d (List.mem_cons_of_mem c hd)) hr hselects hpages (by
        rw [hname, hrole]
        exact hquiet.imp (fun hw => ⟨hw.1, fun b hb => hw.2 b (List.mem_cons_of_mem _ hb)⟩)
          fun hall b hb => hall b (List.mem_cons_of_mem _ hb))
      exact ⟨s', (run_bind_of_ok hrun).trans hloop, h'⟩

/-! ## (5) The replay of the journals -/

/-- The order of the bodies does not matter to what the indices reflect. -/
theorem Indices.Reflects.perm {idx source : Indices τ} {bodies bodies' : List (List TaskItem)}
    (h : idx.Reflects source bodies) (hperm : bodies.Perm bodies') : idx.Reflects source bodies' where
  kept := h.kept
  created body hbody := h.created body (hperm.mem_iff.mpr hbody)
  only name a ha := (h.only name a ha).imp id (hperm.flatMap_right _).mem_iff.mp
  once := ⟨((hperm.flatMap_right _).nodup_iff).mp h.once.1,
    fun name hname => h.once.2 name ((hperm.flatMap_right _).mem_iff.mpr hname)⟩
  insts := by
    obtain ⟨insts, hholds, hfound, heffects, htexts⟩ := h.insts
    exact ⟨insts, hholds, hfound, heffects.trans (hperm.flatMap_right _), htexts⟩

/-- **Records that can be replayed** in the order of the traversal: each selects classes of the source files or of
records that the traversal meets before it, and there is memory for the items of the name indices. -/
structure Indices.Restorable (source : Indices τ) (rs : List WalRecord) : Prop where
  /-- The bodies. -/
  replayable : source.Replayable (rs.map WalRecord.body)
  /-- The selected classes. -/
  selects : ∀ r ∈ rs, ∀ name ∈ selectedNames r.body, name = [47] ∨ source.classByName name ≠ none ∨
    ∃ r' ∈ rs, TrieBefore r'.numid r.numid ∧ name ∈ createdNames r'.body
  /-- The memory. -/
  pages : (rs.map fun r => bodyPages r.body).sum ≤ source.pool.tinyPages

theorem Indices.Restorable.perm {source : Indices τ} {rs rs' : List WalRecord} (h : source.Restorable rs)
    (hperm : rs.Perm rs') : source.Restorable rs' where
  replayable := h.replayable.perm (hperm.map _)
  selects r hr name hname := by
    refine (h.selects r (hperm.mem_iff.mpr hr) name hname).imp id fun hor => hor.imp id ?_
    rintro ⟨r', hr', hbefore, hcreated⟩
    exact ⟨r', hperm.mem_iff.mp hr', hbefore, hcreated⟩
  pages := by
    rw [← (hperm.map _).sum_eq]
    exact h.pages

omit [AttrVarOps τ] in
/-- The records of the traversal are those that were collected. -/
theorem Collected.records {L : Ledger} {cs : List CommitAddr} {rs : List WalRecord} (h : Collected L cs rs) :
    (L.snapshot.commitIdx.elems.map fun c => (L.commits c).record).Perm (rs.map WalRecord.body) := by
  have hmap := congrArg (List.map Commit.record) h.commits
  rw [List.map_map, List.map_map] at hmap
  exact (h.perm.map _).trans (List.Perm.of_eq hmap)

omit [AttrVarOps τ] in
/-- A commit of the traversal was made of a record. -/
theorem Collected.exists_record {L : Ledger} {cs : List CommitAddr} {rs : List WalRecord} (h : Collected L cs rs)
    {c : CommitAddr} (hc : c ∈ L.snapshot.commitIdx.elems) : ∃ r ∈ rs, L.commits c = r.toCommit := by
  have hmem : L.commits c ∈ rs.map WalRecord.toCommit := by
    rw [← h.commits]
    exact List.mem_map_of_mem (h.perm.mem_iff.mp hc)
  obtain ⟨r, hr, heq⟩ := List.mem_map.mp hmem
  exact ⟨r, hr, heq.symm⟩

omit [AttrVarOps τ] in
/-- A record was made a commit of the traversal. -/
theorem Collected.exists_commit {L : Ledger} {cs : List CommitAddr} {rs : List WalRecord} (h : Collected L cs rs)
    {r : WalRecord} (hr : r ∈ rs) : ∃ c ∈ L.snapshot.commitIdx.elems, L.commits c = r.toCommit := by
  have hmem : r.toCommit ∈ cs.map L.commits := by
    rw [h.commits]
    exact List.mem_map_of_mem hr
  obtain ⟨c, hc, heq⟩ := List.mem_map.mp hmem
  exact ⟨c, h.perm.mem_iff.mpr hc, heq⟩

/-- Each record selects classes of those that the traversal meets before it. -/
theorem Indices.Restorable.selectsBefore {source : Indices τ} {L : Ledger} {cs : List CommitAddr}
    {rs : List WalRecord} (h : source.Restorable rs) (hc : Collected L cs rs) :
    source.SelectsBefore (L.snapshot.commitIdx.elems.map fun c => (L.commits c).record) := by
  intro done body rest heq name hname
  obtain ⟨pre, post, hsplit, hdone, hrest⟩ := List.map_eq_append_iff.mp heq
  obtain ⟨c, post, rfl, rfl, -⟩ := List.map_eq_cons_iff.mp hrest
  have hmem : c ∈ L.snapshot.commitIdx.elems := by rw [hsplit]; simp
  obtain ⟨r, hr, hrecord⟩ := hc.exists_record hmem
  rw [hrecord] at hname
  refine (h.selects r hr name hname).imp id fun hor => hor.imp id ?_
  rintro ⟨r', hr', hbefore, hcreated⟩
  obtain ⟨c', hc', hrecord'⟩ := hc.exists_commit hr'
  -- the traversal meets `c'` before `c`
  have hsorted := pairwise_elems hc
  rw [hsplit, List.pairwise_append] at hsorted
  have hbefore' : TrieBefore (L.commits c').numid (L.commits c).numid := by
    rw [hrecord, hrecord']
    exact hbefore
  have hpre : c' ∈ pre := by
    rw [hsplit, List.mem_append, List.mem_cons] at hc'
    rcases hc' with hpre | rfl | hpost
    · exact hpre
    · exact absurd hbefore' hbefore'.asymm
    · exact absurd hbefore' ((List.pairwise_cons.mp hsorted.2.1).1 c' hpost).asymm
  rw [← hdone, List.mem_flatMap]
  refine ⟨_, List.mem_map_of_mem hpre, ?_⟩
  rw [hrecord']
  exact hcreated

theorem Restoring.perm {source : Indices τ} {done done' : List (List TaskItem)} {s : Sys τ}
    (h : Restoring source done s) (hperm : done.Perm done') : Restoring source done' s where
  named := h.named
  reflects := h.reflects.perm hperm
  taken := h.taken
  pages := by
    rw [← (hperm.map bodyPages).sum_eq]
    exact h.pages
  reader := h.reader

/-- **The second part of a restore returns**, and the indices reflect the records. -/
theorem applyCommits_replays {source : Indices τ} {cs : List CommitAddr} {rs : List WalRecord} {s : Sys τ}
    (hc : Collected s.ledger cs rs) (h : Restoring source [] s) (hr : source.Restorable rs)
    (hquiet : s.task.role ≠ .arbiter ∧ (∀ r ∈ rs, exportSize s.name r.body < largeBufSize) ∨
      ∀ r ∈ rs, createsClass r.body = false) :
    ∃ s', applyCommits.run s = .ok () s' ∧ Restoring source (rs.map WalRecord.body) s' := by
  have hrecords : (s.snapshot.commitIdx.elems.map fun c => (s.ledger.commits c).record).Perm
      (rs.map WalRecord.body) := hc.records
  have hbodies : ∀ P : List TaskItem → Prop, (∀ r ∈ rs, P r.body) →
      ∀ body ∈ s.snapshot.commitIdx.elems.map fun c => (s.ledger.commits c).record, P body := by
    intro P hall body hbody
    obtain ⟨r, hr, rfl⟩ := List.mem_map.mp (hrecords.mem_iff.mp hbody)
    exact hall r hr
  have hpages : ((s.snapshot.commitIdx.elems.map fun c => (s.ledger.commits c).record).map bodyPages).sum
      ≤ source.pool.tinyPages := by
    rw [(hrecords.map bodyPages).sum_eq, List.map_map]
    exact hr.pages
  have hnodup : s.snapshot.commitIdx.elems.Nodup := hc.perm.nodup_iff.mpr hc.nodup
  obtain ⟨s', hloop, h'⟩ := forM_kndApplyCommit_replays h hnodup rfl
    (fun c hmem => by
      obtain ⟨r, -, heq⟩ := hc.exists_record hmem
      rw [heq]
      rfl)
    (hr.replayable.perm hrecords.symm) (hr.selectsBefore hc) hpages
    (hquiet.imp (fun hw => ⟨hw.1, hbodies _ hw.2⟩) (hbodies _))
  have hdone : Restoring source (rs.map WalRecord.body) s' := h'.perm hrecords
  rw [run_applyCommits]
  by_cases hzero : s.snapshot.commitIdx.numElems = 0
  · -- nothing was collected
    have hcs : cs = [] := List.length_eq_zero_iff.mp (hc.count ▸ hzero)
    have hnil : s.snapshot.commitIdx.elems = [] := List.perm_nil.mp (hcs ▸ hc.perm)
    rw [hnil] at hloop
    cases hloop
    rw [if_pos hzero]
    exact ⟨s, rfl, hdone⟩
  · rw [if_neg hzero, run_bind_of_ok hloop]
    exact ⟨_, rfl, hdone.named, hdone.reflects, hdone.taken, hdone.pages, hdone.reader⟩

end Records

end Knowdy
