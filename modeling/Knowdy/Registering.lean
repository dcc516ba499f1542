import Knowdy.IndexUpdates
import Knowdy.KndSet

/-! # What a commit registers

The index updates of `knd_repo.commit.c` again, as they are needed where records are written and replayed: what a
returning update makes of the names that are taken, and when an update returns.

* `Registers` — **one registered instance**; `registerInst_ok`, `registerInst_returns`.
* `Indices.Binds` — what the update for the class states of a commit binds, however it ends; `binds_updateIndices`.
* `Indices.Holds` — the instances in the indices, each once; `updateIndices_returns`. -/

namespace Knowdy

variable {τ : Type}

/-! ## (1) Names that are taken -/

theorem Indices.Keeps.isSome_eq {idx idx' : Indices τ} (h : idx.Keeps idx') (a : ClassAddr) :
    (idx'.classes a).cls.isSome = (idx.classes a).cls.isSome := by
  simpa using congrArg Option.isSome (h.counts a)

theorem Indices.Keeps.count_eq {idx idx' : Indices τ} (h : idx.Keeps idx') (a : ClassAddr) :
    (idx'.classes a).body.instIdCount = (idx.classes a).body.instIdCount := by
  have hcount : ∀ cls : Option Class, (cls.getD {}).instIdCount = (cls.map Class.instIdCount).getD 0 := by
    intro cls
    cases cls <;> rfl
  rw [ClassEntry.body, ClassEntry.body, hcount, hcount, h.counts]

theorem Indices.Keeps.clauses_eq {idx idx' : Indices τ} (h : idx.Keeps idx') (a : ClassAddr) :
    (idx'.classes a).body.clauses = (idx.classes a).body.clauses := by
  have hclauses : ∀ cls : Option Class, (cls.getD {}).clauses = (cls.map Class.clauses).getD [] := by
    intro cls
    cases cls <;> rfl
  rw [ClassEntry.body, ClassEntry.body, hclauses, hclauses, h.clauses]

/-- The name is taken in class `a`: no other instance is registered under it. -/
def Indices.NameTaken (idx : Indices τ) (a : ClassAddr) (name : Name) : Prop :=
  (idx.classes a).body.nameDict.Taken name

/-- What is not found is not taken. -/
theorem not_taken_of_get {α : Type} {dict : SharedDict α} {key : Name} (h : kndSharedDictGet dict key = none) :
    ¬dict.Taken key := by
  rintro ⟨item, hitem, hphase⟩
  rw [kndSharedDictGet, hitem] at h
  simp [hphase] at h

theorem Indices.not_nameTaken {idx : Indices τ} {a : ClassAddr} {name : Name}
    (h : idx.indexedInst a name = none) : ¬idx.NameTaken a name := by
  rw [NameTaken, ClassEntry.body]
  cases hcls : (idx.classes a).cls with
  | none => exact not_taken_of_get rfl
  | some c =>
      rw [indexedInst_of_cls hcls, Class.bind_instNameIdx] at h
      exact not_taken_of_get h

/-- A new item that is made valid at once takes its key. -/
theorem taken_setItemPhase_push {α : Type} (dict : SharedDict α) (item : DictItem α) (key : Name) :
    (setItemPhase (dict.push item) item.key .valid).Taken key ↔ key = item.key ∨ dict.Taken key := by
  rw [setItemPhase_push, SharedDict.Taken, SharedDict.item?_push]
  by_cases hkey : key = item.key
  · simp [hkey]
  · simp [hkey, SharedDict.Taken]

/-- The pages of an insertion by a commit. -/
theorem kndSharedDictSet_pages {α : Type} {dict dict' : SharedDict α} {pool pool' : MemPool} {key : Name} {data : α}
    {commit : CommitAddr} {item : DictItem α}
    (h : kndSharedDictSet dict pool key data (some commit) false = (.ok (item, dict'), pool')) :
    pool'.tinyPages + 2 = pool.tinyPages := by
  rw [kndSharedDictSet_of_not_taken (kndSharedDictSet_ok h).1] at h
  obtain ⟨tiny⟩ := pool
  match tiny with
  | 0 => simp [dictItemNew, MemPool.tinyPage] at h
  | 1 => simp [dictItemNew, MemPool.tinyPage] at h
  | n + 2 =>
      simp only [dictItemNew, MemPool.tinyPage, Nat.add_eq_zero_iff, OfNat.ofNat_ne_zero, and_false, if_false]
        at h
      cases h
      rfl

/-- What the name index of a class holds depends on the body. -/
theorem Indices.nameTaken_congr {idx idx' : Indices τ} {a : ClassAddr} {c c' : Class}
    (hcls : (idx.classes a).cls = some c) (hcls' : (idx'.classes a).cls = some c')
    (h : c'.nameDict = c.nameDict) (name : Name) : idx'.NameTaken a name ↔ idx.NameTaken a name := by
  rw [NameTaken, NameTaken, ClassEntry.body, ClassEntry.body, hcls, hcls']
  show c'.nameDict.Taken name ↔ c.nameDict.Taken name
  rw [h]

/-- A class that is not written to. -/
theorem Indices.nameTaken_of_cls_eq {idx idx' : Indices τ} {a : ClassAddr}
    (h : (idx'.classes a).cls = (idx.classes a).cls) (name : Name) :
    idx'.NameTaken a name ↔ idx.NameTaken a name := by
  rw [NameTaken, NameTaken, ClassEntry.body, ClassEntry.body, h]

/-! ## (2) One instance -/

/-- The tiny pages that registering an instance takes: an item of the name index and its state. -/
def ClassInst.pages (self : ClassInst) : Nat := if self.name = [] then 0 else 2

/-- The name of an instance goes into the name index. -/
theorem registerInstName_taken {commit : CommitAddr} {a : ClassAddr} {inst : ClassInst} {idx idx' : Indices τ}
    (h : (registerInstName commit a inst).run idx = .ok () idx') :
    ¬idx.NameTaken a inst.name ∧ idx'.pool.tinyPages + 2 = idx.pool.tinyPages ∧
      ∀ b name, idx'.NameTaken b name ↔ b = a ∧ name = inst.name ∨ idx.NameTaken b name := by
  cases hcls : (idx.classes a).cls with
  | none =>
      rw [EStateM.run, registerInstName, hcls] at h
      cases h
  | some c =>
      -- the insertion has found no valid item, and its own item is valid at once
      rw [run_registerInstName hcls] at h
      split at h
      · cases h
      · rename_i item dict pool hset
        have hpages := kndSharedDictSet_pages hset
        obtain ⟨hfree, rfl, rfl⟩ := kndSharedDictSet_ok hset
        cases h
        refine ⟨?_, hpages, fun b name => ?_⟩
        · rw [Indices.NameTaken, ClassEntry.body, hcls]
          exact hfree
        · by_cases hb : b = a
          · subst hb
            rw [Indices.NameTaken, Indices.NameTaken, ClassEntry.body, ClassEntry.body, hcls,
              Indices.classes_setClass, if_pos rfl]
            simp only [true_and]
            exact taken_setItemPhase_push c.nameDict
              ⟨if (some commit).isSome then .pending else .valid, inst.name, inst, (some commit).toList⟩ name
          · rw [@Indices.nameTaken_of_cls_eq _ idx]
            · simp [hb]
            · rw [Indices.classes_setClass, if_neg hb]
              rfl

/-- The id of an instance goes into the id index. -/
theorem registerInstId_ok {a : ClassAddr} {inst : ClassInst} {idx idx' : Indices τ}
    (h : (registerInstId a inst).run idx = .ok () idx') :
    (∀ name, idx'.classByName name = idx.classByName name) ∧
    (∀ b name, idx'.indexedInst b name = idx.indexedInst b name) ∧
    (∀ b id, idx'.instById b id = if b = a ∧ id = inst.id then some inst else idx.instById b id) ∧
    idx'.texts = idx.texts ∧ idx'.pool = idx.pool ∧
    ∀ b name, idx'.NameTaken b name ↔ idx.NameTaken b name := by
  cases hcls : (idx.classes a).cls with
  | none =>
      rw [EStateM.run, registerInstId, hcls] at h
      cases h
  | some c =>
      obtain ⟨hclasses, hnames, hids, htexts⟩ := @registerInstId_finalState τ a inst idx c hcls
      rw [finalState_of_ok h] at hclasses hnames hids htexts
      rw [run_registerInstId hcls] at h
      cases hadd : kndSharedSetAdd c.idSet inst.id inst with
      | mk rc set =>
          rw [hadd] at h hids
          cases rc with
          | error e => cases h
          | ok u =>
              cases h
              refine ⟨hclasses, hnames, fun b id => ?_, htexts, rfl, fun b name => ?_⟩
              · rw [hids]
                simp
              · by_cases hb : b = a
                · subst hb
                  have hcls' : ((idx.setClass b { c with instIdx := some set }).classes b).cls
                      = some { c with instIdx := some set } := by rw [Indices.classes_setClass, if_pos rfl]
                  exact Indices.nameTaken_congr hcls hcls' rfl name
                · refine Indices.nameTaken_of_cls_eq ?_ name
                  rw [Indices.classes_setClass, if_neg hb]

section Instances

variable [AttrVarOps τ]

/-- What an instance adds to the text index. -/
def indexTexts (inst : ClassInst) : EStateM Stop τ Unit :=
  if inst.attrs ≠ [] then AttrVarOps.updateAttrVarIndices inst else pure ()

/-- **One registered instance.** -/
structure Registers (a : ClassAddr) (inst : ClassInst) (idx idx' : Indices τ) : Prop where
  /-- The rest. -/
  keeps : idx.Keeps idx'
  /-- The classes by name. -/
  classes : ∀ name, idx'.classByName name = idx.classByName name
  /-- The instances by name. -/
  names : ∀ b name, idx'.indexedInst b name
    = if b = a ∧ name = inst.name ∧ name ≠ [] then some inst else idx.indexedInst b name
  /-- The instances by id. -/
  ids : ∀ b id, idx'.instById b id = if b = a ∧ id = inst.id then some inst else idx.instById b id
  /-- The text index. -/
  texts : (indexTexts inst).run idx.texts = .ok () idx'.texts
  /-- The name is new. -/
  free : inst.name ≠ [] → ¬idx.NameTaken a inst.name
  /-- The names that are taken. -/
  taken : ∀ b name, idx'.NameTaken b name ↔ (b = a ∧ name = inst.name ∧ name ≠ []) ∨ idx.NameTaken b name
  /-- The pages. -/
  pages : idx'.pool.tinyPages + inst.pages = idx.pool.tinyPages

/-- **A registration that returns.** -/
theorem registerInst_ok {commit : CommitAddr} {a : ClassAddr} {inst : ClassInst} {idx idx' : Indices τ}
    (h : (registerInst commit a inst).run idx = .ok () idx') : Registers a inst idx idx' := by
  have hkeeps := (keeps_registerInst commit a inst).of_ok h
  obtain ⟨u₁, idx₁, hname, hrest⟩ := run_bind_eq_ok.mp h
  obtain ⟨u₂, idx₂, hid, hattrs⟩ := run_bind_eq_ok.mp hrest
  obtain ⟨hclasses₂, hnames₂, hids₂, htexts₂, hpool₂, htaken₂⟩ := registerInstId_ok hid
  -- the attributes go into the text index only
  obtain ⟨texts, htexts, rfl⟩ : ∃ texts, (indexTexts inst).run idx₂.texts = .ok () texts ∧
      idx' = { idx₂ with texts } := by
    rw [indexTexts]
    by_cases hempty : inst.attrs ≠ []
    · rw [if_pos hempty] at hattrs ⊢
      exact run_zoom_eq_ok.mp hattrs
    · rw [if_neg hempty] at hattrs ⊢
      cases hattrs
      exact ⟨_, rfl, rfl⟩
  have hfirst : (∀ name, idx₁.classByName name = idx.classByName name) ∧
      (∀ b name, idx₁.indexedInst b name
        = if b = a ∧ name = inst.name ∧ name ≠ [] then some inst else idx.indexedInst b name) ∧
      (∀ b id, idx₁.instById b id = idx.instById b id) ∧ idx₁.texts = idx.texts ∧
      (inst.name ≠ [] → ¬idx.NameTaken a inst.name) ∧
      (∀ b name, idx₁.NameTaken b name ↔ (b = a ∧ name = inst.name ∧ name ≠ []) ∨ idx.NameTaken b name) ∧
      idx₁.pool.tinyPages + inst.pages = idx.pool.tinyPages := by
    rw [ClassInst.pages]
    by_cases hempty : inst.name = []
    · rw [if_neg (not_not_intro hempty)] at hname
      cases hname
      refine ⟨fun _ => rfl, fun b name => ?_, fun _ _ => rfl, rfl, (absurd hempty ·), fun b name => ?_, ?_⟩
      · rw [if_neg fun hb => hb.2.2 (hb.2.1.trans hempty)]
      · constructor
        · exact .inr
        · rintro (hb | ht)
          · exact absurd (hb.2.1.trans hempty) hb.2.2
          · exact ht
      · rw [if_pos hempty]
        rfl
    · rw [if_pos hempty] at hname
      obtain ⟨hclasses, hnames, hids, htexts⟩ := registerInstName_ok hname
      obtain ⟨hfree, hpages, htaken⟩ := registerInstName_taken hname
      have hne : ∀ b name, (b = a ∧ name = inst.name ∧ name ≠ []) ↔ b = a ∧ name = inst.name := by
        intro b name
        constructor
        · exact fun hb => ⟨hb.1, hb.2.1⟩
        · exact fun hb => ⟨hb.1, hb.2, hb.2 ▸ hempty⟩
      refine ⟨hclasses, fun b name => ?_, hids, htexts, fun _ => hfree, fun b name => ?_, ?_⟩
      · rw [hnames]
        simp only [hne]
      · rw [htaken, hne]
      · rw [if_neg hempty]
        exact hpages
  obtain ⟨hclasses₁, hnames₁, hids₁, htexts₁, hfree, htaken₁, hpages₁⟩ := hfirst
  refine ⟨hkeeps, fun name => (hclasses₂ name).trans (hclasses₁ name),
    fun b name => (hnames₂ b name).trans (hnames₁ b name), fun b id => ?_, ?_, hfree,
    fun b name => (htaken₂ b name).trans (htaken₁ b name), ?_⟩
  · refine (hids₂ b id).trans ?_
    rw [hids₁]
  · rw [← htexts₁, ← htexts₂]
    exact htexts
  · show idx₂.pool.tinyPages + _ = _
    rw [hpool₂]
    exact hpages₁

/-- **The attributes are accepted**, whatever the text index holds. -/
def AttrsAccepted (τ : Type) [AttrVarOps τ] (attrs : List Name) : Prop :=
  attrs ≠ [] → ∀ (texts : τ) (inst : ClassInst), inst.attrs = attrs →
    AttrVarOps.resolveAttrVars texts inst = .ok () ∧
      ∃ texts', (AttrVarOps.updateAttrVarIndices inst).run texts = .ok () texts'

/-- **A registration returns** in a class with a body, when the name and the id are free, the pool has the pages and
the attributes are accepted. -/
theorem registerInst_returns (commit : CommitAddr) {a : ClassAddr} {inst : ClassInst} {idx : Indices τ}
    (hcls : (idx.classes a).cls.isSome = true) (hname : inst.name ≠ [] → ¬idx.NameTaken a inst.name)
    (hpages : inst.pages ≤ idx.pool.tinyPages) (hid : idx.instById a inst.id = none)
    (hattrs : AttrsAccepted τ inst.attrs) :
    ∃ idx', (registerInst commit a inst).run idx = .ok () idx' := by
  obtain ⟨c, hc⟩ := Option.isSome_iff_exists.mp hcls
  -- the name index: the name is free and the pages of its item are there
  have hfirst : ∃ idx₁, ((if inst.name ≠ [] then registerInstName commit a inst else pure ()) : IdxM τ Unit).run idx
      = .ok () idx₁ := by
    by_cases hempty : inst.name = []
    · exact ⟨idx, by rw [if_neg (not_not_intro hempty)]; rfl⟩
    · rw [if_pos hempty]
      cases hrun : (registerInstName commit a inst).run idx with
      | ok u idx₁ => exact ⟨idx₁, rfl⟩
      | error e idx₁ =>
          exfalso
          rw [ClassInst.pages, if_neg hempty] at hpages
          rcases (registerInstName_fails_iff hc).mp ⟨e, idx₁, hrun⟩ with htaken | hfew
          · refine hname hempty ?_
            rw [Indices.NameTaken, ClassEntry.body, hc]
            exact htaken
          · omega
  obtain ⟨idx₁, hrun₁⟩ := hfirst
  -- the first part keeps the body and the ids of the class
  have hcls₁ : (idx₁.classes a).cls.isSome = true := by
    have hkeeps := (Moves.ite (fun _ => keeps_registerInstName commit a inst) fun _ => .pure _).of_ok hrun₁
    have hmap := congrArg Option.isSome (hkeeps.counts a)
    rwa [Option.isSome_map, Option.isSome_map, hcls] at hmap
  have hid₁ : idx₁.instById a inst.id = none := by
    by_cases hempty : inst.name = []
    · rw [if_neg (not_not_intro hempty)] at hrun₁
      cases hrun₁
      exact hid
    · rw [if_pos hempty] at hrun₁
      rw [(registerInstName_ok hrun₁).2.2.1]
      exact hid
  obtain ⟨c₁, hc₁⟩ := Option.isSome_iff_exists.mp hcls₁
  -- the id index: a set refuses only an id that it holds
  have hsecond : ∃ idx₂, (registerInstId a inst).run idx₁ = .ok () idx₂ := by
    rw [Indices.instById_of_cls hc₁, Class.bind_instIdx] at hid₁
    have hkey : inst.id = digitsKey (numDigits inst.numid) := kndNumToStr_eq inst.numid
    obtain ⟨set, hadd⟩ := @kndSharedSetAdd_of_free _ c₁.idSet _ (numDigits_ne_nil inst.numid)
      (fun i hget => by rw [hkey, hget] at hid₁; cases hid₁) inst
    rw [← hkey] at hadd
    rw [run_registerInstId hc₁, hadd]
    exact ⟨_, rfl⟩
  obtain ⟨idx₂, hrun₂⟩ := hsecond
  -- the text index: attributes are accepted in every state of it
  have hthird : ∃ idx₃, ((if inst.attrs ≠ [] then indexAttrVars inst else pure ()) : IdxM τ Unit).run idx₂
      = .ok () idx₃ := by
    by_cases hempty : inst.attrs ≠ []
    · rw [if_pos hempty]
      obtain ⟨texts, htexts⟩ := (hattrs hempty idx₂.texts inst rfl).2
      exact ⟨{ idx₂ with texts }, run_zoom_eq_ok.mpr ⟨texts, htexts, rfl⟩⟩
    · exact ⟨idx₂, by rw [if_neg hempty]; rfl⟩
  obtain ⟨idx₃, hrun₃⟩ := hthird
  exact ⟨idx₃, (run_bind_of_ok hrun₁).trans ((run_bind_of_ok hrun₂).trans hrun₃)⟩

/-! ## (3) Classes -/

omit [AttrVarOps τ] in
/-- **A registered class.** -/
theorem registerClass_registers {commit : CommitAddr} {a : ClassAddr} {idx idx' : Indices τ}
    (h : (registerClass commit a).run idx = .ok () idx') :
    idx'.pool.tinyPages + 2 = idx.pool.tinyPages ∧ (∀ b name, idx'.NameTaken b name ↔ idx.NameTaken b name) ∧
      ∀ key, idx'.classNameIdx.Taken key → idx.classNameIdx.Taken key := by
  rw [run_registerClass] at h
  split at h
  · cases h
  · rename_i item dict pool hset
    have hpages := kndSharedDictSet_pages hset
    obtain ⟨-, hdict, hitem⟩ := kndSharedDictSet_ok hset
    cases h
    refine ⟨hpages, fun b name => Indices.nameTaken_of_cls_eq (Indices.cls_setDictItem _ _ _ _) name, ?_⟩
    rintro key ⟨item', hitem', hphase'⟩
    have hget : dict.item? key = some item' := hitem'
    rw [hdict, SharedDict.item?_push] at hget
    by_cases hkey : key = item.key
    · -- the item of a commit is pending
      rw [if_pos hkey] at hget
      cases hget
      rw [hitem] at hphase'
      cases hphase'
    · rw [if_neg hkey] at hget
      exact ⟨item', hget, hphase'⟩

/-- **What the class states `refs` of a commit bind**, however their update ends: the names of their new classes. -/
structure Indices.Binds (refs : List ClassStateRef) (idx idx' : Indices τ) : Prop where
  /-- The rest. -/
  keeps : idx.Keeps idx'
  /-- The classes by name. -/
  bound : ∀ name, idx'.classByName name = idx.classByName name ∨ ∃ ref ∈ refs, ref.phase = .created ∧
    (idx.classes ref.entry).name = name ∧ idx'.classByName name = some ref.entry
  /-- A name that is taken remains so. -/
  taken : ∀ b name, idx.NameTaken b name → idx'.NameTaken b name

instance (refs : List ClassStateRef) : IsPreorder (Indices τ) (Indices.Binds refs) where
  refl idx := ⟨refl_of Indices.Keeps idx, fun _ => .inl rfl, fun _ _ => id⟩
  trans _ _ _ h h' := by
    refine ⟨trans_of Indices.Keeps h.keeps h'.keeps, fun name => ?_,
    fun b name ht => h'.taken b name (h.taken b name ht)⟩
    rcases h'.bound name with heq | ⟨ref, href, hphase, hname, hbound⟩
    · rw [heq]
      exact h.bound name
    · exact .inr ⟨ref, href, hphase, (h.keeps.names _).symm.trans hname, hbound⟩

namespace Indices.Binds

variable {refs : List ClassStateRef} {idx idx' : Indices τ}

omit [AttrVarOps τ] in
/-- Other names are bound to what they were. -/
theorem others (h : idx.Binds refs idx') {name : Name}
    (hname : ∀ ref ∈ refs, ref.phase = .created → (idx.classes ref.entry).name ≠ name) :
    idx'.classByName name = idx.classByName name := by
  rcases h.bound name with heq | ⟨ref, href, hphase, hsame, -⟩
  · exact heq
  · exact absurd hsame (hname ref href hphase)

omit [AttrVarOps τ] in
/-- A name that is bound remains so. -/
theorem ne_none (h : idx.Binds refs idx') {name : Name} (hname : idx.classByName name ≠ none) :
    idx'.classByName name ≠ none := by
  rcases h.bound name with heq | ⟨ref, -, -, -, hsome⟩
  · rw [heq]
    exact hname
  · rw [hsome]
    exact Option.some_ne_none _

end Indices.Binds

omit [AttrVarOps τ] in
theorem binds_registerClass {commit : CommitAddr} {ref : ClassStateRef} {refs : List ClassStateRef}
    (href : ref ∈ refs) (hphase : ref.phase = .created) :
    Moves (Indices.Binds refs) (registerClass commit ref.entry : IdxM τ Unit) := by
  intro idx
  have hkeeps := keeps_registerClass commit ref.entry idx
  cases hrun : (registerClass commit ref.entry).run idx with
  | error e idx' =>
      rw [finalState_of_error hrun] at hkeeps ⊢
      have hcls : ∀ b, (idx'.classes b).cls = (idx.classes b).cls := by
        rw [run_registerClass] at hrun
        split at hrun
        · cases hrun
          exact fun _ => rfl
        · cases hrun
      exact ⟨hkeeps, fun name => .inl ((registerClass_error hrun).classes_eq name),
        fun b name => (Indices.nameTaken_of_cls_eq (hcls b) name).mpr⟩
  | ok u idx' =>
      rw [finalState_of_ok hrun] at hkeeps ⊢
      refine ⟨hkeeps, fun name => ?_, fun b name => ((registerClass_registers hrun).2.1 b name).mpr⟩
      rw [(registerClass_ok hrun).1]
      -- the name of the entry is bound to it, the other names are as they were
      by_cases hname : name = (idx.classes ref.entry).name
      · rw [if_pos hname]
        exact .inr ⟨ref, href, hphase, hname.symm, rfl⟩
      · rw [if_neg hname]
        exact .inl rfl

theorem binds_registerInst {commit : CommitAddr} {a : ClassAddr} {inst : ClassInst} (refs : List ClassStateRef) :
    Moves (Indices.Binds refs) (registerInst commit a inst : IdxM τ Unit) := by
  have hname : Moves (Indices.Binds refs) (registerInstName commit a inst : IdxM τ Unit) := by
    intro idx
    have hkeeps := keeps_registerInstName commit a inst idx
    cases hrun : (registerInstName commit a inst).run idx with
    | error e idx' =>
        rw [finalState_of_error hrun] at hkeeps ⊢
        have hcls : ∀ b, (idx'.classes b).cls = (idx.classes b).cls := by
          cases hc : (idx.classes a).cls with
          | none =>
              rw [EStateM.run, registerInstName, hc] at hrun
              cases hrun
              exact fun _ => rfl
          | some c =>
              rw [run_registerInstName hc] at hrun
              split at hrun
              · cases hrun
                exact fun _ => rfl
              · cases hrun
        exact ⟨hkeeps, fun name => .inl ((registerInstName_error hrun).classes_eq name),
          fun b name => (Indices.nameTaken_of_cls_eq (hcls b) name).mpr⟩
    | ok u idx' =>
        rw [finalState_of_ok hrun] at hkeeps ⊢
        exact ⟨hkeeps, fun name => .inl ((registerInstName_ok hrun).1 name),
          fun b name ht => ((registerInstName_taken hrun).2.2 b name).mpr (.inr ht)⟩
  have hid : Moves (Indices.Binds refs) (registerInstId a inst : IdxM τ Unit) := by
    intro idx
    rcases registerInstId_cases a inst idx with hsame | ⟨c, set, hc, hset⟩
    · rw [hsame]
      exact refl_of (Indices.Binds refs) idx
    · rw [hset]
      refine ⟨keeps_setClass hc rfl rfl, fun name => .inl rfl, fun b name => ?_⟩
      -- the name index of the class is the same
      by_cases hb : b = a
      · subst hb
        have hc' : ((idx.setClass b { c with instIdx := some set }).classes b).cls
            = some { c with instIdx := some set } := by rw [Indices.classes_setClass, if_pos rfl]
        exact (Indices.nameTaken_congr hc hc' rfl name).mpr
      · refine (Indices.nameTaken_of_cls_eq ?_ name).mpr
        rw [Indices.classes_setClass, if_neg hb]
  have htexts : Moves (Indices.Binds refs) (indexAttrVars inst : IdxM τ Unit) :=
    Moves.zoom _ fun _ _ => ⟨⟨⟨rfl, rfl⟩, rfl, fun _ => rfl, fun _ => rfl, fun _ => rfl⟩,
      fun _ => .inl rfl, fun _ _ => id⟩
  exact .bind (.ite (fun _ => hname) fun _ => .pure _) fun _ => .bind hid fun _ =>
    .ite (fun _ => htexts) fun _ => .pure _

omit [AttrVarOps τ] in
theorem binds_checkClassEntry (a : ClassAddr) (refs : List ClassStateRef) :
    Moves (Indices.Binds refs) (checkClassEntry a : IdxM τ Unit) := by
  intro idx
  cases hrun : (checkClassEntry a).run idx with
  | ok u idx' =>
      rw [finalState_of_ok hrun, (checkClassEntry_ok hrun).1]
      exact refl_of _ idx
  | error e idx' =>
      rw [finalState_of_error hrun]
      cases e with
      | err e =>
          rw [(checkClassEntry_error hrun).1]
          exact refl_of _ idx
      | abort =>
          rw [checkClassEntry_abort hrun]
          exact refl_of _ idx

omit [AttrVarOps τ] in
/-- The indices of a class are there, with what they had. -/
theorem nameTaken_ensureInstIdxs {a : ClassAddr} {idx : Indices τ} {c : Class} (hc : (idx.classes a).cls = some c)
    (b : ClassAddr) (name : Name) :
    (idx.setClass a { c with instNameIdx := some c.nameDict, instIdx := some c.idSet }).NameTaken b name
      ↔ idx.NameTaken b name := by
  by_cases hb : b = a
  · subst hb
    have hc' : ((idx.setClass b { c with instNameIdx := some c.nameDict, instIdx := some c.idSet }).classes b).cls
        = some { c with instNameIdx := some c.nameDict, instIdx := some c.idSet } := by
      rw [Indices.classes_setClass, if_pos rfl]
    exact Indices.nameTaken_congr hc hc' rfl name
  · refine Indices.nameTaken_of_cls_eq ?_ name
    rw [Indices.classes_setClass, if_neg hb]

omit [AttrVarOps τ] in
theorem binds_ensureInstIdxs (a : ClassAddr) (refs : List ClassStateRef) :
    Moves (Indices.Binds refs) (ensureInstIdxs a : IdxM τ Unit) := by
  intro idx
  have hkeeps := keeps_ensureInstIdxs a idx
  cases hc : (idx.classes a).cls with
  | none =>
      have hrun : (ensureInstIdxs a).run idx = .error .abort idx := by
        rw [EStateM.run, ensureInstIdxs, hc]
      rw [finalState_of_error hrun]
      exact refl_of (Indices.Binds refs) idx
  | some c =>
      rw [finalState_of_ok (run_ensureInstIdxs hc)] at hkeeps ⊢
      exact ⟨hkeeps, fun _ => .inl rfl, fun b name => (nameTaken_ensureInstIdxs hc b name).mpr⟩

/-- Registering an instance leaves the name index of the classes alone. -/
theorem kept_classNameIdx_registerInst (commit : CommitAddr) (a : ClassAddr) (inst : ClassInst) :
    Moves (Kept Indices.classNameIdx) (registerInst commit a inst : IdxM τ Unit) := by
  have hname : Moves (Kept Indices.classNameIdx) (registerInstName commit a inst : IdxM τ Unit) := by
    intro idx
    rcases registerInstName_cases commit a inst idx with hsame | ⟨pool, hpooled | ⟨c, dict, -, hset⟩⟩
    · rw [hsame]
      rfl
    · rw [hpooled]
      rfl
    · rw [hset]
      rfl
  have hid : Moves (Kept Indices.classNameIdx) (registerInstId a inst : IdxM τ Unit) := by
    intro idx
    rcases registerInstId_cases a inst idx with hsame | ⟨c, set, -, hset⟩
    · rw [hsame]
      rfl
    · rw [hset]
      rfl
  have htexts : Moves (Kept Indices.classNameIdx) (indexAttrVars inst : IdxM τ Unit) := Moves.zoom _ fun _ _ => rfl
  exact .bind (.ite (fun _ => hname) fun _ => .pure _) fun _ => .bind hid fun _ =>
    .ite (fun _ => htexts) fun _ => .pure _

/-- **The update for the class states of a commit**, however it ends. -/
theorem binds_updateIndices (commit : CommitAddr) (refs : List ClassStateRef) :
    Moves (Indices.Binds refs) (updateIndices commit refs : IdxM τ Unit) := by
  refine .forM fun ref href => ?_
  unfold updateClassIndices
  cases hphase : ref.phase with
  | created => exact binds_registerClass href hphase
  | selected =>
      exact .ite (fun _ => .bind (binds_checkClassEntry _ _) fun _ => .bind (binds_ensureInstIdxs _ _) fun _ =>
        .forM fun i _ => binds_registerInst refs) fun _ => .pure _

/-! ## (4) The names of a returning update -/

/-- A class state whose instances are instances of its class. -/
def ClassStateRef.Tidy (ref : ClassStateRef) : Prop :=
  (ref.phase = .created → ref.children = []) ∧ ∀ i ∈ ref.children, i.blueprint = ref.entry

/-- **The names of the instances are new**, and taken afterwards. -/
structure Indices.NamesNew (insts : List ClassInst) (idx idx' : Indices τ) : Prop where
  /-- Before. -/
  free : ∀ i ∈ insts, i.name ≠ [] → ¬idx.NameTaken i.blueprint i.name
  /-- Afterwards. -/
  taken : ∀ i ∈ insts, i.name ≠ [] → idx'.NameTaken i.blueprint i.name
  /-- They are distinct in a class. -/
  distinct : insts.Pairwise fun i j => i.blueprint = j.blueprint → i.name ≠ [] → i.name ≠ j.name
  /-- No name becomes free. -/
  stays : ∀ b name, idx.NameTaken b name → idx'.NameTaken b name

namespace Indices.NamesNew

variable {insts insts' : List ClassInst} {idx idx₁ idx' : Indices τ}

omit [AttrVarOps τ] in
/-- No instance. -/
theorem nil (h : ∀ b name, idx.NameTaken b name → idx'.NameTaken b name) : idx.NamesNew [] idx' :=
  ⟨fun _ hi => (nomatch hi), fun _ hi => (nomatch hi), .nil, h⟩

/-- One instance. -/
theorem of_registers {i : ClassInst} (h : Registers i.blueprint i idx idx') : idx.NamesNew [i] idx' where
  free j hj hname := by
    obtain rfl := List.mem_singleton.mp hj
    exact h.free hname
  taken j hj hname := by
    obtain rfl := List.mem_singleton.mp hj
    exact (h.taken _ _).mpr (.inl ⟨rfl, rfl, hname⟩)
  distinct := List.pairwise_singleton _ _
  stays b name ht := (h.taken b name).mpr (.inr ht)

omit [AttrVarOps τ] in
/-- One list after the other. -/
theorem append (h : idx.NamesNew insts idx₁) (h' : idx₁.NamesNew insts' idx') :
    idx.NamesNew (insts ++ insts') idx' where
  free i hi hname := by
    rcases List.mem_append.mp hi with hi | hi
    · exact h.free i hi hname
    · exact fun ht => h'.free i hi hname (h.stays _ _ ht)
  taken i hi hname := by
    rcases List.mem_append.mp hi with hi | hi
    · exact h'.stays _ _ (h.taken i hi hname)
    · exact h'.taken i hi hname
  distinct := by
    refine List.pairwise_append.mpr ⟨h.distinct, h'.distinct, fun i hi j hj hsame hname heq => ?_⟩
    -- the name of the first one is taken when the second one comes
    refine h'.free j hj (heq ▸ hname) ?_
    rw [← hsame, ← heq]
    exact h.taken i hi hname
  stays b name ht := h'.stays b name (h.stays b name ht)

end Indices.NamesNew

theorem namesNew_registerInsts {commit : CommitAddr} {a : ClassAddr} {insts : List ClassInst} {idx idx' : Indices τ}
    (hblueprint : ∀ i ∈ insts, i.blueprint = a) (h : (insts.forM (registerInst commit a)).run idx = .ok () idx') :
    idx.NamesNew insts idx' := by
  induction insts generalizing idx with
  | nil =>
      cases h
      exact .nil fun _ _ => id
  | cons i insts ih =>
      obtain ⟨u, idx₁, hfirst, hothers⟩ := run_bind_eq_ok.mp h
      obtain rfl := hblueprint i List.mem_cons_self
      have hone := Indices.NamesNew.of_registers (registerInst_ok hfirst)
      exact hone.append (ih (fun j hj => hblueprint j (List.mem_cons_of_mem _ hj)) hothers)

/-- **An update that returns**: the names are new, and the classes are found by their names. -/
theorem updateIndices_ok {commit : CommitAddr} {refs : List ClassStateRef} {idx idx' : Indices τ}
    (htidy : ∀ ref ∈ refs, ref.Tidy) (h : (updateIndices commit refs).run idx = .ok () idx') :
    idx.NamesNew (refs.flatMap ClassStateRef.children) idx' ∧
      ∀ ref ∈ refs, ref.phase = .created ∨ ref.children ≠ [] →
        idx'.classByName (idx.classes ref.entry).name ≠ none := by
  induction refs generalizing idx with
  | nil =>
      cases h
      exact ⟨.nil fun _ _ => id, fun _ href => nomatch href⟩
  | cons ref refs ih =>
      obtain ⟨u, idx₁, hfirst, hothers⟩ := run_bind_eq_ok.mp h
      have hkeeps := (keeps_updateClassIndices commit ref).of_ok hfirst
      obtain ⟨hnames, hfound⟩ := ih (fun r hr => htidy r (List.mem_cons_of_mem _ hr)) hothers
      have hbinds := (binds_updateIndices commit refs).of_ok hothers
      obtain ⟨hnone, hblueprint⟩ := htidy ref List.mem_cons_self
      -- what the first class state does, by its phase
      have hone : idx.NamesNew ref.children idx₁ ∧ (ref.phase = .created ∨ ref.children ≠ [] →
          idx₁.classByName (idx.classes ref.entry).name ≠ none) := by
        unfold updateClassIndices at hfirst
        cases hphase : ref.phase with
        | created =>
            rw [hphase] at hfirst
            rw [hnone hphase]
            refine ⟨.nil fun b name => ((registerClass_registers hfirst).2.1 b name).mpr, fun _ => ?_⟩
            rw [(registerClass_ok hfirst).1, if_pos rfl]
            exact Option.some_ne_none _
        | selected =>
            rw [hphase] at hfirst
            by_cases hempty : ref.children = []
            · simp only [hempty, ne_eq, not_true_eq_false, if_false] at hfirst
              cases hfirst
              rw [hempty]
              refine ⟨.nil fun _ _ => id, fun hor => ?_⟩
              rcases hor with hcreated | hne
              · cases hcreated
              · exact absurd rfl hne
            · simp only [hempty, ne_eq, not_false_eq_true, if_true] at hfirst
              obtain ⟨u₁, idx₂, hcheck, hrest⟩ := run_bind_eq_ok.mp hfirst
              obtain ⟨rfl, ⟨c, hc⟩, hbound⟩ := checkClassEntry_ok hcheck
              obtain ⟨u₂, idx₃, hensure, hloop⟩ := run_bind_eq_ok.mp hrest
              rw [run_ensureInstIdxs hc] at hensure
              cases hensure
              have hloops := namesNew_registerInsts hblueprint hloop
              refine ⟨⟨fun i hi hname ht => hloops.free i hi hname ((nameTaken_ensureInstIdxs hc _ _).mpr ht),
                hloops.taken, hloops.distinct,
                fun b name ht => hloops.stays b name ((nameTaken_ensureInstIdxs hc b name).mpr ht)⟩, fun _ => ?_⟩
              have hloopBinds : Moves (Indices.Binds [])
                  (ref.children.forM (registerInst commit ref.entry) : IdxM τ Unit) :=
                .forM fun i _ => binds_registerInst []
              have hstill := (hloopBinds.of_ok hloop).ne_none hbound
              exact hstill
      rw [List.flatMap_cons]
      -- what it has bound stays so under the class states behind it
      refine ⟨hone.1.append hnames, fun r hr hor => ?_⟩
      rcases List.mem_cons.mp hr with rfl | hr
      · exact hbinds.ne_none (hone.2 hor)
      · rw [← hkeeps.names]
        exact hfound r hr hor

/-! ## (5) An update that returns -/

/-- **Two instances of a class differ** in their numbers, and in their names when they have names. -/
def ClassInst.Apart (i j : ClassInst) : Prop :=
  i.blueprint = j.blueprint → i.numid ≠ j.numid ∧ (i.name ≠ [] → i.name ≠ j.name)

omit [AttrVarOps τ] in
theorem ClassInst.id_inj {i j : ClassInst} : i.id = j.id ↔ i.numid = j.numid := by
  rw [ClassInst.id, ClassInst.id, kndNumToStr_eq, kndNumToStr_eq, digitsKey_inj, numDigits_inj]

/-- **The indices hold the instances `insts`**, each once, and no others. -/
structure Indices.Holds (idx : Indices τ) (insts : List ClassInst) : Prop where
  /-- By their ids. -/
  byId : ∀ a id i, idx.instById a id = some i ↔ i ∈ insts ∧ i.blueprint = a ∧ i.id = id
  /-- By their names. -/
  byName : ∀ a name i, idx.indexedInst a name = some i ↔
    i ∈ insts ∧ i.blueprint = a ∧ i.name = name ∧ name ≠ []
  /-- They differ. -/
  apart : insts.Pairwise ClassInst.Apart
  /-- Their classes are there and have counted them. -/
  counted : ∀ i ∈ insts, i.blueprint < idx.nextClass ∧ i.numid ≤ (idx.classes i.blueprint).body.instIdCount

namespace Indices.Holds

variable {idx idx' : Indices τ} {insts : List ClassInst}

omit [AttrVarOps τ] in
/-- The same lookups, and no smaller counts. -/
theorem congr (h : idx.Holds insts) (hids : ∀ a id, idx'.instById a id = idx.instById a id)
    (hnames : ∀ a name, idx'.indexedInst a name = idx.indexedInst a name) (hnext : idx.nextClass ≤ idx'.nextClass)
    (hcounts : ∀ a < idx.nextClass, (idx.classes a).body.instIdCount ≤ (idx'.classes a).body.instIdCount) :
    idx'.Holds insts where
  byId a id i := by rw [hids]; exact h.byId a id i
  byName a name i := by rw [hnames]; exact h.byName a name i
  apart := h.apart
  counted i hi := by
    obtain ⟨hlt, hle⟩ := h.counted i hi
    exact ⟨lt_of_lt_of_le hlt hnext, hle.trans (hcounts _ hlt)⟩

omit [AttrVarOps τ] in
/-- The id of an instance that differs from all is free. -/
theorem id_free (h : idx.Holds insts) {i : ClassInst} (hi : ∀ j ∈ insts, j.Apart i) :
    idx.instById i.blueprint i.id = none := by
  cases hget : idx.instById i.blueprint i.id with
  | none => rfl
  | some j =>
      obtain ⟨hj, hsame, hid⟩ := (h.byId _ _ _).mp hget
      exact absurd (ClassInst.id_inj.mp hid) (hi j hj hsame).1

omit [AttrVarOps τ] in
/-- Its name is free. -/
theorem name_free (h : idx.Holds insts) {i : ClassInst} (hi : ∀ j ∈ insts, j.Apart i) :
    idx.indexedInst i.blueprint i.name = none := by
  cases hget : idx.indexedInst i.blueprint i.name with
  | none => rfl
  | some j =>
      obtain ⟨hj, hsame, hname, hne⟩ := (h.byName _ _ _).mp hget
      exact absurd hname ((hi j hj hsame).2 (hname ▸ hne))

/-- **One more instance.** -/
theorem register (h : idx.Holds insts) {i : ClassInst} (hr : Registers i.blueprint i idx idx')
    (hi : ∀ j ∈ insts, j.Apart i)
    (hcount : i.blueprint < idx.nextClass ∧ i.numid ≤ (idx.classes i.blueprint).body.instIdCount) :
    idx'.Holds (insts ++ [i]) where
  byId a id j := by
    rw [hr.ids, List.mem_append, List.mem_singleton]
    by_cases hnew : a = i.blueprint ∧ id = i.id
    · rw [if_pos hnew]
      obtain ⟨rfl, rfl⟩ := hnew
      constructor
      · intro heq
        cases heq
        exact ⟨.inr rfl, rfl, rfl⟩
      · rintro ⟨hj | rfl, hsame, hid⟩
        · exact absurd (ClassInst.id_inj.mp hid) (hi j hj hsame).1
        · rfl
    · rw [if_neg hnew, h.byId]
      constructor
      · exact fun hj => ⟨.inl hj.1, hj.2⟩
      · rintro ⟨hj | rfl, hsame, hid⟩
        · exact ⟨hj, hsame, hid⟩
        · exact absurd ⟨hsame.symm, hid.symm⟩ hnew
  byName a name j := by
    rw [hr.names, List.mem_append, List.mem_singleton]
    by_cases hnew : a = i.blueprint ∧ name = i.name ∧ name ≠ []
    · rw [if_pos hnew]
      obtain ⟨rfl, rfl, hne⟩ := hnew
      constructor
      · intro heq
        cases heq
        exact ⟨.inr rfl, rfl, rfl, hne⟩
      · rintro ⟨hj | rfl, hsame, hname, -⟩
        · exact absurd hname ((hi j hj hsame).2 (hname ▸ hne))
        · rfl
    · rw [if_neg hnew, h.byName]
      constructor
      · exact fun hj => ⟨.inl hj.1, hj.2⟩
      · rintro ⟨hj | rfl, hsame, hname, hne⟩
        · exact ⟨hj, hsame, hname, hne⟩
        · exact absurd ⟨hsame.symm, hname.symm, hne⟩ hnew
  apart := List.pairwise_append.mpr ⟨h.apart, List.pairwise_singleton _ _, fun j hj k hk => by
    obtain rfl := List.mem_singleton.mp hk
    exact hi j hj⟩
  counted j hj := by
    rw [hr.keeps.count_eq, hr.keeps.next.1]
    rcases List.mem_append.mp hj with hj | hj
    · exact h.counted j hj
    · obtain rfl := List.mem_singleton.mp hj
      exact hcount

end Indices.Holds

/-- **The instances of a class are registered**, when they differ from each other and from those that are there. -/
theorem registerInsts_returns (commit : CommitAddr) {a : ClassAddr} {insts old : List ClassInst} {idx : Indices τ}
    (h : idx.Holds old) (hcls : (idx.classes a).cls.isSome = true)
    (hlt : a < idx.nextClass) (hnew : ∀ i ∈ insts, i.blueprint = a ∧
      i.numid ≤ (idx.classes a).body.instIdCount ∧ AttrsAccepted τ i.attrs)
    (hapart : (old ++ insts).Pairwise ClassInst.Apart)
    (hpages : (insts.map ClassInst.pages).sum ≤ idx.pool.tinyPages) :
    ∃ idx', (insts.forM (registerInst commit a)).run idx = .ok () idx' ∧ idx'.Holds (old ++ insts) ∧
      (insts.forM indexTexts).run idx.texts = .ok () idx'.texts ∧
      idx'.pool.tinyPages + (insts.map ClassInst.pages).sum = idx.pool.tinyPages := by
  induction insts generalizing idx old with
  | nil =>
      rw [List.append_nil]
      exact ⟨idx, rfl, h, rfl, rfl⟩
  | cons i insts ih =>
      obtain ⟨rfl, hcount, hattrs⟩ := hnew i List.mem_cons_self
      rw [List.map_cons, List.sum_cons] at hpages ⊢
      have hi : ∀ j ∈ old, j.Apart i := fun j hj =>
        (List.pairwise_append.mp hapart).2.2 j hj i List.mem_cons_self
      -- the first instance differs from those that are there, so its name and its id are free
      obtain ⟨idx₁, hrun⟩ := registerInst_returns commit hcls
        (fun _ => Indices.not_nameTaken (h.name_free hi)) (by omega) (h.id_free hi) hattrs
      have hr := registerInst_ok hrun
      have hpool := hr.pages
      obtain ⟨idx', hloop, hholds, htexts, hleft⟩ := ih (h.register hr hi ⟨hlt, hcount⟩)
        (by rw [hr.keeps.isSome_eq]; exact hcls) (by rw [hr.keeps.next.1]; exact hlt)
        (fun j hj => by
          rw [hr.keeps.count_eq]
          exact hnew j (List.mem_cons_of_mem _ hj))
        (by rw [List.append_assoc]; exact hapart) (by omega)
      refine ⟨idx', (run_bind_of_ok hrun).trans hloop, ?_, (run_bind_of_ok hr.texts).trans htexts, by omega⟩
      rw [List.append_assoc] at hholds
      exact hholds

/-- The tiny pages that registering a class state takes. -/
def ClassStateRef.pages (ref : ClassStateRef) : Nat :=
  (if ref.phase = .created then 2 else 0) + (ref.children.map ClassInst.pages).sum

/-- **The update for class states that can be registered**: the new classes have free names, the classes of the
instances are there, and the instances differ. -/
structure Indices.Admits (idx : Indices τ) (old : List ClassInst) (refs : List ClassStateRef) : Prop where
  /-- What is there. -/
  holds : idx.Holds old
  /-- The class states. -/
  tidy : ∀ ref ∈ refs, ref.Tidy
  /-- The new classes. -/
  free : ∀ ref ∈ refs, ref.phase = .created → ¬idx.classNameIdx.Taken (idx.classes ref.entry).name
  /-- The other classes. -/
  found : ∀ ref ∈ refs, ref.children ≠ [] →
    (idx.classes ref.entry).cls.isSome = true ∧ idx.classByName (idx.classes ref.entry).name ≠ none
  /-- The instances. -/
  insts : ∀ ref ∈ refs, ∀ i ∈ ref.children,
    i.numid ≤ (idx.classes ref.entry).body.instIdCount ∧ AttrsAccepted τ i.attrs
  /-- The entries. -/
  entries : ∀ ref ∈ refs, ref.entry < idx.nextClass
  /-- They differ. -/
  apart : (old ++ refs.flatMap ClassStateRef.children).Pairwise ClassInst.Apart
  /-- The pages. -/
  pages : (refs.map ClassStateRef.pages).sum ≤ idx.pool.tinyPages

/-- One class state. -/
theorem updateClassIndices_returns (commit : CommitAddr) {ref : ClassStateRef} {refs : List ClassStateRef}
    {old : List ClassInst} {idx : Indices τ} (h : idx.Admits old (ref :: refs)) :
    ∃ idx', (updateClassIndices commit ref).run idx = .ok () idx' ∧ idx'.Holds (old ++ ref.children) ∧
      (ref.children.forM indexTexts).run idx.texts = .ok () idx'.texts ∧
      idx'.pool.tinyPages + ref.pages = idx.pool.tinyPages ∧
      ∀ key, idx'.classNameIdx.Taken key → idx.classNameIdx.Taken key := by
  have hpages := h.pages
  rw [List.map_cons, List.sum_cons] at hpages
  obtain ⟨hnone, hblueprint⟩ := h.tidy ref List.mem_cons_self
  have hpagesOf : ref.pages = (if ref.phase = .created then 2 else 0) + (ref.children.map ClassInst.pages).sum := rfl
  unfold updateClassIndices
  cases hphase : ref.phase with
  | created =>
      rw [hphase, if_pos rfl, hnone hphase] at hpagesOf
      rw [hnone hphase, List.append_nil, hpagesOf]
      have hreturns : ∃ idx', (registerClass commit ref.entry).run idx = .ok () idx' := by
        cases hrun : (registerClass commit ref.entry).run idx with
        | ok u idx' => exact ⟨idx', rfl⟩
        | error e idx' =>
            exfalso
            rcases registerClass_fails_iff.mp ⟨e, idx', hrun⟩ with htaken | hfew
            · exact h.free ref List.mem_cons_self hphase htaken
            · rw [hpagesOf, List.map_nil, List.sum_nil] at hpages
              omega
      obtain ⟨idx', hrun⟩ := hreturns
      obtain ⟨hclasses, hnames, hids, htexts⟩ := registerClass_ok hrun
      obtain ⟨hpool, -, htaken⟩ := registerClass_registers hrun
      have hkeeps := (keeps_registerClass commit ref.entry).of_ok hrun
      refine ⟨idx', hrun, h.holds.congr hids hnames hkeeps.next.1.ge fun a _ => ?_, ?_, hpool, htaken⟩
      · rw [hkeeps.count_eq]
      · rw [htexts]
        rfl
  | selected =>
      rw [hphase, if_neg ClassPhase.noConfusion, Nat.zero_add] at hpagesOf
      by_cases hempty : ref.children = []
      · simp only [hempty, ne_eq, not_true_eq_false, if_false]
        rw [hempty] at hpagesOf
        rw [List.append_nil, hpagesOf]
        exact ⟨idx, rfl, h.holds, rfl, rfl, fun _ => id⟩
      · simp only [hempty, ne_eq, not_false_eq_true, if_true]
        obtain ⟨hcls, hbound⟩ := h.found ref List.mem_cons_self hempty
        obtain ⟨c, hc⟩ := Option.isSome_iff_exists.mp hcls
        have hcheck : (checkClassEntry ref.entry).run idx = .ok () idx := by
          rw [run_checkClassEntry, hc]
          cases hget : kndSharedDictGet idx.classNameIdx (idx.classes ref.entry).name with
          | none => exact absurd hget hbound
          | some b => rfl
        set c' : Class := { c with instNameIdx := some c.nameDict, instIdx := some c.idSet } with hc'
        have hensure : (ensureInstIdxs ref.entry).run idx = .ok () (idx.setClass ref.entry c') :=
          run_ensureInstIdxs hc
        have hsame := sameIndexed_ensureInstIdxs hensure
        have hkeeps := (keeps_ensureInstIdxs ref.entry).of_ok hensure
        have happart : (old ++ ref.children).Pairwise ClassInst.Apart := by
          have hall := h.apart
          rw [List.flatMap_cons, ← List.append_assoc] at hall
          exact (List.pairwise_append.mp hall).1
        obtain ⟨idx', hloop, hholds, htexts, hleft⟩ := registerInsts_returns commit
          (h.holds.congr hsame.ids_eq hsame.names_eq hkeeps.next.1.ge fun a _ => by rw [hkeeps.count_eq])
          (by rw [hkeeps.isSome_eq]; exact hcls)
          (by rw [hkeeps.next.1]; exact h.entries ref List.mem_cons_self)
          (fun i hi => ⟨hblueprint i hi, by
            rw [hkeeps.count_eq]
            exact h.insts ref List.mem_cons_self i hi⟩) happart
          (show _ ≤ idx.pool.tinyPages by omega)
        have hloopKept : Moves (Kept Indices.classNameIdx)
            (ref.children.forM (registerInst commit ref.entry) : IdxM τ Unit) :=
          .forM fun i _ => kept_classNameIdx_registerInst commit ref.entry i
        refine ⟨idx', ?_, hholds, htexts, ?_, fun key => ?_⟩
        · rw [kndClassInstUpdateIndices, run_bind_of_ok hcheck, run_bind_of_ok hensure]
          exact hloop
        · rw [hpagesOf]
          exact hleft
        · have hkept : idx'.classNameIdx = (idx.setClass ref.entry c').classNameIdx := hloopKept.of_ok hloop
          rw [hkept]
          exact id

/-- **The update for class states that can be registered returns**, and the indices hold their instances. -/
theorem updateIndices_returns (commit : CommitAddr) {refs : List ClassStateRef} {old : List ClassInst}
    {idx : Indices τ} (h : idx.Admits old refs) :
    ∃ idx', (updateIndices commit refs).run idx = .ok () idx' ∧
      idx'.Holds (old ++ refs.flatMap ClassStateRef.children) ∧
      ((refs.flatMap ClassStateRef.children).forM indexTexts).run idx.texts = .ok () idx'.texts ∧
      idx'.pool.tinyPages + (refs.map ClassStateRef.pages).sum = idx.pool.tinyPages := by
  induction refs generalizing idx old with
  | nil =>
      rw [List.flatMap_nil, List.append_nil]
      exact ⟨idx, rfl, h.holds, rfl, rfl⟩
  | cons ref refs ih =>
      obtain ⟨idx₁, hfirst, hholds, htexts, hpool, htaken⟩ := updateClassIndices_returns commit h
      have hkeeps := (keeps_updateClassIndices commit ref).of_ok hfirst
      have hbinds : idx.Binds [ref] idx₁ := by
        have hone : (updateIndices commit [ref]).run idx = .ok () idx₁ := by
          have hpure : (updateIndices commit [ref]).run idx
              = (updateClassIndices commit ref >>= fun _ => pure () : IdxM τ Unit).run idx := rfl
          rw [hpure, run_bind_of_ok hfirst]
          rfl
        exact (binds_updateIndices commit [ref]).of_ok hone
      have hmem : ∀ r ∈ refs, r ∈ ref :: refs := fun r hr => List.mem_cons_of_mem _ hr
      have hpages := h.pages
      rw [List.map_cons, List.sum_cons] at hpages ⊢
      have happart := h.apart
      rw [List.flatMap_cons, ← List.append_assoc] at happart
      have hadmits : idx₁.Admits (old ++ ref.children) refs := {
        holds := hholds
        tidy := fun r hr => h.tidy r (hmem r hr)
        free := fun r hr hphase ht => h.free r (hmem r hr) hphase (by
          rw [hkeeps.names] at ht
          exact htaken _ ht)
        found := fun r hr hne => by
          obtain ⟨hcls, hbound⟩ := h.found r (hmem r hr) hne
          rw [hkeeps.isSome_eq, hkeeps.names]
          exact ⟨hcls, hbinds.ne_none hbound⟩
        insts := fun r hr i hi => by
          rw [hkeeps.count_eq]
          exact h.insts r (hmem r hr) i hi
        entries := fun r hr => by
          rw [hkeeps.next.1]
          exact h.entries r (hmem r hr)
        apart := happart
        pages := by omega }
      obtain ⟨idx', hothers, hholds', htexts', hpool'⟩ := ih hadmits
      refine ⟨idx', (run_bind_of_ok hfirst).trans hothers, ?_, ?_, by omega⟩
      · rw [List.flatMap_cons, ← List.append_assoc]
        exact hholds'
      · rw [List.flatMap_cons, forM_append, run_bind_of_ok htexts]
        exact htexts'

end Instances

end Knowdy
