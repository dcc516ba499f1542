import Knowdy.ClassAncestors

/-! # The descendant index of classes

`knd_class.index.c`: after the classes are resolved, each of them is entered into the children of its bases
and into the sets of descendants of its ancestors. `index_ancestor` looks into the set first,
`index_baseclass` adds to the set of the base without looking, and counts a child of a bulk load twice.

* `indexAncestor`, `indexBaseclass`, `kndClassIndex`, `indexClasses` — the code.
* `Indexed` — what the sets, the lists and the counters hold on the way.
* `Mirrors` — the index mirrors the ancestor relation; `mirrors_iff` — when it does. -/

namespace Knowdy.Hierarchy

open Relation

/-! ## (1) The code -/

/-- A program of the indexing. -/
abbrev IndexM := EStateM KndErr Heap

namespace Heap

variable (s : Heap)

/-- `id` of the entry. -/
def entryId (c : Addr) : List UInt8 := kndUidCreate (s.cells c).numid

/-- `descendants`, a new set before its first use. -/
def descendants (c : Addr) : KndSet Addr := (s.cells c).descendants.getD {}

/-- A write of `descendants`. -/
def setDescendants (base : Addr) (set : KndSet Addr) : Heap :=
  s.modifyCell base fun cell => { cell with descendants := some set }

/-- `num_terminals++`. -/
def countTerminal (base : Addr) : Heap :=
  s.modifyCell base fun cell => { cell with numTerminals := cell.numTerminals + 1 }

/-- `num_children++`. -/
def countChild (base : Addr) : Heap :=
  s.modifyCell base fun cell => { cell with numChildren := cell.numChildren + 1 }

/-- `set_child_ref`. -/
def setChildRef (base child : Addr) : Heap :=
  s.modifyCell base fun cell =>
    { cell with
      children := child :: cell.children
      numChildren := cell.numChildren + 1 }

/-- `indexing_in_progress = true`. -/
def setIndexing (self : Addr) : Heap :=
  s.modifyCell self fun cell => { cell with indexingInProgress := true }

/-- `is_indexed = true`. -/
def setIndexed (self : Addr) : Heap := s.modifyCell self fun cell => { cell with isIndexed := true }

end Heap

/-- The class is counted and added to the descendants of `base`. -/
def addDescendant (self base : Addr) : IndexM Unit := do
  modify fun s => s.countTerminal base
  let s ← get
  modify fun s => s.setDescendants base (kndSetAdd (s.descendants base) (s.entryId self) self).2
  ofExcept (kndSetAdd (s.descendants base) (s.entryId self) self).1

/-- `index_ancestor`, in one repository. -/
def indexAncestor (self base : Addr) : IndexM Unit := do
  let s ← get
  match kndSetGet (s.descendants base) (s.entryId self) with
  | .ok _ => pure ()
  | .error _ => addDescendant self base

/-- `index_baseclass`. -/
def indexBaseclass (root : Addr) (task : TaskType) (self base : Addr) : IndexM Unit := do
  modify fun s => s.setChildRef base self
  (if task = .bulkLoad then modify fun s => s.countChild base else pure ())
  let s ← get
  (s.below base root).forM (indexAncestor self)
  addDescendant self base

section Code

variable (G : Schema) (task : TaskType)

/-- `knd_class_index`. The attributes are entered into indices of their own. -/
def kndClassIndex (self : Addr) : IndexM Unit := do
  let s ← get
  if (s.cells self).isIndexed then pure ()
  else if (s.cells self).indexingInProgress then throw .fail
  else
    modify fun s => s.setIndexing self
    (if (G.baseclassVars self).isEmpty then indexBaseclass G.root task self G.root
      else (G.baseclassVars self).forM fun cvar => indexBaseclass G.root task self cvar.entry)
    modify fun s => s.setIndexed self

/-- `index_classes`, over the classes in the order of the name index. -/
def indexClasses (order : List Addr) : IndexM Unit := order.forM (kndClassIndex G task)

end Code

/-! ## (2) One descendant -/

/-- **What the index holds on the way**: the sets hold the pairs of `R`, the lists are those of `ch`,
and the counters agree with them. -/
structure Indexed (s₀ : Heap) (perChild : Nat) (R : Addr → Addr → Prop) (ch : Addr → List Addr)
    (s : Heap) : Prop where
  /-- Numbers are kept. -/
  numid : ∀ c, (s.cells c).numid = (s₀.cells c).numid
  /-- Ancestors are kept. -/
  ancestors : ∀ c, (s.cells c).ancestors = (s₀.cells c).ancestors
  /-- The descendants. -/
  holds : ∀ b, (s.descendants b).Holds (fun c => (s₀.cells c).numid) (R b)
  /-- They are resolved. -/
  resolved : ∀ b c, R b c → s₀.Resolved c
  /-- `num_terminals`. -/
  terminals : ∀ b, (s.cells b).numTerminals = (s.descendants b).elems.length
  /-- `children`. -/
  children : ∀ b, (s.cells b).children = ch b
  /-- `num_children`. -/
  numChildren : ∀ b, (s.cells b).numChildren = perChild * (ch b).length

section Pairs

variable {G : Schema} {old : Addr → List Addr} {s₀ s : Heap} {perChild : Nat} {R : Addr → Addr → Prop}
  {ch : Addr → List Addr} {b c : Addr}

/-- The same pairs and lists. -/
theorem Indexed.congr {R' : Addr → Addr → Prop} {ch' : Addr → List Addr}
    (h : Indexed s₀ perChild R ch s) (hR : ∀ b c, R b c ↔ R' b c)
    (hch : ∀ b, ch b = ch' b) : Indexed s₀ perChild R' ch' s where
  numid := h.numid
  ancestors := h.ancestors
  holds b := (h.holds b).congr (hR b)
  resolved b c hbc := h.resolved b c ((hR b c).mpr hbc)
  terminals := h.terminals
  children b := (h.children b).trans (hch b)
  numChildren b := by rw [h.numChildren b, hch b]

/-- A class that is not among the descendants has a number that is free there. -/
theorem Indexed.free (h : Indexed s₀ perChild R ch s) (hs : Settled G old s₀) (hc : s₀.Resolved c)
    (hfree : ¬R b c) (d : Addr) (hd : R b d) : (s₀.cells d).numid ≠ (s₀.cells c).numid := by
  intro hnum
  rw [hs.numid_inj d c (h.resolved b d hd) hc hnum] at hd
  exact hfree hd

theorem Indexed.entryId (h : Indexed s₀ perChild R ch s) (c : Addr) :
    s.entryId c = kndUidCreate (s₀.cells c).numid := by rw [Heap.entryId, h.numid]

/-- **A write to one class**: the index holds what is said of the others, if it does of this one. -/
theorem Indexed.write {s' : Heap} {R' : Addr → Addr → Prop} {ch' : Addr → List Addr}
    (h : Indexed s₀ perChild R ch s) (hother : ∀ x, x ≠ b → s'.cells x = s.cells x)
    (hnumid : (s'.cells b).numid = (s.cells b).numid)
    (hancestors : (s'.cells b).ancestors = (s.cells b).ancestors)
    (hholds : (s'.descendants b).Holds (fun c => (s₀.cells c).numid) (R' b))
    (hresolved : ∀ c, R' b c → s₀.Resolved c)
    (hterminals : (s'.cells b).numTerminals = (s'.descendants b).elems.length)
    (hchildren : (s'.cells b).children = ch' b) (hnum : (s'.cells b).numChildren = perChild * (ch' b).length)
    (hR : ∀ x, x ≠ b → ∀ c, R x c ↔ R' x c) (hch : ∀ x, x ≠ b → ch x = ch' x) :
    Indexed s₀ perChild R' ch' s' := by
  have hdesc : ∀ x, x ≠ b → s'.descendants x = s.descendants x := fun x hx => by
    rw [Heap.descendants, hother x hx, Heap.descendants]
  refine ⟨fun x => ?_, fun x => ?_, fun x => ?_, fun x => ?_, fun x => ?_, fun x => ?_, fun x => ?_⟩ <;>
    by_cases hx : x = b
  · rw [hx, hnumid]
    exact h.numid b
  · rw [hother x hx]
    exact h.numid x
  · rw [hx, hancestors]
    exact h.ancestors b
  · rw [hother x hx]
    exact h.ancestors x
  · rw [hx]
    exact hholds
  · rw [hdesc x hx]
    exact (h.holds x).congr (hR x hx)
  · rw [hx]
    exact hresolved
  · exact fun c hc => h.resolved x c ((hR x hx c).mpr hc)
  · rw [hx]
    exact hterminals
  · rw [hother x hx, hdesc x hx]
    exact h.terminals x
  · rw [hx]
    exact hchildren
  · rw [hother x hx, ← hch x hx]
    exact h.children x
  · rw [hx]
    exact hnum
  · rw [hother x hx, ← hch x hx]
    exact h.numChildren x

theorem Heap.countTerminal_self (s : Heap) (b : Addr) :
    (s.countTerminal b).cells b = { s.cells b with numTerminals := (s.cells b).numTerminals + 1 } :=
  Heap.modifyCell_self ..

theorem Heap.descendants_countTerminal (s : Heap) (b : Addr) :
    (s.countTerminal b).descendants b = s.descendants b := by
  rw [Heap.descendants, Heap.countTerminal_self, Heap.descendants]

theorem Heap.entryId_countTerminal (s : Heap) (b c : Addr) : (s.countTerminal b).entryId c = s.entryId c := by
  by_cases hc : c = b
  · rw [hc, Heap.entryId, Heap.countTerminal_self, Heap.entryId]
  · rw [Heap.entryId, Heap.countTerminal, Heap.modifyCell_of_ne _ _ hc, Heap.entryId]

/-- What `addDescendant` does, by what the set answers. -/
theorem run_addDescendant (c b : Addr) (s : Heap) {rc : Except KndErr Unit} {set : KndSet Addr}
    (hadd : kndSetAdd (s.descendants b) (s.entryId c) c = (rc, set)) :
    (addDescendant c b).run s = (ofExcept rc : IndexM Unit).run ((s.countTerminal b).setDescendants b set) := by
  have hrun : (addDescendant c b).run s =
      (ofExcept (kndSetAdd ((s.countTerminal b).descendants b) ((s.countTerminal b).entryId c) c).1 :
        IndexM Unit).run ((s.countTerminal b).setDescendants b (kndSetAdd
          ((s.countTerminal b).descendants b) ((s.countTerminal b).entryId c) c).2) := rfl
  rw [hrun, Heap.descendants_countTerminal, Heap.entryId_countTerminal, hadd]

/-- **A new descendant** is counted and added. -/
theorem Indexed.addDescendant (h : Indexed s₀ perChild R ch s) (hs : Settled G old s₀)
    (hc : s₀.Resolved c) (hfree : ¬R b c) :
    ∃ s', (addDescendant c b).run s = .ok () s' ∧
      Indexed s₀ perChild (fun x y => R x y ∨ x = b ∧ y = c) ch s' := by
  obtain ⟨set, hadd, hholds, hlen⟩ := (h.holds b).kndSetAdd_free (h.free hs hc hfree)
  rw [← h.entryId] at hadd
  have hself : ((s.countTerminal b).setDescendants b set).cells b =
      { s.cells b with
        numTerminals := (s.cells b).numTerminals + 1
        descendants := some set } := by
    rw [Heap.setDescendants, Heap.modifyCell_self, Heap.countTerminal_self]
  have hdesc : ((s.countTerminal b).setDescendants b set).descendants b = set := by
    rw [Heap.descendants, hself]
    rfl
  refine ⟨(s.countTerminal b).setDescendants b set, run_addDescendant c b s hadd, ?_⟩
  refine h.write (b := b) (fun x hx => ?_) ?_ ?_ ?_ ?_ ?_ ?_ ?_ (fun x hx y => ?_) fun _ _ => rfl
  · rw [Heap.setDescendants, Heap.modifyCell_of_ne _ _ hx, Heap.countTerminal, Heap.modifyCell_of_ne _ _ hx]
  · rw [hself]
  · rw [hself]
  · rw [hdesc]
    refine hholds.congr fun y => ?_
    rw [or_comm]
    simp
  · rintro y (hy | ⟨-, rfl⟩)
    · exact h.resolved b y hy
    · exact hc
  · rw [hdesc, hself, hlen, h.terminals b]
  · rw [hself]
    exact h.children b
  · rw [hself]
    exact h.numChildren b
  · simp [hx]

/-- **A descendant that is there** is refused. -/
theorem Indexed.addDescendant_error (h : Indexed s₀ perChild R ch s) (hbc : R b c) :
    ∃ e s', (Hierarchy.addDescendant c b).run s = .error e s' := by
  obtain ⟨e, set, hadd⟩ := (h.holds b).kndSetAdd_taken hbc rfl
  rw [← h.entryId] at hadd
  exact ⟨e, _, run_addDescendant c b s hadd⟩

/-- **An ancestor** gets the class as a descendant, unless it has it. -/
theorem Indexed.indexAncestor (h : Indexed s₀ perChild R ch s) (hs : Settled G old s₀) (hc : s₀.Resolved c) :
    ∃ s', (indexAncestor c b).run s = .ok () s' ∧
      Indexed s₀ perChild (fun x y => R x y ∨ x = b ∧ y = c) ch s' := by
  have hget : (get : IndexM Heap).run s = .ok s s := rfl
  unfold Hierarchy.indexAncestor
  rw [run_bind_of_ok hget]
  by_cases hbc : R b c
  · have hfound := (h.holds b).kndSetGet_eq_ok hbc
    rw [← h.entryId] at hfound
    rw [hfound]
    refine ⟨s, rfl, h.congr (fun x y => ?_) fun _ => rfl⟩
    constructor
    · exact .inl
    · rintro (hxy | ⟨rfl, rfl⟩)
      · exact hxy
      · exact hbc
  · obtain ⟨e, hnone⟩ := (h.holds b).kndSetGet_eq_error (h.free hs hc hbc)
    rw [← h.entryId] at hnone
    rw [hnone]
    exact h.addDescendant hs hc hbc

/-- **The loop over the ancestors** of a base. -/
theorem Indexed.forM_indexAncestor (h : Indexed s₀ perChild R ch s) (hs : Settled G old s₀)
    (hc : s₀.Resolved c) (anc : List Addr) :
    ∃ s', (anc.forM (Hierarchy.indexAncestor c)).run s = .ok () s' ∧
      Indexed s₀ perChild (fun x y => R x y ∨ x ∈ anc ∧ y = c) ch s' := by
  induction anc generalizing s R with
  | nil => exact ⟨s, rfl, h.congr (fun x y => by simp) fun _ => rfl⟩
  | cons a anc ih =>
      obtain ⟨s₁, hrun₁, h₁⟩ := h.indexAncestor (b := a) hs hc
      obtain ⟨s₂, hrun₂, h₂⟩ := ih h₁
      refine ⟨s₂, run_bind_eq_ok.mpr ⟨(), s₁, hrun₁, hrun₂⟩, h₂.congr (fun x y => ?_) fun _ => rfl⟩
      rw [List.mem_cons]
      tauto

/-! ## (3) One base, one class -/

/-- How often `index_baseclass` counts a child. -/
def TaskType.countsPerChild (task : TaskType) : Nat := if task = .bulkLoad then 2 else 1

/-- The first lines of `index_baseclass`: the child is put in front and counted. -/
theorem run_setChildRef (task : TaskType) (b c : Addr) (s : Heap) :
    ∃ s', ((modify fun s => s.setChildRef b c) >>= fun _ =>
        if task = .bulkLoad then modify fun s => s.countChild b else pure () : IndexM Unit).run s = .ok () s' ∧
      s'.cells b = { s.cells b with
        children := c :: (s.cells b).children
        numChildren := (s.cells b).numChildren + task.countsPerChild } ∧
      ∀ x, x ≠ b → s'.cells x = s.cells x := by
  cases task with
  | other =>
      exact ⟨s.setChildRef b c, rfl, Heap.modifyCell_self .., fun x hx => Heap.modifyCell_of_ne _ _ hx⟩
  | bulkLoad =>
      refine ⟨(s.setChildRef b c).countChild b, rfl, ?_, fun x hx => ?_⟩
      · rw [Heap.countChild, Heap.modifyCell_self, Heap.setChildRef, Heap.modifyCell_self]
        rfl
      · rw [Heap.countChild, Heap.modifyCell_of_ne _ _ hx, Heap.setChildRef, Heap.modifyCell_of_ne _ _ hx]

/-- **A new child**. -/
theorem Indexed.setChildRef {task : TaskType} {s' : Heap} (h : Indexed s₀ task.countsPerChild R ch s)
    (hself : s'.cells b = { s.cells b with
      children := c :: (s.cells b).children
      numChildren := (s.cells b).numChildren + task.countsPerChild })
    (hother : ∀ x, x ≠ b → s'.cells x = s.cells x) :
    Indexed s₀ task.countsPerChild R (Function.update ch b (c :: ch b)) s' := by
  have hdesc : s'.descendants b = s.descendants b := by
    rw [Heap.descendants, hself, Heap.descendants]
  refine h.write hother ?_ ?_ ?_ (h.resolved b) ?_ ?_ ?_ (fun _ _ _ => Iff.rfl) fun x hx => ?_
  · rw [hself]
  · rw [hself]
  · rw [hdesc]
    exact h.holds b
  · rw [hself, hdesc]
    exact h.terminals b
  · rw [hself, Function.update_self, h.children b]
  · rw [hself, Function.update_self, List.length_cons, Nat.mul_succ, h.numChildren b]
  · rw [Function.update_of_ne hx]

/-- **One base**: the class is entered unless it is among the descendants of the base. -/
theorem Indexed.indexBaseclass {task : TaskType} (h : Indexed s₀ task.countsPerChild R ch s)
    (hs : Settled G old s₀) (hc : s₀.Resolved c) (hb : b ∉ s₀.below b G.root) :
    (¬R b c → ∃ s', (indexBaseclass G.root task c b).run s = .ok () s' ∧
      Indexed s₀ task.countsPerChild (fun x y => R x y ∨ (x = b ∨ x ∈ s₀.below b G.root) ∧ y = c)
        (Function.update ch b (c :: ch b)) s') ∧
      (R b c → ∃ e s', (Hierarchy.indexBaseclass G.root task c b).run s = .error e s') := by
  obtain ⟨s₁, hrun₁, hself, hother⟩ := run_setChildRef task b c s
  have h₁ := h.setChildRef hself hother
  have hbelow : s₁.below b G.root = s₀.below b G.root := by
    rw [Heap.below, h₁.ancestors, Heap.below]
  obtain ⟨s₂, hrun₂, h₂⟩ := h₁.forM_indexAncestor hs hc (s₁.below b G.root)
  -- the loop has not entered the class into the set of the base itself
  have hmem : R b c ∨ b ∈ s₁.below b G.root ∧ c = c ↔ R b c := by
    rw [hbelow]
    simp [hb]
  have hrun : (Hierarchy.indexBaseclass G.root task c b).run s = (Hierarchy.addDescendant c b).run s₂ := by
    have hget : (get : IndexM Heap).run s₁ = .ok s₁ s₁ := rfl
    rw [Hierarchy.indexBaseclass, ← bind_assoc, run_bind_of_ok hrun₁, run_bind_of_ok hget, run_bind_of_ok hrun₂]
  rw [hrun]
  constructor
  · intro hfree
    obtain ⟨s₃, hrun₃, h₃⟩ := h₂.addDescendant hs hc fun hbc => hfree (hmem.mp hbc)
    refine ⟨s₃, hrun₃, h₃.congr (fun x y => ?_) fun _ => rfl⟩
    rw [hbelow]
    tauto
  · intro hbc
    exact h₂.addDescendant_error (hmem.mpr hbc)

/-- **The bases of a class**: it is entered under all of them if no base is entered before it comes, as an
earlier base or as an ancestor of one. -/
theorem Indexed.forM_indexBaseclass {task : TaskType} (h : Indexed s₀ task.countsPerChild R ch s)
    (hs : Settled G old s₀) (hc : s₀.Resolved c) {bs : List Addr} (hbs : ∀ b ∈ bs, b ∉ s₀.below b G.root) :
    ((∀ b ∈ bs, ¬R b c) ∧ bs.Pairwise (fun b b' => b' ≠ b ∧ b' ∉ s₀.below b G.root) →
      ∃ s', (bs.forM (Hierarchy.indexBaseclass G.root task c)).run s = .ok () s' ∧
        Indexed s₀ task.countsPerChild
          (fun x y => R x y ∨ (∃ b ∈ bs, x = b ∨ x ∈ s₀.below b G.root) ∧ y = c)
          (fun x => if x ∈ bs then c :: ch x else ch x) s') ∧
      (¬((∀ b ∈ bs, ¬R b c) ∧ bs.Pairwise fun b b' => b' ≠ b ∧ b' ∉ s₀.below b G.root) →
        ∃ e s', (bs.forM (Hierarchy.indexBaseclass G.root task c)).run s = .error e s') := by
  induction bs generalizing s R ch with
  | nil =>
      refine ⟨fun _ => ⟨s, rfl, h.congr (fun x y => by simp) fun x => by simp⟩, fun hno => ?_⟩
      exact absurd ⟨by simp, List.Pairwise.nil⟩ hno
  | cons b bs ih =>
      obtain ⟨hnew, hold⟩ := h.indexBaseclass (b := b) hs hc (hbs b (List.mem_cons_self ..))
      by_cases hbc : R b c
      · obtain ⟨e, s₁, hrun₁⟩ := hold hbc
        refine ⟨fun hall => absurd hbc (hall.1 b (List.mem_cons_self ..)), fun _ => ?_⟩
        exact ⟨e, s₁, run_bind_of_error hrun₁⟩
      obtain ⟨s₁, hrun₁, h₁⟩ := hnew hbc
      obtain ⟨hok, herror⟩ := ih h₁ fun b' hb' => hbs b' (List.mem_cons_of_mem b hb')
      -- the later bases are not yet entered exactly when the first one does not list them
      have hiff : (∀ b' ∈ b :: bs, ¬R b' c) ∧
          (b :: bs).Pairwise (fun b b' => b' ≠ b ∧ b' ∉ s₀.below b G.root) ↔
          (∀ b' ∈ bs, ¬(R b' c ∨ (b' = b ∨ b' ∈ s₀.below b G.root) ∧ c = c)) ∧
            bs.Pairwise fun b b' => b' ≠ b ∧ b' ∉ s₀.below b G.root := by
        simp only [List.forall_mem_cons, List.pairwise_cons, hbc, not_false_eq_true, true_and, and_true, not_or,
          forall_and, and_assoc]
      rw [hiff]
      constructor
      · intro hall
        obtain ⟨s₂, hrun₂, h₂⟩ := hok hall
        have hb : b ∉ bs := by
          intro hmem
          exact hall.1 b hmem (.inr ⟨.inl rfl, rfl⟩)
        refine ⟨s₂, run_bind_eq_ok.mpr ⟨(), s₁, hrun₁, hrun₂⟩, h₂.congr (fun x y => ?_) fun x => ?_⟩
        · rw [List.exists_mem_cons_iff, or_assoc, ← or_and_right]
        · by_cases hx : x = b
          · subst hx
            simp [hb]
          · simp [hx]
      · intro hno
        obtain ⟨e, s₂, hrun₂⟩ := herror hno
        exact ⟨e, s₂, (run_bind_of_ok hrun₁).trans hrun₂⟩

end Pairs

/-! ## (4) All classes -/

/-- **What a class is entered under**: its bases, or the root. -/
def Schema.parents (G : Schema) (c : Addr) : List Addr :=
  if (G.baseclassVars c).isEmpty then [G.root] else G.bases c

/-- The pairs of the index when the classes `done` are indexed. -/
def Schema.Pairs (G : Schema) (done : List Addr) (b c : Addr) : Prop :=
  c ∈ done ∧ ∃ p ∈ G.parents c, b = p ∨ TransGen G.IsBase p b

/-- The children lists when the classes `done` are indexed, one after the other. -/
def Schema.childLists (G : Schema) (done : List Addr) (b : Addr) : List Addr :=
  (done.filter fun c => b ∈ G.parents c).reverse

section Classes

variable {G : Schema} {s₀ s : Heap} {task : TaskType} {c : Addr}

theorem Schema.pairs_snoc {done : List Addr} {x y : Addr} : G.Pairs (done ++ [c]) x y ↔
    G.Pairs done x y ∨ (∃ p ∈ G.parents c, x = p ∨ TransGen G.IsBase p x) ∧ y = c := by
  rw [Schema.Pairs, Schema.Pairs, List.mem_append, List.mem_singleton, or_and_right]
  refine or_congr_right ⟨?_, ?_⟩
  · rintro ⟨rfl, hx⟩
    exact ⟨hx, rfl⟩
  · rintro ⟨hx, rfl⟩
    exact ⟨rfl, hx⟩

theorem Schema.childLists_snoc {done : List Addr} {x : Addr} : G.childLists (done ++ [c]) x =
    if x ∈ G.parents c then c :: G.childLists done x else G.childLists done x := by
  rw [Schema.childLists, Schema.childLists, List.filter_append, List.reverse_append]
  by_cases hx : x ∈ G.parents c
  · rw [if_pos hx, List.filter_cons_of_pos (by simpa using hx)]
    rfl
  · rw [if_neg hx, List.filter_cons_of_neg (by simpa using hx)]
    rfl

/-- Below the root the pairs are the classes and their ancestors. -/
theorem Schema.pairs_iff {done : List Addr} {x : Addr} (hx : x ≠ G.root) :
    G.Pairs done x c ↔ c ∈ done ∧ TransGen G.IsBase c x := by
  refine and_congr_right fun _ => ?_
  rw [Schema.parents]
  by_cases hnil : (G.baseclassVars c).isEmpty = true
  · rw [if_pos hnil]
    refine iff_of_false ?_ fun hpath => ?_
    · rintro ⟨p, hp, heq⟩
      obtain rfl := List.mem_singleton.mp hp
      rcases heq with heq | hpath
      · exact hx heq
      · obtain ⟨b, hb, -⟩ := TransGen.head'_iff.mp hpath
        rw [Schema.IsBase, Schema.bases_root] at hb
        cases hb
    · obtain ⟨b, hb, -⟩ := TransGen.head'_iff.mp hpath
      rw [Schema.IsBase, Schema.bases_eq_nil_iff.mp hnil] at hb
      cases hb
  · rw [if_neg hnil, TransGen.head'_iff]
    refine exists_congr fun p => and_congr_right fun _ => ?_
    rw [reflTransGen_iff_eq_or_transGen]

/-- The children are as many as the classes that name the class as a base. -/
theorem Schema.length_childLists {done : List Addr} {x : Addr} (hx : x ≠ G.root) :
    (G.childLists done x).length = done.countP fun c => G.IsBase c x := by
  rw [Schema.childLists, List.length_reverse, ← List.countP_eq_length_filter]
  refine List.countP_congr fun c _ => ?_
  simp only [decide_eq_true_eq]
  rw [Schema.parents]
  by_cases hnil : (G.baseclassVars c).isEmpty = true
  · rw [if_pos hnil, List.mem_singleton, Schema.IsBase, Schema.bases_eq_nil_iff.mp hnil]
    exact iff_of_false hx List.not_mem_nil
  · rw [if_neg hnil]
    rfl

theorem Settled.below_root (h : Settled G (fun _ => []) s₀) : s₀.below G.root G.root = [] := by
  refine List.eq_nil_iff_forall_not_mem.mpr fun x hx => ?_
  obtain ⟨b, hb, -⟩ := TransGen.head'_iff.mp (h.linked.sound G.root x hx)
  rw [Schema.IsBase, Schema.bases_root] at hb
  cases hb

/-- What a class is entered under has the ancestors that its bases lead to. -/
theorem Settled.mem_below_parent (h : Settled G (fun _ => []) s₀) (hc : s₀.Resolved c) {p x : Addr}
    (hp : p ∈ G.parents c) : x ∈ s₀.below p G.root ↔ TransGen G.IsBase p x := by
  rw [Schema.parents] at hp
  split at hp
  · rw [List.mem_singleton.mp hp, h.below_root]
    refine iff_of_false List.not_mem_nil fun hpath => ?_
    obtain ⟨b, hb, -⟩ := TransGen.head'_iff.mp hpath
    rw [Schema.IsBase, Schema.bases_root] at hb
    cases hb
  · exact h.mem_below_iff (h.resolved_of_isBase hc hp)

theorem Settled.not_mem_below_parent (h : Settled G (fun _ => []) s₀) (hc : s₀.Resolved c) {p : Addr}
    (hp : p ∈ G.parents c) : p ∉ s₀.below p G.root := by
  rw [h.mem_below_parent hc hp]
  intro hpath
  rw [Schema.parents] at hp
  split at hp
  · obtain ⟨b, hb, -⟩ := TransGen.head'_iff.mp hpath
    rw [List.mem_singleton.mp hp, Schema.IsBase, Schema.bases_root] at hb
    cases hb
  · exact h.acyclic_base (h.resolved_of_isBase hc hp) hpath

/-- When no base is entered before it comes. -/
theorem Settled.pairwise_parents_iff (h : Settled G (fun _ => []) s₀) (hc : s₀.Resolved c) :
    ((G.parents c).Pairwise fun b b' => b' ≠ b ∧ b' ∉ s₀.below b G.root) ↔ G.BasesOrdered c := by
  have hpair : ∀ {b b'}, b ∈ G.parents c →
      (b' ≠ b ∧ b' ∉ s₀.below b G.root ↔ ¬ReflTransGen G.IsBase b b') := by
    intro b b' hb
    rw [h.mem_below_parent hc hb, reflTransGen_iff_eq_or_transGen, not_or]
  have hcongr : ((G.parents c).Pairwise fun b b' => b' ≠ b ∧ b' ∉ s₀.below b G.root) ↔
      (G.parents c).Pairwise fun b b' => ¬ReflTransGen G.IsBase b b' :=
    ⟨fun hp => hp.imp_of_mem fun hb _ => (hpair hb).mp, fun hp => hp.imp_of_mem fun hb _ => (hpair hb).mpr⟩
  rw [hcongr, Schema.parents, Schema.BasesOrdered]
  by_cases hnil : (G.baseclassVars c).isEmpty = true
  · rw [if_pos hnil, Schema.bases_eq_nil_iff.mp hnil]
    simp
  · rw [if_neg hnil]

/-- The marks of a class. -/
def ClassCell.marks (self : ClassCell) : Bool × Bool := (self.indexingInProgress, self.isIndexed)

/-- The marks of the classes but one. -/
def Heap.marksBut (c : Addr) (s : Heap) (x : {x // x ≠ c}) : Bool × Bool := (s.cells x).marks

/-- A write to a class that keeps its marks. -/
theorem marksBut_modifyCell {b : Addr} {f : ClassCell → ClassCell}
    (hf : (f (s.cells b)).marks = (s.cells b).marks) :
    Heap.marksBut c (s.modifyCell b f) = Heap.marksBut c s := by
  refine funext fun x => ?_
  by_cases hx : (x : Addr) = b
  · rw [Heap.marksBut, hx, Heap.modifyCell_self, hf, Heap.marksBut, hx]
  · rw [Heap.marksBut, Heap.modifyCell_of_ne _ _ hx, Heap.marksBut]

/-- **A view of the memory that entering a class under a base does not change.** -/
structure Unindexed {β : Type} (f : Heap → β) : Prop where
  /-- `num_terminals`. -/
  countTerminal : ∀ s b, f (s.countTerminal b) = f s
  /-- `descendants`. -/
  setDescendants : ∀ s b set, f (s.setDescendants b set) = f s
  /-- `num_children`. -/
  countChild : ∀ s b, f (s.countChild b) = f s
  /-- `children`. -/
  setChildRef : ∀ s b a, f (s.setChildRef b a) = f s

theorem unindexed_marksBut (c : Addr) : Unindexed (Heap.marksBut c) where
  countTerminal _ _ := marksBut_modifyCell rfl
  setDescendants _ _ _ := marksBut_modifyCell rfl
  countChild _ _ := marksBut_modifyCell rfl
  setChildRef _ _ _ := marksBut_modifyCell rfl

namespace Unindexed

variable {β : Type} {f : Heap → β}

theorem moves_ofExcept (rc : Except KndErr Unit) : Moves (Kept f) (ofExcept rc : IndexM Unit) := by
  cases rc with
  | ok u => exact Moves.pure u
  | error e => exact Moves.throw e

theorem moves_addDescendant (h : Unindexed f) (a b : Addr) : Moves (Kept f) (addDescendant a b) := by
  refine Moves.bind (Moves.modify fun s => h.countTerminal s b) fun _ => ?_
  refine Moves.get_bind fun s => ?_
  have hmoves : Moves (Kept f) (do
      modify fun s' => s'.setDescendants b (kndSetAdd (s.descendants b) (s.entryId a) a).2
      ofExcept (kndSetAdd (s.descendants b) (s.entryId a) a).1 : IndexM Unit) :=
    Moves.bind (Moves.modify fun s => h.setDescendants s b _) fun _ => moves_ofExcept _
  exact hmoves s

theorem moves_indexAncestor (h : Unindexed f) (a b : Addr) : Moves (Kept f) (indexAncestor a b) := by
  refine Moves.get_bind fun s => ?_
  cases kndSetGet (s.descendants b) (s.entryId a) with
  | ok u => exact Moves.pure () s
  | error e => exact h.moves_addDescendant a b s

/-- Entering a class under a base. -/
theorem moves_indexBaseclass (h : Unindexed f) (a b : Addr) : Moves (Kept f) (indexBaseclass G.root task a b) := by
  refine Moves.bind (Moves.modify fun s => h.setChildRef s b a) fun _ => ?_
  refine Moves.bind (Moves.ite (fun _ => Moves.modify fun s => h.countChild s b) fun _ => Moves.pure ()) fun _ => ?_
  refine Moves.get_bind fun s => ?_
  have hmoves : Moves (Kept f) (do
      (s.below b G.root).forM (indexAncestor a)
      addDescendant a b) :=
    Moves.bind (Moves.forM fun x _ => h.moves_indexAncestor a x) fun _ => h.moves_addDescendant a b
  exact hmoves s

/-- **Indexing a class**, which also marks it. -/
theorem moves_kndClassIndex (h : Unindexed f) (c : Addr) (hindexing : ∀ s : Heap, f (s.setIndexing c) = f s)
    (hindexed : ∀ s : Heap, f (s.setIndexed c) = f s) : Moves (Kept f) (kndClassIndex G task c) := by
  refine Moves.get_bind fun s => ?_
  refine Moves.ite (fun _ => Moves.pure ()) (fun _ => ?_) s
  refine Moves.ite (fun _ => Moves.throw _) fun _ => ?_
  refine Moves.bind (Moves.modify hindexing) fun _ => ?_
  refine Moves.bind (Moves.ite (fun _ => h.moves_indexBaseclass c G.root) fun _ => ?_) fun _ => Moves.modify hindexed
  exact Moves.forM fun cvar _ => h.moves_indexBaseclass c cvar.entry

end Unindexed

/-- The lines of `knd_class_index` that enter the class. -/
theorem indexParents_eq (task : TaskType) (c : Addr) :
    (if (G.baseclassVars c).isEmpty then indexBaseclass G.root task c G.root
      else (G.baseclassVars c).forM fun cvar => indexBaseclass G.root task c cvar.entry) =
      (G.parents c).forM (indexBaseclass G.root task c) := by
  rw [Schema.parents]
  by_cases hnil : (G.baseclassVars c).isEmpty = true
  · rw [if_pos hnil, if_pos hnil]
    exact bind_pure_unit.symm
  · rw [if_neg hnil, if_neg hnil, Schema.bases]
    exact (List.forM_map).symm

/-- Memory that differs in the marks only. -/
theorem Indexed.of_marks {perChild : Nat} {R : Addr → Addr → Prop} {ch : Addr → List Addr} {b : Addr}
    (h : Indexed s₀ perChild R ch s) {f : ClassCell → ClassCell}
    (hf : ∀ cell, ∃ m m', f cell = { cell with indexingInProgress := m, isIndexed := m' }) :
    Indexed s₀ perChild R ch (s.modifyCell b f) := by
  obtain ⟨m, m', hcell⟩ := hf (s.cells b)
  have hself : (s.modifyCell b f).cells b = { s.cells b with indexingInProgress := m, isIndexed := m' } := by
    rw [Heap.modifyCell_self, hcell]
  have hdesc : (s.modifyCell b f).descendants b = s.descendants b := by
    rw [Heap.descendants, hself, Heap.descendants]
  refine h.write (fun x hx => Heap.modifyCell_of_ne _ _ hx) ?_ ?_ ?_ (h.resolved b) ?_ ?_ ?_
    (fun _ _ _ => Iff.rfl) fun _ _ => rfl
  · rw [hself]
  · rw [hself]
  · rw [hdesc]
    exact h.holds b
  · rw [hself, hdesc]
    exact h.terminals b
  · rw [hself]
    exact h.children b
  · rw [hself]
    exact h.numChildren b

/-- **One class**: it is indexed if its bases are ordered, and refused otherwise. -/
theorem Indexed.kndClassIndex {done : List Addr}
    (h : Indexed s₀ task.countsPerChild (G.Pairs done) (G.childLists done) s)
    (hs : Settled G (fun _ => []) s₀) (hc : s₀.Resolved c) (hnew : c ∉ done)
    (hindexed : (s.cells c).isIndexed = false) (hindexing : (s.cells c).indexingInProgress = false) :
    (G.BasesOrdered c → ∃ s', (kndClassIndex G task c).run s = .ok () s' ∧
      Indexed s₀ task.countsPerChild (G.Pairs (done ++ [c])) (G.childLists (done ++ [c])) s' ∧
      Kept (Heap.marksBut c) s s') ∧
      (¬G.BasesOrdered c → ∃ e s', (Hierarchy.kndClassIndex G task c).run s = .error e s') := by
  have hstart : Indexed s₀ task.countsPerChild (G.Pairs done) (G.childLists done) (s.setIndexing c) :=
    h.of_marks fun cell => ⟨true, cell.isIndexed, rfl⟩
  have hmarks : Kept (Heap.marksBut c) s (s.setIndexing c) := by
    refine funext fun x => ?_
    rw [Heap.marksBut, Heap.setIndexing, Heap.modifyCell_of_ne _ _ x.2, Heap.marksBut]
  obtain ⟨hok, herror⟩ := hstart.forM_indexBaseclass hs hc
    fun b hb => hs.not_mem_below_parent hc hb
  have hcond : ((∀ b ∈ G.parents c, ¬G.Pairs done b c) ∧
      (G.parents c).Pairwise fun b b' => b' ≠ b ∧ b' ∉ s₀.below b G.root) ↔ G.BasesOrdered c := by
    rw [hs.pairwise_parents_iff hc]
    exact and_iff_right fun b _ hpair => hnew hpair.1
  rw [hcond] at hok herror
  have hrun : (Hierarchy.kndClassIndex G task c).run s =
      ((G.parents c).forM (Hierarchy.indexBaseclass G.root task c) >>= fun _ =>
        modify fun s => s.setIndexed c : IndexM Unit).run (s.setIndexing c) := by
    have hget : (get : IndexM Heap).run s = .ok s s := rfl
    have hset : (modify fun s => s.setIndexing c : IndexM Unit).run s = .ok () (s.setIndexing c) := rfl
    rw [Hierarchy.kndClassIndex, run_bind_of_ok hget, if_neg (by rw [hindexed]; exact Bool.false_ne_true),
      if_neg (by rw [hindexing]; exact Bool.false_ne_true), run_bind_of_ok hset, indexParents_eq]
  rw [hrun]
  constructor
  · intro hordered
    obtain ⟨s₁, hrun₁, h₁⟩ := hok hordered
    have hmoves : Moves (Kept (Heap.marksBut c)) ((G.parents c).forM (Hierarchy.indexBaseclass G.root task c)) :=
      Moves.forM fun b _ => (unindexed_marksBut c).moves_indexBaseclass c b
    have hkept := hmoves.of_ok hrun₁
    refine ⟨s₁.setIndexed c, run_bind_eq_ok.mpr ⟨(), s₁, hrun₁, rfl⟩, ?_, ?_⟩
    · have hmark := h₁.of_marks (b := c) (f := fun cell => { cell with isIndexed := true })
        fun cell => ⟨cell.indexingInProgress, true, rfl⟩
      refine hmark.congr (fun x y => ?_) fun x => Schema.childLists_snoc.symm
      rw [Schema.pairs_snoc]
      refine or_congr_right (and_congr_left fun _ => exists_congr fun b => and_congr_right fun hb => ?_)
      rw [hs.mem_below_parent hc hb]
    · have hlast : Kept (Heap.marksBut c) s₁ (s₁.setIndexed c) := by
        refine funext fun x => ?_
        rw [Heap.marksBut, Heap.setIndexed, Heap.modifyCell_of_ne _ _ x.2, Heap.marksBut]
      exact hlast.trans (hkept.trans hmarks)
  · intro hno
    obtain ⟨e, s₁, hrun₁⟩ := herror hno
    exact ⟨e, s₁, run_bind_of_error hrun₁⟩

/-- **All classes**: they are indexed if the bases of each of them are ordered, and refused otherwise. -/
theorem Indexed.indexClasses {done order : List Addr}
    (h : Indexed s₀ task.countsPerChild (G.Pairs done) (G.childLists done) s)
    (hs : Settled G (fun _ => []) s₀) (hres : ∀ c ∈ order, s₀.Resolved c) (hnodup : order.Nodup)
    (hnew : ∀ c ∈ order, c ∉ done) (hmarks : ∀ c ∈ order, (s.cells c).marks = (false, false)) :
    ((∀ c ∈ order, G.BasesOrdered c) → ∃ s', (indexClasses G task order).run s = .ok () s' ∧
      Indexed s₀ task.countsPerChild (G.Pairs (done ++ order)) (G.childLists (done ++ order)) s') ∧
      (¬(∀ c ∈ order, G.BasesOrdered c) →
        ∃ e s', (Hierarchy.indexClasses G task order).run s = .error e s') := by
  induction order generalizing s done with
  | nil =>
      refine ⟨fun _ => ⟨s, rfl, ?_⟩, fun hno => absurd (by simp) hno⟩
      rw [List.append_nil]
      exact h
  | cons c order ih =>
      obtain ⟨hc, hnodup⟩ := List.nodup_cons.mp hnodup
      have hmark := hmarks c (List.mem_cons_self ..)
      obtain ⟨hok, herror⟩ := h.kndClassIndex hs (hres c (List.mem_cons_self ..)) (hnew c (List.mem_cons_self ..))
        (congrArg Prod.snd hmark) (congrArg Prod.fst hmark)
      rw [List.forall_mem_cons]
      by_cases hordered : G.BasesOrdered c
      · obtain ⟨s₁, hrun₁, h₁, hkept⟩ := hok hordered
        have hnew' : ∀ d ∈ order, d ∉ done ++ [c] := by
          intro d hd
          rw [List.mem_append, List.mem_singleton, not_or]
          refine ⟨hnew d (List.mem_cons_of_mem c hd), ?_⟩
          rintro rfl
          exact hc hd
        have hmarks' : ∀ d ∈ order, (s₁.cells d).marks = (false, false) := by
          intro d hd
          have hne : d ≠ c := by
            rintro rfl
            exact hc hd
          have hd' : (s₁.cells d).marks = (s.cells d).marks := congrFun hkept ⟨d, hne⟩
          rw [hd']
          exact hmarks d (List.mem_cons_of_mem c hd)
        obtain ⟨hok', herror'⟩ := ih h₁ (fun d hd => hres d (List.mem_cons_of_mem c hd)) hnodup hnew' hmarks'
        rw [and_iff_right hordered]
        constructor
        · intro hall
          obtain ⟨s₂, hrun₂, h₂⟩ := hok' hall
          rw [List.append_assoc] at h₂
          exact ⟨s₂, run_bind_eq_ok.mpr ⟨(), s₁, hrun₁, hrun₂⟩, h₂⟩
        · intro hno
          obtain ⟨e, s₂, hrun₂⟩ := herror' hno
          exact ⟨e, s₂, (run_bind_of_ok hrun₁).trans hrun₂⟩
      · obtain ⟨e, s₁, hrun₁⟩ := herror hordered
        exact ⟨fun hall => absurd hall.1 hordered, fun _ => ⟨e, s₁, run_bind_of_error hrun₁⟩⟩

end Classes

/-! ## (5) Resolution leaves the index alone -/

/-- What the indexing writes in a class. -/
def ClassCell.indexed (self : ClassCell) : ClassCell :=
  { self.status with
    resolvingInProgress := false
    isResolved := false
    numid := 0 }

/-- What the indexing writes. -/
def Heap.index (s : Heap) (c : Addr) : ClassCell := (s.cells c).indexed

section Resolution

variable {G : Schema} {resolve : Addr → M Unit} {task : TaskType} {depth : Nat}

theorem index_modifyCell {s : Heap} {a : Addr} {f : ClassCell → ClassCell}
    (hf : (f (s.cells a)).indexed = (s.cells a).indexed) : (s.modifyCell a f).index = s.index := by
  refine funext fun c => ?_
  by_cases hc : c = a
  · rw [Heap.index, hc, Heap.modifyCell_self, hf, Heap.index]
  · rw [Heap.index, Heap.modifyCell_of_ne _ _ hc, Heap.index]

theorem moves_index_of_status {x : M Unit} (h : Moves (Kept Heap.status) x) : Moves (Kept Heap.index) x := by
  refine h.mono fun s s' hkept => funext fun c => ?_
  have hcell : (s'.cells c).status = (s.cells c).status := congrFun (congrArg Heap.cells hkept) c
  rw [Heap.index, Heap.index, ClassCell.indexed, hcell, ClassCell.indexed]

theorem moves_kndIsBase (template c : Addr) : Moves (Kept Heap.index) (kndIsBase template c) :=
  Moves.get_bind fun s => Moves.ite (fun _ => Moves.pure ()) (fun _ => Moves.throw _) s

theorem moves_resolveOnce (h : ∀ a, Moves (Kept Heap.index) (resolve a)) (a : Addr) :
    Moves (Kept Heap.index) (resolveOnce resolve a) :=
  Moves.get_bind fun s => Moves.ite (fun _ => Moves.pure ()) (fun _ => h a) s

theorem moves_kndResolveClassRef (c : Addr) (base : Option Addr) :
    Moves (Kept Heap.index) (kndResolveClassRef G task depth c base) := by
  have hbase : ∀ a, Moves (Kept Heap.index) (resolveBaseOnce (resolveBase G depth) a) := fun a =>
    moves_index_of_status (moves_resolveBaseOnce (moves_resolveBase depth) a)
  refine Moves.bind (hbase c) fun _ => ?_
  cases base with
  | none => exact Moves.pure ()
  | some b =>
      refine Moves.bind (hbase b) fun _ => ?_
      exact Moves.ite (fun _ => Moves.pure ()) fun _ => moves_kndIsBase b c

theorem moves_perform (h : ∀ a, Moves (Kept Heap.index) (resolve a)) (step : Step) :
    Moves (Kept Heap.index) (step.perform G resolve task depth) := by
  cases step with
  | resolve c => exact moves_resolveOnce h c
  | classRef c base => exact moves_kndResolveClassRef c base
  | rel c template => exact Moves.bind (moves_resolveOnce h c) fun _ => moves_kndIsBase template c
  | fail e => exact Moves.throw e

/-- **Resolving a class** leaves the index alone. -/
theorem moves_kndClassResolve (n : Nat) (a : Addr) :
    Moves (Kept Heap.index) (kndClassResolve G task depth n a) := by
  induction n generalizing a with
  | zero => exact Moves.throw _
  | succ n ih =>
      refine Moves.get_bind fun s => ?_
      refine Moves.ite (fun _ => Moves.throw _) (fun _ => ?_) s
      refine Moves.ite (fun _ => Moves.throw _) fun _ => ?_
      refine Moves.bind (Moves.modify fun s => index_modifyCell rfl) fun _ => ?_
      refine Moves.bind (Moves.ite (fun _ => ?_) fun _ => ?_) fun _ => ?_
      · exact moves_index_of_status (Moves.modify fun s => status_linkBaseclass s _ _ _)
      · exact moves_index_of_status (moves_resolveBaseOnce (moves_resolveBaseclasses (moves_resolveBase depth)) a)
      refine Moves.bind (Moves.forM fun cvar _ => ?_) fun _ => ?_
      · refine Moves.bind (moves_resolveOnce ih cvar.entry) fun _ => ?_
        rw [kndResolveAttrVars, resolveChildren_eq]
        exact Moves.forM fun step _ => moves_perform ih step
      · refine Moves.modify fun s => ?_
        have hwrite : (s.modifyCell a fun cell =>
            { cell with isResolved := true, numid := s.classIdCount + 1 }).index = s.index :=
          index_modifyCell rfl
        exact hwrite

/-- Nothing is indexed when the classes are resolved. -/
theorem indexed_resolveClasses {order : List Addr} {s : Heap}
    (hrun : (resolveClasses G task depth order).run .initial = .ok () s) :
    Indexed s task.countsPerChild (G.Pairs []) (G.childLists []) s ∧
      ∀ c, (s.cells c).marks = (false, false) := by
  have hmoves : Moves (Kept Heap.index) (resolveClasses G task depth order) :=
    Moves.forM fun a _ => moves_resolveOnce (moves_kndClassResolve depth) a
  have hindex : ∀ c, (s.cells c).indexed = {} := fun c => congrFun (hmoves.of_ok hrun) c
  have hdesc : ∀ c, s.descendants c = {} := fun c => by
    have hnone : (s.cells c).descendants = none := congrArg ClassCell.descendants (hindex c)
    rw [Heap.descendants, hnone]
    rfl
  have hnone : ∀ b c, ¬G.Pairs [] b c := fun b c h => absurd h.1 List.not_mem_nil
  refine ⟨⟨fun _ => rfl, fun _ => rfl, fun b => ?_, fun b c h => absurd h (hnone b c), fun b => ?_,
    fun b => ?_, fun b => ?_⟩, fun c => ?_⟩
  · rw [hdesc]
    exact (KndSet.holds_new _).congr fun c => iff_of_false id (hnone b c)
  · rw [hdesc]
    exact congrArg ClassCell.numTerminals (hindex b)
  · exact congrArg ClassCell.children (hindex b)
  · exact congrArg ClassCell.numChildren (hindex b)
  · exact congrArg ClassCell.marks (hindex c)

end Resolution

/-! ## (6) The index mirrors the ancestor relation -/

/-- **The index mirrors the ancestor relation** below the root, where each class of `order` is indexed once. -/
structure Mirrors (G : Schema) (order : List Addr) (s : Heap) (c : Addr) : Prop where
  /-- The descendants are the classes that have the class as an ancestor. -/
  mem : ∀ d, d ∈ (s.descendants c).elems ↔ d ∈ order ∧ TransGen G.IsBase d c
  /-- Each of them once. -/
  nodup : (s.descendants c).elems.Nodup
  /-- `num_terminals` counts them. -/
  terminals : (s.cells c).numTerminals = (s.descendants c).elems.length
  /-- `num_children` counts the children. -/
  numChildren : (s.cells c).numChildren = (s.cells c).children.length
  /-- The children are as many as the classes that name the class as a base. -/
  children : (s.cells c).children.length = order.countP fun d => G.IsBase d c

section Result

variable {G : Schema} {s₀ s : Heap} {task : TaskType} {iorder : List Addr}

/-- Below the root everything but the number of children is as it should be. -/
theorem Indexed.mirrors_class_iff (h : Indexed s₀ task.countsPerChild (G.Pairs iorder) (G.childLists iorder) s)
    {c : Addr} (hc : c ≠ G.root) :
    Mirrors G iorder s c ↔ task.countsPerChild = 1 ∨ ∀ d ∈ iorder, ¬G.IsBase d c := by
  have hlength : (s.cells c).children.length = iorder.countP fun d => G.IsBase d c := by
    rw [h.children, Schema.length_childLists hc]
  have hnum : (s.cells c).numChildren = task.countsPerChild * iorder.countP fun d => G.IsBase d c := by
    rw [h.numChildren, Schema.length_childLists hc]
  have hcount : (∀ d ∈ iorder, ¬G.IsBase d c) ↔ (iorder.countP fun d => G.IsBase d c) = 0 := by
    simp
  rw [hcount]
  constructor
  · intro hmirrors
    have heq := hmirrors.numChildren
    rw [hnum, hlength] at heq
    have hcases := Nat.eq_zero_or_pos (iorder.countP fun d => G.IsBase d c)
    rcases hcases with hzero | hpos
    · exact .inr hzero
    · exact .inl (Nat.eq_of_mul_eq_mul_right hpos (heq.trans (Nat.one_mul _).symm))
  · intro hcond
    refine ⟨fun d => ?_, (h.holds c).nodup_elems, h.terminals c, ?_, hlength⟩
    · rw [(h.holds c).mem_elems, Schema.pairs_iff hc]
    · rw [hnum, hlength]
      rcases hcond with hone | hzero
      · rw [hone, Nat.one_mul]
      · rw [hzero, Nat.mul_zero]

end Result

/-- **When the index mirrors the ancestor relation.** After all classes are resolved, they are indexed in any
order, each once, with the right descendants and counters, if and only if no base is declared after itself or
after one of its heirs, and in a bulk load no class declares a base. -/
theorem mirrors_iff (G : Schema) (task : TaskType) (depth : Nat) (order iorder : List Addr) (s : Heap)
    (hall : ∀ c ∈ G.names, c ∈ order) (hrun : (resolveClasses G task depth order).run .initial = .ok () s)
    (hmem : ∀ c, c ∈ iorder ↔ c ∈ G.names) (hnodup : iorder.Nodup) :
    (∃ s', (indexClasses G task iorder).run s = .ok () s' ∧ ∀ c ∈ G.names, Mirrors G iorder s' c) ↔
      (∀ c ∈ G.names, G.BasesOrdered c) ∧ (task = .bulkLoad → ∀ c ∈ G.names, G.bases c = []) := by
  have hdone := (settled_initial G).resolveClasses hrun
  obtain ⟨hindexed, hmarks⟩ := indexed_resolveClasses hrun
  obtain ⟨hok, herror⟩ := hindexed.indexClasses hdone.settled
    (fun c hc => hdone.resolved c (hall c ((hmem c).mp hc))) hnodup (fun _ _ => List.not_mem_nil)
    fun c _ => hmarks c
  simp only [hmem] at hok herror
  by_cases hordered : ∀ c ∈ G.names, G.BasesOrdered c
  · obtain ⟨s', hrun', h'⟩ := hok hordered
    rw [List.nil_append] at h'
    have hiff : (∃ s', (indexClasses G task iorder).run s = .ok () s' ∧ ∀ c ∈ G.names, Mirrors G iorder s' c) ↔
        ∀ c ∈ G.names, Mirrors G iorder s' c := by
      refine ⟨?_, fun hmirrors => ⟨s', hrun', hmirrors⟩⟩
      rintro ⟨s'', hrun'', hmirrors⟩
      cases hrun'.symm.trans hrun''
      exact hmirrors
    have hne : ∀ c ∈ G.names, c ≠ G.root := by
      rintro c hc rfl
      exact G.root_notMem hc
    rw [hiff, and_iff_right hordered]
    cases task with
    | other =>
        refine iff_of_true (fun c hc => (h'.mirrors_class_iff (hne c hc)).mpr (.inl rfl)) fun htask => ?_
        cases htask
    | bulkLoad =>
        constructor
        · intro hmirrors _ d hd
          refine List.eq_nil_iff_forall_not_mem.mpr fun b hb => ?_
          have hbmem : b ∈ G.names := Schema.mem_names_of_isBase hb
          rcases (h'.mirrors_class_iff (hne b hbmem)).mp (hmirrors b hbmem) with hone | hnone
          · exact absurd hone (by decide)
          · exact hnone d ((hmem d).mpr hd) hb
        · intro hbases c hc
          refine (h'.mirrors_class_iff (hne c hc)).mpr (.inr fun d hd hbase => ?_)
          rw [Schema.IsBase, hbases rfl d ((hmem d).mp hd)] at hbase
          cases hbase
  · obtain ⟨e, s', hrun'⟩ := herror hordered
    refine iff_of_false ?_ fun hcond => hordered hcond.1
    rintro ⟨s'', hrun'', -⟩
    cases hrun'.symm.trans hrun''

theorem mirrors_iff_concerts :
    (∃ s', (indexClasses concerts .bulkLoad [2, 3, 1]).run
        (finalState (resolveClasses concerts .bulkLoad 4 [3, 1, 2]) .initial) = .ok () s' ∧
        ∀ c ∈ concerts.names, Mirrors concerts [2, 3, 1] s' c) ↔
      (∀ c ∈ concerts.names, concerts.BasesOrdered c) ∧
        (TaskType.bulkLoad = .bulkLoad → ∀ c ∈ concerts.names, concerts.bases c = []) := by
  obtain ⟨_, hrun⟩ := returns_iff.mp (by decide +kernel :
    returns (resolveClasses concerts .bulkLoad 4 [3, 1, 2]) .initial = true)
  refine mirrors_iff concerts .bulkLoad 4 [3, 1, 2] [2, 3, 1] _ (by decide) hrun (fun c => ?_) (by decide)
  simp only [concerts, List.mem_cons, List.not_mem_nil, or_false]
  tauto

/-- Indexing fails at the class with a base that is declared after its heir, and a child is counted twice. -/
theorem not_mirrors_concerts :
    returns (resolveClasses concerts .bulkLoad 4 concerts.names) .initial = true ∧
      (¬∃ s', (indexClasses concerts .bulkLoad concerts.names).run
        (finalState (resolveClasses concerts .bulkLoad 4 concerts.names) .initial) = .ok () s' ∧
        ∀ c ∈ concerts.names, Mirrors concerts concerts.names s' c) ∧
      ¬Mirrors concerts concerts.names (finalState (indexClasses concerts .bulkLoad concerts.names)
        (finalState (resolveClasses concerts .bulkLoad 4 concerts.names) .initial)) 2 := by
  refine ⟨by decide +kernel, ?_, fun hmirrors => ?_⟩
  · rintro ⟨s', hrun, -⟩
    have hfails : returns (indexClasses concerts .bulkLoad concerts.names)
        (finalState (resolveClasses concerts .bulkLoad 4 concerts.names) .initial) = false := by decide +kernel
    have hreturns := returns_iff.mpr ⟨(), hrun.trans (congrArg _ (finalState_of_ok hrun).symm)⟩
    exact Bool.false_ne_true (hfails.symm.trans hreturns)
  · have hnum := hmirrors.numChildren
    revert hnum
    decide +kernel

end Knowdy.Hierarchy
