import Knowdy.Lib.Ancestry
import Knowdy.ClassResolve

/-! # The ancestors that resolution links

`resolve_base` calls itself for the bases that are not resolved yet, then copies their ancestors. When it
returns, every class it has finished lists its bases and their ancestors, and every other class is as before.

* `Linked` — what is true of the ancestor lists throughout; `Ready` — of a class that may be started.
* `Advanced` — what a returning call leaves alone.
* `resolveBase_spec` — the specification of `resolve_base`, by induction on the depth of the calls;
  `forM_linkClassVar` is the loop over the bases. -/

namespace Knowdy.Hierarchy

open Relation

/-! ## (1) What resolution keeps true of the ancestors -/

namespace Heap

variable (s : Heap) (c : Addr)

/-- The ancestors that were linked since the class is in memory. -/
def linked : List Addr := (s.cells c).ancestors.filterMap ClassRef.cls

/-- The ancestors below the root. -/
def below (root : Addr) : List Addr :=
  ((s.cells c).ancestors.map ClassRef.entry).filter (· ≠ root)

/-- `base_is_resolved`. -/
def BaseResolved : Prop := (s.cells c).baseIsResolved = true

/-- A class whose bases are on the way. -/
def BaseOpen : Prop := (s.cells c).baseResolvingInProgress = true ∧ (s.cells c).baseIsResolved = false

end Heap

/-- **The ancestor lists are what linking makes of them**: behind the linked ancestors stand those that were
read from a snapshot. -/
structure Linked (G : Schema) (old : Addr → List Addr) (s : Heap) : Prop where
  /-- The linked ancestors, then the ones that were read. -/
  refs : ∀ c, (s.cells c).ancestors = (s.linked c).map .live ++ (old c).map .stale
  /-- `num_ancestors` counts. -/
  count : ∀ c, (s.cells c).numAncestors = (s.cells c).ancestors.length
  /-- Ancestors are met over the base relation. -/
  sound : ∀ c, ∀ x ∈ s.below c G.root, TransGen G.IsBase c x
  /-- A class without bases links the root when it is resolved. -/
  top : ∀ c, G.bases c = [] →
    s.linked c = if (s.cells c).resolvingInProgress then [G.root] else []
  /-- A resolved class has linked its bases, which are resolved. -/
  done : ∀ c, s.BaseResolved c →
    (∀ b ∈ G.bases c, b = c ∨ s.BaseResolved b) ∧
      (G.bases c ≠ [] → s.linked c = linkParents (s.below · G.root) ((G.bases c).filter (· ≠ c)))

/-- **A class may be started**: its list is untouched, or one of its bases is on the way. -/
def Ready (G : Schema) (s : Heap) (c : Addr) : Prop :=
  (s.cells c).baseIsResolved = false → (s.cells c).baseResolvingInProgress = false → G.bases c ≠ [] →
    s.linked c = [] ∨ ∃ b ∈ G.bases c, b ≠ c ∧ s.BaseOpen b

/-- **What a returning resolution of bases leaves alone**: every class that it did not finish. -/
def Advanced (s s' : Heap) : Prop :=
  ∀ c, s'.cells c = s.cells c ∨
    (s.cells c).baseIsResolved = false ∧ (s.cells c).baseResolvingInProgress = false ∧ s'.BaseResolved c

namespace Advanced

variable {s s' s'' : Heap}

theorem refl (s : Heap) : Advanced s s := fun _ => .inl rfl

theorem trans (h : Advanced s s') (h' : Advanced s' s'') : Advanced s s'' := by
  intro c
  rcases h c with heq | ⟨hres, hopen, hdone⟩
  · rcases h' c with heq' | ⟨hres, hopen, hdone⟩
    · exact .inl (heq'.trans heq)
    · rw [heq] at hres hopen
      exact .inr ⟨hres, hopen, hdone⟩
  · rcases h' c with heq' | ⟨hres', -, -⟩
    · refine .inr ⟨hres, hopen, ?_⟩
      rw [Heap.BaseResolved, heq']
      exact hdone
    · rw [Heap.BaseResolved, hres'] at hdone
      cases hdone

/-- A finished class is left alone. -/
theorem of_resolved (h : Advanced s s') {c : Addr} (hc : s.BaseResolved c) : s'.cells c = s.cells c := by
  rcases h c with heq | ⟨hres, -, -⟩
  · exact heq
  · rw [Heap.BaseResolved, hres] at hc
    cases hc

/-- A class that is on the way is left alone. -/
theorem of_open (h : Advanced s s') {c : Addr} (hc : s.BaseOpen c) : s'.cells c = s.cells c := by
  rcases h c with heq | ⟨-, hopen, -⟩
  · exact heq
  · rw [Heap.BaseOpen, hopen] at hc
    exact absurd hc.1 Bool.false_ne_true

theorem baseResolved (h : Advanced s s') {c : Addr} (hc : s.BaseResolved c) : s'.BaseResolved c := by
  rw [Heap.BaseResolved, h.of_resolved hc]
  exact hc

theorem baseOpen (h : Advanced s s') {c : Addr} (hc : s.BaseOpen c) : s'.BaseOpen c := by
  rw [Heap.BaseOpen, h.of_open hc]
  exact hc

end Advanced

/-- **A class that was ready** and is as before or finished is ready, as long as the classes on the way are. -/
theorem Ready.of_kept {G : Schema} {s s' : Heap} {c : Addr} (h : Ready G s c)
    (hc : s'.cells c = s.cells c ∨ s'.BaseResolved c) (hopen : ∀ b, s.BaseOpen b → s'.BaseOpen b) :
    Ready G s' c := by
  intro hres hprog hbases
  rcases hc with heq | hdone
  · rw [heq] at hres hprog
    rcases h hres hprog hbases with hnil | ⟨b, hb, hne, hon⟩
    · refine .inl ?_
      rw [Heap.linked, heq]
      exact hnil
    · exact .inr ⟨b, hb, hne, hopen b hon⟩
  · rw [Heap.BaseResolved, hres] at hdone
    cases hdone

/-- Memory that differs in the progress marks only. -/
theorem Linked.congr {G : Schema} {old : Addr → List Addr} {s s' : Heap} (h : Linked G old s)
    (hanc : ∀ c, (s'.cells c).ancestors = (s.cells c).ancestors)
    (hnum : ∀ c, (s'.cells c).numAncestors = (s.cells c).numAncestors)
    (hres : ∀ c, (s'.cells c).baseIsResolved = (s.cells c).baseIsResolved)
    (hprog : ∀ c, G.bases c = [] →
      (s'.cells c).resolvingInProgress = (s.cells c).resolvingInProgress) : Linked G old s' := by
  have hlinked : ∀ c, s'.linked c = s.linked c := fun c => by rw [Heap.linked, hanc, Heap.linked]
  have hbelow : ∀ c root, s'.below c root = s.below c root := fun c root => by
    rw [Heap.below, hanc, Heap.below]
  refine ⟨fun c => ?_, fun c => ?_, fun c => ?_, fun c hc => ?_, fun c => ?_⟩
  · rw [hanc, hlinked]
    exact h.refs c
  · rw [hanc, hnum]
    exact h.count c
  · rw [hbelow]
    exact h.sound c
  · rw [hlinked, hprog c hc]
    exact h.top c hc
  · simp only [Heap.BaseResolved, hres, hlinked, hbelow]
    exact h.done c

/-! ### Linking a base -/

section Link

variable {new : List Addr} {old : List ClassRef}

theorem linkAncestor_ancestors (hold : ∀ ref ∈ old, ref.cls = none) {self : ClassCell}
    (h : self.ancestors = new.map .live ++ old) (base : Addr) :
    (linkAncestor self base).ancestors = (new.insert base).map .live ++ old := by
  have hany : (self.ancestors.any fun ref => ref.cls = some base) = true ↔ base ∈ new := by
    rw [h, List.any_eq_true]
    constructor
    · rintro ⟨ref, hmem, hcls⟩
      rcases List.mem_append.mp hmem with hnew | hstale
      · obtain ⟨a, ha, rfl⟩ := List.mem_map.mp hnew
        obtain rfl : a = base := by simpa [ClassRef.live] using hcls
        exact ha
      · rw [hold ref hstale] at hcls
        simp at hcls
    · intro hmem
      exact ⟨.live base, List.mem_append_left _ (List.mem_map_of_mem hmem), by simp [ClassRef.live]⟩
  by_cases hmem : base ∈ new
  · rw [linkAncestor, if_pos (hany.mpr hmem), List.insert_of_mem hmem, h]
  · rw [linkAncestor, if_neg (fun hp => hmem (hany.mp hp)), List.insert_of_not_mem hmem,
      ClassCell.pushAncestor, h]
    rfl

theorem foldl_linkAncestor_ancestors (hold : ∀ ref ∈ old, ref.cls = none) {self : ClassCell}
    (h : self.ancestors = new.map .live ++ old) (refs : List ClassRef) :
    (refs.foldl (fun self ref => linkAncestor self ref.entry) self).ancestors =
      ((refs.map ClassRef.entry).foldl (fun l a => l.insert a) new).map .live ++ old := by
  induction refs generalizing self new with
  | nil => exact h
  | cons ref refs ih =>
      rw [List.foldl_cons, List.map_cons, List.foldl_cons]
      exact ih (linkAncestor_ancestors hold h ref.entry)

/-- **Linking a base** links its ancestors below the root where they are missing, then the base. -/
theorem linkBaseclass_ancestors (hold : ∀ ref ∈ old, ref.cls = none) {self : ClassCell}
    (h : self.ancestors = new.map .live ++ old) (root base : Addr) (refs : List ClassRef) :
    (linkBaseclass root self base refs).ancestors =
      (linkParent (fun _ => (refs.map ClassRef.entry).filter (· ≠ root)) new base).map .live ++ old := by
  have hmap : (refs.filter fun ref => ref.entry ≠ root).map ClassRef.entry =
      (refs.map ClassRef.entry).filter (· ≠ root) := by
    rw [List.filter_map]
    rfl
  rw [linkBaseclass, ClassCell.pushAncestor, foldl_linkAncestor_ancestors hold h, hmap]
  rfl

theorem linkAncestor_count {self : ClassCell} (h : self.numAncestors = self.ancestors.length) (base : Addr) :
    (linkAncestor self base).numAncestors = (linkAncestor self base).ancestors.length := by
  rw [linkAncestor]
  split
  · exact h
  · simp [ClassCell.pushAncestor, h]

/-- Every reference that is linked is counted. -/
theorem linkBaseclass_count {self : ClassCell} (h : self.numAncestors = self.ancestors.length)
    (root base : Addr) (refs : List ClassRef) :
    (linkBaseclass root self base refs).numAncestors =
      (linkBaseclass root self base refs).ancestors.length := by
  have hloop : ∀ (refs : List ClassRef) (self : ClassCell), self.numAncestors = self.ancestors.length →
      (refs.foldl (fun self ref => linkAncestor self ref.entry) self).numAncestors =
        (refs.foldl (fun self ref => linkAncestor self ref.entry) self).ancestors.length := by
    intro refs
    induction refs with
    | nil => exact fun _ h => h
    | cons ref refs ih => exact fun self h => ih _ (linkAncestor_count h ref.entry)
  simp [linkBaseclass, ClassCell.pushAncestor, hloop _ self h]

/-- What linking leaves alone in a class. -/
def ClassCell.rest (cell : ClassCell) : ClassCell :=
  { cell with ancestors := [], numAncestors := 0 }

theorem linkAncestor_rest (self : ClassCell) (base : Addr) : (linkAncestor self base).rest = self.rest := by
  rw [linkAncestor]
  split <;> rfl

theorem linkBaseclass_rest (root : Addr) (self : ClassCell) (base : Addr) (refs : List ClassRef) :
    (linkBaseclass root self base refs).rest = self.rest := by
  have hloop : ∀ (refs : List ClassRef) (self : ClassCell),
      (refs.foldl (fun self ref => linkAncestor self ref.entry) self).rest = self.rest := by
    intro refs
    induction refs with
    | nil => exact fun _ => rfl
    | cons ref refs ih => exact fun self => (ih _).trans (linkAncestor_rest self ref.entry)
  exact hloop _ self

end Link

variable {G : Schema} {old : Addr → List Addr}

theorem linked_eq {s : Heap} {c : Addr} {new : List Addr} {stale : List Addr}
    (h : (s.cells c).ancestors = new.map .live ++ stale.map .stale) : s.linked c = new := by
  rw [Heap.linked, h, List.filterMap_append, List.filterMap_map, List.filterMap_map]
  simp [Function.comp_def, ClassRef.live, ClassRef.stale]

/-- The ancestors below the root, by where they come from. -/
theorem Linked.below_eq {s : Heap} (h : Linked G old s) (c : Addr) :
    s.below c G.root = (s.linked c).filter (· ≠ G.root) ++ (old c).filter (· ≠ G.root) := by
  rw [Heap.below, h.refs c, List.map_append, List.map_map, List.map_map, List.filter_append]
  simp [Function.comp_def, ClassRef.live, ClassRef.stale]

/-- The class that a base is linked to. -/
theorem Linked.linked_linkBaseclass {s : Heap} (h : Linked G old s) (self base : Addr) :
    (s.linkBaseclass G.root self base).linked self =
      linkParent (s.below · G.root) (s.linked self) base := by
  have hold : ∀ ref ∈ (old self).map ClassRef.stale, ref.cls = none := by
    intro ref href
    obtain ⟨a, -, rfl⟩ := List.mem_map.mp href
    rfl
  refine @linked_eq _ _ _ (old self) ?_
  rw [Heap.linkBaseclass, Heap.modifyCell_self, linkBaseclass_ancestors hold (h.refs self)]
  rfl

namespace Heap

variable (s : Heap) (root self base : Addr)

theorem linkBaseclass_of_ne {c : Addr} (h : c ≠ self) :
    (s.linkBaseclass root self base).cells c = s.cells c := modifyCell_of_ne _ _ h

theorem linkBaseclass_rest (c : Addr) :
    ((s.linkBaseclass root self base).cells c).rest = (s.cells c).rest := by
  by_cases hc : c = self
  · subst hc
    rw [linkBaseclass, modifyCell_self, Hierarchy.linkBaseclass_rest]
  · rw [linkBaseclass_of_ne _ _ _ _ hc]

@[simp] theorem linkBaseclass_baseIsResolved (c : Addr) :
    ((s.linkBaseclass root self base).cells c).baseIsResolved = (s.cells c).baseIsResolved := by
  have h := congrArg ClassCell.baseIsResolved (linkBaseclass_rest s root self base c)
  exact h

@[simp] theorem linkBaseclass_baseResolvingInProgress (c : Addr) :
    ((s.linkBaseclass root self base).cells c).baseResolvingInProgress =
      (s.cells c).baseResolvingInProgress := by
  have h := congrArg ClassCell.baseResolvingInProgress (linkBaseclass_rest s root self base c)
  exact h

end Heap

theorem Linked.count_linkBaseclass {s : Heap} (h : Linked G old s) (self base c : Addr) :
    ((s.linkBaseclass G.root self base).cells c).numAncestors =
      ((s.linkBaseclass G.root self base).cells c).ancestors.length := by
  by_cases hc : c = self
  · subst hc
    rw [Heap.linkBaseclass, Heap.modifyCell_self]
    exact linkBaseclass_count (h.count c) _ _ _
  · rw [s.linkBaseclass_of_ne _ _ _ hc]
    exact h.count c

theorem Linked.refs_linkBaseclass {s : Heap} (h : Linked G old s) (self base c : Addr) :
    ((s.linkBaseclass G.root self base).cells c).ancestors =
      ((s.linkBaseclass G.root self base).linked c).map .live ++ (old c).map .stale := by
  by_cases hc : c = self
  · subst hc
    have hold : ∀ ref ∈ (old c).map ClassRef.stale, ref.cls = none := by
      intro ref href
      obtain ⟨a, -, rfl⟩ := List.mem_map.mp href
      rfl
    rw [h.linked_linkBaseclass, Heap.linkBaseclass, Heap.modifyCell_self,
      linkBaseclass_ancestors hold (h.refs c)]
    rfl
  · rw [Heap.linked, s.linkBaseclass_of_ne _ _ _ hc]
    exact h.refs c

/-- **A declared base is linked** to a class that is not finished. -/
theorem Linked.linkBaseclass {s : Heap} (h : Linked G old s) {self base : Addr}
    (hself : (s.cells self).baseIsResolved = false) (hbase : G.IsBase self base) :
    Linked G old (s.linkBaseclass G.root self base) := by
  have hne : ∀ {c}, s.BaseResolved c → c ≠ self := by
    rintro c hc rfl
    rw [Heap.BaseResolved, hself] at hc
    cases hc
  have hlinked : ∀ {c}, c ≠ self → (s.linkBaseclass G.root self base).linked c = s.linked c := by
    intro c hc
    rw [Heap.linked, s.linkBaseclass_of_ne _ _ _ hc, Heap.linked]
  have hbelow : ∀ {c}, c ≠ self →
      (s.linkBaseclass G.root self base).below c G.root = s.below c G.root := by
    intro c hc
    rw [Heap.below, s.linkBaseclass_of_ne _ _ _ hc, Heap.below]
  refine ⟨h.refs_linkBaseclass self base, h.count_linkBaseclass self base, fun c x hx => ?_,
    fun c hc => ?_, fun c hc => ?_⟩
  · by_cases hcs : c = self
    · subst hcs
      -- a new ancestor is the base or an ancestor of it
      rw [Heap.below, h.refs_linkBaseclass, List.map_append, List.map_map, List.map_map,
        List.filter_append, List.mem_append, h.linked_linkBaseclass] at hx
      rcases hx with hx | hx
      · obtain ⟨hx, hroot⟩ := List.mem_filter.mp hx
        obtain ⟨a, ha, rfl⟩ := List.mem_map.mp hx
        rcases mem_linkParent.mp ha with rfl | hanc | hold
        · exact .single hbase
        · exact .head hbase (h.sound _ _ hanc)
        · refine h.sound c a ?_
          rw [h.below_eq, List.mem_append]
          exact .inl (List.mem_filter.mpr ⟨hold, hroot⟩)
      · refine h.sound c x ?_
        rw [h.below_eq, List.mem_append]
        refine .inr ?_
        simpa [ClassRef.stale, Function.comp_def] using hx
    · rw [hbelow hcs] at hx
      exact h.sound c x hx
  · have hcs : c ≠ self := by
      rintro rfl
      rw [Schema.IsBase, hc] at hbase
      cases hbase
    rw [hlinked hcs, s.linkBaseclass_of_ne _ _ _ hcs]
    exact h.top c hc
  · have hcs : s.BaseResolved c := by simpa [Heap.BaseResolved] using hc
    obtain ⟨hbases, heq⟩ := h.done c hcs
    refine ⟨?_, fun hnil => ?_⟩
    · intro b hb
      rcases hbases b hb with hbc | hres
      · exact .inl hbc
      · refine .inr ?_
        simpa [Heap.BaseResolved] using hres
    · rw [hlinked (hne hcs), heq hnil]
      refine linkParents_congr fun b hb => (hbelow ?_).symm
      obtain ⟨hb, hbc⟩ := List.mem_filter.mp hb
      rcases hbases b hb with rfl | hres
      · simp at hbc
      · exact hne hres

theorem Linked.below_root {s : Heap} (h : Linked G old s) : s.below G.root G.root = [] := by
  refine List.eq_nil_iff_forall_not_mem.mpr fun x hx => ?_
  obtain ⟨b, hb, -⟩ := TransGen.head'_iff.mp (h.sound _ x hx)
  rw [Schema.IsBase, G.bases_root] at hb
  cases hb

/-- **The root is linked** to a class without bases whose resolution begins. -/
theorem Linked.linkRoot {s : Heap} (h : Linked G old s) {self : Addr} (hself : G.bases self = [])
    (hprog : (s.cells self).resolvingInProgress = false) :
    Linked G old ((s.setInProgress self).linkBaseclass G.root self G.root) := by
  have hnil : s.linked self = [] := by rw [h.top self hself, hprog, if_neg Bool.false_ne_true]
  have hmark : ∀ {c}, c ≠ self → (s.setInProgress self).cells c = s.cells c :=
    fun hc => Heap.modifyCell_of_ne _ _ hc
  have hmarked : ((s.setInProgress self).cells self).ancestors = (s.cells self).ancestors := by
    rw [Heap.setInProgress, Heap.modifyCell_self]
  have hrootAnc : ((s.setInProgress self).cells G.root).ancestors = (s.cells G.root).ancestors := by
    by_cases hroot : G.root = self
    · rw [hroot]
      exact hmarked
    · rw [hmark hroot]
  have hcells : ∀ {c}, c ≠ self →
      ((s.setInProgress self).linkBaseclass G.root self G.root).cells c = s.cells c := by
    intro c hc
    rw [Heap.linkBaseclass_of_ne _ _ _ _ hc, hmark hc]
  have hself' : ((s.setInProgress self).linkBaseclass G.root self G.root).cells self =
      Hierarchy.linkBaseclass G.root ((s.setInProgress self).cells self) G.root
        (s.cells G.root).ancestors := by
    rw [Heap.linkBaseclass, Heap.modifyCell_self, hrootAnc]
  have hold : ∀ ref ∈ (old self).map ClassRef.stale, ref.cls = none := by
    intro ref href
    obtain ⟨a, -, rfl⟩ := List.mem_map.mp href
    rfl
  have hanc : (((s.setInProgress self).linkBaseclass G.root self G.root).cells self).ancestors =
      [G.root].map .live ++ (old self).map .stale := by
    have hrefs : ((s.setInProgress self).cells self).ancestors =
        ([] : List Addr).map .live ++ (old self).map .stale := by rw [hmarked, h.refs self, hnil]
    have hbelow : ((s.cells G.root).ancestors.map ClassRef.entry).filter (· ≠ G.root) = [] := h.below_root
    rw [hself', linkBaseclass_ancestors hold hrefs, linkParent, hbelow]
    rfl
  have hlinked : ∀ {c}, c ≠ self →
      ((s.setInProgress self).linkBaseclass G.root self G.root).linked c = s.linked c := by
    intro c hc
    rw [Heap.linked, hcells hc, Heap.linked]
  have hnew : ((s.setInProgress self).linkBaseclass G.root self G.root).linked self = [G.root] :=
    linked_eq hanc
  have hbelow : ∀ c, ((s.setInProgress self).linkBaseclass G.root self G.root).below c G.root =
      s.below c G.root := by
    intro c
    by_cases hc : c = self
    · subst hc
      rw [Heap.below, hanc, h.below_eq, hnil]
      simp [ClassRef.live, ClassRef.stale, Function.comp_def]
    · rw [Heap.below, hcells hc, Heap.below]
  have hres : ∀ c, ((s.setInProgress self).linkBaseclass G.root self G.root).BaseResolved c ↔
      s.BaseResolved c := by
    intro c
    rw [Heap.BaseResolved, Heap.linkBaseclass_baseIsResolved]
    by_cases hc : c = self
    · subst hc
      rw [Heap.setInProgress, Heap.modifyCell_self, Heap.BaseResolved]
    · rw [hmark hc, Heap.BaseResolved]
  refine ⟨fun c => ?_, fun c => ?_, fun c x hx => ?_, fun c hc => ?_, fun c hc => ?_⟩
  · by_cases hc : c = self
    · subst hc
      rw [hnew, hanc]
    · rw [hlinked hc, hcells hc]
      exact h.refs c
  · by_cases hc : c = self
    · subst hc
      rw [hself']
      refine linkBaseclass_count ?_ _ _ _
      rw [Heap.setInProgress, Heap.modifyCell_self]
      exact h.count c
    · rw [hcells hc]
      exact h.count c
  · rw [hbelow] at hx
    exact h.sound c x hx
  · by_cases hcs : c = self
    · subst hcs
      have hip := congrArg ClassCell.resolvingInProgress
        ((s.setInProgress c).linkBaseclass_rest G.root c G.root c)
      have hip : (((s.setInProgress c).linkBaseclass G.root c G.root).cells c).resolvingInProgress = true := by
        refine Eq.trans hip ?_
        rw [Heap.setInProgress, Heap.modifyCell_self]
        rfl
      rw [hnew, hip, if_pos rfl]
    · rw [hlinked hcs, hcells hcs]
      exact h.top c hc
  · obtain ⟨hbases, heq⟩ := h.done c ((hres c).mp hc)
    refine ⟨fun b hb => (hbases b hb).imp_right (hres b).mpr, fun hnonempty => ?_⟩
    have hne : c ≠ self := by
      rintro rfl
      exact hnonempty hself
    rw [hlinked hne, heq hnonempty]
    exact linkParents_congr fun b _ => (hbelow b).symm

/-! ## (2) A returning resolution of bases -/

/-- What `resolve_base` leaves behind when it returns. -/
structure BaseDone (G : Schema) (old : Addr → List Addr) (s : Heap) (a : Addr) (s' : Heap) : Prop where
  /-- The lists are linked. -/
  linked : Linked G old s'
  /-- Classes that it did not finish are as before. -/
  advanced : Advanced s s'
  /-- The class is finished. -/
  resolved : s'.BaseResolved a
  /-- Its unfinished heirs are as before: they wait for it. -/
  kept : ∀ c, (s.cells c).baseIsResolved = false → G.IsBase c a → a ≠ c → s'.cells c = s.cells c

/-- A class may be handed to `resolve_base`. -/
structure BasePending (G : Schema) (old : Addr → List Addr) (s : Heap) (a : Addr) : Prop where
  /-- The lists are linked. -/
  linked : Linked G old s
  /-- It may be started. -/
  ready : Ready G s a
  /-- When it is on the way, every class may be started. -/
  readyAll : ∀ c, Ready G (s.setBaseInProgress a) c

/-- **The specification of `resolve_base`.** -/
def ResolvesBase (G : Schema) (old : Addr → List Addr) (resolve : Addr → M Unit) : Prop :=
  ∀ s s' self, BasePending G old s self → (resolve self).run s = .ok () s' → BaseDone G old s self s'

section SetFlags

variable (s : Heap) (self c : Addr)

theorem setBaseInProgress_of_ne (h : c ≠ self) :
    (s.setBaseInProgress self).cells c = s.cells c := Heap.modifyCell_of_ne _ _ h

theorem setBaseIsResolved_of_ne (h : c ≠ self) :
    (s.setBaseIsResolved self).cells c = s.cells c := Heap.modifyCell_of_ne _ _ h

@[simp] theorem setBaseInProgress_ancestors :
    ((s.setBaseInProgress self).cells c).ancestors = (s.cells c).ancestors := by
  by_cases h : c = self
  · subst h
    rw [Heap.setBaseInProgress, Heap.modifyCell_self]
  · rw [setBaseInProgress_of_ne s self c h]

@[simp] theorem setBaseInProgress_baseIsResolved :
    ((s.setBaseInProgress self).cells c).baseIsResolved = (s.cells c).baseIsResolved := by
  by_cases h : c = self
  · subst h
    rw [Heap.setBaseInProgress, Heap.modifyCell_self]
  · rw [setBaseInProgress_of_ne s self c h]

@[simp] theorem setBaseInProgress_self :
    ((s.setBaseInProgress self).cells self).baseResolvingInProgress = true := by
  rw [Heap.setBaseInProgress, Heap.modifyCell_self]

@[simp] theorem setBaseIsResolved_ancestors :
    ((s.setBaseIsResolved self).cells c).ancestors = (s.cells c).ancestors := by
  by_cases h : c = self
  · subst h
    rw [Heap.setBaseIsResolved, Heap.modifyCell_self]
  · rw [setBaseIsResolved_of_ne s self c h]

theorem setBaseIsResolved_self : (s.setBaseIsResolved self).BaseResolved self := by
  rw [Heap.BaseResolved, Heap.setBaseIsResolved, Heap.modifyCell_self]

end SetFlags

theorem Linked.setBaseInProgress {s : Heap} (h : Linked G old s) (self : Addr) :
    Linked G old (s.setBaseInProgress self) := by
  refine h.congr (fun c => by simp) (fun c => ?_) (fun c => by simp) (fun c _ => ?_)
  all_goals
    by_cases hc : c = self
    · subst hc
      rw [Heap.setBaseInProgress, Heap.modifyCell_self]
    · rw [setBaseInProgress_of_ne s self c hc]

/-- A class on the way more lets the others be started still. -/
theorem Ready.setBaseInProgress {s : Heap} {c : Addr} (h : Ready G s c) {b : Addr}
    (hb : (s.cells b).baseIsResolved = false) : Ready G (s.setBaseInProgress b) c := by
  intro hres hopen hbases
  by_cases hc : c = b
  · subst hc
    rw [setBaseInProgress_self] at hopen
    cases hopen
  · rw [setBaseInProgress_of_ne s b c hc] at hres hopen
    rcases h hres hopen hbases with hnil | ⟨b', hb', hne, hon⟩
    · refine .inl ?_
      rw [Heap.linked, setBaseInProgress_of_ne s b c hc]
      exact hnil
    · refine .inr ⟨b', hb', hne, ?_⟩
      by_cases hbb : b' = b
      · subst hbb
        exact ⟨setBaseInProgress_self s b', by simpa using hb⟩
      · rw [Heap.BaseOpen, setBaseInProgress_of_ne s b b' hbb]
        exact hon

/-- An heir of a class on the way may be started. -/
theorem ready_of_base {s : Heap} {self b : Addr} (hb : (s.cells b).baseIsResolved = false)
    (hbase : G.IsBase self b) (hne : b ≠ self) : Ready G (s.setBaseInProgress b) self := by
  intro _ _ _
  refine .inr ⟨b, hbase, hne, ?_⟩
  exact ⟨setBaseInProgress_self s b, by simpa using hb⟩

section Loop

variable {resolve : Addr → M Unit} {s s' : Heap} {self : Addr}

/-- **One round**: the base is finished, nothing has touched the class, and the base is linked. -/
theorem linkClassVar_spec (hresolve : ResolvesBase G old resolve) (hlinked : Linked G old s)
    (hself : (s.cells self).baseIsResolved = false) (hready : ∀ c, c ≠ self → Ready G s c)
    {cvar : ClassVar} (hbase : G.IsBase self cvar.entry)
    (hrun : (linkClassVar G resolve self cvar).run s = .ok () s') :
    cvar.entry = self ∧ s' = s ∨ cvar.entry ≠ self ∧ ∃ s₁, Linked G old s₁ ∧ Advanced s s₁ ∧
      s₁.cells self = s.cells self ∧ s₁.BaseResolved cvar.entry ∧
      s' = s₁.linkBaseclass G.root self cvar.entry := by
  obtain ⟨b, attrs⟩ := cvar
  rw [linkClassVar] at hrun
  by_cases hb : b = self
  · rw [if_pos hb] at hrun
    cases hrun
    exact .inl ⟨hb, rfl⟩
  · rw [if_neg hb] at hrun
    obtain ⟨_, s₁, hbaseRun, hlink⟩ := run_bind_eq_ok.mp hrun
    cases hlink
    refine .inr ⟨hb, s₁, ?_⟩
    rw [resolveBaseOnce] at hbaseRun
    obtain ⟨_, _, hget, hbaseRun⟩ := run_bind_eq_ok.mp hbaseRun
    cases hget
    dsimp only at hbaseRun
    by_cases hres : (s.cells b).baseIsResolved = true
    · rw [if_pos hres] at hbaseRun
      cases hbaseRun
      exact ⟨hlinked, .refl s, rfl, hres, rfl⟩
    · rw [if_neg hres] at hbaseRun
      have hbres : (s.cells b).baseIsResolved = false := by simpa using hres
      have hpending : BasePending G old s b := by
        refine ⟨hlinked, hready b hb, fun c => ?_⟩
        by_cases hc : c = self
        · subst hc
          exact ready_of_base hbres hbase hb
        · exact (hready c hc).setBaseInProgress hbres
      have hdone := hresolve s s₁ b hpending hbaseRun
      exact ⟨hdone.linked, hdone.advanced, hdone.kept self hself hbase hb, hdone.resolved, rfl⟩

/-- The state of the loop of `resolve_baseclasses` after the bases `pre`. -/
structure LoopDone (G : Schema) (old : Addr → List Addr) (s : Heap) (a : Addr) (pre : List Addr)
    (s' : Heap) : Prop where
  /-- The lists are linked. -/
  linked : Linked G old s'
  /-- The other classes that are not finished are as before. -/
  advanced : ∀ c, c ≠ a → s'.cells c = s.cells c ∨
    (s.cells c).baseIsResolved = false ∧ (s.cells c).baseResolvingInProgress = false ∧ s'.BaseResolved c
  /-- Only the list of the class itself has changed. -/
  rest : (s'.cells a).rest = (s.cells a).rest
  /-- The bases are finished. -/
  bases : ∀ b ∈ pre, b = a ∨ s'.BaseResolved b
  /-- They are linked. -/
  list : s'.linked a = (pre.filter (· ≠ a)).foldl (linkParent (s'.below · G.root)) (s.linked a)

namespace LoopDone

variable {a : Addr} {pre : List Addr}

theorem refl (h : Linked G old s) (a : Addr) : LoopDone G old s a [] s where
  linked := h
  advanced := fun _ _ => .inl rfl
  rest := rfl
  bases := fun _ hb => absurd hb List.not_mem_nil
  list := rfl

theorem baseIsResolved (h : LoopDone G old s a pre s') :
    (s'.cells a).baseIsResolved = (s.cells a).baseIsResolved := by
  have hrest := congrArg ClassCell.baseIsResolved h.rest
  exact hrest

theorem baseResolvingInProgress (h : LoopDone G old s a pre s') :
    (s'.cells a).baseResolvingInProgress = (s.cells a).baseResolvingInProgress := by
  have hrest := congrArg ClassCell.baseResolvingInProgress h.rest
  exact hrest

/-- Classes on the way are on the way. -/
theorem baseOpen (h : LoopDone G old s a pre s') {c : Addr} (hc : s.BaseOpen c) : s'.BaseOpen c := by
  by_cases hca : c = a
  · subst hca
    rw [Heap.BaseOpen, h.baseIsResolved, h.baseResolvingInProgress]
    exact hc
  · rcases h.advanced c hca with heq | ⟨-, hprog, -⟩
    · rw [Heap.BaseOpen, heq]
      exact hc
    · rw [Heap.BaseOpen, hprog] at hc
      exact absurd hc.1 Bool.false_ne_true

theorem ready (h : LoopDone G old s a pre s') {c : Addr} (hca : c ≠ a) (hc : Ready G s c) :
    Ready G s' c :=
  hc.of_kept ((h.advanced c hca).imp_right fun hdone => hdone.2.2) fun _ => h.baseOpen

/-- The own base is passed over. -/
theorem skip (h : LoopDone G old s a pre s') : LoopDone G old s a (pre ++ [a]) s' where
  linked := h.linked
  advanced := h.advanced
  rest := h.rest
  bases := by
    intro b hb
    rcases List.mem_append.mp hb with hpre | hlast
    · exact h.bases b hpre
    · exact .inl (List.mem_singleton.mp hlast)
  list := by simpa using h.list

/-- **One base more**, which `resolve_base` has finished and `link_baseclass` links. -/
theorem link (h : LoopDone G old s a pre s') {s₁ : Heap} (hs : (s.cells a).baseIsResolved = false) {b : Addr}
    (hbase : G.IsBase a b) (hne : b ≠ a) (hlinked : Linked G old s₁) (hadv : Advanced s' s₁)
    (hkept : s₁.cells a = s'.cells a) (hb : s₁.BaseResolved b) :
    LoopDone G old s a (pre ++ [b]) (s₁.linkBaseclass G.root a b) := by
  have hs₁ : (s₁.cells a).baseIsResolved = false := by rw [hkept, h.baseIsResolved, hs]
  have hpre : ∀ b' ∈ pre, b' = a ∨ s₁.BaseResolved b' := by
    intro b' hb'
    exact (h.bases b' hb').imp_right hadv.baseResolved
  have hbelow : ∀ {c}, c ≠ a → (s₁.linkBaseclass G.root a b).below c G.root = s₁.below c G.root := by
    intro c hc
    rw [Heap.below, s₁.linkBaseclass_of_ne _ _ _ hc, Heap.below]
  refine ⟨hlinked.linkBaseclass hs₁ hbase, fun c hc => ?_, ?_, fun b' hb' => ?_, ?_⟩
  · rw [s₁.linkBaseclass_of_ne _ _ _ hc, Heap.BaseResolved, Heap.linkBaseclass_baseIsResolved]
    rcases h.advanced c hc with heq | ⟨hres, hprog, hdone⟩
    · rcases hadv c with heq' | ⟨hres, hprog, hdone⟩
      · exact .inl (heq'.trans heq)
      · rw [heq] at hres hprog
        exact .inr ⟨hres, hprog, hdone⟩
    · exact .inr ⟨hres, hprog, hadv.baseResolved hdone⟩
  · rw [Heap.linkBaseclass_rest, hkept, h.rest]
  · rw [Heap.BaseResolved, Heap.linkBaseclass_baseIsResolved]
    rcases List.mem_append.mp hb' with hmem | hlast
    · exact hpre b' hmem
    · rw [List.mem_singleton.mp hlast]
      exact .inr hb
  · have hold : s₁.linked a = s'.linked a := by rw [Heap.linked, hkept, Heap.linked]
    have hlast : [b].filter (· ≠ a) = [b] := by simpa using hne
    rw [hlinked.linked_linkBaseclass, hold, h.list, List.filter_append, hlast, List.foldl_append,
      List.foldl_cons, List.foldl_nil, linkParent, linkParent, hbelow hne]
    -- the bases linked before are finished, so that their lists have not changed since
    congr 2
    refine foldl_linkParent_congr fun b' hb' => ?_
    obtain ⟨hmem, hb'a⟩ := List.mem_filter.mp hb'
    have hb'a : b' ≠ a := by simpa using hb'a
    have hres : s'.BaseResolved b' := (h.bases b' hmem).resolve_left hb'a
    rw [hbelow hb'a, Heap.below, ← hadv.of_resolved hres, Heap.below]

end LoopDone

/-- **The loop of `resolve_baseclasses`** links every base. -/
theorem forM_linkClassVar (hresolve : ResolvesBase G old resolve) (hlinked : Linked G old s)
    (hself : (s.cells self).baseIsResolved = false) (hready : ∀ c, c ≠ self → Ready G s c)
    (hrun : ((G.baseclassVars self).forM (linkClassVar G resolve self)).run s = .ok () s') :
    LoopDone G old s self (G.bases self) s' := by
  refine forM_ok_induction (fun pre s' => LoopDone G old s self (pre.map ClassVar.entry) s') hrun
    (.refl hlinked self) ?_
  intro pre cvar s₁ s₂ hcvar hpre hround
  have hbase : G.IsBase self cvar.entry := List.mem_map_of_mem hcvar
  rw [List.map_append, List.map_singleton]
  rcases linkClassVar_spec hresolve hpre.linked (hpre.baseIsResolved.trans hself)
    (fun c hc => hpre.ready hc (hready c hc)) hbase hround with
    ⟨heq, rfl⟩ | ⟨hne, s₃, hlinked₃, hadv, hkept, hdone, rfl⟩
  · rw [heq]
    exact hpre.skip
  · exact hpre.link hself hbase hne hlinked₃ hadv hkept hdone

end Loop

theorem Heap.setBaseIsResolved_idem (s : Heap) (a : Addr) :
    (s.setBaseIsResolved a).setBaseIsResolved a = s.setBaseIsResolved a := by
  simp [Heap.setBaseIsResolved, Heap.modifyCell]

/-- **The class is marked as finished** when all of its bases are linked and nothing else is. -/
theorem LoopDone.finish {s s' : Heap} {a : Addr} (h : LoopDone G old s a (G.bases a) s')
    (hnil : G.bases a ≠ [] → s.linked a = []) : Linked G old (s'.setBaseIsResolved a) := by
  have hlinked : ∀ c, (s'.setBaseIsResolved a).linked c = s'.linked c := by
    intro c
    rw [Heap.linked, setBaseIsResolved_ancestors, Heap.linked]
  have hbelow : ∀ c, (s'.setBaseIsResolved a).below c G.root = s'.below c G.root := by
    intro c
    rw [Heap.below, setBaseIsResolved_ancestors, Heap.below]
  have hres : ∀ {c}, s'.BaseResolved c → (s'.setBaseIsResolved a).BaseResolved c := by
    intro c hc
    by_cases hca : c = a
    · rw [hca]
      exact setBaseIsResolved_self s' a
    · rw [Heap.BaseResolved, setBaseIsResolved_of_ne s' a c hca]
      exact hc
  refine ⟨fun c => ?_, fun c => ?_, fun c => ?_, fun c hc => ?_, fun c hc => ?_⟩
  · rw [hlinked, setBaseIsResolved_ancestors]
    exact h.linked.refs c
  · rw [setBaseIsResolved_ancestors, ← h.linked.count c]
    by_cases hca : c = a
    · subst hca
      rw [Heap.setBaseIsResolved, Heap.modifyCell_self]
    · rw [setBaseIsResolved_of_ne s' a c hca]
  · rw [hbelow]
    exact h.linked.sound c
  · have hprog : ((s'.setBaseIsResolved a).cells c).resolvingInProgress =
        (s'.cells c).resolvingInProgress := by
      by_cases hca : c = a
      · subst hca
        rw [Heap.setBaseIsResolved, Heap.modifyCell_self]
      · rw [setBaseIsResolved_of_ne s' a c hca]
    rw [hlinked, hprog]
    exact h.linked.top c hc
  · simp only [hlinked, hbelow]
    by_cases hca : c = a
    · subst hca
      refine ⟨fun b hb => (h.bases b hb).imp_right hres, fun hne => ?_⟩
      rw [h.list, hnil hne]
      rfl
    · rw [Heap.BaseResolved, setBaseIsResolved_of_ne s' a c hca] at hc
      obtain ⟨hbases, heq⟩ := h.linked.done c hc
      exact ⟨fun b hb => (hbases b hb).imp_right hres, heq⟩

/-- **A returning `resolve_base`** met an unmarked class and ran the loop. -/
theorem resolveBase_ok {depth : Nat} {a : Addr} {s s' : Heap}
    (hrun : (resolveBase G (depth + 1) a).run s = .ok () s') :
    (s.cells a).baseIsResolved = false ∧ (s.cells a).baseResolvingInProgress = false ∧
      ∃ s₁, ((G.baseclassVars a).forM (linkClassVar G (resolveBase G depth) a)).run
        (s.setBaseInProgress a) = .ok () s₁ ∧ s' = s₁.setBaseIsResolved a := by
  rw [resolveBase] at hrun
  obtain ⟨_, _, hget, hrun⟩ := run_bind_eq_ok.mp hrun
  cases hget
  by_cases hres : (s.cells a).baseIsResolved = true
  · rw [if_pos hres] at hrun
    cases hrun
  rw [if_neg hres] at hrun
  by_cases hprog : (s.cells a).baseResolvingInProgress = true
  · rw [if_pos hprog] at hrun
    cases hrun
  rw [if_neg hprog] at hrun
  obtain ⟨_, s₀, hmark, hrun⟩ := run_bind_eq_ok.mp hrun
  cases hmark
  obtain ⟨_, s₂, hbases, hset⟩ := run_bind_eq_ok.mp hrun
  cases hset
  rw [resolveBaseclasses] at hbases
  obtain ⟨_, s₁, hloop, hset⟩ := run_bind_eq_ok.mp hbases
  cases hset
  refine ⟨by simpa using hres, by simpa using hprog, s₁, hloop, ?_⟩
  exact s₁.setBaseIsResolved_idem a

/-- **`resolve_base` meets its specification** at every depth. -/
theorem resolveBase_spec (old : Addr → List Addr) (depth : Nat) :
    ResolvesBase G old (resolveBase G depth) := by
  induction depth with
  | zero =>
      intro s s' a _ hrun
      cases hrun
  | succ depth ih =>
      intro s s' a hpending hrun
      obtain ⟨hres, hprog, s₁, hloop, rfl⟩ := resolveBase_ok hrun
      have hres₀ : ((s.setBaseInProgress a).cells a).baseIsResolved = false := by simpa using hres
      have hdone := forM_linkClassVar ih (hpending.linked.setBaseInProgress a) hres₀
        (fun c _ => hpending.readyAll c) hloop
      have hkeep : ∀ c, c ≠ a → (s₁.setBaseIsResolved a).cells c = s.cells c ∨
          (s.cells c).baseIsResolved = false ∧ (s.cells c).baseResolvingInProgress = false ∧
            (s₁.setBaseIsResolved a).BaseResolved c := by
        intro c hc
        have hadv := hdone.advanced c hc
        rw [setBaseInProgress_of_ne s a c hc] at hadv
        rwa [Heap.BaseResolved, setBaseIsResolved_of_ne s₁ a c hc]
      have hopen : ∀ b, b ≠ a → s.BaseOpen b → s₁.BaseOpen b := by
        intro b hb hon
        refine hdone.baseOpen ?_
        rw [Heap.BaseOpen, setBaseInProgress_of_ne s a b hb]
        exact hon
      refine ⟨hdone.finish fun hne => ?_, fun c => ?_, setBaseIsResolved_self s₁ a, fun c hc hbase hca => ?_⟩
      · -- were the list begun, a base would be on the way that the loop has finished
        rw [Heap.linked, setBaseInProgress_ancestors]
        rcases hpending.ready hres hprog hne with hnil | ⟨b, hb, hba, hon⟩
        · exact hnil
        · have hfinished := (hdone.bases b hb).resolve_left hba
          rw [Heap.BaseResolved, (hopen b hba hon).2] at hfinished
          cases hfinished
      · by_cases hc : c = a
        · subst hc
          exact .inr ⟨hres, hprog, setBaseIsResolved_self s₁ c⟩
        · exact hkeep c hc
      · rcases hkeep c (Ne.symm hca) with heq | ⟨-, -, hc'⟩
        · exact heq
        · -- a finished heir would have this class finished before
          rw [Heap.BaseResolved, setBaseIsResolved_of_ne s₁ a c (Ne.symm hca)] at hc'
          rcases (hdone.linked.done c hc').1 a hbase with heq | hfinished
          · exact absurd heq hca
          · rw [Heap.BaseResolved, hdone.baseIsResolved, hres₀] at hfinished
            cases hfinished

end Knowdy.Hierarchy
