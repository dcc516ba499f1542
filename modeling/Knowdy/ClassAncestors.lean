import Knowdy.ClassCircles
import Knowdy.ProcResolve

/-! # The ancestors of resolved classes and procs

`link_baseclass` looks for the ancestors of a base that are listed already, and adds the base itself without
looking. So a base that is declared after one of its heirs is listed twice. A class that is read from a
snapshot comes with its ancestors, but without the links that the check goes by: the first reference to it
links all of them again.

* `ExactAncestors` — the ancestors below the root are what the bases lead to, each once, and counted.
* `Schema.BasesOrdered` — no base is declared after itself or after one of its heirs.
* `Heap.reload`, `callRefs` — a repository read from a snapshot of this one, and calls of
  `knd_resolve_class_ref` in it; `Touched` — the classes that such calls link.
* `ancestors_exact_iff` — when the lists are exact. -/

namespace Knowdy.Hierarchy

open Relation

variable {G : Schema} {old : Addr → List Addr}

/-! ## (1) Classes from the sources -/

/-- **The ancestors of a class are exact**: below the root they are what its bases lead to, each once, and
`num_ancestors` counts them. -/
structure ExactAncestors (G : Schema) (s : Heap) (c : Addr) : Prop where
  /-- The ancestors below the root. -/
  closure : ListsClosure G.IsBase c (s.below c G.root)
  /-- `num_ancestors`. -/
  count : (s.cells c).numAncestors = (s.cells c).ancestors.length

/-- **No base is declared after itself or after one of its heirs.** -/
def Schema.BasesOrdered (G : Schema) (c : Addr) : Prop :=
  (G.bases c).Pairwise fun b b' => ¬ReflTransGen G.IsBase b b'

section Sources

variable {s : Heap} {c x : Addr}

theorem Settled.acyclic_base (h : Settled G old s) (hc : s.Resolved c) : ¬TransGen G.IsBase c c :=
  fun hpath => h.acyclic hc (TransGen.lift id (fun _ _ => Schema.Needs.of_isBase) c c hpath)

theorem Settled.resolved_of_isBase (h : Settled G old s) (hc : s.Resolved c) (hx : G.IsBase c x) :
    s.Resolved x := (h.ranked c hc x (.of_isBase hx)).1

/-- The ancestors of a resolved class are what its bases lead to. -/
theorem Settled.mem_below_iff (h : Settled G old s) (hc : s.Resolved c) :
    x ∈ s.below c G.root ↔ TransGen G.IsBase c x := by
  refine ⟨h.linked.sound c x, fun hpath => ?_⟩
  have hne : x ≠ c := by
    rintro rfl
    exact h.acyclic_base hc hpath
  obtain ⟨b, hb, -⟩ := TransGen.head'_iff.mp hpath
  exact h.mem_below (h.based c hc (List.ne_nil_of_mem hb)) hpath.to_reflTransGen hne

/-- They are collected from those of the bases. -/
theorem Settled.below_eq (h : Settled G (fun _ => []) s) (hc : s.Resolved c) :
    s.below c G.root = linkParents (s.below · G.root) (G.bases c) := by
  rw [h.linked.below_eq, List.filter_nil, List.append_nil]
  by_cases hnil : G.bases c = []
  · rw [h.linked.top c hnil, h.started c hc, if_pos rfl, hnil]
    simp [linkParents]
  · have hself : (G.bases c).filter (· ≠ c) = G.bases c := by
      refine List.filter_eq_self.mpr fun b hb => ?_
      have hbc : b ≠ c := by
        rintro rfl
        exact h.acyclic_base hc (.single hb)
      simpa using hbc
    have heq := (h.linked.done c (h.based c hc hnil)).2 hnil
    rw [hself] at heq
    rw [heq]
    refine List.filter_eq_self.mpr fun x hx => ?_
    obtain ⟨b, hb, rfl | hx⟩ := mem_linkParents.mp hx
    · simpa using Schema.ne_root_of_isBase hb
    · exact (List.mem_filter.mp hx).2

/-- **When the ancestors of a class from the sources are exact.** -/
theorem Settled.exactAncestors_iff (h : Settled G (fun _ => []) s) (hc : s.Resolved c) :
    ExactAncestors G s c ↔ G.BasesOrdered c := by
  have hnodup : (s.below c G.root).Nodup ↔ G.BasesOrdered c := by
    rw [h.below_eq hc]
    refine nodup_linkParents_iff_pairwise (fun b hb x => ?_) fun b hb => ?_
    · exact h.mem_below_iff (h.resolved_of_isBase hc hb)
    · exact h.acyclic_base (h.resolved_of_isBase hc hb)
  constructor
  · intro hexact
    exact hnodup.mp hexact.closure.nodup
  · intro hordered
    exact ⟨⟨fun x => h.mem_below_iff hc, hnodup.mpr hordered⟩, h.linked.count c⟩

end Sources

/-! ## (2) Classes from a snapshot -/

/-- What `export_ancestors` writes: nothing for a class whose one ancestor is the root, which has no id. -/
def Heap.exportAncestors (s : Heap) (c : Addr) : List Addr :=
  if (s.cells c).numAncestors = 0 then []
  else if (s.cells c).numAncestors = 1 ∧
      ((s.cells c).ancestors.head?.all fun ref => (s.cells ref.entry).numid = 0) then []
  else (s.cells c).ancestors.map ClassRef.entry

/-- `parse_ancestor_array_item`: the entry alone is set. -/
def parseAncestorArrayItem (self : ClassCell) (entry : Addr) : ClassCell :=
  { self with
    ancestors := .stale entry :: self.ancestors
    numAncestors := self.numAncestors + 1 }

/-- `knd_class_read`, of the ancestors. -/
def kndClassRead (anc : List Addr) : ClassCell :=
  { anc.foldl parseAncestorArrayItem {} with isResolved := true }

/-- **The repository read from a snapshot of this one**: classes keep their ids and their declared bases. -/
def Heap.reload (s : Heap) : Heap where
  cells c := { kndClassRead (s.exportAncestors c) with numid := (s.cells c).numid }
  classIdCount := s.classIdCount

/-- Calls of `knd_resolve_class_ref` one after the other, each with a class and perhaps a template. -/
def callRefs (G : Schema) (depth : Nat) (calls : List (Addr × Option Addr)) (s : Heap) : Heap :=
  calls.foldl (fun s call => finalState (kndResolveClassRef G .other depth call.1 call.2) s) s

/-- **A class is linked by the calls**: one of them names it or an heir of it. -/
def Touched (G : Schema) (calls : List (Addr × Option Addr)) (c : Addr) : Prop :=
  ∃ call ∈ calls, ReflTransGen G.IsBase call.1 c ∨ ∃ b, call.2 = some b ∧ ReflTransGen G.IsBase b c

section Snapshot

variable {s s' : Heap} {c x : Addr}

theorem kndClassRead_ancestors (anc : List Addr) :
    (kndClassRead anc).ancestors = anc.reverse.map .stale ∧ (kndClassRead anc).numAncestors = anc.length := by
  have hloop : ∀ (anc : List Addr) (self : ClassCell),
      (anc.foldl parseAncestorArrayItem self).ancestors = anc.reverse.map .stale ++ self.ancestors ∧
        (anc.foldl parseAncestorArrayItem self).numAncestors = self.numAncestors + anc.length := by
    intro anc
    induction anc with
    | nil => exact fun _ => ⟨rfl, rfl⟩
    | cons a anc ih =>
        intro self
        obtain ⟨hanc, hnum⟩ := ih (parseAncestorArrayItem self a)
        rw [List.foldl_cons, hanc, hnum]
        simp only [parseAncestorArrayItem, List.reverse_cons, List.map_append, List.map_cons, List.map_nil,
          List.length_cons, List.append_assoc, List.cons_append, List.nil_append, true_and]
        omega
  obtain ⟨hanc, hnum⟩ := hloop anc {}
  rw [List.append_nil] at hanc
  rw [Nat.zero_add] at hnum
  exact ⟨hanc, hnum⟩

theorem kndClassRead_marks (anc : List Addr) :
    (kndClassRead anc).baseResolvingInProgress = false ∧ (kndClassRead anc).baseIsResolved = false ∧
      (kndClassRead anc).resolvingInProgress = false := by
  have hloop : ∀ (anc : List Addr) (self : ClassCell),
      (anc.foldl parseAncestorArrayItem self).baseResolvingInProgress = self.baseResolvingInProgress ∧
        (anc.foldl parseAncestorArrayItem self).baseIsResolved = self.baseIsResolved ∧
        (anc.foldl parseAncestorArrayItem self).resolvingInProgress = self.resolvingInProgress := by
    intro anc
    induction anc with
    | nil => exact fun _ => ⟨rfl, rfl, rfl⟩
    | cons a anc ih => exact fun self => ih _
  exact hloop anc {}

/-- The ancestors that come with a class. -/
def Heap.snapshotAncestors (s : Heap) (c : Addr) : List Addr := (s.exportAncestors c).reverse

/-- **What a snapshot gives back** below the root: the same ancestors in the opposite order. -/
theorem Settled.filter_snapshotAncestors (h : Settled G (fun _ => []) s) (hc : s.Resolved c) :
    (s.snapshotAncestors c).filter (· ≠ G.root) = (s.below c G.root).reverse := by
  rw [Heap.snapshotAncestors, List.filter_reverse, Heap.exportAncestors]
  by_cases hzero : (s.cells c).numAncestors = 0
  · have hnil : (s.cells c).ancestors = [] := by
      rw [h.linked.count c] at hzero
      exact List.length_eq_zero_iff.mp hzero
    rw [if_pos hzero, Heap.below, hnil]
    rfl
  rw [if_neg hzero]
  by_cases hone : (s.cells c).numAncestors = 1 ∧
      ((s.cells c).ancestors.head?.all fun ref => (s.cells ref.entry).numid = 0)
  · rw [if_pos hone]
    rw [h.linked.count c] at hone
    obtain ⟨ref, href⟩ := List.length_eq_one_iff.mp hone.1
    have hnum : (s.cells ref.entry).numid = 0 := by simpa [href] using hone.2
    -- an ancestor below the root is resolved, so that it has a number
    have hnone : s.below c G.root = [] := by
      refine List.eq_nil_iff_forall_not_mem.mpr fun x hx => ?_
      have hpath := (h.mem_below_iff hc).mp hx
      have hxres : s.Resolved x := by
        refine TransGen.head_induction_on (motive := fun a _ => s.Resolved a → s.Resolved x) hpath ?_ ?_ hc
        · exact fun hab ha => h.resolved_of_isBase ha hab
        · exact fun hab _ ih ha => ih (h.resolved_of_isBase ha hab)
      rw [Heap.below, href] at hx
      obtain ⟨hx, -⟩ := List.mem_filter.mp hx
      obtain rfl : x = ref.entry := by simpa using hx
      have hpos := (h.numid_le _ hxres).1
      omega
    rw [hnone]
    rfl
  · rw [if_neg hone]
    rfl

/-- A repository read from a snapshot is quiet. -/
theorem Quiet.reload (h : Quiet G old s) : Quiet G s.snapshotAncestors s.reload := by
  have hanc : ∀ c, (s.reload.cells c).ancestors = (s.snapshotAncestors c).map .stale :=
    fun c => (kndClassRead_ancestors (s.exportAncestors c)).1
  have hnum : ∀ c, (s.reload.cells c).numAncestors = (s.exportAncestors c).length :=
    fun c => (kndClassRead_ancestors (s.exportAncestors c)).2
  have hmarks : ∀ c, (s.reload.cells c).baseResolvingInProgress = false ∧
      (s.reload.cells c).baseIsResolved = false ∧ (s.reload.cells c).resolvingInProgress = false :=
    fun c => kndClassRead_marks (s.exportAncestors c)
  have hlinked : ∀ c, s.reload.linked c = [] := fun c => @linked_eq _ _ [] _ (hanc c)
  refine ⟨⟨fun c => ?_, fun c => ?_, fun c x hx => ?_, fun c _ => ?_, fun c hc => ?_⟩, fun c hc => ?_,
    fun c _ _ => hlinked c⟩
  · rw [hlinked, hanc]
    rfl
  · rw [hnum, hanc, Heap.snapshotAncestors, List.length_map, List.length_reverse]
  · rw [Heap.below, hanc, List.map_map] at hx
    obtain ⟨hx, hroot⟩ := List.mem_filter.mp hx
    have hx : x ∈ s.exportAncestors c := by
      simpa [Heap.snapshotAncestors, ClassRef.stale, Function.comp_def] using hx
    refine h.linked.sound c x (List.mem_filter.mpr ⟨?_, hroot⟩)
    rw [Heap.exportAncestors] at hx
    split at hx
    · cases hx
    split at hx
    · cases hx
    · exact hx
  · rw [hlinked, (hmarks c).2.2, if_neg Bool.false_ne_true]
  · rw [Heap.BaseResolved, (hmarks c).2.1] at hc
    cases hc
  · rw [Heap.BaseOpen, (hmarks c).1] at hc
    exact absurd hc.1 Bool.false_ne_true

end Snapshot

/-! ## (3) References to classes from a snapshot -/

/-- The relation of a frame condition: classes outside `P` are kept. -/
def KeptOutside (P : Addr → Prop) (s s' : Heap) : Prop := ∀ c, ¬P c → s'.cells c = s.cells c

instance (P : Addr → Prop) : IsPreorder Heap (KeptOutside P) where
  refl _ _ _ := rfl
  trans _ _ _ h h' c hc := (h' c hc).trans (h c hc)

theorem moves_modifyCell {P : Addr → Prop} {a : Addr} (ha : P a) (f : Heap → ClassCell → ClassCell) :
    Moves (KeptOutside P) (modify fun s => s.modifyCell a (f s) : M Unit) := by
  refine Moves.modify fun s c hc => Heap.modifyCell_of_ne _ _ ?_
  rintro rfl
  exact hc ha

/-- **Resolving bases stays** with what the bases lead to. -/
theorem moves_resolveBase_outside (depth : Nat) (a : Addr) :
    Moves (KeptOutside (ReflTransGen G.IsBase a)) (resolveBase G depth a) := by
  induction depth generalizing a with
  | zero => exact Moves.throw _
  | succ depth ih =>
      refine Moves.get_bind fun s => ?_
      refine Moves.ite (fun _ => Moves.throw _) (fun _ => ?_) s
      refine Moves.ite (fun _ => Moves.throw _) fun _ => ?_
      refine Moves.bind (moves_modifyCell .refl fun _ cell => { cell with baseResolvingInProgress := true })
        fun _ => ?_
      refine Moves.bind ?_ fun _ => moves_modifyCell .refl fun _ cell => { cell with baseIsResolved := true }
      refine Moves.bind (Moves.forM fun cvar hcvar => ?_) fun _ =>
        moves_modifyCell .refl fun _ cell => { cell with baseIsResolved := true }
      have hbase : G.IsBase a cvar.entry := List.mem_map_of_mem hcvar
      refine Moves.ite (fun _ => Moves.pure ()) fun _ => ?_
      refine Moves.bind (Moves.get_bind fun s => ?_) fun _ =>
        moves_modifyCell .refl fun s cell => linkBaseclass G.root cell cvar.entry (s.cells cvar.entry).ancestors
      refine Moves.ite (fun _ => Moves.pure ()) (fun _ => ?_) s
      refine (ih cvar.entry).mono fun s s' hkept c hc => hkept c fun hpath => hc (hpath.head hbase)

section Calls

variable {s s' : Heap} {depth : Nat} {c x : Addr}

/-- What a class with resolved bases leads to has resolved bases. -/
theorem Quiet.baseResolved_of_path (h : Quiet G old s) (hc : s.BaseResolved c)
    (hpath : ReflTransGen G.IsBase c x) : s.BaseResolved x := by
  induction hpath with
  | refl => exact hc
  | tail _ hab ih =>
      rcases (h.linked.done _ ih).1 _ hab with heq | hdone
      · rw [heq]
        exact ih
      · exact hdone

/-- Without cycles of bases **the resolution of bases returns**. -/
theorem Quiet.resolveBaseOnce_returns (h : Quiet G old s) (hacyclic : ¬BaseCyclic G)
    (hdepth : G.names.length < depth) (hc : c ∈ G.names) :
    ∃ s', (Hierarchy.resolveBaseOnce (resolveBase G depth) c).run s = .ok () s' ∧ Quiet G old s' ∧
      Advanced s s' ∧
      ∀ x, s'.BaseResolved x ↔ s.BaseResolved x ∨ ReflTransGen G.IsBase c x := by
  cases hrun : (Hierarchy.resolveBaseOnce (resolveBase G depth) c).run s with
  | error e s' => exact absurd (h.resolveBaseOnce_error hdepth hc hrun).2 hacyclic
  | ok u s' =>
      obtain ⟨h', hadv, hdone⟩ := h.resolveBaseOnce hrun
      refine ⟨s', rfl, h', hadv, fun x => ⟨fun hx => ?_, ?_⟩⟩
      · by_contra hno
        rw [not_or] at hno
        have hmoves : Moves (KeptOutside (ReflTransGen G.IsBase c))
            (Hierarchy.resolveBaseOnce (resolveBase G depth) c) :=
          Moves.get_bind fun s => Moves.ite (fun _ => Moves.pure ())
            (fun _ => moves_resolveBase_outside depth c) s
        have hkept := hmoves.of_ok hrun x hno.2
        rw [Heap.BaseResolved, hkept] at hx
        exact hno.1 hx
      · rintro (hx | hpath)
        · exact hadv.baseResolved hx
        · exact h'.baseResolved_of_path hdone hpath

theorem finalState_kndIsBase (template c : Addr) (s : Heap) : finalState (kndIsBase template c) s = s := by
  have hmoves : Moves (Kept id) (kndIsBase template c) :=
    Moves.get_bind fun s => Moves.ite (fun _ => Moves.pure ()) (fun _ => Moves.throw _) s
  exact hmoves s

/-- **A reference with a template** resolves the bases of both, then the template is looked for. -/
theorem Quiet.run_kndResolveClassRef (h : Quiet G old s) (hacyclic : ¬BaseCyclic G)
    (hdepth : G.names.length < depth) (hc : c ∈ G.names) {b : Addr} (hb : b ∈ G.names) (task : TaskType) :
    ∃ s', Quiet G old s' ∧
      (∀ x, s'.BaseResolved x ↔ s.BaseResolved x ∨ ReflTransGen G.IsBase c x ∨ ReflTransGen G.IsBase b x) ∧
      (kndResolveClassRef G task depth c (some b)).run s =
        if task = .bulkLoad ∧ b = c then .ok () s' else (kndIsBase b c).run s' := by
  obtain ⟨s₁, hrun₁, h₁, -, hres₁⟩ := h.resolveBaseOnce_returns hacyclic hdepth hc
  obtain ⟨s₂, hrun₂, h₂, -, hres₂⟩ := h₁.resolveBaseOnce_returns hacyclic hdepth hb
  refine ⟨s₂, h₂, fun x => ?_, ?_⟩
  · rw [hres₂ x, hres₁ x, or_assoc]
  · unfold kndResolveClassRef
    rw [run_bind_of_ok hrun₁]
    dsimp only
    rw [run_bind_of_ok hrun₂]
    split <;> rfl

/-- **One reference** resolves the bases of the class and of the template, whether it is refused or not. -/
theorem Quiet.finalState_kndResolveClassRef (h : Quiet G old s) (hacyclic : ¬BaseCyclic G)
    (hdepth : G.names.length < depth) (task : TaskType) (hc : c ∈ G.names) {base : Option Addr}
    (hbase : ∀ b, base = some b → b ∈ G.names) :
    Quiet G old (finalState (kndResolveClassRef G task depth c base) s) ∧
      ∀ x, (finalState (kndResolveClassRef G task depth c base) s).BaseResolved x ↔
        s.BaseResolved x ∨ ReflTransGen G.IsBase c x ∨
          ∃ b, base = some b ∧ ReflTransGen G.IsBase b x := by
  cases base with
  | none =>
      obtain ⟨s₁, hrun₁, h₁, -, hres₁⟩ := h.resolveBaseOnce_returns hacyclic hdepth hc
      unfold kndResolveClassRef
      rw [finalState, run_bind_of_ok hrun₁]
      refine ⟨h₁, fun x => ?_⟩
      simpa using hres₁ x
  | some b =>
      obtain ⟨s₂, h₂, hres₂, hrun⟩ := h.run_kndResolveClassRef hacyclic hdepth hc (hbase b rfl) task
      have hfinal : finalState (kndResolveClassRef G task depth c (some b)) s = s₂ := by
        by_cases hself : task = .bulkLoad ∧ b = c
        · rw [if_pos hself] at hrun
          exact finalState_of_ok hrun
        · rw [if_neg hself] at hrun
          rw [finalState, hrun]
          exact finalState_kndIsBase b c s₂
      rw [hfinal]
      refine ⟨h₂, fun x => ?_⟩
      rw [hres₂ x]
      simp

/-- **After the calls** the classes that they touch have their bases linked, and no others. -/
theorem Quiet.callRefs (h : Quiet G old s) (hfresh : ∀ x, ¬s.BaseResolved x) (hacyclic : ¬BaseCyclic G)
    (hdepth : G.names.length < depth) {calls : List (Addr × Option Addr)}
    (hcalls : ∀ call ∈ calls, call.1 ∈ G.names ∧ ∀ b, call.2 = some b → b ∈ G.names) :
    Quiet G old (callRefs G depth calls s) ∧
      ∀ x, (Hierarchy.callRefs G depth calls s).BaseResolved x ↔ Touched G calls x := by
  induction calls using List.reverseRecOn with
  | nil =>
      refine ⟨h, fun x => iff_of_false (hfresh x) ?_⟩
      rintro ⟨call, hcall, -⟩
      cases hcall
  | append_singleton calls call ih =>
      obtain ⟨hq, hres⟩ := ih fun call' hcall' => hcalls call' (List.mem_append_left _ hcall')
      obtain ⟨hmem, hbase⟩ := hcalls call (List.mem_append_right _ (List.mem_singleton_self _))
      obtain ⟨hq', hres'⟩ := hq.finalState_kndResolveClassRef hacyclic hdepth .other hmem hbase
      rw [Hierarchy.callRefs, List.foldl_append]
      refine ⟨hq', fun x => (hres' x).trans ?_⟩
      rw [hres x, Touched, Touched]
      constructor
      · rintro (⟨call', hcall', htouch⟩ | htouch)
        · exact ⟨call', List.mem_append_left _ hcall', htouch⟩
        · exact ⟨call, List.mem_append_right _ (List.mem_singleton_self _), htouch⟩
      · rintro ⟨call', hcall', htouch⟩
        rcases List.mem_append.mp hcall' with hold | hnew
        · exact .inl ⟨call', hold, htouch⟩
        · rw [List.mem_singleton.mp hnew] at htouch
          exact .inr htouch

/-- **When the ancestors of a class from a snapshot are exact**: they were when it was written, and no call
has linked its bases again. -/
theorem Settled.exactAncestors_reload_iff {s : Heap} (h : Settled G (fun _ => []) s) (hc : s.Resolved c)
    {s' : Heap} (hq : Quiet G s.snapshotAncestors s') :
    ExactAncestors G s' c ↔ G.BasesOrdered c ∧ (G.bases c = [] ∨ ¬s'.BaseResolved c) := by
  have hbelow := hq.linked.below_eq c
  rw [h.filter_snapshotAncestors hc] at hbelow
  by_cases hnil : G.bases c = []
  · -- below the root there is nothing to list
    have hnone : s'.below c G.root = [] := by
      refine List.eq_nil_iff_forall_not_mem.mpr fun x hx => ?_
      obtain ⟨b, hb, -⟩ := TransGen.head'_iff.mp (hq.linked.sound c x hx)
      rw [Schema.IsBase, hnil] at hb
      cases hb
    refine iff_of_true ⟨⟨fun x => ?_, ?_⟩, hq.linked.count c⟩ ⟨?_, .inl hnil⟩
    · refine ⟨hq.linked.sound c x, fun hpath => ?_⟩
      obtain ⟨b, hb, -⟩ := TransGen.head'_iff.mp hpath
      rw [Schema.IsBase, hnil] at hb
      cases hb
    · rw [hnone]
      exact List.nodup_nil
    · rw [Schema.BasesOrdered, hnil]
      exact List.Pairwise.nil
  by_cases hres : s'.BaseResolved c
  · -- a base is linked in front of the ancestors that came with the class
    obtain ⟨b, hb⟩ := List.exists_mem_of_ne_nil _ hnil
    have hb' : G.IsBase c b := hb
    have hbc : b ≠ c := by
      rintro rfl
      exact h.acyclic_base hc (.single hb)
    have hfront : b ∈ (s'.linked c).filter (· ≠ G.root) := by
      refine List.mem_filter.mpr ⟨?_, by simpa using Schema.ne_root_of_isBase hb'⟩
      rw [(hq.linked.done c hres).2 hnil, mem_linkParents]
      exact ⟨b, List.mem_filter.mpr ⟨hb, by simpa using hbc⟩, .inl rfl⟩
    have hback : b ∈ (s.below c G.root).reverse :=
      List.mem_reverse.mpr ((h.mem_below_iff hc).mpr (.single hb'))
    refine iff_of_false (fun hexact => ?_) ?_
    · have hnodup := hexact.closure.nodup
      rw [hbelow] at hnodup
      exact (List.nodup_append.mp hnodup).2.2 b hfront b hback rfl
    · rintro ⟨-, hbases | hno⟩
      · exact hnil hbases
      · exact hno hres
  · have hlinked := hq.fresh c (by simpa [Heap.BaseResolved] using hres) hnil
    rw [hlinked, List.filter_nil, List.nil_append] at hbelow
    rw [← h.exactAncestors_iff hc, and_iff_left (Or.inr hres)]
    have hclosure : ListsClosure G.IsBase c (s'.below c G.root) ↔
        ListsClosure G.IsBase c (s.below c G.root) := by
      rw [hbelow]
      refine ⟨fun hl => ⟨fun x => ?_, List.nodup_reverse.mp hl.nodup⟩,
        fun hl => ⟨fun x => ?_, List.nodup_reverse.mpr hl.nodup⟩⟩
      · rw [← hl.mem x, List.mem_reverse]
      · rw [List.mem_reverse, hl.mem x]
    exact ⟨fun hexact => ⟨hclosure.mp hexact.closure, h.linked.count c⟩,
      fun hexact => ⟨hclosure.mpr hexact.closure, hq.linked.count c⟩⟩

end Calls

/-! ## (4) Classes and procs -/

/-- Resolved classes have no cycle of bases. -/
theorem not_baseCyclic_of_ok {task : TaskType} {depth : Nat} {order : List Addr} {s : Heap}
    (hall : ∀ c ∈ G.names, c ∈ order)
    (hrun : (resolveClasses G task depth order).run .initial = .ok () s) : ¬BaseCyclic G := by
  rintro ⟨c, hc⟩
  have hdone := (settled_initial G).resolveClasses hrun
  obtain ⟨b, -, hb⟩ := TransGen.tail'_iff.mp hc
  exact hdone.settled.acyclic_base (hdone.resolved c (hall c (Schema.mem_names_of_isBase hb))) hc

/-- **When ancestor lists are exact.** After all classes are resolved, in any order, the list of a class is
exact if and only if no base of it is declared after itself or after one of its heirs. In the repository
that is read from a snapshot it must also have no bases, or no call may have touched it. Of procs the first
condition is true as well. -/
theorem ancestors_exact_iff (G : Schema) (P : Procs.ProcSchema) (task : TaskType) (depth pdepth : Nat)
    (order : List Addr) (porder : List Procs.ProcAddr) (s : Heap) (t : Procs.ProcHeap)
    (hall : ∀ c ∈ G.names, c ∈ order)
    (hrun : (resolveClasses G task depth order).run .initial = .ok () s)
    (hacyclic : ∀ p, ¬TransGen P.IsBase p p) (hpall : ∀ p ∈ P.names, p ∈ porder)
    (hprun : (Procs.resolveProcs P pdepth porder).run {} = .ok () t) :
    (∀ c ∈ G.names, ExactAncestors G s c ↔ G.BasesOrdered c) ∧
      (∀ cdepth calls, G.names.length < cdepth →
        (∀ call ∈ calls, call.1 ∈ G.names ∧ ∀ b, call.2 = some b → b ∈ G.names) →
        ∀ c ∈ G.names, ExactAncestors G (callRefs G cdepth calls s.reload) c ↔
          G.BasesOrdered c ∧ (G.bases c = [] ∨ ¬Touched G calls c)) ∧
      ∀ p ∈ P.names, Procs.ExactAncestors P t p ↔ P.BasesOrdered p := by
  have hdone := (settled_initial G).resolveClasses hrun
  obtain ⟨hprocs, hpdone⟩ := Procs.resolveProcs_spec hprun
  refine ⟨fun c hc => ?_, fun cdepth calls hdepth hcalls c hc => ?_, fun p hp => ?_⟩
  · exact hdone.settled.exactAncestors_iff (hdone.resolved c (hall c hc))
  · have hfresh : ∀ x, ¬s.reload.BaseResolved x := by
      intro x hx
      rw [Heap.BaseResolved] at hx
      exact Bool.false_ne_true ((kndClassRead_marks (s.exportAncestors x)).2.1.symm.trans hx)
    obtain ⟨hq, htouched⟩ := hdone.settled.toQuiet.reload.callRefs hfresh (not_baseCyclic_of_ok hall hrun)
      hdepth hcalls
    rw [hdone.settled.exactAncestors_reload_iff (hdone.resolved c (hall c hc)) hq, htouched c]
  · exact hprocs.exactAncestors_iff hacyclic (hpdone p (hpall p hp))

/-- The bases of `Event` and of `Concert`. -/
def concertBases (c : Addr) : List ClassVar :=
  if c = 2 then [⟨1, []⟩] else if c = 3 then [⟨2, []⟩, ⟨1, []⟩] else []

theorem concertBases_mem (c : Addr) : ∀ cvar ∈ concertBases c, cvar.entry ∈ [1, 2, 3] := by
  intro cvar hcvar
  rw [concertBases] at hcvar
  split_ifs at hcvar
  · simp_all
  · rcases List.mem_cons.mp hcvar with rfl | hcvar <;> simp_all
  · cases hcvar

theorem root_notMem_concerts : 0 ∉ [1, 2, 3] := by decide

/-- `Thing`; `Event` is a `Thing`; `Concert` is an `Event` and, once more, a `Thing`. -/
def concerts : Schema where
  root := 0
  names := [1, 2, 3]
  baseclassVars := concertBases
  root_notMem := root_notMem_concerts
  baseclassVars_root := rfl
  entry_mem := concertBases_mem

/-- A proc and one that is based on it. -/
def workflow : Procs.ProcSchema where
  names := [1, 2]
  bases p := if p = 2 then [1] else []

theorem ancestors_exact_iff_concerts :
    (∀ c ∈ concerts.names, ExactAncestors concerts
        (finalState (resolveClasses concerts .bulkLoad 4 [3, 1, 2]) .initial) c ↔ concerts.BasesOrdered c) ∧
      (∀ cdepth calls, concerts.names.length < cdepth →
        (∀ call ∈ calls, call.1 ∈ concerts.names ∧ ∀ b, call.2 = some b → b ∈ concerts.names) →
        ∀ c ∈ concerts.names, ExactAncestors concerts (callRefs concerts cdepth calls
          (finalState (resolveClasses concerts .bulkLoad 4 [3, 1, 2]) .initial).reload) c ↔
          concerts.BasesOrdered c ∧ (concerts.bases c = [] ∨ ¬Touched concerts calls c)) ∧
      ∀ p ∈ workflow.names, Procs.ExactAncestors workflow (finalState (Procs.resolveProcs workflow 3 [2, 1]) {}) p ↔
        workflow.BasesOrdered p := by
  obtain ⟨_, hrun⟩ := returns_iff.mp (by decide +kernel :
    returns (resolveClasses concerts .bulkLoad 4 [3, 1, 2]) .initial = true)
  obtain ⟨_, hprun⟩ := returns_iff.mp (by decide +kernel :
    returns (Procs.resolveProcs workflow 3 [2, 1]) {} = true)
  refine ancestors_exact_iff concerts workflow .bulkLoad 4 3 [3, 1, 2] [2, 1] _ _ (by decide) hrun ?_
    (by decide) hprun
  intro p hp
  refine @acyclic_of_falling _ workflow.IsBase (fun _ => True) id ?_ p trivial hp
  intro a b _ hab
  refine ⟨trivial, ?_⟩
  simp only [Procs.ProcSchema.IsBase, workflow] at hab
  split_ifs at hab <;> simp_all

/-- A base that is declared after its heir is listed twice. -/
theorem not_exactAncestors_concerts :
    returns (resolveClasses concerts .bulkLoad 4 concerts.names) .initial = true ∧
      ¬ExactAncestors concerts (finalState (resolveClasses concerts .bulkLoad 4 concerts.names) .initial) 3 := by
  refine ⟨by decide +kernel, fun h => ?_⟩
  have hnodup := h.closure.nodup
  have hlist : (finalState (resolveClasses concerts .bulkLoad 4 concerts.names) .initial).below 3
      concerts.root = [1, 2, 1] := by decide +kernel
  rw [hlist] at hnodup
  exact absurd hnodup (by decide)

end Knowdy.Hierarchy
