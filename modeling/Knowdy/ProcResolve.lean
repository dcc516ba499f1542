import Knowdy.Lib.Ancestry
import Knowdy.Lib.Effect
import Mathlib.Logic.Function.Basic

/-! # Resolution of procs

`knd_proc.resolve.c`: a proc resolves its bases wholly before it links them, so one kind of mark is enough,
and the list of its ancestors is in its entry. Arguments are left out: their resolution looks names up and
resolves no proc.

* `ProcSchema`, `ProcHeap` — the declarations, the memory.
* `kndProcResolve`, `resolveProcs` — the code.
* `ProcSettled` — what holds between two resolutions; `kndProcResolve_spec` — a returning one. -/

namespace Knowdy.Procs

open Relation

/-- The address of a proc together with its entry. -/
abbrev ProcAddr := Nat

/-! ## (1) The code -/

/-- **The declarations of procs.** -/
structure ProcSchema where
  /-- `proc_name_idx`. -/
  names : List ProcAddr
  /-- `bases` of a proc, bound by their names. -/
  bases : ProcAddr → List ProcAddr

/-- The base relation. -/
def ProcSchema.IsBase (G : ProcSchema) (p b : ProcAddr) : Prop := b ∈ G.bases p

/-- `struct kndProc` with its entry, as far as the linking of bases uses them. -/
structure ProcCell where
  /-- `entry->ancestors`, each with its proc set. -/
  ancestors : List ProcAddr := []
  /-- `entry->num_ancestors`. -/
  numAncestors : Nat := 0
  /-- `base_resolving_in_progress`. -/
  baseResolvingInProgress : Bool := false
  /-- `base_is_resolved`. -/
  baseIsResolved : Bool := false
  /-- `resolving_in_progress`. -/
  resolvingInProgress : Bool := false
  /-- `is_resolved`. -/
  isResolved : Bool := false

/-- The memory of the procs. -/
structure ProcHeap where
  /-- The proc at an address. -/
  cells : ProcAddr → ProcCell := fun _ => {}

/-- A write to one proc. -/
def ProcHeap.modifyCell (s : ProcHeap) (p : ProcAddr) (f : ProcCell → ProcCell) : ProcHeap :=
  { s with cells := Function.update s.cells p (f (s.cells p)) }

@[simp] theorem ProcHeap.modifyCell_self (s : ProcHeap) (p : ProcAddr) (f : ProcCell → ProcCell) :
    (s.modifyCell p f).cells p = f (s.cells p) := Function.update_self ..

theorem ProcHeap.modifyCell_of_ne (s : ProcHeap) {p q : ProcAddr} (f : ProcCell → ProcCell) (h : q ≠ p) :
    (s.modifyCell p f).cells q = s.cells q := Function.update_of_ne h ..

/-- What a write keeps of a proc is kept everywhere. -/
theorem ProcHeap.read_modifyCell {s : ProcHeap} {p : ProcAddr} {f : ProcCell → ProcCell} {β : Type}
    {read : ProcCell → β} (h : read (f (s.cells p)) = read (s.cells p)) (q : ProcAddr) :
    read ((s.modifyCell p f).cells q) = read (s.cells q) := by
  by_cases hq : q = p
  · rw [hq, modifyCell_self, h]
  · rw [modifyCell_of_ne _ _ hq]

/-- What the resolution of a proc can end with other than success. -/
inductive ProcErr
  /-- A proc is reached while it is in progress. -/
  | viciousCircle
  /-- A failed assertion. -/
  | fault
  /-- The calls nest deeper than the model follows them. -/
  | outOfDepth
  deriving DecidableEq, Repr

/-- A program over the memory of the procs. -/
abbrev PM := EStateM ProcErr ProcHeap

/-- A reference in front of the ancestors, counted. -/
def ProcCell.pushAncestor (self : ProcCell) (base : ProcAddr) : ProcCell :=
  { self with
    ancestors := base :: self.ancestors
    numAncestors := self.numAncestors + 1 }

/-- `link_ancestor`. -/
def linkAncestor (self : ProcCell) (base : ProcAddr) : ProcCell :=
  if self.ancestors.any fun p => p = base then self else self.pushAncestor base

/-- `link_base`. -/
def linkBase (self : ProcCell) (base : ProcAddr) (ancestors : List ProcAddr) : ProcCell :=
  (ancestors.foldl linkAncestor self).pushAncestor base

/-- `link_base` in memory. -/
def ProcHeap.linkBase (s : ProcHeap) (self base : ProcAddr) : ProcHeap :=
  s.modifyCell self fun cell => Procs.linkBase cell base (s.cells base).ancestors

section Code

variable (G : ProcSchema)

/-- A proc that is not resolved yet is. -/
def resolveOnce (resolve : ProcAddr → PM Unit) (self : ProcAddr) : PM Unit := do
  let s ← get
  if (s.cells self).isResolved then pure () else resolve self

/-- `resolve_bases`. -/
def resolveBases (resolve : ProcAddr → PM Unit) (self : ProcAddr) : PM Unit := do
  let s ← get
  if (s.cells self).baseIsResolved then throw .fault
  else if (s.cells self).baseResolvingInProgress then throw .viciousCircle
  else
    modify fun s => s.modifyCell self fun cell => { cell with baseResolvingInProgress := true }
    (G.bases self).forM fun base => do
      resolveOnce resolve base
      modify fun s => s.linkBase self base
    modify fun s => s.modifyCell self fun cell => { cell with baseIsResolved := true }

/-- `knd_proc_resolve`. -/
def kndProcResolve : Nat → ProcAddr → PM Unit
  | 0, _ => throw .outOfDepth
  | n + 1, self => do
      let s ← get
      if (s.cells self).resolvingInProgress then throw .viciousCircle
      else
        modify fun s => s.modifyCell self fun cell => { cell with resolvingInProgress := true }
        (if (s.cells self).baseIsResolved then pure () else resolveBases G (kndProcResolve n) self)
        -- `inherit_args`
        (G.bases self).forM (resolveOnce (kndProcResolve n))
        modify fun s => s.modifyCell self fun cell => { cell with isResolved := true }

/-- `resolve_procs`, over the procs in the order of the name index. -/
def resolveProcs (depth : Nat) (order : List ProcAddr) : PM Unit :=
  order.forM (resolveOnce (kndProcResolve G depth))

end Code

/-! ## (2) Linking -/

theorem linkAncestor_ancestors (self : ProcCell) (base : ProcAddr) :
    (linkAncestor self base).ancestors = self.ancestors.insert base := by
  by_cases hmem : base ∈ self.ancestors
  · rw [linkAncestor, if_pos (by simpa using hmem), List.insert_of_mem hmem]
  · rw [linkAncestor, if_neg (by simpa using hmem), List.insert_of_not_mem hmem]
    rfl

/-- **Linking a base** links its ancestors where they are missing, then the base. -/
theorem linkBase_ancestors (self : ProcCell) (base : ProcAddr) (ancestors : List ProcAddr) :
    (linkBase self base ancestors).ancestors = linkParent (fun _ => ancestors) self.ancestors base := by
  have hloop : ∀ (l : List ProcAddr) (self : ProcCell),
      (l.foldl linkAncestor self).ancestors = l.foldl (fun l a => l.insert a) self.ancestors := by
    intro l
    induction l with
    | nil => exact fun _ => rfl
    | cons a l ih =>
        intro self
        rw [List.foldl_cons, List.foldl_cons, ih, linkAncestor_ancestors]
  rw [linkBase, linkParent, ← hloop]
  rfl

theorem linkAncestor_count {self : ProcCell} (h : self.numAncestors = self.ancestors.length)
    (base : ProcAddr) :
    (linkAncestor self base).numAncestors = (linkAncestor self base).ancestors.length := by
  rw [linkAncestor]
  split
  · exact h
  · simp [ProcCell.pushAncestor, h]

/-- Every reference that is linked is counted. -/
theorem linkBase_count {self : ProcCell} (h : self.numAncestors = self.ancestors.length) (base : ProcAddr)
    (ancestors : List ProcAddr) :
    (linkBase self base ancestors).numAncestors = (linkBase self base ancestors).ancestors.length := by
  have hloop : ∀ (l : List ProcAddr) (self : ProcCell), self.numAncestors = self.ancestors.length →
      (l.foldl linkAncestor self).numAncestors = (l.foldl linkAncestor self).ancestors.length := by
    intro l
    induction l with
    | nil => exact fun _ h => h
    | cons a l ih => exact fun self h => ih _ (linkAncestor_count h a)
  simp [linkBase, ProcCell.pushAncestor, hloop _ self h]

/-- The marks of a proc. -/
def ProcCell.marks (cell : ProcCell) : ProcCell :=
  { cell with
    ancestors := []
    numAncestors := 0 }

theorem linkBase_marks (self : ProcCell) (base : ProcAddr) (ancestors : List ProcAddr) :
    (linkBase self base ancestors).marks = self.marks := by
  have hone : ∀ (self : ProcCell) (a : ProcAddr), (linkAncestor self a).marks = self.marks := by
    intro self a
    rw [linkAncestor]
    split <;> rfl
  have hloop : ∀ (l : List ProcAddr) (self : ProcCell), (l.foldl linkAncestor self).marks = self.marks := by
    intro l
    induction l with
    | nil => exact fun _ => rfl
    | cons a l ih => exact fun self => (ih _).trans (hone self a)
  exact hloop _ self

/-! ## (3) A returning resolution -/

namespace ProcHeap

variable (s : ProcHeap) (p : ProcAddr)

/-- The ancestors of a proc. -/
def ancestors : List ProcAddr := (s.cells p).ancestors

/-- `is_resolved`. -/
def Resolved : Prop := (s.cells p).isResolved = true

variable {s p}

theorem ancestors_modifyCell {f : ProcCell → ProcCell} (h : (f (s.cells p)).ancestors = (s.cells p).ancestors) :
    (s.modifyCell p f).ancestors = s.ancestors := funext fun q => read_modifyCell h q

theorem resolved_modifyCell {f : ProcCell → ProcCell} (h : (f (s.cells p)).isResolved = (s.cells p).isResolved)
    (q : ProcAddr) : (s.modifyCell p f).Resolved q ↔ s.Resolved q := by
  rw [Resolved, read_modifyCell h q]
  exact Iff.rfl

/-- A resolved proc stays resolved when another one is. -/
theorem Resolved.setResolved {q : ProcAddr} (h : s.Resolved q) :
    (s.modifyCell p fun cell => { cell with isResolved := true }).Resolved q := by
  rw [Resolved]
  by_cases hq : q = p
  · rw [hq, modifyCell_self]
  · rw [modifyCell_of_ne _ _ hq]
    exact h

end ProcHeap

/-- **What holds between two resolutions.** -/
structure ProcSettled (G : ProcSchema) (s : ProcHeap) : Prop where
  /-- `num_ancestors` counts. -/
  count : ∀ p, (s.cells p).numAncestors = (s.cells p).ancestors.length
  /-- Ancestors are met over the base relation. -/
  sound : ∀ p, ∀ x ∈ s.ancestors p, TransGen G.IsBase p x
  /-- A resolved proc has linked its bases, which are resolved. -/
  linked : ∀ p, s.Resolved p →
    (∀ b ∈ G.bases p, s.Resolved b) ∧ s.ancestors p = linkParents s.ancestors (G.bases p)
  /-- A proc that was not started is untouched. -/
  fresh : ∀ p, (s.cells p).resolvingInProgress = false → s.cells p = {}

/-- **What a returning resolution leaves alone**: every proc that it did not resolve. -/
def ProcAdvanced (s s' : ProcHeap) : Prop :=
  ∀ p, s'.cells p = s.cells p ∨ (s.cells p).resolvingInProgress = false ∧ s'.Resolved p ∧
    (s'.cells p).resolvingInProgress = true

namespace ProcAdvanced

variable {s s' s'' : ProcHeap}

theorem refl (s : ProcHeap) : ProcAdvanced s s := fun _ => .inl rfl

theorem trans (h : ProcAdvanced s s') (h' : ProcAdvanced s' s'') : ProcAdvanced s s'' := by
  intro p
  rcases h p with heq | ⟨hprog, hdone, hprog'⟩
  · rw [← heq]
    exact h' p
  · rcases h' p with heq' | ⟨hprog'', -, -⟩
    · rw [ProcHeap.Resolved, heq']
      exact .inr ⟨hprog, hdone, hprog'⟩
    · rw [hprog'] at hprog''
      cases hprog''

/-- A proc that was started is left alone. -/
theorem of_started (h : ProcAdvanced s s') {p : ProcAddr} (hp : (s.cells p).resolvingInProgress = true) :
    s'.cells p = s.cells p := by
  rcases h p with heq | ⟨hprog, -, -⟩
  · exact heq
  · rw [hp] at hprog
    cases hprog

theorem resolved (h : ProcAdvanced s s') {p : ProcAddr} (hp : s.Resolved p) : s'.Resolved p := by
  rcases h p with heq | ⟨-, hdone, -⟩
  · rw [ProcHeap.Resolved, heq]
    exact hp
  · exact hdone

end ProcAdvanced

/-- **The specification of `knd_proc_resolve`.** -/
def ResolvesProc (G : ProcSchema) (resolve : ProcAddr → PM Unit) : Prop :=
  ∀ s s' p, ProcSettled G s → (resolve p).run s = .ok () s' →
    ProcSettled G s' ∧ ProcAdvanced s s' ∧ s'.Resolved p

section Spec

variable {G : ProcSchema} {resolve : ProcAddr → PM Unit} {s s' : ProcHeap} {p : ProcAddr}

theorem resolved_of_settled (h : ProcSettled G s) (hp : s.Resolved p) :
    (s.cells p).resolvingInProgress = true := by
  cases hprog : (s.cells p).resolvingInProgress with
  | true => rfl
  | false =>
      rw [ProcHeap.Resolved, h.fresh p hprog] at hp
      cases hp

theorem resolveOnce_spec (hresolve : ResolvesProc G resolve) (h : ProcSettled G s)
    (hrun : (resolveOnce resolve p).run s = .ok () s') :
    ProcSettled G s' ∧ ProcAdvanced s s' ∧ s'.Resolved p := by
  rw [resolveOnce] at hrun
  obtain ⟨_, _, hget, hrun⟩ := run_bind_eq_ok.mp hrun
  cases hget
  by_cases hres : (s.cells p).isResolved = true
  · rw [if_pos hres] at hrun
    cases hrun
    exact ⟨h, .refl s, hres⟩
  · rw [if_neg hres] at hrun
    exact hresolve s s' p h hrun

/-- A write to the marks of a proc that was started and is not resolved. -/
theorem ProcSettled.mark (h : ProcSettled G s) {f : ProcCell → ProcCell}
    (hanc : (f (s.cells p)).ancestors = (s.cells p).ancestors)
    (hnum : (f (s.cells p)).numAncestors = (s.cells p).numAncestors)
    (hres : (f (s.cells p)).isResolved = (s.cells p).isResolved)
    (hprog : (f (s.cells p)).resolvingInProgress = true) : ProcSettled G (s.modifyCell p f) := by
  have hanc' : (s.modifyCell p f).ancestors = s.ancestors := ProcHeap.ancestors_modifyCell hanc
  have hres' : ∀ q, (s.modifyCell p f).Resolved q ↔ s.Resolved q := ProcHeap.resolved_modifyCell hres
  refine ⟨fun q => ?_, fun q => ?_, fun q hq => ?_, fun q hq => ?_⟩
  · by_cases hqp : q = p
    · rw [hqp, ProcHeap.modifyCell_self, hanc, hnum]
      exact h.count p
    · rw [ProcHeap.modifyCell_of_ne _ _ hqp]
      exact h.count q
  · rw [hanc']
    exact h.sound q
  · rw [hanc']
    simp only [hres']
    exact h.linked q ((hres' q).mp hq)
  · by_cases hqp : q = p
    · rw [hqp, ProcHeap.modifyCell_self, hprog] at hq
      cases hq
    · rw [ProcHeap.modifyCell_of_ne _ _ hqp] at hq ⊢
      exact h.fresh q hq

/-- **A proc that has linked its bases is resolved.** -/
theorem ProcSettled.setResolved (h : ProcSettled G s) (hprog : (s.cells p).resolvingInProgress = true)
    (hbases : ∀ b ∈ G.bases p, s.Resolved b) (hlist : s.ancestors p = linkParents s.ancestors (G.bases p)) :
    ProcSettled G (s.modifyCell p fun cell => { cell with isResolved := true }) := by
  have hanc : (s.modifyCell p fun cell => { cell with isResolved := true }).ancestors = s.ancestors :=
    ProcHeap.ancestors_modifyCell rfl
  refine ⟨fun q => ?_, fun q => ?_, fun q hq => ?_, fun q hq => ?_⟩
  · have hcount := h.count q
    by_cases hqp : q = p
    · rw [hqp] at hcount
      rw [hqp, ProcHeap.modifyCell_self]
      exact hcount
    · rw [ProcHeap.modifyCell_of_ne _ _ hqp]
      exact hcount
  · rw [hanc]
    exact h.sound q
  · rw [hanc]
    by_cases hqp : q = p
    · subst hqp
      exact ⟨fun b hb => (hbases b hb).setResolved, hlist⟩
    · rw [ProcHeap.Resolved, ProcHeap.modifyCell_of_ne _ _ hqp] at hq
      obtain ⟨hbases', heq⟩ := h.linked q hq
      exact ⟨fun b hb => (hbases' b hb).setResolved, heq⟩
  · by_cases hqp : q = p
    · rw [hqp, ProcHeap.modifyCell_self, hprog] at hq
      cases hq
    · rw [ProcHeap.modifyCell_of_ne _ _ hqp] at hq ⊢
      exact h.fresh q hq

/-- A base is linked to a proc that was started and is not resolved. -/
theorem ProcSettled.linkBase (h : ProcSettled G s) {b : ProcAddr} (hb : G.IsBase p b)
    (hprog : (s.cells p).resolvingInProgress = true) (hres : ¬s.Resolved p) :
    ProcSettled G (s.linkBase p b) := by
  have hself : (s.linkBase p b).cells p = Procs.linkBase (s.cells p) b (s.cells b).ancestors :=
    ProcHeap.modifyCell_self ..
  have hother : ∀ {q}, q ≠ p → (s.linkBase p b).cells q = s.cells q := fun hq => ProcHeap.modifyCell_of_ne _ _ hq
  have hmarks := linkBase_marks (s.cells p) b (s.cells b).ancestors
  have hres' : ∀ q, (s.linkBase p b).Resolved q ↔ s.Resolved q := by
    intro q
    rw [ProcHeap.Resolved, ProcHeap.Resolved]
    by_cases hq : q = p
    · have hm := congrArg ProcCell.isResolved hmarks
      rw [hq, hself]
      exact iff_of_eq (congrArg (· = true) hm)
    · rw [hother hq]
  refine ⟨fun q => ?_, fun q x hx => ?_, fun q hq => ?_, fun q hq => ?_⟩
  · by_cases hqp : q = p
    · rw [hqp, hself]
      exact linkBase_count (h.count p) b _
    · rw [hother hqp]
      exact h.count q
  · by_cases hqp : q = p
    · subst hqp
      rw [ProcHeap.ancestors, hself, linkBase_ancestors] at hx
      rcases mem_linkParent.mp hx with rfl | hanc | hold
      · exact .single hb
      · exact .head hb (h.sound b x hanc)
      · exact h.sound q x hold
    · rw [ProcHeap.ancestors, hother hqp] at hx
      exact h.sound q x hx
  · have hqr := (hres' q).mp hq
    have hqp : q ≠ p := by
      rintro rfl
      exact hres hqr
    obtain ⟨hbases, heq⟩ := h.linked q hqr
    refine ⟨fun b' hb' => (hres' b').mpr (hbases b' hb'), ?_⟩
    have hsame : (s.linkBase p b).ancestors q = s.ancestors q := by
      rw [ProcHeap.ancestors, hother hqp, ProcHeap.ancestors]
    rw [hsame, heq]
    refine linkParents_congr fun b' hb' => ?_
    have hbp : b' ≠ p := by
      rintro rfl
      exact hres (hbases b' hb')
    rw [ProcHeap.ancestors, ProcHeap.ancestors, hother hbp]
  · by_cases hqp : q = p
    · have hm := congrArg ProcCell.resolvingInProgress hmarks
      rw [hqp, hself] at hq
      have hq' : (s.cells p).resolvingInProgress = false := hm.symm.trans hq
      rw [hprog] at hq'
      cases hq'
    · rw [hother hqp] at hq ⊢
      exact h.fresh q hq

/-- The state of the loop of `resolve_bases` after the bases `pre`. -/
structure BasesDone (G : ProcSchema) (s : ProcHeap) (p : ProcAddr) (pre : List ProcAddr) (s' : ProcHeap) :
    Prop where
  /-- It is settled. -/
  settled : ProcSettled G s'
  /-- The other procs that are not resolved are as before. -/
  advanced : ∀ q, q ≠ p → s'.cells q = s.cells q ∨ (s.cells q).resolvingInProgress = false ∧
    s'.Resolved q ∧ (s'.cells q).resolvingInProgress = true
  /-- Only the list of the proc itself has changed. -/
  marks : (s'.cells p).marks = (s.cells p).marks
  /-- The bases are resolved. -/
  bases : ∀ b ∈ pre, s'.Resolved b
  /-- They are linked. -/
  list : s'.ancestors p = pre.foldl (linkParent s'.ancestors) (s.ancestors p)

/-- **The loop of `resolve_bases`** links every base. -/
theorem forM_linkBase (hresolve : ResolvesProc G resolve) (h : ProcSettled G s)
    (hprog : (s.cells p).resolvingInProgress = true) (hres : ¬s.Resolved p)
    (hrun : ((G.bases p).forM fun base => do
      resolveOnce resolve base
      modify fun s : ProcHeap => s.linkBase p base).run s = .ok () s') : BasesDone G s p (G.bases p) s' := by
  refine forM_ok_induction (fun pre s' => BasesDone G s p pre s') hrun
    ⟨h, fun _ _ => .inl rfl, rfl, fun _ hb => absurd hb List.not_mem_nil, rfl⟩ ?_
  intro pre b s₁ s₃ hb hpre hround
  obtain ⟨_, s₂, hbase, hlink⟩ := run_bind_eq_ok.mp hround
  cases hlink
  have hprog₁ : (s₁.cells p).resolvingInProgress = true := by
    have hm := congrArg ProcCell.resolvingInProgress hpre.marks
    exact hm.trans hprog
  obtain ⟨h₂, hadv, hdone⟩ := resolveOnce_spec hresolve hpre.settled hbase
  have hkept : s₂.cells p = s₁.cells p := hadv.of_started hprog₁
  have hprog₂ : (s₂.cells p).resolvingInProgress = true := by rw [hkept, hprog₁]
  have hres₂ : ¬s₂.Resolved p := by
    have hm := congrArg ProcCell.isResolved hpre.marks
    rw [ProcHeap.Resolved, hkept]
    exact fun hp => hres (hm.symm.trans hp)
  have hself : (s₂.linkBase p b).cells p = Procs.linkBase (s₂.cells p) b (s₂.cells b).ancestors :=
    ProcHeap.modifyCell_self ..
  have hother : ∀ {q}, q ≠ p → (s₂.linkBase p b).cells q = s₂.cells q :=
    fun hq => ProcHeap.modifyCell_of_ne _ _ hq
  have hne : ∀ {q}, s₂.Resolved q → q ≠ p := by
    rintro q hq rfl
    exact hres₂ hq
  have hresolved : ∀ q, s₂.Resolved q → (s₂.linkBase p b).Resolved q := by
    intro q hq
    rw [ProcHeap.Resolved, hother (hne hq)]
    exact hq
  have hanc : ∀ {q}, q ≠ p → (s₂.linkBase p b).ancestors q = s₂.ancestors q := by
    intro q hq
    rw [ProcHeap.ancestors, hother hq, ProcHeap.ancestors]
  refine ⟨h₂.linkBase hb hprog₂ hres₂, fun q hq => ?_, ?_, fun b' hb' => ?_, ?_⟩
  · rw [ProcHeap.Resolved, hother hq]
    rcases hpre.advanced q hq with heq | ⟨hprog', hdone', hprog''⟩
    · rw [← heq]
      exact hadv q
    · have hq' := hadv.of_started hprog''
      rw [hq']
      exact .inr ⟨hprog', hdone', hprog''⟩
  · rw [hself, linkBase_marks, hkept, hpre.marks]
  · rcases List.mem_append.mp hb' with hmem | hlast
    · exact hresolved b' (hadv.resolved (hpre.bases b' hmem))
    · rw [List.mem_singleton.mp hlast]
      exact hresolved b hdone
  · have hold : s₂.ancestors p = s₁.ancestors p := by rw [ProcHeap.ancestors, hkept, ProcHeap.ancestors]
    have hnew : (s₂.linkBase p b).ancestors p = linkParent s₂.ancestors (s₂.ancestors p) b := by
      rw [ProcHeap.ancestors, hself, linkBase_ancestors]
      rfl
    rw [hnew, hold, hpre.list, List.foldl_append, List.foldl_cons, List.foldl_nil, linkParent, linkParent,
      hanc (hne hdone)]
    -- the bases linked before are resolved, so that their lists have not changed since
    congr 2
    refine foldl_linkParent_congr fun b' hb' => ?_
    have hb₁ := hpre.bases b' hb'
    have hb₂ := hadv.resolved hb₁
    rw [hanc (hne hb₂), ProcHeap.ancestors, ProcHeap.ancestors,
      hadv.of_started (resolved_of_settled hpre.settled hb₁)]

/-- The bases of a proc are linked in its untouched entry. -/
theorem resolveBases_spec (hresolve : ResolvesProc G resolve) (h : ProcSettled G s)
    (hprog : (s.cells p).resolvingInProgress = true) (hres : ¬s.Resolved p) (hnil : s.ancestors p = [])
    (hrun : (resolveBases G resolve p).run s = .ok () s') :
    ProcSettled G s' ∧ (∀ q, q ≠ p → s'.cells q = s.cells q ∨ (s.cells q).resolvingInProgress = false ∧
        s'.Resolved q ∧ (s'.cells q).resolvingInProgress = true) ∧
      (s'.cells p).resolvingInProgress = true ∧ ¬s'.Resolved p ∧ (∀ b ∈ G.bases p, s'.Resolved b) ∧
      s'.ancestors p = linkParents s'.ancestors (G.bases p) := by
  rw [resolveBases] at hrun
  obtain ⟨_, _, hget, hrun⟩ := run_bind_eq_ok.mp hrun
  cases hget
  split at hrun
  · cases hrun
  split at hrun
  · cases hrun
  obtain ⟨_, s₀, hmark, hrun⟩ := run_bind_eq_ok.mp hrun
  cases hmark
  obtain ⟨_, s₁, hloop, hset⟩ := run_bind_eq_ok.mp hrun
  cases hset
  have h₀ : ProcSettled G (s.modifyCell p fun cell => { cell with baseResolvingInProgress := true }) :=
    h.mark rfl rfl rfl hprog
  have hprog₀ : ((s.modifyCell p fun cell => { cell with baseResolvingInProgress := true }).cells
      p).resolvingInProgress = true := by
    rw [ProcHeap.modifyCell_self]
    exact hprog
  have hres₀ : ¬(s.modifyCell p fun cell => { cell with baseResolvingInProgress := true }).Resolved p := by
    rw [ProcHeap.Resolved, ProcHeap.modifyCell_self]
    exact hres
  have hdone := forM_linkBase hresolve h₀ hprog₀ hres₀ hloop
  have hprog₁ : (s₁.cells p).resolvingInProgress = true := by
    have hm := congrArg ProcCell.resolvingInProgress hdone.marks
    exact hm.trans hprog₀
  have hres₁ : ¬s₁.Resolved p := by
    have hm := congrArg ProcCell.isResolved hdone.marks
    exact fun hp => hres₀ (hm.symm.trans hp)
  have hother : ∀ {q}, q ≠ p →
      (s₁.modifyCell p fun cell => { cell with baseIsResolved := true }).cells q = s₁.cells q :=
    fun hq => ProcHeap.modifyCell_of_ne _ _ hq
  have hanc : (s₁.modifyCell p fun cell => { cell with baseIsResolved := true }).ancestors = s₁.ancestors :=
    ProcHeap.ancestors_modifyCell rfl
  have hne : ∀ {q}, s₁.Resolved q → q ≠ p := by
    rintro q hq rfl
    exact hres₁ hq
  refine ⟨hdone.settled.mark rfl rfl rfl hprog₁, fun q hq => ?_, ?_, ?_, fun b hb => ?_, ?_⟩
  · have hadv := hdone.advanced q hq
    rw [ProcHeap.modifyCell_of_ne _ _ hq] at hadv
    rwa [ProcHeap.Resolved, hother hq]
  · show ((s₁.modifyCell p _).cells p).resolvingInProgress = true
    rw [ProcHeap.modifyCell_self]
    exact hprog₁
  · show ¬(s₁.modifyCell p _).Resolved p
    rw [ProcHeap.Resolved, ProcHeap.modifyCell_self]
    exact hres₁
  · show (s₁.modifyCell p _).Resolved b
    rw [ProcHeap.Resolved, hother (hne (hdone.bases b hb))]
    exact hdone.bases b hb
  · show (s₁.modifyCell p _).ancestors p = linkParents (s₁.modifyCell p _).ancestors _
    rw [hanc, hdone.list, ProcHeap.ancestors, ProcHeap.modifyCell_self]
    have hnil' : (s.cells p).ancestors = [] := hnil
    rw [linkParents, hnil']

/-- **`knd_proc_resolve` meets its specification** however deep it is followed. -/
theorem kndProcResolve_spec (n : Nat) : ResolvesProc G (kndProcResolve G n) := by
  induction n with
  | zero =>
      intro s s' p _ hrun
      cases hrun
  | succ n ih =>
      intro s s' p h hrun
      rw [kndProcResolve] at hrun
      obtain ⟨_, _, hget, hrun⟩ := run_bind_eq_ok.mp hrun
      cases hget
      split at hrun
      · cases hrun
      rename_i hprog
      have hprog : (s.cells p).resolvingInProgress = false := by simpa using hprog
      have hfresh := h.fresh p hprog
      obtain ⟨_, s₀, hmark, hrun⟩ := run_bind_eq_ok.mp hrun
      cases hmark
      obtain ⟨_, s₁, hbases, hrun⟩ := run_bind_eq_ok.mp hrun
      obtain ⟨_, s₂, hargs, hset⟩ := run_bind_eq_ok.mp hrun
      cases hset
      rw [if_neg (by simp [hfresh])] at hbases
      have hself₀ : (s.modifyCell p fun cell => { cell with resolvingInProgress := true }).cells p =
          { resolvingInProgress := true } := by rw [ProcHeap.modifyCell_self, hfresh]
      obtain ⟨h₁, hadv₁, hprog₁, hres₁, hdone₁, hlist₁⟩ := resolveBases_spec ih (h.mark rfl rfl rfl rfl)
        (by rw [hself₀]) (by rw [ProcHeap.Resolved, hself₀]; exact Bool.false_ne_true)
        (by rw [ProcHeap.ancestors, hself₀]) hbases
      -- the bases are resolved: inheriting their arguments resolves none
      have hargs' : ProcSettled G s₂ ∧ ProcAdvanced s₁ s₂ :=
        forM_ok_induction (fun _ s₂ => ProcSettled G s₂ ∧ ProcAdvanced s₁ s₂) hargs ⟨h₁, .refl _⟩
          fun pre b t t' _ hpre hround => by
            obtain ⟨ht, hadv, -⟩ := resolveOnce_spec ih hpre.1 hround
            exact ⟨ht, hpre.2.trans hadv⟩
      obtain ⟨h₂, hadv₂⟩ := hargs'
      have hkept := hadv₂.of_started hprog₁
      have hprog₂ : (s₂.cells p).resolvingInProgress = true := by rw [hkept, hprog₁]
      have hlist₂ : s₂.ancestors p = linkParents s₂.ancestors (G.bases p) := by
        rw [ProcHeap.ancestors, hkept]
        refine Eq.trans hlist₁ (linkParents_congr fun b hb => ?_)
        rw [ProcHeap.ancestors, ProcHeap.ancestors,
          hadv₂.of_started (resolved_of_settled h₁ (hdone₁ b hb))]
      refine ⟨h₂.setResolved hprog₂ (fun b hb => hadv₂.resolved (hdone₁ b hb)) hlist₂, fun q => ?_, ?_⟩
      · show (s₂.modifyCell p _).cells q = s.cells q ∨ _ ∧ (s₂.modifyCell p _).Resolved q ∧
          ((s₂.modifyCell p _).cells q).resolvingInProgress = true
        rw [ProcHeap.Resolved]
        by_cases hqp : q = p
        · rw [hqp, ProcHeap.modifyCell_self]
          exact .inr ⟨hprog, rfl, hprog₂⟩
        · rw [ProcHeap.modifyCell_of_ne _ _ hqp]
          have hadv := hadv₁ q hqp
          rw [ProcHeap.modifyCell_of_ne _ _ hqp] at hadv
          rcases hadv with heq | ⟨hprog', hdone', hprog''⟩
          · rw [← heq]
            exact hadv₂ q
          · rw [hadv₂.of_started hprog'']
            exact .inr ⟨hprog', hdone', hprog''⟩
      · show (s₂.modifyCell p _).Resolved p
        rw [ProcHeap.Resolved, ProcHeap.modifyCell_self]

/-- A returning `resolve_procs` has resolved every proc of the name index. -/
theorem resolveProcs_spec {depth : Nat} {order : List ProcAddr}
    (hrun : (resolveProcs G depth order).run {} = .ok () s') :
    ProcSettled G s' ∧ ∀ p ∈ order, s'.Resolved p := by
  have hinit : ProcSettled G {} :=
    ⟨fun _ => rfl, fun _ _ hx => absurd hx List.not_mem_nil, fun _ hp => absurd hp Bool.false_ne_true,
      fun _ _ => rfl⟩
  refine forM_ok_induction (fun pre s' => ProcSettled G s' ∧ ∀ p ∈ pre, s'.Resolved p) hrun
    ⟨hinit, fun _ hp => absurd hp List.not_mem_nil⟩ ?_
  rintro pre p s₁ s₂ - ⟨h₁, hpre⟩ hround
  obtain ⟨h₂, hadv, hdone⟩ := resolveOnce_spec (kndProcResolve_spec depth) h₁ hround
  refine ⟨h₂, fun q hq => ?_⟩
  rcases List.mem_append.mp hq with hq | hq
  · exact hadv.resolved (hpre q hq)
  · rw [List.mem_singleton.mp hq]
    exact hdone

/-- **The ancestors of a resolved proc** are what its bases lead to. -/
theorem ProcSettled.mem_ancestors (h : ProcSettled G s) (hp : s.Resolved p) {x : ProcAddr} :
    x ∈ s.ancestors p ↔ TransGen G.IsBase p x := by
  refine ⟨h.sound p x, fun hpath => ?_⟩
  have hlist : ∀ {p}, s.Resolved p → ∀ b ∈ G.bases p,
      s.Resolved b ∧ b ∈ s.ancestors p ∧ ∀ x ∈ s.ancestors b, x ∈ s.ancestors p := by
    intro p hp b hb
    obtain ⟨hbases, heq⟩ := h.linked p hp
    refine ⟨hbases b hb, ?_, fun x hx => ?_⟩
    · rw [heq, mem_linkParents]
      exact ⟨b, hb, .inl rfl⟩
    · rw [heq, mem_linkParents]
      exact ⟨b, hb, .inr hx⟩
  induction hpath using TransGen.head_induction_on with
  | single hb => exact (hlist hp _ hb).2.1
  | head hb _ ih =>
      obtain ⟨hb', -, hsub⟩ := hlist hp _ hb
      exact hsub _ (ih hb')

end Spec

/-! ## (4) The ancestors of a proc -/

/-- **The ancestors of a proc are exact**: what its bases lead to, each once, and `num_ancestors` counts them. -/
structure ExactAncestors (G : ProcSchema) (s : ProcHeap) (p : ProcAddr) : Prop where
  /-- The ancestors. -/
  closure : ListsClosure G.IsBase p (s.ancestors p)
  /-- `num_ancestors`. -/
  count : (s.cells p).numAncestors = (s.cells p).ancestors.length

/-- No base is declared after itself or after one of its heirs. -/
def ProcSchema.BasesOrdered (G : ProcSchema) (p : ProcAddr) : Prop :=
  (G.bases p).Pairwise fun b b' => ¬ReflTransGen G.IsBase b b'

/-- **When the ancestors of a proc are exact.** -/
theorem ProcSettled.exactAncestors_iff {G : ProcSchema} {s : ProcHeap} (h : ProcSettled G s)
    (hacyclic : ∀ p, ¬TransGen G.IsBase p p) {p : ProcAddr} (hp : s.Resolved p) :
    ExactAncestors G s p ↔ G.BasesOrdered p := by
  obtain ⟨hbases, heq⟩ := h.linked p hp
  have hnodup : (s.ancestors p).Nodup ↔ G.BasesOrdered p := by
    rw [heq]
    exact nodup_linkParents_iff_pairwise (fun b hb x => h.mem_ancestors (hbases b hb)) fun b _ => hacyclic b
  constructor
  · intro hexact
    exact hnodup.mp hexact.closure.nodup
  · intro hordered
    exact ⟨⟨fun x => h.mem_ancestors hp, hnodup.mpr hordered⟩, h.count p⟩

end Knowdy.Procs
