import Knowdy.ClassBases

/-! # A returning resolution of a class

Resolving a class resolves its bases and the classes that the values of its attributes name, and gives it the
next number. So the numbers fall along everything that a class asks for.

* `Schema.Needs` — the classes that a class asks to be resolved.
* `Settled` — what holds of the memory between two resolutions; `Progressed` — what a returning resolution
  leaves alone.
* `kndClassResolve_spec`, `Settled.resolveClasses` — a class, all classes. -/

namespace Knowdy.Hierarchy

open Relation

/-! ## (1) What holds between two resolutions -/

/-- The class that a step resolves. -/
def Step.target : Step → Option Addr
  | .resolve c => some c
  | .rel c _ => some c
  | _ => none

namespace Schema

variable (G : Schema)

/-- The classes that the declaration of one base asks to be resolved. -/
def varNeeds (cvar : ClassVar) : List Addr :=
  cvar.entry :: (childSteps G cvar.attrs).filterMap Step.target

/-- **A class asks another one to be resolved**: as a base, as the template of a value, or as a value. -/
def Needs (c d : Addr) : Prop := ∃ cvar ∈ G.baseclassVars c, d ∈ G.varNeeds cvar

variable {G}

theorem Needs.of_isBase {c b : Addr} (h : G.IsBase c b) : G.Needs c b := by
  obtain ⟨cvar, hcvar, rfl⟩ := List.mem_map.mp h
  exact ⟨cvar, hcvar, List.mem_cons_self ..⟩

end Schema

/-- What the resolution of bases leaves alone in a class. -/
def ClassCell.status (cell : ClassCell) : ClassCell :=
  { cell with
    ancestors := []
    numAncestors := 0
    baseResolvingInProgress := false
    baseIsResolved := false }

/-- What the resolution of bases leaves alone. -/
def Heap.status (s : Heap) : Heap := { s with cells := fun c => (s.cells c).status }

/-- `is_resolved`. -/
def Heap.Resolved (s : Heap) (c : Addr) : Prop := (s.cells c).isResolved = true

/-- **No bases are on the way.** -/
structure Quiet (G : Schema) (old : Addr → List Addr) (s : Heap) : Prop where
  /-- The ancestor lists are linked. -/
  linked : Linked G old s
  /-- No bases are on the way. -/
  calm : ∀ c, ¬s.BaseOpen c
  /-- A class whose bases are not resolved has linked nothing. -/
  fresh : ∀ c, (s.cells c).baseIsResolved = false → G.bases c ≠ [] → s.linked c = []

/-- **What holds between two resolutions.** -/
structure Settled (G : Schema) (old : Addr → List Addr) (s : Heap) : Prop extends Quiet G old s where
  /-- A resolved class was started. -/
  started : ∀ c, s.Resolved c → (s.cells c).resolvingInProgress = true
  /-- Its bases are resolved. -/
  based : ∀ c, s.Resolved c → G.bases c ≠ [] → s.BaseResolved c
  /-- Its number was handed out. -/
  numid_le : ∀ c, s.Resolved c → 0 < (s.cells c).numid ∧ (s.cells c).numid ≤ s.classIdCount
  /-- No other class has it. -/
  numid_inj : ∀ c d, s.Resolved c → s.Resolved d → (s.cells c).numid = (s.cells d).numid → c = d
  /-- What it asks for was resolved before it. -/
  ranked : ∀ c, s.Resolved c → ∀ d, G.Needs c d →
    s.Resolved d ∧ (s.cells d).numid < (s.cells c).numid

/-- **What a returning resolution leaves alone**: the status of every class that it did not resolve. -/
structure Progressed (s s' : Heap) : Prop where
  /-- A class is as before, or it was not started and is resolved. -/
  status : ∀ c, (s'.cells c).status = (s.cells c).status ∨
    (s.cells c).resolvingInProgress = false ∧ (s'.cells c).resolvingInProgress = true ∧ s'.Resolved c
  /-- Resolved bases stay so. -/
  baseResolved : ∀ c, s.BaseResolved c → s'.BaseResolved c

section Status

variable {s s' : Heap} {c : Addr}

theorem resolved_of_status (h : (s'.cells c).status = (s.cells c).status) :
    (s'.cells c).isResolved = (s.cells c).isResolved := by
  have h' := congrArg ClassCell.isResolved h
  exact h'

theorem resolving_of_status (h : (s'.cells c).status = (s.cells c).status) :
    (s'.cells c).resolvingInProgress = (s.cells c).resolvingInProgress := by
  have h' := congrArg ClassCell.resolvingInProgress h
  exact h'

theorem numid_of_status (h : (s'.cells c).status = (s.cells c).status) :
    (s'.cells c).numid = (s.cells c).numid := by
  have h' := congrArg ClassCell.numid h
  exact h'

end Status

namespace Progressed

variable {s s' s'' : Heap}

theorem refl (s : Heap) : Progressed s s := ⟨fun _ => .inl rfl, fun _ h => h⟩

theorem trans (h : Progressed s s') (h' : Progressed s' s'') : Progressed s s'' := by
  refine ⟨fun c => ?_, fun c hc => h'.baseResolved c (h.baseResolved c hc)⟩
  rcases h.status c with heq | ⟨hprog, hprog', hdone⟩
  · rcases h'.status c with heq' | ⟨hprog, hprog', hdone⟩
    · exact .inl (heq'.trans heq)
    · rw [resolving_of_status heq] at hprog
      exact .inr ⟨hprog, hprog', hdone⟩
  · rcases h'.status c with heq' | ⟨hprog'', -, -⟩
    · refine .inr ⟨hprog, ?_, ?_⟩
      · rw [resolving_of_status heq']
        exact hprog'
      · rw [Heap.Resolved, resolved_of_status heq']
        exact hdone
    · rw [hprog'] at hprog''
      cases hprog''

/-- A class that was started is as before. -/
theorem of_started (h : Progressed s s') {c : Addr} (hc : (s.cells c).resolvingInProgress = true) :
    (s'.cells c).status = (s.cells c).status := by
  rcases h.status c with heq | ⟨hprog, -, -⟩
  · exact heq
  · rw [hc] at hprog
    cases hprog

theorem resolved (h : Progressed s s') {c : Addr} (hc : s.Resolved c) : s'.Resolved c := by
  rcases h.status c with heq | ⟨-, -, hdone⟩
  · rw [Heap.Resolved, resolved_of_status heq]
    exact hc
  · exact hdone

/-- Memory in which only bases were resolved. -/
theorem of_advanced (h : Advanced s s') (hstatus : s'.status = s.status) : Progressed s s' := by
  refine ⟨fun c => .inl ?_, fun c hc => h.baseResolved hc⟩
  have hc := congrFun (congrArg Heap.cells hstatus) c
  exact hc

end Progressed

/-! ## (2) Resolving bases -/

section Bases

variable {G : Schema} {old : Addr → List Addr}

theorem status_modifyCell {s : Heap} {a : Addr} {f : ClassCell → ClassCell}
    (hf : (f (s.cells a)).status = (s.cells a).status) : (s.modifyCell a f).status = s.status := by
  rw [Heap.status, Heap.status]
  congr 1
  funext c
  by_cases hc : c = a
  · subst hc
    rw [Heap.modifyCell_self, hf]
  · rw [Heap.modifyCell_of_ne _ _ hc]

theorem status_of_rest {cell cell' : ClassCell} (h : cell'.rest = cell.rest) : cell'.status = cell.status := by
  have h' := congrArg ClassCell.status h
  exact h'

theorem status_linkBaseclass (s : Heap) (root a b : Addr) : (s.linkBaseclass root a b).status = s.status :=
  status_modifyCell (status_of_rest (linkBaseclass_rest _ _ _ _))

theorem moves_resolveBaseOnce {resolve : Addr → M Unit} (h : ∀ a, Moves (Kept Heap.status) (resolve a))
    (a : Addr) : Moves (Kept Heap.status) (resolveBaseOnce resolve a) := by
  refine Moves.get_bind fun s => ?_
  exact Moves.ite (fun _ => Moves.pure ()) (fun _ => h a) s

theorem moves_resolveBaseclasses {resolve : Addr → M Unit} (h : ∀ a, Moves (Kept Heap.status) (resolve a))
    (a : Addr) : Moves (Kept Heap.status) (resolveBaseclasses G resolve a) := by
  refine Moves.bind (Moves.forM fun cvar _ => ?_) fun _ => ?_
  · refine Moves.ite (fun _ => Moves.pure ()) fun _ => ?_
    refine Moves.bind (moves_resolveBaseOnce h cvar.entry) fun _ => ?_
    exact Moves.modify fun s => status_linkBaseclass s _ _ _
  · exact Moves.modify fun s => status_modifyCell rfl

/-- Resolving bases leaves the status of the classes alone. -/
theorem moves_resolveBase (depth : Nat) (a : Addr) : Moves (Kept Heap.status) (resolveBase G depth a) := by
  induction depth generalizing a with
  | zero => exact Moves.throw _
  | succ depth ih =>
      refine Moves.get_bind fun s => ?_
      refine Moves.ite (fun _ => Moves.throw _) (fun _ => ?_) s
      refine Moves.ite (fun _ => Moves.throw _) fun _ => ?_
      refine Moves.bind (Moves.modify fun s => status_modifyCell rfl) fun _ => ?_
      refine Moves.bind (moves_resolveBaseclasses ih a) fun _ => ?_
      exact Moves.modify fun s => status_modifyCell rfl

/-- What was on the way is finished. -/
theorem Quiet.of_advanced {s s' : Heap} (h : Quiet G old s) (hlinked : Linked G old s')
    (hadv : Advanced s s') : Quiet G old s' := by
  refine ⟨hlinked, fun c hc => ?_, fun c hc hnil => ?_⟩
  · rcases hadv c with heq | ⟨-, -, hdone⟩
    · rw [Heap.BaseOpen, heq] at hc
      exact h.calm c hc
    · rw [Heap.BaseResolved, hc.2] at hdone
      cases hdone
  · rcases hadv c with heq | ⟨-, -, hdone⟩
    · rw [Heap.linked, heq]
      rw [heq] at hc
      exact h.fresh c hc hnil
    · rw [Heap.BaseResolved, hc] at hdone
      cases hdone

/-- Memory that differs in how far the classes are. -/
theorem Quiet.congr {s s' : Heap} (h : Quiet G old s)
    (hanc : ∀ c, (s'.cells c).ancestors = (s.cells c).ancestors)
    (hnum : ∀ c, (s'.cells c).numAncestors = (s.cells c).numAncestors)
    (hres : ∀ c, (s'.cells c).baseIsResolved = (s.cells c).baseIsResolved)
    (hopen : ∀ c, (s'.cells c).baseResolvingInProgress = (s.cells c).baseResolvingInProgress)
    (hprog : ∀ c, G.bases c = [] →
      (s'.cells c).resolvingInProgress = (s.cells c).resolvingInProgress) : Quiet G old s' := by
  refine ⟨h.linked.congr hanc hnum hres hprog, fun c hc => ?_, fun c hc hnil => ?_⟩
  · rw [Heap.BaseOpen, hopen, hres] at hc
    exact h.calm c hc
  · rw [hres] at hc
    rw [Heap.linked, hanc]
    exact h.fresh c hc hnil

theorem Quiet.ready {s : Heap} (h : Quiet G old s) (c : Addr) : Ready G s c :=
  fun hres _ hnil => .inl (h.fresh c hres hnil)

/-- **A class has its bases resolved**, unless they are. -/
theorem Quiet.resolveBaseOnce {s s' : Heap} (h : Quiet G old s) {depth : Nat} {a : Addr}
    (hrun : (resolveBaseOnce (resolveBase G depth) a).run s = .ok () s') :
    Quiet G old s' ∧ Advanced s s' ∧ s'.BaseResolved a := by
  rw [Hierarchy.resolveBaseOnce] at hrun
  obtain ⟨_, _, hget, hrun⟩ := run_bind_eq_ok.mp hrun
  cases hget
  by_cases hres : (s.cells a).baseIsResolved = true
  · rw [if_pos hres] at hrun
    cases hrun
    exact ⟨h, .refl s, hres⟩
  · rw [if_neg hres] at hrun
    have hres' : (s.cells a).baseIsResolved = false := by simpa using hres
    have hdone := resolveBase_spec old depth s s' a
      ⟨h.linked, h.ready a, fun c => (h.ready c).setBaseInProgress hres'⟩ hrun
    exact ⟨h.of_advanced hdone.linked hdone.advanced, hdone.advanced, hdone.resolved⟩

/-- **A class with resolved bases lists everything that it inherits from.** -/
theorem Quiet.mem_below {s : Heap} (h : Quiet G old s) {c x : Addr} (hc : s.BaseResolved c)
    (hpath : ReflTransGen G.IsBase c x) (hne : x ≠ c) : x ∈ s.below c G.root := by
  refine @mem_of_reflTransGen _ G.bases (s.below · G.root) s.BaseResolved ?_ _ _ hpath hc hne
  intro c hc b hb
  obtain ⟨hbases, heq⟩ := h.linked.done c hc
  rcases hbases b hb with rfl | hdone
  · exact .inl rfl
  by_cases hbc : b = c
  · exact .inl hbc
  have hmem : ∀ x, x = b ∨ x ∈ s.below b G.root → x ∈ s.linked c := by
    intro x hx
    rw [heq (List.ne_nil_of_mem hb), mem_linkParents]
    exact ⟨b, List.mem_filter.mpr ⟨hb, by simpa using hbc⟩, hx⟩
  refine .inr ⟨hdone, ?_, fun x hx => ?_⟩
  · rw [h.linked.below_eq, List.mem_append]
    exact .inl (List.mem_filter.mpr ⟨hmem b (.inl rfl), by simpa using Schema.ne_root_of_isBase hb⟩)
  · rw [h.linked.below_eq, List.mem_append]
    have hroot := (List.mem_filter.mp hx).2
    exact .inl (List.mem_filter.mpr ⟨hmem x (.inr hx), hroot⟩)

/-- Only bases were resolved. -/
theorem Settled.of_advanced {s s' : Heap} (h : Settled G old s) (hquiet : Quiet G old s')
    (hadv : Advanced s s') (hstatus : s'.status = s.status) : Settled G old s' := by
  have hcell : ∀ c, (s'.cells c).status = (s.cells c).status := by
    intro c
    have hc := congrFun (congrArg Heap.cells hstatus) c
    exact hc
  have hcount : s'.classIdCount = s.classIdCount := by
    have hcount := congrArg Heap.classIdCount hstatus
    exact hcount
  have hres : ∀ c, s'.Resolved c ↔ s.Resolved c := by
    intro c
    rw [Heap.Resolved, resolved_of_status (hcell c), Heap.Resolved]
  have hnum : ∀ c, (s'.cells c).numid = (s.cells c).numid := fun c => numid_of_status (hcell c)
  refine ⟨hquiet, fun c hc => ?_, fun c hc hnil => ?_, fun c hc => ?_, fun c d hc hd => ?_,
    fun c hc d hd => ?_⟩
  · rw [resolving_of_status (hcell c)]
    exact h.started c ((hres c).mp hc)
  · exact hadv.baseResolved (h.based c ((hres c).mp hc) hnil)
  · rw [hnum, hcount]
    exact h.numid_le c ((hres c).mp hc)
  · rw [hnum, hnum]
    exact h.numid_inj c d ((hres c).mp hc) ((hres d).mp hd)
  · rw [hres, hnum, hnum]
    exact h.ranked c ((hres c).mp hc) d hd

theorem Settled.resolveBaseOnce {s s' : Heap} (h : Settled G old s) {depth : Nat} {a : Addr}
    (hrun : (resolveBaseOnce (resolveBase G depth) a).run s = .ok () s') :
    Settled G old s' ∧ Progressed s s' ∧ s'.BaseResolved a := by
  have hstatus : s'.status = s.status :=
    (moves_resolveBaseOnce (moves_resolveBase depth) a).of_ok hrun
  obtain ⟨hquiet, hadv, hdone⟩ := h.toQuiet.resolveBaseOnce hrun
  exact ⟨h.of_advanced hquiet hadv hstatus, .of_advanced hadv hstatus, hdone⟩

theorem kndIsBase_ok {template c : Addr} {s s' : Heap} (hrun : (kndIsBase template c).run s = .ok () s') :
    s' = s := by
  rw [kndIsBase] at hrun
  obtain ⟨_, _, hget, hrun⟩ := run_bind_eq_ok.mp hrun
  cases hget
  split at hrun
  · cases hrun
    rfl
  · cases hrun

/-- A returning reference to a class. -/
theorem Settled.kndResolveClassRef {s s' : Heap} (h : Settled G old s) {task : TaskType} {depth : Nat}
    {c : Addr} {base : Option Addr} (hrun : (kndResolveClassRef G task depth c base).run s = .ok () s') :
    Settled G old s' ∧ Progressed s s' := by
  unfold Hierarchy.kndResolveClassRef at hrun
  obtain ⟨_, s₁, hval, hrun⟩ := run_bind_eq_ok.mp hrun
  obtain ⟨h₁, hp₁, -⟩ := h.resolveBaseOnce hval
  cases base with
  | none =>
      cases hrun
      exact ⟨h₁, hp₁⟩
  | some base =>
      obtain ⟨_, s₂, hbase, hrun⟩ := run_bind_eq_ok.mp hrun
      obtain ⟨h₂, hp₂, -⟩ := h₁.resolveBaseOnce hbase
      split at hrun
      · cases hrun
        exact ⟨h₂, hp₁.trans hp₂⟩
      · rw [kndIsBase_ok hrun]
        exact ⟨h₂, hp₁.trans hp₂⟩

end Bases

/-! ## (3) Resolving a class -/

/-- **The specification of `knd_class_resolve`.** -/
def ResolvesClass (G : Schema) (old : Addr → List Addr) (resolve : Addr → M Unit) : Prop :=
  ∀ s s' a, Settled G old s → (resolve a).run s = .ok () s' →
    Settled G old s' ∧ Progressed s s' ∧ s'.Resolved a

section Class

variable {G : Schema} {old : Addr → List Addr} {resolve : Addr → M Unit} {task : TaskType} {depth : Nat}

theorem resolveOnce_spec (hresolve : ResolvesClass G old resolve) {s s' : Heap} (h : Settled G old s) {a : Addr}
    (hrun : (resolveOnce resolve a).run s = .ok () s') :
    Settled G old s' ∧ Progressed s s' ∧ s'.Resolved a := by
  rw [resolveOnce] at hrun
  obtain ⟨_, _, hget, hrun⟩ := run_bind_eq_ok.mp hrun
  cases hget
  by_cases hres : (s.cells a).isResolved = true
  · rw [if_pos hres] at hrun
    cases hrun
    exact ⟨h, .refl s, hres⟩
  · rw [if_neg hres] at hrun
    exact hresolve s s' a h hrun

/-- A returning step resolves its target. -/
theorem perform_spec (hresolve : ResolvesClass G old resolve) {s s' : Heap} (h : Settled G old s) {step : Step}
    (hrun : (step.perform G resolve task depth).run s = .ok () s') :
    Settled G old s' ∧ Progressed s s' ∧ ∀ d, step.target = some d → s'.Resolved d := by
  cases step with
  | resolve c =>
      obtain ⟨h', hp, hdone⟩ := resolveOnce_spec hresolve h hrun
      refine ⟨h', hp, fun d hd => ?_⟩
      cases hd
      exact hdone
  | classRef c base =>
      obtain ⟨h', hp⟩ := h.kndResolveClassRef hrun
      exact ⟨h', hp, fun d hd => by cases hd⟩
  | rel c template =>
      obtain ⟨_, s₁, hval, hbase⟩ := run_bind_eq_ok.mp hrun
      obtain ⟨h', hp, hdone⟩ := resolveOnce_spec hresolve h hval
      rw [kndIsBase_ok hbase]
      refine ⟨h', hp, fun d hd => ?_⟩
      cases hd
      exact hdone
  | fail e => cases hrun

/-- The state of a loop over declarations or steps that has resolved the classes `done`. -/
structure Progress (G : Schema) (old : Addr → List Addr) (s : Heap) (done : List Addr) (s' : Heap) : Prop where
  /-- It is settled. -/
  settled : Settled G old s'
  /-- What was not resolved is as before. -/
  progressed : Progressed s s'
  /-- The classes are resolved. -/
  resolved : ∀ d ∈ done, s'.Resolved d

theorem Progress.refl {s : Heap} (h : Settled G old s) : Progress G old s [] s :=
  ⟨h, .refl s, fun _ hd => absurd hd List.not_mem_nil⟩

theorem Progress.trans {s s₁ s₂ : Heap} {done done' : List Addr} (h : Progress G old s done s₁)
    (h' : Progress G old s₁ done' s₂) : Progress G old s (done ++ done') s₂ := by
  refine ⟨h'.settled, h.progressed.trans h'.progressed, fun d hd => ?_⟩
  rcases List.mem_append.mp hd with hd | hd
  · exact h'.progressed.resolved (h.resolved d hd)
  · exact h'.resolved d hd

/-- **Every step** of a list of values has resolved its target. -/
theorem forM_perform (hresolve : ResolvesClass G old resolve) {s s' : Heap} (h : Settled G old s)
    {steps : List Step} (hrun : (steps.forM (Step.perform G resolve task depth)).run s = .ok () s') :
    Progress G old s (steps.filterMap Step.target) s' := by
  refine forM_ok_induction (fun pre s' => Progress G old s (pre.filterMap Step.target) s') hrun (.refl h) ?_
  intro pre step s₁ s₂ _ hpre hstep
  obtain ⟨h₂, hp₂, htarget⟩ := perform_spec hresolve hpre.settled hstep
  rw [List.filterMap_append]
  refine hpre.trans ⟨h₂, hp₂, fun d hd => ?_⟩
  obtain ⟨step', hmem, hd⟩ := List.mem_filterMap.mp hd
  rw [List.mem_singleton.mp hmem] at hd
  exact htarget d hd

/-- **The loop of `knd_class_resolve`** resolves everything that the declarations ask for. -/
theorem forM_classVars (hresolve : ResolvesClass G old resolve) {s s' : Heap} (h : Settled G old s)
    {cvars : List ClassVar}
    (hrun : (cvars.forM fun cvar => do
      resolveOnce resolve cvar.entry
      kndResolveAttrVars G resolve task depth cvar).run s = .ok () s') :
    Progress G old s (cvars.flatMap G.varNeeds) s' := by
  refine forM_ok_induction (fun pre s' => Progress G old s (pre.flatMap G.varNeeds) s') hrun (.refl h) ?_
  intro pre cvar s₁ s₃ _ hpre hround
  obtain ⟨_, s₂, hbase, hvals⟩ := run_bind_eq_ok.mp hround
  obtain ⟨h₂, hp₂, hdone⟩ := resolveOnce_spec hresolve hpre.settled hbase
  rw [kndResolveAttrVars, resolveChildren_eq] at hvals
  rw [List.flatMap_append, List.flatMap_singleton]
  have hentry : Progress G old s₁ [cvar.entry] s₂ := by
    refine ⟨h₂, hp₂, fun d hd => ?_⟩
    rw [List.mem_singleton.mp hd]
    exact hdone
  exact hpre.trans (hentry.trans (forM_perform hresolve h₂ hvals))

/-- What the resolution of a class has done before the values: it is started and its bases are resolved. -/
structure Started (G : Schema) (old : Addr → List Addr) (s : Heap) (a : Addr) (s' : Heap) : Prop where
  /-- The memory is settled. -/
  settled : Settled G old s'
  /-- The class is started, and nothing else about its status has changed. -/
  status : s'.status = (s.setInProgress a).status
  /-- Resolved bases stay so. -/
  baseResolved : ∀ c, s.BaseResolved c → s'.BaseResolved c
  /-- Its bases are resolved. -/
  based : G.bases a ≠ [] → s'.BaseResolved a

theorem setInProgress_of_ne (s : Heap) {a c : Addr} (h : c ≠ a) : (s.setInProgress a).cells c = s.cells c :=
  Heap.modifyCell_of_ne _ _ h

theorem setInProgress_self (s : Heap) (a : Addr) :
    (s.setInProgress a).cells a = { s.cells a with resolvingInProgress := true } := Heap.modifyCell_self ..

theorem setResolved_of_ne (s : Heap) {a c : Addr} (h : c ≠ a) : (s.setResolved a).cells c = s.cells c :=
  Function.update_of_ne h ..

theorem setResolved_self (s : Heap) (a : Addr) :
    (s.setResolved a).cells a = { s.cells a with isResolved := true, numid := s.classIdCount + 1 } :=
  Function.update_self ..

/-- A class that is started is not resolved yet: the memory stays settled. -/
theorem Settled.of_status_setInProgress {s s' : Heap} (h : Settled G old s) {a : Addr}
    (hquiet : Quiet G old s') (hbased : ∀ c, s.BaseResolved c → s'.BaseResolved c)
    (hstatus : s'.status = (s.setInProgress a).status) : Settled G old s' := by
  have hcell : ∀ c, (s'.cells c).status = ((s.setInProgress a).cells c).status := by
    intro c
    have hc := congrFun (congrArg Heap.cells hstatus) c
    exact hc
  have hcount : s'.classIdCount = s.classIdCount := by
    have hcount := congrArg Heap.classIdCount hstatus
    exact hcount
  have hres : ∀ c, s'.Resolved c ↔ s.Resolved c := by
    intro c
    rw [Heap.Resolved, resolved_of_status (hcell c), Heap.Resolved]
    by_cases hc : c = a
    · rw [hc, setInProgress_self]
    · rw [setInProgress_of_ne s hc]
  have hnum : ∀ c, (s'.cells c).numid = (s.cells c).numid := by
    intro c
    rw [numid_of_status (hcell c)]
    by_cases hc : c = a
    · rw [hc, setInProgress_self]
    · rw [setInProgress_of_ne s hc]
  refine ⟨hquiet, fun c hc => ?_, fun c hc hnil => ?_, fun c hc => ?_, fun c d hc hd => ?_, fun c hc d hd => ?_⟩
  · rw [resolving_of_status (hcell c)]
    by_cases hca : c = a
    · rw [hca, setInProgress_self]
    · rw [setInProgress_of_ne s hca]
      exact h.started c ((hres c).mp hc)
  · exact hbased c (h.based c ((hres c).mp hc) hnil)
  · rw [hnum, hcount]
    exact h.numid_le c ((hres c).mp hc)
  · rw [hnum, hnum]
    exact h.numid_inj c d ((hres c).mp hc) ((hres d).mp hd)
  · rw [hres, hnum, hnum]
    exact h.ranked c ((hres c).mp hc) d hd

/-- **A class without bases** links the root. -/
theorem Quiet.startRoot {s : Heap} (h : Quiet G old s) {a : Addr} (hnil : G.bases a = [])
    (hprog : (s.cells a).resolvingInProgress = false) :
    Quiet G old ((s.setInProgress a).linkBaseclass G.root a G.root) ∧
      ∀ c, s.BaseResolved c → ((s.setInProgress a).linkBaseclass G.root a G.root).BaseResolved c := by
  have hflags : ∀ c, (((s.setInProgress a).linkBaseclass G.root a G.root).cells c).baseIsResolved =
        (s.cells c).baseIsResolved ∧
      (((s.setInProgress a).linkBaseclass G.root a G.root).cells c).baseResolvingInProgress =
        (s.cells c).baseResolvingInProgress := by
    intro c
    rw [Heap.linkBaseclass_baseIsResolved, Heap.linkBaseclass_baseResolvingInProgress]
    by_cases hc : c = a
    · rw [hc, setInProgress_self]
      exact ⟨rfl, rfl⟩
    · rw [setInProgress_of_ne s hc]
      exact ⟨rfl, rfl⟩
  refine ⟨⟨h.linked.linkRoot hnil hprog, fun c hc => ?_, fun c hc hne => ?_⟩, fun c hc => ?_⟩
  · rw [Heap.BaseOpen, (hflags c).1, (hflags c).2] at hc
    exact h.calm c hc
  · have hca : c ≠ a := by
      rintro rfl
      exact hne hnil
    rw [(hflags c).1] at hc
    rw [Heap.linked, Heap.linkBaseclass_of_ne _ _ _ _ hca, setInProgress_of_ne s hca]
    exact h.fresh c hc hne
  · rw [Heap.BaseResolved, (hflags c).1]
    exact hc

/-- A class with bases is marked. -/
theorem Quiet.setInProgress {s : Heap} (h : Quiet G old s) {a : Addr} (hne : G.bases a ≠ []) :
    Quiet G old (s.setInProgress a) := by
  have hcell : ∀ c, ((s.setInProgress a).cells c).ancestors = (s.cells c).ancestors ∧
      ((s.setInProgress a).cells c).numAncestors = (s.cells c).numAncestors ∧
      ((s.setInProgress a).cells c).baseIsResolved = (s.cells c).baseIsResolved ∧
      ((s.setInProgress a).cells c).baseResolvingInProgress = (s.cells c).baseResolvingInProgress := by
    intro c
    by_cases hc : c = a
    · rw [hc, setInProgress_self]
      exact ⟨rfl, rfl, rfl, rfl⟩
    · rw [setInProgress_of_ne s hc]
      exact ⟨rfl, rfl, rfl, rfl⟩
  refine h.congr (fun c => (hcell c).1) (fun c => (hcell c).2.1) (fun c => (hcell c).2.2.1)
    (fun c => (hcell c).2.2.2) fun c hc => ?_
  have hca : c ≠ a := by
    rintro rfl
    exact hne hc
  rw [setInProgress_of_ne s hca]

/-- **A class has its bases resolved** by `resolve_baseclasses`, unless they are. -/
theorem Quiet.resolveBaseclasses {s s' : Heap} (h : Quiet G old s) {a : Addr}
    (hrun : (Hierarchy.resolveBaseOnce (Hierarchy.resolveBaseclasses G (resolveBase G depth)) a).run s =
      .ok () s') :
    Quiet G old s' ∧ (∀ c, s.BaseResolved c → s'.BaseResolved c) ∧ s'.BaseResolved a := by
  rw [Hierarchy.resolveBaseOnce] at hrun
  obtain ⟨_, _, hget, hrun⟩ := run_bind_eq_ok.mp hrun
  cases hget
  by_cases hres : (s.cells a).baseIsResolved = true
  · rw [if_pos hres] at hrun
    cases hrun
    exact ⟨h, fun _ => id, hres⟩
  · rw [if_neg hres, Hierarchy.resolveBaseclasses] at hrun
    have hres : (s.cells a).baseIsResolved = false := by simpa using hres
    obtain ⟨_, s₁, hloop, hset⟩ := run_bind_eq_ok.mp hrun
    cases hset
    have hdone := forM_linkClassVar (resolveBase_spec old depth) h.linked hres
      (fun c _ hc _ hnil => .inl (h.fresh c hc hnil)) hloop
    have hset : ∀ {c}, c ≠ a → (s₁.setBaseIsResolved a).cells c = s₁.cells c :=
      fun hc => setBaseIsResolved_of_ne s₁ a _ hc
    have hself := setBaseIsResolved_self s₁ a
    refine ⟨⟨hdone.finish fun hnil => h.fresh a hres hnil, fun c hc => ?_, fun c hc hnil => ?_⟩,
      fun c hc => ?_, hself⟩
    · by_cases hca : c = a
      · subst hca
        rw [Heap.BaseResolved, hc.2] at hself
        cases hself
      · rw [Heap.BaseOpen, hset hca] at hc
        rcases hdone.advanced c hca with heq | ⟨-, -, hdone⟩
        · rw [heq] at hc
          exact h.calm c hc
        · rw [Heap.BaseResolved, hc.2] at hdone
          cases hdone
    · by_cases hca : c = a
      · subst hca
        rw [Heap.BaseResolved, hc] at hself
        cases hself
      · rw [hset hca] at hc
        rw [Heap.linked, hset hca]
        rcases hdone.advanced c hca with heq | ⟨-, -, hdone⟩
        · rw [heq] at hc ⊢
          exact h.fresh c hc hnil
        · rw [Heap.BaseResolved, hc] at hdone
          cases hdone
    · by_cases hca : c = a
      · rw [hca]
        exact hself
      · rw [Heap.BaseResolved, hset hca]
        rcases hdone.advanced c hca with heq | ⟨-, -, hdone⟩
        · rw [heq]
          exact hc
        · exact hdone

/-- The start of a class without bases. -/
theorem Settled.startRoot {s : Heap} (h : Settled G old s) {a : Addr} (hnil : G.bases a = [])
    (hprog : (s.cells a).resolvingInProgress = false) :
    Started G old s a ((s.setInProgress a).linkBaseclass G.root a G.root) := by
  have hstatus := status_linkBaseclass (s.setInProgress a) G.root a G.root
  obtain ⟨hquiet, hbased⟩ := h.toQuiet.startRoot hnil hprog
  exact ⟨h.of_status_setInProgress hquiet hbased hstatus, hstatus, hbased, fun hne => absurd hnil hne⟩

/-- The start of a class with bases. -/
theorem Settled.startBases {s s' : Heap} (h : Settled G old s) {a : Addr} (hne : G.bases a ≠ [])
    (hrun : (Hierarchy.resolveBaseOnce (resolveBaseclasses G (resolveBase G depth)) a).run (s.setInProgress a) =
      .ok () s') : Started G old s a s' := by
  have hstatus : s'.status = (s.setInProgress a).status :=
    (moves_resolveBaseOnce (moves_resolveBaseclasses (moves_resolveBase depth)) a).of_ok hrun
  obtain ⟨hquiet, hbased, hdone⟩ := (h.toQuiet.setInProgress hne).resolveBaseclasses hrun
  have hbased' : ∀ c, s.BaseResolved c → s'.BaseResolved c := by
    intro c hc
    refine hbased c ?_
    by_cases hca : c = a
    · rw [Heap.BaseResolved, hca, setInProgress_self]
      exact hca ▸ hc
    · rw [Heap.BaseResolved, setInProgress_of_ne s hca]
      exact hc
  exact ⟨h.of_status_setInProgress hquiet hbased' hstatus, hstatus, hbased', fun _ => hdone⟩

/-- **The start of a class**, with or without bases. -/
theorem Settled.start {s s' : Heap} (h : Settled G old s) {a : Addr}
    (hprog : (s.cells a).resolvingInProgress = false)
    (hrun : (if (G.baseclassVars a).isEmpty then modify fun s => s.linkBaseclass G.root a G.root
      else Hierarchy.resolveBaseOnce (resolveBaseclasses G (resolveBase G depth)) a : M Unit).run
        (s.setInProgress a) = .ok () s') : Started G old s a s' := by
  by_cases hnil : G.bases a = []
  · rw [if_pos (Schema.bases_eq_nil_iff.mpr hnil)] at hrun
    cases hrun
    exact h.startRoot hnil hprog
  · have hempty : ¬(G.baseclassVars a).isEmpty = true := fun hempty => hnil (Schema.bases_eq_nil_iff.mp hempty)
    rw [if_neg hempty] at hrun
    exact h.startBases hnil hrun

/-- **A returning `knd_class_resolve`** met an unmarked class, started it, and ran the loop. -/
theorem kndClassResolve_ok {n : Nat} {a : Addr} {s s' : Heap}
    (hrun : (kndClassResolve G task depth (n + 1) a).run s = .ok () s') :
    (s.cells a).isResolved = false ∧ (s.cells a).resolvingInProgress = false ∧ ∃ s₁ s₂,
      (if (G.baseclassVars a).isEmpty then modify fun s => s.linkBaseclass G.root a G.root
        else resolveBaseOnce (resolveBaseclasses G (resolveBase G depth)) a : M Unit).run
          (s.setInProgress a) = .ok () s₁ ∧
      ((G.baseclassVars a).forM fun cvar => do
        resolveOnce (kndClassResolve G task depth n) cvar.entry
        kndResolveAttrVars G (kndClassResolve G task depth n) task depth cvar).run s₁ = .ok () s₂ ∧
      s' = s₂.setResolved a := by
  rw [kndClassResolve] at hrun
  obtain ⟨_, _, hget, hrun⟩ := run_bind_eq_ok.mp hrun
  cases hget
  by_cases hres : (s.cells a).isResolved = true
  · rw [if_pos hres] at hrun
    cases hrun
  rw [if_neg hres] at hrun
  by_cases hprog : (s.cells a).resolvingInProgress = true
  · rw [if_pos hprog] at hrun
    cases hrun
  rw [if_neg hprog] at hrun
  obtain ⟨_, s₀, hmark, hrun⟩ := run_bind_eq_ok.mp hrun
  cases hmark
  obtain ⟨_, s₁, hbases, hrun⟩ := run_bind_eq_ok.mp hrun
  obtain ⟨_, s₂, hvals, hset⟩ := run_bind_eq_ok.mp hrun
  cases hset
  exact ⟨by simpa using hres, by simpa using hprog, s₁, s₂, hbases, hvals, rfl⟩

/-- A class is marked as resolved. -/
theorem Quiet.setResolved {s : Heap} (h : Quiet G old s) (a : Addr) : Quiet G old (s.setResolved a) := by
  have hbase : ∀ c, ((s.setResolved a).cells c).ancestors = (s.cells c).ancestors ∧
      ((s.setResolved a).cells c).numAncestors = (s.cells c).numAncestors ∧
      ((s.setResolved a).cells c).baseIsResolved = (s.cells c).baseIsResolved ∧
      ((s.setResolved a).cells c).baseResolvingInProgress = (s.cells c).baseResolvingInProgress ∧
      ((s.setResolved a).cells c).resolvingInProgress = (s.cells c).resolvingInProgress := by
    intro c
    by_cases hc : c = a
    · rw [hc, setResolved_self]
      exact ⟨rfl, rfl, rfl, rfl, rfl⟩
    · rw [setResolved_of_ne s hc]
      exact ⟨rfl, rfl, rfl, rfl, rfl⟩
  exact h.congr (fun c => (hbase c).1) (fun c => (hbase c).2.1) (fun c => (hbase c).2.2.1)
    (fun c => (hbase c).2.2.2.1) fun c _ => (hbase c).2.2.2.2

/-- **The class is marked as resolved**, with the next number, when everything it asks for is. -/
theorem Settled.setResolved {s : Heap} (h : Settled G old s) {a : Addr} (hres : ¬s.Resolved a)
    (hprog : (s.cells a).resolvingInProgress = true) (hbased : G.bases a ≠ [] → s.BaseResolved a)
    (hneeds : ∀ d, G.Needs a d → s.Resolved d) : Settled G old (s.setResolved a) := by
  have hself := setResolved_self s a
  have hcell : ∀ {c}, c ≠ a → (s.setResolved a).cells c = s.cells c := fun hc => setResolved_of_ne s hc
  have hbase : ∀ c, ((s.setResolved a).cells c).baseIsResolved = (s.cells c).baseIsResolved ∧
      ((s.setResolved a).cells c).resolvingInProgress = (s.cells c).resolvingInProgress := by
    intro c
    by_cases hc : c = a
    · rw [hc, hself]
      exact ⟨rfl, rfl⟩
    · rw [hcell hc]
      exact ⟨rfl, rfl⟩
  have hold : ∀ {c}, c ≠ a → (s.setResolved a).Resolved c → s.Resolved c := by
    intro c hca hc
    rwa [Heap.Resolved, hcell hca] at hc
  have hkept : ∀ {c}, s.Resolved c → c ≠ a ∧ (s.setResolved a).Resolved c := by
    intro c hc
    have hca : c ≠ a := by
      rintro rfl
      exact hres hc
    refine ⟨hca, ?_⟩
    rw [Heap.Resolved, hcell hca]
    exact hc
  refine ⟨h.toQuiet.setResolved a, fun c hc => ?_, fun c hc hnil => ?_,
    fun c hc => ?_, fun c d hc hd heq => ?_, fun c hc d hd => ?_⟩
  · rw [(hbase c).2]
    by_cases hca : c = a
    · rw [hca]
      exact hprog
    · exact h.started c (hold hca hc)
  · rw [Heap.BaseResolved, (hbase c).1]
    by_cases hca : c = a
    · rw [hca] at hnil ⊢
      exact hbased hnil
    · exact h.based c (hold hca hc) hnil
  · show _ ∧ _ ≤ s.classIdCount + 1
    by_cases hca : c = a
    · rw [hca, hself]
      exact ⟨Nat.succ_pos _, Nat.le_refl _⟩
    · rw [hcell hca]
      have hle := h.numid_le c (hold hca hc)
      omega
  · -- the new number is above all that were handed out
    by_cases hca : c = a
    · by_cases hda : d = a
      · rw [hca, hda]
      · rw [hca, hself, hcell hda] at heq
        have hle := h.numid_le d (hold hda hd)
        dsimp only at heq
        omega
    · by_cases hda : d = a
      · rw [hda, hself, hcell hca] at heq
        have hle := h.numid_le c (hold hca hc)
        dsimp only at heq
        omega
      · rw [hcell hca, hcell hda] at heq
        exact h.numid_inj c d (hold hca hc) (hold hda hd) heq
  · by_cases hca : c = a
    · subst hca
      have hd' := hneeds d hd
      obtain ⟨hdc, hdres⟩ := hkept hd'
      refine ⟨hdres, ?_⟩
      rw [hself, hcell hdc]
      exact Nat.lt_succ_of_le (h.numid_le d hd').2
    · obtain ⟨hd', hlt⟩ := h.ranked c (hold hca hc) d hd
      obtain ⟨hda, hdres⟩ := hkept hd'
      refine ⟨hdres, ?_⟩
      rw [hcell hca, hcell hda]
      exact hlt

/-- **`knd_class_resolve` meets its specification** however deep it is followed. -/
theorem kndClassResolve_spec (old : Addr → List Addr) (task : TaskType) (depth n : Nat) :
    ResolvesClass G old (kndClassResolve G task depth n) := by
  induction n with
  | zero =>
      intro s s' a _ hrun
      cases hrun
  | succ n ih =>
      intro s s' a h hrun
      obtain ⟨hres, hprog, s₁, s₂, hbases, hvals, rfl⟩ := kndClassResolve_ok hrun
      have hstart : Started G old s a s₁ := h.start hprog hbases
      have hdone := forM_classVars ih hstart.settled hvals
      have hcell : ∀ c, (s₁.cells c).status = ((s.setInProgress a).cells c).status := by
        intro c
        have hc := congrFun (congrArg Heap.cells hstart.status) c
        exact hc
      have hprog₁ : (s₁.cells a).resolvingInProgress = true := by
        rw [resolving_of_status (hcell a), setInProgress_self]
      have hstatus₂ := hdone.progressed.of_started hprog₁
      have hprog₂ : (s₂.cells a).resolvingInProgress = true := by
        rw [resolving_of_status hstatus₂, hprog₁]
      have hres₂ : ¬s₂.Resolved a := by
        rw [Heap.Resolved, resolved_of_status hstatus₂, resolved_of_status (hcell a), setInProgress_self,
          hres]
        exact Bool.false_ne_true
      have hself := setResolved_self s₂ a
      have hother : ∀ {c}, c ≠ a → (s₂.setResolved a).cells c = s₂.cells c :=
        fun hc => setResolved_of_ne s₂ hc
      refine ⟨hdone.settled.setResolved hres₂ hprog₂
        (fun hne => hdone.progressed.baseResolved a (hstart.based hne)) fun d hd => ?_, ⟨fun c => ?_, fun c hc => ?_⟩,
        ?_⟩
      · obtain ⟨cvar, hcvar, hd⟩ := hd
        exact hdone.resolved d (List.mem_flatMap.mpr ⟨cvar, hcvar, hd⟩)
      · by_cases hca : c = a
        · subst hca
          refine .inr ⟨hprog, ?_, ?_⟩
          · rw [hself]
            exact hprog₂
          · rw [Heap.Resolved, hself]
        · have heq : (s₁.cells c).status = (s.cells c).status := by rw [hcell c, setInProgress_of_ne s hca]
          rw [hother hca, ← heq, Heap.Resolved, hother hca, ← resolving_of_status heq]
          exact hdone.progressed.status c
      · have hc₂ := hdone.progressed.baseResolved c (hstart.baseResolved c hc)
        by_cases hca : c = a
        · subst hca
          rw [Heap.BaseResolved, hself]
          exact hc₂
        · rw [Heap.BaseResolved, hother hca]
          exact hc₂
      · rw [Heap.Resolved, hself]

/-- **A returning `resolve_classes`** has resolved every class of the name index. -/
theorem Settled.resolveClasses {s s' : Heap} (h : Settled G old s) {order : List Addr}
    (hrun : (resolveClasses G task depth order).run s = .ok () s') : Progress G old s order s' := by
  refine forM_ok_induction (fun pre s' => Progress G old s pre s') hrun (.refl h) ?_
  intro pre a s₁ s₂ _ hpre hround
  obtain ⟨h₂, hp₂, hdone⟩ := resolveOnce_spec (kndClassResolve_spec old task depth depth) hpre.settled hround
  refine hpre.trans ⟨h₂, hp₂, fun d hd => ?_⟩
  rw [List.mem_singleton.mp hd]
  exact hdone

/-- Nothing is resolved at first. -/
theorem settled_initial (G : Schema) : Settled G (fun _ => []) .initial where
  linked :=
    { refs := fun _ => rfl
      count := fun _ => rfl
      sound := fun _ _ hx => absurd hx List.not_mem_nil
      top := fun _ _ => rfl
      done := fun _ hc => absurd hc Bool.false_ne_true }
  calm := fun _ hc => absurd hc.1 Bool.false_ne_true
  fresh := fun _ _ _ => rfl
  started := fun _ hc => absurd hc Bool.false_ne_true
  based := fun _ hc => absurd hc Bool.false_ne_true
  numid_le := fun _ hc => absurd hc Bool.false_ne_true
  numid_inj := fun _ _ hc => absurd hc Bool.false_ne_true
  ranked := fun _ hc => absurd hc Bool.false_ne_true

end Class

end Knowdy.Hierarchy
