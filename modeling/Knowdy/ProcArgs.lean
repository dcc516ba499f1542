import Knowdy.ClassRefs
import Knowdy.Output
import Knowdy.ProcResolve
import Mathlib.Data.List.Chain

/-! # The arguments of procs

`knd_proc_resolve` gives a proc a reference to each of its arguments and to each argument of its bases. A variable in
a base declaration specialises an argument: it may name a class, which then stands for the template of the argument.
Specialisations are inherited base by base, each in the place of the one before.

* `ArgSchema`, `ArgHeap` — the declarations, the memory; arguments are bound to what `knd_proc_get_arg` finds.
* `inheritArg`, `resolveArgVar`, `kndProcResolve` — the code; `Simulates` — apart from the arguments it is that of
  `Procs`.
* `declareArgs` — the references of a proc from those of its bases; `resolveProcs_spec` — the code computes them.
* `Specialised` — the variable of an argument by the declarations: what specialises it last.
* `Narrowed` — the templates of a proc narrow the declared ones and those of its bases.
* `narrowed_iff` — they do, if and only if what specialises an argument last heeds what the code does not check. -/

namespace Knowdy.ProcArgs

open Procs Relation

/-- The address of an argument. -/
abbrev ArgAddr := Nat

/-! ## (1) Declarations -/

/-- `struct kndProcArg`. -/
structure ProcArg where
  /-- `classname`, if there is one. -/
  classname : Option Hierarchy.Addr := none
  /-- `proc_call`, if there is one. -/
  procCall : Option ProcAddr := none

/-- `struct kndProcArgVar`: a variable in a base declaration. -/
structure ArgVar where
  /-- The argument that `name` stands for. -/
  arg : ArgAddr
  /-- `val`, which may be empty. -/
  val : Option Hierarchy.Addr := none
  deriving DecidableEq

/-- `struct kndProcVar`: a base declaration. -/
structure ProcVar where
  /-- The proc that `name` stands for. -/
  proc : ProcAddr
  /-- `args`. -/
  args : List ArgVar := []

/-- A class is another or descends from it, as all do from the root. -/
def Descends (G : Hierarchy.Schema) (c c' : Hierarchy.Addr) : Prop := c' = G.root ∨ ReflTransGen G.IsBase c c'

/-- **The declarations of procs with arguments**, read when the classes are resolved. -/
structure ArgSchema where
  /-- The classes. -/
  classes : Hierarchy.Schema
  /-- The memory of the classes. -/
  classHeap : Hierarchy.Heap
  /-- `proc_name_idx`. -/
  names : List ProcAddr
  /-- The arguments. -/
  arg : ArgAddr → ProcArg
  /-- `args` of a proc. -/
  args : ProcAddr → List ArgAddr
  /-- `bases` of a proc. -/
  bases : ProcAddr → List ProcVar
  /-- `result_classname` of a proc, if there is one. -/
  result : ProcAddr → Option Hierarchy.Addr := fun _ => none
  /-- A proc declares an argument once. -/
  args_nodup : ∀ p, (args p).Nodup
  /-- Bases name existing procs. -/
  proc_mem : ∀ p, ∀ base ∈ bases p, base.proc ∈ names
  /-- `knd_is_base` is right about the classes. -/
  descends_of_isBase : ∀ c c', returns (Hierarchy.kndIsBase c' c) classHeap = true → Descends classes c c'

/-- The procs without their arguments. -/
def ArgSchema.procs (D : ArgSchema) : ProcSchema where
  names := D.names
  bases p := (D.bases p).map ProcVar.proc

/-! ## (2) Memory -/

/-- `struct kndProcArgRef`. The template of a variable is set when it is resolved, to the class of its value. -/
structure ArgRef where
  /-- `arg`. -/
  arg : ArgAddr
  /-- `var`. -/
  var : Option ArgVar := none
  deriving DecidableEq

/-- The template of an argument, with the variable that a reference has: that of the variable, if there is one. -/
def ArgSchema.template (D : ArgSchema) (a : ArgAddr) (var : Option ArgVar) : Option Hierarchy.Addr :=
  (var.bind ArgVar.val).or (D.arg a).classname

/-- The memory of the procs and of their arguments. -/
structure ArgHeap where
  /-- The procs. -/
  procs : ProcHeap := {}
  /-- `arg_idx` of each proc. -/
  argIdx : ProcAddr → List ArgRef := fun _ => []

/-- A write to the procs. -/
def ArgHeap.modifyProcs (s : ArgHeap) (f : ProcHeap → ProcHeap) : ArgHeap := { s with procs := f s.procs }

/-- A write to one proc. -/
def ArgHeap.modifyCell (s : ArgHeap) (p : ProcAddr) (f : ProcCell → ProcCell) : ArgHeap :=
  s.modifyProcs fun procs => procs.modifyCell p f

/-- A write to `arg_idx` of a proc. -/
def ArgHeap.setArgs (s : ArgHeap) (p : ProcAddr) (refs : List ArgRef) : ArgHeap :=
  { s with argIdx := Function.update s.argIdx p refs }

@[simp] theorem ArgHeap.argIdx_modifyProcs (s : ArgHeap) (f : ProcHeap → ProcHeap) :
    (s.modifyProcs f).argIdx = s.argIdx := rfl

@[simp] theorem ArgHeap.procs_modifyProcs (s : ArgHeap) (f : ProcHeap → ProcHeap) :
    (s.modifyProcs f).procs = f s.procs := rfl

@[simp] theorem ArgHeap.argIdx_modifyCell (s : ArgHeap) (p : ProcAddr) (f : ProcCell → ProcCell) :
    (s.modifyCell p f).argIdx = s.argIdx := rfl

@[simp] theorem ArgHeap.procs_modifyCell (s : ArgHeap) (p : ProcAddr) (f : ProcCell → ProcCell) :
    (s.modifyCell p f).procs = s.procs.modifyCell p f := rfl

@[simp] theorem ArgHeap.procs_setArgs (s : ArgHeap) (p : ProcAddr) (refs : List ArgRef) :
    (s.setArgs p refs).procs = s.procs := rfl

@[simp] theorem ArgHeap.argIdx_setArgs_self (s : ArgHeap) (p : ProcAddr) (refs : List ArgRef) :
    (s.setArgs p refs).argIdx p = refs := Function.update_self ..

theorem ArgHeap.argIdx_setArgs_of_ne (s : ArgHeap) {p q : ProcAddr} (h : q ≠ p) (refs : List ArgRef) :
    (s.setArgs p refs).argIdx q = s.argIdx q := Function.update_of_ne h ..

/-- What the resolution of a proc with its arguments can end with other than success. -/
inductive ArgErr
  /-- What the resolution of a proc ends with. -/
  | proc (e : ProcErr)
  /-- `knd_NO_MATCH`: no such argument, class or proc, or no inheritance. -/
  | noMatch
  /-- `knd_FORMAT`: the same template twice. -/
  | format
  deriving DecidableEq, Repr

/-- A program over this memory. -/
abbrev AM := EStateM ArgErr ArgHeap

/-! ## (3) The code -/

/-- `knd_set_get` in `arg_idx`. -/
def getArg (refs : List ArgRef) (arg : ArgAddr) : Option ArgRef := refs.find? fun ref => ref.arg = arg

/-- `ref->var = var`. -/
def setVar (refs : List ArgRef) (arg : ArgAddr) (var : ArgVar) : List ArgRef :=
  refs.map fun ref => if ref.arg = arg then { ref with var := some var } else ref

/-- `inherit_arg`. -/
def inheritArg (refs : List ArgRef) (src : ArgRef) : List ArgRef :=
  if (getArg refs src.arg).isSome then
    match src.var with
    | some var => setVar refs src.arg var
    | none => refs
  else refs ++ [src]

/-- The loop of `inherit_args`. -/
def inheritArgs (refs src : List ArgRef) : List ArgRef := src.foldl inheritArg refs

section Code

variable (D : ArgSchema)

/-- `knd_resolve_proc_arg_var`. -/
def resolveArgVar (refs : List ArgRef) (var : ArgVar) : Except ArgErr (List ArgRef) :=
  match getArg refs var.arg with
  | none => .error .noMatch
  | some ref =>
      match var.val with
      | none => .ok (setVar refs var.arg var)
      | some entry =>
          if entry ∉ D.classes.names then .error .noMatch
          else
            match ref.var.bind ArgVar.val with
            | none => .ok (setVar refs var.arg var)
            | some c =>
                if c = entry then .error .format
                else if returns (Hierarchy.kndIsBase c entry) D.classHeap then .ok (setVar refs var.arg var)
                else .error .noMatch

/-- A change of `arg_idx` of a proc that may be refused. -/
def updateArgs (self : ProcAddr) (f : List ArgRef → Except ArgErr (List ArgRef)) : AM Unit := fun s =>
  match f (s.argIdx self) with
  | .error e => .error e s
  | .ok refs => .ok () (s.setArgs self refs)

/-- `knd_proc_arg_resolve`, and the local index. -/
def addArg (refs : List ArgRef) (arg : ArgAddr) : Except ArgErr (List ArgRef) :=
  if ((D.arg arg).classname.all (· ∈ D.classes.names)) ∧ (D.arg arg).procCall.all (· ∈ D.names) then
    .ok (refs ++ [⟨arg, none⟩])
  else .error .noMatch

/-- A proc that is not resolved yet is. -/
def resolveOnce (resolve : ProcAddr → AM Unit) (self : ProcAddr) : AM Unit := do
  let s ← get
  if (s.procs.cells self).isResolved then pure () else resolve self

/-- `resolve_bases`. -/
def resolveBases (resolve : ProcAddr → AM Unit) (self : ProcAddr) : AM Unit := do
  let s ← get
  if (s.procs.cells self).baseIsResolved then throw (.proc .fault)
  else if (s.procs.cells self).baseResolvingInProgress then throw (.proc .viciousCircle)
  else
    modify fun s => s.modifyCell self fun cell => { cell with baseResolvingInProgress := true }
    (D.bases self).forM fun base => do
      resolveOnce resolve base.proc
      modify fun s => s.modifyProcs fun s => s.linkBase self base.proc
    modify fun s => s.modifyCell self fun cell => { cell with baseIsResolved := true }

/-- `inherit_args`, and the variables of the base declaration. -/
def inheritBase (resolve : ProcAddr → AM Unit) (self : ProcAddr) (base : ProcVar) : AM Unit := do
  resolveOnce resolve base.proc
  modify fun s => s.setArgs self (inheritArgs (s.argIdx self) (s.argIdx base.proc))
  base.args.forM fun var => updateArgs self fun refs => resolveArgVar D refs var

/-- `knd_proc_resolve`. -/
def kndProcResolve : Nat → ProcAddr → AM Unit
  | 0, _ => throw (.proc .outOfDepth)
  | n + 1, self => do
      let s ← get
      if (s.procs.cells self).resolvingInProgress then throw (.proc .viciousCircle)
      else
        modify fun s => s.modifyCell self fun cell => { cell with resolvingInProgress := true }
        (D.args self).forM fun arg => updateArgs self fun refs => addArg D refs arg
        (if (s.procs.cells self).baseIsResolved then pure () else resolveBases D (kndProcResolve n) self)
        (D.bases self).forM (inheritBase D (kndProcResolve n) self)
        (if (D.result self).all (· ∈ D.classes.names) then pure () else throw .noMatch)
        modify fun s => s.modifyCell self fun cell => { cell with isResolved := true }

/-- `resolve_procs`, over the procs in the order of the name index. -/
def resolveProcs (depth : Nat) (order : List ProcAddr) : AM Unit :=
  order.forM (resolveOnce (kndProcResolve D depth))

end Code

/-! ## (4) The procs themselves -/

/-- **Apart from the arguments** a returning program does what the other does. -/
def Simulates (x : AM Unit) (y : PM Unit) : Prop :=
  ∀ s s', x.run s = .ok () s' → y.run s.procs = .ok () s'.procs

namespace Simulates

variable {x x' : AM Unit} {y y' : PM Unit}

theorem bind (h : Simulates x y) (h' : Simulates x' y') : Simulates (x >>= fun _ => x') (y >>= fun _ => y') := by
  intro s s' hrun
  obtain ⟨_, s₁, hx, hx'⟩ := run_bind_eq_ok.mp hrun
  exact run_bind_eq_ok.mpr ⟨(), s₁.procs, h s s₁ hx, h' s₁ s' hx'⟩

/-- A program that changes arguments only comes before. -/
theorem bind_left (h : Moves (Kept ArgHeap.procs) x) (h' : Simulates x' y) : Simulates (x >>= fun _ => x') y := by
  intro s s' hrun
  obtain ⟨_, s₁, hx, hx'⟩ := run_bind_eq_ok.mp hrun
  have hkept : s₁.procs = s.procs := h.of_ok hx
  rw [← hkept]
  exact h' s₁ s' hx'

/-- It comes after. -/
theorem bind_right (h : Simulates x y) (h' : Moves (Kept ArgHeap.procs) x') : Simulates (x >>= fun _ => x') y := by
  intro s s' hrun
  obtain ⟨_, s₁, hx, hx'⟩ := run_bind_eq_ok.mp hrun
  have hkept : s'.procs = s₁.procs := h'.of_ok hx'
  rw [hkept]
  exact h s s₁ hx

theorem get_bind {f : ArgHeap → AM Unit} {g : ProcHeap → PM Unit} (h : ∀ s, Simulates (f s) (g s.procs)) :
    Simulates (get >>= f) (get >>= g) := by
  intro s s' hrun
  obtain ⟨_, _, hget, hx⟩ := run_bind_eq_ok.mp hrun
  cases hget
  have hget : (get : PM ProcHeap).run s.procs = .ok s.procs s.procs := rfl
  rw [run_bind_of_ok hget]
  exact h s s s' hx

theorem ite {p : Prop} [Decidable p] (h : p → Simulates x y) (h' : ¬p → Simulates x' y') :
    Simulates (if p then x else x') (if p then y else y') := by
  by_cases hp : p
  · rw [if_pos hp, if_pos hp]
    exact h hp
  · rw [if_neg hp, if_neg hp]
    exact h' hp

theorem pure : Simulates (pure ()) (pure ()) := by
  intro s s' hrun
  cases hrun
  rfl

theorem throw (e : ArgErr) (e' : ProcErr) : Simulates (throw e) (throw e') := by
  intro s s' hrun
  cases hrun

theorem modify (f : ProcHeap → ProcHeap) : Simulates (modify fun s => s.modifyProcs f) (modify f) := by
  intro s s' hrun
  cases hrun
  rfl

/-- A loop over base declarations. -/
theorem forM {l : List ProcVar} {f : ProcVar → AM Unit} {g : ProcAddr → PM Unit}
    (h : ∀ base, Simulates (f base) (g base.proc)) : Simulates (l.forM f) ((l.map ProcVar.proc).forM g) := by
  induction l with
  | nil => exact Simulates.pure
  | cons base l ih => exact (h base).bind ih

end Simulates

section Simulation

variable {D : ArgSchema}

/-- Updates change arguments only. -/
theorem moves_updateArgs (self : ProcAddr) (f : List ArgRef → Except ArgErr (List ArgRef)) :
    Moves (Kept ArgHeap.procs) (updateArgs self f) := by
  intro s
  rw [finalState, Kept]
  cases hf : f (s.argIdx self) with
  | error e => simp [updateArgs, EStateM.run, hf]
  | ok refs => simp [updateArgs, EStateM.run, hf]

/-- A returning update. -/
theorem updateArgs_ok {self : ProcAddr} {f : List ArgRef → Except ArgErr (List ArgRef)} {s s' : ArgHeap}
    (hrun : (updateArgs self f).run s = .ok () s') :
    ∃ refs, f (s.argIdx self) = .ok refs ∧ s' = s.setArgs self refs := by
  have hrun : updateArgs self f s = .ok () s' := hrun
  unfold updateArgs at hrun
  split at hrun
  · cases hrun
  · rename_i refs hf
    cases hrun
    exact ⟨refs, hf, rfl⟩

theorem simulates_resolveOnce {resolve : ProcAddr → AM Unit} {resolve' : ProcAddr → PM Unit}
    (h : ∀ p, Simulates (resolve p) (resolve' p)) (p : ProcAddr) :
    Simulates (resolveOnce resolve p) (Procs.resolveOnce resolve' p) :=
  Simulates.get_bind fun _ => Simulates.ite (fun _ => Simulates.pure) fun _ => h p

theorem simulates_resolveBases {resolve : ProcAddr → AM Unit} {resolve' : ProcAddr → PM Unit}
    (h : ∀ p, Simulates (resolve p) (resolve' p)) (p : ProcAddr) :
    Simulates (resolveBases D resolve p) (Procs.resolveBases D.procs resolve' p) := by
  refine Simulates.get_bind fun s => ?_
  refine Simulates.ite (fun _ => Simulates.throw _ _) fun _ => ?_
  refine Simulates.ite (fun _ => Simulates.throw _ _) fun _ => ?_
  refine (Simulates.modify _).bind (Simulates.bind ?_ (Simulates.modify _))
  exact Simulates.forM fun base => (simulates_resolveOnce h base.proc).bind (Simulates.modify _)

/-- **`knd_proc_resolve` apart from the arguments.** -/
theorem simulates_kndProcResolve (n : Nat) (p : ProcAddr) :
    Simulates (kndProcResolve D n p) (Procs.kndProcResolve D.procs n p) := by
  induction n generalizing p with
  | zero => exact Simulates.throw _ _
  | succ n ih =>
      refine Simulates.get_bind fun s => ?_
      refine Simulates.ite (fun _ => Simulates.throw _ _) fun _ => ?_
      refine (Simulates.modify _).bind ?_
      refine Simulates.bind_left (Moves.forM fun arg _ => moves_updateArgs _ _) ?_
      refine Simulates.bind (Simulates.ite (fun _ => Simulates.pure) fun _ => simulates_resolveBases ih p) ?_
      refine Simulates.bind (Simulates.forM fun base => ?_) ?_
      · refine (simulates_resolveOnce ih base.proc).bind_right ?_
        refine Moves.bind (Moves.modify fun s => rfl) fun _ => ?_
        exact Moves.forM fun var _ => moves_updateArgs _ _
      · refine Simulates.bind_left ?_ (Simulates.modify _)
        exact Moves.ite (fun _ => Moves.pure ()) fun _ => Moves.throw _

end Simulation

/-! ## (5) The references of a proc -/

section References

variable (D : ArgSchema) (argIdx : ProcAddr → List ArgRef)

/-- The references of a proc after one base declaration more. -/
def declareBase (refs : List ArgRef) (base : ProcVar) : Except ArgErr (List ArgRef) :=
  base.args.foldlM (resolveArgVar D) (inheritArgs refs (argIdx base.proc))

/-- **The references of a proc** from those of its bases. -/
def declareArgs (p : ProcAddr) : Except ArgErr (List ArgRef) :=
  (D.bases p).foldlM (declareBase D argIdx) ((D.args p).map fun arg => ⟨arg, none⟩)

end References

/-- **What holds between two resolutions.** -/
structure ArgSettled (D : ArgSchema) (s : ArgHeap) : Prop where
  /-- The procs are settled. -/
  procs : ProcSettled D.procs s.procs
  /-- A resolved proc has its references. -/
  declared : ∀ p, s.procs.Resolved p → declareArgs D s.argIdx p = .ok (s.argIdx p)
  /-- A resolved proc is not based on itself. -/
  grounded : ∀ p, s.procs.Resolved p → Acc (fun b q => D.procs.IsBase q b) p
  /-- A proc that was not started has none. -/
  fresh : ∀ p, (s.procs.cells p).resolvingInProgress = false → s.argIdx p = []

/-- **What the resolution of a proc leaves alone**: the procs that were started before. -/
structure ArgAdvanced (p : ProcAddr) (s s' : ArgHeap) : Prop where
  /-- They stay started. -/
  started : ∀ q, (s.procs.cells q).resolvingInProgress = true → (s'.procs.cells q).resolvingInProgress = true
  /-- They are resolved if they were. -/
  resolved : ∀ q, (s.procs.cells q).resolvingInProgress = true → (s'.procs.Resolved q ↔ s.procs.Resolved q)
  /-- Except for the proc itself they keep their references. -/
  argIdx : ∀ q, q ≠ p → (s.procs.cells q).resolvingInProgress = true → s'.argIdx q = s.argIdx q

/-- Resolved procs keep their references. -/
def ResolvedKept (s s' : ArgHeap) : Prop :=
  ∀ q, s.procs.Resolved q → s'.procs.Resolved q ∧ s'.argIdx q = s.argIdx q

/-- **The specification of `knd_proc_resolve`.** -/
def ResolvesArgs (D : ArgSchema) (resolve : ProcAddr → AM Unit) : Prop :=
  ∀ s s' p, ArgSettled D s → (resolve p).run s = .ok () s' →
    ArgSettled D s' ∧ ArgAdvanced p s s' ∧ (s.procs.cells p).resolvingInProgress = false ∧ s'.procs.Resolved p

/-- **A proc whose resolution is under way**, with the references `refs`, since the state `s`. -/
structure Ongoing (D : ArgSchema) (s : ArgHeap) (p : ProcAddr) (refs : List ArgRef) (s' : ArgHeap) : Prop where
  /-- The state is settled. -/
  settled : ArgSettled D s'
  /-- The others are left alone. -/
  advanced : ArgAdvanced p s s'
  /-- The proc is started. -/
  started : (s'.procs.cells p).resolvingInProgress = true
  /-- It is not resolved. -/
  open_ : ¬s'.procs.Resolved p
  /-- Its references. -/
  args : s'.argIdx p = refs

section Spec

variable {D : ArgSchema} {resolve : ProcAddr → AM Unit} {s s' s'' : ArgHeap} {p : ProcAddr} {refs refs' : List ArgRef}

theorem ArgAdvanced.refl (p : ProcAddr) (s : ArgHeap) : ArgAdvanced p s s :=
  ⟨fun _ h => h, fun _ _ => Iff.rfl, fun _ _ _ => rfl⟩

theorem ArgAdvanced.trans (h : ArgAdvanced p s s') (h' : ArgAdvanced p s' s'') : ArgAdvanced p s s'' := by
  refine ⟨fun q hq => h'.started q (h.started q hq), fun q hq => ?_, fun q hne hq => ?_⟩
  · rw [h'.resolved q (h.started q hq), h.resolved q hq]
  · rw [h'.argIdx q hne (h.started q hq), h.argIdx q hne hq]

theorem ResolvedKept.refl (s : ArgHeap) : ResolvedKept s s := fun _ hq => ⟨hq, rfl⟩

theorem ResolvedKept.trans (h : ResolvedKept s s') (h' : ResolvedKept s' s'') : ResolvedKept s s'' := by
  intro q hq
  obtain ⟨hq', heq⟩ := h q hq
  obtain ⟨hq'', heq'⟩ := h' q hq'
  exact ⟨hq'', heq'.trans heq⟩

/-- Resolved procs were started. -/
theorem ArgSettled.started (h : ArgSettled D s) (hp : s.procs.Resolved p) :
    (s.procs.cells p).resolvingInProgress = true := resolved_of_settled h.procs hp

/-- The bases of a resolved proc are resolved. -/
theorem ArgSettled.base_resolved (h : ArgSettled D s) (hp : s.procs.Resolved p) {base : ProcVar}
    (hbase : base ∈ D.bases p) : s.procs.Resolved base.proc :=
  (h.procs.linked p hp).1 _ (List.mem_map_of_mem hbase)

/-- Only the references of the bases matter. -/
theorem foldlM_declareBase_congr {argIdx argIdx' : ProcAddr → List ArgRef} {bases : List ProcVar}
    (h : ∀ base ∈ bases, argIdx' base.proc = argIdx base.proc) (refs : List ArgRef) :
    bases.foldlM (declareBase D argIdx') refs = bases.foldlM (declareBase D argIdx) refs := by
  induction bases generalizing refs with
  | nil => rfl
  | cons base bases ih =>
      have hbase : declareBase D argIdx' refs base = declareBase D argIdx refs base := by
        rw [declareBase, declareBase, h base (List.mem_cons_self ..)]
      rw [List.foldlM_cons, List.foldlM_cons, hbase]
      congr 1
      funext refs
      exact ih (fun base hmem => h base (List.mem_cons_of_mem _ hmem)) refs

/-- A resolved proc keeps what its references were made from. -/
theorem ArgSettled.declared_of_kept (h : ArgSettled D s) {argIdx : ProcAddr → List ArgRef} (hp : s.procs.Resolved p)
    (hkept : ∀ q, s.procs.Resolved q → argIdx q = s.argIdx q) : declareArgs D argIdx p = .ok (argIdx p) := by
  rw [hkept p hp, ← h.declared p hp]
  exact foldlM_declareBase_congr (fun base hbase => hkept _ (h.base_resolved hp hbase)) _

/-- A write to the procs that keeps which are resolved. -/
theorem ArgSettled.modifyProcs (h : ArgSettled D s) {f : ProcHeap → ProcHeap}
    (hprocs : ProcSettled D.procs (f s.procs))
    (hstarted : ∀ q, (s.procs.cells q).resolvingInProgress = true → ((f s.procs).cells q).resolvingInProgress = true)
    (hresolved : ∀ q, (f s.procs).Resolved q ↔ s.procs.Resolved q) (p : ProcAddr) :
    ArgSettled D (s.modifyProcs f) ∧ ArgAdvanced p s (s.modifyProcs f) := by
  refine ⟨⟨hprocs, fun q hq => h.declared q ((hresolved q).mp hq), fun q hq => h.grounded q ((hresolved q).mp hq),
    fun q hq => h.fresh q ?_⟩, hstarted, fun q _ => hresolved q, fun _ _ _ => rfl⟩
  cases hprog : (s.procs.cells q).resolvingInProgress with
  | false => rfl
  | true =>
      rw [ArgHeap.procs_modifyProcs, hstarted q hprog] at hq
      cases hq

/-- A write to the procs during the resolution. -/
theorem Ongoing.modifyProcs (h : Ongoing D s p refs s') {f : ProcHeap → ProcHeap}
    (hprocs : ProcSettled D.procs (f s'.procs))
    (hstarted : ∀ q, ((f s'.procs).cells q).resolvingInProgress = (s'.procs.cells q).resolvingInProgress)
    (hresolved : ∀ q, (f s'.procs).Resolved q ↔ s'.procs.Resolved q) :
    Ongoing D s p refs (s'.modifyProcs f) := by
  obtain ⟨hsettled, hadv⟩ := h.settled.modifyProcs hprocs (fun q hq => (hstarted q).trans hq) hresolved p
  exact ⟨hsettled, h.advanced.trans hadv, (hstarted p).trans h.started, fun hp => h.open_ ((hresolved p).mp hp),
    h.args⟩

/-- A mark of the proc itself. -/
theorem Ongoing.mark (h : Ongoing D s p refs s') {f : ProcCell → ProcCell}
    (hanc : ∀ cell, (f cell).ancestors = cell.ancestors) (hnum : ∀ cell, (f cell).numAncestors = cell.numAncestors)
    (hres : ∀ cell, (f cell).isResolved = cell.isResolved)
    (hprog : ∀ cell, (f cell).resolvingInProgress = cell.resolvingInProgress) :
    Ongoing D s p refs (s'.modifyCell p f) := by
  refine h.modifyProcs (h.settled.procs.mark (hanc _) (hnum _) (hres _) ((hprog _).trans h.started))
    (ProcHeap.read_modifyCell (hprog _)) fun q => ?_
  exact iff_of_eq (congrArg (· = true) (ProcHeap.read_modifyCell (hres _) q))

/-- A base is linked. -/
theorem Ongoing.link (h : Ongoing D s p refs s') {base : ProcVar} (hbase : base ∈ D.bases p) :
    Ongoing D s p refs (s'.modifyProcs fun procs => procs.linkBase p base.proc) := by
  have hmarks : ∀ q, ((s'.procs.linkBase p base.proc).cells q).marks = (s'.procs.cells q).marks := by
    intro q
    by_cases hq : q = p
    · rw [hq, ProcHeap.linkBase, ProcHeap.modifyCell_self, linkBase_marks]
    · rw [ProcHeap.linkBase, ProcHeap.modifyCell_of_ne _ _ hq]
  refine h.modifyProcs (h.settled.procs.linkBase (List.mem_map_of_mem hbase) h.started h.open_) (fun q => ?_)
    fun q => ?_
  · have hm := congrArg ProcCell.resolvingInProgress (hmarks q)
    exact hm
  · have hm := congrArg ProcCell.isResolved (hmarks q)
    exact iff_of_eq (congrArg (· = true) hm)

/-- The references of the proc change. -/
theorem Ongoing.setArgs (h : Ongoing D s p refs s') (refs' : List ArgRef) :
    Ongoing D s p refs' (s'.setArgs p refs') := by
  have hkept : ∀ q, q ≠ p → (s'.setArgs p refs').argIdx q = s'.argIdx q :=
    fun q hq => ArgHeap.argIdx_setArgs_of_ne _ hq _
  refine ⟨⟨h.settled.procs, fun q hq => ?_, h.settled.grounded, fun q hq => ?_⟩,
    h.advanced.trans ⟨fun _ hq => hq, fun _ _ => Iff.rfl, fun q hne _ => hkept q hne⟩, h.started, h.open_,
    ArgHeap.argIdx_setArgs_self _ _ _⟩
  · refine h.settled.declared_of_kept hq fun r hr => hkept r ?_
    rintro rfl
    exact h.open_ hr
  · have hqp : q ≠ p := by
      rintro rfl
      rw [ArgHeap.procs_setArgs, h.started] at hq
      cases hq
    rw [hkept q hqp]
    exact h.settled.fresh q hq

/-- Other procs keep theirs. -/
theorem Ongoing.kept_setArgs (h : Ongoing D s p refs s') (refs' : List ArgRef) :
    ResolvedKept s' (s'.setArgs p refs') := by
  intro q hq
  refine ⟨hq, ArgHeap.argIdx_setArgs_of_ne _ ?_ _⟩
  rintro rfl
  exact h.open_ hq

/-- A loop of updates. -/
theorem Ongoing.forM_updateArgs (h : Ongoing D s p refs s') {β : Type} {l : List β}
    {f : List ArgRef → β → Except ArgErr (List ArgRef)}
    (hrun : (l.forM fun b => updateArgs p fun refs => f refs b).run s' = .ok () s'') :
    ∃ refs', l.foldlM f refs = .ok refs' ∧ Ongoing D s p refs' s'' ∧ ResolvedKept s' s'' := by
  induction l generalizing refs s' with
  | nil =>
      cases hrun
      exact ⟨refs, rfl, h, .refl _⟩
  | cons b l ih =>
      obtain ⟨_, s₁, hround, hrest⟩ := run_bind_eq_ok.mp hrun
      obtain ⟨refs₁, hf, rfl⟩ := updateArgs_ok hround
      rw [h.args] at hf
      obtain ⟨refs', hfold, h', hkept⟩ := ih (h.setArgs refs₁) hrest
      refine ⟨refs', ?_, h', (h.kept_setArgs refs₁).trans hkept⟩
      rw [List.foldlM_cons, hf]
      exact hfold

/-- Another proc is resolved unless it is. -/
theorem Ongoing.resolveOnce (hresolve : ResolvesArgs D resolve) (h : Ongoing D s p refs s') {b : ProcAddr}
    (hrun : (ProcArgs.resolveOnce resolve b).run s' = .ok () s'') :
    Ongoing D s p refs s'' ∧ s''.procs.Resolved b ∧ ResolvedKept s' s'' := by
  rw [ProcArgs.resolveOnce] at hrun
  obtain ⟨_, _, hget, hrun⟩ := run_bind_eq_ok.mp hrun
  cases hget
  by_cases hres : (s'.procs.cells b).isResolved = true
  · rw [if_pos hres] at hrun
    cases hrun
    exact ⟨h, hres, .refl _⟩
  · rw [if_neg hres] at hrun
    obtain ⟨hsettled, hadv, hnew, hdone⟩ := hresolve s' s'' b h.settled hrun
    have hbp : p ≠ b := by
      rintro rfl
      rw [h.started] at hnew
      cases hnew
    have hkept : ∀ q, (s'.procs.cells q).resolvingInProgress = true → s''.argIdx q = s'.argIdx q := by
      intro q hq
      refine hadv.argIdx q ?_ hq
      rintro rfl
      rw [hq] at hnew
      cases hnew
    refine ⟨⟨hsettled, h.advanced.trans ⟨hadv.started, hadv.resolved, fun q _ hq => hkept q hq⟩,
      hadv.started p h.started, fun hp => h.open_ ((hadv.resolved p h.started).mp hp), ?_⟩, hdone,
      fun q hq => ⟨(hadv.resolved q (h.settled.started hq)).mpr hq, hkept q (h.settled.started hq)⟩⟩
    rw [hkept p h.started, h.args]

/-- The bases are resolved and linked. -/
theorem Ongoing.resolveBases (hresolve : ResolvesArgs D resolve) (h : Ongoing D s p refs s')
    (hrun : (ProcArgs.resolveBases D resolve p).run s' = .ok () s'') : Ongoing D s p refs s'' := by
  rw [ProcArgs.resolveBases] at hrun
  obtain ⟨_, _, hget, hrun⟩ := run_bind_eq_ok.mp hrun
  cases hget
  split at hrun
  · cases hrun
  split at hrun
  · cases hrun
  obtain ⟨_, s₀, hmark, hrun⟩ := run_bind_eq_ok.mp hrun
  cases hmark
  obtain ⟨_, s₁, hloop, hset⟩ := run_bind_eq_ok.mp hrun
  cases hset
  have h₁ : Ongoing D s p refs s₁ := by
    refine forM_ok_induction (fun _ t => Ongoing D s p refs t) hloop
      (h.mark (fun _ => rfl) (fun _ => rfl) (fun _ => rfl) fun _ => rfl) ?_
    intro pre base t t' hbase ht hround
    obtain ⟨_, t₁, hcall, hlink⟩ := run_bind_eq_ok.mp hround
    cases hlink
    exact (ht.resolveOnce hresolve hcall).1.link hbase
  exact h₁.mark (fun _ => rfl) (fun _ => rfl) (fun _ => rfl) fun _ => rfl

/-- **The arguments are inherited** base by base. -/
theorem Ongoing.forM_inheritBase (hresolve : ResolvesArgs D resolve) (h : Ongoing D s p refs s')
    {bases : List ProcVar} (hrun : (bases.forM (inheritBase D resolve p)).run s' = .ok () s'') :
    ∃ refs', bases.foldlM (declareBase D s''.argIdx) refs = .ok refs' ∧ Ongoing D s p refs' s'' ∧
      ResolvedKept s' s'' ∧ ∀ base ∈ bases, s''.procs.Resolved base.proc := by
  induction bases generalizing refs s' with
  | nil =>
      cases hrun
      exact ⟨refs, rfl, h, .refl _, fun base hbase => absurd hbase List.not_mem_nil⟩
  | cons base bases ih =>
      obtain ⟨_, s₂, hround, hrest⟩ := run_bind_eq_ok.mp hrun
      obtain ⟨_, s₁, hcall, hround⟩ := run_bind_eq_ok.mp hround
      obtain ⟨_, s₀, hset, hvars⟩ := run_bind_eq_ok.mp hround
      cases hset
      obtain ⟨h₁, hbase, hkept₁⟩ := h.resolveOnce hresolve hcall
      obtain ⟨refs₂, hfold₂, h₂, hkept₂⟩ := (h₁.setArgs _).forM_updateArgs hvars
      have hkept₂ := (h₁.kept_setArgs _).trans hkept₂
      obtain ⟨refs', hfold, h', hkept, hbases⟩ := ih h₂ hrest
      refine ⟨refs', ?_, h', hkept₁.trans (hkept₂.trans hkept),
        List.forall_mem_cons.mpr ⟨((hkept₂.trans hkept) _ hbase).1, hbases⟩⟩
      -- the base is resolved, so that its references have not changed since
      have hsame : s''.argIdx base.proc = s₁.argIdx base.proc := ((hkept₂.trans hkept) _ hbase).2
      rw [List.foldlM_cons, declareBase, hsame, ← h₁.args, hfold₂]
      exact hfold

/-- A proc is started. -/
theorem ArgSettled.start (h : ArgSettled D s) (hprog : (s.procs.cells p).resolvingInProgress = false)
    {f : ProcCell → ProcCell} (hanc : ∀ cell, (f cell).ancestors = cell.ancestors)
    (hnum : ∀ cell, (f cell).numAncestors = cell.numAncestors)
    (hres : ∀ cell, (f cell).isResolved = cell.isResolved) (hset : ∀ cell, (f cell).resolvingInProgress = true) :
    Ongoing D s p [] (s.modifyCell p f) := by
  have hresolved : ∀ q, (s.procs.modifyCell p f).Resolved q ↔ s.procs.Resolved q :=
    fun q => iff_of_eq (congrArg (· = true) (ProcHeap.read_modifyCell (hres _) q))
  have hself : ((s.procs.modifyCell p f).cells p).resolvingInProgress = true := by
    rw [ProcHeap.modifyCell_self]
    exact hset _
  have hstarted : ∀ q, (s.procs.cells q).resolvingInProgress = true →
      ((s.procs.modifyCell p f).cells q).resolvingInProgress = true := by
    intro q hq
    by_cases hqp : q = p
    · rw [hqp]
      exact hself
    · rw [ProcHeap.modifyCell_of_ne _ _ hqp]
      exact hq
  obtain ⟨hsettled, hadv⟩ :=
    h.modifyProcs (f := fun procs => procs.modifyCell p f) (h.procs.mark (hanc _) (hnum _) (hres _) (hset _))
      hstarted hresolved p
  refine ⟨hsettled, hadv, hself, fun hp => ?_, h.fresh p hprog⟩
  have hp := h.started ((hresolved p).mp hp)
  rw [hprog] at hp
  cases hp

/-- **A proc is resolved**, once its bases are and its references are there. -/
theorem Ongoing.finish (h : Ongoing D s p refs s') (hprog : (s.procs.cells p).resolvingInProgress = false)
    {f : ProcCell → ProcCell} (hkept : ∀ cell, (f cell).resolvingInProgress = cell.resolvingInProgress)
    (hprocs : ProcSettled D.procs (s'.procs.modifyCell p f)) (hbases : ∀ base ∈ D.bases p, s'.procs.Resolved base.proc)
    (hargs : declareArgs D s'.argIdx p = .ok refs) :
    ArgSettled D (s'.modifyCell p f) ∧ ArgAdvanced p s (s'.modifyCell p f) := by
  have hstarted : ∀ q, ((s'.procs.modifyCell p f).cells q).resolvingInProgress =
      (s'.procs.cells q).resolvingInProgress := ProcHeap.read_modifyCell (hkept _)
  have hresolved : ∀ q, q ≠ p → ((s'.procs.modifyCell p f).Resolved q ↔ s'.procs.Resolved q) := by
    intro q hq
    rw [ProcHeap.Resolved, ProcHeap.modifyCell_of_ne _ _ hq]
    exact Iff.rfl
  refine ⟨⟨hprocs, fun q hq => ?_, fun q hq => ?_, fun q hq => h.settled.fresh q ?_⟩,
    fun q hq => (hstarted q).trans (h.advanced.started q hq), fun q hq => ?_, h.advanced.argIdx⟩
  · by_cases hqp : q = p
    · rw [hqp, ArgHeap.argIdx_modifyCell, h.args]
      exact hargs
    · exact h.settled.declared q ((hresolved q hqp).mp hq)
  · by_cases hqp : q = p
    · rw [hqp]
      refine Acc.intro p fun b hb => ?_
      obtain ⟨base, hbase, rfl⟩ := List.mem_map.mp hb
      exact h.settled.grounded _ (hbases base hbase)
    · exact h.settled.grounded q ((hresolved q hqp).mp hq)
  · exact (hstarted q).symm.trans hq
  · have hqp : q ≠ p := by
      rintro rfl
      rw [hprog] at hq
      cases hq
    exact (hresolved q hqp).trans (h.advanced.resolved q hq)

/-- The own arguments come first. -/
theorem foldlM_addArg {args : List ArgAddr} (h : args.foldlM (addArg D) refs = .ok refs') :
    refs' = refs ++ args.map fun arg => ⟨arg, none⟩ := by
  induction args generalizing refs with
  | nil =>
      cases h
      exact (List.append_nil _).symm
  | cons arg args ih =>
      rw [List.foldlM_cons, addArg] at h
      split at h
      · rw [ih h, List.map_cons, List.append_assoc, List.singleton_append]
      · cases h

/-- **`knd_proc_resolve` meets its specification** however deep it is followed. -/
theorem kndProcResolve_spec (n : Nat) : ResolvesArgs D (kndProcResolve D n) := by
  induction n with
  | zero =>
      intro s s' p _ hrun
      cases hrun
  | succ n ih =>
      intro s s' p h hrun
      obtain ⟨hsettled, -, hdone⟩ := Procs.kndProcResolve_spec (n + 1) s.procs s'.procs p h.procs
        (simulates_kndProcResolve (n + 1) p s s' hrun)
      rw [kndProcResolve] at hrun
      obtain ⟨_, _, hget, hrun⟩ := run_bind_eq_ok.mp hrun
      cases hget
      split at hrun
      · cases hrun
      rename_i hprog
      have hprog : (s.procs.cells p).resolvingInProgress = false := by simpa using hprog
      obtain ⟨_, s₀, hmark, hrun⟩ := run_bind_eq_ok.mp hrun
      cases hmark
      obtain ⟨_, s₁, hargs, hrun⟩ := run_bind_eq_ok.mp hrun
      obtain ⟨_, s₂, hbases, hrun⟩ := run_bind_eq_ok.mp hrun
      obtain ⟨_, s₃, hinherit, hrun⟩ := run_bind_eq_ok.mp hrun
      obtain ⟨_, s₄, hresult, hset⟩ := run_bind_eq_ok.mp hrun
      have hsame : s₄ = s₃ := by
        split at hresult
        · cases hresult
          rfl
        · cases hresult
      subst hsame
      have h₀ : Ongoing D s p [] (s.modifyCell p fun cell => { cell with resolvingInProgress := true }) :=
        h.start hprog (fun _ => rfl) (fun _ => rfl) (fun _ => rfl) fun _ => rfl
      obtain ⟨refs, hown, h₁, -⟩ := h₀.forM_updateArgs hargs
      have h₂ : Ongoing D s p refs s₂ := by
        split at hbases
        · cases hbases
          exact h₁
        · exact h₁.resolveBases ih hbases
      obtain ⟨refs', hinherited, h₃, -, hresolved⟩ := h₂.forM_inheritBase ih hinherit
      cases hset
      have hdeclared : declareArgs D s₄.argIdx p = .ok refs' := by
        rw [declareArgs, ← List.nil_append (List.map _ _), ← foldlM_addArg hown]
        exact hinherited
      obtain ⟨hsettled', hadv'⟩ := h₃.finish (f := fun cell => { cell with isResolved := true }) hprog (fun _ => rfl)
        hsettled hresolved hdeclared
      exact ⟨hsettled', hadv', hprog, hdone⟩

/-- **A returning `resolve_procs`** has resolved every proc of the name index. -/
theorem resolveProcs_spec {depth : Nat} {order : List ProcAddr}
    (hrun : (resolveProcs D depth order).run {} = .ok () s') :
    ArgSettled D s' ∧ ∀ p ∈ order, s'.procs.Resolved p := by
  have hinit : ArgSettled D {} := by
    refine ⟨⟨fun _ => rfl, fun _ _ hx => absurd hx List.not_mem_nil, fun _ hp => absurd hp Bool.false_ne_true,
      fun _ _ => rfl⟩, fun _ hp => absurd hp Bool.false_ne_true, fun _ hp => absurd hp Bool.false_ne_true,
      fun _ _ => rfl⟩
  refine forM_ok_induction (fun pre s' => ArgSettled D s' ∧ ∀ p ∈ pre, s'.procs.Resolved p) hrun
    ⟨hinit, fun _ hp => absurd hp List.not_mem_nil⟩ ?_
  rintro pre p s₁ s₂ - ⟨h₁, hpre⟩ hround
  rw [ProcArgs.resolveOnce] at hround
  obtain ⟨_, _, hget, hround⟩ := run_bind_eq_ok.mp hround
  cases hget
  by_cases hres : (s₁.procs.cells p).isResolved = true
  · rw [if_pos hres] at hround
    cases hround
    refine ⟨h₁, fun q hq => ?_⟩
    rcases List.mem_append.mp hq with hq | hq
    · exact hpre q hq
    · rw [List.mem_singleton.mp hq]
      exact hres
  · rw [if_neg hres] at hround
    obtain ⟨h₂, hadv, -, hdone⟩ := kndProcResolve_spec depth s₁ s₂ p h₁ hround
    refine ⟨h₂, fun q hq => ?_⟩
    rcases List.mem_append.mp hq with hq | hq
    · exact (hadv.resolved q (h₁.started (hpre q hq))).mpr (hpre q hq)
    · rw [List.mem_singleton.mp hq]
      exact hdone

end Spec

/-! ## (6) What specialises an argument last -/

/-- The arguments that there are references to. -/
def argsOf (refs : List ArgRef) : List ArgAddr := refs.map ArgRef.arg

/-- The variable of an argument. -/
def varOf (refs : List ArgRef) (a : ArgAddr) : Option ArgVar := (getArg refs a).bind ArgRef.var

section Vars

variable {refs refs' src : List ArgRef} {a b : ArgAddr}

theorem getArg_isSome_iff : (getArg refs a).isSome ↔ a ∈ argsOf refs := by
  simp [getArg, argsOf]

theorem varOf_of_notMem (h : a ∉ argsOf refs) : varOf refs a = none := by
  have hget : getArg refs a = none := by simpa using mt getArg_isSome_iff.mp h
  rw [varOf, hget, Option.bind_none]

/-- A reference is the one that is found. -/
theorem varOf_of_mem (h : (argsOf refs).Nodup) {ref : ArgRef} (href : ref ∈ refs) : varOf refs ref.arg = ref.var := by
  induction refs with
  | nil => cases href
  | cons ref' refs ih =>
      obtain ⟨hnew, hrest⟩ := List.nodup_cons.mp h
      rcases List.mem_cons.mp href with rfl | href
      · rw [varOf, getArg, List.find?_cons_of_pos (by simp), Option.bind_some]
      · have hne : ref'.arg ≠ ref.arg := by
          intro heq
          exact hnew (heq ▸ List.mem_map_of_mem href)
        rw [varOf, getArg, List.find?_cons_of_neg (by simpa using hne)]
        exact ih hrest href

theorem argsOf_setVar (refs : List ArgRef) (a : ArgAddr) (var : ArgVar) : argsOf (setVar refs a var) = argsOf refs := by
  rw [argsOf, setVar, List.map_map, argsOf]
  refine List.map_congr_left fun ref _ => ?_
  by_cases h : ref.arg = a
  · simp [h]
  · simp [h]

theorem getArg_setVar (var : ArgVar) :
    getArg (setVar refs a var) b =
      (getArg refs b).map fun ref => if ref.arg = a then { ref with var := some var } else ref := by
  rw [getArg, setVar, List.find?_map]
  congr 2
  funext ref
  by_cases h : ref.arg = a
  · simp [h]
  · simp [h]

theorem varOf_setVar (var : ArgVar) :
    varOf (setVar refs a var) b = if b = a ∧ a ∈ argsOf refs then some var else varOf refs b := by
  rw [varOf, varOf, getArg_setVar]
  cases hget : getArg refs b with
  | none =>
      have hb : b ∉ argsOf refs := by
        rw [← getArg_isSome_iff, hget]
        exact Bool.false_ne_true
      have hne : ¬(b = a ∧ a ∈ argsOf refs) := by
        rintro ⟨rfl, hmem⟩
        exact hb hmem
      rw [if_neg hne]
      rfl
  | some ref =>
      have hb : ref.arg = b := by simpa using List.find?_some hget
      have hmem : b ∈ argsOf refs := by rw [← getArg_isSome_iff, hget, Option.isSome_some]
      by_cases hba : b = a
      · rw [if_pos ⟨hba, hba ▸ hmem⟩]
        simp [hb.trans hba]
      · rw [if_neg fun h => hba h.1]
        simp [hb, hba]

/-! ### Inheritance -/

theorem mem_argsOf_inheritArg {ref : ArgRef} : a ∈ argsOf (inheritArg refs ref) ↔ a ∈ argsOf refs ∨ a = ref.arg := by
  rw [inheritArg]
  split
  · rename_i hsome
    have hmem := getArg_isSome_iff.mp hsome
    have hiff : a ∈ argsOf refs ↔ a ∈ argsOf refs ∨ a = ref.arg :=
      ⟨.inl, fun h => h.elim id fun heq => heq ▸ hmem⟩
    split
    · rw [argsOf_setVar]
      exact hiff
    · exact hiff
  · simp [argsOf]

theorem nodup_inheritArg (h : (argsOf refs).Nodup) (ref : ArgRef) : (argsOf (inheritArg refs ref)).Nodup := by
  rw [inheritArg]
  split
  · split
    · rw [argsOf_setVar]
      exact h
    · exact h
  · rename_i hnone
    rw [argsOf, List.map_append]
    refine List.nodup_append.mpr ⟨h, List.nodup_singleton _, ?_⟩
    rintro a ha b hb rfl
    rw [List.map_singleton, List.mem_singleton] at hb
    exact hnone (getArg_isSome_iff.mpr (hb ▸ ha))

/-- An inherited variable takes the place of the one before. -/
theorem varOf_inheritArg (ref : ArgRef) :
    varOf (inheritArg refs ref) a = if a = ref.arg then ref.var.or (varOf refs a) else varOf refs a := by
  rw [inheritArg]
  split
  · rename_i hsome
    have hmem := getArg_isSome_iff.mp hsome
    split
    · rename_i var hvar
      rw [varOf_setVar, hvar, Option.some_or]
      by_cases ha : a = ref.arg
      · rw [if_pos ⟨ha, hmem⟩, if_pos ha]
      · rw [if_neg fun h => ha h.1, if_neg ha]
    · rename_i hvar
      rw [hvar, Option.none_or, ite_self]
  · rename_i hnone
    have hnew : ref.arg ∉ argsOf refs := mt getArg_isSome_iff.mpr hnone
    rw [varOf, getArg, List.find?_append]
    by_cases ha : a = ref.arg
    · rw [if_pos ha, ha, varOf_of_notMem hnew]
      have hget : refs.find? (fun ref' => ref'.arg = ref.arg) = none := by
        simpa [getArg] using mt getArg_isSome_iff.mp hnew
      simp [hget]
    · rw [if_neg ha, List.find?_cons_of_neg (by simpa [eq_comm] using ha), List.find?_nil, Option.or_none]
      rfl

theorem mem_argsOf_inheritArgs : a ∈ argsOf (inheritArgs refs src) ↔ a ∈ argsOf refs ∨ a ∈ argsOf src := by
  induction src generalizing refs with
  | nil => simp [inheritArgs, argsOf]
  | cons ref src ih =>
      rw [inheritArgs, List.foldl_cons, ← inheritArgs, ih, mem_argsOf_inheritArg]
      simp [argsOf, or_assoc, eq_comm]

theorem nodup_inheritArgs (h : (argsOf refs).Nodup) (src : List ArgRef) :
    (argsOf (inheritArgs refs src)).Nodup := by
  induction src generalizing refs with
  | nil => exact h
  | cons ref src ih => exact ih (nodup_inheritArg h ref)

/-- **What is inherited from a base** takes the place of what was there. -/
theorem varOf_inheritArgs (hsrc : (argsOf src).Nodup) :
    varOf (inheritArgs refs src) a = (varOf src a).or (varOf refs a) := by
  induction src generalizing refs with
  | nil => rfl
  | cons ref src ih =>
      obtain ⟨hnew, hrest⟩ := List.nodup_cons.mp hsrc
      rw [inheritArgs, List.foldl_cons, ← inheritArgs, ih hrest, varOf_inheritArg]
      by_cases ha : a = ref.arg
      · have hnone : varOf src a = none := varOf_of_notMem (ha ▸ hnew)
        have hself : varOf (ref :: src) a = ref.var := by
          rw [ha]
          exact varOf_of_mem hsrc (List.mem_cons_self ..)
        rw [if_pos ha, hnone, Option.none_or, hself]
      · rw [if_neg ha]
        congr 1
        rw [varOf, varOf, getArg, getArg, List.find?_cons_of_neg (by simpa [eq_comm] using ha)]

end Vars

/-! ### Specialisations -/

/-- What specialises an argument. -/
inductive Spec
  /-- What is inherited from a base. -/
  | inherited (base : ProcAddr) (var : ArgVar)
  /-- A variable in a base declaration of the proc. -/
  | own (var : ArgVar)

/-- Its variable. -/
def Spec.var : Spec → ArgVar
  | .inherited _ var => var
  | .own var => var

/-- What specialises an argument in a base declaration: what is inherited, then the variables. -/
def baseSpecs (vars : ProcAddr → Option ArgVar) (a : ArgAddr) (base : ProcVar) : List Spec :=
  ((vars base.proc).map (Spec.inherited base.proc)).toList ++ (base.args.filter fun var => var.arg = a).map Spec.own

/-- **What specialises an argument of a proc**, in the order of the code. -/
def specs (D : ArgSchema) (vars : ProcAddr → Option ArgVar) (p : ProcAddr) (a : ArgAddr) : List Spec :=
  (D.bases p).flatMap (baseSpecs vars a)

/-- **The variable of an argument**, by the declarations: what specialises it last. -/
inductive Specialised (D : ArgSchema) (a : ArgAddr) : ProcAddr → Option ArgVar → Prop
  /-- The bases have theirs. -/
  | intro (p : ProcAddr) (vars : ProcAddr → Option ArgVar)
      (h : ∀ base ∈ D.bases p, Specialised D a base.proc (vars base.proc)) :
      Specialised D a p ((specs D vars p a).getLast?.map Spec.var)

/-- A proc has an argument: its own, or one of a base. -/
inductive HasArg (D : ArgSchema) (a : ArgAddr) : ProcAddr → Prop
  /-- Its own. -/
  | own (p : ProcAddr) (h : a ∈ D.args p) : HasArg D a p
  /-- That of a base. -/
  | base (p : ProcAddr) (base : ProcVar) (hbase : base ∈ D.bases p) (h : HasArg D a base.proc) : HasArg D a p

/-- A variable is checked against the one before. -/
def Spec.Checked (D : ArgSchema) (x y : Spec) : Prop :=
  ∀ var, y = .own var → ∀ c c', x.var.val = some c → var.val = some c' → Descends D.classes c' c

/-- **What the references of a proc say of an argument** after the specialisations `l`. -/
structure Tracked (D : ArgSchema) (a : ArgAddr) (l : List Spec) (refs : List ArgRef) : Prop where
  /-- The last one is the variable. -/
  var : varOf refs a = l.getLast?.map Spec.var
  /-- Each was checked against the one before. -/
  checked : l.IsChain (Spec.Checked D)

section Specs

variable {D : ArgSchema} {vars vars' : ProcAddr → Option ArgVar} {a : ArgAddr} {p : ProcAddr} {l : List Spec}
  {refs refs' : List ArgRef} {argIdx : ProcAddr → List ArgRef}

theorem specs_congr (h : ∀ base ∈ D.bases p, vars base.proc = vars' base.proc) :
    specs D vars p a = specs D vars' p a := by
  refine List.flatMap_congr fun base hbase => ?_
  rw [baseSpecs, baseSpecs, h base hbase]

/-- The declarations decide. -/
theorem Specialised.unique {var var' : Option ArgVar} (h : Specialised D a p var) (h' : Specialised D a p var') :
    var = var' := by
  induction h generalizing var' with
  | intro p vars _ ih =>
      cases h' with
      | intro _ vars' h' => rw [specs_congr fun base hbase => ih base hbase (h' base hbase)]

theorem mem_specs_inherited {b : ProcAddr} {var : ArgVar} (h : Spec.inherited b var ∈ specs D vars p a) :
    ∃ base ∈ D.bases p, base.proc = b ∧ vars b = some var := by
  obtain ⟨base, hbase, hmem⟩ := List.mem_flatMap.mp h
  rw [baseSpecs, List.mem_append] at hmem
  rcases hmem with hmem | hmem
  · obtain ⟨var', hvar', heq⟩ := Option.map_eq_some_iff.mp (Option.mem_toList.mp hmem)
    cases heq
    exact ⟨base, hbase, rfl, hvar'⟩
  · obtain ⟨_, _, heq⟩ := List.mem_map.mp hmem
    cases heq

/-- **An accepted variable** replaces the one before, and was checked against it. -/
theorem resolveArgVar_ok {var : ArgVar} (h : resolveArgVar D refs var = .ok refs') :
    var.arg ∈ argsOf refs ∧ refs' = setVar refs var.arg var ∧
      ∀ c c', (varOf refs var.arg).bind ArgVar.val = some c → var.val = some c' → Descends D.classes c' c := by
  unfold resolveArgVar at h
  split at h
  · cases h
  rename_i ref hget
  refine ⟨by rw [← getArg_isSome_iff, hget, Option.isSome_some], ?_⟩
  have hvar : varOf refs var.arg = ref.var := by rw [varOf, hget, Option.bind_some]
  rw [hvar]
  split at h
  · rename_i hval
    cases h
    exact ⟨rfl, fun c c' _ hval' => by rw [hval] at hval'; cases hval'⟩
  rename_i entry hval
  split at h
  · cases h
  split at h
  · rename_i hnone
    cases h
    exact ⟨rfl, fun c c' hc _ => by rw [hnone] at hc; cases hc⟩
  rename_i c hc
  split at h
  · cases h
  split at h
  · rename_i hbase
    cases h
    refine ⟨rfl, fun c₀ c' hc₀ hval' => ?_⟩
    rw [hc] at hc₀
    rw [hval] at hval'
    cases hc₀
    cases hval'
    exact D.descends_of_isBase _ _ hbase
  · cases h

/-- One specialisation more. -/
theorem Tracked.snoc (h : Tracked D a l refs) {x : Spec} (hvar : varOf refs' a = some x.var)
    (hchecked : ∀ y, l.getLast? = some y → Spec.Checked D y x) : Tracked D a (l ++ [x]) refs' := by
  refine ⟨?_, List.isChain_append.mpr ⟨h.checked, List.isChain_singleton _, fun y hy x' hx' => ?_⟩⟩
  · rw [List.getLast?_concat, hvar]
    rfl
  · cases hx'
    exact hchecked y hy

/-- What is inherited from a base. -/
theorem Tracked.inherit (h : Tracked D a l refs) {src : List ArgRef} (hsrc : (argsOf src).Nodup) (b : ProcAddr) :
    Tracked D a (l ++ ((varOf src a).map (Spec.inherited b)).toList) (inheritArgs refs src) := by
  have hvar : varOf (inheritArgs refs src) a = (varOf src a).or (varOf refs a) := varOf_inheritArgs hsrc
  cases hsome : varOf src a with
  | none =>
      rw [hsome, Option.none_or] at hvar
      rw [Option.map_none, Option.toList_none, List.append_nil]
      exact ⟨hvar.trans h.var, h.checked⟩
  | some var =>
      rw [hsome, Option.some_or] at hvar
      refine h.snoc (x := .inherited b var) hvar fun y _ var' heq => ?_
      cases heq

/-- The variables of a base declaration. -/
theorem Tracked.own (h : Tracked D a l refs) {args : List ArgVar}
    (hrun : args.foldlM (resolveArgVar D) refs = .ok refs') :
    Tracked D a (l ++ (args.filter fun var => var.arg = a).map Spec.own) refs' := by
  induction args generalizing l refs with
  | nil =>
      cases hrun
      rw [List.filter_nil, List.map_nil, List.append_nil]
      exact h
  | cons var args ih =>
      rw [List.foldlM_cons, bind_eq_ok] at hrun
      obtain ⟨refs₁, hround, hrun⟩ := hrun
      obtain ⟨hmem, rfl, hchecked⟩ := resolveArgVar_ok hround
      have hvar : varOf (setVar refs var.arg var) a = if a = var.arg ∧ var.arg ∈ argsOf refs then some var
          else varOf refs a := varOf_setVar var
      by_cases ha : var.arg = a
      · rw [if_pos ⟨ha.symm, hmem⟩] at hvar
        rw [List.filter_cons_of_pos (by simpa using ha), List.map_cons, List.append_cons]
        refine ih (h.snoc (x := .own var) hvar fun y hy var' heq c c' hc hc' => ?_) hrun
        cases heq
        refine hchecked c c' ?_ hc'
        rw [ha, h.var, hy]
        exact hc
      · rw [if_neg fun heq => ha heq.1.symm] at hvar
        rw [List.filter_cons_of_neg (by simpa using ha)]
        exact ih ⟨hvar.trans h.var, h.checked⟩ hrun

/-- The base declarations. -/
theorem Tracked.bases (h : Tracked D a l refs) {bases : List ProcVar}
    (hnodup : ∀ base ∈ bases, (argsOf (argIdx base.proc)).Nodup)
    (hrun : bases.foldlM (declareBase D argIdx) refs = .ok refs') :
    Tracked D a (l ++ bases.flatMap (baseSpecs (fun b => varOf (argIdx b) a) a)) refs' := by
  induction bases generalizing l refs with
  | nil =>
      cases hrun
      rw [List.flatMap_nil, List.append_nil]
      exact h
  | cons base bases ih =>
      rw [List.foldlM_cons, bind_eq_ok] at hrun
      obtain ⟨refs₁, hround, hrun⟩ := hrun
      obtain ⟨hbase, hbases⟩ := List.forall_mem_cons.mp hnodup
      rw [List.flatMap_cons, ← List.append_assoc, baseSpecs, ← List.append_assoc]
      exact ih ((h.inherit hbase base.proc).own hround) hbases hrun

/-- The variables of a base declaration leave the arguments alone. -/
theorem argsOf_foldlM_resolveArgVar {args : List ArgVar} (hrun : args.foldlM (resolveArgVar D) refs = .ok refs') :
    argsOf refs' = argsOf refs := by
  induction args generalizing refs with
  | nil =>
      cases hrun
      rfl
  | cons var args ih =>
      rw [List.foldlM_cons, bind_eq_ok] at hrun
      obtain ⟨refs₁, hround, hrun⟩ := hrun
      obtain ⟨-, rfl, -⟩ := resolveArgVar_ok hround
      rw [ih hrun, argsOf_setVar]

/-- **The arguments of a proc**: its own and those of its bases, each once. -/
theorem argsOf_declareBases {bases : List ProcVar} (hnodup : (argsOf refs).Nodup)
    (hrun : bases.foldlM (declareBase D argIdx) refs = .ok refs') :
    (argsOf refs').Nodup ∧
      (a ∈ argsOf refs' ↔ a ∈ argsOf refs ∨ ∃ base ∈ bases, a ∈ argsOf (argIdx base.proc)) := by
  induction bases generalizing refs with
  | nil =>
      cases hrun
      exact ⟨hnodup, by simp⟩
  | cons base bases ih =>
      rw [List.foldlM_cons, bind_eq_ok] at hrun
      obtain ⟨refs₁, hround, hrun⟩ := hrun
      have hargs := argsOf_foldlM_resolveArgVar hround
      obtain ⟨hnodup', hmem⟩ := ih (hargs ▸ nodup_inheritArgs hnodup _) hrun
      refine ⟨hnodup', ?_⟩
      rw [hmem, hargs, mem_argsOf_inheritArgs, or_assoc, List.exists_mem_cons_iff]

end Specs

section Resolved

variable {D : ArgSchema} {s : ArgHeap} {p : ProcAddr} {a : ArgAddr}

theorem argsOf_own (D : ArgSchema) (p : ProcAddr) :
    argsOf ((D.args p).map fun arg => ⟨arg, none⟩) = D.args p := by
  rw [argsOf, List.map_map]
  exact List.map_id _

theorem varOf_own (D : ArgSchema) (p : ProcAddr) (a : ArgAddr) :
    varOf ((D.args p).map fun arg => ⟨arg, none⟩) a = none := by
  rw [varOf, getArg, List.find?_map]
  cases (D.args p).find? _ <;> rfl

/-- There is one reference to each argument of a resolved proc. -/
theorem ArgSettled.nodup (h : ArgSettled D s) (hp : s.procs.Resolved p) : (argsOf (s.argIdx p)).Nodup := by
  refine (argsOf_declareBases (a := 0) ?_ (h.declared p hp)).1
  rw [argsOf_own]
  exact D.args_nodup p

theorem ArgSettled.mem_argsOf_iff (h : ArgSettled D s) (hp : s.procs.Resolved p) :
    a ∈ argsOf (s.argIdx p) ↔ a ∈ D.args p ∨ ∃ base ∈ D.bases p, a ∈ argsOf (s.argIdx base.proc) := by
  have hown := argsOf_own D p
  have hmem := (argsOf_declareBases (a := a) (hown.symm ▸ D.args_nodup p) (h.declared p hp)).2
  rwa [hown] at hmem

/-- **The arguments of a resolved proc** by the declarations. -/
theorem ArgSettled.hasArg_iff (h : ArgSettled D s) (hp : s.procs.Resolved p) :
    HasArg D a p ↔ a ∈ argsOf (s.argIdx p) := by
  constructor
  · intro hhas
    induction hhas with
    | own p hown => exact (h.mem_argsOf_iff hp).mpr (.inl hown)
    | base p base hbase _ ih =>
        exact (h.mem_argsOf_iff hp).mpr (.inr ⟨base, hbase, ih (h.base_resolved hp hbase)⟩)
  · induction h.grounded p hp with
    | intro p _ ih =>
        intro hmem
        rcases (h.mem_argsOf_iff hp).mp hmem with hown | ⟨base, hbase, hmem⟩
        · exact .own p hown
        · exact .base p base hbase
            (ih base.proc (List.mem_map_of_mem hbase) (h.base_resolved hp hbase) hmem)

/-- What specialises an argument of a resolved proc. -/
theorem ArgSettled.tracked (h : ArgSettled D s) (hp : s.procs.Resolved p) (a : ArgAddr) :
    Tracked D a (specs D (fun b => varOf (s.argIdx b) a) p a) (s.argIdx p) := by
  have hinit : Tracked D a [] ((D.args p).map fun arg => ⟨arg, none⟩) := ⟨varOf_own D p a, List.isChain_nil⟩
  exact hinit.bases (fun base hbase => h.nodup (h.base_resolved hp hbase)) (h.declared p hp)

/-- **The variable of an argument of a resolved proc** by the declarations. -/
theorem ArgSettled.specialised (h : ArgSettled D s) (hp : s.procs.Resolved p) (a : ArgAddr) :
    Specialised D a p (varOf (s.argIdx p) a) := by
  induction h.grounded p hp with
  | intro p _ ih =>
      rw [(h.tracked hp a).var]
      exact .intro p _ fun base hbase => ih base.proc (List.mem_map_of_mem hbase) (h.base_resolved hp hbase)

end Resolved

/-! ## (7) Narrowing -/

/-- A template narrows another: it descends from it. An argument without a template takes any. -/
def ArgSchema.Narrows (D : ArgSchema) (t t' : Option Hierarchy.Addr) : Prop :=
  ∀ c', t' = some c' → ∃ c, t = some c ∧ Descends D.classes c c'

/-- **The arguments of a proc are narrowed.** -/
structure Narrowed (D : ArgSchema) (argIdx : ProcAddr → List ArgRef) (p : ProcAddr) : Prop where
  /-- Each template descends from the declared one. -/
  declared : ∀ ref ∈ argIdx p, D.Narrows (D.template ref.arg ref.var) (D.arg ref.arg).classname
  /-- It descends from that in each base. -/
  bases : ∀ base ∈ D.bases p, ∀ ref ∈ argIdx p, ∀ src ∈ argIdx base.proc, src.arg = ref.arg →
    D.Narrows (D.template ref.arg ref.var) (D.template src.arg src.var)

/-- The base that the last specialisation, which comes first here, was inherited from or checked against. -/
def heeded : List Spec → Option ProcAddr
  | .inherited b _ :: _ => some b
  | .own var :: .inherited b var' :: _ => if var.val.isSome ∧ var'.val.isSome then some b else none
  | _ => none

/-- **The last specialisation of an argument heeds what the code does not check**: the template of every other base,
and the declared one where there is no such base. -/
structure Heeds (D : ArgSchema) (vars : ProcAddr → Option ArgVar) (p : ProcAddr) (a : ArgAddr) : Prop where
  /-- The declared template. -/
  declared : heeded (specs D vars p a).reverse = none →
    D.Narrows (D.template a ((specs D vars p a).getLast?.map Spec.var)) (D.arg a).classname
  /-- The templates of the bases. -/
  bases : ∀ base ∈ D.bases p, HasArg D a base.proc → heeded (specs D vars p a).reverse ≠ some base.proc →
    D.Narrows (D.template a ((specs D vars p a).getLast?.map Spec.var)) (D.template a (vars base.proc))

/-- The arguments of a proc heed it. -/
def ArgsHeed (D : ArgSchema) (p : ProcAddr) : Prop :=
  ∀ a, HasArg D a p → ∀ vars, (∀ base ∈ D.bases p, Specialised D a base.proc (vars base.proc)) → Heeds D vars p a
section Narrowing

variable {D : ArgSchema} {s : ArgHeap} {p b : ProcAddr} {a : ArgAddr} {vars : ProcAddr → Option ArgVar}

theorem Descends.trans {G : Hierarchy.Schema} {c c' c'' : Hierarchy.Addr} (h : Descends G c c')
    (h' : Descends G c' c'') : Descends G c c'' := by
  rcases h' with hroot | hpath'
  · exact .inl hroot
  rcases h with rfl | hpath
  · -- nothing is above the root
    rcases hpath'.cases_head with heq | ⟨b, hb, -⟩
    · exact .inl heq.symm
    · rw [Hierarchy.Schema.IsBase, Hierarchy.Schema.bases_root] at hb
      cases hb
  · exact .inr (hpath.trans hpath')

theorem ArgSchema.Narrows.refl (D : ArgSchema) (t : Option Hierarchy.Addr) : D.Narrows t t :=
  fun c hc => ⟨c, hc, .inr .refl⟩

theorem ArgSchema.Narrows.trans {t t' t'' : Option Hierarchy.Addr} (h : D.Narrows t t') (h' : D.Narrows t' t'') :
    D.Narrows t t'' := by
  intro c'' hc''
  obtain ⟨c', hc', hdesc'⟩ := h' c'' hc''
  obtain ⟨c, hc, hdesc⟩ := h c' hc'
  exact ⟨c, hc, hdesc.trans hdesc'⟩

/-- The same, argument by argument. -/
theorem ArgSettled.narrowed_iff_template (h : ArgSettled D s) (hp : s.procs.Resolved p) :
    Narrowed D s.argIdx p ↔ ∀ a, HasArg D a p →
      D.Narrows (D.template a (varOf (s.argIdx p) a)) (D.arg a).classname ∧
        ∀ base ∈ D.bases p, HasArg D a base.proc →
          D.Narrows (D.template a (varOf (s.argIdx p) a)) (D.template a (varOf (s.argIdx base.proc) a)) := by
  constructor
  · intro hnarrowed a hhas
    obtain ⟨ref, href, rfl⟩ := List.mem_map.mp ((h.hasArg_iff hp).mp hhas)
    rw [varOf_of_mem (h.nodup hp) href]
    refine ⟨hnarrowed.declared ref href, fun base hbase hhas' => ?_⟩
    have hbp := h.base_resolved hp hbase
    obtain ⟨src, hsrc, heq⟩ := List.mem_map.mp ((h.hasArg_iff hbp).mp hhas')
    rw [← heq, varOf_of_mem (h.nodup hbp) hsrc, heq, ← heq]
    have hbases := hnarrowed.bases base hbase ref href src hsrc heq
    rwa [← heq] at hbases
  · intro hall
    refine ⟨fun ref href => ?_, fun base hbase ref href src hsrc heq => ?_⟩
    · have hhas := (h.hasArg_iff hp).mpr (List.mem_map_of_mem href)
      rw [← varOf_of_mem (h.nodup hp) href]
      exact (hall _ hhas).1
    · have hhas := (h.hasArg_iff hp).mpr (List.mem_map_of_mem href)
      have hbp := h.base_resolved hp hbase
      have hhas' := (h.hasArg_iff hbp).mpr (List.mem_map_of_mem hsrc)
      rw [← varOf_of_mem (h.nodup hp) href, ← varOf_of_mem (h.nodup hbp) hsrc, heq]
      rw [heq] at hhas'
      exact (hall _ hhas).2 base hbase hhas'

/-- **What the code sees to**: the base that the last specialisation was inherited from or checked against. -/
theorem narrows_of_heeded {refs : List ArgRef} (h : Tracked D a (specs D vars p a) refs)
    (hb : heeded (specs D vars p a).reverse = some b) :
    (∃ base ∈ D.bases p, base.proc = b) ∧ (vars b).isSome ∧ D.Narrows (D.template a (varOf refs a))
      (D.template a (vars b)) := by
  rw [h.var]
  obtain ⟨l, hl⟩ : ∃ l : List Spec, specs D vars p a = l.reverse := ⟨_, (List.reverse_reverse _).symm⟩
  have hchecked := h.checked
  have hmem : ∀ x ∈ l, x ∈ specs D vars p a := fun x hx => hl ▸ List.mem_reverse.mpr hx
  rw [hl] at hchecked ⊢
  rw [hl, List.reverse_reverse] at hb
  cases l with
  | nil => cases hb
  | cons x l =>
      rw [List.reverse_cons, List.getLast?_concat]
      cases x with
      | inherited b' var =>
          cases hb
          obtain ⟨base, hbase, heq, hvar⟩ := mem_specs_inherited (hmem _ (List.mem_cons_self ..))
          rw [hvar]
          exact ⟨⟨base, hbase, heq⟩, rfl, .refl D _⟩
      | own var =>
          cases l with
          | nil => cases hb
          | cons y l =>
              cases y with
              | own var' => cases hb
              | inherited b' var' =>
                  rw [heeded] at hb
                  split at hb
                  · rename_i hvals
                    cases hb
                    obtain ⟨base, hbase, heq, hvar⟩ :=
                      mem_specs_inherited (hmem _ (List.mem_cons_of_mem _ (List.mem_cons_self ..)))
                    obtain ⟨c, hc⟩ := Option.isSome_iff_exists.mp hvals.1
                    obtain ⟨c', hc'⟩ := Option.isSome_iff_exists.mp hvals.2
                    rw [List.reverse_cons, List.reverse_cons, List.append_assoc, List.singleton_append,
                      List.isChain_append_cons_cons] at hchecked
                    rw [hvar]
                    refine ⟨⟨base, hbase, heq⟩, rfl, fun c₀ hc₀ => ⟨c, by simp [ArgSchema.template, Spec.var, hc], ?_⟩⟩
                    have hc₀ : c' = c₀ := by simpa [ArgSchema.template, hc'] using hc₀
                    rw [← hc₀]
                    exact hchecked.2.1 var rfl c' c hc' hc
                  · cases hb

/-- **One proc** whose bases are narrowed. -/
theorem ArgSettled.narrowed_iff_argsHeed (h : ArgSettled D s) (hp : s.procs.Resolved p)
    (hbases : ∀ base ∈ D.bases p, Narrowed D s.argIdx base.proc) : Narrowed D s.argIdx p ↔ ArgsHeed D p := by
  rw [h.narrowed_iff_template hp]
  have hspecialised : ∀ a, ∀ base ∈ D.bases p, Specialised D a base.proc (varOf (s.argIdx base.proc) a) :=
    fun a base hbase => h.specialised (h.base_resolved hp hbase) a
  constructor
  · intro hnarrowed a hhas vars hvars
    have hsame : ∀ base ∈ D.bases p, vars base.proc = varOf (s.argIdx base.proc) a :=
      fun base hbase => (hvars base hbase).unique (hspecialised a base hbase)
    obtain ⟨hdeclared, hbase⟩ := hnarrowed a hhas
    have hvar : (specs D vars p a).getLast?.map Spec.var = varOf (s.argIdx p) a := by
      have hspecs : specs D vars p a = specs D (fun b => varOf (s.argIdx b) a) p a := specs_congr hsame
      rw [hspecs, (h.tracked hp a).var]
    refine ⟨fun _ => ?_, fun base hmem hhas' _ => ?_⟩
    · rw [hvar]
      exact hdeclared
    · rw [hvar, hsame base hmem]
      exact hbase base hmem hhas'
  · intro hheed a hhas
    obtain ⟨hdeclared, hbase⟩ := hheed a hhas (fun b => varOf (s.argIdx b) a) (hspecialised a)
    have htracked := h.tracked hp a
    rw [← htracked.var] at hdeclared hbase
    cases hb : heeded (specs D (fun b => varOf (s.argIdx b) a) p a).reverse with
    | none => exact ⟨hdeclared hb, fun base hmem hhas' => hbase base hmem hhas' (by simp [hb])⟩
    | some b =>
        obtain ⟨⟨base, hmem, rfl⟩, hsome, hnarrows⟩ := narrows_of_heeded htracked hb
        refine ⟨?_, fun base' hmem' hhas' => ?_⟩
        · have hbp := h.base_resolved hp hmem
          have hhas' : HasArg D a base.proc := by
            refine (h.hasArg_iff hbp).mpr ?_
            by_contra hnot
            rw [varOf_of_notMem hnot] at hsome
            cases hsome
          exact hnarrows.trans ((h.narrowed_iff_template hbp).mp (hbases base hmem) a hhas').1
        · by_cases heq : base'.proc = base.proc
          · rw [heq]
            exact hnarrows
          · exact hbase base' hmem' hhas' fun heq' => heq (Option.some.inj (hb.symm.trans heq')).symm

/-- **When arguments are only narrowed.** After `resolve_procs` has gone through the name index in any order, every
argument of every proc is narrowed if and only if, in every proc, what specialises an argument last heeds the
templates that the code does not check it against. -/
theorem narrowed_iff (D : ArgSchema) {depth : Nat} {order : List ProcAddr} (horder : order.Perm D.names)
    (hrun : (resolveProcs D depth order).run {} = .ok () s) :
    (∀ p ∈ D.names, Narrowed D s.argIdx p) ↔ ∀ p ∈ D.names, ArgsHeed D p := by
  obtain ⟨h, hall⟩ := resolveProcs_spec hrun
  have hres : ∀ p ∈ D.names, s.procs.Resolved p := fun p hp => hall p (horder.mem_iff.mpr hp)
  constructor
  · intro hnarrowed p hp
    exact (h.narrowed_iff_argsHeed (hres p hp) fun base hbase => hnarrowed _ (D.proc_mem p base hbase)).mp
      (hnarrowed p hp)
  · intro hheed p hp
    -- from the bases to the procs based on them
    induction h.grounded p (hres p hp) with
    | intro p _ ih =>
        refine (h.narrowed_iff_argsHeed (hres p hp) fun base hbase => ?_).mpr (hheed p hp)
        exact ih base.proc (List.mem_map_of_mem hbase) (D.proc_mem p base hbase)

end Narrowing

/-! ## (8) Performances -/

/-- `knd_is_base` is right where the ancestor lists are. -/
theorem descends_of_quiet {G : Hierarchy.Schema} {old : Hierarchy.Addr → List Hierarchy.Addr} {s : Hierarchy.Heap}
    (h : Hierarchy.Quiet G old s) {c c' : Hierarchy.Addr}
    (hreturns : returns (Hierarchy.kndIsBase c' c) s = true) : Descends G c c' := by
  by_cases hroot : c' = G.root
  · exact .inl hroot
  · exact .inr (h.linked.sound c c' ((Hierarchy.returns_kndIsBase_iff hroot).mp hreturns)).to_reflTransGen

/-- The memory of the classes of `concerts`, once they are resolved. -/
def concertHeap : Hierarchy.Heap :=
  finalState (Hierarchy.resolveClasses Hierarchy.concerts .bulkLoad 4 [3, 1, 2]) .initial

theorem descends_concertHeap (c c' : Hierarchy.Addr) (h : returns (Hierarchy.kndIsBase c' c) concertHeap = true) :
    Descends Hierarchy.concerts c c' := by
  obtain ⟨_, hrun⟩ := returns_iff.mp (by decide +kernel :
    returns (Hierarchy.resolveClasses Hierarchy.concerts .bulkLoad 4 [3, 1, 2]) .initial = true)
  exact descends_of_quiet ((Hierarchy.settled_initial Hierarchy.concerts).resolveClasses hrun).settled.toQuiet h

/-- The base declaration of `perform`, with a variable for the argument of `play`. -/
def performBases (c : Hierarchy.Addr) (p : ProcAddr) : List ProcVar := if p = 2 then [⟨1, [⟨1, some c⟩]⟩] else []

/-- The argument of `play`. -/
def playArgs (p : ProcAddr) : List ArgAddr := if p = 1 then [1] else []

theorem playArgs_nodup (p : ProcAddr) : (playArgs p).Nodup := by
  rw [playArgs]
  split <;> simp

theorem performBases_mem (c : Hierarchy.Addr) (p : ProcAddr) : ∀ base ∈ performBases c p, base.proc ∈ [1, 2] := by
  intro base hbase
  rw [performBases] at hbase
  split at hbase
  · rw [List.mem_singleton.mp hbase]
    exact List.mem_cons_self ..
  · cases hbase

/-- `play` has an argument for an `Event`; `perform` is based on it and specialises the argument. -/
def performs (c : Hierarchy.Addr) : ArgSchema where
  classes := Hierarchy.concerts
  classHeap := concertHeap
  names := [1, 2]
  arg _ := ⟨some 2, none⟩
  args := playArgs
  bases := performBases c
  args_nodup := playArgs_nodup
  proc_mem := performBases_mem c
  descends_of_isBase := descends_concertHeap

/-- `perform` takes a `Concert`. -/
theorem narrowed_iff_performs :
    (∀ p ∈ (performs 3).names, Narrowed (performs 3) (finalState (resolveProcs (performs 3) 3 [2, 1]) {}).argIdx p) ↔
      ∀ p ∈ (performs 3).names, ArgsHeed (performs 3) p := by
  obtain ⟨_, hrun⟩ := returns_iff.mp (by decide +kernel :
    returns (resolveProcs (performs 3) 3 [2, 1]) {} = true)
  exact narrowed_iff (performs 3) (by decide) hrun

/-- **`perform` takes any `Thing`**, although `play` takes an `Event`: its variable is the first, and is not checked
against the declared template. -/
theorem not_narrowed_performs :
    returns (resolveProcs (performs 1) 3 [2, 1]) {} = true ∧
      ¬∀ p ∈ (performs 1).names,
        Narrowed (performs 1) (finalState (resolveProcs (performs 1) 3 [2, 1]) {}).argIdx p := by
  refine ⟨by decide +kernel, fun h => ?_⟩
  have href : (⟨1, some ⟨1, some 1⟩⟩ : ArgRef) ∈ (finalState (resolveProcs (performs 1) 3 [2, 1]) {}).argIdx 2 := by
    decide +kernel
  obtain ⟨c, hc, hdesc⟩ := (h 2 (by decide)).declared _ href 2 rfl
  cases hc
  rcases hdesc with hroot | hpath
  · cases hroot
  · rcases hpath.cases_head with heq | ⟨b, hb, -⟩
    · cases heq
    · revert hb
      simp [Hierarchy.Schema.IsBase, Hierarchy.Schema.bases, performs, Hierarchy.concerts, Hierarchy.concertBases]

end Knowdy.ProcArgs
