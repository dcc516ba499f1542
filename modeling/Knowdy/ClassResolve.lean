import Knowdy.KndSet
import Mathlib.Logic.Function.Basic
import Mathlib.Logic.Relation

/-! # Resolution of classes

`knd_class.resolve.c` and `knd_attr_var.resolve.c`: after the sources are read, every class of the name
index is resolved. Resolution walks along the declared bases, whose ancestor lists it copies, and along the
classes that attribute values name, in memory that marks the classes on the way.

* `Schema` — the declarations; `Heap` — the memory of the classes.
* `resolveBase`, `kndResolveClassRef` — bases; `kndResolveAttrVars` — attribute values; `kndClassResolve`,
  `resolveClasses` — classes.
* `Step`, `childSteps` — the steps of a list of values; `resolveChildren_eq`: the code performs them. -/

namespace Knowdy.Hierarchy

open Relation

/-- The address of a class together with its entry. -/
abbrev Addr := Nat

/-! ## (1) Declarations -/

/-- `knd_attr_type`. -/
inductive AttrType
  | none | atom | str | bin | cdata | inner | text | cg | num | float | time | date | bool | prob | ref | rel
  | attrRef | procRef | procArgRef | file
  deriving DecidableEq, Repr

/-- `knd_rel_type`. -/
inductive RelType
  | default | classInst | subclass
  deriving DecidableEq, Repr

/-- `struct kndAttr`, as far as the resolution of values reads it. Classes are bound by their names. -/
structure Attr where
  /-- `type`. -/
  type : AttrType
  /-- `is_a_set`. -/
  isASet : Bool := false
  /-- `is_required`. -/
  isRequired : Bool := false
  /-- `ref_classname`, the template class. -/
  refClass : Option Addr := none
  /-- `impl_arg->classname`, the template of the argument that a relation value fills. -/
  implArg : Option Addr := none
  /-- `rel_type`. -/
  relType : RelType := .default

/-- `struct kndAttrVar`: a value of the attribute that its name stands for. -/
inductive AttrVar
  /-- The attribute, the class that the value names, whether it names an instance, `list` and `children`. -/
  | mk (attr : Attr) (val : Option Addr) (instName : Bool) (list children : List AttrVar)

/-- `struct kndClassVar`: a declared base with values for its attributes. -/
structure ClassVar where
  /-- `entry`. -/
  entry : Addr
  /-- `attrs`. -/
  attrs : List AttrVar := []

/-- **The declarations of a repository.** Bases are classes of the name index, and the root is none. -/
structure Schema where
  /-- `root_class`. -/
  root : Addr
  /-- `class_name_idx`. -/
  names : List Addr
  /-- `baseclass_vars` of a class. -/
  baseclassVars : Addr → List ClassVar
  /-- `implied_attr` of a resolved class. -/
  impliedAttr : Addr → Option Attr := fun _ => none
  /-- The root is not in the name index. -/
  root_notMem : root ∉ names
  /-- The root has no bases. -/
  baseclassVars_root : baseclassVars root = []
  /-- Bases name existing classes. -/
  entry_mem : ∀ c, ∀ cvar ∈ baseclassVars c, cvar.entry ∈ names

namespace Schema

variable (G : Schema)

/-- The declared bases of a class. -/
def bases (c : Addr) : List Addr := (G.baseclassVars c).map ClassVar.entry

/-- **The base relation.** -/
def IsBase (c b : Addr) : Prop := b ∈ G.bases c

instance (c b : Addr) : Decidable (G.IsBase c b) := inferInstanceAs (Decidable (b ∈ G.bases c))

variable {G}

theorem bases_root : G.bases G.root = [] := by rw [bases, G.baseclassVars_root, List.map_nil]

theorem bases_eq_nil_iff {c : Addr} : (G.baseclassVars c).isEmpty = true ↔ G.bases c = [] := by
  rw [bases, List.isEmpty_iff, List.map_eq_nil_iff]

theorem mem_names_of_isBase {c b : Addr} (h : G.IsBase c b) : b ∈ G.names := by
  obtain ⟨cvar, hcvar, rfl⟩ := List.mem_map.mp h
  exact G.entry_mem c cvar hcvar

theorem ne_root_of_isBase {c b : Addr} (h : G.IsBase c b) : b ≠ G.root := by
  rintro rfl
  exact G.root_notMem (mem_names_of_isBase h)

end Schema

/-! ## (2) Memory -/

/-- `struct kndClassRef`: `class` is not set in a reference that was read from a snapshot. -/
structure ClassRef where
  /-- `class`. -/
  cls : Option Addr
  /-- `entry`. -/
  entry : Addr
  deriving DecidableEq, Repr

/-- A reference to a loaded class. -/
def ClassRef.live (a : Addr) : ClassRef := ⟨some a, a⟩

/-- A reference as `set_class_ref` leaves it. -/
def ClassRef.stale (a : Addr) : ClassRef := ⟨none, a⟩

/-- `struct kndClass` with its entry, as far as resolution and indexing use them. -/
structure ClassCell where
  /-- `ancestors`. -/
  ancestors : List ClassRef := []
  /-- `num_ancestors`. -/
  numAncestors : Nat := 0
  /-- `base_resolving_in_progress`. -/
  baseResolvingInProgress : Bool := false
  /-- `base_is_resolved`. -/
  baseIsResolved : Bool := false
  /-- `resolving_in_progress`. -/
  resolvingInProgress : Bool := false
  /-- `is_resolved`. -/
  isResolved : Bool := false
  /-- `entry->numid`. -/
  numid : Nat := 0
  /-- `children`. -/
  children : List Addr := []
  /-- `num_children`. -/
  numChildren : Nat := 0
  /-- `descendants`. -/
  descendants : Option (KndSet Addr) := none
  /-- `num_terminals`. -/
  numTerminals : Nat := 0
  /-- `indexing_in_progress`. -/
  indexingInProgress : Bool := false
  /-- `is_indexed`. -/
  isIndexed : Bool := false

/-- **The memory of the classes.** -/
structure Heap where
  /-- The class at an address. -/
  cells : Addr → ClassCell := fun _ => {}
  /-- `class_id_count` of the repository. -/
  classIdCount : Nat := 0

/-- Memory after the sources were read. -/
def Heap.initial : Heap := {}

/-- A write to one class. -/
def Heap.modifyCell (s : Heap) (a : Addr) (f : ClassCell → ClassCell) : Heap :=
  { s with cells := Function.update s.cells a (f (s.cells a)) }

@[simp] theorem Heap.modifyCell_self (s : Heap) (a : Addr) (f : ClassCell → ClassCell) :
    (s.modifyCell a f).cells a = f (s.cells a) := Function.update_self ..

theorem Heap.modifyCell_of_ne (s : Heap) {a b : Addr} (f : ClassCell → ClassCell) (h : b ≠ a) :
    (s.modifyCell a f).cells b = s.cells b := Function.update_of_ne h ..

@[simp] theorem Heap.modifyCell_classIdCount (s : Heap) (a : Addr) (f : ClassCell → ClassCell) :
    (s.modifyCell a f).classIdCount = s.classIdCount := rfl

/-- What resolution can end with other than success. -/
inductive ResolveErr
  /-- A class is reached while it is in progress. -/
  | viciousCircle
  /-- `knd_NO_MATCH`: no inheritance between a value and its template. -/
  | noMatch
  /-- `knd_FORMAT`: a required value is empty or names no instance. -/
  | format
  /-- A failed assertion or a null pointer. -/
  | fault
  /-- The calls nest deeper than the model follows them. -/
  | outOfDepth
  deriving DecidableEq, Repr

/-- A program over the memory of the classes. -/
abbrev M := EStateM ResolveErr Heap

/-- `task->type`, as far as references look at it. -/
inductive TaskType
  | bulkLoad | other
  deriving DecidableEq, Repr

/-! ## (3) Bases -/

/-- A reference in front of `ancestors`, counted. -/
def ClassCell.pushAncestor (self : ClassCell) (base : Addr) : ClassCell :=
  { self with
    ancestors := .live base :: self.ancestors
    numAncestors := self.numAncestors + 1 }

/-- `link_ancestor`, in one repository. -/
def linkAncestor (self : ClassCell) (base : Addr) : ClassCell :=
  if self.ancestors.any fun ref => ref.cls = some base then self else self.pushAncestor base

/-- `link_baseclass`. The root is the one class that is `state_top`. -/
def linkBaseclass (root : Addr) (self : ClassCell) (base : Addr) (ancestors : List ClassRef) : ClassCell :=
  ((ancestors.filter fun ref => ref.entry ≠ root).foldl (fun self ref => linkAncestor self ref.entry)
    self).pushAncestor base

/-- `link_baseclass` in memory: the ancestors of the base are read, the class is written. -/
def Heap.linkBaseclass (s : Heap) (root self base : Addr) : Heap :=
  s.modifyCell self fun cell => Hierarchy.linkBaseclass root cell base (s.cells base).ancestors

/-- `base_resolving_in_progress = true`. -/
def Heap.setBaseInProgress (s : Heap) (self : Addr) : Heap :=
  s.modifyCell self fun cell => { cell with baseResolvingInProgress := true }

/-- `base_is_resolved = true`. -/
def Heap.setBaseIsResolved (s : Heap) (self : Addr) : Heap :=
  s.modifyCell self fun cell => { cell with baseIsResolved := true }

section Code

variable (G : Schema)

/-- A class whose bases are not resolved yet has them resolved. -/
def resolveBaseOnce (resolveBase : Addr → M Unit) (self : Addr) : M Unit := do
  let s ← get
  if (s.cells self).baseIsResolved then pure () else resolveBase self

/-- One round of the loop of `resolve_baseclasses`. -/
def linkClassVar (resolveBase : Addr → M Unit) (self : Addr) (cvar : ClassVar) : M Unit :=
  if cvar.entry = self then pure ()
  else do
    resolveBaseOnce resolveBase cvar.entry
    modify fun s => s.linkBaseclass G.root self cvar.entry

/-- `resolve_baseclasses`. -/
def resolveBaseclasses (resolveBase : Addr → M Unit) (self : Addr) : M Unit := do
  (G.baseclassVars self).forM (linkClassVar G resolveBase self)
  modify fun s => s.setBaseIsResolved self

/-- `resolve_base`. -/
def resolveBase : Nat → Addr → M Unit
  | 0, _ => throw .outOfDepth
  | depth + 1, self => do
      let s ← get
      if (s.cells self).baseIsResolved then throw .fault
      else if (s.cells self).baseResolvingInProgress then throw .viciousCircle
      else
        modify fun s => s.setBaseInProgress self
        resolveBaseclasses G (resolveBase depth) self
        modify fun s => s.setBaseIsResolved self

/-- `knd_is_base`. -/
def kndIsBase (self child : Addr) : M Unit := do
  let s ← get
  if (s.cells child).ancestors.any fun ref => ref.entry = self then pure () else throw .noMatch

/-- `knd_resolve_class_ref`. In a bulk load a class may stand for itself. -/
def kndResolveClassRef (task : TaskType) (depth : Nat) (c : Addr) (base : Option Addr) : M Unit := do
  resolveBaseOnce (resolveBase G depth) c
  match base with
  | none => pure ()
  | some base =>
      resolveBaseOnce (resolveBase G depth) base
      if task = .bulkLoad ∧ base = c then pure () else kndIsBase base c

/-! ## (4) Attribute values -/

section Values

variable (resolve : Addr → M Unit)

/-- A class that is not resolved yet is. -/
def resolveOnce (self : Addr) : M Unit := do
  let s ← get
  if (s.cells self).isResolved then pure () else resolve self

variable (task : TaskType) (depth : Nat)

/-- `resolve_ref`, in a class declaration. -/
def resolveRef (attr : Attr) (val : Option Addr) (instName : Bool) : M Unit :=
  match val, attr.refClass with
  | some val, some template => do
      resolveOnce resolve template
      kndResolveClassRef G task depth val (some template)
      if attr.relType = .classInst ∧ instName = false then throw .format
  | _, _ => throw .fault

/-- `resolve_rel`. -/
def resolveRel (attr : Attr) (val : Option Addr) : M Unit :=
  match val, attr.implArg with
  | some val, some template => do
      resolveOnce resolve val
      kndIsBase template val
  | _, _ => throw .fault

/-- `resolve_implied_attr_var`. -/
def resolveImpliedAttrVar (attr : Attr) (val : Option Addr) (instName : Bool) : M Unit :=
  match attr.type with
  | .ref =>
      match val with
      | none => if attr.isRequired then throw .format else pure ()
      | some _ => resolveRef G resolve task depth attr val instName
  | .rel =>
      match val with
      | none => if attr.isRequired then throw .format else pure ()
      | some _ => resolveRel resolve attr val
  | _ => pure ()

/-- `resolve_attr_var_list`, in one repository, up to the loop over the items. A reference has its template
set when its class is resolved; the template of another attribute is looked up here. -/
def resolveAttrVarList (attr : Attr) (list : List AttrVar) (items : M Unit) : M Unit :=
  if list.isEmpty then throw .fault
  else if attr.type = .str then pure ()
  else
    match attr.refClass with
    | none => throw .fault
    | some c => do
        (if attr.type = .ref then pure () else kndResolveClassRef G task depth c none)
        resolveOnce resolve c
        items

mutual

/-- `resolve_inner_var`, for a value of the attribute `attr`. -/
def resolveInnerVar (attr : Attr) : AttrVar → M Unit
  | .mk _ val instName list children =>
      match attr.refClass with
      | none => throw .fault
      | some c => do
          kndResolveClassRef G task depth c none
          resolveOnce resolve c
          if list.isEmpty then
            (match G.impliedAttr c with
              | none => pure ()
              | some implied => resolveImpliedAttrVar G resolve task depth implied val instName)
            resolveChildren children
          else
            resolveAttrVarList G resolve task depth attr list (resolveItems attr list)

/-- The loop of `resolve_attr_var_list`. -/
def resolveItems (attr : Attr) : List AttrVar → M Unit
  | [] => pure ()
  | .mk a val instName list children :: items => do
      (match attr.type with
        | .inner => resolveInnerVar attr (.mk a val instName list children)
        | .ref => resolveRef G resolve task depth attr val instName
        | .rel => resolveRel resolve attr val
        | _ => pure ())
      resolveItems attr items

/-- The loop of `resolve_inner_var`. -/
def resolveChildren : List AttrVar → M Unit
  | [] => pure ()
  | .mk attr val instName list children :: vars => do
      (if attr.isASet then
          resolveAttrVarList G resolve task depth attr list (resolveItems attr list)
        else
          match attr.type with
          | .inner => resolveInnerVar attr (.mk attr val instName list children)
          | .ref => resolveRef G resolve task depth attr val instName
          | .rel => resolveRel resolve attr val
          | _ => pure ())
      resolveChildren vars

end

/-- `knd_resolve_attr_vars`: its loop treats a value as that of an inner value does. -/
def kndResolveAttrVars (cvar : ClassVar) : M Unit :=
  resolveChildren G resolve task depth cvar.attrs

end Values

/-! ## (5) Classes -/

/-- `is_resolved = true`, and a fresh id. -/
def Heap.setResolved (s : Heap) (self : Addr) : Heap :=
  { s.modifyCell self fun cell => { cell with isResolved := true, numid := s.classIdCount + 1 } with
    classIdCount := s.classIdCount + 1 }

/-- `resolving_in_progress = true`. -/
def Heap.setInProgress (s : Heap) (self : Addr) : Heap :=
  s.modifyCell self fun cell => { cell with resolvingInProgress := true }

/-- `knd_class_resolve`: `depth` bounds the calls along bases, the other number the calls of itself. -/
def kndClassResolve (task : TaskType) (depth : Nat) : Nat → Addr → M Unit
  | 0, _ => throw .outOfDepth
  | n + 1, self => do
      let s ← get
      if (s.cells self).isResolved then throw .fault
      else if (s.cells self).resolvingInProgress then throw .viciousCircle
      else
        modify fun s => s.setInProgress self
        (if (G.baseclassVars self).isEmpty then modify fun s => s.linkBaseclass G.root self G.root
          else resolveBaseOnce (resolveBaseclasses G (resolveBase G depth)) self)
        (G.baseclassVars self).forM fun cvar => do
          -- `inherit_attrs`
          resolveOnce (kndClassResolve task depth n) cvar.entry
          kndResolveAttrVars G (kndClassResolve task depth n) task depth cvar
        modify fun s => s.setResolved self

/-- `resolve_classes`, over the classes in the order of the name index. -/
def resolveClasses (task : TaskType) (depth : Nat) (order : List Addr) : M Unit :=
  order.forM (resolveOnce (kndClassResolve G task depth depth))

end Code

/-! ## (6) What a value asks for

What the resolution of a value does with classes, as a list of steps. -/

/-- One thing that the resolution of a value does with classes. -/
inductive Step
  /-- A class is resolved unless it is. -/
  | resolve (c : Addr)
  /-- `knd_resolve_class_ref`. -/
  | classRef (c : Addr) (base : Option Addr)
  /-- A class is resolved unless it is, and compared with its template. -/
  | rel (c template : Addr)
  /-- The value is refused. -/
  | fail (e : ResolveErr)

section Steps

variable (G : Schema)

/-- The steps of `resolve_ref`. -/
def refSteps (attr : Attr) (val : Option Addr) (instName : Bool) : List Step :=
  match val, attr.refClass with
  | some val, some template =>
      [.resolve template, .classRef val (some template)] ++
        if attr.relType = .classInst ∧ instName = false then [.fail .format] else []
  | _, _ => [.fail .fault]

/-- The steps of `resolve_rel`. -/
def relSteps (attr : Attr) (val : Option Addr) : List Step :=
  match val, attr.implArg with
  | some val, some template => [.rel val template]
  | _, _ => [.fail .fault]

/-- The steps of `resolve_implied_attr_var`. -/
def impliedSteps (attr : Attr) (val : Option Addr) (instName : Bool) : List Step :=
  match attr.type with
  | .ref =>
      match val with
      | none => if attr.isRequired then [.fail .format] else []
      | some _ => refSteps attr val instName
  | .rel =>
      match val with
      | none => if attr.isRequired then [.fail .format] else []
      | some _ => relSteps attr val
  | _ => []

/-- The steps of `resolve_attr_var_list`. -/
def listSteps (attr : Attr) (list : List AttrVar) (items : List Step) : List Step :=
  if list.isEmpty then [.fail .fault]
  else if attr.type = .str then []
  else
    match attr.refClass with
    | none => [.fail .fault]
    | some c => (if attr.type = .ref then [] else [.classRef c none]) ++ .resolve c :: items

mutual

/-- The steps of `resolve_inner_var`. -/
def innerSteps (attr : Attr) : AttrVar → List Step
  | .mk _ val instName list children =>
      match attr.refClass with
      | none => [.fail .fault]
      | some c => .classRef c none :: .resolve c ::
          if list.isEmpty then
            (match G.impliedAttr c with
              | none => []
              | some implied => impliedSteps implied val instName) ++ childSteps children
          else listSteps attr list (itemSteps attr list)

/-- The steps of the items of a list. -/
def itemSteps (attr : Attr) : List AttrVar → List Step
  | [] => []
  | .mk a val instName list children :: items =>
      (match attr.type with
        | .inner => innerSteps attr (.mk a val instName list children)
        | .ref => refSteps attr val instName
        | .rel => relSteps attr val
        | _ => []) ++ itemSteps attr items

/-- The steps of `knd_resolve_attr_vars`. -/
def childSteps : List AttrVar → List Step
  | [] => []
  | .mk attr val instName list children :: vars =>
      (if attr.isASet then listSteps attr list (itemSteps attr list)
        else
          match attr.type with
          | .inner => innerSteps attr (.mk attr val instName list children)
          | .ref => refSteps attr val instName
          | .rel => relSteps attr val
          | _ => []) ++ childSteps vars

end

variable (resolve : Addr → M Unit) (task : TaskType) (depth : Nat)

/-- What a step does. -/
def Step.perform : Step → M Unit
  | .resolve c => resolveOnce resolve c
  | .classRef c base => kndResolveClassRef G task depth c base
  | .rel c template => do
      resolveOnce resolve c
      kndIsBase template c
  | .fail e => throw e

theorem forM_singleton (f : Step → M Unit) (step : Step) : [step].forM f = f step :=
  bind_pure_unit

theorem throw_eq (e : ResolveErr) :
    (throw e : M Unit) = [Step.fail e].forM (Step.perform G resolve task depth) :=
  (forM_singleton (Step.perform G resolve task depth) (.fail e)).symm

theorem resolveRef_eq (attr : Attr) (val : Option Addr) (instName : Bool) :
    resolveRef G resolve task depth attr val instName =
      (refSteps attr val instName).forM (Step.perform G resolve task depth) := by
  unfold resolveRef refSteps
  split
  · rename_i c template _
    rw [forM_append]
    have hpair : [Step.resolve template, .classRef c (some template)].forM
        (Step.perform G resolve task depth) =
          (resolveOnce resolve template >>= fun _ => kndResolveClassRef G task depth c (some template)) :=
      congrArg (resolveOnce resolve template >>= ·) (funext fun _ => forM_singleton _ (.classRef c (some template)))
    rw [hpair, bind_assoc]
    by_cases hinst : attr.relType = .classInst ∧ instName = false
    · rw [if_pos hinst, if_pos hinst, ← throw_eq]
    · rw [if_neg hinst, if_neg hinst]
      rfl
  · exact throw_eq G resolve task depth .fault

theorem resolveRel_eq (attr : Attr) (val : Option Addr) :
    resolveRel resolve attr val = (relSteps attr val).forM (Step.perform G resolve task depth) := by
  unfold resolveRel relSteps
  split
  · rename_i c template _
    exact (forM_singleton (Step.perform G resolve task depth) (.rel c template)).symm
  · exact throw_eq G resolve task depth .fault

theorem resolveImpliedAttrVar_eq (attr : Attr) (val : Option Addr) (instName : Bool) :
    resolveImpliedAttrVar G resolve task depth attr val instName =
      (impliedSteps attr val instName).forM (Step.perform G resolve task depth) := by
  unfold resolveImpliedAttrVar impliedSteps
  cases attr.type with
  | ref =>
      cases val with
      | none =>
          dsimp only
          by_cases hreq : attr.isRequired = true
          · rw [if_pos hreq, if_pos hreq]
            exact throw_eq G resolve task depth .format
          · rw [if_neg hreq, if_neg hreq]
            rfl
      | some val => exact resolveRef_eq G resolve task depth attr _ instName
  | rel =>
      cases val with
      | none =>
          dsimp only
          by_cases hreq : attr.isRequired = true
          · rw [if_pos hreq, if_pos hreq]
            exact throw_eq G resolve task depth .format
          · rw [if_neg hreq, if_neg hreq]
            rfl
      | some val => exact resolveRel_eq G resolve task depth attr _
  | _ => rfl

theorem resolveAttrVarList_eq (attr : Attr) (list : List AttrVar) {items : M Unit} {steps : List Step}
    (h : items = steps.forM (Step.perform G resolve task depth)) :
    resolveAttrVarList G resolve task depth attr list items =
      (listSteps attr list steps).forM (Step.perform G resolve task depth) := by
  subst h
  unfold resolveAttrVarList listSteps
  by_cases hlist : list.isEmpty = true
  · rw [if_pos hlist, if_pos hlist]
    exact throw_eq G resolve task depth .fault
  rw [if_neg hlist, if_neg hlist]
  by_cases hstr : attr.type = .str
  · rw [if_pos hstr, if_pos hstr]
    rfl
  rw [if_neg hstr, if_neg hstr]
  cases attr.refClass with
  | none => exact throw_eq G resolve task depth .fault
  | some c =>
      dsimp only
      rw [forM_append]
      by_cases href : attr.type = .ref
      · rw [if_pos href, if_pos href]
        rfl
      · rw [if_neg href, if_neg href, forM_singleton]
        rfl

mutual

theorem resolveInnerVar_eq (attr : Attr) (var : AttrVar) :
    resolveInnerVar G resolve task depth attr var =
      (innerSteps G attr var).forM (Step.perform G resolve task depth) := by
  obtain ⟨_, val, instName, list, children⟩ := var
  rw [resolveInnerVar, innerSteps]
  cases attr.refClass with
  | none => exact throw_eq G resolve task depth .fault
  | some c =>
      refine congrArg (kndResolveClassRef G task depth c none >>= ·)
        (funext fun _ => congrArg (resolveOnce resolve c >>= ·) (funext fun _ => ?_))
      by_cases hlist : list.isEmpty = true
      · rw [if_pos hlist, if_pos hlist, forM_append, ← resolveChildren_eq children]
        cases G.impliedAttr c with
        | none => rfl
        | some implied =>
            dsimp only
            rw [resolveImpliedAttrVar_eq]
      · rw [if_neg hlist, if_neg hlist]
        exact resolveAttrVarList_eq G resolve task depth attr list (resolveItems_eq attr list)

theorem resolveItems_eq (attr : Attr) (items : List AttrVar) :
    resolveItems G resolve task depth attr items =
      (itemSteps G attr items).forM (Step.perform G resolve task depth) := by
  cases items with
  | nil => rw [resolveItems, itemSteps]; rfl
  | cons item items =>
      obtain ⟨a, val, instName, list, children⟩ := item
      rw [resolveItems, itemSteps, forM_append, ← resolveItems_eq attr items]
      refine congrArg (· >>= _) ?_
      cases attr.type with
      | inner => exact resolveInnerVar_eq attr _
      | ref => exact resolveRef_eq G resolve task depth attr val instName
      | rel => exact resolveRel_eq G resolve task depth attr val
      | _ => rfl

theorem resolveChildren_eq (vars : List AttrVar) :
    resolveChildren G resolve task depth vars =
      (childSteps G vars).forM (Step.perform G resolve task depth) := by
  cases vars with
  | nil => rw [resolveChildren, childSteps]; rfl
  | cons var vars =>
      obtain ⟨attr, val, instName, list, children⟩ := var
      rw [resolveChildren, childSteps, forM_append, ← resolveChildren_eq vars]
      refine congrArg (· >>= _) ?_
      by_cases hset : attr.isASet = true
      · rw [if_pos hset, if_pos hset]
        exact resolveAttrVarList_eq G resolve task depth attr list (resolveItems_eq attr list)
      · rw [if_neg hset, if_neg hset]
        cases attr.type with
        | inner => exact resolveInnerVar_eq attr _
        | ref => exact resolveRef_eq G resolve task depth attr val instName
        | rel => exact resolveRel_eq G resolve task depth attr val
        | _ => rfl

end

end Steps

end Knowdy.Hierarchy
