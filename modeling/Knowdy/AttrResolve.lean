import Knowdy.KndSet
import Knowdy.Lib.Effect
import Knowdy.Lib.Runs
import Mathlib.Logic.Function.Basic
import Mathlib.Logic.Relation

/-! # Resolution of attributes

`knd_class_resolve` numbers the attributes that a class declares and gathers those that it inherits in `attr_idx`, a
set of references to attributes with their values. Every declared base is resolved first where it is not; its
references are merged into those of the class, and then the values of the declaration are bound to the attributes
that their names stand for.

* `Schema` — the declarations; `Reordered` — their bases in another order; `Mem` — the memory of the classes.
* `checkAttrNameConflict`, `registerAttr`, `knd_resolve_primary_attrs` — attributes that are declared.
* `inheritAttr`, `inheritAttrs` — attributes that are inherited; `kndResolveAttrVar` — values.
* `kndClassResolve` — classes; `Resolutions` — the memory in the course of resolutions.
* `kndClassGetAttr_eq` — what a name finds; `run_inheritAttr_of_some`, … — what a merge does with one reference. -/

namespace Knowdy.AttrResolve

open Relation

/-- The address of a class together with its entry. -/
abbrev ClassAddr := Nat

/-- The address of a `struct kndAttr`. -/
abbrev AttrAddr := Nat

/-- The address of a `struct kndAttrVar`. -/
abbrev VarAddr := Nat

/-- A name, with its size. -/
abbrev Name := List UInt8

/-! ## (1) Declarations -/

/-- What resolution can end with other than success. -/
inductive ResolveErr
  /-- A class is reached while it is in progress. -/
  | viciousCircle
  /-- `knd_CONFLICT`: two attributes of one name. -/
  | conflict
  /-- `knd_NO_MATCH`. -/
  | noMatch
  /-- `knd_FORMAT`. -/
  | format
  /-- `knd_FAIL`. -/
  | fail
  /-- A failed assertion. -/
  | fault
  /-- The calls nest deeper than the model follows them. -/
  | outOfDepth
  deriving DecidableEq, Repr

/-- `struct kndClassVar`: a declared base with values for attributes. -/
structure ClassVar where
  /-- `entry`. -/
  entry : ClassAddr
  /-- `attrs`. -/
  attrs : List VarAddr := []

/-- **The declarations of a repository.** What else a class, an attribute or a value needs in order to resolve is
given by its outcome. -/
structure Schema where
  /-- `attrs` of a class. -/
  attrs : ClassAddr → List AttrAddr
  /-- `parent_class`. -/
  parentClass : AttrAddr → ClassAddr
  /-- `name` of an attribute. -/
  attrName : AttrAddr → Name
  /-- How the template or the proc of an attribute resolves. -/
  attrOutcome : AttrAddr → Option ResolveErr := fun _ => none
  /-- `baseclass_vars` of a class. -/
  baseclassVars : ClassAddr → List ClassVar
  /-- How `resolve_baseclasses` ends for a class. -/
  basesOutcome : ClassAddr → Option ResolveErr := fun _ => none
  /-- `class_var->parent` of a value. -/
  varParent : VarAddr → ClassAddr
  /-- `name` of a value. -/
  varName : VarAddr → Name
  /-- The classes that a value of an attribute has resolved. -/
  varRefs : VarAddr → AttrAddr → List ClassAddr := fun _ _ => []
  /-- How the rest of a value of an attribute resolves. -/
  varOutcome : VarAddr → AttrAddr → Option ResolveErr := fun _ _ => none
  /-- The names of `uniq` of a class. -/
  uniq : ClassAddr → List Name := fun _ => []
  /-- Is the class resolved by a task of the type `KND_RESTORE_STATE` or `KND_BULK_LOAD_STATE`? -/
  loaded : ClassAddr → Bool
  /-- An attribute is declared by its class. -/
  parentClass_eq : ∀ c, ∀ a ∈ attrs c, parentClass a = c
  /-- It is declared once. -/
  nodup_attrs : ∀ c, (attrs c).Nodup
  /-- A value is declared by its class. -/
  varParent_eq : ∀ c, ∀ cvar ∈ baseclassVars c, ∀ v ∈ cvar.attrs, varParent v = c
  /-- It is declared once. -/
  nodup_vars : ∀ c, ((baseclassVars c).flatMap ClassVar.attrs).Nodup

namespace Schema

variable (G : Schema)

/-- **The base relation.** -/
def IsBase (c b : ClassAddr) : Prop := ∃ cvar ∈ G.baseclassVars c, cvar.entry = b

/-- **An attribute of a class**, its own or an inherited one. -/
def HasAttr (c : ClassAddr) (a : AttrAddr) : Prop := ∃ h, ReflTransGen G.IsBase c h ∧ a ∈ G.attrs h

/-- An attribute of a class that was declared in a loaded class. Only these are entered in `attr_idx`. -/
def InScope (c : ClassAddr) (a : AttrAddr) : Prop :=
  ∃ h, ReflTransGen G.IsBase c h ∧ a ∈ G.attrs h ∧ G.loaded h = true

variable {G}

theorem InScope.hasAttr {c : ClassAddr} {a : AttrAddr} (h : G.InScope c a) : G.HasAttr c a := by
  obtain ⟨h, hpath, ha, -⟩ := h
  exact ⟨h, hpath, ha⟩

/-- The attributes of a class are its own and those of its bases. -/
theorem inScope_iff {c : ClassAddr} {a : AttrAddr} : G.InScope c a ↔
    (a ∈ G.attrs c ∧ G.loaded c = true) ∨ ∃ cvar ∈ G.baseclassVars c, G.InScope cvar.entry a := by
  constructor
  · rintro ⟨h, hpath, ha, hloaded⟩
    rcases hpath.cases_head with rfl | ⟨b, ⟨cvar, hcvar, rfl⟩, hpath⟩
    · exact .inl ⟨ha, hloaded⟩
    · exact .inr ⟨cvar, hcvar, h, hpath, ha, hloaded⟩
  · rintro (⟨ha, hloaded⟩ | ⟨cvar, hcvar, h, hpath, ha, hloaded⟩)
    · exact ⟨c, .refl, ha, hloaded⟩
    · exact ⟨h, .head ⟨cvar, hcvar, rfl⟩ hpath, ha, hloaded⟩

end Schema

/-- **The same declarations, with the bases in another order.** -/
structure Reordered (G G' : Schema) : Prop where
  /-- Attributes. -/
  attrs : G'.attrs = G.attrs
  /-- Their names. -/
  attrName : G'.attrName = G.attrName
  /-- The names of values. -/
  varName : G'.varName = G.varName
  /-- Loaded classes. -/
  loaded : G'.loaded = G.loaded
  /-- Bases. -/
  bases : ∀ c, (G'.baseclassVars c).Perm (G.baseclassVars c)

namespace Reordered

variable {G G' : Schema}

theorem isBase_iff (h : Reordered G G') (c b : ClassAddr) : G'.IsBase c b ↔ G.IsBase c b :=
  exists_congr fun _ => and_congr_left fun _ => (h.bases c).mem_iff

theorem isBase_eq (h : Reordered G G') : G'.IsBase = G.IsBase :=
  funext fun c => funext fun b => propext (h.isBase_iff c b)

theorem hasAttr_iff (h : Reordered G G') (c : ClassAddr) (a : AttrAddr) : G'.HasAttr c a ↔ G.HasAttr c a := by
  rw [Schema.HasAttr, Schema.HasAttr, h.isBase_eq, h.attrs]

theorem inScope_iff (h : Reordered G G') (c : ClassAddr) (a : AttrAddr) : G'.InScope c a ↔ G.InScope c a := by
  rw [Schema.InScope, Schema.InScope, h.isBase_eq, h.attrs, h.loaded]

end Reordered

/-! ## (2) Memory -/

/-- `struct kndClass` with its entry, as far as the resolution of attributes uses them. -/
structure ClassCell where
  /-- `attr_idx`: the references, each standing for its attribute. -/
  attrIdx : KndSet AttrAddr := {}
  /-- `attr_var` of the reference to an attribute. -/
  attrVar : AttrAddr → Option VarAddr := fun _ => none
  /-- `resolving_in_progress`. -/
  resolvingInProgress : Bool := false
  /-- `is_resolved`. -/
  isResolved : Bool := false
  /-- `entry->numid`. -/
  numid : Nat := 0

/-- **The memory of the classes of a repository.** -/
structure Mem where
  /-- The class at an address. -/
  cells : ClassAddr → ClassCell := fun _ => {}
  /-- `class_id_count`. -/
  classIdCount : Nat := 0
  /-- `attr_id_count`. -/
  attrIdCount : Nat := 0
  /-- `numid` of an attribute. -/
  attrNumid : AttrAddr → Nat := fun _ => 0
  /-- `attr_name_idx`: the attributes of a name, the newest in front. -/
  attrNameIdx : Name → List AttrAddr := fun _ => []
  /-- `attr` of a value. -/
  varAttr : VarAddr → Option AttrAddr := fun _ => none

namespace Mem

/-- Memory after the declarations were read. -/
def initial : Mem := {}

/-- A write to one class. -/
def modifyCell (s : Mem) (c : ClassAddr) (f : ClassCell → ClassCell) : Mem :=
  { s with cells := Function.update s.cells c (f (s.cells c)) }

/-- `resolving_in_progress = true`. -/
def setInProgress (s : Mem) (self : ClassAddr) : Mem :=
  s.modifyCell self fun cell => { cell with resolvingInProgress := true }

/-- `is_resolved = true`, and a fresh id. -/
def setResolved (s : Mem) (self : ClassAddr) : Mem :=
  { s.modifyCell self fun cell => { cell with isResolved := true, numid := s.classIdCount + 1 } with
    classIdCount := s.classIdCount + 1 }

/-- A fresh id for an attribute. -/
def numberAttr (s : Mem) (attr : AttrAddr) : Mem :=
  { s with
    attrIdCount := s.attrIdCount + 1
    attrNumid := Function.update s.attrNumid attr (s.attrIdCount + 1) }

/-- The attribute is registered under its name. -/
def nameAttr (s : Mem) (name : Name) (attr : AttrAddr) : Mem :=
  { s with attrNameIdx := Function.update s.attrNameIdx name (attr :: s.attrNameIdx name) }

/-- `attr_idx` after an addition. -/
def setAttrIdx (s : Mem) (self : ClassAddr) (attrIdx : KndSet AttrAddr) : Mem :=
  s.modifyCell self fun cell => { cell with attrIdx }

/-- The value of a reference. -/
def setAttrVar (s : Mem) (self : ClassAddr) (attr : AttrAddr) (var : Option VarAddr) : Mem :=
  s.modifyCell self fun cell => { cell with attrVar := Function.update cell.attrVar attr var }

/-- A value and the reference to its attribute. -/
def bindVar (s : Mem) (self : ClassAddr) (attr : AttrAddr) (var : VarAddr) : Mem :=
  { s.setAttrVar self attr (some var) with varAttr := Function.update s.varAttr var (some attr) }

/-- The `id` of an attribute. -/
def attrId (s : Mem) (attr : AttrAddr) : List UInt8 := kndUidCreate (s.attrNumid attr)

end Mem

/-- A program over the memory of the classes. -/
abbrev M := EStateM ResolveErr Mem

/-- An outcome. -/
def finish : Option ResolveErr → M Unit
  | none => pure ()
  | some e => throw e

/-! ## (3) The code -/

section Code

variable (G : Schema)

/-- `match_attr`: the traversal ends at the first attribute of the name. -/
def matchAttr (name : Name) (attr : AttrAddr) : EStateM AttrAddr Unit Unit :=
  if G.attrName attr = name then throw attr else pure ()

/-- `knd_class_get_attr`. -/
def kndClassGetAttr (attrIdx : KndSet AttrAddr) (name : Name) : Option AttrAddr :=
  match (kndSetMap attrIdx (matchAttr G name)).run () with
  | .error attr _ => some attr
  | .ok _ _ => none

/-- `check_attr_name_conflict`. -/
def checkAttrNameConflict (self : ClassAddr) (attrCandidate : AttrAddr) : M Unit := do
  let s ← get
  (s.attrNameIdx (G.attrName attrCandidate)).forM fun attr =>
    match kndSetGet (s.cells self).attrIdx (s.attrId attr) with
    | .ok _ => throw .conflict
    | .error _ => pure ()

/-- A new reference is added to `attr_idx`. -/
def addAttrRef (self : ClassAddr) (attr : AttrAddr) (var : Option VarAddr) : M Unit := do
  let s ← get
  match kndSetAdd (s.cells self).attrIdx (s.attrId attr) attr with
  | (.error _, _) => throw .fail
  | (.ok (), attrIdx) =>
      modify fun s => s.setAttrIdx self attrIdx
      modify fun s => s.setAttrVar self attr var

/-- `register_attr`. The index of the repository by ids and that of a commit by names are not read here. -/
def registerAttr (self : ClassAddr) (attr : AttrAddr) : M Unit := do
  modify fun s => s.numberAttr attr
  if G.loaded self then
    modify fun s => s.nameAttr (G.attrName attr) attr
    addAttrRef self attr none
  else pure ()

/-- One round of `knd_resolve_primary_attrs`. -/
def resolvePrimaryAttr (self : ClassAddr) (attr : AttrAddr) : M Unit := do
  checkAttrNameConflict G self attr
  finish (G.attrOutcome attr)
  registerAttr G self attr

/-- `inherit_attr`: a value of the base replaces that of the reference; an attribute without a reference gets one. -/
def inheritAttr (self base : ClassAddr) (attr : AttrAddr) : M Unit := do
  let s ← get
  let srcVar := (s.cells base).attrVar attr
  match kndSetGet (s.cells self).attrIdx (s.attrId attr) with
  | .ok ref =>
      match srcVar with
      | some var => modify fun s => s.setAttrVar self ref (some var)
      | none => pure ()
  | .error _ => addAttrRef self attr srcVar

section Nested

variable (resolve : ClassAddr → M Unit)

/-- A class that is not resolved yet is. -/
def resolveOnce (self : ClassAddr) : M Unit := do
  let s ← get
  if (s.cells self).isResolved then pure () else resolve self

/-- `inherit_attrs`. -/
def inheritAttrs (self base : ClassAddr) : M Unit := do
  resolveOnce resolve base
  let s ← get
  kndSetMap (s.cells base).attrIdx (inheritAttr self base)

/-- One round of `knd_resolve_attr_vars`. -/
def resolveAttrVar (self : ClassAddr) (var : VarAddr) : M Unit := do
  let s ← get
  match kndClassGetAttr G (s.cells self).attrIdx (G.varName var) with
  | none => throw .noMatch
  | some attr =>
      modify fun s => s.bindVar self attr var
      (G.varRefs var attr).forM (resolveOnce resolve)
      finish (G.varOutcome var attr)

/-- `knd_resolve_attr_vars`. -/
def kndResolveAttrVars (self : ClassAddr) (cvar : ClassVar) : M Unit :=
  cvar.attrs.forM (resolveAttrVar G resolve self)

/-- One round of the loop over `baseclass_vars`. -/
def resolveClassVar (self : ClassAddr) (cvar : ClassVar) : M Unit := do
  inheritAttrs resolve self cvar.entry
  kndResolveAttrVars G resolve self cvar

end Nested

/-- One round of the loop over `uniq`. -/
def resolveUniq (self : ClassAddr) (name : Name) : M Unit := do
  let s ← get
  match kndClassGetAttr G (s.cells self).attrIdx name with
  | none => throw .noMatch
  | some _ => pure ()

/-- `knd_class_resolve`: the first argument bounds how deep its calls nest. -/
def kndClassResolve : Nat → ClassAddr → M Unit
  | 0, _ => throw .outOfDepth
  | depth + 1, self => do
      let s ← get
      if (s.cells self).isResolved then throw .fault
      else if (s.cells self).resolvingInProgress then throw .viciousCircle
      else
        modify fun s => s.setInProgress self
        -- `knd_resolve_primary_attrs`
        (G.attrs self).forM (resolvePrimaryAttr G self)
        finish (G.basesOutcome self)
        (G.baseclassVars self).forM (resolveClassVar G (kndClassResolve depth) self)
        (G.uniq self).forM (resolveUniq G self)
        modify fun s => s.setResolved self

/-- The memory after a class was to be resolved, whether it was or not. -/
def Mem.resolve (s : Mem) (request : Nat × ClassAddr) : Mem :=
  finalState (resolveOnce (kndClassResolve G request.1) request.2) s

/-- **The memory in the course of resolutions**, in any order of the classes. -/
abbrev Resolutions := Reaches (Mem.resolve G) (fun _ _ => True) Mem.initial

end Code

/-! ## (4) Names -/

/-- A traversal for a name stops at the first attribute of the name. -/
theorem run_forM_matchAttr (G : Schema) (name : Name) (l : List AttrAddr) :
    (l.forM (matchAttr G name)).run () = match l.find? (fun a => decide (G.attrName a = name)) with
      | some a => .error a ()
      | none => .ok () () := by
  induction l with
  | nil => rfl
  | cons a l ih =>
      by_cases hname : G.attrName a = name
      · have hrun : (matchAttr G name a).run () = .error a () := by
          rw [matchAttr, if_pos hname]
          rfl
        rw [List.find?_cons_of_pos (by simpa using hname)]
        exact run_bind_of_error hrun
      · have hrun : (matchAttr G name a).run () = .ok () () := by
          rw [matchAttr, if_neg hname]
          rfl
        rw [List.find?_cons_of_neg (by simpa using hname), ← ih]
        exact run_bind_of_ok hrun

/-- **`knd_class_get_attr` finds the first attribute of the name** in the order of the traversal. -/
theorem kndClassGetAttr_eq (G : Schema) (attrIdx : KndSet AttrAddr) (name : Name) :
    kndClassGetAttr G attrIdx name = attrIdx.elems.find? fun a => decide (G.attrName a = name) := by
  rw [kndClassGetAttr, kndSetMap_eq, run_forM_matchAttr]
  cases attrIdx.elems.find? fun a => decide (G.attrName a = name) <;> rfl

/-- What it finds is in the set and has the name. -/
theorem of_kndClassGetAttr {G : Schema} {attrIdx : KndSet AttrAddr} {name : Name} {a : AttrAddr}
    (h : kndClassGetAttr G attrIdx name = some a) : a ∈ attrIdx.elems ∧ G.attrName a = name := by
  rw [kndClassGetAttr_eq] at h
  exact ⟨List.mem_of_find?_eq_some h, by simpa using List.find?_some h⟩

/-! ## (5) References -/

section Runs

variable {s : Mem} {c b : ClassAddr} {a ref : AttrAddr}

theorem run_addAttrRef {attrIdx : KndSet AttrAddr}
    (hadd : kndSetAdd (s.cells c).attrIdx (s.attrId a) a = (.ok (), attrIdx)) (var : Option VarAddr) :
    (addAttrRef c a var).run s = .ok () ((s.setAttrIdx c attrIdx).setAttrVar c a var) := by
  rw [addAttrRef, run_get_bind, hadd]
  rfl

theorem run_inheritAttr_of_some {var : VarAddr} (hget : kndSetGet (s.cells c).attrIdx (s.attrId a) = .ok ref)
    (hsrc : (s.cells b).attrVar a = some var) :
    (inheritAttr c b a).run s = .ok () (s.setAttrVar c ref (some var)) := by
  rw [inheritAttr, run_get_bind, hget, hsrc]
  rfl

theorem run_inheritAttr_of_none (hget : kndSetGet (s.cells c).attrIdx (s.attrId a) = .ok ref)
    (hsrc : (s.cells b).attrVar a = none) : (inheritAttr c b a).run s = .ok () s := by
  rw [inheritAttr, run_get_bind, hget, hsrc]
  rfl

theorem run_inheritAttr_of_error {e : KndErr} (hget : kndSetGet (s.cells c).attrIdx (s.attrId a) = .error e) :
    (inheritAttr c b a).run s = (addAttrRef c a ((s.cells b).attrVar a)).run s := by
  rw [inheritAttr, run_get_bind, hget]

end Runs

end Knowdy.AttrResolve
