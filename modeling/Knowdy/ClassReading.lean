import Knowdy.Lib.Decides
import Knowdy.Lib.Runs
import Knowdy.Utils
import Mathlib.Data.Fintype.Card
import Mathlib.Logic.Relation
import Mathlib.Order.WellFounded

/-! # Classes are read from a snapshot

`knd_class_acquire` reads a class when it is asked for first. The record of a class names other classes, and the
reader acquires the bases, the classes of inner values and the templates of inverse relations in turn, before the
class is published in its entry.

* `AttrVars`, `ClassRecord`, `Snapshot` — what a snapshot says.
* `ClassObj`, `Cache` — the classes that were read.
* `readAttrVars`, `kndClassRead`, `kndClassAcquire` — the functions.
* `Ends` — an acquisition that ends with one class object for each entry.
* `Snapshot.Refers`, `ClassRecord.Readable`, `Snapshot.LeadsOn` — the classes a record leads to, and when it can be
  read.
* `ends_iff` — an acquisition ends exactly when no class it leads to leads back to itself, and all can be read. -/

namespace Knowdy

namespace ClassReading

open Relation

/-! ## (1) What a snapshot says -/

/-- `knd_attr_type`. -/
inductive AttrType where
  | none | atom | str | bin | cdata | inner | text | cg | num | float | time | date | bool | prob | ref | rel
  | attrRef | procRef | procArgRef | file
  deriving DecidableEq

/-- `struct kndAttr`, as it is written. -/
structure Attr where
  /-- `type`. -/
  type : AttrType
  /-- `ref_class_entry`. -/
  refClass : Option Nat := .none
  /-- `is_implied`. -/
  isImplied : Bool := false
  /-- What `knd_attr_read` returns for its other fields. -/
  rc : Except KndErr Unit := .ok ()

/-- The value of an attribute variable. -/
inductive Value where
  /-- No value. -/
  | none
  /-- The code of a string, or the id of a class. -/
  | code (code : Nat)
  /-- `_t`, with what `knd_text_read` returns. -/
  | text (rc : Except KndErr Unit)

/-- Attribute variables, or the items of a list. Attributes are named by their ids. -/
inductive AttrVars where
  | nil
  /-- `{id value children}`. -/
  | var (id : Nat) (value : Value) (children next : AttrVars)
  /-- `[id items]`. -/
  | list (id : Nat) (items next : AttrVars)
  /-- `{value children}` in a list. -/
  | item (value : Value) (children next : AttrVars)

/-- An item of `[is`. -/
structure BaseItem where
  /-- `entry`. -/
  base : Nat
  /-- `attrs`. -/
  vars : AttrVars := .nil

/-- An item of `[rel`. -/
structure RelItem where
  /-- `topic_template`. -/
  template : Nat
  /-- `attr_id`. -/
  attr : Nat
  /-- `topics`. -/
  topics : List Nat := []

/-- What `knd_class_export_GSP` writes for a class, in this order. -/
structure ClassRecord where
  /-- `baseclass_vars`. -/
  bases : List BaseItem := []
  /-- `attrs`. -/
  attrs : List Nat := []
  /-- `ancestors`. -/
  ancestors : List Nat := []
  /-- `children`. -/
  children : List Nat := []
  /-- `attr_hubs`. -/
  rels : List RelItem := []

/-- The classes of a snapshot. Attributes have ids of their own in a repository. -/
structure Snapshot where
  /-- The records by the entries of the classes. -/
  classes : List ClassRecord
  /-- The attributes by their ids. -/
  attrs : Nat → Attr
  /-- The number of the strings in `str_idx`. -/
  numStrs : Nat := 0

namespace Snapshot

/-- Is a class in `class_idx`? -/
def hasClass (self : Snapshot) (entry : Nat) : Bool := entry < self.classes.length

/-- Is a string in `str_idx`? -/
def hasStr (self : Snapshot) (code : Nat) : Bool := code < self.numStrs

end Snapshot

/-! ## (2) The classes that were read -/

/-- `struct kndClass`. -/
structure ClassObj where
  /-- `attr_idx`. -/
  attrIdx : List Nat := []
  /-- `implied_attr`. -/
  impliedAttr : Option Nat := .none
  /-- `resolving_in_progress`. -/
  resolvingInProgress : Bool := false
  /-- `is_resolved`. -/
  isResolved : Bool := false

/-- What the entries of the classes have. -/
structure Cache where
  /-- `class` of each entry. -/
  classes : Nat → Option ClassObj := fun _ => .none
  /-- The entries in the order in which their classes were published. -/
  published : List Nat := []

/-- A program that reads classes. -/
abbrev ReadM := EStateM KndErr Cache

/-- A check of the reader. -/
def ensure (b : Bool) (e : KndErr) : ReadM Unit := if b then pure () else throw e

/-! ## (3) Attribute variables -/

section Reading

variable (snap : Snapshot) (acquire : Nat → ReadM ClassObj)

/-- `set_implied_attr_var`: a class must be there. -/
def setImpliedAttrVar (type : AttrType) (code : Nat) : Bool :=
  match type with
  | .ref => snap.hasClass code
  | _ => true

/-- `set_attr_var_value`, `parse_text`. -/
def setAttrVarValue (type : AttrType) (impliedAttr : Option Nat) (value : Value) : Bool :=
  match value with
  | .none => true
  | .text rc => rc.isOk
  | .code code =>
      match type with
      | .num | .float | .str => snap.hasStr code
      | .inner =>
          match impliedAttr with
          | .none => true
          | some id => setImpliedAttrVar snap (snap.attrs id).type code
      | .rel | .ref => snap.hasClass code
      | _ => true

/-- `set_attr_var_name`. The items of a list have no `_t`. -/
def setAttrVarName (type : AttrType) (impliedAttr : Option Nat) (value : Value) : Bool :=
  match value with
  | .none => true
  | .text _ => false
  | .code code =>
      match impliedAttr.elim type fun id => (snap.attrs id).type with
      | .rel | .ref => snap.hasClass code
      | .str => snap.hasStr code
      | _ => true

/-- `build_attr_var`, and the same steps in `read_nested_attr_var` and `read_nested_attr_var_list`: an attribute is
looked up in a class, and the class of an inner attribute is acquired. A missing class is an assertion that fails. -/
def buildAttrVar (c : Option ClassObj) (id : Nat) : ReadM (Option ClassObj) :=
  match c with
  | .none => throw .fail
  | some c =>
      if id ∈ c.attrIdx then
        match (snap.attrs id).type, (snap.attrs id).refClass with
        | .inner, some entry => do return some (← acquire entry)
        | .inner, .none => throw .fail
        | _, _ => pure .none
      else throw .noMatch

/-- Where attribute variables stand. -/
inductive Place where
  /-- In a class, or nested. -/
  | vars (top : Bool)
  /-- In the list of an attribute. -/
  | items (id : Nat)

/-- `knd_read_attr_var`, `knd_read_attr_var_list`, `read_nested_attr_var`, `read_nested_attr_var_list`,
`read_attr_var_list_item`. The items of a nested list are read without their class. -/
def readAttrVars (c : Option ClassObj) (place : Place) : AttrVars → ReadM Unit
  | .nil => pure ()
  | .var id value children next =>
      match place with
      | .items _ => throw .format
      | .vars _ => do
          let inner ← buildAttrVar snap acquire c id
          ensure (setAttrVarValue snap (snap.attrs id).type (inner.bind ClassObj.impliedAttr) value) .fail
          readAttrVars inner (.vars false) children
          readAttrVars c place next
  | .list id items next =>
      match place with
      | .items _ => throw .format
      | .vars top => do
          let inner ← buildAttrVar snap acquire c id
          readAttrVars (if top then inner else .none) (.items id) items
          readAttrVars c place next
  | .item value children next =>
      match place with
      | .vars _ => throw .format
      | .items id => do
          ensure (setAttrVarName snap (snap.attrs id).type (c.bind ClassObj.impliedAttr) value) .fail
          readAttrVars c (.vars false) children
          readAttrVars c place next

/-! ## (4) Classes -/

/-- `inherit_base_attr` for all attributes of a base. -/
def ClassObj.inherit (self base : ClassObj) : ClassObj :=
  { self with attrIdx := self.attrIdx ++ base.attrIdx.filter (· ∉ self.attrIdx) }

/-- `parse_baseclass_array_item`. -/
def parseBaseclassArrayItem (self : ClassObj) (item : BaseItem) : ReadM ClassObj := do
  ensure (snap.hasClass item.base) .fail
  let base ← acquire item.base
  readAttrVars snap acquire (some (self.inherit base)) (.vars true) item.vars
  return self.inherit base

/-- What `knd_attr_read` asks of an attribute. -/
def Attr.readable (self : Attr) : Bool :=
  self.rc.isOk && (self.refClass.all snap.hasClass && (self.type ≠ .inner || self.refClass.isSome))

/-- A new attribute of a class. -/
def ClassObj.addAttr (self : ClassObj) (id : Nat) : ClassObj :=
  { self with
    attrIdx := self.attrIdx ++ [id]
    impliedAttr := if (snap.attrs id).isImplied then some id else self.impliedAttr }

/-- `read_attr`. -/
def readAttr (self : ClassObj) (id : Nat) : ReadM ClassObj := do
  ensure ((snap.attrs id).readable snap) .fail
  ensure (id ∉ self.attrIdx) .conflict
  return self.addAttr snap id

/-- `parse_rel_item`. The topics are a set. -/
def parseRelItem (rel : RelItem) : ReadM Unit := do
  ensure (snap.hasClass rel.template) .fail
  let c ← acquire rel.template
  ensure (rel.attr ∈ c.attrIdx) .noMatch
  ensure (rel.topics.all snap.hasClass && decide rel.topics.Nodup) .fail

/-- **`knd_class_read`**. -/
def kndClassRead (self : ClassObj) (rec : ClassRecord) : ReadM ClassObj := do
  ensure (!self.resolvingInProgress) .fail   -- a vicious circle
  let self := { self with resolvingInProgress := true }
  let self ← rec.bases.foldlM (parseBaseclassArrayItem snap acquire) self
  let self ← rec.attrs.foldlM (readAttr snap) self
  ensure (rec.ancestors.all snap.hasClass) .fail
  ensure (rec.children.all snap.hasClass) .fail
  rec.rels.forM (parseRelItem snap acquire)
  return { self with resolvingInProgress := false, isResolved := true }

end Reading

/-- The class of an entry is exchanged for `c`, if it has none. -/
def publish (entry : Nat) (c : ClassObj) : ReadM ClassObj := fun s =>
  match s.classes entry with
  | some prev => .ok prev s
  | .none => .ok c { classes := Function.update s.classes entry (some c), published := entry :: s.published }

/-- **`knd_class_acquire`**, with the depth to which reads may nest: each takes a file, a page and a frame. -/
def kndClassAcquire (snap : Snapshot) : Nat → Nat → ReadM ClassObj
  | depth, entry => fun s =>
      match s.classes entry with
      | some c => .ok c s
      | .none =>
          match depth with
          | 0 => .error .nomem s
          | depth + 1 =>
              match snap.classes[entry]? with
              | .none => .error .noMatch s
              -- `knd_class_unmarshall` starts from a new class object
              | some rec => (kndClassRead snap (kndClassAcquire snap depth) {} rec >>= publish entry).run s


/-! ## (5) What a record leads to, and when it can be read -/

/-- The attributes of a class and its implied attribute. -/
structure Scope where
  /-- The ids in `attr_idx`. -/
  ids : Nat → Prop
  /-- `implied_attr`. -/
  implied : Option Nat

namespace Snapshot

variable (snap : Snapshot)

/-- The class of the values of an inner attribute. -/
def innerClass (id : Nat) : Option Nat :=
  match (snap.attrs id).type with
  | .inner => (snap.attrs id).refClass
  | _ => .none

/-- The classes of inner values. -/
def varRefs : AttrVars → List Nat
  | .nil => []
  | .var id _ children next => (snap.innerClass id).toList ++ (varRefs children ++ varRefs next)
  | .list id items next => (snap.innerClass id).toList ++ (varRefs items ++ varRefs next)
  | .item _ children next => varRefs children ++ varRefs next

/-- **The classes that are acquired** while a record is read: bases, classes of inner values, templates of inverse
relations. -/
def refs (rec : ClassRecord) : List Nat :=
  rec.bases.flatMap (fun item => item.base :: snap.varRefs item.vars) ++ rec.rels.map RelItem.template

/-- The record of a class names another class. -/
def Refers (entry entry' : Nat) : Prop := ∃ rec, snap.classes[entry]? = some rec ∧ entry' ∈ snap.refs rec

/-- **A class has an attribute**: its own, or one of a base. -/
inductive HasAttr : Nat → Nat → Prop
  | own {entry : Nat} {rec : ClassRecord} {id : Nat} (hrec : snap.classes[entry]? = some rec) (hid : id ∈ rec.attrs) :
      HasAttr entry id
  | base {entry : Nat} {rec : ClassRecord} {item : BaseItem} {id : Nat} (hrec : snap.classes[entry]? = some rec)
      (hitem : item ∈ rec.bases) (hid : HasAttr item.base id) : HasAttr entry id

/-- The last attribute of a record that is implied. -/
def implied (attrs : List Nat) (implied : Option Nat) : Option Nat :=
  attrs.foldl (fun implied id => if (snap.attrs id).isImplied then some id else implied) implied

/-- The scope of a class. -/
def scope (entry : Nat) : Scope where
  ids := snap.HasAttr entry
  implied := snap.classes[entry]?.bind fun rec => snap.implied rec.attrs .none

/-- An attribute is there, and an inner one has a class. -/
def Found (c : Option Scope) (id : Nat) : Prop :=
  (∃ scope, c = some scope ∧ scope.ids id) ∧ ((snap.attrs id).type = .inner → (snap.attrs id).refClass ≠ .none)

/-- **Attribute variables can be read** in the scope of a class: their attributes are there, and so are the strings
and the classes of their values. -/
def VarsReadable (c : Option Scope) (place : Place) : AttrVars → Prop
  | .nil => True
  | .var id value children next =>
      match place with
      | .items _ => False
      | .vars _ => snap.Found c id ∧
          setAttrVarValue snap (snap.attrs id).type ((snap.innerClass id).bind fun e => (snap.scope e).implied) value ∧
          VarsReadable ((snap.innerClass id).map snap.scope) (.vars false) children ∧ VarsReadable c place next
  | .list id items next =>
      match place with
      | .items _ => False
      | .vars top => snap.Found c id ∧
          VarsReadable (if top then (snap.innerClass id).map snap.scope else .none) (.items id) items ∧
          VarsReadable c place next
  | .item value children next =>
      match place with
      | .vars _ => False
      | .items id => setAttrVarName snap (snap.attrs id).type (c.bind Scope.implied) value ∧
          VarsReadable c (.vars false) children ∧ VarsReadable c place next

/-- The bases of a record can be read after others that have `ids`: values are of inherited attributes. -/
def BasesReadable (ids : Nat → Prop) : List BaseItem → Prop
  | [] => True
  | item :: items => snap.hasClass item.base ∧
      snap.VarsReadable (some ⟨fun id => ids id ∨ snap.HasAttr item.base id, .none⟩) (.vars true) item.vars ∧
      BasesReadable (fun id => ids id ∨ snap.HasAttr item.base id) items

/-- The attributes of a record can be read, and are new. -/
def AttrsReadable (ids : Nat → Prop) : List Nat → Prop
  | [] => True
  | id :: rest => (snap.attrs id).readable snap ∧ ¬ids id ∧ AttrsReadable (fun i => ids i ∨ i = id) rest

/-- An inverse relation can be read. -/
def RelReadable (rel : RelItem) : Prop :=
  snap.hasClass rel.template ∧ snap.HasAttr rel.template rel.attr ∧
    (rel.topics.all snap.hasClass && decide rel.topics.Nodup)

/-- The attributes of the bases of a record. -/
def Inherited (rec : ClassRecord) (id : Nat) : Prop := ∃ item ∈ rec.bases, snap.HasAttr item.base id

/-- **A record can be read.** -/
structure Readable (rec : ClassRecord) : Prop where
  bases : snap.BasesReadable (fun _ => False) rec.bases
  attrs : snap.AttrsReadable (snap.Inherited rec) rec.attrs
  ancestors : rec.ancestors.all snap.hasClass
  children : rec.children.all snap.hasClass
  rels : ∀ rel ∈ rec.rels, snap.RelReadable rel

/-- **Everything a class leads to can be read, and none of it leads back to itself.** -/
def LeadsOn (entry : Nat) : Prop :=
  ∀ e, ReflTransGen snap.Refers entry e →
    (∃ rec, snap.classes[e]? = some rec ∧ snap.Readable rec) ∧ ¬TransGen snap.Refers e e

end Snapshot

/-- **An acquisition ends**, with one class object for each entry that has been published. -/
def Ends (snap : Snapshot) (s : Cache) (entry : Nat) : Prop :=
  ∃ depth c s', (kndClassAcquire snap depth entry).run s = .ok c s' ∧ s'.classes entry = some c ∧
    ∀ e, s'.published.count e = if (s'.classes e).isSome then 1 else 0

/-- An acquisition of a class. -/
structure AcquireEvent where
  /-- `entry`. -/
  entry : Nat
  /-- The depth to which reads may nest. -/
  depth : Nat

/-- One acquisition, whatever it returns. -/
def step (snap : Snapshot) (s : Cache) (e : AcquireEvent) : Cache := finalState (kndClassAcquire snap e.depth e.entry) s

/-! ## (6) Attribute variables, read and checked -/

/-- A class object has what the scope says. -/
def Agrees (c : ClassObj) (scope : Scope) : Prop :=
  (∀ id, id ∈ c.attrIdx ↔ scope.ids id) ∧ c.impliedAttr = scope.implied

/-- The same of a class that may be missing. -/
inductive AgreesOpt : Option ClassObj → Option Scope → Prop
  | none : AgreesOpt .none .none
  | some {c : ClassObj} {scope : Scope} (h : Agrees c scope) : AgreesOpt (some c) (some scope)

theorem AgreesOpt.implied {c : Option ClassObj} {scope : Option Scope} (h : AgreesOpt c scope) :
    c.bind ClassObj.impliedAttr = scope.bind Scope.implied := by
  cases h with
  | none => rfl
  | some h => exact h.2

section Decided

variable {snap : Snapshot} {acquire : Nat → ReadM ClassObj} {I : Cache → Prop} {Loads Ready : Nat → Prop}

theorem decides_ensure {b b' : Bool} (hb : b = b') (e : KndErr) : Decides I (ensure b e) b' b' fun _ => True := by
  subst hb
  exact .ite (fun hb => .pure hb trivial) fun hb => .throw hb

/-- `build_attr_var` finds the attribute and acquires the class of an inner one. -/
theorem decides_buildAttrVar
    (hacquire : ∀ e, Decides I (acquire e) (Loads e) (Ready e) fun c => Agrees c (snap.scope e))
    {c : Option ClassObj} {scope : Option Scope} (hc : AgreesOpt c scope) (id : Nat) :
    Decides I (buildAttrVar snap acquire c id) ((∀ e ∈ (snap.innerClass id).toList, Loads e) ∧ snap.Found scope id)
      ((∀ e ∈ (snap.innerClass id).toList, Ready e) ∧ snap.Found scope id)
      fun inner => AgreesOpt inner ((snap.innerClass id).map snap.scope) := by
  unfold buildAttrVar
  cases hc with
  | none =>
      refine .throw fun ⟨_, hfound, _⟩ => ?_
      obtain ⟨scope, hscope, -⟩ := hfound
      cases hscope
  | @some c scope h =>
      refine .ite (fun hid => ?_) fun hid => .throw fun ⟨_, hfound, _⟩ => ?_
      · have hfound : ∃ scope', some scope = some scope' ∧ scope'.ids id := ⟨scope, rfl, (h.1 id).mp hid⟩
        unfold Snapshot.Found Snapshot.innerClass
        cases htype : (snap.attrs id).type with
        | inner =>
            cases href : (snap.attrs id).refClass with
            | none => exact .throw fun ⟨_, _, hne⟩ => hne rfl rfl
            | some e =>
                simp only [Option.toList_some, List.forall_mem_singleton, Option.map_some]
                have hinner : Decides I (acquire e >>= fun c' => pure (some c')) (Loads e) (Ready e)
                    fun inner => AgreesOpt inner (some (snap.scope e)) := (hacquire e).map fun c' hc' => .some hc'
                exact hinner.mono (fun hL => ⟨hL, hfound, by simp⟩) And.left fun _ h => h
        | _ =>
            refine .pure ⟨by simp, hfound, by simp⟩ ?_
            exact .none
      · obtain ⟨scope', hscope', hids⟩ := hfound
        cases hscope'
        exact hid ((h.1 id).mpr hids)

/-- **Attribute variables are read** when they can be, and the classes of inner values are acquired. -/
theorem decides_readAttrVars
    (hacquire : ∀ e, Decides I (acquire e) (Loads e) (Ready e) fun c => Agrees c (snap.scope e)) (vars : AttrVars)
    {c : Option ClassObj} {scope : Option Scope} (hc : AgreesOpt c scope) (place : Place) :
    Decides I (readAttrVars snap acquire c place vars)
      ((∀ e ∈ snap.varRefs vars, Loads e) ∧ snap.VarsReadable scope place vars)
      ((∀ e ∈ snap.varRefs vars, Ready e) ∧ snap.VarsReadable scope place vars) fun _ => True := by
  have hvalue : ∀ id value inner, AgreesOpt inner ((snap.innerClass id).map snap.scope) →
      setAttrVarValue snap (snap.attrs id).type (inner.bind ClassObj.impliedAttr) value = setAttrVarValue snap
        (snap.attrs id).type ((snap.innerClass id).bind fun e => (snap.scope e).implied) value := by
    intro id value inner hinner
    rw [hinner.implied, Option.bind_map]
    rfl
  induction vars generalizing c scope place with
  | nil => exact .pure ⟨List.forall_mem_nil _, trivial⟩ trivial
  | var id value children next ihChildren ihNext =>
      cases place with
      | items attr => exact .throw And.right
      | vars top =>
          simp only [readAttrVars, Snapshot.varRefs, Snapshot.VarsReadable, List.forall_mem_append]
          refine ((decides_buildAttrVar hacquire hc id).bind fun inner hinner =>
            (decides_ensure (hvalue id value inner hinner) .fail).bind fun _ _ =>
              (ihChildren hinner (.vars false)).bind fun _ _ => ihNext hc (.vars top)).mono ?_ ?_ fun _ h => h
          · rintro ⟨⟨hinner, hfound⟩, hval, ⟨hchildren, hvars⟩, hnext, hrest⟩
            exact ⟨⟨hinner, hchildren, hnext⟩, hfound, hval, hvars, hrest⟩
          · rintro ⟨⟨hinner, hchildren, hnext⟩, hfound, hval, hvars, hrest⟩
            exact ⟨⟨hinner, hfound⟩, hval, ⟨hchildren, hvars⟩, hnext, hrest⟩
  | list id items next ihItems ihNext =>
      cases place with
      | items attr => exact .throw And.right
      | vars top =>
          simp only [readAttrVars, Snapshot.varRefs, Snapshot.VarsReadable, List.forall_mem_append]
          -- the items of a nested list have no class
          have hitems : ∀ inner, AgreesOpt inner ((snap.innerClass id).map snap.scope) →
              AgreesOpt (if top then inner else .none)
                (if top then (snap.innerClass id).map snap.scope else .none) := by
            intro inner hinner
            cases top with
            | true => exact hinner
            | false => exact .none
          refine ((decides_buildAttrVar hacquire hc id).bind fun inner hinner =>
            (ihItems (hitems inner hinner) (.items id)).bind fun _ _ => ihNext hc (.vars top)).mono ?_ ?_ fun _ h => h
          · rintro ⟨⟨hinner, hfound⟩, ⟨hitems, hvars⟩, hnext, hrest⟩
            exact ⟨⟨hinner, hitems, hnext⟩, hfound, hvars, hrest⟩
          · rintro ⟨⟨hinner, hitems, hnext⟩, hfound, hvars, hrest⟩
            exact ⟨⟨hinner, hfound⟩, ⟨hitems, hvars⟩, hnext, hrest⟩
  | item value children next ihChildren ihNext =>
      cases place with
      | vars top => exact .throw And.right
      | items attr =>
          simp only [readAttrVars, Snapshot.varRefs, Snapshot.VarsReadable, List.forall_mem_append, hc.implied]
          refine ((decides_ensure rfl .fail).bind fun _ _ => (ihChildren hc (.vars false)).bind fun _ _ =>
            ihNext hc (.items attr)).mono ?_ ?_ fun _ h => h
          · rintro ⟨hval, ⟨hchildren, hvars⟩, hnext, hrest⟩
            exact ⟨⟨hchildren, hnext⟩, hval, hvars, hrest⟩
          · rintro ⟨⟨hchildren, hnext⟩, hval, hvars, hrest⟩
            exact ⟨hval, ⟨hchildren, hvars⟩, hnext, hrest⟩

/-! ## (7) Records, read and checked -/

/-- The bases of a record, with what was inherited before. -/
theorem decides_bases
    (hacquire : ∀ e, Decides I (acquire e) (Loads e) (Ready e) fun c => Agrees c (snap.scope e))
    (items : List BaseItem) {self : ClassObj} {ids : Nat → Prop} (hself : Agrees self ⟨ids, .none⟩) :
    Decides I (items.foldlM (parseBaseclassArrayItem snap acquire) self)
      ((∀ e ∈ items.flatMap fun item => item.base :: snap.varRefs item.vars, Loads e) ∧ snap.BasesReadable ids items)
      ((∀ e ∈ items.flatMap fun item => item.base :: snap.varRefs item.vars, Ready e) ∧ snap.BasesReadable ids items)
      fun c => Agrees c ⟨fun id => ids id ∨ ∃ item ∈ items, snap.HasAttr item.base id, .none⟩ := by
  induction items generalizing self ids with
  | nil =>
      refine .pure ⟨List.forall_mem_nil _, trivial⟩ ⟨fun id => ?_, hself.2⟩
      simpa using hself.1 id
  | cons item items ih =>
      have hinherit : ∀ base, Agrees base (snap.scope item.base) →
          Agrees (self.inherit base) ⟨fun id => ids id ∨ snap.HasAttr item.base id, .none⟩ := by
        intro base hbase
        refine ⟨fun id => ?_, hself.2⟩
        have hown : id ∈ self.attrIdx ↔ ids id := hself.1 id
        have hof : id ∈ base.attrIdx ↔ snap.HasAttr item.base id := hbase.1 id
        simp only [ClassObj.inherit, List.mem_append, List.mem_filter, decide_eq_true_eq]
        rw [← hown, ← hof]
        by_cases hid : id ∈ self.attrIdx
        · simp [hid]
        · simp [hid]
      have hitem : Decides I (parseBaseclassArrayItem snap acquire self item)
          ((∀ e ∈ item.base :: snap.varRefs item.vars, Loads e) ∧ snap.hasClass item.base ∧
            snap.VarsReadable (some ⟨fun id => ids id ∨ snap.HasAttr item.base id, .none⟩) (.vars true) item.vars)
          ((∀ e ∈ item.base :: snap.varRefs item.vars, Ready e) ∧ snap.hasClass item.base ∧
            snap.VarsReadable (some ⟨fun id => ids id ∨ snap.HasAttr item.base id, .none⟩) (.vars true) item.vars)
          fun c => Agrees c ⟨fun id => ids id ∨ snap.HasAttr item.base id, .none⟩ := by
        simp only [List.forall_mem_cons]
        refine ((decides_ensure rfl .fail).bind fun _ _ => (hacquire item.base).bind fun base hbase =>
          (decides_readAttrVars hacquire item.vars (.some (hinherit base hbase)) (.vars true)).map fun _ _ =>
            hinherit base hbase).mono ?_ ?_ fun _ h => h
        · rintro ⟨hknown, hbase, hvars, hreadable⟩
          exact ⟨⟨hbase, hvars⟩, hknown, hreadable⟩
        · rintro ⟨⟨hbase, hvars⟩, hknown, hreadable⟩
          exact ⟨hknown, hbase, hvars, hreadable⟩
      simp only [List.flatMap_cons, List.forall_mem_append]
      refine (hitem.bind fun c hc => ih hc).mono ?_ ?_ fun c hc => ⟨fun id => ?_, hc.2⟩
      · rintro ⟨⟨hitem, hknown, hvars⟩, hitems, hrest⟩
        exact ⟨⟨hitem, hitems⟩, hknown, hvars, hrest⟩
      · rintro ⟨⟨hitem, hitems⟩, hknown, hvars, hrest⟩
        exact ⟨⟨hitem, hknown, hvars⟩, hitems, hrest⟩
      · refine (hc.1 id).trans ?_
        simp only [List.exists_mem_cons_iff, or_assoc]

/-- The attributes of a record, with those that were there before. -/
theorem decides_attrs (attrs : List Nat) {self : ClassObj} {scope : Scope} (hself : Agrees self scope) :
    Decides I (attrs.foldlM (readAttr snap) self) (snap.AttrsReadable scope.ids attrs)
      (snap.AttrsReadable scope.ids attrs)
      fun c => Agrees c ⟨fun id => scope.ids id ∨ id ∈ attrs, snap.implied attrs scope.implied⟩ := by
  induction attrs generalizing self scope with
  | nil =>
      refine .pure trivial ⟨fun id => ?_, hself.2⟩
      simpa using hself.1 id
  | cons a attrs ih =>
      have hadd : Agrees (self.addAttr snap a)
          ⟨fun id => scope.ids id ∨ id = a, if (snap.attrs a).isImplied then some a else scope.implied⟩ := by
        refine ⟨fun id => ?_, ?_⟩
        · simp only [ClassObj.addAttr, List.mem_append, List.mem_singleton, hself.1 id]
        · simp only [ClassObj.addAttr, hself.2]
      have hnew : (decide (a ∉ self.attrIdx)) = true ↔ ¬scope.ids a := by simp [hself.1 a]
      have hattr : Decides I (readAttr snap self a) ((snap.attrs a).readable snap ∧ ¬scope.ids a)
          ((snap.attrs a).readable snap ∧ ¬scope.ids a) fun c => Agrees c
            ⟨fun id => scope.ids id ∨ id = a, if (snap.attrs a).isImplied then some a else scope.implied⟩ := by
        have hfresh : Decides I (ensure (a ∉ self.attrIdx) .conflict) (¬scope.ids a) (¬scope.ids a) fun _ => True :=
          (decides_ensure rfl .conflict).mono hnew.mp hnew.mpr fun _ h => h
        exact (decides_ensure rfl .fail).bind fun _ _ => hfresh.map fun _ _ => hadd
      refine (hattr.bind fun c hc => ih hc).mono ?_ ?_ fun c hc => ⟨fun id => ?_, hc.2⟩
      · rintro ⟨⟨hreadable, hnot⟩, hrest⟩
        exact ⟨hreadable, hnot, hrest⟩
      · rintro ⟨hreadable, hnot, hrest⟩
        exact ⟨⟨hreadable, hnot⟩, hrest⟩
      · refine (hc.1 id).trans ?_
        simp only [List.mem_cons, or_assoc]

/-- An inverse relation acquires its template. -/
theorem decides_parseRelItem
    (hacquire : ∀ e, Decides I (acquire e) (Loads e) (Ready e) fun c => Agrees c (snap.scope e)) (rel : RelItem) :
    Decides I (parseRelItem snap acquire rel) (Loads rel.template ∧ snap.RelReadable rel)
      (Ready rel.template ∧ snap.RelReadable rel) fun _ => True := by
  have hattr : ∀ c, Agrees c (snap.scope rel.template) → Decides I (ensure (rel.attr ∈ c.attrIdx) .noMatch)
      (snap.HasAttr rel.template rel.attr) (snap.HasAttr rel.template rel.attr) fun _ => True := by
    intro c hc
    have hid : (decide (rel.attr ∈ c.attrIdx)) = true ↔ snap.HasAttr rel.template rel.attr := by
      rw [decide_eq_true_eq]
      exact hc.1 rel.attr
    exact (decides_ensure rfl .noMatch).mono hid.mp hid.mpr fun _ h => h
  refine ((decides_ensure rfl .fail).bind fun _ _ => (hacquire rel.template).bind fun c hc =>
    (hattr c hc).bind fun _ _ => decides_ensure rfl .fail).mono ?_ ?_ fun _ h => h
  · rintro ⟨hknown, htemplate, hhas, htopics⟩
    exact ⟨htemplate, hknown, hhas, htopics⟩
  · rintro ⟨htemplate, hknown, hhas, htopics⟩
    exact ⟨hknown, htemplate, hhas, htopics⟩

/-- **A record is read** when it can be and when the classes it names are acquired. -/
theorem decides_kndClassRead
    (hacquire : ∀ e, Decides I (acquire e) (Loads e) (Ready e) fun c => Agrees c (snap.scope e)) (rec : ClassRecord) :
    Decides I (kndClassRead snap acquire {} rec) ((∀ e ∈ snap.refs rec, Loads e) ∧ snap.Readable rec)
      ((∀ e ∈ snap.refs rec, Ready e) ∧ snap.Readable rec)
      fun c => Agrees c ⟨fun id => snap.Inherited rec id ∨ id ∈ rec.attrs, snap.implied rec.attrs .none⟩ := by
  have hnew : Agrees { resolvingInProgress := true } ⟨fun _ => False, .none⟩ := ⟨fun id => by simp, rfl⟩
  have hbases : ∀ c, Agrees c ⟨fun id => False ∨ ∃ item ∈ rec.bases, snap.HasAttr item.base id, .none⟩ →
      Agrees c ⟨snap.Inherited rec, .none⟩ := by
    intro c hc
    exact ⟨fun id => (hc.1 id).trans (by simp [Snapshot.Inherited]), hc.2⟩
  unfold kndClassRead
  simp only [Snapshot.refs, List.forall_mem_append, List.forall_mem_map]
  refine ((decides_ensure rfl .fail).bind fun _ _ => (decides_bases hacquire rec.bases hnew).bind fun c hc =>
    (decides_attrs rec.attrs (hbases c hc)).bind fun c' hc' => (decides_ensure rfl .fail).bind fun _ _ =>
      (decides_ensure rfl .fail).bind fun _ _ =>
        (Decides.forM (decides_parseRelItem hacquire)).map fun _ _ => ⟨hc'.1, hc'.2⟩).mono ?_ ?_ fun _ h => h
  · rintro ⟨-, ⟨hbase, hbases⟩, hattrs, hancestors, hchildren, hrels⟩
    exact ⟨⟨hbase, fun rel hrel => (hrels rel hrel).1⟩, hbases, hattrs, hancestors, hchildren,
      fun rel hrel => (hrels rel hrel).2⟩
  · rintro ⟨⟨hbase, htemplates⟩, hread⟩
    exact ⟨rfl, ⟨hbase, hread.bases⟩, hread.attrs, hread.ancestors, hread.children,
      fun rel hrel => ⟨htemplates rel hrel, hread.rels rel hrel⟩⟩

end Decided

/-! ## (8) Acquisitions -/

/-- **A class can be loaded** when its record can be read and the classes it names can be loaded. -/
inductive Snapshot.Loadable (snap : Snapshot) : Nat → Prop
  | intro {entry : Nat} {rec : ClassRecord} (hrec : snap.classes[entry]? = some rec) (hread : snap.Readable rec)
      (hrefs : ∀ e ∈ snap.refs rec, snap.Loadable e) : snap.Loadable entry

/-- The same by reads that nest no deeper than `depth`. -/
def Snapshot.LoadableIn (snap : Snapshot) : Nat → Nat → Prop
  | 0, _ => False
  | depth + 1, entry => ∃ rec, snap.classes[entry]? = some rec ∧ snap.Readable rec ∧
      ∀ e ∈ snap.refs rec, snap.LoadableIn depth e

/-- **What was published** can be loaded, has what its scope says, and was published once. -/
structure Cached (snap : Snapshot) (s : Cache) : Prop where
  classes : ∀ (e : Nat) (c : ClassObj), s.classes e = some c → snap.Loadable e ∧ Agrees c (snap.scope e)
  published : ∀ e, s.published.count e = if (s.classes e).isSome then 1 else 0

section Acquired

variable {snap : Snapshot}

/-- The scope of a class is the one its record describes. -/
theorem agrees_scope {entry : Nat} {rec : ClassRecord} (hrec : snap.classes[entry]? = some rec) {c : ClassObj}
    (hc : Agrees c ⟨fun id => snap.Inherited rec id ∨ id ∈ rec.attrs, snap.implied rec.attrs .none⟩) :
    Agrees c (snap.scope entry) := by
  refine ⟨fun id => (hc.1 id).trans ⟨?_, fun h => ?_⟩, ?_⟩
  · rintro (⟨item, hitem, hid⟩ | hid)
    · exact .base hrec hitem hid
    · exact .own hrec hid
  · cases h with
    | own hrec' hid =>
        obtain rfl := Option.some.inj (hrec.symm.trans hrec')
        exact .inr hid
    | base hrec' hitem hid =>
        obtain rfl := Option.some.inj (hrec.symm.trans hrec')
        exact .inl ⟨_, hitem, hid⟩
  · rw [hc.2, Snapshot.scope, hrec]
    rfl

/-- **A class is published** once. -/
theorem Cached.publish {s : Cache} (h : Cached snap s) {entry : Nat} (hnone : s.classes entry = .none) {c : ClassObj}
    (hload : snap.Loadable entry) (hc : Agrees c (snap.scope entry)) :
    Cached snap { classes := Function.update s.classes entry (some c), published := entry :: s.published } := by
  refine ⟨fun e c' hc' => ?_, fun e => ?_⟩
  · by_cases he : e = entry
    · subst he
      simp only [Function.update_self] at hc'
      obtain rfl := Option.some.inj hc'
      exact ⟨hload, hc⟩
    · simp only [Function.update_of_ne he] at hc'
      exact h.classes e c' hc'
  · by_cases he : e = entry
    · subst he
      have hcount := h.published e
      rw [hnone] at hcount
      simp only [List.count_cons_self, Function.update_self, hcount]
      rfl
    · simp only [List.count_cons_of_ne (Ne.symm he), Function.update_of_ne he]
      exact h.published e

/-- **`knd_class_acquire`** publishes what can be loaded, and nothing else. -/
theorem decides_kndClassAcquire (depth entry : Nat) :
    Decides (Cached snap) (kndClassAcquire snap depth entry) (snap.Loadable entry) (snap.LoadableIn depth entry)
      fun c => Agrees c (snap.scope entry) := by
  induction depth generalizing entry with
  | zero =>
      refine ⟨fun s hs => ?_, fun h => h.elim⟩
      unfold Yields kndClassAcquire
      simp only [EStateM.run]
      cases hclass : s.classes entry with
      | none => exact hs
      | some c => exact ⟨hs, hs.classes entry c hclass⟩
  | succ depth ih =>
      have hread := fun rec => decides_kndClassRead ih rec
      refine ⟨fun s hs => ?_, fun ⟨rec, hrec, hreadable, hrefs⟩ s hs => ?_⟩
      · cases hclass : s.classes entry with
        | some c =>
            have hrun : (kndClassAcquire snap (depth + 1) entry).run s = .ok c s := by
              simp only [kndClassAcquire, EStateM.run, hclass]
            exact Yields.returning hrun ⟨hs, hs.classes entry c hclass⟩
        | none =>
            cases hrec : snap.classes[entry]? with
            | none =>
                have hrun : (kndClassAcquire snap (depth + 1) entry).run s = .error .noMatch s := by
                  simp only [kndClassAcquire, EStateM.run, hclass, hrec]
                refine Yields.intro (fun a s' hrun' => ?_) fun e s' hrun' => ?_
                · rw [hrun] at hrun'
                  cases hrun'
                · rw [hrun] at hrun'
                  cases hrun'
                  exact hs
            | some rec =>
                have hrun : (kndClassAcquire snap (depth + 1) entry).run s
                    = (kndClassRead snap (kndClassAcquire snap depth) {} rec >>= publish entry).run s := by
                  simp only [kndClassAcquire, EStateM.run, hclass, hrec]
                unfold Yields
                rw [hrun]
                refine ((hread rec).sound s hs).bind fun c s₁ ⟨hs₁, ⟨hrefs, hreadable⟩, hc⟩ => ?_
                have hload : snap.Loadable entry := .intro hrec hreadable hrefs
                have hagrees := agrees_scope hrec hc
                unfold publish
                cases hclass₁ : s₁.classes entry with
                | none =>
                    refine Yields.returning (a := c) (by simp only [EStateM.run, hclass₁]; rfl) ⟨?_, hload, hagrees⟩
                    exact hs₁.publish hclass₁ hload hagrees
                | some prev =>
                    refine Yields.returning (a := prev) (by simp only [EStateM.run, hclass₁]; rfl) ?_
                    exact ⟨hs₁, hs₁.classes entry prev hclass₁⟩
      · cases hclass : s.classes entry with
        | some c => exact ⟨c, s, by simp only [kndClassAcquire, EStateM.run, hclass]⟩
        | none =>
            obtain ⟨c, s₁, hrun⟩ := (hread rec).total ⟨hrefs, hreadable⟩ s hs
            have hpublish : ∃ c' s₂, (publish entry c).run s₁ = .ok c' s₂ := by
              unfold publish
              cases hclass₁ : s₁.classes entry with
              | none => exact ⟨c, _, by simp only [EStateM.run, hclass₁]; rfl⟩
              | some prev => exact ⟨prev, s₁, by simp only [EStateM.run, hclass₁]⟩
            obtain ⟨c', s₂, hpublish⟩ := hpublish
            refine ⟨c', s₂, ?_⟩
            simp only [kndClassAcquire, EStateM.run, hclass, hrec]
            exact (run_bind_of_ok hrun).trans hpublish

/-- The class that is returned is the one of the entry. -/
theorem classes_of_kndClassAcquire {depth entry : Nat} {s s' : Cache} {c : ClassObj}
    (hrun : (kndClassAcquire snap depth entry).run s = .ok c s') : s'.classes entry = some c := by
  cases hclass : s.classes entry with
  | some prev =>
      have hprev : (kndClassAcquire snap depth entry).run s = .ok prev s := by
        unfold kndClassAcquire
        simp only [EStateM.run, hclass]
      rw [hprev] at hrun
      cases hrun
      exact hclass
  | none =>
      cases depth with
      | zero =>
          simp only [kndClassAcquire, EStateM.run, hclass] at hrun
          cases hrun
      | succ depth =>
          cases hrec : snap.classes[entry]? with
          | none =>
              simp only [kndClassAcquire, EStateM.run, hclass, hrec] at hrun
              cases hrun
          | some rec =>
              simp only [kndClassAcquire, EStateM.run, hclass, hrec] at hrun
              obtain ⟨c₁, s₁, -, hpublish⟩ := run_bind_eq_ok.mp hrun
              unfold publish at hpublish
              cases hclass₁ : s₁.classes entry with
              | none =>
                  simp only [EStateM.run, hclass₁] at hpublish
                  cases hpublish
                  exact Function.update_self ..
              | some prev =>
                  simp only [EStateM.run, hclass₁] at hpublish
                  cases hpublish
                  exact hclass₁

/-- A greater depth does no harm. -/
theorem Snapshot.LoadableIn.mono {depth depth' entry : Nat} (h : snap.LoadableIn depth entry) (hle : depth ≤ depth') :
    snap.LoadableIn depth' entry := by
  induction depth generalizing depth' entry with
  | zero => exact h.elim
  | succ depth ih =>
      obtain ⟨rec, hrec, hread, hrefs⟩ := h
      obtain ⟨depth', rfl⟩ : ∃ d, depth' = d + 1 := ⟨depth' - 1, by omega⟩
      exact ⟨rec, hrec, hread, fun e he => ih (hrefs e he) (by omega)⟩

/-- What can be loaded can be loaded by reads of some depth. -/
theorem Snapshot.Loadable.exists_depth {entry : Nat} (h : snap.Loadable entry) :
    ∃ depth, snap.LoadableIn depth entry := by
  induction h with
  | @intro entry rec hrec hread hrefs ih =>
      have hall : ∀ l : List Nat, (∀ e ∈ l, ∃ depth, snap.LoadableIn depth e) →
          ∃ depth, ∀ e ∈ l, snap.LoadableIn depth e := by
        intro l hl
        induction l with
        | nil => exact ⟨0, List.forall_mem_nil _⟩
        | cons e l ihl =>
            rw [List.forall_mem_cons] at hl
            obtain ⟨depth, hdepth⟩ := hl.1
            obtain ⟨depth', hdepth'⟩ := ihl hl.2
            refine ⟨max depth depth', List.forall_mem_cons.mpr ⟨hdepth.mono (Nat.le_max_left ..), fun e' he' => ?_⟩⟩
            exact (hdepth' e' he').mono (Nat.le_max_right ..)
      obtain ⟨depth, hdepth⟩ := hall (snap.refs rec) ih
      exact ⟨depth + 1, rec, hrec, hread, hdepth⟩

/-- **An acquisition ends** when the class can be loaded, and only then. -/
theorem ends_iff_loadable {s : Cache} (hs : Cached snap s) (entry : Nat) : Ends snap s entry ↔ snap.Loadable entry := by
  constructor
  · rintro ⟨depth, c, s', hrun, -, -⟩
    exact (((decides_kndClassAcquire depth entry).sound s hs).of_ok hrun).2.1
  · intro h
    obtain ⟨depth, hdepth⟩ := h.exists_depth
    obtain ⟨c, s', hrun⟩ := (decides_kndClassAcquire depth entry).total hdepth s hs
    exact ⟨depth, c, s', hrun, classes_of_kndClassAcquire hrun,
      (((decides_kndClassAcquire depth entry).sound s hs).of_ok hrun).1.published⟩

/-! ## (9) No class leads back to itself -/

theorem Snapshot.Loadable.record {entry : Nat} (h : snap.Loadable entry) :
    ∃ rec, snap.classes[entry]? = some rec ∧ snap.Readable rec := by
  cases h with
  | intro hrec hread hrefs => exact ⟨_, hrec, hread⟩

theorem Snapshot.Loadable.of_refers {entry e : Nat} (h : snap.Loadable entry) (hrefers : snap.Refers entry e) :
    snap.Loadable e := by
  obtain ⟨rec, hrec, he⟩ := hrefers
  cases h with
  | intro hrec' hread hrefs =>
      obtain rfl := Option.some.inj (hrec.symm.trans hrec')
      exact hrefs e he

/-- What can be loaded leads to what can be loaded. -/
theorem Snapshot.Loadable.of_leads {entry e : Nat} (h : snap.Loadable entry)
    (hleads : ReflTransGen snap.Refers entry e) : snap.Loadable e := by
  induction hleads with
  | refl => exact h
  | tail _ hrefers ih => exact ih.of_refers hrefers

/-- What can be loaded does not lead back to itself. -/
theorem Snapshot.Loadable.not_cyclic {entry : Nat} (h : snap.Loadable entry) : ¬TransGen snap.Refers entry entry := by
  induction h with
  | @intro entry rec hrec hread hrefs ih =>
      intro hcycle
      obtain ⟨e, hrefers, hback⟩ := TransGen.head'_iff.mp hcycle
      obtain ⟨rec', hrec', he⟩ := hrefers
      obtain rfl := Option.some.inj (hrec.symm.trans hrec')
      -- the class that is named leads back to itself as well
      exact ih e he (TransGen.tail' hback ⟨rec, hrec, he⟩)

/-- **What can be loaded** is what leads to records that can be read, and not back. -/
theorem loadable_iff (entry : Nat) : snap.Loadable entry ↔ snap.LeadsOn entry := by
  constructor
  · intro h e hleads
    exact ⟨(h.of_leads hleads).record, (h.of_leads hleads).not_cyclic⟩
  · intro h
    -- the classes below the entry are finitely many, and their references descend
    let Below := { i : Fin snap.classes.length // ReflTransGen snap.Refers entry i }
    let r : Below → Below → Prop := fun a b => TransGen snap.Refers b.1 a.1
    have htrans : IsTrans Below r := ⟨fun a b c hab hbc => TransGen.trans hbc hab⟩
    have hirrefl : Std.Irrefl r := ⟨fun a ha => (h a.1 a.2).2 ha⟩
    have hwf : WellFounded r := Finite.wellFounded_of_trans_of_irrefl r
    have hlt : ∀ e, ReflTransGen snap.Refers entry e → e < snap.classes.length := by
      intro e hleads
      obtain ⟨rec, hrec, -⟩ := (h e hleads).1
      exact (List.getElem?_eq_some_iff.mp hrec).1
    have hall : ∀ b : Below, snap.Loadable b.1 := by
      intro b
      induction b using hwf.induction with
      | _ b ih =>
          obtain ⟨rec, hrec, hread⟩ := (h b.1 b.2).1
          refine .intro hrec hread fun e he => ?_
          have hrefers : snap.Refers b.1 e := ⟨rec, hrec, he⟩
          have hleads : ReflTransGen snap.Refers entry e := b.2.tail hrefers
          exact ih ⟨⟨e, hlt e hleads⟩, hleads⟩ (.single hrefers)
    exact hall ⟨⟨entry, hlt entry .refl⟩, .refl⟩

/-! ## (10) Runs of acquisitions -/

theorem cached_new : Cached snap {} := by
  refine ⟨fun e c hc => ?_, fun e => rfl⟩
  cases hc

/-- **Every acquisition** publishes only what can be loaded. -/
theorem Cached.step {s : Cache} (h : Cached snap s) (e : AcquireEvent) : Cached snap (step snap s e) := by
  refine Yields.iff_finalState.mp ?_
  exact ((decides_kndClassAcquire e.depth e.entry).sound s h).mono (fun _ _ hs => hs.1) fun _ hs => hs

/-- **An acquisition of a class ends**, after any others, exactly when no class it leads to leads back to itself and
all of them can be read. -/
theorem ends_iff (snap : Snapshot) {s : Cache} (hrun : Reaches (step snap) (fun _ _ => True) {} s) (entry : Nat) :
    Ends snap s entry ↔ snap.LeadsOn entry := by
  have hs : Cached snap s := hrun.invariant cached_new fun _ e h _ => h.step e
  exact (ends_iff_loadable hs entry).trans (loadable_iff entry)

end Acquired

/-- `Thing`, `Person`, which is a `Thing` and has a reference to a `Thing`, and `Alice`, who is a `Person` and refers
to `Thing`: the record of `Thing` has an inverse relation of the template `Person`. -/
def referrers : Snapshot where
  classes := [{ children := [1], rels := [{ template := 1, attr := 0, topics := [2] }] },
    { bases := [{ base := 0 }], attrs := [0], ancestors := [0], children := [2] },
    { bases := [{ base := 1, vars := .var 0 (.code 0) .nil .nil }], ancestors := [0, 1] }]
  attrs _ := { type := .ref, refClass := some 0 }

theorem ends_iff_referrers : Ends referrers {} 2 ↔ referrers.LeadsOn 2 := ends_iff referrers .refl 2

/-- **No class can be acquired** where a class has an inverse relation whose template descends from it. -/
theorem not_ends_referrers : ¬Ends referrers {} 0 := by
  rw [ends_iff_loadable cached_new]
  intro h
  have hperson : referrers.Refers 0 1 := ⟨_, rfl, by decide⟩
  have hthing : referrers.Refers 1 0 := ⟨_, rfl, by decide⟩
  exact h.not_cyclic (.tail (.single hperson) hthing)
end ClassReading

end Knowdy
