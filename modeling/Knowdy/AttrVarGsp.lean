import Knowdy.ClassReading
import Knowdy.TextGsp

/-! # Attribute variables in a snapshot

`knd_attr_vars_export_GSP` writes the attribute variables of an object as fields of its record, and
`knd_read_attr_var` reads one such field. Both go down into inner variables and into lists; a nested variable is linked
in at the front while it is read, an item of a list at the end.

* `Attr`, `Cls`, `AttrVar`, `Node`, `Env` — the data.
* `childExport`, `itemsExport`, `varsExport` — writing.
* `readFields`, `readItems`, `readAttrVar` — reading.
* `related_varsExport` — what two exporters write, when the second one gets other strings.
* `follows_varsExport` — what is written is determined by the strings that the table holds at the end. -/

namespace Knowdy.AttrVarRecords

open Records StringCodes
open ClassReading (AttrType)
open GlossExports (bytes)
open TextGsp (Text TextEnv textExport textRead)

/-! ## (1) Data -/

/-- **`struct kndClassEntry`.** Two entries are the same object when they have the same address. -/
structure ClassEntry where
  /-- The address. -/
  addr : Nat
  /-- The number that the id is made from. -/
  numid : Nat
  deriving DecidableEq, Repr

/-- **`struct kndAttr`.** -/
structure Attr where
  /-- The number that the id is made from. -/
  numid : Nat
  /-- The name. -/
  name : Name
  /-- What the values are. -/
  type : AttrType
  /-- Does a variable have a list of values? -/
  isASet : Bool := false
  /-- From which level on it is shown in short forms, if in any. -/
  conciseLevel : Nat := 0
  /-- The class of inner values. -/
  refClassEntry : Option ClassEntry := none
  deriving DecidableEq

/-- `id`. -/
def ClassEntry.id (entry : ClassEntry) : List UInt8 := kndUidCreate entry.numid

/-- `id`. -/
def Attr.id (attr : Attr) : List UInt8 := kndUidCreate attr.numid

/-- **`struct kndClass`**, as far as variables are read with it. -/
structure Cls where
  /-- The attributes in `attr_idx`, which are found by their ids. -/
  attrs : List Attr
  /-- The attribute that a value without a name belongs to. -/
  impliedAttr : Option Attr := none

/-- `knd_set_get` in `attr_idx`. -/
def Cls.attr (c : Cls) (id : List UInt8) : Checked KndErr Fault Attr :=
  match c.attrs.find? fun attr => attr.id = id with
  | none => .err .noMatch
  | some attr => .ok attr

/-- What `knd_resolve_attr_vars` finds for a value, beside the class. -/
structure Resolution where
  /-- The number that the digits of a number denote. -/
  numval : Int := 0
  /-- The attribute that a value names. -/
  refAttr : Option Attr := none
  /-- The address of the procedure that a value names. -/
  procEntry : Option Nat := none
  deriving DecidableEq

/-- **`struct kndAttrVar`**, without its links. -/
structure AttrVar (κ σ : Type) where
  /-- The attribute that has a value here; an item of a list has none. -/
  attr : Option Attr := none
  /-- The name of the attribute; for an item of a list the value itself. -/
  name : Name := []
  /-- The value as it was given, or the id that was read for it. -/
  val : Name := []
  /-- The attribute that a value without a name belongs to. -/
  impliedAttr : Option Attr := none
  /-- The class that a reference names. -/
  classEntry : Option ClassEntry := none
  /-- The instance behind the class of a reference. -/
  classInstName : Name := []
  /-- The text, for an attribute of texts. -/
  text : Option (Text κ σ) := none
  /-- What else the value was resolved to. -/
  resolved : Resolution := {}

/-- **A variable with its `children` and its `list`.** -/
inductive Node (κ σ : Type) where
  | mk (var : AttrVar κ σ) (children list : List (Node κ σ))

/-- What variables are read with. -/
structure Env (κ σ : Type) extends TextEnv κ σ where
  /-- `knd_shared_set_get` in the `class_idx` of the repository. -/
  classIdx : List UInt8 → Except KndErr ClassEntry
  /-- `knd_get_class_entry_by_id`, which also looks into the base repositories. -/
  classEntryById : List UInt8 → Except KndErr ClassEntry
  /-- `knd_class_acquire`. -/
  acquire : ClassEntry → Except KndErr Cls

variable {κ σ : Type}

/-! ## (2) Writing -/

section Export

variable {m : Type → Type} [Monad m] (c : Coder m) (env : TextEnv κ σ)

/-- The id of `class_entry`. -/
def entryExport (var : AttrVar κ σ) : m (List UInt8) :=
  match var.classEntry with
  | none => c.lift (.fault .null)
  | some entry => return entry.id

/-- `text` behind the tag `_t`. -/
def textVarExport (var : AttrVar κ σ) : m Rec :=
  match var.text with
  | none => c.lift (.fault .null)
  | some text => do
      let body ← c.lift (textExport env text)
      return .mk [] [.clause (bytes "_t") body]

/-- The beginning of `inner_var_export_GSP`: the value of the implied attribute. -/
def impliedExport (var : AttrVar κ σ) : m (List UInt8) :=
  match var.impliedAttr with
  | none => return []
  | some attr =>
      match attr.type with
      | .ref => entryExport c var
      | .str => c.code var.name
      | _ => return []

/-- **`inner_var_export_GSP`**, around what its loop writes for the children. -/
def innerVarExport (var : AttrVar κ σ) (fields : m (List Field)) : m Rec := do
  let value ← impliedExport c var
  let fields ← fields
  return .mk value fields

/-- The switch in the loop of `inner_var_export_GSP`. -/
def memberExport (type : AttrType) (item : AttrVar κ σ) (inner : m Rec) : m Rec :=
  match type with
  | .ref => do
      let id ← entryExport c item
      return .mk id []
  | .text => textVarExport c env item
  | .inner => inner
  | .bool => return .mk (bytes "t") []
  | _ => do
      -- `knd_charseq_fetch` has the assertions of the switch again
      let id ← c.code item.val
      return .mk id []

/-- The switch of `attr_var_list_export_GSP`. -/
def listItemExport (type : AttrType) (item : AttrVar κ σ) (inner : m Rec) : m Rec :=
  match type with
  | .rel | .ref =>
      match item.classEntry with
      | none => c.lift (.fault .assertion)
      | some entry => return .mk entry.id []
  | .text => textVarExport c env item
  | .inner => inner
  | .str => do
      let id ← c.code item.name
      return .mk id []
  | _ => return .mk item.name []

/-- **`knd_attr_var_export_GSP`.** -/
def attrVarExport (type : AttrType) (var : AttrVar κ σ) (inner : m Rec) : m Rec :=
  match type with
  | .ref => do
      let id ← entryExport c var
      return .mk id []
  | .procRef => return .mk [] []
  | .inner => inner
  | .text => textVarExport c env var
  | _ => do
      let id ← c.code var.val
      return .mk id []

mutual

/-- A round of the loop of **`inner_var_export_GSP`**. -/
def childExport : Node κ σ → m Field
  | .mk item children list =>
      match item.attr with
      | none => c.lift (.fault .null)
      | some attr =>
          if attr.isASet then do
            let items ← itemsExport attr.type list
            return .array attr.id items
          else do
            let body ← memberExport c env attr.type item (innerVarExport c item (childrenExport children))
            return .clause attr.id body

/-- Its loop. -/
def childrenExport : List (Node κ σ) → m (List Field)
  | [] => return []
  | child :: children => do
      let field ← childExport child
      let fields ← childrenExport children
      return field :: fields

/-- A round of the loop of **`attr_var_list_export_GSP`**. -/
def itemExport (type : AttrType) : Node κ σ → m Rec
  | .mk item children _ => listItemExport c env type item (innerVarExport c item (childrenExport children))

/-- Its loop. -/
def itemsExport (type : AttrType) : List (Node κ σ) → m (List Rec)
  | [] => return []
  | item :: items => do
      let rec ← itemExport type item
      let recs ← itemsExport type items
      return rec :: recs

end

/-- A round of **`knd_attr_vars_export_GSP`** for a variable with this attribute. -/
def varExport (attr : Attr) : Node κ σ → m Field
  | .mk var children list =>
      if attr.isASet then do
        let items ← itemsExport c env attr.type list
        return .array attr.id items
      else do
        let body ← attrVarExport c env attr.type var (innerVarExport c var (childrenExport c env children))
        return .clause attr.id body

/-- **`knd_attr_vars_export_GSP`.** -/
def varsExport (isConcise : Bool) : List (Node κ σ) → m (List Field)
  | [] => return []
  | .mk var children list :: vars =>
      match var.attr with
      | none => varsExport isConcise vars
      | some attr =>
          if isConcise ∧ attr.conciseLevel = 0 then varsExport isConcise vars
          else do
            let field ← varExport c env attr (.mk var children list)
            let fields ← varsExport isConcise vars
            return field :: fields

end Export

/-! ## (3) Reading -/

section Reading

variable (env : Env κ σ)

/-- What a lookup returns, with another code for its errors. -/
def found {α : Type} (e : KndErr) : Except KndErr α → Checked KndErr Fault α
  | .error _ => .err e
  | .ok a => .ok a

/-- What a call returns. -/
def called {α : Type} : Except KndErr α → Checked KndErr Fault α
  | .error e => .err e
  | .ok a => .ok a

/-- The class of the inner values of an attribute, if it has the type for it. -/
def innerClass (attr : Attr) : Checked KndErr Fault (Option Cls) :=
  if attr.type = .inner then
    match attr.refClassEntry with
    | none => .fault .assertion
    | some entry => do
        let c ← called (env.acquire entry)
        return some c
  else .ok none

/-- **`set_implied_attr_var`**: the new child, and `class_entry` of the parent. -/
def setImpliedAttrVar (attr : Attr) (val : List UInt8) (var : AttrVar κ σ) :
    Checked KndErr Fault (AttrVar κ σ × List (Node κ σ)) :=
  let child : AttrVar κ σ := { attr := some attr, name := attr.name, impliedAttr := some attr }
  match attr.type with
  | .ref =>
      match env.classEntryById val with
      | .error _ => .err .fail
      | .ok entry => .ok ({ var with classEntry := some entry }, [.mk { child with classEntry := some entry } [] []])
  | .str => .ok (var, [.mk { child with val := attr.name } [] []])
  -- a value of another type is not read
  | _ => .ok (var, [.mk child [] []])

/-- **`set_attr_var_value`**, if there is a value: the variable and its first children. -/
def setAttrVarValue (cls : Option Cls) (attr : Attr) (var : AttrVar κ σ) (val : List UInt8) :
    Checked KndErr Fault (AttrVar κ σ × List (Node κ σ)) :=
  if val = [] then .ok (var, [])
  else
    let var := { var with val }
    match attr.type with
    | .num | .float | .str => do
        let seq ← decodeSeq env.table val
        return ({ var with val := seq.val }, [])
    | .inner =>
        match cls.bind Cls.impliedAttr with
        | none => .ok (var, [])
        | some implied => setImpliedAttrVar env implied val var
    | .rel | .ref => do
        let entry ← found .fail (env.classIdx val)
        return ({ var with classEntry := some entry }, [])
    | _ => .ok (var, [])

/-- **`set_attr_var_name`** of an item of a list with an attribute of this type, if there is a value. -/
def setAttrVarName (cls : Option Cls) (type : AttrType) (name : List UInt8) : Checked KndErr Fault (AttrVar κ σ) :=
  if name = [] then .ok {}
  else
    let implied := cls.bind Cls.impliedAttr
    match (implied.map Attr.type).getD type with
    | .rel | .ref => do
        let entry ← called (env.classEntryById name)
        return { impliedAttr := implied, classEntry := some entry }
    | .str => do
        let seq ← decodeSeq env.table name
        return { impliedAttr := implied, name := seq.val }
    | _ => .ok { impliedAttr := implied, name }

/-- The attribute of a nested variable: `ctx->class` is needed for it. -/
def nestedAttr (cls : Option Cls) (id : List UInt8) : Checked KndErr Fault Attr :=
  match cls with
  | none => .fault .assertion
  | some c => c.attr id

/-- `parse_proc_ref` with `set_proc_ref`. -/
def procRef (var : AttrVar κ σ) (body : Rec) : Checked KndErr Fault (AttrVar κ σ) :=
  body.parse (fun var val => .ok { var with val }) (fun _ _ => .err .noMatch)
    (fun var => do
      env.parseEmpty
      return var) var

mutual

/-- **`read_nested_attr_var`**: the new child. -/
def readNestedAttrVar (cls : Option Cls) (id : List UInt8) : Rec → Checked KndErr Fault (Node κ σ)
  | .mk value fields => do
      let attr ← nestedAttr cls id
      let inner ← innerClass env attr
      let start ← setAttrVarValue env inner attr { attr := some attr, name := attr.name } value
      let (var, children) ← readFields true inner fields start
      return .mk var children []

/-- The fields of a variable, of which `named` says whether `_t` and `_p` are among them. -/
def readFields (named : Bool) (cls : Option Cls) :
    List Field → AttrVar κ σ × List (Node κ σ) → Checked KndErr Fault (AttrVar κ σ × List (Node κ σ))
  | [], state => .ok state
  | .clause tag body :: fields, (var, children) =>
      if named ∧ tag = bytes "_t" then do
        let text ← textRead env.toTextEnv body
        readFields named cls fields ({ var with text := some text }, children)
      else if named ∧ tag = bytes "_p" then do
        let var ← procRef env var body
        readFields named cls fields (var, children)
      else do
        let child ← readNestedAttrVar cls tag body
        readFields named cls fields (var, child :: children)
  | .array tag items :: fields, (var, children) => do
      -- `read_nested_attr_var_list`, which gives its items no class
      let attr ← nestedAttr cls tag
      let _ ← innerClass env attr
      let list ← readItems none attr.type items
      readFields named cls fields (var, .mk { attr := some attr, name := attr.name } [] list :: children)

/-- **`read_attr_var_list_item`** for one item after the other. -/
def readItems (cls : Option Cls) (type : AttrType) : List Rec → Checked KndErr Fault (List (Node κ σ))
  | [] => .ok []
  | .mk value fields :: items => do
      let item ← setAttrVarName env cls type value
      let (item, children) ← readFields false cls fields (item, [])
      let list ← readItems cls type items
      return .mk item children [] :: list

end

/-- **`knd_read_attr_var`** and **`knd_read_attr_var_list`**, with `build_attr_var`: the new variable of an object of
a class. -/
def readAttrVar (c : Cls) : Field → Checked KndErr Fault (Node κ σ)
  | .clause id (.mk value fields) => do
      let attr ← c.attr id
      let inner ← innerClass env attr
      let start ← setAttrVarValue env inner attr { attr := some attr, name := attr.name } value
      let (var, children) ← readFields env true inner fields start
      return .mk var children []
  | .array id items => do
      let attr ← c.attr id
      let inner ← innerClass env attr
      let list ← readItems env inner attr.type items
      return .mk { attr := some attr, name := attr.name } [] list

end Reading

/-! ## (4) Induction over variables -/

/-- A property of all variables follows from the step from `children` and `list` to the variable. -/
theorem Node.ind {P : Node κ σ → Prop}
    (mk : ∀ var children list, (∀ n ∈ children, P n) → (∀ n ∈ list, P n) → P (.mk var children list)) (n : Node κ σ) :
    P n := by
  refine Node.rec (motive_1 := P) (motive_2 := fun l => ∀ n ∈ l, P n) mk ?_ ?_ n
  · intro n hn
    cases hn
  · intro head tail hhead htail n hn
    rcases List.mem_cons.mp hn with rfl | hn
    · exact hhead
    · exact htail n hn

section Loops

variable {m : Type → Type} [Monad m] {c : Coder m} {env : TextEnv κ σ}

theorem childrenExport_cons (child : Node κ σ) (children : List (Node κ σ)) :
    childrenExport c env (child :: children) = (do
      let field ← childExport c env child
      let fields ← childrenExport c env children
      return field :: fields) := by
  rw [childrenExport]

theorem itemsExport_cons (type : AttrType) (item : Node κ σ) (items : List (Node κ σ)) :
    itemsExport c env type (item :: items) = (do
      let rec ← itemExport c env type item
      let recs ← itemsExport c env type items
      return rec :: recs) := by
  rw [itemsExport]

end Loops

/-! ## (5) Two exporters -/

/-- Is the name of a variable the value of its implied attribute, and a string? -/
def AttrVar.namesStr (var : AttrVar κ σ) : Bool := decide (var.impliedAttr.map Attr.type = some .str)

/-- Other strings in a variable. -/
def renameVar (f : Name → Name) (var : AttrVar κ σ) : AttrVar κ σ :=
  { var with val := f var.val, name := if var.namesStr then f var.name else var.name }

/-- Other strings in an item of a list with an attribute of this type. The names in other lists are written as they
are. -/
def renameItem (f : Name → Name) (type : AttrType) (item : AttrVar κ σ) : AttrVar κ σ :=
  match type with
  | .str => { item with name := f item.name }
  | .inner => { item with name := if item.namesStr then f item.name else item.name }
  | _ => item

mutual

/-- **Other strings for the values of a variable**, at all depths. -/
def rename (f : Name → Name) : Node κ σ → Node κ σ
  | .mk var children list =>
      .mk (renameVar f var) (renameAll f children)
        (match var.attr with
          | none => list
          | some attr => renameItems f attr.type list)

def renameAll (f : Name → Name) : List (Node κ σ) → List (Node κ σ)
  | [] => []
  | n :: ns => rename f n :: renameAll f ns

/-- Other strings in an item. -/
def renameItemNode (f : Name → Name) (type : AttrType) : Node κ σ → Node κ σ
  | .mk item children list => .mk (renameItem f type item) (renameAll f children) list

def renameItems (f : Name → Name) (type : AttrType) : List (Node κ σ) → List (Node κ σ)
  | [] => []
  | n :: ns => renameItemNode f type n :: renameItems f type ns

end

section Related

variable {m m' : Type → Type} [Monad m] [Monad m'] {c : Coder m} {c' : Coder m'} {f : Name → Name}
  {R : {α : Type} → m α → m' α → Prop} (h : Related c c' f R) {env : TextEnv κ σ}

include h

theorem related_entryExport {var var' : AttrVar κ σ} (hentry : var'.classEntry = var.classEntry) :
    R (entryExport c var) (entryExport c' var') := by
  unfold entryExport
  rw [hentry]
  cases var.classEntry with
  | none => exact h.lift _
  | some entry => exact h.pure _

theorem related_textVarExport {var var' : AttrVar κ σ} (htext : var'.text = var.text) :
    R (textVarExport c env var) (textVarExport c' env var') := by
  unfold textVarExport
  rw [htext]
  cases var.text with
  | none => exact h.lift _
  | some text => exact h.bind (h.lift _) fun _ => h.pure _

theorem related_innerVarExport (var var' : AttrVar κ σ) (himplied : var'.impliedAttr = var.impliedAttr)
    (hentry : var'.classEntry = var.classEntry) (hname : var.namesStr = true → var'.name = f var.name)
    {x : m (List Field)} {y : m' (List Field)} (hxy : R x y) :
    R (innerVarExport c var x) (innerVarExport c' var' y) := by
  refine h.bind ?_ fun _ => h.bind hxy fun _ => h.pure _
  unfold impliedExport
  rw [himplied]
  cases hattr : var.impliedAttr with
  | none => exact h.pure _
  | some attr =>
      simp only
      cases htype : attr.type with
      | ref => exact related_entryExport h hentry
      | str =>
          rw [hname (by simp [AttrVar.namesStr, hattr, htype])]
          exact h.code _
      | _ => exact h.pure _

theorem related_memberExport (type : AttrType) (item : AttrVar κ σ) {x : m Rec} {y : m' Rec} (hxy : R x y) :
    R (memberExport c env type item x) (memberExport c' env type (renameVar f item) y) := by
  cases type <;> first
    | exact h.bind (related_entryExport h rfl) fun _ => h.pure _
    | exact related_textVarExport h rfl
    | exact hxy
    | exact h.pure _
    | exact h.bind (h.code _) fun _ => h.pure _

theorem related_attrVarExport (type : AttrType) (var : AttrVar κ σ) {x : m Rec} {y : m' Rec} (hxy : R x y) :
    R (attrVarExport c env type var x) (attrVarExport c' env type (renameVar f var) y) := by
  cases type <;> first
    | exact h.bind (related_entryExport h rfl) fun _ => h.pure _
    | exact related_textVarExport h rfl
    | exact hxy
    | exact h.pure _
    | exact h.bind (h.code _) fun _ => h.pure _

theorem related_listItemExport (type : AttrType) (item : AttrVar κ σ) {x : m Rec} {y : m' Rec}
    (hxy : type = .inner → R x y) :
    R (listItemExport c env type item x) (listItemExport c' env type (renameItem f type item) y) := by
  have hentry : R (listItemExport c env .ref item x) (listItemExport c' env .ref (renameItem f .ref item) y) := by
    simp only [listItemExport, renameItem]
    cases item.classEntry with
    | none => exact h.lift _
    | some entry => exact h.pure _
  cases type <;> first
    | exact hentry
    | exact related_textVarExport h rfl
    | exact hxy rfl
    | exact h.bind (h.code _) fun _ => h.pure _
    | exact h.pure _

theorem related_childrenExport {children : List (Node κ σ)}
    (hall : ∀ n ∈ children, R (childExport c env n) (childExport c' env (rename f n))) :
    R (childrenExport c env children) (childrenExport c' env (renameAll f children)) := by
  induction children with
  | nil =>
      simp only [renameAll, childrenExport]
      exact h.pure _
  | cons n children ih =>
      rw [renameAll, childrenExport_cons, childrenExport_cons]
      exact h.bind (hall n List.mem_cons_self) fun _ =>
        h.bind (ih fun a ha => hall a (List.mem_cons_of_mem _ ha)) fun _ => h.pure _

theorem related_itemsExport {type : AttrType} {items : List (Node κ σ)}
    (hall : ∀ n ∈ items, R (itemExport c env type n) (itemExport c' env type (renameItemNode f type n))) :
    R (itemsExport c env type items) (itemsExport c' env type (renameItems f type items)) := by
  induction items with
  | nil =>
      simp only [renameItems, itemsExport]
      exact h.pure _
  | cons n items ih =>
      rw [renameItems, itemsExport_cons, itemsExport_cons]
      exact h.bind (hall n List.mem_cons_self) fun _ =>
        h.bind (ih fun a ha => hall a (List.mem_cons_of_mem _ ha)) fun _ => h.pure _

/-- Children and items of lists. -/
theorem related_node (n : Node κ σ) :
    R (childExport c env n) (childExport c' env (rename f n)) ∧
      ∀ type, R (itemExport c env type n) (itemExport c' env type (renameItemNode f type n)) := by
  induction n using Node.ind with
  | mk var children list ihc ihl =>
      have hchildren := related_childrenExport h fun n hn => (ihc n hn).1
      refine ⟨?_, fun type => ?_⟩
      · rw [rename, childExport, childExport, show (renameVar f var).attr = var.attr from rfl]
        cases var.attr with
        | none => exact h.lift _
        | some attr =>
            simp only
            split_ifs
            · exact h.bind (related_itemsExport h fun n hn => (ihl n hn).2 _) fun _ => h.pure _
            · refine h.bind (related_memberExport h _ _ ?_) fun _ => h.pure _
              exact related_innerVarExport h var (renameVar f var) rfl rfl (fun hstr => if_pos hstr) hchildren
      · rw [renameItemNode, itemExport, itemExport]
        apply related_listItemExport h
        rintro rfl
        exact related_innerVarExport h var (renameItem f .inner var) rfl rfl (fun hstr => if_pos hstr) hchildren

/-- **The variables of an object.** -/
theorem related_varsExport (isConcise : Bool) (vars : List (Node κ σ)) :
    R (varsExport c env isConcise vars) (varsExport c' env isConcise (renameAll f vars)) := by
  induction vars with
  | nil =>
      simp only [renameAll, varsExport]
      exact h.pure _
  | cons n vars ih =>
      obtain ⟨var, children, list⟩ := n
      simp only [renameAll, rename, varsExport, show (renameVar f var).attr = var.attr from rfl]
      cases var.attr with
      | none => exact ih
      | some attr =>
          simp only
          split_ifs
          · exact ih
          · refine h.bind ?_ fun _ => h.bind ih fun _ => h.pure _
            rw [varExport, varExport]
            split_ifs
            · exact h.bind (related_itemsExport h fun n _ => (related_node h n).2 _) fun _ => h.pure _
            · refine h.bind (related_attrVarExport h _ _ ?_) fun _ => h.pure _
              exact related_innerVarExport h var (renameVar f var) rfl rfl (fun hstr => if_pos hstr)
                (related_childrenExport h fun n _ => (related_node h n).1)

end Related

/-! ## (6) The same strings -/

theorem renameVar_id (var : AttrVar κ σ) : renameVar id var = var := by
  simp [renameVar]

theorem renameItem_id (type : AttrType) (item : AttrVar κ σ) : renameItem id type item = item := by
  cases type <;> simp [renameItem]

theorem renameAll_id_of {ns : List (Node κ σ)} (h : ∀ n ∈ ns, rename id n = n) : renameAll id ns = ns := by
  induction ns with
  | nil => rw [renameAll]
  | cons n ns ih =>
      rw [renameAll, h n List.mem_cons_self, ih fun a ha => h a (List.mem_cons_of_mem _ ha)]

theorem renameItems_id_of {type : AttrType} {ns : List (Node κ σ)} (h : ∀ n ∈ ns, renameItemNode id type n = n) :
    renameItems id type ns = ns := by
  induction ns with
  | nil => rw [renameItems]
  | cons n ns ih =>
      rw [renameItems, h n List.mem_cons_self, ih fun a ha => h a (List.mem_cons_of_mem _ ha)]

theorem rename_id (n : Node κ σ) : rename id n = n ∧ ∀ type, renameItemNode id type n = n := by
  induction n using Node.ind with
  | mk var children list ihc ihl =>
      have hchildren := renameAll_id_of fun n hn => (ihc n hn).1
      refine ⟨?_, fun type => ?_⟩
      · rw [rename, renameVar_id, hchildren]
        cases var.attr with
        | none => rfl
        | some attr =>
            simp only
            rw [renameItems_id_of fun n hn => (ihl n hn).2 attr.type]
      · rw [renameItemNode, renameItem_id, hchildren]

/-- **What is written for variables** while strings are interned is what the last table alone gives. -/
theorem follows_varsExport {table : StrRepo} {env : TextEnv κ σ} (isConcise : Bool) (vars : List (Node κ σ)) :
    Follows table (varsExport tableCoder env isConcise vars) (varsExport (codeCoder table) env isConcise vars) := by
  have h := @related_varsExport κ σ _ _ _ _ _ _ _ _ (follows table) env isConcise vars
  rwa [renameAll_id_of fun n _ => (rename_id n).1] at h

end Knowdy.AttrVarRecords
