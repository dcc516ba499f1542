import Knowdy.AttrVarGsp

/-! # Attribute variables come back from a snapshot

What a variable says is a part of what is stored in it: the attribute decides which fields count. Reading links nested
variables in at the front, so they come back in reverse.

* `said` — a variable with the fields that count.
* `mirror` — the order of the nested variables in reverse, at all depths.
* `Node.Clean`, `CleanItems`, `CleanVar` — variables that have none of what the two sides disagree on.
* `vars_back` — variables come back, with nested ones in reverse, exactly if they are clean. -/

namespace Knowdy.AttrVarRecords

open Records StringCodes
open ClassReading (AttrType)
open GlossExports (bytes)
open TextGsp (Text TextEnv textExport textRead textRead_textExport_iff map_eq_map_iff)

variable {κ σ : Type}

/-! ## (1) What variables say -/

/-- **The fields of a variable that count.** The value of an inner variable is not one of them. -/
def saidVar (var : AttrVar κ σ) : AttrVar κ σ :=
  match var.attr with
  | none => {}
  | some attr =>
      if attr.isASet then { attr := some attr, val := var.val }
      else match attr.type with
        | .ref =>
            { attr := some attr, classEntry := var.classEntry, classInstName := var.classInstName,
              resolved := var.resolved }
        | .rel =>
            { attr := some attr, val := var.val, classEntry := var.classEntry, classInstName := var.classInstName,
              resolved := var.resolved }
        | .text => { attr := some attr, text := var.text.map Text.said, resolved := var.resolved }
        | .inner => { attr := some attr, impliedAttr := var.impliedAttr }
        | _ => { attr := some attr, val := var.val, resolved := var.resolved }

/-- The fields of an item that count, in a list with an attribute of this type. -/
def saidItem (type : AttrType) (item : AttrVar κ σ) : AttrVar κ σ :=
  match type with
  | .rel | .ref => { classEntry := item.classEntry, classInstName := item.classInstName }
  | .text => { text := item.text.map Text.said }
  | .inner =>
      match item.impliedAttr with
      | none => {}
      | some attr =>
          if attr.type = .ref then { impliedAttr := some attr, classEntry := item.classEntry }
          else { impliedAttr := some attr, name := item.name }
  | _ => { name := item.name }

mutual

/-- **What a variable says**, with its children and, if it is a set, with its list. -/
def said : Node κ σ → Node κ σ
  | .mk var children list =>
      .mk (saidVar var) (saidAll children)
        (match var.attr with
          | none => []
          | some attr => if attr.isASet then saidItems attr.type list else [])

def saidAll : List (Node κ σ) → List (Node κ σ)
  | [] => []
  | n :: ns => said n :: saidAll ns

/-- What an item says. -/
def saidItemNode (type : AttrType) : Node κ σ → Node κ σ
  | .mk item children _ => .mk (saidItem type item) (saidAll children) []

def saidItems (type : AttrType) : List (Node κ σ) → List (Node κ σ)
  | [] => []
  | n :: ns => saidItemNode type n :: saidItems type ns

end

/-- A variable whose text has its translations in reverse. -/
def mirrorVar (var : AttrVar κ σ) : AttrVar κ σ := { var with text := var.text.map Text.mirror }

mutual

/-- **The children in reverse**, at all depths. -/
def mirror : Node κ σ → Node κ σ
  | .mk var children list => .mk (mirrorVar var) (mirrorAll children).reverse (mirrorAll list)

def mirrorAll : List (Node κ σ) → List (Node κ σ)
  | [] => []
  | n :: ns => mirror n :: mirrorAll ns

end

theorem saidAll_eq_map (ns : List (Node κ σ)) : saidAll ns = ns.map said := by
  induction ns with
  | nil => rw [saidAll, List.map_nil]
  | cons n ns ih => rw [saidAll, ih, List.map_cons]

theorem saidItems_eq_map (type : AttrType) (ns : List (Node κ σ)) :
    saidItems type ns = ns.map (saidItemNode type) := by
  induction ns with
  | nil => rw [saidItems, List.map_nil]
  | cons n ns ih => rw [saidItems, ih, List.map_cons]

theorem mirrorAll_eq_map (ns : List (Node κ σ)) : mirrorAll ns = ns.map mirror := by
  induction ns with
  | nil => rw [mirrorAll, List.map_nil]
  | cons n ns ih => rw [mirrorAll, ih, List.map_cons]

/-! ## (2) Clean variables -/

section Clean

variable (env : Env κ σ) (saved : StrRepo)

/-- **The value of a variable comes back** behind an attribute of this type that is not inner. A boolean is written
as `t`, the codes of other values than strings and numbers are not decoded. -/
def CleanMember (type : AttrType) (var : AttrVar κ σ) : Prop :=
  match type with
  | .ref => ∃ entry, var.classEntry = some entry ∧ env.classIdx entry.id = .ok entry ∧ var.classInstName = []
  | .text => ∃ text, var.text = some text ∧ text.Clean env.toTextEnv
  | .num | .float | .str => True
  | .bool => var.val = bytes "t"
  | .rel =>
      lookupCode saved var.val = .ok var.val ∧
        (∃ entry, var.classEntry = some entry ∧ env.classIdx var.val = .ok entry) ∧ var.classInstName = []
  | _ => lookupCode saved var.val = .ok var.val

/-- The same for a variable of an object: a boolean is written by its code, a procedure is not written. -/
def CleanValue (type : AttrType) (var : AttrVar κ σ) : Prop :=
  match type with
  | .bool => lookupCode saved var.val = .ok var.val
  | .procRef => var.val = []
  | _ => CleanMember env saved type var

/-- **The implied value of an item comes back**: the reader knows the class and its implied attribute. -/
def CleanImplied (cls : Option Cls) (item : AttrVar κ σ) : Prop :=
  ∀ attr, item.impliedAttr = some attr → cls.bind Cls.impliedAttr = some attr ∧
    (attr.type = .ref ∧ (∃ entry, item.classEntry = some entry ∧ env.classEntryById entry.id = .ok entry) ∨
      attr.type = .str)

/-- **An item comes back**, in a list with an attribute of this type that is not inner. Texts do not. -/
def CleanItemValue (type : AttrType) (item : AttrVar κ σ) : Prop :=
  match type with
  | .rel | .ref =>
      (∃ entry, item.classEntry = some entry ∧ env.classEntryById entry.id = .ok entry) ∧ item.classInstName = []
  | .text => False
  | _ => True

mutual

/-- **A nested variable comes back** when the reader has this class. -/
def Node.Clean (cls : Option Cls) : Node κ σ → Prop
  | .mk var children list =>
      match var.attr with
      | none => False
      | some attr =>
          nestedAttr cls attr.id = .ok attr ∧
            if attr.isASet then
              var.val = [] ∧ children = [] ∧ (∃ inner, innerClass env attr = .ok inner) ∧
                CleanItems none attr.type list
            else if attr.type = .inner then
              var.impliedAttr = none ∧ ∃ inner, innerClass env attr = .ok inner ∧ CleanAll inner children
            else children = [] ∧ CleanMember env saved attr.type var ∧ var.resolved = {}

def CleanAll (cls : Option Cls) : List (Node κ σ) → Prop
  | [] => True
  | n :: ns => n.Clean cls ∧ CleanAll cls ns

/-- **An item comes back.** -/
def CleanItem (cls : Option Cls) (type : AttrType) : Node κ σ → Prop
  | .mk item children _ =>
      if type = .inner then CleanImplied env cls item ∧ CleanAll cls children
      else children = [] ∧ CleanItemValue env type item

def CleanItems (cls : Option Cls) (type : AttrType) : List (Node κ σ) → Prop
  | [] => True
  | n :: ns => CleanItem cls type n ∧ CleanItems cls type ns

end

/-- **A variable of an object of a class comes back.** -/
def CleanVar (c : Cls) : Node κ σ → Prop
  | .mk var children list =>
      match var.attr with
      | none => False
      | some attr =>
          c.attr attr.id = .ok attr ∧
            if attr.isASet then
              var.val = [] ∧ children = [] ∧ ∃ inner, innerClass env attr = .ok inner ∧
                CleanItems env saved inner attr.type list
            else if attr.type = .inner then
              var.impliedAttr = none ∧ ∃ inner, innerClass env attr = .ok inner ∧ CleanAll env saved inner children
            else children = [] ∧ CleanValue env saved attr.type var ∧ var.resolved = {}

theorem cleanAll_iff {cls : Option Cls} {ns : List (Node κ σ)} :
    CleanAll env saved cls ns ↔ ∀ n ∈ ns, n.Clean env saved cls := by
  induction ns with
  | nil => simp [CleanAll]
  | cons n ns ih => rw [CleanAll, ih, List.forall_mem_cons]

theorem cleanItems_iff {cls : Option Cls} {type : AttrType} {ns : List (Node κ σ)} :
    CleanItems env saved cls type ns ↔ ∀ n ∈ ns, CleanItem env saved cls type n := by
  induction ns with
  | nil => simp [CleanItems]
  | cons n ns ih => rw [CleanItems, ih, List.forall_mem_cons]

end Clean

/-! ## (3) Fields one by one -/

/-- The symbol that the tags of the readers begin with is not in an id. -/
theorem underscore_not_mem_kndUidCreate (n : Nat) : (95 : UInt8) ∉ kndUidCreate n := by
  rw [kndUidCreate, kndNumToStr_eq]
  intro hmem
  obtain ⟨i, -, hi⟩ := List.mem_map.mp hmem
  revert i
  decide

theorem ClassEntry.id_ne_nil (entry : ClassEntry) : entry.id ≠ [] := kndUidCreate_ne_nil _

section Loops

variable {env : Env κ σ} {saved : StrRepo}

/-- A field of a nested variable: the new child. -/
def readChild (env : Env κ σ) (cls : Option Cls) : Field → Checked KndErr Fault (Node κ σ)
  | .clause tag body => readNestedAttrVar env cls tag body
  | .array tag items => do
      let attr ← nestedAttr cls tag
      let _ ← innerClass env attr
      let list ← readItems env none attr.type items
      return .mk { attr := some attr, name := attr.name } [] list

/-- One item of a list. -/
def readItem (env : Env κ σ) (cls : Option Cls) (type : AttrType) : Rec → Checked KndErr Fault (Node κ σ)
  | .mk value fields => do
      let item ← setAttrVarName env cls type value
      let (item, children) ← readFields env false cls fields (item, [])
      return .mk item children []

theorem readFields_cons {field : Field} (hfield : (95 : UInt8) ∉ field.tag) (named : Bool) (cls : Option Cls)
    (fields : List Field) (var : AttrVar κ σ) (children : List (Node κ σ)) :
    readFields env named cls (field :: fields) (var, children) = (do
      let child ← readChild env cls field
      readFields env named cls fields (var, child :: children)) := by
  cases field with
  | clause tag body =>
      have hne : ∀ t : List UInt8, (95 : UInt8) ∈ t → tag ≠ t := by
        rintro t ht rfl
        exact hfield ht
      have htext : tag ≠ bytes "_t" := hne _ (by decide)
      have hproc : tag ≠ bytes "_p" := hne _ (by decide)
      rw [readFields, readChild]
      simp only [htext, hproc, and_false, if_false]
  | array tag items =>
      rw [readFields, readChild]
      simp only [bind_assoc, Checked.pure_eq, Checked.ok_bind]

/-- **Children are read one after the other**, each to the front. -/
theorem readFields_eq {fields : List Field} (hfields : ∀ field ∈ fields, (95 : UInt8) ∉ field.tag) (named : Bool)
    (cls : Option Cls) (var : AttrVar κ σ) (children : List (Node κ σ)) :
    readFields env named cls fields (var, children) =
      (fields.mapM (readChild env cls) >>= fun ns => .ok (var, ns.reverse ++ children)) := by
  induction fields generalizing children with
  | nil => rw [readFields]; rfl
  | cons field fields ih =>
      rw [readFields_cons (hfields field List.mem_cons_self), List.mapM_cons, bind_assoc]
      congr 1
      funext child
      rw [ih (fun f hf => hfields f (List.mem_cons_of_mem _ hf)), bind_assoc]
      simp only [Checked.pure_eq, Checked.ok_bind, List.reverse_cons, List.append_assoc, List.cons_append,
        List.nil_append]

theorem readItems_eq (cls : Option Cls) (type : AttrType) (items : List Rec) :
    readItems env cls type items = items.mapM (readItem env cls type) := by
  induction items with
  | nil => rw [readItems]; rfl
  | cons item items ih =>
      obtain ⟨value, fields⟩ := item
      rw [readItems, List.mapM_cons, readItem, ih]
      simp only [bind_assoc, Checked.pure_eq, Checked.ok_bind]

theorem childrenExport_eq {table : StrRepo} {tenv : TextEnv κ σ} (children : List (Node κ σ)) :
    childrenExport (codeCoder table) tenv children = children.mapM (childExport (codeCoder table) tenv) := by
  induction children with
  | nil => rw [childrenExport]; rfl
  | cons child children ih => rw [childrenExport_cons, List.mapM_cons, ih]

theorem itemsExport_eq {table : StrRepo} {tenv : TextEnv κ σ} (type : AttrType) (items : List (Node κ σ)) :
    itemsExport (codeCoder table) tenv type items = items.mapM (itemExport (codeCoder table) tenv type) := by
  induction items with
  | nil => rw [itemsExport]; rfl
  | cons item items ih => rw [itemsExport_cons, List.mapM_cons, ih]

/-- The tag of a child is the id of its attribute. -/
theorem tag_childExport {table : StrRepo} {tenv : TextEnv κ σ} {n : Node κ σ} {field : Field}
    (h : childExport (codeCoder table) tenv n = .ok field) : (95 : UInt8) ∉ field.tag := by
  obtain ⟨var, children, list⟩ := n
  rw [childExport] at h
  cases hattr : var.attr with
  | none => simp [hattr, codeCoder] at h
  | some attr =>
      simp only [hattr] at h
      split_ifs at h
      · obtain ⟨items, -, heq⟩ := Checked.bind_eq_ok.mp h
        cases heq
        exact underscore_not_mem_kndUidCreate _
      · obtain ⟨body, -, heq⟩ := Checked.bind_eq_ok.mp h
        cases heq
        exact underscore_not_mem_kndUidCreate _

end Loops

/-! ## (4) Children and items -/

section Back

variable {env : Env κ Empty} {saved : StrRepo}

/-- **What is read for a child says what the child says**, in reverse. -/
def ChildBack (env : Env κ Empty) (cls : Option Cls) (field : Field) (n : Node κ Empty) : Prop :=
  ∃ n', readChild env cls field = .ok n' ∧ said n' = mirror (said n)

/-- The same for an item. -/
def ItemBack (env : Env κ Empty) (cls : Option Cls) (type : AttrType) (rec : Rec) (n : Node κ Empty) : Prop :=
  ∃ n', readItem env cls type rec = .ok n' ∧ saidItemNode type n' = mirror (saidItemNode type n)

/-- The children come back if each of them does. -/
theorem children_back {cls : Option Cls} {children : List (Node κ Empty)} {fields : List Field}
    (h : childrenExport (codeCoder saved) env.toTextEnv children = .ok fields)
    (ih : ∀ n ∈ children, ∀ field, childExport (codeCoder saved) env.toTextEnv n = .ok field →
      (ChildBack env cls field n ↔ n.Clean env saved cls)) :
    (∃ ns, fields.mapM (readChild env cls) = .ok ns ∧
      saidAll (ns.reverse ++ []) = (mirrorAll (saidAll children)).reverse) ↔ CleanAll env saved cls children := by
  rw [childrenExport_eq] at h
  rw [cleanAll_iff, ← Checked.exists_mapM_of_mapM h ih]
  simp only [saidAll_eq_map, mirrorAll_eq_map, List.append_nil, List.map_reverse, List.reverse_inj, List.map_map,
    map_eq_map_iff, Function.comp]

/-- So does a list. -/
theorem items_back {cls : Option Cls} {type : AttrType} {list : List (Node κ Empty)} {items : List Rec}
    (h : itemsExport (codeCoder saved) env.toTextEnv type list = .ok items)
    (ih : ∀ n ∈ list, ∀ rec, itemExport (codeCoder saved) env.toTextEnv type n = .ok rec →
      (ItemBack env cls type rec n ↔ CleanItem env saved cls type n)) :
    (∃ ns, readItems env cls type items = .ok ns ∧ saidItems type ns = mirrorAll (saidItems type list)) ↔
      CleanItems env saved cls type list := by
  rw [itemsExport_eq] at h
  rw [cleanItems_iff, ← Checked.exists_mapM_of_mapM h ih, readItems_eq]
  simp only [saidItems_eq_map, mirrorAll_eq_map, List.map_map, map_eq_map_iff, Function.comp]

/-- The tags of children. -/
theorem tags_childrenExport {children : List (Node κ Empty)} {fields : List Field}
    (h : childrenExport (codeCoder saved) env.toTextEnv children = .ok fields) :
    ∀ field ∈ fields, (95 : UInt8) ∉ field.tag := by
  rw [childrenExport_eq, Checked.mapM_eq_ok_iff] at h
  induction h with
  | nil => simp
  | cons hfield _ ih => exact List.forall_mem_cons.mpr ⟨tag_childExport hfield, ih⟩

end Back

/-! ## (5) One variable -/

section Body

variable {env : Env κ Empty} {saved : StrRepo}

/-- What is read behind the tag of a variable with this attribute. -/
def readBody (env : Env κ Empty) (inner : Option Cls) (attr : Attr) : Rec → Checked KndErr Fault (Node κ Empty)
  | .mk value fields => do
      let start ← setAttrVarValue env inner attr { attr := some attr, name := attr.name } value
      let (var, children) ← readFields env true inner fields start
      return .mk var children []

theorem readNestedAttrVar_eq (cls : Option Cls) (id : List UInt8) (body : Rec) :
    readNestedAttrVar env cls id body = (do
      let attr ← nestedAttr cls id
      let inner ← innerClass env attr
      readBody env inner attr body) := by
  obtain ⟨value, fields⟩ := body
  rw [readNestedAttrVar]
  rfl

theorem readAttrVar_clause (c : Cls) (id : List UInt8) (body : Rec) :
    readAttrVar env c (.clause id body) = readNestedAttrVar env (some c) id body := by
  obtain ⟨value, fields⟩ := body
  rw [readNestedAttrVar]
  rfl

/-- **`set_attr_var_value` leaves the attribute alone**, and no variable but a new child gets an implied attribute. -/
theorem setAttrVarValue_ok {cls : Option Cls} {attr : Attr} {var var' : AttrVar κ Empty} {val : List UInt8}
    {children : List (Node κ Empty)} (h : setAttrVarValue env cls attr var val = .ok (var', children)) :
    var'.attr = var.attr ∧ var'.impliedAttr = var.impliedAttr := by
  unfold setAttrVarValue at h
  split_ifs at h
  · cases h
    exact ⟨rfl, rfl⟩
  · cases htype : attr.type with
    | num | float | str =>
        simp only [htype] at h
        obtain ⟨seq, -, heq⟩ := Checked.bind_eq_ok.mp h
        cases heq
        exact ⟨rfl, rfl⟩
    | rel | ref =>
        simp only [htype] at h
        obtain ⟨entry, -, heq⟩ := Checked.bind_eq_ok.mp h
        cases heq
        exact ⟨rfl, rfl⟩
    | inner =>
        simp only [htype] at h
        cases himplied : cls.bind Cls.impliedAttr with
        | none =>
            simp only [himplied] at h
            cases h
            exact ⟨rfl, rfl⟩
        | some implied =>
            simp only [himplied, setImpliedAttrVar] at h
            cases htype' : implied.type with
            | ref =>
                simp only [htype'] at h
                cases hentry : env.classEntryById val <;> simp only [hentry] at h <;> cases h
                exact ⟨rfl, rfl⟩
            | _ =>
                -- the value goes to a child
                simp only [htype'] at h
                cases h
                exact ⟨rfl, rfl⟩
    | _ =>
        simp only [htype] at h
        cases h
        exact ⟨rfl, rfl⟩

/-- A variable without children is what was said for a variable if that one has no children and says the same. -/
theorem said_leaf_iff {v var : AttrVar κ Empty} {attr : Attr} (hv : v.attr = some attr) (hvar : var.attr = some attr)
    (hset : attr.isASet = false) (children list : List (Node κ Empty)) :
    said (.mk v [] []) = mirror (said (.mk var children list)) ↔
      children = [] ∧ saidVar v = mirrorVar (saidVar var) := by
  have hleft : said (.mk v [] []) = .mk (saidVar v) [] [] := by simp [said, hv, hset, saidAll]
  have hright : mirror (said (.mk var children list)) =
      .mk (mirrorVar (saidVar var)) (mirrorAll (saidAll children)).reverse [] := by
    simp [said, hvar, hset, mirror, mirrorAll]
  rw [hleft, hright, Node.mk.injEq, saidAll_eq_map, mirrorAll_eq_map]
  constructor
  · rintro ⟨hsaid, hnil, -⟩
    exact ⟨by simpa using hnil.symm, hsaid⟩
  · rintro ⟨rfl, hsaid⟩
    exact ⟨hsaid, rfl, rfl⟩

section Leaf

variable {attr : Attr} (hset : attr.isASet = false) {var : AttrVar κ Empty} (hvar : var.attr = some attr)
  (children list : List (Node κ Empty))

include hset hvar

/-- A value without fields behind it. -/
theorem value_back {value : List UInt8} {v : AttrVar κ Empty} (hv : v.attr = some attr)
    (hread : setAttrVarValue env none attr { attr := some attr, name := attr.name } value = .ok (v, [])) :
    (∃ n', readBody env none attr (.mk value []) = .ok n' ∧ said n' = mirror (said (.mk var children list))) ↔
      children = [] ∧ saidVar v = mirrorVar (saidVar var) := by
  have hbody : readBody env none attr (.mk value []) = .ok (.mk v [] []) := by
    rw [readBody, hread, Checked.ok_bind, readFields]
    rfl
  rw [hbody]
  simp only [Checked.ok.injEq, exists_eq_left', said_leaf_iff hv hvar hset]

/-- **A value that is read as it is written.** -/
theorem raw_back {id : List UInt8}
    (hread : setAttrVarValue env none attr ({ attr := some attr, name := attr.name } : AttrVar κ Empty) id =
      .ok ({ attr := some attr, name := attr.name, val := id }, []))
    (hsaid : ∀ v : AttrVar κ Empty, v.attr = some attr →
      saidVar v = { attr := some attr, val := v.val, resolved := v.resolved }) :
    (∃ n', readBody env none attr (.mk id []) = .ok n' ∧ said n' = mirror (said (.mk var children list))) ↔
      children = [] ∧ var.val = id ∧ var.resolved = {} := by
  rw [value_back hset hvar children list rfl hread, hsaid _ rfl, hsaid _ hvar]
  simp [mirrorVar, eq_comm]

/-- A reference comes back if its id leads to the same class, and no instance is named. -/
theorem entry_back (htype : attr.type = .ref) {entry : ClassEntry} (hentry : var.classEntry = some entry) :
    (∃ n', readBody env none attr (.mk entry.id []) = .ok n' ∧ said n' = mirror (said (.mk var children list))) ↔
      children = [] ∧ CleanMember env saved .ref var ∧ var.resolved = {} := by
  have hvalue : ∀ v : AttrVar κ Empty, setAttrVarValue env none attr v entry.id =
      (found .fail (env.classIdx entry.id) >>= fun e =>
        .ok ({ v with val := entry.id, classEntry := some e }, [])) := by
    intro v
    rw [setAttrVarValue, if_neg entry.id_ne_nil]
    simp only [htype, Checked.pure_eq]
  have hclean : CleanMember env saved .ref var ↔ env.classIdx entry.id = .ok entry ∧ var.classInstName = [] := by
    simp [CleanMember, hentry]
  rw [hclean]
  cases hget : env.classIdx entry.id with
  | error e =>
      -- the id is not known
      rw [readBody, hvalue, hget]
      simp [found]
  | ok entry' =>
      rw [value_back hset hvar children list (v := ⟨some attr, attr.name, entry.id, none, some entry', [], none, {}⟩)
        rfl (by rw [hvalue, hget]; rfl)]
      simp only [saidVar, hvar, hset, htype, mirrorVar, hentry]
      simp [eq_comm, and_assoc]

/-- A text comes back if it is clean. -/
theorem text_back (htype : attr.type = .text) {text : Text κ Empty} (htext : var.text = some text) {tbody : Rec}
    (h : textExport env.toTextEnv text = .ok tbody) :
    (∃ n', readBody env none attr (.mk [] [.clause (bytes "_t") tbody]) = .ok n' ∧
        said n' = mirror (said (.mk var children list))) ↔
      children = [] ∧ CleanMember env saved .text var ∧ var.resolved = {} := by
  have hclean : CleanMember env saved .text var ↔
      ∃ t, textRead env.toTextEnv tbody = .ok t ∧ t.said = text.said.mirror := by
    rw [textRead_textExport_iff env.toTextEnv h]
    simp [CleanMember, htext]
  rw [hclean]
  have hbody : readBody env none attr (.mk [] [.clause (bytes "_t") tbody]) =
      (textRead env.toTextEnv tbody >>= fun t =>
        .ok (.mk { attr := some attr, name := attr.name, text := some t } [] [])) := by
    rw [readBody, setAttrVarValue, if_pos rfl, Checked.ok_bind, readFields, if_pos ⟨rfl, rfl⟩]
    simp only [readFields, bind_assoc, Checked.ok_bind, Checked.pure_eq]
  rw [hbody]
  cases textRead env.toTextEnv tbody with
  | err e => simp
  | fault f => simp
  | ok t =>
      rw [Checked.ok_bind]
      simp only [Checked.ok.injEq, exists_eq_left']
      rw [said_leaf_iff rfl hvar hset]
      simp only [saidVar, hvar, hset, htype, mirrorVar, htext]
      simp [@eq_comm _ var.resolved]

/-- **A member of an inner variable comes back.** -/
theorem member_back (hreads : Reads saved env.table) (hinner : attr.type ≠ .inner) {body : Rec}
    {x : Checked KndErr Fault Rec}
    (h : memberExport (codeCoder saved) env.toTextEnv attr.type var x = .ok body) :
    (∃ n', readBody env none attr body = .ok n' ∧ said n' = mirror (said (.mk var children list))) ↔
      children = [] ∧ CleanMember env saved attr.type var ∧ var.resolved = {} := by
  cases htype : attr.type with
  | inner => exact absurd htype hinner
  | text =>
      rw [htype, memberExport, textVarExport] at h
      cases htext : var.text with
      | none => simp [htext, codeCoder] at h
      | some text =>
          simp only [htext] at h
          obtain ⟨tbody, htbody, heq⟩ := Checked.bind_eq_ok.mp h
          cases heq
          exact text_back hset hvar children list htype htext htbody
  | ref =>
      rw [htype, memberExport, entryExport] at h
      cases hentry : var.classEntry with
      | none => simp [hentry, codeCoder] at h
      | some entry =>
          simp only [hentry] at h
          cases h
          exact entry_back hset hvar children list htype hentry
  | num | float | str =>
      rw [htype] at h
      obtain ⟨id, hid, heq⟩ := Checked.bind_eq_ok.mp h
      cases heq
      -- the code is decoded
      obtain ⟨seq, hseq, hval⟩ := decodeSeq_of_lookupCode hreads hid
      rw [value_back hset hvar children list (v := ⟨some attr, attr.name, var.val, none, none, [], none, {}⟩) rfl
        (by simp [setAttrVarValue, lookupCode_ne_nil hid, htype, hseq, hval])]
      simp [saidVar, hvar, hset, htype, mirrorVar, CleanMember, eq_comm]
  | bool =>
      rw [htype] at h
      cases h
      rw [raw_back hset hvar children list (by simp [setAttrVarValue, htype, show bytes "t" ≠ [] by decide])
        (by intro v hv; simp [saidVar, hv, hset, htype])]
      rfl
  | rel =>
      rw [htype] at h
      obtain ⟨id, hid, heq⟩ := Checked.bind_eq_ok.mp h
      cases heq
      have hid : lookupCode saved var.val = .ok id := hid
      have hne := lookupCode_ne_nil hid
      cases hget : env.classIdx id with
      | error e =>
          -- the code of the name is not the id of a class
          rw [readBody, setAttrVarValue, if_neg hne]
          simp only [htype, hget, found, CleanMember, hid, Checked.ok.injEq]
          simp only [Checked.err_bind, reduceCtorEq, false_and, exists_false, false_iff]
          rintro ⟨-, ⟨rfl, ⟨entry, -, hentry⟩, -⟩, -⟩
          rw [hget] at hentry
          cases hentry
      | ok entry =>
          rw [value_back hset hvar children list (v := ⟨some attr, attr.name, id, none, some entry, [], none, {}⟩) rfl
            (by simp [setAttrVarValue, hne, htype, found, hget])]
          have hsame : saidVar (⟨some attr, attr.name, id, none, some entry, [], none, {}⟩ : AttrVar κ Empty) =
              mirrorVar (saidVar var) ↔
                id = var.val ∧ var.classEntry = some entry ∧ var.classInstName = [] ∧ var.resolved = {} := by
            simp [saidVar, hvar, hset, htype, mirrorVar, eq_comm]
          simp only [hsame, CleanMember, hid, Checked.ok.injEq]
          refine and_congr_right fun _ => ⟨?_, ?_⟩
          · rintro ⟨heq, hentry, hinst, hresolved⟩
            exact ⟨⟨heq, ⟨entry, hentry, heq ▸ hget⟩, hinst⟩, hresolved⟩
          · rintro ⟨⟨rfl, ⟨entry', hentry', hget'⟩, hinst⟩, hresolved⟩
            -- the id leads to one class
            rw [hget] at hget'
            cases hget'
            exact ⟨rfl, hentry', hinst, hresolved⟩
  | _ =>
      rw [htype] at h
      obtain ⟨id, hid, heq⟩ := Checked.bind_eq_ok.mp h
      cases heq
      have hid : lookupCode saved var.val = .ok id := hid
      rw [raw_back hset hvar children list (by simp [setAttrVarValue, htype, lookupCode_ne_nil hid])
        (by intro v hv; simp [saidVar, hv, hset, htype])]
      simp only [CleanMember, hid, Checked.ok.injEq, eq_comm]

/-- **A variable of an object comes back.** -/
theorem value_var_back (hreads : Reads saved env.table) (hinner : attr.type ≠ .inner) {body : Rec}
    {x : Checked KndErr Fault Rec}
    (h : attrVarExport (codeCoder saved) env.toTextEnv attr.type var x = .ok body) :
    (∃ n', readBody env none attr body = .ok n' ∧ said n' = mirror (said (.mk var children list))) ↔
      children = [] ∧ CleanValue env saved attr.type var ∧ var.resolved = {} := by
  cases htype : attr.type with
  | bool =>
      rw [htype] at h
      obtain ⟨id, hid, heq⟩ := Checked.bind_eq_ok.mp h
      cases heq
      have hid : lookupCode saved var.val = .ok id := hid
      rw [raw_back hset hvar children list (by simp [setAttrVarValue, htype, lookupCode_ne_nil hid])
        (by intro v hv; simp [saidVar, hv, hset, htype])]
      simp only [CleanValue, hid, Checked.ok.injEq, eq_comm]
  | procRef =>
      -- nothing is written
      rw [htype] at h
      cases h
      rw [value_back hset hvar children list (v := ⟨some attr, attr.name, [], none, none, [], none, {}⟩) rfl
        (by simp [setAttrVarValue])]
      simp [saidVar, hvar, hset, htype, mirrorVar, CleanValue, eq_comm]
  | _ =>
      -- the other types are written as in an inner variable
      have hmember : memberExport (codeCoder saved) env.toTextEnv attr.type var x = .ok body := by
        rw [htype] at h ⊢
        exact h
      rw [member_back hset hvar children list hreads hinner hmember, htype]
      rfl

end Leaf

theorem procRef_ok {var var' : AttrVar κ Empty} {body : Rec} (h : procRef env var body = .ok var') :
    var'.attr = var.attr ∧ var'.impliedAttr = var.impliedAttr := by
  obtain ⟨value, fields⟩ := body
  have hfields : ∀ v : AttrVar κ Empty,
      fields.foldlM (fun _ _ => (Checked.err .noMatch : Checked KndErr Fault (AttrVar κ Empty))) v = .ok var' →
        v = var' := by
    intro v hv
    cases fields with
    | nil => exact Checked.ok.inj hv
    | cons f fs => simp at hv
  rw [procRef, Rec.parse] at h
  split_ifs at h
  · obtain ⟨u, -, heq⟩ := Checked.bind_eq_ok.mp h
    cases heq
    exact ⟨rfl, rfl⟩
  · rw [← hfields _ h]
    exact ⟨rfl, rfl⟩
  · rw [Checked.ok_bind] at h
    rw [← hfields _ h]
    exact ⟨rfl, rfl⟩

/-- The fields of a variable leave its attribute alone. -/
theorem readFields_ok {named : Bool} {cls : Option Cls} {fields : List Field} {var var' : AttrVar κ Empty}
    {children children' : List (Node κ Empty)}
    (h : readFields env named cls fields (var, children) = .ok (var', children')) :
    var'.attr = var.attr ∧ var'.impliedAttr = var.impliedAttr := by
  induction fields generalizing var children with
  | nil =>
      rw [readFields] at h
      cases h
      exact ⟨rfl, rfl⟩
  | cons field fields ih =>
      cases field with
      | clause tag body =>
          rw [readFields] at h
          split_ifs at h
          · obtain ⟨text, -, hrest⟩ := Checked.bind_eq_ok.mp h
            have hkept := ih hrest
            exact hkept
          · obtain ⟨v, hv, hrest⟩ := Checked.bind_eq_ok.mp h
            have hproc := procRef_ok hv
            exact ⟨(ih hrest).1.trans hproc.1, (ih hrest).2.trans hproc.2⟩
          · obtain ⟨child, -, hrest⟩ := Checked.bind_eq_ok.mp h
            exact ih hrest
      | array tag items =>
          rw [readFields] at h
          obtain ⟨attr, -, hrest⟩ := Checked.bind_eq_ok.mp h
          obtain ⟨inner, -, hrest⟩ := Checked.bind_eq_ok.mp hrest
          obtain ⟨list, -, hrest⟩ := Checked.bind_eq_ok.mp hrest
          exact ih hrest

/-- **An inner variable comes back** if no value is implied and its children come back. -/
theorem inner_back {attr : Attr} (hset : attr.isASet = false) (htype : attr.type = .inner) {var : AttrVar κ Empty}
    (hvar : var.attr = some attr) {children : List (Node κ Empty)} (list : List (Node κ Empty)) {inner : Option Cls}
    {body : Rec}
    (h : innerVarExport (codeCoder saved) var (childrenExport (codeCoder saved) env.toTextEnv children)
      = .ok body)
    (ih : ∀ n ∈ children, ∀ field, childExport (codeCoder saved) env.toTextEnv n = .ok field →
      (ChildBack env inner field n ↔ n.Clean env saved inner)) :
    (∃ n', readBody env inner attr body = .ok n' ∧ said n' = mirror (said (.mk var children list))) ↔
      var.impliedAttr = none ∧ CleanAll env saved inner children := by
  obtain ⟨value, hvalue, hrest⟩ := Checked.bind_eq_ok.mp h
  obtain ⟨fields, hfields, heq⟩ := Checked.bind_eq_ok.mp hrest
  cases heq
  have hright : mirror (said (.mk var children list)) =
      .mk { attr := some attr, impliedAttr := var.impliedAttr } (mirrorAll (saidAll children)).reverse [] := by
    simp [said, hvar, hset, htype, saidVar, mirror, mirrorAll, mirrorVar]
  have hleft : ∀ (v : AttrVar κ Empty) (ns : List (Node κ Empty)), v.attr = some attr →
      said (.mk v ns []) = .mk { attr := some attr, impliedAttr := v.impliedAttr } (saidAll ns) [] := by
    intro v ns hv
    simp [said, hv, hset, htype, saidVar]
  rw [hright, ← children_back hfields ih]
  constructor
  · rintro ⟨n', hn', hsaid⟩
    obtain ⟨⟨v, first⟩, hstart, hrest⟩ := Checked.bind_eq_ok.mp hn'
    rw [readFields_eq (tags_childrenExport hfields)] at hrest
    obtain ⟨⟨v', ch⟩, hread, hnode⟩ := Checked.bind_eq_ok.mp hrest
    obtain ⟨ns, hns, hpair⟩ := Checked.bind_eq_ok.mp hread
    cases hpair
    cases hnode
    obtain ⟨hattr, himplied⟩ := setAttrVarValue_ok hstart
    rw [hleft _ _ hattr, Node.mk.injEq] at hsaid
    -- the reader gives an implied attribute to no variable
    have hnone : var.impliedAttr = none := by
      have hsame := congrArg AttrVar.impliedAttr hsaid.1
      exact hsame.symm.trans himplied
    rw [impliedExport, hnone] at hvalue
    cases hvalue
    rw [setAttrVarValue, if_pos rfl] at hstart
    cases hstart
    exact ⟨hnone, ns, hns, hsaid.2.1⟩
  · rintro ⟨hnone, ns, hns, hsaid⟩
    rw [impliedExport, hnone] at hvalue
    cases hvalue
    refine ⟨.mk { attr := some attr, name := attr.name } (ns.reverse ++ []) [], ?_, ?_⟩
    · rw [readBody, setAttrVarValue, if_pos rfl, Checked.ok_bind, readFields_eq (tags_childrenExport hfields), hns]
      rfl
    · rw [hleft _ _ rfl, hsaid, hnone]

theorem attr_saidVar (var : AttrVar κ Empty) : (saidVar var).attr = var.attr := by
  unfold saidVar
  cases hattr : var.attr with
  | none => rfl
  | some attr =>
      simp only
      split_ifs
      · rfl
      · cases attr.type <;> rfl

/-- **A variable is read for its own attribute**, or it does not come back. -/
theorem nested_back {attr : Attr} {var : AttrVar κ Empty} (hvar : var.attr = some attr)
    (children list : List (Node κ Empty))
    (cls : Option Cls) (body : Rec) :
    (∃ n', readNestedAttrVar env cls attr.id body = .ok n' ∧ said n' = mirror (said (.mk var children list))) ↔
      nestedAttr cls attr.id = .ok attr ∧ ∃ inner, innerClass env attr = .ok inner ∧
        ∃ n', readBody env inner attr body = .ok n' ∧ said n' = mirror (said (.mk var children list)) := by
  rw [readNestedAttrVar_eq]
  constructor
  · rintro ⟨n', hn', hsaid⟩
    obtain ⟨attr', hattr', hrest⟩ := Checked.bind_eq_ok.mp hn'
    obtain ⟨inner, hinner, hbody⟩ := Checked.bind_eq_ok.mp hrest
    have hsame : attr' = attr := by
      obtain ⟨value, fields⟩ := body
      obtain ⟨⟨v, first⟩, hstart, hread⟩ := Checked.bind_eq_ok.mp hbody
      obtain ⟨⟨v', ch⟩, hfields, hnode⟩ := Checked.bind_eq_ok.mp hread
      cases hnode
      have hkept := (readFields_ok hfields).1.trans (setAttrVarValue_ok hstart).1
      simp only [said, mirror, Node.mk.injEq] at hsaid
      have hattr := congrArg AttrVar.attr hsaid.1
      rw [attr_saidVar, hkept, mirrorVar, attr_saidVar, hvar] at hattr
      exact Option.some.inj hattr
    subst hsame
    exact ⟨hattr', inner, hinner, n', hbody, hsaid⟩
  · rintro ⟨hattr, inner, hinner, n', hbody, hsaid⟩
    refine ⟨n', ?_, hsaid⟩
    rw [hattr, Checked.ok_bind, hinner, Checked.ok_bind, hbody]

/-- **A list is read for its own attribute**, or it does not come back. -/
theorem list_back {attr : Attr} (hset : attr.isASet = true) {var : AttrVar κ Empty} (hvar : var.attr = some attr)
    (children : List (Node κ Empty)) {list : List (Node κ Empty)} (found : Checked KndErr Fault Attr)
    (pick : Option Cls → Option Cls) {items : List Rec}
    (ih : ∀ c, innerClass env attr = .ok c → ((∃ ns, readItems env (pick c) attr.type items = .ok ns ∧
      saidItems attr.type ns = mirrorAll (saidItems attr.type list)) ↔ CleanItems env saved (pick c) attr.type list)) :
    (∃ n', (do
        let a ← found
        let c ← innerClass env a
        let l ← readItems env (pick c) a.type items
        return Node.mk { attr := some a, name := a.name } [] l) = .ok n' ∧
        said n' = mirror (said (.mk var children list))) ↔
      found = .ok attr ∧ var.val = [] ∧ children = [] ∧
        ∃ c, innerClass env attr = .ok c ∧ CleanItems env saved (pick c) attr.type list := by
  have hright : mirror (said (.mk var children list)) = .mk { attr := some attr, val := var.val }
      (mirrorAll (saidAll children)).reverse (mirrorAll (saidItems attr.type list)) := by
    simp [said, hvar, hset, saidVar, mirror, mirrorVar]
  have hleft : ∀ ns : List (Node κ Empty), said (.mk { attr := some attr, name := attr.name } [] ns) =
      .mk { attr := some attr } [] (saidItems attr.type ns) := by
    intro ns
    simp [said, hset, saidVar, saidAll]
  have hnil : [] = (mirrorAll (saidAll children)).reverse ↔ children = [] := by
    rw [eq_comm, List.reverse_eq_nil_iff, mirrorAll_eq_map, List.map_eq_nil_iff, saidAll_eq_map, List.map_eq_nil_iff]
  constructor
  · rintro ⟨n', hn', hsaid⟩
    obtain ⟨a, ha, hrest⟩ := Checked.bind_eq_ok.mp hn'
    obtain ⟨c, hc, hrest⟩ := Checked.bind_eq_ok.mp hrest
    obtain ⟨l, hl, hnode⟩ := Checked.bind_eq_ok.mp hrest
    cases hnode
    have hsame : a = attr := by
      rw [hright, said, Node.mk.injEq] at hsaid
      have hattr := congrArg AttrVar.attr hsaid.1
      rw [attr_saidVar] at hattr
      exact Option.some.inj hattr
    subst hsame
    rw [hleft, hright, Node.mk.injEq, hnil] at hsaid
    refine ⟨ha, (congrArg AttrVar.val hsaid.1).symm, hsaid.2.1, c, hc, (ih c hc).mp ⟨l, hl, hsaid.2.2⟩⟩
  · rintro ⟨hattr, hval, rfl, c, hc, hclean⟩
    obtain ⟨l, hl, hsaid⟩ := (ih c hc).mpr hclean
    refine ⟨.mk { attr := some attr, name := attr.name } [] l, ?_, ?_⟩
    · rw [hattr, Checked.ok_bind, hc, Checked.ok_bind, hl]
      rfl
    · rw [hleft, hright, hval, hsaid]
      rfl

end Body

/-! ## (6) One item -/

section Item

variable {env : Env κ Empty} {saved : StrRepo}

theorem readItem_mk (cls : Option Cls) (type : AttrType) (value : List UInt8) {fields : List Field}
    (hfields : ∀ field ∈ fields, (95 : UInt8) ∉ field.tag) :
    readItem env cls type (.mk value fields) = (do
      let item ← setAttrVarName env cls type value
      let ns ← fields.mapM (readChild env cls)
      return .mk item (ns.reverse ++ []) []) := by
  rw [readItem]
  simp only [readFields_eq hfields, bind_assoc, Checked.ok_bind]

theorem called_eq_ok {α : Type} {x : Except KndErr α} {a : α} : called x = .ok a ↔ x = .ok a := by
  cases x <;> simp [called]

/-- The implied attribute of an item is that of the class. -/
theorem setAttrVarName_ok {cls : Option Cls} {type : AttrType} {name : List UInt8} {item : AttrVar κ Empty}
    (h : setAttrVarName env cls type name = .ok item) :
    name = [] ∧ item = {} ∨ name ≠ [] ∧ item.impliedAttr = cls.bind Cls.impliedAttr := by
  unfold setAttrVarName at h
  split_ifs at h with hname
  · cases h
    exact .inl ⟨hname, rfl⟩
  · refine .inr ⟨hname, ?_⟩
    simp only at h
    generalize (Option.map Attr.type (cls.bind Cls.impliedAttr)).getD type = t at h
    cases t with
    | rel | ref =>
        simp only at h
        obtain ⟨entry, -, heq⟩ := Checked.bind_eq_ok.mp h
        cases heq
        rfl
    | str =>
        simp only at h
        obtain ⟨seq, -, heq⟩ := Checked.bind_eq_ok.mp h
        cases heq
        rfl
    | _ =>
        simp only at h
        cases h
        rfl

theorem impliedAttr_saidItem (item : AttrVar κ Empty) : (saidItem .inner item).impliedAttr = item.impliedAttr := by
  simp only [saidItem]
  cases item.impliedAttr with
  | none => rfl
  | some attr =>
      simp only
      split_ifs <;> rfl

/-- **The implied value of an item.** -/
theorem implied_back (hreads : Reads saved env.table) {cls : Option Cls} {item : AttrVar κ Empty} {value : List UInt8}
    (h : impliedExport (codeCoder saved) item = .ok value) :
    (∃ item', setAttrVarName env cls .inner value = .ok item' ∧ saidItem .inner item' = saidItem .inner item) ↔
      CleanImplied env cls item := by
  cases himplied : item.impliedAttr with
  | none =>
      rw [impliedExport, himplied] at h
      cases h
      refine iff_of_true ⟨{}, by rw [setAttrVarName, if_pos rfl], ?_⟩ fun attr hattr => ?_
      · simp [saidItem, himplied]
      · rw [himplied] at hattr
        cases hattr
  | some attr =>
      have hclean : CleanImplied env cls item ↔ cls.bind Cls.impliedAttr = some attr ∧
          (attr.type = .ref ∧ (∃ entry, item.classEntry = some entry ∧ env.classEntryById entry.id = .ok entry) ∨
            attr.type = .str) := by
        simp [CleanImplied, himplied]
      rw [hclean]
      simp only [impliedExport, himplied] at h
      -- without a value the reader leaves the item as it is
      have hsome : (∃ item', setAttrVarName env cls .inner value = .ok item' ∧
          saidItem .inner item' = saidItem .inner item) → value ≠ [] ∧ cls.bind Cls.impliedAttr = some attr := by
        rintro ⟨item', hitem', hsaid⟩
        have hsame := congrArg AttrVar.impliedAttr hsaid
        rw [impliedAttr_saidItem, impliedAttr_saidItem, himplied] at hsame
        rcases setAttrVarName_ok hitem' with ⟨-, rfl⟩ | ⟨hne, hbind⟩
        · cases hsame
        · exact ⟨hne, hbind ▸ hsame⟩
      constructor
      · intro hback
        obtain ⟨hne, hbind⟩ := hsome hback
        obtain ⟨item', hitem', hsaid⟩ := hback
        refine ⟨hbind, ?_⟩
        cases htype : attr.type with
        | ref =>
            simp only [htype, entryExport] at h
            cases hentry : item.classEntry with
            | none => simp [hentry, codeCoder] at h
            | some entry =>
                simp only [hentry] at h
                cases h
                rw [setAttrVarName, if_neg hne] at hitem'
                simp only [hbind, Option.map_some, Option.getD_some, htype] at hitem'
                obtain ⟨e, he, heq⟩ := Checked.bind_eq_ok.mp hitem'
                cases heq
                have hsame := congrArg AttrVar.classEntry hsaid
                simp only [saidItem, himplied, htype, hentry, if_pos, Option.some.injEq] at hsame
                subst hsame
                exact .inl ⟨rfl, e, rfl, called_eq_ok.mp he⟩
        | str => exact .inr rfl
        | _ =>
            -- nothing is written for the other types
            simp only [htype] at h
            cases h
            exact absurd rfl hne
      · rintro ⟨hbind, ⟨htype, entry, hentry, hget⟩ | htype⟩
        · simp only [htype, entryExport, hentry] at h
          cases h
          refine ⟨{ impliedAttr := some attr, classEntry := some entry }, ?_, ?_⟩
          · rw [setAttrVarName, if_neg entry.id_ne_nil]
            simp [hbind, htype, hget, called]
          · simp [saidItem, himplied, htype, hentry]
        · simp only [htype] at h
          have hcode : lookupCode saved item.name = .ok value := h
          obtain ⟨seq, hseq, hval⟩ := decodeSeq_of_lookupCode hreads hcode
          refine ⟨{ impliedAttr := some attr, name := item.name }, ?_, ?_⟩
          · rw [setAttrVarName, if_neg (lookupCode_ne_nil hcode)]
            simp [hbind, htype, hseq, hval]
          · simp [saidItem, himplied, htype]

/-- An item of an inner list. -/
theorem inner_item_back (hreads : Reads saved env.table) {cls : Option Cls} {item : AttrVar κ Empty}
    {children : List (Node κ Empty)} (list : List (Node κ Empty)) {rec : Rec}
    (h : innerVarExport (codeCoder saved) item (childrenExport (codeCoder saved) env.toTextEnv children)
      = .ok rec)
    (ih : ∀ n ∈ children, ∀ field, childExport (codeCoder saved) env.toTextEnv n = .ok field →
      (ChildBack env cls field n ↔ n.Clean env saved cls)) :
    ItemBack env cls .inner rec (.mk item children list) ↔
      CleanImplied env cls item ∧ CleanAll env saved cls children := by
  obtain ⟨value, hvalue, hrest⟩ := Checked.bind_eq_ok.mp h
  obtain ⟨fields, hfields, heq⟩ := Checked.bind_eq_ok.mp hrest
  cases heq
  have hmirror : mirrorVar (saidItem .inner item) = saidItem .inner item := by
    have htext : (saidItem .inner item).text = none := by
      simp only [saidItem]
      cases item.impliedAttr with
      | none => rfl
      | some attr =>
          simp only
          split_ifs <;> rfl
    rw [mirrorVar, htext, Option.map_none, ← htext]
  have hright : mirror (saidItemNode .inner (.mk item children list)) =
      .mk (saidItem .inner item) (mirrorAll (saidAll children)).reverse [] := by
    rw [saidItemNode, mirror, hmirror, mirrorAll]
  rw [← implied_back hreads hvalue, ← children_back hfields ih, ItemBack, hright,
    readItem_mk _ _ _ (tags_childrenExport hfields)]
  constructor
  · rintro ⟨n', hn', hsaid⟩
    obtain ⟨item', hitem', hrest⟩ := Checked.bind_eq_ok.mp hn'
    obtain ⟨ns, hns, hnode⟩ := Checked.bind_eq_ok.mp hrest
    cases hnode
    rw [saidItemNode, Node.mk.injEq] at hsaid
    exact ⟨⟨item', hitem', hsaid.1⟩, ns, hns, hsaid.2.1⟩
  · rintro ⟨⟨item', hitem', hsame⟩, ns, hns, hchildren⟩
    refine ⟨.mk item' (ns.reverse ++ []) [], ?_, ?_⟩
    · rw [hitem', Checked.ok_bind, hns, Checked.ok_bind]
      rfl
    · rw [saidItemNode, hsame, hchildren]

/-- An item without fields behind its value. -/
theorem value_item_back {type : AttrType} {value : List UInt8} (item : AttrVar κ Empty)
    (children list : List (Node κ Empty)) :
    ItemBack env none type (.mk value []) (.mk item children list) ↔ children = [] ∧
      ∃ item', setAttrVarName env none type value = .ok item' ∧
        saidItem type item' = mirrorVar (saidItem type item) := by
  rw [ItemBack, readItem_mk _ _ _ (by simp)]
  simp only [List.mapM_nil, Checked.pure_eq, Checked.ok_bind, Checked.bind_eq_ok]
  simp only [saidItemNode, mirror, mirrorAll_eq_map, saidAll_eq_map]
  constructor
  · rintro ⟨n', ⟨item', hitem', heq⟩, hsaid⟩
    cases heq
    rw [saidItemNode, Node.mk.injEq] at hsaid
    refine ⟨?_, item', hitem', hsaid.1⟩
    simpa [saidAll] using hsaid.2.1.symm
  · rintro ⟨rfl, item', hitem', hsaid⟩
    exact ⟨_, ⟨item', hitem', rfl⟩, by simp [saidItemNode, hsaid, saidAll]⟩

/-- **An item of a list comes back.** -/
theorem item_back (hreads : Reads saved env.table) {type : AttrType} {cls : Option Cls}
    (hcls : type ≠ .inner → cls = none) {item : AttrVar κ Empty} {children list : List (Node κ Empty)} {rec : Rec}
    (h : itemExport (codeCoder saved) env.toTextEnv type (.mk item children list) = .ok rec)
    (ih : ∀ n ∈ children, ∀ field, childExport (codeCoder saved) env.toTextEnv n = .ok field →
      (ChildBack env cls field n ↔ n.Clean env saved cls)) :
    ItemBack env cls type rec (.mk item children list) ↔ CleanItem env saved cls type (.mk item children list) := by
  rw [itemExport] at h
  cases type with
  | inner =>
      rw [inner_item_back hreads list h ih]
      simp [CleanItem]
  | rel | ref =>
      obtain rfl := hcls (by decide)
      simp only [listItemExport] at h
      cases hentry : item.classEntry with
      | none => simp [hentry, codeCoder] at h
      | some entry =>
          simp only [hentry] at h
          cases h
          rw [value_item_back, setAttrVarName, if_neg entry.id_ne_nil]
          simp only [CleanItem, CleanItemValue, hentry]
          cases hget : env.classEntryById entry.id with
          | error e => simp [called, hget]
          | ok entry' => simp [called, saidItem, mirrorVar, hentry, hget, eq_comm]
  | text =>
      -- the reader has no class for what it takes for a nested variable
      obtain rfl := hcls (by decide)
      simp only [listItemExport, textVarExport] at h
      cases htext : item.text with
      | none => simp [htext, codeCoder] at h
      | some text =>
          simp only [htext] at h
          obtain ⟨tbody, -, heq⟩ := Checked.bind_eq_ok.mp h
          cases heq
          refine iff_of_false ?_ (by simp [CleanItem, CleanItemValue])
          rintro ⟨n', hn', -⟩
          rw [readItem, setAttrVarName, if_pos rfl, Checked.ok_bind, readFields] at hn'
          simp [readNestedAttrVar_eq, nestedAttr] at hn'
  | str =>
      obtain rfl := hcls (by decide)
      obtain ⟨id, hid, heq⟩ := Checked.bind_eq_ok.mp h
      cases heq
      have hid : lookupCode saved item.name = .ok id := hid
      obtain ⟨seq, hseq, hval⟩ := decodeSeq_of_lookupCode hreads hid
      rw [value_item_back, setAttrVarName, if_neg (lookupCode_ne_nil hid)]
      simp [CleanItem, CleanItemValue, hseq, hval, saidItem, mirrorVar]
  | _ =>
      -- the value is written as it is
      obtain rfl := hcls (by decide)
      cases h
      rw [value_item_back, setAttrVarName]
      by_cases hname : item.name = []
      · simp [CleanItem, CleanItemValue, hname, saidItem, mirrorVar]
      · simp [CleanItem, CleanItemValue, hname, saidItem, mirrorVar]

end Item

/-! ## (7) All variables -/

section All

variable {env : Env κ Empty} {saved : StrRepo}

/-- The class of inner values is asked for in inner attributes only. -/
theorem innerClass_of_ne {attr : Attr} (h : attr.type ≠ .inner) : innerClass env attr = .ok none := by
  rw [innerClass, if_neg h]

/-- **Children and items come back** exactly if they are clean. -/
theorem node_back (hreads : Reads saved env.table) (n : Node κ Empty) :
    (∀ cls field, childExport (codeCoder saved) env.toTextEnv n = .ok field →
      (ChildBack env cls field n ↔ n.Clean env saved cls)) ∧
    ∀ type cls rec, (type ≠ .inner → cls = none) →
      itemExport (codeCoder saved) env.toTextEnv type n = .ok rec →
      (ItemBack env cls type rec n ↔ CleanItem env saved cls type n) := by
  induction n using Node.ind with
  | mk var children list ihc ihl =>
      refine ⟨fun cls field h => ?_, fun type cls rec hcls h => ?_⟩
      · rw [childExport] at h
        cases hattr : var.attr with
        | none => simp [hattr, codeCoder] at h
        | some attr =>
            simp only [hattr] at h
            split_ifs at h with hset
            · obtain ⟨items, hitems, heq⟩ := Checked.bind_eq_ok.mp h
              cases heq
              have hback := @list_back κ env saved attr hset var hattr children list (nestedAttr cls attr.id)
                (fun _ => none) items
                fun c _ => items_back hitems fun n hn rec hrec => (ihl n hn).2 _ _ rec (fun _ => rfl) hrec
              simp only [ChildBack, readChild, hback, Node.Clean, hattr, if_pos hset, exists_and_right]
            · obtain ⟨body, hbody, heq⟩ := Checked.bind_eq_ok.mp h
              cases heq
              rw [Bool.not_eq_true] at hset
              rw [ChildBack, readChild, nested_back hattr]
              simp only [Node.Clean, hattr, hset, Bool.false_eq_true, if_false]
              refine and_congr_right fun _ => ?_
              by_cases htype : attr.type = .inner
              · simp only [htype, memberExport] at hbody
                rw [if_pos htype, ← exists_and_left]
                refine exists_congr fun inner => ?_
                rw [and_left_comm]
                refine and_congr_right fun _ => ?_
                exact inner_back hset htype hattr list hbody fun n hn f hf => (ihc n hn).1 inner f hf
              · rw [if_neg htype, innerClass_of_ne htype]
                simp only [Checked.ok.injEq, exists_eq_left']
                exact member_back hset hattr children list hreads htype hbody
      · exact item_back hreads hcls h fun n hn field hfield => (ihc n hn).1 cls field hfield

/-- **A variable of an object comes back** exactly if it is clean. -/
theorem var_back (hreads : Reads saved env.table) {c : Cls} {attr : Attr} {var : AttrVar κ Empty}
    (hattr : var.attr = some attr) {children list : List (Node κ Empty)} {field : Field}
    (h : varExport (codeCoder saved) env.toTextEnv attr (.mk var children list) = .ok field) :
    (∃ n', readAttrVar env c field = .ok n' ∧ said n' = mirror (said (.mk var children list))) ↔
      CleanVar env saved c (.mk var children list) := by
  rw [varExport] at h
  split_ifs at h with hset
  · obtain ⟨items, hitems, heq⟩ := Checked.bind_eq_ok.mp h
    cases heq
    have hback := @list_back κ env saved attr hset var hattr children list (c.attr attr.id) (fun inner => inner) items
      fun inner hinner => items_back hitems fun n _ rec hrec => (node_back hreads n).2 _ _ rec
        (fun htype => by
          rw [innerClass_of_ne htype] at hinner
          cases hinner
          rfl) hrec
    simp only [readAttrVar, hback, CleanVar, hattr, if_pos hset]
  · obtain ⟨body, hbody, heq⟩ := Checked.bind_eq_ok.mp h
    cases heq
    rw [Bool.not_eq_true] at hset
    rw [readAttrVar_clause, nested_back hattr]
    simp only [CleanVar, hattr, hset, Bool.false_eq_true, if_false, nestedAttr]
    refine and_congr_right fun _ => ?_
    by_cases htype : attr.type = .inner
    · simp only [htype, attrVarExport] at hbody
      rw [if_pos htype, ← exists_and_left]
      refine exists_congr fun inner => ?_
      rw [and_left_comm]
      refine and_congr_right fun _ => ?_
      exact inner_back hset htype hattr list hbody fun n _ f hf => (node_back hreads n).1 inner f hf
    · rw [if_neg htype, innerClass_of_ne htype]
      simp only [Checked.ok.injEq, exists_eq_left']
      exact value_var_back hset hattr children list hreads htype hbody

/-- At most one field is written for each variable. -/
theorem length_varsExport_le {vars : List (Node κ Empty)} {fields : List Field}
    (h : varsExport (codeCoder saved) env.toTextEnv false vars = .ok fields) : fields.length ≤ vars.length := by
  induction vars generalizing fields with
  | nil =>
      cases h
      exact le_rfl
  | cons n vars ih =>
      obtain ⟨var, children, list⟩ := n
      rw [varsExport] at h
      cases hattr : var.attr with
      | none =>
          simp only [hattr] at h
          exact (ih h).trans (Nat.le_succ _)
      | some attr =>
          simp only [hattr, Bool.false_eq_true, false_and, if_false] at h
          obtain ⟨field, -, hrest⟩ := Checked.bind_eq_ok.mp h
          obtain ⟨fields', hfields', heq⟩ := Checked.bind_eq_ok.mp hrest
          cases heq
          exact Nat.succ_le_succ (ih hfields')

/-- **The variables of an object come back** exactly if all are clean. -/
theorem vars_back (hreads : Reads saved env.table) {c : Cls} {vars : List (Node κ Empty)} {fields : List Field}
    (h : varsExport (codeCoder saved) env.toTextEnv false vars = .ok fields) :
    (∃ ns, fields.mapM (readAttrVar env c) = .ok ns ∧ saidAll ns = mirrorAll (saidAll vars)) ↔
      ∀ v ∈ vars, CleanVar env saved c v := by
  simp only [saidAll_eq_map, mirrorAll_eq_map, List.map_map, map_eq_map_iff, Function.comp]
  induction vars generalizing fields with
  | nil =>
      cases h
      simp
  | cons n vars ih =>
      obtain ⟨var, children, list⟩ := n
      rw [List.forall_mem_cons]
      rw [varsExport] at h
      cases hattr : var.attr with
      | none =>
          -- the variable is left out, so too few come back
          simp only [hattr] at h
          have hle := length_varsExport_le h
          refine iff_of_false ?_ (by simp [CleanVar, hattr])
          rintro ⟨ns, hns, hall⟩
          have hlen := hall.length_eq
          have hlen' := (Checked.mapM_eq_ok_iff.mp hns).length_eq
          rw [List.length_cons] at hlen
          omega
      | some attr =>
          simp only [hattr, Bool.false_eq_true, false_and, if_false] at h
          obtain ⟨field, hfield, hrest⟩ := Checked.bind_eq_ok.mp h
          obtain ⟨fields', hfields', heq⟩ := Checked.bind_eq_ok.mp hrest
          cases heq
          rw [← var_back hreads hattr hfield, ← ih hfields']
          simp only [List.mapM_cons, Checked.bind_eq_ok, Checked.pure_eq, Checked.ok.injEq,
            List.forall₂_cons_left_iff]
          constructor
          · rintro ⟨ns, ⟨n', hn', ns', hns', rfl⟩, m, ms, hm, hms, heq⟩
            cases heq
            exact ⟨⟨n', hn', hm⟩, ns', hns', hms⟩
          · rintro ⟨⟨n', hn', hsaid⟩, ns', hns', hall⟩
            exact ⟨n' :: ns', ⟨n', hn', ns', hns', rfl⟩, n', ns', hsaid, hall, rfl⟩

end All

end Knowdy.AttrVarRecords
