import Knowdy.ClassReading
import Knowdy.KndSet
import Knowdy.Lib.FirstCome

/-! # Inverse references

When classes and instances are indexed, an indexed attribute that refers to a class or an instance is entered at what
it refers to: a hub for the attribute holds the topics that refer to it. Topics are told apart by their ids; ids of
classes are unique in a repository, ids of instances are not.

* `Attr`, `AttrVar`, `AttrHub` — attributes, their values and the hubs.
* `attrHubFetch`, `attrHubAdd`, `indexClass`, `indexInst` — the code of `knd_attr_var.index.c` and its callers.
* `ClassRefers`, `InstRefers` — what refers to what.
* `Recorded` — what the hubs hold after a list of references.
* `classHubs_exact` — the hubs of classes hold what refers to them; `instHubs_exact_iff` — when those of instances
  do. -/

namespace Knowdy.AttrHubs

open ClassReading (AttrType)

/-! ## (1) Attributes and hubs -/

/-- `knd_rel_t`. -/
inductive RelType
  | default
  /-- `KND_REL_CLASS_INST`: to an instance. -/
  | classInst
  /-- `KND_REL_SUBCLASS`: to a class. -/
  | subclass
  deriving DecidableEq

/-- `struct kndAttr`. Attributes are told apart by their addresses. -/
structure Attr where
  addr : Nat
  /-- `type`. -/
  type : AttrType
  /-- `rel_type`. -/
  relType : RelType := .default
  /-- `is_a_set`. -/
  isASet : Bool := false
  /-- `is_indexed`. -/
  isIndexed : Bool := false
  deriving DecidableEq

/-- `struct kndAttrVar`, over classes `κ` and instances `ι`: what is read of `children` and `list` are the attribute
and the class of each of them. -/
structure AttrVar (κ ι : Type) where
  /-- `attr`. -/
  attr : Attr
  /-- `implied_attr`. -/
  impliedAttr : Option Attr := none
  /-- `class_entry`. -/
  classEntry : Option κ := none
  /-- `class_inst_entry`. -/
  classInstEntry : Option ι := none
  /-- `children`. -/
  children : List (Attr × Option κ) := []
  /-- `list`. -/
  list : List (Option κ) := []

/-- `struct kndAttrRef` of the attributes of a class, with the class of the declaration that its variable is in. -/
structure AttrRef (κ ι : Type) where
  /-- `attr`. -/
  attr : Attr
  /-- `attr_var`, and its `class_var->parent`. -/
  attrVar : Option (AttrVar κ ι × κ)

/-- `struct kndAttrHub`, with topics of one kind. -/
structure AttrHub (τ : Type) where
  /-- `attr`. -/
  attr : Attr
  /-- `topics`. -/
  topics : Option (KndSet τ) := none

/-- `attr_hubs` of classes and instances. -/
structure Hubs (κ ι : Type) where
  classHubs : κ → List (AttrHub κ) := fun _ => []
  instHubs : ι → List (AttrHub ι) := fun _ => []

/-- What stops the indexing. -/
inductive Stop
  | err (e : KndErr)
  /-- An assertion fails. -/
  | assertion
  deriving DecidableEq

/-! ## (2) The code -/

section Hub

variable {τ : Type}

/-- **`attr_hub_fetch`** and `inst_attr_hub_fetch`: a hub for the attribute is there. -/
def attrHubFetch (attr : Attr) (hubs : List (AttrHub τ)) : List (AttrHub τ) :=
  if hubs.any fun hub => hub.attr = attr then hubs else { attr } :: hubs

/-- The hub that was fetched is written. -/
def writeHub (attr : Attr) (hub : AttrHub τ) : List (AttrHub τ) → List (AttrHub τ)
  | [] => []
  | h :: hubs => if h.attr = attr then hub :: hubs else h :: writeHub attr hub hubs

/-- The hub of an attribute. -/
def hubOf (attr : Attr) (hubs : List (AttrHub τ)) : Option (AttrHub τ) := hubs.find? fun hub => hub.attr = attr

/-- **`attr_hub_add_classref`** and `inst_attr_hub_add_inst`: a topic is added to a hub unless its id is there. -/
def attrHubAdd (id : List UInt8) (topic : τ) (hub : AttrHub τ) : Except KndErr Unit × AttrHub τ :=
  let set := hub.topics.getD {}
  match kndSetGet set id with
  | .ok _ => (.ok (), { hub with topics := some set })
  | .error _ => ((kndSetAdd set id topic).1, { hub with topics := some (kndSetAdd set id topic).2 })

/-- A hub is fetched and a topic added. -/
def recordTopic (attr : Attr) (id : List UInt8) (topic : τ) (hubs : List (AttrHub τ)) :
    Except KndErr Unit × List (AttrHub τ) :=
  match hubOf attr (attrHubFetch attr hubs) with
  | none => (.ok (), hubs)   -- a hub was fetched
  | some hub =>
      ((attrHubAdd id topic hub).1, writeHub attr (attrHubAdd id topic hub).2 (attrHubFetch attr hubs))

end Hub

variable {κ ι : Type} [DecidableEq κ] [DecidableEq ι]

/-- A program of the indexing. -/
abbrev HubM (κ ι : Type) := EStateM Stop (Hubs κ ι)

/-- The numbers of classes and instances, which make their ids. -/
structure Numids (κ ι : Type) where
  ofClass : κ → Nat
  ofInst : ι → Nat

variable (numids : Numids κ ι)

/-- An assertion that a pointer is not null. -/
def assertSome {β : Type} : Option β → HubM κ ι β
  | none => throw .assertion
  | some b => pure b

/-- The topic is entered at the class `spec`. -/
def recordClass (spec : κ) (attr : Attr) (topic : κ) : HubM κ ι Unit := do
  let s ← get
  let r := recordTopic attr (kndUidCreate (numids.ofClass topic)) topic (s.classHubs spec)
  set { s with classHubs := Function.update s.classHubs spec r.2 }
  match r.1 with
  | .ok _ => pure ()
  | .error e => throw (.err e)

/-- The topic is entered at the instance `spec`. -/
def recordInst (spec : ι) (attr : Attr) (topic : ι) : HubM κ ι Unit := do
  let s ← get
  let r := recordTopic attr (kndUidCreate (numids.ofInst topic)) topic (s.instHubs spec)
  set { s with instHubs := Function.update s.instHubs spec r.2 }
  match r.1 with
  | .ok _ => pure ()
  | .error e => throw (.err e)

/-- **`index_ref`.** -/
def indexRef (topic : κ) (attr : Attr) (var : AttrVar κ ι) : HubM κ ι Unit := do
  let spec ← assertSome var.classEntry
  recordClass numids spec attr topic

/-- **`index_inner_attr_var`.** -/
def indexInnerAttrVar (topic : κ) (attr : Attr) (var : AttrVar κ ι) : HubM κ ι Unit := do
  (match var.impliedAttr, var.classEntry with
    | some implied, some spec => if implied.type = .ref then recordClass numids spec attr topic else pure ()
    | _, _ => pure ())
  var.children.forM fun item =>
    match item.2 with
    | some spec => if item.1.isIndexed ∧ item.1.type = .ref then recordClass numids spec attr topic else pure ()
    | none => pure ()

/-- **`knd_index_attr_var`.** -/
def kndIndexAttrVar (topic : κ) (attr : Attr) (var : AttrVar κ ι) : HubM κ ι Unit :=
  match attr.type with
  | .ref => indexRef numids topic attr var
  | .inner => indexInnerAttrVar numids topic attr var
  | _ => pure ()

/-- **`knd_index_attr_var_list`.** -/
def kndIndexAttrVarList (topic : κ) (attr : Attr) (var : AttrVar κ ι) : HubM κ ι Unit :=
  var.list.forM fun item =>
    if attr.type = .ref then do
      let spec ← assertSome item
      recordClass numids spec attr topic
    else pure ()

/-- **`index_attr`.** -/
def indexAttr (self : κ) (ref : AttrRef κ ι) : HubM κ ι Unit :=
  match ref.attrVar with
  | none => pure ()
  | some (var, parent) =>
      if !ref.attr.isIndexed then pure ()
      -- only directly owned attr vars are indexed
      else if parent ≠ self then pure ()
      else if ref.attr.isASet then kndIndexAttrVarList numids self ref.attr var
      else kndIndexAttrVar numids self ref.attr var

/-- The attributes of a class in `knd_class_index`. -/
def indexClass (attrIdx : κ → List (AttrRef κ ι)) (self : κ) : HubM κ ι Unit :=
  (attrIdx self).forM (indexAttr numids self)

/-- **`index_inst_ref`.** -/
def indexInstRef (topic : ι) (attr : Attr) (var : AttrVar κ ι) : HubM κ ι Unit :=
  match var.attr.relType with
  | .subclass => do
      let spec ← assertSome var.classEntry
      -- no topic is added
      modify fun s => { s with classHubs := Function.update s.classHubs spec (attrHubFetch attr (s.classHubs spec)) }
  | .classInst => do
      let spec ← assertSome var.classInstEntry
      recordInst numids spec attr topic
  | .default => pure ()

/-- **`knd_index_inst_attr_var`.** -/
def kndIndexInstAttrVar (topic : ι) (attr : Attr) (var : AttrVar κ ι) : HubM κ ι Unit :=
  match attr.type with
  | .ref => indexInstRef numids topic attr var
  | _ => pure ()

/-- **`knd_class_inst_index`.** -/
def indexInst (attrs : ι → List (AttrVar κ ι)) (self : ι) : HubM κ ι Unit :=
  (attrs self).forM fun var => if var.attr.isIndexed then kndIndexInstAttrVar numids self var.attr var else pure ()

/-! ## (3) Hubs -/

section Hub

variable {τ : Type} {num : τ → Nat} {attr attr' : Attr} {topic : τ} {hub : AttrHub τ} {hubs : List (AttrHub τ)}

/-- The topics of an attribute. -/
def topicsOf (hubs : List (AttrHub τ)) (attr : Attr) : KndSet τ := ((hubOf attr hubs).bind AttrHub.topics).getD {}

theorem hubOf_cons_self (h : hub.attr = attr) : hubOf attr (hub :: hubs) = some hub :=
  List.find?_cons_of_pos (decide_eq_true h)

theorem hubOf_cons_of_ne (h : hub.attr ≠ attr) : hubOf attr (hub :: hubs) = hubOf attr hubs :=
  List.find?_cons_of_neg fun heq => h (of_decide_eq_true heq)

/-- The hub that was fetched. -/
theorem hubOf_attrHubFetch_self (attr : Attr) (hubs : List (AttrHub τ)) :
    ∃ hub, hubOf attr (attrHubFetch attr hubs) = some hub ∧ hub.attr = attr ∧
      hub.topics.getD {} = topicsOf hubs attr := by
  rw [attrHubFetch]
  split
  · rename_i hany
    obtain ⟨h, hmem, hattr⟩ := List.any_eq_true.mp hany
    cases hfind : hubOf attr hubs with
    | none => exact absurd hattr (List.find?_eq_none.mp hfind h hmem)
    | some hub =>
        have hattr' : decide (hub.attr = attr) = true :=
          List.find?_some (p := fun hub : AttrHub τ => decide (hub.attr = attr)) hfind
        refine ⟨hub, rfl, of_decide_eq_true hattr', ?_⟩
        rw [topicsOf, hfind, Option.bind_some]
  · rename_i hany
    have hnone : hubOf attr hubs = none :=
      List.find?_eq_none.mpr fun h hmem hattr => hany (List.any_eq_true.mpr ⟨h, hmem, hattr⟩)
    refine ⟨_, hubOf_cons_self rfl, rfl, ?_⟩
    rw [topicsOf, hnone]
    rfl

/-- Fetching a hub changes no topics. -/
theorem topicsOf_attrHubFetch (attr attr' : Attr) (hubs : List (AttrHub τ)) :
    topicsOf (attrHubFetch attr hubs) attr' = topicsOf hubs attr' := by
  by_cases hattr : attr = attr'
  · subst hattr
    obtain ⟨hub, hfind, -, htopics⟩ := hubOf_attrHubFetch_self attr hubs
    rw [topicsOf, hfind, Option.bind_some, htopics]
  · rw [attrHubFetch]
    split
    · rfl
    · rw [topicsOf, hubOf_cons_of_ne hattr, topicsOf]

theorem hubOf_writeHub_self {old : AttrHub τ} (hfind : hubOf attr hubs = some old) (hattr : hub.attr = attr) :
    hubOf attr (writeHub attr hub hubs) = some hub := by
  induction hubs with
  | nil => cases hfind
  | cons h hubs ih =>
      rw [writeHub]
      by_cases hh : h.attr = attr
      · rw [if_pos hh]
        exact hubOf_cons_self hattr
      · rw [if_neg hh, hubOf_cons_of_ne hh]
        exact ih (by rwa [hubOf_cons_of_ne hh] at hfind)

theorem hubOf_writeHub_of_ne (hne : attr' ≠ attr) (hattr : hub.attr = attr) :
    hubOf attr' (writeHub attr hub hubs) = hubOf attr' hubs := by
  induction hubs with
  | nil => rfl
  | cons h hubs ih =>
      rw [writeHub]
      by_cases hh : h.attr = attr
      · rw [if_pos hh, hubOf_cons_of_ne (hattr ▸ hne.symm), hubOf_cons_of_ne (hh ▸ hne.symm)]
      · rw [if_neg hh]
        by_cases hh' : h.attr = attr'
        · rw [hubOf_cons_self hh', hubOf_cons_self hh']
        · rw [hubOf_cons_of_ne hh', hubOf_cons_of_ne hh', ih]

/-- **A topic is added** unless its number is taken. -/
theorem attrHubAdd_spec {l : List τ} (topic : τ) (h : (hub.topics.getD {}).Holds num (FirstAt num l)) :
    (attrHubAdd (kndUidCreate (num topic)) topic hub).1 = .ok () ∧
      (attrHubAdd (kndUidCreate (num topic)) topic hub).2.attr = hub.attr ∧
      ((attrHubAdd (kndUidCreate (num topic)) topic hub).2.topics.getD {}).Holds num
        (FirstAt num (l ++ [topic])) := by
  by_cases htaken : ∃ b ∈ l, num b = num topic
  · obtain ⟨b, hb, hnum⟩ := htaken
    obtain ⟨d, hd, hnum'⟩ := exists_firstAt num hb
    have hget := h.kndSetGet_eq_ok hd
    rw [hnum', hnum] at hget
    simp only [attrHubAdd, hget, true_and]
    refine h.congr fun c => (firstAt_snoc.trans (or_iff_left ?_)).symm
    rintro ⟨-, hfree⟩
    exact hfree b hb hnum
  · have hfree : ∀ b ∈ l, num b ≠ num topic := fun b hb hnum => htaken ⟨b, hb, hnum⟩
    have hfree' : ∀ b, FirstAt num l b → num b ≠ num topic := fun b hb => hfree b hb.mem
    obtain ⟨e, hget⟩ := h.kndSetGet_eq_error hfree'
    obtain ⟨set', hadd, hset', -⟩ := h.kndSetAdd_free hfree'
    simp only [attrHubAdd, hget, hadd, true_and]
    refine hset'.congr fun c => ?_
    rw [firstAt_snoc, or_comm]
    exact or_congr_right (and_iff_left hfree).symm

/-- **A topic is entered** in the hub of its attribute. -/
theorem recordTopic_spec {l : List τ} (topic : τ) (h : (topicsOf hubs attr).Holds num (FirstAt num l)) :
    (recordTopic attr (kndUidCreate (num topic)) topic hubs).1 = .ok () ∧
      (topicsOf (recordTopic attr (kndUidCreate (num topic)) topic hubs).2 attr).Holds num
        (FirstAt num (l ++ [topic])) ∧
      ∀ attr', attr' ≠ attr →
        topicsOf (recordTopic attr (kndUidCreate (num topic)) topic hubs).2 attr' = topicsOf hubs attr' := by
  obtain ⟨hub, hfind, hattr, htopics⟩ := hubOf_attrHubFetch_self attr hubs
  rw [← htopics] at h
  obtain ⟨hok, hkeep, hset⟩ := attrHubAdd_spec topic h
  simp only [recordTopic, hfind]
  refine ⟨hok, ?_, fun attr' hne => ?_⟩
  · rw [topicsOf, hubOf_writeHub_self hfind (hkeep.trans hattr), Option.bind_some]
    exact hset
  · rw [topicsOf, hubOf_writeHub_of_ne hne (hkeep.trans hattr), ← topicsOf, topicsOf_attrHubFetch]

end Hub

/-! ## (4) Lists of references -/

/-- A reference: what is referred to, the attribute, and the topic that refers to it. -/
abbrev Ref (τ : Type) := τ × Attr × τ

/-- The topics of an attribute that refer to something, in their order. -/
def topicsIn {τ : Type} [DecidableEq τ] (spec : τ) (attr : Attr) (refs : List (Ref τ)) : List τ :=
  (refs.filter fun ref => ref.1 = spec ∧ ref.2.1 = attr).map fun ref => ref.2.2

theorem mem_topicsIn {τ : Type} [DecidableEq τ] {spec topic : τ} {attr : Attr} {refs : List (Ref τ)} :
    topic ∈ topicsIn spec attr refs ↔ (spec, attr, topic) ∈ refs := by
  constructor
  · intro h
    obtain ⟨⟨spec', attr', topic'⟩, hmem, rfl⟩ := List.mem_map.mp h
    obtain ⟨href, heq⟩ := List.mem_filter.mp hmem
    obtain ⟨rfl, rfl⟩ := of_decide_eq_true heq
    exact href
  · intro h
    exact List.mem_map.mpr ⟨_, List.mem_filter.mpr ⟨h, by simp⟩, rfl⟩

/-- **What hubs hold after a list of references**: for each attribute the topics that have taken their numbers. -/
def Recorded {τ : Type} [DecidableEq τ] (num : τ → Nat) (hubs : τ → List (AttrHub τ)) (refs : List (Ref τ)) : Prop :=
  ∀ spec attr, (topicsOf (hubs spec) attr).Holds num (FirstAt num (topicsIn spec attr refs))

section Recorded

variable {τ : Type} [DecidableEq τ] {num : τ → Nat} {hubs : τ → List (AttrHub τ)} {refs : List (Ref τ)}

theorem recorded_nil (num : τ → Nat) : Recorded num (fun _ => []) [] := fun _ _ =>
  (KndSet.holds_new num).congr fun a => iff_of_false id (not_firstAt_nil num a)

/-- One reference more. -/
theorem Recorded.snoc (h : Recorded num hubs refs) (spec topic : τ) (attr : Attr) :
    (recordTopic attr (kndUidCreate (num topic)) topic (hubs spec)).1 = .ok () ∧
      Recorded num
        (Function.update hubs spec (recordTopic attr (kndUidCreate (num topic)) topic (hubs spec)).2)
        (refs ++ [(spec, attr, topic)]) := by
  obtain ⟨hok, hset, hother⟩ := recordTopic_spec topic (h spec attr)
  refine ⟨hok, fun spec' attr' => ?_⟩
  rw [topicsIn, List.filter_append, List.map_append]
  by_cases hspec : spec' = spec
  · subst hspec
    rw [Function.update_self]
    by_cases hattr : attr' = attr
    · subst hattr
      simpa [topicsIn] using hset
    · rw [hother attr' hattr]
      simpa [topicsIn, Ne.symm hattr] using h spec' attr'
  · rw [Function.update_of_ne hspec]
    simpa [topicsIn, Ne.symm hspec] using h spec' attr'

/-- A hub that is fetched holds nothing more. -/
theorem Recorded.fetch (h : Recorded num hubs refs) (spec : τ) (attr : Attr) :
    Recorded num (Function.update hubs spec (attrHubFetch attr (hubs spec))) refs := by
  intro spec' attr'
  by_cases hspec : spec' = spec
  · subst hspec
    rw [Function.update_self, topicsOf_attrHubFetch]
    exact h spec' attr'
  · rw [Function.update_of_ne hspec]
    exact h spec' attr'

/-- **Exact hubs.** When no two topics that refer to a thing have one number, its hub holds all of them. -/
theorem Recorded.holds_iff (h : Recorded num hubs refs) (spec : τ) (attr : Attr) :
    (topicsOf (hubs spec) attr).Holds num (fun topic => (spec, attr, topic) ∈ refs) ↔
      ∀ a b, (spec, attr, a) ∈ refs → (spec, attr, b) ∈ refs → num a = num b → a = b := by
  have hfirst := firstAt_iff_mem_iff num (topicsIn spec attr refs)
  constructor
  · intro hexact a b ha hb hnum
    refine hfirst.mp (fun c => ?_) a (mem_topicsIn.mpr ha) b (mem_topicsIn.mpr hb) hnum
    rw [mem_topicsIn]
    exact (h spec attr).mem_elems.symm.trans hexact.mem_elems
  · intro hinj
    refine (h spec attr).congr fun a => ?_
    rw [← mem_topicsIn]
    exact hfirst.mpr (fun a ha b hb => hinj a b (mem_topicsIn.mp ha) (mem_topicsIn.mp hb)) a

end Recorded

/-! ## (5) What is entered -/

/-- **An attribute variable names a class.** -/
inductive Names (attr : Attr) (var : AttrVar κ ι) (spec : κ) : Prop
  /-- A reference. -/
  | ref (hset : attr.isASet = false) (htype : attr.type = .ref) (h : var.classEntry = some spec)
  /-- An item of a list of references. -/
  | item (hset : attr.isASet = true) (htype : attr.type = .ref) (h : some spec ∈ var.list)
  /-- The implied attribute of an inner variable. -/
  | implied (hset : attr.isASet = false) (htype : attr.type = .inner)
      (himplied : ∃ implied, var.impliedAttr = some implied ∧ implied.type = .ref) (h : var.classEntry = some spec)
  /-- An indexed reference in an inner variable. -/
  | child (hset : attr.isASet = false) (htype : attr.type = .inner)
      (h : ∃ item, (item, some spec) ∈ var.children ∧ item.isIndexed = true ∧ item.type = .ref)

/-- **A class refers to a class**: one of its own indexed attribute variables names it. -/
def ClassRefers (attrIdx : κ → List (AttrRef κ ι)) (spec : κ) (attr : Attr) (topic : κ) : Prop :=
  attr.isIndexed = true ∧ ∃ var, ⟨attr, some (var, topic)⟩ ∈ attrIdx topic ∧ Names attr var spec

/-- **An instance refers to an instance.** -/
def InstRefers (attrs : ι → List (AttrVar κ ι)) (spec : ι) (attr : Attr) (topic : ι) : Prop :=
  ∃ var ∈ attrs topic, var.attr = attr ∧ attr.isIndexed = true ∧ attr.type = .ref ∧ attr.relType = .classInst ∧
    var.classInstEntry = some spec

/-- The references of a class are resolved. -/
def ClassResolved (attrIdx : κ → List (AttrRef κ ι)) (self : κ) : Prop :=
  ∀ attr var, ⟨attr, some (var, self)⟩ ∈ attrIdx self → attr.isIndexed = true → attr.type = .ref →
    if attr.isASet then none ∉ var.list else var.classEntry ≠ none

/-- The references of an instance are resolved. -/
def InstResolved (attrs : ι → List (AttrVar κ ι)) (self : ι) : Prop :=
  ∀ var ∈ attrs self, var.attr.isIndexed = true → var.attr.type = .ref →
    (var.attr.relType = .subclass → var.classEntry ≠ none) ∧
      (var.attr.relType = .classInst → var.classInstEntry ≠ none)

/-! ## (6) Programs -/

/-- **A program enters references** of classes and of instances. -/
def Enters (prog : HubM κ ι Unit) (new : List (Ref κ)) (newInst : List (Ref ι)) : Prop :=
  ∀ refs instRefs s, Recorded numids.ofClass s.classHubs refs → Recorded numids.ofInst s.instHubs instRefs →
    ∃ s', prog.run s = .ok () s' ∧ Recorded numids.ofClass s'.classHubs (refs ++ new) ∧
      Recorded numids.ofInst s'.instHubs (instRefs ++ newInst)

namespace Enters

variable {numids} {prog prog' : HubM κ ι Unit} {new new' : List (Ref κ)} {newInst newInst' : List (Ref ι)}

theorem nothing : Enters numids (pure () : HubM κ ι Unit) [] [] := by
  intro refs instRefs s h hinst
  rw [List.append_nil, List.append_nil]
  exact ⟨s, rfl, h, hinst⟩

theorem seq (h : Enters numids prog new newInst) (h' : Enters numids prog' new' newInst') :
    Enters numids (do prog; prog') (new ++ new') (newInst ++ newInst') := by
  intro refs instRefs s hrefs hinst
  obtain ⟨s₁, hrun₁, hrefs₁, hinst₁⟩ := h refs instRefs s hrefs hinst
  obtain ⟨s₂, hrun₂, hrefs₂, hinst₂⟩ := h' _ _ s₁ hrefs₁ hinst₁
  refine ⟨s₂, (run_bind_of_ok hrun₁).trans hrun₂, List.append_assoc refs new new' ▸ hrefs₂,
    List.append_assoc instRefs newInst newInst' ▸ hinst₂⟩

theorem seq_class (h : Enters numids prog new []) (h' : Enters numids prog' new' []) :
    Enters numids (do prog; prog') (new ++ new') [] := h.seq h'

/-- A loop. -/
theorem forM {α : Type} {as : List α} {f : α → HubM κ ι Unit} {g : α → List (Ref κ)} {g' : α → List (Ref ι)}
    (h : ∀ a ∈ as, Enters numids (f a) (g a) (g' a)) : Enters numids (as.forM f) (as.flatMap g) (as.flatMap g') := by
  induction as with
  | nil => exact nothing
  | cons a as ih =>
      rw [List.flatMap_cons, List.flatMap_cons]
      exact (h a (List.mem_cons_self ..)).seq (ih fun b hb => h b (List.mem_cons_of_mem a hb))

theorem forM_class {α : Type} {as : List α} {f : α → HubM κ ι Unit} {g : α → List (Ref κ)}
    (h : ∀ a ∈ as, Enters numids (f a) (g a) []) : Enters numids (as.forM f) (as.flatMap g) [] := by
  have hall := forM h
  rwa [List.flatMap_eq_nil_iff.mpr fun _ _ => rfl] at hall

theorem forM_inst {α : Type} {as : List α} {f : α → HubM κ ι Unit} {g : α → List (Ref ι)}
    (h : ∀ a ∈ as, Enters numids (f a) [] (g a)) : Enters numids (as.forM f) [] (as.flatMap g) := by
  have hall := forM h
  rwa [List.flatMap_eq_nil_iff.mpr fun _ _ => rfl] at hall

theorem recordClass (spec : κ) (attr : Attr) (topic : κ) :
    Enters numids (recordClass numids spec attr topic) [(spec, attr, topic)] [] := by
  intro refs instRefs s hrefs hinst
  obtain ⟨hok, hset⟩ := hrefs.snoc spec topic attr
  refine ⟨{ s with classHubs := _ }, ?_, hset, (List.append_nil instRefs).symm ▸ hinst⟩
  rw [AttrHubs.recordClass, run_get_bind]
  dsimp only
  rw [hok]
  rfl

theorem recordInst (spec : ι) (attr : Attr) (topic : ι) :
    Enters numids (recordInst (κ := κ) numids spec attr topic) [] [(spec, attr, topic)] := by
  intro refs instRefs s hrefs hinst
  obtain ⟨hok, hset⟩ := hinst.snoc spec topic attr
  refine ⟨{ s with instHubs := _ }, ?_, (List.append_nil refs).symm ▸ hrefs, hset⟩
  rw [AttrHubs.recordInst, run_get_bind]
  dsimp only
  rw [hok]
  rfl

end Enters

/-! ## (7) The references of classes and instances -/

/-- The classes that the implied attribute of an inner variable names. -/
def impliedSpecs (var : AttrVar κ ι) : List κ :=
  match var.impliedAttr, var.classEntry with
  | some implied, some spec => if implied.type = .ref then [spec] else []
  | _, _ => []

/-- The class that a nested variable names. -/
def childSpec (item : Attr × Option κ) : List κ :=
  match item.2 with
  | some spec => if item.1.isIndexed ∧ item.1.type = .ref then [spec] else []
  | none => []

/-- The classes that an attribute variable names. -/
def specsOf (attr : Attr) (var : AttrVar κ ι) : List κ :=
  if attr.isASet then (if attr.type = .ref then var.list.filterMap id else [])
  else if attr.type = .ref then var.classEntry.toList
  else if attr.type = .inner then impliedSpecs var ++ var.children.flatMap childSpec
  else []

omit [DecidableEq κ] [DecidableEq ι] in
theorem mem_impliedSpecs {var : AttrVar κ ι} {spec : κ} : spec ∈ impliedSpecs var ↔
    (∃ implied, var.impliedAttr = some implied ∧ implied.type = .ref) ∧ var.classEntry = some spec := by
  unfold impliedSpecs
  split
  · rename_i implied spec' himplied hentry
    rw [himplied, hentry]
    by_cases htype : implied.type = .ref
    · simp [htype, eq_comm]
    · simp [htype]
  · rename_i hnone
    refine iff_of_false List.not_mem_nil ?_
    rintro ⟨⟨implied, himplied, -⟩, hentry⟩
    exact hnone implied spec himplied hentry

omit [DecidableEq κ] in
theorem mem_childSpec {item : Attr × Option κ} {spec : κ} :
    spec ∈ childSpec item ↔ item.2 = some spec ∧ item.1.isIndexed = true ∧ item.1.type = .ref := by
  unfold childSpec
  split
  · rename_i spec' hentry
    rw [hentry]
    by_cases hitem : item.1.isIndexed = true ∧ item.1.type = .ref
    · simp [hitem, eq_comm]
    · exact iff_of_false (by simp [if_neg hitem]) fun h => hitem h.2
  · rename_i hentry
    simp [hentry]

omit [DecidableEq κ] [DecidableEq ι] in
/-- **The classes that are entered are those that are named.** -/
theorem mem_specsOf {attr : Attr} {var : AttrVar κ ι} {spec : κ} : spec ∈ specsOf attr var ↔ Names attr var spec := by
  unfold specsOf
  constructor
  · intro h
    split_ifs at h with hset htype htype hinner
    · exact .item hset htype (by simpa using h)
    · exact absurd h List.not_mem_nil
    · exact .ref (Bool.eq_false_of_not_eq_true hset) htype (by simpa using h)
    · rcases List.mem_append.mp h with h | h
      · obtain ⟨himplied, hentry⟩ := mem_impliedSpecs.mp h
        exact .implied (Bool.eq_false_of_not_eq_true hset) hinner himplied hentry
      · obtain ⟨⟨item, entry⟩, hmem, h⟩ := List.mem_flatMap.mp h
        obtain ⟨rfl, hindexed, htype⟩ := mem_childSpec.mp h
        exact .child (Bool.eq_false_of_not_eq_true hset) hinner ⟨item, hmem, hindexed, htype⟩
    · exact absurd h List.not_mem_nil
  · intro h
    cases h with
    | ref hset htype h => simp [hset, htype, h]
    | item hset htype h => simpa [hset, htype] using h
    | implied hset htype himplied h =>
        rw [if_neg (by simp [hset]), if_neg (by simp [htype]), if_pos htype]
        exact List.mem_append_left _ (mem_impliedSpecs.mpr ⟨himplied, h⟩)
    | child hset htype h =>
        obtain ⟨item, hmem, hitem⟩ := h
        rw [if_neg (by simp [hset]), if_neg (by simp [htype]), if_pos htype]
        exact List.mem_append_right _ (List.mem_flatMap.mpr ⟨_, hmem, mem_childSpec.mpr ⟨rfl, hitem⟩⟩)

/-- The references of an attribute of a class. -/
def attrRefs (self : κ) (ref : AttrRef κ ι) : List (Ref κ) :=
  match ref.attrVar with
  | none => []
  | some (var, parent) =>
      if ref.attr.isIndexed = true ∧ parent = self then
        (specsOf ref.attr var).map fun spec => (spec, ref.attr, self)
      else []

/-- The reference of an attribute variable of an instance. -/
def instVarRefs (self : ι) (var : AttrVar κ ι) : List (Ref ι) :=
  match var.classInstEntry with
  | some spec =>
      if var.attr.isIndexed = true ∧ var.attr.type = .ref ∧ var.attr.relType = .classInst then
        [(spec, var.attr, self)]
      else []
  | none => []

omit [DecidableEq ι] in
theorem mem_attrRefs {attrIdx : κ → List (AttrRef κ ι)} {self topic spec : κ} {attr : Attr} :
    (spec, attr, topic) ∈ (attrIdx self).flatMap (attrRefs self) ↔
      topic = self ∧ ClassRefers attrIdx spec attr self := by
  rw [List.mem_flatMap]
  constructor
  · rintro ⟨⟨attr', attrVar⟩, hmem, h⟩
    unfold attrRefs at h
    split at h
    · exact absurd h List.not_mem_nil
    · rename_i var parent hvar
      split_ifs at h with hown
      · obtain ⟨hindexed, rfl⟩ := hown
        obtain ⟨spec', hspec, heq⟩ := List.mem_map.mp h
        obtain ⟨rfl, rfl, rfl⟩ : spec' = spec ∧ attr' = attr ∧ parent = topic := by simpa using heq
        obtain rfl : attrVar = some (var, parent) := hvar
        exact ⟨rfl, hindexed, var, hmem, mem_specsOf.mp hspec⟩
      · exact absurd h List.not_mem_nil
  · rintro ⟨rfl, hindexed, var, hmem, hnames⟩
    refine ⟨_, hmem, ?_⟩
    simp only [attrRefs, hindexed, and_self, if_true]
    exact List.mem_map.mpr ⟨spec, mem_specsOf.mpr hnames, rfl⟩

omit [DecidableEq κ] [DecidableEq ι] in
theorem mem_instVarRefs {attrs : ι → List (AttrVar κ ι)} {self topic spec : ι} {attr : Attr} :
    (spec, attr, topic) ∈ (attrs self).flatMap (instVarRefs self) ↔
      topic = self ∧ InstRefers attrs spec attr self := by
  rw [List.mem_flatMap]
  constructor
  · rintro ⟨var, hmem, h⟩
    unfold instVarRefs at h
    split at h
    · rename_i spec' hentry
      split_ifs at h with hvar
      · obtain ⟨rfl, rfl, rfl⟩ : spec = spec' ∧ attr = var.attr ∧ topic = self := by simpa using h
        exact ⟨rfl, var, hmem, rfl, hvar.1, hvar.2.1, hvar.2.2, hentry⟩
      · exact absurd h List.not_mem_nil
    · exact absurd h List.not_mem_nil
  · rintro ⟨rfl, var, hmem, rfl, hindexed, htype, hrel, hentry⟩
    refine ⟨var, hmem, ?_⟩
    simp [instVarRefs, hentry, hindexed, htype, hrel]

/-! ## (8) The programs -/

section Code

variable {numids : Numids κ ι} {attr : Attr} {var : AttrVar κ ι} {topic : κ}

theorem enters_indexInnerAttrVar (topic : κ) (attr : Attr) (var : AttrVar κ ι) :
    Enters numids (indexInnerAttrVar numids topic attr var)
      ((impliedSpecs var ++ var.children.flatMap childSpec).map fun spec => (spec, attr, topic)) [] := by
  rw [List.map_append, List.map_flatMap]
  refine Enters.seq_class ?_ ?_
  · unfold impliedSpecs
    split
    · split_ifs
      · exact Enters.recordClass _ attr topic
      · exact Enters.nothing
    · exact Enters.nothing
  · refine Enters.forM_class fun item _ => ?_
    unfold childSpec
    split
    · split_ifs
      · exact Enters.recordClass _ attr topic
      · exact Enters.nothing
    · exact Enters.nothing

theorem enters_kndIndexAttrVarList (topic : κ) (htype : attr.type = .ref → none ∉ var.list) :
    Enters numids (kndIndexAttrVarList numids topic attr var)
      ((if attr.type = .ref then var.list.filterMap id else []).map fun spec => (spec, attr, topic)) [] := by
  have hitems : (if attr.type = .ref then var.list.filterMap id else []).map (fun spec => (spec, attr, topic)) =
      var.list.flatMap fun item =>
        if attr.type = .ref then item.toList.map fun spec => (spec, attr, topic) else [] := by
    split
    · simp [List.filterMap_eq_flatMap_toList, List.map_flatMap]
    · simp
  rw [hitems]
  refine Enters.forM_class fun item hmem => ?_
  split
  · rename_i hattr
    cases item with
    | none => exact absurd hmem (htype hattr)
    | some spec => exact Enters.recordClass spec attr topic
  · exact Enters.nothing

theorem enters_kndIndexAttrVar (topic : κ) (htype : attr.type = .ref → var.classEntry ≠ none) :
    Enters numids (kndIndexAttrVar numids topic attr var)
      ((if attr.type = .ref then var.classEntry.toList
        else if attr.type = .inner then impliedSpecs var ++ var.children.flatMap childSpec
        else []).map fun spec => (spec, attr, topic)) [] := by
  unfold kndIndexAttrVar
  split
  · rename_i hattr
    rw [if_pos hattr]
    cases hentry : var.classEntry with
    | none => exact absurd hentry (htype hattr)
    | some spec =>
        rw [indexRef, hentry]
        exact Enters.recordClass spec attr topic
  · rename_i hattr
    rw [if_neg (by simp [hattr]), if_pos hattr]
    exact enters_indexInnerAttrVar topic attr var
  · rename_i href hinner
    rw [if_neg href, if_neg hinner]
    exact Enters.nothing

/-- **A class enters its references.** -/
theorem enters_indexClass {attrIdx : κ → List (AttrRef κ ι)} {self : κ} (hresolved : ClassResolved attrIdx self) :
    Enters numids (indexClass numids attrIdx self) ((attrIdx self).flatMap (attrRefs self)) [] := by
  refine Enters.forM_class ?_
  rintro ⟨attr, attrVar⟩ hmem
  unfold indexAttr attrRefs
  cases attrVar with
  | none => exact Enters.nothing
  | some own =>
      obtain ⟨var, parent⟩ := own
      dsimp only
      by_cases hindexed : attr.isIndexed = true
      · by_cases hown : parent = self
        · subst hown
          have hvar := hresolved attr var hmem hindexed
          simp only [hindexed, Bool.not_true, Bool.false_eq_true, if_false, ne_eq, not_true_eq_false, and_self,
            if_true, specsOf]
          by_cases hset : attr.isASet = true
          · rw [if_pos hset, if_pos hset]
            exact enters_kndIndexAttrVarList parent fun htype => by simpa [hset] using hvar htype
          · rw [if_neg hset, if_neg hset]
            exact enters_kndIndexAttrVar parent fun htype => by simpa [hset] using hvar htype
        · simp only [hindexed, Bool.not_true, Bool.false_eq_true, if_false, ne_eq, hown, not_false_eq_true, if_true,
            and_false]
          exact Enters.nothing
      · simp only [hindexed, Bool.not_false, if_true, Bool.false_eq_true, false_and, if_false]
        exact Enters.nothing

omit [DecidableEq κ] [DecidableEq ι] in
/-- Other variables refer to no instance. -/
theorem instVarRefs_of_not {self : ι} {var : AttrVar κ ι}
    (h : ¬(var.attr.isIndexed = true ∧ var.attr.type = .ref ∧ var.attr.relType = .classInst)) :
    instVarRefs self var = [] := by
  unfold instVarRefs
  split
  · exact if_neg h
  · rfl

/-- **An instance enters its references.** -/
theorem enters_indexInst {attrs : ι → List (AttrVar κ ι)} {self : ι} (hresolved : InstResolved attrs self) :
    Enters numids (indexInst numids attrs self) [] ((attrs self).flatMap (instVarRefs self)) := by
  refine Enters.forM_inst fun var hmem => ?_
  by_cases hindexed : var.attr.isIndexed = true
  · rw [if_pos hindexed]
    by_cases htype : var.attr.type = .ref
    · obtain ⟨hsubclass, hclassInst⟩ := hresolved var hmem hindexed htype
      simp only [kndIndexInstAttrVar, htype, indexInstRef]
      cases hrel : var.attr.relType with
      | default =>
          rw [instVarRefs_of_not (by simp [hrel])]
          exact Enters.nothing
      | subclass =>
          rw [instVarRefs_of_not (by simp [hrel])]
          cases hentry : var.classEntry with
          | none => exact absurd hentry (hsubclass hrel)
          | some spec =>
              intro refs instRefs s hrefs hinst
              refine ⟨_, rfl, ?_, ?_⟩
              · rw [List.append_nil]
                exact hrefs.fetch spec var.attr
              · rw [List.append_nil]
                exact hinst
      | classInst =>
          cases hentry : var.classInstEntry with
          | none => exact absurd hentry (hclassInst hrel)
          | some spec =>
              have hrefs : instVarRefs self var = [(spec, var.attr, self)] := by
                simp [instVarRefs, hentry, hindexed, htype, hrel]
              rw [hrefs]
              exact Enters.recordInst spec var.attr self
    · rw [instVarRefs_of_not fun h => htype h.2.1]
      unfold kndIndexInstAttrVar
      split
      · rename_i heq
        exact absurd heq htype
      · exact Enters.nothing
  · rw [if_neg hindexed, instVarRefs_of_not fun h => hindexed h.1]
    exact Enters.nothing

end Code

/-! ## (9) All classes and instances -/

variable (attrIdx : κ → List (AttrRef κ ι)) (attrs : ι → List (AttrVar κ ι))

/-- The attributes in `index_classes` and `index_repo_class_insts`. -/
def indexRepo (classes : List κ) (insts : List ι) : HubM κ ι Unit := do
  classes.forM (indexClass numids attrIdx)
  insts.forM (indexInst numids attrs)

variable {numids attrIdx attrs} {classes : List κ} {insts : List ι}

variable (numids) in
/-- **All references are entered**, in the order of the topics. -/
theorem recorded_indexRepo (hclasses : ∀ c ∈ classes, ClassResolved attrIdx c)
    (hinsts : ∀ t ∈ insts, InstResolved attrs t) :
    ∃ s', (indexRepo numids attrIdx attrs classes insts).run {} = .ok () s' ∧
      Recorded numids.ofClass s'.classHubs (classes.flatMap fun c => (attrIdx c).flatMap (attrRefs c)) ∧
      Recorded numids.ofInst s'.instHubs (insts.flatMap fun t => (attrs t).flatMap (instVarRefs t)) := by
  have hrun : Enters numids (indexRepo numids attrIdx attrs classes insts) _ _ :=
    (Enters.forM_class fun c hc => enters_indexClass (hclasses c hc)).seq
      (Enters.forM_inst fun t ht => enters_indexInst (hinsts t ht))
  obtain ⟨s', hrun, hrefs, hinst⟩ := hrun [] [] {} (recorded_nil _) (recorded_nil _)
  exact ⟨s', hrun, by simpa using hrefs, by simpa using hinst⟩

omit [DecidableEq ι] in
theorem mem_classRefs {spec topic : κ} {attr : Attr} :
    (spec, attr, topic) ∈ (classes.flatMap fun c => (attrIdx c).flatMap (attrRefs c)) ↔
      topic ∈ classes ∧ ClassRefers attrIdx spec attr topic := by
  rw [List.mem_flatMap]
  constructor
  · rintro ⟨c, hc, h⟩
    obtain ⟨rfl, hrefers⟩ := mem_attrRefs.mp h
    exact ⟨hc, hrefers⟩
  · rintro ⟨hc, hrefers⟩
    exact ⟨topic, hc, mem_attrRefs.mpr ⟨rfl, hrefers⟩⟩

omit [DecidableEq κ] [DecidableEq ι] in
theorem mem_instRefs {spec topic : ι} {attr : Attr} :
    (spec, attr, topic) ∈ (insts.flatMap fun t => (attrs t).flatMap (instVarRefs t)) ↔
      topic ∈ insts ∧ InstRefers attrs spec attr topic := by
  rw [List.mem_flatMap]
  constructor
  · rintro ⟨t, ht, h⟩
    obtain ⟨rfl, hrefers⟩ := mem_instVarRefs.mp h
    exact ⟨ht, hrefers⟩
  · rintro ⟨ht, hrefers⟩
    exact ⟨topic, ht, mem_instVarRefs.mpr ⟨rfl, hrefers⟩⟩

/-- **The hubs of classes are exact.** When classes have numbers of their own, the hub of a class for an attribute
holds exactly the classes that refer to it, in whatever order classes and instances were indexed. -/
theorem classHubs_exact (hnumid : ∀ a ∈ classes, ∀ b ∈ classes, numids.ofClass a = numids.ofClass b → a = b)
    (hclasses : ∀ c ∈ classes, ClassResolved attrIdx c) (hinsts : ∀ t ∈ insts, InstResolved attrs t) :
    ∃ s', (indexRepo numids attrIdx attrs classes insts).run {} = .ok () s' ∧ ∀ spec attr,
      (topicsOf (s'.classHubs spec) attr).Holds numids.ofClass fun topic =>
        topic ∈ classes ∧ ClassRefers attrIdx spec attr topic := by
  obtain ⟨s', hrun, hrefs, -⟩ := recorded_indexRepo numids hclasses hinsts
  refine ⟨s', hrun, fun spec attr => ?_⟩
  have hexact := (hrefs.holds_iff spec attr).mpr fun a b ha hb =>
    hnumid a (mem_classRefs.mp ha).1 b (mem_classRefs.mp hb).1
  exact hexact.congr fun topic => mem_classRefs

/-- **When the hubs of instances are exact**: the hub of an instance for an attribute holds exactly the instances that
refer to it if and only if no two of them have the same number. -/
theorem instHubs_exact_iff (hclasses : ∀ c ∈ classes, ClassResolved attrIdx c)
    (hinsts : ∀ t ∈ insts, InstResolved attrs t) :
    ∃ s', (indexRepo numids attrIdx attrs classes insts).run {} = .ok () s' ∧ ∀ spec attr,
      ((topicsOf (s'.instHubs spec) attr).Holds numids.ofInst fun topic =>
          topic ∈ insts ∧ InstRefers attrs spec attr topic) ↔
        ∀ a ∈ insts, ∀ b ∈ insts, InstRefers attrs spec attr a → InstRefers attrs spec attr b →
          numids.ofInst a = numids.ofInst b → a = b := by
  obtain ⟨s', hrun, -, hinst⟩ := recorded_indexRepo numids hclasses hinsts
  refine ⟨s', hrun, fun spec attr => ?_⟩
  have hcongr : (topicsOf (s'.instHubs spec) attr).Holds numids.ofInst (fun topic =>
      topic ∈ insts ∧ InstRefers attrs spec attr topic) ↔ _ :=
    ⟨fun h => h.congr fun topic => mem_instRefs.symm, fun h => h.congr fun topic => mem_instRefs⟩
  rw [hcongr, hinst.holds_iff spec attr]
  constructor
  · exact fun h a ha b hb hrefa hrefb => h a b (mem_instRefs.mpr ⟨ha, hrefa⟩) (mem_instRefs.mpr ⟨hb, hrefb⟩)
  · intro h a b ha hb
    obtain ⟨ha, hrefa⟩ := mem_instRefs.mp ha
    obtain ⟨hb, hrefb⟩ := mem_instRefs.mp hb
    exact h a ha b hb hrefa hrefb

/-- A list of references to classes. -/
def employers : Attr := { addr := 0, type := .ref, isASet := true, isIndexed := true }

/-- A reference to an instance. -/
def employer : Attr := { addr := 1, type := .ref, relType := .classInst, isIndexed := true }

/-- The attributes of the classes 1 and 2. -/
def employed : Nat → List (AttrRef Nat Nat)
  | 1 => [⟨employers, some ({ attr := employers, list := [some 0, some 3] }, 1)⟩]
  | 2 => [⟨employer, some ({ attr := employer, classEntry := some 0 }, 2)⟩, ⟨employers, none⟩]
  | _ => []

/-- The attributes of the instances 1 and 2, each the first one of its class. -/
def hired : Nat → List (AttrVar Nat Nat)
  | 0 => []
  | _ => [{ attr := employer, classEntry := some 0, classInstEntry := some 0 }]

theorem resolved_employed (self : Nat) : ClassResolved employed self := by
  intro attr var hmem hindexed htype
  rcases self with - | - | - | self
  · simp [employed] at hmem
  · obtain ⟨rfl, rfl⟩ : attr = employers ∧ var = { attr := employers, list := [some 0, some 3] } := by
      simpa [employed] using hmem
    simp [employers]
  · obtain ⟨rfl, rfl⟩ : attr = employer ∧ var = { attr := employer, classEntry := some 0 } := by
      simpa [employed] using hmem
    simp [employer]
  · simp [employed] at hmem

theorem resolved_hired (self : Nat) : InstResolved hired self := by
  intro var hmem hindexed htype
  rcases self with - | self
  · simp [hired] at hmem
  · obtain rfl : var = { attr := employer, classEntry := some 0, classInstEntry := some 0 } := by
      simpa [hired] using hmem
    simp

theorem classHubs_exact_employed :
    ∃ s', (indexRepo ⟨id, fun _ => 0⟩ employed hired [0, 1, 2] [1, 2]).run {} = .ok () s' ∧ ∀ spec attr,
      (topicsOf (s'.classHubs spec) attr).Holds id fun topic =>
        topic ∈ [0, 1, 2] ∧ ClassRefers employed spec attr topic :=
  classHubs_exact (by decide) (fun c _ => resolved_employed c) fun t _ => resolved_hired t

theorem instHubs_exact_iff_hired :
    ∃ s', (indexRepo ⟨id, fun _ => 0⟩ employed hired [0, 1, 2] [1, 2]).run {} = .ok () s' ∧ ∀ spec attr,
      ((topicsOf (s'.instHubs spec) attr).Holds (fun _ => 0) fun topic =>
          topic ∈ [1, 2] ∧ InstRefers hired spec attr topic) ↔
        ∀ a ∈ [1, 2], ∀ b ∈ [1, 2], InstRefers hired spec attr a → InstRefers hired spec attr b → 0 = 0 → a = b :=
  instHubs_exact_iff (fun c _ => resolved_employed c) fun t _ => resolved_hired t

end Knowdy.AttrHubs
