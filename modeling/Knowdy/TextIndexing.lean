import Knowdy.Lib.Effect
import Knowdy.Lib.Runs
import Knowdy.Utils
import Mathlib.Data.List.Nodup
import Mathlib.Data.List.TakeWhile

/-! # The text index

`knd_text_index` registers the classes that the statements of a text declare: each class, and each of its ancestors,
has one index for each class of sources, on a linked list that is extended at its head.

* `TextRef`, `ClassIdx`, `TextIndex` — the lists, the indices, and the log of what was registered.
* `indexClassInst`, `getClassIdx`, `appendChildIdx`, `updateAncestorIdx`, `kndTextIndex` — the functions.
* `Contract` — nothing registered is lost, and the counts are those of what was registered.
* `AtHead`, `Fits` — when a text is registered without loss.
* `contract_of_fits` — the contract holds in every run of such texts. -/

namespace Knowdy

namespace TextIndexing

/-! ## (1) Data -/

/-- `KND_MAX_TEXT_LOCS`. -/
def maxTextLocs : Nat := 64

/-- The class instance a text belongs to. -/
structure Source where
  /-- The instance. -/
  inst : Nat
  /-- `entry->blueprint`. -/
  blueprint : Nat
  deriving DecidableEq

/-- `struct kndTextLoc`. -/
structure TextLoc where
  /-- `src`. -/
  src : Source
  /-- `par_id`. -/
  parId : Nat
  /-- `sent_id`. -/
  sentId : Nat
  /-- `obj`: the declared class. -/
  obj : Nat
  deriving DecidableEq

/-- `struct kndClassRef` on `text_idxs` of a class. -/
structure TextRef where
  /-- `entry`: the class of the sources. -/
  entry : Nat
  /-- `attr`. -/
  attr : Nat
  /-- `idx`. -/
  idx : Nat
  deriving DecidableEq

/-- `struct kndClassRef` on `children` of an index. -/
structure ChildRef where
  /-- `entry`. -/
  entry : Nat
  /-- `idx`. -/
  idx : Nat
  deriving DecidableEq

/-- `struct kndClassIdx`. -/
structure ClassIdx where
  /-- `entry`. -/
  entry : Nat := 0
  /-- `locs`, newest first. -/
  locs : List TextLoc := []
  /-- `num_locs`. -/
  numLocs : Nat := 0
  /-- `total_locs`. -/
  totalLocs : Nat := 0
  /-- `children`, newest first. -/
  children : List ChildRef := []
  /-- `num_children`. -/
  numChildren : Nat := 0

/-- What a text registers. -/
inductive Registered where
  /-- A reference is linked to `text_idxs` of a class. -/
  | ref (c : Nat) (ref : TextRef)
  /-- A reference is linked to `children` of an index. -/
  | child (idx : Nat) (child : ChildRef)
  /-- `index_class_inst` has taken a location for a class. -/
  | loc (c : Nat) (loc : TextLoc)
  deriving DecidableEq

/-- The text index of a repository. A class and its entry have one address. -/
structure TextIndex where
  /-- `text_idxs` of each class. -/
  textIdxs : Nat → List TextRef := fun _ => []
  /-- The indices by their addresses. -/
  idxs : Nat → ClassIdx := fun _ => {}
  /-- The next page of the memory pool. -/
  nextIdx : Nat := 0
  /-- What was registered. -/
  log : List Registered := []

namespace TextIndex

/-- A new reference with a new index at the head of `text_idxs`. -/
def newRef (self : TextIndex) (c attr blueprint : Nat) : TextIndex :=
  let ref : TextRef := { entry := blueprint, attr, idx := self.nextIdx }
  { self with
    textIdxs := Function.update self.textIdxs c (ref :: self.textIdxs c)
    idxs := Function.update self.idxs self.nextIdx { entry := c }
    nextIdx := self.nextIdx + 1
    log := .ref c ref :: self.log }

/-- An index changes. -/
def setIdx (self : TextIndex) (i : Nat) (idx : ClassIdx) : TextIndex :=
  { self with idxs := Function.update self.idxs i idx }

/-- Something was registered. -/
def logged (self : TextIndex) (registered : Registered) : TextIndex := { self with log := registered :: self.log }

/-- The first reference of a class for a class of sources. -/
def refOf (self : TextIndex) (c blueprint : Nat) : Option TextRef :=
  (self.textIdxs c).find? fun ref => ref.entry = blueprint

/-! ## (2) One location -/

/-- The end of `index_class_inst`: a location is linked while there is room. -/
def addLoc (self : TextIndex) (i : Nat) (loc : TextLoc) : TextIndex :=
  let idx := self.idxs i
  if idx.numLocs < maxTextLocs then self.setIdx i { idx with locs := loc :: idx.locs, numLocs := idx.numLocs + 1 }
  else self

/-- `index_class_inst`, with the index it returns. -/
def indexClassInst (self : TextIndex) (c attr : Nat) (loc : TextLoc) : Nat × TextIndex :=
  match self.refOf c loc.src.blueprint with
  | some ref => (ref.idx, (self.addLoc ref.idx loc).logged (.loc c loc))
  | none => (self.nextIdx, ((self.newRef c attr loc.src.blueprint).addLoc self.nextIdx loc).logged (.loc c loc))

/-- `get_class_idx`. The head of the list is exchanged for the reference that was found, wherever it stands. -/
def getClassIdx (self : TextIndex) (c attr blueprint : Nat) : Nat × TextIndex :=
  match (self.textIdxs c).dropWhile fun ref => ref.entry ≠ blueprint with
  | ref :: refs => (ref.idx, { self with textIdxs := Function.update self.textIdxs c (ref :: refs) })
  | [] => (self.nextIdx, self.newRef c attr blueprint)

/-- `append_child_idx`. -/
def appendChildIdx (self : TextIndex) (i childIdx : Nat) : TextIndex :=
  let idx := self.idxs i
  let child : ChildRef := { entry := (self.idxs childIdx).entry, idx := childIdx }
  if idx.children.any fun ref => ref.entry = child.entry then self
  else
    (self.setIdx i { idx with children := child :: idx.children, numChildren := idx.numChildren + 1 }).logged
      (.child i child)

/-- `total_locs` is counted up. -/
def countTotal (self : TextIndex) (i : Nat) : TextIndex :=
  self.setIdx i { self.idxs i with totalLocs := (self.idxs i).totalLocs + 1 }

end TextIndex

section Index

variable (ancestors children : Nat → List Nat)

/-- `knd_is_base`. -/
def isBase (base child : Nat) : Bool := (ancestors child).contains base

/-- The loop of `update_ancestor_idx` over the children of an ancestor. -/
def appendChildren (entry attr blueprint i termIdx : Nat) : List Nat → TextIndex → TextIndex
  | [], s => s
  | child :: rest, s =>
      if child = entry then s.appendChildIdx i termIdx   -- `break`
      else if isBase ancestors child entry then
        let (childIdx, s) := s.getClassIdx child attr blueprint
        appendChildren entry attr blueprint i termIdx rest (s.appendChildIdx i childIdx)
      else appendChildren entry attr blueprint i termIdx rest s

/-- `update_ancestor_idx`. -/
def updateAncestorIdx (entry attr blueprint termIdx base : Nat) (s : TextIndex) : TextIndex :=
  let (i, s) := s.getClassIdx base attr blueprint
  (appendChildren ancestors entry attr blueprint i termIdx (children base) s).countTotal i

/-- `index_class_declar`. -/
def indexClassDeclar (attr : Nat) (loc : TextLoc) (s : TextIndex) : TextIndex :=
  let (i, s) := s.indexClassInst loc.obj attr loc
  (ancestors loc.obj).foldl
    (fun s base => updateAncestorIdx ancestors children loc.obj attr loc.src.blueprint i base s) s

/-! ## (3) Texts -/

/-- `struct kndStatement`. -/
structure Statement where
  /-- The classes of `class_declars`. -/
  classDeclars : List Nat
  /-- What `index_proc_declar` returns for each of `proc_declars`. It writes to the entries of procs only. -/
  procDeclars : List (Except KndErr Unit) := []

/-- `struct kndSentence`. -/
structure Sentence where
  /-- `numid`. -/
  numid : Nat
  /-- `stm`. -/
  stm : Option Statement

/-- `struct kndPar`. -/
structure Par where
  /-- `numid`. -/
  numid : Nat
  /-- `sents`. -/
  sents : List Sentence

/-- `struct kndText` with its attribute variable. -/
structure Text where
  /-- `attr_var->attr`. -/
  attr : Nat
  /-- The instance of the variable. -/
  src : Source
  /-- `pars`. -/
  pars : List Par

/-- A program over the text index. -/
abbrev TextM := EStateM KndErr TextIndex

/-- A declaration of a statement. -/
inductive Declar where
  /-- A class, with its location. -/
  | cls (loc : TextLoc)
  /-- A proc. -/
  | proc (rc : Except KndErr Unit)

/-- `index_class_declar` or `index_proc_declar`. -/
def indexDeclar (attr : Nat) : Declar → TextM Unit
  | .cls loc => modify (indexClassDeclar ancestors children attr loc)
  | .proc (.error e) => throw e
  | .proc (.ok ()) => pure ()

/-- The declarations of a sentence. -/
def Sentence.declars (self : Sentence) (src : Source) (parId : Nat) : List Declar :=
  match self.stm with
  | none => []
  | some stm =>
      (stm.classDeclars.map fun c => .cls { src, parId, sentId := self.numid, obj := c }) ++ stm.procDeclars.map .proc

/-- The declarations of a text. -/
def Text.declars (self : Text) : List Declar :=
  self.pars.flatMap fun par => par.sents.flatMap fun sent => sent.declars self.src par.numid

/-- **`knd_text_index`**. -/
def kndTextIndex (text : Text) : TextM Unit :=
  text.pars.forM fun par =>
    par.sents.forM fun sent =>
      (sent.declars text.src par.numid).forM (indexDeclar ancestors children text.attr)

/-- A text is the list of its declarations. -/
theorem kndTextIndex_eq (text : Text) :
    kndTextIndex ancestors children text = text.declars.forM (indexDeclar ancestors children text.attr) := by
  rw [kndTextIndex, Text.declars, forM_flatMap]
  congr 1
  funext par
  exact (forM_flatMap _ _ _).symm

end Index

/-! ## (4) The contract -/

/-- The location that was registered for a class and a class of sources. -/
def locOf (c blueprint : Nat) : Registered → Option TextLoc
  | .loc c' loc => if c' = c ∧ loc.src.blueprint = blueprint then some loc else none
  | .ref _ _ | .child _ _ => none

/-- Was a location registered below a class? -/
def isBelow (ancestors : Nat → List Nat) (c blueprint : Nat) : Registered → Bool
  | .loc c' loc => decide (c ∈ ancestors c' ∧ loc.src.blueprint = blueprint)
  | .ref _ _ | .child _ _ => false

/-- **Nothing registered is lost**, and the counts are right. -/
structure Contract (ancestors : Nat → List Nat) (s : TextIndex) : Prop where
  /-- The references are linked. -/
  refs : ∀ c ref, .ref c ref ∈ s.log → ref ∈ s.textIdxs c
  /-- The child indices are linked. -/
  children : ∀ i child, .child i child ∈ s.log → child ∈ (s.idxs i).children
  /-- A location is reached from its class. -/
  reached : ∀ c loc, .loc c loc ∈ s.log →
    ∃ ref ∈ s.textIdxs c, ref.entry = loc.src.blueprint ∧ loc ∈ (s.idxs ref.idx).locs
  /-- It is counted at every ancestor. -/
  counted : ∀ c loc, .loc c loc ∈ s.log → ∀ a ∈ ancestors c, ∃ ref ∈ s.textIdxs a, ref.entry = loc.src.blueprint ∧
    (s.idxs ref.idx).totalLocs = s.log.countP (isBelow ancestors a loc.src.blueprint)
  /-- `num_locs` is the number of the locations that were registered. -/
  numLocs : ∀ c, ∀ ref ∈ s.textIdxs c, (s.idxs ref.idx).numLocs = (s.log.filterMap (locOf c ref.entry)).length

/-- **The reference for a class of sources is at the head**, if there is one. -/
def AtHead (refs : List TextRef) (blueprint : Nat) : Prop :=
  ∀ ref ∈ refs, ref.entry = blueprint → refs.head? = some ref

/-- **A declaration is registered without loss**: the class has room, no ancestor is listed twice, and at each
ancestor the reference for the class of sources is at the head. -/
def Fits (ancestors : Nat → List Nat) (s : TextIndex) : Declar → Prop
  | .cls loc => (∀ ref, s.refOf loc.obj loc.src.blueprint = some ref → (s.idxs ref.idx).numLocs < maxTextLocs) ∧
      (ancestors loc.obj).Nodup ∧ ∀ a ∈ ancestors loc.obj, AtHead (s.textIdxs a) loc.src.blueprint
  | .proc _ => True

/-- A text that is indexed, with the children of the classes at this time. -/
structure TextEvent where
  /-- `children` of the classes. -/
  children : Nat → List Nat
  /-- The text. -/
  text : Text

/-- One text. -/
def step (ancestors : Nat → List Nat) (s : TextIndex) (e : TextEvent) : TextIndex :=
  finalState (kndTextIndex ancestors e.children e.text) s

/-- **All declarations of a text are registered without loss.** -/
def AllFit (ancestors : Nat → List Nat) (s : TextIndex) (e : TextEvent) : Prop :=
  EachMeets (indexDeclar ancestors e.children e.text.attr) (Fits ancestors) s e.text.declars

/-! ## (5) Well-formed lists -/

/-- Every index is on one list, once; what was linked is there. -/
structure TextIndex.WF (s : TextIndex) : Prop where
  /-- The indices are allocated. -/
  bound : ∀ c, ∀ ref ∈ s.textIdxs c, ref.idx < s.nextIdx
  /-- A class has one reference for each class of sources. -/
  nodup : ∀ c, ((s.textIdxs c).map TextRef.entry).Nodup
  /-- An index belongs to one reference of one class. -/
  owner : ∀ c c', ∀ ref ∈ s.textIdxs c, ∀ ref' ∈ s.textIdxs c', ref.idx = ref'.idx → c = c' ∧ ref = ref'
  /-- The references that were linked. -/
  refs : ∀ c ref, .ref c ref ∈ s.log → ref ∈ s.textIdxs c
  /-- The children that were linked. -/
  children : ∀ i child, .child i child ∈ s.log → i < s.nextIdx ∧ child ∈ (s.idxs i).children

/-- The locations and the counts of an index. -/
def ClassIdx.counts (self : ClassIdx) : List TextLoc × Nat × Nat := (self.locs, self.numLocs, self.totalLocs)

/-- The locations and the counts of a class for a class of sources. -/
def TextIndex.countsOf (s : TextIndex) (c blueprint : Nat) : List TextLoc × Nat × Nat :=
  match s.refOf c blueprint with
  | some ref => (s.idxs ref.idx).counts
  | none => ([], 0, 0)

namespace TextIndex

variable {s : TextIndex}

theorem refOf_some {c blueprint : Nat} {ref : TextRef} (h : s.refOf c blueprint = some ref) :
    ref ∈ s.textIdxs c ∧ ref.entry = blueprint :=
  ⟨List.mem_of_find?_eq_some h, by simpa using List.find?_some h⟩

theorem refOf_none {c blueprint : Nat} (h : s.refOf c blueprint = none) {ref : TextRef} (href : ref ∈ s.textIdxs c) :
    ref.entry ≠ blueprint := by
  simpa using List.find?_eq_none.mp h ref href

/-- In a list without two references for one class of sources, each is found. -/
theorem find?_of_mem {refs : List TextRef} (hnodup : (refs.map TextRef.entry).Nodup) {ref : TextRef}
    (href : ref ∈ refs) : (refs.find? fun r => r.entry = ref.entry) = some ref := by
  induction refs with
  | nil => cases href
  | cons r refs ih =>
      rw [List.map_cons, List.nodup_cons] at hnodup
      rcases List.mem_cons.mp href with rfl | hmem
      · simp
      · have hne : r.entry ≠ ref.entry := fun heq => hnodup.1 (List.mem_map.mpr ⟨ref, hmem, heq.symm⟩)
        rw [List.find?_cons_of_neg (by simpa using hne)]
        exact ih hnodup.2 hmem

theorem WF.refOf_of_mem (h : s.WF) {c : Nat} {ref : TextRef} (href : ref ∈ s.textIdxs c) :
    s.refOf c ref.entry = some ref := find?_of_mem (h.nodup c) href

/-! A new reference -/

theorem textIdxs_newRef (s : TextIndex) (c attr blueprint c' : Nat) : (s.newRef c attr blueprint).textIdxs c'
    = if c' = c then ⟨blueprint, attr, s.nextIdx⟩ :: s.textIdxs c' else s.textIdxs c' := by
  by_cases hc : c' = c
  · subst hc
    exact (Function.update_self _ _ _).trans (if_pos rfl).symm
  · exact (Function.update_of_ne hc _ _).trans (if_neg hc).symm

theorem idxs_newRef (s : TextIndex) (c attr blueprint i : Nat) :
    (s.newRef c attr blueprint).idxs i = if i = s.nextIdx then { entry := c } else s.idxs i := by
  by_cases hi : i = s.nextIdx
  · subst hi
    exact (Function.update_self _ _ _).trans (if_pos rfl).symm
  · exact (Function.update_of_ne hi _ _).trans (if_neg hi).symm

theorem refOf_newRef (s : TextIndex) (c attr blueprint c' blueprint' : Nat) :
    (s.newRef c attr blueprint).refOf c' blueprint'
      = if c' = c ∧ blueprint' = blueprint then some ⟨blueprint, attr, s.nextIdx⟩ else s.refOf c' blueprint' := by
  rw [refOf, textIdxs_newRef]
  by_cases hc : c' = c
  · subst hc
    rw [if_pos rfl]
    by_cases hb : blueprint' = blueprint
    · simp [hb]
    · rw [List.find?_cons_of_neg (by simpa using Ne.symm hb), if_neg (by simp [hb])]
      rfl
  · rw [if_neg hc, if_neg (by simp [hc])]
    rfl

theorem mem_newRef {c attr blueprint c' : Nat} {ref : TextRef} (h : ref ∈ (s.newRef c attr blueprint).textIdxs c') :
    ref ∈ s.textIdxs c' ∨ (c' = c ∧ ref = ⟨blueprint, attr, s.nextIdx⟩) := by
  rw [textIdxs_newRef] at h
  by_cases hc : c' = c
  · rw [if_pos hc] at h
    exact (List.mem_cons.mp h).symm.imp_right fun heq => ⟨hc, heq⟩
  · rw [if_neg hc] at h
    exact .inl h

theorem mem_newRef_of_mem {c attr blueprint c' : Nat} {ref : TextRef} (h : ref ∈ s.textIdxs c') :
    ref ∈ (s.newRef c attr blueprint).textIdxs c' := by
  rw [textIdxs_newRef]
  split
  · exact List.mem_cons_of_mem _ h
  · exact h

/-- **A new reference** is linked without loss. -/
theorem WF.newRef (h : s.WF) {c attr blueprint : Nat} (hnone : s.refOf c blueprint = none) :
    (s.newRef c attr blueprint).WF := by
  refine ⟨fun c' ref href => ?_, fun c' => ?_, fun c₁ c₂ ref₁ href₁ ref₂ href₂ hidx => ?_, fun c' ref hlog => ?_,
    fun i child hlog => ?_⟩
  · rcases mem_newRef href with href | ⟨-, rfl⟩
    · exact Nat.lt_succ_of_lt (h.bound c' ref href)
    · exact Nat.lt_succ_self _
  · by_cases hc : c' = c
    · subst hc
      rw [textIdxs_newRef, if_pos rfl, List.map_cons, List.nodup_cons]
      refine ⟨fun hmem => ?_, h.nodup c'⟩
      obtain ⟨ref, href, heq⟩ := List.mem_map.mp hmem
      exact refOf_none hnone href heq
    · rw [textIdxs_newRef, if_neg hc]
      exact h.nodup c'
  · rcases mem_newRef href₁ with href₁ | ⟨hc₁, heq₁⟩
    · rcases mem_newRef href₂ with href₂ | ⟨-, rfl⟩
      · exact h.owner c₁ c₂ ref₁ href₁ ref₂ href₂ hidx
      · exact absurd hidx (h.bound c₁ ref₁ href₁).ne
    · rcases mem_newRef href₂ with href₂ | ⟨hc₂, heq₂⟩
      · subst heq₁
        exact absurd hidx (h.bound c₂ ref₂ href₂).ne'
      · exact ⟨hc₁.trans hc₂.symm, heq₁.trans heq₂.symm⟩
  · rcases List.mem_cons.mp hlog with heq | hlog
    · cases heq
      rw [textIdxs_newRef, if_pos rfl]
      exact List.mem_cons_self
    · exact mem_newRef_of_mem (h.refs c' ref hlog)
  · have hold := h.children i child ((List.mem_cons.mp hlog).resolve_left (by simp))
    refine ⟨Nat.lt_succ_of_lt hold.1, ?_⟩
    rw [idxs_newRef, if_neg hold.1.ne]
    exact hold.2

theorem WF.countsOf_newRef (h : s.WF) {c attr blueprint : Nat} (hnone : s.refOf c blueprint = none)
    (c' blueprint' : Nat) : (s.newRef c attr blueprint).countsOf c' blueprint' = s.countsOf c' blueprint' := by
  rw [countsOf, countsOf, refOf_newRef]
  by_cases hnew : c' = c ∧ blueprint' = blueprint
  · obtain ⟨rfl, rfl⟩ := hnew
    rw [if_pos ⟨rfl, rfl⟩, hnone]
    simp only [idxs_newRef, if_pos]
    rfl
  · rw [if_neg hnew]
    cases href : s.refOf c' blueprint' with
    | none => rfl
    | some ref =>
        have hlt := h.bound c' ref (refOf_some href).1
        simp only [idxs_newRef, if_neg hlt.ne]

/-! A change of an index -/

theorem idxs_setIdx (s : TextIndex) (i : Nat) (idx : ClassIdx) (j : Nat) :
    (s.setIdx i idx).idxs j = if j = i then idx else s.idxs j := by
  by_cases hj : j = i
  · subst hj
    exact (Function.update_self _ _ _).trans (if_pos rfl).symm
  · exact (Function.update_of_ne hj _ _).trans (if_neg hj).symm

theorem WF.setIdx (h : s.WF) {i : Nat} {idx : ClassIdx} (hsub : (s.idxs i).children ⊆ idx.children) :
    (s.setIdx i idx).WF := by
  refine ⟨h.bound, h.nodup, h.owner, h.refs, fun j child hlog => ⟨(h.children j child hlog).1, ?_⟩⟩
  rw [idxs_setIdx]
  by_cases hj : j = i
  · subst hj
    rw [if_pos rfl]
    exact hsub (h.children j child hlog).2
  · rw [if_neg hj]
    exact (h.children j child hlog).2

/-- A change that keeps the counts. -/
theorem countsOf_setIdx_of_eq {i : Nat} {idx : ClassIdx} (heq : idx.counts = (s.idxs i).counts) (c blueprint : Nat) :
    (s.setIdx i idx).countsOf c blueprint = s.countsOf c blueprint := by
  have href : (s.setIdx i idx).refOf c blueprint = s.refOf c blueprint := rfl
  rw [countsOf, countsOf, href]
  cases s.refOf c blueprint with
  | none => rfl
  | some ref =>
      by_cases hi : ref.idx = i
      · simp only [idxs_setIdx, hi, if_pos, heq]
      · simp only [idxs_setIdx, if_neg hi]

/-- **A change of the counts** concerns one class and one class of sources. -/
theorem WF.countsOf_setIdx (h : s.WF) {c blueprint : Nat} {ref : TextRef} (href : s.refOf c blueprint = some ref)
    (idx : ClassIdx) (c' blueprint' : Nat) : (s.setIdx ref.idx idx).countsOf c' blueprint'
      = if c' = c ∧ blueprint' = blueprint then idx.counts else s.countsOf c' blueprint' := by
  have hrefs : (s.setIdx ref.idx idx).refOf c' blueprint' = s.refOf c' blueprint' := rfl
  rw [countsOf, countsOf, hrefs]
  by_cases hsame : c' = c ∧ blueprint' = blueprint
  · obtain ⟨rfl, rfl⟩ := hsame
    rw [if_pos ⟨rfl, rfl⟩, href]
    simp only [idxs_setIdx, if_pos]
  · rw [if_neg hsame]
    cases href' : s.refOf c' blueprint' with
    | none => rfl
    | some ref' =>
        have hne : ref'.idx ≠ ref.idx := by
          intro hidx
          obtain ⟨hmem, hentry⟩ := refOf_some href
          obtain ⟨hmem', hentry'⟩ := refOf_some href'
          obtain ⟨hc, rfl⟩ := h.owner c' c ref' hmem' ref hmem hidx
          exact hsame ⟨hc, hentry'.symm.trans hentry⟩
        simp only [idxs_setIdx, if_neg hne]

end TextIndex


/-! ## (6) What an ancestor registers -/

/-- **Nothing is counted**: a change that only adds references and children for a class of sources. -/
structure Quiet (blueprint : Nat) (s s' : TextIndex) : Prop where
  /-- The lists stay well-formed. -/
  wf : s'.WF
  /-- The counts. -/
  counts : ∀ c b, s'.countsOf c b = s.countsOf c b
  /-- The locations of the log. -/
  locs : ∀ c b, s'.log.filterMap (locOf c b) = s.log.filterMap (locOf c b)
  /-- The locations below a class. -/
  below : ∀ ancestors c b, s'.log.countP (isBelow ancestors c b) = s.log.countP (isBelow ancestors c b)
  /-- The references that are found. -/
  refs : ∀ c b ref, s.refOf c b = some ref → s'.refOf c b = some ref
  /-- The heads of the lists. -/
  heads : ∀ c, AtHead (s.textIdxs c) blueprint → AtHead (s'.textIdxs c) blueprint

namespace Quiet

variable {ancestors : Nat → List Nat} {blueprint : Nat} {s s' s'' : TextIndex}

theorem refl (h : s.WF) : Quiet blueprint s s :=
  ⟨h, fun _ _ => rfl, fun _ _ => rfl, fun _ _ _ => rfl, fun _ _ _ href => href, fun _ hhead => hhead⟩

theorem trans (h : Quiet blueprint s s') (h' : Quiet blueprint s' s'') : Quiet blueprint s s'' where
  wf := h'.wf
  counts c b := (h'.counts c b).trans (h.counts c b)
  locs c b := (h'.locs c b).trans (h.locs c b)
  below ancestors c b := (h'.below ancestors c b).trans (h.below ancestors c b)
  refs c b ref href := h'.refs c b ref (h.refs c b ref href)
  heads c hhead := h'.heads c (h.heads c hhead)

/-- A new reference for the class of sources. -/
theorem newRef (h : s.WF) {c attr : Nat} (hnone : s.refOf c blueprint = none) :
    Quiet blueprint s (s.newRef c attr blueprint) where
  wf := h.newRef hnone
  counts := h.countsOf_newRef hnone
  locs _ _ := List.filterMap_cons_none rfl
  below _ _ _ := List.countP_cons_of_neg Bool.false_ne_true
  refs c' b ref href := by
    rw [TextIndex.refOf_newRef, if_neg]
    · exact href
    · rintro ⟨rfl, rfl⟩
      rw [hnone] at href
      cases href
  heads c' hhead := by
    intro ref href hentry
    rw [TextIndex.textIdxs_newRef] at href ⊢
    by_cases hc : c' = c
    · subst hc
      rw [if_pos rfl] at href ⊢
      rcases List.mem_cons.mp href with rfl | hmem
      · rfl
      · exact absurd hentry (TextIndex.refOf_none hnone hmem)
    · rw [if_neg hc] at href ⊢
      exact hhead ref href hentry

/-- One more child of an index. -/
theorem appendChildIdx (h : s.WF) {i : Nat} (hi : i < s.nextIdx) (childIdx : Nat) :
    Quiet blueprint s (s.appendChildIdx i childIdx) := by
  unfold TextIndex.appendChildIdx
  by_cases hany : (s.idxs i).children.any fun ref => ref.entry = (s.idxs childIdx).entry
  · simp only [hany, if_pos]
    exact refl h
  · simp only [hany, if_neg, Bool.false_eq_true, not_false_eq_true]
    generalize hchild : ChildRef.mk (s.idxs childIdx).entry childIdx = child
    generalize hidx : ({ s.idxs i with
      children := child :: (s.idxs i).children, numChildren := (s.idxs i).numChildren + 1 } : ClassIdx) = idx
    have hcounts : idx.counts = (s.idxs i).counts := by rw [← hidx]; rfl
    have hcons : idx.children = child :: (s.idxs i).children := by rw [← hidx]
    have hset : (s.setIdx i idx).WF := h.setIdx (by rw [hcons]; exact List.subset_cons_self _ _)
    refine ⟨⟨hset.bound, hset.nodup, hset.owner, fun c ref hlog => ?_, fun j child' hlog => ?_⟩,
      TextIndex.countsOf_setIdx_of_eq hcounts, fun _ _ => List.filterMap_cons_none rfl,
      fun _ _ _ => List.countP_cons_of_neg Bool.false_ne_true, fun _ _ _ href => href, fun _ hhead => hhead⟩
    · exact hset.refs c ref ((List.mem_cons.mp hlog).resolve_left (by simp))
    · rcases List.mem_cons.mp hlog with heq | hlog
      · cases heq
        refine ⟨hi, ?_⟩
        have hat : (s.setIdx i idx).idxs i = idx := (TextIndex.idxs_setIdx s i idx i).trans (if_pos rfl)
        show child ∈ ((s.setIdx i idx).idxs i).children
        rw [hat, hcons]
        exact List.mem_cons_self
      · exact hset.children j child' hlog

end Quiet

namespace TextIndex

/-- **The reference of a class at the head** is found where it is; the list stays as it is. -/
theorem getClassIdx_of_atHead {s : TextIndex} (attr : Nat) {c blueprint : Nat}
    (hhead : AtHead (s.textIdxs c) blueprint) :
    (∃ ref, s.refOf c blueprint = some ref ∧ s.getClassIdx c attr blueprint = (ref.idx, s)) ∨
      (s.refOf c blueprint = none ∧ s.getClassIdx c attr blueprint = (s.nextIdx, s.newRef c attr blueprint)) := by
  unfold getClassIdx refOf
  cases hrefs : s.textIdxs c with
  | nil => exact .inr ⟨rfl, rfl⟩
  | cons r refs =>
      by_cases hr : r.entry = blueprint
      · refine .inl ⟨r, List.find?_cons_of_pos (by simpa using hr), ?_⟩
        rw [List.dropWhile_cons_of_neg (by simpa using hr)]
        simp only [← hrefs, Function.update_eq_self]
      · have hnone : ∀ ref ∈ r :: refs, ref.entry ≠ blueprint := by
          intro ref href hentry
          have hr' := hhead ref (hrefs ▸ href) hentry
          rw [hrefs, List.head?_cons, Option.some.injEq] at hr'
          exact hr (hr' ▸ hentry)
        have hdrop : ((r :: refs).dropWhile fun ref => ref.entry ≠ blueprint) = [] := by
          rw [List.dropWhile_eq_nil_iff]
          intro ref href
          simpa using hnone ref href
        rw [hdrop]
        exact .inr ⟨List.find?_eq_none.mpr fun ref href => by simpa using hnone ref href, rfl⟩

/-- **`get_class_idx`** registers nothing but a new reference. -/
theorem quiet_getClassIdx {s : TextIndex} (h : s.WF) (attr : Nat) {c blueprint : Nat}
    (hhead : AtHead (s.textIdxs c) blueprint) :
    ∃ ref s', s.getClassIdx c attr blueprint = (ref.idx, s') ∧ Quiet blueprint s s' ∧
      s'.refOf c blueprint = some ref := by
  rcases getClassIdx_of_atHead attr hhead with ⟨ref, href, hget⟩ | ⟨hnone, hget⟩
  · exact ⟨ref, s, hget, .refl h, href⟩
  · exact ⟨⟨blueprint, attr, s.nextIdx⟩, s.newRef c attr blueprint, hget, .newRef h hnone,
      by rw [refOf_newRef, if_pos ⟨rfl, rfl⟩]⟩

end TextIndex

section Ancestors

variable {ancestors children : Nat → List Nat}

/-- The loop over the children of an ancestor counts nothing. -/
theorem quiet_appendChildren (attr termIdx : Nat) {entry blueprint i base : Nat} {ref : TextRef} (hidx : ref.idx = i)
    (l : List Nat) {s : TextIndex} (h : s.WF) (href : s.refOf base blueprint = some ref)
    (hheads : ∀ a ∈ ancestors entry, AtHead (s.textIdxs a) blueprint) :
    Quiet blueprint s (appendChildren ancestors entry attr blueprint i termIdx l s) := by
  have hlt : ∀ s' : TextIndex, s'.WF → s'.refOf base blueprint = some ref → i < s'.nextIdx := by
    intro s' h' href'
    exact hidx ▸ h'.bound base ref (TextIndex.refOf_some href').1
  induction l generalizing s with
  | nil => exact .refl h
  | cons child rest ih =>
      unfold appendChildren
      by_cases hchild : child = entry
      · rw [if_pos hchild]
        exact .appendChildIdx h (hlt s h href) termIdx
      · rw [if_neg hchild]
        by_cases hbase : isBase ancestors child entry
        · rw [if_pos hbase]
          have hmem : child ∈ ancestors entry := by simpa [isBase] using hbase
          obtain ⟨childRef, s₁, hget, hquiet₁, -⟩ := TextIndex.quiet_getClassIdx h attr (hheads child hmem)
          rw [hget]
          have href₁ := hquiet₁.refs base blueprint ref href
          have hquiet₂ : Quiet blueprint s₁ (s₁.appendChildIdx i childRef.idx) :=
            .appendChildIdx hquiet₁.wf (hlt s₁ hquiet₁.wf href₁) _
          have hquiet := hquiet₁.trans hquiet₂
          exact hquiet.trans (ih hquiet.wf (hquiet.refs base blueprint ref href)
            fun a ha => hquiet.heads a (hheads a ha))
        · rw [if_neg hbase]
          exact ih h href hheads

end Ancestors

/-! ## (7) A declaration -/

/-- **The counts are right** but for the ancestors that are still to be counted. -/
structure Inv (ancestors : Nat → List Nat) (blueprint : Nat) (pending : List Nat) (s : TextIndex) : Prop where
  /-- The lists are well-formed. -/
  wf : s.WF
  /-- The counts of each class for each class of sources. -/
  counts : ∀ c b, ∃ total, s.countsOf c b = (s.log.filterMap (locOf c b), (s.log.filterMap (locOf c b)).length, total) ∧
    total + (if b = blueprint then pending.count c else 0) = s.log.countP (isBelow ancestors c b)

namespace Inv

variable {ancestors children : Nat → List Nat} {blueprint : Nat} {pending : List Nat} {s s' : TextIndex}

/-- Nothing is counted. -/
theorem of_quiet (h : Inv ancestors blueprint pending s) (hquiet : Quiet blueprint s s') :
    Inv ancestors blueprint pending s' := by
  refine ⟨hquiet.wf, fun c b => ?_⟩
  obtain ⟨total, hcounts, htotal⟩ := h.counts c b
  refine ⟨total, ?_, ?_⟩
  · rw [hquiet.counts, hquiet.locs, hcounts]
  · rw [hquiet.below, htotal]

/-- With nothing to be counted the class of sources is any. -/
theorem of_nil (h : Inv ancestors blueprint [] s) (blueprint' : Nat) : Inv ancestors blueprint' [] s := by
  refine ⟨h.wf, fun c b => ?_⟩
  simpa using h.counts c b

/-- **A location is linked**: its class has it, and its ancestors are to be counted. -/
theorem addLoc {loc : TextLoc} {c : Nat} {ref : TextRef} (h : Inv ancestors loc.src.blueprint [] s)
    (href : s.refOf c loc.src.blueprint = some ref) (hroom : (s.idxs ref.idx).numLocs < maxTextLocs)
    (hnodup : (ancestors c).Nodup) :
    Inv ancestors loc.src.blueprint (ancestors c) ((s.addLoc ref.idx loc).logged (.loc c loc)) := by
  unfold TextIndex.addLoc
  simp only [hroom, if_pos]
  generalize hidx : ({ s.idxs ref.idx with
    locs := loc :: (s.idxs ref.idx).locs, numLocs := (s.idxs ref.idx).numLocs + 1 } : ClassIdx) = idx
  have hset : (s.setIdx ref.idx idx).WF := h.wf.setIdx (by rw [← hidx]; exact List.Subset.refl _)
  refine ⟨⟨hset.bound, hset.nodup, hset.owner, fun c' ref' hlog => ?_, fun i child hlog => ?_⟩, fun c' b => ?_⟩
  · exact hset.refs c' ref' ((List.mem_cons.mp hlog).resolve_left (by simp))
  · exact hset.children i child ((List.mem_cons.mp hlog).resolve_left (by simp))
  · obtain ⟨total, hcounts, htotal⟩ := h.counts c' b
    have hlogged : ((s.setIdx ref.idx idx).logged (.loc c loc)).countsOf c' b
        = (s.setIdx ref.idx idx).countsOf c' b := rfl
    refine ⟨total, ?_, ?_⟩
    · rw [hlogged, h.wf.countsOf_setIdx href]
      by_cases hsame : c' = c ∧ b = loc.src.blueprint
      · obtain ⟨rfl, rfl⟩ := hsame
        have hold : s.countsOf c' loc.src.blueprint = (s.idxs ref.idx).counts := by rw [TextIndex.countsOf, href]
        rw [hold] at hcounts
        have hlocs : (s.idxs ref.idx).locs = s.log.filterMap (locOf c' loc.src.blueprint) :=
          congrArg Prod.fst hcounts
        have hnum : (s.idxs ref.idx).numLocs = (s.log.filterMap (locOf c' loc.src.blueprint)).length :=
          congrArg (·.2.1) hcounts
        have htot : (s.idxs ref.idx).totalLocs = total := congrArg (·.2.2) hcounts
        have hnew : locOf c' loc.src.blueprint (.loc c' loc) = some loc := if_pos ⟨rfl, rfl⟩
        rw [if_pos ⟨rfl, rfl⟩, ← hidx, TextIndex.logged, List.filterMap_cons_some hnew]
        simp only [ClassIdx.counts, hlocs, hnum, htot, List.length_cons]
        rfl
      · have hold : locOf c' b (.loc c loc) = none :=
          if_neg fun heq => hsame ⟨heq.1.symm, heq.2.symm⟩
        rw [if_neg hsame, TextIndex.logged, List.filterMap_cons_none hold, hcounts]
        rfl
    · have hlog : ((s.setIdx ref.idx idx).logged (.loc c loc)).log = .loc c loc :: s.log := rfl
      rw [hlog, List.countP_cons, ← htotal]
      have hone : (ancestors c).count c' = if c' ∈ ancestors c then 1 else 0 := hnodup.count
      by_cases hb : b = loc.src.blueprint
      · subst hb
        by_cases hmem : c' ∈ ancestors c
        · simp [isBelow, hone, hmem]
        · simp [isBelow, hone, hmem]
      · simp [isBelow, hb, Ne.symm hb]

/-- **`update_ancestor_idx`** counts one ancestor. -/
theorem updateAncestorIdx (children : Nat → List Nat) (attr termIdx : Nat) {entry base : Nat}
    (h : Inv ancestors blueprint (base :: pending) s) (hbase : AtHead (s.textIdxs base) blueprint)
    (hheads : ∀ a ∈ ancestors entry, AtHead (s.textIdxs a) blueprint) :
    Inv ancestors blueprint pending (updateAncestorIdx ancestors children entry attr blueprint termIdx base s) ∧
      ∀ a, AtHead (s.textIdxs a) blueprint →
        AtHead ((TextIndexing.updateAncestorIdx ancestors children entry attr blueprint termIdx base s).textIdxs a)
          blueprint := by
  unfold TextIndexing.updateAncestorIdx
  obtain ⟨ref, s₁, hget, hquiet₁, href₁⟩ := TextIndex.quiet_getClassIdx h.wf attr hbase
  simp only [hget]
  have hquiet₂ := quiet_appendChildren attr termIdx rfl (children base) hquiet₁.wf href₁
    fun a ha => hquiet₁.heads a (hheads a ha)
  generalize appendChildren ancestors entry attr blueprint ref.idx termIdx (children base) s₁ = s₂ at hquiet₂ ⊢
  have href := hquiet₂.refs base blueprint ref href₁
  have hquiet := hquiet₁.trans hquiet₂
  have h₂ := h.of_quiet hquiet
  refine ⟨⟨h₂.wf.setIdx (List.Subset.refl _), fun c b => ?_⟩, fun a ha => hquiet.heads a ha⟩
  obtain ⟨total, hcounts, htotal⟩ := h₂.counts c b
  rw [TextIndex.countTotal, h₂.wf.countsOf_setIdx href]
  have hlog : (s₂.setIdx ref.idx { s₂.idxs ref.idx with totalLocs := (s₂.idxs ref.idx).totalLocs + 1 }).log = s₂.log :=
    rfl
  rw [hlog]
  by_cases hsame : c = base ∧ b = blueprint
  · obtain ⟨rfl, rfl⟩ := hsame
    have hold : s₂.countsOf c b = (s₂.idxs ref.idx).counts := by rw [TextIndex.countsOf, href]
    rw [hold] at hcounts
    refine ⟨total + 1, ?_, ?_⟩
    · have htot : (s₂.idxs ref.idx).totalLocs = total := congrArg (·.2.2) hcounts
      rw [if_pos ⟨rfl, rfl⟩, ← htot]
      have hlocs : (s₂.idxs ref.idx).locs = s₂.log.filterMap (locOf c b) := congrArg Prod.fst hcounts
      have hnum : (s₂.idxs ref.idx).numLocs = (s₂.log.filterMap (locOf c b)).length := congrArg (·.2.1) hcounts
      simp only [ClassIdx.counts, hlocs, hnum]
    · rw [← htotal]
      simp only [if_pos, List.count_cons_self]
      omega
  · refine ⟨total, by rw [if_neg hsame, hcounts], ?_⟩
    rw [← htotal]
    by_cases hb : b = blueprint
    · have hc : base ≠ c := fun hc => hsame ⟨hc.symm, hb⟩
      rw [if_pos hb, if_pos hb, List.count_cons_of_ne hc]
    · rw [if_neg hb, if_neg hb]

/-- **All ancestors** are counted one after the other. -/
theorem updateAncestors {entry attr termIdx : Nat} (bases : List Nat) (h : Inv ancestors blueprint bases s)
    (hsub : bases ⊆ ancestors entry) (hheads : ∀ a ∈ ancestors entry, AtHead (s.textIdxs a) blueprint) :
    Inv ancestors blueprint [] (bases.foldl
      (fun s base => TextIndexing.updateAncestorIdx ancestors children entry attr blueprint termIdx base s) s) := by
  induction bases generalizing s with
  | nil => exact h
  | cons base bases ih =>
      obtain ⟨hnext, hheads'⟩ := h.updateAncestorIdx children attr termIdx
        (hheads base (hsub List.mem_cons_self)) hheads
      exact ih hnext (fun a ha => hsub (List.mem_cons_of_mem _ ha)) fun a ha => hheads' a (hheads a ha)

/-- **`index_class_inst`** registers a location. -/
theorem indexClassInst (attr : Nat) {loc : TextLoc} (h : Inv ancestors loc.src.blueprint [] s)
    (hroom : ∀ ref, s.refOf loc.obj loc.src.blueprint = some ref → (s.idxs ref.idx).numLocs < maxTextLocs)
    (hnodup : (ancestors loc.obj).Nodup) :
    Inv ancestors loc.src.blueprint (ancestors loc.obj) (s.indexClassInst loc.obj attr loc).2 ∧
      ∀ a, AtHead (s.textIdxs a) loc.src.blueprint →
        AtHead ((s.indexClassInst loc.obj attr loc).2.textIdxs a) loc.src.blueprint := by
  have htextIdxs : ∀ (s' : TextIndex) (i : Nat), (s'.addLoc i loc).textIdxs = s'.textIdxs := by
    intro s' i
    unfold TextIndex.addLoc
    simp only
    split
    · rfl
    · rfl
  unfold TextIndex.indexClassInst
  cases href : s.refOf loc.obj loc.src.blueprint with
  | some ref =>
      refine ⟨h.addLoc href (hroom ref href) hnodup, fun a ha => ?_⟩
      show AtHead ((s.addLoc ref.idx loc).textIdxs a) _
      rwa [htextIdxs]
  | none =>
      have hquiet : Quiet loc.src.blueprint s (s.newRef loc.obj attr loc.src.blueprint) := .newRef h.wf href
      have hnew : (s.newRef loc.obj attr loc.src.blueprint).refOf loc.obj loc.src.blueprint
          = some ⟨loc.src.blueprint, attr, s.nextIdx⟩ := by rw [TextIndex.refOf_newRef, if_pos ⟨rfl, rfl⟩]
      refine ⟨(h.of_quiet hquiet).addLoc hnew ?_ hnodup, fun a ha => ?_⟩
      · rw [TextIndex.idxs_newRef, if_pos rfl]
        exact Nat.zero_lt_succ _
      · show AtHead (((s.newRef loc.obj attr loc.src.blueprint).addLoc s.nextIdx loc).textIdxs a) _
        rw [htextIdxs]
        exact hquiet.heads a ha

/-- **`index_class_declar`** registers a declaration without loss. -/
theorem indexClassDeclar {attr : Nat} {loc : TextLoc} (h : Inv ancestors blueprint [] s)
    (hfits : Fits ancestors s (.cls loc)) :
    Inv ancestors blueprint [] (indexClassDeclar ancestors children attr loc s) := by
  obtain ⟨hroom, hnodup, hheads⟩ := hfits
  obtain ⟨hinst, hkept⟩ := (h.of_nil loc.src.blueprint).indexClassInst attr hroom hnodup
  unfold TextIndexing.indexClassDeclar
  exact (hinst.updateAncestors (ancestors loc.obj) (List.Subset.refl _) fun a ha => hkept a (hheads a ha)).of_nil _

/-- **The contract** is what the invariant says when nothing is to be counted. -/
theorem contract (h : Inv ancestors blueprint [] s) : Contract ancestors s := by
  have hcounts : ∀ c b, s.countsOf c b = (s.log.filterMap (locOf c b), (s.log.filterMap (locOf c b)).length,
      s.log.countP (isBelow ancestors c b)) := by
    intro c b
    obtain ⟨total, hcounts, htotal⟩ := h.counts c b
    rw [hcounts, ← htotal]
    simp
  refine ⟨h.wf.refs, fun i child hlog => (h.wf.children i child hlog).2, fun c loc hlog => ?_,
    fun c loc hlog a ha => ?_, fun c ref href => ?_⟩
  · have hmem : loc ∈ s.log.filterMap (locOf c loc.src.blueprint) :=
      List.mem_filterMap.mpr ⟨_, hlog, if_pos ⟨rfl, rfl⟩⟩
    have hat := hcounts c loc.src.blueprint
    rw [TextIndex.countsOf] at hat
    cases href : s.refOf c loc.src.blueprint with
    | none =>
        simp only [href, Prod.mk.injEq] at hat
        rw [← hat.1] at hmem
        cases hmem
    | some ref =>
        simp only [href] at hat
        refine ⟨ref, (TextIndex.refOf_some href).1, (TextIndex.refOf_some href).2, ?_⟩
        have hlocs : (s.idxs ref.idx).locs = s.log.filterMap (locOf c loc.src.blueprint) := congrArg Prod.fst hat
        rwa [hlocs]
  · have hpos : 0 < s.log.countP (isBelow ancestors a loc.src.blueprint) :=
      List.countP_pos_iff.mpr ⟨_, hlog, by simp [isBelow, ha]⟩
    have hat := hcounts a loc.src.blueprint
    rw [TextIndex.countsOf] at hat
    cases href : s.refOf a loc.src.blueprint with
    | none =>
        simp only [href, Prod.mk.injEq] at hat
        rw [← hat.2.2] at hpos
        cases hpos
    | some ref =>
        simp only [href] at hat
        exact ⟨ref, (TextIndex.refOf_some href).1, (TextIndex.refOf_some href).2, congrArg (·.2.2) hat⟩
  · have hat := hcounts c ref.entry
    rw [TextIndex.countsOf, h.wf.refOf_of_mem href] at hat
    exact congrArg (·.2.1) hat

end Inv

/-! ## (8) Runs -/

section Runs

variable {ancestors : Nat → List Nat}

/-- The empty text index. -/
theorem inv_empty : Inv ancestors 0 [] {} := by
  refine ⟨⟨fun c ref href => ?_, fun c => List.nodup_nil, fun c c' ref href => ?_, fun c ref hlog => ?_,
    fun i child hlog => ?_⟩, fun c b => ⟨0, rfl, by simp⟩⟩
  · cases href
  · cases href
  · cases hlog
  · cases hlog

/-- **One text** keeps the invariant. -/
theorem inv_step {s : TextIndex} {e : TextEvent} (hfits : AllFit ancestors s e) (h : Inv ancestors 0 [] s) :
    Inv ancestors 0 [] (step ancestors s e) := by
  unfold step
  rw [kndTextIndex_eq]
  refine Yields.iff_finalState.mp (forM_yields (fun s' declar hs' hdeclar => ?_) h hfits)
  cases declar with
  | cls loc => exact Yields.returning rfl (hs'.indexClassDeclar hdeclar)
  | proc rc =>
      cases rc with
      | error e => exact Yields.intro (fun a s₁ hrun => by cases hrun) fun e s₁ hrun => by cases hrun; exact hs'
      | ok _ => exact Yields.returning rfl hs'

/-- **The text index loses nothing** in any run of texts whose declarations find the references of their class of
sources at the heads of the lists, room in the index of the class, and no ancestor listed twice. -/
theorem contract_of_fits {s : TextIndex} (hrun : Reaches (step ancestors) (AllFit ancestors) {} s) :
    Contract ancestors s :=
  (hrun.invariant inv_empty fun _ _ h hfits => inv_step hfits h).contract

/-- **A reference that is not at the head loses those before it**: they were linked, and are not reached any more. -/
theorem not_refs_of_not_atHead {s : TextIndex} {c attr blueprint : Nat} (h : s.WF)
    (hhead : ¬AtHead (s.textIdxs c) blueprint) :
    ∃ ref ∈ s.textIdxs c, ref ∉ (s.getClassIdx c attr blueprint).2.textIdxs c := by
  have hnodup := (h.nodup c).of_map
  unfold AtHead at hhead
  push Not at hhead
  obtain ⟨found, hfound, hentry, hne⟩ := hhead
  unfold TextIndex.getClassIdx
  cases hrefs : s.textIdxs c with
  | nil =>
      rw [hrefs] at hfound
      cases hfound
  | cons r refs =>
      rw [hrefs] at hfound hne hnodup
      have hr : r ≠ found := by simpa using hne
      have hmem : found ∈ refs := (List.mem_cons.mp hfound).resolve_left hr.symm
      have hr' : r.entry ≠ blueprint := by
        intro heq
        have hkeys := h.nodup c
        rw [hrefs, List.map_cons, List.nodup_cons] at hkeys
        exact hkeys.1 (List.mem_map.mpr ⟨found, hmem, hentry.trans heq.symm⟩)
      refine ⟨r, List.mem_cons_self, ?_⟩
      rw [List.dropWhile_cons_of_pos (by simpa using hr')]
      cases hdrop : refs.dropWhile fun ref => ref.entry ≠ blueprint with
      | nil =>
          rw [List.dropWhile_eq_nil_iff] at hdrop
          exact absurd hentry (by simpa using hdrop found hmem)
      | cons ref rest =>
          have hat : Function.update s.textIdxs c (ref :: rest) c = ref :: rest := Function.update_self _ _ _
          show r ∉ Function.update s.textIdxs c (ref :: rest) c
          rw [hat, ← hdrop]
          exact fun hr => (List.nodup_cons.mp hnodup).1 ((List.dropWhile_sublist _).subset hr)

end Runs

/-- A text of one sentence that declares the class 2. -/
def oneDeclar (inst blueprint : Nat) : TextEvent where
  children c := if c = 1 then [2] else []
  text := { attr := 0, src := ⟨inst, blueprint⟩, pars := [⟨1, [⟨1, some { classDeclars := [2] }⟩]⟩] }

/-- The class 1 is the only ancestor of the class 2. -/
def oneAncestor (c : Nat) : List Nat := if c = 2 then [1] else []

/-- Two instances of one class are registered. -/
theorem contract_of_fits_two :
    Contract oneAncestor ([oneDeclar 10 100, oneDeclar 11 100].foldl (step oneAncestor) {}) := by
  refine contract_of_fits (Reaches.refl.foldl ⟨⟨⟨fun ref href => ?_, by decide, fun a ha ref href => ?_⟩, trivial⟩,
    ⟨⟨fun ref href => ?_, by decide, fun a ha ref href => ?_⟩, trivial⟩, trivial⟩)
  · cases href
  · cases href
  · obtain rfl := Option.some.inj href
    decide +kernel
  · obtain rfl := List.mem_singleton.mp ha
    obtain rfl := List.mem_singleton.mp href
    exact fun _ => rfl

/-- **The third text drops what the second one has registered** for another class of sources. -/
theorem not_contract_three :
    ¬Contract oneAncestor ([oneDeclar 10 100, oneDeclar 11 101, oneDeclar 12 100].foldl (step oneAncestor) {}) := by
  intro h
  have hlog : Registered.ref 1 ⟨101, 0, 3⟩
      ∈ ([oneDeclar 10 100, oneDeclar 11 101, oneDeclar 12 100].foldl (step oneAncestor) {}).log := by
    decide +kernel
  exact absurd (h.refs 1 _ hlog) (by decide +kernel)
end TextIndexing

end Knowdy
