import Knowdy.AttrResolve
import Knowdy.Lib.Overriding

/-! # How attributes are merged

What `knd_class_resolve` leaves in the references of a class, in every memory that resolutions pass through, failed
ones included.

* `Grows` — the classes in progress are left alone by the resolution of others; `Busy` — while a class is resolved.
* `Numbered` — the numbers and names of attributes; `Done` — a resolved class; `Inv` — the invariant.
* `Merged` — the references of a class while it is resolved, and what each step of the code does with them.
* `resolveOnce_yields` — a class is resolved; `inv_of_resolutions` — **the invariant holds in every run**. -/

namespace Knowdy.AttrResolve

open Relation Overriding

variable {G : Schema}

/-! ## (1) What is left alone -/

namespace Mem

variable (s : Mem) (c : ClassAddr)

/-- The class is in progress or resolved. -/
def Started : Prop := (s.cells c).resolvingInProgress = true

/-- The class is resolved. -/
def Resolved : Prop := (s.cells c).isResolved = true

instance : Decidable (s.Resolved c) := inferInstanceAs (Decidable ((s.cells c).isResolved = true))

/-- The value of the reference to an attribute. -/
def attrVarOf (a : AttrAddr) : ClassAddr → Option VarAddr := fun b => (s.cells b).attrVar a

/-- The last of some values that is bound to an attribute. -/
def boundVar (a : AttrAddr) (vars : List VarAddr) : Option VarAddr :=
  vars.reverse.find? fun v => decide (s.varAttr v = some a)

/-- A declaration, as far as an attribute is concerned. -/
def decl (a : AttrAddr) (cvar : ClassVar) : Decl ClassAddr VarAddr := ⟨cvar.entry, s.boundVar a cvar.attrs⟩

/-- The declarations of a class, as far as an attribute is concerned. -/
def decls (G : Schema) (a : AttrAddr) : List (Decl ClassAddr VarAddr) := (G.baseclassVars c).map (s.decl a)

variable {s c}

@[simp] theorem cells_modifyCell_self (f : ClassCell → ClassCell) : (s.modifyCell c f).cells c = f (s.cells c) :=
  Function.update_self ..

theorem cells_modifyCell_of_ne {d : ClassAddr} (h : d ≠ c) (f : ClassCell → ClassCell) :
    (s.modifyCell c f).cells d = s.cells d := Function.update_of_ne h ..

theorem cells_bindVar_of_ne {d : ClassAddr} (h : d ≠ c) (a : AttrAddr) (v : VarAddr) :
    (s.bindVar c a v).cells d = s.cells d := Function.update_of_ne h ..

@[simp] theorem cells_setInProgress_self :
    (s.setInProgress c).cells c = { s.cells c with resolvingInProgress := true } := Function.update_self ..

theorem cells_setInProgress_of_ne {d : ClassAddr} (h : d ≠ c) : (s.setInProgress c).cells d = s.cells d :=
  Function.update_of_ne h ..

@[simp] theorem cells_setResolved_self :
    (s.setResolved c).cells c = { s.cells c with isResolved := true, numid := s.classIdCount + 1 } :=
  Function.update_self ..

theorem cells_setResolved_of_ne {d : ClassAddr} (h : d ≠ c) : (s.setResolved c).cells d = s.cells d :=
  Function.update_of_ne h ..

@[simp] theorem attrNumid_numberAttr_self (a : AttrAddr) : (s.numberAttr a).attrNumid a = s.attrIdCount + 1 :=
  Function.update_self ..

theorem attrNumid_numberAttr_of_ne {a b : AttrAddr} (h : b ≠ a) : (s.numberAttr a).attrNumid b = s.attrNumid b :=
  Function.update_of_ne h ..

theorem mem_attrNameIdx_nameAttr {name name' : Name} {a b : AttrAddr} :
    b ∈ (s.nameAttr name a).attrNameIdx name' ↔ (name' = name ∧ b = a) ∨ b ∈ s.attrNameIdx name' := by
  show b ∈ Function.update s.attrNameIdx name (a :: s.attrNameIdx name) name' ↔ _
  by_cases hname : name' = name
  · rw [hname, Function.update_self, List.mem_cons]
    simp
  · rw [Function.update_of_ne hname]
    simp [hname]

theorem modifyCell_modifyCell (f g : ClassCell → ClassCell) :
    (s.modifyCell c f).modifyCell c g = s.modifyCell c (g ∘ f) := by
  simp [modifyCell]

theorem boundVar_concat (a : AttrAddr) (vars : List VarAddr) (v : VarAddr) :
    s.boundVar a (vars ++ [v]) = if s.varAttr v = some a then some v else s.boundVar a vars := by
  rw [boundVar, List.reverse_append, List.reverse_singleton, List.singleton_append]
  by_cases hv : s.varAttr v = some a
  · rw [List.find?_cons_of_pos (by simpa using hv), if_pos hv]
  · rw [List.find?_cons_of_neg (by simpa using hv), if_neg hv]
    rfl

theorem boundVar_congr {s' : Mem} {a : AttrAddr} {vars : List VarAddr} (h : ∀ v ∈ vars, s'.varAttr v = s.varAttr v) :
    s'.boundVar a vars = s.boundVar a vars := by
  induction vars using List.reverseRecOn with
  | nil => rfl
  | append_singleton vars v ih =>
      rw [boundVar_concat, boundVar_concat, h v (List.mem_append_right _ (List.mem_singleton_self v)),
        ih fun w hw => h w (List.mem_append_left _ hw)]

theorem decl_congr {s' : Mem} {a : AttrAddr} {cvar : ClassVar} (h : ∀ v ∈ cvar.attrs, s'.varAttr v = s.varAttr v) :
    s'.decl a cvar = s.decl a cvar := by
  rw [decl, decl, boundVar_congr h]

end Mem

/-- **Classes in progress are left alone**, those of a kind: their references and the bindings of their values.
Attributes keep their numbers. -/
structure Grows (G : Schema) (p : ClassAddr → Prop) (s s' : Mem) : Prop where
  /-- The classes of the kind. -/
  cells : ∀ c, p c → s.Started c → s'.cells c = s.cells c
  /-- Their values. -/
  vars : ∀ v, p (G.varParent v) → s.Started (G.varParent v) → s'.varAttr v = s.varAttr v
  /-- Classes stay in progress. -/
  started : ∀ c, s.Started c → s'.Started c
  /-- Numbers of attributes. -/
  numid : ∀ a, s.attrNumid a ≠ 0 → s'.attrNumid a = s.attrNumid a

namespace Grows

variable {p q : ClassAddr → Prop} {s s' s'' : Mem}

theorem refl (s : Mem) : Grows G p s s := ⟨fun _ _ _ => rfl, fun _ _ _ => rfl, fun _ h => h, fun _ _ => rfl⟩

theorem trans (h : Grows G p s s') (h' : Grows G p s' s'') : Grows G p s s'' where
  cells c hp hc := (h'.cells c hp (h.started c hc)).trans (h.cells c hp hc)
  vars v hp hv := (h'.vars v hp (h.started _ hv)).trans (h.vars v hp hv)
  started c hc := h'.started c (h.started c hc)
  numid a ha := by
    have hnum := h.numid a ha
    exact (h'.numid a (hnum ▸ ha)).trans hnum

/-- What is left alone from the start of a class on is left alone. -/
theorem of_start (h : Grows G (fun _ => True) s s') {c : ClassAddr} (hc : ¬s.Started c)
    (h' : Grows G (· ≠ c) s' s'') : Grows G (fun _ => True) s s'' where
  cells d _ hd := (h'.cells d (fun heq => hc (heq ▸ hd)) (h.started d hd)).trans (h.cells d trivial hd)
  vars v _ hv := (h'.vars v (fun heq => hc (heq ▸ hv)) (h.started _ hv)).trans (h.vars v trivial hv)
  started d hd := h'.started d (h.started d hd)
  numid a ha := by
    have hnum := h.numid a ha
    exact (h'.numid a (hnum ▸ ha)).trans hnum

theorem mono (h : Grows G p s s') (hq : ∀ c, q c → p c) : Grows G q s s' :=
  ⟨fun c hc => h.cells c (hq c hc), fun v hv => h.vars v (hq _ hv), h.started, h.numid⟩

end Grows

/-- Only the cell of a class differs. -/
def OnlyCell (c : ClassAddr) (s s' : Mem) : Prop := ∃ f, s' = s.modifyCell c f

namespace OnlyCell

variable {c : ClassAddr} {s s' s'' : Mem}

theorem refl (c : ClassAddr) (s : Mem) : OnlyCell c s s :=
  ⟨id, by simp [Mem.modifyCell]⟩

theorem trans (h : OnlyCell c s s') (h' : OnlyCell c s' s'') : OnlyCell c s s'' := by
  obtain ⟨f, rfl⟩ := h
  obtain ⟨g, rfl⟩ := h'
  exact ⟨g ∘ f, Mem.modifyCell_modifyCell f g⟩

theorem cells (h : OnlyCell c s s') {d : ClassAddr} (hd : d ≠ c) : s'.cells d = s.cells d := by
  obtain ⟨f, rfl⟩ := h
  exact Mem.cells_modifyCell_of_ne hd f

theorem varAttr (h : OnlyCell c s s') : s'.varAttr = s.varAttr := by
  obtain ⟨f, rfl⟩ := h
  rfl

theorem attrNumid (h : OnlyCell c s s') : s'.attrNumid = s.attrNumid := by
  obtain ⟨f, rfl⟩ := h
  rfl

end OnlyCell

/-! ## (2) The invariant -/

/-- **The numbers and names of attributes.** -/
structure Numbered (G : Schema) (s : Mem) : Prop where
  /-- Numbers are counted. -/
  numid_le : ∀ a, s.attrNumid a ≤ s.attrIdCount
  /-- They are given once. -/
  numid_inj : ∀ a b, s.attrNumid a ≠ 0 → s.attrNumid a = s.attrNumid b → a = b
  /-- A numbered attribute is declared by a class that was started. -/
  started : ∀ a, s.attrNumid a ≠ 0 → s.Started (G.parentClass a)
  /-- The index by names holds numbered attributes. -/
  numbered : ∀ name, ∀ a ∈ s.attrNameIdx name, s.attrNumid a ≠ 0
  /-- It holds those of the classes that are loaded. -/
  named : ∀ a, s.attrNumid a ≠ 0 → G.loaded (G.parentClass a) = true → a ∈ s.attrNameIdx (G.attrName a)

/-- **A resolved class.** -/
structure Done (G : Schema) (s : Mem) (c : ClassAddr) : Prop where
  /-- Its references are to the attributes in its scope. -/
  idx : (s.cells c).attrIdx.Holds s.attrNumid (G.InScope c)
  /-- These are numbered. -/
  numbered : ∀ a, G.InScope c a → s.attrNumid a ≠ 0
  /-- Its bases were resolved before it. -/
  bases : ∀ cvar ∈ G.baseclassVars c, s.Resolved cvar.entry ∧ (s.cells cvar.entry).numid < (s.cells c).numid
  /-- Its values are those that the declarations leave. -/
  vals : ∀ a, (s.cells c).attrVar a = overriding (s.attrVarOf a) (s.decls c G a)
  /-- Only attributes in its scope have values. -/
  held : ∀ a, ¬G.InScope c a → (s.cells c).attrVar a = none
  /-- Its values are bound to attributes of their names. -/
  bound : ∀ cvar ∈ G.baseclassVars c, ∀ v ∈ cvar.attrs,
    ∃ a, G.InScope c a ∧ s.varAttr v = some a ∧ G.attrName a = G.varName v
  /-- The attributes that a loaded class declares have different names. -/
  names : G.loaded c = true → ((G.attrs c).map G.attrName).Nodup

/-- **The invariant of resolution.** -/
structure Inv (G : Schema) (s : Mem) : Prop where
  /-- Attributes. -/
  attrs : Numbered G s
  /-- A class that was not started has no references. -/
  fresh : ∀ c, ¬s.Started c → (s.cells c).attrIdx = {} ∧ (s.cells c).attrVar = fun _ => none
  /-- A resolved class was started. -/
  started : ∀ c, s.Resolved c → s.Started c
  /-- Numbers of classes are counted. -/
  class_le : ∀ c, (s.cells c).numid ≤ s.classIdCount
  /-- Resolved classes. -/
  done : ∀ c, s.Resolved c → Done G s c

theorem inv_initial (G : Schema) : Inv G .initial where
  attrs :=
    { numid_le := fun _ => Nat.le_refl 0
      numid_inj := fun _ _ h => absurd rfl h
      started := fun _ h => absurd rfl h
      numbered := fun _ _ h => absurd h List.not_mem_nil
      named := fun _ h => absurd rfl h }
  fresh := fun _ _ => ⟨rfl, rfl⟩
  started := fun _ h => by cases h
  class_le := fun _ => Nat.le_refl 0
  done := fun _ h => by cases h

section Keep

variable {p : ClassAddr → Prop} {s s' : Mem} {c : ClassAddr}

/-- A resolved class stays as it is. -/
theorem Grows.resolved (hg : Grows G p s s') (h : Inv G s) (hp : p c) (hc : s.Resolved c) : s'.Resolved c := by
  rw [Mem.Resolved, hg.cells c hp (h.started c hc)]
  exact hc

theorem Done.grows (hd : Done G s c) (h : Inv G s) (hc : s.Resolved c) (hg : Grows G p s s')
    (hp : ∀ d, s.Resolved d → p d) : Done G s' c := by
  have hcell : ∀ d, s.Resolved d → s'.cells d = s.cells d := fun d hd => hg.cells d (hp d hd) (h.started d hd)
  have hvars : ∀ cvar ∈ G.baseclassVars c, ∀ v ∈ cvar.attrs, s'.varAttr v = s.varAttr v := by
    intro cvar hcvar v hv
    have hparent := G.varParent_eq c cvar hcvar v hv
    exact hg.vars v (hparent ▸ hp c hc) (hparent ▸ h.started c hc)
  refine ⟨?_, fun a ha => ?_, fun cvar hcvar => ?_, fun a => ?_, fun a ha => ?_, fun cvar hcvar v hv => ?_, hd.names⟩
  · rw [hcell c hc]
    exact hd.idx.congr_num fun a ha => hg.numid a (hd.numbered a ha)
  · rw [hg.numid a (hd.numbered a ha)]
    exact hd.numbered a ha
  · obtain ⟨hres, hlt⟩ := hd.bases cvar hcvar
    rw [Mem.Resolved, hcell _ hres, hcell c hc]
    exact ⟨hres, hlt⟩
  · have hdecls : s'.decls c G a = s.decls c G a :=
      List.map_congr_left fun cvar hcvar => Mem.decl_congr (hvars cvar hcvar)
    rw [hcell c hc, hd.vals a, hdecls]
    refine (overriding_congr fun d hd' => ?_).symm
    obtain ⟨cvar, hcvar, rfl⟩ := List.mem_map.mp hd'
    exact congrArg (ClassCell.attrVar · a) (hcell _ (hd.bases cvar hcvar).1)
  · rw [hcell c hc]
    exact hd.held a ha
  · obtain ⟨a, ha, hbound, hname⟩ := hd.bound cvar hcvar v hv
    exact ⟨a, ha, (hvars cvar hcvar v hv).trans hbound, hname⟩

/-- **While a class is resolved**, from the memory `s₀` on: the others are left alone. -/
structure Busy (G : Schema) (s₀ : Mem) (c : ClassAddr) (s : Mem) : Prop where
  /-- The invariant holds. -/
  inv : Inv G s
  /-- The others are left alone. -/
  grows : Grows G (· ≠ c) s₀ s
  /-- The class is in progress. -/
  started : s.Started c
  /-- It is not resolved yet. -/
  notResolved : ¬s.Resolved c

/-- **The invariant after a write** to a class that was not resolved: what is to be shown is about that class. -/
theorem Inv.update (h : Inv G s) (hc : ¬s.Resolved c) (hattrs : Numbered G s')
    (hcell : ∀ d, d ≠ c → s'.cells d = s.cells d) (hgrows : Grows G (· ≠ c) s s') (hstart : s'.Started c)
    (hcount : s.classIdCount ≤ s'.classIdCount) (hle : (s'.cells c).numid ≤ s'.classIdCount)
    (hdone : s'.Resolved c → Done G s' c) : Inv G s' where
  attrs := hattrs
  fresh d hd := by
    have hdc : d ≠ c := fun heq => hd (heq ▸ hstart)
    rw [Mem.Started, hcell d hdc] at hd
    rw [hcell d hdc]
    exact h.fresh d hd
  started d hd := by
    by_cases hdc : d = c
    · exact hdc ▸ hstart
    · rw [Mem.Resolved, hcell d hdc] at hd
      exact hgrows.started d (h.started d hd)
  class_le d := by
    by_cases hdc : d = c
    · exact hdc ▸ hle
    · rw [hcell d hdc]
      exact (h.class_le d).trans hcount
  done d hd := by
    by_cases hdc : d = c
    · subst hdc
      exact hdone hd
    · rw [Mem.Resolved, hcell d hdc] at hd
      exact (h.done d hd).grows h hd hgrows fun e he hec => hc (hec ▸ he)

/-- A write to a class while it is resolved, which keeps its flags and its number. -/
theorem Busy.update {s₀ : Mem} (h : Busy G s₀ c s) (hattrs : Numbered G s')
    (hcell : ∀ d, d ≠ c → s'.cells d = s.cells d) (hgrows : Grows G (· ≠ c) s s')
    (hcount : s'.classIdCount = s.classIdCount)
    (hflags : (s'.cells c).isResolved = (s.cells c).isResolved ∧ (s'.cells c).numid = (s.cells c).numid) :
    Busy G s₀ c s' := by
  have hstart := hgrows.started c h.started
  have hnot : ¬s'.Resolved c := by
    rw [Mem.Resolved, hflags.1]
    exact h.notResolved
  refine ⟨h.inv.update h.notResolved hattrs hcell hgrows hstart hcount.ge ?_ fun hres => absurd hres hnot,
    h.grows.trans hgrows, hstart, hnot⟩
  rw [hflags.2, hcount]
  exact h.inv.class_le c

/-- A write to the cell of the class. -/
theorem Busy.modifyCell {s₀ : Mem} (h : Busy G s₀ c s) {f : ClassCell → ClassCell}
    (hf : ∀ cell, (f cell).resolvingInProgress = cell.resolvingInProgress ∧ (f cell).isResolved = cell.isResolved ∧
      (f cell).numid = cell.numid) : Busy G s₀ c (s.modifyCell c f) := by
  have hcell : ∀ d, d ≠ c → (s.modifyCell c f).cells d = s.cells d := fun d hd => Mem.cells_modifyCell_of_ne hd f
  have hstarted : ∀ d, s.Started d → (s.modifyCell c f).Started d := by
    intro d hd
    by_cases hdc : d = c
    · rw [hdc, Mem.Started, Mem.cells_modifyCell_self, (hf _).1]
      exact h.started
    · rw [Mem.Started, hcell d hdc]
      exact hd
  have hattrs : Numbered G (s.modifyCell c f) :=
    ⟨h.inv.attrs.numid_le, h.inv.attrs.numid_inj, fun a ha => hstarted _ (h.inv.attrs.started a ha),
      h.inv.attrs.numbered, h.inv.attrs.named⟩
  refine h.update hattrs hcell ⟨fun d hd _ => hcell d hd, fun _ _ _ => rfl, hstarted, fun _ _ => rfl⟩ rfl ?_
  rw [Mem.cells_modifyCell_self]
  exact (hf _).2

/-- A value of the class is bound. -/
theorem Busy.bindVar {s₀ : Mem} (h : Busy G s₀ c s) (a : AttrAddr) {v : VarAddr} (hv : G.varParent v = c) :
    Busy G s₀ c (s.bindVar c a v) := by
  have hset : Busy G s₀ c (s.setAttrVar c a (some v)) := h.modifyCell fun _ => ⟨rfl, rfl, rfl⟩
  have hvars : ∀ w, G.varParent w ≠ c → (s.bindVar c a v).varAttr w = s.varAttr w := by
    intro w hw
    refine Function.update_of_ne (fun heq => hw ?_) ..
    rw [heq, hv]
  have hattrs : Numbered G (s.bindVar c a v) :=
    ⟨hset.inv.attrs.numid_le, hset.inv.attrs.numid_inj, hset.inv.attrs.started, hset.inv.attrs.numbered,
      hset.inv.attrs.named⟩
  exact hset.update hattrs (fun _ _ => rfl) ⟨fun _ _ _ => rfl, fun w hw _ => hvars w hw, fun _ hd => hd, fun _ _ => rfl⟩
    rfl ⟨rfl, rfl⟩

/-- Other classes are resolved in between. -/
theorem Busy.nested {s₀ : Mem} (h : Busy G s₀ c s) (hinv : Inv G s') (hg : Grows G (fun _ => True) s s') :
    Busy G s₀ c s' := by
  have hcell := hg.cells c trivial h.started
  refine ⟨hinv, h.grows.trans (hg.mono fun _ _ => trivial), hg.started c h.started, ?_⟩
  rw [Mem.Resolved, hcell]
  exact h.notResolved

/-- The resolved bases of a class that is being resolved are others. -/
theorem Busy.ne_of_resolved {s₀ : Mem} (h : Busy G s₀ c s) {b : ClassAddr} (hb : s.Resolved b) : b ≠ c := by
  rintro rfl
  exact h.notResolved hb

/-- An attribute gets the next number, and is entered under its name. -/
theorem Numbered.registered (h : Numbered G s) {a : AttrAddr} (hstart : s.Started (G.parentClass a))
    {names : Name → List AttrAddr}
    (hnames : ∀ name, s.attrNameIdx name ⊆ names name)
    (hnew : ∀ name, ∀ b ∈ names name, b = a ∨ b ∈ s.attrNameIdx name)
    (hnamed : G.loaded (G.parentClass a) = true → a ∈ names (G.attrName a)) :
    Numbered G { s.numberAttr a with attrNameIdx := names } := by
  have hself : (s.numberAttr a).attrNumid a = s.attrIdCount + 1 := Mem.attrNumid_numberAttr_self a
  have hother : ∀ {b}, b ≠ a → (s.numberAttr a).attrNumid b = s.attrNumid b := Mem.attrNumid_numberAttr_of_ne
  refine ⟨fun b => ?_, fun b b' hb heq => ?_, fun b hb => ?_, fun name b hb => ?_, fun b hb hloaded => ?_⟩
  · show (s.numberAttr a).attrNumid b ≤ s.attrIdCount + 1
    by_cases hba : b = a
    · rw [hba, hself]
    · rw [hother hba]
      exact Nat.le_succ_of_le (h.numid_le b)
  · -- the new number is above all that were given
    change (s.numberAttr a).attrNumid b ≠ 0 at hb
    change (s.numberAttr a).attrNumid b = (s.numberAttr a).attrNumid b' at heq
    by_cases hba : b = a
    · by_cases hba' : b' = a
      · rw [hba, hba']
      · rw [hba, hself, hother hba'] at heq
        have hle := h.numid_le b'
        omega
    · by_cases hba' : b' = a
      · rw [hba', hself, hother hba] at heq
        have hle := h.numid_le b
        omega
      · rw [hother hba] at hb heq
        rw [hother hba'] at heq
        exact h.numid_inj b b' hb heq
  · change (s.numberAttr a).attrNumid b ≠ 0 at hb
    by_cases hba : b = a
    · rw [hba]
      exact hstart
    · rw [hother hba] at hb
      exact h.started b hb
  · show (s.numberAttr a).attrNumid b ≠ 0
    by_cases hba : b = a
    · rw [hba, hself]
      exact Nat.succ_ne_zero _
    · rw [hother hba]
      exact h.numbered name b ((hnew name b hb).resolve_left hba)
  · change (s.numberAttr a).attrNumid b ≠ 0 at hb
    by_cases hba : b = a
    · rw [hba] at hloaded ⊢
      exact hnamed hloaded
    · rw [hother hba] at hb
      exact hnames _ (h.named b hb hloaded)

/-- **An attribute of the class is registered.** -/
theorem Busy.registered {s₀ : Mem} (h : Busy G s₀ c s) {a : AttrAddr} (ha : G.parentClass a = c)
    (hfree : s.attrNumid a = 0) {names : Name → List AttrAddr} (hnames : ∀ name, s.attrNameIdx name ⊆ names name)
    (hnew : ∀ name, ∀ b ∈ names name, b = a ∨ b ∈ s.attrNameIdx name)
    (hnamed : G.loaded c = true → a ∈ names (G.attrName a)) :
    Busy G s₀ c { s.numberAttr a with attrNameIdx := names } := by
  have hattrs := h.inv.attrs.registered (ha ▸ h.started) hnames hnew (ha ▸ hnamed)
  have hkept : ∀ b, s.attrNumid b ≠ 0 → (s.numberAttr a).attrNumid b = s.attrNumid b := by
    intro b hb
    refine Mem.attrNumid_numberAttr_of_ne ?_
    rintro rfl
    exact hb hfree
  exact h.update hattrs (fun _ _ => rfl) ⟨fun _ _ _ => rfl, fun _ _ _ => rfl, fun _ hd => hd, hkept⟩ rfl ⟨rfl, rfl⟩

end Keep

/-! ## (3) The references of a class -/

/-- **The references of a class**: those to the attributes of a kind, with their values. -/
structure Merged (s : Mem) (c : ClassAddr) (P : AttrAddr → Prop) (val : AttrAddr → Option VarAddr) : Prop where
  /-- The references. -/
  idx : (s.cells c).attrIdx.Holds s.attrNumid P
  /-- They are to numbered attributes. -/
  numbered : ∀ a, P a → s.attrNumid a ≠ 0
  /-- The values. -/
  vals : ∀ a, (s.cells c).attrVar a = val a
  /-- Only these attributes have values. -/
  held : ∀ a, ¬P a → val a = none

namespace Merged

variable {s s' s₀ : Mem} {c b : ClassAddr} {P Q : AttrAddr → Prop} {val val' : AttrAddr → Option VarAddr} {a : AttrAddr}

theorem congr (h : Merged s c P val) (hPQ : ∀ a, P a ↔ Q a) (hval : ∀ a, val a = val' a) : Merged s c Q val' where
  idx := h.idx.congr hPQ
  numbered a ha := h.numbered a ((hPQ a).mpr ha)
  vals a := (h.vals a).trans (hval a)
  held a ha := (hval a).symm.trans (h.held a fun hP => ha ((hPQ a).mp hP))

/-- The references of a class do not depend on what else is in memory. -/
theorem of_cell (h : Merged s c P val) (hcell : s'.cells c = s.cells c)
    (hnum : ∀ a, s.attrNumid a ≠ 0 → s'.attrNumid a = s.attrNumid a) : Merged s' c P val where
  idx := by
    rw [hcell]
    exact h.idx.congr_num fun a ha => hnum a (h.numbered a ha)
  numbered a ha := by
    rw [hnum a (h.numbered a ha)]
    exact h.numbered a ha
  vals a := by
    rw [hcell]
    exact h.vals a
  held := h.held

theorem grows (h : Merged s c P val) (hc : s.Started c) (hg : Grows G (fun _ => True) s s') : Merged s' c P val :=
  h.of_cell (hg.cells c trivial hc) hg.numid

/-- An attribute with a reference is found. -/
theorem kndSetGet_ok (h : Merged s c P val) (ha : P a) : kndSetGet (s.cells c).attrIdx (s.attrId a) = .ok a :=
  h.idx.kndSetGet_eq_ok ha

/-- Another attribute has another number. -/
theorem free (h : Merged s c P val) (hnum : Numbered G s) (ha : ¬P a) : ∀ b, P b → s.attrNumid b ≠ s.attrNumid a := by
  intro b hb heq
  exact ha (hnum.numid_inj b a (h.numbered b hb) heq ▸ hb)

theorem kndSetGet_error (h : Merged s c P val) (hnum : Numbered G s) (ha : ¬P a) :
    ∃ e, kndSetGet (s.cells c).attrIdx (s.attrId a) = .error e := h.idx.kndSetGet_eq_error (h.free hnum ha)

/-- The value of a reference is set. -/
theorem setAttrVar (h : Merged s c P val) (ha : P a) (var : Option VarAddr) :
    Merged (s.setAttrVar c a var) c P (Function.update val a var) where
  idx := by
    rw [Mem.setAttrVar, Mem.cells_modifyCell_self]
    exact h.idx
  numbered := h.numbered
  vals x := by
    rw [Mem.setAttrVar, Mem.cells_modifyCell_self]
    show Function.update (s.cells c).attrVar a var x = Function.update val a var x
    by_cases hx : x = a
    · rw [hx, Function.update_self, Function.update_self]
    · rw [Function.update_of_ne hx, Function.update_of_ne hx]
      exact h.vals x
  held x hx := by
    have hne : x ≠ a := by
      rintro rfl
      exact hx ha
    rw [Function.update_of_ne hne]
    exact h.held x hx

/-- **A new reference is added.** -/
theorem addAttrRef (h : Merged s c P val) (hbusy : Busy G s₀ c s) (hnum : s.attrNumid a ≠ 0) (ha : ¬P a)
    (var : Option VarAddr) : ∃ s', (addAttrRef c a var).run s = .ok () s' ∧ OnlyCell c s s' ∧ Busy G s₀ c s' ∧
      Merged s' c (fun x => x = a ∨ P x) (Function.update val a var) := by
  obtain ⟨set', hadd, hholds, -⟩ := h.idx.kndSetAdd_free (h.free hbusy.inv.attrs ha)
  have hset : Busy G s₀ c (s.setAttrIdx c set') := hbusy.modifyCell fun _ => ⟨rfl, rfl, rfl⟩
  have hmerged : Merged (s.setAttrIdx c set') c (fun x => x = a ∨ P x) val := by
    refine ⟨?_, ?_, fun x => ?_, fun x hx => h.held x fun hP => hx (.inr hP)⟩
    · rw [Mem.setAttrIdx, Mem.cells_modifyCell_self]
      exact hholds
    · rintro x (rfl | hx)
      · exact hnum
      · exact h.numbered x hx
    · rw [Mem.setAttrIdx, Mem.cells_modifyCell_self]
      exact h.vals x
  exact ⟨(s.setAttrIdx c set').setAttrVar c a var, run_addAttrRef hadd var, .trans ⟨_, rfl⟩ ⟨_, rfl⟩,
    hset.modifyCell fun _ => ⟨rfl, rfl, rfl⟩, hmerged.setAttrVar (.inl rfl) var⟩

/-- **`inherit_attr`**: the value of the base comes before the one that is there. -/
theorem inheritAttr (h : Merged s c P val) (hbusy : Busy G s₀ c s) (hnum : s.attrNumid a ≠ 0) :
    ∃ s', (inheritAttr c b a).run s = .ok () s' ∧ OnlyCell c s s' ∧ Busy G s₀ c s' ∧
      Merged s' c (fun x => x = a ∨ P x) (Function.update val a (s.attrVarOf a b <|> val a)) := by
  by_cases ha : P a
  · have hself : ∀ x, P x ↔ x = a ∨ P x := fun x => ⟨.inr, fun hx => hx.elim (fun hxa => hxa ▸ ha) id⟩
    have hget := h.kndSetGet_ok ha
    cases hsrc : (s.cells b).attrVar a with
    | none =>
        refine ⟨s, run_inheritAttr_of_none hget hsrc, .refl c s, hbusy, h.congr hself fun x => ?_⟩
        rw [Mem.attrVarOf, hsrc]
        exact (congrFun (Function.update_eq_self a val) x).symm
    | some var =>
        refine ⟨s.setAttrVar c a (some var), run_inheritAttr_of_some hget hsrc, ⟨_, rfl⟩,
          hbusy.modifyCell fun _ => ⟨rfl, rfl, rfl⟩, ?_⟩
        rw [Mem.attrVarOf, hsrc]
        exact (h.setAttrVar ha (some var)).congr hself fun _ => rfl
  · obtain ⟨e, hget⟩ := h.kndSetGet_error hbusy.inv.attrs ha
    obtain ⟨s', hrun, honly, hbusy', hmerged⟩ := h.addAttrRef hbusy hnum ha (s.attrVarOf a b)
    refine ⟨s', (run_inheritAttr_of_error hget).trans hrun, honly, hbusy', ?_⟩
    have hval : (s.attrVarOf a b <|> val a) = s.attrVarOf a b := by
      rw [h.held a ha]
      cases s.attrVarOf a b <;> rfl
    rw [hval]
    exact hmerged

/-- **The references of a resolved base are merged** into those of the class. -/
theorem inheritAll (h : Merged s c P val) (hbusy : Busy G s₀ c s) (hbase : s.Resolved b) :
    Yields (kndSetMap (s.cells b).attrIdx (AttrResolve.inheritAttr c b)) s
      (fun _ s' => OnlyCell c s s' ∧ Busy G s₀ c s' ∧
        Merged s' c (fun a => P a ∨ G.InScope b a) fun a => (s.attrVarOf a b <|> val a)) (Busy G s₀ c) := by
  have hdone := hbusy.inv.done b hbase
  have hne := hbusy.ne_of_resolved hbase
  rw [kndSetMap_eq]
  refine Yields.mono (Yields.forM (fun done s' => OnlyCell c s s' ∧ Busy G s₀ c s' ∧
    Merged s' c (fun a => a ∈ done ∨ P a) fun a => if a ∈ done then (s.attrVarOf a b <|> val a) else val a)
      ⟨.refl c s, hbusy, ?_⟩ ?_) ?_ fun _ hQ => hQ
  · exact h.congr (fun a => by simp) fun a => by rw [if_neg List.not_mem_nil]
  · rintro pre a post s₁ hsplit ⟨honly, hbusy₁, hmerged⟩
    have hin : G.InScope b a := by
      refine hdone.idx.mem_elems.mp ?_
      rw [hsplit]
      exact List.mem_append_right _ (List.mem_cons_self ..)
    have hnum : s₁.attrNumid a ≠ 0 := by
      rw [honly.attrNumid]
      exact hdone.numbered a hin
    obtain ⟨s₂, hrun, honly₂, hbusy₂, hmerged₂⟩ := hmerged.inheritAttr (b := b) hbusy₁ hnum
    refine Yields.returning hrun ⟨honly.trans honly₂, hbusy₂, hmerged₂.congr (fun x => ?_) fun x => ?_⟩
    · rw [List.mem_append, List.mem_singleton, or_assoc, or_left_comm]
    · -- the base is not written, so its value is the same in every round
      have hsrc : s₁.attrVarOf a b = s.attrVarOf a b := congrArg (ClassCell.attrVar · a) (honly.cells hne)
      by_cases hx : x = a
      · rw [hx, Function.update_self, hsrc, if_pos (List.mem_append_right _ (List.mem_singleton_self a))]
        by_cases ha : a ∈ pre
        · rw [if_pos ha]
          cases s.attrVarOf a b <;> rfl
        · rw [if_neg ha]
      · rw [Function.update_of_ne hx]
        refine if_congr ?_ rfl rfl
        rw [List.mem_append, List.mem_singleton, or_iff_left hx]
  · rintro _ s' ⟨honly, hbusy', hmerged⟩
    refine ⟨honly, hbusy', hmerged.congr (fun a => ?_) fun a => ?_⟩
    · rw [hdone.idx.mem_elems, or_comm]
    · by_cases ha : a ∈ (s.cells b).attrIdx.elems
      · rw [if_pos ha]
      · rw [if_neg ha]
        have hnone : s.attrVarOf a b = none := hdone.held a fun hin => ha (hdone.idx.mem_elems.mpr hin)
        rw [hnone]
        rfl

end Merged

/-! ## (4) Own attributes -/

/-- An outcome. -/
theorem yields_finish {I : Unit → Mem → Prop} {Q : Mem → Prop} {s : Mem} (o : Option ResolveErr) (hI : I () s)
    (hQ : Q s) : Yields (finish o) s I Q := by
  cases o with
  | none => exact hI
  | some e => exact hQ

/-- **The check for conflicts** passes when no attribute of the name has a reference in the class. -/
theorem yields_checkAttrNameConflict (G : Schema) (c : ClassAddr) (a : AttrAddr) (s : Mem) :
    Yields (checkAttrNameConflict G c a) s
      (fun _ s' => s' = s ∧ ∀ b ∈ s.attrNameIdx (G.attrName a), ∃ e,
        kndSetGet (s.cells c).attrIdx (s.attrId b) = .error e) (· = s) := by
  refine Yields.get_bind (Yields.forM (fun pre s' => s' = s ∧ ∀ b ∈ pre, ∃ e,
    kndSetGet (s.cells c).attrIdx (s.attrId b) = .error e) ⟨rfl, fun b hb => absurd hb List.not_mem_nil⟩ ?_)
  intro pre b post s' _ hpre
  obtain ⟨heq, hpre⟩ := hpre
  cases hget : kndSetGet (s.cells c).attrIdx (s.attrId b) with
  | ok ref => exact heq
  | error e =>
      refine ⟨heq, fun x hx => ?_⟩
      rcases List.mem_append.mp hx with hx | hx
      · exact hpre x hx
      · exact ⟨e, List.mem_singleton.mp hx ▸ hget⟩

/-- **Own attributes of a class**, while they are gone through. -/
structure Registering (G : Schema) (s₀ : Mem) (c : ClassAddr) (pre : List AttrAddr) (s : Mem) : Prop where
  /-- The others are left alone. -/
  busy : Busy G s₀ c s
  /-- The references of a loaded class. -/
  merged : Merged s c (fun a => a ∈ pre ∧ G.loaded c = true) fun _ => none
  /-- The other attributes are to be numbered. -/
  free : ∀ a ∈ G.attrs c, a ∉ pre → s.attrNumid a = 0
  /-- The attributes that were gone through are numbered. -/
  numbered : ∀ a ∈ pre, s.attrNumid a ≠ 0
  /-- In a loaded class they have different names. -/
  names : G.loaded c = true → (pre.map G.attrName).Nodup

/-- `register_attr` of a loaded class. -/
theorem run_registerAttr_of_loaded {c : ClassAddr} (hloaded : G.loaded c = true) (a : AttrAddr) (s : Mem) :
    (registerAttr G c a).run s = (addAttrRef c a none).run ((s.numberAttr a).nameAttr (G.attrName a) a) := by
  rw [registerAttr]
  refine (run_bind_of_ok (rfl : (modify fun s => s.numberAttr a : M Unit).run s = .ok () (s.numberAttr a))).trans ?_
  rw [if_pos hloaded]
  rfl

/-- `register_attr` of another class. -/
theorem run_registerAttr_of_not_loaded {c : ClassAddr} (hloaded : G.loaded c ≠ true) (a : AttrAddr) (s : Mem) :
    (registerAttr G c a).run s = .ok () (s.numberAttr a) := by
  rw [registerAttr]
  refine (run_bind_of_ok (rfl : (modify fun s => s.numberAttr a : M Unit).run s = .ok () (s.numberAttr a))).trans ?_
  rw [if_neg hloaded]
  rfl

section Register

variable {s₀ s s' : Mem} {c : ClassAddr} {pre : List AttrAddr} {a : AttrAddr}

theorem Registering.numid_kept (h : Registering G s₀ c pre s) (ha : a ∈ G.attrs c) (hpre : a ∉ pre) {b : AttrAddr}
    (hb : s.attrNumid b ≠ 0) : (s.numberAttr a).attrNumid b = s.attrNumid b := by
  refine Mem.attrNumid_numberAttr_of_ne ?_
  rintro rfl
  exact hb (h.free b ha hpre)

/-- The next attribute is numbered, whatever else is done. -/
theorem Registering.concat (h : Registering G s₀ c pre s) (ha : a ∈ G.attrs c) (hpre : a ∉ pre)
    (hnew : G.loaded c = true → ∀ b ∈ pre, G.attrName b ≠ G.attrName a)
    (hnum : s'.attrNumid = (s.numberAttr a).attrNumid) (hbusy : Busy G s₀ c s')
    (hmerged : Merged s' c (fun b => b ∈ pre ++ [a] ∧ G.loaded c = true) fun _ => none) :
    Registering G s₀ c (pre ++ [a]) s' := by
  refine ⟨hbusy, hmerged, fun b hb hnot => ?_, fun b hb => ?_, fun hloaded => ?_⟩
  · rw [List.mem_append, List.mem_singleton, not_or] at hnot
    rw [hnum, Mem.attrNumid_numberAttr_of_ne hnot.2]
    exact h.free b hb hnot.1
  · rw [hnum]
    rcases List.mem_append.mp hb with hb | hb
    · rw [h.numid_kept ha hpre (h.numbered b hb)]
      exact h.numbered b hb
    · rw [List.mem_singleton.mp hb, Mem.attrNumid_numberAttr_self]
      exact Nat.succ_ne_zero _
  · rw [List.map_append, List.map_singleton]
    refine List.Nodup.append (h.names hloaded) (List.nodup_singleton _) ?_
    rw [List.disjoint_singleton]
    intro hmem
    obtain ⟨b, hb, hname⟩ := List.mem_map.mp hmem
    exact hnew hloaded b hb hname

/-- `register_attr`. -/
theorem Registering.registerAttr (h : Registering G s₀ c pre s) (ha : a ∈ G.attrs c) (hpre : a ∉ pre)
    (hnew : G.loaded c = true → ∀ b ∈ pre, G.attrName b ≠ G.attrName a) :
    ∃ s', (registerAttr G c a).run s = .ok () s' ∧ Registering G s₀ c (pre ++ [a]) s' := by
  have hparent := G.parentClass_eq c a ha
  have hfree := h.free a ha hpre
  by_cases hloaded : G.loaded c = true
  · have hbusy : Busy G s₀ c ((s.numberAttr a).nameAttr (G.attrName a) a) := by
      refine h.busy.registered hparent hfree (fun name b hb => ?_) (fun name b hb => ?_) fun _ => ?_
      · exact Mem.mem_attrNameIdx_nameAttr.mpr (.inr hb)
      · exact (Mem.mem_attrNameIdx_nameAttr.mp hb).imp_left And.right
      · exact Mem.mem_attrNameIdx_nameAttr.mpr (.inl ⟨rfl, rfl⟩)
    have hmerged : Merged ((s.numberAttr a).nameAttr (G.attrName a) a) c
        (fun b => b ∈ pre ∧ G.loaded c = true) fun _ => none := h.merged.of_cell rfl fun _ => h.numid_kept ha hpre
    have hnum : ((s.numberAttr a).nameAttr (G.attrName a) a).attrNumid a ≠ 0 := by
      show (s.numberAttr a).attrNumid a ≠ 0
      rw [Mem.attrNumid_numberAttr_self]
      exact Nat.succ_ne_zero _
    obtain ⟨s', hrun, honly, hbusy', hmerged'⟩ := hmerged.addAttrRef hbusy hnum (fun hb => hpre hb.1) none
    refine ⟨s', (run_registerAttr_of_loaded hloaded a s).trans hrun,
      h.concat ha hpre hnew honly.attrNumid hbusy' (hmerged'.congr (fun b => ?_) fun b => ?_)⟩
    · simp [hloaded, or_comm]
    · exact congrFun (Function.update_eq_self a fun _ => none) b
  · -- the attributes of other classes are numbered and have no references
    have hbusy : Busy G s₀ c (s.numberAttr a) :=
      h.busy.registered hparent hfree (fun _ => List.Subset.refl _) (fun _ _ hb => .inr hb)
        fun hl => absurd hl hloaded
    have hmerged : Merged (s.numberAttr a) c (fun b => b ∈ pre ∧ G.loaded c = true) fun _ => none :=
      h.merged.of_cell rfl fun _ => h.numid_kept ha hpre
    refine ⟨s.numberAttr a, run_registerAttr_of_not_loaded hloaded a s,
      h.concat ha hpre hnew rfl hbusy (hmerged.congr (fun b => ?_) fun _ => rfl)⟩
    exact iff_of_false (fun hb => hloaded hb.2) fun hb => hloaded hb.2

end Register

/-- **One round of `knd_resolve_primary_attrs`.** -/
theorem Registering.yields_resolvePrimaryAttr {s₀ s : Mem} {c : ClassAddr} {pre : List AttrAddr} {a : AttrAddr}
    (h : Registering G s₀ c pre s) (ha : a ∈ G.attrs c) (hpre : a ∉ pre) (hsub : pre ⊆ G.attrs c) :
    Yields (resolvePrimaryAttr G c a) s (fun _ => Registering G s₀ c (pre ++ [a])) (Busy G s₀ c) := by
  have hcheck := (yields_checkAttrNameConflict G c a s).mono (fun _ _ hI => hI) fun s' (hs' : s' = s) =>
    (hs' ▸ h.busy : Busy G s₀ c s')
  refine hcheck.bind fun _ s' hs' => ?_
  obtain ⟨rfl, hpass⟩ := hs'
  refine (yields_finish (I := fun _ s'' => s'' = s') (G.attrOutcome a) rfl h.busy).bind fun _ s'' hs'' => ?_
  subst hs''
  obtain ⟨s₁, hrun, hdone⟩ := h.registerAttr ha hpre fun hloaded b hb hname => by
    -- an attribute of the name that has a reference is found by the check
    have hparent := G.parentClass_eq c b (hsub hb)
    have hmem := h.busy.inv.attrs.named b (h.numbered b hb) (hparent ▸ hloaded)
    rw [hname] at hmem
    obtain ⟨e, herror⟩ := hpass b hmem
    rw [h.merged.kndSetGet_ok ⟨hb, hloaded⟩] at herror
    cases herror
  exact Yields.returning hrun hdone

/-- **`knd_resolve_primary_attrs`.** -/
theorem yields_resolvePrimaryAttrs {s₀ s : Mem} {c : ClassAddr} (h : Registering G s₀ c [] s) :
    Yields ((G.attrs c).forM (resolvePrimaryAttr G c)) s (fun _ => Registering G s₀ c (G.attrs c)) (Busy G s₀ c) := by
  refine Yields.forM (Registering G s₀ c) h fun pre a post s hsplit hpre => ?_
  have ha : a ∈ G.attrs c := by
    rw [hsplit]
    exact List.mem_append_right _ (List.mem_cons_self ..)
  refine hpre.yields_resolvePrimaryAttr ha (fun hmem => ?_) fun b hb => ?_
  · have hnodup := G.nodup_attrs c
    rw [hsplit] at hnodup
    exact (List.nodup_append.mp hnodup).2.2 a hmem a (List.mem_cons_self ..) rfl
  · rw [hsplit]
    exact List.mem_append_left _ hb

/-! ## (5) Values -/

/-- **What the resolution of a class is to do**: it keeps the invariant and leaves the classes in progress alone, also
where it fails. -/
def Resolves (G : Schema) (resolve : ClassAddr → M Unit) : Prop :=
  ∀ s c, Inv G s → Yields (resolve c) s (fun _ s' => Inv G s' ∧ Grows G (fun _ => True) s s' ∧ s'.Resolved c)
    fun s' => Inv G s' ∧ Grows G (fun _ => True) s s'

section Values

variable {resolve : ClassAddr → M Unit} {s₀ s : Mem} {c : ClassAddr}

theorem Resolves.resolveOnce (hresolve : Resolves G resolve) : Resolves G (resolveOnce resolve) := by
  intro s c hinv
  refine Yields.get_bind (Yields.ite (fun hres => ?_) fun _ => hresolve s c hinv)
  exact ⟨hinv, .refl s, hres⟩

/-- A class is resolved unless it is, while another one is in progress. -/
theorem Busy.yields_resolveOnce (hresolve : Resolves G resolve) (h : Busy G s₀ c s) (b : ClassAddr) :
    Yields (AttrResolve.resolveOnce resolve b) s
      (fun _ s' => Busy G s₀ c s' ∧ Grows G (fun _ => True) s s' ∧ s'.Resolved b) (Busy G s₀ c) :=
  (hresolve.resolveOnce s b h.inv).mono (fun _ _ ⟨hinv, hg, hres⟩ => ⟨h.nested hinv hg, hg, hres⟩)
    fun _ ⟨hinv, hg⟩ => h.nested hinv hg

/-- Several classes. -/
theorem Busy.yields_resolveAll (hresolve : Resolves G resolve) (h : Busy G s₀ c s) (bs : List ClassAddr) :
    Yields (bs.forM (AttrResolve.resolveOnce resolve)) s (fun _ s' => Busy G s₀ c s' ∧ Grows G (fun _ => True) s s')
      (Busy G s₀ c) := by
  refine Yields.forM (fun _ s' => Busy G s₀ c s' ∧ Grows G (fun _ => True) s s') ⟨h, .refl s⟩ ?_
  rintro _ b _ s' - ⟨hbusy, hg⟩
  exact (hbusy.yields_resolveOnce hresolve b).mono (fun _ _ ⟨hbusy', hg', _⟩ => ⟨hbusy', hg.trans hg'⟩) fun _ hQ => hQ

/-- **The values of a declaration**, while they are gone through, from the memory `s₁` on. -/
structure Binding (G : Schema) (s₀ s₁ : Mem) (c : ClassAddr) (P : AttrAddr → Prop) (val : AttrAddr → Option VarAddr)
    (vars : List VarAddr) (s : Mem) : Prop where
  /-- The others are left alone. -/
  busy : Busy G s₀ c s
  /-- Since the first value, too. -/
  grows : Grows G (· ≠ c) s₁ s
  /-- The last value of an attribute comes before what was there. -/
  merged : Merged s c P fun a => (s.boundVar a vars <|> val a)
  /-- The values are bound to attributes of their names. -/
  bound : ∀ v ∈ vars, ∃ a, P a ∧ s.varAttr v = some a ∧ G.attrName a = G.varName v
  /-- The other values of the class are as they were. -/
  others : ∀ v, G.varParent v = c → v ∉ vars → s.varAttr v = s₁.varAttr v

variable {s₁ s' : Mem} {P : AttrAddr → Prop} {val : AttrAddr → Option VarAddr} {vars : List VarAddr} {v : VarAddr}

/-- Other classes are resolved in between. -/
theorem Binding.nested (h : Binding G s₀ s₁ c P val vars s) (hvars : ∀ v ∈ vars, G.varParent v = c)
    (hbusy : Busy G s₀ c s') (hg : Grows G (fun _ => True) s s') : Binding G s₀ s₁ c P val vars s' := by
  have hvar : ∀ w, G.varParent w = c → s'.varAttr w = s.varAttr w :=
    fun w hw => hg.vars w trivial (hw ▸ h.busy.started)
  refine ⟨hbusy, h.grows.trans (hg.mono fun _ _ => trivial), ?_, fun w hw => ?_, fun w hw hnot => ?_⟩
  · refine (h.merged.grows h.busy.started hg).congr (fun _ => Iff.rfl) fun a => ?_
    rw [Mem.boundVar_congr fun w hw => hvar w (hvars w hw)]
  · obtain ⟨a, ha, hbound, hname⟩ := h.bound w hw
    exact ⟨a, ha, (hvar w (hvars w hw)).trans hbound, hname⟩
  · exact (hvar w hw).trans (h.others w hw hnot)

/-- A value is bound to an attribute that has a reference. -/
theorem Binding.bindVar (h : Binding G s₀ s₁ c P val vars s) (hv : G.varParent v = c) (hnew : v ∉ vars)
    {a : AttrAddr} (ha : P a) (hname : G.attrName a = G.varName v) :
    Binding G s₀ s₁ c P val (vars ++ [v]) (s.bindVar c a v) := by
  have hself : (s.bindVar c a v).varAttr v = some a := Function.update_self ..
  have hother : ∀ {w}, w ≠ v → (s.bindVar c a v).varAttr w = s.varAttr w := fun hw => Function.update_of_ne hw ..
  have hkept : ∀ w ∈ vars, (s.bindVar c a v).varAttr w = s.varAttr w := by
    intro w hw
    refine hother ?_
    rintro rfl
    exact hnew hw
  refine ⟨h.busy.bindVar a hv, h.grows.trans ?_, ?_, fun w hw => ?_, fun w hw hnot => ?_⟩
  · refine ⟨fun d hd _ => Mem.cells_bindVar_of_ne hd a v, fun w hw _ => hother ?_, fun d hd => ?_, fun _ _ => rfl⟩
    · rintro rfl
      exact hw hv
    · by_cases hdc : d = c
      · subst hdc
        exact (h.busy.bindVar a hv).started
      · rw [Mem.Started, Mem.cells_bindVar_of_ne hdc]
        exact hd
  · have hset : Merged (s.bindVar c a v) c P
        (Function.update (fun a => (s.boundVar a vars <|> val a)) a (some v)) :=
      (h.merged.setAttrVar ha (some v)).of_cell rfl fun _ _ => rfl
    refine hset.congr (fun _ => Iff.rfl) fun x => ?_
    rw [Mem.boundVar_concat, hself, Mem.boundVar_congr hkept]
    by_cases hx : x = a
    · rw [hx, Function.update_self, if_pos rfl]
      rfl
    · rw [Function.update_of_ne hx, if_neg fun heq => hx (Option.some.inj heq).symm]
  · rcases List.mem_append.mp hw with hw | hw
    · obtain ⟨x, hx, hbound, hx'⟩ := h.bound w hw
      exact ⟨x, hx, (hkept w hw).trans hbound, hx'⟩
    · obtain rfl := List.mem_singleton.mp hw
      exact ⟨a, ha, hself, hname⟩
  · rw [List.mem_append, List.mem_singleton, not_or] at hnot
    rw [hother hnot.2]
    exact h.others w hw hnot.1

/-- **One round of `knd_resolve_attr_vars`.** -/
theorem Binding.yields_resolveAttrVar (hresolve : Resolves G resolve) (h : Binding G s₀ s₁ c P val vars s)
    (hvars : ∀ v ∈ vars, G.varParent v = c) (hv : G.varParent v = c) (hnew : v ∉ vars) :
    Yields (resolveAttrVar G resolve c v) s (fun _ => Binding G s₀ s₁ c P val (vars ++ [v])) (Busy G s₀ c) := by
  refine Yields.get_bind ?_
  cases hget : kndClassGetAttr G (s.cells c).attrIdx (G.varName v) with
  | none => exact h.busy
  | some a =>
      obtain ⟨hmem, hname⟩ := of_kndClassGetAttr hget
      have hbound := h.bindVar hv hnew (h.merged.idx.mem_elems.mp hmem) hname
      have hvars' : ∀ w ∈ vars ++ [v], G.varParent w = c := by
        intro w hw
        rcases List.mem_append.mp hw with hw | hw
        · exact hvars w hw
        · exact List.mem_singleton.mp hw ▸ hv
      refine Yields.bind (I := fun _ s' => s' = s.bindVar c a v) rfl fun _ s' hs' => ?_
      subst hs'
      refine (hbound.busy.yields_resolveAll hresolve (G.varRefs v a)).bind fun _ s' hs' => ?_
      obtain ⟨hbusy, hg⟩ := hs'
      exact yields_finish _ (hbound.nested hvars' hbusy hg) hbusy

/-- **`knd_resolve_attr_vars`.** -/
theorem yields_kndResolveAttrVars (hresolve : Resolves G resolve) {cvar : ClassVar} (hcvar : cvar ∈ G.baseclassVars c)
    (hbusy : Busy G s₀ c s) (hmerged : Merged s c P val) :
    Yields (kndResolveAttrVars G resolve c cvar) s (fun _ => Binding G s₀ s c P val cvar.attrs) (Busy G s₀ c) := by
  have hnodup : cvar.attrs.Nodup := (List.nodup_flatMap.mp (G.nodup_vars c)).1 cvar hcvar
  have hparent := G.varParent_eq c cvar hcvar
  refine Yields.forM (Binding G s₀ s c P val) ?_ fun pre v post s' hsplit h => ?_
  · exact ⟨hbusy, .refl s, hmerged, fun v hv => absurd hv List.not_mem_nil, fun _ _ _ => rfl⟩
  · rw [hsplit] at hnodup
    refine h.yields_resolveAttrVar hresolve (fun w hw => hparent w ?_) (hparent v ?_) fun hv => ?_
    · rw [hsplit]
      exact List.mem_append_left _ hw
    · rw [hsplit]
      exact List.mem_append_right _ (List.mem_cons_self ..)
    · exact (List.nodup_append.mp hnodup).2.2 v hv v (List.mem_cons_self ..) rfl

end Values

/-! ## (6) Classes -/

section Classes

variable {resolve : ClassAddr → M Unit} {s₀ s s' : Mem} {c : ClassAddr} {pre : List ClassVar}

/-- **The declarations of a class**, while they are gone through. -/
structure Stage (G : Schema) (s₀ : Mem) (c : ClassAddr) (pre : List ClassVar) (s : Mem) : Prop where
  /-- The others are left alone. -/
  busy : Busy G s₀ c s
  /-- The references are to own attributes and to those of the bases so far, with the values that the declarations
  leave. -/
  merged : Merged s c
    (fun a => (a ∈ G.attrs c ∧ G.loaded c = true) ∨ ∃ cvar ∈ pre, G.InScope cvar.entry a)
    fun a => overriding (s.attrVarOf a) (pre.map (s.decl a))
  /-- The bases so far are resolved. -/
  bases : ∀ cvar ∈ pre, s.Resolved cvar.entry
  /-- The values so far are bound to attributes of their names. -/
  bound : ∀ cvar ∈ pre, ∀ v ∈ cvar.attrs,
    ∃ a, ((a ∈ G.attrs c ∧ G.loaded c = true) ∨ ∃ cvar ∈ pre, G.InScope cvar.entry a) ∧
      s.varAttr v = some a ∧ G.attrName a = G.varName v

/-- The values that declarations leave do not depend on what else is in memory. -/
theorem overriding_decl_congr (h : ∀ cvar ∈ pre, s'.cells cvar.entry = s.cells cvar.entry)
    (hvars : ∀ cvar ∈ pre, ∀ v ∈ cvar.attrs, s'.varAttr v = s.varAttr v) (a : AttrAddr) :
    overriding (s'.attrVarOf a) (pre.map (s'.decl a)) = overriding (s.attrVarOf a) (pre.map (s.decl a)) := by
  have hdecl : pre.map (s'.decl a) = pre.map (s.decl a) :=
    List.map_congr_left fun cvar hcvar => Mem.decl_congr (hvars cvar hcvar)
  rw [hdecl]
  refine overriding_congr fun d hd => ?_
  obtain ⟨cvar, hcvar, rfl⟩ := List.mem_map.mp hd
  exact congrArg (ClassCell.attrVar · a) (h cvar hcvar)

/-- Other classes are resolved in between. -/
theorem Stage.nested (h : Stage G s₀ c pre s) (hsub : pre ⊆ G.baseclassVars c) (hbusy : Busy G s₀ c s')
    (hg : Grows G (fun _ => True) s s') : Stage G s₀ c pre s' := by
  have hcell : ∀ cvar ∈ pre, s'.cells cvar.entry = s.cells cvar.entry :=
    fun cvar hcvar => hg.cells _ trivial (h.busy.inv.started _ (h.bases cvar hcvar))
  have hvars : ∀ cvar ∈ pre, ∀ v ∈ cvar.attrs, s'.varAttr v = s.varAttr v := by
    intro cvar hcvar v hv
    have hparent := G.varParent_eq c cvar (hsub hcvar) v hv
    exact hg.vars v trivial (hparent ▸ h.busy.started)
  refine ⟨hbusy, ?_, fun cvar hcvar => ?_, fun cvar hcvar v hv => ?_⟩
  · exact (h.merged.grows h.busy.started hg).congr (fun _ => Iff.rfl)
      fun a => (overriding_decl_congr hcell hvars a).symm
  · rw [Mem.Resolved, hcell cvar hcvar]
    exact h.bases cvar hcvar
  · obtain ⟨a, ha, hbound, hname⟩ := h.bound cvar hcvar v hv
    exact ⟨a, ha, (hvars cvar hcvar v hv).trans hbound, hname⟩

/-- The references of a base are merged and the values of its declaration bound, while the resolved classes and the
values of earlier declarations are left alone. -/
theorem Stage.concat {s₁ s₂ : Mem} (h : Stage G s₀ c pre s) {cvar : ClassVar} (hbase : s.Resolved cvar.entry)
    (hcell : ∀ b, s.Resolved b → s₂.cells b = s.cells b)
    (hvars : ∀ cv ∈ pre, ∀ v ∈ cv.attrs, s₂.varAttr v = s.varAttr v)
    (hbind : Binding G s₀ s₁ c
      (fun a => ((a ∈ G.attrs c ∧ G.loaded c = true) ∨ ∃ cv ∈ pre, G.InScope cv.entry a) ∨ G.InScope cvar.entry a)
      (fun a => (s.attrVarOf a cvar.entry <|> overriding (s.attrVarOf a) (pre.map (s.decl a)))) cvar.attrs s₂) :
    Stage G s₀ c (pre ++ [cvar]) s₂ := by
  have hscope : ∀ a, ((a ∈ G.attrs c ∧ G.loaded c = true) ∨ ∃ cv ∈ pre, G.InScope cv.entry a) ∨
      G.InScope cvar.entry a ↔
        (a ∈ G.attrs c ∧ G.loaded c = true) ∨ ∃ cv ∈ pre ++ [cvar], G.InScope cv.entry a := by
    intro a
    simp only [List.mem_append, List.mem_singleton, or_and_right, exists_or, exists_eq_left, or_assoc]
  refine ⟨hbind.busy, hbind.merged.congr hscope fun a => ?_, fun cv hcv => ?_, fun cv hcv v hv => ?_⟩
  · rw [List.map_append, List.map_singleton, overriding_concat, Decl.over,
      overriding_decl_congr (fun cv hcv => hcell _ (h.bases cv hcv)) hvars]
    show (s₂.boundVar a cvar.attrs <|> _) =
      (s₂.boundVar a cvar.attrs <|> ((s₂.cells cvar.entry).attrVar a <|> _))
    rw [hcell _ hbase]
    rfl
  · have hres : s.Resolved cv.entry := by
      rcases List.mem_append.mp hcv with hcv | hcv
      · exact h.bases cv hcv
      · exact List.mem_singleton.mp hcv ▸ hbase
    rw [Mem.Resolved, hcell _ hres]
    exact hres
  · rcases List.mem_append.mp hcv with hcv | hcv
    · obtain ⟨a, ha, hbound, hname⟩ := h.bound cv hcv v hv
      exact ⟨a, (hscope a).mp (.inl ha), (hvars cv hcv v hv).trans hbound, hname⟩
    · obtain rfl := List.mem_singleton.mp hcv
      obtain ⟨a, ha, hbound, hname⟩ := hbind.bound v hv
      exact ⟨a, (hscope a).mp ha, hbound, hname⟩

/-- **One declaration**: the references of its base are merged, then its values are bound. -/
theorem Stage.yields_resolveClassVar (hresolve : Resolves G resolve) (h : Stage G s₀ c pre s) {cvar : ClassVar}
    {post : List ClassVar} (hsplit : G.baseclassVars c = pre ++ cvar :: post) :
    Yields (resolveClassVar G resolve c cvar) s (fun _ => Stage G s₀ c (pre ++ [cvar])) (Busy G s₀ c) := by
  have hsub : pre ⊆ G.baseclassVars c := by
    rw [hsplit]
    exact List.subset_append_left _ _
  have hcvar : cvar ∈ G.baseclassVars c := by
    rw [hsplit]
    exact List.mem_append_right _ (List.mem_cons_self ..)
  have hparent : ∀ cv ∈ pre, ∀ v ∈ cv.attrs, G.varParent v = c := fun cv hcv => G.varParent_eq c cv (hsub hcv)
  have hother : ∀ cv ∈ pre, ∀ v ∈ cv.attrs, v ∉ cvar.attrs := by
    intro cv hcv v hv hv'
    have hnodup := G.nodup_vars c
    rw [hsplit, List.flatMap_append, List.flatMap_cons] at hnodup
    exact (List.nodup_append.mp hnodup).2.2 v (List.mem_flatMap.mpr ⟨cv, hcv, hv⟩) v (List.mem_append_left _ hv') rfl
  rw [resolveClassVar, inheritAttrs, bind_assoc]
  refine (h.busy.yields_resolveOnce hresolve cvar.entry).bind fun _ s₁ hs₁ => ?_
  obtain ⟨hbusy₁, hg₁, hbase⟩ := hs₁
  have hstage := h.nested hsub hbusy₁ hg₁
  rw [bind_assoc]
  refine Yields.get_bind ((hstage.merged.inheritAll hbusy₁ hbase).mono (fun _ _ hI => hI) (fun _ hQ => hQ) |>.bind
    fun _ s₂ hs₂ => ?_)
  obtain ⟨honly, hbusy₂, hmerged₂⟩ := hs₂
  refine (yields_kndResolveAttrVars hresolve hcvar hbusy₂ hmerged₂).mono (fun _ s₃ hs₃ => ?_) fun _ hQ => hQ
  -- neither the bases nor the values of earlier declarations were written since they were read
  refine hstage.concat hbase (fun b hb => ?_) (fun cv hcv v hv => ?_) hs₃
  · have hne := hbusy₁.ne_of_resolved hb
    have hb₂ : s₂.cells b = s₁.cells b := honly.cells hne
    refine (hs₃.grows.cells b hne ?_).trans hb₂
    rw [Mem.Started, hb₂]
    exact hbusy₁.inv.started b hb
  · rw [hs₃.others v (hparent cv hcv v hv) (hother cv hcv v hv), honly.varAttr]

/-- A class whose declarations were gone through is as it should be. -/
theorem Stage.done (h : Stage G s₀ c (G.baseclassVars c) s)
    (hnames : G.loaded c = true → ((G.attrs c).map G.attrName).Nodup) : Done G (s.setResolved c) c := by
  have hscope : ∀ a, _ ↔ G.InScope c a := fun a => (Schema.inScope_iff (c := c) (a := a)).symm
  have hmerged := h.merged.congr hscope fun _ => rfl
  have hbase : ∀ cvar ∈ G.baseclassVars c, (s.setResolved c).cells cvar.entry = s.cells cvar.entry :=
    fun cvar hcvar => Mem.cells_setResolved_of_ne (h.busy.ne_of_resolved (h.bases cvar hcvar))
  have hvars : ∀ cvar ∈ G.baseclassVars c, ∀ v ∈ cvar.attrs, (s.setResolved c).varAttr v = s.varAttr v :=
    fun _ _ _ _ => rfl
  refine ⟨?_, hmerged.numbered, fun cvar hcvar => ?_, fun a => ?_, fun a ha => ?_, fun cvar hcvar v hv => ?_, hnames⟩
  · rw [Mem.cells_setResolved_self]
    exact hmerged.idx
  · rw [Mem.Resolved, hbase cvar hcvar, Mem.cells_setResolved_self]
    exact ⟨h.bases cvar hcvar, Nat.lt_succ_of_le (h.busy.inv.class_le _)⟩
  · rw [Mem.cells_setResolved_self]
    exact (hmerged.vals a).trans (overriding_decl_congr hbase hvars a).symm
  · rw [Mem.cells_setResolved_self]
    exact (hmerged.vals a).trans (hmerged.held a ha)
  · obtain ⟨a, ha, hbound, hname⟩ := h.bound cvar hcvar v hv
    exact ⟨a, (hscope a).mp ha, hbound, hname⟩

/-- **A class whose declarations were gone through is resolved.** -/
theorem Stage.setResolved (h : Stage G s₀ c (G.baseclassVars c) s)
    (hnames : G.loaded c = true → ((G.attrs c).map G.attrName).Nodup) :
    Inv G (s.setResolved c) ∧ Grows G (· ≠ c) s (s.setResolved c) := by
  have hcell : ∀ d, d ≠ c → (s.setResolved c).cells d = s.cells d := fun _ => Mem.cells_setResolved_of_ne
  have hstarted : ∀ d, s.Started d → (s.setResolved c).Started d := by
    intro d hd
    by_cases hdc : d = c
    · rw [hdc, Mem.Started, Mem.cells_setResolved_self]
      exact h.busy.started
    · rw [Mem.Started, hcell d hdc]
      exact hd
  have hgrows : Grows G (· ≠ c) s (s.setResolved c) :=
    ⟨fun d hd _ => hcell d hd, fun _ _ _ => rfl, hstarted, fun _ _ => rfl⟩
  have hattrs : Numbered G (s.setResolved c) :=
    ⟨h.busy.inv.attrs.numid_le, h.busy.inv.attrs.numid_inj, fun a ha => hstarted _ (h.busy.inv.attrs.started a ha),
      h.busy.inv.attrs.numbered, h.busy.inv.attrs.named⟩
  refine ⟨h.busy.inv.update h.busy.notResolved hattrs hcell hgrows (hstarted c h.busy.started) (Nat.le_succ _) ?_
    fun _ => h.done hnames, hgrows⟩
  rw [Mem.cells_setResolved_self]
  exact Nat.le_refl _

/-- **The mark on a class** keeps the invariant. -/
theorem Inv.setInProgress (h : Inv G s) (hc : ¬s.Started c) :
    Inv G (s.setInProgress c) ∧ Grows G (fun _ => True) s (s.setInProgress c) ∧ ¬(s.setInProgress c).Resolved c := by
  have hcell : ∀ d, d ≠ c → (s.setInProgress c).cells d = s.cells d := fun _ => Mem.cells_setInProgress_of_ne
  have hne : ∀ d, s.Started d → d ≠ c := by
    rintro d hd rfl
    exact hc hd
  have hstarted : ∀ d, s.Started d → (s.setInProgress c).Started d := by
    intro d hd
    rw [Mem.Started, hcell d (hne d hd)]
    exact hd
  have hgrows : Grows G (fun _ => True) s (s.setInProgress c) :=
    ⟨fun d _ hd => hcell d (hne d hd), fun _ _ _ => rfl, hstarted, fun _ _ => rfl⟩
  have hattrs : Numbered G (s.setInProgress c) :=
    ⟨h.attrs.numid_le, h.attrs.numid_inj, fun a ha => hstarted _ (h.attrs.started a ha), h.attrs.numbered,
      h.attrs.named⟩
  have hnotResolved : ¬s.Resolved c := fun hres => hc (h.started c hres)
  have hnot : ¬(s.setInProgress c).Resolved c := by
    rw [Mem.Resolved, Mem.cells_setInProgress_self]
    exact hnotResolved
  refine ⟨h.update hnotResolved hattrs hcell (hgrows.mono fun _ _ => trivial) ?_ (Nat.le_refl _) ?_
    fun hres => absurd hres hnot, hgrows, hnot⟩
  · rw [Mem.Started, Mem.cells_setInProgress_self]
  · rw [Mem.cells_setInProgress_self]
    exact h.class_le c

/-- A class is marked. -/
theorem registering_setInProgress (h : Inv G s) (hc : ¬s.Started c) :
    Registering G (s.setInProgress c) c [] (s.setInProgress c) ∧ Grows G (fun _ => True) s (s.setInProgress c) := by
  obtain ⟨hinv, hgrows, hnot⟩ := h.setInProgress hc
  obtain ⟨hidx, hvals⟩ := h.fresh c hc
  have hstart : (s.setInProgress c).Started c := by rw [Mem.Started, Mem.cells_setInProgress_self]
  have hmerged : Merged (s.setInProgress c) c (fun a => a ∈ [] ∧ G.loaded c = true) fun _ => none := by
    refine ⟨?_, fun a ha => absurd ha.1 List.not_mem_nil, fun a => ?_, fun _ _ => rfl⟩
    · rw [Mem.cells_setInProgress_self]
      show (s.cells c).attrIdx.Holds _ _
      rw [hidx]
      refine (KndSet.holds_new _).congr fun a => ?_
      exact iff_of_false id fun ha => absurd ha.1 List.not_mem_nil
    · rw [Mem.cells_setInProgress_self]
      exact congrFun hvals a
  refine ⟨⟨⟨hinv, .refl _, hstart, hnot⟩, hmerged, fun a ha _ => ?_, fun a ha => absurd ha List.not_mem_nil,
    fun _ => List.nodup_nil⟩, hgrows⟩
  -- an attribute that has a number belongs to a class that was started
  refine Classical.byContradiction fun hnum => hc ?_
  exact G.parentClass_eq c a ha ▸ h.attrs.started a hnum

/-- A check of `uniq` leaves memory as it is. -/
theorem yields_resolveUniq (h : Stage G s₀ c (G.baseclassVars c) s) (name : Name) :
    Yields (resolveUniq G c name) s (fun _ => Stage G s₀ c (G.baseclassVars c)) (Busy G s₀ c) := by
  refine Yields.get_bind ?_
  cases kndClassGetAttr G (s.cells c).attrIdx name with
  | none => exact h.busy
  | some _ => exact h

/-- **`knd_class_resolve` meets its specification**, however deep it is followed. -/
theorem resolves_kndClassResolve (G : Schema) (depth : Nat) : Resolves G (kndClassResolve G depth) := by
  induction depth with
  | zero => exact fun s c hinv => ⟨hinv, .refl s⟩
  | succ depth ih =>
      intro s c hinv
      refine Yields.get_bind (Yields.ite (fun _ => ⟨hinv, .refl s⟩) fun _ => Yields.ite (fun _ => ⟨hinv, .refl s⟩)
        fun hprog => ?_)
      obtain ⟨hreg, hmark⟩ := registering_setInProgress hinv hprog
      -- failures in the class leave it in progress
      have hleft : ∀ s', Busy G (s.setInProgress c) c s' → Inv G s' ∧ Grows G (fun _ => True) s s' :=
        fun s' h => ⟨h.inv, hmark.of_start hprog h.grows⟩
      refine Yields.bind (I := fun _ s' => s' = s.setInProgress c) rfl fun _ s' hs' => ?_
      subst hs'
      refine Yields.mono (I := fun _ s' => Inv G s' ∧ Grows G (fun _ => True) s s' ∧ s'.Resolved c) ?_
        (fun _ _ hI => hI) hleft
      refine (yields_resolvePrimaryAttrs hreg).bind fun _ s₁ h₁ => ?_
      refine (yields_finish (I := fun _ s' => s' = s₁) _ rfl h₁.busy).bind fun _ s' hs' => ?_
      subst hs'
      have hstage : Stage G (s.setInProgress c) c [] s' :=
        ⟨h₁.busy, h₁.merged.congr (fun a => by simp) fun _ => rfl, fun _ h => absurd h List.not_mem_nil,
          fun _ h => absurd h List.not_mem_nil⟩
      refine (Yields.forM (Stage G (s.setInProgress c) c) hstage fun pre cvar post s₂ hsplit h₂ =>
        h₂.yields_resolveClassVar ih hsplit).bind fun _ s₂ h₂ => ?_
      refine (Yields.forM (fun _ => Stage G (s.setInProgress c) c (G.baseclassVars c)) h₂
        fun _ name _ s₃ _ h₃ => yields_resolveUniq h₃ name).bind fun _ s₃ h₃ => ?_
      obtain ⟨hinv', hgrows⟩ := h₃.setResolved h₁.names
      refine ⟨hinv', hmark.of_start hprog (h₃.busy.grows.trans hgrows), ?_⟩
      rw [Mem.Resolved, Mem.cells_setResolved_self]

/-! ## (7) Runs -/

/-- **The invariant holds in every run.** -/
theorem inv_of_resolutions {s : Mem} (h : Resolutions G s) : Inv G s := by
  refine h.invariant (inv_initial G) fun s request hinv _ => ?_
  have hyields := (resolves_kndClassResolve G request.1).resolveOnce s request.2 hinv
  exact Yields.iff_finalState.mp (hyields.mono (fun _ _ hI => hI.1) fun _ hQ => hQ.1)

/-- Everything above a resolved class is resolved. -/
theorem Inv.resolved_of_above (h : Inv G s) (hc : s.Resolved c) {b : ClassAddr} (hpath : ReflTransGen G.IsBase c b) :
    s.Resolved b := by
  induction hpath with
  | refl => exact hc
  | tail _ hbase ih =>
      obtain ⟨cvar, hcvar, rfl⟩ := hbase
      exact ((h.done _ ih).bases cvar hcvar).1

end Classes

end Knowdy.AttrResolve
