import Knowdy.AttrMerging

/-! # Names of attributes in a class

`knd_class_get_attr` looks an attribute up by its name among all that a class has, its own and the inherited ones.

* `Unambiguous` — a name stands for one attribute, the same one in every order of bases and of resolution.
* `Apart` — what the declarations have to do for it.
* `kndClassGetAttr_eq_some_iff` — what is found where names differ.
* `unambiguous_iff` — **names are unambiguous exactly where the declarations keep them apart**: the code compares
  the names that one loaded class declares, and no others. -/

namespace Knowdy.AttrResolve

open Relation

variable {G : Schema} {s : Mem} {c : ClassAddr}

/-- **Names are unambiguous in a class**, which is resolved in the memory `s`. -/
structure Unambiguous (G : Schema) (s : Mem) (c : ClassAddr) : Prop where
  /-- Two attributes of the class have different names. -/
  distinct : ∀ a b, G.HasAttr c a → G.HasAttr c b → G.attrName a = G.attrName b → a = b
  /-- In every order of bases and of resolution the same attribute is found. -/
  stable : ∀ G' s', Reordered G G' → Resolutions G' s' → s'.Resolved c → ∀ name,
    kndClassGetAttr G' (s'.cells c).attrIdx name = kndClassGetAttr G (s.cells c).attrIdx name

/-- **Names are kept apart** at a class and above it. -/
structure Apart (G : Schema) (c : ClassAddr) : Prop where
  /-- Two classes declare attributes of different names. -/
  between : ∀ h h', ReflTransGen G.IsBase c h → ReflTransGen G.IsBase c h' → h ≠ h' →
    ∀ a ∈ G.attrs h, ∀ b ∈ G.attrs h', G.attrName a ≠ G.attrName b
  /-- So does a class that is not loaded. -/
  within : ∀ h, ReflTransGen G.IsBase c h → G.loaded h = false → ((G.attrs h).map G.attrName).Nodup

/-- **What is found** where names differ: the attribute of the name that has a reference. -/
theorem kndClassGetAttr_eq_some_iff (h : Inv G s) (hc : s.Resolved c)
    (hdistinct : ∀ a b, G.HasAttr c a → G.HasAttr c b → G.attrName a = G.attrName b → a = b) {name : Name}
    {a : AttrAddr} :
    kndClassGetAttr G (s.cells c).attrIdx name = some a ↔ G.InScope c a ∧ G.attrName a = name := by
  have hidx := (h.done c hc).idx
  constructor
  · intro hget
    obtain ⟨hmem, hname⟩ := of_kndClassGetAttr hget
    exact ⟨hidx.mem_elems.mp hmem, hname⟩
  · rintro ⟨ha, hname⟩
    cases hget : kndClassGetAttr G (s.cells c).attrIdx name with
    | none =>
        rw [kndClassGetAttr_eq] at hget
        have hnot := List.find?_eq_none.mp hget a (hidx.mem_elems.mpr ha)
        exact absurd (decide_eq_true hname) hnot
    | some b =>
        obtain ⟨hmem, hname'⟩ := of_kndClassGetAttr hget
        have hb := hidx.mem_elems.mp hmem
        rw [hdistinct b a hb.hasAttr ha.hasAttr (hname'.trans hname.symm)]

/-- Names that are kept apart differ. The code has checked those of the loaded classes. -/
theorem Apart.distinct (h : Apart G c) (hinv : Inv G s) (hc : s.Resolved c) (a b : AttrAddr) (ha : G.HasAttr c a)
    (hb : G.HasAttr c b) (hname : G.attrName a = G.attrName b) : a = b := by
  obtain ⟨d, hd, had⟩ := ha
  obtain ⟨d', hd', hbd'⟩ := hb
  by_cases hdd : d = d'
  · subst hdd
    have hnodup : ((G.attrs d).map G.attrName).Nodup := by
      cases hloaded : G.loaded d with
      | true => exact (hinv.done d (hinv.resolved_of_above hc hd)).names hloaded
      | false => exact h.within d hd hloaded
    exact List.inj_on_of_nodup_map hnodup had hbd' hname
  · exact absurd hname (h.between d d' hd hd' hdd a had b hbd')

/-- **When names are unambiguous.** For every repository, every order of bases and of resolution, and every class
that is resolved: a name stands for one attribute, and `knd_class_get_attr` finds the same one in every order, if and
only if no two classes at or above it declare attributes of one name, and no class there that a commit declares
declares two of one name. -/
theorem unambiguous_iff (h : Resolutions G s) (hc : s.Resolved c) : Unambiguous G s c ↔ Apart G c := by
  have hinv := inv_of_resolutions h
  constructor
  · intro hnames
    refine ⟨fun d d' hd hd' hne a ha b hb hname => hne ?_, fun d hd _ => ?_⟩
    · have hab := hnames.distinct a b ⟨d, hd, ha⟩ ⟨d', hd', hb⟩ hname
      rw [← G.parentClass_eq d a ha, ← G.parentClass_eq d' b hb, hab]
    · exact (G.nodup_attrs d).map_on fun a ha b hb hname => hnames.distinct a b ⟨d, hd, ha⟩ ⟨d, hd, hb⟩ hname
  · intro hapart
    have hdistinct := hapart.distinct hinv hc
    refine ⟨hdistinct, fun G' s' hG' hs' hc' name => Option.ext fun a => ?_⟩
    have hdistinct' : ∀ a b, G'.HasAttr c a → G'.HasAttr c b → G'.attrName a = G'.attrName b → a = b := by
      intro a b ha hb hname
      rw [hG'.attrName] at hname
      exact hdistinct a b ((hG'.hasAttr_iff c a).mp ha) ((hG'.hasAttr_iff c b).mp hb) hname
    rw [kndClassGetAttr_eq_some_iff hinv hc hdistinct,
      kndClassGetAttr_eq_some_iff (inv_of_resolutions hs') hc' hdistinct', hG'.inScope_iff, hG'.attrName]

/-! ## Two classes -/

/-- The names `band` and `place`. -/
def bandName : Name := [98, 97, 110, 100]

/-- See `bandName`. -/
def placeName : Name := [112, 108, 97, 99, 101]

/-- `Event` (0) declares the attribute 0, `Concert` (1) the attribute 1 of a given name. -/
def concerts (name : Name) : Schema where
  attrs c := if c ≤ 1 then [c] else []
  parentClass a := a
  attrName a := if a = 0 then placeName else name
  baseclassVars c := if c = 1 then [{ entry := 0 }] else []
  varParent _ := 1
  varName _ := []
  loaded _ := true
  parentClass_eq c a ha := by
    by_cases hc : c ≤ 1
    · rw [if_pos hc] at ha
      exact List.mem_singleton.mp ha
    · rw [if_neg hc] at ha
      cases ha
  nodup_attrs c := by
    by_cases hc : c ≤ 1
    · rw [if_pos hc]
      exact List.nodup_singleton c
    · rw [if_neg hc]
      exact List.nodup_nil
  varParent_eq c cvar hcvar v hv := by
    by_cases hc : c = 1
    · rw [if_pos hc, List.mem_singleton] at hcvar
      subst hcvar
      cases hv
    · rw [if_neg hc] at hcvar
      cases hcvar
  nodup_vars c := by
    by_cases hc : c = 1
    · rw [if_pos hc]
      exact List.nodup_nil
    · rw [if_neg hc]
      exact List.nodup_nil

/-- A band plays at the place of the event. -/
theorem unambiguous_iff_concerts :
    Unambiguous (concerts bandName) (Mem.initial.resolve (concerts bandName) (2, 1)) 1 ↔ Apart (concerts bandName) 1 :=
  unambiguous_iff (.next .refl trivial) (by decide +kernel)

/-- **An own attribute may have the name of an inherited one.** Then the order of resolution decides which of them is
found. -/
theorem not_unambiguous_concerts :
    (Mem.initial.resolve (concerts placeName) (2, 1)).Resolved 1 ∧
      kndClassGetAttr (concerts placeName) ((Mem.initial.resolve (concerts placeName) (2, 1)).cells 1).attrIdx
        placeName = some 1 ∧
      kndClassGetAttr (concerts placeName)
        (((Mem.initial.resolve (concerts placeName) (1, 0)).resolve (concerts placeName) (2, 1)).cells 1).attrIdx
        placeName = some 0 ∧
      ¬Unambiguous (concerts placeName) (Mem.initial.resolve (concerts placeName) (2, 1)) 1 := by
  refine ⟨by decide +kernel, by decide +kernel, by decide +kernel, fun h => ?_⟩
  have hbase : (concerts placeName).IsBase 1 0 := ⟨{ entry := 0 }, List.mem_singleton_self _, rfl⟩
  have hsame := h.distinct 0 1 ⟨0, .single hbase, List.mem_singleton_self _⟩ ⟨1, .refl, List.mem_singleton_self _⟩ rfl
  cases hsame

end Knowdy.AttrResolve
