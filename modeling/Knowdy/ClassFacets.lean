import Mathlib.Data.List.Induction
import Mathlib.Data.List.Nodup
import Mathlib.Data.List.Perm.Basic
import Mathlib.Logic.Relation

/-! # Facets of a set of classes

`create_subsets` of `knd_class.select.c` sorts the elements of a set of descendants of a class into facets, one for each
direct child of the class: an element goes to the facet of the first of its ancestors that is one.

* `Hierarchy` — children and ancestors of classes.
* `Facets` — the facets below one facet; `updateSubset`, `facetizeClass`, `createSubsets` — the code.
* `Partitions` — each element is in one facet, of a child that it is or descends from, and the counters add up.
* `partitions_iff` — they do, if and only if every direct child of the class in the set descends from another one. -/

namespace Knowdy.ClassFacets

open Relation (TransGen)

/-! ## (1) Classes and facets -/

/-- The address of a class entry. -/
abbrev Entry : Type := Nat

/-- **A class hierarchy**, as it is after the classes were resolved. -/
structure Hierarchy where
  /-- `class->children`. -/
  children : Entry → List Entry
  /-- `class->ancestors`. -/
  ancestors : Entry → List Entry
  /-- The ancestors are those that lead to the class over children. -/
  mem_ancestors_iff : ∀ a e, a ∈ ancestors e ↔ TransGen (fun x y => y ∈ children x) a e
  /-- No class is its own ancestor. -/
  acyclic : ∀ e, e ∉ ancestors e

/-- A list of **`struct kndClassFacet`**, linked by `next`. -/
inductive Facets
  /-- The null pointer. -/
  | nil
  /-- A facet: `base`, `num_elems`, `elems`, `children` and `next`. -/
  | cons (base : Entry) (numElems : Nat) (elems : List Entry) (children next : Facets)

namespace Facets

/-- Is there a facet of a class in the list? -/
def has (base : Entry) : Facets → Bool
  | nil => false
  | cons b _ _ _ next => b = base || next.has base

/-- The classes of the facets. -/
def bases : Facets → List Entry
  | nil => []
  | cons b _ _ _ next => b :: next.bases

/-- The elements in the facets and below them. -/
def placed : Facets → List Entry
  | nil => []
  | cons _ _ elems children next => elems ++ children.placed ++ next.placed

/-- The sum of the counters of the facets. -/
def total : Facets → Nat
  | nil => 0
  | cons _ numElems _ _ next => numElems + next.total

/-- An element is in the facet of a class, or below it. -/
def InFacet (c e : Entry) : Facets → Prop
  | nil => False
  | cons b _ elems children next => (b = c ∧ e ∈ elems ++ children.placed) ∨ next.InFacet c e

/-- The list with a facet of a class, made at its head if there is none. -/
def ensure (base : Entry) (facets : Facets) : Facets :=
  if facets.has base then facets else .cons base 0 [] .nil facets

/-- A change of the first facet of a class. -/
def modify (base : Entry) (f : Nat → List Entry → Facets → Option (Nat × List Entry × Facets)) :
    Facets → Option Facets
  | nil => none
  | cons b numElems elems children next =>
      if b = base then (f numElems elems children).map fun r => .cons b r.1 r.2.1 r.2.2 next
      else (next.modify base f).map fun next => .cons b numElems elems children next

end Facets

/-! ## (2) The code -/

variable (G : Hierarchy)

/-- The loop of `update_subset` that looks for the immediate child. -/
def immediateChild (elem : Entry) : List Entry → Option Entry
  | [] => none
  | child :: next =>
      if child = elem then none
      else if child ∈ G.ancestors elem then some child
      else immediateChild elem next

/-- **`update_subset`**, no deeper than a bound. -/
def updateSubset : Nat → Entry → Entry → Facets → Option Facets
  | 0, _, _, _ => none
  | depth + 1, facetEntry, elem, facets =>
      (facets.ensure facetEntry).modify facetEntry fun numElems elems children =>
        match immediateChild G elem (G.children facetEntry) with
        | some child => (updateSubset depth child elem children).map fun children => (numElems + 1, elems, children)
        -- a terminal class
        | none => some (numElems + 1, elem :: elems, children)

/-- **`facetize_class`.** -/
def facetizeClass (depth : Nat) (base entry : Entry) (facets : Facets) : Option Facets :=
  match (G.ancestors entry).find? (· ∈ G.children base) with
  | none => some facets
  | some ref => updateSubset G depth ref entry facets

/-- **`create_subsets`**: the facets below that of the class. -/
def createSubsets (depth : Nat) (base : Entry) (set : List Entry) : Option Facets :=
  set.foldlM (fun facets entry => facetizeClass G depth base entry facets) .nil

/-! ## (3) Partitions -/

/-- **The facets partition a set.** -/
structure Partitions (base : Entry) (set : List Entry) (facets : Facets) : Prop where
  /-- Each element is placed once. -/
  placed : facets.placed.Perm set
  /-- There is one facet for a class. -/
  bases : facets.bases.Nodup
  /-- It is a direct child, which the elements are or descend from. -/
  child : ∀ c e, facets.InFacet c e → c ∈ G.children base ∧ (c ∈ G.ancestors e ∨ c = e)
  /-- The counters add up to the size of the set. -/
  total : facets.total = set.length

/-- **`create_subsets` returns a partition.** -/
def CreatesPartition (base : Entry) (set : List Entry) : Prop :=
  ∃ depth facets, createSubsets G depth base set = some facets ∧ Partitions G base set facets

/-- **The direct children in the set** descend from other ones. -/
def ChildrenDescend (base : Entry) (set : List Entry) : Prop :=
  ∀ e ∈ set, e ∈ G.children base → ∃ c ∈ G.children base, c ∈ G.ancestors e

variable {G} {c e elem base : Entry} {facets facets' : Facets} {depth : Nat}

/-- **One element is added** to the facet of a class. -/
structure Added (c elem : Entry) (facets facets' : Facets) : Prop where
  /-- The elements. -/
  placed : facets'.placed.Perm (elem :: facets.placed)
  /-- The classes. -/
  nodup : facets.bases.Nodup → facets'.bases.Nodup
  /-- The facets. -/
  inFacet : ∀ c' e', facets'.InFacet c' e' → facets.InFacet c' e' ∨ (c' = c ∧ e' = elem)
  /-- The counters. -/
  total : facets'.total = facets.total + 1

/-! ### Changing a facet -/

namespace Facets

theorem has_iff : facets.has c = true ↔ c ∈ facets.bases := by
  induction facets with
  | nil => exact iff_of_false Bool.false_ne_true List.not_mem_nil
  | cons b numElems elems children next _ ih =>
      rw [has, bases, Bool.or_eq_true, decide_eq_true_eq, ih, List.mem_cons, eq_comm]

theorem has_ensure (base : Entry) (facets : Facets) : (facets.ensure base).has base = true := by
  rw [ensure]
  by_cases h : facets.has base = true
  · rw [if_pos h, h]
  · rw [if_neg h, has]
    simp

theorem placed_ensure (base : Entry) (facets : Facets) : (facets.ensure base).placed = facets.placed := by
  rw [ensure]
  split_ifs <;> rfl

theorem total_ensure (base : Entry) (facets : Facets) : (facets.ensure base).total = facets.total := by
  rw [ensure]
  split_ifs
  · rfl
  · rw [total, Nat.zero_add]

theorem nodup_ensure (base : Entry) (h : facets.bases.Nodup) : (facets.ensure base).bases.Nodup := by
  rw [ensure]
  split_ifs with hhas
  · exact h
  · rw [has_iff] at hhas
    exact List.nodup_cons.mpr ⟨hhas, h⟩

theorem inFacet_ensure (h : (facets.ensure base).InFacet c e) : facets.InFacet c e := by
  rw [ensure] at h
  split_ifs at h
  · exact h
  · rcases h with ⟨-, hmem⟩ | h
    · exact absurd hmem List.not_mem_nil
    · exact h

variable {f : Nat → List Entry → Facets → Option (Nat × List Entry × Facets)}

/-- **A change that adds an element** to a facet adds it to the list. -/
theorem added_modify
    (hf : ∀ numElems elems children r, f numElems elems children = some r →
      r.1 = numElems + 1 ∧ (r.2.1 ++ r.2.2.placed).Perm (elem :: (elems ++ children.placed)))
    (h : facets.modify base f = some facets') : Added base elem facets facets' ∧ facets'.bases = facets.bases := by
  induction facets generalizing facets' with
  | nil => cases h
  | cons b numElems elems children next _ ih =>
      rw [modify] at h
      by_cases hb : b = base
      · subst hb
        rw [if_pos rfl, Option.map_eq_some_iff] at h
        obtain ⟨r, hr, rfl⟩ := h
        obtain ⟨hcount, hperm⟩ := hf _ _ _ _ hr
        refine ⟨⟨hperm.append_right next.placed, id, ?_, ?_⟩, rfl⟩
        · rintro c' e' (⟨rfl, hmem⟩ | hnext)
          · rcases List.mem_cons.mp (hperm.mem_iff.mp hmem) with rfl | hmem
            · exact .inr ⟨rfl, rfl⟩
            · exact .inl (.inl ⟨rfl, hmem⟩)
          · exact .inl (.inr hnext)
        · rw [total, total, hcount]
          omega
      · rw [if_neg hb, Option.map_eq_some_iff] at h
        obtain ⟨next', hnext', rfl⟩ := h
        obtain ⟨hadded, hbases⟩ := ih hnext'
        have hsame : (Facets.cons b numElems elems children next').bases =
            (Facets.cons b numElems elems children next).bases := by rw [bases, bases, hbases]
        refine ⟨⟨?_, fun hnodup => hsame ▸ hnodup, ?_, ?_⟩, hsame⟩
        · rw [placed, placed]
          exact (hadded.placed.append_left _).trans List.perm_middle
        · rintro c' e' (hfacet | hnext)
          · exact .inl (.inl hfacet)
          · exact (hadded.inFacet c' e' hnext).imp_left .inr
        · rw [total, total, hadded.total, Nat.add_assoc]

/-- A change that returns. -/
theorem isSome_modify (hf : ∀ numElems elems children, (f numElems elems children).isSome) (h : facets.has base) :
    (facets.modify base f).isSome := by
  induction facets with
  | nil => exact absurd h Bool.false_ne_true
  | cons b numElems elems children next _ ih =>
      rw [modify]
      by_cases hb : b = base
      · rw [if_pos hb, Option.isSome_map]
        exact hf _ _ _
      · rw [has, decide_eq_false hb, Bool.false_or] at h
        rw [if_neg hb, Option.isSome_map]
        exact ih h

end Facets

/-! ### Adding an element -/

/-- **`update_subset`** adds the element to the facet. -/
theorem added_updateSubset (h : updateSubset G depth c elem facets = some facets') : Added c elem facets facets' := by
  induction depth generalizing c facets facets' with
  | zero => cases h
  | succ depth ih =>
      rw [updateSubset] at h
      have hadded : Added c elem (facets.ensure c) facets' := by
        refine (Facets.added_modify (fun numElems elems children r hr => ?_) h).1
        cases hchild : immediateChild G elem (G.children c) with
        | none =>
            simp only [hchild] at hr
            obtain rfl := Option.some.inj hr
            exact ⟨rfl, .refl _⟩
        | some child =>
            simp only [hchild, Option.map_eq_some_iff] at hr
            obtain ⟨children', hchildren', rfl⟩ := hr
            exact ⟨rfl, ((ih hchildren').placed.append_left elems).trans List.perm_middle⟩
      refine ⟨?_, fun hnodup => hadded.nodup (Facets.nodup_ensure c hnodup), fun c' e' hin => ?_, ?_⟩
      · have hplaced := hadded.placed
        rw [Facets.placed_ensure] at hplaced
        exact hplaced
      · exact (hadded.inFacet c' e' hin).imp_left Facets.inFacet_ensure
      · rw [hadded.total, Facets.total_ensure]

theorem immediateChild_spec {child : Entry} {children : List Entry} (h : immediateChild G elem children = some child) :
    child ∈ children ∧ child ∈ G.ancestors elem := by
  induction children with
  | nil => cases h
  | cons other children ih =>
      rw [immediateChild] at h
      split_ifs at h with hself hanc
      · obtain rfl := Option.some.inj h
        exact ⟨List.mem_cons_self .., hanc⟩
      · exact (ih h).imp_left (List.mem_cons_of_mem _)

/-- The ancestors of an element below a class. -/
def between (G : Hierarchy) (c elem : Entry) : List Entry :=
  (G.ancestors elem).filter (c ∈ G.ancestors ·)

/-- They are fewer below a child. -/
theorem length_between_lt {child : Entry} (hchild : child ∈ G.children c) (hanc : child ∈ G.ancestors elem) :
    (between G child elem).length < (between G c elem).length := by
  have hbelow : c ∈ G.ancestors child := (G.mem_ancestors_iff c child).mpr (.single hchild)
  have hsub : (between G child elem).Sublist ((between G c elem).filter (· ≠ child)) := by
    rw [between, between, List.filter_filter]
    refine List.monotone_filter_right _ fun a ha => ?_
    rw [decide_eq_true_eq] at ha
    have htrans : c ∈ G.ancestors a := (G.mem_ancestors_iff c a).mpr
      (.head hchild ((G.mem_ancestors_iff child a).mp ha))
    have hne : a ≠ child := by
      rintro rfl
      exact G.acyclic a ha
    simp [htrans, hne]
  have hmem : child ∈ between G c elem := by
    rw [between, List.mem_filter, decide_eq_true_eq]
    exact ⟨hanc, hbelow⟩
  exact Nat.lt_of_le_of_lt hsub.length_le (List.length_filter_lt_length_iff_exists.mpr ⟨child, hmem, by simp⟩)

/-- **`update_subset` returns.** -/
theorem isSome_updateSubset (h : (between G c elem).length < depth) (facets : Facets) :
    (updateSubset G depth c elem facets).isSome := by
  induction depth generalizing c facets with
  | zero => exact absurd h (Nat.not_lt_zero _)
  | succ depth ih =>
      rw [updateSubset]
      refine Facets.isSome_modify (fun numElems elems children => ?_) (Facets.has_ensure c facets)
      cases hchild : immediateChild G elem (G.children c) with
      | none => rfl
      | some child =>
          obtain ⟨hmem, hanc⟩ := immediateChild_spec hchild
          have hlt := length_between_lt hmem hanc
          simp only [Option.isSome_map]
          exact ih (by omega) children

/-! ### Facetizing a set -/

/-- The direct child in whose facet an element is placed. -/
def facetOf (G : Hierarchy) (base e : Entry) : Option Entry :=
  (G.ancestors e).find? (· ∈ G.children base)

theorem isSome_facetOf_iff : (facetOf G base e).isSome = true ↔ ∃ c ∈ G.children base, c ∈ G.ancestors e := by
  rw [facetOf, List.find?_isSome]
  constructor
  · rintro ⟨c, hanc, hchild⟩
    exact ⟨c, of_decide_eq_true hchild, hanc⟩
  · rintro ⟨c, hchild, hanc⟩
    exact ⟨c, hanc, decide_eq_true hchild⟩

/-- **The elements of a set that descend from a direct child are placed.** -/
structure Facetized (G : Hierarchy) (base : Entry) (set : List Entry) (facets : Facets) : Prop where
  /-- The elements. -/
  placed : facets.placed.Perm (set.filter fun e => (facetOf G base e).isSome)
  /-- The classes. -/
  bases : facets.bases.Nodup
  /-- The facets. -/
  child : ∀ c e, facets.InFacet c e → c ∈ G.children base ∧ c ∈ G.ancestors e
  /-- The counters. -/
  total : facets.total = (set.filter fun e => (facetOf G base e).isSome).length

/-- **`facetize_class`** places one more element. -/
theorem Facetized.facetizeClass {set : List Entry} (hset : Facetized G base set facets)
    (h : facetizeClass G depth base elem facets = some facets') : Facetized G base (set ++ [elem]) facets' := by
  rw [ClassFacets.facetizeClass] at h
  cases hfacet : (G.ancestors elem).find? (· ∈ G.children base) with
  | none =>
      -- the element is dropped
      simp only [hfacet, Option.some.injEq] at h
      subst h
      have hdropped : (set ++ [elem]).filter (fun e => (facetOf G base e).isSome) =
          set.filter fun e => (facetOf G base e).isSome := by
        simp [List.filter_append, facetOf, hfacet]
      exact ⟨hdropped ▸ hset.placed, hset.bases, hset.child, hdropped ▸ hset.total⟩
  | some ref =>
      simp only [hfacet] at h
      have hkept : (set ++ [elem]).filter (fun e => (facetOf G base e).isSome) =
          (set.filter fun e => (facetOf G base e).isSome) ++ [elem] := by
        simp [List.filter_append, facetOf, hfacet]
      have hadded := added_updateSubset h
      refine ⟨?_, hadded.nodup hset.bases, fun c e hin => ?_, ?_⟩
      · rw [hkept]
        exact (hadded.placed.trans (hset.placed.cons elem)).trans (List.perm_append_singleton _ _).symm
      · rcases hadded.inFacet c e hin with hold | ⟨rfl, rfl⟩
        · exact hset.child c e hold
        · have hchild : decide (c ∈ G.children base) = true :=
            List.find?_some (p := fun x => decide (x ∈ G.children base)) hfacet
          exact ⟨of_decide_eq_true hchild, List.mem_of_find?_eq_some hfacet⟩
      · rw [hkept, hadded.total, hset.total, List.length_append, List.length_singleton]

/-- **`create_subsets`**, over the whole set. -/
theorem facetized_createSubsets {set : List Entry} (h : createSubsets G depth base set = some facets) :
    Facetized G base set facets := by
  rw [createSubsets] at h
  induction set using List.reverseRecOn generalizing facets with
  | nil =>
      obtain rfl := Option.some.inj h
      exact ⟨.refl _, List.nodup_nil, fun _ _ hin => hin.elim, rfl⟩
  | append_singleton set elem ih =>
      rw [List.foldlM_append, Option.bind_eq_bind, Option.bind_eq_some_iff] at h
      obtain ⟨mid, hmid, hlast⟩ := h
      rw [List.foldlM_cons, Option.bind_eq_bind, Option.bind_eq_some_iff] at hlast
      obtain ⟨last, hlast, hpure⟩ := hlast
      obtain rfl := Option.some.inj hpure
      exact (ih hmid).facetizeClass hlast

/-- A depth for a set. -/
theorem exists_depth (G : Hierarchy) (set : List Entry) : ∃ depth, ∀ e ∈ set, (G.ancestors e).length < depth := by
  induction set with
  | nil => exact ⟨0, fun e he => absurd he List.not_mem_nil⟩
  | cons elem set ih =>
      obtain ⟨depth, hdepth⟩ := ih
      refine ⟨max depth ((G.ancestors elem).length + 1), fun e he => ?_⟩
      rcases List.mem_cons.mp he with rfl | he
      · omega
      · have hlt := hdepth e he
        omega

/-- **`create_subsets` returns.** -/
theorem isSome_createSubsets {set : List Entry} (base : Entry) (h : ∀ e ∈ set, (G.ancestors e).length < depth) :
    (createSubsets G depth base set).isSome := by
  rw [createSubsets]
  generalize Facets.nil = facets
  induction set generalizing facets with
  | nil => rfl
  | cons elem set ih =>
      have hone : (facetizeClass G depth base elem facets).isSome := by
        rw [facetizeClass]
        cases (G.ancestors elem).find? (· ∈ G.children base) with
        | none => rfl
        | some ref =>
            have hle : (between G ref elem).length ≤ (G.ancestors elem).length := List.length_filter_le _ _
            exact isSome_updateSubset (Nat.lt_of_le_of_lt hle (h elem (List.mem_cons_self ..))) facets
      obtain ⟨facets', hfacets'⟩ := Option.isSome_iff_exists.mp hone
      rw [List.foldlM_cons, hfacets', Option.bind_eq_bind, Option.bind_some]
      exact ih (fun e he => h e (List.mem_cons_of_mem _ he)) facets'

/-- **A descendant** is a direct child or descends from one. -/
theorem child_of_mem_ancestors (h : base ∈ G.ancestors e) :
    e ∈ G.children base ∨ ∃ c ∈ G.children base, c ∈ G.ancestors e := by
  rcases Relation.TransGen.head'_iff.mp ((G.mem_ancestors_iff base e).mp h) with ⟨c, hchild, hpath⟩
  rcases Relation.reflTransGen_iff_eq_or_transGen.mp hpath with rfl | hpath
  · exact .inl hchild
  · exact .inr ⟨c, hchild, (G.mem_ancestors_iff c e).mpr hpath⟩

/-! ## (4) When the facets partition the set -/

/-- **Facets partition a set of descendants if and only if** each direct child in it descends from another one: any
other direct child is in no facet. -/
theorem partitions_iff (G : Hierarchy) (base : Entry) (set : List Entry) (hset : ∀ e ∈ set, base ∈ G.ancestors e) :
    CreatesPartition G base set ↔ ChildrenDescend G base set := by
  constructor
  · rintro ⟨depth, facets, hrun, hpart⟩ e he -
    have hperm := (facetized_createSubsets hrun).placed.symm.trans hpart.placed
    exact isSome_facetOf_iff.mp (List.mem_filter.mp (hperm.mem_iff.mpr he)).2
  · intro hdescend
    have hall : ∀ e ∈ set, (facetOf G base e).isSome = true := fun e he =>
      isSome_facetOf_iff.mpr ((child_of_mem_ancestors (hset e he)).elim (hdescend e he) id)
    obtain ⟨depth, hdepth⟩ := exists_depth G set
    obtain ⟨facets, hfacets⟩ := Option.isSome_iff_exists.mp (isSome_createSubsets base hdepth)
    have hdone := facetized_createSubsets hfacets
    have hplaced := hdone.placed
    have htotal := hdone.total
    rw [List.filter_eq_self.mpr hall] at hplaced htotal
    exact ⟨depth, facets, hfacets, hplaced, hdone.bases,
      fun c e hin => (hdone.child c e hin).imp_right .inl, htotal⟩

/-- The children of `grove`. -/
def groveChildren : Entry → List Entry
  | 0 => [1, 2, 3]
  | 1 => [3, 4]
  | 2 => [5]
  | 4 => [6]
  | _ => []

/-- Its ancestors. -/
def groveAncestors : Entry → List Entry
  | 1 | 2 => [0]
  | 3 | 4 => [1, 0]
  | 5 => [2, 0]
  | 6 => [4, 1, 0]
  | _ => []

theorem groveAncestors_child (b : Entry) :
    ∀ c ∈ groveChildren b, b ∈ groveAncestors c ∧ groveAncestors b ⊆ groveAncestors c := by
  match b with
  | 0 | 1 | 2 | 3 | 4 => decide
  | _ + 5 => exact fun c h => absurd h List.not_mem_nil

/-- The ancestors of a class are its parent and those of its parent. -/
theorem groveAncestors_parent {a e : Entry} (h : a ∈ groveAncestors e) :
    ∃ b, e ∈ groveChildren b ∧ b < e ∧ (a = b ∨ a ∈ groveAncestors b) := by
  match e with
  | 0 => cases h
  | 1 => exact ⟨0, by decide, by decide, .inl (List.mem_singleton.mp h)⟩
  | 2 => exact ⟨0, by decide, by decide, .inl (List.mem_singleton.mp h)⟩
  | 3 => exact ⟨1, by decide, by decide, List.mem_cons.mp h⟩
  | 4 => exact ⟨1, by decide, by decide, List.mem_cons.mp h⟩
  | 5 => exact ⟨2, by decide, by decide, List.mem_cons.mp h⟩
  | 6 => exact ⟨4, by decide, by decide, List.mem_cons.mp h⟩
  | _ + 7 => cases h

/-- Two children with children of their own, one of which is a child of the base, too. -/
def grove : Hierarchy where
  children := groveChildren
  ancestors := groveAncestors
  mem_ancestors_iff a e := by
    constructor
    · intro h
      induction e using Nat.strongRecOn with
      | ind e ih =>
          obtain ⟨b, hchild, hlt, rfl | hb⟩ := groveAncestors_parent h
          · exact .single hchild
          · exact .tail (ih b hlt hb) hchild
    · intro h
      induction h with
      | single hchild => exact (groveAncestors_child _ _ hchild).1
      | tail _ hchild ih => exact (groveAncestors_child _ _ hchild).2 ih
  acyclic e := by
    match e with
    | 0 | 1 | 2 | 3 | 4 | 5 | 6 => decide
    | _ + 7 => exact List.not_mem_nil

/-- Descendants below both children, at two depths. The direct child among them descends from another one. -/
theorem partitions_iff_grove : CreatesPartition grove 0 [6, 5, 3, 4] := by
  refine (partitions_iff grove 0 [6, 5, 3, 4] (by decide)).mpr ?_
  unfold ChildrenDescend
  decide

/-- A class, its child and its grandchild. -/
def chain : Hierarchy where
  children
    | 0 => [1]
    | 1 => [2]
    | _ => []
  ancestors
    | 1 => [0]
    | 2 => [1, 0]
    | _ => []
  mem_ancestors_iff a e := by
    constructor
    · intro h
      match a, e, h with
      | 0, 1, _ => exact .single (by simp)
      | 1, 2, _ => exact .single (by simp)
      | 0, 2, _ => exact .head (b := 1) (by simp) (.single (by simp))
      | _ + 1, 1, h => simp at h
      | _ + 2, 2, h => simp at h
    · intro h
      induction h with
      | single hchild =>
          match a, hchild with
          | 0, hchild => simp_all
          | 1, hchild => simp_all
          | _ + 2, hchild => simp at hchild
      | @tail b c _ hchild ih =>
          match b, hchild, ih with
          | 0, _, ih => simp at ih
          | 1, hchild, ih => simp_all
          | _ + 2, hchild, _ => simp at hchild
  acyclic e := by
    match e with
    | 0 => simp
    | 1 => simp
    | 2 => simp
    | _ + 3 => simp

/-- **The child itself is in no facet.** -/
theorem child_dropped : ¬ CreatesPartition chain 0 [1] := by
  rintro ⟨depth, facets, hrun, hpart⟩
  have hplaced := (facetized_createSubsets hrun).placed.symm.trans hpart.placed
  exact absurd hplaced.length_eq (by decide)

end Knowdy.ClassFacets
