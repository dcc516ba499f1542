import Mathlib.Data.Finset.Card
import Mathlib.Data.List.Nodup
import Mathlib.Logic.Relation

/-! # Lists of ancestors copied from the parents

A node of a graph has a list of parents, and its ancestors are collected from theirs: `linkParent anc l b`
puts in front of `l` what the list `anc b` of the parent `b` holds and `l` does not, then `b` itself, which
is not looked for.

* `linkParents` — one parent after the other; `mem_linkParents` its members.
* `nodup_linkParents_iff` — no member is listed twice exactly when no parent is an ancestor of itself and
  no parent comes after itself or after a node it is an ancestor of; `nodup_linkParents_iff_pairwise` says so
  by the relation.
* `ListsClosure` — a list of the nodes that are met, each once.
* `mem_of_reflTransGen` — lists that are collected so hold everything a path of parents meets.
* `acyclic_of_falling` — a number that falls along every edge excludes cycles; `exists_perm_pairwise` — without
  cycles there is an order along the edges.
* `unmarked` — the nodes without a mark, the measure of a walk that marks where it goes. -/

namespace Knowdy

variable {α : Type} [DecidableEq α]

/-! ## (1) Linking -/

/-- **One parent**: its ancestors that are not there yet, then itself. -/
def linkParent (anc : α → List α) (l : List α) (b : α) : List α :=
  b :: (anc b).foldl (fun l a => l.insert a) l

/-- One parent after the other. -/
def linkParents (anc : α → List α) (bs : List α) : List α := bs.foldl (linkParent anc) []

theorem mem_foldl_insert {as l : List α} {x : α} :
    x ∈ as.foldl (fun l a => l.insert a) l ↔ x ∈ as ∨ x ∈ l := by
  induction as generalizing l with
  | nil => simp
  | cons a as ih =>
      rw [List.foldl_cons, ih, List.mem_insert_iff, List.mem_cons]
      tauto

/-- A checked insertion repeats nothing. -/
theorem nodup_foldl_insert {as l : List α} :
    (as.foldl (fun l a => l.insert a) l).Nodup ↔ l.Nodup := by
  induction as generalizing l with
  | nil => rfl
  | cons a as ih =>
      rw [List.foldl_cons, ih]
      by_cases ha : a ∈ l
      · rw [List.insert_of_mem ha]
      · rw [List.insert_of_not_mem ha, List.nodup_cons]
        exact and_iff_right ha

theorem mem_linkParent {anc : α → List α} {l : List α} {b x : α} :
    x ∈ linkParent anc l b ↔ x = b ∨ x ∈ anc b ∨ x ∈ l := by
  rw [linkParent, List.mem_cons, mem_foldl_insert]

theorem nodup_linkParent {anc : α → List α} {l : List α} {b : α} :
    (linkParent anc l b).Nodup ↔ b ∉ anc b ∧ b ∉ l ∧ l.Nodup := by
  rw [linkParent, List.nodup_cons, mem_foldl_insert, nodup_foldl_insert, not_or, and_assoc]

theorem mem_foldl_linkParent {anc : α → List α} {bs l : List α} {x : α} :
    x ∈ bs.foldl (linkParent anc) l ↔ x ∈ l ∨ ∃ b ∈ bs, x = b ∨ x ∈ anc b := by
  induction bs generalizing l with
  | nil => simp
  | cons b bs ih =>
      rw [List.foldl_cons, ih, mem_linkParent, List.exists_mem_cons_iff, ← or_assoc, or_comm (b := x ∈ l),
        or_assoc]

/-- **The members** are the parents and their ancestors. -/
theorem mem_linkParents {anc : α → List α} {bs : List α} {x : α} :
    x ∈ linkParents anc bs ↔ ∃ b ∈ bs, x = b ∨ x ∈ anc b := by
  rw [linkParents, mem_foldl_linkParent]
  simp

/-- The ancestors of the parents alone matter. -/
theorem foldl_linkParent_congr {anc anc' : α → List α} {bs l : List α} (h : ∀ b ∈ bs, anc b = anc' b) :
    bs.foldl (linkParent anc) l = bs.foldl (linkParent anc') l := by
  refine List.foldl_ext _ _ _ fun l b hb => ?_
  rw [linkParent, linkParent, h b hb]

theorem linkParents_congr {anc anc' : α → List α} {bs : List α} (h : ∀ b ∈ bs, anc b = anc' b) :
    linkParents anc bs = linkParents anc' bs := foldl_linkParent_congr h

/-- **When nothing is listed twice.** -/
theorem nodup_linkParents_iff {anc : α → List α} {bs : List α} :
    (linkParents anc bs).Nodup ↔
      (∀ b ∈ bs, b ∉ anc b) ∧ bs.Pairwise fun b b' => b' ≠ b ∧ b' ∉ anc b := by
  suffices hgen : ∀ bs l : List α, (bs.foldl (linkParent anc) l).Nodup ↔
      l.Nodup ∧ (∀ b ∈ bs, b ∉ l) ∧ (∀ b ∈ bs, b ∉ anc b) ∧
        bs.Pairwise fun b b' => b' ≠ b ∧ b' ∉ anc b by
    rw [linkParents, hgen]
    simp
  intro bs
  induction bs with
  | nil => simp
  | cons b bs ih =>
      intro l
      simp only [List.foldl_cons, ih, nodup_linkParent, mem_linkParent, List.pairwise_cons,
        List.forall_mem_cons, not_or]
      -- the later parents are not in the list as it is after the first one
      have hsplit : (∀ b' ∈ bs, b' ≠ b ∧ b' ∉ anc b ∧ b' ∉ l) ↔
          (∀ b' ∈ bs, b' ≠ b ∧ b' ∉ anc b) ∧ ∀ b' ∈ bs, b' ∉ l := by
        simp only [← and_assoc, forall_and]
      rw [hsplit]
      tauto

/-- **The ancestors of a node**: every node that is met along `r`, listed once. -/
structure ListsClosure (r : α → α → Prop) (c : α) (l : List α) : Prop where
  /-- The nodes that are met. -/
  mem : ∀ x, x ∈ l ↔ Relation.TransGen r c x
  /-- Once. -/
  nodup : l.Nodup

/-- When the lists of the parents are right, **nothing is listed twice** exactly when no parent comes after
itself or after a node it is an ancestor of. -/
theorem nodup_linkParents_iff_pairwise {r : α → α → Prop} {anc : α → List α} {bs : List α}
    (hanc : ∀ b ∈ bs, ∀ x, x ∈ anc b ↔ Relation.TransGen r b x) (hacyclic : ∀ b ∈ bs, ¬Relation.TransGen r b b) :
    (linkParents anc bs).Nodup ↔ bs.Pairwise fun b b' => ¬Relation.ReflTransGen r b b' := by
  rw [nodup_linkParents_iff]
  have hself : ∀ b ∈ bs, b ∉ anc b := by
    intro b hb hmem
    exact hacyclic b hb ((hanc b hb b).mp hmem)
  have hpair : ∀ {b b'}, b ∈ bs → (b' ≠ b ∧ b' ∉ anc b ↔ ¬Relation.ReflTransGen r b b') := by
    intro b b' hb
    rw [hanc b hb, Relation.reflTransGen_iff_eq_or_transGen, not_or]
  constructor
  · rintro ⟨-, h⟩
    exact h.imp_of_mem fun hb _ => (hpair hb).mp
  · intro h
    exact ⟨hself, h.imp_of_mem fun hb _ => (hpair hb).mpr⟩

/-! ## (2) Paths -/

section Paths

omit [DecidableEq α]
variable {parents anc : α → List α} {done : α → Prop}

/-- **What a path of parents meets** is in a list that holds the parents and what their lists hold, as far as
their lists do so too. A node that is its own parent is passed over. -/
theorem mem_of_reflTransGen
    (hdone : ∀ c, done c → ∀ b ∈ parents c, b = c ∨ done b ∧ b ∈ anc c ∧ ∀ x ∈ anc b, x ∈ anc c)
    {c x : α} (hpath : Relation.ReflTransGen (fun a b => b ∈ parents a) c x) (hc : done c) (hne : x ≠ c) :
    x ∈ anc c := by
  induction hpath using Relation.ReflTransGen.head_induction_on with
  | refl => exact absurd rfl hne
  | @head c b hb hrest ih =>
      rcases hdone c hc b hb with rfl | ⟨hb', hmem, hsub⟩
      · exact ih hc hne
      · by_cases hxb : x = b
        · rwa [hxb]
        · exact hsub x (ih hb' hxb)

end Paths

omit [DecidableEq α] in
/-- **A number that falls along every edge** excludes cycles. -/
theorem acyclic_of_falling {r : α → α → Prop} {S : α → Prop} (num : α → Nat)
    (h : ∀ a b, S a → r a b → S b ∧ num b < num a) {a : α} (ha : S a) : ¬Relation.TransGen r a a := by
  have hfall : ∀ {b}, Relation.TransGen r a b → S b ∧ num b < num a := by
    intro b hb
    induction hb with
    | single hab => exact h _ _ ha hab
    | tail _ hbc ih =>
        obtain ⟨hs, hlt⟩ := h _ _ ih.1 hbc
        exact ⟨hs, Nat.lt_trans hlt ih.2⟩
  intro hcycle
  exact absurd (hfall hcycle).2 (Nat.lt_irrefl _)

omit [DecidableEq α] in
/-- **An order in which nothing comes before what it depends on.** -/
theorem exists_perm_pairwise (r : α → α → Prop) (hacyclic : ∀ a, ¬Relation.TransGen r a a) (l : List α) :
    ∃ l' : List α, l'.Perm l ∧ l'.Pairwise fun a b => ¬r b a := by
  classical
  -- sorted by the number of elements before
  let below : α → Finset α := fun a => l.toFinset.filter fun x => Relation.TransGen r x a
  let le : α → α → Bool := fun a b => decide ((below a).card ≤ (below b).card)
  have hlt : ∀ a b, a ∈ l → r a b → (below a).card < (below b).card := by
    intro a b ha hab
    refine Finset.card_lt_card (Finset.ssubset_iff_of_subset ?_ |>.mpr ⟨a, ?_, ?_⟩)
    · intro x hx
      obtain ⟨hmem, hxa⟩ := Finset.mem_filter.mp hx
      exact Finset.mem_filter.mpr ⟨hmem, hxa.tail hab⟩
    · exact Finset.mem_filter.mpr ⟨List.mem_toFinset.mpr ha, .single hab⟩
    · intro hself
      exact hacyclic a (Finset.mem_filter.mp hself).2
  have hsorted : (l.mergeSort le).Pairwise fun a b => le a b = true := by
    refine List.pairwise_mergeSort (fun a b c hab hbc => ?_) (fun a b => ?_) l
    · exact decide_eq_true ((of_decide_eq_true hab).trans (of_decide_eq_true hbc))
    · rcases Nat.le_total (below a).card (below b).card with hle | hle
      · simp [le, hle]
      · simp [le, hle]
  refine ⟨l.mergeSort le, List.mergeSort_perm l le, hsorted.imp_of_mem fun {a b} _ hb hle hba => ?_⟩
  have hlt := hlt b a ((List.mergeSort_perm l le).mem_iff.mp hb) hba
  exact absurd (of_decide_eq_true hle) (Nat.not_le_of_lt hlt)

/-! ## (3) Marks -/

omit [DecidableEq α]

/-- **The nodes that are not marked.** -/
def unmarked (nodes : List α) (mark : α → Bool) : Nat := nodes.countP fun a => !mark a

variable {nodes : List α} {mark mark' : α → Bool}

theorem unmarked_le_length : unmarked nodes mark ≤ nodes.length := List.countP_le_length

/-- More marks leave fewer nodes. -/
theorem unmarked_le (h : ∀ a, mark a = true → mark' a = true) : unmarked nodes mark' ≤ unmarked nodes mark := by
  refine List.countP_mono_left fun a _ ha => ?_
  cases hm : mark a with
  | false => rfl
  | true => simp [h a hm] at ha

/-- **A new mark** leaves one node less. -/
theorem unmarked_lt (h : ∀ a, mark a = true → mark' a = true) {a : α} (ha : a ∈ nodes) (hm : mark a = false)
    (hm' : mark' a = true) : unmarked nodes mark' < unmarked nodes mark := by
  obtain ⟨pre, post, rfl⟩ := List.append_of_mem ha
  have hpre : unmarked pre mark' ≤ unmarked pre mark := unmarked_le h
  have hpost : unmarked post mark' ≤ unmarked post mark := unmarked_le h
  simp only [unmarked, List.countP_append, List.countP_cons, hm, hm'] at hpre hpost ⊢
  simp only [Bool.not_false, Bool.not_true, if_true, Bool.false_eq_true, if_false]
  omega

end Knowdy
