import Knowdy.SharedSet
import Knowdy.Lib.Effect
import Mathlib.Data.List.Pairwise

/-! # The set of commits and the order of its traversal

`kndSet` of `knd_set.c`: the same radix tree as the shared set, with the callback traversal
`knd_set_map`. A folder's own elements come before its subfolders, and the root folder looks at the
least significant digit, so the elements of ids written by `knd_num_to_str` do not come in the order of
their numbers.

* `KndSet`, `kndSetAdd`, `kndSetMap` — the set, insertion, traversal.
* `TrieLt` — the order of the traversal on keys given by their digits; `pairwise_entries`: the
  elements come in it.
* `TrieBefore` — the same order on numbers; `trieBefore_iff` is its recursion, `trieBefore_of_lt` says
  where it agrees with `<`.
* `pairwise_iff_agree` — a list sorted by one order is sorted by another exactly when the orders agree
  on its elements.
* `KndSet.Holds` — a set holds things under their numbers; what lookup, insertion and the traversal do then. -/

namespace Knowdy

/-! ## (1) The set -/

/-- `struct kndSet`, as far as `knd_set_add` and `knd_set_map` use it. -/
structure KndSet (α : Type) where
  /-- `idx`: the root folder. -/
  idx : ElemIdx α := .new
  /-- `num_elems`. -/
  numElems : Nat := 0
  /-- `num_valid_elems`. -/
  numValidElems : Nat := 0
  /-- `allow_overwrite`. -/
  allowOverwrite : Bool := false

variable {α : Type}

/-- `knd_set_add`. -/
def kndSetAdd (self : KndSet α) (key : List UInt8) (elem : α) : Except KndErr Unit × KndSet α :=
  match saveElem self.allowOverwrite elem key self.idx with
  | (.error e, idx) => (.error e, { self with idx })
  | (.ok (), idx) =>
      (.ok (), { self with
        idx
        numElems := self.numElems + 1
        numValidElems := self.numValidElems + 1 })

section Map

variable {ε σ : Type}

/-- `kndSet_traverse_idx`, for a callback that looks at the element only. -/
def kndSetTraverseIdx (cb : α → EStateM ε σ PUnit) : ElemIdx α → EStateM ε σ PUnit
  | .null => pure ()
  | .node elems idxs => do
      (List.finRange 62).forM fun i =>
        match elems i with
        | none => pure ()
        | some elem => cb elem
      (List.finRange 62).forM fun i => kndSetTraverseIdx cb (idxs i)

/-- `knd_set_map`. -/
def kndSetMap (self : KndSet α) (cb : α → EStateM ε σ PUnit) : EStateM ε σ PUnit :=
  kndSetTraverseIdx cb self.idx

end Map

namespace KndSet

/-- The stored elements in the order of the traversal. -/
def elems (self : KndSet α) : List α := (self.idx.entries []).map Prod.snd

/-- The element stored under the digits `ds`. -/
def lookup (self : KndSet α) (ds : List Digit) : Option α := self.idx.lookup ds

end KndSet

/-- **The traversal** calls the callback on the stored elements in their order. -/
theorem kndSetTraverseIdx_eq {ε σ : Type} (cb : α → EStateM ε σ PUnit) (idx : ElemIdx α)
    (pre : List UInt8) :
    kndSetTraverseIdx cb idx = ((idx.entries pre).map Prod.snd).forM cb := by
  induction idx generalizing pre with
  | null => rfl
  | node es ss ih =>
      have hown : ((ElemIdx.elemList es).map fun p => (pre ++ [objIdSeq p.1], p.2)).map Prod.snd
          = (List.finRange 62).filterMap es := by
        rw [List.map_map, ElemIdx.elemList, List.map_filterMap]
        congr 1
        funext i
        cases es i <;> rfl
      have hsub : (((List.finRange 62).flatMap fun i : Digit =>
          (ss i).entries (pre ++ [objIdSeq i])).map Prod.snd)
          = (List.finRange 62).flatMap fun i : Digit =>
              ((ss i).entries (pre ++ [objIdSeq i])).map Prod.snd := List.map_flatMap
      rw [ElemIdx.entries_node, List.map_append, forM_append, hown, hsub, forM_flatMap,
        forM_filterMap, kndSetTraverseIdx]
      congr 1
      funext _
      congr 1
      funext i
      exact ih i _

theorem kndSetMap_eq {ε σ : Type} (self : KndSet α) (cb : α → EStateM ε σ PUnit) :
    kndSetMap self cb = self.elems.forM cb := kndSetTraverseIdx_eq cb self.idx []

/-- A refused insertion under a proper id met an element. -/
theorem saveElem_error_of_digits {allowOverwrite : Bool} {elem : α} {ds : List Digit}
    {parent : ElemIdx α} {e : KndErr} (hds : ds ≠ [])
    (h : (saveElem allowOverwrite elem (digitsKey ds) parent).1 = .error e) : e = .conflict := by
  induction ds generalizing parent with
  | nil => exact absurd rfl hds
  | cons i ds ih =>
      cases ds with
      | nil =>
          simp only [digitsKey_cons, digitsKey_nil, saveElem, objIdBase_objIdSeq] at h
          split at h <;> cases h
          rfl
      | cons j ds =>
          simp only [digitsKey_cons, saveElem, objIdBase_objIdSeq] at h
          exact ih (List.cons_ne_nil j ds) h

/-- **A returning insertion** binds the id, which was free unless the set may be overwritten. -/
theorem kndSetAdd_ok {self self' : KndSet α} {ds : List Digit} {elem : α}
    (h : kndSetAdd self (digitsKey ds) elem = (.ok (), self')) :
    (self.allowOverwrite = false → self.lookup ds = none) ∧
      (∀ es, self'.lookup es = if es = ds then some elem else self.lookup es) ∧
      self'.allowOverwrite = self.allowOverwrite := by
  have hcases := saveElem_cases self.allowOverwrite elem (digitsKey ds) self.idx
  rw [kndSetAdd] at h
  split at h
  · cases h
  · rename_i idx hsave
    rw [hsave] at hcases
    obtain ⟨es, hkey, -, hfree, hlookup⟩ := hcases
    obtain rfl := digitsKey_inj.mp hkey
    cases h
    exact ⟨hfree, hlookup, rfl⟩

/-- **A refused insertion** under a proper id met an element and changes nothing. -/
theorem kndSetAdd_error {self self' : KndSet α} {ds : List Digit} {elem : α} {e : KndErr}
    (hds : ds ≠ []) (h : kndSetAdd self (digitsKey ds) elem = (.error e, self')) :
    e = .conflict ∧ self.lookup ds ≠ none ∧ (∀ es, self'.lookup es = self.lookup es) ∧
      self'.allowOverwrite = self.allowOverwrite := by
  have hcases := saveElem_cases self.allowOverwrite elem (digitsKey ds) self.idx
  have hcode := @saveElem_error_of_digits _ self.allowOverwrite elem ds self.idx e hds
  have hfree := @saveElem_ok_of_free _ elem ds hds self.idx
  rw [kndSetAdd] at h
  split at h
  · rename_i e' idx hsave
    rw [hsave] at hcases hcode
    cases h
    refine ⟨hcode rfl, fun hnone => ?_, hcases, rfl⟩
    have hok := hfree hnone self.allowOverwrite
    rw [hsave] at hok
    cases hok
  · cases h

/-- What a returning insertion adds to the stored elements. -/
theorem elems_perm_of_kndSetAdd {self self' : KndSet α} {ds : List Digit} {elem : α}
    (hds : self.allowOverwrite = false)
    (h : kndSetAdd self (digitsKey ds) elem = (.ok (), self')) :
    self'.elems.Perm (elem :: self.elems) := by
  obtain ⟨hfree, hlookup, -⟩ := kndSetAdd_ok h
  have hmem : ∀ (set : KndSet α) (key : List UInt8) (a : α),
      (key, a) ∈ set.idx.entries [] ↔ ∃ es, key = digitsKey es ∧ set.lookup es = some a := by
    intro set key a
    rw [ElemIdx.mem_entries]
    simp [KndSet.lookup]
  have hnodup : ∀ set : KndSet α, (set.idx.entries []).Nodup := fun set =>
    (ElemIdx.nodup_entries set.idx []).of_map
  have hnew : (digitsKey ds, elem) ∉ self.idx.entries [] := by
    rw [hmem]
    rintro ⟨es, hkey, hes⟩
    rw [← digitsKey_inj.mp hkey, hfree hds] at hes
    cases hes
  have hperm : (self'.idx.entries []).Perm ((digitsKey ds, elem) :: self.idx.entries []) := by
    refine (List.perm_ext_iff_of_nodup (hnodup self')
      (List.nodup_cons.mpr ⟨hnew, hnodup self⟩)).mpr fun p => ?_
    rw [List.mem_cons, show p = (p.1, p.2) from rfl, hmem, hmem, Prod.mk.injEq]
    constructor
    · rintro ⟨es, hkey, hes⟩
      rw [hlookup] at hes
      by_cases heq : es = ds
      · rw [if_pos heq] at hes
        exact .inl ⟨by rw [hkey, heq], (Option.some.inj hes).symm⟩
      · rw [if_neg heq] at hes
        exact .inr ⟨es, hkey, hes⟩
    · rintro (⟨hkey, helem⟩ | ⟨es, hkey, hes⟩)
      · exact ⟨ds, hkey, by rw [hlookup, if_pos rfl, helem]⟩
      · refine ⟨es, hkey, ?_⟩
        have hne : es ≠ ds := by
          rintro rfl
          rw [hfree hds] at hes
          cases hes
        rw [hlookup, if_neg hne, hes]
  exact hperm.map Prod.snd

/-! ## (2) The order of the traversal -/

/-- **The order of the traversal** on keys given by their digits: in one folder the elements come before
the subfolders, and both come in slot order. -/
def TrieLt : List Digit → List Digit → Prop
  | i :: ds, j :: es =>
      if ds = [] then (es = [] → i < j) else es ≠ [] ∧ (i < j ∨ i = j ∧ TrieLt ds es)
  | _, _ => False

instance decidableTrieLt : (ds es : List Digit) → Decidable (TrieLt ds es)
  | [], _ => .isFalse (by simp [TrieLt])
  | _ :: _, [] => .isFalse (by simp [TrieLt])
  | i :: ds, j :: es =>
      have := decidableTrieLt ds es
      inferInstanceAs (Decidable
        (if ds = [] then (es = [] → i < j) else es ≠ [] ∧ (i < j ∨ i = j ∧ TrieLt ds es)))

theorem trieLt_singleton (i j : Digit) : TrieLt [i] [j] ↔ i < j := by
  simp [TrieLt]

/-- An element of a folder comes before what is in its subfolders. -/
theorem trieLt_singleton_cons (i j : Digit) {es : List Digit} (hes : es ≠ []) :
    TrieLt [i] (j :: es) := by
  simp [TrieLt, hes]

theorem not_trieLt_cons_singleton (i j : Digit) {ds : List Digit} (hds : ds ≠ []) :
    ¬TrieLt (i :: ds) [j] := by
  simp [TrieLt, hds]

theorem trieLt_cons_cons (i j : Digit) {ds es : List Digit} (hds : ds ≠ []) (hes : es ≠ []) :
    TrieLt (i :: ds) (j :: es) ↔ i < j ∨ i = j ∧ TrieLt ds es := by
  simp [TrieLt, hds, hes]

/-- No two keys come before each other. -/
theorem TrieLt.asymm {ds es : List Digit} (h : TrieLt ds es) : ¬TrieLt es ds := by
  induction ds generalizing es with
  | nil => simp [TrieLt] at h
  | cons i ds ih =>
      cases es with
      | nil => simp [TrieLt] at h
      | cons j es =>
          intro h'
          by_cases hds : ds = []
          · by_cases hes : es = []
            · subst hds hes
              rw [trieLt_singleton] at h h'
              exact absurd h' (not_lt_of_gt h)
            · subst hds
              exact not_trieLt_cons_singleton j i hes h'
          · by_cases hes : es = []
            · subst hes
              exact not_trieLt_cons_singleton i j hds h
            · rw [trieLt_cons_cons i j hds hes] at h
              rw [trieLt_cons_cons j i hes hds] at h'
              rcases h with h | ⟨rfl, h⟩ <;> rcases h' with h' | ⟨heq, h'⟩
              · exact absurd h' (not_lt_of_gt h)
              · exact absurd h (heq ▸ lt_irrefl i)
              · exact lt_irrefl i h'
              · exact ih h h'

/-- **The stored elements come in the order of the traversal.** -/
theorem pairwise_entries (idx : ElemIdx α) (pre : List UInt8) :
    (idx.entries pre).Pairwise fun p q => ∃ ds es, p.1 = pre ++ digitsKey ds ∧
      q.1 = pre ++ digitsKey es ∧ TrieLt ds es := by
  induction idx generalizing pre with
  | null => exact List.Pairwise.nil
  | node es ss ih =>
      rw [ElemIdx.entries_node, List.pairwise_append]
      refine ⟨?_, ?_, ?_⟩
      · -- two elements of the folder itself
        rw [List.pairwise_map]
        have hsorted : ((ElemIdx.elemList es).map Prod.fst).Pairwise (· < ·) := by
          rw [ElemIdx.map_fst_elemList]
          exact List.Pairwise.filter _ (List.pairwise_lt_finRange 62)
        refine (List.pairwise_map.mp hsorted).imp fun {p q} hpq => ?_
        exact ⟨[p.1], [q.1], rfl, rfl, (trieLt_singleton _ _).mpr hpq⟩
      · rw [List.pairwise_flatMap]
        constructor
        · -- two elements of one subfolder
          intro i _
          refine (ih i (pre ++ [objIdSeq i])).imp_of_mem fun {p q} hp hq hpq => ?_
          obtain ⟨ds, es', hpd, hqe, hlt⟩ := hpq
          have hds : ds ≠ [] := by rintro rfl; simp [TrieLt] at hlt
          have hes : es' ≠ [] := by rintro rfl; cases ds <;> simp [TrieLt] at hlt
          refine ⟨i :: ds, i :: es', by simp [hpd], by simp [hqe], ?_⟩
          exact (trieLt_cons_cons i i hds hes).mpr (.inr ⟨rfl, hlt⟩)
        · -- elements of two subfolders
          refine (List.pairwise_lt_finRange 62).imp fun {i j} hij p hp q hq => ?_
          obtain ⟨ds, hpd, hds⟩ := ElemIdx.mem_entries.mp (show (p.1, p.2) ∈ _ from hp)
          obtain ⟨es', hqe, hes⟩ := ElemIdx.mem_entries.mp (show (q.1, q.2) ∈ _ from hq)
          have hds' : ds ≠ [] := by rintro rfl; cases hds
          have hes' : es' ≠ [] := by rintro rfl; cases hes
          refine ⟨i :: ds, j :: es', by simp [hpd], by simp [hqe], ?_⟩
          exact (trieLt_cons_cons i j hds' hes').mpr (.inl hij)
      · -- an element of the folder and one of a subfolder
        intro p hp q hq
        obtain ⟨⟨i, a⟩, -, rfl⟩ := List.mem_map.mp hp
        obtain ⟨j, -, hq⟩ := List.mem_flatMap.mp hq
        obtain ⟨es', hqe, hes⟩ := ElemIdx.mem_entries.mp (show (q.1, q.2) ∈ _ from hq)
        have hes' : es' ≠ [] := by rintro rfl; cases hes
        exact ⟨[i], j :: es', rfl, by simp [hqe], trieLt_singleton_cons i j hes'⟩

/-- **A list sorted by one order is sorted by another one exactly when the orders agree on it.** -/
theorem pairwise_iff_agree {β : Type} {R S : β → β → Prop} {l : List β}
    (hR : l.Pairwise R) (hasymm : ∀ {a b}, S a b → ¬S b a)
    (htotal : l.Pairwise fun a b => S a b ∨ S b a) (hRasymm : ∀ {a b}, R a b → ¬R b a) :
    l.Pairwise S ↔ ∀ a ∈ l, ∀ b ∈ l, S a b → R a b := by
  constructor
  · intro hS
    induction l with
    | nil => simp
    | cons c l ih =>
        rw [List.pairwise_cons] at hR hS htotal
        intro a ha b hb hab
        rcases List.mem_cons.mp ha with rfl | ha' <;> rcases List.mem_cons.mp hb with rfl | hb'
        · exact absurd hab (hasymm hab)
        · exact hR.1 b hb'
        · exact absurd hab (hasymm (hS.1 a ha'))
        · exact ih hR.2 htotal.2 hS.2 a ha' b hb' hab
  · intro hagree
    refine (hR.and htotal).imp_of_mem fun {a b} ha hb h => ?_
    rcases h.2 with hab | hba
    · exact hab
    · exact absurd (hagree b hb a ha hba) (hRasymm h.1)

/-! ## (3) The order on numbers -/

/-- The base-62 digits of a number as `knd_num_to_str` spells them. -/
def numDigits (n : Nat) : List Digit :=
  if n = 0 then [0] else (Nat.digits radixBase n).map fun d => Fin.ofNat 62 d

theorem numDigits_ne_nil (n : Nat) : numDigits n ≠ [] := by
  rw [numDigits]
  split
  · simp
  · rename_i hn
    simp [Nat.digits_ne_nil_iff_ne_zero.mpr hn]

/-- The id of a number spells its digits. -/
theorem kndNumToStr_eq (n : Nat) : kndNumToStr n radixBase = digitsKey (numDigits n) := by
  rw [kndNumToStr, numDigits]
  by_cases hn : n = 0
  · rw [if_pos hn, if_pos hn]
    rfl
  · rw [if_neg hn, if_neg hn, numToStrLoop_eq (by decide) n n le_rfl, digitsKey, List.map_map]
    refine List.map_congr_left fun d hd => ?_
    have hlt : d < 62 := Nat.digits_lt_base (by decide) hd
    simp [Nat.mod_eq_of_lt hlt]

/-- One digit, or the last digit in front of the others. -/
theorem numDigits_of_lt {n : Nat} (h : n < radixBase) : numDigits n = [Fin.ofNat 62 n] := by
  rw [numDigits]
  by_cases hn : n = 0
  · rw [if_pos hn, hn]
    rfl
  · rw [if_neg hn, Nat.digits_of_lt radixBase n hn h]
    rfl

theorem numDigits_of_le {n : Nat} (h : radixBase ≤ n) :
    numDigits n = Fin.ofNat 62 n :: numDigits (n / radixBase) := by
  have hn : 0 < n := lt_of_lt_of_le (by decide) h
  have hdiv : n / radixBase ≠ 0 := (Nat.div_pos h (by decide)).ne'
  rw [numDigits, if_neg hn.ne', Nat.digits_def' (by decide) hn, numDigits, if_neg hdiv, List.map_cons]
  congr 1
  exact Fin.ext (by simp [radixBase])

/-- Distinct numbers have distinct ids. -/
theorem numDigits_inj {m n : Nat} : numDigits m = numDigits n ↔ m = n := by
  refine ⟨fun h => ?_, fun h => by rw [h]⟩
  induction m using Nat.strong_induction_on generalizing n with
  | _ m ih =>
      have hofNat : ∀ {a b : Nat}, Fin.ofNat 62 a = Fin.ofNat 62 b ↔ a % radixBase = b % radixBase := by
        intro a b
        exact Fin.ext_iff
      by_cases hm : m < radixBase <;> by_cases hn : n < radixBase
      · rw [numDigits_of_lt hm, numDigits_of_lt hn, List.cons.injEq, hofNat,
          Nat.mod_eq_of_lt hm, Nat.mod_eq_of_lt hn] at h
        exact h.1
      · rw [numDigits_of_lt hm, numDigits_of_le (not_lt.mp hn), List.cons.injEq] at h
        exact absurd h.2.symm (numDigits_ne_nil _)
      · rw [numDigits_of_le (not_lt.mp hm), numDigits_of_lt hn, List.cons.injEq] at h
        exact absurd h.2 (numDigits_ne_nil _)
      · rw [numDigits_of_le (not_lt.mp hm), numDigits_of_le (not_lt.mp hn), List.cons.injEq, hofNat] at h
        have hlt : m / radixBase < m :=
          Nat.div_lt_self (lt_of_lt_of_le (by decide) (not_lt.mp hm)) (by decide)
        have hdiv := ih (m / radixBase) hlt h.2
        rw [← Nat.div_add_mod m radixBase, ← Nat.div_add_mod n radixBase, hdiv, h.1]

/-- **The order in which the traversal meets two numbers.** -/
def TrieBefore (a b : Nat) : Prop := TrieLt (numDigits a) (numDigits b)

instance (a b : Nat) : Decidable (TrieBefore a b) := decidableTrieLt _ _

/-- The order by digits, from the least significant one: a last digit comes before a digit that is
followed by others, otherwise the smaller digit comes first. -/
theorem trieBefore_iff (a b : Nat) : TrieBefore a b ↔
    if a < radixBase then (b < radixBase → a < b)
    else radixBase ≤ b ∧ (a % radixBase < b % radixBase ∨
      a % radixBase = b % radixBase ∧ TrieBefore (a / radixBase) (b / radixBase)) := by
  have hlt : ∀ {m n : Nat}, Fin.ofNat 62 m < Fin.ofNat 62 n ↔ m % radixBase < n % radixBase := by
    intro m n
    exact Fin.lt_def
  have heq : ∀ {m n : Nat}, Fin.ofNat 62 m = Fin.ofNat 62 n ↔ m % radixBase = n % radixBase := by
    intro m n
    exact Fin.ext_iff
  unfold TrieBefore
  by_cases ha : a < radixBase <;> by_cases hb : b < radixBase
  · rw [numDigits_of_lt ha, numDigits_of_lt hb, trieLt_singleton, hlt, Nat.mod_eq_of_lt ha,
      Nat.mod_eq_of_lt hb, if_pos ha]
    simp [hb]
  · rw [numDigits_of_lt ha, numDigits_of_le (not_lt.mp hb), if_pos ha]
    simp [hb, trieLt_singleton_cons _ _ (numDigits_ne_nil _)]
  · rw [numDigits_of_le (not_lt.mp ha), numDigits_of_lt hb, if_neg ha]
    simp [hb, not_trieLt_cons_singleton _ _ (numDigits_ne_nil _)]
  · rw [numDigits_of_le (not_lt.mp ha), numDigits_of_le (not_lt.mp hb), if_neg ha,
      trieLt_cons_cons _ _ (numDigits_ne_nil _) (numDigits_ne_nil _), hlt, heq]
    simp [not_lt.mp hb]

/-- **Up to 123 the traversal follows the numbers**: with at most two digits, the second of them 1. -/
theorem trieBefore_of_lt {a b : Nat} (hab : a < b) (hb : b ≤ 123) : TrieBefore a b := by
  rw [trieBefore_iff]
  unfold radixBase
  split
  · exact fun _ => hab
  · rename_i ha
    refine ⟨by omega, .inl ?_⟩
    omega

/-! ## (4) Sets of numbered things -/

/-- `knd_set_get`. -/
def kndSetGet (self : KndSet α) (key : List UInt8) : Except KndErr α := getElem key self.idx

/-- **The set holds the things of a kind**, each under its number, and nothing else. -/
structure KndSet.Holds (set : KndSet α) (num : α → Nat) (P : α → Prop) : Prop where
  /-- Ids are bound once. -/
  bindsOnce : set.allowOverwrite = false
  /-- What is found. -/
  lookup_iff : ∀ ds a, set.lookup ds = some a ↔ P a ∧ ds = numDigits (num a)

/-- A new set. -/
theorem KndSet.holds_new (num : α → Nat) : ({} : KndSet α).Holds num fun _ => False := by
  refine ⟨rfl, fun ds a => iff_of_false ?_ fun h => h.1⟩
  have hnone : ∀ ds : List Digit, (ElemIdx.new : ElemIdx α).lookup ds = none := by
    intro ds
    cases ds with
    | nil => rfl
    | cons i ds =>
        by_cases hds : ds = []
        · subst hds
          rfl
        · exact (ElemIdx.lookup_cons hds i _).trans (ElemIdx.lookup_null ds)
  intro h
  cases (hnone ds).symm.trans h

namespace KndSet.Holds

variable {set : KndSet α} {num : α → Nat} {P : α → Prop} {a : α}

theorem congr {Q : α → Prop} (h : set.Holds num P) (hPQ : ∀ a, P a ↔ Q a) : set.Holds num Q :=
  ⟨h.bindsOnce, fun ds a => (h.lookup_iff ds a).trans (and_congr_left fun _ => hPQ a)⟩

/-- The numbers of other things do not matter. -/
theorem congr_num {num' : α → Nat} (h : set.Holds num P) (hnum : ∀ a, P a → num' a = num a) : set.Holds num' P := by
  refine ⟨h.bindsOnce, fun ds a => (h.lookup_iff ds a).trans (and_congr_right fun ha => ?_)⟩
  rw [hnum a ha]

theorem mem_elems (h : set.Holds num P) : a ∈ set.elems ↔ P a := by
  rw [KndSet.elems, List.mem_map]
  constructor
  · rintro ⟨⟨key, b⟩, hmem, rfl⟩
    obtain ⟨ds, -, hds⟩ := ElemIdx.mem_entries.mp hmem
    exact ((h.lookup_iff ds b).mp hds).1
  · intro ha
    refine ⟨(digitsKey (numDigits (num a)), a), ElemIdx.mem_entries.mpr ⟨_, rfl, ?_⟩, rfl⟩
    exact (h.lookup_iff _ a).mpr ⟨ha, rfl⟩

/-- Nothing is held twice. -/
theorem nodup_elems (h : set.Holds num P) : set.elems.Nodup := by
  have hentries : (set.idx.entries []).Nodup := (ElemIdx.nodup_entries set.idx []).of_map
  refine List.Nodup.map_on ?_ hentries
  rintro ⟨key, b⟩ hb ⟨key', b'⟩ hb' heq
  obtain rfl : b = b' := heq
  obtain ⟨ds, hkey, hds⟩ := ElemIdx.mem_entries.mp hb
  obtain ⟨ds', hkey', hds'⟩ := ElemIdx.mem_entries.mp hb'
  obtain ⟨-, rfl⟩ := (h.lookup_iff ds b).mp hds
  obtain ⟨-, rfl⟩ := (h.lookup_iff ds' b).mp hds'
  rw [hkey, hkey']

/-- **The things come in the order `TrieBefore` of their numbers.** -/
theorem pairwise_elems (h : set.Holds num P) : set.elems.Pairwise fun a b => TrieBefore (num a) (num b) := by
  have hkey : ∀ p ∈ set.idx.entries [], p.1 = digitsKey (numDigits (num p.2)) := by
    intro p hp
    obtain ⟨ds, hds, hlookup⟩ := ElemIdx.mem_entries.mp (show (p.1, p.2) ∈ _ from hp)
    rw [hds, ((h.lookup_iff ds p.2).mp hlookup).2]
    rfl
  rw [KndSet.elems, List.pairwise_map]
  refine (pairwise_entries set.idx []).imp_of_mem fun {p q} hp hq hpq => ?_
  obtain ⟨ds, es, hds, hes, hlt⟩ := hpq
  rw [hkey p hp, List.nil_append, digitsKey_inj] at hds
  rw [hkey q hq, List.nil_append, digitsKey_inj] at hes
  rw [TrieBefore, hds, hes]
  exact hlt

/-- A free number. -/
theorem lookup_eq_none (h : set.Holds num P) (hfree : ∀ b, P b → num b ≠ num a) :
    set.lookup (numDigits (num a)) = none := by
  refine Option.eq_none_iff_forall_ne_some.mpr fun b hb => ?_
  obtain ⟨hP, hnum⟩ := (h.lookup_iff _ b).mp hb
  exact hfree b hP (numDigits_inj.mp hnum).symm

/-- **Lookup** finds the things that are held. -/
theorem kndSetGet_eq_ok (h : set.Holds num P) (ha : P a) :
    kndSetGet set (kndUidCreate (num a)) = .ok a :=
  getElem_eq_ok.mpr ⟨_, kndNumToStr_eq _, (h.lookup_iff _ a).mpr ⟨ha, rfl⟩⟩

theorem kndSetGet_eq_error (h : set.Holds num P) (hfree : ∀ b, P b → num b ≠ num a) :
    ∃ e, kndSetGet set (kndUidCreate (num a)) = .error e := by
  cases hget : kndSetGet set (kndUidCreate (num a)) with
  | error e => exact ⟨e, rfl⟩
  | ok b =>
      obtain ⟨ds, hkey, hds⟩ := getElem_eq_ok.mp hget
      rw [kndUidCreate, kndNumToStr_eq] at hkey
      obtain rfl := digitsKey_inj.mp hkey
      have hnone := h.lookup_eq_none hfree
      cases hnone.symm.trans hds

/-- **A thing with a free number is added.** -/
theorem kndSetAdd_free (h : set.Holds num P) (hfree : ∀ b, P b → num b ≠ num a) :
    ∃ set', kndSetAdd set (kndUidCreate (num a)) a = (.ok (), set') ∧
      set'.Holds num (fun b => b = a ∨ P b) ∧ set'.elems.length = set.elems.length + 1 := by
  rw [kndUidCreate, kndNumToStr_eq]
  have hnone := h.lookup_eq_none hfree
  cases hadd : kndSetAdd set (digitsKey (numDigits (num a))) a with
  | mk rc set' =>
      cases rc with
      | error e => exact absurd hnone (kndSetAdd_error (numDigits_ne_nil _) hadd).2.1
      | ok u =>
          obtain ⟨-, hlookup, honce⟩ := kndSetAdd_ok hadd
          refine ⟨set', rfl, ⟨honce.trans h.bindsOnce, fun ds b => ?_⟩, ?_⟩
          · rw [hlookup]
            by_cases hds : ds = numDigits (num a)
            · rw [if_pos hds, Option.some.injEq]
              constructor
              · rintro rfl
                exact ⟨.inl rfl, hds⟩
              · rintro ⟨rfl | hb, hnum⟩
                · rfl
                · exact absurd (numDigits_inj.mp (hnum.symm.trans hds)) (hfree b hb)
            · rw [if_neg hds, h.lookup_iff]
              constructor
              · exact fun hb => ⟨.inr hb.1, hb.2⟩
              · rintro ⟨rfl | hb, hnum⟩
                · exact absurd hnum hds
                · exact ⟨hb, hnum⟩
          · exact (elems_perm_of_kndSetAdd h.bindsOnce hadd).length_eq

/-- **A thing with a number that is taken is refused.** -/
theorem kndSetAdd_taken {b : α} (h : set.Holds num P) (hb : P b) (hnum : num b = num a) :
    ∃ e set', kndSetAdd set (kndUidCreate (num a)) a = (.error e, set') := by
  rw [kndUidCreate, kndNumToStr_eq]
  cases hadd : kndSetAdd set (digitsKey (numDigits (num a))) a with
  | mk rc set' =>
      cases rc with
      | error e => exact ⟨e, set', rfl⟩
      | ok u =>
          have hnone := (kndSetAdd_ok hadd).1 h.bindsOnce
          cases hnone.symm.trans ((h.lookup_iff _ b).mpr ⟨hb, by rw [hnum]⟩)

end KndSet.Holds

end Knowdy
