import Knowdy.KndSet
import Mathlib.Algebra.Order.BigOperators.Group.List

/-! # Intersection of sets

`knd_set_intersect` and `knd_shared_set_intersect`: the operands are sorted by their sizes, and the folders of
all of them are walked at once, from the root of the smallest on.

* `Walk`, `traverse` — the simultaneous walk; the result is written folder by folder.
* `kndSetIntersect`, `kndSharedSetIntersect` — the two functions.
* `walked_traverse` — the walk leaves the common keys in the result and counts them; `returns_traverse` — it
  returns when the mempool has a page for every folder of the base.
* `Built`, `SharedBuilt` — sets made by additions; `Exact` — what an intersection is to be.
* `Intersected` — what an intersection is: `num_elems` counts an element that is overwritten twice, and the operand
  that is the least by `num_elems` is taken for the smallest.
* `exact_iff_leastAreSmallest` — both intersections are exact if and only if the least operands do for the smallest. -/

namespace Knowdy

namespace SetIntersect

variable {α : Type}

/-! ## (1) The walk -/

/-- A walk in progress. -/
structure Walk (α : Type) where
  /-- `result_idx`: the folder of the result that is written. -/
  result : ElemIdx α
  /-- `num_elems` of the result. -/
  numElems : Nat
  /-- `num_valid_elems` of the result. -/
  numValidElems : Nat
  /-- The pages that the mempool can still give. -/
  room : Nat

/-- One round of the loop over the terminal elements. -/
def elemRound (elems : Digit → Option α) (idxs : List (ElemIdx α)) (i : Digit) : EStateM KndErr (Walk α) PUnit :=
  match elems i with
  | none => pure ()
  | some elem =>
      if idxs.all fun idx => (idx.elems i).isSome then
        modify fun w => { w with
          result := .node (Function.update w.result.elems i (some elem)) w.result.idxs
          numValidElems := w.numValidElems + 1
          numElems := w.numElems + 1 }
      else pure ()

/-- `knd_set_elem_idx_new`, `knd_shared_set_elem_idx_new`: a page for a folder. -/
def elemIdxNew : EStateM KndErr (Walk α) PUnit := fun w =>
  match w.room with
  | 0 => .error .nomem w
  | room + 1 => .ok () { w with room }

/-- Go on in a new subfolder of the result. -/
def inSubfolder (i : Digit) : EStateM KndErr (Walk α) PUnit → EStateM KndErr (Walk α) PUnit :=
  zoom (fun w => { w with result := .new }) fun s w =>
    { s with result := .node w.result.elems (Function.update w.result.idxs i s.result) }

/-- One round of the loop over the subfolders: `nested` is the walk below the subfolders of the operands. -/
def idxRound (idxs : List (ElemIdx α)) (sub : Digit → ElemIdx α)
    (nested : Digit → EStateM KndErr (Walk α) PUnit) (i : Digit) : EStateM KndErr (Walk α) PUnit :=
  if (sub i).isNull || idxs.any fun idx => (idx.idxs i).isNull then pure ()
  else do
    elemIdxNew
    inSubfolder i (nested i)

/-- `kndSet_traverse`, `traverse` of `knd_shared_set.c`: `idxs` are the folders of the other operands. -/
def traverse : ElemIdx α → List (ElemIdx α) → EStateM KndErr (Walk α) PUnit
  | .null, _ => pure ()   -- no set is without a root, and the loops skip missing subfolders
  | .node elems folders, idxs => do
      (List.finRange 62).forM (elemRound elems idxs)
      (List.finRange 62).forM
        (idxRound idxs folders fun i => traverse (folders i) (idxs.map fun idx => idx.idxs i))

/-! ## (2) Sizes -/

/-- The number of elements below a folder. -/
def size : ElemIdx α → Nat
  | .null => 0
  | .node elems idxs =>
      ((List.finRange 62).map fun i => (elems i).toList.length).sum
        + ((List.finRange 62).map fun i => size (idxs i)).sum

/-- The number of folders below a folder. -/
def subfolders : ElemIdx α → Nat
  | .null => 0
  | .node _ idxs => ((List.finRange 62).map fun i => if (idxs i).isNull then 0 else subfolders (idxs i) + 1).sum

theorem length_filterMap_slots (es : Digit → Option α) (is : List Digit) :
    (is.filterMap fun i => (es i).map (Prod.mk i)).length = (is.map fun i => (es i).toList.length).sum := by
  induction is with
  | nil => rfl
  | cons i is ih =>
      rw [List.map_cons, List.sum_cons, ← ih]
      cases hi : es i with
      | none => simp [hi]
      | some a =>
          simp [hi]
          omega

theorem length_entries (idx : ElemIdx α) (pre : List UInt8) : (idx.entries pre).length = size idx := by
  induction idx generalizing pre with
  | null => rfl
  | node es ss ih =>
      rw [ElemIdx.entries_node, List.length_append, List.length_map, List.length_flatMap, size,
        ElemIdx.elemList, length_filterMap_slots]
      congr 2
      exact List.map_congr_left fun i _ => ih i _

theorem size_eq (idx : ElemIdx α) : size idx
    = ((List.finRange 62).map fun i => (idx.elems i).toList.length).sum
      + ((List.finRange 62).map fun i => size (idx.idxs i)).sum := by
  cases idx with
  | null => simp [size]
  | node es ss => rfl

/-- The keys under which a lookup finds an element. -/
def keys (idx : ElemIdx α) : List (List UInt8) := (idx.entries []).map Prod.fst

theorem nodup_keys (idx : ElemIdx α) : (keys idx).Nodup := ElemIdx.nodup_entries idx []

theorem mem_keys {idx : ElemIdx α} {key : List UInt8} : key ∈ keys idx ↔ ∃ a, getElem key idx = .ok a := by
  rw [keys, List.mem_map]
  constructor
  · rintro ⟨⟨k, a⟩, hmem, rfl⟩
    obtain ⟨ds, hk, hds⟩ := ElemIdx.mem_entries.mp hmem
    exact ⟨a, getElem_eq_ok.mpr ⟨ds, hk, hds⟩⟩
  · rintro ⟨a, ha⟩
    obtain ⟨ds, rfl, hds⟩ := getElem_eq_ok.mp ha
    exact ⟨(digitsKey ds, a), ElemIdx.mem_entries.mpr ⟨ds, rfl, hds⟩, rfl⟩

theorem digitsKey_mem_keys {idx : ElemIdx α} {ds : List Digit} :
    digitsKey ds ∈ keys idx ↔ (idx.lookup ds).isSome = true := by
  rw [mem_keys, Option.isSome_iff_exists]
  exact exists_congr fun a => by rw [getElem_eq_ok]; simp [digitsKey_inj]

/-- **The elements are as many as the keys.** -/
theorem length_keys (idx : ElemIdx α) : (keys idx).length = size idx := by
  rw [keys, List.length_map, length_entries]

/-- A new folder is empty. -/
theorem lookup_new (ds : List Digit) : (ElemIdx.new : ElemIdx α).lookup ds = none := by
  cases ds with
  | nil => rfl
  | cons i ds =>
      cases ds with
      | nil => rfl
      | cons j ds => exact ElemIdx.lookup_null _

/-- A folder without bindings has size 0. -/
theorem size_eq_zero {idx : ElemIdx α} (h : ∀ ds, idx.lookup ds = none) : size idx = 0 := by
  rw [← length_keys, List.length_eq_zero_iff, List.eq_nil_iff_forall_not_mem]
  intro key hkey
  obtain ⟨a, ha⟩ := mem_keys.mp hkey
  obtain ⟨ds, rfl, hds⟩ := getElem_eq_ok.mp ha
  rw [h] at hds
  cases hds

/-! ## (3) What the walk leaves behind -/

section Filling

variable {β γ : Type} {slot : Walk α → Digit → β} {other : Walk α → γ} {n : β → Nat}
  {Q : Digit → β → Prop}

/-- **What rounds over the slots `is` do**: they fill these with what satisfies `Q`, leave the others and
everything else of the folder alone, and count what they have stored. -/
structure Filling (slot : Walk α → Digit → β) (other : Walk α → γ) (n : β → Nat) (Q : Digit → β → Prop)
    (is : List Digit) (w w' : Walk α) : Prop where
  /-- The rest of the folder. -/
  other : other w' = other w
  /-- The slots that no round is about. -/
  unseen : ∀ i ∉ is, slot w' i = slot w i
  /-- The slots that are filled. -/
  seen : ∀ i ∈ is, Q i (slot w' i)
  /-- The count. -/
  count : w'.numElems = w.numElems + (is.map fun i => n (slot w' i)).sum

/-- **The loop over the slots**: what each round does to a free slot. -/
theorem filling_forM (free : β → Prop) {round : Digit → EStateM KndErr (Walk α) PUnit} {is : List Digit}
    (his : is.Nodup)
    (hround : ∀ i ∈ is, ∀ w w', free (slot w i) → (round i).run w = .ok () w' → Filling slot other n Q [i] w w')
    {w w' : Walk α} (hfree : ∀ i ∈ is, free (slot w i)) (h : (is.forM round).run w = .ok () w') :
    Filling slot other n Q is w w' := by
  induction is generalizing w with
  | nil =>
      cases h
      exact ⟨rfl, fun _ _ => rfl, fun i hi => (List.not_mem_nil hi).elim, rfl⟩
  | cons i is ih =>
      obtain ⟨hi, his⟩ := List.nodup_cons.mp his
      obtain ⟨⟨⟩, w₁, hfirst, hrest⟩ := run_bind_eq_ok.mp h
      obtain ⟨hfreei, hfreeis⟩ := List.forall_mem_cons.mp hfree
      have hone := hround i List.mem_cons_self w w₁ hfreei hfirst
      have hfree₁ : ∀ j ∈ is, free (slot w₁ j) := by
        intro j hj
        rw [hone.unseen j fun hmem => hi (List.mem_singleton.mp hmem ▸ hj)]
        exact hfreeis j hj
      have hloop := ih his (fun j hj => hround j (List.mem_cons_of_mem i hj)) hfree₁ hrest
      -- the later rounds leave the slot of the first alone
      have hkept : slot w' i = slot w₁ i := hloop.unseen i hi
      refine ⟨hloop.other.trans hone.other, fun j hj => ?_, ?_, ?_⟩
      · rw [hloop.unseen j fun hmem => hj (List.mem_cons_of_mem i hmem)]
        exact hone.unseen j fun hmem => hj (List.mem_singleton.mp hmem ▸ List.mem_cons_self)
      · refine List.forall_mem_cons.mpr ⟨?_, hloop.seen⟩
        rw [hkept]
        exact hone.seen i (List.mem_singleton_self i)
      · have hcount := hone.count
        simp only [List.map_cons, List.map_nil, List.sum_cons, List.sum_nil] at hcount ⊢
        rw [hloop.count, hcount, hkept]
        omega

end Filling

/-- The element of the base where all operands have one. -/
def commonElem (elems : Digit → Option α) (idxs : List (ElemIdx α)) (i : Digit) : Option α :=
  if ∀ idx ∈ idxs, (idx.elems i).isSome = true then elems i else none

/-- **One round** over a terminal element. -/
theorem filling_elemRound {elems : Digit → Option α} {idxs : List (ElemIdx α)} {i : Digit} {w w' : Walk α}
    (hfree : w.result.elems i = none) (h : (elemRound elems idxs i).run w = .ok () w') :
    Filling (fun w => w.result.elems) (fun w => w.result.idxs) (fun slot => slot.toList.length)
      (fun i slot => slot = commonElem elems idxs i) [i] w w' := by
  rw [elemRound] at h
  have hall : (idxs.all fun idx => (idx.elems i).isSome) = true ↔
      ∀ idx ∈ idxs, (idx.elems i).isSome = true := List.all_eq_true
  split at h
  · rename_i helem
    cases h
    refine ⟨rfl, fun _ _ => rfl, List.forall_mem_singleton.mpr ?_, ?_⟩
    · rw [hfree, commonElem, helem, ite_self]
    · rw [List.map_singleton, List.sum_singleton, hfree]
      rfl
  · rename_i elem helem
    split at h
    · rename_i hcommon
      cases h
      refine ⟨rfl, fun j hj => ?_, List.forall_mem_singleton.mpr ?_, ?_⟩
      · rw [ElemIdx.elems_node, Function.update_of_ne fun hji => hj (List.mem_singleton.mpr hji)]
      · rw [ElemIdx.elems_node, Function.update_self, commonElem, if_pos (hall.mp hcommon), helem]
      · rw [List.map_singleton, List.sum_singleton, ElemIdx.elems_node, Function.update_self]
        rfl
    · rename_i hcommon
      cases h
      refine ⟨rfl, fun _ _ => rfl, List.forall_mem_singleton.mpr ?_, ?_⟩
      · rw [hfree, commonElem, if_neg fun hc => hcommon (hall.mpr hc)]
      · rw [List.map_singleton, List.sum_singleton, hfree]
        rfl

/-- The element that the base has under the digits, where all operands have one. -/
def common (base : ElemIdx α) (idxs : List (ElemIdx α)) (ds : List Digit) : Option α :=
  if ∀ idx ∈ idxs, (idx.lookup ds).isSome = true then base.lookup ds else none

/-- **The walk leaves the common elements in an empty folder and counts them.** -/
structure Walked (base : ElemIdx α) (idxs : List (ElemIdx α)) (w w' : Walk α) : Prop where
  /-- The elements. -/
  lookup : ∀ ds, w'.result.lookup ds = common base idxs ds
  /-- The count. -/
  count : w'.numElems = w.numElems + size w'.result

/-- Without a subfolder in one of the operands there is nothing in common below it. -/
theorem common_of_isNull {base : ElemIdx α} {idxs : List (ElemIdx α)} {i : Digit} {ds : List Digit}
    (h : ((base.idxs i).isNull || idxs.any fun idx => (idx.idxs i).isNull) = true) :
    common (base.idxs i) (idxs.map fun idx => idx.idxs i) ds = none := by
  rw [common]
  split
  · rename_i hall
    rcases Bool.or_eq_true_iff.mp h with hnull | hany
    · cases hbase : base.idxs i with
      | null => exact ElemIdx.lookup_null ds
      | node _ _ =>
          rw [hbase] at hnull
          cases hnull
    · obtain ⟨idx, hidx, hnull⟩ := List.any_eq_true.mp hany
      have hsome := hall _ (List.mem_map_of_mem hidx)
      cases hsub : idx.idxs i with
      | null =>
          rw [hsub, ElemIdx.lookup_null] at hsome
          cases hsome
      | node _ _ =>
          rw [hsub] at hnull
          cases hnull
  · rfl

/-- A page that is given is one page less, and nothing else has changed. -/
theorem run_elemIdxNew {w w' : Walk α} (h : elemIdxNew.run w = .ok () w') :
    w'.result = w.result ∧ w'.numElems = w.numElems ∧ w.room = w'.room + 1 := by
  have hrun : elemIdxNew.run w = match w.room with
    | 0 => .error .nomem w
    | room + 1 => .ok () { w with room } := rfl
  rw [hrun] at h
  split at h
  · cases h
  · rename_i room hroom
    cases h
    exact ⟨rfl, rfl, hroom⟩

/-- **One round** over a subfolder. -/
theorem filling_idxRound (base : ElemIdx α) {idxs : List (ElemIdx α)}
    {nested : Digit → EStateM KndErr (Walk α) PUnit} {i : Digit} {w w' : Walk α}
    (hnested : (base.idxs i).isNull = false → ∀ w w', (∀ ds, w.result.lookup ds = none) →
      (nested i).run w = .ok () w' → Walked (base.idxs i) (idxs.map fun idx => idx.idxs i) w w')
    (hfree : ∀ ds, (w.result.idxs i).lookup ds = none)
    (h : (idxRound idxs base.idxs nested i).run w = .ok () w') :
    Filling (fun w => w.result.idxs) (fun w => w.result.elems) size
      (fun i slot => ∀ ds, slot.lookup ds = common (base.idxs i) (idxs.map fun idx => idx.idxs i) ds) [i] w w' := by
  rw [idxRound] at h
  split at h
  · rename_i hnull
    cases h
    refine ⟨rfl, fun _ _ => rfl, List.forall_mem_singleton.mpr fun ds => ?_, ?_⟩
    · rw [hfree, common_of_isNull hnull]
    · rw [List.map_singleton, List.sum_singleton, size_eq_zero hfree]
      rfl
  · rename_i hnull
    obtain ⟨⟨⟩, w₁, hnew, hsub⟩ := run_bind_eq_ok.mp h
    obtain ⟨w₂, hrun, rfl⟩ := run_zoom_eq_ok.mp hsub
    obtain ⟨hresult, hcount, -⟩ := run_elemIdxNew hnew
    have hwalked := hnested (by simpa using fun h : _ = true => hnull (by rw [h, Bool.true_or])) _ _
      lookup_new hrun
    refine ⟨?_, fun j hj => ?_, List.forall_mem_singleton.mpr fun ds => ?_, ?_⟩
    · rw [hresult]
      rfl
    · rw [ElemIdx.idxs_node, Function.update_of_ne fun hji => hj (List.mem_singleton.mpr hji), hresult]
    · rw [ElemIdx.idxs_node, Function.update_self]
      exact hwalked.lookup ds
    · rw [List.map_singleton, List.sum_singleton, ElemIdx.idxs_node, Function.update_self, ← hcount]
      exact hwalked.count

/-- **A walk that returns** into an empty folder. -/
theorem walked_traverse {base : ElemIdx α} {idxs : List (ElemIdx α)} (hbase : base.isNull = false) {w w' : Walk α}
    (hempty : ∀ ds, w.result.lookup ds = none) (h : (traverse base idxs).run w = .ok () w') :
    Walked base idxs w w' := by
  induction base generalizing idxs w w' with
  | null => cases hbase
  | node elems folders ih =>
      obtain ⟨⟨⟩, w₁, helems, hfolders⟩ := run_bind_eq_ok.mp h
      have hown := filling_forM (fun slot => slot = none) (List.nodup_finRange 62)
        (fun i _ w w' => filling_elemRound) (fun i _ => hempty [i]) helems
      have hkept : w₁.result.idxs = w.result.idxs := hown.other
      have hfree : ∀ i ∈ List.finRange 62, ∀ ds, (w₁.result.idxs i).lookup ds = none := by
        intro i _ ds
        rw [hkept]
        cases ds with
        | nil => rfl
        | cons j ds => exact hempty (i :: j :: ds)
      have hbelow := filling_forM (fun slot : ElemIdx α => ∀ ds, slot.lookup ds = none)
        (List.nodup_finRange 62)
        (fun i _ w w' => filling_idxRound (.node elems folders) fun hnull w w' => ih i hnull) hfree hfolders
      have hslots : w'.result.elems = w₁.result.elems := hbelow.other
      refine ⟨fun ds => ?_, ?_⟩
      · cases ds with
        | nil => simp [common]
        | cons i ds =>
            cases ds with
            | nil =>
                rw [ElemIdx.lookup_singleton, hslots]
                exact hown.seen i (List.mem_finRange i)
            | cons j ds =>
                rw [ElemIdx.lookup_cons (List.cons_ne_nil j ds)]
                have := hbelow.seen i (List.mem_finRange i) (j :: ds)
                rw [this, common, common]
                simp only [List.forall_mem_map, ElemIdx.lookup_cons (List.cons_ne_nil j ds)]
      · have hsize : size w'.result = ((List.finRange 62).map fun i => (w₁.result.elems i).toList.length).sum
            + ((List.finRange 62).map fun i => size (w'.result.idxs i)).sum := by
          rw [← hslots]
          exact size_eq w'.result
        rw [hbelow.count, hown.count, hsize]
        omega


/-! ## (4) The walk returns -/

/-- **Rounds that return** make a loop that returns, as long as there are pages for all of them. -/
theorem returns_forM (round : Digit → EStateM KndErr (Walk α) PUnit) (cost : Digit → Nat) (is : List Digit)
    (hround : ∀ i w, cost i ≤ w.room → ∃ w', (round i).run w = .ok () w' ∧ w.room ≤ w'.room + cost i)
    {w : Walk α} (h : (is.map cost).sum ≤ w.room) :
    ∃ w', (is.forM round).run w = .ok () w' ∧ w.room ≤ w'.room + (is.map cost).sum := by
  induction is generalizing w with
  | nil => exact ⟨w, rfl, Nat.le_refl _⟩
  | cons i is ih =>
      rw [List.map_cons, List.sum_cons] at h ⊢
      obtain ⟨w₁, hfirst, hroom⟩ := hround i w (by omega)
      obtain ⟨w', hrest, hroom'⟩ := ih (w := w₁) (by omega)
      exact ⟨w', run_bind_eq_ok.mpr ⟨⟨⟩, w₁, hfirst, hrest⟩, by omega⟩

/-- A round over a terminal element takes no page. -/
theorem returns_elemRound (elems : Digit → Option α) (idxs : List (ElemIdx α)) (i : Digit) (w : Walk α) :
    ∃ w', (elemRound elems idxs i).run w = .ok () w' ∧ w.room ≤ w'.room + 0 := by
  rw [elemRound]
  cases elems i with
  | none => exact ⟨w, rfl, Nat.le_refl _⟩
  | some elem =>
      by_cases hall : (idxs.all fun idx => (idx.elems i).isSome) = true
      · simp only [if_pos hall]
        exact ⟨_, rfl, Nat.le_refl _⟩
      · simp only [if_neg hall]
        exact ⟨w, rfl, Nat.le_refl _⟩

/-- A round over a subfolder takes a page for the folder and what the walk below it takes. -/
theorem returns_idxRound {idxs : List (ElemIdx α)} {folders : Digit → ElemIdx α}
    {nested : Digit → EStateM KndErr (Walk α) PUnit} {i : Digit}
    (hnested : ∀ w, subfolders (folders i) ≤ w.room →
      ∃ w', (nested i).run w = .ok () w' ∧ w.room ≤ w'.room + subfolders (folders i)) {w : Walk α}
    (h : (if (folders i).isNull then 0 else subfolders (folders i) + 1) ≤ w.room) :
    ∃ w', (idxRound idxs folders nested i).run w = .ok () w' ∧
      w.room ≤ w'.room + if (folders i).isNull then 0 else subfolders (folders i) + 1 := by
  by_cases hskip : ((folders i).isNull || idxs.any fun idx => (idx.idxs i).isNull) = true
  · simp only [idxRound, if_pos hskip]
    exact ⟨w, rfl, Nat.le_add_right _ _⟩
  · have hnull : (folders i).isNull = false := by
      simpa using fun h : _ = true => hskip (by rw [h, Bool.true_or])
    rw [hnull, if_neg Bool.false_ne_true] at h ⊢
    simp only [idxRound, if_neg hskip]
    have hnew : elemIdxNew.run w = .ok () { w with room := w.room - 1 } := by
      have hroom : w.room = w.room - 1 + 1 := by omega
      have hrun : elemIdxNew.run w = match w.room with
        | 0 => .error .nomem w
        | room + 1 => .ok () { w with room } := rfl
      rw [hrun, hroom]
      rfl
    obtain ⟨w', hsub, hroom⟩ := hnested { w with result := .new, room := w.room - 1 } (by simp only; omega)
    refine ⟨_, run_bind_eq_ok.mpr ⟨⟨⟩, _, hnew, run_zoom_eq_ok.mpr ⟨w', hsub, rfl⟩⟩, ?_⟩
    simp only at hroom ⊢
    omega

/-- **The walk returns** when there is a page for every folder of the base. -/
theorem returns_traverse (base : ElemIdx α) (idxs : List (ElemIdx α)) {w : Walk α}
    (h : subfolders base ≤ w.room) :
    ∃ w', (traverse base idxs).run w = .ok () w' ∧ w.room ≤ w'.room + subfolders base := by
  induction base generalizing idxs w with
  | null => exact ⟨w, rfl, Nat.le_add_right _ _⟩
  | node elems folders ih =>
      have hzero : ((List.finRange 62).map fun _ : Digit => 0).sum = 0 := by simp
      obtain ⟨w₁, helems, hroom₁⟩ := returns_forM (elemRound elems idxs) (fun _ => 0) (List.finRange 62)
        (fun i w _ => returns_elemRound elems idxs i w) (w := w) (by rw [hzero]; exact Nat.zero_le _)
      rw [hzero] at hroom₁
      have hrest := returns_forM
        (idxRound idxs folders fun i => traverse (folders i) (idxs.map fun idx => idx.idxs i)) _ (List.finRange 62)
        (fun i w hroom => returns_idxRound (fun w => ih i _) hroom) (le_trans h hroom₁)
      obtain ⟨w', hfolders, hroom'⟩ := hrest
      refine ⟨w', run_bind_eq_ok.mpr ⟨⟨⟩, w₁, helems, hfolders⟩, ?_⟩
      rw [subfolders]
      omega

/-! ## (5) The functions -/

/-- What a call of an intersection works on. -/
structure Call (S : Type) where
  /-- `self`: the result. -/
  self : S
  /-- `sets`: the operands, in an array of the caller. -/
  sets : List S
  /-- The pages that the mempool can still give. -/
  room : Nat

/-- `knd_set_intersect` once the operands are sorted: the smallest one is taken as a base. -/
def intersectSorted (base : KndSet α) (rest : List (KndSet α)) : EStateM KndErr (Call (KndSet α)) PUnit :=
  zoom (fun c => ⟨c.self.idx, c.self.numElems, c.self.numValidElems, c.room⟩)
    (fun w c =>
      { c with
        self := { c.self with idx := w.result, numElems := w.numElems, numValidElems := w.numValidElems }
        sets := base :: rest
        room := w.room })
    (traverse base.idx (rest.map KndSet.idx))

/-- `knd_set_intersect`, up to the order in which `qsort` leaves operands of one size. The arrays on the stack
have room for `KND_MAX_CLAUSES` operands. -/
def kndSetIntersect (qsort : List (KndSet α) → List (KndSet α)) : EStateM KndErr (Call (KndSet α)) PUnit := do
  let c ← get
  if c.sets.length = 1 then throw .fail
  else
    match qsort c.sets with
    | [] => throw .fail   -- `sets[0]` of no sets
    | base :: rest => intersectSorted base rest

/-- `knd_shared_set_intersect` once the operands are sorted: the smallest one is taken as a base. -/
def sharedIntersectSorted (base : SharedSet α) (rest : List (SharedSet α)) :
    EStateM KndErr (Call (SharedSet α)) PUnit :=
  zoom (fun c => ⟨c.self.idx, c.self.numElems, c.self.numValidElems, c.room⟩)
    (fun w c =>
      { c with
        self := { c.self with idx := w.result, numElems := w.numElems, numValidElems := w.numValidElems }
        sets := base :: rest
        room := w.room })
    (traverse base.idx (rest.map SharedSet.idx))

/-- `knd_shared_set_intersect`, up to the order in which `qsort` leaves operands of one size. -/
def kndSharedSetIntersect (qsort : List (SharedSet α) → List (SharedSet α)) :
    EStateM KndErr (Call (SharedSet α)) PUnit := do
  let c ← get
  if c.sets.length ≤ 1 then throw .fail   -- `assert(num_sets > 1)`
  else
    match qsort c.sets with
    | [] => throw .fail   -- `sets[0]` of no sets
    | base :: rest => sharedIntersectSorted base rest

/-- **What `qsort` guarantees** with `compare_set_by_size_ascend`: the same sets in ascending order of
`num_elems`. The order of sets of one size is not specified. -/
structure SortsBySize {S : Type} (numElems : S → Nat) (qsort : List S → List S) : Prop where
  /-- The same sets. -/
  perm : ∀ sets, (qsort sets).Perm sets
  /-- In ascending order. -/
  sorted : ∀ sets, (qsort sets).Pairwise fun a b => numElems a ≤ numElems b

/-! ## (6) Sets made by additions -/

/-- **A set made by additions** to a new one. -/
inductive Built : KndSet α → Prop
  /-- `knd_set_new`. -/
  | new : Built {}
  /-- The owner of the set says whether elements may be overwritten. -/
  | allow {s : KndSet α} (allowOverwrite : Bool) : Built s → Built { s with allowOverwrite }
  /-- `knd_set_add` under a base-62 key. -/
  | add {s : KndSet α} (ds : List Digit) (elem : α) :
      ds ≠ [] → Built s → Built (kndSetAdd s (digitsKey ds) elem).2
  /-- `knd_set_add` that has run out of pages: it may have made some of the folders. -/
  | nomem {s : KndSet α} (idx : ElemIdx α) :
      idx.isNull = false → (∀ ds, idx.lookup ds = s.idx.lookup ds) → Built s → Built { s with idx }

/-- **A shared set made by additions** to a new one. -/
inductive SharedBuilt : SharedSet α → Prop
  /-- `knd_shared_set_new`. -/
  | new : SharedBuilt {}
  /-- The owner of the set says whether elements may be overwritten. -/
  | allow {s : SharedSet α} (allowOverwrite : Bool) : SharedBuilt s → SharedBuilt { s with allowOverwrite }
  /-- `knd_shared_set_add` under a base-62 key. -/
  | add {s : SharedSet α} (ds : List Digit) (elem : α) :
      ds ≠ [] → SharedBuilt s → SharedBuilt (kndSharedSetAdd s (digitsKey ds) elem).2
  /-- `knd_shared_set_add` that has run out of pages: it may have made some of the folders. -/
  | nomem {s : SharedSet α} (idx : ElemIdx α) :
      idx.isNull = false → (∀ ds, idx.lookup ds = s.idx.lookup ds) → SharedBuilt s → SharedBuilt { s with idx }

/-- A returning insertion of a new key makes a folder larger by one element. -/
theorem size_saveElem_ok {allowOverwrite : Bool} {elem : α} {ds : List Digit} {idx idx' : ElemIdx α}
    (hfree : idx.lookup ds = none) (h : saveElem allowOverwrite elem (digitsKey ds) idx = (.ok (), idx')) :
    size idx' = size idx + 1 := by
  have hcases := saveElem_cases allowOverwrite elem (digitsKey ds) idx
  rw [h] at hcases
  obtain ⟨ds', hds, -, -, hlookup⟩ := hcases
  obtain rfl := digitsKey_inj.mp hds
  have hnew : digitsKey ds ∉ keys idx := by
    rw [digitsKey_mem_keys, hfree]
    exact Bool.false_ne_true
  have hkeys : (keys idx').Perm (digitsKey ds :: keys idx) := by
    rw [List.perm_ext_iff_of_nodup (nodup_keys idx') (List.nodup_cons.mpr ⟨hnew, nodup_keys idx⟩)]
    intro k
    simp only [mem_keys, List.mem_cons, getElem_eq_ok, hlookup]
    constructor
    · rintro ⟨a, es, rfl, hes⟩
      by_cases heq : es = ds
      · exact .inl (by rw [heq])
      · rw [if_neg heq] at hes
        exact .inr ⟨a, es, rfl, hes⟩
    · rintro (rfl | ⟨a, es, rfl, hes⟩)
      · exact ⟨elem, ds, rfl, if_pos rfl⟩
      · refine ⟨a, es, rfl, ?_⟩
        rw [if_neg]
        · exact hes
        · rintro rfl
          rw [hfree] at hes
          cases hes
  rw [← length_keys, hkeys.length_eq, List.length_cons, length_keys]

/-- A refused insertion leaves the size as it was. -/
theorem size_saveElem_error {allowOverwrite : Bool} {elem : α} {key : List UInt8} {idx idx' : ElemIdx α}
    {e : KndErr} (h : saveElem allowOverwrite elem key idx = (.error e, idx')) : size idx' = size idx := by
  have hcases := saveElem_cases allowOverwrite elem key idx
  rw [h] at hcases
  have hkeys : (keys idx').Perm (keys idx) := by
    rw [List.perm_ext_iff_of_nodup (nodup_keys idx') (nodup_keys idx)]
    intro k
    simp only [mem_keys, getElem_eq_ok, hcases]
  rw [← length_keys, hkeys.length_eq, length_keys]

/-- The root stays where it is. -/
theorem isNull_saveElem (allowOverwrite : Bool) (elem : α) (key : List UInt8) {idx : ElemIdx α}
    (h : idx.isNull = false) : (saveElem allowOverwrite elem key idx).2.isNull = false := by
  match key with
  | [] => exact h
  | [c] =>
      rw [saveElem]
      split
      · exact h
      · split
        · exact h
        · rfl
  | c :: d :: key =>
      rw [saveElem]
      split
      · exact h
      · rfl

/-- **A set made by additions** has a root. -/
theorem Built.root {s : KndSet α} (h : Built s) : s.idx.isNull = false := by
  induction h with
  | new => rfl
  | allow _ _ ih => exact ih
  | @add s ds elem _ _ ih =>
      have hnull := isNull_saveElem s.allowOverwrite elem (digitsKey ds) ih
      rw [kndSetAdd]
      split <;> rename_i hsave <;> rw [hsave] at hnull <;> exact hnull
  | nomem _ hnull => exact hnull

theorem SharedBuilt.root {s : SharedSet α} (h : SharedBuilt s) : s.idx.isNull = false := by
  induction h with
  | new => rfl
  | allow _ _ ih => exact ih
  | @add s ds elem _ _ ih =>
      have hnull := isNull_saveElem s.allowOverwrite elem (digitsKey ds) ih
      rw [kndSharedSetAdd]
      split <;> rename_i hsave <;> rw [hsave] at hnull <;> exact hnull
  | nomem _ hnull => exact hnull

/-- **An addition that overwrites nothing** keeps `num_elems` the number of the elements. -/
theorem numElems_kndSetAdd {s : KndSet α} (hs : s.numElems = size s.idx) {ds : List Digit} (elem : α)
    (hfree : s.allowOverwrite = true → s.idx.lookup ds = none) :
    (kndSetAdd s (digitsKey ds) elem).2.numElems = size (kndSetAdd s (digitsKey ds) elem).2.idx := by
  have hcases := saveElem_cases s.allowOverwrite elem (digitsKey ds) s.idx
  rw [kndSetAdd]
  split
  · rename_i e idx hsave
    exact hs.trans (size_saveElem_error hsave).symm
  · rename_i idx hsave
    rw [hsave] at hcases
    obtain ⟨es, hkey, -, hnew, -⟩ := hcases
    obtain rfl := digitsKey_inj.mp hkey
    have hnone : s.idx.lookup ds = none := by
      cases how : s.allowOverwrite with
      | false => exact hnew how
      | true => exact hfree how
    show s.numElems + 1 = size idx
    rw [size_saveElem_ok hnone hsave, hs]

/-! ## (7) Exactness -/

/-- **An exact intersection** of `sets`, as the call `c` leaves it: the operands are those it was given, a
lookup finds the keys that all operands have, with the elements of one of the smallest operands, and
`num_elems` is the number of these keys. -/
structure Exact {S : Type} (idx : S → ElemIdx α) (numElems : S → Nat) (sets : List S) (c : Call S) : Prop where
  /-- The operands, in the order in which `qsort` left them. -/
  operands : c.sets.Perm sets
  /-- What a lookup finds. -/
  found : ∃ base ∈ sets, (∀ s ∈ sets, (keys (idx base)).length ≤ (keys (idx s)).length) ∧
    ∀ key a, getElem key (idx c.self) = .ok a ↔
      (∀ s ∈ sets, key ∈ keys (idx s)) ∧ getElem key (idx base) = .ok a
  /-- The count. -/
  count : ∃ shared : List (List UInt8), shared.Nodup ∧ (∀ key, key ∈ shared ↔ ∀ s ∈ sets, key ∈ keys (idx s)) ∧
    numElems c.self = shared.length

/-- **What an intersection is**, with the operand `base` that comes first in the order of `num_elems`. -/
structure Intersected {S : Type} (idx : S → ElemIdx α) (numElems : S → Nat) (sets : List S) (base : S)
    (c : Call S) : Prop where
  /-- The operands, in the order in which `qsort` left them. -/
  operands : c.sets.Perm sets
  /-- What a lookup finds. -/
  found : ∀ key a, getElem key (idx c.self) = .ok a ↔
    (∀ s ∈ sets, key ∈ keys (idx s)) ∧ getElem key (idx base) = .ok a
  /-- The count. -/
  count : ∃ shared : List (List UInt8), shared.Nodup ∧ (∀ key, key ∈ shared ↔ ∀ s ∈ sets, key ∈ keys (idx s)) ∧
    numElems c.self = shared.length

/-- A walk over the operands makes an intersection. -/
theorem intersected_of_walked {S : Type} {idx : S → ElemIdx α} {numElems : S → Nat} {sets rest : List S} {base : S}
    {c : Call S} (hperm : (base :: rest).Perm sets) {w w' : Walk α}
    (hwalked : Walked (idx base) (rest.map idx) w w') (hzero : w.numElems = 0) (hsets : c.sets = base :: rest)
    (hidx : idx c.self = w'.result) (hcount : numElems c.self = w'.numElems) :
    Intersected idx numElems sets base c := by
  have hbase : base ∈ sets := hperm.mem_iff.mp List.mem_cons_self
  have hfound : ∀ key a, getElem key (idx c.self) = .ok a ↔
      (∀ s ∈ sets, key ∈ keys (idx s)) ∧ getElem key (idx base) = .ok a := by
    intro key a
    have hall : (∀ s ∈ sets, key ∈ keys (idx s)) ↔ key ∈ keys (idx base) ∧ ∀ s ∈ rest, key ∈ keys (idx s) := by
      rw [← List.forall_mem_cons (p := fun s => key ∈ keys (idx s))]
      exact forall_congr' fun s => by rw [hperm.mem_iff]
    have hrest : ∀ ds, (∀ s ∈ rest, digitsKey ds ∈ keys (idx s)) ↔
        ∀ x ∈ rest.map idx, (x.lookup ds).isSome = true := by
      intro ds
      rw [List.forall_mem_map]
      exact forall₂_congr fun s _ => digitsKey_mem_keys
    rw [hall, hidx, getElem_eq_ok, getElem_eq_ok]
    simp only [hwalked.lookup, common]
    constructor
    · rintro ⟨ds, rfl, hds⟩
      split at hds
      · rename_i hcommon
        exact ⟨⟨mem_keys.mpr ⟨a, getElem_eq_ok.mpr ⟨ds, rfl, hds⟩⟩, (hrest ds).mpr hcommon⟩, ds, rfl, hds⟩
      · cases hds
    · rintro ⟨⟨-, hcommon⟩, ds, rfl, hds⟩
      exact ⟨ds, rfl, by rw [if_pos ((hrest ds).mp hcommon)]; exact hds⟩
  refine ⟨hsets ▸ hperm, hfound, ⟨keys (idx c.self), nodup_keys _, fun key => ⟨fun hkey => ?_, fun hall => ?_⟩, ?_⟩⟩
  · obtain ⟨a, ha⟩ := mem_keys.mp hkey
    exact ((hfound key a).mp ha).1
  · obtain ⟨a, ha⟩ := mem_keys.mp (hall base hbase)
    exact mem_keys.mpr ⟨a, (hfound key a).mpr ⟨hall, ha⟩⟩
  · rw [length_keys, hcount, hwalked.count, hzero, hidx, Nat.zero_add]

/-- **The operand `base` does for one of the smallest**: one of them has the same elements under the common keys. -/
def DoesForSmallest {S : Type} (idx : S → ElemIdx α) (sets : List S) (base : S) : Prop :=
  ∃ smallest ∈ sets, (∀ s ∈ sets, (keys (idx smallest)).length ≤ (keys (idx s)).length) ∧
    ∀ key, (∀ s ∈ sets, key ∈ keys (idx s)) → getElem key (idx base) = getElem key (idx smallest)

/-- **An intersection is exact** if its first operand does for one of the smallest, and only then. -/
theorem Intersected.exact_iff_least {S : Type} {idx : S → ElemIdx α} {numElems : S → Nat} {sets : List S} {base : S}
    {c : Call S} (h : Intersected idx numElems sets base c) :
    Exact idx numElems sets c ↔ DoesForSmallest idx sets base := by
  constructor
  · rintro ⟨-, ⟨smallest, hmem, hleast, hfound⟩, -⟩
    refine ⟨smallest, hmem, hleast, fun key hall => ?_⟩
    obtain ⟨a, ha⟩ := mem_keys.mp (hall smallest hmem)
    rw [ha]
    exact ((h.found key a).mp ((hfound key a).mpr ⟨hall, ha⟩)).2
  · rintro ⟨smallest, hmem, hleast, hsame⟩
    refine ⟨h.operands, ⟨smallest, hmem, hleast, fun key a => ?_⟩, h.count⟩
    rw [h.found]
    exact and_congr_right fun hall => by rw [hsame key hall]

/-- **A call that returns** of `knd_set_intersect`. -/
theorem intersected_kndSetIntersect {qsort : List (KndSet α) → List (KndSet α)}
    (hsort : SortsBySize KndSet.numElems qsort) {c c' : Call (KndSet α)} (hsets : ∀ s ∈ c.sets, Built s)
    (hempty : ∀ ds, c.self.idx.lookup ds = none) (hzero : c.self.numElems = 0)
    (h : (kndSetIntersect qsort).run c = .ok () c') :
    ∃ base, (qsort c.sets).head? = some base ∧ Intersected KndSet.idx KndSet.numElems c.sets base c' := by
  obtain ⟨c₀, c₁, hget, h⟩ := run_bind_eq_ok.mp h
  cases hget
  split at h
  · cases h
  · split at h
    · cases h
    · rename_i base rest hqsort
      obtain ⟨w', hrun, rfl⟩ := run_zoom_eq_ok.mp h
      have hperm : (base :: rest).Perm c.sets := hqsort ▸ hsort.perm c.sets
      have hbase := (hsets base (hperm.mem_iff.mp List.mem_cons_self)).root
      exact ⟨base, by rw [hqsort]; rfl,
        intersected_of_walked hperm (walked_traverse hbase hempty hrun) hzero rfl rfl rfl⟩

/-- **A call that returns** of `knd_shared_set_intersect`. -/
theorem intersected_kndSharedSetIntersect {qsort : List (SharedSet α) → List (SharedSet α)}
    (hsort : SortsBySize SharedSet.numElems qsort) {c c' : Call (SharedSet α)}
    (hsets : ∀ s ∈ c.sets, SharedBuilt s) (hempty : ∀ ds, c.self.idx.lookup ds = none)
    (hzero : c.self.numElems = 0) (h : (kndSharedSetIntersect qsort).run c = .ok () c') :
    ∃ base, (qsort c.sets).head? = some base ∧ Intersected SharedSet.idx SharedSet.numElems c.sets base c' := by
  obtain ⟨c₀, c₁, hget, h⟩ := run_bind_eq_ok.mp h
  cases hget
  split at h
  · cases h
  · split at h
    · cases h
    · rename_i base rest hqsort
      obtain ⟨w', hrun, rfl⟩ := run_zoom_eq_ok.mp h
      have hperm : (base :: rest).Perm c.sets := hqsort ▸ hsort.perm c.sets
      have hbase := (hsets base (hperm.mem_iff.mp List.mem_cons_self)).root
      exact ⟨base, by rw [hqsort]; rfl,
        intersected_of_walked hperm (walked_traverse hbase hempty hrun) hzero rfl rfl rfl⟩

/-- **A call of `knd_set_intersect` returns** when the mempool has a page for every folder of an operand. -/
theorem returns_kndSetIntersect {qsort : List (KndSet α) → List (KndSet α)}
    (hsort : SortsBySize KndSet.numElems qsort) {c : Call (KndSet α)} (hlength : 2 ≤ c.sets.length)
    (hroom : ∀ s ∈ c.sets, subfolders s.idx ≤ c.room) : ∃ c', (kndSetIntersect qsort).run c = .ok () c' := by
  have hperm := hsort.perm c.sets
  cases hqsort : qsort c.sets with
  | nil =>
      rw [hqsort] at hperm
      rw [← hperm.length_eq] at hlength
      cases hlength
  | cons base rest =>
      rw [hqsort] at hperm
      obtain ⟨w', hrun, -⟩ := returns_traverse base.idx (rest.map KndSet.idx)
        (w := ⟨c.self.idx, c.self.numElems, c.self.numValidElems, c.room⟩)
        (hroom base (hperm.mem_iff.mp List.mem_cons_self))
      have hone : ¬ c.sets.length = 1 := by omega
      have hcall : (kndSetIntersect qsort).run c = (intersectSorted base rest).run c := by
        have hget : (get : EStateM KndErr (Call (KndSet α)) (Call (KndSet α))).run c = .ok c c := rfl
        rw [kndSetIntersect, run_bind_of_ok hget, if_neg hone, hqsort]
      exact ⟨_, hcall.trans (run_zoom_eq_ok.mpr ⟨w', hrun, rfl⟩)⟩

/-- **A call of `knd_shared_set_intersect` returns** under the same condition. -/
theorem returns_kndSharedSetIntersect {qsort : List (SharedSet α) → List (SharedSet α)}
    (hsort : SortsBySize SharedSet.numElems qsort) {c : Call (SharedSet α)} (hlength : 2 ≤ c.sets.length)
    (hroom : ∀ s ∈ c.sets, subfolders s.idx ≤ c.room) :
    ∃ c', (kndSharedSetIntersect qsort).run c = .ok () c' := by
  have hperm := hsort.perm c.sets
  cases hqsort : qsort c.sets with
  | nil =>
      rw [hqsort] at hperm
      rw [← hperm.length_eq] at hlength
      cases hlength
  | cons base rest =>
      rw [hqsort] at hperm
      obtain ⟨w', hrun, -⟩ := returns_traverse base.idx (rest.map SharedSet.idx)
        (w := ⟨c.self.idx, c.self.numElems, c.self.numValidElems, c.room⟩)
        (hroom base (hperm.mem_iff.mp List.mem_cons_self))
      have hone : ¬ c.sets.length ≤ 1 := by omega
      have hcall : (kndSharedSetIntersect qsort).run c = (sharedIntersectSorted base rest).run c := by
        have hget : (get : EStateM KndErr (Call (SharedSet α)) (Call (SharedSet α))).run c = .ok c c := rfl
        rw [kndSharedSetIntersect, run_bind_of_ok hget, if_neg hone, hqsort]
      exact ⟨_, hcall.trans (run_zoom_eq_ok.mpr ⟨w', hrun, rfl⟩)⟩

/-- A sort that keeps the order of sets of one size. -/
def sortBySize {S : Type} (numElems : S → Nat) (sets : List S) : List S :=
  sets.mergeSort fun a b => numElems a ≤ numElems b

theorem sortsBySize_sortBySize {S : Type} (numElems : S → Nat) : SortsBySize numElems (sortBySize numElems) where
  perm sets := List.mergeSort_perm sets _
  sorted sets := by
    have h := @List.pairwise_mergeSort S (fun a b => decide (numElems a ≤ numElems b))
      (fun a b c hab hbc => by
        simp only [decide_eq_true_eq] at hab hbc ⊢
        omega)
      (fun a b => by
        simp only [Bool.or_eq_true, decide_eq_true_eq]
        omega) sets
    exact h.imp fun hab => decide_eq_true_eq.mp hab

/-- **An operand is the least by `num_elems`**: `qsort` may put it first. -/
def Least {S : Type} (numElems : S → Nat) (sets : List S) (base : S) : Prop :=
  base ∈ sets ∧ ∀ s ∈ sets, numElems base ≤ numElems s

theorem SortsBySize.least {S : Type} {numElems : S → Nat} {qsort : List S → List S} (h : SortsBySize numElems qsort)
    {sets : List S} {base : S} (hbase : (qsort sets).head? = some base) : Least numElems sets base := by
  obtain ⟨rest, hrest⟩ := List.head?_eq_some_iff.mp hbase
  have hperm := h.perm sets
  have hsorted := h.sorted sets
  rw [hrest] at hperm hsorted
  refine ⟨hperm.mem_iff.mp List.mem_cons_self, fun s hs => ?_⟩
  rcases List.mem_cons.mp (hperm.mem_iff.mpr hs) with rfl | hs
  · exact Nat.le_refl _
  · exact (List.pairwise_cons.mp hsorted).1 s hs

/-- **Each of the least operands comes first** in one of the orders that `qsort` may make. -/
theorem Least.exists_qsort {S : Type} {numElems : S → Nat} {sets : List S} {base : S}
    (h : Least numElems sets base) :
    ∃ qsort, SortsBySize numElems qsort ∧ (qsort sets).head? = some base := by
  classical
  obtain ⟨before, after, hsets⟩ := List.append_of_mem h.1
  have hsort := sortsBySize_sortBySize numElems
  have hperm : (base :: sortBySize numElems (before ++ after)).Perm sets := by
    rw [hsets]
    exact ((hsort.perm (before ++ after)).cons base).trans List.perm_middle.symm
  refine ⟨fun l => if l = sets then base :: sortBySize numElems (before ++ after) else sortBySize numElems l,
    ⟨fun l => ?_, fun l => ?_⟩, by simp⟩
  · by_cases hl : l = sets
    · rw [if_pos hl, hl]
      exact hperm
    · rw [if_neg hl]
      exact hsort.perm l
  · by_cases hl : l = sets
    · rw [if_pos hl]
      exact List.pairwise_cons.mpr ⟨fun s hs => h.2 s (hperm.mem_iff.mp (List.mem_cons_of_mem _ hs)), hsort.sorted _⟩
    · rw [if_neg hl]
      exact hsort.sorted l

/-- **An intersection function works** for `sets`: with an empty result, in whatever order `qsort` leaves operands of
one size, a call that returns is exact, and a call returns that has a page for every folder of an operand. -/
def Works {S : Type} (idx : S → ElemIdx α) (numElems : S → Nat)
    (intersect : (List S → List S) → EStateM KndErr (Call S) PUnit) (sets : List S) : Prop :=
  ∀ qsort, SortsBySize numElems qsort → ∀ c : Call S, c.sets = sets → (∀ ds, (idx c.self).lookup ds = none) →
    numElems c.self = 0 →
      (∀ c', (intersect qsort).run c = .ok () c' → Exact idx numElems sets c') ∧
      ((∀ s ∈ sets, subfolders (idx s) ≤ c.room) → ∃ c', (intersect qsort).run c = .ok () c')

/-- **The condition**: each of the least operands by `num_elems` does for one of the smallest. -/
def LeastAreSmallest {S : Type} (idx : S → ElemIdx α) (numElems : S → Nat) (sets : List S) : Prop :=
  ∀ base, Least numElems sets base → DoesForSmallest idx sets base

/-- Where `num_elems` is the number of the elements, the least operands are the smallest. -/
theorem leastAreSmallest_of_counted {S : Type} {idx : S → ElemIdx α} {numElems : S → Nat} {sets : List S}
    (hcounted : ∀ s ∈ sets, numElems s = size (idx s)) : LeastAreSmallest idx numElems sets := by
  rintro base ⟨hbase, hleast⟩
  refine ⟨base, hbase, fun s hs => ?_, fun _ _ => rfl⟩
  rw [length_keys, length_keys, ← hcounted base hbase, ← hcounted s hs]
  exact hleast s hs

/-- What is known of the calls of an intersection function says when it works. -/
theorem works_iff {S : Type} {idx : S → ElemIdx α} {numElems : S → Nat}
    {intersect : (List S → List S) → EStateM KndErr (Call S) PUnit} {sets : List S} (empty : S)
    (hempty : (∀ ds, (idx empty).lookup ds = none) ∧ numElems empty = 0)
    (hintersected : ∀ {qsort}, SortsBySize numElems qsort → ∀ {c c' : Call S}, c.sets = sets →
      (∀ ds, (idx c.self).lookup ds = none) → numElems c.self = 0 → (intersect qsort).run c = .ok () c' →
        ∃ base, (qsort sets).head? = some base ∧ Intersected idx numElems sets base c')
    (hreturns : ∀ {qsort}, SortsBySize numElems qsort → ∀ {c : Call S}, c.sets = sets →
      (∀ s ∈ sets, subfolders (idx s) ≤ c.room) → ∃ c', (intersect qsort).run c = .ok () c') :
    Works idx numElems intersect sets ↔ LeastAreSmallest idx numElems sets := by
  constructor
  · intro hworks base hleast
    obtain ⟨qsort, hsort, hhead⟩ := hleast.exists_qsort
    -- a call with pages enough
    let c : Call S := ⟨empty, sets, (sets.map fun s => subfolders (idx s)).sum⟩
    have hroom : ∀ s ∈ sets, subfolders (idx s) ≤ c.room := fun s hs =>
      List.le_sum_of_mem (List.mem_map_of_mem hs)
    obtain ⟨c', hrun⟩ := hreturns (c := c) hsort rfl hroom
    obtain ⟨base', hhead', hinter⟩ := hintersected hsort rfl hempty.1 hempty.2 hrun
    obtain rfl := Option.some.inj (hhead.symm.trans hhead')
    exact hinter.exact_iff_least.mp ((hworks qsort hsort c rfl hempty.1 hempty.2).1 c' hrun)
  · intro hsmallest qsort hsort c hsets hself hzero
    refine ⟨fun c' hrun => ?_, hreturns hsort hsets⟩
    obtain ⟨base, hhead, hinter⟩ := hintersected hsort hsets hself hzero hrun
    exact hinter.exact_iff_least.mpr (hsmallest base (hsort.least hhead))

/-- When `knd_set_intersect` works. -/
theorem works_kndSetIntersect_iff {sets : List (KndSet α)} (hlength : 2 ≤ sets.length) (hsets : ∀ s ∈ sets, Built s) :
    Works KndSet.idx KndSet.numElems kndSetIntersect sets ↔ LeastAreSmallest KndSet.idx KndSet.numElems sets := by
  refine works_iff {} ⟨lookup_new, rfl⟩ (fun hsort c c' hc hself hzero hrun => ?_) fun hsort c hc hroom => ?_
  · subst hc
    exact intersected_kndSetIntersect hsort hsets hself hzero hrun
  · subst hc
    exact returns_kndSetIntersect hsort hlength hroom

/-- When `knd_shared_set_intersect` works. -/
theorem works_kndSharedSetIntersect_iff {sets : List (SharedSet α)} (hlength : 2 ≤ sets.length)
    (hsets : ∀ s ∈ sets, SharedBuilt s) :
    Works SharedSet.idx SharedSet.numElems kndSharedSetIntersect sets ↔
      LeastAreSmallest SharedSet.idx SharedSet.numElems sets := by
  refine works_iff {} ⟨lookup_new, rfl⟩ (fun hsort c c' hc hself hzero hrun => ?_) fun hsort c hc hroom => ?_
  · subst hc
    exact intersected_kndSharedSetIntersect hsort hsets hself hzero hrun
  · subst hc
    exact returns_kndSharedSetIntersect hsort hlength hroom

/-- **When intersections are exact**, of two sets or shared sets or more that are made by additions: if and only if
each of the least operands by `num_elems` has the same elements under the common keys as one of the smallest. -/
theorem exact_iff_leastAreSmallest :
    (∀ sets : List (KndSet α), 2 ≤ sets.length → (∀ s ∈ sets, Built s) →
      (Works KndSet.idx KndSet.numElems kndSetIntersect sets ↔
        LeastAreSmallest KndSet.idx KndSet.numElems sets)) ∧
    (∀ sets : List (SharedSet α), 2 ≤ sets.length → (∀ s ∈ sets, SharedBuilt s) →
      (Works SharedSet.idx SharedSet.numElems kndSharedSetIntersect sets ↔
        LeastAreSmallest SharedSet.idx SharedSet.numElems sets)) :=
  ⟨fun _ => works_kndSetIntersect_iff, fun _ => works_kndSharedSetIntersect_iff⟩

/-- A set of one key of two digits. -/
def pairSet (i j : Digit) (elem : Nat) : KndSet Nat := (kndSetAdd {} (digitsKey [i, j]) elem).2

/-- A set of one more key, which is shorter. -/
def largerSet (i j : Digit) (elem : Nat) : KndSet Nat := (kndSetAdd (pairSet i j elem) (digitsKey [i]) elem).2

theorem built_pairSet (i j : Digit) (elem : Nat) : Built (pairSet i j elem) := .add _ elem (List.cons_ne_nil _ _) .new

theorem built_largerSet (i j : Digit) (elem : Nat) : Built (largerSet i j elem) :=
  .add _ elem (List.cons_ne_nil _ _) (built_pairSet i j elem)

theorem numElems_pairSet (i j : Digit) (elem : Nat) : (pairSet i j elem).numElems = size (pairSet i j elem).idx :=
  numElems_kndSetAdd (size_eq_zero lookup_new).symm elem (fun h => nomatch h)

/-- The larger operand comes first, and the intersection is exact: nothing has been overwritten. -/
theorem exact_iff_leastAreSmallest_larger :
    Works KndSet.idx KndSet.numElems kndSetIntersect [largerSet 1 0 5, pairSet 1 0 7] := by
  refine (exact_iff_leastAreSmallest.1 [largerSet 1 0 5, pairSet 1 0 7] (by decide) ?_).mpr ?_
  · simpa using ⟨built_largerSet 1 0 5, built_pairSet 1 0 7⟩
  · refine leastAreSmallest_of_counted ?_
    simp only [List.forall_mem_cons]
    refine ⟨numElems_kndSetAdd (numElems_pairSet 1 0 5) 5 (fun h => ?_), numElems_pairSet 1 0 7,
      fun _ h => absurd h List.not_mem_nil⟩
    cases h

/-- A set of one key, whose element has been overwritten twice. -/
def overwrittenSet : KndSet Nat :=
  [5, 6, 7].foldl (fun s elem => (kndSetAdd s (digitsKey [⟨0, by decide⟩]) elem).2) { allowOverwrite := true }

/-- A set of this key and another one. -/
def twoKeySet : KndSet Nat :=
  (kndSetAdd (kndSetAdd {} (digitsKey [⟨0, by decide⟩]) 8).2 (digitsKey [⟨1, by decide⟩]) 9).2

theorem built_twoKeySet : Built twoKeySet := .add _ 9 (List.cons_ne_nil _ _) (.add _ 8 (List.cons_ne_nil _ _) .new)

theorem built_overwrittenSet : Built overwrittenSet :=
  .add _ 7 (List.cons_ne_nil _ _) (.add _ 6 (List.cons_ne_nil _ _) (.add _ 5 (List.cons_ne_nil _ _) (.allow true .new)))

/-- **The smallest operand is not taken**: the intersection has the element of the larger one. -/
theorem not_exact_overwritten : ¬Works KndSet.idx KndSet.numElems kndSetIntersect [overwrittenSet, twoKeySet] := by
  have hbuilt : ∀ s ∈ [overwrittenSet, twoKeySet], Built s := by
    simpa using ⟨built_overwrittenSet, built_twoKeySet⟩
  rw [works_kndSetIntersect_iff (by decide) hbuilt]
  intro hsmallest
  have hleast : Least KndSet.numElems [overwrittenSet, twoKeySet] twoKeySet := by
    refine ⟨List.mem_cons_of_mem _ List.mem_cons_self, ?_⟩
    simp only [List.forall_mem_cons]
    exact ⟨by decide +kernel, Nat.le_refl _, fun _ h => absurd h List.not_mem_nil⟩
  obtain ⟨smallest, hmem, hfewest, hsame⟩ := hsmallest twoKeySet hleast
  have hshared : ∀ s ∈ [overwrittenSet, twoKeySet], digitsKey [0] ∈ keys s.idx := by
    simp only [List.forall_mem_cons, digitsKey_mem_keys]
    exact ⟨by decide +kernel, by decide +kernel, fun _ h => absurd h List.not_mem_nil⟩
  rcases List.mem_cons.mp hmem with rfl | hmem
  · -- the element under the common key is another one
    have := hsame (digitsKey [0]) hshared
    exact absurd this (by decide +kernel)
  · -- the other set has a key more
    obtain rfl := List.mem_singleton.mp hmem
    have := hfewest overwrittenSet List.mem_cons_self
    rw [length_keys, length_keys] at this
    exact absurd this (by decide +kernel)

end SetIntersect

end Knowdy
