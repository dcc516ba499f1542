import Knowdy.Output
import Mathlib.Data.List.Nodup

/-! # The shared set: a radix tree of folders

`kndSharedSet` of `knd_shared_set.h` and the lookup and insertion of `knd_shared_set.c`: a folder
has one payload slot and one subfolder slot for each base-62 digit, and a key is walked from its
first character on.

* `ElemIdx`, `SharedSetDir`, `SharedSet` — the tree, the in-memory directory of a file, the set.
* `saveElem`, `getElem`, `kndSharedSetAdd`, `kndSharedSetGet` — insertion and lookup.
* `ElemIdx.entries` — the stored elements with their full ids; `mem_entries`, `nodup_entries`.
* `IdSet` — a set whose keys fit an id buffer; `IdSet.add` keeps that invariant. -/

namespace Knowdy

/-! ## (1) Data -/

/-- `struct kndSharedSetElemIdx`: `null` is the null pointer, `node` a folder. -/
inductive ElemIdx (α : Type) where
  /-- No folder. -/
  | null
  /-- A folder with its payload slots and its subfolder slots. -/
  | node (elems : Digit → Option α) (idxs : Digit → ElemIdx α)

/-- The fields of `struct kndSharedSetDir` other than its subdirs. -/
structure DirInfo where
  /-- `elem_block_sizes`. -/
  elemBlockSizes : Digit → Nat := fun _ => 0
  /-- `num_elems`. -/
  numElems : Nat := 0
  /-- `payload_block_size`. -/
  payloadBlockSize : Nat := 0
  /-- `payload_footer_size`. -/
  payloadFooterSize : Nat := 0
  /-- `num_subdirs`. -/
  numSubdirs : Nat := 0
  /-- `subdir_block_size`. -/
  subdirBlockSize : Nat := 0
  /-- `cell_max_val`. -/
  cellMaxVal : Nat := 0
  /-- `total_elems`. -/
  totalElems : Nat := 0
  /-- `global_offset`. -/
  globalOffset : Nat := 0
  /-- `total_size`. -/
  totalSize : Nat := 0
  /-- `elems_linear_scan`. -/
  elemsLinearScan : Bool := false

/-- `struct kndSharedSetDir`: the directory of one folder of a file. -/
inductive SharedSetDir where
  /-- The null pointer. -/
  | null
  /-- A directory and its subdirs. -/
  | dir (info : DirInfo) (subdirs : Digit → SharedSetDir)

/-- `total_size` of a directory, 0 for the null pointer. -/
def SharedSetDir.totalSize : SharedSetDir → Nat
  | .null => 0
  | .dir info _ => info.totalSize

/-- `total_elems` of a directory, 0 for the null pointer. -/
def SharedSetDir.totalElems : SharedSetDir → Nat
  | .null => 0
  | .dir info _ => info.totalElems

/-- `struct kndSharedSet`. -/
structure SharedSet (α : Type) where
  /-- `idx`: the root folder. -/
  idx : ElemIdx α := .node (fun _ => none) (fun _ => .null)
  /-- `num_elems`. -/
  numElems : Nat := 0
  /-- `num_valid_elems`. -/
  numValidElems : Nat := 0
  /-- `dir`: the directory of the file the set was loaded from. -/
  dir : SharedSetDir := .null
  /-- `allow_overwrite`. -/
  allowOverwrite : Bool := false

variable {α : Type}

namespace ElemIdx

/-- The payload slots of a folder (`null` has none). -/
def elems : ElemIdx α → Digit → Option α
  | .null, _ => none
  | .node elems _, i => elems i

/-- The subfolder slots of a folder. -/
def idxs : ElemIdx α → Digit → ElemIdx α
  | .null, _ => .null
  | .node _ idxs, i => idxs i

/-- A new folder as `knd_shared_set_elem_idx_new` returns it. -/
def new : ElemIdx α := .node (fun _ => none) (fun _ => .null)

/-- The folder itself, or a new one for the null pointer. -/
def orNew : ElemIdx α → ElemIdx α
  | .null => new
  | .node elems idxs => .node elems idxs

/-- Is it the null pointer? -/
def isNull : ElemIdx α → Bool
  | .null => true
  | .node _ _ => false

@[simp] theorem elems_null (i : Digit) : (null : ElemIdx α).elems i = none := rfl

@[simp] theorem idxs_null (i : Digit) : (null : ElemIdx α).idxs i = .null := rfl

@[simp] theorem elems_node (es : Digit → Option α) (ss : Digit → ElemIdx α) :
    (node es ss).elems = es := rfl

@[simp] theorem idxs_node (es : Digit → Option α) (ss : Digit → ElemIdx α) :
    (node es ss).idxs = ss := rfl

@[simp] theorem elems_orNew (idx : ElemIdx α) : idx.orNew.elems = idx.elems := by
  cases idx <;> rfl

@[simp] theorem idxs_orNew (idx : ElemIdx α) : idx.orNew.idxs = idx.idxs := by
  cases idx <;> rfl

end ElemIdx

/-! ## (2) Insertion and lookup -/

/-- `save_elem`: the return code and the folder after the call. A failed call keeps the subfolders
it has created on its way down. -/
def saveElem (allowOverwrite : Bool) (elem : α) :
    List UInt8 → ElemIdx α → Except KndErr Unit × ElemIdx α
  | [], parent => (.error .fail, parent)   -- excluded by `assert(key_size != 0)`
  | [c], parent =>
      match objIdBase c with
      | none => (.error .format, parent)
      | some i =>
          if (parent.elems i).isSome && !allowOverwrite then (.error .conflict, parent)
          else (.ok (), .node (Function.update parent.elems i (some elem)) parent.idxs)
  | c :: c' :: id, parent =>
      match objIdBase c with
      | none => (.error .format, parent)
      | some i =>
          let (rc, idx) := saveElem allowOverwrite elem (c' :: id) (parent.idxs i).orNew
          (rc, .node parent.elems (Function.update parent.idxs i idx))

/-- `get_elem`. -/
def getElem : List UInt8 → ElemIdx α → Except KndErr α
  | [], _ => .error .format   -- `*id` is the terminating NUL
  | [c], parent =>
      match objIdBase c with
      | none => .error .format
      | some i =>
          match parent.elems i with
          | none => .error .noMatch
          | some elem => .ok elem
  | c :: c' :: id, parent =>
      match objIdBase c with
      | none => .error .format
      | some i =>
          match parent.idxs i with
          | .null => .error .noMatch
          | .node es ss => getElem (c' :: id) (.node es ss)

/-- `knd_shared_set_add`. -/
def kndSharedSetAdd (self : SharedSet α) (key : List UInt8) (elem : α) :
    Except KndErr Unit × SharedSet α :=
  match saveElem self.allowOverwrite elem key self.idx with
  | (.error e, idx) => (.error e, { self with idx })
  | (.ok (), idx) =>
      (.ok (), { self with
        idx
        numElems := self.numElems + 1
        numValidElems := self.numValidElems + 1 })

/-- `knd_shared_set_get`. -/
def kndSharedSetGet (self : SharedSet α) (key : List UInt8) : Except KndErr α :=
  getElem key self.idx

/-! ## (3) The stored elements -/

namespace ElemIdx

/-- The occupied payload slots of a folder in slot order. -/
def elemList (elems : Digit → Option α) : List (Digit × α) :=
  (List.finRange 62).filterMap fun i => (elems i).map (Prod.mk i)

/-- The elements below a folder with their full ids, in the order of the traversals: a folder's own
elements first, then its subfolders. `pre` is the id of the folder. -/
def entries : ElemIdx α → List UInt8 → List (List UInt8 × α)
  | .null, _ => []
  | .node elems idxs, pre =>
      (elemList elems).map (fun p => (pre ++ [objIdSeq p.1], p.2)) ++
        (List.finRange 62).flatMap fun i => (idxs i).entries (pre ++ [objIdSeq i])

@[simp] theorem entries_null (pre : List UInt8) : (null : ElemIdx α).entries pre = [] := rfl

theorem entries_node (es : Digit → Option α) (ss : Digit → ElemIdx α) (pre : List UInt8) :
    (node es ss).entries pre = (elemList es).map (fun p => (pre ++ [objIdSeq p.1], p.2)) ++
      (List.finRange 62).flatMap fun i => (ss i).entries (pre ++ [objIdSeq i]) := rfl

/-- The slots of the listed elements are the occupied slots. -/
theorem map_fst_elemList (es : Digit → Option α) :
    (elemList es).map Prod.fst = (List.finRange 62).filter fun i => (es i).isSome := by
  unfold elemList
  induction List.finRange 62 with
  | nil => rfl
  | cons i is ih =>
      cases hi : es i with
      | none => rw [List.filterMap_cons_none (by rw [hi]; rfl), ih, List.filter_cons_of_neg (by simp [hi])]
      | some a =>
          rw [List.filterMap_cons_some (by rw [hi]; rfl), List.map_cons, ih,
            List.filter_cons_of_pos (by simp [hi])]

theorem mem_elemList {elems : Digit → Option α} {i : Digit} {a : α} :
    (i, a) ∈ elemList elems ↔ elems i = some a := by
  simp [elemList]

/-- No folder is nested so deeply that its elements have ids of more than `room` digits. -/
def Fits : Nat → ElemIdx α → Prop
  | _, .null => True
  | 0, .node _ _ => False
  | room + 1, .node _ idxs => ∀ i, (idxs i).Fits room

/-- The finite map a folder stands for, on ids given by their digits. -/
def lookup : List Digit → ElemIdx α → Option α
  | [], _ => none
  | [i], idx => idx.elems i
  | i :: j :: ds, idx => lookup (j :: ds) (idx.idxs i)

/-- Every stored element satisfies `p`. -/
def All (p : α → Prop) : ElemIdx α → Prop
  | .null => True
  | .node elems idxs => (∀ i a, elems i = some a → p a) ∧ ∀ i, (idxs i).All p

@[simp] theorem lookup_nil (idx : ElemIdx α) : idx.lookup [] = none := rfl

@[simp] theorem lookup_null (ds : List Digit) : (null : ElemIdx α).lookup ds = none := by
  induction ds with
  | nil => rfl
  | cons i ds ih =>
      cases ds with
      | nil => rfl
      | cons j ds => exact ih

theorem lookup_singleton (i : Digit) (idx : ElemIdx α) : idx.lookup [i] = idx.elems i := rfl

theorem lookup_cons {ds : List Digit} (h : ds ≠ []) (i : Digit) (idx : ElemIdx α) :
    idx.lookup (i :: ds) = (idx.idxs i).lookup ds := by
  cases ds with
  | nil => exact absurd rfl h
  | cons j ds => rfl

/-- The stored elements are exactly the bindings of the finite map. -/
theorem mem_entries {idx : ElemIdx α} {pre key : List UInt8} {a : α} :
    (key, a) ∈ idx.entries pre ↔ ∃ ds, key = pre ++ digitsKey ds ∧ idx.lookup ds = some a := by
  induction idx generalizing pre with
  | null => simp
  | node es ss ih =>
      rw [entries_node, List.mem_append, List.mem_map, List.mem_flatMap]
      constructor
      · rintro (⟨⟨i, b⟩, hmem, heq⟩ | ⟨i, -, hmem⟩)
        · cases heq
          exact ⟨[i], rfl, mem_elemList.mp hmem⟩
        · obtain ⟨ds, rfl, hds⟩ := (ih i).mp hmem
          have hne : ds ≠ [] := by rintro rfl; cases hds
          exact ⟨i :: ds, by simp, by rw [lookup_cons hne]; exact hds⟩
      · rintro ⟨ds, rfl, hds⟩
        match ds, hds with
        | [i], hds => exact .inl ⟨(i, a), mem_elemList.mpr hds, rfl⟩
        | i :: j :: ds, hds =>
            exact .inr ⟨i, List.mem_finRange i, (ih i).mpr ⟨j :: ds, by simp, hds⟩⟩

theorem all_iff {p : α → Prop} {idx : ElemIdx α} :
    idx.All p ↔ ∀ ds a, idx.lookup ds = some a → p a := by
  induction idx with
  | null => simp [All]
  | node es ss ih =>
      constructor
      · rintro ⟨hes, hss⟩ ds a hds
        match ds, hds with
        | [i], hds => exact hes i a hds
        | i :: j :: ds, hds => exact (ih i).mp (hss i) (j :: ds) a hds
      · refine fun h => ⟨fun i a hi => h [i] a hi, fun i => (ih i).mpr fun ds a hds => ?_⟩
        have hne : ds ≠ [] := by rintro rfl; cases hds
        exact h (i :: ds) a (by rw [lookup_cons hne]; exact hds)

/-- A folder that fits has no ids longer than its room. -/
theorem length_le_of_fits {room : Nat} {idx : ElemIdx α} (h : idx.Fits room) {ds : List Digit}
    {a : α} (hds : idx.lookup ds = some a) : ds.length ≤ room := by
  induction room generalizing idx ds with
  | zero =>
      cases idx with
      | null => simp at hds
      | node es ss => exact h.elim
  | succ room ih =>
      cases idx with
      | null => simp at hds
      | node es ss =>
          match ds, hds with
          | [i], _ => exact Nat.le_add_left 1 room
          | i :: j :: ds, hds => exact Nat.succ_le_succ (ih (h i) hds)

/-- Every id below `pre` extends `pre`. -/
private theorem prefix_of_mem_keys {idx : ElemIdx α} {pre key : List UInt8}
    (h : key ∈ (idx.entries pre).map Prod.fst) : ∃ ds, ds ≠ [] ∧ key = pre ++ digitsKey ds := by
  obtain ⟨⟨k, a⟩, hmem, rfl⟩ := List.mem_map.mp h
  obtain ⟨ds, hk, hds⟩ := mem_entries.mp hmem
  refine ⟨ds, ?_, hk⟩
  rintro rfl
  cases hds

/-- No id is stored twice. -/
theorem nodup_entries (idx : ElemIdx α) (pre : List UInt8) :
    ((idx.entries pre).map Prod.fst).Nodup := by
  induction idx generalizing pre with
  | null => simp
  | node es ss ih =>
      rw [entries_node, List.map_append, List.map_flatMap, List.map_map]
      refine List.nodup_append'.mpr ⟨?_, ?_, ?_⟩
      · have hfst : (elemList es).map (Prod.fst ∘ fun p => (pre ++ [objIdSeq p.1], p.2))
            = ((elemList es).map Prod.fst).map fun i : Digit => pre ++ [objIdSeq i] := by
          rw [List.map_map]; rfl
        rw [hfst]
        refine List.Nodup.map (fun i j hij => ?_) ?_
        · exact objIdSeq_inj (List.singleton_inj.mp (List.append_cancel_left hij))
        · rw [map_fst_elemList]
          exact (List.nodup_finRange 62).filter _
      · refine List.nodup_flatMap.mpr ⟨fun i _ => ih i _, ?_⟩
        refine (List.nodup_finRange 62).imp fun {i j} hij => ?_
        intro key hi hj
        obtain ⟨ds, -, rfl⟩ := prefix_of_mem_keys hi
        obtain ⟨ds', -, heq⟩ := prefix_of_mem_keys hj
        simp only [List.append_assoc, List.append_cancel_left_eq, List.cons_append,
          List.nil_append, List.cons.injEq] at heq
        exact hij (objIdSeq_inj heq.1)
      · -- an own id is one digit longer than `pre`, an id of a subfolder at least two
        intro key hown hsub
        obtain ⟨p, -, rfl⟩ := List.mem_map.mp hown
        obtain ⟨i, -, hi⟩ := List.mem_flatMap.mp hsub
        obtain ⟨ds, hne, heq⟩ := prefix_of_mem_keys hi
        have hlen := congrArg List.length heq
        have hpos := List.length_pos_of_ne_nil hne
        simp only [Function.comp_apply, List.length_append, List.length_cons, List.length_nil,
          length_digitsKey] at hlen
        omega

end ElemIdx

/-! ## (4) Insertion and lookup on the finite map -/

/-- **Lookup** reads the finite map: an id is found exactly when it spells a binding. -/
theorem getElem_eq_ok {key : List UInt8} {idx : ElemIdx α} {a : α} :
    getElem key idx = .ok a ↔ ∃ ds, key = digitsKey ds ∧ idx.lookup ds = some a := by
  induction key generalizing idx with
  | nil =>
      constructor
      · intro h
        cases h
      · rintro ⟨ds, hds, hl⟩
        cases ds with
        | nil => cases hl
        | cons i ds => cases hds
  | cons c key ih =>
      constructor
      · intro h
        cases hc : objIdBase c with
        | none => cases key <;> simp [getElem, hc] at h
        | some i =>
            cases key with
            | nil =>
                cases he : idx.elems i with
                | none => simp [getElem, hc, he] at h
                | some b =>
                    obtain rfl : b = a := by simpa [getElem, hc, he] using h
                    exact ⟨[i], by rw [digitsKey_cons, objIdSeq_of_objIdBase hc]; rfl, he⟩
            | cons c' key =>
                cases hs : idx.idxs i with
                | null => simp [getElem, hc, hs] at h
                | node es ss =>
                    have h' : getElem (c' :: key) (.node es ss) = .ok a := by
                      simpa [getElem, hc, hs] using h
                    obtain ⟨ds, hds, hl⟩ := ih.mp h'
                    have hne : ds ≠ [] := by rintro rfl; cases hds
                    refine ⟨i :: ds, ?_, ?_⟩
                    · rw [digitsKey_cons, objIdSeq_of_objIdBase hc, hds]
                    · rw [ElemIdx.lookup_cons hne, hs]
                      exact hl
      · rintro ⟨ds, hds, hl⟩
        match ds, hds, hl with
        | [i], hds, hl =>
            rw [digitsKey_cons, List.cons.injEq] at hds
            obtain ⟨rfl, rfl⟩ := hds
            rw [ElemIdx.lookup_singleton] at hl
            simp [getElem, hl]
        | i :: j :: ds, hds, hl =>
            rw [digitsKey_cons, List.cons.injEq] at hds
            obtain ⟨rfl, rfl⟩ := hds
            cases hs : idx.idxs i with
            | null =>
                rw [ElemIdx.lookup_cons (List.cons_ne_nil j ds), hs, ElemIdx.lookup_null] at hl
                cases hl
            | node es ss =>
                have h' : getElem (digitsKey (j :: ds)) (.node es ss) = .ok a :=
                  ih.mpr ⟨j :: ds, rfl, by rw [← hs]; exact hl⟩
                rw [digitsKey_cons] at h' ⊢
                simpa only [getElem, objIdBase_objIdSeq, hs] using h'

/-- The subfolders of a folder that has just been made, or found, hold what the old slot held. -/
@[simp] theorem ElemIdx.lookup_orNew (idx : ElemIdx α) (ds : List Digit) :
    idx.orNew.lookup ds = idx.lookup ds := by
  match ds with
  | [] => rfl
  | [i] => simp [ElemIdx.lookup]
  | i :: j :: ds => simp [ElemIdx.lookup]

/-- The finite map of a folder whose payload slot `i` was written. -/
theorem ElemIdx.lookup_update_elems (parent : ElemIdx α) (i : Digit) (elem : α) (es : List Digit) :
    (node (Function.update parent.elems i (some elem)) parent.idxs).lookup es
      = if es = [i] then some elem else parent.lookup es := by
  match es with
  | [] => simp
  | [j] =>
      rw [lookup_singleton, lookup_singleton, elems_node, Function.update_apply]
      simp [eq_comm]
  | j :: k :: es => simp [lookup_cons]

/-- The finite map of a folder whose subfolder slot `i` was written. -/
theorem ElemIdx.lookup_update_idxs (parent idx : ElemIdx α) (i : Digit) {ds : List Digit}
    (hds : ds ≠ []) (elem : α)
    (h : ∀ es, idx.lookup es = if es = ds then some elem else (parent.idxs i).lookup es)
    (es : List Digit) :
    (node parent.elems (Function.update parent.idxs i idx)).lookup es
      = if es = i :: ds then some elem else parent.lookup es := by
  match es with
  | [] => simp
  | [j] => simp [lookup_singleton, hds.symm]
  | j :: k :: es =>
      rw [lookup_cons (List.cons_ne_nil k es), lookup_cons (List.cons_ne_nil k es), idxs_node,
        Function.update_apply]
      by_cases hj : j = i
      · rw [if_pos hj, h, hj]
        simp
      · rw [if_neg hj, if_neg (by simp [hj])]

/-- **Insertion** binds the id it is given, or fails and leaves every binding alone; without
overwriting it only binds a free id. -/
theorem saveElem_cases (allowOverwrite : Bool) (elem : α) (key : List UInt8) (parent : ElemIdx α) :
    match saveElem allowOverwrite elem key parent with
    | (.error _, idx) => ∀ es, idx.lookup es = parent.lookup es
    | (.ok (), idx) => ∃ ds, key = digitsKey ds ∧ ds ≠ [] ∧
        (allowOverwrite = false → parent.lookup ds = none) ∧
        ∀ es, idx.lookup es = if es = ds then some elem else parent.lookup es := by
  induction key generalizing parent with
  | nil => exact fun _ => rfl
  | cons c key ih =>
      cases hc : objIdBase c with
      | none => cases key <;> simp [saveElem, hc]
      | some i =>
          have hseq := objIdSeq_of_objIdBase hc
          cases key with
          | nil =>
              simp only [saveElem, hc]
              by_cases htaken : ((parent.elems i).isSome && !allowOverwrite) = true
              · simp [htaken]
              · rw [if_neg htaken]
                refine ⟨[i], by rw [← hseq]; rfl, List.cons_ne_nil i [], ?_,
                  ElemIdx.lookup_update_elems parent i elem⟩
                intro how
                simpa [how, ElemIdx.lookup_singleton] using htaken
          | cons c' key =>
              have hrec := ih (parent.idxs i).orNew
              simp only [saveElem, hc]
              cases hsub : saveElem allowOverwrite elem (c' :: key) (parent.idxs i).orNew with
              | mk rc idx =>
                  rw [hsub] at hrec
                  cases rc with
                  | error e =>
                      intro es
                      match es with
                      | [] => rfl
                      | [j] => rfl
                      | j :: k :: es =>
                          rw [ElemIdx.lookup_cons (List.cons_ne_nil k es),
                            ElemIdx.lookup_cons (List.cons_ne_nil k es), ElemIdx.idxs_node,
                            Function.update_apply]
                          by_cases hj : j = i
                          · rw [if_pos hj, hrec, ElemIdx.lookup_orNew, hj]
                          · rw [if_neg hj]
                  | ok u =>
                      obtain ⟨ds, hkey, hne, hfree, hlookup⟩ := hrec
                      simp only [ElemIdx.lookup_orNew] at hfree hlookup
                      refine ⟨i :: ds, by rw [digitsKey_cons, ← hkey, hseq], List.cons_ne_nil i ds,
                        fun how => ?_, ElemIdx.lookup_update_idxs parent idx i hne elem hlookup⟩
                      rw [ElemIdx.lookup_cons hne]
                      exact hfree how

/-- Insertion under a free id succeeds. -/
theorem saveElem_ok_of_free {elem : α} {ds : List Digit} (hds : ds ≠ []) {parent : ElemIdx α}
    (hfree : parent.lookup ds = none) (allowOverwrite : Bool) :
    (saveElem allowOverwrite elem (digitsKey ds) parent).1 = .ok () := by
  induction ds generalizing parent with
  | nil => exact absurd rfl hds
  | cons i ds ih =>
      cases ds with
      | nil =>
          rw [ElemIdx.lookup_singleton] at hfree
          simp [saveElem, hfree]
      | cons j ds =>
          have hfree' : (parent.idxs i).orNew.lookup (j :: ds) = none := by
            rw [ElemIdx.lookup_orNew, ← ElemIdx.lookup_cons (List.cons_ne_nil j ds)]
            exact hfree
          have hsub := ih (List.cons_ne_nil j ds) hfree'
          rw [digitsKey_cons] at hsub
          simpa [saveElem] using hsub

/-- Insertion keeps every folder within its room. -/
theorem fits_saveElem {allowOverwrite : Bool} {elem : α} {key : List UInt8} {room : Nat}
    {parent : ElemIdx α} (hkey : key.length ≤ room) (hroom : 0 < room) (h : parent.Fits room) :
    (saveElem allowOverwrite elem key parent).2.Fits room := by
  induction key generalizing room parent with
  | nil => exact h
  | cons c key ih =>
      obtain ⟨room, rfl⟩ := Nat.exists_eq_succ_of_ne_zero hroom.ne'
      have hsub : ∀ i, (parent.idxs i).Fits room := by
        cases parent with
        | null => exact fun i => by simp [ElemIdx.Fits]
        | node es ss => exact h
      cases hc : objIdBase c with
      | none => cases key <;> simpa [saveElem, hc] using h
      | some i =>
          cases key with
          | nil =>
              simp only [saveElem, hc]
              split
              · exact h
              · exact hsub
          | cons c' key =>
              have hlen : (c' :: key).length ≤ room := Nat.le_of_succ_le_succ hkey
              have hpos : 0 < room := lt_of_lt_of_le (Nat.succ_pos _) hlen
              have hnew : (parent.idxs i).orNew.Fits room := by
                cases hs : parent.idxs i with
                | node es ss => rw [← hs]; simpa [hs, ElemIdx.orNew] using hsub i
                | null =>
                    obtain ⟨r, rfl⟩ := Nat.exists_eq_succ_of_ne_zero hpos.ne'
                    exact fun _ => by simp [ElemIdx.Fits]
              simp only [saveElem, hc]
              intro j
              by_cases hj : j = i
              · rw [hj, Function.update_self]
                exact ih hlen hpos hnew
              · rw [Function.update_of_ne hj]
                exact hsub j

/-- `knd_shared_set_add` keeps a set within the room of an id buffer. -/
theorem fits_kndSharedSetAdd {self : SharedSet α} {key : List UInt8} {elem : α}
    (hkey : key.length ≤ idSize) (h : self.idx.Fits idSize) :
    (kndSharedSetAdd self key elem).2.idx.Fits idSize := by
  have hidx : (kndSharedSetAdd self key elem).2.idx
      = (saveElem self.allowOverwrite elem key self.idx).2 := by
    unfold kndSharedSetAdd
    split <;> simp [*]
  rw [hidx]
  exact fits_saveElem hkey (by decide) h

/-- What a returning insertion binds. -/
theorem kndSharedSetAdd_ok {self self' : SharedSet α} {key : List UInt8} {elem : α}
    (h : kndSharedSetAdd self key elem = (.ok (), self')) (key' : List UInt8) (a : α) :
    kndSharedSetGet self' key' = .ok a ↔
      if key' = key then elem = a else kndSharedSetGet self key' = .ok a := by
  have hcases := saveElem_cases self.allowOverwrite elem key self.idx
  unfold kndSharedSetAdd at h
  split at h
  · cases h
  · rename_i idx hsave
    rw [hsave] at hcases
    obtain ⟨ds, rfl, -, -, hlookup⟩ := hcases
    cases h
    unfold kndSharedSetGet
    simp only [getElem_eq_ok, hlookup]
    constructor
    · rintro ⟨es, rfl, hes⟩
      simp only [digitsKey_inj]
      split_ifs at hes ⊢ with heq
      · exact Option.some.inj hes
      · exact ⟨es, rfl, hes⟩
    · split_ifs with heq
      · rintro rfl
        exact ⟨ds, heq, if_pos rfl⟩
      · rintro ⟨es, rfl, hes⟩
        exact ⟨es, rfl, by rwa [if_neg (by simpa [digitsKey_inj] using heq)]⟩

/-- A returning insertion without overwriting binds a free id. -/
theorem kndSharedSetAdd_new {self self' : SharedSet α} {key : List UInt8} {elem : α}
    (h : kndSharedSetAdd self key elem = (.ok (), self')) (hover : self.allowOverwrite = false) :
    (∀ a, kndSharedSetGet self key ≠ .ok a) ∧ self'.numElems = self.numElems + 1 ∧ self'.allowOverwrite = false := by
  have hcases := saveElem_cases self.allowOverwrite elem key self.idx
  unfold kndSharedSetAdd at h
  split at h
  · cases h
  · rename_i idx hsave
    rw [hsave] at hcases
    obtain ⟨ds, rfl, -, hfree, -⟩ := hcases
    cases h
    refine ⟨fun a hget => ?_, rfl, hover⟩
    obtain ⟨es, hes, hlookup⟩ := getElem_eq_ok.mp hget
    rw [← digitsKey_inj.mp hes, hfree hover] at hlookup
    cases hlookup

/-- A failing insertion leaves every binding alone. -/
theorem kndSharedSetAdd_error {self self' : SharedSet α} {key : List UInt8} {elem : α} {e : KndErr}
    (h : kndSharedSetAdd self key elem = (.error e, self')) (key' : List UInt8) (a : α) :
    kndSharedSetGet self' key' = .ok a ↔ kndSharedSetGet self key' = .ok a := by
  have hcases := saveElem_cases self.allowOverwrite elem key self.idx
  unfold kndSharedSetAdd at h
  split at h
  · rename_i e' idx hsave
    rw [hsave] at hcases
    cases h
    unfold kndSharedSetGet
    simp only [getElem_eq_ok]
    exact exists_congr fun es => and_congr_right fun _ => by rw [hcases es]
  · cases h

/-- Insertion under a free id returns. -/
theorem kndSharedSetAdd_of_free {self : SharedSet α} {ds : List Digit} (hds : ds ≠ [])
    (hfree : ∀ a, kndSharedSetGet self (digitsKey ds) ≠ .ok a) (elem : α) :
    ∃ self', kndSharedSetAdd self (digitsKey ds) elem = (.ok (), self') := by
  have hnone : self.idx.lookup ds = none := by
    cases hl : self.idx.lookup ds with
    | none => rfl
    | some a => exact absurd (getElem_eq_ok.mpr ⟨ds, rfl, hl⟩) (hfree a)
  have hsave := @saveElem_ok_of_free _ elem _ hds _ hnone self.allowOverwrite
  unfold kndSharedSetAdd
  split
  · rename_i e idx heq
    rw [heq] at hsave
    cases hsave
  · exact ⟨_, rfl⟩

/-- An empty set has no element. -/
theorem kndSharedSetGet_fresh (id : List UInt8) (a : α) :
    kndSharedSetGet ({} : SharedSet α) id ≠ .ok a := by
  intro h
  obtain ⟨ds, -, hds⟩ := getElem_eq_ok.mp h
  cases ds with
  | nil => cases hds
  | cons i ds =>
      cases ds with
      | nil => cases hds
      | cons j ds =>
          rw [ElemIdx.lookup_cons (List.cons_ne_nil j ds)] at hds
          exact absurd hds (by simp)

/-! ## (5) Sets keyed by ids -/

/-- **A shared set whose keys fit an id buffer**: no folder is nested deeper than the
`KND_ID_SIZE` digits of an id. -/
structure IdSet (α : Type) extends SharedSet α where
  /-- The root folder has room for ids of `KND_ID_SIZE` digits. -/
  fits : idx.Fits idSize

namespace IdSet

/-- The empty set as `knd_shared_set_new` returns it. -/
def empty : IdSet α where
  toSharedSet := {}
  fits := by simp [idSize, ElemIdx.Fits]

/-- `knd_shared_set_add` under a key of at most `KND_ID_SIZE` characters. -/
def add (self : IdSet α) (key : List UInt8) (hkey : key.length ≤ idSize) (elem : α) :
    Except KndErr Unit × IdSet α :=
  let r := kndSharedSetAdd self.toSharedSet key elem
  (r.1, ⟨r.2, fits_kndSharedSetAdd hkey self.fits⟩)

/-- The stored elements with their ids. -/
def entries (self : IdSet α) : List (List UInt8 × α) := self.idx.entries []

/-- The listed elements are those that `knd_shared_set_get` finds. -/
theorem mem_entries {self : IdSet α} {key : List UInt8} {a : α} :
    (key, a) ∈ self.entries ↔ kndSharedSetGet self.toSharedSet key = .ok a := by
  rw [entries, ElemIdx.mem_entries, kndSharedSetGet, getElem_eq_ok]
  simp

theorem nodup_entries (self : IdSet α) : (self.entries.map Prod.fst).Nodup :=
  ElemIdx.nodup_entries _ _

end IdSet

end Knowdy
