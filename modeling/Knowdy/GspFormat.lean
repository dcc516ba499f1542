import Knowdy.SharedSet
import Mathlib.Data.List.MinMax

/-! # The file format of a shared set

What the bytes of a `.gsp` file say, independently of the code that writes and reads them. A folder
is `payload ++ subfolders ++ size of the payload`, and both its parts are arrays of blocks, one for
each occupied slot, with a directory of their sizes at the end.

* `footerBytes` — the directory of an array of blocks, keyed or positional.
* `payloadBytes` — the payload of a folder: nothing, a scan list, or the blocks with a directory.
* `folderBytes`, `ElemIdx.blockBytes` — the bytes of a folder and of a whole tree. -/

namespace Knowdy

/-! ## (1) Layout choices -/

/-- `KND_RADIX_BASE - num > KND_RADIX_BASE / 2`: a directory with few records lists their keys. -/
def useKeysFor (num : Nat) : Bool := radixBase - num > radixBase / 2

/-! ## (2) Arrays of blocks -/

/-- An array of blocks, one for each slot; the empty block stands for an empty slot. -/
abbrev Blocks := Digit → List UInt8

/-- The occupied slots. -/
def Blocks.occupied (blocks : Blocks) : List Digit :=
  (List.finRange 62).filter fun i => blocks i ≠ []

/-- The blocks one after the other. -/
def Blocks.body (blocks : Blocks) : List UInt8 := (List.finRange 62).flatMap blocks

/-- The size of the largest block. -/
def Blocks.maxSize (blocks : Blocks) : Nat :=
  (List.finRange 62).foldl (fun m i => max m (blocks i).length) 0

/-- The width of a directory cell. -/
def Blocks.cellSize (blocks : Blocks) : Nat := kndMinBytes blocks.maxSize

/-- A cell of a positional directory. -/
def Blocks.slotCell (blocks : Blocks) (i : Digit) : List UInt8 :=
  kndPackInt (blocks i).length blocks.cellSize

/-- A cell of a keyed directory. -/
def Blocks.keyedCell (blocks : Blocks) (i : Digit) : List UInt8 :=
  objIdSeq i :: blocks.slotCell i

/-- **The directory of an array of blocks.** With fewer than 31 occupied slots it lists their keys
and ends with the number of cells, the cell width and 1; otherwise it has one cell for each slot and
ends with the cell width and 0. -/
def footerBytes (blocks : Blocks) : List UInt8 :=
  if useKeysFor blocks.occupied.length then
    blocks.occupied.flatMap blocks.keyedCell ++
      [UInt8.ofNat blocks.occupied.length, UInt8.ofNat blocks.cellSize, 1]
  else (List.finRange 62).flatMap blocks.slotCell ++ [UInt8.ofNat blocks.cellSize, 0]

/-- The records of a scan list: key and block, separated by NUL bytes. `started` says whether a
record precedes the list. -/
def scanBytes (blocks : Blocks) : Bool → List Digit → List UInt8
  | _, [] => []
  | started, i :: is =>
      (if started then [0] else []) ++ objIdSeq i :: blocks i ++ scanBytes blocks true is

/-! ## (3) Folders -/

/-- **The payload block of a folder**: nothing for an empty folder, a scan list (marked by a zero
cell width and the flag 1) below 512 bytes, otherwise the blocks and their directory. -/
def payloadBytes (blocks : Blocks) : List UInt8 :=
  if blocks.body.length = 0 then []
  else if blocks.body.length < 512 then scanBytes blocks false blocks.occupied ++ [0, 1]
  else blocks.body ++ footerBytes blocks

/-- **What follows the record of a slot** in its payload block: a separator and the rest of the scan list, or
the next block itself. -/
def Blocks.behind (blocks : Blocks) (i : Digit) : List UInt8 :=
  if blocks.body.length < 512 then
    scanBytes blocks true (((List.finRange 62).drop (i + 1)).filter fun j => blocks j ≠ []) ++ [0, 1]
  else ((List.finRange 62).drop (i + 1)).flatMap blocks ++ footerBytes blocks

/-- The subfolder part of a folder. -/
def subdirBytes (blocks : Blocks) : List UInt8 :=
  if blocks.occupied = [] then [] else blocks.body ++ footerBytes blocks

/-- The size of the payload: a cell and its width, or a single zero byte. -/
def sizeBytes (n : Nat) : List UInt8 :=
  if n = 0 then [0] else kndPackInt n (kndMinBytes n) ++ [UInt8.ofNat (kndMinBytes n)]

/-- **The block of a folder** with these payload blocks and subfolder blocks. -/
def folderBytes (payload subdirs : Blocks) : List UInt8 :=
  payloadBytes payload ++ subdirBytes subdirs ++ sizeBytes (payloadBytes payload).length

variable {α : Type}

/-- The payload blocks of a folder whose elements are written as `val`. -/
def payloadBlocks (val : α → List UInt8) (elems : Digit → Option α) : Blocks :=
  fun i => (elems i).elim [] val

/-- **The bytes of a tree of folders** whose elements are written as `val`. -/
def ElemIdx.blockBytes (val : α → List UInt8) : ElemIdx α → List UInt8
  | .null => []
  | .node elems idxs => folderBytes (payloadBlocks val elems) fun i => (idxs i).blockBytes val

/-- **The stored elements with what follows their records**, in the order of `ElemIdx.entries`: the id, the
element, and the bytes behind its record in the payload block of its folder. -/
def ElemIdx.records (val : α → List UInt8) : ElemIdx α → List UInt8 → List (List UInt8 × α × List UInt8)
  | .null, _ => []
  | .node elems idxs, pre =>
      (elemList elems).map
          (fun p => (pre ++ [objIdSeq p.1], p.2, (payloadBlocks val elems).behind p.1)) ++
        (List.finRange 62).flatMap fun i => (idxs i).records val (pre ++ [objIdSeq i])

/-! ## (4) Sizes and slots -/

theorem ElemIdx.records_node (val : α → List UInt8) (es : Digit → Option α) (ss : Digit → ElemIdx α)
    (pre : List UInt8) : (node es ss).records val pre =
      (elemList es).map (fun p => (pre ++ [objIdSeq p.1], p.2, (payloadBlocks val es).behind p.1)) ++
        (List.finRange 62).flatMap fun i => (ss i).records val (pre ++ [objIdSeq i]) := rfl

/-- The records belong to the stored elements. -/
theorem ElemIdx.map_records (val : α → List UInt8) (idx : ElemIdx α) (pre : List UInt8) :
    (idx.records val pre).map (fun r => (r.1, r.2.1)) = idx.entries pre := by
  induction idx generalizing pre with
  | null => rfl
  | node es ss ih =>
      rw [records_node, entries_node, List.map_append, List.map_map, List.map_flatMap]
      congr 1
      exact List.flatMap_congr fun i _ => ih i _

theorem ElemIdx.length_records (val : α → List UInt8) (idx : ElemIdx α) (pre : List UInt8) :
    (idx.records val pre).length = (idx.entries pre).length := by
  rw [← map_records val, List.length_map]

theorem length_sizeBytes (n : Nat) :
    (sizeBytes n).length = if n = 0 then 1 else kndMinBytes n + 1 := by
  unfold sizeBytes
  split
  · rfl
  · rw [List.length_append, length_kndPackInt (one_le_kndMinBytes n) (kndMinBytes_le n)]
    rfl

theorem folderBytes_ne_nil (payload subdirs : Blocks) : folderBytes payload subdirs ≠ [] := by
  intro h
  have hlen := congrArg List.length h
  rw [folderBytes, List.length_append, length_sizeBytes, List.length_nil] at hlen
  split at hlen <;> omega

@[simp] theorem blockBytes_null (val : α → List UInt8) :
    (ElemIdx.null : ElemIdx α).blockBytes val = [] := rfl

theorem blockBytes_node (val : α → List UInt8) (es : Digit → Option α) (ss : Digit → ElemIdx α) :
    (ElemIdx.node es ss).blockBytes val
      = folderBytes (payloadBlocks val es) fun i => (ss i).blockBytes val := rfl

/-- A subfolder slot has a block exactly when it is not the null pointer. -/
theorem blockBytes_eq_nil {val : α → List UInt8} {idx : ElemIdx α} :
    idx.blockBytes val = [] ↔ idx.isNull = true := by
  cases idx with
  | null => simp [ElemIdx.isNull]
  | node es ss => simp [ElemIdx.isNull, blockBytes_node, folderBytes_ne_nil]

namespace Blocks

theorem mem_occupied {blocks : Blocks} {i : Digit} : i ∈ blocks.occupied ↔ blocks i ≠ [] := by
  simp [occupied]

theorem length_occupied_le (blocks : Blocks) : blocks.occupied.length ≤ 62 := by
  have h := List.length_filter_le (fun i => decide (blocks i ≠ [])) (List.finRange 62)
  rwa [List.length_finRange] at h

theorem nodup_occupied (blocks : Blocks) : blocks.occupied.Nodup :=
  (List.nodup_finRange 62).filter _

/-- The slots from slot `i` on. -/
theorem drop_finRange (i : Digit) :
    (List.finRange 62).drop i = i :: (List.finRange 62).drop (i + 1) := by
  have hi : i.val < (List.finRange 62).length := by rw [List.length_finRange]; exact i.isLt
  rw [List.drop_eq_getElem_cons hi, List.getElem_finRange]
  rfl

/-- The occupied slots behind slot `i`. -/
theorem filter_drop_of_occupied_eq {blocks : Blocks} {pre post : List Digit} {i : Digit}
    (h : blocks.occupied = pre ++ i :: post) :
    ((List.finRange 62).drop (i + 1)).filter (fun j => decide (blocks j ≠ [])) = post := by
  have hne : blocks i ≠ [] := mem_occupied.mp (by rw [h]; simp)
  have hocc : blocks.occupied = ((List.finRange 62).take i).filter (fun j => decide (blocks j ≠ [])) ++
      i :: ((List.finRange 62).drop (i + 1)).filter fun j => decide (blocks j ≠ []) := by
    rw [occupied, ← List.filter_cons_of_pos (by simpa using hne), ← drop_finRange, ← List.filter_append,
      List.take_append_drop]
  -- a slot occurs once in the list, so both splits are the same
  have hnodup := blocks.nodup_occupied
  rw [hocc] at h
  rw [hocc] at hnodup
  obtain ⟨-, htail, hdisj⟩ := List.nodup_append.mp hnodup
  have hpost := (List.nodup_cons.mp htail).1
  have hpre : i ∉ ((List.finRange 62).take i).filter fun j => decide (blocks j ≠ []) :=
    fun hmem => hdisj i hmem i List.mem_cons_self rfl
  exact ((List.append_cons_inj_of_notMem hpre hpost).mp h).2.2

/-- Only the occupied slots contribute to the body. -/
theorem body_eq (blocks : Blocks) : blocks.body = blocks.occupied.flatMap blocks := by
  unfold body occupied
  induction List.finRange 62 with
  | nil => rfl
  | cons i is ih =>
      by_cases h : blocks i = []
      · rw [List.flatMap_cons, h, List.nil_append, ih, List.filter_cons_of_neg (by simp [h])]
      · rw [List.flatMap_cons, ih, List.filter_cons_of_pos (by simp [h]), List.flatMap_cons]

theorem body_eq_nil {blocks : Blocks} : blocks.body = [] ↔ blocks.occupied = [] := by
  simp [body, occupied]

/-- The running maximum bounds every size it has seen. -/
private theorem le_foldl_max (f : Digit → Nat) (l : List Digit) (m : Nat) :
    m ≤ l.foldl (fun m i => max m (f i)) m ∧
      ∀ i ∈ l, f i ≤ l.foldl (fun m i => max m (f i)) m := by
  induction l generalizing m with
  | nil => simp
  | cons j l ih =>
      obtain ⟨h₁, h₂⟩ := ih (max m (f j))
      refine ⟨le_trans (le_max_left _ _) h₁, fun i hi => ?_⟩
      rcases List.mem_cons.mp hi with rfl | hi
      · exact le_trans (le_max_right _ _) h₁
      · exact h₂ i hi

theorem length_le_maxSize (blocks : Blocks) (i : Digit) : (blocks i).length ≤ blocks.maxSize :=
  (le_foldl_max (fun i => (blocks i).length) (List.finRange 62) 0).2 i (List.mem_finRange i)

private theorem foldl_max_le (f : Digit → Nat) {b : Nat} (l : List Digit) (m : Nat) (hm : m ≤ b)
    (h : ∀ i ∈ l, f i ≤ b) : l.foldl (fun m i => max m (f i)) m ≤ b := by
  induction l generalizing m with
  | nil => exact hm
  | cons j l ih =>
      exact ih _ (max_le hm (h j List.mem_cons_self)) fun i hi => h i (List.mem_cons_of_mem j hi)

theorem length_le_body (blocks : Blocks) (i : Digit) :
    (blocks i).length ≤ blocks.body.length := by
  have hmem : blocks i ∈ (List.finRange 62).map blocks := List.mem_map_of_mem (List.mem_finRange i)
  have h := (List.sublist_flatten_of_mem hmem).length_le
  rwa [← List.flatMap_def] at h

theorem maxSize_le_body (blocks : Blocks) : blocks.maxSize ≤ blocks.body.length :=
  foldl_max_le _ _ 0 (Nat.zero_le _) fun i _ => blocks.length_le_body i

/-- A second pass over the sizes does not change the maximum. -/
theorem foldl_max_maxSize (blocks : Blocks) :
    (List.finRange 62).foldl (fun m i => max m (blocks i).length) blocks.maxSize
      = blocks.maxSize :=
  le_antisymm (foldl_max_le _ _ _ le_rfl fun i _ => blocks.length_le_maxSize i)
    (le_foldl_max _ _ _).1

/-- **A block of an array** lies behind the blocks of the slots before it. -/
theorem liesAt_block {blocks : Blocks} {file : List UInt8} {off : Nat}
    (h : LiesAt file off blocks.body) (i : Digit) :
    LiesAt file (off + (((List.finRange 62).take i).flatMap blocks).length) (blocks i) := by
  rw [body, ← List.take_append_drop i (List.finRange 62), drop_finRange] at h
  exact h.of_flatMap

theorem one_le_cellSize (blocks : Blocks) : 1 ≤ blocks.cellSize := one_le_kndMinBytes _

theorem cellSize_le (blocks : Blocks) : blocks.cellSize ≤ uintSize := kndMinBytes_le _

@[simp] theorem length_slotCell (blocks : Blocks) (i : Digit) :
    (blocks.slotCell i).length = blocks.cellSize :=
  length_kndPackInt blocks.one_le_cellSize blocks.cellSize_le _

@[simp] theorem length_keyedCell (blocks : Blocks) (i : Digit) :
    (blocks.keyedCell i).length = blocks.cellSize + 1 := by
  rw [keyedCell, List.length_cons, length_slotCell]

/-- A cell denotes the size of its block, in a file below `2 ^ 31` bytes. -/
theorem kndUnpackInt_slotCell {blocks : Blocks} (h : blocks.body.length < 2 ^ 31) (i : Digit) :
    kndUnpackInt (blocks.slotCell i) blocks.cellSize = (blocks i).length := by
  have hi := blocks.length_le_body i
  have hmax := blocks.maxSize_le_body
  exact kndUnpackInt_kndPackInt blocks.one_le_cellSize blocks.cellSize_le
    (lt_pow_kndMinBytes (blocks.length_le_maxSize i) (by omega)) (by omega)

end Blocks

/-- The slot sizes after the slots of `l` were set to their blocks. -/
def setSizes (blocks : Blocks) (l : List Digit) (sizes : Digit → Nat) : Digit → Nat :=
  fun j => if j ∈ l ∧ blocks j ≠ [] then (blocks j).length else sizes j

@[simp] theorem setSizes_nil (blocks : Blocks) (sizes : Digit → Nat) :
    setSizes blocks [] sizes = sizes := by
  funext j; simp [setSizes]

theorem setSizes_cons_of_nil {blocks : Blocks} {i : Digit} (h : blocks i = []) (l : List Digit)
    (sizes : Digit → Nat) : setSizes blocks (i :: l) sizes = setSizes blocks l sizes := by
  funext j
  by_cases hj : j = i
  · simp [setSizes, hj, h]
  · simp [setSizes, hj]

theorem setSizes_cons {blocks : Blocks} {i : Digit} (h : blocks i ≠ []) (l : List Digit)
    (sizes : Digit → Nat) : setSizes blocks (i :: l) sizes
      = setSizes blocks l (Function.update sizes i (blocks i).length) := by
  funext j
  by_cases hj : j = i
  · simp [setSizes, hj, h]
  · simp [setSizes, hj]

theorem setSizes_append (blocks : Blocks) (l : List Digit) (i : Digit) (sizes : Digit → Nat) :
    setSizes blocks (l ++ [i]) sizes = if blocks i = [] then setSizes blocks l sizes
      else Function.update (setSizes blocks l sizes) i (blocks i).length := by
  funext j
  by_cases h : blocks i = [] <;> by_cases hj : j = i
  · simp [setSizes, hj, h]
  · simp [setSizes, hj, h]
  · simp [setSizes, hj, h]
  · simp [setSizes, hj, h]

theorem setSizes_finRange (blocks : Blocks) :
    setSizes blocks (List.finRange 62) (fun _ => 0) = fun i => (blocks i).length := by
  funext i
  by_cases h : blocks i = [] <;> simp [setSizes, h]

end Knowdy
