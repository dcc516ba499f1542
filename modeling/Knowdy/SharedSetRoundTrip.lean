import Knowdy.SharedSetGsp
import Knowdy.SharedSetMarshall

/-! # The full load reads what the marshaller writes

The decoder of `knd_shared_set.gsp.c` on the bytes of the format: a folder that lies somewhere in a
file below `2 ^ 31` bytes is read back as its directory, and the callback runs over its elements in
the order of `ElemIdx.entries`.

* `foldCells_eq` — a directory, keyed or positional, is a loop over the slots of its array.
* `unmarshallElems_eq`, `readSubdirs_eq`, `unmarshallBlock_eq` — payload, subfolders, folder.
* `unmarshallFile_marshall` — the round trip through a file. -/

namespace Knowdy

variable {σ : Type}

/-! ## (1) Reading what lies at an offset -/

theorem preadExact_of_liesAt {file bs : List UInt8} {off n : Nat} (h : LiesAt file off bs)
    (hn : n = bs.length) : preadExact file off n = .ok bs := by
  rw [preadExact, hn, h.slice_eq, if_pos rfl]
  rfl

theorem blockAt_of_liesAt {block bs : List UInt8} {off : Nat} {c : UInt8}
    (h : LiesAt block off (c :: bs)) : blockAt block off = .ok c := by
  rw [blockAt, h.getElem?]

/-- A cell of a directory denotes the size of its block. -/
theorem unpackAt_slotCell {block : List UInt8} {pos : Nat} {blocks : Blocks} {i : Digit}
    (hlt : blocks.body.length < 2 ^ 31) (h : LiesAt block pos (blocks.slotCell i)) :
    unpackAt block pos blocks.cellSize = .ok (blocks i).length := by
  have hw := unpackWidth_eq blocks.one_le_cellSize blocks.cellSize_le
  have hlen := blocks.length_slotCell i
  have hpos := blocks.one_le_cellSize
  have hne : blocks.slotCell i ≠ [] := List.ne_nil_of_length_pos (by omega)
  have hle := h.length_le hne
  rw [hlen] at hle
  have hslice : slice block pos blocks.cellSize = blocks.slotCell i := by
    rw [← hlen]; exact h.slice_eq
  rw [unpackAt, hw, Checked.require_of hle, Checked.ok_bind, hslice,
    Blocks.kndUnpackInt_slotCell hlt]
  rfl

/-! ## (2) Directories -/

/-- The callback `f`, which reads no byte outside its value. -/
def ofValue (f : List UInt8 → List UInt8 → σ → GspM σ) : ElemUnmarshallCb σ :=
  fun id mem n s => f id (mem.take n) s

/-- A loop over the occupied slots is a loop over all slots that leaves the empty ones out. -/
theorem foldlM_occupied {τ : Type} (blocks : Blocks) (h : τ → Digit → GspM τ) (st : τ) :
    blocks.occupied.foldlM h st
      = (List.finRange 62).foldlM (fun st i => if blocks i = [] then pure st else h st i) st := by
  have hocc : blocks.occupied
      = (List.finRange 62).filterMap (Option.guard fun i => blocks i ≠ []) := by
    rw [Blocks.occupied, List.filterMap_eq_filter]
  rw [hocc]
  refine (foldlM_option _ _ _ _ ?_ ?_ st).symm
  · intro s i hi
    rw [if_pos (by simpa [Option.guard_eq_none_iff] using hi)]
  · intro s i j hij
    obtain ⟨rfl, hne⟩ := Option.guard_eq_some_iff.mp hij
    rw [if_neg (by simpa using hne)]

/-- **A directory is a loop over the slots.** The cells that lie at `base` make the loop visit every
slot in order with the size of its block; the empty slots, which a keyed directory does not list,
must not change the state. -/
theorem foldCells_eq {τ : Type} {block : List UInt8} {base : Nat} {blocks : Blocks}
    {use : τ → Nat × UInt8 × Option Digit → GspM τ} {useKeys : Bool} {num : Nat} {st : τ}
    (hlt : blocks.body.length < 2 ^ 31)
    (huse : ∀ st i, blocks i = [] → use st (0, objIdSeq i, some i) = .ok st)
    (hkeyed : useKeys = true → num = blocks.occupied.length ∧
      LiesAt block base (blocks.occupied.flatMap blocks.keyedCell))
    (hslots : useKeys = false → num = 62 ∧
      LiesAt block base ((List.finRange 62).flatMap blocks.slotCell)) :
    foldCells block base useKeys blocks.cellSize num use st
      = (List.finRange 62).foldlM
          (fun st i => use st ((blocks i).length, objIdSeq i, some i)) st := by
  cases useKeys with
  | true =>
      obtain ⟨rfl, hcells⟩ := hkeyed rfl
      rw [foldCells, foldlM_range_eq blocks.occupied _
        (fun st i => use st ((blocks i).length, objIdSeq i, some i)), foldlM_occupied]
      · congr 1
        funext s i
        by_cases hnil : blocks i = []
        · rw [if_pos hnil, hnil, List.length_nil, huse s i hnil]
          rfl
        · rw [if_neg hnil]
      · intro s i hi
        have hcell := hcells.cell blocks.length_keyedCell hi
        rw [Blocks.keyedCell] at hcell
        have hkey := blockAt_of_liesAt hcell
        rw [liesAt_cons] at hcell
        have hnum := unpackAt_slotCell hlt hcell.2
        rw [readCell, if_pos rfl]
        rw [hnum, hkey]
        simp
  | false =>
      obtain ⟨rfl, hcells⟩ := hslots rfl
      have hstep : ∀ (s : τ) (i : Digit), (readCell block base false blocks.cellSize i >>= use s)
          = use s ((blocks i).length, objIdSeq i, some i) := by
        intro s i
        have hi : i.val < (List.finRange 62).length := by rw [List.length_finRange]; exact i.isLt
        have hcell := hcells.cell blocks.length_slotCell hi
        rw [List.getElem_finRange] at hcell
        have hnum := unpackAt_slotCell hlt hcell
        simp [readCell, hnum]
      rw [foldCells, foldlM_finRange_eq]
      simp only [hstep]

/-! ## (3) The payload -/

/-- The slots before slot `i`. -/
theorem eq_take_of_finRange_eq {n : Nat} {pre post : List (Fin n)} {i : Fin n}
    (h : List.finRange n = pre ++ i :: post) : pre = (List.finRange n).take i := by
  have hi : (List.finRange n)[pre.length]? = some i := by rw [h]; simp
  have hlen : pre.length < n := by
    have := congrArg List.length h
    simp only [List.length_finRange, List.length_append, List.length_cons] at this
    omega
  have hval : i.val = pre.length := by
    rw [List.getElem?_eq_getElem (by simpa using hlen), List.getElem_finRange] at hi
    rw [← Option.some.inj hi]
    rfl
  rw [hval, h, List.take_left]

section Payload

variable {blocks : Blocks} {block id : List UInt8} {cb : ElemUnmarshallCb σ} {g : σ → Digit → GspM σ}

/-- The state of the directory loop after the slots of `pre`. -/
def elemsStateAt (blocks : Blocks) (dir : DirInfo) (remainder : Nat) (pre : List Digit) (s : σ) :
    ElemsState σ where
  dir := { dir with
    elemBlockSizes := setSizes blocks pre dir.elemBlockSizes
    numElems := dir.numElems + (pre.filter fun i => blocks i ≠ []).length }
  e := (pre.flatMap blocks).length
  remainder := remainder - (pre.flatMap blocks).length
  s := s

/-- The directory loop of `unmarshall_elems` calls back for every block in slot order. -/
theorem foldlM_useElemCell (hid : id.length < idSize)
    (hcb : ∀ i : Digit, blocks i ≠ [] → ∀ s, cb (id ++ [objIdSeq i])
      (block.drop (((List.finRange 62).take i).flatMap blocks).length ++ [0]) (blocks i).length s
        = g s i)
    (dir : DirInfo) {remainder : Nat} (hrem : blocks.body.length ≤ remainder) (s : σ) :
    (List.finRange 62).foldlM (fun st (i : Digit) => useElemCell block id cb st
        ((blocks i).length, objIdSeq i, some i)) { dir, e := 0, remainder, s }
      = blocks.occupied.foldlM g s >>= fun s' =>
          pure (elemsStateAt blocks dir remainder (List.finRange 62) s') := by
  have hinit : ({ dir, e := 0, remainder, s } : ElemsState σ)
      = elemsStateAt blocks dir remainder [] s := by
    simp [elemsStateAt]
  rw [hinit, foldlM_occupied]
  refine foldlM_concat_state _ (elemsStateAt blocks dir remainder) _ _ ?_ s
  intro pre i post x hsplit
  have hle : (pre.flatMap blocks).length + (blocks i).length ≤ remainder := by
    rw [Blocks.body, hsplit, List.flatMap_append, List.flatMap_cons, List.length_append,
      List.length_append] at hrem
    omega
  simp only [useElemCell, pushId_of_lt hid, Checked.ok_bind]
  by_cases hnil : blocks i = []
  · simp [hnil, elemsStateAt, setSizes_append]
  · have hlen : (blocks i).length ≠ 0 := by simpa using hnil
    have hcall := hcb i hnil x
    rw [← eq_take_of_finRange_eq hsplit] at hcall
    rw [if_neg hlen, if_neg hnil, Checked.ensure_of (by simp only [elemsStateAt]; omega)]
    simp only [Checked.ok_bind, elemsStateAt, hcall]
    congr 1
    funext s'
    simp [setSizes_append, hnil, Nat.sub_sub, Nat.add_assoc]

/-- The scan steps over the bytes of a value. -/
theorem scanLoop_skip {v : List UInt8} (hv : 0 ∉ v) {c : Nat}
    (h : LiesAt block c v) (remainder b : Nat) (key : UInt8) (dir : DirInfo) (s : σ) :
    scanLoop block id cb (v.length + remainder) c b key dir s
      = scanLoop block id cb remainder (c + v.length) b key dir s := by
  induction v generalizing c with
  | nil => simp
  | cons x v ih =>
      have hx : x ≠ 0 := fun h0 => hv (by rw [h0]; exact List.mem_cons_self)
      have hsucc : (x :: v).length + remainder = (v.length + remainder) + 1 := by
        rw [List.length_cons]; omega
      rw [hsucc, scanLoop, blockAt_of_liesAt h, Checked.ok_bind, if_neg hx]
      rw [liesAt_cons] at h
      rw [ih (fun hm => hv (List.mem_cons_of_mem x hm)) h.2, List.length_cons]
      congr 1
      omega

/-- **The scan of a scan list** calls back for the current record and for those that follow it. -/
theorem scanLoop_eq (hnul : ∀ i, 0 ∉ blocks i) (is : List Digit) (i : Digit) {c : Nat}
    {tail : List UInt8} (h : block.drop c = blocks i ++ (scanBytes blocks true is ++ tail))
    (hcb : ∀ (pre : List Digit) (j : Digit) post, i :: is = pre ++ j :: post → ∀ s,
      cb (id ++ [objIdSeq j]) (blocks j ++ (scanBytes blocks true post ++ tail) ++ [0]) (blocks j).length s = g s j)
    (dir : DirInfo) (s : σ) :
    scanLoop block id cb ((blocks i).length + (scanBytes blocks true is).length) c c
        (objIdSeq i) dir s
      = (i :: is).foldlM g s >>= fun s' =>
          pure ({ dir with numElems := dir.numElems + (i :: is).length }, s') := by
  have hlies : LiesAt block c (blocks i) := ⟨_, h.symm⟩
  induction is generalizing i c dir s with
  | nil =>
      have hcall := hcb [] i [] rfl s
      rw [← h] at hcall
      rw [scanBytes, List.length_nil, scanLoop_skip (hnul i) hlies]
      simp [scanLoop, hcall]
  | cons j is ih =>
      have hcall := hcb [] i (j :: is) rfl s
      rw [← h] at hcall
      have hscan : scanBytes blocks true (j :: is)
          = 0 :: objIdSeq j :: (blocks j ++ scanBytes blocks true is) := by
        simp [scanBytes]
      have hlen : (scanBytes blocks true (j :: is)).length
          = ((blocks j).length + (scanBytes blocks true is).length) + 1 + 1 := by
        rw [hscan]; simp
      rw [hscan] at h
      have hrest : block.drop (c + (blocks i).length)
          = 0 :: objIdSeq j :: (blocks j ++ (scanBytes blocks true is ++ tail)) := by
        rw [← List.drop_drop, h, List.drop_left]
        simp
      have hnext : block.drop (c + (blocks i).length + 2)
          = blocks j ++ (scanBytes blocks true is ++ tail) := by
        rw [← List.drop_drop, hrest]
        rfl
      have hsep : LiesAt block (c + (blocks i).length) (0 :: objIdSeq j :: []) :=
        ⟨blocks j ++ (scanBytes blocks true is ++ tail), by rw [hrest]; rfl⟩
      rw [scanLoop_skip (hnul i) hlies, hlen, scanLoop, blockAt_of_liesAt hsep,
        Checked.ok_bind, if_pos rfl, List.foldlM_cons, bind_assoc]
      simp only [Nat.add_sub_cancel_left, hcall]
      congr 1
      funext s'
      have hrec := ih j hnext
        (fun pre k post hsplit => hcb (i :: pre) k post (by rw [hsplit]; rfl))
        { dir with numElems := dir.numElems + 1 } s' ⟨_, hnext.symm⟩
      rw [blockAt_of_liesAt (liesAt_cons.mp hsep).2, Checked.ok_bind, hrec]
      simp [Nat.add_assoc, Nat.add_comm 1]

/-- What `unmarshall_elems` leaves in the directory of a folder with these payload blocks. -/
def loadedElems (blocks : Blocks) (dir : DirInfo) : DirInfo :=
  if blocks.body.length < 512 then
    { dir with numElems := dir.numElems + blocks.occupied.length, elemsLinearScan := true }
  else
    { dir with
      elemBlockSizes := setSizes blocks (List.finRange 62) dir.elemBlockSizes
      numElems := dir.numElems + blocks.occupied.length }

/-- A payload block ends with the width of its cells and the layout flag: 0 for a positional
directory; otherwise a zero width marks a scan list. -/
theorem unmarshallElems_footer (dir : DirInfo) (xs : List UInt8) {cell flag : UInt8}
    (hcell : cell.toNat ≤ uintSize) (cb : ElemUnmarshallCb σ) (s : σ) :
    unmarshallElems dir (xs ++ [cell, flag]) id cb s =
      if flag = 0 then
        unmarshallDirectory dir (xs ++ [cell, flag]) id cb false cell.toNat radixBase 2 s
      else if cell = 0 then
        payloadLinearScan dir (xs ++ [cell, flag]) xs.length id cb s >>= fun r =>
          pure ({ r.1 with elemsLinearScan := true }, r.2)
      else (do
        .require .blockRead (1 ≤ xs.length)
        let num ← blockAt (xs ++ [cell, flag]) (xs.length - 1)
        .ensure .limit (num.toNat ≤ radixBase)
        unmarshallDirectory dir (xs ++ [cell, flag]) id cb true cell.toNat num.toNat 3 s) := by
  have hlies := liesAt_self (xs ++ [cell, flag])
  rw [liesAt_append, Nat.zero_add] at hlies
  have hcellAt : blockAt (xs ++ [cell, flag]) xs.length = .ok cell :=
    blockAt_of_liesAt hlies.2
  have hflagAt : blockAt (xs ++ [cell, flag]) (xs.length + 1) = .ok flag := by
    have htail := hlies.2
    rw [liesAt_cons] at htail
    exact blockAt_of_liesAt htail.2
  have hlen : (xs ++ [cell, flag]).length = xs.length + 2 := by simp
  have hthree : 3 ≤ xs.length + 2 ↔ 1 ≤ xs.length := by omega
  rw [unmarshallElems, hlen, Checked.require_of (by omega), Checked.ok_bind]
  simp only [Nat.add_sub_cancel, hcellAt, hflagAt, Checked.ok_bind,
    Checked.ensure_of hcell, show xs.length + 2 - 1 = xs.length + 1 by omega,
    show xs.length + 2 - 3 = xs.length - 1 by omega,
    Checked.ensure_of (show 2 ≤ xs.length + 2 by omega), Checked.require, hthree]

/-- A scan list is read record by record. -/
theorem unmarshallElems_scan (hid : id.length < idSize) (hnul : ∀ i, 0 ∉ blocks i)
    (hocc : blocks.occupied ≠ [])
    (hcb : ∀ (pre : List Digit) (i : Digit) post, blocks.occupied = pre ++ i :: post → ∀ s,
      cb (id ++ [objIdSeq i]) (blocks i ++ (scanBytes blocks true post ++ [0, 1]) ++ [0]) (blocks i).length s = g s i)
    (dir : DirInfo) (s : σ) :
    unmarshallElems dir (scanBytes blocks false blocks.occupied ++ [0, 1]) id cb s
      = blocks.occupied.foldlM g s >>=
          fun s' => pure ({ dir with
            numElems := dir.numElems + blocks.occupied.length
            elemsLinearScan := true }, s') := by
  obtain ⟨i, is, his⟩ := List.exists_cons_of_ne_nil hocc
  rw [his] at hcb ⊢
  have hscan : scanBytes blocks false (i :: is)
      = objIdSeq i :: (blocks i ++ scanBytes blocks true is) := by
    simp [scanBytes]
  have hlen : (scanBytes blocks false (i :: is)).length
      = (blocks i).length + (scanBytes blocks true is).length + 1 := by
    rw [hscan]; simp
  have hkey : LiesAt (scanBytes blocks false (i :: is) ++ [0, 1]) 0 [objIdSeq i] :=
    ⟨blocks i ++ (scanBytes blocks true is ++ [0, 1]), by rw [hscan]; simp⟩
  have hfirst : (scanBytes blocks false (i :: is) ++ [0, 1]).drop 1
      = blocks i ++ (scanBytes blocks true is ++ [0, 1]) := by
    rw [hscan]; simp
  rw [unmarshallElems_footer _ _ (by decide), if_neg (by decide), if_pos rfl,
    payloadLinearScan, hlen, Checked.require_of (by omega), Checked.ok_bind,
    blockAt_of_liesAt hkey, Checked.ok_bind, pushId_of_lt hid, Checked.ok_bind,
    Nat.add_sub_cancel, scanLoop_eq hnul is i hfirst hcb, bind_assoc]
  rfl

/-- The directory part of `unmarshall_elems` over a block that is `body ++ cells ++ footer`. -/
theorem unmarshallDirectory_eq (hid : id.length < idSize) (hlt : blocks.body.length < 2 ^ 31)
    {useKeys : Bool} {num footerSize : Nat}
    (hlen : block.length = blocks.body.length
      + (num * (if useKeys then blocks.cellSize + 1 else blocks.cellSize) + footerSize))
    (hkeyed : useKeys = true → num = blocks.occupied.length ∧
      LiesAt block blocks.body.length (blocks.occupied.flatMap blocks.keyedCell))
    (hslots : useKeys = false → num = 62 ∧
      LiesAt block blocks.body.length ((List.finRange 62).flatMap blocks.slotCell))
    (hcb : ∀ i : Digit, blocks i ≠ [] → ∀ s, cb (id ++ [objIdSeq i])
      (block.drop (((List.finRange 62).take i).flatMap blocks).length ++ [0]) (blocks i).length s
        = g s i)
    (dir : DirInfo) (s : σ) :
    unmarshallDirectory dir block id cb useKeys blocks.cellSize num footerSize s
      = blocks.occupied.foldlM g s >>=
          fun s' => pure ({ dir with
            elemBlockSizes := setSizes blocks (List.finRange 62) dir.elemBlockSizes
            numElems := dir.numElems + blocks.occupied.length }, s') := by
  have huse : ∀ (st : ElemsState σ) (i : Digit), blocks i = [] →
      useElemCell block id cb st (0, objIdSeq i, some i) = .ok st := by
    intro st i _
    simp [useElemCell, pushId_of_lt hid]
  simp only [unmarshallDirectory]
  rw [hlen, Checked.ensure_of (by omega), Checked.ok_bind,
    Nat.add_sub_cancel, foldCells_eq hlt huse hkeyed hslots,
    foldlM_useElemCell hid hcb dir le_rfl, bind_assoc]
  rfl

/-- A record of a directory layout with what follows it. -/
theorem drop_body_append (blocks : Blocks) (i : Digit) (tail : List UInt8) :
    (blocks.body ++ tail).drop (((List.finRange 62).take i).flatMap blocks).length
      = blocks i ++ (((List.finRange 62).drop (i + 1)).flatMap blocks ++ tail) := by
  have hsplit : blocks.body = ((List.finRange 62).take i).flatMap blocks ++
      (blocks i ++ ((List.finRange 62).drop (i + 1)).flatMap blocks) := by
    rw [Blocks.body, ← List.flatMap_cons, ← Blocks.drop_finRange, ← List.flatMap_append, List.take_append_drop]
  rw [hsplit, List.append_assoc, List.drop_left, List.append_assoc]

/-- **A directory layout** is read block by block. -/
theorem unmarshallElems_directory (hid : id.length < idSize)
    (hlt : blocks.body.length < 2 ^ 31)
    (hcb : ∀ i : Digit, blocks i ≠ [] → ∀ s, cb (id ++ [objIdSeq i])
      (blocks i ++ (((List.finRange 62).drop (i + 1)).flatMap blocks ++ footerBytes blocks) ++ [0])
        (blocks i).length s = g s i)
    (dir : DirInfo) (s : σ) :
    unmarshallElems dir (blocks.body ++ footerBytes blocks) id cb s
      = blocks.occupied.foldlM g s >>=
          fun s' => pure ({ dir with
            elemBlockSizes := setSizes blocks (List.finRange 62) dir.elemBlockSizes
            numElems := dir.numElems + blocks.occupied.length }, s') := by
  have hcb' : ∀ i : Digit, blocks i ≠ [] → ∀ s, cb (id ++ [objIdSeq i])
      ((blocks.body ++ footerBytes blocks).drop
        (((List.finRange 62).take i).flatMap blocks).length ++ [0]) (blocks i).length s = g s i := by
    intro i hi s
    rw [drop_body_append]
    exact hcb i hi s
  have hw := blocks.one_le_cellSize
  have hw' : blocks.cellSize ≤ 4 := blocks.cellSize_le
  have hcell : (UInt8.ofNat blocks.cellSize).toNat = blocks.cellSize := by
    rw [UInt8.toNat_ofNat']; omega
  have hlies := liesAt_self (blocks.body ++ footerBytes blocks)
  rw [liesAt_append, Nat.zero_add] at hlies
  have hfooter := hlies.2
  clear hcb
  unfold footerBytes at hcb' hfooter ⊢
  cases hk : useKeysFor blocks.occupied.length with
  | false =>
      simp only [hk, Bool.false_eq_true, if_false] at hcb' hfooter ⊢
      rw [liesAt_append] at hfooter
      rw [← List.append_assoc] at hcb' hfooter ⊢
      rw [unmarshallElems_footer _ _ (by rw [hcell]; exact hw'), if_pos rfl, hcell]
      refine unmarshallDirectory_eq hid hlt ?_ (by simp) (fun _ => ⟨rfl, hfooter.1⟩) hcb' dir s
      simp only [Bool.false_eq_true, if_false, List.length_append, List.length_cons,
        List.length_nil, length_flatMap_of_const _ _ blocks.length_slotCell,
        List.length_finRange]
      omega
  | true =>
      simp only [hk, if_true] at hcb' hfooter ⊢
      have hnum : (UInt8.ofNat blocks.occupied.length).toNat = blocks.occupied.length := by
        have := blocks.length_occupied_le
        rw [UInt8.toNat_ofNat']; omega
      have hne : UInt8.ofNat blocks.cellSize ≠ 0 := by
        intro h0
        rw [h0] at hcell
        exact absurd hcell (by simp; omega)
      have hsplit : blocks.body ++ (blocks.occupied.flatMap blocks.keyedCell ++
            [UInt8.ofNat blocks.occupied.length, UInt8.ofNat blocks.cellSize, 1])
          = (blocks.body ++ blocks.occupied.flatMap blocks.keyedCell ++
              [UInt8.ofNat blocks.occupied.length]) ++ [UInt8.ofNat blocks.cellSize, 1] := by
        simp
      obtain ⟨hcells, htail⟩ := liesAt_append.mp hfooter
      have hnumAt := blockAt_of_liesAt htail
      rw [hsplit] at hcb' hcells hnumAt ⊢
      rw [unmarshallElems_footer _ _ (by rw [hcell]; exact hw'), if_neg (by decide), if_neg hne,
        Checked.require_of (by simp only [List.length_append, List.length_singleton]; omega),
        Checked.ok_bind]
      have hpos : (blocks.body ++ blocks.occupied.flatMap blocks.keyedCell ++
            [UInt8.ofNat blocks.occupied.length]).length - 1
          = blocks.body.length + (blocks.occupied.flatMap blocks.keyedCell).length := by
        simp only [List.length_append, List.length_singleton]
        omega
      have hle : blocks.occupied.length ≤ radixBase := blocks.length_occupied_le
      rw [hpos, hnumAt, Checked.ok_bind, hnum, Checked.ensure_of hle, Checked.ok_bind, hcell]
      refine unmarshallDirectory_eq hid hlt ?_ (fun _ => ⟨rfl, hcells⟩) (by simp) hcb' dir s
      simp only [if_true, List.length_append, List.length_cons, List.length_nil,
        length_flatMap_of_const _ _ blocks.length_keyedCell]
      omega

/-- **The payload block of a folder** is read back: the callback runs over its elements in slot
order, each with the bytes behind it, and the directory is filled as `loadedElems` says. -/
theorem unmarshallElems_eq (hid : id.length < idSize) (hlt : blocks.body.length < 2 ^ 31)
    (hnul : ∀ i, 0 ∉ blocks i) (hocc : blocks.occupied ≠ [])
    (hcb : ∀ i : Digit, blocks i ≠ [] → ∀ s, cb (id ++ [objIdSeq i])
      (blocks i ++ blocks.behind i ++ [0]) (blocks i).length s = g s i)
    (dir : DirInfo) (s : σ) :
    unmarshallElems dir (payloadBytes blocks) id cb s
      = blocks.occupied.foldlM g s >>= fun s' => pure (loadedElems blocks dir, s') := by
  have hbody : blocks.body.length ≠ 0 := by
    rw [ne_eq, List.length_eq_zero_iff, Blocks.body_eq_nil]
    exact hocc
  rw [payloadBytes, if_neg hbody]
  unfold loadedElems
  by_cases hsmall : blocks.body.length < 512
  · rw [if_pos hsmall, if_pos hsmall]
    refine unmarshallElems_scan hid hnul hocc ?_ dir s
    intro pre i post hsplit s
    have hi : blocks i ≠ [] := Blocks.mem_occupied.mp (by rw [hsplit]; simp)
    have hcall := hcb i hi s
    rwa [Blocks.behind, if_pos hsmall, Blocks.filter_drop_of_occupied_eq hsplit] at hcall
  · rw [if_neg hsmall, if_neg hsmall]
    refine unmarshallElems_directory hid hlt ?_ dir s
    intro i hi s
    have hcall := hcb i hi s
    rwa [Blocks.behind, if_neg hsmall] at hcall

end Payload

/-- The end of a folder denotes the size of its payload. -/
theorem readPayloadSize_eq {file bs : List UInt8} {offset n blockSize : Nat}
    (h : LiesAt file offset (bs ++ sizeBytes n)) (hsize : blockSize = (bs ++ sizeBytes n).length)
    (hn : n ≤ bs.length) (hlt : n < 2 ^ 31) {dir : DirInfo} (hdir : dir.payloadBlockSize = 0) :
    readPayloadSize dir file offset blockSize = .ok { dir with
      payloadBlockSize := n
      payloadFooterSize := (sizeBytes n).length } := by
  rw [liesAt_append] at h
  have htail := h.2
  by_cases h0 : n = 0
  · have hbytes : sizeBytes n = [0] := if_pos h0
    rw [hbytes] at htail hsize ⊢
    have hpos : offset + blockSize - 1 = offset + bs.length := by
      rw [hsize, List.length_append, List.length_singleton]; omega
    rw [readPayloadSize, hpos, preadExact_of_liesAt htail List.length_singleton.symm]
    simp [h0, ← hdir]
  · have hw := one_le_kndMinBytes n
    have hw' : kndMinBytes n ≤ 4 := kndMinBytes_le n
    have hbytes : sizeBytes n = kndPackInt n (kndMinBytes n) ++ [UInt8.ofNat (kndMinBytes n)] :=
      if_neg h0
    have hlen := length_kndPackInt hw hw' n
    have hspec : (UInt8.ofNat (kndMinBytes n)).toNat = kndMinBytes n := by
      rw [UInt8.toNat_ofNat']; omega
    have hne : UInt8.ofNat (kndMinBytes n) ≠ 0 := by
      intro hz
      rw [hz] at hspec
      exact absurd hspec (by simp; omega)
    have hschar : schar (UInt8.ofNat (kndMinBytes n)) = kndMinBytes n := by
      rw [schar, hspec, if_pos (by omega)]
    rw [hbytes, liesAt_append, hlen] at htail
    have hblock : blockSize = bs.length + (kndMinBytes n + 1) := by
      rw [hsize, hbytes, List.length_append, List.length_append, hlen, List.length_singleton]
    have hpos₁ : offset + blockSize - 1 = offset + bs.length + kndMinBytes n := by omega
    have hpos₂ : offset + blockSize - (1 + kndMinBytes n) = offset + bs.length := by omega
    have hval := kndUnpackInt_kndPackInt hw hw' (lt_pow_kndMinBytes le_rfl (by omega)) hlt
    rw [readPayloadSize, hpos₁, preadExact_of_liesAt htail.2 List.length_singleton.symm]
    simp only [Checked.ok_bind, List.headD_cons, if_neg hne, hschar, hspec]
    rw [Checked.ensure_of (by exact_mod_cast hw'), Checked.require_of (by omega),
      Checked.ok_bind, Checked.ok_bind, Checked.require_of (by omega), Checked.ok_bind, hpos₂,
      preadExact_of_liesAt htail.1 hlen.symm, Checked.ok_bind, hval,
      Checked.require_of (by omega), Checked.ok_bind, Checked.ensure_of (by omega),
      Checked.ok_bind, hbytes, List.length_append, hlen, List.length_singleton, Nat.add_comm 1]
    rfl

/-! ## (4) Subfolders -/

/-- **The last three bytes of a footer** are the number of cells of a keyed directory (or the end of
the last cell of a positional one), the cell width and the layout flag. -/
theorem footerBytes_eq (blocks : Blocks) : ∃ cells x,
    footerBytes blocks = cells ++ [x, UInt8.ofNat blocks.cellSize,
      if useKeysFor blocks.occupied.length then 1 else 0] ∧
    (useKeysFor blocks.occupied.length = true → x = UInt8.ofNat blocks.occupied.length ∧
      cells = blocks.occupied.flatMap blocks.keyedCell) ∧
    (useKeysFor blocks.occupied.length = false →
      cells ++ [x] = (List.finRange 62).flatMap blocks.slotCell) := by
  unfold footerBytes
  cases useKeysFor blocks.occupied.length with
  | true => exact ⟨_, _, rfl, fun _ => ⟨rfl, rfl⟩, by simp⟩
  | false =>
      have hlen := length_flatMap_of_const _ _ blocks.length_slotCell (List.finRange 62)
      have hw := blocks.one_le_cellSize
      have hne : (List.finRange 62).flatMap blocks.slotCell ≠ [] := by
        intro hnil
        rw [hnil, List.length_nil, List.length_finRange] at hlen
        omega
      obtain ⟨cells, x, hcells⟩ := (List.eq_nil_or_concat _).resolve_left hne
      rw [List.concat_eq_append] at hcells
      exact ⟨cells, x, by simp [hcells], by simp, fun _ => hcells.symm⟩

section Subdirs

variable {γ : Type} {blocks : Blocks} {file id : List UInt8} {offset : Nat}
  {recur : BlockReader σ} {g : σ → γ → GspM σ} {E : Digit → List γ}
  {D : Digit → Nat → SharedSetDir}

/-- What `unmarshall_block` does on the subfolders of a folder: on the block of slot `i` at offset
`off` it runs `g` over the records `E i` and returns the directory `D i off`. -/
structure ReadsBlocks (blocks : Blocks) (file id : List UInt8) (recur : BlockReader σ)
    (g : σ → γ → GspM σ) (E : Digit → List γ) (D : Digit → Nat → SharedSetDir) : Prop where
  recur_eq : ∀ i off s, blocks i ≠ [] → LiesAt file off (blocks i) →
    recur { totalSize := (blocks i).length, globalOffset := off } (blocks i).length
        (id ++ [objIdSeq i]) s
      = (E i).foldlM g s >>= fun s' => pure (D i off, s')
  totalElems_eq : ∀ i off, (D i off).totalElems = (E i).length
  records_nil : ∀ i, blocks i = [] → E i = []
  dir_null : ∀ i off, blocks i = [] → D i off = .null

/-- The state of the subfolder loop after the slots of `pre`. -/
def subdirsStateAt (blocks : Blocks) (E : Digit → List γ) (D : Digit → Nat → SharedSetDir)
    (offset : Nat) (dir : DirInfo) (pre : List Digit) (s : σ) : SubdirsState σ where
  dir := { dir with totalElems := dir.totalElems + (pre.flatMap E).length }
  subdirs := fun j => if pre.contains j then
    D j (offset + (((List.finRange 62).take j).flatMap blocks).length) else .null
  blockOffset := (pre.flatMap blocks).length
  s := s

/-- The loop of `read_subdirs` reads the subfolders in slot order. -/
theorem foldlM_useSubdirCell (hid : id.length < idSize)
    (hrec : ReadsBlocks blocks file id recur g E D) (hbody : LiesAt file offset blocks.body)
    (dir : DirInfo) (s : σ) :
    (List.finRange 62).foldlM (fun st (i : Digit) => useSubdirCell recur id offset st
        ((blocks i).length, objIdSeq i, some i))
        { dir, subdirs := fun _ => .null, blockOffset := 0, s }
      = ((List.finRange 62).flatMap E).foldlM g s >>= fun s' =>
          pure (subdirsStateAt blocks E D offset dir (List.finRange 62) s') := by
  have hinit : ({ dir, subdirs := fun _ => .null, blockOffset := 0, s } : SubdirsState σ)
      = subdirsStateAt blocks E D offset dir [] s := by
    simp [subdirsStateAt]
  rw [hinit, foldlM_flatMap]
  refine foldlM_concat_state _ (subdirsStateAt blocks E D offset dir) _ _ ?_ s
  intro pre i post x hsplit
  have hpre := eq_take_of_finRange_eq hsplit
  have hlies : LiesAt file (offset + (pre.flatMap blocks).length) (blocks i) := by
    rw [Blocks.body, hsplit] at hbody
    exact hbody.of_flatMap
  by_cases hnil : blocks i = []
  · have hE := hrec.records_nil i hnil
    have hD := hrec.dir_null i (offset + (pre.flatMap blocks).length) hnil
    simp only [useSubdirCell, hnil, hE, List.length_nil, if_true, List.foldlM_nil, pure_bind]
    congr 1
    simp only [subdirsStateAt, List.flatMap_append, List.flatMap_cons, List.flatMap_nil, hE, hnil,
      List.append_nil, SubdirsState.mk.injEq, true_and, and_true]
    funext j
    by_cases hj : j = i
    · subst hj
      rw [← hpre, hD]
      simp
    · simp [hj]
  · have hlen : (blocks i).length ≠ 0 := by simpa using hnil
    simp only [useSubdirCell, if_neg hlen, pushId_of_lt hid, Checked.ok_bind, subdirsStateAt,
      hrec.recur_eq i _ x hnil hlies, bind_assoc, pure_bind]
    congr 1
    funext s'
    simp only [hrec.totalElems_eq, List.flatMap_append, List.flatMap_cons, List.flatMap_nil,
      List.append_nil, List.length_append, Nat.add_assoc]
    congr 2
    funext j
    by_cases hj : j = i
    · subst hj
      rw [← hpre]
      simp
    · simp [hj]

/-- The directory of the subfolders over a file part that is `body ++ cells ++ spec`. -/
theorem readSubdirCells_eq (hid : id.length < idSize) (hlt : blocks.body.length < 2 ^ 31)
    (hrec : ReadsBlocks blocks file id recur g E D) {useKeys : Bool}
    {num specSize parentBlockSize : Nat} {cells : List UInt8}
    (hbody : LiesAt file offset blocks.body)
    (hcells : LiesAt file (offset + blocks.body.length) cells)
    (hsize : parentBlockSize = blocks.body.length + (cells.length + specSize))
    (hkeyed : useKeys = true → num = blocks.occupied.length ∧
      cells = blocks.occupied.flatMap blocks.keyedCell)
    (hslots : useKeys = false → num = 62 ∧ cells = (List.finRange 62).flatMap blocks.slotCell)
    (dir : DirInfo) (s : σ) :
    readSubdirCells recur dir file offset parentBlockSize id useKeys blocks.cellSize num specSize s
      = ((List.finRange 62).flatMap E).foldlM g s >>= fun s' =>
          pure (.dir { dir with
              totalElems := dir.totalElems + ((List.finRange 62).flatMap E).length }
            (fun i => D i (offset + (((List.finRange 62).take i).flatMap blocks).length)), s') := by
  have hw' : blocks.cellSize ≤ 4 := blocks.cellSize_le
  have hle := blocks.length_occupied_le
  have huse : ∀ (st : SubdirsState σ) (i : Digit), blocks i = [] →
      useSubdirCell recur id offset st (0, objIdSeq i, some i) = .ok st := by
    intro st i _
    simp [useSubdirCell]
  have hfooter : (if useKeys then num * blocks.cellSize + num else num * blocks.cellSize)
      = cells.length ∧ cells.length ≤ 310 := by
    cases useKeys with
    | true =>
        obtain ⟨rfl, rfl⟩ := hkeyed rfl
        have hprod : blocks.occupied.length * blocks.cellSize ≤ 62 * 4 := Nat.mul_le_mul hle hw'
        rw [length_flatMap_of_const _ _ blocks.length_keyedCell, if_pos rfl, Nat.mul_succ]
        refine ⟨rfl, ?_⟩
        omega
    | false =>
        obtain ⟨hnum, hcells⟩ := hslots rfl
        rw [hnum, hcells, length_flatMap_of_const _ _ blocks.length_slotCell,
          List.length_finRange]
        simp only [Bool.false_eq_true, if_false, true_and]
        omega
  have hpos : blocks.body.length + (cells.length + specSize) - (cells.length + specSize)
      = blocks.body.length := by omega
  simp only [readSubdirCells, hfooter.1]
  rw [Checked.ensure_of (by unfold nameSize; omega), Checked.ok_bind,
    Checked.require_of (by omega), Checked.ok_bind, hsize, hpos,
    preadExact_of_liesAt hcells rfl, Checked.ok_bind,
    foldCells_eq hlt huse (fun hk => ⟨(hkeyed hk).1, ?_⟩) (fun hk => ⟨(hslots hk).1, ?_⟩),
    foldlM_useSubdirCell hid hrec hbody dir s, bind_assoc]
  · simp [subdirsStateAt]
  · rw [← (hkeyed hk).2]; exact liesAt_self cells
  · rw [← (hslots hk).2]; exact liesAt_self cells

/-- **The subfolder part of a folder** is read back: `g` runs over the records of all subfolders in
slot order, and every subfolder's directory starts where its block does. -/
theorem readSubdirs_eq (hid : id.length < idSize) (hlt : blocks.body.length < 2 ^ 31)
    (hrec : ReadsBlocks blocks file id recur g E D)
    (hlies : LiesAt file offset (blocks.body ++ footerBytes blocks)) (dir : DirInfo) (s : σ) :
    readSubdirs recur dir file offset (blocks.body ++ footerBytes blocks).length id s
      = ((List.finRange 62).flatMap E).foldlM g s >>= fun s' =>
          pure (.dir { dir with
              totalElems := dir.totalElems + ((List.finRange 62).flatMap E).length }
            (fun i => D i (offset + (((List.finRange 62).take i).flatMap blocks).length)), s') := by
  have hw := blocks.one_le_cellSize
  have hw' : blocks.cellSize ≤ 4 := blocks.cellSize_le
  have hcell : (UInt8.ofNat blocks.cellSize).toNat = blocks.cellSize := by
    rw [UInt8.toNat_ofNat']; omega
  have hle := blocks.length_occupied_le
  have hnum : (UInt8.ofNat blocks.occupied.length).toNat = blocks.occupied.length := by
    rw [UInt8.toNat_ofNat']; omega
  obtain ⟨cells, x, hfooter, hkeyed, hslots⟩ := footerBytes_eq blocks
  obtain ⟨hbody, htail⟩ := liesAt_append.mp hlies
  have hsize : (blocks.body ++ footerBytes blocks).length
      = blocks.body.length + (cells.length + 3) := by
    rw [hfooter]; simp
  rw [hfooter] at htail
  have hspec := (liesAt_append.mp htail).2
  have hpos : offset + (blocks.body.length + (cells.length + 3)) - 3
      = offset + blocks.body.length + cells.length := by omega
  simp only [readSubdirs]
  rw [hsize, Checked.require_of (by omega), Checked.ok_bind, hpos,
    preadExact_of_liesAt hspec (by simp), Checked.ok_bind]
  simp only [List.getD_cons_succ, List.getD_cons_zero, hcell]
  rw [Checked.ensure_of (by unfold uintSize; omega), Checked.ok_bind]
  cases hk : useKeysFor blocks.occupied.length with
  | true =>
      obtain ⟨rfl, hcells⟩ := hkeyed hk
      rw [if_neg (by simp), hnum]
      exact readSubdirCells_eq hid hlt hrec hbody (liesAt_append.mp htail).1 rfl
        (fun _ => ⟨rfl, hcells⟩) (by simp) dir s
  | false =>
      have hcells : cells ++ [x] = _ := hslots hk
      rw [← List.singleton_append, ← List.append_assoc, liesAt_append] at htail
      rw [if_pos (by simp)]
      refine readSubdirCells_eq hid hlt hrec hbody htail.1 ?_ (by simp)
        (fun _ => ⟨rfl, hcells⟩) dir s
      simp

end Subdirs

/-! ## (5) Folders and trees -/

section Folder

variable {α : Type} {val : α → List UInt8}

/-- The values that the format can hold: not empty and free of NUL bytes. -/
def Storable (val : α → List UInt8) (e : α) : Prop := val e ≠ [] ∧ 0 ∉ val e

/-- The directory of a folder without its subdirs: `numSub` elements lie in its subfolders. -/
def folderInfo (payload : Blocks) (numSub total off : Nat) : DirInfo :=
  let info : DirInfo := {
    totalSize := total
    globalOffset := off
    payloadBlockSize := (payloadBytes payload).length
    payloadFooterSize := (sizeBytes (payloadBytes payload).length).length }
  if payload.occupied = [] then { info with totalElems := numSub }
  else { loadedElems payload info with totalElems := payload.occupied.length + numSub }

/-- **The directory of a tree of folders** that is written as `val` at offset `off`; `total` is the
size noted for its root. -/
def ElemIdx.dirOf (val : α → List UInt8) : ElemIdx α → (total off : Nat) → SharedSetDir
  | .null, _, _ => .null
  | .node elems idxs, total, off =>
      .dir (folderInfo (payloadBlocks val elems)
          ((List.finRange 62).flatMap fun i => (idxs i).entries []).length total off)
        fun i => (idxs i).dirOf val ((idxs i).blockBytes val).length
          (off + (payloadBytes (payloadBlocks val elems)).length +
            (((List.finRange 62).take i).flatMap fun j => (idxs j).blockBytes val).length)

/-- The number of stored elements does not depend on the id of the folder. -/
theorem length_entries (idx : ElemIdx α) (pre : List UInt8) :
    (idx.entries pre).length = (idx.entries []).length := by
  induction idx generalizing pre with
  | null => rfl
  | node es ss ih =>
      rw [ElemIdx.entries_node, ElemIdx.entries_node, List.length_append, List.length_append,
        List.length_map, List.length_map, List.length_flatMap, List.length_flatMap]
      have hsub : (fun i : Digit => ((ss i).entries (pre ++ [objIdSeq i])).length)
          = fun i : Digit => ((ss i).entries ([] ++ [objIdSeq i])).length :=
        funext fun i => (ih i _).trans (ih i _).symm
      rw [hsub]

theorem length_elemList_eq {es : Digit → Option α} (hval : ∀ i e, es i = some e → val e ≠ []) :
    (ElemIdx.elemList es).length = (payloadBlocks val es).occupied.length := by
  have hfst := congrArg List.length (ElemIdx.map_fst_elemList es)
  rw [List.length_map] at hfst
  rw [hfst, Blocks.occupied]
  congr 2
  funext i
  cases he : es i with
  | none => simp [payloadBlocks, he]
  | some e => simp [payloadBlocks, he, hval i e he]

/-- **The call for a record**: the callback receives the id, the value with what follows it in the block and
the NUL behind the block, and the size of the value. -/
def onRecord (cb : ElemUnmarshallCb σ) (val : α → List UInt8) (s : σ)
    (r : List UInt8 × α × List UInt8) : GspM σ :=
  cb r.1 (val r.2.1 ++ r.2.2 ++ [0]) (val r.2.1).length s

/-- A loop over the payload blocks of a folder is a loop over its own elements. -/
theorem foldlM_payloadBlocks {es : Digit → Option α} (hval : ∀ i e, es i = some e → val e ≠ [])
    (cb : ElemUnmarshallCb σ) (id : List UInt8) (s : σ) :
    (payloadBlocks val es).occupied.foldlM
        (fun s (i : Digit) => cb (id ++ [objIdSeq i])
          (payloadBlocks val es i ++ (payloadBlocks val es).behind i ++ [0])
          (payloadBlocks val es i).length s) s
      = ((ElemIdx.elemList es).map fun p =>
          (id ++ [objIdSeq p.1], p.2, (payloadBlocks val es).behind p.1)).foldlM (onRecord cb val) s := by
  rw [foldlM_occupied, List.foldlM_map, ElemIdx.elemList]
  refine foldlM_option _ _ _ _ ?_ ?_ s
  · intro s i hi
    have he : es i = none := by simpa using hi
    simp [payloadBlocks, he]
  · intro s i p hp
    cases he : es i with
    | none => simp [he] at hp
    | some e =>
        obtain rfl : (i, e) = p := by simpa [he] using hp
        simp [onRecord, payloadBlocks, he, hval i e he]

theorem totalElems_dirOf {idx : ElemIdx α} (hidx : idx.All (Storable val)) (total off : Nat) :
    (idx.dirOf val total off).totalElems = (idx.entries []).length := by
  cases idx with
  | null => rfl
  | node es ss =>
      have hlen := length_elemList_eq fun i e he => (hidx.1 i e he).1
      have hsub : ((List.finRange 62).flatMap fun i => (ss i).entries []).length
          = ((List.finRange 62).flatMap fun i => (ss i).entries ([] ++ [objIdSeq i])).length := by
        rw [List.length_flatMap, List.length_flatMap]
        congr 2
        funext i
        exact (length_entries _ _).symm
      rw [ElemIdx.entries_node, List.length_append, List.length_map, hlen, ← hsub]
      simp only [ElemIdx.dirOf, SharedSetDir.totalElems, folderInfo]
      by_cases hocc : (payloadBlocks val es).occupied = []
      · simp [hocc]
      · simp [hocc]

theorem body_le_payloadBytes (blocks : Blocks) :
    blocks.body.length ≤ max 512 (payloadBytes blocks).length := by
  unfold payloadBytes
  split_ifs with h0 h512
  · omega
  · omega
  · rw [List.length_append]; omega

theorem payloadBytes_eq_nil {blocks : Blocks} :
    payloadBytes blocks = [] ↔ blocks.occupied = [] := by
  rw [← Blocks.body_eq_nil]
  unfold payloadBytes
  by_cases h0 : blocks.body = []
  · simp [h0]
  · rw [if_neg (by simpa using h0)]
    split_ifs <;> simp [h0]

theorem subdirBytes_eq_nil {blocks : Blocks} :
    subdirBytes blocks = [] ↔ blocks.occupied = [] := by
  unfold subdirBytes
  by_cases h0 : blocks.occupied = []
  · simp [h0]
  · simp [h0, Blocks.body_eq_nil]

theorem folderInfo_add (payload : Blocks) (numSub total off : Nat) :
    folderInfo payload numSub total off = { folderInfo payload 0 total off with
      totalElems := (folderInfo payload 0 total off).totalElems + numSub } := by
  unfold folderInfo
  split_ifs <;> simp

/-- The payload part of `unmarshall_block` on a folder that lies at `off`. -/
theorem unmarshallPayload_eq {file id : List UInt8} {es : Digit → Option α}
    {cb : ElemUnmarshallCb σ} (hid : id.length < idSize)
    (hfile : file.length < 2 ^ 31) (hes : ∀ i e, es i = some e → Storable val e) {off : Nat}
    (hlies : LiesAt file off (payloadBytes (payloadBlocks val es))) {dir : DirInfo}
    (hoff : dir.globalOffset = off)
    (hsize : dir.payloadBlockSize = (payloadBytes (payloadBlocks val es)).length)
    (hnum : dir.numElems = 0) (s : σ) :
    (if dir.payloadBlockSize = 0 then pure (dir, s) else do
        let block ← preadExact file dir.globalOffset dir.payloadBlockSize
        let (dir, s) ← unmarshallElems dir block id cb s
        return ({ dir with totalElems := dir.numElems }, s))
      = ((ElemIdx.elemList es).map fun p =>
          (id ++ [objIdSeq p.1], p.2, (payloadBlocks val es).behind p.1)).foldlM
            (onRecord cb val) s >>= fun s' =>
            pure (if (payloadBlocks val es).occupied = [] then dir
              else { loadedElems (payloadBlocks val es) dir with
                totalElems := (payloadBlocks val es).occupied.length }, s') := by
  set blocks := payloadBlocks val es with hblocks
  have hnul : ∀ i, 0 ∉ blocks i := by
    intro i
    cases he : es i with
    | none => simp [hblocks, payloadBlocks, he]
    | some e => simpa [hblocks, payloadBlocks, he] using (hes i e he).2
  rw [← foldlM_payloadBlocks fun i e he => (hes i e he).1, ← hblocks]
  by_cases hocc : blocks.occupied = []
  · have hnil : payloadBytes blocks = [] := payloadBytes_eq_nil.mpr hocc
    rw [hnil, List.length_nil] at hsize
    rw [if_pos hsize, hocc, if_pos rfl]
    rfl
  · have hne : payloadBytes blocks ≠ [] := mt payloadBytes_eq_nil.mp hocc
    have hle := hlies.length_le hne
    have hbody := body_le_payloadBytes blocks
    rw [if_neg (by rw [hsize]; simpa using hne), if_neg hocc, hoff,
      preadExact_of_liesAt hlies hsize, Checked.ok_bind,
      unmarshallElems_eq hid (by omega) hnul hocc (fun _ _ _ => rfl), bind_assoc]
    congr 1
    funext s'
    simp only [Checked.pure_eq, Checked.ok_bind, loadedElems]
    split_ifs <;> simp [hnum]

/-- **One folder** is read back, given that its subfolders are. -/
theorem unmarshallBlockWith_eq {file id : List UInt8} {recur : BlockReader σ}
    {es : Digit → Option α} {ss : Digit → ElemIdx α} {cb : ElemUnmarshallCb σ}
    (hid : id.length < idSize) (hfile : file.length < 2 ^ 31)
    (hidx : (ElemIdx.node es ss).All (Storable val)) {off : Nat}
    (hlies : LiesAt file off ((ElemIdx.node es ss).blockBytes val))
    (hrec : ReadsBlocks (fun i => (ss i).blockBytes val) file id recur
      (onRecord cb val) (fun i => (ss i).records val (id ++ [objIdSeq i]))
      (fun i off => (ss i).dirOf val ((ss i).blockBytes val).length off))
    (total : Nat) (s : σ) :
    unmarshallBlockWith recur file cb { totalSize := total, globalOffset := off }
        ((ElemIdx.node es ss).blockBytes val).length id s
      = ((ElemIdx.node es ss).records val id).foldlM (onRecord cb val) s >>= fun s' =>
          pure ((ElemIdx.node es ss).dirOf val total off, s') := by
  have hes : ∀ i e, es i = some e → Storable val e := hidx.1
  rw [blockBytes_node, folderBytes] at hlies ⊢
  set payload := payloadBlocks val es with hpayload
  set subs : Blocks := fun i => (ss i).blockBytes val with hsubs
  obtain ⟨hparts, -⟩ := liesAt_append.mp hlies
  obtain ⟨hP, hS⟩ := liesAt_append.mp hparts
  have hlt : (payloadBytes payload).length < 2 ^ 31 ∧ (subdirBytes subs).length < 2 ^ 31 := by
    have hne : payloadBytes payload ++ subdirBytes subs ++ sizeBytes (payloadBytes payload).length
        ≠ [] := folderBytes_ne_nil payload subs
    have hle := hlies.length_le hne
    rw [List.length_append, List.length_append] at hle
    omega
  have hread := readPayloadSize_eq hlies rfl (by simp) hlt.1
    (show ({ totalSize := total, globalOffset := off } : DirInfo).payloadBlockSize = 0 from rfl)
  rw [unmarshallBlockWith, hread, Checked.ok_bind,
    unmarshallPayload_eq hid hfile hes hP rfl rfl rfl, ElemIdx.records_node, List.foldlM_append,
    bind_assoc, bind_assoc]
  congr 1
  funext s₁
  rw [pure_bind]
  have hinfo : folderInfo payload 0 total off = if payload.occupied = [] then
      ({ totalSize := total, globalOffset := off,
         payloadBlockSize := (payloadBytes payload).length,
         payloadFooterSize := (sizeBytes (payloadBytes payload).length).length } : DirInfo)
      else { loadedElems payload
        { totalSize := total, globalOffset := off,
          payloadBlockSize := (payloadBytes payload).length,
          payloadFooterSize := (sizeBytes (payloadBytes payload).length).length } with
        totalElems := payload.occupied.length } := by
    unfold folderInfo
    split_ifs <;> simp
  have hfields : (folderInfo payload 0 total off).payloadBlockSize = (payloadBytes payload).length ∧
      (folderInfo payload 0 total off).payloadFooterSize
        = (sizeBytes (payloadBytes payload).length).length ∧
      (folderInfo payload 0 total off).globalOffset = off := by
    unfold folderInfo loadedElems
    split_ifs <;> exact ⟨rfl, rfl, rfl⟩
  have hdirs : (ElemIdx.node es ss).dirOf val total off = .dir
      { folderInfo payload 0 total off with
        totalElems := (folderInfo payload 0 total off).totalElems
          + ((List.finRange 62).flatMap fun i => (ss i).records val (id ++ [objIdSeq i])).length }
      fun i => (ss i).dirOf val ((ss i).blockBytes val).length
        (off + (payloadBytes payload).length + (((List.finRange 62).take i).flatMap subs).length)
      := by
    rw [ElemIdx.dirOf, folderInfo_add, List.length_flatMap, List.length_flatMap]
    simp only [ElemIdx.length_records, length_entries]
    rfl
  rw [← hinfo]
  simp only [hfields.1, hfields.2.1, hfields.2.2]
  have hsub : (payloadBytes payload ++ subdirBytes subs ++
        sizeBytes (payloadBytes payload).length).length
      - ((payloadBytes payload).length + (sizeBytes (payloadBytes payload).length).length)
      = (subdirBytes subs).length := by
    rw [List.length_append, List.length_append]
    omega
  rw [Checked.require_of (by rw [List.length_append, List.length_append]; omega),
    Checked.ok_bind, hsub]
  by_cases hocc : subs.occupied = []
  · have hnil : subdirBytes subs = [] := subdirBytes_eq_nil.mpr hocc
    have hnull : ∀ i, ss i = .null := by
      intro i
      have hi : subs i = [] := by
        by_contra hne
        rw [← ne_eq, ← Blocks.mem_occupied, hocc] at hne
        exact absurd hne (List.not_mem_nil)
      have hisNull := blockBytes_eq_nil.mp hi
      cases hs : ss i with
      | null => rfl
      | node es' ss' => simp [hs, ElemIdx.isNull] at hisNull
    have hent : (List.finRange 62).flatMap
        (fun i : Digit => (ss i).records val (id ++ [objIdSeq i])) = [] := by
      simp [List.flatMap_eq_nil_iff, hnull, ElemIdx.records]
    rw [hnil, List.length_nil, if_pos rfl, hdirs, hent]
    simp [hnull, ElemIdx.dirOf]
  · have hne : subdirBytes subs ≠ [] := mt subdirBytes_eq_nil.mp hocc
    have hS' : subdirBytes subs = subs.body ++ footerBytes subs := if_neg hocc
    rw [if_neg (by simpa using hne), hdirs]
    rw [hS'] at hS hlt ⊢
    exact readSubdirs_eq hid (by rw [List.length_append] at hlt; omega) hrec hS _ s₁

/-- **A tree of folders** that lies in a file below `2 ^ 31` bytes is read back: the callback runs
over its entries in order, and the directory in memory is `dirOf`. -/
theorem unmarshallBlock_eq {file : List UInt8} {cb : ElemUnmarshallCb σ}
    (hfile : file.length < 2 ^ 31) {idx : ElemIdx α} {room : Nat} {id : List UInt8}
    (hroom : id.length + room = idSize) (hfits : idx.Fits room) (hnull : idx.isNull = false)
    (hidx : idx.All (Storable val)) {off : Nat} (hlies : LiesAt file off (idx.blockBytes val))
    (total : Nat) (s : σ) :
    unmarshallBlock file cb room { totalSize := total, globalOffset := off }
        (idx.blockBytes val).length id s
      = (idx.records val id).foldlM (onRecord cb val) s >>= fun s' =>
          pure (idx.dirOf val total off, s') := by
  induction idx generalizing room id off total s with
  | null => cases hnull
  | node es ss ih =>
      cases room with
      | zero => exact hfits.elim
      | succ room =>
          have hid : id.length < idSize := by omega
          refine unmarshallBlockWith_eq hid hfile hidx hlies ?_ total s
          refine ⟨fun i off s hne hi => ?_, fun i off => ?_, fun i hnil => ?_, fun i off hnil => ?_⟩
          · have hi' : (ss i).isNull = false := by
              rw [← Bool.not_eq_true, ← blockBytes_eq_nil]
              exact hne
            exact ih i (by simp; omega) (hfits i) hi' (hidx.2 i) hi _ s
          · rw [totalElems_dirOf (hidx.2 i), ElemIdx.length_records]
            exact (length_entries _ _).symm
          · cases hs : ss i with
            | null => rfl
            | node es' ss' => simp [hs, blockBytes_node, folderBytes_ne_nil] at hnil
          · cases hs : ss i with
            | null => rfl
            | node es' ss' => simp [hs, blockBytes_node, folderBytes_ne_nil] at hnil

end Folder

/-! ## (6) The round trip through a file -/

section RoundTrip

variable {α β : Type}

/-- The header `"GSP"` of a file. -/
def gspHeader : List UInt8 := [71, 83, 80]

/-- The callback that records its calls: the id and the `val_size` bytes at `val`. -/
def recordCall : ElemUnmarshallCb (List (List UInt8 × List UInt8)) :=
  ofValue fun id val calls => .ok (calls ++ [(id, val)])

theorem foldlM_recordCall (l : List (List UInt8 × α)) (val : α → List UInt8)
    (calls : List (List UInt8 × List UInt8)) :
    l.foldlM (fun calls e => (Checked.ok (calls ++ [(e.1, val e.2)]) : GspM _)) calls
      = .ok (calls ++ l.map fun e => (e.1, val e.2)) := by
  induction l generalizing calls with
  | nil => simp
  | cons e l ih => rw [List.foldlM_cons, Checked.ok_bind, ih]; simp

/-- The elements that the marshalling callback promises to write can be stored. -/
theorem all_marshalls {self : IdSet α} {cb : ElemMarshallCb α} {val : α → List UInt8}
    (hcb : ∀ key e, kndSharedSetGet self.toSharedSet key = .ok e → Marshalls cb val e) :
    self.idx.All (Marshalls cb val) := by
  refine ElemIdx.all_iff.mpr fun ds e hds => hcb (digitsKey ds) e ?_
  exact getElem_eq_ok.mpr ⟨ds, rfl, hds⟩

theorem all_storable {self : IdSet α} {cb : ElemMarshallCb α} {val : α → List UInt8}
    (hcb : ∀ key e, kndSharedSetGet self.toSharedSet key = .ok e → Marshalls cb val e) :
    self.idx.All (Storable val) := by
  refine ElemIdx.all_iff.mpr fun ds e hds => ?_
  have hm := ElemIdx.all_iff.mp (all_marshalls hcb) ds e hds
  exact ⟨hm.ne_nil, hm.no_nul⟩

/-- A successful run of the marshaller on a file that holds the header: the file and the size. -/
theorem file_of_kndSharedSetMarshall {self : IdSet α} {cb : ElemMarshallCb α}
    {val : α → List UInt8}
    (hcb : ∀ key e, kndSharedSetGet self.toSharedSet key = .ok e → Marshalls cb val e)
    {out : Output} {disk totalSize : Nat} {task' : MarshallTask}
    (h : kndSharedSetMarshall self.toSharedSet cb ⟨out, gspHeader, disk⟩
      = .ok (totalSize, task')) :
    task'.file = gspHeader ++ self.idx.blockBytes val ∧
      totalSize = (self.idx.blockBytes val).length ∧ self.idx.isNull = false := by
  obtain ⟨hfile, htotal⟩ := kndSharedSetMarshall_ok (all_marshalls hcb) h
  refine ⟨hfile, htotal, ?_⟩
  cases hidx : self.idx with
  | null => simp [kndSharedSetMarshall, hidx, traverseMarshall, Bind.bind, Except.bind] at h
  | node es ss => rfl

/-- **The full load of a written file**: the callback runs over the records, each with what follows it. -/
theorem unmarshallFile_records {σ : Type} {self : IdSet α} {cb : ElemMarshallCb α}
    {val : α → List UInt8}
    (hcb : ∀ key e, kndSharedSetGet self.toSharedSet key = .ok e → Marshalls cb val e)
    {out : Output} {disk totalSize : Nat} {task' : MarshallTask}
    (h : kndSharedSetMarshall self.toSharedSet cb ⟨out, gspHeader, disk⟩
      = .ok (totalSize, task'))
    (hsize : task'.file.length < 2 ^ 31) (dst : SharedSet β) (ucb : ElemUnmarshallCb σ) (s : σ) :
    kndSharedSetUnmarshallFile dst task'.file (3 + totalSize) ucb s
      = (self.idx.records val []).foldlM (onRecord ucb val) s >>= fun s' =>
          pure ({ dst with
            dir := self.idx.dirOf val (3 + totalSize) 3
            numElems := self.entries.length }, s') := by
  obtain ⟨hfile, htotal, hnull⟩ := file_of_kndSharedSetMarshall hcb h
  have hlies : LiesAt task'.file 3 (self.idx.blockBytes val) := by
    rw [hfile]
    exact (liesAt_append.mp (liesAt_self (gspHeader ++ self.idx.blockBytes val))).2
  have hroom : ([] : List UInt8).length + idSize = idSize := by simp
  have hload : unmarshallBlock task'.file ucb _ _ _ _ s = _ :=
    unmarshallBlock_eq hsize hroom self.fits hnull (all_storable hcb) hlies (3 + totalSize) s
  rw [← htotal] at hload
  rw [kndSharedSetUnmarshallFile]
  rw [Checked.require_of (by omega), Checked.ok_bind, Nat.add_sub_cancel_left, hload, bind_assoc]
  congr 1
  funext s'
  simp [totalElems_dirOf (all_storable hcb), IdSet.entries]

/-- The full load of a written file, for every callback that reads no byte outside its value. -/
theorem unmarshallFile_marshall {σ : Type} {self : IdSet α} {cb : ElemMarshallCb α}
    {val : α → List UInt8}
    (hcb : ∀ key e, kndSharedSetGet self.toSharedSet key = .ok e → Marshalls cb val e)
    {out : Output} {disk totalSize : Nat} {task' : MarshallTask}
    (h : kndSharedSetMarshall self.toSharedSet cb ⟨out, gspHeader, disk⟩
      = .ok (totalSize, task'))
    (hsize : task'.file.length < 2 ^ 31) (dst : SharedSet β)
    (f : List UInt8 → List UInt8 → σ → GspM σ) (s : σ) :
    kndSharedSetUnmarshallFile dst task'.file (3 + totalSize) (ofValue f) s
      = self.entries.foldlM (fun s e => f e.1 (val e.2) s) s >>= fun s' =>
          pure ({ dst with
            dir := self.idx.dirOf val (3 + totalSize) 3
            numElems := self.entries.length }, s') := by
  rw [unmarshallFile_records hcb h hsize dst, IdSet.entries, ← ElemIdx.map_records val, List.foldlM_map]
  have hcall : onRecord (ofValue f) val = fun s r => f r.1 (val r.2.1) s := by
    funext s r
    rw [onRecord, ofValue, List.append_assoc, List.take_left]
  rw [hcall]

/-- The full load of a written file with the recording callback. -/
theorem unmarshallFile_recordCall {self : IdSet α} {cb : ElemMarshallCb α}
    {val : α → List UInt8}
    (hcb : ∀ key e, kndSharedSetGet self.toSharedSet key = .ok e → Marshalls cb val e)
    {out : Output} {disk totalSize : Nat} {task' : MarshallTask}
    (h : kndSharedSetMarshall self.toSharedSet cb ⟨out, gspHeader, disk⟩
      = .ok (totalSize, task'))
    (hsize : task'.file.length < 2 ^ 31) (dst : SharedSet β) :
    kndSharedSetUnmarshallFile dst task'.file (3 + totalSize) recordCall []
      = .ok ({ dst with
          dir := self.idx.dirOf val (3 + totalSize) 3
          numElems := self.entries.length }, self.entries.map fun e => (e.1, val e.2)) := by
  have hload := unmarshallFile_marshall hcb h hsize dst
    (fun id val calls => .ok (calls ++ [(id, val)])) []
  rw [foldlM_recordCall, Checked.ok_bind, List.nil_append] at hload
  exact hload

/-- **File round trip of the shared set.** Let a set be marshalled after the header of an otherwise
empty file, with a callback that appends a non-empty NUL-free string for every stored element. If
the marshaller succeeds and the file stays below `2 ^ 31` bytes, then `*total_size` is the number of
bytes appended, and loading the file succeeds after one call of the callback for every stored id
with its payload and no other call, and sets `num_elems` to the number of stored elements. -/
theorem sharedSet_roundTrip {self : IdSet α} {cb : ElemMarshallCb α} {val : α → List UInt8}
    (hcb : ∀ key e, kndSharedSetGet self.toSharedSet key = .ok e → Marshalls cb val e)
    {out : Output} {disk totalSize : Nat} {task' : MarshallTask}
    (h : kndSharedSetMarshall self.toSharedSet cb ⟨out, gspHeader, disk⟩
      = .ok (totalSize, task'))
    (hsize : task'.file.length < 2 ^ 31) (dst : SharedSet β) :
    (∃ bytes, task'.file = gspHeader ++ bytes ∧ totalSize = bytes.length) ∧
      ∃ loaded calls,
        kndSharedSetUnmarshallFile dst task'.file (3 + totalSize) recordCall []
          = .ok (loaded, calls) ∧
        (∀ id payload, (id, payload) ∈ calls ↔
          ∃ e, kndSharedSetGet self.toSharedSet id = .ok e ∧ payload = val e) ∧
        (calls.map Prod.fst).Nodup ∧ loaded.numElems = calls.length := by
  obtain ⟨hfile, htotal, -⟩ := file_of_kndSharedSetMarshall hcb h
  refine ⟨⟨_, hfile, htotal⟩, _, _, unmarshallFile_recordCall hcb h hsize dst, ?_, ?_, ?_⟩
  · intro id payload
    rw [List.mem_map]
    constructor
    · rintro ⟨⟨key, e⟩, hmem, heq⟩
      obtain ⟨rfl, rfl⟩ := Prod.mk.inj heq
      exact ⟨e, IdSet.mem_entries.mp hmem, rfl⟩
    · rintro ⟨e, hget, rfl⟩
      exact ⟨(id, e), IdSet.mem_entries.mpr hget, rfl⟩
  · rw [List.map_map]
    exact self.nodup_entries
  · simp

end RoundTrip

/-- A callback that writes every element as `"x"`. -/
def soloCb : ElemMarshallCb Unit := fun _ out => do
  let out ← out.write [120]
  return (1, out)

/-- The set whose only id is `"00"`: its root folder has a subfolder and no payload. -/
def soloSet : IdSet Unit := (IdSet.empty.add [48, 48] (by decide) ()).2

theorem marshalls_soloCb (e : Unit) : Marshalls soloCb (fun _ => [120]) e where
  ne_nil := by simp
  no_nul := by decide
  writes := by
    intro out n out' h
    simp only [soloCb, bind_eq_ok, pure_eq_ok, Prod.mk.injEq] at h
    obtain ⟨out₁, hw, rfl, rfl⟩ := h
    exact ⟨rfl, Output.eq_append_of_write hw⟩

theorem kndSharedSetMarshall_soloSet :
    kndSharedSetMarshall soloSet.toSharedSet soloCb ⟨⟨[], 1024⟩, gspHeader, 1024⟩
      = .ok (12, ⟨⟨[0], 1024⟩, gspHeader ++ [48, 120, 0, 1, 4, 1, 48, 6, 1, 1, 1, 0], 1024⟩) := by
  decide +kernel

/-- A callback that writes a number as so many characters, and one more. -/
def unaryCb : ElemMarshallCb Nat := fun n out => do
  let out ← out.write (List.replicate (n + 1) 120)
  return (n + 1, out)

theorem marshalls_unaryCb (n : Nat) : Marshalls unaryCb (fun n => List.replicate (n + 1) 120) n where
  ne_nil := by simp
  no_nul h := absurd (List.eq_of_mem_replicate h) (by decide)
  writes := by
    intro out m out' h
    simp only [unaryCb, bind_eq_ok, pure_eq_ok, Prod.mk.injEq] at h
    obtain ⟨out₁, hw, rfl, rfl⟩ := h
    exact ⟨List.length_replicate.symm, Output.eq_append_of_write hw⟩

/-- A digit by its number. -/
def digitOf (n : Nat) : Digit := ⟨n % 62, Nat.mod_lt n (Nat.succ_pos 61)⟩

/-- Ids in several folders: two at the root, which is a scan list, two below `0`, one of them with a long payload, one
below `1a`, and all 62 below `2`, whose directory has no keys. -/
def shelves : List (List Digit × Nat) :=
  ([([0], 0), ([1], 4), ([0, 0], 2), ([0, 35], 599), ([1, 10, 11], 7)]
    ++ (List.range 62).map fun i => ([2, i], 9) : List (List Nat × Nat)).map
      fun shelf => (shelf.1.map digitOf, shelf.2)

/-- The set with these ids. -/
def shelfSet : IdSet Nat :=
  shelves.foldl (fun set shelf =>
    if h : (digitsKey shelf.1).length ≤ idSize then (set.add (digitsKey shelf.1) h shelf.2).2 else set) IdSet.empty

/-- The size of its file. -/
def shelfSize : Option Nat :=
  match kndSharedSetMarshall shelfSet.toSharedSet unaryCb ⟨⟨[], 4096⟩, gspHeader, 4096⟩ with
  | .ok (_, task) => some task.file.length
  | .error _ => none

theorem shelfSize_eq : shelfSize = some 1349 := by decide +kernel

/-- The set is written. -/
theorem exists_marshall_shelfSet : ∃ totalSize task',
    kndSharedSetMarshall shelfSet.toSharedSet unaryCb ⟨⟨[], 4096⟩, gspHeader, 4096⟩ = .ok (totalSize, task') ∧
      task'.file.length < 2 ^ 31 := by
  have hsize := shelfSize_eq
  unfold shelfSize at hsize
  split at hsize
  · rename_i totalSize task' hrun
    have hlen : task'.file.length = 1349 := Option.some.inj hsize
    exact ⟨totalSize, task', hrun, by omega⟩
  · cases hsize

theorem sharedSet_roundTrip_shelfSet : ∃ totalSize task',
    kndSharedSetMarshall shelfSet.toSharedSet unaryCb ⟨⟨[], 4096⟩, gspHeader, 4096⟩ = .ok (totalSize, task') ∧
      (∃ bytes, task'.file = gspHeader ++ bytes ∧ totalSize = bytes.length) ∧
      ∃ (loaded : SharedSet Unit) (calls : List (List UInt8 × List UInt8)),
        kndSharedSetUnmarshallFile {} task'.file (3 + totalSize) recordCall [] = .ok (loaded, calls) ∧
        (∀ id payload, (id, payload) ∈ calls ↔
          ∃ n, kndSharedSetGet shelfSet.toSharedSet id = .ok n ∧ payload = List.replicate (n + 1) 120) ∧
        (calls.map Prod.fst).Nodup ∧ loaded.numElems = calls.length := by
  obtain ⟨totalSize, task', hrun, hsize⟩ := exists_marshall_shelfSet
  exact ⟨totalSize, task', hrun, sharedSet_roundTrip (fun _ n _ => marshalls_unaryCb n) hrun hsize {}⟩

end Knowdy
