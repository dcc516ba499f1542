import Knowdy.SharedSetGsp

/-! # The full load on arbitrary bytes

`knd_shared_set_unmarshall_file` takes sizes, cell widths, keys and counts from the file. This module says
which files it reads without an undefined operation, by a description of the format that does not mention
the reader.

* `TailSafe`, `PayloadSafe`, `SubdirsSafe`, `BlockSafe` — the blocks in which every size, key and depth
  that the reader meets is in range; `PayloadFits`, `BlockFits` — the blocks that it accepts.
* `faultless_unmarshallElems`, `faultless_readSubdirs`, `faultless_unmarshallBlock` — the reader stage by
  stage, with a callback that accepts every element.
* `cut_unmarshallBlock` — any other callback only makes it stop earlier.
* `unmarshallFile_safe_iff` — **a file is read safely if and only if its root block is safe.** -/

namespace Knowdy

open Checked

/-! ## (1) Safe blocks -/

/-- The byte at a position, 0 behind the end. -/
def byteAt (bs : List UInt8) (pos : Nat) : UInt8 := bs.getD pos 0

/-- A linear scan behind a key: every separator is followed by the next key. -/
def ScanWell : List UInt8 → Prop
  | [] => True
  | [b] => b ≠ 0
  | b :: c :: bs => if b = 0 then ScanWell bs else ScanWell (c :: bs)

/-- A cell of a directory: the size, the key and the slot of the key. -/
abbrev DirCell := Nat × UInt8 × Option Digit

/-- The `i`-th cell of a directory at `base`, `w` bytes for a size: see `readCell`. -/
def dirCell (block : List UInt8) (base : Nat) (useKeys : Bool) (w i : Nat) : DirCell :=
  if useKeys then
    (kndUnpackInt (slice block (base + i * (w + 1) + 1) (unpackWidth w)) w,
      byteAt block (base + i * (w + 1)), objIdBase (byteAt block (base + i * (w + 1))))
  else
    (kndUnpackInt (slice block (base + i * w) (unpackWidth w)) w, objIdSeq i,
      if h : i < 62 then some ⟨i, h⟩ else none)

/-- The cells of a directory. -/
def dirCells (block : List UInt8) (base : Nat) (useKeys : Bool) (w num : Nat) : List DirCell :=
  (List.range num).map (dirCell block base useKeys w)

/-- The length of a cell. -/
def dirFieldSize (useKeys : Bool) (w : Nat) : Nat := if useKeys then w + 1 else w

/-- The cells of a payload directory before `remainder` bytes of elements: each key is a base-62 digit,
up to the first element that is too large. -/
def ElemCellsSafe : (remainder : Nat) → List DirCell → Prop
  | _, [] => True
  | remainder, (n, _, slot) :: cells =>
      if n = 0 then ElemCellsSafe remainder cells
      else n ≤ remainder → slot.isSome ∧ ElemCellsSafe (remainder - n) cells

/-- A payload directory of `num` cells before a footer of `footer` bytes, in a folder with `room`
characters left for its ids. -/
def DirectorySafe (room : Nat) (block : List UInt8) (useKeys : Bool) (w num footer : Nat) : Prop :=
  num * dirFieldSize useKeys w + footer ≤ block.length →
    (0 < num → 0 < room) ∧
      ElemCellsSafe (block.length - (num * dirFieldSize useKeys w + footer))
        (dirCells block (block.length - (num * dirFieldSize useKeys w + footer)) useKeys w num)

/-- A payload directory that is accepted: the elements fill no more than the bytes before it. -/
def DirectoryFits (block : List UInt8) (useKeys : Bool) (w num footer : Nat) : Prop :=
  num * dirFieldSize useKeys w + footer ≤ block.length ∧
    ((dirCells block (block.length - (num * dirFieldSize useKeys w + footer)) useKeys w num).map
      (·.1)).sum ≤ block.length - (num * dirFieldSize useKeys w + footer)

/-- The layout byte of a payload. -/
def layoutByte (block : List UInt8) : UInt8 := byteAt block (block.length - 1)

/-- The cell width of a payload. -/
def cellWidth (block : List UInt8) : Nat := (byteAt block (block.length - 2)).toNat

/-- The number of cells of a keyed payload directory. -/
def cellCount (block : List UInt8) : Nat := (byteAt block (block.length - 3)).toNat

/-- **A safe payload**: a linear scan is not empty, a keyed directory has its count, there is room for the
id of an element, and the elements are safe. -/
def PayloadSafe (room : Nat) (block : List UInt8) : Prop :=
  2 ≤ block.length → cellWidth block ≤ uintSize →
    if layoutByte block = 0 then DirectorySafe room block false (cellWidth block) radixBase 2
    else if cellWidth block = 0 then
      3 ≤ block.length ∧ 0 < room ∧ ScanWell (slice block 1 (block.length - 3))
    else 3 ≤ block.length ∧
      (cellCount block ≤ radixBase →
        DirectorySafe room block true (cellWidth block) (cellCount block) 3)

/-- A payload that is accepted. -/
def PayloadFits (block : List UInt8) : Prop :=
  2 ≤ block.length ∧ cellWidth block ≤ uintSize ∧
    (layoutByte block = 0 → DirectoryFits block false (cellWidth block) radixBase 2) ∧
    (layoutByte block ≠ 0 → cellWidth block ≠ 0 →
      cellCount block ≤ radixBase ∧ DirectoryFits block true (cellWidth block) (cellCount block) 3)

/-- **The end of a block of `n` bytes at `o`**: its position is no negative number, its last byte is not
negative, and the size that it announces lies in the block. -/
def TailSafe (file : List UInt8) (o n : Nat) : Prop :=
  (file[o + n - 1]? = none → o + n - 1 < 2 ^ 63) ∧
    ∀ w, file[o + n - 1]? = some w → w.toNat < 128 ∧ (w.toNat ≤ uintSize → w.toNat < n)

/-- The size of the payload and of the subfolders of a block that is accepted. -/
def blockSizes (file : List UInt8) (o n : Nat) : Option (Nat × Nat) :=
  match file[o + n - 1]? with
  | none => none
  | some w =>
      let p := if w = 0 then 0 else kndUnpackInt (slice file (o + n - 1 - w.toNat) w.toNat) w.toNat
      if w.toNat ≤ uintSize ∧ p + (w.toNat + 1) ≤ n then some (p, n - (p + (w.toNat + 1))) else none

/-- The cells of a subfolder directory over blocks from `o` on: each block is safe, and each key of a
block that is accepted is a base-62 digit. -/
def SubdirCellsSafe (safe fits : Nat → Nat → Prop) : (o : Nat) → List DirCell → Prop
  | _, [] => True
  | o, (n, _, slot) :: cells =>
      if n = 0 then SubdirCellsSafe safe fits o cells
      else safe o n ∧ (fits o n → slot.isSome ∧ SubdirCellsSafe safe fits (o + n) cells)

/-- The cells of a subfolder directory whose blocks are accepted. -/
def SubdirCellsFit (fits : Nat → Nat → Prop) : (o : Nat) → List DirCell → Prop
  | _, [] => True
  | o, (n, _, _) :: cells =>
      if n = 0 then SubdirCellsFit fits o cells else fits o n ∧ SubdirCellsFit fits (o + n) cells

/-- Is the subfolder directory at the end of `n` bytes at `o` keyed? -/
def subdirKeys (file : List UInt8) (o n : Nat) : Bool := byteAt file (o + n - 1) ≠ 0

/-- The cell width of a subfolder directory. -/
def subdirWidth (file : List UInt8) (o n : Nat) : Nat := (byteAt file (o + n - 2)).toNat

/-- The number of cells of a subfolder directory. -/
def subdirCount (file : List UInt8) (o n : Nat) : Nat :=
  if subdirKeys file o n then (byteAt file (o + n - 3)).toNat else radixBase

/-- The length of the cells of a subfolder directory. -/
def subdirFooter (file : List UInt8) (o n : Nat) : Nat :=
  subdirCount file o n * dirFieldSize (subdirKeys file o n) (subdirWidth file o n)

/-- The length of what follows the cells of a subfolder directory. -/
def subdirSpec (file : List UInt8) (o n : Nat) : Nat := if subdirKeys file o n then 3 else 2

/-- The cells of a subfolder directory. -/
def subdirCells (file : List UInt8) (o n : Nat) : List DirCell :=
  dirCells (slice file (o + (n - (subdirFooter file o n + subdirSpec file o n))) (subdirFooter file o n))
    0 (subdirKeys file o n) (subdirWidth file o n) (subdirCount file o n)

/-- The subfolder directory is of a size that is accepted. -/
def SubdirsSized (file : List UInt8) (o n : Nat) : Prop :=
  (subdirWidth file o n ≤ uintSize ∧ subdirWidth file o n ≠ 0) ∧ subdirFooter file o n ≤ nameSize

/-- **Safe subfolders** in `n` bytes at `o`: the directory lies in them, and its blocks are safe. -/
def SubdirsSafe (safe fits : Nat → Nat → Prop) (file : List UInt8) (o n : Nat) : Prop :=
  3 ≤ n ∧ (SubdirsSized file o n →
    subdirFooter file o n + subdirSpec file o n ≤ n ∧ SubdirCellsSafe safe fits o (subdirCells file o n))

/-- Subfolders that are accepted. -/
def SubdirsFit (fits : Nat → Nat → Prop) (file : List UInt8) (o n : Nat) : Prop :=
  SubdirsSized file o n ∧ SubdirCellsFit fits o (subdirCells file o n)

/-- A safe block over safe subfolders. -/
def BlockSafeWith (safe fits : Nat → Nat → Prop) (room : Nat) (file : List UInt8) (o n : Nat) : Prop :=
  TailSafe file o n ∧ ∀ p rest, blockSizes file o n = some (p, rest) →
    (p ≠ 0 → PayloadSafe room (slice file o p)) ∧
      ((p ≠ 0 → PayloadFits (slice file o p)) → rest ≠ 0 → SubdirsSafe safe fits file (o + p) rest)

/-- A block over subfolders that is accepted. -/
def BlockFitsWith (fits : Nat → Nat → Prop) (file : List UInt8) (o n : Nat) : Prop :=
  ∃ p rest, blockSizes file o n = some (p, rest) ∧ (p ≠ 0 → PayloadFits (slice file o p)) ∧
    (rest ≠ 0 → SubdirsFit fits file (o + p) rest)

/-- **A block of `n` bytes at `o` that is accepted**, at most `room` folders deep. -/
def BlockFits (file : List UInt8) : (room o n : Nat) → Prop
  | 0 => BlockFitsWith (fun _ _ => False) file
  | room + 1 => BlockFitsWith (BlockFits file room) file

/-- **A safe block of `n` bytes at `o`**, at most `room` folders deep. -/
def BlockSafe (file : List UInt8) : (room o n : Nat) → Prop
  | 0 => BlockSafeWith (fun _ _ => False) (fun _ _ => False) 0 file
  | room + 1 => BlockSafeWith (BlockSafe file room) (BlockFits file room) (room + 1) file

/-! ## (2) The payload, with a callback that accepts every element -/

/-- The callback that accepts every element. -/
def acceptAll : ElemUnmarshallCb Unit := fun _ _ _ s => .ok s

theorem acceptAll_ok (id mem : List UInt8) (n : Nat) (s : Unit) : ∃ t, acceptAll id mem n s = .ok t := ⟨s, rfl⟩

theorem blockAt_eq {block : List UInt8} {pos : Nat} (h : pos < block.length) :
    blockAt block pos = .ok (byteAt block pos) := by
  rw [blockAt, byteAt, List.getD, List.getElem?_eq_getElem h]
  rfl

theorem slice_succ {bs : List UInt8} {off : Nat} (h : off < bs.length) (n : Nat) :
    slice bs off (n + 1) = byteAt bs off :: slice bs (off + 1) n := by
  rw [slice, slice, List.drop_eq_getElem_cons h, List.take_succ_cons, byteAt, List.getD,
    List.getElem?_eq_getElem h]
  rfl

theorem length_slice_eq {bs : List UInt8} {off n : Nat} (h : off + n ≤ bs.length) :
    (slice bs off n).length = n := by
  rw [slice, List.length_take, List.length_drop]
  omega

theorem preadExact_eq {file : List UInt8} {pos n : Nat} (h : pos + n ≤ file.length) :
    preadExact file pos n = .ok (slice file pos n) := by
  rw [preadExact, if_pos (length_slice_eq h)]
  rfl

theorem scanWell_cons {b : UInt8} (hb : b ≠ 0) (bs : List UInt8) : ScanWell (b :: bs) ↔ ScanWell bs := by
  cases bs with
  | nil => exact ⟨fun _ => trivial, fun _ => hb⟩
  | cons c bs => rw [ScanWell, if_neg hb]

/-- The loop of a linear scan. -/
theorem scanLoop_acceptAll {block id : List UInt8} {remainder c b : Nat} {key : UInt8} {dir : DirInfo}
    (h : c + remainder < block.length) :
    (Faultless (scanLoop block id acceptAll remainder c b key dir ()) ↔
        ScanWell (slice block c remainder)) ∧
      (ScanWell (slice block c remainder) →
        Returns (scanLoop block id acceptAll remainder c b key dir ())) := by
  induction remainder using Nat.strong_induction_on generalizing c b key dir with
  | _ remainder ih =>
      cases remainder with
      | zero =>
          rw [scanLoop]
          exact ⟨⟨fun _ => trivial, fun _ => faultless_ok _⟩, fun _ => returns_ok _⟩
      | succ r =>
          rw [scanLoop, blockAt_eq (by omega), ok_bind, slice_succ (by omega)]
          by_cases hch : byteAt block c = 0
          · rw [if_pos hch, hch]
            -- the element ends here and the next key follows
            show (Faultless (blockAt block (c + 1) >>= _) ↔ _) ∧ (_ → Returns (blockAt block (c + 1) >>= _))
            rw [blockAt_eq (by omega), ok_bind]
            cases r with
            | zero => exact ⟨⟨fun h => absurd h (not_faultless_fault _), fun h => absurd rfl h⟩,
                fun h => absurd rfl h⟩
            | succ r =>
                rw [slice_succ (by omega), ScanWell, if_pos rfl]
                exact ih r (by omega) (by omega)
          · rw [if_neg hch, scanWell_cons hch]
            exact ih r (by omega) (by omega)

/-- The loop over a directory reads its cells. -/
theorem foldCells_eq_foldlM {τ : Type} {block : List UInt8} {base : Nat} {useKeys : Bool} {w num : Nat}
    (hw : w ≤ uintSize) (hw' : useKeys = true → w ≠ 0)
    (h : base + num * dirFieldSize useKeys w + (if w = 0 then 1 else 0) ≤ block.length)
    (use : τ → DirCell → GspM τ) (st : τ) :
    foldCells block base useKeys w num use st = (dirCells block base useKeys w num).foldlM use st := by
  have hwidth : unpackWidth w = if w = 0 then 1 else w := by
    by_cases h0 : w = 0
    · rw [h0]
      rfl
    · rw [unpackWidth_eq (by omega) hw, if_neg h0]
  have hcell : ∀ i < num, readCell block base useKeys w i = .ok (dirCell block base useKeys w i) := by
    intro i hi
    have hmul : (i + 1) * dirFieldSize useKeys w ≤ num * dirFieldSize useKeys w :=
      Nat.mul_le_mul_right _ hi
    rw [Nat.succ_mul] at hmul
    cases useKeys with
    | true =>
        have hne := hw' rfl
        rw [if_neg hne] at hwidth h
        have hsize : dirFieldSize true w = w + 1 := rfl
        rw [hsize] at hmul h
        rw [readCell, if_pos rfl, unpackAt, require_of (by rw [hwidth]; omega), blockAt_eq (by omega)]
        rfl
    | false =>
        have hsize : dirFieldSize false w = w := rfl
        rw [hsize] at hmul h
        rw [readCell, if_neg (by simp), unpackAt, require_of (by rw [hwidth]; split_ifs at * <;> omega)]
        rfl
  have hgen : ∀ l : List Nat, (∀ i ∈ l, i < num) → ∀ st,
      l.foldlM (fun st i => readCell block base useKeys w i >>= use st) st
        = (l.map (dirCell block base useKeys w)).foldlM use st := by
    intro l
    induction l with
    | nil => exact fun _ _ => rfl
    | cons i l ih =>
        intro hl st
        rw [List.foldlM_cons, List.map_cons, List.foldlM_cons, hcell i (hl i List.mem_cons_self), ok_bind]
        congr 1
        funext st'
        exact ih (fun j hj => hl j (List.mem_cons_of_mem _ hj)) st'
  exact hgen _ (fun i hi => List.mem_range.mp hi) st

/-- The state behind an element of `n` bytes in the slot `j`. -/
def ElemsState.behind {σ : Type} (st : ElemsState σ) (j : Digit) (n : Nat) (s : σ) : ElemsState σ where
  dir := { st.dir with
    elemBlockSizes := Function.update st.dir.elemBlockSizes j n
    numElems := st.dir.numElems + 1 }
  e := st.e + n
  remainder := st.remainder - n
  s := s

/-- What happens at one cell of a payload directory. -/
theorem useElemCell_acceptAll {block id : List UInt8} (hid : id.length < idSize) (st : ElemsState Unit)
    (n : Nat) (key : UInt8) (slot : Option Digit) :
    useElemCell block id acceptAll st (n, key, slot) =
      if n = 0 then .ok st
      else if n ≤ st.remainder then (slot.map fun j => .ok (st.behind j n ())).getD (.fault .slotIndex)
      else .err .limit := by
  rw [useElemCell, pushId_of_lt hid, ok_bind]
  by_cases hn : n = 0
  · rw [if_pos hn, if_pos hn]
    rfl
  rw [if_neg hn, if_neg hn]
  by_cases hle : n ≤ st.remainder
  · rw [ensure_of hle, if_pos hle]
    cases slot <;> rfl
  · rw [ensure_of_not hle, if_neg hle]
    rfl

/-- The loop over the cells of a payload directory. -/
theorem foldlM_useElemCell_acceptAll {block id : List UInt8} (hid : id.length < idSize)
    (cells : List DirCell) (st : ElemsState Unit) :
    (Faultless (cells.foldlM (useElemCell block id acceptAll) st) ↔ ElemCellsSafe st.remainder cells) ∧
      (ElemCellsSafe st.remainder cells →
        (Returns (cells.foldlM (useElemCell block id acceptAll) st) ↔
          (cells.map (·.1)).sum ≤ st.remainder)) := by
  induction cells generalizing st with
  | nil => exact ⟨⟨fun _ => trivial, fun _ => faultless_ok _⟩,
      fun _ => ⟨fun _ => Nat.zero_le _, fun _ => returns_ok _⟩⟩
  | cons cell cells ih =>
      obtain ⟨n, key, slot⟩ := cell
      rw [List.foldlM_cons, useElemCell_acceptAll hid, ElemCellsSafe, List.map_cons, List.sum_cons]
      by_cases hn : n = 0
      · rw [if_pos hn, if_pos hn, hn, Nat.zero_add]
        exact ih st
      rw [if_neg hn, if_neg hn]
      by_cases hle : n ≤ st.remainder
      · rw [if_pos hle]
        cases slot with
        | none =>
            refine ⟨⟨fun h => absurd h (not_faultless_fault _), fun h => ?_⟩, fun h => ?_⟩
            · cases (h hle).1
            · cases (h hle).1
        | some j =>
            obtain ⟨hsafe, hfits⟩ := ih (st.behind j n ())
            refine ⟨⟨fun h _ => ⟨rfl, hsafe.mp h⟩, fun h => hsafe.mpr (h hle).2⟩, fun h => ?_⟩
            refine (hfits (h hle).2).trans ?_
            show _ ≤ st.remainder - n ↔ _
            omega
      · rw [if_neg hle]
        exact ⟨⟨fun _ h => absurd h hle, fun _ => faultless_err _⟩,
          fun _ => ⟨fun h => absurd h (not_returns_err _), fun h => absurd (Nat.le_of_add_right_le h) hle⟩⟩

/-- A payload directory. -/
theorem unmarshallDirectory_acceptAll {dir : DirInfo} {block id : List UInt8} {useKeys : Bool}
    {w num footer room : Nat} (hroom : id.length + room = idSize) (hw : w ≤ uintSize)
    (hw' : useKeys = true → w ≠ 0) (hfooter : 1 ≤ footer) :
    (Faultless (unmarshallDirectory dir block id acceptAll useKeys w num footer ()) ↔
        DirectorySafe room block useKeys w num footer) ∧
      (DirectorySafe room block useKeys w num footer →
        (Returns (unmarshallDirectory dir block id acceptAll useKeys w num footer ()) ↔
          DirectoryFits block useKeys w num footer)) := by
  have hunfold : unmarshallDirectory dir block id acceptAll useKeys w num footer ()
      = (Checked.ensure .limit (num * dirFieldSize useKeys w + footer ≤ block.length) >>= fun _ =>
          foldCells block (block.length - (num * dirFieldSize useKeys w + footer)) useKeys w num
            (useElemCell block id acceptAll)
            { dir, e := 0, remainder := block.length - (num * dirFieldSize useKeys w + footer), s := () }
          >>= fun st => .ok (st.dir, st.s)) := by
    cases useKeys <;> rfl
  have hbind : ∀ x : GspM (ElemsState Unit),
      (Faultless (x >>= fun st => (.ok (st.dir, st.s) : GspM (DirInfo × Unit))) ↔ Faultless x) ∧
      (Returns (x >>= fun st => (.ok (st.dir, st.s) : GspM (DirInfo × Unit))) ↔ Returns x) := by
    intro x
    cases x <;> simp
  rw [hunfold, DirectorySafe, DirectoryFits]
  by_cases hle : num * dirFieldSize useKeys w + footer ≤ block.length
  · rw [ensure_of hle, ok_bind, (hbind _).1, (hbind _).2, foldCells_eq_foldlM hw hw'
      (by split_ifs <;> omega)]
    by_cases hid : id.length < idSize
    · have hroom' : 0 < room := by omega
      obtain ⟨hsafe, hfits⟩ := @foldlM_useElemCell_acceptAll block id hid
        (dirCells block (block.length - (num * dirFieldSize useKeys w + footer)) useKeys w num)
        { dir, e := 0, remainder := block.length - (num * dirFieldSize useKeys w + footer), s := () }
      exact ⟨⟨fun h _ => ⟨fun _ => hroom', hsafe.mp h⟩, fun h => hsafe.mpr (h hle).2⟩,
        fun h => ⟨fun hret => ⟨hle, (hfits (h hle).2).mp hret⟩, fun hsum => (hfits (h hle).2).mpr hsum.2⟩⟩
    · -- the id buffer is full, so the first cell is one too many
      have hroom' : room = 0 := by omega
      cases num with
      | zero =>
          have hnil : dirCells block (block.length - (0 * dirFieldSize useKeys w + footer)) useKeys w 0 = [] :=
            rfl
          rw [hnil]
          exact ⟨⟨fun _ _ => ⟨fun h => absurd h (Nat.lt_irrefl _), trivial⟩, fun _ => faultless_ok _⟩,
            fun _ => ⟨fun _ => ⟨hle, Nat.zero_le _⟩, fun _ => returns_ok _⟩⟩
      | succ num =>
          have hfirst : ∀ st : ElemsState Unit, ∃ f,
              (dirCells block (block.length - ((num + 1) * dirFieldSize useKeys w + footer)) useKeys w
                (num + 1)).foldlM (useElemCell block id acceptAll) st = .fault f := by
            intro st
            rw [dirCells, List.range_succ_eq_map, List.map_cons, List.foldlM_cons, useElemCell,
              pushId_of_not_lt hid]
            exact ⟨_, rfl⟩
          obtain ⟨f, hf⟩ := hfirst
            { dir, e := 0, remainder := block.length - ((num + 1) * dirFieldSize useKeys w + footer), s := () }
          rw [hf, hroom']
          exact ⟨⟨fun h => absurd h (not_faultless_fault _), fun h => absurd ((h hle).1 (Nat.succ_pos _)) (Nat.lt_irrefl _)⟩,
            fun h => absurd ((h hle).1 (Nat.succ_pos _)) (Nat.lt_irrefl _)⟩
  · rw [ensure_of_not hle]
    exact ⟨⟨fun _ h => absurd h hle, fun _ => faultless_err _⟩,
      fun _ => ⟨fun h => absurd h (not_returns_err _), fun h => absurd h.1 hle⟩⟩

/-- A linear scan. -/
theorem payloadLinearScan_acceptAll {dir : DirInfo} {block id : List UInt8} {room : Nat}
    (hroom : id.length + room = idSize) (hlen : 2 ≤ block.length) :
    (Faultless (payloadLinearScan dir block (block.length - 2) id acceptAll ()) ↔
        3 ≤ block.length ∧ 0 < room ∧ ScanWell (slice block 1 (block.length - 3))) ∧
      (3 ≤ block.length ∧ 0 < room ∧ ScanWell (slice block 1 (block.length - 3)) →
        Returns (payloadLinearScan dir block (block.length - 2) id acceptAll ())) := by
  rw [payloadLinearScan]
  by_cases h3 : 3 ≤ block.length
  · rw [require_of (by omega), ok_bind, blockAt_eq (by omega), ok_bind]
    by_cases hid : id.length < idSize
    · rw [pushId_of_lt hid, ok_bind, show block.length - 2 - 1 = block.length - 3 by omega]
      obtain ⟨hsafe, hret⟩ := @scanLoop_acceptAll block id (block.length - 3) 1 1 (byteAt block 0) dir
        (by omega)
      exact ⟨⟨fun h => ⟨h3, by omega, hsafe.mp h⟩, fun h => hsafe.mpr h.2.2⟩, fun h => hret h.2.2⟩
    · rw [pushId_of_not_lt hid]
      exact ⟨⟨fun h => absurd h (not_faultless_fault _), fun h => by omega⟩, fun h => by omega⟩
  · rw [require_of_not (by omega)]
    exact ⟨⟨fun h => absurd h (not_faultless_fault _), fun h => absurd h.1 h3⟩, fun h => absurd h.1 h3⟩

/-- **The payload** is read without a fault if and only if it is safe, and then it is accepted if and only
if it fits. -/
theorem unmarshallElems_acceptAll {dir : DirInfo} {block id : List UInt8} {room : Nat}
    (hroom : id.length + room = idSize) (hne : 1 ≤ block.length) :
    (Faultless (unmarshallElems dir block id acceptAll ()) ↔ PayloadSafe room block) ∧
      (PayloadSafe room block →
        (Returns (unmarshallElems dir block id acceptAll ()) ↔ PayloadFits block)) := by
  rw [unmarshallElems, require_of hne, ok_bind, blockAt_eq (by omega), ok_bind, PayloadSafe, PayloadFits]
  by_cases hlen : 2 ≤ block.length
  swap
  · rw [ensure_of_not hlen]
    exact ⟨⟨fun _ h => absurd h hlen, fun _ => faultless_err _⟩,
      fun _ => ⟨fun h => absurd h (not_returns_err _), fun h => absurd h.1 hlen⟩⟩
  rw [ensure_of hlen, ok_bind, blockAt_eq (by omega), ok_bind]
  show (Faultless (Checked.ensure KndErr.limit (cellWidth block ≤ uintSize) >>= _) ↔ _) ∧
    (_ → (Returns (Checked.ensure KndErr.limit (cellWidth block ≤ uintSize) >>= _) ↔ _))
  by_cases hw : cellWidth block ≤ uintSize
  swap
  · rw [ensure_of_not hw]
    exact ⟨⟨fun _ _ h => absurd h hw, fun _ => faultless_err _⟩,
      fun _ => ⟨fun h => absurd h (not_returns_err _), fun h => absurd h.2.1 hw⟩⟩
  rw [ensure_of hw, ok_bind]
  by_cases hlayout : layoutByte block = 0
  · -- positional cells
    have hlayout' : byteAt block (block.length - 1) = 0 := hlayout
    rw [if_pos hlayout, if_pos hlayout']
    obtain ⟨hsafe, hfits⟩ := @unmarshallDirectory_acceptAll dir block id false (cellWidth block) radixBase 2
      room hroom hw (fun h => absurd h Bool.false_ne_true) (by omega)
    exact ⟨⟨fun h _ _ => hsafe.mp h, fun h => hsafe.mpr (h hlen hw)⟩,
      fun h => (hfits (h hlen hw)).trans
        ⟨fun hfit => ⟨hlen, hw, fun _ => hfit, fun hne' => absurd hlayout hne'⟩,
          fun hfit => hfit.2.2.1 hlayout⟩⟩
  have hlayout' : ¬byteAt block (block.length - 1) = 0 := hlayout
  rw [if_neg hlayout, if_neg hlayout']
  by_cases hcell : cellWidth block = 0
  · -- a linear scan
    have hcell' : byteAt block (block.length - 2) = 0 := UInt8.toNat_inj.mp hcell
    rw [if_pos hcell, if_pos hcell']
    have hbind : ∀ x : GspM (DirInfo × Unit),
        (Faultless (x >>= fun r => (.ok ({ r.1 with elemsLinearScan := true }, r.2)
          : GspM (DirInfo × Unit))) ↔ Faultless x) ∧
        (Returns x → Returns (x >>= fun r => (.ok ({ r.1 with elemsLinearScan := true }, r.2)
          : GspM (DirInfo × Unit)))) := by
      intro x
      cases x <;> simp
    obtain ⟨hsafe, hret⟩ := @payloadLinearScan_acceptAll dir block id room hroom hlen
    exact ⟨⟨fun h _ _ => hsafe.mp ((hbind _).1.mp h), fun h => (hbind _).1.mpr (hsafe.mpr (h hlen hw))⟩,
      fun h => ⟨fun _ => ⟨hlen, hw, fun h0 => absurd h0 hlayout, fun _ h0 => absurd hcell h0⟩,
        fun _ => (hbind _).2 (hret (h hlen hw))⟩⟩
  -- keyed cells
  have hcell' : ¬byteAt block (block.length - 2) = 0 := fun h => hcell (by rw [cellWidth, h]; rfl)
  rw [if_neg hcell, if_neg hcell']
  by_cases h3 : 3 ≤ block.length
  swap
  · rw [require_of_not h3]
    exact ⟨⟨fun h => absurd h (not_faultless_fault _), fun h => absurd (h hlen hw).1 h3⟩,
      fun h => absurd (h hlen hw).1 h3⟩
  rw [require_of h3, ok_bind, blockAt_eq (by omega), ok_bind]
  show (Faultless (Checked.ensure KndErr.limit (cellCount block ≤ radixBase) >>= _) ↔ _) ∧
    (_ → (Returns (Checked.ensure KndErr.limit (cellCount block ≤ radixBase) >>= _) ↔ _))
  by_cases hnum : cellCount block ≤ radixBase
  swap
  · rw [ensure_of_not hnum]
    exact ⟨⟨fun _ _ _ => ⟨h3, fun h => absurd h hnum⟩, fun _ => faultless_err _⟩,
      fun _ => ⟨fun h => absurd h (not_returns_err _), fun h => absurd (h.2.2.2 hlayout hcell).1 hnum⟩⟩
  rw [ensure_of hnum, ok_bind]
  obtain ⟨hsafe, hfits⟩ := @unmarshallDirectory_acceptAll dir block id true (cellWidth block)
    (cellCount block) 3 room hroom hw (fun _ => hcell) (by omega)
  exact ⟨⟨fun h _ _ => ⟨h3, fun _ => hsafe.mp h⟩, fun h => hsafe.mpr ((h hlen hw).2 hnum)⟩,
    fun h => (hfits ((h hlen hw).2 hnum)).trans
      ⟨fun hfit => ⟨hlen, hw, fun h0 => absurd h0 hlayout, fun _ _ => ⟨hnum, hfit⟩⟩,
        fun hfit => (hfit.2.2.2 hlayout hcell).2⟩⟩

/-! ## (3) The end of a block -/

theorem preadExact_one (file : List UInt8) (pos : Nat) :
    preadExact file pos 1 = match file[pos]? with
      | none => .require .seek (pos < 2 ^ 63) >>= fun _ => .err .ioFail
      | some w => .ok [w] := by
  by_cases h : pos < file.length
  · rw [preadExact_eq (by omega), slice_succ h, slice, List.take_zero, List.getElem?_eq_getElem h,
      byteAt, List.getD, List.getElem?_eq_getElem h]
    rfl
  · have hnil : slice file pos 1 = [] := by
      rw [slice, List.drop_of_length_le (by omega), List.take_nil]
    rw [preadExact, hnil, List.getElem?_eq_none (by omega)]
    rfl

/-- The end of a block whose last byte is `w`. -/
theorem readPayloadSize_of_last {dir : DirInfo} {file : List UInt8} {o n : Nat} {w : UInt8}
    (hw : file[o + n - 1]? = some w) :
    readPayloadSize dir file o n = if w = 0 then .ok { dir with payloadFooterSize := 1 } else
      (Checked.ensure .limit (schar w ≤ uintSize) >>= fun _ =>
        Checked.require .sizeWrap (0 ≤ schar w) >>= fun _ =>
        Checked.require .sizeWrap (1 + w.toNat ≤ o + n) >>= fun _ =>
        preadExact file (o + n - (1 + w.toNat)) w.toNat >>= fun buf =>
        Checked.require .sizeWrap (1 + w.toNat ≤ n) >>= fun _ =>
        Checked.ensure .limit (kndUnpackInt buf w.toNat ≤ n - (1 + w.toNat)) >>= fun _ =>
        .ok { dir with
          payloadBlockSize := kndUnpackInt buf w.toNat
          payloadFooterSize := 1 + w.toNat }) := by
  rw [readPayloadSize, preadExact_one, hw]
  rfl

/-- A safe end of a block that is refused. -/
theorem readPayloadSize_of_none {d : DirInfo} {file : List UInt8} {o n : Nat} (hsafe : TailSafe file o n)
    (hnone : blockSizes file o n = none) : ∃ e, readPayloadSize d file o n = .err e := by
  cases hw : file[o + n - 1]? with
  | none =>
      rw [readPayloadSize, preadExact_one, hw]
      simp only [require_of (hsafe.1 hw), ok_bind]
      exact ⟨_, rfl⟩
  | some w =>
      obtain ⟨hpos, hlt⟩ := hsafe.2 w hw
      have hschar : schar w = w.toNat := if_pos hpos
      rw [blockSizes, hw] at hnone
      rw [readPayloadSize_of_last hw, hschar]
      by_cases h0 : w = 0
      · -- without a payload the block is accepted
        have h1 := hlt (by rw [h0]; exact Nat.zero_le _)
        rw [h0] at hnone h1
        simp only [if_true] at hnone
        rw [if_pos ⟨Nat.zero_le _, by simpa using Nat.succ_le_of_lt h1⟩] at hnone
        cases hnone
      rw [if_neg h0]
      by_cases h4 : w.toNat ≤ uintSize
      · have hfooter := hlt h4
        have hend : o + n - 1 < file.length := (List.getElem?_eq_some_iff.mp hw).1
        rw [ensure_of (by exact_mod_cast h4), ok_bind, require_of (by omega), ok_bind,
          require_of (by omega), ok_bind, preadExact_eq (by omega), ok_bind, require_of (by omega), ok_bind]
        simp only [if_neg h0] at hnone
        rw [show o + n - (1 + w.toNat) = o + n - 1 - w.toNat by omega]
        by_cases hval : kndUnpackInt (slice file (o + n - 1 - w.toNat) w.toNat) w.toNat
            ≤ n - (1 + w.toNat)
        · rw [if_pos ⟨h4, by omega⟩] at hnone
          cases hnone
        · rw [ensure_of_not hval]
          exact ⟨_, rfl⟩
      · rw [ensure_of_not (by exact_mod_cast h4)]
        exact ⟨_, rfl⟩

/-- A safe end of a block that is accepted. -/
theorem readPayloadSize_of_some {dir : DirInfo} {file : List UInt8} {o n p rest : Nat}
    (hsafe : TailSafe file o n) (hsome : blockSizes file o n = some (p, rest))
    (hdir : dir.payloadBlockSize = 0) :
    ∃ dir', readPayloadSize dir file o n = .ok dir' ∧ dir'.payloadBlockSize = p ∧
      dir'.globalOffset = dir.globalOffset ∧ p + dir'.payloadFooterSize ≤ n ∧
      n - (p + dir'.payloadFooterSize) = rest ∧ o + n ≤ file.length := by
  rw [blockSizes] at hsome
  cases hw : file[o + n - 1]? with
  | none =>
      rw [hw] at hsome
      cases hsome
  | some w =>
      obtain ⟨hpos, hlt⟩ := hsafe.2 w hw
      have hschar : schar w = w.toNat := if_pos hpos
      have hend : o + n - 1 < file.length := (List.getElem?_eq_some_iff.mp hw).1
      rw [readPayloadSize_of_last hw, hschar]
      rw [hw] at hsome
      by_cases h0 : w = 0
      · rw [h0] at hsome
        simp only [if_true] at hsome
        by_cases hcond : (0 : UInt8).toNat ≤ uintSize ∧ 0 + ((0 : UInt8).toNat + 1) ≤ n
        · rw [if_pos hcond] at hsome
          cases hsome
          rw [if_pos h0]
          have hn : 1 ≤ n := hcond.2
          exact ⟨_, rfl, hdir, rfl, hn, rfl, by omega⟩
        · rw [if_neg hcond] at hsome
          cases hsome
      simp only [if_neg h0] at hsome
      by_cases hcond : w.toNat ≤ uintSize ∧
          kndUnpackInt (slice file (o + n - 1 - w.toNat) w.toNat) w.toNat + (w.toNat + 1) ≤ n
      · rw [if_pos hcond] at hsome
        cases hsome
        obtain ⟨h4, hval⟩ := hcond
        rw [if_neg h0, ensure_of (by exact_mod_cast h4), ok_bind, require_of (by omega), ok_bind,
          require_of (by omega), ok_bind, preadExact_eq (by omega), ok_bind, require_of (by omega), ok_bind,
          show o + n - (1 + w.toNat) = o + n - 1 - w.toNat by omega, ensure_of (by omega)]
        refine ⟨_, rfl, rfl, rfl, ?_, ?_, by omega⟩
        · show _ + (1 + w.toNat) ≤ n
          omega
        · show n - (_ + (1 + w.toNat)) = _
          rw [Nat.add_comm 1]
      · rw [if_neg hcond] at hsome
        cases hsome

/-- An end of a block that is not safe: it is refused by a fault, or the block is empty and is taken for
one without a payload. -/
theorem readPayloadSize_of_not {d : DirInfo} {file : List UInt8} {o n : Nat} (h : ¬TailSafe file o n) :
    (∃ f, readPayloadSize d file o n = .fault f) ∨
      (n = 0 ∧ readPayloadSize d file o n = .ok { d with payloadFooterSize := 1 }) := by
  rw [TailSafe, not_and_or] at h
  push Not at h
  obtain ⟨hnone, hfar⟩ | ⟨w, hw, hbad⟩ := h
  · rw [readPayloadSize, preadExact_one, hnone]
    simp only [require_of_not (not_lt.mpr hfar)]
    exact .inl ⟨_, rfl⟩
  rw [readPayloadSize_of_last hw]
  by_cases h0 : w = 0
  · have hzero : w.toNat = 0 := by rw [h0]; rfl
    obtain ⟨-, hn⟩ := hbad (by omega)
    exact .inr ⟨by omega, if_pos h0⟩
  left
  rw [if_neg h0]
  by_cases hpos : w.toNat < 128
  · have hschar : schar w = w.toNat := if_pos hpos
    obtain ⟨h4, hn⟩ := hbad hpos
    have hend : o + n - 1 < file.length := (List.getElem?_eq_some_iff.mp hw).1
    rw [hschar, ensure_of (by exact_mod_cast h4), ok_bind, require_of (by omega), ok_bind]
    by_cases hseek : 1 + w.toNat ≤ o + n
    · rw [require_of hseek, ok_bind, preadExact_eq (by omega), ok_bind, require_of_not (by omega)]
      exact ⟨_, rfl⟩
    · rw [require_of_not hseek]
      exact ⟨_, rfl⟩
  · have hschar : schar w = (w.toNat : Int) - 256 := if_neg hpos
    have hlt := w.toNat_lt
    rw [hschar, ensure_of (by unfold uintSize; omega), ok_bind, require_of_not (by omega)]
    exact ⟨_, rfl⟩

/-! ## (4) Other callbacks -/

/-- The fields of a directory that the reader of a block goes by. -/
structure DirInfo.SameFrame (d d' : DirInfo) : Prop where
  /-- The size of the payload. -/
  payload : d.payloadBlockSize = d'.payloadBlockSize
  /-- The size of the footer. -/
  footer : d.payloadFooterSize = d'.payloadFooterSize
  /-- The place in the file. -/
  offset : d.globalOffset = d'.globalOffset

section Callback

variable {σ σ' : Type} {cb : ElemUnmarshallCb σ} {cb' : ElemUnmarshallCb σ'}

/-- The same directory, with the frame of `dir`. -/
def SameDir (dir : DirInfo) (r : DirInfo × σ) (r' : DirInfo × σ') : Prop :=
  r.1 = r'.1 ∧ r.1.SameFrame dir

/-- **`cb` returns only where `cb'` does**: a block that is passed on ends with a NUL. -/
def CutCalls (cb : ElemUnmarshallCb σ) (cb' : ElemUnmarshallCb σ') : Prop :=
  ∀ id mem n s s', Cut (fun _ _ => True) (cb id (mem ++ [0]) n s) (cb' id (mem ++ [0]) n s')

/-- A callback without faults before one that returns. -/
theorem cutCalls_of_faultless (hcb : ∀ id mem n s, Faultless (cb id (mem ++ [0]) n s))
    (hcb' : ∀ id mem n s', ∃ t, cb' id mem n s' = .ok t) : CutCalls cb cb' := by
  intro id mem n s s'
  have h := hcb id mem n s
  cases hrun : cb id (mem ++ [0]) n s with
  | ok t =>
      obtain ⟨t', ht'⟩ := hcb' id (mem ++ [0]) n s'
      exact ⟨t', ht', trivial⟩
  | err e => trivial
  | fault f => exact absurd hrun (h f)

theorem cut_scanLoop (hcb : CutCalls cb cb') {block id : List UInt8}
    {remainder c b : Nat} {key : UInt8} {dir dir₀ : DirInfo} (hdir : dir.SameFrame dir₀) (s : σ) (s' : σ') :
    Cut (SameDir dir₀) (scanLoop block id cb remainder c b key dir s)
      (scanLoop block id cb' remainder c b key dir s') := by
  induction remainder using Nat.strong_induction_on generalizing c b key dir s s' with
  | _ remainder ih =>
      have hnext : DirInfo.SameFrame { dir with numElems := dir.numElems + 1 } dir₀ :=
        ⟨hdir.payload, hdir.footer, hdir.offset⟩
      cases remainder with
      | zero =>
          rw [scanLoop, scanLoop]
          exact (hcb _ _ _ s s').bind fun _ _ _ => .ok ⟨rfl, hnext⟩
      | succ r =>
          rw [scanLoop, scanLoop]
          refine .bind_same _ fun ch => ?_
          by_cases hch : ch = 0
          · rw [if_pos hch, if_pos hch]
            refine (hcb _ _ _ s s').bind fun t t' _ => .bind_same _ fun key' => ?_
            cases r with
            | zero => rfl
            | succ r => exact ih r (by omega) hnext t t'
          · rw [if_neg hch, if_neg hch]
            exact ih r (by omega) hdir s s'

/-- The same position in the elements of a directory. -/
structure SameElems (dir : DirInfo) (st : ElemsState σ) (st' : ElemsState σ') : Prop where
  /-- The directory. -/
  dir_eq : st.dir = st'.dir
  /-- The position. -/
  e_eq : st.e = st'.e
  /-- The rest. -/
  remainder_eq : st.remainder = st'.remainder
  /-- The frame. -/
  frame : st.dir.SameFrame dir

theorem cut_useElemCell (hcb : CutCalls cb cb') {block id : List UInt8}
    {dir : DirInfo} (st : ElemsState σ) (st' : ElemsState σ') (cell : DirCell)
    (h : SameElems dir st st') :
    Cut (SameElems dir) (useElemCell block id cb st cell) (useElemCell block id cb' st' cell) := by
  obtain ⟨n, key, slot⟩ := cell
  rw [useElemCell, useElemCell]
  refine .bind_same _ fun id' => ?_
  by_cases hn : n = 0
  · rw [if_pos hn, if_pos hn]
    exact .ok h
  rw [if_neg hn, if_neg hn, h.remainder_eq]
  refine .bind_same _ fun _ => ?_
  cases slot with
  | none => rfl
  | some j =>
      refine Cut.bind (R := fun _ _ => True) ?_ fun _ _ _ => .ok ?_
      · rw [h.e_eq]
        exact hcb _ _ _ st.s st'.s
      · exact ⟨by rw [h.dir_eq], by rw [h.e_eq], rfl,
          ⟨h.frame.payload, h.frame.footer, h.frame.offset⟩⟩

theorem cut_unmarshallDirectory (hcb : CutCalls cb cb') {block id : List UInt8}
    {dir : DirInfo} {useKeys : Bool} {w num footer : Nat} (s : σ) (s' : σ') :
    Cut (SameDir dir) (unmarshallDirectory dir block id cb useKeys w num footer s)
      (unmarshallDirectory dir block id cb' useKeys w num footer s') := by
  rw [unmarshallDirectory, unmarshallDirectory]
  refine .bind_same _ fun _ => ?_
  refine Cut.bind (R := SameElems dir) ?_ fun st st' h => .ok ⟨h.dir_eq, h.frame⟩
  refine Cut.foldlM (fun st st' i h => ?_) _ ⟨rfl, rfl, rfl, ⟨rfl, rfl, rfl⟩⟩
  exact .bind_same _ fun cell => cut_useElemCell hcb st st' cell h

/-- **The payload**: another callback makes the reader stop earlier or gives the same directory. -/
theorem cut_unmarshallElems (hcb : CutCalls cb cb') {dir : DirInfo}
    {block id : List UInt8} (s : σ) (s' : σ') :
    Cut (SameDir dir) (unmarshallElems dir block id cb s) (unmarshallElems dir block id cb' s') := by
  rw [unmarshallElems, unmarshallElems]
  refine .bind_same _ fun _ => .bind_same _ fun spec => .bind_same _ fun _ => .bind_same _ fun cell =>
    .bind_same _ fun _ => ?_
  by_cases hspec : spec = 0
  · rw [if_pos hspec, if_pos hspec]
    exact cut_unmarshallDirectory hcb s s'
  rw [if_neg hspec, if_neg hspec]
  by_cases hcell : cell = 0
  · rw [if_pos hcell, if_pos hcell]
    refine Cut.bind (R := SameDir dir) ?_ fun r r' h => ?_
    · rw [payloadLinearScan, payloadLinearScan]
      exact .bind_same _ fun _ => .bind_same _ fun key => .bind_same _ fun _ =>
        cut_scanLoop hcb ⟨rfl, rfl, rfl⟩ s s'
    · exact .ok ⟨by show _ = _; rw [h.1], ⟨h.2.payload, h.2.footer, h.2.offset⟩⟩
  · rw [if_neg hcell, if_neg hcell]
    exact .bind_same _ fun _ => .bind_same _ fun num => .bind_same _ fun _ =>
      cut_unmarshallDirectory hcb s s'

/-- The same directory of a block. -/
def SameTree (r : SharedSetDir × σ) (r' : SharedSetDir × σ') : Prop := r.1 = r'.1

/-- The same position in the subfolders of a directory. -/
structure SameSubdirs (st : SubdirsState σ) (st' : SubdirsState σ') : Prop where
  /-- The directory. -/
  dir_eq : st.dir = st'.dir
  /-- Its subfolders. -/
  subdirs_eq : st.subdirs = st'.subdirs
  /-- The position. -/
  offset_eq : st.blockOffset = st'.blockOffset

variable {recur : BlockReader σ} {recur' : BlockReader σ'}

theorem cut_useSubdirCell (hrec : ∀ dir n id s s', Cut SameTree (recur dir n id s) (recur' dir n id s'))
    {id : List UInt8} {o : Nat} (st : SubdirsState σ) (st' : SubdirsState σ') (cell : DirCell)
    (h : SameSubdirs st st') :
    Cut SameSubdirs (useSubdirCell recur id o st cell) (useSubdirCell recur' id o st' cell) := by
  obtain ⟨n, key, slot⟩ := cell
  rw [useSubdirCell, useSubdirCell]
  by_cases hn : n = 0
  · rw [if_pos hn, if_pos hn]
    exact .ok h
  rw [if_neg hn, if_neg hn, h.offset_eq]
  refine .bind_same _ fun id' => (hrec _ _ _ st.s st'.s).bind fun r r' hr => ?_
  cases slot with
  | none => rfl
  | some j =>
      obtain ⟨tree, t⟩ := r
      obtain ⟨tree', t'⟩ := r'
      obtain rfl : tree = tree' := hr
      exact .ok ⟨by rw [h.dir_eq], by rw [h.subdirs_eq], rfl⟩

theorem cut_readSubdirs (hrec : ∀ dir n id s s', Cut SameTree (recur dir n id s) (recur' dir n id s'))
    {dir : DirInfo} {file id : List UInt8} {o n : Nat} (s : σ) (s' : σ') :
    Cut SameTree (readSubdirs recur dir file o n id s) (readSubdirs recur' dir file o n id s') := by
  have hcells : ∀ useKeys w num spec,
      Cut SameTree (readSubdirCells recur dir file o n id useKeys w num spec s)
        (readSubdirCells recur' dir file o n id useKeys w num spec s') := by
    intro useKeys w num spec
    rw [readSubdirCells, readSubdirCells]
    refine .bind_same _ fun _ => .bind_same _ fun _ => .bind_same _ fun buf => ?_
    refine Cut.bind (R := SameSubdirs) ?_ fun st st' h => .ok ?_
    · refine Cut.foldlM (fun st st' i h => ?_) _ ⟨rfl, rfl, rfl⟩
      exact .bind_same _ fun cell => cut_useSubdirCell hrec st st' cell h
    · show SharedSetDir.dir _ _ = SharedSetDir.dir _ _
      rw [h.dir_eq, h.subdirs_eq]
  rw [readSubdirs, readSubdirs]
  refine .bind_same _ fun _ => .bind_same _ fun spec => .bind_same _ fun _ => ?_
  by_cases hkeys : spec.getD 2 0 = 0
  · rw [if_pos hkeys, if_pos hkeys]
    exact hcells false _ _ _
  · rw [if_neg hkeys, if_neg hkeys]
    exact hcells true _ _ _

theorem cut_unmarshallBlockWith (hcb : CutCalls cb cb')
    (hrec : ∀ dir n id s s', Cut SameTree (recur dir n id s) (recur' dir n id s'))
    {file : List UInt8} (dir : DirInfo) (n : Nat) (id : List UInt8) (s : σ) (s' : σ') :
    Cut SameTree (unmarshallBlockWith recur file cb dir n id s)
      (unmarshallBlockWith recur' file cb' dir n id s') := by
  rw [unmarshallBlockWith, unmarshallBlockWith]
  refine .bind_same _ fun dir' => ?_
  refine Cut.bind (R := SameDir dir') ?_ fun r r' h => ?_
  · by_cases hp : dir'.payloadBlockSize = 0
    · rw [if_pos hp, if_pos hp]
      exact .ok ⟨rfl, ⟨rfl, rfl, rfl⟩⟩
    · rw [if_neg hp, if_neg hp]
      refine .bind_same _ fun block => (cut_unmarshallElems hcb s s').bind fun r r' h => .ok ?_
      exact ⟨by show _ = _; rw [h.1], ⟨h.2.payload, h.2.footer, h.2.offset⟩⟩
  · obtain ⟨dir₁, s₁⟩ := r
    obtain ⟨dir₂, s₂⟩ := r'
    obtain rfl : dir₁ = dir₂ := h.1
    refine .bind_same _ fun _ => ?_
    by_cases hrest : n - (dir₁.payloadBlockSize + dir₁.payloadFooterSize) = 0
    · rw [if_pos hrest, if_pos hrest]
      exact .ok rfl
    · rw [if_neg hrest, if_neg hrest]
      exact cut_readSubdirs hrec s₁ s₂

/-- **Another callback** makes the reader of a block stop earlier or gives the same directory. -/
theorem cut_unmarshallBlock (hcb : CutCalls cb cb') (file : List UInt8)
    (room : Nat) (dir : DirInfo) (n : Nat) (id : List UInt8) (s : σ) (s' : σ') :
    Cut SameTree (unmarshallBlock file cb room dir n id s) (unmarshallBlock file cb' room dir n id s') := by
  induction room generalizing dir n id s s' with
  | zero =>
      refine cut_unmarshallBlockWith hcb ?_ dir n id s s'
      exact fun _ _ _ _ _ => rfl
  | succ room ih => exact cut_unmarshallBlockWith hcb ih dir n id s s'

end Callback

/-! ## (5) Subfolders and blocks -/

/-- **What the reader of the blocks below a folder does**: it gets the next character of the id first. -/
def ReadsBelow (recur : BlockReader Unit) (safe fits : Nat → Nat → Prop) (id : List UInt8) : Prop :=
  ∀ o n key, n ≠ 0 →
    (Faultless (pushId id key >>= fun id => recur { totalSize := n, globalOffset := o } n id ()) ↔
        safe o n) ∧
      (safe o n →
        (Returns (pushId id key >>= fun id => recur { totalSize := n, globalOffset := o } n id ()) ↔
          fits o n))

section Below

variable {recur : BlockReader Unit} {safe fits : Nat → Nat → Prop} {id : List UInt8}

/-- What happens at a cell of a subfolder directory that is not empty. -/
theorem useSubdirCell_of_ne {o n : Nat} (hn : n ≠ 0) (st : SubdirsState Unit) (key : UInt8)
    (slot : Option Digit) :
    useSubdirCell recur id o st (n, key, slot) =
      (pushId id key >>= fun id =>
          recur { totalSize := n, globalOffset := o + st.blockOffset } n id st.s) >>= fun r =>
        (slot.map fun j => .ok {
          dir := { st.dir with totalElems := st.dir.totalElems + r.1.totalElems }
          subdirs := Function.update st.subdirs j r.1
          blockOffset := st.blockOffset + n
          s := r.2 }).getD (.fault .slotIndex) := by
  rw [useSubdirCell, if_neg hn, bind_assoc]
  cases slot <;> rfl

theorem foldlM_useSubdirCell_iff (hrec : ReadsBelow recur safe fits id) {o : Nat}
    (cells : List DirCell) (st : SubdirsState Unit) :
    (Faultless (cells.foldlM (useSubdirCell recur id o) st) ↔
        SubdirCellsSafe safe fits (o + st.blockOffset) cells) ∧
      (SubdirCellsSafe safe fits (o + st.blockOffset) cells →
        (Returns (cells.foldlM (useSubdirCell recur id o) st) ↔
          SubdirCellsFit fits (o + st.blockOffset) cells)) := by
  induction cells generalizing st with
  | nil => exact ⟨⟨fun _ => trivial, fun _ => faultless_ok _⟩,
      fun _ => ⟨fun _ => trivial, fun _ => returns_ok _⟩⟩
  | cons cell cells ih =>
      obtain ⟨n, key, slot⟩ := cell
      rw [List.foldlM_cons, SubdirCellsSafe, SubdirCellsFit]
      by_cases hn : n = 0
      · rw [if_pos hn, if_pos hn, useSubdirCell, if_pos hn]
        exact ih st
      rw [if_neg hn, if_neg hn, useSubdirCell_of_ne hn, bind_assoc]
      obtain ⟨hsafe, hfits⟩ := hrec (o + st.blockOffset) n key hn
      -- the block of the cell, then the key, then the other cells
      cases hblock : pushId id key >>= fun id =>
          recur { totalSize := n, globalOffset := o + st.blockOffset } n id st.s with
      | fault f =>
          rw [hblock] at hsafe
          exact ⟨⟨fun h => absurd h (not_faultless_fault _),
            fun h => absurd (hsafe.mpr h.1) (not_faultless_fault _)⟩,
            fun h => absurd (hsafe.mpr h.1) (not_faultless_fault _)⟩
      | err e =>
          rw [hblock] at hsafe hfits
          have hs := hsafe.mp (faultless_err _)
          have hf : ¬fits (o + st.blockOffset) n := fun h => not_returns_err _ ((hfits hs).mpr h)
          exact ⟨⟨fun _ => ⟨hs, fun h => absurd h hf⟩, fun _ => faultless_err _⟩,
            fun _ => ⟨fun h => absurd h (not_returns_err _), fun h => absurd h.1 hf⟩⟩
      | ok r =>
          rw [hblock] at hsafe hfits
          have hs := hsafe.mp (faultless_ok _)
          have hf := (hfits hs).mp (returns_ok _)
          rw [ok_bind]
          cases slot with
          | none =>
              refine ⟨⟨fun h => absurd h (not_faultless_fault _), fun h => ?_⟩, fun h => ?_⟩
              · cases (h.2 hf).1
              · cases (h.2 hf).1
          | some j =>
              obtain ⟨ihsafe, ihfits⟩ := ih {
                dir := { st.dir with totalElems := st.dir.totalElems + r.1.totalElems }
                subdirs := Function.update st.subdirs j r.1
                blockOffset := st.blockOffset + n
                s := r.2 }
              rw [← Nat.add_assoc] at ihsafe ihfits
              exact ⟨⟨fun h => ⟨hs, fun _ => ⟨rfl, ihsafe.mp h⟩⟩, fun h => ihsafe.mpr (h.2 hf).2⟩,
                fun h => (ihfits (h.2 hf).2).trans ⟨fun h' => ⟨hf, h'⟩, fun h' => h'.2⟩⟩

theorem byteAt_slice {bs : List UInt8} {off n i : Nat} (hi : i < n) :
    byteAt (slice bs off n) i = byteAt bs (off + i) := by
  rw [byteAt, byteAt, slice, List.getD, List.getD, List.getElem?_take_of_lt hi, List.getElem?_drop]

/-- The reader of the subfolders, in the words of the format. -/
theorem readSubdirs_eq_cells {dir : DirInfo} {file : List UInt8} {o n : Nat} (h3 : 3 ≤ n)
    (hend : o + n ≤ file.length) :
    readSubdirs recur dir file o n id () =
      (Checked.ensure .limit (subdirWidth file o n ≤ uintSize ∧ subdirWidth file o n ≠ 0) >>= fun _ =>
        readSubdirCells recur dir file o n id (subdirKeys file o n) (subdirWidth file o n)
          (subdirCount file o n) (subdirSpec file o n) ()) := by
  have hbyte : ∀ i < 3, (slice file (o + n - 3) 3).getD i 0 = byteAt file (o + n - 3 + i) :=
    fun i hi => byteAt_slice hi
  have hwidth : ((slice file (o + n - 3) 3).getD 1 0).toNat = subdirWidth file o n := by
    rw [hbyte 1 (by omega), show o + n - 3 + 1 = o + n - 2 by omega]
    rfl
  have hkeys : (slice file (o + n - 3) 3).getD 2 0 = byteAt file (o + n - 1) := by
    rw [hbyte 2 (by omega), show o + n - 3 + 2 = o + n - 1 by omega]
  rw [readSubdirs, require_of h3, ok_bind, preadExact_eq (by omega), ok_bind, hwidth, hkeys,
    hbyte 0 (by omega), Nat.add_zero]
  dsimp only
  refine congrArg (_ >>= ·) (funext fun _ => ?_)
  by_cases h0 : byteAt file (o + n - 1) = 0
  · have hk : subdirKeys file o n = false := by simp [subdirKeys, h0]
    rw [if_pos h0, subdirCount, subdirSpec, hk]
    rfl
  · have hk : subdirKeys file o n = true := by simp [subdirKeys, h0]
    rw [if_neg h0, subdirCount, subdirSpec, hk]
    rfl

/-- **The subfolders** are read without a fault if and only if they are safe. -/
theorem readSubdirs_iff (hrec : ReadsBelow recur safe fits id) {d : DirInfo} {file : List UInt8}
    {o n : Nat} (hend : o + n ≤ file.length) :
    (Faultless (readSubdirs recur d file o n id ()) ↔ SubdirsSafe safe fits file o n) ∧
      (SubdirsSafe safe fits file o n →
        (Returns (readSubdirs recur d file o n id ()) ↔ SubdirsFit fits file o n)) := by
  rw [SubdirsSafe, SubdirsFit, SubdirsSized]
  by_cases h3 : 3 ≤ n
  swap
  · rw [readSubdirs, require_of_not h3]
    exact ⟨⟨fun h => absurd h (not_faultless_fault _), fun h => absurd h.1 h3⟩, fun h => absurd h.1 h3⟩
  rw [readSubdirs_eq_cells h3 hend]
  by_cases hw : subdirWidth file o n ≤ uintSize ∧ subdirWidth file o n ≠ 0
  swap
  · rw [ensure_of_not hw]
    exact ⟨⟨fun _ => ⟨h3, fun h => absurd h.1 hw⟩, fun _ => faultless_err _⟩,
      fun _ => ⟨fun h => absurd h (not_returns_err _), fun h => absurd h.1.1 hw⟩⟩
  have hfooter : (if subdirKeys file o n then
        subdirCount file o n * subdirWidth file o n + subdirCount file o n
      else subdirCount file o n * subdirWidth file o n) = subdirFooter file o n := by
    rw [subdirFooter, dirFieldSize]
    cases subdirKeys file o n <;> rfl
  rw [ensure_of hw, ok_bind, readSubdirCells, hfooter]
  by_cases hname : subdirFooter file o n ≤ nameSize
  swap
  · rw [ensure_of_not hname]
    exact ⟨⟨fun _ => ⟨h3, fun h => absurd h.2 hname⟩, fun _ => faultless_err _⟩,
      fun _ => ⟨fun h => absurd h (not_returns_err _), fun h => absurd h.1.2 hname⟩⟩
  rw [ensure_of hname, ok_bind]
  by_cases hle : subdirFooter file o n + subdirSpec file o n ≤ n
  swap
  · rw [require_of_not hle]
    exact ⟨⟨fun h => absurd h (not_faultless_fault _), fun h => absurd (h.2 ⟨hw, hname⟩).1 hle⟩,
      fun h => absurd (h.2 ⟨hw, hname⟩).1 hle⟩
  have hlen := @length_slice_eq file (o + (n - (subdirFooter file o n + subdirSpec file o n)))
    (subdirFooter file o n) (by omega)
  rw [require_of hle, ok_bind]
  dsimp only
  rw [preadExact_eq (by omega), ok_bind, foldCells_eq_foldlM hw.1 (fun _ => hw.2) (by rw [hlen, if_neg hw.2, subdirFooter]; omega)]
  obtain ⟨hsafe, hfits⟩ := foldlM_useSubdirCell_iff hrec (o := o) (subdirCells file o n)
    { dir := d, subdirs := fun _ => .null, blockOffset := 0, s := () }
  have hbind : ∀ x : GspM (SubdirsState Unit),
      (Faultless (x >>= fun st => (.ok (.dir st.dir st.subdirs, st.s) : GspM (SharedSetDir × Unit))) ↔
        Faultless x) ∧
      (Returns (x >>= fun st => (.ok (.dir st.dir st.subdirs, st.s) : GspM (SharedSetDir × Unit))) ↔
        Returns x) := by
    intro x
    cases x <;> simp
  exact ⟨(hbind _).1.trans ⟨fun h => ⟨h3, fun _ => ⟨hle, hsafe.mp h⟩⟩,
      fun h => hsafe.mpr (h.2 ⟨hw, hname⟩).2⟩,
    fun h => ((hbind _).2.trans (hfits (h.2 ⟨hw, hname⟩).2)).trans
      ⟨fun h' => ⟨⟨hw, hname⟩, h'⟩, fun h' => h'.2⟩⟩

/-- The part of `unmarshall_block` behind the payload. -/
theorem blockRest_iff (hrec : ReadsBelow recur safe fits id) {dir : DirInfo} {file : List UInt8}
    {o n p rest : Nat} (hp : dir.payloadBlockSize = p) (ho : dir.globalOffset = o)
    (hle : p + dir.payloadFooterSize ≤ n) (hrest : n - (p + dir.payloadFooterSize) = rest)
    (hend : o + n ≤ file.length) :
    let x : GspM (SharedSetDir × Unit) :=
      Checked.require .sizeWrap (dir.payloadBlockSize + dir.payloadFooterSize ≤ n) >>= fun _ =>
        if n - (dir.payloadBlockSize + dir.payloadFooterSize) = 0 then .ok (.dir dir fun _ => .null, ())
        else readSubdirs recur dir file (dir.globalOffset + dir.payloadBlockSize)
          (n - (dir.payloadBlockSize + dir.payloadFooterSize)) id ()
    (Faultless x ↔ (rest ≠ 0 → SubdirsSafe safe fits file (o + p) rest)) ∧
      ((rest ≠ 0 → SubdirsSafe safe fits file (o + p) rest) →
        (Returns x ↔ (rest ≠ 0 → SubdirsFit fits file (o + p) rest))) := by
  intro x
  have hx : x = if rest = 0 then .ok (.dir dir fun _ => .null, ())
      else readSubdirs recur dir file (o + p) rest id () := by
    show (Checked.require GspFault.sizeWrap _ >>= _) = _
    rw [hp, require_of hle, ok_bind, hrest, ho]
  rw [hx]
  by_cases h0 : rest = 0
  · rw [if_pos h0]
    exact ⟨⟨fun _ h => absurd h0 h, fun _ => faultless_ok _⟩,
      fun _ => ⟨fun _ h => absurd h0 h, fun _ => returns_ok _⟩⟩
  · rw [if_neg h0]
    obtain ⟨hsafe, hfits⟩ := readSubdirs_iff hrec (d := dir) (show (o + p) + rest ≤ file.length by omega)
    exact ⟨hsafe.trans ⟨fun h _ => h, fun h => h h0⟩,
      fun h => (hfits (h h0)).trans ⟨fun h' _ => h', fun h' => h' h0⟩⟩

/-- **A block** is read without a fault if and only if it is safe, and then it is accepted if and only if it
fits. -/
theorem unmarshallBlockWith_iff {room : Nat} (hroom : id.length + room = idSize)
    (hrec : ReadsBelow recur safe fits id) {dir : DirInfo} (hdir : dir.payloadBlockSize = 0)
    {file : List UInt8} {n : Nat} :
    (Faultless (unmarshallBlockWith recur file acceptAll dir n id ()) ↔
        BlockSafeWith safe fits room file dir.globalOffset n) ∧
      (BlockSafeWith safe fits room file dir.globalOffset n →
        (Returns (unmarshallBlockWith recur file acceptAll dir n id ()) ↔
          BlockFitsWith fits file dir.globalOffset n)) := by
  rw [unmarshallBlockWith, BlockSafeWith, BlockFitsWith]
  by_cases htail : TailSafe file dir.globalOffset n
  swap
  · -- the end of the block is not safe
    have hfault : ∀ x : GspM (SharedSetDir × Unit), (∃ f, x = .fault f) →
        ∀ {P Q R : Prop}, ¬P → (Faultless x ↔ P ∧ Q) ∧ (P ∧ Q → R) := by
      rintro x ⟨f, rfl⟩ P Q R hP
      exact ⟨⟨fun h => absurd h (not_faultless_fault _), fun h => absurd h.1 hP⟩, fun h => absurd h.1 hP⟩
    refine hfault _ ?_ htail
    rcases readPayloadSize_of_not (d := dir) htail with ⟨f, hf⟩ | ⟨h0, hok⟩
    · rw [hf]
      exact ⟨_, rfl⟩
    · rw [hok, ok_bind, if_pos hdir, pure_bind]
      refine ⟨.sizeWrap, ?_⟩
      show (Checked.require GspFault.sizeWrap (dir.payloadBlockSize + 1 ≤ n) >>= _) = _
      rw [require_of_not (by omega)]
      rfl
  cases hsizes : blockSizes file dir.globalOffset n with
  | none =>
      obtain ⟨e, he⟩ := readPayloadSize_of_none (d := dir) htail hsizes
      rw [he]
      refine ⟨⟨fun _ => ⟨htail, fun p rest h => ?_⟩, fun _ => faultless_err _⟩,
        fun _ => ⟨fun h => absurd h (not_returns_err _), ?_⟩⟩
      · cases h
      · rintro ⟨p, rest, h, -⟩
        cases h
  | some sizes =>
      obtain ⟨p, rest⟩ := sizes
      obtain ⟨dir', hok, hp, ho, hle, hrest, hend⟩ := readPayloadSize_of_some htail hsizes hdir
      rw [hok, ok_bind]
      have hsome : ∀ {P : Nat → Nat → Prop},
          (∀ p' rest', some (p, rest) = some (p', rest') → P p' rest') ↔ P p rest := by
        intro P
        exact ⟨fun h => h p rest rfl, fun h p' rest' heq => by cases heq; exact h⟩
      have hsome' : ∀ {P : Nat → Nat → Prop},
          (∃ p' rest', some (p, rest) = some (p', rest') ∧ P p' rest') ↔ P p rest := by
        intro P
        refine ⟨?_, fun h => ⟨p, rest, rfl, h⟩⟩
        rintro ⟨p', rest', heq, h⟩
        cases heq
        exact h
      rw [hsome, hsome']
      by_cases h0 : p = 0
      · -- without a payload
        rw [if_pos (hp.trans h0), pure_bind]
        obtain ⟨hsafe, hfits⟩ := blockRest_iff hrec hp ho hle hrest hend
        exact ⟨hsafe.trans ⟨fun h => ⟨htail, fun h' => absurd h0 h', fun _ => h⟩,
            fun h => h.2.2 fun h' => absurd h0 h'⟩,
          fun h => (hfits (h.2.2 fun h' => absurd h0 h')).trans
            ⟨fun h' => ⟨fun h'' => absurd h0 h'', h'⟩, fun h' => h'.2⟩⟩
      have hlen := @length_slice_eq file dir.globalOffset p (by omega)
      rw [if_neg (by rw [hp]; exact h0), hp, ho, preadExact_eq (by omega), ok_bind]
      obtain ⟨hsafe, hfits⟩ := @unmarshallElems_acceptAll dir' (slice file dir.globalOffset p) id room hroom
        (by omega)
      have hcalls : CutCalls acceptAll acceptAll :=
        cutCalls_of_faultless (fun _ _ _ _ => faultless_ok _) acceptAll_ok
      have hcut := @cut_unmarshallElems _ _ _ _ hcalls dir' (slice file dir.globalOffset p) id () ()
      cases helems : unmarshallElems dir' (slice file dir.globalOffset p) id acceptAll () with
      | fault f =>
          rw [helems] at hsafe
          exact ⟨⟨fun h => absurd h (not_faultless_fault _),
            fun h => absurd (hsafe.mpr (h.2.1 h0)) (not_faultless_fault _)⟩,
            fun h => absurd (hsafe.mpr (h.2.1 h0)) (not_faultless_fault _)⟩
      | err e =>
          rw [helems] at hsafe hfits
          have hs := hsafe.mp (faultless_err _)
          have hf : ¬PayloadFits (slice file dir.globalOffset p) := fun h =>
            not_returns_err _ ((hfits hs).mpr h)
          exact ⟨⟨fun _ => ⟨htail, fun _ => hs, fun h => absurd (h h0) hf⟩, fun _ => faultless_err _⟩,
            fun _ => ⟨fun h => absurd h (not_returns_err _), fun h => absurd (h.1 h0) hf⟩⟩
      | ok r =>
          rw [helems] at hsafe hfits hcut
          have hs := hsafe.mp (faultless_ok _)
          have hf := (hfits hs).mp (returns_ok _)
          obtain ⟨r', hr', hsame⟩ := hcut
          have hfooter : p + r.1.payloadFooterSize = p + dir'.payloadFooterSize := by rw [hsame.2.footer]
          rw [← hfooter] at hle hrest
          obtain ⟨hrest₁, hrest₂⟩ := @blockRest_iff recur safe fits id hrec
            { r.1 with totalElems := r.1.numElems } file dir.globalOffset n p rest
            (hsame.2.payload.trans hp) (hsame.2.offset.trans ho) hle hrest hend
          exact ⟨hrest₁.trans ⟨fun h => ⟨htail, fun _ => hs, fun _ => h⟩, fun h => h.2.2 fun _ => hf⟩,
            fun h => (hrest₂ (h.2.2 fun _ => hf)).trans ⟨fun h' => ⟨fun _ => hf, h'⟩, fun h' => h'.2⟩⟩

end Below

/-- Every block, at most `room` folders deep. -/
theorem unmarshallBlock_iff (file : List UInt8) {room : Nat} {id : List UInt8}
    (hroom : id.length + room = idSize) {d : DirInfo} (hdir : d.payloadBlockSize = 0) {n : Nat} :
    (Faultless (unmarshallBlock file acceptAll room d n id ()) ↔
        BlockSafe file room d.globalOffset n) ∧
      (BlockSafe file room d.globalOffset n →
        (Returns (unmarshallBlock file acceptAll room d n id ()) ↔
          BlockFits file room d.globalOffset n)) := by
  induction room generalizing id d n with
  | zero =>
      refine unmarshallBlockWith_iff hroom (fun o n key _ => ?_) hdir
      -- the id buffer is full
      rw [pushId_of_not_lt (by omega)]
      exact ⟨⟨fun h => absurd h (not_faultless_fault _), False.elim⟩, False.elim⟩
  | succ room ih =>
      refine unmarshallBlockWith_iff hroom (fun o n key _ => ?_) hdir
      rw [pushId_of_lt (by omega), ok_bind]
      exact ih (d := { totalSize := n, globalOffset := o })
        (by rw [List.length_append, List.length_singleton]; omega) rfl

/-! ## (6) Whole files -/

/-- **The file is read safely**, whatever the callback does with the elements: no operation of the reader
is undefined, and none reads outside its block, so that it returns `knd_OK` or an error code. -/
def ReadsSafely (file : List UInt8) : Prop :=
  ∀ (α σ : Type) (self : SharedSet α) (cb : ElemUnmarshallCb σ) (s : σ),
    (∀ id mem n s, Faultless (cb id mem n s)) →
      Faultless (kndSharedSetUnmarshallFile self file file.length cb s)

/-- **A file is read safely if and only if it holds the header and its root block is safe.** -/
theorem unmarshallFile_safe_iff (file : List UInt8) :
    ReadsSafely file ↔ 3 ≤ file.length ∧ BlockSafe file idSize 3 (file.length - 3) := by
  have hroot := (@unmarshallBlock_iff file idSize [] (Nat.zero_add _)
    { totalSize := file.length, globalOffset := 3 } rfl (file.length - 3)).1
  constructor
  · intro h
    have hfile := h Unit Unit {} acceptAll () fun _ _ _ _ => faultless_ok _
    rw [kndSharedSetUnmarshallFile] at hfile
    by_cases h3 : 3 ≤ file.length
    · refine ⟨h3, hroot.mp fun f hf => ?_⟩
      rw [require_of h3, ok_bind, hf] at hfile
      exact hfile f rfl
    · rw [require_of_not h3] at hfile
      exact absurd hfile (not_faultless_fault _)
  · rintro ⟨h3, hsafe⟩ α σ self cb s hcb
    have hcalls : CutCalls cb acceptAll := cutCalls_of_faultless (fun _ _ _ _ => hcb _ _ _ _) acceptAll_ok
    have hcut := cut_unmarshallBlock hcalls file idSize { totalSize := file.length, globalOffset := 3 }
      (file.length - 3) [] s ()
    have hfaultless := hcut.faultless (hroot.mpr hsafe)
    rw [kndSharedSetUnmarshallFile, require_of h3, ok_bind]
    intro f hf
    cases hrun : unmarshallBlock file cb idSize { totalSize := file.length, globalOffset := 3 }
        (file.length - 3) [] s with
    | ok r =>
        rw [hrun] at hf
        cases hf
    | err e =>
        rw [hrun] at hf
        cases hf
    | fault f' => exact hfaultless f' hrun

/-- A file whose root block has one element under a key that is not a base-62 digit. -/
def badKeyFile : List UInt8 := [71, 83, 80, 120, 33, 1, 1, 1, 1, 6, 1]

/-- **The key `!` of a payload directory is used as an index.** -/
theorem unmarshallFile_badKey : ¬ReadsSafely badKeyFile := by
  intro h
  exact h Unit Unit {} acceptAll () (fun _ _ _ _ => faultless_ok _) .slotIndex rfl

end Knowdy
