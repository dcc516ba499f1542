import Knowdy.GspFormat
import Knowdy.Lib.Checked

/-! # Reading a shared set from a file

The two readers of `knd_shared_set.gsp.c`: the full load, which walks the blocks from the end of the
file to its start, and the random access to one element over the directory that the full load has
left in memory.

The code trusts the sizes it finds in the file, so it is modelled as a checked execution: `GspFault`
lists the operations that C leaves undefined or that no caller can survive.

* `unmarshallElems`, `readSubdirs`, `unmarshallBlock`, `kndSharedSetUnmarshallFile` — the full load.
* `fetchElemLinearScan`, `readElem`, `kndSharedSetUnmarshallElem` — the random access.
* `ensures_unmarshallFile` — a load keeps the invariants of its callback. -/

namespace Knowdy

/-! ## (1) Memory, files and callbacks -/

/-- The undefined operations of the readers. -/
inductive GspFault where
  /-- A read outside the payload block. -/
  | blockRead
  /-- A `size_t` subtraction below zero. -/
  | sizeWrap
  /-- A write past the `KND_ID_SIZE` bytes of the id buffer. -/
  | idbuf
  /-- An index outside `elem_block_sizes` or `subdirs`. -/
  | slotIndex
  /-- A failed assertion. -/
  | assertion
  /-- A position that `off_t` does not have: `lseek` fails or goes before the block, the read takes what is there. -/
  | seek
  deriving DecidableEq, Repr

/-- Executions of the readers. -/
abbrev GspM := Checked KndErr GspFault

/-- `elem_unmarshall_cb` on a caller's state `σ`: it receives the id, the memory from the pointer
`val` on up to the NUL behind the block, and `val_size`. -/
abbrev ElemUnmarshallCb (σ : Type) := List UInt8 → List UInt8 → Nat → σ → GspM σ

/-- `lseek(fd, pos, SEEK_SET)` and a `read` of `n` bytes that must be complete. The position is computed in 64 bits,
and nobody looks at the result of `lseek`. -/
def preadExact (file : List UInt8) (pos n : Nat) : GspM (List UInt8) := do
  let buf := slice file pos n
  if buf.length = n then return buf
  .require .seek (pos < 2 ^ 63)
  .err .ioFail

/-- `block[pos]`. -/
def blockAt (block : List UInt8) (pos : Nat) : GspM UInt8 :=
  match block[pos]? with
  | none => .fault .blockRead
  | some c => .ok c

/-- `knd_unpack_int(block + pos, byte_size)`. -/
def unpackAt (block : List UInt8) (pos byteSize : Nat) : GspM Nat := do
  .require .blockRead (pos + unpackWidth byteSize ≤ block.length)
  return kndUnpackInt (slice block pos (unpackWidth byteSize)) byteSize

/-- `idbuf[idbuf_size] = c` on the id `idbuf[0 … idbuf_size)`. -/
def pushId (id : List UInt8) (c : UInt8) : GspM (List UInt8) := do
  .require .idbuf (id.length < idSize)
  return id ++ [c]

theorem pushId_of_lt {id : List UInt8} (h : id.length < idSize) (c : UInt8) :
    pushId id c = .ok (id ++ [c]) := by
  rw [pushId, Checked.require_of h]
  rfl

theorem pushId_of_not_lt {id : List UInt8} (h : ¬id.length < idSize) (c : UInt8) :
    pushId id c = .fault .idbuf := by
  rw [pushId, Checked.require_of_not h]
  rfl

/-- The value of a plain `char`, which is signed. -/
def schar (c : UInt8) : Int := if c.toNat < 128 then c.toNat else (c.toNat : Int) - 256

/-- The `i`-th cell of a directory at `base`: the size, the key and the slot of the key. A keyed
cell starts with its key; a positional one belongs to slot `i`. -/
def readCell (block : List UInt8) (base : Nat) (useKeys : Bool) (cellSize i : Nat) :
    GspM (Nat × UInt8 × Option Digit) :=
  if useKeys then do
    let numval ← unpackAt block (base + i * (cellSize + 1) + 1) cellSize
    let key ← blockAt block (base + i * (cellSize + 1))
    return (numval, key, objIdBase key)
  else do
    let numval ← unpackAt block (base + i * cellSize) cellSize
    return (numval, objIdSeq i, if h : i < 62 then some ⟨i, h⟩ else none)

/-- The loop over the `num` cells of a directory at `base`. -/
def foldCells {τ : Type} (block : List UInt8) (base : Nat) (useKeys : Bool) (cellSize num : Nat)
    (use : τ → Nat × UInt8 × Option Digit → GspM τ) (st : τ) : GspM τ :=
  (List.range num).foldlM (fun st i => readCell block base useKeys cellSize i >>= use st) st

variable {σ : Type}

/-! ## (2) The payload of a folder -/

/-- The loop of `payload_linear_scan`: `c` is the read position, `b` the start of the current value,
`key` the last character of the id buffer. -/
def scanLoop (block id : List UInt8) (cb : ElemUnmarshallCb σ) :
    (remainder c b : Nat) → (key : UInt8) → DirInfo → σ → GspM (DirInfo × σ)
  | 0, c, b, key, dir, s => do
      let s ← cb (id ++ [key]) (block.drop b ++ [0]) (c - b) s
      return ({ dir with numElems := dir.numElems + 1 }, s)
  | remainder + 1, c, b, key, dir, s => do
      let ch ← blockAt block c
      if ch = 0 then
        let s ← cb (id ++ [key]) (block.drop b ++ [0]) (c - b) s
        let key' ← blockAt block (c + 1)
        match remainder with
        | 0 => .fault .sizeWrap
        | remainder' + 1 =>
            scanLoop block id cb remainder' (c + 2) (c + 2) key'
              { dir with numElems := dir.numElems + 1 } s
      else scanLoop block id cb remainder (c + 1) b key dir s

/-- `payload_linear_scan`. -/
def payloadLinearScan (dir : DirInfo) (block : List UInt8) (blockSize : Nat) (id : List UInt8)
    (cb : ElemUnmarshallCb σ) (s : σ) : GspM (DirInfo × σ) := do
  .require .sizeWrap (1 ≤ blockSize)
  let key ← blockAt block 0
  let _ ← pushId id key
  scanLoop block id cb (blockSize - 1) 1 1 key dir s

/-- The state of the directory loop in `unmarshall_elems`. -/
structure ElemsState (σ : Type) where
  /-- The directory being filled. -/
  dir : DirInfo
  /-- `e`: the position of the next element. -/
  e : Nat
  /-- `remainder`. -/
  remainder : Nat
  /-- The caller's state. -/
  s : σ

/-- What `unmarshall_elems` does with one directory cell. -/
def useElemCell (block id : List UInt8) (cb : ElemUnmarshallCb σ) (st : ElemsState σ) :
    Nat × UInt8 × Option Digit → GspM (ElemsState σ)
  | (numval, key, slot) => do
      let id ← pushId id key
      if numval = 0 then return st
      .ensure .limit (numval ≤ st.remainder)
      match slot with
      | none => .fault .slotIndex
      | some j =>
          let s ← cb id (block.drop st.e ++ [0]) numval st.s
          return {
            dir := { st.dir with
              elemBlockSizes := Function.update st.dir.elemBlockSizes j numval
              numElems := st.dir.numElems + 1 }
            e := st.e + numval
            remainder := st.remainder - numval
            s }

/-- The directory part of `unmarshall_elems`: `num_elems` cells before a footer of `footerSize`
bytes. -/
def unmarshallDirectory (dir : DirInfo) (block id : List UInt8) (cb : ElemUnmarshallCb σ)
    (useKeys : Bool) (cellSize numElems footerSize : Nat) (s : σ) : GspM (DirInfo × σ) := do
  let dirFieldSize := if useKeys then cellSize + 1 else cellSize
  let dirSize := numElems * dirFieldSize
  .ensure .limit (dirSize + footerSize ≤ block.length)
  let remainder := block.length - (dirSize + footerSize)
  let st ← foldCells block remainder useKeys cellSize numElems (useElemCell block id cb)
    { dir, e := 0, remainder, s }
  return (st.dir, st.s)

/-- `unmarshall_elems` on a whole payload block. -/
def unmarshallElems (dir : DirInfo) (block id : List UInt8) (cb : ElemUnmarshallCb σ) (s : σ) :
    GspM (DirInfo × σ) := do
  .require .blockRead (1 ≤ block.length)
  let spec ← blockAt block (block.length - 1)
  .ensure .limit (2 ≤ block.length)
  let cell ← blockAt block (block.length - 2)
  .ensure .limit (cell.toNat ≤ uintSize)
  if spec = 0 then
    unmarshallDirectory dir block id cb false cell.toNat radixBase 2 s
  else if cell = 0 then
    let (dir, s) ← payloadLinearScan dir block (block.length - 2) id cb s
    return ({ dir with elemsLinearScan := true }, s)
  else
    .require .blockRead (3 ≤ block.length)
    let num ← blockAt block (block.length - 3)
    .ensure .limit (num.toNat ≤ radixBase)
    unmarshallDirectory dir block id cb true cell.toNat num.toNat 3 s

/-- `read_payload_size`. The width byte is a plain `char`: from `0x80` on it is negative, and adding
it to `footer_size` wraps. -/
def readPayloadSize (dir : DirInfo) (file : List UInt8) (offset blockSize : Nat) :
    GspM DirInfo := do
  let sizeSpec ← preadExact file (offset + blockSize - 1) 1
  let spec := sizeSpec.headD 0
  if spec = 0 then return { dir with payloadFooterSize := 1 }
  .ensure .limit (schar spec ≤ uintSize)
  .require .sizeWrap (0 ≤ schar spec)
  let footerSize := 1 + spec.toNat
  .require .sizeWrap (footerSize ≤ offset + blockSize)
  let buf ← preadExact file (offset + blockSize - footerSize) spec.toNat
  let numval := kndUnpackInt buf spec.toNat
  .require .sizeWrap (footerSize ≤ blockSize)
  .ensure .limit (numval ≤ blockSize - footerSize)
  return { dir with payloadBlockSize := numval, payloadFooterSize := footerSize }

/-! ## (3) Subfolders -/

/-- The state of the loops in `read_subdirs`. -/
structure SubdirsState (σ : Type) where
  /-- The directory being filled. -/
  dir : DirInfo
  /-- Its `subdirs`. -/
  subdirs : Digit → SharedSetDir
  /-- `block_offset`. -/
  blockOffset : Nat
  /-- The caller's state. -/
  s : σ

/-- `unmarshall_block` as `read_subdirs` calls it: directory, block size, id and caller's state. -/
abbrev BlockReader (σ : Type) := DirInfo → Nat → List UInt8 → σ → GspM (SharedSetDir × σ)

/-- What `read_subdirs` does with one directory cell. -/
def useSubdirCell (recur : BlockReader σ) (id : List UInt8) (offset : Nat)
    (st : SubdirsState σ) : Nat × UInt8 × Option Digit → GspM (SubdirsState σ)
  | (numval, key, slot) => do
      if numval = 0 then return st
      let id ← pushId id key
      let (subdir, s) ← recur { totalSize := numval, globalOffset := offset + st.blockOffset }
        numval id st.s
      match slot with
      | none => .fault .slotIndex
      | some j =>
          return {
            dir := { st.dir with totalElems := st.dir.totalElems + subdir.totalElems }
            subdirs := Function.update st.subdirs j subdir
            blockOffset := st.blockOffset + numval
            s }

/-- The part of `read_subdirs` after the last three bytes: a directory of `numSubdirs` cells and
`specSize` bytes behind it. -/
def readSubdirCells (recur : BlockReader σ) (dir : DirInfo) (file : List UInt8)
    (offset parentBlockSize : Nat) (id : List UInt8) (useKeys : Bool)
    (cellSize numSubdirs specSize : Nat) (s : σ) : GspM (SharedSetDir × σ) := do
  let subdirFooterSize := if useKeys then numSubdirs * cellSize + numSubdirs
    else numSubdirs * cellSize
  .ensure .limit (subdirFooterSize ≤ nameSize)
  .require .sizeWrap (subdirFooterSize + specSize ≤ parentBlockSize)
  let subdirAreaSize := parentBlockSize - (subdirFooterSize + specSize)
  let buf ← preadExact file (offset + subdirAreaSize) subdirFooterSize
  let st ← foldCells buf 0 useKeys cellSize numSubdirs (useSubdirCell recur id offset)
    { dir, subdirs := fun _ => .null, blockOffset := 0, s }
  return (.dir st.dir st.subdirs, st.s)

/-- `read_subdirs`: the subfolders of a folder lie in the `parentBlockSize` bytes from `offset`
on, with their directory at the end. -/
def readSubdirs (recur : BlockReader σ) (dir : DirInfo) (file : List UInt8)
    (offset parentBlockSize : Nat) (id : List UInt8) (s : σ) : GspM (SharedSetDir × σ) := do
  .require .sizeWrap (3 ≤ parentBlockSize)
  let spec ← preadExact file (offset + parentBlockSize - 3) 3
  let cellSize := (spec.getD 1 0).toNat
  .ensure .limit (cellSize ≤ uintSize ∧ cellSize ≠ 0)
  if spec.getD 2 0 = 0 then
    readSubdirCells recur dir file offset parentBlockSize id false cellSize radixBase 2 s
  else
    readSubdirCells recur dir file offset parentBlockSize id true cellSize (spec.getD 0 0).toNat 3 s

/-- The body of `unmarshall_block` over the reader of the subfolders. -/
def unmarshallBlockWith (recur : BlockReader σ) (file : List UInt8) (cb : ElemUnmarshallCb σ) :
    BlockReader σ := fun dir blockSize id s => do
  let dir ← readPayloadSize dir file dir.globalOffset blockSize
  let (dir, s) ← (if dir.payloadBlockSize = 0 then pure (dir, s) else do
    let block ← preadExact file dir.globalOffset dir.payloadBlockSize
    let (dir, s) ← unmarshallElems dir block id cb s
    return ({ dir with totalElems := dir.numElems }, s))
  .require .sizeWrap (dir.payloadBlockSize + dir.payloadFooterSize ≤ blockSize)
  let subdirBlockSize := blockSize - (dir.payloadBlockSize + dir.payloadFooterSize)
  if subdirBlockSize = 0 then return (.dir dir fun _ => .null, s)
  readSubdirs recur dir file (dir.globalOffset + dir.payloadBlockSize) subdirBlockSize id s

/-- `unmarshall_block`. `room` is the free part of the id buffer: a call on a subfolder is made only
after a character was written into it. -/
def unmarshallBlock (file : List UInt8) (cb : ElemUnmarshallCb σ) : (room : Nat) → BlockReader σ
  | 0 => unmarshallBlockWith (fun _ _ _ _ => .fault .idbuf) file cb
  | room + 1 => unmarshallBlockWith (unmarshallBlock file cb room) file cb

variable {α : Type}

/-- `knd_shared_set_unmarshall_file` on a file with these contents. -/
def kndSharedSetUnmarshallFile (self : SharedSet α) (file : List UInt8) (filesize : Nat)
    (cb : ElemUnmarshallCb σ) (s : σ) : GspM (SharedSet α × σ) := do
  let offset := 3
  .require .sizeWrap (offset ≤ filesize)
  let (dir, s) ← unmarshallBlock file cb idSize
    { totalSize := filesize, globalOffset := offset } (filesize - offset) [] s
  return ({ self with dir, numElems := dir.totalElems }, s)

/-! ## (4) Random access -/

/-- One round of the loop of `fetch_elem_linear_scan`: `key` is `curr_id`, `id₀` the character
looked for; `skip` goes on behind a byte of the value, `next` behind the key of the next record. -/
def fetchRound (block id : List UInt8) (id₀ : UInt8) (cb : ElemUnmarshallCb σ) (c b : Nat)
    (key : UInt8) (s : σ) (skip : GspM σ) (next : UInt8 → GspM σ) : GspM σ := do
  let ch ← blockAt block c
  if ch = 0 then
    if key = id₀ then cb id (block.drop b ++ [0]) (c - b) s
    else
      let key' ← blockAt block (c + 1)
      if schar key' > schar id₀ then .err .noMatch else next key'
  else skip

/-- The loop of `fetch_elem_linear_scan`. -/
def fetchLoop (block id : List UInt8) (id₀ : UInt8) (cb : ElemUnmarshallCb σ) :
    (remainder c b : Nat) → (key : UInt8) → σ → GspM σ
  | 0, c, b, key, s =>
      if key = id₀ then cb id (block.drop b ++ [0]) (c - b) s else .err .noMatch
  | 1, c, b, key, s =>
      fetchRound block id id₀ cb c b key s (fetchLoop block id id₀ cb 0 (c + 1) b key s)
        fun _ => .fault .sizeWrap   -- `remainder -= 2`
  | remainder + 2, c, b, key, s =>
      fetchRound block id id₀ cb c b key s
        (fetchLoop block id id₀ cb (remainder + 1) (c + 1) b key s)
        fun key' => fetchLoop block id id₀ cb remainder (c + 2) (c + 2) key' s

/-- `fetch_elem_linear_scan` for an id whose first character is `id₀`. -/
def fetchElemLinearScan (block id : List UInt8) (id₀ : UInt8) (cb : ElemUnmarshallCb σ) (s : σ) :
    GspM σ := do
  .require .sizeWrap (1 ≤ block.length)
  let key ← blockAt block 0
  fetchLoop block id id₀ cb (block.length - 1) 1 1 key s

/-- The payload part of `read_elem` for the slot `i` of a folder. -/
def readPayloadElem (file : List UInt8) (dir : DirInfo) (i : Digit) (c : UInt8)
    (cb : ElemUnmarshallCb σ) (s : σ) : GspM σ := do
  if dir.elemsLinearScan then
    let b ← preadExact file dir.globalOffset dir.payloadBlockSize
    fetchElemLinearScan b [c] c cb s
  else
    let elemOffset := ((List.finRange 62).take i).foldl (fun off j => off + dir.elemBlockSizes j) 0
    let elemBlockSize := dir.elemBlockSizes i
    let b ← preadExact file (dir.globalOffset + elemOffset) elemBlockSize
    cb [c] (b ++ [0]) elemBlockSize s

/-- `read_elem`. The callback receives the last character of the id. -/
def readElem (file : List UInt8) (cb : ElemUnmarshallCb σ) :
    SharedSetDir → List UInt8 → σ → GspM σ
  | .null, _, _ => .fault .assertion
  | .dir _ _, [], _ => .err .format   -- `*id` is the terminating NUL
  | .dir info _, [c], s =>
      match objIdBase c with
      | none => .err .format
      | some i => readPayloadElem file info i c cb s
  | .dir _ subdirs, c :: c' :: id, s =>
      match objIdBase c with
      | none => .err .format
      | some i =>
          match subdirs i with
          | .null => .err .noMatch
          | .dir info' subdirs' => readElem file cb (.dir info' subdirs') (c' :: id) s

/-- `knd_shared_set_unmarshall_elem` on the file that `self->path` names. -/
def kndSharedSetUnmarshallElem (self : SharedSet α) (file : List UInt8) (id : List UInt8)
    (cb : ElemUnmarshallCb σ) (s : σ) : GspM σ :=
  readElem file cb self.dir id s

/-! ## (5) What a load keeps -/

section Keeps

variable {P : Nat → σ → Prop} {cb : ElemUnmarshallCb σ} {block id : List UInt8} {k : Nat}

open Checked

/-- **A callback that counts**: `P k` holds of the caller's state after `k` calls. -/
def Counts (P : Nat → σ → Prop) (cb : ElemUnmarshallCb σ) : Prop :=
  ∀ id mem n k s, P k s → Ensures (P (k + 1)) (cb id mem n s)

theorem ensures_scanLoop (hcb : Counts P cb) {remainder c b : Nat} {key : UInt8} {dir : DirInfo} {s : σ}
    (hs : P (k + dir.numElems) s) :
    Ensures (fun r : DirInfo × σ => P (k + r.1.numElems) r.2) (scanLoop block id cb remainder c b key dir s) := by
  induction remainder using Nat.strong_induction_on generalizing c b key dir s with
  | _ remainder ih =>
      cases remainder with
      | zero =>
          rw [scanLoop]
          exact (hcb _ _ _ _ s hs).bind fun s' hs' => .ok hs'
      | succ r =>
          rw [scanLoop]
          refine .bind_any fun ch => ?_
          split_ifs
          · refine (hcb _ _ _ _ s hs).bind fun s' hs' => .bind_any fun key' => ?_
            cases r with
            | zero => exact .fault _
            | succ r => exact ih r (by omega) hs'
          · exact ih r (Nat.lt_succ_self r) hs

theorem ensures_useElemCell (hcb : Counts P cb) (st : ElemsState σ) (cell : Nat × UInt8 × Option Digit)
    (hst : P (k + st.dir.numElems) st.s) :
    Ensures (fun st => P (k + st.dir.numElems) st.s) (useElemCell block id cb st cell) := by
  obtain ⟨n, key, slot⟩ := cell
  rw [useElemCell]
  refine .bind_any fun id' => ?_
  split_ifs
  · exact .ok hst
  refine .bind_any fun _ => ?_
  cases slot with
  | none => exact .fault _
  | some j => exact (hcb _ _ _ _ _ hst).bind fun s' hs' => .ok hs'

theorem ensures_unmarshallDirectory (hcb : Counts P cb) {dir : DirInfo} {useKeys : Bool}
    {cellSize numElems footerSize : Nat} {s : σ} (hs : P (k + dir.numElems) s) :
    Ensures (fun r : DirInfo × σ => P (k + r.1.numElems) r.2)
      (unmarshallDirectory dir block id cb useKeys cellSize numElems footerSize s) := by
  rw [unmarshallDirectory]
  refine .bind_any fun _ => Ensures.bind (P := fun st : ElemsState σ => P (k + st.dir.numElems) st.s) ?_
    fun st hst => .ok hst
  exact .foldlM (fun st i hst => .bind_any fun cell => ensures_useElemCell hcb st cell hst) _ hs

theorem ensures_unmarshallElems (hcb : Counts P cb) {dir : DirInfo} {s : σ} (hs : P (k + dir.numElems) s) :
    Ensures (fun r : DirInfo × σ => P (k + r.1.numElems) r.2) (unmarshallElems dir block id cb s) := by
  rw [unmarshallElems]
  refine .bind_any fun _ => .bind_any fun spec => .bind_any fun _ => .bind_any fun cell => .bind_any fun _ => ?_
  split_ifs
  · exact ensures_unmarshallDirectory hcb hs
  · refine Ensures.bind (P := fun r : DirInfo × σ => P (k + r.1.numElems) r.2) ?_ fun r hr => .ok hr
    rw [payloadLinearScan]
    exact .bind_any fun _ => .bind_any fun key => .bind_any fun _ => ensures_scanLoop hcb hs
  · exact .bind_any fun _ => .bind_any fun num => .bind_any fun _ => ensures_unmarshallDirectory hcb hs

/-- A reader of blocks that counts the calls in `total_elems`. -/
def CountsBlocks (P : Nat → σ → Prop) (recur : BlockReader σ) : Prop :=
  ∀ dir n id k s, dir.numElems = 0 → dir.totalElems = 0 → P k s →
    Ensures (fun r : SharedSetDir × σ => P (k + r.1.totalElems) r.2) (recur dir n id s)

theorem ensures_useSubdirCell {recur : BlockReader σ} (hrec : CountsBlocks P recur) {offset : Nat}
    (st : SubdirsState σ) (cell : Nat × UInt8 × Option Digit) (hst : P (k + st.dir.totalElems) st.s) :
    Ensures (fun st => P (k + st.dir.totalElems) st.s) (useSubdirCell recur id offset st cell) := by
  obtain ⟨n, key, slot⟩ := cell
  rw [useSubdirCell]
  split_ifs
  · exact .ok hst
  refine .bind_any fun id' => (hrec _ _ _ _ _ rfl rfl hst).bind fun r hr => ?_
  cases slot with
  | none => exact .fault _
  | some j =>
      rw [Nat.add_assoc] at hr
      exact .ok hr

theorem ensures_readSubdirs {recur : BlockReader σ} (hrec : CountsBlocks P recur) {dir : DirInfo}
    {file : List UInt8} {offset n : Nat} {s : σ} (hs : P (k + dir.totalElems) s) :
    Ensures (fun r : SharedSetDir × σ => P (k + r.1.totalElems) r.2) (readSubdirs recur dir file offset n id s) := by
  have hcells : ∀ useKeys cellSize num spec, Ensures (fun r : SharedSetDir × σ => P (k + r.1.totalElems) r.2)
      (readSubdirCells recur dir file offset n id useKeys cellSize num spec s) := by
    intro useKeys cellSize num spec
    rw [readSubdirCells]
    refine .bind_any fun _ => .bind_any fun _ => .bind_any fun buf =>
      Ensures.bind (P := fun st : SubdirsState σ => P (k + st.dir.totalElems) st.s) ?_ fun st hst => .ok hst
    exact .foldlM (fun st i hst => .bind_any fun cell => ensures_useSubdirCell hrec st cell hst) _ hs
  rw [readSubdirs]
  refine .bind_any fun _ => .bind_any fun spec => .bind_any fun _ => ?_
  split_ifs
  · exact hcells false _ _ _
  · exact hcells true _ _ _

/-- The size of the payload is read before anything is counted. -/
theorem ensures_readPayloadSize (dir : DirInfo) (file : List UInt8) (offset n : Nat) :
    Ensures (fun dir' => dir'.numElems = dir.numElems ∧ dir'.totalElems = dir.totalElems)
      (readPayloadSize dir file offset n) := by
  rw [readPayloadSize]
  refine .bind_any fun spec => ?_
  dsimp only
  split_ifs
  · exact .ok ⟨rfl, rfl⟩
  · exact .bind_any fun _ => .bind_any fun _ => .bind_any fun _ => .bind_any fun _ => .bind_any fun _ =>
      .bind_any fun _ => .ok ⟨rfl, rfl⟩

theorem countsBlocks_unmarshallBlockWith (hcb : Counts P cb) {recur : BlockReader σ} (hrec : CountsBlocks P recur)
    (file : List UInt8) : CountsBlocks P (unmarshallBlockWith recur file cb) := by
  intro dir n id k s hnum htotal hs
  rw [unmarshallBlockWith]
  refine (ensures_readPayloadSize dir file dir.globalOffset n).bind fun dir' hdir =>
    Ensures.bind (P := fun r : DirInfo × σ => P (k + r.1.totalElems) r.2) ?_ fun r hr => ?_
  · split_ifs
    · rw [← hdir.2] at htotal
      exact .ok (by rwa [htotal])
    · have hstart : P (k + dir'.numElems) s := by rwa [hdir.1, hnum]
      exact .bind_any fun block => (ensures_unmarshallElems hcb hstart).bind fun r hr => .ok hr
  · refine .bind_any fun _ => ?_
    dsimp only
    split_ifs
    · exact .ok hr
    · exact ensures_readSubdirs hrec hr

/-- **A full load counts the calls of its callback** in `num_elems`, whatever the file holds. -/
theorem counts_unmarshallFile {α : Type} (hcb : Counts P cb) (self : SharedSet α) (file : List UInt8)
    (filesize : Nat) {s : σ} (hs : P 0 s) :
    Ensures (fun r : SharedSet α × σ => P r.1.numElems r.2) (kndSharedSetUnmarshallFile self file filesize cb s) := by
  have hblock : ∀ room, CountsBlocks P (unmarshallBlock file cb room) := by
    intro room
    induction room with
    | zero => exact countsBlocks_unmarshallBlockWith hcb (fun _ _ _ _ _ _ _ _ => .fault _) file
    | succ room ih => exact countsBlocks_unmarshallBlockWith hcb ih file
  rw [kndSharedSetUnmarshallFile]
  refine .bind_any fun _ => (hblock idSize _ _ _ _ s rfl rfl hs).bind fun r hr => .ok ?_
  rwa [Nat.zero_add] at hr

/-- **A full load keeps every invariant that its callback keeps.** -/
theorem ensures_unmarshallFile {α : Type} {P : σ → Prop} (hcb : ∀ id mem n s, P s → Ensures P (cb id mem n s))
    (self : SharedSet α) (file : List UInt8) (filesize : Nat) {s : σ} (hs : P s) :
    Ensures (fun r : SharedSet α × σ => P r.2) (kndSharedSetUnmarshallFile self file filesize cb s) :=
  counts_unmarshallFile (P := fun _ => P) (fun id mem n _ => hcb id mem n) self file filesize hs

end Keeps

end Knowdy
