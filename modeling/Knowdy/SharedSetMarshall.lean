import Knowdy.GspFormat
import Mathlib.Algebra.Order.Field.Rat
import Mathlib.Tactic.FieldSimp
import Mathlib.Tactic.Linarith

/-! # Writing a shared set to a file

The marshaller of `knd_shared_set.c`. A folder is written as its payload block, the blocks of its
subfolders with a footer, and the size of its payload; a payload block is either a scan list of
records or the records with a directory as footer.

* `marshallElems`, `marshallSubdirs`, `traverseMarshall`, `kndSharedSetMarshall` — the code.
* `ElemIdx.blockBytes` — the bytes of a folder, as a function of the folder alone.
* `kndSharedSetMarshall_ok` — a successful run appended exactly these bytes and reports their
  number. -/

namespace Knowdy

variable {α : Type}

/-! ## (1) The code -/

/-- `elem_marshall_cb`: writes an element to the output and reports its size. -/
abbrev ElemMarshallCb (α : Type) := α → Output → Except KndErr (Nat × Output)

/-- The state of a marshalling run: `task->out` and the file named by `filename`. -/
structure MarshallTask where
  /-- `task->out`. -/
  out : Output
  /-- Contents of the file. -/
  file : List UInt8
  /-- The largest size the file system allows for it. -/
  disk : Nat
  deriving DecidableEq

/-- Flush the output to the file (`knd_append_file(filename, out->buf, out->buf_size)`). -/
def MarshallTask.flush (task : MarshallTask) : Except KndErr MarshallTask := do
  let file ← kndAppendFile task.disk task.file task.out.buf
  return { task with file }

theorem MarshallTask.file_of_flush {task task' : MarshallTask} (h : task.flush = .ok task') :
    task'.file = task.file ++ task.out.buf := by
  simp only [flush, bind_eq_ok, pure_eq_ok] at h
  obtain ⟨file, happend, rfl⟩ := h
  exact eq_append_of_kndAppendFile happend

/-- One slot of the directory loop in `build_elems_footer` and `build_subdirs_footer`. -/
def writeCell (sizes : Digit → Nat) (useKeys : Bool) (cellSize : Nat) (out : Output) (i : Digit) :
    Except KndErr Output := do
  if useKeys then
    if sizes i = 0 then return out
    let out ← out.writec (objIdSeq i)
    out.write (kndPackInt (sizes i) cellSize)
  else
    out.write (kndPackInt (sizes i) cellSize)

/-- The common body of `build_elems_footer` and `build_subdirs_footer`: the cells, the number of
records of a keyed directory, the cell width and the layout flag. -/
def buildFooter (sizes : Digit → Nat) (num : Nat) (useKeys : Bool) (cellSize : Nat)
    (out : Output) : Except KndErr Output := do
  let out ← (List.finRange 62).foldlM (writeCell sizes useKeys cellSize) out
  let out ← (if useKeys then out.writec (UInt8.ofNat num) else pure out)
  let out ← out.writec (UInt8.ofNat cellSize)
  out.writec useKeys.toUInt8

/-- `build_elems_footer`. -/
def buildElemsFooter (dir : DirInfo) (useKeys : Bool) (cellSize : Nat) (out : Output) :
    Except KndErr Output :=
  buildFooter dir.elemBlockSizes dir.numElems useKeys cellSize out

/-- `build_subdirs_footer`. -/
def buildSubdirsFooter (dir : DirInfo) (subdirs : Digit → SharedSetDir) (useKeys : Bool)
    (cellSize : Nat) (out : Output) : Except KndErr Output :=
  buildFooter (fun i => (subdirs i).totalSize) dir.numSubdirs useKeys cellSize out

/-- The start of a record of a scan list in `marshall_elems`: the separator after an earlier record
and the key. -/
def writeKey (dir : DirInfo) (out : Output) (i : Digit) : Except KndErr Output := do
  let out ← (if dir.numElems = 0 then pure out else out.writec 0)
  out.writec (objIdSeq i)

/-- `if (parent_idx->idxs[i]) dir->num_subdirs++` in `marshall_elems`. -/
def countSubdir (parentIdx : ElemIdx α) (dir : DirInfo) (i : Digit) : DirInfo :=
  if (parentIdx.idxs i).isNull then dir else { dir with numSubdirs := dir.numSubdirs + 1 }

@[simp] theorem countSubdir_numElems (parentIdx : ElemIdx α) (dir : DirInfo) (i : Digit) :
    (countSubdir parentIdx dir i).numElems = dir.numElems := by
  unfold countSubdir; split <;> rfl

/-- One slot of `marshall_elems`. -/
def marshallElem (parentIdx : ElemIdx α) (cb : ElemMarshallCb α) (useKeys : Bool)
    (st : DirInfo × Output) (i : Digit) : Except KndErr (DirInfo × Output) := do
  let (dir, out) := st
  let dir := countSubdir parentIdx dir i
  match parentIdx.elems i with
  | none => return (dir, out)
  | some elem =>
      let out ← (if useKeys then writeKey dir out i else pure out)
      let (blockSize, out) ← cb elem out
      return ({ dir with
        cellMaxVal := max dir.cellMaxVal blockSize
        elemBlockSizes := Function.update dir.elemBlockSizes i blockSize
        numElems := dir.numElems + 1 }, out)

/-- `marshall_elems`. -/
def marshallElems (parentIdx : ElemIdx α) (cb : ElemMarshallCb α) (useKeys : Bool)
    (dir : DirInfo) (out : Output) : Except KndErr (DirInfo × Output) :=
  (List.finRange 62).foldlM (marshallElem parentIdx cb useKeys) (dir, out)

/-- `KND_SET_MIN_FOOTER_SIZE / out->buf_size > KND_MAX_IDX_OVERHEAD`: a directory would be a large
part of the payload block. -/
def footerTooLarge (bufSize : Nat) : Bool := (64 : ℚ) / bufSize > 1 / 8

/-- The second pass of `traverse_marshall` over a small payload: a scan list, marked by the bytes 0
and 1 at its end. -/
def marshallScanList (parentIdx : ElemIdx α) (cb : ElemMarshallCb α) (dir : DirInfo)
    (out : Output) : Except KndErr (DirInfo × Output) := do
  let (dir, out) ← marshallElems parentIdx cb true { dir with numElems := 0 } out.reset
  let out ← out.writec 0
  let out ← out.writec 1
  return (dir, out)

/-- The end of the payload block of `traverse_marshall`: a second pass or a directory. -/
def finishPayload (parentIdx : ElemIdx α) (cb : ElemMarshallCb α) (dir : DirInfo)
    (out : Output) : Except KndErr (DirInfo × Output) :=
  let cellSize := kndMinBytes dir.cellMaxVal
  if footerTooLarge out.buf.length then marshallScanList parentIdx cb dir out
  else do
    let out ← buildElemsFooter dir (useKeysFor dir.numElems) cellSize out
    return (dir, out)

/-- The payload part of `traverse_marshall`; an empty payload is not written. -/
def marshallPayload (parentIdx : ElemIdx α) (cb : ElemMarshallCb α) (task : MarshallTask) :
    Except KndErr (DirInfo × MarshallTask) := do
  let (dir, out) ← marshallElems parentIdx cb false {} task.out.reset
  if out.buf.length = 0 then return (dir, { task with out })
  let (dir, out) ← finishPayload parentIdx cb dir out
  let dir := { dir with
    payloadBlockSize := out.buf.length
    totalElems := dir.numElems
    totalSize := out.buf.length }
  let task ← { task with out }.flush
  return (dir, task)

/-- The directory of a folder after one more of its subfolders was written. -/
def noteSubdir (dir : DirInfo) (subdir : SharedSetDir) : DirInfo :=
  { dir with
    cellMaxVal := max dir.cellMaxVal subdir.totalSize
    totalElems := dir.totalElems + subdir.totalElems
    subdirBlockSize := dir.subdirBlockSize + subdir.totalSize
    numSubdirs := dir.numSubdirs + 1 }

/-- One slot of `marshall_subdirs`; `traverse i` is the recursive call on the `i`-th subfolder. -/
def marshallSubdir (parentIdx : ElemIdx α)
    (traverse : Digit → MarshallTask → Except KndErr (SharedSetDir × MarshallTask))
    (st : DirInfo × (Digit → SharedSetDir) × MarshallTask) (i : Digit) :
    Except KndErr (DirInfo × (Digit → SharedSetDir) × MarshallTask) := do
  let (dir, subdirs, task) := st
  if (parentIdx.idxs i).isNull then return (dir, subdirs, task)
  let (subdir, task) ← traverse i task
  return (noteSubdir dir subdir, Function.update subdirs i subdir, task)

/-- `marshall_subdirs`. -/
def marshallSubdirs (parentIdx : ElemIdx α)
    (traverse : Digit → MarshallTask → Except KndErr (SharedSetDir × MarshallTask))
    (dir : DirInfo) (task : MarshallTask) :
    Except KndErr (DirInfo × (Digit → SharedSetDir) × MarshallTask) := do
  let (dir, subdirs, task) ← (List.finRange 62).foldlM (marshallSubdir parentIdx traverse)
    ({ dir with cellMaxVal := 0 }, fun _ => .null, task)
  let cellSize := kndMinBytes dir.cellMaxVal
  let out ← buildSubdirsFooter dir subdirs (useKeysFor dir.numSubdirs) cellSize task.out.reset
  let task ← { task with out }.flush
  let dir := { dir with subdirBlockSize := dir.subdirBlockSize + out.buf.length }
  return ({ dir with totalSize := dir.totalSize + dir.subdirBlockSize }, subdirs, task)

/-- The end of `traverse_marshall`: the payload size as a cell with its width, or one zero byte. -/
def marshallPayloadSize (dir : DirInfo) (task : MarshallTask) :
    Except KndErr (DirInfo × MarshallTask) := do
  let out := task.out.reset
  if dir.payloadBlockSize ≠ 0 then
    let byteSize := kndMinBytes dir.payloadBlockSize
    let out ← out.write (kndPackInt dir.payloadBlockSize byteSize)
    let out ← out.writec (UInt8.ofNat byteSize)
    let task ← { task with out }.flush
    return ({ dir with totalSize := dir.totalSize + (byteSize + 1) }, task)
  else
    let out ← out.writec 0
    let task ← { task with out }.flush
    return ({ dir with totalSize := dir.totalSize + 1 }, task)

/-- The body of `traverse_marshall` over the recursive calls on the subfolders. -/
def traverseMarshallWith (parentIdx : ElemIdx α)
    (traverse : Digit → MarshallTask → Except KndErr (SharedSetDir × MarshallTask))
    (cb : ElemMarshallCb α) (task : MarshallTask) :
    Except KndErr (SharedSetDir × MarshallTask) := do
  let (dir, task) ← marshallPayload parentIdx cb task
  let (dir, subdirs, task) ← (if dir.numSubdirs = 0 then pure (dir, fun _ => .null, task)
    else marshallSubdirs parentIdx traverse { dir with numSubdirs := 0 } task)
  let (dir, task) ← marshallPayloadSize dir task
  return (.dir dir subdirs, task)

/-- `traverse_marshall`. -/
def traverseMarshall (cb : ElemMarshallCb α) :
    ElemIdx α → MarshallTask → Except KndErr (SharedSetDir × MarshallTask)
  | .null, _ => .error .fail   -- never called on a null pointer
  | .node elems idxs, task =>
      traverseMarshallWith (.node elems idxs) (fun i => traverseMarshall cb (idxs i)) cb task

/-- `knd_shared_set_marshall`: the file after the call and `*total_size`. -/
def kndSharedSetMarshall (self : SharedSet α) (cb : ElemMarshallCb α) (task : MarshallTask) :
    Except KndErr (Nat × MarshallTask) := do
  let (rootDir, task) ← traverseMarshall cb self.idx task
  return (rootDir.totalSize, task)

/-! ## (2) What a callback promises -/

/-- **A marshalling callback writes `e` as `val e`**: a non-empty string without NUL bytes that it
appends to the output, the same on every call, and whose length it reports. -/
structure Marshalls (cb : ElemMarshallCb α) (val : α → List UInt8) (e : α) : Prop where
  /-- Something is written. -/
  ne_nil : val e ≠ []
  /-- The record separator does not occur. -/
  no_nul : 0 ∉ val e
  /-- A successful call appends exactly `val e` and reports its length. -/
  writes : ∀ out n out', cb e out = .ok (n, out') → n = (val e).length ∧ out' = out.append (val e)

/-! ## (3) Successful loops -/

/-- A loop whose successful steps agree with a pure step ends, if it succeeds, in the pure fold. -/
theorem foldl_eq_of_foldlM_ok {ε σ β : Type} {f : σ → β → Except ε σ} (g : σ → β → σ)
    {l : List β} (h : ∀ s b s', b ∈ l → f s b = .ok s' → s' = g s b) {s s' : σ}
    (hl : l.foldlM f s = .ok s') : s' = l.foldl g s := by
  induction l generalizing s with
  | nil => cases hl; rfl
  | cons b bs ih =>
      rw [List.foldlM_cons, bind_eq_ok] at hl
      obtain ⟨s₁, h₁, h₂⟩ := hl
      rw [List.foldl_cons, ← h s b s₁ List.mem_cons_self h₁]
      exact ih (fun s b s' hb => h s b s' (List.mem_cons_of_mem _ hb)) h₂

/-! ## (4) The directories -/

/-- A successful directory loop wrote the footer of the blocks whose sizes it was given. -/
theorem eq_append_of_buildFooter {blocks : Blocks} {out out' : Output}
    (h : buildFooter (fun i => (blocks i).length) blocks.occupied.length
      (useKeysFor blocks.occupied.length) blocks.cellSize out = .ok out') :
    out' = out.append (footerBytes blocks) := by
  have hcells : ∀ (l : List Digit) (out out' : Output) (useKeys : Bool),
      l.foldlM (writeCell (fun i => (blocks i).length) useKeys blocks.cellSize) out = .ok out' →
      out' = out.append (if useKeys then
        (l.filter fun i => blocks i ≠ []).flatMap blocks.keyedCell
        else l.flatMap blocks.slotCell) := by
    intro l out out' useKeys hl
    induction l generalizing out with
    | nil => cases hl; cases useKeys <;> simp
    | cons i l ih =>
        rw [List.foldlM_cons, bind_eq_ok] at hl
        obtain ⟨out₁, h₁, h₂⟩ := hl
        rw [ih out₁ h₂]
        cases useKeys with
        | false =>
            have hw : out.write (blocks.slotCell i) = .ok out₁ := by
              simpa only [writeCell, Bool.false_eq_true, if_false, Blocks.slotCell] using h₁
            rw [Output.eq_append_of_write hw]
            simp
        | true =>
            by_cases hi : blocks i = []
            · obtain rfl : out = out₁ := by simpa [writeCell, hi] using h₁
              simp [hi]
            · simp only [writeCell, if_true, List.length_eq_zero_iff, hi, if_false,
                bind_eq_ok] at h₁
              obtain ⟨out₂, hk, hw⟩ := h₁
              rw [Output.eq_append_of_write hw, Output.eq_append_of_writec hk]
              simp [hi, Blocks.keyedCell, Blocks.slotCell]
  unfold buildFooter at h
  rw [bind_eq_ok] at h
  obtain ⟨out₁, h₁, h⟩ := h
  rw [bind_eq_ok] at h
  obtain ⟨out₂, h₂, h⟩ := h
  rw [bind_eq_ok] at h
  obtain ⟨out₃, h₃, h₄⟩ := h
  rw [Output.eq_append_of_writec h₄, Output.eq_append_of_writec h₃]
  rw [footerBytes]
  cases hk : useKeysFor blocks.occupied.length with
  | false =>
      obtain rfl : out₁ = out₂ := by simpa [hk, pure, Except.pure] using h₂
      rw [hcells _ _ _ _ h₁, hk]
      simp [Bool.toUInt8]
  | true =>
      rw [hk, if_pos rfl] at h₂
      rw [Output.eq_append_of_writec h₂, hcells _ _ _ _ h₁, hk]
      simp [Blocks.occupied, Bool.toUInt8]

/-! ## (5) The payload of a folder -/

/-- The bookkeeping of `marshall_elems` for one slot. -/
def noteElem (parentIdx : ElemIdx α) (blocks : Blocks) (dir : DirInfo) (i : Digit) : DirInfo :=
  let dir := countSubdir parentIdx dir i
  if blocks i = [] then dir
  else { dir with
    cellMaxVal := max dir.cellMaxVal (blocks i).length
    elemBlockSizes := Function.update dir.elemBlockSizes i (blocks i).length
    numElems := dir.numElems + 1 }

/-- What the loop of `marshall_elems` has noted after the slots of `l`. -/
theorem foldl_noteElem (parentIdx : ElemIdx α) (blocks : Blocks) (l : List Digit) (dir : DirInfo) :
    l.foldl (noteElem parentIdx blocks) dir = { dir with
      numSubdirs := dir.numSubdirs + (l.filter fun i => !(parentIdx.idxs i).isNull).length
      cellMaxVal := l.foldl (fun m i => max m (blocks i).length) dir.cellMaxVal
      elemBlockSizes := setSizes blocks l dir.elemBlockSizes
      numElems := dir.numElems + (l.filter fun i => blocks i ≠ []).length } := by
  induction l generalizing dir with
  | nil => simp
  | cons i l ih =>
      rw [List.foldl_cons, ih]
      by_cases hb : blocks i = []
      · cases hn : (parentIdx.idxs i).isNull <;>
          simp [noteElem, countSubdir, hb, hn, setSizes_cons_of_nil hb, Nat.add_assoc, Nat.add_comm 1]
      · cases hn : (parentIdx.idxs i).isNull <;>
          simp [noteElem, countSubdir, hb, hn, setSizes_cons hb, Nat.add_assoc, Nat.add_comm 1]

section Payload

variable {cb : ElemMarshallCb α} {val : α → List UInt8} {parentIdx : ElemIdx α}

/-- One slot of the first pass appends the block of the slot. -/
theorem eq_of_marshallElem_false (hcb : ∀ i e, parentIdx.elems i = some e → Marshalls cb val e)
    {st st' : DirInfo × Output} {i : Digit}
    (h : marshallElem parentIdx cb false st i = .ok st') :
    st' = (noteElem parentIdx (payloadBlocks val parentIdx.elems) st.1 i,
      st.2.append (payloadBlocks val parentIdx.elems i)) := by
  cases he : parentIdx.elems i with
  | none =>
      simp only [marshallElem, he, pure_eq_ok] at h
      simp [← h, noteElem, payloadBlocks, he]
  | some e =>
      have hm := hcb i e he
      simp only [marshallElem, he, bind_eq_ok, pure_eq_ok, Bool.false_eq_true, if_false,
        Prod.exists, exists_eq_left'] at h
      obtain ⟨n, out, hw, rfl⟩ := h
      obtain ⟨rfl, rfl⟩ := hm.writes _ _ _ hw
      simp [noteElem, payloadBlocks, he, hm.ne_nil]

/-- One slot of the second pass appends a record of the scan list. -/
theorem eq_of_marshallElem_true (hcb : ∀ i e, parentIdx.elems i = some e → Marshalls cb val e)
    {st st' : DirInfo × Output} {i : Digit}
    (h : marshallElem parentIdx cb true st i = .ok st') :
    st' = (noteElem parentIdx (payloadBlocks val parentIdx.elems) st.1 i,
      if payloadBlocks val parentIdx.elems i = [] then st.2
      else st.2.append (scanBytes (payloadBlocks val parentIdx.elems)
        (decide (st.1.numElems ≠ 0)) [i])) := by
  cases he : parentIdx.elems i with
  | none =>
      simp only [marshallElem, he, pure_eq_ok] at h
      simp [← h, noteElem, payloadBlocks, he]
  | some e =>
      have hm := hcb i e he
      simp only [marshallElem, he, bind_eq_ok, pure_eq_ok, if_true, Prod.exists, writeKey,
        countSubdir_numElems] at h
      obtain ⟨out₁, ⟨out₂, hsep, hkey⟩, n, out₃, hw, rfl⟩ := h
      obtain ⟨rfl, rfl⟩ := hm.writes _ _ _ hw
      rw [Output.eq_append_of_writec hkey]
      by_cases h0 : st.1.numElems = 0
      · rw [if_pos h0, pure_eq_ok] at hsep
        simp [← hsep, h0, noteElem, payloadBlocks, he, hm.ne_nil, scanBytes]
      · rw [if_neg h0] at hsep
        rw [Output.eq_append_of_writec hsep]
        simp [h0, noteElem, payloadBlocks, he, hm.ne_nil, scanBytes]

/-- The first pass writes the body of the payload. -/
theorem eq_of_marshallElems_false (hcb : ∀ i e, parentIdx.elems i = some e → Marshalls cb val e)
    {dir : DirInfo} {out : Output} {r : DirInfo × Output}
    (h : marshallElems parentIdx cb false dir out = .ok r) :
    r = ((List.finRange 62).foldl (noteElem parentIdx (payloadBlocks val parentIdx.elems)) dir,
      out.append (payloadBlocks val parentIdx.elems).body) := by
  have hfold := foldl_eq_of_foldlM_ok _ (fun _ _ _ _ => eq_of_marshallElem_false hcb) h
  have hpair : ∀ (l : List Digit) (st : DirInfo × Output),
      l.foldl (fun st i => (noteElem parentIdx (payloadBlocks val parentIdx.elems) st.1 i,
        st.2.append (payloadBlocks val parentIdx.elems i))) st
      = (l.foldl (noteElem parentIdx (payloadBlocks val parentIdx.elems)) st.1,
        st.2.append (l.flatMap (payloadBlocks val parentIdx.elems))) := by
    intro l
    induction l with
    | nil => intro st; simp
    | cons i l ih => intro st; rw [List.foldl_cons, ih]; simp
  rw [hfold, hpair]
  rfl

/-- A scan list is its first record followed by the rest, which is separated from it. -/
theorem scanBytes_cons (blocks : Blocks) (started : Bool) (i : Digit) (is : List Digit) :
    scanBytes blocks started (i :: is)
      = scanBytes blocks started [i] ++ scanBytes blocks true is := by
  simp [scanBytes]

/-- The second pass writes a scan list. -/
theorem eq_of_marshallElems_true (hcb : ∀ i e, parentIdx.elems i = some e → Marshalls cb val e)
    {dir : DirInfo} {out : Output} {r : DirInfo × Output} (h0 : dir.numElems = 0)
    (h : marshallElems parentIdx cb true dir out = .ok r) :
    r = ((List.finRange 62).foldl (noteElem parentIdx (payloadBlocks val parentIdx.elems)) dir,
      out.append (scanBytes (payloadBlocks val parentIdx.elems) false
        (payloadBlocks val parentIdx.elems).occupied)) := by
  have hfold := foldl_eq_of_foldlM_ok _ (fun _ _ _ _ => eq_of_marshallElem_true hcb) h
  have hpair : ∀ (l : List Digit) (st : DirInfo × Output),
      l.foldl (fun st i => (noteElem parentIdx (payloadBlocks val parentIdx.elems) st.1 i,
        if payloadBlocks val parentIdx.elems i = [] then st.2
        else st.2.append (scanBytes (payloadBlocks val parentIdx.elems)
          (decide (st.1.numElems ≠ 0)) [i]))) st
      = (l.foldl (noteElem parentIdx (payloadBlocks val parentIdx.elems)) st.1,
        st.2.append (scanBytes (payloadBlocks val parentIdx.elems) (decide (st.1.numElems ≠ 0))
          (l.filter fun i => payloadBlocks val parentIdx.elems i ≠ []))) := by
    intro l
    induction l with
    | nil => intro st; simp [scanBytes]
    | cons i l ih =>
        intro st
        rw [List.foldl_cons, ih]
        by_cases hi : payloadBlocks val parentIdx.elems i = []
        · simp [hi, noteElem]
        · rw [List.filter_cons_of_pos (by simp [hi]), scanBytes_cons _ _ i (List.filter _ _)]
          simp [hi, noteElem]
  rw [hfold, hpair, h0]
  simp [Blocks.occupied]

theorem footerTooLarge_iff {n : Nat} (hn : n ≠ 0) : footerTooLarge n = true ↔ n < 512 := by
  have hpos : (0 : ℚ) < n := by exact_mod_cast Nat.pos_of_ne_zero hn
  rw [footerTooLarge, decide_eq_true_iff, gt_iff_lt, lt_div_iff₀ hpos]
  constructor
  · intro h
    have h' : (n : ℚ) < 512 := by linarith
    exact_mod_cast h'
  · intro h
    have h' : (n : ℚ) < 512 := by exact_mod_cast h
    linarith

/-- What a pass over the elements has noted in the directory. -/
structure ElemsNoted (parentIdx : ElemIdx α) (blocks : Blocks) (dir : DirInfo) : Prop where
  numElems : dir.numElems = blocks.occupied.length
  cellMaxVal : dir.cellMaxVal = blocks.maxSize
  sizes : dir.elemBlockSizes = fun i => (blocks i).length
  subdirBlockSize : dir.subdirBlockSize = 0
  numSubdirs : dir.numSubdirs = 0 ↔ ∀ i, (parentIdx.idxs i).isNull = true

theorem elemsNoted_first (parentIdx : ElemIdx α) (blocks : Blocks) :
    ElemsNoted parentIdx blocks ((List.finRange 62).foldl (noteElem parentIdx blocks) {}) := by
  rw [foldl_noteElem]
  refine ⟨by simp [Blocks.occupied], by rw [Blocks.maxSize], setSizes_finRange blocks, ?_, ?_⟩
  · simp
  · simp [List.filter_eq_nil_iff]

/-- The second pass only repeats the notes of the first. -/
theorem ElemsNoted.second {parentIdx : ElemIdx α} {blocks : Blocks} {dir : DirInfo}
    (h : ElemsNoted parentIdx blocks dir) : ElemsNoted parentIdx blocks
      ((List.finRange 62).foldl (noteElem parentIdx blocks) { dir with numElems := 0 }) := by
  rw [foldl_noteElem]
  refine ⟨by simp [Blocks.occupied], ?_, ?_, h.subdirBlockSize, ?_⟩
  · rw [h.cellMaxVal]
    exact blocks.foldl_max_maxSize
  · funext i
    simp [setSizes, h.sizes]
  · simp [List.filter_eq_nil_iff, h.numSubdirs]

/-- The end of a non-empty payload block: the output holds the payload of the folder. -/
theorem finishPayload_ok (hcb : ∀ i e, parentIdx.elems i = some e → Marshalls cb val e)
    {dir dir' : DirInfo} {out out' : Output}
    (hdir : ElemsNoted parentIdx (payloadBlocks val parentIdx.elems) dir)
    (hout : out.buf = (payloadBlocks val parentIdx.elems).body) (hne : out.buf.length ≠ 0)
    (h : finishPayload parentIdx cb dir out = .ok (dir', out')) :
    out'.buf = payloadBytes (payloadBlocks val parentIdx.elems) ∧
      ElemsNoted parentIdx (payloadBlocks val parentIdx.elems) dir' := by
  rw [payloadBytes, ← hout, if_neg hne]
  unfold finishPayload at h
  by_cases hsmall : out.buf.length < 512
  · simp only [(footerTooLarge_iff hne).mpr hsmall, if_true, marshallScanList, bind_eq_ok,
      pure_eq_ok, Prod.mk.injEq, Prod.exists] at h
    obtain ⟨dir₁, out₁, h₁, out₂, h₂, out₃, h₃, rfl, rfl⟩ := h
    obtain ⟨rfl, rfl⟩ := Prod.mk.inj (eq_of_marshallElems_true hcb rfl h₁)
    rw [if_pos hsmall, Output.eq_append_of_writec h₃, Output.eq_append_of_writec h₂]
    exact ⟨by simp, hdir.second⟩
  · have hlarge : footerTooLarge out.buf.length = false := by
      rw [← Bool.not_eq_true, footerTooLarge_iff hne]
      exact hsmall
    simp only [hlarge, Bool.false_eq_true, if_false, buildElemsFooter, hdir.sizes,
      hdir.numElems, hdir.cellMaxVal, bind_eq_ok, pure_eq_ok, Prod.mk.injEq] at h
    obtain ⟨out₁, h₁, rfl, rfl⟩ := h
    rw [if_neg hsmall, eq_append_of_buildFooter h₁]
    exact ⟨by simp [hout], hdir⟩

/-- **The payload block.** A successful payload part appended the payload of the folder. -/
theorem marshallPayload_ok (hcb : ∀ i e, parentIdx.elems i = some e → Marshalls cb val e)
    {task task' : MarshallTask} {dir : DirInfo}
    (h : marshallPayload parentIdx cb task = .ok (dir, task')) :
    task'.file = task.file ++ payloadBytes (payloadBlocks val parentIdx.elems) ∧
      dir.payloadBlockSize = (payloadBytes (payloadBlocks val parentIdx.elems)).length ∧
      dir.totalSize = (payloadBytes (payloadBlocks val parentIdx.elems)).length ∧
      dir.subdirBlockSize = 0 ∧ (dir.numSubdirs = 0 ↔ ∀ i, (parentIdx.idxs i).isNull = true) := by
  unfold marshallPayload at h
  rw [bind_eq_ok] at h
  obtain ⟨⟨dir₁, out₁⟩, h₁, h⟩ := h
  obtain ⟨rfl, hout₁⟩ := Prod.mk.inj (eq_of_marshallElems_false hcb h₁)
  have hnoted := elemsNoted_first parentIdx (payloadBlocks val parentIdx.elems)
  have hbuf : out₁.buf = (payloadBlocks val parentIdx.elems).body := by simp [hout₁]
  by_cases hbody : out₁.buf.length = 0
  · simp only [hbody, if_true, pure_eq_ok, Prod.mk.injEq] at h
    obtain ⟨rfl, rfl⟩ := h
    have hnil : payloadBytes (payloadBlocks val parentIdx.elems) = [] := by
      rw [payloadBytes, ← hbuf, if_pos hbody]
    rw [hnil, foldl_noteElem]
    exact ⟨(List.append_nil _).symm, rfl, rfl, rfl, by simp [List.filter_eq_nil_iff]⟩
  · simp only [hbody, if_false, bind_eq_ok, pure_eq_ok, Prod.mk.injEq, Prod.exists] at h
    obtain ⟨dir₂, out₂, h₂, task₂, hflush, rfl, rfl⟩ := h
    obtain ⟨hout₂, hdir₂⟩ := finishPayload_ok hcb hnoted hbuf hbody h₂
    have hfile := MarshallTask.file_of_flush hflush
    rw [← hout₂]
    exact ⟨hfile, rfl, rfl, hdir₂.subdirBlockSize, hdir₂.numSubdirs⟩

end Payload

/-! ## (6) Subfolders and whole trees -/

section Traverse

variable {cb : ElemMarshallCb α} {parentIdx : ElemIdx α} {subs : Blocks}
  {traverse : Digit → MarshallTask → Except KndErr (SharedSetDir × MarshallTask)}

/-- What the recursive calls of a folder promise: the `i`-th one appends `subs i` and reports its
length. -/
def Traverses (parentIdx : ElemIdx α) (subs : Blocks)
    (traverse : Digit → MarshallTask → Except KndErr (SharedSetDir × MarshallTask)) : Prop :=
  ∀ i task subdir task', (parentIdx.idxs i).isNull = false →
    traverse i task = .ok (subdir, task') →
      task'.file = task.file ++ subs i ∧ subdir.totalSize = (subs i).length

/-- The loop over the subfolders appends their blocks and adds up their sizes. -/
theorem foldlM_marshallSubdir_ok (hsubs : ∀ i, subs i = [] ↔ (parentIdx.idxs i).isNull = true)
    (htrav : Traverses parentIdx subs traverse) (l : List Digit) {dir dir' : DirInfo}
    {subdirs subdirs' : Digit → SharedSetDir} {task task' : MarshallTask}
    (h : l.foldlM (marshallSubdir parentIdx traverse) (dir, subdirs, task)
      = .ok (dir', subdirs', task')) :
    task'.file = task.file ++ l.flatMap subs ∧
      (fun i => (subdirs' i).totalSize) = setSizes subs l (fun i => (subdirs i).totalSize) ∧
      dir'.numSubdirs = dir.numSubdirs + (l.filter fun i => subs i ≠ []).length ∧
      dir'.cellMaxVal = l.foldl (fun m i => max m (subs i).length) dir.cellMaxVal ∧
      dir'.subdirBlockSize = dir.subdirBlockSize + (l.flatMap subs).length ∧
      dir'.totalSize = dir.totalSize ∧ dir'.payloadBlockSize = dir.payloadBlockSize := by
  induction l generalizing dir subdirs task with
  | nil =>
      cases h
      simp
  | cons i l ih =>
      rw [List.foldlM_cons, bind_eq_ok] at h
      obtain ⟨⟨dir₁, subdirs₁, task₁⟩, h₁, h₂⟩ := h
      obtain ⟨hfile, hsizes, hnum, hmax, hblock, htotal, hpayload⟩ := ih h₂
      cases hn : (parentIdx.idxs i).isNull with
      | true =>
          have hnil : subs i = [] := (hsubs i).mpr hn
          simp only [marshallSubdir, hn, if_true, pure_eq_ok, Prod.mk.injEq] at h₁
          obtain ⟨rfl, rfl, rfl⟩ := h₁
          rw [setSizes_cons_of_nil hnil]
          exact ⟨by simpa [hnil] using hfile, hsizes, by simpa [hnil] using hnum,
            by simpa [hnil] using hmax, by simpa [hnil] using hblock, htotal, hpayload⟩
      | false =>
          have hne : subs i ≠ [] := fun hnil => by simp [(hsubs i).mp hnil] at hn
          simp only [marshallSubdir, hn, Bool.false_eq_true, if_false, bind_eq_ok, pure_eq_ok,
            Prod.mk.injEq, Prod.exists] at h₁
          obtain ⟨subdir, task₂, htr, rfl, rfl, rfl⟩ := h₁
          obtain ⟨hf, ht⟩ := htrav i _ _ _ hn htr
          have hupd : (fun j => (Function.update subdirs i subdir j).totalSize)
              = Function.update (fun j => (subdirs j).totalSize) i (subs i).length := by
            funext j
            by_cases hj : j = i
            · subst hj; simp [ht]
            · simp [hj]
          rw [setSizes_cons hne, ← hupd]
          refine ⟨by rw [hfile, hf]; simp, hsizes, ?_, ?_, ?_, htotal, hpayload⟩
          · rw [hnum, List.filter_cons_of_pos (by simp [hne]), List.length_cons, noteSubdir]
            simp only
            omega
          · simp only [hmax, noteSubdir, ht, List.foldl_cons]
          · rw [hblock, List.flatMap_cons, List.length_append, noteSubdir, ht]
            simp only
            omega

/-- **The subfolder part.** A successful call appended the blocks of the subfolders and their
directory, and added their size to the total. -/
theorem marshallSubdirs_ok (hsubs : ∀ i, subs i = [] ↔ (parentIdx.idxs i).isNull = true)
    (htrav : Traverses parentIdx subs traverse) {dir dir' : DirInfo}
    {subdirs' : Digit → SharedSetDir} {task task' : MarshallTask}
    (h : marshallSubdirs parentIdx traverse dir task = .ok (dir', subdirs', task'))
    (hnum : dir.numSubdirs = 0) (hsize : dir.subdirBlockSize = 0) :
    task'.file = task.file ++ (subs.body ++ footerBytes subs) ∧
      dir'.totalSize = dir.totalSize + (subs.body ++ footerBytes subs).length ∧
      dir'.payloadBlockSize = dir.payloadBlockSize := by
  simp only [marshallSubdirs, bind_eq_ok, pure_eq_ok, Prod.mk.injEq, Prod.exists] at h
  obtain ⟨dir₁, subdirs₁, task₁, h₁, out, hout, task₂, hflush, rfl, rfl, rfl⟩ := h
  obtain ⟨hfile, hsizes, hn, hmax, hblock, htotal, hpayload⟩ :=
    foldlM_marshallSubdir_ok hsubs htrav _ h₁
  have hsizes' : (fun i => (subdirs₁ i).totalSize) = fun i => (subs i).length := by
    rw [hsizes]
    exact setSizes_finRange subs
  have hn' : dir₁.numSubdirs = subs.occupied.length := by
    rw [hn, hnum, Nat.zero_add, Blocks.occupied]
  have hmax' : dir₁.cellMaxVal = subs.maxSize := by rw [hmax, Blocks.maxSize]
  rw [buildSubdirsFooter, hsizes', hn', hmax'] at hout
  have hbuf : out.buf = footerBytes subs := by rw [eq_append_of_buildFooter hout]; simp
  have hbody : (List.finRange 62).flatMap subs = subs.body := rfl
  refine ⟨?_, ?_, hpayload⟩
  · rw [MarshallTask.file_of_flush hflush, hfile, hbuf, hbody, List.append_assoc]
  · rw [htotal, hblock, hsize, hbuf, hbody, Nat.zero_add, List.length_append]

/-- The end of a folder: the size of its payload. -/
theorem marshallPayloadSize_ok {dir dir' : DirInfo} {task task' : MarshallTask}
    (h : marshallPayloadSize dir task = .ok (dir', task')) :
    task'.file = task.file ++ sizeBytes dir.payloadBlockSize ∧
      dir'.totalSize = dir.totalSize + (sizeBytes dir.payloadBlockSize).length := by
  rw [length_sizeBytes]
  unfold sizeBytes
  unfold marshallPayloadSize at h
  by_cases h0 : dir.payloadBlockSize = 0
  · simp only [h0, ne_eq, not_true_eq_false, if_false, bind_eq_ok, pure_eq_ok,
      Prod.mk.injEq] at h
    obtain ⟨out, hout, task₁, hflush, rfl, rfl⟩ := h
    rw [if_pos h0, if_pos h0, MarshallTask.file_of_flush hflush, Output.eq_append_of_writec hout]
    exact ⟨by simp, rfl⟩
  · simp only [h0, ne_eq, not_false_eq_true, if_true, bind_eq_ok, pure_eq_ok,
      Prod.mk.injEq] at h
    obtain ⟨out₁, hw, out₂, hc, task₁, hflush, rfl, rfl⟩ := h
    rw [if_neg h0, if_neg h0, MarshallTask.file_of_flush hflush, Output.eq_append_of_writec hc,
      Output.eq_append_of_write hw]
    exact ⟨by simp, rfl⟩

/-- **One folder.** If the elements and the recursive calls keep their promises, a successful call
appended the block of the folder and reports its length. -/
theorem traverseMarshallWith_ok {val : α → List UInt8}
    (hcb : ∀ i e, parentIdx.elems i = some e → Marshalls cb val e)
    (hsubs : ∀ i, subs i = [] ↔ (parentIdx.idxs i).isNull = true)
    (htrav : Traverses parentIdx subs traverse) {subdir : SharedSetDir}
    {task task' : MarshallTask}
    (h : traverseMarshallWith parentIdx traverse cb task = .ok (subdir, task')) :
    task'.file = task.file ++ folderBytes (payloadBlocks val parentIdx.elems) subs ∧
      subdir.totalSize = (folderBytes (payloadBlocks val parentIdx.elems) subs).length := by
  simp only [traverseMarshallWith, bind_eq_ok, pure_eq_ok, Prod.mk.injEq, Prod.exists] at h
  obtain ⟨dir₁, task₁, h₁, dir₂, subdirs, task₂, h₂, dir₃, task₃, h₃, rfl, rfl⟩ := h
  obtain ⟨hfile₁, hpayload₁, htotal₁, hblock₁, hnum₁⟩ := marshallPayload_ok hcb h₁
  obtain ⟨hfile₃, htotal₃⟩ := marshallPayloadSize_ok h₃
  have hmid : task₂.file = task₁.file ++ subdirBytes subs ∧
      dir₂.totalSize = dir₁.totalSize + (subdirBytes subs).length ∧
      dir₂.payloadBlockSize = dir₁.payloadBlockSize := by
    have hocc : subs.occupied = [] ↔ dir₁.numSubdirs = 0 := by
      rw [hnum₁, ← Blocks.body_eq_nil, Blocks.body]
      simp [hsubs]
    unfold subdirBytes
    by_cases h0 : dir₁.numSubdirs = 0
    · simp only [h0, if_true, pure_eq_ok, Prod.mk.injEq] at h₂
      obtain ⟨rfl, rfl, rfl⟩ := h₂
      simp [if_pos (hocc.mpr h0)]
    · rw [if_neg h0] at h₂
      rw [if_neg (mt hocc.mp h0)]
      have hsubdirs := marshallSubdirs_ok hsubs htrav h₂ rfl hblock₁
      exact hsubdirs
  obtain ⟨hfile₂, htotal₂, hpayload₂⟩ := hmid
  constructor
  · rw [hfile₃, hfile₂, hfile₁, hpayload₂, hpayload₁, folderBytes]
    simp only [List.append_assoc]
  · rw [SharedSetDir.totalSize, htotal₃, htotal₂, htotal₁, hpayload₂, hpayload₁, folderBytes,
      List.length_append, List.length_append]

end Traverse

/-- **A whole tree.** A successful traversal appended the bytes of the tree. -/
theorem traverseMarshall_ok {cb : ElemMarshallCb α} {val : α → List UInt8} {idx : ElemIdx α}
    (hcb : idx.All (Marshalls cb val)) {subdir : SharedSetDir} {task task' : MarshallTask}
    (h : traverseMarshall cb idx task = .ok (subdir, task')) :
    task'.file = task.file ++ idx.blockBytes val ∧
      subdir.totalSize = (idx.blockBytes val).length := by
  induction idx generalizing subdir task task' with
  | null => cases h
  | node es ss ih =>
      rw [blockBytes_node]
      exact traverseMarshallWith_ok hcb.1 (fun i => blockBytes_eq_nil)
        (fun i _ _ _ _ htr => ih i (hcb.2 i) htr) h

/-- **`knd_shared_set_marshall` writes the format.** A successful run appended the bytes of the set
to the file, and `*total_size` is their number. -/
theorem kndSharedSetMarshall_ok {self : SharedSet α} {cb : ElemMarshallCb α}
    {val : α → List UInt8} (hcb : self.idx.All (Marshalls cb val)) {totalSize : Nat}
    {task task' : MarshallTask} (h : kndSharedSetMarshall self cb task = .ok (totalSize, task')) :
    task'.file = task.file ++ self.idx.blockBytes val ∧
      totalSize = (self.idx.blockBytes val).length := by
  simp only [kndSharedSetMarshall, bind_eq_ok, pure_eq_ok, Prod.mk.injEq, Prod.exists] at h
  obtain ⟨dir, task₁, h₁, rfl, rfl⟩ := h
  exact traverseMarshall_ok hcb h₁

end Knowdy
