import Knowdy.StringIdx
import Knowdy.SharedSetSafety
import Mathlib.Data.List.TakeWhile

/-! # Names of class and instance entries in a snapshot

`knd_class_inst_entry_unmarshall` and `knd_class_entry_unmarshall` read the name at the start of a record up to
a NUL, `{` or `[`, wherever the record ends. A name of an instance that is a code of the string index is replaced
by the text of the code; the name of a class always is a code.

* `scanName`, `instEntryName`, `classEntryName` — the name of an entry as the bytes from its record on give it.
* `EntryLoad`, `kndClassInstEntryUnmarshall`, `kndClassEntryUnmarshall` — the two callbacks.
* `Passed` — the bytes from a record on that the payload reader passes to its callback.
* `entryNames_own_iff` — **a name depends on the bytes of its record alone** if and only if the record has a
  delimiter or lies in a scan list. -/

namespace Knowdy

open Checked

/-! ## (1) Names -/

/-- A byte at which the scan of a name stops: NUL, `{` or `[`. -/
def isDelimiter (c : UInt8) : Bool := c = 0 || c = 123 || c = 91

/-- The scan of a name in the memory from a record on. -/
def scanName : List UInt8 → GspM Name
  | [] => .fault .blockRead
  | c :: mem => if isDelimiter c then .ok [] else scanName mem >>= fun name => .ok (c :: name)

/-- The name of a class instance: a short name that `str_idx` knows is a code. -/
def instEntryName (strIdx : SharedSet CharSeq) (name : Name) : GspM (Name × Option CharSeq) := do
  .ensure .format (name ≠ [])
  if name.length ≤ idSize then
    match kndSharedSetGet strIdx name with
    | .ok seq => return (seq.val, some seq)
    | .error _ => return (name, none)
  else return (name, none)

/-- The name of a class is a code. -/
def classEntryName (strIdx : SharedSet CharSeq) (name : Name) : GspM (Name × Option CharSeq) := do
  .ensure .format (name ≠ [])
  .ensure .format (name.length ≤ idSize)
  match kndSharedSetGet strIdx name with
  | .ok seq => return (seq.val, some seq)
  | .error e => .err e

/-- The scan of a memory with a delimiter. -/
theorem scanName_eq {mem : List UInt8} (h : ∃ c ∈ mem, isDelimiter c) :
    scanName mem = .ok (mem.takeWhile fun c => !isDelimiter c) := by
  induction mem with
  | nil =>
      obtain ⟨c, hc, -⟩ := h
      cases hc
  | cons c mem ih =>
      rw [scanName]
      cases hc : isDelimiter c with
      | true => rw [if_pos rfl, List.takeWhile_cons_of_neg (by simp [hc])]
      | false =>
          rw [if_neg (by simp), List.takeWhile_cons_of_pos (by simp [hc]), ih, ok_bind]
          obtain ⟨d, hd, hdelim⟩ := h
          rcases List.mem_cons.mp hd with rfl | hd
          · rw [hc] at hdelim
            cases hdelim
          · exact ⟨d, hd, hdelim⟩

/-- The scan of a memory that ends with a NUL. -/
theorem scanName_append_nul (mem : List UInt8) :
    scanName (mem ++ [0]) = .ok ((mem ++ [0]).takeWhile fun c => !isDelimiter c) :=
  scanName_eq ⟨0, by simp, rfl⟩

/-! ## (2) The callbacks -/

/-- `struct kndClassInstEntry` and `struct kndClassEntry`, as far as their index reads them. -/
structure IdxEntry where
  /-- `id` and `id_size`. -/
  id : List UInt8
  /-- `name` and `name_size`. -/
  name : Name
  /-- `seq`. -/
  seq : Option CharSeq

/-- The two indices that a load fills, and its free pages. -/
structure EntryLoad where
  /-- `inst_name_idx` of the blueprint, or `class_name_idx`. -/
  nameIdx : SharedDict IdxEntry := kndSharedDictNew IdxEntry mediumDictSize
  /-- `inst_idx` of the blueprint, or `class_idx`. -/
  idx : SharedSet IdxEntry := {}
  /-- The free `KND_MEMPAGE_SMALL` pages of `task->user_ctx->mempool`. -/
  smallPages : Nat
  /-- `task->mempool`. -/
  mempool : MemPool

/-- The two registrations of an entry, by name and by id. -/
def registerEntry (entry : IdxEntry) (self : EntryLoad) : GspM EntryLoad :=
  match kndSharedDictSet self.nameIdx self.mempool entry.name entry none false with
  | (.error e, _) => .err e
  | (.ok (_, nameIdx), mempool) =>
      match kndSharedSetAdd self.idx entry.id entry with
      | (.error e, _) => .err e
      | (.ok (), idx) => .ok { self with nameIdx, mempool, idx }

/-- The common body of the two callbacks: a new entry, its name, its registrations. -/
def entryUnmarshall (entryName : Name → GspM (Name × Option CharSeq)) : ElemUnmarshallCb EntryLoad :=
  fun id mem _ self => do
    .ensure .nomem (self.smallPages ≠ 0)
    let name ← scanName mem
    let (name, seq) ← entryName name
    registerEntry { id, name, seq } { self with smallPages := self.smallPages - 1 }

/-- What a call that returns has done: the entry is in both indices, under a name and an id that were free. -/
theorem entryUnmarshall_registers {entryName : Name → GspM (Name × Option CharSeq)} {id mem : List UInt8} {n : Nat}
    {self self' : EntryLoad} (h : entryUnmarshall entryName id mem n self = .ok self') :
    ∃ entry : IdxEntry, entry.id = id ∧ (scanName mem >>= entryName) = .ok (entry.name, entry.seq) ∧
      ¬self.nameIdx.Taken entry.name ∧ self'.nameIdx = self.nameIdx.push ⟨.valid, entry.name, entry, []⟩ ∧
      kndSharedSetAdd self.idx id entry = (.ok (), self'.idx) := by
  rw [entryUnmarshall] at h
  obtain ⟨_, -, h⟩ := Checked.bind_eq_ok.mp h
  obtain ⟨name, hname, h⟩ := Checked.bind_eq_ok.mp h
  obtain ⟨⟨v, seq⟩, hp, h⟩ := Checked.bind_eq_ok.mp h
  refine ⟨⟨id, v, seq⟩, rfl, by rw [hname]; exact hp, ?_⟩
  simp only [registerEntry] at h
  cases hset : kndSharedDictSet self.nameIdx self.mempool v ⟨id, v, seq⟩ none false with
  | mk rc mempool =>
      rw [hset] at h
      cases rc with
      | error e => cases h
      | ok r =>
          cases hadd : kndSharedSetAdd self.idx id ⟨id, v, seq⟩ with
          | mk rc idx =>
              simp only [hadd] at h
              cases rc with
              | error e => cases h
              | ok u =>
                  cases h
                  obtain ⟨item, nameIdx⟩ := r
                  obtain ⟨hfree, rfl, rfl⟩ := kndSharedDictSet_ok hset
                  exact ⟨hfree, rfl, rfl⟩

/-- `knd_class_inst_entry_unmarshall`. -/
def kndClassInstEntryUnmarshall (strIdx : SharedSet CharSeq) : ElemUnmarshallCb EntryLoad :=
  entryUnmarshall (instEntryName strIdx)

/-- `knd_class_entry_unmarshall`. -/
def kndClassEntryUnmarshall (strIdx : SharedSet CharSeq) : ElemUnmarshallCb EntryLoad :=
  entryUnmarshall (classEntryName strIdx)

/-! ## (3) What the reader passes -/

/-- The layouts of a payload block. -/
inductive PayloadLayout where
  /-- Records with keys and separators. -/
  | scan
  /-- A directory that lists its keys. -/
  | keyed
  /-- A directory with a cell for each slot. -/
  | slots
  deriving DecidableEq, Repr

/-- The layout that the last two bytes of a payload block announce. -/
def payloadLayout (block : List UInt8) : PayloadLayout :=
  if layoutByte block = 0 then .slots else if cellWidth block = 0 then .scan else .keyed

/-- The callback that stops at a call with these bytes and this size. The reader itself never returns
`knd_FAIL`. -/
def stopAt (mem : List UInt8) (size : Nat) : ElemUnmarshallCb Unit :=
  fun _ mem' size' _ => if mem' = mem ∧ size' = size then .err .fail else .ok ()

/-- **The reader passes the record `bytes`** of a payload block of this layout, with the memory `mem` from the
record on. -/
def Passed (layout : PayloadLayout) (bytes mem : List UInt8) : Prop :=
  ∃ block id, block.length < 2 ^ 63 ∧ payloadLayout block = layout ∧ mem.take bytes.length = bytes ∧
    unmarshallElems {} block id (stopAt mem bytes.length) () = .err .fail

/-- Where a record of a scan list ends. -/
def EndsAtNul (mem : List UInt8) (size : Nat) : Prop := 0 ∉ mem.take size ∧ mem[size]? = some 0

theorem stopAt_eq_err {id mem mem' : List UInt8} {size size' : Nat} {e : KndErr}
    (h : stopAt mem size id mem' size' () = .err e) : mem' = mem ∧ size' = size := by
  rw [stopAt] at h
  split_ifs at h with heq
  exact heq

/-- A value that ends where a separator or the end of the list stands. -/
theorem endsAtNul_drop {block : List UInt8} {b c : Nat} (hbc : b ≤ c) (hc : block[c]? = some 0)
    (hnul : 0 ∉ slice block b (c - b)) : EndsAtNul (block.drop b ++ [0]) (c - b) := by
  obtain ⟨hlt, hget⟩ := List.getElem?_eq_some_iff.mp hc
  have hlen : c - b < (block.drop b).length := by
    rw [List.length_drop]
    omega
  refine ⟨?_, ?_⟩
  · rwa [List.take_append_of_le_length hlen.le]
  · rw [List.getElem?_append_left hlen, List.getElem?_drop, Nat.add_sub_cancel' hbc, hc]

/-- A record that the loop of a linear scan passes. -/
theorem endsAtNul_of_scanLoop {block id mem : List UInt8} {size remainder c b : Nat} {key : UInt8}
    {dir : DirInfo} (hend : block[c + remainder]? = some 0) (hpos : 1 ≤ b) (hbc : b ≤ c)
    (hnul : 0 ∉ slice block b (c - b))
    (h : scanLoop block id (stopAt mem size) remainder c b key dir () = .err .fail) :
    EndsAtNul mem size ∧ size + 1 ≤ c + remainder := by
  induction remainder using Nat.strong_induction_on generalizing c b key dir with
  | _ remainder ih =>
      cases remainder with
      | zero =>
          rw [scanLoop] at h
          rcases bind_eq_err.mp h with hcall | ⟨s, -, hk⟩
          · obtain ⟨rfl, rfl⟩ := stopAt_eq_err hcall
            exact ⟨endsAtNul_drop hbc hend hnul, by omega⟩
          · cases hk
      | succ r =>
          rw [scanLoop] at h
          rcases bind_eq_err.mp h with hch | ⟨ch, hch, h⟩
          · rw [blockAt] at hch
            split at hch <;> cases hch
          have hget : block[c]? = some ch := by
            rw [blockAt] at hch
            split at hch
            · cases hch
            · rename_i ch' hch'
              cases hch
              exact hch'
          split_ifs at h with h0
          · subst h0
            rcases bind_eq_err.mp h with hcall | ⟨s, -, h⟩
            · obtain ⟨rfl, rfl⟩ := stopAt_eq_err hcall
              exact ⟨endsAtNul_drop hbc hget hnul, by omega⟩
            · -- the next record starts behind its key
              rcases bind_eq_err.mp h with hkey | ⟨key', -, h⟩
              · rw [blockAt] at hkey
                split at hkey <;> cases hkey
              cases r with
              | zero => cases h
              | succ r =>
                  have hnext := ih r (by omega) (by rwa [show c + 2 + r = c + (r + 1 + 1) by omega])
                    (by omega) le_rfl (by simp [slice]) h
                  exact ⟨hnext.1, by omega⟩
          · have hlt := (List.getElem?_eq_some_iff.mp hget).1
            have hslice : slice block b (c + 1 - b) = slice block b (c - b) ++ [ch] := by
              rw [slice, slice, show c + 1 - b = c - b + 1 by omega, List.take_add_one,
                List.getElem?_drop, Nat.add_sub_cancel' hbc, hget]
              rfl
            have hnext := ih r (by omega) (by rwa [show c + 1 + r = c + (r + 1) by omega]) hpos
              (by omega) (by rw [hslice, List.mem_append, List.mem_singleton]; tauto) h
            exact ⟨hnext.1, by omega⟩

/-- The records that the layouts can hold. A directory holds no empty record, and its cells hold no size from
`2 ^ 31` on. -/
def Recordable : PayloadLayout → List UInt8 → Prop
  | .scan, bytes => 0 ∉ bytes ∧ bytes.length + 3 < 2 ^ 63
  | .keyed, bytes | .slots, bytes => bytes ≠ [] ∧ bytes.length < 2 ^ 31

instance : (layout : PayloadLayout) → (bytes : List UInt8) → Decidable (Recordable layout bytes)
  | .scan, bytes => inferInstanceAs (Decidable (0 ∉ bytes ∧ bytes.length + 3 < 2 ^ 63))
  | .keyed, bytes | .slots, bytes => inferInstanceAs (Decidable (bytes ≠ [] ∧ bytes.length < 2 ^ 31))

theorem blockAt_ne_err (block : List UInt8) (pos : Nat) (e : KndErr) : blockAt block pos ≠ .err e := by
  rw [blockAt]
  split <;> simp

theorem blockAt_ok {block : List UInt8} {pos : Nat} {c : UInt8} (h : blockAt block pos = .ok c) :
    block[pos]? = some c := by
  rw [blockAt] at h
  split at h
  · cases h
  · rename_i c' hc
    cases h
    exact hc

theorem byteAt_of_some {block : List UInt8} {pos : Nat} {c : UInt8} (h : block[pos]? = some c) :
    byteAt block pos = c := by
  rw [byteAt, List.getD, h]
  rfl

/-- Reading a cell returns no error, and the size is a number of the block. -/
theorem readCell_ne_err (block : List UInt8) (base : Nat) (useKeys : Bool) (w i : Nat) (e : KndErr) :
    readCell block base useKeys w i ≠ .err e := by
  have hunpack : ∀ pos, unpackAt block pos w ≠ .err e := by
    intro pos h
    rcases bind_eq_err.mp h with hreq | ⟨_, -, hk⟩
    · exact require_ne_err hreq
    · cases hk
  intro h
  rw [readCell] at h
  cases useKeys with
  | true =>
      rw [if_pos rfl] at h
      rcases bind_eq_err.mp h with hval | ⟨_, -, h⟩
      · exact hunpack _ hval
      · rcases bind_eq_err.mp h with hkey | ⟨_, -, hk⟩
        · exact blockAt_ne_err _ _ _ hkey
        · cases hk
  | false =>
      rw [if_neg (by simp)] at h
      rcases bind_eq_err.mp h with hval | ⟨_, -, hk⟩
      · exact hunpack _ hval
      · cases hk

theorem unpackAt_ok {block : List UInt8} {pos w n : Nat} (h : unpackAt block pos w = .ok n) :
    n < 2 ^ 31 ∨ 2 ^ 63 ≤ n := by
  rw [unpackAt] at h
  by_cases hp : pos + unpackWidth w ≤ block.length
  · rw [require_of hp] at h
    cases h
    exact kndUnpackInt_lt_or_le _ _
  · rw [require_of_not hp] at h
    cases h

theorem readCell_ok {block : List UInt8} {base : Nat} {useKeys : Bool} {w i : Nat} {cell : DirCell}
    (h : readCell block base useKeys w i = .ok cell) : cell.1 < 2 ^ 31 ∨ 2 ^ 63 ≤ cell.1 := by
  rw [readCell] at h
  cases useKeys with
  | true =>
      rw [if_pos rfl] at h
      obtain ⟨n, hval, h⟩ := Checked.bind_eq_ok.mp h
      obtain ⟨key, -, h⟩ := Checked.bind_eq_ok.mp h
      cases h
      exact unpackAt_ok hval
  | false =>
      rw [if_neg (by simp)] at h
      obtain ⟨n, hval, h⟩ := Checked.bind_eq_ok.mp h
      cases h
      exact unpackAt_ok hval

/-- The element at which a directory cell stops. -/
theorem size_of_useElemCell {block id mem : List UInt8} {size : Nat} {st : ElemsState Unit} {cell : DirCell}
    (h : useElemCell block id (stopAt mem size) st cell = .err .fail) :
    size ≠ 0 ∧ size ≤ st.remainder ∧ cell.1 = size := by
  obtain ⟨n, key, slot⟩ := cell
  rw [useElemCell] at h
  rcases bind_eq_err.mp h with hpush | ⟨id', -, h⟩
  · rw [pushId] at hpush
    rcases bind_eq_err.mp hpush with hreq | ⟨_, -, hk⟩
    · exact absurd hreq require_ne_err
    · cases hk
  split_ifs at h with hn
  rcases bind_eq_err.mp h with hlim | ⟨_, hle, h⟩
  · cases (ensure_eq_err.mp hlim).2
  have hle' : n ≤ st.remainder := by
    by_contra hnot
    rw [ensure_of_not hnot] at hle
    cases hle
  cases slot with
  | none => cases h
  | some j =>
      rcases bind_eq_err.mp h with hcall | ⟨_, -, hk⟩
      · obtain ⟨-, rfl⟩ := stopAt_eq_err hcall
        exact ⟨hn, hle', rfl⟩
      · cases hk

/-- A cell takes its element from the bytes that remain. -/
theorem remainder_of_useElemCell {σ : Type} {cb : ElemUnmarshallCb σ} {block id : List UInt8}
    {st st' : ElemsState σ} {cell : DirCell} (h : useElemCell block id cb st cell = .ok st') :
    st'.remainder ≤ st.remainder := by
  obtain ⟨n, key, slot⟩ := cell
  rw [useElemCell] at h
  obtain ⟨id', -, h⟩ := Checked.bind_eq_ok.mp h
  split_ifs at h with hn
  · cases h
    exact le_rfl
  obtain ⟨_, -, h⟩ := Checked.bind_eq_ok.mp h
  cases slot with
  | none => cases h
  | some j =>
      obtain ⟨s, -, h⟩ := Checked.bind_eq_ok.mp h
      cases h
      exact Nat.sub_le _ _

/-- The sizes that a directory passes. -/
theorem size_of_unmarshallDirectory {block id mem : List UInt8} {size w num footer : Nat} {useKeys : Bool}
    (hblock : block.length < 2 ^ 63)
    (h : unmarshallDirectory {} block id (stopAt mem size) useKeys w num footer () = .err .fail) :
    size ≠ 0 ∧ size < 2 ^ 31 := by
  rw [unmarshallDirectory] at h
  rcases bind_eq_err.mp h with hlim | ⟨_, -, h⟩
  · cases (ensure_eq_err.mp hlim).2
  rcases bind_eq_err.mp h with hloop | ⟨st, -, hk⟩
  swap
  · cases hk
  -- no round adds to `remainder`, so every size lies in the block
  have hround : ∀ (l : List Nat) (st : ElemsState Unit), st.remainder < 2 ^ 63 →
      l.foldlM (fun st i => readCell block
        (block.length - (num * dirFieldSize useKeys w + footer)) useKeys w i >>=
          useElemCell block id (stopAt mem size) st) st = .err .fail → size ≠ 0 ∧ size < 2 ^ 31 := by
    intro l
    induction l with
    | nil => exact fun _ _ h => by cases h
    | cons i l ih =>
        intro st hst hl
        rw [List.foldlM_cons] at hl
        rcases bind_eq_err.mp hl with hfail | ⟨st', hok, hl⟩
        · rcases bind_eq_err.mp hfail with hcell | ⟨cell, hcell, huse⟩
          · exact absurd hcell (readCell_ne_err _ _ _ _ _ _)
          · obtain ⟨hne, hle, heq⟩ := size_of_useElemCell huse
            have hsize := readCell_ok hcell
            rw [heq] at hsize
            exact ⟨hne, by omega⟩
        · refine ih st' ?_ hl
          obtain ⟨cell, -, huse⟩ := Checked.bind_eq_ok.mp hok
          exact lt_of_le_of_lt (remainder_of_useElemCell huse) hst
  refine hround _ _ ?_ hloop
  exact lt_of_le_of_lt (Nat.sub_le _ _) hblock

/-- **What the reader passes**: records that the layout can hold, and in a scan list a NUL behind them. -/
theorem Passed.recordable {layout : PayloadLayout} {bytes mem : List UInt8} (h : Passed layout bytes mem) :
    Recordable layout bytes ∧ (layout = .scan → mem[bytes.length]? = some 0) := by
  obtain ⟨block, id, hblock, hlayout, htake, hrun⟩ := h
  rw [unmarshallElems] at hrun
  rcases bind_eq_err.mp hrun with hreq | ⟨_, -, hrun⟩
  · exact absurd hreq require_ne_err
  rcases bind_eq_err.mp hrun with hspec | ⟨spec, hspec, hrun⟩
  · exact absurd hspec (blockAt_ne_err _ _ _)
  rcases bind_eq_err.mp hrun with hlim | ⟨_, htwo, hrun⟩
  · cases (ensure_eq_err.mp hlim).2
  rcases bind_eq_err.mp hrun with hcell | ⟨cell, hcell, hrun⟩
  · exact absurd hcell (blockAt_ne_err _ _ _)
  rcases bind_eq_err.mp hrun with hlim | ⟨_, -, hrun⟩
  · cases (ensure_eq_err.mp hlim).2
  have hlast : layoutByte block = spec := byteAt_of_some (blockAt_ok hspec)
  have hwidth : byteAt block (block.length - 2) = cell := byteAt_of_some (blockAt_ok hcell)
  have hlen : 2 ≤ block.length := by
    by_contra hnot
    rw [ensure_of_not hnot] at htwo
    cases htwo
  rw [payloadLayout, hlast, cellWidth, hwidth] at hlayout
  -- the bytes of the record are those that the callback is told to read
  have hdir : bytes.length ≠ 0 ∧ bytes.length < 2 ^ 31 → bytes ≠ [] ∧ bytes.length < 2 ^ 31 :=
    fun h => ⟨fun hnil => h.1 (by rw [hnil]; rfl), h.2⟩
  split_ifs at hrun hlayout with hslots hscan hscan' hscan'
  · subst hlayout
    exact ⟨hdir (size_of_unmarshallDirectory hblock hrun), fun h => by cases h⟩
  · subst hlayout
    rcases bind_eq_err.mp hrun with hloop | ⟨r, -, hk⟩
    swap
    · cases hk
    rw [payloadLinearScan] at hloop
    rcases bind_eq_err.mp hloop with hreq | ⟨_, hone, hloop⟩
    · exact absurd hreq require_ne_err
    have h3 : 3 ≤ block.length := by
      by_contra hnot
      rw [require_of_not (by omega)] at hone
      cases hone
    rcases bind_eq_err.mp hloop with hkey | ⟨key, -, hloop⟩
    · exact absurd hkey (blockAt_ne_err _ _ _)
    rcases bind_eq_err.mp hloop with hpush | ⟨_, -, hloop⟩
    · rcases bind_eq_err.mp hpush with hreq | ⟨_, -, hk⟩
      · exact absurd hreq require_ne_err
      · cases hk
    have hend : block[1 + (block.length - 2 - 1)]? = some 0 := by
      rw [show 1 + (block.length - 2 - 1) = block.length - 2 by omega, ← hscan]
      exact blockAt_ok hcell
    obtain ⟨hnul, hsize⟩ := endsAtNul_of_scanLoop hend le_rfl le_rfl (by simp [slice]) hloop
    refine ⟨⟨?_, by omega⟩, fun _ => hnul.2⟩
    rw [← htake]
    exact hnul.1
  · exact absurd (by rw [hscan]; rfl) hscan'
  · exact absurd (UInt8.toNat_inj.mp hscan') hscan
  · subst hlayout
    rcases bind_eq_err.mp hrun with hreq | ⟨_, -, hrun⟩
    · exact absurd hreq require_ne_err
    rcases bind_eq_err.mp hrun with hnum | ⟨num, -, hrun⟩
    · exact absurd hnum (blockAt_ne_err _ _ _)
    rcases bind_eq_err.mp hrun with hlim | ⟨_, -, hrun⟩
    · cases (ensure_eq_err.mp hlim).2
    exact ⟨hdir (size_of_unmarshallDirectory hblock hrun), fun h => by cases h⟩

/-! ## (4) Two blocks with one record -/

theorem byteAt_append_right (pre tail : List UInt8) (k : Nat) :
    byteAt (pre ++ tail) (pre.length + k) = byteAt tail k := by
  rw [byteAt, byteAt, List.getD, List.getD, List.getElem?_append_right (Nat.le_add_right _ _),
    Nat.add_sub_cancel_left]

theorem slice_append_right (pre tail : List UInt8) (k n : Nat) :
    slice (pre ++ tail) (pre.length + k) n = slice tail k n := by
  rw [slice, slice, List.drop_append, List.drop_eq_nil_of_le (Nat.le_add_right _ _), List.nil_append,
    Nat.add_sub_cancel_left]

/-- The first cell of a directory passes its record. -/
theorem unmarshallDirectory_first {block bytes : List UInt8} {useKeys : Bool} {num footer base : Nat}
    (hne : bytes ≠ []) (hfooter : 1 ≤ footer) (hnum : 0 < num)
    (hlen : block.length = base + (num * dirFieldSize useKeys 4 + footer)) (hroom : bytes.length ≤ base)
    (hcell : dirCell block base useKeys 4 0 = (bytes.length, 48, some 0)) :
    unmarshallDirectory {} block [] (stopAt (block ++ [0]) bytes.length) useKeys 4 num footer ()
      = .err .fail := by
  obtain ⟨num, rfl⟩ := Nat.exists_eq_add_of_lt hnum
  have hunfold : unmarshallDirectory {} block [] (stopAt (block ++ [0]) bytes.length) useKeys 4 (0 + num + 1)
        footer ()
      = (Checked.ensure .limit ((0 + num + 1) * dirFieldSize useKeys 4 + footer ≤ block.length) >>= fun _ =>
          foldCells block (block.length - ((0 + num + 1) * dirFieldSize useKeys 4 + footer)) useKeys 4
            (0 + num + 1) (useElemCell block [] (stopAt (block ++ [0]) bytes.length))
            { dir := {}, e := 0
              remainder := block.length - ((0 + num + 1) * dirFieldSize useKeys 4 + footer), s := () }
          >>= fun st => .ok (st.dir, st.s)) := by
    cases useKeys <;> rfl
  have hcall : useElemCell block [] (stopAt (block ++ [0]) bytes.length)
      { dir := {}, e := 0, remainder := base, s := () } (bytes.length, 48, some 0) = .err .fail := by
    rw [useElemCell, pushId_of_lt (by decide), ok_bind,
      if_neg (by rwa [List.length_eq_zero_iff]), ensure_of hroom, ok_bind]
    simp [stopAt]
  rw [hunfold, ensure_of (by omega), ok_bind, show block.length - _ = base by omega,
    foldCells_eq_foldlM (by decide) (fun _ => by decide) (by rw [if_neg (by decide)]; omega), dirCells,
    List.range_succ_eq_map,
    List.map_cons, List.foldlM_cons, hcell, hcall]
  rfl

/-- A linear scan over bytes without a separator passes them as one record. -/
theorem scanLoop_of_no_nul {σ : Type} {block id : List UInt8} {cb : ElemUnmarshallCb σ} {remainder c b : Nat}
    {key : UInt8} {dir : DirInfo} {s : σ} (hlen : c + remainder ≤ block.length)
    (hnul : 0 ∉ slice block c remainder) :
    scanLoop block id cb remainder c b key dir s
      = scanLoop block id cb 0 (c + remainder) b key dir s := by
  induction remainder generalizing c with
  | zero => rfl
  | succ r ih =>
      rw [slice_succ (by omega), List.mem_cons, not_or] at hnul
      have hround : scanLoop block id cb (r + 1) c b key dir s = scanLoop block id cb r (c + 1) b key dir s := by
        rw [scanLoop, blockAt_eq (by omega), ok_bind, if_neg (Ne.symm hnul.1)]
      rw [hround, ih (by omega) hnul.2, Nat.add_right_comm, Nat.add_assoc]

/-- The payload reader, in the words of the format. -/
def readLayout {σ : Type} (block id : List UInt8) (cb : ElemUnmarshallCb σ) (s : σ) :
    PayloadLayout → GspM (DirInfo × σ)
  | .scan => payloadLinearScan {} block (block.length - 2) id cb s >>= fun r =>
      .ok ({ r.1 with elemsLinearScan := true }, r.2)
  | .keyed => Checked.ensure .limit (cellCount block ≤ radixBase) >>= fun _ =>
      unmarshallDirectory {} block id cb true (cellWidth block) (cellCount block) 3 s
  | .slots => unmarshallDirectory {} block id cb false (cellWidth block) radixBase 2 s

theorem unmarshallElems_eq_readLayout {σ : Type} {block id : List UInt8} {cb : ElemUnmarshallCb σ} {s : σ}
    (hlen : 3 ≤ block.length) (hw : cellWidth block ≤ uintSize) :
    unmarshallElems {} block id cb s = readLayout block id cb s (payloadLayout block) := by
  have hspec : blockAt block (block.length - 1) = .ok (layoutByte block) := blockAt_eq (by omega)
  have hcell : blockAt block (block.length - 2) = .ok (byteAt block (block.length - 2)) :=
    blockAt_eq (by omega)
  have hnum : blockAt block (block.length - 3) = .ok (byteAt block (block.length - 3)) :=
    blockAt_eq (by omega)
  have hw' : (byteAt block (block.length - 2)).toNat ≤ uintSize := hw
  rw [unmarshallElems, require_of (by omega), ok_bind, hspec, ok_bind, ensure_of (by omega), ok_bind, hcell,
    ok_bind, ensure_of hw', ok_bind, payloadLayout]
  by_cases hslots : layoutByte block = 0
  · rw [if_pos hslots, if_pos hslots]
    rfl
  rw [if_neg hslots, if_neg hslots]
  by_cases hscan : byteAt block (block.length - 2) = 0
  · rw [if_pos hscan, if_pos (by rw [cellWidth, hscan]; rfl)]
    rfl
  · rw [if_neg hscan, if_neg (fun h => hscan (UInt8.toNat_inj.mp h) : ¬cellWidth block = 0),
      require_of hlen, ok_bind, hnum]
    rfl

/-- What a sample block has before its cells: the record `bytes`; in a directory the next record is nine times
the byte `c`. -/
def samplePre : PayloadLayout → List UInt8 → UInt8 → List UInt8
  | .scan, bytes, _ => 48 :: bytes
  | _, bytes, c => bytes ++ List.replicate 9 c

/-- The cells of a sample directory for a record of `n` bytes. -/
def sampleCells : PayloadLayout → Nat → List UInt8
  | .scan, _ => []
  | .keyed, n => 48 :: kndPackInt n 4 ++ [49, 0, 0, 0, 9]
  | .slots, n => kndPackInt n 4 ++ ([0, 0, 0, 9] ++ List.replicate 240 0)

/-- The last bytes of a sample block. -/
def sampleSpec : PayloadLayout → List UInt8
  | .scan => [0, 1]
  | .keyed => [2, 4, 1]
  | .slots => [4, 0]

/-- A payload block with the record `bytes`. -/
def sampleBlock (layout : PayloadLayout) (bytes : List UInt8) (c : UInt8) : List UInt8 :=
  samplePre layout bytes c ++ sampleCells layout bytes.length ++ sampleSpec layout

/-- The bytes from its record on. -/
def sampleMem (layout : PayloadLayout) (bytes : List UInt8) (c : UInt8) : List UInt8 :=
  (sampleBlock layout bytes c).drop (if layout = .scan then 1 else 0) ++ [0]

section Sample

variable (layout : PayloadLayout) (bytes : List UInt8) (c : UInt8)

/-- The last bytes of a block are those of its tail. -/
theorem byteAt_end {pre tail : List UInt8} {k : Nat} (h : k ≤ tail.length) :
    byteAt (pre ++ tail) ((pre ++ tail).length - k) = byteAt tail (tail.length - k) := by
  rw [List.length_append, Nat.add_sub_assoc h, byteAt_append_right]

/-- A sample block: its layout, its cell width and its number of cells. -/
theorem layout_sampleBlock :
    payloadLayout (sampleBlock layout bytes c) = layout ∧
      cellWidth (sampleBlock layout bytes c) = (if layout = .scan then 0 else 4) ∧
      (layout = .keyed → cellCount (sampleBlock layout bytes c) = 2) := by
  have hend : ∀ k ≤ (sampleSpec layout).length,
      byteAt (sampleBlock layout bytes c) ((sampleBlock layout bytes c).length - k)
        = byteAt (sampleSpec layout) ((sampleSpec layout).length - k) := fun _ hk => byteAt_end hk
  have htwo : 2 ≤ (sampleSpec layout).length := by cases layout <;> decide
  rw [payloadLayout, layoutByte, cellWidth, hend 1 (le_trans (by decide) htwo), hend 2 htwo]
  cases layout with
  | scan => exact ⟨rfl, rfl, fun h => by cases h⟩
  | keyed => exact ⟨rfl, rfl, fun _ => by rw [cellCount, hend 3 (by decide)]; rfl⟩
  | slots => exact ⟨rfl, rfl, fun h => by cases h⟩

theorem length_sampleBlock : (sampleBlock layout bytes c).length
    = bytes.length + (match layout with | .scan => 3 | .keyed => 22 | .slots => 259) := by
  have hpack : (kndPackInt bytes.length 4).length = 4 := rfl
  cases layout <;> simp only [sampleBlock, samplePre, sampleCells, sampleSpec, List.length_append,
    List.length_cons, List.length_nil, List.length_replicate, hpack]

/-- The first cell of a sample directory. -/
theorem dirCell_sample (hlt : bytes.length < 2 ^ 31) :
    dirCell (sampleBlock .keyed bytes c) (bytes.length + 9) true 4 0 = (bytes.length, 48, some 0) ∧
      dirCell (sampleBlock .slots bytes c) (bytes.length + 9) false 4 0 = (bytes.length, 48, some 0) := by
  have hpre : (bytes ++ List.replicate 9 c).length = bytes.length + 9 := by simp
  have hunpack : kndUnpackInt (kndPackInt bytes.length 4) 4 = bytes.length :=
    kndUnpackInt_kndPackInt (by decide) (by decide) (by omega) hlt
  constructor
  · have hslice := slice_append_right (bytes ++ List.replicate 9 c)
      (sampleCells .keyed bytes.length ++ sampleSpec .keyed) 1 4
    have hkey := byteAt_append_right (bytes ++ List.replicate 9 c)
      (sampleCells .keyed bytes.length ++ sampleSpec .keyed) 0
    rw [hpre, ← List.append_assoc] at hslice hkey
    have hbytes : slice (sampleCells .keyed bytes.length ++ sampleSpec .keyed) 1 4
        = kndPackInt bytes.length 4 := rfl
    rw [dirCell, if_pos rfl, Nat.zero_mul]
    exact Prod.ext ((congrArg (kndUnpackInt · 4) (hslice.trans hbytes)).trans hunpack)
      (Prod.ext hkey ((congrArg objIdBase hkey).trans rfl))
  · have hslice := slice_append_right (bytes ++ List.replicate 9 c)
      (sampleCells .slots bytes.length ++ sampleSpec .slots) 0 4
    rw [hpre, ← List.append_assoc] at hslice
    have hbytes : slice (sampleCells .slots bytes.length ++ sampleSpec .slots) 0 4
        = kndPackInt bytes.length 4 := rfl
    rw [dirCell, if_neg (by decide), Nat.zero_mul]
    exact Prod.ext ((congrArg (kndUnpackInt · 4) (hslice.trans hbytes)).trans hunpack) rfl

theorem sampleMem_scan : sampleMem .scan bytes c = bytes ++ [0, 1, 0] := by
  simp [sampleMem, sampleBlock, samplePre, sampleCells, sampleSpec]

theorem sampleMem_directory (hlayout : layout ≠ .scan) : ∃ rest,
    sampleMem layout bytes c = bytes ++ (List.replicate 9 c ++ rest ++ [0]) := by
  refine ⟨sampleCells layout bytes.length ++ sampleSpec layout, ?_⟩
  have hpre : samplePre layout bytes c = bytes ++ List.replicate 9 c := by
    cases layout with
    | scan => exact absurd rfl hlayout
    | keyed => rfl
    | slots => rfl
  rw [sampleMem, if_neg hlayout, List.drop_zero, sampleBlock, hpre]
  simp only [List.append_assoc]

/-- A linear scan passes the record of a sample block. -/
theorem payloadLinearScan_sample (h : Recordable .scan bytes) :
    payloadLinearScan {} (sampleBlock .scan bytes c) ((sampleBlock .scan bytes c).length - 2) []
      (stopAt (sampleMem .scan bytes c) bytes.length) () = .err .fail := by
  have hlen : (sampleBlock .scan bytes c).length = bytes.length + 3 := length_sampleBlock .scan bytes c
  have hblock : sampleBlock .scan bytes c = [48] ++ (bytes ++ [0, 1]) := by
    simp [sampleBlock, samplePre, sampleCells, sampleSpec]
  have hslice : slice (sampleBlock .scan bytes c) 1 bytes.length = bytes := by
    rw [hblock]
    exact (slice_append_right [48] (bytes ++ [0, 1]) 0 bytes.length).trans
      (by rw [slice, List.drop_zero, List.take_left])
  rw [payloadLinearScan, require_of (by omega), ok_bind, blockAt_eq (by omega), ok_bind,
    pushId_of_lt (by decide), ok_bind, show (sampleBlock .scan bytes c).length - 2 - 1 = bytes.length by omega,
    scanLoop_of_no_nul (by omega) (by rw [hslice]; exact h.1), scanLoop, Nat.add_sub_cancel_left]
  simp [stopAt, sampleMem]

/-- **Every recordable record is passed**, in a directory before nine times any byte. -/
theorem passed_sampleMem (h : Recordable layout bytes) : Passed layout bytes (sampleMem layout bytes c) := by
  obtain ⟨hlayout, hwidth, hcount⟩ := layout_sampleBlock layout bytes c
  have hlen := length_sampleBlock layout bytes c
  have hread : ∀ cb : ElemUnmarshallCb Unit, unmarshallElems {} (sampleBlock layout bytes c) [] cb ()
      = readLayout (sampleBlock layout bytes c) [] cb () layout := by
    intro cb
    rw [unmarshallElems_eq_readLayout (by rw [hlen]; cases layout <;> simp)
      (by rw [hwidth]; split <;> decide), hlayout]
  refine ⟨sampleBlock layout bytes c, [], ?_, hlayout, ?_, ?_⟩
  · rw [hlen]
    cases layout with
    | scan => exact h.2
    | keyed =>
        have hlt := h.2
        show bytes.length + 22 < _
        omega
    | slots =>
        have hlt := h.2
        show bytes.length + 259 < _
        omega
  · by_cases hscan : layout = .scan
    · rw [hscan, sampleMem_scan, List.take_left]
    · obtain ⟨rest, hmem⟩ := sampleMem_directory layout bytes c hscan
      rw [hmem, List.take_left]
  · rw [hread]
    cases layout with
    | scan =>
        rw [readLayout, payloadLinearScan_sample bytes c h]
        rfl
    | keyed =>
        rw [readLayout, hcount rfl, hwidth, ensure_of (by decide), ok_bind]
        exact unmarshallDirectory_first h.1 (by decide) (by decide) (by rw [hlen]; rfl)
          (Nat.le_add_right _ _) (dirCell_sample bytes c h.2).1
    | slots =>
        rw [readLayout, hwidth]
        exact unmarshallDirectory_first h.1 (by decide) (by decide) (by rw [hlen]; rfl)
          (Nat.le_add_right _ _) (dirCell_sample bytes c h.2).2

end Sample

/-! ## (5) Names of their own -/

/-- Two records give the same names, as an instance and as a class. -/
def SameNames (strIdx : SharedSet CharSeq) (mem₁ mem₂ : List UInt8) : Prop :=
  (scanName mem₁ >>= instEntryName strIdx) = (scanName mem₂ >>= instEntryName strIdx) ∧
    (scanName mem₁ >>= classEntryName strIdx) = (scanName mem₂ >>= classEntryName strIdx)

/-- The name of a record that ends at a delimiter, or has one. -/
theorem scanName_own {bytes mem : List UInt8} (htake : mem.take bytes.length = bytes)
    (h : (∃ c ∈ bytes, isDelimiter c) ∨ mem[bytes.length]? = some 0) :
    scanName mem = .ok (bytes.takeWhile fun c => !isDelimiter c) := by
  have hsplit : mem = bytes ++ mem.drop bytes.length := by
    conv_lhs => rw [← List.take_append_drop bytes.length mem, htake]
  by_cases hown : ∃ c ∈ bytes, isDelimiter c
  · -- the scan stops in the record
    have hne : ¬(bytes.takeWhile fun c => !isDelimiter c).length = bytes.length := by
      intro hlen
      obtain ⟨c, hc, hdelim⟩ := hown
      have hself := (List.takeWhile_prefix fun c => !isDelimiter c).eq_of_length hlen
      have hall := List.takeWhile_eq_self_iff.mp hself c hc
      rw [hdelim] at hall
      cases hall
    rw [hsplit, scanName_eq ?_, List.takeWhile_append, if_neg hne]
    obtain ⟨c, hc, hdelim⟩ := hown
    exact ⟨c, List.mem_append_left _ hc, hdelim⟩
  · -- the scan stops right behind the record
    obtain ⟨hlt, hnul⟩ := List.getElem?_eq_some_iff.mp (h.resolve_left hown)
    have hclean : ∀ c ∈ bytes, (!isDelimiter c) = true := by
      intro c hc
      rw [Bool.not_eq_true']
      exact Bool.eq_false_iff.mpr fun hdelim => hown ⟨c, hc, hdelim⟩
    rw [hsplit, scanName_eq ?_, List.takeWhile_append_of_pos hclean, List.drop_eq_getElem_cons hlt, hnul,
      List.takeWhile_cons_of_neg (by decide), List.append_nil, List.takeWhile_eq_self_iff.mpr hclean]
    exact ⟨0, by rw [← hsplit, ← hnul]; exact List.getElem_mem hlt, rfl⟩

/-- A record of a directory without a delimiter runs on: what follows it belongs to the name. -/
theorem scanName_sampleMem {layout : PayloadLayout} (hlayout : layout ≠ .scan) {bytes : List UInt8}
    (hclean : ¬∃ c ∈ bytes, isDelimiter c) {c : UInt8} (hc : isDelimiter c = false) :
    ∃ rest, scanName (sampleMem layout bytes c) = .ok (bytes ++ (List.replicate 9 c ++ rest)) := by
  obtain ⟨rest, hmem⟩ := sampleMem_directory layout bytes c hlayout
  have hbytes : ∀ c ∈ bytes, (!isDelimiter c) = true := by
    intro c hc
    rw [Bool.not_eq_true']
    exact Bool.eq_false_iff.mpr fun hdelim => hclean ⟨c, hc, hdelim⟩
  have hnext : ∀ d ∈ List.replicate 9 c, (!isDelimiter d) = true := by
    intro d hd
    rw [List.eq_of_mem_replicate hd, hc]
    rfl
  rw [hmem, ← List.append_assoc, scanName_append_nul, List.append_assoc, List.append_assoc,
    List.takeWhile_append_of_pos hbytes, List.takeWhile_append_of_pos hnext]
  exact ⟨_, rfl⟩

/-- A name of more than `KND_ID_SIZE` bytes is taken as it is. -/
theorem instEntryName_of_long (strIdx : SharedSet CharSeq) {name : Name} (h : idSize < name.length) :
    instEntryName strIdx name = .ok (name, none) := by
  have hne : name ≠ [] := by
    rintro rfl
    cases h
  rw [instEntryName, ensure_of hne, ok_bind, if_neg (Nat.not_le_of_lt h)]
  rfl

/-- Two records of a directory without a delimiter have different names when different bytes follow them. -/
theorem not_sameNames_sampleMem (strIdx : SharedSet CharSeq) {layout : PayloadLayout} (hlayout : layout ≠ .scan)
    {bytes : List UInt8} (hclean : ¬∃ c ∈ bytes, isDelimiter c) :
    ¬SameNames strIdx (sampleMem layout bytes 97) (sampleMem layout bytes 98) := by
  intro h
  obtain ⟨rest₁, hname₁⟩ := scanName_sampleMem hlayout hclean (c := 97) rfl
  obtain ⟨rest₂, hname₂⟩ := scanName_sampleMem hlayout hclean (c := 98) rfl
  have hlong : ∀ (c : UInt8) (rest : List UInt8),
      idSize < (bytes ++ (List.replicate 9 c ++ rest)).length := by
    intro c rest
    rw [List.length_append, List.length_append, List.length_replicate, idSize]
    omega
  have hinst := h.1
  rw [hname₁, hname₂, ok_bind, ok_bind, instEntryName_of_long strIdx (hlong _ _),
    instEntryName_of_long strIdx (hlong _ _), Checked.ok.injEq, Prod.mk.injEq, List.append_cancel_left_eq] at hinst
  cases hinst.1

/-- **A record gives a name of its own**: in any two payload blocks of these layouts that hold the record, it has
the same name and the same error, whatever follows it, if and only if the record has a delimiter, or both
layouts are scan lists, or a layout cannot hold it. -/
theorem entryNames_own_iff (strIdx : SharedSet CharSeq) (bytes : List UInt8) (l₁ l₂ : PayloadLayout) :
    (∀ mem₁ mem₂, Passed l₁ bytes mem₁ → Passed l₂ bytes mem₂ → SameNames strIdx mem₁ mem₂) ↔
      (∃ c ∈ bytes, isDelimiter c) ∨ (l₁ = .scan ∧ l₂ = .scan) ∨
        ¬Recordable l₁ bytes ∨ ¬Recordable l₂ bytes := by
  constructor
  · intro h
    by_contra hnot
    simp only [not_or, not_not, not_and] at hnot
    obtain ⟨hclean, hscan, hrec₁, hrec₂⟩ := hnot
    by_cases hl₁ : l₁ = .scan
    · -- the second block is a directory
      have hleft := h _ _ (passed_sampleMem l₁ bytes 97 hrec₁) (passed_sampleMem l₂ bytes 97 hrec₂)
      have hright := h _ _ (passed_sampleMem l₁ bytes 97 hrec₁) (passed_sampleMem l₂ bytes 98 hrec₂)
      exact not_sameNames_sampleMem strIdx (hscan hl₁) hclean
        ⟨hleft.1.symm.trans hright.1, hleft.2.symm.trans hright.2⟩
    · have hleft := h _ _ (passed_sampleMem l₁ bytes 97 hrec₁) (passed_sampleMem l₂ bytes 97 hrec₂)
      have hright := h _ _ (passed_sampleMem l₁ bytes 98 hrec₁) (passed_sampleMem l₂ bytes 97 hrec₂)
      exact not_sameNames_sampleMem strIdx hl₁ hclean
        ⟨hleft.1.trans hright.1.symm, hleft.2.trans hright.2.symm⟩
  · intro h mem₁ mem₂ h₁ h₂
    have hrec₁ := h₁.recordable
    have hrec₂ := h₂.recordable
    have hown : ∀ {l mem}, Passed l bytes mem → ((∃ c ∈ bytes, isDelimiter c) ∨ l = .scan) →
        scanName mem = .ok (bytes.takeWhile fun c => !isDelimiter c) := by
      intro l mem hpassed hcases
      have htake : mem.take bytes.length = bytes := by
        obtain ⟨_, _, -, -, htake, -⟩ := hpassed
        exact htake
      exact scanName_own htake (hcases.imp_right hpassed.recordable.2)
    have hcases : (∃ c ∈ bytes, isDelimiter c) ∨ (l₁ = .scan ∧ l₂ = .scan) := by
      rcases h with hdelim | hscan | hnot | hnot
      · exact .inl hdelim
      · exact .inr hscan
      · exact absurd hrec₁.1 hnot
      · exact absurd hrec₂.1 hnot
    rw [SameNames, hown h₁ (hcases.imp_right And.left), hown h₂ (hcases.imp_right And.right)]
    exact ⟨rfl, rfl⟩

/-- The payload block that holds the record `"a"` and, as the next one, 600 times the byte `c`. -/
def runOnBlocks (c : UInt8) : Blocks := fun i =>
  if i.val = 0 then [97] else if i.val = 1 then List.replicate 600 c else []

/-- **The next record becomes a part of the name**: the record `"a"` is read as `"abb…"` or as `"acc…"`. -/
theorem not_own_runOn : ¬∀ mem₁ mem₂, Passed .keyed [97] mem₁ → Passed .keyed [97] mem₂ →
    SameNames {} mem₁ mem₂ := by
  intro h
  have hb : Passed .keyed [97] (payloadBytes (runOnBlocks 98) ++ [0]) :=
    ⟨payloadBytes (runOnBlocks 98), [], by decide +kernel, by decide +kernel, by decide +kernel,
      by decide +kernel⟩
  have hc : Passed .keyed [97] (payloadBytes (runOnBlocks 99) ++ [0]) :=
    ⟨payloadBytes (runOnBlocks 99), [], by decide +kernel, by decide +kernel, by decide +kernel,
      by decide +kernel⟩
  have hsame := (h _ _ hb hc).1
  rw [scanName_append_nul, scanName_append_nul, ok_bind, ok_bind,
    instEntryName_of_long {} (by decide +kernel), instEntryName_of_long {} (by decide +kernel),
    Checked.ok.injEq] at hsame
  revert hsame
  decide +kernel

end Knowdy
