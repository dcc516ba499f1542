import Knowdy.KndSet
import Knowdy.SharedDict
import Knowdy.SharedSetRoundTrip

/-! # The string table of a repository

The interned strings of `knd_text.c` and `knd_text.gsp.c`: `str_dict` finds a charseq by its text, `str_idx` by
the id of its number, and `num_strs` is the next number. A snapshot stores `str_idx`; the table is rebuilt from
it when the repository is opened.

* `CharSeq`, `StrRepo` — a charseq and the part of a repository that interns strings.
* `kndCharseqFetch`, `kndCharseqDecode` — interning and decoding.
* `kndCharseqMarshall`, `kndCharseqUnmarshall`, `fetchStrIdx` — the snapshot file of the table.
* `kndCharseqFetch_cases` — what interning does. -/

namespace Knowdy

/-! ## (1) Data -/

/-- `struct kndCharSeq`. Two charseqs are the same object when they have the same address. -/
structure CharSeq where
  /-- The address of the memory page. -/
  addr : Nat
  /-- `val` and `val_size`. -/
  val : Name
  /-- `numid`, 0 in a page that was just allocated. -/
  numid : Nat := 0
  deriving DecidableEq, Repr

/-- The part of `struct kndRepo` that interns strings, with the memory pool of the task. -/
structure StrRepo where
  /-- `str_dict`. -/
  strDict : SharedDict CharSeq := kndSharedDictNew CharSeq mediumDictSize
  /-- `str_idx`. -/
  strIdx : SharedSet CharSeq := {}
  /-- `num_strs`. -/
  numStrs : Nat := 0
  /-- `task->user_ctx->mempool`. -/
  mempool : MemPool
  /-- The address of the next charseq. -/
  nextAddr : Nat := 0

/-! ## (2) Interning and decoding -/

/-- `knd_charseq_decode` of an id of at most `KND_ID_SIZE` characters. -/
def kndCharseqDecode (self : StrRepo) (val : List UInt8) : Except KndErr CharSeq :=
  kndSharedSetGet self.strIdx val

/-- `knd_charseq_new` with its text: the page is cleared, so the number is 0. -/
def kndCharseqNew (self : StrRepo) (val : Name) : Except KndErr (CharSeq × StrRepo) :=
  match self.mempool.tinyPage with
  | none => .error .nomem
  | some mempool => .ok ({ addr := self.nextAddr, val }, { self with mempool, nextAddr := self.nextAddr + 1 })

/-- The two registrations at the end of `knd_charseq_fetch`: by text, then by number. -/
def registerCharseq (self : StrRepo) (seq : CharSeq) : Except KndErr CharSeq × StrRepo :=
  match kndSharedDictSet self.strDict self.mempool seq.val seq none false with
  | (.error e, mempool) => (.error e, { self with mempool })
  | (.ok (_, strDict), mempool) =>
      match kndSharedSetAdd self.strIdx (kndUidCreate seq.numid) seq with
      | (.error e, strIdx) => (.error e, { self with strDict, mempool, strIdx })
      | (.ok (), strIdx) => (.ok seq, { self with strDict, mempool, strIdx })

/-- `knd_charseq_fetch` of a text that is not empty. A failing call keeps the number it has drawn. -/
def kndCharseqFetch (self : StrRepo) (val : Name) : Except KndErr CharSeq × StrRepo :=
  match kndSharedDictGet self.strDict val with
  | some seq => (.ok seq, self)
  | none =>
      match kndCharseqNew self val with
      | .error e => (.error e, self)
      | .ok (seq, self) =>
          registerCharseq { self with numStrs := self.numStrs + 1 } { seq with numid := self.numStrs }

/-! ## (3) The snapshot file -/

/-- `knd_charseq_marshall`. -/
def kndCharseqMarshall : ElemMarshallCb CharSeq := fun seq out => do
  let out ← out.write seq.val
  return (seq.val.length, out)

/-- The body of `knd_charseq_unmarshall`: the new charseq keeps the number 0. -/
def unmarshallCharseq (id val : List UInt8) (self : StrRepo) : GspM StrRepo :=
  match kndCharseqNew self val with
  | .error e => .err e
  | .ok (seq, self) =>
      match kndSharedSetAdd self.strIdx id seq with
      | (.error e, _) => .err e
      | (.ok (), strIdx) =>
          match kndSharedDictSet self.strDict self.mempool val seq none false with
          | (.error e, _) => .err e
          | (.ok (_, strDict), mempool) => .ok { self with strDict, mempool, strIdx }

/-- `knd_charseq_unmarshall`. -/
def kndCharseqUnmarshall : ElemUnmarshallCb StrRepo := ofValue unmarshallCharseq

/-- `fetch_str_idx` on a file with these contents: the strings are numbered on from `num_elems`. -/
def fetchStrIdx (self : StrRepo) (file : List UInt8) : GspM StrRepo := do
  let (loaded, self) ←
    kndSharedSetUnmarshallFile self.strIdx file file.length kndCharseqUnmarshall self
  return { self with
    strIdx := { self.strIdx with dir := loaded.dir, numElems := loaded.numElems }
    numStrs := loaded.numElems }

/-! ## (4) What interning does -/

/-- The ids of distinct numbers are distinct. -/
theorem kndUidCreate_inj {m n : Nat} : kndUidCreate m = kndUidCreate n ↔ m = n := by
  rw [kndUidCreate, kndUidCreate, kndNumToStr_eq, kndNumToStr_eq, digitsKey_inj, numDigits_inj]

/-- No id is empty. -/
theorem kndUidCreate_ne_nil (n : Nat) : kndUidCreate n ≠ [] := by
  rw [kndUidCreate, kndNumToStr_eq]
  exact fun h => numDigits_ne_nil n (List.map_eq_nil_iff.mp h)

theorem kndCharseqNew_ok {self self' : StrRepo} {val : Name} {seq : CharSeq}
    (h : kndCharseqNew self val = .ok (seq, self')) :
    seq = ⟨self.nextAddr, val, 0⟩ ∧ ∃ mempool, self' = { self with mempool, nextAddr := self.nextAddr + 1 } := by
  unfold kndCharseqNew at h
  split at h
  · cases h
  · cases h
    exact ⟨rfl, _, rfl⟩

/-- A text that is not registered has no valid item. -/
theorem not_taken_of_get_eq_none {α : Type} {self : SharedDict α} {key : Name}
    (h : kndSharedDictGet self key = none) : ¬self.Taken key := by
  rintro ⟨item, hitem, hphase⟩
  simp [kndSharedDictGet, hitem, hphase] at h

/-- **Lookup after an insertion without a commit.** -/
theorem kndSharedDictGet_set {α : Type} {self self' : SharedDict α} {pool pool' : MemPool} {key : Name}
    {data : α} {item : DictItem α}
    (h : kndSharedDictSet self pool key data none false = (.ok (item, self'), pool')) (key' : Name) :
    kndSharedDictGet self' key' = if key' = key then some data else kndSharedDictGet self key' := by
  obtain ⟨-, rfl, rfl⟩ := kndSharedDictSet_ok h
  rw [kndSharedDictGet_push]
  simp

/-- What the two registrations have done when they return. -/
structure Registered (repo : StrRepo) (seq : CharSeq) (repo' : StrRepo) : Prop where
  strDict (v : Name) : kndSharedDictGet repo'.strDict v
    = if v = seq.val then some seq else kndSharedDictGet repo.strDict v
  strIdx (id : List UInt8) (a : CharSeq) : kndCharseqDecode repo' id = .ok a ↔
    if id = kndUidCreate seq.numid then seq = a else kndCharseqDecode repo id = .ok a
  fits : (kndUidCreate seq.numid).length ≤ idSize → repo.strIdx.idx.Fits idSize →
    repo'.strIdx.idx.Fits idSize
  numStrs : repo'.numStrs = repo.numStrs
  nextAddr : repo'.nextAddr = repo.nextAddr

/-- Registration under a number that is free in `str_idx` returns, unless the dictionary refuses the text or
the pool is exhausted; then nothing is registered. -/
theorem registerCharseq_cases {self : StrRepo} {seq : CharSeq}
    (hfree : ∀ a, kndSharedSetGet self.strIdx (kndUidCreate seq.numid) ≠ .ok a) :
    (∃ e mempool, registerCharseq self seq = (.error e, { self with mempool })) ∨
      ∃ self', registerCharseq self seq = (.ok seq, self') ∧ Registered self seq self' := by
  rw [registerCharseq]
  cases hset : kndSharedDictSet self.strDict self.mempool seq.val seq none false with
  | mk rc mempool =>
      cases rc with
      | error e => exact .inl ⟨e, mempool, rfl⟩
      | ok r =>
          obtain ⟨item, strDict⟩ := r
          have hid : kndUidCreate seq.numid = digitsKey (numDigits seq.numid) := kndNumToStr_eq _
          rw [hid] at hfree
          obtain ⟨strIdx, hadd⟩ := kndSharedSetAdd_of_free (numDigits_ne_nil _) hfree seq
          rw [← hid] at hadd
          simp only [hadd]
          refine .inr ⟨_, rfl, kndSharedDictGet_set hset, kndSharedSetAdd_ok hadd, ?_, rfl, rfl⟩
          intro hlen hfits
          have hfits' := @fits_kndSharedSetAdd _ _ _ seq hlen hfits
          rwa [hadd] at hfits'

/-- **Interning** finds the text, or registers a new charseq under the next number in both tables, or fails and
registers nothing. -/
theorem kndCharseqFetch_cases {self : StrRepo} {val : Name}
    (hfree : ∀ a, kndSharedSetGet self.strIdx (kndUidCreate self.numStrs) ≠ .ok a) :
    (∃ seq, kndSharedDictGet self.strDict val = some seq ∧ kndCharseqFetch self val = (.ok seq, self)) ∨
      (∃ e mempool numStrs nextAddr, kndCharseqFetch self val
          = (.error e, { self with mempool, numStrs, nextAddr }) ∧
        self.numStrs ≤ numStrs ∧ self.nextAddr ≤ nextAddr) ∨
      ∃ seq self' mempool, kndSharedDictGet self.strDict val = none ∧
        seq = ⟨self.nextAddr, val, self.numStrs⟩ ∧ kndCharseqFetch self val = (.ok seq, self') ∧
        Registered { self with
          mempool, numStrs := self.numStrs + 1, nextAddr := self.nextAddr + 1 } seq self' := by
  rw [kndCharseqFetch]
  cases hget : kndSharedDictGet self.strDict val with
  | some seq => exact .inl ⟨seq, rfl, rfl⟩
  | none =>
      right
      cases hnew : kndCharseqNew self val with
      | error e => exact .inl ⟨e, self.mempool, self.numStrs, self.nextAddr, rfl, le_rfl, le_rfl⟩
      | ok r =>
          obtain ⟨seq, self₁⟩ := r
          obtain ⟨rfl, mempool, rfl⟩ := kndCharseqNew_ok hnew
          rcases @registerCharseq_cases { self with
            mempool, numStrs := self.numStrs + 1, nextAddr := self.nextAddr + 1 }
            ⟨self.nextAddr, val, self.numStrs⟩ hfree with ⟨e, pool, hreg⟩ | ⟨self', hreg, hdone⟩
          · exact .inl ⟨e, pool, _, _, hreg, Nat.le_succ _, Nat.le_succ _⟩
          · exact .inr ⟨_, self', mempool, rfl, rfl, hreg, hdone⟩

/-- **The two tables agree**, and every number in them has been drawn. -/
structure Tables (repo : StrRepo) : Prop where
  dict : ∀ v seq, kndSharedDictGet repo.strDict v = some seq →
    seq.val = v ∧ kndCharseqDecode repo (kndUidCreate seq.numid) = .ok seq
  idx : ∀ id seq, kndCharseqDecode repo id = .ok seq → id = kndUidCreate seq.numid ∧
    seq.numid < repo.numStrs ∧ kndSharedDictGet repo.strDict seq.val = some seq

/-- The next number is free. -/
theorem Tables.free {repo : StrRepo} (h : Tables repo) (a : CharSeq) :
    kndSharedSetGet repo.strIdx (kndUidCreate repo.numStrs) ≠ .ok a := by
  intro hget
  obtain ⟨hid, hlt, -⟩ := h.idx _ _ hget
  exact hlt.ne (kndUidCreate_inj.mp hid).symm

/-- An empty index decodes nothing. -/
theorem decode_fresh (mempool : MemPool) (id : List UInt8) (a : CharSeq) :
    kndCharseqDecode { mempool } id ≠ .ok a := kndSharedSetGet_fresh id a

/-- A new charseq as an item of the dictionary. -/
def CharSeq.dictItem (seq : CharSeq) : DictItem CharSeq :=
  { phase := .valid, key := seq.val, data := seq, states := [] }

end Knowdy
