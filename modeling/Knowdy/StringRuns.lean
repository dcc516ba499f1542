import Knowdy.StringIdx
import Knowdy.Lib.Runs

/-! # Interning, snapshots and reloads

Runs of a repository that interns strings, writes its string table to a snapshot and is opened on that snapshot
again.

* `StrSys`, `StrEvent`, `step` — the repository, the snapshot file, and what was handed out since the last start.
* `Bijective` — every text has one charseq and one number, the id of the number decodes to the charseq, and the
  charseqs of a snapshot come back under the numbers they were stored under.
* `bijective_of_reaches` — this holds as long as no snapshot with an id other than `"0"` is loaded;
  `not_bijective_reload` — and it fails right after such a load, because `knd_charseq_unmarshall` does not set
  the number. -/

namespace Knowdy

namespace Strings

/-! ## (1) The system -/

/-- The system: the repository, its snapshot file, and what the environment knows about them. -/
structure StrSys where
  /-- The repository. -/
  repo : StrRepo
  /-- `strings.gsp`, if a snapshot has been written. -/
  file : Option (List UInt8) := none
  /-- The ids and texts that were in `str_idx` when the file was written. -/
  saved : List (List UInt8 × Name) := []
  /-- The charseqs that `knd_charseq_fetch` has returned since the repository was opened. -/
  fetched : List (Name × CharSeq) := []
  /-- The ids and texts of the file that the repository was opened on. -/
  restored : List (List UInt8 × Name) := []

/-- What can happen. -/
inductive StrEvent where
  /-- `knd_charseq_fetch`. -/
  | fetch (val : Name)
  /-- Other code takes pages or returns some, or the next task belongs to another user. -/
  | memory (mempool : MemPool)
  /-- The string part of `knd_repo_snapshot`, with this output buffer and this much room for the file. -/
  | snapshot (out : Output) (disk : Nat)
  /-- The string part of `knd_repo_open` in a new process with this memory pool. -/
  | reload (mempool : MemPool)

/-- The ids and texts of a string index. -/
def idsOf (set : SharedSet CharSeq) : List (List UInt8 × Name) :=
  (set.idx.entries []).map fun e => (e.1, e.2.val)

/-- Remember a charseq that was returned. -/
def StrSys.hand (s : StrSys) (val : Name) : Except KndErr CharSeq × StrRepo → StrSys
  | (.error _, repo) => { s with repo }
  | (.ok seq, repo) => { s with repo, fetched := (val, seq) :: s.fetched }

/-- The file after an attempt to write it. -/
def StrSys.save (s : StrSys) : Except KndErr (Nat × MarshallTask) → StrSys
  | .error _ => { s with file := none, saved := [] }
  | .ok (_, task) => { s with file := some task.file, saved := idsOf s.repo.strIdx }

/-- The new process after an attempt to read the file. -/
def StrSys.restart (s : StrSys) : GspM StrRepo → StrSys
  | .ok repo => { s with repo, fetched := [], restored := s.saved }
  | _ => s

/-- **One event.** Without a file the repository starts with an empty table. -/
def step (s : StrSys) : StrEvent → StrSys
  | .fetch val => s.hand val (kndCharseqFetch s.repo val)
  | .memory mempool => { s with repo := { s.repo with mempool } }
  | .snapshot out disk =>
      s.save (kndSharedSetMarshall s.repo.strIdx kndCharseqMarshall ⟨out, gspHeader, disk⟩)
  | .reload mempool =>
      match s.file with
      | none => { s with repo := { mempool }, fetched := [], restored := [] }
      | some file => s.restart (fetchStrIdx { mempool } file)

/-- The table is loaded. -/
def Loads (s : StrSys) (mempool : MemPool) : Prop :=
  ∀ file ∈ s.file, (fetchStrIdx { mempool } file).Returns

/-- **What callers do**: a text is a C string that is not empty, the id of the next number fits its buffer, and
a process that cannot load the table does not come up. -/
def Allowed (s : StrSys) : StrEvent → Prop
  | .fetch val => val ≠ [] ∧ 0 ∉ val ∧ s.repo.numStrs < radixBase ^ idSize
  | .reload mempool => Loads s mempool
  | _ => True

/-- **No number is lost**: a file that is loaded has no id but `"0"`, and is below `2 ^ 31` bytes. -/
def Numbered (s : StrSys) : StrEvent → Prop
  | .reload _ => (∀ e ∈ s.saved, e.1 = kndUidCreate 0) ∧ ∀ file ∈ s.file, file.length < 2 ^ 31
  | _ => True

/-- The condition under which an event keeps every number. -/
def Careful (s : StrSys) (e : StrEvent) : Prop := Allowed s e ∧ Numbered s e

instance (s : StrSys) (e : StrEvent) : Decidable (Careful s e) :=
  match e with
  | .fetch val => inferInstanceAs
      (Decidable ((val ≠ [] ∧ 0 ∉ val ∧ s.repo.numStrs < radixBase ^ idSize) ∧ True))
  | .memory _ => inferInstanceAs (Decidable (True ∧ True))
  | .snapshot _ _ => inferInstanceAs (Decidable (True ∧ True))
  | .reload mempool => inferInstanceAs
      (Decidable ((∀ file ∈ s.file, (fetchStrIdx { mempool } file).Returns) ∧
        (∀ e ∈ s.saved, e.1 = kndUidCreate 0) ∧ ∀ file ∈ s.file, file.length < 2 ^ 31))

/-- **The string table is a bijection** that survives snapshots. -/
structure Bijective (s : StrSys) : Prop where
  /-- Equal texts get the same charseq, distinct texts distinct ones. -/
  same : ∀ p ∈ s.fetched, ∀ q ∈ s.fetched, p.1 = q.1 ↔ p.2 = q.2
  /-- Distinct texts get distinct numbers. -/
  numids : ∀ p ∈ s.fetched, ∀ q ∈ s.fetched, p.1 ≠ q.1 → p.2.numid ≠ q.2.numid
  /-- The id of a charseq decodes to it, and it has the text it was fetched for. -/
  decodes : ∀ p ∈ s.fetched,
    p.2.val = p.1 ∧ kndCharseqDecode s.repo (kndUidCreate p.2.numid) = .ok p.2
  /-- Every charseq of the file that was loaded is found under its id and its text, and its number is the one it
  was stored under. -/
  restored : ∀ p ∈ s.restored, ∃ seq, kndCharseqDecode s.repo p.1 = .ok seq ∧ seq.val = p.2 ∧
    kndSharedDictGet s.repo.strDict p.2 = some seq ∧ kndUidCreate seq.numid = p.1

/-! ## (2) The invariant -/

/-- A string index that `kndCharseqMarshall` can write. -/
def Writable (set : SharedSet CharSeq) : Prop :=
  ∀ key e, kndSharedSetGet set key = .ok e → e.val ≠ [] ∧ 0 ∉ e.val

/-- What the file holds. -/
def FileHolds (file : List UInt8) (saved : List (List UInt8 × Name)) : Prop :=
  ∃ (set : IdSet CharSeq) (out : Output) (disk totalSize : Nat) (task : MarshallTask),
    Writable set.toSharedSet ∧ saved = idsOf set.toSharedSet ∧ file = task.file ∧
    kndSharedSetMarshall set.toSharedSet kndCharseqMarshall ⟨out, gspHeader, disk⟩ = .ok (totalSize, task)

/-- A table that agrees with its index and can be stored. -/
structure Agree (repo : StrRepo) : Prop extends Tables repo where
  writable : Writable repo.strIdx
  fits : repo.strIdx.idx.Fits idSize

/-- **The invariant of the runs.** -/
structure Inv (s : StrSys) : Prop where
  agree : Agree s.repo
  fetched : ∀ p ∈ s.fetched, kndSharedDictGet s.repo.strDict p.1 = some p.2
  restored : ∀ p ∈ s.restored, ∃ seq, kndCharseqDecode s.repo p.1 = .ok seq ∧ seq.val = p.2
  file : ∀ file, s.file = some file → FileHolds file s.saved

/-- The invariant says what the table promises. -/
theorem Inv.bijective {s : StrSys} (h : Inv s) : Bijective s where
  same := by
    intro p hp q hq
    have hgetp := h.fetched p hp
    have hgetq := h.fetched q hq
    constructor
    · intro heq
      rw [heq, hgetq] at hgetp
      exact (Option.some.inj hgetp).symm
    · intro heq
      rw [← (h.agree.dict _ _ hgetp).1, ← (h.agree.dict _ _ hgetq).1, heq]
  numids := by
    intro p hp q hq hne heq
    have hdecp := h.agree.dict _ _ (h.fetched p hp)
    have hdecq := h.agree.dict _ _ (h.fetched q hq)
    have hsame : Except.ok p.2 = (Except.ok q.2 : Except KndErr CharSeq) := by
      rw [← hdecp.2, ← hdecq.2, heq]
    apply hne
    rw [← hdecp.1, ← hdecq.1, Except.ok.inj hsame]
  decodes := fun p hp => h.agree.dict _ _ (h.fetched p hp)
  restored := by
    intro p hp
    obtain ⟨seq, hdec, hval⟩ := h.restored p hp
    obtain ⟨hid, -, hget⟩ := h.agree.idx _ _ hdec
    exact ⟨seq, hdec, hval, by rwa [← hval], hid.symm⟩

/-- The id of a number below `62 ^ 8` fits an id buffer. -/
theorem length_kndUidCreate_le {n : Nat} (h : n < radixBase ^ idSize) :
    (kndUidCreate n).length ≤ idSize := by
  rw [kndUidCreate, kndNumToStr_eq, length_digitsKey, numDigits]
  split
  · decide
  · rw [List.length_map]
    exact (Nat.digits_length_le_iff (by decide) n).mpr h

/-- Fewer pages and more numbers drawn. -/
theorem Agree.mono {repo : StrRepo} (h : Agree repo) {numStrs : Nat} (hle : repo.numStrs ≤ numStrs)
    (mempool : MemPool) (nextAddr : Nat) : Agree { repo with mempool, numStrs, nextAddr } where
  dict := h.dict
  idx := by
    intro id seq hdec
    obtain ⟨hid, hlt, hget⟩ := h.idx id seq hdec
    exact ⟨hid, lt_of_lt_of_le hlt hle, hget⟩
  writable := h.writable
  fits := h.fits

section Register

variable {repo repo' : StrRepo} {seq : CharSeq} {mempool : MemPool}

/-- The charseqs of the dictionary stay. -/
theorem dictGet_registered
    (hnew : kndSharedDictGet repo.strDict seq.val = none)
    (hreg : Registered { repo with
      mempool, numStrs := repo.numStrs + 1, nextAddr := repo.nextAddr + 1 } seq repo')
    {v : Name} {a : CharSeq} (h : kndSharedDictGet repo.strDict v = some a) :
    kndSharedDictGet repo'.strDict v = some a := by
  rw [hreg.strDict, if_neg]
  · exact h
  · rintro rfl
    rw [hnew] at h
    cases h

/-- The charseqs of the index stay. -/
theorem decode_registered (h : Agree repo) (hnum : seq.numid = repo.numStrs)
    (hreg : Registered { repo with
      mempool, numStrs := repo.numStrs + 1, nextAddr := repo.nextAddr + 1 } seq repo')
    {id : List UInt8} {a : CharSeq} (hdec : kndCharseqDecode repo id = .ok a) :
    kndCharseqDecode repo' id = .ok a := by
  refine (hreg.strIdx id a).mpr ?_
  rw [if_neg]
  · exact hdec
  · -- the number of a registered charseq was drawn before
    rintro rfl
    obtain ⟨hid, hlt, -⟩ := h.idx _ _ hdec
    rw [← kndUidCreate_inj.mp hid, hnum] at hlt
    exact lt_irrefl _ hlt

/-- **A registration keeps the agreement.** -/
theorem Agree.registered (h : Agree repo) (hnew : kndSharedDictGet repo.strDict seq.val = none)
    (hval : seq.val ≠ [] ∧ 0 ∉ seq.val) (hnum : seq.numid = repo.numStrs)
    (hroom : repo.numStrs < radixBase ^ idSize)
    (hreg : Registered { repo with
      mempool, numStrs := repo.numStrs + 1, nextAddr := repo.nextAddr + 1 } seq repo') : Agree repo' := by
  refine ⟨⟨?_, ?_⟩, ?_, ?_⟩
  · intro v a hv
    rw [hreg.strDict] at hv
    split_ifs at hv with heq
    · cases hv
      exact ⟨heq.symm, (hreg.strIdx _ _).mpr (by rw [if_pos rfl])⟩
    · obtain ⟨haval, hdec⟩ := h.dict v a hv
      exact ⟨haval, decode_registered h hnum hreg hdec⟩
  · intro id a hdec
    have hcases := (hreg.strIdx id a).mp hdec
    split_ifs at hcases with hid
    · subst hcases
      refine ⟨hid, ?_, by rw [hreg.strDict, if_pos rfl]⟩
      rw [hnum, hreg.numStrs]
      exact Nat.lt_succ_self _
    · obtain ⟨haid, hlt, haget⟩ := h.idx _ _ hcases
      refine ⟨haid, ?_, dictGet_registered hnew hreg haget⟩
      rw [hreg.numStrs]
      exact Nat.lt_succ_of_lt hlt
  · intro key a hdec
    have hcases := (hreg.strIdx key a).mp hdec
    split_ifs at hcases with hid
    · rw [← hcases]
      exact hval
    · exact h.writable key a hcases
  · exact hreg.fits (length_kndUidCreate_le (hnum ▸ hroom)) h.fits

end Register

/-! ## (3) What one event keeps -/

/-- Interning keeps the invariant. -/
theorem inv_fetch {s : StrSys} (h : Inv s) {val : Name} (hok : Allowed s (.fetch val)) :
    Inv (step s (.fetch val)) := by
  obtain ⟨hne, hnul, hroom⟩ := hok
  rw [step]
  rcases @kndCharseqFetch_cases s.repo val h.agree.free with ⟨seq, hget, hrun⟩ |
    ⟨e, mempool, numStrs, nextAddr, hrun, hle, -⟩ | ⟨seq, repo', mempool, hnew, hseq, hrun, hreg⟩
  · -- the text is registered
    rw [hrun]
    refine ⟨h.agree, ?_, h.restored, h.file⟩
    intro p hp
    rcases List.mem_cons.mp hp with rfl | hp
    · exact hget
    · exact h.fetched p hp
  · -- nothing is registered
    rw [hrun]
    exact ⟨h.agree.mono hle mempool nextAddr, h.fetched, h.restored, h.file⟩
  · -- a new charseq
    rw [hrun]
    have hval : seq.val = val := by rw [hseq]
    have hnum : seq.numid = s.repo.numStrs := by rw [hseq]
    rw [← hval] at hnew hne hnul
    refine ⟨h.agree.registered hnew ⟨hne, hnul⟩ hnum hroom hreg, ?_, ?_, h.file⟩
    · intro p hp
      rcases List.mem_cons.mp hp with rfl | hp
      · rw [← hval]
        exact (hreg.strDict _).trans (if_pos rfl)
      · exact dictGet_registered hnew hreg (h.fetched p hp)
    · intro p hp
      obtain ⟨a, hdec, ha⟩ := h.restored p hp
      exact ⟨a, decode_registered h.agree hnum hreg hdec, ha⟩

/-- Writing the file keeps the invariant. -/
theorem inv_snapshot {s : StrSys} (h : Inv s) (out : Output) (disk : Nat) :
    Inv (step s (.snapshot out disk)) := by
  rw [step]
  cases hrun : kndSharedSetMarshall s.repo.strIdx kndCharseqMarshall ⟨out, gspHeader, disk⟩ with
  | error e => exact ⟨h.agree, h.fetched, h.restored, fun file hfile => by cases hfile⟩
  | ok r =>
      obtain ⟨totalSize, task⟩ := r
      refine ⟨h.agree, h.fetched, h.restored, fun file hfile => ?_⟩
      cases hfile
      exact ⟨⟨s.repo.strIdx, h.agree.fits⟩, out, disk, totalSize, task, h.agree.writable, rfl, rfl, hrun⟩

/-! ## (4) Loading the file -/

/-- The marshalling callback writes the text. -/
theorem marshalls_kndCharseqMarshall {seq : CharSeq} (h : seq.val ≠ [] ∧ 0 ∉ seq.val) :
    Marshalls kndCharseqMarshall CharSeq.val seq where
  ne_nil := h.1
  no_nul := h.2
  writes := by
    intro out n out' hrun
    simp only [kndCharseqMarshall, bind_eq_ok, pure_eq_ok, Prod.mk.injEq] at hrun
    obtain ⟨out₁, hw, rfl, rfl⟩ := hrun
    exact ⟨rfl, Output.eq_append_of_write hw⟩

/-- **Loading a file** registers its texts one after the other. -/
theorem fetchStrIdx_eq {file : List UInt8} {saved : List (List UInt8 × Name)} (h : FileHolds file saved)
    (hsize : file.length < 2 ^ 31) (repo : StrRepo) :
    ∃ dir, fetchStrIdx repo file
      = saved.foldlM (fun s e => unmarshallCharseq e.1 e.2 s) repo >>= fun repo' => .ok { repo' with
          strIdx := { repo'.strIdx with dir, numElems := saved.length }
          numStrs := saved.length } := by
  obtain ⟨set, out, disk, totalSize, task, hwrite, rfl, rfl, hrun⟩ := h
  have hcb : ∀ key e, kndSharedSetGet set.toSharedSet key = .ok e →
      Marshalls kndCharseqMarshall CharSeq.val e :=
    fun key e hget => marshalls_kndCharseqMarshall (hwrite key e hget)
  obtain ⟨hfile, htotal, -⟩ := file_of_kndSharedSetMarshall hcb hrun
  have hlen : task.file.length = 3 + totalSize := by
    rw [hfile, htotal, List.length_append]
    rfl
  have hload := unmarshallFile_marshall hcb hrun hsize repo.strIdx unmarshallCharseq repo
  rw [fetchStrIdx, hlen]
  rw [show kndCharseqUnmarshall = ofValue unmarshallCharseq from rfl, hload, bind_assoc]
  have hids : idsOf set.toSharedSet = set.entries.map fun e => (e.1, e.2.val) := rfl
  rw [hids, List.foldlM_map, List.length_map]
  exact ⟨_, rfl⟩

/-- **One text** is registered under the id it was stored under, but its number is 0. -/
theorem unmarshallCharseq_ok {repo repo' : StrRepo} {id val : List UInt8}
    (h : unmarshallCharseq id val repo = .ok repo') :
    kndSharedSetAdd repo.strIdx id ⟨repo.nextAddr, val, 0⟩ = (.ok (), repo'.strIdx) ∧
      ∀ v, kndSharedDictGet repo'.strDict v
        = if v = val then some ⟨repo.nextAddr, val, 0⟩ else kndSharedDictGet repo.strDict v := by
  unfold unmarshallCharseq at h
  cases hnew : kndCharseqNew repo val with
  | error e =>
      rw [hnew] at h
      cases h
  | ok r =>
      obtain ⟨seq, repo₁⟩ := r
      rw [hnew] at h
      obtain ⟨rfl, mempool, rfl⟩ := kndCharseqNew_ok hnew
      simp only at h
      split at h
      · cases h
      · rename_i strIdx hadd
        split at h
        · cases h
        · rename_i item strDict pool hset
          cases h
          exact ⟨hadd, kndSharedDictGet_set hset⟩

/-- The charseqs of a file all have the number 0. -/
theorem numid_of_load {saved : List (List UInt8 × Name)} {repo repo' : StrRepo}
    (h : saved.foldlM (fun s e => unmarshallCharseq e.1 e.2 s) repo = .ok repo')
    (hzero : ∀ id a, kndCharseqDecode repo id = .ok a → a.numid = 0) :
    ∀ id a, kndCharseqDecode repo' id = .ok a → a.numid = 0 := by
  induction saved generalizing repo with
  | nil =>
      cases h
      exact hzero
  | cons e saved ih =>
      rw [List.foldlM_cons] at h
      cases hone : unmarshallCharseq e.1 e.2 repo with
      | err e' =>
          rw [hone] at h
          cases h
      | fault f =>
          rw [hone] at h
          cases h
      | ok repo₁ =>
          rw [hone] at h
          refine ih h ?_
          intro id a hdec
          have hcases := (kndSharedSetAdd_ok (unmarshallCharseq_ok hone).1 id a).mp hdec
          split_ifs at hcases with hid
          · rw [← hcases]
          · exact hzero id a hcases

/-- The tables of a new repository agree. -/
theorem agree_fresh (mempool : MemPool) : Agree { mempool } where
  dict := fun v seq h => by cases h
  idx := fun id seq h => absurd h (decode_fresh mempool id seq)
  writable := fun key seq h => absurd h (decode_fresh mempool key seq)
  fits := by simp [idSize, ElemIdx.Fits]

/-- The ids in a file are distinct, and its texts can be written again. -/
theorem FileHolds.ids {file : List UInt8} {saved : List (List UInt8 × Name)} (h : FileHolds file saved) :
    (saved.map Prod.fst).Nodup ∧ ∀ p ∈ saved, p.2 ≠ [] ∧ 0 ∉ p.2 := by
  obtain ⟨set, out, disk, totalSize, task, hwrite, rfl, -, -⟩ := h
  refine ⟨?_, ?_⟩
  · rw [idsOf, List.map_map]
    exact set.nodup_entries
  · intro p hp
    obtain ⟨⟨id, seq⟩, hmem, rfl⟩ := List.mem_map.mp hp
    exact hwrite id seq (IdSet.mem_entries.mp hmem)

/-- A list of distinct ids that are all `"0"` has at most one element. -/
theorem eq_nil_or_singleton {saved : List (List UInt8 × Name)} (hnodup : (saved.map Prod.fst).Nodup)
    (hids : ∀ e ∈ saved, e.1 = kndUidCreate 0) :
    saved = [] ∨ ∃ val, saved = [(kndUidCreate 0, val)] := by
  cases saved with
  | nil => exact .inl rfl
  | cons e saved =>
      right
      cases saved with
      | nil =>
          obtain ⟨id, val⟩ := e
          exact ⟨val, by rw [show id = kndUidCreate 0 from hids _ List.mem_cons_self]⟩
      | cons e' saved =>
          have h := hids e List.mem_cons_self
          have h' := hids e' (List.mem_cons_of_mem _ List.mem_cons_self)
          rw [List.map_cons, List.map_cons, List.nodup_cons, h, h'] at hnodup
          exact absurd List.mem_cons_self hnodup.1

/-- The repository after `num` strings have been loaded. -/
def counted (repo : StrRepo) (dir : SharedSetDir) (num : Nat) : StrRepo := { repo with
  strIdx := { repo.strIdx with dir, numElems := num }
  numStrs := num }

/-- A file with the one id `"0"` is loaded as a fetch would have registered its text. -/
theorem agree_counted {repo : StrRepo} {mempool : MemPool} {val : Name} (hval : val ≠ [] ∧ 0 ∉ val)
    (h : unmarshallCharseq (kndUidCreate 0) val { mempool } = .ok repo) (dir : SharedSetDir) :
    Agree (counted repo dir 1) ∧ kndCharseqDecode (counted repo dir 1) (kndUidCreate 0) = .ok ⟨0, val, 0⟩ := by
  obtain ⟨hadd, hdict⟩ := unmarshallCharseq_ok h
  have hidx := kndSharedSetAdd_ok hadd
  have hreg : Registered { ({ mempool } : StrRepo) with mempool, numStrs := 0 + 1, nextAddr := 0 + 1 }
      ⟨0, val, 0⟩ { counted repo dir 1 with nextAddr := 1 } := by
    refine ⟨hdict, hidx, ?_, rfl, rfl⟩
    intro hlen hfits
    have hfits' := @fits_kndSharedSetAdd _ _ _ (⟨0, val, 0⟩ : CharSeq) hlen hfits
    have hidx' : (kndSharedSetAdd ({} : SharedSet CharSeq) (kndUidCreate 0) ⟨0, val, 0⟩).2 = repo.strIdx := by
      rw [hadd]
    rw [show (counted repo dir 1).strIdx.idx = repo.strIdx.idx from rfl, ← hidx']
    exact hfits'
  have hroom : 0 < radixBase ^ idSize := by decide
  have hagree := (agree_fresh mempool).registered rfl hval rfl hroom hreg
  refine ⟨⟨⟨hagree.dict, hagree.idx⟩, hagree.writable, hagree.fits⟩, (hidx _ _).mpr ?_⟩
  rw [if_pos rfl]

/-- Loading a file whose only id is `"0"` keeps the invariant. -/
theorem inv_reload {s : StrSys} (h : Inv s) {mempool : MemPool} (hnum : Numbered s (.reload mempool)) :
    Inv (step s (.reload mempool)) := by
  rw [step]
  cases hfile : s.file with
  | none =>
      refine ⟨agree_fresh mempool, fun p hp => (by cases hp), fun p hp => (by cases hp), ?_⟩
      intro file hf
      cases hf
  | some file =>
      have hholds := h.file file hfile
      obtain ⟨hnodup, hstore⟩ := hholds.ids
      obtain ⟨dir, hload⟩ := fetchStrIdx_eq hholds (hnum.2 file hfile) { mempool }
      simp only [hload]
      rcases eq_nil_or_singleton hnodup hnum.1 with hnil | ⟨val, hone⟩
      · rw [hnil]
        have hagree := agree_fresh mempool
        refine ⟨⟨⟨hagree.dict, hagree.idx⟩, hagree.writable, hagree.fits⟩, fun p hp => (by cases hp), ?_, h.file⟩
        intro p hp
        have hmem : p ∈ s.saved := hp
        rw [hnil] at hmem
        cases hmem
      · have hval := hstore (kndUidCreate 0, val) (by rw [hone]; exact List.mem_cons_self)
        rw [hone, List.foldlM_cons]
        cases hrun : unmarshallCharseq (kndUidCreate 0) val { mempool } with
        | err e => exact h
        | fault f => exact h
        | ok repo =>
            obtain ⟨hagree, hdec⟩ := agree_counted hval hrun dir
            refine ⟨hagree, fun p hp => (by cases hp), ?_, h.file⟩
            intro p hp
            have hmem : p ∈ s.saved := hp
            rw [hone, List.mem_singleton] at hmem
            exact ⟨⟨0, val, 0⟩, by rw [hmem]; exact hdec, by rw [hmem]⟩

/-! ## (5) Runs -/

/-- **One event keeps the invariant** as long as it loses no number. -/
theorem inv_step {s : StrSys} (h : Inv s) {e : StrEvent} (hok : Allowed s e) (hnum : Numbered s e) :
    Inv (step s e) := by
  cases e with
  | fetch val => exact inv_fetch h hok
  | memory mempool =>
      exact ⟨h.agree.mono le_rfl mempool _, h.fetched, h.restored, h.file⟩
  | snapshot out disk => exact inv_snapshot h out disk
  | reload mempool => exact inv_reload h hnum

/-- A repository that was just created. -/
def start (mempool : MemPool) : StrSys where
  repo := { mempool }

theorem inv_start (mempool : MemPool) : Inv (start mempool) where
  agree := agree_fresh mempool
  fetched := fun p hp => by cases hp
  restored := fun p hp => by cases hp
  file := fun file hfile => by cases hfile


/-- **A load that loses a number** breaks the table. -/
theorem not_bijective_reload {s : StrSys} (h : Inv s) {mempool : MemPool}
    (hok : Loads s mempool) {file : List UInt8} (hfile : s.file = some file)
    (hsize : file.length < 2 ^ 31) (hid : ∃ e ∈ s.saved, e.1 ≠ kndUidCreate 0) :
    ¬Bijective (step s (.reload mempool)) := by
  obtain ⟨repo, hrepo⟩ := hok file hfile
  have hstep : step s (.reload mempool) = s.restart (.ok repo) := by
    rw [step, hfile]
    simp only [hrepo]
  rw [hstep]
  intro hbij
  obtain ⟨e, hmem, hne⟩ := hid
  obtain ⟨seq, hdec, -, -, hnum⟩ := hbij.restored e hmem
  -- every charseq of the file has the number 0
  obtain ⟨dir, hload⟩ := fetchStrIdx_eq (h.file file hfile) hsize { mempool }
  rw [hload] at hrepo
  cases hrun : s.saved.foldlM (fun s e => unmarshallCharseq e.1 e.2 s) ({ mempool } : StrRepo) with
  | err e' =>
      rw [hrun] at hrepo
      cases hrepo
  | fault f =>
      rw [hrun] at hrepo
      cases hrepo
  | ok repo₁ =>
      rw [hrun] at hrepo
      cases hrepo
      have hzero := numid_of_load hrun (fun id a hd => absurd hd (decode_fresh mempool id a)) e.1 seq hdec
      rw [hzero] at hnum
      exact hne hnum.symm

/-- **The string table is a bijection that survives snapshots**, in every run in which no snapshot with an id other
than `"0"` is loaded. A load of any other snapshot breaks it, whatever run led there. -/
theorem bijective_of_reaches {mempool : MemPool} {s : StrSys}
    (h : Reaches step Careful (start mempool) s) :
    Bijective s ∧ ∀ (pool : MemPool) (file : List UInt8), Loads s pool → s.file = some file →
      file.length < 2 ^ 31 → (Bijective (step s (.reload pool)) ↔ ∀ e ∈ s.saved, e.1 = kndUidCreate 0) := by
  have hinv : Inv s := h.invariant (inv_start mempool) fun s e hi hc => inv_step hi hc.1 hc.2
  refine ⟨hinv.bijective, fun pool file hload hfile hsize => ⟨?_, ?_⟩⟩
  · intro hbij e hmem
    by_contra hne
    exact not_bijective_reload hinv hload hfile hsize ⟨e, hmem, hne⟩ hbij
  · intro hids
    refine (inv_reload hinv ⟨hids, fun f hf => ?_⟩).bijective
    rw [hfile] at hf
    cases hf
    exact hsize

/-- A first text, a snapshot and a reload of it. -/
def soloRun : List StrEvent :=
  [.fetch [97], .snapshot ⟨[], 1024⟩ 1024, .reload ⟨10⟩, .fetch [97], .fetch [98]]

/-- The bijection after a run that reloads a snapshot with one text. -/
theorem bijective_of_reaches_solo : Bijective (soloRun.foldl step (start ⟨10⟩)) ∧
    ∀ (pool : MemPool) (file : List UInt8), Loads (soloRun.foldl step (start ⟨10⟩)) pool →
      (soloRun.foldl step (start ⟨10⟩)).file = some file → file.length < 2 ^ 31 →
      (Bijective (step (soloRun.foldl step (start ⟨10⟩)) (.reload pool)) ↔
        ∀ e ∈ (soloRun.foldl step (start ⟨10⟩)).saved, e.1 = kndUidCreate 0) :=
  bijective_of_reaches (Reaches.foldl .refl (by decide +kernel))

/-- Two texts, a snapshot and a reload of it. -/
def pairRun : List StrEvent :=
  [.fetch [97], .fetch [98], .snapshot ⟨[], 1024⟩ 1024, .reload ⟨10⟩]

/-- **The second text has lost its number**: it is found under the id `"1"` and carries the number 0. -/
theorem not_bijective_pairRun : ¬Bijective (pairRun.foldl step (start ⟨10⟩)) := by
  intro h
  have hmem : ([49], [98]) ∈ (pairRun.foldl step (start ⟨10⟩)).restored := by decide +kernel
  obtain ⟨seq, hdec, -, -, hnum⟩ := h.restored _ hmem
  have hzero : kndCharseqDecode (pairRun.foldl step (start ⟨10⟩)).repo [49] = .ok ⟨1, [98], 0⟩ := by
    decide +kernel
  rw [hzero] at hdec
  cases hdec
  exact absurd hnum (by decide)

end Strings

end Knowdy
