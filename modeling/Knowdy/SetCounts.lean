import Knowdy.Lib.Checked
import Knowdy.Lib.Runs
import Knowdy.SetIntersect

/-! # The counter of a set and its ids

`knd_set.c` and `knd_shared_set.c` keep the number of their elements in `num_elems`, and give a callback the id and the
number of each element. An addition may run out of memory for its folders.

* `PagedSet` — a set with what its mempool has left; `PagedSet.kndSetAdd`, `PagedSet.kndSharedSetAdd`.
* `saveElem`, `missing` — an insertion, and the folders that it has to make.
* `kndSetMap`, `kndSharedSetMap` — the traversals.
* `Exact` — the counter is the number of the keys, and the traversal gives each element once, with its full id.
* `exact_iff` — a sequence of additions leaves a set exact, if and only if every element that is stored comes under
  a new key of one character. -/

namespace Knowdy.SetCounts

open SetIntersect (keys mem_keys nodup_keys length_keys size digitsKey_mem_keys)

variable {α ε σ : Type}

/-! ## (1) Additions -/

/-- **`save_elem`**: the return code, the folder after the call, and the pages that are left. -/
def saveElem (allowOverwrite : Bool) (elem : α) :
    List UInt8 → ElemIdx α → Nat → Except KndErr Unit × ElemIdx α × Nat
  | [], parent, room => (.error .fail, parent, room)
  | [c], parent, room =>
      match objIdBase c with
      | none => (.error .format, parent, room)
      | some i =>
          if (parent.elems i).isSome && !allowOverwrite then (.error .conflict, parent, room)
          else (.ok (), .node (Function.update parent.elems i (some elem)) parent.idxs, room)
  | c :: c' :: id, parent, room =>
      match objIdBase c with
      | none => (.error .format, parent, room)
      | some i =>
          -- `elem_idx_new` takes a page
          if (parent.idxs i).isNull && room == 0 then (.error .nomem, parent, room)
          else
            let (rc, idx, room) := saveElem allowOverwrite elem (c' :: id) (parent.idxs i).orNew
              (if (parent.idxs i).isNull then room - 1 else room)
            (rc, .node parent.elems (Function.update parent.idxs i idx), room)

/-- The folders on the way to a key that are not there. -/
def missing : List UInt8 → ElemIdx α → Nat
  | [], _ => 0
  | [_], _ => 0
  | c :: c' :: id, parent =>
      match objIdBase c with
      | none => 0
      | some i => (parent.idxs i).isNull.toNat + missing (c' :: id) (parent.idxs i).orNew

/-- **`struct kndSet`, or `struct kndSharedSet`**, with what its mempool has left. -/
structure PagedSet (α : Type) where
  /-- `idx`: the root folder. -/
  idx : ElemIdx α := .new
  /-- `num_elems`. -/
  numElems : Nat := 0
  /-- `num_valid_elems`. -/
  numValidElems : Nat := 0
  /-- `allow_overwrite`. -/
  allowOverwrite : Bool
  /-- The pages that are left. -/
  room : Nat

/-- A key of base-62 digits. -/
abbrev Id : Type := { ds : List Digit // ds ≠ [] }

namespace PagedSet

variable (self : PagedSet α)

/-- **`knd_shared_set_add`.** -/
def kndSharedSetAdd (key : List UInt8) (elem : α) : Except KndErr Unit × PagedSet α :=
  match saveElem self.allowOverwrite elem key self.idx self.room with
  | (.error err, idx, room) => (.error err, { self with idx, room })
  | (.ok (), idx, room) =>
      (.ok (), { self with
        idx
        room
        numElems := self.numElems + 1
        numValidElems := self.numValidElems + 1 })

/-- **`knd_set_add`**: the same for proper keys, as the characters are not checked. -/
def kndSetAdd (key : Id) (elem : α) : Except KndErr Unit × PagedSet α :=
  self.kndSharedSetAdd (digitsKey key.1) elem

/-- `knd_set_get`, `knd_shared_set_get`. -/
def get (key : List UInt8) : Except KndErr α := getElem key self.idx

end PagedSet

/-! ## (2) Traversals -/

/-- **`kndSet_traverse_idx`**, which keeps `count`. -/
def kndSetTraverseIdx (cb : List UInt8 → Nat → α → EStateM ε σ PUnit) : ElemIdx α → Nat → EStateM ε σ Nat
  | .null, count => pure count
  | .node elems idxs, count => do
      let count ← (List.finRange 62).foldlM (fun count i =>
        match elems i with
        | none => pure count
        | some elem => do
            -- the id of the folder is not known here
            cb [objIdSeq i] count elem
            pure (count + 1)) count
      (List.finRange 62).foldlM (fun count i => kndSetTraverseIdx cb (idxs i) count) count

/-- **`knd_set_map`.** -/
def kndSetMap (self : PagedSet α) (cb : List UInt8 → Nat → α → EStateM ε σ PUnit) : EStateM ε σ PUnit := do
  let _ ← kndSetTraverseIdx cb self.idx 0

/-- **`knd_shared_set_map`**: the code is the same. -/
def kndSharedSetMap : PagedSet α → (List UInt8 → Nat → α → EStateM ε σ PUnit) → EStateM ε σ PUnit := kndSetMap

/-! ## (3) Exactness -/

/-- **A list of the elements of a set**: each key once, as many as the counter says, and in the order in which the
traversals give them. -/
structure Lists (s : PagedSet α) (es : List (List UInt8 × α)) : Prop where
  /-- Each key once. -/
  nodup : (es.map Prod.fst).Nodup
  /-- The elements that a lookup finds. -/
  mem_iff : ∀ key elem, (key, elem) ∈ es ↔ s.get key = .ok elem
  /-- As many as `num_elems`. -/
  length_eq : s.numElems = es.length
  /-- `knd_set_map` calls a callback with the id, the number and the element of each. -/
  kndSetMap_eq : ∀ (ε σ : Type) (cb : List UInt8 → Nat → α → EStateM ε σ PUnit),
    kndSetMap s cb = es.zipIdx.forM fun p => cb p.1.1 p.2 p.1.2
  /-- So does `knd_shared_set_map`. -/
  kndSharedSetMap_eq : ∀ (ε σ : Type) (cb : List UInt8 → Nat → α → EStateM ε σ PUnit),
    kndSharedSetMap s cb = es.zipIdx.forM fun p => cb p.1.1 p.2 p.1.2

/-- **The set is exact.** -/
def Exact (self : PagedSet α) : Prop := ∃ es, Lists self es

/-- **An addition will store its element**: the key is proper, there is memory for the folders, and the key is not
taken. -/
def Storable (self : PagedSet α) (key : List UInt8) : Prop :=
  ∃ ds, ds ≠ [] ∧ key = digitsKey ds ∧ missing key self.idx ≤ self.room ∧
    (self.allowOverwrite = false → self.idx.lookup ds = none)

/-- **A safe addition**: what it stores comes under a new key of one character. -/
def Safe (self : PagedSet α) (key : List UInt8) : Prop :=
  Storable self key → key.length = 1 ∧ ∀ elem, self.get key ≠ .ok elem

/-! ### The traversal -/

/-- The id that a callback is given: the last character. -/
def lastId (key : List UInt8) : List UInt8 := key.getLast?.toList

/-- The calls of a callback, in their order. -/
def calls (idx : ElemIdx α) (pre : List UInt8) : List (List UInt8 × α) :=
  (idx.entries pre).map fun p => (lastId p.1, p.2)

/-- One call. -/
def called (cb : List UInt8 → Nat → α → EStateM ε σ PUnit) (count : Nat) (p : List UInt8 × α) : EStateM ε σ Nat := do
  cb p.1 count p.2
  pure (count + 1)

/-- **The traversal** gives the last character of each id. -/
theorem kndSetTraverseIdx_eq (cb : List UInt8 → Nat → α → EStateM ε σ PUnit) (idx : ElemIdx α) (pre : List UInt8)
    (count : Nat) : kndSetTraverseIdx cb idx count = (calls idx pre).foldlM (called cb) count := by
  induction idx generalizing pre count with
  | null => rfl
  | node es ss ih =>
      have hown : ((ElemIdx.elemList es).map fun p => (pre ++ [objIdSeq p.1], p.2)).map
          (fun p => (lastId p.1, p.2)) =
            (List.finRange 62).filterMap fun i => (es i).map fun elem => ([objIdSeq i], elem) := by
        rw [List.map_map, ElemIdx.elemList, List.map_filterMap]
        congr 1
        funext i
        cases es i <;> simp [lastId]
      rw [calls, ElemIdx.entries_node, List.map_append, List.foldlM_append, hown, List.foldlM_filterMap,
        List.map_flatMap, kndSetTraverseIdx]
      congr 1
      · -- the elements of the folder
        congr 1
        funext count i
        cases es i <;> rfl
      · -- its subfolders
        funext count
        rw [foldlM_flatMap]
        congr 1
        funext count i
        exact ih i _ count

/-- A counter that runs along a list. -/
theorem foldlM_called (cb : List UInt8 → Nat → α → EStateM ε σ PUnit) (l : List (List UInt8 × α)) (count : Nat) :
    (do let _ ← l.foldlM (called cb) count) = (l.zipIdx count).forM fun p => cb p.1.1 p.2 p.1.2 := by
  induction l generalizing count with
  | nil => rfl
  | cons p l ih =>
      rw [List.foldlM_cons, List.zipIdx_cons, called, bind_assoc, bind_assoc]
      show (cb p.1 count p.2 >>= fun _ => _) = (cb p.1 count p.2 >>= fun _ => _)
      congr 1
      funext _
      rw [pure_bind]
      exact ih (count + 1)

/-- **The traversals** give the last characters and the numbers from 0 on. -/
theorem kndSetMap_eq_calls (self : PagedSet α) (cb : List UInt8 → Nat → α → EStateM ε σ PUnit) :
    kndSetMap self cb = (calls self.idx []).zipIdx.forM fun p => cb p.1.1 p.2 p.1.2 := by
  rw [kndSetMap, kndSetTraverseIdx_eq cb self.idx [] 0]
  exact foldlM_called cb _ 0

/-! ### The keys -/

theorem mem_keys_iff {idx : ElemIdx α} {key : List UInt8} :
    key ∈ keys idx ↔ ∃ ds, key = digitsKey ds ∧ (idx.lookup ds).isSome := by
  rw [mem_keys]
  constructor
  · rintro ⟨elem, helem⟩
    obtain ⟨ds, hkey, hds⟩ := getElem_eq_ok.mp helem
    exact ⟨ds, hkey, by rw [hds]; rfl⟩
  · rintro ⟨ds, hkey, hds⟩
    obtain ⟨elem, helem⟩ := Option.isSome_iff_exists.mp hds
    exact ⟨elem, getElem_eq_ok.mpr ⟨ds, hkey, helem⟩⟩

theorem ne_nil_of_mem_keys {idx : ElemIdx α} {key : List UInt8} (h : key ∈ keys idx) : key ≠ [] := by
  rintro rfl
  obtain ⟨elem, helem⟩ := mem_keys.mp h
  cases helem

section Keys

variable {idx idx' : ElemIdx α} {ds : List Digit} {elem : α}

/-- Nothing is changed. -/
theorem keys_perm_of_eq (h : ∀ es, idx'.lookup es = idx.lookup es) : (keys idx').Perm (keys idx) := by
  rw [List.perm_ext_iff_of_nodup (nodup_keys idx') (nodup_keys idx)]
  intro key
  simp only [mem_keys_iff, h]

/-- An element is replaced. -/
theorem keys_perm_of_held (h : ∀ es, idx'.lookup es = if es = ds then some elem else idx.lookup es)
    (hheld : (idx.lookup ds).isSome) : (keys idx').Perm (keys idx) := by
  rw [List.perm_ext_iff_of_nodup (nodup_keys idx') (nodup_keys idx)]
  intro key
  simp only [mem_keys_iff]
  refine exists_congr fun es => and_congr_right fun _ => ?_
  rw [h]
  by_cases heq : es = ds
  · rw [if_pos heq, heq]
    exact iff_of_true rfl hheld
  · rw [if_neg heq]

/-- An element is new. -/
theorem keys_perm_of_free (h : ∀ es, idx'.lookup es = if es = ds then some elem else idx.lookup es)
    (hfree : idx.lookup ds = none) : (keys idx').Perm (digitsKey ds :: keys idx) := by
  have hnew : digitsKey ds ∉ keys idx := by
    rw [digitsKey_mem_keys, hfree]
    exact Bool.false_ne_true
  rw [List.perm_ext_iff_of_nodup (nodup_keys idx') (List.nodup_cons.mpr ⟨hnew, nodup_keys idx⟩)]
  intro key
  simp only [mem_keys_iff, List.mem_cons]
  constructor
  · rintro ⟨es, rfl, hes⟩
    by_cases heq : es = ds
    · exact .inl (by rw [heq])
    · rw [h, if_neg heq] at hes
      exact .inr ⟨es, rfl, hes⟩
  · rintro (rfl | ⟨es, rfl, hes⟩)
    · exact ⟨ds, rfl, by rw [h, if_pos rfl]; rfl⟩
    · refine ⟨es, rfl, ?_⟩
      rw [h]
      by_cases heq : es = ds
      · rw [if_pos heq]
        rfl
      · rw [if_neg heq]
        exact hes

end Keys

/-! ### What exactness is -/

/-- Writes down the ids that it is given. -/
def record (id : List UInt8) (_ : Nat) (_ : α) : EStateM Unit (List (List UInt8)) PUnit := modify (· ++ [id])

theorem run_record (l : List (List UInt8 × α)) (count : Nat) (ids : List (List UInt8)) :
    ((l.zipIdx count).forM fun p => record p.1.1 p.2 p.1.2).run ids = .ok ⟨⟩ (ids ++ l.map Prod.fst) := by
  induction l generalizing count ids with
  | nil => rw [List.map_nil, List.append_nil]; rfl
  | cons p l ih =>
      have hrest := ih (count + 1) (ids ++ [p.1])
      rw [List.append_assoc] at hrest
      exact hrest

/-- The ids that the traversals give are those of the list. -/
theorem Lists.ids_eq {self : PagedSet α} {es : List (List UInt8 × α)} (h : Lists self es) :
    (calls self.idx []).map Prod.fst = es.map Prod.fst := by
  have hrun := h.kndSetMap_eq _ _ (record (α := α))
  rw [kndSetMap_eq_calls] at hrun
  have hleft := run_record (calls self.idx []) 0 []
  rw [hrun, run_record es 0 []] at hleft
  have hids := (EStateM.Result.ok.inj hleft).2
  rw [List.nil_append, List.nil_append] at hids
  exact hids.symm

theorem lastId_of_length {key : List UInt8} (h : key.length = 1) : lastId key = key := by
  obtain ⟨c, rfl⟩ := List.length_eq_one_iff.mp h
  rfl

theorem length_lastId_le (key : List UInt8) : (lastId key).length ≤ 1 := by
  rw [lastId]
  cases key.getLast? <;> simp

/-- **A set is exact** if its counter is the number of its keys, and these have one character each. -/
theorem exact_iff_keys (self : PagedSet α) :
    Exact self ↔ self.numElems = (keys self.idx).length ∧ ∀ key ∈ keys self.idx, key.length = 1 := by
  constructor
  · rintro ⟨es, h⟩
    have hkeys : (es.map Prod.fst).Perm (keys self.idx) := by
      rw [List.perm_ext_iff_of_nodup h.nodup (nodup_keys _)]
      intro key
      rw [mem_keys, List.mem_map]
      constructor
      · rintro ⟨⟨key, elem⟩, hmem, rfl⟩
        exact ⟨elem, (h.mem_iff key elem).mp hmem⟩
      · rintro ⟨elem, helem⟩
        exact ⟨(key, elem), (h.mem_iff key elem).mpr helem, rfl⟩
    refine ⟨by rw [h.length_eq, ← hkeys.length_eq, List.length_map], fun key hkey => ?_⟩
    have hcall : key ∈ (calls self.idx []).map Prod.fst := by
      rw [h.ids_eq]
      exact hkeys.mem_iff.mpr hkey
    rw [calls, List.map_map] at hcall
    obtain ⟨p, -, rfl⟩ := List.mem_map.mp hcall
    have hpos := List.length_pos_iff.mpr (ne_nil_of_mem_keys hkey)
    exact le_antisymm (length_lastId_le p.1) hpos
  · rintro ⟨hcount, hone⟩
    have hcalls : calls self.idx [] = self.idx.entries [] := by
      rw [calls]
      conv_rhs => rw [← List.map_id (self.idx.entries [])]
      refine List.map_congr_left fun p hp => ?_
      rw [lastId_of_length (hone p.1 (List.mem_map_of_mem hp))]
      rfl
    refine ⟨self.idx.entries [],
      { nodup := nodup_keys _
        mem_iff := fun key elem => ?_
        length_eq := by rw [hcount, keys, List.length_map]
        kndSetMap_eq := fun ε σ cb => ?_
        kndSharedSetMap_eq := fun ε σ cb => ?_ }⟩
    · rw [ElemIdx.mem_entries, PagedSet.get, getElem_eq_ok]
      simp
    · rw [kndSetMap_eq_calls, hcalls]
    · rw [kndSharedSetMap, kndSetMap_eq_calls, hcalls]

/-! ## (4) Insertions -/

/-- A subfolder that holds what the old one held. -/
theorem lookup_update_idxs_same {parent idx : ElemIdx α} {i : Digit}
    (h : ∀ es, idx.lookup es = (parent.idxs i).lookup es) (es : List Digit) :
    (ElemIdx.node parent.elems (Function.update parent.idxs i idx)).lookup es = parent.lookup es := by
  match es with
  | [] => rfl
  | [j] => rfl
  | j :: k :: es =>
      rw [ElemIdx.lookup_cons (List.cons_ne_nil k es), ElemIdx.lookup_cons (List.cons_ne_nil k es),
        ElemIdx.idxs_node, Function.update_apply]
      by_cases hj : j = i
      · rw [if_pos hj, h, hj]
      · rw [if_neg hj]

/-- **With enough memory** the insertion is that of a set whose mempool never runs out. -/
theorem saveElem_of_le {allowOverwrite : Bool} {elem : α} {key : List UInt8} {parent : ElemIdx α} {room : Nat}
    (h : missing key parent ≤ room) :
    saveElem allowOverwrite elem key parent room =
      ((Knowdy.saveElem allowOverwrite elem key parent).1, (Knowdy.saveElem allowOverwrite elem key parent).2,
        room - missing key parent) := by
  induction key generalizing parent room with
  | nil => rfl
  | cons c key ih =>
      cases hc : objIdBase c with
      | none => cases key <;> simp [saveElem, Knowdy.saveElem, missing, hc]
      | some i =>
          cases key with
          | nil =>
              simp only [saveElem, Knowdy.saveElem, missing, hc]
              split <;> rfl
          | cons c' key =>
              simp only [missing, hc] at h
              cases hnull : (parent.idxs i).isNull with
              | false =>
                  rw [hnull] at h
                  have hleft : missing (c' :: key) (parent.idxs i).orNew ≤ room := by simpa using h
                  have hsub := ih hleft
                  simp [saveElem, Knowdy.saveElem, missing, hc, hnull, hsub]
              | true =>
                  rw [hnull] at h
                  have hroom : room ≠ 0 := by
                    rintro rfl
                    simp at h
                  have hleft : missing (c' :: key) (parent.idxs i).orNew ≤ room - 1 := by
                    rw [Bool.toNat_true] at h
                    omega
                  have hsub := ih hleft
                  simp [saveElem, Knowdy.saveElem, missing, hc, hnull, hsub, hroom]
                  omega

/-- **Without it** the insertion fails and leaves every binding alone. -/
theorem saveElem_of_lt {allowOverwrite : Bool} {elem : α} {key : List UInt8} {parent : ElemIdx α} {room : Nat}
    (h : room < missing key parent) :
    ∃ idx, saveElem allowOverwrite elem key parent room = (.error .nomem, idx, 0) ∧
      ∀ es, idx.lookup es = parent.lookup es := by
  induction key generalizing parent room with
  | nil => exact absurd h (Nat.not_lt_zero _)
  | cons c key ih =>
      cases hc : objIdBase c with
      | none => cases key <;> simp [missing, hc] at h
      | some i =>
          cases key with
          | nil => exact absurd h (Nat.not_lt_zero _)
          | cons c' key =>
              simp only [missing, hc] at h
              by_cases hfail : ((parent.idxs i).isNull && room == 0) = true
              · obtain rfl : room = 0 := by simpa using (Bool.and_eq_true_iff.mp hfail).2
                refine ⟨parent, ?_, fun es => rfl⟩
                simp only [saveElem, hc]
                rw [if_pos hfail]
              · have hsub : (if (parent.idxs i).isNull then room - 1 else room) <
                    missing (c' :: key) (parent.idxs i).orNew := by
                  cases hnull : (parent.idxs i).isNull with
                  | false => simpa [hnull] using h
                  | true =>
                      have hpos : room ≠ 0 := by simpa [hnull] using hfail
                      simp only [hnull, Bool.toNat_true] at h
                      simp only [if_pos]
                      omega
                obtain ⟨idx, hsave, hlookup⟩ := ih hsub
                refine ⟨.node parent.elems (Function.update parent.idxs i idx), ?_, ?_⟩
                · simp only [saveElem, hc, if_neg hfail, hsave]
                · exact lookup_update_idxs_same fun es => by rw [hlookup, ElemIdx.lookup_orNew]

/-- An insertion that may overwrite does not fail for a proper key. -/
theorem saveElem_overwrites (elem : α) {ds : List Digit} (hds : ds ≠ []) (parent : ElemIdx α) :
    (Knowdy.saveElem true elem (digitsKey ds) parent).1 = .ok () := by
  induction ds generalizing parent with
  | nil => exact absurd rfl hds
  | cons i ds ih =>
      cases ds with
      | nil => simp [Knowdy.saveElem]
      | cons j ds =>
          have hsub := ih (List.cons_ne_nil j ds) (parent.idxs i).orNew
          rw [digitsKey_cons] at hsub
          simpa [Knowdy.saveElem] using hsub

namespace PagedSet

variable {self : PagedSet α} {key : List UInt8}

/-- **An addition that stores its element.** -/
theorem kndSharedSetAdd_of_storable (elem : α) (h : Storable self key) :
    ∃ ds idx room, key = digitsKey ds ∧
      (self.kndSharedSetAdd key elem).2 = { self with
        idx, room, numElems := self.numElems + 1, numValidElems := self.numValidElems + 1 } ∧
      ∀ es, idx.lookup es = if es = ds then some elem else self.idx.lookup es := by
  obtain ⟨ds, hds, rfl, hroom, hfree⟩ := h
  have hok : (Knowdy.saveElem self.allowOverwrite elem (digitsKey ds) self.idx).1 = .ok () := by
    cases how : self.allowOverwrite with
    | false => exact saveElem_ok_of_free hds (hfree how) false
    | true => exact saveElem_overwrites elem hds self.idx
  have hcases := saveElem_cases self.allowOverwrite elem (digitsKey ds) self.idx
  rw [kndSharedSetAdd, saveElem_of_le hroom]
  cases hsave : Knowdy.saveElem self.allowOverwrite elem (digitsKey ds) self.idx with
  | mk rc idx =>
      rw [hsave] at hok hcases
      obtain rfl : rc = .ok () := hok
      obtain ⟨ds', hkey, -, -, hlookup⟩ := hcases
      exact ⟨ds', idx, _, hkey, rfl, hlookup⟩

/-- **An addition that does not** leaves the elements alone. -/
theorem kndSharedSetAdd_of_not_storable (elem : α) (h : ¬Storable self key) :
    ∃ idx room, (self.kndSharedSetAdd key elem).2 = { self with idx, room } ∧
      ∀ es, idx.lookup es = self.idx.lookup es := by
  rw [kndSharedSetAdd]
  by_cases hroom : missing key self.idx ≤ self.room
  · have hcases := saveElem_cases self.allowOverwrite elem key self.idx
    rw [saveElem_of_le hroom]
    cases hsave : Knowdy.saveElem self.allowOverwrite elem key self.idx with
    | mk rc idx =>
        rw [hsave] at hcases
        cases rc with
        | error err => exact ⟨idx, _, rfl, hcases⟩
        | ok u =>
            obtain ⟨ds, hkey, hds, hfree, -⟩ := hcases
            exact absurd ⟨ds, hds, hkey, hroom, hfree⟩ h
  · obtain ⟨idx, hsave, hlookup⟩ : ∃ idx,
        saveElem self.allowOverwrite elem key self.idx self.room = (.error .nomem, idx, 0) ∧
          ∀ es, idx.lookup es = self.idx.lookup es := saveElem_of_lt (Nat.lt_of_not_le hroom)
    rw [hsave]
    exact ⟨idx, 0, rfl, hlookup⟩

/-- A key is taken, or free. -/
theorem get_ne_ok_iff {ds : List Digit} :
    (∀ elem, self.get (digitsKey ds) ≠ .ok elem) ↔ self.idx.lookup ds = none := by
  rw [Option.eq_none_iff_forall_ne_some]
  refine forall_congr' fun elem => not_congr ?_
  rw [get, getElem_eq_ok]
  simp [digitsKey_inj]

end PagedSet

/-! ## (5) Sequences of additions -/

open PagedSet

/-- No set counts fewer elements than it has. -/
def Counted (self : PagedSet α) : Prop := (keys self.idx).length ≤ self.numElems

/-- **One addition** leaves the set exact, if and only if it was and the addition is safe. -/
theorem exact_add_iff {self : PagedSet α} (hcounted : Counted self) (key : List UInt8) (elem : α) :
    Exact (self.kndSharedSetAdd key elem).2 ↔ Safe self key ∧ Exact self := by
  rw [Counted] at hcounted
  by_cases hstore : Storable self key
  · obtain ⟨ds, idx, room, rfl, hadd, hlookup⟩ := kndSharedSetAdd_of_storable elem hstore
    have hsafe : Safe self (digitsKey ds) ↔ (digitsKey ds).length = 1 ∧ self.idx.lookup ds = none := by
      rw [← get_ne_ok_iff]
      exact ⟨fun h => h hstore, fun h _ => h⟩
    rw [hadd, hsafe, exact_iff_keys, exact_iff_keys]
    cases hheld : self.idx.lookup ds with
    | none =>
        have hperm := keys_perm_of_free hlookup hheld
        simp only [hperm.length_eq, List.length_cons, hperm.mem_iff, List.forall_mem_cons, Nat.add_right_cancel_iff,
          and_true]
        exact and_left_comm
    | some old =>
        have hperm := keys_perm_of_held hlookup (by rw [hheld]; rfl)
        simp only [hperm.length_eq, reduceCtorEq, and_false, false_and, iff_false]
        intro h
        omega
  · obtain ⟨idx, room, hadd, hlookup⟩ := kndSharedSetAdd_of_not_storable elem hstore
    have hsafe : Safe self key := fun h => absurd h hstore
    have hperm := keys_perm_of_eq hlookup
    rw [hadd, exact_iff_keys, exact_iff_keys]
    simp only [hperm.length_eq, hperm.mem_iff, hsafe, true_and]

/-- The counter stays ahead. -/
theorem Counted.add {self : PagedSet α} (h : Counted self) (key : List UInt8) (elem : α) :
    Counted (self.kndSharedSetAdd key elem).2 := by
  rw [Counted] at h ⊢
  by_cases hstore : Storable self key
  · obtain ⟨ds, idx, room, rfl, hadd, hlookup⟩ := kndSharedSetAdd_of_storable elem hstore
    rw [hadd]
    cases hheld : self.idx.lookup ds with
    | none =>
        rw [(keys_perm_of_free hlookup hheld).length_eq, List.length_cons]
        exact Nat.succ_le_succ h
    | some old =>
        rw [(keys_perm_of_held hlookup (by rw [hheld]; rfl)).length_eq]
        exact Nat.le_succ_of_le h
  · obtain ⟨idx, room, hadd, hlookup⟩ := kndSharedSetAdd_of_not_storable elem hstore
    rw [hadd, (keys_perm_of_eq hlookup).length_eq]
    exact h

/-- `knd_shared_set_add`, in a sequence of calls. -/
def sharedStep (s : PagedSet α) (op : List UInt8 × α) : PagedSet α := (s.kndSharedSetAdd op.1 op.2).2

/-- `knd_set_add`, in a sequence of calls. -/
def setStep (s : PagedSet α) (op : Id × α) : PagedSet α := (s.kndSetAdd op.1 op.2).2

/-- **From any state.** -/
theorem exact_foldl_iff {s : PagedSet α} (hcounted : Counted s) (ops : List (List UInt8 × α)) :
    Exact (ops.foldl sharedStep s) ↔ Exact s ∧ AllAllowed sharedStep (fun s op => Safe s op.1) s ops := by
  induction ops generalizing s with
  | nil => exact (and_iff_left trivial).symm
  | cons op ops ih =>
      have hstep : Exact (sharedStep s op) ↔ Safe s op.1 ∧ Exact s := exact_add_iff hcounted op.1 op.2
      have hnext : Counted (sharedStep s op) := hcounted.add op.1 op.2
      rw [List.foldl_cons, ih hnext, hstep, AllAllowed]
      exact ⟨fun h => ⟨h.1.2, h.1.1, h.2⟩, fun h => ⟨⟨h.2.1, h.1⟩, h.2.2⟩⟩

/-- Proper keys, as characters. -/
theorem foldl_setStep (ops : List (Id × α)) (s : PagedSet α) :
    ops.foldl setStep s = (ops.map fun op => (digitsKey op.1.1, op.2)).foldl sharedStep s := by
  rw [List.foldl_map]
  rfl

theorem allAllowed_setStep (ops : List (Id × α)) (s : PagedSet α) :
    AllAllowed setStep (fun s op => Safe s (digitsKey op.1.1)) s ops ↔
      AllAllowed sharedStep (fun s op => Safe s op.1) s (ops.map fun op => (digitsKey op.1.1, op.2)) := by
  induction ops generalizing s with
  | nil => exact Iff.rfl
  | cons op ops ih => exact and_congr_right fun _ => ih _

/-- A new set is exact. -/
theorem exact_new (allowOverwrite : Bool) (room : Nat) : Exact ({ allowOverwrite, room } : PagedSet α) := by
  have hkeys : keys (ElemIdx.new : ElemIdx α) = [] := by
    rw [← List.length_eq_zero_iff, length_keys]
    exact SetIntersect.size_eq_zero SetIntersect.lookup_new
  rw [exact_iff_keys]
  exact ⟨by rw [hkeys]; rfl, fun key hkey => absurd hkey (by rw [hkeys]; exact List.not_mem_nil)⟩

theorem counted_new (allowOverwrite : Bool) (room : Nat) : Counted ({ allowOverwrite, room } : PagedSet α) :=
  (((exact_iff_keys _).mp (exact_new allowOverwrite room)).1).ge

/-- **When the sets are exact.** A sequence of additions to a new set, overwriting or not, leaves the counter equal to
the number of the keys and the traversal with the full ids, if and only if every addition that stores an element does
so under a new key of one character. -/
theorem exact_iff (allowOverwrite : Bool) (room : Nat) :
    (∀ ops : List (Id × α), Exact (ops.foldl setStep { allowOverwrite, room }) ↔
        AllAllowed setStep (fun s op => Safe s (digitsKey op.1.1)) { allowOverwrite, room } ops) ∧
      ∀ ops : List (List UInt8 × α), Exact (ops.foldl sharedStep { allowOverwrite, room }) ↔
        AllAllowed sharedStep (fun s op => Safe s op.1) { allowOverwrite, room } ops := by
  have hshared : ∀ ops : List (List UInt8 × α), Exact (ops.foldl sharedStep { allowOverwrite, room }) ↔
      AllAllowed sharedStep (fun s op => Safe s op.1) { allowOverwrite, room } ops := by
    intro ops
    rw [exact_foldl_iff (counted_new allowOverwrite room)]
    exact and_iff_right (exact_new allowOverwrite room)
  refine ⟨fun ops => ?_, hshared⟩
  rw [foldl_setStep, allAllowed_setStep]
  exact hshared _

/-- **A key of two characters**, of which the traversal gives one; and **a key that is added twice** to a set that may
be overwritten, where it is counted twice. -/
theorem not_exact_long_or_again :
    ¬Exact ([(⟨[1, 0], List.cons_ne_nil _ _⟩, 7)].foldl setStep
        ({ allowOverwrite := false, room := 1 } : PagedSet Nat)) ∧
      ¬Exact ([(⟨[1], List.cons_ne_nil _ _⟩, 7), (⟨[1], List.cons_ne_nil _ _⟩, 8)].foldl setStep
        ({ allowOverwrite := true, room := 1 } : PagedSet Nat)) := by
  constructor
  · intro h
    have hlong := ((exact_iff_keys _).mp h).2 (digitsKey [1, 0]) (mem_keys.mpr ⟨7, rfl⟩)
    exact absurd hlong (by decide)
  · intro h
    have hcount := ((exact_iff_keys _).mp h).1
    exact absurd hcount (by decide +kernel)

end Knowdy.SetCounts
