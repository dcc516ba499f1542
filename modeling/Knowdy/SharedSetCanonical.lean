import Knowdy.Lib.Runs
import Knowdy.SharedSetRoundTrip

/-! # The file of a shared set is canonical

What `knd_shared_set_marshall` writes depends on the elements of the set only: neither on the order in which they were
added, nor on calls that were refused, nor on the values behind the bytes of a record. A folder is there only when an
element lies below it, since `save_elem` creates folders on its way to an element that it stores, or that is there.

* `Pruned` — every subfolder leads to an element; `pruned_saveElem` — insertion under an id keeps it so.
* `blockBytes_eq_iff` — such trees are written alike exactly when they hold the same records.
* `AddEvent`, `addStep` — sets built by any calls of `knd_shared_set_add`.
* `file_eq_iff` — **two files are equal exactly when the sets hold the same records**.
* `holds_reload` — a load brings the records of a file back. -/

namespace Knowdy

variable {α β : Type}

/-! ## (1) Trees without empty folders -/

namespace ElemIdx

/-- Some element lies below. -/
def Inhabited (idx : ElemIdx α) : Prop := ∃ ds, (idx.lookup ds).isSome

/-- **No folder without elements**, the root apart. -/
def Pruned : ElemIdx α → Prop
  | .null => True
  | .node _ idxs => ∀ i, ((idxs i).isNull = false → (idxs i).Inhabited) ∧ (idxs i).Pruned

theorem Pruned.idxs {idx : ElemIdx α} (h : idx.Pruned) (i : Digit) :
    ((idx.idxs i).isNull = false → (idx.idxs i).Inhabited) ∧ (idx.idxs i).Pruned := by
  cases idx with
  | null => exact ⟨(fun hnull => by cases hnull), trivial⟩
  | node es ss => exact h i

/-- The null pointer holds nothing. -/
theorem Inhabited.isNull {idx : ElemIdx α} (h : idx.Inhabited) : idx.isNull = false := by
  cases idx with
  | null =>
      obtain ⟨ds, hds⟩ := h
      simp at hds
  | node es ss => rfl

theorem pruned_orNew {idx : ElemIdx α} (h : idx.Pruned) : idx.orNew.Pruned := by
  cases idx with
  | null => exact fun i => ⟨(fun hnull => by cases hnull), trivial⟩
  | node es ss => exact h

end ElemIdx

open ElemIdx

/-- After an insertion under an id an element is stored there, the new one or the one that was there. -/
theorem isSome_lookup_saveElem (allowOverwrite : Bool) (elem : α) {ds : List Digit} (hds : ds ≠ [])
    (parent : ElemIdx α) : ((saveElem allowOverwrite elem (digitsKey ds) parent).2.lookup ds).isSome := by
  have hcases := saveElem_cases allowOverwrite elem (digitsKey ds) parent
  have hfree : parent.lookup ds = none → _ := fun hnone => @saveElem_ok_of_free _ elem _ hds _ hnone allowOverwrite
  generalize saveElem allowOverwrite elem (digitsKey ds) parent = r at hcases hfree
  obtain ⟨rc, idx⟩ := r
  cases rc with
  | ok =>
      obtain ⟨es, hes, -, -, hlookup⟩ := hcases
      rw [hlookup, if_pos (digitsKey_inj.mp hes)]
      rfl
  | error e =>
      rw [hcases ds]
      cases hlookup : parent.lookup ds with
      | some a => rfl
      | none => cases hfree hlookup

/-- **Insertion under an id leaves no empty folder behind.** -/
theorem pruned_saveElem (allowOverwrite : Bool) (elem : α) {ds : List Digit} (hds : ds ≠ []) {parent : ElemIdx α}
    (h : parent.Pruned) : (saveElem allowOverwrite elem (digitsKey ds) parent).2.Pruned := by
  induction ds generalizing parent with
  | nil => exact absurd rfl hds
  | cons i ds ih =>
      cases ds with
      | nil =>
          simp only [digitsKey_cons, digitsKey_nil, saveElem, objIdBase_objIdSeq]
          split
          · exact h
          · exact fun j => h.idxs j
      | cons j ds =>
          have hsub := ih (List.cons_ne_nil j ds) (pruned_orNew (h.idxs i).2)
          have hsome := isSome_lookup_saveElem allowOverwrite elem (List.cons_ne_nil j ds) (parent.idxs i).orNew
          rw [digitsKey_cons] at hsub hsome ⊢
          simp only [digitsKey_cons, saveElem, objIdBase_objIdSeq]
          intro k
          by_cases hk : k = i
          · subst hk
            simp only [Function.update_self]
            exact ⟨fun _ => ⟨_, hsome⟩, hsub⟩
          · simp only [Function.update_of_ne hk]
            exact h.idxs k

/-! ## (2) Trees with the same records -/

/-- **The same records**: under every id both trees hold nothing, or elements that are written alike. -/
def SameRecords (val : α → List UInt8) (val' : β → List UInt8) (idx : ElemIdx α) (idx' : ElemIdx β) : Prop :=
  ∀ ds, (idx.lookup ds).map val = (idx'.lookup ds).map val'

section Same

variable {val : α → List UInt8} {val' : β → List UInt8} {idx : ElemIdx α} {idx' : ElemIdx β}

theorem SameRecords.idxs (h : SameRecords val val' idx idx') (i : Digit) :
    SameRecords val val' (idx.idxs i) (idx'.idxs i) := by
  intro ds
  cases ds with
  | nil => rfl
  | cons j ds =>
      have hcons := h (i :: j :: ds)
      rwa [lookup_cons (List.cons_ne_nil j ds), lookup_cons (List.cons_ne_nil j ds)] at hcons

theorem SameRecords.inhabited (h : SameRecords val val' idx idx') : idx.Inhabited ↔ idx'.Inhabited := by
  refine exists_congr fun ds => ?_
  rw [← Option.isSome_map (f := val), ← Option.isSome_map (f := val'), h ds]

theorem SameRecords.payloadBlocks (h : SameRecords val val' idx idx') :
    payloadBlocks val idx.elems = payloadBlocks val' idx'.elems := by
  funext i
  have hi := h [i]
  rw [lookup_singleton, lookup_singleton] at hi
  rw [Knowdy.payloadBlocks, Knowdy.payloadBlocks]
  cases helem : idx.elems i with
  | none =>
      cases helem' : idx'.elems i with
      | none => rfl
      | some b => simp [helem, helem'] at hi
  | some a =>
      cases helem' : idx'.elems i with
      | none => simp [helem, helem'] at hi
      | some b => simpa [helem, helem'] using hi

/-- Folders that are there in a pruned tree are there in every pruned tree with the same records. -/
theorem SameRecords.isNull (h : SameRecords val val' idx idx') (hidx : idx.isNull = false → idx.Inhabited)
    (hidx' : idx'.isNull = false → idx'.Inhabited) : idx.isNull = idx'.isNull := by
  cases hnull : idx.isNull with
  | false => exact (h.inhabited.mp (hidx hnull)).isNull.symm
  | true =>
      cases hnull' : idx'.isNull with
      | true => rfl
      | false =>
          rw [(h.inhabited.mpr (hidx' hnull')).isNull] at hnull
          cases hnull

/-- **Trees with the same records are written alike.** -/
theorem SameRecords.blockBytes (h : SameRecords val val' idx idx') (hidx : idx.Pruned) (hidx' : idx'.Pruned)
    (hnull : idx.isNull = idx'.isNull) : idx.blockBytes val = idx'.blockBytes val' := by
  induction idx generalizing idx' with
  | null =>
      cases idx' with
      | null => rfl
      | node es' ss' => cases hnull
  | node es ss ih =>
      cases idx' with
      | null => cases hnull
      | node es' ss' =>
          have hsubs : (fun i => (ss i).blockBytes val) = fun i => (ss' i).blockBytes val' := by
            funext i
            exact ih i (h.idxs i) (hidx i).2 (hidx' i).2 ((h.idxs i).isNull (hidx i).1 (hidx' i).1)
          have hpayload : Knowdy.payloadBlocks val es = Knowdy.payloadBlocks val' es' := h.payloadBlocks
          rw [blockBytes_node, blockBytes_node, hsubs, hpayload]

end Same

/-! ## (3) Sets built by calls -/

/-- A call of `knd_shared_set_add`. -/
structure AddCall (α : Type) where
  key : List UInt8
  elem : α

/-- **The key is an id**: one to `KND_ID_SIZE` digits. -/
def AddCall.Valid (call : AddCall α) : Prop :=
  ∃ ds : List Digit, ds ≠ [] ∧ ds.length ≤ idSize ∧ call.key = digitsKey ds

/-- The set after a call, whatever the call returns. -/
def SharedSet.after (self : SharedSet α) (call : AddCall α) : SharedSet α :=
  (kndSharedSetAdd self call.key call.elem).2

/-- **A set that was built by calls** from an empty one. -/
def SharedSet.Built (self : SharedSet α) : Prop :=
  ∃ allowOverwrite, Reaches SharedSet.after (fun _ call => call.Valid) { allowOverwrite } self

/-- What is known of a set that was built by calls. -/
structure Compact (set : SharedSet α) : Prop where
  pruned : set.idx.Pruned
  fits : set.idx.Fits idSize

/-- The set, with the room of its root folder. -/
def Compact.idSet {set : SharedSet α} (h : Compact set) : IdSet α := ⟨set, h.fits⟩

theorem idx_kndSharedSetAdd (self : SharedSet α) (key : List UInt8) (elem : α) :
    (kndSharedSetAdd self key elem).2.idx = (saveElem self.allowOverwrite elem key self.idx).2 := by
  rw [kndSharedSetAdd]
  split <;> simp [*]

theorem Compact.after {self : SharedSet α} (h : Compact self) {call : AddCall α} (hvalid : call.Valid) :
    Compact (self.after call) := by
  obtain ⟨ds, hds, hlen, hkey⟩ := hvalid
  refine ⟨?_, fits_kndSharedSetAdd (by simpa [hkey] using hlen) h.fits⟩
  rw [SharedSet.after, idx_kndSharedSetAdd, hkey]
  exact pruned_saveElem _ _ hds h.pruned

/-- A set without elements. -/
theorem compact_new (allowOverwrite : Bool) : Compact ({ allowOverwrite } : SharedSet α) :=
  ⟨fun _ => ⟨(fun hnull => by cases hnull), trivial⟩, by simp [idSize, ElemIdx.Fits]⟩

theorem SharedSet.Built.compact {self : SharedSet α} (h : self.Built) : Compact self := by
  obtain ⟨allowOverwrite, hreaches⟩ := h
  exact hreaches.invariant (compact_new allowOverwrite) fun _ _ hc hvalid => hc.after hvalid

/-! ## (4) Files -/

/-- **The record under a key**: an element is stored there and is written as these bytes. -/
def Holds (self : SharedSet α) (val : α → List UInt8) (key bytes : List UInt8) : Prop :=
  ∃ e, kndSharedSetGet self key = .ok e ∧ val e = bytes

section Files

variable {self : SharedSet α} {self' : SharedSet β} {val : α → List UInt8} {val' : β → List UInt8}

theorem holds_digitsKey {ds : List Digit} {bytes : List UInt8} :
    Holds self val (digitsKey ds) bytes ↔ (self.idx.lookup ds).map val = some bytes := by
  rw [Option.map_eq_some_iff]
  refine exists_congr fun e => and_congr_left fun _ => ?_
  rw [kndSharedSetGet, getElem_eq_ok]
  constructor
  · rintro ⟨es, hes, hlookup⟩
    rwa [digitsKey_inj.mp hes]
  · exact fun hlookup => ⟨ds, rfl, hlookup⟩

theorem sameRecords_of_holds (h : ∀ key bytes, Holds self val key bytes ↔ Holds self' val' key bytes) :
    SameRecords val val' self.idx self'.idx := by
  intro ds
  refine Option.ext fun bytes => ?_
  rw [← holds_digitsKey, ← holds_digitsKey]
  exact h _ _

variable {cb : ElemMarshallCb α} {cb' : ElemMarshallCb β} {out out' : Output} {disk disk' n n' : Nat}
  {task task' : MarshallTask}

/-- **Sets with the same records are written as the same file.** -/
theorem file_eq_of_holds (hself : Compact self) (hself' : Compact self')
    (hcb : ∀ key e, kndSharedSetGet self key = .ok e → Marshalls cb val e)
    (hcb' : ∀ key e, kndSharedSetGet self' key = .ok e → Marshalls cb' val' e)
    (h : kndSharedSetMarshall self cb ⟨out, gspHeader, disk⟩ = .ok (n, task))
    (h' : kndSharedSetMarshall self' cb' ⟨out', gspHeader, disk'⟩ = .ok (n', task'))
    (hsame : ∀ key bytes, Holds self val key bytes ↔ Holds self' val' key bytes) : task.file = task'.file := by
  obtain ⟨hfile, -, hnull⟩ := @file_of_kndSharedSetMarshall _ hself.idSet _ _ hcb _ _ _ _ h
  obtain ⟨hfile', -, hnull'⟩ := @file_of_kndSharedSetMarshall _ hself'.idSet _ _ hcb' _ _ _ _ h'
  have hbytes := (sameRecords_of_holds hsame).blockBytes hself.pruned hself'.pruned (hnull.trans hnull'.symm)
  rw [hfile, hfile']
  exact congrArg (gspHeader ++ ·) hbytes

/-- The records of a file are those of the set. -/
theorem holds_iff_mem_calls (hself : Compact self)
    (hcb : ∀ key e, kndSharedSetGet self key = .ok e → Marshalls cb val e)
    (h : kndSharedSetMarshall self cb ⟨out, gspHeader, disk⟩ = .ok (n, task)) (hsize : task.file.length < 2 ^ 31) :
    ∃ (loaded : SharedSet Unit) (calls : List (List UInt8 × List UInt8)),
      kndSharedSetUnmarshallFile {} task.file task.file.length recordCall [] = .ok (loaded, calls) ∧
        ∀ key bytes, Holds self val key bytes ↔ (key, bytes) ∈ calls := by
  obtain ⟨hfile, hn, -⟩ := @file_of_kndSharedSetMarshall _ hself.idSet _ _ hcb _ _ _ _ h
  have hlen : 3 + n = task.file.length := by rw [hfile, hn, List.length_append]; rfl
  have hload := @unmarshallFile_recordCall _ Unit hself.idSet _ _ hcb _ _ _ _ h hsize {}
  rw [hlen] at hload
  refine ⟨_, _, hload, fun key bytes => ?_⟩
  rw [List.mem_map]
  constructor
  · rintro ⟨e, hget, rfl⟩
    exact ⟨(key, e), IdSet.mem_entries.mpr hget, rfl⟩
  · rintro ⟨⟨key', e⟩, hmem, heq⟩
    obtain ⟨rfl, rfl⟩ := Prod.mk.inj heq
    exact ⟨e, IdSet.mem_entries.mp hmem, rfl⟩

/-- **The file of a set is canonical**: whatever calls have built two sets, their files are equal exactly when they
hold the same records under the same ids. -/
theorem file_eq_iff (hself : self.Built) (hself' : self'.Built)
    (hcb : ∀ key e, kndSharedSetGet self key = .ok e → Marshalls cb val e)
    (hcb' : ∀ key e, kndSharedSetGet self' key = .ok e → Marshalls cb' val' e)
    (h : kndSharedSetMarshall self cb ⟨out, gspHeader, disk⟩ = .ok (n, task))
    (h' : kndSharedSetMarshall self' cb' ⟨out', gspHeader, disk'⟩ = .ok (n', task'))
    (hsize : task.file.length < 2 ^ 31) :
    task.file = task'.file ↔ ∀ key bytes, Holds self val key bytes ↔ Holds self' val' key bytes := by
  refine ⟨fun heq key bytes => ?_, file_eq_of_holds hself.compact hself'.compact hcb hcb' h h'⟩
  obtain ⟨loaded, calls, hload, hcalls⟩ := holds_iff_mem_calls hself.compact hcb h hsize
  obtain ⟨loaded', calls', hload', hcalls'⟩ := holds_iff_mem_calls hself'.compact hcb' h' (heq ▸ hsize)
  rw [heq, hload'] at hload
  obtain ⟨-, rfl⟩ := Prod.mk.inj (Checked.ok.inj hload)
  rw [hcalls, hcalls']

end Files

/-- Two ids are added. -/
def twoCalls : List (AddCall Unit) := [⟨[49], ()⟩, ⟨[48, 48], ()⟩]

/-- They are added in the other order, one of them twice. -/
def threeCalls : List (AddCall Unit) := [⟨[48, 48], ()⟩, ⟨[48, 48], ()⟩, ⟨[49], ()⟩]

theorem built_of_calls {calls : List (AddCall α)} (h : ∀ call ∈ calls, call.Valid) :
    (calls.foldl SharedSet.after {} : SharedSet α).Built :=
  ⟨false, Reaches.refl.foldl (allAllowed_of_forall h _)⟩

theorem valid_one : (⟨[49], ()⟩ : AddCall Unit).Valid := ⟨[1], by decide, by decide, by decide⟩

theorem valid_zeros : (⟨[48, 48], ()⟩ : AddCall Unit).Valid := ⟨[0, 0], by decide, by decide, by decide⟩

theorem file_eq_iff_threeCalls :
    gspHeader ++ [49, 120, 0, 1, 48, 120, 0, 1, 4, 1, 48, 6, 1, 1, 1, 4, 1] =
        gspHeader ++ [49, 120, 0, 1, 48, 120, 0, 1, 4, 1, 48, 6, 1, 1, 1, 4, 1] ↔
      ∀ key bytes, Holds (twoCalls.foldl SharedSet.after {}) (fun _ => [120]) key bytes ↔
        Holds (threeCalls.foldl SharedSet.after {}) (fun _ => [120]) key bytes := by
  have htwo : (twoCalls.foldl SharedSet.after {} : SharedSet Unit).Built :=
    built_of_calls (by simp [twoCalls, valid_one, valid_zeros])
  have hthree : (threeCalls.foldl SharedSet.after {} : SharedSet Unit).Built :=
    built_of_calls (by simp [threeCalls, valid_one, valid_zeros])
  have hfile : kndSharedSetMarshall (twoCalls.foldl SharedSet.after {}) soloCb ⟨⟨[], 1024⟩, gspHeader, 1024⟩ =
      .ok (17, ⟨⟨[4, 1], 1024⟩,
        gspHeader ++ [49, 120, 0, 1, 48, 120, 0, 1, 4, 1, 48, 6, 1, 1, 1, 4, 1], 1024⟩) := by
    decide +kernel
  have hfile' : kndSharedSetMarshall (threeCalls.foldl SharedSet.after {}) soloCb ⟨⟨[], 1024⟩, gspHeader, 1024⟩ =
      .ok (17, ⟨⟨[4, 1], 1024⟩,
        gspHeader ++ [49, 120, 0, 1, 48, 120, 0, 1, 4, 1, 48, 6, 1, 1, 1, 4, 1], 1024⟩) := by
    decide +kernel
  exact file_eq_iff htwo hthree (fun _ e _ => marshalls_soloCb e) (fun _ e _ => marshalls_soloCb e) hfile hfile'
    (by decide)

-- a key with another character leaves an empty folder behind, which is written
example : (kndSharedSetMarshall (([⟨[48, 42], ()⟩, ⟨[49], ()⟩] : List (AddCall Unit)).foldl SharedSet.after {}) soloCb
      ⟨⟨[], 1024⟩, gspHeader, 1024⟩).toOption.map (fun r => r.1) ≠
    (kndSharedSetMarshall (([⟨[49], ()⟩] : List (AddCall Unit)).foldl SharedSet.after {}) soloCb
      ⟨⟨[], 1024⟩, gspHeader, 1024⟩).toOption.map fun r => r.1 := by
  decide +kernel

/-! ## (5) Loading a file -/

section Reload

variable {σ : Type} {set : σ → SharedSet β} {val' : β → List UInt8}

/-- **A callback that adds the records it is given**: a call that returns has added an element that is written as the
bytes of the record, under the id of the record, to a set that does not overwrite. -/
def AddsRecords (set : σ → SharedSet β) (val' : β → List UInt8) (f : List UInt8 → List UInt8 → σ → GspM σ) : Prop :=
  ∀ id bytes s s', f id bytes s = .ok s' →
    ∃ b, kndSharedSetAdd (set s) id b = (.ok (), set s') ∧ val' b = bytes

/-- An element is added. -/
theorem holds_kndSharedSetAdd {self self' : SharedSet β} {id : List UInt8} {b : β}
    (h : kndSharedSetAdd self id b = (.ok (), self')) (hover : self.allowOverwrite = false) (key bytes : List UInt8) :
    Holds self' val' key bytes ↔ (key, bytes) = (id, val' b) ∨ Holds self val' key bytes := by
  simp only [Holds, kndSharedSetAdd_ok h, Prod.mk.injEq]
  by_cases hkey : key = id
  · subst hkey
    simp [(kndSharedSetAdd_new h hover).1, eq_comm]
  · simp [hkey]

/-- A new set is empty. -/
theorem not_holds_new (key bytes : List UInt8) : ¬Holds ({} : SharedSet β) val' key bytes :=
  fun ⟨_, hget, _⟩ => kndSharedSetGet_fresh _ _ hget

/-- What the calls have added. -/
theorem holds_foldlM {f : List UInt8 → List UInt8 → σ → GspM σ} (hf : AddsRecords set val' f)
    {l : List (List UInt8 × List UInt8)} (hids : ∀ e ∈ l, ∃ ds : List Digit, ds ≠ [] ∧ ds.length ≤ idSize ∧
      e.1 = digitsKey ds) {s s' : σ} (hfold : l.foldlM (fun s e => f e.1 e.2 s) s = .ok s')
    (hs : Compact (set s)) (hover : (set s).allowOverwrite = false) :
    Compact (set s') ∧ (set s').allowOverwrite = false ∧
      ∀ key bytes, Holds (set s') val' key bytes ↔ (key, bytes) ∈ l ∨ Holds (set s) val' key bytes := by
  induction l generalizing s with
  | nil =>
      cases hfold
      exact ⟨hs, hover, fun key bytes => by simp⟩
  | cons e l ih =>
      rw [List.foldlM_cons, Checked.bind_eq_ok] at hfold
      obtain ⟨s₁, hcall, hrest⟩ := hfold
      obtain ⟨b, hadd, hb⟩ := hf _ _ _ _ hcall
      obtain ⟨hfree, -, hover₁⟩ := kndSharedSetAdd_new hadd hover
      have hs₁ : Compact (set s₁) := by
        have hafter := @Compact.after _ _ hs ⟨e.1, b⟩ (hids e (List.mem_cons_self ..))
        rwa [SharedSet.after, hadd] at hafter
      obtain ⟨hcompact, hkept, hholds⟩ := ih (fun e' he' => hids e' (List.mem_cons_of_mem e he')) hrest hs₁ hover₁
      refine ⟨hcompact, hkept, fun key bytes => ?_⟩
      rw [hholds, holds_kndSharedSetAdd hadd hover, hb, List.mem_cons, or_assoc, or_left_comm]

/-- The ids of a set whose keys fit an id buffer. -/
theorem valid_of_mem_entries {self : IdSet α} {e : List UInt8 × α} (h : e ∈ self.entries) :
    ∃ ds : List Digit, ds ≠ [] ∧ ds.length ≤ idSize ∧ e.1 = digitsKey ds := by
  obtain ⟨ds, hkey, hlookup⟩ := mem_entries.mp (show (e.1, e.2) ∈ self.idx.entries [] from h)
  refine ⟨ds, ?_, length_le_of_fits self.fits hlookup, by simpa using hkey⟩
  rintro rfl
  cases hlookup

variable {self : SharedSet α} {val : α → List UInt8} {cb : ElemMarshallCb α} {out : Output} {disk n : Nat}
  {task : MarshallTask}

/-- **A load brings the records of a file back**, whatever objects they are made into. -/
theorem holds_reload (hself : Compact self)
    (hcb : ∀ key e, kndSharedSetGet self key = .ok e → Marshalls cb val e)
    (h : kndSharedSetMarshall self cb ⟨out, gspHeader, disk⟩ = .ok (n, task)) (hsize : task.file.length < 2 ^ 31)
    {f : List UInt8 → List UInt8 → σ → GspM σ} (hf : AddsRecords set val' f) {s s' : σ} (hs : set s = {})
    {dst dst' : SharedSet β}
    (hload : kndSharedSetUnmarshallFile dst task.file task.file.length (ofValue f) s = .ok (dst', s')) :
    Compact (set s') ∧ (set s').allowOverwrite = false ∧
      ∀ key bytes, Holds (set s') val' key bytes ↔ Holds self val key bytes := by
  obtain ⟨hfile, hn, -⟩ := @file_of_kndSharedSetMarshall _ hself.idSet _ _ hcb _ _ _ _ h
  have hlen : 3 + n = task.file.length := by rw [hfile, hn, List.length_append]; rfl
  rw [← hlen, @unmarshallFile_marshall _ _ _ hself.idSet _ _ hcb _ _ _ _ h hsize, Checked.bind_eq_ok] at hload
  obtain ⟨s₁, hfold, hload⟩ := hload
  obtain ⟨-, rfl⟩ := Prod.mk.inj (Checked.ok.inj hload)
  have hfold' : (hself.idSet.entries.map fun e => (e.1, val e.2)).foldlM
      (fun s e => f e.1 e.2 s) s = .ok s₁ := by
    rw [List.foldlM_map]
    exact hfold
  have hids : ∀ e ∈ hself.idSet.entries.map fun e => (e.1, val e.2),
      ∃ ds : List Digit, ds ≠ [] ∧ ds.length ≤ idSize ∧ e.1 = digitsKey ds := by
    intro e he
    obtain ⟨e', hmem, rfl⟩ := List.mem_map.mp he
    obtain ⟨ds, hds, hlen', hkey⟩ := valid_of_mem_entries hmem
    exact ⟨ds, hds, hlen', hkey⟩
  obtain ⟨hcompact, hover, hholds⟩ := holds_foldlM hf hids hfold' (hs ▸ compact_new false) (by rw [hs])
  refine ⟨hcompact, hover, fun key bytes => ?_⟩
  rw [hholds, List.mem_map, hs, iff_false_intro (not_holds_new key bytes), or_false]
  constructor
  · rintro ⟨⟨key', e⟩, hmem, heq⟩
    obtain ⟨rfl, rfl⟩ := Prod.mk.inj heq
    exact ⟨e, IdSet.mem_entries.mp hmem, rfl⟩
  · rintro ⟨e, hget, rfl⟩
    exact ⟨(key, e), IdSet.mem_entries.mpr hget, rfl⟩

end Reload

end Knowdy
