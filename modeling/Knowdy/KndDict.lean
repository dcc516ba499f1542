import Knowdy.Lib.Runs
import Knowdy.SharedDict
import Mathlib.Data.Finmap

/-! # The dictionary of a task

`kndDict` of `knd_dict.c`: a hash table whose buckets grow at the front, for one task. A removed item stays in its
bucket, and the number of keys is counted by hand.

* `KndDict`, `kndDictGet`, `kndDictSet`, `kndDictRemove`, `kndDictReset` — the table, the code.
* `Op.apply` — a call; `Op.spec` — what it does to a finite map.
* `Agrees` — the table is the map; `Refines` — it is, and every call answers so, in a sequence of calls.
* `Safe` — no key is removed twice, and no key is there when the table is reset.
* `refines_iff` — a sequence refines the finite map if and only if every call is safe. -/

namespace Knowdy.Dict

/-! ## (1) The code -/

/-- `knd_dict_item_phase`. -/
inductive Phase
  /-- `KND_DICT_VALID`. -/
  | valid
  /-- `KND_DICT_PENDING`. -/
  | pending
  /-- `KND_DICT_REMOVED`. -/
  | removed
  deriving DecidableEq, Repr

/-- `struct kndDictItem`. -/
structure Item (α : Type) where
  /-- `phase`. -/
  phase : Phase
  /-- `key` and `key_size`. -/
  key : Name
  /-- `data`. -/
  data : α
  deriving DecidableEq

/-- `struct kndDict`: the buckets, newest item first. -/
structure KndDict (α : Type) where
  /-- `size`. -/
  size : Nat
  /-- There is a bucket. -/
  size_pos : 0 < size
  /-- `hash_array`. -/
  hashArray : Nat → List (Item α) := fun _ => []
  /-- `mempool`. -/
  mempool : MemPool
  /-- `num_keys`, a `size_t`. -/
  numKeys : Nat := 0

variable {α : Type}

/-- `knd_dict_new`. -/
def kndDictNew (α : Type) (size : Nat) (size_pos : 0 < size) (mempool : MemPool) : KndDict α :=
  { size, size_pos, mempool }

namespace KndDict

variable (self : KndDict α) (key : Name)

/-- The bucket index of a key; `knd_dict_hash` is the hash of the shared dictionary. -/
def slot : Nat := kndSharedDictHash key % self.size

/-- The bucket of a key. -/
def bucket : List (Item α) := self.hashArray (self.slot key)

/-- The first item of a key in its bucket. -/
def item? : Option (Item α) := (self.bucket key).find? fun item => item.key = key

/-- A write to the bucket of a key. -/
def setBucket (bucket : List (Item α)) : KndDict α :=
  { self with hashArray := Function.update self.hashArray (self.slot key) bucket }

/-- The counter of keys and the memory pool change. -/
def recount (numKeys : Nat) (mempool : MemPool) : KndDict α := { self with numKeys, mempool }

end KndDict

/-- `knd_dict_get`. -/
def kndDictGet (self : KndDict α) (key : Name) : Option α :=
  match self.item? key with
  | none => none
  | some item => if item.phase = .removed then none else some item.data

/-- `knd_dict_set`. -/
def kndDictSet (self : KndDict α) (key : Name) (data : α) : Except KndErr Unit × KndDict α :=
  if (self.item? key).any fun item => item.phase = .valid then (.error .conflict, self)
  else
    match self.mempool.tinyPage with
    | none => (.error .nomem, self)
    | some mempool =>
        (.ok (), (self.setBucket key (⟨.valid, key, data⟩ :: self.bucket key)).recount
          ((self.numKeys + 1) % 2 ^ 64) mempool)

/-- The first item of a key is marked. -/
def markRemoved (key : Name) : List (Item α) → List (Item α)
  | [] => []
  | item :: items =>
      if item.key = key then { item with phase := .removed } :: items else item :: markRemoved key items

/-- `knd_dict_remove`. -/
def kndDictRemove (self : KndDict α) (key : Name) : Except KndErr Unit × KndDict α :=
  match self.item? key with
  | none => (.error .fail, self)
  | some _ =>
      (.ok (), (self.setBucket key (markRemoved key (self.bucket key))).recount
        (sizeSub self.numKeys 1) self.mempool)

/-- `knd_dict_reset`. -/
def kndDictReset (self : KndDict α) : KndDict α := { self with hashArray := fun _ => [] }

/-! ## (2) Calls -/

/-- A call. -/
inductive Op (α : Type)
  /-- `knd_dict_set`. -/
  | set (key : Name) (data : α)
  /-- `knd_dict_get`. -/
  | get (key : Name)
  /-- `knd_dict_remove`. -/
  | remove (key : Name)
  /-- `knd_dict_reset`. -/
  | reset

/-- What a call returns. -/
inductive Answer (α : Type)
  /-- Of a change. -/
  | done (result : Except KndErr Unit)
  /-- Of a lookup. -/
  | found (data : Option α)

/-- **A call.** -/
def Op.apply (self : KndDict α) : Op α → Answer α × KndDict α
  | .set key data => (.done (kndDictSet self key data).1, (kndDictSet self key data).2)
  | .get key => (.found (kndDictGet self key), self)
  | .remove key => (.done (kndDictRemove self key).1, (kndDictRemove self key).2)
  | .reset => (.done (.ok ()), kndDictReset self)

/-- A finite map of names. -/
abbrev NameMap (α : Type) := Finmap fun _ : Name => α

/-- **What a call does to a finite map**, and what it returns; there may be no memory for a new key. -/
def Op.spec (memory : Bool) (m : NameMap α) : Op α → Answer α × NameMap α
  | .set key data =>
      if key ∈ m then (.done (.error .conflict), m)
      else if memory then (.done (.ok ()), m.insert key data)
      else (.done (.error .nomem), m)
  | .get key => (.found (m.lookup key), m)
  | .remove key => if key ∈ m then (.done (.ok ()), m.erase key) else (.done (.error .fail), m)
  | .reset => (.done (.ok ()), ∅)

/-- **The table is the map**, and counts its keys. -/
structure Agrees (d : KndDict α) (m : NameMap α) : Prop where
  /-- Lookups. -/
  get : ∀ key, kndDictGet d key = m.lookup key
  /-- `num_keys`. -/
  count : d.numKeys = m.keys.card

/-- Is there memory for one more item? -/
def KndDict.hasMemory (self : KndDict α) : Bool := self.mempool.tinyPage.isSome

/-- **A sequence of calls refines the finite map.** -/
def Refines (self : KndDict α) (m : NameMap α) : List (Op α) → Prop
  | [] => Agrees self m
  | op :: ops =>
      Agrees self m ∧ (op.apply self).1 = (op.spec self.hasMemory m).1 ∧
        Refines (op.apply self).2 (op.spec self.hasMemory m).2 ops

/-- **A safe call**: a removed item is not removed again, and all are removed at a reset. -/
def Safe (self : KndDict α) : Op α → Prop
  | .remove key => ∀ item, self.item? key = some item → item.phase ≠ .removed
  | .reset => ∀ key item, self.item? key = some item → item.phase = .removed
  | _ => True

/-! ## (3) Items -/

theorem find?_markRemoved (key key' : Name) (items : List (Item α)) :
    (markRemoved key items).find? (fun item => item.key = key') =
      if key' = key then (items.find? fun item => item.key = key).map fun item => { item with phase := .removed }
      else items.find? fun item => item.key = key' := by
  induction items with
  | nil => simp [markRemoved]
  | cons item items ih =>
      rw [markRemoved]
      by_cases hitem : item.key = key
      · rw [if_pos hitem]
        by_cases hkey : key' = key
        · simp [hitem, hkey]
        · have hne : item.key ≠ key' := fun h => hkey (h.symm.trans hitem)
          simp [hkey, hne]
      · rw [if_neg hitem, List.find?_cons, ih]
        by_cases hkey : key' = key
        · subst hkey
          simp [hitem]
        · simp [hkey, List.find?_cons]

namespace KndDict

variable {self : KndDict α} {key key' : Name}

theorem bucket_setBucket (items : List (Item α)) :
    (self.setBucket key items).bucket key' = if self.slot key' = self.slot key then items else self.bucket key' := by
  have hupdate : (self.setBucket key items).bucket key' = Function.update self.hashArray (self.slot key) items
      (self.slot key') := rfl
  rw [hupdate, Function.update_apply]
  rfl

/-- The first items after a write to a bucket that keeps those of other keys. -/
theorem item?_setBucket {items : List (Item α)} {found : Option (Item α)}
    (hfound : items.find? (fun item => item.key = key) = found)
    (hother : ∀ key', key' ≠ key → items.find? (fun item => item.key = key') =
      (self.bucket key).find? fun item => item.key = key') :
    (self.setBucket key items).item? key' = if key' = key then found else self.item? key' := by
  rw [item?, bucket_setBucket]
  by_cases hkey : key' = key
  · rw [hkey, if_pos rfl, if_pos rfl, hfound]
  · rw [if_neg hkey]
    by_cases hslot : self.slot key' = self.slot key
    · rw [if_pos hslot, hother key' hkey, item?, bucket, bucket, hslot]
    · rw [if_neg hslot, item?]

theorem item?_recount (self : KndDict α) (numKeys : Nat) (mempool : MemPool) (key : Name) :
    (self.recount numKeys mempool).item? key = self.item? key := rfl

/-- A new item in front. -/
theorem item?_push (self : KndDict α) (key key' : Name) (data : α) :
    (self.setBucket key (⟨.valid, key, data⟩ :: self.bucket key)).item? key' =
      if key' = key then some ⟨.valid, key, data⟩ else self.item? key' := by
  refine item?_setBucket (by simp) fun key' hne => ?_
  rw [List.find?_cons_of_neg (by simpa using Ne.symm hne)]

/-- A removed item. -/
theorem item?_markRemoved (self : KndDict α) (key key' : Name) :
    (self.setBucket key (markRemoved key (self.bucket key))).item? key' =
      if key' = key then (self.item? key).map fun item => { item with phase := .removed } else self.item? key' := by
  refine item?_setBucket ?_ fun key' hne => ?_
  · rw [find?_markRemoved, if_pos rfl]
    rfl
  · rw [find?_markRemoved, if_neg hne]

end KndDict

/-! ## (4) One call -/

/-- **What holds between two calls**: the table is the map, its items are valid or removed, and there is not more
memory than a `size_t` counts. -/
structure Inv (d : KndDict α) (m : NameMap α) : Prop where
  /-- The table is the map. -/
  agrees : Agrees d m
  /-- No item is pending. -/
  settled : ∀ key item, d.item? key = some item → item.phase ≠ .pending
  /-- Keys that are there, and pages for more. -/
  memory : m.keys.card + d.mempool.tinyPages < 2 ^ 64

section Calls

variable {self d' : KndDict α} {m : NameMap α} {key : Name} {data : α}

theorem kndDictGet_eq (self : KndDict α) (key : Name) :
    kndDictGet self key = (self.item? key).bind fun item => if item.phase = .removed then none else some item.data := by
  rw [kndDictGet]
  cases self.item? key <;> rfl

/-- Presence by the first item. -/
theorem Inv.mem_iff (h : Inv self m) : key ∈ m ↔ ∃ item, self.item? key = some item ∧ item.phase = .valid := by
  rw [← Finmap.lookup_isSome, ← h.agrees.get, kndDictGet_eq]
  cases hitem : self.item? key with
  | none => simp
  | some item =>
      have hpending := h.settled key item hitem
      cases hphase : item.phase with
      | valid => simp [hphase]
      | pending => exact absurd hphase hpending
      | removed => simp [hphase]

theorem keys_insert (m : NameMap α) (key : Name) (data : α) : (m.insert key data).keys = insert key m.keys := by
  ext key'
  simp [Finmap.mem_keys, Finmap.mem_insert]

theorem keys_erase (m : NameMap α) (key : Name) : (m.erase key).keys = m.keys.erase key := by
  ext key'
  simp [Finmap.mem_keys]

/-- A change of the first item of one key. -/
theorem Inv.change (h : Inv self m) {m' : NameMap α} {found : Option (Item α)}
    (hitem : ∀ key', d'.item? key' = if key' = key then found else self.item? key')
    (hfound : (found.bind fun item => if item.phase = .removed then none else some item.data) = m'.lookup key)
    (hother : ∀ key', key' ≠ key → m'.lookup key' = m.lookup key')
    (hphase : ∀ item, found = some item → item.phase ≠ .pending) (hcount : d'.numKeys = m'.keys.card)
    (hmemory : m'.keys.card + d'.mempool.tinyPages < 2 ^ 64) : Inv d' m' := by
  refine ⟨⟨fun key' => ?_, hcount⟩, fun key' item hsome => ?_, hmemory⟩
  · rw [kndDictGet_eq, hitem]
    by_cases hkey : key' = key
    · rw [if_pos hkey, hkey, hfound]
    · rw [if_neg hkey, hother key' hkey, ← h.agrees.get, kndDictGet_eq]
  · rw [hitem] at hsome
    by_cases hkey : key' = key
    · rw [if_pos hkey] at hsome
      exact hphase item hsome
    · rw [if_neg hkey] at hsome
      exact h.settled key' item hsome

/-- **`knd_dict_set`** does what it does to a map. -/
theorem Inv.set (h : Inv self m) (key : Name) (data : α) :
    ((Op.set key data).apply self).1 = ((Op.set key data).spec self.hasMemory m).1 ∧
      Inv ((Op.set key data).apply self).2 ((Op.set key data).spec self.hasMemory m).2 := by
  rw [Op.apply, Dict.kndDictSet, Op.spec]
  by_cases hmem : key ∈ m
  · obtain ⟨item, hitem, hphase⟩ := h.mem_iff.mp hmem
    rw [if_pos hmem, if_pos (by simp [hitem, hphase])]
    exact ⟨rfl, h⟩
  · have hvalid : ¬((self.item? key).any fun item => item.phase = .valid) = true := by
      cases hitem : self.item? key with
      | none => simp
      | some item =>
          intro hphase
          exact hmem (h.mem_iff.mpr ⟨item, hitem, by simpa using hphase⟩)
    rw [if_neg hmem, if_neg hvalid, KndDict.hasMemory, MemPool.tinyPage]
    have hbound := h.memory
    by_cases hpages : self.mempool.tinyPages = 0
    · rw [if_pos hpages, if_neg (by simp)]
      exact ⟨rfl, h⟩
    · rw [if_neg hpages, if_pos Option.isSome_some]
      have hcard : (m.insert key data).keys.card = m.keys.card + 1 := by
        rw [keys_insert, Finset.card_insert_of_notMem (mt Finmap.mem_keys.mp hmem)]
      have hitems := fun key' => KndDict.item?_push self key key' data
      refine ⟨rfl, h.change (fun key' => (KndDict.item?_recount ..).trans (hitems key')) ?_ (fun key' hne => ?_)
        ?_ ?_ ?_⟩
      · rw [Finmap.lookup_insert]
        rfl
      · exact Finmap.lookup_insert_of_ne m hne
      · intro item hitem
        cases hitem
        exact Phase.noConfusion
      · rw [hcard, ← h.agrees.count]
        refine Nat.mod_eq_of_lt ?_
        rw [h.agrees.count]
        omega
      · rw [hcard]
        show _ + (self.mempool.tinyPages - 1) < _
        omega

/-- **`knd_dict_remove`** does what it does to a map, unless the key was removed. -/
theorem Inv.remove (h : Inv self m) (hsafe : Safe self (.remove key)) :
    ((Op.remove key).apply self).1 = ((Op.remove key).spec self.hasMemory m).1 ∧
      Inv ((Op.remove key).apply self).2 ((Op.remove key).spec self.hasMemory m).2 := by
  rw [Op.apply, kndDictRemove, Op.spec]
  cases hitem : self.item? key with
  | none =>
      have hmem : key ∉ m := by
        rw [h.mem_iff, hitem]
        simp
      rw [if_neg hmem]
      exact ⟨rfl, h⟩
  | some item =>
      have hphase : item.phase = .valid := by
        have hremoved := hsafe item hitem
        have hpending := h.settled key item hitem
        cases hphase : item.phase with
        | valid => rfl
        | pending => exact absurd hphase hpending
        | removed => exact absurd hphase hremoved
      have hmem : key ∈ m := h.mem_iff.mpr ⟨item, hitem, hphase⟩
      have hpos : 0 < m.keys.card := Finset.card_pos.mpr ⟨key, Finmap.mem_keys.mpr hmem⟩
      have hbound := h.memory
      have hcard : (m.erase key).keys.card = m.keys.card - 1 := by
        rw [keys_erase, Finset.card_erase_of_mem (Finmap.mem_keys.mpr hmem)]
      rw [if_pos hmem]
      have hitems := KndDict.item?_markRemoved self key
      refine ⟨rfl, h.change (fun key' => (KndDict.item?_recount ..).trans (hitems key')) ?_ (fun key' hne => ?_)
        ?_ ?_ ?_⟩
      · rw [hitem, Finmap.lookup_erase]
        rfl
      · exact Finmap.lookup_erase_ne hne
      · rintro item' hitem'
        rw [hitem] at hitem'
        cases hitem'
        exact Phase.noConfusion
      · rw [hcard, ← h.agrees.count]
        show sizeSub self.numKeys 1 = self.numKeys - 1
        rw [sizeSub, h.agrees.count]
        omega
      · rw [hcard]
        show _ + self.mempool.tinyPages < _
        omega

/-- **`knd_dict_reset`** does what it does to a map, if no key is there. -/
theorem Inv.reset (h : Inv self m) (hsafe : Safe self .reset) :
    Inv (Op.reset.apply self).2 (Op.reset.spec self.hasMemory m).2 := by
  have hempty : m = ∅ := by
    refine Finmap.ext_lookup fun key => ?_
    rw [Finmap.lookup_empty, Finmap.lookup_eq_none, h.mem_iff]
    rintro ⟨item, hitem, hphase⟩
    rw [hsafe key item hitem] at hphase
    cases hphase
  have hcount := h.agrees.count
  have hmemory := h.memory
  rw [hempty] at hcount hmemory
  exact ⟨⟨fun key => rfl, hcount⟩, fun key item hitem => (by cases hitem), hmemory⟩

/-- **A safe call** answers like the map, and the table stays the map. -/
theorem Inv.apply (h : Inv self m) {op : Op α} (hsafe : Safe self op) :
    (op.apply self).1 = (op.spec self.hasMemory m).1 ∧ Inv (op.apply self).2 (op.spec self.hasMemory m).2 := by
  cases op with
  | set key data => exact h.set key data
  | get key => exact ⟨congrArg Answer.found (h.agrees.get key), h⟩
  | remove key => exact h.remove hsafe
  | reset => exact ⟨rfl, h.reset hsafe⟩

/-! ## (5) Sequences of calls -/

theorem Refines.agrees {ops : List (Op α)} (h : Refines self m ops) : Agrees self m := by
  cases ops with
  | nil => exact h
  | cons op ops => exact h.1

/-- **A call that is not safe** gives a wrong answer or a wrong count. -/
theorem Inv.safe_of_refines (h : Inv self m) {op : Op α} {ops : List (Op α)} (hrefines : Refines self m (op :: ops)) :
    Safe self op := by
  obtain ⟨-, hanswer, hnext⟩ := hrefines
  cases op with
  | set key data => trivial
  | get key => trivial
  | remove key =>
      intro item hitem hphase
      have hmem : key ∉ m := by
        rw [h.mem_iff, hitem]
        rintro ⟨item', hsome, hvalid⟩
        cases hsome
        rw [hphase] at hvalid
        cases hvalid
      rw [Op.apply, kndDictRemove, hitem, Op.spec, if_neg hmem] at hanswer
      cases hanswer
  | reset =>
      have hcount : self.numKeys = (∅ : NameMap α).keys.card := hnext.agrees.count
      intro key item hitem
      rw [h.agrees.count, Finmap.keys_empty, Finset.card_empty, Finset.card_eq_zero] at hcount
      have hmem : key ∉ m := by
        rw [← Finmap.mem_keys, hcount]
        exact Finset.notMem_empty key
      have hpending := h.settled key item hitem
      cases hphase : item.phase with
      | valid => exact absurd (h.mem_iff.mpr ⟨item, hitem, hphase⟩) hmem
      | pending => exact absurd hphase hpending
      | removed => rfl

/-- **From any state.** -/
theorem Inv.refines_iff_safe (h : Inv self m) (ops : List (Op α)) :
    Refines self m ops ↔ AllAllowed (fun d op => (Op.apply d op).2) Safe self ops := by
  induction ops generalizing self m with
  | nil => exact iff_of_true h.agrees trivial
  | cons op ops ih =>
      constructor
      · intro hrefines
        have hsafe := h.safe_of_refines hrefines
        exact ⟨hsafe, (ih (h.apply hsafe).2).mp hrefines.2.2⟩
      · rintro ⟨hsafe, hall⟩
        obtain ⟨hanswer, hnext⟩ := h.apply hsafe
        exact ⟨h.agrees, hanswer, (ih hnext).mpr hall⟩

/-- A new table is the empty map. -/
theorem inv_new (size : Nat) (size_pos : 0 < size) {mempool : MemPool} (hpages : mempool.tinyPages < 2 ^ 64) :
    Inv (kndDictNew α size size_pos mempool) ∅ := by
  refine ⟨⟨fun key => rfl, rfl⟩, fun key item hitem => (by cases hitem), ?_⟩
  rw [Finmap.keys_empty, Finset.card_empty, Nat.zero_add]
  exact hpages

/-- **When the dictionary refines a finite map.** In every sequence of calls on a new table, of any size and with any
memory, every call answers like the map and the table stays the map, if and only if no call removes a key that was
removed, and no key is there when the table is reset. -/
theorem refines_iff (size : Nat) (size_pos : 0 < size) (mempool : MemPool) (hpages : mempool.tinyPages < 2 ^ 64)
    (ops : List (Op α)) :
    Refines (kndDictNew α size size_pos mempool) ∅ ops ↔
      AllAllowed (fun d op => (Op.apply d op).2) Safe (kndDictNew α size size_pos mempool) ops := by
  exact (inv_new size size_pos hpages).refines_iff_safe ops

end Calls

/-- A key that is removed and set again. -/
theorem refines_iff_reused :
    Refines (kndDictNew Nat 10 (by decide) ⟨3⟩) ∅ [.set [97] 1, .remove [97], .set [97] 2, .get [97]] ↔
      AllAllowed (fun d op => (Op.apply d op).2) Safe (kndDictNew Nat 10 (by decide) ⟨3⟩)
        [.set [97] 1, .remove [97], .set [97] 2, .get [97]] :=
  refines_iff 10 (by decide) ⟨3⟩ (by decide) _

/-- **A key that is removed twice** is counted twice, below zero. -/
theorem not_refines_removed_twice :
    ¬Refines (kndDictNew Nat 10 (by decide) ⟨3⟩) ∅ [.set [97] 1, .remove [97], .remove [97]] ∧
      (([.set [97] 1, .remove [97], .remove [97]] : List (Op Nat)).foldl (fun d op => (Op.apply d op).2)
        (kndDictNew Nat 10 (by decide) ⟨3⟩)).numKeys = 2 ^ 64 - 1 := by
  refine ⟨fun h => ?_, by decide +kernel⟩
  have hall := (Inv.refines_iff_safe (inv_new 10 (by decide) (by decide)) _).mp h
  exact hall.2.2.1 ⟨.removed, [97], 1⟩ (by decide +kernel) rfl

end Knowdy.Dict
