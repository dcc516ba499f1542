import Knowdy.Utils
import Mathlib.Logic.Function.Basic
import Mathlib.Data.List.Basic

/-! # The shared dictionary

`kndSharedDict` of `knd_shared_dict.c`: a hash table whose buckets only grow at the front. An insertion
made by a commit is `pending`, and `knd_shared_dict_set` tolerates an earlier pending item of the same
key.

* `MemPool` — the free tiny pages of a memory pool; `MemPool.tinyPage` takes one.
* `SharedDict`, `kndSharedDictGet`, `kndSharedDictSet` — the table, lookup and insertion.
* `dictScan`, `dictPublish` — the two steps of an insertion that other tasks may interleave with;
  an undisturbed `kndSharedDictSet` is the one followed by the other.
* `kndSharedDictGet_push`, `kndSharedDictSet_ok`, `kndSharedDictSet_fails_iff` — what an insertion does. -/

namespace Knowdy

/-! ## (1) Memory pools -/

/-- `struct kndMemPool`, as far as index updates allocate from it. -/
structure MemPool where
  /-- The number of free `KND_MEMPAGE_TINY` pages. -/
  tinyPages : Nat
  deriving DecidableEq, Repr

/-- `knd_mempool_page` for a tiny page: `none` is `knd_NOMEM`. -/
def MemPool.tinyPage (self : MemPool) : Option MemPool :=
  if self.tinyPages = 0 then none else some { tinyPages := self.tinyPages - 1 }

/-! ## (2) Data -/

/-- A name as its bytes. -/
abbrev Name := List UInt8

/-- The address of a `struct kndCommit`. -/
abbrev CommitAddr := Nat

/-- `knd_shared_dict_item_phase`. -/
inductive DictPhase where
  /-- `KND_SHARED_DICT_VALID`. -/
  | valid
  /-- `KND_SHARED_DICT_PENDING`. -/
  | pending
  /-- `KND_SHARED_DICT_REMOVED`. -/
  | removed
  deriving DecidableEq, Repr

/-- `struct kndSharedDictItem`. -/
structure DictItem (α : Type) where
  /-- `phase`. -/
  phase : DictPhase
  /-- `key` and `key_size`. -/
  key : Name
  /-- `data`. -/
  data : α
  /-- The commits of the `states` list. -/
  states : List CommitAddr

/-- `struct kndSharedDict`: the buckets, newest item first. -/
structure SharedDict (α : Type) where
  /-- `size`. -/
  size : Nat
  /-- `hash_array`. -/
  hashArray : Nat → List (DictItem α) := fun _ => []
  /-- `num_items`. -/
  numItems : Nat := 0

/-- `KND_MEDIUM_DICT_SIZE`. -/
def mediumDictSize : Nat := 1000

/-- `knd_shared_dict_new`. -/
def kndSharedDictNew (α : Type) (size : Nat) : SharedDict α := { size }

variable {α : Type}

/-! ## (3) Operations -/

/-- The loop of `knd_shared_dict_hash`: a `char` from `0x80` on is negative and is sign-extended. -/
def sharedDictHashLoop : Name → UInt64 → UInt64
  | [], h => h
  | c :: key, h =>
      let x : UInt64 := if c < 128 then c.toUInt64 else c.toUInt64 + 0xFFFFFFFFFFFFFF00
      sharedDictHashLoop key ((h <<< 1) ^^^ x)

/-- `knd_shared_dict_hash`. -/
def kndSharedDictHash (key : Name) : Nat := (sharedDictHashLoop key 0).toNat

namespace SharedDict

/-- The bucket index of a key. -/
def slot (self : SharedDict α) (key : Name) : Nat := kndSharedDictHash key % self.size

/-- The bucket of a key. -/
def bucket (self : SharedDict α) (key : Name) : List (DictItem α) := self.hashArray (self.slot key)

/-- The first item of a key in its bucket. -/
def item? (self : SharedDict α) (key : Name) : Option (DictItem α) :=
  (self.bucket key).find? fun item => item.key = key

/-- Link a new item in front of its bucket and count it. -/
def push (self : SharedDict α) (item : DictItem α) : SharedDict α :=
  { self with
    hashArray := Function.update self.hashArray (self.slot item.key)
      (item :: self.bucket item.key)
    numItems := self.numItems + 1 }

end SharedDict

/-- `knd_shared_dict_get`. -/
def kndSharedDictGet (self : SharedDict α) (key : Name) : Option α :=
  match self.item? key with
  | none => none
  | some item => if item.phase = .removed then none else some item.data

/-- The first part of `knd_shared_dict_set`: load the head of the bucket, look for the key and refuse
a valid item of it. Returns the bucket as it was loaded. -/
def dictScan (self : SharedDict α) (key : Name) (allowOverwrite : Bool) :
    Except KndErr (List (DictItem α)) :=
  match self.item? key with
  | some item =>
      if !allowOverwrite && item.phase = .valid then .error .conflict
      else .ok (self.bucket key)
  | none => .ok (self.bucket key)

/-- The new item of `knd_shared_dict_set` and the pages it takes. -/
def dictItemNew (pool : MemPool) (key : Name) (data : α) (commit : Option CommitAddr) :
    Except KndErr (DictItem α) × MemPool :=
  match pool.tinyPage with
  | none => (.error .nomem, pool)
  | some pool =>
      match commit with
      | none => (.ok { phase := .valid, key, data, states := [] }, pool)
      | some c =>
          match pool.tinyPage with   -- `knd_state_new`
          | none => (.error .nomem, pool)
          | some pool => (.ok { phase := .pending, key, data, states := [c] }, pool)

/-- The last part of `knd_shared_dict_set`: no item of the key may have been linked in front of
`origHead` since it was loaded; then the compare-and-exchange links the new item. -/
def dictPublish (self : SharedDict α) (origHead : List (DictItem α)) (item : DictItem α) :
    Except KndErr (SharedDict α) :=
  let head := self.bucket item.key
  let newItems := head.take (head.length - origHead.length)
  if newItems.any fun x => x.key = item.key then .error .conflict
  else .ok (self.push item)

/-- `knd_shared_dict_set` on a table no other task writes to: the new item with the table, and the
pool after the call. -/
def kndSharedDictSet (self : SharedDict α) (pool : MemPool) (key : Name) (data : α)
    (commit : Option CommitAddr) (allowOverwrite : Bool) :
    Except KndErr (DictItem α × SharedDict α) × MemPool :=
  match dictScan self key allowOverwrite with
  | .error e => (.error e, pool)
  | .ok origHead =>
      match dictItemNew pool key data commit with
      | (.error e, pool) => (.error e, pool)
      | (.ok item, pool) =>
          match dictPublish self origHead item with
          | .error e => (.error e, pool)
          | .ok self => (.ok (item, self), pool)

/-- Set the phase of the first item of a key. -/
def setItemPhase (self : SharedDict α) (key : Name) (phase : DictPhase) : SharedDict α :=
  let bucket := self.bucket key
  { self with
    hashArray := Function.update self.hashArray (self.slot key)
      (bucket.replaceF fun item => if item.key = key then some { item with phase } else none) }

/-! ## (4) What an insertion does -/

namespace SharedDict

@[simp] theorem size_push (self : SharedDict α) (item : DictItem α) :
    (self.push item).size = self.size := rfl

@[simp] theorem slot_push (self : SharedDict α) (item : DictItem α) (key : Name) :
    (self.push item).slot key = self.slot key := rfl

theorem bucket_push (self : SharedDict α) (item : DictItem α) (key : Name) :
    (self.push item).bucket key
      = if self.slot key = self.slot item.key then item :: self.bucket key else self.bucket key := by
  have hupdate : (self.push item).bucket key = Function.update self.hashArray
      (self.slot item.key) (item :: self.bucket item.key) (self.slot key) := rfl
  rw [hupdate, Function.update_apply]
  by_cases h : self.slot key = self.slot item.key
  · rw [if_pos h, if_pos h, bucket, bucket, h]
  · rw [if_neg h, if_neg h, bucket]

/-- The first item of the new key is the new item, other keys keep theirs. -/
theorem item?_push (self : SharedDict α) (item : DictItem α) (key : Name) :
    (self.push item).item? key = if key = item.key then some item else self.item? key := by
  rw [item?, bucket_push]
  by_cases hkey : key = item.key
  · subst hkey
    simp
  · rw [if_neg hkey]
    split
    · rw [List.find?_cons_of_neg (by simpa using Ne.symm hkey), item?]
    · rfl

end SharedDict

/-- A table without room for interference: an undisturbed insertion never meets a new item. -/
theorem dictPublish_self (self : SharedDict α) (item : DictItem α) :
    dictPublish self (self.bucket item.key) item = .ok (self.push item) := by
  simp [dictPublish]

/-- Lookup after an insertion. -/
theorem kndSharedDictGet_push (self : SharedDict α) (item : DictItem α) (key : Name) :
    kndSharedDictGet (self.push item) key
      = if key = item.key then (if item.phase = .removed then none else some item.data)
        else kndSharedDictGet self key := by
  rw [kndSharedDictGet, SharedDict.item?_push]
  by_cases h : key = item.key
  · rw [if_pos h, if_pos h]
  · rw [if_neg h, if_neg h, kndSharedDictGet]

/-- Is an insertion refused because the first item of the key is valid? -/
def SharedDict.Taken (self : SharedDict α) (key : Name) : Prop :=
  ∃ item, self.item? key = some item ∧ item.phase = .valid

instance (self : SharedDict α) (key : Name) : Decidable (self.Taken key) :=
  decidable_of_iff ((self.item? key).any fun item => item.phase = .valid) (by
    rw [SharedDict.Taken]
    cases self.item? key <;> simp)

theorem dictScan_of_taken {self : SharedDict α} {key : Name} (h : self.Taken key) :
    dictScan self key false = .error .conflict := by
  obtain ⟨item, hitem, hphase⟩ := h
  simp [dictScan, hitem, hphase]

theorem dictScan_of_not_taken {self : SharedDict α} {key : Name} (h : ¬self.Taken key) :
    dictScan self key false = .ok (self.bucket key) := by
  rw [dictScan]
  split
  · rename_i item hitem
    have hphase : item.phase ≠ .valid := fun hv => h ⟨item, hitem, hv⟩
    simp [hphase]
  · rfl

/-- The new item carries the key, the data and the commit; without a commit it is valid. -/
theorem dictItemNew_ok {pool pool' : MemPool} {key : Name} {data : α} {commit : Option CommitAddr}
    {item : DictItem α} (h : dictItemNew pool key data commit = (.ok item, pool')) :
    item = ⟨if commit.isSome then .pending else .valid, key, data, commit.toList⟩ := by
  unfold dictItemNew at h
  split at h
  · simp at h
  · cases commit with
    | none =>
        simp only [Prod.mk.injEq, Except.ok.injEq] at h
        exact h.1.symm
    | some c =>
        simp only at h
        split at h
        · simp at h
        · simp only [Prod.mk.injEq, Except.ok.injEq] at h
          exact h.1.symm

/-- An insertion of a taken key. -/
theorem kndSharedDictSet_of_taken {self : SharedDict α} {pool : MemPool} {key : Name} {data : α}
    {commit : Option CommitAddr} (h : self.Taken key) :
    kndSharedDictSet self pool key data commit false = (.error .conflict, pool) := by
  rw [kndSharedDictSet, dictScan_of_taken h]

/-- **An undisturbed insertion** is refused, runs out of pages or links its new item. -/
theorem kndSharedDictSet_of_not_taken {self : SharedDict α} {pool : MemPool} {key : Name} {data : α}
    {commit : Option CommitAddr} (h : ¬self.Taken key) :
    kndSharedDictSet self pool key data commit false
      = match dictItemNew pool key data commit with
        | (.error e, pool) => (.error e, pool)
        | (.ok item, pool) => (.ok (item, self.push item), pool) := by
  rw [kndSharedDictSet, dictScan_of_not_taken h]
  cases hnew : dictItemNew pool key data commit with
  | mk rc pool' =>
      cases rc with
      | error e => rfl
      | ok item =>
          have hkey : item.key = key := by rw [dictItemNew_ok hnew]
          have hpub : dictPublish self (self.bucket key) item = .ok (self.push item) := by
            rw [← hkey, dictPublish_self]
          simp only [hpub]

/-- **A returning insertion** links one new item, valid without a commit and pending with one. -/
theorem kndSharedDictSet_ok {self self' : SharedDict α} {pool pool' : MemPool} {key : Name} {data : α}
    {commit : Option CommitAddr} {item : DictItem α}
    (h : kndSharedDictSet self pool key data commit false = (.ok (item, self'), pool')) :
    ¬self.Taken key ∧ self' = self.push item ∧
      item = ⟨if commit.isSome then .pending else .valid, key, data, commit.toList⟩ := by
  by_cases htaken : self.Taken key
  · rw [kndSharedDictSet_of_taken htaken] at h
    cases h
  · refine ⟨htaken, ?_⟩
    rw [kndSharedDictSet_of_not_taken htaken] at h
    split at h
    · cases h
    · rename_i item₁ pool₁ hnew
      cases h
      exact ⟨rfl, dictItemNew_ok hnew⟩

/-- The free tiny pages an insertion needs: one for the item and one for the state of its commit. -/
def dictPagesNeeded (commit : Option CommitAddr) : Nat := if commit.isSome then 2 else 1

/-- The new item is built exactly when the pool has its pages. -/
theorem dictItemNew_fails_iff {pool : MemPool} {key : Name} {data : α} {commit : Option CommitAddr} :
    (∃ e pool', dictItemNew pool key data commit = (.error e, pool')) ↔
      pool.tinyPages < dictPagesNeeded commit := by
  obtain ⟨tiny⟩ := pool
  match tiny, commit with
  | 0, none => simp [dictItemNew, MemPool.tinyPage, dictPagesNeeded]
  | 0, some c => simp [dictItemNew, MemPool.tinyPage, dictPagesNeeded]
  | 1, some c => simp [dictItemNew, MemPool.tinyPage, dictPagesNeeded]
  | n + 1, none => simp [dictItemNew, MemPool.tinyPage, dictPagesNeeded]
  | n + 2, some c => simp [dictItemNew, MemPool.tinyPage, dictPagesNeeded]

/-- **An insertion fails** exactly when the key is taken or the pool cannot hold the item. -/
theorem kndSharedDictSet_fails_iff {self : SharedDict α} {pool : MemPool} {key : Name} {data : α}
    {commit : Option CommitAddr} :
    (∃ e pool', kndSharedDictSet self pool key data commit false = (.error e, pool')) ↔
      self.Taken key ∨ pool.tinyPages < dictPagesNeeded commit := by
  by_cases htaken : self.Taken key
  · simp [kndSharedDictSet_of_taken htaken, htaken]
  · rw [kndSharedDictSet_of_not_taken htaken, ← dictItemNew_fails_iff]
    constructor
    · rintro ⟨e, pool', h⟩
      right
      split at h
      · rename_i e' pool₁ hnew
        exact ⟨e', pool₁, hnew⟩
      · cases h
    · rintro (h | ⟨e, pool', hnew⟩)
      · exact absurd h htaken
      · exact ⟨e, pool', by rw [hnew]⟩

end Knowdy
