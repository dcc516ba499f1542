import Knowdy.Lib.Runs
import Knowdy.Lib.Threads
import Knowdy.SharedDict

/-! # Calls on one shared dictionary

Any number of calls of `knd_shared_dict_set`, `knd_shared_dict_get` and `knd_shared_dict_remove` on one
dictionary, interleaved between every two accesses: each load of a head, each item that a loop looks at, the
exchange, the count, the write of a phase. Insertions are made without a commit and may not overwrite, and the
memory pool has pages.

* `Item`, `Table` — the buckets; a pointer to an item is the list from that item on, since a linked item changes
  its phase only. `Table.writes` is the history: the items that were linked and marked.
* `Stage`, `advance`, `DictEvent`, `DictRace.step` — where a call is, its accesses, and the calls of all threads.
* `DictRace.Quiet` — no insertion of a key runs while the key is being removed.
* `Contract` — what callers are promised; `contract_of_quiet` — the promise is kept. -/

namespace Knowdy

namespace DictRace

variable {α : Type}

/-! ## (1) The table -/

/-- `struct kndSharedDictItem` without its phase: what is never written again once the item is linked. -/
structure Item (α : Type) where
  /-- The page of the item. -/
  addr : Nat
  key : Name
  data : α

/-- A linked item, or without data the mark of one. -/
structure Write (α : Type) where
  addr : Nat
  key : Name
  data : Option α

/-- `struct kndSharedDict`. -/
structure Table (α : Type) where
  size : Nat
  /-- `hash_array`. -/
  hashArray : Nat → List (Item α) := fun _ => []
  /-- The phase of each item. -/
  phase : Nat → DictPhase := fun _ => .valid
  numItems : Nat := 0
  /-- The next page of the memory pool. -/
  nextAddr : Nat := 0
  /-- The items that were linked and marked, the last one first. -/
  writes : List (Write α) := []

namespace Table

/-- The bucket index of a key. -/
def slot (self : Table α) (key : Name) : Nat := kndSharedDictHash key % self.size

/-- The bucket of a key. -/
def bucket (self : Table α) (key : Name) : List (Item α) := self.hashArray (self.slot key)

/-- The new item, with the head that was loaded behind it, becomes the head. -/
def link (self : Table α) (key : Name) (data : α) (head : List (Item α)) : Table α :=
  { self with
    hashArray := Function.update self.hashArray (self.slot key) (⟨self.nextAddr, key, data⟩ :: head)
    phase := Function.update self.phase self.nextAddr .valid
    nextAddr := self.nextAddr + 1
    writes := ⟨self.nextAddr, key, some data⟩ :: self.writes }

/-- `item->phase = KND_SHARED_DICT_REMOVED`. -/
def mark (self : Table α) (key : Name) (addr : Nat) : Table α :=
  { self with
    phase := Function.update self.phase addr .removed
    writes := ⟨addr, key, none⟩ :: self.writes }

/-- `atomic_fetch_add` of `num_items`. -/
def count (self : Table α) : Table α := { self with numItems := self.numItems + 1 }

end Table

/-- Two pointers to items are equal: both are `NULL`, or both point to the same page. -/
def samePtr (l l' : List (Item α)) : Bool := (l.head?.map Item.addr) = (l'.head?.map Item.addr)

/-- The item of a key. -/
def Item.isOf (key : Name) (item : Item α) : Bool := item.key = key

/-- The write of a key. -/
def Write.isOf (key : Name) (write : Write α) : Bool := write.key = key

/-- The data of a key after the writes. -/
def current (writes : List (Write α)) (key : Name) : Option α := (writes.find? (Write.isOf key)).bind Write.data

/-! ## (2) The calls -/

/-- A call. -/
inductive Call (α : Type) where
  | set (key : Name) (data : α)
  | get (key : Name)
  | remove (key : Name)

/-- A call that has returned. -/
inductive Done (α : Type) where
  /-- `knd_shared_dict_set`, with the page of the item it has linked. -/
  | set (key : Name) (data : α) (rc : Except KndErr Nat)
  /-- `knd_shared_dict_get`, with the number of calls that had returned when it started, and the history when it
  started and when it returned. -/
  | get (key : Name) (value : Option α) (start : Nat) (before after : List (Write α))
  /-- `knd_shared_dict_remove`, with the history when it returned. -/
  | remove (key : Name) (rc : Except KndErr Unit) (after : List (Write α))

/-- Where a call is. -/
inductive Stage (α : Type) where
  | idle
  /-- `knd_shared_dict_set` before `orig_head` is loaded. -/
  | setCalled (key : Name) (data : α)
  /-- Its first loop, at `item`. -/
  | scanning (key : Name) (data : α) (origHead item : List (Item α))
  /-- Before the head is loaded into the new item. -/
  | allocated (key : Name) (data : α) (origHead : List (Item α))
  /-- Its second loop, at `item`. -/
  | checking (key : Name) (data : α) (origHead head item : List (Item α))
  /-- Before the exchange. -/
  | ready (key : Name) (data : α) (origHead head : List (Item α))
  /-- Before `num_items` is counted up. -/
  | linked (key : Name) (data : α) (addr : Nat)
  /-- `knd_shared_dict_get` before the head is loaded. -/
  | getCalled (key : Name) (start : Nat) (before : List (Write α))
  /-- Its loop, at `item`. -/
  | reading (key : Name) (start : Nat) (before : List (Write α)) (item : List (Item α))
  /-- `knd_shared_dict_remove` before the head is loaded. -/
  | removeCalled (key : Name)
  /-- Its loop, at `item`. -/
  | searching (key : Name) (item : List (Item α))
  /-- Before the phase is written. -/
  | found (key : Name) (addr : Nat)

/-- A call starts. -/
def called (self : Table α) (log : List (Done α)) : Call α → Stage α
  | .set key data => .setCalled key data
  | .get key => .getCalled key log.length self.writes
  | .remove key => .removeCalled key

/-- An access that only moves the call on. -/
def goto (self : Table α) (stage : Stage α) : Outcome (Table α) (Stage α) (Done α) := { shared := self, stage }

/-- The call returns. -/
def finish (self : Table α) (done : Done α) : Outcome (Table α) (Stage α) (Done α) where
  shared := self
  stage := .idle
  returned := [done]

/-- **One access of a call.** `spurious` is for `atomic_compare_exchange_weak`, which may fail for no reason. -/
def advance (self : Table α) (spurious : Bool) : Stage α → Outcome (Table α) (Stage α) (Done α)
  | .idle => goto self .idle
  | .setCalled key data => goto self (.scanning key data (self.bucket key) (self.bucket key))
  | .scanning key data origHead [] => goto self (.allocated key data origHead)
  | .scanning key data origHead (item :: next) =>
      if item.key = key then
        if self.phase item.addr = .valid then finish self (.set key data (.error .conflict))
        else goto self (.allocated key data origHead)
      else goto self (.scanning key data origHead next)
  | .allocated key data origHead => goto self (.checking key data origHead (self.bucket key) (self.bucket key))
  | .checking key data origHead head [] => goto self (.ready key data origHead head)
  | .checking key data origHead head (item :: next) =>
      if samePtr (item :: next) origHead then goto self (.ready key data origHead head)
      else if item.key = key then finish self (.set key data (.error .conflict))
      else goto self (.checking key data origHead head next)
  | .ready key data origHead head =>
      if spurious = false ∧ samePtr (self.bucket key) head then
        goto (self.link key data head) (.linked key data self.nextAddr)
      else goto self (.allocated key data origHead)
  | .linked key data addr => finish self.count (.set key data (.ok addr))
  | .getCalled key start before => goto self (.reading key start before (self.bucket key))
  | .reading key start before [] => finish self (.get key none start before self.writes)
  | .reading key start before (item :: next) =>
      if item.key = key then
        finish self
          (.get key (if self.phase item.addr = .removed then none else some item.data) start before self.writes)
      else goto self (.reading key start before next)
  | .removeCalled key => goto self (.searching key (self.bucket key))
  | .searching key [] => finish self (.remove key (.error .fail) self.writes)
  | .searching key (item :: next) =>
      if item.key = key then goto self (.found key item.addr) else goto self (.searching key next)
  | .found key addr =>
      let marked := self.mark key addr
      finish marked (.remove key (.ok ()) marked.writes)

/-! ## (3) Runs -/

variable {ι : Type} [DecidableEq ι]

/-- The dictionary, the calls of the threads `ι`, and what they have returned. -/
abbrev Race (ι α : Type) := Threads ι (Table α) (Stage α) (Done α)

/-- A call starts, or makes an access. -/
inductive DictEvent (ι α : Type) where
  | call (t : ι) (call : Call α)
  | access (t : ι) (spurious : Bool)

/-- One event. A thread that is in a call starts no other one. -/
def Race.step (s : Race ι α) : DictEvent ι α → Race ι α
  | .call t call =>
      match s.stage t with
      | .idle => s.turn t (goto s.shared (called s.shared s.log call))
      | _ => s
  | .access t spurious => s.turn t (advance s.shared spurious (s.stage t))

/-- The key a call is inserting. -/
def Stage.inserting : Stage α → Option Name
  | .setCalled key _ | .scanning key _ _ _ | .allocated key _ _ | .checking key _ _ _ _ | .ready key _ _ _
  | .linked key _ _ => some key
  | _ => none

/-- The key a call is removing. -/
def Stage.removing : Stage α → Option Name
  | .removeCalled key | .searching key _ | .found key _ => some key
  | _ => none

/-- **No insertion of a key runs while the key is being removed.** -/
def Race.Quiet (s : Race ι α) : DictEvent ι α → Prop
  | .call _ (.set key _) => ∀ u, (s.stage u).removing ≠ some key
  | .call _ (.remove key) => ∀ u, (s.stage u).inserting ≠ some key
  | .call _ (.get _) => True
  | .access _ _ => True

/-- An empty dictionary of any size. -/
def Race.start (size : Nat) : Race ι α := { shared := { size }, stage := fun _ => .idle }

/-! ## (4) What callers are promised -/

/-- The results of the insertions of a key. -/
def resultsOf (key : Name) (log : List (Done α)) : List (Except KndErr Nat) :=
  log.filterMap fun
    | .set key' _ rc => if key' = key then some rc else none
    | _ => none

/-- Is an insertion successful? -/
def isOk : Except KndErr Nat → Bool
  | .ok _ => true
  | .error _ => false

/-- The number of insertions that were successful. -/
def numOk (log : List (Done α)) : Nat :=
  log.countP fun
    | .set _ _ rc => isOk rc
    | _ => false

/-- The calls that had returned before a call started. -/
def earlier (log : List (Done α)) (start : Nat) : List (Done α) := log.reverse.take start

/-- **What callers are promised.** -/
structure Contract (s : Race ι α) : Prop where
  /-- An insertion is successful or refused; unless the key was removed, one insertion of it at most is
  successful, and exactly one when no call is under way. -/
  once : ∀ key, (∀ w ∈ s.shared.writes, w.key = key → w.data ≠ none) →
    (∀ rc ∈ resultsOf key s.log, rc = .error .conflict ∨ isOk rc) ∧
    ((resultsOf key s.log).filter isOk).length ≤ 1 ∧
    ((∀ t, s.stage t = .idle) → resultsOf key s.log ≠ [] → ((resultsOf key s.log).filter isOk).length = 1)
  /-- A lookup that starts after an insertion has returned yields its data. -/
  read : ∀ key value start before after, .get key value start before after ∈ s.log →
    (∀ w ∈ s.shared.writes, w.key = key → w.data ≠ none) →
    ∀ data addr, .set key data (.ok addr) ∈ earlier s.log start → value = some data
  /-- A lookup yields data of an insertion of its key that was or will be successful. -/
  own : ∀ key data start before after, .get key (some data) start before after ∈ s.log →
    ∃ addr, .set key data (.ok addr) ∈ s.log ∨ ∃ t, s.stage t = .linked key data addr
  /-- The item of a successful insertion is in its bucket. -/
  kept : ∀ key data addr, .set key data (.ok addr) ∈ s.log ∨ (∃ t, s.stage t = .linked key data addr) →
    ⟨addr, key, data⟩ ∈ s.shared.bucket key
  /-- When no call is under way the items are counted. -/
  counted : (∀ t, s.stage t = .idle) → s.shared.numItems = numOk s.log
  /-- A lookup that starts after the key was removed yields nothing unless an item of it was linked since. -/
  removed : ∀ key value start before after, .get key value start before after ∈ s.log →
    ∀ marked, .remove key (.ok ()) marked ∈ earlier s.log start →
    ∀ newer, after = newer ++ marked → (∀ w ∈ newer, w.key = key → w.data = none) → value = none

/-! ## (5) What an access can do -/

/-- The accesses that only move the call on. -/
inductive Moves (table : Table α) : Stage α → Stage α → Prop
  | rest (stage : Stage α) (hidle : stage = .idle) : Moves table stage stage
  | loadOrig (key : Name) (data : α) :
      Moves table (.setCalled key data) (.scanning key data (table.bucket key) (table.bucket key))
  | scanNext (key : Name) (data : α) (origHead : List (Item α)) {item : Item α} {next : List (Item α)}
      (hkey : item.key ≠ key) :
      Moves table (.scanning key data origHead (item :: next)) (.scanning key data origHead next)
  | scanEnd (key : Name) (data : α) (origHead : List (Item α)) :
      Moves table (.scanning key data origHead []) (.allocated key data origHead)
  | scanRemoved (key : Name) (data : α) (origHead : List (Item α)) {item : Item α} {next : List (Item α)}
      (hkey : item.key = key) (hphase : table.phase item.addr ≠ .valid) :
      Moves table (.scanning key data origHead (item :: next)) (.allocated key data origHead)
  | loadHead (key : Name) (data : α) (origHead : List (Item α)) :
      Moves table (.allocated key data origHead)
        (.checking key data origHead (table.bucket key) (table.bucket key))
  | checkEnd (key : Name) (data : α) (origHead head : List (Item α)) :
      Moves table (.checking key data origHead head []) (.ready key data origHead head)
  | checkOrig (key : Name) (data : α) (origHead head : List (Item α)) {item : Item α} {next : List (Item α)}
      (hsame : samePtr (item :: next) origHead) :
      Moves table (.checking key data origHead head (item :: next)) (.ready key data origHead head)
  | checkNext (key : Name) (data : α) (origHead head : List (Item α)) {item : Item α} {next : List (Item α)}
      (hsame : ¬samePtr (item :: next) origHead) (hkey : item.key ≠ key) :
      Moves table (.checking key data origHead head (item :: next)) (.checking key data origHead head next)
  | retry (key : Name) (data : α) (origHead head : List (Item α)) :
      Moves table (.ready key data origHead head) (.allocated key data origHead)
  | loadRead (key : Name) (start : Nat) (before : List (Write α)) :
      Moves table (.getCalled key start before) (.reading key start before (table.bucket key))
  | readNext (key : Name) (start : Nat) (before : List (Write α)) {item : Item α} {next : List (Item α)}
      (hkey : item.key ≠ key) :
      Moves table (.reading key start before (item :: next)) (.reading key start before next)
  | loadRemove (key : Name) : Moves table (.removeCalled key) (.searching key (table.bucket key))
  | searchNext (key : Name) {item : Item α} {next : List (Item α)} (hkey : item.key ≠ key) :
      Moves table (.searching key (item :: next)) (.searching key next)
  | searchFound (key : Name) {item : Item α} {next : List (Item α)} (hkey : item.key = key) :
      Moves table (.searching key (item :: next)) (.found key item.addr)

/-- The accesses after which a call returns without a change of the table. -/
inductive Finishes (table : Table α) : Stage α → Done α → Prop
  | taken (key : Name) (data : α) (origHead : List (Item α)) {item : Item α} {next : List (Item α)}
      (hkey : item.key = key) :
      Finishes table (.scanning key data origHead (item :: next)) (.set key data (.error .conflict))
  | overtaken (key : Name) (data : α) (origHead head : List (Item α)) {item : Item α} {next : List (Item α)}
      (hkey : item.key = key) :
      Finishes table (.checking key data origHead head (item :: next)) (.set key data (.error .conflict))
  | missing (key : Name) (start : Nat) (before : List (Write α)) :
      Finishes table (.reading key start before []) (.get key none start before table.writes)
  | read (key : Name) (start : Nat) (before : List (Write α)) {item : Item α} {next : List (Item α)}
      (hkey : item.key = key) :
      Finishes table (.reading key start before (item :: next))
        (.get key (if table.phase item.addr = .removed then none else some item.data) start before table.writes)
  | unknown (key : Name) : Finishes table (.searching key []) (.remove key (.error .fail) table.writes)

/-- The accesses of a call. -/
inductive Access (table : Table α) : Stage α → Outcome (Table α) (Stage α) (Done α) → Prop
  | move {stage stage' : Stage α} (h : Moves table stage stage') : Access table stage (goto table stage')
  | finish {stage : Stage α} {done : Done α} (h : Finishes table stage done) :
      Access table stage (finish table done)
  | link (key : Name) (data : α) (origHead head : List (Item α)) (hsame : samePtr (table.bucket key) head) :
      Access table (.ready key data origHead head)
        (goto (table.link key data head) (.linked key data table.nextAddr))
  | count (key : Name) (data : α) (addr : Nat) :
      Access table (.linked key data addr) (finish table.count (.set key data (.ok addr)))
  | mark (key : Name) (addr : Nat) :
      Access table (.found key addr)
        (finish (table.mark key addr) (.remove key (.ok ()) (table.mark key addr).writes))

theorem access_advance (table : Table α) (spurious : Bool) (stage : Stage α) :
    Access table stage (advance table spurious stage) := by
  cases stage with
  | idle => exact .move (.rest .idle rfl)
  | setCalled key data => exact .move (.loadOrig key data)
  | scanning key data origHead item =>
      cases item with
      | nil => exact .move (.scanEnd key data origHead)
      | cons item next =>
          by_cases hkey : item.key = key
          · by_cases hphase : table.phase item.addr = .valid
            · simpa only [advance, if_pos hkey, if_pos hphase] using
                Access.finish (.taken key data origHead hkey)
            · simpa only [advance, if_pos hkey, if_neg hphase] using
                Access.move (.scanRemoved key data origHead hkey hphase)
          · simpa only [advance, if_neg hkey] using Access.move (.scanNext key data origHead hkey)
  | allocated key data origHead => exact .move (.loadHead key data origHead)
  | checking key data origHead head item =>
      cases item with
      | nil => exact .move (.checkEnd key data origHead head)
      | cons item next =>
          by_cases hsame : samePtr (item :: next) origHead
          · simpa only [advance, if_pos hsame] using Access.move (.checkOrig key data origHead head hsame)
          · by_cases hkey : item.key = key
            · simpa only [advance, if_neg hsame, if_pos hkey] using
                Access.finish (.overtaken key data origHead head hkey)
            · simpa only [advance, if_neg hsame, if_neg hkey] using
                Access.move (.checkNext key data origHead head hsame hkey)
  | ready key data origHead head =>
      by_cases hcas : spurious = false ∧ samePtr (table.bucket key) head
      · simpa only [advance, if_pos hcas] using Access.link key data origHead head hcas.2
      · simpa only [advance, if_neg hcas] using Access.move (.retry key data origHead head)
  | linked key data addr => exact .count key data addr
  | getCalled key start before => exact .move (.loadRead key start before)
  | reading key start before item =>
      cases item with
      | nil => exact .finish (.missing key start before)
      | cons item next =>
          by_cases hkey : item.key = key
          · simpa only [advance, if_pos hkey] using Access.finish (.read key start before hkey)
          · simpa only [advance, if_neg hkey] using Access.move (.readNext key start before hkey)
  | removeCalled key => exact .move (.loadRemove key)
  | searching key item =>
      cases item with
      | nil => exact .finish (.unknown key)
      | cons item next =>
          by_cases hkey : item.key = key
          · simpa only [advance, if_pos hkey] using Access.move (.searchFound key hkey)
          · simpa only [advance, if_neg hkey] using Access.move (.searchNext key hkey)
  | found key addr => exact .mark key addr

/-! ## (6) The table -/

theorem isOf_iff {key : Name} {item : Item α} : item.isOf key = true ↔ item.key = key :=
  decide_eq_true_iff

theorem write_isOf_iff {key : Name} {write : Write α} : write.isOf key = true ↔ write.key = key :=
  decide_eq_true_iff

/-- The first item of a key. -/
def firstOf (key : Name) (l : List (Item α)) : Option (Item α) := l.find? (Item.isOf key)

theorem firstOf_cons_self {key : Name} {item : Item α} (h : item.key = key) (l : List (Item α)) :
    firstOf key (item :: l) = some item :=
  List.find?_cons_of_pos (isOf_iff.mpr h)

theorem firstOf_cons_of_ne {key : Name} {item : Item α} (h : item.key ≠ key) (l : List (Item α)) :
    firstOf key (item :: l) = firstOf key l :=
  List.find?_cons_of_neg fun hkey => h (isOf_iff.mp hkey)

/-- **The invariant of the table.** -/
structure TableInv (table : Table α) : Prop where
  /-- Items are in the bucket of their key, on pages that were handed out. -/
  placed : ∀ slot, ∀ item ∈ table.hashArray slot, table.slot item.key = slot ∧ item.addr < table.nextAddr
  /-- The last item of a bucket comes first. -/
  ordered : ∀ slot, (table.hashArray slot).Pairwise fun a b => b.addr < a.addr
  /-- A page holds one item. -/
  unique : ∀ slot slot', ∀ a ∈ table.hashArray slot, ∀ b ∈ table.hashArray slot', a.addr = b.addr → a = b
  /-- The items are those that were linked. -/
  linked : ∀ addr key data, ⟨addr, key, some data⟩ ∈ table.writes ↔ ⟨addr, key, data⟩ ∈ table.bucket key
  /-- The removed items are those that were marked. -/
  marked : ∀ slot, ∀ item ∈ table.hashArray slot,
    table.phase item.addr = .removed ↔ ⟨item.addr, item.key, none⟩ ∈ table.writes
  /-- Items are marked. -/
  item : ∀ addr key, ⟨addr, key, none⟩ ∈ table.writes → ∃ data, ⟨addr, key, data⟩ ∈ table.bucket key
  /-- An item is marked after it was linked. -/
  inTurn : ∀ w, w <:+ table.writes → ∀ addr key, ⟨addr, key, none⟩ ∈ w →
    ∀ write, w.find? (Write.isOf key) = some write → write.addr = addr → write.data = none
  /-- Insertions are made without a commit. -/
  phases : ∀ addr, table.phase addr = .valid ∨ table.phase addr = .removed
  /-- The last write of a key is to its first item. -/
  first : ∀ key, (table.writes.find? (Write.isOf key)).map Write.addr =
    (firstOf key (table.bucket key)).map Item.addr
  /-- Only the first item of a key may be valid. -/
  single : ∀ key, ∀ item ∈ table.bucket key, item.key = key → table.phase item.addr = .valid →
    firstOf key (table.bucket key) = some item

namespace Table

variable (table : Table α) (key key' : Name) (data : α) (head : List (Item α)) (addr : Nat)

theorem bucket_link : (table.link key data head).bucket key' =
    if table.slot key' = table.slot key then ⟨table.nextAddr, key, data⟩ :: head else table.bucket key' :=
  Function.update_apply ..

theorem bucket_link_self : (table.link key data head).bucket key = ⟨table.nextAddr, key, data⟩ :: head := by
  rw [bucket_link, if_pos rfl]

theorem hashArray_link (slot : Nat) : (table.link key data head).hashArray slot =
    if slot = table.slot key then ⟨table.nextAddr, key, data⟩ :: head else table.hashArray slot :=
  Function.update_apply ..

@[simp] theorem phase_link_self : (table.link key data head).phase table.nextAddr = .valid := Function.update_self ..

@[simp] theorem phase_mark_self : (table.mark key addr).phase addr = .removed := Function.update_self ..

variable {table key key' data head addr}

theorem phase_link_of_ne (h : addr ≠ table.nextAddr) : (table.link key data head).phase addr = table.phase addr :=
  Function.update_of_ne h ..

theorem phase_mark_of_ne {addr' : Nat} (h : addr' ≠ addr) : (table.mark key addr).phase addr' = table.phase addr' :=
  Function.update_of_ne h ..

theorem mem_writes_link_some {data' : α} : ⟨addr, key', some data'⟩ ∈ (table.link key data head).writes ↔
    (addr = table.nextAddr ∧ key' = key ∧ data' = data) ∨ ⟨addr, key', some data'⟩ ∈ table.writes := by
  simp [link]

theorem mem_writes_link_none :
    (⟨addr, key', none⟩ : Write α) ∈ (table.link key data head).writes ↔ ⟨addr, key', none⟩ ∈ table.writes := by
  simp [link]

/-- Keys of one slot have one bucket. -/
theorem bucket_congr (h : table.slot key' = table.slot key) : table.bucket key' = table.bucket key :=
  congrArg table.hashArray h

/-- An item of the new table. -/
theorem eq_or_mem_of_mem_link {slot : Nat} {item : Item α}
    (hmem : item ∈ (table.link key data (table.bucket key)).hashArray slot) :
    (item = ⟨table.nextAddr, key, data⟩ ∧ slot = table.slot key) ∨ item ∈ table.hashArray slot := by
  rw [hashArray_link] at hmem
  split at hmem
  · rename_i heq
    rcases List.mem_cons.mp hmem with rfl | hmem
    · exact .inl ⟨rfl, heq⟩
    · exact .inr (heq ▸ hmem)
  · exact .inr hmem

/-- The new item is the first one of its key. -/
theorem firstOf_bucket_link_self :
    firstOf key ((table.link key data head).bucket key) = some ⟨table.nextAddr, key, data⟩ := by
  rw [bucket_link_self]
  exact firstOf_cons_self rfl head

/-- The first items of other keys stay. -/
theorem firstOf_bucket_link_of_ne (hkey : key' ≠ key) :
    firstOf key' ((table.link key data (table.bucket key)).bucket key') = firstOf key' (table.bucket key') := by
  rw [bucket_link]
  split
  · rename_i hs
    rw [firstOf_cons_of_ne (Ne.symm hkey), bucket_congr hs]
  · rfl

variable (table key key' data head addr)

@[simp] theorem bucket_mark : (table.mark key addr).bucket key' = table.bucket key' := rfl

@[simp] theorem bucket_count : table.count.bucket key' = table.bucket key' := rfl

end Table

/-- A write of another key. -/
theorem find?_writes_of_ne {key : Name} {write : Write α} (h : write.key ≠ key) (writes : List (Write α)) :
    (write :: writes).find? (Write.isOf key) = writes.find? (Write.isOf key) :=
  List.find?_cons_of_neg fun hkey => h (write_isOf_iff.mp hkey)

/-- A write of the key. -/
theorem find?_writes_self (addr : Nat) (key : Name) (data : Option α) (writes : List (Write α)) :
    (⟨addr, key, data⟩ :: writes : List (Write α)).find? (Write.isOf key) = some ⟨addr, key, data⟩ :=
  List.find?_cons_of_pos (write_isOf_iff.mpr rfl)

/-- **Equal pointers into one bucket are equal lists.** -/
theorem eq_of_samePtr {b l : List (Item α)} (hordered : b.Pairwise fun a b => b.addr < a.addr) (hsuffix : l <:+ b)
    (hsame : samePtr b l) : b = l := by
  obtain ⟨pre, rfl⟩ := hsuffix
  cases pre with
  | nil => rfl
  | cons item pre =>
      cases l with
      | nil => simp [samePtr] at hsame
      | cons x l =>
          simp only [samePtr, List.cons_append, List.head?_cons, Option.map_some, Option.some.injEq,
            decide_eq_true_eq] at hsame
          have hlt := (List.pairwise_cons.mp hordered).1 x (List.mem_append_right pre (List.mem_cons_self ..))
          omega

namespace TableInv

variable {table : Table α} {key : Name} {data : α}

/-- A write of an item is older than the next page. -/
theorem addr_lt (h : TableInv table) {addr : Nat} {data : Option α} (hmem : ⟨addr, key, data⟩ ∈ table.writes) :
    addr < table.nextAddr := by
  cases data with
  | none =>
      obtain ⟨data, hitem⟩ := h.item addr key hmem
      exact (h.placed _ _ hitem).2
  | some data => exact (h.placed _ _ ((h.linked addr key data).mp hmem)).2

/-- The first item of a key is not valid, if there is one. -/
def Free (table : Table α) (key : Name) (l : List (Item α)) : Prop :=
  ∀ item, firstOf key l = some item → table.phase item.addr ≠ .valid

/-- Items are on pages that were handed out. -/
theorem addr_ne (h : TableInv table) {slot : Nat} {item : Item α} (hmem : item ∈ table.hashArray slot) :
    item.addr ≠ table.nextAddr := Nat.ne_of_lt (h.placed slot item hmem).2

/-- The writes of a table into which an item is linked are in turn. -/
theorem inTurn_link (h : TableInv table) (data : α) {w : List (Write α)}
    (hw : w <:+ (table.link key data (table.bucket key)).writes) {addr : Nat} {key' : Name}
    (hmem : ⟨addr, key', none⟩ ∈ w) {write : Write α} (hwrite : w.find? (Write.isOf key') = some write)
    (haddr : write.addr = addr) : write.data = none := by
  rcases List.suffix_cons_iff.mp hw with rfl | hw
  · have hmem' : ⟨addr, key', none⟩ ∈ table.writes :=
      by simpa using hmem
    by_cases hkey : key' = key
    · -- the page of the new item was not marked
      subst hkey
      rw [find?_writes_self, Option.some.injEq] at hwrite
      subst hwrite
      exact absurd haddr (Nat.ne_of_gt (h.addr_lt hmem'))
    · rw [find?_writes_of_ne (Ne.symm hkey)] at hwrite
      exact h.inTurn _ (List.suffix_refl _) addr key' hmem' write hwrite haddr
  · exact h.inTurn w hw addr key' hmem write hwrite haddr

/-- A valid item of a table into which an item is linked is the first one of its key. -/
theorem single_link (h : TableInv table) (data : α) (hfree : Free table key (table.bucket key)) {key' : Name}
    {item : Item α} (hmem : item ∈ (table.link key data (table.bucket key)).bucket key') (hitem : item.key = key')
    (hvalid : (table.link key data (table.bucket key)).phase item.addr = .valid) :
    firstOf key' ((table.link key data (table.bucket key)).bucket key') = some item := by
  rcases Table.eq_or_mem_of_mem_link hmem with ⟨rfl, -⟩ | hmem
  · obtain rfl : key = key' := hitem
    exact Table.firstOf_bucket_link_self
  · rw [Table.phase_link_of_ne (h.addr_ne hmem)] at hvalid
    have hold := h.single key' item hmem hitem hvalid
    by_cases hkey : key' = key
    · -- a valid item of the key would have been the first one
      subst hkey
      exact absurd hvalid (hfree item hold)
    · rw [Table.firstOf_bucket_link_of_ne hkey]
      exact hold

/-- **An item is linked** in front of its bucket when the first item of its key is not valid. -/
theorem link (h : TableInv table) (data : α) (hfree : Free table key (table.bucket key)) :
    TableInv (table.link key data (table.bucket key)) where
  placed slot item hmem := by
    rcases Table.eq_or_mem_of_mem_link hmem with ⟨rfl, rfl⟩ | hmem
    · exact ⟨rfl, Nat.lt_succ_self _⟩
    · exact ⟨(h.placed slot item hmem).1, Nat.lt_succ_of_lt (h.placed slot item hmem).2⟩
  ordered slot := by
    rw [Table.hashArray_link]
    split
    · exact List.pairwise_cons.mpr ⟨fun item hmem => (h.placed _ item hmem).2, h.ordered _⟩
    · exact h.ordered slot
  unique slot slot' a ha b hb heq := by
    rcases Table.eq_or_mem_of_mem_link ha with ⟨rfl, -⟩ | ha
    · rcases Table.eq_or_mem_of_mem_link hb with ⟨rfl, -⟩ | hb
      · rfl
      · exact absurd heq.symm (h.addr_ne hb)
    · rcases Table.eq_or_mem_of_mem_link hb with ⟨rfl, -⟩ | hb
      · exact absurd heq (h.addr_ne ha)
      · exact h.unique slot slot' a ha b hb heq
  linked addr key' data' := by
    rw [Table.mem_writes_link_some, h.linked, Table.bucket_link]
    by_cases hs : table.slot key' = table.slot key
    · rw [if_pos hs, List.mem_cons, Table.bucket_congr hs]
      simp
    · rw [if_neg hs]
      refine or_iff_right ?_
      rintro ⟨-, rfl, -⟩
      exact hs rfl
  marked slot item hmem := by
    rw [Table.mem_writes_link_none]
    rcases Table.eq_or_mem_of_mem_link hmem with ⟨rfl, -⟩ | hmem
    · rw [Table.phase_link_self]
      exact iff_of_false (by decide) fun hmem => Nat.lt_irrefl _ (h.addr_lt hmem)
    · rw [Table.phase_link_of_ne (h.addr_ne hmem)]
      exact h.marked slot item hmem
  item addr key' hmem := by
    obtain ⟨data', hitem⟩ := h.item addr key' (Table.mem_writes_link_none.mp hmem)
    refine ⟨data', ?_⟩
    rw [Table.bucket_link]
    split
    · rename_i hs
      exact List.mem_cons_of_mem _ (Table.bucket_congr hs ▸ hitem)
    · exact hitem
  inTurn _ hw _ _ hmem _ hwrite haddr := h.inTurn_link data hw hmem hwrite haddr
  phases addr := by
    by_cases haddr : addr = table.nextAddr
    · rw [haddr, Table.phase_link_self]
      exact .inl rfl
    · rw [Table.phase_link_of_ne haddr]
      exact h.phases addr
  first key' := by
    by_cases hkey : key' = key
    · subst hkey
      rw [Table.firstOf_bucket_link_self]
      simp only [Table.link]
      rw [find?_writes_self]
      rfl
    · rw [Table.firstOf_bucket_link_of_ne hkey]
      simp only [Table.link]
      rw [find?_writes_of_ne (Ne.symm hkey)]
      exact h.first key'
  single _ _ hmem hitem hvalid := h.single_link data hfree hmem hitem hvalid

/-- **The first item of a key is marked.** -/
theorem mark (h : TableInv table) {item : Item α} (hfirst : firstOf key (table.bucket key) = some item) :
    TableInv (table.mark key item.addr) := by
  have hmem : item ∈ table.bucket key := List.mem_of_find?_eq_some hfirst
  have hkey : item.key = key := isOf_iff.mp (List.find?_some hfirst)
  refine ⟨h.placed, h.ordered, h.unique, fun addr key' data => ?_, fun slot x hx => ?_, fun addr key' hw => ?_,
    fun w hw addr key' hmark write hwrite haddr => ?_, fun addr => ?_, fun key' => ?_,
    fun key' x hx hxkey hvalid => ?_⟩
  · rw [Table.bucket_mark, ← h.linked]
    simp [Table.mark]
  · by_cases haddr : x.addr = item.addr
    · have hsame := h.unique slot _ x hx item hmem haddr
      subst hsame
      rw [Table.phase_mark_self, hkey]
      exact iff_of_true rfl (List.mem_cons_self ..)
    · rw [Table.phase_mark_of_ne haddr, h.marked slot x hx]
      simp [Table.mark, haddr]
  · rcases List.mem_cons.mp hw with heq | hw
    · cases heq
      refine ⟨item.data, ?_⟩
      rw [← hkey] at hmem ⊢
      exact hmem
    · exact h.item addr key' hw
  · rcases List.suffix_cons_iff.mp hw with rfl | hw
    · by_cases hk : key' = key
      · subst hk
        rw [find?_writes_self, Option.some.injEq] at hwrite
        rw [← hwrite]
      · rw [find?_writes_of_ne (Ne.symm hk)] at hwrite
        have hmark' : ⟨addr, key', none⟩ ∈ table.writes := by simpa [Ne.symm hk, hk] using hmark
        exact h.inTurn _ (List.suffix_refl _) addr key' hmark' write hwrite haddr
    · exact h.inTurn w hw addr key' hmark write hwrite haddr
  · by_cases haddr : addr = item.addr
    · rw [haddr, Table.phase_mark_self]
      exact .inr rfl
    · rw [Table.phase_mark_of_ne haddr]
      exact h.phases addr
  · rw [Table.bucket_mark]
    by_cases hk : key' = key
    · subst hk
      simp only [Table.mark]
      rw [find?_writes_self, hfirst]
      rfl
    · simp only [Table.mark]
      rw [find?_writes_of_ne (Ne.symm hk)]
      exact h.first key'
  · by_cases haddr : x.addr = item.addr
    · rw [haddr, Table.phase_mark_self] at hvalid
      cases hvalid
    · rw [Table.phase_mark_of_ne haddr] at hvalid
      exact h.single key' x hx hxkey hvalid

/-- A new count. -/
theorem count (h : TableInv table) : TableInv table.count :=
  ⟨h.placed, h.ordered, h.unique, h.linked, h.marked, h.item, h.inTurn, h.phases, h.first, h.single⟩

end TableInv

/-! ## (7) What is known of the calls -/

/-- **What later callers know of a call that has returned.** -/
def Known (writes : List (Write α)) : Done α → Prop
  | .set key data (.ok addr) => ⟨addr, key, some data⟩ ∈ writes
  | .remove key (.ok ()) marked => marked <:+ writes ∧ current marked key = none
  | _ => True

theorem Known.mono {writes writes' : List (Write α)} {done : Done α} (h : Known writes done)
    (hsuffix : writes <:+ writes') : Known writes' done := by
  cases done with
  | set key data rc =>
      cases rc with
      | error => trivial
      | ok addr => exact hsuffix.subset h
  | get => trivial
  | remove key rc marked =>
      cases rc with
      | error => trivial
      | ok => exact ⟨h.1.trans hsuffix, h.2⟩

/-- A lookup that has started. -/
structure Started (writes : List (Write α)) (log : List (Done α)) (start : Nat) (before : List (Write α)) :
    Prop where
  start_le : start ≤ log.length
  before_le : before <:+ writes
  known : ∀ done ∈ earlier log start, Known before done

/-- **What is known of a call** at its stage. -/
def CallHolds (table : Table α) (log : List (Done α)) : Stage α → Prop
  | .idle | .setCalled _ _ | .removeCalled _ => True
  | .scanning key _ origHead item =>
      origHead <:+ table.bucket key ∧ item <:+ origHead ∧ firstOf key origHead = firstOf key item
  | .allocated key _ origHead => origHead <:+ table.bucket key ∧ TableInv.Free table key origHead
  -- the items before `item` are not of the key, and `origHead` is still ahead
  | .checking key _ origHead head item =>
      head <:+ table.bucket key ∧ item <:+ head ∧ origHead <:+ item ∧ firstOf key head = firstOf key item ∧
        TableInv.Free table key origHead
  | .ready key _ origHead head =>
      head <:+ table.bucket key ∧ origHead <:+ head ∧ TableInv.Free table key origHead ∧
        TableInv.Free table key head
  | .linked key data addr =>
      ⟨addr, key, some data⟩ ∈ table.writes ∧ ∀ key' data', .set key' data' (.ok addr) ∉ log
  | .getCalled _ start before => Started table.writes log start before
  -- at some moment since the start, the first item of the key from `item` on was the first one of all
  | .reading key start before item =>
      Started table.writes log start before ∧ item <:+ table.bucket key ∧
        ∃ w, before <:+ w ∧ w <:+ table.writes ∧
          (w.find? (Write.isOf key)).map Write.addr = (firstOf key item).map Item.addr
  | .searching key item => item <:+ table.bucket key ∧ firstOf key (table.bucket key) = firstOf key item
  | .found key addr => ∃ item, firstOf key (table.bucket key) = some item ∧ item.addr = addr

/-- The item a call has linked. -/
def Stage.linkedAddr : Stage α → Option Nat
  | .linked _ _ addr => some addr
  | _ => none

/-- What is known of two calls. -/
structure Separate (a b : Stage α) : Prop where
  left : ∀ key, a.inserting = some key → b.removing ≠ some key
  right : ∀ key, b.inserting = some key → a.removing ≠ some key
  addr : ∀ addr, a.linkedAddr = some addr → b.linkedAddr ≠ some addr

theorem Separate.symm {a b : Stage α} (h : Separate a b) : Separate b a :=
  ⟨h.right, h.left, fun addr hb ha => h.addr addr ha hb⟩

/-- A call that does no more than before. -/
theorem Separate.of_less {a a' b : Stage α} (h : Separate a b)
    (hins : a'.inserting = none ∨ a'.inserting = a.inserting)
    (hrem : a'.removing = none ∨ a'.removing = a.removing) (haddr : a'.linkedAddr = none) : Separate a' b := by
  refine ⟨fun key hkey => ?_, fun key hkey => ?_, fun addr ha => by simp [haddr] at ha⟩
  · rcases hins with hins | hins
    · simp [hins] at hkey
    · exact h.left key (hins ▸ hkey)
  · rcases hrem with hrem | hrem
    · simp [hrem]
    · rw [hrem]
      exact h.right key hkey

/-- **How the table changes** under a call. -/
structure Grows (table table' : Table α) : Prop where
  writes : table.writes <:+ table'.writes
  bucket : ∀ key, table.bucket key <:+ table'.bucket key
  removed : ∀ addr < table.nextAddr, table.phase addr ≠ .valid → table'.phase addr ≠ .valid

theorem Grows.refl (table : Table α) : Grows table table :=
  ⟨List.suffix_refl _, fun _ => List.suffix_refl _, fun _ _ h => h⟩

theorem grows_link (table : Table α) (key : Name) (data : α) :
    Grows table (table.link key data (table.bucket key)) := by
  refine ⟨List.suffix_cons _ _, fun key' => ?_, fun addr hlt hphase => ?_⟩
  · rw [Table.bucket_link]
    split
    · rename_i hs
      rw [Table.bucket, hs]
      exact List.suffix_cons _ _
    · exact List.suffix_refl _
  · have hne : addr ≠ table.nextAddr := Nat.ne_of_lt hlt
    simpa only [Table.link, Function.update_of_ne hne] using hphase

theorem grows_mark (table : Table α) (key : Name) (addr : Nat) : Grows table (table.mark key addr) := by
  refine ⟨List.suffix_cons _ _, fun _ => List.suffix_refl _, fun addr' _ hphase => ?_⟩
  by_cases haddr : addr' = addr
  · subst haddr
    simp [Table.mark]
  · simpa only [Table.mark, Function.update_of_ne haddr] using hphase

theorem grows_count (table : Table α) : Grows table table.count :=
  ⟨List.suffix_refl _, fun _ => List.suffix_refl _, fun _ _ h => h⟩

/-- The calls that had returned are the same later. -/
theorem earlier_append {log new : List (Done α)} {start : Nat} (h : start ≤ log.length) :
    earlier (new ++ log) start = earlier log start := by
  rw [earlier, earlier, List.reverse_append, List.take_append_of_le_length (by simpa using h)]

theorem Started.grows {writes writes' : List (Write α)} {log : List (Done α)} {start : Nat}
    {before : List (Write α)} (h : Started writes log start before) (hwrites : writes <:+ writes')
    (new : List (Done α)) : Started writes' (new ++ log) start before := by
  refine ⟨?_, h.before_le.trans hwrites, ?_⟩
  · rw [List.length_append]
    exact Nat.le_trans h.start_le (Nat.le_add_left ..)
  · rw [earlier_append h.start_le]
    exact h.known

section Others

variable {table table' : Table α} {log : List (Done α)} {key : Name} {stage : Stage α}

theorem TableInv.Free.grows {l : List (Item α)} (h : TableInv.Free table key l) (hinv : TableInv table)
    (hl : l <:+ table.bucket key) (hgrows : Grows table table') : TableInv.Free table' key l := by
  intro item hitem
  have hmem : item ∈ table.bucket key := hl.subset (List.mem_of_find?_eq_some hitem)
  exact hgrows.removed item.addr (hinv.placed _ _ hmem).2 (h item hitem)

/-- **What is known of a call stays true** when another call makes an access. -/
theorem CallHolds.grows (h : CallHolds table log stage) (hinv : TableInv table) (hgrows : Grows table table')
    (hfirst : ∀ key, stage.removing = some key →
      firstOf key (table'.bucket key) = firstOf key (table.bucket key)) {new : List (Done α)}
    (hnew : ∀ addr, stage.linkedAddr = some addr → ∀ key data, .set key data (.ok addr) ∉ new) :
    CallHolds table' (new ++ log) stage := by
  cases stage with
  | idle => trivial
  | setCalled => trivial
  | removeCalled => trivial
  | scanning key data origHead item => exact ⟨h.1.trans (hgrows.bucket key), h.2⟩
  | allocated key data origHead => exact ⟨h.1.trans (hgrows.bucket key), h.2.grows hinv h.1 hgrows⟩
  | checking key data origHead head item =>
      obtain ⟨hhead, hitem, horig, hsame, hfree⟩ := h
      have horig' : origHead <:+ table.bucket key := (horig.trans hitem).trans hhead
      exact ⟨hhead.trans (hgrows.bucket key), hitem, horig, hsame, hfree.grows hinv horig' hgrows⟩
  | ready key data origHead head =>
      obtain ⟨hhead, horig, hfree, hfree'⟩ := h
      exact ⟨hhead.trans (hgrows.bucket key), horig, hfree.grows hinv (horig.trans hhead) hgrows,
        hfree'.grows hinv hhead hgrows⟩
  | linked key data addr =>
      refine ⟨hgrows.writes.subset h.1, fun key' data' hmem => ?_⟩
      rcases List.mem_append.mp hmem with hmem | hmem
      · exact hnew addr rfl key' data' hmem
      · exact h.2 key' data' hmem
  | getCalled key start before => exact Started.grows h hgrows.writes new
  | reading key start before item =>
      obtain ⟨hstarted, hitem, w, hbefore, hw, hsame⟩ := h
      exact ⟨hstarted.grows hgrows.writes new, hitem.trans (hgrows.bucket key), w, hbefore,
        hw.trans hgrows.writes, hsame⟩
  | searching key item => exact ⟨h.1.trans (hgrows.bucket key), (hfirst key rfl).trans h.2⟩
  | found key addr =>
      obtain ⟨item, hitem, haddr⟩ := h
      exact ⟨item, (hfirst key rfl).trans hitem, haddr⟩

end Others

/-! ## (8) The accesses keep what is known -/

section Accesses

variable {table : Table α} {log : List (Done α)} {stage stage' : Stage α} {key : Name} {data : α}

/-- What follows an item of another key. -/
theorem suffix_of_ne {l m : List (Item α)} {item : Item α} (h : l <:+ item :: m) (hne : l ≠ item :: m) :
    l <:+ m :=
  (List.suffix_cons_iff.mp h).resolve_left hne

/-- **An access that moves a call on.** -/
theorem Moves.holds (h : Moves table stage stage') (hinv : TableInv table) (hcall : CallHolds table log stage) :
    CallHolds table log stage' := by
  cases h with
  | rest hidle => exact hcall
  | loadOrig => exact ⟨List.suffix_refl _, List.suffix_refl _, rfl⟩
  | scanNext key data origHead hkey =>
      obtain ⟨horig, hitem, hsame⟩ := hcall
      exact ⟨horig, (List.suffix_cons _ _).trans hitem, hsame.trans (firstOf_cons_of_ne hkey _)⟩
  | scanEnd key data origHead =>
      obtain ⟨horig, -, hsame⟩ := hcall
      refine ⟨horig, fun item hitem => ?_⟩
      rw [hsame] at hitem
      cases hitem
  | scanRemoved key data origHead hkey hphase =>
      obtain ⟨horig, -, hsame⟩ := hcall
      refine ⟨horig, fun item hitem => ?_⟩
      rw [hsame, firstOf_cons_self hkey, Option.some.injEq] at hitem
      exact hitem ▸ hphase
  | loadHead key data origHead => exact ⟨List.suffix_refl _, List.suffix_refl _, hcall.1, rfl, hcall.2⟩
  | checkEnd key data origHead head =>
      obtain ⟨hhead, hitem, horig, hsame, hfree⟩ := hcall
      refine ⟨hhead, horig.trans hitem, hfree, fun item hitem => ?_⟩
      rw [hsame] at hitem
      cases hitem
  | checkOrig key data origHead head hptr =>
      obtain ⟨hhead, hitem, horig, hsame, hfree⟩ := hcall
      have hordered := (hinv.ordered (table.slot key)).sublist (hitem.trans hhead).sublist
      have heq := eq_of_samePtr hordered horig hptr
      refine ⟨hhead, horig.trans hitem, hfree, fun item hfirst => ?_⟩
      rw [hsame, heq] at hfirst
      exact hfree item hfirst
  | checkNext key data origHead head hptr hkey =>
      obtain ⟨hhead, hitem, horig, hsame, hfree⟩ := hcall
      refine ⟨hhead, (List.suffix_cons _ _).trans hitem, suffix_of_ne horig ?_,
        hsame.trans (firstOf_cons_of_ne hkey _), hfree⟩
      rintro rfl
      exact hptr (by simp [samePtr])
  | retry key data origHead head => exact ⟨hcall.2.1.trans hcall.1, hcall.2.2.1⟩
  | loadRead key start before =>
      exact ⟨hcall, List.suffix_refl _, table.writes, hcall.before_le, List.suffix_refl _, hinv.first key⟩
  | readNext key start before hkey =>
      obtain ⟨hstarted, hitem, w, hbefore, hw, hsame⟩ := hcall
      rw [firstOf_cons_of_ne hkey] at hsame
      exact ⟨hstarted, (List.suffix_cons _ _).trans hitem, w, hbefore, hw, hsame⟩
  | loadRemove key => exact ⟨List.suffix_refl _, rfl⟩
  | searchNext key hkey =>
      exact ⟨(List.suffix_cons _ _).trans hcall.1, hcall.2.trans (firstOf_cons_of_ne hkey _)⟩
  | searchFound key hkey => exact ⟨_, hcall.2.trans (firstOf_cons_self hkey _), rfl⟩

theorem Moves.separate (h : Moves table stage stage') {other : Stage α} (hother : Separate stage other) :
    Separate stage' other := by
  cases h with
  | rest hidle => exact hother
  | _ => exact hother.of_less (by simp [Stage.inserting]) (by simp [Stage.removing]) rfl

end Accesses

/-! ## (9) What is known of the calls that have returned -/

/-- The items of the insertions that were successful. -/
def okAddrs (log : List (Done α)) : List Nat :=
  log.filterMap fun
    | .set _ _ (.ok addr) => some addr
    | _ => none

/-- **A lookup yields the data of its key at some moment** between its start and its return. -/
structure Linear (log : List (Done α)) (key : Name) (value : Option α) (start : Nat)
    (before after : List (Write α)) : Prop where
  started : Started after log start before
  moment : ∃ w, before <:+ w ∧ w <:+ after ∧ value = current w key

/-- **The invariant of the calls that have returned.** -/
structure LogInv (table : Table α) (log : List (Done α)) : Prop where
  known : ∀ done ∈ log, Known table.writes done
  /-- An insertion is refused for an item of its key. -/
  refused : ∀ key data e, .set key data (.error e) ∈ log →
    e = .conflict ∧ ∃ addr data', ⟨addr, key, some data'⟩ ∈ table.writes
  nodup : (okAddrs log).Nodup
  counted : table.numItems = numOk log
  reads : ∀ key value start before after, .get key value start before after ∈ log →
    after <:+ table.writes ∧ Linear log key value start before after

section Logs

variable {table table' : Table α} {log : List (Done α)} {stage : Stage α} {key : Name} {data : α}

theorem Linear.append {value : Option α} {start : Nat} {before after : List (Write α)}
    (h : Linear log key value start before after) (new : List (Done α)) :
    Linear (new ++ log) key value start before after :=
  ⟨h.started.grows (List.suffix_refl _) new, h.moment⟩

/-- The table changes. -/
theorem LogInv.grows (h : LogInv table log) (hgrows : Grows table table')
    (hnum : table'.numItems = table.numItems) : LogInv table' log := by
  refine ⟨fun done hdone => (h.known done hdone).mono hgrows.writes, fun key data e hmem => ?_, h.nodup,
    hnum.trans h.counted, fun key value start before after hmem => ?_⟩
  · obtain ⟨he, addr, data', hw⟩ := h.refused key data e hmem
    exact ⟨he, addr, data', hgrows.writes.subset hw⟩
  · obtain ⟨hafter, hlinear⟩ := h.reads key value start before after hmem
    exact ⟨hafter.trans hgrows.writes, hlinear⟩

/-- A call returns that has not linked an item. -/
theorem LogInv.cons (h : LogInv table log) {done : Done α} (hknown : Known table.writes done)
    (hok : okAddrs [done] = [] ∧ numOk [done] = 0)
    (hrefused : ∀ key data e, done = .set key data (.error e) →
      e = .conflict ∧ ∃ addr data', ⟨addr, key, some data'⟩ ∈ table.writes)
    (hread : ∀ key value start before after, done = .get key value start before after →
      after <:+ table.writes ∧ Linear log key value start before after) : LogInv table (done :: log) := by
  have haddrs : okAddrs (done :: log) = okAddrs log := by
    rw [← List.singleton_append, okAddrs, List.filterMap_append]
    simpa [okAddrs] using hok.1
  have hnum : numOk (done :: log) = numOk log := by
    rw [← List.singleton_append, numOk, List.countP_append]
    simpa [numOk] using hok.2
  refine ⟨fun d hd => ?_, fun key data e hmem => ?_, haddrs ▸ h.nodup, h.counted.trans hnum.symm,
    fun key value start before after hmem => ?_⟩
  · rcases List.mem_cons.mp hd with rfl | hd
    · exact hknown
    · exact h.known d hd
  · rcases List.mem_cons.mp hmem with heq | hmem
    · exact hrefused key data e heq.symm
    · exact h.refused key data e hmem
  · rcases List.mem_cons.mp hmem with heq | hmem
    · exact (hread key value start before after heq.symm).imp_right fun hl => hl.append [done]
    · exact (h.reads key value start before after hmem).imp_right fun hl => hl.append [done]

/-- **What a loop of `knd_shared_dict_get` finds** is the data of the key at some moment. -/
theorem linear_read (hinv : TableInv table) {start : Nat} {before : List (Write α)} {item : Item α}
    {next : List (Item α)} (hkey : item.key = key)
    (hcall : CallHolds table log (.reading key start before (item :: next))) :
    Linear log key (if table.phase item.addr = .removed then none else some item.data) start before
      table.writes := by
  obtain ⟨hstarted, hitem, w, hbefore, hw, hsame⟩ := hcall
  refine ⟨hstarted, ?_⟩
  rw [firstOf_cons_self hkey, Option.map_some, Option.map_eq_some_iff] at hsame
  obtain ⟨write, hfind, haddr⟩ := hsame
  have hmem : item ∈ table.bucket key := hitem.subset (List.mem_cons_self ..)
  have hwkey : write.key = key := write_isOf_iff.mp (List.find?_some hfind)
  have hwmem : write ∈ w := List.mem_of_find?_eq_some hfind
  have hmarked := hinv.marked _ item hmem
  rw [hkey] at hmarked
  obtain ⟨addr, key', data'⟩ := write
  obtain rfl : addr = item.addr := haddr
  obtain rfl : key' = key := hwkey
  cases data' with
  | none =>
      -- the item was marked by then
      refine ⟨w, hbefore, hw, ?_⟩
      rw [if_pos (hmarked.mpr (hw.subset hwmem)), current, hfind]
      rfl
  | some data' =>
      have hitem' : (⟨item.addr, key', data'⟩ : Item α) ∈ table.bucket key' :=
        (hinv.linked _ _ _).mp (hw.subset hwmem)
      have heq : (⟨item.addr, key', data'⟩ : Item α) = item := hinv.unique _ _ _ hitem' _ hmem rfl
      by_cases hphase : table.phase item.addr = .removed
      · -- it was marked since: the moment is right after the mark
        obtain ⟨newer, older, hsplit⟩ := List.append_of_mem (hmarked.mp hphase)
        have hsuffix : ⟨item.addr, key', none⟩ :: older <:+ table.writes := ⟨newer, hsplit.symm⟩
        have hmoment : before <:+ ⟨item.addr, key', none⟩ :: older := by
          rcases List.suffix_or_suffix_of_suffix (hbefore.trans hw) hsuffix with hle | hle
          · exact hle
          · have hin : (⟨item.addr, key', none⟩ : Write α) ∈ w :=
              hbefore.subset (hle.subset (List.mem_cons_self ..))
            have hnone := hinv.inTurn w hw _ _ hin _ hfind rfl
            cases hnone
        refine ⟨_, hmoment, hsuffix, ?_⟩
        rw [if_pos hphase, current, find?_writes_self]
        rfl
      · refine ⟨w, hbefore, hw, ?_⟩
        rw [if_neg hphase, current, hfind]
        exact congrArg (fun x => some x.data) heq.symm

/-- **A call that returns without a change of the table.** -/
theorem Finishes.logInv {done : Done α} (h : Finishes table stage done) (hinv : TableInv table)
    (hlog : LogInv table log) (hcall : CallHolds table log stage) : LogInv table (done :: log) := by
  cases h with
  | @taken key data origHead item next hkey =>
      refine hlog.cons trivial ⟨rfl, rfl⟩ ?_ (by simp)
      rintro key' data' e heq
      obtain ⟨rfl, rfl, rfl⟩ : key = key' ∧ data = data' ∧ KndErr.conflict = e := by simpa using heq
      have hmem : item ∈ table.bucket key := hcall.1.subset (hcall.2.1.subset (List.mem_cons_self ..))
      refine ⟨rfl, item.addr, item.data, (hinv.linked _ _ _).mpr ?_⟩
      rw [← hkey] at hmem ⊢
      exact hmem
  | @overtaken key data origHead head item next hkey =>
      refine hlog.cons trivial ⟨rfl, rfl⟩ ?_ (by simp)
      rintro key' data' e heq
      obtain ⟨rfl, rfl, rfl⟩ : key = key' ∧ data = data' ∧ KndErr.conflict = e := by simpa using heq
      have hmem : item ∈ table.bucket key := hcall.1.subset (hcall.2.1.subset (List.mem_cons_self ..))
      refine ⟨rfl, item.addr, item.data, (hinv.linked _ _ _).mpr ?_⟩
      rw [← hkey] at hmem ⊢
      exact hmem
  | missing key start before =>
      refine hlog.cons trivial ⟨rfl, rfl⟩ (by simp) ?_
      rintro key' value start' before' after' heq
      obtain ⟨rfl, rfl, rfl, rfl, rfl⟩ : key = key' ∧ none = value ∧ start = start' ∧ before = before' ∧
        table.writes = after' := by simpa using heq
      obtain ⟨hstarted, -, w, hbefore, hw, hsame⟩ := hcall
      refine ⟨List.suffix_refl _, hstarted, w, hbefore, hw, ?_⟩
      have hfind : w.find? (Write.isOf key) = none := by simpa [firstOf] using hsame
      rw [current, hfind]
      rfl
  | read key start before hkey =>
      refine hlog.cons trivial ⟨rfl, rfl⟩ (by simp) ?_
      rintro key' value start' before' after' heq
      obtain ⟨rfl, rfl, rfl, rfl, rfl⟩ : key = key' ∧ _ = value ∧ start = start' ∧ before = before' ∧
        table.writes = after' := by simpa using heq
      exact ⟨List.suffix_refl _, linear_read hinv hkey hcall⟩
  | unknown key => exact hlog.cons trivial ⟨rfl, rfl⟩ (by simp) (by simp)

/-- **A successful insertion returns.** -/
theorem LogInv.count (h : LogInv table log) {addr : Nat} (hlinked : ⟨addr, key, some data⟩ ∈ table.writes)
    (hnew : ∀ key' data', .set key' data' (.ok addr) ∉ log) :
    LogInv table.count (.set key data (.ok addr) :: log) := by
  have haddr : addr ∉ okAddrs log := by
    intro hmem
    obtain ⟨done, hdone, heq⟩ := List.mem_filterMap.mp hmem
    cases done with
    | set key' data' rc =>
        cases rc with
        | error => cases heq
        | ok addr' =>
            cases heq
            exact hnew key' data' hdone
    | get => cases heq
    | remove => cases heq
  refine ⟨fun d hd => ?_, fun key' data' e hmem => ?_, List.nodup_cons.mpr ⟨haddr, h.nodup⟩, ?_,
    fun key' value start before after hmem => ?_⟩
  · rcases List.mem_cons.mp hd with rfl | hd
    · exact hlinked
    · exact h.known d hd
  · rcases List.mem_cons.mp hmem with heq | hmem
    · cases heq
    · exact h.refused key' data' e hmem
  · rw [Table.count, numOk, List.countP_cons_of_pos (by rfl)]
    exact congrArg (· + 1) h.counted
  · rcases List.mem_cons.mp hmem with heq | hmem
    · cases heq
    · exact (h.reads key' value start before after hmem).imp_right fun hl => hl.append [.set key data (.ok addr)]

/-- **The first item of a key is removed.** -/
theorem LogInv.mark (h : LogInv table log) (addr : Nat) :
    LogInv (table.mark key addr) (.remove key (.ok ()) (table.mark key addr).writes :: log) := by
  refine LogInv.cons (h.grows (grows_mark table key addr) rfl) ?_ ⟨rfl, rfl⟩ (by simp) (by simp)
  refine ⟨List.suffix_refl _, ?_⟩
  simp only [Table.mark, current]
  rw [find?_writes_self]
  rfl

end Logs

/-! ## (10) The events keep what is known -/

/-- What is known of the table and of the calls. -/
abbrev Race.Sure (s : Race ι α) : Prop :=
  s.Holds (fun table log => TableInv table ∧ LogInv table log) CallHolds Separate

/-- **No linked item is forgotten**: its insertion has returned or will. -/
def Race.Covered (s : Race ι α) : Prop :=
  ∀ addr key data, ⟨addr, key, some data⟩ ∈ s.shared.writes →
    .set key data (.ok addr) ∈ s.log ∨ ∃ t, s.stage t = .linked key data addr

section Events

variable {s : Race ι α} {t : ι}

/-- **A call starts.** -/
theorem Race.Sure.call (h : s.Sure) (hidle : s.stage t = .idle) {c : Call α} (hquiet : s.Quiet (.call t c)) :
    Race.Sure (s.turn t (goto s.shared (called s.shared s.log c))) := by
  refine Threads.Holds.turn h (fun _ _ => Separate.symm) h.shared ?_ fun u hne hu hapart => ⟨hu, ?_⟩
  · cases c with
    | set => trivial
    | get key =>
        refine ⟨Nat.le_refl _, List.suffix_refl _, fun done hdone => ?_⟩
        exact h.shared.2.known done (List.mem_reverse.mp (List.mem_of_mem_take hdone))
    | remove => trivial
  · rw [hidle] at hapart
    cases c with
    | set key data =>
        refine ⟨fun key' hkey => ?_, fun key' hkey => by simp [called, goto, Stage.removing],
          fun addr haddr => by simp [called, goto, Stage.linkedAddr] at haddr⟩
        obtain rfl : key = key' := by simpa [called, goto, Stage.inserting] using hkey
        exact hquiet u
    | get key => exact hapart.of_less (.inl rfl) (.inl rfl) rfl
    | remove key =>
        refine ⟨fun key' hkey => by simp [called, goto, Stage.inserting] at hkey, fun key' hkey heq => ?_,
          fun addr haddr => by simp [called, goto, Stage.linkedAddr] at haddr⟩
        obtain rfl : key = key' := by simpa [called, goto, Stage.removing] using heq
        exact hquiet u hkey

/-- What has returned without an item is no item of another call. -/
theorem notMem_of_finishes {table : Table α} {stage : Stage α} {done : Done α} (h : Finishes table stage done)
    (addr : Nat) (key : Name) (data : α) : .set key data (.ok addr) ∉ [done] := by
  cases h <;> simp

/-- **An access keeps what is known.** -/
theorem Race.Sure.access (h : s.Sure) {stage : Stage α} (hstage : s.stage t = stage)
    {o : Outcome (Table α) (Stage α) (Done α)} (ho : Access s.shared stage o) : Race.Sure (s.turn t o) := by
  obtain ⟨hinv, hlog⟩ := h.shared
  have hcall : CallHolds s.shared s.log stage := hstage ▸ h.each t
  cases ho with
  | move hmove =>
      refine Threads.Holds.turn h (fun _ _ => Separate.symm) h.shared (hmove.holds hinv hcall) fun u _ hu hapart => ?_
      rw [hstage] at hapart
      exact ⟨hu, hmove.separate hapart⟩
  | finish hfinish =>
      refine Threads.Holds.turn h (fun _ _ => Separate.symm) ⟨hinv, hfinish.logInv hinv hlog hcall⟩ trivial
        fun u _ hu hapart => ⟨?_, hapart.of_less (.inl rfl) (.inl rfl) rfl⟩
      exact hu.grows hinv (Grows.refl _) (fun _ _ => rfl) fun addr _ key data =>
        notMem_of_finishes hfinish addr key data
  | link key data origHead head hsame =>
      obtain ⟨hhead, -, -, hfree⟩ := hcall
      obtain rfl : s.shared.bucket key = head := eq_of_samePtr (hinv.ordered _) hhead hsame
      have hgrows := grows_link s.shared key data
      refine Threads.Holds.turn h (fun _ _ => Separate.symm) ⟨hinv.link data hfree, hlog.grows hgrows rfl⟩ ?_
        fun u _ hu hapart => ?_
      · refine ⟨List.mem_cons_self .., fun key' data' hmem => ?_⟩
        exact Nat.lt_irrefl _ (hinv.addr_lt (hlog.known _ hmem))
      · rw [hstage] at hapart
        refine ⟨hu.grows hinv hgrows (fun key' hkey' => ?_) fun _ _ _ _ => List.not_mem_nil,
          ?_, fun key' hkey' => by simp [goto, Stage.removing], fun addr haddr hother => ?_⟩
        · -- the key that is being removed is another one
          have hne : key ≠ key' := by
            rintro rfl
            exact hapart.left key rfl hkey'
          rw [Table.bucket_link]
          split
          · rename_i hs
            rw [firstOf_cons_of_ne hne, Table.bucket, Table.bucket, hs]
          · rfl
        · exact hapart.left
        · obtain rfl : s.shared.nextAddr = addr := by simpa [goto, Stage.linkedAddr] using haddr
          generalize s.stage u = other at hu hother
          cases other with
          | linked key' data' addr' =>
              obtain rfl : addr' = s.shared.nextAddr := by simpa [Stage.linkedAddr] using hother
              exact Nat.lt_irrefl _ (hinv.addr_lt hu.1)
          | _ => cases hother
  | count key data addr =>
      refine Threads.Holds.turn h (fun _ _ => Separate.symm) ⟨hinv.count, hlog.count hcall.1 hcall.2⟩ trivial
        fun u _ hu hapart => ⟨?_, hapart.of_less (.inl rfl) (.inl rfl) rfl⟩
      rw [hstage] at hapart
      refine hu.grows hinv (grows_count _) (fun _ _ => rfl) fun addr' haddr' key' data' hmem => ?_
      have heq := List.mem_singleton.mp hmem
      cases heq
      exact hapart.addr _ rfl haddr'
  | mark key addr =>
      obtain ⟨item, hfirst, rfl⟩ := hcall
      refine Threads.Holds.turn h (fun _ _ => Separate.symm) ⟨hinv.mark hfirst, hlog.mark item.addr⟩ trivial
        fun u _ hu hapart => ⟨?_, hapart.of_less (.inl rfl) (.inl rfl) rfl⟩
      refine hu.grows hinv (grows_mark _ key item.addr) (fun _ _ => rfl) fun _ _ _ _ hmem => ?_
      have heq := List.mem_singleton.mp hmem
      cases heq

/-- **An access forgets no item.** -/
theorem Race.Covered.access (h : s.Covered) {stage : Stage α} (hstage : s.stage t = stage)
    {o : Outcome (Table α) (Stage α) (Done α)} (ho : Access s.shared stage o) : Race.Covered (s.turn t o) := by
  have hkeep : ∀ addr key data, (∀ a k d, stage ≠ .linked k d a ∨ a ≠ addr) →
      (.set key data (.ok addr) ∈ s.log ∨ ∃ u, s.stage u = .linked key data addr) →
      .set key data (.ok addr) ∈ (s.turn t o).log ∨ ∃ u, (s.turn t o).stage u = .linked key data addr := by
    intro addr key data hne hold
    rcases hold with hmem | ⟨u, hu⟩
    · exact .inl (List.mem_append_right _ hmem)
    · refine .inr ⟨u, ?_⟩
      rw [Threads.stage_turn_of_ne, hu]
      rintro rfl
      rw [hstage] at hu
      exact (hne addr key data).elim (fun h => h hu) fun h => h rfl
  intro addr key data hmem
  cases ho with
  | move hmove =>
      refine hkeep addr key data (fun a k d => .inl ?_) (h addr key data hmem)
      rintro rfl
      cases hmove with
      | rest _ hidle => cases hidle
  | finish hfinish =>
      refine hkeep addr key data (fun a k d => .inl ?_) (h addr key data hmem)
      rintro rfl
      cases hfinish
  | link key' data' origHead head hsame =>
      rcases List.mem_cons.mp hmem with heq | hmem
      · obtain ⟨rfl, rfl, rfl⟩ : addr = s.shared.nextAddr ∧ key = key' ∧ data = data' := by simpa using heq
        exact .inr ⟨t, Threads.stage_turn_self⟩
      · exact hkeep addr key data (fun a k d => .inl (by simp)) (h addr key data hmem)
  | count key' data' addr' =>
      by_cases haddr : ∃ u, u ≠ t ∧ s.stage u = .linked key data addr
      · obtain ⟨u, hne, hu⟩ := haddr
        exact .inr ⟨u, by rw [Threads.stage_turn_of_ne hne, hu]⟩
      · rcases h addr key data hmem with hold | ⟨u, hu⟩
        · exact .inl (List.mem_cons_of_mem _ hold)
        · have hut : u = t := by
            by_contra hne
            exact haddr ⟨u, hne, hu⟩
          rw [hut, hstage] at hu
          obtain ⟨rfl, rfl, rfl⟩ : key' = key ∧ data' = data ∧ addr' = addr := by simpa using hu
          exact .inl (List.mem_cons_self ..)
  | mark key' addr' =>
      have hmem' : ⟨addr, key, some data⟩ ∈ s.shared.writes := by simpa [finish, Table.mark] using hmem
      exact hkeep addr key data (fun a k d => .inl (by simp)) (h addr key data hmem')

/-- **Every event keeps what is known.** -/
theorem Race.sure_step (h : s.Sure ∧ s.Covered) {e : DictEvent ι α} (hquiet : s.Quiet e) :
    Race.Sure (s.step e) ∧ Race.Covered (s.step e) := by
  obtain ⟨hsure, hcovered⟩ := h
  cases e with
  | access t spurious =>
      have haccess := access_advance s.shared spurious (s.stage t)
      exact ⟨hsure.access rfl haccess, hcovered.access rfl haccess⟩
  | call t c =>
      cases hstage : s.stage t with
      | idle =>
          simp only [Race.step, hstage]
          refine ⟨hsure.call hstage hquiet, fun addr key data hmem => ?_⟩
          refine (hcovered addr key data hmem).imp_right fun ⟨u, hu⟩ => ⟨u, ?_⟩
          rw [Threads.stage_turn_of_ne, hu]
          rintro rfl
          rw [hstage] at hu
          cases hu
      | _ => simpa only [Race.step, hstage] using And.intro hsure hcovered

omit [DecidableEq ι] in
theorem sure_start (size : Nat) : (Race.start size : Race ι α).Sure ∧ (Race.start size : Race ι α).Covered := by
  have hinv : TableInv ({ size } : Table α) := by
    constructor <;> intros <;> simp_all [Table.bucket, firstOf]
  have hlog : LogInv ({ size } : Table α) [] := by
    constructor <;> simp [okAddrs, numOk]
  refine ⟨⟨⟨hinv, hlog⟩, fun _ => trivial, fun _ _ _ => ?_⟩, fun addr key data hmem => absurd hmem List.not_mem_nil⟩
  exact ⟨fun key hkey => by simp [Race.start, Stage.inserting] at hkey,
    fun key hkey => by simp [Race.start, Stage.inserting] at hkey,
    fun addr haddr => by simp [Race.start, Stage.linkedAddr] at haddr⟩

end Events

/-! ## (11) Runs -/

section Runs

variable {s : Race ι α}

/-- A successful insertion of a key in the log. -/
theorem mem_resultsOf {key : Name} {log : List (Done α)} {rc : Except KndErr Nat} :
    rc ∈ resultsOf key log ↔ ∃ data, .set key data rc ∈ log := by
  rw [resultsOf, List.mem_filterMap]
  constructor
  · rintro ⟨done, hmem, heq⟩
    cases done with
    | set key' data rc' =>
        by_cases hkey : key' = key
        · subst hkey
          obtain rfl : rc' = rc := by simpa using heq
          exact ⟨data, hmem⟩
        · simp [hkey] at heq
    | get => cases heq
    | remove => cases heq
  · rintro ⟨data, hmem⟩
    exact ⟨_, hmem, if_pos rfl⟩

/-- The successful results of a key are among those of all keys. -/
theorem sublist_okAddrs (key : Name) (log : List (Done α)) :
    ((resultsOf key log).filter isOk).Sublist ((okAddrs log).map .ok) := by
  induction log with
  | nil => exact .slnil
  | cons done log ih =>
      cases done with
      | set key' data rc =>
          cases rc with
          | error e =>
              by_cases hkey : key' = key
              · simpa [resultsOf, okAddrs, hkey, isOk] using ih
              · simpa [resultsOf, okAddrs, hkey] using ih
          | ok addr =>
              have haddrs : okAddrs (.set key' data (.ok addr) :: log) = addr :: okAddrs log := rfl
              rw [haddrs, List.map_cons]
              by_cases hkey : key' = key
              · have hres : resultsOf key (.set key' data (.ok addr) :: log) = .ok addr :: resultsOf key log := by
                  simp [resultsOf, hkey]
                rw [hres, List.filter_cons_of_pos rfl]
                exact ih.cons_cons _
              · have hres : resultsOf key (.set key' data (.ok addr) :: log) = resultsOf key log := by
                  simp [resultsOf, hkey]
                rw [hres]
                exact ih.cons _
      | get => exact ih
      | remove => exact ih

/-- Items of a key that was never removed are the same. -/
theorem TableInv.addr_unique {table : Table α} (h : TableInv table) {key : Name}
    (hkept : ∀ w ∈ table.writes, w.key = key → w.data ≠ none) {addr addr' : Nat} {data data' : α}
    (hmem : ⟨addr, key, some data⟩ ∈ table.writes) (hmem' : ⟨addr', key, some data'⟩ ∈ table.writes) :
    addr = addr' ∧ data = data' := by
  have hvalid : ∀ addr data, ⟨addr, key, some data⟩ ∈ table.writes →
      firstOf key (table.bucket key) = some ⟨addr, key, data⟩ := by
    intro addr data hmem
    have hitem := (h.linked addr key data).mp hmem
    refine h.single key _ hitem rfl ((h.phases addr).resolve_right fun hphase => ?_)
    exact hkept _ ((h.marked _ _ hitem).mp hphase) rfl rfl
  have heq := (hvalid addr data hmem).symm.trans (hvalid addr' data' hmem')
  simpa using heq

/-- The last write decides what a key yields: with nothing linked since it was removed, nothing. -/
theorem current_append_of_none {newer older : List (Write α)} {key : Name} (hold : current older key = none)
    (hnew : ∀ w ∈ newer, w.key = key → w.data = none) : current (newer ++ older) key = none := by
  rw [current, List.find?_append]
  cases hfind : newer.find? (Write.isOf key) with
  | none => simpa [current] using hold
  | some write =>
      exact hnew write (List.mem_of_find?_eq_some hfind) (write_isOf_iff.mp (List.find?_some hfind))

/-- A key that was linked and never removed yields what was linked. -/
theorem TableInv.current_eq {table : Table α} (h : TableInv table) {key : Name}
    (hkept : ∀ w ∈ table.writes, w.key = key → w.data ≠ none) {w : List (Write α)} (hw : w <:+ table.writes)
    {addr : Nat} {data : α} (hmem : ⟨addr, key, some data⟩ ∈ w) : current w key = some data := by
  cases hfind : w.find? (Write.isOf key) with
  | none =>
      have hnone := List.find?_eq_none.mp hfind _ hmem
      exact absurd (write_isOf_iff.mpr rfl) hnone
  | some write =>
      have hwmem : write ∈ w := List.mem_of_find?_eq_some hfind
      have hwkey : write.key = key := write_isOf_iff.mp (List.find?_some hfind)
      obtain ⟨addr', key', data'⟩ := write
      obtain rfl : key' = key := hwkey
      cases data' with
      | none => exact absurd rfl (hkept _ (hw.subset hwmem) rfl)
      | some data' =>
          rw [current, hfind]
          exact congrArg some (h.addr_unique hkept (hw.subset hwmem) (hw.subset hmem)).2

/-- A list without repetition whose elements are all the same. -/
theorem length_le_one {β : Type} {l : List β} (hnodup : l.Nodup) (hsame : ∀ a ∈ l, ∀ b ∈ l, a = b) :
    l.length ≤ 1 := by
  cases l with
  | nil => exact Nat.zero_le 1
  | cons a l =>
      cases l with
      | nil => exact Nat.le_refl 1
      | cons b l =>
          have heq := hsame a (List.mem_cons_self ..) b (List.mem_cons_of_mem a (List.mem_cons_self ..))
          exact absurd (heq ▸ List.mem_cons_self ..) (List.nodup_cons.mp hnodup).1

/-- No item was linked twice. -/
theorem LogInv.nodup_ok {table : Table α} {log : List (Done α)} (h : LogInv table log) (key : Name) :
    ((resultsOf key log).filter isOk).Nodup :=
  (h.nodup.map fun _ _ heq => Except.ok.inj heq).sublist (sublist_okAddrs key log)

omit [DecidableEq ι] in
/-- **What is known gives the promise.** -/
theorem Race.Sure.contract (h : s.Sure) (hcovered : s.Covered) : Contract s := by
  obtain ⟨hinv, hlog⟩ := h.shared
  have hlinked : ∀ key data addr, (.set key data (.ok addr) ∈ s.log ∨ ∃ t, s.stage t = .linked key data addr) →
      ⟨addr, key, some data⟩ ∈ s.shared.writes := by
    rintro key data addr (hmem | ⟨t, ht⟩)
    · exact hlog.known _ hmem
    · have hcall := h.each t
      rw [ht] at hcall
      exact hcall.1
  have hok : ∀ key, ∀ rc ∈ (resultsOf key s.log).filter isOk,
      ∃ addr data, rc = .ok addr ∧ .set key data (.ok addr) ∈ s.log := by
    intro key rc hrc
    obtain ⟨hrc, hisOk⟩ := List.mem_filter.mp hrc
    obtain ⟨data, hmem⟩ := mem_resultsOf.mp hrc
    cases rc with
    | error => cases hisOk
    | ok addr => exact ⟨addr, data, rfl, hmem⟩
  have hone : ∀ key, (∀ w ∈ s.shared.writes, w.key = key → w.data ≠ none) →
      ((resultsOf key s.log).filter isOk).length ≤ 1 := by
    intro key hkept
    refine length_le_one (hlog.nodup_ok key) fun rc hrc rc' hrc' => ?_
    obtain ⟨addr, data, rfl, hmem⟩ := hok key rc hrc
    obtain ⟨addr', data', rfl, hmem'⟩ := hok key rc' hrc'
    exact congrArg Except.ok
      (hinv.addr_unique hkept (hlinked _ _ _ (.inl hmem)) (hlinked _ _ _ (.inl hmem'))).1
  refine ⟨fun key hkept => ⟨fun rc hrc => ?_, hone key hkept, fun hidle hne => ?_⟩,
    fun key value start before after hget hkept data addr hset => ?_,
    fun key data start before after hget => ?_, fun key data addr hset => ?_, fun _ => hlog.counted,
    fun key value start before after hget marked hremove newer hafter hnewer => ?_⟩
  · obtain ⟨data, hmem⟩ := mem_resultsOf.mp hrc
    cases rc with
    | error e => exact .inl (congrArg Except.error (hlog.refused key data e hmem).1)
    | ok addr => exact .inr rfl
  · -- a refused insertion has met an item, whose insertion has returned as well
    have hreturned : ∃ addr data, .set key data (.ok addr) ∈ s.log := by
      obtain ⟨rc, hrc⟩ := List.exists_mem_of_ne_nil _ hne
      obtain ⟨data, hmem⟩ := mem_resultsOf.mp hrc
      cases rc with
      | ok addr => exact ⟨addr, data, hmem⟩
      | error e =>
          obtain ⟨-, addr, data', hw⟩ := hlog.refused key data e hmem
          rcases hcovered addr key data' hw with hset | ⟨t, ht⟩
          · exact ⟨addr, data', hset⟩
          · rw [hidle t] at ht
            cases ht
    obtain ⟨addr, data, hmem⟩ := hreturned
    have hin : .ok addr ∈ (resultsOf key s.log).filter isOk :=
      List.mem_filter.mpr ⟨mem_resultsOf.mpr ⟨data, hmem⟩, rfl⟩
    exact Nat.le_antisymm (hone key hkept) (List.length_pos_of_mem hin)
  · obtain ⟨hle, hstarted, w, hbefore, hw, hvalue⟩ := hlog.reads key value start before after hget
    rw [hvalue]
    exact hinv.current_eq hkept (hw.trans hle) (hbefore.subset (hstarted.known _ hset))
  · obtain ⟨hle, hstarted, w, hbefore, hw, hvalue⟩ := hlog.reads key _ start before after hget
    cases hfind : w.find? (Write.isOf key) with
    | none =>
        rw [current, hfind] at hvalue
        cases hvalue
    | some write =>
        rw [current, hfind] at hvalue
        have hwmem := (hw.trans hle).subset (List.mem_of_find?_eq_some hfind)
        obtain ⟨addr, key', data'⟩ := write
        obtain rfl : key' = key := write_isOf_iff.mp (List.find?_some hfind)
        obtain rfl : some data = data' := hvalue
        exact ⟨addr, hcovered addr key' data hwmem⟩
  · exact (hinv.linked addr key data).mp (hlinked key data addr hset)
  · obtain ⟨hle, hstarted, w, hbefore, hw, hvalue⟩ := hlog.reads key value start before after hget
    obtain ⟨hmarked, hnone⟩ := hstarted.known _ hremove
    -- the moment of the lookup is not before the removal
    obtain ⟨n, rfl⟩ := hmarked.trans hbefore
    obtain ⟨m, hm⟩ := hw
    rw [hafter, ← List.append_assoc, List.append_cancel_right_eq] at hm
    rw [hvalue]
    refine current_append_of_none hnone fun w hwn => hnewer w ?_
    rw [← hm]
    exact List.mem_append_right m hwn

/-- **The dictionary keeps its promise** in every interleaving. -/
theorem contract_of_quiet {size : Nat} (hrun : Reaches Race.step Race.Quiet (Race.start size : Race ι α) s) :
    Contract s := by
  have hsure : s.Sure ∧ s.Covered :=
    hrun.invariant (sure_start size) fun _ _ hinv hquiet => Race.sure_step hinv hquiet
  exact hsure.1.contract hsure.2

/-- Two insertions of a key load the same empty bucket; one is overtaken. The key is looked up and removed, looked
up again and inserted anew. -/
def overtaking : List (DictEvent Bool Nat) :=
  [.call false (.set [97] 1), .call true (.set [97] 2), .access false false, .access true false] ++
    List.replicate 5 (.access false false) ++ List.replicate 4 (.access true false) ++
    [.call true (.get [97])] ++ List.replicate 2 (.access true false) ++
    [.call false (.remove [97])] ++ List.replicate 3 (.access false false) ++
    [.call true (.get [97])] ++ List.replicate 2 (.access true false) ++
    [.call false (.set [97] 3)] ++ List.replicate 6 (.access false false)

instance (s : Race Bool α) (e : DictEvent Bool α) : Decidable (s.Quiet e) :=
  match e with
  | .call _ (.set key _) => inferInstanceAs (Decidable (∀ u, (s.stage u).removing ≠ some key))
  | .call _ (.remove key) => inferInstanceAs (Decidable (∀ u, (s.stage u).inserting ≠ some key))
  | .call _ (.get _) => inferInstanceAs (Decidable True)
  | .access _ _ => inferInstanceAs (Decidable True)

theorem contract_of_quiet_overtaking : Contract (overtaking.foldl Race.step (Race.start 10)) :=
  contract_of_quiet (Reaches.refl.foldl (by decide +kernel))

example : resultsOf [97] (overtaking.foldl Race.step (Race.start 10)).log =
    [.ok 1, .error .conflict, .ok 0] := by
  decide +kernel

end Runs

end DictRace

end Knowdy
