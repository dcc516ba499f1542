import Knowdy.Lib.Runs
import Knowdy.Lib.Threads
import Knowdy.Utils
import Mathlib.Data.List.Basic

/-! # The cache for many threads

`kndCache` of `knd_cache.c`: cells with a count of readers, which is -1 while a writer has the cell. Any number of
calls of `knd_cache_set`, `knd_cache_get` and `knd_cache_release` are interleaved between every two accesses.

* `Cache`, `Stage`, `advance` — the cells, where a call is, and its accesses.
* `Sound` — what callers hold is not evicted, a call that sets data has put it into a cell of its own, and a cache
  without a free cell is reported.
* `Fits` — a writer finds a cell before the last one is passed, and takes none that another writer is in.
* `CallHolds`, `Apart`, `Counted` — what is known of a call, of two calls, and of the counts.
* `kept_of_fits` — the cache is sound in every run of such accesses. -/

namespace Knowdy

namespace CacheRace

/-! ## (1) The cells -/

/-- `struct kndCache`, as far as the three functions depend on it. -/
structure Cache (α : Type) where
  /-- `num_cells`. -/
  numCells : Nat
  /-- `num_readers` of each cell, an `int`; -1 while a writer has the cell. -/
  numReaders : Nat → Int := fun _ => 0
  /-- `data` of each cell. -/
  data : Nat → Option α := fun _ => none

variable {α : Type}

namespace Cache

/-- `num_readers` of a cell changes. -/
def setReaders (self : Cache α) (i : Nat) (n : Int) : Cache α :=
  { self with numReaders := Function.update self.numReaders i n }

/-- `data` of a cell changes. -/
def setData (self : Cache α) (i : Nat) (data : α) : Cache α :=
  { self with data := Function.update self.data i (some data) }

/-- The data is in no cell. -/
def Lacks (self : Cache α) (data : α) : Prop := ∀ i, self.data i ≠ some data

@[simp] theorem numCells_setReaders (self : Cache α) (i : Nat) (n : Int) :
    (self.setReaders i n).numCells = self.numCells := rfl

@[simp] theorem data_setReaders (self : Cache α) (i : Nat) (n : Int) : (self.setReaders i n).data = self.data := rfl

@[simp] theorem numReaders_setReaders_self (self : Cache α) (i : Nat) (n : Int) :
    (self.setReaders i n).numReaders i = n := Function.update_self ..

theorem numReaders_setReaders_of_ne (self : Cache α) {i j : Nat} (h : j ≠ i) (n : Int) :
    (self.setReaders i n).numReaders j = self.numReaders j := Function.update_of_ne h ..

@[simp] theorem numCells_setData (self : Cache α) (i : Nat) (data : α) :
    (self.setData i data).numCells = self.numCells := rfl

@[simp] theorem numReaders_setData (self : Cache α) (i : Nat) (data : α) :
    (self.setData i data).numReaders = self.numReaders := rfl

@[simp] theorem data_setData_self (self : Cache α) (i : Nat) (data : α) :
    (self.setData i data).data i = some data := Function.update_self ..

theorem data_setData_of_ne (self : Cache α) {i j : Nat} (h : j ≠ i) (data : α) :
    (self.setData i data).data j = self.data j := Function.update_of_ne h ..

end Cache

/-! ## (2) The calls -/

/-- Where a call is. A caller of `knd_cache_get` holds what it was given until it calls `knd_cache_release`. -/
inductive Stage (α : Type) where
  /-- No call, and nothing is held. -/
  | idle
  /-- `knd_cache_set`, before the load of `num_readers` of a cell. -/
  | looking (data : α) (i : Nat)
  /-- No reader was seen. -/
  | looked (data : α) (i : Nat) (readers : Int)
  /-- `num_readers` is exchanged with -1. -/
  | claimed (data : α) (i : Nat)
  /-- The data in the cell is loaded. -/
  | replacing (data : α) (i : Nat) (prev : Option α)
  /-- The data in the cell is exchanged. -/
  | replaced (data : α) (i : Nat) (prev : Option α)
  /-- Readers have access again, and what was in the cell is about to be handed to the callback. -/
  | evicting (prev : α)
  /-- `knd_cache_get`, before the load of `num_readers`. -/
  | getting (i : Nat)
  /-- `num_readers` is loaded. -/
  | counted (i : Nat) (readers : Int)
  /-- One reader more is counted. -/
  | pinned (i : Nat)
  /-- `knd_cache_get` has returned. -/
  | holding (i : Nat) (data : Option α)
  /-- `knd_cache_release`, before the load of the data. -/
  | releasing (i : Nat) (data : Option α)
  /-- The data is that in the cell. -/
  | matched (i : Nat) (data : Option α)
  /-- `num_readers` is loaded. -/
  | leaving (i : Nat) (data : Option α) (readers : Int)
  /-- An assertion has failed. -/
  | aborted
  deriving DecidableEq

/-- What happens to a call. -/
inductive Act (α : Type) where
  /-- `knd_cache_set` is called and `rand()` is `random`. -/
  | set (data : α) (random : Nat)
  /-- `knd_cache_get` is called. -/
  | get (i : Nat)
  /-- `knd_cache_release` is called for what is held. -/
  | release
  /-- The next access; a weak exchange may fail for no reason. -/
  | access (spurious : Bool)

/-- What a call returns. -/
inductive Answer (α : Type) where
  /-- `knd_cache_set`: its result, what is written to `*cell_num`, what the cell held at this moment, and whether
  every cell had readers. -/
  | set (data : α) (res : Except KndErr Unit) (cellNum : Option Nat) (held : Option α) (full : Bool)
  /-- `knd_cache_get`. -/
  | got (i : Nat) (res : Except KndErr (Option α))
  /-- `knd_cache_release`. -/
  | released (i : Nat) (res : Except KndErr Unit)
  deriving DecidableEq

/-- A number as an `int`. -/
@[irreducible] def toInt32 (n : Int) : Int := n.bmod (2 ^ 32)

theorem toInt32_of_lt {n : Int} (hmin : -(2 ^ 31) ≤ n) (hmax : n < 2 ^ 31) : toInt32 n = n := by
  rw [toInt32]
  exact Int.bmod_eq_of_le (by omega) (by omega)

/-- `rand() % (int)num_cells - 1`, if there is no division by zero and the assertion holds: it fails for the remainder
zero, where `start_cell_num` is `SIZE_MAX`. -/
def startCell (numCells random : Nat) : Option Nat :=
  let n := toInt32 numCells
  let remainder := (random : Int).tmod n
  if n ≠ 0 ∧ 0 < remainder ∧ remainder ≤ numCells then some (remainder - 1).toNat else none

theorem startCell_lt {numCells random i : Nat} (h : startCell numCells random = some i) : i < numCells := by
  rw [startCell] at h
  obtain ⟨⟨-, hpos, hle⟩, hi⟩ := Option.ite_none_right_eq_some.mp h
  have := Option.some.inj hi
  omega

/-- Has every cell readers? -/
def full (self : Cache α) : Bool := (List.range self.numCells).all fun i => 0 < self.numReaders i

/-- A writer sets out, from its first cell. -/
def setOut (self : Cache α) (data : α) : Option Nat → Outcome (Cache α) (Stage α) (Answer α)
  | none => { shared := self, stage := .aborted }
  | some i => { shared := self, stage := .looking data i }

/-- A writer goes on to the next cell. After the last one the loop ends, and `cell` is not null: the call returns
`knd_OK` and `*cell_num` is as it was. -/
def goOn (self : Cache α) (data : α) (i : Nat) : Outcome (Cache α) (Stage α) (Answer α) :=
  if i + 1 < self.numCells then { shared := self, stage := .looking data (i + 1) }
  else { shared := self, stage := .idle, returned := [.set data (.ok ()) none none (full self)] }

/-- **One access** of `knd_cache_set`, `knd_cache_get` or `knd_cache_release`. -/
def advance [DecidableEq α] (self : Cache α) : Stage α → Act α → Outcome (Cache α) (Stage α) (Answer α)
  | .idle, .set data random => setOut self data (startCell self.numCells random)
  | .idle, .get i => { shared := self, stage := .getting i }
  | .holding i data, .release => { shared := self, stage := .releasing i data }
  | .looking data i, .access _ =>
      if 0 < self.numReaders i then goOn self data i
      else { shared := self, stage := .looked data i (self.numReaders i) }
  | .looked data i readers, .access spurious =>
      if spurious = false ∧ self.numReaders i = readers then
        { shared := self.setReaders i (-1), stage := .claimed data i }
      else goOn self data i
  | .claimed data i, .access _ => { shared := self, stage := .replacing data i (self.data i) }
  | .replacing data i prev, .access spurious =>
      if spurious = false ∧ self.data i = prev then
        { shared := self.setData i data, stage := .replaced data i prev }
      else goOn self data i
  | .replaced data i prev, .access _ =>
      match prev with
      | none =>
          { shared := self.setReaders i 0
            stage := .idle
            returned := [.set data (.ok ()) (some i) (self.data i) (full (self.setReaders i 0))] }
      | some prev =>
          { shared := self.setReaders i 0
            stage := .evicting prev
            returned := [.set data (.ok ()) (some i) (self.data i) (full (self.setReaders i 0))] }
  | .evicting _, .access _ => { shared := self, stage := .idle }
  | .getting i, .access _ =>
      if self.numReaders i = -1 then
        { shared := self, stage := .idle, returned := [.got i (.error .conflict)] }
      else { shared := self, stage := .counted i (self.numReaders i) }
  | .counted i readers, .access spurious =>
      if spurious = false ∧ self.numReaders i = readers then
        -- `num_readers + 1` of an `int`
        { shared := self.setReaders i (toInt32 (readers + 1)), stage := .pinned i }
      else { shared := self, stage := .getting i }
  | .pinned i, .access _ =>
      { shared := self, stage := .holding i (self.data i), returned := [.got i (.ok (self.data i))] }
  | .releasing i data, .access _ =>
      if self.data i = data then { shared := self, stage := .matched i data }
      else { shared := self, stage := .idle, returned := [.released i (.error .conflict)] }
  | .matched i data, .access _ =>
      if self.numReaders i = -1 ∨ self.numReaders i = 0 then
        { shared := self, stage := .idle, returned := [.released i (.error .conflict)] }
      else { shared := self, stage := .leaving i data (self.numReaders i) }
  | .leaving i data readers, .access spurious =>
      if spurious = false ∧ self.numReaders i = readers then
        { shared := self.setReaders i (toInt32 (readers - 1))
          stage := .idle
          returned := [.released i (.ok ())] }
      else { shared := self, stage := .matched i data }
  | stage, _ => { shared := self, stage }

/-! ## (3) Runs -/

/-- The writer has the cell. -/
def Stage.Claims : Stage α → Nat → Prop
  | .claimed _ i, c => c = i
  | .replacing _ i _, c => c = i
  | .replaced _ i _, c => c = i
  | _, _ => False

/-- The reader is counted in the cell. -/
def Stage.Pins : Stage α → Nat → Prop
  | .pinned i, c => c = i
  | .holding i _, c => c = i
  | .releasing i _, c => c = i
  | .matched i _, c => c = i
  | .leaving i _ _, c => c = i
  | _, _ => False

/-- The data that a writer brings, or has taken out of a cell. -/
def Stage.owned : Stage α → List α
  | .looking data _ => [data]
  | .looked data _ _ => [data]
  | .claimed data _ => [data]
  | .replacing data _ _ => [data]
  | .replaced _ _ prev => prev.toList
  | .evicting prev => [prev]
  | _ => []

/-- The data that the caller was given and has not released. -/
def Stage.held : Stage α → Option α
  | .holding _ data => data
  | .releasing _ data => data
  | .matched _ data => data
  | .leaving _ data _ => data
  | _ => none

variable {ι : Type} [DecidableEq ι]

/-- A cache and the calls of the threads `ι`. -/
abbrev Race (ι α : Type) := Threads ι (Cache α) (Stage α) (Answer α)

/-- A turn of a thread. -/
structure Turn (ι α : Type) where
  /-- The thread. -/
  thread : ι
  /-- What happens to its call. -/
  act : Act α

namespace Race

/-- `knd_cache_new`, and no calls. -/
def start (ι : Type) (α : Type) (numCells : Nat) : Race ι α := ⟨{ numCells }, fun _ => .idle, []⟩

/-- One turn. -/
def step [DecidableEq α] (s : Race ι α) (e : Turn ι α) : Race ι α :=
  s.turn e.thread (advance s.shared (s.stage e.thread) e.act)

/-- No call brings the data or has taken it out of a cell, and it is in no cell. -/
def New (s : Race ι α) (data : α) : Prop := s.shared.Lacks data ∧ ∀ u, data ∉ (s.stage u).owned

/-- **The calls and accesses for which the cache is sound.** The data of a writer is new to the cache, and
`rand() % num_cells` is not 0; a writer does not have to pass the last cell; where it exchanges -1 with -1, no other
writer is in the cell. A reader asks for a cell of the cache, and the count of its readers is an `int` still. -/
def Fits (s : Race ι α) (e : Turn ι α) : Prop :=
  match s.stage e.thread, e.act with
  | .idle, .set data random => (startCell s.shared.numCells random).isSome ∧ s.New data
  | .idle, .get i => i < s.shared.numCells
  | .looking _ i, .access _ => 0 < s.shared.numReaders i → i + 1 < s.shared.numCells
  | .looked _ i readers, .access spurious =>
      if spurious = false ∧ s.shared.numReaders i = readers then
        s.shared.numReaders i = -1 → ∀ u, u ≠ e.thread → ¬ (s.stage u).Claims i
      else i + 1 < s.shared.numCells
  | .replacing _ i prev, .access spurious =>
      ¬ (spurious = false ∧ s.shared.data i = prev) → i + 1 < s.shared.numCells
  | .counted i readers, .access spurious =>
      spurious = false ∧ s.shared.numReaders i = readers → readers + 1 < 2 ^ 31
  | _, _ => True

end Race

/-- **The cache is sound.** -/
structure Sound (s : Race ι α) : Prop where
  /-- No assertion fails. -/
  running : ∀ t, s.stage t ≠ .aborted
  /-- What is about to be handed to the callback is not held by a caller. -/
  kept : ∀ t prev, s.stage t = .evicting prev → ∀ u, (s.stage u).held ≠ some prev
  /-- A call that returns `knd_OK` has written the number of a cell that held its data. -/
  placed : ∀ data cellNum held isFull, Answer.set data (.ok ()) cellNum held isFull ∈ s.log →
    ∃ i, cellNum = some i ∧ i < s.shared.numCells ∧ held = some data
  /-- No two writers have one cell. -/
  apart : ∀ t u, t ≠ u → ∀ i, (s.stage t).Claims i → ¬ (s.stage u).Claims i
  /-- A call that ends while every cell has readers reports an error. -/
  refused : ∀ data res cellNum held, Answer.set data res cellNum held true ∈ s.log → ∃ e, res = .error e

/-! ## (4) The invariant -/

/-- What is known of the cells and of the answers. -/
structure CacheInv (cache : Cache α) (log : List (Answer α)) : Prop where
  /-- No data is in two cells. -/
  once : ∀ i j data, cache.data i = some data → cache.data j = some data → i = j
  /-- What the writers have returned. -/
  answers : ∀ data res cellNum held isFull, Answer.set data res cellNum held isFull ∈ log →
    isFull = false ∧ ∃ i, cellNum = some i ∧ i < cache.numCells ∧ held = some data

/-- What is known of a call. -/
def CallHolds (cache : Cache α) (_ : List (Answer α)) : Stage α → Prop
  | .looking data i => i < cache.numCells ∧ cache.Lacks data
  | .looked data i readers => i < cache.numCells ∧ cache.Lacks data ∧ readers ≤ 0
  | .claimed data i => i < cache.numCells ∧ cache.Lacks data ∧ cache.numReaders i = -1
  | .replacing data i prev =>
      i < cache.numCells ∧ cache.Lacks data ∧ cache.numReaders i = -1 ∧ cache.data i = prev
  | .replaced data i prev =>
      i < cache.numCells ∧ cache.numReaders i = -1 ∧ cache.data i = some data ∧ ∀ d ∈ prev, cache.Lacks d
  | .evicting prev => cache.Lacks prev
  | .counted _ readers => 0 ≤ readers
  | .holding i data => cache.data i = data
  | .releasing i data => cache.data i = data
  | .matched i data => cache.data i = data
  | .leaving i data _ => cache.data i = data
  | .aborted => False
  | _ => True

/-- Two writers have neither a cell nor data in common. -/
structure Apart (a b : Stage α) : Prop where
  /-- The cells. -/
  cells : ∀ i, a.Claims i → ¬ b.Claims i
  /-- The data. -/
  data : ∀ d ∈ a.owned, d ∉ b.owned

/-- **`num_readers` counts the readers**, or is -1 and there are none. -/
def Counted (s : Race ι α) : Prop :=
  ∀ i, ∃ readers : List ι, readers.Nodup ∧ (∀ u, u ∈ readers ↔ (s.stage u).Pins i) ∧
    (s.shared.numReaders i = readers.length ∨ s.shared.numReaders i = -1 ∧ readers = []) ∧
    s.shared.numReaders i < 2 ^ 31

/-- **The invariant.** -/
structure Inv (s : Race ι α) : Prop where
  /-- The cells, the calls, and each two of them. -/
  holds : s.Holds CacheInv CallHolds Apart
  /-- The counts. -/
  counted : Counted s

theorem Apart.symm {a b : Stage α} (h : Apart a b) : Apart b a :=
  ⟨fun i hb ha => h.cells i ha hb, fun d hb ha => h.data d ha hb⟩

variable {s : Race ι α} {t : ι} {o : Outcome (Cache α) (Stage α) (Answer α)}

/-- **The proof rule for a turn.** -/
theorem Inv.turn (h : Inv s) (hI : CacheInv o.shared (o.returned ++ s.log))
    (hA : CallHolds o.shared (o.returned ++ s.log) o.stage)
    (hothers : ∀ u, u ≠ t → CallHolds s.shared s.log (s.stage u) → Apart (s.stage t) (s.stage u) →
      CallHolds o.shared (o.returned ++ s.log) (s.stage u) ∧ Apart o.stage (s.stage u))
    (hcounted : Counted (s.turn t o)) : Inv (s.turn t o) :=
  ⟨h.holds.turn (fun _ _ => Apart.symm) hI hA hothers, hcounted⟩

/-- Who is counted after a turn. -/
theorem pins_turn (u : ι) (i : Nat) :
    ((s.turn t o).stage u).Pins i ↔ if u = t then o.stage.Pins i else (s.stage u).Pins i := by
  by_cases hu : u = t
  · rw [if_pos hu, hu, Threads.stage_turn_self]
  · rw [if_neg hu, Threads.stage_turn_of_ne hu]

/-- **The counts stay right** where the readers stay and a count changes between 0 and -1 only. -/
theorem Counted.keep (h : Counted s) (hpins : ∀ i, o.stage.Pins i ↔ (s.stage t).Pins i)
    (hreaders : ∀ i, o.shared.numReaders i = s.shared.numReaders i ∨
      s.shared.numReaders i ≤ 0 ∧ (o.shared.numReaders i = 0 ∨ o.shared.numReaders i = -1)) :
    Counted (s.turn t o) := by
  intro i
  obtain ⟨readers, hnodup, hmem, hcount, hmax⟩ := h i
  refine ⟨readers, hnodup, fun u => ?_, ?_⟩
  · rw [pins_turn, hmem]
    by_cases hu : u = t
    · rw [if_pos hu, hpins, hu]
    · rw [if_neg hu]
  · rw [Threads.shared_turn]
    rcases hreaders i with heq | ⟨hle, hnew⟩
    · rw [heq]
      exact ⟨hcount, hmax⟩
    · refine ⟨?_, by omega⟩
      have hnil : readers = [] := by
        rcases hcount with hcount | ⟨-, hnil⟩
        · rw [hcount] at hle
          exact List.length_eq_zero_iff.mp (by omega)
        · exact hnil
      rcases hnew with hnew | hnew
      · exact .inl (by rw [hnew, hnil]; rfl)
      · exact .inr ⟨hnew, hnil⟩

/-- **A reader more is counted.** -/
theorem Counted.pin (h : Counted s) {i : Nat} (hold : ∀ j, ¬ (s.stage t).Pins j)
    (hnew : ∀ j, o.stage.Pins j ↔ j = i) (hpos : 0 ≤ s.shared.numReaders i) (hlt : s.shared.numReaders i + 1 < 2 ^ 31)
    (hreaders : o.shared = s.shared.setReaders i (s.shared.numReaders i + 1)) : Counted (s.turn t o) := by
  intro j
  obtain ⟨readers, hnodup, hmem, hcount, hmax⟩ := h j
  by_cases hj : j = i
  · subst hj
    have ht : t ∉ readers := fun ht => hold j ((hmem t).mp ht)
    refine ⟨t :: readers, List.nodup_cons.mpr ⟨ht, hnodup⟩, fun u => ?_, .inl ?_, ?_⟩
    · rw [pins_turn, List.mem_cons, hmem, hnew]
      by_cases hu : u = t
      · simp [hu]
      · simp [hu]
    · rw [Threads.shared_turn, hreaders, Cache.numReaders_setReaders_self, List.length_cons]
      omega
    · rw [Threads.shared_turn, hreaders, Cache.numReaders_setReaders_self]
      exact hlt
  · refine ⟨readers, hnodup, fun u => ?_, ?_⟩
    · rw [pins_turn, hmem]
      by_cases hu : u = t
      · rw [if_pos hu, hnew, hu]
        exact iff_of_false (hold j) hj
      · rw [if_neg hu]
    · rw [Threads.shared_turn, hreaders, Cache.numReaders_setReaders_of_ne _ hj]
      exact ⟨hcount, hmax⟩

/-- **A reader less is counted.** -/
theorem Counted.unpin (h : Counted s) {i : Nat} (hold : ∀ j, (s.stage t).Pins j ↔ j = i)
    (hnew : ∀ j, ¬ o.stage.Pins j)
    (hreaders : o.shared = s.shared.setReaders i (s.shared.numReaders i - 1)) : Counted (s.turn t o) := by
  intro j
  obtain ⟨readers, hnodup, hmem, hcount, hmax⟩ := h j
  by_cases hj : j = i
  · subst hj
    have ht : t ∈ readers := (hmem t).mpr ((hold j).mpr rfl)
    refine ⟨readers.erase t, hnodup.erase t, fun u => ?_, .inl ?_, ?_⟩
    · rw [pins_turn, hnodup.mem_erase_iff, hmem]
      by_cases hu : u = t
      · simp [hu, hnew]
      · simp [hu]
    · have hpos : 0 < readers.length := List.length_pos_of_mem ht
      rw [Threads.shared_turn, hreaders, Cache.numReaders_setReaders_self, List.length_erase_of_mem ht]
      rcases hcount with hcount | ⟨-, hnil⟩
      · omega
      · rw [hnil] at ht
        exact (List.not_mem_nil ht).elim
    · rw [Threads.shared_turn, hreaders, Cache.numReaders_setReaders_self]
      omega
  · refine ⟨readers, hnodup, fun u => ?_, ?_⟩
    · rw [pins_turn, hmem]
      by_cases hu : u = t
      · rw [if_pos hu, hu, hold]
        exact iff_of_false hj (hnew j)
      · rw [if_neg hu]
    · rw [Threads.shared_turn, hreaders, Cache.numReaders_setReaders_of_ne _ hj]
      exact ⟨hcount, hmax⟩

omit [DecidableEq ι] in
/-- A count is at least -1, and where someone is counted it is positive. -/
theorem Counted.bounds (h : Counted s) (i : Nat) :
    -1 ≤ s.shared.numReaders i ∧ ∀ u, (s.stage u).Pins i → 0 < s.shared.numReaders i := by
  obtain ⟨readers, -, hmem, hcount, -⟩ := h i
  refine ⟨by omega, fun u hu => ?_⟩
  have hread := (hmem u).mpr hu
  have hpos : 0 < readers.length := List.length_pos_of_mem hread
  rcases hcount with hcount | ⟨-, hnil⟩
  · omega
  · rw [hnil] at hread
    exact (List.not_mem_nil hread).elim

/-- What is known of a writer. -/
theorem CallHolds.claims {cache : Cache α} {log : List (Answer α)} {stage : Stage α} (h : CallHolds cache log stage)
    {i : Nat} (hi : stage.Claims i) : i < cache.numCells ∧ cache.numReaders i = -1 := by
  cases stage <;> cases hi
  · exact ⟨h.1, h.2.2⟩
  · exact ⟨h.1, h.2.2.1⟩
  · exact ⟨h.1, h.2.1⟩

/-- The data of a writer is in no cell, but for the data that it has just put into one. -/
theorem CallHolds.lacks {cache : Cache α} {log : List (Answer α)} {stage : Stage α} (h : CallHolds cache log stage)
    {d : α} (hd : d ∈ stage.owned) : cache.Lacks d := by
  cases stage with
  | looking data i => exact List.mem_singleton.mp hd ▸ h.2
  | looked data i readers => exact List.mem_singleton.mp hd ▸ h.2.1
  | claimed data i => exact List.mem_singleton.mp hd ▸ h.2.1
  | replacing data i prev => exact List.mem_singleton.mp hd ▸ h.2.1
  | replaced data i prev => exact h.2.2.2 d (Option.mem_toList.mp hd)
  | evicting prev => exact List.mem_singleton.mp hd ▸ h
  | _ => exact (List.not_mem_nil hd).elim

/-- What is known of a call stays known when the count of a cell changes in which it is no writer. -/
theorem CallHolds.setReaders {cache : Cache α} {log log' : List (Answer α)} {stage : Stage α}
    (h : CallHolds cache log stage) {i : Nat} (hi : ¬ stage.Claims i) (n : Int) :
    CallHolds (cache.setReaders i n) log' stage := by
  have hne : ∀ j, stage.Claims j → j ≠ i := fun j hj heq => hi (heq ▸ hj)
  cases stage with
  | claimed data j =>
      exact ⟨h.1, h.2.1, by rw [Cache.numReaders_setReaders_of_ne _ (hne j rfl)]; exact h.2.2⟩
  | replacing data j prev =>
      exact ⟨h.1, h.2.1, by rw [Cache.numReaders_setReaders_of_ne _ (hne j rfl)]; exact h.2.2.1, h.2.2.2⟩
  | replaced data j prev =>
      exact ⟨h.1, by rw [Cache.numReaders_setReaders_of_ne _ (hne j rfl)]; exact h.2.1, h.2.2⟩
  | idle => exact h
  | looking data j => exact h
  | looked data j readers => exact h
  | evicting prev => exact h
  | getting j => exact h
  | counted j readers => exact h
  | pinned j => exact h
  | holding j data => exact h
  | releasing j data => exact h
  | matched j data => exact h
  | leaving j data readers => exact h
  | aborted => exact h

/-- Other data is put into a cell. -/
theorem Cache.Lacks.setData {cache : Cache α} {d data : α} (h : cache.Lacks d) (hne : d ≠ data) (i : Nat) :
    (cache.setData i data).Lacks d := by
  intro j
  by_cases hj : j = i
  · rw [hj, Cache.data_setData_self]
    exact fun heq => hne (Option.some.inj heq).symm
  · rw [Cache.data_setData_of_ne _ hj]
    exact h j

/-- What is known of a call stays known when a cell is filled in which it is neither a writer nor a reader, with
data that it does not have. -/
theorem CallHolds.setData {cache : Cache α} {log log' : List (Answer α)} {stage : Stage α}
    (h : CallHolds cache log stage) {i : Nat} {data : α} (hclaims : ¬ stage.Claims i) (hpins : ¬ stage.Pins i)
    (hdata : data ∉ stage.owned) : CallHolds (cache.setData i data) log' stage := by
  have hc : ∀ j, stage.Claims j → j ≠ i := fun j hj heq => hclaims (heq ▸ hj)
  have hp : ∀ j, stage.Pins j → (cache.setData i data).data j = cache.data j :=
    fun j hj => Cache.data_setData_of_ne _ (fun heq : j = i => hpins (heq ▸ hj)) _
  have hd : ∀ d ∈ stage.owned, d ≠ data := fun d hd heq => hdata (heq ▸ hd)
  cases stage with
  | looking d j => exact ⟨h.1, h.2.setData (hd d (List.mem_singleton_self d)) i⟩
  | looked d j readers => exact ⟨h.1, h.2.1.setData (hd d (List.mem_singleton_self d)) i, h.2.2⟩
  | claimed d j => exact ⟨h.1, h.2.1.setData (hd d (List.mem_singleton_self d)) i, h.2.2⟩
  | replacing d j prev =>
      refine ⟨h.1, h.2.1.setData (hd d (List.mem_singleton_self d)) i, h.2.2.1, ?_⟩
      rw [Cache.data_setData_of_ne _ (hc j rfl)]
      exact h.2.2.2
  | replaced d j prev =>
      refine ⟨h.1, h.2.1, ?_, fun d' hd' => (h.2.2.2 d' hd').setData (hd d' (Option.mem_toList.mpr hd')) i⟩
      rw [Cache.data_setData_of_ne _ (hc j rfl)]
      exact h.2.2.1
  | evicting prev => exact Cache.Lacks.setData h (hd prev (List.mem_singleton_self prev)) i
  | holding j d => exact (hp j rfl).trans h
  | releasing j d => exact (hp j rfl).trans h
  | matched j d => exact (hp j rfl).trans h
  | leaving j d readers => exact (hp j rfl).trans h
  | idle => exact h
  | getting j => exact h
  | counted j readers => exact h
  | pinned j => exact h
  | aborted => exact h

/-! ## (5) The turns -/

/-- Answers among which there is none of a writer. -/
def NoWriter (l : List (Answer α)) : Prop := ∀ data res cellNum held isFull, Answer.set data res cellNum held isFull ∉ l

theorem CacheInv.append {cache : Cache α} {log returned : List (Answer α)} (h : CacheInv cache log)
    (hreturned : NoWriter returned) : CacheInv cache (returned ++ log) := by
  refine ⟨h.once, fun data res cellNum held isFull hmem => ?_⟩
  rcases List.mem_append.mp hmem with hmem | hmem
  · exact absurd hmem (hreturned _ _ _ _ _)
  · exact h.answers _ _ _ _ _ hmem

theorem CacheInv.setReaders {cache : Cache α} {log : List (Answer α)} (h : CacheInv cache log) (i : Nat) (n : Int) :
    CacheInv (cache.setReaders i n) log := ⟨h.once, h.answers⟩

/-- A turn keeps two calls apart that does not widen what its call has. -/
theorem Apart.narrow {a a' b : Stage α} (h : Apart a b) (hclaims : ∀ i, a'.Claims i → a.Claims i)
    (howned : ∀ d ∈ a'.owned, d ∈ a.owned) : Apart a' b :=
  ⟨fun i hi => h.cells i (hclaims i hi), fun d hd => h.data d (howned d hd)⟩

/-- **A turn that leaves the cells alone** and takes nothing more. -/
theorem Inv.turn_local (h : Inv s) {stage : Stage α} {returned : List (Answer α)} (hreturned : NoWriter returned)
    (hA : CallHolds s.shared s.log stage) (hclaims : ∀ i, stage.Claims i → (s.stage t).Claims i)
    (howned : ∀ d ∈ stage.owned, d ∈ (s.stage t).owned) (hpins : ∀ i, stage.Pins i ↔ (s.stage t).Pins i) :
    Inv (s.turn t { shared := s.shared, stage, returned }) :=
  h.turn (h.holds.shared.append hreturned) hA
    (fun _ _ hholds hapart => ⟨hholds, hapart.narrow hclaims howned⟩) (h.counted.keep hpins fun _ => .inl rfl)

/-- **A writer comes** with new data. -/
theorem Inv.come (h : Inv s) {data : α} {i : Nat} (hstage : s.stage t = .idle) (hi : i < s.shared.numCells)
    (hnew : s.New data) : Inv (s.turn t { shared := s.shared, stage := .looking data i }) := by
  refine h.turn h.holds.shared ⟨hi, hnew.1⟩ (fun u _ hholds _ => ⟨hholds, ⟨fun _ hc => hc.elim, ?_⟩⟩)
    (h.counted.keep (fun _ => by rw [hstage]; exact Iff.rfl) fun _ => .inl rfl)
  intro d hd
  rw [List.mem_singleton.mp hd]
  exact hnew.2 u

/-- **A writer claims a cell** that no reader and no other writer has. -/
theorem Inv.claim (h : Inv s) {data : α} {i : Nat} {readers : Int} (hstage : s.stage t = .looked data i readers)
    (hreaders : s.shared.numReaders i = readers)
    (halone : s.shared.numReaders i = -1 → ∀ u, u ≠ t → ¬ (s.stage u).Claims i) :
    Inv (s.turn t { shared := s.shared.setReaders i (-1), stage := .claimed data i }) := by
  obtain ⟨hi, hlacks, hle⟩ : i < s.shared.numCells ∧ s.shared.Lacks data ∧ readers ≤ 0 := by
    have := h.holds.each t
    rwa [hstage] at this
  have hothers : ∀ u, u ≠ t → ¬ (s.stage u).Claims i := by
    intro u hu hc
    exact halone ((h.holds.each u).claims hc).2 u hu hc
  refine h.turn (h.holds.shared.setReaders i (-1)) ⟨hi, hlacks, Cache.numReaders_setReaders_self _ _ _⟩ ?_ ?_
  · intro u hu hholds hapart
    rw [hstage] at hapart
    refine ⟨hholds.setReaders (hothers u hu) (-1), ⟨?_, hapart.data⟩⟩
    rintro j rfl
    exact hothers u hu
  · refine h.counted.keep (fun j => by rw [hstage]; exact Iff.rfl) fun j => ?_
    by_cases hj : j = i
    · subst hj
      exact .inr ⟨by omega, .inr (Cache.numReaders_setReaders_self _ _ _)⟩
    · exact .inl (Cache.numReaders_setReaders_of_ne _ hj _)

/-- **A writer puts its data into its cell.** -/
theorem Inv.replace (h : Inv s) {data : α} {i : Nat} {prev : Option α} (hstage : s.stage t = .replacing data i prev) :
    Inv (s.turn t { shared := s.shared.setData i data, stage := .replaced data i prev }) := by
  obtain ⟨hi, hlacks, hreaders, rfl⟩ : i < s.shared.numCells ∧ s.shared.Lacks data ∧
      s.shared.numReaders i = -1 ∧ s.shared.data i = prev := by
    have := h.holds.each t
    rwa [hstage] at this
  have hprev : ∀ d ∈ s.shared.data i, (s.shared.setData i data).Lacks d := by
    intro d hd j
    by_cases hj : j = i
    · rw [hj, Cache.data_setData_self]
      rintro heq
      cases heq
      exact hlacks i hd
    · rw [Cache.data_setData_of_ne _ hj]
      exact fun hdj => hj (h.holds.shared.once j i d hdj hd)
  refine h.turn ⟨?_, h.holds.shared.answers⟩ ⟨hi, hreaders, Cache.data_setData_self _ _ _, hprev⟩ ?_ ?_
  · -- the data was in no cell, so it is in one now
    intro j k d hdj hdk
    by_cases hj : j = i
    · by_cases hk : k = i
      · rw [hj, hk]
      · simp only [hj, Cache.data_setData_self, Cache.data_setData_of_ne _ hk] at hdj hdk
        cases hdj
        exact absurd hdk (hlacks k)
    · by_cases hk : k = i
      · simp only [hk, Cache.data_setData_self, Cache.data_setData_of_ne _ hj] at hdj hdk
        cases hdk
        exact absurd hdj (hlacks j)
      · simp only [Cache.data_setData_of_ne _ hj, Cache.data_setData_of_ne _ hk] at hdj hdk
        exact h.holds.shared.once j k d hdj hdk
  · intro u hu hholds hapart
    rw [hstage] at hapart
    have hpins : ¬ (s.stage u).Pins i := by
      intro hp
      have := (h.counted.bounds i).2 u hp
      omega
    refine ⟨hholds.setData (hapart.cells i rfl) hpins (hapart.data data (List.mem_singleton_self data)),
      ⟨hapart.cells, fun d hd hdu => ?_⟩⟩
    -- what another writer brings or has taken out is in no cell
    exact hholds.lacks hdu i (Option.mem_toList.mp hd)
  · exact h.counted.keep (fun j => by rw [hstage]; exact Iff.rfl) fun j => .inl rfl

/-- A cell without readers. -/
theorem full_eq_false {cache : Cache α} {i : Nat} (hi : i < cache.numCells) (hreaders : cache.numReaders i ≤ 0) :
    full cache = false := by
  rw [full, List.all_eq_false]
  exact ⟨i, List.mem_range.mpr hi, by simpa using hreaders⟩

/-- **A writer gives readers access again**, and goes on to the callback if there was data in the cell. -/
theorem Inv.publish (h : Inv s) {data : α} {i : Nat} {prev : Option α} (hstage : s.stage t = .replaced data i prev)
    {stage : Stage α} (hA : ∀ cache log, (∀ d ∈ prev, cache.Lacks d) → CallHolds cache log stage)
    (hclaims : ∀ j, ¬ stage.Claims j) (howned : ∀ d ∈ stage.owned, d ∈ prev) (hpins : ∀ j, ¬ stage.Pins j) :
    Inv (s.turn t
      { shared := s.shared.setReaders i 0
        stage
        returned := [.set data (.ok ()) (some i) (s.shared.data i) (full (s.shared.setReaders i 0))] }) := by
  obtain ⟨hi, hreaders, hdata, hprev⟩ : i < s.shared.numCells ∧ s.shared.numReaders i = -1 ∧
      s.shared.data i = some data ∧ ∀ d ∈ prev, s.shared.Lacks d := by
    have := h.holds.each t
    rwa [hstage] at this
  have hfull : full (s.shared.setReaders i 0) = false :=
    full_eq_false (i := i) hi (by rw [Cache.numReaders_setReaders_self])
  refine h.turn ⟨h.holds.shared.once, ?_⟩ (hA _ _ hprev) ?_ ?_
  · intro data' res cellNum held isFull hmem
    rcases List.mem_append.mp hmem with hmem | hmem
    · rw [List.mem_singleton.mp hmem |> Answer.set.inj |>.2.2.2.2]
      obtain ⟨rfl, -, rfl, rfl, -⟩ := Answer.set.inj (List.mem_singleton.mp hmem)
      exact ⟨hfull, i, rfl, hi, hdata⟩
    · exact h.holds.shared.answers _ _ _ _ _ hmem
  · intro u hu hholds hapart
    rw [hstage] at hapart
    refine ⟨hholds.setReaders (hapart.cells i rfl) 0, ⟨fun j hj => absurd hj (hclaims j), fun d hd => ?_⟩⟩
    exact hapart.data d (Option.mem_toList.mpr (howned d hd))
  · refine h.counted.keep (fun j => ?_) fun j => ?_
    · rw [hstage]
      exact iff_of_false (hpins j) id
    · by_cases hj : j = i
      · subst hj
        exact .inr ⟨by omega, .inl (Cache.numReaders_setReaders_self _ _ _)⟩
      · exact .inl (Cache.numReaders_setReaders_of_ne _ hj _)

/-- **A reader is counted.** -/
theorem Inv.pin (h : Inv s) {i : Nat} {readers : Int} (hstage : s.stage t = .counted i readers)
    (hreaders : s.shared.numReaders i = readers) (hpos : 0 ≤ readers) (hlt : readers + 1 < 2 ^ 31) :
    Inv (s.turn t { shared := s.shared.setReaders i (toInt32 (readers + 1)), stage := .pinned i }) := by
  rw [toInt32_of_lt (by omega) hlt]
  refine h.turn (h.holds.shared.setReaders i _) trivial (fun u hu hholds hapart => ⟨?_, ?_⟩) ?_
  · apply hholds.setReaders
    intro hc
    have := (hholds.claims hc).2
    omega
  · exact ⟨fun _ hc => hc.elim, fun _ hd => (List.not_mem_nil hd).elim⟩
  · refine h.counted.pin (fun j => ?_) (fun j => Iff.rfl) (hreaders ▸ hpos) (hreaders ▸ hlt) (by rw [hreaders])
    rw [hstage]
    exact id

/-- **A reader leaves.** -/
theorem Inv.leave (h : Inv s) {i : Nat} {data : Option α} {readers : Int}
    (hstage : s.stage t = .leaving i data readers) (hreaders : s.shared.numReaders i = readers)
    {returned : List (Answer α)} (hreturned : NoWriter returned) :
    Inv (s.turn t { shared := s.shared.setReaders i (toInt32 (readers - 1)), stage := .idle, returned }) := by
  have hpos : 0 < s.shared.numReaders i := (h.counted.bounds i).2 t (by rw [hstage]; rfl)
  obtain ⟨-, -, -, -, hmax⟩ := h.counted i
  rw [toInt32_of_lt (by omega) (by omega)]
  refine h.turn ((h.holds.shared.append hreturned).setReaders i _) trivial (fun u hu hholds hapart => ⟨?_, ?_⟩) ?_
  · apply hholds.setReaders
    intro hc
    have := (hholds.claims hc).2
    omega
  · exact ⟨fun _ hc => hc.elim, fun _ hd => (List.not_mem_nil hd).elim⟩
  · refine h.counted.unpin (fun j => ?_) (fun j => id) (by rw [hreaders])
    rw [hstage]
    exact Iff.rfl

/-- **A writer goes on** to a cell that is there. -/
theorem Inv.go_on (h : Inv s) {data : α} {i : Nat} (hlt : i + 1 < s.shared.numCells) (hlacks : s.shared.Lacks data)
    (howned : (s.stage t).owned = [data]) (hpins : ∀ j, ¬ (s.stage t).Pins j) :
    Inv (s.turn t (goOn s.shared data i)) := by
  rw [goOn, if_pos hlt]
  refine h.turn_local (fun _ _ _ _ _ => List.not_mem_nil) ⟨hlt, hlacks⟩ (fun _ hc => hc.elim) ?_ fun j => ?_
  · rw [howned]
    exact fun _ hd => hd
  · exact iff_of_false id (hpins j)

/-- Nothing is answered. -/
theorem noWriter_nil : NoWriter ([] : List (Answer α)) := fun _ _ _ _ _ => List.not_mem_nil

/-- A reader is answered. -/
theorem noWriter_got (i : Nat) (res : Except KndErr (Option α)) : NoWriter [.got i res] := by
  intro data res cellNum held isFull hmem
  cases List.mem_singleton.mp hmem

/-- A reader that leaves is answered. -/
theorem noWriter_released (i : Nat) (res : Except KndErr Unit) : NoWriter ([.released i res] : List (Answer α)) := by
  intro data res cellNum held isFull hmem
  cases List.mem_singleton.mp hmem

/-! ## (6) Runs -/

/-- A turn that changes nothing. -/
theorem Inv.stay (h : Inv s) {stage : Stage α} (hstage : s.stage t = stage) :
    Inv (s.turn t { shared := s.shared, stage }) := by
  subst hstage
  exact h.turn_local noWriter_nil (h.holds.each t) (fun _ => id) (fun _ => id) fun _ => Iff.rfl

/-- **The invariant is kept** by every access that fits. -/
theorem inv_access [DecidableEq α] (h : Inv s) (spurious : Bool) (hfits : s.Fits ⟨t, .access spurious⟩) :
    Inv (s.turn t (advance s.shared (s.stage t) (.access spurious))) := by
  have hcall := h.holds.each t
  rw [Race.Fits] at hfits
  cases hstage : s.stage t with
  | idle => exact h.stay hstage
  | looking data i =>
      rw [hstage] at hfits hcall
      rw [advance]
      split
      · rename_i hreaders
        exact h.go_on (hfits hreaders) hcall.2 (by rw [hstage]; rfl) fun j => by rw [hstage]; exact id
      · rename_i hreaders
        exact h.turn_local noWriter_nil ⟨hcall.1, hcall.2, by omega⟩ (fun _ hc => hc.elim)
          (fun _ hd => by rw [hstage]; exact hd) fun _ => by rw [hstage]; exact Iff.rfl
  | looked data i readers =>
      rw [hstage] at hfits hcall
      simp only at hfits
      rw [advance]
      split
      · rename_i hexchange
        rw [if_pos hexchange] at hfits
        exact h.claim hstage hexchange.2 hfits
      · rename_i hexchange
        rw [if_neg hexchange] at hfits
        exact h.go_on hfits hcall.2.1 (by rw [hstage]; rfl) fun j => by rw [hstage]; exact id
  | claimed data i =>
      rw [hstage] at hcall
      exact h.turn_local noWriter_nil ⟨hcall.1, hcall.2.1, hcall.2.2, rfl⟩ (fun _ hc => by rw [hstage]; exact hc)
        (fun _ hd => by rw [hstage]; exact hd) fun _ => by rw [hstage]; exact Iff.rfl
  | replacing data i prev =>
      rw [hstage] at hfits hcall
      rw [advance]
      split
      · exact h.replace hstage
      · rename_i hexchange
        exact h.go_on (hfits hexchange) hcall.2.1 (by rw [hstage]; rfl) fun j => by rw [hstage]; exact id
  | replaced data i prev =>
      cases prev with
      | none =>
          exact h.publish hstage (fun _ _ _ => trivial) (fun _ => id) (fun _ hd => (List.not_mem_nil hd).elim)
            fun _ => id
      | some prev =>
          refine h.publish hstage (fun cache _ hprev => hprev prev rfl) (fun _ => id) (fun d hd => ?_) fun _ => id
          rw [List.mem_singleton.mp hd]
          rfl
  | evicting prev =>
      exact h.turn_local noWriter_nil trivial (fun _ hc => hc.elim) (fun _ hd => (List.not_mem_nil hd).elim)
        fun _ => by rw [hstage]; exact Iff.rfl
  | getting i =>
      rw [advance]
      split
      · exact h.turn_local (noWriter_got _ _) trivial (fun _ hc => hc.elim)
          (fun _ hd => (List.not_mem_nil hd).elim) fun _ => by rw [hstage]; exact Iff.rfl
      · rename_i hreaders
        have hbound := (h.counted.bounds i).1
        refine h.turn_local noWriter_nil ?_ (fun _ hc => hc.elim)
          (fun _ hd => (List.not_mem_nil hd).elim) fun _ => by rw [hstage]; exact Iff.rfl
        rw [CallHolds]
        omega
  | counted i readers =>
      rw [hstage] at hfits hcall
      rw [advance]
      split
      · rename_i hexchange
        exact h.pin hstage hexchange.2 hcall (hfits hexchange)
      · exact h.turn_local noWriter_nil trivial (fun _ hc => hc.elim)
          (fun _ hd => (List.not_mem_nil hd).elim) fun _ => by rw [hstage]; exact Iff.rfl
  | pinned i =>
      exact h.turn_local (noWriter_got _ _) rfl (fun _ hc => hc.elim) (fun _ hd => (List.not_mem_nil hd).elim)
        fun _ => by rw [hstage]; exact Iff.rfl
  | holding i data => exact h.stay hstage
  | releasing i data =>
      rw [hstage] at hcall
      -- what is held is in the cell, so the payload does match
      rw [advance, if_pos (show s.shared.data i = data from hcall)]
      exact h.turn_local noWriter_nil hcall (fun _ hc => hc.elim) (fun _ hd => (List.not_mem_nil hd).elim)
        fun _ => by rw [hstage]; exact Iff.rfl
  | matched i data =>
      have hpos := (h.counted.bounds i).2 t (by rw [hstage]; rfl)
      rw [hstage] at hcall
      -- the caller is counted, so the count is neither -1 nor 0
      rw [advance, if_neg (by omega)]
      exact h.turn_local noWriter_nil hcall (fun _ hc => hc.elim) (fun _ hd => (List.not_mem_nil hd).elim)
        fun _ => by rw [hstage]; exact Iff.rfl
  | leaving i data readers =>
      rw [hstage] at hcall
      rw [advance]
      split
      · rename_i hexchange
        exact h.leave hstage hexchange.2 (noWriter_released _ _)
      · exact h.turn_local noWriter_nil hcall (fun _ hc => hc.elim) (fun _ hd => (List.not_mem_nil hd).elim)
          fun _ => by rw [hstage]; exact Iff.rfl
  | aborted =>
      rw [hstage] at hcall
      exact hcall.elim

/-- **The invariant is kept** by every turn that fits. -/
theorem inv_step [DecidableEq α] (s : Race ι α) (e : Turn ι α) (h : Inv s) (hfits : s.Fits e) : Inv (s.step e) := by
  obtain ⟨t, act⟩ := e
  rw [Race.step]
  cases act with
  | access spurious => exact inv_access h spurious hfits
  | set data random =>
      rw [Race.Fits] at hfits
      cases hstage : s.stage t with
      | idle =>
          rw [hstage] at hfits
          obtain ⟨hstart, hnew⟩ := hfits
          obtain ⟨i, hi⟩ := Option.isSome_iff_exists.mp hstart
          rw [advance, hi]
          exact h.come hstage (startCell_lt hi) hnew
      | _ => exact h.stay hstage
  | get i =>
      cases hstage : s.stage t with
      | idle =>
          exact h.turn_local noWriter_nil trivial (fun _ hc => hc.elim) (fun _ hd => (List.not_mem_nil hd).elim)
            fun _ => by rw [hstage]; exact Iff.rfl
      | _ => exact h.stay hstage
  | release =>
      have hcall := h.holds.each t
      cases hstage : s.stage t with
      | holding i data =>
          rw [hstage] at hcall
          exact h.turn_local noWriter_nil hcall (fun _ hc => hc.elim) (fun _ hd => (List.not_mem_nil hd).elim)
            fun _ => by rw [hstage]; exact Iff.rfl
      | _ => exact h.stay hstage

omit [DecidableEq ι] in
/-- A new cache. -/
theorem inv_start (numCells : Nat) : Inv (Race.start ι α numCells) := by
  refine ⟨⟨⟨fun _ _ _ hi => ?_, fun _ _ _ _ _ hmem => (List.not_mem_nil hmem).elim⟩, fun _ => trivial, fun _ _ _ => ?_⟩,
    fun i => ⟨[], List.nodup_nil, fun _ => ?_, .inl rfl, (by decide : (0 : Int) < 2 ^ 31)⟩⟩
  · cases hi
  · exact ⟨fun _ hc => hc.elim, fun _ hd => (List.not_mem_nil hd).elim⟩
  · exact iff_of_false List.not_mem_nil id

/-- What a caller holds is in a cell. -/
theorem CallHolds.held {cache : Cache α} {log : List (Answer α)} {stage : Stage α} (h : CallHolds cache log stage)
    {data : α} (hheld : stage.held = some data) : ∃ i, cache.data i = some data := by
  cases stage with
  | holding i d => exact ⟨i, Eq.trans h hheld⟩
  | releasing i d => exact ⟨i, Eq.trans h hheld⟩
  | matched i d => exact ⟨i, Eq.trans h hheld⟩
  | leaving i d readers => exact ⟨i, Eq.trans h hheld⟩
  | _ => cases hheld

/-- **The cache is sound** in every run of any number of threads on a cache with any number of cells, in which each
writer brings new data, does not start at `rand() % num_cells = 0`, finds a cell before the last one is passed, and
takes none that another writer is in, and no cell gets 2^31 readers. -/
theorem kept_of_fits [DecidableEq α] (numCells : Nat) {s : Race ι α}
    (h : Reaches Race.step Race.Fits (Race.start ι α numCells) s) : Sound s := by
  have hinv : Inv s := h.invariant (inv_start numCells) inv_step
  refine ⟨fun t ht => ?_, fun t prev ht u hheld => ?_, fun data cellNum held isFull hmem => ?_, fun t u htu => ?_,
    fun data res cellNum held hmem => ?_⟩
  · have := hinv.holds.each t
    rw [ht] at this
    exact this
  · have hlacks := hinv.holds.each t
    rw [ht] at hlacks
    obtain ⟨i, hi⟩ := (hinv.holds.each u).held hheld
    exact hlacks i hi
  · exact (hinv.holds.shared.answers _ _ _ _ _ hmem).2
  · exact (hinv.holds.apart t u htu).cells
  · cases (hinv.holds.shared.answers _ _ _ _ _ hmem).1

/-! ### A cache of two cells -/

/-- A thread sets data, with nobody in its way. -/
def setAlone (t : ι) (data random accesses : Nat) : List (Turn ι Nat) :=
  ⟨t, .set data random⟩ :: List.replicate accesses ⟨t, .access false⟩

/-- A thread gets a cell, with nobody in its way. -/
def getAlone (t : ι) (i : Nat) : List (Turn ι Nat) := ⟨t, .get i⟩ :: List.replicate 3 ⟨t, .access false⟩

/-- A thread releases what it holds, with nobody in its way. -/
def releaseAlone (t : ι) : List (Turn ι Nat) := ⟨t, .release⟩ :: List.replicate 3 ⟨t, .access false⟩

/-- A cell is filled and read, and when its reader has left its data is replaced. -/
def replacedAfterRelease : List (Turn Bool Nat) :=
  setAlone true 7 1 5 ++ getAlone false 0 ++ releaseAlone false ++ setAlone true 8 1 5

/-- The cache is sound when 7 is about to be handed to the callback. -/
theorem kept_of_fits_replaced : Sound (replacedAfterRelease.foldl Race.step (Race.start Bool Nat 2)) := by
  have hlacks : ∀ i, ¬ Function.update (fun _ => none) 0 (some 7) i = some 8 := by
    intro i
    by_cases hi : i = 0
    · simp [hi]
    · simp [Function.update_of_ne hi]
  have hstart : startCell 2 1 = some 0 := by decide +kernel
  have hone : toInt32 1 = 1 := toInt32_of_lt (by decide) (by decide)
  have hzero : toInt32 0 = 0 := toInt32_of_lt (by decide) (by decide)
  refine kept_of_fits 2 (Reaches.refl.foldl ?_)
  simp [replacedAfterRelease, setAlone, getAlone, releaseAlone, List.replicate, AllAllowed, Race.start, Race.step,
    Race.Fits, Race.New, Cache.Lacks, Cache.setReaders, Cache.setData, advance, setOut, Threads.turn, Stage.owned,
    hlacks, hstart, hone, hzero]

/-- Both cells are filled and have a reader each, and a writer comes. -/
def allPinned : List (Turn Nat Nat) :=
  setAlone 0 7 1 5 ++ getAlone 1 0 ++ setAlone 0 8 1 6 ++ getAlone 2 1 ++ setAlone 0 9 1 2

/-- **A full cache is not reported**: the writer goes past the last cell, and its call returns `knd_OK` and no
cell. -/
theorem not_kept_all_pinned : ¬ Sound (allPinned.foldl Race.step (Race.start Nat Nat 2)) := by
  intro h
  obtain ⟨e, he⟩ := h.refused 9 (.ok ()) none none (by decide +kernel)
  cases he
end CacheRace

end Knowdy
