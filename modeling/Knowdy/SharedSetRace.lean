import Knowdy.Lib.Runs
import Knowdy.Lib.Threads
import Knowdy.SharedSet

/-! # Insertions into one shared set

Any number of calls of `knd_shared_set_add` on one set that does not allow overwriting, interleaved between every
two accesses: each load of a slot, each exchange, each count. Folders are pages of their own and the pool has
pages.

* `FolderHeap`, `FolderHeap.getElem` — the folders and the lookup.
* `Stage`, `advance`, `SetEvent`, `SetRace.step` — where a call is, its accesses, and the calls of all threads.
* `Contract` — what callers are promised.
* `FolderHeap.walk` — the folder of a path; a folder has one path (`HeapInv.walk_inj`) and keeps it.
* `contract_of_valid` — the promise is kept. -/

namespace Knowdy

namespace SetRace

variable {α : Type}

/-! ## (1) The folders -/

/-- The folders of a set, by their addresses, and its counters. The root folder is at 0. -/
structure FolderHeap (α : Type) where
  /-- `elems` of a folder. -/
  elems : Nat → Digit → Option α := fun _ _ => none
  /-- `idxs` of a folder. -/
  idxs : Nat → Digit → Option Nat := fun _ _ => none
  /-- The next page of the memory pool. -/
  nextAddr : Nat := 1
  numElems : Nat := 0
  numValidElems : Nat := 0

namespace FolderHeap

/-- `knd_shared_set_elem_idx_new`: a zeroed page. -/
def elemIdxNew (self : FolderHeap α) : FolderHeap α :=
  { self with
    elems := Function.update self.elems self.nextAddr fun _ => none
    idxs := Function.update self.idxs self.nextAddr fun _ => none
    nextAddr := self.nextAddr + 1 }

/-- A slot of a folder is set to a subfolder. -/
def setIdx (self : FolderHeap α) (parent : Nat) (i : Digit) (idx : Nat) : FolderHeap α :=
  { self with idxs := Function.update self.idxs parent (Function.update (self.idxs parent) i (some idx)) }

/-- A slot of a folder is set to an element. -/
def setElem (self : FolderHeap α) (parent : Nat) (i : Digit) (elem : α) : FolderHeap α :=
  { self with elems := Function.update self.elems parent (Function.update (self.elems parent) i (some elem)) }

/-- `atomic_fetch_add` of `num_elems`. -/
def countElem (self : FolderHeap α) : FolderHeap α := { self with numElems := self.numElems + 1 }

/-- `atomic_fetch_add` of `num_valid_elems`. -/
def countValid (self : FolderHeap α) : FolderHeap α := { self with numValidElems := self.numValidElems + 1 }

/-- `get_elem`. -/
def getElem (self : FolderHeap α) : Nat → List UInt8 → Except KndErr α
  | _, [] => .error .format   -- `*id` is the terminating NUL
  | parent, [c] =>
      match objIdBase c with
      | none => .error .format
      | some i =>
          match self.elems parent i with
          | none => .error .noMatch
          | some elem => .ok elem
  | parent, c :: c' :: id =>
      match objIdBase c with
      | none => .error .format
      | some i =>
          match self.idxs parent i with
          | none => .error .noMatch
          | some idx => getElem self idx (c' :: id)

/-- `knd_shared_set_get`. -/
def kndSharedSetGet (self : FolderHeap α) (key : List UInt8) : Except KndErr α := self.getElem 0 key

end FolderHeap

/-! ## (2) The calls -/

/-- What happens in a run. -/
inductive Done (α : Type) where
  /-- A folder becomes the subfolder of another one. -/
  | published (parent : Nat) (i : Digit) (idx : Nat)
  /-- The element of a key is counted in `num_elems`. -/
  | counted (key : List UInt8)
  /-- `knd_shared_set_add` returns. -/
  | add (key : List UInt8) (elem : α) (rc : Except KndErr Unit)

/-- Where a call is; `id` is what is left of its key. -/
inductive Stage (α : Type) where
  | idle
  /-- `save_elem` at the folder `parent`, before a slot is loaded. -/
  | saving (key : List UInt8) (elem : α) (parent : Nat) (id : List UInt8)
  /-- The slot was empty and a new folder is there, before the exchange. -/
  | creating (key : List UInt8) (elem : α) (parent : Nat) (i : Digit) (id : List UInt8) (idx : Nat)
  /-- The slot of the element was empty, before the exchange. -/
  | assigning (key : List UInt8) (elem : α) (parent : Nat) (i : Digit) (id : List UInt8)
  /-- The element is there, before `num_elems` is counted up. -/
  | assigned (key : List UInt8) (elem : α)
  /-- Before `num_valid_elems` is counted up. -/
  | countedElem (key : List UInt8) (elem : α)

/-- An access that only moves the call on. -/
def goto (self : FolderHeap α) (stage : Stage α) : Outcome (FolderHeap α) (Stage α) (Done α) :=
  { shared := self, stage }

/-- The call returns. -/
def finish (self : FolderHeap α) (key : List UInt8) (elem : α) (rc : Except KndErr Unit) :
    Outcome (FolderHeap α) (Stage α) (Done α) where
  shared := self
  stage := .idle
  returned := [.add key elem rc]

/-- **One access of `save_elem`.** `spurious` is for `atomic_compare_exchange_weak`, which may fail for no reason. -/
def advance (self : FolderHeap α) (spurious : Bool) : Stage α → Outcome (FolderHeap α) (Stage α) (Done α)
  | .idle => goto self .idle
  | .saving key elem _ [] => finish self key elem (.error .fail)   -- excluded by `assert(key_size != 0)`
  | .saving key elem parent (c :: id) =>
      match objIdBase c with
      | none => finish self key elem (.error .format)
      | some i =>
          if id ≠ [] then
            match self.idxs parent i with
            | some idx => goto self (.saving key elem idx id)
            | none => goto self.elemIdxNew (.creating key elem parent i (c :: id) self.nextAddr)
          else
            match self.elems parent i with
            | some _ => finish self key elem (.error .conflict)
            | none => goto self (.assigning key elem parent i (c :: id))
  -- a folder that is not needed any more is lost
  | .creating key elem parent i id idx =>
      if spurious = false ∧ self.idxs parent i = none then
        { shared := self.setIdx parent i idx, stage := .saving key elem idx id.tail
          returned := [.published parent i idx] }
      else goto self (.saving key elem parent id)
  | .assigning key elem parent i id =>
      if spurious = false ∧ (self.elems parent i).isNone then
        goto (self.setElem parent i elem) (.assigned key elem)
      else goto self (.saving key elem parent id)
  | .assigned key elem => { shared := self.countElem, stage := .countedElem key elem, returned := [.counted key] }
  | .countedElem key elem => finish self.countValid key elem (.ok ())

/-! ## (3) Runs -/

variable {ι : Type} [DecidableEq ι]

/-- The set, the calls of the threads `ι`, and what has happened. -/
abbrev Race (ι α : Type) := Threads ι (FolderHeap α) (Stage α) (Done α)

/-- A call starts, or makes an access. -/
inductive SetEvent (ι α : Type) where
  | call (t : ι) (key : List UInt8) (elem : α)
  | access (t : ι) (spurious : Bool)

/-- One event. A thread that is in a call starts no other one. -/
def Race.step (s : Race ι α) : SetEvent ι α → Race ι α
  | .call t key elem =>
      match s.stage t with
      | .idle => s.turn t (goto s.shared (.saving key elem 0 key))
      | _ => s
  | .access t spurious => s.turn t (advance s.shared spurious (s.stage t))

/-- A key of base-62 digits. -/
def ValidKey (key : List UInt8) : Prop := ∃ ds, ds ≠ [] ∧ key = digitsKey ds

/-- **Keys are valid.** -/
def Race.Valid (_ : Race ι α) : SetEvent ι α → Prop
  | .call _ key _ => ValidKey key
  | .access _ _ => True

/-- A new set. -/
def Race.start : Race ι α := { shared := {}, stage := fun _ => .idle }

/-! ## (4) What callers are promised -/

/-- The results of the calls for a key. -/
def resultsOf (key : List UInt8) (log : List (Done α)) : List (Except KndErr Unit) :=
  log.filterMap fun
    | .add key' _ rc => if key' = key then some rc else none
    | _ => none

/-- Is a call successful? -/
def isOk : Except KndErr Unit → Bool
  | .ok _ => true
  | .error _ => false

/-- The keys of the calls that were successful. -/
def okKeys (log : List (Done α)) : List (List UInt8) :=
  log.filterMap fun
    | .add key _ (.ok _) => some key
    | _ => none

/-- **What callers are promised.** -/
structure Contract (s : Race ι α) : Prop where
  /-- A call is successful or refused; one call for a key at most is successful, and exactly one when no call is
  under way. -/
  once : ∀ key, (∀ rc ∈ resultsOf key s.log, rc = .error .conflict ∨ rc = .ok ()) ∧
    ((resultsOf key s.log).filter isOk).length ≤ 1 ∧
    ((∀ t, s.stage t = .idle) → resultsOf key s.log ≠ [] → ((resultsOf key s.log).filter isOk).length = 1)
  /-- The element of a successful call is found. -/
  found : ∀ key elem, .add key elem (.ok ()) ∈ s.log → s.shared.kndSharedSetGet key = .ok elem
  /-- When no call is under way other keys are not found. -/
  missing : (∀ t, s.stage t = .idle) → ∀ key, ValidKey key → (∀ elem, .add key elem (.ok ()) ∉ s.log) →
    s.shared.kndSharedSetGet key = .error .noMatch
  /-- A folder that was published stays where it is. -/
  kept : ∀ parent i idx, .published parent i idx ∈ s.log → s.shared.idxs parent i = some idx
  /-- When no call is under way the elements are counted. -/
  counted : (∀ t, s.stage t = .idle) →
    s.shared.numElems = (okKeys s.log).length ∧ s.shared.numValidElems = (okKeys s.log).length

/-! ## (5) What an access can do -/

/-- The accesses of a call. -/
inductive Access (heap : FolderHeap α) : Stage α → Outcome (FolderHeap α) (Stage α) (Done α) → Prop
  | rest : Access heap .idle (goto heap .idle)
  | empty (key : List UInt8) (elem : α) (parent : Nat) :
      Access heap (.saving key elem parent []) (finish heap key elem (.error .fail))
  | format (key : List UInt8) (elem : α) (parent : Nat) {c : UInt8} (id : List UInt8) (hc : objIdBase c = none) :
      Access heap (.saving key elem parent (c :: id)) (finish heap key elem (.error .format))
  | descend (key : List UInt8) (elem : α) {parent : Nat} {c : UInt8} {i : Digit} {id : List UInt8} {idx : Nat}
      (hc : objIdBase c = some i) (hid : id ≠ []) (hidx : heap.idxs parent i = some idx) :
      Access heap (.saving key elem parent (c :: id)) (goto heap (.saving key elem idx id))
  | create (key : List UInt8) (elem : α) (parent : Nat) {c : UInt8} {i : Digit} {id : List UInt8}
      (hc : objIdBase c = some i) (hid : id ≠ []) :
      Access heap (.saving key elem parent (c :: id))
        (goto heap.elemIdxNew (.creating key elem parent i (c :: id) heap.nextAddr))
  | taken (key : List UInt8) (elem : α) {parent : Nat} {c : UInt8} {i : Digit} {elem' : α}
      (hc : objIdBase c = some i) (helem : heap.elems parent i = some elem') :
      Access heap (.saving key elem parent [c]) (finish heap key elem (.error .conflict))
  | vacant (key : List UInt8) (elem : α) (parent : Nat) {c : UInt8} {i : Digit} (hc : objIdBase c = some i) :
      Access heap (.saving key elem parent [c]) (goto heap (.assigning key elem parent i [c]))
  | publish (key : List UInt8) (elem : α) {parent : Nat} {i : Digit} (id : List UInt8) (idx : Nat)
      (hidx : heap.idxs parent i = none) :
      Access heap (.creating key elem parent i id idx)
        { shared := heap.setIdx parent i idx, stage := .saving key elem idx id.tail
          returned := [.published parent i idx] }
  | retryIdx (key : List UInt8) (elem : α) (parent : Nat) (i : Digit) (id : List UInt8) (idx : Nat) :
      Access heap (.creating key elem parent i id idx) (goto heap (.saving key elem parent id))
  | assign (key : List UInt8) (elem : α) {parent : Nat} {i : Digit} (id : List UInt8)
      (helem : heap.elems parent i = none) :
      Access heap (.assigning key elem parent i id) (goto (heap.setElem parent i elem) (.assigned key elem))
  | retryElem (key : List UInt8) (elem : α) (parent : Nat) (i : Digit) (id : List UInt8) :
      Access heap (.assigning key elem parent i id) (goto heap (.saving key elem parent id))
  | countElem (key : List UInt8) (elem : α) :
      Access heap (.assigned key elem)
        { shared := heap.countElem, stage := .countedElem key elem, returned := [.counted key] }
  | countValid (key : List UInt8) (elem : α) :
      Access heap (.countedElem key elem) (finish heap.countValid key elem (.ok ()))

theorem access_advance (heap : FolderHeap α) (spurious : Bool) (stage : Stage α) :
    Access heap stage (advance heap spurious stage) := by
  cases stage with
  | idle => exact .rest
  | saving key elem parent id =>
      cases id with
      | nil => exact .empty key elem parent
      | cons c id =>
          cases hc : objIdBase c with
          | none => simpa only [advance, hc] using Access.format key elem parent id hc
          | some i =>
              by_cases hid : id = []
              · subst hid
                cases helem : heap.elems parent i with
                | none =>
                    simpa only [advance, hc, helem, ne_eq, not_true_eq_false, if_false] using
                      Access.vacant key elem parent hc
                | some elem' =>
                    simpa only [advance, hc, helem, ne_eq, not_true_eq_false, if_false] using
                      Access.taken key elem hc helem
              · cases hidx : heap.idxs parent i with
                | none => simpa only [advance, hc, hidx, if_pos hid] using Access.create key elem parent hc hid
                | some idx =>
                    simpa only [advance, hc, hidx, if_pos hid] using Access.descend key elem hc hid hidx
  | creating key elem parent i id idx =>
      by_cases hcas : spurious = false ∧ heap.idxs parent i = none
      · simpa only [advance, if_pos hcas] using Access.publish key elem id idx hcas.2
      · simpa only [advance, if_neg hcas] using Access.retryIdx key elem parent i id idx
  | assigning key elem parent i id =>
      by_cases hcas : spurious = false ∧ (heap.elems parent i).isNone
      · simpa only [advance, if_pos hcas] using Access.assign key elem id (Option.isNone_iff_eq_none.mp hcas.2)
      · simpa only [advance, if_neg hcas] using Access.retryElem key elem parent i id
  | assigned key elem => exact .countElem key elem
  | countedElem key elem => exact .countValid key elem

/-! ## (6) The paths of the folders -/

namespace FolderHeap

/-- The folder that is reached from `a` over the slots `ds`. -/
def walk (self : FolderHeap α) : Nat → List Digit → Option Nat
  | a, [] => some a
  | a, i :: ds => (self.idxs a i).bind fun b => walk self b ds

variable {heap heap' : FolderHeap α} {a b idx parent : Nat} {i : Digit} {ds : List Digit} {elem : α}

theorem walk_append (a : Nat) (ds es : List Digit) :
    heap.walk a (ds ++ es) = (heap.walk a ds).bind fun b => heap.walk b es := by
  induction ds generalizing a with
  | nil => rfl
  | cons i ds ih =>
      rw [List.cons_append, walk, walk]
      cases heap.idxs a i with
      | none => rfl
      | some b => exact ih b

/-- One slot more. -/
theorem walk_snoc (a : Nat) (ds : List Digit) (i : Digit) :
    heap.walk a (ds ++ [i]) = (heap.walk a ds).bind fun b => heap.idxs b i := by
  rw [walk_append]
  cases heap.walk a ds with
  | none => rfl
  | some b =>
      simp only [Option.bind_some, walk]
      cases heap.idxs b i <;> rfl

/-- The lookup of a key that is there. -/
theorem getElem_of_some (hwalk : heap.walk a ds = some b) (helem : heap.elems b i = some elem) :
    heap.getElem a (digitsKey (ds ++ [i])) = .ok elem := by
  induction ds generalizing a with
  | nil =>
      obtain rfl : a = b := by simpa [walk] using hwalk
      simp [digitsKey, getElem, helem]
  | cons j ds ih =>
      obtain ⟨c, hc, hrest⟩ := Option.bind_eq_some_iff.mp hwalk
      have hrec := ih hrest
      -- the rest of the key is not empty
      cases hkey : digitsKey (ds ++ [i]) with
      | nil => simp [digitsKey] at hkey
      | cons c' id =>
          rw [hkey] at hrec
          rw [List.cons_append, digitsKey_cons, hkey, getElem]
          simpa only [objIdBase_objIdSeq, hc] using hrec

/-- The lookup of a key that is not there. -/
theorem getElem_of_none (h : ∀ b, heap.walk a ds = some b → heap.elems b i = none) :
    heap.getElem a (digitsKey (ds ++ [i])) = .error .noMatch := by
  induction ds generalizing a with
  | nil => simp [digitsKey, getElem, h a rfl]
  | cons j ds ih =>
      cases hkey : digitsKey (ds ++ [i]) with
      | nil => simp [digitsKey] at hkey
      | cons c' id =>
          rw [List.cons_append, digitsKey_cons, hkey, getElem]
          cases hc : heap.idxs a j with
          | none => simp only [objIdBase_objIdSeq, hc]
          | some c =>
              have hrec := ih fun b hb => h b (by rw [walk, hc, Option.bind_some, hb])
              rw [hkey] at hrec
              simpa only [objIdBase_objIdSeq, hc] using hrec

/-- **Folders and elements stay** where they are. -/
structure Grows (heap heap' : FolderHeap α) : Prop where
  idxs : ∀ a i b, heap.idxs a i = some b → heap'.idxs a i = some b
  elems : ∀ a i elem, heap.elems a i = some elem → heap'.elems a i = some elem

theorem Grows.refl (heap : FolderHeap α) : Grows heap heap := ⟨fun _ _ _ h => h, fun _ _ _ h => h⟩

theorem Grows.walk (h : Grows heap heap') (hwalk : heap.walk a ds = some b) : heap'.walk a ds = some b := by
  induction ds generalizing a with
  | nil => exact hwalk
  | cons i ds ih =>
      obtain ⟨c, hc, hrest⟩ := Option.bind_eq_some_iff.mp hwalk
      rw [FolderHeap.walk, h.idxs a i c hc, Option.bind_some]
      exact ih hrest

/-- **The invariant of the folders.** -/
structure Inv (heap : FolderHeap α) : Prop where
  pos : 0 < heap.nextAddr
  /-- A subfolder is a page that was handed out, and not the root. -/
  bound : ∀ a i b, heap.idxs a i = some b → b < heap.nextAddr ∧ b ≠ 0
  /-- A subfolder is in one slot only. -/
  parent : ∀ a i a' i' b, heap.idxs a i = some b → heap.idxs a' i' = some b → a = a' ∧ i = i'
  /-- Pages that were not handed out hold nothing. -/
  fresh : ∀ a, heap.nextAddr ≤ a → (∀ i, heap.elems a i = none) ∧ ∀ i, heap.idxs a i = none

/-- A folder that nobody else has seen. -/
structure Private (heap : FolderHeap α) (idx : Nat) : Prop where
  ne_zero : idx ≠ 0
  lt : idx < heap.nextAddr
  unlinked : ∀ a i, heap.idxs a i ≠ some idx
  elems : ∀ i, heap.elems idx i = none
  idxs : ∀ i, heap.idxs idx i = none

namespace Inv

/-- A folder that is reached is the root or in a slot. -/
theorem walk_cases (h : heap.walk 0 ds = some a) :
    a = 0 ∨ ∃ b i, heap.idxs b i = some a := by
  induction ds using List.reverseRecOn with
  | nil => exact .inl (by simpa [walk] using h.symm)
  | append_singleton ds i _ =>
      rw [walk_snoc] at h
      obtain ⟨b, -, hb⟩ := Option.bind_eq_some_iff.mp h
      exact .inr ⟨b, i, hb⟩

theorem walk_lt (hinv : Inv heap) (h : heap.walk 0 ds = some a) : a < heap.nextAddr := by
  rcases walk_cases h with rfl | ⟨b, i, hb⟩
  · exact hinv.pos
  · exact (hinv.bound b i a hb).1

/-- A folder that nobody else has seen is not reached. -/
theorem ne_of_private (hprivate : Private heap idx) (h : heap.walk 0 ds = some a) : a ≠ idx := by
  rintro rfl
  rcases walk_cases h with rfl | ⟨b, i, hb⟩
  · exact hprivate.ne_zero rfl
  · exact hprivate.unlinked b i hb

/-- **A folder has one path.** -/
theorem walk_inj (hinv : Inv heap) {es : List Digit} (h : heap.walk 0 ds = some a)
    (h' : heap.walk 0 es = some a) : ds = es := by
  induction ds using List.reverseRecOn generalizing a es with
  | nil =>
      obtain rfl : 0 = a := by simpa [walk] using h
      induction es using List.reverseRecOn with
      | nil => rfl
      | append_singleton es i _ =>
          rw [walk_snoc] at h'
          obtain ⟨b, -, hb⟩ := Option.bind_eq_some_iff.mp h'
          exact absurd rfl (hinv.bound b i 0 hb).2
  | append_singleton ds i ih =>
      rw [walk_snoc] at h
      obtain ⟨b, hwalk, hb⟩ := Option.bind_eq_some_iff.mp h
      induction es using List.reverseRecOn with
      | nil =>
          obtain rfl : 0 = a := by simpa [walk] using h'
          exact absurd rfl (hinv.bound b i 0 hb).2
      | append_singleton es j _ =>
          rw [walk_snoc] at h'
          obtain ⟨b', hwalk', hb'⟩ := Option.bind_eq_some_iff.mp h'
          obtain ⟨rfl, rfl⟩ := hinv.parent b i b' j a hb hb'
          rw [ih hwalk hwalk']

/-- A new folder: the page held nothing before. -/
theorem elemIdxNew_eq (hinv : Inv heap) : heap.elemIdxNew = { heap with nextAddr := heap.nextAddr + 1 } := by
  obtain ⟨helems, hidxs⟩ := hinv.fresh heap.nextAddr (Nat.le_refl _)
  have h₁ : Function.update heap.elems heap.nextAddr (fun _ => none) = heap.elems := by
    rw [← Function.update_eq_self heap.nextAddr heap.elems]
    simp [funext helems]
  have h₂ : Function.update heap.idxs heap.nextAddr (fun _ => none) = heap.idxs := by
    rw [← Function.update_eq_self heap.nextAddr heap.idxs]
    simp [funext hidxs]
  rw [FolderHeap.elemIdxNew, h₁, h₂]

theorem elemIdxNew (hinv : Inv heap) : Inv heap.elemIdxNew ∧ Private heap.elemIdxNew heap.nextAddr := by
  obtain ⟨helems, hidxs⟩ := hinv.fresh heap.nextAddr (Nat.le_refl _)
  rw [hinv.elemIdxNew_eq]
  refine ⟨⟨Nat.succ_pos _, fun a i b hb => ?_, hinv.parent, fun a ha => hinv.fresh a (Nat.le_of_succ_le ha)⟩,
    ⟨Nat.ne_of_gt hinv.pos, Nat.lt_succ_self _, fun a i hb => ?_, helems, hidxs⟩⟩
  · exact ⟨Nat.lt_succ_of_lt (hinv.bound a i b hb).1, (hinv.bound a i b hb).2⟩
  · exact Nat.lt_irrefl _ (hinv.bound a i _ hb).1

end Inv

theorem idxs_setIdx (heap : FolderHeap α) (parent : Nat) (i : Digit) (idx a : Nat) (j : Digit) :
    (heap.setIdx parent i idx).idxs a j = if a = parent ∧ j = i then some idx else heap.idxs a j := by
  simp only [setIdx]
  by_cases ha : a = parent
  · subst ha
    rw [Function.update_self]
    by_cases hj : j = i
    · subst hj
      rw [Function.update_self, if_pos ⟨rfl, rfl⟩]
    · rw [Function.update_of_ne hj, if_neg fun h => hj h.2]
  · rw [Function.update_of_ne ha, if_neg fun h => ha h.1]

theorem elems_setElem (heap : FolderHeap α) (parent : Nat) (i : Digit) (elem : α) (a : Nat) (j : Digit) :
    (heap.setElem parent i elem).elems a j = if a = parent ∧ j = i then some elem else heap.elems a j := by
  simp only [setElem]
  by_cases ha : a = parent
  · subst ha
    rw [Function.update_self]
    by_cases hj : j = i
    · subst hj
      rw [Function.update_self, if_pos ⟨rfl, rfl⟩]
    · rw [Function.update_of_ne hj, if_neg fun h => hj h.2]
  · rw [Function.update_of_ne ha, if_neg fun h => ha h.1]

theorem grows_elemIdxNew (hinv : Inv heap) : Grows heap heap.elemIdxNew := by
  rw [hinv.elemIdxNew_eq]
  exact ⟨fun _ _ _ h => h, fun _ _ _ h => h⟩

theorem grows_setIdx (hidx : heap.idxs parent i = none) (idx : Nat) : Grows heap (heap.setIdx parent i idx) := by
  refine ⟨fun a j b hb => ?_, fun _ _ _ h => h⟩
  rw [idxs_setIdx, if_neg, hb]
  rintro ⟨rfl, rfl⟩
  rw [hidx] at hb
  cases hb

theorem grows_setElem (helem : heap.elems parent i = none) (elem : α) :
    Grows heap (heap.setElem parent i elem) := by
  refine ⟨fun _ _ _ h => h, fun a j elem' h => ?_⟩
  rw [elems_setElem, if_neg, h]
  rintro ⟨rfl, rfl⟩
  rw [helem] at h
  cases h

theorem grows_countElem (heap : FolderHeap α) : Grows heap heap.countElem :=
  ⟨fun _ _ _ h => h, fun _ _ _ h => h⟩

theorem grows_countValid (heap : FolderHeap α) : Grows heap heap.countValid :=
  ⟨fun _ _ _ h => h, fun _ _ _ h => h⟩

theorem Inv.countElem (hinv : Inv heap) : Inv heap.countElem :=
  ⟨hinv.pos, hinv.bound, hinv.parent, hinv.fresh⟩

theorem Inv.countValid (hinv : Inv heap) : Inv heap.countValid :=
  ⟨hinv.pos, hinv.bound, hinv.parent, hinv.fresh⟩

/-- **A folder is published.** -/
theorem Inv.setIdx (hinv : Inv heap) (hwalk : heap.walk 0 ds = some parent) (hprivate : Private heap idx) :
    Inv (heap.setIdx parent i idx) := by
  refine ⟨hinv.pos, fun a j b hb => ?_, fun a j a' j' b hb hb' => ?_, fun a ha => ⟨(hinv.fresh a ha).1, fun j => ?_⟩⟩
  · rw [idxs_setIdx] at hb
    split at hb
    · cases hb
      exact ⟨hprivate.lt, hprivate.ne_zero⟩
    · exact hinv.bound a j b hb
  · rw [idxs_setIdx] at hb hb'
    split at hb
    · rename_i h
      split at hb'
      · rename_i h'
        exact ⟨h.1.trans h'.1.symm, h.2.trans h'.2.symm⟩
      · cases hb
        exact absurd hb' (hprivate.unlinked a' j')
    · split at hb'
      · cases hb'
        exact absurd hb (hprivate.unlinked a j)
      · exact hinv.parent a j a' j' b hb hb'
  · rw [idxs_setIdx, if_neg]
    · exact (hinv.fresh a ha).2 j
    · rintro ⟨rfl, -⟩
      exact Nat.lt_irrefl _ (Nat.lt_of_lt_of_le (hinv.walk_lt hwalk) ha)

/-- **An element is stored.** -/
theorem Inv.setElem (hinv : Inv heap) (hwalk : heap.walk 0 ds = some parent) (elem : α) :
    Inv (heap.setElem parent i elem) := by
  refine ⟨hinv.pos, hinv.bound, hinv.parent, fun a ha => ⟨fun j => ?_, (hinv.fresh a ha).2⟩⟩
  rw [elems_setElem, if_neg]
  · exact (hinv.fresh a ha).1 j
  · rintro ⟨rfl, -⟩
    exact Nat.lt_irrefl _ (Nat.lt_of_lt_of_le (hinv.walk_lt hwalk) ha)

/-- Another folder is published. -/
theorem Private.setIdx {other : Nat} (h : Private heap other) (hwalk : heap.walk 0 ds = some parent)
    (hne : other ≠ idx) : Private (heap.setIdx parent i idx) other := by
  refine ⟨h.ne_zero, h.lt, fun a j hb => ?_, h.elems, fun j => ?_⟩
  · rw [idxs_setIdx] at hb
    split at hb
    · exact hne (Option.some.inj hb).symm
    · exact h.unlinked a j hb
  · rw [idxs_setIdx, if_neg fun hp => Inv.ne_of_private h hwalk hp.1.symm]
    exact h.idxs j

/-- An element is stored in a folder that is reached. -/
theorem Private.setElem (h : Private heap idx) (hwalk : heap.walk 0 ds = some parent) (elem : α) :
    Private (heap.setElem parent i elem) idx := by
  refine ⟨h.ne_zero, h.lt, h.unlinked, fun j => ?_, h.idxs⟩
  rw [elems_setElem, if_neg fun hp => Inv.ne_of_private h hwalk hp.1.symm]
  exact h.elems j

theorem Private.countElem (h : Private heap idx) : Private heap.countElem idx :=
  ⟨h.ne_zero, h.lt, h.unlinked, h.elems, h.idxs⟩

theorem Private.countValid (h : Private heap idx) : Private heap.countValid idx :=
  ⟨h.ne_zero, h.lt, h.unlinked, h.elems, h.idxs⟩

/-- Another folder is created. -/
theorem Private.elemIdxNew (h : Private heap idx) (hinv : Inv heap) : Private heap.elemIdxNew idx := by
  rw [hinv.elemIdxNew_eq]
  exact ⟨h.ne_zero, Nat.lt_succ_of_lt h.lt, h.unlinked, h.elems, h.idxs⟩

end FolderHeap

/-! ## (7) What is known of the calls -/

open FolderHeap (Inv Grows Private)

/-- **The element of a key is in its slot.** -/
def Stored (heap : FolderHeap α) (key : List UInt8) (elem : α) : Prop :=
  ∃ ds i a, key = digitsKey (ds ++ [i]) ∧ heap.walk 0 ds = some a ∧ heap.elems a i = some elem

theorem Stored.grows {heap heap' : FolderHeap α} {key : List UInt8} {elem : α} (h : Stored heap key elem)
    (hgrows : Grows heap heap') : Stored heap' key elem := by
  obtain ⟨ds, i, a, hkey, hwalk, helem⟩ := h
  exact ⟨ds, i, a, hkey, hgrows.walk hwalk, hgrows.elems a i elem helem⟩

/-- The call at the folder `parent`, with the digits `rest` of its key left. -/
def Heading (heap : FolderHeap α) (key : List UInt8) (parent : Nat) (rest : List Digit) : Prop :=
  ∃ ds, key = digitsKey (ds ++ rest) ∧ heap.walk 0 ds = some parent

theorem Heading.grows {heap heap' : FolderHeap α} {key : List UInt8} {parent : Nat} {rest : List Digit}
    (h : Heading heap key parent rest) (hgrows : Grows heap heap') : Heading heap' key parent rest := by
  obtain ⟨ds, hkey, hwalk⟩ := h
  exact ⟨ds, hkey, hgrows.walk hwalk⟩

/-- **What is known of a call** at its stage. -/
def CallHolds (heap : FolderHeap α) (log : List (Done α)) : Stage α → Prop
  | .idle => True
  | .saving key _ parent id => ∃ rest, rest ≠ [] ∧ id = digitsKey rest ∧ Heading heap key parent rest
  | .creating key _ parent i id idx =>
      (∃ rest, rest ≠ [] ∧ id = digitsKey (i :: rest) ∧ Heading heap key parent (i :: rest)) ∧ Private heap idx
  | .assigning key _ parent i id => id = digitsKey [i] ∧ Heading heap key parent [i]
  | .assigned key elem =>
      Stored heap key elem ∧ .counted key ∉ log ∧ ∀ elem', .add key elem' (.ok ()) ∉ log
  | .countedElem key elem =>
      Stored heap key elem ∧ .counted key ∈ log ∧ ∀ elem', .add key elem' (.ok ()) ∉ log

/-- The folder that a call has created. -/
def Stage.created : Stage α → Option Nat
  | .creating _ _ _ _ _ idx => some idx
  | _ => none

/-- The key whose element a call has stored. -/
def Stage.won : Stage α → Option (List UInt8)
  | .assigned key _ | .countedElem key _ => some key
  | _ => none

/-- Two calls have not created the same folder or stored an element of the same key. -/
structure Separate (a b : Stage α) : Prop where
  created : ∀ idx, a.created = some idx → b.created ≠ some idx
  won : ∀ key, a.won = some key → b.won ≠ some key

theorem Separate.symm {a b : Stage α} (h : Separate a b) : Separate b a :=
  ⟨fun idx hb ha => h.created idx ha hb, fun key hb ha => h.won key ha hb⟩

/-- A call that does no more than before. -/
theorem Separate.of_less {a a' b : Stage α} (h : Separate a b)
    (hcreated : a'.created = none ∨ a'.created = a.created) (hwon : a'.won = none ∨ a'.won = a.won) :
    Separate a' b := by
  refine ⟨fun idx hidx => ?_, fun key hkey => ?_⟩
  · rcases hcreated with hc | hc
    · simp [hc] at hidx
    · exact h.created idx (hc ▸ hidx)
  · rcases hwon with hw | hw
    · simp [hw] at hkey
    · exact h.won key (hw ▸ hkey)

/-- The events of other keys. -/
def Unrelated (key : List UInt8) (new : List (Done α)) : Prop :=
  .counted key ∉ new ∧ ∀ elem, .add key elem (.ok ()) ∉ new

/-- **What is known of a call stays true** when another call makes an access. -/
theorem CallHolds.grows {heap heap' : FolderHeap α} {log new : List (Done α)} {stage : Stage α}
    (h : CallHolds heap log stage) (hgrows : Grows heap heap')
    (hprivate : ∀ idx, stage.created = some idx → Private heap idx → Private heap' idx)
    (hnew : ∀ key, stage.won = some key → Unrelated key new) : CallHolds heap' (new ++ log) stage := by
  cases stage with
  | idle => trivial
  | saving key elem parent id =>
      obtain ⟨rest, hne, hid, hheading⟩ := h
      exact ⟨rest, hne, hid, hheading.grows hgrows⟩
  | creating key elem parent i id idx =>
      obtain ⟨⟨rest, hne, hid, hheading⟩, hpriv⟩ := h
      exact ⟨⟨rest, hne, hid, hheading.grows hgrows⟩, hprivate idx rfl hpriv⟩
  | assigning key elem parent i id => exact ⟨h.1, h.2.grows hgrows⟩
  | assigned key elem =>
      obtain ⟨hcounted, hadd⟩ := hnew key rfl
      refine ⟨h.1.grows hgrows, fun hmem => ?_, fun elem' hmem => ?_⟩
      · exact (List.mem_append.mp hmem).elim hcounted h.2.1
      · exact (List.mem_append.mp hmem).elim (hadd elem') (h.2.2 elem')
  | countedElem key elem =>
      obtain ⟨-, hadd⟩ := hnew key rfl
      refine ⟨h.1.grows hgrows, List.mem_append_right _ h.2.1, fun elem' hmem => ?_⟩
      exact (List.mem_append.mp hmem).elim (hadd elem') (h.2.2 elem')

/-! ## (8) What is known of what has happened -/

/-- The keys whose elements are counted in `num_elems`. -/
def countedKeys (log : List (Done α)) : List (List UInt8) :=
  log.filterMap fun
    | .counted key => some key
    | _ => none

theorem mem_countedKeys {key : List UInt8} {log : List (Done α)} :
    key ∈ countedKeys log ↔ .counted key ∈ log := by
  rw [countedKeys, List.mem_filterMap]
  constructor
  · rintro ⟨done, hmem, heq⟩
    cases done with
    | counted key' =>
        obtain rfl : key' = key := by simpa using heq
        exact hmem
    | published => cases heq
    | add => cases heq
  · exact fun hmem => ⟨_, hmem, rfl⟩

theorem mem_okKeys {key : List UInt8} {log : List (Done α)} :
    key ∈ okKeys log ↔ ∃ elem, .add key elem (.ok ()) ∈ log := by
  rw [okKeys, List.mem_filterMap]
  constructor
  · rintro ⟨done, hmem, heq⟩
    cases done with
    | add key' elem rc =>
        cases rc with
        | error => cases heq
        | ok =>
            obtain rfl : key' = key := by simpa using heq
            exact ⟨elem, hmem⟩
    | published => cases heq
    | counted => cases heq
  · rintro ⟨elem, hmem⟩
    exact ⟨_, hmem, rfl⟩

/-- **The invariant of what has happened.** -/
structure LogInv (heap : FolderHeap α) (log : List (Done α)) : Prop where
  ok : ∀ key elem, .add key elem (.ok ()) ∈ log → Stored heap key elem ∧ .counted key ∈ log
  /-- A call is refused for an element of its key. -/
  refused : ∀ key elem e, .add key elem (.error e) ∈ log → e = .conflict ∧ ∃ elem', Stored heap key elem'
  counted : ∀ key, .counted key ∈ log → ∃ elem, Stored heap key elem
  nodup_ok : (okKeys log).Nodup
  nodup_counted : (countedKeys log).Nodup
  numElems : heap.numElems = (countedKeys log).length
  numValidElems : heap.numValidElems = (okKeys log).length
  published : ∀ parent i idx, .published parent i idx ∈ log → heap.idxs parent i = some idx

namespace LogInv

variable {heap heap' : FolderHeap α} {log : List (Done α)} {key : List UInt8} {elem : α}

/-- The folders change. -/
theorem grows (h : LogInv heap log) (hgrows : Grows heap heap') (helems : heap'.numElems = heap.numElems)
    (hvalid : heap'.numValidElems = heap.numValidElems) : LogInv heap' log := by
  refine ⟨fun key elem hmem => ?_, fun key elem e hmem => ?_, fun key hmem => ?_, h.nodup_ok, h.nodup_counted,
    helems.trans h.numElems, hvalid.trans h.numValidElems, fun parent i idx hmem => ?_⟩
  · exact (h.ok key elem hmem).imp_left fun hs => hs.grows hgrows
  · exact (h.refused key elem e hmem).imp_right fun ⟨elem', hs⟩ => ⟨elem', hs.grows hgrows⟩
  · obtain ⟨elem, hs⟩ := h.counted key hmem
    exact ⟨elem, hs.grows hgrows⟩
  · exact hgrows.idxs parent i idx (h.published parent i idx hmem)

/-- A call is refused. -/
theorem refuse (h : LogInv heap log) (hstored : ∃ elem', Stored heap key elem') :
    LogInv heap (.add key elem (.error .conflict) :: log) := by
  refine ⟨fun key' elem' hmem => ?_, fun key' elem' e hmem => ?_, fun key' hmem => ?_, h.nodup_ok,
    h.nodup_counted, h.numElems, h.numValidElems, fun parent i idx hmem => ?_⟩
  · have hmem' := (List.mem_cons.mp hmem).resolve_left (by simp)
    exact (h.ok key' elem' hmem').imp_right (List.mem_cons_of_mem _)
  · rcases List.mem_cons.mp hmem with heq | hmem
    · cases heq
      exact ⟨rfl, hstored⟩
    · exact h.refused key' elem' e hmem
  · exact h.counted key' ((List.mem_cons.mp hmem).resolve_left (by simp))
  · exact h.published parent i idx ((List.mem_cons.mp hmem).resolve_left (by simp))

/-- A folder was published. -/
theorem publish (h : LogInv heap log) {parent : Nat} {i : Digit} {idx : Nat}
    (hidx : heap.idxs parent i = some idx) : LogInv heap (.published parent i idx :: log) := by
  refine ⟨fun key' elem' hmem => ?_, fun key' elem' e hmem => ?_, fun key' hmem => ?_, h.nodup_ok,
    h.nodup_counted, h.numElems, h.numValidElems, fun parent' j idx' hmem => ?_⟩
  · have hmem' := (List.mem_cons.mp hmem).resolve_left (by simp)
    exact (h.ok key' elem' hmem').imp_right (List.mem_cons_of_mem _)
  · exact h.refused key' elem' e ((List.mem_cons.mp hmem).resolve_left (by simp))
  · exact h.counted key' ((List.mem_cons.mp hmem).resolve_left (by simp))
  · rcases List.mem_cons.mp hmem with heq | hmem
    · cases heq
      exact hidx
    · exact h.published parent' j idx' hmem

/-- **An element is counted** in `num_elems`. -/
theorem countElem (h : LogInv heap log) (hstored : Stored heap key elem) (hnew : .counted key ∉ log) :
    LogInv heap.countElem (.counted key :: log) := by
  have hgrows := FolderHeap.grows_countElem heap
  refine ⟨fun key' elem' hmem => ?_, fun key' elem' e hmem => ?_, fun key' hmem => ?_, h.nodup_ok,
    List.nodup_cons.mpr ⟨fun hmem => hnew (mem_countedKeys.mp hmem), h.nodup_counted⟩,
    congrArg (· + 1) h.numElems, h.numValidElems, fun parent i idx hmem => ?_⟩
  · have hmem' := (List.mem_cons.mp hmem).resolve_left (by simp)
    exact (h.ok key' elem' hmem').imp (fun hs => hs.grows hgrows) (List.mem_cons_of_mem _)
  · have hmem' := (List.mem_cons.mp hmem).resolve_left (by simp)
    exact (h.refused key' elem' e hmem').imp_right fun ⟨elem', hs⟩ => ⟨elem', hs.grows hgrows⟩
  · rcases List.mem_cons.mp hmem with heq | hmem
    · cases heq
      exact ⟨elem, hstored.grows hgrows⟩
    · obtain ⟨elem', hs⟩ := h.counted key' hmem
      exact ⟨elem', hs.grows hgrows⟩
  · exact h.published parent i idx ((List.mem_cons.mp hmem).resolve_left (by simp))

/-- **A successful call returns.** -/
theorem countValid (h : LogInv heap log) (hstored : Stored heap key elem) (hcounted : .counted key ∈ log)
    (hnew : ∀ elem', .add key elem' (.ok ()) ∉ log) :
    LogInv heap.countValid (.add key elem (.ok ()) :: log) := by
  have hgrows := FolderHeap.grows_countValid heap
  have hkey : key ∉ okKeys log := by
    intro hmem
    obtain ⟨elem', hmem⟩ := mem_okKeys.mp hmem
    exact hnew elem' hmem
  refine ⟨fun key' elem' hmem => ?_, fun key' elem' e hmem => ?_, fun key' hmem => ?_,
    List.nodup_cons.mpr ⟨hkey, h.nodup_ok⟩, h.nodup_counted, h.numElems, congrArg (· + 1) h.numValidElems,
    fun parent i idx hmem => ?_⟩
  · rcases List.mem_cons.mp hmem with heq | hmem
    · cases heq
      exact ⟨hstored.grows hgrows, List.mem_cons_of_mem _ hcounted⟩
    · exact (h.ok key' elem' hmem).imp (fun hs => hs.grows hgrows) (List.mem_cons_of_mem _)
  · have hmem' := (List.mem_cons.mp hmem).resolve_left (by simp)
    exact (h.refused key' elem' e hmem').imp_right fun ⟨elem', hs⟩ => ⟨elem', hs.grows hgrows⟩
  · obtain ⟨elem', hs⟩ := h.counted key' ((List.mem_cons.mp hmem).resolve_left (by simp))
    exact ⟨elem', hs.grows hgrows⟩
  · exact h.published parent i idx ((List.mem_cons.mp hmem).resolve_left (by simp))

end LogInv

/-! ## (9) The events keep what is known -/

/-- What is known of the folders and of the calls. -/
abbrev Race.Sure (s : Race ι α) : Prop :=
  s.Holds (fun heap log => Inv heap ∧ LogInv heap log) CallHolds Separate

/-- **No element is forgotten**: it is in a folder that is reached, and its call has returned or will. -/
structure Race.Covered (s : Race ι α) : Prop where
  elems : ∀ a i elem, s.shared.elems a i = some elem → ∃ ds, s.shared.walk 0 ds = some a ∧
    (.add (digitsKey (ds ++ [i])) elem (.ok ()) ∈ s.log ∨
      ∃ t, s.stage t = .assigned (digitsKey (ds ++ [i])) elem ∨
        s.stage t = .countedElem (digitsKey (ds ++ [i])) elem)
  counted : ∀ key, .counted key ∈ s.log →
    (∃ elem, .add key elem (.ok ()) ∈ s.log) ∨ ∃ t elem, s.stage t = .countedElem key elem

/-- A character of a key that is left is its digit. -/
theorem eq_cons_of_digitsKey {c : UInt8} {id : List UInt8} {rest : List Digit} (h : c :: id = digitsKey rest) :
    ∃ i rest', rest = i :: rest' ∧ objIdBase c = some i ∧ id = digitsKey rest' := by
  cases rest with
  | nil => cases h
  | cons i rest' =>
      obtain ⟨rfl, rfl⟩ := List.cons_eq_cons.mp h
      exact ⟨i, rest', rfl, objIdBase_objIdSeq i, rfl⟩

section Position

variable {heap : FolderHeap α} {log : List (Done α)} {key id : List UInt8} {elem : α} {parent idx : Nat} {c : UInt8}
  {i : Digit} {rest : List Digit}

/-- A call is at the slot of the next digit. -/
theorem CallHolds.digit (h : CallHolds heap log (.saving key elem parent (c :: id))) (hc : objIdBase c = some i) :
    ∃ rest, id = digitsKey rest ∧ c :: id = digitsKey (i :: rest) ∧ Heading heap key parent (i :: rest) := by
  obtain ⟨rest, -, hdigits, hheading⟩ := h
  obtain ⟨j, rest, rfl, hj, hid⟩ := eq_cons_of_digitsKey hdigits
  obtain rfl : i = j := Option.some.inj (hc.symm.trans hj)
  exact ⟨rest, hid, hdigits, hheading⟩

/-- A call is at the slot of the last digit. -/
theorem CallHolds.lastDigit (h : CallHolds heap log (.saving key elem parent [c])) (hc : objIdBase c = some i) :
    [c] = digitsKey [i] ∧ Heading heap key parent [i] := by
  obtain ⟨rest, hid, hdigits, hheading⟩ := h.digit hc
  cases rest with
  | nil => exact ⟨hdigits, hheading⟩
  | cons => cases hid

/-- The folder of a call is reached. -/
theorem Heading.walk (h : Heading heap key parent rest) : ∃ ds, heap.walk 0 ds = some parent := by
  obtain ⟨ds, -, hwalk⟩ := h
  exact ⟨ds, hwalk⟩

/-- One folder further. -/
theorem Heading.next (h : Heading heap key parent (i :: rest)) (hidx : heap.idxs parent i = some idx) :
    Heading heap key idx rest := by
  obtain ⟨ds, hkey, hwalk⟩ := h
  refine ⟨ds ++ [i], ?_, ?_⟩
  · rw [hkey, List.append_assoc]
    rfl
  · rw [FolderHeap.walk_snoc, hwalk]
    exact hidx

/-- The slot of the last digit is that of the key. -/
theorem Heading.stored (h : Heading heap key parent [i]) (helem : heap.elems parent i = some elem) :
    Stored heap key elem := by
  obtain ⟨ds, hkey, hwalk⟩ := h
  exact ⟨ds, i, parent, hkey, hwalk, helem⟩

theorem Heading.not_stored (h : Heading heap key parent [i]) (helem : heap.elems parent i = none) (elem' : α) :
    ¬Stored heap key elem' := by
  obtain ⟨ds, rfl, hwalk⟩ := h
  rintro ⟨es, j, a, hkey, hwalk', helem'⟩
  obtain ⟨rfl, hij⟩ := List.append_inj' (digitsKey_inj.mp hkey) rfl
  cases hij
  rw [hwalk] at hwalk'
  cases hwalk'
  rw [helem] at helem'
  cases helem'

/-- A call that has stored the element of a key. -/
theorem CallHolds.stored {stage : Stage α} (h : CallHolds heap log stage) (hwon : stage.won = some key) :
    ∃ elem, Stored heap key elem := by
  cases stage with
  | assigned key' elem =>
      obtain rfl : key' = key := Option.some.inj hwon
      exact ⟨elem, h.1⟩
  | countedElem key' elem =>
      obtain rfl : key' = key := Option.some.inj hwon
      exact ⟨elem, h.1⟩
  | _ => cases hwon

/-- The folder that a call has created is private to it. -/
theorem CallHolds.private {stage : Stage α} (h : CallHolds heap log stage) (hcreated : stage.created = some idx) :
    Private heap idx := by
  cases stage with
  | creating key' elem' parent' i' id' idx' =>
      obtain rfl : idx' = idx := Option.some.inj hcreated
      exact h.2
  | _ => cases hcreated

end Position

section Events

variable {s : Race ι α} {t : ι} {key id : List UInt8} {elem : α} {parent idx : Nat} {i : Digit}

/-- **An access that only moves the call on.** -/
theorem Race.Sure.moved (h : s.Sure) {stage stage' : Stage α} (hstage : s.stage t = stage)
    (hcall : CallHolds s.shared s.log stage') (hcreated : stage'.created = none ∨ stage'.created = stage.created)
    (hwon : stage'.won = none ∨ stage'.won = stage.won) : Race.Sure (s.turn t (goto s.shared stage')) := by
  subst hstage
  exact Threads.Holds.turn h (fun _ _ => Separate.symm) h.shared hcall
    fun u _ hu hapart => ⟨hu, hapart.of_less hcreated hwon⟩

/-- **A folder is created.** -/
theorem Race.Sure.create (h : s.Sure) {c : UInt8} (hstage : s.stage t = .saving key elem parent (c :: id))
    (hc : objIdBase c = some i) (hid : id ≠ []) :
    Race.Sure (s.turn t (goto s.shared.elemIdxNew
      (.creating key elem parent i (c :: id) s.shared.nextAddr))) := by
  obtain ⟨hinv, hlog⟩ := h.shared
  have hcall : CallHolds s.shared s.log (.saving key elem parent (c :: id)) := hstage ▸ h.each t
  obtain ⟨rest, rfl, hdigits, hheading⟩ := hcall.digit hc
  have hgrows := FolderHeap.grows_elemIdxNew hinv
  obtain ⟨hinv', hprivate⟩ := hinv.elemIdxNew
  refine Threads.Holds.turn h (fun _ _ => Separate.symm) ⟨hinv', hlog.grows hgrows rfl rfl⟩ ?_
    fun u _ hu hapart => ?_
  · refine ⟨⟨rest, ?_, hdigits, hheading.grows hgrows⟩, hprivate⟩
    rintro rfl
    exact hid rfl
  · refine ⟨hu.grows hgrows (fun idx _ hp => hp.elemIdxNew hinv) fun _ _ =>
      ⟨List.not_mem_nil, fun _ => List.not_mem_nil⟩, fun idx hidx hother => ?_,
      fun key' hkey => by simp [goto, Stage.won] at hkey⟩
    -- the page was handed out to this call only
    obtain rfl : s.shared.nextAddr = idx := by simpa [goto, Stage.created] using hidx
    exact Nat.lt_irrefl _ (hu.private hother).lt

/-- **A folder is published.** -/
theorem Race.Sure.publish (h : s.Sure) (hstage : s.stage t = .creating key elem parent i id idx)
    (hidx : s.shared.idxs parent i = none) :
    Race.Sure (s.turn t
      { shared := s.shared.setIdx parent i idx, stage := .saving key elem idx id.tail
        returned := [.published parent i idx] }) := by
  obtain ⟨hinv, hlog⟩ := h.shared
  obtain ⟨⟨rest, hne, rfl, hheading⟩, hprivate⟩ := hstage ▸ h.each t
  obtain ⟨ds, hwalk⟩ := hheading.walk
  have hgrows := FolderHeap.grows_setIdx hidx idx
  have hslot : (s.shared.setIdx parent i idx).idxs parent i = some idx := by
    rw [FolderHeap.idxs_setIdx, if_pos ⟨rfl, rfl⟩]
  refine Threads.Holds.turn h (fun _ _ => Separate.symm)
    ⟨hinv.setIdx hwalk hprivate, (hlog.grows hgrows rfl rfl).publish hslot⟩
    ⟨rest, hne, rfl, (hheading.grows hgrows).next hslot⟩ fun u _ hu hapart => ?_
  rw [hstage] at hapart
  refine ⟨hu.grows hgrows (fun other hother hp => hp.setIdx hwalk ?_) fun _ _ => ⟨by simp, by simp⟩,
    hapart.of_less (.inl rfl) (.inl rfl)⟩
  rintro rfl
  exact hapart.created other rfl hother

/-- **An element is stored.** -/
theorem Race.Sure.assign (h : s.Sure) (hstage : s.stage t = .assigning key elem parent i id)
    (helem : s.shared.elems parent i = none) :
    Race.Sure (s.turn t (goto (s.shared.setElem parent i elem) (.assigned key elem))) := by
  obtain ⟨hinv, hlog⟩ := h.shared
  obtain ⟨-, hheading⟩ := hstage ▸ h.each t
  obtain ⟨ds, hwalk⟩ := hheading.walk
  have hgrows := FolderHeap.grows_setElem helem elem
  -- the slot was empty: no call for this key has stored an element
  have hfree := hheading.not_stored helem
  have hslot : (s.shared.setElem parent i elem).elems parent i = some elem := by
    rw [FolderHeap.elems_setElem, if_pos ⟨rfl, rfl⟩]
  refine Threads.Holds.turn h (fun _ _ => Separate.symm)
    ⟨hinv.setElem hwalk elem, hlog.grows hgrows rfl rfl⟩ ?_ fun u _ hu hapart => ?_
  · refine ⟨(hheading.grows hgrows).stored hslot, fun hmem => ?_, fun elem' hmem => hfree elem' (hlog.ok _ elem' hmem).1⟩
    obtain ⟨elem', hs⟩ := hlog.counted _ hmem
    exact hfree elem' hs
  · refine ⟨hu.grows hgrows (fun _ _ hp => hp.setElem hwalk elem) fun _ _ =>
      ⟨List.not_mem_nil, fun _ => List.not_mem_nil⟩,
      fun idx hidx => by simp [goto, Stage.created] at hidx, fun key' hkey hother => ?_⟩
    obtain rfl : key = key' := by simpa [goto, Stage.won] using hkey
    obtain ⟨elem', hs⟩ := hu.stored hother
    exact hfree elem' hs

/-- **An element is counted** in `num_elems`. -/
theorem Race.Sure.countElem (h : s.Sure) (hstage : s.stage t = .assigned key elem) :
    Race.Sure (s.turn t
      { shared := s.shared.countElem, stage := .countedElem key elem, returned := [.counted key] }) := by
  obtain ⟨hinv, hlog⟩ := h.shared
  obtain ⟨hstored, hnew, hadd⟩ := hstage ▸ h.each t
  have hgrows := FolderHeap.grows_countElem s.shared
  refine Threads.Holds.turn h (fun _ _ => Separate.symm) ⟨hinv.countElem, hlog.countElem hstored hnew⟩
    ⟨hstored.grows hgrows, List.mem_cons_self .., fun elem' hmem => ?_⟩ fun u _ hu hapart => ?_
  · exact hadd elem' ((List.mem_cons.mp hmem).resolve_left (by simp))
  · rw [hstage] at hapart
    refine ⟨hu.grows hgrows (fun _ _ hp => hp.countElem) fun key' hkey' => ⟨fun hmem => ?_, by simp⟩,
      hapart.of_less (.inl rfl) (.inr rfl)⟩
    have heq := List.mem_singleton.mp hmem
    cases heq
    exact hapart.won key rfl hkey'

/-- **A successful call returns.** -/
theorem Race.Sure.countValid (h : s.Sure) (hstage : s.stage t = .countedElem key elem) :
    Race.Sure (s.turn t (finish s.shared.countValid key elem (.ok ()))) := by
  obtain ⟨hinv, hlog⟩ := h.shared
  obtain ⟨hstored, hcounted, hadd⟩ := hstage ▸ h.each t
  refine Threads.Holds.turn h (fun _ _ => Separate.symm)
    ⟨hinv.countValid, hlog.countValid hstored hcounted hadd⟩ trivial fun u _ hu hapart => ?_
  rw [hstage] at hapart
  refine ⟨hu.grows (FolderHeap.grows_countValid _) (fun _ _ hp => hp.countValid) fun key' hkey' =>
    ⟨by simp [finish], fun elem' hmem => ?_⟩, hapart.of_less (.inl rfl) (.inl rfl)⟩
  have heq := List.mem_singleton.mp hmem
  cases heq
  exact hapart.won key rfl hkey'

/-- **A call is refused**, since its key has an element. -/
theorem Race.Sure.refuse (h : s.Sure) {elem' : α} (hstored : Stored s.shared key elem') :
    Race.Sure (s.turn t (finish s.shared key elem (.error .conflict))) := by
  obtain ⟨hinv, hlog⟩ := h.shared
  refine Threads.Holds.turn h (fun _ _ => Separate.symm) ⟨hinv, hlog.refuse ⟨elem', hstored⟩⟩ trivial
    fun u _ hu hapart => ⟨?_, hapart.of_less (.inl rfl) (.inl rfl)⟩
  exact hu.grows (Grows.refl _) (fun _ _ hp => hp) fun _ _ => ⟨by simp [finish], by simp [finish]⟩

/-- **An access keeps what is known.** -/
theorem Race.Sure.access (h : s.Sure) {stage : Stage α} (hstage : s.stage t = stage)
    {o : Outcome (FolderHeap α) (Stage α) (Done α)} (ho : Access s.shared stage o) : Race.Sure (s.turn t o) := by
  have hcall : CallHolds s.shared s.log stage := hstage ▸ h.each t
  cases ho with
  | rest => exact h.moved hstage trivial (.inl rfl) (.inl rfl)
  | empty key elem parent =>
      -- a key that is left has a digit
      obtain ⟨rest, hne, hid, -⟩ := hcall
      cases rest with
      | nil => exact absurd rfl hne
      | cons i rest => cases hid
  | format key elem parent id hc =>
      obtain ⟨rest, -, hid, -⟩ := hcall
      obtain ⟨i, -, -, hi, -⟩ := eq_cons_of_digitsKey hid
      rw [hc] at hi
      cases hi
  | @descend key elem parent c i id idx hc hid hidx =>
      obtain ⟨rest, rfl, -, hheading⟩ := hcall.digit hc
      refine h.moved hstage ⟨rest, ?_, rfl, hheading.next hidx⟩ (.inl rfl) (.inl rfl)
      rintro rfl
      exact hid rfl
  | create key elem parent hc hid => exact h.create hstage hc hid
  | taken key elem hc helem => exact h.refuse ((hcall.lastDigit hc).2.stored helem)
  | vacant key elem parent hc => exact h.moved hstage (hcall.lastDigit hc) (.inl rfl) (.inl rfl)
  | publish key elem id idx hidx => exact h.publish hstage hidx
  | retryIdx key elem parent i id idx =>
      obtain ⟨⟨rest, hne, hid, hheading⟩, -⟩ := hcall
      exact h.moved hstage ⟨i :: rest, by simp, hid, hheading⟩ (.inl rfl) (.inl rfl)
  | assign key elem id helem => exact h.assign hstage helem
  | retryElem key elem parent i id =>
      exact h.moved hstage ⟨[i], by simp, hcall.1, hcall.2⟩ (.inl rfl) (.inl rfl)
  | countElem key elem => exact h.countElem hstage
  | countValid key elem => exact h.countValid hstage

/-- **A call starts.** -/
theorem Race.Sure.call (h : s.Sure) (hidle : s.stage t = .idle) {key : List UInt8} {elem : α}
    (hvalid : ValidKey key) : Race.Sure (s.turn t (goto s.shared (.saving key elem 0 key))) := by
  obtain ⟨ds, hne, rfl⟩ := hvalid
  refine Threads.Holds.turn h (fun _ _ => Separate.symm) h.shared ⟨ds, hne, rfl, [], rfl, rfl⟩
    fun u _ hu hapart => ⟨hu, ?_⟩
  rw [hidle] at hapart
  exact hapart.of_less (.inl rfl) (.inl rfl)

/-- What another thread has stored it still has. -/
theorem stage_of_turn {stage : Stage α} (hstage : s.stage t = stage) {o : Outcome (FolderHeap α) (Stage α) (Done α)}
    {u : ι} {stage' : Stage α} (hne : stage' ≠ stage) (hu : s.stage u = stage') :
    (s.turn t o).stage u = stage' := by
  rw [Threads.stage_turn_of_ne, hu]
  rintro rfl
  exact hne (hu.symm.trans hstage)

/-- **An access forgets nothing** while the elements and counts stay and no call gives up its place. -/
theorem Race.Covered.keep (h : s.Covered) {stage : Stage α} (hstage : s.stage t = stage)
    {o : Outcome (FolderHeap α) (Stage α) (Done α)} (hgrows : Grows s.shared o.shared)
    (helems : ∀ a i elem, o.shared.elems a i = some elem → s.shared.elems a i = some elem)
    (hcounted : ∀ key, .counted key ∉ o.returned) (hwon : stage.won = none) : Race.Covered (s.turn t o) := by
  have hne : ∀ stage' : Stage α, stage'.won ≠ none → stage' ≠ stage := by
    rintro stage' hw rfl
    exact hw hwon
  refine ⟨fun a i elem helem => ?_, fun key hmem => ?_⟩
  · obtain ⟨ds, hwalk, hret⟩ := h.elems a i elem (helems a i elem helem)
    refine ⟨ds, hgrows.walk hwalk, hret.imp (List.mem_append_right _) ?_⟩
    rintro ⟨u, hu | hu⟩
    · exact ⟨u, .inl (stage_of_turn hstage (hne _ (by simp [Stage.won])) hu)⟩
    · exact ⟨u, .inr (stage_of_turn hstage (hne _ (by simp [Stage.won])) hu)⟩
  · refine (h.counted key ((List.mem_append.mp hmem).resolve_left (hcounted key))).imp ?_ ?_
    · exact fun ⟨elem, hadd⟩ => ⟨elem, List.mem_append_right _ hadd⟩
    · exact fun ⟨u, elem, hu⟩ => ⟨u, elem, stage_of_turn hstage (hne _ (by simp [Stage.won])) hu⟩

/-- **An access forgets nothing.** -/
theorem Race.Covered.access (h : s.Covered) (hsure : s.Sure) {stage : Stage α} (hstage : s.stage t = stage)
    {o : Outcome (FolderHeap α) (Stage α) (Done α)} (ho : Access s.shared stage o) : Race.Covered (s.turn t o) := by
  obtain ⟨hinv, hlog⟩ := hsure.shared
  have hcall : CallHolds s.shared s.log stage := hstage ▸ hsure.each t
  cases ho with
  | rest => exact h.keep hstage (Grows.refl _) (fun _ _ _ he => he) (fun _ => List.not_mem_nil) rfl
  | empty => exact h.keep hstage (Grows.refl _) (fun _ _ _ he => he) (fun _ => by simp [finish]) rfl
  | format => exact h.keep hstage (Grows.refl _) (fun _ _ _ he => he) (fun _ => by simp [finish]) rfl
  | descend => exact h.keep hstage (Grows.refl _) (fun _ _ _ he => he) (fun _ => List.not_mem_nil) rfl
  | create =>
      refine h.keep hstage (FolderHeap.grows_elemIdxNew hinv) (fun a i elem he => ?_) (fun _ => List.not_mem_nil) rfl
      rwa [goto, hinv.elemIdxNew_eq] at he
  | taken => exact h.keep hstage (Grows.refl _) (fun _ _ _ he => he) (fun _ => by simp [finish]) rfl
  | vacant => exact h.keep hstage (Grows.refl _) (fun _ _ _ he => he) (fun _ => List.not_mem_nil) rfl
  | publish key elem id idx hidx =>
      exact h.keep hstage (FolderHeap.grows_setIdx hidx idx) (fun _ _ _ he => he) (fun _ => by simp) rfl
  | retryIdx => exact h.keep hstage (Grows.refl _) (fun _ _ _ he => he) (fun _ => List.not_mem_nil) rfl
  | retryElem => exact h.keep hstage (Grows.refl _) (fun _ _ _ he => he) (fun _ => List.not_mem_nil) rfl
  | @assign key elem parent i id helem =>
      obtain ⟨-, ds, rfl, hwalk⟩ := hcall
      have hgrows := FolderHeap.grows_setElem helem elem
      refine ⟨fun a j elem' helem' => ?_, fun key hmem => ?_⟩
      · rw [Threads.shared_turn, goto, FolderHeap.elems_setElem] at helem'
        split at helem'
        · rename_i hslot
          obtain ⟨rfl, rfl⟩ := hslot
          cases helem'
          exact ⟨ds, hgrows.walk hwalk, .inr ⟨t, .inl Threads.stage_turn_self⟩⟩
        · obtain ⟨es, hwalk', hret⟩ := h.elems a j elem' helem'
          refine ⟨es, hgrows.walk hwalk', hret.imp_right ?_⟩
          rintro ⟨u, hu | hu⟩
          · exact ⟨u, .inl (stage_of_turn hstage (by simp) hu)⟩
          · exact ⟨u, .inr (stage_of_turn hstage (by simp) hu)⟩
      · exact (h.counted key hmem).imp_right fun ⟨u, elem', hu⟩ => ⟨u, elem', stage_of_turn hstage (by simp) hu⟩
  | countElem key elem =>
      refine ⟨fun a i elem' helem => ?_, fun key' hmem => ?_⟩
      · obtain ⟨ds, hw, hret⟩ := h.elems a i elem' helem
        refine ⟨ds, (FolderHeap.grows_countElem s.shared).walk hw, hret.imp (List.mem_cons_of_mem _) ?_⟩
        rintro ⟨u, hu | hu⟩
        · by_cases hut : u = t
          · subst hut
            rw [hstage] at hu
            cases hu
            exact ⟨u, .inr Threads.stage_turn_self⟩
          · exact ⟨u, .inl (by rw [Threads.stage_turn_of_ne hut, hu])⟩
        · exact ⟨u, .inr (stage_of_turn hstage (by simp) hu)⟩
      · rcases List.mem_cons.mp hmem with heq | hmem
        · cases heq
          exact .inr ⟨t, elem, Threads.stage_turn_self⟩
        · refine (h.counted key' hmem).imp ?_ ?_
          · exact fun ⟨elem', hadd⟩ => ⟨elem', List.mem_cons_of_mem _ hadd⟩
          · exact fun ⟨u, elem', hu⟩ => ⟨u, elem', stage_of_turn hstage (by simp) hu⟩
  | countValid key elem =>
      refine ⟨fun a i elem' helem => ?_, fun key' hmem => ?_⟩
      · obtain ⟨ds, hw, hret⟩ := h.elems a i elem' helem
        refine ⟨ds, (FolderHeap.grows_countValid s.shared).walk hw, ?_⟩
        rcases hret with hadd | ⟨u, hu | hu⟩
        · exact .inl (List.mem_cons_of_mem _ hadd)
        · exact .inr ⟨u, .inl (stage_of_turn hstage (by simp) hu)⟩
        · by_cases hut : u = t
          · subst hut
            rw [hstage] at hu
            cases hu
            exact .inl (List.mem_cons_self ..)
          · exact .inr ⟨u, .inr (by rw [Threads.stage_turn_of_ne hut, hu])⟩
      · have hmem' : .counted key' ∈ s.log := (List.mem_cons.mp hmem).resolve_left (by simp)
        rcases h.counted key' hmem' with ⟨elem', hadd⟩ | ⟨u, elem', hu⟩
        · exact .inl ⟨elem', List.mem_cons_of_mem _ hadd⟩
        · by_cases hut : u = t
          · subst hut
            rw [hstage] at hu
            cases hu
            exact .inl ⟨elem, List.mem_cons_self ..⟩
          · exact .inr ⟨u, elem', by rw [Threads.stage_turn_of_ne hut, hu]⟩

/-- **Every event keeps what is known.** -/
theorem Race.sure_step (h : s.Sure ∧ s.Covered) {e : SetEvent ι α} (hvalid : s.Valid e) :
    Race.Sure (s.step e) ∧ Race.Covered (s.step e) := by
  obtain ⟨hsure, hcovered⟩ := h
  cases e with
  | access t spurious =>
      have haccess := access_advance s.shared spurious (s.stage t)
      exact ⟨hsure.access rfl haccess, hcovered.access hsure rfl haccess⟩
  | call t key elem =>
      cases hstage : s.stage t with
      | idle =>
          simp only [Race.step, hstage]
          exact ⟨hsure.call hstage hvalid,
            hcovered.keep hstage (Grows.refl _) (fun _ _ _ he => he) (fun _ => List.not_mem_nil) rfl⟩
      | _ => simpa only [Race.step, hstage] using And.intro hsure hcovered

end Events

omit [DecidableEq ι] in
theorem sure_start : (Race.start : Race ι α).Sure ∧ (Race.start : Race ι α).Covered := by
  refine ⟨⟨⟨?_, ?_⟩, fun _ => trivial, fun _ _ _ => ⟨?_, ?_⟩⟩, ?_, ?_⟩
  · refine ⟨Nat.one_pos, ?_, ?_, fun _ _ => ⟨fun _ => rfl, fun _ => rfl⟩⟩
    · intro _ _ _ h
      cases h
    · intro _ _ _ _ _ h
      cases h
  · exact ⟨fun _ _ h => absurd h List.not_mem_nil, fun _ _ _ h => absurd h List.not_mem_nil,
      fun _ h => absurd h List.not_mem_nil, List.nodup_nil, List.nodup_nil, rfl, rfl,
      fun _ _ _ h => absurd h List.not_mem_nil⟩
  · intro _ h
    cases h
  · intro _ h
    cases h
  · intro _ _ _ h
    cases h
  · exact fun _ h => absurd h List.not_mem_nil

/-! ## (10) Runs -/

section Runs

variable {s : Race ι α}

theorem mem_resultsOf {key : List UInt8} {log : List (Done α)} {rc : Except KndErr Unit} :
    rc ∈ resultsOf key log ↔ ∃ elem, .add key elem rc ∈ log := by
  rw [resultsOf, List.mem_filterMap]
  constructor
  · rintro ⟨done, hmem, heq⟩
    cases done with
    | add key' elem rc' =>
        by_cases hkey : key' = key
        · subst hkey
          obtain rfl : rc' = rc := by simpa using heq
          exact ⟨elem, hmem⟩
        · simp [hkey] at heq
    | published => cases heq
    | counted => cases heq
  · rintro ⟨elem, hmem⟩
    exact ⟨_, hmem, if_pos rfl⟩

/-- The successful calls for a key are counted once for each time the key is in `okKeys`. -/
theorem length_filter_resultsOf (key : List UInt8) (log : List (Done α)) :
    ((resultsOf key log).filter isOk).length = (okKeys log).count key := by
  induction log with
  | nil => rfl
  | cons done log ih =>
      cases done with
      | published => exact ih
      | counted => exact ih
      | add key' elem rc =>
          cases rc with
          | error e =>
              by_cases hkey : key' = key
              · simpa [resultsOf, okKeys, hkey, isOk] using ih
              · simpa [resultsOf, okKeys, hkey] using ih
          | ok =>
              have hok : okKeys (.add key' elem (.ok ()) :: log) = key' :: okKeys log := rfl
              rw [hok, List.count_cons, ← ih]
              by_cases hkey : key' = key
              · have hres : resultsOf key (.add key' elem (.ok ()) :: log) = .ok () :: resultsOf key log := by
                  simp [resultsOf, hkey]
                rw [hres, List.filter_cons_of_pos rfl, List.length_cons, if_pos (beq_iff_eq.mpr hkey)]
              · have hres : resultsOf key (.add key' elem (.ok ()) :: log) = resultsOf key log := by
                  simp [resultsOf, hkey]
                rw [hres, if_neg (by simpa using hkey), Nat.add_zero]

omit [DecidableEq ι] in
/-- **What is known gives the promise.** -/
theorem Race.Sure.contract (h : s.Sure) (hcovered : s.Covered) : Contract s := by
  obtain ⟨hinv, hlog⟩ := h.shared
  have hidleOk : (∀ t, s.stage t = .idle) → ∀ ds a i elem, s.shared.walk 0 ds = some a →
      s.shared.elems a i = some elem → .add (digitsKey (ds ++ [i])) elem (.ok ()) ∈ s.log := by
    intro hidle ds a i elem hwalk helem
    obtain ⟨es, hwalk', hret⟩ := hcovered.elems a i elem helem
    rw [hinv.walk_inj hwalk hwalk']
    refine hret.resolve_right ?_
    rintro ⟨t, ht | ht⟩
    · rw [hidle t] at ht
      cases ht
    · rw [hidle t] at ht
      cases ht
  refine ⟨fun key => ⟨fun rc hrc => ?_, ?_, fun hidle hne => ?_⟩, fun key elem hmem => ?_,
    fun hidle key hkey hno => ?_, hlog.published, fun hidle => ⟨?_, hlog.numValidElems⟩⟩
  · obtain ⟨elem, hmem⟩ := mem_resultsOf.mp hrc
    cases rc with
    | error e => exact .inl (congrArg Except.error (hlog.refused key elem e hmem).1)
    | ok => exact .inr rfl
  · rw [length_filter_resultsOf]
    exact List.nodup_iff_count_le_one.mp hlog.nodup_ok key
  · -- a refused call has met an element, whose call has returned as well
    rw [length_filter_resultsOf]
    refine List.count_eq_one_of_mem hlog.nodup_ok (mem_okKeys.mpr ?_)
    obtain ⟨rc, hrc⟩ := List.exists_mem_of_ne_nil _ hne
    obtain ⟨elem, hmem⟩ := mem_resultsOf.mp hrc
    cases rc with
    | ok => exact ⟨elem, hmem⟩
    | error e =>
        obtain ⟨-, elem', ds, i, a, rfl, hwalk, helem⟩ := hlog.refused key elem e hmem
        exact ⟨elem', hidleOk hidle ds a i elem' hwalk helem⟩
  · obtain ⟨⟨ds, i, a, rfl, hwalk, helem⟩, -⟩ := hlog.ok key elem hmem
    exact FolderHeap.getElem_of_some hwalk helem
  · obtain ⟨es, hne, rfl⟩ := hkey
    obtain ⟨ds, i, rfl⟩ : ∃ ds i, es = ds ++ [i] :=
      ⟨es.dropLast, es.getLast hne, (List.dropLast_append_getLast hne).symm⟩
    refine FolderHeap.getElem_of_none fun a hwalk => ?_
    cases helem : s.shared.elems a i with
    | none => rfl
    | some elem => exact absurd (hidleOk hidle ds a i elem hwalk helem) (hno elem)
  · -- the counted keys are the keys of the successful calls
    rw [hlog.numElems]
    refine List.Perm.length_eq ((List.perm_ext_iff_of_nodup hlog.nodup_counted hlog.nodup_ok).mpr fun key => ?_)
    rw [mem_countedKeys, mem_okKeys]
    constructor
    · intro hmem
      refine (hcovered.counted key hmem).resolve_right ?_
      rintro ⟨t, elem, ht⟩
      rw [hidle t] at ht
      cases ht
    · rintro ⟨elem, hmem⟩
      exact (hlog.ok key elem hmem).2

/-- **The set keeps its promise** in every interleaving. -/
theorem contract_of_valid (hrun : Reaches Race.step Race.Valid (Race.start : Race ι α) s) : Contract s := by
  have hsure : s.Sure ∧ s.Covered :=
    hrun.invariant sure_start fun _ _ hinv hvalid => Race.sure_step hinv hvalid
  exact hsure.1.contract hsure.2

/-- Two calls for one key find no subfolder, and each creates one; the second one is lost, and so is the race for
the element. -/
def twoFolders : List (SetEvent Bool Nat) :=
  [.call false [48, 49] 1, .call true [48, 49] 2, .access false false, .access true false] ++
    List.replicate 2 (.access false false) ++ List.replicate 3 (.access true false) ++
    List.replicate 3 (.access false false) ++ List.replicate 2 (.access true false)

theorem contract_of_valid_twoFolders : Contract (twoFolders.foldl Race.step Race.start) := by
  have hvalid : ValidKey [48, 49] := ⟨[⟨0, by decide⟩, ⟨1, by decide⟩], by simp, by decide⟩
  exact contract_of_valid (Reaches.refl.foldl ⟨hvalid, hvalid, trivial, trivial, trivial, trivial, trivial, trivial,
    trivial, trivial, trivial, trivial, trivial, trivial, trivial⟩)

example : resultsOf [48, 49] (twoFolders.foldl Race.step Race.start).log = [.error .conflict, .ok ()] := by
  decide +kernel

end Runs

end SetRace

end Knowdy
