import Knowdy.Lib.Runs
import Knowdy.Lib.Threads
import Knowdy.Utils
import Mathlib.Data.List.Perm.Basic

/-! # The task queue

`kndQueue` of `knd_queue.c`: a ring of slots between two positions. A producer and a consumer first reserve a slot,
by an exchange of `tail_pos` or of `head_pos`, and then fill it or take what is in it. Any number of calls are
interleaved between every two accesses.

* `Queue`, `Stage`, `advance` — the ring, where a call is, and its accesses.
* `Waiting` — the slots between the positions; `waiting_reserve`, `waiting_take` — what the two exchanges do to
  them.
* `Lossless` — what was pushed is what was popped and what is still in the slots, and these can be had.
* `Fits` — a producer reserves an empty slot that is not the head, a consumer a filled one of a queue that is not
  empty.
* `lossless_of_fits` — the queue loses and duplicates nothing in every run of such exchanges. -/

namespace Knowdy

namespace TaskQueue

variable {α : Type}

/-! ## (1) The ring -/

/-- `struct kndQueue`, as `knd_queue.c` uses it. -/
structure Queue (α : Type) where
  /-- `capacity`: the number of slots. -/
  capacity : Nat
  /-- `elems`; there is no slot from `capacity` on. -/
  elems : Nat → Option α := fun _ => none
  /-- `head_pos`: the slot that was taken last. -/
  headPos : Nat := 0
  /-- `tail_pos`: the slot that was reserved last. -/
  tailPos : Nat := 0

/-- The next position. -/
def bump (capacity pos : Nat) : Nat := if pos + 1 = capacity then 0 else pos + 1

/-- How many slots after the head a position comes. -/
def offset (self : Queue α) (pos : Nat) : Nat :=
  if self.headPos ≤ pos then pos - self.headPos else pos + self.capacity - self.headPos

/-- **The slots between the positions**: they are reserved by producers and not yet by consumers. -/
def Waiting (self : Queue α) (pos : Nat) : Prop :=
  pos < self.capacity ∧ pos ≠ self.headPos ∧ offset self pos ≤ offset self self.tailPos

/-- The positions are slots, and a queue without slots has no elements. -/
structure Bounds (q : Queue α) : Prop where
  /-- `head_pos` is a slot. -/
  head : q.capacity ≠ 0 → q.headPos < q.capacity
  /-- `tail_pos` is a slot. -/
  tail : q.capacity ≠ 0 → q.tailPos < q.capacity
  /-- There are no other slots. -/
  beyond : ∀ pos, q.capacity ≤ pos → q.elems pos = none

/-- **A producer reserves** the slot after the tail. -/
theorem waiting_reserve {self : Queue α} (h : Bounds self) (hcap : self.capacity ≠ 0)
    (hhead : bump self.capacity self.tailPos ≠ self.headPos) (pos : Nat) :
    Waiting { self with tailPos := bump self.capacity self.tailPos } pos ↔
      Waiting self pos ∨ pos = bump self.capacity self.tailPos := by
  have h₁ := h.head hcap
  have h₂ := h.tail hcap
  unfold Waiting offset
  unfold bump at *
  simp only
  split_ifs at * <;> omega

/-- The slot after the tail was not reserved before. -/
theorem not_waiting_bump {self : Queue α} (h : Bounds self) (hcap : self.capacity ≠ 0) :
    ¬ Waiting self (bump self.capacity self.tailPos) := by
  have h₁ := h.head hcap
  have h₂ := h.tail hcap
  unfold Waiting offset
  unfold bump at *
  split_ifs at * <;> omega

/-- **A consumer reserves** the slot after the head. -/
theorem waiting_take {self : Queue α} (h : Bounds self) (hcap : self.capacity ≠ 0)
    (htail : self.headPos ≠ self.tailPos) (pos : Nat) :
    Waiting { self with headPos := bump self.capacity self.headPos } pos ↔
      Waiting self pos ∧ pos ≠ bump self.capacity self.headPos := by
  have h₁ := h.head hcap
  have h₂ := h.tail hcap
  unfold Waiting offset
  unfold bump at *
  simp only
  split_ifs at * <;> omega

/-- The slot after the head is reserved by a producer. -/
theorem waiting_bump {self : Queue α} (h : Bounds self) (hcap : self.capacity ≠ 0)
    (htail : self.headPos ≠ self.tailPos) : Waiting self (bump self.capacity self.headPos) := by
  have h₁ := h.head hcap
  have h₂ := h.tail hcap
  unfold Waiting offset
  unfold bump at *
  split_ifs at * <;> omega

/-- In an empty queue no slot is between the positions. -/
theorem not_waiting_of_eq {self : Queue α} (h : Bounds self) (heq : self.headPos = self.tailPos) (pos : Nat) :
    ¬ Waiting self pos := by
  rintro ⟨hlt, hne, hle⟩
  have h₁ := h.head (by omega)
  unfold offset at hle
  split_ifs at hle <;> omega


/-! ## (2) The calls -/

/-- Where a call is. -/
inductive Stage (α : Type) where
  /-- No call. -/
  | idle
  /-- A push, before the load of `tail_pos`. -/
  | pushing (elem : α)
  /-- `tail_pos` is loaded. -/
  | pushTail (elem : α) (tail : Nat)
  /-- `head_pos` is loaded as well, and the queue is not full. -/
  | pushReady (elem : α) (tail next : Nat)
  /-- The exchange of `tail_pos` was successful. -/
  | pushReserved (elem : α) (next : Nat)
  /-- The slot was found empty. -/
  | pushChecked (elem : α) (next : Nat)
  /-- A pop, before the load of `tail_pos`. -/
  | popping
  /-- `tail_pos` is loaded. -/
  | popTail (tail : Nat)
  /-- `head_pos` is loaded as well, and the queue is not empty. -/
  | popReady (head next : Nat)
  /-- The exchange of `head_pos` was successful. -/
  | popReserved (next : Nat)
  /-- The slot was found filled. -/
  | popChecked (next : Nat)
  /-- The element is read, or the null pointer where the slot is empty by now. -/
  | popTaken (next : Nat) (elem : Option α)
  deriving DecidableEq

/-- What happens to a call. -/
inductive Act (α : Type) where
  /-- `knd_queue_push` is called. -/
  | push (elem : α)
  /-- `knd_queue_pop` is called. -/
  | pop
  /-- The next access; a weak exchange may fail for no reason. -/
  | access (spurious : Bool)

/-- What a call returns. -/
inductive Answer (α : Type) where
  /-- `knd_queue_push` of an element. -/
  | pushed (elem : α) (res : Except KndErr Unit)
  /-- `knd_queue_pop`; `none` is the null pointer. -/
  | popped (res : Except KndErr (Option α))
  deriving DecidableEq

/-- **One access** of `knd_queue_push` or `knd_queue_pop`. -/
def advance (self : Queue α) : Stage α → Act α → Outcome (Queue α) (Stage α) (Answer α)
  | .idle, .push elem => { shared := self, stage := .pushing elem }
  | .idle, .pop => { shared := self, stage := .popping }
  | .pushing elem, .access _ => { shared := self, stage := .pushTail elem self.tailPos }
  | .pushTail elem tail, .access _ =>
      if tail + 1 = self.headPos then
        { shared := self, stage := .idle, returned := [.pushed elem (.error .limit)] }
      else if tail + 1 = self.capacity then
        if self.headPos = 0 then { shared := self, stage := .idle, returned := [.pushed elem (.error .limit)] }
        else { shared := self, stage := .pushReady elem tail 0 }
      else { shared := self, stage := .pushReady elem tail (tail + 1) }
  | .pushReady elem tail next, .access spurious =>
      if spurious = false ∧ self.tailPos = tail then
        { shared := { self with tailPos := next }, stage := .pushReserved elem next }
      else { shared := self, stage := .pushing elem }
  | .pushReserved elem next, .access _ =>
      match self.elems next with
      | some _ => { shared := self, stage := .idle, returned := [.pushed elem (.error .fail)] }
      | none => { shared := self, stage := .pushChecked elem next }
  | .pushChecked elem next, .access _ =>
      { shared := { self with elems := Function.update self.elems next (some elem) }
        stage := .idle
        returned := [.pushed elem (.ok ())] }
  | .popping, .access _ => { shared := self, stage := .popTail self.tailPos }
  | .popTail tail, .access _ =>
      if tail = self.headPos then { shared := self, stage := .idle, returned := [.popped (.error .noMatch)] }
      else { shared := self, stage := .popReady self.headPos (bump self.capacity self.headPos) }
  | .popReady head next, .access spurious =>
      if spurious = false ∧ self.headPos = head then
        { shared := { self with headPos := next }, stage := .popReserved next }
      else { shared := self, stage := .popping }
  | .popReserved next, .access _ =>
      match self.elems next with
      | none => { shared := self, stage := .idle, returned := [.popped (.error .fail)] }
      | some _ => { shared := self, stage := .popChecked next }
  | .popChecked next, .access _ => { shared := self, stage := .popTaken next (self.elems next) }
  | .popTaken next elem, .access _ =>
      { shared := { self with elems := Function.update self.elems next none }
        stage := .idle
        returned := [.popped (.ok elem)] }
  | stage, _ => { shared := self, stage }

variable {ι : Type} [DecidableEq ι]

/-- A queue and the calls of the threads `ι`. -/
abbrev Race (ι α : Type) := Threads ι (Queue α) (Stage α) (Answer α)

/-- A turn of a thread. -/
structure Turn (ι α : Type) where
  /-- The thread. -/
  thread : ι
  /-- What happens to its call. -/
  act : Act α

namespace Race

/-- `knd_queue_new`, and no calls. -/
def start (ι : Type) (α : Type) (capacity : Nat) : Race ι α := ⟨{ capacity }, fun _ => .idle, []⟩

/-- One turn. -/
def step (s : Race ι α) (e : Turn ι α) : Race ι α := s.turn e.thread (advance s.shared (s.stage e.thread) e.act)

/-- **The exchanges for which nothing is lost.** A producer reserves a slot that is empty and is not the head; a
consumer reserves a slot of a queue that is not empty, and the slot is filled. -/
def Fits (s : Race ι α) (e : Turn ι α) : Prop :=
  match s.stage e.thread, e.act with
  | .pushReady _ tail next, .access spurious =>
      spurious = false ∧ s.shared.tailPos = tail →
        next < s.shared.capacity ∧ next ≠ s.shared.headPos ∧ s.shared.elems next = none
  | .popReady head next, .access spurious =>
      spurious = false ∧ s.shared.headPos = head →
        s.shared.headPos ≠ s.shared.tailPos ∧ (s.shared.elems next).isSome = true
  | _, _ => True

end Race

/-- The element of a push that returned `knd_OK`. -/
def Answer.pushed? : Answer α → Option α
  | .pushed elem (.ok ()) => some elem
  | _ => none

/-- The element that a pop returned. -/
def Answer.popped? : Answer α → Option α
  | .popped (.ok elem) => elem
  | _ => none

/-- The elements that were pushed. -/
def pushedOf (log : List (Answer α)) : List α := log.filterMap Answer.pushed?

/-- The elements that were popped. -/
def poppedOf (log : List (Answer α)) : List α := log.filterMap Answer.popped?

/-- The elements in the slots. -/
def stored (self : Queue α) : List α := (List.range self.capacity).filterMap self.elems

/-- A pop by one thread, with nobody in its way: the call and its six accesses. -/
def popAlone (t : ι) : List (Turn ι α) := ⟨t, .pop⟩ :: List.replicate 6 ⟨t, .access false⟩

/-- **The queue loses and duplicates nothing.** -/
structure Lossless (s : Race ι α) : Prop where
  /-- What was pushed was popped, once, or is in a slot, and nothing else was popped or is there. -/
  account : (pushedOf s.log).Perm (poppedOf s.log ++ stored s.shared)
  /-- No pop returns without an element. -/
  notNull : Answer.popped (.ok none) ∉ s.log
  /-- When no call is under way, as many pops as there are elements return them all. -/
  retrievable : (∀ t, s.stage t = .idle) → ∀ t,
    (pushedOf s.log).Perm
      (poppedOf (((List.replicate (stored s.shared).length (popAlone t)).flatten).foldl Race.step s).log)

/-! ## (3) The invariant -/

/-- The call has reserved the slot to fill it. -/
def Stage.Pushes : Stage α → Nat → Prop
  | .pushReserved _ next, pos => pos = next
  | .pushChecked _ next, pos => pos = next
  | _, _ => False

/-- The call has reserved the slot to take what is in it. -/
def Stage.Takes : Stage α → Nat → Prop
  | .popReserved next, pos => pos = next
  | .popChecked next, pos => pos = next
  | .popTaken next _, pos => pos = next
  | _, _ => False

/-- What is known of the ring. -/
structure RingInv (q : Queue α) (log : List (Answer α)) : Prop extends Bounds q where
  /-- What was pushed was popped or is in a slot. -/
  account : (pushedOf log).Perm (poppedOf log ++ stored q)
  /-- No pop returned without an element. -/
  notNull : Answer.popped (.ok none) ∉ log

/-- What is known of a call. -/
def CallHolds (q : Queue α) (_ : List (Answer α)) : Stage α → Prop
  | .pushReady _ tail next => next = bump q.capacity tail
  | .pushReserved _ next | .pushChecked _ next => Waiting q next ∧ q.elems next = none
  | .popReady head next => next = bump q.capacity head
  | .popReserved next | .popChecked next => ¬ Waiting q next ∧ (q.elems next).isSome = true
  | .popTaken next elem => ¬ Waiting q next ∧ (q.elems next).isSome = true ∧ q.elems next = elem
  | _ => True

/-- Two calls have not reserved one slot. -/
def Apart (a b : Stage α) : Prop := ∀ pos, a.Pushes pos ∨ a.Takes pos → ¬ (b.Pushes pos ∨ b.Takes pos)

/-- **A slot between the positions is filled, or about to be; a filled slot lies between them, or is about to be
emptied.** -/
structure Covered (s : Race ι α) : Prop where
  /-- The slots between the positions. -/
  filled : ∀ pos, Waiting s.shared pos → (s.shared.elems pos).isSome = true ∨ ∃ t, (s.stage t).Pushes pos
  /-- The filled slots. -/
  fetched : ∀ pos, (s.shared.elems pos).isSome = true → Waiting s.shared pos ∨ ∃ t, (s.stage t).Takes pos

/-- **The invariant.** -/
structure Inv (s : Race ι α) : Prop where
  /-- The ring, the calls, and each two of them. -/
  holds : s.Holds RingInv CallHolds Apart
  /-- The slots. -/
  covered : Covered s

theorem Apart.symm {a b : Stage α} (h : Apart a b) : Apart b a := fun pos hb ha => h pos ha hb

variable {s : Race ι α} {t : ι}

/-- **The proof rule for a turn.** -/
theorem Inv.turn (h : Inv s) (t : ι) {o : Outcome (Queue α) (Stage α) (Answer α)}
    (hI : RingInv o.shared (o.returned ++ s.log)) (hA : CallHolds o.shared (o.returned ++ s.log) o.stage)
    (hothers : ∀ u, u ≠ t → CallHolds s.shared s.log (s.stage u) → Apart (s.stage t) (s.stage u) →
      CallHolds o.shared (o.returned ++ s.log) (s.stage u) ∧ Apart o.stage (s.stage u))
    (hfilled : ∀ pos, Waiting o.shared pos → ¬ o.stage.Pushes pos → (∀ u, u ≠ t → ¬ (s.stage u).Pushes pos) →
      (o.shared.elems pos).isSome = true)
    (hfetched : ∀ pos, (o.shared.elems pos).isSome = true → ¬ o.stage.Takes pos →
      (∀ u, u ≠ t → ¬ (s.stage u).Takes pos) → Waiting o.shared pos) : Inv (s.turn t o) := by
  refine ⟨h.holds.turn (fun _ _ => Apart.symm) hI hA hothers, fun pos hpos => ?_, fun pos hpos => ?_⟩
  · by_contra hnot
    obtain ⟨hempty, hnone⟩ := not_or.mp hnot
    refine hempty (hfilled pos hpos (fun hown => hnone ⟨t, ?_⟩) fun u hu hother => hnone ⟨u, ?_⟩)
    · rw [Threads.stage_turn_self]
      exact hown
    · rw [Threads.stage_turn_of_ne hu]
      exact hother
  · by_contra hnot
    obtain ⟨hwaiting, hnone⟩ := not_or.mp hnot
    refine hwaiting (hfetched pos hpos (fun hown => hnone ⟨t, ?_⟩) fun u hu hother => hnone ⟨u, ?_⟩)
    · rw [Threads.stage_turn_self]
      exact hown
    · rw [Threads.stage_turn_of_ne hu]
      exact hother

/-- A slot between the positions that no other call fills. -/
theorem Covered.filled_of (h : Covered s) {pos : Nat} (hpos : Waiting s.shared pos)
    (hown : ¬ (s.stage t).Pushes pos) (hothers : ∀ u, u ≠ t → ¬ (s.stage u).Pushes pos) :
    (s.shared.elems pos).isSome = true := by
  rcases h.filled pos hpos with hfilled | ⟨u, hu⟩
  · exact hfilled
  · by_cases hut : u = t
    · exact absurd (hut ▸ hu) hown
    · exact absurd hu (hothers u hut)

/-- A filled slot that no other call empties. -/
theorem Covered.fetched_of (h : Covered s) {pos : Nat} (hpos : (s.shared.elems pos).isSome = true)
    (hown : ¬ (s.stage t).Takes pos) (hothers : ∀ u, u ≠ t → ¬ (s.stage u).Takes pos) : Waiting s.shared pos := by
  rcases h.fetched pos hpos with hwaiting | ⟨u, hu⟩
  · exact hwaiting
  · by_cases hut : u = t
    · exact absurd (hut ▸ hu) hown
    · exact absurd hu (hothers u hut)

/-- Answers that are refusals. -/
def Refusals (l : List (Answer α)) : Prop :=
  pushedOf l = [] ∧ poppedOf l = [] ∧ Answer.popped (.ok none) ∉ l

/-- **A turn that leaves the ring alone** and the reservations of its call as they were. -/
theorem Inv.turn_local (h : Inv s) (t : ι) {stage : Stage α} {returned : List (Answer α)}
    (hreturned : Refusals returned) (hA : CallHolds s.shared s.log stage)
    (hpushes : ∀ pos, stage.Pushes pos ↔ (s.stage t).Pushes pos)
    (htakes : ∀ pos, stage.Takes pos ↔ (s.stage t).Takes pos) :
    Inv (s.turn t { shared := s.shared, stage, returned }) := by
  obtain ⟨hpushed, hpopped, hnull⟩ := hreturned
  have hI : RingInv s.shared (returned ++ s.log) := by
    refine ⟨h.holds.shared.toBounds, ?_, ?_⟩
    · rw [pushedOf, poppedOf, List.filterMap_append, List.filterMap_append]
      rw [pushedOf] at hpushed
      rw [poppedOf] at hpopped
      rw [hpushed, hpopped]
      exact h.holds.shared.account
    · rw [List.mem_append]
      exact fun hmem => hmem.elim hnull h.holds.shared.notNull
  refine h.turn t hI hA (fun u hu hholds hapart => ⟨hholds, fun pos hpos => hapart pos ?_⟩) ?_ ?_
  · rwa [hpushes, htakes] at hpos
  · exact fun pos hpos hown hothers => h.covered.filled_of hpos (fun hp => hown ((hpushes pos).mpr hp)) hothers
  · exact fun pos hpos hown hothers => h.covered.fetched_of hpos (fun hp => hown ((htakes pos).mpr hp)) hothers

/-- Nothing is answered. -/
theorem refusals_nil : Refusals ([] : List (Answer α)) := ⟨rfl, rfl, List.not_mem_nil⟩

/-- What is known of a call that has reserved a slot to fill it. -/
theorem CallHolds.pushes {q : Queue α} {log : List (Answer α)} {stage : Stage α} (h : CallHolds q log stage)
    {pos : Nat} (hpos : stage.Pushes pos) : Waiting q pos ∧ q.elems pos = none := by
  cases stage <;> cases hpos <;> exact h

/-- What is known of a call that has reserved a slot to take what is in it. -/
theorem CallHolds.takes {q : Queue α} {log : List (Answer α)} {stage : Stage α} (h : CallHolds q log stage)
    {pos : Nat} (hpos : stage.Takes pos) : ¬ Waiting q pos ∧ (q.elems pos).isSome = true := by
  cases stage <;> cases hpos
  · exact h
  · exact h
  · exact ⟨h.1, h.2.1⟩

/-- What is known of a call stays known when the slots it has reserved stay as they are. -/
theorem CallHolds.change {q q' : Queue α} {log log' : List (Answer α)} {stage : Stage α}
    (h : CallHolds q log stage) (hcap : q'.capacity = q.capacity)
    (hpushes : ∀ pos, stage.Pushes pos → Waiting q pos → q.elems pos = none →
      Waiting q' pos ∧ q'.elems pos = none)
    (htakes : ∀ pos, stage.Takes pos → ¬ Waiting q pos → (q.elems pos).isSome = true →
      ¬ Waiting q' pos ∧ q'.elems pos = q.elems pos) : CallHolds q' log' stage := by
  cases stage with
  | pushReady elem tail next =>
      rw [CallHolds, hcap]
      exact h
  | popReady head next =>
      rw [CallHolds, hcap]
      exact h
  | pushReserved elem next => exact hpushes next rfl h.1 h.2
  | pushChecked elem next => exact hpushes next rfl h.1 h.2
  | popReserved next =>
      obtain ⟨hnot, heq⟩ := htakes next rfl h.1 h.2
      exact ⟨hnot, heq ▸ h.2⟩
  | popChecked next =>
      obtain ⟨hnot, heq⟩ := htakes next rfl h.1 h.2
      exact ⟨hnot, heq ▸ h.2⟩
  | popTaken next elem =>
      obtain ⟨hnot, heq⟩ := htakes next rfl h.1 h.2.1
      exact ⟨hnot, heq ▸ h.2.1, heq.trans h.2.2⟩
  | idle => trivial
  | pushing elem => trivial
  | pushTail elem tail => trivial
  | popping => trivial
  | popTail tail => trivial

/-! ## (4) The four turns that change the ring -/

/-- **A producer reserves an empty slot.** -/
theorem Inv.reserve (h : Inv s) {elem : α} {next : Nat}
    (hown : ∀ pos, ¬ ((s.stage t).Pushes pos ∨ (s.stage t).Takes pos))
    (hnext : next = bump s.shared.capacity s.shared.tailPos) (hlt : next < s.shared.capacity)
    (hhead : next ≠ s.shared.headPos) (hempty : s.shared.elems next = none) :
    Inv (s.turn t { shared := { s.shared with tailPos := next }, stage := .pushReserved elem next }) := by
  have hbounds := h.holds.shared.toBounds
  have hcap : s.shared.capacity ≠ 0 := by omega
  have hwaiting : ∀ pos, Waiting { s.shared with tailPos := next } pos ↔ Waiting s.shared pos ∨ pos = next := by
    rw [hnext] at hhead ⊢
    exact waiting_reserve hbounds hcap hhead
  have hnew : ¬ Waiting s.shared next := by
    rw [hnext]
    exact not_waiting_bump hbounds hcap
  apply h.turn t
  · exact ⟨⟨hbounds.head, fun _ => hlt, hbounds.beyond⟩, h.holds.shared.account, h.holds.shared.notNull⟩
  · exact ⟨(hwaiting next).mpr (.inr rfl), hempty⟩
  · intro u hu hholds _
    refine ⟨hholds.change rfl (fun pos _ hw he => ⟨(hwaiting pos).mpr (.inl hw), he⟩) ?_, ?_⟩
    · -- a slot that is being emptied is not the one that was reserved
      intro pos _ hw hsome
      refine ⟨fun hw' => ?_, rfl⟩
      rcases (hwaiting pos).mp hw' with hw' | rfl
      · exact hw hw'
      · rw [hempty] at hsome
        cases hsome
    · intro pos hpos hother
      obtain rfl : pos = next := hpos.elim id False.elim
      rcases hother with hp | hp
      · exact hnew (hholds.pushes hp).1
      · have := (hholds.takes hp).2
        rw [hempty] at this
        cases this
  · intro pos hpos hown' hothers
    rcases (hwaiting pos).mp hpos with hpos | rfl
    · exact h.covered.filled_of hpos (fun hp => hown pos (.inl hp)) hothers
    · exact absurd rfl hown'
  · intro pos hpos _ hothers
    exact (hwaiting pos).mpr (.inl (h.covered.fetched_of hpos (fun hp => hown pos (.inr hp)) hothers))

/-- **A consumer reserves a filled slot.** -/
theorem Inv.take (h : Inv s) {next : Nat} (hown : ∀ pos, ¬ ((s.stage t).Pushes pos ∨ (s.stage t).Takes pos))
    (hnext : next = bump s.shared.capacity s.shared.headPos) (htail : s.shared.headPos ≠ s.shared.tailPos)
    (hfull : (s.shared.elems next).isSome = true) :
    Inv (s.turn t { shared := { s.shared with headPos := next }, stage := .popReserved next }) := by
  have hbounds := h.holds.shared.toBounds
  have hcap : s.shared.capacity ≠ 0 := by
    intro hzero
    rw [hbounds.beyond next (by omega)] at hfull
    cases hfull
  have hwaiting : ∀ pos, Waiting { s.shared with headPos := next } pos ↔ Waiting s.shared pos ∧ pos ≠ next := by
    rw [hnext]
    exact waiting_take hbounds hcap htail
  have hold : Waiting s.shared next := by
    rw [hnext]
    exact waiting_bump hbounds hcap htail
  apply h.turn t
  · refine ⟨⟨fun _ => ?_, hbounds.tail, hbounds.beyond⟩, h.holds.shared.account, h.holds.shared.notNull⟩
    exact hold.1
  · exact ⟨fun hw => ((hwaiting next).mp hw).2 rfl, hfull⟩
  · intro u hu hholds _
    refine ⟨hholds.change rfl (fun pos _ hw he => ⟨(hwaiting pos).mpr ⟨hw, ?_⟩, he⟩)
      fun pos _ hw _ => ⟨fun hw' => hw ((hwaiting pos).mp hw').1, rfl⟩, ?_⟩
    · -- a slot that is about to be filled is not the one that was reserved
      rintro rfl
      rw [he] at hfull
      cases hfull
    · intro pos hpos hother
      obtain rfl : pos = next := hpos.elim False.elim id
      rcases hother with hp | hp
      · have := (hholds.pushes hp).2
        rw [this] at hfull
        cases hfull
      · exact (hholds.takes hp).1 hold
  · intro pos hpos _ hothers
    exact h.covered.filled_of ((hwaiting pos).mp hpos).1 (fun hp => hown pos (.inl hp)) hothers
  · intro pos hpos hown' hothers
    have hw := h.covered.fetched_of hpos (fun hp => hown pos (.inr hp)) hothers
    exact (hwaiting pos).mpr ⟨hw, hown'⟩

/-- One slot of a list of slots is filled. -/
theorem filterMap_update_perm {l : List Nat} (hl : l.Nodup) {pos : Nat} (hmem : pos ∈ l) {f : Nat → Option α}
    (hempty : f pos = none) (elem : α) :
    (l.filterMap (Function.update f pos (some elem))).Perm (elem :: l.filterMap f) := by
  induction l with
  | nil => exact (List.not_mem_nil hmem).elim
  | cons i l ih =>
      obtain ⟨hi, hl⟩ := List.nodup_cons.mp hl
      by_cases hip : i = pos
      · subst hip
        have hrest : l.filterMap (Function.update f i (some elem)) = l.filterMap f := by
          apply List.filterMap_congr
          intro j hj
          rw [Function.update_of_ne]
          rintro rfl
          exact hi hj
        rw [List.filterMap_cons_some (Function.update_self ..), List.filterMap_cons_none hempty, hrest]
      · have htail := ih hl ((List.mem_cons.mp hmem).resolve_left (Ne.symm hip))
        have hhead : Function.update f pos (some elem) i = f i := Function.update_of_ne hip _ _
        cases hfi : f i with
        | none =>
            rw [List.filterMap_cons_none (hhead.trans hfi), List.filterMap_cons_none hfi]
            exact htail
        | some a =>
            rw [List.filterMap_cons_some (hhead.trans hfi), List.filterMap_cons_some hfi]
            exact (htail.cons a).trans (List.Perm.swap ..)

/-- An element more in an empty slot. -/
theorem stored_update (q : Queue α) {pos : Nat} (hlt : pos < q.capacity) (hempty : q.elems pos = none) (elem : α) :
    (stored { q with elems := Function.update q.elems pos (some elem) }).Perm (elem :: stored q) :=
  filterMap_update_perm List.nodup_range (List.mem_range.mpr hlt) hempty elem

/-- An element less in a filled slot. -/
theorem stored_erase (q : Queue α) {pos : Nat} (hlt : pos < q.capacity) {elem : α} (hfull : q.elems pos = some elem) :
    (stored q).Perm (elem :: stored { q with elems := Function.update q.elems pos none }) := by
  have hback : Function.update (Function.update q.elems pos none) pos (some elem) = q.elems := by
    rw [Function.update_idem, ← hfull, Function.update_eq_self]
  have h := stored_update { q with elems := Function.update q.elems pos none } hlt (Function.update_self ..) elem
  simp only [hback] at h
  exact h

/-- **A producer fills its slot.** -/
theorem Inv.store (h : Inv s) {elem : α} {next : Nat} (hstage : s.stage t = .pushChecked elem next) :
    Inv (s.turn t
      { shared := { s.shared with elems := Function.update s.shared.elems next (some elem) }
        stage := .idle
        returned := [.pushed elem (.ok ())] }) := by
  obtain ⟨hold, hempty⟩ : Waiting s.shared next ∧ s.shared.elems next = none := by
    have := h.holds.each t
    rwa [hstage] at this
  have hbounds := h.holds.shared.toBounds
  apply h.turn t
  · refine ⟨⟨hbounds.head, hbounds.tail, fun pos hpos => ?_⟩, ?_, ?_⟩
    · have hlt := hold.1
      simp only at hpos ⊢
      rw [Function.update_of_ne (by omega)]
      exact hbounds.beyond pos hpos
    · have hstored := stored_update s.shared hold.1 hempty elem
      have haccount := h.holds.shared.account
      calc pushedOf ([.pushed elem (.ok ())] ++ s.log) = elem :: pushedOf s.log := rfl
        List.Perm _ (elem :: (poppedOf s.log ++ stored s.shared)) := haccount.cons elem
        List.Perm _ (poppedOf s.log ++ elem :: stored s.shared) := List.perm_middle.symm
        List.Perm _ _ := hstored.symm.append_left _
    · rw [List.mem_append]
      rintro (hmem | hmem)
      · simp at hmem
      · exact h.holds.shared.notNull hmem
  · trivial
  · intro u hu hholds hapart
    rw [hstage] at hapart
    have hne : ∀ pos, (s.stage u).Pushes pos ∨ (s.stage u).Takes pos → pos ≠ next := by
      rintro pos hpos rfl
      exact hapart pos (.inl rfl) hpos
    refine ⟨hholds.change rfl (fun pos hp hw he => ⟨hw, ?_⟩) fun pos hp hw _ => ⟨hw, ?_⟩, fun pos hpos => ?_⟩
    · simp only [Function.update_of_ne (hne pos (.inl hp))]
      exact he
    · simp only [Function.update_of_ne (hne pos (.inr hp))]
    · exact hpos.elim False.elim False.elim
  · intro pos hpos _ hothers
    by_cases hpn : pos = next
    · rw [hpn]
      simp only [Function.update_self]
      rfl
    · simp only [Function.update_of_ne hpn]
      refine h.covered.filled_of hpos (fun hp => hpn ?_) hothers
      rw [hstage] at hp
      exact hp
  · intro pos hpos _ hothers
    by_cases hpn : pos = next
    · rw [hpn]
      exact hold
    · simp only [Function.update_of_ne hpn] at hpos
      refine h.covered.fetched_of hpos (fun hp => ?_) hothers
      rw [hstage] at hp
      exact hp

/-- **A consumer empties its slot.** -/
theorem Inv.clear (h : Inv s) {elem : Option α} {next : Nat} (hstage : s.stage t = .popTaken next elem) :
    Inv (s.turn t
      { shared := { s.shared with elems := Function.update s.shared.elems next none }
        stage := .idle
        returned := [.popped (.ok elem)] }) := by
  obtain ⟨hnot, hfull, rfl⟩ : ¬ Waiting s.shared next ∧ (s.shared.elems next).isSome = true ∧
      s.shared.elems next = elem := by
    have := h.holds.each t
    rwa [hstage] at this
  have hbounds := h.holds.shared.toBounds
  obtain ⟨elem, helem⟩ := Option.isSome_iff_exists.mp hfull
  have hlt : next < s.shared.capacity := by
    by_contra hge
    rw [hbounds.beyond next (by omega)] at helem
    cases helem
  apply h.turn t
  · refine ⟨⟨hbounds.head, hbounds.tail, fun pos hpos => ?_⟩, ?_, ?_⟩
    · simp only at hpos ⊢
      rw [Function.update_of_ne (by omega)]
      exact hbounds.beyond pos hpos
    · have hstored := stored_erase s.shared hlt helem
      have haccount := h.holds.shared.account
      rw [helem]
      calc pushedOf ([.popped (.ok (some elem))] ++ s.log) = pushedOf s.log := rfl
        List.Perm _ (poppedOf s.log ++ stored s.shared) := haccount
        List.Perm _ (poppedOf s.log ++ elem :: stored
          { s.shared with elems := Function.update s.shared.elems next none }) := hstored.append_left _
        List.Perm _ _ := List.perm_middle
    · rw [List.mem_append, helem]
      rintro (hmem | hmem)
      · simp at hmem
      · exact h.holds.shared.notNull hmem
  · trivial
  · intro u hu hholds hapart
    rw [hstage] at hapart
    have hne : ∀ pos, (s.stage u).Pushes pos ∨ (s.stage u).Takes pos → pos ≠ next := by
      rintro pos hpos rfl
      exact hapart pos (.inr rfl) hpos
    refine ⟨hholds.change rfl (fun pos hp hw he => ⟨hw, ?_⟩) fun pos hp hw _ => ⟨hw, ?_⟩, fun pos hpos => ?_⟩
    · simp only [Function.update_of_ne (hne pos (.inl hp))]
      exact he
    · simp only [Function.update_of_ne (hne pos (.inr hp))]
    · exact hpos.elim False.elim False.elim
  · intro pos hpos _ hothers
    have hpn : pos ≠ next := fun heq => hnot (heq ▸ hpos)
    simp only [Function.update_of_ne hpn]
    refine h.covered.filled_of hpos (fun hp => ?_) hothers
    rw [hstage] at hp
    exact hp
  · intro pos hpos _ hothers
    by_cases hpn : pos = next
    · simp only [hpn, Function.update_self] at hpos
      cases hpos
    · simp only [Function.update_of_ne hpn] at hpos
      refine h.covered.fetched_of hpos (fun hp => hpn ?_) hothers
      rw [hstage] at hp
      exact hp

/-! ## (5) The other turns -/

/-- The call has not reserved a slot. -/
def Stage.Free (stage : Stage α) : Prop := ∀ pos, ¬ (stage.Pushes pos ∨ stage.Takes pos)

/-- **A turn of a call that has not reserved a slot and reserves none.** -/
theorem Inv.turn_free (h : Inv s) {old : Stage α} (hstage : s.stage t = old) (hold : old.Free) {stage : Stage α}
    (hnew : stage.Free) {returned : List (Answer α)} (hA : CallHolds s.shared s.log stage)
    (hreturned : Refusals returned) : Inv (s.turn t { shared := s.shared, stage, returned }) := by
  subst hstage
  refine h.turn_local t hreturned hA (fun pos => ?_) fun pos => ?_
  · exact iff_of_false (fun hp => hnew pos (.inl hp)) fun hp => hold pos (.inl hp)
  · exact iff_of_false (fun hp => hnew pos (.inr hp)) fun hp => hold pos (.inr hp)

/-- A turn of a call that keeps the slot it has reserved. -/
theorem Inv.turn_reserved (h : Inv s) {old stage : Stage α} (hstage : s.stage t = old)
    (hA : CallHolds s.shared s.log stage) (hpushes : ∀ pos, stage.Pushes pos ↔ old.Pushes pos)
    (htakes : ∀ pos, stage.Takes pos ↔ old.Takes pos) : Inv (s.turn t { shared := s.shared, stage }) := by
  subst hstage
  exact h.turn_local t refusals_nil hA hpushes htakes

/-- A call starts where none is under way. -/
theorem advance_of_ne_idle (q : Queue α) {stage : Stage α} (hidle : stage ≠ .idle) {act : Act α}
    (hact : ∀ spurious, act ≠ .access spurious) : advance q stage act = { shared := q, stage } := by
  cases act with
  | push elem =>
      cases stage with
      | idle => exact absurd rfl hidle
      | _ => rfl
  | pop =>
      cases stage with
      | idle => exact absurd rfl hidle
      | _ => rfl
  | access spurious => exact absurd rfl (hact spurious)

theorem Stage.free_pushing (elem : α) : (Stage.pushing elem).Free := fun _ hp => hp.elim id id

theorem Stage.free_popping : (Stage.popping : Stage α).Free := fun _ hp => hp.elim id id

theorem Stage.free_idle : (Stage.idle : Stage α).Free := fun _ hp => hp.elim id id

/-! ## (6) Runs -/

/-- **A call starts**, or one is under way already. -/
theorem Inv.call (h : Inv s) (t : ι) {act : Act α} (hact : ∀ spurious, act ≠ .access spurious) :
    Inv (s.step ⟨t, act⟩) := by
  rw [Race.step]
  by_cases hidle : s.stage t = .idle
  · rw [hidle]
    cases act with
    | push elem => exact h.turn_free hidle Stage.free_idle (Stage.free_pushing elem) trivial refusals_nil
    | pop => exact h.turn_free hidle Stage.free_idle Stage.free_popping trivial refusals_nil
    | access spurious => exact absurd rfl (hact spurious)
  · rw [advance_of_ne_idle s.shared hidle hact]
    exact h.turn_reserved rfl (h.holds.each t) (fun _ => Iff.rfl) fun _ => Iff.rfl

/-- `knd_queue_push` loads `head_pos`. -/
theorem Inv.pushTail (h : Inv s) {elem : α} {tail : Nat} (hstage : s.stage t = .pushTail elem tail) (spurious : Bool) :
    Inv (s.turn t (advance s.shared (.pushTail elem tail) (.access spurious))) := by
  have hfree : (Stage.pushTail elem tail).Free := fun _ hp => hp.elim id id
  have hfull : Refusals [Answer.pushed elem (.error .limit)] := ⟨rfl, rfl, by simp⟩
  have hready : ∀ next, next = bump s.shared.capacity tail →
      Inv (s.turn t { shared := s.shared, stage := .pushReady elem tail next }) := fun next hnext =>
    h.turn_free hstage hfree (fun _ hp => hp.elim id id) hnext refusals_nil
  rw [advance]
  split
  · exact h.turn_free hstage hfree Stage.free_idle trivial hfull
  · split
    · rename_i hend
      split
      · exact h.turn_free hstage hfree Stage.free_idle trivial hfull
      · exact hready 0 (by rw [bump, if_pos hend])
    · rename_i hend
      exact hready (tail + 1) (by rw [bump, if_neg hend])

/-- **One access** keeps the invariant if its exchange fits. -/
theorem Inv.access (h : Inv s) {spurious : Bool} (hfits : s.Fits ⟨t, .access spurious⟩) :
    Inv (s.step ⟨t, .access spurious⟩) := by
  have hcall := h.holds.each t
  rw [Race.Fits] at hfits
  rw [Race.step]
  cases hstage : s.stage t with
  | idle => exact h.turn_free hstage Stage.free_idle Stage.free_idle trivial refusals_nil
  | pushing elem =>
      exact h.turn_free hstage (Stage.free_pushing elem) (fun _ hp => hp.elim id id) trivial refusals_nil
  | pushTail elem tail => exact h.pushTail hstage spurious
  | pushReady elem tail next =>
      have hfree : (Stage.pushReady elem tail next).Free := fun _ hp => hp.elim id id
      rw [hstage] at hcall hfits
      rw [advance]
      split
      · rename_i hexchange
        obtain ⟨hlt, hhead, hempty⟩ := hfits hexchange
        exact h.reserve (hstage ▸ hfree) (by rw [hexchange.2]; exact hcall) hlt hhead hempty
      · exact h.turn_free hstage hfree (Stage.free_pushing elem) trivial refusals_nil
  | pushReserved elem next =>
      rw [hstage] at hcall
      simp only [advance, hcall.2]
      exact h.turn_reserved hstage hcall (fun _ => Iff.rfl) fun _ => Iff.rfl
  | pushChecked elem next => exact h.store hstage
  | popping => exact h.turn_free hstage Stage.free_popping (fun _ hp => hp.elim id id) trivial refusals_nil
  | popTail tail =>
      have hfree : (Stage.popTail tail : Stage α).Free := fun _ hp => hp.elim id id
      rw [advance]
      split
      · exact h.turn_free hstage hfree Stage.free_idle trivial ⟨rfl, rfl, by simp⟩
      · exact h.turn_free hstage hfree (fun _ hp => hp.elim id id) rfl refusals_nil
  | popReady head next =>
      have hfree : (Stage.popReady head next : Stage α).Free := fun _ hp => hp.elim id id
      rw [hstage] at hcall hfits
      rw [advance]
      split
      · rename_i hexchange
        obtain ⟨htail, hfull⟩ := hfits hexchange
        exact h.take (hstage ▸ hfree) (by rw [hexchange.2]; exact hcall) htail hfull
      · exact h.turn_free hstage hfree Stage.free_popping trivial refusals_nil
  | popReserved next =>
      rw [hstage] at hcall
      obtain ⟨elem, helem⟩ := Option.isSome_iff_exists.mp hcall.2
      simp only [advance, helem]
      exact h.turn_reserved hstage hcall (fun _ => Iff.rfl) fun _ => Iff.rfl
  | popChecked next =>
      rw [hstage] at hcall
      exact h.turn_reserved hstage ⟨hcall.1, hcall.2, rfl⟩ (fun _ => Iff.rfl) fun _ => Iff.rfl
  | popTaken next elem => exact h.clear hstage

/-- **The invariant is kept** by every turn whose exchange fits. -/
theorem inv_step (s : Race ι α) (e : Turn ι α) (h : Inv s) (hfits : s.Fits e) : Inv (s.step e) := by
  obtain ⟨t, act⟩ := e
  cases act with
  | push elem => exact h.call t fun _ heq => by cases heq
  | pop => exact h.call t fun _ heq => by cases heq
  | access spurious => exact h.access hfits

/-- The invariant along a list of turns that fit. -/
theorem Inv.foldl {es : List (Turn ι α)} (h : Inv s) (hall : AllAllowed Race.step Race.Fits s es) :
    Inv (es.foldl Race.step s) := by
  induction es generalizing s with
  | nil => exact h
  | cons e es ih => exact ih (inv_step s e h hall.1) hall.2

/-! ### A pop with nobody in its way -/

/-- **It takes the element after the head.** -/
theorem foldl_popAlone {elem : α} (hidle : s.stage t = .idle) (hne : s.shared.tailPos ≠ s.shared.headPos)
    (hfull : s.shared.elems (bump s.shared.capacity s.shared.headPos) = some elem) :
    (popAlone t).foldl Race.step s =
      { shared :=
          { s.shared with
            headPos := bump s.shared.capacity s.shared.headPos
            elems := Function.update s.shared.elems (bump s.shared.capacity s.shared.headPos) none }
        stage := s.stage
        log := .popped (.ok (some elem)) :: s.log } := by
  have hstage : Function.update s.stage t .idle = s.stage := by
    rw [← hidle, Function.update_eq_self]
  simp [popAlone, List.replicate, Race.step, advance, Threads.turn, hidle, hne, hfull, hstage]

/-- Its exchange fits. -/
theorem allAllowed_popAlone {elem : α} (hidle : s.stage t = .idle) (hne : s.shared.tailPos ≠ s.shared.headPos)
    (hfull : s.shared.elems (bump s.shared.capacity s.shared.headPos) = some elem) :
    AllAllowed Race.step Race.Fits s (popAlone t) := by
  simp [popAlone, List.replicate, AllAllowed, Race.step, Race.Fits, advance, Threads.turn, hidle, hne, hfull,
    Ne.symm hne]

omit [DecidableEq ι] in
/-- When no call is under way and an element is left, the slot after the head has one. -/
theorem Inv.next_filled (h : Inv s) (hidle : ∀ t, s.stage t = .idle) (hleft : stored s.shared ≠ []) :
    s.shared.tailPos ≠ s.shared.headPos ∧
      ∃ elem, s.shared.elems (bump s.shared.capacity s.shared.headPos) = some elem := by
  have hbounds := h.holds.shared.toBounds
  obtain ⟨elem, hmem⟩ := List.exists_mem_of_ne_nil _ hleft
  obtain ⟨pos, hpos, helem⟩ := List.mem_filterMap.mp hmem
  have hcap : s.shared.capacity ≠ 0 := by
    have := List.mem_range.mp hpos
    omega
  have hwaiting : Waiting s.shared pos := by
    rcases h.covered.fetched pos (by rw [helem]; rfl) with hw | ⟨t, ht⟩
    · exact hw
    · rw [hidle t] at ht
      exact ht.elim
  have hne : s.shared.headPos ≠ s.shared.tailPos := fun heq => not_waiting_of_eq hbounds heq pos hwaiting
  refine ⟨hne.symm, ?_⟩
  rcases h.covered.filled _ (waiting_bump hbounds hcap hne) with hfull | ⟨t, ht⟩
  · exact Option.isSome_iff_exists.mp hfull
  · rw [hidle t] at ht
    exact ht.elim

/-- **As many pops as there are elements return them all**, when no call is under way. -/
theorem Inv.drain (h : Inv s) (hidle : ∀ t, s.stage t = .idle) (t : ι) {n : Nat}
    (hn : (stored s.shared).length = n) :
    (pushedOf s.log).Perm (poppedOf (((List.replicate n (popAlone t)).flatten).foldl Race.step s).log) := by
  induction n generalizing s with
  | zero =>
      have haccount := h.holds.shared.account
      rw [List.length_eq_zero_iff.mp hn, List.append_nil] at haccount
      exact haccount
  | succ n ih =>
      have hleft : stored s.shared ≠ [] := by
        intro hnil
        rw [hnil] at hn
        cases hn
      obtain ⟨hne, elem, hfull⟩ := h.next_filled hidle hleft
      have hinv := h.foldl (allAllowed_popAlone (hidle t) hne hfull)
      have hlt : bump s.shared.capacity s.shared.headPos < s.shared.capacity := by
        by_contra hge
        rw [h.holds.shared.beyond _ (by omega)] at hfull
        cases hfull
      rw [List.replicate_succ, List.flatten_cons, List.foldl_append]
      rw [foldl_popAlone (hidle t) hne hfull] at hinv ⊢
      have hlength := (stored_erase s.shared hlt hfull).length_eq
      rw [List.length_cons, hn, Nat.add_right_cancel_iff] at hlength
      exact ih hinv hidle hlength.symm

omit [DecidableEq ι] in
/-- A new queue. -/
theorem inv_start (capacity : Nat) : Inv (Race.start ι α capacity) := by
  have hnone : ∀ l : List Nat, l.filterMap (fun _ => (none : Option α)) = [] := by
    intro l
    induction l with
    | nil => rfl
    | cons i l ih => exact ih
  have hstored : stored (Race.start ι α capacity).shared = [] := hnone _
  refine ⟨⟨⟨⟨fun h => Nat.pos_of_ne_zero h, fun h => Nat.pos_of_ne_zero h, fun _ _ => rfl⟩, ?_,
    List.not_mem_nil⟩, fun _ => trivial, fun _ _ _ pos hpos => hpos.elim False.elim False.elim⟩,
    fun pos hpos => ?_, fun pos hpos => ?_⟩
  · rw [hstored]
    exact List.Perm.nil
  · refine absurd hpos (not_waiting_of_eq ⟨fun h => Nat.pos_of_ne_zero h, fun h => Nat.pos_of_ne_zero h,
      fun _ _ => rfl⟩ rfl pos)
  · cases hpos

/-- **The queue loses and duplicates nothing** in every run, of any number of threads on a queue of any capacity,
in which each producer reserves an empty slot that is not the head, and each consumer a filled slot of a queue that
is not empty. -/
theorem lossless_of_fits (capacity : Nat) {s : Race ι α}
    (h : Reaches Race.step Race.Fits (Race.start ι α capacity) s) : Lossless s := by
  have hinv : Inv s := h.invariant (inv_start capacity) inv_step
  exact ⟨hinv.holds.shared.account, hinv.holds.shared.notNull, fun hidle t => hinv.drain hidle t rfl⟩

/-! ### A queue of three slots -/

instance decidableFits [DecidableEq α] (s : Race ι α) (e : Turn ι α) : Decidable (s.Fits e) := by
  unfold Race.Fits
  split <;> infer_instance

/-- One thread pushes. -/
def pushAlone (t : ι) (elem : α) : List (Turn ι α) := ⟨t, .push elem⟩ :: List.replicate 5 ⟨t, .access false⟩

/-- One thread pushes while another one pops, access by access. -/
def together (t u : ι) (elem : α) : List (Turn ι α) :=
  ⟨t, .push elem⟩ :: ⟨u, .pop⟩ :: (List.replicate 6 [⟨t, .access false⟩, ⟨u, .access false⟩]).flatten

/-- Two threads push and pop at the same time, and change their parts before the last push goes beyond the end of the
ring. -/
def wrapped : List (Turn Bool Nat) :=
  pushAlone true 7 ++ together true false 8 ++ together false true 9 ++ popAlone false

/-- Nothing is lost where the ring wraps around. -/
theorem lossless_of_fits_wrapped : Lossless (wrapped.foldl Race.step (Race.start Bool Nat 3)) :=
  lossless_of_fits 3 (Reaches.refl.foldl (by decide +kernel))

/-- A producer reserves a slot, a consumer takes it, and the producer fills it. -/
def overtaken : List (Turn Bool Nat) :=
  ⟨true, .push 7⟩ :: List.replicate 3 ⟨true, .access false⟩ ++
    ⟨false, .pop⟩ :: List.replicate 4 ⟨false, .access false⟩ ++ List.replicate 2 ⟨true, .access false⟩

/-- **The element is stranded**: its push returned `knd_OK`, and no pop returns it. -/
theorem not_lossless_overtaken : ¬ Lossless (overtaken.foldl Race.step (Race.start Bool Nat 4)) := by
  intro h
  have hidle : ∀ t, (overtaken.foldl Race.step (Race.start Bool Nat 4)).stage t = .idle := by decide +kernel
  have hlength := (h.retrievable hidle false).length_eq
  revert hlength
  decide +kernel
end TaskQueue

end Knowdy
