import Knowdy.Lib.Charges
import Knowdy.Lib.Threads
import Knowdy.Utils

/-! # Classes and instances that are loaded when they are needed

Any number of calls of `knd_class_acquire` and `knd_class_inst_acquire`, interleaved between every two accesses: the
count of readers, the load of the pointer, the unmarshalling of a class of one's own, the exchange. A class that was
unmarshalled in vain is lost.

* `Entries`, `Stage`, `advance`, `Race.step` — the entries and the calls.
* `Contract` — what callers are promised; `contract_of_reaches` — the promise is kept.
* `idle_of_acquireAccesses` — a call returns after five accesses, or two when the class is there. -/

namespace Knowdy

namespace LazyLoads

variable {κ : Type}

/-! ## (1) The entries -/

/-- Class entries, or instance entries, with the memory pool. -/
structure Entries (κ : Type) where
  /-- `class` of an entry, or `inst`. -/
  object : κ → Option Nat := fun _ => none
  /-- `num_readers`. -/
  numReaders : κ → Nat := fun _ => 0
  /-- The next page of the memory pool. -/
  nextAddr : Nat := 0

namespace Entries

variable [DecidableEq κ] (self : Entries κ) (entry : κ)

/-- `atomic_fetch_add_explicit` of `num_readers`. -/
def addReader : Entries κ :=
  { self with numReaders := Function.update self.numReaders entry (self.numReaders entry + 1) }

/-- The pointer is set. -/
def publish (obj : Nat) : Entries κ := { self with object := Function.update self.object entry (some obj) }

/-- A page is taken. -/
def alloc : Entries κ := { self with nextAddr := self.nextAddr + 1 }

@[simp] theorem object_publish_self (obj : Nat) : (self.publish entry obj).object entry = some obj :=
  Function.update_self ..

@[simp] theorem object_publish_of_ne {entry' : κ} (h : entry' ≠ entry) (obj : Nat) :
    (self.publish entry obj).object entry' = self.object entry' :=
  Function.update_of_ne h ..

end Entries

/-! ## (2) The calls -/

/-- Where a call is. -/
inductive Stage (κ : Type) where
  | idle
  /-- Before the reader is counted. -/
  | called (entry : κ)
  /-- Before the pointer is loaded; `own` is the object that the call has unmarshalled. -/
  | entered (entry : κ) (own : Option Nat)
  /-- The pointer was null, before the unmarshalling. -/
  | missed (entry : κ)
  /-- Before the exchange. -/
  | ready (entry : κ) (own : Nat)

/-- What happens in a run. -/
inductive Done (κ : Type) where
  /-- A record is unmarshalled. -/
  | unmarshall (entry : κ) (rc : Except KndErr Nat)
  /-- A call returns. -/
  | acquire (entry : κ) (rc : Except KndErr Nat)

/-- An access that only moves the call on. -/
def goto (self : Entries κ) (stage : Stage κ) : Outcome (Entries κ) (Stage κ) (Done κ) := { shared := self, stage }

/-- The call returns the object of the entry. -/
def finish (self : Entries κ) (entry : κ) (obj : Nat) : Outcome (Entries κ) (Stage κ) (Done κ) where
  shared := self
  stage := .idle
  returned := [.acquire entry (.ok obj)]

variable [DecidableEq κ]

/-- **One access of `knd_class_acquire`** or `knd_class_inst_acquire`. `spurious` is for
`atomic_compare_exchange_weak`, which may fail for no reason, and `rc` for `knd_shared_set_unmarshall_elem`. -/
def advance (self : Entries κ) (spurious : Bool) (rc : Except KndErr Unit) :
    Stage κ → Outcome (Entries κ) (Stage κ) (Done κ)
  | .idle => goto self .idle
  | .called entry => goto (self.addReader entry) (.entered entry none)
  | .entered entry own =>
      match self.object entry with
      | some obj => finish self entry obj
      | none =>
          match own with
          | none => goto self (.missed entry)
          | some obj => goto self (.ready entry obj)
  | .missed entry =>
      match rc with
      | .error e =>
          { shared := self, stage := .idle, returned := [.acquire entry (.error e), .unmarshall entry (.error e)] }
      | .ok _ =>
          { shared := self.alloc, stage := .ready entry self.nextAddr,
            returned := [.unmarshall entry (.ok self.nextAddr)] }
  | .ready entry own =>
      if spurious = false ∧ self.object entry = none then finish (self.publish entry own) entry own
      else goto self (.entered entry (some own))

/-! ## (3) Runs -/

variable {ι : Type} [DecidableEq ι]

/-- The entries, the calls of the threads `ι`, and what has happened. -/
abbrev Race (ι κ : Type) := Threads ι (Entries κ) (Stage κ) (Done κ)

/-- A call starts, or makes an access. -/
inductive AcquireEvent (ι κ : Type) where
  | call (t : ι) (entry : κ)
  | access (t : ι) (spurious : Bool) (rc : Except KndErr Unit)

/-- One event. A thread that is in a call starts no other one. -/
def Race.step (s : Race ι κ) : AcquireEvent ι κ → Race ι κ
  | .call t entry =>
      match s.stage t with
      | .idle => s.turn t (goto s.shared (.called entry))
      | _ => s
  | .access t spurious rc => s.turn t (advance s.shared spurious rc (s.stage t))

/-- Entries that were read from a snapshot. -/
def Race.start : Race ι κ := { shared := {}, stage := fun _ => .idle }

/-! ## (4) What callers are promised -/

/-- **What callers are promised.** -/
structure Contract (s : Race ι κ) : Prop where
  /-- All calls for an entry that succeed are given one object, and the entry keeps it. -/
  same : ∀ entry obj, .acquire entry (.ok obj) ∈ s.log → s.shared.object entry = some obj
  /-- The object of an entry was unmarshalled for it. -/
  own : ∀ entry obj, s.shared.object entry = some obj → .unmarshall entry (.ok obj) ∈ s.log
  /-- It is the object of no other entry. -/
  apart : ∀ entry entry' obj, s.shared.object entry = some obj → s.shared.object entry' = some obj → entry = entry'
  /-- A call fails only when its own record cannot be unmarshalled. -/
  failed : ∀ entry e, .acquire entry (.error e) ∈ s.log → .unmarshall entry (.error e) ∈ s.log

/-- **What is known of the entries.** -/
structure Known (entries : Entries κ) (log : List (Done κ)) : Prop where
  same : ∀ entry obj, .acquire entry (.ok obj) ∈ log → entries.object entry = some obj
  own : ∀ entry obj, entries.object entry = some obj → .unmarshall entry (.ok obj) ∈ log
  failed : ∀ entry e, .acquire entry (.error e) ∈ log → .unmarshall entry (.error e) ∈ log
  /-- Objects are on pages of their own. -/
  pages : ∀ entry obj, .unmarshall entry (.ok obj) ∈ log → obj < entries.nextAddr
  once : ∀ entry entry' obj, .unmarshall entry (.ok obj) ∈ log → .unmarshall entry' (.ok obj) ∈ log → entry = entry'

/-- **What is known of a call**: its object was unmarshalled for its entry. -/
def CallHolds (_ : Entries κ) (log : List (Done κ)) : Stage κ → Prop
  | .entered entry (some own) | .ready entry own => .unmarshall entry (.ok own) ∈ log
  | _ => True

omit [DecidableEq κ] in
/-- What has happened stays so. -/
theorem CallHolds.mono {entries entries' : Entries κ} {log : List (Done κ)} {stage : Stage κ}
    (h : CallHolds entries log stage) (new : List (Done κ)) : CallHolds entries' (new ++ log) stage := by
  cases stage with
  | entered entry own =>
      cases own with
      | none => trivial
      | some obj => exact List.mem_append_right new h
  | ready entry own => exact List.mem_append_right new h
  | _ => trivial

/-! ## (5) The accesses keep what is known -/

namespace Known

variable {entries : Entries κ} {log : List (Done κ)} {entry : κ} {obj : Nat}

theorem addReader (h : Known entries log) (entry : κ) : Known (entries.addReader entry) log :=
  ⟨h.same, h.own, h.failed, h.pages, h.once⟩

omit [DecidableEq κ] in
/-- A call is given the object that is there. -/
theorem acquired (h : Known entries log) (hobj : entries.object entry = some obj) :
    Known entries (.acquire entry (.ok obj) :: log) where
  same entry' obj' hmem := by
    rcases List.mem_cons.mp hmem with heq | hmem
    · cases heq
      exact hobj
    · exact h.same entry' obj' hmem
  own entry' obj' hobj' := List.mem_cons_of_mem _ (h.own entry' obj' hobj')
  failed entry' e hmem := by
    rcases List.mem_cons.mp hmem with heq | hmem
    · cases heq
    · exact List.mem_cons_of_mem _ (h.failed entry' e hmem)
  pages entry' obj' hmem := by
    rcases List.mem_cons.mp hmem with heq | hmem
    · cases heq
    · exact h.pages entry' obj' hmem
  once a b obj' ha hb := by
    rcases List.mem_cons.mp ha with heq | ha
    · cases heq
    · rcases List.mem_cons.mp hb with heq | hb
      · cases heq
      · exact h.once a b obj' ha hb

omit [DecidableEq κ] in
/-- A record is refused. -/
theorem refused (h : Known entries log) (entry : κ) (e : KndErr) :
    Known entries (.acquire entry (.error e) :: .unmarshall entry (.error e) :: log) where
  same entry' obj' hmem := h.same entry' obj' (by simpa using hmem)
  own entry' obj' hobj' := List.mem_cons_of_mem _ (List.mem_cons_of_mem _ (h.own entry' obj' hobj'))
  failed entry' e' hmem := by
    have hmem' : entry' = entry ∧ e' = e ∨ .acquire entry' (.error e') ∈ log := by simpa using hmem
    rcases hmem' with ⟨rfl, rfl⟩ | hmem'
    · simp
    · exact List.mem_cons_of_mem _ (List.mem_cons_of_mem _ (h.failed entry' e' hmem'))
  pages entry' obj' hmem := h.pages entry' obj' (by simpa using hmem)
  once a b obj' ha hb := h.once a b obj' (by simpa using ha) (by simpa using hb)

omit [DecidableEq κ] in
/-- **A record is unmarshalled** on a page of its own. -/
theorem unmarshalled (h : Known entries log) (entry : κ) :
    Known entries.alloc (.unmarshall entry (.ok entries.nextAddr) :: log) where
  same entry' obj' hmem := h.same entry' obj' (by simpa using hmem)
  own entry' obj' hobj' := List.mem_cons_of_mem _ (h.own entry' obj' hobj')
  failed entry' e hmem := List.mem_cons_of_mem _ (h.failed entry' e (by simpa using hmem))
  pages entry' obj' hmem := by
    rcases List.mem_cons.mp hmem with heq | hmem
    · cases heq
      exact Nat.lt_succ_self _
    · exact Nat.lt_succ_of_lt (h.pages entry' obj' hmem)
  once a b obj' ha hb := by
    rcases List.mem_cons.mp ha with hnew | ha
    · rcases List.mem_cons.mp hb with hnew' | hb
      · cases hnew
        cases hnew'
        rfl
      · -- the page is new
        cases hnew
        exact absurd (h.pages b _ hb) (Nat.lt_irrefl _)
    · rcases List.mem_cons.mp hb with hnew' | hb
      · cases hnew'
        exact absurd (h.pages a _ ha) (Nat.lt_irrefl _)
      · exact h.once a b obj' ha hb

/-- **An object is published.** -/
theorem publish (h : Known entries log) (hnone : entries.object entry = none)
    (hown : .unmarshall entry (.ok obj) ∈ log) : Known (entries.publish entry obj) log where
  same entry' obj' hmem := by
    have hobj := h.same entry' obj' hmem
    have hne : entry' ≠ entry := by
      rintro rfl
      rw [hnone] at hobj
      cases hobj
    rw [Entries.object_publish_of_ne entries entry hne]
    exact hobj
  own entry' obj' hobj' := by
    by_cases heq : entry' = entry
    · subst heq
      rw [Entries.object_publish_self] at hobj'
      cases hobj'
      exact hown
    · rw [Entries.object_publish_of_ne entries entry heq] at hobj'
      exact h.own entry' obj' hobj'
  failed := h.failed
  pages := h.pages
  once := h.once

end Known

/-- **An access keeps what is known.** -/
theorem known_advance {entries : Entries κ} {log : List (Done κ)} (h : Known entries log) {stage : Stage κ}
    (hcall : CallHolds entries log stage) (spurious : Bool) (rc : Except KndErr Unit) :
    Known (advance entries spurious rc stage).shared ((advance entries spurious rc stage).returned ++ log) ∧
      CallHolds (advance entries spurious rc stage).shared ((advance entries spurious rc stage).returned ++ log)
        (advance entries spurious rc stage).stage := by
  cases stage with
  | idle => exact ⟨h, trivial⟩
  | called entry => exact ⟨h.addReader entry, trivial⟩
  | entered entry own =>
      cases hobj : entries.object entry with
      | some obj =>
          simp only [advance, hobj]
          exact ⟨h.acquired hobj, trivial⟩
      | none =>
          simp only [advance, hobj]
          cases own with
          | none => exact ⟨h, trivial⟩
          | some obj => exact ⟨h, hcall⟩
  | missed entry =>
      cases rc with
      | error e => exact ⟨h.refused entry e, trivial⟩
      | ok => exact ⟨h.unmarshalled entry, List.mem_cons_self ..⟩
  | ready entry own =>
      by_cases hcas : spurious = false ∧ entries.object entry = none
      · simp only [advance, if_pos hcas]
        have hpublished := h.publish hcas.2 hcall
        exact ⟨hpublished.acquired (Function.update_self ..), trivial⟩
      · simp only [advance, if_neg hcas]
        exact ⟨h, hcall⟩

section Runs

variable {s : Race ι κ}

/-- What is known of the entries and of all calls. -/
abbrev Race.Sure (s : Race ι κ) : Prop := s.Holds Known CallHolds fun _ _ => True

/-- An event keeps it. -/
theorem Race.sure_step (h : s.Sure) (e : AcquireEvent ι κ) : Race.Sure (s.step e) := by
  cases e with
  | call t entry =>
      simp only [Race.step]
      split
      · refine Threads.Holds.turn h (fun _ _ _ => trivial) h.shared trivial fun u _ hu _ => ⟨hu, trivial⟩
      · exact h
  | access t spurious rc =>
      obtain ⟨hknown, hcall⟩ := known_advance h.shared (h.each t) spurious rc
      exact Threads.Holds.turn h (fun _ _ _ => trivial) hknown hcall fun u _ hu _ => ⟨hu.mono _, trivial⟩

omit [DecidableEq ι] [DecidableEq κ] in
theorem sure_start : (Race.start : Race ι κ).Sure := by
  refine ⟨⟨?_, ?_, ?_, ?_, ?_⟩, fun _ => trivial, fun _ _ _ => trivial⟩
  · exact fun _ _ h => absurd h List.not_mem_nil
  · exact fun _ _ h => by cases h
  · exact fun _ _ h => absurd h List.not_mem_nil
  · exact fun _ _ h => absurd h List.not_mem_nil
  · exact fun _ _ _ h => absurd h List.not_mem_nil

/-- **The entries keep their promise** in every interleaving. -/
theorem contract_of_acquires (hrun : Reaches Race.step (fun _ _ => True) (Race.start : Race ι κ) s) : Contract s := by
  have hsure : s.Sure := hrun.invariant sure_start fun _ e h _ => Race.sure_step h e
  have hknown : Known s.shared s.log := hsure.shared
  refine ⟨hknown.same, hknown.own, fun entry entry' obj h h' => ?_, hknown.failed⟩
  exact hknown.once entry entry' obj (hknown.own entry obj h) (hknown.own entry' obj h')

/-- Two calls unmarshal one class; the second exchange finds the class of the first call. -/
def bothLoad : List (AcquireEvent Bool Nat) :=
  List.replicate 4 (.access true false (.ok ())) ++ [.call false 7] ++
    List.replicate 4 (.access false false (.ok ())) ++ List.replicate 2 (.access true false (.ok ()))

theorem contract_of_acquires_bothLoad :
    Contract (bothLoad.foldl Race.step ((Race.start : Race Bool Nat).step (.call true 7))) :=
  contract_of_acquires ((Reaches.refl.next trivial).foldl (allAllowed_of_forall (fun _ _ => trivial) _))

/-! ## (6) Calls return -/

/-- **How many accesses a call still makes** at most, unless an exchange fails for no reason. -/
def Stage.due (entries : Entries κ) : Stage κ → Nat
  | .idle => 0
  | .called entry => if (entries.object entry).isSome then 2 else 5
  | .entered entry own => if (entries.object entry).isSome then 1 else if own.isSome then 3 else 4
  | .missed _ => 3
  | .ready _ _ => 2

omit [DecidableEq κ] in
/-- A call that has nothing left to do has returned. -/
theorem Stage.idle_of_due {entries : Entries κ} {stage : Stage κ} (h : stage.due entries = 0) : stage = .idle := by
  cases stage with
  | idle => rfl
  | called entry =>
      simp only [due] at h
      split_ifs at h
  | entered entry own =>
      simp only [due] at h
      split_ifs at h
  | _ => cases h

/-- An object that is there stays there. -/
theorem isSome_advance {entries : Entries κ} {entry : κ} (h : (entries.object entry).isSome) (spurious : Bool)
    (rc : Except KndErr Unit) (stage : Stage κ) :
    ((advance entries spurious rc stage).shared.object entry).isSome := by
  cases stage with
  | idle => exact h
  | called entry' => exact h
  | entered entry' own =>
      simp only [advance]
      split
      · exact h
      · split
        · exact h
        · exact h
  | missed entry' =>
      cases rc with
      | error e => exact h
      | ok => exact h
  | ready entry' own =>
      simp only [advance]
      split
      · by_cases heq : entry = entry'
        · subst heq
          simp [finish]
        · simpa [finish, heq] using h
      · exact h

omit [DecidableEq κ] in
/-- **The accesses of other calls add nothing**: an object that they publish spares the call its own. -/
theorem due_of_kept {entries entries' : Entries κ}
    (hkept : ∀ entry, (entries.object entry).isSome → (entries'.object entry).isSome) (stage : Stage κ) :
    stage.due entries' ≤ stage.due entries := by
  cases stage with
  | called entry =>
      by_cases hsome : (entries.object entry).isSome
      · simp [Stage.due, hsome, hkept entry hsome]
      · rw [Stage.due, Stage.due, if_neg hsome]
        split_ifs <;> omega
  | entered entry own =>
      by_cases hsome : (entries.object entry).isSome
      · simp [Stage.due, hsome, hkept entry hsome]
      · rw [Stage.due, Stage.due, if_neg hsome]
        split_ifs <;> omega
  | _ => exact Nat.le_refl _

/-- **An access of a call leaves less to be done**, up to one exchange more when it fails for no reason. -/
theorem due_advance (entries : Entries κ) {stage : Stage κ} (hbusy : stage ≠ .idle) (spurious : Bool)
    (rc : Except KndErr Unit) :
    (advance entries spurious rc stage).stage.due (advance entries spurious rc stage).shared + 1 ≤
      stage.due entries + if spurious then 2 else 0 := by
  cases stage with
  | idle => exact absurd rfl hbusy
  | called entry =>
      simp only [advance, goto, Stage.due, Entries.addReader]
      split_ifs <;> simp_all
  | entered entry own =>
      cases hobj : entries.object entry with
      | some obj => simp [advance, hobj, finish, Stage.due]
      | none =>
          cases own with
          | none => simp [advance, hobj, goto, Stage.due]
          | some obj => simp [advance, hobj, goto, Stage.due]
  | missed entry =>
      cases rc with
      | error e =>
          simp only [advance, Stage.due]
          omega
      | ok =>
          simp only [advance, Stage.due]
          omega
  | ready entry own =>
      by_cases hcas : spurious = false ∧ entries.object entry = none
      · simp only [advance, if_pos hcas, finish, Stage.due]
        omega
      · simp only [advance, if_neg hcas, goto, Stage.due]
        cases spurious with
        | true =>
            simp only [if_true]
            split_ifs <;> simp_all
        | false =>
            -- another call has published its object
            have hsome : (entries.object entry).isSome := Option.isSome_iff_ne_none.mpr fun hnone => hcas ⟨rfl, hnone⟩
            simp [hsome]

/-- The accesses of a thread. -/
def AcquireEvent.accesses (t : ι) : AcquireEvent ι κ → Nat
  | .call _ _ => 0
  | .access u _ _ => if u = t then 1 else 0

/-- The accesses of a thread whose exchange fails for no reason. -/
def AcquireEvent.misses (t : ι) : AcquireEvent ι κ → Nat
  | .call _ _ => 0
  | .access u spurious _ => if u = t ∧ spurious = true then 1 else 0

section Step

variable {t : ι} {e : AcquireEvent ι κ}

/-- A turn of the thread, or none. -/
theorem stage_step (s : Race ι κ) (he : ∀ entry, e ≠ .call t entry) :
    ((s.step e).stage t = s.stage t ∧ e.accesses t = 0 ∧
        ∀ entry, (s.shared.object entry).isSome → ((s.step e).shared.object entry).isSome) ∨
      ∃ spurious rc, e = .access t spurious rc ∧
        (s.step e).stage t = (advance s.shared spurious rc (s.stage t)).stage ∧
        (s.step e).shared = (advance s.shared spurious rc (s.stage t)).shared := by
  cases e with
  | call u entry =>
      have hne : t ≠ u := fun h => he entry (by rw [h])
      refine .inl ?_
      simp only [Race.step]
      split
      · exact ⟨Threads.stage_turn_of_ne hne, rfl, fun _ h => h⟩
      · exact ⟨rfl, rfl, fun _ h => h⟩
  | access u spurious rc =>
      by_cases hut : t = u
      · subst hut
        exact .inr ⟨spurious, rc, rfl, Threads.stage_turn_self, rfl⟩
      · exact .inl ⟨Threads.stage_turn_of_ne hut, if_neg (Ne.symm hut), fun _ h => isSome_advance h ..⟩

/-- **An event pays** for the accesses of a call. -/
theorem due_step (s : Race ι κ) (he : ∀ entry, e ≠ .call t entry) (hbusy : s.stage t ≠ .idle) :
    ((s.step e).stage t).due (s.step e).shared + e.accesses t ≤ (s.stage t).due s.shared + 2 * e.misses t := by
  rcases stage_step s he with ⟨hstage, haccesses, hkept⟩ | ⟨spurious, rc, rfl, hstage, hshared⟩
  · have hdue := due_of_kept hkept (s.stage t)
    rw [hstage, haccesses]
    omega
  · have hadvance := due_advance s.shared hbusy spurious rc
    rw [hstage, hshared, AcquireEvent.accesses, AcquireEvent.misses, if_pos rfl]
    cases spurious with
    | true => simpa using hadvance
    | false => simpa using hadvance

/-- A thread that is in no call stays so. -/
theorem idle_step {s : Race ι κ} (he : ∀ entry, e ≠ .call t entry) (hidle : s.stage t = .idle) :
    (s.step e).stage t = .idle := by
  rcases stage_step s he with ⟨hstage, -, -⟩ | ⟨spurious, rc, -, hstage, -⟩
  · rw [hstage, hidle]
  · rw [hstage, hidle]
    rfl

end Step

/-- **A call returns**, whatever the other calls do: after five accesses, or two when the object is there, and two
more for each of its exchanges that fails for no reason. -/
theorem idle_of_acquireAccesses {s : Race ι κ} {t : ι} (hidle : s.stage t = .idle) (entry : κ)
    {es : List (AcquireEvent ι κ)} (hes : ∀ e ∈ es, ∀ entry, e ≠ .call t entry)
    (hmany : (if (s.shared.object entry).isSome then 2 else 5) + 2 * (es.map (AcquireEvent.misses t)).sum ≤
      (es.map (AcquireEvent.accesses t)).sum) :
    (es.foldl Race.step (s.step (.call t entry))).stage t = .idle := by
  have hcalled : s.step (.call t entry) = s.turn t (goto s.shared (.called entry)) := by
    simp only [Race.step, hidle]
  have hdue : ((s.step (.call t entry)).stage t).due (s.step (.call t entry)).shared =
      if (s.shared.object entry).isSome then 2 else 5 := by
    rw [hcalled, Threads.stage_turn_self]
    rfl
  have hpays : Pays Race.step (fun _ e => ∀ entry, e ≠ .call t entry) (fun _ : Race ι κ => True)
      (fun s => s.stage t = .idle) (fun s => (s.stage t).due s.shared) (fun _ => AcquireEvent.accesses t)
      (fun _ e => 2 * e.misses t) :=
    { keeps := fun _ _ _ _ => trivial
      stays := fun _ _ hidle he => idle_step he hidle
      pays := fun s _ _ he hbusy => due_step s he hbusy }
  refine hpays.rest_of_total_le (fun r hr => Stage.idle_of_due hr) trivial (allAllowed_of_forall hes _) ?_
  rw [hdue, total_mul, total_const, total_const]
  exact hmany

end Runs

theorem idle_of_acquireAccesses_bothLoad :
    (bothLoad.foldl Race.step ((Race.start : Race Bool Nat).step (.call true 7))).stage true = .idle := by
  refine idle_of_acquireAccesses rfl 7 (fun e he entry heq => ?_) (by decide)
  subst heq
  simp [bothLoad] at he

end LazyLoads

end Knowdy
