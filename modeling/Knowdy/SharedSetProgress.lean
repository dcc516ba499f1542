import Knowdy.Lib.Charges
import Knowdy.SharedSetRace

/-! # A call on the shared set returns

A call of `knd_shared_set_add` that loses an exchange finds the slot taken when it loads it again, since slots are
never emptied: it does not try the same exchange a third time. So the number of its accesses is bounded by the length
of its key, whatever the other calls do.

* `Stage.due` — how many accesses a call still makes at most, by what it finds in the next slot.
* `due_of_grows` — the accesses of other calls do not add to it; `due_advance` — its own make it smaller.
* `idle_of_addAccesses` — **a call returns after `3 · n + 1` accesses**, and two more for each exchange that fails for
  no reason, where `n` is the length of its key. -/

namespace Knowdy

namespace SetRace

open FolderHeap (Inv Grows Private)

variable {α : Type} {heap heap' : FolderHeap α}

/-! ## (1) What is still to be done -/

/-- The accesses for `n` characters of a key. -/
def fullCost (n : Nat) : Nat := 3 * n + 1

/-- **How many accesses a call still makes** at most, unless an exchange fails for no reason. -/
def Stage.due (heap : FolderHeap α) : Stage α → Nat
  | .idle => 0
  | .saving _ _ _ [] => 1
  | .saving _ _ parent (c :: id) =>
      match objIdBase c with
      | none => 1
      | some i =>
          if id ≠ [] then (if (heap.idxs parent i).isSome then 1 else 3) + fullCost id.length
          else if (heap.elems parent i).isSome then 1 else fullCost 1
  | .creating _ _ _ _ id _ => 2 + fullCost id.tail.length
  | .assigning _ _ _ _ _ => 3
  | .assigned _ _ => 2
  | .countedElem _ _ => 1

/-- A call that has nothing left to do has returned. -/
theorem Stage.idle_of_due {stage : Stage α} (h : stage.due heap = 0) : stage = .idle := by
  cases stage with
  | idle => rfl
  | saving key elem parent id =>
      cases id with
      | nil => simp [due] at h
      | cons c id =>
          simp only [due, fullCost] at h
          split at h
          · omega
          · split_ifs at h
  | _ => simp [due] at h

/-- The rest of a key costs no more than all its characters. -/
theorem due_saving_le (heap : FolderHeap α) (key : List UInt8) (elem : α) (parent : Nat) (id : List UInt8) :
    (Stage.saving key elem parent id).due heap ≤ fullCost id.length := by
  cases id with
  | nil => simp [Stage.due, fullCost]
  | cons c id =>
      simp only [Stage.due, fullCost, List.length_cons]
      split
      · omega
      · split_ifs <;> simp_all <;> omega

/-- **The accesses of other calls add nothing**: what they put into a slot stays there. -/
theorem due_of_grows (hgrows : Grows heap heap') (stage : Stage α) : stage.due heap' ≤ stage.due heap := by
  cases stage with
  | saving key elem parent id =>
      cases id with
      | nil => exact Nat.le_refl _
      | cons c id =>
          simp only [Stage.due]
          cases objIdBase c with
          | none => exact Nat.le_refl _
          | some i =>
              have hidx : (heap.idxs parent i).isSome → (heap'.idxs parent i).isSome := by
                intro h
                obtain ⟨b, hb⟩ := Option.isSome_iff_exists.mp h
                rw [hgrows.idxs parent i b hb]
                rfl
              have helem : (heap.elems parent i).isSome → (heap'.elems parent i).isSome := by
                intro h
                obtain ⟨b, hb⟩ := Option.isSome_iff_exists.mp h
                rw [hgrows.elems parent i b hb]
                rfl
              simp only []
              by_cases hid : id ≠ []
              · rw [if_pos hid, if_pos hid]
                split_ifs with h h' h'
                · exact Nat.le_refl _
                · omega
                · exact absurd (hidx h') h
                · exact Nat.le_refl _
              · rw [if_neg hid, if_neg hid]
                split_ifs with h h' h'
                · exact Nat.le_refl _
                · simp [fullCost]
                · exact absurd (helem h') h
                · exact Nat.le_refl _
  | _ => exact Nat.le_refl _

/-- An access makes the folders grow. -/
theorem grows_advance (hinv : Inv heap) (spurious : Bool) (stage : Stage α) :
    Grows heap (advance heap spurious stage).shared := by
  have haccess := access_advance heap spurious stage
  generalize advance heap spurious stage = o at haccess
  cases haccess with
  | create => exact FolderHeap.grows_elemIdxNew hinv
  | publish key elem id idx hidx => exact FolderHeap.grows_setIdx hidx idx
  | assign key elem id helem => exact FolderHeap.grows_setElem helem elem
  | countElem => exact FolderHeap.grows_countElem heap
  | countValid => exact FolderHeap.grows_countValid heap
  | _ => exact Grows.refl heap

/-- What a call has left at a slot for a subfolder. -/
theorem due_saving_idx {c : UInt8} {i : Digit} {id : List UInt8} (key : List UInt8) (elem : α) (parent : Nat)
    (hc : objIdBase c = some i) (hid : id ≠ []) :
    (Stage.saving key elem parent (c :: id)).due heap =
      (if (heap.idxs parent i).isSome then 1 else 3) + fullCost id.length := by
  simp only [Stage.due, hc, if_pos hid]

/-- What a call has left at a slot for an element. -/
theorem due_saving_elem {c : UInt8} {i : Digit} (key : List UInt8) (elem : α) (parent : Nat)
    (hc : objIdBase c = some i) :
    (Stage.saving key elem parent [c]).due heap = if (heap.elems parent i).isSome then 1 else fullCost 1 := by
  simp only [Stage.due, hc, ne_eq, not_true_eq_false, if_false]

/-- **An access of a call leaves less to be done**, up to two accesses more for an exchange that fails for no
reason. -/
theorem due_advance {log : List (Done α)} {stage : Stage α} (hcall : CallHolds heap log stage)
    (hbusy : stage ≠ .idle) (spurious : Bool) :
    (advance heap spurious stage).stage.due (advance heap spurious stage).shared + 1 ≤
      stage.due heap + if spurious then 2 else 0 := by
  cases stage with
  | idle => exact absurd rfl hbusy
  | saving key elem parent id =>
      refine Nat.le_trans ?_ (Nat.le_add_right _ _)
      cases id with
      | nil => exact Nat.le_refl _
      | cons c id =>
          cases hc : objIdBase c with
          | none => simp [advance, hc, finish, Stage.due]
          | some i =>
              by_cases hid : id = []
              · subst hid
                rw [due_saving_elem key elem parent hc]
                cases helem : heap.elems parent i with
                | none => simp [advance, hc, helem, goto, Stage.due, fullCost]
                | some elem' => simp [advance, hc, helem, finish, Stage.due]
              · rw [due_saving_idx key elem parent hc hid]
                cases hidx : heap.idxs parent i with
                | none =>
                    simp only [advance, hc, hidx, if_pos hid, goto, Stage.due, List.tail_cons, Option.isSome_none,
                      Bool.false_eq_true, if_false]
                    omega
                | some idx =>
                    have hrest := due_saving_le heap key elem idx id
                    simp only [advance, hc, hidx, if_pos hid, goto, Option.isSome_some, if_true]
                    omega
  | creating key elem parent i id idx =>
      obtain ⟨⟨rest, hne, rfl, -⟩, -⟩ := hcall
      have hrest : digitsKey rest ≠ [] := by simpa [digitsKey] using hne
      have hdue : (Stage.creating key elem parent i (digitsKey (i :: rest)) idx).due heap =
          2 + fullCost (digitsKey rest).length := rfl
      rw [hdue]
      by_cases hcas : spurious = false ∧ heap.idxs parent i = none
      · have hpublished := due_saving_le (heap.setIdx parent i idx) key elem idx (digitsKey rest)
        simp only [advance, if_pos hcas, digitsKey_cons, List.tail_cons]
        omega
      · simp only [advance, if_neg hcas, goto, digitsKey_cons]
        rw [due_saving_idx key elem parent (objIdBase_objIdSeq i) hrest]
        cases spurious with
        | true =>
            rw [if_pos rfl]
            split_ifs <;> omega
        | false =>
            have hsome : (heap.idxs parent i).isSome := Option.isSome_iff_ne_none.mpr fun h => hcas ⟨rfl, h⟩
            rw [if_pos hsome]
            omega
  | assigning key elem parent i id =>
      obtain ⟨rfl, -⟩ := hcall
      have hdue : (Stage.assigning key elem parent i (digitsKey [i])).due heap = 3 := rfl
      rw [hdue]
      by_cases hcas : spurious = false ∧ (heap.elems parent i).isNone
      · simp only [advance, if_pos hcas, goto, Stage.due]
        omega
      · have hkey : digitsKey [i] = [objIdSeq i] := rfl
        simp only [advance, if_neg hcas, goto, hkey]
        rw [due_saving_elem key elem parent (objIdBase_objIdSeq i)]
        cases spurious with
        | true =>
            rw [if_pos rfl, fullCost]
            split_ifs <;> omega
        | false =>
            have hsome : (heap.elems parent i).isSome :=
              Option.isSome_iff_ne_none.mpr fun h => hcas ⟨rfl, Option.isNone_iff_eq_none.mpr h⟩
            rw [if_pos hsome]
            omega
  | assigned key elem =>
      simp only [advance, Stage.due]
      omega
  | countedElem key elem =>
      simp only [advance, finish, Stage.due]
      omega

/-! ## (2) Runs -/

variable {ι : Type} [DecidableEq ι]

/-- The accesses of a thread. -/
def SetEvent.accesses (t : ι) : SetEvent ι α → Nat
  | .call _ _ _ => 0
  | .access u _ => if u = t then 1 else 0

/-- The accesses of a thread whose exchange fails for no reason. -/
def SetEvent.misses (t : ι) : SetEvent ι α → Nat
  | .call _ _ _ => 0
  | .access u spurious => if u = t ∧ spurious = true then 1 else 0

/-- Keys are valid, and a thread starts no other call. -/
def Race.ValidFor (t : ι) (s : Race ι α) (e : SetEvent ι α) : Prop :=
  s.Valid e ∧ ∀ key elem, e ≠ .call t key elem

/-- A thread that is in no call stays so. -/
theorem idle_step {s : Race ι α} {t : ι} {e : SetEvent ι α} (he : ∀ key elem, e ≠ .call t key elem)
    (hidle : s.stage t = .idle) : (s.step e).stage t = .idle := by
  cases e with
  | call u key elem =>
      have hne : t ≠ u := fun h => he key elem (by rw [h])
      simp only [Race.step]
      split
      · rw [Threads.stage_turn_of_ne hne, hidle]
      · exact hidle
  | access u spurious =>
      by_cases hut : t = u
      · subst hut
        simp only [Race.step, Threads.stage_turn_self, hidle, advance, goto]
      · rw [Race.step, Threads.stage_turn_of_ne hut, hidle]

/-- An event pays for the accesses of a call. -/
theorem due_step {s : Race ι α} (hsure : s.Sure) {t : ι} {e : SetEvent ι α} (he : ∀ key elem, e ≠ .call t key elem)
    (hbusy : s.stage t ≠ .idle) :
    ((s.step e).stage t).due (s.step e).shared + e.accesses t ≤ (s.stage t).due s.shared + 2 * e.misses t := by
  cases e with
  | call u key elem =>
      have hne : t ≠ u := fun h => he key elem (by rw [h])
      have hstage : (s.step (.call u key elem)).stage t = s.stage t := by
        simp only [Race.step]
        split
        · exact Threads.stage_turn_of_ne hne
        · rfl
      have hshared : (s.step (.call u key elem)).shared = s.shared := by
        simp only [Race.step]
        split <;> rfl
      rw [hstage, hshared]
      exact Nat.le_add_right _ _
  | access u spurious =>
      by_cases hut : u = t
      · subst hut
        have hadvance := due_advance (hsure.each u) hbusy spurious
        simp only [Race.step, Threads.stage_turn_self, Threads.shared_turn, SetEvent.accesses, SetEvent.misses,
          if_true, true_and]
        cases spurious with
        | true => simpa using hadvance
        | false => simpa using hadvance
      · have hstage : (s.step (.access u spurious)).stage t = s.stage t :=
          Threads.stage_turn_of_ne fun h => hut h.symm
        have hgrows : Grows s.shared (s.step (.access u spurious)).shared :=
          grows_advance hsure.shared.1 spurious (s.stage u)
        have hdue := due_of_grows hgrows (s.stage t)
        rw [hstage, SetEvent.accesses, if_neg hut]
        omega

/-- **A call returns.** Whatever the other calls do in the meantime, it makes no more than `3 · n + 1` accesses for a
key of `n` characters, and two more for each exchange of its own that fails for no reason. -/
theorem idle_of_addAccesses {s : Race ι α} (hrun : Reaches Race.step Race.Valid (Race.start : Race ι α) s) {t : ι}
    (hidle : s.stage t = .idle) {key : List UInt8} (hkey : ValidKey key) (elem : α) {es : List (SetEvent ι α)}
    (hes : AllAllowed Race.step (Race.ValidFor t) (s.step (.call t key elem)) es)
    (hmany : 3 * key.length + 1 + 2 * (es.map (SetEvent.misses t)).sum ≤ (es.map (SetEvent.accesses t)).sum) :
    (es.foldl Race.step (s.step (.call t key elem))).stage t = .idle := by
  have hsure : s.Sure ∧ s.Covered := hrun.invariant sure_start fun _ _ hinv hvalid => Race.sure_step hinv hvalid
  have hstart := Race.sure_step hsure (e := .call t key elem) hkey
  have hcalled : s.step (.call t key elem) = s.turn t (goto s.shared (.saving key elem 0 key)) := by
    simp only [Race.step, hidle]
  have hdue : ((s.step (.call t key elem)).stage t).due (s.step (.call t key elem)).shared ≤ fullCost key.length := by
    rw [hcalled, Threads.stage_turn_self]
    exact due_saving_le s.shared key elem 0 key
  have hpays : Pays Race.step (Race.ValidFor t) (fun s : Race ι α => s.Sure ∧ s.Covered)
      (fun s => s.stage t = .idle) (fun s => (s.stage t).due s.shared) (fun _ => SetEvent.accesses t)
      (fun _ e => 2 * e.misses t) :=
    { keeps := fun s e hs he => Race.sure_step hs he.1
      stays := fun s e hs he => idle_step he.2 hs
      pays := fun s e hs he hr => due_step hs.1 he.2 hr }
  refine hpays.rest_of_total_le (fun s hs => ?_) hstart hes ?_
  · exact Stage.idle_of_due hs
  · rw [total_const, total_const, List.sum_map_mul_left]
    rw [fullCost] at hdue
    omega

/-- A call that loses both exchanges of its key finds the slots taken when it loads them again. -/
def bothLost : List (SetEvent Bool Nat) :=
  [.call false [48, 49] 1, .access true false, .access false false, .access false false, .access true false,
    .access true false, .access false false, .access false false, .access true false] ++
    List.replicate 3 (.access true false)

theorem idle_of_addAccesses_bothLost :
    (bothLost.foldl Race.step ((Race.start : Race Bool Nat).step (.call true [48, 49] 2))).stage true = .idle := by
  have hvalid : ValidKey [48, 49] := ⟨[⟨0, by decide⟩, ⟨1, by decide⟩], by simp, by decide⟩
  have hother : ∀ key (elem : Nat), (.call false [48, 49] 1 : SetEvent Bool Nat) ≠ .call true key elem := by
    intro key elem h
    cases h
  have haccess : ∀ s (u : Bool), Race.ValidFor true (s : Race Bool Nat) (.access u false) :=
    fun s u => ⟨trivial, fun key elem h => by cases h⟩
  refine idle_of_addAccesses .refl rfl hvalid 2 ⟨⟨hvalid, hother⟩, haccess _ _, haccess _ _, haccess _ _, haccess _ _,
    haccess _ _, haccess _ _, haccess _ _, haccess _ _, haccess _ _, haccess _ _, haccess _ _, trivial⟩ (by decide)

end SetRace

end Knowdy
