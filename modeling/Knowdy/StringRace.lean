import Knowdy.StringIdx
import Knowdy.Lib.Runs

/-! # Concurrent interning

Any number of tasks that call `knd_charseq_fetch` on one repository, interleaved between every two accesses to
what they share: the lookup in `str_dict`, the draw of a number, the two parts of the insertion into `str_dict`,
and the insertion into `str_idx`.

* `Stage`, `Interner` — where a call is, and what the calls share; `Act`, `Interner.step` — one access.
* `Interner.Sound` — every call that has returned was given a charseq that decodes, the same one for the same text.
* `Undisturbed` — no text is looked up while another call of it has missed it and not yet returned.
* `sound_of_reaches` — this is enough; `not_sound_race`, `not_sound_early` — two calls of a new text, and a reader
  between the two insertions. -/

namespace Knowdy

namespace Interning

variable {n : Nat}

/-! ## (1) The calls and what they share -/

/-- Where a call of `knd_charseq_fetch` is. -/
inductive Stage where
  /-- No call. -/
  | idle
  /-- Before the lookup. -/
  | called (val : Name)
  /-- `knd_shared_dict_get` has found nothing. -/
  | missed (val : Name)
  /-- The number is drawn. -/
  | numbered (seq : CharSeq)
  /-- `knd_shared_dict_set` has looked for the text in the bucket `origHead`. -/
  | scanned (seq : CharSeq) (origHead : List (DictItem CharSeq))
  /-- `knd_shared_dict_set` has returned. -/
  | inserted (seq : CharSeq)

/-- The text that a call is about to look up. -/
def Stage.looking : Stage → Option Name
  | .called val => some val
  | _ => none

/-- The charseq that a call is about to register. -/
def Stage.charseq : Stage → Option CharSeq
  | .numbered seq | .scanned seq _ | .inserted seq => some seq
  | .idle | .called _ | .missed _ => none

/-- The text that a call has missed and not yet returned. -/
def Stage.text : Stage → Option Name
  | .missed val => some val
  | stage => stage.charseq.map CharSeq.val

/-- The text that a call has missed and not yet inserted. -/
def Stage.pending : Stage → Option Name
  | .missed val => some val
  | .numbered seq | .scanned seq _ => some seq.val
  | .idle | .called _ | .inserted _ => none

/-- The repository and the calls of `n` tasks. -/
structure Interner (n : Nat) where
  /-- The shared tables and counters; pages are never exhausted. -/
  repo : StrRepo
  /-- The calls. -/
  calls : Fin n → Stage := fun _ => .idle
  /-- The calls that have returned: text and result. -/
  returned : List (Name × Except KndErr CharSeq) := []

/-- One access of a task. -/
inductive Act (n : Nat) where
  /-- The call. -/
  | call (t : Fin n) (val : Name)
  /-- `knd_shared_dict_get`. -/
  | look (t : Fin n)
  /-- `knd_charseq_new` and the increment of `num_strs`. -/
  | draw (t : Fin n)
  /-- The first part of `knd_shared_dict_set`. -/
  | scan (t : Fin n)
  /-- Its last part. -/
  | publish (t : Fin n)
  /-- `knd_shared_set_add`. -/
  | add (t : Fin n)
  deriving DecidableEq, Repr

namespace Interner

/-- A call goes on. -/
def goto (s : Interner n) (t : Fin n) (stage : Stage) : Interner n :=
  { s with calls := Function.update s.calls t stage }

/-- A call returns. -/
def finish (s : Interner n) (t : Fin n) (val : Name) (rc : Except KndErr CharSeq) : Interner n :=
  { s.goto t .idle with returned := (val, rc) :: s.returned }

/-- Replace the shared part. -/
def setRepo (s : Interner n) (repo : StrRepo) : Interner n := { s with repo }

/-! ## (2) The accesses -/

/-- The lookup. -/
def runLook (s : Interner n) (t : Fin n) (val : Name) : Interner n :=
  match kndSharedDictGet s.repo.strDict val with
  | some seq => s.finish t val (.ok seq)
  | none => s.goto t (.missed val)

/-- The charseq with the next number. -/
def nextSeq (s : Interner n) (val : Name) : CharSeq := ⟨s.repo.nextAddr, val, s.repo.numStrs⟩

/-- The draw. -/
def runDraw (s : Interner n) (t : Fin n) (val : Name) : Interner n :=
  (s.setRepo { s.repo with
    numStrs := s.repo.numStrs + 1, nextAddr := s.repo.nextAddr + 1 }).goto t (.numbered (s.nextSeq val))

/-- The first part of the insertion into `str_dict`. -/
def runScan (s : Interner n) (t : Fin n) (seq : CharSeq) : Interner n :=
  match dictScan s.repo.strDict seq.val false with
  | .error e => s.finish t seq.val (.error e)
  | .ok origHead => s.goto t (.scanned seq origHead)

/-- Its last part. -/
def runPublish (s : Interner n) (t : Fin n) (seq : CharSeq) (origHead : List (DictItem CharSeq)) :
    Interner n :=
  match dictPublish s.repo.strDict origHead seq.dictItem with
  | .error e => s.finish t seq.val (.error e)
  | .ok strDict => (s.setRepo { s.repo with strDict }).goto t (.inserted seq)

/-- The insertion into `str_idx`. -/
def runAdd (s : Interner n) (t : Fin n) (seq : CharSeq) : Interner n :=
  match kndSharedSetAdd s.repo.strIdx (kndUidCreate seq.numid) seq with
  | (.error e, strIdx) => (s.setRepo { s.repo with strIdx }).finish t seq.val (.error e)
  | (.ok (), strIdx) => (s.setRepo { s.repo with strIdx }).finish t seq.val (.ok seq)

/-- **One access.** -/
def step (s : Interner n) (a : Act n) : Interner n :=
  match a with
  | .call t val =>
      match s.calls t with
      | .idle => s.goto t (.called val)
      | _ => s
  | .look t =>
      match s.calls t with
      | .called val => s.runLook t val
      | _ => s
  | .draw t =>
      match s.calls t with
      | .missed val => s.runDraw t val
      | _ => s
  | .scan t =>
      match s.calls t with
      | .numbered seq => s.runScan t seq
      | _ => s
  | .publish t =>
      match s.calls t with
      | .scanned seq origHead => s.runPublish t seq origHead
      | _ => s
  | .add t =>
      match s.calls t with
      | .inserted seq => s.runAdd t seq
      | _ => s

/-- **What callers are promised**: a call returns a charseq of its text, whose id decodes to it from then on, and
calls of one text return one charseq. -/
structure Sound (s : Interner n) : Prop where
  /-- No call fails, and the id decodes. -/
  decodes : ∀ p ∈ s.returned, ∃ seq, p.2 = .ok seq ∧ seq.val = p.1 ∧
    kndCharseqDecode s.repo (kndUidCreate seq.numid) = .ok seq
  /-- One text, one charseq. -/
  same : ∀ p ∈ s.returned, ∀ q ∈ s.returned, p.1 = q.1 → p.2 = q.2

/-- **No text is looked up while another call of it is between its lookup and its return.** -/
def Quiet (s : Interner n) (t : Fin n) : Prop :=
  ∀ val ∈ (s.calls t).looking, ∀ u, u ≠ t → (s.calls u).text ≠ some val

/-- The accesses that are allowed: texts are not empty, ids fit their buffer, and lookups are not disturbed. -/
def Undisturbed (s : Interner n) : Act n → Prop
  | .call _ val => val ≠ []
  | .look t => s.Quiet t
  | .draw _ => s.repo.numStrs < radixBase ^ idSize
  | _ => True

instance (s : Interner n) (a : Act n) : Decidable (s.Undisturbed a) :=
  match a with
  | .call _ val => inferInstanceAs (Decidable (val ≠ []))
  | .look t => inferInstanceAs
      (Decidable (∀ val ∈ (s.calls t).looking, ∀ u, u ≠ t → (s.calls u).text ≠ some val))
  | .draw _ => inferInstanceAs (Decidable (s.repo.numStrs < radixBase ^ idSize))
  | .scan _ | .publish _ | .add _ => inferInstanceAs (Decidable True)

/-! ## (3) The invariant -/

/-- What is known of a call at its stage. -/
structure CallInv (repo : StrRepo) (stage : Stage) : Prop where
  /-- A text that was missed is still missing, up to the insertion. -/
  pending : ∀ val, stage.pending = some val → kndSharedDictGet repo.strDict val = none
  /-- The number was drawn and is free in `str_idx`. -/
  number : ∀ seq, stage.charseq = some seq → seq.numid < repo.numStrs ∧
    ∀ a, kndCharseqDecode repo (kndUidCreate seq.numid) ≠ .ok a
  /-- Since the bucket was loaded only other texts have been linked in front of it. -/
  scanned : ∀ seq origHead, stage = .scanned seq origHead → ∃ new,
    repo.strDict.bucket seq.val = new ++ origHead ∧ ∀ item ∈ new, item.key ≠ seq.val
  /-- An inserted charseq is found. -/
  inserted : ∀ seq, stage = .inserted seq → kndSharedDictGet repo.strDict seq.val = some seq

/-- Two calls are about different texts and different numbers. -/
structure Apart (stage stage' : Stage) : Prop where
  text : ∀ val, stage.text = some val → stage'.text ≠ some val
  number : ∀ a b, stage.charseq = some a → stage'.charseq = some b → a.numid ≠ b.numid

/-- **The invariant.** -/
structure Inv (s : Interner n) : Prop where
  dict : ∀ v seq, kndSharedDictGet s.repo.strDict v = some seq → seq.val = v ∧
    (kndCharseqDecode s.repo (kndUidCreate seq.numid) = .ok seq ∨ ∃ t, s.calls t = .inserted seq)
  idx : ∀ id seq, kndCharseqDecode s.repo id = .ok seq → id = kndUidCreate seq.numid ∧
    seq.numid < s.repo.numStrs ∧ kndSharedDictGet s.repo.strDict seq.val = some seq
  calls : ∀ t, CallInv s.repo (s.calls t)
  apart : ∀ t u, t ≠ u → Apart (s.calls t) (s.calls u)
  returned : ∀ p ∈ s.returned, ∃ seq, p.2 = .ok seq ∧ kndSharedDictGet s.repo.strDict p.1 = some seq ∧
    kndCharseqDecode s.repo (kndUidCreate seq.numid) = .ok seq

/-- The invariant says what callers are promised. -/
theorem Inv.sound {s : Interner n} (h : Inv s) : Sound s where
  decodes := by
    intro p hp
    obtain ⟨seq, hrc, hget, hdec⟩ := h.returned p hp
    exact ⟨seq, hrc, (h.dict _ _ hget).1, hdec⟩
  same := by
    intro p hp q hq heq
    obtain ⟨a, hpa, hgeta, -⟩ := h.returned p hp
    obtain ⟨b, hqb, hgetb, -⟩ := h.returned q hq
    rw [heq, hgetb] at hgeta
    rw [hpa, hqb, Option.some.inj hgeta]

/-! ## (4) What one access keeps -/

section Steps

variable {s : Interner n} {t : Fin n}

@[simp] theorem calls_setRepo (repo : StrRepo) : (s.setRepo repo).calls = s.calls := rfl

theorem calls_goto_self (stage : Stage) : (s.goto t stage).calls t = stage := Function.update_self ..

theorem calls_goto_of_ne {u : Fin n} (h : u ≠ t) (stage : Stage) :
    (s.goto t stage).calls u = s.calls u := Function.update_of_ne h ..

/-- The numbers of two calls differ whichever comes first. -/
theorem Apart.symm {stage stage' : Stage} (h : Apart stage stage') : Apart stage' stage where
  text := fun val hval hval' => h.text val hval' hval
  number := fun a b ha hb heq => h.number b a hb ha heq.symm

/-- One call moves away from the others. -/
theorem apart_update {calls : Fin n → Stage} {stage : Stage}
    (h : ∀ u w, u ≠ w → Apart (calls u) (calls w)) (hapart : ∀ u, u ≠ t → Apart stage (calls u)) :
    ∀ u w, u ≠ w → Apart (Function.update calls t stage u) (Function.update calls t stage w) := by
  intro u w hne
  by_cases hu : u = t
  · subst hu
    rw [Function.update_self, Function.update_of_ne hne.symm]
    exact hapart w hne.symm
  · rw [Function.update_of_ne hu]
    by_cases hw : w = t
    · subst hw
      rw [Function.update_self]
      exact (hapart u hu).symm
    · rw [Function.update_of_ne hw]
      exact h u w hne

/-- **A call goes on** and the shared part stays: what it has inserted before it still announces. -/
theorem Inv.goto (h : Inv s) {stage : Stage} (hcall : CallInv s.repo stage)
    (hapart : ∀ u, u ≠ t → Apart stage (s.calls u)) (hkeep : ∀ seq, s.calls t ≠ .inserted seq) :
    Inv (s.goto t stage) where
  dict := by
    intro v seq hget
    obtain ⟨hval, hdec | ⟨u, hu⟩⟩ := h.dict v seq hget
    · exact ⟨hval, .inl hdec⟩
    · have hne : u ≠ t := by
        rintro rfl
        exact hkeep seq hu
      exact ⟨hval, .inr ⟨u, by rw [calls_goto_of_ne hne]; exact hu⟩⟩
  idx := h.idx
  calls := (Function.forall_update_iff s.calls fun _ stage => CallInv s.repo stage).mpr
    ⟨hcall, fun u _ => h.calls u⟩
  apart := apart_update h.apart hapart
  returned := h.returned

theorem callInv_idle (repo : StrRepo) : CallInv repo .idle where
  pending := fun val hval => by cases hval
  number := fun seq hseq => by cases hseq
  scanned := fun seq origHead heq => by cases heq
  inserted := fun seq heq => by cases heq

theorem callInv_called (repo : StrRepo) (val : Name) : CallInv repo (.called val) where
  pending := fun val hval => by cases hval
  number := fun seq hseq => by cases hseq
  scanned := fun seq origHead heq => by cases heq
  inserted := fun seq heq => by cases heq

theorem apart_idle (stage : Stage) : Apart .idle stage where
  text := fun val hval => by cases hval
  number := fun a b ha => by cases ha

theorem apart_called (val : Name) (stage : Stage) : Apart (.called val) stage where
  text := fun val hval => by cases hval
  number := fun a b ha => by cases ha

/-- **A call returns** a charseq that decodes. -/
theorem Inv.finish (h : Inv s) {val : Name} {seq : CharSeq} (hkeep : ∀ seq, s.calls t ≠ .inserted seq)
    (hget : kndSharedDictGet s.repo.strDict val = some seq)
    (hdec : kndCharseqDecode s.repo (kndUidCreate seq.numid) = .ok seq) :
    Inv (s.finish t val (.ok seq)) := by
  have hgoto : Inv (s.goto t .idle) := h.goto (callInv_idle _) (fun u _ => apart_idle _) hkeep
  refine ⟨hgoto.dict, hgoto.idx, hgoto.calls, hgoto.apart, ?_⟩
  intro p hp
  rcases List.mem_cons.mp hp with rfl | hp
  · exact ⟨seq, rfl, hget, hdec⟩
  · exact h.returned p hp

/-- The lookup of a text that no other call is registering. -/
theorem inv_runLook (h : Inv s) {val : Name} (hstage : s.calls t = .called val) (hquiet : s.Quiet t) :
    Inv (s.runLook t val) := by
  have hkeep : ∀ seq, s.calls t ≠ .inserted seq := by
    intro seq heq
    rw [hstage] at heq
    cases heq
  rw [runLook]
  cases hget : kndSharedDictGet s.repo.strDict val with
  | some seq =>
      obtain ⟨hval, hdec | ⟨u, hu⟩⟩ := h.dict val seq hget
      · exact h.finish hkeep hget hdec
      · -- a call between its insertions would be about the same text
        have hne : u ≠ t := by
          rintro rfl
          exact hkeep seq hu
        have htext : (s.calls u).text = some val := by rw [hu, ← hval]; rfl
        exact absurd htext (hquiet val (by rw [hstage]; rfl) u hne)
  | none =>
      refine h.goto ?_ ?_ hkeep
      · refine ⟨?_, fun seq hseq => (by cases hseq), fun seq o heq => (by cases heq),
          fun seq heq => (by cases heq)⟩
        intro v hv
        cases hv
        exact hget
      · intro u hu
        refine ⟨?_, fun a b ha => (by cases ha)⟩
        intro v hv
        cases hv
        exact hquiet val (by rw [hstage]; rfl) u hu

/-- The draw of a number. -/
theorem inv_runDraw (h : Inv s) {val : Name} (hstage : s.calls t = .missed val) :
    Inv (s.runDraw t val) := by
  have hrepo : Inv (s.setRepo { s.repo with
      numStrs := s.repo.numStrs + 1, nextAddr := s.repo.nextAddr + 1 }) := by
    refine ⟨h.dict, ?_, ?_, h.apart, h.returned⟩
    · intro id seq hdec
      obtain ⟨hid, hlt, hget⟩ := h.idx id seq hdec
      exact ⟨hid, Nat.lt_succ_of_lt hlt, hget⟩
    · intro u
      have hu := h.calls u
      refine ⟨hu.pending, ?_, hu.scanned, hu.inserted⟩
      intro seq hseq
      exact ⟨Nat.lt_succ_of_lt (hu.number seq hseq).1, (hu.number seq hseq).2⟩
  refine hrepo.goto ?_ ?_ ?_
  · refine ⟨?_, ?_, fun seq o heq => (by cases heq), fun seq heq => (by cases heq)⟩
    · intro v hv
      cases hv
      exact (h.calls t).pending val (by rw [hstage]; rfl)
    · intro seq hseq
      cases hseq
      refine ⟨Nat.lt_succ_self _, ?_⟩
      -- every number in the index was drawn before
      intro a hdec
      obtain ⟨hid, hlt, -⟩ := h.idx _ a hdec
      exact hlt.ne (kndUidCreate_inj.mp hid).symm
  · intro u hu
    have hap := h.apart t u hu.symm
    refine ⟨?_, ?_⟩
    · intro v hv
      cases hv
      exact hap.text val (by rw [hstage]; rfl)
    · intro a b ha hb
      cases ha
      exact ((h.calls u).number b hb).1.ne'
  · intro seq heq
    rw [calls_setRepo, hstage] at heq
    cases heq

/-- The first part of the insertion: the text is still missing. -/
theorem inv_runScan (h : Inv s) {seq : CharSeq} (hstage : s.calls t = .numbered seq) :
    Inv (s.runScan t seq) := by
  have hnone : kndSharedDictGet s.repo.strDict seq.val = none :=
    (h.calls t).pending _ (by rw [hstage]; rfl)
  rw [runScan, dictScan_of_not_taken (not_taken_of_get_eq_none hnone)]
  refine h.goto ?_ ?_ ?_
  · refine ⟨?_, ?_, ?_, fun seq heq => (by cases heq)⟩
    · intro v hv
      cases hv
      exact hnone
    · intro a ha
      exact (h.calls t).number a (by rw [hstage]; exact ha)
    · intro a origHead heq
      cases heq
      exact ⟨[], rfl, fun item hitem => by cases hitem⟩
  · intro u hu
    have hap := h.apart t u hu.symm
    rw [hstage] at hap
    exact ⟨hap.text, hap.number⟩
  · intro a heq
    rw [hstage] at heq
    cases heq

/-- A text is pending only while it is missed. -/
theorem text_of_pending {stage : Stage} {val : Name} (h : stage.pending = some val) :
    stage.text = some val := by
  cases stage with
  | missed v => exact h
  | numbered seq => exact h
  | scanned seq origHead => exact h
  | idle => cases h
  | called v => cases h
  | inserted seq => cases h

section Push

variable {repo : StrRepo} {seq : CharSeq}

theorem get_push (v : Name) : kndSharedDictGet (repo.strDict.push seq.dictItem) v
    = if v = seq.val then some seq else kndSharedDictGet repo.strDict v := by
  rw [kndSharedDictGet_push]
  rfl

/-- A charseq that is found is found after the insertion of a text that was missing. -/
theorem get_push_of_some (hnone : kndSharedDictGet repo.strDict seq.val = none) {v : Name} {a : CharSeq}
    (h : kndSharedDictGet repo.strDict v = some a) :
    kndSharedDictGet (repo.strDict.push seq.dictItem) v = some a := by
  rw [get_push, if_neg]
  · exact h
  · rintro rfl
    rw [hnone] at h
    cases h

/-- The insertion of a text does not disturb the calls of other texts. -/
theorem CallInv.push {stage : Stage} (h : CallInv repo stage)
    (hnone : kndSharedDictGet repo.strDict seq.val = none) (htext : stage.text ≠ some seq.val) :
    CallInv { repo with strDict := repo.strDict.push seq.dictItem } stage where
  pending := by
    intro v hv
    refine get_push v |>.trans ?_
    rw [if_neg]
    · exact h.pending v hv
    · rintro rfl
      exact htext (text_of_pending hv)
  number := h.number
  scanned := by
    intro a origHead heq
    obtain ⟨new, hbucket, hkeys⟩ := h.scanned a origHead heq
    have hne : seq.val ≠ a.val := by
      intro hval
      exact htext (by rw [heq, hval]; rfl)
    show ∃ new, (repo.strDict.push seq.dictItem).bucket a.val = new ++ origHead ∧ _
    rw [SharedDict.bucket_push]
    split_ifs
    · refine ⟨seq.dictItem :: new, by rw [hbucket]; rfl, ?_⟩
      intro item hitem
      rcases List.mem_cons.mp hitem with rfl | hitem
      · exact hne
      · exact hkeys item hitem
    · exact ⟨new, hbucket, hkeys⟩
  inserted := fun a heq => get_push_of_some hnone (h.inserted a heq)

/-- Nobody else has linked an item of the text since the bucket was loaded. -/
theorem dictPublish_eq {origHead new : List (DictItem CharSeq)}
    (hbucket : repo.strDict.bucket seq.val = new ++ origHead) (hnew : ∀ item ∈ new, item.key ≠ seq.val) :
    dictPublish repo.strDict origHead seq.dictItem = .ok (repo.strDict.push seq.dictItem) := by
  have htake : (repo.strDict.bucket seq.val).take
      ((repo.strDict.bucket seq.val).length - origHead.length) = new := by
    rw [hbucket, List.length_append, Nat.add_sub_cancel, List.take_left]
  simp only [dictPublish, show seq.dictItem.key = seq.val from rfl, htake]
  rw [if_neg]
  intro hany
  obtain ⟨item, hitem, hkey⟩ := List.any_eq_true.mp hany
  exact hnew item hitem (of_decide_eq_true hkey)

end Push

/-- **The last part of the insertion** links the item. -/
theorem inv_runPublish (h : Inv s) {seq : CharSeq} {origHead : List (DictItem CharSeq)}
    (hstage : s.calls t = .scanned seq origHead) : Inv (s.runPublish t seq origHead) := by
  obtain ⟨new, hbucket, hnew⟩ := (h.calls t).scanned seq origHead hstage
  have hnone : kndSharedDictGet s.repo.strDict seq.val = none :=
    (h.calls t).pending _ (by rw [hstage]; rfl)
  have hnumber := (h.calls t).number seq (by rw [hstage]; rfl)
  rw [runPublish, dictPublish_eq hbucket hnew]
  refine ⟨?_, ?_, ?_, ?_, ?_⟩
  · intro v a ha
    have ha' := (get_push v).symm.trans ha
    split_ifs at ha' with heq
    · cases ha'
      exact ⟨heq.symm, .inr ⟨t, calls_goto_self _⟩⟩
    · obtain ⟨hval, hdec | ⟨u, hu⟩⟩ := h.dict v a ha'
      · exact ⟨hval, .inl hdec⟩
      · have hne : u ≠ t := by
          rintro rfl
          rw [hstage] at hu
          cases hu
        exact ⟨hval, .inr ⟨u, (calls_goto_of_ne hne _).trans hu⟩⟩
  · intro id a hdec
    obtain ⟨hid, hlt, hget⟩ := h.idx id a hdec
    exact ⟨hid, hlt, get_push_of_some hnone hget⟩
  · refine (Function.forall_update_iff s.calls fun _ stage => CallInv _ stage).mpr ⟨?_, ?_⟩
    · refine ⟨fun v hv => (by cases hv), ?_, fun a o heq => (by cases heq), ?_⟩
      · intro a ha
        cases ha
        exact hnumber
      · intro a heq
        cases heq
        exact (get_push _).trans (if_pos rfl)
    · intro u hu
      have hap := h.apart t u hu.symm
      rw [hstage] at hap
      exact (h.calls u).push hnone (hap.text _ rfl)
  · refine apart_update h.apart fun u hu => ?_
    have hap := h.apart t u hu.symm
    rw [hstage] at hap
    exact ⟨hap.text, hap.number⟩
  · intro p hp
    obtain ⟨a, hrc, hget, hdec⟩ := h.returned p hp
    exact ⟨a, hrc, get_push_of_some hnone hget, hdec⟩

/-- **The insertion by number** is the end of the call: the id decodes from now on. -/
theorem inv_runAdd (h : Inv s) {seq : CharSeq} (hstage : s.calls t = .inserted seq) :
    Inv (s.runAdd t seq) := by
  obtain ⟨hlt, hfree⟩ := (h.calls t).number seq (by rw [hstage]; rfl)
  have hget := (h.calls t).inserted seq hstage
  have hid : kndUidCreate seq.numid = digitsKey (numDigits seq.numid) := kndNumToStr_eq _
  obtain ⟨strIdx, hadd⟩ := kndSharedSetAdd_of_free (numDigits_ne_nil _) (by rw [← hid]; exact hfree) seq
  rw [← hid] at hadd
  have hdecode := kndSharedSetAdd_ok hadd
  have hold : ∀ id a, kndCharseqDecode s.repo id = .ok a → kndSharedSetGet strIdx id = .ok a := by
    intro id a hdec
    refine (hdecode id a).mpr ?_
    rw [if_neg]
    · exact hdec
    · rintro rfl
      exact hfree a hdec
  have hnew : kndSharedSetGet strIdx (kndUidCreate seq.numid) = .ok seq :=
    (hdecode _ _).mpr (by rw [if_pos rfl])
  rw [runAdd, hadd]
  refine ⟨?_, ?_, ?_, ?_, ?_⟩
  · intro v a ha
    obtain ⟨hval, hdec | ⟨u, hu⟩⟩ := h.dict v a ha
    · exact ⟨hval, .inl (hold _ _ hdec)⟩
    · by_cases hut : u = t
      · subst hut
        rw [hstage] at hu
        cases hu
        exact ⟨hval, .inl hnew⟩
      · exact ⟨hval, .inr ⟨u, (calls_goto_of_ne hut _).trans hu⟩⟩
  · intro id a hdec
    have hcases := (hdecode id a).mp hdec
    split_ifs at hcases with heq
    · subst hcases
      exact ⟨heq, hlt, hget⟩
    · exact h.idx id a hcases
  · refine (Function.forall_update_iff s.calls fun _ stage => CallInv _ stage).mpr
      ⟨callInv_idle _, fun u hu => ?_⟩
    have hcall := h.calls u
    refine ⟨hcall.pending, ?_, hcall.scanned, hcall.inserted⟩
    intro a ha
    refine ⟨(hcall.number a ha).1, fun b hb => ?_⟩
    have hcases := (hdecode _ b).mp hb
    split_ifs at hcases with heq
    · -- the calls have drawn different numbers
      have hap := h.apart u t hu
      rw [hstage] at hap
      exact hap.number a seq ha rfl (kndUidCreate_inj.mp heq)
    · exact (hcall.number a ha).2 b hcases
  · exact apart_update h.apart fun u _ => apart_idle _
  · intro p hp
    rcases List.mem_cons.mp hp with rfl | hp
    · exact ⟨seq, rfl, hget, hnew⟩
    · obtain ⟨a, hrc, hgeta, hdec⟩ := h.returned p hp
      exact ⟨a, hrc, hgeta, hold _ _ hdec⟩

/-- **Every access keeps the invariant**, when lookups are undisturbed. -/
theorem inv_step (h : Inv s) {a : Act n} (hallowed : s.Undisturbed a) : Inv (s.step a) := by
  cases a with
  | call t val =>
      rw [step]
      split
      · rename_i hstage
        refine h.goto (callInv_called _ val) (fun u _ => apart_called val _) ?_
        intro seq heq
        rw [hstage] at heq
        cases heq
      · exact h
  | look t =>
      rw [step]
      split
      · rename_i val hstage
        exact inv_runLook h hstage hallowed
      · exact h
  | draw t =>
      rw [step]
      split
      · rename_i val hstage
        exact inv_runDraw h hstage
      · exact h
  | scan t =>
      rw [step]
      split
      · rename_i seq hstage
        exact inv_runScan h hstage
      · exact h
  | publish t =>
      rw [step]
      split
      · rename_i seq origHead hstage
        exact inv_runPublish h hstage
      · exact h
  | add t =>
      rw [step]
      split
      · rename_i seq hstage
        exact inv_runAdd h hstage
      · exact h

end Steps

/-- No call has begun. -/
def start (n : Nat) (repo : StrRepo) : Interner n := { repo }

theorem inv_start {repo : StrRepo} (h : Tables repo) : Inv (start n repo) where
  dict := by
    intro v seq hget
    exact ⟨(h.dict v seq hget).1, .inl (h.dict v seq hget).2⟩
  idx := h.idx
  calls := fun _ => callInv_idle repo
  apart := fun _ _ _ => apart_idle _
  returned := fun p hp => by cases hp

end Interner

/-! ## (5) All interleavings -/

open Interner

/-- **Concurrent interning** never fails, gives one charseq for one text and decodes it, for every number of tasks
and every interleaving in which no text is looked up while another call of it is between its lookup and its
return; the two tables of the repository agree at the start. -/
theorem sound_of_reaches {repo : StrRepo} (h₀ : Tables repo) {s : Interner n}
    (h : Reaches step Undisturbed (start n repo) s) : s.Sound := by
  have hinv : Inv s := h.invariant (inv_start h₀) fun _ _ hinv hallowed => inv_step hinv hallowed
  exact hinv.sound

/-- A call from its lookup to its return, with no access of another task in between. -/
def callActs (t : Fin n) (val : Name) : List (Act n) :=
  [.call t val, .look t, .draw t, .scan t, .publish t, .add t]

section Alone

variable {s : Interner n} {t : Fin n} {val : Name} {seq : CharSeq}

theorem step_look (h : s.calls t = .called val) : s.step (.look t) = s.runLook t val := by
  rw [step, h]

theorem step_draw (h : s.calls t = .missed val) : s.step (.draw t) = s.runDraw t val := by
  rw [step, h]

theorem step_scan (h : s.calls t = .numbered seq) : s.step (.scan t) = s.runScan t seq := by
  rw [step, h]

theorem step_publish {origHead : List (DictItem CharSeq)} (h : s.calls t = .scanned seq origHead) :
    s.step (.publish t) = s.runPublish t seq origHead := by
  rw [step, h]

theorem step_add (h : s.calls t = .inserted seq) : s.step (.add t) = s.runAdd t seq := by
  rw [step, h]

theorem runScan_of {origHead : List (DictItem CharSeq)}
    (h : dictScan s.repo.strDict seq.val false = .ok origHead) :
    s.runScan t seq = s.goto t (.scanned seq origHead) := by
  rw [runScan, h]

theorem runPublish_of {origHead : List (DictItem CharSeq)} {strDict : SharedDict CharSeq}
    (h : dictPublish s.repo.strDict origHead seq.dictItem = .ok strDict) :
    s.runPublish t seq origHead = (s.setRepo { s.repo with strDict }).goto t (.inserted seq) := by
  rw [runPublish, h]

/-- A task without a call does nothing. -/
theorem foldl_step_idle (h : s.calls t = .idle) {acts : List (Act n)}
    (hacts : ∀ a ∈ acts, a = .draw t ∨ a = .scan t ∨ a = .publish t ∨ a = .add t) :
    acts.foldl step s = s := by
  induction acts with
  | nil => rfl
  | cons a acts ih =>
      have hstay : s.step a = s := by
        rcases hacts a List.mem_cons_self with rfl | rfl | rfl | rfl <;> rw [step, h]
      rw [List.foldl_cons, hstay]
      exact ih fun a ha => hacts a (List.mem_cons_of_mem _ ha)

/-- From the draw of a number to the insertion by number. -/
theorem foldl_step_missed (h : s.calls t = .missed val) (hget : kndSharedDictGet s.repo.strDict val = none) :
    ∃ s' : Interner n, [.draw t, .scan t, .publish t, .add t].foldl step s = s'.runAdd t (s.nextSeq val) ∧
      s'.returned = s.returned ∧ s'.repo = { s.repo with
        strDict := s.repo.strDict.push (s.nextSeq val).dictItem
        numStrs := s.repo.numStrs + 1
        nextAddr := s.repo.nextAddr + 1 } := by
  have hdraw : (s.runDraw t val).calls t = .numbered (s.nextSeq val) := calls_goto_self _
  have hscan : dictScan (s.runDraw t val).repo.strDict (s.nextSeq val).val false
      = .ok (s.repo.strDict.bucket val) := dictScan_of_not_taken (not_taken_of_get_eq_none hget)
  set s₁ := (s.runDraw t val).goto t (.scanned (s.nextSeq val) (s.repo.strDict.bucket val)) with hs₁
  have hpublish : dictPublish s₁.repo.strDict (s.repo.strDict.bucket val) (s.nextSeq val).dictItem
      = .ok (s.repo.strDict.push (s.nextSeq val).dictItem) :=
    dictPublish_self s.repo.strDict (s.nextSeq val).dictItem
  refine ⟨(s₁.setRepo { s₁.repo with
    strDict := s.repo.strDict.push (s.nextSeq val).dictItem }).goto t (.inserted (s.nextSeq val)), ?_, rfl, rfl⟩
  rw [List.foldl_cons, step_draw h, List.foldl_cons, step_scan hdraw, runScan_of hscan, ← hs₁,
    List.foldl_cons, step_publish (calls_goto_self _), runPublish_of hpublish, List.foldl_cons,
    step_add (calls_goto_self _), List.foldl_nil]

/-- What an uninterrupted call has in common with `knd_charseq_fetch`: the result and the shared tables. -/
structure Fetched (s : Interner n) (val : Name) (s' : Interner n) : Prop where
  returned : s'.returned = (val, (kndCharseqFetch s.repo val).1) :: s.returned
  strDict : s'.repo.strDict = (kndCharseqFetch s.repo val).2.strDict
  strIdx : s'.repo.strIdx = (kndCharseqFetch s.repo val).2.strIdx
  numStrs : s'.repo.numStrs = (kndCharseqFetch s.repo val).2.numStrs

/-- **A call that nobody interrupts** is `knd_charseq_fetch`, with pages for the charseq and its item. -/
theorem fetched_callActs (hidle : s.calls t = .idle) (hpool : 2 ≤ s.repo.mempool.tinyPages) :
    Fetched s val ((callActs t val).foldl step s) := by
  have hcall : s.step (.call t val) = s.goto t (.called val) := by rw [step, hidle]
  rw [callActs, List.foldl_cons, hcall, List.foldl_cons, step_look (calls_goto_self _), runLook]
  cases hget : kndSharedDictGet s.repo.strDict val with
  | some seq =>
      have hfetch : kndCharseqFetch s.repo val = (.ok seq, s.repo) := by rw [kndCharseqFetch, hget]
      have hlook : kndSharedDictGet (s.goto t (.called val)).repo.strDict val = some seq := hget
      have hdone : ((s.goto t (.called val)).finish t val (.ok seq)).calls t = .idle := calls_goto_self _
      simp only [hlook]
      rw [foldl_step_idle hdone (by simp)]
      refine ⟨?_, ?_, ?_, ?_⟩ <;> rw [hfetch] <;> rfl
  | none =>
      have hlook : kndSharedDictGet (s.goto t (.called val)).repo.strDict val = none := hget
      obtain ⟨k, hk⟩ : ∃ k, s.repo.mempool = ⟨k + 2⟩ := by
        obtain ⟨m, hm⟩ := Nat.exists_eq_add_of_le' hpool
        exact ⟨m, by rw [← hm]⟩
      have hset : kndSharedDictSet s.repo.strDict ⟨k + 1⟩ val (s.nextSeq val) none false
          = (.ok ((s.nextSeq val).dictItem, s.repo.strDict.push (s.nextSeq val).dictItem), ⟨k⟩) := by
        rw [kndSharedDictSet_of_not_taken (not_taken_of_get_eq_none hget)]
        rfl
      -- without the lookup, `knd_charseq_fetch` is the two registrations
      have hfetch : kndCharseqFetch s.repo val = registerCharseq { s.repo with
          mempool := ⟨k + 1⟩, numStrs := s.repo.numStrs + 1, nextAddr := s.repo.nextAddr + 1 }
          (s.nextSeq val) := by
        rw [kndCharseqFetch, hget]
        simp only [kndCharseqNew, hk]
        rfl
      obtain ⟨s', hrun, hreturned, hrepo⟩ :=
        @foldl_step_missed n ((s.goto t (.called val)).goto t (.missed val)) t val (calls_goto_self _) hget
      have hseq : ((s.goto t (.called val)).goto t (.missed val)).nextSeq val = s.nextSeq val := rfl
      have hadd' : kndSharedSetAdd s'.repo.strIdx = kndSharedSetAdd s.repo.strIdx := by rw [hrepo]; rfl
      simp only [hlook]
      rw [hrun, hseq, runAdd, hadd']
      cases hadd : kndSharedSetAdd s.repo.strIdx (kndUidCreate (s.nextSeq val).numid) (s.nextSeq val) with
      | mk rc strIdx =>
          have hresult : (kndCharseqFetch s.repo val).1 = rc.map (fun _ => s.nextSeq val) ∧
              (kndCharseqFetch s.repo val).2 = { s.repo with
                strDict := s.repo.strDict.push (s.nextSeq val).dictItem, mempool := ⟨k⟩, strIdx
                numStrs := s.repo.numStrs + 1, nextAddr := s.repo.nextAddr + 1 } := by
            rw [hfetch, registerCharseq]
            simp only [show (s.nextSeq val).val = val from rfl, hset, hadd]
            cases rc <;> exact ⟨rfl, rfl⟩
          have hdict := congrArg StrRepo.strDict hrepo
          have hnum := congrArg StrRepo.numStrs hrepo
          cases rc with
          | error e =>
              refine ⟨?_, hdict.trans ?_, ?_, hnum.trans ?_⟩
              · rw [hresult.1, ← show s'.returned = s.returned from hreturned]
                rfl
              all_goals rw [hresult.2]; rfl
          | ok u =>
              refine ⟨?_, hdict.trans ?_, ?_, hnum.trans ?_⟩
              · rw [hresult.1, ← show s'.returned = s.returned from hreturned]
                rfl
              all_goals rw [hresult.2]; rfl

end Alone

/-- Two tasks intern different texts at the same time, then the same one. -/
def pairActs : List (Act 2) :=
  [.call 0 [97], .call 1 [98], .look 0, .look 1, .draw 1, .draw 0, .scan 0, .scan 1, .publish 1, .publish 0,
    .add 0, .call 0 [98], .add 1, .look 0]

/-- Two tasks that do not disturb each other. -/
theorem sound_of_reaches_pair : (pairActs.foldl step (start 2 { mempool := ⟨0⟩ })).Sound := by
  have htables : Tables { mempool := ⟨0⟩ } := by
    refine ⟨fun v seq h => (by cases h), fun id seq h => ?_⟩
    exact absurd h (decode_fresh ⟨0⟩ id seq)
  exact sound_of_reaches htables (Reaches.foldl .refl (by decide +kernel))

/-- **Two calls of a new text**: both miss it, and the second insertion is refused. -/
theorem not_sound_race : ¬(([.call 0 [97], .call 1 [97], .look 0, .look 1, .draw 0, .draw 1, .scan 0, .publish 0,
    .scan 1] : List (Act 2)).foldl step (start 2 { mempool := ⟨0⟩ })).Sound := by
  intro h
  obtain ⟨seq, hrc, -⟩ := h.decodes ([97], .error .conflict) (by decide +kernel)
  cases hrc

/-- **A reader between the two insertions** of a text returns a charseq whose id does not decode. -/
theorem not_sound_early : ¬(([.call 0 [97], .look 0, .draw 0, .scan 0, .publish 0, .call 1 [97], .look 1] :
    List (Act 2)).foldl step (start 2 { mempool := ⟨0⟩ })).Sound := by
  intro h
  obtain ⟨seq, hrc, -, hdec⟩ := h.decodes ([97], .ok ⟨0, [97], 0⟩) (by decide +kernel)
  cases hrc
  revert hdec
  decide +kernel

end Interning

end Knowdy
