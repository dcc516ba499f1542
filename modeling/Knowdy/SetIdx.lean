import Knowdy.Lib.Effect
import Knowdy.Lib.Mask
import Knowdy.Lib.Runs
import Knowdy.Utils
import Mathlib.Logic.Function.Basic

/-! # The index of a set: masks and folders

`kndSetIdx` of `knd_set_idx.c`: a radix tree of folders, each with a mask of the elements it holds, a mask of
its subfolders, and the pointers to these.

* `Folder` — a folder; `kndSetIdxAdd`, `kndSetIdxExist`, `doIntersect` — the functions.
* `Folder.Mem`, `Folder.Marked` — what the pointers lead to, and what the masks lead to.
* `mem_kndSetIdxAdd`, `mem_doIntersect` — an addition follows the pointers, an intersection the masks.
* `Family`, `Contract` — indices beside the sets that the same calls make.
* `refines_of_fits` — the indices are those sets as long as no intersection meets a common key below a folder
  that is not marked. -/

namespace Knowdy

namespace SetIdx

/-! ## (1) Folders -/

/-- Why a call does not return 0. -/
inductive SetIdxErr where
  /-- `knd_NOMEM`. -/
  | nomem
  /-- A failed assertion. -/
  | assertion
  /-- A null pointer is followed, or a slot past the end of `folders` is used. -/
  | undefined
  deriving DecidableEq, Repr

/-- `struct kndSetIdxFolder`: `null` is the null pointer. -/
inductive Folder where
  /-- No folder. -/
  | null
  /-- A folder: `elems_mask`, `folders_mask` and `folders`. -/
  | node (elemsMask foldersMask : BitVec 64) (folders : Digit → Folder)

namespace Folder

/-- `elems_mask` (`null` has no elements). -/
def elemsMask : Folder → BitVec 64
  | .null => 0
  | .node elemsMask _ _ => elemsMask

/-- `folders_mask` (`null` has no folders). -/
def foldersMask : Folder → BitVec 64
  | .null => 0
  | .node _ foldersMask _ => foldersMask

/-- `folders[i]` (`null` has no folders). -/
def folders : Folder → Digit → Folder
  | .null, _ => .null
  | .node _ _ folders, i => folders i

/-- Is it the null pointer? -/
def isNull : Folder → Bool
  | .null => true
  | .node _ _ _ => false

/-- `knd_set_idx_folder_new`: a folder of zeros. -/
def new : Folder := .node 0 0 fun _ => .null

@[simp] theorem elemsMask_node (e f : BitVec 64) (fs : Digit → Folder) : (node e f fs).elemsMask = e := rfl

@[simp] theorem foldersMask_node (e f : BitVec 64) (fs : Digit → Folder) : (node e f fs).foldersMask = f := rfl

@[simp] theorem folders_node (e f : BitVec 64) (fs : Digit → Folder) : (node e f fs).folders = fs := rfl

@[simp] theorem elemsMask_null : null.elemsMask = 0 := rfl

@[simp] theorem foldersMask_null : null.foldersMask = 0 := rfl

@[simp] theorem folders_null (i : Digit) : null.folders i = .null := rfl

@[simp] theorem isNull_node (e f : BitVec 64) (fs : Digit → Folder) : (node e f fs).isNull = false := rfl

@[simp] theorem isNull_null : null.isNull = true := rfl

/-- **The pointers lead to the key**: what a lookup finds. -/
def Mem : List Digit → Folder → Prop
  | [], _ => False
  | [i], f => f.elemsMask.getLsbD i = true
  | i :: j :: ds, f => (f.folders i).Mem (j :: ds)

/-- **The masks lead to the key**: what an intersection meets. -/
def Marked : List Digit → Folder → Prop
  | [], _ => False
  | [i], f => f.elemsMask.getLsbD i = true
  | i :: j :: ds, f => f.foldersMask.getLsbD i = true ∧ (f.folders i).Marked (j :: ds)

theorem mem_singleton (i : Digit) (f : Folder) : f.Mem [i] ↔ f.elemsMask.getLsbD i = true := Iff.rfl

theorem mem_cons {ds : List Digit} (h : ds ≠ []) (i : Digit) (f : Folder) :
    f.Mem (i :: ds) ↔ (f.folders i).Mem ds := by
  cases ds with
  | nil => exact absurd rfl h
  | cons j ds => exact Iff.rfl

theorem marked_cons {ds : List Digit} (h : ds ≠ []) (i : Digit) (f : Folder) :
    f.Marked (i :: ds) ↔ f.foldersMask.getLsbD i = true ∧ (f.folders i).Marked ds := by
  cases ds with
  | nil => exact absurd rfl h
  | cons j ds => exact Iff.rfl

instance decidableMem : (ds : List Digit) → (f : Folder) → Decidable (f.Mem ds)
  | [], _ => inferInstanceAs (Decidable False)
  | [i], f => inferInstanceAs (Decidable (f.elemsMask.getLsbD i = true))
  | i :: j :: ds, f => decidableMem (j :: ds) (f.folders i)

instance decidableMarked : (ds : List Digit) → (f : Folder) → Decidable (f.Marked ds)
  | [], _ => inferInstanceAs (Decidable False)
  | [i], f => inferInstanceAs (Decidable (f.elemsMask.getLsbD i = true))
  | i :: j :: ds, f =>
      have := decidableMarked (j :: ds) (f.folders i)
      inferInstanceAs (Decidable (f.foldersMask.getLsbD i = true ∧ (f.folders i).Marked (j :: ds)))

theorem not_mem_null (ds : List Digit) : ¬ null.Mem ds := by
  induction ds with
  | nil => exact id
  | cons i ds ih =>
      cases ds with
      | nil =>
          rw [mem_singleton, elemsMask_null]
          simp
      | cons j ds => exact ih

theorem not_mem_new (ds : List Digit) : ¬ new.Mem ds := by
  cases ds with
  | nil => exact id
  | cons i ds =>
      cases ds with
      | nil =>
          rw [mem_singleton]
          simp [new]
      | cons j ds => exact not_mem_null (j :: ds)

/-- What the masks lead to the pointers lead to. -/
theorem Marked.mem {ds : List Digit} {f : Folder} (h : f.Marked ds) : f.Mem ds := by
  induction ds generalizing f with
  | nil => exact h
  | cons i ds ih =>
      cases ds with
      | nil => exact h
      | cons j ds => exact ih h.2

/-- **The folder is well formed**: where a subfolder is marked, there is one. -/
def Proper : Folder → Prop
  | .null => True
  | .node _ foldersMask folders =>
      (∀ bit, foldersMask.getLsbD bit = true → ∃ i : Digit, i.val = bit ∧ (folders i).isNull = false) ∧
        ∀ i, (folders i).Proper

/-- **Every subfolder is marked.** -/
def Linked : Folder → Prop
  | .null => True
  | .node _ foldersMask folders =>
      ∀ i : Digit, ((folders i).isNull = false → foldersMask.getLsbD i = true) ∧ (folders i).Linked

/-- Where every subfolder is marked the masks lead to all that the pointers lead to. -/
theorem Linked.marked {ds : List Digit} {f : Folder} (h : f.Linked) (hmem : f.Mem ds) : f.Marked ds := by
  induction ds generalizing f with
  | nil => exact hmem
  | cons i ds ih =>
      cases ds with
      | nil => exact hmem
      | cons j ds =>
          cases f with
          | null => exact absurd hmem (not_mem_null _)
          | node e m fs =>
              obtain ⟨hmark, hsub⟩ := h i
              have hfs : (fs i).Mem (j :: ds) := hmem
              refine ⟨hmark ?_, ih hsub hfs⟩
              cases hnull : fs i with
              | null =>
                  rw [hnull] at hfs
                  exact absurd hfs (not_mem_null _)
              | node _ _ _ => rfl

theorem proper_new : new.Proper :=
  ⟨fun bit h => by simp at h, fun _ => trivial⟩

theorem linked_new : new.Linked := fun _ => ⟨fun h => (by cases h), trivial⟩

end Folder

/-! ## (2) Addition and lookup -/

/-- `knd_set_idx_add`, for the folder that is reached and the folders that `calloc` can still give. -/
def kndSetIdxAdd : List UInt8 → Folder → Nat → Except SetIdxErr Unit × Folder × Nat
  | [], folder, room => (.error .assertion, folder, room)
  | _ :: _, .null, room => (.error .undefined, .null, room)
  | [c], .node elemsMask foldersMask folders, room =>
      match objIdBase c with
      | none => (.error .assertion, .node elemsMask foldersMask folders, room)
      | some bit => (.ok (), .node (Mask.mark elemsMask bit) foldersMask folders, room)
  | c :: d :: key, .node elemsMask foldersMask folders, room =>
      match objIdBase c with
      | none => (.error .assertion, .node elemsMask foldersMask folders, room)
      | some bit =>
          match folders bit, room with
          | .null, 0 => (.error .nomem, .node elemsMask foldersMask folders, 0)
          | .null, room + 1 =>
              match kndSetIdxAdd (d :: key) .new room with
              | (res, next, room) =>
                  (res, .node elemsMask (Mask.mark foldersMask bit) (Function.update folders bit next), room)
          | .node e f fs, room =>
              match kndSetIdxAdd (d :: key) (.node e f fs) room with
              | (res, next, room) =>
                  (res, .node elemsMask foldersMask (Function.update folders bit next), room)

/-- `knd_set_idx_exist`, for the folder that is reached. -/
def kndSetIdxExist : List UInt8 → Folder → Except SetIdxErr Bool
  | [], _ => .error .assertion
  | [c], folder =>
      match objIdBase c with
      | none => .error .assertion
      | some bit => .ok (Mask.test folder.elemsMask bit)
  | c :: d :: key, folder =>
      match objIdBase c with
      | none => .error .assertion
      | some bit =>
          match folder.folders bit with
          | .null => .ok false
          | .node e f fs => kndSetIdxExist (d :: key) (.node e f fs)

/-- **A lookup follows the pointers.** -/
theorem kndSetIdxExist_eq {ds : List Digit} (hds : ds ≠ []) (f : Folder) :
    ∃ found, kndSetIdxExist (digitsKey ds) f = .ok found ∧ (found = true ↔ f.Mem ds) := by
  induction ds generalizing f with
  | nil => exact absurd rfl hds
  | cons i ds ih =>
      cases ds with
      | nil =>
          refine ⟨Mask.test f.elemsMask i, ?_, ?_⟩
          · simp only [digitsKey_cons, digitsKey_nil, kndSetIdxExist, objIdBase_objIdSeq]
          · rw [Mask.test_eq, Folder.mem_singleton]
      | cons j ds =>
          have hunfold : kndSetIdxExist (digitsKey (i :: j :: ds)) f
              = match f.folders i with
                | .null => .ok false
                | .node e m fs => kndSetIdxExist (digitsKey (j :: ds)) (.node e m fs) := by
            simp only [digitsKey_cons, kndSetIdxExist, objIdBase_objIdSeq]
          rw [hunfold, Folder.mem_cons (List.cons_ne_nil j ds)]
          cases hsub : f.folders i with
          | null =>
              refine ⟨false, rfl, ?_⟩
              simp [Folder.not_mem_null]
          | node e m fs => exact ih (List.cons_ne_nil j ds) (.node e m fs)


/-! ## (3) What an addition does -/

/-- **The effect of an addition** on a folder: the key is there when the call returns, and nothing else is
changed; a failed `calloc` leaves the elements as they were. -/
structure Added (ds : List Digit) (f f' : Folder) (res : Except SetIdxErr Unit) : Prop where
  /-- It is still a folder. -/
  isNull : f'.isNull = false
  /-- Marked subfolders are there. -/
  proper : f.Proper → f'.Proper
  /-- Subfolders that are there are marked, if they were before. -/
  linked : f.Linked → f'.Linked
  /-- The elements. -/
  mem : (res = .ok () ∧ ∀ es, f'.Mem es ↔ es = ds ∨ f.Mem es) ∨
    (res = .error .nomem ∧ ∀ es, f'.Mem es ↔ f.Mem es)

/-- The keys of a folder one of whose subfolders is replaced. -/
theorem mem_update (e m m' : BitVec 64) (fs : Digit → Folder) (i : Digit) (sub : Folder) {es : List Digit}
    (hes : es ≠ []) (j : Digit) :
    (Folder.node e m' (Function.update fs i sub)).Mem (j :: es) ↔
      if j = i then sub.Mem es else (Folder.node e m fs).Mem (j :: es) := by
  rw [Folder.mem_cons hes, Folder.mem_cons hes, Folder.folders_node, Folder.folders_node]
  by_cases hj : j = i
  · rw [if_pos hj, hj, Function.update_self]
  · rw [if_neg hj, Function.update_of_ne hj]

/-- An addition below a folder is an addition to the folder. -/
theorem Added.below {ds : List Digit} {e m m' : BitVec 64} {fs : Digit → Folder} {i : Digit}
    {sub sub' : Folder} {res : Except SetIdxErr Unit} (hds : ds ≠ []) (h : Added ds sub sub' res)
    (hmem : ∀ es, sub.Mem es ↔ (fs i).Mem es) (hproper : (fs i).Proper → sub.Proper)
    (hlinked : (fs i).Linked → sub.Linked)
    (hold : ∀ bit, m.getLsbD bit = true → m'.getLsbD bit = true)
    (hnew : ∀ bit, m'.getLsbD bit = true → bit = i.val ∨ m.getLsbD bit = true)
    (hmark : (Folder.node e m fs).Linked → m'.getLsbD i = true) :
    Added (i :: ds) (.node e m fs) (.node e m' (Function.update fs i sub')) res where
  isNull := rfl
  proper := by
    rintro ⟨hbits, hsubs⟩
    refine ⟨fun bit hbit => ?_, fun j => ?_⟩
    · rcases hnew bit hbit with rfl | hbit
      · exact ⟨i, rfl, by rw [Function.update_self]; exact h.isNull⟩
      · obtain ⟨j, rfl, hj⟩ := hbits bit hbit
        refine ⟨j, rfl, ?_⟩
        by_cases hji : j = i
        · rw [hji, Function.update_self]
          exact h.isNull
        · rw [Function.update_of_ne hji]
          exact hj
    · by_cases hji : j = i
      · rw [hji, Function.update_self]
        exact h.proper (hproper (hsubs i))
      · rw [Function.update_of_ne hji]
        exact hsubs j
  linked := by
    intro hall j
    by_cases hji : j = i
    · rw [hji, Function.update_self]
      exact ⟨fun _ => hmark hall, h.linked (hlinked (hall i).2)⟩
    · rw [Function.update_of_ne hji]
      exact ⟨fun hnull => hold j ((hall j).1 hnull), (hall j).2⟩
  mem := by
    -- the own elements of the folder are untouched, and so are the other subfolders
    rcases h.mem with ⟨hres, hsub⟩ | ⟨hres, hsub⟩
    · refine .inl ⟨hres, fun es => ?_⟩
      cases es with
      | nil => simp [Folder.Mem]
      | cons j es =>
          by_cases hes : es = []
          · subst hes
            simp [Folder.Mem, Ne.symm hds]
          · rw [mem_update e m m' fs i sub' hes]
            by_cases hji : j = i
            · rw [if_pos hji, hsub, hmem, hji, Folder.mem_cons hes, Folder.folders_node]
              simp
            · rw [if_neg hji]
              simp [hji]
    · refine .inr ⟨hres, fun es => ?_⟩
      cases es with
      | nil => exact Iff.rfl
      | cons j es =>
          by_cases hes : es = []
          · subst hes
            exact Iff.rfl
          · rw [mem_update e m m' fs i sub' hes]
            by_cases hji : j = i
            · rw [if_pos hji, hsub, hmem, hji, Folder.mem_cons hes, Folder.folders_node]
            · rw [if_neg hji]

/-- A digit is a bit of the mask. -/
theorem digit_lt_word (i : Digit) : i.val < 64 := by omega

/-- **Every addition** under a proper key to a folder that is there has this effect. -/
theorem added_kndSetIdxAdd {ds : List Digit} (hds : ds ≠ []) {f : Folder} (hf : f.isNull = false) (room : Nat) :
    Added ds f (kndSetIdxAdd (digitsKey ds) f room).2.1 (kndSetIdxAdd (digitsKey ds) f room).1 := by
  induction ds generalizing f room with
  | nil => exact absurd rfl hds
  | cons i ds ih =>
      cases f with
      | null => cases hf
      | node e m fs =>
          cases ds with
          | nil =>
              have hadd : kndSetIdxAdd (digitsKey [i]) (.node e m fs) room
                  = (.ok (), .node (Mask.mark e i) m fs, room) := by
                simp only [digitsKey_cons, digitsKey_nil, kndSetIdxAdd, objIdBase_objIdSeq]
              rw [hadd]
              refine ⟨rfl, id, id, .inl ⟨rfl, fun es => ?_⟩⟩
              cases es with
              | nil => simp [Folder.Mem]
              | cons j es =>
                  cases es with
                  | nil =>
                      rw [Folder.mem_singleton, Folder.elemsMask_node, Mask.getLsbD_mark (digit_lt_word i),
                        Folder.mem_singleton, Folder.elemsMask_node, List.cons.injEq, and_iff_left rfl,
                        Fin.val_inj]
                  | cons k es => simp [Folder.Mem]
          | cons j ds =>
              have hne : j :: ds ≠ [] := List.cons_ne_nil j ds
              cases hsub : fs i with
              | null =>
                  cases room with
                  | zero =>
                      have hadd : kndSetIdxAdd (digitsKey (i :: j :: ds)) (.node e m fs) 0
                          = (.error .nomem, .node e m fs, 0) := by
                        simp only [digitsKey_cons, kndSetIdxAdd, objIdBase_objIdSeq, hsub]
                      rw [hadd]
                      exact ⟨rfl, id, id, .inr ⟨rfl, fun _ => Iff.rfl⟩⟩
                  | succ room =>
                      have hadd : kndSetIdxAdd (digitsKey (i :: j :: ds)) (.node e m fs) (room + 1)
                          = ((kndSetIdxAdd (digitsKey (j :: ds)) .new room).1,
                            .node e (Mask.mark m i)
                              (Function.update fs i (kndSetIdxAdd (digitsKey (j :: ds)) .new room).2.1),
                            (kndSetIdxAdd (digitsKey (j :: ds)) .new room).2.2) := by
                        simp only [digitsKey_cons, kndSetIdxAdd, objIdBase_objIdSeq, hsub]
                      rw [hadd]
                      apply (ih hne (f := .new) rfl room).below hne
                      · intro es
                        rw [hsub]
                        exact iff_of_false (Folder.not_mem_new es) (Folder.not_mem_null es)
                      · exact fun _ => Folder.proper_new
                      · exact fun _ => Folder.linked_new
                      · exact fun bit hbit => (Mask.getLsbD_mark (digit_lt_word i) bit).mpr (.inr hbit)
                      · exact fun bit hbit => (Mask.getLsbD_mark (digit_lt_word i) bit).mp hbit
                      · exact fun _ => (Mask.getLsbD_mark (digit_lt_word i) i).mpr (.inl rfl)
              | node e' m' fs' =>
                  have hadd : kndSetIdxAdd (digitsKey (i :: j :: ds)) (.node e m fs) room
                      = ((kndSetIdxAdd (digitsKey (j :: ds)) (.node e' m' fs') room).1,
                        .node e m
                          (Function.update fs i (kndSetIdxAdd (digitsKey (j :: ds)) (.node e' m' fs') room).2.1),
                        (kndSetIdxAdd (digitsKey (j :: ds)) (.node e' m' fs') room).2.2) := by
                    simp only [digitsKey_cons, kndSetIdxAdd, objIdBase_objIdSeq, hsub]
                  rw [hadd]
                  apply (ih hne (f := .node e' m' fs') rfl room).below hne
                  · intro es
                    rw [hsub]
                  · rw [hsub]
                    exact id
                  · rw [hsub]
                    exact id
                  · exact fun _ hbit => hbit
                  · exact fun _ hbit => .inr hbit
                  · intro hall
                    exact (hall i).1 (by rw [hsub]; rfl)

/-! ## (4) Intersection -/

/-- The `calloc` of a folder: `room` folders can still be had. -/
def folderNew : EStateM SetIdxErr Nat Unit := fun room =>
  match room with
  | 0 => .error .nomem 0
  | room + 1 => .ok () room

/-- One round of the loop of `knd_set_idx_folder_do_intersect`: the bit is a marked folder of all operands,
`sub` the intersection of their subfolders. A subfolder without elements is unmarked, and stays where it is. -/
def intersectRound (sub : Digit → EStateM SetIdxErr Nat Folder) (result : Folder) (bit : Nat) :
    EStateM SetIdxErr Nat Folder :=
  if h : bit < 62 then do
    folderNew
    let subresult ← sub ⟨bit, h⟩
    pure (.node result.elemsMask
      (if subresult.elemsMask = 0 ∧ subresult.foldersMask = 0 then Mask.unmark result.foldersMask bit
        else result.foldersMask)
      (Function.update result.folders ⟨bit, h⟩ subresult))
  else throw .undefined

/-- `knd_set_idx_folder_do_intersect`, for the first operand and the others. -/
def doIntersect : Folder → List Folder → EStateM SetIdxErr Nat Folder
  | .null, _ => throw .undefined
  | .node elemsMask foldersMask folders, others =>
      if others.any Folder.isNull then throw .undefined
      else
        let common := others.foldl (fun mask f => mask &&& f.foldersMask) foldersMask
        (Mask.bits common).foldlM
          (intersectRound fun i => doIntersect (folders i) (others.map fun f => f.folders i))
          (.node (others.foldl (fun mask f => mask &&& f.elemsMask) elemsMask) common fun _ => .null)

/-- `knd_set_idx_new_result_of_intersect`, for the first operand and the others. -/
def kndSetIdxNewResultOfIntersect (idx : Folder) (idxs : List Folder) : EStateM SetIdxErr Nat Folder := do
  folderNew
  doIntersect idx idxs

/-- A bit of the common mask is a bit of every mask. -/
theorem getLsbD_foldl_and (mask : Folder → BitVec 64) (fs : List Folder) (m : BitVec 64) (bit : Nat) :
    (fs.foldl (fun m f => m &&& mask f) m).getLsbD bit = true ↔
      m.getLsbD bit = true ∧ ∀ f ∈ fs, (mask f).getLsbD bit = true := by
  induction fs generalizing m with
  | nil => simp
  | cons f fs ih =>
      rw [List.foldl_cons, ih, BitVec.getLsbD_and, Bool.and_eq_true, List.forall_mem_cons, and_assoc]

/-- **What the rounds make** of a result: the subfolders of the bits they have seen. -/
structure Filled (sub : Digit → EStateM SetIdxErr Nat Folder) (bits : List Nat) (f f' : Folder) : Prop where
  /-- The elements are those of the folder before. -/
  elemsMask : f'.elemsMask = f.elemsMask
  /-- No folder is marked that was not. -/
  foldersMask : ∀ bit, f'.foldersMask.getLsbD bit = true → f.foldersMask.getLsbD bit = true
  /-- The bits are digits. -/
  digits : ∀ bit ∈ bits, bit < 62
  /-- The subfolders that are new. -/
  seen : ∀ i : Digit, i.val ∈ bits → ∃ room room', (sub i).run room = .ok (f'.folders i) room'
  /-- The other subfolders. -/
  unseen : ∀ i : Digit, i.val ∉ bits → f'.folders i = f.folders i

theorem run_intersectRound {sub : Digit → EStateM SetIdxErr Nat Folder} {f f' : Folder} {bit room room' : Nat}
    (h : (intersectRound sub f bit).run room = .ok f' room') : Filled sub [bit] f f' ∧ f'.isNull = false := by
  rw [intersectRound] at h
  split at h
  · rename_i hbit
    obtain ⟨⟨⟩, room₁, -, h⟩ := run_bind_eq_ok.mp h
    obtain ⟨subresult, room₂, hsub, h⟩ := run_bind_eq_ok.mp h
    cases h
    refine ⟨⟨rfl, fun j hj => ?_, ?_, fun i hi => ?_, fun i hi => ?_⟩, rfl⟩
    · rw [Folder.foldersMask_node] at hj
      split at hj
      · exact ((Mask.getLsbD_unmark j).mp hj).1
      · exact hj
    · simpa using hbit
    · obtain rfl : i = ⟨bit, hbit⟩ := Fin.ext (by simpa using hi)
      exact ⟨room₁, room', by rw [Folder.folders_node, Function.update_self]; exact hsub⟩
    · have hne : i ≠ ⟨bit, hbit⟩ := by
        rintro rfl
        exact hi (List.mem_singleton_self bit)
      rw [Folder.folders_node, Function.update_of_ne hne]
  · cases h

/-- **The loop** over distinct bits. -/
theorem run_rounds {sub : Digit → EStateM SetIdxErr Nat Folder} {bits : List Nat} (hbits : bits.Nodup)
    {f f' : Folder} {room room' : Nat}
    (h : (bits.foldlM (intersectRound sub) f).run room = .ok f' room') (hf : f.isNull = false) :
    Filled sub bits f f' ∧ f'.isNull = false := by
  induction bits generalizing f room with
  | nil =>
      cases h
      exact ⟨⟨rfl, fun _ h => h, fun bit hbit => (List.not_mem_nil hbit).elim,
        fun i hi => (List.not_mem_nil hi).elim, fun _ _ => rfl⟩, hf⟩
  | cons bit bits ih =>
      obtain ⟨hbit, hbits⟩ := List.nodup_cons.mp hbits
      rw [List.foldlM_cons] at h
      obtain ⟨f₁, room₁, hround, hloop⟩ := run_bind_eq_ok.mp h
      obtain ⟨hone, hf₁⟩ := run_intersectRound hround
      obtain ⟨hrest, hf'⟩ := ih hbits hloop hf₁
      refine ⟨⟨hrest.elemsMask.trans hone.elemsMask, fun j hj => hone.foldersMask j (hrest.foldersMask j hj),
        ?_, fun i hi => ?_, fun i hi => ?_⟩, hf'⟩
      · exact List.forall_mem_cons.mpr ⟨hone.digits bit (List.mem_singleton_self bit), hrest.digits⟩
      · rcases List.mem_cons.mp hi with hi | hi
        · -- a bit is seen once: the later rounds leave its subfolder alone
          rw [hrest.unseen i (by rw [hi]; exact hbit)]
          exact hone.seen i (by rw [hi]; exact List.mem_singleton_self bit)
        · exact hrest.seen i hi
      · rw [hrest.unseen i fun h => hi (List.mem_cons_of_mem bit h)]
        exact hone.unseen i fun h => hi (by rw [List.mem_singleton.mp h]; exact List.mem_cons_self)

/-- A returning intersection, seen as its loop. -/
theorem run_doIntersect {e m : BitVec 64} {fs : Digit → Folder} {others : List Folder} {r : Folder}
    {room room' : Nat} (h : (doIntersect (.node e m fs) others).run room = .ok r room') :
    ∃ common elems : BitVec 64,
      (∀ bit, common.getLsbD bit = true ↔
        ∀ f ∈ Folder.node e m fs :: others, f.foldersMask.getLsbD bit = true) ∧
      (∀ bit, elems.getLsbD bit = true ↔
        ∀ f ∈ Folder.node e m fs :: others, f.elemsMask.getLsbD bit = true) ∧
      Filled (fun i => doIntersect (fs i) (others.map fun f => f.folders i)) (Mask.bits common)
        (.node elems common fun _ => .null) r ∧ r.isNull = false := by
  rw [doIntersect] at h
  split at h
  · cases h
  · obtain ⟨hfilled, hnull⟩ := run_rounds (Mask.nodup_bits _) h rfl
    refine ⟨_, _, fun bit => ?_, fun bit => ?_, hfilled, hnull⟩
    · rw [getLsbD_foldl_and, List.forall_mem_cons]
      rfl
    · rw [getLsbD_foldl_and, List.forall_mem_cons]
      rfl

/-- **An intersection follows the masks**: the result holds the keys to which the masks of every operand lead. -/
theorem mem_doIntersect {f : Folder} {others : List Folder} {r : Folder} {room room' : Nat}
    (h : (doIntersect f others).run room = .ok r room') (ds : List Digit) :
    r.Mem ds ↔ ∀ g ∈ f :: others, g.Marked ds := by
  induction f generalizing others r room room' ds with
  | null => cases h
  | node e m fs ih =>
      obtain ⟨common, elems, hcommon, helems, hfilled, -⟩ := run_doIntersect h
      cases ds with
      | nil => exact ⟨False.elim, fun h => h _ List.mem_cons_self⟩
      | cons i ds =>
          by_cases hds : ds = []
          · subst hds
            rw [Folder.mem_singleton, hfilled.elemsMask, Folder.elemsMask_node, helems]
            exact Iff.rfl
          · rw [Folder.mem_cons hds]
            have hmarked : (∀ g ∈ Folder.node e m fs :: others, g.Marked (i :: ds)) ↔
                common.getLsbD i = true ∧
                  ∀ g ∈ fs i :: others.map fun f => f.folders i, g.Marked ds := by
              rw [hcommon]
              simp only [Folder.marked_cons hds, List.forall_mem_cons, List.forall_mem_map,
                Folder.foldersMask_node, Folder.folders_node]
              constructor
              · rintro ⟨⟨hm, hsub⟩, hall⟩
                exact ⟨⟨hm, fun g hg => (hall g hg).1⟩, hsub, fun g hg => (hall g hg).2⟩
              · rintro ⟨⟨hm, hmask⟩, hsub, hall⟩
                exact ⟨⟨hm, hsub⟩, fun g hg => ⟨hmask g hg, hall g hg⟩⟩
            rw [hmarked]
            by_cases hbit : common.getLsbD i = true
            · obtain ⟨room₁, room₂, hrun⟩ := hfilled.seen i (Mask.mem_bits.mpr hbit)
              rw [ih i hrun ds, and_iff_right hbit]
            · rw [hfilled.unseen i fun hmem => hbit (Mask.mem_bits.mp hmem)]
              exact iff_of_false (Folder.not_mem_null ds) fun h => hbit h.1

/-- The result of an intersection is a well-formed folder. -/
theorem proper_doIntersect {f : Folder} {others : List Folder} {r : Folder} {room room' : Nat}
    (h : (doIntersect f others).run room = .ok r room') : r.Proper ∧ r.isNull = false := by
  induction f generalizing others r room room' with
  | null => cases h
  | node e m fs ih =>
      obtain ⟨common, elems, -, -, hfilled, hnull⟩ := run_doIntersect h
      refine ⟨?_, hnull⟩
      have hsub : ∀ i : Digit, i.val ∈ Mask.bits common →
          (r.folders i).Proper ∧ (r.folders i).isNull = false := by
        intro i hi
        obtain ⟨room₁, room₂, hrun⟩ := hfilled.seen i hi
        exact ih i hrun
      have hbits := hfilled.foldersMask
      have hdigits := hfilled.digits
      have hunseen := hfilled.unseen
      cases r with
      | null => cases hnull
      | node e' m' fs' =>
          refine ⟨fun bit hbit => ?_, fun i => ?_⟩
          · have hmem : bit ∈ Mask.bits common := Mask.mem_bits.mpr (hbits bit hbit)
            exact ⟨⟨bit, hdigits bit hmem⟩, rfl, (hsub ⟨bit, hdigits bit hmem⟩ hmem).2⟩
          · by_cases hi : i.val ∈ Mask.bits common
            · exact (hsub i hi).1
            · have := hunseen i hi
              rw [Folder.folders_node, Folder.folders_node] at this
              rw [this]
              trivial

/-- A round fails where `calloc` does or where the intersection of the subfolders does. -/
theorem error_intersectRound {sub : Digit → EStateM SetIdxErr Nat Folder} {f : Folder} {bit room room' : Nat}
    {e : SetIdxErr} (hbit : bit < 62)
    (hsub : ∀ room room' e, (sub ⟨bit, hbit⟩).run room = .error e room' → e = .nomem)
    (h : (intersectRound sub f bit).run room = .error e room') : e = .nomem := by
  rw [intersectRound, dif_pos hbit] at h
  rcases run_bind_eq_error.mp h with h | ⟨⟨⟩, room₁, -, h⟩
  · cases room with
    | zero =>
        cases h
        rfl
    | succ room => cases h
  · rcases run_bind_eq_error.mp h with h | ⟨subresult, room₂, -, h⟩
    · exact hsub room₁ room' e h
    · cases h

/-- The loop fails where one of its rounds does. -/
theorem error_rounds {sub : Digit → EStateM SetIdxErr Nat Folder} {bits : List Nat} {f : Folder}
    {room room' : Nat} {e : SetIdxErr}
    (hround : ∀ bit ∈ bits, ∃ hbit : bit < 62, ∀ room room' e,
      (sub ⟨bit, hbit⟩).run room = .error e room' → e = .nomem)
    (h : (bits.foldlM (intersectRound sub) f).run room = .error e room') : e = .nomem := by
  induction bits generalizing f room with
  | nil => cases h
  | cons bit bits ih =>
      obtain ⟨⟨hbit, hsub⟩, hrest⟩ := List.forall_mem_cons.mp hround
      rw [List.foldlM_cons] at h
      rcases run_bind_eq_error.mp h with h | ⟨f₁, room₁, -, h⟩
      · exact error_intersectRound hbit hsub h
      · exact ih hrest h

/-- **Nothing undefined happens** in an intersection of well-formed folders: it can only run out of memory. -/
theorem error_doIntersect {f : Folder} {others : List Folder} {room room' : Nat} {e : SetIdxErr}
    (hall : ∀ g ∈ f :: others, g.Proper ∧ g.isNull = false)
    (h : (doIntersect f others).run room = .error e room') : e = .nomem := by
  induction f generalizing others room room' e with
  | null => cases (hall .null List.mem_cons_self).2
  | node es m fs ih =>
      have hnull : others.any Folder.isNull = false := by
        rw [List.any_eq_false]
        intro g hg
        rw [(hall g (List.mem_cons_of_mem _ hg)).2]
        exact Bool.false_ne_true
      rw [doIntersect, if_neg (by rw [hnull]; exact Bool.false_ne_true)] at h
      -- a common bit is a digit, and its subfolder is there in every operand
      have hround : ∀ bit ∈ Mask.bits (others.foldl (fun mask f => mask &&& f.foldersMask) m),
          ∃ hbit : bit < 62, ∀ room room' e,
            (doIntersect (fs ⟨bit, hbit⟩) (others.map fun f => f.folders ⟨bit, hbit⟩)).run room
              = .error e room' → e = .nomem := by
        intro bit hbit
        have hcommon : ∀ g ∈ Folder.node es m fs :: others, g.foldersMask.getLsbD bit = true := by
          rw [List.forall_mem_cons]
          exact (getLsbD_foldl_and Folder.foldersMask others m bit).mp (Mask.mem_bits.mp hbit)
        have hsub : ∀ g ∈ Folder.node es m fs :: others,
            ∃ i : Digit, i.val = bit ∧ (g.folders i).Proper ∧ (g.folders i).isNull = false := by
          intro g hg
          obtain ⟨hproper, hgnull⟩ := hall g hg
          cases g with
          | null => cases hgnull
          | node e' m' fs' =>
              obtain ⟨i, hi, hinull⟩ := hproper.1 bit (hcommon _ hg)
              exact ⟨i, hi, hproper.2 i, hinull⟩
        obtain ⟨i, rfl, hi⟩ := hsub _ List.mem_cons_self
        refine ⟨i.isLt, fun room room' e hrun => ih i (fun g hg => ?_) hrun⟩
        rcases List.mem_cons.mp hg with rfl | hg
        · exact hi
        · obtain ⟨g', hg', rfl⟩ := List.mem_map.mp hg
          obtain ⟨j, hj, hgj⟩ := hsub g' (List.mem_cons_of_mem _ hg')
          obtain rfl := Fin.ext hj
          exact hgj
      exact error_rounds hround h


/-! ## (5) A family of indices -/

/-- A non-empty base-62 key, by its digits. -/
abbrev Key : Type := { ds : List Digit // ds ≠ [] }

/-- An index beside the set that the same calls make. -/
structure Tracked where
  /-- The root folder. -/
  idx : Folder
  /-- The set. -/
  set : Key → Prop

/-- The indices of a program and the folders that `calloc` can still give. -/
structure Family where
  /-- The indices. -/
  idxs : List Tracked
  /-- The folders that are left. -/
  room : Nat

/-- A call. -/
inductive Op where
  /-- `knd_set_idx_new`. -/
  | new
  /-- `knd_set_idx_add` of a key to an index. -/
  | add (i : Nat) (key : Key)
  /-- `knd_set_idx_new_result_of_intersect` of some indices, in this order; one may come several times. -/
  | intersect (is : List Nat)

namespace Family

/-- No index, and room for some folders. -/
def start (room : Nat) : Family := ⟨[], room⟩

/-- The operands of an intersection. -/
def operands (s : Family) (is : List Nat) : List Tracked := is.filterMap fun i => s.idxs[i]?

/-- One call. A call that fails makes no set; an addition that fails may leave folders behind. -/
def step (s : Family) : Op → Family
  | .new =>
      match folderNew.run s.room with
      | .ok _ room => ⟨s.idxs ++ [⟨.new, fun _ => False⟩], room⟩
      | .error _ room => ⟨s.idxs, room⟩
  | .add i key =>
      match s.idxs[i]? with
      | none => s
      | some t =>
          match kndSetIdxAdd (digitsKey key.val) t.idx s.room with
          | (.ok (), idx, room) => ⟨s.idxs.set i ⟨idx, fun k => k = key ∨ t.set k⟩, room⟩
          | (.error _, idx, room) => ⟨s.idxs.set i ⟨idx, t.set⟩, room⟩
  | .intersect is =>
      match s.operands is with
      | [] => s
      | t :: ts =>
          match (kndSetIdxNewResultOfIntersect t.idx (ts.map Tracked.idx)).run s.room with
          | .ok r room => ⟨s.idxs ++ [⟨r, fun key => ∀ u ∈ t :: ts, u.set key⟩], room⟩
          | .error _ room => ⟨s.idxs, room⟩

/-- **The contract**: a lookup finds the keys of the set and no others. -/
def Contract (s : Family) : Prop :=
  ∀ t ∈ s.idxs, ∀ key : Key, kndSetIdxExist (digitsKey key.val) t.idx = .ok true ↔ t.set key

/-- **The masks of the operands agree on what they have in common**: to a key that all of them hold the masks
of all of them lead. It fails where a key was added below a folder that an earlier intersection unmarked. -/
def MasksLead (ts : List Tracked) : Prop :=
  ∀ key : Key, (∀ t ∈ ts, t.idx.Mem key.val) → ∀ t ∈ ts, t.idx.Marked key.val

/-- The calls for which an intersection loses nothing. -/
def Fits (s : Family) : Op → Prop
  | .new => True
  | .add _ _ => True
  | .intersect is => MasksLead (s.operands is)

/-- Every index is well formed and holds its set. -/
structure Holds (t : Tracked) : Prop where
  /-- The root is there. -/
  isNull : t.idx.isNull = false
  /-- Marked subfolders are there. -/
  proper : t.idx.Proper
  /-- The pointers lead to the keys of the set. -/
  mem : ∀ key : Key, t.idx.Mem key.val ↔ t.set key

/-- The operands are indices of the family. -/
theorem mem_of_operands {s : Family} {is : List Nat} {t : Tracked} (h : t ∈ s.operands is) : t ∈ s.idxs := by
  obtain ⟨i, -, hi⟩ := List.mem_filterMap.mp h
  exact List.mem_of_getElem? hi

/-- The invariant: every index holds its set. -/
def Inv (s : Family) : Prop := ∀ t ∈ s.idxs, Holds t

theorem inv_start (room : Nat) : Inv (start room) := fun _ h => (List.not_mem_nil h).elim

/-- One index more that holds its set. -/
theorem Inv.concat {s : Family} (h : Inv s) {t : Tracked} (ht : Holds t) (room : Nat) :
    Inv ⟨s.idxs ++ [t], room⟩ := by
  intro u hu
  rcases List.mem_append.mp hu with hu | hu
  · exact h u hu
  · rw [List.mem_singleton.mp hu]
    exact ht

/-- One index is replaced by one that holds its set. -/
theorem Inv.set {s : Family} (h : Inv s) (i : Nat) {t : Tracked} (ht : Holds t) (room : Nat) :
    Inv ⟨s.idxs.set i t, room⟩ := by
  intro u hu
  rcases List.mem_or_eq_of_mem_set hu with hu | rfl
  · exact h u hu
  · exact ht

theorem holds_new : Holds ⟨.new, fun _ => False⟩ :=
  ⟨rfl, Folder.proper_new, fun key => iff_of_false (Folder.not_mem_new key.val) id⟩

/-- **An addition that returns** adds the key to the set. -/
theorem Holds.add {t : Tracked} (h : Holds t) (key : Key) {idx : Folder} {room room' : Nat}
    (hadd : kndSetIdxAdd (digitsKey key.val) t.idx room = (.ok (), idx, room')) :
    Holds ⟨idx, fun k => k = key ∨ t.set k⟩ := by
  have hadded := added_kndSetIdxAdd key.property h.isNull room
  rw [hadd] at hadded
  refine ⟨hadded.isNull, hadded.proper h.proper, fun k => ?_⟩
  rcases hadded.mem with ⟨-, hmem⟩ | ⟨hres, -⟩
  · rw [hmem, h.mem k, ← Subtype.ext_iff]
  · cases hres

/-- **An addition that fails** ran out of memory, and the set is as it was. -/
theorem Holds.addFailed {t : Tracked} (h : Holds t) (key : Key) {idx : Folder} {room room' : Nat} {e : SetIdxErr}
    (hadd : kndSetIdxAdd (digitsKey key.val) t.idx room = (.error e, idx, room')) :
    e = .nomem ∧ Holds ⟨idx, t.set⟩ := by
  have hadded := added_kndSetIdxAdd key.property h.isNull room
  rw [hadd] at hadded
  rcases hadded.mem with ⟨hres, -⟩ | ⟨hres, hmem⟩
  · cases hres
  · cases hres
    exact ⟨rfl, hadded.isNull, hadded.proper h.proper, fun k => (hmem k.val).trans (h.mem k)⟩

/-- **An intersection that returns** holds the keys to which all masks lead. -/
theorem mem_intersect {t : Tracked} {ts : List Tracked} {r : Folder} {room room' : Nat}
    (hrun : (kndSetIdxNewResultOfIntersect t.idx (ts.map Tracked.idx)).run room = .ok r room') :
    r.isNull = false ∧ r.Proper ∧ ∀ ds, r.Mem ds ↔ ∀ u ∈ t :: ts, u.idx.Marked ds := by
  obtain ⟨⟨⟩, room₁, -, hrun⟩ := run_bind_eq_ok.mp hrun
  obtain ⟨hproper, hnull⟩ := proper_doIntersect hrun
  refine ⟨hnull, hproper, fun ds => ?_⟩
  rw [mem_doIntersect hrun, ← List.map_cons (f := Tracked.idx), List.forall_mem_map]

/-- **The result is the intersection** of the sets exactly when the masks lead to what the operands share. -/
theorem holds_intersect_iff {t : Tracked} {ts : List Tracked} (h : ∀ u ∈ t :: ts, Holds u) {r : Folder}
    {room room' : Nat}
    (hrun : (kndSetIdxNewResultOfIntersect t.idx (ts.map Tracked.idx)).run room = .ok r room') :
    Holds ⟨r, fun key => ∀ u ∈ t :: ts, u.set key⟩ ↔ MasksLead (t :: ts) := by
  obtain ⟨hnull, hproper, hmem⟩ := mem_intersect hrun
  have hset : ∀ key : Key, (∀ u ∈ t :: ts, u.set key) ↔ ∀ u ∈ t :: ts, u.idx.Mem key.val :=
    fun key => forall₂_congr fun u hu => ((h u hu).mem key).symm
  constructor
  · intro hholds key hall
    exact (hmem key.val).mp ((hholds.mem key).mpr ((hset key).mpr hall))
  · intro hlead
    refine ⟨hnull, hproper, fun key => ?_⟩
    rw [hmem]
    exact ⟨fun hall => (hset key).mpr fun u hu => (hall u hu).mem, fun hall => hlead key ((hset key).mp hall)⟩

/-- What is held is found. -/
theorem Holds.found {t : Tracked} (h : Holds t) (key : Key) :
    kndSetIdxExist (digitsKey key.val) t.idx = .ok true ↔ t.set key := by
  obtain ⟨found, hrun, hfound⟩ := kndSetIdxExist_eq key.property t.idx
  rw [hrun, Except.ok.injEq, hfound, h.mem]

/-- An index for which every lookup is right holds its set. -/
theorem holds_of_found {t : Tracked} (hnull : t.idx.isNull = false) (hproper : t.idx.Proper)
    (h : ∀ key : Key, kndSetIdxExist (digitsKey key.val) t.idx = .ok true ↔ t.set key) : Holds t := by
  refine ⟨hnull, hproper, fun key => ?_⟩
  obtain ⟨found, hrun, hfound⟩ := kndSetIdxExist_eq key.property t.idx
  rw [← hfound, ← h key, hrun, Except.ok.injEq]

theorem Inv.contract {s : Family} (h : Inv s) : Contract s := fun t ht => (h t ht).found

/-- **One call** for which the masks lead to what the operands share keeps the invariant. -/
theorem inv_step (s : Family) (op : Op) (h : Inv s) (hfits : Fits s op) : Inv (step s op) := by
  cases op with
  | new =>
      rw [step]
      split
      · exact h.concat holds_new _
      · exact h
  | add i key =>
      rw [step]
      split
      · exact h
      · rename_i t hget
        have ht : Holds t := h t (List.mem_of_getElem? hget)
        split
        · rename_i idx room hadd
          exact h.set i (ht.add key hadd) room
        · rename_i e idx room hadd
          exact h.set i (ht.addFailed key hadd).2 room
  | intersect is =>
      rw [step]
      split
      · exact h
      · rename_i t ts hops
        have hall : ∀ u ∈ t :: ts, Holds u := fun u hu => h u (mem_of_operands (hops ▸ hu))
        split
        · rename_i r room hrun
          refine h.concat ((holds_intersect_iff hall hrun).mpr ?_) room
          rw [← hops]
          exact hfits
        · exact h

/-- **An intersection that makes an index keeps the contract exactly when the masks of its operands lead to what
they share.** -/
theorem contract_intersect_iff {s : Family} (h : Inv s) {is : List Nat}
    (hmade : s.idxs.length < (step s (.intersect is)).idxs.length) :
    Contract (step s (.intersect is)) ↔ MasksLead (s.operands is) := by
  refine ⟨fun hcontract => ?_, fun hlead => (inv_step s (.intersect is) h hlead).contract⟩
  rw [step] at hmade hcontract
  split at hmade
  · exact absurd hmade (Nat.lt_irrefl _)
  · rename_i t ts hops
    split at hmade
    · rename_i r room hrun
      have hall : ∀ u ∈ t :: ts, Holds u := fun u hu => h u (mem_of_operands (hops ▸ hu))
      obtain ⟨hnull, hproper, -⟩ := mem_intersect hrun
      rw [hops, ← holds_intersect_iff hall hrun]
      simp only [hops, hrun] at hcontract
      exact holds_of_found hnull hproper (hcontract _ (List.mem_append_right _ (List.mem_singleton_self _)))
    · exact absurd hmade (Nat.lt_irrefl _)

/-- **No call does anything undefined**: an intersection of indices that hold their sets can only run out of
memory. -/
theorem Inv.error_intersect {s : Family} (h : Inv s) {is : List Nat} {t : Tracked} {ts : List Tracked}
    (hops : s.operands is = t :: ts) {e : SetIdxErr} {room : Nat}
    (hrun : (kndSetIdxNewResultOfIntersect t.idx (ts.map Tracked.idx)).run s.room = .error e room) :
    e = .nomem := by
  rcases run_bind_eq_error.mp hrun with hnew | ⟨⟨⟩, room₁, -, hrun⟩
  · cases hroom : s.room with
    | zero =>
        rw [hroom] at hnew
        cases hnew
        rfl
    | succ room =>
        rw [hroom] at hnew
        cases hnew
  · refine error_doIntersect (fun g hg => ?_) hrun
    rw [← List.map_cons (f := Tracked.idx)] at hg
    obtain ⟨u, hu, rfl⟩ := List.mem_map.mp hg
    have hu' := h u (mem_of_operands (hops ▸ hu))
    exact ⟨hu'.proper, hu'.isNull⟩

/-! ### Indices that are not results of intersections -/

/-- Every subfolder of every index is marked. -/
def AllLinked (s : Family) : Prop := ∀ t ∈ s.idxs, t.idx.Linked

/-- **Such indices may be intersected.** -/
theorem AllLinked.masksLead {s : Family} (h : AllLinked s) (is : List Nat) : MasksLead (s.operands is) :=
  fun _ hmem t ht => (h t (mem_of_operands ht)).marked (hmem t ht)

/-- New indices and additions keep that. -/
theorem AllLinked.step_add {s : Family} (hlinked : AllLinked s) (h : Inv s) (i : Nat) (key : Key) :
    AllLinked (step s (.add i key)) := by
  rw [step]
  split
  · exact hlinked
  · rename_i t hget
    have hmem : t ∈ s.idxs := List.mem_of_getElem? hget
    have hadded := added_kndSetIdxAdd key.property (h t hmem).isNull s.room
    have hidx := hadded.linked (hlinked t hmem)
    have hset : ∀ u : Tracked, u.idx.Linked → ∀ room, AllLinked ⟨s.idxs.set i u, room⟩ := by
      intro u hu room v hv
      rcases List.mem_or_eq_of_mem_set hv with hv | rfl
      · exact hlinked v hv
      · exact hu
    split
    · rename_i idx room hadd
      rw [hadd] at hidx
      exact hset _ hidx room
    · rename_i e idx room hadd
      rw [hadd] at hidx
      exact hset _ hidx room

theorem AllLinked.step_new {s : Family} (hlinked : AllLinked s) : AllLinked (step s .new) := by
  rw [step]
  split
  · intro t ht
    rcases List.mem_append.mp ht with ht | ht
    · exact hlinked t ht
    · rw [List.mem_singleton.mp ht]
      exact Folder.linked_new
  · exact hlinked

/-- An index is made or extended. -/
def Extends (_ : Family) : Op → Prop
  | .intersect _ => False
  | _ => True

/-- **Indices that are only extended** may all be intersected. -/
theorem allLinked_of_reaches (room : Nat) {s : Family} (h : Reaches step Extends (start room) s) :
    AllLinked s := by
  refine (h.invariant (I := fun s => Inv s ∧ AllLinked s) ⟨inv_start room, fun _ h => (List.not_mem_nil h).elim⟩
    ?_).2
  rintro s op ⟨hinv, hlinked⟩ hop
  cases op with
  | new => exact ⟨inv_step s .new hinv trivial, hlinked.step_new⟩
  | add i key => exact ⟨inv_step s (.add i key) hinv trivial, hlinked.step_add hinv i key⟩
  | intersect is => exact hop.elim

end Family

/-- **The indices are the sets that the same calls make**, in every run in which the masks of the operands of
each intersection lead to the keys that all of them hold. -/
theorem refines_of_fits (room : Nat) {s : Family} (h : Reaches Family.step Family.Fits (Family.start room) s) :
    s.Contract :=
  (h.invariant (Family.inv_start room) Family.inv_step).contract

/-! ### A run that extends the result of an intersection -/

/-- A key of two digits. -/
def pairKey (i j : Digit) : Key := ⟨[i, j], List.cons_ne_nil _ _⟩

/-- Two indices of one key each. -/
def twoKeys (k₀ k₁ : Key) : Family :=
  [.new, .new, .add 0 k₀, .add 1 k₁].foldl Family.step (Family.start 9)

/-- The intersection of the two, and a key that is added to it and to the first. -/
def extended (k₀ k₁ k₂ : Key) : Family :=
  [.intersect [0, 1], .add 0 k₂, .add 2 k₂].foldl Family.step (twoKeys k₀ k₁)

theorem reaches_twoKeys (k₀ k₁ : Key) :
    Reaches Family.step Family.Fits (Family.start 9) (twoKeys k₀ k₁) :=
  Reaches.refl.foldl ⟨trivial, trivial, trivial, trivial, trivial⟩

theorem allLinked_twoKeys (k₀ k₁ : Key) : (twoKeys k₀ k₁).AllLinked :=
  Family.allLinked_of_reaches 9 (Reaches.refl.foldl ⟨trivial, trivial, trivial, trivial, trivial⟩)

theorem reaches_extended (k₀ k₁ k₂ : Key) :
    Reaches Family.step Family.Fits (Family.start 9) (extended k₀ k₁ k₂) :=
  (reaches_twoKeys k₀ k₁).foldl ⟨(allLinked_twoKeys k₀ k₁).masksLead [0, 1], trivial, trivial, trivial⟩

/-- The contract holds when the result of an intersection is extended. -/
theorem refines_of_fits_extended : (extended (pairKey 0 0) (pairKey 0 1) (pairKey 0 2)).Contract :=
  refines_of_fits 9 (reaches_extended _ _ _)

/-- **The next intersection loses the key**: the folder below which it was added to the result is not marked. -/
theorem not_refines_extended :
    ¬ ((extended (pairKey 0 0) (pairKey 0 1) (pairKey 0 2)).step (.intersect [2, 0])).Contract := by
  have hinv := (reaches_extended (pairKey 0 0) (pairKey 0 1) (pairKey 0 2)).invariant (Family.inv_start 9)
    Family.inv_step
  have hlost : ¬ Family.MasksLead ((extended (pairKey 0 0) (pairKey 0 1) (pairKey 0 2)).operands [2, 0]) := by
    intro hlead
    have := hlead (pairKey 0 2) (by decide +kernel)
    revert this
    decide +kernel
  rwa [Family.contract_intersect_iff hinv (by decide +kernel)]

end SetIdx

end Knowdy
