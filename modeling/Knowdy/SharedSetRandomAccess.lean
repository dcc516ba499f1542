import Knowdy.SharedSetRoundTrip

/-! # Random access to a written file

`read_elem` over the directory that the full load leaves in memory, on a file written by the
marshaller. A stored id is found in every layout. An id that is not stored is reported as
`knd_NO_MATCH` where its folder is missing or where the payload of its folder is a scan list; in a
folder with a directory, and in a folder without payload, its size is 0 and the callback runs on an
empty value.

* `fetchLoop_eq` — the scan for one element of a scan list.
* `readPayloadElem_eq`, `readElem_dirOf` — one folder, and the walk down to it.
* `unmarshallElem_agrees_iff` — exactly when random access agrees with the full load. -/

namespace Knowdy

variable {σ : Type}

/-! ## (1) Scan lists -/

/-- The characters of the alphabet are in the order of their digits. -/
theorem schar_objIdSeq_lt : ∀ i j : Digit, schar (objIdSeq i) < schar (objIdSeq j) ↔ i < j := by
  decide +kernel

section Fetch

variable {blocks : Blocks} {block id : List UInt8} {f : List UInt8 → List UInt8 → σ → GspM σ}

/-- The search steps over the bytes of a value. -/
theorem fetchLoop_skip {cb : ElemUnmarshallCb σ} {v : List UInt8} (hv : 0 ∉ v) {c : Nat}
    (h : LiesAt block c v) (id₀ : UInt8) (remainder b : Nat) (key : UInt8) (s : σ) :
    fetchLoop block id id₀ cb (v.length + remainder) c b key s
      = fetchLoop block id id₀ cb remainder (c + v.length) b key s := by
  induction v generalizing c with
  | nil => simp
  | cons x v ih =>
      have hx : x ≠ 0 := fun h0 => hv (by rw [h0]; exact List.mem_cons_self)
      have hsucc : (x :: v).length + remainder = (v.length + remainder) + 1 := by
        rw [List.length_cons]; omega
      have hround : ∀ skip next, fetchRound block id id₀ cb c b key s skip next = skip := by
        intro skip next
        rw [fetchRound, blockAt_of_liesAt h, Checked.ok_bind, if_neg hx]
      have hstep : fetchLoop block id id₀ cb (v.length + remainder + 1) c b key s
          = fetchLoop block id id₀ cb (v.length + remainder) (c + 1) b key s := by
        cases v.length + remainder with
        | zero => exact hround _ _
        | succ r => exact hround _ _
      rw [hsucc, hstep]
      rw [liesAt_cons] at h
      rw [ih (fun hm => hv (List.mem_cons_of_mem x hm)) h.2, List.length_cons]
      congr 1
      omega

/-- **The search in a scan list** finds the element of slot `j` if it is among the current record
and those that follow, and reports its absence otherwise. -/
theorem fetchLoop_eq (hnul : ∀ i, 0 ∉ blocks i) (j : Digit) (is : List Digit) (i : Digit)
    (hsorted : (i :: is).Pairwise (· < ·)) {c : Nat}
    (h : LiesAt block c (blocks i ++ (scanBytes blocks true is ++ [0, 1]))) (s : σ) :
    fetchLoop block id (objIdSeq j) (ofValue f)
        ((blocks i).length + ((scanBytes blocks true is).length + 2)) c c (objIdSeq i) s
      = if j ∈ i :: is then f id (blocks j) s else .err .noMatch := by
  induction is generalizing i c s with
  | nil =>
      rw [scanBytes, List.nil_append] at h
      obtain ⟨hi, htail⟩ := liesAt_append.mp h
      have hval := hi.take_drop_append [0]
      have hflag := blockAt_of_liesAt (liesAt_cons.mp htail).2
      have hone : (1 : UInt8) ≠ objIdSeq j ∧ ¬schar 1 > schar (objIdSeq j) := by
        revert j; decide
      rw [scanBytes, List.length_nil, Nat.zero_add, fetchLoop_skip (hnul i) hi, fetchLoop,
        fetchRound, blockAt_of_liesAt htail, Checked.ok_bind, if_pos rfl]
      by_cases hij : objIdSeq i = objIdSeq j
      · obtain rfl := objIdSeq_inj hij
        simp [ofValue, hval]
      · have hne : j ≠ i := fun h => hij (by rw [h])
        rw [if_neg hij, hflag, Checked.ok_bind, if_neg hone.2, fetchLoop, if_neg hone.1,
          if_neg (by simpa using hne)]
  | cons k is ih =>
      obtain ⟨hi, hrest⟩ := liesAt_append.mp h
      have hval := hi.take_drop_append [0]
      have hscan : scanBytes blocks true (k :: is) ++ [0, 1]
          = 0 :: objIdSeq k :: (blocks k ++ (scanBytes blocks true is ++ [0, 1])) := by
        simp [scanBytes]
      have hlen : (scanBytes blocks true (k :: is)).length + 2
          = ((blocks k).length + ((scanBytes blocks true is).length + 2)) + 1 + 1 := by
        have := congrArg List.length hscan
        simp only [List.length_append, List.length_cons, List.length_nil] at this
        omega
      rw [hscan] at hrest
      obtain ⟨hsep, hrest⟩ := liesAt_cons.mp hrest
      obtain ⟨hkey, hnext⟩ := liesAt_cons.mp hrest
      obtain ⟨hlt, hsorted'⟩ := List.pairwise_cons.mp hsorted
      rw [hlen, fetchLoop_skip (hnul i) hi, fetchLoop, fetchRound, blockAt_of_liesAt hsep,
        Checked.ok_bind, if_pos rfl]
      by_cases hij : objIdSeq i = objIdSeq j
      · obtain rfl := objIdSeq_inj hij
        simp [ofValue, hval]
      · have hne : j ≠ i := fun h => hij (by rw [h])
        rw [if_neg hij, blockAt_of_liesAt hkey, Checked.ok_bind]
        by_cases hgt : schar (objIdSeq k) > schar (objIdSeq j)
        · -- the keys that follow are larger still
          have hjk : j < k := (schar_objIdSeq_lt j k).mp hgt
          have hnot : j ∉ i :: k :: is := by
            intro hmem
            rcases List.mem_cons.mp hmem with rfl | hmem
            · exact hne rfl
            rcases List.mem_cons.mp hmem with rfl | hmem
            · exact lt_irrefl _ hjk
            · exact lt_asymm hjk ((List.pairwise_cons.mp hsorted').1 j hmem)
          rw [if_pos hgt, if_neg hnot]
        · rw [if_neg hgt]
          have hmem : j ∈ i :: k :: is ↔ j ∈ k :: is := by simp [hne]
          rw [if_congr hmem rfl rfl]
          exact ih k hsorted' hnext s

theorem pairwise_occupied (blocks : Blocks) : blocks.occupied.Pairwise (· < ·) :=
  (List.pairwise_lt_finRange 62).filter _

/-- `fetch_elem_linear_scan` on the payload block of a scan list. -/
theorem fetchElemLinearScan_eq (hnul : ∀ i, 0 ∉ blocks i) (hocc : blocks.occupied ≠ [])
    (j : Digit) (s : σ) :
    fetchElemLinearScan (scanBytes blocks false blocks.occupied ++ [0, 1]) id (objIdSeq j)
        (ofValue f) s
      = if blocks j ≠ [] then f id (blocks j) s else .err .noMatch := by
  have hsorted := pairwise_occupied blocks
  rw [← if_congr Blocks.mem_occupied rfl rfl]
  obtain ⟨i, is, his⟩ := List.exists_cons_of_ne_nil hocc
  rw [his] at hsorted ⊢
  have hscan : scanBytes blocks false (i :: is) ++ [0, 1]
      = objIdSeq i :: (blocks i ++ (scanBytes blocks true is ++ [0, 1])) := by
    simp [scanBytes]
  have hself := liesAt_self (scanBytes blocks false (i :: is) ++ [0, 1])
  rw [hscan] at hself ⊢
  obtain ⟨hkey, hrest⟩ := liesAt_cons.mp hself
  have hlen : (objIdSeq i :: (blocks i ++ (scanBytes blocks true is ++ [0, 1]))).length
      = (blocks i).length + ((scanBytes blocks true is).length + 2) + 1 := by
    simp
  rw [fetchElemLinearScan, hlen, Checked.require_of (by omega), Checked.ok_bind,
    blockAt_of_liesAt hkey, Checked.ok_bind, Nat.add_sub_cancel]
  exact fetchLoop_eq hnul j is i hsorted hrest s

end Fetch

/-! ## (2) One folder -/

/-- The payload of a folder is written as a scan list: it is not empty, and its elements have fewer
than 512 bytes in all. -/
def UsesScan (blocks : Blocks) : Prop := 0 < blocks.body.length ∧ blocks.body.length < 512

instance (blocks : Blocks) : Decidable (UsesScan blocks) := inferInstanceAs (Decidable (_ ∧ _))

/-- A folder without payload has only empty slots. -/
theorem eq_nil_of_occupied_eq_nil {blocks : Blocks} (h : blocks.occupied = []) (i : Digit) :
    blocks i = [] := by
  by_contra hne
  rw [← ne_eq, ← Blocks.mem_occupied, h] at hne
  exact List.not_mem_nil hne

theorem usesScan_iff {blocks : Blocks} (h : blocks.occupied ≠ []) :
    UsesScan blocks ↔ blocks.body.length < 512 := by
  have hbody : blocks.body ≠ [] := mt Blocks.body_eq_nil.mp h
  have hpos := List.length_pos_iff.mpr hbody
  exact ⟨fun hs => hs.2, fun hs => ⟨hpos, hs⟩⟩

theorem not_usesScan_of_occupied_eq_nil {blocks : Blocks} (h : blocks.occupied = []) :
    ¬UsesScan blocks := by
  intro hs
  rw [UsesScan, Blocks.body_eq_nil.mpr h] at hs
  exact lt_irrefl _ hs.1

/-- The directory of a folder whose payload is a scan list. -/
theorem folderInfo_of_usesScan {blocks : Blocks} (h : UsesScan blocks) (numSub total off : Nat) :
    (folderInfo blocks numSub total off).elemsLinearScan = true ∧
      (folderInfo blocks numSub total off).payloadBlockSize = (payloadBytes blocks).length ∧
      (folderInfo blocks numSub total off).globalOffset = off := by
  have hocc : blocks.occupied ≠ [] := fun h0 => not_usesScan_of_occupied_eq_nil h0 h
  simp [folderInfo, hocc, loadedElems, h.2]

/-- The directory of any other folder has the sizes of its elements. -/
theorem folderInfo_of_not_usesScan {blocks : Blocks} (h : ¬UsesScan blocks)
    (numSub total off : Nat) :
    (folderInfo blocks numSub total off).elemsLinearScan = false ∧
      (folderInfo blocks numSub total off).elemBlockSizes = (fun i => (blocks i).length) ∧
      (folderInfo blocks numSub total off).globalOffset = off := by
  by_cases hocc : blocks.occupied = []
  · have hnil := eq_nil_of_occupied_eq_nil hocc
    simp [folderInfo, hocc, hnil]
  · have hlarge : ¬blocks.body.length < 512 := mt (usesScan_iff hocc).mpr h
    simp [folderInfo, hocc, loadedElems, hlarge, setSizes_finRange]

/-- The offset that `read_elem` adds up is the position of the block. -/
theorem foldl_sizes_eq (blocks : Blocks) (l : List Digit) (n : Nat) :
    l.foldl (fun off j => off + (blocks j).length) n = n + (l.flatMap blocks).length := by
  induction l generalizing n with
  | nil => simp
  | cons j l ih => rw [List.foldl_cons, ih, List.flatMap_cons, List.length_append]; omega

/-- The payload of a folder with a directory starts with its blocks. -/
theorem liesAt_body {blocks : Blocks} {file : List UInt8} {off : Nat}
    (h : LiesAt file off (payloadBytes blocks)) (hscan : ¬UsesScan blocks) :
    LiesAt file off blocks.body := by
  by_cases hocc : blocks.occupied = []
  · rw [Blocks.body_eq_nil.mpr hocc]
    exact List.nil_prefix
  · have hlarge : ¬blocks.body.length < 512 := mt (usesScan_iff hocc).mpr hscan
    have hpos : ¬blocks.body.length = 0 := by omega
    rw [payloadBytes, if_neg hpos, if_neg hlarge] at h
    exact (liesAt_append.mp h).1

/-- The element of a slot of a scan list. -/
theorem readPayloadElem_scan {blocks : Blocks} {file : List UInt8}
    {f : List UInt8 → List UInt8 → σ → GspM σ} (hnul : ∀ i, 0 ∉ blocks i) {off : Nat}
    (hlies : LiesAt file off (payloadBytes blocks)) (hscan : UsesScan blocks)
    (numSub total : Nat) (i : Digit) (s : σ) :
    readPayloadElem file (folderInfo blocks numSub total off) i (objIdSeq i) (ofValue f) s
      = if blocks i ≠ [] then f [objIdSeq i] (blocks i) s else .err .noMatch := by
  obtain ⟨hflag, hsize, hoff⟩ := folderInfo_of_usesScan hscan numSub total off
  have hocc : blocks.occupied ≠ [] := fun h0 => not_usesScan_of_occupied_eq_nil h0 hscan
  have hbytes : payloadBytes blocks = scanBytes blocks false blocks.occupied ++ [0, 1] := by
    rw [payloadBytes, if_neg hscan.1.ne', if_pos hscan.2]
  rw [readPayloadElem, hflag, if_pos rfl, hsize, hoff, preadExact_of_liesAt hlies rfl,
    Checked.ok_bind, hbytes]
  exact fetchElemLinearScan_eq hnul hocc i s

/-- **The element of a slot of any other folder**: the callback runs on the block of the slot, which
is empty if the slot is. -/
theorem readPayloadElem_directory {blocks : Blocks} {file : List UInt8}
    {f : List UInt8 → List UInt8 → σ → GspM σ} {off : Nat}
    (hlies : LiesAt file off (payloadBytes blocks)) (hscan : ¬UsesScan blocks)
    (numSub total : Nat) (i : Digit) (s : σ) :
    readPayloadElem file (folderInfo blocks numSub total off) i (objIdSeq i) (ofValue f) s
      = f [objIdSeq i] (blocks i) s := by
  obtain ⟨hflag, hsizes, hoff⟩ := folderInfo_of_not_usesScan hscan numSub total off
  have hblock := Blocks.liesAt_block (liesAt_body hlies hscan) i
  rw [readPayloadElem, hflag, hsizes, hoff, foldl_sizes_eq, Nat.zero_add]
  simp only [Bool.false_eq_true, if_false, preadExact_of_liesAt hblock rfl, Checked.ok_bind,
    ofValue, List.take_left]

/-! ## (3) The walk to a folder -/

variable {α : Type} {val : α → List UInt8}

/-- The folder reached by the digits of an id other than the last (`null` if one is missing). -/
def ElemIdx.walk : List Digit → ElemIdx α → ElemIdx α
  | i :: j :: ds, idx => ElemIdx.walk (j :: ds) (idx.idxs i)
  | _, idx => idx

/-- The folder of an id is missing, or its payload is a scan list. -/
def ReportsAbsent (val : α → List UInt8) (ds : List Digit) (idx : ElemIdx α) : Prop :=
  (idx.walk ds).isNull = true ∨ UsesScan (payloadBlocks val (idx.walk ds).elems)

instance (val : α → List UInt8) (ds : List Digit) (idx : ElemIdx α) : Decidable (ReportsAbsent val ds idx) :=
  inferInstanceAs (Decidable (_ ∨ _))

theorem walk_null (ds : List Digit) : (ElemIdx.null : ElemIdx α).walk ds = .null := by
  induction ds with
  | nil => rfl
  | cons i ds ih =>
      cases ds with
      | nil => rfl
      | cons j ds => exact ih

/-- The block of a subfolder inside the block of its folder. -/
theorem liesAt_subfolder {file : List UInt8} {off : Nat} {es : Digit → Option α}
    {ss : Digit → ElemIdx α} (h : LiesAt file off ((ElemIdx.node es ss).blockBytes val))
    (i : Digit) :
    LiesAt file (off + (payloadBytes (payloadBlocks val es)).length +
        (((List.finRange 62).take i).flatMap fun j => (ss j).blockBytes val).length)
      ((ss i).blockBytes val) := by
  rw [blockBytes_node, folderBytes] at h
  obtain ⟨hparts, -⟩ := liesAt_append.mp h
  obtain ⟨-, hsub⟩ := liesAt_append.mp hparts
  by_cases hocc : Blocks.occupied (fun j => (ss j).blockBytes val) = []
  · have hnil : (ss i).blockBytes val = [] := eq_nil_of_occupied_eq_nil hocc i
    rw [hnil]
    exact List.nil_prefix
  · rw [subdirBytes, if_neg hocc] at hsub
    exact Blocks.liesAt_block (liesAt_append.mp hsub).1 i

/-- The values of a folder's payload are free of NUL bytes. -/
theorem no_nul_payloadBlocks {es : Digit → Option α} (hes : ∀ i e, es i = some e → Storable val e)
    (i : Digit) : 0 ∉ payloadBlocks val es i := by
  cases he : es i with
  | none => simp [payloadBlocks, he]
  | some e => simpa [payloadBlocks, he] using (hes i e he).2

/-- **Random access in a tree** whose directory is in memory. With the last digit `i` of the id: a
stored id runs the callback on its value; an absent one is reported if its folder is missing or
holds a scan list, and otherwise runs the callback on an empty value. -/
theorem readElem_dirOf {file : List UInt8} {f : List UInt8 → List UInt8 → σ → GspM σ}
    (i : Digit) (ds : List Digit) {idx : ElemIdx α} (hidx : idx.All (Storable val))
    (hnull : idx.isNull = false) (total : Nat) {off : Nat}
    (hlies : LiesAt file off (idx.blockBytes val)) (s : σ) :
    (∀ e, idx.lookup (ds ++ [i]) = some e →
      readElem file (ofValue f) (idx.dirOf val total off) (digitsKey (ds ++ [i])) s
        = f [objIdSeq i] (val e) s) ∧
    (idx.lookup (ds ++ [i]) = none → ReportsAbsent val (ds ++ [i]) idx →
      readElem file (ofValue f) (idx.dirOf val total off) (digitsKey (ds ++ [i])) s
        = .err .noMatch) ∧
    (idx.lookup (ds ++ [i]) = none → ¬ReportsAbsent val (ds ++ [i]) idx →
      readElem file (ofValue f) (idx.dirOf val total off) (digitsKey (ds ++ [i])) s
        = f [objIdSeq i] [] s) := by
  induction ds generalizing idx total off with
  | nil =>
      cases idx with
      | null => cases hnull
      | node es ss =>
          have hP : LiesAt file off (payloadBytes (payloadBlocks val es)) := by
            rw [blockBytes_node, folderBytes, List.append_assoc] at hlies
            exact (liesAt_append.mp hlies).1
          have hread : readElem file (ofValue f) ((ElemIdx.node es ss).dirOf val total off)
              (digitsKey ([] ++ [i])) s = readPayloadElem file
                (folderInfo (payloadBlocks val es)
                  ((List.finRange 62).flatMap fun i => (ss i).entries []).length total off)
                i (objIdSeq i) (ofValue f) s := by
            simp [ElemIdx.dirOf, readElem]
          have hlookup : (ElemIdx.node es ss).lookup ([] ++ [i]) = es i := rfl
          have hreports : ReportsAbsent val ([] ++ [i]) (ElemIdx.node es ss)
              ↔ UsesScan (payloadBlocks val es) := by
            simp [ReportsAbsent, ElemIdx.walk, ElemIdx.isNull]
          rw [hread, hlookup, hreports]
          by_cases hscan : UsesScan (payloadBlocks val es)
          · rw [readPayloadElem_scan (no_nul_payloadBlocks hidx.1) hP hscan]
            refine ⟨fun e he => ?_, fun he _ => ?_, fun _ h => absurd hscan h⟩
            · have hval : payloadBlocks val es i = val e := by simp [payloadBlocks, he]
              rw [hval, if_pos (hidx.1 i e he).1]
            · simp [payloadBlocks, he]
          · rw [readPayloadElem_directory hP hscan]
            exact ⟨fun e he => by simp [payloadBlocks, he], fun _ h => absurd h hscan,
              fun he _ => by simp [payloadBlocks, he]⟩
  | cons j ds ih =>
      cases idx with
      | null => cases hnull
      | node es ss =>
          obtain ⟨k, ks, hks⟩ : ∃ k ks, ds ++ [i] = k :: ks :=
            List.exists_cons_of_ne_nil (by simp)
          have hlookup : (ElemIdx.node es ss).lookup (j :: ds ++ [i]) = (ss j).lookup (ds ++ [i]) :=
            ElemIdx.lookup_cons (by simp) j _
          have hreports : ReportsAbsent val (j :: ds ++ [i]) (ElemIdx.node es ss)
              ↔ ReportsAbsent val (ds ++ [i]) (ss j) := by
            rw [List.cons_append, hks]
            rfl
          rw [hlookup, hreports]
          cases hs : ss j with
          | null =>
              have hread : readElem file (ofValue f) ((ElemIdx.node es ss).dirOf val total off)
                  (digitsKey (j :: ds ++ [i])) s = .err .noMatch := by
                rw [List.cons_append, hks]
                simp [ElemIdx.dirOf, readElem, hs]
              refine ⟨fun e he => ?_, fun _ _ => hread, fun _ h => absurd (.inl ?_) h⟩
              · rw [ElemIdx.lookup_null] at he
                cases he
              · rw [walk_null]
                rfl
          | node es' ss' =>
              have hsub := liesAt_subfolder hlies j
              have hrec := ih (hidx.2 j) (by rw [hs]; rfl) ((ss j).blockBytes val).length hsub
              have hread : readElem file (ofValue f) ((ElemIdx.node es ss).dirOf val total off)
                    (digitsKey (j :: ds ++ [i])) s
                  = readElem file (ofValue f) ((ss j).dirOf val ((ss j).blockBytes val).length
                      (off + (payloadBytes (payloadBlocks val es)).length +
                        (((List.finRange 62).take j).flatMap fun j => (ss j).blockBytes val).length))
                      (digitsKey (ds ++ [i])) s := by
                rw [List.cons_append, hks, hs]
                simp [ElemIdx.dirOf, readElem, hs]
              rw [hread, ← hs]
              exact hrec

/-! ## (4) Agreement with the full load -/

/-- **Random access agrees with the full load** on an id: for a stored id the callback runs on its
value and its result is returned, and for any other id `knd_NO_MATCH` is returned and the callback
does not run; for every callback that reads no byte outside its value. -/
def RandomAccessAgrees {β : Type} (loaded : SharedSet β) (file : List UInt8) (self : IdSet α)
    (val : α → List UInt8) (id : List UInt8) : Prop :=
  ∀ (σ : Type) (f : List UInt8 → List UInt8 → σ → GspM σ) (s : σ),
    (∀ e, kndSharedSetGet self.toSharedSet id = .ok e →
      kndSharedSetUnmarshallElem loaded file id (ofValue f) s = f (id.getLast?.toList) (val e) s) ∧
    ((¬∃ e, kndSharedSetGet self.toSharedSet id = .ok e) →
      kndSharedSetUnmarshallElem loaded file id (ofValue f) s = .err .noMatch)

/-- A key of a set is found in the tree by its digits. -/
theorem kndSharedSetGet_digitsKey {self : SharedSet α} {ds : List Digit} {e : α} :
    kndSharedSetGet self (digitsKey ds) = .ok e ↔ self.idx.lookup ds = some e := by
  rw [kndSharedSetGet, getElem_eq_ok]
  constructor
  · rintro ⟨ds', hds, he⟩
    rwa [digitsKey_inj.mp hds]
  · exact fun he => ⟨ds, rfl, he⟩

/-- **When random access agrees with the full load.** On a file that the marshaller wrote and the
full load has read, random access by an id agrees with the full load exactly if the id is stored, or
its folder is missing, or the payload of its folder is a scan list. In any other folder the code
calls back with an empty value for an id that is not stored. -/
theorem unmarshallElem_agrees_iff {β : Type} {self : IdSet α} {cb : ElemMarshallCb α}
    {val : α → List UInt8}
    (hcb : ∀ key e, kndSharedSetGet self.toSharedSet key = .ok e → Marshalls cb val e)
    {out : Output} {disk totalSize : Nat} {task' : MarshallTask}
    (h : kndSharedSetMarshall self.toSharedSet cb ⟨out, gspHeader, disk⟩
      = .ok (totalSize, task'))
    (hsize : task'.file.length < 2 ^ 31) {dst loaded : SharedSet β}
    {calls : List (List UInt8 × List UInt8)}
    (hload : kndSharedSetUnmarshallFile dst task'.file (3 + totalSize) recordCall []
      = .ok (loaded, calls)) {ds : List Digit} (hds : 1 ≤ ds.length ∧ ds.length ≤ idSize) :
    RandomAccessAgrees loaded task'.file self val (digitsKey ds) ↔
      (∃ e, kndSharedSetGet self.toSharedSet (digitsKey ds) = .ok e) ∨
        ReportsAbsent val ds self.idx := by
  obtain ⟨hfile, -, hnull⟩ := file_of_kndSharedSetMarshall hcb h
  have hlies : LiesAt task'.file 3 (self.idx.blockBytes val) := by
    rw [hfile]
    exact (liesAt_append.mp (liesAt_self (gspHeader ++ self.idx.blockBytes val))).2
  have hdir : loaded.dir = self.idx.dirOf val (3 + totalSize) 3 := by
    have hpair := hload.symm.trans (unmarshallFile_recordCall hcb h hsize dst)
    simp only [Checked.ok.injEq, Prod.mk.injEq] at hpair
    rw [hpair.1]
  obtain ⟨ds, i, rfl⟩ : ∃ ds' i, ds = ds' ++ [i] := by
    have hne : ds ≠ [] := List.ne_nil_of_length_pos hds.1
    exact ⟨ds.dropLast, ds.getLast hne, (List.dropLast_append_getLast hne).symm⟩
  have hlast : (digitsKey (ds ++ [i])).getLast?.toList = [objIdSeq i] := by simp
  have hread {σ : Type} (f : List UInt8 → List UInt8 → σ → GspM σ) (s : σ) :=
    @readElem_dirOf σ α val task'.file f i ds self.idx (all_storable hcb) hnull (3 + totalSize)
      3 hlies s
  simp only [RandomAccessAgrees, kndSharedSetUnmarshallElem, hdir, hlast,
    kndSharedSetGet_digitsKey]
  cases hstored : self.idx.lookup (ds ++ [i]) with
  | some e =>
      refine iff_of_true (fun σ f s => ⟨fun e' he' => ?_, fun hno => absurd ⟨e, rfl⟩ hno⟩)
        (.inl ⟨e, rfl⟩)
      obtain rfl := Option.some.inj he'
      exact (hread f s).1 e hstored
  | none =>
      constructor
      · intro hagree
        by_contra hcond
        have habsent : ¬ReportsAbsent val (ds ++ [i]) self.idx := fun hr => hcond (.inr hr)
        have hempty := (hread (fun _ _ (s : Unit) => .ok s) ()).2.2 hstored habsent
        have hnoMatch := (hagree Unit (fun _ _ s => .ok s) ()).2 (by simp)
        rw [hempty] at hnoMatch
        cases hnoMatch
      · rintro (⟨e, he⟩ | hr)
        · cases he
        · exact fun σ f s => ⟨fun e he => (by cases he), fun _ => (hread f s).2.1 hstored hr⟩

/-- The file of the set with the one id `"00"` can be loaded. -/
theorem exists_load_soloSet : ∃ loaded calls,
    kndSharedSetUnmarshallFile ({} : SharedSet Unit)
      (gspHeader ++ [48, 120, 0, 1, 4, 1, 48, 6, 1, 1, 1, 0]) (3 + 12) recordCall []
        = .ok (loaded, calls) :=
  ⟨_, _, unmarshallFile_recordCall (fun _ e _ => marshalls_soloCb e)
    kndSharedSetMarshall_soloSet (by decide) {}⟩

/-- Random access agrees with the full load by the stored ids `"0Z"`, which has a long payload, and `"1ab"`, and by the
id `"1ac"`, which is missing in a folder with a scan list. -/
theorem unmarshallElem_agrees_shelfSet : ∃ totalSize task' loaded calls,
    kndSharedSetMarshall shelfSet.toSharedSet unaryCb ⟨⟨[], 4096⟩, gspHeader, 4096⟩ = .ok (totalSize, task') ∧
    kndSharedSetUnmarshallFile ({} : SharedSet Unit) task'.file (3 + totalSize) recordCall [] = .ok (loaded, calls) ∧
    ∀ ds ∈ ([[0, 35], [1, 10, 11], [1, 10, 12]] : List (List Digit)),
      RandomAccessAgrees loaded task'.file shelfSet (fun n => List.replicate (n + 1) 120) (digitsKey ds) := by
  obtain ⟨totalSize, task', hrun, hsize⟩ := exists_marshall_shelfSet
  have hload := unmarshallFile_recordCall (fun _ n _ => marshalls_unaryCb n) hrun hsize ({} : SharedSet Unit)
  refine ⟨totalSize, task', _, _, hrun, hload, fun ds hds => ?_⟩
  rcases List.mem_cons.mp hds with rfl | hds
  · exact (unmarshallElem_agrees_iff (fun _ n _ => marshalls_unaryCb n) hrun hsize hload (by decide)).mpr
      (.inl ⟨599, by decide +kernel⟩)
  rcases List.mem_pair.mp hds with rfl | rfl
  · exact (unmarshallElem_agrees_iff (fun _ n _ => marshalls_unaryCb n) hrun hsize hload (by decide)).mpr
      (.inl ⟨7, by decide +kernel⟩)
  · exact (unmarshallElem_agrees_iff (fun _ n _ => marshalls_unaryCb n) hrun hsize hload (by decide)).mpr
      (.inr (by decide +kernel))

/-- **An absent id is not always reported.** In the file of the set with the one id `"00"`, random
access by `"0"` runs the callback on an empty value and succeeds. -/
theorem unmarshallElem_absent :
    ¬∀ (self : IdSet Unit) (cb : ElemMarshallCb Unit) (val : Unit → List UInt8),
      (∀ key e, kndSharedSetGet self.toSharedSet key = .ok e → Marshalls cb val e) →
      ∀ (out : Output) (disk totalSize : Nat) (task' : MarshallTask),
        kndSharedSetMarshall self.toSharedSet cb ⟨out, gspHeader, disk⟩ = .ok (totalSize, task') →
        task'.file.length < 2 ^ 31 →
        ∀ (loaded : SharedSet Unit) (calls : List (List UInt8 × List UInt8)),
          kndSharedSetUnmarshallFile ({} : SharedSet Unit) task'.file (3 + totalSize) recordCall []
            = .ok (loaded, calls) →
          ∀ ds : List Digit, 1 ≤ ds.length ∧ ds.length ≤ idSize →
            RandomAccessAgrees loaded task'.file self val (digitsKey ds) := by
  intro hclaim
  obtain ⟨loaded, calls, hload⟩ := exists_load_soloSet
  have hagree := hclaim soloSet soloCb (fun _ => [120]) (fun _ e _ => marshalls_soloCb e) _ _ _ _
    kndSharedSetMarshall_soloSet (by decide) loaded calls hload [0] (by decide)
  have hnoMatch := (hagree _ (fun id val calls => .ok (calls ++ [(id, val)])) []).2
    (by decide +kernel)
  have hrun : (kndSharedSetUnmarshallFile ({} : SharedSet Unit)
        (gspHeader ++ [48, 120, 0, 1, 4, 1, 48, 6, 1, 1, 1, 0]) (3 + 12) recordCall [] >>= fun r =>
      kndSharedSetUnmarshallElem r.1 (gspHeader ++ [48, 120, 0, 1, 4, 1, 48, 6, 1, 1, 1, 0])
        (digitsKey [0]) recordCall []) = .ok [([48], [])] := by
    decide +kernel
  rw [hload, Checked.ok_bind] at hrun
  have hcontra := hrun.symm.trans hnoMatch
  cases hcontra

end Knowdy
