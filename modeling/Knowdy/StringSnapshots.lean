import Knowdy.SharedSetCanonical
import Knowdy.StringRuns

/-! # Snapshots of the string table

A repository that was opened on a snapshot has lost the numbers of its strings, but not what `strings.gsp` says of
them: the next snapshot is the same file.

* `Sound` — an index of strings that can be written, built by registrations under ids.
* `FileInv` — the invariant of the runs: the index is sound, and so was the one that the file was written from.
* `snapshot_of_reload` — **what is written after a load is the file that was loaded**. -/

namespace Knowdy

namespace Strings

/-! ## (1) The index -/

/-- **An index of strings that can be written.** -/
structure Sound (idx : SharedSet CharSeq) : Prop extends Compact idx where
  writable : Writable idx
  keeps : idx.allowOverwrite = false

theorem allowOverwrite_after {α : Type} (idx : SharedSet α) (call : AddCall α) :
    (idx.after call).allowOverwrite = idx.allowOverwrite := by
  rw [SharedSet.after, kndSharedSetAdd]
  split <;> rfl

/-- A string is registered under an id, or refused. -/
theorem Sound.after {idx : SharedSet CharSeq} (h : Sound idx) {call : AddCall CharSeq} (hvalid : call.Valid)
    (hval : call.elem.val ≠ [] ∧ 0 ∉ call.elem.val) : Sound (idx.after call) where
  toCompact := h.toCompact.after hvalid
  keeps := by rw [allowOverwrite_after, h.keeps]
  writable key seq hget := by
    rw [SharedSet.after] at hget
    cases hadd : kndSharedSetAdd idx call.key call.elem with
    | mk rc idx' =>
        rw [hadd] at hget
        cases rc with
        | error e => exact h.writable key seq ((kndSharedSetAdd_error hadd key seq).mp hget)
        | ok =>
            have hcases := (kndSharedSetAdd_ok hadd key seq).mp hget
            split_ifs at hcases
            · exact hcases ▸ hval
            · exact h.writable key seq hcases

theorem sound_new : Sound {} where
  toCompact := compact_new false
  keeps := rfl
  writable := fun key seq hget => absurd hget (kndSharedSetGet_fresh key seq)

/-- The id of a number below `62 ^ 8` is an id. -/
theorem valid_kndUidCreate {n : Nat} (h : n < radixBase ^ idSize) (seq : CharSeq) :
    (⟨kndUidCreate n, seq⟩ : AddCall CharSeq).Valid := by
  have hlen := length_kndUidCreate_le h
  rw [kndUidCreate, kndNumToStr_eq, length_digitsKey] at hlen
  exact ⟨numDigits n, numDigits_ne_nil n, hlen, kndNumToStr_eq n⟩

/-- **Interning** leaves the index as it is, or calls `knd_shared_set_add` for a new string. -/
theorem strIdx_kndCharseqFetch (repo : StrRepo) (val : Name) :
    (kndCharseqFetch repo val).2.strIdx = repo.strIdx ∨
      (kndCharseqFetch repo val).2.strIdx =
        repo.strIdx.after ⟨kndUidCreate repo.numStrs, ⟨repo.nextAddr, val, repo.numStrs⟩⟩ := by
  rw [kndCharseqFetch]
  cases hget : kndSharedDictGet repo.strDict val with
  | some seq => exact .inl rfl
  | none =>
      cases hnew : kndCharseqNew repo val with
      | error e => exact .inl rfl
      | ok r =>
          obtain ⟨seq, repo'⟩ := r
          obtain ⟨rfl, mempool, rfl⟩ := kndCharseqNew_ok hnew
          simp only [registerCharseq, SharedSet.after]
          split
          · exact .inl rfl
          · right
            split <;> simp [*]

theorem Sound.fetch {repo : StrRepo} (h : Sound repo.strIdx) {val : Name} (hval : val ≠ [] ∧ 0 ∉ val)
    (hnum : repo.numStrs < radixBase ^ idSize) : Sound (kndCharseqFetch repo val).2.strIdx := by
  rcases strIdx_kndCharseqFetch repo val with hsame | hadd
  · rw [hsame]
    exact h
  · rw [hadd]
    exact h.after (valid_kndUidCreate hnum _) hval

/-! ## (2) The file -/

/-- **The file was written from this index.** -/
def WrittenFrom (file : List UInt8) (idx : SharedSet CharSeq) : Prop :=
  ∃ out disk n task, kndSharedSetMarshall idx kndCharseqMarshall ⟨out, gspHeader, disk⟩ = .ok (n, task) ∧
    file = task.file

theorem Sound.marshalls {idx : SharedSet CharSeq} (h : Sound idx) (key : List UInt8) (seq : CharSeq)
    (hget : kndSharedSetGet idx key = .ok seq) : Marshalls kndCharseqMarshall CharSeq.val seq :=
  marshalls_kndCharseqMarshall (h.writable key seq hget)

/-- `knd_charseq_unmarshall` adds the string it is given. -/
theorem addsRecords_unmarshallCharseq : AddsRecords StrRepo.strIdx CharSeq.val unmarshallCharseq :=
  fun _ _ _ _ h => ⟨_, (unmarshallCharseq_ok h).1, rfl⟩

/-- **A load brings the index back.** -/
theorem fetchStrIdx_holds {idx : SharedSet CharSeq} (hidx : Sound idx) {file : List UInt8}
    (hfile : WrittenFrom file idx) (hsize : file.length < 2 ^ 31) {mempool : MemPool} {repo : StrRepo}
    (h : fetchStrIdx { mempool } file = .ok repo) :
    Sound repo.strIdx ∧
      ∀ key bytes, Holds repo.strIdx CharSeq.val key bytes ↔ Holds idx CharSeq.val key bytes := by
  obtain ⟨out, disk, n, task, hrun, rfl⟩ := hfile
  rw [fetchStrIdx, Checked.bind_eq_ok] at h
  obtain ⟨⟨loaded, repo'⟩, hload, h⟩ := h
  obtain ⟨hcompact, hkeeps, hholds⟩ :=
    holds_reload hidx.toCompact hidx.marshalls hrun hsize addsRecords_unmarshallCharseq rfl hload
  cases h
  refine ⟨⟨⟨hcompact.pruned, hcompact.fits⟩, fun key seq hget => ?_, hkeeps⟩, hholds⟩
  obtain ⟨seq', hget', hval⟩ := (hholds key seq.val).mp ⟨seq, hget, rfl⟩
  exact hval ▸ hidx.writable key seq' hget'

/-! ## (3) Runs -/

/-- A file that is loaded is below `2 ^ 31` bytes. -/
def Small (s : StrSys) : StrEvent → Prop
  | .reload _ => ∀ file ∈ s.file, file.length < 2 ^ 31
  | _ => True

/-- What callers do, on files that are not too large. -/
def AllowedSmall (s : StrSys) (e : StrEvent) : Prop := Allowed s e ∧ Small s e

/-- **The invariant of the runs.** -/
structure FileInv (s : StrSys) : Prop where
  sound : Sound s.repo.strIdx
  file : ∀ file ∈ s.file, ∃ idx, Sound idx ∧ WrittenFrom file idx

theorem fileInv_start (mempool : MemPool) : FileInv (start mempool) :=
  ⟨sound_new, fun file hfile => by cases hfile⟩

/-- The repository after it was opened on its file. -/
theorem FileInv.reload {s : StrSys} (h : FileInv s) {mempool : MemPool} (hallowed : AllowedSmall s (.reload mempool))
    {file : List UInt8} (hfile : s.file = some file) :
    Sound (step s (.reload mempool)).repo.strIdx ∧ (step s (.reload mempool)).file = some file ∧
      ∃ idx, Sound idx ∧ WrittenFrom file idx ∧ ∀ key bytes,
        Holds (step s (.reload mempool)).repo.strIdx CharSeq.val key bytes ↔ Holds idx CharSeq.val key bytes := by
  obtain ⟨repo, hrepo⟩ := hallowed.1 file hfile
  obtain ⟨idx, hidx, hwritten⟩ := h.file file hfile
  obtain ⟨hsound, hholds⟩ := fetchStrIdx_holds hidx hwritten (hallowed.2 file hfile) hrepo
  have hstep : step s (.reload mempool) = { s with repo, fetched := [], restored := s.saved } := by
    simp only [step, hfile, hrepo, StrSys.restart]
  rw [hstep]
  exact ⟨hsound, hfile, idx, hidx, hwritten, hholds⟩

/-- **An event keeps the invariant.** -/
theorem FileInv.step {s : StrSys} (h : FileInv s) {e : StrEvent} (hallowed : AllowedSmall s e) :
    FileInv (step s e) := by
  cases e with
  | fetch val =>
      have hsound := h.sound.fetch ⟨hallowed.1.1, hallowed.1.2.1⟩ hallowed.1.2.2
      simp only [Strings.step]
      generalize kndCharseqFetch s.repo val = r at hsound
      obtain ⟨rc, repo⟩ := r
      cases rc with
      | error e => exact ⟨hsound, h.file⟩
      | ok seq => exact ⟨hsound, h.file⟩
  | memory mempool => exact ⟨h.sound, h.file⟩
  | snapshot out disk =>
      simp only [Strings.step]
      cases hrun : kndSharedSetMarshall s.repo.strIdx kndCharseqMarshall ⟨out, gspHeader, disk⟩ with
      | error e => exact ⟨h.sound, fun file hfile => by cases hfile⟩
      | ok r =>
          refine ⟨h.sound, fun file hfile => ?_⟩
          cases hfile
          exact ⟨_, h.sound, out, disk, r.1, r.2, hrun, rfl⟩
  | reload mempool =>
      cases hfile : s.file with
      | none =>
          simp only [Strings.step, hfile]
          exact ⟨sound_new, fun file hmem => by simp at hmem⟩
      | some file =>
          obtain ⟨hsound, hsame, -⟩ := h.reload hallowed hfile
          exact ⟨hsound, by rw [hsame, ← hfile]; exact h.file⟩

/-- **Nothing new is interned.** -/
def Quiet (s : StrSys) : StrEvent → Prop
  | .fetch val => kndSharedDictGet s.repo.strDict val ≠ none
  | .memory _ => True
  | _ => False

/-- The index and the file stay. -/
theorem strIdx_of_quiet {s : StrSys} {e : StrEvent} (h : Quiet s e) :
    (step s e).repo.strIdx = s.repo.strIdx := by
  cases e with
  | fetch val =>
      obtain ⟨seq, hget⟩ := Option.ne_none_iff_exists'.mp h
      simp only [step, kndCharseqFetch, hget, StrSys.hand]
  | memory mempool => rfl
  | snapshot out disk => exact h.elim
  | reload mempool => exact h.elim

theorem strIdx_of_allQuiet {s : StrSys} {es : List StrEvent} (h : AllAllowed step Quiet s es) :
    (es.foldl step s).repo.strIdx = s.repo.strIdx := by
  induction es generalizing s with
  | nil => rfl
  | cons e es ih => exact (ih h.2).trans (strIdx_of_quiet h.1)

/-- A snapshot writes a file that was written from an index with the same records. -/
theorem snapshot_of_holds {s : StrSys} (hsound : Sound s.repo.strIdx) {idx : SharedSet CharSeq} (hidx : Sound idx)
    {file : List UInt8} (hfile : WrittenFrom file idx)
    (hholds : ∀ key bytes, Holds s.repo.strIdx CharSeq.val key bytes ↔ Holds idx CharSeq.val key bytes) (out : Output)
    (disk : Nat) : ∀ file' ∈ (step s (.snapshot out disk)).file, file' = file := by
  obtain ⟨out', disk', n', task', hrun', rfl⟩ := hfile
  intro file' hfile'
  simp only [step] at hfile'
  cases hrun : kndSharedSetMarshall s.repo.strIdx kndCharseqMarshall ⟨out, gspHeader, disk⟩ with
  | error e =>
      rw [hrun] at hfile'
      cases hfile'
  | ok r =>
      rw [hrun] at hfile'
      cases hfile'
      exact file_eq_of_holds hsound.toCompact hidx.toCompact hsound.marshalls hidx.marshalls hrun hrun' hholds

/-- **A snapshot of what was loaded is the file that was loaded**, in every run: when the repository is opened on its
file and nothing new is interned, the next snapshot that succeeds writes the same bytes. -/
theorem snapshot_of_reload {mempool : MemPool} {s : StrSys} (hrun : Reaches step AllowedSmall (start mempool) s)
    {pool : MemPool} (hallowed : AllowedSmall s (.reload pool)) {file : List UInt8} (hfile : s.file = some file)
    {es : List StrEvent} (hquiet : AllAllowed step Quiet (step s (.reload pool)) es) (out : Output) (disk : Nat) :
    ∀ file' ∈ (step (es.foldl step (step s (.reload pool))) (.snapshot out disk)).file, file' = file := by
  have hinv : FileInv s := hrun.invariant (fileInv_start mempool) fun _ _ hi he => hi.step he
  obtain ⟨hsound, -, idx, hidx, hwritten, hholds⟩ := hinv.reload hallowed hfile
  rw [← strIdx_of_allQuiet hquiet] at hsound hholds
  exact snapshot_of_holds hsound hidx hwritten hholds out disk

instance (s : StrSys) (e : StrEvent) : Decidable (AllowedSmall s e) :=
  match e with
  | .fetch val => inferInstanceAs
      (Decidable ((val ≠ [] ∧ 0 ∉ val ∧ s.repo.numStrs < radixBase ^ idSize) ∧ True))
  | .memory _ => inferInstanceAs (Decidable (True ∧ True))
  | .snapshot _ _ => inferInstanceAs (Decidable (True ∧ True))
  | .reload mempool => inferInstanceAs
      (Decidable ((∀ file ∈ s.file, (fetchStrIdx { mempool } file).Returns) ∧
        ∀ file ∈ s.file, file.length < 2 ^ 31))

instance (s : StrSys) (e : StrEvent) : Decidable (Quiet s e) :=
  match e with
  | .fetch val => inferInstanceAs (Decidable (kndSharedDictGet s.repo.strDict val ≠ none))
  | .memory _ => inferInstanceAs (Decidable True)
  | .snapshot _ _ => inferInstanceAs (Decidable False)
  | .reload _ => inferInstanceAs (Decidable False)

/-- Two strings, a snapshot, and a load that loses the number of the second one. -/
def reloadedOnce : List StrEvent :=
  [.fetch [97], .fetch [98], .snapshot ⟨[], 1024⟩ 1024, .reload ⟨10⟩]

/-- The repository after another load and a look at a string. -/
def lookedUp : StrSys :=
  ([.fetch [98], .memory ⟨5⟩] : List StrEvent).foldl step (step (reloadedOnce.foldl step (start ⟨10⟩)) (.reload ⟨10⟩))

theorem snapshot_of_reload_twice :
    ∃ file', (step lookedUp (.snapshot ⟨[], 512⟩ 512)).file = some file' ∧
      file' = [71, 83, 80, 48, 97, 0, 49, 98, 0, 1, 7, 1] :=
  ⟨[71, 83, 80, 48, 97, 0, 49, 98, 0, 1, 7, 1], by decide +kernel,
    @snapshot_of_reload ⟨10⟩ (reloadedOnce.foldl step (start ⟨10⟩)) (Reaches.foldl .refl (by decide +kernel)) ⟨10⟩
      (by decide +kernel) _ (by decide +kernel) [.fetch [98], .memory ⟨5⟩] (by decide +kernel) ⟨[], 512⟩ 512 _
      (by decide +kernel)⟩

end Strings

end Knowdy
