import Knowdy.ClassInstGsp
import Knowdy.StringSnapshots

/-! # Instances over snapshots

The records of the instances hold the ids of strings, so a snapshot can be read only together with its string table.
Both are loaded when the repository is opened again.

* `Opened saved table` — a repository that was opened on the strings of `saved` has come to `table`.
* `classInstRead_iff` — **an instance comes back from a snapshot exactly if it is clean**.
* `classInstExport_rename` — what is written after a load: the strings that were loaded have lost their numbers, so
  **the record of an instance does not tell one from another**. -/

namespace Knowdy.InstSnapshots

open Strings StringCodes ClassInstGsp
open Records (Rec)
open TextGsp (TextEnv)
open AttrVarRecords (Attr)

variable {κ σ : Type}

/-! ## (1) Tables that were loaded -/

/-- What callers do until the process ends. -/
def Running (s : StrSys) : StrEvent → Prop
  | .reload _ => False
  | e => Allowed s e

theorem inv_of_reaches {mempool : MemPool} {s : StrSys} (h : Reaches step Careful (start mempool) s) : Inv s :=
  h.invariant (inv_start mempool) fun _ _ hi hc => inv_step hi hc.1 hc.2

theorem fileInv_of_reaches {mempool : MemPool} {s : StrSys} (h : Reaches step AllowedSmall (start mempool) s) :
    FileInv s :=
  h.invariant (fileInv_start mempool) fun _ _ hi he => hi.step he

theorem small_of_careful {s : StrSys} {e : StrEvent} (h : Careful s e) : AllowedSmall s e := by
  refine ⟨h.1, ?_⟩
  cases e with
  | reload mempool => exact h.2.2
  | _ => trivial

theorem repo_fetch (s : StrSys) (val : Name) : (step s (.fetch val)).repo = (kndCharseqFetch s.repo val).2 := by
  rw [step]
  cases kndCharseqFetch s.repo val with
  | mk rc repo => cases rc <;> rfl

theorem repo_snapshot (s : StrSys) (out : Output) (disk : Nat) : (step s (.snapshot out disk)).repo = s.repo := by
  rw [step]
  cases kndSharedSetMarshall s.repo.strIdx kndCharseqMarshall ⟨out, gspHeader, disk⟩ <;> rfl

/-- **A property that interning keeps** is kept as long as the process runs. -/
theorem repo_running {P : StrRepo → Prop} (hfetch : ∀ repo val, P repo → P (kndCharseqFetch repo val).2)
    (hmemory : ∀ repo mempool, P repo → P { repo with mempool }) {s s' : StrSys} (h : Reaches step Running s s')
    (hs : P s.repo) : P s'.repo := by
  -- only interning and other code change the repository
  refine h.invariant (I := fun s => P s.repo) hs fun s e hi he => ?_
  cases e with
  | fetch val =>
      rw [repo_fetch]
      exact hfetch _ _ hi
  | memory mempool => exact hmemory _ _ hi
  | snapshot out disk =>
      rw [repo_snapshot]
      exact hi
  | reload mempool => exact he.elim

/-- **An id that leads to a string** leads to it for ever: no number is given twice. -/
theorem decode_fetch {repo : StrRepo} (h : repo.strIdx.allowOverwrite = false) {id : List UInt8} {seq : CharSeq}
    (hdec : kndCharseqDecode repo id = .ok seq) (val : Name) :
    kndCharseqDecode (kndCharseqFetch repo val).2 id = .ok seq := by
  unfold kndCharseqDecode at hdec ⊢
  rcases strIdx_kndCharseqFetch repo val with hsame | hadd
  · rw [hsame]
    exact hdec
  · rw [hadd, SharedSet.after]
    cases hrun : kndSharedSetAdd repo.strIdx (kndUidCreate repo.numStrs) ⟨repo.nextAddr, val, repo.numStrs⟩ with
    | mk rc idx =>
        cases rc with
        | error e => exact (kndSharedSetAdd_error hrun id seq).mpr hdec
        | ok =>
            refine (kndSharedSetAdd_ok hrun id seq).mpr ?_
            rw [if_neg]
            · exact hdec
            · -- the id was not free
              rintro rfl
              exact (kndSharedSetAdd_new hrun h).1 seq hdec

theorem allowOverwrite_fetch (repo : StrRepo) (val : Name) :
    (kndCharseqFetch repo val).2.strIdx.allowOverwrite = repo.strIdx.allowOverwrite := by
  rcases strIdx_kndCharseqFetch repo val with hsame | hadd
  · rw [hsame]
  · rw [hadd, allowOverwrite_after]

/-- **A table goes on reading** what it reads. -/
theorem reads_running {saved : StrRepo} {s s' : StrSys} (h : Reaches step Running s s')
    (hkeeps : s.repo.strIdx.allowOverwrite = false) (hreads : Reads saved s.repo) : Reads saved s'.repo := by
  refine (repo_running (P := fun repo => repo.strIdx.allowOverwrite = false ∧ Reads saved repo) ?_ ?_ h
    ⟨hkeeps, hreads⟩).2
  · rintro repo val ⟨hkeeps, hreads⟩
    refine ⟨(allowOverwrite_fetch repo val).trans hkeeps, fun v seq hget => ?_⟩
    obtain ⟨seq', hdec, hval⟩ := hreads v seq hget
    exact ⟨seq', decode_fetch hkeeps hdec val, hval⟩
  · exact fun repo mempool h => h

/-- **A load reads what was saved**: the strings have the ids that they had. -/
theorem reads_reload {mempool : MemPool} {s : StrSys} (hrun : Reaches step Careful (start mempool) s) {out : Output}
    {disk : Nat} (hfile : (step s (.snapshot out disk)).file ≠ none) {pool : MemPool}
    (hload : AllowedSmall (step s (.snapshot out disk)) (.reload pool)) :
    (step (step s (.snapshot out disk)) (.reload pool)).repo.strIdx.allowOverwrite = false ∧
      Reads s.repo (step (step s (.snapshot out disk)) (.reload pool)).repo := by
  have hsound : Sound s.repo.strIdx := (fileInv_of_reaches (hrun.mono fun _ _ => small_of_careful)).sound
  cases hmar : kndSharedSetMarshall s.repo.strIdx kndCharseqMarshall ⟨out, gspHeader, disk⟩ with
  | error e =>
      -- a snapshot that fails leaves no file
      simp [step, hmar, StrSys.save] at hfile
  | ok r =>
      have hstep : step s (.snapshot out disk) = { s with file := some r.2.file, saved := idsOf s.repo.strIdx } := by
        rw [step, hmar]
        rfl
      rw [hstep] at hload ⊢
      obtain ⟨repo, hrepo⟩ := hload.1 r.2.file rfl
      obtain ⟨hsound', hholds⟩ := fetchStrIdx_holds hsound ⟨out, disk, r.1, r.2, hmar, rfl⟩ (hload.2 r.2.file rfl) hrepo
      have hreload :
          (step { s with file := some r.2.file, saved := idsOf s.repo.strIdx } (.reload pool)).repo = repo := by
        simp only [step, hrepo, StrSys.restart]
      rw [hreload]
      refine ⟨hsound'.keeps, fun v seq hget => ?_⟩
      -- the id and the string are a record of the file
      obtain ⟨hval, hdec⟩ := (inv_of_reaches hrun).agree.dict v seq hget
      exact (hholds _ v).mpr ⟨seq, hdec, hval⟩

/-- **A repository that was opened on the strings of `saved`** has come to `table`. In the process before, no load has
lost a number. -/
inductive Opened (saved : StrRepo) : StrRepo → Prop
  | intro {mempool pool : MemPool} {s s' : StrSys} {out : Output} {disk : Nat}
      (hrun : Reaches step Careful (start mempool) s) (hsaved : s.repo = saved)
      (hfile : (step s (.snapshot out disk)).file ≠ none)
      (hload : AllowedSmall (step s (.snapshot out disk)) (.reload pool))
      (hlater : Reaches step Running (step (step s (.snapshot out disk)) (.reload pool)) s') : Opened saved s'.repo

theorem Opened.reads {saved table : StrRepo} (h : Opened saved table) : Reads saved table := by
  obtain ⟨hrun, rfl, hfile, hload, hlater⟩ := h
  obtain ⟨hkeeps, hreads⟩ := reads_reload hrun hfile hload
  exact reads_running hlater hkeeps hreads

/-! ## (2) One snapshot -/

/-- **An instance comes back from a snapshot**, with its nested variables in reverse, exactly if it is clean, where its
texts have no statements. Strings are interned while it is written, and other code may intern more before the string
table is saved and after it is loaded. -/
theorem classInstRead_iff {env : InstEnv κ Empty} {mempool : MemPool} {s : StrSys}
    (hrun : Reaches step Careful (start mempool) s) {useAlias : Bool} {inst : ClassInstGsp.ClassInst κ Empty}
    {rec : Rec} {repo saved : StrRepo}
    (hexport : classInstExport tableCoder env.toTextEnv useAlias inst s.repo = .ok (rec, repo))
    (hbelow : Below repo saved) (hopened : Opened saved env.table) :
    (∃ inst', classInstRead env rec = .ok inst' ∧ inst'.said = inst.said.mirror) ↔ inst.Clean env saved := by
  obtain ⟨-, -, hsame⟩ := @follows_classInstExport κ Empty saved env.toTextEnv useAlias inst s.repo rec repo
    (inv_of_reaches hrun).agree.toTables hexport
  exact inst_back hopened.reads (hsame hbelow)

section Person

/-- `city` and `street` of a place. -/
def cityAttr : Attr := { numid := 2, name := [99], type := .str }

def streetAttr : Attr := { numid := 3, name := [115], type := .str }

/-- `home` of a person is a place. -/
def homeAttr : Attr := { numid := 1, name := [104], type := .inner, refClassEntry := some ⟨0, 4⟩ }

/-- A person who lives in `a`, at `b`. -/
def person : ClassInstGsp.ClassInst Unit Empty where
  name := List.replicate 9 120
  attrs := [.mk { attr := some homeAttr } [.mk { attr := some cityAttr, val := [97] } [] [],
    .mk { attr := some streetAttr, val := [98] } [] []] []]

/-- The repository with the two strings. -/
def interned : StrSys := ([.fetch [97], .fetch [98]] : List StrEvent).foldl step (start ⟨10⟩)

/-- Its snapshot. -/
def snapped : StrSys := step interned (.snapshot ⟨[], 1024⟩ 1024)

/-- The repository that is opened on it. -/
def reopened : StrSys := step snapped (.reload ⟨10⟩)

def personEnv : InstEnv Unit Empty where
  table := reopened.repo
  stmExport := nofun
  parseAnalysis _ _ _ := .err .fail
  parseEmpty := .ok ()
  emptyPar := .ok ()
  classIdx _ := .error .noMatch
  classEntryById _ := .error .noMatch
  acquire _ := .ok { attrs := [cityAttr, streetAttr] }
  blueprint := { attrs := [homeAttr] }

/-- What is written for the person. -/
def personRec : Rec :=
  .mk person.name
    [.clause homeAttr.id (.mk [] [.clause cityAttr.id (.mk [48] []), .clause streetAttr.id (.mk [49] [])])]

theorem clean_person : person.Clean personEnv interned.repo where
  name_ne := by decide
  name_lt := by decide
  name hlen := absurd hlen (by decide)
  aliasName := rfl
  tr := rfl
  linearPos := rfl
  linearLen := rfl
  attrs := by
    intro v hv
    obtain rfl := List.mem_singleton.mp hv
    refine ⟨rfl, rfl, some { attrs := [cityAttr, streetAttr] }, rfl, ?_⟩
    exact ⟨⟨rfl, rfl, trivial, rfl⟩, ⟨rfl, rfl, trivial, rfl⟩, trivial⟩

set_option maxRecDepth 10000 in
theorem export_person : classInstExport tableCoder personEnv.toTextEnv false person (start ⟨10⟩).repo =
    .ok (personRec, interned.repo) := rfl

theorem opened_reopened : Opened interned.repo reopened.repo :=
  @Opened.intro _ ⟨10⟩ ⟨10⟩ interned reopened ⟨[], 1024⟩ 1024
    (@Reaches.foldl _ _ step Careful _ _ [.fetch [97], .fetch [98]] .refl (by decide +kernel)) rfl (by decide +kernel)
    (by decide +kernel) .refl

theorem classInstRead_person :
    ∃ inst', classInstRead personEnv personRec = .ok inst' ∧ inst'.said = person.said.mirror :=
  (@classInstRead_iff Unit personEnv ⟨10⟩ (start ⟨10⟩) .refl false person personRec interned.repo interned.repo
    export_person (Below.refl _) opened_reopened).mpr clean_person

end Person

/-! ## (3) The next snapshot -/

/-- A string that is not empty and known. -/
def Loaded (s : StrSys) (v : Name) : Prop := v ≠ [] ∧ kndSharedDictGet s.repo.strDict v ≠ none

instance (s : StrSys) (v : Name) : Decidable (Loaded s v) :=
  inferInstanceAs (Decidable (v ≠ [] ∧ kndSharedDictGet s.repo.strDict v ≠ none))

/-- **A string that has lost its number.** -/
def Stale (repo : StrRepo) (v : Name) : Prop :=
  v ≠ [] ∧ ∃ seq, kndSharedDictGet repo.strDict v = some seq ∧ seq.numid = 0

/-- Such a string is written as the first one. -/
theorem Stale.fetchCode {repo : StrRepo} {v : Name} (h : Stale repo v) :
    fetchCode v repo = .ok (kndUidCreate 0, repo) := by
  obtain ⟨hne, seq, hget, hnum⟩ := h
  have hroom : 0 < radixBase ^ idSize := by decide
  rw [StringCodes.fetchCode, if_neg hne, kndCharseqFetch, hget]
  simp only [hnum, uidOf, if_pos hroom, Checked.ok_bind]

/-- The charseqs of the dictionary stay. -/
theorem dictGet_fetch {repo : StrRepo} {v : Name} {seq : CharSeq} (hget : kndSharedDictGet repo.strDict v = some seq)
    (val : Name) : kndSharedDictGet (kndCharseqFetch repo val).2.strDict v = some seq := by
  rw [kndCharseqFetch]
  cases hval : kndSharedDictGet repo.strDict val with
  | some a => exact hget
  | none =>
      cases hnew : kndCharseqNew repo val with
      | error e => exact hget
      | ok r =>
          obtain ⟨a, repo'⟩ := r
          obtain ⟨rfl, mempool, rfl⟩ := kndCharseqNew_ok hnew
          have hne : v ≠ val := by
            rintro rfl
            rw [hval] at hget
            cases hget
          simp only [registerCharseq]
          split
          · -- the new string is refused
            exact hget
          · rename_i item strDict pool hset
            have hkeep : kndSharedDictGet strDict v = some seq := by
              rw [kndSharedDictGet_set hset, if_neg hne]
              exact hget
            split <;> exact hkeep

theorem Stale.fetch {repo : StrRepo} {v : Name} (h : Stale repo v) (val : Name) :
    Stale (kndCharseqFetch repo val).2 v := by
  obtain ⟨hne, seq, hget, hnum⟩ := h
  exact ⟨hne, seq, dictGet_fetch hget val, hnum⟩

/-- The charseqs of a file all have the number 0 in the dictionary, too. -/
theorem dict_numid_of_load {saved : List (List UInt8 × Name)} {repo repo' : StrRepo}
    (h : saved.foldlM (fun s e => unmarshallCharseq e.1 e.2 s) repo = .ok repo')
    (hzero : ∀ v a, kndSharedDictGet repo.strDict v = some a → a.numid = 0) :
    ∀ v a, kndSharedDictGet repo'.strDict v = some a → a.numid = 0 := by
  induction saved generalizing repo with
  | nil =>
      cases h
      exact hzero
  | cons e saved ih =>
      rw [List.foldlM_cons] at h
      obtain ⟨repo₁, hone, hrest⟩ := Checked.bind_eq_ok.mp h
      refine ih hrest fun v a hget => ?_
      rw [(unmarshallCharseq_ok hone).2] at hget
      split_ifs at hget
      · cases hget
        rfl
      · exact hzero v a hget

/-- **Every string that was loaded has lost its number.** -/
theorem stale_reload {mempool pool : MemPool} {s : StrSys} (hrun : Reaches step AllowedSmall (start mempool) s)
    {file : List UInt8} (hfile : s.file = some file) (hload : AllowedSmall s (.reload pool)) {v : Name}
    (hv : Loaded (step s (.reload pool)) v) : Stale (step s (.reload pool)).repo v := by
  obtain ⟨idx, hsound, out, disk, n, task, hmar, rfl⟩ := (fileInv_of_reaches hrun).file file hfile
  have hholds : FileHolds task.file (idsOf idx) :=
    ⟨hsound.toCompact.idSet, out, disk, n, task, hsound.writable, rfl, rfl, hmar⟩
  obtain ⟨repo, hrepo⟩ := hload.1 task.file hfile
  obtain ⟨dir, hfetch⟩ := fetchStrIdx_eq hholds (hload.2 task.file hfile) { mempool := pool }
  have hreload : (step s (.reload pool)).repo = repo := by
    simp only [step, hfile, hrepo, StrSys.restart]
  obtain ⟨hne, hknown⟩ := hv
  obtain ⟨seq, hget⟩ := Option.ne_none_iff_exists'.mp hknown
  refine ⟨hne, seq, hget, ?_⟩
  rw [hreload] at hget
  -- the strings come from the callback of the load
  rw [hfetch] at hrepo
  obtain ⟨repo₁, hloaded, heq⟩ := Checked.bind_eq_ok.mp hrepo
  cases heq
  exact dict_numid_of_load hloaded (fun v a hnone => by cases hnone) v seq hget

/-- The strings of a load have lost their numbers. -/
def AllStale (s : StrSys) (repo : StrRepo) : Prop := ∀ v, Loaded s v → Stale repo v

/-- No call of the exporter gives a number back. -/
theorem AllStale.fetchCode {s : StrSys} {repo repo' : StrRepo} (h : AllStale s repo) {val : Name} {id : List UInt8}
    (hrun : fetchCode val repo = .ok (id, repo')) : AllStale s repo' := by
  have hsame : repo' = (kndCharseqFetch repo val).2 := by
    unfold StringCodes.fetchCode at hrun
    split_ifs at hrun
    cases hcall : kndCharseqFetch repo val with
    | mk rc r =>
        cases rc with
        | error e => simp [hcall] at hrun
        | ok seq =>
            simp only [hcall] at hrun
            obtain ⟨b, -, hb⟩ := Checked.bind_eq_ok.mp hrun
            cases hb
            rfl
  rw [hsame]
  exact fun v hv => (h v hv).fetch val

/-- **The record of an instance does not tell the strings that were loaded from each other**: when a repository has been
opened on its snapshot, an instance that holds other ones of them is written with the same record, and the string table
comes out the same. -/
theorem classInstExport_rename {mempool pool : MemPool} {s s' : StrSys}
    (hrun : Reaches step AllowedSmall (start mempool) s) {file : List UInt8} (hfile : s.file = some file)
    (hload : AllowedSmall s (.reload pool)) (hlater : Reaches step Running (step s (.reload pool)) s')
    {f : Name → Name}
    (hf : ∀ v, f v = v ∨ Loaded (step s (.reload pool)) v ∧ Loaded (step s (.reload pool)) (f v))
    (env : TextEnv κ σ) (useAlias : Bool) (inst : ClassInstGsp.ClassInst κ σ) :
    classInstExport tableCoder env useAlias (inst.rename f) s'.repo =
      classInstExport tableCoder env useAlias inst s'.repo := by
  have hnow : AllStale (step s (.reload pool)) s'.repo :=
    repo_running (fun repo val h v hv => (h v hv).fetch val) (fun repo mempool h => h) hlater
      fun v hv => stale_reload hrun hfile hload hv
  have hcode : ∀ repo val, AllStale (step s (.reload pool)) repo → fetchCode val repo = fetchCode (f val) repo := by
    intro repo val hstale
    rcases hf val with heq | ⟨hval, hother⟩
    · rw [heq]
    · rw [(hstale val hval).fetchCode, (hstale (f val) hother).fetchCode]
  have hrelated :=
    related_classInstExport (alike hcode fun repo val id repo' h hrun => h.fetchCode hrun) env useAlias inst
  exact (hrelated s'.repo hnow).1.symm

theorem reaches_snapped : Reaches step AllowedSmall (start ⟨10⟩) snapped :=
  @Reaches.foldl _ _ step AllowedSmall _ _ [.fetch [97], .fetch [98], .snapshot ⟨[], 1024⟩ 1024] .refl
    (by decide +kernel)

theorem file_snapped : snapped.file = some [71, 83, 80, 48, 97, 0, 49, 98, 0, 1, 7, 1] := by decide +kernel

/-- The other one of the two strings. -/
def swap (v : Name) : Name := if v = [97] then [98] else if v = [98] then [97] else v

theorem classInstExport_person :
    classInstExport tableCoder personEnv.toTextEnv false (person.rename swap) reopened.repo =
      classInstExport tableCoder personEnv.toTextEnv false person reopened.repo := by
  refine @classInstExport_rename Unit Empty ⟨10⟩ ⟨10⟩ snapped reopened reaches_snapped _ file_snapped
    (by decide +kernel) .refl swap ?_ _ _ _
  intro v
  unfold swap
  split_ifs with ha hb
  · exact .inr ⟨ha ▸ by decide +kernel, by decide +kernel⟩
  · exact .inr ⟨hb ▸ by decide +kernel, by decide +kernel⟩
  · exact .inl rfl

end Knowdy.InstSnapshots
