import Knowdy.Lib.Checked
import Knowdy.StringRuns

/-! # Strings in records

The records of a snapshot hold the ids of strings. An exporter gets the id of a string from `knd_charseq_fetch`, which
adds the string to the table of the repository when it is new; a reader gives the id to `knd_charseq_decode`.

* `Coder` — what an exporter uses. `tableCoder` adds strings to a table, `codeCoder` looks them up in one.
* `decodeSeq` — the reader's side.
* `Below` — a table that another one extends.
* `Reads` — a table that reads what was written with another one.
* `Related` — what two exporters do with the same program.
* `follows` — what is exported while the table grows is what the last table alone gives.
* `alike` — strings with the same code are exported alike. -/

namespace Knowdy.StringCodes

open Strings (dictGet_registered length_kndUidCreate_le)

/-! ## (1) Writing and reading ids -/

/-- Operations without a meaning. -/
inductive Fault
  /-- A null pointer is followed. -/
  | null
  /-- An assertion fails. -/
  | assertion
  /-- An id does not fit a buffer of `KND_ID_SIZE` bytes. -/
  | overflow
  deriving DecidableEq, Repr

/-- **What an exporter of records uses.** -/
structure Coder (m : Type → Type) where
  /-- `knd_charseq_fetch` and `knd_uid_create`. -/
  code : Name → m (List UInt8)
  /-- What does not use the table of strings. -/
  lift : {α : Type} → Checked KndErr Fault α → m α

/-- `knd_uid_create` into a buffer of `KND_ID_SIZE` bytes. -/
def uidOf (numid : Nat) : Checked KndErr Fault (List UInt8) :=
  if numid < radixBase ^ idSize then .ok (kndUidCreate numid) else .fault .overflow

/-- The id of a string, which is interned if it is new. -/
def fetchCode (val : Name) : StateT StrRepo (Checked KndErr Fault) (List UInt8) := fun repo =>
  if val = [] then .fault .assertion
  else
    match kndCharseqFetch repo val with
    | (.error e, _) => .err e
    | (.ok seq, repo') => do
        let id ← uidOf seq.numid
        .ok (id, repo')

/-- **The exporter of a snapshot.** -/
def tableCoder : Coder (StateT StrRepo (Checked KndErr Fault)) where
  code := fetchCode
  lift x := fun repo => do
    let a ← x
    .ok (a, repo)

/-- The id of a string in a table. -/
def lookupCode (table : StrRepo) (val : Name) : Checked KndErr Fault (List UInt8) :=
  if val = [] then .fault .assertion
  else
    match kndSharedDictGet table.strDict val with
    | none => .err .noMatch
    | some seq => uidOf seq.numid

/-- An exporter that finds every string in a table. -/
def codeCoder (table : StrRepo) : Coder (Checked KndErr Fault) where
  code := lookupCode table
  lift x := x

/-- **`knd_charseq_decode`**, with its assertion. -/
def decodeSeq (table : StrRepo) (id : List UInt8) : Checked KndErr Fault CharSeq :=
  if id.length ≤ idSize then
    match kndCharseqDecode table id with
    | .error e => .err e
    | .ok seq => .ok seq
  else .fault .assertion

/-! ## (2) Tables that grow -/

/-- **Every string of a table is in another one**, with the same number. The charseqs of a repository that was opened
again are at other addresses. -/
def Below (repo repo' : StrRepo) : Prop :=
  ∀ v seq, kndSharedDictGet repo.strDict v = some seq →
    ∃ seq', kndSharedDictGet repo'.strDict v = some seq' ∧ seq'.numid = seq.numid

theorem Below.refl (repo : StrRepo) : Below repo repo := fun _ seq h => ⟨seq, h, rfl⟩

theorem Below.trans {repo repo' repo'' : StrRepo} (h : Below repo repo') (h' : Below repo' repo'') :
    Below repo repo'' := by
  intro v seq hv
  obtain ⟨seq', hv', hnum⟩ := h v seq hv
  obtain ⟨seq'', hv'', hnum'⟩ := h' v seq' hv'
  exact ⟨seq'', hv'', hnum'.trans hnum⟩

/-- **Interning a string** keeps the tables in agreement and the other strings where they are. -/
theorem tables_fetch {repo repo' : StrRepo} (h : Tables repo) {val : Name} {seq : CharSeq}
    (hrun : kndCharseqFetch repo val = (.ok seq, repo')) :
    Tables repo' ∧ Below repo repo' ∧ kndSharedDictGet repo'.strDict val = some seq := by
  rcases @kndCharseqFetch_cases repo val h.free with ⟨a, hget, hfetch⟩ | ⟨e, mempool, numStrs, nextAddr, hfetch, -, -⟩ |
    ⟨a, r, mempool, hnew, ha, hfetch, hreg⟩
  · -- the string is known
    rw [hfetch] at hrun
    cases hrun
    exact ⟨h, Below.refl _, hget⟩
  · rw [hfetch] at hrun
    cases hrun
  · -- the string is new
    rw [hfetch] at hrun
    simp only [Prod.mk.injEq, Except.ok.injEq] at hrun
    obtain ⟨rfl, rfl⟩ := hrun
    have hval : a.val = val := by rw [ha]
    have hnum : a.numid = repo.numStrs := by rw [ha]
    have hkeep : ∀ v b, kndSharedDictGet repo.strDict v = some b → kndSharedDictGet r.strDict v = some b := by
      intro v b hb
      refine dictGet_registered ?_ hreg hb
      rw [hval]
      exact hnew
    have hdecode : ∀ id b, kndCharseqDecode repo id = .ok b → kndCharseqDecode r id = .ok b := by
      intro id b hb
      refine (hreg.strIdx id b).mpr ?_
      rw [if_neg]
      · exact hb
      · -- the numbers in the table are smaller
        rintro rfl
        obtain ⟨hid, hlt, -⟩ := h.idx _ _ hb
        have heq := kndUidCreate_inj.mp hid
        omega
    refine ⟨⟨?_, ?_⟩, fun v b hb => ⟨b, hkeep v b hb, rfl⟩, ?_⟩
    · intro v b hb
      rw [hreg.strDict] at hb
      split_ifs at hb with hv
      · cases hb
        exact ⟨hv.symm, (hreg.strIdx _ _).mpr (by simp)⟩
      · obtain ⟨hbval, hdec⟩ := h.dict v b hb
        exact ⟨hbval, hdecode _ _ hdec⟩
    · intro id b hb
      have hcases := (hreg.strIdx id b).mp hb
      split_ifs at hcases with hid
      · subst hcases
        refine ⟨hid, ?_, ?_⟩
        · rw [hnum, hreg.numStrs]
          exact Nat.lt_succ_self _
        · rw [hreg.strDict, if_pos rfl]
      · obtain ⟨hbid, hlt, hget⟩ := h.idx _ _ hcases
        refine ⟨hbid, ?_, hkeep _ _ hget⟩
        rw [hreg.numStrs]
        exact Nat.lt_succ_of_lt hlt
    · rw [hreg.strDict, if_pos hval.symm]

/-- **What is written with one table can be read with another one**: the id of a string decodes to the string. -/
def Reads (saved table : StrRepo) : Prop :=
  ∀ v seq, kndSharedDictGet saved.strDict v = some seq →
    ∃ seq', kndCharseqDecode table (kndUidCreate seq.numid) = .ok seq' ∧ seq'.val = v

/-- **The id of a string decodes to the string.** -/
theorem decodeSeq_of_lookupCode {saved table : StrRepo} (h : Reads saved table) {val : Name} {id : List UInt8}
    (hcode : lookupCode saved val = .ok id) : ∃ seq, decodeSeq table id = .ok seq ∧ seq.val = val := by
  unfold lookupCode at hcode
  split_ifs at hcode
  cases hget : kndSharedDictGet saved.strDict val with
  | none => simp [hget] at hcode
  | some seq =>
      simp only [hget, uidOf] at hcode
      split_ifs at hcode with hroom
      cases hcode
      obtain ⟨seq', hdec, hval⟩ := h val seq hget
      refine ⟨seq', ?_, hval⟩
      rw [decodeSeq, if_pos (length_kndUidCreate_le hroom), hdec]

/-- No id is empty. -/
theorem lookupCode_ne_nil {table : StrRepo} {val : Name} {id : List UInt8}
    (hcode : lookupCode table val = .ok id) : id ≠ [] := by
  unfold lookupCode at hcode
  split_ifs at hcode
  cases hget : kndSharedDictGet table.strDict val with
  | none => simp [hget] at hcode
  | some seq =>
      simp only [hget, uidOf] at hcode
      split_ifs at hcode
      cases hcode
      exact kndUidCreate_ne_nil _

/-! ## (3) Two exporters -/

/-- **A relation between what two exporters do**, when the second one gets other strings: every export that is written
with `pure`, `bind` and the two operations is related to itself. -/
structure Related {m m' : Type → Type} [Monad m] [Monad m'] (c : Coder m) (c' : Coder m') (f : Name → Name)
    (R : {α : Type} → m α → m' α → Prop) : Prop where
  pure : ∀ {α : Type} (a : α), R (pure a : m α) (pure a)
  bind : ∀ {α β : Type} {x : m α} {y : m' α} {k : α → m β} {l : α → m' β}, R x y → (∀ a, R (k a) (l a)) →
    R (x >>= k) (y >>= l)
  lift : ∀ {α : Type} (x : Checked KndErr Fault α), R (c.lift x) (c'.lift x)
  code : ∀ val, R (c.code val) (c'.code (f val))

section Follows

variable {table : StrRepo} {α β : Type}

/-- **What an export gives while the table grows, another one gives in every later table.** -/
def Follows (table : StrRepo) (x : StateT StrRepo (Checked KndErr Fault) α) (y : Checked KndErr Fault α) : Prop :=
  ∀ repo a repo', Tables repo → x repo = .ok (a, repo') →
    Tables repo' ∧ Below repo repo' ∧ (Below repo' table → y = .ok a)

theorem Follows.bind {x : StateT StrRepo (Checked KndErr Fault) α} {y : Checked KndErr Fault α}
    {k : α → StateT StrRepo (Checked KndErr Fault) β} {l : α → Checked KndErr Fault β} (hx : Follows table x y)
    (hk : ∀ a, Follows table (k a) (l a)) : Follows table (x >>= k) (y >>= l) := by
  intro repo b repo'' h hrun
  obtain ⟨⟨a, repo'⟩, hfirst, hrest⟩ := Checked.bind_eq_ok.mp hrun
  obtain ⟨h', hle, heq⟩ := hx repo a repo' h hfirst
  obtain ⟨h'', hle', heq'⟩ := hk a repo' b repo'' h' hrest
  refine ⟨h'', hle.trans hle', fun hlast => ?_⟩
  -- the table of the first part is below the last one, too
  rw [heq (hle'.trans hlast), Checked.ok_bind]
  exact heq' hlast

theorem Follows.code (val : Name) : Follows table (tableCoder.code val) ((codeCoder table).code val) := by
  intro repo id repo' h hrun
  simp only [tableCoder, fetchCode] at hrun
  split_ifs at hrun with hval
  cases hfetch : kndCharseqFetch repo val with
  | mk rc r =>
      cases rc with
      | error e => simp [hfetch] at hrun
      | ok seq =>
          simp only [hfetch] at hrun
          obtain ⟨b, hid, hb⟩ := Checked.bind_eq_ok.mp hrun
          cases hb
          obtain ⟨h', hle, hget⟩ := tables_fetch h hfetch
          refine ⟨h', hle, fun hlast => ?_⟩
          obtain ⟨seq', hget', hnum⟩ := hlast _ _ hget
          simp only [codeCoder, lookupCode, if_neg hval, hget', hnum]
          exact hid

/-- **An export follows itself** while the table grows. -/
theorem follows (table : StrRepo) : Related tableCoder (codeCoder table) id (Follows table) where
  pure a := by
    intro repo b repo' h hrun
    cases hrun
    exact ⟨h, Below.refl _, fun _ => rfl⟩
  bind := Follows.bind
  lift x := by
    intro repo a repo' h hrun
    obtain ⟨b, hx, hb⟩ := Checked.bind_eq_ok.mp hrun
    cases hb
    exact ⟨h, Below.refl _, fun _ => hx⟩
  code := Follows.code

end Follows

section Alike

variable {P : StrRepo → Prop} {α β : Type}

/-- **Two exports do the same** in all tables with a property, and leave it alone. -/
def Alike (P : StrRepo → Prop) (x y : StateT StrRepo (Checked KndErr Fault) α) : Prop :=
  ∀ repo, P repo → x repo = y repo ∧ ∀ a repo', x repo = .ok (a, repo') → P repo'

theorem Alike.bind {x y : StateT StrRepo (Checked KndErr Fault) α}
    {k l : α → StateT StrRepo (Checked KndErr Fault) β} (hx : Alike P x y) (hk : ∀ a, Alike P (k a) (l a)) :
    Alike P (x >>= k) (y >>= l) := by
  intro repo hrepo
  obtain ⟨heq, hkeep⟩ := hx repo hrepo
  have hrest : ∀ a repo', x repo = .ok (a, repo') → k a repo' = l a repo' ∧
      ∀ b repo'', k a repo' = .ok (b, repo'') → P repo'' :=
    fun a repo' hrun => hk a repo' (hkeep a repo' hrun)
  change (x repo >>= fun p => k p.1 p.2) = (y repo >>= fun p => l p.1 p.2) ∧
    ∀ b repo'', (x repo >>= fun p => k p.1 p.2) = .ok (b, repo'') → P repo''
  rw [← heq]
  cases hrun : x repo with
  | err e => simp
  | fault f => simp
  | ok p => exact hrest p.1 p.2 hrun

/-- **Strings with the same code**: an export does not tell them apart. -/
theorem alike {f : Name → Name} (hcode : ∀ repo val, P repo → fetchCode val repo = fetchCode (f val) repo)
    (hkeep : ∀ repo val id repo', P repo → fetchCode val repo = .ok (id, repo') → P repo') :
    Related tableCoder tableCoder f (Alike P) where
  pure a repo hrepo := by
    refine ⟨rfl, fun b repo' hrun => ?_⟩
    cases hrun
    exact hrepo
  bind := Alike.bind
  lift x repo hrepo := by
    refine ⟨rfl, fun a repo' hrun => ?_⟩
    obtain ⟨b, -, hb⟩ := Checked.bind_eq_ok.mp hrun
    cases hb
    exact hrepo
  code val repo hrepo := ⟨hcode repo val hrepo, fun id repo' hrun => hkeep repo val id repo' hrepo hrun⟩

end Alike

end Knowdy.StringCodes
