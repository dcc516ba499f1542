import Knowdy.InstGsl
import Knowdy.KndSet
import Mathlib.Data.List.TakeWhile

/-! # The bytes of a journal

`build_commit_WAL` of `knd_repo.commit.c` appends a record for each commit to a journal; `knd_repo_restore` of
`knd_repo.open.c` reads the journals with the parser of GSL, which is not part of the repository.

* `exportCommitGSL`, `appendWalRec` — the writer; `commitGSL`, `walRecord`, `journalFile` — what it writes.
* `single_commitClause_iff` — the clause of a commit is a single term if and only if its author is authenticated.
* `records_prefix_of_journal`, `level_torn_iff` — journals are read in one way, and a torn one shows.
* `GslParser`, `parseCommit`, `restoreJournals` — the reader, for any parser.
* `restores_iff` — **the journals of authenticated authors come back** if no number occurs twice and no record is
  behind the last journal that is read. -/

namespace Knowdy.WalRecords

open Braces
open GlossExports (bytes)
open InstGsl (PlainName Closed StatePhase Inst closed_decimalBytes)

/-! ## (1) Commits -/

/-- A class as a request declares it. -/
structure ClassDecl where
  /-- `entry->name`. -/
  name : PlainName
  /-- The names of its bases. -/
  bases : List PlainName := []
  /-- The types and names of its attributes. -/
  attrs : List (PlainName × PlainName) := []

/-- A state of an instance. -/
structure InstState where
  /-- What happened to the instance. -/
  phase : StatePhase
  /-- How deep its texts declare instances in texts of instances. -/
  nesting : Nat
  /-- The instance. -/
  inst : InstGsl.ClassInst (Inst nesting)

/-- A state of a class: an element of `commit->class_state_refs`. -/
structure ClassState where
  /-- `ref->obj`, which may be missing. -/
  entry : Option ClassDecl
  /-- `state->phase`. -/
  phase : StatePhase
  /-- `state->children`, in each of which `obj` may be missing. -/
  insts : List (Option InstState) := []

/-- `task->user_ctx`. -/
inductive Author
  /-- `KND_USER_AUTHENTICATED`: the instance of the user. -/
  | authenticated (name : PlainName)
  /-- The other types. -/
  | other

/-- A confirmed commit, with the user context of the task that confirms it. -/
structure LiveCommit where
  /-- `task->user_ctx`. -/
  author : Author
  /-- The format that the request of the task asks for. -/
  format : InstGsl.Format
  /-- `numid`. -/
  numid : Nat
  /-- `timestamp`: the clock when the record was written. -/
  timestamp : Nat
  /-- `class_state_refs`. -/
  classStates : List ClassState

/-! ## (2) The writer -/

variable (fmt : InstGsl.Format)

/-- What `knd_class_inst_export_GSL` writes for an item of a list. -/
def InstState.text (ref : InstState) : List UInt8 :=
  InstGsl.classInstExport fmt (Inst.export fmt ref.nesting) true ref.phase 0 ref.inst

/-- One round of `knd_class_inst_export_commit`; the instance is written in one piece. -/
def exportInstState (out : Output) : Option InstState → Except KndErr Output
  | none => .ok out
  | some ref => do
      let out ← out.write (bytes "\x7b")
      let out ← (if ref.phase = .created then out.write (bytes "!") else pure out)
      let out ← out.write (bytes "inst ")
      let out ← out.write (ref.text fmt)
      out.write (bytes "\x7d")

/-- `knd_class_inst_export_commit`. -/
def kndClassInstExportCommit (stateRefs : List (Option InstState)) (out : Output) : Except KndErr Output :=
  stateRefs.foldlM (exportInstState fmt) out

/-- One round of the loop of `export_commit_GSL`. -/
def exportClassState (out : Output) (ref : ClassState) : Except KndErr Output :=
  match ref.entry with
  | none => .ok out
  | some entry => do
      let out ← out.writec 123
      let out ← (if ref.phase = .created then out.writec 33 else pure out)
      let out ← out.write (bytes "class ")
      let out ← out.write entry.name.chars
      if ref.phase = .removed then do
        let out ← out.write (bytes "_rm")   -- three of the four characters of `"_rm "`
        out.writec 125
      else do
        let out ← (if ref.phase = .selected then kndClassInstExportCommit fmt ref.insts out else pure out)
        out.write (bytes "\x7d")

/-- The author in `export_commit_GSL`. -/
def exportAuthor (author : Author) (out : Output) : Except KndErr Output :=
  match author with
  | .authenticated name => do
      let out ← out.write (bytes "\x7buser ")
      out.write name.chars
  | .other => .ok out

/-- `export_commit_GSL`; the brace of `{user ` is closed for every author, `task->user_ctx` is never null here. -/
def exportCommitGSL (repoName : PlainName) (commit : LiveCommit) (out : Output) : Except KndErr Output := do
  let out ← out.reset.write (bytes "\x7btask")
  let out ← exportAuthor commit.author out
  let out ← out.write (bytes "\x7brepo ")
  let out ← out.write repoName.chars
  let out ← commit.classStates.foldlM (exportClassState commit.format) out
  let out ← out.write (bytes "\x7d")
  let out ← out.write (bytes "\x7d")
  out.write (bytes "\x7d")

/-- `{commit %zu{_ts %zu}{_size %zu}`. -/
def commitHeader (numid timestamp size : Nat) : List UInt8 :=
  bytes "\x7bcommit " ++ decimalBytes numid ++ bytes "\x7b_ts " ++ decimalBytes timestamp ++
    bytes "\x7d\x7b_size " ++ decimalBytes size ++ bytes "\x7d"

/-- `build_commit_WAL` from `append_wal_rec` on: the journal with one record more. -/
def appendWalRec (disk : Nat) (repoName : PlainName) (out fileOut : Output) (journal : List UInt8)
    (commit : LiveCommit) : Except KndErr (List UInt8) := do
  let out ← exportCommitGSL repoName commit out
  let fileOut ← fileOut.reset.write (commitHeader commit.numid commit.timestamp out.buf.length)
  let fileOut ← fileOut.write out.buf
  let fileOut ← fileOut.write (bytes "\x7d\n")
  kndAppendFile disk journal fileOut.buf

/-- A journal with the records of some commits. -/
def writeJournal (disk : Nat) (repoName : PlainName) (out fileOut : Output) (commits : List LiveCommit) :
    Except KndErr (List UInt8) :=
  commits.foldlM (appendWalRec disk repoName out fileOut) (bytes "\x7bWAL\n")

/-! ## (3) What it writes -/

/-- The text of a state of an instance. -/
def InstState.gsl (ref : InstState) : List UInt8 :=
  bytes "\x7b" ++ (if ref.phase = .created then bytes "!" else []) ++ bytes "inst " ++ ref.text fmt ++ bytes "\x7d"

/-- The text of the states of the instances of a class. -/
def instsGSL (refs : List (Option InstState)) : List UInt8 :=
  refs.flatMap fun ref => (ref.map (InstState.gsl fmt)).getD []

/-- The text of a state of a class behind the name. -/
def ClassState.tail (ref : ClassState) : List UInt8 :=
  if ref.phase = .removed then bytes "_rm"
  else if ref.phase = .selected then instsGSL fmt ref.insts
  else []

/-- The text of a state of a class. -/
def ClassState.gsl (ref : ClassState) : List UInt8 :=
  match ref.entry with
  | none => []
  | some entry =>
      bytes "\x7b" ++ (if ref.phase = .created then bytes "!" else []) ++ bytes "class " ++ entry.name.chars ++
        ref.tail fmt ++ bytes "\x7d"

/-- The text of an author. -/
def Author.gsl : Author → List UInt8
  | .authenticated name => bytes "\x7buser " ++ name.chars
  | .other => []

/-- The clauses of the classes of a commit. -/
def classStatesGSL (commit : LiveCommit) : List UInt8 := commit.classStates.flatMap (ClassState.gsl commit.format)

/-- **The body of a record.** -/
def commitGSL (repoName : PlainName) (commit : LiveCommit) : List UInt8 :=
  bytes "\x7btask" ++ commit.author.gsl ++ bytes "\x7brepo " ++ repoName.chars ++ classStatesGSL commit ++
    bytes "\x7d\x7d\x7d"

/-- The clause of a commit. -/
def commitClause (repoName : PlainName) (commit : LiveCommit) : List UInt8 :=
  commitHeader commit.numid commit.timestamp (commitGSL repoName commit).length ++ commitGSL repoName commit ++
    bytes "\x7d"

/-- **The record of a commit.** -/
def walRecord (repoName : PlainName) (commit : LiveCommit) : List UInt8 :=
  commitClause repoName commit ++ bytes "\n"

/-- **A journal.** -/
def journalFile (repoName : PlainName) (commits : List LiveCommit) : List UInt8 :=
  bytes "\x7bWAL\n" ++ commits.flatMap (walRecord repoName)

variable {fmt}

theorem exportInstState_ok {out out' : Output} {ref : Option InstState} (h : exportInstState fmt out ref = .ok out') :
    out' = out.append ((ref.map (InstState.gsl fmt)).getD []) := by
  cases ref with
  | none =>
      cases h
      exact out.append_nil.symm
  | some ref =>
      rw [exportInstState] at h
      simp only [bind_eq_ok] at h
      obtain ⟨out₁, h₁, out₂, h₂, out₃, h₃, out₄, h₄, h₅⟩ := h
      have hmark : out₂ = out₁.append (if ref.phase = .created then bytes "!" else []) := by
        split_ifs at h₂ ⊢
        · exact Output.eq_append_of_write h₂
        · cases h₂
          exact out₁.append_nil.symm
      rw [Output.eq_append_of_write h₅, Output.eq_append_of_write h₄, Output.eq_append_of_write h₃, hmark,
        Output.eq_append_of_write h₁]
      simp only [Output.append_append, Option.map_some, Option.getD_some, InstState.gsl]

theorem kndClassInstExportCommit_ok {refs : List (Option InstState)} {out out' : Output}
    (h : kndClassInstExportCommit fmt refs out = .ok out') : out' = out.append (instsGSL fmt refs) := by
  induction refs generalizing out with
  | nil =>
      cases h
      exact (Output.append_nil _).symm
  | cons ref refs ih =>
      rw [kndClassInstExportCommit, List.foldlM_cons, bind_eq_ok] at h
      obtain ⟨out₁, href, hrefs⟩ := h
      rw [ih hrefs, exportInstState_ok href, Output.append_append, instsGSL, instsGSL, List.flatMap_cons]

theorem exportClassState_ok {out out' : Output} {ref : ClassState} (h : exportClassState fmt out ref = .ok out') :
    out' = out.append (ref.gsl fmt) := by
  rw [exportClassState] at h
  rw [ClassState.gsl]
  cases hentry : ref.entry with
  | none =>
      rw [hentry] at h
      cases h
      exact out.append_nil.symm
  | some entry =>
      rw [hentry] at h
      simp only [bind_eq_ok] at h
      obtain ⟨out₁, h₁, out₂, h₂, out₃, h₃, out₄, h₄, h₅⟩ := h
      have hmark : out₂ = out₁.append (if ref.phase = .created then bytes "!" else []) := by
        split_ifs at h₂ ⊢
        · exact Output.eq_append_of_writec h₂
        · cases h₂
          exact out₁.append_nil.symm
      have htail : out' = out₄.append (ref.tail fmt ++ bytes "\x7d") := by
        rw [ClassState.tail]
        split_ifs at h₅ ⊢ with hremoved hselected
        · rw [bind_eq_ok] at h₅
          obtain ⟨out₅, h₅, h₆⟩ := h₅
          rw [Output.eq_append_of_writec h₆, Output.eq_append_of_write h₅, Output.append_append]
          rfl
        · rw [bind_eq_ok] at h₅
          obtain ⟨out₅, h₅, h₆⟩ := h₅
          rw [Output.eq_append_of_write h₆, kndClassInstExportCommit_ok h₅, Output.append_append]
        · rw [bind_eq_ok] at h₅
          obtain ⟨out₅, h₅, h₆⟩ := h₅
          cases h₅
          exact Output.eq_append_of_write h₆
      rw [htail, Output.eq_append_of_write h₄, Output.eq_append_of_write h₃, hmark, Output.eq_append_of_writec h₁]
      simp only [Output.append_append, List.append_assoc]
      rfl

theorem foldlM_exportClassState_ok {refs : List ClassState} {out out' : Output}
    (h : refs.foldlM (exportClassState fmt) out = .ok out') :
    out' = out.append (refs.flatMap (ClassState.gsl fmt)) := by
  induction refs generalizing out with
  | nil =>
      cases h
      exact (Output.append_nil _).symm
  | cons ref refs ih =>
      rw [List.foldlM_cons, bind_eq_ok] at h
      obtain ⟨out₁, href, hrefs⟩ := h
      rw [ih hrefs, exportClassState_ok href, Output.append_append, List.flatMap_cons]

theorem exportAuthor_ok {author : Author} {out out' : Output} (h : exportAuthor author out = .ok out') :
    out' = out.append author.gsl := by
  cases author with
  | authenticated name =>
      rw [exportAuthor, bind_eq_ok] at h
      obtain ⟨out₁, h₁, h₂⟩ := h
      rw [Output.eq_append_of_write h₂, Output.eq_append_of_write h₁, Output.append_append, Author.gsl]
  | other =>
      cases h
      exact out.append_nil.symm

/-- **The export of a commit** leaves its text in the buffer. -/
theorem exportCommitGSL_ok {repoName : PlainName} {commit : LiveCommit} {out out' : Output}
    (h : exportCommitGSL repoName commit out = .ok out') : out'.buf = commitGSL repoName commit := by
  simp only [exportCommitGSL, bind_eq_ok] at h
  obtain ⟨out₁, h₁, out₂, h₂, out₃, h₃, out₄, h₄, out₅, h₅, out₆, h₆, out₇, h₇, h₈⟩ := h
  rw [Output.eq_append_of_write h₈, Output.eq_append_of_write h₇, Output.eq_append_of_write h₆,
    foldlM_exportClassState_ok h₅, Output.eq_append_of_write h₄, Output.eq_append_of_write h₃, exportAuthor_ok h₂,
    Output.eq_append_of_write h₁]
  simp only [Output.append_buf, Output.reset_buf, List.nil_append, commitGSL, classStatesGSL, List.append_assoc]
  rfl

/-- **A commit that is written** adds its record to the journal. -/
theorem appendWalRec_ok {disk : Nat} {repoName : PlainName} {out fileOut : Output} {journal journal' : List UInt8}
    {commit : LiveCommit} (h : appendWalRec disk repoName out fileOut journal commit = .ok journal') :
    journal' = journal ++ walRecord repoName commit := by
  simp only [appendWalRec, bind_eq_ok] at h
  obtain ⟨out', hout, out₁, h₁, out₂, h₂, out₃, h₃, h₄⟩ := h
  rw [eq_append_of_kndAppendFile h₄, Output.eq_append_of_write h₃, Output.eq_append_of_write h₂,
    Output.eq_append_of_write h₁, exportCommitGSL_ok hout]
  simp only [Output.append_buf, Output.reset_buf, List.nil_append, walRecord, commitClause, List.append_assoc]
  rfl

/-- **A journal whose writes all succeed.** -/
theorem writeJournal_ok {disk : Nat} {repoName : PlainName} {out fileOut : Output} {commits : List LiveCommit}
    {file : List UInt8} (h : writeJournal disk repoName out fileOut commits = .ok file) :
    file = journalFile repoName commits := by
  have hloop : ∀ {commits : List LiveCommit} {journal file : List UInt8},
      commits.foldlM (appendWalRec disk repoName out fileOut) journal = .ok file →
        file = journal ++ commits.flatMap (walRecord repoName) := by
    intro commits
    induction commits with
    | nil =>
        intro journal file h
        cases h
        exact (List.append_nil journal).symm
    | cons commit commits ih =>
        intro journal file h
        rw [List.foldlM_cons, bind_eq_ok] at h
        obtain ⟨journal', hcommit, hcommits⟩ := h
        rw [ih hcommits, appendWalRec_ok hcommit, List.flatMap_cons, List.append_assoc]
  exact hloop h

/-! ## (4) Braces -/

/-- `task->user_ctx->type == KND_USER_AUTHENTICATED`. -/
def Author.IsAuthenticated : Author → Prop
  | .authenticated _ => True
  | .other => False

/-- The braces that an author opens. -/
def Author.opened : Author → Nat
  | .authenticated _ => 1
  | .other => 0

/-- A clause with a plain tag. -/
theorem closed_braced {s : List UInt8} (h : Closed s) : Closed (bytes "\x7b" ++ s ++ bytes "\x7d") :=
  h.wrap (by decide)

theorem InstState.closed_gsl (ref : InstState) : Closed (ref.gsl fmt) := by
  have hmark : Closed (if ref.phase = .created then bytes "!" else []) := by
    split_ifs
    · decide
    · exact matched_nil
  have htag : Closed (bytes "inst ") := by decide
  have htext : Closed (ref.text fmt) := InstGsl.closed_classInstExport fmt true ref.phase 0 ref.inst
  have hinner := (hmark.append htag).append htext
  rw [InstState.gsl]
  simp only [List.append_assoc] at hinner ⊢
  have hbraced := closed_braced hinner
  simpa only [List.append_assoc] using hbraced

theorem closed_instsGSL (refs : List (Option InstState)) : Closed (instsGSL fmt refs) := by
  refine Matched.flatMap fun ref _ => ?_
  cases ref with
  | none => exact matched_nil
  | some ref => exact ref.closed_gsl

theorem ClassState.closed_gsl (ref : ClassState) : Closed (ref.gsl fmt) := by
  rw [ClassState.gsl]
  cases ref.entry with
  | none => exact matched_nil
  | some entry =>
      have hmark : Closed (if ref.phase = .created then bytes "!" else []) := by
        split_ifs
        · decide
        · exact matched_nil
      have htag : Closed (bytes "class ") := by decide
      have htail : Closed (ref.tail fmt) := by
        rw [ClassState.tail]
        split_ifs
        · decide
        · exact closed_instsGSL ref.insts
        · exact matched_nil
      have hinner := ((hmark.append htag).append entry.name.closed).append htail
      have hbraced := closed_braced hinner
      simpa only [List.append_assoc] using hbraced

theorem closed_classStatesGSL (commit : LiveCommit) : Closed (classStatesGSL commit) :=
  Matched.flatMap fun ref _ => ref.closed_gsl

/-- Behind a text that opens `k` braces. -/
theorem level_opening {s : List UInt8} {k : Nat} (h : level 123 125 0 s = some k) (n : Nat) (t : List UInt8) :
    level 123 125 n (s ++ t) = level 123 125 (n + k) t := by
  have hadd := level_add h n
  rw [Nat.zero_add, Nat.add_comm] at hadd
  rw [level_append, hadd]
  rfl

theorem level_author (author : Author) (n : Nat) (t : List UInt8) :
    level 123 125 n (author.gsl ++ t) = level 123 125 (n + author.opened) t := by
  cases author with
  | authenticated name =>
      rw [Author.gsl, List.append_assoc, level_opening (k := 1) (by decide)]
      exact name.closed.level_append (n + 1) t
  | other => rfl

/-- **The body of a record** opens two braces and that of the author, and closes three. -/
theorem level_commitGSL (repoName : PlainName) (commit : LiveCommit) (n : Nat) (t : List UInt8) :
    level 123 125 n (commitGSL repoName commit ++ t) =
      level 123 125 (n + commit.author.opened + 2) (bytes "\x7d\x7d\x7d" ++ t) := by
  have htask : level (123 : UInt8) 125 0 (bytes "\x7btask") = some 1 := by decide
  have hrepo : level (123 : UInt8) 125 0 (bytes "\x7brepo ") = some 1 := by decide
  simp only [commitGSL, List.append_assoc]
  rw [level_opening htask, level_author, level_opening hrepo, repoName.closed.level_append,
    (closed_classStatesGSL commit).level_append]
  congr 1
  omega

/-- The text of a clause between its braces. -/
def clauseText (repoName : PlainName) (commit : LiveCommit) : List UInt8 :=
  bytes "commit " ++ decimalBytes commit.numid ++ bytes "\x7b_ts " ++ decimalBytes commit.timestamp ++
    bytes "\x7d\x7b_size " ++ decimalBytes (commitGSL repoName commit).length ++ bytes "\x7d" ++
    commitGSL repoName commit

theorem commitClause_eq (repoName : PlainName) (commit : LiveCommit) :
    commitClause repoName commit = 123 :: clauseText repoName commit ++ [125] := by
  have htag : bytes "\x7bcommit " = 123 :: bytes "commit " := by decide
  have hend : bytes "\x7d" = [125] := by decide
  simp only [commitClause, commitHeader, clauseText, htag, hend, List.cons_append, List.append_assoc]

theorem level_clauseText (repoName : PlainName) (commit : LiveCommit) (n : Nat) (t : List UInt8) :
    level 123 125 n (clauseText repoName commit ++ t) =
      level 123 125 (n + commit.author.opened + 2) (bytes "\x7d\x7d\x7d" ++ t) := by
  have htag : Closed (bytes "commit ") := by decide
  have hts : level (123 : UInt8) 125 0 (bytes "\x7b_ts ") = some 1 := by decide
  have hnumid := closed_decimalBytes commit.numid
  have htime := closed_decimalBytes commit.timestamp
  have hsize := closed_decimalBytes (commitGSL repoName commit).length
  have hbetween : ∀ t, level (123 : UInt8) 125 (n + 1) (bytes "\x7d\x7b_size " ++ t) = level 123 125 (n + 1) t := by
    intro t
    have hlit : level (123 : UInt8) 125 1 (bytes "\x7d\x7b_size ") = some 1 := by decide
    rw [level_append, Nat.add_comm, level_add hlit]
    rfl
  have hend : ∀ t, level (123 : UInt8) 125 (n + 1) (bytes "\x7d" ++ t) = level 123 125 n t := by
    intro t
    have hlit : level (123 : UInt8) 125 1 (bytes "\x7d") = some 0 := by decide
    rw [level_append, Nat.add_comm, level_add hlit, Nat.zero_add]
    rfl
  simp only [clauseText, List.append_assoc]
  rw [htag.level_append, hnumid.level_append, level_opening hts, htime.level_append, hbetween, hsize.level_append,
    hend, level_commitGSL]

/-- **The text of a clause balances** if its author is authenticated. -/
theorem closed_clauseText {repoName : PlainName} {commit : LiveCommit} (h : commit.author.IsAuthenticated) :
    Closed (clauseText repoName commit) := by
  have hlevel := level_clauseText repoName commit 0 []
  rw [List.append_nil, List.append_nil] at hlevel
  rw [Closed, Matched, hlevel]
  cases hauthor : commit.author with
  | authenticated name =>
      have hclose : level (123 : UInt8) 125 3 (bytes "\x7d\x7d\x7d") = some 0 := by decide
      exact hclose
  | other =>
      rw [hauthor] at h
      exact h.elim

/-- **A clause is a single term** if its author is authenticated. -/
theorem single_commitClause {repoName : PlainName} {commit : LiveCommit} (h : commit.author.IsAuthenticated) :
    Single 123 125 (commitClause repoName commit) := by
  rw [commitClause_eq]
  exact single_wrap (by decide) (closed_clauseText h)

/-- A clause of another author closes a brace too many. -/
theorem level_commitClause_other {repoName : PlainName} {commit : LiveCommit} (h : ¬commit.author.IsAuthenticated) :
    level 123 125 0 (commitClause repoName commit) = none := by
  have hauthor : commit.author.opened = 0 := by
    cases hauthor : commit.author with
    | authenticated name => rw [hauthor] at h; exact absurd trivial h
    | other => rfl
  have hopen : level (123 : UInt8) 125 0 [123] = some 1 := by decide
  have hsplit : commitClause repoName commit = [123] ++ (clauseText repoName commit ++ [125]) := commitClause_eq ..
  rw [hsplit, level_opening hopen, level_clauseText, hauthor]
  decide

/-- **The clause of a commit is a single term**, one that balances and of which no beginning does, if and only if its
author is authenticated. -/
theorem single_commitClause_iff (repoName : PlainName) (commit : LiveCommit) :
    Single 123 125 (commitClause repoName commit) ↔ commit.author.IsAuthenticated := by
  refine ⟨fun hsingle => ?_, single_commitClause⟩
  by_contra hother
  cases (level_commitClause_other hother).symm.trans hsingle.matched

/-! ## (5) Whole journals -/

theorem walRecord_eq (repoName : PlainName) (commit : LiveCommit) :
    walRecord repoName commit = commitClause repoName commit ++ [10] := by
  have hline : bytes "\n" = [10] := by decide
  rw [walRecord, hline]

theorem journalFile_eq (repoName : PlainName) (commits : List LiveCommit) :
    journalFile repoName commits =
      bytes "\x7bWAL\n" ++ ((commits.map (commitClause repoName)).map (· ++ [10])).flatten := by
  have hrecords : walRecord repoName = fun commit => commitClause repoName commit ++ [10] :=
    funext (walRecord_eq repoName)
  rw [journalFile, hrecords, List.map_map, ← List.flatMap_def]
  rfl

/-- The clauses of authenticated authors are single terms. -/
theorem single_of_mem {repoName : PlainName} {commits : List LiveCommit}
    (h : ∀ commit ∈ commits, commit.author.IsAuthenticated) :
    ∀ clause ∈ commits.map (commitClause repoName), Single 123 125 clause := by
  intro clause hclause
  obtain ⟨commit, hcommit, rfl⟩ := List.mem_map.mp hclause
  exact single_commitClause (h commit hcommit)

/-- **A journal is read in one way**: one that begins another one has the records that the other one begins with. -/
theorem records_prefix_of_journal {repoName repoName' : PlainName} {commits commits' : List LiveCommit}
    (hauth : ∀ commit ∈ commits, commit.author.IsAuthenticated)
    (hauth' : ∀ commit ∈ commits', commit.author.IsAuthenticated)
    (h : journalFile repoName commits <+: journalFile repoName' commits') :
    commits.map (walRecord repoName) <+: commits'.map (walRecord repoName') := by
  rw [journalFile, journalFile, List.prefix_append_right_inj, List.flatMap_def, List.flatMap_def] at h
  have hrecord : ∀ (name : PlainName) (cs : List LiveCommit), (∀ commit ∈ cs, commit.author.IsAuthenticated) →
      ∀ rec ∈ cs.map (walRecord name), ∃ clause, Single 123 125 clause ∧ rec = clause ++ [10] := by
    intro name cs hcs rec hrec
    obtain ⟨commit, hcommit, rfl⟩ := List.mem_map.mp hrec
    exact ⟨_, single_commitClause (hcs commit hcommit), walRecord_eq name commit⟩
  exact (prefixFree_single 123 125 [10]).prefix_of_flatten (hrecord _ _ hauth) (hrecord _ _ hauth') h

/-- **A torn journal shows**: behind the header one brace is open exactly where the journal ends with a whole record,
or just before the line break of one. -/
theorem level_torn_iff {repoName : PlainName} {commits : List LiveCommit}
    (hauth : ∀ commit ∈ commits, commit.author.IsAuthenticated) {file : List UInt8}
    (hheader : bytes "\x7bWAL\n" <+: file) (hfile : file <+: journalFile repoName commits) :
    level 123 125 0 file = some 1 ↔ ∃ k, file = journalFile repoName (commits.take k) ∨
      file ++ bytes "\n" = journalFile repoName (commits.take k) := by
  obtain ⟨p, rfl⟩ := hheader
  have hopen : level (123 : UInt8) 125 0 (bytes "\x7bWAL\n") = some 1 := by decide
  have hline : bytes "\n" = [10] := by decide
  rw [journalFile_eq, List.prefix_append_right_inj] at hfile
  have hterms := matched_prefix_iff (single_of_mem hauth) (by decide) (by decide) hfile
  have hlevel : level 123 125 0 (bytes "\x7bWAL\n" ++ p) = some 1 ↔ Matched 123 125 p := by
    rw [level_opening hopen, Nat.zero_add]
    constructor
    · intro hp
      have hwhole : ∃ m, level (123 : UInt8) 125 0 ((commits.map (commitClause repoName)).map (· ++ [10])).flatten =
          some m := by
        refine ⟨0, ?_⟩
        rw [List.flatten_eq_flatMap, List.flatMap_map]
        have hsep : Closed [10] := by decide
        exact Matched.flatMap fun x hx => (single_of_mem hauth x hx).matched.append hsep
      obtain ⟨m, hm⟩ := hwhole
      obtain ⟨j, hj⟩ := level_of_prefix hfile hm
      have hadd := level_add hj 1
      rw [Nat.zero_add, hp, Option.some.injEq] at hadd
      rw [Matched, hj]
      congr 1
      omega
    · exact fun hp => hp.level_eq 1
  rw [hlevel, hterms]
  refine exists_congr fun k => ?_
  have htake : (commits.take k).map (commitClause repoName) = (commits.map (commitClause repoName)).take k :=
    List.map_take
  rw [journalFile_eq, htake, hline, List.append_assoc, List.append_right_inj, List.append_right_inj]

/-- A commit of an authenticated user whose request asks for no indent. -/
def commitOfAnn (numid : Nat) (classStates : List ClassState) : LiveCommit where
  author := .authenticated ⟨bytes "ann", by decide +kernel⟩
  format := { indent := 0, locale := bytes "en" }
  numid := numid
  timestamp := 1700000000
  classStates := classStates

/-- A class. -/
def person : ClassDecl where
  name := ⟨bytes "Person", by decide +kernel⟩

/-- The first commit of a journal: it creates a class. -/
def createsPerson : LiveCommit := commitOfAnn 1 [{ entry := some person, phase := .created }]

/-- The variable of a number. -/
def age : InstGsl.AttrVar (Inst 0) where
  attr :=
    { type := .num, name := ⟨bytes "age", by decide +kernel⟩, isASet := false, toInst := false, tr := [],
      isImplied := false, isIndexed := false, conciseLevel := 0, refClassname := ⟨[], by decide +kernel⟩,
      refProcName := ⟨[], by decide +kernel⟩ }
  impliedAttr := none
  isListItem := false
  name := ⟨bytes "age", by decide +kernel⟩
  val := ⟨bytes "34", by decide +kernel⟩
  classEntry := { name := ⟨[], by decide +kernel⟩, tr := [] }
  classInstName := ⟨[], by decide +kernel⟩
  classInstTr := []
  refAttr := none
  text := { seq := none, hasState := false, locale := ⟨[], by decide +kernel⟩, trs := [], pars := [] }

/-- An instance with a value. -/
def bob : InstGsl.ClassInst (Inst 0) where
  name := ⟨bytes "bob", by decide +kernel⟩
  tr := []
  linearPos := 0
  linearLen := 0
  attrs := .cons age .nil .nil .nil
  attrHubs := []

/-- The second commit of the journal: it creates an instance of the class. -/
def createsBob : LiveCommit :=
  commitOfAnn 2 [{ entry := some person, phase := .selected, insts := [some ⟨.created, 0, bob⟩] }]

/-- The system repository. -/
def rootRepo : PlainName := ⟨bytes "/", by decide +kernel⟩

example : commitGSL rootRepo createsBob =
    bytes "\x7btask\x7buser ann\x7brepo /\x7bclass Person\x7b!inst bob\x7bage 34\x7d\x7d\x7d\x7d\x7d\x7d" := by
  decide +kernel

theorem isAuthenticated_pair :
    ∀ commit ∈ [createsPerson, createsBob], commit.author.IsAuthenticated := by
  intro commit hcommit
  rcases List.mem_pair.mp hcommit with rfl | rfl
  · exact trivial
  · exact trivial

theorem records_prefix_of_journal_pair :
    [createsPerson].map (walRecord rootRepo) <+: [createsPerson, createsBob].map (walRecord rootRepo) := by
  refine records_prefix_of_journal (fun commit hcommit => ?_) isAuthenticated_pair
    ⟨walRecord rootRepo createsBob, ?_⟩
  · exact isAuthenticated_pair commit (List.mem_cons.mpr (.inl (List.mem_singleton.mp hcommit)))
  · rw [journalFile, journalFile, List.flatMap_cons, List.flatMap_nil, List.flatMap_cons, List.flatMap_cons,
      List.flatMap_nil, List.append_nil, List.append_nil, List.append_assoc]

theorem level_torn_iff_pair :
    level 123 125 0 (bytes "\x7bWAL\n\x7bcommit 1\x7b_ts 17") = some 1 ↔
      ∃ k, bytes "\x7bWAL\n\x7bcommit 1\x7b_ts 17" =
          journalFile rootRepo ([createsPerson, createsBob].take k) ∨
        bytes "\x7bWAL\n\x7bcommit 1\x7b_ts 17" ++ bytes "\n" =
          journalFile rootRepo ([createsPerson, createsBob].take k) :=
  level_torn_iff isAuthenticated_pair (by decide) (by decide +kernel)

/-! ## (6) The reader -/

/-- `isspace` of the default locale. -/
def isSpace (c : UInt8) : Bool := c.toNat = 32 ∨ (9 ≤ c.toNat ∧ c.toNat ≤ 13)

/-- `isdigit`. -/
def isDigit (c : UInt8) : Bool := 48 ≤ c.toNat ∧ c.toNat ≤ 57

/-- The number that decimal digits denote. -/
def digitsValue (digits : List UInt8) : Nat := digits.foldl (fun n c => 10 * n + (c.toNat - 48)) 0

/-- The sign in front of a number: is it a minus, and what is left. -/
def takeSign : List UInt8 → Bool × List UInt8
  | 45 :: text => (true, text)
  | 43 :: text => (false, text)
  | text => (false, text)

/-- `knd_parse_num`: what `strtol` finds at the beginning of a text. -/
def kndParseNum (val : List UInt8) : Except KndErr Int :=
  let signed := takeSign (val.dropWhile isSpace)
  let digits := signed.2.takeWhile isDigit
  let n : Int := if signed.1 then -(digitsValue digits : Int) else digitsValue digits
  if digits = [] then .error .fail
  else if n < -2 ^ 63 ∨ 2 ^ 63 ≤ n then .error .fail
  else .ok n

/-- A callback that `gsl_parse_task` calls in `parse_commit`. -/
inductive CommitCall
  /-- `set_commit_numid`. -/
  | numid (val : List UInt8)
  /-- `gsl_parse_size_t` for `_ts`. -/
  | ts (val : Nat)
  /-- `gsl_parse_size_t` for `_size`. -/
  | size (val : Nat)
  /-- `save_task_body`: the rest of the file. -/
  | task (text : List UInt8)

/-- `struct kndCommit`, as far as `parse_commit` sets it. -/
structure RestoredCommit where
  /-- `id`. -/
  id : List UInt8 := []
  /-- `numid`. -/
  numid : Nat := 0
  /-- `timestamp`. -/
  timestamp : Nat := 0
  /-- `rec_size`. -/
  recSize : Nat := 0
  /-- `rec`. -/
  body : List UInt8 := []
  deriving DecidableEq

/-- **One callback of `parse_commit`** on the commit and on the local variable `ts`. -/
def CommitCall.run (st : RestoredCommit × Nat) : CommitCall → Except KndErr (RestoredCommit × Nat)
  | .numid val =>
      if val.length ≥ nameSize then .error .fail
      else match kndParseNum val with
        | .error e => .error e
        | .ok numval =>
            let numid := (numval % 2 ^ 64).toNat
            .ok ({ st.1 with numid, id := kndUidCreate numid }, st.2)
  | .ts val => .ok (st.1, val)
  | .size val => .ok ({ st.1 with recSize := val }, st.2)
  | .task text =>
      if st.1.recSize = 0 then .error .fail
      else .ok ({ st.1 with body := bytes "\x7btask" ++ text.take (sizeSub st.1.recSize 5) }, st.2)

/-- `parse_commit`: the commit goes into `commit_idx`. -/
def parseCommit (idx : KndSet RestoredCommit) (calls : List CommitCall) : Except KndErr (KndSet RestoredCommit) :=
  match calls.foldlM CommitCall.run (({} : RestoredCommit), 0) with
  | .error e => .error e
  | .ok (commit, _) =>
      match kndSetAdd idx commit.id commit with
      | (.error e, _) => .error e
      | (.ok (), idx') => .ok idx'

/-- **The parser of GSL**, which is not part of the repository: the callbacks that it calls for each clause of a
journal, none for a journal that it cannot read. -/
abbrev GslParser := List UInt8 → Option (List (List CommitCall))

/-- `restore_commits` for a journal. -/
def restoreCommits (parser : GslParser) (idx : KndSet RestoredCommit) (file : List UInt8) :
    Except KndErr (KndSet RestoredCommit) :=
  match parser file with
  | none => .error .format
  | some clauses => clauses.foldlM parseCommit idx

/-- `snapshot->max_journals`: `KND_MAX_JOURNALS`. -/
def maxJournals : Nat := 64

/-- `restore_journals` for the journals that are there; those behind the last one that it asks for are not read. -/
def restoreJournals (parser : GslParser) (files : List (List UInt8)) : Except KndErr (KndSet RestoredCommit) :=
  (files.take maxJournals).foldlM (restoreCommits parser) {}

theorem digitsValue_decimalBytes (n : Nat) : digitsValue (decimalBytes n) = n := by
  have hfold : ∀ (l : List Char) (m : Nat), (∀ d ∈ l, d.isDigit = true) →
      (l.map fun c => UInt8.ofNat c.toNat).foldl (fun n c => 10 * n + (c.toNat - 48)) m = Nat.ofDigitChars 10 l m := by
    intro l
    induction l with
    | nil => exact fun m _ => Nat.ofDigitChars_nil.symm
    | cons d l ih =>
        intro m hl
        rw [List.map_cons, List.foldl_cons, Nat.ofDigitChars_cons, (toNat_of_isDigit (hl d List.mem_cons_self)).1]
        exact ih _ fun e he => hl e (List.mem_cons_of_mem d he)
  rw [digitsValue, decimalBytes, hfold _ _ fun d hd => Nat.isDigit_of_mem_toDigits (by decide) (by decide) hd]
  exact Nat.ofDigitChars_ten_toDigits

/-- **A number is read back.** -/
theorem kndParseNum_decimalBytes {n : Nat} (h : n < 2 ^ 63) : kndParseNum (decimalBytes n) = .ok n := by
  have hdigit : ∀ c ∈ decimalBytes n, isDigit c = true ∧ isSpace c = false ∧ c ≠ 45 ∧ c ≠ 43 := by
    intro c hc
    have hrange := mem_decimalBytes hc
    refine ⟨decide_eq_true hrange, decide_eq_false (by omega), ?_, ?_⟩ <;>
      · rintro rfl
        exact absurd hrange.1 (by decide)
  have htake : (decimalBytes n).takeWhile isDigit = decimalBytes n :=
    List.takeWhile_eq_self_iff.mpr fun c hc => (hdigit c hc).1
  have hvalue := digitsValue_decimalBytes n
  cases hb : decimalBytes n with
  | nil => exact absurd (List.map_eq_nil_iff.mp hb) Nat.toDigits_ne_nil
  | cons c cs =>
      rw [hb] at hdigit htake hvalue
      obtain ⟨-, hspace, hminus, hplus⟩ := hdigit c List.mem_cons_self
      have hdrop : (c :: cs).dropWhile isSpace = c :: cs := by
        rw [List.dropWhile_cons, hspace]
        rfl
      have hsign : takeSign (c :: cs) = (false, c :: cs) := by
        rw [takeSign]
        · rintro text ⟨⟩
          exact hminus rfl
        · rintro text ⟨⟩
          exact hplus rfl
      have hlow : ¬((n : Int) < -2 ^ 63 ∨ 2 ^ 63 ≤ (n : Int)) := by omega
      simp only [kndParseNum, hdrop, hsign, htake, hvalue, Bool.false_eq_true, if_false, if_neg (List.cons_ne_nil c cs),
        if_neg hlow]

/-! ## (7) Restored commits -/

/-- The callbacks for the records of a journal; the body of a record is followed by the rest of the file. -/
def recordCalls (repoName : PlainName) : List LiveCommit → List (List CommitCall)
  | [] => []
  | commit :: commits =>
      [.numid (decimalBytes commit.numid), .ts commit.timestamp, .size (commitGSL repoName commit).length,
        .task ((commitGSL repoName commit).drop 5 ++ bytes "\x7d\n" ++ commits.flatMap (walRecord repoName))] ::
      recordCalls repoName commits

/-- **What is documented of the parser**: it reads a journal whose clauses are single terms. -/
def ReadsTerms (parser : GslParser) (repoName : PlainName) (journals : List (List LiveCommit)) : Prop :=
  ∀ commits ∈ journals, (∀ clause ∈ commits.map (commitClause repoName), Single 123 125 clause) →
    parser (journalFile repoName commits) = some (recordCalls repoName commits)

/-- **The commit that is made of a record.** -/
def LiveCommit.restored (repoName : PlainName) (commit : LiveCommit) : RestoredCommit where
  id := kndUidCreate commit.numid
  numid := commit.numid
  recSize := (commitGSL repoName commit).length
  body := commitGSL repoName commit

/-- The numbers of a record are in range. -/
structure LiveCommit.InRange (repoName : PlainName) (commit : LiveCommit) : Prop where
  /-- The eight characters of `id` hold the number. -/
  numid : commit.numid < 62 ^ 8
  /-- The size of the body is a `size_t`. -/
  size : (commitGSL repoName commit).length < 2 ^ 64

/-- **The files of some journals**, each written record by record into buffers and a disk of any sizes. -/
def Written (repoName : PlainName) (journals : List (List LiveCommit)) (files : List (List UInt8)) : Prop :=
  List.Forall₂ (fun commits file => ∃ disk out fileOut, writeJournal disk repoName out fileOut commits = .ok file)
    journals files

theorem Written.files_eq {repoName : PlainName} {journals : List (List LiveCommit)} {files : List (List UInt8)}
    (h : Written repoName journals files) : files = journals.map (journalFile repoName) := by
  induction h with
  | nil => rfl
  | cons hfile _ ih =>
      obtain ⟨disk, out, fileOut, hfile⟩ := hfile
      rw [List.map_cons, writeJournal_ok hfile, ih]

/-- **All commits of the files come back**, each under its number, and no other ones. -/
def Restores (parser : GslParser) (repoName : PlainName) (journals : List (List LiveCommit))
    (files : List (List UInt8)) : Prop :=
  ∃ idx, restoreJournals parser files = .ok idx ∧
    idx.elems.Perm (journals.flatten.map (LiveCommit.restored repoName)) ∧
    ∀ commit ∈ journals.flatten, kndSetGet idx (kndUidCreate commit.numid) = .ok (commit.restored repoName)

section Restored

variable {repoName : PlainName} {commit : LiveCommit} {idx : KndSet RestoredCommit} {done : List RestoredCommit}

/-- The body that `save_task_body` puts together is the one that was written. -/
theorem task_body_eq (hsize : (commitGSL repoName commit).length < 2 ^ 64) (rest : List UInt8) :
    bytes "\x7btask" ++ ((commitGSL repoName commit).drop 5 ++ rest).take
      (sizeSub (commitGSL repoName commit).length 5) = commitGSL repoName commit := by
  obtain ⟨body, hbody⟩ : ∃ body, commitGSL repoName commit = bytes "\x7btask" ++ body := by
    simp only [commitGSL, List.append_assoc]
    exact ⟨_, rfl⟩
  have hlen : (bytes "\x7btask").length = 5 := by decide
  have hsub : sizeSub (commitGSL repoName commit).length 5 = body.length := by
    rw [hbody, List.length_append, hlen] at hsize ⊢
    rw [sizeSub]
    omega
  have hdrop : (commitGSL repoName commit).drop 5 = body := by rw [hbody, ← hlen, List.drop_left]
  rw [hsub, hdrop, List.take_left, hbody]

/-- The callbacks for a record make its commit. -/
theorem run_recordCalls (h : commit.InRange repoName) (rest : List UInt8) :
    [CommitCall.numid (decimalBytes commit.numid), .ts commit.timestamp, .size (commitGSL repoName commit).length,
      .task ((commitGSL repoName commit).drop 5 ++ rest)].foldlM CommitCall.run (({} : RestoredCommit), 0) =
    .ok (commit.restored repoName, commit.timestamp) := by
  have hlong : (decimalBytes commit.numid).length < nameSize := by
    have hlen : (Nat.toDigits 10 commit.numid).length ≤ 19 :=
      (Nat.length_toDigits_le_iff (by decide) (by decide)).mpr (h.numid.trans (by decide))
    rw [decimalBytes, List.length_map, nameSize]
    omega
  have hlt := h.numid
  have hmod : ((commit.numid : Int) % 2 ^ 64).toNat = commit.numid := by omega
  have hpos : (commitGSL repoName commit).length ≠ 0 := by
    have hlen : (bytes "\x7btask").length = 5 := by decide
    simp only [commitGSL, List.length_append, hlen]
    omega
  have hnumid : CommitCall.run ({}, 0) (.numid (decimalBytes commit.numid)) =
      .ok ({ numid := commit.numid, id := kndUidCreate commit.numid }, 0) := by
    rw [CommitCall.run, if_neg (Nat.not_le.mpr hlong), kndParseNum_decimalBytes (by omega)]
    simp only [hmod]
  rw [List.foldlM_cons, hnumid]
  simp only [List.foldlM_cons, List.foldlM_nil, CommitCall.run, bind, Except.bind, pure, Except.pure, if_neg hpos,
    task_body_eq h.size]
  rfl

/-- **A record with a new number** adds its commit to the set. -/
theorem parseCommit_free (h : commit.InRange repoName) (hholds : idx.Holds RestoredCommit.numid (· ∈ done))
    (hfree : commit.numid ∉ done.map RestoredCommit.numid) (rest : List UInt8) :
    ∃ idx', parseCommit idx [.numid (decimalBytes commit.numid), .ts commit.timestamp,
        .size (commitGSL repoName commit).length, .task ((commitGSL repoName commit).drop 5 ++ rest)] = .ok idx' ∧
      idx'.Holds RestoredCommit.numid (· ∈ commit.restored repoName :: done) := by
  have hne : ∀ b, b ∈ done → b.numid ≠ (commit.restored repoName).numid := by
    intro b hb heq
    exact hfree (List.mem_map.mpr ⟨b, hb, heq⟩)
  obtain ⟨idx', hadd, hholds', -⟩ := hholds.kndSetAdd_free (a := commit.restored repoName) hne
  refine ⟨idx', ?_, hholds'.congr fun b => List.mem_cons.symm⟩
  rw [parseCommit, run_recordCalls h]
  have hid : (commit.restored repoName).id = kndUidCreate (commit.restored repoName).numid := rfl
  simp only [hid, hadd]

/-- A record with a number that is taken ends the restore. -/
theorem parseCommit_taken (h : commit.InRange repoName) (hholds : idx.Holds RestoredCommit.numid (· ∈ done))
    (htaken : commit.numid ∈ done.map RestoredCommit.numid) (rest : List UInt8) :
    ∃ e, parseCommit idx [.numid (decimalBytes commit.numid), .ts commit.timestamp,
      .size (commitGSL repoName commit).length, .task ((commitGSL repoName commit).drop 5 ++ rest)] = .error e := by
  obtain ⟨b, hb, hnum⟩ := List.mem_map.mp htaken
  obtain ⟨e, idx', hadd⟩ := hholds.kndSetAdd_taken (a := commit.restored repoName) hb hnum
  refine ⟨e, ?_⟩
  rw [parseCommit, run_recordCalls h]
  have hid : (commit.restored repoName).id = kndUidCreate (commit.restored repoName).numid := rfl
  simp only [hid, hadd]

/-- The numbers of commits, and of those that are restored already. -/
def numids (commits : List LiveCommit) (done : List RestoredCommit) : List Nat :=
  commits.map LiveCommit.numid ++ done.map RestoredCommit.numid

/-- The commits of some records in front of those that are restored already, the last one first. -/
def restoredAll (repoName : PlainName) (commits : List LiveCommit) (done : List RestoredCommit) :
    List RestoredCommit :=
  (commits.map (LiveCommit.restored repoName)).reverse ++ done

theorem restoredAll_cons (commits : List LiveCommit) (done : List RestoredCommit) :
    restoredAll repoName (commit :: commits) done =
      restoredAll repoName commits (commit.restored repoName :: done) := by
  simp [restoredAll]

theorem restoredAll_append (commits commits' : List LiveCommit) (done : List RestoredCommit) :
    restoredAll repoName (commits ++ commits') done =
      restoredAll repoName commits' (restoredAll repoName commits done) := by
  simp [restoredAll]

theorem map_numid_restoredAll (commits : List LiveCommit) (done : List RestoredCommit) :
    (restoredAll repoName commits done).map RestoredCommit.numid =
      (commits.map LiveCommit.numid).reverse ++ done.map RestoredCommit.numid := by
  rw [restoredAll, List.map_append, List.map_reverse, List.map_map]
  rfl

/-- **The records of a journal** are added one after the other, up to one whose number is taken. -/
theorem foldlM_parseCommit {commits : List LiveCommit} (hrange : ∀ commit ∈ commits, commit.InRange repoName)
    (hholds : idx.Holds RestoredCommit.numid (· ∈ done)) (hdone : (done.map RestoredCommit.numid).Nodup) :
    ((numids commits done).Nodup ∧ ∃ idx', (recordCalls repoName commits).foldlM parseCommit idx = .ok idx' ∧
      idx'.Holds RestoredCommit.numid (· ∈ restoredAll repoName commits done)) ∨
    (¬(numids commits done).Nodup ∧ ∃ e, (recordCalls repoName commits).foldlM parseCommit idx = .error e) := by
  induction commits generalizing idx done with
  | nil => exact .inl ⟨hdone, idx, rfl, hholds⟩
  | cons commit commits ih =>
      have hcommit := hrange commit List.mem_cons_self
      rw [recordCalls, List.foldlM_cons, List.append_assoc]
      by_cases htaken : commit.numid ∈ done.map RestoredCommit.numid
      · obtain ⟨e, he⟩ :=
          parseCommit_taken hcommit hholds htaken (bytes "\x7d\n" ++ commits.flatMap (walRecord repoName))
        refine .inr ⟨fun hnodup => ?_, e, by rw [he]; rfl⟩
        rw [numids, List.map_cons, List.cons_append, List.nodup_cons] at hnodup
        exact hnodup.1 (List.mem_append_right _ htaken)
      · obtain ⟨idx', hok, hholds'⟩ :=
          parseCommit_free hcommit hholds htaken (bytes "\x7d\n" ++ commits.flatMap (walRecord repoName))
        have hmove : (numids (commit :: commits) done).Perm (numids commits (commit.restored repoName :: done)) :=
          List.perm_middle.symm
        have hdone' : ((commit.restored repoName :: done).map RestoredCommit.numid).Nodup :=
          List.nodup_cons.mpr ⟨htaken, hdone⟩
        rw [hok, hmove.nodup_iff, restoredAll_cons]
        exact ih (fun c hc => hrange c (List.mem_cons_of_mem commit hc)) hholds' hdone'

/-- **The journals** are added one after the other. -/
theorem foldlM_restoreCommits {parser : GslParser} {journals : List (List LiveCommit)}
    (hparser : ReadsTerms parser repoName journals)
    (hauth : ∀ commit ∈ journals.flatten, commit.author.IsAuthenticated)
    (hrange : ∀ commit ∈ journals.flatten, commit.InRange repoName)
    (hholds : idx.Holds RestoredCommit.numid (· ∈ done)) (hdone : (done.map RestoredCommit.numid).Nodup) :
    ((numids journals.flatten done).Nodup ∧
      ∃ idx', (journals.map (journalFile repoName)).foldlM (restoreCommits parser) idx = .ok idx' ∧
        idx'.Holds RestoredCommit.numid (· ∈ restoredAll repoName journals.flatten done)) ∨
    (¬(numids journals.flatten done).Nodup ∧
      ∃ e, (journals.map (journalFile repoName)).foldlM (restoreCommits parser) idx = .error e) := by
  induction journals generalizing idx done with
  | nil => exact .inl ⟨hdone, idx, rfl, hholds⟩
  | cons commits journals ih =>
      rw [List.flatten_cons] at hauth hrange ⊢
      have hread : restoreCommits parser idx (journalFile repoName commits) =
          (recordCalls repoName commits).foldlM parseCommit idx := by
        rw [restoreCommits, hparser commits List.mem_cons_self
          (single_of_mem fun c hc => hauth c (List.mem_append_left _ hc))]
      rw [List.map_cons, List.foldlM_cons, hread, restoredAll_append]
      have hmove : (numids (commits ++ journals.flatten) done).Perm
          (numids journals.flatten (restoredAll repoName commits done)) := by
        rw [numids, numids, map_numid_restoredAll, List.map_append, List.append_assoc]
        refine (List.perm_append_comm_assoc _ _ _).trans (List.Perm.append_left _ ?_)
        exact List.Perm.append_right _ (List.reverse_perm _).symm
      rw [hmove.nodup_iff]
      rcases foldlM_parseCommit (fun c hc => hrange c (List.mem_append_left _ hc)) hholds hdone with
        ⟨hnodup, idx', hok, hholds'⟩ | ⟨hdup, e, he⟩
      · have hdone' : ((restoredAll repoName commits done).map RestoredCommit.numid).Nodup := by
          rw [map_numid_restoredAll]
          exact ((List.reverse_perm _).append_right _).nodup_iff.mpr hnodup
        rw [hok]
        exact ih (fun cs hcs => hparser cs (List.mem_cons_of_mem commits hcs))
          (fun c hc => hauth c (List.mem_append_right _ hc)) (fun c hc => hrange c (List.mem_append_right _ hc))
          hholds' hdone'
      · refine .inr ⟨fun hnodup => hdup ?_, e, by rw [he]; rfl⟩
        rw [numids, map_numid_restoredAll] at hnodup
        exact ((List.reverse_perm _).append_right _).nodup_iff.mp (List.Nodup.of_append_right hnodup)

end Restored

/-- Nothing is restored yet. -/
theorem holds_none : ({} : KndSet RestoredCommit).Holds RestoredCommit.numid (· ∈ ([] : List RestoredCommit)) :=
  (KndSet.holds_new _).congr fun b => (List.mem_nil_iff b).symm

/-- The commits of a set, in the order of their records. -/
theorem elems_perm_restored {repoName : PlainName} {commits : List LiveCommit} {idx : KndSet RestoredCommit}
    (hholds : idx.Holds RestoredCommit.numid (· ∈ (commits.map (LiveCommit.restored repoName)).reverse))
    (hnodup : (commits.map LiveCommit.numid).Nodup) :
    idx.elems.Perm (commits.map (LiveCommit.restored repoName)) := by
  have hmap : ((commits.map (LiveCommit.restored repoName)).map RestoredCommit.numid).Nodup := by
    rw [List.map_map]
    exact hnodup
  refine (List.perm_ext_iff_of_nodup hholds.nodup_elems hmap.of_map).mpr fun b => ?_
  rw [hholds.mem_elems, List.mem_reverse]

/-- **The journals of authenticated authors come back** with the exact bodies of their records, if and only if no two
records have one number and no record is behind the last journal that is read. -/
theorem restores_iff {parser : GslParser} {repoName : PlainName} {journals : List (List LiveCommit)}
    {files : List (List UInt8)} (hwritten : Written repoName journals files)
    (hparser : ReadsTerms parser repoName journals)
    (hauth : ∀ commit ∈ journals.flatten, commit.author.IsAuthenticated)
    (hrange : ∀ commit ∈ journals.flatten, commit.InRange repoName) :
    Restores parser repoName journals files ↔
      (journals.flatten.map LiveCommit.numid).Nodup ∧ (journals.drop maxJournals).flatten = [] := by
  obtain rfl := hwritten.files_eq
  have hread : ∀ commit ∈ (journals.take maxJournals).flatten, commit ∈ journals.flatten := by
    intro commit hcommit
    obtain ⟨commits, hcommits, hmem⟩ := List.mem_flatten.mp hcommit
    exact List.mem_flatten.mpr ⟨commits, List.mem_of_mem_take hcommits, hmem⟩
  have hsplit : journals.flatten = (journals.take maxJournals).flatten ++ (journals.drop maxJournals).flatten := by
    rw [← List.flatten_append, List.take_append_drop]
  have hloop := foldlM_restoreCommits (fun commits hcommits => hparser commits (List.mem_of_mem_take hcommits))
    (fun commit hcommit => hauth commit (hread commit hcommit))
    (fun commit hcommit => hrange commit (hread commit hcommit)) holds_none List.nodup_nil
  have hnumids : numids (journals.take maxJournals).flatten [] =
      (journals.take maxJournals).flatten.map LiveCommit.numid := List.append_nil _
  have hall : restoredAll repoName (journals.take maxJournals).flatten [] =
      ((journals.take maxJournals).flatten.map (LiveCommit.restored repoName)).reverse := List.append_nil _
  rw [hnumids, hall, List.map_take] at hloop
  constructor
  · rintro ⟨idx, hok, hperm, -⟩
    rcases hloop with ⟨hnodup, idx', hok', hholds⟩ | ⟨-, e, he⟩
    · -- the set has as many elements as there are records
      cases hok.symm.trans hok'
      have hlength := ((elems_perm_restored hholds hnodup).symm.trans hperm).length_eq
      rw [hsplit, List.length_map, List.length_map, List.length_append] at hlength
      have hrest : (journals.drop maxJournals).flatten = [] := List.length_eq_zero_iff.mp (by omega)
      rw [hsplit, hrest, List.append_nil]
      exact ⟨hnodup, rfl⟩
    · cases hok.symm.trans he
  · rintro ⟨hnodup, hrest⟩
    rw [hsplit, hrest, List.append_nil] at hnodup
    rcases hloop with ⟨-, idx, hok, hholds⟩ | ⟨hdup, -⟩
    · refine ⟨idx, hok, ?_, fun commit hcommit => ?_⟩
      · rw [hsplit, hrest, List.append_nil]
        exact elems_perm_restored hholds hnodup
      · rw [hsplit, hrest, List.append_nil] at hcommit
        exact hholds.kndSetGet_eq_ok (a := commit.restored repoName)
          (List.mem_reverse.mpr (List.mem_map_of_mem hcommit))
    · exact absurd hnodup hdup

/-- A parser that reads one journal. -/
def readsPair : GslParser := fun file =>
  if file = journalFile rootRepo [createsPerson, createsBob] then
    some (recordCalls rootRepo [createsPerson, createsBob])
  else none

theorem readsTerms_pair : ReadsTerms readsPair rootRepo [[createsPerson, createsBob]] := by
  intro commits hcommits _
  rw [List.mem_singleton.mp hcommits]
  exact if_pos rfl

theorem inRange_pair : ∀ commit ∈ [createsPerson, createsBob], commit.InRange rootRepo := by
  intro commit hcommit
  rcases List.mem_pair.mp hcommit with rfl | rfl
  · exact ⟨by decide, by decide +kernel⟩
  · exact ⟨by decide, by decide +kernel⟩

/-- The file of the two commits. -/
def pairJournal : List UInt8 := journalFile rootRepo [createsPerson, createsBob]

theorem written_pair : Written rootRepo [[createsPerson, createsBob]] [pairJournal] :=
  .cons ⟨4096, ⟨[], 1024⟩, ⟨[], 1024⟩, by decide +kernel⟩ .nil

theorem restores_iff_pair :
    Restores readsPair rootRepo [[createsPerson, createsBob]] [pairJournal] ↔
      ([[createsPerson, createsBob]].flatten.map LiveCommit.numid).Nodup ∧
        ([[createsPerson, createsBob]].drop maxJournals).flatten = [] :=
  restores_iff written_pair readsTerms_pair isAuthenticated_pair inRange_pair

end Knowdy.WalRecords
