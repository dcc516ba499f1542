import Knowdy.AttrVarReload
import Knowdy.EntryNames

/-! # Class instances in a snapshot

`knd_class_inst_marshall` writes an instance to the file of its class. When the repository is opened again
`knd_class_inst_entry_unmarshall` takes the name from the record, and `knd_class_inst_read` the variables.

* `ClassInst`, `InstEnv` — the data.
* `classInstExport`, `classInstRead` — the code.
* `ClassInst.Clean` — an instance without anything that one of the two sides misses.
* `inst_back` — an instance comes back, with its nested variables in reverse, exactly if it is clean.
* `related_classInstExport` — what two exporters write, when the second one gets other strings. -/

namespace Knowdy.ClassInstGsp

open Records StringCodes AttrVarRecords
open GlossExports (bytes)
open TextGsp (Text TextEnv Trn)

variable {κ σ : Type}

/-! ## (1) Writing and reading -/

/-- **`struct kndClassInst`.** -/
structure ClassInst (κ σ : Type) where
  /-- The name that it is found by. -/
  name : Name
  /-- A second name, which is only shown. -/
  aliasName : Name := []
  /-- Its glosses. -/
  tr : List Trn := []
  /-- Where it stands in the sentence that declares it. -/
  linearPos : Nat := 0
  /-- How many words of that sentence it takes. -/
  linearLen : Nat := 0
  /-- The values of its attributes. -/
  attrs : List (Node κ σ) := []

/-- What instances of a class are read with. -/
structure InstEnv (κ σ : Type) extends Env κ σ where
  /-- The class. -/
  blueprint : Cls

/-- A value behind a tag. -/
def tagged (tag : List UInt8) (value : Option (List UInt8)) : List Field :=
  match value with
  | none => []
  | some value => [.clause tag (.mk value [])]

/-- What `knd_class_inst_export_GSP` writes before the variables. -/
def headExport (useAlias : Bool) (inst : ClassInst κ σ) : List Field :=
  tagged (bytes "_as") (if useAlias ∧ inst.aliasName ≠ [] then some inst.aliasName else none) ++
    tagged (bytes "_pos") (if inst.linearPos = 0 then none else some (decimalBytes inst.linearPos)) ++
    tagged (bytes "_len") (if inst.linearLen = 0 then none else some (decimalBytes inst.linearLen))

/-- **`knd_class_inst_export_GSP`.** -/
def classInstExport {m : Type → Type} [Monad m] (c : Coder m) (env : TextEnv κ σ) (useAlias : Bool)
    (inst : ClassInst κ σ) : m Rec := do
  let attrs ← varsExport c env false inst.attrs
  return .mk inst.name (headExport useAlias inst ++ attrs)

/-- The name that `knd_class_inst_entry_unmarshall` gives the entry. -/
def entryName (table : StrRepo) (name : Name) : Checked KndErr Fault Name :=
  match instEntryName table.strIdx name with
  | .ok (name, _) => .ok name
  | .err e => .err e
  | .fault _ => .fault .assertion

/-- **`knd_class_inst_entry_unmarshall`** and later **`knd_class_inst_read`** on the record of an instance. -/
def classInstRead (env : InstEnv κ σ) : Rec → Checked KndErr Fault (ClassInst κ σ)
  | .mk value fields => do
      let name ← entryName env.table value
      -- `check_class_inst_name`
      if value.length ≥ nameSize then .err .limit
      else do
        let attrs ← fields.mapM (readAttrVar env.toEnv env.blueprint)
        return { name, attrs }

/-! ## (2) Clean instances -/

/-- What an instance says. -/
def ClassInst.said (inst : ClassInst κ σ) : ClassInst κ σ := { inst with attrs := saidAll inst.attrs }

/-- The nested variables in reverse. -/
def ClassInst.mirror (inst : ClassInst κ σ) : ClassInst κ σ := { inst with attrs := mirrorAll inst.attrs }

/-- **A name that is kept**: if it is the code of a string, it is the code of itself. -/
def NameKept (table : StrRepo) (name : Name) : Prop :=
  name.length ≤ idSize → ∀ seq, kndCharseqDecode table name = .ok seq → seq.val = name

/-- **An instance comes back.** -/
structure ClassInst.Clean (env : InstEnv κ σ) (saved : StrRepo) (inst : ClassInst κ σ) : Prop where
  name_ne : inst.name ≠ []
  name_lt : inst.name.length < nameSize
  name : NameKept env.table inst.name
  /-- No alias and no glosses are read. -/
  aliasName : inst.aliasName = []
  tr : inst.tr = []
  /-- The reader takes the tags of the two numbers for ids of attributes. -/
  linearPos : inst.linearPos = 0
  linearLen : inst.linearLen = 0
  attrs : ∀ v ∈ inst.attrs, CleanVar env.toEnv saved env.blueprint v

theorem entryName_eq_iff {table : StrRepo} {name : Name} :
    entryName table name = .ok name ↔ name ≠ [] ∧ NameKept table name := by
  unfold entryName instEntryName NameKept
  by_cases hname : name = []
  · subst hname
    simp [Checked.ensure_of_not]
  · rw [Checked.ensure_of hname]
    by_cases hlen : name.length ≤ idSize
    · simp only [Checked.ok_bind, hname, not_false_eq_true, ne_eq, true_and, hlen, forall_const,
        kndCharseqDecode]
      cases kndSharedSetGet table.strIdx name with
      | error e => simp
      | ok seq => simp
    · simp [hlen, hname]

/-- **An instance that was written in a table comes back**, if its texts have no statements, exactly if it is clean. -/
theorem inst_back {env : InstEnv κ Empty} {saved : StrRepo} (hreads : Reads saved env.table) {useAlias : Bool}
    {inst : ClassInst κ Empty} {rec : Rec}
    (h : classInstExport (codeCoder saved) env.toTextEnv useAlias inst = .ok rec) :
    (∃ inst', classInstRead env rec = .ok inst' ∧ inst'.said = inst.said.mirror) ↔ inst.Clean env saved := by
  obtain ⟨fields, hfields, heq⟩ := Checked.bind_eq_ok.mp h
  cases heq
  have hvars := vars_back (c := env.blueprint) hreads hfields
  have hhead : inst.aliasName = [] → inst.linearPos = 0 → inst.linearLen = 0 → headExport useAlias inst = [] := by
    intro halias hpos hlen
    simp [headExport, tagged, halias, hpos, hlen]
  constructor
  · rintro ⟨inst', hread, hsaid⟩
    obtain ⟨name, hname, hrest⟩ := Checked.bind_eq_ok.mp hread
    split_ifs at hrest with hlong
    obtain ⟨attrs, hattrs, hinst⟩ := Checked.bind_eq_ok.mp hrest
    cases hinst
    simp only [ClassInst.said, ClassInst.mirror, ClassInst.mk.injEq] at hsaid
    obtain ⟨rfl, halias, htr, hpos, hlen, hsame⟩ := hsaid
    obtain ⟨hne, hkept⟩ := entryName_eq_iff.mp hname
    rw [hhead halias.symm hpos.symm hlen.symm, List.nil_append] at hattrs
    exact ⟨hne, Nat.lt_of_not_le hlong, hkept, halias.symm, htr.symm, hpos.symm, hlen.symm,
      hvars.mp ⟨attrs, hattrs, hsame⟩⟩
  · intro hclean
    obtain ⟨attrs, hattrs, hsame⟩ := hvars.mpr hclean.attrs
    refine ⟨{ name := inst.name, attrs }, ?_, ?_⟩
    · rw [classInstRead, hhead hclean.aliasName hclean.linearPos hclean.linearLen, List.nil_append,
        entryName_eq_iff.mpr ⟨hclean.name_ne, hclean.name⟩, Checked.ok_bind, if_neg (Nat.not_le.mpr hclean.name_lt),
        hattrs]
      rfl
    · simp only [ClassInst.said, ClassInst.mirror, hsame, hclean.aliasName, hclean.tr, hclean.linearPos,
        hclean.linearLen]

/-! ## (3) Two exporters -/

/-- **Other strings for the values of an instance.** -/
def ClassInst.rename (f : Name → Name) (inst : ClassInst κ σ) : ClassInst κ σ :=
  { inst with attrs := renameAll f inst.attrs }

theorem related_classInstExport {m m' : Type → Type} [Monad m] [Monad m'] {c : Coder m} {c' : Coder m'}
    {f : Name → Name} {R : {α : Type} → m α → m' α → Prop} (h : Related c c' f R) (env : TextEnv κ σ)
    (useAlias : Bool) (inst : ClassInst κ σ) :
    R (classInstExport c env useAlias inst) (classInstExport c' env useAlias (inst.rename f)) :=
  h.bind (related_varsExport h false inst.attrs) fun _ => h.pure _

/-- **While the table grows** an instance is written as in the last table. -/
theorem follows_classInstExport {table : StrRepo} (env : TextEnv κ σ) (useAlias : Bool) (inst : ClassInst κ σ) :
    Follows table (classInstExport tableCoder env useAlias inst) (classInstExport (codeCoder table) env useAlias inst) :=
  (follows table).bind (follows_varsExport false inst.attrs) fun _ => (follows table).pure _

end Knowdy.ClassInstGsp
