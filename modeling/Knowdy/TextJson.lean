import Knowdy.GlossExports
import Knowdy.Lib.Json

/-! # Texts in JSON

`knd_text_export_JSON` writes a text with its paragraphs, sentences, statements and clauses. What it writes is given by
lexemes: what stands between two quotes of its own is a string.

* `SyNode`, `Sentence`, `Text` — the data; the instances that a statement declares are a parameter.
* `synodeExport`, `stmExport`, `sentExport`, `textExport` — the code.
* `cleanText`, … — whether a text has none of what the code gets wrong.
* `run_textExport` — the recogniser passes over what is written for a text if it is clean, and fails otherwise.
* `spaced_textExport` — a clean text is written without white space. -/

namespace Knowdy.TextJson

open Json
open GlossExports (bytes KndText glossOf)
open OutputBuffer (escape)

/-! ## (1) Words and formats -/

/-- The names and values that the code itself writes. -/
inductive Word
  | name | cls | inst | attr | rels | total | topics | state | phase | del | upd | new | txt | lang | pars | sents | stm
  | clause | classes | procs | topic | spec | gloss | abbr | pos | len | val

/-- As it is written. -/
def Word.text : Word → List UInt8
  | name => bytes "name"
  | cls => bytes "class"
  | inst => bytes "inst"
  | attr => bytes "attr"
  | rels => bytes "rels"
  | total => bytes "total"
  | topics => bytes "topics"
  | state => bytes "_state"
  | phase => bytes "_phase"
  | del => bytes "del"
  | upd => bytes "upd"
  | new => bytes "new"
  | txt => bytes "txt"
  | lang => bytes "lang"
  | pars => bytes "pars"
  | sents => bytes "sents"
  | stm => bytes "stm"
  | clause => bytes "clause"
  | classes => bytes "classes"
  | procs => bytes "procs"
  | topic => bytes "topic"
  | spec => bytes "spec"
  | gloss => bytes "gloss"
  | abbr => bytes "abbr"
  | pos => bytes "pos"
  | len => bytes "len"
  | val => bytes "val"

@[simp] theorem escaped_word (w : Word) : escaped w.text = true := by
  cases w <;> decide

/-- The name of a member, with its colon. -/
def key (w : Word) : List Lexeme := [.str w.text, .colon]

/-- The fields of `struct kndTaskContext` that exporters read. -/
structure Format where
  /-- `format_indent`. -/
  indent : Nat
  /-- `locale`. -/
  locale : List UInt8

/-! ## (2) Syntax nodes -/

mutual

/-- **`struct kndSyNode`**, or the null pointer. -/
inductive SyNode
  | null
  /-- `name`, `class->tr`, `is_terminal`, `linear_pos`, `linear_len`, `topic` and `spec`. -/
  | mk (name : List UInt8) (tr : List KndText) (isTerminal : Bool) (linearPos linearLen : Nat) (topic : SyNode)
      (spec : SyNodeSpec)

/-- **`struct kndSyNodeSpec`**, or the null pointer. -/
inductive SyNodeSpec
  | null
  /-- `name`, `class->tr` and `synode`. -/
  | mk (name : List UInt8) (tr : List KndText) (synode : SyNode)

end

/-- Is it the null pointer? -/
def SyNode.isNull : SyNode → Bool
  | .null => true
  | .mk .. => false

variable (fmt : Format)

/-- **`export_gloss`.** -/
def exportGloss (glosses : List KndText) : List Lexeme :=
  match glossOf fmt.locale glosses with
  | none => []
  | some tr =>
      .comma :: key .gloss ++ [.str (escape false tr.seq)] ++
        match tr.abbr with
        | none => []
        | some abbr => .comma :: key .abbr ++ [.str (escape false abbr)]

mutual

/-- **`synode_export_JSON`.** -/
def synodeExport : SyNode → List Lexeme
  | .null => []
  | .mk name tr isTerminal linearPos linearLen topic spec =>
      .beginObject :: key .name ++ [.str name] ++ exportGloss fmt tr ++
        if isTerminal then .comma :: key .pos ++ .nat linearPos :: .comma :: key .len ++ [.nat linearLen, .endObject]
        else
          (if topic.isNull then [] else .comma :: key .topic ++ synodeExport topic) ++
          specExport spec ++ [.endObject]

/-- The part of it for `spec`. -/
def specExport : SyNodeSpec → List Lexeme
  | .null => []
  | .mk name tr synode =>
      .comma :: key .spec ++ .beginObject :: key .name ++ [.str name] ++ exportGloss fmt tr ++
        (if synode.isNull then [] else .comma :: key .topic ++ synodeExport synode) ++
        [.endObject]

end

/-! ## (3) Texts -/

/-- **`struct kndClassDeclaration`.** -/
structure ClassDeclaration (ι : Type) where
  /-- `entry->name`. -/
  entry : List UInt8
  /-- `insts`. -/
  insts : List ι

/-- **`struct kndProcDeclaration`.** -/
structure ProcDeclaration where
  /-- `entry->name`. -/
  entry : List UInt8
  /-- What `knd_proc_inst_export_JSON` writes for `insts`. -/
  insts : List Lexeme

/-- **`struct kndStatement`.** -/
structure Statement (ι : Type) where
  /-- `schema_name`. -/
  schemaName : List UInt8
  /-- `class_declars`. -/
  classDeclars : List (ClassDeclaration ι)
  /-- `proc_declars`. -/
  procDeclars : List ProcDeclaration

/-- **`struct kndSentence`.** -/
structure Sentence (ι : Type) where
  /-- `seq`. -/
  seq : List UInt8
  /-- `stm`. -/
  stm : Option (Statement ι)
  /-- `clause->subj`, if there is a clause. -/
  clause : SyNode

/-- **`struct kndText`.** -/
structure Text (ι : Type) where
  /-- `seq`. -/
  seq : List UInt8
  /-- `locale`. -/
  locale : List UInt8
  /-- `trs`. -/
  trs : List KndText
  /-- `pars`, each with its `sents`. -/
  pars : List (List (Sentence ι))

variable {ι : Type} (instExport : ι → List Lexeme)

/-- One round of the loop of `export_class_declars`. -/
def classDeclarExport (decl : ClassDeclaration ι) : List Lexeme :=
  .beginObject :: key .name ++ [.str decl.entry] ++ decl.insts.flatMap instExport ++ [.endObject]

/-- **`export_class_declars`**, with the test whether `count` is not zero. -/
def exportClassDeclars (count : Bool) : List (ClassDeclaration ι) → List Lexeme
  | [] => []
  | decl :: next =>
      (if count then [.comma] else []) ++ classDeclarExport instExport decl ++ exportClassDeclars true next

/-- **`export_proc_declars`.** -/
def exportProcDeclars (decls : List ProcDeclaration) : List Lexeme :=
  decls.flatMap fun decl => .beginObject :: .raw (bytes "proc " ++ decl.entry) :: decl.insts ++ [.endObject]

/-- **`stm_export_JSON`.** -/
def stmExport (stm : Statement ι) : List Lexeme :=
  .beginObject :: (if stm.schemaName = [] then [] else [.raw stm.schemaName]) ++
    (if stm.classDeclars.isEmpty then []
      else key .classes ++ .beginArray :: exportClassDeclars instExport false stm.classDeclars ++ [.endArray]) ++
    (if stm.procDeclars.isEmpty then []
      else key .procs ++ .beginArray :: exportProcDeclars stm.procDeclars ++ [.endArray]) ++
    [.endObject]

/-- **`sent_export_JSON`.** -/
def sentExport (sent : Sentence ι) : List Lexeme :=
  .beginObject :: key .txt ++ [.str sent.seq] ++
    (match sent.stm with
      | none => []
      | some stm => .comma :: key .stm ++ stmExport instExport stm) ++
    (if sent.clause.isNull then [] else .comma :: key .clause ++ synodeExport fmt sent.clause) ++
    [.endObject]

/-- One round of the loop over `pars`. -/
def parExport (sents : List (Sentence ι)) : List Lexeme :=
  .beginObject :: key .sents ++ .beginArray :: sents.flatMap (sentExport fmt instExport) ++ [.endArray, .endObject]

/-- The end of `knd_text_export_JSON`, from the paragraphs on. -/
def parsExport (separNeeded : Bool) (pars : List (List (Sentence ι))) : List Lexeme :=
  if pars.isEmpty then [.endObject]
  else (if separNeeded then [.comma] else []) ++ key .pars ++ .beginArray :: pars.flatMap (parExport fmt instExport) ++
    [.endArray, .endObject]

/-- **`knd_text_export_JSON`.** -/
def textExport (text : Text ι) : List Lexeme :=
  .beginObject ::
    match glossOf fmt.locale text.trs with
    -- `export_translation` has written the translation
    | some tr => key .txt ++ [.str (escape false tr.seq)] ++ parsExport fmt instExport false text.pars
    | none =>
        (if text.seq = [] then [] else key .txt ++ [.str (escape false text.seq)]) ++
          (if text.locale = [] then [] else key .lang ++ [.raw text.locale, .quote]) ++
          parsExport fmt instExport (text.seq ≠ []) text.pars

/-! ## (4) What the code gets wrong -/

/-- The gloss of a locale is a string after `write_escaped`, and so is its abbreviation. -/
def cleanGloss (glosses : List KndText) : Bool :=
  match glossOf fmt.locale glosses with
  | none => true
  | some tr =>
      escaped (escape false tr.seq) &&
        match tr.abbr with
        | none => true
        | some abbr => escaped (escape false abbr)

mutual

/-- The names of a node are strings as they are. -/
def cleanSynode : SyNode → Bool
  | .null => true
  | .mk name tr isTerminal _ _ topic spec =>
      escaped name && cleanGloss fmt tr && (isTerminal || (cleanSynode topic && cleanSpec spec))

/-- The names of a specification are. -/
def cleanSpec : SyNodeSpec → Bool
  | .null => true
  | .mk name tr synode => escaped name && cleanGloss fmt tr && cleanSynode synode

end

/-- A statement has no schema, and declares no procs and no instances. -/
def cleanStm (stm : Statement ι) : Bool :=
  stm.schemaName.isEmpty && (stm.classDeclars.all fun decl => escaped decl.entry && decl.insts.isEmpty) &&
    stm.procDeclars.isEmpty

/-- A sentence is a string as it is. -/
def cleanSent (sent : Sentence ι) : Bool :=
  escaped sent.seq && (sent.stm.all cleanStm && cleanSynode fmt sent.clause)

/-- There is one sentence at most. -/
def cleanPar : List (Sentence ι) → Bool
  | [] => true
  | [sent] => cleanSent fmt sent
  | _ => false

/-- There is one paragraph at most. -/
def cleanPars : List (List (Sentence ι)) → Bool
  | [] => true
  | [sents] => cleanPar fmt sents
  | _ => false

/-- **A text without what the code gets wrong**: a translation has no paragraphs beside it, and without a translation
the text has no locale. -/
def cleanText (text : Text ι) : Bool :=
  match glossOf fmt.locale text.trs with
  | some tr => escaped (escape false tr.seq) && text.pars.isEmpty
  | none => escaped (escape false text.seq) && text.locale.isEmpty && cleanPars fmt text.pars

/-! ## (5) The recogniser over a text -/

variable {fmt} {instExport}

theorem run_exportGloss (glosses : List KndText) (stack : List Frame) (rest : List Lexeme) :
    run ⟨.next, .object :: stack⟩ (exportGloss fmt glosses ++ rest) =
      if cleanGloss fmt glosses then run ⟨.next, .object :: stack⟩ rest else none := by
  rw [exportGloss, cleanGloss]
  cases glossOf fmt.locale glosses with
  | none => rfl
  | some tr =>
      cases habbr : tr.abbr with
      | none => simp [key, habbr]
      | some abbr => simp [key, habbr, ite_and]

theorem cleanSynode_of_isNull (fmt : Format) {syn : SyNode} (h : syn.isNull = true) : cleanSynode fmt syn = true := by
  cases syn with
  | null => rfl
  | mk => cases h

mutual

/-- **A node.** -/
theorem run_synodeExport (fmt : Format) (syn : SyNode) (hsyn : syn.isNull = false) (stack : List Frame)
    (rest : List Lexeme) :
    run ⟨.value, stack⟩ (synodeExport fmt syn ++ rest) =
      if cleanSynode fmt syn then run ⟨.next, stack⟩ rest else none := by
  cases syn with
  | null => cases hsyn
  | mk name tr isTerminal linearPos linearLen topic spec =>
      rw [synodeExport, cleanSynode]
      cases isTerminal with
      | true => simp [key, run_exportGloss, ite_and]
      | false =>
          have hspec := run_specExport fmt spec
          cases htopic : topic.isNull with
          | true => simp [key, run_exportGloss, ite_and, hspec, cleanSynode_of_isNull fmt htopic]
          | false =>
              have hrun := run_synodeExport fmt topic htopic
              simp [key, run_exportGloss, ite_and, hspec, hrun]

/-- **A specification.** -/
theorem run_specExport (fmt : Format) (spec : SyNodeSpec) (stack : List Frame) (rest : List Lexeme) :
    run ⟨.next, .object :: stack⟩ (specExport fmt spec ++ rest) =
      if cleanSpec fmt spec then run ⟨.next, .object :: stack⟩ rest else none := by
  cases spec with
  | null => rfl
  | mk name tr synode =>
      rw [specExport, cleanSpec]
      cases hnull : synode.isNull with
      | true => simp [key, run_exportGloss, ite_and, cleanSynode_of_isNull fmt hnull]
      | false =>
          have hrun := run_synodeExport fmt synode hnull
          simp [key, run_exportGloss, ite_and, hrun]

end

/-- **One declaration**: what is written for an instance cannot follow the name. -/
theorem run_classDeclarExport (hinst : ∀ i, ∃ tail, instExport i = .beginObject :: tail) (decl : ClassDeclaration ι)
    (stack : List Frame) (rest : List Lexeme) :
    run ⟨.value, stack⟩ (classDeclarExport instExport decl ++ rest) =
      if escaped decl.entry && decl.insts.isEmpty then run ⟨.next, stack⟩ rest else none := by
  rw [classDeclarExport]
  cases hinsts : decl.insts with
  | nil => simp [key]
  | cons i insts =>
      obtain ⟨tail, htail⟩ := hinst i
      simp [key, htail]

/-- **The declarations behind the first one.** -/
theorem run_exportClassDeclars_true (hinst : ∀ i, ∃ tail, instExport i = .beginObject :: tail)
    (decls : List (ClassDeclaration ι)) (stack : List Frame) (rest : List Lexeme) :
    run ⟨.next, .array :: stack⟩ (exportClassDeclars instExport true decls ++ rest) =
      if decls.all fun decl => escaped decl.entry && decl.insts.isEmpty then run ⟨.next, .array :: stack⟩ rest
      else none := by
  induction decls with
  | nil => rfl
  | cons decl next ih => simp [exportClassDeclars, run_classDeclarExport hinst, ih, ite_and]

/-- **All declarations.** -/
theorem run_exportClassDeclars (hinst : ∀ i, ∃ tail, instExport i = .beginObject :: tail)
    {decls : List (ClassDeclaration ι)} (hdecls : decls.isEmpty = false) (stack : List Frame) (rest : List Lexeme) :
    run ⟨.element, stack⟩ (exportClassDeclars instExport false decls ++ rest) =
      if decls.all fun decl => escaped decl.entry && decl.insts.isEmpty then run ⟨.next, .array :: stack⟩ rest
      else none := by
  cases decls with
  | nil => cases hdecls
  | cons decl next =>
      have hfirst : ∀ l, run ⟨.element, stack⟩ (classDeclarExport instExport decl ++ l) =
          run ⟨.value, .array :: stack⟩ (classDeclarExport instExport decl ++ l) := fun _ => rfl
      simp [exportClassDeclars, hfirst, run_classDeclarExport hinst, run_exportClassDeclars_true hinst, ite_and]

/-- **A statement.** -/
theorem run_stmExport (hinst : ∀ i, ∃ tail, instExport i = .beginObject :: tail) (stm : Statement ι)
    (stack : List Frame) (rest : List Lexeme) :
    run ⟨.value, stack⟩ (stmExport instExport stm ++ rest) =
      if cleanStm stm then run ⟨.next, stack⟩ rest else none := by
  obtain ⟨schemaName, classDeclars, procDeclars⟩ := stm
  rw [stmExport, cleanStm]
  cases schemaName with
  | cons c name => simp
  | nil =>
      cases hclasses : classDeclars.isEmpty with
      | true =>
          obtain rfl := List.isEmpty_iff.mp hclasses
          cases procDeclars with
          | nil => simp
          | cons decl procs => simp [key, exportProcDeclars]
      | false =>
          have hrun := run_exportClassDeclars hinst hclasses
          cases procDeclars with
          | nil => simp [key, hrun]
          | cons decl procs => simp [key, hrun]

/-- **A sentence.** -/
theorem run_sentExport (hinst : ∀ i, ∃ tail, instExport i = .beginObject :: tail) (sent : Sentence ι)
    (stack : List Frame) (rest : List Lexeme) :
    run ⟨.value, stack⟩ (sentExport fmt instExport sent ++ rest) =
      if cleanSent fmt sent then run ⟨.next, stack⟩ rest else none := by
  obtain ⟨seq, stm, clause⟩ := sent
  rw [sentExport, cleanSent]
  have hstm := run_stmExport hinst
  cases hnull : clause.isNull with
  | true =>
      have hclause := cleanSynode_of_isNull fmt hnull
      cases stm with
      | none => simp [key, hclause]
      | some stm => simp [key, hclause, hstm, ite_and]
  | false =>
      have hclause := run_synodeExport fmt clause hnull
      cases stm with
      | none => simp [key, hclause, ite_and]
      | some stm => simp [key, hclause, hstm, ite_and]

/-- **A paragraph**: a second sentence cannot follow the first one. -/
theorem run_parExport (hinst : ∀ i, ∃ tail, instExport i = .beginObject :: tail) (sents : List (Sentence ι))
    (stack : List Frame) (rest : List Lexeme) :
    run ⟨.value, stack⟩ (parExport fmt instExport sents ++ rest) =
      if cleanPar fmt sents then run ⟨.next, stack⟩ rest else none := by
  have helement : ∀ (sent : Sentence ι) stack l, run ⟨.element, stack⟩ (sentExport fmt instExport sent ++ l) =
      run ⟨.value, .array :: stack⟩ (sentExport fmt instExport sent ++ l) := fun _ _ _ => rfl
  have hnext : ∀ (sent : Sentence ι) stack l, run ⟨.next, stack⟩ (sentExport fmt instExport sent ++ l) = none :=
    fun _ stack _ => run_next_beginObject stack _
  rw [parExport]
  match sents with
  | [] => simp [key, cleanPar]
  | [sent] =>
      change _ = if cleanSent fmt sent then _ else none
      simp [key, helement, run_sentExport hinst]
  | sent :: other :: sents => simp [key, cleanPar, helement, run_sentExport hinst, hnext]

/-- **The paragraphs**: a second one cannot follow the first one. -/
theorem run_pars (fmt : Format) (hinst : ∀ i, ∃ tail, instExport i = .beginObject :: tail)
    {pars : List (List (Sentence ι))}
    (hpars : pars ≠ []) (stack : List Frame) (rest : List Lexeme) :
    run ⟨.element, stack⟩ (pars.flatMap (parExport fmt instExport) ++ rest) =
      if cleanPars fmt pars then run ⟨.next, .array :: stack⟩ rest else none := by
  have helement : ∀ (sents : List (Sentence ι)) stack l, run ⟨.element, stack⟩ (parExport fmt instExport sents ++ l) =
      run ⟨.value, .array :: stack⟩ (parExport fmt instExport sents ++ l) := fun _ _ _ => rfl
  have hnext : ∀ (sents : List (Sentence ι)) stack l, run ⟨.next, stack⟩ (parExport fmt instExport sents ++ l) = none :=
    fun _ stack _ => run_next_beginObject stack _
  match pars with
  | [] => exact absurd rfl hpars
  | [sents] =>
      change _ = if cleanPar fmt sents then _ else none
      simp [helement, run_parExport hinst]
  | sents :: other :: pars => simp [cleanPars, helement, run_parExport hinst, hnext]

/-- **A text.** -/
theorem run_textExport (hinst : ∀ i, ∃ tail, instExport i = .beginObject :: tail) (text : Text ι)
    (stack : List Frame) (rest : List Lexeme) :
    run ⟨.value, stack⟩ (textExport fmt instExport text ++ rest) =
      if cleanText fmt text then run ⟨.next, stack⟩ rest else none := by
  obtain ⟨seq, locale, trs, pars⟩ := text
  rw [textExport, cleanText]
  cases htr : glossOf fmt.locale trs with
  | some tr =>
      -- the paragraphs follow the translation without a comma
      cases hpars : pars.isEmpty with
      | true =>
          obtain rfl := List.isEmpty_iff.mp hpars
          simp [key, parsExport]
      | false => simp [key, parsExport, hpars]
  | none =>
      cases locale with
      | cons c locale => cases seq <;> simp [key]
      | nil =>
          have hnil : escaped (escape false []) = true := rfl
          cases hpars : pars.isEmpty with
          | true =>
              obtain rfl := List.isEmpty_iff.mp hpars
              cases seq <;> simp [key, parsExport, cleanPars, hnil]
          | false =>
              have hrun := run_pars fmt hinst (List.isEmpty_eq_false_iff.mp hpars)
              cases seq with
              | nil => simp [key, parsExport, hpars, hrun, hnil]
              | cons c seq => simp [key, parsExport, hpars, hrun, ite_and]

/-! ## (6) White space -/

variable {max : Nat}

@[simp] theorem spaced_key (w : Word) : Spaced max (key w) := by simp [key]

theorem spaced_exportGloss (fmt : Format) (glosses : List KndText) : Spaced max (exportGloss fmt glosses) := by
  rw [exportGloss]
  cases glossOf fmt.locale glosses with
  | none => simp
  | some tr => cases habbr : tr.abbr <;> simp [habbr]

mutual

theorem spaced_synodeExport (fmt : Format) (max : Nat) (syn : SyNode) : Spaced max (synodeExport fmt syn) := by
  cases syn with
  | null => simp [synodeExport]
  | mk name tr isTerminal linearPos linearLen topic spec =>
      have htopic := spaced_synodeExport fmt max topic
      have hspec := spaced_specExport fmt max spec
      rw [synodeExport]
      split_ifs <;> simp [spaced_exportGloss, htopic, hspec]

theorem spaced_specExport (fmt : Format) (max : Nat) (spec : SyNodeSpec) : Spaced max (specExport fmt spec) := by
  cases spec with
  | null => simp [specExport]
  | mk name tr synode =>
      have hsynode := spaced_synodeExport fmt max synode
      rw [specExport]
      split_ifs <;> simp [spaced_exportGloss, hsynode]

end

/-- Declarations without instances. -/
theorem spaced_exportClassDeclars {decls : List (ClassDeclaration ι)} (h : ∀ decl ∈ decls, decl.insts = [])
    (count : Bool) : Spaced max (exportClassDeclars instExport count decls) := by
  induction decls generalizing count with
  | nil => simp [exportClassDeclars]
  | cons decl next ih =>
      obtain ⟨hfirst, hnext⟩ := List.forall_mem_cons.mp h
      rw [exportClassDeclars]
      split_ifs <;> simp [classDeclarExport, hfirst, ih hnext]

theorem spaced_stmExport {stm : Statement ι} (h : cleanStm stm = true) : Spaced max (stmExport instExport stm) := by
  simp only [cleanStm, Bool.and_eq_true, List.all_eq_true, List.isEmpty_iff] at h
  obtain ⟨⟨hschema, hclasses⟩, hprocs⟩ := h
  have hspaced : Spaced max (exportClassDeclars instExport false stm.classDeclars) :=
    spaced_exportClassDeclars (fun decl hdecl => (hclasses decl hdecl).2) false
  rw [stmExport, hschema, hprocs]
  by_cases hempty : stm.classDeclars.isEmpty = true
  · simp [hempty]
  · simp [hempty, hspaced]

theorem spaced_sentExport {sent : Sentence ι} (h : cleanSent fmt sent = true) :
    Spaced max (sentExport fmt instExport sent) := by
  obtain ⟨-, h⟩ := Bool.and_eq_true_iff.mp h
  obtain ⟨hstm, -⟩ := Bool.and_eq_true_iff.mp h
  rw [sentExport]
  cases hsent : sent.stm with
  | none => split_ifs <;> simp [spaced_synodeExport]
  | some stm =>
      rw [hsent] at hstm
      have hspaced : Spaced max (stmExport instExport stm) := spaced_stmExport hstm
      split_ifs <;> simp [spaced_synodeExport, hspaced]

/-- **A clean text** is written without white space. -/
theorem spaced_textExport {text : Text ι} (h : cleanText fmt text = true) :
    Spaced max (textExport fmt instExport text) := by
  rw [cleanText] at h
  rw [textExport]
  cases htr : glossOf fmt.locale text.trs with
  | some tr =>
      simp only [htr, Bool.and_eq_true, List.isEmpty_iff] at h
      simp [parsExport, h.2]
  | none =>
      simp only [htr, Bool.and_eq_true, List.isEmpty_iff] at h
      obtain ⟨⟨-, hlocale⟩, hpars⟩ := h
      have hspaced : Spaced max (text.pars.flatMap (parExport fmt instExport)) := by
        refine spaced_flatMap.mpr fun sents hsents => ?_
        -- there is one paragraph at most, with one sentence at most
        match hmatch : text.pars with
        | [] =>
            rw [hmatch] at hsents
            exact absurd hsents List.not_mem_nil
        | [only] =>
            rw [hmatch] at hsents hpars
            obtain rfl := List.mem_singleton.mp hsents
            match sents with
            | [] => simp [parExport]
            | [sent] => simp [parExport, spaced_sentExport (show cleanSent fmt sent = true from hpars)]
            | _ :: _ :: _ => cases hpars
        | _ :: _ :: _ =>
            rw [hmatch] at hpars
            cases hpars
      simp only [parsExport, hlocale, if_true]
      split_ifs <;> simp [hspaced]

end Knowdy.TextJson
