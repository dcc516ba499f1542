import Knowdy.ClassReading
import Knowdy.GlossExports
import Knowdy.Lib.Braces
import Knowdy.Output

/-! # Class instances in GSL

`knd_class_inst_export_GSL` writes an instance with its glosses, its attribute variables and its inverse relations, as
the journals have it. The texts among the values declare instances again.

* `PlainName`, `Closed` — names without braces, and texts whose braces balance.
* `textGlossExport`, `attrExport`, `textExport`, `attrVarsExport`, `classInstExport` — the code: what is written where
  the buffer has room and the classes that are named can be acquired.
* `Inst`, `Inst.export` — instances, with those that their texts declare.
* `closed_classInstExport` — **the braces of what is written balance**, whatever the instance holds.

The switches `use_numid`, `use_alias` and `format_offset` of a task are set nowhere; the instances of procs that a
statement declares are left out. -/

namespace Knowdy.InstGsl

open Braces
open ClassReading (AttrType)
open GlossExports (bytes)
open OutputBuffer (escape escapeChar)

/-! ## (1) Names -/

/-- A text whose braces balance. -/
abbrev Closed (s : List UInt8) : Prop := Matched (123 : UInt8) 125 s

/-- A name or a value as requests give it: it has no braces. -/
structure PlainName where
  /-- Its bytes. -/
  chars : List UInt8
  /-- No braces. -/
  plain : ∀ c ∈ chars, c ≠ 123 ∧ c ≠ 125

theorem PlainName.closed (name : PlainName) : Closed name.chars := matched_of_plain name.plain

/-- A term in braces, behind its tag. -/
def term (tag s : List UInt8) : List UInt8 := 123 :: (tag ++ s) ++ [125]

/-- A list in brackets, behind its tag. -/
def items (tag s : List UInt8) : List UInt8 := bytes "[" ++ tag ++ s ++ bytes "]"

theorem closed_term {t s : List UInt8} (htag : Closed t) (h : Closed s) : Closed (term t s) :=
  (htag.append h).wrap (by decide)

theorem closed_items {t s : List UInt8} (htag : Closed t) (h : Closed s) : Closed (items t s) := by
  have hopen : Closed (bytes "[") := by decide
  have hclose : Closed (bytes "]") := by decide
  exact ((hopen.append htag).append h).append hclose

theorem closed_decimalBytes (n : Nat) : Closed (decimalBytes n) := by
  refine matched_of_plain fun c hc => ?_
  have hrange := mem_decimalBytes hc
  constructor
  · rintro rfl
    exact absurd hrange.2 (by decide)
  · rintro rfl
    exact absurd hrange.2 (by decide)

theorem closed_ite {p : Prop} [Decidable p] {s t : List UInt8} (hs : Closed s) (ht : Closed t) :
    Closed (if p then s else t) := by
  split_ifs
  · exact hs
  · exact ht

/-- `write_escaped` drops the braces of a text. -/
theorem closed_escape (inWhitespace : Bool) (s : List UInt8) : Closed (escape inWhitespace s) := by
  induction s generalizing inWhitespace with
  | nil => exact matched_nil
  | cons c s ih =>
      rw [escape]
      refine Matched.append ?_ (ih _)
      rw [escapeChar]
      split_ifs with hdropped hspace hagain
      · exact matched_nil
      · exact matched_nil
      · decide
      · refine matched_of_plain fun d hd => ?_
        rw [List.mem_singleton] at hd
        rw [hd]
        exact ⟨fun h => hdropped (.inl h), fun h => hdropped (.inr (.inl h))⟩

/-! ## (2) Glosses and attributes -/

/-- The format that a request asks for. -/
structure Format where
  /-- The blanks of one level, none for a text without line breaks. -/
  indent : Nat
  /-- The language of the user. -/
  locale : List UInt8

/-- **`struct kndText`**, as a gloss. -/
structure Gloss where
  /-- Its language. -/
  locale : PlainName
  /-- The text itself, which is written without its braces. -/
  seq : List UInt8
  /-- A shorter form. -/
  abbr : Option PlainName

variable (fmt : Format)

/-- A line break and the blanks of `knd_print_offset`, as far as its buffer holds them. -/
def offset (depth : Nat) : List UInt8 :=
  if fmt.indent = 0 then [] else 10 :: List.replicate (depth * fmt.indent % 2 ^ 64) 32

/-- One round of the loop of `knd_text_gloss_export_GSL`. -/
def Gloss.gsl (tr : Gloss) : List UInt8 :=
  term tr.locale.chars
    (term (bytes "t ") (escape false tr.seq) ++
      match tr.abbr with
      | none => []
      | some abbr => term (bytes "abbr ") abbr.chars)

/-- **`knd_text_gloss_export_GSL`**: the first gloss of the locale, or all of them. -/
def textGlossExport (useLocale : Bool) (depth : Nat) (trs : List Gloss) : List UInt8 :=
  let shown := if useLocale then (trs.find? (·.locale.chars = fmt.locale)).toList else trs
  if shown.isEmpty then [] else offset fmt depth ++ items (bytes "_gloss ") (shown.flatMap Gloss.gsl)

/-- `knd_attr_names`. -/
def attrName : AttrType → List UInt8
  | .none => bytes "none"
  | .atom => bytes "atom"
  | .str => bytes "str"
  | .bin => bytes "bin"
  | .cdata => bytes "cdata"
  | .inner => bytes "inner"
  | .text => bytes "text"
  | .cg => bytes "CG"
  | .num => bytes "num"
  | .float => bytes "float"
  | .time => bytes "time"
  | .date => bytes "date"
  | .bool => bytes "bool"
  | .prob => bytes "prob"
  | .ref => bytes "ref"
  | .rel => bytes "rel"
  | .attrRef => bytes "attr-ref"
  | .procRef => bytes "proc-ref"
  | .procArgRef => bytes "proc-arg-ref"
  | .file => bytes "file"

/-- **`struct kndAttr`.** -/
structure Attr where
  /-- What its values are. -/
  type : AttrType
  /-- Its name. -/
  name : PlainName
  /-- Does a variable have a list of values? -/
  isASet : Bool
  /-- Is a value a reference to an instance (`KND_REL_CLASS_INST`)? -/
  toInst : Bool
  /-- Its glosses. -/
  tr : List Gloss
  /-- May its name be left out? -/
  isImplied : Bool
  /-- Are its values indexed? -/
  isIndexed : Bool
  /-- From which level on it is shown in short forms, if in any. -/
  conciseLevel : Nat
  /-- The class of its values, if one is given. -/
  refClassname : PlainName
  /-- The proc of its values, if one is given. -/
  refProcName : PlainName

/-- **`knd_attr_export_GSL`.** -/
def attrExport (depth : Nat) (attr : Attr) : List UInt8 :=
  term (attrName attr.type)
    (bytes " " ++ attr.name.chars ++ textGlossExport fmt true (depth + 1) attr.tr ++ offset fmt (depth + 1) ++
      (if attr.isASet then bytes " " ++ term (bytes "t ") (bytes "set") else []) ++
      (if attr.isImplied then bytes " " ++ term (bytes "impl") [] else []) ++
      (if attr.isIndexed then bytes " " ++ term (bytes "idx") [] else []) ++
      (if attr.conciseLevel ≠ 0 then bytes " " ++ term (bytes "concise ") (decimalBytes attr.conciseLevel) else []) ++
      (if attr.refClassname.chars ≠ [] then bytes " " ++ term (bytes "c ") attr.refClassname.chars else []) ++
      (if attr.refProcName.chars ≠ [] then bytes " " ++ term (bytes "p ") attr.refProcName.chars else []))

/-- A class that a value refers to, acquired. -/
structure ClassEntry where
  /-- Its name. -/
  name : PlainName
  /-- Its glosses. -/
  tr : List Gloss

theorem closed_offset (depth : Nat) : Closed (offset fmt depth) := by
  refine closed_ite matched_nil (matched_of_plain fun c hc => ?_)
  rcases List.mem_cons.mp hc with rfl | hc
  · decide
  · rw [List.eq_of_mem_replicate hc]
    decide

theorem Gloss.closed_gsl (tr : Gloss) : Closed tr.gsl := by
  refine closed_term tr.locale.closed (Matched.append (closed_term (by decide) (closed_escape _ _)) ?_)
  cases tr.abbr with
  | none => exact matched_nil
  | some abbr => exact closed_term (by decide) abbr.closed

theorem closed_textGlossExport (useLocale : Bool) (depth : Nat) (trs : List Gloss) :
    Closed (textGlossExport fmt useLocale depth trs) :=
  closed_ite matched_nil
    ((closed_offset fmt depth).append (closed_items (by decide) (Matched.flatMap fun tr _ => tr.closed_gsl)))

theorem closed_attrName (type : AttrType) : Closed (attrName type) := by
  cases type <;> decide

theorem closed_attrExport (depth : Nat) (attr : Attr) : Closed (attrExport fmt depth attr) := by
  have hblank : Closed (bytes " ") := by decide
  have hoption : ∀ {p : Prop} [Decidable p] {s : List UInt8}, Closed s → Closed (if p then bytes " " ++ s else []) :=
    fun hs => closed_ite (hblank.append hs) matched_nil
  have hname := hblank.append attr.name.closed
  have hgloss := closed_textGlossExport fmt true (depth + 1) attr.tr
  refine closed_term (closed_attrName _) ?_
  refine Matched.append ?_ (hoption (closed_term (by decide) attr.refProcName.closed))
  refine Matched.append ?_ (hoption (closed_term (by decide) attr.refClassname.closed))
  refine Matched.append ?_ (hoption (closed_term (by decide) (closed_decimalBytes _)))
  refine Matched.append ?_ (hoption (by decide))
  refine Matched.append ?_ (hoption (by decide))
  refine Matched.append ?_ (hoption (by decide))
  exact (hname.append hgloss).append (closed_offset fmt (depth + 1))

/-! ## (3) Texts -/

/-- **`struct kndSyNode`**, or the null pointer. -/
inductive SyNode
  | null
  /-- A node with the name of its class, its place in the sentence if it is a word, its topic and its specification,
  which has a name. -/
  | mk (name cls : PlainName) (isTerminal : Bool) (linearPos linearLen : Nat) (topic : SyNode) (specName : PlainName)
      (spec : SyNode)

/-- Is it the null pointer? -/
def SyNode.isNull : SyNode → Bool
  | .null => true
  | .mk .. => false

/-- **`synode_export_GSL`.** -/
def synodeExport : SyNode → List UInt8
  | .null => []
  | .mk name cls isTerminal linearPos linearLen topic specName spec =>
      term (bytes "syn ")
        (name.chars ++
          (if isTerminal then
            term (bytes "term ")
              (cls.chars ++ term (bytes "pos ") (decimalBytes linearPos) ++
                term (bytes "len ") (decimalBytes linearLen))
          else []) ++
          synodeExport topic ++
          (if spec.isNull then [] else term (bytes "spec ") (specName.chars ++ synodeExport spec)))

/-- **`struct kndClassDeclaration`.** -/
structure ClassDeclaration (ι : Type) where
  /-- The name of the class. -/
  entry : PlainName
  /-- The instances that are declared. -/
  insts : List ι

/-- **`struct kndStatement`.** -/
structure Statement (ι : Type) where
  /-- The name of its schema. -/
  schemaName : PlainName
  /-- Its declarations of classes. -/
  classDeclars : List (ClassDeclaration ι)
  /-- The names of the procs that it declares, without instances. -/
  procDeclars : List PlainName

/-- **`struct kndSentence`.** -/
structure Sentence (ι : Type) where
  /-- Its words. -/
  seq : PlainName
  /-- Its statement. -/
  stm : Option (Statement ι)
  /-- The subject of its clause, if it has a clause. -/
  clause : SyNode

/-- **`struct kndText`.** -/
structure Text (ι : Type) where
  /-- The whole text in one piece. -/
  seq : Option PlainName
  /-- Has the text been changed? -/
  hasState : Bool
  /-- Its language. -/
  locale : PlainName
  /-- Its translations, each with its language. -/
  trs : List (PlainName × PlainName)
  /-- Its paragraphs, each with its sentences. -/
  pars : List (List (Sentence ι))

variable {ι : Type} (instExport : ι → List UInt8)

/-- One round of the loop of `export_class_declars`. -/
def classDeclarExport (decl : ClassDeclaration ι) : List UInt8 :=
  term (bytes "class ") (decl.entry.chars ++ decl.insts.flatMap instExport)

/-- **`stm_export_GSL`.** -/
def stmExport (stm : Statement ι) : List UInt8 :=
  term (bytes "stm ")
    (stm.schemaName.chars ++ stm.classDeclars.flatMap (classDeclarExport instExport) ++
      stm.procDeclars.flatMap fun name => term (bytes "proc ") name.chars)

/-- **`sent_export_GSL`.** -/
def sentExport (sent : Sentence ι) : List UInt8 :=
  term sent.seq.chars
    ((match sent.stm with
      | none => []
      | some stm => stmExport instExport stm) ++
      (if sent.clause.isNull then [] else term (bytes "clause ") (synodeExport sent.clause)))

/-- **`knd_text_export_GSL`.** Of a text that was changed, nothing is written. -/
def textExport (text : Text ι) : List UInt8 :=
  if text.seq.isSome && text.hasState then []
  else
    (match text.seq with
      | none => []
      | some seq => if seq.chars = [] then [] else bytes " " ++ seq.chars) ++
    (if text.locale.chars = [] then [] else term (bytes "lang ") text.locale.chars) ++
    (if text.trs.isEmpty then []
      else items (bytes "trn") (text.trs.flatMap fun trn => term trn.1.chars (term (bytes "t ") trn.2.chars))) ++
    (if text.pars.isEmpty then []
      else items (bytes "p")
        (text.pars.flatMap fun sents => term [] (items (bytes "s") (sents.flatMap (sentExport instExport)))))

theorem closed_synodeExport (syn : SyNode) : Closed (synodeExport syn) := by
  induction syn with
  | null => exact matched_nil
  | mk name cls isTerminal linearPos linearLen topic specName spec ihtopic ihspec =>
      -- by induction on the tree: its topic and its specification are nodes
      have hpos := closed_term (t := bytes "pos ") (by decide) (closed_decimalBytes linearPos)
      have hlen := closed_term (t := bytes "len ") (by decide) (closed_decimalBytes linearLen)
      have hterm := closed_term (t := bytes "term ") (by decide) ((cls.closed.append hpos).append hlen)
      have hspec := closed_term (t := bytes "spec ") (by decide) (specName.closed.append ihspec)
      rw [synodeExport]
      refine closed_term (by decide) ?_
      exact ((name.closed.append (closed_ite hterm matched_nil)).append ihtopic).append (closed_ite matched_nil hspec)

section Closed

variable {instExport} (hinst : ∀ inst, Closed (instExport inst))
include hinst

theorem closed_stmExport (stm : Statement ι) : Closed (stmExport instExport stm) := by
  have hclasses : Closed (stm.classDeclars.flatMap (classDeclarExport instExport)) :=
    Matched.flatMap fun decl _ =>
      closed_term (by decide) (decl.entry.closed.append (Matched.flatMap fun inst _ => hinst inst))
  have hprocs : Closed (stm.procDeclars.flatMap fun name => term (bytes "proc ") name.chars) :=
    Matched.flatMap fun name _ => closed_term (by decide) name.closed
  exact closed_term (by decide) ((stm.schemaName.closed.append hclasses).append hprocs)

theorem closed_sentExport (sent : Sentence ι) : Closed (sentExport instExport sent) := by
  refine closed_term sent.seq.closed (Matched.append ?_ ?_)
  · cases sent.stm with
    | none => exact matched_nil
    | some stm => exact closed_stmExport hinst stm
  · exact closed_ite matched_nil (closed_term (by decide) (closed_synodeExport _))

/-- **A text.** -/
theorem closed_textExport (text : Text ι) : Closed (textExport instExport text) := by
  have hblank : Closed (bytes " ") := by decide
  have htrs : Closed (text.trs.flatMap fun trn => term trn.1.chars (term (bytes "t ") trn.2.chars)) :=
    Matched.flatMap fun trn _ => closed_term trn.1.closed (closed_term (by decide) trn.2.closed)
  have hpars : Closed (text.pars.flatMap fun sents =>
      term [] (items (bytes "s") (sents.flatMap (sentExport instExport)))) :=
    Matched.flatMap fun sents _ =>
      closed_term matched_nil (closed_items (by decide) (Matched.flatMap fun sent _ => closed_sentExport hinst sent))
  -- a text that was changed is not written; of the others its string, locale, translations and paragraphs are
  refine closed_ite matched_nil (Matched.append (Matched.append (Matched.append ?_ ?_) ?_) ?_)
  · cases text.seq with
    | none => exact matched_nil
    | some seq => exact closed_ite matched_nil (hblank.append seq.closed)
  · exact closed_ite matched_nil (closed_term (by decide) text.locale.closed)
  · exact closed_ite matched_nil (closed_items (by decide) htrs)
  · exact closed_ite matched_nil (closed_items (by decide) hpars)

end Closed

/-! ## (4) Attribute variables -/

/-- **`struct kndAttrVar`**, without its links. -/
structure AttrVar (ι : Type) where
  /-- The attribute that has a value here. -/
  attr : Attr
  /-- The attribute that a value without a name stands for. -/
  impliedAttr : Option Attr
  /-- Is it an element of a list? -/
  isListItem : Bool
  /-- Its name. -/
  name : PlainName
  /-- Its value, as it was given. -/
  val : PlainName
  /-- The class that a reference names. -/
  classEntry : ClassEntry
  /-- The name of the instance behind the class. -/
  classInstName : PlainName
  /-- The glosses of that instance, if it was found. -/
  classInstTr : List Gloss
  /-- The attribute that a reference to one was resolved to. -/
  refAttr : Option Attr
  /-- The text, which only variables of texts have. -/
  text : Text ι

/-- **A list of variables**, linked by `next`. -/
inductive AttrVars (ι : Type)
  | nil
  /-- A variable with `children`, `list` and `next`. -/
  | cons (var : AttrVar ι) (children list next : AttrVars ι)

/-- The beginning of `inner_var_export_GSL`: the implied attribute. -/
def impliedExport (depth : Nat) (var : AttrVar ι) : List UInt8 :=
  match var.impliedAttr with
  | none => []
  | some attr =>
      match attr.type with
      | .rel | .ref => var.classEntry.name.chars ++ textGlossExport fmt true depth var.classEntry.tr
      | .str => var.name.chars
      | _ => []

/-- A reference in `knd_attr_var_export_GSL`. -/
def refExport (depth : Nat) (var : AttrVar ι) : List UInt8 :=
  var.classEntry.name.chars ++ textGlossExport fmt true (depth + 1) var.classEntry.tr ++
    if var.attr.toInst then
      offset fmt (depth + 1) ++
        term (bytes "inst ") (var.classInstName.chars ++ textGlossExport fmt true (depth + 2) var.classInstTr)
    else []

/-- The `switch` of `knd_attr_var_export_GSL`, with what `inner_var_export_GSL` writes. -/
def valueExport (depth : Nat) (var : AttrVar ι) (inner : List UInt8) : List UInt8 :=
  match var.attr.type with
  | .rel | .ref => refExport fmt depth var
  | .attrRef =>
      match var.refAttr with
      | none => bytes "_null"
      | some attr => attrExport fmt (depth + 1) attr
  | .inner => inner
  | .text => textExport instExport var.text
  | .bool => bytes "t"
  | _ => var.val.chars

/-- **`knd_attr_var_export_GSL`**, around what `inner_var_export_GSL` writes. The depth of a task stays 0. -/
def attrVarExport (depth : Nat) (var : AttrVar ι) (inner : List UInt8) : List UInt8 :=
  offset fmt depth ++
    if var.isListItem then term [] (valueExport fmt instExport depth var inner)
    else if var.attr.isASet then valueExport fmt instExport depth var inner
    else term (var.name.chars ++ bytes " ") (valueExport fmt instExport depth var inner)

/-- The loop of **`inner_var_export_GSL`** over `children`. -/
def childrenExport (depth : Nat) : AttrVars ι → List UInt8
  | .nil => []
  | .cons item children _ next =>
      attrVarExport fmt instExport depth item
          (impliedExport fmt (depth + 1) item ++ childrenExport (depth + 1) children) ++
        childrenExport depth next

/-- One item of a list, around what `inner_var_export_GSL` writes. -/
def listItemExport (type : AttrType) (item : AttrVar ι) (inner : List UInt8) : List UInt8 :=
  term []
    (match type with
      | .inner => inner
      | .rel | .ref => item.classEntry.name.chars
      | .str => item.name.chars
      | _ => item.val.chars)

/-- The loop of `attr_var_list_export_GSL`. -/
def listItemsExport (depth : Nat) (type : AttrType) : AttrVars ι → List UInt8
  | .nil => []
  | .cons item children _ next =>
      offset fmt (depth + 1) ++
        listItemExport type item
          (impliedExport fmt (depth + 2) item ++ childrenExport fmt instExport (depth + 2) children) ++
        listItemsExport depth type next

/-- **`knd_attr_vars_export_GSL`**, with the test whether `count` is not zero. -/
def attrVarsExport (isConcise : Bool) (depth : Nat) (count : Bool) : AttrVars ι → List UInt8
  | .nil => []
  | .cons var children list next =>
      if isConcise ∧ var.attr.conciseLevel = 0 ∧ var.attr.type ≠ .inner then attrVarsExport isConcise depth count next
      else
        (if count then offset fmt depth else []) ++
          (if var.attr.isASet then
            items var.name.chars (listItemsExport fmt instExport depth var.attr.type list)
          else
            attrVarExport fmt instExport (depth + 1) var
              (impliedExport fmt (depth + 2) var ++ childrenExport fmt instExport (depth + 2) children)) ++
          attrVarsExport isConcise depth true next

theorem closed_impliedExport (depth : Nat) (var : AttrVar ι) : Closed (impliedExport fmt depth var) := by
  have hclass := var.classEntry.name.closed.append (closed_textGlossExport fmt true depth var.classEntry.tr)
  rw [impliedExport]
  cases var.impliedAttr with
  | none => exact matched_nil
  | some attr =>
      dsimp only
      -- only of references and strings something is written here
      cases attr.type
      case rel | ref => exact hclass
      case str => exact var.name.closed
      all_goals exact matched_nil

theorem closed_refExport (depth : Nat) (var : AttrVar ι) : Closed (refExport fmt depth var) := by
  have hclass := var.classEntry.name.closed.append (closed_textGlossExport fmt true (depth + 1) var.classEntry.tr)
  have hinst := closed_term (t := bytes "inst ") (by decide)
    (var.classInstName.closed.append (closed_textGlossExport fmt true (depth + 2) var.classInstTr))
  exact hclass.append (closed_ite ((closed_offset fmt (depth + 1)).append hinst) matched_nil)

theorem closed_listItemExport (type : AttrType) (item : AttrVar ι) {inner : List UInt8} (h : Closed inner) :
    Closed (listItemExport type item inner) := by
  refine closed_term matched_nil ?_
  cases type
  case inner => exact h
  case rel | ref => exact item.classEntry.name.closed
  case str => exact item.name.closed
  all_goals exact item.val.closed

section Closed

variable {instExport} (hinst : ∀ inst, Closed (instExport inst))
include hinst

theorem closed_valueExport (depth : Nat) (var : AttrVar ι) {inner : List UInt8} (h : Closed inner) :
    Closed (valueExport fmt instExport depth var inner) := by
  have hnull : Closed (bytes "_null") := by decide
  have htrue : Closed (bytes "t") := by decide
  -- the last branch of the `switch` writes the value as it is
  rw [valueExport]
  cases var.attr.type
  case rel | ref => exact closed_refExport fmt depth var
  case attrRef =>
    cases var.refAttr with
    | none => exact hnull
    | some attr => exact closed_attrExport fmt (depth + 1) attr
  case inner => exact h
  case text => exact closed_textExport hinst var.text
  case bool => exact htrue
  all_goals exact var.val.closed

theorem closed_attrVarExport (depth : Nat) (var : AttrVar ι) {inner : List UInt8} (h : Closed inner) :
    Closed (attrVarExport fmt instExport depth var inner) := by
  have hval := closed_valueExport fmt hinst depth var h
  have hblank : Closed (bytes " ") := by decide
  refine (closed_offset fmt depth).append (closed_ite (closed_term matched_nil hval) (closed_ite hval ?_))
  exact closed_term (var.name.closed.append hblank) hval

/-- **The members of an inner value**: by induction on the variables, those below a member and those behind it. -/
theorem closed_childrenExport (depth : Nat) (vars : AttrVars ι) :
    Closed (childrenExport fmt instExport depth vars) := by
  induction vars generalizing depth with
  | nil => exact matched_nil
  | cons item children list next ihchildren _ ihnext =>
      -- the list of a member is not written
      have hinner := (closed_impliedExport fmt (depth + 1) item).append (ihchildren (depth + 1))
      exact (closed_attrVarExport fmt hinst depth item hinner).append (ihnext depth)

theorem closed_inner (depth : Nat) (var : AttrVar ι) (children : AttrVars ι) :
    Closed (impliedExport fmt depth var ++ childrenExport fmt instExport depth children) :=
  (closed_impliedExport fmt depth var).append (closed_childrenExport fmt hinst depth children)

theorem closed_listItemsExport (depth : Nat) (type : AttrType) (vars : AttrVars ι) :
    Closed (listItemsExport fmt instExport depth type vars) := by
  induction vars with
  | nil => exact matched_nil
  | cons item children list next _ _ ihnext =>
      have hitem := closed_listItemExport type item (closed_inner fmt hinst (depth + 2) item children)
      exact ((closed_offset fmt (depth + 1)).append hitem).append ihnext

/-- **The variables of an object.** -/
theorem closed_attrVarsExport (isConcise : Bool) (depth : Nat) (count : Bool) (vars : AttrVars ι) :
    Closed (attrVarsExport fmt instExport isConcise depth count vars) := by
  induction vars generalizing count with
  | nil => exact matched_nil
  | cons var children list next _ _ ihnext =>
      have hlist := closed_items var.name.closed (closed_listItemsExport fmt hinst depth var.attr.type list)
      have hvar := closed_attrVarExport fmt hinst (depth + 1) var (closed_inner fmt hinst (depth + 2) var children)
      -- no line break before the first variable, unless the caller has counted one
      have hcount := closed_ite (p := count = true) (closed_offset fmt depth) matched_nil
      exact closed_ite (ihnext count) ((hcount.append (closed_ite hlist hvar)).append (ihnext true))

end Closed

/-! ## (5) Instances -/

/-- `knd_state_phase`, as far as the states of a commit have it. -/
inductive StatePhase
  | selected | created | updated | removed
  deriving DecidableEq

/-- **`struct kndAttrHub`**, resolved. -/
structure AttrHub where
  /-- The name of the attribute. -/
  attr : PlainName
  /-- The class that declares it. -/
  parentClass : PlainName
  /-- The instances that refer to the object, if any were indexed: how many, and the name and the class of each. -/
  topics : Option (Nat × List (PlainName × PlainName))

/-- **`struct kndClassInst`.** -/
structure ClassInst (ι : Type) where
  /-- Its name. -/
  name : PlainName
  /-- Its glosses. -/
  tr : List Gloss
  /-- Where it stands in its sentence. -/
  linearPos : Nat
  /-- How many words of the sentence it takes. -/
  linearLen : Nat
  /-- The values of its attributes. -/
  attrs : AttrVars ι
  /-- The references to it. -/
  attrHubs : List AttrHub

/-- `export_class_inst`. -/
def topicExport (depth : Nat) (topic : PlainName × PlainName) : List UInt8 :=
  offset fmt depth ++
    term topic.1.chars (offset fmt (depth + 1) ++ term (bytes "class ") topic.2.chars ++ offset fmt depth)

/-- One round of the loop of `export_inverse_rels`. -/
def hubExport (depth : Nat) (hub : AttrHub) : List UInt8 :=
  offset fmt (depth + 1) ++
    term hub.attr.chars
      (offset fmt (depth + 2) ++ term (bytes "class ") hub.parentClass.chars ++
        (match hub.topics with
          | none => []
          | some (total, topics) =>
              offset fmt (depth + 2) ++ term (bytes "total ") (decimalBytes total) ++ offset fmt (depth + 2) ++
                items (bytes "topic ") (topics.flatMap (topicExport fmt (depth + 3)) ++ offset fmt (depth + 2))) ++
        offset fmt (depth + 1))

/-- **`export_inverse_rels`.** -/
def inverseRelsExport (depth : Nat) (hubs : List AttrHub) : List UInt8 :=
  bytes "," ++ offset fmt depth ++
    items (bytes "rel" ++ if fmt.indent = 0 then [] else bytes " ")
      (hubs.flatMap (hubExport fmt depth) ++ offset fmt depth)

/-- What `knd_class_inst_export_GSL` writes between the braces of an instance. -/
def bodyExport (phase : StatePhase) (depth : Nat) (inst : ClassInst ι) : List UInt8 :=
  inst.name.chars ++ textGlossExport fmt (phase ≠ .created) (depth + 1) inst.tr ++
    (if inst.linearPos ≠ 0 then term (bytes "_pos ") (decimalBytes inst.linearPos) else []) ++
    (if inst.linearLen ≠ 0 then term (bytes "_len ") (decimalBytes inst.linearLen) else []) ++
    attrVarsExport fmt instExport false (depth + 1) false inst.attrs ++
    (if phase = .selected ∧ inst.attrHubs ≠ [] then inverseRelsExport fmt (depth + 1) inst.attrHubs else [])

/-- **`knd_class_inst_export_GSL`.** -/
def classInstExport (isListItem : Bool) (phase : StatePhase) (depth : Nat) (inst : ClassInst ι) : List UInt8 :=
  offset fmt depth ++
    if isListItem then bodyExport fmt instExport phase depth inst
    else
      term ((if phase = .created then bytes "!" else []) ++ bytes "inst ") (bodyExport fmt instExport phase depth inst)

/-- **An instance**, over the instances that its texts declare: these are nested to some depth. -/
def Inst : Nat → Type
  | 0 => Empty
  | nesting + 1 => ClassInst (Inst nesting)

/-- **What is written for the instances that texts declare.** -/
def Inst.export : (nesting : Nat) → Inst nesting → List UInt8
  | 0, inst => nomatch inst
  | nesting + 1, inst => classInstExport fmt (Inst.export nesting) false .created 0 inst

theorem closed_hubExport (depth : Nat) (hub : AttrHub) : Closed (hubExport fmt depth hub) := by
  have hline := closed_offset fmt
  have hclass := closed_term (t := bytes "class ") (by decide) hub.parentClass.closed
  refine (hline (depth + 1)).append (closed_term hub.attr.closed ?_)
  refine (((hline (depth + 2)).append hclass).append ?_).append (hline (depth + 1))
  -- the topics of a hub that was not asked for are left out
  cases hub.topics with
  | none => exact matched_nil
  | some shown =>
      have htotal := closed_term (t := bytes "total ") (by decide) (closed_decimalBytes shown.1)
      have htopics : Closed (shown.2.flatMap (topicExport fmt (depth + 3))) := by
        refine Matched.flatMap fun topic _ => (hline (depth + 3)).append (closed_term topic.1.closed ?_)
        have hcls := closed_term (t := bytes "class ") (by decide) topic.2.closed
        exact ((hline (depth + 3 + 1)).append hcls).append (hline (depth + 3))
      have hlist := closed_items (t := bytes "topic ") (by decide) (htopics.append (hline (depth + 2)))
      exact (((hline (depth + 2)).append htotal).append (hline (depth + 2))).append hlist

theorem closed_inverseRelsExport (depth : Nat) (hubs : List AttrHub) : Closed (inverseRelsExport fmt depth hubs) := by
  have hcomma : Closed (bytes ",") := by decide
  have htag : Closed (bytes "rel" ++ if fmt.indent = 0 then [] else bytes " ") :=
    Matched.append (by decide) (closed_ite matched_nil (by decide))
  have hhubs : Closed (hubs.flatMap (hubExport fmt depth)) :=
    Matched.flatMap fun hub _ => closed_hubExport fmt depth hub
  exact (hcomma.append (closed_offset fmt depth)).append (closed_items htag (hhubs.append (closed_offset fmt depth)))

section Closed

variable {instExport} (hinst : ∀ inst, Closed (instExport inst))
include hinst

theorem closed_bodyExport (phase : StatePhase) (depth : Nat) (inst : ClassInst ι) :
    Closed (bodyExport fmt instExport phase depth inst) := by
  have hgloss := closed_textGlossExport fmt (phase ≠ .created) (depth + 1) inst.tr
  have hpos := closed_term (t := bytes "_pos ") (by decide) (closed_decimalBytes inst.linearPos)
  have hlen := closed_term (t := bytes "_len ") (by decide) (closed_decimalBytes inst.linearLen)
  have hattrs := closed_attrVarsExport fmt hinst false (depth + 1) false inst.attrs
  refine Matched.append (Matched.append ?_ hattrs)
    (closed_ite (closed_inverseRelsExport fmt (depth + 1) inst.attrHubs) matched_nil)
  exact ((inst.name.closed.append hgloss).append (closed_ite hpos matched_nil)).append (closed_ite hlen matched_nil)

theorem closed_classInstExport_of (isListItem : Bool) (phase : StatePhase) (depth : Nat) (inst : ClassInst ι) :
    Closed (classInstExport fmt instExport isListItem phase depth inst) := by
  have hbody := closed_bodyExport fmt hinst phase depth inst
  have htag : Closed ((if phase = .created then bytes "!" else []) ++ bytes "inst ") :=
    Matched.append (closed_ite (by decide) matched_nil) (by decide)
  exact (closed_offset fmt depth).append (closed_ite hbody (closed_term htag hbody))

end Closed

/-- The instances that texts declare. -/
theorem Inst.closed_export (nesting : Nat) (inst : Inst nesting) : Closed (Inst.export fmt nesting inst) := by
  -- on how deep texts declare instances: the export of the inner ones is what the theorem takes
  induction nesting with
  | zero => nomatch inst
  | succ nesting ih => exact closed_classInstExport_of fmt ih false .created 0 inst

/-- **The braces of an instance balance.** -/
theorem closed_classInstExport (isListItem : Bool) (phase : StatePhase) (depth : Nat) {nesting : Nat}
    (inst : ClassInst (Inst nesting)) :
    Closed (classInstExport fmt (Inst.export fmt nesting) isListItem phase depth inst) :=
  closed_classInstExport_of fmt (Inst.closed_export fmt nesting) isListItem phase depth inst

end Knowdy.InstGsl
