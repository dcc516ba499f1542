import Knowdy.ClassReading
import Knowdy.TextJson

/-! # Attribute variables in JSON

`knd_attr_vars_export_JSON` writes the attribute variables of an object, each behind a comma; what is inside a variable
is written by `inner_var_export_JSON` and `attr_var_list_export_JSON`, which call each other.

* `AttrVars` — the variables, linked by `next`, each with its `children` and its `list`.
* `innerChildrenExport`, `listItemsExport`, `attrVarsExport` — the code.
* `cleanVars`, … — whether variables have none of what the code gets wrong.
* `run_attrVarsExport` — the recogniser passes over what is written for variables if they are clean, and fails
  otherwise.
* `varsLevels`, … — the levels at which lines begin, which `knd_print_offset` has a buffer of `KND_PATH_SIZE` for.
* `spaced_attrVarsExport` — the offsets of clean variables fit into the buffer if their levels do. -/

namespace Knowdy.AttrVarJson

open Json
open ClassReading (AttrType)
open GlossExports (KndText glossOf)
open OutputBuffer (escape)
open TextJson (Format Text key textExport cleanText run_textExport spaced_textExport)

/-! ## (1) Variables -/

/-- **`struct kndAttr`.** -/
structure Attr where
  /-- `name`. -/
  name : List UInt8
  /-- `type`. -/
  type : AttrType
  /-- `is_a_set`. -/
  isASet : Bool
  /-- `concise_level`. -/
  conciseLevel : Nat

/-- **`struct kndClassEntry`**, with the class that `knd_class_acquire` gives. -/
structure ClassEntry where
  /-- `name`. -/
  name : List UInt8
  /-- `class->tr`. -/
  tr : List KndText

/-- **`struct kndAttrVar`**, without its links. -/
structure AttrVar (ι : Type) where
  /-- `name`. -/
  name : List UInt8
  /-- `val`. -/
  val : List UInt8
  /-- `attr`. -/
  attr : Attr
  /-- `implied_attr`. -/
  impliedAttr : Option Attr
  /-- `class_entry`, which only references have. -/
  classEntry : ClassEntry
  /-- Is `proc_entry` set? -/
  hasProc : Bool
  /-- `text`, which only texts have. -/
  text : Text ι

/-- **A list of variables**, linked by `next`. -/
inductive AttrVars (ι : Type)
  | nil
  /-- A variable with `children`, `list` and `next`. -/
  | cons (var : AttrVar ι) (children list next : AttrVars ι)

/-- Is it the null pointer? -/
def AttrVars.isNull {ι : Type} : AttrVars ι → Bool
  | nil => true
  | cons .. => false

/-! ## (2) The code -/

variable (fmt : Format) {ι : Type} (instExport : ι → List Lexeme)

/-- A line break and the offset of `knd_print_offset`, if the output is indented. The product of two `size_t` wraps. -/
def offset (depth : Nat) : List Lexeme :=
  if fmt.indent = 0 then [] else [.space [10], .space (List.replicate (depth * fmt.indent % 2 ^ 64) 32)]

/-- **An offset fits** into the buffer of `knd_print_offset`, which does not look at its size. -/
def Fits (depth : Nat) : Prop := fmt.indent = 0 ∨ depth * fmt.indent % 2 ^ 64 ≤ pathSize

instance (depth : Nat) : Decidable (Fits fmt depth) := inferInstanceAs (Decidable (_ ∨ _))

/-- A blank, if the output is indented. -/
def blank : List Lexeme := if fmt.indent = 0 then [] else [.space [32]]

/-- **`knd_text_gloss_export_JSON`.** -/
def textGlossExport (depth : Nat) (glosses : List KndText) : List Lexeme :=
  match glossOf fmt.locale glosses with
  | none => []
  | some tr =>
      .comma :: offset fmt depth ++ key .gloss ++ blank fmt ++ [.str (escape false tr.seq)] ++
        match tr.abbr with
        | none => []
        | some abbr => .comma :: offset fmt depth ++ key .abbr ++ blank fmt ++ [.str abbr]

/-- **`ref_var_export_JSON`.** -/
def refVarExport (depth : Nat) (classEntry : ClassEntry) : List Lexeme :=
  key .cls ++ blank fmt ++ [.str classEntry.name] ++ textGlossExport fmt depth classEntry.tr

/-- The beginning of `inner_var_export_JSON`: the implied attribute. -/
def impliedExport (depth : Nat) (var : AttrVar ι) : List Lexeme :=
  match var.impliedAttr with
  | none => []
  | some attr =>
      [.str attr.name, .colon] ++ blank fmt ++
        match attr.type with
        | .rel | .ref => .str var.classEntry.name :: textGlossExport fmt depth var.classEntry.tr
        | .str => [.str var.name]
        | _ => []

/-- **`attr_var_list_export_JSON`**, around what is written for the items. -/
def attrVarListExport (depth : Nat) (parentVar : AttrVar ι) (items : List Lexeme) : List Lexeme :=
  offset fmt depth ++ .str parentVar.name :: .colon :: blank fmt ++ .beginArray :: items ++ offset fmt depth ++
    [.endArray]

/-- **`knd_attr_var_export_JSON`**, around what `inner_var_export_JSON` writes. -/
def attrVarExport (depth : Nat) (var : AttrVar ι) (inner : List Lexeme) : List Lexeme :=
  .str var.name :: .colon :: blank fmt ++
    match var.attr.type with
    | .num | .float => [.raw var.val]
    | .ref => [.str var.classEntry.name]
    | .procRef => if var.hasProc then [] else [.str var.val]
    | .inner => offset fmt depth ++ .beginObject :: offset fmt (depth + 1) ++ inner ++ offset fmt depth ++ [.endObject]
    | .text => textExport fmt instExport var.text
    | _ => [.str var.val]

/-- One item of a list, around what `inner_var_export_JSON` writes. -/
def listItemExport (depth : Nat) (type : AttrType) (var : AttrVar ι) (inner : List Lexeme) : List Lexeme :=
  offset fmt (depth + 1) ++ .beginObject :: offset fmt (depth + 2) ++
    (match type with
      | .inner => inner
      | .rel | .ref => refVarExport fmt (depth + 1) var.classEntry
      | .procRef => []
      | .str => key .val ++ blank fmt ++ [.str var.name]
      | _ => [.str var.val]) ++
    offset fmt (depth + 1) ++ [.endObject]

mutual

/-- The loop of **`inner_var_export_JSON`** over `children`, with the test whether `count` is not zero. -/
def innerChildrenExport (depth : Nat) (count : Bool) : AttrVars ι → List Lexeme
  | .nil => []
  | .cons item children list next =>
      (if count then .comma :: offset fmt depth else []) ++
        if item.attr.isASet then
          -- `continue` leaves out `count++`
          attrVarListExport fmt depth item (listItemsExport depth item.attr.type false list) ++
            innerChildrenExport depth count next
        else
          attrVarExport fmt instExport (depth + 1) item
              (impliedExport fmt (depth + 2) item ++
                innerChildrenExport (depth + 2) item.impliedAttr.isSome children) ++
            innerChildrenExport depth true next

/-- The loop of **`attr_var_list_export_JSON`** over `list`, with `in_list`. -/
def listItemsExport (depth : Nat) (type : AttrType) (inList : Bool) : AttrVars ι → List Lexeme
  | .nil => []
  | .cons var children _ next =>
      (if inList then [.comma] else []) ++
        listItemExport fmt depth type var
            (impliedExport fmt (depth + 2) var ++ innerChildrenExport (depth + 2) var.impliedAttr.isSome children) ++
          listItemsExport depth type true next

end

/-- **`knd_attr_vars_export_JSON`.** -/
def attrVarsExport (isConcise : Bool) (depth : Nat) : AttrVars ι → List Lexeme
  | .nil => []
  | .cons var _ list next =>
      if isConcise && var.attr.conciseLevel == 0 then attrVarsExport isConcise depth next
      else
        .comma ::
            (if var.attr.isASet then
              attrVarListExport fmt depth var (listItemsExport fmt instExport depth var.attr.type false list)
            else
              offset fmt depth ++ .str var.name :: .colon :: blank fmt ++
                match var.attr.type with
                | .num | .float => [.raw var.val]
                | .rel | .ref =>
                    offset fmt (depth + 1) ++ .beginObject :: offset fmt (depth + 2) ++
                      refVarExport fmt (depth + 2) var.classEntry ++ offset fmt (depth + 1) ++ [.endObject]
                | .text => textExport fmt instExport var.text
                | .procRef => if var.hasProc then [] else [.str var.val]
                | .inner => .beginObject :: offset fmt (depth + 2) ++ offset fmt (depth + 2) ++ [.endObject]
                | _ => [.str var.val]) ++
          attrVarsExport isConcise depth next

/-- What a call writes, where there is room. -/
def written : OutputBuffer.Op → List UInt8
  | .write buf => buf
  | .writeEscaped buf => escape false buf
  | _ => []

/-- **The lexemes of a gloss** are those of the calls for it. -/
theorem bytes_textGlossExport (depth : Nat) (glosses : List KndText) :
    (textGlossExport fmt depth glosses).flatMap Lexeme.bytes =
      ((glossOf fmt.locale glosses).toList.flatMap fun tr =>
        GlossExports.textGlossWrites fmt.indent depth tr).flatMap written := by
  rw [textGlossExport]
  cases glossOf fmt.locale glosses with
  | none => rfl
  | some tr =>
      have hgloss : 34 :: ((TextJson.Word.gloss).text ++ [34, 58]) = GlossExports.bytes "\"gloss\":" := by decide
      have habbr : 34 :: ((TextJson.Word.abbr).text ++ [34, 58]) = GlossExports.bytes "\"abbr\":" := by decide
      have hcomma : GlossExports.bytes "," = [44] := by decide
      have hquote : GlossExports.bytes "\"" = [34] := by decide
      have hline : GlossExports.bytes "\n" = [10] := by decide
      have hblank : GlossExports.bytes " " = [32] := by decide
      by_cases hindent : fmt.indent = 0 <;> cases hsome : tr.abbr <;>
        simp [GlossExports.textGlossWrites, GlossExports.offset, GlossExports.blank, offset, blank, hindent, hsome, key,
          written, Lexeme.bytes, ← hgloss, ← habbr, hcomma, hquote, hline, hblank]

/-! ## (3) What the code gets wrong -/

/-- The gloss is a string after `write_escaped`, and its abbreviation as it is. -/
def cleanTextGloss (glosses : List KndText) : Bool :=
  match glossOf fmt.locale glosses with
  | none => true
  | some tr =>
      escaped (escape false tr.seq) &&
        match tr.abbr with
        | none => true
        | some abbr => escaped abbr

/-- A class is written. -/
def cleanClass (classEntry : ClassEntry) : Bool := escaped classEntry.name && cleanTextGloss fmt classEntry.tr

/-- An implied attribute is a reference or a string. -/
def cleanImplied (var : AttrVar ι) : Bool :=
  match var.impliedAttr with
  | none => true
  | some attr =>
      escaped attr.name &&
        match attr.type with
        | .rel | .ref => cleanClass fmt var.classEntry
        | .str => escaped var.name
        | _ => false

/-- The value of a variable that `knd_attr_var_export_JSON` writes. -/
def cleanAttrVar (var : AttrVar ι) (inner : Bool) : Bool :=
  escaped var.name &&
    match var.attr.type with
    | .num | .float => scalar var.val
    | .ref => escaped var.classEntry.name
    | .procRef => !var.hasProc && escaped var.val
    | .inner => inner
    | .text => cleanText fmt var.text
    | _ => escaped var.val

/-- An item of a list has a type that makes an object. -/
def cleanListItem (type : AttrType) (var : AttrVar ι) (inner : Bool) : Bool :=
  match type with
  | .inner => inner
  | .rel | .ref => cleanClass fmt var.classEntry
  | .procRef => true
  | .str => escaped var.name
  | _ => false

mutual

/-- No list is the first of several children without an implied attribute before it. -/
def cleanChildren (count : Bool) : AttrVars ι → Bool
  | .nil => true
  | .cons item children list next =>
      if item.attr.isASet then
        escaped item.name && cleanItems item.attr.type list && (if count then cleanChildren true next else next.isNull)
      else
        cleanAttrVar fmt item (cleanImplied fmt item && cleanChildren item.impliedAttr.isSome children) &&
          cleanChildren true next

/-- The items of a list. -/
def cleanItems (type : AttrType) : AttrVars ι → Bool
  | .nil => true
  | .cons var children _ next =>
      cleanListItem fmt type var (cleanImplied fmt var && cleanChildren var.impliedAttr.isSome children) &&
        cleanItems type next

end

/-- **Variables without what the code gets wrong.** -/
def cleanVars (isConcise : Bool) : AttrVars ι → Bool
  | .nil => true
  | .cons var _ list next =>
      (isConcise && var.attr.conciseLevel == 0 ||
          escaped var.name &&
            if var.attr.isASet then cleanItems fmt var.attr.type list
            else
              match var.attr.type with
              | .num | .float => scalar var.val
              | .rel | .ref => cleanClass fmt var.classEntry
              | .text => cleanText fmt var.text
              | .procRef => !var.hasProc && escaped var.val
              | .inner => true
              | _ => escaped var.val) &&
        cleanVars isConcise next

/-! ## (4) The recogniser over variables -/

variable {fmt} {instExport}

@[simp] theorem run_offset (depth : Nat) (c : Config) (rest : List Lexeme) :
    run c (offset fmt depth ++ rest) = run c rest := by
  rw [offset]
  split_ifs <;> rfl

@[simp] theorem run_blank (c : Config) (rest : List Lexeme) : run c (blank fmt ++ rest) = run c rest := by
  rw [blank]
  split_ifs <;> rfl

/-- **A gloss.** -/
theorem run_textGlossExport (depth : Nat) (glosses : List KndText) (stack : List Frame) (rest : List Lexeme) :
    run ⟨.next, .object :: stack⟩ (textGlossExport fmt depth glosses ++ rest) =
      if cleanTextGloss fmt glosses then run ⟨.next, .object :: stack⟩ rest else none := by
  rw [textGlossExport, cleanTextGloss]
  cases glossOf fmt.locale glosses with
  | none => rfl
  | some tr =>
      cases habbr : tr.abbr with
      | none => simp [key, habbr]
      | some abbr => simp [key, habbr, ite_and]

/-- **A reference.** -/
theorem run_refVarExport (depth : Nat) (classEntry : ClassEntry) (stack : List Frame) (rest : List Lexeme) :
    run ⟨.member, stack⟩ (refVarExport fmt depth classEntry ++ rest) =
      if cleanClass fmt classEntry then run ⟨.next, .object :: stack⟩ rest else none := by
  simp [refVarExport, cleanClass, key, run_textGlossExport, ite_and]

/-- **A list**, by what is written for its items. -/
theorem run_attrVarListExport (fmt : Format) {items : List Lexeme} {clean : Bool} {stack : List Frame}
    (hitems : ∀ rest depth, run ⟨.element, .object :: stack⟩ (items ++ (offset fmt depth ++ .endArray :: rest)) =
      if clean then run ⟨.next, .object :: stack⟩ rest else none)
    (depth : Nat) (var : AttrVar ι) (rest : List Lexeme) :
    run ⟨.key, stack⟩ (attrVarListExport fmt depth var items ++ rest) =
      if escaped var.name && clean then run ⟨.next, .object :: stack⟩ rest else none := by
  simp [attrVarListExport, hitems, ite_and]

/-- **A variable**, by what is written inside it. -/
theorem run_attrVarExport (hinst : ∀ i, ∃ tail, instExport i = .beginObject :: tail) {inner : List Lexeme}
    {clean : Bool} {stack : List Frame}
    (hinner : ∀ rest depth, run ⟨.member, .object :: stack⟩ (inner ++ (offset fmt depth ++ .endObject :: rest)) =
      if clean then run ⟨.next, .object :: stack⟩ rest else none)
    (depth : Nat) (var : AttrVar ι) {rest : List Lexeme} (hrest : NoValue rest) :
    run ⟨.key, stack⟩ (attrVarExport fmt instExport depth var inner ++ rest) =
      if cleanAttrVar fmt var clean then run ⟨.next, .object :: stack⟩ rest else none := by
  rw [attrVarExport, cleanAttrVar]
  cases var.attr.type with
  | procRef =>
      -- a proc is not written, and nothing that may follow is a value
      cases var.hasProc with
      | true => simp [hrest _]
      | false => simp [ite_and]
  | inner => simp [hinner, ite_and]
  | text => simp [run_textExport hinst, ite_and]
  | _ => simp [ite_and]

/-- **An item of a list**, by what is written inside it. -/
theorem run_listItemExport {inner : List Lexeme} {clean : Bool} {stack : List Frame}
    (hinner : ∀ rest depth, run ⟨.member, stack⟩ (inner ++ (offset fmt depth ++ .endObject :: rest)) =
      if clean then run ⟨.next, stack⟩ rest else none)
    (depth : Nat) (type : AttrType) (var : AttrVar ι) (rest : List Lexeme) :
    run ⟨.value, stack⟩ (listItemExport fmt depth type var inner ++ rest) =
      if cleanListItem fmt type var clean then run ⟨.next, stack⟩ rest else none := by
  cases type with
  | inner =>
      rw [listItemExport, cleanListItem]
      simp [hinner]
  | rel =>
      rw [listItemExport, cleanListItem]
      simp [run_refVarExport]
  | ref =>
      rw [listItemExport, cleanListItem]
      simp [run_refVarExport]
  | str =>
      rw [listItemExport, cleanListItem]
      simp [key]
  | _ => simp [listItemExport, cleanListItem]

/-- **What the recogniser makes of the children of a variable**, and of the items of a list. -/
structure Recognised (fmt : Format) (instExport : ι → List Lexeme) (vars : AttrVars ι) : Prop where
  /-- Children, behind what was written before. -/
  children : ∀ depth stack rest, NoValue rest →
    run ⟨.next, .object :: stack⟩ (innerChildrenExport fmt instExport depth true vars ++ rest) =
      if cleanChildren fmt true vars then run ⟨.next, .object :: stack⟩ rest else none
  /-- Children, at the beginning of an object, up to its end. -/
  firstChildren : ∀ depth stack rest depth',
    run ⟨.member, stack⟩ (innerChildrenExport fmt instExport depth false vars ++
        (offset fmt depth' ++ .endObject :: rest)) =
      if cleanChildren fmt false vars then run ⟨.next, stack⟩ rest else none
  /-- Items, behind another one. -/
  items : ∀ depth type stack rest,
    run ⟨.next, .array :: stack⟩ (listItemsExport fmt instExport depth type true vars ++ rest) =
      if cleanItems fmt type vars then run ⟨.next, .array :: stack⟩ rest else none
  /-- Items, at the beginning of an array, up to its end. -/
  firstItems : ∀ depth type stack rest depth',
    run ⟨.element, stack⟩ (listItemsExport fmt instExport depth type false vars ++
        (offset fmt depth' ++ .endArray :: rest)) =
      if cleanItems fmt type vars then run ⟨.next, stack⟩ rest else none

theorem noValue_offset {depth : Nat} {rest : List Lexeme} (h : NoValue rest) : NoValue (offset fmt depth ++ rest) :=
  fun stack => (run_offset depth _ rest).trans (h stack)

/-- What follows a variable is no value. -/
theorem noValue_innerChildrenExport (fmt : Format) (instExport : ι → List Lexeme) (depth : Nat) (vars : AttrVars ι)
    {rest : List Lexeme} (hrest : NoValue rest) :
    NoValue (innerChildrenExport fmt instExport depth true vars ++ rest) := by
  cases vars with
  | nil => exact hrest
  | cons var children list next =>
      intro stack
      simp [innerChildrenExport]

/-- **The inside of a variable**: an implied attribute that is no reference and no string has no value. -/
theorem Recognised.inner {children : AttrVars ι} (h : Recognised fmt instExport children) (depth : Nat)
    (var : AttrVar ι) (stack : List Frame) (rest : List Lexeme) (depth' : Nat) :
    run ⟨.member, stack⟩ ((impliedExport fmt depth var ++
        innerChildrenExport fmt instExport depth var.impliedAttr.isSome children) ++
          (offset fmt depth' ++ .endObject :: rest)) =
      if cleanImplied fmt var && cleanChildren fmt var.impliedAttr.isSome children then run ⟨.next, stack⟩ rest
      else none := by
  have hend : NoValue (offset fmt depth' ++ .endObject :: rest) := noValue_offset (noValue_endObject _)
  rw [impliedExport, cleanImplied]
  cases himplied : var.impliedAttr with
  | none => simp [h.firstChildren]
  | some attr =>
      have hchildren := h.children depth stack _ hend
      have hnone := noValue_innerChildrenExport fmt instExport depth children hend (.object :: stack)
      cases htype : attr.type with
      | rel => simp [htype, run_textGlossExport, hchildren, cleanClass, ite_and]
      | ref => simp [htype, run_textGlossExport, hchildren, cleanClass, ite_and]
      | str => simp [htype, hchildren, ite_and]
      | _ => simp [htype, hnone]

/-- A first child that is no list, or a first list. -/
theorem run_member_attrVarExport (depth : Nat) (var : AttrVar ι) (inner : List Lexeme) (stack : List Frame)
    (rest : List Lexeme) :
    run ⟨.member, stack⟩ (attrVarExport fmt instExport depth var inner ++ rest) =
      run ⟨.key, stack⟩ (attrVarExport fmt instExport depth var inner ++ rest) := rfl

theorem run_member_attrVarListExport (depth : Nat) (var : AttrVar ι) (items : List Lexeme) (stack : List Frame)
    (rest : List Lexeme) :
    run ⟨.member, stack⟩ (attrVarListExport fmt depth var items ++ rest) =
      run ⟨.key, stack⟩ (attrVarListExport fmt depth var items ++ rest) := by
  simp [attrVarListExport]

theorem run_element_listItemExport (depth : Nat) (type : AttrType) (var : AttrVar ι) (inner : List Lexeme)
    (stack : List Frame) (rest : List Lexeme) :
    run ⟨.element, stack⟩ (listItemExport fmt depth type var inner ++ rest) =
      run ⟨.value, .array :: stack⟩ (listItemExport fmt depth type var inner ++ rest) := by
  simp [listItemExport]

/-- A child cannot follow a list without a comma. -/
theorem run_next_innerChildrenExport (depth : Nat) (vars : AttrVars ι) (stack : List Frame) (rest : List Lexeme)
    (depth' : Nat) :
    run ⟨.next, .object :: stack⟩ (innerChildrenExport fmt instExport depth false vars ++
        (offset fmt depth' ++ .endObject :: rest)) =
      if vars.isNull then run ⟨.next, stack⟩ rest else none := by
  cases vars with
  | nil => simp [innerChildrenExport, AttrVars.isNull]
  | cons item children list next =>
      cases hset : item.attr.isASet <;>
        simp [innerChildrenExport, AttrVars.isNull, hset, attrVarListExport, attrVarExport]

/-- **The recogniser over children and items**, by induction on the variables. -/
theorem recognised (hinst : ∀ i, ∃ tail, instExport i = .beginObject :: tail) (vars : AttrVars ι) :
    Recognised fmt instExport vars := by
  induction vars with
  | nil => exact ⟨fun _ _ _ _ => rfl, fun _ _ _ _ => by simp [innerChildrenExport, cleanChildren],
      fun _ _ _ _ => rfl, fun _ _ _ _ _ => by simp [listItemsExport, cleanItems]⟩
  | cons item children list next ihchildren ihlist ihnext =>
      refine ⟨fun depth stack rest hrest => ?_, fun depth stack rest depth' => ?_,
        fun depth type stack rest => ?_, fun depth type stack rest depth' => ?_⟩
      · rw [innerChildrenExport, cleanChildren]
        cases hset : item.attr.isASet with
        | true =>
            have hlist := run_attrVarListExport fmt (fun rest' depth' =>
              ihlist.firstItems depth item.attr.type (.object :: stack) rest' depth') depth item
            simp [hlist, ihnext.children depth stack rest hrest, ite_and]
        | false =>
            have hnext := noValue_innerChildrenExport fmt instExport depth next hrest
            have hvar := run_attrVarExport hinst (fun rest' depth' =>
              ihchildren.inner (depth + 2) item (.object :: stack) rest' depth') (depth + 1) item hnext
            simp [hvar, ihnext.children depth stack rest hrest, ite_and]
      · rw [innerChildrenExport, cleanChildren]
        have hend : NoValue (offset fmt depth' ++ .endObject :: rest) := noValue_offset (noValue_endObject _)
        cases hset : item.attr.isASet with
        | true =>
            have hlist := run_attrVarListExport fmt (fun rest' depth' =>
              ihlist.firstItems depth item.attr.type (.object :: stack) rest' depth') depth item
            simp [run_member_attrVarListExport, hlist, run_next_innerChildrenExport, ite_and]
        | false =>
            have hnext := noValue_innerChildrenExport fmt instExport depth next hend
            have hvar := run_attrVarExport hinst (fun rest' depth' =>
              ihchildren.inner (depth + 2) item (.object :: stack) rest' depth') (depth + 1) item hnext
            simp [run_member_attrVarExport, hvar, ihnext.children depth stack _ hend, ite_and]
      · rw [listItemsExport, cleanItems]
        have hitem := run_listItemExport (fun rest' depth' =>
          ihchildren.inner (depth + 2) item (.array :: stack) rest' depth') depth type item
        simp [hitem, ihnext.items, ite_and]
      · rw [listItemsExport, cleanItems]
        have hitem := run_listItemExport (fun rest' depth' =>
          ihchildren.inner (depth + 2) item (.array :: stack) rest' depth') depth type item
        simp [run_element_listItemExport, hitem, ihnext.items, ite_and]

theorem noValue_attrVarsExport (isConcise : Bool) (depth : Nat) (vars : AttrVars ι) {rest : List Lexeme}
    (hrest : NoValue rest) : NoValue (attrVarsExport fmt instExport isConcise depth vars ++ rest) := by
  induction vars with
  | nil => exact hrest
  | cons var children list next _ _ ih =>
      rw [attrVarsExport]
      by_cases hskip : (isConcise && var.attr.conciseLevel == 0) = true
      · rw [if_pos hskip]
        exact ih
      · rw [if_neg hskip]
        exact noValue_comma _

/-- **The variables of an object.** -/
theorem run_attrVarsExport (hinst : ∀ i, ∃ tail, instExport i = .beginObject :: tail) (isConcise : Bool) (depth : Nat)
    (vars : AttrVars ι) (stack : List Frame) {rest : List Lexeme} (hrest : NoValue rest) :
    run ⟨.next, .object :: stack⟩ (attrVarsExport fmt instExport isConcise depth vars ++ rest) =
      if cleanVars fmt isConcise vars then run ⟨.next, .object :: stack⟩ rest else none := by
  induction vars with
  | nil => rfl
  | cons var children list next _ _ ih =>
      have hnext : NoValue (attrVarsExport fmt instExport isConcise depth next ++ rest) :=
        noValue_attrVarsExport isConcise depth next hrest
      rw [attrVarsExport, cleanVars]
      cases hskip : isConcise && var.attr.conciseLevel == 0 with
      | true => simp [ih]
      | false =>
          cases hset : var.attr.isASet with
          | true =>
              have hlist := run_attrVarListExport fmt (fun rest' depth' =>
                (recognised hinst list).firstItems depth var.attr.type (.object :: stack) rest' depth') depth var
              simp [hlist, ih, ite_and]
          | false =>
              cases var.attr.type with
              | procRef =>
                  -- a proc is not written, and nothing that may follow is a value
                  cases var.hasProc with
                  | true => simp [hnext _]
                  | false => simp [ih, ite_and]
              | rel => simp [run_refVarExport, ih, ite_and]
              | ref => simp [run_refVarExport, ih, ite_and]
              | text => simp [run_textExport hinst, ih, ite_and]
              | _ => simp [ih, ite_and]

/-! ## (5) The levels of lines -/

section Levels

variable (fmt)

/-- The level at which a gloss is written. -/
def glossLevels (depth : Nat) (glosses : List KndText) : List Nat :=
  if (glossOf fmt.locale glosses).isSome then [depth] else []

/-- The levels of an implied attribute. -/
def impliedLevels (depth : Nat) (var : AttrVar ι) : List Nat :=
  match var.impliedAttr with
  | none => []
  | some attr =>
      match attr.type with
      | .rel | .ref => glossLevels fmt depth var.classEntry.tr
      | _ => []

/-- The levels of a variable, around those inside it. A text has none. -/
def attrVarLevels (depth : Nat) (var : AttrVar ι) (inner : List Nat) : List Nat :=
  match var.attr.type with
  | .inner => depth :: (depth + 1) :: inner
  | _ => []

/-- The levels of an item, around those inside it. -/
def listItemLevels (depth : Nat) (type : AttrType) (var : AttrVar ι) (inner : List Nat) : List Nat :=
  (depth + 1) :: (depth + 2) ::
    match type with
    | .inner => inner
    | .rel | .ref => glossLevels fmt (depth + 1) var.classEntry.tr
    | _ => []

mutual

/-- The levels of children, with the test whether something is written before. -/
def childrenLevels (depth : Nat) (count : Bool) : AttrVars ι → List Nat
  | .nil => []
  | .cons item children list next =>
      (if count then [depth] else []) ++
        if item.attr.isASet then
          depth :: itemsLevels depth item.attr.type list ++ childrenLevels depth count next
        else
          attrVarLevels (depth + 1) item
              (impliedLevels fmt (depth + 2) item ++
                childrenLevels (depth + 2) item.impliedAttr.isSome children) ++
            childrenLevels depth true next

/-- The levels of items. -/
def itemsLevels (depth : Nat) (type : AttrType) : AttrVars ι → List Nat
  | .nil => []
  | .cons var children _ next =>
      listItemLevels fmt depth type var
          (impliedLevels fmt (depth + 2) var ++ childrenLevels (depth + 2) var.impliedAttr.isSome children) ++
        itemsLevels depth type next

end

/-- **The levels of variables.** -/
def varsLevels (isConcise : Bool) (depth : Nat) : AttrVars ι → List Nat
  | .nil => []
  | .cons var _ list next =>
      if isConcise && var.attr.conciseLevel == 0 then varsLevels isConcise depth next
      else
        (depth ::
          if var.attr.isASet then itemsLevels fmt depth var.attr.type list
          else
            match var.attr.type with
            | .rel | .ref => (depth + 1) :: (depth + 2) :: glossLevels fmt (depth + 2) var.classEntry.tr
            | .inner => [depth + 2]
            | _ => []) ++
          varsLevels isConcise depth next

end Levels

/-- **The offsets of all these levels fit.** -/
def AllFit (fmt : Format) (levels : List Nat) : Prop := ∀ depth ∈ levels, Fits fmt depth

@[simp] theorem allFit_nil : AllFit fmt [] := fun _ hdepth => absurd hdepth List.not_mem_nil

@[simp] theorem allFit_cons {depth : Nat} {levels : List Nat} :
    AllFit fmt (depth :: levels) ↔ Fits fmt depth ∧ AllFit fmt levels := List.forall_mem_cons

@[simp] theorem allFit_append {levels levels' : List Nat} :
    AllFit fmt (levels ++ levels') ↔ AllFit fmt levels ∧ AllFit fmt levels' := List.forall_mem_append

@[simp] theorem spaced_offset (depth : Nat) : Spaced pathSize (offset fmt depth) ↔ Fits fmt depth := by
  have hline : 1 ≤ pathSize := by decide
  rw [offset, Fits]
  by_cases hindent : fmt.indent = 0
  · simp [hindent]
  · simp [hindent, hline]

@[simp] theorem spaced_blank : Spaced pathSize (blank fmt) := by
  have hblank : 1 ≤ pathSize := by decide
  rw [blank]
  split_ifs <;> simp [hblank]

@[simp] theorem spaced_textGlossExport (depth : Nat) (glosses : List KndText) :
    Spaced pathSize (textGlossExport fmt depth glosses) ↔ AllFit fmt (glossLevels fmt depth glosses) := by
  rw [textGlossExport, glossLevels]
  cases glossOf fmt.locale glosses with
  | none => simp
  | some tr => cases habbr : tr.abbr <;> simp [habbr]

@[simp] theorem spaced_refVarExport (depth : Nat) (classEntry : ClassEntry) :
    Spaced pathSize (refVarExport fmt depth classEntry) ↔ AllFit fmt (glossLevels fmt depth classEntry.tr) := by
  simp [refVarExport]

@[simp] theorem spaced_impliedExport (depth : Nat) (var : AttrVar ι) :
    Spaced pathSize (impliedExport fmt depth var) ↔ AllFit fmt (impliedLevels fmt depth var) := by
  rw [impliedExport, impliedLevels]
  cases var.impliedAttr with
  | none => simp
  | some attr => cases htype : attr.type <;> simp [htype]

/-- A list, by what is written for its items. -/
theorem spaced_attrVarListExport (depth : Nat) (var : AttrVar ι) (items : List Lexeme) :
    Spaced pathSize (attrVarListExport fmt depth var items) ↔ Fits fmt depth ∧ Spaced pathSize items := by
  simp [attrVarListExport, and_comm]

/-- A clean variable, by what is written inside it. -/
theorem spaced_attrVarExport {depth : Nat} {var : AttrVar ι} {inner : List Lexeme} {clean : Bool} {levels : List Nat}
    (hinner : clean = true → (Spaced pathSize inner ↔ AllFit fmt levels)) (h : cleanAttrVar fmt var clean = true) :
    Spaced pathSize (attrVarExport fmt instExport depth var inner) ↔
      AllFit fmt (attrVarLevels depth var levels) := by
  rw [cleanAttrVar] at h
  rw [attrVarExport, attrVarLevels]
  cases htype : var.attr.type with
  | inner =>
      have hclean : clean = true := by simpa [htype] using (Bool.and_eq_true_iff.mp h).2
      simp only [spaced_append, spaced_cons, spaced_nil, spaced_offset, allFit_cons, hinner hclean, Lexeme.Fits,
        spaced_blank, true_and, and_true]
      grind
  | text =>
      have htext : cleanText fmt var.text = true := by simpa [htype] using (Bool.and_eq_true_iff.mp h).2
      simp [spaced_textExport htext]
  | procRef => cases hproc : var.hasProc <;> simp
  | _ => simp

/-- An item, by what is written inside it. -/
theorem spaced_listItemExport {depth : Nat} {type : AttrType} {var : AttrVar ι} {inner : List Lexeme} {clean : Bool}
    {levels : List Nat} (hinner : clean = true → (Spaced pathSize inner ↔ AllFit fmt levels))
    (h : cleanListItem fmt type var clean = true) :
    Spaced pathSize (listItemExport fmt depth type var inner) ↔
      AllFit fmt (listItemLevels fmt depth type var levels) := by
  cases type with
  | inner =>
      have hlevels : cleanListItem fmt .inner var clean = clean := rfl
      rw [hlevels] at h
      simp only [listItemExport, listItemLevels, spaced_append, spaced_cons, spaced_nil, spaced_offset, allFit_cons,
        hinner h, Lexeme.Fits, true_and, and_true]
      grind
  | rel =>
      simp only [listItemExport, listItemLevels, spaced_append, spaced_cons, spaced_nil, spaced_offset, allFit_cons,
        spaced_refVarExport, Lexeme.Fits, true_and, and_true]
      grind
  | ref =>
      simp only [listItemExport, listItemLevels, spaced_append, spaced_cons, spaced_nil, spaced_offset, allFit_cons,
        spaced_refVarExport, Lexeme.Fits, true_and, and_true]
      grind
  | _ =>
      simp [listItemExport, listItemLevels]
      grind

/-- **What is known of the offsets of children and items.** -/
structure Offsets (fmt : Format) (instExport : ι → List Lexeme) (vars : AttrVars ι) : Prop where
  /-- Children. -/
  children : ∀ depth count, cleanChildren fmt count vars = true →
    (Spaced pathSize (innerChildrenExport fmt instExport depth count vars) ↔
      AllFit fmt (childrenLevels fmt depth count vars))
  /-- Items. -/
  items : ∀ depth type inList, cleanItems fmt type vars = true →
    (Spaced pathSize (listItemsExport fmt instExport depth type inList vars) ↔
      AllFit fmt (itemsLevels fmt depth type vars))

/-- The inside of a variable. -/
theorem Offsets.inner {children : AttrVars ι} (h : Offsets fmt instExport children) (depth : Nat) (var : AttrVar ι)
    (hclean : (cleanImplied fmt var && cleanChildren fmt var.impliedAttr.isSome children) = true) :
    Spaced pathSize (impliedExport fmt depth var ++
        innerChildrenExport fmt instExport depth var.impliedAttr.isSome children) ↔
      AllFit fmt (impliedLevels fmt depth var ++ childrenLevels fmt depth var.impliedAttr.isSome children) := by
  rw [spaced_append, allFit_append, spaced_impliedExport, h.children _ _ (Bool.and_eq_true_iff.mp hclean).2]

/-- **The offsets of children and items**, by induction on the variables. -/
theorem offsets (vars : AttrVars ι) : Offsets fmt instExport vars := by
  induction vars with
  | nil => exact ⟨fun _ _ _ => by simp [innerChildrenExport, childrenLevels],
      fun _ _ _ _ => by simp [listItemsExport, itemsLevels]⟩
  | cons item children list next ihchildren ihlist ihnext =>
      refine ⟨fun depth count h => ?_, fun depth type inList h => ?_⟩
      · rw [cleanChildren] at h
        rw [innerChildrenExport, childrenLevels]
        cases hset : item.attr.isASet with
        | true =>
            simp only [hset, if_true, Bool.and_eq_true] at h
            have hnext : cleanChildren fmt count next = true := by
              cases count with
              | true => exact h.2
              | false =>
                  -- nothing follows a first list
                  cases next with
                  | nil => rfl
                  | cons => cases h.2
            have hitems := ihlist.items depth item.attr.type false h.1.2
            have hrest := ihnext.children depth count hnext
            cases count with
            | true =>
                simp [spaced_attrVarListExport, hitems, hrest]
                grind
            | false => simp [spaced_attrVarListExport, hitems, hrest, and_assoc]
        | false =>
            simp only [hset, Bool.false_eq_true, if_false, Bool.and_eq_true] at h
            have hvar : Spaced pathSize (attrVarExport fmt instExport (depth + 1) item _) ↔
                AllFit fmt (attrVarLevels (depth + 1) item _) :=
              spaced_attrVarExport (ihchildren.inner (depth + 2) item) h.1
            have hrest := ihnext.children depth true h.2
            cases count <;> simp [hvar, hrest]
      · obtain ⟨hitem, hnext⟩ := Bool.and_eq_true_iff.mp (cleanItems.eq_2 .. ▸ h)
        have hfirst : Spaced pathSize (listItemExport fmt depth type item _) ↔
            AllFit fmt (listItemLevels fmt depth type item _) :=
          spaced_listItemExport (ihchildren.inner (depth + 2) item) hitem
        have hrest := ihnext.items depth type true hnext
        rw [listItemsExport, itemsLevels]
        cases inList <;> simp [hfirst, hrest]

/-- **The offsets of the variables of an object.** -/
theorem spaced_attrVarsExport (fmt : Format) (instExport : ι → List Lexeme) (isConcise : Bool) (depth : Nat)
    {vars : AttrVars ι} (h : cleanVars fmt isConcise vars = true) :
    Spaced pathSize (attrVarsExport fmt instExport isConcise depth vars) ↔
      AllFit fmt (varsLevels fmt isConcise depth vars) := by
  induction vars with
  | nil => simp [attrVarsExport, varsLevels]
  | cons var children list next _ _ ih =>
      obtain ⟨hvar, hnext⟩ := Bool.and_eq_true_iff.mp (cleanVars.eq_2 .. ▸ h)
      have hrest := ih hnext
      rw [attrVarsExport, varsLevels]
      cases hskip : isConcise && var.attr.conciseLevel == 0 with
      | true => simpa using hrest
      | false =>
          rw [hskip, Bool.false_or] at hvar
          obtain ⟨-, hvar⟩ := Bool.and_eq_true_iff.mp hvar
          cases hset : var.attr.isASet with
          | true =>
              rw [hset, if_pos rfl] at hvar
              have hoffsets : Offsets fmt instExport list := offsets list
              have hitems := hoffsets.items depth var.attr.type false hvar
              simp [spaced_attrVarListExport, hitems, hrest, and_assoc]
          | false =>
              rw [hset, if_neg Bool.false_ne_true] at hvar
              cases htype : var.attr.type with
              | text =>
                  have htext : cleanText fmt var.text = true := by simpa [htype] using hvar
                  simp [spaced_textExport htext, hrest]
              | procRef => cases hproc : var.hasProc <;> simp [hrest]
              | rel =>
                  simp [hrest]
                  grind
              | ref =>
                  simp [hrest]
                  grind
              | _ => simp [hrest]

end Knowdy.AttrVarJson
