import Knowdy.AttrVarJson

/-! # Class instances in JSON

`knd_class_inst_export_JSON` writes an instance with its state, its attribute variables and its inverse relations. The
texts among the values declare instances again.

* `AttrHub`, `ClassInst`, `Inst` — instances, with those that their texts declare.
* `inverseRelsExport`, `classInstExport`, `Inst.export` — the code.
* `cleanInst` — whether an instance has none of what the code gets wrong.
* `instLevels` — the levels at which lines begin.
* `WritesJson` — instances, attribute variables and texts are written as well-formed JSON.
* `writesJson_iff` — they are, exactly as far as they are clean and the offsets fit into the buffer. -/

namespace Knowdy.ClassInstJson

open Json
open AttrVarJson
open TextJson (Format Text key textExport cleanText run_textExport spaced_textExport)

/-! ## (1) Instances -/

/-- **`struct kndAttrHub`**, resolved. -/
structure AttrHub where
  /-- `attr->parent_class->name`. -/
  parentClass : List UInt8
  /-- `attr->name`. -/
  attr : List UInt8
  /-- `topics`, if there are any: `num_valid_elems`, and the class and the name of each instance in their order. -/
  topics : Option (Nat × List (List UInt8 × List UInt8))

/-- `knd_state_phase`, as far as it is written. -/
inductive StatePhase
  | removed | updated | created | other
  deriving DecidableEq

/-- **`struct kndClassInst`.** -/
structure ClassInst (ι : Type) where
  /-- `name`. -/
  name : List UInt8
  /-- `states`: `numid` and `phase` of the first one. -/
  state : Option (Nat × StatePhase)
  /-- `entry->blueprint->name`. -/
  blueprint : List UInt8
  /-- `class_var->attrs`. -/
  attrs : AttrVars ι
  /-- `attr_hubs`. -/
  attrHubs : List AttrHub

/-- **An instance**, over the instances that its texts declare: these are nested to some depth. -/
def Inst : Nat → Type
  | 0 => Empty
  | depth + 1 => ClassInst (Inst depth)

/-! ## (2) The code -/

variable (fmt : Format) {ι : Type} (instExport : ι → List Lexeme)

/-- **`export_class_inst`**, with the test whether `batch_size` is not zero. -/
def topicExport (depth : Nat) (batch : Bool) (topic : List UInt8 × List UInt8) : List Lexeme :=
  (if batch then [.comma] else []) ++ offset fmt depth ++ .beginObject :: offset fmt (depth + 1) ++
    key .cls ++ blank fmt ++ [.str topic.1] ++ key .inst ++ blank fmt ++ [.str topic.2] ++
    offset fmt depth ++ [.endObject]

/-- `knd_set_map` with `export_class_inst`. -/
def topicsExport (depth : Nat) (batch : Bool) : List (List UInt8 × List UInt8) → List Lexeme
  | [] => []
  | topic :: next => topicExport fmt depth batch topic ++ topicsExport depth true next

/-- One round of the loop of `export_inverse_rels`. -/
def hubExport (depth : Nat) (hub : AttrHub) : List Lexeme :=
  offset fmt (depth + 1) ++ .beginObject :: offset fmt (depth + 2) ++ key .cls ++ blank fmt ++ [.str hub.parentClass] ++
    .comma :: offset fmt (depth + 2) ++ key .attr ++ blank fmt ++ [.str hub.attr] ++
    (match hub.topics with
      | none => []
      | some (total, topics) =>
          .comma :: offset fmt (depth + 2) ++ key .total ++ blank fmt ++ .nat total ::
            .comma :: offset fmt (depth + 2) ++ key .topics ++ blank fmt ++
              .beginArray :: topicsExport fmt (depth + 3) false topics ++ offset fmt (depth + 2) ++ [.endArray]) ++
    offset fmt (depth + 1) ++ [.endObject]

/-- The loop of `export_inverse_rels`, with `in_list`. -/
def hubsExport (depth : Nat) (inList : Bool) : List AttrHub → List Lexeme
  | [] => []
  | hub :: next => (if inList then [.comma] else []) ++ hubExport fmt depth hub ++ hubsExport depth true next

/-- **`export_inverse_rels`.** -/
def inverseRelsExport (depth : Nat) (hubs : List AttrHub) : List Lexeme :=
  .comma :: offset fmt depth ++ key .rels ++ blank fmt ++ .beginArray :: hubsExport fmt depth false hubs ++
    offset fmt depth ++ [.endArray]

/-- The `switch` over the phase of the state. -/
def phaseExport : StatePhase → List Lexeme
  | .removed => .comma :: key .phase ++ [.str TextJson.Word.del.text]
  | .updated => .comma :: key .phase ++ [.str TextJson.Word.upd.text]
  | .created => .comma :: key .phase ++ [.str TextJson.Word.new.text]
  | .other => []

/-- The rest of `knd_class_inst_export_JSON`, after the state. -/
def detailsExport (selected : Bool) (depth : Nat) (inst : ClassInst ι) : List Lexeme :=
  .comma :: key .cls ++ [.str inst.blueprint] ++ attrVarsExport fmt instExport false (depth + 1) inst.attrs ++
    (if selected && !inst.attrHubs.isEmpty then inverseRelsExport fmt (depth + 1) inst.attrHubs else []) ++ [.endObject]

/-- **`knd_class_inst_export_JSON`**, with the test whether `phase` is `KND_SELECTED`. -/
def classInstExport (selected : Bool) (depth : Nat) (inst : ClassInst ι) : List Lexeme :=
  .beginObject :: key .name ++ [.str inst.name] ++
    match inst.state with
    | none => detailsExport fmt instExport selected depth inst
    | some (numid, phase) =>
        .comma :: key .state ++ .nat numid :: phaseExport phase ++
          -- no more details
          if phase = .removed then [.endObject] else detailsExport fmt instExport selected depth inst

/-- **What is written for the instances that texts declare.** -/
def Inst.export : (depth : Nat) → Inst depth → List Lexeme
  | 0, inst => nomatch inst
  | depth + 1, inst => classInstExport fmt (Inst.export depth) false 0 inst

/-! ## (3) What the code gets wrong -/

/-- No instances are listed for an inverse relation. -/
def cleanHub (hub : AttrHub) : Bool :=
  escaped hub.parentClass && escaped hub.attr &&
    match hub.topics with
    | none => true
    | some (_, topics) => topics.isEmpty

/-- The names, the variables and the inverse relations of an instance. -/
def cleanDetails (selected : Bool) (inst : ClassInst ι) : Bool :=
  escaped inst.blueprint && cleanVars fmt false inst.attrs && (!selected || inst.attrHubs.all cleanHub)

/-- **An instance without what the code gets wrong.** Of a removed one, only the name is written. -/
def cleanInst (selected : Bool) (inst : ClassInst ι) : Bool :=
  escaped inst.name &&
    match inst.state with
    | some (_, .removed) => true
    | _ => cleanDetails fmt selected inst

/-! ## (4) The recogniser over an instance -/

variable {fmt} {instExport}

/-- **The instances of an inverse relation**: there is no comma between the class and the name. -/
theorem run_topicsExport (depth : Nat) (topics : List (List UInt8 × List UInt8)) (stack : List Frame)
    (rest : List Lexeme) (depth' : Nat) :
    run ⟨.element, stack⟩ (topicsExport fmt depth false topics ++ (offset fmt depth' ++ .endArray :: rest)) =
      if topics.isEmpty then run ⟨.next, stack⟩ rest else none := by
  cases topics with
  | nil => simp [topicsExport]
  | cons topic next => simp [topicsExport, topicExport, key]

/-- **An inverse relation.** -/
theorem run_hubExport (depth : Nat) (hub : AttrHub) (stack : List Frame) (rest : List Lexeme) :
    run ⟨.value, stack⟩ (hubExport fmt depth hub ++ rest) =
      if cleanHub hub then run ⟨.next, stack⟩ rest else none := by
  rw [hubExport, cleanHub]
  cases htopics : hub.topics with
  | none => simp [key, ite_and]
  | some topics => simp [key, run_topicsExport, ite_and]

theorem run_element_hubExport (depth : Nat) (hub : AttrHub) (stack : List Frame) (rest : List Lexeme) :
    run ⟨.element, stack⟩ (hubExport fmt depth hub ++ rest) =
      run ⟨.value, .array :: stack⟩ (hubExport fmt depth hub ++ rest) := by
  simp [hubExport]

/-- **The inverse relations behind the first one.** -/
theorem run_hubsExport_true (depth : Nat) (hubs : List AttrHub) (stack : List Frame) (rest : List Lexeme) :
    run ⟨.next, .array :: stack⟩ (hubsExport fmt depth true hubs ++ rest) =
      if hubs.all cleanHub then run ⟨.next, .array :: stack⟩ rest else none := by
  induction hubs with
  | nil => rfl
  | cons hub next ih => simp [hubsExport, run_hubExport, ih, ite_and]

/-- **All inverse relations.** -/
theorem run_inverseRelsExport (depth : Nat) (hubs : List AttrHub) (stack : List Frame) (rest : List Lexeme) :
    run ⟨.next, .object :: stack⟩ (inverseRelsExport fmt depth hubs ++ rest) =
      if hubs.all cleanHub then run ⟨.next, .object :: stack⟩ rest else none := by
  cases hubs with
  | nil => simp [inverseRelsExport, hubsExport, key]
  | cons hub next =>
      simp [inverseRelsExport, hubsExport, key, run_element_hubExport, run_hubExport, run_hubsExport_true, ite_and]

/-- **The details of an instance.** -/
theorem run_detailsExport (fmt : Format) (hinst : ∀ i, ∃ tail, instExport i = .beginObject :: tail) (selected : Bool)
    (depth : Nat) (inst : ClassInst ι) (stack : List Frame) (rest : List Lexeme) :
    run ⟨.next, .object :: stack⟩ (detailsExport fmt instExport selected depth inst ++ rest) =
      if cleanDetails fmt selected inst then run ⟨.next, stack⟩ rest else none := by
  rw [detailsExport, cleanDetails]
  have hend : NoValue (.endObject :: rest) := noValue_endObject _
  cases hshown : selected && !inst.attrHubs.isEmpty with
  | true =>
      obtain ⟨rfl, -⟩ := Bool.and_eq_true_iff.mp hshown
      have hrels : NoValue (inverseRelsExport fmt (depth + 1) inst.attrHubs ++ .endObject :: rest) := noValue_comma _
      simp [key, run_attrVarsExport hinst _ _ _ _ hrels, run_inverseRelsExport, ite_and]
  | false =>
      have hclean : (!selected || inst.attrHubs.all cleanHub) = true := by
        cases selected with
        | false => rfl
        | true => simp_all
      rw [hclean]
      simp [key, run_attrVarsExport hinst _ _ _ _ hend, ite_and]

/-- **An instance.** -/
theorem run_classInstExport (hinst : ∀ i, ∃ tail, instExport i = .beginObject :: tail) (selected : Bool) (depth : Nat)
    (inst : ClassInst ι) (stack : List Frame) (rest : List Lexeme) :
    run ⟨.value, stack⟩ (classInstExport fmt instExport selected depth inst ++ rest) =
      if cleanInst fmt selected inst then run ⟨.next, stack⟩ rest else none := by
  have hdetails := run_detailsExport fmt hinst selected depth inst
  rw [classInstExport, cleanInst]
  cases hstate : inst.state with
  | none => simp [key, hdetails, ite_and]
  | some state =>
      obtain ⟨numid, phase⟩ := state
      cases phase <;> simp [key, phaseExport, hdetails, ite_and]

theorem exists_export_eq (fmt : Format) (depth : Nat) (inst : Inst depth) :
    ∃ tail, Inst.export fmt depth inst = .beginObject :: tail := by
  cases depth with
  | zero => nomatch inst
  | succ depth => exact ⟨_, rfl⟩

/-! ## (5) The levels of lines -/

/-- The levels of inverse relations without topics. -/
def hubsLevels (depth : Nat) (hubs : List AttrHub) : List Nat :=
  hubs.flatMap fun _ => [depth + 1, depth + 2]

/-- The levels of the details of an instance. -/
def detailsLevels (fmt : Format) (selected : Bool) (depth : Nat) (inst : ClassInst ι) : List Nat :=
  varsLevels fmt false (depth + 1) inst.attrs ++
    if selected && !inst.attrHubs.isEmpty then (depth + 1) :: hubsLevels (depth + 1) inst.attrHubs else []

/-- **The levels of an instance.** Of a removed one, no details are written. -/
def instLevels (fmt : Format) (selected : Bool) (depth : Nat) (inst : ClassInst ι) : List Nat :=
  match inst.state with
  | some (_, .removed) => []
  | _ => detailsLevels fmt selected depth inst

/-- An inverse relation. -/
theorem spaced_hubExport {depth : Nat} {hub : AttrHub} (h : cleanHub hub = true) :
    Spaced pathSize (hubExport fmt depth hub) ↔ AllFit fmt [depth + 1, depth + 2] := by
  simp only [cleanHub, Bool.and_eq_true] at h
  rw [hubExport]
  cases htopics : hub.topics with
  | none =>
      simp
      grind
  | some topics =>
      rw [htopics] at h
      simp [List.isEmpty_iff.mp h.2, topicsExport]
      grind

theorem spaced_hubsExport {depth : Nat} {hubs : List AttrHub} (h : hubs.all cleanHub = true) (inList : Bool) :
    Spaced pathSize (hubsExport fmt depth inList hubs) ↔ AllFit fmt (hubsLevels depth hubs) := by
  induction hubs generalizing inList with
  | nil => simp [hubsExport, hubsLevels]
  | cons hub next ih =>
      rw [List.all_cons, Bool.and_eq_true] at h
      have hlevels : hubsLevels depth (hub :: next) = [depth + 1, depth + 2] ++ hubsLevels depth next := rfl
      rw [hubsExport, hlevels, allFit_append]
      cases inList <;> simp [spaced_hubExport h.1, ih h.2]

theorem spaced_detailsExport (fmt : Format) (instExport : ι → List Lexeme) {selected : Bool} (depth : Nat)
    {inst : ClassInst ι} (h : cleanDetails fmt selected inst = true) :
    Spaced pathSize (detailsExport fmt instExport selected depth inst) ↔
      AllFit fmt (detailsLevels fmt selected depth inst) := by
  simp only [cleanDetails, Bool.and_eq_true] at h
  obtain ⟨⟨-, hvars⟩, hhubs⟩ := h
  have hattrs := spaced_attrVarsExport fmt instExport false (depth + 1) hvars
  rw [detailsExport, detailsLevels]
  cases hshown : selected && !inst.attrHubs.isEmpty with
  | true =>
      obtain ⟨rfl, -⟩ := Bool.and_eq_true_iff.mp hshown
      have hall : Spaced pathSize (hubsExport fmt (depth + 1) false inst.attrHubs) ↔
          AllFit fmt (hubsLevels (depth + 1) inst.attrHubs) := spaced_hubsExport (by simpa using hhubs) false
      simp [hattrs, inverseRelsExport, hall]
      grind
  | false => simp [hattrs]

/-- **The offsets of an instance.** -/
theorem spaced_classInstExport (fmt : Format) (instExport : ι → List Lexeme) {selected : Bool} (depth : Nat)
    {inst : ClassInst ι} (h : cleanInst fmt selected inst = true) :
    Spaced pathSize (classInstExport fmt instExport selected depth inst) ↔
      AllFit fmt (instLevels fmt selected depth inst) := by
  obtain ⟨-, h⟩ := Bool.and_eq_true_iff.mp h
  rw [classInstExport, instLevels]
  cases hstate : inst.state with
  | none =>
      rw [hstate] at h
      have hdetails := spaced_detailsExport fmt instExport depth (show cleanDetails fmt selected inst = true from h)
      simp [hdetails]
  | some state =>
      obtain ⟨numid, phase⟩ := state
      rw [hstate] at h
      cases phase with
      | removed => simp [phaseExport]
      | _ =>
          have hdetails := spaced_detailsExport fmt instExport depth (show cleanDetails fmt selected inst = true from h)
          simp [phaseExport, hdetails]

/-! ## (6) When JSON is written -/

/-- **What is exported.** The instances that texts declare are nested to some depth. -/
inductive Exported (nesting : Nat)
  /-- `knd_class_inst_export_JSON`, where the phase is `KND_SELECTED` or not. -/
  | inst (selected : Bool) (depth : Nat) (inst : ClassInst (Inst nesting))
  /-- `knd_attr_vars_export_JSON`. -/
  | vars (isConcise : Bool) (depth : Nat) (vars : AttrVars (Inst nesting))
  /-- `knd_text_export_JSON`. -/
  | text (text : Text (Inst nesting))

/-- What is written. -/
def lexemes (fmt : Format) {nesting : Nat} : Exported nesting → List Lexeme
  | .inst selected depth inst => classInstExport fmt (Inst.export fmt nesting) selected depth inst
  | .vars isConcise depth vars => attrVarsExport fmt (Inst.export fmt nesting) isConcise depth vars
  | .text text => textExport fmt (Inst.export fmt nesting) text

/-- Variables are written inside their object, an instance and a text as a value. -/
def WellFormedAs (fmt : Format) {nesting : Nat} (e : Exported nesting) : Prop :=
  match e with
  | .vars .. => WellFormedInside (lexemes fmt e)
  | _ => WellFormed (lexemes fmt e)

/-- **It is written as JSON**, and no offset runs over the buffer of `knd_print_offset`. -/
def WritesJson (fmt : Format) {nesting : Nat} (e : Exported nesting) : Prop :=
  WellFormedAs fmt e ∧ Spaced pathSize (lexemes fmt e)

/-- **It has none of what the code gets wrong.** -/
def clean (fmt : Format) {nesting : Nat} : Exported nesting → Bool
  | .inst selected _ inst => cleanInst fmt selected inst
  | .vars isConcise _ vars => cleanVars fmt isConcise vars
  | .text text => cleanText fmt text

/-- **The levels at which its lines begin.** A clean text is one line. -/
def levels (fmt : Format) {nesting : Nat} : Exported nesting → List Nat
  | .inst selected depth inst => instLevels fmt selected depth inst
  | .vars isConcise depth vars => varsLevels fmt isConcise depth vars
  | .text _ => []

theorem wellFormed_iff_clean (fmt : Format) {nesting : Nat} (e : Exported nesting) :
    WellFormedAs fmt e ↔ clean fmt e = true := by
  have hinst := exists_export_eq fmt nesting
  cases e with
  | inst selected depth inst => exact wellFormed_iff_of_run (run_classInstExport hinst selected depth inst [])
  | vars isConcise depth vars =>
      exact wellFormedInside_iff_of_run (run_attrVarsExport hinst isConcise depth vars [] (noValue_endObject _))
  | text text => exact wellFormed_iff_of_run (run_textExport hinst text [])

theorem spaced_iff_allFit (fmt : Format) {nesting : Nat} {e : Exported nesting} (h : clean fmt e = true) :
    Spaced pathSize (lexemes fmt e) ↔ AllFit fmt (levels fmt e) := by
  cases e with
  | inst selected depth inst => exact spaced_classInstExport fmt _ depth h
  | vars isConcise depth vars => exact spaced_attrVarsExport fmt _ isConcise depth h
  | text text => exact iff_of_true (spaced_textExport h) allFit_nil

/-- **JSON is written exactly for what is clean and has offsets that fit**, in every format and to every depth of
nesting. -/
theorem writesJson_iff (fmt : Format) {nesting : Nat} (e : Exported nesting) :
    WritesJson fmt e ↔ clean fmt e = true ∧ AllFit fmt (levels fmt e) := by
  rw [WritesJson, wellFormed_iff_clean]
  exact and_congr_right (spaced_iff_allFit fmt)

/-- A text of one paragraph with two sentences. -/
def twoSentences : Text (Inst 0) where
  seq := []
  locale := []
  trs := []
  pars := [[⟨GlossExports.bytes "a", none, .null⟩, ⟨GlossExports.bytes "b", none, .null⟩]]

/-- **There is no comma between two sentences.** -/
theorem not_writesJson_twoSentences : ¬ WritesJson { indent := 0, locale := [] } (.text twoSentences) := by
  intro h
  exact absurd ((wellFormed_iff_clean _ _).mp h.1) (by decide)

end Knowdy.ClassInstJson
