import Knowdy.KndSet
import Knowdy.Lib.Checked

/-! # Query clauses

`knd_class_match_query` of `knd_class.select.c` goes through the clauses of a query, and may leave its loop at each of
them: some exits are right for `AND` only, some for no connective. Where the class does not have the attribute of a
clause, `knd_log` is given four conversions and two arguments.

* `kndAttrVarMatch`, `kndClassMatchQuery` — the code.
* `Holds`, `Satisfied` — the meaning of a clause and of a query.
* `Plain` — a number other than zero, about an attribute with a value.
* `Settled` — what a clause that is not plain and the clauses after it must be, for the exit there to be right.
* `Answers`, `matches_iff` — the answer is right, if and only if the first clause that is not plain is settled, where
  the loop comes to it. -/

namespace Knowdy.ClassMatch

/-! ## (1) The code -/

/-- `knd_logic_t`. -/
inductive Logic
  /-- `KND_LOGIC_AND`. -/
  | and
  /-- `KND_LOGIC_OR`. -/
  | or
  /-- `KND_LOGIC_NOT`. -/
  | not
deriving DecidableEq

/-- **`struct kndAttrVar`**, as a value of a class and as a clause. -/
structure AttrVar where
  /-- `attr->id`. -/
  attrId : List UInt8
  /-- `val`: a null pointer, or a text. -/
  val : Option (List UInt8) := none
  /-- `numval`. -/
  numval : Int := 0

/-- `struct kndAttrRef`. -/
structure AttrRef where
  /-- `attr_var`. -/
  attrVar : Option AttrVar := none

/-- `struct kndClass`. -/
structure KndClass where
  /-- `attr_idx`. -/
  attrIdx : KndSet AttrRef := {}

/-- A query: a `struct kndAttrVar` whose children are the clauses. -/
structure Query where
  /-- `logic`. -/
  logic : Logic
  /-- `children`. -/
  children : List AttrVar

/-- **`knd_attr_var_match`.** -/
def kndAttrVarMatch (self query : AttrVar) : Except KndErr Unit :=
  if self.numval ≠ query.numval then .error .noMatch else .ok ()

/-- What `vprintf` cannot do. -/
inductive LogFault
  /-- A conversion `%.*s` has no length and no string. -/
  | noArgument
deriving DecidableEq

/-- The loop of `knd_class_match_query`, and what is after it. -/
def matchChildren (self : KndClass) (logic : Logic) : List AttrVar → Checked KndErr LogFault Unit
  | [] => if logic = .or then .err .noMatch else .ok ()
  | attrVar :: next =>
      match kndSetGet self.attrIdx attrVar.attrId with
      -- the arguments of `knd_log` are the name of the class, and nothing for the second `%.*s`
      | .error _ => .fault .noArgument
      | .ok attrRef =>
          match attrRef.attrVar with
          | none => .ok ()
          | some var =>
              -- a null value is said to be expected here
              if attrVar.val = none ∨ attrVar.numval = 0 then .err .noMatch
              else if kndAttrVarMatch var attrVar = .error .noMatch then
                if logic = .and then .err .noMatch else matchChildren self logic next
              else if logic = .or then .ok ()
              else matchChildren self logic next

/-- **`knd_class_match_query`.** -/
def kndClassMatchQuery (self : KndClass) (query : Query) : Checked KndErr LogFault Unit :=
  matchChildren self query.logic query.children

/-! ## (2) The meaning -/

variable (self : KndClass) (logic : Logic)

/-- **A clause holds**: a null clause if there is no value, and a number if it is the value. -/
def Holds (clause : AttrVar) : Prop :=
  ∃ attrRef, kndSetGet self.attrIdx clause.attrId = .ok attrRef ∧
    if clause.val = none then attrRef.attrVar = none
    else ∃ var, attrRef.attrVar = some var ∧ var.numval = clause.numval

/-- **The clauses of a query are satisfied**: some of them, or all of them. -/
def Satisfied (clauses : List AttrVar) : Prop :=
  if logic = .or then ∃ clause ∈ clauses, Holds self clause else ∀ clause ∈ clauses, Holds self clause

/-- **There is an answer, and it is right.** -/
def Matches (query : Query) : Prop :=
  (∀ fault, kndClassMatchQuery self query ≠ .fault fault) ∧
    (kndClassMatchQuery self query = .ok () ↔ Satisfied self query.logic query.children)

/-- **A plain clause**: a number other than zero, about an attribute that has a value. -/
def Plain (clause : AttrVar) : Prop :=
  ∃ attrRef, kndSetGet self.attrIdx clause.attrId = .ok attrRef ∧ attrRef.attrVar.isSome ∧
    clause.val ≠ none ∧ clause.numval ≠ 0

/-- The loop goes on after a plain clause. -/
def Passed (clause : AttrVar) : Prop := Plain self clause ∧ (Holds self clause ↔ logic ≠ .or)

/-- **A clause that is not plain is settled** with the clauses after it. -/
def Settled (clause : AttrVar) (next : List AttrVar) : Prop :=
  match kndSetGet self.attrIdx clause.attrId with
  | .error _ =>
      -- there is no answer
      False
  | .ok attrRef =>
      match attrRef.attrVar with
      | none =>
          -- the answer is that the query is satisfied
          if logic = .or then clause.val = none ∨ ∃ other ∈ next, Holds self other
          else clause.val = none ∧ ∀ other ∈ next, Holds self other
      | some var =>
          -- the answer is that it is not
          if logic = .or then (clause.val ≠ none → var.numval ≠ 0) ∧ ∀ other ∈ next, ¬Holds self other
          else clause.val ≠ none → var.numval = 0 → ∃ other ∈ next, ¬Holds self other

/-- **Where the loop comes to a clause that is not plain**, this one is settled. -/
def AllSettled (clauses : List AttrVar) : Prop :=
  ∀ before clause next, clauses = before ++ clause :: next → (∀ other ∈ before, Passed self logic other) →
    ¬Plain self clause → Settled self logic clause next

variable {self logic} {clause var : AttrVar} {attrRef : AttrRef} {err : KndErr} {next : List AttrVar}

theorem satisfied_cons_or (hlogic : logic = .or) :
    Satisfied self logic (clause :: next) ↔ Holds self clause ∨ Satisfied self logic next := by
  rw [Satisfied, Satisfied, if_pos hlogic, if_pos hlogic, List.exists_mem_cons_iff]

theorem satisfied_cons_and (hlogic : logic ≠ .or) :
    Satisfied self logic (clause :: next) ↔ Holds self clause ∧ Satisfied self logic next := by
  rw [Satisfied, Satisfied, if_neg hlogic, if_neg hlogic, List.forall_mem_cons]

/-- **The first clause, and those after it** if the loop goes on. -/
theorem allSettled_cons : AllSettled self logic (clause :: next) ↔
    (¬Plain self clause → Settled self logic clause next) ∧
      (Passed self logic clause → AllSettled self logic next) := by
  constructor
  · intro h
    refine ⟨fun hplain => h [] clause next rfl (fun _ hother => absurd hother List.not_mem_nil) hplain, ?_⟩
    intro hpassed before other after hnext hbefore
    exact h (clause :: before) other after (by rw [hnext, List.cons_append])
      (List.forall_mem_cons.mpr ⟨hpassed, hbefore⟩)
  · rintro ⟨hfirst, hrest⟩ before other after hsplit hbefore hplain
    cases before with
    | nil =>
        obtain ⟨rfl, rfl⟩ := List.cons.inj hsplit
        exact hfirst hplain
    | cons b before =>
        obtain ⟨rfl, rfl⟩ := List.cons.inj hsplit
        obtain ⟨hpassed, hbefore⟩ := List.forall_mem_cons.mp hbefore
        exact hrest hpassed before other after rfl hbefore hplain

/-! ## (3) The exits -/

/-! ### An attribute that is not there -/

theorem matchChildren_of_error (hget : kndSetGet self.attrIdx clause.attrId = .error err) :
    matchChildren self logic (clause :: next) = .fault .noArgument := by
  rw [matchChildren, hget]

theorem not_settled_of_error (hget : kndSetGet self.attrIdx clause.attrId = .error err) :
    ¬Settled self logic clause next := by
  rw [Settled, hget]
  exact id

/-! ### An attribute without a value -/

theorem holds_of_none (hget : kndSetGet self.attrIdx clause.attrId = .ok attrRef) (hvar : attrRef.attrVar = none) :
    Holds self clause ↔ clause.val = none := by
  constructor
  · rintro ⟨attrRef', hok, hholds⟩
    obtain rfl := Except.ok.inj (hget.symm.trans hok)
    by_contra hval
    rw [if_neg hval] at hholds
    obtain ⟨var, hsome, -⟩ := hholds
    exact Option.some_ne_none var (hsome.symm.trans hvar)
  · intro hval
    exact ⟨attrRef, hget, by rw [if_pos hval]; exact hvar⟩

theorem matchChildren_of_none (hget : kndSetGet self.attrIdx clause.attrId = .ok attrRef)
    (hvar : attrRef.attrVar = none) : matchChildren self logic (clause :: next) = .ok () := by
  rw [matchChildren, hget]
  simp only [hvar]

theorem settled_of_none (hget : kndSetGet self.attrIdx clause.attrId = .ok attrRef)
    (hvar : attrRef.attrVar = none) :
    Settled self logic clause next ↔
      if logic = .or then clause.val = none ∨ ∃ other ∈ next, Holds self other
      else clause.val = none ∧ ∀ other ∈ next, Holds self other := by
  rw [Settled, hget]
  simp only [hvar]

/-! ### An attribute with a value -/

theorem holds_of_some (hget : kndSetGet self.attrIdx clause.attrId = .ok attrRef)
    (hvar : attrRef.attrVar = some var) :
    Holds self clause ↔ clause.val ≠ none ∧ var.numval = clause.numval := by
  constructor
  · rintro ⟨attrRef', hok, hholds⟩
    obtain rfl := Except.ok.inj (hget.symm.trans hok)
    by_cases hval : clause.val = none
    · rw [if_pos hval] at hholds
      exact absurd (hvar.symm.trans hholds) (Option.some_ne_none var)
    · rw [if_neg hval] at hholds
      obtain ⟨var', hsome, hnum⟩ := hholds
      obtain rfl := Option.some.inj (hvar.symm.trans hsome)
      exact ⟨hval, hnum⟩
  · rintro ⟨hval, hnum⟩
    exact ⟨attrRef, hget, by rw [if_neg hval]; exact ⟨var, hvar, hnum⟩⟩

/-- Null or zero. -/
theorem matchChildren_of_null (hget : kndSetGet self.attrIdx clause.attrId = .ok attrRef)
    (hvar : attrRef.attrVar = some var) (hnull : clause.val = none ∨ clause.numval = 0) :
    matchChildren self logic (clause :: next) = .err .noMatch := by
  rw [matchChildren, hget]
  simp only [hvar, if_pos hnull]

theorem settled_of_some (hget : kndSetGet self.attrIdx clause.attrId = .ok attrRef)
    (hvar : attrRef.attrVar = some var) :
    Settled self logic clause next ↔
      if logic = .or then (clause.val ≠ none → var.numval ≠ 0) ∧ ∀ other ∈ next, ¬Holds self other
      else clause.val ≠ none → var.numval = 0 → ∃ other ∈ next, ¬Holds self other := by
  rw [Settled, hget]
  simp only [hvar]

/-- A plain clause that holds. -/
theorem matchChildren_of_holds (hplain : Plain self clause) (hholds : Holds self clause) :
    matchChildren self logic (clause :: next) = if logic = .or then .ok () else matchChildren self logic next := by
  obtain ⟨attrRef, hget, hsome, hval, hnum⟩ := hplain
  obtain ⟨var, hvar⟩ := Option.isSome_iff_exists.mp hsome
  have hnull : ¬(clause.val = none ∨ clause.numval = 0) := not_or.mpr ⟨hval, hnum⟩
  have heq := ((holds_of_some hget hvar).mp hholds).2
  have hmatch : kndAttrVarMatch var clause ≠ .error .noMatch := by
    rw [kndAttrVarMatch, if_neg (not_not.mpr heq)]
    simp
  rw [matchChildren, hget]
  simp only [hvar, if_neg hnull, if_neg hmatch]

/-- A plain clause that does not hold. -/
theorem matchChildren_of_not_holds (hplain : Plain self clause) (hholds : ¬Holds self clause) :
    matchChildren self logic (clause :: next) =
      if logic = .and then .err .noMatch else matchChildren self logic next := by
  obtain ⟨attrRef, hget, hsome, hval, hnum⟩ := hplain
  obtain ⟨var, hvar⟩ := Option.isSome_iff_exists.mp hsome
  have hnull : ¬(clause.val = none ∨ clause.numval = 0) := not_or.mpr ⟨hval, hnum⟩
  have hne : var.numval ≠ clause.numval := fun heq => hholds ((holds_of_some hget hvar).mpr ⟨hval, heq⟩)
  have hmatch : kndAttrVarMatch var clause = .error .noMatch := if_pos hne
  rw [matchChildren, hget]
  simp only [hvar, if_neg hnull, if_pos hmatch]

/-- **A plain clause** that does not decide the query: the loop goes on. -/
theorem matchChildren_of_passed (hpassed : Passed self logic clause) :
    matchChildren self logic (clause :: next) = matchChildren self logic next := by
  obtain ⟨hplain, hpass⟩ := hpassed
  by_cases hholds : Holds self clause
  · rw [matchChildren_of_holds hplain hholds, if_neg (hpass.mp hholds)]
  · have hor : logic = .or := not_not.mp (mt hpass.mpr hholds)
    rw [matchChildren_of_not_holds hplain hholds, if_neg (by rw [hor]; decide)]

/-- A result of the loop that is right for the clauses. -/
def Answers (res : Checked KndErr LogFault Unit) (satisfied : Prop) : Prop :=
  (∀ fault, res ≠ .fault fault) ∧ (res = .ok () ↔ satisfied)

theorem answers_ok {satisfied : Prop} : Answers (.ok ()) satisfied ↔ satisfied := by
  simp [Answers]

theorem answers_err {satisfied : Prop} : Answers (.err err) satisfied ↔ ¬satisfied := by
  simp [Answers]

theorem not_answers_fault {fault : LogFault} {satisfied : Prop} : ¬Answers (.fault fault) satisfied :=
  fun h => h.1 fault rfl

/-- **A plain clause** that decides it: the loop ends. -/
theorem answers_of_decides (hplain : Plain self clause) (hpass : ¬(Holds self clause ↔ logic ≠ .or))
    (hlogic : logic ≠ .not) : Answers (matchChildren self logic (clause :: next)) (Holds self clause) := by
  by_cases hholds : Holds self clause
  · have hor : logic = .or := by
      by_contra hor
      exact hpass (iff_of_true hholds hor)
    rw [matchChildren_of_holds hplain hholds, if_pos hor, answers_ok]
    exact hholds
  · have hand : logic = .and := by
      cases logic with
      | and => rfl
      | or => exact absurd (iff_of_false hholds (not_not.mpr rfl)) hpass
      | not => exact absurd rfl hlogic
    rw [matchChildren_of_not_holds hplain hholds, if_pos hand, answers_err]
    exact hholds

/-! ## (4) The answer -/

/-- **The loop ends at a clause that is not plain**, and is right if this one is settled. -/
theorem matches_of_not_plain (hplain : ¬Plain self clause) :
    Answers (matchChildren self logic (clause :: next)) (Satisfied self logic (clause :: next)) ↔
      Settled self logic clause next := by
  cases hget : kndSetGet self.attrIdx clause.attrId with
  | error err =>
      rw [matchChildren_of_error hget]
      exact iff_of_false not_answers_fault (not_settled_of_error hget)
  | ok attrRef =>
      cases hvar : attrRef.attrVar with
      | none =>
          rw [matchChildren_of_none hget hvar, answers_ok, settled_of_none hget hvar]
          by_cases hor : logic = .or
          · rw [satisfied_cons_or hor, Satisfied, if_pos hor, if_pos hor, holds_of_none hget hvar]
          · rw [satisfied_cons_and hor, Satisfied, if_neg hor, if_neg hor, holds_of_none hget hvar]
      | some var =>
          have hnull : clause.val = none ∨ clause.numval = 0 := by
            by_contra hnull
            obtain ⟨hval, hnum⟩ := not_or.mp hnull
            exact hplain ⟨attrRef, hget, by rw [hvar]; rfl, hval, hnum⟩
          have hholds : Holds self clause ↔ clause.val ≠ none ∧ var.numval = 0 := by
            rw [holds_of_some hget hvar]
            refine and_congr_right fun hval => ?_
            rw [hnull.resolve_left hval]
          rw [matchChildren_of_null hget hvar hnull, answers_err, settled_of_some hget hvar]
          by_cases hor : logic = .or
          · rw [satisfied_cons_or hor, Satisfied, if_pos hor, if_pos hor, hholds]
            simp
          · rw [satisfied_cons_and hor, Satisfied, if_neg hor, if_neg hor, hholds]
            simp

/-- **When a query is answered right.** It is, if and only if the first clause that is not plain is settled with the
clauses after it, where the loop comes to it. -/
theorem matches_iff (self : KndClass) (query : Query) (hlogic : query.logic ≠ .not) :
    Matches self query ↔ AllSettled self query.logic query.children := by
  obtain ⟨logic, children⟩ := query
  show Answers (matchChildren self logic children) (Satisfied self logic children) ↔ AllSettled self logic children
  induction children with
  | nil =>
      refine iff_of_true ?_ ?_
      · rw [matchChildren, Satisfied]
        by_cases hor : logic = .or
        · rw [if_pos hor, if_pos hor, answers_err]
          simp
        · rw [if_neg hor, if_neg hor, answers_ok]
          simp
      · intro before clause next hnil
        exact absurd hnil (by simp)
  | cons clause children ih =>
      rw [allSettled_cons]
      by_cases hplain : Plain self clause
      · by_cases hpass : Holds self clause ↔ logic ≠ .or
        · -- the loop goes on, and the clause says nothing about the query
          have hsat : Satisfied self logic (clause :: children) ↔ Satisfied self logic children := by
            by_cases hor : logic = .or
            · rw [satisfied_cons_or hor]
              simp [hpass, hor]
            · rw [satisfied_cons_and hor]
              simp [hpass, hor]
          rw [matchChildren_of_passed ⟨hplain, hpass⟩, hsat, ih hlogic]
          exact ⟨fun h => ⟨fun hnot => absurd hplain hnot, fun _ => h⟩, fun h => h.2 ⟨hplain, hpass⟩⟩
        · -- the clause decides the query
          have hsat : Satisfied self logic (clause :: children) ↔ Holds self clause := by
            by_cases hor : logic = .or
            · have hholds : Holds self clause := by
                by_contra hholds
                exact hpass (iff_of_false hholds (not_not.mpr hor))
              rw [satisfied_cons_or hor]
              simp [hholds]
            · have hholds : ¬Holds self clause := fun hholds => hpass (iff_of_true hholds hor)
              rw [satisfied_cons_and hor]
              simp [hholds]
          rw [hsat]
          refine iff_of_true (answers_of_decides hplain hpass hlogic) ⟨?_, ?_⟩
          · exact fun hnot => absurd hplain hnot
          · exact fun h => absurd h.2 hpass
      · rw [matches_of_not_plain hplain]
        exact ⟨fun h => ⟨fun _ => h, fun hpassed => absurd hpassed.1 hplain⟩, fun h => h.1 hplain⟩

/-! ### Two classes -/

/-- A class with an attribute of id `1`, and a value or none. -/
def classWith (attrVar : Option AttrVar) : KndClass :=
  { attrIdx := (kndSetAdd {} [49] { attrVar }).2 }

/-- The number `5` of it. -/
def five : AttrVar := { attrId := [49], val := some [53], numval := 5 }

/-- A class with the value `5`. -/
theorem matches_iff_five :
    Matches (classWith (some five)) ⟨.or, [five]⟩ ↔ AllSettled (classWith (some five)) .or [five] :=
  matches_iff (classWith (some five)) ⟨.or, [five]⟩ (by decide)

/-- **A class without a value** is said to match. -/
theorem not_matches_no_value : ¬Matches (classWith none) ⟨.and, [five]⟩ := by
  intro h
  have hget : kndSetGet (classWith none).attrIdx five.attrId = .ok { attrVar := none } := rfl
  have hok : kndClassMatchQuery (classWith none) ⟨.and, [five]⟩ = .ok () := matchChildren_of_none hget rfl
  have hholds := h.2.mp hok five (List.mem_cons_self ..)
  exact absurd ((holds_of_none hget rfl).mp hholds) (by decide)

end Knowdy.ClassMatch
