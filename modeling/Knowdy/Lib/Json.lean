import Mathlib.Data.List.Basic

/-! # JSON texts

A JSON text is given by its lexemes. `Grammar` says which texts are well formed; `run` is a recogniser with a stack,
whose simp set evaluates a run over a text that is written piece by piece.

* `escaped`, `scalar` — which strings and scalars may stand in a text.
* `Grammar` — the grammar; `WellFormed`, `WellFormedInside` — texts, and parts of objects.
* `wellFormed_iff` — the recogniser accepts the well-formed texts.
* `wellFormed_iff_of_run`, `wellFormedInside_iff_of_run` — a text that the recogniser accepts under a condition.
* `Spaced` — the pieces of white space in a text are short. -/

namespace Knowdy.Json

/-! ## (1) Strings and scalars -/

/-- Inside a string. -/
inductive InString
  /-- At a character. -/
  | plain
  /-- After a backslash. -/
  | backslash
  /-- Before the last digits of an escape by number, without the next one. -/
  | hex (left : Nat)
  deriving DecidableEq

/-- A hexadecimal digit. -/
def isHex (c : UInt8) : Bool := (48 ≤ c && c ≤ 57) || (65 ≤ c && c ≤ 70) || (97 ≤ c && c ≤ 102)

/-- One byte of a string. A quote or a control character ends it. -/
def InString.step : InString → UInt8 → Option InString
  | .plain, c => if c = 92 then some .backslash else if c = 34 ∨ c < 32 then none else some .plain
  | .backslash, c =>
      if c = 117 then some (.hex 3) else if c ∈ [34, 92, 47, 98, 102, 110, 114, 116] then some .plain else none
  | .hex 0, c => if isHex c then some .plain else none
  | .hex (left + 1), c => if isHex c then some (.hex left) else none

/-- **May a text stand between two quotes?** -/
def escaped (s : List UInt8) : Bool := s.foldlM InString.step .plain = some .plain

/-- Inside a number. -/
inductive InNumber
  | start | minus | zero | int | dot | frac | exp | sign | power
  deriving DecidableEq

/-- A decimal digit. -/
def isDigit (c : UInt8) : Bool := 48 ≤ c && c ≤ 57

/-- One byte of a number. -/
def InNumber.step : InNumber → UInt8 → Option InNumber
  | .start, c => if c = 45 then some .minus else if c = 48 then some .zero else if isDigit c then some .int else none
  | .minus, c => if c = 48 then some .zero else if isDigit c then some .int else none
  | .zero, c => if c = 46 then some .dot else if c = 101 ∨ c = 69 then some .exp else none
  | .int, c =>
      if isDigit c then some .int else if c = 46 then some .dot else if c = 101 ∨ c = 69 then some .exp else none
  | .dot, c => if isDigit c then some .frac else none
  | .frac, c => if isDigit c then some .frac else if c = 101 ∨ c = 69 then some .exp else none
  | .exp, c => if c = 43 ∨ c = 45 then some .sign else if isDigit c then some .power else none
  | .sign, c => if isDigit c then some .power else none
  | .power, c => if isDigit c then some .power else none

/-- **Is a text a number, `true`, `false` or `null`?** -/
def scalar (s : List UInt8) : Bool :=
  s.foldlM InNumber.step .start ∈ [some .zero, some .int, some .frac, some .power] ||
    s = [116, 114, 117, 101] || s = [102, 97, 108, 115, 101] || s = [110, 117, 108, 108]

/-! ## (2) The grammar -/

/-- **A lexeme.** -/
inductive Lexeme
  | beginObject | endObject | beginArray | endArray | comma | colon
  /-- A string: a text between two quotes. -/
  | str (content : List UInt8)
  /-- A number in decimals. -/
  | nat (n : Nat)
  /-- A text without quotes. -/
  | raw (text : List UInt8)
  /-- A quote that has no partner. -/
  | quote
  /-- White space. -/
  | space (text : List UInt8)
  deriving DecidableEq

/-- **As it is written.** -/
def Lexeme.bytes : Lexeme → List UInt8
  | beginObject => [123]
  | endObject => [125]
  | beginArray => [91]
  | endArray => [93]
  | comma => [44]
  | colon => [58]
  | str content => 34 :: (content ++ [34])
  | nat n => (Nat.toDigits 10 n).map fun c => UInt8.ofNat c.toNat
  | raw text => text
  | quote => [34]
  | space text => text

/-- Is a lexeme more than white space? -/
def Lexeme.significant : Lexeme → Bool
  | .space _ => false
  | _ => true

/-- What a list of lexemes is derived as. -/
inductive Part
  /-- A value. -/
  | value
  /-- The members of an object, at least one. -/
  | members
  /-- The elements of an array, at least one. -/
  | elements

/-- **The grammar.** -/
inductive Grammar : Part → List Lexeme → Prop
  | str {s : List UInt8} (h : escaped s = true) : Grammar .value [.str s]
  | nat (n : Nat) : Grammar .value [.nat n]
  | raw {s : List UInt8} (h : scalar s = true) : Grammar .value [.raw s]
  | emptyObject : Grammar .value [.beginObject, .endObject]
  | object {ms : List Lexeme} (h : Grammar .members ms) : Grammar .value (.beginObject :: (ms ++ [.endObject]))
  | emptyArray : Grammar .value [.beginArray, .endArray]
  | array {es : List Lexeme} (h : Grammar .elements es) : Grammar .value (.beginArray :: (es ++ [.endArray]))
  | member {k : List UInt8} {v : List Lexeme} (hk : escaped k = true) (hv : Grammar .value v) :
      Grammar .members (.str k :: .colon :: v)
  | members {k : List UInt8} {v ms : List Lexeme} (hk : escaped k = true) (hv : Grammar .value v)
      (h : Grammar .members ms) : Grammar .members (.str k :: .colon :: (v ++ .comma :: ms))
  | element {v : List Lexeme} (hv : Grammar .value v) : Grammar .elements v
  | elements {v es : List Lexeme} (hv : Grammar .value v) (h : Grammar .elements es) :
      Grammar .elements (v ++ .comma :: es)

/-- **A value.** -/
abbrev IsValue : List Lexeme → Prop := Grammar .value

/-- **The members of an object**, separated by commas. -/
abbrev IsMembers : List Lexeme → Prop := Grammar .members

/-- **The elements of an array**, separated by commas. -/
abbrev IsElements : List Lexeme → Prop := Grammar .elements

/-- **A JSON text.** -/
def WellFormed (l : List Lexeme) : Prop := IsValue (l.filter Lexeme.significant)

/-- **A part of an object**, after members of it. -/
def WellFormedInside (l : List Lexeme) : Prop :=
  ∀ ms, IsMembers ms → WellFormed (.beginObject :: (ms ++ (l ++ [.endObject])))

/-! ## (3) The recogniser -/

/-- What stands around a value. -/
inductive Frame
  | object | array
  deriving DecidableEq

/-- What comes next. Where it is inside an object or an array that is not on the stack, the name says so. -/
inductive Expect
  /-- A value. -/
  | value
  /-- The first element of an array, or its end. -/
  | element
  /-- The first member of an object, or its end. -/
  | member
  /-- A member of an object. -/
  | key
  /-- The colon of a member. -/
  | colon
  /-- What follows a value. -/
  | next
  deriving DecidableEq

/-- A configuration. -/
structure Config where
  /-- What comes next. -/
  expect : Expect
  /-- What stands around it. -/
  stack : List Frame
  deriving DecidableEq

/-- The first lexeme of a value. -/
def startValue (stack : List Frame) : Lexeme → Option Config
  | .str s => if escaped s then some ⟨.next, stack⟩ else none
  | .nat _ => some ⟨.next, stack⟩
  | .raw s => if scalar s then some ⟨.next, stack⟩ else none
  | .beginObject => some ⟨.member, stack⟩
  | .beginArray => some ⟨.element, stack⟩
  | _ => none

/-- The key of a member. -/
def startMember (stack : List Frame) : Lexeme → Option Config
  | .str k => if escaped k then some ⟨.colon, stack⟩ else none
  | _ => none

/-- After a value. -/
def continueAfter : List Frame → Lexeme → Option Config
  | .object :: stack, .comma => some ⟨.key, stack⟩
  | .object :: stack, .endObject => some ⟨.next, stack⟩
  | .array :: stack, .comma => some ⟨.value, .array :: stack⟩
  | .array :: stack, .endArray => some ⟨.next, stack⟩
  | _, _ => none

/-- **One lexeme**, that is not white space. -/
def step (c : Config) (x : Lexeme) : Option Config :=
  match c.expect with
  | .value => startValue c.stack x
  | .element => if x = .endArray then some ⟨.next, c.stack⟩ else startValue (.array :: c.stack) x
  | .member => if x = .endObject then some ⟨.next, c.stack⟩ else startMember c.stack x
  | .key => startMember c.stack x
  | .colon => if x = .colon then some ⟨.value, .object :: c.stack⟩ else none
  | .next => continueAfter c.stack x

/-- **The recogniser.** -/
def run (c : Config) : List Lexeme → Option Config
  | [] => some c
  | x :: l => if x.significant then (step c x).bind fun c' => run c' l else run c l

/-! ### Evaluation -/

section Evaluation

variable (stack : List Frame) (l : List Lexeme) (c : Config)

@[simp] theorem run_nil : run c [] = some c := (rfl)

@[simp] theorem run_space (s : List UInt8) : run c (.space s :: l) = run c l := (rfl)

/-- A lexeme with a condition. -/
theorem bind_ite {b : Bool} {c' : Config} {f : Config → Option Config} :
    (if b then some c' else none : Option Config).bind f = if b then f c' else none := by
  cases b <;> rfl

@[simp] theorem run_value_str (s : List UInt8) :
    run ⟨.value, stack⟩ (.str s :: l) = if escaped s then run ⟨.next, stack⟩ l else none := bind_ite

@[simp] theorem run_value_nat (n : Nat) : run ⟨.value, stack⟩ (.nat n :: l) = run ⟨.next, stack⟩ l := (rfl)

@[simp] theorem run_value_raw (s : List UInt8) :
    run ⟨.value, stack⟩ (.raw s :: l) = if scalar s then run ⟨.next, stack⟩ l else none := bind_ite

@[simp] theorem run_value_beginObject : run ⟨.value, stack⟩ (.beginObject :: l) = run ⟨.member, stack⟩ l := (rfl)

@[simp] theorem run_value_beginArray : run ⟨.value, stack⟩ (.beginArray :: l) = run ⟨.element, stack⟩ l := (rfl)

@[simp] theorem run_value_endObject : run ⟨.value, stack⟩ (.endObject :: l) = none := (rfl)

@[simp] theorem run_value_comma : run ⟨.value, stack⟩ (.comma :: l) = none := (rfl)

@[simp] theorem run_element_beginObject :
    run ⟨.element, stack⟩ (.beginObject :: l) = run ⟨.member, .array :: stack⟩ l := (rfl)

@[simp] theorem run_element_endArray : run ⟨.element, stack⟩ (.endArray :: l) = run ⟨.next, stack⟩ l := (rfl)

@[simp] theorem run_member_str (k : List UInt8) :
    run ⟨.member, stack⟩ (.str k :: l) = if escaped k then run ⟨.colon, stack⟩ l else none := bind_ite

@[simp] theorem run_member_endObject : run ⟨.member, stack⟩ (.endObject :: l) = run ⟨.next, stack⟩ l := (rfl)

@[simp] theorem run_member_raw (s : List UInt8) : run ⟨.member, stack⟩ (.raw s :: l) = none := (rfl)

@[simp] theorem run_key_str (k : List UInt8) :
    run ⟨.key, stack⟩ (.str k :: l) = if escaped k then run ⟨.colon, stack⟩ l else none := bind_ite

@[simp] theorem run_colon_colon : run ⟨.colon, stack⟩ (.colon :: l) = run ⟨.value, .object :: stack⟩ l := (rfl)

@[simp] theorem run_colon_endObject : run ⟨.colon, stack⟩ (.endObject :: l) = none := (rfl)

@[simp] theorem run_next_comma_object :
    run ⟨.next, .object :: stack⟩ (.comma :: l) = run ⟨.key, stack⟩ l := (rfl)

@[simp] theorem run_next_comma_array :
    run ⟨.next, .array :: stack⟩ (.comma :: l) = run ⟨.value, .array :: stack⟩ l := (rfl)

@[simp] theorem run_next_endObject :
    run ⟨.next, .object :: stack⟩ (.endObject :: l) = run ⟨.next, stack⟩ l := (rfl)

@[simp] theorem run_next_endArray :
    run ⟨.next, .array :: stack⟩ (.endArray :: l) = run ⟨.next, stack⟩ l := (rfl)

@[simp] theorem run_next_str (s : List UInt8) : run ⟨.next, stack⟩ (.str s :: l) = none := by
  cases stack with
  | nil => rfl
  | cons frame stack => cases frame <;> rfl

@[simp] theorem run_next_beginObject : run ⟨.next, stack⟩ (.beginObject :: l) = none := by
  cases stack with
  | nil => rfl
  | cons frame stack => cases frame <;> rfl

@[simp] theorem run_next_quote : run ⟨.next, stack⟩ (.quote :: l) = none := by
  cases stack with
  | nil => rfl
  | cons frame stack => cases frame <;> rfl

/-- **A text that does not begin with a value.** -/
def NoValue (l : List Lexeme) : Prop := ∀ stack, run ⟨.value, stack⟩ l = none

theorem noValue_comma : NoValue (.comma :: l) := fun _ => rfl

theorem noValue_endObject : NoValue (.endObject :: l) := fun _ => rfl

end Evaluation

/-! ### Accepted texts are values -/

/-- **What may follow a value**, for what stands around it. -/
inductive Tail : List Frame → List Lexeme → Prop
  | nil : Tail [] []
  | endObject {stack : List Frame} {l : List Lexeme} (h : Tail stack l) : Tail (.object :: stack) (.endObject :: l)
  | members {stack : List Frame} {ms l : List Lexeme} (hms : IsMembers ms) (h : Tail stack l) :
      Tail (.object :: stack) (.comma :: (ms ++ .endObject :: l))
  | endArray {stack : List Frame} {l : List Lexeme} (h : Tail stack l) : Tail (.array :: stack) (.endArray :: l)
  | elements {stack : List Frame} {es l : List Lexeme} (hes : IsElements es) (h : Tail stack l) :
      Tail (.array :: stack) (.comma :: (es ++ .endArray :: l))

/-- A value, and what follows it. -/
def ValueThen (stack : List Frame) (l : List Lexeme) : Prop :=
  ∃ v t, l = v ++ t ∧ IsValue v ∧ Tail stack t

/-- The members of an object up to its end, and what follows it. -/
def MembersThen (stack : List Frame) (l : List Lexeme) : Prop :=
  ∃ ms t, l = ms ++ .endObject :: t ∧ IsMembers ms ∧ Tail stack t

/-- The elements of an array up to its end, and what follows it. -/
def ElementsThen (stack : List Frame) (l : List Lexeme) : Prop :=
  ∃ es t, l = es ++ .endArray :: t ∧ IsElements es ∧ Tail stack t

/-- **What a configuration demands of a text.** -/
def Demands (c : Config) (l : List Lexeme) : Prop :=
  match c.expect with
  | .value => ValueThen c.stack l
  | .element => (∃ t, l = .endArray :: t ∧ Tail c.stack t) ∨ ElementsThen c.stack l
  | .member => (∃ t, l = .endObject :: t ∧ Tail c.stack t) ∨ MembersThen c.stack l
  | .key => MembersThen c.stack l
  | .colon => ∃ t, l = .colon :: t ∧ ValueThen (.object :: c.stack) t
  | .next => Tail c.stack l

variable {stack : List Frame} {c c' : Config} {l : List Lexeme} {x : Lexeme}

/-- A first member, and what follows its value. -/
theorem membersThen_of_valueThen {k : List UInt8} (hk : escaped k = true) (h : ValueThen (.object :: stack) l) :
    MembersThen stack (.str k :: .colon :: l) := by
  obtain ⟨v, t, rfl, hv, htail⟩ := h
  cases htail with
  | endObject htail => exact ⟨.str k :: .colon :: v, _, rfl, .member hk hv, htail⟩
  | members hms htail => exact ⟨.str k :: .colon :: (v ++ .comma :: _), _, by simp, .members hk hv hms, htail⟩

/-- A first element, and what follows it. -/
theorem elementsThen_of_valueThen (h : ValueThen (.array :: stack) l) : ElementsThen stack l := by
  obtain ⟨v, t, rfl, hv, htail⟩ := h
  cases htail with
  | endArray htail => exact ⟨v, _, rfl, .element hv, htail⟩
  | elements hes htail => exact ⟨v ++ .comma :: _, _, by simp, .elements hv hes, htail⟩

theorem valueThen_of_startValue (h : startValue stack x = some c') (hl : Demands c' l) : ValueThen stack (x :: l) := by
  cases x with
  | str s =>
      rw [startValue] at h
      split_ifs at h with hs
      obtain rfl := Option.some.inj h
      exact ⟨[.str s], l, rfl, .str hs, hl⟩
  | nat n =>
      obtain rfl := Option.some.inj h
      exact ⟨[.nat n], l, rfl, .nat n, hl⟩
  | raw s =>
      rw [startValue] at h
      split_ifs at h with hs
      obtain rfl := Option.some.inj h
      exact ⟨[.raw s], l, rfl, .raw hs, hl⟩
  | beginObject =>
      obtain rfl := Option.some.inj h
      rcases hl with ⟨t, rfl, htail⟩ | ⟨ms, t, rfl, hms, htail⟩
      · exact ⟨[.beginObject, .endObject], t, rfl, .emptyObject, htail⟩
      · exact ⟨.beginObject :: (ms ++ [.endObject]), t, by simp, .object hms, htail⟩
  | beginArray =>
      obtain rfl := Option.some.inj h
      rcases hl with ⟨t, rfl, htail⟩ | ⟨es, t, rfl, hes, htail⟩
      · exact ⟨[.beginArray, .endArray], t, rfl, .emptyArray, htail⟩
      · exact ⟨.beginArray :: (es ++ [.endArray]), t, by simp, .array hes, htail⟩
  | _ => cases h

theorem membersThen_of_startMember (h : startMember stack x = some c') (hl : Demands c' l) :
    MembersThen stack (x :: l) := by
  cases x with
  | str k =>
      rw [startMember] at h
      split_ifs at h with hk
      obtain rfl := Option.some.inj h
      obtain ⟨t, rfl, ht⟩ := hl
      exact membersThen_of_valueThen hk ht
  | _ => cases h

/-- **One step back**: a text that meets the demand after a lexeme meets the one before it. -/
theorem demands_of_step (h : step c x = some c') (hl : Demands c' l) : Demands c (x :: l) := by
  obtain ⟨expect, stack⟩ := c
  cases expect with
  | value => exact valueThen_of_startValue h hl
  | element =>
      change (if x = .endArray then some ⟨.next, stack⟩ else startValue (.array :: stack) x) = some c' at h
      split_ifs at h with hend
      · subst hend
        obtain rfl := Option.some.inj h
        exact .inl ⟨l, rfl, hl⟩
      · exact .inr (elementsThen_of_valueThen (valueThen_of_startValue h hl))
  | member =>
      change (if x = .endObject then some ⟨.next, stack⟩ else startMember stack x) = some c' at h
      split_ifs at h with hend
      · subst hend
        obtain rfl := Option.some.inj h
        exact .inl ⟨l, rfl, hl⟩
      · exact .inr (membersThen_of_startMember h hl)
  | key => exact membersThen_of_startMember h hl
  | colon =>
      change (if x = .colon then some ⟨.value, .object :: stack⟩ else none) = some c' at h
      split_ifs at h with hcolon
      subst hcolon
      obtain rfl := Option.some.inj h
      exact ⟨l, rfl, hl⟩
  | next =>
      change continueAfter stack x = some c' at h
      cases stack with
      | nil => cases h
      | cons frame stack =>
          cases frame <;> cases x <;> cases h
          · exact .endObject hl
          · obtain ⟨ms, t, rfl, hms, htail⟩ := hl
            exact .members hms htail
          · exact .endArray hl
          · obtain ⟨es, t, rfl, hes, htail⟩ := elementsThen_of_valueThen hl
            exact .elements hes htail

/-- **An accepted text** meets the demand of its configuration. -/
theorem demands_of_run (h : run c l = some ⟨.next, []⟩) : Demands c (l.filter Lexeme.significant) := by
  induction l generalizing c with
  | nil =>
      obtain rfl := Option.some.inj h
      exact .nil
  | cons x l ih =>
      rw [run] at h
      by_cases hx : x.significant = true
      · rw [if_pos hx, Option.bind_eq_some_iff] at h
        obtain ⟨c', hstep, hrun⟩ := h
        rw [List.filter_cons_of_pos hx]
        exact demands_of_step hstep (ih hrun)
      · rw [if_neg hx] at h
        rw [List.filter_cons_of_neg hx]
        exact ih h

/-! ### Values are accepted -/

/-- A value at the beginning of an array. -/
theorem run_element_of_isValue {v : List Lexeme} (h : IsValue v) (stack : List Frame) (l : List Lexeme) :
    run ⟨.element, stack⟩ (v ++ l) = run ⟨.value, .array :: stack⟩ (v ++ l) := by
  cases h <;> rfl

/-- Elements at the beginning of an array. -/
theorem run_element_of_isElements {es : List Lexeme} (h : IsElements es) (stack : List Frame) (l : List Lexeme) :
    run ⟨.element, stack⟩ (es ++ l) = run ⟨.value, .array :: stack⟩ (es ++ l) := by
  cases h with
  | element hv => exact run_element_of_isValue hv stack l
  | elements hv hes =>
      rw [List.append_assoc]
      exact run_element_of_isValue hv stack _

/-- Members at the beginning of an object. -/
theorem run_member_of_isMembers {ms : List Lexeme} (h : IsMembers ms) (stack : List Frame) (l : List Lexeme) :
    run ⟨.member, stack⟩ (ms ++ l) = run ⟨.key, stack⟩ (ms ++ l) := by
  cases h <;> rfl

/-- The configuration before a part. -/
def Part.before (stack : List Frame) : Part → Config
  | .value => ⟨.value, stack⟩
  | .members => ⟨.key, stack⟩
  | .elements => ⟨.value, .array :: stack⟩

/-- The configuration behind a part. -/
def Part.behind (stack : List Frame) : Part → Config
  | .value => ⟨.next, stack⟩
  | .members => ⟨.next, .object :: stack⟩
  | .elements => ⟨.next, .array :: stack⟩

/-- **A derived part** takes the recogniser behind it. -/
theorem run_of_grammar {part : Part} {p : List Lexeme} (h : Grammar part p) (stack : List Frame) (l : List Lexeme) :
    run (part.before stack) (p ++ l) = run (part.behind stack) l := by
  induction h generalizing stack l with
  | str hs => exact (run_value_str stack l _).trans (if_pos hs)
  | nat n => rfl
  | raw hs => exact (run_value_raw stack l _).trans (if_pos hs)
  | emptyObject => rfl
  | object hms ih =>
      rw [Part.before, Part.behind, List.cons_append, List.append_assoc, run_value_beginObject,
        run_member_of_isMembers hms]
      exact ih stack (.endObject :: l)
  | emptyArray => rfl
  | array hes ih =>
      rw [Part.before, Part.behind, List.cons_append, List.append_assoc, run_value_beginArray,
        run_element_of_isElements hes]
      exact ih stack (.endArray :: l)
  | member hk hv ih =>
      rw [Part.before, List.cons_append, List.cons_append, run_key_str, if_pos hk, run_colon_colon]
      exact ih (.object :: stack) l
  | members hk hv hms ihv ihms =>
      rw [Part.before, List.cons_append, List.cons_append, List.append_assoc, run_key_str, if_pos hk, run_colon_colon]
      exact (ihv (.object :: stack) _).trans (ihms stack l)
  | element hv ih => exact ih (.array :: stack) l
  | elements hv hes ihv ihes =>
      rw [List.append_assoc]
      exact (ihv (.array :: stack) _).trans (ihes stack l)

/-! ### Well-formed texts -/

theorem run_filter (c : Config) (l : List Lexeme) : run c (l.filter Lexeme.significant) = run c l := by
  induction l generalizing c with
  | nil => rfl
  | cons x l ih =>
      by_cases hx : x.significant = true
      · rw [List.filter_cons_of_pos hx, run, run, if_pos hx, if_pos hx]
        exact congrArg _ (funext ih)
      · rw [List.filter_cons_of_neg hx, run, if_neg hx, ih]

/-- **The recogniser accepts the well-formed texts.** -/
theorem wellFormed_iff : WellFormed l ↔ run ⟨.value, []⟩ l = some ⟨.next, []⟩ := by
  constructor
  · intro h
    have hrun := run_of_grammar h [] []
    rw [List.append_nil, run_filter] at hrun
    exact hrun
  · intro h
    obtain ⟨v, t, hl, hv, htail⟩ := demands_of_run h
    obtain rfl : t = [] := by cases htail; rfl
    rw [List.append_nil] at hl
    rw [WellFormed, hl]
    exact hv

/-- **A text that the recogniser accepts under a condition.** -/
theorem wellFormed_iff_of_run {b : Bool}
    (h : ∀ rest, run ⟨.value, []⟩ (l ++ rest) = if b then run ⟨.next, []⟩ rest else none) :
    WellFormed l ↔ b = true := by
  have hrun := h []
  rw [List.append_nil, run_nil] at hrun
  rw [wellFormed_iff, hrun]
  cases b with
  | false => exact iff_of_false (Option.some_ne_none _).symm Bool.false_ne_true
  | true => exact iff_of_true rfl rfl

/-- **A part of an object** that the recogniser accepts under a condition, up to the end of the object. -/
theorem wellFormedInside_iff_of_run {b : Bool}
    (h : run ⟨.next, [.object]⟩ (l ++ [.endObject]) = if b then some ⟨.next, []⟩ else none) :
    WellFormedInside l ↔ b = true := by
  have hobject : ∀ ms, IsMembers ms →
      run ⟨.value, []⟩ (.beginObject :: (ms ++ (l ++ [.endObject]))) = if b then some ⟨.next, []⟩ else none := by
    intro ms hms
    rw [run_value_beginObject, run_member_of_isMembers hms]
    exact (run_of_grammar hms [] _).trans h
  constructor
  · intro hinside
    have hms : IsMembers [.str [], .colon, .nat 0] := .member rfl (.nat 0)
    have hrun := wellFormed_iff.mp (hinside _ hms)
    rw [hobject _ hms] at hrun
    cases b with
    | false => exact absurd hrun (Option.some_ne_none _).symm
    | true => rfl
  · rintro rfl ms hms
    exact wellFormed_iff.mpr (hobject ms hms)

/-! ## (4) White space -/

/-- White space is no longer than `max`. -/
@[simp] def Lexeme.Fits (max : Nat) : Lexeme → Prop
  | .space s => s.length ≤ max
  | _ => True

/-- **Each piece of white space is no longer than `max`.** -/
def Spaced (max : Nat) (l : List Lexeme) : Prop := ∀ x ∈ l, x.Fits max

variable {max : Nat}

@[simp] theorem spaced_nil : Spaced max [] := fun _ hx => absurd hx List.not_mem_nil

@[simp] theorem spaced_cons : Spaced max (x :: l) ↔ x.Fits max ∧ Spaced max l := List.forall_mem_cons

@[simp] theorem spaced_append {l' : List Lexeme} : Spaced max (l ++ l') ↔ Spaced max l ∧ Spaced max l' :=
  List.forall_mem_append

theorem spaced_flatMap {α : Type} {as : List α} {f : α → List Lexeme} :
    Spaced max (as.flatMap f) ↔ ∀ a ∈ as, Spaced max (f a) := by
  simp only [Spaced, List.mem_flatMap]
  exact ⟨fun h a ha x hx => h x ⟨a, ha, hx⟩, fun h x ⟨a, ha, hx⟩ => h a ha x hx⟩

end Knowdy.Json
