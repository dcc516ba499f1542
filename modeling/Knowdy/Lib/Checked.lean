import Mathlib.Data.List.FinRange
import Mathlib.Data.List.Forall2

/-! # Checked executions of imperative code

A computation over raw memory ends in one of three ways: it returns a value, it returns one of the
error codes of its interface, or it performs an operation with no defined meaning (a read outside a
buffer, a size subtraction below zero, …). `Checked ε φ α` keeps the three apart.

* `Checked` — the result type, with its `Monad` and `LawfulMonad` instances.
* `require`, `ensure` — the guards that raise a fault and an error code.
* `Faultless`, `Cut` — runs without a fault; a run that does what another does until it returns an error.
* `bind_eq_err` — where an error comes from.
* `Ensures` — what a returned value satisfies, with the rules of sequencing and of loops.
* `mapM_eq_ok_iff`, `exists_mapM_iff` — loops that collect one value from each item.
* `foldlM_concat_state`, `foldlM_range_eq`, `foldlM_finRange_eq`, `foldlM_option` — the rules by
  which an index loop over a buffer is replaced by a fold over the records it holds. -/

namespace Knowdy

/-- **Result of a checked execution**: a value, an error code of the interface, or a fault. -/
inductive Checked (ε φ α : Type) where
  /-- Normal return. -/
  | ok (a : α)
  /-- An error code was returned to the caller. -/
  | err (e : ε)
  /-- An undefined operation was about to be performed. -/
  | fault (f : φ)
  deriving DecidableEq, Repr

namespace Checked

variable {ε φ α β : Type}

/-- Sequencing: the first error or fault ends the run. -/
def bind : Checked ε φ α → (α → Checked ε φ β) → Checked ε φ β
  | .ok a, k => k a
  | .err e, _ => .err e
  | .fault f, _ => .fault f

instance : Monad (Checked ε φ) where
  pure := .ok
  bind := bind

@[simp] theorem pure_eq (a : α) : (pure a : Checked ε φ α) = .ok a := rfl

@[simp] theorem ok_bind (a : α) (k : α → Checked ε φ β) : (Checked.ok a >>= k) = k a := rfl

@[simp] theorem err_bind (e : ε) (k : α → Checked ε φ β) :
    ((.err e : Checked ε φ α) >>= k) = .err e := rfl

@[simp] theorem fault_bind (f : φ) (k : α → Checked ε φ β) :
    ((.fault f : Checked ε φ α) >>= k) = .fault f := rfl

instance : LawfulMonad (Checked ε φ) :=
  LawfulMonad.mk' _ (fun x => by cases x <;> rfl) (fun _ _ => rfl)
    (fun x _ _ => by cases x <;> rfl)

/-- Go on only if `p` holds; otherwise the operation is undefined. -/
def require (f : φ) (p : Prop) [Decidable p] : Checked ε φ Unit := if p then .ok () else .fault f

/-- Go on only if `p` holds; otherwise return the error code `e`. -/
def ensure (e : ε) (p : Prop) [Decidable p] : Checked ε φ Unit := if p then .ok () else .err e

theorem require_of {f : φ} {p : Prop} [Decidable p] (h : p) :
    (require f p : Checked ε φ Unit) = .ok () := if_pos h

theorem ensure_of {e : ε} {p : Prop} [Decidable p] (h : p) :
    (ensure e p : Checked ε φ Unit) = .ok () := if_pos h

theorem ensure_of_not {e : ε} {p : Prop} [Decidable p] (h : ¬p) :
    (ensure e p : Checked ε φ Unit) = .err e := if_neg h

theorem require_of_not {f : φ} {p : Prop} [Decidable p] (h : ¬p) :
    (require f p : Checked ε φ Unit) = .fault f := if_neg h

theorem ensure_eq_err {e e' : ε} {p : Prop} [Decidable p] :
    (ensure e p : Checked ε φ Unit) = .err e' ↔ ¬p ∧ e = e' := by
  by_cases h : p
  · simp [ensure, h]
  · simp [ensure, h]

theorem require_ne_err {f : φ} {e : ε} {p : Prop} [Decidable p] :
    (require f p : Checked ε φ Unit) ≠ .err e := by
  by_cases h : p
  · simp [require, h]
  · simp [require, h]

/-- **No undefined operation** is performed. -/
def Faultless (x : Checked ε φ α) : Prop := ∀ f, x ≠ .fault f

/-- A value is returned. -/
def Returns (x : Checked ε φ α) : Prop := ∃ a, x = .ok a

instance (x : Checked ε φ α) : Decidable (Returns x) :=
  match x with
  | .ok a => isTrue ⟨a, rfl⟩
  | .err _ => isFalse fun h => by obtain ⟨a, ha⟩ := h; cases ha
  | .fault _ => isFalse fun h => by obtain ⟨a, ha⟩ := h; cases ha

instance [DecidableEq ε] (x : Checked ε φ α) (e : ε) : Decidable (x = .err e) :=
  match x with
  | .ok _ => isFalse fun h => by cases h
  | .err e' => decidable_of_iff (e' = e) (by rw [Checked.err.injEq])
  | .fault _ => isFalse fun h => by cases h

@[simp] theorem faultless_ok (a : α) : Faultless (.ok a : Checked ε φ α) := fun _ h => nomatch h

@[simp] theorem faultless_err (e : ε) : Faultless (.err e : Checked ε φ α) := fun _ h => nomatch h

@[simp] theorem not_faultless_fault (f : φ) : ¬Faultless (.fault f : Checked ε φ α) := fun h => h f rfl

@[simp] theorem returns_ok (a : α) : Returns (.ok a : Checked ε φ α) := ⟨a, rfl⟩

@[simp] theorem not_returns_err (e : ε) : ¬Returns (.err e : Checked ε φ α) := fun ⟨_, h⟩ => nomatch h

@[simp] theorem not_returns_fault (f : φ) : ¬Returns (.fault f : Checked ε φ α) := fun ⟨_, h⟩ => nomatch h

theorem bind_eq_ok {x : Checked ε φ α} {k : α → Checked ε φ β} {b : β} :
    (x >>= k) = .ok b ↔ ∃ a, x = .ok a ∧ k a = .ok b := by
  cases x with
  | ok a => simp
  | err e => simp
  | fault f => simp

/-- A guard that returns an error code raises no fault. -/
theorem faultless_ensure (e : ε) (p : Prop) [Decidable p] : Faultless (ensure e p : Checked ε φ Unit) := by
  by_cases h : p
  · rw [ensure_of h]
    exact faultless_ok ()
  · rw [ensure_of_not h]
    exact faultless_err e

/-- A sequence of faultless runs. -/
theorem Faultless.bind {x : Checked ε φ α} {k : α → Checked ε φ β} (hx : Faultless x)
    (hk : ∀ a, Faultless (k a)) : Faultless (x >>= k) := by
  cases x with
  | ok a => exact hk a
  | err e => exact faultless_err e
  | fault f => exact absurd rfl (hx f)

/-- Where an error of a sequence comes from. -/
theorem bind_eq_err {x : Checked ε φ α} {k : α → Checked ε φ β} {e : ε} :
    (x >>= k) = .err e ↔ x = .err e ∨ ∃ a, x = .ok a ∧ k a = .err e := by
  cases x with
  | ok a => simp
  | err e' => simp
  | fault f => simp

/-- A loop that collects values returns if each round does. -/
theorem mapM_eq_ok_iff {f : α → Checked ε φ β} {as : List α} {bs : List β} :
    as.mapM f = .ok bs ↔ List.Forall₂ (fun a b => f a = .ok b) as bs := by
  induction as generalizing bs with
  | nil =>
      rw [List.mapM_nil, List.forall₂_nil_left_iff, pure_eq, ok.injEq, eq_comm]
  | cons a as ih =>
      rw [List.mapM_cons, bind_eq_ok]
      constructor
      · rintro ⟨b, hb, hrest⟩
        obtain ⟨bs', hbs', heq⟩ := bind_eq_ok.mp hrest
        cases heq
        exact .cons hb (ih.mp hbs')
      · intro h
        obtain ⟨b, bs', hb, hbs', rfl⟩ := List.forall₂_cons_left_iff.mp h
        exact ⟨b, hb, bind_eq_ok.mpr ⟨bs', ih.mpr hbs', rfl⟩⟩

/-- **A loop that collects good values.** When each round gives a good value exactly under a condition on its item, so
does the loop under the condition on all items. -/
theorem exists_mapM_iff {γ : Type} {f : β → Checked ε φ γ} {R : α → γ → Prop} {C : α → Prop} {as : List α}
    {bs : List β} (h : List.Forall₂ (fun a b => (∃ c, f b = .ok c ∧ R a c) ↔ C a) as bs) :
    (∃ cs, bs.mapM f = .ok cs ∧ List.Forall₂ R as cs) ↔ ∀ a ∈ as, C a := by
  induction h with
  | nil => simp
  | @cons a b as bs hab hrest ih =>
      rw [List.forall_mem_cons, ← hab, ← ih]
      constructor
      · rintro ⟨cs, hcs, hall⟩
        obtain ⟨c, cs', hc, hall', rfl⟩ := List.forall₂_cons_left_iff.mp hall
        rw [mapM_eq_ok_iff] at hcs
        obtain ⟨hb, hbs⟩ := List.forall₂_cons.mp hcs
        exact ⟨⟨c, hb, hc⟩, cs', mapM_eq_ok_iff.mpr hbs, hall'⟩
      · rintro ⟨⟨c, hb, hc⟩, cs', hbs, hall'⟩
        refine ⟨c :: cs', mapM_eq_ok_iff.mpr (.cons hb (mapM_eq_ok_iff.mp hbs)), .cons hc hall'⟩

/-- Collecting from what another loop has collected. -/
theorem exists_mapM_of_mapM {γ : Type} {g : α → Checked ε φ β} {f : β → Checked ε φ γ} {R : α → γ → Prop} {C : α → Prop}
    {as : List α} {bs : List β} (h : as.mapM g = .ok bs)
    (hround : ∀ a ∈ as, ∀ b, g a = .ok b → ((∃ c, f b = .ok c ∧ R a c) ↔ C a)) :
    (∃ cs, bs.mapM f = .ok cs ∧ List.Forall₂ R as cs) ↔ ∀ a ∈ as, C a := by
  have hmem := (List.forall₂_and_left as bs).mpr ⟨fun a (ha : a ∈ as) => ha, mapM_eq_ok_iff.mp h⟩
  exact exists_mapM_iff (hmem.imp fun a b hab => hround a hab.1 b hab.2)

/-- **Partial correctness**: a value that is returned satisfies `P`. -/
def Ensures (P : α → Prop) (x : Checked ε φ α) : Prop := ∀ a, x = .ok a → P a

namespace Ensures

variable {P : α → Prop}

theorem ok {a : α} (h : P a) : Ensures P (.ok a : Checked ε φ α) := by
  intro b hb
  cases hb
  exact h

theorem fault (f : φ) : Ensures P (.fault f : Checked ε φ α) := fun _ h => by cases h

/-- The rule of sequencing. -/
theorem bind {Q : β → Prop} {x : Checked ε φ α} {k : α → Checked ε φ β} (hx : Ensures P x)
    (hk : ∀ a, P a → Ensures Q (k a)) : Ensures Q (x >>= k) := by
  intro b hb
  obtain ⟨a, ha, hka⟩ := bind_eq_ok.mp hb
  exact hk a (hx a ha) b hka

/-- Sequencing after a step of which nothing is known. -/
theorem bind_any {Q : β → Prop} {x : Checked ε φ α} {k : α → Checked ε φ β}
    (hk : ∀ a, Ensures Q (k a)) : Ensures Q (x >>= k) := by
  intro b hb
  obtain ⟨a, -, hka⟩ := bind_eq_ok.mp hb
  exact hk a b hka

/-- The rule of loops. -/
theorem foldlM {f : α → β → Checked ε φ α} (h : ∀ a b, P a → Ensures P (f a b)) (l : List β) {a : α}
    (ha : P a) : Ensures P (l.foldlM f a) := by
  induction l generalizing a with
  | nil => exact ok ha
  | cons b l ih => exact (h a b ha).bind fun a' ha' => ih ha'

end Ensures

/-- **Cut short**: `x` does what `y` does up to `R`, unless it returns an error on the way. -/
def Cut (R : α → β → Prop) (x : Checked ε φ α) (y : Checked ε φ β) : Prop :=
  match x with
  | .ok a => ∃ b, y = .ok b ∧ R a b
  | .err _ => True
  | .fault f => y = .fault f

namespace Cut

variable {R : α → β → Prop}

/-- What is cut short of a faultless run is faultless. -/
theorem faultless {x : Checked ε φ α} {y : Checked ε φ β} (h : Cut R x y) (hy : Faultless y) :
    Faultless x := by
  rintro f rfl
  exact hy f h

theorem ok {a : α} {b : β} (h : R a b) : Cut R (.ok a : Checked ε φ α) (.ok b) := ⟨b, rfl, h⟩

/-- Two runs that go on alike. -/
theorem bind {γ δ : Type} {R' : γ → δ → Prop} {x : Checked ε φ α} {y : Checked ε φ β}
    {k : α → Checked ε φ γ} {k' : β → Checked ε φ δ} (h : Cut R x y)
    (hk : ∀ a b, R a b → Cut R' (k a) (k' b)) : Cut R' (x >>= k) (y >>= k') := by
  cases x with
  | ok a =>
      obtain ⟨b, rfl, hab⟩ := h
      exact hk a b hab
  | err e => trivial
  | fault f =>
      obtain rfl : y = .fault f := h
      rfl

/-- Two runs with a common beginning. -/
theorem bind_same {γ δ : Type} {R' : γ → δ → Prop} (x : Checked ε φ α)
    {k : α → Checked ε φ γ} {k' : α → Checked ε φ δ} (hk : ∀ a, Cut R' (k a) (k' a)) :
    Cut R' (x >>= k) (x >>= k') := by
  cases x with
  | ok a => exact hk a
  | err e => trivial
  | fault f => rfl

/-- Two loops over the same list. -/
theorem foldlM {γ : Type} {f : α → γ → Checked ε φ α} {g : β → γ → Checked ε φ β}
    (h : ∀ a b c, R a b → Cut R (f a c) (g b c)) (l : List γ) {a : α} {b : β} (hab : R a b) :
    Cut R (l.foldlM f a) (l.foldlM g b) := by
  induction l generalizing a b with
  | nil => exact ok hab
  | cons c l ih => exact (h a b c hab).bind fun a b hab => ih hab

end Cut

end Checked

/-! ## (1) Loops -/

section Loops

variable {m : Type → Type} [Monad m] {σ τ β γ : Type}

/-- **Index loop over records.** A loop over `0 … n-1` whose `i`-th step does what `g` does with the
`i`-th record is the fold of `g` over the records. -/
theorem foldlM_range_eq (l : List β) (f : σ → Nat → m σ) (g : σ → β → m σ)
    (h : ∀ s i (hi : i < l.length), f s i = g s l[i]) (s : σ) :
    (List.range l.length).foldlM f s = l.foldlM g s := by
  induction l generalizing f s with
  | nil => rfl
  | cons b bs ih =>
      rw [List.length_cons, List.range_succ_eq_map, List.foldlM_cons, List.foldlM_cons,
        h s 0 (Nat.succ_pos _)]
      congr 1
      funext s'
      rw [List.foldlM_map]
      exact ih _ (fun s i hi => h s (i + 1) (Nat.succ_lt_succ hi)) s'

/-- A loop over `0 … n-1` is a loop over `Fin n`. -/
theorem foldlM_finRange_eq (n : Nat) (f : σ → Nat → m σ) (s : σ) :
    (List.range n).foldlM f s = (List.finRange n).foldlM (fun s i => f s i.val) s := by
  rw [← List.map_coe_finRange_eq_range, List.foldlM_map]

variable [LawfulMonad m]

/-- **Loop with holes.** A loop that leaves the state alone at every index without a record is the
fold over the records present. -/
theorem foldlM_option (l : List β) (r : β → Option γ) (f : σ → β → m σ) (g : σ → γ → m σ)
    (hnone : ∀ s b, r b = none → f s b = pure s)
    (hsome : ∀ s b c, r b = some c → f s b = g s c) (s : σ) :
    l.foldlM f s = (l.filterMap r).foldlM g s := by
  induction l generalizing s with
  | nil => rfl
  | cons b bs ih =>
      cases hb : r b with
      | none => rw [List.foldlM_cons, hnone s b hb, pure_bind, List.filterMap_cons_none hb, ih]
      | some c =>
          rw [List.foldlM_cons, hsome s b c hb, List.filterMap_cons_some hb, List.foldlM_cons]
          congr 1
          funext s'
          exact ih s'

/-- **Loop with bookkeeping.** A loop whose state is an observer state `x` next to bookkeeping
`conc` that the consumed records determine runs the observer's loop and then presents the
bookkeeping of the whole list. -/
theorem foldlM_concat_state (l : List β) (conc : List β → σ → τ) (f : τ → β → m τ)
    (g : σ → β → m σ)
    (h : ∀ pre b post x, l = pre ++ b :: post →
      f (conc pre x) b = g x b >>= fun x' => pure (conc (pre ++ [b]) x')) (x : σ) :
    l.foldlM f (conc [] x) = l.foldlM g x >>= fun x' => pure (conc l x') := by
  suffices H : ∀ post pre x, l = pre ++ post →
      post.foldlM f (conc pre x) = post.foldlM g x >>= fun x' => pure (conc l x') from
    H l [] x rfl
  intro post
  induction post with
  | nil =>
      intro pre x hl
      rw [List.append_nil] at hl
      simp [hl]
  | cons b bs ih =>
      intro pre x hl
      rw [List.foldlM_cons, List.foldlM_cons, h pre b bs x hl, bind_assoc, bind_assoc]
      congr 1
      funext x'
      rw [pure_bind]
      exact ih (pre ++ [b]) x' (by rw [hl, List.append_assoc]; rfl)

/-- A fold over the concatenation of lists. -/
theorem foldlM_flatMap (l : List β) (E : β → List γ) (f : σ → γ → m σ) (s : σ) :
    (l.flatMap E).foldlM f s = l.foldlM (fun s b => (E b).foldlM f s) s := by
  induction l generalizing s with
  | nil => rfl
  | cons b bs ih =>
      rw [List.flatMap_cons, List.foldlM_append, List.foldlM_cons]
      congr 1
      funext s'
      exact ih s'

end Loops

end Knowdy
