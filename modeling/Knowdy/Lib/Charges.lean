import Knowdy.Lib.Runs
import Mathlib

/-! # Charged runs

The potential method: every event of a run spends something and is granted something, both read at the state where it
happens. A potential that pays for what is spent bounds it for the whole run.

* `total` — what the events of a run add up to.
* `AllAllowed.bounded` — what only grows stays below its last value.
* `Pays` — a potential that pays for every event until the run comes to rest.
* `Pays.total_le` — the rule: what is spent is at most the potential and what is granted, or the run is at rest.
* `Pays.rest_of_total_le` — a run that spends that much has come to rest. -/

namespace Knowdy

variable {σ ε : Type} {step : σ → ε → σ}

/-- **What the events of a run add up to**, each read at the state where it happens. -/
def total (step : σ → ε → σ) (f : σ → ε → Nat) : σ → List ε → Nat
  | _, [] => 0
  | s, e :: es => f s e + total step f (step s e) es

@[simp] theorem total_nil (f : σ → ε → Nat) (s : σ) : total step f s [] = 0 := rfl

theorem total_cons (f : σ → ε → Nat) (s : σ) (e : ε) (es : List ε) :
    total step f s (e :: es) = f s e + total step f (step s e) es := rfl

/-- An event adds the same wherever it happens. -/
theorem total_const (g : ε → Nat) (s : σ) (es : List ε) : total step (fun _ => g) s es = (es.map g).sum := by
  induction es generalizing s with
  | nil => rfl
  | cons e es ih => rw [total_cons, ih, List.map_cons, List.sum_cons]

theorem total_add (f g : σ → ε → Nat) (s : σ) (es : List ε) :
    total step (fun s e => f s e + g s e) s es = total step f s es + total step g s es := by
  induction es generalizing s with
  | nil => rfl
  | cons e es ih =>
      rw [total_cons, total_cons, total_cons, ih]
      omega

theorem total_mul (n : Nat) (f : σ → ε → Nat) (s : σ) (es : List ε) :
    total step (fun s e => n * f s e) s es = n * total step f s es := by
  induction es generalizing s with
  | nil => rfl
  | cons e es ih => rw [total_cons, total_cons, ih, Nat.mul_add]

/-- Events add no more than others in total when they do so one by one. -/
theorem total_le_total {f g : σ → ε → Nat} (h : ∀ s e, f s e ≤ g s e) (s : σ) (es : List ε) :
    total step f s es ≤ total step g s es := by
  induction es generalizing s with
  | nil => exact Nat.le_refl _
  | cons e es ih => exact Nat.add_le_add (h s e) (ih _)

/-- Fewer events are allowed. -/
theorem AllAllowed.mono {allowed allowed' : σ → ε → Prop} {s : σ} {es : List ε}
    (h : AllAllowed step allowed s es) (hsub : ∀ s e, allowed s e → allowed' s e) :
    AllAllowed step allowed' s es := by
  induction es generalizing s with
  | nil => trivial
  | cons e es ih => exact ⟨hsub s e h.1, ih h.2⟩

section Grows

variable {β : Type} [Preorder β] {allowed : σ → ε → Prop} {I : σ → Prop} {f : σ → β} {s : σ} {es : List ε}

/-- A quantity that every event lets grow. -/
theorem AllAllowed.le_foldl (hkeeps : ∀ s e, I s → allowed s e → I (step s e) ∧ f s ≤ f (step s e)) (hs : I s)
    (hes : AllAllowed step allowed s es) : f s ≤ f (es.foldl step s) := by
  induction es generalizing s with
  | nil => exact le_refl _
  | cons e es ih => exact le_trans (hkeeps s e hs hes.1).2 (ih (hkeeps s e hs hes.1).1 hes.2)

/-- It stays below its last value. -/
theorem AllAllowed.bounded (hkeeps : ∀ s e, I s → allowed s e → I (step s e) ∧ f s ≤ f (step s e)) (hs : I s)
    (hes : AllAllowed step allowed s es) {b : β} (hend : f (es.foldl step s) ≤ b) :
    AllAllowed step (fun s e => allowed s e ∧ f (step s e) ≤ b) s es := by
  induction es generalizing s with
  | nil => trivial
  | cons e es ih =>
      have hs' := (hkeeps s e hs hes.1).1
      exact ⟨⟨hes.1, le_trans (hes.2.le_foldl hkeeps hs') hend⟩, ih hs' hes.2 hend⟩

end Grows

/-- **A potential that pays.** Until the run is at rest, where it stays, every allowed event keeps the invariant, and
what it spends is paid out of what is granted and of the decrease of the potential. -/
structure Pays (step : σ → ε → σ) (allowed : σ → ε → Prop) (I rest : σ → Prop) (Φ : σ → Nat)
    (spent granted : σ → ε → Nat) : Prop where
  keeps : ∀ s e, I s → allowed s e → I (step s e)
  stays : ∀ s e, rest s → allowed s e → rest (step s e)
  pays : ∀ s e, I s → allowed s e → ¬rest s → Φ (step s e) + spent s e ≤ Φ s + granted s e

namespace Pays

variable {allowed : σ → ε → Prop} {I rest : σ → Prop} {Φ : σ → Nat} {spent granted : σ → ε → Nat} {s : σ}
  {es : List ε}

/-- A run that is at rest stays there. -/
theorem rest_foldl (h : Pays step allowed I rest Φ spent granted) (hs : rest s)
    (hes : AllAllowed step allowed s es) : rest (es.foldl step s) := by
  induction es generalizing s with
  | nil => exact hs
  | cons e es ih => exact ih (h.stays s e hs hes.1) hes.2

/-- **The potential method.** -/
theorem total_le (h : Pays step allowed I rest Φ spent granted) (hs : I s) (hes : AllAllowed step allowed s es) :
    rest (es.foldl step s) ∨
      Φ (es.foldl step s) + total step spent s es ≤ Φ s + total step granted s es := by
  induction es generalizing s with
  | nil => exact .inr (Nat.le_refl _)
  | cons e es ih =>
      by_cases hr : rest s
      · exact .inl (h.rest_foldl hr hes)
      · have hfirst := h.pays s e hs hes.1 hr
        rw [List.foldl_cons, total_cons, total_cons]
        rcases ih (h.keeps s e hs hes.1) hes.2 with hend | hbound
        · exact .inl hend
        · exact .inr (by omega)

/-- A run that spends what there is comes to rest. -/
theorem rest_of_total_le (h : Pays step allowed I rest Φ spent granted) (hzero : ∀ s, Φ s = 0 → rest s) (hs : I s)
    (hes : AllAllowed step allowed s es) (hmany : Φ s + total step granted s es ≤ total step spent s es) :
    rest (es.foldl step s) := by
  rcases h.total_le hs hes with hend | hbound
  · exact hend
  · exact hzero _ (by omega)

end Pays

end Knowdy
