import Knowdy.Lib.Effect

/-! # Programs whose success is decided

A program keeps an assertion on its state and succeeds only where a condition holds; where another condition holds
it does succeed. The rules follow the program, so that both directions are proved at once.

* `Decides` — the two directions.
* `Decides.pure`, `Decides.throw`, `Decides.ite`, `Decides.bind`, `Decides.map`, `Decides.forM` — the rules. -/

namespace Knowdy

variable {ε σ α β : Type}

/-- **A program succeeds only if `S`, and does if `T`.** It keeps `I`, and its results meet `Q`. -/
structure Decides (I : σ → Prop) (x : EStateM ε σ α) (S T : Prop) (Q : α → Prop) : Prop where
  /-- What a run shows. -/
  sound : ∀ s, I s → Yields x s (fun a s' => I s' ∧ S ∧ Q a) I
  /-- When there is a run. -/
  total : T → ∀ s, I s → ∃ a s', x.run s = .ok a s'

namespace Decides

variable {I : σ → Prop} {x : EStateM ε σ α} {S S' T T' : Prop} {Q : α → Prop}

theorem pure {a : α} (hS : S) (hQ : Q a) : Decides I (pure a : EStateM ε σ α) S T Q :=
  ⟨fun _ hs => Yields.returning rfl ⟨hs, hS, hQ⟩, fun _ s _ => ⟨a, s, rfl⟩⟩

theorem throw {e : ε} (hT : ¬T) : Decides I (throw e : EStateM ε σ α) S T Q := by
  refine ⟨fun s hs => Yields.intro (fun a s' hrun => by cases hrun) fun e' s' hrun => ?_, fun h => absurd h hT⟩
  cases hrun
  exact hs

/-- Other conditions. -/
theorem mono {Q' : α → Prop} (h : Decides I x S T Q) (hS : S → S') (hT : T' → T) (hQ : ∀ a, Q a → Q' a) :
    Decides I x S' T' Q' :=
  ⟨fun s hs => (h.sound s hs).mono (fun a _ ⟨hI, hS', hQ'⟩ => ⟨hI, hS hS', hQ a hQ'⟩) fun _ hI => hI,
    fun hT' => h.total (hT hT')⟩

/-- A program that is chosen. -/
theorem ite {p : Prop} [Decidable p] {y : EStateM ε σ α} (hx : p → Decides I x S T Q) (hy : ¬p → Decides I y S T Q) :
    Decides I (if p then x else y) S T Q := by
  by_cases h : p
  · rw [if_pos h]
    exact hx h
  · rw [if_neg h]
    exact hy h

/-- One program after another. -/
theorem bind {f : α → EStateM ε σ β} {R : β → Prop} (h : Decides I x S T Q)
    (hf : ∀ a, Q a → Decides I (f a) S' T' R) : Decides I (x >>= f) (S ∧ S') (T ∧ T') R := by
  refine ⟨fun s hs => ?_, fun ⟨hT, hT'⟩ s hs => ?_⟩
  · refine (h.sound s hs).bind fun a s₁ ⟨hs₁, hS, hQ⟩ => ?_
    exact ((hf a hQ).sound s₁ hs₁).mono (fun b _ ⟨hI, hS', hR⟩ => ⟨hI, ⟨hS, hS'⟩, hR⟩) fun _ hI => hI
  · obtain ⟨a, s₁, hrun⟩ := h.total hT s hs
    obtain ⟨hs₁, -, hQ⟩ := (h.sound s hs).of_ok hrun
    obtain ⟨b, s₂, hrun'⟩ := (hf a hQ).total hT' s₁ hs₁
    exact ⟨b, s₂, (run_bind_of_ok hrun).trans hrun'⟩

/-- What is made of a result. -/
theorem map {f : α → β} {R : β → Prop} (h : Decides I x S T Q) (hf : ∀ a, Q a → R (f a)) :
    Decides I (x >>= fun a => Pure.pure (f a)) S T R :=
  (h.bind fun a ha => pure trivial (hf a ha)).mono And.left (fun hT => ⟨hT, trivial⟩) fun _ h => h

/-- The same program for all elements of a list. -/
theorem forM {f : α → EStateM ε σ PUnit} {S T : α → Prop} {l : List α}
    (hf : ∀ a, Decides I (f a) (S a) (T a) fun _ => True) :
    Decides I (l.forM f) (∀ a ∈ l, S a) (∀ a ∈ l, T a) fun _ => True := by
  induction l with
  | nil => exact pure (fun a ha => by cases ha) trivial
  | cons a l ih =>
      rw [List.forall_mem_cons, List.forall_mem_cons]
      exact (hf a).bind fun _ _ => ih

end Decides

end Knowdy
