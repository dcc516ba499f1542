import Mathlib.Order.Defs.PartialOrder

/-! # Loops that may not end

A loop is given by its round: from one state, it goes on with another state or ends with a result.

* `loop round n s` — the result, if the loop ends in fewer than `n` rounds.
* `Ends round s b` — it ends with `b`; `Hangs round s` — it never ends.
* `Hangs.of_invariant` — a set of states that a round never leaves nor ends in. -/

namespace Knowdy

variable {σ β : Type} {round : σ → σ ⊕ β} {s s' : σ} {b b' : β} {m n : Nat}

/-- **A loop** of at most `n` rounds. -/
def loop (round : σ → σ ⊕ β) : Nat → σ → Option β
  | 0, _ => none
  | n + 1, s =>
      match round s with
      | .inl s' => loop round n s'
      | .inr b => some b

/-- **It ends** with a result. -/
def Ends (round : σ → σ ⊕ β) (s : σ) (b : β) : Prop := ∃ n, loop round n s = some b

/-- **It never ends.** -/
def Hangs (round : σ → σ ⊕ β) (s : σ) : Prop := ∀ n, loop round n s = none

theorem loop_succ_of_inl (h : round s = .inl s') (n : Nat) : loop round (n + 1) s = loop round n s' := by
  rw [loop, h]

theorem loop_succ_of_inr (h : round s = .inr b) (n : Nat) : loop round (n + 1) s = some b := by
  rw [loop, h]

/-- More rounds do not change the result. -/
theorem loop_mono (h : loop round n s = some b) (hle : n ≤ m) : loop round m s = some b := by
  induction n generalizing s m with
  | zero => exact absurd h (Option.some_ne_none b).symm
  | succ n ih =>
      obtain ⟨m, rfl⟩ : ∃ k, m = k + 1 := ⟨m - 1, by omega⟩
      cases hround : round s with
      | inl s' =>
          rw [loop_succ_of_inl hround] at h ⊢
          exact ih h (by omega)
      | inr b' =>
          rw [loop_succ_of_inr hround] at h ⊢
          exact h

namespace Ends

/-- The last round. -/
theorem last (h : round s = .inr b) : Ends round s b := ⟨1, loop_succ_of_inr h 0⟩

/-- One round more. -/
theorem next (h : round s = .inl s') (hends : Ends round s' b) : Ends round s b := by
  obtain ⟨n, hn⟩ := hends
  exact ⟨n + 1, (loop_succ_of_inl h n).trans hn⟩

/-- There is one result. -/
theorem unique (h : Ends round s b) (h' : Ends round s b') : b = b' := by
  obtain ⟨n, hn⟩ := h
  obtain ⟨n', hn'⟩ := h'
  have hmax := loop_mono hn (Nat.le_max_left n n')
  rw [loop_mono hn' (Nat.le_max_right n n')] at hmax
  exact (Option.some.inj hmax).symm

end Ends

/-- **A loop hangs** in a set of states that no round leaves. -/
theorem Hangs.of_invariant (I : σ → Prop) (hround : ∀ s, I s → ∃ s', round s = .inl s' ∧ I s') (h : I s) :
    Hangs round s := by
  intro n
  induction n generalizing s with
  | zero => rfl
  | succ n ih =>
      obtain ⟨s', hs', hI⟩ := hround s h
      exact (loop_succ_of_inl hs' n).trans (ih hI)

/-- A round that changes nothing. -/
theorem Hangs.of_fixed (h : round s = .inl s) : Hangs round s :=
  .of_invariant (fun s' => s' = s) (fun _ hs' => ⟨s, hs' ▸ h, rfl⟩) rfl

theorem Hangs.next (h : round s = .inl s') (hhangs : Hangs round s') : Hangs round s
  | 0 => rfl
  | n + 1 => (loop_succ_of_inl h n).trans (hhangs n)

/-- A loop that hangs has no result. -/
theorem Hangs.not_ends (h : Hangs round s) : ¬Ends round s b := by
  intro ⟨n, hn⟩
  rw [h n] at hn
  exact Option.some_ne_none b hn.symm

end Knowdy
