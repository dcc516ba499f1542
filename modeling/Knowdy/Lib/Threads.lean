import Mathlib.Logic.Function.Basic

/-! # Threads over a shared state

Any number of threads take turns. A turn is one access: it may change what is shared and where the thread itself
stands, and it may return results.

* `Threads`, `Outcome`, `Threads.turn` — the state, what an access does, and a turn.
* `Threads.Holds` — an assertion on what is shared, one on each thread, and one on each two of them.
* `Threads.Holds.turn` — the proof rule: what an access has to keep, its own thread and the others apart. -/

namespace Knowdy

variable {ι σ τ ρ : Type}

/-- What threads `ι` share, where each of them stands, and what they have returned. -/
structure Threads (ι σ τ ρ : Type) where
  shared : σ
  stage : ι → τ
  log : List ρ := []

/-- What an access leaves: the shared part, the place of its thread, and the results. -/
structure Outcome (σ τ ρ : Type) where
  shared : σ
  stage : τ
  returned : List ρ := []

namespace Threads

variable [DecidableEq ι]

/-- **A turn** of the thread `t`. -/
def turn (s : Threads ι σ τ ρ) (t : ι) (o : Outcome σ τ ρ) : Threads ι σ τ ρ where
  shared := o.shared
  stage := Function.update s.stage t o.stage
  log := o.returned ++ s.log

variable {s : Threads ι σ τ ρ} {t u : ι} {o : Outcome σ τ ρ}

@[simp] theorem shared_turn : (s.turn t o).shared = o.shared := rfl

@[simp] theorem log_turn : (s.turn t o).log = o.returned ++ s.log := rfl

@[simp] theorem stage_turn_self : (s.turn t o).stage t = o.stage :=
  Function.update_self ..

theorem stage_turn_of_ne (h : u ≠ t) : (s.turn t o).stage u = s.stage u :=
  Function.update_of_ne h ..

/-- **An assertion on the shared part, on each thread and on each two threads.** -/
structure Holds (I : σ → List ρ → Prop) (A : σ → List ρ → τ → Prop) (D : τ → τ → Prop)
    (s : Threads ι σ τ ρ) : Prop where
  shared : I s.shared s.log
  each : ∀ t, A s.shared s.log (s.stage t)
  apart : ∀ t u, t ≠ u → D (s.stage t) (s.stage u)

variable {I : σ → List ρ → Prop} {A : σ → List ρ → τ → Prop} {D : τ → τ → Prop}

/-- **A turn keeps the assertions** when it establishes those on what is shared and on its own thread, and keeps
those on every other thread. -/
theorem Holds.turn (h : s.Holds I A D) (hsymm : ∀ a b, D a b → D b a) (hI : I o.shared (o.returned ++ s.log))
    (hA : A o.shared (o.returned ++ s.log) o.stage)
    (hothers : ∀ u, u ≠ t → A s.shared s.log (s.stage u) → D (s.stage t) (s.stage u) →
      A o.shared (o.returned ++ s.log) (s.stage u) ∧ D o.stage (s.stage u)) : (s.turn t o).Holds I A D := by
  have hother : ∀ u, u ≠ t → A o.shared (o.returned ++ s.log) (s.stage u) ∧ D o.stage (s.stage u) :=
    fun u hne => hothers u hne (h.each u) (h.apart t u hne.symm)
  refine ⟨hI, fun u => ?_, fun u v hne => ?_⟩
  · by_cases hu : u = t
    · subst hu
      rw [stage_turn_self]
      exact hA
    · rw [stage_turn_of_ne hu]
      exact (hother u hu).1
  · by_cases hu : u = t
    · subst hu
      rw [stage_turn_self, stage_turn_of_ne hne.symm]
      exact (hother v hne.symm).2
    · rw [stage_turn_of_ne hu]
      by_cases hv : v = t
      · subst hv
        rw [stage_turn_self]
        exact hsymm _ _ (hother u hu).2
      · rw [stage_turn_of_ne hv]
        exact h.apart u v hne

omit [DecidableEq ι] in
/-- A write from outside. -/
theorem Holds.write (h : s.Holds I A D) {shared : σ} (hI : I shared s.log)
    (hA : ∀ stage, A s.shared s.log stage → A shared s.log stage) :
    Holds I A D { s with shared } :=
  ⟨hI, fun t => hA _ (h.each t), h.apart⟩

end Threads

end Knowdy
