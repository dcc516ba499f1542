import Mathlib.Data.List.Basic
import Mathlib.Order.Defs.PartialOrder

/-! # Runs of a state machine

A machine is a function that takes a state and an event to the next state. A run may be restricted to the
events that are allowed in the state in which they happen.

* `Reaches step allowed s₀ s` — `s` is reached from `s₀` by allowed events.
* `Reaches.invariant` — what every allowed event keeps holds in every state that is reached.
* `AllAllowed step allowed s es` — the events of a list are allowed one after the other.
* `forall_prefix_iff_allAllowed` — a property of every state of a run, when the allowed events are those that keep it.
* `mapM_eq_self_iff` — a loop over a list that computes the list itself. -/

namespace Knowdy

variable {σ ε : Type}

/-- **`s` is reached from `s₀`** by events that are allowed where they happen. -/
inductive Reaches (step : σ → ε → σ) (allowed : σ → ε → Prop) (s₀ : σ) : σ → Prop
  /-- Nothing has happened. -/
  | refl : Reaches step allowed s₀ s₀
  /-- One event more. -/
  | next {s : σ} {e : ε} : Reaches step allowed s₀ s → allowed s e → Reaches step allowed s₀ (step s e)

namespace Reaches

variable {step : σ → ε → σ} {allowed : σ → ε → Prop} {s₀ s : σ}

/-- **The invariant rule.** -/
theorem invariant {I : σ → Prop} (h : Reaches step allowed s₀ s) (h₀ : I s₀)
    (hstep : ∀ s e, I s → allowed s e → I (step s e)) : I s := by
  induction h with
  | refl => exact h₀
  | next _ hallowed ih => exact hstep _ _ ih hallowed

/-- Fewer events are allowed. -/
theorem mono {allowed' : σ → ε → Prop} (h : Reaches step allowed s₀ s)
    (hsub : ∀ s e, allowed s e → allowed' s e) : Reaches step allowed' s₀ s := by
  induction h with
  | refl => exact .refl
  | next _ hallowed ih => exact .next ih (hsub _ _ hallowed)

/-- A run after a run. -/
theorem trans {s' : σ} (h : Reaches step allowed s₀ s) (h' : Reaches step allowed s s') :
    Reaches step allowed s₀ s' := by
  induction h' with
  | refl => exact h
  | next _ hallowed ih => exact .next ih hallowed

end Reaches

/-- **The events of a list are allowed** one after the other. -/
def AllAllowed (step : σ → ε → σ) (allowed : σ → ε → Prop) : σ → List ε → Prop
  | _, [] => True
  | s, e :: es => allowed s e ∧ AllAllowed step allowed (step s e) es

instance decidableAllAllowed (step : σ → ε → σ) (allowed : σ → ε → Prop) [∀ s e, Decidable (allowed s e)]
    (s : σ) : (es : List ε) → Decidable (AllAllowed step allowed s es)
  | [] => inferInstanceAs (Decidable True)
  | e :: es =>
      have := decidableAllAllowed step allowed (step s e) es
      inferInstanceAs (Decidable (allowed s e ∧ AllAllowed step allowed (step s e) es))

/-- Events that are allowed everywhere. -/
theorem allAllowed_of_forall {step : σ → ε → σ} {p : ε → Prop} {es : List ε} (h : ∀ e ∈ es, p e) (s : σ) :
    AllAllowed step (fun _ => p) s es := by
  induction es generalizing s with
  | nil => trivial
  | cons e es ih =>
      exact ⟨h e (List.mem_cons_self ..), ih (fun e' he' => h e' (List.mem_cons_of_mem e he')) _⟩

/-- A list of allowed events is a run. -/
theorem Reaches.foldl {step : σ → ε → σ} {allowed : σ → ε → Prop} {s₀ s : σ} {es : List ε}
    (h : Reaches step allowed s₀ s) (hall : AllAllowed step allowed s es) :
    Reaches step allowed s₀ (es.foldl step s) := by
  induction es generalizing s with
  | nil => exact h
  | cons e es ih => exact ih (.next h hall.1) hall.2

section Lists

variable {step : σ → ε → σ} {allowed : σ → ε → Prop}

theorem allAllowed_append {s : σ} {es es' : List ε} : AllAllowed step allowed s (es ++ es') ↔
    AllAllowed step allowed s es ∧ AllAllowed step allowed (es.foldl step s) es' := by
  induction es generalizing s with
  | nil => exact ⟨fun h => ⟨trivial, h⟩, And.right⟩
  | cons e es ih => exact (and_congr_right fun _ => ih).trans and_assoc.symm

/-- Events that stand for others. -/
theorem allAllowed_map {δ : Type} {g : δ → ε} {s : σ} {ds : List δ} : AllAllowed step allowed s (ds.map g) ↔
    AllAllowed (fun s d => step s (g d)) (fun s d => allowed s (g d)) s ds := by
  induction ds generalizing s with
  | nil => exact Iff.rfl
  | cons d ds ih => exact and_congr_right fun _ => ih

/-- Events that come in groups. -/
theorem allAllowed_flatMap {δ : Type} {g : δ → List ε} {s : σ} {ds : List δ} :
    AllAllowed step allowed s (ds.flatMap g) ↔
      AllAllowed (fun s d => (g d).foldl step s) (fun s d => AllAllowed step allowed s (g d)) s ds := by
  induction ds generalizing s with
  | nil => exact Iff.rfl
  | cons d ds ih => exact allAllowed_append.trans (and_congr_right fun _ => ih)

/-- **A property of every state of a run.** When the invariant gives the property, an allowed event keeps the
invariant and an event that keeps the property is allowed, the property holds throughout the run exactly if all its
events are allowed. -/
theorem forall_prefix_iff_allAllowed {I P : σ → Prop} (hprop : ∀ s, I s → P s)
    (hstep : ∀ s e, I s → allowed s e → I (step s e)) (hexact : ∀ s e, I s → P (step s e) → allowed s e)
    {s : σ} (hs : I s) (es : List ε) :
    (∀ pre, pre <+: es → P (pre.foldl step s)) ↔ AllAllowed step allowed s es := by
  induction es generalizing s with
  | nil =>
      refine iff_of_true (fun pre hpre => ?_) trivial
      rw [List.prefix_nil.mp hpre]
      exact hprop s hs
  | cons e es ih =>
      constructor
      · intro hall
        have hallowed := hexact s e hs (hall [e] (List.prefix_append [e] es))
        refine ⟨hallowed, (ih (hstep s e hs hallowed)).mp fun pre hpre => ?_⟩
        exact hall (e :: pre) ((List.prefix_cons_inj e).mpr hpre)
      · rintro ⟨hallowed, hrest⟩ pre hpre
        cases pre with
        | nil => exact hprop s hs
        | cons e' pre =>
            obtain ⟨rfl, hpre'⟩ := List.cons_prefix_cons.mp hpre
            exact (ih (hstep s e' hs hallowed)).mpr hrest pre hpre'

end Lists

/-! ## Loops over a state -/

section Loops

variable {α : Type} {f : α → StateM σ α} {next : σ → α → σ}

/-- The first step of a loop. -/
theorem run_mapM_cons_fst (a : α) (as : List α) (s : σ) :
    (((a :: as).mapM f).run s).1 = ((f a).run s).1 :: ((as.mapM f).run ((f a).run s).2).1 := by
  rw [List.mapM_cons]
  rfl

/-- The state after a loop. -/
theorem run_mapM_snd (hnext : ∀ s a, ((f a).run s).2 = next s a) (as : List α) (s : σ) :
    ((as.mapM f).run s).2 = as.foldl next s := by
  induction as generalizing s with
  | nil => rfl
  | cons a as ih =>
      rw [List.foldl_cons, ← hnext s a, ← ih, List.mapM_cons]
      rfl

/-- What each step of a loop keeps of its element, the loop keeps of the list. -/
theorem map_run_mapM {β : Type} {g : α → β} (hg : ∀ s a, g ((f a).run s).1 = g a) (as : List α) (s : σ) :
    ((as.mapM f).run s).1.map g = as.map g := by
  induction as generalizing s with
  | nil => rfl
  | cons a as ih => rw [run_mapM_cons_fst, List.map_cons, List.map_cons, hg, ih]

/-- **A loop computes the list it runs over** exactly if each of its steps computes the element. -/
theorem mapM_eq_self_iff {R : σ → α → Prop} (hnext : ∀ s a, ((f a).run s).2 = next s a)
    (hR : ∀ s a, ((f a).run s).1 = a ↔ R s a) (as : List α) (s : σ) :
    ((as.mapM f).run s).1 = as ↔ AllAllowed next R s as := by
  induction as generalizing s with
  | nil => exact iff_of_true rfl trivial
  | cons a as ih =>
      rw [run_mapM_cons_fst, List.cons.injEq, hR, hnext, ih]
      rfl

end Loops

end Knowdy
