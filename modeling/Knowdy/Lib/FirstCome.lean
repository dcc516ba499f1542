import Mathlib.Data.List.Basic
import Mathlib.Data.List.Induction
import Mathlib.Data.Set.Function

/-! # First come, first served

Things come one after the other, each with a number, and a number is taken by the first thing that has it.

* `FirstAt` — the things that have taken their numbers.
* `firstAt_snoc` — one thing more.
* `firstAt_iff_mem_iff` — everything has taken its number exactly if no two things have one. -/

namespace Knowdy

variable {α β : Type}

/-- **A thing that has taken its number**: none that came before has the number. -/
def FirstAt (num : α → β) (l : List α) (a : α) : Prop := ∃ pre post, l = pre ++ a :: post ∧ ∀ b ∈ pre, num b ≠ num a

variable {num : α → β} {l l' : List α} {a b : α}

theorem FirstAt.mem (h : FirstAt num l a) : a ∈ l := by
  obtain ⟨pre, post, rfl, -⟩ := h
  exact List.mem_append_right pre (List.mem_cons_self ..)

theorem not_firstAt_nil (num : α → β) (a : α) : ¬FirstAt num [] a := fun h => List.not_mem_nil h.mem

/-- What comes later changes nothing. -/
theorem FirstAt.append (h : FirstAt num l a) (l' : List α) : FirstAt num (l ++ l') a := by
  obtain ⟨pre, post, rfl, hpre⟩ := h
  exact ⟨pre, post ++ l', by simp, hpre⟩

/-- A number is taken once. -/
theorem FirstAt.unique (ha : FirstAt num l a) (hb : FirstAt num l b) (hnum : num a = num b) : a = b := by
  obtain ⟨pre, post, rfl, hpre⟩ := ha
  obtain ⟨pre', post', heq, hpre'⟩ := hb
  rcases List.append_eq_append_iff.mp heq with ⟨mid, rfl, hmid⟩ | ⟨mid, rfl, hmid⟩
  · cases mid with
    | nil => exact (List.cons.inj hmid).1
    | cons c mid =>
        obtain ⟨rfl, -⟩ := List.cons.inj hmid
        exact absurd hnum (hpre' a (by simp))
  · cases mid with
    | nil => exact (List.cons.inj hmid).1.symm
    | cons c mid =>
        obtain ⟨rfl, -⟩ := List.cons.inj hmid
        exact absurd hnum.symm (hpre b (by simp))

/-- The last thing, if its number is free. -/
theorem firstAt_of_free (hfree : ∀ b ∈ l, num b ≠ num a) : FirstAt num (l ++ [a]) a := ⟨l, [], rfl, hfree⟩

/-- A number that something has is taken. -/
theorem exists_firstAt (num : α → β) (ha : a ∈ l) : ∃ b, FirstAt num l b ∧ num b = num a := by
  induction l using List.reverseRecOn generalizing a with
  | nil => exact absurd ha List.not_mem_nil
  | append_singleton l c ih =>
      rcases List.mem_append.mp ha with ha | ha
      · obtain ⟨b, hb, hnum⟩ := ih ha
        exact ⟨b, hb.append [c], hnum⟩
      · obtain rfl := List.mem_singleton.mp ha
        by_cases htaken : ∃ b ∈ l, num b = num a
        · obtain ⟨b, hb, hnum⟩ := htaken
          obtain ⟨d, hd, hnum'⟩ := ih hb
          exact ⟨d, hd.append [a], hnum'.trans hnum⟩
        · exact ⟨a, firstAt_of_free fun b hb hnum => htaken ⟨b, hb, hnum⟩, rfl⟩

/-- **One thing more** takes its number if it is free. -/
theorem firstAt_snoc : FirstAt num (l ++ [a]) b ↔ FirstAt num l b ∨ b = a ∧ ∀ c ∈ l, num c ≠ num a := by
  constructor
  · intro h
    by_cases hb : FirstAt num l b
    · exact .inl hb
    · rcases List.mem_append.mp h.mem with hmem | hmem
      · -- the number was taken by another one
        obtain ⟨d, hd, hnum⟩ := exists_firstAt num hmem
        obtain rfl := (hd.append [a]).unique h hnum
        exact absurd hd hb
      · obtain rfl := List.mem_singleton.mp hmem
        refine .inr ⟨rfl, fun c hc hnum => ?_⟩
        obtain ⟨d, hd, hnum'⟩ := exists_firstAt num hc
        obtain rfl := (hd.append [b]).unique h (hnum'.trans hnum)
        exact hb hd
  · rintro (h | ⟨rfl, hfree⟩)
    · exact h.append [a]
    · exact firstAt_of_free hfree

/-- **Everything has taken its number** exactly if no two things have one. -/
theorem firstAt_iff_mem_iff (num : α → β) (l : List α) : (∀ a, FirstAt num l a ↔ a ∈ l) ↔ ∀ a ∈ l, ∀ b ∈ l, num a = num b → a = b := by
  constructor
  · intro h a ha b hb hnum
    exact ((h a).mpr ha).unique ((h b).mpr hb) hnum
  · refine fun hinj a => ⟨FirstAt.mem, fun ha => ?_⟩
    obtain ⟨b, hb, hnum⟩ := exists_firstAt num ha
    exact hinj b hb.mem a ha hnum ▸ hb

end Knowdy
