import Mathlib.Data.List.Nodup
import Mathlib.Logic.Function.Basic

/-! # Lists linked through next pointers

A list in memory: a head and, for each cell, the pointer to the next one. `Linked next head l` says that
following the pointers from `head` ends after the cells `l`.

* `Linked.unique`, `Linked.nodup` — the cells are determined and pairwise distinct.
* `Linked.push` — a new cell in front.
* `not_linked_of_loop` — a cell that points to itself is on no such list. -/

namespace Knowdy

variable {α : Type}

/-- **Following `next` from `head` meets the cells `l` and ends.** -/
inductive Linked (next : α → Option α) : Option α → List α → Prop
  | nil : Linked next none []
  | cons {a : α} {l : List α} (h : Linked next (next a) l) : Linked next (some a) (a :: l)

namespace Linked

variable {next next' : α → Option α} {head : Option α} {l l' : List α}

/-- The cells are determined by the head. -/
theorem unique (h : Linked next head l) (h' : Linked next head l') : l = l' := by
  induction h generalizing l' with
  | nil =>
      cases h'
      rfl
  | cons _ ih =>
      cases h' with
      | cons h' => rw [ih h']

/-- The first cell, and the others behind it. -/
theorem cons_iff {a : α} : Linked next head (a :: l) ↔ head = some a ∧ Linked next (next a) l := by
  constructor
  · rintro (_ | ⟨hrest⟩)
    exact ⟨rfl, hrest⟩
  · rintro ⟨rfl, hrest⟩
    exact .cons hrest

/-- A list with a head has a first cell. -/
theorem exists_cons {a : α} (h : Linked next (some a) l) : ∃ l', l = a :: l' ∧ Linked next (next a) l' := by
  cases h with
  | cons hrest => exact ⟨_, rfl, hrest⟩

/-- The pointers of the cells alone matter. -/
theorem congr (h : Linked next head l) (heq : ∀ a ∈ l, next' a = next a) : Linked next' head l := by
  induction h with
  | nil => exact .nil
  | @cons a l _ ih =>
      refine .cons ?_
      rw [heq a (List.mem_cons_self ..)]
      exact ih fun b hb => heq b (List.mem_cons_of_mem a hb)

/-- From every cell on, the list goes on. -/
theorem drop (h : Linked next head l) {a : α} {pre post : List α} (hl : l = pre ++ a :: post) :
    Linked next (some a) (a :: post) := by
  induction pre generalizing head l with
  | nil =>
      subst hl
      cases h with
      | cons h => exact .cons h
  | cons b pre ih =>
      subst hl
      cases h with
      | cons h => exact ih h rfl

/-- No cell is met twice: from both places the same cells would follow. -/
theorem nodup (h : Linked next head l) : l.Nodup := by
  induction h with
  | nil => exact List.nodup_nil
  | @cons a l h ih =>
      refine List.nodup_cons.mpr ⟨fun hmem => ?_, ih⟩
      obtain ⟨pre, post, rfl⟩ := List.append_of_mem hmem
      have hrest : Linked next (some a) (a :: post) := h.drop rfl
      have heq := (Linked.cons h).unique hrest
      have hlen := congrArg List.length heq
      simp only [List.length_cons, List.length_append] at hlen
      omega

/-- **A new cell in front.** -/
theorem push [DecidableEq α] (h : Linked next head l) {a : α} (ha : a ∉ l) :
    Linked (Function.update next a head) (some a) (a :: l) := by
  refine .cons ?_
  rw [Function.update_self]
  refine h.congr fun b hb => Function.update_of_ne ?_ _ _
  rintro rfl
  exact ha hb

end Linked

/-- **A cell that points to itself** starts no list. -/
theorem not_linked_of_loop {next : α → Option α} {a : α} (h : next a = some a) (l : List α) :
    ¬Linked next (some a) l := by
  intro hl
  cases hl with
  | @cons _ l hrest =>
      have hrest' : Linked next (some a) l := h ▸ hrest
      have hlen := congrArg List.length (hrest'.unique (.cons hrest))
      simp at hlen

end Knowdy
