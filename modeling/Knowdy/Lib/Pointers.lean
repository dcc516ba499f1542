import Knowdy.Lib.Linked

/-! # Cells that point to cells

A memory `cells : α → κ` and the addresses `links k b` that the contents `k` of a cell hold. `Reach links
cells root a` says that following the addresses from `root` meets `a`.

* `Reach.trans`, `Reach.closed` — paths compose; a set that is closed under the addresses of its cells is
  not left.
* `Reach.congr` — the cells on the way alone matter.
* `reach_update_iff` — a write to a cell that is not met does not matter.
* `Linked.reach` — the cells of a linked list are met from its head. -/

namespace Knowdy

variable {α κ : Type} {links : κ → α → Prop}

/-- **Following the addresses from `root` meets a cell.** -/
inductive Reach (links : κ → α → Prop) (cells : α → κ) (root : α) : α → Prop
  /-- The root itself. -/
  | root : Reach links cells root root
  /-- A cell that one on the way points to. -/
  | link {a b : α} : Reach links cells root a → links (cells a) b → Reach links cells root b

namespace Reach

variable {cells cells' : α → κ} {root a b : α}

/-- Paths compose. -/
theorem trans (h : Reach links cells root a) (h' : Reach links cells a b) : Reach links cells root b := by
  induction h' with
  | root => exact h
  | link _ hlink ih => exact .link ih hlink

/-- **A set that is closed under the addresses of its cells** is not left. -/
theorem closed {S : α → Prop} (h : Reach links cells root a) (hroot : S root)
    (hclosed : ∀ a b, S a → links (cells a) b → S b) : S a := by
  induction h with
  | root => exact hroot
  | link _ hlink ih => exact hclosed _ _ ih hlink

/-- The cells on the way alone matter. -/
theorem congr (h : Reach links cells root a) (heq : ∀ b, Reach links cells root b → cells' b = cells b) :
    Reach links cells' root a := by
  induction h with
  | root => exact .root
  | link hpath hlink ih =>
      refine .link ih ?_
      rw [heq _ hpath]
      exact hlink

end Reach

/-- **A write to a cell that is not met** changes nothing. -/
theorem reach_update_iff [DecidableEq α] {cells : α → κ} {root x a : α} {k : κ}
    (hx : ¬Reach links cells root x) :
    Reach links (Function.update cells x k) root a ↔ Reach links cells root a := by
  have hne : ∀ b, Reach links cells root b → Function.update cells x k b = cells b := by
    intro b hb
    refine Function.update_of_ne ?_ _ _
    rintro rfl
    exact hx hb
  constructor
  · intro h
    induction h with
    | root => exact .root
    | link _ hlink ih =>
        rw [hne _ ih] at hlink
        exact .link ih hlink
  · intro h
    exact h.congr hne

/-- **The cells of a linked list** are met from its head. -/
theorem Linked.reach {cells : α → κ} {next : α → Option α} {head a : α} {l : List α}
    (hnext : ∀ a b, next a = some b → links (cells a) b) (h : Linked next (some head) l) (ha : a ∈ l) :
    Reach links cells head a := by
  generalize hhead : some head = o at h
  induction h generalizing head with
  | nil => cases hhead
  | @cons b l hrest ih =>
      cases hhead
      rcases List.mem_cons.mp ha with rfl | htail
      · exact .root
      · -- the list goes on behind the pointer of its first cell
        cases hb : next b with
        | none =>
            rw [hb] at hrest
            cases hrest
            cases htail
        | some c => exact (Reach.link .root (hnext b c hb)).trans (ih htail hb.symm)

end Knowdy
