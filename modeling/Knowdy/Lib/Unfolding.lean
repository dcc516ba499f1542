import Mathlib.Data.List.Induction
import Mathlib.Data.List.Nodup
import Mathlib.Data.List.Perm.Basic

/-! # The unfolding of a graph

A recursion that follows the edges of a graph without a mark on the nodes that it has met walks the unfolding of the
graph: one node for each sequence of edges. Nodes are told apart by a key.

* `descend` — the node at an address, a sequence of positions; `Reached` — there is an address.
* `preorder n` — the nodes of the unfolding, as deep as `n`; `Bounded n` — it is not deeper.
* `Unshared` — no two addresses lead to the same key; `unshared_iff_isTree` — that is, no two edges do.
* `Unshared.bounded` — then a graph with finitely many keys has a finite unfolding.
* `nodup_preorder_iff` — and a walk meets each key once. -/

namespace Knowdy.Unfolding

variable {V K : Type} (next : V → List V) (key : V → K)

/-! ## (1) Addresses -/

/-- **The node at an address.** -/
def descend : V → List Nat → Option V
  | v, [] => some v
  | v, i :: a => (next v)[i]?.bind fun w => descend w a

/-- A node of the unfolding. -/
def Reached (v u : V) : Prop := ∃ a, descend next v a = some u

/-- **The nodes of the unfolding** in their order, as deep as `n`. -/
def preorder : Nat → V → List V
  | 0, _ => []
  | n + 1, v => v :: (next v).flatMap (preorder n)

/-- The unfolding is not as deep as `n`. -/
def Bounded (n : Nat) (v : V) : Prop := ∀ a u, descend next v a = some u → a.length < n

/-- **No two addresses** lead to the same key. -/
def Unshared (v : V) : Prop :=
  ∀ a b u w, descend next v a = some u → descend next v b = some w → key u = key w → a = b

/-- **A tree**: no edge leads back to the root, and no two edges lead to the same key. -/
structure IsTree (v : V) : Prop where
  /-- No edge leads to the root. -/
  root : ∀ u w, Reached next v u → w ∈ next u → key w ≠ key v
  /-- No two edges lead to the same node. -/
  once : ∀ (u u' : V) (i j : Nat) (w w' : V), Reached next v u → Reached next v u' → (next u)[i]? = some w → (next u')[j]? = some w' →
    key w = key w' → key u = key u' ∧ i = j

variable {next key} {v u w : V} {a b : List Nat} {i n : Nat}

@[simp] theorem descend_nil (v : V) : descend next v [] = some v := by rw [descend]

theorem descend_cons (v : V) (i : Nat) (a : List Nat) :
    descend next v (i :: a) = (next v)[i]?.bind fun w => descend next w a := by rw [descend]

theorem descend_append (v : V) (a b : List Nat) :
    descend next v (a ++ b) = (descend next v a).bind fun w => descend next w b := by
  induction a generalizing v with
  | nil => rw [List.nil_append, descend_nil, Option.bind_some]
  | cons i a ih =>
      rw [List.cons_append, descend_cons, descend_cons, Option.bind_assoc]
      congr 1
      funext w
      exact ih w

/-- The last edge. -/
theorem descend_concat (v : V) (a : List Nat) (i : Nat) :
    descend next v (a ++ [i]) = (descend next v a).bind fun w => (next w)[i]? := by
  rw [descend_append]
  congr 1
  funext w
  rw [descend_cons]
  cases (next w)[i]? <;> simp

theorem descend_concat_eq_some : descend next v (a ++ [i]) = some w ↔
    ∃ u, descend next v a = some u ∧ (next u)[i]? = some w := by
  rw [descend_concat, Option.bind_eq_some_iff]

/-- A part of an address. -/
theorem descend_of_prefix (h : descend next v b = some w) (hab : a <+: b) : ∃ u, descend next v a = some u := by
  obtain ⟨c, rfl⟩ := hab
  rw [descend_append, Option.bind_eq_some_iff] at h
  obtain ⟨u, hu, -⟩ := h
  exact ⟨u, hu⟩

/-- **What every edge keeps** holds of every node. -/
theorem Reached.invariant (I : V → Prop) (h : Reached next v u) (h₀ : I v)
    (hstep : ∀ u w, I u → w ∈ next u → I w) : I u := by
  obtain ⟨a, ha⟩ := h
  induction a generalizing v with
  | nil =>
      obtain rfl := Option.some.inj ha
      exact h₀
  | cons i a ih =>
      rw [descend_cons, Option.bind_eq_some_iff] at ha
      obtain ⟨w, hw, ha⟩ := ha
      exact ih (hstep v w h₀ (List.mem_of_getElem? hw)) ha

/-! ## (2) Trees -/

/-- **No two addresses lead to the same key**, if and only if no two edges do. -/
theorem unshared_iff_isTree : Unshared next key v ↔ IsTree next key v := by
  constructor
  · intro h
    constructor
    · rintro u w ⟨a, hu⟩ hw heq
      obtain ⟨i, hi⟩ := List.mem_iff_getElem?.mp hw
      have hnil := h (a ++ [i]) [] w v (descend_concat_eq_some.mpr ⟨u, hu, hi⟩) (descend_nil v) heq
      exact absurd hnil (by simp)
    · rintro u u' i j w w' ⟨a, hu⟩ ⟨b, hu'⟩ hw hw' heq
      have hab := h (a ++ [i]) (b ++ [j]) w w' (descend_concat_eq_some.mpr ⟨u, hu, hw⟩)
        (descend_concat_eq_some.mpr ⟨u', hu', hw'⟩) heq
      obtain ⟨rfl, hij⟩ := List.append_inj' hab rfl
      obtain rfl := Option.some.inj (hu.symm.trans hu')
      exact ⟨rfl, List.singleton_inj.mp hij⟩
  · intro h a
    -- both addresses are taken apart from their last edge on
    induction a using List.reverseRecOn with
    | nil =>
        intro b u w hu hw heq
        obtain rfl := Option.some.inj hu
        rcases List.eq_nil_or_concat' b with rfl | ⟨b, j, rfl⟩
        · rfl
        · obtain ⟨w', hw', hlast⟩ := descend_concat_eq_some.mp hw
          exact absurd heq.symm (h.root w' w ⟨b, hw'⟩ (List.mem_of_getElem? hlast))
    | append_singleton a i ih =>
        intro b u w hu hw heq
        obtain ⟨u', hu', hlast⟩ := descend_concat_eq_some.mp hu
        rcases List.eq_nil_or_concat' b with rfl | ⟨b, j, rfl⟩
        · obtain rfl := Option.some.inj hw
          exact absurd heq (h.root u' u ⟨a, hu'⟩ (List.mem_of_getElem? hlast))
        · obtain ⟨w', hw', hlast'⟩ := descend_concat_eq_some.mp hw
          obtain ⟨hkey, rfl⟩ := h.once u' w' i j u w ⟨a, hu'⟩ ⟨b, hw'⟩ hlast hlast' heq
          rw [ih b u' w' hu' hw' hkey]

/-- **A finite unfolding**: an address that is too long would meet a key again. -/
theorem Unshared.bounded (h : Unshared next key v) {keys : List K} (hkeys : ∀ u, Reached next v u → key u ∈ keys) :
    Bounded next keys.length v := by
  intro a u hu
  have hprefix : ∀ k, ∃ w, descend next v (a.take k) = some w := fun k =>
    descend_of_prefix hu (List.take_prefix k a)
  choose w hw using hprefix
  -- the keys that are met on the way
  have hnodup : ((List.range (a.length + 1)).map fun k => key (w k)).Nodup := by
    refine List.nodup_range.map_on fun k hk l hl heq => ?_
    have htake := h (a.take k) (a.take l) (w k) (w l) (hw k) (hw l) heq
    have hlength := congrArg List.length htake
    rw [List.length_take, List.length_take] at hlength
    rw [List.mem_range] at hk hl
    omega
  have hsub : ((List.range (a.length + 1)).map fun k => key (w k)) ⊆ keys := by
    intro x hx
    obtain ⟨k, -, rfl⟩ := List.mem_map.mp hx
    exact hkeys (w k) ⟨a.take k, hw k⟩
  have hle := (List.subperm_of_subset hnodup hsub).length_le
  rw [List.length_map, List.length_range] at hle
  exact hle

/-! ## (3) Walks -/

/-- The nodes of the unfolding with their addresses. -/
def walk (next : V → List V) : Nat → V → List (List Nat × V)
  | 0, _ => []
  | n + 1, v => ([], v) :: (next v).zipIdx.flatMap fun p => (walk next n p.1).map fun q => (p.2 :: q.1, q.2)

theorem map_snd_walk (n : Nat) (v : V) : (walk next n v).map Prod.snd = preorder next n v := by
  induction n generalizing v with
  | zero => rfl
  | succ n ih =>
      rw [walk, preorder, List.map_cons, List.map_flatMap]
      have hsub : ∀ p : V × Nat, ((walk next n p.1).map fun q => (p.2 :: q.1, q.2)).map Prod.snd =
          preorder next n p.1 := by
        intro p
        rw [List.map_map]
        exact ih p.1
      simp only [hsub]
      rw [← List.flatMap_map Prod.fst (preorder next n), List.zipIdx_map_fst]

theorem mem_walk : (a, u) ∈ walk next n v ↔ a.length < n ∧ descend next v a = some u := by
  induction n generalizing v a with
  | zero => exact iff_of_false List.not_mem_nil fun h => absurd h.1 (Nat.not_lt_zero _)
  | succ n ih =>
      rw [walk, List.mem_cons, List.mem_flatMap]
      cases a with
      | nil =>
          rw [descend_nil]
          constructor
          · rintro (h | ⟨p, -, hp⟩)
            · exact ⟨Nat.succ_pos n, congrArg some (Prod.mk.inj h).2.symm⟩
            · obtain ⟨q, -, hq⟩ := List.mem_map.mp hp
              exact absurd (Prod.mk.inj hq).1 (List.cons_ne_nil _ _)
          · rintro ⟨-, h⟩
            exact .inl (by rw [Option.some.inj h])
      | cons i a =>
          rw [descend_cons, Option.bind_eq_some_iff]
          constructor
          · rintro (h | ⟨p, hp, hmem⟩)
            · exact absurd (Prod.mk.inj h).1 (List.cons_ne_nil _ _)
            · obtain ⟨q, hq, heq⟩ := List.mem_map.mp hmem
              obtain ⟨hcons, rfl⟩ := Prod.mk.inj heq
              obtain ⟨rfl, rfl⟩ := List.cons.inj hcons
              obtain ⟨hlength, hdescend⟩ := ih.mp hq
              exact ⟨Nat.succ_lt_succ hlength, p.1, List.mem_zipIdx_iff_getElem?.mp hp, hdescend⟩
          · rintro ⟨hlength, w, hw, hdescend⟩
            refine .inr ⟨(w, i), List.mem_zipIdx_iff_getElem?.mpr hw, List.mem_map.mpr ⟨(a, u), ?_, rfl⟩⟩
            exact ih.mpr ⟨Nat.lt_of_succ_lt_succ hlength, hdescend⟩

/-- Each address is met once. -/
theorem nodup_walk (n : Nat) (v : V) : (walk next n v).Nodup := by
  induction n generalizing v with
  | zero => exact List.nodup_nil
  | succ n ih =>
      rw [walk, List.nodup_cons, List.nodup_flatMap]
      refine ⟨fun h => ?_, fun p _ => ?_, ?_⟩
      · obtain ⟨p, -, hp⟩ := List.mem_flatMap.mp h
        obtain ⟨q, -, hq⟩ := List.mem_map.mp hp
        exact absurd (Prod.mk.inj hq).1 (List.cons_ne_nil _ _)
      · refine (ih p.1).map fun q q' heq => ?_
        obtain ⟨hcons, hsnd⟩ := Prod.mk.inj heq
        exact Prod.ext (List.cons.inj hcons).2 hsnd
      · have hindex : (next v).zipIdx.Pairwise fun p q => p.2 ≠ q.2 := by
          rw [← List.pairwise_map, List.zipIdx_map_snd]
          exact List.nodup_range'
        refine hindex.imp fun {p q} hne => ?_
        intro x hp hq
        obtain ⟨y, -, rfl⟩ := List.mem_map.mp hp
        obtain ⟨z, -, hz⟩ := List.mem_map.mp hq
        exact hne (List.cons.inj (Prod.mk.inj hz).1).1.symm

/-- **A walk meets each key once**, if and only if no two addresses lead to the same one. -/
theorem nodup_preorder_iff (h : Bounded next n v) :
    ((preorder next n v).map key).Nodup ↔ Unshared next key v := by
  rw [← map_snd_walk, List.map_map, List.nodup_map_iff_inj_on (nodup_walk n v)]
  constructor
  · intro hinj a b u w hu hw heq
    have hpair := hinj (a, u) (mem_walk.mpr ⟨h a u hu, hu⟩) (b, w) (mem_walk.mpr ⟨h b w hw, hw⟩) heq
    exact (Prod.mk.inj hpair).1
  · rintro hunshared ⟨a, u⟩ hu ⟨b, w⟩ hw heq
    obtain ⟨-, hu⟩ := mem_walk.mp hu
    obtain ⟨-, hw⟩ := mem_walk.mp hw
    obtain rfl := hunshared a b u w hu hw heq
    rw [Option.some.inj (hu.symm.trans hw)]

/-- **A walk meets every node.** -/
theorem mem_preorder (h : Bounded next n v) : u ∈ preorder next n v ↔ Reached next v u := by
  rw [← map_snd_walk, List.mem_map]
  constructor
  · rintro ⟨⟨a, u⟩, hmem, rfl⟩
    exact ⟨a, (mem_walk.mp hmem).2⟩
  · rintro ⟨a, hu⟩
    exact ⟨(a, u), mem_walk.mpr ⟨h a u hu, hu⟩, rfl⟩

theorem not_bounded_zero (v : V) : ¬Bounded next 0 v := fun h => absurd (h [] v (descend_nil v)) (Nat.not_lt_zero _)

/-- The unfolding below a node. -/
theorem bounded_succ_iff : Bounded next (n + 1) v ↔ ∀ w ∈ next v, Bounded next n w := by
  constructor
  · intro h w hw a u hu
    obtain ⟨i, hi⟩ := List.mem_iff_getElem?.mp hw
    have hlong := h (i :: a) u (by rw [descend_cons, hi, Option.bind_some, hu])
    exact Nat.lt_of_succ_lt_succ hlong
  · intro h a u hu
    cases a with
    | nil => exact Nat.succ_pos n
    | cons i a =>
        rw [descend_cons, Option.bind_eq_some_iff] at hu
        obtain ⟨w, hw, hu⟩ := hu
        exact Nat.succ_lt_succ (h w (List.mem_of_getElem? hw) a u hu)

theorem Reached.refl (v : V) : Reached next v v := ⟨[], descend_nil v⟩

theorem Reached.head (hw : w ∈ next v) (hu : Reached next w u) : Reached next v u := by
  obtain ⟨i, hi⟩ := List.mem_iff_getElem?.mp hw
  obtain ⟨a, ha⟩ := hu
  exact ⟨i :: a, by rw [descend_cons, hi, Option.bind_some, ha]⟩

end Knowdy.Unfolding
