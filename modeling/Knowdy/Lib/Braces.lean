import Mathlib.Data.List.Basic
import Mathlib.Logic.Basic

/-! # Matched brackets

Texts over any alphabet with an opening and a closing bracket.

* `level` — how many brackets are open behind a text, none if one was closed that was not open.
* `level_append`, `level_add` — a text behind a text, and a text inside others.
* `Matched` — every bracket is closed; `Matched.append`, `Matched.flatMap`, `Matched.wrap`, `matched_of_plain`.
* `Single` — a balanced text with no balanced beginning; `single_wrap`.
* `PrefixFree` — texts none of which begins another one; a concatenation of such texts is read in one way
  (`PrefixFree.prefix_of_flatten`). -/

namespace Knowdy.Braces

variable {α : Type} [DecidableEq α] {l r : α} {n m : Nat} {s t : List α}

/-- The level behind a symbol. -/
def levelAfter (l r : α) (n : Nat) (c : α) : Option Nat :=
  if c = l then some (n + 1)
  else if c = r then (if n = 0 then none else some (n - 1))
  else some n

/-- **The level behind a text** that starts at level `n`. -/
def level (l r : α) (n : Nat) (s : List α) : Option Nat := s.foldlM (levelAfter l r) n

/-- **A balanced text.** -/
def Matched (l r : α) (s : List α) : Prop := level l r 0 s = some 0

instance decidableMatched (l r : α) (s : List α) : Decidable (Matched l r s) :=
  inferInstanceAs (Decidable (_ = _))

@[simp] theorem level_nil : level l r n [] = some n := rfl

theorem level_cons (c : α) : level l r n (c :: s) = (levelAfter l r n c).bind fun m => level l r m s := by
  rw [level, List.foldlM_cons]
  rfl

/-- The level behind two texts. -/
theorem level_append : level l r n (s ++ t) = (level l r n s).bind fun m => level l r m t := by
  rw [level, List.foldlM_append]
  rfl

/-- A symbol inside `k` more brackets. -/
theorem levelAfter_add {c : α} (h : levelAfter l r n c = some m) (k : Nat) :
    levelAfter l r (n + k) c = some (m + k) := by
  unfold levelAfter at h ⊢
  split_ifs at h ⊢ with hl hr h0 hk
  · cases h
    congr 1
    omega
  · omega
  · cases h
    congr 1
    omega
  · cases h
    rfl

/-- **A text inside `k` more brackets.** -/
theorem level_add (h : level l r n s = some m) (k : Nat) : level l r (n + k) s = some (m + k) := by
  induction s generalizing n with
  | nil =>
      cases h
      rfl
  | cons c s ih =>
      rw [level_cons, Option.bind_eq_some_iff] at h
      obtain ⟨n', hc, hs⟩ := h
      rw [level_cons, levelAfter_add hc k]
      exact ih hs

theorem matched_nil : Matched l r [] := rfl

/-- A text without brackets. -/
theorem matched_of_plain (h : ∀ c ∈ s, c ≠ l ∧ c ≠ r) : Matched l r s := by
  induction s with
  | nil => exact matched_nil
  | cons c s ih =>
      obtain ⟨hl, hr⟩ := h c List.mem_cons_self
      rw [Matched, level_cons, levelAfter, if_neg hl, if_neg hr]
      exact ih fun d hd => h d (List.mem_cons_of_mem c hd)

namespace Matched

/-- A balanced text leaves the level alone. -/
theorem level_eq (h : Matched l r s) (n : Nat) : level l r n s = some n := by
  have hadd := level_add h n
  rwa [Nat.zero_add] at hadd

/-- Behind a balanced text. -/
theorem level_append (h : Matched l r s) (n : Nat) (t : List α) : level l r n (s ++ t) = level l r n t := by
  rw [Braces.level_append, h.level_eq]
  rfl

theorem append (hs : Matched l r s) (ht : Matched l r t) : Matched l r (s ++ t) :=
  (hs.level_append 0 t).trans ht

/-- A concatenation of balanced texts. -/
theorem flatMap {β : Type} {f : β → List α} {xs : List β} (h : ∀ x ∈ xs, Matched l r (f x)) :
    Matched l r (xs.flatMap f) := by
  induction xs with
  | nil => exact matched_nil
  | cons x xs ih =>
      rw [List.flatMap_cons]
      exact (h x List.mem_cons_self).append (ih fun y hy => h y (List.mem_cons_of_mem x hy))

/-- A balanced text in brackets. -/
theorem wrap (hlr : l ≠ r) (h : Matched l r s) : Matched l r (l :: s ++ [r]) := by
  have hopen : levelAfter l r 0 l = some 1 := if_pos rfl
  have hclose : level l r 1 [r] = some 0 := by
    rw [level_cons, levelAfter, if_neg hlr.symm, if_pos rfl]
    rfl
  rw [Matched, List.cons_append, level_cons, hopen]
  exact (h.level_append 1 [r]).trans hclose

end Matched

/-- No bracket is closed that was not open, also in the beginning of a text. -/
theorem level_of_prefix {p : List α} (h : p <+: s) (hs : level l r n s = some m) : ∃ k, level l r n p = some k := by
  obtain ⟨q, rfl⟩ := h
  rw [level_append, Option.bind_eq_some_iff] at hs
  obtain ⟨k, hk, -⟩ := hs
  exact ⟨k, hk⟩

/-! ### Single terms -/

/-- **A single term**: a balanced text that has no balanced beginning. -/
structure Single (l r : α) (s : List α) : Prop where
  /-- It is balanced. -/
  matched : Matched l r s
  /-- It is not empty. -/
  ne_nil : s ≠ []
  /-- Before its end a bracket is open. -/
  eq_of_prefix : ∀ p, p <+: s → p ≠ [] → Matched l r p → p = s

/-- Inside the outermost brackets a bracket is open. -/
theorem level_prefix_wrap (h : Matched l r s) {p : List α} (hp : p <+: l :: s ++ [r]) (hne : p ≠ [])
    (hproper : p ≠ l :: s ++ [r]) : ∃ k, level l r 0 p = some (k + 1) := by
  cases p with
  | nil => exact absurd rfl hne
  | cons c q =>
      obtain ⟨rfl, hq⟩ := List.cons_prefix_cons.mp (List.cons_append .. ▸ hp)
      have hqs : q <+: s := by
        rcases List.prefix_concat_iff.mp hq with rfl | hqs
        · exact absurd rfl hproper
        · exact hqs
      obtain ⟨k, hk⟩ := level_of_prefix hqs h
      refine ⟨k, ?_⟩
      have hopen : levelAfter c r 0 c = some 1 := if_pos rfl
      rw [level_cons, hopen]
      exact level_add hk 1

/-- **A balanced text in brackets is a single term.** -/
theorem single_wrap (hlr : l ≠ r) (h : Matched l r s) : Single l r (l :: s ++ [r]) := by
  refine ⟨h.wrap hlr, List.cons_ne_nil l _, fun p hp hne hbal => ?_⟩
  by_contra hproper
  obtain ⟨k, hk⟩ := level_prefix_wrap h hp hne hproper
  cases hk.symm.trans hbal

/-- The beginnings of a single term that balance. -/
theorem Single.matched_prefix_iff (h : Single l r s) {p : List α} (hp : p <+: s) :
    Matched l r p ↔ p = [] ∨ p = s := by
  constructor
  · intro hbal
    by_cases hne : p = []
    · exact .inl hne
    · exact .inr (h.eq_of_prefix p hp hne hbal)
  · rintro (rfl | rfl)
    · exact matched_nil
    · exact h.matched

/-- **The beginnings of a list of single terms that balance**, with a plain symbol behind each term: those that end
with a term or behind that symbol. -/
theorem matched_prefix_iff {xs : List (List α)} (hxs : ∀ x ∈ xs, Single l r x) {c : α} (hl : c ≠ l) (hr : c ≠ r)
    {p : List α} (hp : p <+: (xs.map (· ++ [c])).flatten) :
    Matched l r p ↔ ∃ k, p = ((xs.take k).map (· ++ [c])).flatten ∨
      p ++ [c] = ((xs.take k).map (· ++ [c])).flatten := by
  have hc : Matched l r [c] := matched_of_plain fun d hd => by
    rw [List.mem_singleton.mp hd]
    exact ⟨hl, hr⟩
  constructor
  · intro hbal
    induction xs generalizing p with
    | nil => exact ⟨0, .inl (List.prefix_nil.mp hp)⟩
    | cons x xs ih =>
        have hx := hxs x List.mem_cons_self
        rw [List.map_cons, List.flatten_cons, List.append_assoc] at hp
        rcases List.prefix_or_prefix_of_prefix hp (List.prefix_append x _) with hpx | ⟨q, rfl⟩
        · rcases (hx.matched_prefix_iff hpx).mp hbal with rfl | rfl
          · exact ⟨0, .inl rfl⟩
          · exact ⟨1, .inr (by simp)⟩
        · rw [List.prefix_append_right_inj] at hp
          cases q with
          | nil => exact ⟨1, .inr (by simp)⟩
          | cons d q =>
              obtain ⟨rfl, hq⟩ := List.cons_prefix_cons.mp hp
              rw [Matched, hx.matched.level_append, ← List.singleton_append, hc.level_append] at hbal
              obtain ⟨k, hk⟩ := ih (fun y hy => hxs y (List.mem_cons_of_mem x hy)) hq hbal
              refine ⟨k + 1, ?_⟩
              rw [List.take_succ_cons, List.map_cons, List.flatten_cons]
              rcases hk with hk | hk
              · exact .inl (by rw [hk]; simp)
              · exact .inr (by rw [← hk]; simp)
  · have hall : ∀ k, Matched l r ((xs.take k).map (· ++ [c])).flatten := by
      intro k
      rw [List.flatten_eq_flatMap, List.flatMap_map]
      exact .flatMap fun x hx => (hxs x (List.mem_of_mem_take hx)).matched.append hc
    rintro ⟨k, rfl | hk⟩
    · exact hall k
    · obtain ⟨m, hm⟩ := level_of_prefix (List.prefix_append p [c]) (hk ▸ hall k)
      have hboth := hall k
      rw [← hk, Matched, level_append, hm] at hboth
      have hlevel := hc.level_eq m
      rw [Matched, hm]
      exact congrArg some (Option.some.inj (hlevel.symm.trans hboth))

/-! ### Reading a concatenation -/

omit [DecidableEq α] in
/-- **None of these texts begins another one**, and none is empty. -/
structure PrefixFree (P : List α → Prop) : Prop where
  /-- None is empty. -/
  ne_nil : ∀ s, P s → s ≠ []
  /-- None begins another one. -/
  eq_of_prefix : ∀ s t, P s → P t → s <+: t → s = t

/-- Single terms with the same text behind each. -/
theorem prefixFree_single (l r : α) (sep : List α) : PrefixFree fun s => ∃ t, Single l r t ∧ s = t ++ sep := by
  refine ⟨?_, ?_⟩
  · rintro s ⟨t, ht, rfl⟩ hnil
    exact ht.ne_nil (List.append_eq_nil_iff.mp hnil).1
  · rintro s s' ⟨t, ht, rfl⟩ ⟨t', ht', rfl⟩ hp
    have hle : t <+: t' ++ sep := (List.prefix_append t sep).trans hp
    have heq : t = t' := by
      rcases List.prefix_or_prefix_of_prefix hle (List.prefix_append t' sep) with htt' | htt'
      · exact ht'.eq_of_prefix t htt' ht.ne_nil ht.matched
      · exact (ht.eq_of_prefix t' htt' ht'.ne_nil ht'.matched).symm
    rw [heq]

omit [DecidableEq α] in
/-- **A concatenation is read in one way**: one that begins another one begins with the same texts. -/
theorem PrefixFree.prefix_of_flatten {P : List α → Prop} (hP : PrefixFree P) {xs ys : List (List α)}
    (hxs : ∀ x ∈ xs, P x) (hys : ∀ y ∈ ys, P y) (h : xs.flatten <+: ys.flatten) : xs <+: ys := by
  induction xs generalizing ys with
  | nil => exact List.nil_prefix
  | cons x xs ih =>
      have hx := hxs x List.mem_cons_self
      cases ys with
      | nil =>
          rw [List.flatten_cons, List.flatten_nil, List.prefix_nil] at h
          exact absurd (List.append_eq_nil_iff.mp h).1 (hP.ne_nil x hx)
      | cons y ys =>
          have hy := hys y List.mem_cons_self
          rw [List.flatten_cons, List.flatten_cons] at h
          have heq : x = y := by
            rcases List.prefix_or_prefix_of_prefix ((List.prefix_append x _).trans h) (List.prefix_append y _) with
              hxy | hyx
            · exact hP.eq_of_prefix x y hx hy hxy
            · exact (hP.eq_of_prefix y x hy hx hyx).symm
          subst heq
          rw [List.prefix_append_right_inj] at h
          rw [List.cons_prefix_cons]
          exact ⟨rfl, ih (fun z hz => hxs z (List.mem_cons_of_mem x hz)) (fun z hz => hys z (List.mem_cons_of_mem x hz)) h⟩

end Knowdy.Braces
