import Mathlib.Data.List.Basic
import Mathlib.Data.List.Induction
import Mathlib.Logic.Relation

/-! # Values inherited along ordered declarations

Every node has a list of declarations. A declaration names a base and may set a value itself. The value of a node is
the one that is left when the declarations are gone through in their order: the value of a base replaces what was
there, and a value that is set replaces both.

* `overriding` — the value that declarations leave; `overriding_eq_some_iff` — the last declaration with a value.
* `ownValue` — the last value that a node sets itself; `SetAbove` — whether one is set at a node or above it.
* `Takes` — the node where a value is taken from, by the declarations alone.
* `Inherited` — values that meet the equation; `val_eq_some_iff` — **they are taken where `Takes` says**. -/

namespace Knowdy.Overriding

open Relation

variable {α β : Type}

/-- A declaration of a node. -/
structure Decl (α β : Type) where
  /-- The node that is inherited from. -/
  base : α
  /-- The value that the declaration sets itself. -/
  own : Option β

/-! ## (1) Lists of declarations -/

/-- The value after a declaration. -/
def Decl.over (val : α → Option β) (v : Option β) (d : Decl α β) : Option β := d.own <|> (val d.base <|> v)

/-- **The value that declarations leave**, where the bases have the values `val`. -/
def overriding (val : α → Option β) (l : List (Decl α β)) : Option β := l.foldl (Decl.over val) none

/-- A declaration that leaves the value as it was. -/
def Decl.Silent (val : α → Option β) (d : Decl α β) : Prop := d.own = none ∧ val d.base = none

theorem Decl.Silent.over {val : α → Option β} {d : Decl α β} (h : d.Silent val) (v : Option β) : d.over val v = v := by
  rw [Decl.over, h.1, h.2]
  rfl

theorem overriding_concat (val : α → Option β) (l : List (Decl α β)) (d : Decl α β) :
    overriding val (l ++ [d]) = d.over val (overriding val l) := by
  rw [overriding, List.foldl_append]
  rfl

/-- **The last declaration with a value decides.** -/
theorem overriding_eq_some_iff {val : α → Option β} {l : List (Decl α β)} {v : β} :
    overriding val l = some v ↔ ∃ pre d post, l = pre ++ d :: post ∧ (d.own <|> val d.base) = some v ∧
      ∀ e ∈ post, e.Silent val := by
  -- by induction from the end of the list, which is where the value is decided
  induction l using List.reverseRecOn with
  | nil =>
      constructor
      · intro h
        cases h
      · rintro ⟨pre, d, post, hnil, -⟩
        simp at hnil
  | append_singleton l last ih =>
      rw [overriding_concat]
      by_cases hlast : last.Silent val
      · rw [hlast.over, ih]
        constructor
        · rintro ⟨pre, d, post, rfl, hv, hpost⟩
          refine ⟨pre, d, post ++ [last], by simp, hv, fun e he => ?_⟩
          rcases List.mem_append.mp he with he | he
          · exact hpost e he
          · exact List.mem_singleton.mp he ▸ hlast
        · rintro ⟨pre, d, post, hl, hv, hpost⟩
          rcases List.eq_nil_or_concat' post with rfl | ⟨post, e, rfl⟩
          · -- the silent declaration has no value to give
            obtain ⟨-, rfl⟩ := List.append_inj' hl rfl |>.imp_right List.singleton_inj.mp
            rw [hlast.1, hlast.2] at hv
            cases hv
          · rw [← List.cons_append, ← List.append_assoc] at hl
            obtain ⟨rfl, -⟩ := List.append_inj' hl rfl
            exact ⟨pre, d, post, rfl, hv, fun e he => hpost e (List.mem_append_left _ he)⟩
      · have hsome : last.over val (overriding val l) = (last.own <|> val last.base) := by
          rw [Decl.over]
          cases hown : last.own with
          | some w => rfl
          | none =>
              cases hval : val last.base with
              | some w => rfl
              | none => exact absurd ⟨hown, hval⟩ hlast
        rw [hsome]
        constructor
        · intro hv
          exact ⟨l, last, [], rfl, hv, fun e he => absurd he List.not_mem_nil⟩
        · rintro ⟨pre, d, post, hl, hv, hpost⟩
          rcases List.eq_nil_or_concat' post with rfl | ⟨post, e, rfl⟩
          · obtain ⟨-, rfl⟩ := List.append_inj' hl rfl |>.imp_right List.singleton_inj.mp
            exact hv
          · rw [← List.cons_append, ← List.append_assoc] at hl
            obtain ⟨-, rfl⟩ := List.append_inj' hl rfl |>.imp_right List.singleton_inj.mp
            exact absurd (hpost _ (List.mem_append_right _ (List.mem_singleton_self _))) hlast

theorem overriding_eq_none_iff {val : α → Option β} {l : List (Decl α β)} :
    overriding val l = none ↔ ∀ d ∈ l, d.Silent val := by
  induction l using List.reverseRecOn with
  | nil => exact iff_of_true rfl fun d hd => absurd hd List.not_mem_nil
  | append_singleton l last ih =>
      rw [overriding_concat, Decl.over]
      constructor
      · intro h d hd
        cases hown : last.own with
        | some w =>
            rw [hown] at h
            cases h
        | none =>
            cases hval : val last.base with
            | some w =>
                rw [hown, hval] at h
                cases h
            | none =>
                rw [hown, hval] at h
                rcases List.mem_append.mp hd with hd | hd
                · exact ih.mp h d hd
                · exact List.mem_singleton.mp hd ▸ ⟨hown, hval⟩
      · intro h
        obtain ⟨hown, hval⟩ := h last (List.mem_append_right _ (List.mem_singleton_self _))
        rw [hown, hval]
        exact ih.mpr fun d hd => h d (List.mem_append_left _ hd)

/-- Values that agree on the bases leave the same value. -/
theorem overriding_congr {val val' : α → Option β} {l : List (Decl α β)} (h : ∀ d ∈ l, val' d.base = val d.base) :
    overriding val' l = overriding val l := by
  induction l using List.reverseRecOn with
  | nil => rfl
  | append_singleton l last ih =>
      rw [overriding_concat, overriding_concat, Decl.over, Decl.over,
        h last (List.mem_append_right _ (List.mem_singleton_self _)), ih fun d hd => h d (List.mem_append_left _ hd)]

/-- **The last value that declarations set themselves.** -/
def ownValue (l : List (Decl α β)) : Option β := overriding (fun _ => none) l

theorem ownValue_eq_some_iff {l : List (Decl α β)} {v : β} :
    ownValue l = some v ↔ ∃ pre d post, l = pre ++ d :: post ∧ d.own = some v ∧ ∀ e ∈ post, e.own = none := by
  simp only [ownValue, overriding_eq_some_iff, Decl.Silent, and_true]
  refine exists_congr fun pre => exists_congr fun d => exists_congr fun post => and_congr_right fun _ => ?_
  cases d.own <;> rfl

theorem ownValue_eq_none_iff {l : List (Decl α β)} : ownValue l = none ↔ ∀ d ∈ l, d.own = none := by
  simp only [ownValue, overriding_eq_none_iff, Decl.Silent, and_true]

/-! ## (2) Where values are taken from -/

section Nodes

variable (decls : α → List (Decl α β))

/-- `b` is a base of `c`. -/
def IsBase (c b : α) : Prop := ∃ d ∈ decls c, d.base = b

/-- The node sets a value itself. -/
def Sets (c : α) : Prop := ownValue (decls c) ≠ none

/-- A value is set at the node or above it. -/
def SetAbove (c : α) : Prop := ∃ n, ReflTransGen (IsBase decls) c n ∧ Sets decls n

/-- **The node `c` takes its value from `n`**: after the declaration that decides, no other sets a value or names a
base with one. -/
inductive Takes : α → α → Prop
  /-- The declaration sets a value itself. -/
  | own {c : α} {pre post : List (Decl α β)} {d : Decl α β} (hdecls : decls c = pre ++ d :: post) (hown : d.own ≠ none)
      (hpost : ∀ e ∈ post, e.own = none ∧ ¬SetAbove decls e.base) : Takes c c
  /-- Its base has a value. -/
  | base {c n : α} {pre post : List (Decl α β)} {d : Decl α β} (hdecls : decls c = pre ++ d :: post)
      (hown : d.own = none) (hbase : Takes d.base n) (hpost : ∀ e ∈ post, e.own = none ∧ ¬SetAbove decls e.base) :
      Takes c n

variable {decls}

theorem Takes.sets {c n : α} (h : Takes decls c n) : Sets decls n := by
  induction h with
  | own hdecls hown _ =>
      rw [Sets, hdecls]
      intro hnone
      exact hown (ownValue_eq_none_iff.mp hnone _ (List.mem_append_right _ (List.mem_cons_self ..)))
  | base _ _ _ _ ih => exact ih

theorem Takes.above {c n : α} (h : Takes decls c n) : ReflTransGen (IsBase decls) c n := by
  induction h with
  | own => exact .refl
  | base hdecls _ _ _ ih =>
      refine .head ⟨_, ?_, rfl⟩ ih
      rw [hdecls]
      exact List.mem_append_right _ (List.mem_cons_self ..)

/-- A value that is set above a node is set at it or above a base. -/
theorem SetAbove.cases {c : α} (h : SetAbove decls c) : Sets decls c ∨ ∃ d ∈ decls c, SetAbove decls d.base := by
  obtain ⟨n, hpath, hsets⟩ := h
  rcases hpath.cases_head with rfl | ⟨b, ⟨d, hd, rfl⟩, hpath⟩
  · exact .inl hsets
  · exact .inr ⟨d, hd, n, hpath, hsets⟩

theorem SetAbove.of_base {c : α} {d : Decl α β} (hd : d ∈ decls c) (h : SetAbove decls d.base) : SetAbove decls c := by
  obtain ⟨n, hpath, hsets⟩ := h
  exact ⟨n, .head ⟨d, hd, rfl⟩ hpath, hsets⟩

/-! ## (3) The values of the nodes -/

/-- **Values that the declarations leave** at the nodes of a kind, which is closed under bases and falls along them. -/
structure Inherited (decls : α → List (Decl α β)) (S : α → Prop) (num : α → Nat) (val : α → Option β) : Prop where
  /-- Bases belong to the kind, and come first. -/
  falling : ∀ c, S c → ∀ d ∈ decls c, S d.base ∧ num d.base < num c
  /-- The value of a node. -/
  val_eq : ∀ c, S c → val c = overriding val (decls c)

namespace Inherited

variable {S : α → Prop} {num : α → Nat} {val : α → Option β}

/-- Nodes of the kind, the bases of each before it. -/
theorem induct (h : Inherited decls S num val) {P : α → Prop} (hstep : ∀ c, S c → (∀ d ∈ decls c, P d.base) → P c)
    {c : α} (hc : S c) : P c := by
  induction hn : num c using Nat.strongRecOn generalizing c with
  | ind n ih =>
      refine hstep c hc fun d hd => ?_
      obtain ⟨hbase, hlt⟩ := h.falling c hc d hd
      exact ih (num d.base) (hn ▸ hlt) hbase rfl

/-- A node has a value where one is set at it or above it. -/
theorem val_eq_none_iff (h : Inherited decls S num val) {c : α} (hc : S c) : val c = none ↔ ¬SetAbove decls c := by
  refine h.induct (P := fun c => val c = none ↔ ¬SetAbove decls c) (fun c hc ih => ?_) hc
  rw [h.val_eq c hc, overriding_eq_none_iff]
  constructor
  · intro hsilent hset
    rcases hset.cases with hsets | ⟨d, hd, hset⟩
    · exact hsets (ownValue_eq_none_iff.mpr fun d hd => (hsilent d hd).1)
    · exact (ih d hd).mp (hsilent d hd).2 hset
  · intro hset d hd
    refine ⟨?_, (ih d hd).mpr fun hbase => hset (.of_base hd hbase)⟩
    have hnone : ownValue (decls c) = none := by
      refine Classical.byContradiction fun hsets => ?_
      exact hset ⟨c, .refl, hsets⟩
    exact ownValue_eq_none_iff.mp hnone d hd

/-- A declaration is silent where nothing is set in it or above it. -/
theorem silent_iff (h : Inherited decls S num val) {c : α} (hc : S c) {d : Decl α β} (hd : d ∈ decls c) :
    d.Silent val ↔ d.own = none ∧ ¬SetAbove decls d.base :=
  and_congr_right fun _ => h.val_eq_none_iff (h.falling c hc d hd).1

/-- **The value of a node is the last one that is set at the node that it takes its value from.** -/
theorem val_eq_some_iff (h : Inherited decls S num val) {c : α} (hc : S c) {v : β} :
    val c = some v ↔ ∃ n, Takes decls c n ∧ ownValue (decls n) = some v := by
  refine h.induct (P := fun c => val c = some v ↔ ∃ n, Takes decls c n ∧ ownValue (decls n) = some v)
    (fun c hc ih => ?_) hc
  have hpost : ∀ {pre post d}, decls c = pre ++ d :: post →
      ((∀ e ∈ post, e.Silent val) ↔ ∀ e ∈ post, e.own = none ∧ ¬SetAbove decls e.base) := by
    intro pre post d hdecls
    refine forall₂_congr fun e he => h.silent_iff hc ?_
    rw [hdecls]
    exact List.mem_append_right _ (List.mem_cons_of_mem _ he)
  rw [h.val_eq c hc, overriding_eq_some_iff]
  constructor
  · rintro ⟨pre, d, post, hdecls, hv, hsilent⟩
    rw [hpost hdecls] at hsilent
    cases hown : d.own with
    | some w =>
        rw [hown] at hv
        obtain rfl : w = v := Option.some.inj hv
        refine ⟨c, .own hdecls (by rw [hown]; exact Option.some_ne_none w) hsilent, ?_⟩
        exact ownValue_eq_some_iff.mpr ⟨pre, d, post, hdecls, hown, fun e he => (hsilent e he).1⟩
    | none =>
        rw [hown] at hv
        have hd : d ∈ decls c := by
          rw [hdecls]
          exact List.mem_append_right _ (List.mem_cons_self ..)
        obtain ⟨n, htakes, hn⟩ := (ih d hd).mp hv
        exact ⟨n, .base hdecls hown htakes hsilent, hn⟩
  · rintro ⟨n, htakes, hn⟩
    cases htakes with
    | @own _ pre post d hdecls hown hsilent =>
        refine ⟨pre, d, post, hdecls, ?_, (hpost hdecls).mpr hsilent⟩
        -- the value that is set last is that of this declaration
        obtain ⟨w, hw⟩ := Option.ne_none_iff_exists'.mp hown
        have hlast : ownValue (decls c) = some w :=
          ownValue_eq_some_iff.mpr ⟨pre, d, post, hdecls, hw, fun e he => (hsilent e he).1⟩
        rw [hw, ← hlast, hn]
        rfl
    | @base _ _ pre post d hdecls hown hbase hsilent =>
        have hd : d ∈ decls c := by
          rw [hdecls]
          exact List.mem_append_right _ (List.mem_cons_self ..)
        refine ⟨pre, d, post, hdecls, ?_, (hpost hdecls).mpr hsilent⟩
        rw [hown]
        exact (ih d hd).mpr ⟨n, hbase, hn⟩

end Inherited

end Nodes

end Knowdy.Overriding
