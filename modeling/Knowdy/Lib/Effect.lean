import Mathlib.Order.Defs.Unbundled

/-! # Imperative programs that may fail

A program over a state is an `EStateM ε σ α`: a failing run keeps the state it had when it failed,
as code that returns an error code from the middle of its work does.

* `finalState`, `returns`, `failure?` — the state left behind, whether the run returns, and its error.
* `Moves R x` — every run of `x` moves the state along the preorder `R`. Frames (`Kept f`),
  invariants (`Stable I`) and growth are instances; the rules of section (2) derive them from
  single steps.
* `forM_ok_induction`, `forM_error_induction` — the invariant rules of a loop; `forM_append`, `forM_filterMap`, `forM_flatMap`.
* `Yields x s I Q` — what holds where a run ends, returned or failed; `Yields.forM` — a loop; `EachMeets`,
  `forM_yields` — a loop whose rounds depend on a condition on the state they are reached in.
* `zoom` — a program over a part of the state, run on the whole. -/

namespace Knowdy

variable {ε σ τ α β : Type}

/-! ## (1) Runs -/

/-- The state a run leaves behind, whether it returns or fails. -/
def finalState (x : EStateM ε σ α) (s : σ) : σ :=
  match x.run s with
  | .ok _ s' => s'
  | .error _ s' => s'

theorem finalState_of_ok {x : EStateM ε σ α} {s s' : σ} {a : α} (h : x.run s = .ok a s') :
    finalState x s = s' := by
  rw [finalState, h]

theorem finalState_of_error {x : EStateM ε σ α} {s s' : σ} {e : ε} (h : x.run s = .error e s') :
    finalState x s = s' := by
  rw [finalState, h]

/-- Does the run return? -/
def returns (x : EStateM ε σ α) (s : σ) : Bool :=
  match x.run s with
  | .ok _ _ => true
  | .error _ _ => false

/-- The error a run fails with. -/
def failure? (x : EStateM ε σ α) (s : σ) : Option ε :=
  match x.run s with
  | .ok _ _ => none
  | .error e _ => some e

theorem returns_iff {x : EStateM ε σ α} {s : σ} :
    returns x s = true ↔ ∃ a, x.run s = .ok a (finalState x s) := by
  rw [returns, finalState]
  cases x.run s with
  | ok a s' => exact ⟨fun _ => ⟨a, rfl⟩, fun _ => rfl⟩
  | error e s' =>
      constructor
      · intro h
        cases h
      · rintro ⟨a, h⟩
        cases h

@[simp] theorem finalState_pure (a : α) (s : σ) : finalState (pure a : EStateM ε σ α) s = s := rfl

@[simp] theorem finalState_throw (e : ε) (s : σ) :
    finalState (throw e : EStateM ε σ α) s = s := rfl

@[simp] theorem finalState_modify (f : σ → σ) (s : σ) :
    finalState (modify f : EStateM ε σ PUnit) s = f s := rfl

/-- **Sequencing**: a bind returns exactly when both of its parts return. -/
theorem run_bind_eq_ok {x : EStateM ε σ α} {f : α → EStateM ε σ β} {s s' : σ} {b : β} :
    (x >>= f).run s = .ok b s' ↔ ∃ a s₁, x.run s = .ok a s₁ ∧ (f a).run s₁ = .ok b s' := by
  rw [EStateM.run_bind]
  constructor
  · intro h
    cases hx : x.run s with
    | ok a s₁ => exact ⟨a, s₁, rfl, by rw [hx] at h; exact h⟩
    | error e s₁ => rw [hx] at h; cases h
  · rintro ⟨a, s₁, hx, hf⟩
    rw [hx]
    exact hf

/-- A bind fails in its first part or in its second. -/
theorem run_bind_eq_error {x : EStateM ε σ α} {f : α → EStateM ε σ β} {s s' : σ} {e : ε} :
    (x >>= f).run s = .error e s' ↔
      x.run s = .error e s' ∨ ∃ a s₁, x.run s = .ok a s₁ ∧ (f a).run s₁ = .error e s' := by
  rw [EStateM.run_bind]
  cases x.run s with
  | ok a s₁ =>
      refine ⟨fun h => .inr ⟨a, s₁, rfl, h⟩, ?_⟩
      rintro (h | ⟨a', s₁', h, hf⟩)
      · cases h
      · cases h
        exact hf
  | error e' s₁ =>
      constructor
      · intro h
        cases h
        exact .inl rfl
      · rintro (h | ⟨a', s₁', h, -⟩)
        · cases h
          rfl
        · cases h

/-- A bind whose first part returns goes on from there. -/
theorem run_bind_of_ok {x : EStateM ε σ α} {f : α → EStateM ε σ β} {s s' : σ} {a : α}
    (h : x.run s = .ok a s') : (x >>= f).run s = (f a).run s' := by
  rw [EStateM.run_bind, h]

/-- A program that looks at the state first. -/
theorem run_get_bind (f : σ → EStateM ε σ α) (s : σ) : (get >>= f).run s = (f s).run s := rfl

/-- A bind whose first part fails fails there. -/
theorem run_bind_of_error {x : EStateM ε σ α} {f : α → EStateM ε σ β} {s s' : σ} {e : ε}
    (h : x.run s = .error e s') : (x >>= f).run s = .error e s' := by
  rw [EStateM.run_bind, h]

/-! ## (2) Programs that move the state along a preorder -/

/-- **Every run of `x`, failed ones included, moves the state along `R`.** -/
def Moves (R : σ → σ → Prop) (x : EStateM ε σ α) : Prop := ∀ s, R s (finalState x s)

/-- The relation of a frame condition: the part `f` of the state is kept. -/
def Kept (f : σ → τ) (s s' : σ) : Prop := f s' = f s

/-- The relation of an invariant. -/
def Stable (I : σ → Prop) (s s' : σ) : Prop := I s → I s'

instance (f : σ → τ) : IsPreorder σ (Kept f) where
  refl _ := rfl
  trans _ _ _ h h' := Eq.trans h' h

instance (I : σ → Prop) : IsPreorder σ (Stable I) where
  refl _ := id
  trans _ _ _ h h' := h' ∘ h

namespace Moves

variable {R : σ → σ → Prop}

theorem of_ok {x : EStateM ε σ α} (h : Moves R x) {s s' : σ} {a : α} (hx : x.run s = .ok a s') :
    R s s' := by
  have := h s
  rwa [finalState_of_ok hx] at this

theorem of_error {x : EStateM ε σ α} (h : Moves R x) {s s' : σ} {e : ε}
    (hx : x.run s = .error e s') : R s s' := by
  have := h s
  rwa [finalState_of_error hx] at this

/-- A weaker relation. -/
theorem mono {R' : σ → σ → Prop} {x : EStateM ε σ α} (h : Moves R x) (hR : ∀ s s', R s s' → R' s s') :
    Moves R' x := fun s => hR _ _ (h s)

theorem modify {f : σ → σ} (h : ∀ s, R s (f s)) : Moves R (modify f : EStateM ε σ PUnit) := h

theorem set {s₁ : σ} (h : ∀ s, R s s₁) : Moves R (set s₁ : EStateM ε σ PUnit) := h

/-- A program that looks at the state first. -/
theorem get_bind {f : σ → EStateM ε σ β} (h : ∀ s, R s (finalState (f s) s)) :
    Moves R (get >>= f) := h

theorem ite {p : Prop} [Decidable p] {x y : EStateM ε σ α} (hx : p → Moves R x) (hy : ¬p → Moves R y) :
    Moves R (if p then x else y) := by
  by_cases h : p
  · rw [if_pos h]; exact hx h
  · rw [if_neg h]; exact hy h

variable [IsPreorder σ R]

theorem pure (a : α) : Moves R (pure a : EStateM ε σ α) := fun s => refl_of R s

theorem throw (e : ε) : Moves R (throw e : EStateM ε σ α) := fun s => refl_of R s

theorem get : Moves R (get : EStateM ε σ σ) := fun s => refl_of R s

/-- **Sequencing** composes the moves. -/
theorem bind {x : EStateM ε σ α} {f : α → EStateM ε σ β} (hx : Moves R x) (hf : ∀ a, Moves R (f a)) :
    Moves R (x >>= f) := by
  intro s
  cases hs : x.run s with
  | ok a s₁ =>
      have htail : finalState (x >>= f) s = finalState (f a) s₁ := by
        rw [finalState, finalState, run_bind_of_ok hs]
      rw [htail]
      exact trans_of R (hx.of_ok hs) (hf a s₁)
  | error e s₁ =>
      rw [finalState_of_error (run_bind_of_error hs)]
      exact hx.of_error hs

theorem map {x : EStateM ε σ α} (hx : Moves R x) (f : α → β) : Moves R (f <$> x) := by
  rw [map_eq_pure_bind]
  exact bind hx fun a => pure (f a)

/-- **Loops** compose the moves of their rounds. -/
theorem forM {l : List α} {f : α → EStateM ε σ PUnit} (h : ∀ a ∈ l, Moves R (f a)) :
    Moves R (l.forM f) := by
  induction l with
  | nil => exact pure _
  | cons a l ih =>
      exact bind (h a (List.mem_cons_self ..)) fun _ =>
        ih fun b hb => h b (List.mem_cons_of_mem a hb)

end Moves

/-- **Invariant of a successful loop.** When a loop over `l` returns, a property of the rounds done so
far that every returning round extends holds of the whole list. -/
theorem forM_ok_induction {l : List α} {f : α → EStateM ε σ PUnit} (P : List α → σ → Prop)
    {s s' : σ} (hrun : (l.forM f).run s = .ok () s') (h0 : P [] s)
    (hstep : ∀ pre a s₁ s₂, a ∈ l → P pre s₁ → (f a).run s₁ = .ok () s₂ → P (pre ++ [a]) s₂) :
    P l s' := by
  suffices hgen : ∀ pre s, P pre s → (l.forM f).run s = .ok () s' →
      (∀ pre a s₁ s₂, a ∈ l → P pre s₁ → (f a).run s₁ = .ok () s₂ → P (pre ++ [a]) s₂) →
      P (pre ++ l) s' from hgen [] s h0 hrun hstep
  clear h0 hrun hstep
  induction l with
  | nil =>
      rintro pre s hp h -
      cases h
      rwa [List.append_nil]
  | cons a l ih =>
      intro pre s hp h hstep
      obtain ⟨u, s₁, ha, hl⟩ := run_bind_eq_ok.mp h
      have hp' := hstep pre a s s₁ (List.mem_cons_self ..) hp ha
      have hdone := ih (pre ++ [a]) s₁ hp' hl fun pre b s₁ s₂ hb =>
        hstep pre b s₁ s₂ (List.mem_cons_of_mem a hb)
      rwa [List.append_assoc] at hdone

/-- **Where a loop fails.** When a loop over `l` fails, some round fails after a prefix of rounds that
returned, with the property that every returning round extends. -/
theorem forM_error_induction {l : List α} {f : α → EStateM ε σ PUnit} (P : List α → σ → Prop)
    {s s' : σ} {e : ε} (hrun : (l.forM f).run s = .error e s') (h0 : P [] s)
    (hstep : ∀ pre a s₁ s₂, a ∈ l → P pre s₁ → (f a).run s₁ = .ok () s₂ → P (pre ++ [a]) s₂) :
    ∃ pre a post s₁, l = pre ++ a :: post ∧ P pre s₁ ∧ (f a).run s₁ = .error e s' := by
  suffices hgen : ∀ pre s, P pre s → (l.forM f).run s = .error e s' →
      (∀ pre a s₁ s₂, a ∈ l → P pre s₁ → (f a).run s₁ = .ok () s₂ → P (pre ++ [a]) s₂) →
      ∃ mid a post s₁, l = mid ++ a :: post ∧ P (pre ++ mid) s₁ ∧ (f a).run s₁ = .error e s' by
    obtain ⟨mid, a, post, s₁, hl, hp, hf⟩ := hgen [] s h0 hrun hstep
    exact ⟨mid, a, post, s₁, hl, by rwa [List.nil_append] at hp, hf⟩
  clear h0 hrun hstep
  induction l with
  | nil =>
      rintro pre s - h
      cases h
  | cons a l ih =>
      intro pre s hp h hstep
      rcases run_bind_eq_error.mp h with hfail | ⟨u, s₁, ha, hl⟩
      · exact ⟨[], a, l, s, rfl, by rwa [List.append_nil], hfail⟩
      · have hp' := hstep pre a s s₁ (List.mem_cons_self ..) hp ha
        obtain ⟨mid, b, post, s₂, hsplit, hpb, hf⟩ := ih (pre ++ [a]) s₁ hp' hl
          fun pre b s₁ s₂ hb => hstep pre b s₁ s₂ (List.mem_cons_of_mem a hb)
        exact ⟨a :: mid, b, post, s₂, by rw [hsplit]; rfl, by simpa using hpb, hf⟩

/-- A loop over a concatenation is two loops. -/
theorem forM_append (l₁ l₂ : List α) (f : α → EStateM ε σ PUnit) :
    (l₁ ++ l₂).forM f = l₁.forM f >>= fun _ => l₂.forM f := by
  induction l₁ with
  | nil => rfl
  | cons a l₁ ih =>
      show (f a >>= fun _ => (l₁ ++ l₂).forM f) = (f a >>= fun _ => l₁.forM f) >>= fun _ => l₂.forM f
      rw [ih, bind_assoc]

/-- A loop over optional elements is a loop over the elements that are there. -/
theorem forM_filterMap (l : List β) (g : β → Option α) (f : α → EStateM ε σ PUnit) :
    (l.filterMap g).forM f = l.forM fun b => match g b with
      | none => pure ()
      | some a => f a := by
  induction l with
  | nil => rfl
  | cons b l ih =>
      show _ = (match g b with | none => pure () | some a => f a) >>= fun _ => _
      cases hb : g b with
      | none => rw [List.filterMap_cons_none hb, pure_bind, ih]
      | some a =>
          rw [List.filterMap_cons_some hb]
          show (f a >>= fun _ => (l.filterMap g).forM f) = _
          rw [ih]

/-- Nested loops are one loop over the concatenation. -/
theorem forM_flatMap (l : List β) (g : β → List α) (f : α → EStateM ε σ PUnit) :
    (l.flatMap g).forM f = l.forM fun b => (g b).forM f := by
  induction l with
  | nil => rfl
  | cons b l ih =>
      rw [List.flatMap_cons, forM_append, ih]
      rfl

/-! ## (3) Outcomes -/

/-- **What a run ends in**: `I` holds of the value and the state of a run that returns, `Q` of the state of
a run that fails. -/
def Yields (x : EStateM ε σ α) (s : σ) (I : α → σ → Prop) (Q : σ → Prop) : Prop :=
  match x.run s with
  | .ok a s' => I a s'
  | .error _ s' => Q s'

namespace Yields

variable {x : EStateM ε σ α} {f : α → EStateM ε σ β} {s : σ} {I : α → σ → Prop} {J : β → σ → Prop}
  {Q : σ → Prop}

theorem of_ok (h : Yields x s I Q) {a : α} {s' : σ} (hx : x.run s = .ok a s') : I a s' := by
  unfold Yields at h
  rwa [hx] at h

theorem of_error (h : Yields x s I Q) {e : ε} {s' : σ} (hx : x.run s = .error e s') : Q s' := by
  unfold Yields at h
  rwa [hx] at h

theorem intro (hok : ∀ a s', x.run s = .ok a s' → I a s') (herror : ∀ e s', x.run s = .error e s' → Q s') :
    Yields x s I Q := by
  unfold Yields
  cases hx : x.run s with
  | ok a s' => exact hok a s' hx
  | error e s' => exact herror e s' hx

/-- A run that returns. -/
theorem returning {a : α} {s' : σ} (hx : x.run s = .ok a s') (h : I a s') : Yields x s I Q := by
  unfold Yields
  rw [hx]
  exact h

/-- Weaker conclusions. -/
theorem mono {I' : α → σ → Prop} {Q' : σ → Prop} (h : Yields x s I Q) (hI : ∀ a s, I a s → I' a s)
    (hQ : ∀ s, Q s → Q' s) : Yields x s I' Q' :=
  intro (fun _ _ hx => hI _ _ (h.of_ok hx)) fun _ _ hx => hQ _ (h.of_error hx)

/-- **Sequencing**. -/
theorem bind (h : Yields x s I Q) (hf : ∀ a s', I a s' → Yields (f a) s' J Q) :
    Yields (x >>= f) s J Q := by
  refine intro (fun b s' hrun => ?_) fun e s' hrun => ?_
  · obtain ⟨a, s₁, hx, hrest⟩ := run_bind_eq_ok.mp hrun
    exact (hf a s₁ (h.of_ok hx)).of_ok hrest
  · rcases run_bind_eq_error.mp hrun with hx | ⟨a, s₁, hx, hrest⟩
    · exact h.of_error hx
    · exact (hf a s₁ (h.of_ok hx)).of_error hrest

/-- A program that looks at the state first. -/
theorem get_bind {g : σ → EStateM ε σ α} (h : Yields (g s) s I Q) : Yields (get >>= g) s I Q := h

theorem ite {p : Prop} [Decidable p] {y : EStateM ε σ α} (hx : p → Yields x s I Q)
    (hy : ¬p → Yields y s I Q) : Yields (if p then x else y) s I Q := by
  by_cases h : p
  · rw [if_pos h]; exact hx h
  · rw [if_neg h]; exact hy h

/-- The invariant of a program holds where its runs end. -/
theorem of_moves {P : σ → Prop} (h : Moves (Stable P) x) (hs : P s) : Yields x s (fun _ => P) P :=
  intro (fun _ _ hx => h.of_ok hx hs) fun _ _ hx => h.of_error hx hs

/-- The same of returning and of failing runs. -/
theorem iff_finalState {P : σ → Prop} : Yields x s (fun _ => P) P ↔ P (finalState x s) := by
  unfold Yields finalState
  cases x.run s <;> exact Iff.rfl

end Yields

/-- **Loops**: what a prefix of the rounds leaves is extended by the next round. -/
theorem Yields.forM {g : α → EStateM ε σ PUnit} {Q : σ → Prop} {l : List α} {s : σ} (P : List α → σ → Prop)
    (h0 : P [] s)
    (hstep : ∀ pre a post s, l = pre ++ a :: post → P pre s → Yields (g a) s (fun _ => P (pre ++ [a])) Q) :
    Yields (l.forM g) s (fun _ => P l) Q := by
  suffices hgen : ∀ done rest s, l = done ++ rest → P done s → Yields (rest.forM g) s (fun _ => P l) Q from
    hgen [] l s rfl h0
  intro done rest
  induction rest generalizing done with
  | nil =>
      intro s hl hdone
      rw [List.append_nil] at hl
      exact hl ▸ hdone
  | cons a rest ih =>
      intro s hl hdone
      refine (hstep done a rest s hl hdone).bind fun _ s' hs' => ih (done ++ [a]) s' ?_ hs'
      rw [hl, List.append_assoc]
      rfl

/-- **Every round of a loop meets a condition** in the state in which it is reached. -/
def EachMeets (f : α → EStateM ε σ PUnit) (meets : σ → α → Prop) : σ → List α → Prop
  | _, [] => True
  | s, a :: l => meets s a ∧ match (f a).run s with
      | .ok _ s' => EachMeets f meets s' l
      | .error _ _ => True

/-- **A loop whose rounds meet their conditions** keeps what each of its rounds keeps. -/
theorem forM_yields {f : α → EStateM ε σ PUnit} {meets : σ → α → Prop} {I Q : σ → Prop}
    (hf : ∀ s a, I s → meets s a → Yields (f a) s (fun _ => I) Q) {l : List α} {s : σ} (hs : I s)
    (hl : EachMeets f meets s l) : Yields (l.forM f) s (fun _ => I) Q := by
  induction l generalizing s with
  | nil => exact hs
  | cons a l ih =>
      obtain ⟨ha, hrest⟩ := hl
      have hfirst := hf s a hs ha
      refine Yields.intro (fun u s' hrun => ?_) fun e s' hrun => ?_
      · obtain ⟨v, s₁, hx, hrun⟩ := run_bind_eq_ok.mp hrun
        rw [hx] at hrest
        exact (ih (hfirst.of_ok hx) hrest).of_ok hrun
      · rcases run_bind_eq_error.mp hrun with hx | ⟨v, s₁, hx, hrun⟩
        · exact hfirst.of_error hx
        · rw [hx] at hrest
          exact (ih (hfirst.of_ok hx) hrest).of_error hrun

/-- A program before such a loop. -/
theorem Yields.then_forM {x : EStateM ε σ PUnit} {f : α → EStateM ε σ PUnit} {meets : σ → α → Prop}
    {I Q : σ → Prop} {l : List α} {s : σ} (hx : Yields x s (fun _ => I) Q)
    (hf : ∀ s a, I s → meets s a → Yields (f a) s (fun _ => I) Q)
    (hl : ∀ s', x.run s = .ok () s' → EachMeets f meets s' l) :
    Yields (x >>= fun _ => l.forM f) s (fun _ => I) Q := by
  refine Yields.intro (fun u s' hrun => ?_) fun e s' hrun => ?_
  · obtain ⟨v, s₁, hfirst, hrest⟩ := run_bind_eq_ok.mp hrun
    exact (forM_yields hf (hx.of_ok hfirst) (hl s₁ hfirst)).of_ok hrest
  · rcases run_bind_eq_error.mp hrun with hfirst | ⟨v, s₁, hfirst, hrest⟩
    · exact hx.of_error hfirst
    · exact (forM_yields hf (hx.of_ok hfirst) (hl s₁ hfirst)).of_error hrest

/-! ## (4) Programs over a part of the state -/

/-- Run a program over the part `get` of the state, which `put` writes back. -/
def zoom (get : τ → σ) (put : σ → τ → τ) (x : EStateM ε σ α) : EStateM ε τ α := fun t =>
  match x.run (get t) with
  | .ok a s' => .ok a (put s' t)
  | .error e s' => .error e (put s' t)

theorem run_zoom (get : τ → σ) (put : σ → τ → τ) (x : EStateM ε σ α) (t : τ) :
    (zoom get put x).run t = match x.run (get t) with
      | .ok a s' => .ok a (put s' t)
      | .error e s' => .error e (put s' t) := rfl

theorem finalState_zoom (get : τ → σ) (put : σ → τ → τ) (x : EStateM ε σ α) (t : τ) :
    finalState (zoom get put x) t = put (finalState x (get t)) t := by
  rw [finalState, run_zoom, finalState]
  cases x.run (get t) <;> rfl

theorem run_zoom_eq_ok {get : τ → σ} {put : σ → τ → τ} {x : EStateM ε σ α} {t t' : τ} {a : α} :
    (zoom get put x).run t = .ok a t' ↔ ∃ s', x.run (get t) = .ok a s' ∧ t' = put s' t := by
  rw [run_zoom]
  cases x.run (get t) with
  | ok b s' =>
      constructor
      · intro h
        cases h
        exact ⟨s', rfl, rfl⟩
      · rintro ⟨s'', h, rfl⟩
        cases h
        rfl
  | error e s' => simp

theorem run_zoom_eq_error {get : τ → σ} {put : σ → τ → τ} {x : EStateM ε σ α} {t t' : τ} {e : ε} :
    (zoom get put x).run t = .error e t' ↔
      ∃ s', x.run (get t) = .error e s' ∧ t' = put s' t := by
  rw [run_zoom]
  cases x.run (get t) with
  | ok b s' => simp
  | error e' s' =>
      constructor
      · intro h
        cases h
        exact ⟨s', rfl, rfl⟩
      · rintro ⟨s'', h, rfl⟩
        cases h
        rfl

/-- A program over a part keeps what writing the part back keeps. -/
theorem Moves.zoom {get : τ → σ} {put : σ → τ → τ} {R : τ → τ → Prop} (x : EStateM ε σ α)
    (h : ∀ s t, R t (put s t)) : Moves R (zoom get put x) := by
  intro t
  rw [finalState_zoom]
  exact h _ t

end Knowdy
