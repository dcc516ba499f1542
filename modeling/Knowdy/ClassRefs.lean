import Knowdy.ClassAncestors
import Knowdy.Lib.Runs

/-! # References to classes

`knd_resolve_class_ref` has two branches, one for the bulk load and one for commits. Both resolve the bases of the
class and of its template where they are not, and then ask `knd_is_base`; only the first lets a class stand for
itself.

* `Event`, `Event.apply` — what happens to the memory while classes are resolved and references are checked;
  `reaches_kndClassResolve` — `knd_class_resolve` consists of such events.
* `Quiet.apply` — the ancestor lists are right after each of them.
* `AcceptedAlike` — both branches accept what inherits from the template.
* `acceptedAlike_iff` — they do unless the reference is to the template itself. -/

namespace Knowdy.Hierarchy

open Relation

variable {G : Schema} {old : Addr → List Addr} {depth : Nat} {s s' : Heap} {c b : Addr}

/-! ## (1) What happens to the memory -/

/-- What happens to the memory of the classes between two references. -/
inductive Event
  /-- `knd_class_resolve` marks a class, and links the root if it has no bases. -/
  | start (c : Addr)
  /-- It has the bases of the class resolved. -/
  | bases (c : Addr)
  /-- `knd_resolve_class_ref`, whether it accepts the reference or not. -/
  | ref (task : TaskType) (c : Addr) (base : Option Addr)
  /-- `knd_class_resolve` has resolved the class. -/
  | finish (c : Addr)
  /-- The repository is read from a snapshot of itself. -/
  | reload

/-- What an event does. -/
def Event.apply (G : Schema) (depth : Nat) (s : Heap) : Event → Heap
  | .start c =>
      if (G.baseclassVars c).isEmpty then (s.setInProgress c).linkBaseclass G.root c G.root else s.setInProgress c
  | .bases c => finalState (resolveBaseOnce (resolveBaseclasses G (resolveBase G depth)) c) s
  | .ref task c base => finalState (kndResolveClassRef G task depth c base) s
  | .finish c => s.setResolved c
  | .reload => s.reload

/-- A class is started once, and references are to existing classes. -/
def Event.Allowed (G : Schema) (s : Heap) : Event → Prop
  | .start c => (s.cells c).resolvingInProgress = false
  | .ref _ c base => c ∈ G.names ∧ ∀ b, base = some b → b ∈ G.names
  | _ => True

/-- The memory of the classes of a repository, in the course of events. -/
abbrev Passes (G : Schema) (depth : Nat) := Reaches (Event.apply G depth) (Event.Allowed G)

instance (G : Schema) (depth : Nat) : IsPreorder Heap (Passes G depth) where
  refl _ := .refl
  trans _ _ _ := Reaches.trans

/-- An event that is allowed. -/
theorem passes_apply (e : Event) (h : e.Allowed G s) : Passes G depth s (e.apply G depth s) := .next .refl h

section Resolve

variable {resolve : Addr → M Unit} {task : TaskType}

/-- A class that is resolved unless it is. -/
theorem passes_resolveOnce (hresolve : ∀ c, Moves (Passes G depth) (resolve c)) (c : Addr) :
    Moves (Passes G depth) (resolveOnce resolve c) := by
  refine Moves.get_bind fun s => ?_
  exact Moves.ite (fun _ => Moves.pure ()) (fun _ => hresolve c) s

/-- The steps of a value. -/
theorem passes_perform (hresolve : ∀ c, Moves (Passes G depth) (resolve c)) {step : Step} (hvalid : step.Valid G) :
    Moves (Passes G depth) (step.perform G resolve task depth) := by
  cases step with
  | resolve c => exact passes_resolveOnce hresolve c
  | classRef c base =>
      refine fun s => passes_apply (.ref task c base) ?_
      cases base with
      | none => exact ⟨hvalid, fun _ hb => by cases hb⟩
      | some b => exact ⟨hvalid.1, fun _ hb => Option.some.inj hb ▸ hvalid.2.1⟩
  | rel c template =>
      refine Moves.bind (passes_resolveOnce hresolve c) fun _ s => ?_
      rw [finalState_kndIsBase]
      exact .refl
  | fail e => exact Moves.throw e

/-- **`knd_class_resolve` consists of such events**, whether it returns or fails. -/
theorem reaches_kndClassResolve (hvalid : G.Valid) (n : Nat) (c : Addr) :
    Moves (Passes G depth) (kndClassResolve G task depth n c) := by
  induction n generalizing c with
  | zero => exact Moves.throw _
  | succ n ih =>
      refine Moves.get_bind fun s => ?_
      by_cases hres : (s.cells c).isResolved = true
      · rw [if_pos hres]
        exact .refl
      rw [if_neg hres]
      by_cases hprog : (s.cells c).resolvingInProgress = true
      · rw [if_pos hprog]
        exact .refl
      rw [if_neg hprog]
      have hstart := @passes_apply G depth s (.start c) (by simpa [Event.Allowed] using hprog)
      have hvalues : Moves (Passes G depth) (do
          (G.baseclassVars c).forM fun cvar => do
            resolveOnce (kndClassResolve G task depth n) cvar.entry
            kndResolveAttrVars G (kndClassResolve G task depth n) task depth cvar
          modify fun s => s.setResolved c) := by
        refine Moves.bind (Moves.forM fun cvar hcvar => ?_) fun _ => fun s => passes_apply (.finish c) trivial
        refine Moves.bind (passes_resolveOnce ih cvar.entry) fun _ => ?_
        rw [kndResolveAttrVars, resolveChildren_eq]
        exact Moves.forM fun step hstep => passes_perform ih (hvalid c cvar hcvar step hstep)
      rw [Event.apply] at hstart
      by_cases hempty : (G.baseclassVars c).isEmpty = true
      · rw [if_pos hempty] at hstart ⊢
        exact hstart.trans (hvalues _)
      · rw [if_neg hempty] at hstart ⊢
        refine hstart.trans ?_
        exact Moves.bind (fun s => passes_apply (.bases c) trivial) (fun _ => hvalues) (s.setInProgress c)

end Resolve

/-! ## (2) The ancestor lists -/

/-- **The ancestor lists stay right** in every event; `old` is what they held when the repository was read. -/
theorem Quiet.apply (h : Quiet G old s) (hacyclic : ¬BaseCyclic G) (hdepth : G.names.length < depth) {e : Event}
    (hallowed : e.Allowed G s) : ∃ old', Quiet G old' (e.apply G depth s) := by
  cases e with
  | start c =>
      rw [Event.apply]
      by_cases hempty : (G.baseclassVars c).isEmpty = true
      · rw [if_pos hempty]
        exact ⟨old, (h.startRoot (Schema.bases_eq_nil_iff.mp hempty) hallowed).1⟩
      · rw [if_neg hempty]
        exact ⟨old, h.setInProgress fun hnil => hempty (Schema.bases_eq_nil_iff.mpr hnil)⟩
  | bases c =>
      rw [Event.apply]
      cases hrun : (Hierarchy.resolveBaseOnce (Hierarchy.resolveBaseclasses G (resolveBase G depth)) c).run s with
      | error e s' => exact absurd (resolveBaseclasses_error h.calm hdepth hrun).2 hacyclic
      | ok u s' =>
          rw [finalState_of_ok hrun]
          exact ⟨old, (h.resolveBaseclasses hrun).1⟩
  | ref task c base => exact ⟨old, h.finalState_kndResolveClassRef hacyclic hdepth task hallowed.1 hallowed.2 |>.1⟩
  | finish c => exact ⟨old, h.setResolved c⟩
  | reload => exact ⟨s.snapshotAncestors, h.reload⟩

/-- They are right whenever a reference is checked. -/
theorem quiet_of_passes (hacyclic : ¬BaseCyclic G) (hdepth : G.names.length < depth)
    (h : Passes G depth .initial s) : ∃ old, Quiet G old s := by
  refine h.invariant (I := fun s => ∃ old, Quiet G old s) ⟨fun _ => [], (settled_initial G).toQuiet⟩ ?_
  rintro s e ⟨old, hquiet⟩ hallowed
  exact hquiet.apply hacyclic hdepth hallowed

/-! ## (3) The two branches -/

/-- Below the root `knd_is_base` looks through the ancestors. -/
theorem returns_kndIsBase_iff (hb : b ≠ G.root) : returns (kndIsBase b c) s = true ↔ b ∈ s.below c G.root := by
  constructor
  · intro hreturns
    obtain ⟨_, hrun⟩ := returns_iff.mp hreturns
    rw [kndIsBase] at hrun
    obtain ⟨_, _, hget, hrun⟩ := run_bind_eq_ok.mp hrun
    cases hget
    split at hrun
    · rename_i hany
      obtain ⟨ref, href, heq⟩ := List.any_eq_true.mp hany
      refine List.mem_filter.mpr ⟨List.mem_map.mpr ⟨ref, href, by simpa using heq⟩, by simpa using hb⟩
    · cases hrun
  · intro hmem
    rw [returns, kndIsBase_of_mem hmem]

/-- **`knd_is_base` is right** where the bases of the class are resolved. -/
theorem Quiet.returns_kndIsBase (h : Quiet G old s) (hacyclic : ¬BaseCyclic G) (hc : s.BaseResolved c)
    (hb : b ≠ G.root) : returns (kndIsBase b c) s = true ↔ TransGen G.IsBase c b := by
  rw [returns_kndIsBase_iff hb]
  refine ⟨h.linked.sound c b, fun hpath => h.mem_below hc hpath.to_reflTransGen ?_⟩
  rintro rfl
  exact hacyclic ⟨b, hpath⟩

/-- **References are accepted alike** in the bulk load and in a commit: those to the template and to what inherits
from it. -/
structure AcceptedAlike (G : Schema) (depth : Nat) (s s' : Heap) (c b : Addr) : Prop where
  /-- The bulk load, in the memory `s`. -/
  bulk : returns (kndResolveClassRef G .bulkLoad depth c (some b)) s = true ↔ c = b ∨ TransGen G.IsBase c b
  /-- A commit, in the memory `s'`. -/
  commit : returns (kndResolveClassRef G .other depth c (some b)) s' = true ↔ c = b ∨ TransGen G.IsBase c b

/-- **What a branch accepts**: what inherits from the template, and in the bulk load the template itself. -/
theorem Quiet.returns_kndResolveClassRef (h : Quiet G old s) (hacyclic : ¬BaseCyclic G)
    (hdepth : G.names.length < depth) (hc : c ∈ G.names) (hb : b ∈ G.names) (task : TaskType) :
    returns (kndResolveClassRef G task depth c (some b)) s = true ↔
      task = .bulkLoad ∧ b = c ∨ TransGen G.IsBase c b := by
  obtain ⟨s', hquiet, hres, hrun⟩ := h.run_kndResolveClassRef hacyclic hdepth hc hb task
  have hroot : b ≠ G.root := by
    rintro rfl
    exact G.root_notMem hb
  rw [← hquiet.returns_kndIsBase hacyclic ((hres c).mpr (.inr (.inl .refl))) hroot, returns, hrun]
  by_cases hself : task = .bulkLoad ∧ b = c
  · rw [if_pos hself]
    exact iff_of_true rfl (.inl hself)
  · rw [if_neg hself, or_iff_right hself]
    exact Iff.rfl

/-- **When references are accepted alike.** In every memory that resolution and references pass through, before and
after a snapshot, the bulk load accepts exactly the template and what inherits from it. A commit does so if and only
if the reference is not to the template itself. -/
theorem acceptedAlike_iff (G : Schema) (hacyclic : ¬BaseCyclic G) {depth : Nat} (hdepth : G.names.length < depth)
    {s s' : Heap} (hs : Passes G depth .initial s) (hs' : Passes G depth .initial s') {c b : Addr} (hc : c ∈ G.names)
    (hb : b ∈ G.names) : AcceptedAlike G depth s s' c b ↔ c ≠ b := by
  obtain ⟨old, hquiet⟩ := quiet_of_passes hacyclic hdepth hs
  obtain ⟨old', hquiet'⟩ := quiet_of_passes hacyclic hdepth hs'
  have hbulk := hquiet.returns_kndResolveClassRef hacyclic hdepth hc hb .bulkLoad
  have hcommit := hquiet'.returns_kndResolveClassRef hacyclic hdepth hc hb .other
  constructor
  · rintro h rfl
    -- a class does not list itself
    rcases hcommit.mp (h.commit.mpr (.inl rfl)) with ⟨htask, -⟩ | hpath
    · cases htask
    · exact hacyclic ⟨c, hpath⟩
  · intro hne
    refine ⟨hbulk.trans ?_, hcommit.trans ?_⟩
    · simp [eq_comm]
    · simp [hne]

/-- `Concert` is resolved in the bulk load, and a commit comes after a snapshot. -/
def concertEvents : List Event := [.start 3, .bases 3, .ref .bulkLoad 3 (some 1), .finish 3, .reload]

/-- `Concert` stands for an `Event`. -/
theorem acceptedAlike_iff_concerts :
    AcceptedAlike concerts 4 .initial (concertEvents.foldl (Event.apply concerts 4) .initial) 3 2 ↔ 3 ≠ 2 := by
  refine acceptedAlike_iff concerts ?_ (by decide) .refl (Reaches.refl.foldl ?_) (by decide) (by decide)
  · rintro ⟨c, hc⟩
    refine @acyclic_of_falling _ concerts.IsBase (fun _ => True) id ?_ c trivial hc
    intro a b _ hab
    refine ⟨trivial, ?_⟩
    simp only [Schema.IsBase, Schema.bases, concerts, concertBases] at hab
    split_ifs at hab <;> simp_all
    rcases hab with rfl | rfl <;> decide
  · refine ⟨rfl, trivial, ⟨by decide, fun b hb => ?_⟩, trivial, trivial, trivial⟩
    cases hb
    decide

/-- **A commit does not let a class stand for itself**, the bulk load does. -/
theorem not_acceptedAlike_concerts :
    ¬AcceptedAlike concerts 4 .initial (concertEvents.foldl (Event.apply concerts 4) .initial) 1 1 := by
  intro h
  have haccepted := h.commit.mpr (.inl rfl)
  revert haccepted
  decide +kernel

end Knowdy.Hierarchy
