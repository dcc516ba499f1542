import Knowdy.ClassSteps

/-! # Vicious circles

Every call of `resolve_base` and of `knd_class_resolve` marks a class that was not marked, so the calls nest
no deeper than there are classes. A walk that meets its own mark has followed a cycle, of bases or of the
classes that declarations ask for; when every class is resolved, numbers fall along what they ask for, and
there is none.

* `resolveBase_error`, `kndClassResolve_error` — how a resolution fails.
* `AsksCyclic`, `BaseCyclic` — the two kinds of cycles; `RejectsCycles` — circles are reported for cycles of
  bases.
* `rejectsCycles_iff` — that is so exactly when whoever asks in a circle has a circle of bases. -/

namespace Knowdy.Hierarchy

open Relation

variable {G : Schema} {old : Addr → List Addr}

/-! ## (1) How the resolution of bases fails -/

/-- **The marks that a returning `resolve_base` leaves**: a class is marked as before, or it is finished. -/
def Finishes (s s' : Heap) : Prop :=
  ∀ c, (s'.cells c).baseResolvingInProgress = (s.cells c).baseResolvingInProgress ∧
      (s'.cells c).baseIsResolved = (s.cells c).baseIsResolved ∨
    (s'.cells c).baseResolvingInProgress = true ∧ (s'.cells c).baseIsResolved = true

namespace Finishes

variable {s s' s'' : Heap}

theorem refl (s : Heap) : Finishes s s := fun _ => .inl ⟨rfl, rfl⟩

theorem trans (h : Finishes s s') (h' : Finishes s' s'') : Finishes s s'' := by
  intro c
  rcases h' c with ⟨hprog', hres'⟩ | hdone
  · rw [hprog', hres']
    exact h c
  · exact .inr hdone

/-- Marks stay. -/
theorem marks (h : Finishes s s') (c : Addr) (hc : (s.cells c).baseResolvingInProgress = true) :
    (s'.cells c).baseResolvingInProgress = true := by
  rcases h c with ⟨hprog, -⟩ | ⟨hprog, -⟩
  · rw [hprog, hc]
  · exact hprog

/-- No class is on the way that was not. -/
theorem baseOpen (h : Finishes s s') {c : Addr} (hc : s'.BaseOpen c) : s.BaseOpen c := by
  rcases h c with ⟨hprog, hres⟩ | ⟨-, hres⟩
  · rw [Heap.BaseOpen, ← hprog, ← hres]
    exact hc
  · rw [Heap.BaseOpen, hres] at hc
    exact absurd hc.2.symm Bool.false_ne_true

end Finishes

theorem finishes_linkBaseclass (s : Heap) (root a b : Addr) : Finishes s (s.linkBaseclass root a b) :=
  fun _ => .inl ⟨Heap.linkBaseclass_baseResolvingInProgress .., Heap.linkBaseclass_baseIsResolved ..⟩

theorem finishes_linkClassVar {resolve : Addr → M Unit} {a : Addr} {cvar : ClassVar} {s s' : Heap}
    (hresolve : ∀ s s', (resolve cvar.entry).run s = .ok () s' → Finishes s s')
    (hrun : (linkClassVar G resolve a cvar).run s = .ok () s') : Finishes s s' := by
  rw [linkClassVar] at hrun
  split at hrun
  · cases hrun
    exact .refl s
  · obtain ⟨_, s₁, hbase, hlink⟩ := run_bind_eq_ok.mp hrun
    cases hlink
    refine Finishes.trans ?_ (finishes_linkBaseclass s₁ _ _ _)
    rw [resolveBaseOnce] at hbase
    obtain ⟨_, _, hget, hbase⟩ := run_bind_eq_ok.mp hbase
    cases hget
    split at hbase
    · cases hbase
      exact .refl s
    · exact hresolve s s₁ hbase

theorem finishes_resolveBase {depth : Nat} {a : Addr} {s s' : Heap}
    (hrun : (resolveBase G depth a).run s = .ok () s') : Finishes s s' := by
  induction depth generalizing a s s' with
  | zero => cases hrun
  | succ depth ih =>
      obtain ⟨-, -, s₁, hloop, rfl⟩ := resolveBase_ok hrun
      have hdone : Finishes (s.setBaseInProgress a) s₁ :=
        forM_ok_induction (fun _ s' => Finishes (s.setBaseInProgress a) s') hloop (.refl _)
          fun pre cvar t t' _ hpre hround => hpre.trans (finishes_linkClassVar (fun _ _ => ih) hround)
      intro c
      by_cases hc : c = a
      · subst hc
        refine .inr ⟨?_, setBaseIsResolved_self s₁ c⟩
        rw [Heap.setBaseIsResolved, Heap.modifyCell_self]
        exact hdone.marks c (setBaseInProgress_self s c)
      · rw [setBaseIsResolved_of_ne s₁ a c hc, ← setBaseInProgress_of_ne s a c hc]
        exact hdone c

/-- **A loop over bases fails** in the call for an unfinished base. -/
theorem forM_linkClassVar_error {depth : Nat} {a : Addr} {s s' : Heap} {e : ResolveErr}
    (hrun : ((G.baseclassVars a).forM (linkClassVar G (resolveBase G depth) a)).run s = .error e s') :
    ∃ b s₁, G.IsBase a b ∧ Finishes s s₁ ∧ (s₁.cells b).baseIsResolved = false ∧
      (resolveBase G depth b).run s₁ = .error e s' := by
  obtain ⟨pre, cvar, post, s₁, hl, hpre, hround⟩ :=
    forM_error_induction (fun _ s' => Finishes s s') hrun (.refl _) fun pre cvar t t' _ hpre hround =>
      hpre.trans (finishes_linkClassVar (fun _ _ => finishes_resolveBase) hround)
  have hbase : G.IsBase a cvar.entry := by
    refine List.mem_map_of_mem ?_
    rw [hl]
    exact List.mem_append_right _ (List.mem_cons_self ..)
  rw [linkClassVar] at hround
  split at hround
  · cases hround
  rcases run_bind_eq_error.mp hround with honce | ⟨_, _, _, hlink⟩
  · rw [resolveBaseOnce] at honce
    rcases run_bind_eq_error.mp honce with hget | ⟨_, _, hget, honce⟩
    · cases hget
    cases hget
    split at honce
    · cases honce
    · rename_i hres
      exact ⟨cvar.entry, s₁, hbase, hpre, by simpa using hres, honce⟩
  · cases hlink

/-- **How `resolve_base` fails**: too deep for the unmarked classes, or in a circle; without cycles of bases
it meets a class that was on the way before. -/
theorem resolveBase_error {depth : Nat} {a : Addr} {s s' : Heap} {e : ResolveErr} (ha : a ∈ G.names)
    (hres : (s.cells a).baseIsResolved = false) (hrun : (resolveBase G depth a).run s = .error e s') :
    e = .outOfDepth ∧ depth ≤ unmarked G.names (fun c => (s.cells c).baseResolvingInProgress) ∨
      e = .viciousCircle ∧
        ((∀ c, ¬TransGen G.IsBase c c) → ∃ c, ReflTransGen G.IsBase a c ∧ s.BaseOpen c) := by
  induction depth generalizing a s s' with
  | zero =>
      cases hrun
      exact .inl ⟨rfl, Nat.zero_le _⟩
  | succ depth ih =>
      rw [resolveBase] at hrun
      rcases run_bind_eq_error.mp hrun with hget | ⟨_, _, hget, hrun⟩
      · cases hget
      cases hget
      rw [if_neg (by simp [hres])] at hrun
      by_cases hprog : (s.cells a).baseResolvingInProgress = true
      · rw [if_pos hprog] at hrun
        cases hrun
        exact .inr ⟨rfl, fun _ => ⟨a, .refl, hprog, hres⟩⟩
      rw [if_neg hprog] at hrun
      rcases run_bind_eq_error.mp hrun with hmark | ⟨_, s₀, hmark, hrun⟩
      · cases hmark
      cases hmark
      rcases run_bind_eq_error.mp hrun with hbases | ⟨_, _, _, hset⟩
      swap
      · cases hset
      rw [resolveBaseclasses] at hbases
      rcases run_bind_eq_error.mp hbases with hloop | ⟨_, _, _, hset⟩
      swap
      · cases hset
      obtain ⟨b, s₁, hbase, hpre, hres₁, hcall⟩ := forM_linkClassVar_error hloop
      have hmarks : ∀ c, (s.cells c).baseResolvingInProgress = true →
          (s₁.cells c).baseResolvingInProgress = true := by
        intro c hc
        refine hpre.marks c ?_
        by_cases hca : c = a
        · rw [hca, setBaseInProgress_self]
        · rw [setBaseInProgress_of_ne s a c hca]
          exact hc
      rcases ih (Schema.mem_names_of_isBase hbase) hres₁ hcall with ⟨rfl, hdepth⟩ | ⟨rfl, hcircle⟩
      · have hlt : unmarked G.names (fun c => (s₁.cells c).baseResolvingInProgress) <
            unmarked G.names (fun c => (s.cells c).baseResolvingInProgress) :=
          unmarked_lt hmarks ha (by simpa using hprog) (hpre.marks a (setBaseInProgress_self s a))
        exact .inl ⟨rfl, by omega⟩
      · refine .inr ⟨rfl, fun hacyclic => ?_⟩
        obtain ⟨c, hpath, hopen⟩ := hcircle hacyclic
        have hopen := hpre.baseOpen hopen
        by_cases hca : c = a
        · subst hca
          exact absurd (TransGen.head' hbase hpath) (hacyclic c)
        · rw [Heap.BaseOpen, setBaseInProgress_of_ne s a c hca] at hopen
          exact ⟨c, hpath.head hbase, hopen⟩

/-- **There is a cycle of bases.** -/
def BaseCyclic (G : Schema) : Prop := ∃ c, TransGen G.IsBase c c

/-- Where no bases are on the way, a failure is a circle of bases. -/
theorem baseCyclic_of_error {depth : Nat} {a : Addr} {s s' : Heap} {e : ResolveErr}
    (hdepth : G.names.length < depth) (ha : a ∈ G.names) (hcalm : ∀ c, ¬s.BaseOpen c)
    (hres : (s.cells a).baseIsResolved = false) (hrun : (resolveBase G depth a).run s = .error e s') :
    e = .viciousCircle ∧ BaseCyclic G := by
  rcases resolveBase_error ha hres hrun with ⟨-, hle⟩ | ⟨rfl, hcircle⟩
  · have hlen := @unmarked_le_length _ G.names fun c => (s.cells c).baseResolvingInProgress
    omega
  · refine ⟨rfl, ?_⟩
    by_contra hno
    obtain ⟨c, -, hopen⟩ := hcircle fun c hc => hno ⟨c, hc⟩
    exact hcalm c hopen

theorem Quiet.resolveBaseOnce_error {depth : Nat} {a : Addr} {s s' : Heap} {e : ResolveErr}
    (h : Quiet G old s) (hdepth : G.names.length < depth) (ha : a ∈ G.names)
    (hrun : (Hierarchy.resolveBaseOnce (resolveBase G depth) a).run s = .error e s') :
    e = .viciousCircle ∧ BaseCyclic G := by
  rw [Hierarchy.resolveBaseOnce] at hrun
  rcases run_bind_eq_error.mp hrun with hget | ⟨_, _, hget, hrun⟩
  · cases hget
  cases hget
  split at hrun
  · cases hrun
  · rename_i hres
    exact baseCyclic_of_error hdepth ha h.calm (by simpa using hres) hrun

/-- **The bases of a class fail to resolve** in a circle alone. -/
theorem resolveBaseclasses_error {depth : Nat} {a : Addr} {s s' : Heap} {e : ResolveErr}
    (hcalm : ∀ c, ¬s.BaseOpen c) (hdepth : G.names.length < depth)
    (hrun : (resolveBaseOnce (resolveBaseclasses G (resolveBase G depth)) a).run s = .error e s') :
    e = .viciousCircle ∧ BaseCyclic G := by
  rw [resolveBaseOnce] at hrun
  rcases run_bind_eq_error.mp hrun with hget | ⟨_, _, hget, hrun⟩
  · cases hget
  cases hget
  split at hrun
  · cases hrun
  rw [resolveBaseclasses] at hrun
  rcases run_bind_eq_error.mp hrun with hloop | ⟨_, _, _, hset⟩
  swap
  · cases hset
  obtain ⟨b, s₁, hbase, hpre, hres, hcall⟩ := forM_linkClassVar_error hloop
  exact baseCyclic_of_error hdepth (Schema.mem_names_of_isBase hbase) (fun c hopen => hcalm c (hpre.baseOpen hopen))
    hres hcall

/-! ## (2) How the resolution of a class fails -/

/-- A class that is on the way. -/
def Heap.Open (s : Heap) (c : Addr) : Prop := (s.cells c).resolvingInProgress = true ∧ (s.cells c).isResolved = false

/-- **There is a cycle of classes that ask for one another.** -/
def AsksCyclic (G : Schema) : Prop := ∃ c, TransGen G.Needs c c

theorem AsksCyclic.of_base (h : BaseCyclic G) : AsksCyclic G := by
  obtain ⟨c, hc⟩ := h
  exact ⟨c, TransGen.lift id (fun _ _ => Schema.Needs.of_isBase) c c hc⟩

/-- A step names existing classes of the required kind. -/
def Step.Valid (G : Schema) : Step → Prop
  | .resolve c => c ∈ G.names
  | .classRef c none => c ∈ G.names
  | .classRef c (some template) => c ∈ G.names ∧ template ∈ G.names ∧ ReflTransGen G.IsBase c template
  | .rel c template => c ∈ G.names ∧ TransGen G.IsBase c template
  | .fail _ => False

/-- **Template and value references name existing classes of the required kind.** -/
def Schema.Valid (G : Schema) : Prop :=
  ∀ c, ∀ cvar ∈ G.baseclassVars c, ∀ step ∈ childSteps G cvar.attrs, step.Valid G

/-- The condition on a failure of the resolution of `a`, followed `n` calls deep. -/
def ClassFails (G : Schema) (n : Nat) (s : Heap) (a : Addr) (e : ResolveErr) : Prop :=
  e = .outOfDepth ∧ n ≤ unmarked G.names (fun c => (s.cells c).resolvingInProgress) ∨
    e = .viciousCircle ∧ (¬AsksCyclic G → ∃ c, ReflTransGen G.Needs a c ∧ s.Open c)

/-- A circle of bases is a failure of every class. -/
theorem ClassFails.of_base {n : Nat} {s : Heap} {a : Addr} {e : ResolveErr}
    (h : e = .viciousCircle ∧ BaseCyclic G) : ClassFails G n s a e :=
  .inr ⟨h.1, fun hno => absurd (AsksCyclic.of_base h.2) hno⟩

/-- **A failure of a class that is asked for** is one of the class that asks. -/
theorem ClassFails.lift {n : Nat} {s s₁ s₂ : Heap} {a d : Addr} {e : ResolveErr}
    (h : ClassFails G n s₂ d e) (ha : a ∈ G.names) (hprog : (s.cells a).resolvingInProgress = false)
    (hstart : s₁.status = (s.setInProgress a).status) (hp : Progressed s₁ s₂) (hneeds : G.Needs a d) :
    ClassFails G (n + 1) s a e := by
  have hcell : ∀ c, (s₁.cells c).status = ((s.setInProgress a).cells c).status := by
    intro c
    have hc := congrFun (congrArg Heap.cells hstart) c
    exact hc
  have hmark : ∀ c, (s₁.cells c).resolvingInProgress = true →
      (s₂.cells c).resolvingInProgress = true := by
    intro c hc
    rw [resolving_of_status (hp.of_started hc), hc]
  rcases h with ⟨rfl, hdepth⟩ | ⟨rfl, hcircle⟩
  · have hlt : unmarked G.names (fun c => (s₂.cells c).resolvingInProgress) <
        unmarked G.names (fun c => (s.cells c).resolvingInProgress) := by
      refine unmarked_lt (fun c hc => hmark c ?_) ha hprog (hmark a ?_)
      · rw [resolving_of_status (hcell c)]
        by_cases hca : c = a
        · rw [hca, setInProgress_self]
        · rw [setInProgress_of_ne s hca]
          exact hc
      · rw [resolving_of_status (hcell a), setInProgress_self]
    exact .inl ⟨rfl, by omega⟩
  · refine .inr ⟨rfl, fun hno => ?_⟩
    obtain ⟨c, hpath, hprog₂, hres₂⟩ := hcircle hno
    by_cases hca : c = a
    · subst hca
      exact absurd ⟨c, TransGen.head' hneeds hpath⟩ hno
    · -- the class was on the way before `a` was started
      have hstatus : (s₂.cells c).status = (s.cells c).status := by
        rcases hp.status c with heq | ⟨-, -, hdone⟩
        · rw [heq, hcell c, setInProgress_of_ne s hca]
        · rw [Heap.Resolved, hres₂] at hdone
          cases hdone
      refine ⟨c, hpath.head hneeds, ?_, ?_⟩
      · rw [← resolving_of_status hstatus, hprog₂]
      · rw [← resolved_of_status hstatus, hres₂]

theorem kndIsBase_of_mem {template c : Addr} {s : Heap} (h : template ∈ s.below c G.root) :
    (kndIsBase template c).run s = .ok () s := by
  obtain ⟨hmem, -⟩ := List.mem_filter.mp h
  obtain ⟨ref, href, heq⟩ := List.mem_map.mp hmem
  have hany : ((s.cells c).ancestors.any fun ref => ref.entry = template) = true :=
    List.any_eq_true.mpr ⟨ref, href, by simpa using heq⟩
  rw [kndIsBase, run_bind_of_ok (show EStateM.run get s = .ok s s from rfl), if_pos hany]
  rfl

theorem resolveOnce_error {resolve : Addr → M Unit} {a : Addr} {s s' : Heap} {e : ResolveErr}
    (hrun : (resolveOnce resolve a).run s = .error e s') :
    (s.cells a).isResolved = false ∧ (resolve a).run s = .error e s' := by
  rw [resolveOnce] at hrun
  rcases run_bind_eq_error.mp hrun with hget | ⟨_, _, hget, hrun⟩
  · cases hget
  cases hget
  split at hrun
  · cases hrun
  · rename_i hres
    exact ⟨by simpa using hres, hrun⟩

section Errors

variable {depth n : Nat} {s s' : Heap} {e : ResolveErr}

/-- **A reference fails** in a circle of bases alone. -/
theorem Settled.kndResolveClassRef_error (h : Settled G old s) (hdepth : G.names.length < depth) {c : Addr}
    {base : Option Addr} (hvalid : (Step.classRef c base).Valid G)
    (hrun : (Hierarchy.kndResolveClassRef G .bulkLoad depth c base).run s = .error e s') :
    e = .viciousCircle ∧ BaseCyclic G := by
  unfold Hierarchy.kndResolveClassRef at hrun
  cases base with
  | none =>
      rcases run_bind_eq_error.mp hrun with hval | ⟨_, s₁, hval, hrun⟩
      · exact h.toQuiet.resolveBaseOnce_error hdepth hvalid hval
      · cases hrun
  | some base =>
      obtain ⟨hc, hbase, hpath⟩ := hvalid
      rcases run_bind_eq_error.mp hrun with hval | ⟨_, s₁, hval, hrun⟩
      · exact h.toQuiet.resolveBaseOnce_error hdepth hc hval
      obtain ⟨h₁, -, hdone₁⟩ := h.toQuiet.resolveBaseOnce hval
      rcases run_bind_eq_error.mp hrun with hbaseRun | ⟨_, s₂, hbaseRun, hrun⟩
      · exact h₁.resolveBaseOnce_error hdepth hbase hbaseRun
      obtain ⟨h₂, hadv₂, -⟩ := h₁.resolveBaseOnce hbaseRun
      by_cases hself : base = c
      · rw [if_pos ⟨rfl, hself⟩] at hrun
        cases hrun
      · -- the value lists its template, which it inherits from
        rw [if_neg fun hp => hself hp.2, kndIsBase_of_mem (h₂.mem_below (hadv₂.baseResolved hdone₁) hpath
          hself)] at hrun
        cases hrun

/-- **A step fails** as the class that it asks for does. -/
theorem perform_error {resolve : Addr → M Unit} (h : Settled G old s) (hspec : ResolvesClass G old resolve)
    (hdepth : G.names.length < depth) {step : Step} (hvalid : step.Valid G)
    (hrun : (step.perform G resolve .bulkLoad depth).run s = .error e s') :
    e = .viciousCircle ∧ BaseCyclic G ∨
      ∃ d ∈ G.names, step.target = some d ∧ (s.cells d).isResolved = false ∧
        (resolve d).run s = .error e s' := by
  cases step with
  | resolve d =>
      obtain ⟨hres, hcall⟩ := resolveOnce_error hrun
      exact .inr ⟨d, hvalid, rfl, hres, hcall⟩
  | classRef c base => exact .inl (h.kndResolveClassRef_error hdepth hvalid hrun)
  | rel d template =>
      rcases run_bind_eq_error.mp hrun with hval | ⟨_, s₁, hval, hbase⟩
      · obtain ⟨hres, hcall⟩ := resolveOnce_error hval
        exact .inr ⟨d, hvalid.1, rfl, hres, hcall⟩
      · obtain ⟨h₁, -, hdone⟩ := resolveOnce_spec hspec h hval
        -- a resolved class lists all of its bases
        have hpath := hvalid.2
        obtain ⟨b, hb, -⟩ := TransGen.head'_iff.mp hpath
        have hne : template ≠ d := by
          rintro rfl
          refine @acyclic_of_falling _ G.IsBase s₁.Resolved (fun c => (s₁.cells c).numid) ?_ _ hdone hpath
          intro a b ha hab
          exact h₁.ranked a ha b (.of_isBase hab)
        have hbases : G.bases d ≠ [] := List.ne_nil_of_mem hb
        rw [kndIsBase_of_mem (h₁.mem_below (h₁.based d hdone hbases) hpath.to_reflTransGen hne)] at hbase
        cases hbase
  | fail e => exact absurd hvalid id

/-- **The loop of `knd_class_resolve` fails** as a class that the declarations ask for does. -/
theorem forM_classVars_error {a : Addr} {s s' : Heap} (h : Settled G old s) (hvalid : G.Valid)
    (hdepth : G.names.length < depth)
    (hrun : ((G.baseclassVars a).forM fun cvar => do
      resolveOnce (kndClassResolve G .bulkLoad depth n) cvar.entry
      kndResolveAttrVars G (kndClassResolve G .bulkLoad depth n) .bulkLoad depth cvar).run s =
        .error e s') :
    e = .viciousCircle ∧ BaseCyclic G ∨
      ∃ d ∈ G.names, ∃ s₁, G.Needs a d ∧ Settled G old s₁ ∧ Progressed s s₁ ∧
        (s₁.cells d).isResolved = false ∧
        (kndClassResolve G .bulkLoad depth n d).run s₁ = .error e s' := by
  have hspec := kndClassResolve_spec (G := G) old .bulkLoad depth n
  obtain ⟨pre, cvar, post, s₁, hl, hpre, hround⟩ :=
    forM_error_induction (fun _ s' => Settled G old s' ∧ Progressed s s') hrun ⟨h, .refl s⟩
      fun pre cvar t t' _ hpre hround => by
        have hone : ([cvar].forM fun cvar => do
            resolveOnce (kndClassResolve G .bulkLoad depth n) cvar.entry
            kndResolveAttrVars G (kndClassResolve G .bulkLoad depth n) .bulkLoad depth cvar).run t =
              .ok () t' := run_bind_eq_ok.mpr ⟨(), t', hround, rfl⟩
        have hdone := forM_classVars hspec hpre.1 hone
        exact ⟨hdone.settled, hpre.2.trans hdone.progressed⟩
  have hcvar : cvar ∈ G.baseclassVars a := by
    rw [hl]
    exact List.mem_append_right _ (List.mem_cons_self ..)
  rcases run_bind_eq_error.mp hround with hbase | ⟨_, s₂, hbase, hvals⟩
  · obtain ⟨hres, hcall⟩ := resolveOnce_error hbase
    exact .inr ⟨cvar.entry, G.entry_mem a cvar hcvar, s₁, ⟨cvar, hcvar, List.mem_cons_self ..⟩, hpre.1, hpre.2,
      hres, hcall⟩
  · obtain ⟨h₂, hp₂, -⟩ := resolveOnce_spec hspec hpre.1 hbase
    rw [kndResolveAttrVars, resolveChildren_eq] at hvals
    obtain ⟨pre', step, post', s₃, hl', hpre', hstep⟩ :=
      forM_error_induction (fun _ s' => Settled G old s' ∧ Progressed s s') hvals ⟨h₂, hpre.2.trans hp₂⟩
        fun pre step t t' _ hpre hstep => by
          obtain ⟨ht, hpt, -⟩ := perform_spec hspec hpre.1 hstep
          exact ⟨ht, hpre.2.trans hpt⟩
    have hmem : step ∈ childSteps G cvar.attrs := by
      rw [hl']
      exact List.mem_append_right _ (List.mem_cons_self ..)
    rcases perform_error hpre'.1 hspec hdepth (hvalid a cvar hcvar step hmem) hstep with
      hcircle | ⟨d, hd, htarget, hres, hcall⟩
    · exact .inl hcircle
    · refine .inr ⟨d, hd, s₃, ⟨cvar, hcvar, List.mem_cons_of_mem _ ?_⟩, hpre'.1, hpre'.2, hres, hcall⟩
      exact List.mem_filterMap.mpr ⟨step, hmem, htarget⟩

/-- **How `knd_class_resolve` fails.** -/
theorem kndClassResolve_error {a : Addr} {s s' : Heap} (h : Settled G old s) (hvalid : G.Valid)
    (hdepth : G.names.length < depth) (ha : a ∈ G.names) (hres : (s.cells a).isResolved = false)
    (hrun : (kndClassResolve G .bulkLoad depth n a).run s = .error e s') : ClassFails G n s a e := by
  induction n generalizing a s s' with
  | zero =>
      cases hrun
      exact .inl ⟨rfl, Nat.zero_le _⟩
  | succ n ih =>
      rw [kndClassResolve] at hrun
      rcases run_bind_eq_error.mp hrun with hget | ⟨_, _, hget, hrun⟩
      · cases hget
      cases hget
      rw [if_neg (by simp [hres])] at hrun
      by_cases hprog : (s.cells a).resolvingInProgress = true
      · rw [if_pos hprog] at hrun
        cases hrun
        exact .inr ⟨rfl, fun _ => ⟨a, .refl, hprog, hres⟩⟩
      rw [if_neg hprog] at hrun
      have hprog : (s.cells a).resolvingInProgress = false := by simpa using hprog
      rcases run_bind_eq_error.mp hrun with hmark | ⟨_, s₀, hmark, hrun⟩
      · cases hmark
      cases hmark
      rcases run_bind_eq_error.mp hrun with hbases | ⟨_, s₁, hbases, hrun⟩
      · -- the bases
        split at hbases
        · cases hbases
        refine ClassFails.of_base (resolveBaseclasses_error (fun c hopen => ?_) hdepth hbases)
        by_cases hca : c = a
        · subst hca
          rw [Heap.BaseOpen, setInProgress_self] at hopen
          exact h.calm c hopen
        · rw [Heap.BaseOpen, setInProgress_of_ne s hca] at hopen
          exact h.calm c hopen
      · have hstart : Started G old s a s₁ := h.start hprog hbases
        rcases run_bind_eq_error.mp hrun with hvals | ⟨_, _, _, hset⟩
        swap
        · cases hset
        rcases forM_classVars_error hstart.settled hvalid hdepth hvals with
          hcircle | ⟨d, hd, s₂, hneeds, h₂, hp₂, hres₂, hcall⟩
        · exact .of_base hcircle
        · exact (ih h₂ hd hres₂ hcall).lift ha hprog hstart.status hp₂ hneeds

end Errors

/-! ## (3) All classes -/

theorem Schema.Needs.mem_names (hvalid : G.Valid) {c d : Addr} (h : G.Needs c d) : d ∈ G.names := by
  obtain ⟨cvar, hcvar, hd⟩ := h
  rcases List.mem_cons.mp hd with rfl | hd
  · exact G.entry_mem c cvar hcvar
  · obtain ⟨step, hstep, htarget⟩ := List.mem_filterMap.mp hd
    have hv := hvalid c cvar hcvar step hstep
    cases step with
    | resolve a =>
        cases htarget
        exact hv
    | rel a template =>
        cases htarget
        exact hv.1
    | classRef a base => cases htarget
    | fail e => cases htarget

/-- **Numbers fall**: resolved classes ask for one another in no circle. -/
theorem Settled.acyclic {s : Heap} (h : Settled G old s) {c : Addr} (hc : s.Resolved c) :
    ¬TransGen G.Needs c c :=
  acyclic_of_falling (fun c => (s.cells c).numid) (fun a b ha hab => h.ranked a ha b hab) hc

section All

variable {depth : Nat} {order : List Addr}

/-- **All classes fail to resolve** in a circle alone. -/
theorem resolveClasses_error (hvalid : G.Valid) (hdepth : G.names.length < depth)
    (hmem : ∀ c ∈ order, c ∈ G.names) {s' : Heap} {e : ResolveErr}
    (hrun : (resolveClasses G .bulkLoad depth order).run .initial = .error e s') :
    e = .viciousCircle ∧ AsksCyclic G := by
  obtain ⟨pre, a, post, s, hl, ⟨h, hp⟩, hround⟩ :=
    forM_error_induction (fun _ s => Settled G (fun _ => []) s ∧ Progressed .initial s) hrun
      ⟨settled_initial G, .refl _⟩ fun pre a t t' _ hpre hround => by
        obtain ⟨ht, hpt, -⟩ :=
          resolveOnce_spec (kndClassResolve_spec _ .bulkLoad depth depth) hpre.1 hround
        exact ⟨ht, hpre.2.trans hpt⟩
  have ha : a ∈ G.names := by
    refine hmem a ?_
    rw [hl]
    exact List.mem_append_right _ (List.mem_cons_self ..)
  obtain ⟨hres, hcall⟩ := resolveOnce_error hround
  rcases kndClassResolve_error h hvalid hdepth ha hres hcall with ⟨-, hle⟩ | ⟨rfl, hcircle⟩
  · have hlen := @unmarked_le_length _ G.names fun c => (s.cells c).resolvingInProgress
    omega
  · refine ⟨rfl, ?_⟩
    by_contra hno
    obtain ⟨c, -, hprog, hunres⟩ := hcircle hno
    -- between two classes none is on the way
    rcases hp.status c with heq | ⟨-, -, hdone⟩
    · rw [resolving_of_status heq] at hprog
      cases hprog
    · rw [Heap.Resolved, hunres] at hdone
      cases hdone

/-- **All classes resolve** only if they do not ask for one another in a circle. -/
theorem not_asksCyclic_of_ok (hvalid : G.Valid) (hall : ∀ c ∈ G.names, c ∈ order) {s' : Heap}
    (hrun : (resolveClasses G .bulkLoad depth order).run .initial = .ok () s') : ¬AsksCyclic G := by
  rintro ⟨c, hc⟩
  have hdone := (settled_initial G).resolveClasses hrun
  obtain ⟨b, -, hb⟩ := TransGen.tail'_iff.mp hc
  exact hdone.settled.acyclic (hdone.resolved c (hall c (hb.mem_names hvalid))) hc

end All

/-- **Resolution terminates and rejects exactly the cycles of bases**, and what it accepts is resolved. -/
structure RejectsCycles (G : Schema) (depth : Nat) (order : List Addr) : Prop where
  /-- The calls do not nest deeper than the model follows them. -/
  terminates : ∀ s, (resolveClasses G .bulkLoad depth order).run .initial ≠ .error .outOfDepth s
  /-- A vicious circle is reported for a cycle of bases. -/
  circle_iff : (∃ s, (resolveClasses G .bulkLoad depth order).run .initial = .error .viciousCircle s) ↔
    BaseCyclic G
  /-- On success every class is resolved. -/
  resolved : ∀ s, (resolveClasses G .bulkLoad depth order).run .initial = .ok () s →
    ∀ c ∈ G.names, s.Resolved c

/-- **When circles are reported for cycles of bases alone**: exactly when classes that ask for one another in
a circle, be it through the template of a value, come with a cycle of bases. The classes may be resolved in
any order, and any depth beyond the number of classes is enough. -/
theorem rejectsCycles_iff (G : Schema) (depth : Nat) (order : List Addr) (hvalid : G.Valid)
    (hdepth : G.names.length < depth) (hmem : ∀ c, c ∈ order ↔ c ∈ G.names) :
    RejectsCycles G depth order ↔ (AsksCyclic G → BaseCyclic G) := by
  have hcircle : (∃ s, (resolveClasses G .bulkLoad depth order).run .initial = .error .viciousCircle s) ↔
      AsksCyclic G := by
    constructor
    · rintro ⟨s, hrun⟩
      exact (resolveClasses_error hvalid hdepth (fun c => (hmem c).mp) hrun).2
    · intro hasks
      cases hrun : (resolveClasses G .bulkLoad depth order).run .initial with
      | ok u s => exact absurd hasks (not_asksCyclic_of_ok hvalid (fun c => (hmem c).mpr) hrun)
      | error e s =>
          obtain ⟨rfl, -⟩ := resolveClasses_error hvalid hdepth (fun c => (hmem c).mp) hrun
          exact ⟨s, rfl⟩
  constructor
  · intro h hasks
    exact h.circle_iff.mp (hcircle.mpr hasks)
  · intro h
    refine ⟨fun s hrun => ?_, hcircle.trans ⟨h, .of_base⟩, fun s hrun c hc => ?_⟩
    · exact absurd (resolveClasses_error hvalid hdepth (fun c => (hmem c).mp) hrun).1 ResolveErr.noConfusion
    · exact ((settled_initial G).resolveClasses hrun).resolved c ((hmem c).mpr hc)

/-- A class `A` with an attribute `peer` whose template is `B`; `B` is an `A`, and its peer is `C`, a `B`. -/
def peers : Schema where
  root := 0
  names := [1, 2, 3]
  baseclassVars c :=
    if c = 2 then [⟨1, [.mk { type := .ref, refClass := some 2 } (some 3) false [] []]⟩]
    else if c = 3 then [⟨2, []⟩]
    else []
  root_notMem := by decide
  baseclassVars_root := rfl
  entry_mem c cvar hcvar := by
    split_ifs at hcvar <;> simp_all

theorem peers_valid : peers.Valid := by
  have hpath : ReflTransGen peers.IsBase 3 2 := .single (by decide)
  intro c cvar hcvar step hstep
  simp only [peers] at hcvar
  split_ifs at hcvar
  · obtain rfl := List.mem_singleton.mp hcvar
    have hsteps : childSteps peers [.mk { type := .ref, refClass := some 2 } (some 3) false [] []] =
        [.resolve 2, .classRef 3 (some 2)] := by simp [childSteps, refSteps]
    rw [hsteps] at hstep
    rcases List.mem_cons.mp hstep with rfl | hstep
    · exact (by decide : 2 ∈ peers.names)
    · rw [List.mem_singleton.mp hstep]
      exact ⟨by decide, by decide, hpath⟩
  · obtain rfl := List.mem_singleton.mp hcvar
    rw [childSteps] at hstep
    cases hstep
  · cases hcvar

theorem rejectsCycles_iff_peers :
    RejectsCycles peers 4 [3, 1, 2] ↔ (AsksCyclic peers → BaseCyclic peers) :=
  rejectsCycles_iff peers 4 [3, 1, 2] peers_valid (by decide) fun _ =>
    List.Perm.mem_iff (by decide : [3, 1, 2].Perm [1, 2, 3])

/-- A reference back to a class that is being resolved is reported as a circle, though no class is its own
ancestor. -/
theorem not_rejectsCycles_peers : peers.Valid ∧ ¬BaseCyclic peers ∧ ¬RejectsCycles peers 4 peers.names := by
  have hacyclic : ¬BaseCyclic peers := by
    rintro ⟨c, hc⟩
    refine @acyclic_of_falling _ peers.IsBase (fun _ => True) id ?_ c trivial hc
    intro a b _ hab
    refine ⟨trivial, ?_⟩
    simp only [Schema.IsBase, Schema.bases, peers] at hab
    split_ifs at hab <;> simp_all
  refine ⟨peers_valid, hacyclic, fun h => hacyclic (h.circle_iff.mp ?_)⟩
  have hfail : failure? (resolveClasses peers .bulkLoad 4 peers.names) .initial = some .viciousCircle := by
    decide +kernel
  rw [failure?] at hfail
  cases hrun : (resolveClasses peers .bulkLoad 4 peers.names).run .initial with
  | ok u s =>
      rw [hrun] at hfail
      cases hfail
  | error e s =>
      rw [hrun] at hfail
      cases hfail
      exact ⟨s, rfl⟩

end Knowdy.Hierarchy
