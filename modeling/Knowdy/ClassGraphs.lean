import Knowdy.AttrResolve
import Knowdy.ClassIndexing
import Knowdy.SharedSet

/-! # The class graph of a bulk load and that of commits

Classes enter a repository when source files are read, or by commits. After the sources are read all classes are
resolved, indexed and entered in `class_idx`. A commit resolves the instances that it imports, and registers its
classes by name.

* `Declarations`, `Repo` — the declared classes, and what a repository has of them.
* `readSourceFiles` — the bulk load.
* `kndClassImport`, `kndResolveCommit`, `updateIndices`, `commitAll` — commits.
* `SameGraph` — two repositories have the same class graph.
* `registered_of_bulkLoaded` — a bulk load registers every class; `kept_commitAll`: commits leave the graph alone.
* `sameGraph_iff` — **the graphs are the same exactly if no class is declared.** -/

namespace Knowdy

namespace ClassGraphs

open Hierarchy (Addr Heap)

/-! ## (1) Repositories -/

/-- **The declarations of some classes**: their bases and their attributes. -/
structure Declarations where
  /-- The classes with their bases. -/
  graph : Hierarchy.Schema
  /-- Their attributes. -/
  attrs : AttrResolve.Schema
  /-- The bases are the same. -/
  bases_eq : ∀ c, (attrs.baseclassVars c).map AttrResolve.ClassVar.entry = graph.bases c

/-- `struct kndRepo`, as far as its classes are concerned. -/
structure Repo where
  /-- The classes: ids, ancestors and descendants. -/
  heap : Heap := .initial
  /-- The classes: attribute indices. -/
  attrs : AttrResolve.Mem := .initial
  /-- `class_name_idx`. -/
  classNameIdx : List Addr := []
  /-- `class_idx`. -/
  classIdx : SharedSet Addr := {}

/-- `id` of a class entry, empty before the class is resolved. -/
def Repo.classId (self : Repo) (c : Addr) : List UInt8 :=
  if (self.heap.cells c).isResolved then self.heap.entryId c else []

/-- Why a class is refused. -/
inductive LoadErr
  /-- Bases or references to classes. -/
  | classes (e : Hierarchy.ResolveErr)
  /-- Attributes. -/
  | attrs (e : AttrResolve.ResolveErr)
  /-- An error code. -/
  | err (e : KndErr)
  deriving DecidableEq

/-- A program over a repository. -/
abbrev RepoM := EStateM LoadErr Repo

/-- A program over a part of a repository. -/
def onPart {ε σ : Type} (get : Repo → σ) (put : σ → Repo → Repo) (err : ε → LoadErr) (x : EStateM ε σ Unit) :
    RepoM Unit := fun repo =>
  match x.run (get repo) with
  | .ok () s => .ok () (put s repo)
  | .error e s => .error (err e) (put s repo)

/-- A resolution of bases and references. -/
def onClasses (x : Hierarchy.M Unit) : RepoM Unit := onPart Repo.heap (fun heap repo => { repo with heap }) .classes x

/-- An indexing. -/
def onIndex (x : Hierarchy.IndexM Unit) : RepoM Unit := onPart Repo.heap (fun heap repo => { repo with heap }) .err x

/-- A resolution of attributes. -/
def onAttrs (x : AttrResolve.M Unit) : RepoM Unit := onPart Repo.attrs (fun attrs repo => { repo with attrs }) .attrs x

/-! ## (2) The bulk load -/

section Load

variable (D : Declarations) (depth : Nat)

/-- `knd_class_resolve` for a class that is not resolved. -/
def resolveClass (c : Addr) : RepoM Unit := do
  onClasses (Hierarchy.resolveOnce (Hierarchy.kndClassResolve D.graph .bulkLoad depth depth) c)
  onAttrs (AttrResolve.resolveOnce (AttrResolve.kndClassResolve D.attrs depth) c)

/-- A class entry is added to `class_idx`. -/
def registerClass (c : Addr) : RepoM Unit := fun repo =>
  match kndSharedSetAdd repo.classIdx (repo.classId c) c with
  | (.error e, classIdx) => .error (.err e) { repo with classIdx }
  | (.ok (), classIdx) => .ok () { repo with classIdx }

/-- One round of `index_classes`. -/
def indexClass (c : Addr) : RepoM Unit := do
  onIndex (Hierarchy.kndClassIndex D.graph .bulkLoad c)
  registerClass c

/-- `knd_repo_read_source_files`: the classes are imported, resolved and indexed, the last two in the order of the
name index. -/
def readSourceFiles (order : List Addr) : RepoM Unit := do
  modify fun repo => { repo with classNameIdx := order }
  order.forM (resolveClass D depth)
  order.forM (indexClass D)

end Load

/-! ## (3) Commits -/

/-- `knd_state_phase`. -/
inductive Phase
  | created | updated | removed | selected
  deriving DecidableEq

/-- A `struct kndStateRef` of a class. -/
structure ClassState where
  /-- `obj`: the class entry. -/
  entry : Addr
  /-- `state->phase`. -/
  phase : Phase
  /-- `state->children`: instances. -/
  children : List Nat := []

/-- A task with its commit. -/
structure Task where
  /-- `class_name_idx` of the task. -/
  classNameIdx : List Addr := []
  /-- `commit->class_state_refs`, newest first. -/
  classStateRefs : List ClassState := []

/-- `set_class_var`: a base that the task does not know gets an entry of its own. -/
def setClassVar (classNameIdx : List Addr) (base : Addr) : List Addr :=
  if base ∈ classNameIdx then classNameIdx else base :: classNameIdx

/-- `knd_class_import` in a commit. -/
def kndClassImport (D : Declarations) (repo : Repo) (task : Task) (c : Addr) : Except KndErr Task :=
  if c ∈ repo.classNameIdx then .error .fail   -- "class already exists"
  else if c ∈ task.classNameIdx then .error .fail   -- "current commit already has a doublet"
  else .ok {
    classNameIdx := (D.graph.bases c).foldl setClassVar (c :: task.classNameIdx)
    -- `knd_class_commit_state`
    classStateRefs := { entry := c, phase := .created } :: task.classStateRefs }

/-- What a commit does with the instances that it imports. -/
structure InstOps where
  /-- `resolve_class_inst_commit`. -/
  resolve : List Nat → RepoM Unit
  /-- `knd_class_inst_update_indices`. -/
  updateIndices : Addr → List Nat → RepoM Unit

/-- `knd_resolve_commit`. -/
def kndResolveCommit (insts : InstOps) (refs : List ClassState) : RepoM Unit :=
  refs.forM fun ref =>
    if ref.phase = .removed then pure ()
    else if ref.children = [] then pure ()
    else insts.resolve ref.children

/-- A class entry is added to `class_name_idx`. -/
def registerName (c : Addr) : RepoM Unit := do
  let repo ← get
  if c ∈ repo.classNameIdx then throw (.err .conflict)
  else modify fun repo => { repo with classNameIdx := c :: repo.classNameIdx }

/-- `update_indices`. -/
def updateIndices (insts : InstOps) (refs : List ClassState) : RepoM Unit :=
  refs.forM fun ref =>
    match ref.phase with
    | .created => registerName ref.entry
    | .removed => pure ()
    | .updated => pure ()   -- `knd_class_update_indices` does nothing
    | .selected => if ref.children = [] then pure () else insts.updateIndices ref.entry ref.children

/-- A commit that creates the classes of a list. -/
def commitClasses (D : Declarations) (insts : InstOps) (cs : List Addr) : RepoM Unit := do
  let repo ← get
  match cs.foldlM (kndClassImport D repo) {} with
  | .error e => throw (.err e)
  | .ok task => do
      kndResolveCommit insts task.classStateRefs
      updateIndices insts task.classStateRefs

/-- Commits one after the other. -/
def commitAll (D : Declarations) (insts : InstOps) (groups : List (List Addr)) : RepoM Unit :=
  groups.forM (commitClasses D insts)

/-! ## (4) The property -/

/-- **A class has an id and is registered under it**, so that no other class has this id. -/
def Registered (repo : Repo) (c : Addr) : Prop :=
  repo.classId c ≠ [] ∧ kndSharedSetGet repo.classIdx (repo.classId c) = .ok c

/-- **Two repositories have the same class graph.** -/
structure SameGraph (D : Declarations) (repo repo' : Repo) : Prop where
  /-- The ancestors of a class. -/
  ancestors : ∀ c ∈ D.graph.names, ∀ x, x ∈ (repo.heap.cells c).ancestors.map Hierarchy.ClassRef.entry ↔
    x ∈ (repo'.heap.cells c).ancestors.map Hierarchy.ClassRef.entry
  /-- Its attributes. -/
  attrs : ∀ c ∈ D.graph.names, ∀ a, a ∈ (repo.attrs.cells c).attrIdx.elems ↔ a ∈ (repo'.attrs.cells c).attrIdx.elems
  /-- Their effective values. -/
  values : ∀ c ∈ D.graph.names, ∀ a ∈ (repo.attrs.cells c).attrIdx.elems,
    (repo.attrs.cells c).attrVar a = (repo'.attrs.cells c).attrVar a
  /-- Its descendants. -/
  descendants : ∀ c ∈ D.graph.names, ∀ d,
    d ∈ (repo.heap.descendants c).elems ↔ d ∈ (repo'.heap.descendants c).elems
  /-- It has an id and is registered under it. -/
  registered : ∀ c ∈ D.graph.names, Registered repo c ↔ Registered repo' c

/-- **The repository after a bulk load** of the declared classes. -/
def BulkLoaded (D : Declarations) (repo : Repo) : Prop :=
  ∃ depth order, order.Perm D.graph.names ∧ (readSourceFiles D depth order).run {} = .ok () repo

/-- **The repository after commits** that create the declared classes, in some grouping. -/
def Committed (D : Declarations) (repo : Repo) : Prop :=
  ∃ insts groups, groups.flatten.Perm D.graph.names ∧ (commitAll D insts groups).run {} = .ok () repo

/-! ## (5) Commits -/

/-- The class graph of a repository. -/
def Repo.graph (self : Repo) : Heap × AttrResolve.Mem × SharedSet Addr := (self.heap, self.attrs, self.classIdx)

/-- The state of a class that a task creates. -/
def ClassState.IsNew (self : ClassState) : Prop := self.phase = .created ∧ self.children = []

/-- The imports of a task make new classes only. -/
theorem isNew_of_foldlM {D : Declarations} {repo : Repo} {cs : List Addr} {task task' : Task}
    (hnew : ∀ ref ∈ task.classStateRefs, ref.IsNew)
    (hrun : cs.foldlM (kndClassImport D repo) task = .ok task') : ∀ ref ∈ task'.classStateRefs, ref.IsNew := by
  induction cs generalizing task with
  | nil =>
      cases hrun
      exact hnew
  | cons c cs ih =>
      rw [List.foldlM_cons, kndClassImport] at hrun
      split at hrun
      · cases hrun
      · split at hrun
        · cases hrun
        · refine ih (fun ref href => ?_) hrun
          rcases List.mem_cons.mp href with rfl | href
          · exact ⟨rfl, rfl⟩
          · exact hnew ref href

section Commits

variable {D : Declarations} {insts : InstOps} {refs : List ClassState}

theorem moves_kndResolveCommit (hnew : ∀ ref ∈ refs, ref.IsNew) :
    Moves (Kept Repo.graph) (kndResolveCommit insts refs) := by
  refine Moves.forM fun ref href => ?_
  obtain ⟨hphase, hchildren⟩ := hnew ref href
  rw [hphase, hchildren, if_neg (by decide), if_pos rfl]
  exact Moves.pure ()

theorem moves_registerName (c : Addr) : Moves (Kept Repo.graph) (registerName c) := by
  refine Moves.get_bind fun s => ?_
  refine Moves.ite (fun _ => Moves.throw _) (fun _ => ?_) s
  exact Moves.modify fun _ => rfl

theorem moves_updateIndices (hnew : ∀ ref ∈ refs, ref.IsNew) :
    Moves (Kept Repo.graph) (updateIndices insts refs) := by
  refine Moves.forM fun ref href => ?_
  rw [(hnew ref href).1]
  exact moves_registerName ref.entry

/-- **Commits leave the class graph alone**, whatever classes they create. -/
theorem moves_commitAll (groups : List (List Addr)) : Moves (Kept Repo.graph) (commitAll D insts groups) := by
  refine Moves.forM fun cs _ => Moves.get_bind fun repo => ?_
  cases himport : cs.foldlM (kndClassImport D repo) {} with
  | error e => exact Moves.throw _ repo
  | ok task =>
      have hnew := isNew_of_foldlM (by simp) himport
      exact Moves.bind (moves_kndResolveCommit hnew) (fun _ => moves_updateIndices hnew) repo

/-- After the commits no class has an id. -/
theorem Committed.not_registered {repo : Repo} (h : Committed D repo) (c : Addr) : ¬Registered repo c := by
  obtain ⟨insts, groups, -, hrun⟩ := h
  have hgraph : repo.graph = Repo.graph {} := (moves_commitAll groups).of_ok hrun
  have hheap : repo.heap = .initial := congrArg Prod.fst hgraph
  refine fun hreg => hreg.1 ?_
  rw [Repo.classId, hheap]
  rfl

end Commits

/-! ## (6) The bulk load -/

theorem run_onPart_eq_ok {ε σ : Type} {get : Repo → σ} {put : σ → Repo → Repo} {err : ε → LoadErr}
    {x : EStateM ε σ Unit} {repo repo' : Repo} :
    (onPart get put err x).run repo = .ok () repo' ↔ ∃ s, x.run (get repo) = .ok () s ∧ repo' = put s repo := by
  have hrun : (onPart get put err x).run repo = match x.run (get repo) with
      | .ok () s => .ok () (put s repo)
      | .error e s => .error (err e) (put s repo) := rfl
  rw [hrun]
  cases x.run (get repo) with
  | ok u s =>
      constructor
      · intro h
        cases h
        exact ⟨s, rfl, rfl⟩
      · rintro ⟨s', hs, rfl⟩
        cases hs
        rfl
  | error e s =>
      refine iff_of_false (fun h => by cases h) ?_
      rintro ⟨s', hs, -⟩
      cases hs

section Load

variable {D : Declarations} {depth : Nat} {repo repo' : Repo}

/-- **The classes are resolved** as a resolution of all classes does it. -/
theorem resolveClasses_of_forM {order : List Addr} (hrun : (order.forM (resolveClass D depth)).run repo = .ok () repo') :
    (Hierarchy.resolveClasses D.graph .bulkLoad depth order).run repo.heap = .ok () repo'.heap ∧
      repo'.classIdx = repo.classIdx := by
  induction order generalizing repo with
  | nil =>
      cases hrun
      exact ⟨rfl, rfl⟩
  | cons c order ih =>
      obtain ⟨_, repo₁, hround, hrest⟩ := run_bind_eq_ok.mp hrun
      obtain ⟨_, repo₂, hclass, hattrs⟩ := run_bind_eq_ok.mp hround
      obtain ⟨heap, hheap, rfl⟩ := run_onPart_eq_ok.mp hclass
      obtain ⟨attrs, -, rfl⟩ := run_onPart_eq_ok.mp hattrs
      obtain ⟨hrun', hidx⟩ := ih hrest
      exact ⟨run_bind_eq_ok.mpr ⟨(), heap, hheap, hrun'⟩, hidx⟩

/-- The numbers of the classes. -/
def numids (heap : Heap) (c : Addr) : Bool × Nat := ((heap.cells c).isResolved, (heap.cells c).numid)

theorem numids_modifyCell {heap : Heap} {b : Addr} {f : Hierarchy.ClassCell → Hierarchy.ClassCell}
    (hf : ((f (heap.cells b)).isResolved, (f (heap.cells b)).numid) = numids heap b) :
    numids (heap.modifyCell b f) = numids heap := by
  funext c
  by_cases hc : c = b
  · rw [numids, hc, Heap.modifyCell_self, hf]
  · rw [numids, Heap.modifyCell_of_ne _ _ hc, numids]

theorem unindexed_numids : Hierarchy.Unindexed numids where
  countTerminal _ _ := numids_modifyCell rfl
  setDescendants _ _ _ := numids_modifyCell rfl
  countChild _ _ := numids_modifyCell rfl
  setChildRef _ _ _ := numids_modifyCell rfl

theorem classId_congr (h : numids repo'.heap = numids repo.heap) (c : Addr) : repo'.classId c = repo.classId c := by
  have hc := congrFun h c
  rw [numids, numids, Prod.mk.injEq] at hc
  rw [Repo.classId, Repo.classId, hc.1, Heap.entryId, hc.2, Heap.entryId]

/-- One round of the indexing registers the class and keeps those that are registered. -/
theorem indexClass_ok {c : Addr} (hrun : (indexClass D c).run repo = .ok () repo')
    (hover : repo.classIdx.allowOverwrite = false) :
    numids repo'.heap = numids repo.heap ∧ repo'.classIdx.allowOverwrite = false ∧
      kndSharedSetGet repo'.classIdx (repo.classId c) = .ok c ∧
      ∀ id d, kndSharedSetGet repo.classIdx id = .ok d → kndSharedSetGet repo'.classIdx id = .ok d := by
  obtain ⟨_, repo₁, hindex, hregister⟩ := run_bind_eq_ok.mp hrun
  obtain ⟨heap, hheap, rfl⟩ := run_onPart_eq_ok.mp hindex
  have hnumids : numids heap = numids repo.heap :=
    (unindexed_numids.moves_kndClassIndex c (fun _ => numids_modifyCell rfl) fun _ => numids_modifyCell rfl).of_ok hheap
  have hid : ({ repo with heap } : Repo).classId c = repo.classId c := classId_congr hnumids c
  have hadd : (registerClass c).run { repo with heap } =
      match kndSharedSetAdd repo.classIdx (({ repo with heap } : Repo).classId c) c with
      | (.error e, classIdx) => .error (.err e) { repo with heap, classIdx }
      | (.ok (), classIdx) => .ok () { repo with heap, classIdx } := rfl
  rw [hadd, hid] at hregister
  split at hregister
  · cases hregister
  · rename_i classIdx hok
    cases hregister
    obtain ⟨hfree, -, hover'⟩ := kndSharedSetAdd_new hok hover
    have hget := kndSharedSetAdd_ok hok
    refine ⟨hnumids, hover', (hget _ _).mpr (by rw [if_pos rfl]), fun id d hd => (hget id d).mpr ?_⟩
    have hne : id ≠ repo.classId c := by
      rintro rfl
      exact hfree d hd
    rw [if_neg hne]
    exact hd

/-- **The bulk load registers every class under its id.** -/
theorem BulkLoaded.registered (h : BulkLoaded D repo) {c : Addr} (hc : c ∈ D.graph.names) : Registered repo c := by
  obtain ⟨depth, order, hperm, hrun⟩ := h
  obtain ⟨_, repo₀, hstart, hrun⟩ := run_bind_eq_ok.mp hrun
  cases hstart
  obtain ⟨_, repo₁, hresolve, hindex⟩ := run_bind_eq_ok.mp hrun
  obtain ⟨hclasses, hidx⟩ := resolveClasses_of_forM hresolve
  have hresolved := ((Hierarchy.settled_initial D.graph).resolveClasses hclasses).resolved c (hperm.mem_iff.mpr hc)
  -- the ids are those of the resolution, and what was registered stays so
  have hall : numids repo.heap = numids repo₁.heap ∧ repo.classIdx.allowOverwrite = false ∧
      ∀ d ∈ order, kndSharedSetGet repo.classIdx (repo₁.classId d) = .ok d := by
    refine forM_ok_induction (fun pre repo' => numids repo'.heap = numids repo₁.heap ∧
      repo'.classIdx.allowOverwrite = false ∧ ∀ d ∈ pre, kndSharedSetGet repo'.classIdx (repo₁.classId d) = .ok d)
      hindex ⟨rfl, by rw [hidx], by simp⟩ ?_
    rintro pre d repo₂ repo₃ - ⟨hnumids, hover, hpre⟩ hround
    obtain ⟨hnumids', hover', hself, hkept⟩ := indexClass_ok hround hover
    refine ⟨hnumids'.trans hnumids, hover', fun d' hd' => ?_⟩
    rcases List.mem_append.mp hd' with hd' | hd'
    · exact hkept _ _ (hpre d' hd')
    · rw [List.mem_singleton.mp hd', ← classId_congr hnumids d]
      exact hself
  obtain ⟨hnumids, -, hregistered⟩ := hall
  have hid := classId_congr hnumids c
  refine ⟨?_, by rw [hid]; exact hregistered c (hperm.mem_iff.mpr hc)⟩
  have hdigits : repo₁.classId c = kndUidCreate (repo₁.heap.cells c).numid := if_pos hresolved
  rw [hid, hdigits, kndUidCreate, kndNumToStr_eq, digitsKey, Ne, List.map_eq_nil_iff]
  exact numDigits_ne_nil _

end Load

/-! ## (7) The two graphs -/

/-- **The commit path and the bulk load build the same class graph exactly if no class is declared.** -/
theorem sameGraph_iff {D : Declarations} {bulk committed : Repo} (hbulk : BulkLoaded D bulk)
    (hcommitted : Committed D committed) : SameGraph D bulk committed ↔ D.graph.names = [] := by
  constructor
  · intro hsame
    refine List.eq_nil_iff_forall_not_mem.mpr fun c hc => ?_
    exact hcommitted.not_registered c ((hsame.registered c hc).mp (hbulk.registered hc))
  · intro hnil
    constructor <;> simp [hnil]

/-- The bases of `Event`. -/
def eventBases (c : Addr) : List Hierarchy.ClassVar := if c = 2 then [⟨1, []⟩] else []

theorem eventBases_mem (c : Addr) : ∀ cvar ∈ eventBases c, cvar.entry ∈ [1, 2] := by
  intro cvar hcvar
  rw [eventBases] at hcvar
  split_ifs at hcvar <;> simp_all

/-- `Thing` with an attribute; `Event` is a `Thing`. -/
def events : Declarations where
  graph :=
    { root := 0
      names := [1, 2]
      baseclassVars := eventBases
      root_notMem := by decide
      baseclassVars_root := rfl
      entry_mem := eventBases_mem }
  attrs :=
    { attrs := fun c => if c = 1 then [1] else []
      parentClass := fun _ => 1
      attrName := fun _ => [97]
      baseclassVars := fun c => if c = 2 then [⟨1, []⟩] else []
      varParent := fun _ => 0
      varName := fun _ => []
      loaded := fun _ => true
      parentClass_eq := by
        intro c a ha
        split_ifs at ha <;> simp_all
      nodup_attrs := by
        intro c
        split_ifs <;> simp
      varParent_eq := by
        intro c cvar hcvar
        split_ifs at hcvar <;> simp_all
      nodup_vars := by
        intro c
        split_ifs <;> simp }
  bases_eq := by
    intro c
    by_cases hc : c = 2 <;> simp [Hierarchy.Schema.bases, eventBases, hc]

/-- No instances. -/
def noInsts : InstOps := ⟨fun _ => pure (), fun _ _ => pure ()⟩

theorem bulkLoaded_events : BulkLoaded events (finalState (readSourceFiles events 4 [2, 1]) {}) := by
  obtain ⟨_, hrun⟩ := returns_iff.mp (by decide +kernel : returns (readSourceFiles events 4 [2, 1]) {} = true)
  exact ⟨4, [2, 1], by decide, hrun⟩

theorem committed_events : Committed events (finalState (commitAll events noInsts [[1], [2]]) {}) := by
  obtain ⟨_, hrun⟩ := returns_iff.mp (by decide +kernel : returns (commitAll events noInsts [[1], [2]]) {} = true)
  exact ⟨noInsts, [[1], [2]], by decide, hrun⟩

theorem sameGraph_iff_events :
    SameGraph events (finalState (readSourceFiles events 4 [2, 1]) {})
      (finalState (commitAll events noInsts [[1], [2]]) {}) ↔ events.graph.names = [] :=
  sameGraph_iff bulkLoaded_events committed_events

/-- Two commits create `Thing` and `Event`, but no ancestor, no attribute and no id. -/
theorem not_sameGraph_events :
    ¬SameGraph events (finalState (readSourceFiles events 4 [2, 1]) {})
      (finalState (commitAll events noInsts [[1], [2]]) {}) := by
  intro hsame
  have hbulk := bulkLoaded_events.registered (show 1 ∈ events.graph.names by decide)
  exact committed_events.not_registered 1 ((hsame.registered 1 (by decide)).mp hbulk)

end ClassGraphs

end Knowdy
