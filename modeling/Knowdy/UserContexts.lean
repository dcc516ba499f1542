import Knowdy.Lib.Runs
import Knowdy.Lib.Threads
import Knowdy.SharedDict

/-! # Users and their contexts

Any number of tasks select users by `run_get_user`, interleaved between every two accesses. The context of a user
is found by three places: the number of a cache cell in the entry of the user, the cell, and the context in it.

* `Shared` — the cache, with the readers of its cells, and the cell numbers of the users.
* `Stage`, `Choice`, `advance` — where a task is, what it cannot foresee, and its next access in `run_get_user`,
  `knd_cache_set`, `knd_cache_get`.
* `Race.Sound` — the tasks that hold a context of a user hold the same one, a call returns the context of the user
  that was asked for, and a task that is left alone returns.
* `Race.Fits` — what an access has to find: no other task that builds the context of the same user, and an empty
  cell.
* `sound_of_fits` — every run of such accesses is sound. -/

namespace Knowdy

namespace UserContexts

/-! ## (1) What the tasks share -/

/-- `struct kndUserContext`. -/
structure UserContext where
  /-- Where it was allocated. -/
  addr : Nat
  /-- `inst`. The default anonymous user is no instance. -/
  inst : Option Nat
  /-- `repo`. The repository of the shard is 0. -/
  repo : Nat
  deriving DecidableEq

/-- `struct kndCacheCell`. -/
structure CacheCell where
  /-- `num_readers`; -1 while a writer has the cell. -/
  numReaders : Int := 0
  /-- `data`. -/
  data : Option UserContext := none

/-- The cache of the contexts, and what the entries of the users say about it. -/
structure Shared where
  /-- `num_cells`. -/
  numCells : Nat
  /-- `cells`. -/
  cells : Nat → CacheCell := fun _ => {}
  /-- `cache_cell_num` of each user; 0 denotes no cell. -/
  cacheCellNum : Nat → Nat := fun _ => 0
  /-- The next context that is allocated. -/
  nextCtx : Nat := 0

namespace Shared

/-- `num_readers` of a cell changes. -/
def setReaders (self : Shared) (i : Nat) (n : Int) : Shared :=
  { self with cells := Function.update self.cells i { self.cells i with numReaders := n } }

/-- `data` of a cell changes. -/
def setData (self : Shared) (i : Nat) (ctx : UserContext) : Shared :=
  { self with cells := Function.update self.cells i { self.cells i with data := some ctx } }

/-- `cache_cell_num` of a user changes. -/
def setCellNum (self : Shared) (user cellNum : Nat) : Shared :=
  { self with cacheCellNum := Function.update self.cacheCellNum user cellNum }

/-- A context is allocated. -/
def allocCtx (self : Shared) : Shared := { self with nextCtx := self.nextCtx + 1 }

/-- `free_user_ctx`. -/
def freeUserCtx (self : Shared) (ctx : UserContext) : Shared :=
  match ctx.inst with
  | some user => self.setCellNum user 0
  | none => self

end Shared

/-! ## (2) The calls -/

/-- Where a task is. -/
inductive Stage where
  /-- No user is selected. -/
  | idle
  /-- Before the load of `cache_cell_num`. -/
  | looking (user : Nat)
  /-- No cell number was found. -/
  | building (user : Nat)
  /-- `build_user_ctx` has returned. -/
  | setting (user : Nat) (ctx : UserContext)
  /-- `knd_cache_set` is before cell `i`. -/
  | seeking (user : Nat) (ctx : UserContext) (i : Nat)
  /-- The cell has no readers. -/
  | grabbing (user : Nat) (ctx : UserContext) (i : Nat) (numReaders : Int)
  /-- Readers are kept off the cell. -/
  | entered (user : Nat) (ctx : UserContext) (i : Nat)
  /-- `prev_data` is loaded. -/
  | exchanging (user : Nat) (ctx : UserContext) (i : Nat) (prev : Option UserContext)
  /-- The context is in the cell. -/
  | opening (user : Nat) (ctx : UserContext) (i : Nat) (prev : Option UserContext)
  /-- Before `self->cb(prev_data)`. -/
  | evicting (user : Nat) (ctx : UserContext) (i : Nat) (prev : UserContext)
  /-- `knd_cache_set` has returned. -/
  | publishing (user : Nat) (ctx : UserContext) (i : Nat)
  /-- `knd_cache_get` is before the load of `num_readers`. -/
  | getting (user : Nat) (i : Nat)
  /-- `num_readers` is loaded. -/
  | counting (user : Nat) (i : Nat) (numReaders : Int)
  /-- The cell has one reader more. -/
  | reading (user : Nat) (i : Nat)
  /-- The task has a context. -/
  | holds (ctx : UserContext)
  /-- An assertion has failed, or a null pointer was read. -/
  | aborted
  deriving DecidableEq

/-- Is the task in a call of `run_get_user`? -/
def Stage.inCall : Stage → Bool
  | .idle | .holds _ => false
  | _ => true

/-- What a task cannot foresee. -/
structure Choice where
  /-- What `rand` returns. -/
  rand : Nat := 1
  /-- `atomic_compare_exchange_weak` fails for no reason. -/
  spurious : Bool := false
  /-- The error of `build_user_ctx`. -/
  buildErr : Option KndErr := none

/-- Who was asked for, and whose context was returned. -/
abbrev Answer := Except KndErr (Option Nat) × Except KndErr (Option Nat)

/-- **One access of `run_get_user`.** -/
def advance (self : Shared) (stage : Stage) (choice : Choice) : Outcome Shared Stage Answer :=
  match stage with
  | .idle | .holds _ | .aborted => { shared := self, stage }
  | .looking user =>
      match self.cacheCellNum user with
      | 0 => { shared := self, stage := .building user }
      | i + 1 => { shared := self, stage := .getting user i }
  | .building user =>
      match choice.buildErr with
      | some e => { shared := self.allocCtx, stage := .idle, returned := [(.ok (some user), .error e)] }
      | none =>
          -- each context has a repository of its own
          { shared := self.allocCtx, stage := .setting user ⟨self.nextCtx, some user, self.nextCtx + 1⟩ }
  | .setting user ctx =>
      match choice.rand % self.numCells with
      | 0 => { shared := self, stage := .aborted }   -- `start_cell_num` is `SIZE_MAX`
      | start + 1 => { shared := self, stage := .seeking user ctx start }
  | .seeking user ctx i =>
      if i < self.numCells then
        if 0 < (self.cells i).numReaders then { shared := self, stage := .seeking user ctx (i + 1) }
        else { shared := self, stage := .grabbing user ctx i (self.cells i).numReaders }
      -- no cell was set, and `cell_num` is still 0
      else { shared := self, stage := .publishing user ctx 0 }
  | .grabbing user ctx i n =>
      if choice.spurious = false ∧ (self.cells i).numReaders = n then
        { shared := self.setReaders i (-1), stage := .entered user ctx i }
      else { shared := self, stage := .seeking user ctx (i + 1) }
  | .entered user ctx i => { shared := self, stage := .exchanging user ctx i (self.cells i).data }
  | .exchanging user ctx i prev =>
      if choice.spurious = false ∧ (self.cells i).data = prev then
        { shared := self.setData i ctx, stage := .opening user ctx i prev }
      -- `num_readers` stays -1
      else { shared := self, stage := .seeking user ctx (i + 1) }
  | .opening user ctx i prev =>
      match prev with
      | none => { shared := self.setReaders i 0, stage := .publishing user ctx i }
      | some prev => { shared := self.setReaders i 0, stage := .evicting user ctx i prev }
  | .evicting user ctx i prev => { shared := self.freeUserCtx prev, stage := .publishing user ctx i }
  | .publishing user _ i => { shared := self.setCellNum user (i + 1), stage := .getting user i }
  | .getting user i =>
      if (self.cells i).numReaders = -1 then
        { shared := self, stage := .idle, returned := [(.ok (some user), .error .conflict)] }
      else { shared := self, stage := .counting user i (self.cells i).numReaders }
  | .counting user i n =>
      if choice.spurious = false ∧ (self.cells i).numReaders = n then
        { shared := self.setReaders i ((n + 1).bmod (2 ^ 32)), stage := .reading user i }
      else { shared := self, stage := .getting user i }
  | .reading user i =>
      match (self.cells i).data with
      | none => { shared := self, stage := .aborted }
      | some ctx =>
          if ctx.inst = some user then
            { shared := self, stage := .holds ctx, returned := [(.ok (some user), .ok ctx.inst)] }
          else { shared := self, stage := .looking user }   -- a stale cell

/-- The user a name stands for; `found` is what `knd_get_class_inst` returns for the name. -/
def userOf (name : Name) (found : Except KndErr Nat) : Except KndErr (Option Nat) :=
  if name.length ≥ nameSize then .error .limit
  else if name = [95] then .ok none   -- `_`
  else found.map some

/-- The instance of the context a task has. -/
def Stage.inst : Stage → Option Nat
  | .holds ctx => ctx.inst
  | _ => none

/-- **`knd_parse_select_user`** up to the first access of `run_get_user`. A restoring task keeps its context, and
`run_get_user` returns it whatever the name is. -/
def select (self : Shared) (stage : Stage) (restoring : Bool) (name : Name) (found : Except KndErr Nat) :
    Outcome Shared Stage Answer :=
  if stage.inCall then { shared := self, stage }
  else if restoring then { shared := self, stage, returned := [(userOf name found, .ok stage.inst)] }
  else
    match userOf name found with
    | .error e => { shared := self, stage := .idle, returned := [(.error e, .error e)] }
    | .ok none =>
        { shared := self.allocCtx, stage := .holds ⟨self.nextCtx, none, 0⟩, returned := [(.ok none, .ok none)] }
    | .ok (some user) => { shared := self, stage := .looking user }

/-- `knd_task_reset`. -/
def reset (self : Shared) (stage : Stage) : Outcome Shared Stage Answer :=
  if stage.inCall then { shared := self, stage } else { shared := self, stage := .idle }

/-! ## (3) The race -/

variable {ι : Type} [DecidableEq ι]

/-- The cache, the tasks `ι`, and what their calls have returned. -/
abbrev Race (ι : Type) := Threads ι Shared Stage Answer

/-- What a task does. -/
inductive UserEvent (ι : Type) where
  | select (t : ι) (restoring : Bool) (name : Name) (found : Except KndErr Nat)
  | turn (t : ι) (choice : Choice)
  | reset (t : ι)

/-- One event. -/
def Race.step (s : Race ι) : UserEvent ι → Race ι
  | .select t restoring name found => s.turn t (select s.shared (s.stage t) restoring name found)
  | .turn t choice => s.turn t (advance s.shared (s.stage t) choice)
  | .reset t => s.turn t (reset s.shared (s.stage t))

/-- The user whose context a task is about to put into the cache. -/
def Stage.builds : Stage → Option Nat
  | .building user | .setting user _ | .seeking user _ _ | .grabbing user _ _ _ | .entered user _ _
  | .exchanging user _ _ _ | .opening user _ _ _ | .evicting user _ _ _ | .publishing user _ _ => some user
  | _ => none

/-- **What an access has to find.** -/
def StageFits (self : Shared) (stage : Stage) (choice : Choice) : Prop :=
  match stage with
  | .setting _ _ => choice.rand % self.numCells ≠ 0
  | .seeking _ _ i => i < self.numCells
  | .exchanging _ _ i prev => choice.spurious = false → (self.cells i).data = prev → prev = none
  | _ => True

/-- A task that finds no cell of a user is the only one that builds a context of the user. -/
def Race.Alone (s : Race ι) (t : ι) : Prop :=
  match s.stage t with
  | .looking user => s.shared.cacheCellNum user = 0 → ∀ u, u ≠ t → (s.stage u).builds ≠ some user
  | _ => True

/-- **What an event has to find**: no other task builds the context of a user without a cell, the first cell is in
range, there is a cell left, and it holds no context. A restoring task asks for the user it has. -/
def Race.Fits (s : Race ι) : UserEvent ι → Prop
  | .select t restoring name found =>
      restoring = true → (s.stage t).inCall = false → userOf name found = .ok (s.stage t).inst
  | .turn t choice => StageFits s.shared (s.stage t) choice ∧ s.Alone t
  | .reset _ => True

/-- **One context for each user.** -/
structure Race.Sound (s : Race ι) : Prop where
  /-- The contexts of one user are one context. The default anonymous user is no instance and has one repository. -/
  same : ∀ t u ctx ctx', s.stage t = .holds ctx → s.stage u = .holds ctx' → ctx.inst = ctx'.inst →
    ctx.repo = ctx'.repo ∧ (ctx.inst ≠ none → ctx = ctx')
  /-- A call that returns a context returns the one of the user that was asked for. -/
  requested : ∀ requested inst, (requested, .ok inst) ∈ s.log → requested = .ok inst
  /-- A task that is left alone returns, if its exchanges do not fail for no reason again and again. -/
  returns : ∀ t, ∃ n, ∀ choices : List Choice, AllAllowed Race.step Race.Fits s (choices.map (.turn t)) →
    n + 2 * choices.countP Choice.spurious ≤ choices.length →
      (((choices.map (.turn t)).foldl Race.step s).stage t).inCall = false

/-! ## (4) What an access can do -/

/-- The accesses that find what they have to find, one rule for each of their results. -/
inductive Access (self : Shared) (spurious : Bool) : Stage → Outcome Shared Stage Answer → Prop
  | rest (stage : Stage) (hcall : stage.inCall = false) : Access self spurious stage { shared := self, stage }
  | noCell (user : Nat) (hcell : self.cacheCellNum user = 0) :
      Access self spurious (.looking user) { shared := self, stage := .building user }
  | cell (user i : Nat) (hcell : self.cacheCellNum user = i + 1) :
      Access self spurious (.looking user) { shared := self, stage := .getting user i }
  | fail (user : Nat) (e : KndErr) : Access self spurious (.building user)
      { shared := self.allocCtx, stage := .idle, returned := [(.ok (some user), .error e)] }
  | build (user : Nat) : Access self spurious (.building user)
      { shared := self.allocCtx, stage := .setting user ⟨self.nextCtx, some user, self.nextCtx + 1⟩ }
  | start (user : Nat) (ctx : UserContext) (i : Nat) :
      Access self spurious (.setting user ctx) { shared := self, stage := .seeking user ctx i }
  | skip (user : Nat) (ctx : UserContext) (i : Nat) (hi : i < self.numCells) :
      Access self spurious (.seeking user ctx i) { shared := self, stage := .seeking user ctx (i + 1) }
  | free (user : Nat) (ctx : UserContext) (i : Nat) (n : Int) (hi : i < self.numCells) :
      Access self spurious (.seeking user ctx i) { shared := self, stage := .grabbing user ctx i n }
  | lose (user : Nat) (ctx : UserContext) (i : Nat) (n : Int) :
      Access self spurious (.grabbing user ctx i n) { shared := self, stage := .seeking user ctx (i + 1) }
  | grab (user : Nat) (ctx : UserContext) (i : Nat) (n : Int) : Access self spurious (.grabbing user ctx i n)
      { shared := self.setReaders i (-1), stage := .entered user ctx i }
  | load (user : Nat) (ctx : UserContext) (i : Nat) (prev : Option UserContext) :
      Access self spurious (.entered user ctx i) { shared := self, stage := .exchanging user ctx i prev }
  | taken (user : Nat) (ctx : UserContext) (i : Nat) (prev : Option UserContext) :
      Access self spurious (.exchanging user ctx i prev) { shared := self, stage := .seeking user ctx (i + 1) }
  | exchange (user : Nat) (ctx : UserContext) (i : Nat) (hdata : (self.cells i).data = none) :
      Access self spurious (.exchanging user ctx i none)
        { shared := self.setData i ctx, stage := .opening user ctx i none }
  | openCell (user : Nat) (ctx : UserContext) (i : Nat) : Access self spurious (.opening user ctx i none)
      { shared := self.setReaders i 0, stage := .publishing user ctx i }
  | publish (user : Nat) (ctx : UserContext) (i : Nat) : Access self spurious (.publishing user ctx i)
      { shared := self.setCellNum user (i + 1), stage := .getting user i }
  | conflict (user i : Nat) : Access self spurious (.getting user i)
      { shared := self, stage := .idle, returned := [(.ok (some user), .error .conflict)] }
  | readers (user i : Nat) : Access self spurious (.getting user i)
      { shared := self, stage := .counting user i (self.cells i).numReaders }
  | retry (user i : Nat) (n : Int) (h : spurious = true ∨ (self.cells i).numReaders ≠ n) :
      Access self spurious (.counting user i n) { shared := self, stage := .getting user i }
  | count (user i : Nat) (n m : Int) (h : (self.cells i).numReaders = n) : Access self spurious (.counting user i n)
      { shared := self.setReaders i m, stage := .reading user i }
  | read (user i : Nat) (ctx : UserContext) (hdata : (self.cells i).data = some ctx) (hinst : ctx.inst = some user) :
      Access self spurious (.reading user i)
        { shared := self, stage := .holds ctx, returned := [(.ok (some user), .ok ctx.inst)] }
  | drop (stage : Stage) (hcall : stage.inCall = false) :
      Access self spurious stage { shared := self, stage := .idle }
  | refuse (stage : Stage) (hcall : stage.inCall = false) (e : KndErr) :
      Access self spurious stage { shared := self, stage := .idle, returned := [(.error e, .error e)] }
  | keep (stage : Stage) (hcall : stage.inCall = false) :
      Access self spurious stage { shared := self, stage, returned := [(.ok stage.inst, .ok stage.inst)] }
  | anonymous (stage : Stage) (hcall : stage.inCall = false) : Access self spurious stage
      { shared := self.allocCtx, stage := .holds ⟨self.nextCtx, none, 0⟩, returned := [(.ok none, .ok none)] }
  | begin (stage : Stage) (hcall : stage.inCall = false) (user : Nat) :
      Access self spurious stage { shared := self, stage := .looking user }

/-! ## (5) What is known of the cache and of the calls -/

namespace Shared

/-- The context of a user is in a cell. -/
def Has (self : Shared) (user i : Nat) : Prop := ∃ ctx, (self.cells i).data = some ctx ∧ ctx.inst = some user

/-- No cell has a context of a user. -/
def Lacks (self : Shared) (user : Nat) : Prop := ∀ i ctx, (self.cells i).data = some ctx → ctx.inst ≠ some user

end Shared

/-- **The contexts in the cells**, and the calls that have returned. -/
structure Cached (cache : Shared) (log : List Answer) : Prop where
  /-- A published cell has the context of its user. -/
  published : ∀ user i, cache.cacheCellNum user = i + 1 → cache.Has user i
  /-- No two cells have contexts of one user. -/
  unique : ∀ i j ctx ctx', (cache.cells i).data = some ctx → (cache.cells j).data = some ctx' →
    ctx.inst = ctx'.inst → i = j
  /-- What was returned is what was asked for. -/
  requested : ∀ requested inst, (requested, .ok inst) ∈ log → requested = .ok inst

/-- **What is known of a call** at its stage. -/
def CallHolds (self : Shared) (_ : List Answer) : Stage → Prop
  | .idle | .looking _ => True
  | .building user => self.Lacks user
  | .setting user ctx | .seeking user ctx _ | .grabbing user ctx _ _ | .entered user ctx _
  | .exchanging user ctx _ _ => ctx.inst = some user ∧ self.Lacks user
  | .opening user _ i prev => prev = none ∧ self.Has user i
  | .evicting _ _ _ _ | .aborted => False
  | .publishing user _ i | .getting user i | .counting user i _ | .reading user i => self.Has user i
  | .holds ctx => (ctx.inst = none ∧ ctx.repo = 0) ∨ ∃ i, (self.cells i).data = some ctx

/-- Two tasks do not build contexts of one user. -/
def NotBoth (a b : Stage) : Prop := ∀ user, a.builds = some user → b.builds ≠ some user

theorem NotBoth.symm {a b : Stage} (h : NotBoth a b) : NotBoth b a := fun user hb ha => h user ha hb

/-- A task that builds no context, or none that it has not built before. -/
theorem NotBoth.of_builds {a a' b : Stage} (h : NotBoth a b)
    (hbuilds : ∀ user, a'.builds = some user → a.builds = some user) : NotBoth a' b :=
  fun user ha' => h user (hbuilds user ha')

theorem builds_of_inCall {stage : Stage} (h : stage.inCall = false) : stage.builds = none := by
  cases stage with
  | idle => rfl
  | holds => rfl
  | _ => cases h

section Accesses

variable {self : Shared} {log : List Answer} {stage : Stage}

/-- **An access** that finds what it has to find. -/
theorem access_advance (choice : Choice) (hholds : CallHolds self log stage) (hfits : StageFits self stage choice) :
    Access self choice.spurious stage (advance self stage choice) := by
  cases stage with
  | idle => exact .rest _ rfl
  | holds ctx => exact .rest _ rfl
  | aborted => exact hholds.elim
  | evicting => exact hholds.elim
  | looking user =>
      cases hcell : self.cacheCellNum user with
      | zero => simpa only [advance, hcell] using Access.noCell user hcell
      | succ i => simpa only [advance, hcell] using Access.cell user i hcell
  | building user =>
      cases herr : choice.buildErr with
      | some e => simpa only [advance, herr] using Access.fail user e
      | none => simpa only [advance, herr] using Access.build user
  | setting user ctx =>
      cases hrand : choice.rand % self.numCells with
      | zero => exact absurd hrand hfits
      | succ i => simpa only [advance, hrand] using Access.start user ctx i
  | seeking user ctx i =>
      have hi : i < self.numCells := hfits
      unfold advance
      simp only [if_pos hi]
      by_cases hreaders : 0 < (self.cells i).numReaders
      · rw [if_pos hreaders]
        exact .skip user ctx i hi
      · rw [if_neg hreaders]
        exact .free user ctx i _ hi
  | grabbing user ctx i n =>
      unfold advance
      by_cases hcas : choice.spurious = false ∧ (self.cells i).numReaders = n
      · simp only [if_pos hcas]
        exact .grab user ctx i n
      · simp only [if_neg hcas]
        exact .lose user ctx i n
  | entered user ctx i => exact .load user ctx i _
  | exchanging user ctx i prev =>
      unfold advance
      by_cases hcas : choice.spurious = false ∧ (self.cells i).data = prev
      · have hprev : prev = none := hfits hcas.1 hcas.2
        subst hprev
        simp only [if_pos hcas]
        exact .exchange user ctx i hcas.2
      · simp only [if_neg hcas]
        exact .taken user ctx i prev
  | opening user ctx i prev =>
      obtain ⟨rfl, -⟩ := hholds
      exact .openCell user ctx i
  | publishing user ctx i => exact .publish user ctx i
  | getting user i =>
      unfold advance
      by_cases hreaders : (self.cells i).numReaders = -1
      · simp only [if_pos hreaders]
        exact .conflict user i
      · simp only [if_neg hreaders]
        exact .readers user i
  | counting user i n =>
      unfold advance
      by_cases hcas : choice.spurious = false ∧ (self.cells i).numReaders = n
      · simp only [if_pos hcas]
        exact .count user i n _ hcas.2
      · simp only [if_neg hcas]
        refine .retry user i n ?_
        by_cases hspurious : choice.spurious = true
        · exact .inl hspurious
        · exact .inr fun hn => hcas ⟨by simpa using hspurious, hn⟩
  | reading user i =>
      obtain ⟨ctx, hdata, hinst⟩ := hholds
      unfold advance
      simp only [hdata, if_pos hinst]
      exact .read user i ctx hdata hinst

/-- A selection of a task that is not in a call. -/
theorem access_select {restoring : Bool} {name : Name} {found : Except KndErr Nat} (hcall : stage.inCall = false)
    (hfits : restoring = true → stage.inCall = false → userOf name found = .ok stage.inst) :
    Access self false stage (select self stage restoring name found) := by
  unfold select
  simp only [hcall, Bool.false_eq_true, if_false]
  by_cases hrestoring : restoring = true
  · rw [if_pos hrestoring, hfits hrestoring hcall]
    exact .keep stage hcall
  · rw [if_neg hrestoring]
    cases userOf name found with
    | error e => exact .refuse stage hcall e
    | ok user =>
        cases user with
        | none => exact .anonymous stage hcall
        | some user => exact .begin stage hcall user

/-- A reset of a task that is not in a call. -/
theorem access_reset (hcall : stage.inCall = false) : Access self false stage (reset self stage) := by
  unfold reset
  simp only [hcall, Bool.false_eq_true, if_false]
  exact .drop stage hcall

/-! ## (6) The accesses keep what is known -/

@[simp] theorem data_setReaders (self : Shared) (i : Nat) (n : Int) (j : Nat) :
    ((self.setReaders i n).cells j).data = (self.cells j).data := by
  by_cases hj : j = i
  · subst hj
    simp only [Shared.setReaders, Function.update_self]
  · simp only [Shared.setReaders, Function.update_of_ne hj]

theorem data_setData_self (self : Shared) (i : Nat) (ctx : UserContext) :
    ((self.setData i ctx).cells i).data = some ctx := by
  simp only [Shared.setData, Function.update_self]

theorem data_setData_of_ne (self : Shared) {i j : Nat} (hj : j ≠ i) (ctx : UserContext) :
    ((self.setData i ctx).cells j).data = (self.cells j).data := by
  simp only [Shared.setData, Function.update_of_ne hj]

/-- What is known of a call is about the contexts in the cells. -/
theorem CallHolds.congr (h : CallHolds self log stage) {self' : Shared} {log' : List Answer}
    (hdata : ∀ i, (self'.cells i).data = (self.cells i).data) : CallHolds self' log' stage := by
  unfold CallHolds Shared.Lacks Shared.Has at *
  simp only [hdata]
  exact h

/-- **A context is put into an empty cell** by another task. -/
theorem CallHolds.setData (h : CallHolds self log stage) {i : Nat} (hnone : (self.cells i).data = none)
    {user : Nat} {ctx : UserContext} (hinst : ctx.inst = some user) (hother : stage.builds ≠ some user) :
    CallHolds (self.setData i ctx) log stage := by
  have hhas : ∀ user' j, self.Has user' j → (self.setData i ctx).Has user' j := by
    rintro user' j ⟨ctx', hctx', hinst'⟩
    have hj : j ≠ i := by
      rintro rfl
      rw [hnone] at hctx'
      cases hctx'
    exact ⟨ctx', (data_setData_of_ne self hj ctx).trans hctx', hinst'⟩
  have hlacks : ∀ user', user' ≠ user → self.Lacks user' → (self.setData i ctx).Lacks user' := by
    intro user' hne hlacks j ctx' hctx'
    by_cases hj : j = i
    · subst hj
      rw [data_setData_self] at hctx'
      cases hctx'
      rw [hinst]
      exact fun heq => hne (Option.some.inj heq).symm
    · rw [data_setData_of_ne self hj] at hctx'
      exact hlacks j ctx' hctx'
  have hne : ∀ user', stage.builds = some user' → user' ≠ user := by
    rintro user' hbuilds rfl
    exact hother hbuilds
  cases stage with
  | idle => trivial
  | looking => trivial
  | building user' => exact hlacks user' (hne user' rfl) h
  | setting user' => exact ⟨h.1, hlacks user' (hne user' rfl) h.2⟩
  | seeking user' => exact ⟨h.1, hlacks user' (hne user' rfl) h.2⟩
  | grabbing user' => exact ⟨h.1, hlacks user' (hne user' rfl) h.2⟩
  | entered user' => exact ⟨h.1, hlacks user' (hne user' rfl) h.2⟩
  | exchanging user' => exact ⟨h.1, hlacks user' (hne user' rfl) h.2⟩
  | opening user' _ j => exact ⟨h.1, hhas user' j h.2⟩
  | evicting => exact h
  | publishing user' _ j => exact hhas user' j h
  | getting user' j => exact hhas user' j h
  | counting user' j => exact hhas user' j h
  | reading user' j => exact hhas user' j h
  | holds ctx' =>
      refine h.imp_right ?_
      rintro ⟨j, hj⟩
      refine ⟨j, (data_setData_of_ne self ?_ ctx).trans hj⟩
      rintro rfl
      rw [hnone] at hj
      cases hj
  | aborted => exact h

namespace Cached

/-- The contexts in the cells stay as they are. -/
theorem congr (h : Cached self log) {self' : Shared} (hdata : ∀ i, (self'.cells i).data = (self.cells i).data)
    (hcell : self'.cacheCellNum = self.cacheCellNum) : Cached self' log := by
  refine ⟨fun user i hi => ?_, fun i j ctx ctx' hi hj => ?_, h.requested⟩
  · obtain ⟨ctx, hctx, hinst⟩ := h.published user i (hcell ▸ hi)
    exact ⟨ctx, (hdata i).trans hctx, hinst⟩
  · exact h.unique i j ctx ctx' ((hdata i).symm.trans hi) ((hdata j).symm.trans hj)

/-- A call returns. -/
theorem answer (h : Cached self log) {requested : Except KndErr (Option Nat)} {inst : Except KndErr (Option Nat)}
    (hok : ∀ i, inst = .ok i → requested = .ok i) : Cached self ((requested, inst) :: log) := by
  refine ⟨h.published, h.unique, fun requested' inst' hmem => ?_⟩
  rcases List.mem_cons.mp hmem with heq | hmem
  · obtain ⟨hrequested, hinst⟩ := Prod.mk.inj heq
    exact hrequested.trans (hok inst' hinst.symm)
  · exact h.requested requested' inst' hmem

/-- **A context is put into an empty cell.** -/
theorem setData (h : Cached self log) {i user : Nat} {ctx : UserContext} (hnone : (self.cells i).data = none)
    (hinst : ctx.inst = some user) (hlacks : self.Lacks user) : Cached (self.setData i ctx) log := by
  refine ⟨fun user' j hj => ?_, fun j k ctx₁ ctx₂ hj hk heq => ?_, h.requested⟩
  · obtain ⟨ctx', hctx', hinst'⟩ := h.published user' j hj
    have hne : j ≠ i := by
      rintro rfl
      rw [hnone] at hctx'
      cases hctx'
    exact ⟨ctx', (data_setData_of_ne self hne ctx).trans hctx', hinst'⟩
  · by_cases hj' : j = i
    · by_cases hk' : k = i
      · exact hj'.trans hk'.symm
      · subst hj'
        rw [data_setData_self] at hj
        rw [data_setData_of_ne self hk'] at hk
        cases hj
        exact absurd (heq.symm.trans hinst) (hlacks k ctx₂ hk)
    · rw [data_setData_of_ne self hj'] at hj
      by_cases hk' : k = i
      · subst hk'
        rw [data_setData_self] at hk
        cases hk
        exact absurd (heq.trans hinst) (hlacks j ctx₁ hj)
      · rw [data_setData_of_ne self hk'] at hk
        exact h.unique j k ctx₁ ctx₂ hj hk heq

/-- **The cell of a user is published.** -/
theorem setCellNum (h : Cached self log) {user i : Nat} (hhas : self.Has user i) :
    Cached (self.setCellNum user (i + 1)) log := by
  refine ⟨fun user' j hj => ?_, h.unique, h.requested⟩
  by_cases huser : user' = user
  · subst huser
    have hat : (self.setCellNum user' (i + 1)).cacheCellNum user' = i + 1 := Function.update_self _ _ _
    rw [hat] at hj
    obtain rfl := Nat.succ.inj hj
    exact hhas
  · have hat : (self.setCellNum user (i + 1)).cacheCellNum user' = self.cacheCellNum user' :=
      Function.update_of_ne huser _ _
    rw [hat] at hj
    exact h.published user' j hj

end Cached

end Accesses


/-! ## (7) Runs -/

/-- What is known of the cache and of the calls. -/
abbrev Race.Sure (s : Race ι) : Prop := s.Holds Cached CallHolds NotBoth

/-- **A context in a cell** is published, or the task that has built it is about to publish it. -/
def Race.Covered (s : Race ι) : Prop :=
  ∀ i ctx, (s.shared.cells i).data = some ctx → ∃ user, ctx.inst = some user ∧
    (s.shared.cacheCellNum user ≠ 0 ∨ ∃ t, (s.stage t).builds = some user)

variable {s : Race ι} {t : ι} {stage : Stage} {spurious : Bool} {o : Outcome Shared Stage Answer}

omit [DecidableEq ι] in
theorem Race.Alone.others (h : s.Alone t) {user : Nat} (hstage : s.stage t = .looking user)
    (hcell : s.shared.cacheCellNum user = 0) {u : ι} (hu : u ≠ t) : (s.stage u).builds ≠ some user := by
  unfold Race.Alone at h
  rw [hstage] at h
  exact h hcell u hu

/-- What a task builds alone. -/
theorem Race.Covered.lacks (h : s.Covered) (halone : s.Alone t) {user : Nat} (hstage : s.stage t = .looking user)
    (hcell : s.shared.cacheCellNum user = 0) : s.shared.Lacks user := by
  intro i ctx hdata hinst
  obtain ⟨user', hinst', hcovered⟩ := h i ctx hdata
  obtain rfl : user' = user := Option.some.inj (hinst'.symm.trans hinst)
  rcases hcovered with hne | ⟨u, hu⟩
  · exact hne hcell
  · by_cases hut : u = t
    · subst hut
      rw [hstage] at hu
      cases hu
    · exact halone.others hstage hcell hut hu

/-- **An access keeps what is known.** -/
theorem Race.Sure.turn (h : s.Sure) (hcovered : s.Covered) (halone : s.Alone t) (hstage : s.stage t = stage)
    (ho : Access s.shared spurious stage o) : Race.Sure (s.turn t o) := by
  have hcached : Cached s.shared s.log := h.shared
  have hcall : CallHolds s.shared s.log stage := hstage ▸ h.each t
  have hsame : ∀ (self : Shared) (n : Int) (i j : Nat),
      ((self.setReaders i n).cells j).data = (self.cells j).data := fun self n i j => data_setReaders self i n j
  refine Threads.Holds.turn h (fun _ _ => NotBoth.symm) ?_ ?_ ?_
  · cases ho with
    | fail user e =>
        have hcached' : Cached s.shared.allocCtx s.log := hcached.congr (fun _ => rfl) rfl
        refine hcached'.answer fun i hi => ?_
        cases hi
    | build => exact hcached.congr (fun _ => rfl) rfl
    | grab => exact hcached.congr (hsame _ _ _) rfl
    | exchange user ctx i hdata => exact hcached.setData hdata hcall.1 hcall.2
    | openCell => exact hcached.congr (hsame _ _ _) rfl
    | publish user ctx i => exact hcached.setCellNum hcall
    | conflict => exact hcached.answer fun i hi => by cases hi
    | count => exact hcached.congr (hsame _ _ _) rfl
    | read user i ctx hdata hinst =>
        refine hcached.answer fun j hj => ?_
        cases hj
        exact congrArg Except.ok hinst.symm
    | refuse =>
        refine hcached.answer fun i hi => ?_
        cases hi
    | keep => exact hcached.answer fun _ hi => hi
    | anonymous =>
        have hcached' : Cached s.shared.allocCtx s.log := hcached.congr (fun _ => rfl) rfl
        exact hcached'.answer fun _ hi => hi
    | _ => exact hcached
  · cases ho with
    | rest => exact hcall
    | noCell user hcell => exact hcovered.lacks halone hstage hcell
    | cell user i hcell => exact hcached.published user i hcell
    | fail => trivial
    | build user => exact ⟨rfl, hcall⟩
    | start => exact hcall
    | skip => exact hcall
    | free => exact hcall
    | lose => exact hcall
    | grab user ctx i =>
        have hentered : CallHolds s.shared s.log (.entered user ctx i) := hcall
        exact hentered.congr (hsame _ _ _)
    | load => exact hcall
    | taken => exact hcall
    | exchange user ctx i => exact ⟨rfl, ctx, data_setData_self _ i ctx, hcall.1⟩
    | openCell user ctx i =>
        have hpublishing : CallHolds s.shared s.log (.publishing user ctx i) := hcall.2
        exact hpublishing.congr (hsame _ _ _)
    | publish => exact hcall
    | conflict => trivial
    | readers => exact hcall
    | retry => exact hcall
    | count user i =>
        have hreading : CallHolds s.shared s.log (.reading user i) := hcall
        exact hreading.congr (hsame _ _ _)
    | read user i ctx hdata => exact .inr ⟨i, hdata⟩
    | drop => trivial
    | refuse => trivial
    | keep => exact hcall
    | anonymous => exact .inl ⟨rfl, rfl⟩
    | begin => trivial
  · rw [hstage]
    intro u hne hother hapart
    have halone' := fun user (hlooking : s.stage t = .looking user) hcell => halone.others hlooking hcell hne
    generalize s.stage u = other at hother hapart halone'
    cases ho with
    | rest => exact ⟨hother, hapart⟩
    | noCell user hcell => exact ⟨hother, fun user' hbuilds => by cases hbuilds; exact halone' user hstage hcell⟩
    | cell => exact ⟨hother, hapart⟩
    | fail => exact ⟨hother.congr fun _ => rfl, hapart.of_builds fun _ hbuilds => by cases hbuilds⟩
    | build => exact ⟨hother.congr fun _ => rfl, hapart⟩
    | start => exact ⟨hother, hapart⟩
    | skip => exact ⟨hother, hapart⟩
    | free => exact ⟨hother, hapart⟩
    | lose => exact ⟨hother, hapart⟩
    | grab => exact ⟨hother.congr (hsame _ _ _), hapart⟩
    | load => exact ⟨hother, hapart⟩
    | taken => exact ⟨hother, hapart⟩
    | exchange user ctx i hdata => exact ⟨hother.setData hdata hcall.1 (hapart user rfl), hapart⟩
    | openCell => exact ⟨hother.congr (hsame _ _ _), hapart⟩
    | publish => exact ⟨hother.congr fun _ => rfl, hapart.of_builds fun _ hbuilds => by cases hbuilds⟩
    | conflict => exact ⟨hother.congr fun _ => rfl, hapart⟩
    | readers => exact ⟨hother, hapart⟩
    | retry => exact ⟨hother, hapart⟩
    | count => exact ⟨hother.congr (hsame _ _ _), hapart⟩
    | read => exact ⟨hother.congr fun _ => rfl, hapart⟩
    | drop => exact ⟨hother, hapart.of_builds fun _ hbuilds => by cases hbuilds⟩
    | refuse => exact ⟨hother.congr fun _ => rfl, hapart.of_builds fun _ hbuilds => by cases hbuilds⟩
    | keep => exact ⟨hother.congr fun _ => rfl, hapart⟩
    | anonymous => exact ⟨hother.congr fun _ => rfl, hapart.of_builds fun _ hbuilds => by cases hbuilds⟩
    | begin => exact ⟨hother, hapart.of_builds fun _ hbuilds => by cases hbuilds⟩

/-- An access that changes no context and no cell number, and ends no building. -/
theorem Race.Covered.keep (h : s.Covered) (hdata : ∀ i, (o.shared.cells i).data = (s.shared.cells i).data)
    (hcell : o.shared.cacheCellNum = s.shared.cacheCellNum)
    (hbuilds : ∀ user, (s.stage t).builds = some user → o.stage.builds = some user) : Race.Covered (s.turn t o) := by
  intro i ctx hctx
  obtain ⟨user, hinst, hcovered⟩ := h i ctx ((hdata i).symm.trans hctx)
  refine ⟨user, hinst, hcovered.imp (fun hne => ?_) ?_⟩
  · rwa [Threads.shared_turn, hcell]
  · rintro ⟨u, hu⟩
    by_cases hut : u = t
    · subst hut
      exact ⟨u, by rw [Threads.stage_turn_self, hbuilds user hu]⟩
    · exact ⟨u, by rw [Threads.stage_turn_of_ne hut, hu]⟩

/-- **An access leaves every context in a cell published**, or about to be. -/
theorem Race.Covered.turn (h : s.Covered) (hsure : s.Sure) (hstage : s.stage t = stage)
    (ho : Access s.shared spurious stage o) : Race.Covered (s.turn t o) := by
  have hcall : CallHolds s.shared s.log stage := hstage ▸ hsure.each t
  have hnone : stage.inCall = false → ∀ user, (s.stage t).builds = some user → o.stage.builds = some user := by
    intro hinCall user hbuilds
    rw [hstage, builds_of_inCall hinCall] at hbuilds
    cases hbuilds
  cases ho with
  | rest _ hinCall => exact h.keep (fun _ => rfl) rfl (hnone hinCall)
  | noCell => exact h.keep (fun _ => rfl) rfl fun _ hbuilds => by rw [hstage] at hbuilds; cases hbuilds
  | cell => exact h.keep (fun _ => rfl) rfl fun _ hbuilds => by rw [hstage] at hbuilds; cases hbuilds
  | fail user e =>
      intro i ctx hctx
      obtain ⟨user', hinst, hcovered⟩ := h i ctx hctx
      refine ⟨user', hinst, hcovered.imp_right ?_⟩
      rintro ⟨u, hu⟩
      refine ⟨u, ?_⟩
      rw [Threads.stage_turn_of_ne, hu]
      -- the task has put no context of the user into a cell
      rintro rfl
      rw [hstage] at hu
      cases hu
      exact hcall i ctx hctx hinst
  | build => exact h.keep (fun _ => rfl) rfl fun _ hbuilds => by rw [hstage] at hbuilds; exact hbuilds
  | start => exact h.keep (fun _ => rfl) rfl fun _ hbuilds => by rw [hstage] at hbuilds; exact hbuilds
  | skip => exact h.keep (fun _ => rfl) rfl fun _ hbuilds => by rw [hstage] at hbuilds; exact hbuilds
  | free => exact h.keep (fun _ => rfl) rfl fun _ hbuilds => by rw [hstage] at hbuilds; exact hbuilds
  | lose => exact h.keep (fun _ => rfl) rfl fun _ hbuilds => by rw [hstage] at hbuilds; exact hbuilds
  | grab user ctx i =>
      exact h.keep (fun j => data_setReaders _ i _ j) rfl fun _ hbuilds => by rw [hstage] at hbuilds; exact hbuilds
  | load => exact h.keep (fun _ => rfl) rfl fun _ hbuilds => by rw [hstage] at hbuilds; exact hbuilds
  | taken => exact h.keep (fun _ => rfl) rfl fun _ hbuilds => by rw [hstage] at hbuilds; exact hbuilds
  | exchange user ctx i hdata =>
      intro j ctx' hctx'
      by_cases hj : j = i
      · subst hj
        rw [Threads.shared_turn, data_setData_self] at hctx'
        cases hctx'
        exact ⟨user, hcall.1, .inr ⟨t, by rw [Threads.stage_turn_self]; rfl⟩⟩
      · rw [Threads.shared_turn, data_setData_of_ne _ hj] at hctx'
        obtain ⟨user', hinst, hcovered⟩ := h j ctx' hctx'
        refine ⟨user', hinst, hcovered.imp_right ?_⟩
        rintro ⟨u, hu⟩
        by_cases hut : u = t
        · subst hut
          rw [hstage] at hu
          exact ⟨u, by rw [Threads.stage_turn_self]; exact hu⟩
        · exact ⟨u, by rw [Threads.stage_turn_of_ne hut, hu]⟩
  | openCell user ctx i =>
      exact h.keep (fun j => data_setReaders _ i _ j) rfl fun _ hbuilds => by rw [hstage] at hbuilds; exact hbuilds
  | publish user ctx i =>
      intro j ctx' hctx'
      obtain ⟨user', hinst, hcovered⟩ := h j ctx' hctx'
      refine ⟨user', hinst, ?_⟩
      by_cases huser : user' = user
      · subst huser
        have hat : (s.shared.setCellNum user' (i + 1)).cacheCellNum user' = i + 1 := Function.update_self _ _ _
        exact .inl (by rw [Threads.shared_turn, hat]; exact Nat.succ_ne_zero i)
      · have hat : (s.shared.setCellNum user (i + 1)).cacheCellNum user' = s.shared.cacheCellNum user' :=
          Function.update_of_ne huser _ _
        refine hcovered.imp (fun hne => by rwa [Threads.shared_turn, hat]) ?_
        rintro ⟨u, hu⟩
        refine ⟨u, ?_⟩
        rw [Threads.stage_turn_of_ne, hu]
        rintro rfl
        rw [hstage] at hu
        exact huser (Option.some.inj hu).symm
  | conflict => exact h.keep (fun _ => rfl) rfl fun _ hbuilds => by rw [hstage] at hbuilds; cases hbuilds
  | readers => exact h.keep (fun _ => rfl) rfl fun _ hbuilds => by rw [hstage] at hbuilds; cases hbuilds
  | retry => exact h.keep (fun _ => rfl) rfl fun _ hbuilds => by rw [hstage] at hbuilds; cases hbuilds
  | count user i =>
      exact h.keep (fun j => data_setReaders _ i _ j) rfl fun _ hbuilds => by rw [hstage] at hbuilds; cases hbuilds
  | read => exact h.keep (fun _ => rfl) rfl fun _ hbuilds => by rw [hstage] at hbuilds; cases hbuilds
  | drop _ hinCall => exact h.keep (fun _ => rfl) rfl (hnone hinCall)
  | refuse _ hinCall => exact h.keep (fun _ => rfl) rfl (hnone hinCall)
  | keep _ hinCall => exact h.keep (fun _ => rfl) rfl (hnone hinCall)
  | anonymous _ hinCall => exact h.keep (fun _ => rfl) rfl (hnone hinCall)
  | begin _ hinCall => exact h.keep (fun _ => rfl) rfl (hnone hinCall)

omit [DecidableEq ι] in
/-- A task that is not looking for a cell. -/
theorem Race.alone_of_inCall (hcall : (s.stage t).inCall = false) : s.Alone t := by
  unfold Race.Alone
  cases hstage : s.stage t with
  | looking =>
      rw [hstage] at hcall
      cases hcall
  | _ => trivial

/-- A turn in which nothing happens. -/
theorem Race.turn_same (s : Race ι) (t : ι) : s.turn t { shared := s.shared, stage := s.stage t } = s := by
  unfold Threads.turn
  simp

/-- A selection or a reset of a task in a call does nothing. -/
theorem access_alone (h : s.Sure ∧ s.Covered) (ho : (s.stage t).inCall = false → Access s.shared spurious (s.stage t) o)
    (hbusy : (s.stage t).inCall = true → o = { shared := s.shared, stage := s.stage t }) :
    Race.Sure (s.turn t o) ∧ Race.Covered (s.turn t o) := by
  cases hcall : (s.stage t).inCall with
  | false =>
      exact ⟨h.1.turn h.2 (Race.alone_of_inCall hcall) rfl (ho hcall), h.2.turn h.1 rfl (ho hcall)⟩
  | true =>
      rw [hbusy hcall, Race.turn_same]
      exact h

/-- **Every event that finds what it has to find keeps what is known.** -/
theorem Race.sure_step {e : UserEvent ι} (h : s.Sure ∧ s.Covered) (hfits : s.Fits e) :
    Race.Sure (s.step e) ∧ Race.Covered (s.step e) := by
  cases e with
  | select t restoring name found =>
      refine access_alone h (fun hcall => access_select hcall hfits) fun hcall => ?_
      unfold select
      rw [if_pos hcall]
  | turn t choice =>
      have haccess := access_advance choice (h.1.each t) hfits.1
      exact ⟨h.1.turn h.2 hfits.2 rfl haccess, h.2.turn h.1 rfl haccess⟩
  | reset t =>
      refine access_alone h (fun hcall => access_reset hcall) fun hcall => ?_
      unfold reset
      rw [if_pos hcall]

omit [DecidableEq ι] in
/-- What is known before the first call. -/
theorem Race.sure_init (numCells : Nat) :
    Race.Sure ({ shared := { numCells }, stage := fun _ => .idle } : Race ι) ∧
      Race.Covered ({ shared := { numCells }, stage := fun _ => .idle } : Race ι) := by
  refine ⟨⟨⟨fun user i hi => ?_, fun i j ctx ctx' hi => ?_, fun requested inst hmem => ?_⟩, fun _ => trivial,
    fun _ _ _ user hbuilds => ?_⟩, fun i ctx hctx => ?_⟩
  · cases hi
  · cases hi
  · cases hmem
  · cases hbuilds
  · cases hctx

/-! ## (8) A task that is left alone -/

/-- The accesses of `knd_cache_set` from cell `i` on, and of `knd_cache_get`. -/
def seekBound (numCells i : Nat) : Nat := 6 + 4 * (numCells - i)

/-- **The accesses up to the return**, when no exchange fails for no reason. -/
def remaining (self : Shared) : Stage → Nat
  | .idle | .holds _ | .aborted => 0
  | .looking _ => seekBound self.numCells 0 + 3
  | .building _ => seekBound self.numCells 0 + 2
  | .setting _ _ => seekBound self.numCells 0 + 1
  | .seeking _ _ i => seekBound self.numCells i
  | .grabbing _ _ i _ => seekBound self.numCells (i + 1) + 3
  | .entered _ _ i => seekBound self.numCells (i + 1) + 2
  | .exchanging _ _ i _ => seekBound self.numCells (i + 1) + 1
  | .opening _ _ _ _ => 6
  | .evicting _ _ _ _ => 5
  | .publishing _ _ _ => 4
  | .getting _ _ => 3
  | .counting _ i n => if (self.cells i).numReaders = n then 2 else 4
  | .reading _ _ => 1

theorem six_le_seekBound (numCells i : Nat) : 6 ≤ seekBound numCells i := Nat.le_add_right _ _

/-- One cell less is left. -/
theorem seekBound_of_lt {numCells i : Nat} (hi : i < numCells) :
    seekBound numCells i = seekBound numCells (i + 1) + 4 := by
  unfold seekBound
  omega

theorem seekBound_le (numCells i : Nat) : seekBound numCells i ≤ seekBound numCells 0 := by
  unfold seekBound
  omega

/-- **An access brings the return nearer**, but for an exchange that fails for no reason. -/
theorem remaining_access {self : Shared} {stage : Stage} {spurious : Bool} {o : Outcome Shared Stage Answer}
    (hcall : stage.inCall = true) (ho : Access self spurious stage o) :
    remaining o.shared o.stage + 1 ≤ remaining self stage + if spurious then 2 else 0 := by
  have hsix := six_le_seekBound self.numCells
  have hnot : stage.inCall ≠ false := by simp [hcall]
  cases ho with
  | rest _ h => exact absurd h hnot
  | drop _ h => exact absurd h hnot
  | refuse _ h => exact absurd h hnot
  | keep _ h => exact absurd h hnot
  | anonymous _ h => exact absurd h hnot
  | begin _ h => exact absurd h hnot
  | noCell user => simp only [remaining]; omega
  | cell user i => have := hsix 0; simp only [remaining]; omega
  | fail user e => simp only [remaining]; omega
  | build user => simp only [remaining, Shared.allocCtx]; omega
  | start user ctx i => have := seekBound_le self.numCells i; simp only [remaining]; omega
  | skip user ctx i hi => have := seekBound_of_lt hi; simp only [remaining]; omega
  | free user ctx i n hi => have := seekBound_of_lt hi; simp only [remaining]; omega
  | lose user ctx i n => simp only [remaining]; omega
  | grab user ctx i n => simp only [remaining, Shared.setReaders]; omega
  | load user ctx i prev => simp only [remaining]; omega
  | taken user ctx i prev => simp only [remaining]; omega
  | exchange user ctx i => have := hsix (i + 1); simp only [remaining]; omega
  | openCell user ctx i => simp only [remaining]; omega
  | publish user ctx i => simp only [remaining]; omega
  | conflict user i => simp only [remaining]; omega
  | readers user i => simp only [remaining, if_true]; omega
  | retry user i n h =>
      rcases h with rfl | hn
      · simp only [remaining, if_true]
        split <;> omega
      · simp only [remaining, if_neg hn]
        omega
  | count user i n m hn => simp only [remaining, if_pos hn]; omega
  | read user i ctx => simp only [remaining]; omega

/-- What is known, when a task has nothing left to do. -/
theorem inCall_of_remaining {self : Shared} {log : List Answer} {stage : Stage} (hholds : CallHolds self log stage)
    (h : remaining self stage = 0) : stage.inCall = false := by
  cases stage with
  | idle => rfl
  | holds => rfl
  | aborted => exact hholds.elim
  | counting user i n =>
      simp only [remaining] at h
      split at h
      · cases h
      · cases h
  | seeking user ctx i =>
      have hsix := six_le_seekBound self.numCells i
      simp only [remaining] at h
      omega
  | _ => simp [remaining] at h

/-- A task that is not in a call makes no access. -/
theorem Race.step_turn_of_inCall (hcall : (s.stage t).inCall = false) (choice : Choice) :
    s.step (.turn t choice) = s := by
  have hadvance : advance s.shared (s.stage t) choice = { shared := s.shared, stage := s.stage t } := by
    cases hstage : s.stage t with
    | idle => rfl
    | holds => rfl
    | _ => rw [hstage] at hcall; cases hcall
  have hstep : s.step (.turn t choice) = s.turn t (advance s.shared (s.stage t) choice) := rfl
  rw [hstep, hadvance, turn_same]

theorem Race.run_of_inCall (hcall : (s.stage t).inCall = false) (choices : List Choice) :
    (choices.map (.turn t)).foldl Race.step s = s := by
  induction choices with
  | nil => rfl
  | cons choice choices ih => rw [List.map_cons, List.foldl_cons, step_turn_of_inCall hcall, ih]

/-- **A task that is left alone** does not take more accesses than those that remain, and two more for each exchange
that fails for no reason. -/
theorem Race.remaining_run (h : s.Sure ∧ s.Covered) (choices : List Choice)
    (hall : AllAllowed Race.step Race.Fits s (choices.map (.turn t)))
    (hlong : remaining s.shared (s.stage t) + 2 * choices.countP Choice.spurious ≤ choices.length) :
    (((choices.map (.turn t)).foldl Race.step s).stage t).inCall = false := by
  induction choices generalizing s with
  | nil => exact inCall_of_remaining (h.1.each t) (Nat.le_zero.mp (Nat.le_of_add_right_le hlong))
  | cons choice choices ih =>
      cases hcall : (s.stage t).inCall with
      | false => rwa [run_of_inCall hcall]
      | true =>
          have hfits : s.Fits (.turn t choice) := hall.1
          have hnext := remaining_access hcall (access_advance choice (h.1.each t) hfits.1)
          refine ih (sure_step h hfits) hall.2 ?_
          have hstage : (Race.step s (.turn t choice)).stage t = (advance s.shared (s.stage t) choice).stage :=
            Threads.stage_turn_self
          have hshared : (Race.step s (.turn t choice)).shared = (advance s.shared (s.stage t) choice).shared := rfl
          rw [hstage, hshared]
          rw [List.length_cons, List.countP_cons] at hlong
          by_cases hspurious : choice.spurious = true
          · rw [if_pos hspurious] at hnext hlong
            omega
          · rw [if_neg hspurious] at hnext hlong
            omega

/-- **What is known gives the promise.** -/
theorem Race.Sure.sound (h : s.Sure) (hcovered : s.Covered) : s.Sound := by
  have hcached : Cached s.shared s.log := h.shared
  refine ⟨fun t u ctx ctx' ht hu hinst => ?_, hcached.requested,
    fun t => ⟨remaining s.shared (s.stage t), fun choices hall => Race.remaining_run ⟨h, hcovered⟩ choices hall⟩⟩
  have hctx : CallHolds s.shared s.log (.holds ctx) := ht ▸ h.each t
  have hctx' : CallHolds s.shared s.log (.holds ctx') := hu ▸ h.each u
  rcases hctx with ⟨hnone, hrepo⟩ | ⟨i, hi⟩
  · rcases hctx' with ⟨-, hrepo'⟩ | ⟨j, hj⟩
    · exact ⟨hrepo.trans hrepo'.symm, fun hne => absurd hnone hne⟩
    · obtain ⟨user, huser, -⟩ := hcovered j ctx' hj
      rw [hnone, huser] at hinst
      cases hinst
  · rcases hctx' with ⟨hnone, -⟩ | ⟨j, hj⟩
    · obtain ⟨user, huser, -⟩ := hcovered i ctx hi
      rw [hnone, huser] at hinst
      cases hinst
    · obtain rfl := hcached.unique i j ctx ctx' hi hj hinst
      obtain rfl := Option.some.inj (hi.symm.trans hj)
      exact ⟨rfl, fun _ => rfl⟩

/-- **One context for each user** in every interleaving of calls that find what they have to find. -/
theorem sound_of_fits {numCells : Nat} {s : Race ι}
    (hrun : Reaches Race.step Race.Fits { shared := { numCells }, stage := fun _ => .idle } s) : s.Sound := by
  have hsure := hrun.invariant (Race.sure_init numCells) fun s e h he => Race.sure_step h he
  exact hsure.1.sound hsure.2


/-! Two tasks and one user -/

instance (self : Shared) (stage : Stage) (choice : Choice) : Decidable (StageFits self stage choice) := by
  unfold StageFits
  split <;> infer_instance

instance (s : Race Bool) (t : Bool) : Decidable (s.Alone t) := by
  unfold Race.Alone
  split <;> infer_instance

instance (s : Race Bool) (e : UserEvent Bool) : Decidable (s.Fits e) := by
  unfold Race.Fits
  split <;> infer_instance

/-- The cache has four cells, and no user is selected. -/
def fourCells : Race Bool := { shared := { numCells := 4 }, stage := fun _ => .idle }

/-- A task selects the user 7 and makes `n` accesses. -/
def selectUser (t : Bool) (n : Nat) : List (UserEvent Bool) :=
  .select t false [97] (.ok 7) :: List.replicate n (.turn t {})

/-- The second task finds the context the first one has built. -/
theorem sound_of_fits_two : ((selectUser false 12 ++ selectUser true 4).foldl Race.step fourCells).Sound :=
  sound_of_fits (Reaches.refl.foldl (by decide +kernel))

/-- Both tasks see no cell of the user before one of them has built the context. -/
def bothBuild : List (UserEvent Bool) :=
  selectUser false 1 ++ selectUser true 12 ++ List.replicate 11 (.turn false { rand := 2 })

/-- **Two tasks that see no cell have two contexts of one user.** -/
theorem not_sound_both : ¬(bothBuild.foldl Race.step fourCells).Sound := by
  intro h
  have htrue : (bothBuild.foldl Race.step fourCells).stage true = .holds ⟨0, some 7, 1⟩ := by decide +kernel
  have hfalse : (bothBuild.foldl Race.step fourCells).stage false = .holds ⟨1, some 7, 2⟩ := by decide +kernel
  have hsame := (h.same true false _ _ htrue hfalse rfl).1
  cases hsame

end UserContexts

end Knowdy
