import UrlShortener.JsString
import UrlShortener.TransitionRun

/-! `MigrationRunner.migrate` in any number of processes over one database: what the
advisory lock excludes and what it does not. -/
namespace UrlShortener.Migration
open Js Transition

/-- The statements of a migration: two tables and one partition for each month from the
current one on. -/
inductive Ddl
  | createUrlsTable
  | createClicksTable
  | createPartition (month : ℕ)
  deriving DecidableEq

/-- What the callback of `runWithLock` sends, one query after the other. -/
def statements : List Ddl :=
  .createUrlsTable :: .createClicksTable :: (List.range 7).map .createPartition

def isTransientError (err : DbError) : Bool :=
  err.hasCode ["57P01", "57P03", "08006", "08001", "08004", "40P01"]

/-- The delay in milliseconds before the next attempt. -/
def backoff (maxRetries retries : ℕ) : ℕ := 2 ^ (maxRetries - retries) * 200

/-- How far one call of `migrate` has come. `locking` waits for the advisory lock, `locked`
is the moment between its acquisition and the reply; from `executing` on the callback
runs, its current statement sent through `executeWithRetry`. -/
inductive RunnerPc
  | connecting
  | locking
  | locked
  | executing (sql : Ddl) (rest : List Ddl) (retries : ℕ)
  | backingOff (sql : Ddl) (rest : List Ddl) (retries : ℕ) (delay : ℕ)
  | succeeded
  | failed (err : DbError)
  deriving DecidableEq

/-- On to the next statement, with all its retries, or out of the callback. -/
def proceed (maxRetries : ℕ) : List Ddl → RunnerPc
  | [] => .succeeded
  | sql :: rest => .executing sql rest maxRetries

/-- The outcome of an awaited call: `none` for success. -/
abbrev Outcome := Option DbError

/-- One step of `migrate`; the state is whether some transaction holds the lock. The
SELECT that takes it is sent outside BEGIN, so its transaction ends, and gives the lock
back, with the statement. -/
def runnerStep (maxRetries : ℕ) (outcome : Outcome) (held : Bool) (pc : RunnerPc) :
    Option (Bool × RunnerPc) :=
  match pc, outcome with
  | .connecting, none => some (held, .locking)
  | .connecting, some err => some (held, .failed err)
  | .locking, none => if held then none else some (true, .locked)
  | .locking, some err => some (held, .failed err)
  | .locked, none => some (false, proceed maxRetries statements)
  | .locked, some err => some (false, .failed err)
  | .executing _ rest _, none => some (held, proceed maxRetries rest)
  | .executing sql rest retries, some err =>
    if isTransientError err ∧ retries > 0 then
      some (held, .backingOff sql rest retries (backoff maxRetries retries))
    else some (held, .failed err)
  | .backingOff sql rest retries _, none => some (held, .executing sql rest (retries - 1))
  | _, _ => none

/-- The runs of `migrate`; nothing else takes the lock. -/
def runners (maxRetries : ℕ) : Threads Bool RunnerPc Outcome Empty where
  step := runnerStep maxRetries
  env e _ := nomatch e

/-- Between acquiring the lock in `runWithLock` and the return of its callback. -/
def RunnerPc.Migrating : RunnerPc → Prop
  | .locked | .executing _ _ _ | .backingOff _ _ _ _ => True
  | _ => False

variable {ι : Type} [DecidableEq ι] {maxRetries : ℕ}

/-- The lock is free and no run has begun. -/
def idle : Bool × (ι → RunnerPc) := (false, fun _ => .connecting)

lemma proceed_ne_locked (maxRetries : ℕ) (sqls : List Ddl) :
    proceed maxRetries sqls ≠ .locked := by
  cases sqls <;> nofun

/-- A step takes the free lock, gives the lock back, or leaves it. -/
lemma runnerStep_lock {outcome : Outcome} {held held' : Bool} {pc pc' : RunnerPc}
    (h : runnerStep maxRetries outcome held pc = some (held', pc')) :
    (pc' = .locked ∧ held = false ∧ held' = true) ∨
      (pc' ≠ .locked ∧ (pc = .locked ∧ held' = false ∨ pc ≠ .locked ∧ held' = held)) := by
  revert h
  fun_cases runnerStep maxRetries outcome held pc with
  | case4 hfree =>
    intro h
    cases h
    exact .inl ⟨rfl, by simpa using hfree, rfl⟩
  | case6 =>
    intro h
    cases h
    exact .inr ⟨proceed_ne_locked _ _, .inl ⟨rfl, rfl⟩⟩
  | case7 err =>
    intro h
    cases h
    exact .inr ⟨nofun, .inl ⟨rfl, rfl⟩⟩
  | case8 =>
    intro h
    cases h
    exact .inr ⟨proceed_ne_locked _ _, .inr ⟨nofun, rfl⟩⟩
  | _ =>
    intro h
    first
    | cases h
      done
    | cases h
      exact .inr ⟨nofun, .inr ⟨nofun, rfl⟩⟩

/-- The lock does what it promises: no two transactions hold it. -/
def lockOutline (maxRetries : ℕ) : Outline (runners maxRetries) where
  shared _ := True
  thread held pc := pc = .locked → held = true
  pair l m := ¬ (l = .locked ∧ m = .locked)
  pair_symm _ _ h g := h ⟨g.2, g.1⟩
  own r held pc held' pc' _ _ h := by
    refine ⟨trivial, fun hl => ?_⟩
    rcases runnerStep_lock h with ⟨-, -, htaken⟩ | ⟨hne, -⟩
    · exact htaken
    · exact absurd hl hne
  other r held pc held' pc' m _ hpc hm hpair h := by
    rcases runnerStep_lock h with ⟨-, hfree, -⟩ | ⟨hne, ⟨rfl, -⟩ | ⟨-, rfl⟩⟩
    · have hml : m ≠ .locked := fun hl => by simp [hfree] at hm; exact hm hl
      exact ⟨fun hl => absurd hl hml, fun g => hml g.2⟩
    · exact ⟨fun hl => absurd ⟨rfl, hl⟩ hpair, fun g => hne g.1⟩
    · exact ⟨hm, fun g => hne g.1⟩
  env_shared e := nomatch e
  env_thread e := nomatch e

/-- At most one transaction holds the lock at any time. -/
theorem lock_exclusive {c : Bool × (ι → RunnerPc)}
    (h : ((runners maxRetries).system ι).Reaches idle c) {i j : ι} (hij : i ≠ j) :
    ¬ (c.2 i = .locked ∧ c.2 j = .locked) :=
  ((lockOutline maxRetries).holds_of_reaches h
    ⟨trivial, fun _ => nofun, fun _ _ _ => nofun⟩).pair i j hij

/-- No two runs are in their callbacks at once. -/
def Exclusive (c : Bool × (ι → RunnerPc)) : Prop :=
  ∀ i j, i ≠ j → ¬ ((c.2 i).Migrating ∧ (c.2 j).Migrating)

/-- A run that meets no failure comes into its callback and leaves the lock free. -/
lemma enters_callback (maxRetries : ℕ) {c : Bool × (ι → RunnerPc)} {i : ι} (hfree : c.1 = false)
    (hi : c.2 i = .connecting) :
    ((runners maxRetries).system ι).Reaches c
      (false, Function.update c.2 i (proceed maxRetries statements)) := by
  obtain ⟨held, pcs⟩ := c
  obtain rfl : held = false := hfree
  have hi : pcs i = .connecting := hi
  have hconnect : ((runners maxRetries).system ι).next (.inl (i, none)) (false, pcs) =
      some (false, Function.update pcs i .locking) :=
    Threads.next_of_step (by simp only [hi]; rfl)
  have hlock : ((runners maxRetries).system ι).next (.inl (i, none))
      (false, Function.update pcs i .locking) = some (true, Function.update pcs i .locked) := by
    rw [Threads.next_of_step (by simp only [Function.update_self]; rfl), Function.update_idem]
  have hend : ((runners maxRetries).system ι).next (.inl (i, none))
      (true, Function.update pcs i .locked) =
      some (false, Function.update pcs i (proceed maxRetries statements)) := by
    rw [Threads.next_of_step (by simp only [Function.update_self]; rfl), Function.update_idem]
  exact .head hconnect (.head hlock (.step hend))

/-- Two runs that meet no failure are in their callbacks at once. -/
lemma not_exclusive (maxRetries : ℕ) {i j : ι} (hij : i ≠ j) :
    ∃ c, ((runners maxRetries).system ι).Reaches idle c ∧ ¬ Exclusive c := by
  have hfirst : ((runners maxRetries).system ι).Reaches idle
      (false, Function.update idle.2 i (proceed maxRetries statements)) :=
    enters_callback maxRetries rfl rfl
  have hj : Function.update (idle : Bool × (ι → RunnerPc)).2 i (proceed maxRetries statements) j =
      .connecting := Function.update_of_ne hij.symm _ _
  refine ⟨_, hfirst.trans (enters_callback maxRetries rfl hj), fun h => h i j hij ⟨?_, ?_⟩⟩
  · simp [hij, proceed, statements, RunnerPc.Migrating]
  · simp [proceed, statements, RunnerPc.Migrating]

/-- Migrations exclude each other only where there is no other: from two processes on,
two runs can send their statements side by side. -/
theorem migrations_exclusive_iff (maxRetries n : ℕ) :
    (∀ c : Bool × (Fin n → RunnerPc),
      ((runners maxRetries).system (Fin n)).Reaches idle c → Exclusive c) ↔ n ≤ 1 := by
  constructor
  · intro h
    by_contra hn
    have hne : (⟨0, by omega⟩ : Fin n) ≠ ⟨1, by omega⟩ := by simp
    obtain ⟨c, hc, hnot⟩ := not_exclusive maxRetries hne
    exact hnot (h c hc)
  · intro hn c _ i j hij
    exact absurd (Fin.ext (by omega)) hij

/-- Two processes, each connecting, taking the lock and getting its reply. -/
def twoMigrations : List (Fin 2 × Outcome ⊕ Empty) :=
  List.replicate 3 (.inl (0, none)) ++ List.replicate 3 (.inl (1, none))

/-- Both have then sent their first statement. -/
theorem migrations_overlap : ∃ c : Bool × (Fin 2 → RunnerPc),
    ((runners 5).system (Fin 2)).run twoMigrations idle = some c ∧
      (∃ rest, c.2 0 = .executing .createUrlsTable rest 5) ∧
      (∃ rest, c.2 1 = .executing .createUrlsTable rest 5) ∧ ¬ Exclusive c := by
  have hrun : (((runners 5).system (Fin 2)).run twoMigrations idle).map
      (fun c => (c.2 0, c.2 1)) =
      some (proceed 5 statements, proceed 5 statements) := by
    decide
  obtain ⟨c, hc, hpcs⟩ := Option.map_eq_some_iff.mp hrun
  obtain ⟨h0, h1⟩ := Prod.mk.inj hpcs
  refine ⟨c, hc, ⟨_, h0⟩, ⟨_, h1⟩, fun h => h 0 1 (by decide) ⟨?_, ?_⟩⟩
  · rw [h0]
    trivial
  · rw [h1]
    trivial

end UrlShortener.Migration
