import UrlShortener.MigrationRunner

/-! `executeWithRetry` within a migration: how often each statement is attempted, in which order,
and how long the migration pauses. -/
namespace UrlShortener.Migration
open Js Transition

/-- A run of `migrate` with the statements that it has executed, each with the number of its
attempts, the attempts of the current one, and the milliseconds it has paused. -/
structure Journal where
  pc : RunnerPc
  done : List (Ddl × ℕ)
  tries : ℕ
  paused : ℕ

def note (outcome : Outcome) (l : Journal) (pc' : RunnerPc) : Journal :=
  match l.pc, outcome with
  | .executing sql _ _, none => ⟨pc', l.done ++ [(sql, l.tries + 1)], 0, l.paused⟩
  | .executing _ _ _, some _ => ⟨pc', l.done, l.tries + 1, l.paused⟩
  | .backingOff _ _ _ delay, _ => ⟨pc', l.done, l.tries, l.paused + delay⟩
  | _, _ => { l with pc := pc' }

def journalStep (maxRetries : ℕ) (outcome : Outcome) (held : Bool) (l : Journal) :
    Option (Bool × Journal) :=
  (runnerStep maxRetries outcome held l.pc).map fun d => (d.1, note outcome l d.2)

def journals (maxRetries : ℕ) : Threads Bool Journal Outcome Empty where
  step := journalStep maxRetries
  env e _ := nomatch e

def unopened {ι : Type*} : Bool × (ι → Journal) := (false, fun _ => ⟨.connecting, [], 0, 0⟩)

/-! Pauses. -/

/-- The pauses before a statement's attempt number `n + 1`, together. -/
def pauses (n : ℕ) : ℕ := (2 ^ n - 1) * 200

@[simp] lemma pauses_zero : pauses 0 = 0 := rfl

lemma pauses_succ (n : ℕ) : pauses (n + 1) = pauses n + 2 ^ n * 200 := by
  have hpos : 1 ≤ 2 ^ n := Nat.one_le_two_pow
  rw [pauses, pauses, ← Nat.add_mul, pow_succ]
  congr 1
  omega

lemma pauses_mono {m n : ℕ} (h : m ≤ n) : pauses m ≤ pauses n := by
  have hle : 2 ^ m ≤ 2 ^ n := Nat.pow_le_pow_right (by decide) h
  exact Nat.mul_le_mul_right 200 (Nat.sub_le_sub_right hle 1)

/-- The pauses of the statements that were executed. -/
def pausesOf (done : List (Ddl × ℕ)) : ℕ := (done.map fun d => pauses (d.2 - 1)).sum

lemma pausesOf_append (done : List (Ddl × ℕ)) (sql : Ddl) (n : ℕ) :
    pausesOf (done ++ [(sql, n + 1)]) = pausesOf done + pauses n := by
  simp [pausesOf]

/-- A delay is what the next attempt has to wait for. -/
lemma backoff_eq {maxRetries retries tries : ℕ} (h : retries + tries = maxRetries) :
    backoff maxRetries retries = 2 ^ tries * 200 := by
  rw [backoff, ← h, Nat.add_sub_cancel_left]

/-! The journal of one run. -/

/-- Where the statements stand. Between two attempts `retries` counts those that are left. -/
def Position (maxRetries : ℕ) (l : Journal) : Prop :=
  match l.pc with
  | .connecting | .locking | .locked => l.done = [] ∧ l.tries = 0
  | .executing sql rest retries =>
    l.done.map Prod.fst ++ sql :: rest = statements ∧ retries + l.tries = maxRetries
  | .backingOff sql rest retries delay =>
    l.done.map Prod.fst ++ sql :: rest = statements ∧ 0 < retries ∧ 0 < l.tries ∧
      retries + l.tries = maxRetries + 1 ∧ delay = 2 ^ (l.tries - 1) * 200
  | .succeeded => l.done.map Prod.fst = statements ∧ l.tries = 0
  | .failed err =>
    (∃ rest, l.done.map Prod.fst ++ rest = statements ∧ (0 < l.tries → rest ≠ [])) ∧
      l.tries ≤ maxRetries + 1 ∧
      (0 < l.tries → isTransientError err = true → l.tries = maxRetries + 1)

/-- The pauses for the current statement so far. -/
def pausedFor (l : Journal) : ℕ :=
  match l.pc with
  | .executing _ _ _ => pauses l.tries
  | _ => pauses (l.tries - 1)

structure Journal.Kept (maxRetries : ℕ) (l : Journal) : Prop where
  attempts : ∀ d ∈ l.done, 1 ≤ d.2 ∧ d.2 ≤ maxRetries + 1
  position : Position maxRetries l
  paused : l.paused = pausesOf l.done + pausedFor l

section Step
variable {maxRetries : ℕ} {l : Journal}

lemma Journal.Kept.failed {err : DbError} {done : List (Ddl × ℕ)} {paused : ℕ}
    (hattempts : ∀ d ∈ done, 1 ≤ d.2 ∧ d.2 ≤ maxRetries + 1)
    (hpaused : paused = pausesOf done) (hdone : done = []) :
    Journal.Kept maxRetries ⟨.failed err, done, 0, paused⟩ := by
  subst hdone
  exact ⟨hattempts, ⟨⟨_, rfl, fun h => absurd h (lt_irrefl 0)⟩, Nat.zero_le _,
    fun h => absurd h (lt_irrefl 0)⟩, hpaused⟩

lemma kept_proceed {sqls : List Ddl} {done : List (Ddl × ℕ)} {paused : ℕ}
    (hattempts : ∀ d ∈ done, 1 ≤ d.2 ∧ d.2 ≤ maxRetries + 1)
    (hsqls : done.map Prod.fst ++ sqls = statements) (hpaused : paused = pausesOf done) :
    Journal.Kept maxRetries ⟨proceed maxRetries sqls, done, 0, paused⟩ := by
  cases sqls with
  | nil => exact ⟨hattempts, ⟨by simpa using hsqls, rfl⟩, hpaused⟩
  | cons sql rest => exact ⟨hattempts, ⟨hsqls, rfl⟩, hpaused⟩

theorem Journal.Kept.step {outcome : Outcome} {held held' : Bool} {l' : Journal}
    (hl : l.Kept maxRetries) (h : journalStep maxRetries outcome held l = some (held', l')) :
    l'.Kept maxRetries := by
  obtain ⟨⟨held₁, pc'⟩, hstep, hd⟩ := Option.map_eq_some_iff.mp h
  obtain ⟨rfl, rfl⟩ := Prod.mk.inj hd
  obtain ⟨pc, done, tries, paused⟩ := l
  obtain ⟨hattempts, hposition, hpaused⟩ := hl
  dsimp only at hstep hattempts
  revert hstep hposition hpaused
  fun_cases runnerStep maxRetries outcome held pc with
  | case1 | case4 =>
    intro hstep hposition hpaused
    obtain ⟨rfl, rfl⟩ := Prod.mk.inj (Option.some.inj hstep)
    exact ⟨hattempts, hposition, hpaused⟩
  | case2 err | case5 err | case7 err =>
    rintro hstep ⟨hdone, htries⟩ hpaused
    obtain ⟨rfl, rfl⟩ := Prod.mk.inj (Option.some.inj hstep)
    obtain rfl : tries = 0 := htries
    exact .failed hattempts hpaused hdone
  | case6 =>
    rintro hstep ⟨hdone, htries⟩ hpaused
    obtain ⟨rfl, rfl⟩ := Prod.mk.inj (Option.some.inj hstep)
    obtain rfl : tries = 0 := htries
    obtain rfl : done = [] := hdone
    exact kept_proceed hattempts rfl hpaused
  | case8 sql rest retries =>
    rintro hstep ⟨hsqls, htries⟩ hpaused
    obtain ⟨rfl, rfl⟩ := Prod.mk.inj (Option.some.inj hstep)
    refine kept_proceed (fun d hd => ?_) (by simpa using hsqls) ?_
    · rcases List.mem_append.mp hd with hd | hd
      · exact hattempts d hd
      · obtain rfl := List.mem_singleton.mp hd
        dsimp only at htries ⊢
        omega
    · exact hpaused.trans (pausesOf_append done sql tries).symm
  | case9 sql rest retries err hretry =>
    rintro hstep ⟨hsqls, htries⟩ hpaused
    obtain ⟨rfl, rfl⟩ := Prod.mk.inj (Option.some.inj hstep)
    dsimp only at htries
    refine ⟨hattempts, ⟨hsqls, hretry.2, Nat.succ_pos _, ?_, backoff_eq htries⟩, hpaused⟩
    change retries + (tries + 1) = maxRetries + 1
    omega
  | case10 sql rest retries err hretry =>
    rintro hstep ⟨hsqls, htries⟩ hpaused
    obtain ⟨rfl, rfl⟩ := Prod.mk.inj (Option.some.inj hstep)
    dsimp only at htries
    refine ⟨hattempts, ⟨⟨_, hsqls, fun _ => List.cons_ne_nil _ _⟩, ?_,
      fun _ htransient => ?_⟩, hpaused⟩
    · change tries + 1 ≤ maxRetries + 1
      omega
    · have hzero : ¬ retries > 0 := fun hpos => hretry ⟨htransient, hpos⟩
      change tries + 1 = maxRetries + 1
      omega
  | case11 sql rest retries delay =>
    rintro hstep ⟨hsqls, hpos, htried, htries, hdelay⟩ hpaused
    obtain ⟨rfl, rfl⟩ := Prod.mk.inj (Option.some.inj hstep)
    dsimp only at htried htries hdelay
    obtain ⟨n, rfl⟩ := Nat.exists_eq_succ_of_ne_zero htried.ne'
    refine ⟨hattempts, ⟨hsqls, ?_⟩, ?_⟩
    · change retries - 1 + (n + 1) = maxRetries
      omega
    · change paused + delay = pausesOf done + pauses (n + 1)
      rw [pauses_succ, hdelay, ← Nat.add_assoc]
      exact congrArg (· + _) hpaused
  | _ =>
    intro hstep hposition hpaused
    cases hstep

end Step

section Runs
variable {ι : Type} [DecidableEq ι] {maxRetries : ℕ} {d : Bool × (ι → Journal)}

lemma kept_of_reaches (h : ((journals maxRetries).system ι).Reaches unopened d) (i : ι) :
    (d.2 i).Kept maxRetries := by
  have hinv := h.invariant (P := fun c => ∀ i, (c.2 i).Kept maxRetries) (fun a c d hc hn => ?_)
    fun i => ⟨fun d hd => absurd hd List.not_mem_nil, ⟨rfl, rfl⟩, rfl⟩
  · exact hinv i
  · cases a with
    | inr e => cases e
    | inl a =>
      obtain ⟨i, outcome⟩ := a
      obtain ⟨held', l', hs, rfl⟩ := Threads.next_thread hn
      intro j
      dsimp only
      by_cases hji : j = i
      · subst hji
        rw [Function.update_self]
        exact (hc j).step hs
      · rw [Function.update_of_ne hji]
        exact hc j

lemma Journal.Kept.done_starts {l : Journal} (hl : l.Kept maxRetries) :
    l.done.map Prod.fst <+: statements := by
  obtain ⟨pc, done, tries, paused⟩ := l
  have hposition := hl.position
  cases pc with
  | connecting | locking | locked =>
    obtain rfl : done = [] := hposition.1
    exact List.nil_prefix
  | executing | backingOff => exact ⟨_, hposition.1⟩
  | succeeded => exact ⟨[], by simpa using hposition.1⟩
  | failed err =>
    obtain ⟨rest, hsqls, -⟩ := hposition.1
    exact ⟨rest, hsqls⟩

/-- Pauses for a current statement leave room for no more than the statements before it. -/
lemma Journal.Kept.pausedFor_le {l : Journal} (hl : l.Kept maxRetries) : pausedFor l = 0 ∨
    l.done.length < statements.length ∧ pausedFor l ≤ pauses maxRetries := by
  obtain ⟨pc, done, tries, paused⟩ := l
  have hposition := hl.position
  have hroom : ∀ {rest}, done.map Prod.fst ++ rest = statements → rest ≠ [] →
      done.length < statements.length := by
    intro rest hsqls hrest
    rw [← hsqls, List.length_append, List.length_map]
    exact Nat.lt_add_of_pos_right (List.length_pos_iff.mpr hrest)
  cases pc with
  | connecting | locking | locked | succeeded =>
    obtain rfl : tries = 0 := hposition.2
    exact .inl rfl
  | executing sql rest retries =>
    obtain ⟨hsqls, htries⟩ := hposition
    have hle : tries ≤ maxRetries := htries ▸ Nat.le_add_left _ _
    exact .inr ⟨hroom hsqls (List.cons_ne_nil _ _), pauses_mono hle⟩
  | backingOff sql rest retries delay =>
    obtain ⟨hsqls, hpos, -, htries, -⟩ := hposition
    have hle : tries - 1 ≤ maxRetries := by
      dsimp only at htries
      omega
    exact .inr ⟨hroom hsqls (List.cons_ne_nil _ _), pauses_mono hle⟩
  | failed err =>
    obtain ⟨⟨rest, hsqls, hrest⟩, htries, -⟩ := hposition
    rcases Nat.eq_zero_or_pos tries with rfl | hpos
    · exact .inl rfl
    · have hle : tries - 1 ≤ maxRetries := Nat.sub_le_of_le_add htries
      exact .inr ⟨hroom hsqls (hrest hpos), pauses_mono hle⟩

lemma pausesOf_le {done : List (Ddl × ℕ)} (h : ∀ d ∈ done, 1 ≤ d.2 ∧ d.2 ≤ maxRetries + 1) :
    pausesOf done ≤ done.length * pauses maxRetries := by
  induction done with
  | nil => exact Nat.zero_le _
  | cons d done ih =>
    have hd := (h d List.mem_cons_self).2
    have hle : pauses (d.2 - 1) ≤ pauses maxRetries := pauses_mono (by omega)
    have hrest := ih fun e he => h e (List.mem_cons_of_mem _ he)
    have hcons : pausesOf (d :: done) = pauses (d.2 - 1) + pausesOf done := by simp [pausesOf]
    rw [hcons, List.length_cons, Nat.succ_mul]
    omega

/-- Whatever the other runs do and whichever attempts fail: a run has executed a prefix of its
statements, each with one attempt or as many more as it has retries, and paused for as long as
they took. It succeeds with all of them, and gives up on a transient error only once the retries
are used up. -/
theorem attempts_bounded (h : ((journals maxRetries).system ι).Reaches unopened d) (i : ι) :
    (d.2 i).done.map Prod.fst <+: statements ∧
    (∀ e ∈ (d.2 i).done, 1 ≤ e.2 ∧ e.2 ≤ maxRetries + 1) ∧
    (d.2 i).paused ≤ 9 * ((2 ^ maxRetries - 1) * 200) ∧
    ((d.2 i).pc = .succeeded → (d.2 i).done.map Prod.fst = statements ∧
      (d.2 i).paused = pausesOf (d.2 i).done) ∧
    ∀ err, (d.2 i).pc = .failed err → (d.2 i).tries ≤ maxRetries + 1 ∧
      (0 < (d.2 i).tries → isTransientError err = true → (d.2 i).tries = maxRetries + 1) := by
  have hl := kept_of_reaches h i
  generalize d.2 i = l at hl
  have hlength : statements.length = 9 := rfl
  refine ⟨hl.done_starts, hl.attempts, ?_, fun hpc => ?_, fun err hpc => ?_⟩
  · have hdone := pausesOf_le hl.attempts
    have hstart := hl.done_starts.length_le
    rw [List.length_map] at hstart
    rw [hl.paused]
    change _ ≤ 9 * pauses maxRetries
    rcases hl.pausedFor_le with hnone | ⟨hlt, hle⟩
    · rw [hnone, Nat.add_zero]
      exact hdone.trans (Nat.mul_le_mul_right _ (hlength ▸ hstart))
    · calc pausesOf l.done + pausedFor l
          ≤ l.done.length * pauses maxRetries + pauses maxRetries := Nat.add_le_add hdone hle
        _ = (l.done.length + 1) * pauses maxRetries := (Nat.succ_mul _ _).symm
        _ ≤ 9 * pauses maxRetries := Nat.mul_le_mul_right _ (hlength ▸ hlt)
  · obtain ⟨pc, done, tries, paused⟩ := l
    obtain rfl : pc = .succeeded := hpc
    obtain ⟨hsqls, htries⟩ := hl.position
    obtain rfl : tries = 0 := htries
    exact ⟨hsqls, hl.paused⟩
  · obtain ⟨pc, done, tries, paused⟩ := l
    obtain rfl : pc = .failed err := hpc
    exact hl.position.2

/-- The first statement meets a deadlock and then succeeds. -/
def deadlockOnce : List (Unit × Outcome ⊕ Empty) :=
  [.inl ((), none), .inl ((), none), .inl ((), none), .inl ((), some ⟨some (js "40P01"), []⟩),
    .inl ((), none), .inl ((), none)]

theorem attempts_bounded_deadlockOnce : ∃ d : Bool × (Unit → Journal),
    ((journals 5).system Unit).run deadlockOnce unopened = some d ∧
      (d.2 ()).done = [(.createUrlsTable, 2)] ∧ (d.2 ()).done.map Prod.fst <+: statements ∧
      (d.2 ()).paused ≤ 9 * ((2 ^ 5 - 1) * 200) := by
  have hrun : (((journals 5).system Unit).run deadlockOnce unopened).map
      (fun d => (d.2 ()).done) = some [(.createUrlsTable, 2)] := by decide
  obtain ⟨d, hd, hdone⟩ := Option.map_eq_some_iff.mp hrun
  obtain ⟨hstart, -, hpaused, -⟩ := attempts_bounded ⟨deadlockOnce, hd⟩ ()
  exact ⟨d, hd, hdone, hstart, hpaused⟩

end Runs

end UrlShortener.Migration
