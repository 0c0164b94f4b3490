import UrlShortener.ResourcePool
import UrlShortener.MigrationRunner

/-! Migrations over one pool of database clients: `runWithLock` keeps a client while every
statement of its callback takes another one from the same pool. -/
namespace UrlShortener.Migration
open Js Transition ResourcePool

/-- The client of `runWithLock`, released when its callback has ended. -/
def RunnerPc.holds : RunnerPc → Bool
  | .locking | .locked | .executing _ _ _ | .backingOff _ _ _ _ => true
  | .connecting | .succeeded | .failed _ => false

/-- `pool.connect()`, or the `pool.query` of `executeWithRetry`. -/
def RunnerPc.connects : RunnerPc → Bool
  | .connecting | .executing _ _ _ => true
  | .locking | .locked | .backingOff _ _ _ _ | .succeeded | .failed _ => false

def usage : Usage RunnerPc := ⟨fun pc => pc.holds.toNat, RunnerPc.connects⟩

/-- Where the pool has a `connectionTimeoutMillis`, a migration that waits may get an error. -/
def refused (timeout : Bool) (outcome : Outcome) : Bool := timeout && outcome.isSome

/-- The migrations of a process and its pool. -/
def pooledRunners (maxRetries : ℕ) (timeout : Bool) :
    Threads (Stock Bool) (Tenant RunnerPc) (ResourcePool.Action Outcome) Empty :=
  pooled (runners maxRetries) usage (refused timeout)

/-- The lock is free, no client is lent and no run has begun. -/
def unlent (size : ℕ) {ι : Type*} : Stock Bool × (ι → Tenant RunnerPc) :=
  (⟨false, size⟩, fun _ => ⟨.connecting, false⟩)

/-- The statements that are left weigh as much as all their attempts and pauses. -/
def RunnerPc.awaits (maxRetries : ℕ) : RunnerPc → ℕ
  | .connecting => statements.length * (2 * maxRetries + 1) + 3
  | .locking => statements.length * (2 * maxRetries + 1) + 2
  | .locked => statements.length * (2 * maxRetries + 1) + 1
  | .executing _ rest retries => rest.length * (2 * maxRetries + 1) + (2 * retries + 1)
  | .backingOff _ rest retries _ => rest.length * (2 * maxRetries + 1) + (2 * (retries - 1) + 2)
  | .succeeded | .failed _ => 0

variable {maxRetries : ℕ} {outcome : Outcome} {held held' : Bool} {pc pc' : RunnerPc}

lemma awaits_proceed (maxRetries : ℕ) (sqls : List Ddl) :
    (proceed maxRetries sqls).awaits maxRetries = sqls.length * (2 * maxRetries + 1) := by
  cases sqls with
  | nil => simp [proceed, RunnerPc.awaits]
  | cons sql rest =>
    rw [proceed, RunnerPc.awaits, List.length_cons]
    ring

lemma runnerStep_awaits (h : runnerStep maxRetries outcome held pc = some (held', pc')) :
    pc'.awaits maxRetries < pc.awaits maxRetries := by
  revert h
  fun_cases runnerStep maxRetries outcome held pc <;> intro h <;> cases h
  case case6 | case8 =>
    rw [awaits_proceed]
    simp only [RunnerPc.awaits]
    omega
  all_goals
    simp only [RunnerPc.awaits]
    omega

lemma runnerStep_holds (h : runnerStep maxRetries outcome held pc = some (held', pc')) :
    pc'.holds.toNat ≤ pc.holds.toNat + pc.connects.toNat ∧
      (outcome.isSome = true → pc'.holds.toNat ≤ pc.holds.toNat) := by
  revert h
  fun_cases runnerStep maxRetries outcome held pc <;> intro h <;> cases h
  case case6 | case8 =>
    exact ⟨(Bool.toNat_le _).trans (Nat.le_add_right 1 _), fun hsome => Bool.noConfusion hsome⟩
  all_goals simp [RunnerPc.holds, RunnerPc.connects]

/-- Where a client is waited for, an error ends the wait. -/
lemma refusable (maxRetries : ℕ) (held : Bool) (hpc : pc.connects = true) :
    ∃ pc', (runners maxRetries).step (some ⟨none, []⟩) held pc = some (held, pc') := by
  cases pc with
  | connecting | executing => exact ⟨_, rfl⟩
  | locking | locked | backingOff | succeeded | failed => exact Bool.noConfusion hpc

lemma runners_frugal (timeout : Bool) : Frugal (runners maxRetries) usage (refused timeout) := by
  refine ⟨fun h => (runnerStep_holds h).1, fun hrefused h => (runnerStep_holds h).2 ?_⟩
  exact (Bool.and_eq_true_iff.mp hrefused).2

lemma runners_diligent :
    Diligent (runners maxRetries) usage (fun _ => false) (RunnerPc.awaits maxRetries) := by
  refine ⟨fun _ h => runnerStep_awaits h, fun held pc hpc => ?_, fun pc hpc => ?_⟩
  · cases pc with
    | connecting | locking | locked => exact ⟨some ⟨none, []⟩, rfl, rfl⟩
    | executing | backingOff => exact ⟨none, rfl, rfl⟩
    | succeeded | failed => exact absurd hpc (lt_irrefl 0)
  · cases pc with
    | succeeded | failed => simp [usage, RunnerPc.holds, RunnerPc.connects] at hpc
    | connecting | locking | locked | executing | backingOff => simp [RunnerPc.awaits]

/-! Where migrations wait for each other. -/

section Runs
variable {ι : Type} [DecidableEq ι] {size : ℕ} {timeout : Bool}
  {c d : Stock Bool × (ι → Tenant RunnerPc)}

/-- The first statement of the callback. -/
def firstStatement (maxRetries : ℕ) : RunnerPc := proceed maxRetries statements

variable (maxRetries timeout) in
/-- One migration takes its client and the lock, gives the lock back, and comes to its first
statement. -/
lemma reaches_first {i : ι} (hc : c.1 = ⟨false, size + 1⟩) (hi : c.2 i = ⟨.connecting, false⟩) :
    ((pooledRunners maxRetries timeout).system ι).Reaches c
      (⟨false, size⟩, Function.update c.2 i ⟨firstStatement maxRetries, false⟩) := by
  obtain ⟨stock, locals⟩ := c
  obtain rfl : stock = ⟨false, size + 1⟩ := hc
  rw [← Function.update_eq_self i locals, show locals i = ⟨.connecting, false⟩ from hi,
    Function.update_idem]
  have hacquire : (pooledRunners maxRetries timeout).step .acquire ⟨false, size + 1⟩
      ⟨.connecting, false⟩ = some (⟨false, size⟩, ⟨.connecting, true⟩) := rfl
  have hconnected : (pooledRunners maxRetries timeout).step (.proceed none) ⟨false, size⟩
      ⟨.connecting, true⟩ = some (⟨false, size⟩, ⟨.locking, false⟩) := rfl
  have hlocked : (pooledRunners maxRetries timeout).step (.proceed none) ⟨false, size⟩
      ⟨.locking, false⟩ = some (⟨true, size⟩, ⟨.locked, false⟩) := rfl
  have hunlocked : (pooledRunners maxRetries timeout).step (.proceed none) ⟨true, size⟩
      ⟨.locked, false⟩ = some (⟨false, size⟩, ⟨firstStatement maxRetries, false⟩) := rfl
  exact .head (Threads.next_update hacquire) (.head (Threads.next_update hconnected)
    (.head (Threads.next_update hlocked) (.step (Threads.next_update hunlocked))))

variable (maxRetries timeout) in
/-- As many migrations as there are clients, one after the other. -/
lemma reaches_allFirst (is : List ι) (hnodup : is.Nodup) (hc : c.1 = ⟨false, is.length⟩)
    (his : ∀ i ∈ is, c.2 i = ⟨.connecting, false⟩) :
    ∃ d, ((pooledRunners maxRetries timeout).system ι).Reaches c d ∧ d.1 = ⟨false, 0⟩ ∧
      (∀ i ∈ is, d.2 i = ⟨firstStatement maxRetries, false⟩) ∧ ∀ i ∉ is, d.2 i = c.2 i := by
  induction is generalizing c with
  | nil => exact ⟨c, .refl _ _, hc, by simp, fun i _ => rfl⟩
  | cons i is ih =>
    obtain ⟨hi, hnodup⟩ := List.nodup_cons.mp hnodup
    have hfirst := reaches_first maxRetries timeout hc (his i List.mem_cons_self)
    have hother : ∀ j, j ≠ i → Function.update c.2 i ⟨firstStatement maxRetries, false⟩ j = c.2 j :=
      fun j hj => Function.update_of_ne hj _ _
    obtain ⟨d, hd, hidle, hin, hout⟩ := ih (c := (⟨false, is.length⟩, Function.update c.2 i
      ⟨firstStatement maxRetries, false⟩)) hnodup rfl fun j hj => by
        have hji : j ≠ i := by
          rintro rfl
          exact hi hj
        exact (hother j hji).trans (his j (List.mem_cons_of_mem i hj))
    refine ⟨d, hfirst.trans hd, hidle, fun j hj => ?_, fun j hj => ?_⟩
    · rcases List.mem_cons.mp hj with rfl | hj
      · rw [hout j hi]
        exact Function.update_self _ _ _
      · exact hin j hj
    · exact (hout j (List.not_mem_of_not_mem_cons hj)).trans
        (hother j (List.ne_of_not_mem_cons hj))

lemma waiting_of_first (maxRetries : ℕ) : usage.Waiting ⟨firstStatement maxRetries, false⟩ :=
  ⟨rfl, rfl⟩

lemma waiting_of_connecting : usage.Waiting ⟨.connecting, false⟩ := ⟨rfl, rfl⟩

lemma pinned_le_one (pc : RunnerPc) : usage.pinned pc ≤ 1 := by
  rw [Usage.pinned]
  split_ifs
  · exact Bool.toNat_le _
  · exact Nat.zero_le 1

lemma exists_deadlocked [Fintype ι] (hne : Nonempty ι) (hsize : size ≤ Fintype.card ι) :
    ∃ d, ((pooledRunners maxRetries timeout).system ι).Reaches (unlent size) d ∧
      Deadlocked usage d := by
  have hlength : (Finset.univ.toList.take size : List ι).length = size := by
    rw [List.length_take, Finset.length_toList, Finset.card_univ, min_eq_left hsize]
  obtain ⟨d, hd, hidle, hin, hout⟩ := reaches_allFirst maxRetries timeout
    (c := unlent size) (Finset.univ.toList.take size)
    (Finset.univ.nodup_toList.sublist (List.take_sublist _ _))
    (congrArg (Stock.mk false) hlength.symm) fun i _ => rfl
  have hwaiting : ∀ i, usage.Waiting (d.2 i) := by
    intro i
    by_cases hi : i ∈ (Finset.univ.toList.take size : List ι)
    · rw [hin i hi]
      exact waiting_of_first maxRetries
    · rw [hout i hi]
      exact waiting_of_connecting
  obtain ⟨i⟩ := hne
  exact ⟨d, hd, congrArg Stock.idle hidle, ⟨i, hwaiting i⟩, fun j => .inl (hwaiting j)⟩

lemma entitled_of_reaches [Fintype ι]
    (h : ((pooledRunners maxRetries timeout).system ι).Reaches (unlent size) d) :
    (∀ i, usage.Entitled (d.2 i)) ∧ d.1.idle + ∑ i, usage.lent (d.2 i) = size := by
  refine conserved (runners_frugal timeout) h (fun i hi => Bool.noConfusion hi) ?_
  have hnone : ∀ i : ι, usage.lent ((unlent size).2 i) = 0 := fun _ => rfl
  rw [Finset.sum_congr rfl fun i _ => hnone i]
  simp [unlent]

/-- Some migration may come to wait for a client that it never gets exactly where the pool has no
timeout and no more clients than there are migrations. -/
theorem migrations_hang_iff [Fintype ι] (maxRetries size : ℕ) (timeout : Bool) :
    (∃ d, ((pooledRunners maxRetries timeout).system ι).Reaches (unlent size) d ∧
      ∃ i, usage.Waiting (d.2 i) ∧
        ∀ e, ((pooledRunners maxRetries timeout).system ι).Reaches d e → e.2 i = d.2 i) ↔
    timeout = false ∧ Nonempty ι ∧ size ≤ Fintype.card ι := by
  constructor
  · rintro ⟨d, hd, i, hi, hangs⟩
    have hbusy : 0 < (d.2 i).state.awaits maxRetries := runners_diligent.busy _ (.inr hi.1)
    refine ⟨?_, ⟨i⟩, ?_⟩
    · -- an error would get the migration on
      by_contra htimeout
      have hrefused : refused timeout (some ⟨none, []⟩) = true := by simpa [refused] using htimeout
      obtain ⟨pc', hstep⟩ := refusable maxRetries d.1.shared hi.1
      have hgo : ¬ usage.Waiting (d.2 i) ∨ refused timeout (some ⟨none, []⟩) = true :=
        .inr hrefused
      have hsame := hangs _ (.step (next_proceed hgo hstep))
      dsimp only at hsame
      rw [Function.update_self] at hsame
      have hlt := runnerStep_awaits hstep
      rw [← congrArg Tenant.state hsame] at hlt
      exact lt_irrefl _ hlt
    · by_contra hsize
      have hsafe : ∀ c, ((pooledRunners maxRetries timeout).system ι).Reaches (unlent size) c →
          (∀ i, usage.Entitled (c.2 i)) ∧ ¬ Deadlocked usage c := by
        intro c hc
        obtain ⟨hentitled, hclients⟩ := entitled_of_reaches hc
        refine ⟨hentitled, not_deadlocked hclients ?_⟩
        have hle : ∑ i, usage.pinned (c.2 i).state ≤ ∑ _i : ι, 1 :=
          Finset.sum_le_sum fun i _ => pinned_le_one _
        rw [Finset.sum_const, smul_eq_mul, mul_one, Finset.card_univ] at hle
        omega
      obtain ⟨e, he, hdone⟩ := exists_done runners_diligent hd hsafe
        fun a c u hc hn => hc.tail hn
      have hzero := hdone i
      rw [hangs e he] at hzero
      omega
  · rintro ⟨rfl, hne, hsize⟩
    obtain ⟨d, hd, hdead⟩ := exists_deadlocked hne hsize
    obtain ⟨i, hi⟩ := hdead.waiting
    exact ⟨d, hd, i, hi, fun e he =>
      (hdead.forever (runners_frugal false) (fun _ => rfl) he).2 i hi⟩

end Runs

end UrlShortener.Migration
