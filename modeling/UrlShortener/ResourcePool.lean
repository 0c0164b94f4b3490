import UrlShortener.TransitionRun

/-! Threads that share a pool of interchangeable units: a thread that asks for a unit waits until
one is idle, and with its step gives back what it does not keep. When such threads deadlock, and
when all of them get done. -/
namespace UrlShortener.ResourcePool
open Transition

variable {σ L ρ ε ι : Type*}

/-- How many units a thread has when it comes to a local state, and whether its next step takes one
more. -/
structure Usage (L : Type*) where
  keeps : L → ℕ
  asks : L → Bool

/-- A thread, and whether it has been lent the unit that it asks for. -/
structure Tenant (L : Type*) where
  state : L
  granted : Bool

structure Stock (σ : Type*) where
  shared : σ
  idle : ℕ

def Usage.lent (U : Usage L) (t : Tenant L) : ℕ := U.keeps t.state + t.granted.toNat

@[simp] lemma Usage.lent_ungranted (U : Usage L) (l : L) : U.lent ⟨l, false⟩ = U.keeps l := rfl

@[simp] lemma Usage.lent_granted (U : Usage L) (l : L) : U.lent ⟨l, true⟩ = U.keeps l + 1 := rfl

def Usage.Waiting (U : Usage L) (t : Tenant L) : Prop := U.asks t.state = true ∧ t.granted = false

instance (U : Usage L) (t : Tenant L) : Decidable (U.Waiting t) :=
  inferInstanceAs (Decidable (_ ∧ _))

/-- The units that a thread keeps while it asks for another. -/
def Usage.pinned (U : Usage L) (l : L) : ℕ := if U.asks l then U.keeps l else 0

inductive Action (ρ : Type*)
  | acquire
  | proceed (r : ρ)

section Pool
variable (T : Threads σ L ρ ε) (U : Usage L) (refusal : ρ → Bool)

/-- A refusal may come to a thread that waits. -/
def tenantStep : Action ρ → Stock σ → Tenant L → Option (Stock σ × Tenant L)
  | .acquire, p, t =>
    if U.Waiting t ∧ 0 < p.idle then some (⟨p.shared, p.idle - 1⟩, ⟨t.state, true⟩) else none
  | .proceed r, p, t =>
    if U.Waiting t ∧ refusal r = false then none
    else (T.step r p.shared t.state).map fun d =>
      (⟨d.1, p.idle + (U.lent t - U.keeps d.2)⟩, ⟨d.2, false⟩)

def pooled : Threads (Stock σ) (Tenant L) (Action ρ) ε where
  step := tenantStep T U refusal
  env e p := (T.env e p.shared).map fun s => ⟨s, p.idle⟩

/-- A step keeps no more units than the thread has. -/
structure Frugal : Prop where
  proceed : ∀ {r s l s' l'}, T.step r s l = some (s', l') →
    U.keeps l' ≤ U.keeps l + (U.asks l).toNat
  refused : ∀ {r s l s' l'}, refusal r = true → T.step r s l = some (s', l') →
    U.keeps l' ≤ U.keeps l

end Pool

/-- All units are lent to threads that wait for another one. -/
structure Deadlocked (U : Usage L) (c : Stock σ × (ι → Tenant L)) : Prop where
  exhausted : c.1.idle = 0
  waiting : ∃ i, U.Waiting (c.2 i)
  blocked : ∀ i, U.Waiting (c.2 i) ∨ U.lent (c.2 i) = 0

variable {T : Threads σ L ρ ε} {U : Usage L} {refusal : ρ → Bool}

/-! One step. -/

/-- It has been lent a unit beyond those it keeps only where it asks for one. -/
def Usage.Entitled (U : Usage L) (t : Tenant L) : Prop := t.granted = true → U.asks t.state = true

lemma lent_of_waiting {t : Tenant L} (h : U.Waiting t) : U.lent t = U.keeps t.state := by
  rw [Usage.lent, h.2]
  rfl

lemma lent_of_not_waiting {t : Tenant L} (ht : U.Entitled t) (h : ¬ U.Waiting t) :
    U.lent t = U.keeps t.state + (U.asks t.state).toNat := by
  rw [Usage.lent]
  cases hg : t.granted with
  | true => rw [ht hg]
  | false =>
    have hasks : U.asks t.state = false := by
      by_contra hasks
      exact h ⟨by simpa using hasks, hg⟩
    rw [hasks]

inductive TenantMove (T : Threads σ L ρ ε) (U : Usage L) (refusal : ρ → Bool) (p : Stock σ)
    (t : Tenant L) : Stock σ → Tenant L → Prop
  | acquire (ht : U.Waiting t) (hidle : 0 < p.idle) :
    TenantMove T U refusal p t ⟨p.shared, p.idle - 1⟩ ⟨t.state, true⟩
  | proceed {r : ρ} {s' : σ} {l' : L} (hr : ¬ U.Waiting t ∨ refusal r = true)
    (hstep : T.step r p.shared t.state = some (s', l')) :
    TenantMove T U refusal p t ⟨s', p.idle + (U.lent t - U.keeps l')⟩ ⟨l', false⟩

lemma tenantMove_of_step {a : Action ρ} {p p' : Stock σ} {t t' : Tenant L}
    (h : tenantStep T U refusal a p t = some (p', t')) : TenantMove T U refusal p t p' t' := by
  cases a with
  | acquire =>
    obtain ⟨⟨ht, hidle⟩, hd⟩ := Option.ite_none_right_eq_some.mp h
    obtain ⟨rfl, rfl⟩ := Prod.mk.inj (Option.some.inj hd)
    exact .acquire ht hidle
  | proceed r =>
    obtain ⟨hr, hd⟩ := Option.ite_none_left_eq_some.mp h
    obtain ⟨⟨s', l'⟩, hstep, hd⟩ := Option.map_eq_some_iff.mp hd
    obtain ⟨rfl, rfl⟩ := Prod.mk.inj hd
    refine .proceed ?_ hstep
    by_cases ht : U.Waiting t
    · right
      by_contra hrefusal
      exact hr ⟨ht, by simpa using hrefusal⟩
    · exact .inl ht

/-- What a step keeps it has. -/
lemma Frugal.keeps_le (hT : Frugal T U refusal) {r : ρ} {p : Stock σ} {t : Tenant L} {s' : σ}
    {l' : L} (ht : U.Entitled t) (hr : ¬ U.Waiting t ∨ refusal r = true)
    (hstep : T.step r p.shared t.state = some (s', l')) : U.keeps l' ≤ U.lent t := by
  rcases hr with hr | hr
  · rw [lent_of_not_waiting ht hr]
    exact hT.proceed hstep
  · exact (hT.refused hr hstep).trans (Nat.le_add_right _ _)

lemma TenantMove.conserves (hT : Frugal T U refusal) {p p' : Stock σ} {t t' : Tenant L}
    (ht : U.Entitled t) (h : TenantMove T U refusal p t p' t') :
    U.Entitled t' ∧ p'.idle + U.lent t' = p.idle + U.lent t := by
  cases h with
  | acquire hwaiting hidle =>
    refine ⟨fun _ => hwaiting.1, ?_⟩
    rw [lent_of_waiting hwaiting, U.lent_granted]
    dsimp only
    omega
  | proceed hr hstep =>
    refine ⟨fun hg => Bool.noConfusion hg, ?_⟩
    have hle := hT.keeps_le ht hr hstep
    rw [U.lent_ungranted]
    dsimp only
    omega

/-! Whole runs. -/

section Run
variable [DecidableEq ι]

/-- Units are neither lost nor made. -/
theorem conserved [Fintype ι] (hT : Frugal T U refusal)
    {c d : Stock σ × (ι → Tenant L)} {size : ℕ}
    (h : ((pooled T U refusal).system ι).Reaches c d) (hc : ∀ i, U.Entitled (c.2 i))
    (hsize : c.1.idle + ∑ i, U.lent (c.2 i) = size) :
    (∀ i, U.Entitled (d.2 i)) ∧ d.1.idle + ∑ i, U.lent (d.2 i) = size := by
  refine Threads.total_invariant U.Entitled U.lent (fun p total => p.idle + total = size)
    (fun a p t p' t' others ht htotal hstep => ?_) (fun e p p' total htotal henv => ?_) h hc hsize
  · obtain ⟨ht', hsame⟩ := (tenantMove_of_step hstep).conserves hT ht
    exact ⟨ht', by omega⟩
  · obtain ⟨s, -, rfl⟩ := Option.map_eq_some_iff.mp henv
    exact htotal

omit [DecidableEq ι] in
/-- There is no deadlock while the units that threads keep as they ask for another are not all. -/
theorem not_deadlocked [Fintype ι] {c : Stock σ × (ι → Tenant L)} {size : ℕ}
    (hsize : c.1.idle + ∑ i, U.lent (c.2 i) = size)
    (h : ∑ i, U.pinned (c.2 i).state < size) : ¬ Deadlocked U c := by
  intro hdead
  have hle : ∑ i, U.lent (c.2 i) ≤ ∑ i, U.pinned (c.2 i).state := by
    refine Finset.sum_le_sum fun i _ => ?_
    rcases hdead.blocked i with hwaiting | hnone
    · rw [lent_of_waiting hwaiting, Usage.pinned, if_pos hwaiting.1]
    · rw [hnone]
      exact Nat.zero_le _
  have hidle := hdead.exhausted
  omega

/-- A step of some thread, which leaves the others where they are. -/
lemma next_cases {a : ι × Action ρ ⊕ ε} {c d : Stock σ × (ι → Tenant L)}
    (h : ((pooled T U refusal).system ι).next a c = some d) :
    (∃ i r p' t', a = .inl (i, r) ∧ TenantMove T U refusal c.1 (c.2 i) p' t' ∧
      d = (p', Function.update c.2 i t')) ∨
    ∃ e, a = .inr e ∧ d.1.idle = c.1.idle ∧ d.2 = c.2 := by
  cases a with
  | inl a =>
    obtain ⟨i, r⟩ := a
    obtain ⟨p', t', hstep, rfl⟩ := Threads.next_thread h
    exact .inl ⟨i, r, p', t', rfl, tenantMove_of_step hstep, rfl⟩
  | inr e =>
    obtain ⟨p', hstep, rfl⟩ := Threads.next_env h
    obtain ⟨s, -, rfl⟩ := Option.map_eq_some_iff.mp hstep
    exact .inr ⟨e, rfl, rfl, rfl⟩

/-- Who neither waits nor was lent anything may come to another state without units. -/
lemma Deadlocked.update {c : Stock σ × (ι → Tenant L)} (hdead : Deadlocked U c) {i : ι}
    (p' : Stock σ) (t' : Tenant L) (hi : ¬ U.Waiting (c.2 i)) (hidle : p'.idle = 0)
    (ht' : U.lent t' = 0) : Deadlocked U (p', Function.update c.2 i t') ∧
      ∀ j, U.Waiting (c.2 j) → Function.update c.2 i t' j = c.2 j := by
  have hother : ∀ j, U.Waiting (c.2 j) → Function.update c.2 i t' j = c.2 j := by
    intro j hj
    refine Function.update_of_ne ?_ _ _
    rintro rfl
    exact hi hj
  refine ⟨⟨hidle, ?_, fun j => ?_⟩, hother⟩
  · obtain ⟨j, hj⟩ := hdead.waiting
    refine ⟨j, ?_⟩
    dsimp only
    rw [hother j hj]
    exact hj
  · dsimp only
    by_cases hji : j = i
    · subst hji
      rw [Function.update_self]
      exact .inr ht'
    · rw [Function.update_of_ne hji]
      exact hdead.blocked j

/-- Who has nothing and does not ask for anything keeps nothing. -/
lemma Frugal.keeps_eq_zero (hT : Frugal T U refusal) {r : ρ} {s s' : σ} {t : Tenant L} {l' : L}
    (ht : ¬ U.Waiting t) (hnone : U.lent t = 0) (hstep : T.step r s t.state = some (s', l')) :
    U.keeps l' = 0 := by
  obtain ⟨hkeeps, hgranted⟩ := Nat.add_eq_zero_iff.mp hnone
  have hasks : U.asks t.state = false := by
    by_contra hasks
    exact ht ⟨by simpa using hasks, by simpa using hgranted⟩
  have hle := hT.proceed hstep
  rw [hkeeps, hasks] at hle
  exact Nat.le_zero.mp hle

lemma next_acquire {c : Stock σ × (ι → Tenant L)} {i : ι} (hi : U.Waiting (c.2 i))
    (hidle : 0 < c.1.idle) : ((pooled T U refusal).system ι).next (.inl (i, .acquire)) c =
      some (⟨c.1.shared, c.1.idle - 1⟩, Function.update c.2 i ⟨(c.2 i).state, true⟩) := by
  apply Threads.next_of_step
  exact if_pos ⟨hi, hidle⟩

lemma next_proceed {c : Stock σ × (ι → Tenant L)} {i : ι} {r : ρ} {s' : σ} {l' : L}
    (hi : ¬ U.Waiting (c.2 i) ∨ refusal r = true)
    (h : T.step r c.1.shared (c.2 i).state = some (s', l')) :
    ((pooled T U refusal).system ι).next (.inl (i, .proceed r)) c =
      some (⟨s', c.1.idle + (U.lent (c.2 i) - U.keeps l')⟩,
        Function.update c.2 i ⟨l', false⟩) := by
  apply Threads.next_of_step
  have hgo : ¬ (U.Waiting (c.2 i) ∧ refusal r = false) := by
    rintro ⟨hwaiting, hrefusal⟩
    rcases hi with hi | hi
    · exact hi hwaiting
    · rw [hrefusal] at hi
      exact Bool.noConfusion hi
  refine (if_neg hgo).trans ?_
  rw [h]
  rfl

/-- Without refusals a deadlock is for ever, and whoever waits in it waits for ever. -/
theorem Deadlocked.forever (hT : Frugal T U refusal) (hrefusal : ∀ r, refusal r = false)
    {c d : Stock σ × (ι → Tenant L)} (hdead : Deadlocked U c)
    (h : ((pooled T U refusal).system ι).Reaches c d) :
    Deadlocked U d ∧ ∀ i, U.Waiting (c.2 i) → d.2 i = c.2 i := by
  refine h.invariant (P := fun d => Deadlocked U d ∧ ∀ i, U.Waiting (c.2 i) → d.2 i = c.2 i)
    (fun a u v hu hn => ?_) ⟨hdead, fun i _ => rfl⟩
  obtain ⟨hdead, hsame⟩ := hu
  rcases next_cases hn with ⟨i, r, p', t', -, hmove, rfl⟩ | ⟨e, -, hidle, hlocals⟩
  · cases hmove with
    | acquire hwaiting hidle =>
      rw [hdead.exhausted] at hidle
      exact absurd hidle (lt_irrefl 0)
    | @proceed r s' l' hr hstep =>
      have hi : ¬ U.Waiting (u.2 i) := by
        rcases hr with hr | hr
        · exact hr
        · rw [hrefusal r] at hr
          exact Bool.noConfusion hr
      have hnone : U.lent (u.2 i) = 0 := (hdead.blocked i).resolve_left hi
      have hidle : u.1.idle + (U.lent (u.2 i) - U.keeps l') = 0 := by
        rw [hdead.exhausted, hnone, Nat.zero_sub]
      obtain ⟨hdead', hother⟩ := hdead.update ⟨s', _⟩ ⟨l', false⟩ hi hidle
        (hT.keeps_eq_zero hi hnone hstep)
      refine ⟨hdead', fun j hj => ?_⟩
      have hj' : U.Waiting (u.2 j) := by
        rw [hsame j hj]
        exact hj
      exact (hother j hj').trans (hsame j hj)
  · rw [hlocals]
    exact ⟨⟨hidle.trans hdead.exhausted, hlocals ▸ hdead.waiting, hlocals ▸ hdead.blocked⟩, hsame⟩

/-! How the threads get done. -/

variable {work : L → ℕ} {starts : ρ → Bool}

/-- Each step but those that start something lowers the work that a thread has left; a thread with
work left can go on once it has what it asks for, and one that keeps or asks for units has some. -/
structure Diligent (T : Threads σ L ρ ε) (U : Usage L) (starts : ρ → Bool) (work : L → ℕ) :
    Prop where
  lower : ∀ {r s l s' l'}, starts r = false → T.step r s l = some (s', l') → work l' < work l
  able : ∀ s l, 0 < work l → ∃ r, starts r = false ∧ (T.step r s l).isSome
  busy : ∀ l, 0 < U.keeps l ∨ U.asks l = true → 0 < work l

/-- The steps that a thread may still take. -/
def load (U : Usage L) (work : L → ℕ) (t : Tenant L) : ℕ :=
  2 * work t.state + if U.Waiting t then 1 else 0

/-- An action that starts nothing new. -/
def Continues (starts : ρ → Bool) : Action ρ → Prop
  | .acquire => True
  | .proceed r => starts r = false

lemma load_lt_of_step (hT : Diligent T U starts work) {a : Action ρ} {p p' : Stock σ}
    {t t' : Tenant L} (ha : Continues starts a)
    (h : tenantStep T U refusal a p t = some (p', t')) : load U work t' < load U work t := by
  cases a with
  | acquire =>
    obtain ⟨⟨ht, -⟩, hd⟩ := Option.ite_none_right_eq_some.mp h
    obtain ⟨rfl, rfl⟩ := Prod.mk.inj (Option.some.inj hd)
    have hserved : ¬ U.Waiting ⟨t.state, true⟩ := fun hw => Bool.noConfusion hw.2
    rw [load, load, if_pos ht, if_neg hserved]
    exact Nat.lt_succ_self _
  | proceed r =>
    obtain ⟨-, hd⟩ := Option.ite_none_left_eq_some.mp h
    obtain ⟨⟨s', l'⟩, hstep, hd⟩ := Option.map_eq_some_iff.mp hd
    obtain ⟨rfl, rfl⟩ := Prod.mk.inj hd
    have hlower : work l' < work t.state := hT.lower ha hstep
    simp only [load]
    split_ifs <;> omega

lemma lent_of_done (hT : Diligent T U starts work) {t : Tenant L} (ht : U.Entitled t)
    (h : work t.state = 0) : U.lent t = 0 := by
  have hkeeps : U.keeps t.state = 0 := by
    by_contra hkeeps
    have hpos := hT.busy t.state (.inl (Nat.pos_of_ne_zero hkeeps))
    omega
  have hgranted : t.granted = false := by
    by_contra hgranted
    have hpos := hT.busy t.state (.inr (ht (by simpa using hgranted)))
    omega
  rw [Usage.lent, hkeeps, hgranted]
  rfl

/-- However the threads take turns, they take no more steps than their load. -/
theorem countP_add_load_le [Fintype ι] (hT : Diligent T U starts work)
    {c d : Stock σ × (ι → Tenant L)} {as : List (ι × Action ρ ⊕ ε)}
    (has : ∀ i a, .inl (i, a) ∈ as → Continues starts a)
    (h : ((pooled T U refusal).system ι).run as c = some d) :
    as.countP Sum.isLeft + ∑ i, load U work (d.2 i) ≤ ∑ i, load U work (c.2 i) := by
  induction as generalizing c with
  | nil =>
    obtain rfl : c = d := by simpa [System.run] using h
    simp
  | cons a as ih =>
    rw [System.run] at h
    obtain ⟨u, hu, h⟩ := Option.bind_eq_some_iff.mp h
    have hrest := ih (fun i b hb => has i b (by simp [hb])) h
    cases a with
    | inr e =>
      obtain ⟨p', -, rfl⟩ := Threads.next_env hu
      simpa using hrest
    | inl a =>
      obtain ⟨i, a⟩ := a
      obtain ⟨p', t', hstep, rfl⟩ := Threads.next_thread hu
      have hlt := load_lt_of_step hT (has i a (by simp)) hstep
      have hold := Threads.total_update (load U work) c.2 i (c.2 i)
      have hnew := Threads.total_update (load U work) c.2 i t'
      rw [Function.update_eq_self] at hold
      dsimp only at hrest
      rw [List.countP_cons_of_pos rfl]
      omega

/-- Where nobody can go on and there is no deadlock, everybody is done. -/
theorem done_of_halted (hT : Diligent T U starts work) {c : Stock σ × (ι → Tenant L)}
    (hc : ∀ i, U.Entitled (c.2 i)) (hdead : ¬ Deadlocked U c)
    (h : ∀ i a d, Continues starts a →
      ((pooled T U refusal).system ι).next (.inl (i, a)) c ≠ some d) (i : ι) :
    work (c.2 i).state = 0 := by
  have hgo : ∀ j, ¬ U.Waiting (c.2 j) → work (c.2 j).state = 0 := by
    intro j hj
    by_contra hwork
    obtain ⟨r, hr, hsome⟩ := hT.able c.1.shared (c.2 j).state (Nat.pos_of_ne_zero hwork)
    obtain ⟨⟨s', l'⟩, hstep⟩ := Option.isSome_iff_exists.mp hsome
    exact h j (.proceed r) _ hr (next_proceed (.inl hj) hstep)
  by_cases hi : U.Waiting (c.2 i)
  · exfalso
    have hidle : c.1.idle = 0 := by
      by_contra hidle
      exact h i .acquire _ trivial (next_acquire hi (Nat.pos_of_ne_zero hidle))
    refine hdead ⟨hidle, ⟨i, hi⟩, fun j => ?_⟩
    by_cases hj : U.Waiting (c.2 j)
    · exact .inl hj
    · exact .inr (lent_of_done hT (hc j) (hgo j hj))
  · exact hgo i hi

/-- Without a deadlock on the way, everybody gets done some way. -/
theorem exists_done [Fintype ι] (hT : Diligent T U starts work)
    {P : Stock σ × (ι → Tenant L) → Prop} {c : Stock σ × (ι → Tenant L)} (hc : P c)
    (hP : ∀ c, P c → (∀ i, U.Entitled (c.2 i)) ∧ ¬ Deadlocked U c)
    (hstep : ∀ a c d, P c → ((pooled T U refusal).system ι).next a c = some d → P d) :
    ∃ d, ((pooled T U refusal).system ι).Reaches c d ∧ ∀ i, work (d.2 i).state = 0 := by
  induction hload : ∑ i, load U work (c.2 i) using Nat.strong_induction_on generalizing c with
  | _ n ih =>
    by_cases hhalted : ∀ i a d, Continues starts a →
        ((pooled T U refusal).system ι).next (.inl (i, a)) c ≠ some d
    · obtain ⟨hentitled, hdead⟩ := hP c hc
      exact ⟨c, .refl _ _, done_of_halted hT hentitled hdead hhalted⟩
    · push Not at hhalted
      obtain ⟨i, a, u, ha, hu⟩ := hhalted
      have hrun : ((pooled T U refusal).system ι).run [.inl (i, a)] c = some u :=
        System.run_cons_of_next hu
      have hlt := countP_add_load_le hT (fun j b hb => by
        obtain ⟨rfl, rfl⟩ : j = i ∧ b = a := by simpa using hb
        exact ha) hrun
      rw [List.countP_singleton, Sum.isLeft_inl, if_pos rfl] at hlt
      obtain ⟨d, hd, hdone⟩ := ih _ (by omega) (hstep _ c u hc hu) rfl
      exact ⟨d, hd.head hu, hdone⟩

end Run

end UrlShortener.ResourcePool
