import Mathlib

/-! Labelled transition systems whose steps are computed, their runs, and the
invariant rules: one for a whole system, one for threads over a shared state. -/
namespace UrlShortener.Transition

variable {σ α : Type*}

/-- `next a s` is the state after action `a`, or `none` where `a` is not enabled. -/
structure System (σ α : Type*) where
  next : α → σ → Option σ

def System.run (M : System σ α) : List α → σ → Option σ
  | [], s => some s
  | a :: as, s => (M.next a s).bind (M.run as)

/-- Some sequence of actions leads from the one state to the other. -/
def System.Reaches (M : System σ α) (s t : σ) : Prop := ∃ as, M.run as s = some t

variable {M : System σ α} {s t u : σ}

theorem System.run_append (M : System σ α) (as bs : List α) (s : σ) :
    M.run (as ++ bs) s = (M.run as s).bind (M.run bs) := by
  induction as generalizing s with
  | nil => rfl
  | cons a as ih =>
    simp only [List.cons_append, System.run]
    cases M.next a s with
    | none => rfl
    | some t => exact ih t

theorem System.run_cons_of_next {a : α} {as : List α} (h : M.next a s = some t) :
    M.run (a :: as) s = M.run as t := by
  rw [System.run, h]
  rfl

theorem System.Reaches.refl (M : System σ α) (s : σ) : M.Reaches s s := ⟨[], rfl⟩

theorem System.Reaches.trans (h : M.Reaches s t) (g : M.Reaches t u) : M.Reaches s u := by
  obtain ⟨as, ha⟩ := h
  obtain ⟨bs, hb⟩ := g
  exact ⟨as ++ bs, by rw [System.run_append, ha]; exact hb⟩

theorem System.Reaches.step {a : α} (h : M.next a s = some t) : M.Reaches s t :=
  ⟨[a], by rw [System.run_cons_of_next h]; rfl⟩

theorem System.Reaches.head {a : α} (h : M.next a s = some t) (g : M.Reaches t u) :
    M.Reaches s u := (System.Reaches.step h).trans g

theorem System.Reaches.tail {a : α} (h : M.Reaches s t) (g : M.next a t = some u) :
    M.Reaches s u := h.trans (.step g)

/-- What the actions of a run preserve holds along it. -/
theorem System.run_invariant_on {P : σ → Prop} {as : List α}
    (hstep : ∀ a ∈ as, ∀ s t, P s → M.next a s = some t → P t)
    (h : M.run as s = some t) (hs : P s) : P t := by
  induction as generalizing s with
  | nil =>
    obtain rfl : s = t := by simpa [System.run] using h
    exact hs
  | cons a as ih =>
    rw [System.run] at h
    obtain ⟨u, hu, h⟩ := Option.bind_eq_some_iff.mp h
    have hu' : P u := hstep a (by simp) s u hs hu
    exact ih (fun b hb => hstep b (by simp [hb])) h hu'

/-- What every enabled step preserves holds along every run. -/
theorem System.run_invariant {P : σ → Prop}
    (hstep : ∀ a s t, P s → M.next a s = some t → P t) {as : List α}
    (h : M.run as s = some t) (hs : P s) : P t :=
  System.run_invariant_on (fun a _ => hstep a) h hs

theorem System.Reaches.invariant {P : σ → Prop}
    (hstep : ∀ a s t, P s → M.next a s = some t → P t) (h : M.Reaches s t) (hs : P s) :
    P t := by
  obtain ⟨as, h⟩ := h
  exact System.run_invariant hstep h hs

/-- A run that comes to satisfy `P` has a step that brings it about. -/
theorem System.run_crosses {P : σ → Prop} {as : List α} (h : M.run as s = some t)
    (hs : ¬ P s) (ht : P t) : ∃ before a after u v, as = before ++ a :: after ∧
      M.run before s = some u ∧ M.next a u = some v ∧ ¬ P u ∧ P v := by
  induction as generalizing s with
  | nil =>
    obtain rfl : s = t := by simpa [System.run] using h
    exact absurd ht hs
  | cons a as ih =>
    rw [System.run] at h
    obtain ⟨u, hu, h⟩ := Option.bind_eq_some_iff.mp h
    by_cases hPu : P u
    · exact ⟨[], a, as, s, u, rfl, rfl, hu, hs, hPu⟩
    · obtain ⟨before, b, after, v, w, rfl, hv, hb, hPv, hPw⟩ := ih h hPu
      have hrun : M.run (a :: before) s = some v := (System.run_cons_of_next hu).trans hv
      exact ⟨a :: before, b, after, v, w, rfl, hrun, hb, hPv, hPw⟩

/-! A step taken again and again. -/

section Iterate
variable {step : σ → σ} (P Q : σ → Prop) (μ : σ → ℕ)

/-- A step that lowers a measure everywhere but in `Q` comes to `Q` from every state. -/
theorem exists_iterate_of_descent (hstep : ∀ s, P s → P (step s))
    (hdown : ∀ s, P s → ¬ Q s → μ (step s) < μ s) (hs : P s) : ∃ k, Q (step^[k] s) := by
  induction hμ : μ s using Nat.strong_induction_on generalizing s with
  | _ m ih =>
    by_cases hQ : Q s
    · exact ⟨0, hQ⟩
    · have hlt : μ (step s) < m := hμ ▸ hdown s hs hQ
      obtain ⟨k, hk⟩ := ih _ hlt (hstep s hs) rfl
      exact ⟨k + 1, hk⟩

/-- Where the step lowers a measure of whatever it changes, it has nothing left to change after
as many times. -/
theorem iterate_fixed_of_descent (hstep : ∀ s, P s → P (step s))
    (hdown : ∀ s, P s → step s ≠ s → μ (step s) < μ s) (hs : P s) {k : ℕ} (hk : μ s ≤ k) :
    step (step^[k] s) = step^[k] s := by
  induction k generalizing s with
  | zero =>
    by_contra hne
    have hlt := hdown s hs hne
    omega
  | succ k ih =>
    by_cases hfixed : step s = s
    · rw [Function.iterate_fixed hfixed, hfixed]
    · have hlt := hdown s hs hfixed
      exact ih (hstep s hs) (by omega)

theorem infinite_of_descent (hstep : ∀ s, P s → P (step s))
    (hdown : ∀ s, P s → ¬ Q s → μ (step s) < μ s) (hs : P s) :
    {k | Q (step^[k] s)}.Infinite := by
  refine Set.infinite_of_not_bddAbove fun hbounded => ?_
  obtain ⟨n, hn⟩ := hbounded
  have hP : P (step^[n + 1] s) := Function.Iterate.rec P hs hstep (n + 1)
  obtain ⟨k, hk⟩ := exists_iterate_of_descent P Q μ hstep hdown hP
  rw [← Function.iterate_add_apply] at hk
  have hle : k + (n + 1) ≤ n := hn hk
  omega

/-- Of finitely many values one is taken again and again. -/
theorem exists_infinite_value {β : Type*} (f : σ → β) {values : Set β} (hfinite : values.Finite)
    (hf : ∀ k, f (step^[k] s) ∈ values) (h : {k | Q (step^[k] s)}.Infinite) :
    ∃ b, {k | Q (step^[k] s) ∧ f (step^[k] s) = b}.Infinite := by
  by_contra hnone
  push Not at hnone
  refine h ((hfinite.biUnion fun b _ => hnone b).subset fun k hk => ?_)
  exact Set.mem_biUnion (hf k) ⟨hk, rfl⟩

end Iterate
/-! Threads over a shared state. -/

variable {ι L ρ ε : Type*} [DecidableEq ι]

/-- `step` is one atomic step of a thread with its local state; `env` are the steps
that no thread takes. -/
structure Threads (σ L ρ ε : Type*) where
  step : ρ → σ → L → Option (σ × L)
  env : ε → σ → Option σ

/-- All interleavings of the threads, one for each index. -/
def Threads.system (T : Threads σ L ρ ε) (ι : Type*) [DecidableEq ι] :
    System (σ × (ι → L)) (ι × ρ ⊕ ε) where
  next
    | .inl (i, r), c => (T.step r c.1 (c.2 i)).map fun d => (d.1, Function.update c.2 i d.2)
    | .inr e, c => (T.env e c.1).map fun s => (s, c.2)

theorem Threads.next_thread {T : Threads σ L ρ ε} {i : ι} {r : ρ} {c d : σ × (ι → L)}
    (h : (T.system ι).next (.inl (i, r)) c = some d) :
    ∃ s' l', T.step r c.1 (c.2 i) = some (s', l') ∧ d = (s', Function.update c.2 i l') := by
  obtain ⟨⟨s', l'⟩, hs, rfl⟩ := Option.map_eq_some_iff.mp h
  exact ⟨s', l', hs, rfl⟩

theorem Threads.next_of_step {T : Threads σ L ρ ε} {i : ι} {r : ρ} {c : σ × (ι → L)} {s' : σ}
    {l' : L} (h : T.step r c.1 (c.2 i) = some (s', l')) :
    (T.system ι).next (.inl (i, r)) c = some (s', Function.update c.2 i l') := by
  simp [Threads.system, h]

theorem Threads.next_update {T : Threads σ L ρ ε} {i : ι} {r : ρ} {s s' : σ} {locals : ι → L}
    {l l' : L} (h : T.step r s l = some (s', l')) :
    (T.system ι).next (.inl (i, r)) (s, Function.update locals i l) =
      some (s', Function.update locals i l') := by
  simp [Threads.system, h]

theorem Threads.next_env {T : Threads σ L ρ ε} {e : ε} {c d : σ × (ι → L)}
    (h : (T.system ι).next (.inr e) c = some d) :
    ∃ s', T.env e c.1 = some s' ∧ d = (s', c.2) := by
  obtain ⟨s', hs, rfl⟩ := Option.map_eq_some_iff.mp h
  exact ⟨s', hs, rfl⟩

/-- What a thread weighs, and what all the others weigh together. -/
theorem Threads.total_update [Fintype ι] {N : Type*} [AddCommMonoid N] (weight : L → N)
    (locals : ι → L) (i : ι) (l : L) :
    ∑ j, weight (Function.update locals i l j) =
      weight l + ∑ j ∈ Finset.univ.erase i, weight (locals j) := by
  rw [← Finset.add_sum_erase _ _ (Finset.mem_univ i), Function.update_self]
  congr 1
  apply Finset.sum_congr rfl
  intro j hj
  rw [Function.update_of_ne (Finset.ne_of_mem_erase hj)]

/-- What a thread keeps of its own, whatever the shared state is, holds along every interleaving. -/
theorem Threads.local_invariant {T : Threads σ L ρ ε} (P : ι → L → Prop)
    (hstep : ∀ i r s l s' l', P i l → T.step r s l = some (s', l') → P i l')
    {c d : σ × (ι → L)} (h : (T.system ι).Reaches c d) (hc : ∀ i, P i (c.2 i)) :
    ∀ i, P i (d.2 i) := by
  refine h.invariant (P := fun c => ∀ i, P i (c.2 i)) (fun a c d hinv hn => ?_) hc
  cases a with
  | inl a =>
    obtain ⟨i, r⟩ := a
    obtain ⟨s', l', hs, rfl⟩ := Threads.next_thread hn
    intro j
    by_cases hj : j = i
    · subst hj
      simpa using hstep j r _ _ _ _ (hinv j) hs
    · simpa [hj] using hinv j
  | inr e =>
    obtain ⟨s', -, rfl⟩ := Threads.next_env hn
    exact hinv

/-- A side condition of each thread, and an assertion about the shared state and the total
weight of the threads: they hold along every interleaving when each step keeps them,
whatever the other threads weigh. -/
theorem Threads.total_invariant [Fintype ι] {N : Type*} [AddCommMonoid N]
    {T : Threads σ L ρ ε} (P : L → Prop) (weight : L → N) (I : σ → N → Prop)
    (hstep : ∀ r s l s' l' others, P l → I s (weight l + others) → T.step r s l = some (s', l') →
      P l' ∧ I s' (weight l' + others))
    (henv : ∀ e s s' total, I s total → T.env e s = some s' → I s' total)
    {c d : σ × (ι → L)} (h : (T.system ι).Reaches c d) (hP : ∀ i, P (c.2 i))
    (hc : I c.1 (∑ i, weight (c.2 i))) :
    (∀ i, P (d.2 i)) ∧ I d.1 (∑ i, weight (d.2 i)) := by
  refine h.invariant (P := fun c => (∀ i, P (c.2 i)) ∧ I c.1 (∑ i, weight (c.2 i)))
    (fun a c d hinv hn => ?_) ⟨hP, hc⟩
  obtain ⟨hP, hc⟩ := hinv
  cases a with
  | inl a =>
    obtain ⟨i, r⟩ := a
    obtain ⟨s', l', hs, rfl⟩ := Threads.next_thread hn
    have hold := Threads.total_update weight c.2 i (c.2 i)
    rw [Function.update_eq_self] at hold
    rw [hold] at hc
    obtain ⟨hl, hI⟩ := hstep r _ _ _ _ _ (hP i) hc hs
    refine ⟨fun j => ?_, ?_⟩
    · by_cases hj : j = i
      · subst hj
        simpa using hl
      · simpa [hj] using hP j
    · dsimp only
      rw [Threads.total_update]
      exact hI
  | inr e =>
    obtain ⟨s', hs, rfl⟩ := Threads.next_env hn
    exact ⟨hP, henv e _ _ _ hc hs⟩

/-- An account kept in the shared state: when each step changes it by as much as it
changes the weight of the thread that steps, it stays the sum of the weights. -/
theorem Threads.sum_weights [Fintype ι] {T : Threads σ L ρ ε} (P : L → Prop) (account : σ → ℕ)
    (weight : L → ℕ)
    (hstep : ∀ r s l s' l', P l → T.step r s l = some (s', l') →
      P l' ∧ account s' + weight l = account s + weight l')
    (henv : ∀ e s s', T.env e s = some s' → account s' = account s)
    {c d : σ × (ι → L)} (h : (T.system ι).Reaches c d) (hP : ∀ i, P (c.2 i))
    (hc : account c.1 = ∑ i, weight (c.2 i)) :
    (∀ i, P (d.2 i)) ∧ account d.1 = ∑ i, weight (d.2 i) := by
  refine Threads.total_invariant P weight (fun s total => account s = total) ?_ ?_ h hP hc
  · intro r s l s' l' others hl htotal hs
    obtain ⟨hl', hacc⟩ := hstep r s l s' l' hl hs
    refine ⟨hl', ?_⟩
    omega
  · intro e s s' total htotal hs
    exact (henv e s s' hs).trans htotal

/-- An assertion about the shared state, one about each thread and one about each
pair of threads, preserved by the thread that steps and by those that stand by. -/
structure Outline (T : Threads σ L ρ ε) where
  shared : σ → Prop
  thread : σ → L → Prop
  pair : L → L → Prop
  pair_symm : ∀ l m, pair l m → pair m l
  own : ∀ r s l s' l', shared s → thread s l → T.step r s l = some (s', l') →
    shared s' ∧ thread s' l'
  other : ∀ r s l s' l' m, shared s → thread s l → thread s m → pair l m →
    T.step r s l = some (s', l') → thread s' m ∧ pair l' m
  env_shared : ∀ e s s', shared s → T.env e s = some s' → shared s'
  env_thread : ∀ e s s' l, shared s → thread s l → T.env e s = some s' → thread s' l

variable {T : Threads σ L ρ ε}

structure Outline.Holds (O : Outline T) (c : σ × (ι → L)) : Prop where
  shared : O.shared c.1
  thread : ∀ i, O.thread c.1 (c.2 i)
  pair : ∀ i j, i ≠ j → O.pair (c.2 i) (c.2 j)

theorem Outline.holds_next (O : Outline T) {a : ι × ρ ⊕ ε} {c d : σ × (ι → L)}
    (hc : O.Holds c) (h : (T.system ι).next a c = some d) : O.Holds d := by
  cases a with
  | inl a =>
    obtain ⟨i, r⟩ := a
    obtain ⟨s', l', hs, rfl⟩ := Threads.next_thread h
    obtain ⟨hsh, hth⟩ := O.own r _ _ _ _ hc.shared (hc.thread i) hs
    have hoth : ∀ j, j ≠ i → O.thread s' (c.2 j) ∧ O.pair l' (c.2 j) := fun j hj =>
      O.other r _ _ _ _ _ hc.shared (hc.thread i) (hc.thread j) (hc.pair i j hj.symm) hs
    refine ⟨hsh, fun j => ?_, fun j k hjk => ?_⟩
    · by_cases hj : j = i
      · subst hj
        simpa using hth
      · simpa [hj] using (hoth j hj).1
    · by_cases hj : j = i
      · subst hj
        simpa [hjk.symm] using (hoth k hjk.symm).2
      · by_cases hk : k = i
        · subst hk
          simpa [hj] using O.pair_symm _ _ (hoth j hj).2
        · simpa [hj, hk] using hc.pair j k hjk
  | inr e =>
    obtain ⟨s', hs, rfl⟩ := Threads.next_env h
    exact ⟨O.env_shared e _ _ hc.shared hs,
      fun j => O.env_thread e _ _ _ hc.shared (hc.thread j) hs, hc.pair⟩

/-- The outline holds in every state that an interleaving reaches. -/
theorem Outline.holds_of_reaches (O : Outline T) {c d : σ × (ι → L)}
    (h : (T.system ι).Reaches c d) (hc : O.Holds c) : O.Holds d :=
  h.invariant (fun _ _ _ hs hn => O.holds_next hs hn) hc

end UrlShortener.Transition
