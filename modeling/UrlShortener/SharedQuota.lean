import UrlShortener.ServerQuota

/-! The quota of one client over everything that `createServer` answers: the routes of the API, the
health probes, and paths that nothing matches. -/
namespace UrlShortener.Quota
open Transition RateLimiter Routes Validation

/-- An alias that cannot be decoded matches no route either. -/
inductive Target
  | api (route : Route)
  | probe
  | unmatched
  deriving DecidableEq

/-- What the router adds to `createServer`. -/
def Target.routed : Target → List Middleware
  | .api route => route.middleware
  | .probe | .unmatched => []

/-- What stands in front of the answer to a request. -/
def Target.stack (target : Target) : List Middleware := createServer ++ target.routed

/-- How often a request is counted, if no limiter refuses it. -/
def Target.cost (target : Target) (req : Incoming) : ℕ :=
  if req.accepted then limiters target.stack else 0

lemma Target.limiters_stack (target : Target) :
    limiters target.stack = limiters target.routed + 1 := by
  rw [limiters, stack, List.count_append, Nat.add_comm]
  rfl

lemma Target.limiters_le (target : Target) : limiters target.stack ≤ 2 := by
  cases target with
  | api route => exact (Quota.limiters_stack route).le
  | probe | unmatched => exact Nat.le_succ 1

lemma Target.routed_suffix (target : Target) :
    ∃ route : Route, target.routed <:+ route.middleware := by
  cases target with
  | api route => exact ⟨route, List.suffix_rfl⟩
  | probe | unmatched => exact ⟨.resolve, List.nil_suffix⟩

variable {ι : Type}

/-- The key does not exist and each request is in front of its first middleware. -/
def approaching (joi : Joi) (now : ℕ) (target : ι → Target) (req : ι → Incoming) :
    Store × (ι → Passage) :=
  (⟨now, none, 0⟩, fun i => enter joi (req i) (target i).stack)

/-- The limiters that have let a request pass. -/
def Target.passed (target : Target) : Passage → ℕ
  | .inside _ _ rest | .refused _ _ rest => limiters target.stack - 1 - limiters rest
  | .admitted => limiters target.stack
  | .rejected _ _ => 0

lemma Onward.isRejected {req : Incoming} {p : Passage} (hp : Onward req p)
    (hreq : ¬ req.accepted) : ∃ status rest, p = .rejected status rest := by
  cases p with
  | inside inv req' rest => exact absurd hp.1 hreq
  | admitted | refused => exact absurd hp hreq
  | rejected status rest => exact ⟨status, rest, rfl⟩

/-- What is answered in front of the limiter has all of them before it. -/
def HeldBack (target : Target) (req : Incoming) (p : Passage) : Prop :=
  Onward req p ∧ ∀ status rest, p = .rejected status rest → limiters rest = limiters target.stack

lemma heldBack_arrival (joi : Joi) (target : Target) (req : Incoming) :
    HeldBack target req (enter joi req target.stack) := by
  obtain ⟨route, hroute⟩ := target.routed_suffix
  refine ⟨onward_arrival joi req hroute, fun status rest hp => ?_⟩
  rcases enter_createServer joi req target.routed with
    ⟨-, req', heq⟩ | ⟨-, status', rest', heq, hrest⟩
  · rw [Target.stack, heq] at hp
    cases hp
  · rw [Target.stack, heq] at hp
    cases hp
    rw [hrest, target.limiters_stack]

section Step
variable {joi : Joi} {config : Config} {e : Event} {s s' : Store} {p p' : Passage}

lemma HeldBack.step {target : Target} {req : Incoming} (hp : HeldBack target req p)
    (h : (requests joi config).step e s p = some (s', p')) : HeldBack target req p' := by
  have honward := hp.1.step h
  refine ⟨honward, fun status rest hp' => ?_⟩
  obtain ⟨inv, req', rest', inv', rfl, -, -, -⟩ := step_inside h
  rw [hp'] at honward
  exact absurd hp.1.1 honward

lemma step_count_le (h : (requests joi config).step e s p = some (s', p')) :
    s.count ≤ s'.count := by
  obtain ⟨inv, req, rest, inv', rfl, hmove, hd, -⟩ := step_inside h
  rw [hmove.count hd]
  exact Nat.le_add_right _ _

/-- What a request has been granted it keeps. -/
lemma granted_le_of_step (hp : Underway p)
    (h : (requests joi config).step e s p = some (s', p')) :
    granted config p ≤ granted config p' := by
  have hle := step_count_le h
  obtain ⟨-, -, hgranted⟩ := step_spec hp h
  have hmin : min s.count config.RATE_LIMIT_MAX ≤ min s'.count config.RATE_LIMIT_MAX :=
    min_le_min_right _ hle
  omega

end Step

section Runs
variable [DecidableEq ι] [Fintype ι] {joi : Joi} {config : Config} {now : ℕ}
  {target : ι → Target} {req : ι → Incoming} {d : Store × (ι → Passage)}

/-- Where no limiter is left over, `sent` and `granted` count from what the stack lacks of two. -/
structure Shared (config : Config) (target : ι → Target) (d : Store × (ι → Passage)) : Prop where
  underway : ∀ i, Underway (d.2 i)
  least : ∀ i, 2 ≤ granted config (d.2 i) + limiters (target i).stack
  sent : d.1.count + ∑ i, (2 - limiters (target i).stack) = ∑ i, sent (d.2 i)
  granted : min d.1.count config.RATE_LIMIT_MAX + ∑ i, (2 - limiters (target i).stack) =
    ∑ i, granted config (d.2 i)

lemma shared_of_reaches
    (h : ((requests joi config).system ι).Reaches (approaching joi now target req) d) :
    Shared config target d := by
  have hstart := fun i => enter_spec joi config (req i) (target i).limiters_le
  refine h.invariant (fun a c d hc hn => ?_) ?_
  · cases a with
    | inl a =>
      obtain ⟨i, e⟩ := a
      obtain ⟨s', p', hs, rfl⟩ := Threads.next_thread hn
      obtain ⟨hp', hsent, hgranted⟩ := step_spec (hc.underway i) hs
      have hle := granted_le_of_step (hc.underway i) hs
      have hsentOld := Threads.total_update sent c.2 i (c.2 i)
      have hsentNew := Threads.total_update sent c.2 i p'
      have hgrantedOld := Threads.total_update (Quota.granted config) c.2 i (c.2 i)
      have hgrantedNew := Threads.total_update (Quota.granted config) c.2 i p'
      rw [Function.update_eq_self] at hsentOld hgrantedOld
      have hcsent := hc.sent
      have hcgranted := hc.granted
      refine ⟨fun j => ?_, fun j => ?_, ?_, ?_⟩
      · by_cases hji : j = i
        · subst hji
          simpa using hp'
        · simpa [hji] using hc.underway j
      · by_cases hji : j = i
        · subst hji
          simpa using (hc.least j).trans (Nat.add_le_add_right hle _)
        · simpa [hji] using hc.least j
      · dsimp only
        omega
      · dsimp only
        omega
    | inr ms =>
      obtain ⟨s', hs, rfl⟩ := Threads.next_env hn
      have hcount := env_count hs
      exact ⟨hc.underway, hc.least, by rw [← hc.sent, ← hcount], by rw [← hc.granted, ← hcount]⟩
  · refine ⟨fun i => (hstart i).1, fun i => ?_, ?_, ?_⟩
    · have hgranted := (hstart i).2.2
      have hle := (target i).limiters_le
      change 2 ≤ Quota.granted config (enter joi (req i) (target i).stack) +
        limiters (target i).stack
      omega
    · exact (Nat.zero_add _).trans (Finset.sum_congr rfl fun i _ => (hstart i).2.1.symm)
    · exact (congrArg (· + _) (Nat.zero_min _)).trans ((Nat.zero_add _).trans
        (Finset.sum_congr rfl fun i _ => (hstart i).2.2.symm))

/-- Of an answered request. -/
lemma passed_eq {t : Target} {r : Incoming} {p : Passage} (hp : Underway p)
    (hback : HeldBack t r p) (hanswered : p.Answered)
    (hleast : 2 ≤ granted config p + limiters t.stack) :
    t.passed p + 2 = granted config p + limiters t.stack := by
  cases p with
  | inside inv req rest => exact hanswered.elim
  | admitted => exact Nat.add_comm _ _
  | refused headers retryAfter rest =>
    have hpos := t.limiters_stack
    simp only [Target.passed, granted] at hleast ⊢
    have hrest : limiters rest ≤ 1 := hp
    omega
  | rejected status rest =>
    have hrest := hback.2 status rest rfl
    have hle := t.limiters_le
    simp only [Target.passed, granted] at hleast ⊢
    omega

lemma passed_admitted {t : Target} {r : Incoming} {p : Passage} (hback : HeldBack t r p)
    (hp : p.isAdmitted) : t.passed p = t.cost r := by
  obtain rfl := Passage.eq_admitted hp
  exact (if_pos hback.1).symm

lemma sent_le_cost {t : Target} {r : Incoming} {p : Passage} (hback : HeldBack t r p) :
    sent p ≤ 2 - limiters t.stack + t.cost r := by
  have htwo := sent_le_two p
  have hle := t.limiters_le
  cases p with
  | inside inv req rest =>
    rw [Target.cost, if_pos hback.1.1]
    omega
  | admitted | refused =>
    have hreq : r.accepted := hback.1
    rw [Target.cost, if_pos hreq]
    omega
  | rejected status rest =>
    rw [sent, hback.2 status rest rfl]
    exact Nat.le_add_right _ _

/-- Everything that one client asks of the server draws on one quota, but for what is answered in
front of the limiter. Once all is answered, every request that comes to the limiter is admitted
exactly when they cost no more than the quota; the admitted ones never cost more, and where
anybody was refused the limiters have let through as many as the quota allows, those of requests
among them that were refused later. -/
theorem quota_shared_iff
    (h : ((requests joi config).system ι).Reaches (approaching joi now target req) d)
    (hdone : ∀ i, (d.2 i).Answered) :
    ((∀ i, (req i).accepted → (d.2 i).isAdmitted) ↔
        ∑ i, (target i).cost (req i) ≤ config.RATE_LIMIT_MAX) ∧
      ∑ i with (d.2 i).isAdmitted, (target i).cost (req i) ≤ config.RATE_LIMIT_MAX ∧
      ((∃ i, (d.2 i).isRefused) →
        ∑ i, (target i).passed (d.2 i) = config.RATE_LIMIT_MAX) ∧
      ∀ i, (∃ status rest, d.2 i = .rejected status rest) ↔ ¬ (req i).accepted := by
  obtain ⟨hunderway, hleast, hsent, hgranted⟩ := shared_of_reaches h
  have hback : ∀ i, HeldBack (target i) (req i) (d.2 i) :=
    Threads.local_invariant (fun i => HeldBack (target i) (req i))
      (fun _ _ _ _ _ _ hp hs => hp.step hs) h fun i => heldBack_arrival joi (target i) (req i)
  have hpassed : ∑ i, (target i).passed (d.2 i) = min d.1.count config.RATE_LIMIT_MAX := by
    have hsum := Finset.sum_congr rfl fun i (_ : i ∈ Finset.univ) =>
      passed_eq (hunderway i) (hback i) (hdone i) (hleast i)
    have htwo := Finset.sum_congr rfl fun i (_ : i ∈ Finset.univ) =>
      Nat.sub_add_cancel (target i).limiters_le
    rw [Finset.sum_add_distrib, Finset.sum_add_distrib] at hsum
    rw [Finset.sum_add_distrib] at htwo
    omega
  have hnone : d.1.count ≤ config.RATE_LIMIT_MAX → ∀ i, ¬ (d.2 i).isRefused := by
    intro hle
    rw [min_eq_left hle, hsent] at hgranted
    exact none_refused hunderway hgranted.symm
  refine ⟨⟨fun hadmitted => ?_, fun hcost i hreq => ?_⟩, ?_, fun hrefused => ?_, fun i => ?_⟩
  · have hsame : ∀ i ∈ Finset.univ, (target i).passed (d.2 i) = (target i).cost (req i) := by
      intro i _
      by_cases hreq : (req i).accepted
      · exact passed_admitted (hback i) (hadmitted i hreq)
      · rw [Target.cost, if_neg hreq]
        obtain ⟨status, rest, hp⟩ := (hback i).1.isRejected hreq
        rw [hp]
        rfl
    rw [Finset.sum_congr rfl hsame] at hpassed
    exact hpassed.trans_le (min_le_right _ _)
  · have hle : ∑ i, sent (d.2 i) ≤
        ∑ i, (2 - limiters (target i).stack + (target i).cost (req i)) :=
      Finset.sum_le_sum fun i _ => sent_le_cost (hback i)
    rw [Finset.sum_add_distrib] at hle
    exact (hback i).1.isAdmitted hreq (hdone i) (hnone (by omega) i)
  · calc ∑ i with (d.2 i).isAdmitted, (target i).cost (req i)
        = ∑ i with (d.2 i).isAdmitted, (target i).passed (d.2 i) := by
          refine Finset.sum_congr rfl fun i hi => ?_
          exact (passed_admitted (hback i) (Finset.mem_filter.mp hi).2).symm
      _ ≤ ∑ i, (target i).passed (d.2 i) :=
          Finset.sum_le_sum_of_subset (Finset.filter_subset _ _)
      _ ≤ config.RATE_LIMIT_MAX := hpassed.trans_le (min_le_right _ _)
  · rw [hpassed]
    refine min_eq_right (le_of_not_ge fun hle => ?_)
    obtain ⟨i, hi⟩ := hrefused
    exact hnone hle i hi
  · refine ⟨?_, (hback i).1.isRejected⟩
    rintro ⟨status, rest, hp⟩
    have hi := (hback i).1
    rwa [hp] at hi

end Runs

/-- A body that does not parse. -/
def malformedRequest : Incoming := ⟨.error 400, .ok none, ⟨none, none, none⟩⟩

/-- A probe, a redirect, and a submission that does not parse. -/
def asked : Option Bool → Target
  | none => .probe
  | some true => .api .resolve
  | some false => .api .shorten

def asking : Option Bool → Incoming
  | some false => malformedRequest
  | _ => plainRequest

/-- With a quota of two the probe is admitted, the redirect is refused by the limiter of its
route, and the submission costs nothing. -/
theorem quota_shared_iff_probeThenApi : ∃ d : Store × (Option Bool → Passage),
    ((requests plainJoi ⟨2, 60⟩).system (Option Bool)).run
      ((served none).take 3 ++ served (some true)) (approaching plainJoi 0 asked asking) = some d ∧
      (d.2 none).isAdmitted ∧ (d.2 (some true)).isRefused ∧
      ((∀ i, (asking i).accepted → (d.2 i).isAdmitted) ↔ ∑ i, (asked i).cost (asking i) ≤ 2) ∧
      ∑ i with (d.2 i).isAdmitted, (asked i).cost (asking i) ≤ 2 ∧
      ((∃ i, (d.2 i).isRefused) → ∑ i, (asked i).passed (d.2 i) = 2) ∧
      ∀ i, (∃ status rest, d.2 i = .rejected status rest) ↔ ¬ (asking i).accepted := by
  have hrun : (((requests plainJoi ⟨2, 60⟩).system (Option Bool)).run
      ((served none).take 3 ++ served (some true)) (approaching plainJoi 0 asked asking)).map
      (fun d => ((d.2 none).isAdmitted, (d.2 (some true)).isRefused,
        d.2 (some false) matches .rejected _ _)) = some (true, true, true) := by
    decide
  obtain ⟨d, hd, hends⟩ := Option.map_eq_some_iff.mp hrun
  obtain ⟨hprobe, hends⟩ := Prod.mk.inj hends
  obtain ⟨hapi, hmalformed⟩ := Prod.mk.inj hends
  have hdone : ∀ i, (d.2 i).Answered := by
    intro i
    cases hp : d.2 i with
    | admitted | refused | rejected => trivial
    | inside inv req rest =>
      cases i with
      | none => simp [hp, Passage.isAdmitted] at hprobe
      | some b =>
        cases b with
        | true => simp [hp, Passage.isRefused] at hapi
        | false => simp [hp] at hmalformed
  exact ⟨d, hd, hprobe, hapi, quota_shared_iff ⟨_, hd⟩ hdone⟩

end UrlShortener.Quota
