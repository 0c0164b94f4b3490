import UrlShortener.HealthProbe

/-! The timers of a readiness probe: when it can be answered, and what a timer leaves behind. -/
namespace UrlShortener.HealthProbe
open Js Json Transition

section Runs
variable {ι : Type*} [DecidableEq ι]

/-! A probe ends, whatever the others do. -/

/-- The probe in slot `i` can be answered within `n` events of its own and passages of time, not
later than at a time. -/
def Ends (i : ι) (n latest : ℕ) (d : Desk × (ι → Probe)) : Prop :=
  ∃ actions t, actions.length ≤ n ∧ (∀ a ∈ actions, (∃ e, a = .inl (i, e)) ∨
    ∃ ms, a = .inr (.pass ms)) ∧ (probes.system ι).run actions d = some t ∧
      t.2 i = .free ∧ t.1.responses.length = d.1.responses.length + 1 ∧ t.1.pool.now ≤ latest

lemma Ends.cons {i : ι} {n latest : ℕ} {d d' : Desk × (ι → Probe)}
    {a : ι × ProbeEvent ⊕ PoolEvent} (ha : (∃ e, a = .inl (i, e)) ∨ ∃ ms, a = .inr (.pass ms))
    (hn : (probes.system ι).next a d = some d') (hresponses : d'.1.responses = d.1.responses)
    (h : Ends i n latest d') : Ends i (n + 1) latest d := by
  obtain ⟨actions, t, hlength, hown, hrun, hfree, hanswered, hnow⟩ := h
  refine ⟨a :: actions, t, Nat.succ_le_succ hlength, fun b hb => ?_,
    (System.run_cons_of_next hn).trans hrun, hfree, hresponses ▸ hanswered, hnow⟩
  rcases List.mem_cons.mp hb with rfl | hb
  · exact ha
  · exact hown b hb

lemma Ends.mono {i : ι} {m n latest : ℕ} {d : Desk × (ι → Probe)} (h : Ends i m latest d)
    (hmn : m ≤ n) : Ends i n latest d := by
  obtain ⟨actions, t, hlength, hrest⟩ := h
  exact ⟨actions, t, hlength.trans hmn, hrest⟩

lemma now_finish (pool : Pool) (client : ℕ) (dbOk : Bool) :
    (pool.finish client dbOk).1.now = pool.now := by
  unfold Pool.finish Pool.release
  split_ifs <;> rfl

/-- When `pool.connect()` rejects, or the timer fires. -/
def DbCheck.deadline : DbCheck → Option ℕ
  | .connecting since => some (since + connectionTimeoutMillis)
  | .racing _ since => some (since + dbTimeoutMs)
  | .settled _ | .threw => none

def Probe.deadline : Probe → Option ℕ
  | .checking _ db _ => db.deadline
  | .free => none

/-- The clock does not pass a timer that has yet to fire. -/
def punctual (ι : Type*) [DecidableEq ι] [Fintype ι] :
    System (Desk × (ι → Probe)) (ι × ProbeEvent ⊕ PoolEvent) where
  next
    | .inr (.pass ms), d =>
      if ∃ i, (d.2 i).deadline.any (· < d.1.pool.now + ms) then none
      else (probes.system ι).next (.inr (.pass ms)) d
    | a, d => (probes.system ι).next a d

/-- How far a check has come at a time that has begun at another one. -/
def DbCheck.InTime (begun now : ℕ) : DbCheck → Prop
  | .connecting since => since = begun ∧ now ≤ begun + connectionTimeoutMillis
  | .racing _ since => since ≤ begun + connectionTimeoutMillis ∧ now ≤ since + dbTimeoutMs
  | .settled _ | .threw => True

lemma now_of_move {e : ProbeEvent} {desk desk' : Desk} {probe probe' : Probe}
    (hmove : ProbeMove desk e probe desk' probe') : desk'.pool.now = desk.pool.now := by
  cases hmove with
  | request | respond | ping | connect | refuse => rfl
  | query => exact now_finish _ _ _
  | timeout => exact now_finish _ _ _

lemma inTime_of_finish (pool : Pool) (client begun now : ℕ) (dbOk : Bool) :
    (pool.finish client dbOk).2.InTime begun now := by
  unfold Pool.finish
  cases pool.release client <;> trivial

/-- A step of a probe that is under way keeps its check in time. -/
lemma ProbeMove.inTime {e : ProbeEvent} {desk desk' : Desk} {seen : List ProbeEvent} {db : DbCheck}
    {cache : CacheCheck} {probe' : Probe} {begun : ℕ} (he : e ≠ .respond)
    (hmove : ProbeMove desk e (.checking seen db cache) desk' probe')
    (h : db.InTime begun desk.pool.now) : ∃ seen' db' cache',
      probe' = .checking seen' db' cache' ∧ db'.InTime begun desk'.pool.now := by
  cases hmove with
  | respond => exact absurd rfl he
  | ping => exact ⟨_, _, _, rfl, h⟩
  | connect =>
    obtain ⟨rfl, hnow⟩ := h
    exact ⟨_, _, _, rfl, hnow, Nat.le_add_right _ _⟩
  | refuse => exact ⟨_, _, _, rfl, trivial⟩
  | query => exact ⟨_, _, _, rfl, inTime_of_finish _ _ _ _ _⟩
  | timeout => exact ⟨_, _, _, rfl, inTime_of_finish _ _ _ _ _⟩

lemma now_of_poolStep {e : PoolEvent} {pool pool' : Pool} (he : ∀ ms, e ≠ .pass ms)
    (h : poolStep e pool = some pool') : pool'.now = pool.now := by
  cases e with
  | pass ms => exact absurd rfl (he ms)
  | lend | restore =>
    obtain ⟨-, hd⟩ := Option.ite_none_right_eq_some.mp h
    cases hd
    rfl
  | late =>
    obtain ⟨-, hd⟩ := Option.ite_none_left_eq_some.mp h
    cases hd
    rfl

lemma DbCheck.InTime.pass {begun now now' : ℕ} {db : DbCheck} (h : db.InTime begun now)
    (hdeadline : ¬ db.deadline.any (· < now')) : db.InTime begun now' := by
  cases db with
  | connecting since =>
    obtain ⟨rfl, -⟩ := h
    exact ⟨rfl, by simpa [DbCheck.deadline] using hdeadline⟩
  | racing client since => exact ⟨h.1, by simpa [DbCheck.deadline] using hdeadline⟩
  | settled | threw => trivial

section Punctual
variable [Fintype ι] {i : ι} {begun : ℕ} {c d : Desk × (ι → Probe)}

/-- The check of the probe in slot `i` has come far enough. -/
def Timely (i : ι) (begun : ℕ) (d : Desk × (ι → Probe)) : Prop :=
  ∃ seen db cache, d.2 i = .checking seen db cache ∧ db.InTime begun d.1.pool.now

omit [Fintype ι] in
lemma Timely.next {a : ι × ProbeEvent ⊕ PoolEvent} (ha : a ≠ .inl (i, .respond))
    (hpass : ∀ ms, a ≠ .inr (.pass ms)) (hc : Timely i begun c)
    (hn : (probes.system ι).next a c = some d) : Timely i begun d := by
  obtain ⟨seen, db, cache, hi, htime⟩ := hc
  cases a with
  | inl a =>
    obtain ⟨j, e⟩ := a
    obtain ⟨desk', probe', hstep, rfl⟩ := Threads.next_thread hn
    have hmove := probeMove_of_step hstep
    by_cases hj : i = j
    · subst hj
      rw [hi] at hmove
      have he : e ≠ .respond := fun he => ha (by rw [he])
      obtain ⟨seen', db', cache', rfl, htime'⟩ := hmove.inTime he htime
      exact ⟨seen', db', cache', Function.update_self _ _ _, htime'⟩
    · refine ⟨seen, db, cache, (Function.update_of_ne hj _ _).trans hi, ?_⟩
      rw [now_of_move hmove]
      exact htime
  | inr e =>
    obtain ⟨desk', hstep, rfl⟩ := Threads.next_env hn
    obtain ⟨pool, hpool, rfl⟩ := Option.map_eq_some_iff.mp hstep
    refine ⟨seen, db, cache, hi, ?_⟩
    rw [now_of_poolStep (fun ms he => hpass ms (by rw [he])) hpool]
    exact htime

lemma Timely.punctual_next {a : ι × ProbeEvent ⊕ PoolEvent} (ha : a ≠ .inl (i, .respond))
    (hc : Timely i begun c) (hn : (punctual ι).next a c = some d) : Timely i begun d := by
  by_cases hpass : ∃ ms, a = .inr (.pass ms)
  · obtain ⟨ms, rfl⟩ := hpass
    obtain ⟨hdue, hd⟩ := Option.ite_none_left_eq_some.mp hn
    cases hd
    obtain ⟨seen, db, cache, hi, htime⟩ := hc
    refine ⟨seen, db, cache, hi, htime.pass fun hlate => hdue ⟨i, ?_⟩⟩
    rw [hi]
    exact hlate
  · have hpass : ∀ ms, a ≠ .inr (.pass ms) := fun ms h => hpass ⟨ms, h⟩
    refine hc.next ha hpass ?_
    cases a with
    | inl a => exact hn
    | inr e =>
      cases e with
      | pass ms => exact absurd rfl (hpass ms)
      | lend | restore | late => exact hn

/-- With timers that fire when they are due, a probe that is older than both of its timeouts
together has settled its database check, whatever has become of the pool and the other probes: it
is answered as soon as Redis has replied. -/
theorem check_in_time {as : List (ι × ProbeEvent ⊕ PoolEvent)}
    (h : (punctual ι).run (.inl (i, .request) :: as) c = some d)
    (hsame : .inl (i, .respond) ∉ as) : ∃ seen db cache, d.2 i = .checking seen db cache ∧
      (d.1.pool.now ≤ c.1.pool.now + (connectionTimeoutMillis + dbTimeoutMs) ∨
        ∀ cacheOk, ∃ response, ready db (.settled cacheOk) = some response) := by
  obtain ⟨s, hfirst, hrun⟩ := Option.bind_eq_some_iff.mp h
  have hs : Timely i c.1.pool.now s := by
    obtain ⟨desk', probe', hstep, rfl⟩ := Threads.next_thread hfirst
    have hmove := probeMove_of_step hstep
    generalize c.2 i = probe at hmove
    cases hmove with
    | request => exact ⟨[], _, _, Function.update_self _ _ _, rfl, Nat.le_add_right _ _⟩
    | ping hcache => cases hcache
  obtain ⟨seen, db, cache, hi, htime⟩ : Timely i c.1.pool.now d :=
    System.run_invariant_on (fun a ha s t hs hn =>
      hs.punctual_next (fun heq => hsame (heq ▸ ha)) hn) hrun hs
  refine ⟨seen, db, cache, hi, ?_⟩
  cases db with
  | connecting since =>
    obtain ⟨rfl, hnow⟩ := htime
    left
    omega
  | racing client since =>
    obtain ⟨hsince, hnow⟩ := htime
    left
    omega
  | settled dbOk => exact .inr fun cacheOk => ⟨_, rfl⟩
  | threw => exact .inr fun cacheOk => ⟨_, rfl⟩

/-- The client comes when the pool's timeout is due, and then the query hangs. -/
def slowProbe : List (Unit × ProbeEvent ⊕ PoolEvent) :=
  [.inr (.pass connectionTimeoutMillis), .inl ((), .connected 0), .inr (.pass dbTimeoutMs),
    .inl ((), .timeout), .inr (.pass 1)]

theorem check_in_time_slowProbe : ∃ d : Desk × (Unit → Probe),
    (punctual Unit).run (.inl ((), .request) :: slowProbe) (opened 1, fun _ => .free) = some d ∧
    connectionTimeoutMillis + dbTimeoutMs < d.1.pool.now ∧
    ∃ seen db cache, d.2 () = .checking seen db cache ∧
      ∀ cacheOk, ∃ response, ready db (.settled cacheOk) = some response := by
  have hrun : ((punctual Unit).run (.inl ((), .request) :: slowProbe)
      (opened 1, fun _ => .free)).map (fun d => d.1.pool.now) =
        some (connectionTimeoutMillis + dbTimeoutMs + 1) := by decide +kernel
  obtain ⟨d, hd, hnow⟩ := Option.map_eq_some_iff.mp hrun
  have hlate : connectionTimeoutMillis + dbTimeoutMs < d.1.pool.now := by omega
  obtain ⟨seen, db, cache, hi, hintime | hready⟩ := check_in_time hd (by simp [slowProbe])
  · dsimp only [opened] at hintime
    omega
  · exact ⟨d, hd, hlate, seen, db, cache, hi, hready⟩

end Punctual

/-! A query that is left running. -/

lemma behind_finish (pool : Pool) (client : ℕ) (dbOk : Bool) :
    (pool.finish client dbOk).1.behind = pool.behind := by
  unfold Pool.finish Pool.release
  split_ifs <;> rfl

lemma behind_leave_self (pool : Pool) (client : ℕ) :
    (pool.leave client).behind client = pool.behind client + 1 := Function.update_self _ _ _

lemma behind_le_leave (pool : Pool) (client other : ℕ) :
    pool.behind client ≤ (pool.leave other).behind client := by
  by_cases hc : client = other
  · rw [hc, behind_leave_self]
    exact Nat.le_succ _
  · exact (Function.update_of_ne hc _ _).ge

lemma behind_of_move {e : ProbeEvent} {desk desk' : Desk} {probe probe' : Probe} (client : ℕ)
    (hmove : ProbeMove desk e probe desk' probe') :
    desk.pool.behind client ≤ desk'.pool.behind client := by
  cases hmove with
  | request | respond | ping | connect | refuse => exact le_rfl
  | query => rw [behind_finish]
  | @timeout seen cache other since hdue =>
    rw [behind_finish]
    exact behind_le_leave desk.pool client other

/-- A late answer takes one query from its connection, and nothing else does. -/
lemma behind_of_next (client : ℕ) {d d' : Desk × (ι → Probe)} {a : ι × ProbeEvent ⊕ PoolEvent}
    (hn : (probes.system ι).next a d = some d') : d.1.pool.behind client ≤
      d'.1.pool.behind client + if a = .inr (.late client) then 1 else 0 := by
  cases a with
  | inl a =>
    obtain ⟨i, e⟩ := a
    obtain ⟨desk', probe', hstep, rfl⟩ := Threads.next_thread hn
    exact (behind_of_move client (probeMove_of_step hstep)).trans (Nat.le_add_right _ _)
  | inr e =>
    obtain ⟨desk', hstep, rfl⟩ := Threads.next_env hn
    obtain ⟨pool, hpool, rfl⟩ := Option.map_eq_some_iff.mp hstep
    cases e with
    | pass ms =>
      cases hpool
      exact Nat.le_add_right _ _
    | lend other | restore other =>
      obtain ⟨-, hd⟩ := Option.ite_none_right_eq_some.mp hpool
      cases hd
      exact Nat.le_add_right _ _
    | late other =>
      obtain ⟨-, hd⟩ := Option.ite_none_left_eq_some.mp hpool
      cases hd
      by_cases hc : other = client
      · subst hc
        rw [if_pos rfl]
        simp only [Function.update_self]
        omega
      · exact (Function.update_of_ne (Ne.symm hc) _ _).ge.trans (Nat.le_add_right _ _)

lemma behind_of_run (client : ℕ) {d t : Desk × (ι → Probe)}
    {actions : List (ι × ProbeEvent ⊕ PoolEvent)} (h : (probes.system ι).run actions d = some t) :
    d.1.pool.behind client ≤ t.1.pool.behind client + actions.countP (· = .inr (.late client)) := by
  induction actions generalizing d with
  | nil =>
    cases h
    exact Nat.le_add_right _ _
  | cons a actions ih =>
    obtain ⟨s, hn, hrun⟩ := Option.bind_eq_some_iff.mp h
    have hfirst := behind_of_next client hn
    have hrest := ih hrun
    by_cases ha : a = .inr (.late client)
    · rw [if_pos ha] at hfirst
      rw [List.countP_cons_of_pos (by simpa using ha)]
      omega
    · rw [if_neg ha] at hfirst
      rw [List.countP_cons_of_neg (by simpa using ha)]
      omega

lemma behind_of_timeout {desk desk' : Desk} {seen : List ProbeEvent} {client since : ℕ}
    {cache : CacheCheck} {probe' : Probe}
    (h : probeStep .timeout desk (.checking seen (.racing client since) cache) =
      some (desk', probe')) : desk'.pool.behind client = desk.pool.behind client + 1 := by
  have hmove := probeMove_of_step h
  cases hmove with
  | ping hcache => cases hcache
  | timeout hdue => rw [behind_finish, behind_leave_self]

lemma not_queried {i : ι} {t : Desk × (ι → Probe)} {seen : List ProbeEvent} {client since : ℕ}
    {cache : CacheCheck} (hbehind : 0 < t.1.pool.behind client)
    (hi : t.2 i = .checking seen (.racing client since) cache) (ok : Bool) :
    (probes.system ι).next (.inl (i, .queried ok)) t = none := by
  have hcache : cacheStep (.queried ok) cache = none := by cases cache <;> rfl
  have hdb : dbStep (.queried ok) t.1.pool (.racing client since) = none := if_neg hbehind.ne'
  have hstep : probeStep (.queried ok) t.1 (t.2 i) = none := by
    rw [hi]
    simp only [probeStep, hcache, hdb, Option.map_none]
  exact Option.map_eq_none_iff.mpr hstep

/-- Once a timer has won, no later probe has its query answered on that client before the query
that was left running is: before it come those that were left running earlier. -/
theorem hung_query_blocks_client {i : ι} {d t : Desk × (ι → Probe)} {seen : List ProbeEvent}
    {client since : ℕ} {cache : CacheCheck} {actions : List (ι × ProbeEvent ⊕ PoolEvent)}
    (hi : d.2 i = .checking seen (.racing client since) cache)
    (hlate : actions.countP (· = .inr (.late client)) ≤ d.1.pool.behind client)
    (h : (probes.system ι).run (.inl (i, .timeout) :: actions) d = some t) :
    0 < t.1.pool.behind client ∧ ∀ j seen since cache,
      t.2 j = .checking seen (.racing client since) cache →
        ∀ ok, (probes.system ι).next (.inl (j, .queried ok)) t = none := by
  obtain ⟨s, hfirst, hrun⟩ := Option.bind_eq_some_iff.mp h
  have hs : s.1.pool.behind client = d.1.pool.behind client + 1 := by
    obtain ⟨desk', probe', hstep, rfl⟩ := Threads.next_thread hfirst
    rw [hi] at hstep
    exact behind_of_timeout hstep
  have hrest := behind_of_run client hrun
  have ht : 0 < t.1.pool.behind client := by omega
  exact ⟨ht, fun j seen since cache hj ok => not_queried ht hj ok⟩

theorem hung_query_blocks_client_hungQuery : ∃ d t : Desk × (Bool → Probe),
    (probes.system Bool).run (hungQuery.take 4) (opened 1, fun _ => .free) = some d ∧
    (probes.system Bool).run (hungQuery.drop 4) d = some t ∧
    t.2 true = .checking [.connected 0] (.racing 0 dbTimeoutMs) .pinging ∧
    0 < t.1.pool.behind 0 ∧ ∀ j seen since cache,
      t.2 j = .checking seen (.racing 0 since) cache →
        ∀ ok, (probes.system Bool).next (.inl (j, .queried ok)) t = none := by
  have hbefore : ((probes.system Bool).run (hungQuery.take 4) (opened 1, fun _ => .free)).map
      (fun d => d.2 false) =
        some (.checking [.connected 0] (.racing 0 0) .pinging) := by decide +kernel
  obtain ⟨d, hd, hfirst⟩ := Option.map_eq_some_iff.mp hbefore
  have hall : ((probes.system Bool).run (hungQuery.take 4 ++ hungQuery.drop 4)
      (opened 1, fun _ => .free)).map (fun t => t.2 true) =
        some (.checking [.connected 0] (.racing 0 dbTimeoutMs) .pinging) := by decide +kernel
  obtain ⟨t, ht, hsecond⟩ := Option.map_eq_some_iff.mp hall
  rw [System.run_append, hd] at ht
  have hlate : (hungQuery.drop 5).countP (· = .inr (.late 0)) ≤ d.1.pool.behind 0 := by
    have hnone : (hungQuery.drop 5).countP (· = .inr (.late 0)) = 0 := by decide
    rw [hnone]
    exact Nat.zero_le _
  exact ⟨d, t, hd, ht, hsecond, hung_query_blocks_client hfirst hlate ht⟩

end Runs

end UrlShortener.HealthProbe
