import UrlShortener.TransitionRun
import UrlShortener.JsonText

/-! `HealthController`: any number of readiness probes over one pool, each with its two checks
and the timer that races with its query. -/
namespace UrlShortener.HealthProbe
open Js Json Transition

/-- How long `pool.connect()` waits for a client. -/
def connectionTimeoutMillis : ℕ := 2000

def dbTimeoutMs : ℕ := 2000

/-- The clients that the pool may hand out and those that others have, and for every client how
many queries still run on its connection whose holder has given it back. -/
structure Pool where
  now : ℕ
  idle : List ℕ
  lent : List ℕ
  behind : ℕ → ℕ

/-- `client.release()`; it throws for a client that is not checked out. -/
def Pool.release (pool : Pool) (client : ℕ) : Option Pool :=
  if client ∈ pool.idle then none else some { pool with idle := client :: pool.idle }

/-- `checkDatabase`: since a time it awaits its client, or the race of its query with the timer
that was set then; `threw` where its `finally` block throws. -/
inductive DbCheck
  | connecting (since : ℕ)
  | racing (client since : ℕ)
  | settled (dbOk : Bool)
  | threw
  deriving DecidableEq

inductive CacheCheck
  | pinging
  | settled (cacheOk : Bool)
  deriving DecidableEq

structure Response where
  status : ℕ
  body : Json

inductive ProbeEvent
  | request
  | connected (client : ℕ)
  | refused
  | queried (ok : Bool)
  | timeout
  | pinged (status : JsString)
  | pingFailed
  | respond
  deriving DecidableEq

/-- The `finally` block, after which the check settles. -/
def Pool.finish (pool : Pool) (client : ℕ) (dbOk : Bool) : Pool × DbCheck :=
  match pool.release client with
  | some pool' => (pool', .settled dbOk)
  | none => (pool, .threw)

/-- A query of the client is left running. -/
def Pool.leave (pool : Pool) (client : ℕ) : Pool :=
  { pool with behind := Function.update pool.behind client (pool.behind client + 1) }

/-- One step of `checkDatabase`. The queries on a connection are answered one after another;
where the timer wins, the query is left running. -/
def dbStep (e : ProbeEvent) (pool : Pool) (check : DbCheck) : Option (Pool × DbCheck) :=
  match check, e with
  | .connecting _, .connected client =>
    if client ∈ pool.idle then
      some ({ pool with idle := pool.idle.erase client }, .racing client pool.now)
    else none
  | .connecting _, .refused => some (pool, .settled false)
  | .racing client _, .queried ok =>
    if pool.behind client = 0 then some (pool.finish client ok) else none
  | .racing client since, .timeout =>
    if since + dbTimeoutMs ≤ pool.now then some ((pool.leave client).finish client false) else none
  | _, _ => none

/-- One step of `checkRedis`. -/
def cacheStep (e : ProbeEvent) (check : CacheCheck) : Option CacheCheck :=
  match check, e with
  | .pinging, .pinged status => some (.settled (status = js "PONG"))
  | .pinging, .pingFailed => some (.settled false)
  | _, _ => none

def dependency (ok : Bool) : Json := .str (if ok then js "OK" else js "FAIL")

/-- The answer of `ready` to what its checks have come to. -/
def report (dbOk cacheOk : Bool) : Response :=
  if dbOk && cacheOk then
    ⟨200, .obj [(js "status", .str (js "READY")),
      (js "dependencies", .obj [(js "database", dependency true), (js "cache", dependency true)])]⟩
  else
    ⟨503, .obj [(js "status", .str (js "UNAVAILABLE")),
      (js "dependencies", .obj [(js "database", dependency dbOk),
        (js "cache", dependency cacheOk)])]⟩

/-- The answer of its `catch` block. -/
def unexpected : Response :=
  ⟨503, .obj [(js "status", .str (js "UNAVAILABLE")),
    (js "error", .str (js "Service health check failed"))]⟩

/-- `Promise.all` waits for both checks, or for the first that rejects. -/
def ready (db : DbCheck) (cache : CacheCheck) : Option Response :=
  match db, cache with
  | .threw, _ => some unexpected
  | .settled dbOk, .settled cacheOk => some (report dbOk cacheOk)
  | _, _ => none

/-- The pool, with the number of requests so far and the answers, each beside what its probe
has seen. -/
structure Desk where
  pool : Pool
  requests : ℕ
  responses : List (List ProbeEvent × Response)

/-- A place for a probe, with the answers to its calls so far. -/
inductive Probe
  | free
  | checking (seen : List ProbeEvent) (db : DbCheck) (cache : CacheCheck)
  deriving DecidableEq

def probeStep (e : ProbeEvent) (desk : Desk) (probe : Probe) : Option (Desk × Probe) :=
  match probe, e with
  | .free, .request =>
    some ({ desk with requests := desk.requests + 1 },
      .checking [] (.connecting desk.pool.now) .pinging)
  | .free, _ => none
  | .checking seen db cache, .respond =>
    (ready db cache).map fun response =>
      ({ desk with responses := desk.responses ++ [(seen, response)] }, .free)
  | .checking seen db cache, e =>
    match cacheStep e cache with
    | some cache' => some (desk, .checking (seen ++ [e]) db cache')
    | none => (dbStep e desk.pool db).map fun d =>
        ({ desk with pool := d.1 }, .checking (seen ++ [e]) d.2 cache)

/-- Time passes, another part of the service takes a client or gives it back, or a query that
was left running is answered. -/
inductive PoolEvent
  | pass (ms : ℕ)
  | lend (client : ℕ)
  | restore (client : ℕ)
  | late (client : ℕ)
  deriving DecidableEq

def poolStep (e : PoolEvent) (pool : Pool) : Option Pool :=
  match e with
  | .pass ms => some { pool with now := pool.now + ms }
  | .lend client =>
    if client ∈ pool.idle then
      some { pool with idle := pool.idle.erase client, lent := client :: pool.lent }
    else none
  | .restore client =>
    if client ∈ pool.lent then
      some { pool with idle := client :: pool.idle, lent := pool.lent.erase client }
    else none
  | .late client =>
    if pool.behind client = 0 then none
    else some { pool with
      behind := Function.update pool.behind client (pool.behind client - 1) }

def probes : Threads Desk Probe ProbeEvent PoolEvent where
  step := probeStep
  env e desk := (poolStep e desk.pool).map fun pool => { desk with pool := pool }

def opened (size : ℕ) : Desk := ⟨⟨0, List.range size, [], fun _ => 0⟩, 0, []⟩

/-! What one step of a probe can do. -/

inductive ProbeMove (desk : Desk) : ProbeEvent → Probe → Desk → Probe → Prop
  | request : ProbeMove desk .request .free { desk with requests := desk.requests + 1 }
      (.checking [] (.connecting desk.pool.now) .pinging)
  | respond {seen : List ProbeEvent} {db : DbCheck} {cache : CacheCheck} {response : Response}
      (hready : ready db cache = some response) :
      ProbeMove desk .respond (.checking seen db cache)
        { desk with responses := desk.responses ++ [(seen, response)] } .free
  | ping {e : ProbeEvent} {seen : List ProbeEvent} {db : DbCheck} {cacheOk : Bool}
      (hcache : cacheStep e .pinging = some (.settled cacheOk)) :
      ProbeMove desk e (.checking seen db .pinging) desk
        (.checking (seen ++ [e]) db (.settled cacheOk))
  | connect {seen : List ProbeEvent} {cache : CacheCheck} {client since : ℕ}
      (hidle : client ∈ desk.pool.idle) :
      ProbeMove desk (.connected client) (.checking seen (.connecting since) cache)
        { desk with pool := { desk.pool with idle := desk.pool.idle.erase client } }
        (.checking (seen ++ [.connected client]) (.racing client desk.pool.now) cache)
  | refuse {seen : List ProbeEvent} {cache : CacheCheck} {since : ℕ} :
      ProbeMove desk .refused (.checking seen (.connecting since) cache) desk
        (.checking (seen ++ [.refused]) (.settled false) cache)
  | query {seen : List ProbeEvent} {cache : CacheCheck} {client since : ℕ} {ok : Bool}
      (hfirst : desk.pool.behind client = 0) :
      ProbeMove desk (.queried ok) (.checking seen (.racing client since) cache)
        { desk with pool := (desk.pool.finish client ok).1 }
        (.checking (seen ++ [.queried ok]) (desk.pool.finish client ok).2 cache)
  | timeout {seen : List ProbeEvent} {cache : CacheCheck} {client since : ℕ}
      (hdue : since + dbTimeoutMs ≤ desk.pool.now) :
      ProbeMove desk .timeout (.checking seen (.racing client since) cache)
        { desk with pool := ((desk.pool.leave client).finish client false).1 }
        (.checking (seen ++ [.timeout]) ((desk.pool.leave client).finish client false).2 cache)

lemma cacheStep_eq_some {e : ProbeEvent} {cache cache' : CacheCheck}
    (h : cacheStep e cache = some cache') :
    cache = .pinging ∧ (∃ cacheOk, cache' = .settled cacheOk) ∧
      ((∃ status, e = .pinged status) ∨ e = .pingFailed) := by
  revert h
  fun_cases cacheStep e cache with
  | case1 status =>
    intro h
    cases h
    exact ⟨rfl, ⟨_, rfl⟩, .inl ⟨status, rfl⟩⟩
  | case2 =>
    intro h
    cases h
    exact ⟨rfl, ⟨_, rfl⟩, .inr rfl⟩
  | case3 =>
    intro h
    cases h

lemma probeMove_of_step {e : ProbeEvent} {desk desk' : Desk} {probe probe' : Probe}
    (h : probeStep e desk probe = some (desk', probe')) :
    ProbeMove desk e probe desk' probe' := by
  revert h
  fun_cases probeStep e desk probe with
  | case1 =>
    intro h
    cases h
    exact .request
  | case2 =>
    intro h
    cases h
  | case3 seen db cache =>
    intro h
    obtain ⟨response, hready, hd⟩ := Option.map_eq_some_iff.mp h
    obtain ⟨rfl, rfl⟩ := Prod.mk.inj hd
    exact .respond hready
  | case4 seen db cache _ hne cache' hcache =>
    intro h
    cases h
    obtain ⟨rfl, ⟨cacheOk, rfl⟩, -⟩ := cacheStep_eq_some hcache
    exact .ping hcache
  | case5 seen db cache _ hne hcache =>
    intro h
    obtain ⟨d, hdb, hd⟩ := Option.map_eq_some_iff.mp h
    obtain ⟨rfl, rfl⟩ := Prod.mk.inj hd
    revert hdb
    fun_cases dbStep e desk.pool db with
    | case1 since client hidle =>
      intro hdb
      cases hdb
      exact .connect hidle
    | case3 =>
      intro hdb
      cases hdb
      exact .refuse
    | case4 client since ok hfirst =>
      intro hdb
      cases hdb
      exact .query hfirst
    | case6 client since hdue =>
      intro hdb
      cases hdb
      exact .timeout hdue
    | case2 | case5 | case7 | case8 =>
      intro hdb
      cases hdb

/-! The books of the probes. -/

/-- The client that a probe holds, and one for a probe that is not answered. -/
def holds : Probe → Multiset ℕ × ℕ
  | .checking _ (.racing client _) _ => ({client}, 1)
  | .checking _ _ _ => (0, 1)
  | .free => 0

/-- What the database check has come to, told from what the probe has seen. -/
def DbSeen (seen : List ProbeEvent) : DbCheck → Prop
  | .connecting _ | .racing _ _ => .queried true ∉ seen
  | .settled dbOk => dbOk = true ↔ .queried true ∈ seen
  | .threw => False

def pong : ProbeEvent := .pinged (js "PONG")

def CacheSeen (seen : List ProbeEvent) : CacheCheck → Prop
  | .pinging => pong ∉ seen
  | .settled cacheOk => cacheOk = true ↔ pong ∈ seen

def DbCheck.steps : DbCheck → ℕ
  | .connecting _ => 0
  | .racing _ _ => 1
  | .settled _ | .threw => 2

def CacheCheck.steps : CacheCheck → ℕ
  | .pinging => 0
  | .settled _ => 1

def Watched : Probe → Prop
  | .free => True
  | .checking seen db cache =>
    DbSeen seen db ∧ CacheSeen seen cache ∧ seen.length ≤ db.steps + cache.steps

/-- The answer fits what the probe has seen, and that is no more than three answers. -/
def Fits (answered : List ProbeEvent × Response) : Prop :=
  answered.1.length ≤ 3 ∧
    answered.2 = report (.queried true ∈ answered.1) (pong ∈ answered.1)

/-- Every client is idle, lent or held, and every request is answered or under way. -/
structure Accounted (size : ℕ) (desk : Desk) (total : Multiset ℕ × ℕ) : Prop where
  clients : (desk.pool.idle : Multiset ℕ) + desk.pool.lent + total.1 = List.range size
  requests : desk.requests = desk.responses.length + total.2
  responses : ∀ answered ∈ desk.responses, Fits answered

lemma DbSeen.append {seen : List ProbeEvent} {db : DbCheck} {e : ProbeEvent}
    (he : e ≠ .queried true) (h : DbSeen seen db) : DbSeen (seen ++ [e]) db := by
  have hmem : .queried true ∈ seen ++ [e] ↔ .queried true ∈ seen := by simp [he.symm]
  cases db with
  | connecting | racing => exact mt hmem.mp h
  | settled dbOk => exact h.trans hmem.symm
  | threw => exact h

lemma CacheSeen.append {seen : List ProbeEvent} {cache : CacheCheck} {e : ProbeEvent}
    (he : e ≠ pong) (h : CacheSeen seen cache) : CacheSeen (seen ++ [e]) cache := by
  have hmem : pong ∈ seen ++ [e] ↔ pong ∈ seen := by simp [he.symm]
  cases cache with
  | pinging => exact mt hmem.mp h
  | settled cacheOk => exact h.trans hmem.symm

/-- The client that a probe holds can be released. -/
lemma Accounted.not_idle {size client : ℕ} {desk : Desk} {others : Multiset ℕ × ℕ}
    (h : Accounted size desk (({client}, 1) + others)) : client ∉ desk.pool.idle := by
  intro hidle
  have hnodup : (List.range size : Multiset ℕ).count client ≤ 1 :=
    Multiset.nodup_iff_count_le_one.mp (Multiset.coe_nodup.mpr List.nodup_range) client
  have hpos : 0 < (desk.pool.idle : Multiset ℕ).count client :=
    Multiset.count_pos.mpr (Multiset.mem_coe.mpr hidle)
  rw [← h.clients, Multiset.count_add, Multiset.count_add, Prod.fst_add, Multiset.count_add,
    Multiset.count_singleton_self] at hnodup
  omega

lemma finish_of_not_idle {pool : Pool} {client : ℕ} (h : client ∉ pool.idle) (dbOk : Bool) :
    pool.finish client dbOk = ({ pool with idle := client :: pool.idle }, .settled dbOk) := by
  rw [Pool.finish, Pool.release, if_neg h]

lemma Accounted.release {size client : ℕ} {desk : Desk} {others : Multiset ℕ × ℕ}
    (h : Accounted size desk (({client}, 1) + others)) (behind : ℕ → ℕ) :
    Accounted size { desk with pool := { desk.pool with
      idle := client :: desk.pool.idle, behind := behind } } ((0, 1) + others) := by
  refine ⟨?_, h.requests, h.responses⟩
  rw [← h.clients, Prod.fst_add, Prod.fst_add, ← Multiset.cons_coe, ← Multiset.singleton_add,
    zero_add]
  abel

lemma fits_of_ready {seen : List ProbeEvent} {db : DbCheck} {cache : CacheCheck}
    {response : Response} (hwatched : Watched (.checking seen db cache))
    (hready : ready db cache = some response) : Fits (seen, response) := by
  obtain ⟨hdb, hcache, hlength⟩ := hwatched
  cases db with
  | connecting | racing => cases cache <;> cases hready
  | threw => exact hdb.elim
  | settled dbOk =>
    cases cache with
    | pinging => cases hready
    | settled cacheOk =>
      cases hready
      have hqueried : dbOk = decide (.queried true ∈ seen) := Bool.eq_iff_iff.mpr
        (hdb.trans (decide_eq_true_iff).symm)
      have hpinged : cacheOk = decide (pong ∈ seen) := Bool.eq_iff_iff.mpr
        (hcache.trans (decide_eq_true_iff).symm)
      refine ⟨hlength, ?_⟩
      rw [hqueried, hpinged]

lemma holds_of_ready {seen : List ProbeEvent} {db : DbCheck} {cache : CacheCheck}
    {response : Response} (hready : ready db cache = some response) :
    holds (.checking seen db cache) = (0, 1) := by
  cases db with
  | racing => cases cache <;> cases hready
  | connecting | settled | threw => rfl

lemma CacheSeen.ping {e : ProbeEvent} {seen : List ProbeEvent} {cacheOk : Bool}
    (hcache : cacheStep e .pinging = some (.settled cacheOk)) (h : CacheSeen seen .pinging) :
    CacheSeen (seen ++ [e]) (.settled cacheOk) ∧ e ≠ .queried true := by
  have hseen : .pinged (js "PONG") ∉ seen := h
  cases e with
  | pinged status =>
    cases hcache
    refine ⟨?_, ProbeEvent.noConfusion⟩
    simp [CacheSeen, hseen, pong, eq_comm]
  | pingFailed =>
    cases hcache
    refine ⟨?_, ProbeEvent.noConfusion⟩
    simp [CacheSeen, hseen, pong]
  | request | connected | refused | queried | timeout | respond => cases hcache

/-- The race is over: the client goes back and the check settles. -/
lemma Accounted.settle {size client since : ℕ} {e : ProbeEvent} {desk : Desk}
    {others : Multiset ℕ × ℕ} {seen : List ProbeEvent} {cache : CacheCheck} {dbOk : Bool}
    (he : e ≠ pong) (hok : dbOk = true ↔ e = .queried true)
    (hwatched : Watched (.checking seen (.racing client since) cache))
    (h : Accounted size desk (holds (.checking seen (.racing client since) cache) + others))
    {pool : Pool} {behind : ℕ → ℕ} (hpool : pool = { desk.pool with behind := behind }) :
    Watched (.checking (seen ++ [e]) (pool.finish client dbOk).2 cache) ∧
      Accounted size { desk with pool := (pool.finish client dbOk).1 }
        (holds (.checking (seen ++ [e]) (pool.finish client dbOk).2 cache) + others) := by
  obtain ⟨hdb, hcache, hlength⟩ := hwatched
  have hidle : client ∉ pool.idle := by
    rw [hpool]
    exact h.not_idle
  have hqueried : .queried true ∉ seen := hdb
  rw [finish_of_not_idle hidle, hpool]
  refine ⟨⟨?_, hcache.append he, ?_⟩, h.release behind⟩
  · simp [DbSeen, hqueried, hok, eq_comm]
  · rw [List.length_append, List.length_singleton]
    simp only [DbCheck.steps] at hlength ⊢
    omega

lemma coe_erase_of_mem {client : ℕ} {clients : List ℕ} (h : client ∈ clients) :
    (clients : Multiset ℕ) = {client} + (clients.erase client : List ℕ) := by
  rw [Multiset.singleton_add, ← Multiset.coe_erase]
  exact (Multiset.cons_erase (Multiset.mem_coe.mpr h)).symm

lemma ProbeMove.accounted {size : ℕ} {e : ProbeEvent} {desk desk' : Desk} {probe probe' : Probe}
    {others : Multiset ℕ × ℕ} (hmove : ProbeMove desk e probe desk' probe')
    (hwatched : Watched probe) (h : Accounted size desk (holds probe + others)) :
    Watched probe' ∧ Accounted size desk' (holds probe' + others) := by
  cases hmove with
  | request =>
    refine ⟨⟨List.not_mem_nil, List.not_mem_nil, Nat.zero_le _⟩, h.clients, ?_, h.responses⟩
    have hrequests := h.requests
    simp only [holds, Prod.snd_add, Prod.snd_zero] at hrequests ⊢
    omega
  | @respond seen db cache response hready =>
    rw [holds_of_ready hready] at h
    refine ⟨trivial, h.clients, ?_, fun answered hmem => ?_⟩
    · have hrequests := h.requests
      simp only [holds, Prod.snd_add, Prod.snd_zero, List.length_append,
        List.length_singleton] at hrequests ⊢
      omega
    · rcases List.mem_append.mp hmem with hold | hnew
      · exact h.responses answered hold
      · rw [List.mem_singleton.mp hnew]
        exact fits_of_ready hwatched hready
  | @ping e seen db cacheOk hcache =>
    obtain ⟨hdb, hseen, hlength⟩ := hwatched
    obtain ⟨hseen', he⟩ := hseen.ping hcache
    refine ⟨⟨hdb.append he, hseen', ?_⟩, ?_⟩
    · rw [List.length_append, List.length_singleton]
      exact Nat.succ_le_succ hlength
    · cases db <;> exact h
  | @connect seen cache client since hidle =>
    obtain ⟨hdb, hcache, hlength⟩ := hwatched
    have hracing : DbSeen seen (.racing client desk.pool.now) := hdb
    refine ⟨⟨hracing.append ProbeEvent.noConfusion, hcache.append ProbeEvent.noConfusion, ?_⟩,
      ?_, h.requests, h.responses⟩
    · rw [List.length_append, List.length_singleton]
      simp only [DbCheck.steps] at hlength ⊢
      omega
    · have hclients := h.clients
      rw [coe_erase_of_mem hidle] at hclients
      rw [← hclients]
      simp only [holds, Prod.fst_add, zero_add]
      abel
  | @refuse seen cache since =>
    obtain ⟨hdb, hcache, hlength⟩ := hwatched
    have hqueried : .queried true ∉ seen := hdb
    refine ⟨⟨?_, hcache.append ProbeEvent.noConfusion, ?_⟩, h⟩
    · simp [DbSeen, hqueried]
    · rw [List.length_append, List.length_singleton]
      simp only [DbCheck.steps] at hlength ⊢
      omega
  | @query seen cache client since ok hfirst =>
    refine Accounted.settle ProbeEvent.noConfusion ?_ hwatched h rfl
    simp
  | @timeout seen cache client since hdue =>
    exact Accounted.settle ProbeEvent.noConfusion (by simp) hwatched h rfl

lemma Accounted.poolStep {size : ℕ} {e : PoolEvent} {desk : Desk} {pool : Pool}
    {total : Multiset ℕ × ℕ} (h : Accounted size desk total)
    (hstep : poolStep e desk.pool = some pool) :
    Accounted size { desk with pool := pool } total := by
  have hclients := h.clients
  refine ⟨?_, h.requests, h.responses⟩
  cases e with
  | pass ms =>
    cases hstep
    exact hclients
  | lend client =>
    obtain ⟨hidle, hd⟩ := Option.ite_none_right_eq_some.mp hstep
    cases hd
    rw [coe_erase_of_mem hidle] at hclients
    rw [← hclients, ← Multiset.cons_coe, ← Multiset.singleton_add]
    abel
  | restore client =>
    obtain ⟨hlent, hd⟩ := Option.ite_none_right_eq_some.mp hstep
    cases hd
    rw [coe_erase_of_mem hlent] at hclients
    rw [← hclients, ← Multiset.cons_coe, ← Multiset.singleton_add]
    abel
  | late client =>
    obtain ⟨-, hd⟩ := Option.ite_none_left_eq_some.mp hstep
    cases hd
    exact hclients

section Runs
variable {ι : Type*} [DecidableEq ι]

/-- In every interleaving each request is answered once or under way, with what its probe has
seen: `READY` exactly when its query was answered before its timer and Redis answered `PONG`.
No client gets lost, none is handed out twice, and no release fails. -/
theorem probes_accounted [Fintype ι] {size : ℕ} {d : Desk × (ι → Probe)}
    (h : (probes.system ι).Reaches (opened size, fun _ => .free) d) :
    d.1.requests = d.1.responses.length + ∑ i, (holds (d.2 i)).2 ∧
      (∀ seen response, (seen, response) ∈ d.1.responses → seen.length ≤ 3 ∧
        response = report (.queried true ∈ seen) (pong ∈ seen)) ∧
      (d.1.pool.idle : Multiset ℕ) + d.1.pool.lent + ∑ i, (holds (d.2 i)).1 =
        List.range size := by
  have haccounted : Accounted size d.1 (∑ i, holds (d.2 i)) := by
    refine (Threads.total_invariant Watched holds (Accounted size) ?_ ?_ h ?_ ?_).2
    · intro e desk probe desk' probe' others hwatched hdesk hstep
      exact (probeMove_of_step hstep).accounted hwatched hdesk
    · intro e desk desk' total hdesk hstep
      obtain ⟨pool, hpool, rfl⟩ := Option.map_eq_some_iff.mp hstep
      exact hdesk.poolStep hpool
    · exact fun _ => trivial
    · refine ⟨?_, ?_, fun answered hmem => ?_⟩
      · simp [opened, holds]
      · simp [opened, holds]
      · cases hmem
  have hclients := haccounted.clients
  have hrequests := haccounted.requests
  rw [Prod.fst_sum] at hclients
  rw [Prod.snd_sum] at hrequests
  exact ⟨hrequests, fun seen response hmem => haccounted.responses _ hmem, hclients⟩

/-- Two probes share a client: the first one's timer wins, the second is given the client. -/
def hungQuery : List (Bool × ProbeEvent ⊕ PoolEvent) :=
  [.inl (false, .request), .inl (false, .connected 0), .inl (true, .request),
    .inr (.pass dbTimeoutMs), .inl (false, .timeout), .inl (true, .connected 0),
    .inl (false, .pinged (js "PONG")), .inl (false, .respond)]

theorem probes_accounted_hungQuery : ∃ d : Desk × (Bool → Probe),
    (probes.system Bool).run hungQuery (opened 1, fun _ => .free) = some d ∧
    d.1.responses.map (fun answered => (answered.1, answered.2.status)) =
      [([.connected 0, .timeout, pong], 503)] ∧
    d.1.requests = d.1.responses.length + ∑ i, (holds (d.2 i)).2 ∧
    (∀ seen response, (seen, response) ∈ d.1.responses → seen.length ≤ 3 ∧
      response = report (.queried true ∈ seen) (pong ∈ seen)) ∧
    (d.1.pool.idle : Multiset ℕ) + d.1.pool.lent + ∑ i, (holds (d.2 i)).1 = List.range 1 := by
  have hrun : ((probes.system Bool).run hungQuery (opened 1, fun _ => .free)).map
      (fun d => d.1.responses.map fun answered => (answered.1, answered.2.status)) =
        some [([.connected 0, .timeout, pong], 503)] := by decide +kernel
  obtain ⟨d, hd, hresponses⟩ := Option.map_eq_some_iff.mp hrun
  exact ⟨d, hd, hresponses, probes_accounted ⟨hungQuery, hd⟩⟩

end Runs

end UrlShortener.HealthProbe
