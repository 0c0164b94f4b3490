import UrlShortener.RateLimiter

/-! Any number of invocations of `rateLimiter` for one client: how they are numbered within
a lifetime of the key, and which of them move its window. -/
namespace UrlShortener.RateLimiter
open Transition

/-- An invocation with the lifetime of the key that its INCR fell in and the count that the
INCR returned. -/
structure Client where
  inv : Invocation
  ticket : Option (ℕ × ℕ)
  deriving DecidableEq

def clientStep (config : Config) (e : Event) (s : Store) (l : Client) : Option (Store × Client) :=
  if e.Healthy l.inv then
    (limiterStep config e s l.inv).map fun d =>
      (d.1, ⟨d.2, if l.inv = .starting then some (s.dropped, s.incr.count) else l.ticket⟩)
  else none

/-- The invocations of all processes; between their commands time passes. -/
def clients (config : Config) : Threads Store Client Event ℕ where
  step := clientStep config
  env ms s := some (s.pass ms)

variable {ι : Type} [DecidableEq ι] {config : Config}

/-- The key does not exist and no command has been sent. -/
def opened (now : ℕ) : Store × (ι → Client) := (⟨now, none, 0⟩, fun _ => ⟨.starting, none⟩)

/-- The commands that an invocation may still have to send. -/
def Invocation.awaits : Invocation → ℕ
  | .starting => 4
  | .counted _ => 3
  | .expireSent _ => 2
  | .extending _ => 1
  | .passed _ | .refused _ _ => 0

/-- Between its first command and its last one. -/
def Invocation.InFlight : Invocation → Prop
  | .counted _ | .expireSent _ | .extending _ => True
  | _ => False

/-- What the number of an invocation says about its answer. -/
def Client.Judged (config : Config) (l : Client) : Prop :=
  match l.inv with
  | .starting => l.ticket = none
  | .counted count | .expireSent count => ∃ life number, count = some number ∧
      l.ticket = some (life, number)
  | .extending count => ∃ life, l.ticket = some (life, count)
  | .passed headers => ∃ life number h, l.ticket = some (life, number) ∧
      number ≤ config.RATE_LIMIT_MAX ∧ headers = some h ∧
      h.remaining = max 0 ((config.RATE_LIMIT_MAX : ℤ) - number)
  | .refused headers _ => ∃ life number, l.ticket = some (life, number) ∧
      config.RATE_LIMIT_MAX < number ∧
      headers.remaining = max 0 ((config.RATE_LIMIT_MAX : ℤ) - number)

/-! What a command does to the key. -/

lemma Store.expire_lifetime (s : Store) (seconds : ℕ) (nx : Bool) :
    ((s.expire seconds nx).dropped = s.dropped ∧ (s.expire seconds nx).count = s.count) ∨
      ((s.expire seconds nx).dropped = s.dropped + 1 ∧ (s.expire seconds nx).count = 0) := by
  fun_cases Store.expire s seconds nx with
  | case1 | case2 => exact .inl ⟨rfl, rfl⟩
  | case3 => exact .inr ⟨rfl, rfl⟩
  | case4 c hc => exact .inl ⟨rfl, by simp [Store.count, hc]⟩

lemma Store.pass_lifetime (s : Store) (ms : ℕ) :
    ((s.pass ms).dropped = s.dropped ∧ (s.pass ms).count = s.count) ∨
      ((s.pass ms).dropped = s.dropped + 1 ∧ (s.pass ms).count = 0) := by
  rw [Store.pass]
  split_ifs
  · exact .inr ⟨rfl, rfl⟩
  · exact .inl ⟨rfl, rfl⟩

/-- But for INCR a command leaves the count or ends the lifetime. -/
lemma Move.lifetime {s s' : Store} {inv inv' : Invocation} (h : Move config s inv s' inv')
    (hinv : inv ≠ .starting) : (s'.dropped = s.dropped ∧ s'.count = s.count) ∨
      (s'.dropped = s.dropped + 1 ∧ s'.count = 0) := by
  cases h with
  | incr => exact absurd rfl hinv
  | expire hs =>
    rcases hs with rfl | rfl
    · exact .inl ⟨rfl, rfl⟩
    · exact s.expire_lifetime _ _
  | abandon | extend | judge => exact .inl ⟨rfl, rfl⟩
  | judgeExtended => exact s.expire_lifetime _ _

lemma Move.of_starting {s s' : Store} {inv' : Invocation}
    (h : Move config s .starting s' inv') : s' = s.incr := by
  cases h
  rfl

/-- The answer that follows a count, with the remaining quota. -/
lemma verdict_remaining (config : Config) (count : ℕ) (ttl : Option ℤ) (e : Event) :
    (count ≤ config.RATE_LIMIT_MAX ∧ ∃ h, verdict config count ttl e = .passed (some h) ∧
        h.remaining = max 0 ((config.RATE_LIMIT_MAX : ℤ) - count)) ∨
      (config.RATE_LIMIT_MAX < count ∧ ∃ h retryAfter,
        verdict config count ttl e = .refused h retryAfter ∧
        h.remaining = max 0 ((config.RATE_LIMIT_MAX : ℤ) - count)) := by
  by_cases h : count > config.RATE_LIMIT_MAX
  · exact .inr ⟨h, _, _, if_pos h, rfl⟩
  · exact .inl ⟨not_lt.mp h, _, if_neg h, rfl⟩

/-- A step of an invocation, and what becomes of its ticket. -/
lemma move_of_clientStep {e : Event} {s s' : Store} {l l' : Client}
    (h : clientStep config e s l = some (s', l')) : Move config s l.inv s' l'.inv ∧
      l'.ticket = if l.inv = .starting then some (s.dropped, s.count + 1) else l.ticket := by
  rw [clientStep] at h
  split at h
  case isFalse => cases h
  case isTrue he =>
    obtain ⟨⟨s₁, inv₁⟩, hstep, heq⟩ := Option.map_eq_some_iff.mp h
    cases heq
    exact ⟨move_of_step he hstep, rfl⟩

lemma judged_of_verdict {count life : ℕ} {ttl : Option ℤ} {e : Event} {l : Client}
    (hinv : l.inv = verdict config count ttl e) (hticket : l.ticket = some (life, count)) :
    l.Judged config := by
  obtain ⟨hle, h, hv, hr⟩ | ⟨hlt, h, retryAfter, hv, hr⟩ :=
    verdict_remaining config count ttl e
  · rw [Client.Judged, hinv, hv]
    exact ⟨life, count, h, hticket, hle, rfl, hr⟩
  · rw [Client.Judged, hinv, hv]
    exact ⟨life, count, hticket, hlt, hr⟩

lemma Client.Judged.step {e : Event} {s s' : Store} {l l' : Client} (hl : l.Judged config)
    (h : clientStep config e s l = some (s', l')) : l'.Judged config := by
  obtain ⟨hmove, hticket⟩ := move_of_clientStep h
  obtain ⟨inv, ticket⟩ := l
  obtain ⟨inv', ticket'⟩ := l'
  dsimp only at hmove hticket
  cases hmove with
  | incr => exact ⟨_, _, rfl, hticket⟩
  | expire =>
    obtain ⟨life, number, rfl, hl⟩ := hl
    exact ⟨life, number, rfl, hticket.trans hl⟩
  | abandon =>
    obtain ⟨life, number, hcount, -⟩ := hl
    cases hcount
  | extend =>
    obtain ⟨life, number, hcount, hl⟩ := hl
    cases hcount
    exact ⟨life, hticket.trans hl⟩
  | judge =>
    obtain ⟨life, number, hcount, hl⟩ := hl
    cases hcount
    exact judged_of_verdict rfl (hticket.trans hl)
  | judgeExtended =>
    obtain ⟨life, hl⟩ := hl
    exact judged_of_verdict rfl (hticket.trans hl)

/-! Numbering. -/

/-- `counts` says how many invocations have met each lifetime of the key so far. -/
structure Numbered (counts : ℕ → ℕ) (s : Store) (tickets : ι → Option (ℕ × ℕ)) : Prop where
  current : counts s.dropped = s.count
  future : ∀ life, s.dropped < life → counts life = 0
  taken : ∀ life number, (∃ i, tickets i = some (life, number)) ↔
    1 ≤ number ∧ number ≤ counts life
  unique : ∀ i j t, tickets i = some t → tickets j = some t → i = j

variable {counts : ℕ → ℕ} {s s' : Store} {tickets : ι → Option (ℕ × ℕ)}

omit [DecidableEq ι] in
/-- The numbering when no INCR is served. -/
lemma Numbered.store (hc : Numbered counts s tickets)
    (hs : (s'.dropped = s.dropped ∧ s'.count = s.count) ∨
      (s'.dropped = s.dropped + 1 ∧ s'.count = 0)) : Numbered counts s' tickets := by
  refine ⟨?_, fun life hlife => ?_, hc.taken, hc.unique⟩
  · rcases hs with ⟨hd, hn⟩ | ⟨hd, hn⟩
    · rw [hd, hn, hc.current]
    · rw [hd, hn, hc.future _ (by omega)]
  · apply hc.future
    omega

omit [DecidableEq ι] in
/-- The next number of the current lifetime is not yet taken. -/
lemma Numbered.fresh (hc : Numbered counts s tickets) (i : ι) :
    tickets i ≠ some (s.dropped, s.count + 1) := by
  intro hi
  have hle := ((hc.taken _ _).mp ⟨i, hi⟩).2
  rw [hc.current] at hle
  omega

lemma exists_update_iff {τ : Type*} {f : ι → Option τ} {i : ι} (hi : f i = none) {t u : τ} :
    (∃ j, Function.update f i (some t) j = some u) ↔ u = t ∨ ∃ j, f j = some u := by
  constructor
  · intro ⟨j, hj⟩
    by_cases hji : j = i
    · subst hji
      rw [Function.update_self] at hj
      exact .inl (Option.some.inj hj).symm
    · rw [Function.update_of_ne hji] at hj
      exact .inr ⟨j, hj⟩
  · intro h
    rcases h with rfl | ⟨j, hj⟩
    · exact ⟨i, Function.update_self _ _ _⟩
    · have hji : j ≠ i := by
        rintro rfl
        simp [hi] at hj
      exact ⟨j, by rwa [Function.update_of_ne hji]⟩

lemma unique_update {τ : Type*} {f : ι → Option τ} {t : τ} (hfresh : ∀ j, f j ≠ some t)
    (hunique : ∀ j k u, f j = some u → f k = some u → j = k) (i j k : ι) (u : τ)
    (hj : Function.update f i (some t) j = some u)
    (hk : Function.update f i (some t) k = some u) : j = k := by
  by_cases hji : j = i <;> by_cases hki : k = i
  · rw [hji, hki]
  · subst hji
    rw [Function.update_self] at hj
    rw [Function.update_of_ne hki, ← hj] at hk
    exact absurd hk (hfresh k)
  · subst hki
    rw [Function.update_self] at hk
    rw [Function.update_of_ne hji, ← hk] at hj
    exact absurd hj (hfresh j)
  · rw [Function.update_of_ne hji] at hj
    rw [Function.update_of_ne hki] at hk
    exact hunique j k u hj hk

/-- INCR hands out the next number of the current lifetime. -/
lemma Numbered.incr {i : ι} (hc : Numbered counts s tickets) (hi : tickets i = none) :
    Numbered (Function.update counts s.dropped (s.count + 1)) s.incr
      (Function.update tickets i (some (s.dropped, s.count + 1))) := by
  refine ⟨Function.update_self _ _ _, fun life hlife => ?_, fun life number => ?_,
    unique_update hc.fresh hc.unique i⟩
  · have hne : life ≠ s.dropped := ne_of_gt hlife
    rw [Function.update_of_ne hne]
    exact hc.future life hlife
  · rw [exists_update_iff hi, hc.taken, Prod.mk.injEq]
    by_cases hlife : life = s.dropped
    · subst hlife
      rw [Function.update_self, hc.current]
      omega
    · rw [Function.update_of_ne hlife]
      simp [hlife]

/-! Expiry. -/

/-- A key that would live for ever is in the hands of an invocation that has not ended. -/
def Watched (c : Store × (ι → Client)) : Prop :=
  ∀ k, c.1.counter = some k → k.expireAt = none → ∃ i, (c.2 i).inv.InFlight

omit [DecidableEq ι] in
lemma Watched.of_inFlight {c : Store × (ι → Client)} {i : ι} (h : (c.2 i).inv.InFlight) :
    Watched c := fun _ _ _ => ⟨i, h⟩

lemma Store.expire_expires {s : Store} {seconds : ℕ} {nx : Bool} {k : Counter}
    (h : (s.expire seconds nx).counter = some k) : k.expireAt ≠ none := by
  revert h
  fun_cases Store.expire s seconds nx with
  | case1 hnone => simp [hnone]
  | case2 c hc hset =>
    intro h
    obtain rfl : c = k := Option.some.inj (hc.symm.trans h)
    simp only [Bool.and_eq_true] at hset
    exact Option.isSome_iff_ne_none.mp hset.2
  | case3 => simp [Store.drop]
  | case4 c hc =>
    intro h
    obtain rfl := Option.some.inj h
    exact Option.some_ne_none _

lemma Store.ttl_of_unexpiring {s : Store} {k : Counter} (hk : s.counter = some k)
    (h : k.expireAt = none) : s.ttl = -1 := by
  obtain ⟨count, expireAt⟩ := k
  obtain rfl : expireAt = none := h
  rw [Store.ttl, hk]

/-- After its step an invocation is in flight, or the key has an expiry. -/
lemma inFlight_or_expires {e : Event} {s s' : Store} {l l' : Client} (hl : l.Judged config)
    (h : clientStep config e s l = some (s', l')) :
    l'.inv.InFlight ∨ ∀ k, s'.counter = some k → k.expireAt ≠ none := by
  obtain ⟨hmove, -⟩ := move_of_clientStep h
  obtain ⟨inv, ticket⟩ := l
  obtain ⟨inv', ticket'⟩ := l'
  dsimp only at hmove
  cases hmove with
  | incr | expire | extend => exact .inl trivial
  | abandon =>
    obtain ⟨life, number, hcount, -⟩ := hl
    cases hcount
  | judge httl => exact .inr fun k hk hnone => httl (Store.ttl_of_unexpiring hk hnone)
  | judgeExtended => exact .inr fun k hk => Store.expire_expires hk

/-! The invariant of every reachable state. -/

def ticketsOf (l : ι → Client) : ι → Option (ℕ × ℕ) := fun i => (l i).ticket

structure Fair (config : Config) (c : Store × (ι → Client)) : Prop where
  judged : ∀ i, (c.2 i).Judged config
  numbered : ∃ counts, Numbered counts c.1 (ticketsOf c.2)
  watched : Watched c

lemma ticketsOf_update (l : ι → Client) (i : ι) (l' : Client) :
    ticketsOf (Function.update l i l') = Function.update (ticketsOf l) i l'.ticket := by
  funext j
  by_cases hji : j = i
  · subst hji
    simp [ticketsOf]
  · simp [ticketsOf, hji]

lemma Fair.thread {c : Store × (ι → Client)} {i : ι} {e : Event} {s' : Store} {l' : Client}
    (hc : Fair config c) (h : clientStep config e c.1 (c.2 i) = some (s', l')) :
    Fair config (s', Function.update c.2 i l') := by
  obtain ⟨hmove, hticket⟩ := move_of_clientStep h
  refine ⟨fun j => ?_, ?_, ?_⟩
  · by_cases hji : j = i
    · subst hji
      simpa using (hc.judged j).step h
    · simpa [hji] using hc.judged j
  · obtain ⟨counts, hcounts⟩ := hc.numbered
    rw [ticketsOf_update]
    by_cases hinv : (c.2 i).inv = .starting
    · have hi : (c.2 i).ticket = none := by
        have hj := hc.judged i
        rwa [Client.Judged, hinv] at hj
      rw [hinv] at hmove
      obtain rfl : s' = c.1.incr := hmove.of_starting
      rw [hticket, if_pos hinv]
      exact ⟨_, hcounts.incr hi⟩
    · rw [if_neg hinv] at hticket
      have hsame : Function.update (ticketsOf c.2) i l'.ticket = ticketsOf c.2 := by
        rw [hticket]
        exact Function.update_eq_self i _
      rw [hsame]
      exact ⟨counts, hcounts.store (hmove.lifetime hinv)⟩
  · rcases inFlight_or_expires (hc.judged i) h with hflight | hexpires
    · exact .of_inFlight (i := i) (by simpa using hflight)
    · exact fun k hk hnone => absurd hnone (hexpires k hk)

omit [DecidableEq ι] in
lemma Fair.pass {c : Store × (ι → Client)} (hc : Fair config c) (ms : ℕ) :
    Fair config (c.1.pass ms, c.2) := by
  obtain ⟨counts, hcounts⟩ := hc.numbered
  refine ⟨hc.judged, ⟨counts, hcounts.store (c.1.pass_lifetime ms)⟩, fun k hk => ?_⟩
  apply hc.watched k
  revert hk
  simp only [Store.pass]
  split_ifs
  · simp [Store.drop]
  · exact id

omit [DecidableEq ι] in
lemma opened_fair (config : Config) (now : ℕ) :
    Fair config (opened now : Store × (ι → Client)) := by
  have hnone : ∀ i t, ticketsOf (opened now : Store × (ι → Client)).2 i ≠ some t :=
    fun _ _ => nofun
  refine ⟨fun _ => rfl, ⟨fun _ => 0, rfl, fun _ _ => rfl, fun life number => ?_, ?_⟩, nofun⟩
  · refine iff_of_false (fun ⟨i, hi⟩ => hnone i _ hi) ?_
    omega
  · exact fun i _ t hi => absurd hi (hnone i t)

theorem fair_of_reaches {now : ℕ} {d : Store × (ι → Client)}
    (h : ((clients config).system ι).Reaches (opened now) d) : Fair config d := by
  refine h.invariant (fun a c d hc hn => ?_) (opened_fair config now)
  cases a with
  | inl a =>
    obtain ⟨i, e⟩ := a
    obtain ⟨s', l', hs, rfl⟩ := Threads.next_thread hn
    exact hc.thread hs
  | inr ms =>
    obtain ⟨s', hs, rfl⟩ := Threads.next_env hn
    cases hs
    exact hc.pass ms

lemma verdict_awaits (config : Config) (count : ℕ) (ttl : Option ℤ) (e : Event) :
    (verdict config count ttl e).awaits = 0 := by
  rcases verdict_remaining config count ttl e with ⟨-, h, hv, -⟩ | ⟨-, h, retryAfter, hv, -⟩
  · rw [hv]
    rfl
  · rw [hv]
    rfl

/-- A served command takes an invocation forward, whatever the key holds. -/
theorem limiterStep_served (config : Config) {e : Event} (s : Store) {inv : Invocation}
    (he : e.served = .ok) (hinv : inv.awaits ≠ 0) :
    ∃ s' inv', limiterStep config e s inv = some (s', inv') ∧ inv'.awaits < inv.awaits := by
  cases inv with
  | starting => exact ⟨_, _, by simp only [limiterStep, he]; rfl, by simp [Invocation.awaits]⟩
  | counted count =>
    exact ⟨_, _, by simp only [limiterStep, he]; rfl, by simp [Invocation.awaits]⟩
  | expireSent count =>
    cases count with
    | none => exact ⟨s, .passed none, rfl, by simp [Invocation.awaits]⟩
    | some count =>
      by_cases httl : s.ttl = -1
      · exact ⟨s, .extending count, by simp [limiterStep, he, httl], by simp [Invocation.awaits]⟩
      · exact ⟨s, verdict config count (some s.ttl) e, by simp [limiterStep, he, httl],
          by rw [verdict_awaits]; exact Nat.two_pos⟩
  | extending count =>
    exact ⟨_, _, by simp only [limiterStep, he]; rfl, by rw [verdict_awaits]; exact Nat.one_pos⟩
  | passed | refused => exact absurd rfl hinv

lemma invocation_advances {c : Store × (ι → Client)} {i : ι} {e : Event}
    (hi : (c.2 i).inv.awaits ≠ 0) (he : e.served = .ok) :
    ∃ d, ((clients config).system ι).next (.inl (i, e)) c = some d ∧
      (d.2 i).inv.awaits < (c.2 i).inv.awaits := by
  obtain ⟨s', inv', hstep, hlt⟩ := limiterStep_served config c.1 he hi
  have hhealthy : e.Healthy (c.2 i).inv := .inl he
  have hclient : (clients config).step e c.1 (c.2 i) = some (s', ⟨inv',
      if (c.2 i).inv = .starting then some (c.1.dropped, c.1.incr.count)
      else (c.2 i).ticket⟩) := by
    simp [clients, clientStep, hhealthy, hstep]
  exact ⟨_, Threads.next_of_step hclient, by simpa using hlt⟩

/-- Within each lifetime of the key its invocations are numbered from 1 on, an invocation is
answered by its number alone, and a key that no invocation holds has an expiry. -/
theorem fixed_window {now : ℕ} {d : Store × (ι → Client)}
    (h : ((clients config).system ι).Reaches (opened now) d) :
    (∀ life, ∃ n, ∀ number,
      (∃ i, (d.2 i).ticket = some (life, number)) ↔ 1 ≤ number ∧ number ≤ n) ∧
    (∀ i j t, (d.2 i).ticket = some t → (d.2 j).ticket = some t → i = j) ∧
    (∀ i, (d.2 i).Judged config) ∧
    (∀ i e, (d.2 i).inv.awaits ≠ 0 → e.served = .ok →
      ∃ u, ((clients config).system ι).next (.inl (i, e)) d = some u ∧
        (u.2 i).inv.awaits < (d.2 i).inv.awaits) ∧
    ((∀ i, ¬ (d.2 i).inv.InFlight) → ∀ k, d.1.counter = some k → k.expireAt ≠ none) := by
  have hd := fair_of_reaches h
  obtain ⟨counts, hcounts⟩ := hd.numbered
  refine ⟨fun life => ⟨counts life, hcounts.taken life⟩, hcounts.unique, hd.judged,
    fun i e hi he => invocation_advances hi he, fun hended k hk hnone => ?_⟩
  obtain ⟨i, hi⟩ := hd.watched k hk hnone
  exact hended i hi

/-- One request on a server without `NX`: all four commands. -/
def oneFallback : List (Unit × Event ⊕ ℕ) :=
  [.inl ((), ⟨.ok, 0, 0⟩), .inl ((), ⟨.error, 0, 0⟩), .inl ((), ⟨.ok, 0, 0⟩),
    .inl ((), ⟨.ok, 0, 0⟩)]

theorem fixed_window_oneFallback : ∃ d : Store × (Unit → Client),
    ((clients ⟨1, 60⟩).system Unit).run oneFallback (opened 0) = some d ∧
      (d.2 ()).Judged ⟨1, 60⟩ ∧ ∀ k, d.1.counter = some k → k.expireAt ≠ none := by
  have hrun : (((clients ⟨1, 60⟩).system Unit).run oneFallback (opened 0)).map
      (fun d => (d.2 ()).inv) = some (.passed (some ⟨1, 0, 60⟩)) := by decide
  obtain ⟨d, hd, hinv⟩ := Option.map_eq_some_iff.mp hrun
  have hreach : ((clients ⟨1, 60⟩).system Unit).Reaches (opened 0) d := ⟨oneFallback, hd⟩
  obtain ⟨-, -, hjudged, -, hexpires⟩ := fixed_window hreach
  refine ⟨d, hd, hjudged (), hexpires fun _ => ?_⟩
  rw [hinv]
  exact id

/-! The window. -/

/-- The fallback EXPIRE is served for a key that already has an expiry, and another one than
it sets. -/
def LateFallback (config : Config) (c : Store × (ι → Client)) (a : ι × Event ⊕ ℕ) : Prop :=
  ∃ i e count t, a = .inl (i, e) ∧ (c.2 i).inv = .extending count ∧ c.1.expireAt = some t ∧
    0 < config.RATE_LIMIT_WINDOW_SECONDS ∧
    t ≠ c.1.now + 1000 * config.RATE_LIMIT_WINDOW_SECONDS

/-- Once the key has an expiry it keeps it to the end of its lifetime. -/
def WindowKept (c d : Store × (ι → Client)) : Prop :=
  ∀ t, c.1.expireAt = some t → d.1.dropped = c.1.dropped → d.1.expireAt = some t

lemma expire_kept {s : Store} {seconds t : ℕ} (ht : s.expireAt = some t) :
    (s.expire seconds false).dropped = s.dropped ∧ (s.expire seconds false).expireAt ≠ some t ↔
      0 < seconds ∧ t ≠ s.now + 1000 * seconds := by
  obtain ⟨k, hk, hkt⟩ := Option.bind_eq_some_iff.mp ht
  rcases Nat.eq_zero_or_pos seconds with rfl | hpos
  · simp [Store.expire, hk, Store.drop]
  · simp [Store.expire, hk, hpos.ne', Store.expireAt, hpos, eq_comm]

lemma Move.of_extending {s s' : Store} {count : ℕ} {inv' : Invocation}
    (h : Move config s (.extending count) s' inv') :
    s' = s.expire config.RATE_LIMIT_WINDOW_SECONDS false := by
  cases h
  rfl

/-- No other command touches an expiry that is set. -/
lemma Move.expireAt_kept {s s' : Store} {inv inv' : Invocation} {t : ℕ}
    (h : Move config s inv s' inv') (hinv : ∀ count, inv ≠ .extending count)
    (ht : s.expireAt = some t) : s'.expireAt = some t := by
  cases h with
  | incr | abandon | extend | judge => exact ht
  | expire hs =>
    rcases hs with rfl | rfl
    · exact ht
    · obtain ⟨k, hk, hkt⟩ := Option.bind_eq_some_iff.mp ht
      simp [Store.expire, Store.expireAt, hk, hkt]
  | judgeExtended => exact absurd rfl (hinv _)

lemma Store.pass_expireAt {s : Store} {ms : ℕ} (h : (s.pass ms).dropped = s.dropped) :
    (s.pass ms).expireAt = s.expireAt := by
  by_cases hlate : s.expireAt.any (· ≤ s.now + ms)
  · simp [Store.pass, hlate, Store.drop] at h
  · simp only [Store.pass]
    rw [if_neg hlate]
    rfl

/-- A step keeps the window unless it is a late fallback. -/
lemma windowKept_step {a : ι × Event ⊕ ℕ} {c d : Store × (ι → Client)}
    (h : ((clients config).system ι).next a c = some d) :
    WindowKept c d ↔ ¬ LateFallback config c a := by
  cases a with
  | inr ms =>
    obtain ⟨s', hs, rfl⟩ := Threads.next_env h
    cases hs
    refine iff_of_true (fun t ht hd => ?_) (fun ⟨_, _, _, _, ha, _⟩ => nomatch ha)
    rw [Store.pass_expireAt hd, ht]
  | inl a =>
    obtain ⟨i, e⟩ := a
    obtain ⟨s', l', hs, rfl⟩ := Threads.next_thread h
    obtain ⟨hmove, -⟩ := move_of_clientStep hs
    by_cases hinv : ∃ count, (c.2 i).inv = .extending count
    · obtain ⟨count, hinv⟩ := hinv
      rw [hinv] at hmove
      obtain rfl := hmove.of_extending
      constructor
      · rintro hkept ⟨j, e', count', t, ha, -, ht, hlate⟩
        have hmoved := (expire_kept ht).mpr hlate
        exact hmoved.2 (hkept t ht hmoved.1)
      · intro hlate t ht hd
        by_contra hne
        exact hlate ⟨i, e, count, t, rfl, hinv, ht, (expire_kept ht).mp ⟨hd, hne⟩⟩
    · have hother : ∀ count, (c.2 i).inv ≠ .extending count := fun count h => hinv ⟨count, h⟩
      refine iff_of_true (fun t ht _ => hmove.expireAt_kept hother ht) ?_
      rintro ⟨j, e', count, t, ha, hj, -⟩
      cases ha
      exact hother count hj

lemma dropped_mono {a : ι × Event ⊕ ℕ} {c d : Store × (ι → Client)}
    (h : ((clients config).system ι).next a c = some d) : c.1.dropped ≤ d.1.dropped := by
  have hle : ∀ {s s' : Store}, (s'.dropped = s.dropped ∧ s'.count = s.count) ∨
      (s'.dropped = s.dropped + 1 ∧ s'.count = 0) → s.dropped ≤ s'.dropped := by
    omega
  cases a with
  | inr ms =>
    obtain ⟨s', hs, rfl⟩ := Threads.next_env h
    cases hs
    exact hle (c.1.pass_lifetime ms)
  | inl a =>
    obtain ⟨i, e⟩ := a
    obtain ⟨s', l', hs, rfl⟩ := Threads.next_thread h
    obtain ⟨hmove, -⟩ := move_of_clientStep hs
    by_cases hinv : (c.2 i).inv = .starting
    · rw [hinv] at hmove
      obtain rfl := hmove.of_starting
      exact le_rfl
    · exact hle (hmove.lifetime hinv)

/-- A run keeps the window of the key, from each of its states to each later one, exactly
when no late fallback is served in it. -/
theorem window_kept_iff (config : Config) (now : ℕ) (as : List (ι × Event ⊕ ℕ)) :
    (∀ before mid after c d, as = before ++ mid ++ after →
      ((clients config).system ι).run before (opened now) = some c →
      ((clients config).system ι).run mid c = some d → WindowKept c d) ↔
    ∀ before a after c d, as = before ++ a :: after →
      ((clients config).system ι).run before (opened now) = some c →
      ((clients config).system ι).next a c = some d → ¬ LateFallback config c a := by
  constructor
  · intro hkept before a after c d has hc hd
    have hmid : as = before ++ [a] ++ after := by simp [has]
    have hrun : ((clients config).system ι).run [a] c = some d := System.run_cons_of_next hd
    exact (windowKept_step hd).mp (hkept before [a] after c d hmid hc hrun)
  · intro hlate before mid after c d has hc hd
    induction mid generalizing before c with
    | nil =>
      obtain rfl : c = d := by simpa [System.run] using hd
      exact fun t ht _ => ht
    | cons a mid ih =>
      rw [System.run] at hd
      obtain ⟨u, hu, hd⟩ := Option.bind_eq_some_iff.mp hd
      have hstep : WindowKept c u :=
        (windowKept_step hu).mpr (hlate before a (mid ++ after) c u (by simp [has]) hc hu)
      have hbefore : ((clients config).system ι).run (before ++ [a]) (opened now) = some u := by
        rw [System.run_append, hc]
        exact System.run_cons_of_next hu
      have hrest := ih (before ++ [a]) u (by simp [has]) hbefore hd
      have hcu := dropped_mono hu
      have hud : u.1.dropped ≤ d.1.dropped :=
        System.run_invariant (P := fun v => u.1.dropped ≤ v.1.dropped)
          (fun _ _ _ hv hn => hv.trans (dropped_mono hn)) hd le_rfl
      intro t ht hsame
      have hdu : u.1.dropped = c.1.dropped := by omega
      exact hrest t (hstep t ht hdu) (by omega)

/-- Two invocations on a server without `NX`, both of which read that the key has no
expiry; the second sends its fallback a second after the first. -/
def twoFallbacks : List (Bool × Event ⊕ ℕ) :=
  [.inl (false, ⟨.ok, 0, 0⟩), .inl (false, ⟨.error, 0, 0⟩), .inl (false, ⟨.ok, 0, 0⟩),
    .inl (true, ⟨.ok, 0, 0⟩), .inl (true, ⟨.error, 0, 0⟩), .inl (true, ⟨.ok, 0, 0⟩),
    .inl (false, ⟨.ok, 0, 0⟩), .inr 1000, .inl (true, ⟨.ok, 1, 1⟩)]

/-- The window that the first has opened is moved by a second. -/
theorem window_extended : ¬ ∀ before mid after c d, twoFallbacks = before ++ mid ++ after →
    ((clients ⟨100, 60⟩).system Bool).run before (opened 0) = some c →
    ((clients ⟨100, 60⟩).system Bool).run mid c = some d → WindowKept c d := by
  intro hkept
  have hfirst : (((clients ⟨100, 60⟩).system Bool).run (twoFallbacks.take 7) (opened 0)).map
      Prod.fst = some ⟨0, some ⟨2, some 60000⟩, 0⟩ := by decide
  have hboth : (((clients ⟨100, 60⟩).system Bool).run twoFallbacks (opened 0)).map
      Prod.fst = some ⟨1000, some ⟨2, some 61000⟩, 0⟩ := by decide
  obtain ⟨c, hc, hc'⟩ := Option.map_eq_some_iff.mp hfirst
  obtain ⟨d, hd, hd'⟩ := Option.map_eq_some_iff.mp hboth
  rw [← List.take_append_drop 7 twoFallbacks, System.run_append, hc] at hd
  have hmoved := hkept (twoFallbacks.take 7) (twoFallbacks.drop 7) [] c d rfl hc hd
  have h := hmoved 60000 (by rw [hc']; rfl) (by rw [hc', hd'])
  rw [hd'] at h
  exact absurd h (by decide)

end UrlShortener.RateLimiter
