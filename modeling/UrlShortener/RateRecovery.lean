import UrlShortener.RateBurst

/-! A client whose key has an expiry is not locked out for longer than a window, however many of its
requests arrive meanwhile and whatever fails. -/
namespace UrlShortener.RateLimiter
open Transition

variable {config : Config} {e : Event} {s s' : Store}

/-! What the commands do to the expiry. -/

/-- The expiry lies ahead, a window away at most. -/
def Store.Timed (config : Config) (s : Store) : Prop :=
  ∀ t, s.expireAt = some t → s.now < t ∧ t ≤ s.now + config.width

lemma Store.expire_timed (hs : s.Timed config) (nx : Bool) :
    (s.expire config.RATE_LIMIT_WINDOW_SECONDS nx).Timed config := by
  fun_cases Store.expire s config.RATE_LIMIT_WINDOW_SECONDS nx with
  | case1 | case2 => exact hs
  | case3 =>
    intro t ht
    cases ht
  | case4 c hc hnx hpos =>
    intro t ht
    obtain rfl := Option.some.inj ht
    rw [Config.width]
    constructor
    all_goals
      dsimp only
      omega

lemma Store.pass_timed (hs : s.Timed config) (ms : ℕ) : (s.pass ms).Timed config := by
  rw [Store.pass]
  by_cases hlate : s.expireAt.any (· ≤ s.now + ms) = true
  · rw [if_pos hlate]
    intro t ht
    cases ht
  · rw [if_neg hlate]
    intro t ht
    have ht : s.expireAt = some t := ht
    have hle := (hs t ht).2
    have hlt : ¬ t ≤ s.now + ms := by simpa [ht] using hlate
    dsimp only
    omega

/-- An expiry that is set is moved only by the EXPIRE of an invocation which found none, and none
comes to that EXPIRE while the expiry is set. -/
lemma limiterStep_expiry {inv inv' : Invocation}
    (h : limiterStep config e s inv = some (s', inv')) :
    (s' = s ∨ s' = s.incr ∨ s' = s.expire config.RATE_LIMIT_WINDOW_SECONDS true ∨
      ((∃ count, inv = .extending count) ∧
        s' = s.expire config.RATE_LIMIT_WINDOW_SECONDS false)) ∧
      ((∃ count, inv' = .extending count) → s.ttl = -1) := by
  have hverdict : ∀ count ttl e, ¬ ∃ count', verdict config count ttl e = .extending count' := by
    intro count ttl e hextending
    obtain ⟨count', hextending⟩ := hextending
    rcases verdict_eq config count ttl e with ⟨-, headers, hv⟩ | ⟨-, headers, retryAfter, hv⟩
    all_goals
      rw [hv] at hextending
      cases hextending
  revert h
  fun_cases limiterStep config e s inv with
  | case8 count hserved httl =>
    intro h
    cases h
    exact ⟨.inl rfl, fun _ => httl⟩
  | case9 count | case10 count =>
    intro h
    cases h
    exact ⟨.inl rfl, fun hextending => absurd hextending (hverdict _ _ _)⟩
  | case12 count =>
    intro h
    cases h
    exact ⟨.inr (.inr (.inr ⟨⟨_, rfl⟩, rfl⟩)),
      fun hextending => absurd hextending (hverdict _ _ _)⟩
  | case15 | case16 =>
    intro h
    cases h
  | case3 applied | case6 count applied | case14 count applied =>
    intro h
    cases h
    refine ⟨?_, fun hextending => absurd hextending (by simp)⟩
    cases applied <;> simp
  | _ =>
    intro h
    cases h
    exact ⟨by simp, fun hextending => absurd hextending (by simp)⟩

lemma limiterStep_timed {inv inv' : Invocation} (hs : s.Timed config)
    (h : limiterStep config e s inv = some (s', inv')) : s'.Timed config := by
  rcases (limiterStep_expiry h).1 with rfl | rfl | rfl | ⟨-, rfl⟩
  · exact hs
  · exact hs
  · exact Store.expire_timed hs true
  · exact Store.expire_timed hs false

lemma Store.expire_of_set {t : ℕ} (ht : s.expireAt = some t) (seconds : ℕ) :
    s.expire seconds true = s := by
  obtain ⟨k, hk, hkt⟩ := Option.bind_eq_some_iff.mp ht
  simp [Store.expire, hk, hkt]

/-- Where no invocation is about to extend the lifetime of the key, its expiry stands, or the
lifetime is over. -/
lemma limiterStep_standing {inv inv' : Invocation} {t : ℕ} (ht : s.expireAt = some t)
    (hinv : ∀ count, inv ≠ .extending count)
    (h : limiterStep config e s inv = some (s', inv')) :
    s'.dropped = s.dropped ∧ s'.expireAt = some t ∧ ∀ count, inv' ≠ .extending count := by
  obtain ⟨hs, hextending⟩ := limiterStep_expiry h
  have hset : ∀ count, inv' ≠ .extending count := by
    intro count hcount
    obtain ⟨⟨number, expireAt⟩, hk, hkt⟩ := Option.bind_eq_some_iff.mp ht
    obtain rfl : expireAt = some t := hkt
    have httl := hextending ⟨count, hcount⟩
    simp only [Store.ttl, hk] at httl
    omega
  rcases hs with rfl | rfl | rfl | ⟨⟨count, hcount⟩, -⟩
  · exact ⟨rfl, ht, hset⟩
  · exact ⟨rfl, ht, hset⟩
  · rw [Store.expire_of_set ht]
    exact ⟨rfl, ht, hset⟩
  · exact absurd hcount (hinv count)

section Standing
variable {ι : Type} [DecidableEq ι] {now : ℕ} {c d : Store × (ι → Stamped)}

lemma next_invocation {i : ι} (h : ((invocations config).system ι).next (.inl (i, e)) c = some d) :
    ∃ s' inv', limiterStep config e c.1 (c.2 i).inv = some (s', inv') ∧
      d = (s', Function.update c.2 i ⟨inv', nextStamp e c.1 (c.2 i)⟩) := by
  obtain ⟨s', l', hs, rfl⟩ := Threads.next_thread h
  obtain ⟨⟨s₁, inv'⟩, hstep, heq⟩ := Option.map_eq_some_iff.mp hs
  obtain ⟨rfl, rfl⟩ := Prod.mk.inj heq
  exact ⟨s₁, inv', hstep, rfl⟩

lemma timed_of_reaches (h : ((invocations config).system ι).Reaches (unsent now) d) :
    d.1.Timed config := by
  have hstart : (unsent now : Store × (ι → Stamped)).1.Timed config := by
    intro t ht
    obtain ⟨k, hk, -⟩ := Option.bind_eq_some_iff.mp ht
    cases hk
  refine h.invariant (P := fun c => c.1.Timed config) (fun a c d hc hn => ?_) hstart
  cases a with
  | inl a =>
    obtain ⟨i, e⟩ := a
    obtain ⟨s', inv', hstep, rfl⟩ := next_invocation hn
    exact limiterStep_timed hc hstep
  | inr ms =>
    obtain ⟨s', hs, rfl⟩ := Threads.next_env hn
    cases hs
    exact Store.pass_timed hc ms

/-- No invocation is about to send its second EXPIRE. -/
def NoneExtending (c : Store × (ι → Stamped)) : Prop := ∀ i count, (c.2 i).inv ≠ .extending count

lemma dropped_le_of_next {a : ι × Event ⊕ ℕ}
    (h : ((invocations config).system ι).next a c = some d) : c.1.dropped ≤ d.1.dropped := by
  cases a with
  | inl a =>
    obtain ⟨i, e⟩ := a
    obtain ⟨s', inv', hstep, rfl⟩ := next_invocation h
    rcases (limiterStep_expiry hstep).1 with hs | hs | hs | ⟨-, hs⟩
    · exact (congrArg Store.dropped hs).ge
    · exact (congrArg Store.dropped hs).ge
    all_goals
      dsimp only
      rw [hs]
      have hlife := c.1.expire_lifetime config.RATE_LIMIT_WINDOW_SECONDS
      grind
  | inr ms =>
    obtain ⟨s', hs, rfl⟩ := Threads.next_env h
    cases hs
    have hlife := c.1.pass_lifetime ms
    dsimp only
    omega

/-- The lifetimes before `life` are over, or the last of them is to end at `t` and nothing is under
way that moves its expiry. -/
def Ending (life t : ℕ) (c : Store × (ι → Stamped)) : Prop :=
  life ≤ c.1.dropped ∨ (c.1.dropped + 1 = life ∧ c.1.expireAt = some t ∧ NoneExtending c)

lemma Ending.next {a : ι × Event ⊕ ℕ} {life t : ℕ} (hc : Ending life t c)
    (h : ((invocations config).system ι).next a c = some d) : Ending life t d := by
  have hle := dropped_le_of_next h
  rcases hc with hover | ⟨hlife, ht, hnone⟩
  · exact .inl (hover.trans hle)
  cases a with
  | inl a =>
    obtain ⟨i, e⟩ := a
    obtain ⟨s', inv', hstep, rfl⟩ := next_invocation h
    obtain ⟨hdropped, ht', hinv'⟩ := limiterStep_standing ht (hnone i) hstep
    refine .inr ⟨?_, ht', fun j => ?_⟩
    · dsimp only
      omega
    · by_cases hji : j = i
      · subst hji
        simpa using hinv'
      · simpa [hji] using hnone j
  | inr ms =>
    obtain ⟨s', hs, rfl⟩ := Threads.next_env h
    cases hs
    rcases c.1.pass_lifetime ms with ⟨hdropped, -⟩ | ⟨hdropped, -⟩
    · refine .inr ⟨?_, (Store.pass_expireAt hdropped).trans ht, hnone⟩
      dsimp only
      omega
    · left
      dsimp only
      omega

omit [DecidableEq ι] in
lemma Ending.renewed {life t : ℕ} (hc : Ending life t c) (htimed : c.1.Timed config)
    (hlate : t ≤ c.1.now) : life ≤ c.1.dropped := by
  rcases hc with hover | ⟨-, ht, -⟩
  · exact hover
  · have hahead := (htimed t ht).1
    omega

/-- Since `c` the clock has not gone back; an INCR of the lifetimes from `life` on was executed
after `c`, and one executed at `t` or later belongs to one of them. -/
structure Since (c : Store) (life t : ℕ) (d : Store × (ι → Stamped)) : Prop where
  now_le : c.now ≤ d.1.now
  ending : Ending life t d
  later : ∀ i st, (d.2 i).stamp = some st → life ≤ st.life → c.now ≤ st.time
  renewed : ∀ i st, (d.2 i).stamp = some st → t ≤ st.time → life ≤ st.life

lemma limiterStep_now {inv inv' : Invocation}
    (h : limiterStep config e s inv = some (s', inv')) : s'.now = s.now := by
  have hexpire : ∀ nx, (s.expire config.RATE_LIMIT_WINDOW_SECONDS nx).now = s.now := by
    intro nx
    fun_cases Store.expire s config.RATE_LIMIT_WINDOW_SECONDS nx <;> rfl
  rcases (limiterStep_expiry h).1 with rfl | rfl | rfl | ⟨-, rfl⟩
  · rfl
  · rfl
  · exact hexpire true
  · exact hexpire false

lemma Since.next {s : Store} {life t : ℕ} {a : ι × Event ⊕ ℕ} (hc : Since s life t c)
    (htimed : c.1.Timed config) (h : ((invocations config).system ι).next a c = some d) :
    Since s life t d := by
  have hending := hc.ending.next h
  cases a with
  | inl a =>
    obtain ⟨i, e⟩ := a
    obtain ⟨s', inv', hstep, rfl⟩ := next_invocation h
    have hnow : s.now ≤ s'.now := (limiterStep_now hstep).symm ▸ hc.now_le
    -- a stamp is an old one, or that of the INCR which is executed now
    have hstamp : ∀ j st, (Function.update c.2 i ⟨inv', nextStamp e c.1 (c.2 i)⟩ j).stamp =
        some st → (c.2 j).stamp = some st ∨ st = ⟨c.1.now, c.1.dropped, c.1.count + 1⟩ := by
      intro j st hj
      by_cases hji : j = i
      · subst hji
        rw [Function.update_self] at hj
        dsimp only [nextStamp] at hj
        split at hj
        · exact .inr (Option.some.inj hj).symm
        · exact .inl hj
      · rw [Function.update_of_ne hji] at hj
        exact .inl hj
    refine ⟨hnow, hending, fun j st hj hlife => ?_, fun j st hj hlate => ?_⟩
    · rcases hstamp j st hj with hj | rfl
      · exact hc.later j st hj hlife
      · exact hc.now_le
    · rcases hstamp j st hj with hj | rfl
      · exact hc.renewed j st hj hlate
      · exact hc.ending.renewed htimed hlate
  | inr ms =>
    obtain ⟨s', hs, rfl⟩ := Threads.next_env h
    cases hs
    have hnow : c.1.now ≤ (c.1.pass ms).now := by
      rw [Store.pass]
      split_ifs <;> exact Nat.le_add_right _ _
    exact ⟨hc.now_le.trans hnow, hending, hc.later, hc.renewed⟩

/-- From a state in which the key has an expiry, its lifetime is the one that ends. -/
lemma since_expiry (h : ((invocations config).system ι).Reaches (unsent now) c) {t : ℕ}
    (ht : c.1.expireAt = some t) (hnone : NoneExtending c) : Since c.1 (c.1.dropped + 1) t c := by
  have hahead := (timed_of_reaches h t ht).1
  obtain ⟨closed, hpaced⟩ := (sound_of_reaches h).paced
  refine ⟨le_rfl, .inr ⟨rfl, ht, hnone⟩, fun j u hj hlife => ?_, fun j u hj hover => ?_⟩
  · have hle := (hpaced.reached j u hj).1
    omega
  · have hle := (hpaced.reached j u hj).2
    omega

/-- From a state without the key, no INCR of its current lifetime has been executed. -/
lemma since_absent (h : ((invocations config).system ι).Reaches (unsent now) c)
    (hkey : c.1.counter = none) : Since c.1 c.1.dropped (c.1.now + 1) c := by
  obtain ⟨closed, hpaced⟩ := (sound_of_reaches h).paced
  obtain ⟨counts, hcounts⟩ := (sound_of_reaches h).numbered
  have hcount : counts c.1.dropped = 0 := by
    rw [hcounts.current, Store.count, hkey]
    rfl
  refine ⟨le_rfl, .inl le_rfl, fun j u hj hlife => ?_, fun j u hj hover => ?_⟩
  · have hle := (hpaced.reached j u hj).1
    have hticket : ticketsAt c.2 j = some (c.1.dropped, u.number) := by
      rw [ticketsAt, hj, Option.map_some, Stamp.ticket, show u.life = c.1.dropped by omega]
    have htaken := (hcounts.taken _ _).mp ⟨j, hticket⟩
    omega
  · have hle := (hpaced.reached j u hj).2
    omega

/-- A later invocation is refused on account of those since. -/
lemma Since.refused {life t : ℕ} (h : ((invocations config).system ι).Reaches (unsent now) c)
    (hc : Since c.1 life t c) (hrun : ((invocations config).system ι).Reaches c d) {i : ι}
    {headers : Headers} {retryAfter : ℤ} (hi : (d.2 i).inv = .refused headers retryAfter)
    {st : Stamp} (hst : (d.2 i).stamp = some st) (hlate : t ≤ st.time) :
    ∃ S : Finset ι, S.card = config.RATE_LIMIT_MAX ∧ ∀ j ∈ S, ∃ u,
      (d.2 j).stamp = some u ∧ c.1.now ≤ u.time ∧ u.number < st.number := by
  have hend : ((invocations config).system ι).Reaches (unsent now) d ∧ Since c.1 life t d :=
    hrun.invariant (P := fun d => ((invocations config).system ι).Reaches (unsent now) d ∧
      Since c.1 life t d) (fun a u v hu hn => ⟨hu.1.tail hn, hu.2.next (timed_of_reaches hu.1) hn⟩)
      ⟨h, hc⟩
  obtain ⟨hreached, hsince⟩ := hend
  obtain ⟨st', hst', S, hcard, hS⟩ := (sound_of_reaches hreached).exceeded hi
  obtain rfl := Option.some.inj (hst.symm.trans hst')
  have hlife := hsince.renewed i st hst hlate
  refine ⟨S, hcard, fun j hj => ?_⟩
  obtain ⟨u, hu, hsame, hlt⟩ := hS j hj
  exact ⟨u, hu, hsince.later j u hu (hsame ▸ hlife), hlt⟩

/-- A client is not locked out: once its key has an expiry and no invocation is about to extend it,
whoever comes a window length later is refused only on account of as many other requests since.
However many arrive meanwhile and whatever fails, those before do not count. -/
theorem refused_afresh (h : ((invocations config).system ι).Reaches (unsent now) c)
    (hset : c.1.expireAt ≠ none) (hnone : NoneExtending c)
    (hrun : ((invocations config).system ι).Reaches c d) {i : ι} {headers : Headers}
    {retryAfter : ℤ} (hi : (d.2 i).inv = .refused headers retryAfter) {st : Stamp}
    (hst : (d.2 i).stamp = some st) (hlate : c.1.now + config.width ≤ st.time) :
    ∃ S : Finset ι, S.card = config.RATE_LIMIT_MAX ∧ ∀ j ∈ S, ∃ u,
      (d.2 j).stamp = some u ∧ c.1.now ≤ u.time ∧ u.number < st.number := by
  obtain ⟨t, ht⟩ := Option.ne_none_iff_exists'.mp hset
  have hwithin := (timed_of_reaches h t ht).2
  exact (since_expiry h ht hnone).refused h hrun hi hst (hwithin.trans hlate)

/-- A quota of one in each second: the first request is still under way when its key has an
expiry. -/
def expirySet : List (Option Bool × Event ⊕ ℕ) :=
  [.inl (none, ⟨.ok, 0, 0⟩), .inl (none, ⟨.ok, 0, 0⟩)]

/-- Two more requests come a second later. -/
def secondLater : List (Option Bool × Event ⊕ ℕ) :=
  [.inr 1000, .inl (none, ⟨.lost false, 1, 1⟩), .inl (some false, ⟨.ok, 1, 1⟩),
    .inl (some true, ⟨.ok, 1, 1⟩), .inl (some true, ⟨.ok, 1, 1⟩), .inl (some true, ⟨.ok, 1, 1⟩)]

theorem refused_afresh_secondLater : ∃ c d : Store × (Option Bool → Stamped),
    ((invocations ⟨1, 1⟩).system (Option Bool)).run expirySet (unsent 0) = some c ∧
      ((invocations ⟨1, 1⟩).system (Option Bool)).run secondLater c = some d ∧
      ∃ S : Finset (Option Bool), S.card = 1 ∧ ∀ j ∈ S, ∃ u,
        (d.2 j).stamp = some u ∧ c.1.now ≤ u.time ∧ u.number < 2 := by
  have hrun : (((invocations ⟨1, 1⟩).system (Option Bool)).run expirySet (unsent 0)).map
      (fun c => (c.1, (c.2 none).inv, (c.2 (some false)).inv, (c.2 (some true)).inv)) =
      some (⟨0, some ⟨1, some 1000⟩, 0⟩, .expireSent (some 1), .starting, .starting) := by decide
  have hlater : (((invocations ⟨1, 1⟩).system (Option Bool)).run (expirySet ++ secondLater)
      (unsent 0)).map (fun d => d.2 (some true)) =
      some ⟨.refused ⟨1, 0, 2⟩ 1, some ⟨1000, 1, 2⟩⟩ := by decide
  obtain ⟨c, hc, hstate⟩ := Option.map_eq_some_iff.mp hrun
  obtain ⟨hstore, hrest⟩ := Prod.mk.inj hstate
  obtain ⟨hnone, hrest⟩ := Prod.mk.inj hrest
  obtain ⟨hfalse, htrue⟩ := Prod.mk.inj hrest
  rw [System.run_append, hc, Option.bind_some] at hlater
  obtain ⟨d, hd, hrefused⟩ := Option.map_eq_some_iff.mp hlater
  have hstill : NoneExtending c := by
    intro i count hi
    rcases i with - | (- | -)
    · rw [hnone] at hi
      cases hi
    · rw [hfalse] at hi
      cases hi
    · rw [htrue] at hi
      cases hi
  have hset : c.1.expireAt ≠ none := by
    rw [hstore]
    decide
  have hlate : c.1.now + Config.width ⟨1, 1⟩ ≤ 1000 := by
    rw [hstore]
    decide
  exact ⟨c, d, hc, hd, refused_afresh ⟨expirySet, hc⟩ hset hstill ⟨secondLater, hd⟩
    (congrArg Stamped.inv hrefused) (congrArg Stamped.stamp hrefused) hlate⟩

/-! What the answer 429 says. -/

/-- The seconds from the reading of `ttl` to the time that the answer names. -/
lemma wait_of_refused {count : ℕ} {ttl : ℤ} {headers : Headers} {retryAfter : ℤ}
    (h : verdict config count (some ttl) e = .refused headers retryAfter) :
    retryAfter + (e.later - e.clock) =
      if ttl > 0 then ttl else (config.RATE_LIMIT_WINDOW_SECONDS : ℤ) := by
  unfold verdict at h
  dsimp only [Option.elim_some] at h
  split_ifs at h with hover hpos
  all_goals
    obtain ⟨-, rfl⟩ := Invocation.refused.inj h
    split_ifs
    omega

/-- Where the last command of a refused invocation is served, the key is gone or it expires less
than half a second after the time that the answer names. -/
lemma expiry_of_refused {inv : Invocation} {headers : Headers} {retryAfter : ℤ}
    (h : limiterStep config e s inv = some (s', .refused headers retryAfter))
    (he : e.served = .ok) (hs : s.Timed config) :
    0 ≤ retryAfter + (e.later - e.clock) ∧ (s'.counter = none ∨ ∃ t, s'.expireAt = some t ∧
      (t : ℤ) < s'.now + 1000 * (retryAfter + (e.later - e.clock)) + 500) := by
  cases inv with
  | starting | counted count =>
    simp only [limiterStep, he] at h
    cases h
  | passed headers | refused headers retryAfter => cases h
  | expireSent count =>
    cases count with
    | none => cases h
    | some count =>
      simp only [limiterStep, he] at h
      split_ifs at h with hunset
      · cases h
      obtain ⟨rfl, hverdict⟩ := Prod.mk.inj (Option.some.inj h)
      have hwait := wait_of_refused hverdict
      rw [hwait]
      cases hkey : s.counter with
      | none =>
        refine ⟨?_, .inl rfl⟩
        split_ifs <;> omega
      | some k =>
        obtain ⟨number, expireAt⟩ := k
        cases expireAt with
        | none => exact absurd (by simp [Store.ttl, hkey]) hunset
        | some t =>
          have ht : s.expireAt = some t := by simp [Store.expireAt, hkey]
          have httl : s.ttl = ((t - s.now + 500) / 1000 : ℕ) := by simp [Store.ttl, hkey]
          obtain ⟨hahead, hwithin⟩ := hs t ht
          rw [Config.width] at hwithin
          rw [httl]
          refine ⟨?_, .inr ⟨t, ht, ?_⟩⟩
          · split_ifs <;> omega
          · split_ifs <;> omega
  | extending count =>
    simp only [limiterStep, he] at h
    obtain ⟨rfl, hverdict⟩ := Prod.mk.inj (Option.some.inj h)
    have hwait := wait_of_refused hverdict
    rw [if_neg (by norm_num)] at hwait
    rw [hwait]
    refine ⟨Int.natCast_nonneg _, ?_⟩
    fun_cases Store.expire s config.RATE_LIMIT_WINDOW_SECONDS false with
    | case1 hkey => exact .inl hkey
    | case2 k hkey hnx => simp at hnx
    | case3 k hkey hnx hzero => exact .inl rfl
    | case4 k hkey hnx hpos =>
      refine .inr ⟨_, rfl, ?_⟩
      dsimp only
      push_cast
      omega

/-- The answer 429 keeps its word: where the last command of a refused invocation is served and no
other one is about to extend the lifetime of the key, whoever comes half a second after the wait
that the answer names, counted from its first reading of the clock, is refused only on account of
as many other requests since the refusal. -/
theorem retry_after_suffices (h : ((invocations config).system ι).Reaches (unsent now) c) {i : ι}
    (hn : ((invocations config).system ι).next (.inl (i, e)) c = some d) (he : e.served = .ok)
    {headers : Headers} {retryAfter : ℤ} (hi : (d.2 i).inv = .refused headers retryAfter)
    (hnone : NoneExtending d) {f : Store × (ι → Stamped)}
    (hrun : ((invocations config).system ι).Reaches d f) {j : ι} {headers' : Headers}
    {retryAfter' : ℤ} (hj : (f.2 j).inv = .refused headers' retryAfter') {st : Stamp}
    (hst : (f.2 j).stamp = some st)
    (hlate : d.1.now + 1000 * (retryAfter + (e.later - e.clock)) + 500 ≤ st.time) :
    ∃ S : Finset ι, S.card = config.RATE_LIMIT_MAX ∧ ∀ k ∈ S, ∃ u,
      (f.2 k).stamp = some u ∧ d.1.now ≤ u.time ∧ u.number < st.number := by
  have hd := h.tail hn
  obtain ⟨s', inv', hstep, rfl⟩ := next_invocation hn
  obtain rfl : inv' = .refused headers retryAfter := by simpa using hi
  obtain ⟨hwait, hkey | ⟨t, ht, hsoon⟩⟩ := expiry_of_refused hstep he (timed_of_reaches h)
  · exact (since_absent hd hkey).refused hd hrun hj hst (by dsimp only at hlate ⊢; omega)
  · exact (since_expiry hd ht hnone).refused hd hrun hj hst (by dsimp only at hlate; omega)

/-- A quota of one in two seconds: the second request comes half a second after the first. -/
def halfSecondLater : List ((Bool × Bool) × Event ⊕ ℕ) :=
  List.replicate 3 (.inl ((false, false), ⟨.ok, 0, 0⟩)) ++
    .inr 501 :: List.replicate 2 (.inl ((false, true), ⟨.ok, 0, 0⟩))

/-- It is told to wait for a second. Half a second after that two more come. -/
def afterTheWait : List ((Bool × Bool) × Event ⊕ ℕ) :=
  .inr 1500 :: List.replicate 3 (.inl ((true, false), ⟨.ok, 2, 2⟩)) ++
    List.replicate 3 (.inl ((true, true), ⟨.ok, 2, 2⟩))

theorem retry_after_suffices_halfSecond : ∃ d f : Store × (Bool × Bool → Stamped),
    ((invocations ⟨1, 2⟩).system (Bool × Bool)).run
        (halfSecondLater ++ [.inl ((false, true), ⟨.ok, 0, 0⟩)]) (unsent 0) = some d ∧
      (d.2 (false, true)).inv = .refused ⟨1, 0, 1⟩ 1 ∧
      ((invocations ⟨1, 2⟩).system (Bool × Bool)).run afterTheWait d = some f ∧
      (f.2 (true, true)).inv = .refused ⟨1, 0, 4⟩ 2 ∧
      ∃ S : Finset (Bool × Bool), S.card = 1 ∧ ∀ k ∈ S, ∃ u,
        (f.2 k).stamp = some u ∧ d.1.now ≤ u.time ∧ u.number < 2 := by
  have hbefore : (((invocations ⟨1, 2⟩).system (Bool × Bool)).run halfSecondLater
      (unsent 0)).isSome = true := by decide
  obtain ⟨c, hc⟩ := Option.isSome_iff_exists.mp hbefore
  have hrefusal : (((invocations ⟨1, 2⟩).system (Bool × Bool)).run
      (halfSecondLater ++ [.inl ((false, true), ⟨.ok, 0, 0⟩)]) (unsent 0)).map
      (fun d => (d.1.now, (d.2 (false, false)).inv, (d.2 (false, true)).inv,
        (d.2 (true, false)).inv, (d.2 (true, true)).inv)) =
      some (501, .passed (some ⟨1, 0, 2⟩), .refused ⟨1, 0, 1⟩ 1, .starting, .starting) := by
    decide
  have hlater : (((invocations ⟨1, 2⟩).system (Bool × Bool)).run
      (halfSecondLater ++ [.inl ((false, true), ⟨.ok, 0, 0⟩)] ++ afterTheWait) (unsent 0)).map
      (fun f => f.2 (true, true)) = some ⟨.refused ⟨1, 0, 4⟩ 2, some ⟨2001, 1, 2⟩⟩ := by decide
  rw [System.run_append, hc, Option.bind_some] at hrefusal
  obtain ⟨d, hd, hview⟩ := Option.map_eq_some_iff.mp hrefusal
  rw [System.run_append, System.run_append, hc, Option.bind_some, hd, Option.bind_some] at hlater
  obtain ⟨f, hf, hlast⟩ := Option.map_eq_some_iff.mp hlater
  obtain ⟨hnow, hview⟩ := Prod.mk.inj hview
  obtain ⟨hfirst, hview⟩ := Prod.mk.inj hview
  obtain ⟨hsecond, hview⟩ := Prod.mk.inj hview
  obtain ⟨hthird, hfourth⟩ := Prod.mk.inj hview
  have hnext : ((invocations ⟨1, 2⟩).system (Bool × Bool)).next
      (.inl ((false, true), ⟨.ok, 0, 0⟩)) c = some d := by
    simpa [System.run] using hd
  have hstill : NoneExtending d := by
    intro i count hi
    obtain ⟨- | -, - | -⟩ := i
    all_goals
      simp only [hfirst, hsecond, hthird, hfourth] at hi
      cases hi
  have hlate : (d.1.now : ℤ) + 1000 * (1 + (0 - 0)) + 500 ≤ (2001 : ℕ) := by
    rw [hnow]
    norm_num
  have hd' : ((invocations ⟨1, 2⟩).system (Bool × Bool)).run
      (halfSecondLater ++ [.inl ((false, true), ⟨.ok, 0, 0⟩)]) (unsent 0) = some d := by
    rw [System.run_append, hc]
    exact hd
  refine ⟨d, f, hd', hsecond, hf, congrArg Stamped.inv hlast, ?_⟩
  exact retry_after_suffices ⟨halfSecondLater, hc⟩ hnext rfl hsecond hstill
    ⟨afterTheWait, hf⟩ (congrArg Stamped.inv hlast) (congrArg Stamped.stamp hlast) hlate

/-- A request that comes right at the time named may be refused once more on account of the first
one: the key has half a second to go. -/
example : (((invocations ⟨1, 2⟩).system (Bool × Bool)).run
    (halfSecondLater ++ .inl ((false, true), ⟨.ok, 0, 0⟩) :: .inr 1000 ::
      List.replicate 3 (.inl ((true, true), ⟨.ok, 1, 1⟩))) (unsent 0)).map
    (fun f => (f.1.expireAt, f.2 (true, true))) =
    some (some 2000, ⟨.refused ⟨1, 0, 3⟩ 2, some ⟨1501, 0, 3⟩⟩) := by decide

end Standing

end UrlShortener.RateLimiter
