import UrlShortener.RateWindow
import UrlShortener.EventWindows

/-! `rateLimiter` when any command may fail: how many invocations it lets through within one
window length, wherever that begins, and whom it refuses. -/
namespace UrlShortener.RateLimiter
open Transition EpochWindow

/-- The command is executed, whether or not its reply arrives. -/
def Served.executed : Served → Bool
  | .ok => true
  | .error => false
  | .lost applied => applied

/-- When an INCR was executed, in which lifetime of the key, and the count that it gave. -/
structure Stamp where
  time : ℕ
  life : ℕ
  number : ℕ
  deriving DecidableEq, Inhabited

def Stamp.ticket (st : Stamp) : ℕ × ℕ := (st.life, st.number)

/-- An invocation with the stamp of its INCR, where that was executed. -/
structure Stamped where
  inv : Invocation
  stamp : Option Stamp
  deriving DecidableEq

def nextStamp (e : Event) (s : Store) (l : Stamped) : Option Stamp :=
  if l.inv = .starting ∧ e.served.executed then some ⟨s.now, s.dropped, s.count + 1⟩ else l.stamp

def stampedStep (config : Config) (e : Event) (s : Store) (l : Stamped) :
    Option (Store × Stamped) :=
  (limiterStep config e s l.inv).map fun d => (d.1, ⟨d.2, nextStamp e s l⟩)

/-- The invocations of all processes, with any failures; between their commands time passes. -/
def invocations (config : Config) : Threads Store Stamped Event ℕ where
  step := stampedStep config
  env ms s := some (s.pass ms)

def unsent (now : ℕ) {ι : Type*} : Store × (ι → Stamped) :=
  (⟨now, none, 0⟩, fun _ => ⟨.starting, none⟩)

variable {config : Config} {e : Event} {s s' : Store}

/-! What one command does. -/

/-- The count by which an invocation will be judged. -/
def Invocation.known : Invocation → Option ℕ
  | .counted count | .expireSent count => count
  | .extending count => some count
  | _ => none

/-- An INCR is executed, or the key gets an expiry at most, while the invocation goes on with the
count that it knows, fails open, or is judged. -/
inductive StampedMove (config : Config) (s : Store) (l : Stamped) : Store → Stamped → Prop
  | incr {inv' : Invocation} (hl : l.inv = .starting)
    (hinv : inv' = .counted (some (s.count + 1)) ∨ inv' = .passed none) :
    StampedMove config s l s.incr ⟨inv', some ⟨s.now, s.dropped, s.count + 1⟩⟩
  | other {s' : Store} {inv' : Invocation}
    (hs : s' = s ∨ ∃ nx, s' = s.expire config.RATE_LIMIT_WINDOW_SECONDS nx)
    (hinv : (inv'.InFlight ∧ inv'.known = l.inv.known) ∨ inv' = .passed none ∨
      ∃ count ttl e, l.inv.known = some count ∧ inv' = verdict config count ttl e) :
    StampedMove config s l s' ⟨inv', l.stamp⟩

lemma stampedMove_of_step {l l' : Stamped} (h : stampedStep config e s l = some (s', l')) :
    StampedMove config s l s' l' := by
  obtain ⟨⟨s₁, inv'⟩, hstep, hd⟩ := Option.map_eq_some_iff.mp h
  obtain ⟨rfl, rfl⟩ := Prod.mk.inj hd
  obtain ⟨inv, stamp⟩ := l
  dsimp only at hstep ⊢
  have hkeep : ¬ (inv = .starting ∧ e.served.executed = true) →
      nextStamp e s ⟨inv, stamp⟩ = stamp := fun hnot => if_neg hnot
  have htake : inv = .starting → e.served.executed = true →
      nextStamp e s ⟨inv, stamp⟩ = some ⟨s.now, s.dropped, s.count + 1⟩ := fun hinv hex =>
    if_pos ⟨hinv, hex⟩
  revert hstep
  fun_cases limiterStep config e s inv with
  | case1 hserved =>
    intro hstep
    cases hstep
    rw [htake rfl (by rw [hserved]; rfl)]
    exact .incr rfl (.inl rfl)
  | case2 hserved =>
    intro hstep
    cases hstep
    rw [hkeep (by rw [hserved]; simp [Served.executed])]
    exact .other (.inl rfl) (.inl ⟨trivial, rfl⟩)
  | case3 applied hserved =>
    intro hstep
    cases hstep
    cases applied with
    | true =>
      rw [htake rfl (by rw [hserved]; rfl)]
      exact .incr rfl (.inr rfl)
    | false =>
      rw [hkeep (by rw [hserved]; simp [Served.executed])]
      exact .other (.inl rfl) (.inr (.inl rfl))
  | case4 count hserved =>
    intro hstep
    cases hstep
    rw [hkeep (by simp)]
    exact .other (.inr ⟨true, rfl⟩) (.inl ⟨trivial, rfl⟩)
  | case5 count hserved =>
    intro hstep
    cases hstep
    rw [hkeep (by simp)]
    exact .other (.inl rfl) (.inl ⟨trivial, rfl⟩)
  | case6 count applied hserved =>
    intro hstep
    cases hstep
    rw [hkeep (by simp)]
    cases applied with
    | true => exact .other (.inr ⟨true, rfl⟩) (.inr (.inl rfl))
    | false => exact .other (.inl rfl) (.inr (.inl rfl))
  | case8 count hserved =>
    intro hstep
    cases hstep
    rw [hkeep (by simp)]
    exact .other (.inl rfl) (.inl ⟨trivial, rfl⟩)
  | case9 count | case10 count =>
    intro hstep
    cases hstep
    rw [hkeep (by simp)]
    exact .other (.inl rfl) (.inr (.inr ⟨count, _, _, rfl, rfl⟩))
  | case12 count =>
    intro hstep
    cases hstep
    rw [hkeep (by simp)]
    exact .other (.inr ⟨false, rfl⟩) (.inr (.inr ⟨count, _, _, rfl, rfl⟩))
  | case14 count applied hserved =>
    intro hstep
    cases hstep
    rw [hkeep (by simp)]
    cases applied with
    | true => exact .other (.inr ⟨false, rfl⟩) (.inr (.inl rfl))
    | false => exact .other (.inl rfl) (.inr (.inl rfl))
  | case7 | case11 | case13 =>
    intro hstep
    cases hstep
    rw [hkeep (by simp)]
    exact .other (.inl rfl) (.inr (.inl rfl))
  | case15 | case16 =>
    intro hstep
    cases hstep

/-! What the number of an INCR says about the answer. -/

structure Stamped.Judged (config : Config) (l : Stamped) : Prop where
  starting : l.inv = .starting → l.stamp = none
  known : ∀ count, l.inv.known = some count → ∃ st, l.stamp = some st ∧ st.number = count
  passed : ∀ headers, l.inv = .passed (some headers) →
    ∃ st, l.stamp = some st ∧ st.number ≤ config.RATE_LIMIT_MAX
  refused : ∀ headers retryAfter, l.inv = .refused headers retryAfter →
    ∃ st, l.stamp = some st ∧ config.RATE_LIMIT_MAX < st.number

lemma Stamped.Judged.of_inFlight {l : Stamped} (hl : l.inv.InFlight)
    (h : ∀ count, l.inv.known = some count → ∃ st, l.stamp = some st ∧ st.number = count) :
    l.Judged config := by
  refine ⟨fun hinv => ?_, h, fun headers hinv => ?_, fun headers retryAfter hinv => ?_⟩
  all_goals
    rw [hinv] at hl
    exact hl.elim

lemma Stamped.Judged.of_open {l : Stamped} (hl : l.inv = .passed none) : l.Judged config := by
  refine ⟨fun hinv => ?_, fun count hinv => ?_, fun headers hinv => ?_,
    fun headers retryAfter hinv => ?_⟩
  all_goals
    rw [hl] at hinv
    cases hinv

lemma Stamped.Judged.of_verdict {l : Stamped} {count : ℕ} {ttl : Option ℤ} {st : Stamp}
    (hl : l.inv = verdict config count ttl e) (hst : l.stamp = some st)
    (hnumber : st.number = count) : l.Judged config := by
  rcases verdict_eq config count ttl e with ⟨hle, headers, hv⟩ | ⟨hlt, headers, retryAfter, hv⟩
  all_goals
    rw [hv] at hl
    refine ⟨fun hinv => ?_, fun count hinv => ?_, fun headers hinv => ?_,
      fun headers retryAfter hinv => ?_⟩
  -- one case for each verdict, the others contradict it
  case inl.refine_3 => exact ⟨st, hst, hnumber ▸ hle⟩
  case inr.refine_4 => exact ⟨st, hst, hnumber ▸ hlt⟩
  all_goals
    rw [hl] at hinv
    cases hinv

lemma StampedMove.judged {l l' : Stamped} (h : StampedMove config s l s' l')
    (hl : l.Judged config) : l'.Judged config := by
  cases h with
  | @incr inv' hstart hinv =>
    rcases hinv with rfl | rfl
    · refine .of_inFlight trivial fun count hcount => ⟨_, rfl, ?_⟩
      exact Option.some.inj hcount
    · exact .of_open rfl
  | @other _ inv' hs hinv =>
    rcases hinv with ⟨hflight, hknown⟩ | rfl | ⟨count, ttl, e, hknown, rfl⟩
    · exact .of_inFlight hflight fun count hcount => hl.known count (hknown ▸ hcount)
    · exact .of_open rfl
    · obtain ⟨st, hst, hnumber⟩ := hl.known count hknown
      exact .of_verdict rfl hst hnumber

/-! The lifetimes of the key. -/

def Config.width (config : Config) : ℕ := 1000 * config.RATE_LIMIT_WINDOW_SECONDS

/-- `closed` says when each lifetime before the current one has ended. A lifetime ends no earlier
than a window after the one before, and than a window after its first INCR. -/
structure Paced {ι : Type} (config : Config) (closed : ℕ → ℕ) (s : Store)
    (stamps : ι → Option Stamp) : Prop where
  spaced : Spaced config.width s.dropped closed
  past : ∀ life < s.dropped, closed life ≤ s.now
  expiry : ∀ life t, life + 1 = s.dropped → s.expireAt = some t → closed life + config.width ≤ t
  reached : ∀ i st, stamps i = some st → st.life ≤ s.dropped ∧ st.time ≤ s.now
  within : ∀ i st, stamps i = some st → st.life < s.dropped → st.time ≤ closed st.life
  after : ∀ i st life, stamps i = some st → life + 1 = st.life → closed life ≤ st.time
  opened : ∀ i st t, stamps i = some st → st.number = 1 → st.life = s.dropped →
    s.expireAt = some t → st.time + config.width ≤ t
  full : ∀ i st, stamps i = some st → st.number = 1 → st.life < s.dropped →
    st.time + config.width ≤ closed st.life

section Pace
variable {ι : Type} {closed : ℕ → ℕ} {stamps : ι → Option Stamp}

/-- The clock may move on and the expiry be set anew, by EXPIRE only to a window from now. -/
lemma Paced.keep (hp : Paced config closed s stamps) (hdropped : s'.dropped = s.dropped)
    (hnow : s.now ≤ s'.now) (hexpire : s'.expireAt = s.expireAt ∨
      s'.expireAt = some (s.now + config.width)) : Paced config closed s' stamps := by
  refine ⟨hdropped ▸ hp.spaced, fun life hlife => ?_, fun life t hlife ht => ?_,
    fun i st hst => ?_, fun i st hst hlife => ?_, hp.after,
    fun i st t hst hone hlife ht => ?_, fun i st hst hone hlife => ?_⟩
  · exact (hp.past life (hdropped ▸ hlife)).trans hnow
  · rw [hdropped] at hlife
    rcases hexpire with hsame | hnew
    · exact hp.expiry life t hlife (hsame ▸ ht)
    · obtain rfl := Option.some.inj (hnew.symm.trans ht)
      exact Nat.add_le_add_right (hp.past life (by omega)) _
  · obtain ⟨hlife, htime⟩ := hp.reached i st hst
    exact ⟨hdropped ▸ hlife, htime.trans hnow⟩
  · exact hp.within i st hst (hdropped ▸ hlife)
  · rw [hdropped] at hlife
    rcases hexpire with hsame | hnew
    · exact hp.opened i st t hst hone hlife (hsame ▸ ht)
    · obtain rfl := Option.some.inj (hnew.symm.trans ht)
      exact Nat.add_le_add_right (hp.reached i st hst).2 _
  · exact hp.full i st hst hone (hdropped ▸ hlife)

/-- A lifetime ends no earlier than a window after the one before. -/
lemma Paced.drop (hp : Paced config closed s stamps) (s' : Store)
    (hdropped : s'.dropped = s.dropped + 1) (hnow : s.now ≤ s'.now) (hnone : s'.expireAt = none)
    (hdue : ∀ life, life + 1 = s.dropped → closed life + config.width ≤ s'.now)
    (hfirst : ∀ i st, stamps i = some st → st.number = 1 → st.life = s.dropped →
      st.time + config.width ≤ s'.now) :
    Paced config (Function.update closed s.dropped s'.now) s' stamps := by
  have hold : ∀ life < s.dropped, Function.update closed s.dropped s'.now life = closed life :=
    fun life hlife => Function.update_of_ne hlife.ne _ _
  have hnew : Function.update closed s.dropped s'.now s.dropped = s'.now :=
    Function.update_self _ _ _
  refine ⟨fun life hlife => ?_, fun life hlife => ?_, fun life t _ ht => ?_, fun i st hst => ?_,
    fun i st hst hlife => ?_, fun i st life hst hlife => ?_, fun i st t _ _ _ ht => ?_,
    fun i st hst hone hlife => ?_⟩
  · rw [hdropped] at hlife
    rcases Nat.lt_or_ge (life + 1) s.dropped with hlt | hge
    · rw [hold life (by omega), hold (life + 1) hlt]
      exact hp.spaced life hlt
    · have heq : life + 1 = s.dropped := by omega
      rw [hold life (by omega), heq, hnew]
      exact hdue life heq
  · rcases Nat.lt_or_ge life s.dropped with hlt | hge
    · rw [hold life hlt]
      exact (hp.past life hlt).trans hnow
    · obtain rfl : life = s.dropped := by omega
      exact hnew.le
  · rw [hnone] at ht
    cases ht
  · obtain ⟨hlife, htime⟩ := hp.reached i st hst
    exact ⟨by omega, htime.trans hnow⟩
  · obtain ⟨hle, htime⟩ := hp.reached i st hst
    rcases Nat.lt_or_ge st.life s.dropped with hlt | hge
    · rw [hold _ hlt]
      exact hp.within i st hst hlt
    · rw [show st.life = s.dropped by omega, hnew]
      exact htime.trans hnow
  · have hle := (hp.reached i st hst).1
    rw [hold life (by omega)]
    exact hp.after i st life hst hlife
  · rw [hnone] at ht
    cases ht
  · have hle := (hp.reached i st hst).1
    rcases Nat.lt_or_ge st.life s.dropped with hlt | hge
    · rw [hold _ hlt]
      exact hp.full i st hst hone hlt
    · have heq : st.life = s.dropped := by omega
      rw [heq, hnew]
      exact hfirst i st hst hone heq

lemma Paced.incr [DecidableEq ι] (hp : Paced config closed s stamps)
    (hpositive : ∀ k, s.counter = some k → 0 < k.count) (i : ι) :
    Paced config closed s.incr
      (Function.update stamps i (some ⟨s.now, s.dropped, s.count + 1⟩)) := by
  have hcases : ∀ j st, Function.update stamps i (some ⟨s.now, s.dropped, s.count + 1⟩) j =
      some st → st = ⟨s.now, s.dropped, s.count + 1⟩ ∨ stamps j = some st := by
    intro j st hj
    by_cases hji : j = i
    · subst hji
      rw [Function.update_self] at hj
      exact .inl (Option.some.inj hj).symm
    · rw [Function.update_of_ne hji] at hj
      exact .inr hj
  refine ⟨hp.spaced, hp.past, hp.expiry, fun j st hj => ?_, fun j st hj hlife => ?_,
    fun j st life hj hlife => ?_, fun j st t hj hone hlife ht => ?_,
    fun j st hj hone hlife => ?_⟩
  · rcases hcases j st hj with rfl | hj
    · exact ⟨le_rfl, le_rfl⟩
    · exact hp.reached j st hj
  · rcases hcases j st hj with rfl | hj
    · exact absurd hlife (lt_irrefl _)
    · exact hp.within j st hj hlife
  · rcases hcases j st hj with rfl | hj
    · exact hp.past life (by dsimp only at hlife; omega)
    · exact hp.after j st life hj hlife
  · rcases hcases j st hj with rfl | hj
    · -- the first INCR of a lifetime finds no key
      obtain ⟨k, hk, hkt⟩ := Option.bind_eq_some_iff.mp (show s.expireAt = some t from ht)
      have hcount : s.count = k.count := by rw [Store.count, hk]; rfl
      have hpos := hpositive k hk
      dsimp only at hone
      omega
    · exact hp.opened j st t hj hone hlife ht
  · rcases hcases j st hj with rfl | hj
    · exact absurd hlife (lt_irrefl _)
    · exact hp.full j st hj hone hlife

lemma Paced.expire (hp : Paced config closed s stamps) (nx : Bool) : ∃ closed',
    Paced config closed' (s.expire config.RATE_LIMIT_WINDOW_SECONDS nx) stamps := by
  fun_cases Store.expire s config.RATE_LIMIT_WINDOW_SECONDS nx with
  | case1 | case2 => exact ⟨closed, hp⟩
  | case3 c hc hnx hzero =>
    refine ⟨_, hp.drop s.drop rfl le_rfl rfl (fun life hlife => ?_) fun i st hst hone hlife => ?_⟩
    · rw [Config.width, hzero]
      exact hp.past life (by omega)
    · rw [Config.width, hzero]
      exact (hp.reached i st hst).2
  | case4 c hc hnx hpos => exact ⟨closed, hp.keep rfl le_rfl (.inr rfl)⟩

lemma Paced.pass (hp : Paced config closed s stamps) (ms : ℕ) :
    ∃ closed', Paced config closed' (s.pass ms) stamps := by
  rw [Store.pass]
  by_cases hlate : s.expireAt.any (· ≤ s.now + ms) = true
  · rw [if_pos hlate]
    obtain ⟨t, ht, hle⟩ := (Option.any_eq_true _ _).mp hlate
    have hle := of_decide_eq_true hle
    exact ⟨_, hp.drop (Store.drop _) rfl (Nat.le_add_right _ _) rfl
      (fun life hlife => (hp.expiry life t hlife ht).trans hle)
      fun i st hst hone hlife => (hp.opened i st t hst hone hlife ht).trans hle⟩
  · rw [if_neg hlate]
    exact ⟨closed, hp.keep rfl (Nat.le_add_right _ _) (.inl rfl)⟩

end Pace

/-! Every reachable state. -/

section Reached
variable {ι : Type} [DecidableEq ι] {now : ℕ} {c d : Store × (ι → Stamped)}

def stampsOf (l : ι → Stamped) : ι → Option Stamp := fun i => (l i).stamp

def ticketsAt (l : ι → Stamped) : ι → Option (ℕ × ℕ) := fun i => (l i).stamp.map Stamp.ticket

omit [DecidableEq ι] in
lemma ticketsAt_eq (l : ι → Stamped) : ticketsAt l = Option.map Stamp.ticket ∘ stampsOf l := rfl

lemma stampsOf_update (l : ι → Stamped) (i : ι) (l' : Stamped) :
    stampsOf (Function.update l i l') = Function.update (stampsOf l) i l'.stamp := by
  funext j
  by_cases hji : j = i
  · subst hji
    simp [stampsOf]
  · simp [stampsOf, hji]

lemma Store.expire_positive (h : ∀ k, s.counter = some k → 0 < k.count) (seconds : ℕ)
    (nx : Bool) : ∀ k, (s.expire seconds nx).counter = some k → 0 < k.count := by
  fun_cases Store.expire s seconds nx with
  | case1 | case2 => exact h
  | case3 =>
    intro k hk
    cases hk
  | case4 c hc =>
    intro k hk
    obtain rfl := Option.some.inj hk
    exact h c hc

lemma Store.pass_positive (h : ∀ k, s.counter = some k → 0 < k.count) (ms : ℕ) :
    ∀ k, (s.pass ms).counter = some k → 0 < k.count := by
  rw [Store.pass]
  split_ifs
  · intro k hk
    cases hk
  · exact h

structure Sound (config : Config) (c : Store × (ι → Stamped)) : Prop where
  positive : ∀ k, c.1.counter = some k → 0 < k.count
  judged : ∀ i, (c.2 i).Judged config
  numbered : ∃ counts, Numbered counts c.1 (ticketsAt c.2)
  paced : ∃ closed, Paced config closed c.1 (stampsOf c.2)

lemma Sound.thread {i : ι} {s' : Store} {l' : Stamped} (hc : Sound config c)
    (h : stampedStep config e c.1 (c.2 i) = some (s', l')) :
    Sound config (s', Function.update c.2 i l') := by
  have hmove := stampedMove_of_step h
  have hjudged : ∀ j, (Function.update c.2 i l' j).Judged config := by
    intro j
    by_cases hji : j = i
    · subst hji
      rw [Function.update_self]
      exact hmove.judged (hc.judged j)
    · rw [Function.update_of_ne hji]
      exact hc.judged j
  obtain ⟨counts, hcounts⟩ := hc.numbered
  obtain ⟨closed, hclosed⟩ := hc.paced
  cases hmove with
  | @incr inv' hstart hinv =>
    refine ⟨fun k hk => ?_, hjudged, ⟨Function.update counts c.1.dropped (c.1.count + 1), ?_⟩,
      closed, ?_⟩
    · obtain rfl := Option.some.inj hk
      exact Nat.succ_pos _
    · have hi : ticketsAt c.2 i = none := by
        rw [ticketsAt, (hc.judged i).starting hstart]
        rfl
      rw [ticketsAt_eq, stampsOf_update, Function.comp_update]
      exact hcounts.incr hi
    · rw [stampsOf_update]
      exact hclosed.incr hc.positive i
  | @other _ inv' hs hinv =>
    have hstamps : stampsOf (Function.update c.2 i ⟨inv', (c.2 i).stamp⟩) = stampsOf c.2 := by
      rw [stampsOf_update]
      exact Function.update_eq_self i _
    have htickets : ticketsAt (Function.update c.2 i ⟨inv', (c.2 i).stamp⟩) = ticketsAt c.2 := by
      rw [ticketsAt_eq, hstamps]
      rfl
    refine ⟨?_, hjudged, ?_, ?_⟩
    · rcases hs with rfl | ⟨nx, rfl⟩
      · exact hc.positive
      · exact Store.expire_positive hc.positive _ _
    · rw [htickets]
      rcases hs with rfl | ⟨nx, rfl⟩
      · exact ⟨counts, hcounts⟩
      · exact ⟨counts, hcounts.store (c.1.expire_lifetime _ _)⟩
    · rw [hstamps]
      rcases hs with rfl | ⟨nx, rfl⟩
      · exact ⟨closed, hclosed⟩
      · exact hclosed.expire nx

omit [DecidableEq ι] in
lemma unsent_sound (config : Config) (now : ℕ) :
    Sound config (unsent now : Store × (ι → Stamped)) := by
  have hnone : ∀ i, ticketsAt (unsent now : Store × (ι → Stamped)).2 i = none := fun _ => rfl
  have hcount : ∀ i count,
      ((unsent now : Store × (ι → Stamped)).2 i).inv.known ≠ some count := fun _ _ h => by cases h
  refine ⟨fun k hk => ?_, fun i => ⟨fun _ => rfl,
    fun count hknown => absurd hknown (hcount i count), fun headers hinv => ?_,
    fun headers retryAfter hinv => ?_⟩, ⟨fun _ => 0, ?_⟩, fun _ => 0, ?_⟩
  · cases hk
  · cases hinv
  · cases hinv
  · refine ⟨rfl, fun _ _ => rfl, fun life number => ?_, fun i j t hi => ?_⟩
    · refine iff_of_false (fun hi => ?_) (by omega)
      obtain ⟨i, hi⟩ := hi
      rw [hnone] at hi
      cases hi
    · rw [hnone] at hi
      cases hi
  · have hdropped : (unsent now : Store × (ι → Stamped)).1.dropped = 0 := rfl
    refine ⟨fun life hlife => ?_, fun life hlife => ?_, fun life t hlife => ?_,
      fun i st hst => ?_, fun i st hst => ?_, fun i st life hst => ?_, fun i st t hst => ?_,
      fun i st hst => ?_⟩
    · rw [hdropped] at hlife
      omega
    · rw [hdropped] at hlife
      omega
    · rw [hdropped] at hlife
      omega
    all_goals cases hst

lemma sound_of_reaches (h : ((invocations config).system ι).Reaches (unsent now) d) :
    Sound config d := by
  refine h.invariant (fun a c d hc hn => ?_) (unsent_sound config now)
  cases a with
  | inl a =>
    obtain ⟨i, e⟩ := a
    obtain ⟨s', l', hs, rfl⟩ := Threads.next_thread hn
    exact hc.thread hs
  | inr ms =>
    obtain ⟨s', hs, rfl⟩ := Threads.next_env hn
    cases hs
    obtain ⟨counts, hcounts⟩ := hc.numbered
    obtain ⟨closed, hclosed⟩ := hc.paced
    exact ⟨Store.pass_positive hc.positive ms, hc.judged,
      ⟨counts, hcounts.store (c.1.pass_lifetime ms)⟩, hclosed.pass ms⟩

omit [DecidableEq ι] in
/-- INCRs two lifetimes apart are a window apart, and the first one of a lifetime and any of a
later one. -/
lemma Paced.apart {closed : ℕ → ℕ} {s : Store} {stamps : ι → Option Stamp} {i j : ι} {st u : Stamp}
    (hp : Paced config closed s stamps) (hi : stamps i = some st) (hj : stamps j = some u)
    (h : st.life + 2 ≤ u.life ∨ (st.number = 1 ∧ st.life < u.life)) :
    st.time + config.width ≤ u.time := by
  have hu := (hp.reached j u hj).1
  have hstart := hp.after j u (u.life - 1) hj (by omega)
  have hgap : st.life < u.life - 1 → closed st.life + config.width ≤ closed (u.life - 1) :=
    fun hlt => hp.spaced.add_le (Nat.zero_le _) hlt (by omega)
  rcases h with hfar | ⟨hone, hlt⟩
  · have hend := hp.within i st hi (by omega)
    have hgap := hgap (by omega)
    omega
  · have hfull := hp.full i st hi hone (by omega)
    rcases Nat.lt_or_ge st.life (u.life - 1) with hbefore | hnext
    · have hgap := hgap hbefore
      omega
    · rw [show st.life = u.life - 1 by omega] at hfull
      exact hfull.trans hstart

/-- The invocation was let through by its count, which its INCR gave between `a` and a window
length later. -/
def AdmittedFrom (config : Config) (a : ℕ) (l : Stamped) : Prop :=
  ∃ headers st, l.inv = .passed (some headers) ∧ l.stamp = some st ∧ a ≤ st.time ∧
    st.time < a + config.width

/-- Whatever fails, no time as long as the window sees the INCRs of twice the quota of invocations
that are let through by their count. -/
theorem burst_bound (h : ((invocations config).system ι).Reaches (unsent now) d) (a : ℕ)
    (S : Finset ι) (hS : ∀ i ∈ S, AdmittedFrom config a (d.2 i)) :
    S.card ≤ 2 * config.RATE_LIMIT_MAX - 1 := by
  obtain ⟨-, hjudged, ⟨counts, hcounts⟩, closed, hclosed⟩ := sound_of_reaches h
  have hstamp : ∀ i ∈ S, ∃ st, (d.2 i).stamp = some st ∧ a ≤ st.time ∧
      st.time < a + config.width ∧ st.number ≤ config.RATE_LIMIT_MAX := by
    intro i hi
    obtain ⟨headers, st, hinv, hst, hstart, hend⟩ := hS i hi
    obtain ⟨st', hst', hle⟩ := (hjudged i).passed headers hinv
    obtain rfl := Option.some.inj (hst.symm.trans hst')
    exact ⟨st, hst, hstart, hend, hle⟩
  choose! stamp hst hstart hend hle using hstamp
  have hticket : ∀ i ∈ S, ticketsAt d.2 i = some (stamp i).ticket := by
    intro i hi
    rw [ticketsAt, hst i hi]
    rfl
  refine card_le_two_epochs S (fun i => (stamp i).time) (fun i => (stamp i).life)
    (fun i => (stamp i).number) hstart hend (fun i hi => ?_)
    (fun i hi j hj hlife hnumber => ?_)
    (fun i hi j hj hlife => hclosed.apart (hst i hi) (hst j hj) hlife)
  · have htaken := (hcounts.taken _ _).mp ⟨i, hticket i hi⟩
    exact ⟨htaken.1, hle i hi⟩
  · refine hcounts.unique i j _ (hticket i hi) ?_
    rw [hticket j hj, Stamp.ticket, Stamp.ticket, hlife, hnumber]

/-- A quota of two in each second: one request opens the window, another comes at its end, and two
more right after it. One of them gets no expiry at first. -/
def secondsApart : List (ℕ × Event ⊕ ℕ) :=
  [.inl (0, ⟨.ok, 0, 0⟩), .inl (0, ⟨.ok, 0, 0⟩), .inl (0, ⟨.ok, 0, 0⟩), .inr 999,
    .inl (1, ⟨.ok, 0, 0⟩), .inl (1, ⟨.ok, 0, 0⟩), .inl (1, ⟨.ok, 0, 0⟩), .inr 1,
    .inl (2, ⟨.ok, 1, 1⟩), .inl (2, ⟨.error, 1, 1⟩), .inl (2, ⟨.ok, 1, 1⟩), .inl (2, ⟨.ok, 1, 1⟩),
    .inl (3, ⟨.ok, 1, 1⟩), .inl (3, ⟨.ok, 1, 1⟩), .inl (3, ⟨.ok, 1, 1⟩)]

/-- Three of the four fall into one second, as many as may. -/
theorem burst_bound_reached : ∃ d : Store × (ℕ → Stamped),
    ((invocations ⟨2, 1⟩).system ℕ).run secondsApart (unsent 0) = some d ∧
      (∀ i ∈ ({1, 2, 3} : Finset ℕ), AdmittedFrom ⟨2, 1⟩ 999 (d.2 i)) ∧
      ({1, 2, 3} : Finset ℕ).card ≤ 2 * 2 - 1 := by
  have hrun : (((invocations ⟨2, 1⟩).system ℕ).run secondsApart (unsent 0)).map
      (fun d => (d.2 1, d.2 2, d.2 3)) =
      some (⟨.passed (some ⟨2, 0, 1⟩), some ⟨999, 0, 2⟩⟩,
        ⟨.passed (some ⟨2, 1, 2⟩), some ⟨1000, 1, 1⟩⟩,
        ⟨.passed (some ⟨2, 0, 2⟩), some ⟨1000, 1, 2⟩⟩) := by decide
  obtain ⟨d, hd, hthree⟩ := Option.map_eq_some_iff.mp hrun
  obtain ⟨hone, hrest⟩ := Prod.mk.inj hthree
  obtain ⟨htwo, hthree⟩ := Prod.mk.inj hrest
  have hS : ∀ i ∈ ({1, 2, 3} : Finset ℕ), AdmittedFrom ⟨2, 1⟩ 999 (d.2 i) := by
    intro i hi
    rcases Finset.mem_insert.mp hi with rfl | hi
    · exact ⟨_, _, by rw [hone], by rw [hone], by decide⟩
    rcases Finset.mem_insert.mp hi with rfl | hi
    · exact ⟨_, _, by rw [htwo], by rw [htwo], by decide⟩
    obtain rfl := Finset.mem_singleton.mp hi
    exact ⟨_, _, by rw [hthree], by rw [hthree], by decide⟩
  exact ⟨d, hd, hS, burst_bound ⟨secondsApart, hd⟩ 999 {1, 2, 3} hS⟩

lemma Sound.exceeded (hd : Sound config d) {i : ι} {headers : Headers} {retryAfter : ℤ}
    (hi : (d.2 i).inv = .refused headers retryAfter) :
    ∃ st, (d.2 i).stamp = some st ∧ ∃ S : Finset ι, S.card = config.RATE_LIMIT_MAX ∧
      ∀ j ∈ S, ∃ u, (d.2 j).stamp = some u ∧ u.life = st.life ∧ u.number < st.number := by
  obtain ⟨-, hjudged, ⟨counts, hcounts⟩, -⟩ := hd
  obtain ⟨st, hst, hlt⟩ := (hjudged i).refused headers retryAfter hi
  have hi : ticketsAt d.2 i = some (st.life, st.number) := by
    rw [ticketsAt, hst]
    rfl
  have hle := ((hcounts.taken _ _).mp ⟨i, hi⟩).2
  have hexists : ∀ number ∈ Finset.Icc 1 config.RATE_LIMIT_MAX,
      ∃ j, ticketsAt d.2 j = some (st.life, number) := by
    intro number hnumber
    obtain ⟨hone, hmax⟩ := Finset.mem_Icc.mp hnumber
    exact (hcounts.taken _ _).mpr ⟨hone, by omega⟩
  have hfilled : Nonempty ι := ⟨i⟩
  choose! holder hholder using hexists
  refine ⟨st, hst, (Finset.Icc 1 config.RATE_LIMIT_MAX).image holder, ?_, fun j hj => ?_⟩
  · rw [Finset.card_image_of_injOn, Nat.card_Icc, Nat.add_sub_cancel]
    intro number hnumber number' hnumber' hsame
    have hsame' := (hholder number hnumber).symm.trans (hsame ▸ hholder number' hnumber')
    exact (Prod.mk.inj (Option.some.inj hsame')).2
  · obtain ⟨number, hnumber, rfl⟩ := Finset.mem_image.mp hj
    obtain ⟨u, hu, hticket⟩ := Option.map_eq_some_iff.mp (hholder number hnumber)
    obtain ⟨hlife, rfl⟩ := Prod.mk.inj hticket
    exact ⟨u, hu, hlife, (Finset.mem_Icc.mp hnumber).2.trans_lt hlt⟩

/-- Whatever fails, an invocation is refused only where the INCRs of as many others as the quota
allows were executed before its own, in the same lifetime of the key. -/
theorem refused_exceeds (h : ((invocations config).system ι).Reaches (unsent now) d) {i : ι}
    {headers : Headers} {retryAfter : ℤ} (hi : (d.2 i).inv = .refused headers retryAfter) :
    ∃ st, (d.2 i).stamp = some st ∧ ∃ S : Finset ι, S.card = config.RATE_LIMIT_MAX ∧
      ∀ j ∈ S, ∃ u, (d.2 j).stamp = some u ∧ u.life = st.life ∧ u.number < st.number :=
  (sound_of_reaches h).exceeded hi

/-- A quota of one: the reply to the first INCR is lost, and the second request gets an expiry with
its last command only. -/
def lostFirst : List (Bool × Event ⊕ ℕ) :=
  [.inl (false, ⟨.lost true, 0, 0⟩), .inl (true, ⟨.ok, 0, 0⟩), .inl (true, ⟨.error, 0, 0⟩),
    .inl (true, ⟨.ok, 0, 0⟩), .inl (true, ⟨.ok, 0, 0⟩)]

theorem refused_exceeds_lostFirst : ∃ d : Store × (Bool → Stamped),
    ((invocations ⟨1, 60⟩).system Bool).run lostFirst (unsent 0) = some d ∧
      ∃ st, (d.2 true).stamp = some st ∧ ∃ S : Finset Bool, S.card = 1 ∧
        ∀ j ∈ S, ∃ u, (d.2 j).stamp = some u ∧ u.life = st.life ∧ u.number < st.number := by
  have hrun : (((invocations ⟨1, 60⟩).system Bool).run lostFirst (unsent 0)).map
      (fun d => (d.2 true).inv) = some (.refused ⟨1, 0, 60⟩ 60) := by decide
  obtain ⟨d, hd, hinv⟩ := Option.map_eq_some_iff.mp hrun
  exact ⟨d, hd, refused_exceeds ⟨lostFirst, hd⟩ hinv⟩

end Reached

end UrlShortener.RateLimiter
