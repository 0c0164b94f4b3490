import Mathlib

/-! Linear text patterns: sequences of quantified element classes, as regular
expressions without groups or alternation are. `run` is the backtracking matcher
with its greedy and reluctant preferences; `Matches` says what it may match. -/
namespace UrlShortener

namespace Pattern

inductive Atom (α : Type*)
  | one (p : α → Bool)
  | opt (p : α → Bool)
  | star (p : α → Bool)
  | reluctant (p : α → Bool)
  | boundary (word : α → Bool)

end Pattern

/-- A pattern reads its atoms from left to right. -/
abbrev Pattern (α : Type*) := List (Pattern.Atom α)

namespace Pattern

variable {α β : Type*}

/-- One or more elements of a class, as many as possible. -/
def plus (p : α → Bool) : Pattern α := [.one p, .star p]

def atBoundary (word : α → Bool) (before after : Option α) : Bool :=
  before.any word != after.any word

/-- One more element in front of a match, if its class admits the element. -/
def taking (ok : Bool) (rest : Option ℕ) : Option ℕ := if ok then rest.map (· + 1) else none

/-- Take elements of the class as long as possible before continuing. -/
def runGreedy (p : α → Bool) (k : Option α → List α → Option ℕ) :
    Option α → List α → Option ℕ
  | before, [] => k before []
  | before, c :: s => taking (p c) (runGreedy p k (some c) s) <|> k before (c :: s)

/-- Continue as soon as possible, taking elements of the class only when that fails. -/
def runReluctant (p : α → Bool) (k : Option α → List α → Option ℕ) :
    Option α → List α → Option ℕ
  | before, [] => k before []
  | before, c :: s => k before (c :: s) <|> taking (p c) (runReluctant p k (some c) s)

/-- Length of the match that backtracking finds first at the start of the text;
`before` is the element that precedes the text. -/
def run : Pattern α → Option α → List α → Option ℕ
  | [], _, _ => some 0
  | .one _ :: _, _, [] => none
  | .one p :: r, _, c :: s => taking (p c) (run r (some c) s)
  | .opt _ :: r, before, [] => run r before []
  | .opt p :: r, before, c :: s => taking (p c) (run r (some c) s) <|> run r before (c :: s)
  | .star p :: r, before, s => runGreedy p (run r) before s
  | .reluctant p :: r, before, s => runReluctant p (run r) before s
  | .boundary word :: r, before, s =>
    if atBoundary word before s.head? then run r before s else none

/-- The words a pattern matches, between the element before and the text after. -/
inductive Matches : Pattern α → Option α → List α → List α → Prop
  | nil {before rest} : Matches [] before [] rest
  | one {p r before c w rest} (hc : p c = true) (h : Matches r (some c) w rest) :
      Matches (.one p :: r) before (c :: w) rest
  | optTake {p r before c w rest} (hc : p c = true) (h : Matches r (some c) w rest) :
      Matches (.opt p :: r) before (c :: w) rest
  | optSkip {p r before w rest} (h : Matches r before w rest) :
      Matches (.opt p :: r) before w rest
  | starTake {p r before c w rest} (hc : p c = true)
      (h : Matches (.star p :: r) (some c) w rest) : Matches (.star p :: r) before (c :: w) rest
  | starStop {p r before w rest} (h : Matches r before w rest) :
      Matches (.star p :: r) before w rest
  | reluctantTake {p r before c w rest} (hc : p c = true)
      (h : Matches (.reluctant p :: r) (some c) w rest) :
      Matches (.reluctant p :: r) before (c :: w) rest
  | reluctantStop {p r before w rest} (h : Matches r before w rest) :
      Matches (.reluctant p :: r) before w rest
  | boundary {word r before w rest} (hb : atBoundary word before (w ++ rest).head? = true)
      (h : Matches r before w rest) : Matches (.boundary word :: r) before w rest

/-- A pattern occurs in a text when some block of the text matches it in place. -/
def Occurs (p : Pattern α) (s : List α) : Prop :=
  ∃ pre w post, s = pre ++ w ++ post ∧ Matches p pre.getLast? w post

@[simp] lemma taking_isSome {ok : Bool} {r : Option ℕ} :
    (taking ok r).isSome = (ok && r.isSome) := by
  cases ok <;> cases r <;> rfl

lemma taking_eq_some {ok : Bool} {r : Option ℕ} {n : ℕ} :
    taking ok r = some n ↔ ok = true ∧ ∃ m, r = some m ∧ n = m + 1 := by
  cases ok <;> cases r <;> simp [taking, eq_comm]

lemma orElse_eq_some {a b : Option ℕ} {n : ℕ} (h : (a <|> b) = some n) :
    a = some n ∨ b = some n := by
  cases a with
  | none => exact Or.inr (by simpa using h)
  | some m => exact Or.inl (by simpa using h)

/-- The matcher finds a match wherever there is one. -/
theorem run_complete {p : Pattern α} {before : Option α} {w rest : List α}
    (h : Matches p before w rest) : (run p before (w ++ rest)).isSome := by
  induction h with
  | nil => rfl
  | one hc _ ih => simp [run, hc, ih]
  | optTake hc _ ih => simp [run, hc, ih]
  | @optSkip p r before w rest _ ih =>
    cases hw : w ++ rest <;> rw [hw] at ih <;> simp [run, ih]
  | starTake hc _ ih =>
    simp only [run] at ih
    simp [run, runGreedy, hc, ih]
  | @starStop p r before w rest _ ih =>
    cases hw : w ++ rest <;> rw [hw] at ih <;> simp [run, runGreedy, ih]
  | reluctantTake hc _ ih =>
    simp only [run] at ih
    simp [run, runReluctant, hc, ih]
  | @reluctantStop p r before w rest _ ih =>
    cases hw : w ++ rest <;> rw [hw] at ih <;> simp [run, runReluctant, ih]
  | boundary hb _ ih => rw [run, if_pos hb]; exact ih

/-- `n` elements of the text form a match. -/
def MatchesPrefix (p : Pattern α) (before : Option α) (s : List α) (n : ℕ) : Prop :=
  n ≤ s.length ∧ Matches p before (s.take n) (s.drop n)

private lemma runGreedy_sound {p : α → Bool} {r : Pattern α}
    (hr : ∀ before s n, run r before s = some n → MatchesPrefix r before s n)
    {before : Option α} {s : List α} {n : ℕ} (h : runGreedy p (run r) before s = some n) :
    MatchesPrefix (.star p :: r) before s n := by
  induction s generalizing before n with
  | nil =>
    obtain ⟨hn, hm⟩ := hr _ _ _ h
    exact ⟨hn, .starStop hm⟩
  | cons c s ih =>
    rcases orElse_eq_some h with h | h
    · obtain ⟨hc, m, hm, rfl⟩ := taking_eq_some.mp h
      obtain ⟨hn, hm⟩ := ih hm
      exact ⟨Nat.succ_le_succ hn, .starTake hc hm⟩
    · obtain ⟨hn, hm⟩ := hr _ _ _ h
      exact ⟨hn, .starStop hm⟩

private lemma runReluctant_sound {p : α → Bool} {r : Pattern α}
    (hr : ∀ before s n, run r before s = some n → MatchesPrefix r before s n)
    {before : Option α} {s : List α} {n : ℕ} (h : runReluctant p (run r) before s = some n) :
    MatchesPrefix (.reluctant p :: r) before s n := by
  induction s generalizing before n with
  | nil =>
    obtain ⟨hn, hm⟩ := hr _ _ _ h
    exact ⟨hn, .reluctantStop hm⟩
  | cons c s ih =>
    rcases orElse_eq_some h with h | h
    · obtain ⟨hn, hm⟩ := hr _ _ _ h
      exact ⟨hn, .reluctantStop hm⟩
    · obtain ⟨hc, m, hm, rfl⟩ := taking_eq_some.mp h
      obtain ⟨hn, hm⟩ := ih hm
      exact ⟨Nat.succ_le_succ hn, .reluctantTake hc hm⟩

/-- What the matcher finds is a match. -/
theorem run_sound {p : Pattern α} {before : Option α} {s : List α} {n : ℕ}
    (h : run p before s = some n) : MatchesPrefix p before s n := by
  induction p generalizing before s n with
  | nil =>
    obtain rfl : 0 = n := by simpa [run] using h
    exact ⟨Nat.zero_le _, .nil⟩
  | cons a r ih =>
    cases a with
    | one p =>
      cases s with
      | nil => simp [run] at h
      | cons c s =>
        obtain ⟨hc, m, hm, rfl⟩ := taking_eq_some.mp h
        obtain ⟨hn, hm⟩ := ih hm
        exact ⟨Nat.succ_le_succ hn, .one hc hm⟩
    | opt p =>
      cases s with
      | nil =>
        obtain ⟨hn, hm⟩ := ih (by simpa [run] using h)
        exact ⟨hn, .optSkip hm⟩
      | cons c s =>
        rcases orElse_eq_some h with h | h
        · obtain ⟨hc, m, hm, rfl⟩ := taking_eq_some.mp h
          obtain ⟨hn, hm⟩ := ih hm
          exact ⟨Nat.succ_le_succ hn, .optTake hc hm⟩
        · obtain ⟨hn, hm⟩ := ih h
          exact ⟨hn, .optSkip hm⟩
    | star p => exact runGreedy_sound (fun _ _ _ => ih) h
    | reluctant p => exact runReluctant_sound (fun _ _ _ => ih) h
    | boundary word =>
      rw [run] at h
      split_ifs at h with hb
      obtain ⟨hn, hm⟩ := ih h
      exact ⟨hn, .boundary (by rwa [List.take_append_drop]) hm⟩

theorem occurs_of_run {p : Pattern α} {pre s : List α} {n : ℕ}
    (h : run p pre.getLast? s = some n) : Occurs p (pre ++ s) :=
  ⟨pre, s.take n, s.drop n, by simp, (run_sound h).2⟩

/-- Does the pattern contain an atom that always consumes an element? -/
def consumes (p : Pattern α) : Bool :=
  p.any fun a => match a with
    | .one _ => true
    | _ => false

lemma ne_nil_of_consumes {p : Pattern α} {before : Option α} {w rest : List α}
    (h : Matches p before w rest) (hp : consumes p = true) : w ≠ [] := by
  induction h with
  | nil => simp [consumes] at hp
  | one => exact List.cons_ne_nil _ _
  | optTake => exact List.cons_ne_nil _ _
  | starTake => exact List.cons_ne_nil _ _
  | reluctantTake => exact List.cons_ne_nil _ _
  | optSkip _ ih => exact ih (by simpa [consumes] using hp)
  | starStop _ ih => exact ih (by simpa [consumes] using hp)
  | reluctantStop _ ih => exact ih (by simpa [consumes] using hp)
  | boundary _ _ ih => exact ih (by simpa [consumes] using hp)

/-- Every boundary is followed by an atom that consumes, so that no boundary
looks past the end of the match. -/
def looksInside : Pattern α → Bool
  | [] => true
  | .boundary _ :: r => consumes r && looksInside r
  | _ :: r => looksInside r

lemma Matches.change_rest {p : Pattern α} {before : Option α} {w rest rest' : List α}
    (h : Matches p before w rest) (hp : looksInside p = true) : Matches p before w rest' := by
  induction h with
  | nil => exact .nil
  | one hc _ ih => exact .one hc (ih hp)
  | optTake hc _ ih => exact .optTake hc (ih hp)
  | optSkip _ ih => exact .optSkip (ih hp)
  | starTake hc _ ih => exact .starTake hc (ih hp)
  | starStop _ ih => exact .starStop (ih hp)
  | reluctantTake hc _ ih => exact .reluctantTake hc (ih hp)
  | reluctantStop _ ih => exact .reluctantStop (ih hp)
  | boundary hb hm ih =>
    obtain ⟨hc, hi⟩ : consumes _ = true ∧ looksInside _ = true := by
      simpa [looksInside] using hp
    refine .boundary ?_ (ih hi)
    have hw := ne_nil_of_consumes hm hc
    simpa [List.head?_append_of_ne_nil _ hw] using hb

/-- A pattern that begins with an element and looks only inside its match. -/
def selfContained : Pattern α → Bool
  | .one _ :: r => looksInside r
  | _ => false

/-- Matches of a self-contained pattern do not depend on the surrounding text. -/
theorem Matches.change_context {p : Pattern α} {before before' : Option α}
    {w rest rest' : List α} (h : Matches p before w rest) (hp : selfContained p = true) :
    Matches p before' w rest' := by
  cases h with
  | one hc hm => exact .one hc (hm.change_rest hp)
  | _ => simp [selfContained] at hp

lemma ne_nil_of_selfContained {p : Pattern α} {before : Option α} {w rest : List α}
    (h : Matches p before w rest) (hp : selfContained p = true) : w ≠ [] := by
  cases h with
  | one => exact List.cons_ne_nil _ _
  | _ => simp [selfContained] at hp

end Pattern

end UrlShortener
