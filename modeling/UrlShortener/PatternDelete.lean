import UrlShortener.PatternMatch

/-! Deleting every match of a pattern from a text in one pass from left to right,
and deleting several patterns one after another. Running the same deletions over
elements tagged with their positions tells which of them stood together. -/
namespace UrlShortener.Pattern

variable {α β : Type*}

/-- One pass over the text. `skip` counts the elements of the match being deleted
that are still to come. An empty match deletes nothing and moves on. -/
def deleteFrom (p : Pattern α) : ℕ → Option α → List α → List α
  | _, _, [] => []
  | skip + 1, _, c :: s => deleteFrom p skip (some c) s
  | 0, before, c :: s =>
    match run p before (c :: s) with
    | some (n + 1) => deleteFrom p n (some c) s
    | _ => c :: deleteFrom p 0 (some c) s

def deleteAll (p : Pattern α) (s : List α) : List α := deleteFrom p 0 none s

def deletePasses (ps : List (Pattern α)) (s : List α) : List α :=
  ps.foldl (fun s p => deleteAll p s) s

lemma deleteFrom_hit {p : Pattern α} {before : Option α} {c : α} {s : List α} {n : ℕ}
    (h : run p before (c :: s) = some (n + 1)) :
    deleteFrom p 0 before (c :: s) = deleteFrom p n (some c) s := by
  rw [deleteFrom, h]

lemma deleteFrom_miss {p : Pattern α} {before : Option α} {c : α} {s : List α}
    (h : ∀ n, run p before (c :: s) ≠ some (n + 1)) :
    deleteFrom p 0 before (c :: s) = c :: deleteFrom p 0 (some c) s := by
  rw [deleteFrom]
  split
  · rename_i n hr
    exact absurd hr (h n)
  · rfl

theorem deleteFrom_sublist (p : Pattern α) (skip : ℕ) (before : Option α) (s : List α) :
    (deleteFrom p skip before s).Sublist s := by
  fun_induction deleteFrom p skip before s with
  | case1 => exact List.Sublist.refl _
  | case2 _ _ _ _ ih => exact ih.cons _
  | case3 _ _ _ _ _ ih => exact ih.cons _
  | case4 _ _ _ _ ih => exact ih.cons_cons _

theorem deleteAll_sublist (p : Pattern α) (s : List α) : (deleteAll p s).Sublist s :=
  deleteFrom_sublist p 0 none s

theorem deletePasses_sublist (ps : List (Pattern α)) (s : List α) :
    (deletePasses ps s).Sublist s := by
  induction ps generalizing s with
  | nil => exact List.Sublist.refl _
  | cons p ps ih => exact (ih (deleteAll p s)).trans (deleteAll_sublist p s)

/-- Without an occurrence the pass changes nothing. -/
theorem deleteAll_eq_self {p : Pattern α} {s : List α} (h : ¬ Occurs p s) :
    deleteAll p s = s := by
  suffices ∀ t pre, s = pre ++ t → deleteFrom p 0 pre.getLast? t = t from this s [] rfl
  intro t
  induction t with
  | nil => intro pre _; rfl
  | cons c t ih =>
    intro pre hs
    have hrun : run p pre.getLast? (c :: t) = none := by
      cases hr : run p pre.getLast? (c :: t) with
      | none => rfl
      | some n => exact absurd (hs ▸ occurs_of_run hr) h
    have ht := ih (pre ++ [c]) (by simp [hs])
    rw [List.getLast?_concat] at ht
    rw [deleteFrom_miss (by simp [hrun]), ht]

theorem deletePasses_eq_self {ps : List (Pattern α)} {s : List α}
    (h : ∀ p ∈ ps, ¬ Occurs p s) : deletePasses ps s = s := by
  induction ps with
  | nil => rfl
  | cons p ps ih =>
    have hp : deleteAll p s = s := deleteAll_eq_self (h p (by simp))
    change deletePasses ps (deleteAll p s) = s
    rw [hp]
    exact ih fun q hq => h q (by simp [hq])

lemma getLast?_cons_or (d : α) (pre : List α) (before : Option α) :
    (d :: pre).getLast?.or before = pre.getLast?.or (some d) := by
  cases h : pre.getLast? <;> simp [List.getLast?_cons, h]

/-- A pass that changes nothing has found no match anywhere. -/
theorem no_match_of_deleteFrom_eq_self {p : Pattern α} {s pre post : List α} {c : α}
    {before : Option α} (h : deleteFrom p 0 before s = s) (hs : s = pre ++ c :: post) (n : ℕ) :
    run p (pre.getLast?.or before) (c :: post) ≠ some (n + 1) := by
  have hshort : ∀ m d t, deleteFrom p m (some d) t ≠ d :: t := by
    intro m d t he
    have hl := (deleteFrom_sublist p m (some d) t).length_le
    rw [he, List.length_cons] at hl
    omega
  induction pre generalizing s before with
  | nil =>
    obtain rfl : s = c :: post := hs
    intro hr
    have hr' : run p before (c :: post) = some (n + 1) := hr
    rw [deleteFrom_hit hr'] at h
    exact hshort n c post h
  | cons d pre ih =>
    obtain rfl : s = d :: (pre ++ c :: post) := hs
    rw [getLast?_cons_or]
    by_cases hr : ∃ m, run p before (d :: (pre ++ c :: post)) = some (m + 1)
    · obtain ⟨m, hr⟩ := hr
      rw [deleteFrom_hit hr] at h
      exact absurd h (hshort m d _)
    · rw [deleteFrom_miss (not_exists.mp hr)] at h
      exact ih (List.cons.inj h).2 rfl

/-- A pass over a text in which the pattern occurs deletes something. -/
theorem deleteAll_ne_self {p : Pattern α} {s : List α} (hp : selfContained p = true)
    (h : Occurs p s) : deleteAll p s ≠ s := by
  obtain ⟨pre, w, post, rfl, hm⟩ := h
  intro he
  cases w with
  | nil => exact ne_nil_of_selfContained hm hp rfl
  | cons c w =>
    obtain ⟨n, hn⟩ := Option.isSome_iff_exists.mp (run_complete hm)
    cases n with
    | zero => exact ne_nil_of_selfContained (run_sound hn).2 hp rfl
    | succ n =>
      have hsplit : pre ++ (c :: w) ++ post = pre ++ c :: (w ++ post) := by simp
      have hno := no_match_of_deleteFrom_eq_self he hsplit n
      exact hno (by simpa using hn)

/-- When every match starts with an element of a class, a pass that deletes
something leaves fewer elements of that class. -/
theorem countP_deleteFrom_lt {p : Pattern α} {q : α → Bool}
    (hq : ∀ before c s n, run p before (c :: s) = some (n + 1) → q c = true)
    {before : Option α} {s : List α} (h : deleteFrom p 0 before s ≠ s) :
    (deleteFrom p 0 before s).countP q < s.countP q := by
  induction s generalizing before with
  | nil => exact absurd rfl h
  | cons c s ih =>
    by_cases hr : ∃ n, run p before (c :: s) = some (n + 1)
    · obtain ⟨n, hr⟩ := hr
      have hc : q c = true := hq _ _ _ _ hr
      have hle : (deleteFrom p n (some c) s).countP q ≤ s.countP q :=
        (deleteFrom_sublist p n (some c) s).countP_le
      rw [deleteFrom_hit hr, List.countP_cons_of_pos hc]
      omega
    · rw [deleteFrom_miss (not_exists.mp hr)] at h ⊢
      have hlt := ih fun he => h (by rw [he])
      rw [List.countP_cons, List.countP_cons]
      omega

/-- Without an occurrence nothing is deleted, and with one the class counted shrinks. -/
theorem countP_deletePasses_lt {ps : List (Pattern α)} {q : α → Bool} {s : List α}
    (hps : ∀ p ∈ ps, selfContained p = true ∧
      ∀ before c s n, run p before (c :: s) = some (n + 1) → q c = true)
    (h : ∃ p ∈ ps, Occurs p s) : (deletePasses ps s).countP q < s.countP q := by
  induction ps with
  | nil =>
    obtain ⟨p, hp, -⟩ := h
    simp at hp
  | cons p ps ih =>
    obtain ⟨hself, hstart⟩ := hps p (by simp)
    change (deletePasses ps (deleteAll p s)).countP q < s.countP q
    have hle : (deletePasses ps (deleteAll p s)).countP q ≤ (deleteAll p s).countP q :=
      (deletePasses_sublist ps (deleteAll p s)).countP_le
    by_cases he : deleteAll p s = s
    · rw [he]
      refine ih (fun r hr => hps r (by simp [hr])) ?_
      obtain ⟨r, hr, ho⟩ := h
      rcases List.mem_cons.mp hr with rfl | hr
      · exact absurd he (deleteAll_ne_self hself ho)
      · exact ⟨r, hr, ho⟩
    · have hlt := countP_deleteFrom_lt hstart he
      exact lt_of_le_of_lt hle hlt

def Atom.comap (f : β → α) : Atom α → Atom β
  | .one p => .one (p ∘ f)
  | .opt p => .opt (p ∘ f)
  | .star p => .star (p ∘ f)
  | .reluctant p => .reluctant (p ∘ f)
  | .boundary word => .boundary (word ∘ f)

def comap (f : β → α) (p : Pattern α) : Pattern β := p.map (Atom.comap f)

lemma atBoundary_comap (f : β → α) (word : α → Bool) (before after : Option β) :
    atBoundary (word ∘ f) before after = atBoundary word (before.map f) (after.map f) := by
  cases before <;> cases after <;> rfl

/-- A match of the mapped block is a match of the block. -/
theorem Matches.comap {f : β → α} {p : Pattern α} {before : Option β} {w rest : List β}
    (h : Matches p (before.map f) (w.map f) (rest.map f)) :
    Matches (Pattern.comap f p) before w rest := by
  generalize hb : before.map f = b, hw : w.map f = v, hr : rest.map f = t at h
  induction h generalizing before w with
  | nil =>
    obtain rfl : w = [] := by simpa using hw
    exact .nil
  | one hc _ ih =>
    obtain ⟨d, w, rfl, rfl, rfl⟩ := List.map_eq_cons_iff.mp hw
    exact .one hc (ih rfl rfl hr)
  | optTake hc _ ih =>
    obtain ⟨d, w, rfl, rfl, rfl⟩ := List.map_eq_cons_iff.mp hw
    exact .optTake hc (ih rfl rfl hr)
  | optSkip _ ih => exact .optSkip (ih hb hw hr)
  | starTake hc _ ih =>
    obtain ⟨d, w, rfl, rfl, rfl⟩ := List.map_eq_cons_iff.mp hw
    exact .starTake hc (ih rfl rfl hr)
  | starStop _ ih => exact .starStop (ih hb hw hr)
  | reluctantTake hc _ ih =>
    obtain ⟨d, w, rfl, rfl, rfl⟩ := List.map_eq_cons_iff.mp hw
    exact .reluctantTake hc (ih rfl rfl hr)
  | reluctantStop _ ih => exact .reluctantStop (ih hb hw hr)
  | boundary hbd _ ih =>
    refine .boundary ?_ (ih hb hw hr)
    subst hb hw hr
    rw [atBoundary_comap, ← List.head?_map, List.map_append]
    exact hbd

end UrlShortener.Pattern
