import UrlShortener.PatternDelete

/-! Deleting delimited segments: an opening element, everything up to the next closing one, and
that one too where there is one. -/
namespace UrlShortener.Pattern

variable {α : Type*}

/-- An opening element and what follows it through the next closing one. -/
def delimited (opens closes : α → Bool) : Pattern α :=
  [.one opens, .star fun c => !closes c, .opt closes]

/-- The second text is the first one without its segments: what stands between them has no
opening element, and what they enclose has no closing one. -/
inductive Stripped (opens closes : α → Bool) : List α → List α → Prop
  | done {kept} (hk : ∀ c ∈ kept, opens c = false) : Stripped opens closes kept kept
  | segment {kept o inner c rest out} (hk : ∀ c ∈ kept, opens c = false) (ho : opens o = true)
      (hi : ∀ c ∈ inner, closes c = false) (hc : closes c = true)
      (h : Stripped opens closes rest out) :
      Stripped opens closes (kept ++ o :: inner ++ c :: rest) (kept ++ out)
  | unterminated {kept o inner} (hk : ∀ c ∈ kept, opens c = false) (ho : opens o = true)
      (hi : ∀ c ∈ inner, closes c = false) :
      Stripped opens closes (kept ++ o :: inner) kept

/-- One pass that remembers whether it is inside a segment. -/
def scan (opens closes : α → Bool) : Bool → List α → List α
  | _, [] => []
  | false, c :: s => if opens c then scan opens closes true s else c :: scan opens closes false s
  | true, c :: s => if closes c then scan opens closes false s else scan opens closes true s

/-- The length of the rest of a segment. -/
def segmentRest (closes : α → Bool) : List α → ℕ
  | [] => 0
  | c :: s => if closes c then 1 else segmentRest closes s + 1

variable {opens closes : α → Bool}

/-- What is left has no opening element. -/
theorem scan_clean (inside : Bool) (s : List α) :
    ∀ c ∈ scan opens closes inside s, opens c = false := by
  fun_induction scan opens closes inside s with
  | case1 => simp
  | case2 c s h ih => exact ih
  | case3 c s h ih =>
    intro d hd
    rcases List.mem_cons.mp hd with rfl | hd
    · exact (Bool.not_eq_true _).mp h
    · exact ih d hd
  | case4 c s h ih => exact ih
  | case5 c s h ih => exact ih

lemma scan_kept {kept : List α} (hk : ∀ c ∈ kept, opens c = false) (s : List α) :
    scan opens closes false (kept ++ s) = kept ++ scan opens closes false s := by
  induction kept with
  | nil => rfl
  | cons c kept ih =>
    have hc : opens c = false := hk c (by simp)
    rw [List.cons_append, scan, if_neg (by simp [hc]), ih fun d hd => hk d (by simp [hd])]
    rfl

lemma scan_inner {inner : List α} (hi : ∀ c ∈ inner, closes c = false) (s : List α) :
    scan opens closes true (inner ++ s) = scan opens closes true s := by
  induction inner with
  | nil => rfl
  | cons c inner ih =>
    have hc : closes c = false := hi c (by simp)
    rw [List.cons_append, scan, if_neg (by simp [hc]), ih fun d hd => hi d (by simp [hd])]

lemma scan_opening {o : α} (ho : opens o = true) (s : List α) :
    scan opens closes false (o :: s) = scan opens closes true s := by
  rw [scan, if_pos ho]

lemma Stripped.eq_scan {s out : List α} (h : Stripped opens closes s out) :
    scan opens closes false s = out := by
  induction h with
  | @done kept hk => simpa [scan] using scan_kept hk []
  | @segment kept o inner c rest out hk ho hi hc _ ih =>
    rw [List.append_assoc, scan_kept hk, List.cons_append, scan_opening ho, scan_inner hi, scan,
      if_pos hc, ih]
  | @unterminated kept o inner hk ho hi =>
    have hrest : scan opens closes true inner = [] := by
      rw [← List.append_nil inner, scan_inner hi, scan]
    rw [scan_kept hk, scan_opening ho, hrest, List.append_nil]

lemma Stripped.keep {s out : List α} (h : Stripped opens closes s out) {c : α}
    (hc : opens c = false) : Stripped opens closes (c :: s) (c :: out) := by
  cases h with
  | done hk => exact .done (List.forall_mem_cons.mpr ⟨hc, hk⟩)
  | segment hk ho hi hcl h => exact .segment (List.forall_mem_cons.mpr ⟨hc, hk⟩) ho hi hcl h
  | unterminated hk ho hi => exact .unterminated (List.forall_mem_cons.mpr ⟨hc, hk⟩) ho hi

/-- The pass leaves the text without its segments, also when it starts inside of one. -/
lemma stripped_scan (s : List α) : Stripped opens closes s (scan opens closes false s) ∧
    ∀ o inner, opens o = true → (∀ c ∈ inner, closes c = false) →
      Stripped opens closes (o :: inner ++ s) (scan opens closes true s) := by
  induction s with
  | nil =>
    refine ⟨.done (by simp), fun o inner ho hi => ?_⟩
    rw [List.append_nil]
    exact .unterminated (List.forall_mem_nil _) ho hi
  | cons c s ih =>
    obtain ⟨houtside, hinside⟩ := ih
    constructor
    · rw [scan]
      split_ifs with hc
      · exact hinside c [] hc (by simp)
      · exact houtside.keep ((Bool.not_eq_true _).mp hc)
    · intro o inner ho hi
      rw [scan]
      split_ifs with hc
      · exact .segment (List.forall_mem_nil _) ho hi hc houtside
      · have hmore : ∀ d ∈ inner ++ [c], closes d = false := by
          intro d hd
          rcases List.mem_append.mp hd with hd | hd
          · exact hi d hd
          · obtain rfl := List.mem_singleton.mp hd
            exact (Bool.not_eq_true _).mp hc
        simpa using hinside o (inner ++ [c]) ho hmore

theorem stripped_iff_scan {s out : List α} :
    Stripped opens closes s out ↔ scan opens closes false s = out := by
  constructor
  · exact Stripped.eq_scan
  · rintro rfl
    exact (stripped_scan s).1

/-! The pattern finds the segments. -/

lemma runGreedy_segment (closes : α → Bool) (before : Option α) (s : List α) :
    runGreedy (fun c => !closes c) (run [.opt closes]) before s = some (segmentRest closes s) := by
  induction s generalizing before with
  | nil => rfl
  | cons c s ih =>
    rw [runGreedy, ih, segmentRest]
    by_cases hc : closes c = true
    · simp [taking, run, hc]
    · simp [taking, hc]

lemma run_delimited (before : Option α) (c : α) (s : List α) :
    run (delimited opens closes) before (c :: s) =
      if opens c then some (segmentRest closes s + 1) else none := by
  have hrest := runGreedy_segment closes (some c) s
  rw [delimited, run, run, hrest]
  rfl

/-- Deleting the pattern is the pass, both between segments and inside of one. -/
theorem deleteFrom_delimited (before : Option α) (s : List α) :
    deleteFrom (delimited opens closes) 0 before s = scan opens closes false s ∧
    deleteFrom (delimited opens closes) (segmentRest closes s) before s =
      scan opens closes true s := by
  induction s generalizing before with
  | nil => exact ⟨rfl, rfl⟩
  | cons c s ih =>
    obtain ⟨houtside, hinside⟩ := ih (some c)
    have hrun : run (delimited opens closes) before (c :: s) = _ := run_delimited before c s
    constructor
    · rw [scan]
      split_ifs with hc
      · rw [if_pos hc] at hrun
        rw [deleteFrom_hit hrun, hinside]
      · rw [if_neg hc] at hrun
        rw [deleteFrom_miss (by simp [hrun]), houtside]
    · rw [scan, segmentRest]
      split_ifs with hc
      · exact houtside
      · exact hinside

theorem deleteAll_delimited (s : List α) :
    deleteAll (delimited opens closes) s = scan opens closes false s :=
  (deleteFrom_delimited none s).1

end UrlShortener.Pattern
