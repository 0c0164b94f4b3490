import Mathlib

/-! Catalogs of named half-open ranges that do not overlap, and the grids from which such ranges
are taken. -/
namespace UrlShortener

variable {ν β : Type*}

structure NamedRange (ν β : Type*) where
  name : ν
  lo : β
  hi : β
  deriving DecidableEq

/-- Why a range is not created: its bounds cannot be read, it is empty, or it overlaps another
one. -/
inductive Refusal
  | unreadable
  | empty
  | overlap
  deriving DecidableEq

namespace NamedRange

variable [LinearOrder β]

def Contains (p : NamedRange ν β) (x : β) : Prop := p.lo ≤ x ∧ x < p.hi

instance (p : NamedRange ν β) (x : β) : Decidable (p.Contains x) :=
  inferInstanceAs (Decidable (p.lo ≤ x ∧ x < p.hi))

/-- Two ranges that are not empty have something in common. -/
def Overlaps (p q : NamedRange ν β) : Prop := p.lo < q.hi ∧ q.lo < p.hi

instance (p q : NamedRange ν β) : Decidable (p.Overlaps q) :=
  inferInstanceAs (Decidable (p.lo < q.hi ∧ q.lo < p.hi))

lemma Contains.overlaps {p q : NamedRange ν β} {x : β} (hp : p.Contains x) (hq : q.Contains x) :
    p.Overlaps q := ⟨hp.1.trans_lt hq.2, hq.1.trans_lt hp.2⟩

lemma Overlaps.symm {p q : NamedRange ν β} (h : p.Overlaps q) : q.Overlaps p := ⟨h.2, h.1⟩

end NamedRange

structure Catalog (ν β : Type*) [LinearOrder β] where
  ranges : List (NamedRange ν β)
  names : (ranges.map NamedRange.name).Nodup
  disjoint : ranges.Pairwise fun p q => ¬ p.Overlaps q

namespace Catalog

variable [LinearOrder β]

def empty : Catalog ν β := ⟨[], List.nodup_nil, .nil⟩

def add (c : Catalog ν β) (p : NamedRange ν β) (hname : ∀ q ∈ c.ranges, q.name ≠ p.name)
    (hdisjoint : ∀ q ∈ c.ranges, ¬ q.Overlaps p) : Catalog ν β where
  ranges := c.ranges ++ [p]
  names := by
    rw [List.map_append, List.nodup_append]
    refine ⟨c.names, List.nodup_singleton _, fun name hmem name' hmem' => ?_⟩
    obtain ⟨q, hq, rfl⟩ := List.mem_map.mp hmem
    obtain rfl := List.mem_singleton.mp hmem'
    exact hname q hq
  disjoint := by
    rw [List.pairwise_append]
    refine ⟨c.disjoint, List.pairwise_singleton _ _, fun q hq p' hp' => ?_⟩
    obtain rfl := List.mem_singleton.mp hp'
    exact hdisjoint q hq

/-- The number of ranges in which a value lies. -/
def coverage (c : Catalog ν β) (x : β) : ℕ := c.ranges.countP fun p => p.Contains x

/-- Ranges that overlap are one. -/
lemma eq_of_overlaps (c : Catalog ν β) {p q : NamedRange ν β} (hp : p ∈ c.ranges)
    (hq : q ∈ c.ranges) (h : p.Overlaps q) : p = q := by
  by_contra hne
  have hsymm : Std.Symm fun p q : NamedRange ν β => ¬ p.Overlaps q :=
    ⟨fun _ _ hn ho => hn ho.symm⟩
  exact c.disjoint.forall hp hq hne h

lemma countP_le_one {α : Type*} {p : α → Bool} {as : List α}
    (h : as.Pairwise fun a b => ¬ (p a = true ∧ p b = true)) : as.countP p ≤ 1 := by
  induction as with
  | nil => simp
  | cons a as ih =>
    obtain ⟨ha, has⟩ := List.pairwise_cons.mp h
    by_cases hp : p a = true
    · have hrest : as.countP p = 0 := List.countP_eq_zero.mpr fun b hb hpb => ha b hb ⟨hp, hpb⟩
      rw [List.countP_cons_of_pos hp, hrest]
    · rw [List.countP_cons_of_neg hp]
      exact ih has

/-- No value lies in two ranges. -/
lemma coverage_le_one (c : Catalog ν β) (x : β) : c.coverage x ≤ 1 := by
  refine countP_le_one (c.disjoint.imp fun h hboth => h ?_)
  simp only [decide_eq_true_eq] at hboth
  exact hboth.1.overlaps hboth.2

theorem coverage_eq_one_iff (c : Catalog ν β) (x : β) :
    c.coverage x = 1 ↔ ∃ p ∈ c.ranges, p.Contains x := by
  have hle := c.coverage_le_one x
  have hpos : 0 < c.coverage x ↔ ∃ p ∈ c.ranges, p.Contains x := by
    simp [coverage, List.countP_pos_iff]
  rw [← hpos]
  omega

variable [DecidableEq ν]

/-- Create a range if there is none of its name. -/
def create (c : Catalog ν β) (name : ν) (bounds : Option (β × β)) :
    Except Refusal (Catalog ν β) :=
  if hname : ∃ q ∈ c.ranges, q.name = name then .ok c
  else match bounds with
    | none => .error .unreadable
    | some (lo, hi) =>
      if hi ≤ lo then .error .empty
      else if hoverlap : ∃ q ∈ c.ranges, q.Overlaps ⟨name, lo, hi⟩ then .error .overlap
      else .ok (c.add ⟨name, lo, hi⟩ (fun q hq he => hname ⟨q, hq, he⟩)
        fun q hq ho => hoverlap ⟨q, hq, ho⟩)

variable {c c' : Catalog ν β} {name : ν} {bounds : Option (β × β)} {x : β}

lemma create_of_taken (h : ∃ q ∈ c.ranges, q.name = name) : c.create name bounds = .ok c := by
  rw [create, dif_pos h]

/-- A range is created, or there was one of its name. -/
lemma create_cases (h : c.create name bounds = .ok c') :
    ((∃ q ∈ c.ranges, q.name = name) ∧ c' = c) ∨
      ∃ lo hi, bounds = some (lo, hi) ∧ c'.ranges = c.ranges ++ [⟨name, lo, hi⟩] ∧
        ∀ q ∈ c.ranges, q.name ≠ name := by
  rw [create] at h
  split_ifs at h with hname
  · exact .inl ⟨hname, (Except.ok.inj h).symm⟩
  · cases bounds with
    | none => cases h
    | some bounds =>
      dsimp only at h
      split_ifs at h
      rw [← Except.ok.inj h]
      exact .inr ⟨bounds.1, bounds.2, rfl, rfl, fun q hq he => hname ⟨q, hq, he⟩⟩

lemma mem_of_create (h : c.create name bounds = .ok c') {p : NamedRange ν β} (hp : p ∈ c.ranges) :
    p ∈ c'.ranges := by
  rcases create_cases h with ⟨-, rfl⟩ | ⟨lo, hi, -, hranges, -⟩
  · exact hp
  · rw [hranges]
    exact List.mem_append_left _ hp

lemma exists_name_of_create (h : c.create name bounds = .ok c') :
    ∃ q ∈ c'.ranges, q.name = name := by
  rcases create_cases h with ⟨htaken, rfl⟩ | ⟨lo, hi, -, hranges, -⟩
  · exact htaken
  · exact ⟨⟨name, lo, hi⟩, by rw [hranges]; simp, rfl⟩

lemma overlap_of_create (h : c.create name bounds = .error .overlap) :
    ∃ lo hi, bounds = some (lo, hi) ∧ lo < hi ∧ (∀ q ∈ c.ranges, q.name ≠ name) ∧
      ∃ q ∈ c.ranges, q.Overlaps ⟨name, lo, hi⟩ := by
  rw [create] at h
  split_ifs at h with hname
  cases bounds with
  | none => cases h
  | some bounds =>
    dsimp only at h
    split_ifs at h with hlt hoverlap
    · cases h
    · exact ⟨bounds.1, bounds.2, rfl, not_le.mp hlt, fun q hq he => hname ⟨q, hq, he⟩, hoverlap⟩

lemma create_eq_ok {lo hi : β} (hlt : lo < hi)
    (h : c.create name (some (lo, hi)) ≠ .error .overlap) :
    ∃ c', c.create name (some (lo, hi)) = .ok c' := by
  unfold create at h ⊢
  dsimp only at h ⊢
  split_ifs at h ⊢ with hname hle hoverlap
  · exact ⟨c, rfl⟩
  · exact absurd hle (not_le.mpr hlt)
  · exact absurd rfl h
  · exact ⟨_, rfl⟩

/-- Create one range after the other. -/
def createAll (c : Catalog ν β) (wanted : List (ν × Option (β × β))) :
    Except Refusal (Catalog ν β) :=
  wanted.foldlM (fun c w => c.create w.1 w.2) c

variable {wanted : List (ν × Option (β × β))} {w : ν × Option (β × β)}

lemma createAll_cons (h : c.createAll (w :: wanted) = .ok c') :
    ∃ c₁, c.create w.1 w.2 = .ok c₁ ∧ c₁.createAll wanted = .ok c' := by
  rw [createAll, List.foldlM_cons] at h
  cases hw : c.create w.1 w.2 with
  | error refusal =>
    rw [hw] at h
    cases h
  | ok c₁ =>
    rw [hw] at h
    exact ⟨c₁, rfl, h⟩

lemma createAll_of_create {c₁ : Catalog ν β} (h : c.create w.1 w.2 = .ok c₁) :
    c.createAll (w :: wanted) = c₁.createAll wanted := by
  rw [createAll, List.foldlM_cons, h]
  rfl

lemma createAll_append (c : Catalog ν β) (ws vs : List (ν × Option (β × β))) :
    c.createAll (ws ++ vs) = (c.createAll ws).bind fun c' => c'.createAll vs := by
  rw [createAll, List.foldlM_append]
  rfl

/-- Where every name is taken, nothing is created. -/
lemma createAll_of_taken (h : ∀ w ∈ wanted, ∃ q ∈ c.ranges, q.name = w.1) :
    c.createAll wanted = .ok c := by
  induction wanted with
  | nil => rfl
  | cons w wanted ih =>
    rw [createAll_of_create (create_of_taken (h w (by simp)))]
    exact ih fun v hv => h v (by simp [hv])

lemma mem_of_createAll (h : c.createAll wanted = .ok c') {p : NamedRange ν β} (hp : p ∈ c.ranges) :
    p ∈ c'.ranges := by
  induction wanted generalizing c with
  | nil =>
    obtain rfl := Except.ok.inj h
    exact hp
  | cons w wanted ih =>
    obtain ⟨c₁, hc₁, hrest⟩ := createAll_cons h
    exact ih hrest (mem_of_create hc₁ hp)

/-- A range that was created has a name that was free. -/
lemma createAll_cases (h : c.createAll wanted = .ok c') {p : NamedRange ν β} (hp : p ∈ c'.ranges) :
    p ∈ c.ranges ∨ (p.name, some (p.lo, p.hi)) ∈ wanted ∧ ∀ q ∈ c.ranges, q.name ≠ p.name := by
  induction wanted generalizing c with
  | nil =>
    obtain rfl := Except.ok.inj h
    exact .inl hp
  | cons w wanted ih =>
    obtain ⟨c₁, hc₁, hrest⟩ := createAll_cons h
    rcases ih hrest with hold | ⟨hmem, hfree⟩
    · rcases create_cases hc₁ with ⟨-, rfl⟩ | ⟨lo, hi, hbounds, hranges, hname⟩
      · exact .inl hold
      · rw [hranges] at hold
        rcases List.mem_append.mp hold with hold | hnew
        · exact .inl hold
        · obtain rfl := List.mem_singleton.mp hnew
          refine .inr ⟨?_, hname⟩
          rw [← hbounds]
          exact List.mem_cons_self
    · exact .inr ⟨List.mem_cons_of_mem _ hmem, fun q hq => hfree q (mem_of_create hc₁ hq)⟩

/-- Every wanted name is taken in the end. -/
lemma exists_name_of_createAll (h : c.createAll wanted = .ok c') (hw : w ∈ wanted) :
    ∃ q ∈ c'.ranges, q.name = w.1 := by
  induction wanted generalizing c with
  | nil => cases hw
  | cons v wanted ih =>
    obtain ⟨c₁, hc₁, hrest⟩ := createAll_cons h
    rcases List.mem_cons.mp hw with rfl | hw
    · obtain ⟨q, hq, hname⟩ := exists_name_of_create hc₁
      exact ⟨q, mem_of_createAll hrest hq, hname⟩
    · exact ih hrest hw

end Catalog

/-! Grids: the ranges between the consecutive values of an increasing sequence. -/

structure Grid (ν β : Type*) [LinearOrder β] where
  name : ℤ → ν
  bound : ℤ → β
  name_injective : Function.Injective name
  bound_strictMono : StrictMono bound

namespace Grid

variable [LinearOrder β] (g : Grid ν β)

def cell (k : ℤ) : NamedRange ν β := ⟨g.name k, g.bound k, g.bound (k + 1)⟩

/-- Every range of the catalog is a cell. -/
def Holds (c : Catalog ν β) : Prop := ∀ p ∈ c.ranges, ∃ k, p = g.cell k

lemma eq_of_overlaps {j k : ℤ} (h : (g.cell j).Overlaps (g.cell k)) : j = k := by
  have hjk := g.bound_strictMono.lt_iff_lt.mp h.1
  have hkj := g.bound_strictMono.lt_iff_lt.mp h.2
  omega

/-- Between two bounds every value lies in a cell. -/
theorem exists_cell {a b : ℤ} {x : β} (ha : g.bound a ≤ x) (hb : x < g.bound b) :
    ∃ k, a ≤ k ∧ k < b ∧ (g.cell k).Contains x := by
  have hab : a < b := g.bound_strictMono.lt_iff_lt.mp (ha.trans_lt hb)
  obtain ⟨n, rfl⟩ : ∃ n : ℕ, b = a + n := ⟨(b - a).toNat, by omega⟩
  clear hab
  induction n with
  | zero =>
    rw [Nat.cast_zero, add_zero] at hb
    exact absurd ha (not_le.mpr hb)
  | succ n ih =>
    by_cases hx : x < g.bound (a + n)
    · obtain ⟨k, hak, hkb, hk⟩ := ih hx
      exact ⟨k, hak, by omega, hk⟩
    · refine ⟨a + n, by omega, by omega, not_lt.mp hx, ?_⟩
      rw [Nat.cast_succ, ← add_assoc] at hb
      exact hb

/-- What is wanted for a cell. -/
def wanted (k : ℤ) : ν × Option (β × β) := (g.name k, some (g.bound k, g.bound (k + 1)))

/-- Where the cells from `a` to `b` are there, the values between them lie in one each. -/
theorem coverage_eq_one {c : Catalog ν β} {a b : ℤ}
    (hcells : ∀ k, a ≤ k → k < b → g.cell k ∈ c.ranges) {x : β} (ha : g.bound a ≤ x)
    (hb : x < g.bound b) : c.coverage x = 1 := by
  obtain ⟨k, hak, hkb, hk⟩ := g.exists_cell ha hb
  exact (c.coverage_eq_one_iff x).mpr ⟨_, hcells k hak hkb, hk⟩

variable {g} [DecidableEq ν] {c c' : Catalog ν β} {k : ℤ} {bounds : Option (β × β)}

/-- The bounds of a cell, or no bounds. -/
def Bounds (g : Grid ν β) (k : ℤ) (bounds : Option (β × β)) : Prop :=
  ∀ lo hi, bounds = some (lo, hi) → lo = g.bound k ∧ hi = g.bound (k + 1)

/-- Creating a cell beside cells meets no overlap. -/
theorem create_ne_overlap (hc : g.Holds c) (hbounds : g.Bounds k bounds) :
    c.create (g.name k) bounds ≠ .error .overlap := by
  intro h
  obtain ⟨lo, hi, hsome, -, hname, q, hq, hoverlap⟩ := Catalog.overlap_of_create h
  obtain ⟨rfl, rfl⟩ := hbounds lo hi hsome
  obtain ⟨j, rfl⟩ := hc q hq
  exact hname _ hq (congrArg g.name (g.eq_of_overlaps hoverlap))

/-- Afterwards there are still only cells, that one among them. -/
theorem create_holds (hc : g.Holds c) (hbounds : g.Bounds k bounds)
    (h : c.create (g.name k) bounds = .ok c') : g.Holds c' ∧ g.cell k ∈ c'.ranges := by
  rcases Catalog.create_cases h with ⟨⟨q, hq, hname⟩, rfl⟩ | ⟨lo, hi, hsome, hranges, -⟩
  · obtain ⟨j, rfl⟩ := hc q hq
    obtain rfl := g.name_injective hname
    exact ⟨hc, hq⟩
  · obtain ⟨rfl, rfl⟩ := hbounds lo hi hsome
    have hcell : g.cell k ∈ c'.ranges := by
      rw [hranges]
      exact List.mem_append_right _ (List.mem_singleton_self _)
    refine ⟨fun p hp => ?_, hcell⟩
    rw [hranges] at hp
    rcases List.mem_append.mp hp with hp | hp
    · exact hc p hp
    · exact ⟨k, List.mem_singleton.mp hp⟩

/-- Beside cells, any further cells are created. -/
theorem createAll_wanted (hc : g.Holds c) (ks : List ℤ) :
    ∃ c', c.createAll (ks.map g.wanted) = .ok c' ∧ g.Holds c' ∧
      ∀ k ∈ ks, g.cell k ∈ c'.ranges := by
  induction ks generalizing c with
  | nil => exact ⟨c, rfl, hc, fun k hk => absurd hk List.not_mem_nil⟩
  | cons k ks ih =>
    have hbounds : g.Bounds k (g.wanted k).2 := by
      intro lo hi h
      obtain ⟨rfl, rfl⟩ := Prod.mk.inj (Option.some.inj h)
      exact ⟨rfl, rfl⟩
    have hlt : g.bound k < g.bound (k + 1) := g.bound_strictMono (Int.lt_succ k)
    obtain ⟨c₁, hcreate⟩ := Catalog.create_eq_ok hlt (create_ne_overlap hc hbounds)
    obtain ⟨hholds, hcell⟩ := create_holds hc hbounds hcreate
    obtain ⟨c', hc', hholds', hcells⟩ := ih hholds
    refine ⟨c', (Catalog.createAll_of_create hcreate).trans hc', hholds', fun j hj => ?_⟩
    rcases List.mem_cons.mp hj with rfl | hj
    · exact Catalog.mem_of_createAll hc' hcell
    · exact hcells j hj

/-- What cells were wanted, these only were created, under names that were free. -/
theorem createAll_wanted_cases {ks : List ℤ} (h : c.createAll (ks.map g.wanted) = .ok c')
    {p : NamedRange ν β} (hp : p ∈ c'.ranges) :
    p ∈ c.ranges ∨ ∃ k ∈ ks, p = g.cell k ∧ ∀ q ∈ c.ranges, q.name ≠ g.name k := by
  rcases Catalog.createAll_cases h hp with hold | ⟨hnew, hfree⟩
  · exact .inl hold
  · obtain ⟨k, hk, hwanted⟩ := List.mem_map.mp hnew
    obtain ⟨hname, hbounds⟩ := Prod.mk.inj hwanted
    obtain ⟨hlo, hhi⟩ := Prod.mk.inj (Option.some.inj hbounds)
    refine .inr ⟨k, hk, ?_, hname ▸ hfree⟩
    cases p
    simp only at hname hlo hhi
    rw [Grid.cell, hname, hlo, hhi]

end Grid

end UrlShortener
