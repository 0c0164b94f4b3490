import Mathlib.Computability.Language
import UrlShortener.PatternDelete

/-! Where several deletions can leave a match. Its elements then lie apart in the text, around
stretches that the passes may erase; what they may erase is told from the text, without running
a pass over it. -/
namespace UrlShortener.Pattern
open scoped Computability

variable {α : Type*}

/-- The text from which erasing words of `B` may leave the given one. -/
def scattered (B : Language α) : List α → Language α
  | [] => B∗
  | c :: v => B∗ * {[c]} * scattered B v

/-- The same from the first to the last of its elements. -/
def spread (B : Language α) : List α → Language α
  | [] => 0
  | [c] => {[c]}
  | c :: d :: v => {[c]} * B∗ * spread B (d :: v)

/-- One of the words erased in between is from `L`. -/
def nested (B L : Language α) : List α → Language α
  | [] => 0
  | c :: v => {[c]} * ((B + L)∗ * L * (B + L)∗ * spread (B + L) v + (B + L)∗ * nested B L v)

def matching (p : Pattern α) : Language α := {w | Matches p none w []}

/-- A match of the pattern around words of `B`. -/
def around (p : Pattern α) (B : Language α) : Language α :=
  {w | ∃ v ∈ matching p, w ∈ spread B v}

/-- What the passes may erase, one after another, once the words of `B` are gone. -/
def erased (B : Language α) : List (Pattern α) → Language α
  | [] => 0
  | p :: ps => around p B + erased (B + around p B) ps

section Words
variable {B B' L L' : Language α}

lemma kstar_mul_scattered (B : Language α) (v : List α) : B∗ * scattered B v = scattered B v := by
  cases v with
  | nil => exact kstar_mul_kstar B
  | cons c v => rw [scattered, ← mul_assoc, ← mul_assoc, kstar_mul_kstar]

lemma scattered_append (B : Language α) (u v : List α) :
    scattered B (u ++ v) = scattered B u * scattered B v := by
  induction u with
  | nil => exact (kstar_mul_scattered B v).symm
  | cons c u ih => rw [List.cons_append, scattered, scattered, ih, mul_assoc _ (scattered B u)]

lemma letter_mul_scattered (B : Language α) (c : α) (v : List α) :
    {[c]} * scattered B v = spread B (c :: v) * B∗ := by
  induction v generalizing c with
  | nil => rfl
  | cons d v ih =>
    calc {[c]} * scattered B (d :: v) = {[c]} * B∗ * ({[d]} * scattered B v) := by
          simp only [scattered, mul_assoc]
      _ = spread B (c :: d :: v) * B∗ := by
          rw [ih, spread, mul_assoc _ (spread B (d :: v))]

lemma scattered_cons (B : Language α) (c : α) (v : List α) :
    scattered B (c :: v) = B∗ * spread B (c :: v) * B∗ := by
  rw [scattered, mul_assoc, letter_mul_scattered, mul_assoc]

lemma spread_mono (h : B ≤ B') (v : List α) : spread B v ≤ spread B' v := by
  induction v with
  | nil => exact le_rfl
  | cons c v ih =>
    cases v with
    | nil => exact le_rfl
    | cons d v => exact mul_le_mul' (mul_le_mul' le_rfl (kstar_mono h)) ih

lemma nested_mono (h : B + L ≤ B' + L') (hL : L ≤ L') (v : List α) :
    nested B L v ≤ nested B' L' v := by
  induction v with
  | nil => exact le_rfl
  | cons c v ih =>
    have hstar := kstar_mono h
    have hspread := spread_mono h v
    rw [nested, nested]
    gcongr

lemma singleton_mul_append {c : α} {w : List α} {l : Language α} (h : w ∈ l) :
    c :: w ∈ ({[c]} : Language α) * l :=
  Language.append_mem_mul (Set.mem_singleton [c]) h

/-- Either nothing lies between the elements, or something is erased there. -/
lemma eq_or_nested {v w : List α} (h : w ∈ spread B v) : w = v ∨ w ∈ nested 0 B v := by
  induction v generalizing w with
  | nil => exact absurd h (Language.notMem_zero w)
  | cons c v ih =>
    cases v with
    | nil => exact .inl h
    | cons d v =>
      obtain ⟨u, hu, w', hw', rfl⟩ := Language.mem_mul.mp h
      obtain ⟨_, rfl, g, hg, rfl⟩ := Language.mem_mul.mp hu
      obtain ⟨words, rfl, hwords⟩ := Language.mem_kstar.mp hg
      rw [nested, zero_add]
      cases words with
      | nil =>
        rcases ih hw' with rfl | hnested
        · exact .inl rfl
        · exact .inr (singleton_mul_append (.inr
            (Language.append_mem_mul (Language.nil_mem_kstar B) hnested)))
      | cons m words =>
        obtain ⟨hm, hwords⟩ := List.forall_mem_cons.mp hwords
        have hgap : m ++ words.flatten ∈ B∗ * B * B∗ := by
          have hfirst : m ∈ B∗ * B := Language.append_mem_mul (Language.nil_mem_kstar B) hm
          exact Language.append_mem_mul hfirst (Language.join_mem_kstar hwords)
        refine .inr ?_
        have hword : m ++ words.flatten ++ w' ∈ B∗ * B * B∗ * spread B (d :: v) :=
          Language.append_mem_mul hgap hw'
        exact singleton_mul_append (.inl hword)

end Words

/-! One more pass over a text from which words of `B` are gone already. -/

section Pass
variable {B C : Language α} {p : Pattern α}

/-- Words of `B` around what follows a stretch join that stretch. -/
lemma mul_padded_le {X Y Z : Language α} (hB : B ≤ C) (hX : X ≤ C∗) (hY : Y ≤ B∗ * Z * B∗) :
    X * Y ≤ C∗ * Z * B∗ := by
  calc X * Y ≤ C∗ * (B∗ * Z * B∗) := mul_le_mul' hX hY
    _ ≤ C∗ * (C∗ * Z * B∗) := by gcongr
    _ = C∗ * C∗ * Z * B∗ := by simp only [mul_assoc]
    _ = C∗ * Z * B∗ := by rw [kstar_mul_kstar]

lemma scattered_match {v : List α} (h : v ∈ matching p) (hv : v ≠ []) :
    scattered B v ≤ B∗ * around p B * B∗ := by
  obtain ⟨c, v, rfl⟩ := List.exists_cons_of_ne_nil hv
  rw [scattered_cons]
  have hle : spread B (c :: v) ≤ around p B := fun w hw => ⟨c :: v, h, hw⟩
  gcongr

lemma scattered_kstar (hp : [] ∉ matching p) {g : List α} (h : g ∈ (matching p)∗) :
    scattered B g ≤ (B + around p B)∗ := by
  obtain ⟨words, rfl, hwords⟩ := Language.mem_kstar.mp h
  induction words with
  | nil => exact kstar_mono le_self_add
  | cons m words ih =>
    obtain ⟨hm, hwords⟩ := List.forall_mem_cons.mp hwords
    have hB : B ≤ B + around p B := le_self_add
    have hA : around p B ≤ (B + around p B)∗ := le_add_self.trans le_kstar
    have hm' := scattered_match (B := B) hm fun hnil => hp (hnil ▸ hm)
    rw [List.flatten_cons, scattered_append]
    calc scattered B m * scattered B words.flatten
        ≤ (B∗ * around p B * B∗) * (B + around p B)∗ :=
          mul_le_mul' hm' (ih hwords (Language.join_mem_kstar hwords))
      _ ≤ ((B + around p B)∗ * (B + around p B)∗ * (B + around p B)∗) * (B + around p B)∗ := by
          gcongr
      _ = (B + around p B)∗ := by simp only [kstar_mul_kstar]

lemma scattered_spread (hp : [] ∉ matching p) {v w : List α} (h : w ∈ spread (matching p) v) :
    scattered B w ≤ B∗ * spread (B + around p B) v * B∗ := by
  induction v generalizing w with
  | nil => exact absurd h (Language.notMem_zero w)
  | cons c v ih =>
    cases v with
    | nil =>
      obtain rfl : w = [c] := h
      exact le_rfl
    | cons d v =>
      obtain ⟨u, hu, w', hw', rfl⟩ := Language.mem_mul.mp h
      obtain ⟨_, rfl, g, hg, rfl⟩ := Language.mem_mul.mp hu
      have hB : B ≤ B + around p B := le_self_add
      rw [List.append_assoc, List.singleton_append, scattered, scattered_append, spread]
      calc B∗ * {[c]} * (scattered B g * scattered B w')
          ≤ B∗ * {[c]} * ((B + around p B)∗ * spread (B + around p B) (d :: v) * B∗) :=
            mul_le_mul' le_rfl (mul_padded_le hB (scattered_kstar hp hg) (ih hw'))
        _ = B∗ * ({[c]} * (B + around p B)∗ * spread (B + around p B) (d :: v)) * B∗ := by
            simp only [mul_assoc]

lemma scattered_nested (hp : [] ∉ matching p) {v w : List α} (h : w ∈ nested 0 (matching p) v) :
    scattered B w ≤ B∗ * nested B (around p B) v * B∗ := by
  induction v generalizing w with
  | nil => exact absurd h (Language.notMem_zero w)
  | cons c v ih =>
    have hB : B ≤ B + around p B := le_self_add
    obtain ⟨_, rfl, w, hw, rfl⟩ := Language.mem_mul.mp h
    rw [zero_add] at hw
    rw [List.singleton_append, scattered, nested]
    have hrest : scattered B w ≤ ((B + around p B)∗ * around p B * (B + around p B)∗ *
        spread (B + around p B) v + (B + around p B)∗ * nested B (around p B) v) * B∗ := by
      rcases hw with hw | hw
      · obtain ⟨u, hu, w', hw', rfl⟩ := Language.mem_mul.mp hw
        obtain ⟨t, ht, g', hg', rfl⟩ := Language.mem_mul.mp hu
        obtain ⟨g, hg, m, hm, rfl⟩ := Language.mem_mul.mp ht
        have hm' := scattered_match (B := B) hm fun hnil => hp (hnil ▸ hm)
        rw [scattered_append, scattered_append, scattered_append]
        refine le_trans ?_ (mul_le_mul' le_self_add le_rfl)
        have hbefore : scattered B g * scattered B m ≤ (B + around p B)∗ * around p B * B∗ :=
          mul_padded_le hB (scattered_kstar hp hg) hm'
        have hafter : scattered B g' * scattered B w' ≤
            (B + around p B)∗ * spread (B + around p B) v * B∗ :=
          mul_padded_le hB (scattered_kstar hp hg') (scattered_spread hp hw')
        calc scattered B g * scattered B m * scattered B g' * scattered B w'
            = scattered B g * scattered B m * (scattered B g' * scattered B w') := mul_assoc _ _ _
          _ ≤ (B + around p B)∗ * around p B * B∗ *
                ((B + around p B)∗ * spread (B + around p B) v * B∗) := mul_le_mul' hbefore hafter
          _ = (B + around p B)∗ * around p B * (B∗ * (B + around p B)∗) *
                spread (B + around p B) v * B∗ := by simp only [mul_assoc]
          _ ≤ (B + around p B)∗ * around p B * ((B + around p B)∗ * (B + around p B)∗) *
                spread (B + around p B) v * B∗ := by gcongr
          _ = (B + around p B)∗ * around p B * (B + around p B)∗ *
                spread (B + around p B) v * B∗ := by rw [kstar_mul_kstar]
      · obtain ⟨g, hg, w', hw', rfl⟩ := Language.mem_mul.mp hw
        rw [scattered_append]
        exact (mul_padded_le hB (scattered_kstar hp hg) (ih hw')).trans
          (mul_le_mul' le_add_self le_rfl)
    refine (mul_le_mul' le_rfl hrest).trans (le_of_eq ?_)
    simp only [mul_assoc]

/-- The stretches that two passes in turn leave out. -/
lemma scattered_scattered (hp : [] ∉ matching p) {t u : List α}
    (h : t ∈ scattered (matching p) u) : scattered B t ≤ scattered (B + around p B) u := by
  have hB : B ≤ B + around p B := le_self_add
  induction u generalizing t with
  | nil => exact scattered_kstar hp h
  | cons c u ih =>
    obtain ⟨x, hx, t', ht', rfl⟩ := Language.mem_mul.mp h
    obtain ⟨g, hg, _, rfl, rfl⟩ := Language.mem_mul.mp hx
    have hletter : scattered B [c] ≤ B∗ * {[c]} * B∗ := le_rfl
    rw [scattered_append, scattered_append, scattered]
    calc scattered B g * scattered B [c] * scattered B t'
        ≤ (B + around p B)∗ * {[c]} * B∗ * scattered (B + around p B) u :=
          mul_le_mul' (mul_padded_le hB (scattered_kstar hp hg) hletter) (ih ht')
      _ ≤ (B + around p B)∗ * {[c]} * (B + around p B)∗ * scattered (B + around p B) u := by
          gcongr
      _ = (B + around p B)∗ * {[c]} * scattered (B + around p B) u := by
          rw [mul_assoc _ (B + around p B)∗, kstar_mul_scattered]

end Pass

/-! The passes. -/

section Passes
variable {p : Pattern α}

lemma nil_notMem_matching (hp : selfContained p = true) : [] ∉ matching p :=
  fun h => ne_nil_of_selfContained h hp rfl

lemma match_of_run (hp : selfContained p = true) {before : Option α} {s : List α} {n : ℕ}
    (h : run p before s = some n) : s.take n ∈ matching p :=
  (run_sound h).2.change_context hp

lemma deleteFrom_scattered (hp : selfContained p = true) (skip : ℕ) (before : Option α)
    (s : List α) : s.drop skip ∈ scattered (matching p) (deleteFrom p skip before s) := by
  fun_induction deleteFrom p skip before s with
  | case1 skip =>
    rw [List.drop_nil]
    exact Language.nil_mem_kstar (matching p)
  | case2 _ _ _ _ ih => exact ih
  | case3 before c s n hrun ih =>
    have hm := match_of_run hp hrun
    rw [← kstar_mul_scattered]
    have hsplit : (c :: s).drop 0 = (c :: s).take (n + 1) ++ s.drop n := by simp
    rw [hsplit]
    exact Language.append_mem_mul (le_kstar (a := matching p) hm) ih
  | case4 before c s _ ih =>
    have hc : [c] ∈ (matching p)∗ * {[c]} :=
      Language.append_mem_mul (Language.nil_mem_kstar _) (Set.mem_singleton [c])
    exact Language.append_mem_mul hc ih

lemma deleteAll_scattered (hp : selfContained p = true) (s : List α) :
    s ∈ scattered (matching p) (deleteAll p s) := deleteFrom_scattered hp 0 none s

/-- A part of what is left goes back to a part of the text. -/
lemma exists_infix {B X : Language α} {s t w : List α} (hs : s ∈ scattered B t) (hw : w <:+: t)
    (hX : scattered B w ≤ B∗ * X * B∗) : ∃ w' ∈ X, w' <:+: s := by
  obtain ⟨a, b, rfl⟩ := hw
  rw [scattered_append, scattered_append] at hs
  obtain ⟨x, hx, b', -, rfl⟩ := Language.mem_mul.mp hs
  obtain ⟨a', -, m, hm, rfl⟩ := Language.mem_mul.mp hx
  obtain ⟨y, hy, g, -, rfl⟩ := Language.mem_mul.mp (hX hm)
  obtain ⟨g', -, w', hw', rfl⟩ := Language.mem_mul.mp hy
  exact ⟨w', hw', a' ++ g', g ++ b', by simp⟩

lemma scattered_part {B : Language α} {v : List α} (hv : v ≠ []) :
    scattered B v ≤ B∗ * spread B v * B∗ := by
  obtain ⟨c, v, rfl⟩ := List.exists_cons_of_ne_nil hv
  exact (scattered_cons B c v).le

lemma scattered_deleteAll (hp : selfContained p = true) {B : Language α} {s t : List α}
    (h : s ∈ scattered B t) : s ∈ scattered (B + around p B) (deleteAll p t) :=
  scattered_scattered (nil_notMem_matching hp) (deleteAll_scattered hp t) h

/-- Every match of `p` in what is left of the text lies in the text around words of `B` and `L`, one
of them of `L`. -/
def Nests (p : Pattern α) (B L : Language α) (s t : List α) : Prop :=
  ∀ v ∈ matching p, v <:+: t → ∃ w ∈ nested B L v, w <:+: s

/-- A later pass either leaves the match as it is or is one of those that join it. -/
lemma Nests.deleteAll {q : Pattern α} (hp : selfContained p = true) (hq : selfContained q = true)
    {B L : Language α} {s t : List α} (h : s ∈ scattered (B + L) t) (hn : Nests p B L s t) :
    Nests p B (L + around q (B + L)) s (Pattern.deleteAll q t) := by
  intro v hv hinf
  have hne : v ≠ [] := fun hnil => nil_notMem_matching hp (hnil ▸ hv)
  obtain ⟨w, hw, hwt⟩ := exists_infix (deleteAll_scattered hq t) hinf (scattered_part hne)
  rcases eq_or_nested hw with rfl | hnested
  · obtain ⟨w', hw', hws⟩ := hn w hv hwt
    have hle : B + L ≤ B + (L + around q (B + L)) := by
      rw [← add_assoc]
      exact le_self_add
    exact ⟨w', nested_mono hle le_self_add w hw', hws⟩
  · obtain ⟨w', hw', hws⟩ :=
      exists_infix h hwt (scattered_nested (nil_notMem_matching hq) hnested)
    exact ⟨w', nested_mono (add_assoc _ _ _).le le_add_self v hw', hws⟩

lemma Nests.deletePasses {ps : List (Pattern α)} (hp : selfContained p = true)
    (hps : ∀ q ∈ ps, selfContained q = true) {B L : Language α} {s t : List α}
    (h : s ∈ scattered (B + L) t) (hn : Nests p B L s t) :
    Nests p B (L + erased (B + L) ps) s (Pattern.deletePasses ps t) := by
  induction ps generalizing L t with
  | nil =>
    rw [erased, add_zero]
    exact hn
  | cons q ps ih =>
    obtain ⟨hq, hps⟩ := List.forall_mem_cons.mp hps
    have hpass := scattered_deleteAll hq h
    rw [add_assoc] at hpass
    have hrest := ih hps hpass (hn.deleteAll hp hq h)
    rwa [← add_assoc B, add_assoc L] at hrest

end Passes

/-! A text folds only if two of its elements can start a match. -/

section Starts
variable {q : α → Bool} {ps : List (Pattern α)}

end Starts

end UrlShortener.Pattern
