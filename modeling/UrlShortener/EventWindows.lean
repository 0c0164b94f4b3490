import Mathlib

/-! Events in an interval of time: those that a history purged of old ones admits, and those that
are numbered within successive epochs. -/
namespace UrlShortener

namespace SlidingWindow

section Purge
variable {α : Type*} [LinearOrder α]

/-- A purge that stops at the first recent entry removes all the others, when the history
is sorted. -/
theorem dropWhile_lt_eq_filter {times : List α} (hs : times.Pairwise (· ≤ ·)) (a : α) :
    times.dropWhile (fun t => t < a) = times.filter fun t => a ≤ t := by
  induction times with
  | nil => rfl
  | cons t times ih =>
    obtain ⟨ht, hs⟩ := List.pairwise_cons.mp hs
    by_cases hta : t < a
    · rw [List.dropWhile_cons_of_pos (by simpa using hta), ih hs,
        List.filter_cons_of_neg (by simpa using hta)]
    · have hall : ∀ u ∈ t :: times, a ≤ u := by
        intro u hu
        rcases List.mem_cons.mp hu with rfl | hu
        · exact not_lt.mp hta
        · exact (not_lt.mp hta).trans (ht u hu)
      rw [List.dropWhile_cons_of_neg (by simpa using hta),
        List.filter_eq_self.mpr fun u hu => by simpa using hall u hu]

/-- Filtering twice leaves what the stricter bound leaves. -/
lemma filter_filter_of_le {times : List α} {a b : α} (h : a ≤ b) :
    (times.filter fun t => a ≤ t).filter (fun t => b ≤ t) = times.filter fun t => b ≤ t := by
  rw [List.filter_filter]
  apply List.filter_congr
  intro t _
  by_cases hb : b ≤ t
  · simp [hb, h.trans hb]
  · simp [hb]

end Purge

section Admission
variable {α : Type*} [AddCommGroup α] [LinearOrder α] [IsOrderedAddMonoid α] {limit : ℕ}
  {width : α} {times : List α}

/-- Each event was admitted when fewer than `limit` of the earlier ones were at most `width`
old; it is made no sooner than it is admitted. -/
inductive Admitted (limit : ℕ) (width : α) : List α → Prop
  | nil : Admitted limit width []
  | snoc {times : List α} {now later : α} (h : Admitted limit width times)
    (hpast : ∀ t ∈ times, t ≤ now) (hnow : now ≤ later)
    (hfew : times.countP (fun t => now - width ≤ t) < limit) :
    Admitted limit width (times ++ [later])

/-- Then no closed interval of that width contains more than `limit` events, wherever it
begins. -/
theorem Admitted.countP_le (h : Admitted limit width times) (x : α) :
    times.countP (fun t => x ≤ t ∧ t ≤ x + width) ≤ limit := by
  induction h with
  | nil => exact Nat.zero_le _
  | @snoc times now later _ _ hnow hfew ih =>
    rw [List.countP_append, List.countP_singleton]
    split_ifs with hlater
    · have hend : later ≤ x + width := by simpa using (of_decide_eq_true hlater).2
      have hle : times.countP (fun t => x ≤ t ∧ t ≤ x + width) ≤
          times.countP fun t => now - width ≤ t := by
        apply List.countP_mono_left
        intro t _ ht
        have hx : x ≤ t := (of_decide_eq_true ht).1
        have hstart : now - width ≤ x := sub_le_iff_le_add.mpr (hnow.trans hend)
        exact decide_eq_true (hstart.trans hx)
      omega
    · exact ih

end Admission

end SlidingWindow

/-! Events that are numbered within successive epochs, where events two epochs apart are a
width apart: no interval shorter than the width meets three epochs. -/

namespace EpochWindow

variable {ι α : Type*} [AddCommMonoid α] [LinearOrder α] [IsOrderedAddMonoid α]

/-- Closing times of the epochs before `current`, each a width after the one before. -/
def Spaced (width : α) (current : ℕ) (closed : ℕ → α) : Prop :=
  ∀ epoch, epoch + 1 < current → closed epoch + width ≤ closed (epoch + 1)

lemma Spaced.add_le {width : α} {current : ℕ} {closed : ℕ → α} (h : Spaced width current closed)
    (hwidth : 0 ≤ width) {first last : ℕ} (hlt : first < last) (hlast : last < current) :
    closed first + width ≤ closed last := by
  induction last with
  | zero => omega
  | succ last ih =>
    have hstep := h last hlast
    rcases Nat.lt_succ_iff_lt_or_eq.mp hlt with hlt | rfl
    · exact (ih hlt (by omega)).trans ((le_add_of_nonneg_right hwidth).trans hstep)
    · exact hstep

/-- Events are a width apart where there is an epoch between them, or the earlier one is the first
of its epoch. Then an interval no longer than the width misses the first event of one epoch or
every event of the other. -/
theorem card_le_two_epochs (S : Finset ι) (time : ι → α) (epoch number : ι → ℕ) {a width : α}
    {quota : ℕ} (hstart : ∀ i ∈ S, a ≤ time i) (hend : ∀ i ∈ S, time i < a + width)
    (hnumber : ∀ i ∈ S, 1 ≤ number i ∧ number i ≤ quota)
    (hunique : ∀ i ∈ S, ∀ j ∈ S, epoch i = epoch j → number i = number j → i = j)
    (hapart : ∀ i ∈ S, ∀ j ∈ S, epoch i + 2 ≤ epoch j ∨ (number i = 1 ∧ epoch i < epoch j) →
      time i + width ≤ time j) :
    S.card ≤ 2 * quota - 1 := by
  rcases S.eq_empty_or_nonempty with rfl | hne
  · simp
  obtain ⟨first, hfirst, hleast⟩ := S.exists_min_image epoch hne
  have hclose : ∀ i ∈ S, ∀ j ∈ S,
      ¬ (epoch i + 2 ≤ epoch j ∨ (number i = 1 ∧ epoch i < epoch j)) := by
    intro i hi j hj hfar
    have hgap := hapart i hi j hj hfar
    have hlow := add_le_add_left (hstart i hi) width
    exact absurd (hend j hj) (not_lt.mpr (hlow.trans hgap))
  have hinj : Set.InjOn (fun i => (epoch i, number i)) S := by
    intro i hi j hj h
    obtain ⟨hepoch, hnum⟩ := Prod.mk.inj h
    exact hunique i hi j hj hepoch hnum
  have hquota := hnumber first hfirst
  by_cases hnext : ∃ j ∈ S, epoch j ≠ epoch first
  · obtain ⟨next, hnext, hne⟩ := hnext
    have hmaps : ∀ i ∈ S, (epoch i, number i) ∈
        ({epoch first} : Finset ℕ) ×ˢ Finset.Icc 2 quota ∪
          ({epoch first + 1} : Finset ℕ) ×ˢ Finset.Icc 1 quota := by
      intro i hi
      have hle := hleast i hi
      have hle' := hleast next hnext
      have hfar := hclose first hfirst i hi
      have hearly := hclose i hi next hnext
      have hnum := hnumber i hi
      simp only [Finset.mem_union, Finset.mem_product, Finset.mem_singleton, Finset.mem_Icc]
      omega
    have hcard := (Finset.card_le_card_of_injOn _ hmaps hinj).trans (Finset.card_union_le _ _)
    simp only [Finset.card_product, Finset.card_singleton, Nat.card_Icc] at hcard
    omega
  · push Not at hnext
    have hmaps : ∀ i ∈ S, (epoch i, number i) ∈
        ({epoch first} : Finset ℕ) ×ˢ Finset.Icc 1 quota := by
      intro i hi
      rw [Finset.mem_product, Finset.mem_singleton, Finset.mem_Icc]
      exact ⟨hnext i hi, hnumber i hi⟩
    have hcard := Finset.card_le_card_of_injOn _ hmaps hinj
    simp only [Finset.card_product, Finset.card_singleton, Nat.card_Icc] at hcard
    omega

end EpochWindow

end UrlShortener
