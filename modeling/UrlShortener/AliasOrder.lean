import UrlShortener.AliasGenerator

/-! How aliases grow with their identifiers: their length, and their order as strings. -/
namespace UrlShortener.AliasGenerator
open Js

/-- A `VARCHAR(n)` column accepts texts of at most `n` characters. -/
def FitsVarchar (n : ℕ) (s : JsString) : Prop := (codePoints s).length ≤ n

lemma numeral_of_lt {n : ℕ} (h : n < 62) : numeral n = [charAt n] := by
  rw [numeral]
  split_ifs with hn
  · rw [hn]
  · rw [Nat.digits_of_lt 62 n hn h]
    rfl

/-- The last character of an alias is its lowest digit. -/
lemma numeral_of_le {n : ℕ} (h : 62 ≤ n) :
    numeral n = numeral (n / 62) ++ [charAt (n % 62)] := by
  have hquot : n / 62 ≠ 0 := by omega
  rw [numeral, numeral, if_neg (by omega), if_neg hquot, Nat.digits_def' (by norm_num) (by omega),
    List.reverse_cons, List.map_append]
  rfl

lemma codePoints_numeral (n : ℕ) : (codePoints (numeral n)).length = (numeral n).length := by
  rw [numeral]
  split_ifs with hn
  · rfl
  · have hd : ∀ d ∈ (Nat.digits 62 n).reverse, d < 62 := fun d hd =>
      Nat.digits_lt_base (by norm_num) (List.mem_reverse.mp hd)
    rw [codePoints_of_digits hd, List.length_map, List.length_map]

/-! Their length. -/

lemma numeral_length_iff {n : ℕ} (hn : 1 ≤ n) (k : ℕ) :
    (numeral n).length = k ↔ 62 ^ (k - 1) ≤ n ∧ n < 62 ^ k := by
  have hle := numeral_length_le hn
  cases k with
  | zero =>
    have hpos := hle 0
    rw [pow_zero] at hpos ⊢
    omega
  | succ k =>
    rw [Nat.add_sub_cancel, ← hle (k + 1), ← not_lt, ← hle k]
    omega

lemma numeral_length_mono {m n : ℕ} (hmn : m ≤ n) :
    (numeral m).length ≤ (numeral n).length := by
  rcases Nat.eq_zero_or_pos m with rfl | hm
  · have hne := (numeral_canonical n).1
    exact List.length_pos_of_ne_nil hne
  · have hlt : n < 62 ^ (numeral n).length :=
      (numeral_length_le (hm.trans_le hmn) _).mp le_rfl
    exact (numeral_length_le hm _).mpr (hmn.trans_lt hlt)

/-- An alias has as many characters as its identifier has digits, those of the column's
identifiers fit, and a later identifier has no shorter alias. -/
theorem alias_length :
    (∀ id : ℕ, 1 ≤ id → ∃ a, generateAlias id = .ok a ∧
      (∀ k, a.length = k ↔ 62 ^ (k - 1) ≤ id ∧ id < 62 ^ k) ∧
      (id < 2 ^ 63 → a.length ≤ 11 ∧ FitsVarchar 16 a ∧ FitsVarchar 255 a)) ∧
    ∀ id id' : ℕ, id ≤ id' → ∃ a a', generateAlias id = .ok a ∧ generateAlias id' = .ok a' ∧
      a.length ≤ a'.length := by
  refine ⟨fun id hid => ⟨_, generateAlias_natCast id, numeral_length_iff hid, fun hbig => ?_⟩,
    fun id id' h => ⟨_, _, generateAlias_natCast id, generateAlias_natCast id',
      numeral_length_mono h⟩⟩
  have heleven : (numeral id).length ≤ 11 :=
    (numeral_length_le hid 11).mpr (hbig.trans (by norm_num))
  rw [FitsVarchar, FitsVarchar, codePoints_numeral]
  omega

/-- The last identifier that the column has. -/
theorem alias_length_last : ∃ a, generateAlias (2 ^ 63 - 1 : ℕ) = .ok a ∧ a.length = 11 ∧
    FitsVarchar 16 a := by
  obtain ⟨a, ha, hlen, hfits⟩ := alias_length.1 (2 ^ 63 - 1) (by norm_num)
  exact ⟨a, ha, (hlen 11).mpr (by norm_num), (hfits (by norm_num)).2.1⟩

/-! Their order. JavaScript compares strings code unit by code unit, and so does `<` on lists. -/

lemma snoc_lt_snoc_iff {α : Type*} [LT α] {s t : List α} (hlen : s.length = t.length) {c d : α} :
    s ++ [c] < t ++ [d] ↔ s < t ∨ s = t ∧ c < d := by
  induction s generalizing t with
  | nil =>
    obtain rfl := List.length_eq_zero_iff.mp hlen.symm
    rw [List.nil_append, List.nil_append, List.cons_lt_cons_iff]
    simp [List.not_lt_nil]
  | cons x s ih =>
    cases t with
    | nil => simp at hlen
    | cons y t =>
      have hrest := ih (Nat.succ.inj hlen)
      rw [List.cons_append, List.cons_append, List.cons_lt_cons_iff, List.cons_lt_cons_iff, hrest,
        List.cons.injEq]
      tauto

/-- The digits, then the lower-case letters, then the upper-case ones. -/
lemma charAt_toNat : ∀ d < 62, (charAt d).toNat =
    if d < 10 then 48 + d else if d < 36 then 87 + d else 29 + d := by decide +kernel

/-- A digit that stands for a lower-case letter comes after the upper-case ones. -/
lemma charAt_lt_iff {d e : ℕ} (he : e < 62) (hde : d < e) :
    charAt d < charAt e ↔ (10 ≤ d → d < 36 → e < 36) := by
  rw [UInt16.lt_iff_toNat_lt, charAt_toNat d (hde.trans he), charAt_toNat e he]
  split_ifs <;> omega

/-- Where the numbers agree above a digit, that digit is not a lower-case letter in the one and
an upper-case letter in the other. -/
def CaseKept (m n : ℕ) : Prop :=
  ∀ j, m / 62 ^ (j + 1) = n / 62 ^ (j + 1) →
    10 ≤ m / 62 ^ j % 62 → m / 62 ^ j % 62 < 36 → n / 62 ^ j % 62 < 36

lemma caseKept_of_lt {m n : ℕ} (hn : n < 62) (hmn : m < n) :
    CaseKept m n ↔ (10 ≤ m → m < 36 → n < 36) := by
  have hm : m < 62 := hmn.trans hn
  constructor
  · intro h hlow hhigh
    have hzero := h 0
    simp only [zero_add, pow_one, pow_zero, Nat.div_one, Nat.mod_eq_of_lt hm,
      Nat.mod_eq_of_lt hn, Nat.div_eq_of_lt hm, Nat.div_eq_of_lt hn] at hzero
    exact hzero trivial hlow hhigh
  · intro h j hj hlow hhigh
    cases j with
    | zero =>
      rw [pow_zero, Nat.div_one, Nat.mod_eq_of_lt hm] at hlow hhigh
      rw [pow_zero, Nat.div_one, Nat.mod_eq_of_lt hn]
      exact h hlow hhigh
    | succ j =>
      have hle : 62 ≤ 62 ^ (j + 1) := Nat.le_self_pow (Nat.succ_ne_zero j) 62
      rw [Nat.div_eq_of_lt (hm.trans_le hle)] at hlow
      omega

/-- The higher digits decide, and where they are the same the lowest one does. -/
lemma caseKept_iff (m n : ℕ) : CaseKept m n ↔ CaseKept (m / 62) (n / 62) ∧
    (m / 62 = n / 62 → 10 ≤ m % 62 → m % 62 < 36 → n % 62 < 36) := by
  constructor
  · intro h
    refine ⟨fun j => ?_, ?_⟩
    · have hj := h (j + 1)
      simp only [pow_succ' 62, ← Nat.div_div_eq_div_mul] at hj ⊢
      exact hj
    · simpa using h 0
  · intro h j
    cases j with
    | zero => simpa using h.2
    | succ j =>
      have hj := h.1 j
      simp only [pow_succ' 62, ← Nat.div_div_eq_div_mul] at hj ⊢
      exact hj

lemma caseKept_self (n : ℕ) : CaseKept n n := fun _ _ _ h => h

lemma numeral_lt_iff {m n : ℕ} (hmn : m < n) (hlen : (numeral m).length = (numeral n).length) :
    numeral m < numeral n ↔ CaseKept m n := by
  induction m using Nat.strong_induction_on generalizing n with
  | _ m ih =>
    by_cases hn : n < 62
    · rw [numeral_of_lt hn, numeral_of_lt (hmn.trans hn), caseKept_of_lt hn hmn,
        List.cons_lt_cons_iff, charAt_lt_iff hn hmn]
      simp
    · have hm : 62 ≤ m := by
        by_contra hlt
        rw [numeral_of_lt (not_le.mp hlt), numeral_of_le (not_lt.mp hn), List.length_append] at hlen
        have hne := List.length_pos_of_ne_nil (numeral_canonical (n / 62)).1
        simp only [List.length_singleton] at hlen
        omega
      rw [numeral_of_le hm, numeral_of_le (not_lt.mp hn)] at hlen ⊢
      have hhigh : (numeral (m / 62)).length = (numeral (n / 62)).length := by
        simpa using hlen
      rw [snoc_lt_snoc_iff hhigh, caseKept_iff m n]
      by_cases heq : m / 62 = n / 62
      · have hdigit : m % 62 < n % 62 := by omega
        have hlt := charAt_lt_iff (Nat.mod_lt n (by norm_num)) hdigit
        rw [heq, hlt]
        simp [caseKept_self, List.lt_irrefl]
      · have hne : numeral (m / 62) ≠ numeral (n / 62) := fun h => heq (numeral_injective h)
        rw [ih (m / 62) (by omega) (by omega) hhigh]
        simp [hne, heq]

/-- Of two aliases of one length the smaller identifier's comes first exactly when the highest
digit in which the identifiers differ is not a lower-case letter in the smaller and an
upper-case letter in the larger one. -/
theorem alias_order_iff {m n : ℕ} (hmn : m < n) {a b : JsString} (ha : generateAlias m = .ok a)
    (hb : generateAlias n = .ok b) (hlen : a.length = b.length) :
    a < b ↔ ∀ j, m / 62 ^ (j + 1) = n / 62 ^ (j + 1) →
      10 ≤ m / 62 ^ j % 62 → m / 62 ^ j % 62 < 36 → n / 62 ^ j % 62 < 36 := by
  rw [generateAlias_natCast, Except.ok.injEq] at ha hb
  subst ha hb
  exact numeral_lt_iff hmn hlen

theorem alias_order_iff_hundred : (js "1A" < js "1C" ↔ ∀ j, 98 / 62 ^ (j + 1) = 100 / 62 ^ (j + 1) →
      10 ≤ 98 / 62 ^ j % 62 → 98 / 62 ^ j % 62 < 36 → 100 / 62 ^ j % 62 < 36) ∧
    (js "a" < js "A" ↔ ∀ j, 10 / 62 ^ (j + 1) = 36 / 62 ^ (j + 1) →
      10 ≤ 10 / 62 ^ j % 62 → 10 / 62 ^ j % 62 < 36 → 36 / 62 ^ j % 62 < 36) :=
  ⟨alias_order_iff (by decide) (generateAlias_natCast 98) (generateAlias_natCast 100) (by decide),
    alias_order_iff (by decide) (generateAlias_natCast 10) (generateAlias_natCast 36) (by decide)⟩

/-- The alias `a` of 10 comes after the alias `A` of 36. -/
theorem alias_order_broken : ¬ ∀ m n : ℕ, m < n → ∀ a b, generateAlias m = .ok a →
    generateAlias n = .ok b → a.length = b.length → a < b := by
  intro h
  have hlt := h 10 36 (by decide) _ _ (generateAlias_natCast 10) (generateAlias_natCast 36)
    (by decide)
  revert hlt
  decide

end UrlShortener.AliasGenerator
