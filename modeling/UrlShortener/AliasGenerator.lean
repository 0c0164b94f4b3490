import UrlShortener.JsString

/-! The base62 aliases of `aliasGenerator.ts`: the division loop that encodes an
identifier, the fold that decodes one, and their relation to the digits of a number. -/
namespace UrlShortener.AliasGenerator
open Js

def BASE62_CHARSET : JsString :=
  js "0123456789abcdefghijklmnopqrstuvwxyzABCDEFGHIJKLMNOPQRSTUVWXYZ"

def base : ℕ := BASE62_CHARSET.length

def charAt (index : ℕ) : CodeUnit := BASE62_CHARSET.getD index 0

/-- The `while` loop of `generateAlias`. -/
def encodeLoop (currentId : ℕ) (encoded : JsString) : JsString :=
  if currentId = 0 then encoded
  else encodeLoop (currentId / base) (charAt (currentId % base) :: encoded)
termination_by currentId
decreasing_by exact Nat.div_lt_self (Nat.pos_of_ne_zero ‹_›) (by decide)

def generateAlias (id : ℤ) : Except JsString JsString :=
  if id < 0 then .error (js "Invalid input: Identifier must be non-negative.")
  else if id = 0 then .ok [charAt 0]
  else .ok (encodeLoop id.toNat [])

def generateObfuscatedAlias (id offset : ℤ) : Except JsString JsString :=
  generateAlias (id + offset)

/-- Iterating over a string yields its code points, each as a string. -/
def codePoints : JsString → List JsString
  | [] => []
  | [c] => [[c]]
  | c :: d :: s =>
    if isHighSurrogate c && isLowSurrogate d then [c, d] :: codePoints s
    else [c] :: codePoints (d :: s)

/-- `BASE62_CHARSET.indexOf(char)`; a surrogate pair is never found. -/
def charIndex : JsString → Option ℕ
  | [c] => BASE62_CHARSET.idxOf? c
  | _ => none

def decodeLoop : List JsString → ℕ → Except JsString ℕ
  | [], decoded => .ok decoded
  | char :: chars, decoded =>
    match charIndex char with
    | none => .error (js "Invalid character in alias: " ++ char)
    | some index => decodeLoop chars (decoded * base + index)

def decodeAlias (s : JsString) : Except JsString ℕ := decodeLoop (codePoints s) 0

/-- The base62 numeral of a number: its digits, most significant first. -/
def numeral (n : ℕ) : JsString :=
  if n = 0 then [charAt 0] else ((Nat.digits 62 n).reverse).map charAt

theorem encodeLoop_eq (n : ℕ) (encoded : JsString) :
    encodeLoop n encoded = ((Nat.digits 62 n).reverse).map charAt ++ encoded := by
  induction n using Nat.strong_induction_on generalizing encoded with
  | _ n ih =>
    rw [encodeLoop]
    split_ifs with hn
    · simp [hn]
    · have hpos : 0 < n := Nat.pos_of_ne_zero hn
      have hlt : n / 62 < n := Nat.div_lt_self hpos (by norm_num)
      have hi := ih (n / 62) hlt (charAt (n % 62) :: encoded)
      rw [Nat.digits_def' (by norm_num) hpos]
      simpa [show base = 62 from rfl] using hi

/-- Encoding succeeds on every natural number. -/
theorem generateAlias_natCast (n : ℕ) : generateAlias n = .ok (numeral n) := by
  have hn : ¬ (n : ℤ) < 0 := by omega
  rw [generateAlias, if_neg hn, numeral]
  by_cases h : n = 0
  · simp [h]
  · have hz : ¬ (n : ℤ) = 0 := by omega
    simp [h, encodeLoop_eq]

lemma charIndex_charAt : ∀ d < 62, charIndex [charAt d] = some d := by decide +kernel

lemma charAt_alphanumeric : ∀ d < 62, isAlphanumeric (charAt d) = true := by decide +kernel

lemma charAt_not_surrogate : ∀ d < 62, isHighSurrogate (charAt d) = false := by
  decide +kernel

lemma codePoints_of_digits {ds : List ℕ} (h : ∀ d ∈ ds, d < 62) :
    codePoints (ds.map charAt) = ds.map fun d => [charAt d] := by
  induction ds with
  | nil => rfl
  | cons d ds ih =>
    have hd := charAt_not_surrogate d (h d (by simp))
    have hi := ih fun e he => h e (by simp [he])
    cases ds with
    | nil => rfl
    | cons e ds =>
      simp only [List.map_cons] at hi ⊢
      rw [codePoints, hd, hi]
      rfl

lemma decodeLoop_of_digits {ds : List ℕ} (h : ∀ d ∈ ds, d < 62) (n : ℕ) :
    decodeLoop (ds.map fun d => [charAt d]) n =
      .ok (ds.foldl (fun n d => n * 62 + d) n) := by
  induction ds generalizing n with
  | nil => rfl
  | cons d ds ih =>
    have hd := charIndex_charAt d (h d (by simp))
    rw [List.map_cons, decodeLoop, hd]
    exact ih (fun e he => h e (by simp [he])) _

/-- Decoding reads digits as a number, most significant first. -/
theorem decodeAlias_of_digits {ds : List ℕ} (h : ∀ d ∈ ds, d < 62) :
    decodeAlias (ds.map charAt) = .ok (Nat.ofDigits 62 ds.reverse) := by
  rw [decodeAlias, codePoints_of_digits h, decodeLoop_of_digits h, Nat.ofDigits_eq_foldr,
    List.foldr_reverse]
  congr 2
  funext n d
  simp only [Nat.cast_id]
  ring

/-- Decoding inverts encoding. -/
theorem decodeAlias_numeral (n : ℕ) : decodeAlias (numeral n) = .ok n := by
  rw [numeral]
  split_ifs with hn
  · subst hn
    rfl
  · have hd : ∀ d ∈ (Nat.digits 62 n).reverse, d < 62 := fun d hd =>
      Nat.digits_lt_base (by norm_num) (List.mem_reverse.mp hd)
    rw [decodeAlias_of_digits hd, List.reverse_reverse, Nat.ofDigits_digits]

theorem numeral_injective : Function.Injective numeral := by
  intro m n h
  have hd := congrArg decodeAlias h
  rw [decodeAlias_numeral, decodeAlias_numeral] at hd
  exact Except.ok.inj hd

theorem numeral_alphanumeric (n : ℕ) : ∀ c ∈ numeral n, isAlphanumeric c = true := by
  intro c hc
  rw [numeral] at hc
  split_ifs at hc with hn
  · obtain rfl := List.mem_singleton.mp hc
    decide
  · obtain ⟨d, hd, rfl⟩ := List.mem_map.mp hc
    exact charAt_alphanumeric d
      (Nat.digits_lt_base (by norm_num) (List.mem_reverse.mp hd))

/-- A positive number below a power of the base has at most that many digits. -/
theorem numeral_length_le {n : ℕ} (hn : 0 < n) (k : ℕ) :
    (numeral n).length ≤ k ↔ n < 62 ^ k := by
  rw [numeral, if_neg hn.ne', List.length_map, List.length_reverse]
  exact Nat.digits_length_le_iff (by norm_num) n

/-! The strings that decode. -/

lemma charAt_surjective {c : CodeUnit} (h : c ∈ BASE62_CHARSET) : ∃ d < 62, charAt d = c := by
  obtain ⟨d, hd, rfl⟩ := List.mem_iff_getElem.mp h
  exact ⟨d, hd, by simp [charAt, hd]⟩

lemma charIndex_eq_none {c : CodeUnit} : charIndex [c] = none ↔ c ∉ BASE62_CHARSET := by
  simp [charIndex]

lemma not_surrogate_of_mem {c : CodeUnit} (h : c ∈ BASE62_CHARSET) : isHighSurrogate c = false := by
  obtain ⟨d, hd, rfl⟩ := charAt_surjective h
  exact charAt_not_surrogate d hd

lemma decodeLoop_throws {chars : List JsString} {decoded : ℕ} :
    (∃ e, decodeLoop chars decoded = .error e) ↔ ∃ char ∈ chars, charIndex char = none := by
  induction chars generalizing decoded with
  | nil => simp [decodeLoop]
  | cons char chars ih =>
    rw [decodeLoop]
    cases h : charIndex char with
    | none => simp [h]
    | some index => simpa [h] using ih

/-- A surrogate pair is one character, and its units are as foreign as the character. -/
lemma codePoints_foreign (s : JsString) :
    (∃ char ∈ codePoints s, charIndex char = none) ↔ ∃ c ∈ s, c ∉ BASE62_CHARSET := by
  fun_induction codePoints s with
  | case1 => simp
  | case2 c => simp [charIndex_eq_none]
  | case3 c d s h ih =>
    have hc : c ∉ BASE62_CHARSET := by
      intro hmem
      simp [not_surrogate_of_mem hmem] at h
    exact iff_of_true ⟨[c, d], by simp, rfl⟩ ⟨c, by simp, hc⟩
  | case4 c d s h ih =>
    simp only [List.mem_cons (a := _) (b := c), exists_eq_or_imp, ← ih,
      List.mem_cons (a := _) (b := [c]), charIndex_eq_none]

theorem decodeAlias_throws (s : JsString) :
    (∃ e, decodeAlias s = .error e) ↔ ∃ c ∈ s, c ∉ BASE62_CHARSET :=
  decodeLoop_throws.trans (codePoints_foreign s)

lemma digits_of_decodeAlias {s : JsString} {n : ℕ} (h : decodeAlias s = .ok n) :
    ∃ ds : List ℕ, (∀ d ∈ ds, d < 62) ∧ s = ds.map charAt ∧ n = Nat.ofDigits 62 ds.reverse := by
  have hall : ∀ c ∈ s, ∃ d, d < 62 ∧ charAt d = c := by
    intro c hc
    by_contra hne
    have hforeign : c ∉ BASE62_CHARSET := fun hmem => hne (charAt_surjective hmem)
    obtain ⟨e, he⟩ := (decodeAlias_throws s).mpr ⟨c, hc, hforeign⟩
    rw [h] at he
    cases he
  obtain ⟨ds, hds, rfl⟩ : ∃ ds : List ℕ, (∀ d ∈ ds, d < 62) ∧ s = ds.map charAt := by
    clear h
    induction s with
    | nil => exact ⟨[], by simp, rfl⟩
    | cons c s ih =>
      obtain ⟨d, hd, rfl⟩ := hall c (by simp)
      obtain ⟨ds, hds, rfl⟩ := ih fun c hc => hall c (by simp [hc])
      refine ⟨d :: ds, ?_, rfl⟩
      simpa [hd] using hds
  refine ⟨ds, hds, rfl, ?_⟩
  rw [decodeAlias_of_digits hds] at h
  exact (Except.ok.inj h).symm

/-- Not empty, and without a leading zero unless it is `0`. -/
def Canonical (s : JsString) : Prop :=
  s ≠ [] ∧ (s = js "0" ∨ s.head? ≠ some (unit '0'))

lemma charAt_eq_zero : ∀ d < 62, charAt d = unit '0' ↔ d = 0 := by
  intro d hd
  constructor
  · intro hzero
    have hindex := charIndex_charAt d hd
    rw [show charAt d = charAt 0 from hzero, charIndex_charAt 0 (by omega)] at hindex
    exact (Option.some.inj hindex).symm
  · intro hzero
    rw [hzero]
    rfl

lemma numeral_canonical (n : ℕ) : Canonical (numeral n) := by
  rw [numeral]
  split_ifs with hn
  · exact ⟨by simp, .inl rfl⟩
  · have hne : Nat.digits 62 n ≠ [] := Nat.digits_ne_nil_iff_ne_zero.mpr hn
    refine ⟨by simpa using hne, .inr ?_⟩
    have hlast := Nat.getLast_digit_ne_zero 62 hn
    rw [List.head?_map, List.head?_reverse, List.getLast?_eq_some_getLast hne]
    have hlt := Nat.digits_lt_base (b := 62) (by norm_num) (List.getLast_mem hne)
    simpa [charAt_eq_zero _ hlt] using hlast

/-- A canonical numeral is the numeral of its value. -/
lemma numeral_ofDigits {ds : List ℕ} (h : ∀ d ∈ ds, d < 62) (hc : Canonical (ds.map charAt)) :
    numeral (Nat.ofDigits 62 ds.reverse) = ds.map charAt := by
  obtain ⟨hne, hzero | hhead⟩ := hc
  · obtain ⟨d, rfl, hd⟩ := List.map_eq_singleton_iff.mp hzero
    obtain rfl : d = 0 := (charAt_eq_zero d (h d (by simp))).mp hd
    rfl
  · have hds : ds.reverse ≠ [] := by simpa using hne
    have hlast : ∀ hn : ds.reverse ≠ [], ds.reverse.getLast hn ≠ 0 := by
      intro hn hz
      obtain ⟨d, ds, rfl⟩ := List.exists_cons_of_ne_nil (List.reverse_ne_nil_iff.mp hn)
      obtain rfl : d = 0 := by simpa using hz
      exact hhead rfl
    have hdigits : Nat.digits 62 (Nat.ofDigits 62 ds.reverse) = ds.reverse :=
      Nat.digits_ofDigits 62 (by norm_num) _ (by simpa using h) hlast
    have hn : Nat.ofDigits 62 ds.reverse ≠ 0 := by
      intro hz
      rw [hz] at hdigits
      exact hds hdigits.symm
    rw [numeral, if_neg hn, hdigits, List.reverse_reverse]

/-- Decoding inverts encoding, throws exactly at a character outside the alphabet, and is
inverted by encoding on the canonical numerals. -/
theorem alias_codec :
    (∀ n : ℕ, ∃ a, generateAlias n = .ok a ∧ decodeAlias a = .ok n) ∧
    (∀ s, (∃ e, decodeAlias s = .error e) ↔ ∃ c ∈ s, c ∉ BASE62_CHARSET) ∧
    ∀ s n, decodeAlias s = .ok n → (generateAlias n = .ok s ↔ Canonical s) := by
  refine ⟨fun n => ⟨numeral n, generateAlias_natCast n, decodeAlias_numeral n⟩,
    decodeAlias_throws, fun s n h => ?_⟩
  rw [generateAlias_natCast, Except.ok.injEq]
  constructor
  · rintro rfl
    exact numeral_canonical n
  · intro hc
    obtain ⟨ds, hds, rfl, rfl⟩ := digits_of_decodeAlias h
    exact numeral_ofDigits hds hc

end UrlShortener.AliasGenerator
