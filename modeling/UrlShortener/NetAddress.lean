import UrlShortener.JsNumber

/-! `isIP` of the `net` module: dotted IPv4 addresses and IPv6 addresses with an optional
zone, and the code units that an address consists of. -/
namespace UrlShortener.Js
open Json

/-- A decimal number up to 255 without leading zeros. -/
def isOctet (s : JsString) : Bool :=
  match s with
  | [] => false
  | c :: t =>
    s.all isDigit && s.length ≤ 3 && (t.isEmpty || c ≠ unit '0') &&
      (readNumeral 10 s).any (· ≤ 255)

def isIPv4 (s : JsString) : Bool :=
  let parts := s.splitOn (unit '.')
  parts.length = 4 && parts.all isOctet

/-- One to four hexadecimal digits. -/
def isHextet (s : JsString) : Bool :=
  1 ≤ s.length && s.length ≤ 4 && s.all fun c => (hexValue c).isSome

/-- How many hextets a list of groups stands for; an IPv4 address may be the last group
and stands for two. -/
def hextets (mayEndInIPv4 : Bool) : List JsString → Option ℕ
  | [] => some 0
  | [group] =>
    if isHextet group then some 1
    else if mayEndInIPv4 && isIPv4 group then some 2 else none
  | group :: groups =>
    if isHextet group then (hextets mayEndInIPv4 groups).map (· + 1) else none

/-- The groups of one side of a `::`; an empty side has none. -/
def groups (s : JsString) : List JsString := if s.isEmpty then [] else s.splitOn (unit ':')

/-- The text before and after the first `::`. -/
def splitCompressed : JsString → Option (JsString × JsString)
  | [] => none
  | c :: s =>
    if (js "::").isPrefixOf (c :: s) then some ([], s.tail)
    else (splitCompressed s).map fun sides => (c :: sides.1, sides.2)

/-- Eight hextets, of which a `::` stands for at least one. -/
def isIPv6Body (s : JsString) : Bool :=
  match splitCompressed s with
  | none => hextets true (groups s) = some 8
  | some (left, right) =>
    match hextets false (groups left), hextets true (groups right) with
    | some m, some n => m + n ≤ 7
    | _, _ => false

def isZoneUnit (c : CodeUnit) : Bool := isAlphanumeric c || oneOf "-.:" c

def isIPv6 (s : JsString) : Bool :=
  match s.dropWhile (noneOf "%") with
  | [] => isIPv6Body s
  | _ :: zone => isIPv6Body (s.takeWhile (noneOf "%")) && !zone.isEmpty && zone.all isZoneUnit

def isIP (s : JsString) : ℕ := if isIPv4 s then 4 else if isIPv6 s then 6 else 0

example : ["127.0.0.1", "256.0.0.1", "01.2.3.4", "::1", "1:2:3:4:5:6:7::", "1:2:3:4:5:6:7:8",
    "::ffff:127.0.0.1", "fe80::1%eth0", "1::2::3", ":::", "1:2:3:4:5:6:7:8::", "::1%"].map
    (fun s => isIP (js s)) = [4, 0, 0, 6, 6, 6, 6, 6, 0, 0, 0, 0] := by decide +kernel

/-! The code units of an address. -/

def isAddressUnit (c : CodeUnit) : Bool := isZoneUnit c || c = unit '%'

lemma mem_splitOn {s : JsString} (sep : CodeUnit) {c : CodeUnit} (h : c ∈ s) :
    c = sep ∨ ∃ part ∈ s.splitOn sep, c ∈ part := by
  induction s with
  | nil => cases h
  | cons x s ih =>
    rw [List.splitOn_cons_eq_if_modifyHead]
    obtain ⟨part, parts, hparts⟩ := List.exists_cons_of_ne_nil (List.splitOn_ne_nil sep s)
    rw [hparts] at ih ⊢
    by_cases hx : x = sep
    · rw [if_pos (by simpa using hx)]
      rcases List.mem_cons.mp h with rfl | hs
      · exact .inl hx
      · refine (ih hs).imp_right fun hpart => ?_
        obtain ⟨q, hq, hc⟩ := hpart
        exact ⟨q, List.mem_cons_of_mem _ hq, hc⟩
    · rw [if_neg (by simpa using hx), List.modifyHead_cons]
      rcases List.mem_cons.mp h with rfl | hs
      · exact .inr ⟨_, List.mem_cons_self, List.mem_cons_self⟩
      · refine (ih hs).imp_right fun hpart => ?_
        obtain ⟨q, hq, hc⟩ := hpart
        rcases List.mem_cons.mp hq with rfl | hq
        · exact ⟨_, List.mem_cons_self, List.mem_cons_of_mem _ hc⟩
        · exact ⟨q, List.mem_cons_of_mem _ hq, hc⟩

/-- What is split at a zone unit into parts of zone units consists of them. -/
lemma all_of_splitOn {s : JsString} (sep : CodeUnit) (hsep : isZoneUnit sep = true)
    (h : ∀ part ∈ s.splitOn sep, part.all isZoneUnit = true) : s.all isZoneUnit = true := by
  refine List.all_eq_true.mpr fun c hc => ?_
  rcases mem_splitOn sep hc with rfl | hpart
  · exact hsep
  · obtain ⟨part, hpart, hc⟩ := hpart
    exact List.all_eq_true.mp (h part hpart) c hc

lemma isZoneUnit_of_isAlphanumeric {c : CodeUnit} (h : isAlphanumeric c = true) :
    isZoneUnit c = true := by
  simp [isZoneUnit, h]

lemma isOctet_units {s : JsString} (h : isOctet s = true) : s.all isZoneUnit = true := by
  cases s with
  | nil => rfl
  | cons c t =>
    simp only [isOctet, Bool.and_eq_true] at h
    obtain ⟨⟨⟨hdigits, -⟩, -⟩, -⟩ := h
    refine List.all_eq_true.mpr fun d hd => isZoneUnit_of_isAlphanumeric ?_
    simp [isAlphanumeric, List.all_eq_true.mp hdigits d hd]

lemma isIPv4_units {s : JsString} (h : isIPv4 s = true) : s.all isZoneUnit = true := by
  simp only [isIPv4, Bool.and_eq_true] at h
  refine all_of_splitOn (unit '.') (by decide) fun part hpart => ?_
  exact isOctet_units (List.all_eq_true.mp h.2 part hpart)

lemma isAlphanumeric_of_hexValue {c : CodeUnit} (h : (hexValue c).isSome) :
    isAlphanumeric c = true := by
  unfold hexValue at h
  split_ifs at h with hdigit hlower hupper
  · simp [isAlphanumeric, hdigit]
  · simp only [Bool.and_eq_true, decide_eq_true_eq] at hlower
    have hfz : unit 'f' ≤ unit 'z' := by decide
    have hz : c ≤ unit 'z' := UInt16.le_trans hlower.2 hfz
    simp [isAlphanumeric, isLower, hlower.1, hz]
  · simp only [Bool.and_eq_true, decide_eq_true_eq] at hupper
    have hfz : unit 'F' ≤ unit 'Z' := by decide
    have hz : c ≤ unit 'Z' := UInt16.le_trans hupper.2 hfz
    simp [isAlphanumeric, isUpper, hupper.1, hz]
  · cases h

lemma isHextet_units {s : JsString} (h : isHextet s = true) : s.all isZoneUnit = true := by
  simp only [isHextet, Bool.and_eq_true] at h
  refine List.all_eq_true.mpr fun c hc => isZoneUnit_of_isAlphanumeric ?_
  exact isAlphanumeric_of_hexValue (List.all_eq_true.mp h.2 c hc)

lemma hextets_units {mayEndInIPv4 : Bool} {gs : List JsString} {n : ℕ}
    (h : hextets mayEndInIPv4 gs = some n) : ∀ group ∈ gs, group.all isZoneUnit = true := by
  induction gs generalizing n with
  | nil => simp
  | cons group rest ih =>
    have hgroup : group.all isZoneUnit = true ∧ ∀ g ∈ rest, g.all isZoneUnit = true := by
      cases rest with
      | nil =>
        simp only [hextets] at h
        split_ifs at h with hhex hv4
        · exact ⟨isHextet_units hhex, by simp⟩
        · exact ⟨isIPv4_units (Bool.and_eq_true_iff.mp hv4).2, by simp⟩
      | cons g rest =>
        simp only [hextets, Option.ite_none_right_eq_some] at h
        obtain ⟨hhex, hrest⟩ := h
        obtain ⟨m, hm, -⟩ := Option.map_eq_some_iff.mp hrest
        exact ⟨isHextet_units hhex, ih hm⟩
    exact List.forall_mem_cons.mpr hgroup

lemma groups_units {mayEndInIPv4 : Bool} {s : JsString} {n : ℕ}
    (h : hextets mayEndInIPv4 (groups s) = some n) : s.all isZoneUnit = true := by
  unfold groups at h
  split_ifs at h with hnil
  · rw [List.isEmpty_iff.mp hnil]
    rfl
  · exact all_of_splitOn (unit ':') (by decide) (hextets_units h)

lemma splitCompressed_eq {s : JsString} {sides : JsString × JsString}
    (h : splitCompressed s = some sides) : s = sides.1 ++ js "::" ++ sides.2 := by
  induction s generalizing sides with
  | nil => cases h
  | cons c s ih =>
    rw [splitCompressed] at h
    split_ifs at h with hprefix
    · cases h
      obtain ⟨t, ht⟩ := List.isPrefixOf_iff_prefix.mp hprefix
      have ht' : unit ':' :: unit ':' :: t = c :: s := ht
      cases ht'
      rfl
    · obtain ⟨sides', hsides, rfl⟩ := Option.map_eq_some_iff.mp h
      simp [ih hsides]

lemma isIPv6Body_units {s : JsString} (h : isIPv6Body s = true) : s.all isZoneUnit = true := by
  unfold isIPv6Body at h
  split at h
  · exact groups_units (of_decide_eq_true h)
  · rename_i left right hsides
    split at h
    · rename_i m n hleft hright
      rw [splitCompressed_eq hsides, List.all_append, List.all_append, groups_units hleft,
        groups_units hright]
      decide
    · cases h

/-- An address consists of address units. -/
theorem isIP_units {s : JsString} (h : isIP s ≠ 0) : ∀ c ∈ s, isAddressUnit c = true := by
  intro c hc
  unfold isIP at h
  split_ifs at h with hv4 hv6
  · simp [isAddressUnit, List.all_eq_true.mp (isIPv4_units hv4) c hc]
  · unfold isIPv6 at hv6
    have hs : s.takeWhile (noneOf "%") ++ s.dropWhile (noneOf "%") = s :=
      List.takeWhile_append_dropWhile
    split at hv6
    · simp [isAddressUnit, List.all_eq_true.mp (isIPv6Body_units hv6) c hc]
    · rename_i x zone hzone
      have hx : (s.dropWhile (noneOf "%")).head? = some x := by rw [hzone]; rfl
      have hpercent : noneOf "%" x = false := by
        have hnot := List.head?_dropWhile_not (noneOf "%") s
        rw [hx] at hnot
        simpa using hnot
      simp only [Bool.and_eq_true] at hv6
      obtain ⟨⟨hbody, -⟩, hunits⟩ := hv6
      rw [← hs, hzone, List.mem_append, List.mem_cons] at hc
      rcases hc with hc | rfl | hc
      · simp [isAddressUnit, List.all_eq_true.mp (isIPv6Body_units hbody) c hc]
      · have hunit : c = unit '%' := by simpa [noneOf, js] using hpercent
        simp [isAddressUnit, hunit]
      · simp [isAddressUnit, List.all_eq_true.mp hunits c hc]
  · exact absurd rfl h

end UrlShortener.Js
