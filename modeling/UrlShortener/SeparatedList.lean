import Mathlib

/-! Readers of token sequences: single items, lists with a separator and bracketed lists, each
with the lemma that it reads back what was written. -/
namespace UrlShortener

/-- A reader takes a value off the front of a sequence. -/
abbrev Reader (σ α : Type*) := List σ → Option (α × List σ)

namespace Reader

variable {σ α β : Type*}

/-- One token that stands for a value. -/
def item (f : σ → Option α) : Reader σ α
  | [] => none
  | t :: ts => (f t).map fun a => (a, ts)

/-- Some more items, each behind a separator; `fuel` bounds their number. -/
def more [DecidableEq σ] (sep : σ) (r : Reader σ α) : ℕ → Reader σ (List α)
  | 0, _ => none
  | _ + 1, [] => some ([], [])
  | fuel + 1, t :: ts =>
    if t = sep then do
      let (a, rest) ← r ts
      let (as, rest) ← more sep r fuel rest
      some (a :: as, rest)
    else some ([], t :: ts)

/-- At least one item. -/
def sepBy [DecidableEq σ] (sep : σ) (r : Reader σ α) : Reader σ (List α) := fun ts => do
  let (a, rest) ← r ts
  let (as, rest) ← more sep r (rest.length + 1) rest
  some (a :: as, rest)

/-- A value between two brackets. -/
def between [DecidableEq σ] (opening closing : σ) (r : Reader σ α) : Reader σ α
  | [] => none
  | t :: ts =>
    if t = opening then do
      let (a, rest) ← r ts
      if rest.head? = some closing then some (a, rest.tail) else none
    else none

/-- The reader takes exactly what was written for a value. -/
def ReadsBack (r : Reader σ α) (a : α) (written : List σ) : Prop :=
  ∀ rest, r (written ++ rest) = some (a, rest)

lemma item_readsBack {f : σ → Option α} {t : σ} {a : α} (h : f t = some a) :
    ReadsBack (item f) a [t] := by
  intro rest
  rw [List.singleton_append, item, h]
  rfl

lemma length_le_flatMap (sep : σ) (write : β → List σ) (bs : List β) (rest : List σ) :
    bs.length ≤ (bs.flatMap (fun b => sep :: write b) ++ rest).length := by
  induction bs with
  | nil => simp
  | cons b bs ih =>
    simp only [List.flatMap_cons, List.length_append, List.length_cons] at ih ⊢
    omega

lemma intercalate_eq_flatMap (sep : σ) (write : β → List σ) (b : β) (bs : List β) :
    List.intercalate [sep] ((b :: bs).map write) =
      write b ++ bs.flatMap fun b => sep :: write b := by
  induction bs generalizing b with
  | nil => simp
  | cons c bs ih =>
    have hc := ih c
    rw [List.map_cons] at hc
    rw [List.map_cons, List.map_cons, List.intercalate_cons_cons, hc]
    simp

variable [DecidableEq σ] {sep opening closing : σ} {r : Reader σ α}

lemma between_readsBack {a : α} {written rest : List σ}
    (h : r (written ++ closing :: rest) = some (a, closing :: rest)) :
    between opening closing r (opening :: written ++ closing :: rest) = some (a, rest) := by
  rw [List.cons_append, between, if_pos rfl, h]
  simp

variable {write : β → List σ} {value : β → α}

lemma more_readsBack {bs : List β} (hr : ∀ b ∈ bs, ReadsBack r (value b) (write b))
    {rest : List σ} (hrest : rest.head? ≠ some sep) {fuel : ℕ} (hfuel : bs.length < fuel) :
    more sep r fuel (bs.flatMap (fun b => sep :: write b) ++ rest) =
      some (bs.map value, rest) := by
  induction bs generalizing fuel with
  | nil =>
    obtain ⟨fuel, rfl⟩ := Nat.exists_eq_add_one_of_ne_zero (Nat.ne_of_gt hfuel)
    cases rest with
    | nil => rfl
    | cons t rest =>
      have ht : t ≠ sep := by simpa using hrest
      exact if_neg ht
  | cons b bs ih =>
    obtain ⟨fuel, rfl⟩ := Nat.exists_eq_add_one_of_ne_zero (Nat.ne_of_gt (Nat.zero_lt_of_lt hfuel))
    have hb := hr b (by simp)
    have hbs := ih (fun c hc => hr c (by simp [hc])) (Nat.lt_of_succ_lt_succ hfuel)
    rw [List.flatMap_cons, List.append_assoc, List.cons_append, more, if_pos rfl, hb,
      Option.bind_eq_bind, Option.bind_some]
    simp only [hbs, Option.bind_eq_bind, Option.bind_some, List.map_cons]

/-- A separated list is read back where no separator follows it. -/
theorem sepBy_readsBack {bs : List β} (hne : bs ≠ [])
    (hr : ∀ b ∈ bs, ReadsBack r (value b) (write b)) {rest : List σ}
    (hrest : rest.head? ≠ some sep) :
    sepBy sep r (List.intercalate [sep] (bs.map write) ++ rest) = some (bs.map value, rest) := by
  obtain ⟨b, bs, rfl⟩ := List.exists_cons_of_ne_nil hne
  have hb := hr b (by simp)
  have hfuel := Nat.lt_succ_of_le (length_le_flatMap sep write bs rest)
  have hmore := more_readsBack (fun c hc => hr c (by simp [hc])) hrest hfuel
  rw [intercalate_eq_flatMap, List.append_assoc, sepBy, hb, Option.bind_eq_bind, Option.bind_some]
  simp only [hmore, Option.bind_eq_bind, Option.bind_some, List.map_cons]

/-- A bracketed list is read back, whatever follows it. -/
theorem bracketed_readsBack (hsep : closing ≠ sep) {bs : List β} (hne : bs ≠ [])
    (hr : ∀ b ∈ bs, ReadsBack r (value b) (write b)) :
    ReadsBack (between opening closing (sepBy sep r)) (bs.map value)
      (opening :: List.intercalate [sep] (bs.map write) ++ [closing]) := by
  intro rest
  have hrest : (closing :: rest).head? ≠ some sep := by simpa using hsep
  have hlist := sepBy_readsBack hne hr hrest
  rw [List.append_assoc, List.singleton_append]
  exact between_readsBack hlist

end Reader

end UrlShortener
