import Mathlib

/-! A server of typed values under keys. Each command is about one key, so that a state which
represents the entries one by one answers as the server does. -/
namespace UrlShortener.RedisServer

/-- Integers have 64 bits. -/
def Fits (n : ℤ) : Prop := -2 ^ 63 ≤ n ∧ n < 2 ^ 63

instance (n : ℤ) : Decidable (Fits n) := inferInstanceAs (Decidable (_ ∧ _))

/-- How integers are kept as strings. -/
class IntegerText (S : Type*) where
  print : ℤ → S
  read : S → Option ℤ
  read_print : ∀ n, Fits n → read (print n) = some n

inductive Value (S : Type*)
  | text (s : S)
  | hash (fields : S → Option S)
  | members (set : List S)
  | items (list : List S)

/-- A value and the instant, in milliseconds, at which it is dropped. -/
structure Entry (S : Type*) where
  value : Value S
  expireAt : Option ℕ

inductive ServerError
  | wrongType
  | notInteger
  | overflow
  | invalidExpire
  deriving DecidableEq

inductive Answer (S : Type*)
  | ok
  | nil
  | text (s : S)
  | int (n : ℤ)
  | error (e : ServerError)
  deriving DecidableEq

def Answer.isError {S : Type*} : Answer S → Bool
  | .error _ => true
  | _ => false

/-- A command without its key. -/
inductive Command (S : Type*)
  | get
  | set (value : S) (seconds : Option ℕ)
  | incr
  | hincrby (field : S) (increment : ℤ)
  | sadd (member : S)
  | rpush (value : S)
  | lpop
  | llen
  | expire (seconds : ℕ) (nx : Bool)
  | ttl
  deriving DecidableEq

variable {K S : Type*} [DecidableEq S] [IntegerText S]
open IntegerText

omit [DecidableEq S] in
/-- What is absent counts as zero. -/
def increase (old : Option S) (increment : ℤ) : Except ServerError ℤ :=
  match old with
  | none => .ok increment
  | some s =>
    match read s with
    | none => .error .notInteger
    | some n => if Fits (n + increment) then .ok (n + increment) else .error .overflow

/-- One command on one entry; a list that is empty is deleted. -/
def serveAt (now : ℕ) (c : Command S) (entry : Option (Entry S)) : Answer S × Option (Entry S) :=
  match c, entry with
  | .get, none => (.nil, none)
  | .get, some ⟨.text s, t⟩ => (.text s, some ⟨.text s, t⟩)
  | .set _ (some 0), entry => (.error .invalidExpire, entry)
  | .set value seconds, _ => (.ok, some ⟨.text value, seconds.map fun n => now + 1000 * n⟩)
  | .incr, none => (.int 1, some ⟨.text (print 1), none⟩)
  | .incr, some ⟨.text s, t⟩ =>
    match increase (some s) 1 with
    | .ok n => (.int n, some ⟨.text (print n), t⟩)
    | .error e => (.error e, some ⟨.text s, t⟩)
  | .hincrby field increment, none =>
    (.int increment,
      some ⟨.hash (Function.update (fun _ => none) field (some (print increment))), none⟩)
  | .hincrby field increment, some ⟨.hash fields, t⟩ =>
    match increase (fields field) increment with
    | .ok n => (.int n, some ⟨.hash (Function.update fields field (some (print n))), t⟩)
    | .error e => (.error e, some ⟨.hash fields, t⟩)
  | .sadd member, none => (.int 1, some ⟨.members [member], none⟩)
  | .sadd member, some ⟨.members set, t⟩ =>
    if member ∈ set then (.int 0, some ⟨.members set, t⟩)
    else (.int 1, some ⟨.members (member :: set), t⟩)
  | .rpush value, none => (.int 1, some ⟨.items [value], none⟩)
  | .rpush value, some ⟨.items list, t⟩ =>
    (.int (list.length + 1), some ⟨.items (list ++ [value]), t⟩)
  | .lpop, none => (.nil, none)
  | .lpop, some ⟨.items list, t⟩ =>
    match list with
    | [] => (.nil, none)
    | [value] => (.text value, none)
    | value :: rest => (.text value, some ⟨.items rest, t⟩)
  | .llen, none => (.int 0, none)
  | .llen, some ⟨.items list, t⟩ => (.int list.length, some ⟨.items list, t⟩)
  | .expire _ _, none => (.int 0, none)
  | .expire seconds nx, some e =>
    if nx && e.expireAt.isSome then (.int 0, some e)
    else if seconds = 0 then (.int 1, none)
    else (.int 1, some { e with expireAt := some (now + 1000 * seconds) })
  | .ttl, none => (.int (-2), none)
  | .ttl, some ⟨value, none⟩ => (.int (-1), some ⟨value, none⟩)
  | .ttl, some ⟨value, some t⟩ => (.int ((t - now + 500) / 1000 : ℕ), some ⟨value, some t⟩)
  | .get, some e | .incr, some e | .hincrby _ _, some e | .sadd _, some e | .rpush _, some e
  | .lpop, some e | .llen, some e => (.error .wrongType, some e)

structure Server (K S : Type*) where
  now : ℕ
  entries : K → Option (Entry S)

variable [DecidableEq K]

def Server.serve (s : Server K S) (key : K) (c : Command S) : Answer S × Server K S :=
  let d := serveAt s.now c (s.entries key)
  (d.1, { s with entries := Function.update s.entries key d.2 })

def Entry.due (now : ℕ) (e : Entry S) : Bool := e.expireAt.any (· ≤ now)

/-- The clock moves on, and what is due is dropped. -/
def Server.pass (s : Server K S) (ms : ℕ) : Server K S :=
  ⟨s.now + ms, fun key => (s.entries key).filter fun e => !e.due (s.now + ms)⟩

omit [DecidableEq S] in
lemma increase_print {n increment : ℤ} (hn : Fits n) (h : Fits (n + increment)) :
    increase (some (print n : S)) increment = .ok (n + increment) := by
  rw [increase, read_print n hn]
  exact if_pos h

/-! States that represent a server. -/

/-- A state of type `P` stands for the entry under the key of each slot. -/
structure Representation (K S ι P : Type*) where
  key : ι → K
  injective : Function.Injective key
  slot : ℕ → ι → Option (Entry S) → P → Prop

variable {ι P : Type*} {R : Representation K S ι P} {s : Server K S} {p p' : P}

def Representation.Holds (R : Representation K S ι P) (s : Server K S) (p : P) : Prop :=
  ∀ i, R.slot s.now i (s.entries (R.key i)) p

/-- A command on the key of a slot, where the state changes with it and in no other slot. -/
theorem Representation.Holds.serve (h : R.Holds s p) {i : ι} {c : Command S}
    (hown : R.slot s.now i (serveAt s.now c (s.entries (R.key i))).2 p')
    (hother : ∀ j ≠ i, ∀ entry, R.slot s.now j entry p → R.slot s.now j entry p') :
    R.Holds (s.serve (R.key i) c).2 p' := by
  intro j
  rw [Server.serve]
  dsimp only
  by_cases hji : j = i
  · subst hji
    rw [Function.update_self]
    exact hown
  · rw [Function.update_of_ne fun hkey => hji (R.injective hkey)]
    exact hother j hji _ (h j)

end UrlShortener.RedisServer
