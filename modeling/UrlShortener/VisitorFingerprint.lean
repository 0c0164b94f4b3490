import UrlShortener.ClickQueue

/-! Fingerprints of visitors: which of them are the same text, and what the sets
`metrics:visitors:*` then count. -/
namespace UrlShortener.Analytics
open Js Transition FlushWorker ClickQueue

/-- An address and a sanitised user agent. -/
structure Visitor where
  ip_address : JsString
  user_agent : JsString
  deriving DecidableEq

def Visitor.fingerprint (v : Visitor) : JsString := v.ip_address ++ unit ':' :: v.user_agent

def TrackedClick.visitor (c : TrackedClick) : Visitor := ⟨c.ip_address, c.user_agent⟩

/-- The visitor of a call. -/
def visitor (ip userAgent : JsString) : Visitor := ⟨ip, sanitize userAgent⟩

/-- The one address goes on behind the other with a colon, and the user agent that comes with
the other one begins with the rest and a colon. -/
def Completes (v w : Visitor) : Prop :=
  ∃ rest, w.ip_address = v.ip_address ++ unit ':' :: rest ∧
    v.user_agent = rest ++ unit ':' :: w.user_agent

/-- The one address goes on behind the other with a colon and no more than a user agent. -/
def Extends (ip ip' : JsString) : Prop :=
  ∃ rest, ip' = ip ++ unit ':' :: rest ∧ rest.length ≤ 511

section Text

/-- Texts around a separator are the same where one separator is found in the other's part. -/
lemma append_sep_eq_iff {α : Type*} {sep : α} {a s b t : List α} :
    a ++ sep :: s = b ++ sep :: t ↔
      (a = b ∧ s = t) ∨ (∃ rest, b = a ++ sep :: rest ∧ s = rest ++ sep :: t) ∨
        ∃ rest, a = b ++ sep :: rest ∧ t = rest ++ sep :: s := by
  rw [List.append_eq_append_iff]
  constructor
  · intro h
    rcases h with ⟨rest, hb, hs⟩ | ⟨rest, ha, ht⟩
    · cases rest with
      | nil =>
        obtain ⟨-, rfl⟩ := List.cons.inj hs
        exact .inl ⟨by simp [hb], rfl⟩
      | cons x rest =>
        obtain ⟨rfl, htail⟩ := List.cons.inj hs
        exact .inr (.inl ⟨rest, hb, htail⟩)
    · cases rest with
      | nil =>
        obtain ⟨-, rfl⟩ := List.cons.inj ht
        exact .inl ⟨by simp [ha], rfl⟩
      | cons x rest =>
        obtain ⟨rfl, htail⟩ := List.cons.inj ht
        exact .inr (.inr ⟨rest, ha, htail⟩)
  · intro h
    rcases h with ⟨rfl, rfl⟩ | ⟨rest, rfl, rfl⟩ | ⟨rest, rfl, rfl⟩
    · exact .inl ⟨[], by simp, rfl⟩
    · exact .inl ⟨sep :: rest, rfl, rfl⟩
    · exact .inr ⟨sep :: rest, rfl, rfl⟩

lemma fingerprint_eq_iff {v w : Visitor} :
    v.fingerprint = w.fingerprint ↔ v = w ∨ Completes v w ∨ Completes w v := by
  obtain ⟨ip, agent⟩ := v
  obtain ⟨ip', agent'⟩ := w
  rw [Visitor.mk.injEq]
  exact append_sep_eq_iff

lemma Completes.ne {v w : Visitor} (h : Completes v w) : v ≠ w := by
  intro hvw
  obtain ⟨rest, hip, -⟩ := h
  rw [hvw, List.self_eq_append_right] at hip
  exact List.cons_ne_nil _ _ hip

/-- Different visitors share a fingerprint when one completes the other. -/
lemma fingerprint_faithful_iff {v w : Visitor} :
    (v.fingerprint = w.fingerprint → v = w) ↔ ¬ Completes v w ∧ ¬ Completes w v := by
  rw [fingerprint_eq_iff]
  constructor
  · intro h
    exact ⟨fun hc => hc.ne (h (.inr (.inl hc))), fun hc => hc.ne (h (.inr (.inr hc))).symm⟩
  · intro h hcases
    exact hcases.resolve_right fun hc => hc.elim h.1 h.2

end Text

section Agents

/-- Address units are visible and no angle brackets. -/
lemma isAddressUnit_facts {c : CodeUnit} (h : isAddressUnit c = true) :
    noneOf "<>" c = true ∧ isWhiteSpace c = false := by
  simp only [isAddressUnit, isZoneUnit, isAlphanumeric, isDigit, isLower, isUpper,
    Bool.or_eq_true, Bool.and_eq_true, decide_eq_true_eq, UInt16.le_iff_toNat_le] at h
  have hrange : 33 ≤ c.toNat ∧ c.toNat ≤ 126 ∧ c.toNat ≠ 60 ∧ c.toNat ≠ 62 := by
    have hpunctuation : oneOf "-.:" c = true → c.toNat = 45 ∨ c.toNat = 46 ∨ c.toNat = 58 := by
      intro hc
      have hcases : c = unit '-' ∨ c = unit '.' ∨ c = unit ':' := by simpa [oneOf, js] using hc
      rcases hcases with rfl | rfl | rfl <;> decide
    rcases h with (((h | h) | h) | h) | rfl
    · change 48 ≤ c.toNat ∧ c.toNat ≤ 57 at h
      omega
    · change 97 ≤ c.toNat ∧ c.toNat ≤ 122 at h
      omega
    · change 65 ≤ c.toNat ∧ c.toNat ≤ 90 at h
      omega
    · have hvalues := hpunctuation h
      omega
    · decide
  refine ⟨?_, isWhiteSpace_of_visible ⟨hrange.1, hrange.2.1⟩⟩
  have hne : c ≠ unit '<' ∧ c ≠ unit '>' := by
    constructor
    · intro hc
      exact hrange.2.2.1 (by rw [hc]; rfl)
    · intro hc
      exact hrange.2.2.2 (by rw [hc]; rfl)
  simpa [noneOf, js] using hne

/-- A user agent made of address units is what it is sanitised to. -/
lemma sanitize_address {s : JsString} (h : ∀ c ∈ s, isAddressUnit c = true)
    (hlength : s.length ≤ 512) : sanitize s = s := by
  have hfilter : s.filter (noneOf "<>") = s :=
    List.filter_eq_self.mpr fun c hc => (isAddressUnit_facts (h c hc)).1
  have htrim : trim s = s := by
    refine trimBy_eq_self (fun c hc => ?_) fun c hc => ?_
    · exact (isAddressUnit_facts (h c (List.mem_of_head? hc))).2
    · exact (isAddressUnit_facts (h c (List.mem_of_getLast? hc))).2
  rw [sanitize, hfilter, htrim, List.take_of_length_le hlength]

/-- The user agent that makes up for the rest of a longer address. -/
lemma exists_completes {ip ip' : JsString} (hip : isIP ip' ≠ 0) (h : Extends ip ip') :
    ∃ userAgent, Completes (visitor ip userAgent) (visitor ip' []) := by
  obtain ⟨rest, rfl, hlength⟩ := h
  refine ⟨rest ++ [unit ':'], rest, rfl, ?_⟩
  have hunits : ∀ c ∈ rest ++ [unit ':'], isAddressUnit c = true := by
    intro c hc
    refine isIP_units hip c (List.mem_append_right _ ?_)
    rw [List.mem_append, List.mem_singleton] at hc
    exact List.mem_cons.mpr hc.symm
  refine sanitize_address hunits ?_
  rw [List.length_append, List.length_singleton]
  omega

lemma Completes.extends {ip ip' userAgent userAgent' : JsString}
    (h : Completes (visitor ip userAgent) (visitor ip' userAgent')) : Extends ip ip' := by
  obtain ⟨rest, hip, hagent⟩ := h
  refine ⟨rest, hip, ?_⟩
  have hlength : (sanitize userAgent).length ≤ 512 := List.length_take_le _ _
  have hsum := congrArg List.length hagent
  simp only [visitor, List.length_append, List.length_cons] at hsum
  omega

end Agents

/-! The sets, in any interleaving of calls whose commands may fail or lose their reply. -/

/-- The stores, with the visitors that were ever added to a set, by its key. -/
structure VisitLog where
  queue : Queue
  recorded : List (JsString × Visitor)

def recordedBy : Event → TrackPc → List (JsString × Visitor)
  | .command reply, .fingerprinting c day =>
    if reply.outcome = .failed then [] else [(visitorsKey c.url_id day, c.visitor)]
  | _, _ => []

def visitStep (e : Event) (l : VisitLog) (pc : TrackPc) : Option (VisitLog × TrackPc) :=
  (producerStep e l.queue pc).map fun d => (⟨d.1, l.recorded ++ recordedBy e pc⟩, d.2)

def visits : Threads VisitLog TrackPc Event Empty where
  step := visitStep
  env e := e.elim

def emptyLog : VisitLog := ⟨emptyQueue, []⟩

/-- The different visitors of a set. -/
def VisitLog.visitors (l : VisitLog) (key : JsString) : Finset Visitor :=
  ((l.recorded.filter (·.1 = key)).map Prod.snd).toFinset

section Sets

/-- A set holds the fingerprints of its visitors, each once. -/
def Recorded (l : VisitLog) : Prop :=
  ∀ key, (l.queue.store.visitors key).Nodup ∧
    ∀ fingerprint, fingerprint ∈ l.queue.store.visitors key ↔
      ∃ v ∈ l.visitors key, v.fingerprint = fingerprint

lemma VisitLog.mem_visitors {l : VisitLog} {key : JsString} {v : Visitor} :
    v ∈ l.visitors key ↔ (key, v) ∈ l.recorded := by
  simp [VisitLog.visitors]

/-- A step executes SADD, or it leaves the sets as they are. -/
lemma visitors_of_step {e : Event} {l l' : VisitLog} {pc pc' : TrackPc}
    (h : visitStep e l pc = some (l', pc')) :
    (l'.queue.store.visitors = l.queue.store.visitors ∧ l'.recorded = l.recorded) ∨
    ∃ (c : TrackedClick) (day : JsString),
      l'.queue.store = l.queue.store.sadd (visitorsKey c.url_id day) c.fingerprint ∧
      l'.recorded = l.recorded ++ [(visitorsKey c.url_id day, c.visitor)] := by
  obtain ⟨⟨q', pc''⟩, hstep, hd⟩ := Option.map_eq_some_iff.mp h
  obtain ⟨rfl, rfl⟩ := Prod.mk.inj hd
  rcases producerStep_cases hstep with ⟨call, rfl, -, rfl, -⟩ | ⟨⟨outcome, now⟩, s', rfl, hs, rfl⟩
  · exact .inl ⟨rfl, List.append_nil _⟩
  · cases pc with
    | fingerprinting c day =>
      cases outcome with
      | failed =>
        cases hs
        exact .inl ⟨rfl, List.append_nil _⟩
      | served | lost =>
        cases hs
        exact .inr ⟨c, day, rfl, rfl⟩
    | checking c | counting c | pushing c =>
      cases outcome <;> cases hs <;> exact .inl ⟨rfl, List.append_nil _⟩
    | finished => cases hs

lemma Recorded.sadd {l l' : VisitLog} {key : JsString} {v : Visitor} (h : Recorded l)
    (hstore : l'.queue.store = l.queue.store.sadd key v.fingerprint)
    (hrecorded : l'.recorded = l.recorded ++ [(key, v)]) : Recorded l' := by
  intro other
  obtain ⟨hnodup, hmem⟩ := h other
  have hvisitors : ∀ w, w ∈ l'.visitors other ↔ w ∈ l.visitors other ∨ key = other ∧ w = v := by
    intro w
    rw [VisitLog.mem_visitors, VisitLog.mem_visitors, hrecorded, eq_comm (a := key)]
    simp
  rw [hstore]
  refine ⟨Metrics.nodup_sadd hnodup key v.fingerprint, fun fingerprint => ?_⟩
  rw [Metrics.mem_sadd, hmem]
  constructor
  · intro hcases
    rcases hcases with ⟨w, hw, rfl⟩ | ⟨hkey, rfl⟩
    · exact ⟨w, (hvisitors w).mpr (.inl hw), rfl⟩
    · exact ⟨v, (hvisitors v).mpr (.inr ⟨hkey, rfl⟩), rfl⟩
  · intro hw
    obtain ⟨w, hw, rfl⟩ := hw
    rcases (hvisitors w).mp hw with hw | ⟨hkey, rfl⟩
    · exact .inl ⟨w, hw, rfl⟩
    · exact .inr ⟨hkey, rfl⟩

lemma recorded_of_reaches {ι : Type*} [DecidableEq ι] {d : VisitLog × (ι → TrackPc)}
    (h : (visits.system ι).Reaches (emptyLog, fun _ => .finished) d) : Recorded d.1 := by
  refine h.invariant (P := fun d => Recorded d.1) (fun a s t hs hnext => ?_) ?_
  · cases a with
    | inl a =>
      obtain ⟨l', pc', hstep, rfl⟩ := Threads.next_thread hnext
      rcases visitors_of_step hstep with ⟨hvisitors, hrecorded⟩ | ⟨c, day, hstore, hrecorded⟩
      · intro key
        change (l'.queue.store.visitors key).Nodup ∧ _
        rw [hvisitors]
        have hsame : l'.visitors key = s.1.visitors key := by
          rw [VisitLog.visitors, VisitLog.visitors, hrecorded]
        rw [hsame]
        exact hs key
      · exact Recorded.sadd hs hstore hrecorded
    | inr e => exact e.elim
  · intro key
    exact ⟨List.nodup_nil, fun fingerprint => by simp [emptyLog, emptyQueue, VisitLog.visitors]⟩

/-- A set is as large as the number of its visitors when none of them completes another. -/
lemma Recorded.length_visitors {l : VisitLog} (h : Recorded l) (key : JsString) :
    (l.queue.store.visitors key).length = (l.visitors key).card ↔
      ∀ v ∈ l.visitors key, ∀ w ∈ l.visitors key, ¬ Completes v w := by
  obtain ⟨hnodup, hmem⟩ := h key
  have himage : (l.queue.store.visitors key).toFinset =
      (l.visitors key).image Visitor.fingerprint := by
    ext fingerprint
    rw [List.mem_toFinset, hmem, Finset.mem_image]
  rw [← List.toFinset_card_of_nodup hnodup, himage, Finset.card_image_iff]
  constructor
  · intro hinj v hv w hw hc
    exact hc.ne (hinj hv hw (fingerprint_eq_iff.mpr (.inr (.inl hc))))
  · intro hnone v hv w hw heq
    exact (fingerprint_eq_iff.mp heq).resolve_right fun hc =>
      hc.elim (hnone v hv w hw) (hnone w hw v hv)

end Sets

/-- Two visitors share a fingerprint without being the same exactly when one completes the
other; two addresses never let their visitors do so exactly when neither extends the other;
and a set counts its visitors exactly when none of them completes another. -/
theorem fingerprints_faithful_iff {ip₁ ip₂ : JsString} (h₁ : isIP ip₁ ≠ 0) (h₂ : isIP ip₂ ≠ 0)
    {ι : Type*} [DecidableEq ι] {d : VisitLog × (ι → TrackPc)}
    (h : (visits.system ι).Reaches (emptyLog, fun _ => .finished) d) (key : JsString) :
    (∀ ua₁ ua₂, ((visitor ip₁ ua₁).fingerprint = (visitor ip₂ ua₂).fingerprint →
        ip₁ = ip₂ ∧ sanitize ua₁ = sanitize ua₂) ↔
      ¬ Completes (visitor ip₁ ua₁) (visitor ip₂ ua₂) ∧
        ¬ Completes (visitor ip₂ ua₂) (visitor ip₁ ua₁)) ∧
    ((∀ ua₁ ua₂, (visitor ip₁ ua₁).fingerprint = (visitor ip₂ ua₂).fingerprint →
        ip₁ = ip₂ ∧ sanitize ua₁ = sanitize ua₂) ↔ ¬ Extends ip₁ ip₂ ∧ ¬ Extends ip₂ ip₁) ∧
    ((d.1.queue.store.visitors key).length = (d.1.visitors key).card ↔
      ∀ v ∈ d.1.visitors key, ∀ w ∈ d.1.visitors key, ¬ Completes v w) := by
  have hpair : ∀ ua₁ ua₂, ((visitor ip₁ ua₁).fingerprint = (visitor ip₂ ua₂).fingerprint →
      ip₁ = ip₂ ∧ sanitize ua₁ = sanitize ua₂) ↔
        ¬ Completes (visitor ip₁ ua₁) (visitor ip₂ ua₂) ∧
          ¬ Completes (visitor ip₂ ua₂) (visitor ip₁ ua₁) := by
    intro ua₁ ua₂
    rw [← fingerprint_faithful_iff, visitor, visitor, Visitor.mk.injEq]
  refine ⟨hpair, ?_, (recorded_of_reaches h).length_visitors key⟩
  simp only [hpair]
  constructor
  · intro hnone
    constructor
    · intro hext
      obtain ⟨ua, hc⟩ := exists_completes h₂ hext
      exact (hnone ua []).1 hc
    · intro hext
      obtain ⟨ua, hc⟩ := exists_completes h₁ hext
      exact (hnone [] ua).2 hc
  · intro hext ua₁ ua₂
    exact ⟨fun hc => hext.1 hc.extends, fun hc => hext.2 hc.extends⟩

/-- One tracked click. -/
def oneVisit : List (Unit × Event ⊕ Empty) :=
  [.inl ((), .track ⟨js "1", js "::1", js "agent", [], 0⟩), .inl ((), .command ⟨.served, 0⟩),
    .inl ((), .command ⟨.served, 0⟩), .inl ((), .command ⟨.served, 0⟩)]

theorem fingerprints_faithful_iff_oneVisit :
    (∀ ua₁ ua₂, (visitor (js "127.0.0.1") ua₁).fingerprint = (visitor (js "::1") ua₂).fingerprint →
      js "127.0.0.1" = js "::1" ∧ sanitize ua₁ = sanitize ua₂) ∧
    ∃ d, (visits.system Unit).run oneVisit (emptyLog, fun _ => .finished) = some d ∧
      (d.1.queue.store.visitors (visitorsKey (js "1") (js "1970-01-01"))).length = 1 ∧
      (d.1.visitors (visitorsKey (js "1") (js "1970-01-01"))).card = 1 := by
  have hrun : ((visits.system Unit).run oneVisit (emptyLog, fun _ => .finished)).map
      (fun d => d.1.recorded) = some
        [(visitorsKey (js "1") (js "1970-01-01"), ⟨js "::1", js "agent"⟩)] := by decide +kernel
  obtain ⟨d, hd, hrecorded⟩ := Option.map_eq_some_iff.mp hrun
  have hips : isIP (js "127.0.0.1") ≠ 0 ∧ isIP (js "::1") ≠ 0 := by decide +kernel
  obtain ⟨-, haddresses, hset⟩ := fingerprints_faithful_iff hips.1 hips.2 ⟨oneVisit, hd⟩
    (visitorsKey (js "1") (js "1970-01-01"))
  have hvisitors : d.1.visitors (visitorsKey (js "1") (js "1970-01-01")) =
      {⟨js "::1", js "agent"⟩} := by
    simp [VisitLog.visitors, hrecorded]
  have hcard : (d.1.visitors (visitorsKey (js "1") (js "1970-01-01"))).card = 1 := by
    rw [hvisitors, Finset.card_singleton]
  refine ⟨haddresses.mpr ⟨?_, ?_⟩, d, hd, (hset.mpr ?_).trans hcard, hcard⟩
  · intro hext
    obtain ⟨rest, hip, -⟩ := hext
    cases hip
  · intro hext
    obtain ⟨rest, hip, -⟩ := hext
    cases hip
  · intro v hv w hw hc
    rw [hvisitors, Finset.mem_singleton] at hv hw
    exact hc.ne (hv.trans hw.symm)

/-- `::1` with the user agent `2:x`, and `::1:2` with the user agent `x`. -/
theorem fingerprints_collide : ¬ ∀ ip₁ ua₁ ip₂ ua₂ : JsString, isIP ip₁ ≠ 0 → isIP ip₂ ≠ 0 →
    (visitor ip₁ ua₁).fingerprint = (visitor ip₂ ua₂).fingerprint →
      ip₁ = ip₂ ∧ sanitize ua₁ = sanitize ua₂ := by
  intro hfaithful
  have hips : isIP (js "::1") ≠ 0 ∧ isIP (js "::1:2") ≠ 0 := by decide +kernel
  have hsame : (visitor (js "::1") (js "2:x")).fingerprint =
      (visitor (js "::1:2") (js "x")).fingerprint := by decide +kernel
  have hip := (hfaithful _ _ _ _ hips.1 hips.2 hsame).1
  exact absurd hip (by decide)

end UrlShortener.Analytics
