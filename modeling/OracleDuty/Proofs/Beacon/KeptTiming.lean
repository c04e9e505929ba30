import OracleDuty.Proofs.Beacon.Session
/-!
The timing that a node reports does not change, however many calls ask for it and whatever the node answers.

Main statement: `timing_unchanging`.
-/
namespace OracleDuty.Beacon

variable {n : Node}

/-! ### The timing does not change -/

/-- What a session says of the timing of a node. -/
structure Session.Unchanging (n : Node) (s : Session) : Prop where
  /-- All calls that get hold of a timing get hold of the same one. -/
  agreed : ∀ x ∈ s.visits, ∀ y ∈ s.visits, ∀ t t', x.Obtains t → y.Obtains t' → t = t'
  /-- A call whose fetch fails stores nothing, and has nothing to report. -/
  missed : ∀ x ∈ s.visits, x.FetchFails n → ¬x.Stores ∧ ∀ t, ¬x.Obtains t
  /-- A call that fails to report the timing stores nothing; it has failed by its own requests. -/
  failed : ∀ x ∈ s.visits, ∀ e, x.standing = .returned (.timing (.error e)) →
    ¬x.Stores ∧ (x.FetchFails n ∨ n.inquiry? .genesis = none ∨ n.inquiry? .spec = none)
  /-- A timing is kept exactly when a call has stored one. -/
  stored : s.kept.isSome = true ↔ ∃ x ∈ s.visits, x.Stores
  /-- A later call succeeds if its own requests are answered well. -/
  free : ∀ genesis spec a b t, Session.Fetched n genesis spec a b t → ∃ s' y, Session.Steps n s s' ∧
    s'.visits = s.visits ++ [y] ∧ y.call = .timing ∧
      y.standing = .returned (.timing (.ok (s.kept.getD t)))
  /-- Once a call has got hold of a timing, those that begin later go by it and do not ask. -/
  late : ∀ x ∈ s.visits, ∀ t, x.Obtains t → ∀ s', Session.Steps n s s' →
    ∀ i y, s.visits.length ≤ i → s'.visits[i]? = some y → y.GoesBy n t

theorem Visit.Sound.obtains {kept : Option Chain.Timing} {x : Visit} (h : x.Sound n kept)
    {t : Chain.Timing} (ht : x.Obtains t) : x.phase = .knowing t := by
  rcases ht with hg | hr
  · exact (h.knowing_iff t).mpr hg
  · have hcourse := h.course
    rw [hr] at hcourse
    exact hcourse

theorem timing_unchanging {s : Session} (h : Session.Steps n Session.fresh s) : s.Unchanging n := by
  have hs := (Session.sound_fresh n).steps h
  -- whoever obtains a timing has obtained the one in the place, and the place is filled once
  have hknown : ∀ x ∈ s.visits, ∀ t, x.Obtains t → s.kept = some t := by
    intro x hx t ht
    exact (hs.visits x hx).kept t ((hs.visits x hx).obtains ht)
  constructor
  case agreed =>
    intro x hx y hy t t' ht ht'
    have hkept := hknown x hx t ht
    rw [hknown y hy t' ht'] at hkept
    exact (Option.some.inj hkept).symm
  case missed =>
    intro x hx hmiss
    have hfailed := (hs.visits x hx).failed_iff.mpr hmiss
    have hnone : ∀ t, ¬x.Obtains t := by
      intro t ht
      have hm := (hs.visits x hx).obtains ht
      rw [hfailed] at hm
      cases hm
    refine ⟨?_, hnone⟩
    rintro ⟨t, t', hmem⟩
    exact hnone t' (.inl ⟨_, hmem, .keep t⟩)
  case failed =>
    intro x hx e he
    have hcourse := (hs.visits x hx).course
    rw [he] at hcourse
    have hfails : x.phase.Fails n := hcourse
    constructor
    · rintro ⟨t, t', hmem⟩
      have hm := ((hs.visits x hx).knowing_iff t').mpr ⟨_, hmem, .keep t⟩
      rw [hm] at hfails
      cases hfails
    · rw [← (hs.visits x hx).failed_iff]
      cases hm : x.phase with
      | asking =>
        rw [hm] at hfails
        exact .inr (.inl hfails)
      | asked genesis =>
        rw [hm] at hfails
        exact .inr (.inr hfails)
      | failed => exact .inl rfl
      | _ =>
        rw [hm] at hfails
        cases hfails
  case stored =>
    constructor
    · exact hs.stored
    · rintro ⟨x, hx, hstores⟩
      exact (hs.visits x hx).kept_of_stores hstores
  case free =>
    intro genesis spec a b t hfetched
    exact Session.Steps.succeeds hfetched s
  case late =>
    intro x hx t ht s' hsteps i y hi hy
    have hlate := (hsteps.late hs (hknown x hx t ht)).2 i y hi hy
    exact hlate.goesBy ((hs.steps hsteps).visits y (List.mem_of_getElem? hy))

def loopback : Node := ⟨⟨"http", some ⟨none, "[::1]", some 5052⟩, .segments [""], none, none⟩⟩

def genesisAnswer (time : String) : Except Http.Failure Http.Response :=
  .ok ⟨200, Bytes.ofString ("\x7b\"data\":\x7b\"genesis_time\":\"" ++ time ++ "\"\x7d\x7d")⟩

def specAnswer : Except Http.Failure Http.Response :=
  .ok ⟨200, Bytes.ofString "\x7b\"data\":\x7b\"SECONDS_PER_SLOT\":\"12\",\"SLOTS_PER_EPOCH\":\"32\"\x7d\x7d"⟩

/-- Two calls are told different times of genesis; both report the one that was stored first. -/
theorem timing_unchanging_race : ∃ x y : Visit,
    Session.Steps loopback Session.fresh ⟨some ⟨7, 12, 32⟩, [x, y]⟩ ∧
      ⟨.keepTiming ⟨5, 12, 32⟩, ⟨7, 12, 32⟩⟩ ∈ x.heard ∧
      x.standing = .returned (.timing (.ok ⟨7, 12, 32⟩)) ∧ y.standing = .returned (.timing (.ok ⟨7, 12, 32⟩)) ∧
      Session.Unchanging loopback ⟨some ⟨7, 12, 32⟩, [x, y]⟩ := by
  have hgenesis : (loopback.inquiry? .genesis).isSome = true := by decide +kernel
  have hspec : (loopback.inquiry? .spec).isSome = true := by decide +kernel
  have hlengths : yields slotLengths? specAnswer = some (12, 32) := by decide +kernel
  have hfetched : ∀ time text, yields genesisTime? (genesisAnswer text) = some time →
      Session.Fetched loopback _ _ (genesisAnswer text) specAnswer ⟨time, 12, 32⟩ := fun time text h =>
    ⟨(Option.some_get hgenesis).symm, (Option.some_get hspec).symm, h, hlengths⟩
  obtain ⟨x, y, hsteps, hx, hy, hheard, _⟩ := Session.Steps.race (hfetched 5 "5" (by decide +kernel))
    (hfetched 7 "7" (by decide +kernel))
  refine ⟨x, y, hsteps, ?_, hx, hy, timing_unchanging hsteps⟩
  rw [hheard]
  simp

end OracleDuty.Beacon
