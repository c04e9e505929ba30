import OracleDuty.Proofs.Json.Torn
import OracleDuty.Proofs.TreeFile
/-!
Tree files that are cut off or that hold something else: a tree is used again only if all of its file is there
and decodes, and covers as many intervals as have elapsed.

Main statement: `loadValid_exact`.
-/
namespace OracleDuty.Store

open Duty Program

variable {path : Path} {n : UInt64} {t : RewardsTree} {content : Bytes}
  {u : List (Exchange Request Answer)} {r : Option RewardsTree}

theorem toList_encode (t : RewardsTree) : ∃ entries, (Json.object entries).Plain ∧
    t.encode.toList = Json.chars (.object entries) :=
  ⟨_, t.plain_toJson, String.toList_ofList⟩

/-- Wherever the file of a tree is cut off, what is left is no tree. -/
theorem decode?_of_torn {torn : Bytes} (h : torn <+: Bytes.ofString t.encode)
    (hne : torn ≠ Bytes.ofString t.encode) : decode? torn = none := by
  obtain ⟨more, hmore⟩ := h
  rw [decode?]
  cases hs : Bytes.text? torn with
  | none => rfl
  | some s =>
    -- the cut is between two characters
    have hbytes := Bytes.ofString_of_text? hs
    rw [← hbytes] at hmore hne
    obtain ⟨cs, hcs⟩ := Bytes.toList_prefix_of_ofString hmore
    have hcs' : cs ≠ [] := by
      rintro rfl
      rw [List.append_nil] at hcs
      exact hne (congrArg Bytes.ofString (String.toList_inj.mp hcs))
    obtain ⟨entries, hplain, hchars⟩ := toList_encode t
    have hread : Json.read? s = none :=
      Json.ofChars?_of_append_eq_chars hplain (hcs.trans hchars) hcs'
    rw [Option.bind_some, RewardsTree.decode?, hread]
    rfl

def reusable? (n : UInt64) : Except Disk.Fault Bytes → Option RewardsTree
  | .ok content => (decode? content).filter fun t => t.header.intervalsPassed = n
  | .error _ => none

theorem reusable?_eq_some {answer : Except Disk.Fault Bytes} : reusable? n answer = some t ↔
    ∃ content, answer = .ok content ∧ decode? content = some t ∧ t.header.intervalsPassed = n := by
  cases answer with
  | error fault => simp [reusable?]
  | ok content => simp [reusable?, Option.filter_eq_some_iff]

/-- The file is read once, and whatever is read there is an end. -/
theorem ends_loadValid : (loadValid path n).Ends u r ↔
    ∃ answer, u = [⟨.disk (.read path), answer⟩] ∧ r = reusable? n answer := by
  have hask : ∃ next, loadValid path n = .ask (.disk (.read path)) next ∧
      ∀ answer v, (next answer).Ends v r ↔ v = [] ∧ reusable? n answer = r := by
    refine ⟨_, rfl, fun answer v => ?_⟩
    match answer with
    | .error fault => cases fault <;> exact ends_note.trans ends_done
    | .ok content =>
      dsimp only [Program.bind]
      cases hdecode : decode? content with
      | none =>
        rw [reusable?, hdecode]
        exact ends_note.trans ends_done
      | some t =>
        dsimp only
        by_cases hn : t.header.intervalsPassed = n
        · rw [if_pos hn, reusable?, hdecode, Option.filter_some, if_pos (decide_eq_true hn)]
          exact ends_done
        · rw [if_neg hn, reusable?, hdecode, Option.filter_some, if_neg (by simpa using hn)]
          exact ends_note.trans ends_done
  obtain ⟨next, hload, hnext⟩ := hask
  rw [hload, ends_ask]
  constructor
  · rintro ⟨answer, v, rfl, hv⟩
    obtain ⟨rfl, rfl⟩ := (hnext answer v).mp hv
    exact ⟨answer, rfl, rfl⟩
  · rintro ⟨answer, rfl, rfl⟩
    exact ⟨answer, [], rfl, (hnext answer []).mpr ⟨rfl, rfl⟩⟩

/-- What a reading of the file gives, by what is answered. -/
theorem ends_loadValid_iff {answer : Except Disk.Fault Bytes} :
    (loadValid path n).Ends [⟨.disk (.read path), answer⟩] r ↔ r = reusable? n answer := by
  rw [ends_loadValid]
  constructor
  · rintro ⟨answer', hu, rfl⟩
    cases hu
    rfl
  · rintro rfl
    exact ⟨answer, rfl, rfl⟩

/-- A tree is used again from its own file exactly for its own number of intervals, and from no beginning of
that file, wherever it is cut off. Of any other answer of the disk, be it a fault or some bytes, the tree is used
that all of the bytes decode to, if it covers the intervals; else none is, and that is never a failure. -/
theorem loadValid_exact (s : Store) (t : RewardsTree) (path : Path) :
    (∃ content, s.Produces t content) ∧
    (∀ content, (s.Produces t content ∨ ∃ temporary, s.Writes t temporary content) →
      (∀ torn, torn <+: content → torn ≠ content → ∀ n r,
        (loadValid path n).Ends [⟨.disk (.read path), .ok torn⟩] r ↔ r = none) ∧
      ∀ n, (loadValid path n).Ends [⟨.disk (.read path), .ok content⟩] (some t) ↔
        t.header.intervalsPassed = n) ∧
    ∀ n, (∀ u r, (loadValid path n).Ends u r → ∃ answer, u = [⟨.disk (.read path), answer⟩]) ∧
      ∀ answer : Except Disk.Fault Bytes,
        (∃! r, (loadValid path n).Ends [⟨.disk (.read path), answer⟩] r) ∧
        ∀ b, (loadValid path n).Ends [⟨.disk (.read path), answer⟩] (some b) ↔
          ∃ content, answer = .ok content ∧ decode? content = some b ∧ b.header.intervalsPassed = n := by
  refine ⟨⟨_, produces_iff.mpr rfl⟩, ?_, ?_⟩
  · -- what a tree's own file holds, or its file before it is moved, is the printed tree
    intro content hcontent
    obtain rfl : content = Bytes.ofString t.encode := by
      rcases hcontent with h | ⟨temporary, h⟩
      · exact produces_iff.mp h
      · exact h.eq.2
    constructor
    · intro torn hprefix hne n r
      have hnone : reusable? n (.ok torn) = none := by
        rw [reusable?, decode?_of_torn hprefix hne]
        rfl
      rw [ends_loadValid_iff, hnone]
    · intro n
      rw [ends_loadValid_iff, eq_comm, reusable?_eq_some]
      constructor
      · rintro ⟨content, hcontent, -, hn⟩
        exact hn
      · intro hn
        exact ⟨_, rfl, decode?_ofString_encode t, hn⟩
  · intro n
    refine ⟨?_, fun answer => ⟨?_, fun b => ?_⟩⟩
    · intro u r h
      obtain ⟨answer, hu, -⟩ := ends_loadValid.mp h
      exact ⟨answer, hu⟩
    · exact ⟨reusable? n answer, ends_loadValid_iff.mpr rfl, fun r h => ends_loadValid_iff.mp h⟩
    · rw [ends_loadValid_iff, eq_comm, reusable?_eq_some]

open Store.Sample in
/-- A file that lacks its last byte. -/
theorem loadValid_exact_sample : ∃ content, store.Produces tree content ∧
    (loadValid "tree" 1).Ends [⟨.disk (.read "tree"), .ok content⟩] (some tree) ∧
    (loadValid "tree" 1).Ends [⟨.disk (.read "tree"), .ok content.dropLast⟩] none := by
  obtain ⟨⟨content, h⟩, hcontent, -⟩ := loadValid_exact store tree "tree"
  obtain ⟨htorn, hwhole⟩ := hcontent content (.inl h)
  have hne : content.dropLast ≠ content := by
    intro he
    have hlength := congrArg List.length he
    rw [List.length_dropLast] at hlength
    obtain rfl : content = [] := List.length_eq_zero_iff.mp (by omega)
    have hread := ends_loadValid_iff.mp ((hwhole 1).mpr rfl)
    exact absurd hread (by decide +kernel)
  exact ⟨content, h, (hwhole 1).mpr rfl, (htorn _ (List.dropLast_prefix _) hne 1 none).mpr rfl⟩

end OracleDuty.Store
