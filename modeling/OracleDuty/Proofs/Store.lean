import OracleDuty.Proofs.Bytes
import OracleDuty.Proofs.Decimal
import OracleDuty.Proofs.Disk.Creating
import OracleDuty.Proofs.RewardsTree
import OracleDuty.Store
/-!
The files of the store by their last names: files of different intervals, files that are compressed and
files that are being written are told apart by how their names end.

Main statements: `decode?_ofString_encode`, `ending_inj`, the lemmas on paths that are `Apart`, and
`Owns.locate_of_vacant`.
-/
namespace OracleDuty.Store

theorem decode?_ofString_encode (t : RewardsTree) : decode? (Bytes.ofString t.encode) = some t := by
  rw [decode?, Bytes.text?_ofString, Option.bind_some, RewardsTree.decode?_encode]

def ending (index : UInt64) : String := "-" ++ toString index ++ ".json"

def treeStem (s : Store) : Path := Path.join s.directory ("rp-rewards-" ++ s.network)

def performanceStem (s : Store) : Path :=
  Path.join s.directory ("rp-minipool-performance-" ++ s.network)

theorem join_append (dir : Path) (a b : String) : Path.join dir (a ++ b) = Path.join dir a ++ b := by
  unfold Path.join
  split
  · rfl
  · split <;> simp only [String.append_assoc]

theorem treePath_eq (s : Store) (index : UInt64) : s.treePath index = s.treeStem ++ ending index := by
  rw [treeStem, ← join_append]
  simp only [treePath, ending, String.append_assoc]
  rfl

theorem performancePath_eq (s : Store) (index : UInt64) :
    s.performancePath index = s.performanceStem ++ ending index := by
  rw [performanceStem, ← join_append]
  simp only [performancePath, ending, String.append_assoc]
  rfl

theorem toList_ending (index : UInt64) :
    (ending index).toList = '-' :: Nat.toDigits 10 index.toNat ++ ".json".toList := by
  have h : (toString index).toList = Nat.toDigits 10 index.toNat := Nat.toList_repr
  rw [ending, String.toList_append, String.toList_append, h]
  rfl

theorem slash_not_mem_ending (index : UInt64) : '/' ∉ (ending index).toList := by
  rw [toList_ending]
  simp only [List.cons_append, List.mem_cons, List.mem_append, not_or]
  refine ⟨by decide, ?_, by decide⟩
  intro h
  exact absurd (Decimal.isDigit_of_mem_toDigits h) (by decide)

/-- The index can be read off the end of a name, being decimal digits between fixed marks. -/
theorem ending_inj {a b : String} {i k : UInt64} (h : a ++ ending i = b ++ ending k) : i = k := by
  have hl := congrArg String.toList h
  rw [String.toList_append, String.toList_append, toList_ending, toList_ending, ← List.append_assoc,
    ← List.append_assoc] at hl
  -- read from the back, the digits are those that stand before the hyphen
  have hr := congrArg List.reverse (List.append_cancel_right hl)
  simp only [List.reverse_append, List.reverse_cons, List.append_assoc, List.singleton_append] at hr
  have hrun : ∀ (n : UInt64) (rest : List Char),
      ((Nat.toDigits 10 n.toNat).reverse ++ '-' :: rest).takeWhile Char.isDigit =
        (Nat.toDigits 10 n.toNat).reverse := by
    intro n rest
    apply Decimal.takeWhile_isDigit_append
    · intro c hc
      exact Decimal.isDigit_of_mem_toDigits (List.mem_reverse.mp hc)
    · rintro c ⟨⟩
      rfl
  have hdigits : Nat.toDigits 10 i.toNat = Nat.toDigits 10 k.toNat := by
    rw [← List.reverse_inj, ← hrun i a.toList.reverse, hr, hrun]
  have htext : toString i = toString k := by
    apply String.toList_inj.mp
    exact Nat.toList_repr.trans (hdigits.trans Nat.toList_repr.symm)
  have hread := Decimal.uint64?_toString i
  rw [htext, Decimal.uint64?_toString] at hread
  exact (Option.some.inj hread).symm

/-- What a name ends with can be told from its last letter. -/
theorem append_ne_of_getLast {a b s t : String} {c d : Char} (hs : s.toList.getLast? = some c)
    (ht : t.toList.getLast? = some d) (hne : c ≠ d) : a ++ s ≠ b ++ t := by
  intro h
  have hl := congrArg (fun x => x.toList.getLast?) h
  simp only [String.toList_append, List.getLast?_append, hs, ht] at hl
  exact hne (Option.some.inj hl)

theorem getLast_ending (index : UInt64) : (ending index).toList.getLast? = some 'n' := by
  rw [toList_ending, List.getLast?_append]
  rfl

theorem two_lt_length_ending (index : UInt64) : 2 < (ending index).length := by
  rw [ending, String.length_append, String.length_append]
  have h : ".json".length = 5 := rfl
  omega

/-- Performance files and trees are told apart by the fourth letter of their names. -/
theorem letter_ne {network : String} (s t : String) :
    "rp-minipool-performance-" ++ network ++ s ≠ "rp-rewards-" ++ network ++ t := by
  intro he
  have hletter := congrArg (fun name => name.toList[3]?) he
  simp only [String.toList_append, List.append_assoc] at hletter
  rw [List.getElem?_append_left (by decide), List.getElem?_append_left (by decide)] at hletter
  exact absurd hletter (by decide)

/-! ### Files with different names -/

variable {s : Store} {i k : UInt64}

theorem apart_tree (h : i ≠ k) : (s.treePath i).Apart (s.treePath k) := by
  rw [treePath_eq, treePath_eq]
  exact Path.apart_append (two_lt_length_ending i) (two_lt_length_ending k) (slash_not_mem_ending i)
    (slash_not_mem_ending k) fun _ _ hab => h (ending_inj hab)

theorem apart_performance (h : i ≠ k) : (s.performancePath i).Apart (s.treePath k) := by
  rw [performancePath_eq, treePath_eq]
  exact Path.apart_append (two_lt_length_ending i) (two_lt_length_ending k) (slash_not_mem_ending i)
    (slash_not_mem_ending k) fun _ _ hab => h (ending_inj hab)

theorem apart_ending (p q : Path) : (temporaryPath p).Apart (q ++ ending k) :=
  Path.apart_append (by decide) (two_lt_length_ending k) (by decide) (slash_not_mem_ending k)
    fun _ _ => append_ne_of_getLast (by decide) (getLast_ending k) (by decide : 'p' ≠ 'n')

theorem apart_temporary (p : Path) : (temporaryPath p).Apart (s.treePath k) := by
  rw [treePath_eq]
  exact apart_ending p _

theorem temporary_apart_performance (p : Path) : (temporaryPath p).Apart (s.performancePath k) := by
  rw [performancePath_eq]
  exact apart_ending p _

theorem apart_compressed (p : Path) : (compressedPath p).Apart (s.treePath k) := by
  rw [treePath_eq, compressedPath]
  exact Path.apart_append (by decide) (two_lt_length_ending k) (by decide) (slash_not_mem_ending k)
    fun _ _ => append_ne_of_getLast (by decide) (getLast_ending k) (by decide : 't' ≠ 'n')

theorem temporary_apart_compressed (p q : Path) : (temporaryPath p).Apart (compressedPath q) :=
  Path.apart_append (by decide) (by decide) (by decide) (by decide)
    fun _ _ => append_ne_of_getLast (by decide) (by decide) (by decide : 'p' ≠ 't')

/-! ### Paths of trees -/

/-- Names joined to one directory differ as their paths do. -/
theorem join_inj {dir : Path} {a b : String} (h : Path.join dir a = Path.join dir b) : a = b := by
  have happend : ∀ front : String, front ++ a = front ++ b → a = b := by
    intro front hf
    have hl := congrArg String.toList hf
    rw [String.toList_append, String.toList_append] at hl
    exact String.toList_inj.mp (List.append_cancel_left hl)
  unfold Path.join at h
  split at h
  · exact h
  · split at h
    · exact happend _ h
    · exact happend _ h

theorem treePath_inj (h : s.treePath i = s.treePath k) : i = k := by
  rw [treePath_eq, treePath_eq] at h
  exact ending_inj h

theorem compressedPath_ne_treePath (p : Path) : compressedPath p ≠ s.treePath k := by
  rw [treePath_eq]
  exact append_ne_of_getLast (by decide) (getLast_ending k) (by decide : 't' ≠ 'n')

theorem performancePath_ne_treePath : s.performancePath i ≠ s.treePath k := by
  intro h
  rw [performancePath_eq, treePath_eq, performanceStem, treeStem, ← join_append, ← join_append] at h
  exact letter_ne _ _ (join_inj h)

/-! ### Names in the directory -/

structure Named (s : Store) (name : String) : Prop where
  first : name.toList.head? = some 'r'
  last : ∃ c, name.toList.getLast? = some c ∧ c ≠ '/'
  network : ∀ c ∈ s.network.toList, c ∈ name.toList
  plain : '/' ∉ s.network.toList → '/' ∉ name.toList

def Owns (s : Store) (p : Path) : Prop := ∃ name, p = Path.join s.directory name ∧ s.Named name

/-- A path that begins like a file of the store and ends without a slash is one of its files. -/
theorem owns_append {front t : String} {c : Char} (hf : front.toList.head? = some 'r')
    (hf' : '/' ∉ front.toList) (ht : t.toList.getLast? = some c) (ht' : '/' ∉ t.toList) :
    s.Owns (Path.join s.directory (front ++ s.network) ++ t) := by
  have hc : c ≠ '/' := by
    rintro rfl
    exact ht' (List.mem_of_getLast? ht)
  refine ⟨front ++ s.network ++ t, (join_append _ _ _).symm, ?_⟩
  constructor
  case first => simp only [String.toList_append, List.head?_append, hf, Option.some_or]
  case last =>
    refine ⟨c, ?_, hc⟩
    rw [String.toList_append, List.getLast?_append, ht]
    rfl
  case network =>
    intro d hd
    simp only [String.toList_append, List.mem_append]
    exact .inl (.inr hd)
  case plain =>
    intro h
    simp only [String.toList_append, List.mem_append, not_or]
    exact ⟨⟨hf', h⟩, ht'⟩

theorem owns_treePath (s : Store) (index : UInt64) : s.Owns (s.treePath index) := by
  rw [treePath_eq]
  exact owns_append (by decide) (by decide) (getLast_ending index) (slash_not_mem_ending index)

theorem owns_performancePath (s : Store) (index : UInt64) : s.Owns (s.performancePath index) := by
  rw [performancePath_eq]
  exact owns_append (by decide) (by decide) (getLast_ending index) (slash_not_mem_ending index)

/-- Marks at the end leave a path in the store. -/
theorem Owns.append {p : Path} (h : s.Owns p) {t : String} {c : Char}
    (ht : t.toList.getLast? = some c) (ht' : '/' ∉ t.toList) : s.Owns (p ++ t) := by
  have hc : c ≠ '/' := by
    rintro rfl
    exact ht' (List.mem_of_getLast? ht)
  obtain ⟨name, rfl, hn⟩ := h
  refine ⟨name ++ t, (join_append _ _ _).symm, ?_⟩
  constructor
  case first =>
    rw [String.toList_append, List.head?_append, hn.first]
    rfl
  case last =>
    refine ⟨c, ?_, hc⟩
    rw [String.toList_append, List.getLast?_append, ht]
    rfl
  case network =>
    intro d hd
    rw [String.toList_append]
    exact List.mem_append_left _ (hn.network d hd)
  case plain =>
    intro h
    rw [String.toList_append, List.mem_append, not_or]
    exact ⟨hn.plain h, ht'⟩

theorem Owns.compressed {p : Path} (h : s.Owns p) : s.Owns (compressedPath p) :=
  h.append (t := ".zst") (c := 't') (by decide) (by decide)

theorem Owns.temporary {p : Path} (h : s.Owns p) : s.Owns (temporaryPath p) :=
  h.append (t := ".tmp") (c := 'p') (by decide) (by decide)

/-- While the directory is vacant a file of the store can be reached only where its name is a single one,
and then nothing is there yet. -/
theorem Owns.locate_of_vacant {d : Disk} (hv : d.Vacant s.directory) {p : Path} (hp : s.Owns p)
    {place : List String} (hl : d.locate p = .ok place) : '/' ∉ s.network.toList ∧
      (∃ parent, d.DirectoryAt s.directory parent) ∧ d.at? place = none := by
  obtain ⟨name, rfl, hn⟩ := hp
  obtain ⟨c, hlast, hc⟩ := hn.last
  have hhead : name.toList.head? ≠ some '/' := by
    rw [hn.first]
    decide
  obtain ⟨rest, hrest⟩ : ∃ rest, name.toList = 'r' :: rest := by
    have hfirst := hn.first
    cases hl : name.toList with
    | nil => simp [hl] at hfirst
    | cons x rest =>
      rw [hl] at hfirst
      exact ⟨rest, by rw [Option.some.inj hfirst]⟩
  obtain ⟨first, others, hnames, hr⟩ := Path.namesIn_cons (c := 'r') (by decide) rest
  rw [← hrest, ← Path.names_eq] at hnames
  -- its first name starts with a letter, so that it is an entry of the directory
  have hne : ∀ t : String, t.toList.head? ≠ some 'r' → first ≠ t := by
    rintro t ht rfl
    exact ht hr
  obtain ⟨hothers, parent, hd, _, hnone⟩ :=
    hv.locate_join hhead hnames (hne _ (by decide)) (hne _ (by decide)) hl
  refine ⟨?_, ⟨parent, hd⟩, hnone⟩
  -- with a slash in the network there would be a second name
  intro hs
  obtain ⟨_, _, _, htwo⟩ :=
    Path.names_of_slash_mem hn.first (by decide) hlast hc (hn.network _ hs)
  rw [hnames, hothers] at htwo
  cases htwo

structure Open (s : Store) (d : Disk) (place : List String) : Prop where
  directory : d.DirectoryAt s.directory place
  files : ∀ name, d.at? (name :: place) ≠ some .directory
  network : '/' ∉ s.network.toList

theorem Open.same {d d' : Disk} {place : List String} (h : s.Open d place)
    (hd : Disk.SameDirectories d d') : s.Open d' place where
  directory := h.directory.same hd
  files name hat := h.files name ((hd.at_iff _).mp hat)
  network := h.network

/-- The files of an open store are right in its directory, and nowhere else. -/
theorem Open.locate {d : Disk} {place : List String} (h : s.Open d place) {p : Path} (hp : s.Owns p) :
    ∃ name, d.locate p = .ok (name :: place) := by
  obtain ⟨name, rfl, hn⟩ := hp
  have hslash : '/' ∉ name.toList := hn.plain h.network
  have hne : ∀ t : String, t.toList.head? ≠ some 'r' → name ≠ t := by
    rintro t ht rfl
    exact ht hn.first
  have hnil : name.toList ≠ [] := fun he => hne "" (by decide) (String.toList_inj.mp he)
  have hhead : name.toList.head? ≠ some '/' := by
    rw [hn.first]
    decide
  have hnames : Path.names name = [name] := by
    rw [Path.names_eq, Path.namesIn, Path.pieces_of_not_mem hslash]
    simp [hnil]
  refine ⟨name, ?_⟩
  apply (Disk.locate_join hhead).mpr
  refine ⟨place, h.directory.locate, ?_⟩
  rw [hnames, Disk.follow_cons, Disk.enter, if_neg (hne _ (by decide)), if_neg (hne _ (by decide))]
  exact ⟨h.directory.directory, rfl⟩

/-- There is nothing left to create. -/
theorem Open.creates {d : Disk} {place : List String} (h : s.Open d place) :
    d.perform (.createDirectories s.directory) = (.ok (), d) := by
  rw [Disk.perform, Disk.createDirectories_of_directoryAt h.directory List.suffix_rfl]
  rfl

/-- There a file of the store can always be written and moved into its place. -/
theorem Open.put {d : Disk} {place : List String} (h : s.Open d place) {p : Path} (hp : s.Owns p)
    (content : Bytes) : ∃ d₁ d₂, d.perform (.write (temporaryPath p) content) = (.ok (), d₁) ∧
      d₁.perform (.rename (temporaryPath p) p) = (.ok (), d₂) ∧ s.Open d₂ place ∧
      d₂.read p = .ok content := by
  obtain ⟨name, hl⟩ := h.locate hp.temporary
  -- nothing at its place is a directory, neither beside it nor where it goes
  have hw : d.write (temporaryPath p) content = .ok (d.put (name :: place) (.file content)) :=
    Disk.write_ok.mpr ⟨_, hl, h.files name, rfl⟩
  have h₁ := h.same (Disk.write_sameDirectories hw)
  obtain ⟨old, hold, hat⟩ := Disk.read_ok.mp (Disk.read_write hw)
  obtain ⟨name', hl'⟩ := h₁.locate hp
  have hr := Disk.rename_ok.mpr ⟨old, _, content, hold, hl', hat, h₁.files name', rfl⟩
  have hwrite : d.perform (.write (temporaryPath p) content) = d.change (.ok _) := congrArg d.change hw
  have hrename : Disk.perform _ (.rename (temporaryPath p) p) = Disk.change _ (.ok _) :=
    congrArg (Disk.change _) hr
  exact ⟨_, _, hwrite, hrename, h₁.same (Disk.rename_sameDirectories hr),
    (Disk.read_rename hr content).mpr (Disk.read_write hw)⟩

/-- Where the network is a single name, trees and performance files are told apart by how their names
begin. -/
theorem apart_performance_of_network (h : '/' ∉ s.network.toList) :
    (s.performancePath i).Apart (s.treePath k) := by
  have hends : ∀ (front : String) (n : UInt64), '/' ∉ front.toList →
      (Path.join s.directory (front ++ s.network) ++ ending n).EndsAt (front ++ s.network ++ ending n) := by
    intro front n hf
    rw [← join_append]
    refine Path.endsAt_join _ ?_ ?_
    · simp only [String.toList_append, List.mem_append, not_or]
      exact ⟨⟨hf, h⟩, slash_not_mem_ending n⟩
    · rw [String.length_append]
      exact Nat.lt_add_left _ (two_lt_length_ending n)
  rw [performancePath_eq, treePath_eq]
  exact ⟨_, _, hends _ i (by decide), hends _ k (by decide), letter_ne _ _⟩

end OracleDuty.Store
