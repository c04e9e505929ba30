import Mathlib.Data.Option.Basic
import OracleDuty.Proofs.Decimal
import OracleDuty.Proofs.Url.Pieces
/-!
Hosts of web locators: a host that was read is read as itself, also an address that was written in another form.

Main statements: `hostForm_of_domain?`, `HostForm.domain?_eq`.
-/
namespace OracleDuty.Url

variable {c : Char} {cs digits : List Char} {labels : List (List Char)} {host : String}

/-! ### Small letters -/

theorem toLower_toLower (c : Char) : c.toLower.toLower = c.toLower := by
  by_cases h : c.val ≥ 'A'.val ∧ c.val ≤ 'Z'.val
  · have hval : c.toLower.val = c.val + ('a'.val - 'A'.val) := congrArg Char.val (dif_pos h)
    have hlow : 65 ≤ c.val.toNat := UInt32.le_iff_toNat_le.mp h.1
    have hhigh : c.val.toNat ≤ 90 := UInt32.le_iff_toNat_le.mp h.2
    -- a small letter is beyond the capitals
    have hsmall : c.toLower.toNat = c.val.toNat + 32 := by
      have hdiff : ('a'.val - 'A'.val).toNat = 32 := rfl
      rw [Char.toNat, hval, UInt32.toNat_add]
      omega
    apply toLower_eq_self
    omega
  · rw [show c.toLower = c from dif_neg h, show c.toLower = c from dif_neg h]

theorem map_toLower_map (cs : List Char) : (cs.map Char.toLower).map Char.toLower = cs.map Char.toLower := by
  rw [List.map_map]
  exact List.map_congr_left fun c _ => toLower_toLower c

/-! ### Characters of hosts -/

def isDotted (c : Char) : Bool := c.isDigit || c == '.'

theorem isDotted_bounds (h : isDotted c = true) : 0x2E ≤ c.toNat ∧ c.toNat ≤ 0x39 := by
  rcases Bool.or_eq_true_iff.mp h with h | h
  · have hbounds := isDigit_bounds h
    omega
  · rw [beq_iff_eq.mp h]
    decide

theorem map_toLower_of_isDotted (h : ∀ c ∈ cs, isDotted c = true) : cs.map Char.toLower = cs := by
  apply map_toLower_eq_self
  intro c hc
  have hbounds := isDotted_bounds (h c hc)
  omega

theorem forbiddenInHost_of_isDotted (h : isDotted c = true) : forbiddenInHost c = false := by
  have hbounds := isDotted_bounds h
  rw [forbiddenInHost, contains_eq_false h rfl, Bool.or_false, Bool.or_eq_false_iff]
  refine ⟨decide_eq_false ?_, decide_eq_false ?_⟩ <;> omega

def IsInner (c : Char) : Prop := 0x20 < c.toNat ∧ c ∉ "#?/\\@".toList

theorem allowed_of_forbiddenInHost (h : forbiddenInHost c = false) :
    0x20 < c.toNat ∧ c.toNat ≤ 0x7E ∧ c ∉ "#/:<>?@[\\]^|%".toList := by
  rw [forbiddenInHost, String.contains_char_eq] at h
  simpa only [Bool.or_eq_false_iff, decide_eq_false_iff_not, not_le, not_lt, and_assoc] using h

/-! ### Addresses of four numbers -/

def dotted (numbers : List Nat) : String := ".".intercalate (numbers.map toString)

theorem hostNumber?_toDigits {n : Nat} (h : n < 256) : hostNumber? (Nat.toDigits 10 n) = some n := by
  have hall : ∀ n < 256, hostNumber? (Nat.toDigits 10 n) = some n := by decide +kernel
  exact hall n h

/-- However an address was written, it is one of four numbers. -/
theorem eq_dotted_of_addressHost? (h : addressHost? labels = some host) :
    ∃ numbers, numbers.length = 4 ∧ (∀ n ∈ numbers, n < 256) ∧ host = dotted numbers := by
  unfold addressHost? at h
  simp only [Option.bind_eq_bind, Option.bind_eq_some_iff, Option.guard_eq_some'] at h
  obtain ⟨_, hlength, numbers, hnumbers, last, hlast, _, hbytes, _, hfits, h⟩ := h
  -- the last number stands for all the bytes that the numbers before it leave
  have hsame := (forall₂_of_mapM hnumbers).length_eq
  have hne : 0 < numbers.length := by
    rw [List.length_pos_iff]
    rintro rfl
    cases hlast
  refine ⟨_, ?_, ?_, (Option.some.inj h).symm⟩
  · rw [List.length_append, List.length_dropLast, List.length_map, Bytes.length_bigEndian]
    omega
  · intro n hn
    rcases List.mem_append.mp hn with hn | hn
    · exact of_decide_eq_true (List.all_eq_true.mp hbytes n hn)
    · obtain ⟨b, _, rfl⟩ := List.mem_map.mp hn
      exact b.toNat_lt

theorem toList_dotted (a b c d : Nat) : (dotted [a, b, c, d]).toList =
    Nat.toDigits 10 a ++ '.' :: (Nat.toDigits 10 b ++ '.' :: (Nat.toDigits 10 c ++ '.' :: Nat.toDigits 10 d)) := by
  simp [dotted]

theorem dotted_ne_nil (a b c d : Nat) : (dotted [a, b, c, d]).toList ≠ [] := by
  rw [toList_dotted]
  simp

theorem dot_not_digit (n : Nat) : ∀ c ∈ Nat.toDigits 10 n, (c == '.') = false :=
  fun _ hc => beq_mark_eq_false (Decimal.isDigit_of_mem_toDigits hc) rfl

/-- Four numbers between dots are four labels. -/
theorem labelsOf_dotted (a b c d : Nat) : labelsOf (dotted [a, b, c, d]).toList =
    [Nat.toDigits 10 a, Nat.toDigits 10 b, Nat.toDigits 10 c, Nat.toDigits 10 d] := by
  have hsplit : splitOn (· == '.') (dotted [a, b, c, d]).toList =
      [Nat.toDigits 10 a, Nat.toDigits 10 b, Nat.toDigits 10 c, Nat.toDigits 10 d] := by
    rw [toList_dotted, splitOn_piece rfl (dot_not_digit a), splitOn_piece rfl (dot_not_digit b),
      splitOn_piece rfl (dot_not_digit c), splitOn_word (dot_not_digit d)]
  have hne : Nat.toDigits 10 d ≠ [] := Nat.toDigits_ne_nil
  rw [labelsOf, hsplit]
  simp [hne]

theorem endsInNumber_dotted (a b c d : Nat) :
    endsInNumber [Nat.toDigits 10 a, Nat.toDigits 10 b, Nat.toDigits 10 c, Nat.toDigits 10 d] = true := by
  have hne : Nat.toDigits 10 d ≠ [] := Nat.toDigits_ne_nil
  have hall : (Nat.toDigits 10 d).all Char.isDigit = true :=
    List.all_eq_true.mpr fun _ hc => Decimal.isDigit_of_mem_toDigits hc
  simp [endsInNumber, hne, hall]

theorem addressHost?_dotted {a b c d : Nat} (ha : a < 256) (hb : b < 256) (hc : c < 256) (hd : d < 256) :
    addressHost? [Nat.toDigits 10 a, Nat.toDigits 10 b, Nat.toDigits 10 c, Nat.toDigits 10 d] =
      some (dotted [a, b, c, d]) := by
  simp [addressHost?, hostNumber?_toDigits, ha, hb, hc, hd, Bytes.bigEndian, dotted, Nat.mod_eq_of_lt]

/-! ### Hosts -/

/-- What has no percent sign is given by itself. -/
theorem unescaped_eq (h : '%' ∉ cs) : unescaped cs = cs := by
  induction cs with
  | nil => rfl
  | cons c cs ih =>
    obtain ⟨hc, hcs⟩ : '%' ≠ c ∧ '%' ∉ cs := by simpa using h
    have hstep : unescaped (c :: cs) = c :: unescaped cs := by
      apply unescaped.eq_2
      intro _ _ _ hmark _
      exact hc hmark.symm
    rw [hstep, ih hcs]

theorem isInner_of_isBracketed (h : isBracketed c = true) : IsInner c := by
  refine ⟨?_, not_mem_marks rfl h⟩
  by_contra hlow
  have hall : ∀ n ≤ 0x20, isBracketed (Char.ofNat n) = false := by decide
  have hc := hall c.toNat (not_lt.mp hlow)
  rw [Char.ofNat_toNat, h] at hc
  cases hc

inductive HostForm : List Char → Prop where
  | bracketed {pieces : List Nat} (address : IsAddress pieces) : HostForm ('[' :: (addressChars pieces ++ [']']))
  | name {cs : List Char} (lower : cs.map Char.toLower = cs) (nonempty : cs ≠ [])
    (allowed : cs.any forbiddenInHost = false) (noNumber : endsInNumber (labelsOf cs) = false) : HostForm cs
  | address {a b c d : Nat} (ha : a < 256) (hb : b < 256) (hc : c < 256) (hd : d < 256) :
    HostForm (dotted [a, b, c, d]).toList

theorem hostForm_of_bracketed? (h : bracketed? cs = some host) : HostForm host.toList := by
  simp only [bracketed?, Option.bind_eq_bind, Option.bind_eq_some_iff, Option.guard_eq_some'] at h
  obtain ⟨_, _, pieces, hpieces, h⟩ := h
  cases h
  rw [String.toList_ofList]
  exact .bracketed (isAddress_of_address? hpieces)

/-- A host is read as a name, as four numbers, or as an address in brackets, and has then the one form of its
kind. -/
theorem hostForm_of_domain? (h : domain? cs = some host) : HostForm host.toList := by
  unfold domain? at h
  split at h
  · exact hostForm_of_bracketed? h
  · have hlower := map_toLower_map (unescaped cs)
    simp only [Option.bind_eq_bind, Option.bind_eq_some_iff, Option.guard_eq_some'] at h
    -- what is read further is a text in lower case, whichever it was
    generalize (unescaped cs).map Char.toLower = l at hlower h
    obtain ⟨_, ⟨hne, hallowed⟩, h⟩ := h
    split at h
    · obtain ⟨numbers, hlength, hbytes, rfl⟩ := eq_dotted_of_addressHost? h
      match numbers, hlength, hbytes with
      | [a, b, c, d], _, hbytes =>
        simp only [List.forall_mem_cons] at hbytes
        obtain ⟨ha, hb, hc, hd, _⟩ := hbytes
        exact .address ha hb hc hd
    · next hnumber =>
      cases h
      rw [String.toList_ofList]
      exact .name hlower hne (Bool.not_eq_true' _ ▸ hallowed) (Bool.not_eq_true _ ▸ hnumber)

/-- The text of four numbers is of digits and dots. -/
theorem isDotted_of_mem_dotted {x : Char} {a b c d : Nat} (hx : x ∈ (dotted [a, b, c, d]).toList) :
    isDotted x = true := by
  have hdigit : ∀ n, x ∈ Nat.toDigits 10 n → isDotted x = true :=
    fun n hn => Bool.or_eq_true_iff.mpr (.inl (Decimal.isDigit_of_mem_toDigits hn))
  simp only [toList_dotted, List.mem_append, List.mem_cons] at hx
  rcases hx with hx | rfl | hx | rfl | hx | rfl | hx
  · exact hdigit a hx
  · rfl
  · exact hdigit b hx
  · rfl
  · exact hdigit c hx
  · rfl
  · exact hdigit d hx

/-- A name or an address is looked at label by label. -/
theorem domain?_of_allowed (hlower : cs.map Char.toLower = cs) (hne : cs ≠ [])
    (hallowed : cs.any forbiddenInHost = false) : domain? cs =
      if endsInNumber (labelsOf cs) then addressHost? (labelsOf cs) else some (String.ofList cs) := by
  have hmarks : ∀ c ∈ cs, c ∉ "#/:<>?@[\\]^|%".toList := fun c hc =>
    (allowed_of_forbiddenInHost (Bool.not_eq_true _ ▸ List.any_eq_false.mp hallowed c hc)).2.2
  have hbracket : ∀ rest, cs = '[' :: rest → False := by
    rintro rest rfl
    exact hmarks '[' List.mem_cons_self (by decide)
  have hescape : '%' ∉ cs := fun hc => hmarks '%' hc (by decide)
  have hguard : (guard (cs ≠ [] ∧ !cs.any forbiddenInHost) : Option Unit) = some () :=
    if_pos ⟨hne, by rw [hallowed]; rfl⟩
  rw [domain?.eq_2 _ hbracket]
  simp only [unescaped_eq hescape, hlower]
  exact congrArg (Option.bind · _) hguard

/-- A host that was read is read as itself. -/
theorem HostForm.domain?_eq (h : HostForm cs) : domain? cs = some (String.ofList cs) := by
  cases h with
  | @bracketed pieces address =>
    have hlast : (addressChars pieces ++ [']']).getLast? = some ']' := List.getLast?_concat
    have haddress : address? (addressChars pieces ++ [']']).dropLast = some pieces := by
      rw [List.dropLast_concat, address.address?_chars]
    refine Option.bind_eq_some_iff.mpr ⟨(), if_pos hlast, ?_⟩
    exact Option.bind_eq_some_iff.mpr ⟨pieces, haddress, rfl⟩
  | name lower nonempty allowed noNumber =>
    rw [domain?_of_allowed lower nonempty allowed, noNumber]
    rfl
  | @address a b c d ha hb hc hd =>
    have hdotted : ∀ x ∈ (dotted [a, b, c, d]).toList, isDotted x = true := fun x => isDotted_of_mem_dotted
    have hallowed : (dotted [a, b, c, d]).toList.any forbiddenInHost = false := by
      rw [List.any_eq_false]
      intro x hx
      rw [forbiddenInHost_of_isDotted (hdotted x hx)]
      decide
    rw [domain?_of_allowed (map_toLower_of_isDotted hdotted) (dotted_ne_nil a b c d) hallowed,
      labelsOf_dotted, endsInNumber_dotted, if_pos rfl, addressHost?_dotted ha hb hc hd, String.ofList_toList]

/-- No character of a host ends the authority. -/
theorem HostForm.isInner (h : HostForm cs) : ∀ c ∈ cs, IsInner c := by
  have hallowed : ∀ {c : Char}, forbiddenInHost c = false → IsInner c := by
    intro c hc
    obtain ⟨hlow, _, hmarks⟩ := allowed_of_forbiddenInHost hc
    have hsubset : "#?/\\@".toList ⊆ "#/:<>?@[\\]^|%".toList := by decide
    exact ⟨hlow, fun hmem => hmarks (hsubset hmem)⟩
  cases h with
  | bracketed address =>
    intro c hc
    simp only [List.mem_cons, List.mem_append, List.not_mem_nil, or_false] at hc
    rcases hc with rfl | hc | rfl
    · exact ⟨by decide, by decide⟩
    · exact isInner_of_isBracketed (mem_addressChars hc)
    · exact ⟨by decide, by decide⟩
  | name lower nonempty allowed noNumber =>
    intro c hc
    exact hallowed (Bool.not_eq_true _ ▸ List.any_eq_false.mp allowed c hc)
  | address ha hb hc hd =>
    intro c hc
    exact hallowed (forbiddenInHost_of_isDotted (isDotted_of_mem_dotted hc))

theorem HostForm.ne_nil (h : HostForm cs) : cs ≠ [] := by
  cases h with
  | bracketed address => exact List.cons_ne_nil _ _
  | name lower nonempty allowed noNumber => exact nonempty
  | @address a b c d ha hb hc hd => exact dotted_ne_nil a b c d

end OracleDuty.Url
