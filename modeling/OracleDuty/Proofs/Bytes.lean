import Mathlib.Data.List.Induction
import OracleDuty.Bytes
/-!
Texts in UTF-8 and bytes in hexadecimal read back, as do the digits of a number in each base up to sixteen, and byte
strings of one length spell different numbers.

Main statements: `Bytes.text?_ofString`, `Bytes.toNat_inj`, `Hex.decode?_encode` and `Hex.number?_toDigits`.
-/
namespace OracleDuty

namespace Bytes

/-- The library's loop over an array of bytes takes what is left of it. -/
theorem toList_loop (b : ByteArray) (i : Nat) (taken : Bytes) :
    ByteArray.toList.loop b i taken = taken.reverse ++ b.data.toList.drop i := by
  -- the loop puts the bytes before what was taken, the latest first
  fun_induction ByteArray.toList.loop b i taken with
  | case1 i taken h ih =>
    have hi : i < b.data.toList.length := by simpa using h
    have hg : b.get! i = b.data.toList[i] := by simp [ByteArray.get!, getElem!_pos, h]
    rw [ih, List.reverse_cons, List.append_assoc, List.singleton_append,
      List.drop_eq_getElem_cons hi, hg]
  | case2 i taken h =>
    have hi : b.data.toList.length ≤ i := by simpa using h
    rw [List.drop_eq_nil_of_le hi, List.append_nil]

theorem ofString_eq (s : String) : ofString s = s.toUTF8.data.toList := by
  rw [ofString, ByteArray.toList, toList_loop, List.reverse_nil, List.nil_append, List.drop_zero]

theorem toByteArray_ofString (s : String) : (⟨(ofString s).toArray⟩ : ByteArray) = s.toUTF8 := by
  rw [ofString_eq, Array.toArray_toList]

theorem text?_ofString (s : String) : text? (ofString s) = some s := by
  have hv : s.toUTF8.IsValidUTF8 := s.isValidUTF8
  rw [text?, toByteArray_ofString, String.fromUTF8?, dif_pos hv]
  rfl

/-- No other bytes spell a text. -/
theorem ofString_of_text? {bs : Bytes} {s : String} (h : text? bs = some s) : ofString s = bs := by
  rw [text?, String.fromUTF8?] at h
  split at h
  · cases h
    rw [ofString_eq]
    rfl
  · cases h

/-- Where the bytes of a text begin those of another one, so do its characters. -/
theorem toList_prefix_of_ofString {s whole : String} {more : Bytes}
    (h : ofString s ++ more = ofString whole) : s.toList <+: whole.toList := by
  have hencode : ∀ s : String, s.toList.utf8Encode = s.toUTF8 := fun _ => String.utf8Encode_toList
  have hbytes : s.toList.utf8Encode ++ ⟨more.toArray⟩ = whole.toList.utf8Encode := by
    rw [hencode, hencode, ← toByteArray_ofString, ← toByteArray_ofString, ← h]
    apply ByteArray.ext
    simp
  exact List.isPrefix_of_utf8Encode_append_eq_utf8Encode _ hbytes

/-- A byte string is the big-endian form of the number that it spells. -/
theorem bigEndian_toNat (bs : Bytes) : bigEndian bs.length (toNat bs) = bs := by
  -- from the back, where the least significant byte stands
  induction bs using List.reverseRecOn with
  | nil => rfl
  | append_singleton bs b ih =>
    have hb : b.toNat < 256 := b.toNat_lt
    have hfront : (256 * toNat bs + b.toNat) / 256 = toNat bs := by omega
    have hlast : UInt8.ofNat (256 * toNat bs + b.toNat) = b := by
      apply UInt8.toNat_inj.mp
      rw [UInt8.toNat_ofNat']
      omega
    rw [toNat_append_singleton, List.length_append, List.length_singleton, bigEndian, hfront, hlast, ih]

theorem toNat_lt (bs : Bytes) : toNat bs < Nat.pow 256 bs.length := by
  have hmod : toNat bs = toNat bs % Nat.pow 256 bs.length := by
    rw [← toNat_bigEndian, bigEndian_toNat]
  rw [hmod]
  exact Nat.mod_lt _ (Nat.pow_pos (by decide))

theorem toNat_inj {as bs : Bytes} (hl : as.length = bs.length) (h : toNat as = toNat bs) : as = bs := by
  have has := bigEndian_toNat as
  rw [hl, h, bigEndian_toNat] at has
  exact has.symm

end Bytes

namespace Hex

theorem value?_digit {n : Nat} (h : n < 16) : value? (digit n) = some n := by
  have all : ∀ n < 16, value? (digit n) = some n := by decide
  exact all n h

/-- Digits read back as the bytes that they were written for. -/
theorem decode?_encode (bs : Bytes) : decode? (encode bs) = some bs := by
  induction bs with
  | nil => rfl
  | cons b bs ih =>
    have hb : b.toNat < 256 := b.toNat_lt
    have he : encode (b :: bs) = digit (b.toNat / 16) :: digit (b.toNat % 16) :: encode bs := rfl
    have hn : 16 * (b.toNat / 16) + b.toNat % 16 = b.toNat := by omega
    rw [he, decode?, value?_digit (by omega), value?_digit (by omega), ih]
    simp only [Option.bind_eq_bind, Option.bind_some, hn, UInt8.ofNat_toNat, Option.pure_def]

theorem value?_digitChar {d : Nat} (h : d < 16) : value? d.digitChar = some d := by
  have all : ∀ d < 16, value? d.digitChar = some d := by decide
  exact all d h

/-- The digits of a number spell it. -/
theorem number?_toDigits {base : Nat} (hlow : 1 < base) (hhigh : base ≤ 16) (n : Nat) :
    number? base (Nat.toDigits base n) = some n := by
  rw [number?]
  induction n using Nat.strongRecOn with
  | ind n ih =>
    rw [Nat.toDigits_eq_if hlow]
    split
    · next hn =>
      have hd : n < 16 := Nat.lt_of_lt_of_le hn hhigh
      simp [value?_digitChar hd, hn]
    · next hn =>
      have hm : n % base < base := Nat.mod_lt _ (Nat.zero_lt_of_lt hlow)
      have hd : n % base < 16 := Nat.lt_of_lt_of_le hm hhigh
      have hless : n / base < n := Nat.div_lt_self (by omega) hlow
      have hsum : base * (n / base) + n % base = n := Nat.div_add_mod n base
      rw [List.foldlM_append, ih (n / base) hless]
      simp [value?_digitChar hd, hm, hsum]

/-- Digits in any base up to sixteen are digits to the reader. -/
theorem isSome_value?_of_mem_toDigits {base n : Nat} {c : Char} (hlow : 1 < base) (hhigh : base ≤ 16)
    (h : c ∈ Nat.toDigits base n) : (value? c).isSome = true := by
  induction n using Nat.strongRecOn with
  | ind n ih =>
    have hdigit : ∀ d < base, (value? d.digitChar).isSome = true := by
      intro d hd
      rw [value?_digitChar (Nat.lt_of_lt_of_le hd hhigh)]
      rfl
    rw [Nat.toDigits_eq_if hlow] at h
    split at h
    · next hn =>
      rw [List.mem_singleton.mp h]
      exact hdigit n hn
    · rcases List.mem_append.mp h with h | h
      · exact ih (n / base) (Nat.div_lt_self (by omega) hlow) h
      · rw [List.mem_singleton.mp h]
        exact hdigit _ (Nat.mod_lt _ (Nat.zero_lt_of_lt hlow))

/-- A number has no more digits than its text. -/
theorem number?_lt {base n : Nat} {cs : List Char} (h : number? base cs = some n) : n < Nat.pow base cs.length := by
  have hgeneral : ∀ init n, cs.foldlM (fun n c => (value? c).bind fun d =>
      if d < base then some (base * n + d) else none) init = some n → n < (init + 1) * Nat.pow base cs.length := by
    clear h
    induction cs with
    | nil =>
      intro init n h
      cases h
      simp
    | cons c cs ih =>
      intro init n h
      rw [List.foldlM_cons] at h
      obtain ⟨next, hnext, h⟩ := Option.bind_eq_some_iff.mp h
      obtain ⟨d, _, hd⟩ := Option.bind_eq_some_iff.mp hnext
      have hstep : next + 1 ≤ (init + 1) * base := by
        split at hd
        · next hless =>
          cases hd
          rw [Nat.add_mul, Nat.mul_comm init, Nat.one_mul]
          omega
        · cases hd
      calc n < (next + 1) * Nat.pow base cs.length := ih next n h
        _ ≤ (init + 1) * base * Nat.pow base cs.length := Nat.mul_le_mul_right _ hstep
        _ = (init + 1) * Nat.pow base (cs.length + 1) := by rw [Nat.pow_eq, Nat.pow_eq, Nat.pow_succ', Nat.mul_assoc]
  have hbound := hgeneral 0 n h
  rwa [Nat.zero_add, Nat.one_mul] at hbound

theorem stripMark_text (bs : Bytes) : stripMark (text bs).toList = encode bs := by
  rw [text, String.toList_ofList]
  rfl

end Hex

end OracleDuty
