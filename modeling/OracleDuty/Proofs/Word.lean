import OracleDuty.Json.Record
import OracleDuty.Proofs.Bytes
import OracleDuty.Proofs.Decimal
/-!
The texts of words, addresses and digests read back: addresses and digests from hexadecimal digits, and
amounts from decimal ones.

Main statements: `Digest.ofText?_text`, `Address.ofText?_text` and `Json.amountOf?_decimal`.
-/
namespace OracleDuty

theorem Address.ofText?_text (a : Address) : Address.ofText? a.text = some a := by
  have hlt : a.toNat < Nat.pow 256 20 := a.isLt
  have hn : Bytes.toNat a.bytes = a.toNat := by
    rw [Address.bytes, Bytes.toNat_bigEndian, Nat.mod_eq_of_lt hlt]
  rw [ofText?, text, Hex.stripMark_text, Hex.decode?_encode, Option.bind_eq_bind, Option.bind_some]
  refine Option.bind_eq_some_iff.mpr ⟨(), if_pos (length_bytes a), ?_⟩
  rw [hn, BitVec.ofNat_toNat, BitVec.setWidth_eq]
  rfl

theorem Digest.ofBytes?_bytes (d : Digest) : Digest.ofBytes? (Word.bytes d) = some d := by
  have hlt : d.toNat < Nat.pow 256 32 := d.isLt
  have hn : Bytes.toNat (Word.bytes d) = d.toNat := by
    rw [Word.bytes, Bytes.toNat_bigEndian, Nat.mod_eq_of_lt hlt]
  rw [ofBytes?, if_pos (Word.length_bytes d), hn, BitVec.ofNat_toNat, BitVec.setWidth_eq]

theorem Digest.ofText?_text (d : Digest) : Digest.ofText? d.text = some d := by
  rw [ofText?, text, Hex.stripMark_text, Hex.decode?_encode, Option.bind_some, ofBytes?_bytes]

namespace Json

theorem ne_underscore_of_isDigit {c : Char} (h : c.isDigit = true) : (c != '_') = true := by
  rw [bne_iff_ne]
  rintro rfl
  exact absurd h (by decide)

/-- The digits of a number spell it. -/
theorem digitsIn?_toDigits (n : Nat) : digitsIn? 10 (Nat.toDigits 10 n) = some n := by
  have hf : (Nat.toDigits 10 n).filter (· != '_') = Nat.toDigits 10 n :=
    List.filter_eq_self.mpr fun c hc =>
      ne_underscore_of_isDigit (Decimal.isDigit_of_mem_toDigits hc)
  rw [digitsIn?, hf]
  exact Hex.number?_toDigits (by decide) (by decide) n

/-- The decimal text of an amount reads back as it. -/
theorem amountOf?_decimal (w : Word) : amountOf? w.decimal.toList = some w := by
  have ht : w.decimal.toList = Nat.toDigits 10 w.toNat := Nat.toList_repr
  have hlt : w.toNat < Nat.pow 2 256 := w.isLt
  have hd : ∀ cs, Nat.toDigits 10 w.toNat = '0' :: cs → cs = [] := by
    intro cs hcs
    rcases Nat.eq_zero_or_pos w.toNat with h | h
    · rw [h, Nat.toDigits_zero] at hcs
      exact (List.cons.inj hcs).2.symm
    · obtain ⟨c, cs', hc, h0⟩ := Decimal.toDigits_eq_cons h
      exact absurd (List.cons.inj (hc.symm.trans hcs)).1 h0
  have hm : ∀ c cs, Nat.toDigits 10 w.toNat = '0' :: c :: cs → False := fun c cs h => nomatch hd _ h
  rw [ht, amountOf?.eq_7 _ (fun _ => hm _ _) (fun _ => hm _ _) (fun _ => hm _ _) (fun _ => hm _ _)
    (fun _ => hm _ _) (fun _ => hm _ _), digitsIn?_toDigits, Option.bind_some, if_pos hlt,
    BitVec.ofNat_toNat, BitVec.setWidth_eq]

end Json

end OracleDuty
