import Mathlib.Data.List.Nodup
import OracleDuty.Proofs.Keccak.Rows
import OracleDuty.Proofs.SubmissionCall
/-!
The calls that only read: their bytes tell them apart. The selectors differ, which is a matter of evaluating the
hash of every signature, and the arguments read back.

Main statement: `Contract.Read.calldata_injective`.
-/
namespace OracleDuty.Contract

open Abi (Value)

namespace Read

def selectors : List (String × Bytes) := [
  ("getAddress(bytes32)", [0x21, 0xf8, 0xa7, 0x21]),
  ("getBool(bytes32)", [0x7a, 0xe1, 0xcf, 0xca]),
  ("getRewardIndex()", [0xf2, 0x1c, 0x15, 0x0c]),
  ("getClaimIntervalTimeStart()", [0xba, 0x34, 0xcb, 0x4b]),
  ("getClaimIntervalTime()", [0x50, 0xa2, 0xf7, 0xe5]),
  ("getPricesBlock()", [0x0f, 0xe4, 0x0b, 0xcd]),
  ("getLatestReportableBlock()", [0xa9, 0xbb, 0x16, 0xed]),
  ("getSubmitPricesEnabled()", [0xd7, 0xc8, 0x95, 0x3c]),
  ("getMemberCount()", [0x99, 0x70, 0x72, 0xf7]),
  ("getMemberAt(uint256)", [0xe9, 0x92, 0xc8, 0x17]),
  ("getMemberJoinedTime(address)", [0x59, 0x87, 0x95, 0x6e]),
  ("observe(uint32[])", [0x88, 0x3b, 0xdb, 0xfd]),
  ("rateStale()", [0xee, 0x0e, 0xb4, 0xa1])]

/-- The selectors of the table are those that the hash gives. -/
theorem selector_of_mem : ∀ e ∈ selectors, Abi.selector e.1 = e.2 := by
  have hshort : ∀ e ∈ selectors, (Bytes.ofString e.1).length < Keccak.rate := by decide +kernel
  have hvalue : ∀ e ∈ selectors, (Keccak.Rows.hash (Bytes.ofString e.1)).take 4 = e.2 := by decide +kernel
  intro e he
  rw [Abi.selector, Keccak.hash_eq_rows (hshort e he)]
  exact hvalue e he

theorem exists_mem_selectors (r : Read) : ∃ e ∈ selectors, e.1 = r.signature := by
  cases r <;> simp [selectors, signature]

/-- No two of the functions have one selector. -/
theorem signature_eq_of_selector {r r' : Read} (h : Abi.selector r.signature = Abi.selector r'.signature) :
    r.signature = r'.signature := by
  obtain ⟨e, he, hsig⟩ := r.exists_mem_selectors
  obtain ⟨e', he', hsig'⟩ := r'.exists_mem_selectors
  rw [← hsig, ← hsig', selector_of_mem e he, selector_of_mem e' he'] at h
  have hnodup : (selectors.map Prod.snd).Nodup := by decide
  rw [← hsig, ← hsig', List.inj_on_of_nodup_map hnodup he he' h]

def of? : String → List Value → Option Read
  | "getAddress(bytes32)", [.word key] => some (.getAddress key)
  | "getBool(bytes32)", [.word key] => some (.getBool key)
  | "getRewardIndex()", [] => some .getRewardIndex
  | "getClaimIntervalTimeStart()", [] => some .getClaimIntervalTimeStart
  | "getClaimIntervalTime()", [] => some .getClaimIntervalTime
  | "getPricesBlock()", [] => some .getPricesBlock
  | "getLatestReportableBlock()", [] => some .getLatestReportableBlock
  | "getSubmitPricesEnabled()", [] => some .getSubmitPricesEnabled
  | "getMemberCount()", [] => some .getMemberCount
  | "getMemberAt(uint256)", [.word index] => some (.getMemberAt index)
  | "getMemberJoinedTime(address)", [.word member] => some (.getMemberJoinedTime (member.setWidth 160))
  | "observe(uint32[])", [.words ws] => some (.observe (ws.map fun w => UInt32.ofNat w.toNat))
  | "rateStale()", [] => some .rateStale
  | _, _ => none

/-- A call is read back from its signature and its arguments. -/
theorem of?_arguments (r : Read) : of? r.signature r.arguments = some r := by
  cases r with
  | getMemberJoinedTime member =>
    have hwidth : (addressWord member).setWidth 160 = member := by
      rw [addressWord, BitVec.setWidth_setWidth_of_le _ (by decide), BitVec.setWidth_eq]
    exact congrArg (fun a => some (getMemberJoinedTime a)) hwidth
  | observe secondsAgo =>
    have hread : ((secondsAgo.map fun s => (BitVec.ofNat 256 s.toNat : Word)).map
        fun w => UInt32.ofNat w.toNat) = secondsAgo := by
      rw [List.map_map, List.map_congr_left (g := id) fun s _ => ?_, List.map_id]
      have hlt : s.toNat < 2 ^ 256 := Nat.lt_trans s.toNat_lt (by decide)
      rw [Function.comp, BitVec.toNat_ofNat, Nat.mod_eq_of_lt hlt, UInt32.ofNat_toNat, id]
    exact congrArg (fun ss => some (observe ss)) hread
  | _ => rfl

theorem arguments_cases (r : Read) :
    r.arguments = [] ∨ (∃ w, r.arguments = [.word w]) ∨ ∃ ws, r.arguments = [.words ws] := by
  cases r with
  | observe secondsAgo => exact .inr (.inr ⟨_, rfl⟩)
  | getAddress w | getBool w | getMemberAt w => exact .inr (.inl ⟨w, rfl⟩)
  | getMemberJoinedTime member => exact .inr (.inl ⟨_, rfl⟩)
  | _ => exact .inl rfl

theorem encode_nil : (Value.tuple []).encode = [] := by
  simp [Value.encode, Value.encodeAll, Abi.layout, Abi.assemble]

theorem encode_word (w : Word) : (Value.tuple [.word w]).encode = w.bytes := by
  simp [Value.encode, Value.encodeAll, Value.isDynamic, Abi.layout, Abi.assemble]

theorem encode_words (ws : List Word) : (Value.tuple [.words ws]).encode =
    Abi.wordBytes 32 ++ (Abi.wordBytes ws.length ++ ws.flatMap Word.bytes) := by
  simp [Value.encode, Value.encodeAll, Value.isDynamic, Abi.layout, Abi.assemble, Abi.headSize]

/-- The arguments are told by their bytes, whatever function they are for. -/
theorem arguments_eq_of_encode {r r' : Read}
    (h : (Value.tuple r.arguments).encode = (Value.tuple r'.arguments).encode) : r.arguments = r'.arguments := by
  have hlength := congrArg List.length h
  rcases r.arguments_cases with hr | ⟨w, hr⟩ | ⟨ws, hr⟩ <;>
    rcases r'.arguments_cases with hr' | ⟨w', hr'⟩ | ⟨ws', hr'⟩ <;> rw [hr, hr'] at h hlength ⊢
  case inr.inl.inr.inl =>
    rw [encode_word, encode_word, ← List.flatMap_singleton Word.bytes, ← List.flatMap_singleton Word.bytes] at h
    rw [List.head_eq_of_cons_eq (Abi.flatMap_bytes_injective h)]
  case inr.inr.inr.inr =>
    rw [encode_words, encode_words] at h
    have htail := List.append_inj_right (List.append_cancel_left h) (by simp only [Abi.length_wordBytes])
    rw [Abi.flatMap_bytes_injective htail]
  -- nothing, one word, and words behind an offset and their number have different lengths
  all_goals
    simp only [encode_nil, encode_word, encode_words, List.length_nil, List.length_append, Word.length_bytes,
      Abi.length_wordBytes, Abi.length_flatMap_bytes] at hlength
    omega

/-- A call that reads is known by its bytes. -/
theorem calldata_injective {r r' : Read} (h : r.calldata = r'.calldata) : r = r' := by
  have hlength (s : String) : (Abi.selector s).length = 4 := Abi.length_selector s
  obtain ⟨hselector, harguments⟩ := List.append_inj h ((hlength _).trans (hlength _).symm)
  have hread := of?_arguments r
  rw [signature_eq_of_selector hselector, arguments_eq_of_encode harguments, of?_arguments] at hread
  exact (Option.some.inj hread).symm

end Read

end OracleDuty.Contract
