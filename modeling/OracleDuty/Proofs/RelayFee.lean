import Mathlib.Order.Bounds.Basic
import OracleDuty.Relay.Fee
/-!
What is paid for a relay, against exact arithmetic: no step of it leaves the words, a ticket is paid its gas and
its submission cost, and a rollup transaction is paid at the least price that covers its pubdata.

Main statement: `payments_exact`.
-/
namespace OracleDuty.Relay

variable {a b : Word} {f f' : Wei}

/-! ### Words without wrapping -/

def add? (a b : Word) : Option Word := if a.toNat + b.toNat < Nat.pow 2 256 then some (a + b) else none

def mul? (a b : Word) : Option Word := if a.toNat * b.toNat < Nat.pow 2 256 then some (a * b) else none

/-- The ticket, as long as each value on the way is a word. -/
def arbitrumTicket? (maxFee : Wei) : Option (CallParams × Word) := do
  let leastCost ← mul? ticketBytes (fee maxFee)
  let submissionCost ← mul? leastCost submissionCostMultiplier
  let gas ← mul? ticketGasLimit ticketMaxFeePerGas
  let value ← add? gas submissionCost
  return (.arbitrum submissionCost ticketGasLimit ticketMaxFeePerGas, value)

def pubdataGasPrice? (maxFee : Wei) : Option Word := do
  let cost ← mul? pubdataMultiplier (fee maxFee)
  let quotient := cost / gasPerPubdataByte
  if cost % gasPerPubdataByte = 0 then some quotient else add? quotient 1

/-- The rollup transaction, as long as each value on the way is a word. -/
def zkSyncEraTransaction? (maxFee : Wei) : Option (CallParams × Word) := do
  let price ← pubdataGasPrice? maxFee
  let price := if price < minRollupGasPrice then minRollupGasPrice else price
  let value ← mul? rollupGasLimit price
  return (.zkSyncEra rollupGasLimit gasPerPubdataByte, value)

/-- A sum that is a word is the sum of the numbers. -/
theorem add?_eq (h : a.toNat + b.toNat < Nat.pow 2 256) :
    add? a b = some (a + b) ∧ (a + b).toNat = a.toNat + b.toNat :=
  ⟨if_pos h, BitVec.toNat_add_of_lt h⟩

theorem mul?_eq (h : a.toNat * b.toNat < Nat.pow 2 256) :
    mul? a b = some (a * b) ∧ (a * b).toNat = a.toNat * b.toNat :=
  ⟨if_pos h, BitVec.toNat_mul_of_lt h⟩

theorem toNat_fee (f : Wei) : (fee f).toNat = f.toNat := by
  have hlt : f.toNat < Nat.pow 2 256 := Nat.lt_trans f.isLt (by decide)
  rw [fee, BitVec.toNat_setWidth]
  exact Nat.mod_eq_of_lt hlt

/-- A fee leaves room for any factor of 128 bits. -/
theorem mul_fee_lt {n : Nat} (hn : n ≤ Nat.pow 2 128) (f : Wei) : n * f.toNat < Nat.pow 2 256 := by
  have hf : f.toNat < Nat.pow 2 128 := f.isLt
  calc n * f.toNat ≤ Nat.pow 2 128 * f.toNat := Nat.mul_le_mul_right _ hn
    _ < Nat.pow 2 128 * Nat.pow 2 128 := Nat.mul_lt_mul_of_pos_left hf (by decide)
    _ = Nat.pow 2 256 := by decide

theorem mul?_fee (ha : a.toNat ≤ Nat.pow 2 128) (f : Wei) :
    mul? a (fee f) = some (a * fee f) ∧ (a * fee f).toNat = a.toNat * f.toNat := by
  have hlt : a.toNat * (fee f).toNat < Nat.pow 2 256 := by
    rw [toNat_fee]
    exact mul_fee_lt ha f
  have hexact := mul?_eq hlt
  rwa [toNat_fee] at hexact

/-! ### Retryable tickets -/

theorem leastCost_exact (f : Wei) : mul? ticketBytes (fee f) = some (ticketBytes * fee f) ∧
    (ticketBytes * fee f).toNat = 1616 * f.toNat := mul?_fee (by decide) f

/-- The cost of a ticket stays far below the bound of a word. -/
theorem submissionCost_exact (f : Wei) :
    mul? (ticketBytes * fee f) submissionCostMultiplier =
      some (ticketBytes * fee f * submissionCostMultiplier) ∧
    (ticketBytes * fee f * submissionCostMultiplier).toNat = 6464 * f.toNat := by
  have hexact : (ticketBytes * fee f).toNat * submissionCostMultiplier.toNat = 6464 * f.toNat := by
    rw [(leastCost_exact f).2, show submissionCostMultiplier.toNat = 4 from rfl]
    omega
  have hlt : (ticketBytes * fee f).toNat * submissionCostMultiplier.toNat < Nat.pow 2 256 := by
    rw [hexact]
    exact mul_fee_lt (by decide) f
  obtain ⟨hsome, hnat⟩ := mul?_eq hlt
  exact ⟨hsome, hnat.trans hexact⟩

theorem ticketGas_exact : mul? ticketGasLimit ticketMaxFeePerGas = some (ticketGasLimit * ticketMaxFeePerGas) ∧
    (ticketGasLimit * ticketMaxFeePerGas).toNat = ticketGasLimit.toNat * ticketMaxFeePerGas.toNat :=
  mul?_eq (by decide)

/-- A ticket is paid the gas and the submission cost that it names. -/
theorem arbitrumTicket_exact (f : Wei) : arbitrumTicket? f = some (arbitrumTicket f) ∧
    ∃ submissionCost gasLimit maxFeePerGas,
      (arbitrumTicket f).1 = .arbitrum submissionCost gasLimit maxFeePerGas ∧
      submissionCost.toNat = 6464 * f.toNat ∧
      (arbitrumTicket f).2.toNat = gasLimit.toNat * maxFeePerGas.toNat + submissionCost.toNat := by
  obtain ⟨hleast, _⟩ := leastCost_exact f
  obtain ⟨hcost, hcostNat⟩ := submissionCost_exact f
  obtain ⟨hgas, hgasNat⟩ := ticketGas_exact
  have hlt : (ticketGasLimit * ticketMaxFeePerGas).toNat +
      (ticketBytes * fee f * submissionCostMultiplier).toNat < Nat.pow 2 256 := by
    have hf : f.toNat < Nat.pow 2 128 := f.isLt
    rw [hgasNat, hcostNat, show ticketGasLimit.toNat * ticketMaxFeePerGas.toNat = 4000000000000 from rfl]
    simp only [Nat.pow_eq] at hf ⊢
    omega
  obtain ⟨hvalue, hvalueNat⟩ := add?_eq hlt
  refine ⟨?_, _, _, _, rfl, hcostNat, ?_⟩
  · simp only [arbitrumTicket?, hleast, hcost, hgas, hvalue, Option.bind_eq_bind, Option.bind_some]
    rfl
  · rw [← hgasNat]
    exact hvalueNat

/-! ### Rollup transactions -/

theorem pubdataCost_exact (f : Wei) : mul? pubdataMultiplier (fee f) = some (pubdataMultiplier * fee f) ∧
    (pubdataMultiplier * fee f).toNat = 17 * f.toNat := mul?_fee (by decide) f

/-- The price is the quotient rounded up. -/
theorem pubdataGasPrice_exact (f : Wei) : pubdataGasPrice? f = some (pubdataGasPrice f) ∧
    17 * f.toNat ≤ 800 * (pubdataGasPrice f).toNat ∧
    800 * (pubdataGasPrice f).toNat < 17 * f.toNat + 800 := by
  obtain ⟨hcost, hcostNat⟩ := pubdataCost_exact f
  have hdiv : (pubdataMultiplier * fee f / gasPerPubdataByte).toNat = 17 * f.toNat / 800 := by
    rw [BitVec.toNat_udiv, hcostNat]
    rfl
  have hmod : pubdataMultiplier * fee f % gasPerPubdataByte = 0 ↔ 17 * f.toNat % 800 = 0 := by
    rw [← BitVec.toNat_inj, BitVec.toNat_umod, hcostNat]
    rfl
  have hlt : (pubdataMultiplier * fee f / gasPerPubdataByte).toNat + (1 : Word).toNat < Nat.pow 2 256 := by
    have hf : f.toNat < Nat.pow 2 128 := f.isLt
    rw [hdiv, show (1 : Word).toNat = 1 from rfl]
    simp only [Nat.pow_eq] at hf ⊢
    omega
  obtain ⟨hup, hupNat⟩ := add?_eq hlt
  simp only [pubdataGasPrice?, hcost, hup, Option.bind_eq_bind, Option.bind_some, pubdataGasPrice]
  split
  · next hzero =>
    rw [hdiv]
    have hexact := hmod.mp hzero
    exact ⟨rfl, by omega, by omega⟩
  · next hrest =>
    have hrest := mt hmod.mpr hrest
    rw [hupNat, hdiv, show (1 : Word).toNat = 1 from rfl]
    exact ⟨rfl, by omega, by omega⟩

/-- A gas price that the rollup accepts and that covers the pubdata of a fee. -/
def Sufficient (f : Wei) (price : Nat) : Prop := 500000000 ≤ price ∧ 17 * f.toNat ≤ 800 * price

/-- A rollup transaction is paid its gas at the least sufficient price. -/
theorem zkSyncEraTransaction_exact (f : Wei) :
    zkSyncEraTransaction? f = some (zkSyncEraTransaction f) ∧
    ∃ gasLimit gasPerPubdata price, (zkSyncEraTransaction f).1 = .zkSyncEra gasLimit gasPerPubdata ∧
      (zkSyncEraTransaction f).2.toNat = gasLimit.toNat * price ∧
      IsLeast {price | Sufficient f price} price := by
  obtain ⟨hprice, hlow, hhigh⟩ := pubdataGasPrice_exact f
  have hfloor : minRollupGasPrice.toNat = 500000000 := rfl
  have hlimit : rollupGasLimit.toNat = 750000 := rfl
  have hf : f.toNat < Nat.pow 2 128 := f.isLt
  simp only [Nat.pow_eq] at hf
  simp only [zkSyncEraTransaction?, hprice, Option.bind_eq_bind, Option.bind_some, zkSyncEraTransaction]
  split
  · next hless =>
    rw [BitVec.lt_def, hfloor] at hless
    have hlt : rollupGasLimit.toNat * minRollupGasPrice.toNat < Nat.pow 2 256 := by decide
    obtain ⟨hvalue, hvalueNat⟩ := mul?_eq hlt
    refine ⟨by rw [hvalue]; rfl, _, _, _, rfl, hvalueNat, ?_⟩
    refine ⟨⟨by omega, by omega⟩, ?_⟩
    intro price hsufficient
    exact hsufficient.1
  · next hless =>
    rw [BitVec.lt_def, hfloor] at hless
    have hlt : rollupGasLimit.toNat * (pubdataGasPrice f).toNat < Nat.pow 2 256 := by
      rw [hlimit, Nat.pow_eq]
      omega
    obtain ⟨hvalue, hvalueNat⟩ := mul?_eq hlt
    refine ⟨by rw [hvalue]; rfl, _, _, _, rfl, hvalueNat, ?_⟩
    refine ⟨⟨by omega, hlow⟩, ?_⟩
    rintro price ⟨_, hcovers⟩
    omega

/-! ### Payments -/

theorem arbitrumTicket_mono (h : f ≤ f') : (arbitrumTicket f).2 ≤ (arbitrumTicket f').2 := by
  obtain ⟨_, cost, _, _, hparams, hcost, hvalue⟩ := arbitrumTicket_exact f
  obtain ⟨_, cost', _, _, hparams', hcost', hvalue'⟩ := arbitrumTicket_exact f'
  cases hparams
  cases hparams'
  have hf : f.toNat ≤ f'.toNat := h
  rw [BitVec.le_def, hvalue, hvalue', hcost, hcost']
  omega

/-- A higher fee is never paid for with less. -/
theorem zkSyncEraTransaction_mono (h : f ≤ f') :
    (zkSyncEraTransaction f).2 ≤ (zkSyncEraTransaction f').2 := by
  obtain ⟨_, _, _, price, hparams, hvalue, _, hleast⟩ := zkSyncEraTransaction_exact f
  obtain ⟨_, _, _, price', hparams', hvalue', ⟨hfloor, hcovers⟩, _⟩ := zkSyncEraTransaction_exact f'
  cases hparams
  cases hparams'
  have hf : f.toNat ≤ f'.toNat := h
  -- what covers the higher fee covers the lower one too
  have hprice : price ≤ price' := hleast ⟨hfloor, by omega⟩
  rw [BitVec.le_def, hvalue, hvalue']
  exact Nat.mul_le_mul_left _ hprice

/-- Whatever the fee is, all values on the way to a payment are words. A ticket is paid its gas and the whole
submission cost; a rollup transaction is paid its gas at the least price that is accepted and covers the pubdata. A
higher fee never lowers what is paid. -/
theorem payments_exact (f : Wei) :
    (arbitrumTicket? f = some (arbitrumTicket f) ∧
      ∃ submissionCost gasLimit maxFeePerGas,
        (arbitrumTicket f).1 = .arbitrum submissionCost gasLimit maxFeePerGas ∧
        submissionCost.toNat = 6464 * f.toNat ∧
        (arbitrumTicket f).2.toNat = gasLimit.toNat * maxFeePerGas.toNat + submissionCost.toNat) ∧
    (zkSyncEraTransaction? f = some (zkSyncEraTransaction f) ∧
      ∃ gasLimit gasPerPubdata price, (zkSyncEraTransaction f).1 = .zkSyncEra gasLimit gasPerPubdata ∧
        (zkSyncEraTransaction f).2.toNat = gasLimit.toNat * price ∧
        IsLeast {price | Sufficient f price} price) ∧
    ∀ f', f ≤ f' → (arbitrumTicket f).2 ≤ (arbitrumTicket f').2 ∧
      (zkSyncEraTransaction f).2 ≤ (zkSyncEraTransaction f').2 := by
  refine ⟨arbitrumTicket_exact f, zkSyncEraTransaction_exact f, ?_⟩
  intro f' h
  exact ⟨arbitrumTicket_mono h, zkSyncEraTransaction_mono h⟩

/-- The largest fee is paid in full, and no fee pays less. -/
theorem payments_exact_largest : (0 : Wei) ≤ .allOnes 128 ∧
    (arbitrumTicket (.allOnes 128)).2.toNat = 40000 * 100000000 + 6464 * (.allOnes 128 : Wei).toNat ∧
    (arbitrumTicket 0).2 ≤ (arbitrumTicket (.allOnes 128)).2 ∧
    (zkSyncEraTransaction 0).2 ≤ (zkSyncEraTransaction (.allOnes 128)).2 := by
  have hle : (0 : Wei) ≤ .allOnes 128 := by decide
  obtain ⟨hticket, hrollup⟩ := (payments_exact 0).2.2 (.allOnes 128) hle
  obtain ⟨_, cost, limit, perGas, hparams, hcost, hvalue⟩ := (payments_exact (.allOnes 128)).1
  refine ⟨hle, ?_, hticket, hrollup⟩
  cases hparams
  rw [hvalue, hcost]
  rfl

end OracleDuty.Relay
