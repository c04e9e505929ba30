import OracleDuty.Proofs.Duty.Round
/-!
Tickets: what a submission attests to, how often an attestation was accepted, and worlds that keep a record
of attestations.
-/
namespace OracleDuty

open Duty

/-- What a submission attests to. -/
inductive Ticket where
  | snapshot (index : Word)
  | price (block value : Word)
deriving DecidableEq

/-- The attestation of a call. Relaying a price attests to nothing. -/
def Call.ticket? : Call → Option Ticket
  | .submitRewardSnapshot x => some (.snapshot x.rewardIndex)
  | .submitPrices block price => some (.price block price)
  | .submitRate .. => none

namespace Ticket

def key (node : Address) : Ticket → Digest
  | snapshot index => Submission.key .rewardsSnapshot node index none
  | price block value => Submission.key .prices node block (some value)

def lane : Ticket → String
  | snapshot _ => SubmitRewards.name
  | price .. => SubmitPrices.name

end Ticket

def Ticket.ofAnswer? : (q : Request) → Answer q → Option Ticket
  | .submit call _, .ok _ => call.ticket?
  | _, _ => none

def Event.accepted? : Event Request Answer → Option Ticket
  | .heard _ q a => Ticket.ofAnswer? q a
  | _ => none

/-- How often an attestation was accepted. -/
def accepted (τ : Ticket) (log : List (Event Request Answer)) : Nat :=
  log.countP fun e => e.accepted? = some τ

section

variable {σ : Type}

/-- The world keeps a flag for each attestation of the node: an accepted call sets it, it stays set, and it
is read as it is. -/
structure RecordsAttestations (node : Address) (w : World σ Request Answer) (flag : σ → Digest → Bool) :
    Prop where
  stays {st st' : σ} {act : Act Request Answer} {key : Digest} : w.Moves st act st' →
    flag st key = true → flag st' key = true
  read {st st' : σ} {key : Digest} {b : Bool} :
    w.answer (.flag key none) st = (.answer (.ok b), st') → b = flag st key
  submit {st st' : σ} {call : Call} {options : TxOptions} {hash : Digest} {τ : Ticket} :
    w.answer (.submit call options) st = (.answer (.ok hash), st') → call.ticket? = some τ →
      flag st' (τ.key node) = true

end

/-- The trees that were brought are those that were asked for. -/
structure KeepsIndices (store : Store) (log : List (Event Request Answer)) : Prop where
  stored {number : Option Nat} {i : UInt64} {content : Bytes} {t : RewardsTree} :
    .heard number (.disk (.read (store.treePath i))) (.ok content) ∈ log →
      Store.decode? content = some t → t.header.index = i
  generated {number : Option Nat} {request : Generation.Request} {reply : Generation.Reply} :
    .heard number (.generate request) (.ok reply) ∈ log → reply.tree.header.index = request.index

theorem KeepsIndices.mono {store : Store} {log log' : List (Event Request Answer)}
    (h : KeepsIndices store log') (hl : ∀ e ∈ log, e ∈ log') : KeepsIndices store log where
  stored he := h.stored (hl _ he)
  generated he := h.generated (hl _ he)

end OracleDuty
