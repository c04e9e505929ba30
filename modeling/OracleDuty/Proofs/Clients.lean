import OracleDuty.Clients
import OracleDuty.Proofs.Execution.Reading
import OracleDuty.Proofs.Generation
/-!
The clients where nothing fails: what is asked to have a file published and a call mined.

Main statements: `Publication.Service.ends_upload` and `Execution.Node.ends_submit`.
-/
namespace OracleDuty

namespace Publication

def message (url : Url) (token file : String) (content : Bytes) : Http.Request :=
  ⟨.post, url, [("authorization", "Bearer " ++ token), ("content-type", "application/octet-stream"),
    ("x-name", file)], content⟩

variable {service : Service} {token file cid : String} {content body : Bytes} {url : Url}

/-- A service that replies with an identifier has published the file. -/
theorem Service.ends_upload (htoken : service.token = some token)
    (hurl : service.base.join ["upload"] = some url)
    (hsend : (message url token file content).isSendable = true)
    (hcid : (Http.Response.json? ⟨200, body⟩).bind identifier? = some cid) :
    (service.upload file content).run.Ends
      [⟨.http (message url token file content), .ok ⟨200, body⟩⟩] (.ok cid) := by
  unfold upload
  rw [htoken]
  dsimp only
  rw [hurl]
  dsimp only
  refine ends_run_bind.mpr ⟨(), [], _, rfl, .note (.refl _), ?_⟩
  refine ends_run_bind.mpr ⟨⟨200, body⟩, _, [], (List.append_nil _).symm,
    Wire.ends_attempt_send hsend _ _, ?_⟩
  dsimp only
  rw [if_neg (by decide), hcid]
  exact .note (.refl _)

end Publication

namespace Execution.Node

variable {α : Type} (n : Node)

theorem ends_ask {cause : String → Error} {read : Json → Option α} {call : Rpc.Call}
    {answer : Except String Json} {a : α} (h : told read answer = some a) :
    (n.ask cause read call).run.Ends [⟨.rpc n.endpoint call, answer⟩] (.ok a) := by
  rw [n.ask_eq, ← verdict_eq_ok.mpr h]
  exact .ask (.refl _)

def lookup (name : Contract.Name) : Rpc.Call :=
  .read n.registry (Contract.Read.getAddress (Registry.key name.text)).calldata .latest

theorem ends_contract {name : Contract.Name} {answer : Except String Json} {a : Address}
    (h : answeredAddress? answer = some a) (ha : a ≠ 0) :
    (n.contract .latest name).run.Ends [⟨.rpc n.endpoint (n.lookup name), answer⟩] (.ok a) := by
  refine ends_run_bind.mpr ⟨a, _, [], (List.append_nil _).symm, n.ends_ask h, ?_⟩
  rw [if_neg ha]
  exact .refl _

/-- A transaction with its fees set is completed by three numbers. -/
theorem ends_transaction (call : Call) (options : TxOptions) (target : Address)
    {counted chain estimated : Except String Json} {nonce chainId gasLimit : UInt64}
    {fee priority : Wei} (hnonce : told Rpc.uint64? counted = some nonce)
    (hchain : told Rpc.uint64? chain = some chainId) (hgas : told Rpc.uint64? estimated = some gasLimit)
    (hlimit : options.gasLimit = none) (hfee : options.maxFeePerGas = some fee)
    (hpriority : options.maxPriorityFeePerGas = some priority) :
    (n.transaction target call options).run.Ends
      [⟨.rpc n.endpoint (.transactionCount n.account), counted⟩, ⟨.rpc n.endpoint .chainId, chain⟩,
        ⟨.rpc n.endpoint (.estimateGas ⟨n.account, target, Contract.calldata call, options.value, nonce⟩),
          estimated⟩]
      (.ok ⟨⟨n.account, target, Contract.calldata call, options.value, nonce⟩, chainId, gasLimit, fee,
        priority⟩) := by
  unfold transaction
  refine ends_run_bind.mpr ⟨nonce, [_], _, rfl, n.ends_ask hnonce, ?_⟩
  refine ends_run_bind.mpr ⟨chainId, [_], _, rfl, n.ends_ask hchain, ?_⟩
  rw [hlimit, hfee, hpriority]
  refine ends_run_bind.mpr ⟨gasLimit, [_], [], rfl, n.ends_ask hgas, ?_⟩
  exact .refl _

/-- A call is mined once its transaction has been sent and its receipt tells of success. -/
theorem ends_submit (call : Call) {options : TxOptions} {target : Address}
    {t u : List (Exchange Wire.Request Wire.Answer)} {transaction : Rpc.Transaction}
    {sent mined : Except String Json} {hash : Digest} {receipt : Rpc.Receipt}
    (htarget : (n.recipient call).run.Ends t (.ok target))
    (htransaction : (n.transaction target call options).run.Ends u (.ok transaction))
    (hsent : told Json.digest? sent = some hash)
    (hmined : told Rpc.Receipt.ofJson? mined = some receipt) (hsuccess : receipt.succeeded = true) :
    (n.submit call options).run.Ends (t ++ (u ++ [⟨.rpc n.endpoint (.send transaction), sent⟩,
      ⟨.rpc n.endpoint (.receipt hash), mined⟩])) (.ok hash) := by
  have hconfirm : (n.confirm hash).run.Ends [⟨.rpc n.endpoint (.receipt hash), mined⟩] (.ok hash) := by
    refine ends_run_bind.mpr ⟨(), [], _, rfl, .note (.refl _), ?_⟩
    refine ends_run_bind.mpr ⟨receipt, [_], [], rfl, n.ends_ask hmined, ?_⟩
    rw [hsuccess]
    exact .note (.refl _)
  refine ends_run_bind.mpr ⟨(), [], _, rfl, .note (.refl _), ?_⟩
  refine ends_run_bind.mpr ⟨target, t, _, rfl, htarget, ?_⟩
  refine ends_run_bind.mpr ⟨transaction, u, _, rfl, htransaction, ?_⟩
  exact ends_run_bind.mpr ⟨hash, [_], _, rfl, n.ends_ask hsent, hconfirm⟩

end Execution.Node

end OracleDuty
