import OracleDuty.Proofs.Beacon.Inquiry
import OracleDuty.Proofs.Clients
/-!
The messages that the clients of the web services may send, over all answers that they may get.

Main statements: `Beacon.Node.sends_timing`, `Beacon.Node.sends_head`, `Beacon.Node.sends_block`,
`Generation.Service.sends_generate` and `Publication.Service.sends_upload`.
-/
namespace OracleDuty

open Program

namespace Wire

variable {α β ε δ : Type} {m : Http.Request}

/-- Some answers bring `p` to send `m`. -/
def Sends (p : Course α) (m : Http.Request) : Prop := ∃ t, p.Asks t (.http m)

theorem not_sends_done {a : α} : ¬Sends (.done a) m := fun ⟨_, _, h⟩ => nomatch h

theorem sends_note {line : Line} {p : Course α} : Sends (.note line p) m ↔ Sends p m := by
  constructor
  · rintro ⟨t, next, h⟩
    cases h with
    | note h => exact ⟨t, next, h⟩
  · rintro ⟨t, next, h⟩
    exact ⟨t, next, .note h⟩

/-- A question is a message itself, or any answer to it may lead to the message. -/
theorem sends_ask {q : Request} {next : Answer q → Course α} :
    Sends (.ask q next) m ↔ q = .http m ∨ ∃ a, Sends (next a) m := by
  constructor
  · rintro ⟨t, rest, h⟩
    cases h with
    | refl => exact .inl rfl
    | @ask _ _ a _ _ h => exact .inr ⟨a, _, rest, h⟩
  · rintro (rfl | ⟨a, t, rest, h⟩)
    · exact ⟨[], next, .refl _⟩
    · exact ⟨_, rest, .ask h⟩

/-- A message is sent by the first part, or by the second after the first has ended. -/
theorem sends_bind {p : Course α} {f : α → Course β} :
    Sends (p.bind f) m ↔ Sends p m ∨ ∃ a t, p.Ends t a ∧ Sends (f a) m := by
  constructor
  · rintro ⟨t, h⟩
    rcases asks_bind.mp h with h | ⟨a, u, v, rfl, hu, hv⟩
    · exact .inl ⟨t, h⟩
    · exact .inr ⟨a, u, hu, v, hv⟩
  · rintro (⟨t, h⟩ | ⟨a, u, hu, v, hv⟩)
    · exact ⟨t, asks_bind.mpr (.inl h)⟩
    · exact ⟨u ++ v, asks_bind.mpr (.inr ⟨a, u, v, rfl, hu, hv⟩)⟩

/-- In an action the second part is reached by success only. -/
theorem sends_run_bind {x : Action ε α} {f : α → Action ε β} :
    Sends (x >>= f).run m ↔ Sends x.run m ∨ ∃ a t, x.run.Ends t (.ok a) ∧ Sends (f a).run m := by
  rw [run_bind, sends_bind]
  apply or_congr Iff.rfl
  constructor
  · rintro ⟨a | a, t, ht, h⟩
    · exact absurd h not_sends_done
    · exact ⟨a, t, ht, h⟩
  · rintro ⟨a, t, ht, h⟩
    exact ⟨.ok a, t, ht, h⟩

theorem sends_run_adapt {f : ε → δ} {x : Action ε α} : Sends (ExceptT.adapt f x).run m ↔ Sends x.run m := by
  rw [run_adapt, sends_bind]
  simp [not_sends_done]

/-- What is not a message may be answered in any way. -/
theorem sends_ask_bind {q : Request} (hq : q ≠ .http m) {f : Answer q → Action ε α} :
    Sends (Wire.ask q >>= f).run m ↔ ∃ a, Sends (f a).run m := by
  have hrun : (Wire.ask q >>= f).run = .ask q fun a => (f a).run := rfl
  rw [hrun, sends_ask]
  simp [hq]

theorem not_sends_ask {q : Request} (hq : q ≠ .http m) : ¬Sends (Wire.ask q : Action ε (Answer q)).run m := by
  have hrun : (Wire.ask q : Action ε (Answer q)).run = .ask q fun a => .done (.ok a) := rfl
  rw [hrun, sends_ask]
  simp [hq, not_sends_done]

theorem sends_log_bind {source : Log.Source} {level : Log.Level} {message : String}
    {fields : List (String × Log.Value)} {f : Unit → Action ε α} :
    Sends (Wire.log source level message fields >>= f).run m ↔ Sends (f ()).run m := by
  have hrun : ∃ line, (Wire.log source level message fields >>= f).run = .note line (f ()).run := ⟨_, rfl⟩
  obtain ⟨line, hrun⟩ := hrun
  rw [hrun, sends_note]

/-- A message is sent as it is, provided that it can be sent. -/
theorem sends_attempt_send {cause : Http.Failure → ε} {r : Http.Request} :
    Sends (Wire.attempt cause (Wire.send r)).run m ↔ m = r ∧ r.isSendable = true := by
  change Sends (ExceptT.adapt cause (ExceptT.mk (Wire.send r))).run m ↔ _
  rw [sends_run_adapt]
  change Sends (Wire.send r) m ↔ _
  cases h : r.isSendable with
  | true =>
    have hsend : Wire.send r = .ask (.http r) .done := by
      rw [Wire.send, h, if_pos rfl]
      rfl
    rw [hsend, sends_ask]
    simp [not_sends_done, eq_comm]
  | false =>
    have hsend : Wire.send r = .done (.error (.broken "builder error")) := by
      rw [Wire.send, h]
      rfl
    rw [hsend]
    simp [not_sends_done]

/-- A message is sent where nothing that comes of its answer sends any. -/
theorem sends_attempt_send_bind {cause : Http.Failure → ε} {r : Http.Request} {f : Http.Response → Action ε α}
    (hf : ∀ response, ¬Sends (f response).run m) :
    Sends (Wire.attempt cause (Wire.send r) >>= f).run m ↔ m = r ∧ r.isSendable = true := by
  rw [sends_run_bind, sends_attempt_send]
  simp [hf]

end Wire

open Wire

namespace Beacon.Node

variable {n : Node} {topic : Topic} {m q : Http.Request} {α : Type}

/-- A query sends one message, to the locator of its path. -/
theorem sends_query {operation path : String} {read : Json → Option α} :
    Sends (n.query operation path read).run m ↔ n.getting? path = some m := by
  cases h : n.getting? path with
  | none =>
    obtain ⟨e, hrun | ⟨line, hrun⟩⟩ := query_of_none h operation read
    · simp [hrun, not_sends_done]
    · simp [hrun, sends_note, not_sends_done]
  | some q =>
    obtain ⟨line, hrun⟩ := query_of_some h operation read
    simp [hrun, sends_note, sends_ask, not_sends_done]

/-- What has to be there is asked for like anything else. -/
theorem sends_require {operation path : String} {read : Json → Option α} :
    Sends (n.require operation path read).run m ↔ n.getting? path = some m := by
  rw [require, sends_run_bind, sends_query]
  constructor
  · rintro (h | ⟨found, _, _, h⟩)
    · exact h
    -- what was found is given back, and what was not found is an error: neither asks
    · cases found with
      | none => exact absurd h not_sends_done
      | some a => exact absurd h not_sends_done
  · exact .inl

def genesisReply : Except Http.Failure Http.Response :=
  .ok ⟨200, Bytes.ofString "\x7b\"data\":\x7b\"genesis_time\":\"5\"\x7d\x7d"⟩

def headReply : Except Http.Failure Http.Response :=
  .ok ⟨200, Bytes.ofString
    "\x7b\"data\":\x7b\"header\":\x7b\"message\":\x7b\"slot\":\"5\"\x7d\x7d\x7d\x7d"⟩

/-- The timing is asked for at two paths, at the second one once genesis is known. -/
theorem sends_timing (hgenesis : n.inquiry? .genesis = some q) :
    Sends n.timing.run m ↔ m = q ∨ n.inquiry? .spec = some m := by
  have hreply : yields genesisTime? genesisReply = some 5 := by decide +kernel
  have hkept : Wire.Request.keptTiming ≠ .http m := nofun
  have hkeep : ∀ t, Wire.Request.keepTiming t ≠ .http m := nofun
  rw [timing, sends_ask_bind hkept]
  constructor
  · rintro ⟨kept, h⟩
    cases kept with
    | some t => exact absurd h not_sends_done
    | none =>
      rw [sends_run_bind, sends_require] at h
      rcases h with h | ⟨genesis, _, _, h⟩
      · exact .inl (Option.some.inj (h.symm.trans hgenesis))
      rw [sends_run_bind, sends_require] at h
      rcases h with h | ⟨lengths, _, _, h⟩
      · exact .inr h
      · exact absurd h (not_sends_ask (hkeep _))
  · intro h
    refine ⟨none, sends_run_bind.mpr ?_⟩
    rcases h with rfl | h
    · exact .inl (sends_require.mpr hgenesis)
    · exact .inr ⟨5, _, require_ends hgenesis "get_genesis" hreply, sends_run_bind.mpr (.inl (sends_require.mpr h))⟩

/-- The head is asked for at four paths: those of the timing, and two more. -/
theorem sends_head {g h : Http.Request} (hgenesis : n.inquiry? .genesis = some g)
    (hheader : n.inquiry? .header = some h) :
    Sends n.head.run m ↔ m = g ∨ n.inquiry? .spec = some m ∨ m = h ∨ n.inquiry? .finality = some m := by
  have hreply : yields headSlot? headReply = some 5 := by decide +kernel
  have hknown : n.timing.run.Ends [⟨.keptTiming, some ⟨1, 1, 1⟩⟩] (.ok ⟨1, 1, 1⟩) := .ask (.refl _)
  rw [head, sends_run_bind, sends_timing hgenesis, or_assoc]
  apply or_congr Iff.rfl
  apply or_congr Iff.rfl
  constructor
  · rintro ⟨t, _, _, hsent⟩
    rw [sends_run_bind, sends_require] at hsent
    rcases hsent with hsent | ⟨slot, _, _, hsent⟩
    · exact .inl (Option.some.inj (hsent.symm.trans hheader))
    rw [sends_run_bind, sends_require] at hsent
    rcases hsent with hsent | ⟨finalized, _, _, hsent⟩
    · exact .inr hsent
    · exact absurd hsent not_sends_done
  · intro hsent
    refine ⟨_, _, hknown, sends_run_bind.mpr ?_⟩
    rcases hsent with rfl | hsent
    · exact .inl (sends_require.mpr hheader)
    · exact .inr ⟨5, _, require_ends hheader "get_head_header" hreply,
        sends_run_bind.mpr (.inl (sends_require.mpr hsent))⟩

theorem sends_block {slot : UInt64} :
    Sends (n.block slot).run m ↔ n.getting? s!"eth/v2/beacon/blocks/{slot}" = some m := sends_query

end Beacon.Node

/-- A tree is asked for by one message. -/
theorem Generation.Service.sends_generate {service : Service} {r : Request} {url : Url} {m : Http.Request}
    (hurl : service.base.join ["v1", "rewards-trees"] = some url) :
    Sends (service.generate r).run m ↔ m = message url r ∧ (message url r).isSendable = true := by
  unfold generate
  simp only [hurl]
  rw [sends_log_bind, sends_attempt_send_bind]
  · rfl
  · intro response
    split
    · exact not_sends_done
    split
    · next reply _ =>
      cases reply.forInterval r.index <;> exact not_sends_done
    · exact not_sends_done

/-- A file is published by one message, once there is a token. -/
theorem Publication.Service.sends_upload {service : Service} {file : String} {content : Bytes} {url : Url}
    {m : Http.Request} (hurl : service.base.join ["upload"] = some url) :
    Sends (service.upload file content).run m ↔ ∃ token, service.token = some token ∧
      m = message url token file content ∧ (message url token file content).isSendable = true := by
  unfold upload
  cases htoken : service.token with
  | none =>
    simp only [reduceCtorEq, false_and, exists_false, iff_false]
    exact not_sends_done
  | some token =>
    simp only [Option.some.injEq, exists_eq_left', hurl]
    rw [sends_log_bind, sends_attempt_send_bind]
    · rfl
    · intro response
      split
      · exact not_sends_done
      split
      · rw [sends_log_bind]
        exact not_sends_done
      · exact not_sends_done

end OracleDuty
