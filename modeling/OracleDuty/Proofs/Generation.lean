import OracleDuty.Generation.Service
import OracleDuty.Proofs.RewardsTree
import OracleDuty.Proofs.Script
/-!
The service that generates trees: a reply that it sends as a document is read as that reply, and no reply for
another interval is taken.

Main statements: `Service.ends_generate` and `Service.index_of_ends`.
-/
namespace OracleDuty

/-- A message that can be sent is answered with what is received. -/
theorem Wire.ends_attempt_send {ε : Type} {m : Http.Request} (hsend : m.isSendable = true)
    (cause : Http.Failure → ε) (response : Http.Response) :
    (Wire.attempt cause (Wire.send m)).run.Ends [⟨.http m, .ok response⟩] (.ok response) := by
  rw [Wire.attempt, run_adapt]
  refine Program.ends_bind.mpr ⟨.ok response, _, [], (List.append_nil _).symm, ?_, .refl _⟩
  change Program.Ends (Wire.send m) _ _
  rw [Wire.send, if_pos hsend]
  exact .ask (.refl _)

end OracleDuty

namespace OracleDuty.Generation

def Reply.toJson (r : Reply) : Json := .object [
  ("rewardsFile", r.tree.toJson), ("minipoolPerformanceFile", r.performance)]

structure Lasting (performance : Json) : Prop where
  plain : performance.Plain
  sound : performance.sound (Json.maxDepth - 1) = true
  canonical : performance.canonical = performance

/-- A reply reads back, with its performance file as it was. -/
theorem Reply.ofJson?_toJson {r : Reply} (h : Lasting r.performance) : ofJson? r.toJson = some r := by
  have hrecord : Json.record? ["rewardsFile", "minipoolPerformanceFile"] r.toJson =
      some [some r.tree.toJson, some r.performance] := Json.record?_object rfl (by decide)
  have htree : RewardsTree.ofJson? (Json.maxDepth - 1) r.tree.toJson = some r.tree :=
    RewardsTree.ofJson?_toJson r.tree 123
  rw [ofJson?, hrecord, Option.bind_eq_bind, Option.bind_some]
  refine Option.bind_eq_some_iff.mpr ⟨(), if_pos h.sound, ?_⟩
  refine Option.bind_eq_some_iff.mpr ⟨_, htree, ?_⟩
  rw [h.canonical]
  rfl

theorem Reply.json?_render {r : Reply} (h : Lasting r.performance) (status : Http.Status) :
    (Http.Response.json? ⟨status, Bytes.ofString r.toJson.render⟩).bind ofJson? = some r := by
  have hplain : r.toJson.Plain := ⟨r.tree.plain_toJson, h.plain, trivial⟩
  rw [Http.Response.json?, Bytes.text?_ofString, Option.bind_some, Json.read?_render hplain,
    Option.bind_some, ofJson?_toJson h]

def anyScript : Script Wire.Request Wire.Answer Unit where
  asks _ _ := True
  next _ _ _ := ()

theorem any_follows {α : Type} (p : Wire.Course α) : p.Follows anyScript () fun _ _ => True := by
  induction p with
  | done a => trivial
  | note line p ih => exact ih
  | ask q next ih => exact ⟨trivial, ih⟩

variable {service : Service} {r : Request} {reply : Reply}

/-- A service gives no tree of another interval than the one it was asked for. -/
theorem Service.index_of_ends {t : List (Exchange Wire.Request Wire.Answer)}
    (h : (service.generate r).run.Ends t (.ok reply)) : reply.tree.header.index = r.index := by
  have hguides : anyScript.Guides () (service.generate r) (fun _ => True) fun _ reply =>
      reply.tree.header.index = r.index := by
    -- whatever was answered before, the reply is compared with the request at the end
    unfold Service.generate
    split
    · rw [guides_bind]
      refine Program.Follows.mono (any_follows _) ?_
      rintro ⟨⟩ (e | _) _
      · trivial
      dsimp only
      rw [guides_bind]
      refine Program.Follows.mono (any_follows _) ?_
      rintro ⟨⟩ (e | response) _
      · trivial
      dsimp only
      split
      · trivial
      · split
        · next reply _ =>
          rw [Reply.forInterval]
          split
          · next hi => exact hi
          · trivial
        · trivial
    · trivial
  exact Program.Follows.path hguides h

def Service.message (url : Url) (r : Request) : Http.Request :=
  ⟨.post, url, [("content-type", "application/json")], Bytes.ofString r.encode⟩

/-- Whatever it replies, for the right interval, as a document is taken as its reply. -/
theorem Service.ends_generate {url : Url} (hurl : service.base.join ["v1", "rewards-trees"] = some url)
    (hhttp : url.isHttp = true) (h : Lasting reply.performance)
    (hindex : reply.tree.header.index = r.index) :
    (service.generate r).run.Ends
      [⟨.http (message url r), .ok ⟨200, Bytes.ofString reply.toJson.render⟩⟩] (.ok reply) := by
  have hsend : (message url r).isSendable = true := by
    have hheader : (true && (Http.isHeaderText "application/json" && true)) = true := by decide
    rw [Http.Request.isSendable, message, hhttp]
    exact hheader
  unfold generate
  rw [hurl]
  dsimp only
  refine ends_run_bind.mpr ⟨(), [], _, rfl, .note (.refl _), ?_⟩
  refine ends_run_bind.mpr ⟨⟨200, Bytes.ofString reply.toJson.render⟩, _, [],
    (List.append_nil _).symm, Wire.ends_attempt_send hsend _ _, ?_⟩
  -- the reply is read, and is for the interval
  dsimp only
  rw [if_neg (by decide), Reply.json?_render h]
  dsimp only
  rw [Reply.forInterval, if_pos hindex]
  exact .refl _

end OracleDuty.Generation
