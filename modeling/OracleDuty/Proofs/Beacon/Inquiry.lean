import OracleDuty.Beacon.Node
import OracleDuty.Proofs.Script
import OracleDuty.Proofs.Url
/-!
The requests to a beacon node: each goes to a locator of its own, and gives a value, or fails, by its own
answer.

Main statements: `Node.inquiry_injective` and `Node.require_eq`.
-/
namespace OracleDuty.Beacon

inductive Topic where
  | genesis
  | spec
  | header
  | finality
deriving DecidableEq

def Topic.path : Topic → String
  | genesis => "eth/v1/beacon/genesis"
  | spec => "eth/v1/config/spec"
  | header => "eth/v1/beacon/headers/head"
  | finality => "eth/v1/beacon/states/head/finality_checkpoints"

def Topic.word : Topic → String
  | genesis => "genesis"
  | spec => "spec"
  | header => "head"
  | finality => "finality_checkpoints"

/-- What is read from an answer to a request that was sent; nothing unless the answer is a document of the
right form with a status of success. -/
def yields {α : Type} (read : Json → Option α) : Except Http.Failure Http.Response → Option α
  | .ok r => if r.status = 404 then none else if !r.status.isSuccess then none else r.json?.bind read
  | .error _ => none

def verdict {α : Type} (operation path : String) (read : Json → Option α) :
    Except Http.Failure Http.Response → Except Error α
  | .ok r =>
    if r.status = 404 then .error (.refused operation 404 (path ++ " not found"))
    else if !r.status.isSuccess then .error (.refused operation r.status r.text)
    else match r.json?.bind read with
      | some a => .ok a
      | none => .error (.unreadable operation "unexpected document")
  | .error f => .error (.network operation f.message)

def finding {α : Type} (operation : String) (read : Json → Option α) :
    Except Http.Failure Http.Response → Except Error (Option α)
  | .ok r =>
    if r.status = 404 then .ok none
    else if !r.status.isSuccess then .error (.refused operation r.status r.text)
    else match r.json?.bind read with
      | some a => .ok (some a)
      | none => .error (.unreadable operation "unexpected document")
  | .error f => .error (.network operation f.message)

/-- What has to be there is found as what may be there, except that nothing is an error. -/
theorem verdict_eq {α : Type} (operation path : String) (read : Json → Option α)
    (a : Except Http.Failure Http.Response) : verdict operation path read a =
      match finding operation read a with
      | .ok (some v) => .ok v
      | .ok none => .error (.refused operation 404 (path ++ " not found"))
      | .error e => .error e := by
  cases a with
  | error f => rfl
  | ok r =>
    simp only [verdict, finding]
    split
    · rfl
    split
    · rfl
    cases r.json?.bind read <;> rfl

/-- Success does not depend on how errors are told. -/
theorem toOption_verdict {α : Type} (operation path : String) (read : Json → Option α)
    (a : Except Http.Failure Http.Response) : (verdict operation path read a).toOption = yields read a := by
  cases a with
  | error f => rfl
  | ok r =>
    simp only [verdict, yields]
    split
    · rfl
    split
    · rfl
    cases r.json?.bind read <;> rfl

theorem verdict_eq_ok {α : Type} {operation path : String} {read : Json → Option α}
    {a : Except Http.Failure Http.Response} {v : α} (h : yields read a = some v) :
    verdict operation path read a = .ok v := by
  have hoption := toOption_verdict operation path read a
  rw [h] at hoption
  cases hr : verdict operation path read a with
  | error e =>
    rw [hr] at hoption
    cases hoption
  | ok v' =>
    rw [hr] at hoption
    cases hoption
    rfl

theorem verdict_eq_error {α : Type} (operation path : String) {read : Json → Option α}
    {a : Except Http.Failure Http.Response} (h : yields read a = none) :
    ∃ e, verdict operation path read a = .error e := by
  have hoption := toOption_verdict operation path read a
  rw [h] at hoption
  cases hr : verdict operation path read a with
  | error e => exact ⟨e, rfl⟩
  | ok v =>
    rw [hr] at hoption
    cases hoption

def Node.getting? (n : Node) (path : String) : Option Http.Request :=
  ((n.locator? path).map fun url => ⟨.get, url, [], []⟩).filter (·.isSendable)

def Node.inquiry? (n : Node) (topic : Topic) : Option Http.Request :=
  ((n.locator? topic.path).map fun url => ⟨.get, url, [], []⟩).filter (·.isSendable)

/-- The paths of both topics are relative ones of several words, which is all that appending them needs. -/
theorem Topic.isPath (topic : Topic) : Url.IsPath topic.path.toList topic.word.toList := by
  have hclear : topic.path.toList.all Url.isClear = true := by cases topic <;> rfl
  have hplain : topic.word.toList.all Url.isPlain = true := by cases topic <;> rfl
  refine ⟨?_, List.all_eq_true.mp hclear, List.all_eq_true.mp hplain⟩
  cases topic with
  | genesis => exact ⟨'e', "th/v1/beacon".toList, rfl, rfl⟩
  | spec => exact ⟨'e', "th/v1/config".toList, rfl, rfl⟩
  | header => exact ⟨'e', "th/v1/beacon/headers".toList, rfl, rfl⟩
  | finality => exact ⟨'e', "th/v1/beacon/states/head".toList, rfl, rfl⟩

/-- No word is the end of another one. -/
theorem Topic.eq_of_suffix {topic topic' : Topic} (h : topic.word.toList <:+ topic'.word.toList) :
    topic = topic' := by
  revert h
  cases topic <;> cases topic' <;> decide

namespace Node

variable {n : Node} {topic topic' : Topic} {q : Http.Request} {α : Type}

/-- A request can be sent where its locator can be made and is one that requests can be sent to. -/
theorem getting_eq_some {path : String} : n.getting? path = some q ↔
    ∃ url, n.locator? path = some url ∧ q = ⟨.get, url, [], []⟩ ∧ q.isSendable = true := by
  unfold getting?
  rw [Option.filter_eq_some_iff, Option.map_eq_some_iff]
  constructor
  · rintro ⟨⟨url, hurl, rfl⟩, hsend⟩
    exact ⟨url, hurl, rfl, hsend⟩
  · rintro ⟨url, hurl, rfl, hsend⟩
    exact ⟨⟨url, hurl, rfl⟩, hsend⟩

theorem inquiry_eq_some : n.inquiry? topic = some q ↔
    ∃ url, n.locator? topic.path = some url ∧ q = ⟨.get, url, [], []⟩ ∧ q.isSendable = true :=
  getting_eq_some

/-- Wherever a node is, its four locators are different. -/
theorem inquiry_injective (h : n.inquiry? topic = some q) (h' : n.inquiry? topic' = some q) :
    topic = topic' := by
  have hends : ∀ {topic : Topic}, n.inquiry? topic = some q → topic.word.toList <:+ q.url.text.toList := by
    intro topic h
    obtain ⟨url, hurl, rfl, _⟩ := inquiry_eq_some.mp h
    apply topic.isPath.endsWith _ hurl
    rw [String.toList_append]
    exact List.suffix_append _ _
  rcases List.suffix_or_suffix_of_suffix (hends h) (hends h') with hs | hs
  · exact Topic.eq_of_suffix hs
  · exact (Topic.eq_of_suffix hs).symm

/-- Where no request can be sent nothing is asked. -/
theorem query_of_none {path : String} (h : n.getting? path = none) (operation : String)
    (read : Json → Option α) : ∃ e, (n.query operation path read).run = .done (.error e) ∨
      ∃ line, (n.query operation path read).run = .note line (.done (.error e)) := by
  cases hurl : n.locator? path with
  | none =>
    simp only [query, hurl]
    exact ⟨_, .inl rfl⟩
  | some url =>
    have hsend : (⟨.get, url, [], []⟩ : Http.Request).isSendable = false := by
      by_contra hs
      rw [getting_eq_some.mpr ⟨url, hurl, rfl, Bool.not_eq_false _ ▸ hs⟩] at h
      cases h
    simp only [query, hurl, Wire.send, hsend]
    exact ⟨_, .inr ⟨_, rfl⟩⟩

/-- A request that can be sent is asked once, and its answer decides. -/
theorem query_of_some {path : String} (h : n.getting? path = some q) (operation : String)
    (read : Json → Option α) : ∃ line, (n.query operation path read).run =
      .note line (.ask (.http q) fun a => .done (finding operation read a)) := by
  obtain ⟨url, hurl, rfl, hsend⟩ := getting_eq_some.mp h
  simp only [query, hurl, Wire.send, hsend, if_true]
  refine ⟨_, congrArg (Program.note _) (congrArg (Program.ask _) (funext fun a => ?_))⟩
  cases a with
  | error f => rfl
  | ok r =>
    simp only [Program.bind, Function.comp, Except.mapError, ExceptT.bindCont, finding]
    split
    · rfl
    split
    · rfl
    cases r.json?.bind read <;> rfl

/-- A locator that cannot be made, or a request that cannot be sent, fails before the network is reached. -/
theorem require_of_none (h : n.inquiry? topic = none) (operation : String) (read : Json → Option α) :
    ∃ e, (n.require operation topic.path read).run = .done (.error e) ∨
      ∃ line, (n.require operation topic.path read).run = .note line (.done (.error e)) := by
  have hget : n.getting? topic.path = none := h
  obtain ⟨e, hrun⟩ := query_of_none hget operation read
  unfold require
  rw [run_bind]
  rcases hrun with hrun | ⟨line, hrun⟩
  · rw [hrun]
    exact ⟨e, .inl rfl⟩
  · rw [hrun]
    exact ⟨e, .inr ⟨line, rfl⟩⟩

/-- A request that can be sent is sent once, and its answer decides. -/
theorem require_of_some (h : n.inquiry? topic = some q) (operation : String) (read : Json → Option α) :
    ∃ line, (n.require operation topic.path read).run =
      .note line (.ask (.http q) fun a => .done (verdict operation topic.path read a)) := by
  have hget : n.getting? topic.path = some q := h
  obtain ⟨line, hrun⟩ := query_of_some hget operation read
  unfold require
  rw [run_bind, hrun]
  refine ⟨line, congrArg (Program.note _) (congrArg (Program.ask _) (funext fun a => ?_))⟩
  rw [Program.bind, verdict_eq]
  cases finding operation read a with
  | error e => rfl
  | ok o => cases o <;> rfl

/-- A script that has the request, and what both kinds of answers lead to. -/
theorem require_guides {S : Type} {k : Script Wire.Request Wire.Answer S} {m : S} {bad : S → Prop}
    {post : S → α → Prop} {operation path : String} {read : Json → Option α} (topic : Topic)
    (hpath : topic.path = path)
    (hasks : ∀ q, n.inquiry? topic = some q → k.asks m (.http q))
    (hnone : n.inquiry? topic = none → bad m)
    (hfails : ∀ q a, n.inquiry? topic = some q → yields read a = none → bad (k.next m (.http q) a))
    (hyields : ∀ q a v, n.inquiry? topic = some q → yields read a = some v →
      post (k.next m (.http q) a) v) :
    k.Guides m (n.require operation path read) bad post := by
  subst hpath
  -- the action is only looked at through its two forms
  generalize hx : n.require operation topic.path read = x
  unfold Script.Guides
  cases hq : n.inquiry? topic with
  | none =>
    have hrun := require_of_none hq operation read
    rw [hx] at hrun
    obtain ⟨e, hrun | ⟨line, hrun⟩⟩ := hrun
    · rw [hrun]
      exact hnone hq
    · rw [hrun]
      exact hnone hq
  | some q =>
    obtain ⟨line, hrun⟩ := require_of_some hq operation read
    rw [← hx, hrun]
    refine ⟨hasks q hq, fun a => Program.follows_done.mpr ?_⟩
    cases hy : yields read a with
    | none =>
      obtain ⟨e, hverdict⟩ := verdict_eq_error operation topic.path hy
      rw [hverdict]
      exact hfails q a hq hy
    | some v =>
      rw [verdict_eq_ok hy]
      exact hyields q a v hq hy

theorem require_ends (h : n.inquiry? topic = some q) (operation : String) {read : Json → Option α}
    {a : Except Http.Failure Http.Response} {v : α} (hv : yields read a = some v) :
    (n.require operation topic.path read).run.Ends [⟨.http q, a⟩] (.ok v) := by
  obtain ⟨line, hrun⟩ := require_of_some h operation read
  rw [hrun, ← verdict_eq_ok hv]
  exact .note (.ask (.refl _))

end Node

end OracleDuty.Beacon
