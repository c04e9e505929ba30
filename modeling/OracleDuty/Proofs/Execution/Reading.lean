import OracleDuty.Execution.Node
import OracleDuty.Proofs.ReadingCall
import OracleDuty.Proofs.SideBySide
/-!
The calls of contracts that an action makes at a block, and whether they succeed: an action that only reads
fails exactly by its calls.

Main statements: the rules of `Reads` for single calls, for sequences and for actions side by side.
-/
namespace OracleDuty.Execution

open Contract (Read)

variable {α β : Type}

def told (read : Json → Option α) : Except String Json → Option α
  | .ok j => read j
  | .error _ => none

def answered (result : Bytes → Option α) : Except String Json → Option α :=
  told fun j => (Rpc.bytes? j).bind result

def answeredAddress? : Except String Json → Option Address := answered Contract.resultAddress?

def answeredFlag? : Except String Json → Option Bool := answered Contract.resultFlag?

def answeredNumber? (answer : Except String Json) : Option UInt64 :=
  (answered Contract.resultWord? answer).bind fun w => (w.toUInt64? "").toOption

/-- A call of a contract with the answer it got. -/
structure Asked where
  target : Address
  what : Read
  answer : Except String Json

def Asked.exchange (n : Node) (block : UInt64) (x : Asked) : Exchange Wire.Request Wire.Answer :=
  ⟨.rpc n.endpoint (.read x.target x.what.calldata (.number block)), x.answer⟩

/-- An exchange shows the call that was made. -/
theorem Asked.exchange_injective {n : Node} {b b' : UInt64} {x x' : Asked}
    (h : x.exchange n b = x'.exchange n b') : x = x' := by
  obtain ⟨target, what, answer⟩ := x
  obtain ⟨target', what', answer'⟩ := x'
  have hrequest := congrArg Exchange.request h
  simp only [exchange, Wire.Request.rpc.injEq, Rpc.Call.read.injEq, Rpc.BlockId.number.injEq,
    true_and] at hrequest
  obtain ⟨rfl, hdata, rfl⟩ := hrequest
  obtain rfl := Contract.Read.calldata_injective hdata
  cases h
  rfl

/-- Exchanges tell the calls, whichever block each of the two lists was read at. -/
theorem map_exchange_injective {n : Node} {b b' : UInt64} {calls calls' : List Asked}
    (h : calls.map (Asked.exchange n b) = calls'.map (Asked.exchange n b')) : calls = calls' := by
  induction calls generalizing calls' with
  | nil => exact (List.map_eq_nil_iff.mp h.symm).symm
  | cons x calls ih =>
    cases calls' with
    | nil => cases h
    | cons x' calls' =>
      obtain ⟨hx, hrest⟩ := List.cons.inj h
      rw [Asked.exchange_injective hx, ih hrest]

/-- A call succeeds if it is answered with what it asks for: a lookup with an address that is not zero, a number
with one of 64 bits. -/
def Asked.Succeeds (x : Asked) : Prop :=
  match x.what with
  | .getAddress _ => ∃ a, answeredAddress? x.answer = some a ∧ a ≠ 0
  | .getMemberAt _ => (answeredAddress? x.answer).isSome = true
  | .getBool _ | .getSubmitPricesEnabled | .rateStale => (answeredFlag? x.answer).isSome = true
  | .observe _ => (answered Contract.resultCumulatives? x.answer).isSome = true
  | _ => (answeredNumber? x.answer).isSome = true

/-- After the calls `prior`, the action makes calls at the block only. If it fails then one of all these calls has
failed, and if it is done then `good` holds of them and of the result. -/
def Reads (n : Node) (block : UInt64) (prior : List Asked) (x : Behaviour Wire.Request Wire.Answer α)
    (good : List Asked → α → Prop) : Prop :=
  ∀ t o, x t o → ∃ calls : List Asked, t = calls.map (Asked.exchange n block) ∧
    match o with
    | .underWay => True
    | .failed => ∃ y ∈ prior ++ calls, ¬y.Succeeds
    | .done a => good (prior ++ calls) a

variable {n : Node} {block : UInt64} {prior : List Asked} {x : Behaviour Wire.Request Wire.Answer α}
  {good : List Asked → α → Prop}

/-! ### Single calls -/

def verdict (cause : String → Error) (read : Json → Option α) : Except String Json → Except Error α
  | .ok j => ((read j).map Except.ok).getD (.error (cause "unexpected result"))
  | .error e => .error (cause e)

/-- A request is asked once, and its answer decides. -/
theorem Node.ask_eq (n : Node) (cause : String → Error) (read : Json → Option α) (call : Rpc.Call) :
    (n.ask cause read call).run = .ask (.rpc n.endpoint call) fun a => .done (verdict cause read a) := by
  refine congrArg (Program.ask _) (funext fun a => ?_)
  cases a with
  | error e => rfl
  | ok j =>
    change ExceptT.bindCont _ (Except.ok j) = _
    simp only [ExceptT.bindCont, verdict]
    cases read j <;> rfl

theorem verdict_eq_ok {cause : String → Error} {read : Json → Option α} {answer : Except String Json}
    {a : α} : verdict cause read answer = .ok a ↔ told read answer = some a := by
  cases answer with
  | error e => simp [verdict, told]
  | ok j => cases hr : read j <;> simp [verdict, told, hr]

/-- What may come of a request: it is made, and then it has failed or is done as it was answered. -/
theorem ask_cases {cause : String → Error} {read : Json → Option α} {call : Rpc.Call}
    {t : List (Exchange Wire.Request Wire.Answer)} {o : Attempt α}
    (h : behaviour (n.ask cause read call) t o) : (t = [] ∧ o = .underWay) ∨
      ∃ answer : Except String Json, t = [⟨.rpc n.endpoint call, answer⟩] ∧
        (o = .underWay ∨ (o = .failed ∧ ∀ a, verdict cause read answer ≠ .ok a) ∨
          ∃ a, o = .done a ∧ verdict cause read answer = .ok a) := by
  cases o with
  | underWay =>
    obtain ⟨r, h⟩ := h
    rw [n.ask_eq] at h
    cases h with
    | refl => exact .inl ⟨rfl, rfl⟩
    | ask h =>
      cases h
      exact .inr ⟨_, rfl, .inl rfl⟩
  | failed =>
    obtain ⟨e, h⟩ := h
    rw [n.ask_eq] at h
    obtain ⟨answer, u, rfl, hend⟩ := Program.ends_ask.mp h
    obtain ⟨rfl, hv⟩ := Program.ends_done.mp hend
    refine .inr ⟨answer, rfl, .inr (.inl ⟨rfl, fun a ha => ?_⟩)⟩
    rw [hv] at ha
    cases ha
  | done a =>
    change (n.ask cause read call).run.Ends t (.ok a) at h
    rw [n.ask_eq] at h
    obtain ⟨answer, u, rfl, hend⟩ := Program.ends_ask.mp h
    obtain ⟨rfl, hv⟩ := Program.ends_done.mp hend
    exact .inr ⟨answer, rfl, .inr (.inr ⟨a, rfl, hv⟩)⟩

/-- A call that fails the action is one that has not succeeded. -/
theorem reads_call {target : Address} {what : Read} {result : Bytes → Option α}
    (hbad : ∀ answer, answered result answer = none → ¬(⟨target, what, answer⟩ : Asked).Succeeds) :
    Reads n block prior (behaviour (n.read (.number block) target what result)) fun calls a =>
      ∃ answer, answered result answer = some a ∧ calls = prior ++ [⟨target, what, answer⟩] := by
  intro t o h
  rcases ask_cases h with ⟨rfl, rfl⟩ | ⟨answer, rfl, rfl | ⟨rfl, hv⟩ | ⟨a, rfl, hv⟩⟩
  · exact ⟨[], rfl, trivial⟩
  · exact ⟨[⟨target, what, answer⟩], rfl, trivial⟩
  · have hnone : answered result answer = none := by
      rw [Option.eq_none_iff_forall_ne_some]
      intro a ha
      exact hv a (verdict_eq_ok.mpr ha)
    exact ⟨[⟨target, what, answer⟩], rfl, _, List.mem_append_right _ List.mem_cons_self, hbad answer hnone⟩
  · exact ⟨[⟨target, what, answer⟩], rfl, answer, verdict_eq_ok.mp hv, rfl⟩

/-! ### Rules -/

theorem Reads.mono {good' : List Asked → α → Prop} (hx : Reads n block prior x good)
    (h : ∀ calls a, good calls a → good' calls a) : Reads n block prior x good' := by
  intro t o ht
  obtain ⟨calls, rfl, hcalls⟩ := hx t o ht
  refine ⟨calls, rfl, ?_⟩
  cases o with
  | done a => exact h _ _ hcalls
  | _ => exact hcalls

theorem Reads.of_le {x' : Behaviour Wire.Request Wire.Answer α} (hx : Reads n block prior x good)
    (h : ∀ t o, x' t o → x t o) : Reads n block prior x' good := fun t o ht => hx t o (h t o ht)

theorem reads_pure {a : α} (h : good prior a) : Reads n block prior (.Pure a) good := by
  intro t o hp
  cases hp with
  | underWay => exact ⟨[], rfl, trivial⟩
  | done =>
    refine ⟨[], rfl, ?_⟩
    rw [List.append_nil]
    exact h

/-- Of two actions in sequence, the second one may fail by a call of the first. -/
theorem Reads.then {f : α → Behaviour Wire.Request Wire.Answer β} {good' : List Asked → β → Prop}
    (hx : Reads n block prior x good) (hf : ∀ calls a, good calls a → Reads n block calls (f a) good') :
    Reads n block prior (x.Then f) good' := by
  intro t o h
  cases h with
  | underWay h =>
    obtain ⟨calls, rfl, _⟩ := hx _ _ h
    exact ⟨calls, rfl, trivial⟩
  | failed h => exact hx _ _ h
  | second h h' =>
    obtain ⟨calls, rfl, hgood⟩ := hx _ _ h
    obtain ⟨calls', rfl, hrest⟩ := hf _ _ hgood _ _ h'
    refine ⟨calls ++ calls', List.map_append.symm, ?_⟩
    rw [← List.append_assoc]
    exact hrest

theorem Reads.bind {a : Wire.Action Error α} {f : α → Wire.Action Error β}
    {good' : List Asked → β → Prop} (ha : Reads n block prior (behaviour a) good)
    (hf : ∀ calls r, good calls r → Reads n block calls (behaviour (f r)) good') :
    Reads n block prior (behaviour (a >>= f)) good' :=
  (ha.then hf).of_le fun _ _ => behaviour_bind

/-- What needs no call is done, or fails because a call has failed before. -/
theorem reads_at_once {a : Wire.Action Error α} {r : Except Error α} (ha : a.run = .done r)
    (hr : match r with | .ok v => good prior v | .error _ => ∃ y ∈ prior, ¬y.Succeeds) :
    Reads n block prior (behaviour a) good := by
  have hnil : ∀ t p, a.run.Path t p → t = [] ∧ p = .done r := by
    intro t p h
    rw [ha] at h
    cases h
    exact ⟨rfl, rfl⟩
  intro t o h
  cases o with
  | underWay =>
    obtain ⟨p, h⟩ := h
    obtain ⟨rfl, _⟩ := hnil t p h
    exact ⟨[], rfl, trivial⟩
  | failed =>
    obtain ⟨e, h⟩ := h
    obtain ⟨rfl, hp⟩ := hnil t _ h
    cases hp
    refine ⟨[], rfl, ?_⟩
    rw [List.append_nil]
    exact hr
  | done v =>
    obtain ⟨rfl, hp⟩ := hnil t _ h
    cases hp
    refine ⟨[], rfl, ?_⟩
    rw [List.append_nil]
    exact hr

/-- An action may be begun after any calls. -/
theorem Reads.after (hx : Reads n block [] x good) (prior : List Asked) :
    Reads n block prior x fun calls a => ∃ own, calls = prior ++ own ∧ good own a := by
  intro t o h
  obtain ⟨calls, rfl, hcalls⟩ := hx _ _ h
  refine ⟨calls, rfl, ?_⟩
  cases o with
  | underWay => trivial
  | failed =>
    obtain ⟨z, hz, hfail⟩ := hcalls
    exact ⟨z, List.mem_append_right _ hz, hfail⟩
  | done a => exact ⟨calls, rfl, hcalls⟩

/-- Side by side, the calls of both are woven into each other. -/
theorem Reads.both {y : Behaviour Wire.Request Wire.Answer β} {good' : List Asked → β → Prop}
    (hx : Reads n block [] x good) (hy : Reads n block [] y good') :
    Reads n block [] (x.Both y) fun calls p => ∃ u v, Woven u v calls ∧ good u p.1 ∧ good' v p.2 := by
  intro t o h
  cases h with
  | underWay ht h h' =>
    obtain ⟨u, rfl, _⟩ := hx _ _ h
    obtain ⟨v, rfl, _⟩ := hy _ _ h'
    obtain ⟨calls, rfl, _⟩ := ht.exists_map
    exact ⟨calls, rfl, trivial⟩
  | failed_left ht h h' =>
    obtain ⟨u, rfl, z, hz, hfail⟩ := hx _ _ h
    obtain ⟨v, rfl, _⟩ := hy _ _ h'
    obtain ⟨calls, rfl, hwoven⟩ := ht.exists_map
    exact ⟨calls, rfl, z, (hwoven.mem_iff z).mpr (.inl hz), hfail⟩
  | failed_right ht h h' =>
    obtain ⟨u, rfl, _⟩ := hx _ _ h
    obtain ⟨v, rfl, z, hz, hfail⟩ := hy _ _ h'
    obtain ⟨calls, rfl, hwoven⟩ := ht.exists_map
    exact ⟨calls, rfl, z, (hwoven.mem_iff z).mpr (.inr hz), hfail⟩
  | done ht h h' =>
    obtain ⟨u, rfl, hu⟩ := hx _ _ h
    obtain ⟨v, rfl, hv⟩ := hy _ _ h'
    obtain ⟨calls, rfl, hwoven⟩ := ht.exists_map
    exact ⟨calls, rfl, u, v, hwoven, hu, hv⟩

inductive Abreast {δ : Type} (good : δ → List Asked → α → Prop) :
    List δ → List Asked → List α → Prop where
  | nil : Abreast good [] [] []
  | cons {d : δ} {ds : List δ} {a : α} {as : List α} {u v calls : List Asked} (hcalls : Woven u v calls)
    (ha : good d u a) (has : Abreast good ds v as) : Abreast good (d :: ds) calls (a :: as)

/-- Actions side by side fail by the calls of one of them. -/
theorem reads_all {δ : Type} {f : δ → Behaviour Wire.Request Wire.Answer α}
    {good : δ → List Asked → α → Prop} (h : ∀ d, Reads n block [] (f d) (good d)) (ds : List δ) :
    Reads n block [] (.all (ds.map f)) (Abreast good ds) := by
  induction ds with
  | nil => exact reads_pure .nil
  | cons d ds ih =>
    refine ((h d).both ih).then ?_
    rintro calls ⟨a, as⟩ ⟨u, v, hwoven, ha, has⟩
    exact reads_pure (.cons hwoven ha has)

end OracleDuty.Execution
