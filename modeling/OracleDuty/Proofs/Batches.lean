import OracleDuty.Proofs.Engine
/-!
Answers in batches: in a world that answers a batch of requests and holds what is asked after it, a program goes on
as far as its batch reaches.

Main statements: `World.lead_batches_start` for a foreground and `World.batches_work` for work that it starts.
-/
namespace OracleDuty

open Program

namespace World

variable {Q : Type} {A : Q → Type} {α : Type}

def batches [DecidableEq Q] : World (List (List (Exchange Q A))) Q A where
  write _ st := st
  accept _ st := (st.head?.any (!·.isEmpty), st)
  answer q
    | (e :: t) :: later | [] :: (e :: t) :: later =>
      if h : e.request = q then (.answer (h ▸ e.answer), t :: later) else (.panic none, t :: later)
    | st => (.panic none, st)

variable [DecidableEq Q] {t u : List (Exchange Q A)} {later : List (List (Exchange Q A))}

theorem batches_answer (e : Exchange Q A) :
    (batches : World _ Q A).answer e.request ((e :: t) :: later) = (.answer e.answer, t :: later) := by
  simp [batches]

/-- What is held is answered from the next batch. -/
theorem batches_release (e : Exchange Q A) :
    (batches : World _ Q A).answer e.request ([] :: (e :: t) :: later) = (.answer e.answer, t :: later) := by
  simp [batches]

/-- A program goes on as far as the batch reaches. -/
theorem advance_batches {p r : Program Q A α} (h : p.Path t r) :
    p.advance batches ((t ++ u) :: later) = r.advance batches (u :: later) := by
  induction h with
  | refl p => rfl
  | note _ ih => exact ih
  | @ask q next a r t _ ih =>
    have haccept : (batches : World _ Q A).accept q ((⟨q, a⟩ :: t ++ u) :: later) =
        (true, (⟨q, a⟩ :: t ++ u) :: later) := rfl
    have hanswer : (batches : World _ Q A).answer q ((⟨q, a⟩ :: (t ++ u)) :: later) =
        (.answer a, (t ++ u) :: later) := batches_answer ⟨q, a⟩
    rw [advance, haccept]
    dsimp only
    rw [List.cons_append, hanswer]
    exact ih

/-- A foreground goes on as far as the batch reaches, too. -/
theorem lead_batches {F r : Foreground Q A α} {lanes : Lanes} {executions : List (Execution Q A)}
    {started : Nat} (h : F.Path (t.map Process.asked) r) :
    F.advance (Engine.foreground batches) ⟨lanes, executions, started, (t ++ u) :: later⟩ =
      r.advance (Engine.foreground batches) ⟨lanes, executions, started, u :: later⟩ := by
  generalize ht : t.map Process.asked = commands at h
  induction h generalizing t with
  | refl F =>
    rw [List.map_eq_nil_iff.mp ht]
    rfl
  | note _ ih => exact ih ht
  | @ask c next a r commands h ih =>
    cases t with
    | nil => cases ht
    | cons e t =>
      obtain ⟨he, hcommands⟩ := List.cons.inj ht
      cases he
      have haccept : (Engine.foreground batches).accept (.ask e.request)
          ⟨lanes, executions, started, (e :: (t ++ u)) :: later⟩ =
            (true, ⟨lanes, executions, started, (e :: (t ++ u)) :: later⟩) := rfl
      have hanswer : (Engine.foreground batches).answer (.ask e.request)
          ⟨lanes, executions, started, (e :: (t ++ u)) :: later⟩ =
            (.answer e.answer, ⟨lanes, executions, started, (t ++ u) :: later⟩) := by
        simp only [Engine.foreground, batches_answer]
      rw [List.cons_append, advance, haccept]
      dsimp only
      rw [hanswer]
      exact ih hcommands

/-- A foreground that starts work at its end has it under way. -/
theorem lead_batches_start {F : Foreground Q A α} {a : α} {span : Log.SpanFields} {b : Background Q A}
    (h : F.Ends (t.map Process.asked ++ [⟨.start span b, true⟩]) a) :
    F.advance (Engine.foreground batches) (Engine.idle ((t ++ u) :: later)) =
      (.finished a, ((Engine.idle (u :: later)).start span b).2) := by
  obtain ⟨next, hstart, hend⟩ := h.first
  rw [Engine.idle, lead_batches hstart]
  have hstarted : (ask (A := Command.Answer) (Command.start span b) next).advance (Engine.foreground batches)
      (Engine.idle (u :: later)) =
        (next true).advance (Engine.foreground batches) ((Engine.idle (u :: later)).start span b).2 := rfl
  exact hstarted.trans (lead_batches (t := []) (u := u) hend)

/-- Work that is started when its answers come in two batches is held in between, and is over after both. -/
theorem batches_work {b : Background Q A} {e : Exchange Q A} {result : Except Report Unit}
    (h : b.work.run.Ends (t ++ e :: u) result) (span : Log.SpanFields) : ∃ x : Execution Q A, x.lane = b.lane ∧
      ((Engine.idle [t, e :: u]).start span b).2.proceedAll batches (fun _ => false) =
        ⟨⟨[b.lane]⟩, [x], 1, [[], e :: u]⟩ ∧
      (⟨⟨[b.lane]⟩, [x], 1, [[], e :: u]⟩ : Engine _ Q A).proceedAll batches (fun _ => true) =
        ⟨.empty, [], 1, [[]]⟩ := by
  obtain ⟨next, hfirst, hrest⟩ := (Path.within span h).first
  have hheld : (b.work.run.within span).advance batches [t, e :: u] = (.held e.request next, [[], e :: u]) := by
    rw [← List.append_nil t, advance_batches hfirst]
    rfl
  have hended : (next e.answer).advance batches [u] = (.finished result, [[]]) := by
    rw [← List.append_nil u, advance_batches hrest]
    rfl
  refine ⟨⟨0, b.lane, span, .held e.request next⟩, rfl, ?_, ?_⟩
  · change Engine.settle batches _ ((b.work.run.within span).advance batches [t, e :: u]) _ = _
    rw [hheld]
    rfl
  · change Engine.settle batches _ ((Stage.held e.request next).release batches [[], e :: u]) _ = _
    rw [Stage.release, batches_release]
    dsimp only
    rw [hended]
    have hfree : (⟨[b.lane]⟩ : Lanes).free b.lane = .empty := by simp [Lanes.free, Lanes.empty]
    cases result <;> simp only [Engine.settle, Engine.finish, hfree] <;> rfl

end World

end OracleDuty
