import OracleDuty.Duty.Action
import OracleDuty.Proofs.Conclusion
import OracleDuty.Proofs.Script
/-!
Scripts and ends of the actions that duties are put together from.
-/
namespace OracleDuty.Duty

variable {S α ε : Type} {k : Script Request Answer S} {m : S} {bad : S → Prop}

@[simp] theorem guides_log {source : Log.Source} {level : Log.Level} {message : String}
    {fields : List (String × Log.Value)} {post : S → Unit → Prop} :
    k.Guides m (Action.log source level message fields) bad post ↔ post m () := Iff.rfl

@[simp] theorem guides_fail {cause : Cause} {post : S → α → Prop} :
    k.Guides m (Action.fail cause) bad post ↔ bad m := Iff.rfl

@[simp] theorem guides_noting {note : String} {x : Action α} {post : S → α → Prop} :
    k.Guides m (x.noting note) bad post ↔ k.Guides m x bad post := guides_adapt

@[simp] theorem guides_withCause {cause : ε → Cause} {course : Course (Except ε α)}
    {post : S → α → Prop} :
    k.Guides m (Action.withCause cause course) bad post ↔ k.Guides m (ExceptT.mk course) bad post :=
  guides_adapt

theorem guides_ofExcept {cause : ε → Cause} {r : Except ε α} {post : S → α → Prop}
    (hok : ∀ a, r = .ok a → post m a) (hbad : bad m) :
    k.Guides m (Action.ofExcept cause r) bad post := by
  cases r with
  | ok a => exact hok a rfl
  | error e => exact hbad

/-! ### Submissions -/

def Request.submission? : Request → Option (Call × TxOptions)
  | .submit call options => some (call, options)
  | _ => none

/-- The calls that were submitted, in their order. -/
def submissions (t : List (Exchange Request Answer)) : List (Call × TxOptions) :=
  t.filterMap fun e => e.request.submission?

theorem submissions_cons_of_none {e : Exchange Request Answer} {t : List (Exchange Request Answer)}
    (h : e.request.submission? = none) : submissions (e :: t) = submissions t :=
  List.filterMap_cons_none h

@[simp] theorem submissions_submit (call : Call) (options : TxOptions) (a : Except Report Digest)
    (t : List (Exchange Request Answer)) :
    submissions (⟨.submit call options, a⟩ :: t) = (call, options) :: submissions t := rfl

theorem submissions_append (t u : List (Exchange Request Answer)) :
    submissions (t ++ u) = submissions t ++ submissions u :=
  List.filterMap_append

def unpaid : Script Request Answer Unit where
  asks _ q := ∀ call options, q ≠ .submit call options
  next _ _ _ := ()

theorem not_asks_of_unpaid {x : Action α} {post : Unit → α → Prop}
    (h : unpaid.Guides () x (fun _ => True) post) {t : List (Exchange Request Answer)} (call : Call)
    (options : TxOptions) : ¬x.run.Asks t (.submit call options) :=
  fun hasks => Program.Follows.asks h hasks call options rfl

/-! ### Ends -/

variable {β : Type} {t : List (Exchange Request Answer)}

/-- A request ends with its answer, and with nothing else. -/
theorem ends_request {q : Request} {a : Answer q} :
    (Program.request q : Course (Answer q)).Ends t a ↔ t = [⟨q, a⟩] := by
  rw [Program.request, Program.ends_ask]
  constructor
  · rintro ⟨b, u, rfl, h⟩
    obtain ⟨rfl, rfl⟩ := Program.ends_done.mp h
    rfl
  · rintro rfl
    exact ⟨a, [], rfl, .refl _⟩

/-- A note is taken of failures only. -/
theorem ends_noting {note : String} {x : Action α} {a : α} :
    (x.noting note).run.Ends t (.ok a) ↔ x.run.Ends t (.ok a) := by
  rw [Action.noting, run_adapt, Program.ends_bind]
  constructor
  · rintro ⟨e | b, u, v, rfl, hu, hv⟩
    · cases (Program.ends_done.mp hv).2
    · obtain ⟨rfl, hb⟩ := Program.ends_done.mp hv
      cases hb
      rwa [List.append_nil]
  · intro h
    exact ⟨.ok a, t, [], (List.append_nil t).symm, h, .refl _⟩

theorem ends_log_bind {source : Log.Source} {level : Log.Level} {message : String}
    {fields : List (String × Log.Value)} {f : Unit → Action β} {r : Except Report β} :
    (Action.log source level message fields >>= f).run.Ends t r ↔ (f ()).run.Ends t r :=
  Program.ends_note

/-! ### Conclusions -/

variable {lines : List Line}

theorem concludes_request {q : Request} {a : Answer q} :
    (Program.request q : Course (Answer q)).Concludes t lines a ↔ t = [⟨q, a⟩] ∧ lines = [] := by
  rw [Program.request, Program.concludes_ask]
  constructor
  · rintro ⟨b, u, rfl, h⟩
    obtain ⟨rfl, rfl, rfl⟩ := Program.concludes_done.mp h
    exact ⟨rfl, rfl⟩
  · rintro ⟨rfl, rfl⟩
    exact ⟨a, [], rfl, .done a⟩

/-- A note goes around the report, and changes neither the exchanges nor the lines. -/
theorem concludes_noting {note : String} {x : Action α} {r : Except Report α} :
    (x.noting note).run.Concludes t lines r ↔
      ∃ r', x.run.Concludes t lines r' ∧ r = r'.mapError (Report.noting note) := by
  rw [Action.noting, run_adapt, Program.concludes_bind]
  constructor
  · rintro ⟨r', u, v, k, m, rfl, rfl, hx, hdone⟩
    obtain ⟨rfl, rfl, rfl⟩ := Program.concludes_done.mp hdone
    rw [List.append_nil, List.append_nil]
    exact ⟨r', hx, rfl⟩
  · rintro ⟨r', hx, rfl⟩
    exact ⟨r', t, [], lines, [], (List.append_nil t).symm, (List.append_nil lines).symm, hx, .done _⟩

theorem concludes_log_bind {source : Log.Source} {level : Log.Level} {message : String}
    {fields : List (String × Log.Value)} {f : Unit → Action β} {r : Except Report β} :
    (Action.log source level message fields >>= f).run.Concludes t lines r ↔ ∃ rest,
      lines = ⟨[], .event (Log.event source level message fields)⟩ :: rest ∧
      (f ()).run.Concludes t rest r :=
  Program.concludes_note

theorem concludes_log {source : Log.Source} {level : Log.Level} {message : String}
    {fields : List (String × Log.Value)} {r : Except Report Unit} :
    (Action.log source level message fields).run.Concludes t lines r ↔
      t = [] ∧ lines = [⟨[], .event (Log.event source level message fields)⟩] ∧ r = .ok () := by
  refine Program.concludes_note.trans ?_
  constructor
  · rintro ⟨rest, rfl, h⟩
    obtain ⟨rfl, rfl, rfl⟩ := Program.concludes_done.mp h
    exact ⟨rfl, rfl, rfl⟩
  · rintro ⟨rfl, rfl, rfl⟩
    exact ⟨[], rfl, .done _⟩

theorem concludes_count_bind {counter : Counter} {task : String} {f : Unit → Action β}
    {r : Except Report β} :
    (Action.count counter task >>= f).run.Concludes t lines r ↔ ∃ rest,
      lines = ⟨[], .count counter task⟩ :: rest ∧ (f ()).run.Concludes t rest r :=
  Program.concludes_note

end OracleDuty.Duty
