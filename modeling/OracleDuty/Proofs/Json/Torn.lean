import OracleDuty.Proofs.Json.RoundTrip
/-!
What a reader has read does not depend on what follows, numbers at the end of the text apart. So an object's
text, which is read up to its end, has no beginning that is a document.

Main statements: `reads_append` and `ofChars?_of_append_eq_chars`.
-/
namespace OracleDuty.Json

variable {cs rest : List Char} {c : Char}

/-! ### Tokens -/

theorem skipBlank_append (h : skipBlank cs = c :: rest) (more : List Char) :
    skipBlank (cs ++ more) = c :: (rest ++ more) := by
  rw [skipBlank] at h
  rw [skipBlank, List.dropWhile_append, h]
  rfl

/-- A closing quote ends a text, whatever follows. -/
theorem pieces?_append {ps : List Piece} (h : pieces? cs = some (ps, rest)) (more : List Char) :
    pieces? (cs ++ more) = some (ps, rest ++ more) := by
  fun_induction pieces? cs generalizing ps rest with
  | case1 => cases h
  | case2 after =>
    cases h
    rfl
  | case3 a b c d after ih =>
    obtain ⟨n, hn, h⟩ := Option.bind_eq_some_iff.mp h
    obtain ⟨⟨qs, tail⟩, hqs, h⟩ := Option.bind_eq_some_iff.mp h
    cases h
    simp only [List.cons_append]
    rw [pieces?.eq_3, hn, ih hqs]
    rfl
  | case4 e after hunit ih =>
    obtain ⟨c, hc, h⟩ := Option.bind_eq_some_iff.mp h
    obtain ⟨⟨qs, tail⟩, hqs, h⟩ := Option.bind_eq_some_iff.mp h
    cases h
    -- a unit that is cut short is no piece, since its letter alone is no escape
    have hne : e ≠ 'u' := by
      rintro rfl
      cases hc
    simp only [List.cons_append]
    rw [pieces?.eq_4 _ _ (fun _ _ _ _ _ hu => absurd hu hne), hc, ih hqs]
    rfl
  | case5 c after hquote hunit hescape hlow => cases h
  | case6 c after hquote hunit hescape hlow ih =>
    obtain ⟨⟨qs, tail⟩, hqs, h⟩ := Option.bind_eq_some_iff.mp h
    cases h
    -- a backslash would be the last character, and the text would not be closed
    have hne : c ≠ '\\' := by
      rintro rfl
      cases after with
      | nil => cases hqs
      | cons e after => exact hescape e after rfl rfl
    rw [List.cons_append, pieces?.eq_5 c _ hquote (fun _ _ _ _ _ hc => absurd hc hne)
      (fun _ _ hc => absurd hc hne), if_neg hlow, ih hqs]
    rfl

theorem text?_append {s : Option String} (h : text? cs = some (s, rest)) (more : List Char) :
    text? (cs ++ more) = some (s, rest ++ more) := by
  obtain ⟨⟨ps, tail⟩, hps, h⟩ := Option.map_eq_some_iff.mp h
  cases h
  rw [text?, pieces?_append hps]
  rfl

/-! ### Numbers -/

/-- Digits that end before the text does. -/
theorem digits_append (h : (digits cs).2 ≠ []) (more : List Char) :
    digits (cs ++ more) = ((digits cs).1, (digits cs).2 ++ more) := by
  induction cs with
  | nil => exact absurd rfl h
  | cons c cs ih =>
    unfold digits at h ih ⊢
    rw [List.cons_append]
    cases hc : c.isDigit with
    | false => simp [hc]
    | true =>
      simp only [List.takeWhile_cons_of_pos hc, List.dropWhile_cons_of_pos hc] at h ⊢
      obtain ⟨htake, hdrop⟩ := Prod.mk.inj (ih h)
      rw [htake, hdrop]

def run? (cs : List Char) : Option (List Char × List Char) :=
  if (digits cs).1.isEmpty then none else some (digits cs)

theorem run?_append {ds : List Char} (h : run? cs = some (ds, rest)) (hrest : rest ≠ [])
    (more : List Char) : run? (cs ++ more) = some (ds, rest ++ more) := by
  unfold run? at h ⊢
  split at h
  · cases h
  next hne =>
  have hdigits := Option.some.inj h
  rw [digits_append (by rwa [hdigits]) more, if_neg hne, hdigits]

/-- Digits end at the first other character. -/
theorem integral?_append {ds : List Char} (h : integral? cs = some (ds, rest)) (hrest : rest ≠ [])
    (more : List Char) : integral? (cs ++ more) = some (ds, rest ++ more) := by
  unfold integral? at h
  split at h
  · cases h
    rfl
  next hzero =>
  rw [integral?.eq_2]
  · exact run?_append h hrest more
  · intro tail htail
    cases cs with
    | nil => cases h
    | cons c cs =>
      obtain ⟨rfl, -⟩ := List.cons.inj htail
      exact hzero cs rfl

theorem fraction?_append {ds : List Char} (h : fraction? cs = some (ds, rest)) (hrest : rest ≠ [])
    (more : List Char) : fraction? (cs ++ more) = some (ds, rest ++ more) := by
  unfold fraction? at h
  split at h
  · exact run?_append h hrest more
  next hpoint =>
  cases h
  rw [fraction?.eq_2]
  intro tail htail
  cases cs with
  | nil => exact hrest rfl
  | cons c cs =>
    obtain ⟨rfl, -⟩ := List.cons.inj htail
    exact hpoint cs rfl

def signed? : List Char → Option ((Bool × List Char) × List Char)
  | '-' :: rest => (run? rest).map fun x => ((true, x.1), x.2)
  | '+' :: rest => (run? rest).map fun x => ((false, x.1), x.2)
  | rest => (run? rest).map fun x => ((false, x.1), x.2)

theorem exponent?_of_mark (h : c = 'e' ∨ c = 'E') (cs : List Char) :
    exponent? (c :: cs) = signed? cs := by
  have hrun : ∀ (negative : Bool) (cs : List Char), (if (digits cs).1.isEmpty then none
      else some ((negative, (digits cs).1), (digits cs).2)) =
        (run? cs).map fun x => ((negative, x.1), x.2) := by
    intro negative cs
    unfold run?
    split <;> rfl
  rcases h with rfl | rfl
  all_goals
    simp only [exponent?, hrun]
    split
    · rfl
    · rfl
    · next hminus hplus => rw [signed?.eq_3 _ hminus hplus]

theorem exponent?_of_ne (he : c ≠ 'e') (hE : c ≠ 'E') (cs : List Char) :
    exponent? (c :: cs) = some ((false, []), c :: cs) :=
  exponent?.eq_3 _ (fun _ h => he (List.cons.inj h).1) fun _ h => hE (List.cons.inj h).1

theorem signed?_append {x : Bool × List Char} (h : signed? cs = some (x, rest)) (hrest : rest ≠ [])
    (more : List Char) : signed? (cs ++ more) = some (x, rest ++ more) := by
  have hmap : ∀ (negative : Bool) (cs : List Char),
      ((run? cs).map fun x => ((negative, x.1), x.2)) = some (x, rest) →
        ((run? (cs ++ more)).map fun x => ((negative, x.1), x.2)) = some (x, rest ++ more) := by
    intro negative cs h
    obtain ⟨⟨ds, tail⟩, hds, h⟩ := Option.map_eq_some_iff.mp h
    cases h
    rw [run?_append hds hrest]
    rfl
  unfold signed? at h
  split at h
  · exact hmap true _ h
  · exact hmap false _ h
  next hminus hplus =>
  rw [signed?.eq_3]
  · exact hmap false _ h
  all_goals
    intro tail htail
    cases cs with
    | nil => cases h
    | cons c cs =>
      obtain ⟨rfl, -⟩ := List.cons.inj htail
      first
      | exact hminus cs rfl
      | exact hplus cs rfl

theorem exponent?_append {x : Bool × List Char} (h : exponent? cs = some (x, rest)) (hrest : rest ≠ [])
    (more : List Char) : exponent? (cs ++ more) = some (x, rest ++ more) := by
  cases cs with
  | nil =>
    cases h
    exact absurd rfl hrest
  | cons c cs =>
    rw [List.cons_append]
    by_cases hmark : c = 'e' ∨ c = 'E'
    · rw [exponent?_of_mark hmark] at h ⊢
      exact signed?_append h hrest more
    · obtain ⟨he, hE⟩ := not_or.mp hmark
      rw [exponent?_of_ne he hE] at h ⊢
      cases h
      rfl

def magnitude? (negative : Bool) (cs : List Char) : Option (Json × List Char) := do
  let (integral, cs) ← integral? cs
  let (fraction, cs) ← fraction? cs
  let ((exponentNegative, exponent), cs) ← exponent? cs
  return (Lexeme.toJson ⟨negative, integral, fraction, exponentNegative, exponent⟩, cs)

theorem number?_minus (cs : List Char) : number? ('-' :: cs) = magnitude? true cs := rfl

theorem number?_of_ne (h : c ≠ '-') (cs : List Char) : number? (c :: cs) = magnitude? false (c :: cs) := by
  unfold number?
  split
  next negative tail heq =>
  split at heq
  · next hc => exact absurd (List.cons.inj hc).1 h
  · cases heq
    rfl

/-- A number that ends before the text does. -/
theorem magnitude?_append {negative : Bool} {j : Json} (h : magnitude? negative cs = some (j, rest))
    (hrest : rest ≠ []) (more : List Char) : magnitude? negative (cs ++ more) = some (j, rest ++ more) := by
  obtain ⟨⟨integral, afterIntegral⟩, hintegral, h⟩ := Option.bind_eq_some_iff.mp h
  obtain ⟨⟨fraction, afterFraction⟩, hfraction, h⟩ := Option.bind_eq_some_iff.mp h
  obtain ⟨⟨⟨sign, exponent⟩, afterExponent⟩, hexponent, h⟩ := Option.bind_eq_some_iff.mp h
  cases h
  -- where a part of the number is the end of the text, so are the parts that follow
  have hne : afterFraction ≠ [] := by
    rintro rfl
    cases hexponent
    exact hrest rfl
  have hne' : afterIntegral ≠ [] := by
    rintro rfl
    cases hfraction
    exact hne rfl
  rw [magnitude?, integral?_append hintegral hne' more]
  simp only [Option.bind_eq_bind, Option.bind_some, fraction?_append hfraction hne more,
    exponent?_append hexponent hrest more, Option.pure_def]

/-- A number that is followed by anything ends there whatever comes next. -/
theorem number?_append {j : Json} (h : number? cs = some (j, rest)) (hrest : rest ≠ [])
    (more : List Char) : number? (cs ++ more) = some (j, rest ++ more) := by
  cases cs with
  | nil => cases h
  | cons c cs =>
    rw [List.cons_append]
    by_cases hminus : c = '-'
    · subst hminus
      rw [number?_minus] at h ⊢
      exact magnitude?_append h hrest more
    · rw [number?_of_ne hminus] at h ⊢
      exact magnitude?_append h hrest more

/-- A number begins with its sign or with a digit. -/
theorem number?_head {x : Json × List Char} (h : number? (c :: cs) = some x) :
    c = '-' ∨ c.isDigit = true := by
  by_contra hnot
  obtain ⟨hminus, hdigit⟩ := not_or.mp hnot
  rw [number?_of_ne hminus, magnitude?, integral?.eq_2 _ fun _ hc => hdigit (by
    rw [(List.cons.inj hc).1]
    rfl)] at h
  simp [digits, hdigit] at h

/-! ### Documents -/

def Closes {α : Type} (read read' : List Char → Option (α × List Char)) : Prop :=
  ∀ {cs : List Char} {a : α} {rest : List Char}, read cs = some (a, rest) →
    ∀ more, read' (cs ++ more) = some (a, rest ++ more)

def Ends (read read' : List Char → Option (Json × List Char)) : Prop :=
  ∀ {cs : List Char} {j : Json} {rest : List Char}, read cs = some (j, rest) →
    rest ≠ [] ∨ number? (skipBlank cs) = none → ∀ more, read' (cs ++ more) = some (j, rest ++ more)

theorem document?_nil (fuel : Nat) : document? fuel [] = none := by
  cases fuel <;> rfl

theorem items?_nil (fuel : Nat) : items? fuel [] = none := by
  cases fuel with
  | zero => rfl
  | succ fuel =>
    rw [items?.eq_2, document?_nil]
    rfl

theorem entries?_nil (fuel : Nat) : entries? fuel [] = none := by
  cases fuel <;> rfl

theorem Closes.after_blanks {α : Type} {read read' : List Char → Option (α × List Char)}
    (h : Closes read read') (hnil : read [] = none) {a : α} (ha : read (skipBlank cs) = some (a, rest))
    (more : List Char) : ∃ c s, skipBlank cs = c :: s ∧ read' (c :: (s ++ more)) = some (a, rest ++ more) := by
  obtain ⟨c, s, hs⟩ : ∃ c s, skipBlank cs = c :: s := by
    apply List.exists_cons_of_ne_nil
    intro hempty
    rw [hempty, hnil] at ha
    cases ha
  rw [hs] at ha
  exact ⟨c, s, hs, h ha more⟩

/-- A document that is a number, and not the end of the text. -/
theorem document?_append_of_number {j : Json} (h : number? (skipBlank cs) = some (j, rest))
    (hrest : rest ≠ []) (more : List Char) (fuel : Nat) :
    document? (fuel + 1) (cs ++ more) = some (j, rest ++ more) := by
  obtain ⟨c, s, hs⟩ : ∃ c s, skipBlank cs = c :: s := by
    apply List.exists_cons_of_ne_nil
    intro hnil
    rw [hnil] at h
    cases h
  rw [hs] at h
  have hhead := number?_head h
  have hblank : isBlank c = false := by
    rcases hhead with rfl | hdigit
    · rfl
    · exact isBlank_of_isDigit hdigit
  have hread := document?_of_number hhead (s ++ more) fuel
  rw [document?.eq_2, skipBlank_cons hblank] at hread
  rw [document?.eq_2, skipBlank_append hs]
  exact hread.trans (number?_append h hrest more)

section Step

variable {fuel fuel' : Nat}

/-- Documents of one more level end where they end, if arrays and objects do. -/
theorem ends_document?_succ (hitems : Closes (items? fuel) (items? fuel'))
    (hentries : Closes (entries? fuel) (entries? fuel')) :
    Ends (document? (fuel + 1)) (document? (fuel' + 1)) := by
  intro cs j rest h hrest more
  rw [document?.eq_2] at h ⊢
  split at h
  · -- an object
    next inner heq =>
    simp only [skipBlank_append heq]
    split at h
    · next heq' =>
      cases h
      simp only [skipBlank_append heq']
    · next hne =>
      obtain ⟨⟨es, tail⟩, hes, h⟩ := Option.map_eq_some_iff.mp h
      cases h
      obtain ⟨c, s, hs, hes'⟩ := hentries.after_blanks (entries?_nil fuel) hes more
      rw [hs] at hne
      simp only [skipBlank_append hs]
      split
      · next hc => exact absurd (congrArg (· :: s) (List.cons.inj hc).1) (hne s)
      · rw [hes']
        rfl
  · -- an array
    next inner heq =>
    simp only [skipBlank_append heq]
    split at h
    · next heq' =>
      cases h
      simp only [skipBlank_append heq']
    · next hne =>
      obtain ⟨⟨js, tail⟩, hjs, h⟩ := Option.map_eq_some_iff.mp h
      cases h
      obtain ⟨c, s, hs, hjs'⟩ := hitems.after_blanks (items?_nil fuel) hjs more
      rw [hs] at hne
      simp only [skipBlank_append hs]
      split
      · next hc => exact absurd (congrArg (· :: s) (List.cons.inj hc).1) (hne s)
      · rw [hjs']
        rfl
  · -- a text
    next inner heq =>
    obtain ⟨⟨s, tail⟩, hs, h⟩ := Option.map_eq_some_iff.mp h
    cases h
    simp only [skipBlank_append heq, text?_append hs, Option.map_some]
  · next heq =>
    cases h
    simp only [skipBlank_append heq, List.cons_append]
  · next heq =>
    cases h
    simp only [skipBlank_append heq, List.cons_append]
  · next heq =>
    cases h
    simp only [skipBlank_append heq, List.cons_append]
  · -- a number, which is not the end of the text
    have hne : rest ≠ [] := hrest.resolve_right fun hnone => by
      rw [hnone] at h
      cases h
    have hread := document?_append_of_number h hne more fuel'
    rw [document?.eq_2] at hread
    exact hread

/-- An array ends at its bracket, if its items end. -/
theorem closes_items?_succ (hdocument : Ends (document? fuel) (document? fuel'))
    (hitems : Closes (items? fuel) (items? fuel')) :
    Closes (items? (fuel + 1)) (items? (fuel' + 1)) := by
  intro cs js rest h more
  rw [items?.eq_2] at h ⊢
  obtain ⟨⟨j, mid⟩, hj, h⟩ := Option.bind_eq_some_iff.mp h
  have hmid : mid ≠ [] := by
    rintro rfl
    cases h
  rw [hdocument hj (.inl hmid) more]
  dsimp only at h
  simp only [Option.bind_eq_bind, Option.bind_some]
  split at h
  · next heq =>
    obtain ⟨⟨js', tail⟩, hjs, h⟩ := Option.bind_eq_some_iff.mp h
    cases h
    simp only [skipBlank_append heq, hitems hjs more, Option.bind_some, Option.pure_def]
  · next heq =>
    cases h
    simp only [skipBlank_append heq, Option.pure_def]
  · cases h

/-- An object ends at its brace, if its entries end. -/
theorem closes_entries?_succ (hdocument : Ends (document? fuel) (document? fuel'))
    (hentries : Closes (entries? fuel) (entries? fuel')) :
    Closes (entries? (fuel + 1)) (entries? (fuel' + 1)) := by
  intro cs es rest h more
  rw [entries?.eq_2] at h ⊢
  split at h
  case h_2 => cases h
  next afterQuote hquote =>
  obtain ⟨⟨key, afterKey⟩, hkey, h⟩ := Option.bind_eq_some_iff.mp h
  dsimp only at h
  split at h
  case h_2 => cases h
  next afterColon hcolon =>
  obtain ⟨⟨j, mid⟩, hj, h⟩ := Option.bind_eq_some_iff.mp h
  have hmid : mid ≠ [] := by
    rintro rfl
    cases h
  simp only [skipBlank_append hquote, text?_append hkey, skipBlank_append hcolon,
    hdocument hj (.inl hmid) more, Option.bind_eq_bind, Option.bind_some]
  dsimp only at h
  split at h
  · next heq =>
    obtain ⟨⟨es', tail⟩, hes, h⟩ := Option.bind_eq_some_iff.mp h
    cases h
    simp only [skipBlank_append heq, hentries hes more, Option.bind_some, Option.pure_def]
  · next heq =>
    cases h
    simp only [skipBlank_append heq, Option.pure_def]
  · cases h

end Step

/-- More text after it, and a greater bound, change nothing of what is read. -/
theorem reads_append {fuel fuel' : Nat} (h : fuel ≤ fuel') : Ends (document? fuel) (document? fuel') ∧
    Closes (items? fuel) (items? fuel') ∧ Closes (entries? fuel) (entries? fuel') := by
  -- by induction on the bound, where each reader goes on with the ones below
  induction fuel generalizing fuel' with
  | zero => exact ⟨nofun, nofun, nofun⟩
  | succ fuel ih =>
    obtain ⟨fuel', rfl⟩ : ∃ n, fuel' = n + 1 := Nat.exists_eq_add_one_of_ne_zero (by omega)
    obtain ⟨hdocument, hitems, hentries⟩ := ih (Nat.le_of_succ_le_succ h)
    exact ⟨ends_document?_succ hitems hentries, closes_items?_succ hdocument hitems,
      closes_entries?_succ hdocument hentries⟩

/-- No beginning of an object's text is a document. -/
theorem ofChars?_of_append_eq_chars {entries : List (String × Json)} (hplain : (object entries).Plain)
    {torn more : List Char} (h : torn ++ more = chars (object entries)) (hmore : more ≠ []) :
    ofChars? torn = none := by
  by_contra hsome
  obtain ⟨j, hj⟩ := Option.ne_none_iff_exists'.mp hsome
  unfold ofChars? at hj
  split at hj
  case h_2 => cases hj
  next j' rest hread =>
  -- both texts are read, the longer one to its end
  have hstops : StopsNumber [] := nofun
  have hwhole := document?_chars _ hplain hstops _ (Nat.lt_succ_self _)
  have hnumber : number? (skipBlank torn) = none := by
    cases torn with
    | nil => rfl
    | cons c torn =>
      obtain ⟨cs, hcs⟩ : ∃ cs, chars (object entries) = '{' :: cs := by
        cases entries <;> exact ⟨_, rfl⟩
      rw [hcs] at h
      obtain ⟨rfl, -⟩ := List.cons.inj h
      rfl
  have hle : torn.length + 1 ≤ (chars (object entries)).length + 1 := by
    rw [← h, List.length_append]
    omega
  have hlonger := (reads_append hle).1 hread (.inr hnumber) more
  rw [List.append_nil, ← h] at hwhole
  rw [← h, hwhole] at hlonger
  have hend := (Prod.mk.inj (Option.some.inj hlonger)).2
  exact hmore (List.append_eq_nil_iff.mp hend.symm).2

end OracleDuty.Json
