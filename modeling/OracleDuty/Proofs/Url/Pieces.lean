import Mathlib.Data.List.Forall2
import Mathlib.Data.Option.Basic
import OracleDuty.Proofs.Bytes
import OracleDuty.Proofs.Url
/-!
Addresses of eight pieces: the text of an address, with the longest run of zeros left out, is read as that address.

Main statements: `isAddress_of_address?` and `IsAddress.address?_chars`.
-/
namespace OracleDuty.Url

variable {c : Char} {p : Nat} {cs t : List Char} {ps : List Nat}

structure IsAddress (ps : List Nat) : Prop where
  eight : ps.length = 8
  bound : ∀ p ∈ ps, p < 65536

def isBracketed (c : Char) : Bool := (Hex.value? c).isSome || c == ':'

theorem isBracketed_of_mem_toDigits {base n : Nat} (hlow : 1 < base) (hhigh : base ≤ 16)
    (h : c ∈ Nat.toDigits base n) : isBracketed c = true :=
  Bool.or_eq_true_iff.mpr (.inl (Hex.isSome_value?_of_mem_toDigits hlow hhigh h))

/-! ### Lists of results -/

theorem forall₂_of_mapM {α β : Type} {f : α → Option β} {l : List α} {l' : List β} (h : l.mapM f = some l') :
    List.Forall₂ (fun a b => f a = some b) l l' := by
  induction l generalizing l' with
  | nil =>
    cases h
    exact .nil
  | cons a l ih =>
    rw [List.mapM_cons] at h
    obtain ⟨b, hb, h⟩ := Option.bind_eq_some_iff.mp h
    obtain ⟨rest, hrest, h⟩ := Option.bind_eq_some_iff.mp h
    cases h
    exact .cons hb (ih hrest)

theorem forall_of_mapM {α β : Type} {f : α → Option β} {P : β → Prop} (hf : ∀ a b, f a = some b → P b)
    {l : List α} {l' : List β} (h : l.mapM f = some l') : ∀ b ∈ l', P b := by
  have hall := forall₂_of_mapM h
  clear h
  induction hall with
  | nil => exact List.forall_mem_nil _
  | cons hb _ ih => exact List.forall_mem_cons.mpr ⟨hf _ _ hb, ih⟩

/-! ### Pieces that were read -/

theorem piece?_lt (h : piece? cs = some p) : p < 65536 := by
  rw [piece?] at h
  split at h
  · next hcs =>
    calc p < Nat.pow 16 cs.length := Hex.number?_lt h
      _ ≤ Nat.pow 16 4 := Nat.pow_le_pow_right (by decide) hcs.2
  · cases h

theorem byte?_lt {b : Nat} (h : byte? cs = some b) : b < 256 := by
  unfold byte? at h
  split at h
  · cases h
  · cases h
  · exact of_decide_eq_true (Option.filter_eq_some_iff.mp h).2

/-- Pieces are of 16 bits also where they were written as bytes. -/
theorem lastPieces?_lt (h : lastPieces? cs = some ps) : ∀ p ∈ ps, p < 65536 := by
  rw [lastPieces?] at h
  split at h
  · split at h
    · next a b c d hbytes =>
      have hlt := forall_of_mapM (fun _ _ => byte?_lt) hbytes
      simp only [List.forall_mem_cons] at hlt
      obtain ⟨ha, hb, hc, hd, _⟩ := hlt
      cases h
      simp only [List.forall_mem_cons]
      exact ⟨by omega, by omega, List.forall_mem_nil _⟩
    · cases h
  · obtain ⟨p, hp, rfl⟩ := Option.map_eq_some_iff.mp h
    exact List.forall_mem_singleton.mpr (piece?_lt hp)

/-- Pieces that were read are of 16 bits. -/
theorem pieces?_lt {groups : List (List Char)} (h : pieces? groups = some ps) : ∀ p ∈ ps, p < 65536 := by
  induction groups generalizing ps with
  | nil =>
    cases h
    exact List.forall_mem_nil _
  | cons group groups ih =>
    cases groups with
    | nil => exact lastPieces?_lt h
    | cons group' groups =>
      obtain ⟨p, hp, h⟩ := Option.bind_eq_some_iff.mp h
      obtain ⟨rest, hrest, h⟩ := Option.bind_eq_some_iff.mp h
      cases h
      exact List.forall_mem_cons.mpr ⟨piece?_lt hp, ih hrest⟩

/-- What is read as an address is one. -/
theorem isAddress_of_address? (h : address? cs = some ps) : IsAddress ps := by
  unfold address? at h
  split at h
  · obtain ⟨h, hlength⟩ := Option.filter_eq_some_iff.mp h
    exact ⟨of_decide_eq_true hlength, pieces?_lt h⟩
  · simp only [Option.bind_eq_bind, Option.bind_eq_some_iff, Option.guard_eq_some'] at h
    obtain ⟨front, hfront, back, hback, _, hless, h⟩ := h
    cases h
    constructor
    case eight =>
      simp only [List.length_append, List.length_replicate]
      omega
    case bound =>
      simp only [List.forall_mem_append]
      refine ⟨⟨forall_of_mapM (fun _ _ => piece?_lt) hfront, ?_⟩, pieces?_lt hback⟩
      intro p hp
      rw [List.eq_of_mem_replicate hp]
      decide

/-! ### Pieces that are written -/

theorem isSome_value? (h : c ∈ Nat.toDigits 16 p) : (Hex.value? c).isSome = true :=
  Hex.isSome_value?_of_mem_toDigits (by decide) (by decide) h

theorem no_colon (p : Nat) : ∀ c ∈ Nat.toDigits 16 p, (c == ':') = false :=
  fun c hc => @beq_mark_eq_false c (fun c => (Hex.value? c).isSome) (isSome_value? hc) ':' rfl

theorem piece?_toDigits (h : p < 65536) : piece? (Nat.toDigits 16 p) = some p := by
  have hshort : (Nat.toDigits 16 p).length ≤ 4 := (Nat.length_toDigits_le_iff (by decide) (by decide)).mpr h
  rw [piece?, if_pos ⟨Nat.toDigits_ne_nil, hshort⟩]
  exact Hex.number?_toDigits (by decide) (by decide) p

theorem lastPieces?_toDigits (h : p < 65536) : lastPieces? (Nat.toDigits 16 p) = some [p] := by
  have hdot : ¬(Nat.toDigits 16 p).contains '.' = true := by
    rw [List.contains_iff_mem]
    exact fun hc => Bool.noConfusion (isSome_value? hc)
  rw [lastPieces?, if_neg hdot, piece?_toDigits h]
  rfl

theorem mapM_toDigits (h : ∀ p ∈ ps, p < 65536) : (ps.map (Nat.toDigits 16)).mapM piece? = some ps := by
  induction ps with
  | nil => rfl
  | cons p ps ih =>
    obtain ⟨hp, hps⟩ := List.forall_mem_cons.mp h
    rw [List.map_cons, List.mapM_cons, piece?_toDigits hp, ih hps]
    rfl

/-- Pieces written in hexadecimal read back. -/
theorem pieces?_toDigits (h : ∀ p ∈ ps, p < 65536) : pieces? (ps.map (Nat.toDigits 16)) = some ps := by
  induction ps with
  | nil => rfl
  | cons p ps ih =>
    obtain ⟨hp, hps⟩ := List.forall_mem_cons.mp h
    cases ps with
    | nil => exact lastPieces?_toDigits hp
    | cons p' ps =>
      refine Option.bind_eq_some_iff.mpr ⟨p, piece?_toDigits hp, ?_⟩
      exact Option.bind_eq_some_iff.mpr ⟨p' :: ps, ih hps, rfl⟩

theorem listed_cons_cons (p p' : Nat) (ps : List Nat) :
    listed (p :: p' :: ps) = Nat.toDigits 16 p ++ ':' :: listed (p' :: ps) := by
  rw [listed, List.map_cons, List.map_cons, List.intercalate_cons_cons, List.append_assoc]
  rfl

theorem listed_singleton (p : Nat) : listed [p] = Nat.toDigits 16 p := List.append_nil _

/-- Pieces in a row begin with a digit. -/
theorem listed_cons (p : Nat) (ps : List Nat) : ∃ c cs, listed (p :: ps) = c :: cs ∧ (c == ':') = false := by
  obtain ⟨c, cs, hcs⟩ := List.exists_cons_of_ne_nil (Nat.toDigits_ne_nil (n := p) (b := 16))
  have hc := no_colon p c (hcs ▸ List.mem_cons_self)
  cases ps with
  | nil => exact ⟨c, cs, (listed_singleton p).trans hcs, hc⟩
  | cons p' ps => exact ⟨c, _, by rw [listed_cons_cons, hcs, List.cons_append], hc⟩

/-- Colons separate what they were put between. -/
theorem groupsOf_listed (ps : List Nat) : groupsOf (listed ps) = ps.map (Nat.toDigits 16) := by
  induction ps with
  | nil => rfl
  | cons p ps ih =>
    obtain ⟨c, cs, hcs, _⟩ := listed_cons p ps
    rw [groupsOf, if_neg (by rw [hcs]; exact List.cons_ne_nil _ _)]
    cases ps with
    | nil => rw [listed_singleton, splitOn_word (no_colon p), List.map_singleton]
    | cons p' ps =>
      obtain ⟨c', cs', hcs', _⟩ := listed_cons p' ps
      rw [groupsOf, if_neg (by rw [hcs']; exact List.cons_ne_nil _ _)] at ih
      rw [listed_cons_cons, splitOn_piece rfl (no_colon p), ih]
      rfl

theorem mem_listed (h : c ∈ listed ps) : isBracketed c = true := by
  induction ps with
  | nil => cases h
  | cons p ps ih =>
    have hdigit : c ∈ Nat.toDigits 16 p → isBracketed c = true :=
      isBracketed_of_mem_toDigits (by decide) (by decide)
    cases ps with
    | nil => exact hdigit (listed_singleton p ▸ h)
    | cons p' ps =>
      rw [listed_cons_cons] at h
      rcases List.mem_append.mp h with h | h
      · exact hdigit h
      rcases List.mem_cons.mp h with rfl | h
      · rfl
      · exact ih h

/-! ### Two colons in a row -/

def putBefore (cs : List Char) (parts : List Char × List Char) : List Char × List Char := (cs ++ parts.1, parts.2)

theorem atGap?_cons (hc : (c == ':') = false) (t : List Char) :
    atGap? (c :: t) = (atGap? t).map (putBefore [c]) := by
  apply atGap?.eq_2
  rintro rest rfl
  cases hc

theorem atGap?_colon (hc : (c == ':') = false) (t : List Char) :
    atGap? (':' :: c :: t) = (atGap? (c :: t)).map (putBefore [':']) := by
  apply atGap?.eq_2
  intro rest _ hrest
  rw [(List.cons.inj hrest).1] at hc
  cases hc

theorem atGap?_word (h : ∀ c ∈ cs, (c == ':') = false) (t : List Char) :
    atGap? (cs ++ t) = (atGap? t).map (putBefore cs) := by
  induction cs with
  | nil => exact Option.map_id'.symm
  | cons c cs ih =>
    obtain ⟨hc, hcs⟩ := List.forall_mem_cons.mp h
    rw [List.cons_append, atGap?_cons hc, ih hcs, Option.map_map]
    rfl

/-- There is no gap within pieces in a row, nor between them and what follows. -/
theorem atGap?_listed (ps : List Nat) (t : List Char) :
    atGap? (listed ps ++ t) = (atGap? t).map (putBefore (listed ps)) := by
  induction ps with
  | nil => exact Option.map_id'.symm
  | cons p ps ih =>
    cases ps with
    | nil =>
      rw [listed_singleton]
      exact atGap?_word (no_colon p) t
    | cons p' ps =>
      obtain ⟨c, cs, hcs, hc⟩ := listed_cons p' ps
      -- a digit follows each colon of the list, so none of them begins the gap
      rw [listed_cons_cons, List.append_assoc, atGap?_word (no_colon p)]
      rw [hcs] at ih ⊢
      rw [List.cons_append, List.cons_append, atGap?_colon hc, ← List.cons_append, ih, Option.map_map, Option.map_map]
      congr 1
      funext parts
      simp [putBefore]

/-! ### The longest run of zeros -/

theorem takeWhile_zeros (ps : List Nat) :
    ps = List.replicate (ps.takeWhile (· == 0)).length 0 ++ ps.drop (ps.takeWhile (· == 0)).length := by
  induction ps with
  | nil => rfl
  | cons p ps ih =>
    by_cases hp : p = 0
    · subst hp
      rw [List.takeWhile_cons_of_pos rfl, List.length_cons, List.replicate_succ, List.drop_succ_cons,
        List.cons_append, ← ih]
    · rw [List.takeWhile_cons_of_neg (by simpa using hp)]
      rfl

/-- All pieces of the longest run are zeros. -/
theorem longestRun_zeros (ps : List Nat) : ps = ps.take (longestRun ps).start ++
    (List.replicate (longestRun ps).length 0 ++ ps.drop ((longestRun ps).start + (longestRun ps).length)) := by
  induction ps with
  | nil => rfl
  | cons p ps ih =>
    rw [longestRun]
    split
    -- the run is at the front, or it is that of the rest
    · rw [List.take_zero, List.nil_append, Nat.zero_add]
      exact takeWhile_zeros (p :: ps)
    · rw [Nat.add_right_comm, List.take_succ_cons, List.drop_succ_cons, List.cons_append, ← ih]

/-- The text of an address is of digits and colons. -/
theorem mem_addressChars (h : c ∈ addressChars ps) : isBracketed c = true := by
  simp only [addressChars] at h
  split at h
  · exact mem_listed h
  · simp only [List.mem_append, List.mem_cons] at h
    rcases h with h | rfl | rfl | h
    · exact mem_listed h
    · rfl
    · rfl
    · exact mem_listed h

/-- The text of an address is read as the address. -/
theorem IsAddress.address?_chars (h : IsAddress ps) : address? (addressChars ps) = some ps := by
  have hzeros := longestRun_zeros ps
  simp only [addressChars]
  generalize longestRun ps = run at hzeros ⊢
  split
  · have hgap : atGap? (listed ps) = none := by
      have hgap := atGap?_listed ps []
      rwa [List.append_nil] at hgap
    rw [address?, hgap]
    change (pieces? (groupsOf (listed ps))).filter _ = some ps
    rw [groupsOf_listed, pieces?_toDigits h.bound]
    exact Option.filter_some_pos (decide_eq_true h.eight)
  · next hlength =>
    have hgap := atGap?_listed (ps.take run.start) (':' :: ':' :: listed (ps.drop (run.start + run.length)))
    have hfront : (groupsOf (listed (ps.take run.start))).mapM piece? = some (ps.take run.start) := by
      rw [groupsOf_listed]
      exact mapM_toDigits fun p hp => h.bound p (List.mem_of_mem_take hp)
    have hback : pieces? (groupsOf (listed (ps.drop (run.start + run.length)))) =
        some (ps.drop (run.start + run.length)) := by
      rw [groupsOf_listed]
      exact pieces?_toDigits fun p hp => h.bound p (List.mem_of_mem_drop hp)
    have hsum := congrArg List.length hzeros
    simp only [List.length_append, List.length_replicate, h.eight] at hsum
    generalize ps.take run.start = front at *
    generalize ps.drop (run.start + run.length) = back at *
    -- the zeros that are missing are as many as there were in the run
    have hleft : 8 - (front.length + back.length) = run.length := by omega
    have hguard : (guard (front.length + back.length < 8) : Option Unit) = some () := if_pos (by omega)
    rw [address?, hgap]
    simp only [atGap?, Option.map_some, putBefore, List.append_nil, hfront, hback, Option.bind_eq_bind,
      Option.bind_some, hguard, hleft, List.append_assoc]
    exact congrArg some hzeros.symm

-- of two runs of one length the first is left out
example : addressChars [1, 0, 0, 2, 0, 0, 3, 4] = "1::2:0:0:3:4".toList := by decide +kernel

end OracleDuty.Url
