import OracleDuty.Abi
/-!
Values in the binary format of contract calls read back: the reader for a value's own form returns the
value, wherever the encoding stands in the data and whatever follows it.

Main statements: `Value.decode?_encode`, `Value.encode_inj` and `Value.dvd_length_encode`.
-/
namespace OracleDuty.Abi

mutual

def Value.shape : Value → Shape
  | .word _ => .word
  | .bytes _ => .bytes
  | .words _ => .words
  | .tuple parts => .tuple (Value.shapes parts)

def Value.shapes : List Value → List Shape
  | [] => []
  | v :: rest => v.shape :: Value.shapes rest

end

section Reading

variable {data rest : Bytes} {offset : Nat}

theorem wordAt?_of_drop {w : Word} (h : data.drop offset = w.bytes ++ rest) :
    wordAt? data offset = some w := by
  have ht : (data.drop offset).take 32 = w.bytes := by
    rw [h, List.take_left' (Word.length_bytes w)]
  have hn : Bytes.toNat w.bytes = w.toNat := by
    have hlt : w.toNat < Nat.pow 256 32 := w.isLt
    rw [Word.bytes, Bytes.toNat_bigEndian, Nat.mod_eq_of_lt hlt]
  simp only [wordAt?, ht, Word.length_bytes, if_true, hn, BitVec.ofNat_toNat, BitVec.setWidth_eq]

theorem wordBytes_eq {n : Nat} (hn : n < Nat.pow 2 256) :
    wordBytes n = Word.bytes (BitVec.ofNat 256 n) := by
  rw [wordBytes, Word.bytes, BitVec.toNat_ofNat, Nat.mod_eq_of_lt hn]

@[simp] theorem length_wordBytes (n : Nat) : (wordBytes n).length = 32 := Bytes.length_bigEndian ..

/-- A length or an offset reads back as the number that it is. -/
theorem wordAt?_wordBytes {n : Nat} (hn : n < Nat.pow 2 256)
    (h : data.drop offset = wordBytes n ++ rest) :
    ∃ w, wordAt? data offset = some w ∧ w.toNat = n := by
  rw [wordBytes_eq hn] at h
  exact ⟨BitVec.ofNat 256 n, wordAt?_of_drop h, by rw [BitVec.toNat_ofNat, Nat.mod_eq_of_lt hn]⟩

theorem drop_add_of_drop {front : Bytes} (h : data.drop offset = front ++ rest) :
    data.drop (offset + front.length) = rest := by
  rw [← List.drop_drop, h, List.drop_left]

theorem length_of_drop {front : Bytes} (ho : offset ≤ data.length)
    (h : data.drop offset = front ++ rest) : data.length = offset + front.length + rest.length := by
  have hl := congrArg List.length h
  rw [List.length_drop, List.length_append] at hl
  omega

/-- Words read back wherever they stand in the data. -/
theorem wordsAt?_of_drop {ws : List Word} (h : data.drop offset = ws.flatMap Word.bytes ++ rest) :
    wordsAt? data ws.length offset = some ws := by
  induction ws generalizing offset with
  | nil => rfl
  | cons w ws ih =>
    rw [List.flatMap_cons, List.append_assoc] at h
    have hr := ih (drop_add_of_drop h)
    rw [Word.length_bytes] at hr
    rw [List.length_cons, wordsAt?, wordAt?_of_drop h, hr]
    rfl

theorem bytesAt?_of_drop {bs : Bytes} (h : data.drop offset = bs ++ rest) :
    bytesAt? data bs.length offset = some bs := by
  simp only [bytesAt?, h, List.take_left, if_true]

end Reading

theorem length_flatMap_bytes (ws : List Word) :
    (ws.flatMap Word.bytes).length = 32 * ws.length := by
  induction ws with
  | nil => rfl
  | cons w ws ih =>
    rw [List.flatMap_cons, List.length_append, Word.length_bytes, ih, List.length_cons]
    omega

/-- Words are told by their bytes alone, their number included. -/
theorem flatMap_bytes_injective {ws ws' : List Word} (h : ws.flatMap Word.bytes = ws'.flatMap Word.bytes) :
    ws = ws' := by
  have hlength : ws.length = ws'.length := by
    have := congrArg List.length h
    simp only [length_flatMap_bytes] at this
    omega
  have hread (ws : List Word) : wordsAt? (ws.flatMap Word.bytes) ws.length 0 = some ws :=
    wordsAt?_of_drop (List.append_nil _).symm
  have hws := hread ws
  rw [h, hlength, hread ws'] at hws
  exact (Option.some.inj hws).symm

section Layout

theorem length_assemble (next : Nat) (parts : List (Bool × Bytes)) :
    (assemble next parts).1.length = headSize parts := by
  induction parts generalizing next with
  | nil => rfl
  | cons part parts ih =>
    obtain ⟨dynamic, bs⟩ := part
    cases dynamic with
    | false => simp [assemble, headSize, ih]
    | true => simp [assemble, headSize, ih]

theorem layout_eq (parts : List (Bool × Bytes)) :
    layout parts = (assemble (headSize parts) parts).1 ++ (assemble (headSize parts) parts).2 := rfl

/-- Heads and tails stay in whole words whatever the offset of the first tail. -/
theorem dvd_length_assemble {parts : List (Bool × Bytes)} (h : ∀ p ∈ parts, 32 ∣ p.2.length)
    (next : Nat) :
    32 ∣ (assemble next parts).1.length ∧ 32 ∣ (assemble next parts).2.length := by
  induction parts generalizing next with
  | nil => exact ⟨Nat.dvd_zero 32, Nat.dvd_zero 32⟩
  | cons part parts ih =>
    obtain ⟨dynamic, bs⟩ := part
    have hb : 32 ∣ bs.length := h _ List.mem_cons_self
    have hp : ∀ p ∈ parts, 32 ∣ p.2.length := fun p hp => h p (List.mem_cons_of_mem _ hp)
    cases dynamic with
    | false =>
      obtain ⟨hh, ht⟩ := ih hp next
      refine ⟨?_, ht⟩
      rw [assemble, List.length_append]
      exact Nat.dvd_add hb hh
    | true =>
      obtain ⟨hh, ht⟩ := ih hp (next + bs.length)
      refine ⟨?_, ?_⟩
      · rw [assemble, List.length_append, length_wordBytes]
        exact Nat.dvd_add (Nat.dvd_refl 32) hh
      · rw [assemble, List.length_append]
        exact Nat.dvd_add hb ht

theorem dvd_length_layout {parts : List (Bool × Bytes)} (h : ∀ p ∈ parts, 32 ∣ p.2.length) :
    32 ∣ (layout parts).length := by
  obtain ⟨hh, ht⟩ := dvd_length_assemble h (headSize parts)
  rw [layout_eq, List.length_append]
  exact Nat.dvd_add hh ht

end Layout

namespace Value

mutual

theorem isDynamic_shape : (v : Value) → v.shape.isDynamic = v.isDynamic
  | .word _ => rfl
  | .bytes _ => rfl
  | .words _ => rfl
  | .tuple parts => anyDynamic_shapes parts

theorem anyDynamic_shapes :
    (vs : List Value) → Shape.anyDynamic (shapes vs) = anyDynamic vs
  | [] => rfl
  | v :: vs => by
    rw [shapes, Shape.anyDynamic, anyDynamic, isDynamic_shape v, anyDynamic_shapes vs]

end

theorem headSize_shape_of_isDynamic {v : Value} (h : v.isDynamic = true) :
    v.shape.headSize = 32 := by
  cases v with
  | word w => rfl
  | bytes bs => rfl
  | words ws => rfl
  | tuple parts =>
    have hd : Shape.anyDynamic (shapes parts) = true := (anyDynamic_shapes parts).trans h
    rw [shape, Shape.headSize, if_pos hd]

/-- Parts of fixed size leave nothing to stand behind them. -/
theorem assemble_encodeAll_of_static {vs : List Value} (h : anyDynamic vs = false) (next : Nat) :
    (assemble next (encodeAll vs)).2 = [] := by
  induction vs generalizing next with
  | nil => rfl
  | cons v vs ih =>
    obtain ⟨hv, hvs⟩ := Bool.or_eq_false_iff.mp h
    rw [encodeAll, hv]
    exact ih hvs next

mutual

/-- A value of fixed size takes exactly what the head has for its form. -/
theorem length_encode_of_static :
    (v : Value) → v.isDynamic = false → v.encode.length = v.shape.headSize
  | .word w, _ => Word.length_bytes w
  | .tuple parts, h => by
    have hs : Shape.anyDynamic (shapes parts) = false := (anyDynamic_shapes parts).trans h
    have hd : ¬ Shape.anyDynamic (shapes parts) = true := by
      rw [hs]
      exact Bool.false_ne_true
    rw [shape, Shape.headSize, if_neg hd, encode, layout_eq, assemble_encodeAll_of_static h,
      List.append_nil, length_assemble, headSize_encodeAll parts]

/-- The head of encoded parts is as large as their forms say. -/
theorem headSize_encodeAll :
    (vs : List Value) → headSize (encodeAll vs) = Shape.headSizes (shapes vs)
  | [] => rfl
  | v :: vs => by
    have ih := headSize_encodeAll vs
    rw [encodeAll, shapes, Shape.headSizes, ← ih]
    cases hd : v.isDynamic with
    | false =>
      rw [← length_encode_of_static v hd]
      rfl
    | true =>
      rw [headSize_shape_of_isDynamic hd]
      rfl

end

mutual

/-- An encoding is a whole number of words. -/
theorem dvd_length_encode : (v : Value) → 32 ∣ v.encode.length
  | .word w => by
    rw [encode]
    exact ⟨1, Word.length_bytes w⟩
  | .bytes bs => by
    rw [encode, List.length_append, length_wordBytes, Bytes.padRight, List.length_append,
      List.length_replicate]
    omega
  | .words ws => by
    rw [encode, List.length_append, length_wordBytes, length_flatMap_bytes]
    omega
  | .tuple parts => dvd_length_layout (dvd_length_encodeAll parts)

theorem dvd_length_encodeAll : (vs : List Value) → ∀ p ∈ encodeAll vs, 32 ∣ p.2.length
  | [], _, hp => absurd hp List.not_mem_nil
  | v :: vs, p, hp => by
    rcases List.mem_cons.mp hp with rfl | hp
    · exact dvd_length_encode v
    · exact dvd_length_encodeAll vs p hp

end

/-- A byte string reads back by its length, and the zeros behind it are left alone. -/
theorem decode?_encode_bytes (bs rest : Bytes)
    (h : ((Value.bytes bs).encode ++ rest).length < Nat.pow 2 256) :
    Shape.bytes.decode? ((Value.bytes bs).encode ++ rest) = some (.bytes bs) := by
  have hd : ((Value.bytes bs).encode ++ rest).drop 0 = wordBytes bs.length ++
      (bs ++ (List.replicate ((32 - bs.length % 32) % 32) 0 ++ rest)) := by
    rw [List.drop_zero, encode, Bytes.padRight, List.append_assoc, List.append_assoc]
  -- a length counts what is there, and so fits a word as long as all of the data can be counted by one
  have hl := length_of_drop (Nat.zero_le _) hd
  rw [@List.length_append _ bs] at hl
  obtain ⟨n, hn, hnat⟩ := wordAt?_wordBytes (Nat.lt_of_le_of_lt (by omega) h) hd
  have hb := drop_add_of_drop hd
  rw [length_wordBytes, Nat.zero_add] at hb
  rw [Shape.decode?, hn, Option.bind_eq_bind, Option.bind_some, hnat, bytesAt?_of_drop hb]
  rfl

/-- A list of words reads back by its number. -/
theorem decode?_encode_words (ws : List Word) (rest : Bytes)
    (h : ((Value.words ws).encode ++ rest).length < Nat.pow 2 256) :
    Shape.words.decode? ((Value.words ws).encode ++ rest) = some (.words ws) := by
  have hd : ((Value.words ws).encode ++ rest).drop 0 = wordBytes ws.length ++
      (ws.flatMap Word.bytes ++ rest) := by
    rw [List.drop_zero, encode, List.append_assoc]
  have hl := length_of_drop (Nat.zero_le _) hd
  rw [@List.length_append _ (ws.flatMap Word.bytes), length_flatMap_bytes] at hl
  obtain ⟨n, hn, hnat⟩ := wordAt?_wordBytes (Nat.lt_of_le_of_lt (by omega) h) hd
  have hb := drop_add_of_drop hd
  rw [length_wordBytes, Nat.zero_add] at hb
  rw [Shape.decode?, hn, Option.bind_eq_bind, Option.bind_some, hnat, if_pos (by omega),
    wordsAt?_of_drop hb]
  rfl

mutual

/-- The reader of a value's form returns the value and leaves what follows it alone. -/
theorem decode?_encode : (v : Value) → ∀ rest : Bytes,
    (v.encode ++ rest).length < Nat.pow 2 256 → v.shape.decode? (v.encode ++ rest) = some v
  | .word w => by
    intro rest _
    have h0 : (w.bytes ++ rest).drop 0 = w.bytes ++ rest := List.drop_zero
    rw [shape, encode, Shape.decode?, wordAt?_of_drop h0]
    rfl
  | .bytes bs => decode?_encode_bytes bs
  | .words ws => decode?_encode_words ws
  | .tuple parts => by
    intro rest h
    have hd : (Value.tuple parts).encode ++ rest =
        (assemble (headSize (encodeAll parts)) (encodeAll parts)).1 ++
          ((assemble (headSize (encodeAll parts)) (encodeAll parts)).2 ++ rest) := by
      rw [encode, layout_eq, List.append_assoc]
    have hl := length_assemble (headSize (encodeAll parts)) (encodeAll parts)
    rw [hd] at h ⊢
    rw [shape, Shape.decode?, decodeAll?_encodeAll parts _ _ _ _ _ h List.drop_zero (List.drop_left' hl)
      (by rw [List.length_append]; omega)]
    rfl

/-- Parts read back where their heads stand at `offset` and what is behind the heads at `next`. -/
theorem decodeAll?_encodeAll : (vs : List Value) → ∀ (data more rest : Bytes) (offset next : Nat),
    data.length < Nat.pow 2 256 →
    data.drop offset = (assemble next (encodeAll vs)).1 ++ more →
    data.drop next = (assemble next (encodeAll vs)).2 ++ rest → next ≤ data.length →
    Shape.decodeAll? (shapes vs) data offset = some vs
  | [] => by
    intros
    rfl
  | v :: vs => by
    intro data more rest offset next hlt hh ht hn
    rw [shapes, Shape.decodeAll?, isDynamic_shape v]
    rw [encodeAll] at hh ht
    cases hd : v.isDynamic with
    | false =>
      -- the part itself stands in the head
      rw [hd, assemble, List.append_assoc] at hh
      rw [hd, assemble] at ht
      have hv := decode?_encode v ((assemble next (encodeAll vs)).1 ++ more)
        (Nat.lt_of_le_of_lt (by rw [← hh, List.length_drop]; omega) hlt)
      have hr := drop_add_of_drop hh
      rw [length_encode_of_static v hd] at hr
      rw [hh, if_neg Bool.false_ne_true, hv, decodeAll?_encodeAll vs _ _ _ _ _ hlt hr ht hn]
      rfl
    | true =>
      -- the head has an offset, which leads to the part behind the heads
      rw [hd, assemble, List.append_assoc] at hh ht
      obtain ⟨w, hw, hnat⟩ := wordAt?_wordBytes (Nat.lt_of_le_of_lt hn hlt) hh
      have hv := decode?_encode v ((assemble (next + v.encode.length) (encodeAll vs)).2 ++ rest)
        (Nat.lt_of_le_of_lt (by rw [← ht, List.length_drop]; omega) hlt)
      have hr := drop_add_of_drop hh
      have hs := drop_add_of_drop ht
      have hl := length_of_drop hn ht
      rw [length_wordBytes] at hr
      rw [if_pos rfl, hw, Option.bind_eq_bind, Option.bind_some, hnat, if_pos hn, ht, hv,
        headSize_shape_of_isDynamic hd, decodeAll?_encodeAll vs _ _ _ _ _ hlt hr hs (by omega)]
      rfl

end

/-- Values of one form with one encoding are one value. -/
theorem encode_inj {v w : Value} (hs : v.shape = w.shape)
    (hv : v.encode.length < Nat.pow 2 256) (h : v.encode = w.encode) : v = w := by
  have hw := decode?_encode w [] (by rwa [List.append_nil, ← h])
  rw [List.append_nil, ← h, ← hs] at hw
  have hd := decode?_encode v [] (by rwa [List.append_nil])
  rw [List.append_nil, hw] at hd
  exact (Option.some.inj hd).symm

end Value

end OracleDuty.Abi
