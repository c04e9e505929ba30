import OracleDuty.Proofs.Instant
import OracleDuty.Proofs.Json.RoundTrip
import OracleDuty.Proofs.OrderedMap
import OracleDuty.Proofs.Word
import OracleDuty.RewardsTree.Codec
/-!
The file of a rewards tree reads back as the tree.

Main statement: `RewardsTree.decode?_encode`.
-/
namespace OracleDuty

namespace Json

/-! ### Fields -/

/-- A key that occurs once among others is read with its value. -/
theorem unique?_of_mem {entries : List (String × Json)} {key : String} {j : Json}
    (hn : (entries.map Prod.fst).Nodup) (h : (key, j) ∈ entries) :
    unique? entries key = some (some j) := by
  have hf : entries.filter (fun e => e.1 == key) = [(key, j)] := by
    induction entries with
    | nil => exact absurd h List.not_mem_nil
    | cons e entries ih =>
      rw [List.map_cons, List.nodup_cons] at hn
      rcases List.mem_cons.mp h with rfl | h
      · have hr : entries.filter (fun e => e.1 == key) = [] := by
          refine List.filter_eq_nil_iff.mpr fun a ha hk => hn.1 ?_
          rw [← eq_of_beq hk]
          exact List.mem_map.mpr ⟨a, ha, rfl⟩
        rw [List.filter_cons, if_pos (beq_self_eq_true key), hr]
      · have he : e.1 ≠ key := by
          intro hk
          exact hn.1 (List.mem_map.mpr ⟨_, h, hk.symm⟩)
        rw [List.filter_cons_of_neg (by simpa using he), ih hn.2 h]
  rw [unique?, hf]

/-- Keys that are written once each are read with their values, whatever else is written. -/
theorem mapM_unique? {entries fields : List (String × Json)}
    (hn : (entries.map Prod.fst).Nodup) (h : ∀ e ∈ fields, e ∈ entries) :
    (fields.map Prod.fst).mapM (unique? entries) = some (fields.map fun e => some e.2) := by
  induction fields with
  | nil => rfl
  | cons e fields ih =>
    have he : unique? entries e.1 = some (some e.2) := unique?_of_mem hn (h e List.mem_cons_self)
    rw [List.map_cons, List.mapM_cons, he, ih fun a ha => h a (List.mem_cons_of_mem _ ha)]
    rfl

/-- A record that is written with its fields in order is read with them. -/
theorem record?_object {keys : List String} {fields : List (String × Json)}
    (hk : fields.map Prod.fst = keys) (hn : keys.Nodup) :
    record? keys (.object fields) = some (fields.map fun e => some e.2) := by
  subst hk
  exact mapM_unique? hn fun _ he => he

theorem uint64?_ofUInt64 (n : UInt64) : uint64? (ofUInt64 n) = some n := by
  have h : (n.toNat : Int) < (UInt64.size : Int) := by exact_mod_cast n.toNat_lt
  rw [ofUInt64, uint64?, if_pos ⟨Int.natCast_nonneg _, h⟩]
  simp

theorem amount?_decimal (w : Word) : amount? (.string w.decimal) = some w := amountOf?_decimal w

/-- A map that is written entry by entry is read as the map. -/
theorem map?_object {κ ν : Type} [KeyOrder κ] {key? : String → Option κ} {value? : Json → Option ν}
    {keyText : κ → String} {valueJson : ν → Json} (hk : ∀ k, key? (keyText k) = some k)
    (hv : ∀ v, value? (valueJson v) = some v) (m : OrderedMap κ ν) :
    map? key? value? (.object (m.entries.map fun e => (keyText e.1, valueJson e.2))) = some m := by
  have h : (m.entries.map fun e => (keyText e.1, valueJson e.2)).mapM
      (fun e => do return (← key? e.1, ← value? e.2)) = some m.entries := by
    induction m.entries with
    | nil => rfl
    | cons e l ih =>
      rw [List.map_cons, List.mapM_cons, ih, hk, hv]
      rfl
  rw [map?, h, Option.map_some, OrderedMap.ofList_entries]

theorem plainEntries_map {α : Type} {f : α → String × Json} {l : List α}
    (h : ∀ a, (f a).2.Plain) : PlainEntries (l.map f) := by
  induction l with
  | nil => trivial
  | cons a l ih => exact ⟨h a, ih⟩

theorem soundEntries_map {α : Type} {f : α → String × Json} {l : List α} {levels : Nat}
    (h : ∀ a, (f a).2.sound levels = true) : soundEntries levels (l.map f) = true := by
  induction l with
  | nil => rfl
  | cons a l ih => simp only [List.map_cons, soundEntries, h, ih, Bool.and_self]

end Json

open Json

/-! ### Records -/

theorem TotalRewards.ofJson?_toJson (r : TotalRewards) : ofJson? r.toJson = some r := by
  rw [ofJson?, toJson, record?_object]
  · simp only [Option.bind_eq_bind, Option.bind_some, List.map_cons, List.map_nil, amount?_decimal]
    rfl
  · rfl
  · decide

theorem NetworkRewards.ofJson?_toJson (r : NetworkRewards) : ofJson? r.toJson = some r := by
  rw [ofJson?, toJson, record?_object]
  · simp only [Option.bind_eq_bind, Option.bind_some, List.map_cons, List.map_nil, amount?_decimal]
    rfl
  · rfl
  · decide

theorem digests?_texts (ds : List Digest) :
    digests? (some (.array (ds.map fun d => .string d.text))) = some ds := by
  rw [digests?]
  induction ds with
  | nil => rfl
  | cons d ds ih =>
    rw [List.map_cons, List.mapM_cons, ih, digest?, Digest.ofText?_text]
    rfl

theorem NodeRewards.ofJson?_toJson (r : NodeRewards) : ofJson? r.toJson = some r := by
  rw [ofJson?, toJson, record?_object]
  · rw [Option.bind_eq_bind, Option.bind_some]
    simp only [List.map_cons, List.map_nil]
    rw [uint64?_ofUInt64, digests?_texts]
    simp only [Option.bind_eq_bind, Option.bind_some, amount?_decimal]
    rfl
  · rfl
  · decide

/-! ### Written documents denote values -/

theorem TotalRewards.plain_toJson (r : TotalRewards) : r.toJson.Plain := by
  simp only [toJson, Plain, PlainEntries, and_self]

theorem NetworkRewards.plain_toJson (r : NetworkRewards) : r.toJson.Plain := by
  simp only [toJson, Plain, PlainEntries, and_self]

theorem plainAll_texts (ds : List Digest) : PlainAll (ds.map fun d => .string d.text) := by
  induction ds with
  | nil => trivial
  | cons d ds ih => exact ⟨trivial, ih⟩

theorem NodeRewards.plain_toJson (r : NodeRewards) : r.toJson.Plain := by
  simp only [toJson, Plain, PlainEntries, plainAll_texts, and_true]
  exact plain_ofUInt64 r.rewardNetwork

theorem TotalRewards.sound_toJson (r : TotalRewards) (levels : Nat) :
    r.toJson.sound (levels + 1) = true := by
  simp [toJson, sound, soundEntries]

theorem NetworkRewards.sound_toJson (r : NetworkRewards) (levels : Nat) :
    r.toJson.sound (levels + 1) = true := by
  simp [toJson, sound, soundEntries]

namespace RewardsTree

theorem plain_toJson (t : RewardsTree) : t.toJson.Plain := by
  have hn : PlainEntries (t.header.networkRewards.entries.map fun e => (toString e.1, e.2.toJson)) :=
    plainEntries_map fun e => NetworkRewards.plain_toJson e.2
  have ha : PlainEntries (t.nodeRewards.entries.map fun e => (e.1.text, e.2.toJson)) :=
    plainEntries_map fun e => NodeRewards.plain_toJson e.2
  simp only [toJson, Plain, PlainEntries, plain_ofUInt64, TotalRewards.plain_toJson, true_and]
  exact ⟨hn, ha, trivial⟩

def headerEntries (h : RewardsHeader) : List (String × Json) := [
  ("rewardsFileVersion", .ofUInt64 h.rewardsFileVersion),
  ("rulesetVersion", .ofUInt64 h.rulesetVersion),
  ("index", .ofUInt64 h.index),
  ("network", .string h.network),
  ("startTime", .string h.startTime.text),
  ("endTime", .string h.endTime.text),
  ("consensusStartBlock", .ofUInt64 h.consensusStartBlock),
  ("consensusEndBlock", .ofUInt64 h.consensusEndBlock),
  ("executionStartBlock", .ofUInt64 h.executionStartBlock),
  ("executionEndBlock", .ofUInt64 h.executionEndBlock),
  ("intervalsPassed", .ofUInt64 h.intervalsPassed),
  ("merkleRoot", .string h.merkleRoot.text),
  ("minipoolPerformanceFileCid", .string h.minipoolPerformanceFileCid),
  ("totalRewards", h.totalRewards.toJson),
  ("networkRewards", .object (h.networkRewards.entries.map fun e => (toString e.1, e.2.toJson)))]

def nodesEntry (t : RewardsTree) : String × Json :=
  (nodesKey, .object (t.nodeRewards.entries.map fun e => (e.1.text, e.2.toJson)))

theorem toJson_eq (t : RewardsTree) :
    t.toJson = .object (headerEntries t.header ++ [nodesEntry t]) := rfl

theorem headerEntries_keys (h : RewardsHeader) : (headerEntries h).map Prod.fst = headerKeys := rfl

theorem nodup_keys (t : RewardsTree) :
    ((headerEntries t.header ++ [nodesEntry t]).map Prod.fst).Nodup := by
  have h : (headerKeys ++ [nodesKey]).Nodup := by decide
  rwa [List.map_append, headerEntries_keys]

/-- Everything beside the nodes' rewards denotes a value, at most three levels deep. -/
theorem sound_headerEntries (h : RewardsHeader) (levels : Nat) :
    ∀ e ∈ headerEntries h, e.2.sound (levels + 2) = true := by
  have hn : soundEntries (levels + 1) (h.networkRewards.entries.map fun e =>
      (toString e.1, e.2.toJson)) = true :=
    soundEntries_map fun e => NetworkRewards.sound_toJson e.2 levels
  simp [headerEntries, sound, ofUInt64, TotalRewards.sound_toJson, hn]

theorem filter_entries (t : RewardsTree) :
    (headerEntries t.header ++ [nodesEntry t]).filter (fun e => e.1 != nodesKey) =
      headerEntries t.header := by
  rfl

/-- The header is read from among the entries of the file. -/
theorem headerOf?_entries (t : RewardsTree) :
    headerOf? (headerEntries t.header ++ [nodesEntry t]) = some t.header := by
  rw [headerOf?, ← headerEntries_keys t.header,
    mapM_unique? (nodup_keys t) fun e he => List.mem_append_left _ he,
    Option.bind_eq_bind, Option.bind_some]
  have hn : map? Decimal.uint64? NetworkRewards.ofJson? (.object
      (t.header.networkRewards.entries.map fun e => (toString e.1, e.2.toJson))) =
        some t.header.networkRewards :=
    map?_object Decimal.uint64?_toString NetworkRewards.ofJson?_toJson t.header.networkRewards
  have ht (i : Instant) : instant? (.string i.text) = some i := Instant.ofText?_text i
  have hd (d : Digest) : digest? (.string d.text) = some d := Digest.ofText?_text d
  simp only [headerEntries, List.map_cons, List.map_nil]
  rw [uint64?_ofUInt64, uint64?_ofUInt64, uint64?_ofUInt64, uint64?_ofUInt64, uint64?_ofUInt64,
    uint64?_ofUInt64, uint64?_ofUInt64, uint64?_ofUInt64, ht, ht, hd,
    TotalRewards.ofJson?_toJson, hn]
  rfl

/-- The document of a tree reads back as the tree, where it may have three levels. -/
theorem ofJson?_toJson (t : RewardsTree) (levels : Nat) : ofJson? (levels + 3) t.toJson = some t := by
  have hs : ((headerEntries t.header).all fun e => e.2.sound (levels + 3 - 1)) = true :=
    List.all_eq_true.mpr (sound_headerEntries t.header levels)
  have hu : unique? (headerEntries t.header ++ [nodesEntry t]) nodesKey =
      some (some (nodesEntry t).2) :=
    unique?_of_mem (nodup_keys t) (List.mem_append_right _ (List.mem_singleton.mpr rfl))
  have hm : nodesOf? (some (nodesEntry t).2) = some t.nodeRewards :=
    map?_object Address.ofText?_text NodeRewards.ofJson?_toJson t.nodeRewards
  rw [toJson_eq, ofJson?, filter_entries, hs, hu]
  refine Option.bind_eq_some_iff.mpr ⟨(), if_pos rfl, ?_⟩
  refine Option.bind_eq_some_iff.mpr ⟨_, rfl, ?_⟩
  refine Option.bind_eq_some_iff.mpr ⟨_, hm, ?_⟩
  exact Option.bind_eq_some_iff.mpr ⟨_, headerOf?_entries t, rfl⟩

/-- The file of a tree reads back as the tree. -/
theorem decode?_encode (t : RewardsTree) : decode? t.encode = some t := by
  rw [decode?, encode, read?_render t.plain_toJson, Option.bind_some]
  exact ofJson?_toJson t 124

end RewardsTree

end OracleDuty
