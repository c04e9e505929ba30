import OracleDuty.Proofs.Keccak
/-!
The hash on rows of lanes. Rows are lists, which evaluate in the kernel where vectors do not get far, so that the
hash of a short message can be proved to be what it is.

Main statement: `Keccak.hash_eq_rows`.
-/
namespace OracleDuty.Keccak

variable {x y : Nat} {message block : Bytes}

abbrev Rows := List (List UInt64)

namespace Rows

def lane (s : Rows) (x y : Nat) : UInt64 := (s.getD (y % 5) []).getD (x % 5) 0

def tabulate (f : (x y : Nat) → UInt64) : Rows :=
  (List.range 5).map fun y => (List.range 5).map fun x => f x y

def offsets : Rows :=
  [[0, 1, 62, 28, 27], [36, 44, 6, 55, 20], [3, 10, 43, 25, 39], [41, 45, 15, 21, 8], [18, 2, 61, 56, 14]]

def column (s : Rows) (x : Nat) : UInt64 :=
  lane s x 0 ^^^ lane s x 1 ^^^ lane s x 2 ^^^ lane s x 3 ^^^ lane s x 4

def theta (s : Rows) : Rows :=
  let c := (List.range 5).map (column s)
  let d := (List.range 5).map fun x => c.getD ((x + 4) % 5) 0 ^^^ rotateLeft (c.getD ((x + 1) % 5) 0) 1
  tabulate fun x y => lane s x y ^^^ d.getD (x % 5) 0

def rhoPi (s : Rows) : Rows :=
  tabulate fun x y => rotateLeft (lane s ((x + 3 * y) % 5) x) (lane offsets ((x + 3 * y) % 5) x)

def chi (s : Rows) : Rows :=
  tabulate fun x y => lane s x y ^^^ (~~~ lane s (x + 1) y &&& lane s (x + 2) y)

def iota (constant : UInt64) : Rows → Rows
  | (a :: row) :: rest => ((a ^^^ constant) :: row) :: rest
  | s => s

def permute (s : Rows) : Rows := constants.foldl (fun s c => iota c (chi (rhoPi (theta s)))) s

def absorbBlock (s : Rows) (block : Bytes) : Rows :=
  let words := (List.range 17).map fun i => littleEndian ((block.drop (8 * i)).take 8)
  permute (tabulate fun x y => lane s x y ^^^ words[x + 5 * y]?.getD 0)

def hash (message : Bytes) : Bytes :=
  (((absorbBlock (tabulate fun _ _ => 0) (pad message)).headD []).take 4).flatMap laneBytes

theorem getD_map_range {α : Type} {f : Nat → α} {d : α} {n i : Nat} (h : i < n) :
    ((List.range n).map f).getD i d = f i := by
  rw [List.getD_eq_getElem?_getD, List.getElem?_map, List.getElem?_range h]
  rfl

theorem lane_tabulate (f : Nat → Nat → UInt64) (x y : Nat) :
    lane (tabulate f) x y = f (x % 5) (y % 5) := by
  rw [lane, tabulate, getD_map_range (Nat.mod_lt y (by decide)), getD_map_range (Nat.mod_lt x (by decide))]

theorem tabulate_congr {f g : Nat → Nat → UInt64} (h : ∀ x < 5, ∀ y < 5, f x y = g x y) :
    tabulate f = tabulate g := by
  refine List.map_congr_left fun y hy => List.map_congr_left fun x hx => ?_
  exact h x (List.mem_range.mp hx) y (List.mem_range.mp hy)

end Rows

/-! ### Lanes and their rows -/

theorem lane_mod (s : Lanes) (x y : Nat) : lane s (x % 5) (y % 5) = lane s x y := by
  simp only [lane, Nat.mod_mod]

theorem lane_ofFn (f : Nat → UInt64) (x y : Nat) :
    lane (Vector.ofFn fun i => f i.val) x y = f (x % 5 + 5 * (y % 5)) := by
  rw [lane, Vector.getElem_ofFn]

theorem lane_tabulate (f : Nat → Nat → UInt64) (x y : Nat) : lane (tabulate f) x y = f (x % 5) (y % 5) := by
  have hmod : (x % 5 + 5 * (y % 5)) % 5 = x % 5 := by omega
  have hdiv : (x % 5 + 5 * (y % 5)) / 5 = y % 5 := by omega
  rw [tabulate, lane_ofFn fun i => f (i % 5) (i / 5), hmod, hdiv]

theorem entry_ofFn (f : Nat → UInt64) (x : Nat) : entry (Vector.ofFn fun i => f i.val) x = f (x % 5) := by
  rw [entry, Vector.getElem_ofFn]

def rows (s : Lanes) : Rows := Rows.tabulate (lane s)

@[simp] theorem lane_rows (s : Lanes) (x y : Nat) : (rows s).lane x y = lane s x y := by
  rw [rows, Rows.lane_tabulate, lane_mod]

theorem rows_tabulate (f : Nat → Nat → UInt64) : rows (tabulate f) = Rows.tabulate f := by
  refine Rows.tabulate_congr fun x hx y hy => ?_
  rw [lane_tabulate, Nat.mod_eq_of_lt hx, Nat.mod_eq_of_lt hy]

theorem rows_offsets : rows offsets = Rows.offsets := by decide

theorem column_rows (s : Lanes) : (rows s).column = column s := by
  funext x
  simp only [Rows.column, column, lane_rows]

theorem rows_theta (s : Lanes) : rows (theta s) = (rows s).theta := by
  have hmod : ∀ k, k % 5 < 5 := fun k => Nat.mod_lt k (by decide)
  rw [theta, rows_tabulate, Rows.theta]
  refine Rows.tabulate_congr fun x _ y _ => ?_
  simp only [entry_ofFn (column s), Rows.getD_map_range (hmod _), column_rows, lane_rows]
  rw [entry_ofFn fun x => column s ((x + 4) % 5) ^^^ rotateLeft (column s ((x + 1) % 5)) 1]

theorem rows_rhoPi (s : Lanes) : rows (rhoPi s) = (rows s).rhoPi := by
  rw [rhoPi, rows_tabulate, Rows.rhoPi, ← rows_offsets]
  simp only [lane_rows]

theorem rows_chi (s : Lanes) : rows (chi s) = (rows s).chi := by
  rw [chi, rows_tabulate, Rows.chi]
  simp only [lane_rows]

theorem lane_iota (c : UInt64) (s : Lanes) (x y : Nat) :
    lane (iota c s) x y = if x % 5 + 5 * (y % 5) = 0 then lane s 0 0 ^^^ c else lane s x y := by
  rw [lane, iota, Vector.getElem_set]
  simp only [eq_comm, lane]

theorem rows_iota (c : UInt64) (s : Lanes) : rows (iota c s) = (rows s).iota c := by
  simp only [rows, Rows.tabulate, List.range_succ, lane_iota]
  rfl

/-- The permutation goes on alike on lanes and on their rows, round by round. -/
theorem rows_permute (s : Lanes) : rows (permute s) = (rows s).permute := by
  rw [permute, Rows.permute]
  generalize constants = cs
  induction cs generalizing s with
  | nil => rfl
  | cons c cs ih => rw [List.foldl_cons, List.foldl_cons, ih, rows_iota, rows_chi, rows_rhoPi, rows_theta]

theorem rows_absorbBlock (s : Lanes) (block : Bytes) :
    rows (absorbBlock s block) = (rows s).absorbBlock block := by
  rw [absorbBlock, rows_permute, Rows.absorbBlock]
  refine congrArg Rows.permute (Rows.tabulate_congr fun x hx y hy => ?_)
  rw [lane_rows, lane, Vector.getElem_ofFn]
  simp only [Nat.mod_eq_of_lt hx, Nat.mod_eq_of_lt hy, lane]
  rfl

/-! ### Short messages -/

theorem length_pad (h : message.length < rate) : (pad message).length = rate := by
  have hmissing : rate - message.length % rate = rate - message.length := by rw [Nat.mod_eq_of_lt h]
  simp only [pad, hmissing]
  split
  · rw [List.length_append, List.length_singleton]
    omega
  · simp only [List.length_append, List.length_replicate, List.length_singleton]
    omega

/-- One block is absorbed at once. -/
theorem absorb_of_length (s : Lanes) (h : block.length = rate) : absorb s block = absorbBlock s block := by
  cases block with
  | nil => nomatch h
  | cons b rest =>
    have hrest : rest.drop (rate - 1) = [] := List.drop_eq_nil_of_le (by rw [← h]; exact Nat.le_refl _)
    rw [absorb, hrest, absorb, List.take_of_length_le (Nat.le_of_eq h)]

theorem take_toList (s : Lanes) : s.toList.take 4 = ((rows s).headD []).take 4 := by
  have hrow : ((rows s).headD []).take 4 = (List.range 4).map fun x => lane s x 0 := rfl
  rw [hrow]
  refine List.ext_getElem (length_take_toList s) fun i hi _ => ?_
  have hlt : i < 4 := length_take_toList s ▸ hi
  have hmod : i % 5 = i := Nat.mod_eq_of_lt (by omega)
  simp only [List.getElem_take, Vector.getElem_toList, List.getElem_map, List.getElem_range, lane, hmod,
    Nat.zero_mod, Nat.mul_zero, Nat.add_zero]

/-- A message that is shorter than a block is padded to one block. -/
theorem hash_eq_rows (h : message.length < rate) : hash message = Rows.hash message := by
  have hzero : rows (Vector.replicate 25 0) = Rows.tabulate fun _ _ => 0 := by
    refine Rows.tabulate_congr fun x _ y _ => ?_
    rw [lane, Vector.getElem_replicate]
  rw [hash, absorb_of_length _ (length_pad h), take_toList, rows_absorbBlock, hzero, Rows.hash]

end OracleDuty.Keccak
