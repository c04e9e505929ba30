import OracleDuty.Proofs.Disk.Names
import OracleDuty.Proofs.OrderedMap
/-!
What is read from a disk after it was changed.

Main statements: `read_write`, `read_rename` and their frame forms `read_write_of_apart` and
`read_rename_of_apart`; all rest on the fact that files that are written or moved leave the directories as
they are.
-/
namespace OracleDuty.Disk

structure SameDirectories (d d' : Disk) : Prop where
  home : d'.home = d.home
  at_iff : ∀ place, d'.at? place = some .directory ↔ d.at? place = some .directory

variable {d d' : Disk}

def enter (reversed : List String) (name : String) : List String :=
  if name = "." then reversed else if name = ".." then reversed.tail else name :: reversed

/-- A name leads on from a directory only. -/
theorem follow_cons {reversed names place : List String} {name : String} :
    d.follow reversed (name :: names) = .ok place ↔
      d.at? reversed = some .directory ∧ d.follow (enter reversed name) names = .ok place := by
  rw [follow, enter]
  split
  · simp_all
  · simp_all
  · next h =>
    rw [h]
    split
    · simp
    · split <;> simp

theorem SameDirectories.follow (h : SameDirectories d d') (reversed names place : List String) :
    d'.follow reversed names = .ok place ↔ d.follow reversed names = .ok place := by
  induction names generalizing reversed with
  | nil => simp [Disk.follow]
  | cons name names ih =>
    rw [follow_cons, follow_cons, h.at_iff, ih]

theorem SameDirectories.locate (h : SameDirectories d d') (p : Path) (place : List String) :
    d'.locate p = .ok place ↔ d.locate p = .ok place := by
  unfold Disk.locate locateFrom
  rw [h.home]
  exact h.follow _ _ _

/-- A path may be followed up to any directory on it, and from there on. -/
theorem follow_append (reversed front back place : List String) :
    d.follow reversed (front ++ back) = .ok place ↔
      ∃ middle, d.follow reversed front = .ok middle ∧ d.follow middle back = .ok place := by
  induction front generalizing reversed with
  | nil => simp [Disk.follow]
  | cons name names ih =>
    rw [List.cons_append, follow_cons, ih]
    constructor
    · rintro ⟨hd, middle, hfront, hback⟩
      exact ⟨middle, follow_cons.mpr ⟨hd, hfront⟩, hback⟩
    · rintro ⟨middle, hfront, hback⟩
      obtain ⟨hd, hfront⟩ := follow_cons.mp hfront
      exact ⟨hd, middle, hfront, hback⟩

/-- A path that ends with a name of its own leads to a place of that name, in a directory. -/
theorem locate_endsAt {p : Path} {name : String} (hp : p.EndsAt name) {place : List String}
    (h : d.locate p = .ok place) :
    ∃ parent, place = name :: parent ∧ d.at? parent = some .directory := by
  obtain ⟨front, hf⟩ := hp.names
  unfold locate locateFrom at h
  rw [hf, follow_append] at h
  obtain ⟨parent, _, h⟩ := h
  obtain ⟨hd, h⟩ := follow_cons.mp h
  rw [enter, if_neg hp.ne_here, if_neg hp.ne_above] at h
  cases h
  exact ⟨parent, rfl, hd⟩

/-! ### Places -/

/-- The last piece of a place is the name that was entered last, so that places with different last names
differ. -/
theorem pieces_place {name : String} (h : '/' ∉ name.toList) (parent : List String) :
    ∃ front, Path.pieces (place (name :: parent)).toList = front ++ [name.toList] := by
  rw [place, List.reverse_cons]
  by_cases hp : parent.reverse = []
  · rw [hp, List.nil_append, String.intercalate_singleton]
    exact ⟨[], Path.pieces_of_not_mem h⟩
  · rw [String.intercalate_append_of_ne_nil hp (List.cons_ne_nil _ _), String.intercalate_singleton,
      String.toList_append, String.toList_append, List.append_assoc]
    refine ⟨Path.pieces ("/".intercalate parent.reverse).toList, ?_⟩
    rw [← Path.pieces_of_not_mem h]
    exact Path.pieces_append_slash _ _

theorem place_ne {a b : String} (ha : '/' ∉ a.toList) (hb : '/' ∉ b.toList) (hne : a ≠ b)
    (front back : List String) : place (a :: front) ≠ place (b :: back) := by
  intro h
  obtain ⟨f, hf⟩ := pieces_place ha front
  obtain ⟨g, hg⟩ := pieces_place hb back
  rw [h, hg] at hf
  exact hne (String.toList_inj.mp (List.singleton_inj.mp (List.append_inj_right' hf.symm rfl)))

theorem at?_of_ne_nil {place' : List String} (h : place' ≠ []) :
    d.at? place' = d.nodes.get? (place place') := by
  cases place' with
  | nil => exact absurd rfl h
  | cons name rest => rfl

theorem at?_put {place' : List String} {node : Node} {other : List String} (h : other ≠ []) :
    (d.put place' node).at? other =
      if place place' = place other then some node else d.at? other := by
  rw [at?_of_ne_nil h, at?_of_ne_nil h]
  exact OrderedMap.get?_insert ..

theorem at?_drop {place' other : List String} (h : other ≠ []) :
    (d.drop place').at? other = if place place' = place other then none else d.at? other := by
  rw [at?_of_ne_nil h, at?_of_ne_nil h]
  exact OrderedMap.get?_erase ..

theorem ne_nil_of_at? {place' : List String} (h : d.at? place' ≠ some .directory) : place' ≠ [] := by
  rintro rfl
  exact h rfl

/-- A change at a place that holds no directory, to something that is none, leaves the directories. -/
theorem sameDirectories_of {d' : Disk} {place' : List String} (hhome : d'.home = d.home)
    (hold : d.at? place' ≠ some .directory) (hnew : d'.at? place' ≠ some .directory)
    (hother : ∀ other, other ≠ [] → place place' ≠ place other → d'.at? other = d.at? other) :
    SameDirectories d d' where
  home := hhome
  at_iff other := by
    by_cases hn : other = []
    · subst hn
      exact ⟨fun _ => rfl, fun _ => rfl⟩
    by_cases hp : place place' = place other
    · have hcongr : ∀ e : Disk, e.at? other = e.at? place' := fun e => by
        rw [at?_of_ne_nil hn, at?_of_ne_nil (ne_nil_of_at? hold), hp]
      rw [hcongr, hcongr]
      exact ⟨fun h => absurd h hnew, fun h => absurd h hold⟩
    · rw [hother other hn hp]

theorem put_sameDirectories {place' : List String} {content : Bytes}
    (h : d.at? place' ≠ some .directory) : SameDirectories d (d.put place' (.file content)) := by
  refine sameDirectories_of rfl h ?_ ?_
  · rw [at?_put (ne_nil_of_at? h), if_pos rfl]
    simp
  · intro other ho hp
    rw [at?_put ho, if_neg hp]

theorem drop_sameDirectories {place' : List String} (h : d.at? place' ≠ some .directory) :
    SameDirectories d (d.drop place') := by
  refine sameDirectories_of rfl h ?_ ?_
  · rw [at?_drop (ne_nil_of_at? h), if_pos rfl]
    simp
  · intro other ho hp
    rw [at?_drop ho, if_neg hp]

theorem SameDirectories.trans {d'' : Disk} (h : SameDirectories d d') (h' : SameDirectories d' d'') :
    SameDirectories d d'' where
  home := h'.home.trans h.home
  at_iff other := (h'.at_iff other).trans (h.at_iff other)

/-! ### Reading -/

theorem read_ok {p : Path} {content : Bytes} :
    d.read p = .ok content ↔ ∃ place, d.locate p = .ok place ∧ d.at? place = some (.file content) := by
  unfold read
  cases hl : d.locate p with
  | error fault => simp [bind, Except.bind]
  | ok place =>
    simp only [bind, Except.bind, Except.ok.injEq, exists_eq_left']
    split <;> simp_all

/-- A file can be written wherever its directory is there, unless it is a directory itself. -/
theorem write_ok {p : Path} {content : Bytes} :
    d.write p content = .ok d' ↔ ∃ place, d.locate p = .ok place ∧ d.at? place ≠ some .directory ∧
      d' = d.put place (.file content) := by
  unfold write
  cases hl : d.locate p with
  | error fault => simp [bind, Except.bind]
  | ok place =>
    simp only [bind, Except.bind, Except.ok.injEq, exists_eq_left']
    split
    · next h => simp [h]
    · next h => exact ⟨fun e => ⟨h, (Except.ok.inj e).symm⟩, fun e => congrArg _ e.2.symm⟩

/-- A move needs a file to be moved, and replaces what is no directory. -/
theorem rename_ok {source target : Path} :
    d.rename source target = .ok d' ↔ ∃ old new content, d.locate source = .ok old ∧
      d.locate target = .ok new ∧ d.at? old = some (.file content) ∧ d.at? new ≠ some .directory ∧
      d' = (d.drop old).put new (.file content) := by
  unfold rename
  constructor
  · intro h
    cases ho : d.locate source with
    | error fault =>
      rw [ho] at h
      cases h
    | ok old =>
      cases hn : d.locate target with
      | error fault =>
        rw [ho, hn] at h
        cases h
      | ok new =>
        rw [ho, hn] at h
        simp only [bind, Except.bind] at h
        split at h
        · cases h
        · cases h
        · cases h
        · next hold hnew =>
          cases h
          exact ⟨old, new, _, rfl, rfl, hold, hnew, rfl⟩
  · rintro ⟨old, new, content, ho, hn, hold, hnew, rfl⟩
    rw [ho, hn]
    simp only [bind, Except.bind, hold]

theorem read_write {p : Path} {content : Bytes} (h : d.write p content = .ok d') :
    d'.read p = .ok content := by
  obtain ⟨place', hl, hd, rfl⟩ := write_ok.mp h
  refine read_ok.mpr ⟨place', ((put_sameDirectories hd).locate _ _).mpr hl, ?_⟩
  rw [at?_put (ne_nil_of_at? hd), if_pos rfl]

theorem write_sameDirectories {p : Path} {content : Bytes} (h : d.write p content = .ok d') :
    SameDirectories d d' := by
  obtain ⟨place', _, hd, rfl⟩ := write_ok.mp h
  exact put_sameDirectories hd

theorem rename_sameDirectories {source target : Path} (h : d.rename source target = .ok d') :
    SameDirectories d d' := by
  obtain ⟨old, new, content, _, _, hold, hnew, rfl⟩ := rename_ok.mp h
  have hdrop : SameDirectories d (d.drop old) := drop_sameDirectories (by simp [hold])
  exact hdrop.trans (put_sameDirectories fun h => hnew ((hdrop.at_iff new).mp h))

/-- What a path reads depends on the directories and on the entries of its last name. -/
theorem read_congr {p : Path} {name : String} (hp : p.EndsAt name) (hd : SameDirectories d d')
    (h : ∀ parent, d'.at? (name :: parent) = d.at? (name :: parent)) (content : Bytes) :
    d'.read p = .ok content ↔ d.read p = .ok content := by
  rw [read_ok, read_ok]
  -- the path leads to the same place, and there is its name
  refine exists_congr fun place' => ?_
  rw [hd.locate]
  refine and_congr_right fun hl => ?_
  obtain ⟨parent, rfl, _⟩ := locate_endsAt hp hl
  rw [h]

/-- Writing a file changes no file of another name. -/
theorem read_write_of_apart {p other : Path} {content : Bytes} (hp : p.Apart other)
    (h : d.write p content = .ok d') (found : Bytes) :
    d'.read other = .ok found ↔ d.read other = .ok found := by
  obtain ⟨a, b, hp, ho, hne⟩ := hp
  refine read_congr ho (write_sameDirectories h) (fun parent => ?_) found
  obtain ⟨place', hl, hd, rfl⟩ := write_ok.mp h
  obtain ⟨front, rfl, _⟩ := locate_endsAt hp hl
  -- the file that is written has another name
  have hplace : place (a :: front) ≠ place (b :: parent) :=
    place_ne hp.slash_not_mem ho.slash_not_mem hne front parent
  rw [at?_put (List.cons_ne_nil _ _), if_neg hplace]

/-- A file that was moved is read where it was moved to, as it was read before. -/
theorem read_rename {source target : Path} (h : d.rename source target = .ok d') (content : Bytes) :
    d'.read target = .ok content ↔ d.read source = .ok content := by
  have hd := rename_sameDirectories h
  obtain ⟨old, new, content', ho, hn, hold, hnew, rfl⟩ := rename_ok.mp h
  have hread : ((d.drop old).put new (.file content')).at? new = some (.file content') := by
    rw [at?_put (ne_nil_of_at? hnew), if_pos rfl]
  rw [read_ok, read_ok]
  constructor
  · rintro ⟨place', hl, hat⟩
    rw [hd.locate, hn] at hl
    cases hl
    rw [hread] at hat
    cases hat
    exact ⟨old, ho, hold⟩
  · rintro ⟨place', hl, hat⟩
    rw [ho] at hl
    cases hl
    rw [hold] at hat
    cases hat
    exact ⟨new, (hd.locate _ _).mpr hn, hread⟩

/-- A file that was moved is no longer where it was moved from. -/
theorem read_rename_source {source target : Path} (hp : target.Apart source)
    (h : d.rename source target = .ok d') : d'.read source = .error .notFound := by
  have hd := rename_sameDirectories h
  obtain ⟨a, b, ht, hs, hne⟩ := hp
  obtain ⟨old, new, moved, hlo, hln, hold, hnew, rfl⟩ := rename_ok.mp h
  have hl := (hd.locate source old).mpr hlo
  obtain ⟨front, rfl, _⟩ := locate_endsAt hs hlo
  obtain ⟨back, rfl, _⟩ := locate_endsAt ht hln
  have hplace : place (a :: back) ≠ place (b :: front) :=
    place_ne ht.slash_not_mem hs.slash_not_mem hne back front
  -- so what is there is what the drop has left
  have hnone : ((d.drop (b :: front)).put (a :: back) (.file moved)).at? (b :: front) = none := by
    rw [at?_put (List.cons_ne_nil _ _), if_neg hplace, at?_drop (List.cons_ne_nil _ _), if_pos rfl]
  rw [read, hl]
  simp only [bind, Except.bind, hnone]

/-- A move changes no file of a third name. -/
theorem read_rename_of_apart {source target other : Path} (hs : source.Apart other)
    (ht : target.Apart other) (h : d.rename source target = .ok d') (content : Bytes) :
    d'.read other = .ok content ↔ d.read other = .ok content := by
  obtain ⟨a, c, hs, ho, ha⟩ := hs
  obtain ⟨b, c', ht, ho', hb⟩ := ht
  cases ho.unique ho'
  refine read_congr ho (rename_sameDirectories h) (fun parent => ?_) content
  obtain ⟨old, new, content', hlo, hln, _, _, rfl⟩ := rename_ok.mp h
  obtain ⟨front, rfl, _⟩ := locate_endsAt hs hlo
  obtain ⟨back, rfl, _⟩ := locate_endsAt ht hln
  have hput : place (b :: back) ≠ place (c :: parent) :=
    place_ne ht.slash_not_mem ho.slash_not_mem hb back parent
  have hdrop : place (a :: front) ≠ place (c :: parent) :=
    place_ne hs.slash_not_mem ho.slash_not_mem ha front parent
  rw [at?_put (List.cons_ne_nil _ _), if_neg hput, at?_drop (List.cons_ne_nil _ _), if_neg hdrop]

end OracleDuty.Disk
