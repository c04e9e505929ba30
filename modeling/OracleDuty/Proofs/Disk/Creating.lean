import Mathlib.Logic.Relation
import OracleDuty.Proofs.Disk.Reading
/-!
Directories that are created with their parents, requests that are cut short, and directories that are
vacant: nothing is in them once they are there.

Main statements: `createDirectories_grows`, `createDirectories_of_directoryAt` and `Vacant.locate_join`.
-/
namespace OracleDuty.Disk

variable {d d' : Disk}

structure Grows (d d' : Disk) : Prop where
  home : d'.home = d.home
  keeps : ∀ place node, d.at? place = some node → d'.at? place = some node
  files : ∀ place content, d'.at? place = some (.file content) → d.at? place = some (.file content)

theorem Grows.refl (d : Disk) : Grows d d := ⟨rfl, fun _ _ h => h, fun _ _ h => h⟩

theorem Grows.trans {d'' : Disk} (h : Grows d d') (h' : Grows d' d'') : Grows d d'' where
  home := h'.home.trans h.home
  keeps place node hn := h'.keeps place node (h.keeps place node hn)
  files place content hc := h.files place content (h'.files place content hc)

/-- A directory put where nothing was leaves all else as it is. -/
theorem put_directory_grows {place' : List String} (h : d.at? place' = none) :
    Grows d (d.put place' .directory) := by
  have hne : place' ≠ [] := ne_nil_of_at? (d := d) (by simp [h])
  constructor
  case home => rfl
  case keeps =>
    intro other node hn
    by_cases ho : other = []
    · subst ho
      exact hn
    · rw [at?_put ho]
      split
      · next hp =>
        rw [at?_of_ne_nil hne, hp, ← at?_of_ne_nil ho, hn] at h
        cases h
      · exact hn
  case files =>
    intro other content hc
    by_cases ho : other = []
    · subst ho
      exact hc
    · rw [at?_put ho] at hc
      split at hc
      · cases hc
      · exact hc

theorem Grows.follow (h : Grows d d') {reversed names place' : List String}
    (hf : d.follow reversed names = .ok place') : d'.follow reversed names = .ok place' := by
  induction names generalizing reversed with
  | nil => exact hf
  | cons name names ih =>
    obtain ⟨hd, hf⟩ := follow_cons.mp hf
    exact follow_cons.mpr ⟨h.keeps _ _ hd, ih hf⟩

theorem Grows.locate (h : Grows d d') {p : Path} {place' : List String}
    (hl : d.locate p = .ok place') : d'.locate p = .ok place' := by
  unfold Disk.locate locateFrom at *
  rw [h.home]
  exact h.follow hl

theorem Grows.read (h : Grows d d') {p : Path} {content : Bytes} (hr : d.read p = .ok content) :
    d'.read p = .ok content := by
  obtain ⟨place', hl, hc⟩ := read_ok.mp hr
  exact read_ok.mpr ⟨place', h.locate hl, h.keeps _ _ hc⟩

/-- A directory that is ensured was there, or is put where there was nothing. -/
theorem ensureDirectory_ok {absolute : Bool} {names : List String}
    (h : d.ensureDirectory absolute names = .ok d') : d' = d ∨
      ∃ place, d.locateFrom absolute names = .ok place ∧ d.at? place = none ∧
        d' = d.put place .directory := by
  unfold ensureDirectory createDirectory at h
  cases hl : d.locateFrom absolute names with
  | error fault =>
    rw [hl] at h
    simp only [bind, Except.bind, isDirectory, hl] at h
    cases h
  | ok place' =>
    rw [hl] at h
    simp only [bind, Except.bind] at h
    cases hn : d.at? place' with
    | none =>
      rw [hn] at h
      cases h
      exact .inr ⟨place', rfl, hn, rfl⟩
    | some node =>
      rw [hn] at h
      simp only at h
      split at h
      · cases h
        exact .inl rfl
      · cases h

theorem ensureDirectory_grows {absolute : Bool} {names : List String}
    (h : d.ensureDirectory absolute names = .ok d') : Grows d d' := by
  rcases ensureDirectory_ok h with rfl | ⟨place', _, hn, rfl⟩
  · exact .refl _
  · exact put_directory_grows hn

/-- The parents come first, and what was created stays even if a later one is refused. -/
theorem createDirectories_grows (absolute : Bool) (reversed : List String) (d : Disk) :
    Grows d (d.createDirectories absolute reversed).1 := by
  -- the parents are created only where the directory itself was refused for want of them
  induction reversed generalizing d with
  | nil => exact .refl d
  | cons name parents ih =>
    rw [createDirectories]
    split
    · next h => exact ensureDirectory_grows h
    · split
      · next g fault h =>
        rw [show g = (d.createDirectories absolute parents).1 by rw [h]]
        exact ih d
      · next g h =>
        have hg : Grows d g := by
          rw [show g = (d.createDirectories absolute parents).1 by rw [h]]
          exact ih d
        split
        · next h' => exact hg.trans (ensureDirectory_grows h')
        · exact hg
    · exact .refl d

structure DirectoryAt (d : Disk) (p : Path) (place : List String) : Prop where
  locate : d.locate p = .ok place
  directory : d.at? place = some .directory

theorem DirectoryAt.same {p : Path} {place' : List String} (h : d.DirectoryAt p place')
    (hd : SameDirectories d d') : d'.DirectoryAt p place' :=
  ⟨(hd.locate p place').mpr h.locate, (hd.at_iff place').mpr h.directory⟩

/-- A directory that is there is not created, and neither are its parents. -/
theorem createDirectories_of_directoryAt {p : Path} {place' : List String}
    (h : d.DirectoryAt p place') {parents : List String} (hp : parents <:+ p.names.reverse) :
    d.createDirectories p.isAbsolute parents = (d, .ok ()) := by
  cases parents with
  | nil => rfl
  | cons name parents =>
    obtain ⟨rest, hrest⟩ := hp
    have hnames : p.names = (name :: parents).reverse ++ rest.reverse := by
      rw [← List.reverse_append, hrest, List.reverse_reverse]
    have hl := h.locate
    unfold locate locateFrom at hl
    rw [hnames, follow_append] at hl
    obtain ⟨middle, hfront, hback⟩ := hl
    -- a place on the way to a directory is one, and so is the place at its end
    have hmiddle : d.at? middle = some .directory := by
      cases hr : rest.reverse with
      | nil =>
        rw [hr] at hback
        cases hback
        exact h.directory
      | cons n ns =>
        rw [hr] at hback
        exact (follow_cons.mp hback).1
    have hloc : d.locateFrom p.isAbsolute (name :: parents).reverse = .ok middle := hfront
    have hensure : d.ensureDirectory p.isAbsolute (name :: parents).reverse = .ok d := by
      unfold ensureDirectory createDirectory isDirectory
      simp only [hloc, bind, Except.bind, hmiddle, beq_self_eq_true, if_true]
    rw [createDirectories, hensure]

/-! ### Requests that are cut short -/

/-- What is on a disk after a request that was refused, or was cut short at any point: nothing may have been
done, or all of it, or a file may be written in part, or a directory may lack its last names. -/
inductive Leaves (d : Disk) : Request → Disk → Prop where
  | untouched (q : Request) : Leaves d q d
  | carriedOut (q : Request) : Leaves d q (d.perform q).2
  | partWritten {p : Path} {content kept : Bytes} (h : kept <+: content) :
    Leaves d (.write p content) (d.perform (.write p kept)).2
  | partCreated {p : Path} {parents : List String} (h : parents <:+ p.names.reverse) :
    Leaves d (.createDirectories p) (d.createDirectories p.isAbsolute parents).1

theorem change_ok {r : Except Fault Disk} {u : Unit} (h : d.change r = (.ok u, d')) : r = .ok d' := by
  cases r with
  | ok g =>
    cases h
    rfl
  | error fault => nomatch h

theorem perform_write (d : Disk) (p : Path) (content : Bytes) :
    (∃ d', d.write p content = .ok d' ∧ d.perform (.write p content) = (.ok (), d')) ∨
      ∃ fault, d.perform (.write p content) = (.error fault, d) := by
  cases h : d.write p content with
  | ok d' => exact .inl ⟨d', rfl, by simp [perform, change, h]⟩
  | error fault => exact .inr ⟨fault, by simp [perform, change, h]⟩

theorem perform_rename (d : Disk) (source target : Path) :
    (∃ d', d.rename source target = .ok d' ∧ d.perform (.rename source target) = (.ok (), d')) ∨
      ∃ fault, d.perform (.rename source target) = (.error fault, d) := by
  cases h : d.rename source target with
  | ok d' => exact .inl ⟨d', rfl, by simp [perform, change, h]⟩
  | error fault => exact .inr ⟨fault, by simp [perform, change, h]⟩

/-- However the writing of a file is cut short, either nothing was done or some bytes were written. -/
theorem Leaves.write {p : Path} {content : Bytes} (h : d.Leaves (.write p content) d') :
    d' = d ∨ ∃ kept, d.write p kept = .ok d' := by
  cases h with
  | untouched => exact .inl rfl
  | carriedOut =>
    rcases perform_write d p content with ⟨g, hg, h⟩ | ⟨fault, h⟩
    · exact .inr ⟨content, by rw [h]; exact hg⟩
    · exact .inl (by rw [h])
  | @partWritten _ _ kept _ =>
    rcases perform_write d p kept with ⟨g, hg, h⟩ | ⟨fault, h⟩
    · exact .inr ⟨kept, by rw [h]; exact hg⟩
    · exact .inl (by rw [h])

theorem Leaves.rename {source target : Path} (h : d.Leaves (.rename source target) d') :
    d' = d ∨ d.rename source target = .ok d' := by
  cases h with
  | untouched => exact .inl rfl
  | carriedOut =>
    rcases perform_rename d source target with ⟨g, hg, h⟩ | ⟨fault, h⟩
    · exact .inr (by rw [h]; exact hg)
    · exact .inl (by rw [h])

theorem Leaves.createDirectories {p : Path} (h : d.Leaves (.createDirectories p) d') :
    ∃ parents, parents <:+ p.names.reverse ∧ d' = (d.createDirectories p.isAbsolute parents).1 := by
  cases h with
  | untouched => exact ⟨[], List.nil_suffix, rfl⟩
  | carriedOut => exact ⟨p.names.reverse, List.suffix_rfl, rfl⟩
  | partCreated h => exact ⟨_, h, rfl⟩

theorem Leaves.read {p : Path} (h : d.Leaves (.read p) d') : d' = d := by
  cases h <;> rfl

/-! ### Vacant directories -/

def Creates (p : Path) (d d' : Disk) : Prop :=
  ∃ parents, parents <:+ p.names.reverse ∧ d' = (d.createDirectories p.isAbsolute parents).1

/-- However much of the path is created, nothing is in its directory once that is there. -/
def Vacant (d : Disk) (p : Path) : Prop :=
  ∀ g, Relation.ReflTransGen (Creates p) d g →
    ∀ place, g.DirectoryAt p place → ∀ name, g.at? (name :: place) = none

theorem Vacant.creates {p : Path} (h : d.Vacant p) (hc : Creates p d d') : d'.Vacant p :=
  fun g hg => h g (hg.head hc)

/-- A directory that is there and has nothing in it is vacant. -/
theorem vacant_of_directoryAt {p : Path} {place' : List String} (h : d.DirectoryAt p place')
    (hempty : ∀ name, d.at? (name :: place') = none) : d.Vacant p := by
  intro g hg
  -- nothing is left to create
  have hsame : g = d := by
    induction hg with
    | refl => rfl
    | tail _ hc ih =>
      obtain ⟨parents, hp, rfl⟩ := hc
      rw [ih, createDirectories_of_directoryAt h hp]
  subst hsame
  intro place'' hd name
  cases h.locate.symm.trans hd.locate
  exact hempty name

theorem locate_join {dir : Path} {name : String} (h : name.toList.head? ≠ some '/')
    {place' : List String} : d.locate (Path.join dir name) = .ok place' ↔
      ∃ parent, d.locate dir = .ok parent ∧ d.follow parent (Path.names name) = .ok place' := by
  unfold locate locateFrom
  rw [Path.names_join, Path.isAbsolute_join dir h, follow_append]

/-- In a vacant directory only places directly below it can be reached, and nothing is there. -/
theorem Vacant.locate_join {dir : Path} (hv : d.Vacant dir) {name first : String} {rest : List String}
    (h : name.toList.head? ≠ some '/') (hn : Path.names name = first :: rest) (hhere : first ≠ ".")
    (habove : first ≠ "..") {place' : List String}
    (hl : d.locate (Path.join dir name) = .ok place') :
    rest = [] ∧ ∃ parent, d.DirectoryAt dir parent ∧ place' = first :: parent ∧
      d.at? place' = none := by
  obtain ⟨parent, hp, hf⟩ := (Disk.locate_join h).mp hl
  rw [hn, follow_cons, enter, if_neg hhere, if_neg habove] at hf
  have hdir : d.DirectoryAt dir parent := ⟨hp, hf.1⟩
  have hnone := hv d .refl parent hdir first
  cases rest with
  | nil =>
    cases hf.2
    exact ⟨rfl, parent, hdir, rfl, hnone⟩
  | cons second rest =>
    -- a second name would be looked up in a directory that is not there
    have hd := (follow_cons.mp hf.2).1
    rw [hnone] at hd
    cases hd

end OracleDuty.Disk
