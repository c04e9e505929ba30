import OracleDuty.Proofs.Disk.Creating
/-!
Changes of a disk that are confined to the files of some paths, and to directories that come to be on the
way to one of them. Nodes are told by the keys of their places.

Main statements: `Confined.trans`, `createDirectories_confined`, `write_confined` and `rename_confined`;
`Confined.file?_eq` and `Confined.sameFile` say what such changes leave as it was.
-/
namespace OracleDuty.Disk

variable {d d' d'' : Disk} {directory p q : Path} {files : Path → Prop} {key : String}

def file? (d : Disk) (key : String) : Option Bytes :=
  match d.nodes.get? key with
  | some (.file content) => some content
  | _ => none

def LeadsTo (d : Disk) (p : Path) (key : String) : Prop :=
  ∃ reversed, d.locate p = .ok reversed ∧ place reversed = key

def OnTheWay (d : Disk) (p : Path) (key : String) : Prop :=
  ∃ front reversed, front <+: p.names ∧ d.locateFrom p.isAbsolute front = .ok reversed ∧
    place reversed = key

/-- Between two disks only files at some paths differ, and directories on the way to `directory` that have
come to be where there was nothing. -/
structure Confined (directory : Path) (files : Path → Prop) (d d' : Disk) : Prop where
  home : d'.home = d.home
  directories : ∀ key, d.nodes.get? key = some .directory → d'.nodes.get? key = some .directory
  others : ∀ key, (∀ p, files p → ¬ d'.LeadsTo p key) → d'.nodes.get? key = d.nodes.get? key ∨
    d.nodes.get? key = none ∧ d'.nodes.get? key = some .directory ∧ d'.OnTheWay directory key

namespace Confined

theorem refl (directory : Path) (files : Path → Prop) (d : Disk) : Confined directory files d d where
  home := rfl
  directories _ h := h
  others _ _ := .inl rfl

theorem at? (h : Confined directory files d d') {reversed : List String}
    (hd : d.at? reversed = some .directory) : d'.at? reversed = some .directory := by
  cases reversed with
  | nil => rfl
  | cons name parent => exact h.directories _ hd

theorem follow (h : Confined directory files d d') {reversed names found : List String}
    (hf : d.follow reversed names = .ok found) : d'.follow reversed names = .ok found := by
  induction names generalizing reversed with
  | nil => exact hf
  | cons name names ih =>
    obtain ⟨hd, hf⟩ := follow_cons.mp hf
    exact follow_cons.mpr ⟨h.at? hd, ih hf⟩

/-- A way that could be gone can be gone still. -/
theorem locateFrom (h : Confined directory files d d') {absolute : Bool} {names found : List String}
    (hl : d.locateFrom absolute names = .ok found) : d'.locateFrom absolute names = .ok found := by
  unfold Disk.locateFrom at *
  rw [h.home]
  exact h.follow hl

theorem leadsTo (h : Confined directory files d d') (hp : d.LeadsTo p key) : d'.LeadsTo p key := by
  obtain ⟨reversed, hl, hk⟩ := hp
  exact ⟨reversed, h.locateFrom hl, hk⟩

theorem onTheWay (h : Confined directory files d d') (hp : d.OnTheWay p key) : d'.OnTheWay p key := by
  obtain ⟨front, reversed, hf, hl, hk⟩ := hp
  exact ⟨front, reversed, hf, h.locateFrom hl, hk⟩

theorem mono (h : Confined directory files d d') {files' : Path → Prop} (hf : ∀ p, files p → files' p) :
    Confined directory files' d d' where
  home := h.home
  directories := h.directories
  others key hn := h.others key fun p hp => hn p (hf p hp)

/-- What is confined twice is confined: this is how the requests of a course are put together. -/
theorem trans (h : Confined directory files d d') (h' : Confined directory files d' d'') :
    Confined directory files d d'' where
  home := h'.home.trans h.home
  directories key hd := h'.directories key (h.directories key hd)
  others key hn := by
    -- what a path leads to after the first change it leads to after both
    have hn' : ∀ p, files p → ¬ d'.LeadsTo p key := fun p hp hl => hn p hp (h'.leadsTo hl)
    rcases h.others key hn' with he | ⟨hnone, hnew, hway⟩
    · rcases h'.others key hn with he' | ⟨hnone', hnew', hway'⟩
      · exact .inl (he'.trans he)
      · exact .inr ⟨he.symm.trans hnone', hnew', hway'⟩
    · exact .inr ⟨hnone, h'.directories key hnew, h'.onTheWay hway⟩

end Confined

/-! ### What is left as it was -/

theorem LeadsTo.of_apart (h : p.Apart q) (hp : d.LeadsTo p key) : ¬ d.LeadsTo q key := by
  rintro ⟨found, hq, hk⟩
  obtain ⟨found', hl, hk'⟩ := hp
  obtain ⟨a, b, ha, hb, hne⟩ := h
  obtain ⟨front, rfl, _⟩ := locate_endsAt ha hl
  obtain ⟨back, rfl, _⟩ := locate_endsAt hb hq
  exact place_ne ha.slash_not_mem hb.slash_not_mem hne front back (hk'.trans hk.symm)

/-- A path that ends with a name of its own is read where it leads to. -/
theorem read_ok_iff {name : String} (hp : p.EndsAt name) {content : Bytes} :
    d.read p = .ok content ↔ ∃ key, d.LeadsTo p key ∧ d.file? key = some content := by
  rw [read_ok]
  constructor
  · rintro ⟨found, hl, hat⟩
    obtain ⟨parent, rfl, _⟩ := locate_endsAt hp hl
    have hget : d.nodes.get? (place (name :: parent)) = some (.file content) := hat
    exact ⟨_, ⟨_, hl, rfl⟩, by simp only [file?, hget]⟩
  · rintro ⟨_, ⟨found, hl, rfl⟩, hfile⟩
    obtain ⟨parent, rfl, _⟩ := locate_endsAt hp hl
    refine ⟨_, hl, ?_⟩
    unfold file? at hfile
    split at hfile
    · next hget =>
      cases hfile
      exact hget
    · cases hfile

namespace Confined

theorem file?_eq (h : Confined directory files d d') (hk : ∀ p, files p → ¬ d'.LeadsTo p key) :
    d'.file? key = d.file? key := by
  rcases h.others key hk with he | ⟨hnone, hnew, _⟩
  · rw [file?, file?, he]
  · simp only [file?, hnone, hnew]

end Confined

/-- A path leads where it led, and there is the same file as before, if any. -/
structure SameFile (p : Path) (d d' : Disk) : Prop where
  leads : ∀ key, d.LeadsTo p key → d'.LeadsTo p key
  same : ∀ key, d'.LeadsTo p key → d'.file? key = d.file? key

theorem SameFile.read {name : String} (h : SameFile p d d') (hn : p.EndsAt name) {content : Bytes}
    (hr : d.read p = .ok content) : d'.read p = .ok content := by
  obtain ⟨key, hl, hc⟩ := (read_ok_iff hn).mp hr
  have hl' := h.leads key hl
  exact (read_ok_iff hn).mpr ⟨key, hl', (h.same key hl').trans hc⟩

/-- The file of a path that ends with another name than those that may differ is as it was. -/
theorem Confined.sameFile (h : Confined directory files d d') (ha : ∀ q, files q → p.Apart q) :
    SameFile p d d' where
  leads _ hl := h.leadsTo hl
  same _ hl := h.file?_eq fun q hq => hl.of_apart (ha q hq)

/-! ### Requests -/

theorem get?_put {reversed : List String} {node : Node} :
    (d.put reversed node).nodes.get? key = if place reversed = key then some node else d.nodes.get? key :=
  OrderedMap.get?_insert ..

/-- A directory on the way may come to be. -/
theorem ensureDirectory_confined {names : List String} (hn : names <+: directory.names)
    (h : d.ensureDirectory directory.isAbsolute names = .ok d') : Confined directory files d d' := by
  rcases ensureDirectory_ok h with rfl | ⟨reversed, hl, hnone, rfl⟩
  · exact .refl ..
  have hne : reversed ≠ [] := ne_nil_of_at? (d := d) (by simp [hnone])
  have hkey : d.nodes.get? (place reversed) = none := (at?_of_ne_nil hne).symm.trans hnone
  have hkeeps : ∀ key, d.nodes.get? key = some .directory →
      (d.put reversed .directory).nodes.get? key = some .directory := by
    intro key hd
    rw [get?_put]
    split
    · rfl
    · exact hd
  constructor
  case home => rfl
  case directories => exact hkeeps
  case others =>
    intro key _
    by_cases hk : place reversed = key
    · subst hk
      have hl' : (d.put reversed .directory).locateFrom directory.isAbsolute names = .ok reversed := by
        unfold locateFrom at hl ⊢
        exact (put_directory_grows hnone).follow hl
      refine .inr ⟨hkey, ?_, names, reversed, hn, hl', rfl⟩
      rw [get?_put, if_pos rfl]
    · refine .inl ?_
      rw [get?_put, if_neg hk]

/-- Whatever part of a path is created, only directories on its way come to be. -/
theorem createDirectories_confined {parents : List String} (h : parents <:+ directory.names.reverse) :
    Confined directory files d (d.createDirectories directory.isAbsolute parents).1 := by
  -- the parents are created only where the directory itself was refused for want of them
  induction parents generalizing d with
  | nil => exact .refl ..
  | cons name parents ih =>
    have hn : (name :: parents).reverse <+: directory.names := by
      have hr := List.reverse_prefix.mpr h
      rwa [List.reverse_reverse] at hr
    have hp : parents <:+ directory.names.reverse := (List.suffix_cons name parents).trans h
    rw [createDirectories]
    split
    · next h => exact ensureDirectory_confined hn h
    · split
      · next g fault h =>
        rw [show g = (d.createDirectories directory.isAbsolute parents).1 by rw [h]]
        exact ih hp
      · next g h =>
        have hg : Confined directory files d g := by
          rw [show g = (d.createDirectories directory.isAbsolute parents).1 by rw [h]]
          exact ih hp
        split
        · next h' => exact hg.trans (ensureDirectory_confined hn h')
        · exact hg
    · exact .refl ..

/-- Writing touches the file that its path leads to. -/
theorem write_confined {content : Bytes} (h : d.write p content = .ok d') (hp : files p) :
    Confined directory files d d' := by
  have hs := write_sameDirectories h
  obtain ⟨reversed, hl, hd, rfl⟩ := write_ok.mp h
  -- a write to a directory would have failed
  have hkey : d.nodes.get? (place reversed) ≠ some .directory := by
    rw [← at?_of_ne_nil (ne_nil_of_at? hd)]
    exact hd
  constructor
  case home => rfl
  case directories =>
    intro key hk
    rw [get?_put, if_neg]
    · exact hk
    · rintro rfl
      exact hkey hk
  case others =>
    intro key hn
    refine .inl ?_
    rw [get?_put, if_neg]
    intro hk
    exact hn p hp ⟨reversed, (hs.locate p reversed).mpr hl, hk⟩

/-- A move touches the two files that its paths lead to. -/
theorem rename_confined (h : d.rename p q = .ok d') (hp : files p) (hq : files q) :
    Confined directory files d d' := by
  have hs := rename_sameDirectories h
  obtain ⟨old, new, content, hlo, hln, hold, hnew, rfl⟩ := rename_ok.mp h
  have hget : ∀ key, ((d.drop old).put new (.file content)).nodes.get? key =
      if place new = key then some (.file content) else if place old = key then none else
        d.nodes.get? key := by
    intro key
    rw [get?_put]
    exact congrArg _ (OrderedMap.get?_erase ..)
  constructor
  case home => rfl
  case directories =>
    intro key hk
    -- neither the file that is moved nor the place that it goes to is a directory
    have hne : ∀ found, d.at? found ≠ some .directory → place found ≠ key := by
      rintro found hf rfl
      rw [at?_of_ne_nil (ne_nil_of_at? hf)] at hf
      exact hf hk
    rw [hget, if_neg (hne new hnew), if_neg (hne old (by simp [hold]))]
    exact hk
  case others =>
    intro key hn
    refine .inl ?_
    rw [hget, if_neg, if_neg]
    · intro hk
      exact hn p hp ⟨old, (hs.locate p old).mpr hlo, hk⟩
    · intro hk
      exact hn q hq ⟨new, (hs.locate q new).mpr hln, hk⟩

end OracleDuty.Disk
