import OracleDuty.Proofs.Sent
import OracleDuty.Proofs.Url.RoundTrip
/-!
The paths that the web services are asked at. The beacon node is asked behind the whole path of its base; for the
generator and the publisher the last segment of the base gives way, so that only a path that ends in one slash is kept.

Main statement: `Clients.paths_exact`.
-/
namespace OracleDuty

namespace Url

/-- The base of a web service: a locator that was read, without query and fragment. -/
structure IsBase (u : Url) : Prop where
  read : ∃ s, ofText? s = some u
  http : u.isHttp = true
  noQuery : u.query = none
  noFragment : u.fragment = none

def directory (l : List Char) : List Char := (l.reverse.dropWhile (· != '/')).reverse

/-- A path behind the whole path of a base, with one slash between them. -/
def appended (base : Url) (path : String) : String := Beacon.Node.trimSlashes base.path.text ++ "/" ++ path

/-- A path in the place of what follows the last slash in the path of a base. -/
def resolved (base : Url) (path : String) : String := String.ofList (directory base.path.text.toList) ++ path

/-- A locator is at a path on the server of a base. -/
structure IsAt (url base : Url) (path : String) : Prop where
  scheme : url.scheme = base.scheme
  authority : url.authority = base.authority
  target : url.target = path

variable {c : Char} {l : List Char} {texts words : List String} {s path : String} {u : Url}

theorem IsBase.isCanonical (h : u.IsBase) : u.IsCanonical := by
  obtain ⟨s, hs⟩ := h.read
  exact isCanonical_of_ofText? hs h.http h.noQuery h.noFragment

theorem IsCanonical.isBase (h : u.IsCanonical) : u.IsBase :=
  ⟨⟨u.text, h.ofText?_text⟩, h.http, h.noQuery, h.noFragment⟩

/-! ### Texts and their slashes -/

def trimmed (l : List Char) : List Char := (l.reverse.dropWhile (· == '/')).reverse

theorem trimmed_slash (l : List Char) : trimmed (l ++ ['/']) = trimmed l := by
  rw [trimmed, List.reverse_append]
  rfl

theorem trimmed_of_ne (l : List Char) (hc : c ≠ '/') : trimmed (l ++ [c]) = l ++ [c] := by
  have hkeep : ¬(c == '/') = true := by simpa using hc
  rw [trimmed, List.reverse_append, List.reverse_singleton, List.singleton_append, List.dropWhile_cons,
    if_neg hkeep, List.reverse_cons, List.reverse_reverse]

theorem trimmed_of_getLast? (h : l.getLast? ≠ some '/') : trimmed l = l := by
  rcases List.eq_nil_or_concat' l with rfl | ⟨l, c, rfl⟩
  · rfl
  · apply trimmed_of_ne
    rintro rfl
    exact h (List.getLast?_concat)

theorem directory_slash (l : List Char) : directory (l ++ ['/']) = l ++ ['/'] := by
  rw [directory, List.reverse_append, List.reverse_singleton, List.singleton_append,
    List.dropWhile_cons_of_neg (by decide), List.reverse_cons, List.reverse_reverse]

theorem directory_append (h : ∀ c ∈ s.toList, c ≠ '/') (l : List Char) : directory (l ++ s.toList) = directory l := by
  have hdrop : ∀ c ∈ s.toList.reverse, (c != '/') = true := by
    intro c hc
    simpa using h c (List.mem_reverse.mp hc)
  rw [directory, List.reverse_append, List.dropWhile_append_of_pos hdrop]
  rfl

theorem length_directory_le (l : List Char) : (directory l).length ≤ l.length := by
  have hle := (List.dropWhile_sublist (l := l.reverse) (· != '/')).length_le
  rw [directory, List.length_reverse]
  rwa [List.length_reverse] at hle

/-- The directory is what an appended path follows exactly where the text ends in one slash. -/
theorem directory_eq_iff (l : List Char) : directory l = trimmed l ++ ['/'] ↔ l = trimmed l ++ ['/'] := by
  rcases List.eq_nil_or_concat' l with rfl | ⟨l, c, rfl⟩
  · constructor <;> intro h <;> cases h
  by_cases hc : c = '/'
  · subst hc
    rw [directory_slash]
  · have hshort := length_directory_le (l ++ [c])
    rw [trimmed_of_ne l hc]
    constructor
    · intro h
      rw [h, List.length_append, List.length_singleton] at hshort
      omega
    · intro h
      have hlength := congrArg List.length h
      simp at hlength

/-- The two ways to a path agree on the bases whose path ends in one slash, and on no others. -/
theorem resolved_eq_appended_iff (base : Url) (path : String) :
    base.resolved path = base.appended path ↔
      base.path.text = Beacon.Node.trimSlashes base.path.text ++ "/" := by
  have htrim : (Beacon.Node.trimSlashes base.path.text ++ "/").toList = trimmed base.path.text.toList ++ ['/'] := by
    rw [String.toList_append, Beacon.Node.trimSlashes, String.toList_ofList]
    rfl
  rw [resolved, appended, String.append_left_inj, ← String.toList_inj, ← String.toList_inj, htrim,
    String.toList_ofList]
  exact directory_eq_iff _

/-! ### Paths behind a base -/

theorem pathChars_append (texts words : List String) : pathChars (texts ++ words) = pathChars texts ++ pathChars words :=
  List.flatMap_append

/-- The slashes at the end of a path are its empty segments there, whatever stands in front of the path. -/
theorem exists_trimmed (hwhole : ∀ s ∈ texts, ∀ c ∈ s.toList, isSlash c = false) :
    ∃ kept, kept <+: texts ∧
      ∀ front : List Char, front.getLast? ≠ some '/' → trimmed (front ++ pathChars texts) = front ++ pathChars kept := by
  induction texts using List.reverseRecOn with
  | nil =>
    refine ⟨[], List.prefix_refl _, fun front hfront => ?_⟩
    rw [show pathChars [] = [] from rfl, List.append_nil]
    exact trimmed_of_getLast? hfront
  | append_singleton texts s ih =>
    obtain ⟨hwhole, hs⟩ := List.forall_mem_append.mp hwhole
    rcases List.eq_nil_or_concat' s.toList with hnil | ⟨cs, c, hcs⟩
    · obtain ⟨kept, hstart, hkept⟩ := ih hwhole
      refine ⟨kept, hstart.trans (List.prefix_append _ _), fun front hfront => ?_⟩
      have hslash : pathChars [s] = ['/'] := by
        rw [pathChars, List.flatMap_singleton, hnil]
      rw [pathChars_append, hslash, ← List.append_assoc, trimmed_slash, hkept front hfront]
    · refine ⟨texts ++ [s], List.prefix_refl _, fun front _ => ?_⟩
      have hc : c ≠ '/' := by
        rintro rfl
        have hmem : '/' ∈ s.toList := by simp [hcs]
        exact absurd (hs s (List.mem_singleton_self s) '/' hmem) (by decide)
      have hlast : pathChars [s] = '/' :: cs ++ [c] := by
        rw [pathChars, List.flatMap_singleton, hcs]
        rfl
      rw [pathChars_append, hlast, ← List.append_assoc, ← List.append_assoc]
      exact trimmed_of_ne _ hc

theorem directory_pathChars (hs : ∀ c ∈ s.toList, isSlash c = false) (texts : List String) :
    directory (pathChars (texts ++ [s])) = pathChars texts ++ ['/'] := by
  have hne : ∀ c ∈ s.toList, c ≠ '/' := by
    rintro c hc rfl
    exact absurd (hs _ hc) (by decide)
  have hlast : pathChars [s] = ['/'] ++ s.toList := List.flatMap_singleton ..
  rw [pathChars_append, hlast, ← List.append_assoc, directory_append hne, directory_slash]

structure IsEndpoint (path : String) (words : List String) : Prop where
  chars : '/' :: path.toList = pathChars words
  segments : ∀ s ∈ words, IsSegment s

theorem IsEndpoint.ne_nil (hp : IsEndpoint path words) : words ≠ [] := by
  rintro rfl
  exact absurd hp.chars (List.cons_ne_nil _ _)

/-- A canonical locator at other segments. -/
theorem IsCanonical.at_segments (h : u.IsCanonical) (hne : texts ≠ []) (hsegments : ∀ s ∈ texts, IsSegment s) :
    ({ u with path := .segments texts } : Url).IsCanonical :=
  ⟨h.http, h.authority, ⟨texts, rfl, hne, hsegments⟩, h.noQuery, h.noFragment⟩

def frontChars (u : Url) (a : Authority) : List Char := u.scheme.toList ++ ':' :: '/' :: '/' :: a.text.toList

theorem frontChars_append (u : Url) (a : Authority) (texts : List String) :
    frontChars u a ++ pathChars texts = u.scheme.toList ++ ':' :: innerChars a texts := by
  simp [frontChars, innerChars]

theorem getLast?_frontChars {a : Authority} (ha : a.IsCanonical u.scheme) : (frontChars u a).getLast? ≠ some '/' := by
  intro hlast
  have hauthority : a.text.toList.getLast? = some '/' := by
    rcases List.eq_nil_or_concat' a.text.toList with hnil | ⟨cs, c, hcs⟩
    · exact absurd hnil ha.text_ne_nil
    · have hfront : frontChars u a = u.scheme.toList ++ ':' :: '/' :: '/' :: cs ++ [c] := by
        rw [frontChars, hcs, List.append_assoc]
        rfl
      rw [hfront, List.getLast?_concat] at hlast
      rw [hcs, List.getLast?_concat, hlast]
  rcases ha.isInner_text '/' (List.mem_of_getLast? hauthority) with hinner | hat
  · exact hinner.2 (by decide)
  · exact absurd hat (by decide)

theorem target_eq (hquery : u.query = none) (hpath : u.path = .segments texts) :
    u.target.toList = pathChars texts := by
  rw [target, hquery, hpath, String.append_empty, toList_text_segments]

/-- What is read from the text of a base with a path behind it is at that path. -/
theorem IsCanonical.locator?_eq (h : u.IsCanonical) (hp : IsEndpoint path words) :
    ∃ url, (⟨u⟩ : Beacon.Node).locator? path = some url ∧ url.isHttp = true ∧ url.IsAt u (u.appended path) := by
  obtain ⟨a, ha, hauthority⟩ := h.authority
  obtain ⟨texts, htexts, hne, hsegments⟩ := h.path
  obtain ⟨kept, hstart, hkept⟩ := exists_trimmed fun s hs => (hsegments s hs).whole
  have hmoved : ({ u with path := .segments (kept ++ words) } : Url).IsCanonical := by
    refine h.at_segments (by simp [hp.ne_nil]) ?_
    exact List.forall_mem_append.mpr ⟨fun s hs => hsegments s (hstart.subset hs), hp.segments⟩
  have htrim : ∀ s : String, (Beacon.Node.trimSlashes s).toList = trimmed s.toList :=
    fun s => String.toList_ofList
  -- the slashes at the end of the text are those at the end of the path
  have htext : Beacon.Node.trimSlashes u.text ++ "/" ++ path =
      ({ u with path := .segments (kept ++ words) } : Url).text := by
    apply String.toList_inj.mp
    rw [hmoved.toList_text ha rfl, ← frontChars_append, String.toList_append, String.toList_append, htrim,
      h.toList_text ha htexts, ← frontChars_append, hkept _ (getLast?_frontChars hauthority), pathChars_append, ← hp.chars]
    simp [frontChars]
  refine ⟨{ u with path := .segments (kept ++ words) }, ?_, h.http, rfl, rfl, ?_⟩
  · rw [Beacon.Node.locator?, htext]
    exact hmoved.ofText?_text
  · have hpath := hkept [] (by simp)
    apply String.toList_inj.mp
    rw [target_eq hmoved.noQuery rfl, appended, String.toList_append, String.toList_append, htrim, htexts,
      toList_text_segments, ← List.nil_append (pathChars texts), hpath, pathChars_append, ← hp.chars]
    simp

/-- A relative path takes the place of what follows the last slash. -/
theorem IsCanonical.join_eq (h : u.IsCanonical) (hp : IsEndpoint path words) :
    ∃ url, u.join words = some url ∧ url.isHttp = true ∧ url.IsAt u (u.resolved path) := by
  obtain ⟨texts, htexts, hne, hsegments⟩ := h.path
  obtain rfl | ⟨front, s, rfl⟩ := List.eq_nil_or_concat' texts
  · exact absurd rfl hne
  refine ⟨{ u with path := .segments (front ++ words), query := none, fragment := none }, ?_, h.http, rfl, rfl, ?_⟩
  · rw [join, htexts]
    simp
  · have hs := (hsegments s (by simp)).whole
    apply String.toList_inj.mp
    rw [target_eq rfl rfl, resolved, String.toList_append, String.toList_ofList, htexts, toList_text_segments,
      directory_pathChars hs, pathChars_append, ← hp.chars]
    simp

/-! ### The paths of the services -/

theorem isEndpoint_of_words (hchars : '/' :: path.toList = pathChars words)
    (hwords : (words.all fun s => s.toList.all isWord) = true) : IsEndpoint path words := by
  refine ⟨hchars, fun s hs => isSegment_of_isWord ?_⟩
  exact List.all_eq_true.mp (List.all_eq_true.mp hwords s hs)

theorem isEndpoint_topic (topic : Beacon.Topic) : ∃ words, IsEndpoint topic.path words := by
  cases topic with
  | genesis => exact ⟨["eth", "v1", "beacon", "genesis"], isEndpoint_of_words rfl rfl⟩
  | spec => exact ⟨["eth", "v1", "config", "spec"], isEndpoint_of_words rfl rfl⟩
  | header => exact ⟨["eth", "v1", "beacon", "headers", "head"], isEndpoint_of_words rfl rfl⟩
  | finality =>
    exact ⟨["eth", "v1", "beacon", "states", "head", "finality_checkpoints"], isEndpoint_of_words rfl rfl⟩

/-- Blocks are asked for by their slot, which is a word of digits. -/
theorem isEndpoint_block (slot : UInt64) :
    IsEndpoint s!"eth/v2/beacon/blocks/{slot}" ["eth", "v2", "beacon", "blocks", toString slot] := by
  have hslot : (toString slot).toList.all isWord = true := by
    rw [show (toString slot).toList = Nat.toDigits 10 slot.toNat from Nat.toList_repr, List.all_eq_true]
    intro c hc
    rw [isWord, Decimal.isDigit_of_mem_toDigits hc]
    simp
  apply isEndpoint_of_words
  · simp [pathChars, toString]
  · simp only [List.all_cons, List.all_nil, hslot]
    rfl

theorem isEndpoint_trees : IsEndpoint "v1/rewards-trees" ["v1", "rewards-trees"] := isEndpoint_of_words rfl rfl

theorem isEndpoint_upload : IsEndpoint "upload" ["upload"] := isEndpoint_of_words rfl rfl

end Url

open Url Wire

/-- The messages go to some paths at a base: to these, and to no others. -/
structure Wire.SendsTo {α : Type} (p : Course α) (base : Url) (paths : List String) : Prop where
  only : ∀ m, Sends p m → ∃ path ∈ paths, m.url.IsAt base path
  each : ∀ path ∈ paths, ∃ m, Sends p m ∧ m.url.IsAt base path

/-- To know where messages go it is enough to list them, each with its path. -/
theorem Wire.sendsTo_of_messages {α : Type} {p : Course α} {base : Url} (messages : List (Http.Request × String))
    (h : ∀ m, Sends p m ↔ m ∈ messages.map Prod.fst) (hat : ∀ x ∈ messages, x.1.url.IsAt base x.2) :
    SendsTo p base (messages.map Prod.snd) := by
  constructor
  case only =>
    intro m hm
    obtain ⟨x, hx, rfl⟩ := List.mem_map.mp ((h m).mp hm)
    exact ⟨x.2, List.mem_map_of_mem hx, hat x hx⟩
  case each =>
    intro path hpath
    obtain ⟨x, hx, rfl⟩ := List.mem_map.mp hpath
    exact ⟨x.1, (h x.1).mpr (List.mem_map_of_mem hx), hat x hx⟩

theorem Beacon.Node.getting?_eq {n : Beacon.Node} (hbase : n.base.IsBase) {path : String} {words : List String}
    (hp : IsEndpoint path words) :
    ∃ m, n.getting? path = some m ∧ m.url.IsAt n.base (n.base.appended path) := by
  obtain ⟨url, hurl, hhttp, hat⟩ := hbase.isCanonical.locator?_eq hp
  have hsend : (⟨.get, url, [], []⟩ : Http.Request).isSendable = true := by
    rw [Http.Request.isSendable, hhttp]
    rfl
  exact ⟨_, getting_eq_some.mpr ⟨url, hurl, rfl, hsend⟩, hat⟩

namespace Clients

/-- What the web services are asked for. -/
inductive Errand where
  | timing
  | head
  | block (slot : UInt64)
  | generate (request : Generation.Request)
  | upload (file : String) (content : Bytes)

def Errand.request : Errand → Duty.Request
  | timing => .timing
  | head => .head
  | block slot => .block slot
  | generate request => .generate request
  | upload file content => .upload file content

/-- The base of the service that an errand goes to. -/
def baseOf (c : Clients) : Errand → Url
  | .timing | .head | .block _ => c.beacon.base
  | .generate _ => c.generator.base
  | .upload .. => c.publisher.base

/-- The paths that an errand leads to. Nothing is uploaded without a token, or where a header cannot be sent. -/
def paths (c : Clients) : Errand → List String
  | .timing => [Beacon.Topic.genesis, .spec].map fun topic => c.beacon.base.appended topic.path
  | .head => [Beacon.Topic.genesis, .spec, .header, .finality].map fun topic => c.beacon.base.appended topic.path
  | .block slot => [c.beacon.base.appended s!"eth/v2/beacon/blocks/{slot}"]
  | .generate _ => [c.generator.base.resolved "v1/rewards-trees"]
  | .upload file _ => match c.publisher.token with
    | some token =>
      if Http.isHeaderText ("Bearer " ++ token) && Http.isHeaderText file then [c.publisher.base.resolved "upload"]
      else []
    | none => []

variable {c : Clients}

theorem sends_ofBeacon {α : Type} {x : Wire.Action Beacon.Error α} {m : Http.Request} :
    Sends (ofBeacon x) m ↔ Sends x.run m := sends_run_adapt

theorem exists_inquiry (hbase : c.beacon.base.IsBase) (topic : Beacon.Topic) :
    ∃ m, c.beacon.inquiry? topic = some m ∧ m.url.IsAt c.beacon.base (c.beacon.base.appended topic.path) := by
  obtain ⟨words, hp⟩ := isEndpoint_topic topic
  exact Beacon.Node.getting?_eq hbase hp

/-- The timing is asked for at two paths behind the base, whatever path that has. -/
theorem sendsTo_timing (hbase : c.beacon.base.IsBase) :
    SendsTo (c.serve .timing) c.beacon.base (c.paths .timing) := by
  obtain ⟨genesis, hgenesis, h₁⟩ := exists_inquiry hbase .genesis
  obtain ⟨spec, hspec, h₂⟩ := exists_inquiry hbase .spec
  apply sendsTo_of_messages [(genesis, _), (spec, _)]
  · intro m
    rw [serve, sends_ofBeacon, Beacon.Node.sends_timing hgenesis, hspec]
    simp [eq_comm]
  · simp only [List.forall_mem_cons]
    exact ⟨h₁, h₂, List.forall_mem_nil _⟩

/-- The head needs the timing for its epoch, and so leads to the paths of both. -/
theorem sendsTo_head (hbase : c.beacon.base.IsBase) : SendsTo (c.serve .head) c.beacon.base (c.paths .head) := by
  obtain ⟨genesis, hgenesis, h₁⟩ := exists_inquiry hbase .genesis
  obtain ⟨spec, hspec, h₂⟩ := exists_inquiry hbase .spec
  obtain ⟨header, hheader, h₃⟩ := exists_inquiry hbase .header
  obtain ⟨finality, hfinality, h₄⟩ := exists_inquiry hbase .finality
  apply sendsTo_of_messages [(genesis, _), (spec, _), (header, _), (finality, _)]
  · intro m
    rw [serve, sends_ofBeacon, Beacon.Node.sends_head hgenesis hheader, hspec, hfinality]
    simp [eq_comm]
  · simp only [List.forall_mem_cons]
    exact ⟨h₁, h₂, h₃, h₄, List.forall_mem_nil _⟩

theorem sendsTo_block (hbase : c.beacon.base.IsBase) (slot : UInt64) :
    SendsTo (c.serve (.block slot)) c.beacon.base (c.paths (.block slot)) := by
  obtain ⟨m, hm, hat⟩ := Beacon.Node.getting?_eq hbase (isEndpoint_block slot)
  apply sendsTo_of_messages [(m, _)]
  · intro m'
    rw [serve, sends_ofBeacon, Beacon.Node.sends_block, hm]
    simp [eq_comm]
  · exact List.forall_mem_singleton.mpr hat

/-- The path of the generator takes the place of the last segment of the base. -/
theorem sendsTo_generate (hbase : c.generator.base.IsBase) (r : Generation.Request) :
    SendsTo (c.serve (.generate r)) c.generator.base (c.paths (.generate r)) := by
  obtain ⟨url, hurl, hhttp, hat⟩ := hbase.isCanonical.join_eq isEndpoint_trees
  have hheader : Http.isHeaderText "application/json" = true := by decide
  have hsend : (Generation.Service.message url r).isSendable = true := by
    simp [Http.Request.isSendable, Generation.Service.message, hhttp, hheader]
  apply sendsTo_of_messages [(Generation.Service.message url r, _)]
  · intro m
    rw [serve, Generation.Service.sends_generate hurl, hsend]
    simp
  · exact List.forall_mem_singleton.mpr hat

/-- Files are published in the place of the last segment, and only with a token that a header can carry. -/
theorem sendsTo_upload (hbase : c.publisher.base.IsBase) (file : String) (content : Bytes) :
    SendsTo (c.serve (.upload file content)) c.publisher.base (c.paths (.upload file content)) := by
  obtain ⟨url, hurl, hhttp, hat⟩ := hbase.isCanonical.join_eq isEndpoint_upload
  have htype : Http.isHeaderText "application/octet-stream" = true := by decide
  have hsend : ∀ token, (Publication.message url token file content).isSendable =
      (Http.isHeaderText ("Bearer " ++ token) && Http.isHeaderText file) := by
    intro token
    simp [Http.Request.isSendable, Publication.message, hhttp, htype]
  -- a message that cannot be sent leads nowhere, like one without a token
  have hnone : ∀ p : Course (Except Publication.Error String), (∀ m, ¬Sends p m) → SendsTo p c.publisher.base [] :=
    fun p hp => ⟨fun m hm => absurd hm (hp m), List.forall_mem_nil _⟩
  rw [serve, paths]
  cases htoken : c.publisher.token with
  | none =>
    apply hnone
    simp [Publication.Service.sends_upload hurl, htoken]
  | some token =>
    cases hheaders : Http.isHeaderText ("Bearer " ++ token) && Http.isHeaderText file with
    | false =>
      simp only [hheaders, Bool.false_eq_true, if_false]
      apply hnone
      simp [Publication.Service.sends_upload hurl, htoken, (hsend token).trans hheaders]
    | true =>
      simp only [hheaders, if_true]
      apply sendsTo_of_messages [(Publication.message url token file content, _)]
      · simp [Publication.Service.sends_upload hurl, htoken, (hsend token).trans hheaders]
      · exact List.forall_mem_singleton.mpr hat

/-- The beacon node is asked behind the whole path of its base, the generator and the publisher in the place of the
last segment. These are the same paths exactly for a base whose path ends in one slash. -/
theorem paths_exact (hbeacon : c.beacon.base.IsBase) (hgenerator : c.generator.base.IsBase)
    (hpublisher : c.publisher.base.IsBase) :
    (∀ e : Errand, SendsTo (c.serve e.request) (c.baseOf e) (c.paths e)) ∧
      ∀ (base : Url) (path : String), base.resolved path = base.appended path ↔
        base.path.text = Beacon.Node.trimSlashes base.path.text ++ "/" := by
  refine ⟨fun e => ?_, resolved_eq_appended_iff⟩
  cases e with
  | timing => exact sendsTo_timing hbeacon
  | head => exact sendsTo_head hbeacon
  | block slot => exact sendsTo_block hbeacon slot
  | generate request => exact sendsTo_generate hgenerator request
  | upload file content => exact sendsTo_upload hpublisher file content

def mounted (port : Nat) (path : List String) : Url :=
  ⟨"http", some ⟨none, "127.0.0.1", some port⟩, .segments path, none, none⟩

/-- A base with any number of plain segments is one that the statements about paths cover. -/
theorem isBase_mounted {port : Nat} {path : List String} (hport : port < 65536 ∧ port ≠ 80) (hne : path ≠ [])
    (hpath : (path.all fun s => s.toList.all isWord) = true) : (mounted port path).IsBase := by
  have hhost : HostForm "127.0.0.1".toList :=
    @HostForm.address 127 0 0 1 (by decide) (by decide) (by decide) (by decide)
  have hauthority : Authority.IsCanonical "http" ⟨none, "127.0.0.1", some port⟩ := by
    refine ⟨nofun, hhost, ?_⟩
    rintro p ⟨⟩
    refine ⟨hport.1, fun hown => hport.2 ?_⟩
    exact (Option.some.inj hown).symm
  have hsegments : ∀ s ∈ path, IsSegment s := fun s hs =>
    isSegment_of_isWord (List.all_eq_true.mp (List.all_eq_true.mp hpath s hs))
  exact IsCanonical.isBase ⟨rfl, ⟨_, rfl, hauthority⟩, ⟨path, rfl, hne, hsegments⟩, rfl, rfl⟩

def behindPaths : Clients where
  beacon := ⟨mounted 5052 ["beacon"]⟩
  execution := ⟨mounted 8545 [""], 1, 8⟩
  generator := ⟨mounted 8080 ["trees", ""]⟩
  publisher := ⟨mounted 9000 ["api"], some "token"⟩

theorem isBase_publisher : behindPaths.publisher.base.IsBase := isBase_mounted (by decide) nofun rfl

/-- The beacon node and the generator are asked behind the paths of their bases, the publisher is not. -/
theorem paths_exact_mounted :
    (∃ m, Sends (behindPaths.serve (.block 7)) m ∧ m.url.target = "/beacon/eth/v2/beacon/blocks/7") ∧
      (∃ m, Sends (behindPaths.serve (.generate ⟨"holesky", 5, 1, 2, 3, 4, 1⟩)) m ∧
        m.url.target = "/trees/v1/rewards-trees") ∧
      ∃ m, Sends (behindPaths.serve (.upload "tree" [])) m ∧ m.url.target = "/upload" := by
  have hbeacon : behindPaths.beacon.base.IsBase := isBase_mounted (by decide) nofun rfl
  have hgenerator : behindPaths.generator.base.IsBase := isBase_mounted (by decide) nofun rfl
  have hpaths := (paths_exact hbeacon hgenerator isBase_publisher).1
  obtain ⟨block, hblock, hat⟩ := (hpaths (.block 7)).each _ List.mem_cons_self
  obtain ⟨tree, htree, hat'⟩ := (hpaths (.generate ⟨"holesky", 5, 1, 2, 3, 4, 1⟩)).each _ List.mem_cons_self
  have hupload : "/upload" ∈ behindPaths.paths (.upload "tree" []) := by decide +kernel
  obtain ⟨file, hfile, hfileAt⟩ := (hpaths (.upload "tree" [])).each _ hupload
  refine ⟨⟨block, hblock, hat.target.trans ?_⟩, ⟨tree, htree, hat'.target.trans ?_⟩, file, hfile, hfileAt.target⟩
  · decide +kernel
  · decide +kernel

/-- A file for a service behind a path is sent past that path. -/
theorem upload_leaves_path : behindPaths.publisher.base.IsBase ∧
    ¬∀ m, Sends (behindPaths.serve (.upload "tree" [])) m →
      m.url.IsAt behindPaths.publisher.base (behindPaths.publisher.base.appended "upload") := by
  refine ⟨isBase_publisher, fun hall => ?_⟩
  have hupload : "/upload" ∈ behindPaths.paths (.upload "tree" []) := by decide +kernel
  obtain ⟨m, hm, hat⟩ := (sendsTo_upload isBase_publisher "tree" []).each _ hupload
  have htarget := hat.target.symm.trans (hall m hm).target
  exact absurd htarget (by decide +kernel)

end Clients

end OracleDuty
