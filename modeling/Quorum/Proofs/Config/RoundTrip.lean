import Quorum.Config.File
import Quorum.Proofs.Table
import Quorum.Proofs.Text.Utf8
import Quorum.Proofs.Yaml.LongKey
import Quorum.Proofs.Yaml.Number
import Quorum.Proofs.Yaml.Value

/-!
# Configuration files are read back

A saved configuration is written section by section. Texts keep their kind because what would spell
another kind is quoted, numbers are written so that they spell theirs, and distinct ids make
distinct entries. What can go wrong is the line of a key: a key may take at most 1024 characters
there, as written, while the writer counts the characters of the id. A file with a longer key is
malformed.

## Main definitions

* `Config.sections` — the sections with what they are written as and what they stand for

## Main results

* `Config.sections_fit`, `Config.sections_keysFit`, `Config.sections_give` — the file is read as the
  values of the sections, if the ids can be read
* `Config.ofValue_sections` — these values are read as the configuration
* `Config.load_save` — a saved configuration is loaded as it was, unless an id is written too long
-/

namespace Quorum

namespace Config

section Values

/-! ### The value of a file -/

/-- The value of each section. -/
def sections (c : Config) : List (String × Yaml.Outline × Datum) :=
  let number (n : ℕ) : Yaml.Outline := .scalar .int n.repr
  let words (s : String) : Yaml.Outline := .scalar .str s
  let peers := c.peers.entries.map fun e => (e.1, words e.2, Datum.text e.2)
  [("society", .mapping [("parties", number c.parties), ("threshold", number c.threshold)],
      .mapping [(.text "parties", .int c.parties), (.text "threshold", .int c.threshold)]),
    ("coordinator", .mapping [("fanout_margin", number c.margin),
        ("quorum_timeout", .scalar .float (numberText c.timeout))],
      .mapping [(.text "fanout_margin", .int c.margin),
        (.text "quorum_timeout", .float c.timeout)]),
    ("channel", .mapping [("curve", words c.curve.name),
        ("key_derivation", words c.derivation.name)],
      .mapping [(.text "curve", .text c.curve.name),
        (.text "key_derivation", .text c.derivation.name)]),
    ("logging", .mapping [("level", words c.level.name)],
      .mapping [(.text "level", .text c.level.name)]),
    ("peers", .mapping (peers.map fun e => (e.1, e.2.1)),
      .mapping (Yaml.textEntries Prod.snd peers))]

theorem outline_eq (c : Config) :
    c.outline = .mapping (c.sections.map fun e => (e.1, e.2.1)) := by
  simp [outline, sections]

/-- Every section can be written, and something fits on every line. -/
theorem sections_fit (c : Config) :
    Yaml.Outline.EntriesFit 0 (c.sections.map fun e => (e.1, e.2.1)) := by
  have number (n : ℕ) : (Yaml.Outline.scalar .int n.repr).Fits 2 :=
    ⟨.inr ⟨Yaml.ofPlain_repr n, (Yaml.isNumeric_repr n).plainFits⟩, by decide⟩
  have words (s : String) : (Yaml.Outline.scalar .str s).Fits 2 := ⟨.inl rfl, by decide⟩
  have timeout : (Yaml.Outline.scalar .float (numberText c.timeout)).Fits 2 :=
    ⟨.inr ⟨Yaml.ofPlain_numberText c.timeout_pos, Yaml.plainFits_numberText c.timeout_pos⟩,
      by decide⟩
  have peers : Yaml.Outline.EntriesFit 2
      ((c.peers.entries.map fun e => (e.1, Yaml.Outline.scalar .str e.2, Datum.text e.2)).map
        fun e => (e.1, e.2.1)) := by
    simp only [List.map_map, Yaml.Outline.entriesFit_iff, List.forall_mem_map]
    exact fun e _ => ⟨by decide, words e.2⟩
  have narrow : 2 < Yaml.lineWidth ∧ 4 < Yaml.lineWidth := by decide
  exact ⟨narrow.1, ⟨narrow.2, number _, narrow.2, number _, trivial⟩,
    narrow.1, ⟨narrow.2, number _, narrow.2, timeout, trivial⟩,
    narrow.1, ⟨narrow.2, words _, narrow.2, words _, trivial⟩,
    narrow.1, ⟨narrow.2, words _, trivial⟩, narrow.1, peers, trivial⟩

/-- The keys that may not be read are the ids of peers: the names of sections and settings are short
enough for any way to write them. -/
theorem sections_keysFit (c : Config) :
    Yaml.Outline.EntryKeysFit (c.sections.map fun e => (e.1, e.2.1)) ↔
      ∀ id ∈ c.peers.keys, Yaml.KeyFits id := by
  have name {k : String} (short : k.toList.length ≤ 102) : Yaml.KeyFits k := fun _ =>
    (Yaml.length_keyText_le k).trans (by omega)
  have names : ∀ k ∈ ["society", "parties", "threshold", "coordinator", "fanout_margin",
      "quorum_timeout", "channel", "curve", "key_derivation", "logging", "level", "peers"],
      Yaml.KeyFits k := fun k member => name (by revert k; decide)
  simp only [List.forall_mem_cons, List.not_mem_nil, false_imp_iff, implies_true, and_true] at names
  have peers : Yaml.Outline.EntryKeysFit
      ((c.peers.entries.map fun e => (e.1, Yaml.Outline.scalar .str e.2, Datum.text e.2)).map
        fun e => (e.1, e.2.1)) ↔ ∀ id ∈ c.peers.keys, Yaml.KeyFits id := by
    rw [List.map_map, Yaml.Outline.entryKeysFit_iff, List.forall_mem_map, Table.keys,
      List.forall_mem_map]
    exact forall₂_congr fun e _ => and_iff_left trivial
  rw [← peers]
  simp only [sections, List.map_cons, List.map_nil, Yaml.Outline.EntryKeysFit,
    Yaml.Outline.KeysFit, names, true_and, and_true]

/-- Every section stands for its value, if the numbers are not too long. -/
theorem sections_give {c : Config} (parties : (Nat.toDigits 10 c.parties).length ≤ 4300)
    (margin : (Nat.toDigits 10 c.margin).length ≤ 4300) :
    ∀ e ∈ c.sections, e.2.1.Gives e.2.2 := by
  have threshold : (Nat.toDigits 10 c.threshold).length ≤ 4300 := by
    rw [Nat.length_toDigits_le_iff (by decide) (by decide)] at parties ⊢
    exact c.threshold_lt.trans parties
  have number {n : ℕ} (short : (Nat.toDigits 10 n).length ≤ 4300) :
      (Yaml.Outline.scalar .int n.repr).Gives (.int n) :=
    Yaml.Outline.gives_scalar (by rw [Yaml.Tag.datum, Yaml.integer_repr short]; rfl)
  have words (s : String) : (Yaml.Outline.scalar .str s).Gives (.text s) :=
    Yaml.Outline.gives_scalar rfl
  have timeout : (Yaml.Outline.scalar .float (numberText c.timeout)).Gives (.float c.timeout) :=
    Yaml.Outline.gives_scalar (by rw [Yaml.Tag.datum, Yaml.float_numberText c.timeout_pos]; rfl)
  simp only [sections, List.forall_mem_cons, List.not_mem_nil, false_imp_iff, implies_true,
    and_true]
  refine ⟨?_, ?_, ?_, ?_, ?_⟩
  · exact Yaml.Outline.gives_mapping [("parties", _, _), ("threshold", _, _)]
      (by simpa using ⟨number parties, number threshold⟩) (by simp)
  · exact Yaml.Outline.gives_mapping [("fanout_margin", _, _), ("quorum_timeout", _, _)]
      (by simpa using ⟨number margin, timeout⟩) (by simp)
  · exact Yaml.Outline.gives_mapping [("curve", _, _), ("key_derivation", _, _)]
      (by simpa using ⟨words _, words _⟩) (by simp)
  · exact Yaml.Outline.gives_mapping [("level", _, _)] (by simpa using words _) (by simp)
  · refine Yaml.Outline.gives_mapping _ (List.forall_mem_map.mpr fun e _ => words e.2) ?_
    rw [List.map_map]
    exact c.peers.nodup_keys

end Values

section Reading

/-! ### Reading the value -/

theorem readIntFrom_int {bound n : ℤ} (within : bound ≤ n) :
    Datum.readIntFrom bound (.int n) = .ok n := by
  change (if n < bound then _ else _) = _
  rw [if_neg (by omega)]

theorem readText_text (s : String) : Datum.readText (.text s) = .ok s := by
  simp [Datum.readText, Datum.asText]

theorem setting_eq {α : Type} {name : String} {default x : α} {read : Datum → Checked α}
    {entries : List (Datum × Datum)} {v : Datum} (found : Datum.lookup? name entries = some v)
    (value : read v = .ok x) : setting name default read entries = .ok x := by
  rw [setting, found]
  change Checked.under (.field name) (read v) = _
  rw [value]
  rfl

theorem readSociety_eq (c : Config) :
    readSociety (.mapping [(.text "parties", .int c.parties),
      (.text "threshold", .int c.threshold)]) =
      .ok ⟨(c.parties, c.threshold), c.threshold_pos, c.threshold_lt⟩ := by
  let es : List (Datum × Datum) :=
    [(.text "parties", .int c.parties), (.text "threshold", .int c.threshold)]
  have bounds := And.intro c.threshold_pos c.threshold_lt
  have parties : setting "parties" 3 (Datum.readIntFrom 1) es = .ok (c.parties : ℤ) :=
    setting_eq (v := .int c.parties) (by simp [es, Datum.lookup?]) (readIntFrom_int (by omega))
  have threshold : setting "threshold" 1 (Datum.readIntFrom 1) es = .ok (c.threshold : ℤ) :=
    setting_eq (v := .int c.threshold) (by simp [es, Datum.lookup?]) (readIntFrom_int (by omega))
  change (((setting "parties" 3 (Datum.readIntFrom 1) es).and
    (setting "threshold" 1 (Datum.readIntFrom 1) es)).bind _) = _
  rw [parties, threshold]
  exact dif_pos bounds

theorem readCoordinator_eq (c : Config) :
    readCoordinator (.mapping [(.text "fanout_margin", .int c.margin),
      (.text "quorum_timeout", .float c.timeout)]) =
        .ok (c.margin, ⟨c.timeout, c.timeout_pos⟩) := by
  let es : List (Datum × Datum) :=
    [(.text "fanout_margin", .int c.margin), (.text "quorum_timeout", .float c.timeout)]
  have margin : setting "fanout_margin" 1 (Datum.readIntFrom 0) es = .ok (c.margin : ℤ) :=
    setting_eq (v := .int c.margin) (by simp [es, Datum.lookup?]) (readIntFrom_int (by omega))
  have timeout (default : { x : Binary64 // Binary64.lt (.zero false) x = true }) :
      setting "quorum_timeout" default readTimeout es = .ok ⟨c.timeout, c.timeout_pos⟩ :=
    setting_eq (v := .float c.timeout) (by simp [es, Datum.lookup?]) (dif_pos c.timeout_pos)
  change (((setting "fanout_margin" 1 (Datum.readIntFrom 0) es).and
    (setting "quorum_timeout" _ readTimeout es)).bind _) = _
  rw [margin, timeout]
  rfl

theorem readChannel_eq (c : Config) :
    readChannel (.mapping [(.text "curve", .text c.curve.name),
      (.text "key_derivation", .text c.derivation.name)]) = .ok (c.curve, c.derivation) := by
  cases c.curve <;> cases c.derivation <;> rfl

theorem readLogging_eq (c : Config) :
    readLogging (.mapping [(.text "level", .text c.level.name)]) = .ok c.level := by
  cases c.level <;> rfl

theorem readPeerEntries_eq (es : List (String × String)) :
    readPeerEntries (es.map fun e => (.text e.1, .text e.2)) = .ok es := by
  induction es with
  | nil => rfl
  | cons e es ih =>
    simp [readPeerEntries, readText_text, ih, Checked.under, Checked.and, Except.map]

/-- Peers are read in their order. -/
theorem readPeers_eq (c : Config) :
    readPeers (.mapping (c.peers.entries.map fun e => (.text e.1, .text e.2))) =
      .ok ⟨c.peers, c.peers_decode⟩ := by
  have same : Table.ofList c.peers.entries = c.peers :=
    Table.ext (Table.entries_ofList c.peers.nodup_keys)
  unfold readPeers
  simp only [readPeerEntries_eq, bind, Except.bind, same]
  exact dif_pos c.peers_decode

/-- The value of the sections is read as the configuration. -/
theorem ofValue_sections (c : Config) (path : String) :
    ofValue path (.mapping (Yaml.textEntries Prod.snd c.sections)) = .ok c := by
  have peers : Yaml.textEntries Prod.snd
      (c.peers.entries.map fun e => (e.1, Yaml.Outline.scalar .str e.2, Datum.text e.2)) =
        c.peers.entries.map fun e => (.text e.1, .text e.2) := by
    simp [Yaml.textEntries]
  let es := Yaml.textEntries Prod.snd c.sections
  have society (default : { s : Nat × Nat // 0 < s.2 ∧ s.2 < s.1 }) :
      setting "society" default readSociety es =
        .ok ⟨(c.parties, c.threshold), c.threshold_pos, c.threshold_lt⟩ :=
    setting_eq (by simp [es, Yaml.textEntries, sections, Datum.lookup?]) (readSociety_eq c)
  have coordinator (default : Nat × { x : Binary64 // Binary64.lt (.zero false) x = true }) :
      setting "coordinator" default readCoordinator es =
        .ok (c.margin, ⟨c.timeout, c.timeout_pos⟩) :=
    setting_eq (by simp [es, Yaml.textEntries, sections, Datum.lookup?]) (readCoordinator_eq c)
  have channel : setting "channel" (.k256, .raw) readChannel es = .ok (c.curve, c.derivation) :=
    setting_eq (by simp [es, Yaml.textEntries, sections, Datum.lookup?]) (readChannel_eq c)
  have logging : setting "logging" .warning readLogging es = .ok c.level :=
    setting_eq (by simp [es, Yaml.textEntries, sections, Datum.lookup?]) (readLogging_eq c)
  have known (default : { t : Table String String //
      ∀ e ∈ t.entries, (keyBytes? e.2).isSome = true }) :
      setting "peers" default readPeers es = .ok ⟨c.peers, c.peers_decode⟩ :=
    setting_eq (v := .mapping (Yaml.textEntries Prod.snd (c.peers.entries.map fun e =>
      (e.1, Yaml.Outline.scalar .str e.2, Datum.text e.2))))
      (by simp [es, Yaml.textEntries, sections, Datum.lookup?])
      (by rw [peers]; exact readPeers_eq c)
  have read : ofEntries (Yaml.textEntries Prod.snd c.sections) = .ok c := by
    change (Checked.and (setting "society" _ readSociety es)
      (Checked.and (setting "coordinator" _ readCoordinator es)
        (Checked.and (setting "channel" _ readChannel es)
          (Checked.and (setting "logging" _ readLogging es)
            (setting "peers" _ readPeers es))))).bind _ = _
    rw [society, coordinator, channel, logging, known]
    rfl
  have texts : (Yaml.textEntries Prod.snd c.sections).all (fun e => isText e.1) = true := rfl
  simp only [ofValue, texts, if_true, read]

end Reading

/-- Characters other than carriage returns stay as they are. -/
theorem lineFeeds_append {s : List Char} (none : '\r' ∉ s) (r : List Char) :
    lineFeeds (s ++ r) = s ++ lineFeeds r := by
  induction s with
  | nil => rfl
  | cons c s ih =>
    obtain ⟨first, others⟩ := not_or.mp (List.mem_cons.not.mp none)
    rw [List.cons_append, lineFeeds.eq_2 _ _ fun r same _ => first same.symm, ih others,
      if_neg (Ne.symm first), List.cons_append]

theorem lineFeeds_of_isPrinted {s : List Char} (printed : ∀ c ∈ s, Yaml.IsPrinted c)
    (r : List Char) : lineFeeds (s ++ r) = s ++ lineFeeds r :=
  lineFeeds_append (fun member => absurd (printed _ member) (by
    unfold Yaml.IsPrinted Yaml.IsGraphic
    decide)) r

theorem toList_save (c : Config) :
    c.save.toList = (Yaml.Outline.mapping (c.sections.map fun e => (e.1, e.2.1))).text := by
  rw [save, String.toList_ofList, outline_eq]

theorem sections_nonempty (c : Config) : (c.sections.map fun e => (e.1, e.2.1)) ≠ [] := by
  simp [sections]

/-- A configuration whose ids can be read is loaded as it was. -/
theorem load_save_of_keyFits {c : Config} (path : String)
    (parties : (Nat.toDigits 10 c.parties).length ≤ 4300)
    (margin : (Nat.toDigits 10 c.margin).length ≤ 4300)
    (ids : ∀ id ∈ c.peers.keys, Yaml.KeyFits id) :
    load path (.file (Utf8.encode c.save)) = .ok c := by
  have keys := c.sections_keysFit.mpr ids
  have gives := Yaml.Outline.gives_mapping c.sections (sections_give parties margin) (by
    simp [sections])
  have loaded := Yaml.Outline.load_text c.sections_nonempty c.sections_fit keys gives
  obtain ⟨-, printed⟩ := Yaml.Outline.ofText_text c.sections_nonempty c.sections_fit keys
  -- Written texts have no line ends that reading a file would replace.
  have same : lineFeeds c.save.toList = c.save.toList := by
    have same := lineFeeds_of_isPrinted printed []
    rwa [List.append_nil, lineFeeds, List.append_nil, ← toList_save] at same
  rw [← toList_save] at loaded
  simp only [load, loadWith, readFile, Utf8.decode?_encode, same, loaded, ofValue_sections]
  rfl

/-- A configuration with an id that cannot be read is not loaded. -/
theorem load_save_of_not_keyFits {c : Config} (path : String)
    (ids : ¬∀ id ∈ c.peers.keys, Yaml.KeyFits id) :
    load path (.file (Utf8.encode c.save)) = .error (.configSyntax path) := by
  -- Only the start of the file matters, and replacing line ends does not change it.
  obtain ⟨t, ⟨r, text⟩, printed, malformed⟩ := Yaml.Outline.exists_cut c.sections_nonempty
    c.sections_fit (c.sections_keysFit.not.mpr ids)
  have loaded : Yaml.load (lineFeeds c.save.toList) = .error .malformed := by
    rw [toList_save, ← text, lineFeeds_of_isPrinted printed, Yaml.load, malformed]
    rfl
  simp only [load, loadWith, readFile, Utf8.decode?_encode, loaded]
  rfl

/-- A saved configuration whose numbers can be read is loaded as it was, with its peers in their
order, unless an id that is written on the line of its key takes more than 1024 characters; then the
file is malformed. -/
theorem load_save (c : Config) (path : String)
    (parties : (Nat.toDigits 10 c.parties).length ≤ 4300)
    (margin : (Nat.toDigits 10 c.margin).length ≤ 4300) :
    load path (.file (Utf8.encode c.save)) =
      if ∀ id ∈ c.peers.keys, Yaml.isSimpleKey id = true → (Yaml.keyText id).length ≤ 1024 then
        .ok c
      else .error (.configSyntax path) := by
  split
  · next ids => exact load_save_of_keyFits path parties margin ids
  · next ids => exact load_save_of_not_keyFits path ids

/-- Peers whose ids and keys look like something else. -/
def oddPeers : Config where
  __ := Config.default
  peers := ⟨[("", "00"), ("<<", "0405"), ("yes", "1e03"), ("a\n b: c", "0b 11"),
    (String.ofList [Char.ofNat 0xE9, '\''], "")], by decide⟩
  peers_decode := by decide

theorem load_save_oddPeers : load "conclave.yaml" (.file (Utf8.encode oddPeers.save)) =
    .ok oddPeers :=
  (load_save oddPeers "conclave.yaml" (by decide) (by decide)).trans <| if_pos fun id member _ =>
    (Yaml.length_keyText_le id).trans (by
      have short : ∀ id ∈ oddPeers.peers.keys, 10 * id.toList.length + 2 ≤ 1024 := by decide
      exact short id member)

/-- An id that takes ten characters for each of its own. -/
def wideId : String := String.ofList (List.replicate 103 (Char.ofNat 0x1F600))

/-- A peer with such an id. -/
def widePeer : Config where
  __ := Config.default
  peers := ⟨[(wideId, "00")], List.nodup_singleton _⟩
  peers_decode := by
    intro e member
    obtain rfl := List.mem_singleton.mp member
    decide

theorem load_save_widePeer : load "conclave.yaml" (.file (Utf8.encode widePeer.save)) =
    .error (.configSyntax "conclave.yaml") := by
  refine load_save_of_not_keyFits "conclave.yaml" fun ids => ?_
  have fits := ids _ (List.mem_singleton_self _)
  have characters : wideId.toList = List.replicate 103 (Char.ofNat 0x1F600) :=
    String.toList_ofList
  have simple : Yaml.isSimpleKey wideId = true := by
    rw [Yaml.isSimpleKey, characters]
    decide
  have escape :
      ((Yaml.escapeText? (Char.ofNat 0x1F600)).getD [Char.ofNat 0x1F600]).length = 10 := by
    decide
  have long := fits simple
  rw [Yaml.keyText_of_special (by rw [characters]; decide), characters,
    List.flatMap_replicate] at long
  simp [escape] at long

end Config

end Quorum
