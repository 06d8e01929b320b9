import Quorum.Command.Demo
import Quorum.Proofs.Yaml.Misread

/-!
# Loading a configuration

However files are read, a path gives a configuration that keeps its rules or a fault of the
configuration, unless reading its file fails in another way than by a broken rule of the format, or
the document has a top-level key that is not text. These two are not faults of a configuration, so
the demonstration, which reports only such, breaks off.

Reading fails in another way where the bytes encode no text or the text names a value that does not
exist.

## Main definitions

* `Config.Unreported` — files that stop loading without a fault of the configuration
* `Config.Illegible` — why reading a file fails in another way than by a broken rule

## Main results

* `Config.load_valid_or_config_fault` — every path and every reader of files, with exactly the files
  that are an exception
* `Config.load_of_stray_byte` — one such file
* `Config.readFile_yields` — what reading a file gives
* `Demo.run_of_unreported` — what the demonstration makes of the exceptions
-/

namespace Quorum

namespace Config

open Outcome (Yields)

section Reading

/-! ### Files and their readers -/

variable {ε : Type} {read : Bytes → Except (Unread ε) Datum} {path : String} {content : Bytes}
  {stop : Stop ε}

/-- A file that stops loading without a fault of its configuration. -/
inductive Unreported (read : Bytes → Except (Unread ε) Datum) (content : Bytes) : Stop ε → Prop
  /-- Reading fails in another way than by a broken rule of the format. -/
  | reading {cause : ε} (failed : read content = .error (.other cause)) :
    Unreported read content (.reading cause)
  /-- The document is a mapping with a key that is not text. -/
  | key {entries : List (Datum × Datum)} (value : read content = .ok (.mapping entries))
    (other : ∃ e ∈ entries, isText e.1 = false) : Unreported read content (.fault .keyNotText)

theorem Unreported.not_isConfig (unreported : Unreported read content stop) :
    stop.isConfig = false := by
  cases unreported <;> rfl

/-- Such a file stops loading in its way. -/
theorem Unreported.loadWith_eq (unreported : Unreported read content stop) (path : String) :
    loadWith read path (.file content) = .error stop := by
  cases unreported with
  | reading failed => simp only [loadWith, failed]
  | @key entries value other =>
    obtain ⟨e, member, other⟩ := other
    have mixed : ¬∀ e ∈ entries, isText e.1 = true := fun texts => by
      rw [texts e member] at other
      cases other
    simp only [loadWith, value, ofValue, List.all_eq_true, if_neg mixed]
    rfl

/-- A value gives a configuration or a fault of it, unless it is a mapping with a key that is not
text. -/
theorem ofValue_yields (path : String) (v : Datum) :
    Yields (fun _ => True) (fun f => f.isConfig = true ∨ f = .keyNotText ∧
      ∃ entries, v = .mapping entries ∧ ∃ e ∈ entries, isText e.1 = false) (ofValue path v) := by
  unfold ofValue
  split
  · exact .ok trivial
  · next entries =>
    split
    · split
      · exact .ok trivial
      · exact .error (.inl rfl)
    · next mixed =>
      exact .error (.inr ⟨rfl, entries, rfl, by simpa using mixed⟩)
  · exact .error (.inl rfl)

/-- A file gives a configuration or a fault of it, or it is an exception. -/
theorem loadWith_file_yields (read : Bytes → Except (Unread ε) Datum) (path : String)
    (content : Bytes) :
    Yields (fun _ => True) (fun stop => stop.isConfig = true ∨ Unreported read content stop)
      (loadWith read path (.file content)) := by
  unfold loadWith
  dsimp only
  split
  · next v value =>
    refine (ofValue_yields path v).mapError fun f found => ?_
    rcases found with reported | ⟨rfl, entries, rfl, other⟩
    · exact .inl reported
    · exact .inr (.key value other)
  · exact .error (.inl rfl)
  · next cause failed => exact .error (.inr (.reading failed))

/-- However files are read, loading a path gives a configuration that keeps its rules or a fault of
the configuration, and nothing else unless the file there is an exception. The exceptions are
exactly the files that stop loading without a fault of the configuration. -/
theorem load_valid_or_config_fault (read : Bytes → Except (Unread ε) Datum) (path : String) :
    (∀ place : Place,
      (∃ c : Config, loadWith read path place = .ok c ∧
        (0 < c.threshold ∧ c.threshold < c.parties) ∧ 0 ≤ (c.margin : ℤ) ∧
        Binary64.lt (.zero false) c.timeout = true ∧
        ∀ e ∈ c.peers.entries, (keyBytes? e.2).isSome = true) ∨
      (∃ f : Fault, loadWith read path place = .error (.fault f) ∧ f.isConfig = true) ∨
      ∃ content stop, place = .file content ∧ loadWith read path place = .error stop ∧
        Unreported read content stop) ∧
    ∀ content stop, Unreported read content stop ↔
      loadWith read path (.file content) = .error stop ∧ stop.isConfig = false := by
  constructor
  · intro place
    cases found : loadWith read path place with
    | ok c =>
      exact .inl ⟨c, rfl, ⟨c.threshold_pos, c.threshold_lt⟩, Int.natCast_nonneg c.margin,
        c.timeout_pos, c.peers_decode⟩
    | error stop =>
      cases place with
      | nothing => cases found
      | directory =>
        cases found
        exact .inr (.inl ⟨_, rfl, rfl⟩)
      | file content =>
        rcases (loadWith_file_yields read path content).failure found with reported | unreported
        · cases stop with
          | fault f => exact .inr (.inl ⟨f, rfl, reported⟩)
          | reading cause => cases reported
        · exact .inr (.inr ⟨content, stop, rfl, rfl, unreported⟩)
  · intro content stop
    constructor
    · exact fun unreported => ⟨unreported.loadWith_eq path, unreported.not_isConfig⟩
    · rintro ⟨found, other⟩
      have known := (loadWith_file_yields read path content).failure found
      refine known.resolve_left fun reported => ?_
      rw [reported] at other
      cases other

/-- A single byte that is no text: its fault is not one of the configuration. -/
theorem load_of_stray_byte :
    load "conclave.yaml" (.file [0xFF]) = .error .undecodable ∧
      Fault.isConfig .undecodable = false := by
  have encoded : Utf8.decode? [0xFF] = none := by
    unfold Utf8.decode?
    simp [Utf8.next?]
  refine ⟨?_, rfl⟩
  simp only [load, loadWith, readFile, encoded]
  rfl

end Reading

section Failing

/-! ### Why reading fails -/

/-- Reading fails in another way than by a broken rule of the format. -/
inductive Illegible (content : Bytes) : Fault → Prop
  /-- The bytes encode no text. -/
  | bytes (encoded : Utf8.decode? content = none) : Illegible content .undecodable
  /-- The text names a value that does not exist. -/
  | value {s : List Char} {f : Yaml.Failure} (encoded : Utf8.decode? content = some s)
    (misnames : Yaml.Misnames (lineFeeds s) f) : Illegible content (.configSpelling f)

theorem Illegible.not_isConfig {content : Bytes} {f : Fault} (illegible : Illegible content f) :
    f.isConfig = false := by
  cases illegible <;> rfl

/-- Reading a file gives a value, or a rule of the format is broken, or it is known why not. -/
theorem readFile_yields (content : Bytes) :
    Yields (fun _ => True) (fun u => u = .malformed ∨ ∃ f, u = .other f ∧ Illegible content f)
      (readFile content) := by
  unfold readFile
  split
  · next s encoded =>
    have yields := Yaml.load_yields (lineFeeds s)
    split
    · exact .ok trivial
    · exact .error (.inl rfl)
    · next f other read =>
      have misnames := (yields.failure read).resolve_left other
      exact .error (.inr ⟨_, rfl, .value encoded misnames⟩)
  · next encoded => exact .error (.inr ⟨_, rfl, .bytes encoded⟩)

end Failing

end Config

namespace Demo

/-- Only the faults of a configuration have a line. -/
theorem configLine?_isSome (f : Fault) : (configLine? f).isSome = f.isConfig := by
  cases f <;> rfl

/-- The demonstration breaks off at a file that is an exception. -/
theorem run_of_unreported {d : Demo} {files : Files} {content : Bytes} {stop : Config.Stop Fault}
    (file : files.file? d.config = some content)
    (unreported : Config.Unreported Config.readFile content stop) (draw : ℕ → ℕ)
    (nonce : ℕ → Bytes) : d.run files draw nonce = .crashed [] (.fault stop.toFault) := by
  have read : d.readConfig files = .error stop.toFault := by
    simp only [readConfig, place, file, Config.load, unreported.loadWith_eq]
    rfl
  have silent : configLine? stop.toFault = none := by
    rw [← Option.not_isSome_iff_eq_none, configLine?_isSome, Bool.not_eq_true]
    cases unreported with
    | key => rfl
    | @reading f failed =>
      -- What goes wrong in reading a file is no fault of a configuration either.
      rcases (Config.readFile_yields content).failure failed with malformed | ⟨f', same, illegible⟩
      · cases malformed
      · cases same
        exact illegible.not_isConfig
  simp only [run, read, silent]

end Demo

end Quorum
