import Quorum.Command.Run
import Quorum.Proofs.Command.Exit
import Quorum.Proofs.Command.Path
import Quorum.Proofs.Society.Records
import Quorum.Proofs.Society.Request

/-!
# Keys are dealt into files completely, or not at all

Whatever can go wrong is found out before the first file is written: the places of all files are
looked at, the key is dealt, and only then the output directory is made. The files lie at different
places, so none of them is lost, and each is read back as what was dealt. The places can be looked
at only as long as the output path can be followed. A path that leads out of a directory that is not
there can be followed once the directory has been made, and then its files may have been there
before.

## Main definitions

* `Keygen.Adds` — the files of a run are new, and nothing else has changed
* `Keygen.ReadsBack` — what was dealt is read back from the files

## Main results

* `Keygen.nodup_targets` — the files lie at different places
* `Keygen.adds_of_free`, `Keygen.readsBack_of_free` — what a run makes if nothing is in its way
* `Keygen.run_all_or_nothing` — a run adds all files that are read back, or leaves everything as it
  was
* `Keygen.run_overwrites_behind_missing_directory` — a path that cannot be followed hides files
* `Command.length_intText_of_ofArguments?` — the parties of a command line are few enough to be read
  back
-/

namespace Quorum

/-- The value of a polynomial has few digits. -/
theorem Sharing.length_intText_evaluate (coefficients : List ℤ) (x : ℤ) :
    (Json.intText (evaluate coefficients x)).length ≤ 4300 := by
  obtain ⟨nonneg, reduced⟩ := evaluate_mem_range coefficients x
  have order_lt : (order : ℤ) < 10 ^ 78 := by decide
  have short : (evaluate coefficients x).natAbs < 10 ^ 78 := by omega
  exact (Json.length_intText_le_of_natAbs (by decide) short).trans (by decide)

namespace Dealer

variable {parties threshold : ℤ} {draw : ℕ → ℕ} {m : Material} {shares : List KeyShare}

theorem length_shares (dealt : deal parties threshold draw = .ok (m, shares)) :
    shares.length = parties.toNat := by
  have actors := congrArg List.length (actors_of_deal dealt)
  rwa [List.length_map, List.length_map, List.length_range] at actors

/-- What is dealt to a number of parties that can be written can be written. -/
theorem fits_of_deal (dealt : deal parties threshold draw = .ok (m, shares))
    (few : (Json.intText parties).length ≤ 4300) : m.Fits ∧ ∀ s ∈ shares, s.Fits := by
  obtain ⟨positive, below⟩ := bounds_of_deal dealt
  obtain ⟨quorum, parties_eq⟩ := quorum_of_deal dealt
  obtain ⟨secrets, generated, shared, -⟩ := deal_eq_ok_iff.mp dealt
  have threshold_eq : (m.keys.threshold : ℤ) = threshold := by
    rw [Material.quorum] at quorum
    omega
  -- The threshold and the indices are smaller than the number of parties, so they are not longer.
  have smaller {n : ℤ} (nonneg : 0 ≤ n) (lt : n < parties) : (Json.intText n).length ≤ 4300 :=
    (Json.length_intText_mono nonneg lt.le).trans few
  refine ⟨⟨?_, ?_⟩, fun s member => ?_⟩
  · rw [KeySet.Fits, threshold_eq]
    exact smaller positive.le below
  · rwa [parties_eq]
  · obtain ⟨secret, dealt, made⟩ := Outcome.exists_of_mem_mapM shared s member
    obtain ⟨publicShare, -, made⟩ := Outcome.bind_eq_ok.mp made
    cases made
    rw [Threshold.secrets_of_generate generated] at dealt
    obtain ⟨i, range, rfl⟩ := List.mem_map.mp dealt
    have i_lt := List.mem_range.mp range
    have index : (Json.intText i).length ≤ 4300 := smaller (Int.natCast_nonneg i) (by omega)
    exact ⟨index, ⟨Int.natCast_nonneg i, index⟩, Sharing.length_intText_evaluate _ _⟩

end Dealer

namespace Keygen

theorem toList_shareName (i : ℕ) :
    (shareName i).toList = "actor_".toList ++ (Nat.toDigits 10 i ++ ".json".toList) := by
  rw [shareName, String.toList_append, String.toList_append, Nat.toList_repr, List.append_assoc]

/-- The file of a share has a name of its own. -/
theorem isName_shareName (i : ℕ) : Path.IsName (shareName i) := by
  have start : (shareName i).toList.head? = some 'a' := by
    rw [toList_shareName]
    rfl
  have different {s : String} (other : s.toList.head? ≠ some 'a') : shareName i ≠ s := by
    rintro rfl
    exact other start
  refine ⟨⟨different (by decide), different (by decide), ?_⟩, different (by decide)⟩
  rw [toList_shareName, List.mem_append, List.mem_append]
  rintro (front | digit | back)
  · exact absurd front (by decide)
  · exact absurd (Nat.isDigit_of_mem_toDigits (by decide) le_rfl digit) (by decide)
  · exact absurd back (by decide)

theorem shareName_injective : Function.Injective shareName := by
  intro i j same
  have digits : Nat.toDigits 10 i = Nat.toDigits 10 j := by
    rw [← String.toList_inj, toList_shareName, toList_shareName] at same
    exact List.append_cancel_right (List.append_cancel_left same)
  calc
    i = Nat.ofDigitChars 10 (Nat.toDigits 10 i) 0 := Nat.ofDigitChars_ten_toDigits.symm
    _ = Nat.ofDigitChars 10 (Nat.toDigits 10 j) 0 := by rw [digits]
    _ = j := Nat.ofDigitChars_ten_toDigits

variable (g : Keygen)

/-- The names of the files. -/
def names : List String :=
  "society.json" :: "public_key.json" :: (List.range g.parties.toNat).map shareName

theorem paths_eq : g.paths = g.names.map (Path.inside g.output) := by
  rw [paths, names, List.map_cons, List.map_cons, List.map_map]
  rfl

theorem length_paths : g.paths.length = g.parties.toNat + 2 := by
  rw [paths_eq, List.length_map, names, List.length_cons, List.length_cons, List.length_map,
    List.length_range]

theorem isName_of_mem_names : ∀ name ∈ g.names, Path.IsName name := by
  have society : Path.IsName "society.json" := ⟨⟨by decide, by decide, by decide⟩, by decide⟩
  have published : Path.IsName "public_key.json" := ⟨⟨by decide, by decide, by decide⟩, by decide⟩
  refine List.forall_mem_cons.mpr ⟨society, List.forall_mem_cons.mpr ⟨published, ?_⟩⟩
  exact List.forall_mem_map.mpr fun i _ => isName_shareName i

theorem nodup_names : g.names.Nodup := by
  have different {s : String} (other : s.toList.head? ≠ some 'a') :
      s ∉ (List.range g.parties.toNat).map shareName := by
    intro member
    obtain ⟨i, -, rfl⟩ := List.mem_map.mp member
    rw [toList_shareName] at other
    exact other rfl
  refine List.nodup_cons.mpr ⟨?_, List.nodup_cons.mpr ⟨different (by decide), ?_⟩⟩
  · exact List.not_mem_cons_of_ne_of_not_mem (by decide) (different (by decide))
  · exact List.nodup_range.map shareName_injective

/-- The files lie at different places. -/
theorem nodup_targets : (g.paths.map Path.target).Nodup := by
  rw [paths_eq, List.map_map]
  refine List.Nodup.map_on (fun name member other member' same => ?_) g.nodup_names
  exact Path.target_inside_inj (g.isName_of_mem_names name member)
    (g.isName_of_mem_names other member') same

/-! ### What is written -/

variable {m : Material} {shares : List KeyShare}

/-- The places of the files that are written are those of the paths. -/
theorem perm_files (length : shares.length = g.parties.toNat) :
    ((g.files m shares).map NewFile.path).Perm (g.paths.map Path.target) := by
  have shared : (g.sharePaths.zipWith
      (fun p s => (⟨Path.target p, Utf8.encode s.handOver, true⟩ : NewFile)) shares).map
        NewFile.path = g.sharePaths.map Path.target := by
    refine List.ext_getElem ?_ fun i _ _ => ?_
    · rw [List.length_map, List.length_zipWith, List.length_map, length, sharePaths,
        List.length_map, List.length_range, Nat.min_self]
    · rw [List.getElem_map, List.getElem_zipWith, List.getElem_map]
  rw [files, paths, List.map_cons, List.map_cons, List.map_cons, List.map_cons, shared]
  exact List.Perm.swap ..

/-- The share at a position is written to the file of that position. -/
theorem mem_files {i : ℕ} {s : KeyShare} (found : shares[i]? = some s)
    (below : i < g.parties.toNat) :
    ⟨Path.target (g.sharePath i), Utf8.encode s.handOver, true⟩ ∈ g.files m shares := by
  obtain ⟨i_lt, rfl⟩ := List.getElem?_eq_some_iff.mp found
  refine List.mem_cons_of_mem _ (List.mem_cons_of_mem _ (List.mem_iff_getElem.mpr ⟨i, ?_, ?_⟩))
  · rw [List.length_zipWith, sharePaths, List.length_map, List.length_range]
    exact lt_min below i_lt
  · rw [List.getElem_zipWith]
    simp only [sharePaths, List.getElem_map, List.getElem_range]

/-! ### How a run ends -/

variable {g} {existing : Files} {draw : ℕ → ℕ}

theorem failed_of_holds (held : ∃ p ∈ g.paths, existing.holds p = true) :
    (g.run existing draw).Failed := by
  obtain ⟨p, found⟩ := Option.isSome_iff_exists.mp (List.find?_isSome.mpr held)
  rw [run, found]
  exact Exit.failed_failure _ _

theorem failed_of_error {f : Fault} (failed : Dealer.deal g.parties g.threshold draw = .error f) :
    (g.run existing draw).Failed := by
  rw [run]
  split
  · exact Exit.failed_failure _ _
  · rw [failed]
    dsimp only
    split
    · exact Exit.failed_failure _ _
    · exact Exit.failed_failure _ _
    · exact Exit.failed_crashed _ _

theorem failed_of_obstacle {o : Files.Obstacle} (met : existing.obstacle? g.output = some o) :
    (g.run existing draw).Failed := by
  cases dealt : Dealer.deal g.parties g.threshold draw with
  | error f => exact failed_of_error dealt
  | ok dealing =>
    rw [run, dealt, met]
    split
    · exact Exit.failed_failure _ _
    · exact Exit.failed_crashed _ _

/-- Without anything in the way all files are written. -/
theorem run_of_free (free : ∀ p ∈ g.paths, existing.holds p = false)
    (dealt : Dealer.deal g.parties g.threshold draw = .ok (m, shares))
    (clear : existing.obstacle? g.output = none) :
    (g.run existing draw).code = 0 ∧ (g.run existing draw).directories = g.directories ∧
      (g.run existing draw).files = g.files m shares := by
  have none : g.paths.find? existing.holds = none :=
    List.find?_eq_none.mpr fun p member => Bool.eq_false_iff.mp (free p member)
  rw [run, none, dealt, clear]
  exact ⟨rfl, rfl, rfl⟩

/-! ### All or nothing -/

/-- What a run that goes well makes of the files: those of the paths are new, and nothing else has
changed. -/
structure Adds (g : Keygen) (before after : Files) : Prop where
  /-- The files are two, and one for every party. -/
  length_paths : g.paths.length = g.parties.toNat + 2
  /-- They lie at different places. -/
  nodup : (g.paths.map Path.target).Nodup
  /-- They were not there, and are there now. -/
  added : ∀ p ∈ g.paths, before.contents.get? (Path.target p) = none ∧
    ∃ content, after.contents.get? (Path.target p) = some content
  /-- All other places hold what they held before. -/
  kept : ∀ place ∉ g.paths.map Path.target,
    after.contents.get? place = before.contents.get? place
  /-- The directories for the files have been made. -/
  directories : after.directories = g.directories ++ before.directories

/-- What was dealt is read back from the files at the paths. -/
structure ReadsBack (g : Keygen) (after : Files) (m : Material) (shares : List KeyShare) :
    Prop where
  keys : (after.file? g.publicPath).map KeySet.ofBytes = some (.ok m.keys)
  material : (after.file? g.societyPath).map Material.ofBytes = some (.ok m)
  /-- The share of every actor is in the actor's file, its secret included. -/
  shares : ∀ i : ℕ, i < g.parties → ∃ s, shares[i]? = some s ∧ s.actor = i ∧
    (after.file? (g.sharePath i)).map KeyShare.ofBytes = some (.ok s)

theorem passable_of_mem_paths (passable : existing.passable g.output = true) {p : String}
    (member : p ∈ g.paths) : existing.passable p = true := by
  rw [paths_eq] at member
  obtain ⟨name, isOne, rfl⟩ := List.mem_map.mp member
  rwa [existing.passable_inside (g.isName_of_mem_names name isOne)]

/-- If the output directory is found where it lies, so are the files in it. -/
theorem holds_eq_isTaken (passable : existing.passable g.output = true) {p : String}
    (member : p ∈ g.paths) : existing.holds p = existing.isTaken (Path.target p) := by
  rw [Files.holds, passable_of_mem_paths passable member, Bool.true_and]

section Written

variable (passable : existing.passable g.output = true)
  (free : ∀ p ∈ g.paths, existing.holds p = false)
  (dealt : Dealer.deal g.parties g.threshold draw = .ok (m, shares))
  (clear : existing.obstacle? g.output = none)
include free dealt clear

theorem nodup_files : ((g.run existing draw).files.map NewFile.path).Nodup := by
  rw [(run_of_free free dealt clear).2.2]
  exact (g.perm_files (Dealer.length_shares dealt)).nodup_iff.mpr g.nodup_targets

/-- Each file that was written is at its place. -/
theorem get?_leaves {place : String} {content : Bytes} {secret : Bool}
    (written : ⟨place, content, secret⟩ ∈ g.files m shares) :
    ((g.run existing draw).leaves existing).contents.get? place = some content := by
  rw [← (run_of_free free dealt clear).2.2] at written
  have held := Exit.get?_leaves_of_mem existing (nodup_files free dealt clear) written
  exact held

include passable

/-- A run that goes well adds the files of the paths and nothing else. -/
theorem adds_of_free : g.Adds existing ((g.run existing draw).leaves existing) := by
  obtain ⟨-, directories, files⟩ := run_of_free free dealt clear
  have perm := g.perm_files (m := m) (Dealer.length_shares dealt)
  refine ⟨g.length_paths, g.nodup_targets, fun p member => ⟨?_, ?_⟩, fun place other => ?_, ?_⟩
  -- The check looked at this very place, because the path can be followed.
  · have notTaken := free p member
    rw [holds_eq_isTaken passable member, Files.isTaken, Bool.or_eq_false_iff] at notTaken
    exact Option.isNone_iff_eq_none.mp (Option.isSome_eq_false_iff.mp notTaken.1)
  · obtain ⟨n, written, same⟩ :=
      List.mem_map.mp (perm.mem_iff.mpr (List.mem_map_of_mem member))
    rw [← same]
    exact ⟨n.content, get?_leaves free dealt clear written⟩
  · refine Exit.get?_leaves_of_not_mem existing ?_
    rwa [files, perm.mem_iff]
  · rw [Exit.directories_leaves, directories]

/-- A file that was written is found at its path. -/
theorem file?_leaves {p : String} (member : p ∈ g.paths) {content : Bytes} {secret : Bool}
    (written : ⟨Path.target p, content, secret⟩ ∈ g.files m shares) :
    ((g.run existing draw).leaves existing).file? p = some content := by
  rw [Files.file?, if_pos (Exit.passable_leaves (passable_of_mem_paths passable member))]
  exact get?_leaves free dealt clear written

/-- What was dealt is read back from the files that a run has written. -/
theorem readsBack_of_free (few : (Json.intText g.parties).length ≤ 4300) :
    g.ReadsBack ((g.run existing draw).leaves existing) m shares := by
  obtain ⟨fits, shares_fit⟩ := Dealer.fits_of_deal dealt few
  have read {p : String} (member : p ∈ g.paths) {content : Bytes} {secret : Bool}
      (written : ⟨Path.target p, content, secret⟩ ∈ g.files m shares) :
      ((g.run existing draw).leaves existing).file? p = some content :=
    file?_leaves passable free dealt clear member written
  refine ⟨?_, ?_, fun i below => ?_⟩
  · rw [read (List.mem_cons_of_mem _ List.mem_cons_self) List.mem_cons_self, Option.map_some,
      KeySet.ofBytes_toBytes fits.1]
  · rw [read List.mem_cons_self (List.mem_cons_of_mem _ List.mem_cons_self), Option.map_some]
    exact congrArg some (Material.faithful.document_indented (by decide) fits)
  · have inRange : i < g.parties.toNat := by omega
    have actors := congrArg (fun l : List ℤ => l[i]?) (Dealer.actors_of_deal dealt)
    simp only [List.getElem?_map, List.getElem?_range inRange, Option.map_some,
      Option.map_eq_some_iff] at actors
    obtain ⟨s, found, actor⟩ := actors
    have member : g.sharePath i ∈ g.paths := List.mem_cons_of_mem _
      (List.mem_cons_of_mem _ (List.mem_map_of_mem (List.mem_range.mpr inRange)))
    refine ⟨s, found, actor, ?_⟩
    rw [read member (g.mem_files found inRange), Option.map_some]
    exact congrArg some (KeyShare.faithful.document_indented (by decide)
      (shares_fit s (List.mem_of_getElem? found)))

end Written

/-- Dealing keys is all or nothing, as long as the directories that the output path leads out of
are there. It fails and leaves everything as it was if there is something at the place of one of the
files, if the threshold does not lie between zero and the number of parties, if the deal fails or if
the output directory cannot be made. Otherwise it adds its files and nothing else, and what was
dealt is read back from them. -/
theorem run_all_or_nothing (g : Keygen) (existing : Files) (draw : ℕ → ℕ)
    (passable : existing.passable g.output = true) :
    ((∃ p ∈ g.paths, existing.isTaken (Path.target p) = true) ∨
        ¬(0 < g.threshold ∧ g.threshold < g.parties) ∨
        (∃ f, Dealer.deal g.parties g.threshold draw = .error f) ∨
        existing.obstacle? g.output ≠ none →
      (g.run existing draw).code ≠ 0 ∧ (g.run existing draw).leaves existing = existing) ∧
    ∀ m shares, (∀ p ∈ g.paths, existing.isTaken (Path.target p) = false) →
      Dealer.deal g.parties g.threshold draw = .ok (m, shares) →
      existing.obstacle? g.output = none →
      (g.run existing draw).code = 0 ∧
        g.Adds existing ((g.run existing draw).leaves existing) ∧
        ((Json.intText g.parties).length ≤ 4300 →
          g.ReadsBack ((g.run existing draw).leaves existing) m shares) := by
  have failing (failed : (g.run existing draw).Failed) :
      (g.run existing draw).code ≠ 0 ∧ (g.run existing draw).leaves existing = existing :=
    ⟨failed.code_ne, failed.leaves existing⟩
  refine ⟨?_, fun m shares notTaken dealt clear => ?_⟩
  · rintro (⟨p, member, taken⟩ | outside | ⟨f, error⟩ | met)
    · refine failing (failed_of_holds ⟨p, member, ?_⟩)
      rwa [holds_eq_isTaken passable member]
    · cases dealt : Dealer.deal g.parties g.threshold draw with
      | error f => exact failing (failed_of_error dealt)
      | ok dealing => exact absurd (Dealer.bounds_of_deal dealt) outside
    · exact failing (failed_of_error error)
    · obtain ⟨o, found⟩ := Option.ne_none_iff_exists'.mp met
      exact failing (failed_of_obstacle found)
  · have free : ∀ p ∈ g.paths, existing.holds p = false := fun p member => by
      rw [holds_eq_isTaken passable member]
      exact notTaken p member
    exact ⟨(run_of_free free dealt clear).1, adds_of_free passable free dealt clear,
      readsBack_of_free passable free dealt clear⟩

/-- Keys are dealt into a directory that is reached through another one with a file in it. -/
theorem run_all_or_nothing_through_directory :
    let g : Keygen := ⟨2, 1, "x/../keys"⟩
    let existing : Files := ⟨.ofList [("x/notes", [1])], []⟩
    existing.passable g.output = true ∧
      ∃ m shares, Dealer.deal 2 1 (fun _ => 0) = .ok (m, shares) ∧
        (g.run existing fun _ => 0).code = 0 ∧
        g.Adds existing ((g.run existing fun _ => 0).leaves existing) ∧
        g.ReadsBack ((g.run existing fun _ => 0).leaves existing) m shares := by
  intro g existing
  have passable : existing.passable g.output = true := by decide +kernel
  have notTaken : ∀ p ∈ g.paths, existing.isTaken (Path.target p) = false := by decide +kernel
  have clear : existing.obstacle? g.output = none := by decide +kernel
  obtain ⟨m, shares, dealt⟩ := Gathering.exists_deal_of_zero_draws
  obtain ⟨code, adds, readsBack⟩ :=
    (run_all_or_nothing g existing (fun _ => 0) passable).2 m shares notTaken dealt clear
  exact ⟨passable, m, shares, dealt, code, adds, readsBack (by decide)⟩

/-- A path that leads out of a directory that is not there hides what lies at its end: the directory
is made after the check, and the material of another society is overwritten. -/
theorem run_overwrites_behind_missing_directory :
    let g : Keygen := ⟨2, 1, "a/../b"⟩
    let existing : Files := ⟨.ofList [("b/society.json", [])], []⟩
    existing.isTaken (Path.target g.societyPath) = true ∧
      (g.run existing fun _ => 0).code = 0 ∧
      ((g.run existing fun _ => 0).leaves existing).contents.get? "b/society.json" ≠
        existing.contents.get? "b/society.json" := by
  intro g existing
  have taken : existing.isTaken (Path.target g.societyPath) = true := by decide +kernel
  have free : ∀ p ∈ g.paths, existing.holds p = false := by decide +kernel
  have clear : existing.obstacle? g.output = none := by decide +kernel
  have place : Path.target g.societyPath = "b/society.json" := by decide +kernel
  obtain ⟨m, shares, dealt⟩ := Gathering.exists_deal_of_zero_draws
  have held := get?_leaves free dealt clear (List.mem_cons_of_mem _ List.mem_cons_self)
  have before : existing.contents.get? "b/society.json" = some [] := by decide +kernel
  rw [place] at held
  refine ⟨taken, (run_of_free free dealt clear).1, ?_⟩
  rw [held, before, ne_eq, Option.some.injEq]
  intro empty
  -- What was written is read as the material, and nothing is read from an empty file.
  have fits := (Dealer.fits_of_deal dealt (by decide)).1
  have read := Material.faithful.document_indented (by decide) fits
  rw [empty] at read
  have unreadable : Shape.document Material.ofJson [] = Checked.fail .malformed := by decide +kernel
  rw [unreadable] at read
  cases read

end Keygen

/-! ### Command lines -/

theorem length_intText_of_optionInt? {s : String} {n : ℤ} (read : optionInt? s = some n)
    (nonneg : 0 ≤ n) : (Json.intText n).length ≤ 4300 := by
  rw [optionInt?] at read
  generalize Lenient.sign (Lenient.trim (s.toList.map Digit.plain)) = signed at read
  obtain ⟨negative, body⟩ := signed
  obtain ⟨ds, -, read⟩ := Option.bind_eq_some_iff.mp read
  split at read
  · cases read
  · next valid =>
    rw [Bool.or_eq_true, Bool.or_eq_true, Bool.not_eq_true', not_or, not_or, Bool.not_eq_false,
      List.all_eq_true, List.isEmpty_iff, decide_eq_true_eq, not_lt] at valid
    obtain ⟨⟨some, digits⟩, short⟩ := valid
    -- A minus sign can only stand before zero.
    have value : n = (Json.digitsValue ds : ℤ) := by
      cases negative with
      | false => exact (Option.some.inj read).symm
      | true =>
        have opposite : -(Json.digitsValue ds : ℤ) = n := Option.some.inj read
        omega
    rw [value]
    exact (Json.length_intText_le false (List.length_pos_of_ne_nil some)
      (Json.digitsValue_lt digits)).trans short

/-- A command line asks for a number of parties that can be written. -/
theorem Command.length_intText_of_ofArguments? {usual : String} {args : List String} {g : Keygen}
    (asked : ofArguments? usual args = some (.keygen g)) (nonneg : 0 ≤ g.parties) :
    (Json.intText g.parties).length ≤ 4300 := by
  have withOptions {kinds : List OptionKind} {rest : List String}
      {make : Arguments → Option Command} (made : withOptions? kinds rest make = some (.keygen g)) :
      ∃ a, make a = some (.keygen g) := by
    obtain ⟨a, -, made⟩ := Option.bind_eq_some_iff.mp made
    split at made
    · cases made
    · split at made
      · cases made
      · exact ⟨a, made⟩
  obtain ⟨a, -, asked⟩ := Option.bind_eq_some_iff.mp asked
  split at asked
  · cases asked
  · split at asked
    · obtain ⟨b, made⟩ := withOptions asked
      cases made
    · obtain ⟨b, made⟩ := withOptions asked
      obtain ⟨parties, -, made⟩ := Option.bind_eq_some_iff.mp made
      obtain ⟨threshold, -, made⟩ := Option.bind_eq_some_iff.mp made
      cases made
    · obtain ⟨b, made⟩ := withOptions asked
      obtain ⟨parties, read, made⟩ := Option.bind_eq_some_iff.mp made
      obtain ⟨threshold, -, made⟩ := Option.bind_eq_some_iff.mp made
      cases made
      rw [intOption?] at read
      split at read
      · cases read
        have usual : (Json.intText 3).length ≤ 4300 := by decide
        exact usual
      · obtain ⟨n, value, rfl⟩ := Option.map_eq_some_iff.mp read
        exact length_intText_of_optionInt? value nonneg
    · cases asked

end Quorum
