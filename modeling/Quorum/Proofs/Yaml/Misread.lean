import Quorum.Proofs.Yaml.Kind
import Quorum.Yaml.Value

/-!
# Values that do not exist

Where a document is read and has no value, one of its nodes names something that does not exist, or
a rule of the format is broken. Without marks of tags such a node is a plain scalar, spelled like a
value of its kind.

## Main definitions

* `Yaml.Node.Misread` — a node has no value of its kind
* `Yaml.Misnames` — a text names a value that does not exist

## Main results

* `Yaml.Node.explained_build` — failures of making values are those of single nodes
* `Yaml.Node.ofSpelling_of_misread` — nodes without tags
* `Yaml.load_yields` — loading a text
-/

namespace Quorum

namespace Yaml

open Outcome (Yields)

namespace Node

/-- The node has no value of its kind. A mapping may stand for a scalar, but not for a date. -/
inductive Misread : Node → Failure → Prop
  | scalar {t : Tag} {text : String} {f : Failure} (fails : t.datum text = .error f) :
    Misread (scalar t text) f
  | mapping {t : Tag} {es : List (Node × Node)} {text : String} {f : Failure}
    (kind : t.isScalar = true) (stands : valueText? es = some text)
    (fails : t.datum text = .error f) : Misread (mapping t es) f
  | date (es : List (Node × Node)) : Misread (mapping .timestamp es) .mappedDate

/-- Every failure is that of a broken rule or of one of the given nodes. -/
def Explained (nodes : Node → Prop) (ds : List Deep) : Prop :=
  ∀ d ∈ ds, d.2 = .malformed ∨ ∃ p, nodes p ∧ p.Misread d.2

/-- A node stands in one of several nodes. -/
def PartOfItems (ns : List Node) (p : Node) : Prop := ∃ n ∈ ns, n.Part p

/-- A node stands in the key or the value of one of several entries. -/
def PartOfEntries (es : List (Node × Node)) (p : Node) : Prop := ∃ e ∈ es, e.1.Part p ∨ e.2.Part p

theorem part_of_items {t : Tag} {ns : List Node} {p : Node} (part : PartOfItems ns p) :
    (sequence t ns).Part p := by
  obtain ⟨n, member, part⟩ := part
  exact .item member part

theorem part_of_entries {t : Tag} {es : List (Node × Node)} {p : Node}
    (part : PartOfEntries es p) : (mapping t es).Part p := by
  obtain ⟨e, member, part | part⟩ := part
  · exact .key member part
  · exact .value member part

theorem PartOfItems.cons {n p : Node} {ns : List Node} (part : PartOfItems ns p) :
    PartOfItems (n :: ns) p := by
  obtain ⟨m, member, part⟩ := part
  exact ⟨m, List.mem_cons_of_mem n member, part⟩

theorem PartOfEntries.cons {e : Node × Node} {p : Node} {es : List (Node × Node)}
    (part : PartOfEntries es p) : PartOfEntries (e :: es) p := by
  obtain ⟨e', member, part⟩ := part
  exact ⟨e', List.mem_cons_of_mem e member, part⟩

namespace Explained

variable {nodes others : Node → Prop} {ds es : List Deep}

theorem nil : Explained nodes [] := List.forall_mem_nil _

theorem append (first : Explained nodes ds) (second : Explained nodes es) :
    Explained nodes (ds ++ es) :=
  List.forall_mem_append.mpr ⟨first, second⟩

theorem malformed (level : ℕ) : Explained nodes [(level, .malformed)] :=
  List.forall_mem_singleton.mpr (.inl rfl)

theorem mono (explained : Explained nodes ds) (more : ∀ p, nodes p → others p) :
    Explained others ds := fun d member =>
  (explained d member).imp_right fun ⟨p, part, misread⟩ => ⟨p, more p part, misread⟩

theorem keyFailure (level : ℕ) (k : Datum) : Explained nodes (keyFailure level k) := by
  unfold Yaml.keyFailure
  split
  · exact nil
  · exact malformed level

end Explained

theorem explained_scalar {nodes : Node → Prop} {n : Node} (part : nodes n) (level : ℕ) {t : Tag}
    {text : String} (misread : ∀ f, t.datum text = .error f → n.Misread f) :
    Explained nodes (buildScalar level t text).failures := by
  unfold buildScalar
  split
  · exact .nil
  · next f fails => exact List.forall_mem_singleton.mpr (.inr ⟨n, part, misread f fails⟩)

mutual

/-- Making the value of a node fails only for nodes in it. -/
theorem explained_build (level : ℕ) : ∀ n : Node, Explained n.Part (n.build level).failures
  | scalar t text => by
    rw [build]
    exact explained_scalar (.refl _) level fun f => .scalar
  | sequence t ns => by
    have items : Explained (sequence t ns).Part (buildItems (level + 1) ns).failures :=
      (explained_items (level + 1) ns).mono fun p => part_of_items
    have pairs : Explained (sequence t ns).Part (buildPairs (level + 1) ns).failures :=
      (explained_pairs (level + 1) ns).mono fun p => part_of_items
    unfold build
    split
    · exact items
    · exact pairs
    · exact .malformed _
  | mapping t es => by
    have entries : Explained (mapping t es).Part (buildEntries (level + 1) es).allFailures := by
      obtain ⟨merging, others⟩ := explained_entries (level + 1) es
      exact (merging.append others).mono fun p => part_of_entries
    unfold build
    split
    · exact entries
    · exact entries
    · split
      · next kind stands =>
        split
        · next date =>
          subst date
          exact List.forall_mem_singleton.mpr (.inr ⟨_, .refl _, .date es⟩)
        · exact explained_scalar (.refl _) level fun f => .mapping kind stands
      · exact .malformed _

/-- Making the values of items fails only for nodes in them. -/
theorem explained_items (level : ℕ) :
    ∀ ns : List Node, Explained (PartOfItems ns) (buildItems level ns).failures
  | [] => .nil
  | n :: ns => by
    unfold buildItems
    refine .append ((explained_build level n).mono fun p part => ?_)
      ((explained_items level ns).mono fun p => .cons)
    exact ⟨n, List.mem_cons_self, part⟩

/-- Making pairs fails only for nodes in them. -/
theorem explained_pairs (level : ℕ) :
    ∀ ns : List Node, Explained (PartOfItems ns) (buildPairs level ns).failures
  | [] => .nil
  | mapping t [(k, v)] :: ns => by
    unfold buildPairs
    refine .append (.append ((explained_build level k).mono fun p part => ?_)
      ((explained_build level v).mono fun p part => ?_))
      ((explained_pairs level ns).mono fun p => .cons)
    · exact ⟨_, List.mem_cons_self, .key List.mem_cons_self part⟩
    · exact ⟨_, List.mem_cons_self, .value List.mem_cons_self part⟩
  | scalar _ _ :: _ => .malformed level
  | sequence _ _ :: _ => .malformed level
  | mapping _ [] :: _ => .malformed level
  | mapping _ (_ :: _ :: _) :: _ => .malformed level

/-- Making the entries of a mapping fails only for nodes in them. -/
theorem explained_entries (level : ℕ) : ∀ es : List (Node × Node),
    Explained (PartOfEntries es) (buildEntries level es).mergeFailures ∧
      Explained (PartOfEntries es) (buildEntries level es).failures
  | [] => ⟨.nil, .nil⟩
  | (k, v) :: es => by
    obtain ⟨merging, others⟩ := explained_entries level es
    have merging := merging.mono fun p => PartOfEntries.cons (e := (k, v))
    have others := others.mono fun p => PartOfEntries.cons (e := (k, v))
    have inKey : ∀ p, k.Part p → PartOfEntries ((k, v) :: es) p := fun p part =>
      ⟨_, List.mem_cons_self, .inl part⟩
    have inValue : ∀ p, v.Part p → PartOfEntries ((k, v) :: es) p := fun p part =>
      ⟨_, List.mem_cons_self, .inr part⟩
    have key := (explained_build level k).mono inKey
    have value := (explained_build level v).mono inValue
    unfold buildEntries
    split
    · obtain ⟨source, entries⟩ := explained_source level v
      exact ⟨(source.mono inValue).append merging, (entries.mono inValue).append others⟩
    · exact ⟨merging, value.append others⟩
    · exact ⟨merging, ((key.append (.keyFailure level _)).append value).append others⟩

/-- Merging a node fails only for nodes in it. -/
theorem explained_source (level : ℕ) : ∀ n : Node,
    Explained n.Part (mergeSource level n).2.1 ∧ Explained n.Part (mergeSource level n).2.2
  | scalar _ _ => ⟨.malformed level, .nil⟩
  | sequence _ ns => by
    obtain ⟨merging, others⟩ := explained_sources level ns
    exact ⟨merging.mono fun p => part_of_items, others.mono fun p => part_of_items⟩
  | mapping _ es => by
    obtain ⟨merging, others⟩ := explained_entries level es
    exact ⟨merging.mono fun p => part_of_entries, others.mono fun p => part_of_entries⟩

/-- Merging nodes fails only for nodes in them. -/
theorem explained_sources (level : ℕ) : ∀ ns : List Node,
    Explained (PartOfItems ns) (mergeSources level ns).2.1 ∧
      Explained (PartOfItems ns) (mergeSources level ns).2.2
  | [] => ⟨.nil, .nil⟩
  | mapping t es :: ns => by
    obtain ⟨merging, others⟩ := explained_entries level es
    obtain ⟨mergings, rest⟩ := explained_sources level ns
    have inside : ∀ p, PartOfEntries es p → PartOfItems (mapping t es :: ns) p := fun p part =>
      ⟨_, List.mem_cons_self, part_of_entries part⟩
    exact ⟨(merging.mono inside).append (mergings.mono fun p => .cons),
      (others.mono inside).append (rest.mono fun p => .cons)⟩
  | scalar _ _ :: _ => ⟨.malformed level, .nil⟩
  | sequence _ _ :: _ => ⟨.malformed level, .nil⟩

end

/-- In a text without marks of tags only a plain scalar can have no value, and it is spelled like a
value of its kind. -/
theorem ofSpelling_of_misread {p : Node} (usual : p.Usual) {f : Failure} (misread : p.Misread f)
    (other : f ≠ .malformed) : (∃ text, p = scalar (.ofPlain text) text) ∧ f.OfSpelling := by
  cases misread with
  | @scalar t text f fails =>
    rcases usual with rfl | ⟨rfl, line⟩
    · cases fails
    · exact ⟨⟨text, rfl⟩, ((datum_ofPlain line).failure fails).resolve_left other⟩
  | mapping kind stands fails =>
    cases usual
    cases kind
  | date es => cases usual

end Node

/-- The failure that is met first is one of the failures. -/
theorem mem_of_firstFailure? {ds : List Deep} {d : Deep} (first : firstFailure? ds = some d) :
    d ∈ ds := by
  induction ds generalizing d with
  | nil => cases first
  | cons e ds ih =>
    unfold firstFailure? at first
    split at first
    · next e' found =>
      split at first
      · cases first
        exact List.mem_cons_of_mem e (ih found)
      · cases first
        exact List.mem_cons_self
    · cases first
      exact List.mem_cons_self

/-- The text names a value that does not exist: a number past its bound, or a node without a value
of its kind. Where there are no marks of tags, that node is a plain scalar that is spelled like a
value. -/
inductive Misnames (s : List Char) : Failure → Prop
  | number {f : Failure} (exceeds : Exceeds s f) : Misnames s f
  | node {n p : Node} {f : Failure} (document : Node.ofText s = .ok (some n)) (part : n.Part p)
    (misread : p.Misread f) (other : f ≠ .malformed)
    (cause : '!' ∈ s ∨ (∃ text, p = .scalar (.ofPlain text) text) ∧ f.OfSpelling) : Misnames s f

/-- A text has a value, breaks a rule of the format or names a value that does not exist. -/
theorem load_yields (s : List Char) :
    Yields (fun _ => True) (fun f => f = .malformed ∨ Misnames s f) (load s) := by
  have document := ofText_fits s
  unfold load
  cases read : Node.ofText s with
  | error f => exact .error ((document.failure read).imp_right .number)
  | ok n =>
    cases n with
    | none => exact .ok trivial
    | some n =>
      have fits : n.Fits s := document.answer read n rfl
      simp only [Outcome.bind_ok]
      split
      · next d first =>
        refine .error (Classical.or_iff_not_imp_left.mpr fun other => ?_)
        obtain ⟨p, part, misread⟩ :=
          (Node.explained_build 0 n d (mem_of_firstFailure? first)).resolve_left other
        exact .node read part misread other (fits.imp_right fun usual =>
          Node.ofSpelling_of_misread (usual p part) misread other)
      · exact .ok trivial

theorem Exceeds.ne_malformed {s : List Char} {f : Failure} (exceeds : Exceeds s f) :
    f ≠ .malformed := by
  cases exceeds with
  | escape _ _ _ other => exact other
  | version => exact nofun

theorem Misnames.ne_malformed {s : List Char} {f : Failure} (misnames : Misnames s f) :
    f ≠ .malformed := by
  cases misnames with
  | number exceeds => exact exceeds.ne_malformed
  | node _ _ _ other _ => exact other

end Yaml

end Quorum
