import Quorum.Proofs.Yaml.Scan
import Quorum.Yaml.Node

/-!
# Where kinds come from

The kind of a node is given by its tag, or it is the one that nodes of its shape have: text between
quotes, the kind of the spelling of a plain scalar, sequences and mappings. So in the document of a
text without marks of tags every node has its usual kind. Reading the tokens of a document adds no
failures of its own but those of broken rules.

## Main definitions

* `Yaml.Node.Part` — the nodes that stand in a node
* `Yaml.Node.Usual` — nodes with the kind that they have without a tag
* `Yaml.Node.Fits` — what is known of a node of a text without its place
* `Yaml.Reader.Keeps` — readers that go on from fitting tokens to fitting tokens

## Main results

* `Yaml.reads_fit` — reading a node
* `Yaml.ofText_fits` — the document of a text
-/

namespace Quorum

namespace Yaml

open Outcome (Yields)

variable {s : List Char}

namespace Node

/-- A node stands in another one, or is that node. -/
inductive Part : Node → Node → Prop
  | refl (n : Node) : Part n n
  | item {t : Tag} {ns : List Node} {n p : Node} (member : n ∈ ns) (part : Part n p) :
    Part (sequence t ns) p
  | key {t : Tag} {es : List (Node × Node)} {e : Node × Node} {p : Node} (member : e ∈ es)
    (part : Part e.1 p) : Part (mapping t es) p
  | value {t : Tag} {es : List (Node × Node)} {e : Node × Node} {p : Node} (member : e ∈ es)
    (part : Part e.2 p) : Part (mapping t es) p

/-- The node has the kind that it has without a tag. A plain scalar does not end in a line end. -/
def Usual : Node → Prop
  | scalar t text => t = .str ∨ t = .ofPlain text ∧ text.toList.getLast? ≠ some '\n'
  | sequence t _ => t = .seq
  | mapping t _ => t = .map

/-- What is known of a node of a text without its place: only where there is a mark of a tag can any
node in it have another kind than the usual one. -/
def Fits (s : List Char) (n : Node) : Prop := '!' ∈ s ∨ ∀ p, n.Part p → p.Usual

theorem Fits.scalar {tag : Option String} (tagged : tag.isSome = true → '!' ∈ s) {plain : Bool}
    {text : String} (line : plain = true → text.toList.getLast? ≠ some '\n') :
    (scalar (scalarTag tag plain text) text).Fits s := by
  cases tag with
  | some t => exact .inl (tagged rfl)
  | none =>
    refine .inr fun p part => ?_
    cases part
    cases plain with
    | true => exact .inr ⟨rfl, line rfl⟩
    | false => exact .inl rfl

theorem Fits.absent : absent.Fits s := by
  refine .inr fun p part => ?_
  cases part
  exact .inr ⟨rfl, by decide⟩

theorem Fits.sequence {tag : Option String} (tagged : tag.isSome = true → '!' ∈ s)
    {ns : List Node} (items : ∀ n ∈ ns, n.Fits s) :
    (sequence (collectionTag tag .seq) ns).Fits s := by
  by_cases mark : '!' ∈ s
  · exact .inl mark
  · cases tag with
    | some t => exact .inl (tagged rfl)
    | none =>
      refine .inr fun p part => ?_
      cases part with
      | refl => rfl
      | item member part => exact (items _ member).resolve_left mark p part

theorem Fits.mapping {tag : Option String} (tagged : tag.isSome = true → '!' ∈ s)
    {es : List (Node × Node)} (entries : ∀ e ∈ es, e.1.Fits s ∧ e.2.Fits s) :
    (mapping (collectionTag tag .map) es).Fits s := by
  by_cases mark : '!' ∈ s
  · exact .inl mark
  · cases tag with
    | some t => exact .inl (tagged rfl)
    | none =>
      refine .inr fun p part => ?_
      cases part with
      | refl => rfl
      | key member part => exact (entries _ member).1.resolve_left mark p part
      | value member part => exact (entries _ member).2.resolve_left mark p part

end Node

/-- What is known of the state of reading the tokens of a text. -/
structure Source.Fits (s : List Char) (src : Source) : Prop where
  tokens : ∀ t ∈ src.tokens, t.Fits s
  ending : Refuses s src.ending
  anchors : ∀ e ∈ src.anchors, e.2.Fits s

namespace Reader

variable {α β : Type} {P : α → Prop} {Q : β → Prop}

/-- The reader goes on from fitting tokens to fitting tokens; its answers are of one kind, and it
fails only where a rule is broken or behind the last token. -/
def Keeps (s : List Char) (P : α → Prop) (m : Reader α) : Prop :=
  ∀ src : Source, src.Fits s → Yields (fun p => P p.1 ∧ p.2.Fits s) (Refuses s) (m.run src)

namespace Keeps

theorem pure {a : α} (holds : P a) : Keeps s P (Pure.pure a) := fun _ fits => .ok ⟨holds, fits⟩

theorem bind {m : Reader α} {k : α → Reader β} (first : Keeps s P m)
    (second : ∀ a, P a → Keeps s Q (k a)) : Keeps s Q (m >>= k) := fun src fits =>
  (first src fits).bind fun p ⟨holds, fits⟩ => second p.1 holds p.2 fits

theorem map {m : Reader α} {f : α → β} (keeps : Keeps s P m) (gives : ∀ a, P a → Q (f a)) :
    Keeps s Q (f <$> m) := by
  rw [← bind_pure_comp]
  exact keeps.bind fun a holds => pure (gives a holds)

theorem ite {c : Prop} [Decidable c] {m n : Reader α} (holds : c → Keeps s P m)
    (fails : ¬c → Keeps s P n) : Keeps s P (if c then m else n) := by
  split
  · next here => exact holds here
  · next other => exact fails other

theorem reject : Keeps s P reject := fun _ _ => .error .malformed

theorem peek : Keeps s (Token.Fits s) peek := by
  rintro ⟨tokens, ending, anchors, handles⟩ fits
  cases tokens with
  | nil => exact .error fits.ending
  | cons t ts => exact .ok ⟨fits.tokens t List.mem_cons_self, fits⟩

theorem get : Keeps s (Source.Fits s) get := fun _ fits => .ok ⟨fits, fits⟩

theorem update {f : Source → Source} (keeps : ∀ src, src.Fits s → (f src).Fits s) :
    Keeps s (fun _ => True) (modify f) := fun src fits => .ok ⟨trivial, keeps src fits⟩

theorem handles (f : Source → List (String × String)) :
    Keeps s (fun _ => True) (modify fun src => { src with handles := f src }) :=
  update fun _ fits => ⟨fits.tokens, fits.ending, fits.anchors⟩

theorem skip : Keeps s (fun _ => True) skip :=
  update fun _ fits =>
    ⟨fun t member => fits.tokens t (List.mem_of_mem_tail member), fits.ending, fits.anchors⟩

theorem accept (t : Token) : Keeps s (fun _ => True) (accept t) := by
  refine peek.bind fun u _ => ?_
  refine .ite (fun _ => ?_) fun _ => pure trivial
  exact skip.bind fun _ _ => pure trivial

theorem expect (t : Token) : Keeps s (fun _ => True) (expect t) := by
  refine (accept t).bind fun b _ => ?_
  exact .ite (fun _ => reject) fun _ => pure trivial

theorem sees (ts : List Token) : Keeps s (fun _ => True) (sees ts) :=
  peek.bind fun _ _ => pure trivial

theorem named (name : String) : Keeps s (Node.Fits s) (named name) := by
  refine get.bind fun src fits => ?_
  split
  · next e found => exact pure (fits.anchors e (List.mem_of_find?_eq_some found))
  · exact reject

theorem nameNode (name : String) {n : Node} (fits : n.Fits s) :
    Keeps s (fun _ => True) (nameNode name n) := by
  refine get.bind fun src _ => .ite (fun _ => reject) fun _ => update fun src same => ?_
  exact ⟨same.tokens, same.ending, List.forall_mem_cons.mpr ⟨fits, same.anchors⟩⟩

theorem renameNode (name : String) {n : Node} (fits : n.Fits s) :
    Keeps s (fun _ => True) (renameNode name n) := by
  refine update fun src same => ⟨same.tokens, same.ending, ?_⟩
  refine List.forall_mem_map.mpr fun e member => ?_
  split
  · exact fits
  · exact same.anchors e member

/-- Reading a node under a name gives what reading it gives, once or twice. -/
theorem tied {outline : Node} {read : Reader Node} (fits : outline.Fits s)
    (keeps : Keeps s (Node.Fits s) read) (name : Option String) :
    Keeps s (Node.Fits s) (tied outline read name) := by
  cases name with
  | none => exact keeps
  | some w =>
    have named {n : Node} (fits : n.Fits s) : Keeps s (Node.Fits s) (do
        Reader.renameNode w n
        return n) := (renameNode w fits).bind fun _ _ => pure fits
    refine (nameNode w fits).bind fun _ _ => get.bind fun start before => ?_
    refine keeps.bind fun n fits => get.bind fun _ _ => .ite (fun _ => ?_) fun _ => named fits
    refine Keeps.bind (P := fun _ => True) (fun _ _ => .ok ⟨trivial, before⟩) fun _ _ => ?_
    exact (renameNode w fits).bind fun _ _ => keeps.bind fun n fits => named fits

theorem fullTag (handle : Option String) (rest : String) :
    Keeps s (fun _ => True) (fullTag handle rest) := by
  unfold Reader.fullTag
  split
  · exact pure trivial
  · refine get.bind fun src _ => ?_
    split
    · exact pure trivial
    · exact reject

theorem anchor? : Keeps s (fun _ => True) anchor? := by
  refine peek.bind fun t _ => ?_
  split
  · exact skip.bind fun _ _ => pure trivial
  · exact pure trivial

/-- A tag is read only from a text with a mark. -/
theorem tag? : Keeps s (fun t => t.isSome = true → '!' ∈ s) tag? := by
  refine peek.bind fun t fits => ?_
  split
  · exact skip.bind fun _ _ => (fullTag _ _).bind fun _ _ => pure fun _ => fits
  · exact pure nofun

theorem properties : Keeps s (fun p => p.2.isSome = true → '!' ∈ s) properties := by
  refine anchor?.bind fun name _ => ?_
  split
  · exact tag?.bind fun t tagged => pure tagged
  · refine tag?.bind fun t tagged => .ite (fun _ => ?_) fun _ => pure tagged
    exact anchor?.bind fun _ _ => pure tagged

end Keeps

end Reader

open Reader

/-- The readers of nodes, items and entries with a given fuel read fitting ones. -/
structure ReadsFit (s : List Char) (fuel : ℕ) : Prop where
  node : ∀ block loose, Keeps s (Node.Fits s) (node fuel block loose)
  nodeBefore : ∀ ends block loose, Keeps s (Node.Fits s) (nodeBefore fuel ends block loose)
  items : Keeps s (fun ns => ∀ n ∈ ns, n.Fits s) (items fuel)
  looseItems : Keeps s (fun ns => ∀ n ∈ ns, n.Fits s) (looseItems fuel)
  entries : Keeps s (fun es => ∀ e ∈ es, e.1.Fits s ∧ e.2.Fits s) (entries fuel)
  listItems : ∀ first, Keeps s (fun ns => ∀ n ∈ ns, n.Fits s) (listItems fuel first)
  mapEntries : ∀ first, Keeps s (fun es => ∀ e ∈ es, e.1.Fits s ∧ e.2.Fits s)
    (mapEntries fuel first)

variable {fuel : ℕ}

theorem ReadsFit.node_succ (reads : ReadsFit s fuel) (block loose : Bool) :
    Keeps s (Node.Fits s) (Yaml.node (fuel + 1) block loose) := by
  unfold Yaml.node
  refine Keeps.peek.bind fun t _ => ?_
  split
  · exact Keeps.skip.bind fun _ _ => Keeps.named _
  · refine Keeps.properties.bind fun p tagged => ?_
    obtain ⟨name, tag⟩ := p
    have sequence {read : Reader (List Node)} (fit : Keeps s (fun ns => ∀ n ∈ ns, n.Fits s) read) :
        Keeps s (Node.Fits s) (tied (.sequence (collectionTag tag .seq) [])
          (Node.sequence (collectionTag tag .seq) <$> read) name) :=
      .tied (.sequence tagged (List.forall_mem_nil _)) (fit.map fun _ => .sequence tagged) name
    have mapping {read : Reader (List (Node × Node))}
        (fit : Keeps s (fun es => ∀ e ∈ es, e.1.Fits s ∧ e.2.Fits s) read) :
        Keeps s (Node.Fits s) (tied (.mapping (collectionTag tag .map) [])
          (Node.mapping (collectionTag tag .map) <$> read) name) :=
      .tied (.mapping tagged (List.forall_mem_nil _)) (fit.map fun _ => .mapping tagged) name
    have scalar (plain : Bool) {text : String}
        (line : plain = true → text.toList.getLast? ≠ some '\n') :
        Keeps s (Node.Fits s)
          (tied .absent (pure (.scalar (scalarTag tag plain text) text)) name) :=
      .tied .absent (.pure (.scalar tagged line)) name
    -- Where only a name or a tag stands, the scalar is not written.
    have unwritten : Keeps s (Node.Fits s) (if name.isSome || tag.isSome then
          tied .absent (pure (.scalar (scalarTag tag true "") "")) name
        else reject) := .ite (fun _ => scalar true fun _ => by decide) fun _ => .reject
    refine Keeps.peek.bind fun t fits => ?_
    split
    · next plain text =>
      refine Keeps.skip.bind fun _ _ => scalar plain ?_
      rintro rfl
      exact fits
    · exact .ite (fun _ => sequence reads.looseItems) fun _ => unwritten
    · exact Keeps.skip.bind fun _ _ => sequence (reads.listItems true)
    · exact Keeps.skip.bind fun _ _ => mapping (reads.mapEntries true)
    · exact .ite (fun _ => Keeps.skip.bind fun _ _ => sequence reads.items) fun _ => unwritten
    · exact .ite (fun _ => Keeps.skip.bind fun _ _ => mapping reads.entries) fun _ => unwritten
    · exact unwritten

theorem ReadsFit.nodeBefore_succ (reads : ReadsFit s fuel) (ends : List Token)
    (block loose : Bool) :
    Keeps s (Node.Fits s) (Yaml.nodeBefore (fuel + 1) ends block loose) := by
  unfold Yaml.nodeBefore
  refine (Keeps.sees ends).bind fun b _ => ?_
  exact .ite (fun _ => .pure .absent) fun _ => reads.node block loose

theorem ReadsFit.items_succ (reads : ReadsFit s fuel) :
    Keeps s (fun ns => ∀ n ∈ ns, n.Fits s) (Yaml.items (fuel + 1)) := by
  unfold Yaml.items
  refine (Keeps.accept .item).bind fun b _ => .ite (fun _ => ?_) fun _ => ?_
  · refine (reads.nodeBefore _ _ _).bind fun n first => reads.items.bind fun ns others => ?_
    exact .pure (List.forall_mem_cons.mpr ⟨first, others⟩)
  · exact (Keeps.expect .blockEnd).bind fun _ _ => .pure (List.forall_mem_nil _)

theorem ReadsFit.looseItems_succ (reads : ReadsFit s fuel) :
    Keeps s (fun ns => ∀ n ∈ ns, n.Fits s) (Yaml.looseItems (fuel + 1)) := by
  unfold Yaml.looseItems
  refine (Keeps.accept .item).bind fun b _ => .ite (fun _ => ?_) fun _ => ?_
  · refine (reads.nodeBefore _ _ _).bind fun n first => reads.looseItems.bind fun ns others => ?_
    exact .pure (List.forall_mem_cons.mpr ⟨first, others⟩)
  · exact .pure (List.forall_mem_nil _)

/-- The value of an entry may be absent. -/
theorem ReadsFit.value (reads : ReadsFit s fuel) (ends : List Token) (block loose : Bool)
    {β : Type} {Q : β → Prop} {k : Node → Reader β} (after : ∀ v, v.Fits s → Keeps s Q (k v)) :
    Keeps s Q (do
      if ← accept .value then Yaml.nodeBefore fuel ends block loose >>= k
      else pure .absent >>= k) := by
  refine (Keeps.accept .value).bind fun _ _ => .ite (fun _ => ?_) fun _ => ?_
  · exact (reads.nodeBefore ends block loose).bind after
  · exact (Keeps.pure .absent).bind after

/-- Between brackets and braces there are commas. -/
theorem Reader.Keeps.comma {first : Bool} {β : Type} {Q : β → Prop} {k : Unit → Reader β}
    (after : Keeps s Q (k ())) :
    Keeps s Q (if !first then Reader.expect .comma >>= k else k ()) :=
  .ite (fun _ => (Keeps.expect .comma).bind fun _ _ => after) fun _ => after

theorem ReadsFit.entries_succ (reads : ReadsFit s fuel) :
    Keeps s (fun es => ∀ e ∈ es, e.1.Fits s ∧ e.2.Fits s) (Yaml.entries (fuel + 1)) := by
  unfold Yaml.entries
  refine (Keeps.accept .key).bind fun b _ => .ite (fun _ => ?_) fun _ => ?_
  · refine (reads.nodeBefore _ _ _).bind fun k key => reads.value _ _ _ fun v value => ?_
    refine reads.entries.bind fun es others => .pure ?_
    exact List.forall_mem_cons.mpr ⟨⟨key, value⟩, others⟩
  · exact (Keeps.expect .blockEnd).bind fun _ _ => .pure (List.forall_mem_nil _)

theorem ReadsFit.listItems_succ (reads : ReadsFit s fuel) (first : Bool) :
    Keeps s (fun ns => ∀ n ∈ ns, n.Fits s) (Yaml.listItems (fuel + 1) first) := by
  unfold Yaml.listItems
  refine (Keeps.accept .closeList).bind fun b _ => .ite (fun _ => ?_) fun _ => .comma ?_
  · exact .pure (List.forall_mem_nil _)
  refine (Keeps.accept .key).bind fun b _ => .ite (fun _ => ?_) fun _ => ?_
  · refine (reads.nodeBefore _ _ _).bind fun k key => reads.value _ _ _ fun v value => ?_
    refine (reads.listItems false).bind fun ns others => .pure ?_
    have untagged : (none : Option String).isSome = true → '!' ∈ s := nofun
    have single : (Node.mapping .map [(k, v)]).Fits s :=
      .mapping untagged (List.forall_mem_singleton.mpr ⟨key, value⟩)
    exact List.forall_mem_cons.mpr ⟨single, others⟩
  · refine (Keeps.accept .closeList).bind fun b _ => .ite (fun _ => ?_) fun _ => ?_
    · exact .pure (List.forall_mem_nil _)
    · refine (reads.node _ _).bind fun n first => (reads.listItems false).bind fun ns others => ?_
      exact .pure (List.forall_mem_cons.mpr ⟨first, others⟩)

theorem ReadsFit.mapEntries_succ (reads : ReadsFit s fuel) (first : Bool) :
    Keeps s (fun es => ∀ e ∈ es, e.1.Fits s ∧ e.2.Fits s) (Yaml.mapEntries (fuel + 1) first) := by
  unfold Yaml.mapEntries
  refine (Keeps.accept .closeMap).bind fun b _ => .ite (fun _ => ?_) fun _ => .comma ?_
  · exact .pure (List.forall_mem_nil _)
  refine (Keeps.accept .key).bind fun b _ => .ite (fun _ => ?_) fun _ => ?_
  · refine (reads.nodeBefore _ _ _).bind fun k key => reads.value _ _ _ fun v value => ?_
    refine (reads.mapEntries false).bind fun es others => .pure ?_
    exact List.forall_mem_cons.mpr ⟨⟨key, value⟩, others⟩
  · refine (Keeps.accept .closeMap).bind fun b _ => .ite (fun _ => ?_) fun _ => ?_
    · exact .pure (List.forall_mem_nil _)
    · refine (reads.node _ _).bind fun k key => (reads.mapEntries false).bind fun es others => ?_
      exact .pure (List.forall_mem_cons.mpr ⟨⟨key, .absent⟩, others⟩)

/-- Readers of nodes read fitting nodes, whatever their fuel. -/
theorem reads_fit (s : List Char) (fuel : ℕ) : ReadsFit s fuel := by
  -- The readers call each other with less fuel, so they are treated together.
  induction fuel with
  | zero =>
    exact ⟨fun _ _ => .reject, fun _ _ _ => .reject, .reject, .reject, .reject, fun _ => .reject,
      fun _ => .reject⟩
  | succ fuel ih =>
    exact ⟨ih.node_succ, ih.nodeBefore_succ, ih.items_succ, ih.looseItems_succ, ih.entries_succ,
      ih.listItems_succ, ih.mapEntries_succ⟩

theorem directives_keep (fuel : ℕ) (versioned : Bool) :
    Keeps s (fun _ => True) (directives fuel versioned) := by
  induction fuel generalizing versioned with
  | zero => exact .reject
  | succ fuel ih =>
    unfold directives
    refine Keeps.peek.bind fun t _ => ?_
    split
    · exact .ite (fun _ => .reject) fun _ => Keeps.skip.bind fun _ _ => ih true
    · refine Keeps.get.bind fun _ _ => .ite (fun _ => .reject) fun _ => ?_
      exact (Keeps.handles _).bind fun _ _ => Keeps.skip.bind fun _ _ => ih versioned
    · exact Keeps.skip.bind fun _ _ => ih versioned
    · exact .pure trivial

theorem documentEnds_keep (fuel : ℕ) : Keeps s (fun _ => True) (documentEnds fuel) := by
  induction fuel with
  | zero => exact .reject
  | succ fuel ih =>
    unfold documentEnds
    exact (Keeps.accept .documentEnd).bind fun _ _ => .ite (fun _ => ih) fun _ => .pure trivial

theorem markedDocument_keeps (fuel : ℕ) : Keeps s (Node.Fits s) (markedDocument fuel) := by
  refine (directives_keep fuel false).bind fun _ _ => ?_
  refine (Keeps.handles _).bind fun _ _ => ?_
  refine (Keeps.expect .documentStart).bind fun _ _ => Keeps.peek.bind fun t _ => ?_
  split
  · exact .pure .absent
  · exact .pure .absent
  · exact .pure .absent
  · exact .pure .absent
  · exact (reads_fit s fuel).node true false

theorem document_keeps (fuel : ℕ) :
    Keeps s (fun n => ∀ m ∈ n, Node.Fits s m) (document fuel) := by
  refine Keeps.peek.bind fun t _ => ?_
  split
  · exact .pure nofun
  · have finish (n : Node) (fits : n.Fits s) : Keeps s (fun n => ∀ m ∈ n, Node.Fits s m) (do
        documentEnds fuel
        expect .streamEnd
        return some n) := by
      refine (documentEnds_keep fuel).bind fun _ _ => (Keeps.expect .streamEnd).bind fun _ _ => ?_
      refine .pure fun m same => ?_
      cases same
      exact fits
    split
    · exact (markedDocument_keeps fuel).bind finish
    · exact (markedDocument_keeps fuel).bind finish
    · refine (Keeps.handles _).bind fun _ _ => ?_
      exact ((reads_fit s fuel).node true false).bind finish

/-- The document of a text fits it; without a document there is a broken rule, or a number past its
bound. -/
theorem ofText_fits (s : List Char) :
    Yields (fun n => ∀ m ∈ n, Node.Fits s m) (Refuses s) (Node.ofText s) := by
  unfold Node.ofText
  refine .ite (fun _ => .error .malformed) fun _ => ?_
  obtain ⟨tokens, ending⟩ := scan_fits s
  exact (document_keeps _ _ ⟨tokens, ending, List.forall_mem_nil _⟩).map fun _ => And.left

end Yaml

end Quorum
