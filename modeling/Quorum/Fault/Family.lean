import Quorum.Fault

/-!
# Families of failures

Callers of the society answer failures by family: a family may belong to wider ones, and whoever
handles the wider one handles it too. A report names a family and gives details; three families
word their details in a sentence of their own.

## Main definitions

* `Family` — the families of failures
* `Family.lineage` — a family and the wider ones it belongs to
* `Fault.family?` — the family of a cause
* `Report` — a failure given by its family and its details
* `Report.message` — the wording of a report
-/

namespace Quorum

/-- The families of failures. -/
inductive Family where
  /-- Every failure of the society. -/
  | society
  | refusedValue
  | missingKey
  /-- A bad number of parties or threshold. -/
  | threshold
  /-- An actor that could not compute its share. -/
  | computation
  /-- A request for which nothing is pending. -/
  | nothingPending
  /-- A share that was not counted. -/
  | rejection
  /-- Too few shares. -/
  | insufficient
  /-- Too few shares before the deadline. -/
  | timeout
  /-- Shares that did not combine. -/
  | combination
  /-- A sealed message that does not open. -/
  | authentication
  /-- A meeting used after its end. -/
  | resolved
  /-- A record that does not exist. -/
  | unknownPeer
deriving DecidableEq, Repr

namespace Family

/-- A family and the wider ones it belongs to, the nearest first. -/
def lineage : Family → List Family
  | society => [society]
  | refusedValue => [refusedValue]
  | missingKey => [missingKey]
  | threshold => [threshold, society, refusedValue]
  | computation => [computation, society]
  | nothingPending => [nothingPending, computation, society]
  | rejection => [rejection, society]
  | insufficient => [insufficient, society]
  | timeout => [timeout, insufficient, society]
  | combination => [combination, society]
  | authentication => [authentication, society]
  | resolved => [resolved, society]
  | unknownPeer => [unknownPeer, society, missingKey]

end Family

/-- The family of a cause; faults of documents, transports and arithmetic belong to none. -/
def Fault.family? : Fault → Option Family
  | .value _ | .invalid _ => some .refusedValue
  | .noParties _ | .thresholdBounds _ _ => some .threshold
  | .secretShare _ | .ciphertextProof | .noShare _ => some .computation
  | .nothingPending _ _ => some .nothingPending
  | .shareRejected _ _ => some .rejection
  | .insufficient _ _ => some .insufficient
  | .timeout _ _ _ => some .timeout
  | .notCombined | .quorumRefused => some .combination
  | .rejectedMessage => some .authentication
  | .resolved _ => some .resolved
  | .unknownPeer _ _ => some .unknownPeer
  | .notDealt => some .society
  | _ => none

/-- A detail of a report. -/
inductive Detail where
  /-- Words. -/
  | text (s : String)
  /-- A count or an index. -/
  | int (n : Int)
  /-- Any other number. -/
  | number (x : Binary64)
deriving DecidableEq, Repr

namespace Detail

/-- A detail on its own. -/
def plain : Detail → String
  | text s => s
  | int n => toString n
  | number x => x.text

/-- A detail among others: words stand between quotes. -/
def listed : Detail → String
  | text s => Quoted.encode s
  | d => d.plain

end Detail

/-- A failure given by its family and its details. -/
structure Report where
  family : Family
  details : List Detail
deriving DecidableEq, Repr

namespace Report

/-- The fault that a report describes, if its family has a sentence for the details. -/
def fault? (r : Report) : Option Fault :=
  match r.family, r.details with
  | .rejection, [.int actor] => some (.shareRejected actor "verification failed")
  | .rejection, [.int actor, .text reason] => some (.shareRejected actor reason)
  | .insufficient, [.int have_, .int need] => some (.insufficient have_ need)
  | .timeout, [.int have_, .int need, .number x] => some (.timeout have_ need x)
  | .timeout, [.int have_, .int need, .int n] => some (.timeout have_ need (.ofInt n))
  | _, _ => none

/-- Details in a row: none is the empty text, a single one stands on its own, several stand in
brackets. -/
def listing : List Detail → String
  | [] => ""
  | [d] => d.plain
  | ds => "(" ++ String.intercalate ", " (ds.map Detail.listed) ++ ")"

/-- The wording of a report. -/
def message (r : Report) : String :=
  match r.fault?, r.family, r.details with
  | some f, _, _ => f.message
  | none, .unknownPeer, [] => "unknown peer"
  | none, .unknownPeer, d :: _ => d.plain
  | none, _, ds => listing ds

end Report

end Quorum
