import Quorum.Binary64.Text
import Quorum.Record.Kind
import Quorum.Text.Base64
import Quorum.Text.Quoted
import Quorum.Yaml.Failure

/-!
# Faults

Everything that can go wrong, by cause. Faults fall into families, because callers treat families
and not single causes: a channel answers every refused value with the same rejection, and a
coordinator skips the actors that could not give a share.

## Main definitions

* `BadValue` — a value outside the set it must come from
* `Issue` — one finding of checking a document against the shape of a record
* `Fault` — the causes of failure, and `Fault.message`, their wording
* `Fault.isBadValue`, `Fault.isShareFault`, `Fault.isConfig` — the families that callers tell apart
* `Outcome` — the answer of an operation that can fail
-/

namespace Quorum

/-- A value outside the set it must come from. -/
inductive BadValue where
  /-- Inverting modulo zero. -/
  | zeroModulus
  /-- Inverting a number that shares a factor with the modulus. -/
  | notInvertible
  /-- No bytes where a point was expected. -/
  | emptyPoint
  /-- The first byte names no point form. -/
  | unknownPointForm
  /-- A point form with a wrong length, a large coordinate or a point off the curve. -/
  | invalidPoint
  /-- The point at infinity has no encoding. -/
  | identityEncoding
  /-- A coordinate below zero. -/
  | negativeCoordinate
  /-- Coordinates off the curve. -/
  | offCurve
  /-- A scalar of the wrong number of bytes. -/
  | scalarLength (length : Nat)
  /-- A scalar that is not below the order. -/
  | scalarRange
  /-- A share index below zero. -/
  | negativeIndex
  /-- The interpolated point is the point at infinity. -/
  | identityShared
  /-- A secret key that is not positive. -/
  | secretNotPositive
  /-- A secret key that is not below the order. -/
  | secretRange
  /-- A public key on another curve than the secret key. -/
  | otherCurve
  /-- A peer key that no channel can be keyed with. -/
  | peerKey
  /-- A channel key that is not 32 bytes long. -/
  | channelKey
  /-- Text that is not Base64. -/
  | base64 (cause : Base64.Fault)
  /-- Neither bytes nor text; `kind` names what was found. -/
  | notBytes (kind : String)
  /-- A key set whose commitments do not match its threshold. -/
  | commitmentCount (expected : Int) (count : Nat)
  /-- A threshold that is not between zero and the number of parties. -/
  | societyBounds
  /-- A key set of another threshold. -/
  | otherThreshold
  /-- A configured threshold that is not below the number of parties. -/
  | configBounds (threshold parties : Int)
  /-- A configured peer key that is not hexadecimal. -/
  | peerNotHex (peer : String)
  /-- No record kind has this name. -/
  | recordKind (name : String)
  /-- A number with more digits than are read. -/
  | tooManyDigits (count : Nat)
  /-- A value refused for a reason of its own. -/
  | other (text : String)
deriving DecidableEq, Repr

/-- The wording of a refused value. -/
def BadValue.message : BadValue → String
  | zeroModulus => "pow() 3rd argument cannot be 0"
  | notInvertible => "base is not invertible for the given modulus"
  | emptyPoint => "data must not be an empty byte string"
  | unknownPointForm => "Unsupported elliptic curve point type"
  | invalidPoint => "Invalid EC key."
  | identityEncoding => "Cannot encode the point at infinity"
  | negativeCoordinate => "Invalid EC key. Both x and y must be non-negative."
  | offCurve => "Invalid EC key. Point is not on the curve specified."
  | scalarLength n => "Scalar must be 32 bytes, got " ++ n.repr
  | scalarRange => "Scalar out of range"
  | negativeIndex => "Share index must be non-negative"
  | identityShared => "Shared point is the identity"
  | secretNotPositive => "private_value must be a positive integer."
  | secretRange => "Invalid EC key (key out of range, infinity, etc.)"
  | otherCurve => "Error computing shared key."
  | peerKey => "Invalid peer public key"
  | channelKey => "ChaCha20Poly1305 key must be 32 bytes."
  | base64 cause => cause.message
  | notBytes kind => "Expected bytes or base64 str, got <class " ++ Quoted.encode kind ++ ">"
  | commitmentCount expected count =>
    "Expected " ++ toString expected ++ " commitments, got " ++ count.repr
  | societyBounds => "threshold must satisfy 0 < t < n"
  | otherThreshold => "public key set threshold does not match"
  | configBounds t n =>
    "threshold (" ++ toString t ++ ") must be lower than parties (" ++ toString n ++ ")"
  | peerNotHex peer => "Public key for peer " ++ Quoted.encode peer ++ " is not hex"
  | recordKind name => Quoted.encode name ++ " is not a valid RecordKind"
  | tooManyDigits n =>
    "Exceeds the limit (4300 digits) for integer string conversion: value has " ++ n.repr ++
      " digits; use sys.set_int_max_str_digits() to increase the limit"
  | other text => text

/-- What is wrong at one place of a document. -/
inductive Problem where
  /-- A required field is absent. -/
  | missing
  /-- The document is not well-formed. -/
  | malformed
  /-- Something else where an object was expected in a written document. -/
  | notObject
  /-- Something else where a record of this name was expected in given data. -/
  | notRecord (name : String)
  /-- Something else where a list was expected. -/
  | notList
  /-- Something else where a mapping was expected. -/
  | notMapping
  /-- Something else where text was expected. -/
  | notText
  /-- Bytes that are not the encoding of a text. -/
  | notUnicode
  /-- Something else where an integer was expected. -/
  | notInteger
  /-- Text that is no integer. -/
  | integerText
  /-- Text with more digits than are read. -/
  | integerSize
  /-- A number with a fractional part where an integer was expected. -/
  | fractional
  /-- An infinite number, or none, where an integer was expected. -/
  | notFinite
  /-- Something else where a number was expected. -/
  | notNumber
  /-- Text that is no number. -/
  | numberText
  /-- A number that is not above the bound. -/
  | notAbove (bound : Int)
  /-- A number below the bound. -/
  | below (bound : Int)
  /-- Something else than one of the listed words. -/
  | notAmong (words : List String)
  /-- A value of the right type that is refused. -/
  | refused (cause : BadValue)
deriving DecidableEq, Repr

namespace Problem

/-- The name under which a problem is reported. -/
def name : Problem → String
  | missing => "missing"
  | malformed => "json_invalid"
  | notObject => "model_type"
  | notRecord _ => "model_type"
  | notList => "tuple_type"
  | notMapping => "dict_type"
  | notText => "string_type"
  | notUnicode => "string_unicode"
  | notInteger => "int_type"
  | integerText => "int_parsing"
  | integerSize => "int_parsing_size"
  | fractional => "int_from_float"
  | notFinite => "finite_number"
  | notNumber => "float_type"
  | numberText => "float_parsing"
  | notAbove _ => "greater_than"
  | below _ => "greater_than_equal"
  | notAmong _ => "literal_error"
  | refused _ => "value_error"

/-- The words in apostrophes, separated by commas and, before the last, by `or`. -/
def choices : List String → String
  | [] => ""
  | [a] => "'" ++ a ++ "'"
  | [a, b] => "'" ++ a ++ "' or '" ++ b ++ "'"
  | a :: r => "'" ++ a ++ "', " ++ choices r

/-- The wording of a problem. -/
def message : Problem → String
  | missing => "Field required"
  | malformed => "Invalid JSON"
  | notObject => "Input should be an object"
  | notRecord name => "Input should be a valid dictionary or instance of " ++ name
  | notList => "Input should be a valid array"
  | notMapping => "Input should be a valid dictionary"
  | notText => "Input should be a valid string"
  | notUnicode => "Input should be a valid string, unable to parse raw data as a unicode string"
  | notInteger => "Input should be a valid integer"
  | integerText => "Input should be a valid integer, unable to parse string as an integer"
  | integerSize => "Unable to parse input string as an integer, exceeded maximum size"
  | fractional => "Input should be a valid integer, got a number with a fractional part"
  | notFinite => "Input should be a finite number"
  | notNumber => "Input should be a valid number"
  | numberText => "Input should be a valid number, unable to parse string as a number"
  | notAbove bound => "Input should be greater than " ++ toString bound
  | below bound => "Input should be greater than or equal to " ++ toString bound
  | notAmong words => "Input should be " ++ choices words
  | refused cause => "Value error, " ++ cause.message

end Problem

/-- One step of the way from a document to one of its parts. -/
inductive Step where
  /-- The value of a field. -/
  | field (name : String)
  /-- The element at a position. -/
  | index (i : Int)
deriving DecidableEq, Repr

/-- One finding: where in the document, and what is wrong there. -/
structure Issue where
  /-- The way from the whole document to the place. -/
  place : List Step
  /-- What is wrong there. -/
  problem : Problem
deriving DecidableEq, Repr

/-- The same finding seen from one step further out. -/
def Issue.under (s : Step) (i : Issue) : Issue := { i with place := s :: i.place }

/-- What stopped an operation. -/
inductive Fault where
  /-- A refused value. -/
  | value (cause : BadValue)
  /-- A number too large for its field of bytes. -/
  | tooBig
  /-- A number below zero where bytes are to be written. -/
  | negative
  /-- A document that does not have the shape of its record. -/
  | invalid (issues : List Issue)
  /-- No party to deal to. -/
  | noParties (parties : Int)
  /-- Not `0 < t < n`. -/
  | thresholdBounds (threshold parties : Int)
  /-- A secret share outside the range of secrets. -/
  | secretShare (index : Int)
  /-- A ciphertext whose proof does not hold. -/
  | ciphertextProof
  /-- A computation of a share that was refused a value. -/
  | noShare (actor : Int)
  /-- No ciphertext is pending for the request. -/
  | nothingPending (actor : Int) (request : String)
  /-- A share that was not counted. -/
  | shareRejected (actor : Int) (reason : String)
  /-- Too few shares. -/
  | insufficient (have_ need : Int)
  /-- Too few shares before the deadline, `seconds` after the request. -/
  | timeout (have_ need : Int) (seconds : Binary64)
  /-- Shares that do not open the payload. -/
  | notCombined
  /-- A counted quorum that the combination step calls too small. -/
  | quorumRefused
  /-- A sealed message that does not open. -/
  | rejectedMessage
  /-- A meeting used after its end. -/
  | resolved (request : String)
  /-- No record of this kind and owner. -/
  | unknownPeer (kind : RecordKind) (owner : String)
  /-- No society key has been dealt. -/
  | notDealt
  /-- No actor of this id can be reached. -/
  | unreachable (actor : Int)
  /-- A transport that broke down. -/
  | broken (text : String)
  /-- A request that got no answer in time. -/
  | expired
  /-- A configuration whose values are not valid. -/
  | configInvalid (issues : List Issue)
  /-- A configuration that cannot be read as a document. -/
  | configSyntax (path : String)
  /-- A configuration that is not a mapping. -/
  | configShape (path : String)
  /-- A configuration path that is a directory. -/
  | configDirectory (path : String)
  /-- A configuration with a value that is spelled like nothing that exists. -/
  | configSpelling (cause : Yaml.Failure)
  /-- A configuration with a top-level key that is not text. -/
  | keyNotText
  /-- Bytes that do not encode text. -/
  | undecodable
deriving DecidableEq, Repr

namespace Fault

/-- A refused number of digits or a wrong shape: the faults of values, whether one value or a
whole document was refused. -/
def isBadValue : Fault → Bool
  | value _ | invalid _ | noParties _ | thresholdBounds _ _ => true
  | _ => false

/-- The faults of an actor that could not give its share. -/
def isShareFault : Fault → Bool
  | secretShare _ | ciphertextProof | noShare _ | nothingPending _ _ => true
  | _ => false

/-- A share that was given and not counted. -/
def isRejection : Fault → Bool
  | shareRejected _ _ => true
  | _ => false

/-- Too few shares, whether the deadline struck or not. -/
def isInsufficient : Fault → Bool
  | insufficient _ _ | timeout _ _ _ => true
  | _ => false

/-- A configuration that is not valid, for whatever reason. -/
def isConfig : Fault → Bool
  | configInvalid _ | configSyntax _ | configShape _ | configDirectory _ => true
  | _ => false

/-- The wording of a fault. -/
def message : Fault → String
  | value cause => cause.message
  | tooBig => "int too big to convert"
  | negative => "can't convert negative int to unsigned"
  | invalid issues => issues.length.repr ++ " validation errors"
  | noParties n => "Need at least one party, got " ++ toString n
  | thresholdBounds t n =>
    "Threshold must satisfy 0 < t < n (got t=" ++ toString t ++ ", n=" ++ toString n ++ ")"
  | secretShare i => "Secret share " ++ toString i ++ " is malformed"
  | ciphertextProof => "Ciphertext failed its well-formedness check"
  | noShare i => "Actor " ++ toString i ++ " could not compute a share"
  | nothingPending i request =>
    "Actor " ++ toString i ++ " has no pending ciphertext for request " ++ request
  | shareRejected i reason => "Share from actor " ++ toString i ++ " rejected: " ++ reason
  | insufficient have_ need =>
    "Need at least " ++ toString need ++ " decryption shares, have " ++ toString have_ ++
      "; try again with more participants"
  | timeout have_ need seconds =>
    "Quorum not reached within " ++ seconds.tenths ++ "s (" ++ toString have_ ++ "/" ++
      toString need ++ " shares)"
  | notCombined => "Decryption shares did not combine"
  | quorumRefused => "Scheme rejected a counted quorum"
  | rejectedMessage => "Message rejected"
  | resolved request => "Meeting " ++ request ++ " is already resolved"
  | unknownPeer kind owner => "No " ++ kind.name ++ " record for " ++ Quoted.encode owner
  | notDealt => "No society key has been dealt yet"
  | unreachable i => "Actor " ++ toString i ++ " is not reachable"
  | broken text => text
  | expired => ""
  | configInvalid _ => "Configuration validation failed"
  | configSyntax path => "Invalid YAML in " ++ path
  | configShape path => "Expected a mapping at the top of " ++ path
  | configDirectory path =>
    "Failed to load config from " ++ path ++ ": [Errno 21] Is a directory: " ++ Quoted.encode path
  | configSpelling cause => cause.message
  | keyNotText => "keywords must be strings"
  | undecodable => ""

end Fault

/-- The answer of an operation that can fail. -/
abbrev Outcome (α : Type) := Except Fault α

/-- A refused value stops the operation that wanted it. -/
def Outcome.ofValue {α : Type} : Except BadValue α → Outcome α
  | .ok x => .ok x
  | .error cause => .error (.value cause)

instance : MonadLift (Except BadValue) (Except Fault) := ⟨Outcome.ofValue⟩

end Quorum
