import Quorum.Channel.Seal
import Quorum.Table

/-!
# Configuration

The settings of a society and its coordinator. The rules that every configuration keeps are part of
its type.

## Main definitions

* `Config` — the settings
* `Config.default` — the settings where nothing is configured
* `LogLevel` — how much is logged
* `Config.keyBytes?` — the bytes of a peer key, written in hexadecimal with blanks between bytes
* `Config.peerKeys` — the decoded peer keys
-/

namespace Quorum

/-- How much is logged. -/
inductive LogLevel where
  /-- Everything. -/
  | debug
  /-- The course of events. -/
  | info
  /-- What needs attention. -/
  | warning
  /-- Failures only. -/
  | error
deriving DecidableEq, Repr, Inhabited

namespace LogLevel

/-- The name under which a level is configured. -/
def name : LogLevel → String
  | debug => "DEBUG"
  | info => "INFO"
  | warning => "WARNING"
  | error => "ERROR"

/-- The levels in the order in which they are listed. -/
def all : List LogLevel := [debug, info, warning, error]

/-- The level with a given name. -/
def ofName? (s : String) : Option LogLevel := all.find? fun l => l.name == s

end LogLevel

namespace Config

/-- The blanks that may stand between the bytes of a key. -/
def isBlank (c : Char) : Bool := c == ' ' || (9 ≤ c.toNat && c.toNat ≤ 13)

/-- The bytes that a list of characters writes: two digits a byte, blanks between bytes only. -/
def keyChars? : List Char → Option Bytes
  | [] => some []
  | c :: r =>
    if isBlank c then keyChars? r
    else
      match r with
      | [] => none
      | d :: r => do
        let high ← Bytes.hexValue? c
        let low ← Bytes.hexValue? d
        let rest ← keyChars? r
        some (UInt8.ofNat (16 * high + low) :: rest)

/-- The bytes of a peer key. -/
def keyBytes? (s : String) : Option Bytes := keyChars? s.toList

end Config

/-- The settings of a society and its coordinator. -/
structure Config where
  /-- The number of holders of key shares. -/
  parties : Nat
  /-- The largest number of holders who learn nothing together. -/
  threshold : Nat
  /-- How many actors are asked beyond the quorum. -/
  margin : Nat
  /-- How many seconds a quorum is waited for. -/
  timeout : Binary64
  /-- The curve of channel keys. -/
  curve : ChannelCurve
  /-- How channel secrets become keys. -/
  derivation : Derivation
  /-- How much is logged. -/
  level : LogLevel
  /-- The channel keys of known peers, as they are written. -/
  peers : Table String String
  /-- One holder alone learns nothing. -/
  threshold_pos : 0 < threshold
  /-- All holders together are more than the threshold. -/
  threshold_lt : threshold < parties
  /-- Waiting takes time. -/
  timeout_pos : Binary64.lt (.zero false) timeout = true
  /-- Every peer key can be decoded. -/
  peers_decode : ∀ e ∈ peers.entries, (Config.keyBytes? e.2).isSome = true
deriving DecidableEq

namespace Config

/-- Ten seconds. -/
def tenSeconds : Binary64 := ⟨0x4024000000000000⟩

theorem tenSeconds_pos : Binary64.lt (.zero false) tenSeconds = true := by decide

theorem decode_empty :
    ∀ e ∈ (Table.empty : Table String String).entries, (keyBytes? e.2).isSome = true := by
  intro e he
  cases he

/-- The settings where nothing is configured. -/
def default : Config where
  parties := 3
  threshold := 1
  margin := 1
  timeout := tenSeconds
  curve := .k256
  derivation := .raw
  level := .warning
  peers := .empty
  threshold_pos := by decide
  threshold_lt := by decide
  timeout_pos := tenSeconds_pos
  peers_decode := decode_empty

instance : Inhabited Config := ⟨default⟩

/-- The peers with their decoded keys. -/
def peerKeys (c : Config) : List (String × Bytes) :=
  c.peers.entries.map fun e => (e.1, (keyBytes? e.2).getD [])

end Config

end Quorum
