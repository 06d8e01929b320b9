import Quorum.Config
import Quorum.Datum

/-!
# Reading a configuration

The sections of a configuration are read from given values; what is not given has its default. All
findings are reported together, and the rules over several settings are applied to settings that
are right on their own.

## Main definitions

* `Config.Section` — the entries of a section, if it is one
* `Config.readPeers` — the channel keys of known peers
* `Config.ofDatum` — the configuration that a mapping gives
-/

namespace Quorum

namespace Config

/-- The value of a setting, or its default where it is not given. -/
def setting {α : Type} (name : String) (default : α) (read : Datum → Checked α)
    (entries : List (Datum × Datum)) : Checked α :=
  match Datum.lookup? name entries with
  | none => .ok default
  | some v => Checked.under (.field name) (read v)

/-- The entries of a section, which is a mapping; `title` names the section in messages. -/
def entriesOf (title : String) : Datum → Checked (List (Datum × Datum))
  | .mapping entries => .ok entries
  | _ => Checked.fail (.notRecord title)

/-- The number of parties and the threshold, which lies between zero and that number. -/
def readSociety (v : Datum) : Checked { s : Nat × Nat // 0 < s.2 ∧ s.2 < s.1 } := do
  let entries ← entriesOf "SocietyConfig" v
  let (parties, threshold) ←
    (setting "parties" 3 (Datum.readIntFrom 1) entries).and
      (setting "threshold" 1 (Datum.readIntFrom 1) entries)
  if h : 0 < threshold.toNat ∧ threshold.toNat < parties.toNat then
    .ok ⟨(parties.toNat, threshold.toNat), h⟩
  else Checked.fail (.refused (.configBounds threshold parties))

/-- A number of seconds above zero. -/
def readTimeout (v : Datum) : Checked { x : Binary64 // Binary64.lt (.zero false) x = true } := do
  let x ← Datum.readFloat v
  if h : Binary64.lt (.zero false) x = true then .ok ⟨x, h⟩ else Checked.fail (.notAbove 0)

/-- The margin and the timeout. -/
def readCoordinator (v : Datum) :
    Checked (Nat × { x : Binary64 // Binary64.lt (.zero false) x = true }) := do
  let entries ← entriesOf "CoordinatorConfig" v
  let (margin, timeout) ←
    (setting "fanout_margin" 1 (Datum.readIntFrom 0) entries).and
      (setting "quorum_timeout" ⟨tenSeconds, tenSeconds_pos⟩ readTimeout entries)
  .ok (margin.toNat, timeout)

/-- The curve and the key derivation. -/
def readChannel (v : Datum) : Checked (ChannelCurve × Derivation) := do
  let entries ← entriesOf "ChannelConfig" v
  (setting "curve" .k256 (Datum.readChoice ChannelCurve.all ChannelCurve.name) entries).and
    (setting "key_derivation" .raw (Datum.readChoice Derivation.all Derivation.name) entries)

/-- The log level. -/
def readLogging (v : Datum) : Checked LogLevel := do
  let entries ← entriesOf "LoggingConfig" v
  setting "level" .warning (Datum.readChoice LogLevel.all LogLevel.name) entries

/-- The entries of the mapping of peers. -/
def readPeerEntries : List (Datum × Datum) → Checked (List (String × String))
  | [] => .ok []
  | (k, v) :: r =>
    let key := Checked.under k.step (Checked.under (.field "[key]") (Datum.readText k))
    let value := Checked.under k.step (Datum.readText v)
    ((key.and value).and (readPeerEntries r)).map fun (e, es) => e :: es

/-- The first peer whose key cannot be decoded. -/
def badPeer? (t : Table String String) : Option String :=
  (t.entries.find? fun e => (keyBytes? e.2).isNone).map Prod.fst

/-- The channel keys of known peers. -/
def readPeers (v : Datum) :
    Checked { t : Table String String // ∀ e ∈ t.entries, (keyBytes? e.2).isSome = true } := do
  match v with
  | .mapping entries =>
    let es ← readPeerEntries entries
    let t := Table.ofList es
    if h : ∀ e ∈ t.entries, (keyBytes? e.2).isSome = true then .ok ⟨t, h⟩
    else Checked.fail (.refused (.peerNotHex ((badPeer? t).getD "")))
  | _ => Checked.fail .notMapping

/-- The configuration that the entries of a mapping give. -/
def ofEntries (entries : List (Datum × Datum)) : Checked Config := do
  let (society, coordinator, channel, level, peers) ←
    (setting "society" ⟨(3, 1), by decide⟩ readSociety entries).and <|
    (setting "coordinator" (1, ⟨tenSeconds, tenSeconds_pos⟩) readCoordinator entries).and <|
    (setting "channel" (.k256, .raw) readChannel entries).and <|
    (setting "logging" .warning readLogging entries).and <|
    setting "peers" ⟨.empty, decode_empty⟩ readPeers entries
  .ok {
    parties := society.1.1
    threshold := society.1.2
    margin := coordinator.1
    timeout := coordinator.2.1
    curve := channel.1
    derivation := channel.2
    level := level
    peers := peers.1
    threshold_pos := society.2.1
    threshold_lt := society.2.2
    timeout_pos := coordinator.2.2
    peers_decode := peers.2 }

end Config

end Quorum
