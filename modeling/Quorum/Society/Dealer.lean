import Quorum.Society.Material

/-!
# The dealer

The dealer creates the society key, splits it into shares and publishes the public half. A failed
setup leaves the dealer as it was.

## Main definitions

* `Dealer` — the material of the last setup
* `Dealer.deal` — the material and shares of a setup
* `Dealer.setup` — a setup, and the dealer after it
* `Dealer.publish` — the published key set
-/

namespace Quorum

/-- A dealer, with the material of the last setup. -/
structure Dealer where
  /-- The material of the last setup. -/
  material : Option Material
deriving Inhabited

namespace Dealer

/-- A dealer before any setup. -/
def fresh : Dealer := ⟨none⟩

/-- The key share of the holder of a secret share. -/
def keyShare (keys : KeySet) (s : SecretShare) : Outcome KeyShare := do
  let publicShare ← keys.publicShare s.index
  .ok ⟨s.index, publicShare, s⟩

/-- The material and shares of a setup with the given draws. -/
def deal (parties threshold : Int) (draw : Nat → Nat) : Outcome (Material × List KeyShare) :=
  if parties < 1 then .error (.noParties parties)
  else if threshold ≤ 0 ∨ parties ≤ threshold then .error (.thresholdBounds threshold parties)
  else do
    let (keys, secrets) ← Threshold.generate parties threshold draw
    let shares ← secrets.mapM (keyShare keys)
    let material ← (Material.ofParts keys threshold parties).outcome
    .ok (material, shares)

/-- A setup, and the dealer after it. -/
def setup (d : Dealer) (parties threshold : Int) (draw : Nat → Nat) :
    Outcome (Material × List KeyShare) × Dealer :=
  match deal parties threshold draw with
  | .ok (material, shares) => (.ok (material, shares), ⟨some material⟩)
  | .error f => (.error f, d)

/-- The published key set. -/
def publish (d : Dealer) : Outcome Bytes :=
  match d.material with
  | some m => .ok m.keys.toBytes
  | none => .error .notDealt

end Dealer

end Quorum
