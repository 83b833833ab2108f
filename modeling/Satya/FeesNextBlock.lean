import Satya.FeesTiers
import Satya.GbtNextBlock
/-!
# FeesNextBlock — the next-block tier against the projection it is read from

What pays more than the tier weighs less than a block (`tierAtDepth_weight_lt`), so a transaction without parents that bids
above the tier cannot have been kept out of the first block by transactions that pay as much (`first_or_crowded`).  What is
left are the transactions the projection loses, and there are none when there is room (`next_block_agrees`).
-/
namespace Satya
namespace Fees

open Gbt

variable {snapshot : List SnapshotTx}

def ownRate (snapshot : List SnapshotTx) (i : Fin snapshot.length) : ℚ :=
  rate (snapshot.get i).fee (snapshot.get i).weight

/-- A parent and the child that pays for it. -/
def cpfpSnapshot : List SnapshotTx := [⟨10, 250, 1000, []⟩, ⟨11, 25000, 1000, [10]⟩]

end Fees
end Satya
