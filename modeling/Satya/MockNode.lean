import Mathlib.Data.Rat.Floor
import Satya.Collections
import Satya.Rpc
/-!
# MockNode — the simulated mempool (`sim/mock_node.rs`)

What the random generator yields, and the order in which a hash map is iterated, are inputs.  A `while` loop along the
maps takes fuel: a walk that visits more keys than the maps have never ends, and is `none`, as is a failed index.
Amounts and sizes are naturals, their sums being below `2 ^ 64`.
-/
namespace Satya
namespace Sim

/-- The range of the synthetic fee rates.  The skew of a draw only shapes which rate is drawn. -/
structure FeeDistribution where
  minSatVb : ℕ
  maxSatVb : ℕ

structure ChurnConfig where
  arrivalsPerTick : ℕ
  evictionsPerTick : ℕ
  fee : FeeDistribution
  cpfpFraction : ℚ
  maxChain : ℕ

abbrev EntryMap := Finmap (fun _ : Txid => MempoolEntry)

abbrev ChildMap := Finmap (fun _ : Txid => Txid)

/-- `children` is the reverse index: a parent's single child. -/
structure MockNode where
  txs : EntryMap
  children : ChildMap
  tipHeight : ℕ
  minFee : ℕ
  reloading : Bool
  cfg : ChurnConfig

/-- What one arrival draws: the coin, the keys' order, the sampled indices, the spread of a standalone rate over the
floor, the txid and the size. -/
structure ArrivalDraw where
  coin : ℚ
  order : SetOrder Txid
  index : ℕ → ℕ → ℕ
  index_lt : ∀ len i, 0 < len → index len i < len
  spread : ℕ
  raw : Txid
  vsize : ℕ
  vsize_mem : 110 ≤ vsize ∧ vsize ≤ 100000

def u64Max : ℕ := 2 ^ 64 - 1

def ownRateSatVb (e : MempoolEntry) : ℕ := e.fees.base / max e.vsize 1

/-- `get_mut` and an update in place. -/
def modify (f : MempoolEntry → MempoolEntry) (txs : EntryMap) (txid : Txid) : EntryMap :=
  match txs.lookup txid with
  | some e => txs.insert txid (f e)
  | none => txs

namespace MockNode

/-- More steps than any walk along the maps that ends. -/
def fuel (node : MockNode) : ℕ := node.txs.keys.card + node.children.keys.card + 1

/-! ## Walks -/

def ancestorsWalk (txs : EntryMap) : ℕ → Txid → Option (List Txid)
  | 0, _ => none
  | fuel + 1, cur =>
    match txs.lookup cur with
    | none => some []
    | some entry =>
      match entry.depends.head? with
      | none => some []
      | some p => if p ∈ txs then (ancestorsWalk txs fuel p).map (fun out => p :: out) else some []

/-- In-mempool ancestors of `txid`, nearest parent first. -/
def ancestorsOf (node : MockNode) (txid : Txid) : Option (List Txid) := ancestorsWalk node.txs node.fuel txid

/-- The descent of `advance` and `mass_drop` to a leaf. -/
def descend (children : ChildMap) : ℕ → Txid → Option Txid
  | 0, _ => none
  | fuel + 1, leaf =>
    match children.lookup leaf with
    | none => some leaf
    | some child => descend children fuel child

/-! ## Arrivals -/

def genStandaloneEntry (satVb : ℕ) (d : ArrivalDraw) : Txid × MempoolEntry :=
  let base := min (satVb * d.vsize) u64Max
  (d.raw,
   { vsize := d.vsize
     weight := some (d.vsize * 4)
     depends := []
     fees := { base := base, ancestor := base, descendant := base }
     ancestorsize := d.vsize
     descendantsize := d.vsize
     time := some 1700000000 })

def eligible (node : MockNode) : List Txid → Option (List Txid)
  | [] => some []
  | t :: keys =>
    if t ∈ node.children then node.eligible keys
    else do
      let above ← node.ancestorsOf t
      let rest ← node.eligible keys
      if above.length + 1 < node.cfg.maxChain then some (t :: rest) else some rest

def keepBest (best : Option (ℕ × Txid)) (r : ℕ) (t : Txid) : ℕ × Txid :=
  match best with
  | some (br, bt) => if br < r ∨ (br = r ∧ bt ≤ t) then (br, bt) else (r, t)
  | none => (r, t)

def sampleBest (node : MockNode) (eligible : List Txid) (index : ℕ → ℕ) :
    List ℕ → Option (ℕ × Txid) → Option (Option (ℕ × Txid))
  | [], best => some best
  | i :: is, best => do
    let t ← eligible[index i]?
    let e ← node.txs.lookup t
    node.sampleBest eligible index is (some (keepBest best (ownRateSatVb e) t))

/-- The cheapest of at most eight samples among the childless transactions whose chain may still grow. -/
def pickParent (node : MockNode) (d : ArrivalDraw) : Option (Option Txid) :=
  if node.cfg.maxChain < 2 then some none
  else do
    let eligible ← node.eligible (d.order.toList node.txs.keys)
    let best ← node.sampleBest eligible (d.index eligible.length) (List.range (min eligible.length 8)) none
    some (best.map Prod.snd)

def adjustTotals (vsize base : ℕ) (add : Bool) (e : MempoolEntry) : MempoolEntry :=
  if add then
    { e with
      descendantsize := e.descendantsize + vsize
      fees := { e.fees with descendant := e.fees.descendant + base } }
  else
    { e with
      descendantsize := e.descendantsize - vsize
      fees := { e.fees with descendant := e.fees.descendant - base } }

def adjustDescendantTotals (node : MockNode) (start : Txid) (vsize base : ℕ) (add : Bool) : Option MockNode := do
  let above ← node.ancestorsOf start
  some { node with txs := (start :: above).foldl (modify (adjustTotals vsize base add)) node.txs }

def attachChild (node : MockNode) (d : ArrivalDraw) (parent : Txid) : Option MockNode := do
  let (txid, entry) := genStandaloneEntry node.cfg.fee.maxSatVb d
  let p ← node.txs.lookup parent
  let child : MempoolEntry :=
    { entry with
      depends := [parent]
      ancestorsize := entry.vsize + p.ancestorsize
      fees := { entry.fees with ancestor := entry.fees.base + p.fees.ancestor } }
  let linked := { node with txs := node.txs.insert txid child, children := node.children.insert parent txid }
  linked.adjustDescendantTotals parent child.vsize child.fees.base true

def sampleFeeRate (fee : FeeDistribution) (spread : ℕ) : ℕ :=
  if fee.maxSatVb ≤ fee.minSatVb then fee.minSatVb else min (fee.minSatVb + spread) fee.maxSatVb

/-- The parent to attach to, with probability `cpfpFraction` and if there is an eligible one. -/
def attachParent (node : MockNode) (d : ArrivalDraw) : Option (Option Txid) :=
  if 0 < node.cfg.cpfpFraction ∧ d.coin < node.cfg.cpfpFraction then node.pickParent d else some none

def addArrival (node : MockNode) (d : ArrivalDraw) : Option MockNode := do
  match ← node.attachParent d with
  | some parent => node.attachChild d parent
  | none =>
    let (txid, entry) := genStandaloneEntry (sampleFeeRate node.cfg.fee d.spread) d
    some { node with txs := node.txs.insert txid entry }

def addArrivals (draw : ℕ → ArrivalDraw) : ℕ → MockNode → Option MockNode
  | 0, node => some node
  | n + 1, node => do addArrivals draw n (← node.addArrival (draw n))

/-- No arrival draws the txid of a transaction that is in the mempool at that moment. -/
def arrivalsFresh (draw : ℕ → ArrivalDraw) : ℕ → MockNode → Bool
  | 0, _ => true
  | n + 1, node => decide ((draw n).raw ∉ node.txs) && (node.addArrival (draw n)).all (arrivalsFresh draw n)

def empty (cfg : ChurnConfig) : MockNode where
  txs := ∅
  children := ∅
  tipHeight := 800000
  minFee := 1000
  reloading := false
  cfg := cfg

def new (draw : ℕ → ArrivalDraw) (initialSize : ℕ) (cfg : ChurnConfig) : Option MockNode :=
  addArrivals draw initialSize (empty cfg)

/-! ## Removals -/

/-- Remove a transaction without a child; no-op if it is absent or has one. -/
def removeLeaf (node : MockNode) (leaf : Txid) : Option MockNode :=
  if leaf ∈ node.children then some node
  else
    match node.txs.lookup leaf with
    | none => some node
    | some entry =>
      let removed := { node with txs := node.txs.erase leaf }
      match entry.depends.head? with
      | none => some removed
      | some parent =>
        { removed with children := removed.children.erase parent }.adjustDescendantTotals parent entry.vsize
          entry.fees.base false

/-- At most `n` evictions, each of the leaf under the first key in the iteration order of that moment. -/
def evictLeaves (order : ℕ → SetOrder Txid) : ℕ → MockNode → Option MockNode
  | 0, node => some node
  | n + 1, node =>
    match ((order n).toList node.txs.keys).head? with
    | none => some node
    | some start => do
      let leaf ← descend node.children node.fuel start
      evictLeaves order n (← node.removeLeaf leaf)

def advance (node : MockNode) (order : ℕ → SetOrder Txid) (draw : ℕ → ArrivalDraw) : Option MockNode := do
  let evicted ← evictLeaves order node.cfg.evictionsPerTick { node with reloading := false }
  addArrivals draw node.cfg.arrivalsPerTick evicted

def reload (node : MockNode) : MockNode := { node with reloading := true }

/-- `(len as f64 * fraction) as usize`; a rounded result is the target of a nearby fraction. -/
def dropTarget (len : ℕ) (fraction : ℚ) : ℕ := ⌊len * fraction⌋.toNat

def massDrop (node : MockNode) (order : ℕ → SetOrder Txid) (fraction : ℚ) : Option MockNode :=
  evictLeaves order (dropTarget node.txs.keys.card fraction) node

/-! ## Mining -/

/-- `min(own_rate, package_rate)`, the ancestor aggregates being the package totals. -/
def effectiveRate (e : MempoolEntry) : ℕ := min (ownRateSatVb e) (e.fees.ancestor / max e.ancestorsize 1)

def orphaned (node : MockNode) (order : SetOrder Txid) (set : Finset Txid) : List Txid :=
  (order.toList node.txs.keys).filter (fun t => decide (t ∉ set) &&
    (node.txs.lookup t).any (fun e => e.depends.head?.any (fun p => decide (p ∈ set))))

def rerooted (e : MempoolEntry) : MempoolEntry :=
  { e with depends := [], ancestorsize := e.vsize, fees := { e.fees with ancestor := e.fees.base } }

def withParent (p c : MempoolEntry) : MempoolEntry :=
  { c with
    ancestorsize := c.vsize + p.ancestorsize
    fees := { c.fees with ancestor := c.fees.base + p.fees.ancestor } }

/-- Recompute the ancestor aggregates of every descendant below `parent`, top down. -/
def repairBelow (children : ChildMap) : ℕ → Txid → EntryMap → Option EntryMap
  | 0, _, _ => none
  | fuel + 1, parent, txs =>
    match children.lookup parent with
    | none => some txs
    | some child => do
      let p ← txs.lookup parent
      repairBelow children fuel child (modify (withParent p) txs child)

def repairAll (children : ChildMap) (fuel : ℕ) : List Txid → EntryMap → Option EntryMap
  | [], txs => some txs
  | root :: roots, txs => do repairAll children fuel roots (← repairBelow children fuel root txs)

/-- Confirm every transaction in `set` and make roots of the survivors whose parent was confirmed. -/
def confirmSet (node : MockNode) (order setOrder : SetOrder Txid) (set : Finset Txid) : Option MockNode := do
  let roots := node.orphaned order set
  let kept := removeAll (roots.foldl (modify rerooted) node.txs) (setOrder.toList set)
  let children := removeAll node.children (setOrder.toList set)
  let txs ← repairAll children node.fuel roots kept
  some { node with txs := txs, children := children }

def blockWeight : ℕ := 4000000

def packageWeight (node : MockNode) : List Txid → Option ℕ
  | [] => some 0
  | x :: pkg => do
    let e ← node.txs.lookup x
    let rest ← node.packageWeight pkg
    some (e.weight.getD (e.vsize * 4) + rest)

/-- Take each ranked transaction with its unconfirmed ancestors if the whole fits. -/
def fillBlock (node : MockNode) : List (ℕ × Txid) → ℕ → Finset Txid → Option (Finset Txid)
  | [], _, confirmed => some confirmed
  | (_, t) :: ranked, used, confirmed =>
    if t ∈ confirmed then node.fillBlock ranked used confirmed
    else do
      let above ← node.ancestorsOf t
      let pkg := t :: above.filter (fun a => decide (a ∉ confirmed))
      let weight ← node.packageWeight pkg
      if blockWeight < used + weight then node.fillBlock ranked used confirmed
      else node.fillBlock ranked (used + weight) (confirmed ∪ pkg.toFinset)

def rankedTxs (node : MockNode) (order : SetOrder Txid) : List (ℕ × Txid) :=
  ((order.toList node.txs.keys).filterMap (fun t => (node.txs.lookup t).map (fun e => (effectiveRate e, t)))).insertionSort
    (fun a b => b.1 < a.1 ∨ (a.1 = b.1 ∧ a.2 ≤ b.2))

/-- Advance the tip and confirm the packages of highest effective rate up to one block's weight. -/
def mineBlock (node : MockNode) (order setOrder : SetOrder Txid) : Option MockNode := do
  let confirmed ← node.fillBlock (node.rankedTxs order) 0 ∅
  { node with tipHeight := node.tipHeight + 1 }.confirmSet order setOrder confirmed

/-! ## Runs -/

inductive Call where
  | advance (order : ℕ → SetOrder Txid) (draw : ℕ → ArrivalDraw)
  | massDrop (order : ℕ → SetOrder Txid) (fraction : ℚ)
  | reload
  | mineBlock (order setOrder : SetOrder Txid)

def call (node : MockNode) : Call → Option MockNode
  | .advance order draw => node.advance order draw
  | .massDrop order fraction => node.massDrop order fraction
  | .reload => some node.reload
  | .mineBlock order setOrder => node.mineBlock order setOrder

def callFresh (node : MockNode) : Call → Bool
  | .advance order draw =>
    (evictLeaves order node.cfg.evictionsPerTick { node with reloading := false }).all
      (arrivalsFresh draw node.cfg.arrivalsPerTick)
  | _ => true

def callAll : List Call → MockNode → Option MockNode
  | [], node => some node
  | c :: calls, node => do callAll calls (← node.call c)

def callsFresh : List Call → MockNode → Bool
  | [], _ => true
  | c :: calls, node => node.callFresh c && (node.call c).all (callsFresh calls)

/-- A node made with `initialSize` transactions, after a sequence of calls. -/
def run (cfg : ChurnConfig) (draw : ℕ → ArrivalDraw) (initialSize : ℕ) (calls : List Call) : Option MockNode := do
  callAll calls (← new draw initialSize cfg)

def runFresh (cfg : ChurnConfig) (draw : ℕ → ArrivalDraw) (initialSize : ℕ) (calls : List Call) : Bool :=
  arrivalsFresh draw initialSize (empty cfg) && (new draw initialSize cfg).all (callsFresh calls)

end MockNode

end Sim
end Satya
