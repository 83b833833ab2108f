import Satya.MockNodeCounts
import Satya.MockNodeFrame
/-!
# SimCadence — the churn timer (`sim/server.rs`, `spawn`)

Every tick churns, every `ticks_per_block`-th mines, and every `reload_every`-th block is followed by a simulated
restart.  The timer never gets stuck, and what the node reports is a matter of the count of ticks alone (`timer_run`).
-/
namespace Satya
namespace Sim

open MockNode (advance addArrivals arrivalsFresh evictLeaves empty)

/-! ## The timer -/

/-- How many churn ticks pass between two blocks; 0 for never. -/
def ticksPerBlock (blockSecs churnSecs : ℕ) : ℕ :=
  if blockSecs = 0 then 0 else max (blockSecs / max churnSecs 1) 1

def churnSecs : ℕ := 2

/-- The fraction that a simulated restart drops. -/
def restartDrop : ℚ := 4 / 5

/-- What the calls of one tick draw. -/
structure TickDraw where
  evict : ℕ → SetOrder Txid
  draw : ℕ → ArrivalDraw
  order : SetOrder Txid
  setOrder : SetOrder Txid
  drop : ℕ → SetOrder Txid

/-- A `u64` count of ticks, a `u32` count of blocks, and the node. -/
structure Timer where
  tick : ℕ
  blocks : ℕ
  node : MockNode

/-- One round of the timer's loop; the counters wrap, as in a release build. -/
def timerTick (tpb reloadEvery : ℕ) (d : TickDraw) (s : Timer) : Option Timer := do
  let tick := (s.tick + 1) % 2 ^ 64
  let churned ← s.node.advance d.evict d.draw
  if tpb ≠ 0 ∧ tick % tpb = 0 then
    let mined ← churned.mineBlock d.order d.setOrder
    let blocks := (s.blocks + 1) % 2 ^ 32
    if reloadEvery ≠ 0 ∧ blocks % reloadEvery = 0 then
      let left ← mined.massDrop d.drop restartDrop
      some ⟨tick, blocks, left.reload⟩
    else some ⟨tick, blocks, mined⟩
  else some ⟨tick, s.blocks, churned⟩

def timerRun (tpb reloadEvery : ℕ) : List TickDraw → Timer → Option Timer
  | [], s => some s
  | d :: draws, s => do timerRun tpb reloadEvery draws (← timerTick tpb reloadEvery d s)

/-- No arrival of the run draws the txid of a transaction that is in the mempool at that moment. -/
def timerFresh (tpb reloadEvery : ℕ) : List TickDraw → Timer → Bool
  | [], _ => true
  | d :: draws, s =>
    s.node.callFresh (.advance d.evict d.draw) && (timerTick tpb reloadEvery d s).all (timerFresh tpb reloadEvery draws)

/-- The timer of a new node, after some ticks. -/
def spawnRun (cfg : ChurnConfig) (draw : ℕ → ArrivalDraw) (initialSize blockSecs reloadEvery : ℕ)
    (draws : List TickDraw) : Option Timer := do
  timerRun (ticksPerBlock blockSecs churnSecs) reloadEvery draws ⟨0, 0, ← MockNode.new draw initialSize cfg⟩

def spawnFresh (cfg : ChurnConfig) (draw : ℕ → ArrivalDraw) (initialSize blockSecs reloadEvery : ℕ)
    (draws : List TickDraw) : Bool :=
  arrivalsFresh draw initialSize (empty cfg) && (MockNode.new draw initialSize cfg).all
    (fun node => timerFresh (ticksPerBlock blockSecs churnSecs) reloadEvery draws ⟨0, 0, node⟩)

/-! ## One tick -/

variable {tpb reloadEvery : ℕ} {node : MockNode} {C : Forest} {s : Timer} {d : TickDraw}

def MinesAt (tpb tick : ℕ) : Prop := tpb ≠ 0 ∧ tick % tpb = 0

def ReloadsAt (tpb reloadEvery tick blocks : ℕ) : Prop := MinesAt tpb tick ∧ reloadEvery ≠ 0 ∧ blocks % reloadEvery = 0

instance (tpb tick : ℕ) : Decidable (MinesAt tpb tick) := inferInstanceAs (Decidable (_ ∧ _))

instance (tpb reloadEvery tick blocks : ℕ) : Decidable (ReloadsAt tpb reloadEvery tick blocks) :=
  inferInstanceAs (Decidable (_ ∧ _))

/-- What a tick does to the counters, to what the node reports, and at most to its size. -/
structure Ticked (tpb reloadEvery : ℕ) (s s' : Timer) : Prop where
  tick : s'.tick = (s.tick + 1) % 2 ^ 64
  blocks : s'.blocks = if MinesAt tpb s'.tick then (s.blocks + 1) % 2 ^ 32 else s.blocks
  tip : s'.node.tipHeight = s.node.tipHeight + if MinesAt tpb s'.tick then 1 else 0
  reloading : s'.node.reloading = decide (ReloadsAt tpb reloadEvery s'.tick s'.blocks)
  cfg : s'.node.cfg = s.node.cfg
  size : s'.node.txs.keys.card ≤ (s.node.txs.keys.card - s.node.cfg.evictionsPerTick) + s.node.cfg.arrivalsPerTick

theorem advance_reports {node' : MockNode} {order : ℕ → SetOrder Txid} {draw : ℕ → ArrivalDraw}
    (hrun : node.advance order draw = some node') : node'.tipHeight = node.tipHeight ∧ node'.reloading = false := by
  have hframe := call_frame (c := .advance order draw) hrun
  exact ⟨hframe.tip, hframe.reloading⟩

theorem Describes.mined (h : Describes node C) (order setOrder : SetOrder Txid) : ∃ mined C',
    node.mineBlock order setOrder = some mined ∧ Describes mined C' ∧ mined.cfg = node.cfg ∧
      mined.tipHeight = node.tipHeight + 1 ∧ mined.reloading = node.reloading ∧
      mined.txs.keys.card ≤ node.txs.keys.card := by
  obtain ⟨mined, set, -, -, hrun, h', hcfg, htip⟩ := h.mineBlock order setOrder
  obtain ⟨mined', hrun', hmines⟩ := h.mines order setOrder
  rw [hrun, Option.some.injEq] at hrun'
  have hframe := call_frame (c := .mineBlock order setOrder) hrun
  exact ⟨mined, _, hrun, h', hcfg, htip, hframe.reloading, hrun' ▸ Finset.card_le_card hmines.subset⟩

/-- **A tick returns, and does what the counters say.** -/
theorem Describes.timerTick (h : Describes s.node C) (hfresh : s.node.callFresh (.advance d.evict d.draw) = true) :
    ∃ s' C', timerTick tpb reloadEvery d s = some s' ∧ Describes s'.node C' ∧ Ticked tpb reloadEvery s s' := by
  obtain ⟨churned, C₁, hchurn, h₁, hcfg₁, hcard₁⟩ := h.advance hfresh
  obtain ⟨htip₁, hreload₁⟩ := advance_reports hchurn
  unfold Sim.timerTick
  simp only [Option.bind_eq_bind, hchurn, Option.bind_some]
  by_cases hmine : tpb ≠ 0 ∧ (s.tick + 1) % 2 ^ 64 % tpb = 0
  · obtain ⟨mined, C₂, hrun, h₂, hcfg₂, htip₂, hreload₂, hcard₂⟩ := h₁.mined d.order d.setOrder
    simp only [if_pos hmine, hrun, Option.bind_some]
    have hmines : MinesAt tpb ((s.tick + 1) % 2 ^ 64) := hmine
    by_cases hreload : reloadEvery ≠ 0 ∧ (s.blocks + 1) % 2 ^ 32 % reloadEvery = 0
    · obtain ⟨left, C₃, hdrop, h₃, hcfg₃, hcard₃⟩ := h₂.evictLeaves d.drop
        (MockNode.dropTarget mined.txs.keys.card restartDrop)
      have hdrop' : mined.massDrop d.drop restartDrop = some left := hdrop
      have hframe := call_frame (c := .massDrop d.drop restartDrop) hdrop'
      simp only [if_pos hreload, hdrop', Option.bind_some]
      refine ⟨_, C₃, rfl, h₃.setReloading true, ⟨rfl, ?_, ?_, ?_, ?_, ?_⟩⟩
      · exact (if_pos hmines).symm
      · show left.tipHeight = _
        rw [if_pos hmines, hframe.tip, ← htip₁]
        exact htip₂
      · show true = _
        exact (decide_eq_true ⟨hmines, hreload⟩).symm
      · exact hcfg₃.trans (hcfg₂.trans hcfg₁)
      · show left.txs.keys.card ≤ _
        omega
    · simp only [if_neg hreload]
      refine ⟨_, C₂, rfl, h₂, ⟨rfl, ?_, ?_, ?_, hcfg₂.trans hcfg₁, ?_⟩⟩
      · exact (if_pos hmines).symm
      · show mined.tipHeight = _
        rw [if_pos hmines, htip₂, htip₁]
      · show mined.reloading = _
        rw [hreload₂, hreload₁]
        exact (decide_eq_false (fun hr => hreload hr.2)).symm
      · show mined.txs.keys.card ≤ _
        omega
  · simp only [if_neg hmine]
    have hmines : ¬ MinesAt tpb ((s.tick + 1) % 2 ^ 64) := hmine
    refine ⟨_, C₁, rfl, h₁, ⟨rfl, ?_, ?_, ?_, hcfg₁, hcard₁.le⟩⟩
    · exact (if_neg hmines).symm
    · show churned.tipHeight = _
      rw [if_neg hmines, Nat.add_zero, htip₁]
    · show churned.reloading = _
      rw [hreload₁]
      exact (decide_eq_false (fun hr => hmines hr.1)).symm

/-! ## Runs -/

theorem minesAt_iff {tick : ℕ} (htick : 0 < tick) : MinesAt tpb tick ↔ tpb ∣ tick := by
  constructor
  · exact fun h => Nat.dvd_of_mod_eq_zero h.2
  · intro h
    exact ⟨fun hzero => absurd (Nat.zero_dvd.1 (hzero ▸ h)) htick.ne', Nat.mod_eq_zero_of_dvd h⟩

theorem reloadsAt_iff {tick : ℕ} (htick : 0 < tick) :
    ReloadsAt tpb reloadEvery tick (tick / tpb) ↔ tpb * reloadEvery ∣ tick := by
  constructor
  · rintro ⟨hmine, hne, hmod⟩
    have hdvd := (minesAt_iff htick).1 hmine
    exact (Nat.dvd_div_iff_mul_dvd hdvd).1 (Nat.dvd_of_mod_eq_zero hmod)
  · intro h
    have hdvd : tpb ∣ tick := (Nat.dvd_mul_right tpb reloadEvery).trans h
    refine ⟨(minesAt_iff htick).2 hdvd, fun hzero => ?_, Nat.mod_eq_zero_of_dvd ((Nat.dvd_div_iff_mul_dvd hdvd).2 h)⟩
    rw [hzero, Nat.mul_zero, Nat.zero_dvd] at h
    exact htick.ne' h

/-- A timer's state is a matter of its count of ticks. -/
structure Timed (tpb reloadEvery tip size : ℕ) (s : Timer) : Prop where
  blocks : s.blocks = s.tick / tpb
  tip : s.node.tipHeight = tip + s.tick / tpb
  reloading : s.node.reloading = true ↔ 0 < s.tick ∧ tpb * reloadEvery ∣ s.tick
  size : s.node.txs.keys.card ≤ max size s.node.cfg.arrivalsPerTick +
    s.tick * (s.node.cfg.arrivalsPerTick - s.node.cfg.evictionsPerTick)

/-- Until a counter runs over. -/
theorem Timed.step {tip size : ℕ} {s' : Timer} (h : Timed tpb reloadEvery tip size s)
    (hstep : Ticked tpb reloadEvery s s') (hticks : s.tick + 1 < 2 ^ 64) (hmined : (s.tick + 1) / tpb < 2 ^ 32) :
    Timed tpb reloadEvery tip size s' := by
  have htick : s'.tick = s.tick + 1 := by rw [hstep.tick, Nat.mod_eq_of_lt hticks]
  have hpos : 0 < s'.tick := by rw [htick]; exact Nat.succ_pos _
  have hcount : s'.tick / tpb = s.tick / tpb + if MinesAt tpb s'.tick then 1 else 0 := by
    rw [if_congr (minesAt_iff hpos) rfl rfl, htick, Nat.succ_div]
  have hblocks : s'.blocks = s'.tick / tpb := by
    rw [hstep.blocks, h.blocks, hcount]
    rw [← htick, hcount] at hmined
    split
    · next hm =>
      rw [if_pos hm] at hmined
      exact Nat.mod_eq_of_lt hmined
    · exact (Nat.add_zero _).symm
  refine ⟨hblocks, by rw [hstep.tip, h.tip, hcount, Nat.add_assoc], ?_, ?_⟩
  · rw [hstep.reloading, decide_eq_true_iff, hblocks, reloadsAt_iff hpos, and_iff_right hpos]
  · have hsize := h.size
    have hle := hstep.size
    rw [hstep.cfg, htick, Nat.add_mul, Nat.one_mul]
    omega

theorem Describes.timerRun {tip size : ℕ} : ∀ (draws : List TickDraw) {s : Timer} {C : Forest}, Describes s.node C →
    Timed tpb reloadEvery tip size s → timerFresh tpb reloadEvery draws s = true →
    s.tick + draws.length < 2 ^ 64 → (s.tick + draws.length) / tpb < 2 ^ 32 →
      ∃ s' C', timerRun tpb reloadEvery draws s = some s' ∧ Describes s'.node C' ∧ Timed tpb reloadEvery tip size s' ∧
        s'.tick = s.tick + draws.length ∧ s'.node.cfg = s.node.cfg
  | [], s, C, h, ht, _, _, _ => ⟨s, C, rfl, h, ht, rfl, rfl⟩
  | d :: draws, s, C, h, ht, hfresh, hticks, hmined => by
    unfold timerFresh at hfresh
    rw [Bool.and_eq_true] at hfresh
    obtain ⟨mid, C₁, hstep, h₁, hticked⟩ := @Describes.timerTick tpb reloadEvery _ _ _ h hfresh.1
    rw [hstep] at hfresh
    rw [List.length_cons] at hticks hmined
    have hnext : s.tick + 1 < 2 ^ 64 := by omega
    have htick₁ : mid.tick = s.tick + 1 := by rw [hticked.tick, Nat.mod_eq_of_lt hnext]
    have hsum : mid.tick + draws.length = s.tick + (draws.length + 1) := by omega
    have hfirst : (s.tick + 1) / tpb < 2 ^ 32 := lt_of_le_of_lt (Nat.div_le_div_right (by omega)) hmined
    obtain ⟨s', C', hrun, h', ht', htick, hcfg⟩ := h₁.timerRun draws (ht.step hticked hnext hfirst) hfresh.2
      (hsum ▸ hticks) (hsum ▸ hmined)
    refine ⟨s', C', ?_, h', ht', ?_, hcfg.trans hticked.cfg⟩
    · unfold Sim.timerRun
      rw [hstep]
      exact hrun
    · rw [htick, List.length_cons, hsum]

/-- **The timer never gets stuck, and its count of ticks says what the node reports**: until a counter runs over and
whatever is drawn, as long as generated txids are fresh, the mempool is truthful, the tip has risen by one for every
`ticksPerBlock` ticks, the node reports a reload exactly at the ticks that complete a multiple of `reloadEvery` such
blocks, and the mempool holds at most the larger of its first size and one tick's arrivals, and for each tick what
arrivals exceed evictions by. -/
theorem timer_run (cfg : ChurnConfig) (draw : ℕ → ArrivalDraw) (initialSize blockSecs reloadEvery : ℕ)
    (draws : List TickDraw) (hfresh : spawnFresh cfg draw initialSize blockSecs reloadEvery draws = true)
    (hticks : draws.length < 2 ^ 64) (hmined : draws.length / ticksPerBlock blockSecs churnSecs < 2 ^ 32) :
    ∃ s, spawnRun cfg draw initialSize blockSecs reloadEvery draws = some s ∧ s.node.Truthful ∧
      s.tick = draws.length ∧
      s.node.tipHeight = 800000 + draws.length / ticksPerBlock blockSecs churnSecs ∧
      (s.node.reloading = true ↔
        draws ≠ [] ∧ ticksPerBlock blockSecs churnSecs * reloadEvery ∣ draws.length) ∧
      s.node.txs.keys.card ≤
        max initialSize cfg.arrivalsPerTick + draws.length * (cfg.arrivalsPerTick - cfg.evictionsPerTick) := by
  unfold spawnFresh at hfresh
  rw [Bool.and_eq_true] at hfresh
  obtain ⟨first, C, hnew, h, hcfg, hcard⟩ := (describes_empty cfg).addArrivals initialSize hfresh.1
  have hnew' : MockNode.new draw initialSize cfg = some first := hnew
  have hreports := (Steady.refl ownData Set.univ (empty cfg)).addArrivals ownData_keptByChurn initialSize
    (fun _ _ => Set.mem_univ _) hnew
  rw [hnew'] at hfresh
  have htimed : Timed (ticksPerBlock blockSecs churnSecs) reloadEvery 800000 initialSize ⟨0, 0, first⟩ := by
    refine ⟨(Nat.zero_div _).symm, by rw [Nat.zero_div, hreports.tip]; rfl, ?_, ?_⟩
    · rw [hreports.reloading]
      exact iff_of_false Bool.false_ne_true (fun hr => absurd hr.1 (Nat.lt_irrefl 0))
    · have hzero : (empty cfg).txs.keys.card = 0 := rfl
      rw [hcard, hzero]
      omega
  obtain ⟨s, C', hrun, h', ht, htick, hcfg'⟩ := h.timerRun draws htimed hfresh.2 (by simpa using hticks)
    (by simpa using hmined)
  rw [Nat.zero_add] at htick
  have hlen : 0 < draws.length ↔ draws ≠ [] := List.length_pos_iff
  refine ⟨s, ?_, h'.truthful, htick, by rw [ht.tip, htick], by rw [ht.reloading, htick, hlen], ?_⟩
  · unfold spawnRun
    rw [hnew']
    exact hrun
  · have hsize := ht.size
    rw [htick, hcfg', hcfg] at hsize
    exact hsize

def batchTick (first : ℕ) : TickDraw :=
  ⟨fun _ => SetOrder.ascending Txid, batchDraw first, SetOrder.ascending Txid, SetOrder.ascending Txid,
    fun _ => SetOrder.ascending Txid⟩

/-- A block every second tick, and a restart with each. -/
theorem timer_run_batch : ∃ s, spawnRun chainCfg (batchDraw 100) 12 4 1 [batchTick 200, batchTick 300] = some s ∧
    s.node.Truthful ∧ s.node.tipHeight = 800001 ∧ s.node.reloading = true := by
  have hfresh : spawnFresh chainCfg (batchDraw 100) 12 4 1 [batchTick 200, batchTick 300] = true := by decide +kernel
  obtain ⟨s, hrun, htruthful, -, htip, hreload, -⟩ :=
    timer_run chainCfg (batchDraw 100) 12 4 1 [batchTick 200, batchTick 300] hfresh (by decide) (by decide)
  exact ⟨s, hrun, htruthful, htip, hreload.2 ⟨by simp, by decide⟩⟩

end Sim
end Satya
