import Satya.Mempool
import Satya.MockNodeEntries
import Satya.RpcDecode
/-!
# SimServer — entries over HTTP (`sim/server.rs`)

What the server writes for an entry, and what the client reads of it: every field but the time.
-/
namespace Satya
namespace Sim

open Json (asU64 asList valuesOf required_of_values optional_of_values optional_of_none asU64_int asOption_ofOption
  valuesOf_members valuesOf_members_nil)

variable (B : BitcoinText)

def feesJson (fees : MempoolEntryFees) : Json :=
  .obj [("base", .dec (B.toBtc fees.base)), ("ancestor", .dec (B.toBtc fees.ancestor)),
    ("descendant", .dec (B.toBtc fees.descendant))]

def verboseEntryJson (e : MempoolEntry) : Json :=
  .obj [("vsize", .int e.vsize), ("weight", .ofOption e.weight),
    ("depends", .arr (e.depends.map (fun d => .str (B.displayTxid d)))), ("fees", feesJson B e.fees),
    ("ancestorsize", .int e.ancestorsize), ("descendantsize", .int e.descendantsize)]

variable {B}

/-- An entry whose integers are `u64` and whose fees are at most 21 million BTC. -/
structure Representable (e : MempoolEntry) : Prop where
  vsize : e.vsize < 2 ^ 64
  weight : ∀ w ∈ e.weight, w < 2 ^ 64
  ancestorsize : e.ancestorsize < 2 ^ 64
  descendantsize : e.descendantsize < 2 ^ 64
  base : e.fees.base ≤ maxMoney
  ancestor : e.fees.ancestor ≤ maxMoney
  descendant : e.fees.descendant ≤ maxMoney

theorem feesOfFields_of {e : MempoolEntry} (h : Representable e) {fields : List (String × Json)}
    (hbase : valuesOf ["base"] fields = [.dec (B.toBtc e.fees.base)])
    (hancestor : valuesOf ["ancestor"] fields = [.dec (B.toBtc e.fees.ancestor)])
    (hdescendant : valuesOf ["descendant"] fields = [.dec (B.toBtc e.fees.descendant)]) :
    feesOfFields B fields = some e.fees := by
  rw [feesOfFields, required_of_values hbase, required_of_values hancestor, required_of_values hdescendant,
    asBtc_toBtc h.base, asBtc_toBtc h.ancestor, asBtc_toBtc h.descendant]
  rfl

/-- Members that hold what is written for an entry are read as the entry without its time. -/
theorem entryOfFields_of {e : MempoolEntry} (h : Representable e) {fields : List (String × Json)} {fees : Json}
    (hvsize : valuesOf ["vsize", "size"] fields = [.int e.vsize])
    (hweight : valuesOf ["weight"] fields = [.ofOption e.weight])
    (hdepends : valuesOf ["depends"] fields = [.arr (e.depends.map (fun d => .str (B.displayTxid d)))])
    (hfees : valuesOf ["fees"] fields = [fees]) (hread : decodeFees B fees = some e.fees)
    (hancestorsize : valuesOf ["ancestorsize"] fields = [.int e.ancestorsize])
    (hdescendantsize : valuesOf ["descendantsize"] fields = [.int e.descendantsize])
    (htime : valuesOf ["time"] fields = []) : entryOfFields B fields = some { e with time := none } := by
  have hlist : asList (asTxid B) (.arr (e.depends.map (fun d => .str (B.displayTxid d)))) = some e.depends :=
    Json.readAll_map e.depends (fun t _ => asTxid_displayTxid t)
  rw [entryOfFields, required_of_values hvsize, optional_of_values hweight, required_of_values hdepends,
    required_of_values hfees, required_of_values hancestorsize, required_of_values hdescendantsize, optional_of_none htime,
    asU64_int h.vsize, asOption_ofOption h.weight, hlist, hread, asU64_int h.ancestorsize, asU64_int h.descendantsize]
  rfl

/-- **The client reads every field of a written entry but the time, which is not written.** -/
theorem decodeEntry_verboseEntryJson {e : MempoolEntry} (h : Representable e) :
    decodeEntry B (verboseEntryJson B e) = some { e with time := none } := by
  have hfees : decodeFees B (feesJson B e.fees) = some e.fees :=
    feesOfFields_of h (by simp [valuesOf]) (by simp [valuesOf]) (by simp [valuesOf])
  exact entryOfFields_of h (by simp [valuesOf]) (by simp [valuesOf]) (by simp [valuesOf]) (by simp [valuesOf]) hfees
    (by simp [valuesOf]) (by simp [valuesOf]) (by simp [valuesOf])

/-- By way of a `Value` it reads the same. -/
theorem decodeEntry_toValue {e : MempoolEntry} (h : Representable e) :
    decodeEntry B (verboseEntryJson B e).toValue = some { e with time := none } := by
  have hfees : decodeFees B (feesJson B e.fees).toValue = some e.fees := by
    rw [feesJson, Json.toValue, decodeFees]
    exact feesOfFields_of h (valuesOf_members (.dec (B.toBtc e.fees.base)) (by simp) (by simp [valuesOf]))
      (valuesOf_members (.dec (B.toBtc e.fees.ancestor)) (by simp) (by simp [valuesOf]))
      (valuesOf_members (.dec (B.toBtc e.fees.descendant)) (by simp) (by simp [valuesOf]))
  rw [verboseEntryJson, Json.toValue, decodeEntry]
  refine entryOfFields_of h (valuesOf_members (.int e.vsize) (by simp) (by simp [valuesOf])) ?_ ?_
    (valuesOf_members (feesJson B e.fees) (by simp) (by simp [valuesOf])) hfees
    (valuesOf_members (.int e.ancestorsize) (by simp) (by simp [valuesOf]))
    (valuesOf_members (.int e.descendantsize) (by simp) (by simp [valuesOf]))
    (valuesOf_members_nil (by simp) (by simp [valuesOf]))
  · refine (valuesOf_members (.ofOption e.weight) (by simp) (by simp [valuesOf])).trans ?_
    rw [Json.toValue_ofOption]
  · refine (valuesOf_members (.arr (e.depends.map (fun d => .str (B.displayTxid d)))) (by simp)
      (by simp [valuesOf])).trans ?_
    rw [Json.toValue_strings]

/-! ## Both paths -/

theorem lasting_time : Lasting (fun e => e.time = some 1700000000) where
  generated _ _ := rfl
  attached _ _ _ _ h := h
  adjusted vsize base add e h := by cases add <;> exact h
  rerooted _ h := h
  withParent _ _ h := h

theorem decoded_eq_iff {e : MempoolEntry} (h : Representable e) :
    decodeEntry B (verboseEntryJson B e) = some e ↔ e.time = none := by
  rw [decodeEntry_verboseEntryJson h, Option.some.injEq]
  constructor
  · intro heq
    exact (congrArg MempoolEntry.time heq).symm
  · intro ht
    rw [← ht]

theorem decodedTx_eq_iff {e : MempoolEntry} (h : Representable e) :
    (decodeEntry B (verboseEntryJson B e)).map MempoolTx.ofEntry = some (MempoolTx.ofEntry e) ↔ e.time.getD 0 = 0 := by
  rw [decodeEntry_verboseEntryJson h, Option.map_some, Option.some.injEq]
  constructor
  · intro heq
    exact (congrArg MempoolTx.firstSeen heq).symm
  · intro ht
    unfold MempoolTx.ofEntry
    rw [ht]
    rfl

/-- **The HTTP path delivers the entry without its time**: the entry itself exactly if it has none, the same cached
transaction exactly if it has none or zero, and so neither for any entry of any simulated node. -/
theorem http_entry_agrees_iff (B : BitcoinText) :
    (∀ e, Representable e →
      decodeEntry B (verboseEntryJson B e) = some { e with time := none } ∧
      (decodeEntry B (verboseEntryJson B e) = some e ↔ e.time = none) ∧
      ((decodeEntry B (verboseEntryJson B e)).map MempoolTx.ofEntry = some (MempoolTx.ofEntry e) ↔
        e.time.getD 0 = 0)) ∧
    ∀ cfg draw initialSize calls node, MockNode.run cfg draw initialSize calls = some node →
      ∀ t e, node.txs.lookup t = some e → Representable e →
        decodeEntry B (verboseEntryJson B e) ≠ some e ∧
        (decodeEntry B (verboseEntryJson B e)).map MempoolTx.ofEntry ≠ some (MempoolTx.ofEntry e) := by
  refine ⟨fun e he => ⟨decodeEntry_verboseEntryJson he, decoded_eq_iff he, decodedTx_eq_iff he⟩, ?_⟩
  intro cfg draw initialSize calls node hrun t e hlookup he
  have htime : e.time = some 1700000000 := lasting_time.run hrun t e hlookup
  rw [Ne, Ne, decoded_eq_iff he, decodedTx_eq_iff he, htime]
  exact ⟨by simp, by simp⟩

def soloCfg : ChurnConfig := ⟨0, 0, ⟨5, 5⟩, 0, 1⟩

def soloDraw : ArrivalDraw where
  coin := 0
  order := SetOrder.ascending Txid
  index _ _ := 0
  index_lt _ _ h := h
  spread := 0
  raw := 7
  vsize := 200
  vsize_mem := by decide

def soloEntry : MempoolEntry where
  vsize := 200
  weight := some 800
  depends := []
  fees := { base := 1000, ancestor := 1000, descendant := 1000 }
  ancestorsize := 200
  descendantsize := 200
  time := some 1700000000

/-- The node holds the entry, and the two paths disagree about when it was first seen. -/
theorem soloEntry_loses_time :
    (MockNode.run soloCfg (fun _ => soloDraw) 1 []).bind (fun node => node.txs.lookup 7) = some soloEntry ∧
    decodeEntry .decimal (verboseEntryJson .decimal soloEntry) = some { soloEntry with time := none } ∧
    decodeEntry .decimal (verboseEntryJson .decimal soloEntry) ≠ some soloEntry ∧
    (MempoolTx.ofEntry { soloEntry with time := none }).firstSeen = 0 ∧
    (MempoolTx.ofEntry soloEntry).firstSeen = 1700000000 := by
  have hrep : Representable soloEntry := by
    refine ⟨?_, ?_, ?_, ?_, ?_, ?_, ?_⟩ <;> decide
  refine ⟨by decide +kernel, decodeEntry_verboseEntryJson hrep, ?_, rfl, rfl⟩
  rw [Ne, decoded_eq_iff hrep]
  decide

end Sim
end Satya
