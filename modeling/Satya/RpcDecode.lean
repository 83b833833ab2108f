import Satya.BitcoinText
import Satya.Json
/-!
# RpcDecode — reading the node's entries (`rpc.rs`)

The derived deserialiser of `MempoolEntry`: `vsize` may be called `size`, `weight` and `time` may be missing, amounts are
in BTC.  It reads an object by its names and an array by position.
-/
namespace Satya

open Json (asU64 asNumber asString asOption asList required optional)

variable (B : BitcoinText)

/-- `as_btc`. -/
def asBtc (j : Json) : Option ℕ := (asNumber j).bind B.fromBtc

def asTxid (j : Json) : Option Txid := (asString j).bind B.parseTxid

def feesOfFields (fields : List (String × Json)) : Option MempoolEntryFees := do
  let base ← required ["base"] (asBtc B) fields
  let ancestor ← required ["ancestor"] (asBtc B) fields
  let descendant ← required ["descendant"] (asBtc B) fields
  some { base, ancestor, descendant }

def decodeFees : Json → Option MempoolEntryFees
  | .obj fields => feesOfFields B fields
  | .arr [base, ancestor, descendant] => do
    some { base := ← asBtc B base, ancestor := ← asBtc B ancestor, descendant := ← asBtc B descendant }
  | _ => none

def entryOfFields (fields : List (String × Json)) : Option MempoolEntry := do
  let vsize ← required ["vsize", "size"] asU64 fields
  let weight ← optional ["weight"] asU64 fields
  let depends ← required ["depends"] (asList (asTxid B)) fields
  let fees ← required ["fees"] (decodeFees B) fields
  let ancestorsize ← required ["ancestorsize"] asU64 fields
  let descendantsize ← required ["descendantsize"] asU64 fields
  let time ← optional ["time"] asU64 fields
  some { vsize, weight, depends, fees, ancestorsize, descendantsize, time }

def decodeEntry : Json → Option MempoolEntry
  | .obj fields => entryOfFields B fields
  | .arr [vsize, weight, depends, fees, ancestorsize, descendantsize, time] => do
    some
      { vsize := ← asU64 vsize
        weight := ← asOption asU64 weight
        depends := ← asList (asTxid B) depends
        fees := ← decodeFees B fees
        ancestorsize := ← asU64 ancestorsize
        descendantsize := ← asU64 descendantsize
        time := ← asOption asU64 time }
  | _ => none

variable {B}

theorem asBtc_toBtc {sat : ℕ} (h : sat ≤ maxMoney) : asBtc B (.dec (B.toBtc sat)) = some sat := B.fromBtc_toBtc sat h

theorem asTxid_displayTxid (t : Txid) : asTxid B (.str (B.displayTxid t)) = some t := B.parse_display t

end Satya
