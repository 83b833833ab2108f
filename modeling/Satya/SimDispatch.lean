import Satya.MockNodeFrame
import Satya.RpcMethods
import Satya.SimServer
/-!
# SimDispatch — the simulated node's two faces (`sim/mock_node.rs`, `sim/server.rs`)

In process the node answers a call with a value; over HTTP `dispatch` writes a document and the client reads it.  The two
agree on every method, the time of an entry apart (`served_as_in_process`).
-/
namespace Satya
namespace Sim

open Json (asList)
open Rpc (HttpResponse asciiBytes)

/-! ## In process -/

namespace MockNode

def mempoolInfo (node : MockNode) : MempoolInfo := ⟨some (!node.reloading), node.minFee⟩

def rawMempoolTxids (node : MockNode) (order : SetOrder Txid) : List Txid := order.toList node.txs.keys

/-- `snapshot_entries`, and the verbose dump. -/
def snapshotEntries (node : MockNode) (order : SetOrder Txid) : List (Txid × MempoolEntry) :=
  Rpc.tableRows order node.txs

def entryByTxid (node : MockNode) (txid : Txid) : Option MempoolEntry := node.txs.lookup txid

end MockNode

/-! ## Over HTTP -/

variable (B : BitcoinText)

def okResponse (result : Json) : Json := .obj [("result", result), ("error", .null), ("id", .int 0)]

def errorResponse (code : ℤ) (message : String) : Json :=
  .obj [("result", .null), ("error", .obj [("code", .int code), ("message", .str message)]), ("id", .int 0)]

/-- `params.first().and_then(Value::as_bool).unwrap_or(false)`. -/
def firstBool (params : List Json) : Bool := (params.head?.bind Rpc.asBool).getD false

/-- `params.first().and_then(Value::as_str).unwrap_or_default()`. -/
def firstStr (params : List Json) : String := (params.head?.bind Json.asString).getD ""

/-- What is answered, whatever the method; the map is read in `order`. -/
def dispatch (order : SetOrder Txid) (node : MockNode) (method : String) (params : List Json) : Json :=
  match method with
  | "getblockchaininfo" => okResponse (.obj [("chain", .str "main"), ("blocks", .int node.tipHeight)])
  | "getmempoolinfo" =>
    okResponse (.obj [("loaded", .bool (!node.reloading)), ("mempoolminfee", .dec (1 / 100000))])
  | "getrawmempool" =>
    if firstBool params then
      okResponse (.obj ((node.snapshotEntries order).map (fun e => (B.displayTxid e.1, verboseEntryJson B e.2))))
    else okResponse (.arr ((node.snapshotEntries order).map (fun e => .str (B.displayTxid e.1))))
  | "getmempoolentry" =>
    match (B.parseTxid (firstStr params)).bind node.entryByTxid with
    | some e => okResponse (verboseEntryJson B e)
    | none => errorResponse (-5) "Transaction not in mempool"
  | other => errorResponse (-32601) ("Method not found: " ++ other)

/-! ## Delivery -/

/-- The response carries the text of `doc`, whole and within the cap. -/
structure Delivers (parse : List UInt8 → Option Json) (resp : HttpResponse) (maxBody : ℕ) (doc : Json) : Prop where
  status : resp.status = 200
  body : ∃ bytes, resp.Within maxBody bytes ∧ parse bytes = some doc

section Delivered

variable {α : Type} {parse : List UInt8 → Option Json} {decode : Json → Option α} {resp : HttpResponse} {maxBody : ℕ}

theorem Delivers.call {doc : Json} (h : Delivers parse resp maxBody doc) {parsed : Rpc.RpcResponse}
    (hread : Rpc.decodeResponse doc = some parsed) :
    Rpc.call parse decode (some resp) maxBody = match parsed.error with
      | some err => .error (.rpc err.code err.message)
      | none => match decode parsed.result with
        | some a => .ok a
        | none => .error .decode := by
  obtain ⟨bytes, hbody, hparse⟩ := h.body
  have hbind : (parse bytes).bind Rpc.decodeResponse = some parsed := by rw [hparse, Option.bind_some, hread]
  refine (Rpc.call_of_within (by rw [h.status]; decide) hbody).trans ?_
  generalize (parse bytes).bind Rpc.decodeResponse = read at hbind ⊢
  subst hbind
  rfl

/-- **A delivered result is what the decoder makes of it.** -/
theorem Delivers.call_ok {result : Json} {a : α} (h : Delivers parse resp maxBody (okResponse result))
    (hdecode : decode result.toValue = some a) : Rpc.call parse decode (some resp) maxBody = .ok a := by
  rw [h.call (rfl : Rpc.decodeResponse (okResponse result) = some ⟨result.toValue, none⟩)]
  simp only [hdecode]

theorem Delivers.call_error {code : ℤ} {message : String} (h : Delivers parse resp maxBody (errorResponse code message))
    (hcode : -2 ^ 31 ≤ code ∧ code < 2 ^ 31) :
    Rpc.call parse decode (some resp) maxBody = .error (.rpc code message) := by
  have hi32 : Rpc.asI32 (.int code) = some code := if_pos hcode
  have hread : Rpc.decodeResponse (errorResponse code message) = some ⟨.null, some ⟨code, message⟩⟩ := by
    have herr : Rpc.decodeResponseError (.obj [("code", .int code), ("message", .str message)]) = some ⟨code, message⟩ := by
      rw [Rpc.decodeResponseError, Rpc.errorOfFields, Json.required_of_values (j := .int code) (by simp [Json.valuesOf]),
        Json.required_of_values (j := .str message) (by simp [Json.valuesOf]), hi32]
      rfl
    rw [errorResponse, Rpc.decodeResponse, Rpc.responseOfFields,
      Json.optional_of_values (j := .obj [("code", .int code), ("message", .str message)]) (by simp [Json.valuesOf])]
    show (do
      let result ← Rpc.resultOfFields _
      let error ← (Rpc.decodeResponseError _).map some
      some ({ result, error } : Rpc.RpcResponse)) = _
    rw [herr]
    rfl
  rw [h.call hread]

end Delivered

/-! ## The two faces agree -/

def eraseTime (e : MempoolEntry) : MempoolEntry := { e with time := none }

/-- A node whose integers are `u64` and whose fees are at most 21 million BTC. -/
structure Servable (node : MockNode) : Prop where
  tip : node.tipHeight < 2 ^ 64
  entries : ∀ t e, node.txs.lookup t = some e → Representable e

variable {B} {parse : List UInt8 → Option Json} {resp : HttpResponse} {node : MockNode} {order : SetOrder Txid}

theorem parse_display_of_mem (l : List (Txid × MempoolEntry)) :
    ∀ e ∈ l, B.parseTxid (B.displayTxid e.1) = some e.1 := fun e _ => B.parse_display e.1

theorem Servable.decodeEntry (hs : Servable node) {e : Txid × MempoolEntry} (he : e ∈ node.snapshotEntries order) :
    decodeEntry B (verboseEntryJson B e.2).toValue = some (eraseTime e.2) :=
  decodeEntry_toValue (hs.entries e.1 e.2 (Rpc.mem_tableRows.1 he))

/-- **The dump is read as the node's table**, each entry without its time, in the client's own order. -/
theorem decodeVerbose_snapshot (hs : Servable node) (order order' : SetOrder Txid) : ∃ m,
    Rpc.decodeVerbose B
        (Json.obj ((node.snapshotEntries order).map (fun e => (B.displayTxid e.1, verboseEntryJson B e.2)))).toValue =
      some m ∧ m.keys = node.txs.keys ∧ (∀ t, m.lookup t = (node.txs.lookup t).map eraseTime) ∧
      Rpc.tableRows order' m = (node.snapshotEntries order').map (fun e => (e.1, eraseTime e.2)) := by
  have hnodup : (((node.snapshotEntries order).map (fun e => (B.displayTxid e.1, verboseEntryJson B e.2))).map
      Prod.fst).Nodup := by
    have hmap : ((node.snapshotEntries order).map (fun e => (B.displayTxid e.1, verboseEntryJson B e.2))).map Prod.fst =
        ((node.snapshotEntries order).map Prod.fst).map B.displayTxid := by
      rw [List.map_map, List.map_map]
      rfl
    rw [hmap, MockNode.snapshotEntries, Rpc.map_fst_tableRows]
    exact (order.nodup _).map B.displayTxid_injective
  have hmembers := Json.members_perm hnodup
  rw [List.map_map] at hmembers
  obtain ⟨entries, hread, hperm⟩ := Rpc.readMembers_perm hmembers
    (Rpc.readMembers_map (node.snapshotEntries order) (parse_display_of_mem _) (fun e he => hs.decodeEntry he))
  have hkeys : (insertAll ∅ entries).keys = node.txs.keys := by
    ext t
    rw [keys_insertAll, Finmap.keys_empty, Finset.empty_union, List.mem_toFinset, (hperm.map Prod.fst).mem_iff,
      List.map_map]
    show t ∈ (node.snapshotEntries order).map Prod.fst ↔ _
    rw [MockNode.snapshotEntries, Rpc.map_fst_tableRows, order.mem_iff]
  have hlookup : ∀ t, (insertAll ∅ entries).lookup t = (node.txs.lookup t).map eraseTime := by
    intro t
    cases ht : node.txs.lookup t with
    | none =>
      refine Finmap.lookup_eq_none.2 (fun hmem => ?_)
      rw [← Finmap.mem_keys, hkeys, Finmap.mem_keys] at hmem
      exact Finmap.lookup_eq_none.1 ht hmem
    | some e =>
      have hmem : t ∈ insertAll ∅ entries := by
        rw [← Finmap.mem_keys, hkeys, Finmap.mem_keys]
        exact Finmap.mem_of_lookup_eq_some ht
      obtain ⟨e', he'⟩ := Finmap.mem_iff.1 hmem
      rcases lookup_insertAll _ _ he' with hin | ⟨-, hin⟩
      · obtain ⟨⟨a, e₀⟩, ha, heq⟩ := List.mem_map.1 (hperm.mem_iff.1 hin)
        rw [Prod.mk.injEq] at heq
        obtain ⟨rfl, rfl⟩ := heq
        rw [Rpc.mem_tableRows.1 ha, Option.some.injEq] at ht
        rw [he', ht]
        rfl
      · rw [Finmap.lookup_empty] at hin
        cases hin
  refine ⟨insertAll ∅ entries, ?_, hkeys, hlookup, ?_⟩
  · show (Rpc.readMembers B _).map (insertAll ∅) = _
    rw [hread]
    rfl
  have hrows : (node.snapshotEntries order').map (fun e => (e.1, eraseTime e.2)) =
      (order'.toList node.txs.keys).filterMap (fun t => ((node.txs.lookup t).map eraseTime).map (fun e => (t, e))) := by
    rw [MockNode.snapshotEntries, Rpc.tableRows, List.map_filterMap]
    refine List.filterMap_congr (fun t _ => ?_)
    rw [Option.map_map, Option.map_map]
    rfl
  rw [Rpc.tableRows, hkeys, hrows]
  exact List.filterMap_congr (fun t _ => by rw [hlookup])

/-- **Over HTTP the node answers every method as in process**, the time of an entry apart: for every node, every way the
transport cuts a delivered body into chunks, and every order in which the two sides read their maps. -/
theorem served_as_in_process (B : BitcoinText) (parse : List UInt8 → Option Json) (node : MockNode) (hs : Servable node)
    (order order' : SetOrder Txid) (resp : HttpResponse) :
    (∀ params, Delivers parse resp Rpc.maxBodyControl (dispatch B order node "getblockchaininfo" params) →
      Rpc.tipHeight B parse (some resp) = .ok node.tipHeight ∧ Rpc.network B parse (some resp) = .ok .bitcoin) ∧
    (∀ params, B.fromBtc (1 / 100000) = some node.minFee →
      Delivers parse resp Rpc.maxBodyControl (dispatch B order node "getmempoolinfo" params) →
      Rpc.mempoolInfo B parse (some resp) = .ok node.mempoolInfo) ∧
    (Delivers parse resp Rpc.maxBodyTxids (dispatch B order node "getrawmempool" [.bool false]) →
      Rpc.rawMempoolTxids B parse (some resp) = .ok (node.rawMempoolTxids order)) ∧
    (Delivers parse resp Rpc.maxBodyVerbose (dispatch B order node "getrawmempool" [.bool true]) →
      Rpc.rawMempoolVerbose B parse order' (some resp) =
        .ok ((node.snapshotEntries order').map (fun e => (e.1, eraseTime e.2)))) ∧
    ∀ t, Delivers parse resp Rpc.maxBodyControl (dispatch B order node "getmempoolentry" [.str (B.displayTxid t)]) →
      Rpc.mempoolEntry B parse (some resp) = .ok ((node.entryByTxid t).map eraseTime) := by
  refine ⟨fun params h => ?_, fun params hfee h => ?_, fun h => ?_, fun h => ?_, fun t h => ?_⟩
  · have hread : Rpc.decodeBlockchainInfo B (Json.obj [("chain", .str "main"), ("blocks", .int node.tipHeight)]).toValue =
        some ⟨.bitcoin, node.tipHeight⟩ :=
      Rpc.chainOfFields_of (Json.valuesOf_members (.str "main") (by simp) (by simp [Json.valuesOf])) B.fromCoreArg_main
        (Json.valuesOf_members (.int node.tipHeight) (by simp) (by simp [Json.valuesOf])) hs.tip
    have hcall := h.call_ok hread
    rw [Rpc.tipHeight, Rpc.network, hcall]
    exact ⟨rfl, rfl⟩
  · exact h.call_ok (Rpc.infoOfFields_of
      (Json.valuesOf_members (.bool (!node.reloading)) (by simp) (by simp [Json.valuesOf]))
      (Json.valuesOf_members (.dec (1 / 100000)) (by simp) (by simp [Json.valuesOf])) hfee)
  · refine h.call_ok ?_
    have hmap : (node.snapshotEntries order).map (fun e => Json.str (B.displayTxid e.1)) =
        (node.rawMempoolTxids order).map (fun t => Json.str (B.displayTxid t)) := by
      rw [MockNode.rawMempoolTxids, ← Rpc.map_fst_tableRows, List.map_map]
      rfl
    rw [hmap, Json.toValue_strings]
    exact Json.readAll_map _ (fun t _ => asTxid_displayTxid t)
  · obtain ⟨m, hread, -, -, hrows⟩ := decodeVerbose_snapshot (B := B) hs order order'
    rw [Rpc.rawMempoolVerbose, h.call_ok hread, ← hrows]
    rfl
  · have hentry : (B.parseTxid (firstStr [.str (B.displayTxid t)])).bind node.entryByTxid = node.entryByTxid t := by
      show (B.parseTxid (B.displayTxid t)).bind node.entryByTxid = _
      rw [B.parse_display, Option.bind_some]
    unfold dispatch at h
    rw [hentry] at h
    cases ht : node.entryByTxid t with
    | some e =>
      rw [ht] at h
      rw [Rpc.mempoolEntry, h.call_ok (decodeEntry_toValue (hs.entries t e ht))]
      rfl
    | none =>
      rw [ht] at h
      rw [Rpc.mempoolEntry, h.call_error (by decide)]
      rfl

/-- The node of one transaction. -/
def soloNode : MockNode := { MockNode.empty soloCfg with txs := (∅ : EntryMap).insert 7 soloEntry }

theorem soloNode_servable : Servable soloNode where
  tip := by decide
  entries t e h := by
    have hrep : Representable soloEntry := by
      refine ⟨?_, ?_, ?_, ?_, ?_, ?_, ?_⟩ <;> decide
    have h' : ((∅ : EntryMap).insert 7 soloEntry).lookup t = some e := h
    by_cases ht : t = 7
    · rw [ht, Finmap.lookup_insert, Option.some.injEq] at h'
      exact h' ▸ hrep
    · rw [Finmap.lookup_insert_of_ne _ ht, Finmap.lookup_empty] at h'
      cases h'

@[irreducible] def infoBody : List UInt8 :=
  asciiBytes "\x7b\"error\":null,\"id\":0,\"result\":\x7b\"loaded\":true,\"mempoolminfee\":1e-5\x7d\x7d"

@[irreducible] def tipBody : List UInt8 :=
  asciiBytes "\x7b\"error\":null,\"id\":0,\"result\":\x7b\"blocks\":800000,\"chain\":\"main\"\x7d\x7d"

@[irreducible] def dumpBody : List UInt8 :=
  asciiBytes "\x7b\"error\":null,\"id\":0,\"result\":\x7b\"0700000000000000000000000000000000000000000000000000000000000000\":\x7b\"ancestorsize\":200,\"depends\":[],\"descendantsize\":200,\"fees\":\x7b\"ancestor\":1e-5,\"base\":1e-5,\"descendant\":1e-5\x7d,\"vsize\":200,\"weight\":800\x7d\x7d\x7d"

/-- The parser on the three texts that the node of one transaction sends. -/
def soloParse (bytes : List UInt8) : Option Json :=
  if bytes = infoBody then some (dispatch .decimal (SetOrder.ascending Txid) soloNode "getmempoolinfo" [])
  else if bytes = tipBody then some (dispatch .decimal (SetOrder.ascending Txid) soloNode "getblockchaininfo" [])
  else if bytes = dumpBody then some (dispatch .decimal (SetOrder.ascending Txid) soloNode "getrawmempool" [.bool true])
  else none

/-- A response that arrives in one piece. -/
def whole (bytes : List UInt8) : HttpResponse := ⟨200, some bytes.length, [some bytes]⟩

theorem delivers_whole {parse : List UInt8 → Option Json} {bytes : List UInt8} {maxBody : ℕ} {doc : Json}
    (hle : bytes.length ≤ maxBody) (hparse : parse bytes = some doc) : Delivers parse (whole bytes) maxBody doc where
  status := rfl
  body := by
    refine ⟨bytes, ⟨?_, ⟨[bytes], rfl, (List.append_nil _).symm⟩, hle⟩, hparse⟩
    rintro len ⟨⟩
    exact hle

theorem infoBody_delivers : Delivers soloParse (whole infoBody) Rpc.maxBodyControl
    (dispatch .decimal (SetOrder.ascending Txid) soloNode "getmempoolinfo" []) :=
  delivers_whole (by decide +kernel) (if_pos rfl)

theorem tipBody_delivers : Delivers soloParse (whole tipBody) Rpc.maxBodyControl
    (dispatch .decimal (SetOrder.ascending Txid) soloNode "getblockchaininfo" []) :=
  delivers_whole (by decide +kernel) ((if_neg (by decide +kernel)).trans (if_pos rfl))

theorem dumpBody_delivers : Delivers soloParse (whole dumpBody) Rpc.maxBodyVerbose
    (dispatch .decimal (SetOrder.ascending Txid) soloNode "getrawmempool" [.bool true]) :=
  delivers_whole (by decide +kernel)
    ((if_neg (by decide +kernel)).trans ((if_neg (by decide +kernel)).trans (if_pos rfl)))

theorem served_as_in_process_soloNode :
    Rpc.mempoolInfo .decimal soloParse (some (whole infoBody)) = .ok soloNode.mempoolInfo ∧
    Rpc.rawMempoolVerbose .decimal soloParse (SetOrder.ascending Txid) (some (whole dumpBody)) =
      .ok ((soloNode.snapshotEntries (SetOrder.ascending Txid)).map (fun e => (e.1, eraseTime e.2))) := by
  have hfee : BitcoinText.decimal.fromBtc (1 / 100000) = some soloNode.minFee := by decide +kernel
  exact ⟨(served_as_in_process .decimal soloParse soloNode soloNode_servable (SetOrder.ascending Txid)
      (SetOrder.ascending Txid) _).2.1 [] hfee infoBody_delivers,
    (served_as_in_process .decimal soloParse soloNode soloNode_servable (SetOrder.ascending Txid)
      (SetOrder.ascending Txid) _).2.2.2.1 dumpBody_delivers⟩

end Sim
end Satya
