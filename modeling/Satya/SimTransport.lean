import Satya.SimDispatch
import Satya.SyncHonesty
import Satya.SyncTwin
/-!
# SimTransport — the sync loop over HTTP and in process

One call of the loop answered both ways: a call fails alike, or the node answers it in process and the client reads the
same node's document.  Nothing but the time of an entry is lost on the way, and the loop does not read it, so the two
runs are twins (`http_run_agrees`).
-/
namespace Satya
namespace Sim

open Rpc (HttpResponse asciiBytes)
open Sync (TickEnv BulkEnv LoadEnv StartupEnv SyncConfig TwinTick TwinBulk TwinLoad TwinStartup)

variable (B : BitcoinText) (parse : List UInt8 → Option Json)

/-- What the node's code fixes of a node that serves. -/
structure Serving (node : MockNode) : Prop extends Servable node where
  minFee : node.minFee = 1000

/-- Both answers are the same failure, or come from one serving node: `answer` in process, `read` of what it delivers. -/
inductive BothWays {α : Type} (maxBody : ℕ) (method : String) (params : List Json) (answer : MockNode → Except RpcError α)
    (read : HttpResponse → Except RpcError α) : Except RpcError α → Except RpcError α → Prop
  | failed (e : RpcError) : BothWays maxBody method params answer read (.error e) (.error e)
  | served (node : MockNode) (order : SetOrder Txid) (resp : HttpResponse) : Serving node →
      Delivers parse resp maxBody (dispatch B order node method params) →
      BothWays maxBody method params answer read (answer node) (read resp)

abbrev InfoBothWays : Except RpcError MempoolInfo → Except RpcError MempoolInfo → Prop :=
  BothWays B parse Rpc.maxBodyControl "getmempoolinfo" [] (fun node => .ok node.mempoolInfo)
    (fun resp => Rpc.mempoolInfo B parse (some resp))

abbrev TipBothWays : Except RpcError ℕ → Except RpcError ℕ → Prop :=
  BothWays B parse Rpc.maxBodyControl "getblockchaininfo" [] (fun node => .ok node.tipHeight)
    (fun resp => Rpc.tipHeight B parse (some resp))

/-- Each side reads its own map in an order of its own. -/
def TxidsBothWays (r r' : Except RpcError (List Txid)) : Prop :=
  ∃ order, BothWays B parse Rpc.maxBodyTxids "getrawmempool" [.bool false] (fun node => .ok (node.rawMempoolTxids order))
    (fun resp => Rpc.rawMempoolTxids B parse (some resp)) r r'

def VerboseBothWays (r r' : Except RpcError (List (Txid × MempoolEntry))) : Prop :=
  ∃ order order', BothWays B parse Rpc.maxBodyVerbose "getrawmempool" [.bool true]
    (fun node => .ok (node.snapshotEntries order)) (fun resp => Rpc.rawMempoolVerbose B parse order' (some resp)) r r'

abbrev EntryBothWays (t : Txid) : Except RpcError (Option MempoolEntry) → Except RpcError (Option MempoolEntry) → Prop :=
  BothWays B parse Rpc.maxBodyControl "getmempoolentry" [.str (B.displayTxid t)] (fun node => .ok (node.entryByTxid t))
    (fun resp => Rpc.mempoolEntry B parse (some resp))

/-! ## Environments -/

structure BulkBothWays (env env' : BulkEnv) : Prop where
  verbose : VerboseBothWays B parse env.verbose env'.verbose
  info : InfoBothWays B parse env.info env'.info
  tip : TipBothWays B parse env.tip env'.tip

/-- `env` in process and `env'` over HTTP; what is not the node's is the same. -/
structure TickBothWays (env env' : TickEnv) : Prop where
  info : InfoBothWays B parse env.info env'.info
  txids : TxidsBothWays B parse env.txids env'.txids
  bulk : BulkBothWays B parse env.bulk env'.bulk
  entry : ∀ t, EntryBothWays B parse t (env.entry t) (env'.entry t)
  tip : TipBothWays B parse env.tip env'.tip
  rest : env' = { env with
    info := env'.info, txids := env'.txids, bulk := env'.bulk, entry := env'.entry, tip := env'.tip }

structure LoadBothWays (env env' : LoadEnv) : Prop where
  bulk : BulkBothWays B parse env.bulk env'.bulk
  rest : env' = { env with bulk := env'.bulk }

structure StartupBothWays (env env' : StartupEnv) : Prop where
  infos : List.Forall₂ (InfoBothWays B parse) env.infos env'.infos
  loads : List.Forall₂ (LoadBothWays B parse) env.loads env'.loads
  rest : env' = { env with infos := env'.infos, loads := env'.loads }

/-! ## Each call -/

variable {B parse} (hfee : B.fromBtc (1 / 100000) = some 1000)

theorem TipBothWays.eq {r r' : Except RpcError ℕ} (h : TipBothWays B parse r r') : r = r' := by
  cases h with
  | failed e => rfl
  | served node order resp hs hd =>
    exact (((served_as_in_process B parse node hs.toServable order order resp).1 [] hd).1).symm

include hfee in
theorem InfoBothWays.eq {r r' : Except RpcError MempoolInfo} (h : InfoBothWays B parse r r') : r = r' := by
  cases h with
  | failed e => rfl
  | served node order resp hs hd =>
    exact ((served_as_in_process B parse node hs.toServable order order resp).2.1 [] (by rw [hs.minFee]; exact hfee)
      hd).symm

theorem TxidsBothWays.same {r r' : Except RpcError (List Txid)} (h : TxidsBothWays B parse r r') :
    r.map List.toFinset = r'.map List.toFinset := by
  obtain ⟨order, h⟩ := h
  cases h with
  | failed e => rfl
  | served node order' resp hs hd =>
    rw [(served_as_in_process B parse node hs.toServable order' order' resp).2.2.1 hd]
    show Except.ok _ = Except.ok _
    congr 1
    ext t
    simp only [MockNode.rawMempoolTxids, List.mem_toFinset, SetOrder.mem_iff]

theorem EntryBothWays.same {t : Txid} {r r' : Except RpcError (Option MempoolEntry)} (h : EntryBothWays B parse t r r') :
    Sync.seenless r = Sync.seenless r' := by
  cases h with
  | failed e => rfl
  | served node order resp hs hd =>
    rw [(served_as_in_process B parse node hs.toServable order order resp).2.2.2.2 t hd]
    cases node.entryByTxid t <;> rfl

/-- What a dump of a table loads. -/
theorem lookup_collectDump_rows {rows : List (Txid × MempoolEntry)} {txs : EntryMap} {f : MempoolEntry → MempoolEntry}
    {order : SetOrder Txid} (hrows : rows = (Rpc.tableRows order txs).map (fun e => (e.1, f e.2))) (t : Txid) :
    (collectDump rows).lookup t = (txs.lookup t).map (fun e => MempoolTx.ofEntry (f e)) := by
  have hkeys : (collectDump rows).keys = txs.keys := by
    ext a
    rw [keys_collectDump, hrows, List.map_map]
    show a ∈ ((Rpc.tableRows order txs).map Prod.fst).toFinset ↔ _
    rw [Rpc.map_fst_tableRows, List.mem_toFinset, order.mem_iff]
  cases ht : txs.lookup t with
  | none =>
    refine Finmap.lookup_eq_none.2 (fun hmem => ?_)
    rw [← Finmap.mem_keys, hkeys, Finmap.mem_keys] at hmem
    exact Finmap.lookup_eq_none.1 ht hmem
  | some e =>
    have hmem : t ∈ collectDump rows := by
      rw [← Finmap.mem_keys, hkeys, Finmap.mem_keys]
      exact Finmap.mem_of_lookup_eq_some ht
    obtain ⟨tx, htx⟩ := Finmap.mem_iff.1 hmem
    obtain ⟨e', he', rfl⟩ := lookup_collectDump htx
    rw [hrows] at he'
    obtain ⟨⟨a, e₀⟩, ha, heq⟩ := List.mem_map.1 he'
    rw [Prod.mk.injEq] at heq
    obtain ⟨rfl, rfl⟩ := heq
    rw [Rpc.mem_tableRows.1 ha, Option.some.injEq] at ht
    rw [htx, ht]
    rfl

theorem VerboseBothWays.same {r r' : Except RpcError (List (Txid × MempoolEntry))} (h : VerboseBothWays B parse r r') :
    Sync.SameDump r r' := by
  obtain ⟨order, order', h⟩ := h
  cases h with
  | failed e => exact .failed e
  | served node orderS resp hs hd =>
    rw [(served_as_in_process B parse node hs.toServable orderS order' resp).2.2.2.1 hd]
    refine .dumped _ _ ?_ (fun t => ?_)
    · rw [List.length_map, MockNode.snapshotEntries, MockNode.snapshotEntries, Rpc.length_tableRows, Rpc.length_tableRows]
    · have hleft : node.snapshotEntries order = (Rpc.tableRows order node.txs).map (fun e => (e.1, id e.2)) :=
        (List.map_id _).symm
      have hright : (node.snapshotEntries order').map (fun e => (e.1, eraseTime e.2)) =
          (Rpc.tableRows order' node.txs).map (fun e => (e.1, eraseTime e.2)) := rfl
      rw [lookup_collectDump_rows hleft, lookup_collectDump_rows hright]
      cases node.txs.lookup t <;> rfl

/-! ## Runs -/

section Runs

include hfee

theorem BulkBothWays.twin {env env' : BulkEnv} (h : BulkBothWays B parse env env') : TwinBulk env env' :=
  ⟨h.verbose.same, InfoBothWays.eq hfee h.info, h.tip.eq⟩

theorem TickBothWays.twin {env env' : TickEnv} (h : TickBothWays B parse env env') : TwinTick env env' := by
  have hinfo := InfoBothWays.eq hfee h.info
  have htip := h.tip.eq
  refine ⟨h.txids.same, fun t => (h.entry t).same, h.bulk.twin hfee, ?_⟩
  rw [hinfo, htip]
  exact h.rest

theorem LoadBothWays.twin {env env' : LoadEnv} (h : LoadBothWays B parse env env') : TwinLoad env env' :=
  ⟨h.bulk.twin hfee, h.rest⟩

theorem StartupBothWays.twin {env env' : StartupEnv} (h : StartupBothWays B parse env env') : TwinStartup env env' := by
  have hinfos : env.infos = env'.infos := by
    rw [← List.forall₂_eq_eq_eq]
    exact h.infos.imp (fun _ _ hr => InfoBothWays.eq hfee hr)
  refine ⟨h.loads.imp (fun _ _ hl => LoadBothWays.twin hfee hl), ?_⟩
  rw [hinfos]
  exact h.rest

/-- **The sync loop cannot tell the simulated HTTP node from the node in process**: in any two runs whose calls are
answered both ways by serving nodes, whatever fails, in whatever order the maps are read and however the transport cuts
the bodies, the two endpoints answer the same after every step. -/
theorem http_run_agrees (cfg : SyncConfig) (network : Network) (env env' : StartupEnv) (ticks ticks' : List TickEnv)
    (henv : StartupBothWays B parse env env') (hticks : List.Forall₂ (TickBothWays B parse) ticks ticks') (now : ℤ)
    (k : ℕ) :
    (Sync.run cfg network env ticks).log.length = (Sync.run cfg network env' ticks').log.length ∧
    Http.health now (History.stateAt (MempoolState.new network) ((Sync.run cfg network env ticks).log.drop k)) =
      Http.health now (History.stateAt (MempoolState.new network) ((Sync.run cfg network env' ticks').log.drop k)) ∧
    Http.fees (History.stateAt (MempoolState.new network) ((Sync.run cfg network env ticks).log.drop k)) =
      Http.fees (History.stateAt (MempoolState.new network) ((Sync.run cfg network env' ticks').log.drop k)) := by
  have htwin := Sync.run_twin cfg network (henv.twin hfee)
    (hticks.imp (fun _ _ ht => TickBothWays.twin hfee ht))
  exact ⟨htwin.log.length_eq, htwin.readers network now k⟩

end Runs

/-! ## One transaction arrives -/

/-- The node before its transaction. -/
def bareNode : MockNode := MockNode.empty soloCfg

theorem bareNode_serving : Serving bareNode where
  tip := by decide
  entries t e h := by
    rw [show bareNode.txs = (∅ : EntryMap) from rfl, Finmap.lookup_empty] at h
    cases h
  minFee := rfl

theorem soloNode_serving : Serving soloNode := ⟨soloNode_servable, rfl⟩

@[irreducible] def bareBody : List UInt8 := asciiBytes "\x7b\"error\":null,\"id\":0,\"result\":\x7b\x7d\x7d"

@[irreducible] def listBody : List UInt8 :=
  asciiBytes "\x7b\"error\":null,\"id\":0,\"result\":[\"0700000000000000000000000000000000000000000000000000000000000000\"]\x7d"

@[irreducible] def entryBody : List UInt8 :=
  asciiBytes "\x7b\"error\":null,\"id\":0,\"result\":\x7b\"ancestorsize\":200,\"depends\":[],\"descendantsize\":200,\"fees\":\x7b\"ancestor\":1e-5,\"base\":1e-5,\"descendant\":1e-5\x7d,\"vsize\":200,\"weight\":800\x7d\x7d"

/-- The parser on these texts too. -/
def tickParse (bytes : List UInt8) : Option Json :=
  (soloParse bytes).or
    (if bytes = bareBody then some (dispatch .decimal (SetOrder.ascending Txid) bareNode "getrawmempool" [.bool true])
    else if bytes = listBody then some (dispatch .decimal (SetOrder.ascending Txid) soloNode "getrawmempool" [.bool false])
    else if bytes = entryBody then some (dispatch .decimal (SetOrder.ascending Txid) soloNode "getmempoolentry"
      [.str (BitcoinText.decimal.displayTxid 7)])
    else none)

theorem tickParse_of_solo {bytes : List UInt8} {doc : Json} (h : soloParse bytes = some doc) : tickParse bytes = some doc := by
  rw [tickParse, h, Option.some_or]

theorem Delivers.tick {resp : HttpResponse} {maxBody : ℕ} {doc : Json} (h : Delivers soloParse resp maxBody doc) :
    Delivers tickParse resp maxBody doc := by
  obtain ⟨bytes, hbody, hparse⟩ := h.body
  exact ⟨h.status, bytes, hbody, tickParse_of_solo hparse⟩

theorem soloParse_none {bytes : List UInt8} (hinfo : bytes ≠ infoBody) (htip : bytes ≠ tipBody) (hdump : bytes ≠ dumpBody) :
    soloParse bytes = none := (if_neg hinfo).trans ((if_neg htip).trans (if_neg hdump))

theorem bareBody_delivers : Delivers tickParse (whole bareBody) Rpc.maxBodyVerbose
    (dispatch .decimal (SetOrder.ascending Txid) bareNode "getrawmempool" [.bool true]) := by
  refine delivers_whole (by decide +kernel) ?_
  rw [tickParse, soloParse_none (by decide +kernel) (by decide +kernel) (by decide +kernel), Option.none_or]
  exact if_pos rfl

theorem listBody_delivers : Delivers tickParse (whole listBody) Rpc.maxBodyTxids
    (dispatch .decimal (SetOrder.ascending Txid) soloNode "getrawmempool" [.bool false]) := by
  refine delivers_whole (by decide +kernel) ?_
  rw [tickParse, soloParse_none (by decide +kernel) (by decide +kernel) (by decide +kernel), Option.none_or]
  exact (if_neg (by decide +kernel)).trans (if_pos rfl)

theorem entryBody_delivers : Delivers tickParse (whole entryBody) Rpc.maxBodyControl (dispatch .decimal
    (SetOrder.ascending Txid) soloNode "getmempoolentry" [.str (BitcoinText.decimal.displayTxid 7)]) := by
  refine delivers_whole (by decide +kernel) ?_
  rw [tickParse, soloParse_none (by decide +kernel) (by decide +kernel) (by decide +kernel), Option.none_or]
  exact (if_neg (by decide +kernel)).trans ((if_neg (by decide +kernel)).trans (if_pos rfl))

/-- A startup against the bare node. -/
def soloStartup (info : Except RpcError MempoolInfo) (verbose : Except RpcError (List (Txid × MempoolEntry)))
    (tip : Except RpcError ℕ) : StartupEnv :=
  { Sync.idleStartup with infos := [info], loads := [⟨⟨verbose, info, tip⟩, 0, 0⟩] }

/-- A tick that is answered for one txid, and has no dump. -/
def soloTick (info : Except RpcError MempoolInfo) (txids : Except RpcError (List Txid))
    (entry : Except RpcError (Option MempoolEntry)) (tip : Except RpcError ℕ) : TickEnv :=
  { Sync.idleEnv with
    info := info
    txids := txids
    bulk := ⟨.error .http, .error .http, .error .http⟩
    entry := fun t => if t = 7 then entry else .error .http
    tip := tip }

/-- The run in process: the transaction arrives after the startup. -/
def soloRun : Sync.Task :=
  Sync.run Sync.idleConfig .bitcoin
    (soloStartup (.ok bareNode.mempoolInfo) (.ok (bareNode.snapshotEntries (SetOrder.ascending Txid)))
      (.ok bareNode.tipHeight))
    [soloTick (.ok soloNode.mempoolInfo) (.ok (soloNode.rawMempoolTxids (SetOrder.ascending Txid)))
      (.ok (soloNode.entryByTxid 7)) (.ok soloNode.tipHeight)]

/-- The same run over HTTP. -/
def soloHttpRun : Sync.Task :=
  Sync.run Sync.idleConfig .bitcoin
    (soloStartup (Rpc.mempoolInfo .decimal tickParse (some (whole infoBody)))
      (Rpc.rawMempoolVerbose .decimal tickParse (SetOrder.ascending Txid) (some (whole bareBody)))
      (Rpc.tipHeight .decimal tickParse (some (whole tipBody))))
    [soloTick (Rpc.mempoolInfo .decimal tickParse (some (whole infoBody)))
      (Rpc.rawMempoolTxids .decimal tickParse (some (whole listBody)))
      (Rpc.mempoolEntry .decimal tickParse (some (whole entryBody)))
      (Rpc.tipHeight .decimal tickParse (some (whole tipBody)))]

theorem http_run_agrees_solo : soloRun.log.length = soloHttpRun.log.length ∧
    Http.health 0 (History.stateAt (MempoolState.new .bitcoin) (soloRun.log.drop 0)) =
      Http.health 0 (History.stateAt (MempoolState.new .bitcoin) (soloHttpRun.log.drop 0)) ∧
    Http.fees (History.stateAt (MempoolState.new .bitcoin) (soloRun.log.drop 0)) =
      Http.fees (History.stateAt (MempoolState.new .bitcoin) (soloHttpRun.log.drop 0)) := by
  have hinfo : ∀ node, Serving node → Delivers tickParse (whole infoBody) Rpc.maxBodyControl
      (dispatch .decimal (SetOrder.ascending Txid) node "getmempoolinfo" []) →
      InfoBothWays .decimal tickParse (.ok node.mempoolInfo)
        (Rpc.mempoolInfo .decimal tickParse (some (whole infoBody))) :=
    fun node hs hd => .served node (SetOrder.ascending Txid) (whole infoBody) hs hd
  have htip : ∀ node, Serving node → Delivers tickParse (whole tipBody) Rpc.maxBodyControl
      (dispatch .decimal (SetOrder.ascending Txid) node "getblockchaininfo" []) →
      TipBothWays .decimal tickParse (.ok node.tipHeight) (Rpc.tipHeight .decimal tickParse (some (whole tipBody))) :=
    fun node hs hd => .served node (SetOrder.ascending Txid) (whole tipBody) hs hd
  have hinfos := infoBody_delivers.tick
  have htips := tipBody_delivers.tick
  have hbulk : BulkBothWays .decimal tickParse
      ⟨.ok (bareNode.snapshotEntries (SetOrder.ascending Txid)), .ok bareNode.mempoolInfo, .ok bareNode.tipHeight⟩
      ⟨Rpc.rawMempoolVerbose .decimal tickParse (SetOrder.ascending Txid) (some (whole bareBody)),
        Rpc.mempoolInfo .decimal tickParse (some (whole infoBody)),
        Rpc.tipHeight .decimal tickParse (some (whole tipBody))⟩ :=
    ⟨⟨SetOrder.ascending Txid, SetOrder.ascending Txid,
      .served bareNode (SetOrder.ascending Txid) (whole bareBody) bareNode_serving bareBody_delivers⟩,
      hinfo bareNode bareNode_serving hinfos, htip bareNode bareNode_serving htips⟩
  have hnone : BulkBothWays .decimal tickParse ⟨.error .http, .error .http, .error .http⟩
      ⟨.error .http, .error .http, .error .http⟩ :=
    ⟨⟨SetOrder.ascending Txid, SetOrder.ascending Txid, .failed .http⟩, .failed .http, .failed .http⟩
  have hentry : ∀ t, EntryBothWays .decimal tickParse t
      (if t = 7 then .ok (soloNode.entryByTxid 7) else .error .http)
      (if t = 7 then Rpc.mempoolEntry .decimal tickParse (some (whole entryBody)) else .error .http) := by
    intro t
    by_cases ht : t = 7
    · rw [if_pos ht, if_pos ht, ht]
      exact .served soloNode (SetOrder.ascending Txid) (whole entryBody) soloNode_serving entryBody_delivers
    · rw [if_neg ht, if_neg ht]
      exact .failed .http
  have htick : TickBothWays .decimal tickParse (soloTick (.ok soloNode.mempoolInfo)
      (.ok (soloNode.rawMempoolTxids (SetOrder.ascending Txid))) (.ok (soloNode.entryByTxid 7)) (.ok soloNode.tipHeight))
      (soloTick (Rpc.mempoolInfo .decimal tickParse (some (whole infoBody)))
        (Rpc.rawMempoolTxids .decimal tickParse (some (whole listBody)))
        (Rpc.mempoolEntry .decimal tickParse (some (whole entryBody)))
        (Rpc.tipHeight .decimal tickParse (some (whole tipBody)))) :=
    ⟨hinfo soloNode soloNode_serving hinfos, ⟨SetOrder.ascending Txid,
      .served soloNode (SetOrder.ascending Txid) (whole listBody) soloNode_serving listBody_delivers⟩, hnone, hentry,
      htip soloNode soloNode_serving htips, rfl⟩
  have hfee : BitcoinText.decimal.fromBtc (1 / 100000) = some 1000 := by decide +kernel
  exact http_run_agrees hfee Sync.idleConfig .bitcoin _ _ _ _
    ⟨.cons (hinfo bareNode bareNode_serving hinfos) .nil, .cons ⟨hbulk, rfl⟩ .nil, rfl⟩ (.cons htick .nil) 0 0

end Sim
end Satya
