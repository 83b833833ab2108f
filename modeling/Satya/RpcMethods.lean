import Satya.Mempool
import Satya.RpcCall
/-!
# RpcMethods — the typed calls (`rpc.rs`)

What each method reads of its reply.  The verbose dump is read into a hash map, so the client's own iteration order
decides the order of its entries.
-/
namespace Satya
namespace Rpc

open Json (asU64 asString asOption asList required optional readAll)

def maxBodyTxids : ℕ := 64 * 1024 * 1024

def maxBodyVerbose : ℕ := 512 * 1024 * 1024

/-- `getblockchaininfo`, the fields used. -/
structure BlockchainInfo where
  chain : Network
  blocks : ℕ

def asBool : Json → Option Bool
  | .bool b => some b
  | _ => none

variable (B : BitcoinText)

/-- `as_core_arg`. -/
def asChain (j : Json) : Option Network := (asString j).bind B.fromCoreArg

def chainOfFields (fields : List (String × Json)) : Option BlockchainInfo := do
  let chain ← required ["chain"] (asChain B) fields
  let blocks ← required ["blocks"] asU64 fields
  some { chain, blocks }

def decodeBlockchainInfo : Json → Option BlockchainInfo
  | .obj fields => chainOfFields B fields
  | .arr [chain, blocks] => do some { chain := ← asChain B chain, blocks := ← asU64 blocks }
  | _ => none

def infoOfFields (fields : List (String × Json)) : Option MempoolInfo := do
  let loaded ← optional ["loaded"] asBool fields
  let mempoolminfee ← required ["mempoolminfee"] (asBtc B) fields
  some { loaded, mempoolminfee }

def decodeMempoolInfo : Json → Option MempoolInfo
  | .obj fields => infoOfFields B fields
  | .arr [loaded, mempoolminfee] => do
    some { loaded := ← asOption asBool loaded, mempoolminfee := ← asBtc B mempoolminfee }
  | _ => none

def decodeMember (m : String × Json) : Option (Txid × MempoolEntry) := do
  let txid ← B.parseTxid m.1
  let entry ← decodeEntry B m.2
  some (txid, entry)

def readMembers : List (String × Json) → Option (List (Txid × MempoolEntry))
  | [] => some []
  | m :: fields => do
    let e ← decodeMember B m
    let rest ← readMembers fields
    some (e :: rest)

abbrev EntryTable := Finmap (fun _ : Txid => MempoolEntry)

/-- `HashMap<Txid, MempoolEntry>`: a later member replaces an earlier one of the same txid. -/
def decodeVerbose : Json → Option EntryTable
  | .obj fields => (readMembers B fields).map (insertAll ∅)
  | _ => none

/-- `map.into_iter().collect()`. -/
def tableRows (order : SetOrder Txid) (m : EntryTable) : List (Txid × MempoolEntry) :=
  (order.toList m.keys).filterMap (fun t => (m.lookup t).map (fun e => (t, e)))

/-! ## The methods -/

variable (parse : List UInt8 → Option Json)

def network (sent : Option HttpResponse) : Except RpcError Network :=
  (call parse (decodeBlockchainInfo B) sent maxBodyControl).map BlockchainInfo.chain

def tipHeight (sent : Option HttpResponse) : Except RpcError ℕ :=
  (call parse (decodeBlockchainInfo B) sent maxBodyControl).map BlockchainInfo.blocks

def mempoolInfo (sent : Option HttpResponse) : Except RpcError MempoolInfo :=
  call parse (decodeMempoolInfo B) sent maxBodyControl

def rawMempoolTxids (sent : Option HttpResponse) : Except RpcError (List Txid) :=
  call parse (asList (asTxid B)) sent maxBodyTxids

def rawMempoolVerbose (order : SetOrder Txid) (sent : Option HttpResponse) :
    Except RpcError (List (Txid × MempoolEntry)) :=
  (call parse (decodeVerbose B) sent maxBodyVerbose).map (tableRows order)

/-! ## What the readers read -/

variable {B parse}

theorem chainOfFields_of {fields : List (String × Json)} {name : String} {chain : Network} {blocks : ℕ}
    (hchain : Json.valuesOf ["chain"] fields = [.str name]) (hname : B.fromCoreArg name = some chain)
    (hblocks : Json.valuesOf ["blocks"] fields = [.int blocks]) (hlt : blocks < 2 ^ 64) :
    chainOfFields B fields = some ⟨chain, blocks⟩ := by
  have hread : asChain B (.str name) = some chain := hname
  rw [chainOfFields, Json.required_of_values hchain, Json.required_of_values hblocks, Json.asU64_int hlt, hread]
  rfl

theorem infoOfFields_of {fields : List (String × Json)} {loaded : Bool} {q : ℚ} {fee : ℕ}
    (hloaded : Json.valuesOf ["loaded"] fields = [.bool loaded])
    (hfee : Json.valuesOf ["mempoolminfee"] fields = [.dec q]) (hq : B.fromBtc q = some fee) :
    infoOfFields B fields = some ⟨some loaded, fee⟩ := by
  have hread : asBtc B (.dec q) = some fee := hq
  rw [infoOfFields, Json.optional_of_values hloaded, Json.required_of_values hfee, hread]
  rfl

/-- **A table of members is read back** when its keys and values are. -/
theorem readMembers_map {α : Type*} {key : α → String} {value : α → Json} {txid : α → Txid} {entry : α → MempoolEntry} :
    ∀ (l : List α), (∀ a ∈ l, B.parseTxid (key a) = some (txid a)) →
      (∀ a ∈ l, decodeEntry B (value a) = some (entry a)) →
      readMembers B (l.map (fun a => (key a, value a))) = some (l.map (fun a => (txid a, entry a)))
  | [], _, _ => rfl
  | a :: l, hk, hv => by
    have hrest := readMembers_map l (fun b hb => hk b (List.mem_cons_of_mem a hb))
      (fun b hb => hv b (List.mem_cons_of_mem a hb))
    rw [List.map_cons, readMembers, hrest, decodeMember, hk a List.mem_cons_self, hv a List.mem_cons_self]
    rfl

/-- **The order of the members decides only the order of what is read.** -/
theorem readMembers_perm {fields fields' : List (String × Json)} (h : fields.Perm fields')
    {entries' : List (Txid × MempoolEntry)} (hread : readMembers B fields' = some entries') :
    ∃ entries, readMembers B fields = some entries ∧ entries.Perm entries' := by
  induction h generalizing entries' with
  | nil => exact ⟨entries', hread, List.Perm.refl _⟩
  | cons m _ ih =>
    simp only [readMembers, Option.bind_eq_bind, Option.bind_eq_some_iff, Option.some.injEq] at hread ⊢
    obtain ⟨e, he, rest', hrest', rfl⟩ := hread
    obtain ⟨rest, hrest, hperm⟩ := ih hrest'
    exact ⟨e :: rest, ⟨e, he, rest, hrest, rfl⟩, hperm.cons e⟩
  | swap a b l =>
    simp only [readMembers, Option.bind_eq_bind, Option.bind_eq_some_iff, Option.some.injEq] at hread ⊢
    obtain ⟨ea, hea, _, ⟨eb, heb, rest, hrest, rfl⟩, rfl⟩ := hread
    exact ⟨eb :: ea :: rest, ⟨eb, heb, _, ⟨ea, hea, rest, hrest, rfl⟩, rfl⟩, List.Perm.swap _ _ _⟩
  | trans _ _ ih ih' =>
    obtain ⟨middle, hmiddle, hperm'⟩ := ih' hread
    obtain ⟨entries, hentries, hperm⟩ := ih hmiddle
    exact ⟨entries, hentries, hperm.trans hperm'⟩

theorem mem_tableRows {order : SetOrder Txid} {m : EntryTable} {t : Txid} {e : MempoolEntry} :
    (t, e) ∈ tableRows order m ↔ m.lookup t = some e := by
  constructor
  · intro h
    obtain ⟨t', -, ht⟩ := List.mem_filterMap.1 h
    obtain ⟨e', he', heq⟩ := Option.map_eq_some_iff.1 ht
    rw [Prod.mk.injEq] at heq
    obtain ⟨rfl, rfl⟩ := heq
    exact he'
  · intro h
    refine List.mem_filterMap.2 ⟨t, ?_, by rw [h]; rfl⟩
    rw [order.mem_iff, Finmap.mem_keys]
    exact Finmap.mem_of_lookup_eq_some h

/-- The rows list each key once, in the iteration order. -/
theorem map_fst_tableRows (order : SetOrder Txid) (m : EntryTable) :
    (tableRows order m).map Prod.fst = order.toList m.keys := by
  have hall : ∀ l : List Txid, (∀ t ∈ l, t ∈ m.keys) →
      (l.filterMap (fun t => (m.lookup t).map (fun e => (t, e)))).map Prod.fst = l := by
    intro l
    induction l with
    | nil => exact fun _ => rfl
    | cons t l ih =>
      intro h
      obtain ⟨e, he⟩ := Finmap.mem_iff.1 (Finmap.mem_keys.1 (h t List.mem_cons_self))
      rw [List.filterMap_cons_some (by rw [he]; rfl), List.map_cons, ih (fun s hs => h s (List.mem_cons_of_mem t hs))]
  exact hall _ (fun t ht => (order.mem_iff _ t).1 ht)

theorem length_tableRows (order : SetOrder Txid) (m : EntryTable) : (tableRows order m).length = m.keys.card := by
  rw [← List.length_map Prod.fst, map_fst_tableRows, order.length_toList]

end Rpc
end Satya
