import Satya.FixedWindow
import Satya.SimDispatch
import Satya.SyncHonesty
/-!
# SimNetwork — the simulated network (`sim/network.rs`, the gate of `sim/server.rs`)

Before a call reaches the node it may be dropped, and it is counted against one budget per second that all concurrent
calls share.  The latency only moves the times of later calls and is left out; `random` is what the generator yields.
-/
namespace Satya
namespace Sim

open Rpc (HttpResponse)

structure NetworkProfile where
  reqPerSec : Option ℕ
  bodyCap : Option ℕ
  dropRate : ℚ

/-- Nanoseconds of the monotonic clock. -/
def second : ℕ := 10 ^ 9

abbrev Limiter := FixedWindow

def Limiter.new (now : ℕ) : Limiter := ⟨now, 0⟩

def checkRateLimit (limiter : Limiter) (limit now : ℕ) : Bool × Limiter := limiter.pass second limit now

def usizeMax : ℕ := 2 ^ 64 - 1

/-! ## In process -/

/-- A call as it comes to the gate. -/
structure Arrival where
  now : ℕ
  random : ℚ

def dropped (profile : NetworkProfile) (c : Arrival) : Prop := 0 < profile.dropRate ∧ c.random < profile.dropRate

instance (profile : NetworkProfile) (c : Arrival) : Decidable (dropped profile c) := inferInstanceAs (Decidable (_ ∧ _))

def gate (profile : NetworkProfile) (c : Arrival) (limiter : Limiter) : Except RpcError Unit × Limiter :=
  if dropped profile c then (.error (.httpStatus 503 "simulated transport drop"), limiter)
  else match profile.reqPerSec with
    | some limit =>
      let r := checkRateLimit limiter limit c.now
      (if r.1 then .ok () else .error (.httpStatus 429 ""), r.2)
    | none => (.ok (), limiter)

/-- A method of `SimulatedRpc` with the inner node's answer. -/
def simulated {α : Type} (profile : NetworkProfile) (c : Arrival) (answer : Except RpcError α) (limiter : Limiter) :
    Except RpcError α × Limiter :=
  let r := gate profile c limiter
  (match r.1 with
    | .ok () => answer
    | .error e => .error e, r.2)

/-- The verbose dump, with about 180 bytes an entry held against the cap. -/
def simulatedVerbose (profile : NetworkProfile) (c : Arrival) (answer : Except RpcError (List (Txid × MempoolEntry)))
    (limiter : Limiter) : Except RpcError (List (Txid × MempoolEntry)) × Limiter :=
  simulated profile c (do
    let entries ← answer
    match profile.bodyCap with
    | some cap => if cap < min (entries.length * 180) usizeMax then .error (.bodyTooLarge cap) else .ok entries
    | none => .ok entries) limiter

def limiterAfter (profile : NetworkProfile) (limiter : Limiter) (calls : List Arrival) : Limiter :=
  calls.foldl (fun l c => (gate profile c l).2) limiter

def passes : Except RpcError Unit → Bool
  | .ok _ => true
  | .error _ => false

/-- When the calls came that pass the gate. -/
def passedTimes (profile : NetworkProfile) : Limiter → List Arrival → List ℕ
  | _, [] => []
  | limiter, c :: calls =>
    let r := gate profile c limiter
    if passes r.1 then c.now :: passedTimes profile r.2 calls else passedTimes profile r.2 calls

/-! ## Over HTTP -/

/-- What the server sends: a status, and the document in the body, `none` for an empty one. -/
structure Answer where
  status : ℕ
  doc : Option Json

variable (B : BitcoinText)

structure Request where
  method : String
  params : List Json
  now : ℕ
  node : MockNode
  order : SetOrder Txid

def handleRpc (profile : NetworkProfile) (req : Request) (limiter : Limiter) : Answer × Limiter :=
  match profile.reqPerSec with
  | some limit =>
    let r := checkRateLimit limiter limit req.now
    (if r.1 then ⟨200, some (dispatch B req.order req.node req.method req.params)⟩ else ⟨429, none⟩, r.2)
  | none => (⟨200, some (dispatch B req.order req.node req.method req.params)⟩, limiter)

def serverAfter (profile : NetworkProfile) (limiter : Limiter) (reqs : List Request) : Limiter :=
  reqs.foldl (fun l req => (handleRpc B profile req l).2) limiter

/-- What is sent to a request that comes after others. -/
def sent (profile : NetworkProfile) (limiter : Limiter) (before : List Request) (req : Request) : Answer :=
  (handleRpc B profile req (serverAfter B profile limiter before)).1

/-- The response is the answer: its status, and its document's text or nothing. -/
structure Carries (parse : List UInt8 → Option Json) (resp : HttpResponse) (maxBody : ℕ) (a : Answer) : Prop where
  status : resp.status = a.status
  body : ∃ bytes, resp.Within maxBody bytes ∧ match a.doc with
    | some doc => parse bytes = some doc
    | none => bytes = []

/-! ## The gate over a run -/

variable {B} {profile : NetworkProfile} {limit : ℕ}

theorem gate_of_dropped {c : Arrival} (h : dropped profile c) (limiter : Limiter) :
    gate profile c limiter = (.error (.httpStatus 503 "simulated transport drop"), limiter) := if_pos h

theorem gate_of_kept {c : Arrival} (h : ¬ dropped profile c) (hlimit : profile.reqPerSec = some limit) (limiter : Limiter) :
    gate profile c limiter = (if (checkRateLimit limiter limit c.now).1 then .ok () else .error (.httpStatus 429 ""),
      (checkRateLimit limiter limit c.now).2) := by
  rw [gate, if_neg h, hlimit]

/-- The times of the calls that are not dropped. -/
def keptTimes (profile : NetworkProfile) (calls : List Arrival) : List ℕ :=
  (calls.filter (fun c => decide (¬ dropped profile c))).map Arrival.now

theorem keptTimes_cons_of_dropped {c : Arrival} (h : dropped profile c) (calls : List Arrival) :
    keptTimes profile (c :: calls) = keptTimes profile calls := by
  rw [keptTimes, List.filter_cons_of_neg (by simpa using h), ← keptTimes]

theorem keptTimes_cons_of_kept {c : Arrival} (h : ¬ dropped profile c) (calls : List Arrival) :
    keptTimes profile (c :: calls) = c.now :: keptTimes profile calls := by
  rw [keptTimes, List.filter_cons_of_pos (by simpa using h), List.map_cons, ← keptTimes]

/-- **The gate passes what a fixed window admits of the calls that are not dropped.** -/
theorem passedTimes_eq (hlimit : profile.reqPerSec = some limit) : ∀ (calls : List Arrival) (limiter : Limiter),
    passedTimes profile limiter calls = limiter.admitted second limit (keptTimes profile calls)
  | [], _ => rfl
  | c :: calls, limiter => by
    have hrest := passedTimes_eq hlimit calls (gate profile c limiter).2
    have hcons : passedTimes profile limiter (c :: calls) = if passes (gate profile c limiter).1 then
        c.now :: passedTimes profile (gate profile c limiter).2 calls else
        passedTimes profile (gate profile c limiter).2 calls := rfl
    rw [hcons, hrest]
    by_cases hdrop : dropped profile c
    · rw [gate_of_dropped hdrop, keptTimes_cons_of_dropped hdrop]
      rfl
    · rw [gate_of_kept hdrop hlimit, keptTimes_cons_of_kept hdrop, FixedWindow.admitted, checkRateLimit]
      cases (FixedWindow.pass second limit limiter c.now).1 <;> rfl

theorem limiterAfter_eq (hlimit : profile.reqPerSec = some limit) : ∀ (calls : List Arrival) (limiter : Limiter),
    limiterAfter profile limiter calls = limiter.after second limit (keptTimes profile calls)
  | [], _ => rfl
  | c :: calls, limiter => by
    have hrest := limiterAfter_eq hlimit calls (gate profile c limiter).2
    show limiterAfter profile (gate profile c limiter).2 calls = _
    rw [hrest]
    by_cases hdrop : dropped profile c
    · rw [gate_of_dropped hdrop, keptTimes_cons_of_dropped hdrop]
    · rw [gate_of_kept hdrop hlimit, keptTimes_cons_of_kept hdrop]
      rfl

theorem keptTimes_sublist (profile : NetworkProfile) (calls : List Arrival) :
    (keptTimes profile calls).Sublist (calls.map Arrival.now) :=
  (List.filter_sublist (p := fun c => decide (¬ dropped profile c)) (l := calls)).map Arrival.now

/-- **The budget holds over any time**: whatever is dropped, in any `k` seconds at most `k + 1` budgets pass the gate, and a
call is answered 429 only when the budget passed within the second before it. -/
theorem budget_holds (profile : NetworkProfile) (limit created : ℕ) (hlimit : profile.reqPerSec = some limit)
    (calls : List Arrival) (hclock : (created :: calls.map Arrival.now).Pairwise (· ≤ ·)) :
    (∀ a k, ((passedTimes profile (Limiter.new created) calls).filter
      (fun t => decide (a ≤ t ∧ t < a + k * second))).length ≤ (k + 1) * limit) ∧
    ∀ before c later, calls = before ++ c :: later →
      (gate profile c (limiterAfter profile (Limiter.new created) before)).1 = .error (.httpStatus 429 "") →
        limit ≤ ((passedTimes profile (Limiter.new created) before).filter
          (fun t => decide (c.now < t + second))).length := by
  constructor
  · intro a k
    rw [passedTimes_eq hlimit]
    exact FixedWindow.length_admitted_le (by decide) a k _ _ (hclock.of_cons.sublist (keptTimes_sublist profile calls))
  · rintro before c later rfl hrefused
    by_cases hdrop : dropped profile c
    · rw [gate_of_dropped hdrop] at hrefused
      simp at hrefused
    · rw [gate_of_kept hdrop hlimit, limiterAfter_eq hlimit, checkRateLimit] at hrefused
      rw [passedTimes_eq hlimit]
      refine FixedWindow.full_of_refused rfl (hclock.sublist ?_) ?_
      · have hkept := keptTimes_sublist profile before
        rw [List.map_append, List.map_cons]
        exact (hkept.append ((List.nil_sublist _).cons_cons c.now)).cons_cons created
      · cases hpass : (FixedWindow.pass second limit (FixedWindow.after second limit (Limiter.new created)
            (keptTimes profile before)) c.now).1 with
        | false => rfl
        | true => rw [hpass] at hrefused; cases hrefused

def twoPerSecond : NetworkProfile := ⟨some 2, none, 0⟩

/-- The third call within a second is refused, the two before it having passed. -/
theorem budget_holds_third : 2 ≤ ((passedTimes twoPerSecond (Limiter.new 5) [⟨5, 0⟩, ⟨6, 0⟩]).filter
    (fun t => decide (7 < t + second))).length :=
  (budget_holds twoPerSecond 2 5 rfl [⟨5, 0⟩, ⟨6, 0⟩, ⟨7, 0⟩] (by decide)).2 [⟨5, 0⟩, ⟨6, 0⟩] ⟨7, 0⟩ [] rfl (by rfl)

/-! ## The server's gate -/

def Request.arrival (req : Request) : Arrival := ⟨req.now, 0⟩

/-- The window of `SimulatedRpc` after the same calls. -/
def windowAfter (profile : NetworkProfile) (limiter : Limiter) (reqs : List Request) : Limiter :=
  limiterAfter profile limiter (reqs.map Request.arrival)

theorem not_dropped (hdrop : profile.dropRate = 0) (c : Arrival) : ¬ dropped profile c :=
  fun h => absurd h.1 (by rw [hdrop]; exact lt_irrefl 0)

/-- **The server's gate is the one of `SimulatedRpc`**: the same calls pass, and the same window is left. -/
theorem handleRpc_eq (hdrop : profile.dropRate = 0) (req : Request) (limiter : Limiter) :
    handleRpc B profile req limiter =
      (if passes (gate profile req.arrival limiter).1 then
        ⟨200, some (dispatch B req.order req.node req.method req.params)⟩ else ⟨429, none⟩,
       (gate profile req.arrival limiter).2) := by
  rw [handleRpc, gate, if_neg (not_dropped hdrop req.arrival)]
  cases profile.reqPerSec with
  | none => rfl
  | some limit =>
    have hnow : req.arrival.now = req.now := rfl
    rw [hnow]
    dsimp only
    by_cases hwithin : (checkRateLimit limiter limit req.now).1 = true
    · rw [if_pos hwithin, if_pos (by rw [if_pos hwithin]; rfl)]
    · rw [if_neg hwithin, if_neg (by rw [if_neg hwithin]; simp [passes])]

theorem serverAfter_eq (hdrop : profile.dropRate = 0) : ∀ (reqs : List Request) (limiter : Limiter),
    serverAfter B profile limiter reqs = windowAfter profile limiter reqs
  | [], _ => rfl
  | req :: reqs, limiter => by
    have hrest := serverAfter_eq hdrop reqs (gate profile req.arrival limiter).2
    show serverAfter B profile (handleRpc B profile req limiter).2 reqs = _
    rw [handleRpc_eq hdrop]
    exact hrest

section Client

variable {parse : List UInt8 → Option Json} {resp : HttpResponse} {maxBody : ℕ}

/-- **A refused request is read as the 429 that it is**, whatever the method. -/
theorem call_of_refused {α : Type} {decode : Json → Option α} (hempty : parse [] = none)
    (h : Carries parse resp maxBody ⟨429, none⟩) :
    Rpc.call parse decode (some resp) maxBody = .error (.httpStatus 429 "") := by
  obtain ⟨hstatus, bytes, hbody, rfl⟩ := h
  have htext : Rpc.truncate (Rpc.fromUtf8Lossy []) Rpc.maxErrBodyLen = "" := by decide
  rw [Rpc.call_of_within (by rw [hstatus]; decide) hbody, hempty]
  show (if Rpc.isSuccess resp.status then _ else _) = _
  rw [if_neg (by rw [hstatus]; decide), hstatus, htext]

theorem delivers_of_carries {doc : Json} (h : Carries parse resp maxBody ⟨200, some doc⟩) :
    Delivers parse resp maxBody doc :=
  ⟨h.status, h.body⟩

theorem gate_of_not_dropped (hdrop : profile.dropRate = 0) (c : Arrival) (limiter : Limiter) :
    (gate profile c limiter).1 = .ok () ∨ (gate profile c limiter).1 = .error (.httpStatus 429 "") := by
  rw [gate, if_neg (not_dropped hdrop c)]
  cases profile.reqPerSec with
  | none => exact Or.inl rfl
  | some limit =>
    dsimp only
    split
    · exact Or.inl rfl
    · exact Or.inr rfl

/-- **A method is answered alike on both sides of the gate**, if it reads a refusal as one and a delivery as `answer`. -/
theorem answered_alike {α : Type} {read : Except RpcError α} {answer : Except RpcError α} (hdrop : profile.dropRate = 0)
    {limiter : Limiter} {before : List Request} (req : Request)
    (h : Carries parse resp maxBody (sent B profile limiter before req))
    (hrefused : Carries parse resp maxBody ⟨429, none⟩ → read = .error (.httpStatus 429 ""))
    (hserved : Delivers parse resp maxBody (dispatch B req.order req.node req.method req.params) → read = answer) :
    read = (simulated profile req.arrival answer (windowAfter profile limiter before)).1 := by
  rw [sent, serverAfter_eq hdrop, handleRpc_eq hdrop] at h
  rw [simulated]
  dsimp only at h ⊢
  rcases gate_of_not_dropped hdrop req.arrival (windowAfter profile limiter before) with hg | hg
  · rw [hg] at h ⊢
    exact hserved (delivers_of_carries h)
  · rw [hg] at h ⊢
    exact hrefused h

/-- Under its cap the simulated dump is the node's. -/
theorem simulatedVerbose_eq {entries : List (Txid × MempoolEntry)}
    (hcap : ∀ cap, profile.bodyCap = some cap → entries.length * 180 ≤ cap) (c : Arrival) (limiter : Limiter) :
    simulatedVerbose profile c (.ok entries) limiter = simulated profile c (.ok entries) limiter := by
  rw [simulatedVerbose]
  cases hbody : profile.bodyCap with
  | none => rfl
  | some cap =>
    have hle := hcap cap hbody
    show simulated profile c (if cap < min (entries.length * 180) usizeMax then _ else _) limiter = _
    rw [if_neg (by omega)]

theorem simulated_map {α β : Type} (f : α → β) (c : Arrival) (answer : Except RpcError α) (limiter : Limiter) :
    (simulated profile c (answer.map f) limiter).1 = (simulated profile c answer limiter).1.map f := by
  rw [simulated, simulated]
  dsimp only
  cases (gate profile c limiter).1 <;> rfl

/-- **The throttled HTTP node is the throttled node in process**: without drops, after any run of requests the two gates
hold the same window, and every method of the client over what the server sends is answered as `SimulatedRpc` answers it,
refusals included and the time of an entry apart; the dump as long as its size is under the profile's cap. -/
theorem http_network_agrees (B : BitcoinText) (parse : List UInt8 → Option Json) (hempty : parse [] = none)
    (profile : NetworkProfile) (hdrop : profile.dropRate = 0) (limiter : Limiter) (before : List Request) (now : ℕ)
    (node : MockNode) (hs : Servable node) (order order' : SetOrder Txid) (resp : HttpResponse) :
    serverAfter B profile limiter before = windowAfter profile limiter before ∧
    (∀ params, Carries parse resp Rpc.maxBodyControl
        (sent B profile limiter before ⟨"getblockchaininfo", params, now, node, order⟩) →
      Rpc.tipHeight B parse (some resp) =
        (simulated profile ⟨now, 0⟩ (.ok node.tipHeight) (windowAfter profile limiter before)).1) ∧
    (∀ params, B.fromBtc (1 / 100000) = some node.minFee → Carries parse resp Rpc.maxBodyControl
        (sent B profile limiter before ⟨"getmempoolinfo", params, now, node, order⟩) →
      Rpc.mempoolInfo B parse (some resp) =
        (simulated profile ⟨now, 0⟩ (.ok node.mempoolInfo) (windowAfter profile limiter before)).1) ∧
    (Carries parse resp Rpc.maxBodyTxids
        (sent B profile limiter before ⟨"getrawmempool", [.bool false], now, node, order⟩) →
      Rpc.rawMempoolTxids B parse (some resp) =
        (simulated profile ⟨now, 0⟩ (.ok (node.rawMempoolTxids order)) (windowAfter profile limiter before)).1) ∧
    ((∀ cap, profile.bodyCap = some cap → node.txs.keys.card * 180 ≤ cap) → Carries parse resp Rpc.maxBodyVerbose
        (sent B profile limiter before ⟨"getrawmempool", [.bool true], now, node, order⟩) →
      Rpc.rawMempoolVerbose B parse order' (some resp) = ((simulatedVerbose profile ⟨now, 0⟩
        (.ok (node.snapshotEntries order')) (windowAfter profile limiter before)).1).map
          (fun entries => entries.map (fun e => (e.1, eraseTime e.2)))) ∧
    ∀ t, Carries parse resp Rpc.maxBodyControl
        (sent B profile limiter before ⟨"getmempoolentry", [.str (B.displayTxid t)], now, node, order⟩) →
      Rpc.mempoolEntry B parse (some resp) = ((simulated profile ⟨now, 0⟩ (.ok (node.entryByTxid t))
        (windowAfter profile limiter before)).1).map (fun e => e.map eraseTime) := by
  obtain ⟨htip, hinfo, htxids, hverbose, hentry⟩ := served_as_in_process B parse node hs order order' resp
  refine ⟨serverAfter_eq hdrop before limiter, fun params h => ?_, fun params hfee h => ?_, fun h => ?_, fun hcap h => ?_,
    fun t h => ?_⟩
  · refine answered_alike hdrop ⟨"getblockchaininfo", params, now, node, order⟩ h (fun hr => ?_) (fun hd => (htip params hd).1)
    rw [Rpc.tipHeight, call_of_refused hempty hr]
    rfl
  · exact answered_alike hdrop ⟨"getmempoolinfo", params, now, node, order⟩ h (call_of_refused hempty) (hinfo params hfee)
  · exact answered_alike hdrop ⟨"getrawmempool", [.bool false], now, node, order⟩ h (call_of_refused hempty) htxids
  · rw [simulatedVerbose_eq (by rwa [MockNode.snapshotEntries, Rpc.length_tableRows]), ← simulated_map]
    refine answered_alike hdrop ⟨"getrawmempool", [.bool true], now, node, order⟩ h (fun hr => ?_) hverbose
    rw [Rpc.rawMempoolVerbose, call_of_refused hempty hr]
    rfl
  · rw [← simulated_map]
    refine answered_alike hdrop ⟨"getmempoolentry", [.str (B.displayTxid t)], now, node, order⟩ h (fun hr => ?_) (hentry t)
    rw [Rpc.mempoolEntry, call_of_refused hempty hr]

end Client

def tipRequest (now : ℕ) : Request := ⟨"getblockchaininfo", [], now, soloNode, SetOrder.ascending Txid⟩

/-- The third call within a second, and the first. -/
theorem http_network_agrees_tip :
    Rpc.tipHeight .decimal soloParse (some ⟨429, some 0, []⟩) = (simulated twoPerSecond ⟨7, 0⟩ (.ok soloNode.tipHeight)
      (windowAfter twoPerSecond (Limiter.new 5) [tipRequest 5, tipRequest 6])).1 ∧
    Rpc.tipHeight .decimal soloParse (some (whole tipBody)) =
      (simulated twoPerSecond ⟨5, 0⟩ (.ok soloNode.tipHeight) (windowAfter twoPerSecond (Limiter.new 5) [])).1 := by
  have hempty : soloParse [] = none :=
    (if_neg (by decide +kernel)).trans ((if_neg (by decide +kernel)).trans (if_neg (by decide +kernel)))
  have hagrees := fun before now resp => (http_network_agrees .decimal soloParse hempty twoPerSecond rfl (Limiter.new 5)
    before now soloNode soloNode_servable (SetOrder.ascending Txid) (SetOrder.ascending Txid) resp).2.1 []
  refine ⟨hagrees [tipRequest 5, tipRequest 6] 7 _ ⟨rfl, [], ⟨by decide, ⟨[], rfl, rfl⟩, Nat.zero_le _⟩, rfl⟩, ?_⟩
  exact hagrees [] 5 _ ⟨rfl, tipBody_delivers.body⟩

end Sim
end Satya
