import Satya.Rpc
import Satya.RpcDecode
/-!
# RpcCall — how the outcome of a request is classified (`rpc.rs`)

`Rpc::call` reads a bounded body and parses it as a `{result, error}` envelope whatever the HTTP status; the status counts
only when that fails.  Both members of the envelope may be missing, so it accepts more than envelopes (`misread_iff`), and
a gateway's own JSON body is not the HTTP failure it is.

`serde_json`'s parser is a parameter: it answers the document, or `none` where it reports an error.
-/
namespace Satya
namespace Rpc

open Json (asString asOption required optional valuesOf)

def maxBodyControl : ℕ := 16 * 1024 * 1024

def maxErrBodyLen : ℕ := 512

/-- Bitcoin Core's "transaction not in mempool" code. -/
def rpcInvalidAddressOrKey : ℤ := -5

/-! ## Error texts -/

/-- What a lead byte of UTF-8 starts: its payload bits, and the ranges of the bytes that must follow. -/
def utf8Lead (b : ℕ) : Option (ℕ × List (ℕ × ℕ)) :=
  if b < 0x80 then some (b, [])
  else if 0xC2 ≤ b ∧ b ≤ 0xDF then some (b - 0xC0, [(0x80, 0xBF)])
  else if b = 0xE0 then some (0, [(0xA0, 0xBF), (0x80, 0xBF)])
  else if b = 0xED then some (0xD, [(0x80, 0x9F), (0x80, 0xBF)])
  else if 0xE1 ≤ b ∧ b ≤ 0xEF then some (b - 0xE0, [(0x80, 0xBF), (0x80, 0xBF)])
  else if b = 0xF0 then some (0, [(0x90, 0xBF), (0x80, 0xBF), (0x80, 0xBF)])
  else if 0xF1 ≤ b ∧ b ≤ 0xF3 then some (b - 0xF0, [(0x80, 0xBF), (0x80, 0xBF), (0x80, 0xBF)])
  else if b = 0xF4 then some (4, [(0x80, 0x8F), (0x80, 0xBF), (0x80, 0xBF)])
  else none

/-- A byte between characters: what it completes, and the character it leaves open. -/
def lossyLead (b : ℕ) : List Char × Option (ℕ × List (ℕ × ℕ)) :=
  match utf8Lead b with
  | none => (['\uFFFD'], none)
  | some (bits, []) => ([Char.ofNat bits], none)
  | some p => ([], some p)

/-- Every maximal ill-formed part becomes one U+FFFD. -/
def lossyChars : Option (ℕ × List (ℕ × ℕ)) → List UInt8 → List Char
  | none, [] => []
  | some _, [] => ['\uFFFD']
  | some (bits, (low, high) :: ranges), b :: bytes =>
    if low ≤ b.toNat ∧ b.toNat ≤ high then
      let bits := bits * 64 + (b.toNat - 0x80)
      if ranges = [] then Char.ofNat bits :: lossyChars none bytes else lossyChars (some (bits, ranges)) bytes
    else
      let (out, next) := lossyLead b.toNat
      '\uFFFD' :: (out ++ lossyChars next bytes)
  | _, b :: bytes =>
    let (out, next) := lossyLead b.toNat
    out ++ lossyChars next bytes

/-- `String::from_utf8_lossy`. -/
def fromUtf8Lossy (bytes : List UInt8) : String := String.ofList (lossyChars none bytes)

/-- At most `max` characters, and an ellipsis when there were more. -/
def truncate (s : String) (max : ℕ) : String :=
  let out := s.toList.take max
  if max < s.toList.length then String.ofList (out ++ ['…']) else String.ofList out

/-! ## The body -/

/-- A response as the client receives it; `none` for a chunk whose transfer fails. -/
structure HttpResponse where
  status : ℕ
  contentLength : Option ℕ
  chunks : List (Option (List UInt8))

def isSuccess (status : ℕ) : Prop := 200 ≤ status ∧ status < 300

instance (status : ℕ) : Decidable (isSuccess status) := inferInstanceAs (Decidable (_ ∧ _))

/-- The loop over the chunks, each checked before it is appended. -/
def readChunks (maxBody : ℕ) : List (Option (List UInt8)) → List UInt8 → Except RpcError (List UInt8)
  | [], buf => .ok buf
  | none :: _, _ => .error .http
  | some chunk :: chunks, buf =>
    if maxBody < buf.length + chunk.length then .error (.bodyTooLarge maxBody)
    else readChunks maxBody chunks (buf ++ chunk)

def readBodyBounded (resp : HttpResponse) (maxBody : ℕ) : Except RpcError (List UInt8) :=
  if resp.contentLength.any (fun len => decide (maxBody < len)) then .error (.bodyTooLarge maxBody)
  else readChunks maxBody resp.chunks []

/-- `body` arrives whole and within the cap. -/
structure HttpResponse.Within (resp : HttpResponse) (maxBody : ℕ) (body : List UInt8) : Prop where
  declared : ∀ len ∈ resp.contentLength, len ≤ maxBody
  arrives : ∃ parts : List (List UInt8), resp.chunks = parts.map some ∧ body = parts.flatten
  length : body.length ≤ maxBody

theorem readChunks_map (maxBody : ℕ) : ∀ (parts : List (List UInt8)) (buf : List UInt8),
    (buf ++ parts.flatten).length ≤ maxBody → readChunks maxBody (parts.map some) buf = .ok (buf ++ parts.flatten)
  | [], buf, _ => by simp [readChunks]
  | part :: parts, buf, h => by
    rw [List.flatten_cons, ← List.append_assoc] at h ⊢
    have hpart : ¬ maxBody < buf.length + part.length := by
      rw [List.length_append, List.length_append] at h
      omega
    rw [List.map_cons, readChunks, if_neg hpart]
    exact readChunks_map maxBody parts (buf ++ part) h

/-- **A body within the cap is read whole.** -/
theorem HttpResponse.Within.read {resp : HttpResponse} {maxBody : ℕ} {body : List UInt8} (h : resp.Within maxBody body) :
    readBodyBounded resp maxBody = .ok body := by
  obtain ⟨parts, hchunks, rfl⟩ := h.arrives
  have hdeclared : resp.contentLength.any (fun len => decide (maxBody < len)) = false := by
    cases hl : resp.contentLength with
    | none => rfl
    | some len =>
      have := h.declared len hl
      simpa using this
  rw [readBodyBounded, hdeclared, hchunks]
  exact readChunks_map maxBody parts [] h.length

/-! ## The envelope -/

@[ext] structure RpcResponseError where
  code : ℤ
  message : String

structure RpcResponse where
  result : Json
  error : Option RpcResponseError

def asI32 : Json → Option ℤ
  | .int z => if -2 ^ 31 ≤ z ∧ z < 2 ^ 31 then some z else none
  | _ => none

def errorOfFields (fields : List (String × Json)) : Option RpcResponseError := do
  let code ← required ["code"] asI32 fields
  let message ← required ["message"] asString fields
  some { code, message }

/-- The derived deserialiser: an object by its names, an array by position. -/
def decodeResponseError : Json → Option RpcResponseError
  | .obj fields => errorOfFields fields
  | .arr [code, message] => do some { code := ← asI32 code, message := ← asString message }
  | _ => none

/-- A `#[serde(default)]` member of type `Value`. -/
def resultOfFields (fields : List (String × Json)) : Option Json :=
  match valuesOf ["result"] fields with
  | [] => some .null
  | [j] => some j.toValue
  | _ => none

def responseOfFields (fields : List (String × Json)) : Option RpcResponse := do
  let result ← resultOfFields fields
  let error ← optional ["error"] decodeResponseError fields
  some { result, error }

/-- The derived deserialiser of the envelope; in an array, what is missing takes its default. -/
def decodeResponse : Json → Option RpcResponse
  | .obj fields => responseOfFields fields
  | .arr [] => some { result := .null, error := none }
  | .arr [result] => some { result := result.toValue, error := none }
  | .arr [result, error] => do some { result := result.toValue, error := ← asOption decodeResponseError error }
  | _ => none

/-! ## The calls -/

variable {α : Type}

/-- `Rpc::call` on what the transport returns, `none` when sending fails. -/
def call (parse : List UInt8 → Option Json) (decode : Json → Option α) (sent : Option HttpResponse) (maxBody : ℕ) :
    Except RpcError α :=
  match sent with
  | none => .error .http
  | some resp =>
    -- the snippet of an auth failure's body goes to the log only
    if resp.status = 401 ∨ resp.status = 403 then .error .auth
    else match readBodyBounded resp maxBody with
      | .error e => .error e
      | .ok bytes =>
        match (parse bytes).bind decodeResponse with
        | some parsed =>
          match parsed.error with
          | some err => .error (.rpc err.code err.message)
          | none => match decode parsed.result with
            | some a => .ok a
            | none => .error .decode
        | none =>
          if isSuccess resp.status then .error .decode
          else .error (.httpStatus resp.status (truncate (fromUtf8Lossy bytes) maxErrBodyLen))

/-- `Rpc::mempool_entry`: `none` when the node no longer has the transaction. -/
def mempoolEntry (B : BitcoinText) (parse : List UInt8 → Option Json) (sent : Option HttpResponse) :
    Except RpcError (Option MempoolEntry) :=
  match call parse (decodeEntry B) sent maxBodyControl with
  | .ok entry => .ok (some entry)
  | .error (.rpc code message) => if code = rpcInvalidAddressOrKey then .ok none else .error (.rpc code message)
  | .error e => .error e

/-! ## What is an envelope, and what is read as one -/

/-- A JSON-RPC envelope: an object with a `result` member or a non-null `error` object. -/
def IsEnvelope (j : Json) : Prop :=
  ∃ fields, j = .obj fields ∧ ((∃ v, ("result", v) ∈ fields) ∨ ∃ e, ("error", .obj e) ∈ fields)

/-- An object with an `i32` code and a string message. -/
def IsErrorObject (fields : List (String × Json)) (code : ℤ) (message : String) : Prop :=
  ("code", .int code) ∈ fields ∧ (-2 ^ 31 ≤ code ∧ code < 2 ^ 31) ∧ ("message", .str message) ∈ fields

/-- An envelope whose error is such an object. -/
def IsErrorEnvelope (j : Json) (code : ℤ) (message : String) : Prop :=
  ∃ fields e, j = .obj fields ∧ ("error", .obj e) ∈ fields ∧ IsErrorObject e code message

/-- An error object that gives its code and its message once. -/
def IsPlainError (fields : List (String × Json)) (code : ℤ) (message : String) : Prop :=
  valuesOf ["code"] fields = [.int code] ∧ (-2 ^ 31 ≤ code ∧ code < 2 ^ 31) ∧ valuesOf ["message"] fields = [.str message]

/-- An error given by position. -/
def IsErrorPair (j : Json) (code : ℤ) (message : String) : Prop :=
  j = .arr [.int code, .str message] ∧ -2 ^ 31 ≤ code ∧ code < 2 ^ 31

/-- Not an envelope, and read as one: an object without a result whose error is missing, null or given by position, or an
array of at most two members whose second is missing, null or an error. -/
def Misread : Json → Prop
  | .obj fields => valuesOf ["result"] fields = [] ∧ (valuesOf ["error"] fields = [] ∨
      ∃ e, valuesOf ["error"] fields = [e] ∧ (e = .null ∨ ∃ code message, IsErrorPair e code message))
  | .arr items => items = [] ∨ (∃ result, items = [result]) ∨ ∃ result e, items = [result, e] ∧ (e = .null ∨
      ∃ code message, IsErrorPair e code message ∨ ∃ fields, e = .obj fields ∧ IsPlainError fields code message)
  | _ => False

/-- An error envelope that gives its result or its error more than once, or an error with two codes or messages. -/
def RepeatsMember (j : Json) : Prop :=
  ∃ fields e code message, j = .obj fields ∧ ("error", .obj e) ∈ fields ∧ IsErrorObject e code message ∧
    (1 < (valuesOf ["result"] fields).length ∨ 1 < (valuesOf ["error"] fields).length ∨
      1 < (valuesOf ["code"] e).length ∨ 1 < (valuesOf ["message"] e).length)

/-- Read as an error without being an error envelope: an object whose error is given by position, or an array with an
error. -/
def PositionalError (code : ℤ) : Json → Prop
  | .obj fields => (valuesOf ["result"] fields).length ≤ 1 ∧
      ∃ e message, valuesOf ["error"] fields = [e] ∧ IsErrorPair e code message
  | .arr items => ∃ result e message, items = [result, e] ∧
      (IsErrorPair e code message ∨ ∃ fields, e = .obj fields ∧ IsPlainError fields code message)
  | _ => False

theorem asI32_eq_some {j : Json} {z : ℤ} : asI32 j = some z ↔ j = .int z ∧ -2 ^ 31 ≤ z ∧ z < 2 ^ 31 := by
  cases j with
  | int w =>
    rw [asI32, Json.int.injEq]
    split
    · next h =>
      rw [Option.some.injEq]
      exact ⟨fun hw => ⟨hw, hw ▸ h⟩, fun hw => hw.1⟩
    · next h => exact ⟨fun hw => (by cases hw), fun hw => absurd (hw.1 ▸ hw.2) h⟩
  | _ => simp [asI32]

theorem asString_eq_some {j : Json} {s : String} : asString j = some s ↔ j = .str s := by
  cases j <;> simp [asString]

theorem required_eq_some {β : Type} {names : List String} {read : Json → Option β} {fields : List (String × Json)} {b : β} :
    required names read fields = some b ↔ ∃ j, valuesOf names fields = [j] ∧ read j = some b := by
  unfold required
  split
  · next j h => simp [h]
  · next h => exact ⟨fun hb => (by cases hb), fun ⟨j, hj, _⟩ => absurd hj (h j)⟩

/-- **What is read as an error**: an error object, or an error given by position. -/
theorem decodeResponseError_eq_some {j : Json} {err : RpcResponseError} : decodeResponseError j = some err ↔
    (∃ fields, j = .obj fields ∧ IsPlainError fields err.code err.message) ∨ IsErrorPair j err.code err.message := by
  obtain ⟨code, message⟩ := err
  unfold decodeResponseError
  split
  · next fields =>
    simp only [errorOfFields, Option.bind_eq_bind, Option.bind_eq_some_iff, required_eq_some, asI32_eq_some,
      asString_eq_some, Option.some.injEq, RpcResponseError.mk.injEq, IsPlainError, IsErrorPair, Json.obj.injEq,
      reduceCtorEq, false_and, or_false]
    constructor
    · rintro ⟨_, ⟨_, hc, rfl, hr⟩, _, ⟨_, hm, rfl⟩, rfl, rfl⟩
      exact ⟨fields, rfl, hc, hr, hm⟩
    · rintro ⟨_, rfl, hc, hr, hm⟩
      exact ⟨code, ⟨_, hc, rfl, hr⟩, message, ⟨_, hm, rfl⟩, rfl, rfl⟩
  · next c m =>
    simp only [Option.bind_eq_bind, Option.bind_eq_some_iff, asI32_eq_some, asString_eq_some, Option.some.injEq,
      RpcResponseError.mk.injEq, IsErrorPair, Json.arr.injEq, List.cons.injEq, and_true, reduceCtorEq, false_and,
      exists_false, false_or]
    constructor
    · rintro ⟨_, ⟨rfl, hr⟩, _, rfl, rfl, rfl⟩
      exact ⟨⟨rfl, rfl⟩, hr⟩
    · rintro ⟨⟨rfl, rfl⟩, hr⟩
      exact ⟨code, ⟨rfl, hr⟩, message, rfl, rfl, rfl⟩
  · next hobj harr =>
    refine ⟨fun h => (by cases h), ?_⟩
    rintro (⟨fields, rfl, -⟩ | ⟨rfl, -⟩)
    · exact absurd rfl (hobj fields)
    · exact absurd rfl (harr _ _)

theorem asOption_isSome {j : Json} : (asOption decodeResponseError j).isSome = true ↔ j = .null ∨ ∃ code message,
    IsErrorPair j code message ∨ ∃ fields, j = .obj fields ∧ IsPlainError fields code message := by
  have hread : (∃ err, decodeResponseError j = some err) ↔ ∃ code message,
      IsErrorPair j code message ∨ ∃ fields, j = .obj fields ∧ IsPlainError fields code message := by
    constructor
    · rintro ⟨err, h⟩
      exact ⟨err.code, err.message, (decodeResponseError_eq_some.1 h).symm⟩
    · rintro ⟨code, message, h⟩
      exact ⟨⟨code, message⟩, decodeResponseError_eq_some.2 h.symm⟩
  rw [← hread]
  cases j <;> simp [asOption, Option.isSome_iff_exists]

theorem asOption_eq_some {j : Json} {err : RpcResponseError} (h : asOption decodeResponseError j = some (some err)) :
    decodeResponseError j = some err := by
  cases j with
  | null => cases h
  | _ => simpa [asOption] using h

theorem asOption_of_read {j : Json} {err : RpcResponseError} (h : decodeResponseError j = some err) :
    asOption decodeResponseError j = some (some err) := by
  cases j with
  | null => cases h
  | _ => simpa [asOption] using h

theorem resultOfFields_isSome {fields : List (String × Json)} :
    (resultOfFields fields).isSome = true ↔ (valuesOf ["result"] fields).length ≤ 1 := by
  unfold resultOfFields
  split
  · next h => simp [h]
  · next j h => simp [h]
  · next h0 h1 =>
    refine ⟨fun h => (by cases h), fun h => ?_⟩
    rcases Nat.le_one_iff_eq_zero_or_eq_one.1 h with h | h
    · exact absurd (List.length_eq_zero_iff.1 h) h0
    · obtain ⟨j, hj⟩ := List.length_eq_one_iff.1 h
      exact absurd hj (h1 j)

/-- **Which objects the envelope type accepts.** -/
theorem responseOfFields_isSome {fields : List (String × Json)} : (responseOfFields fields).isSome = true ↔
    (valuesOf ["result"] fields).length ≤ 1 ∧ (valuesOf ["error"] fields = [] ∨
      ∃ e, valuesOf ["error"] fields = [e] ∧ (asOption decodeResponseError e).isSome = true) := by
  have herror : (optional ["error"] decodeResponseError fields).isSome = true ↔ valuesOf ["error"] fields = [] ∨
      ∃ e, valuesOf ["error"] fields = [e] ∧ (asOption decodeResponseError e).isSome = true := by
    unfold Json.optional
    split
    · next h => simp [h]
    · next e h => simp [h]
    · next h0 h1 =>
      refine ⟨fun h => (by cases h), ?_⟩
      rintro (h | ⟨e, h, -⟩)
      · exact absurd h h0
      · exact absurd h (h1 e)
  rw [← resultOfFields_isSome, ← herror, responseOfFields]
  cases resultOfFields fields <;> cases optional ["error"] decodeResponseError fields <;> simp

theorem valuesOf_eq_nil {name : String} {fields : List (String × Json)} :
    valuesOf [name] fields = [] ↔ ∀ v, (name, v) ∉ fields := by
  rw [valuesOf, List.map_eq_nil_iff, List.filter_eq_nil_iff]
  constructor
  · exact fun h v hv => h _ hv (by simp)
  · rintro h ⟨key, v⟩ hf hk
    simp only [List.mem_singleton, decide_eq_true_eq] at hk
    exact h v (hk ▸ hf)

theorem mem_valuesOf {name : String} {fields : List (String × Json)} {v : Json} :
    v ∈ valuesOf [name] fields ↔ (name, v) ∈ fields := by
  simp [valuesOf]

theorem isEnvelope_obj {fields : List (String × Json)} :
    IsEnvelope (.obj fields) ↔ valuesOf ["result"] fields ≠ [] ∨ ∃ e, .obj e ∈ valuesOf ["error"] fields := by
  have hres : (∃ v, ("result", v) ∈ fields) ↔ valuesOf ["result"] fields ≠ [] := by
    rw [Ne, valuesOf_eq_nil, not_forall_not]
  simp only [mem_valuesOf, ← hres]
  exact ⟨fun ⟨_, h, hor⟩ => (Json.obj.inj h) ▸ hor, fun h => ⟨fields, rfl, h⟩⟩

theorem misread_obj_iff (fields : List (String × Json)) :
    Misread (.obj fields) ↔ ¬ IsEnvelope (.obj fields) ∧ (decodeResponse (.obj fields)).isSome = true := by
  rw [isEnvelope_obj, not_or, not_not, decodeResponse, responseOfFields_isSome, Misread]
  constructor
  · rintro ⟨hres, herr⟩
    refine ⟨⟨hres, fun ⟨e, he⟩ => ?_⟩, by rw [hres]; exact Nat.zero_le 1, ?_⟩
    · rcases herr with h | ⟨e', h, hnull | ⟨code, message, hpair, -⟩⟩
      · rw [h] at he; cases he
      · rw [h, hnull, List.mem_singleton] at he; cases he
      · rw [h, hpair, List.mem_singleton] at he; cases he
    · rcases herr with h | ⟨e, h, hnull | ⟨code, message, hpair⟩⟩
      · exact Or.inl h
      · exact Or.inr ⟨e, h, asOption_isSome.2 (Or.inl hnull)⟩
      · exact Or.inr ⟨e, h, asOption_isSome.2 (Or.inr ⟨code, message, Or.inl hpair⟩)⟩
  · rintro ⟨⟨hres, hnot⟩, -, herr⟩
    refine ⟨hres, herr.imp_right (fun ⟨e, h, hread⟩ => ⟨e, h, ?_⟩)⟩
    refine (asOption_isSome.1 hread).imp_right (fun ⟨code, message, hor⟩ => ⟨code, message, hor.resolve_right ?_⟩)
    rintro ⟨ef, rfl, -⟩
    exact hnot ⟨ef, by rw [h]; exact List.mem_singleton.2 rfl⟩

theorem misread_arr_iff (items : List Json) : Misread (.arr items) ↔ (decodeResponse (.arr items)).isSome = true := by
  rw [Misread]
  unfold decodeResponse
  split
  · next h => cases h
  · next h => simp [Json.arr.inj h]
  · next result h => simp [Json.arr.inj h]
  · next result e h =>
    obtain rfl := Json.arr.inj h
    have hsome : (do
        some ({ result := result.toValue, error := ← asOption decodeResponseError e } : RpcResponse)).isSome = true ↔
        (asOption decodeResponseError e).isSome = true := by
      cases asOption decodeResponseError e <;> simp
    rw [hsome, asOption_isSome]
    simp
  · next h0 h1 h2 =>
    refine ⟨fun h => ?_, fun h => (by cases h)⟩
    rcases h with rfl | ⟨result, rfl⟩ | ⟨result, e, rfl, -⟩
    · exact absurd rfl h0
    · exact absurd rfl (h1 result)
    · exact absurd rfl (h2 result e)

/-- **What is misread**: the documents that the envelope type accepts and that are no envelopes. -/
theorem misread_iff (j : Json) : Misread j ↔ ¬ IsEnvelope j ∧ (decodeResponse j).isSome = true := by
  cases j with
  | obj fields => exact misread_obj_iff fields
  | arr items =>
    have henv : ¬ IsEnvelope (.arr items) := fun ⟨_, h, _⟩ => by cases h
    rw [misread_arr_iff, and_iff_right henv]
  | _ => simp [Misread, decodeResponse]

theorem eq_singleton_of_mem {β : Type} {l : List β} {b : β} (hb : b ∈ l) (hle : ¬ 1 < l.length) : l = [b] := by
  obtain ⟨c, rfl⟩ := List.length_eq_one_iff.1 (le_antisymm (not_lt.1 hle) (List.length_pos_of_mem hb))
  rw [List.mem_singleton.1 hb]

theorem isErrorObject_of_plain {fields : List (String × Json)} {code : ℤ} {message : String}
    (h : IsPlainError fields code message) : IsErrorObject fields code message :=
  ⟨mem_valuesOf.1 (by rw [h.1]; exact List.mem_singleton.2 rfl), h.2.1,
    mem_valuesOf.1 (by rw [h.2.2]; exact List.mem_singleton.2 rfl)⟩

/-- **An error envelope is read as its error**, unless it repeats a member. -/
theorem decodeResponse_of_errorEnvelope {j : Json} {code : ℤ} {message : String} (h : IsErrorEnvelope j code message)
    (honce : ¬ RepeatsMember j) : ∃ result, decodeResponse j = some ⟨result, some ⟨code, message⟩⟩ := by
  obtain ⟨fields, e, rfl, herr, hobj⟩ := h
  have hnot : ∀ {P : Prop}, (P → 1 < (valuesOf ["result"] fields).length ∨ 1 < (valuesOf ["error"] fields).length ∨
      1 < (valuesOf ["code"] e).length ∨ 1 < (valuesOf ["message"] e).length) → ¬ P := fun himp hp =>
    honce ⟨fields, e, code, message, rfl, herr, hobj, himp hp⟩
  have hplain : IsPlainError e code message :=
    ⟨eq_singleton_of_mem (mem_valuesOf.2 hobj.1) (hnot (fun h => Or.inr (Or.inr (Or.inl h)))), hobj.2.1,
      eq_singleton_of_mem (mem_valuesOf.2 hobj.2.2) (hnot (fun h => Or.inr (Or.inr (Or.inr h))))⟩
  obtain ⟨result, hres⟩ := Option.isSome_iff_exists.1 (resultOfFields_isSome.2 (not_lt.1 (hnot Or.inl)))
  have hread : decodeResponseError (.obj e) = some ⟨code, message⟩ :=
    decodeResponseError_eq_some.2 (Or.inl ⟨e, rfl, hplain⟩)
  have hopt : optional ["error"] decodeResponseError fields = some (some ⟨code, message⟩) := by
    rw [Json.optional_of_values (eq_singleton_of_mem (mem_valuesOf.2 herr) (hnot (fun h => Or.inr (Or.inl h))))]
    show (decodeResponseError (.obj e)).map some = _
    rw [hread]
    rfl
  refine ⟨result, ?_⟩
  rw [decodeResponse, responseOfFields, hres, hopt]
  rfl

theorem decodeResponse_of_repeatsMember {j : Json} (h : RepeatsMember j) : decodeResponse j = none := by
  obtain ⟨fields, e, code, message, rfl, herr, -, hgt⟩ := h
  rw [← Option.not_isSome_iff_eq_none, decodeResponse, responseOfFields_isSome]
  rintro ⟨hres, hone⟩
  have hmem : .obj e ∈ valuesOf ["error"] fields := mem_valuesOf.2 herr
  rcases hone with hnil | ⟨e', he', hread⟩
  · rw [hnil] at hmem
    cases hmem
  · rw [he', List.mem_singleton] at hmem
    subst hmem
    have hplain : ∃ code message, IsPlainError e code message := by
      rcases asOption_isSome.1 hread with hnull | ⟨code, message, ⟨hpair, -⟩ | ⟨fields, heq, hp⟩⟩
      · cases hnull
      · cases hpair
      · rw [Json.obj.inj heq]
        exact ⟨code, message, hp⟩
    obtain ⟨code, message, hcode, -, hmessage⟩ := hplain
    rw [he', hcode, hmessage] at hgt
    simp only [List.length_singleton, lt_irrefl, or_false] at hgt
    exact absurd hgt (not_lt.2 hres)

/-- **What is read as an error of a code**: the error envelopes that repeat no member, and the errors by position. -/
theorem decodeResponse_error_iff {j : Json} {code : ℤ} :
    (∃ result message, decodeResponse j = some ⟨result, some ⟨code, message⟩⟩) ↔
      (∃ message, IsErrorEnvelope j code message) ∧ ¬ RepeatsMember j ∨ PositionalError code j := by
  constructor
  · rintro ⟨result, message, h⟩
    have hrep : ¬ RepeatsMember j := fun hrep => by
      rw [decodeResponse_of_repeatsMember hrep] at h
      cases h
    unfold decodeResponse at h
    split at h
    · next fields =>
      have hsome := responseOfFields_isSome.1 (by rw [h]; rfl)
      rw [responseOfFields] at h
      simp only [Option.bind_eq_bind, Option.bind_eq_some_iff, Option.some.injEq, RpcResponse.mk.injEq] at h
      obtain ⟨_, -, error, hopt, -, rfl⟩ := h
      rcases hsome.2 with hnil | ⟨e, he, -⟩
      · rw [Json.optional_of_none hnil] at hopt
        cases hopt
      · rw [Json.optional_of_values he] at hopt
        have hread := asOption_eq_some hopt
        rcases decodeResponseError_eq_some.1 hread with ⟨ef, rfl, hplain⟩ | hpair
        · refine Or.inl ⟨⟨message, fields, ef, rfl, mem_valuesOf.1 ?_, isErrorObject_of_plain hplain⟩, hrep⟩
          rw [he]
          exact List.mem_singleton.2 rfl
        · exact Or.inr ⟨hsome.1, e, message, he, hpair⟩
    · cases h
    · cases h
    · next result' e =>
      simp only [Option.bind_eq_bind, Option.bind_eq_some_iff, Option.some.injEq, RpcResponse.mk.injEq] at h
      obtain ⟨error, hopt, -, rfl⟩ := h
      exact Or.inr ⟨result', e, message, rfl, (decodeResponseError_eq_some.1 (asOption_eq_some hopt)).symm⟩
    · cases h
  · rintro (⟨⟨message, h⟩, honce⟩ | h)
    · obtain ⟨result, hread⟩ := decodeResponse_of_errorEnvelope h honce
      exact ⟨result, message, hread⟩
    · cases j with
      | obj fields =>
        obtain ⟨hres, e, message, he, hpair⟩ := h
        have hread : decodeResponseError e = some ⟨code, message⟩ := decodeResponseError_eq_some.2 (Or.inr hpair)
        obtain ⟨result, hresult⟩ := Option.isSome_iff_exists.1 (resultOfFields_isSome.2 hres)
        refine ⟨result, message, ?_⟩
        rw [decodeResponse, responseOfFields, hresult, Json.optional_of_values he, asOption_of_read hread]
        rfl
      | arr items =>
        obtain ⟨result, e, message, rfl, hor⟩ := h
        have hread : decodeResponseError e = some ⟨code, message⟩ := decodeResponseError_eq_some.2 hor.symm
        refine ⟨result.toValue, message, ?_⟩
        rw [decodeResponse, asOption_of_read hread]
        rfl
      | _ => exact h.elim

/-- No error envelope is an error by position. -/
theorem PositionalError.not_envelope {j : Json} {code : ℤ} (h : PositionalError code j) :
    ¬ ∃ message, IsErrorEnvelope j code message := by
  rintro ⟨message, fields, e, rfl, herr, -⟩
  obtain ⟨-, e', message', he', hpair, -⟩ := h
  have hmem : .obj e ∈ valuesOf ["error"] fields := mem_valuesOf.2 herr
  rw [he', hpair, List.mem_singleton] at hmem
  cases hmem

/-! ## The classification -/

section Classification

variable {parse : List UInt8 → Option Json} {decode : Json → Option α} {resp : HttpResponse} {maxBody : ℕ}
  {body : List UInt8}

/-- The answer of a call that reads its body. -/
theorem call_of_within (hauth : resp.status ≠ 401 ∧ resp.status ≠ 403) (hbody : resp.Within maxBody body) :
    call parse decode (some resp) maxBody = match (parse body).bind decodeResponse with
      | some parsed =>
        match parsed.error with
        | some err => .error (.rpc err.code err.message)
        | none => match decode parsed.result with
          | some a => .ok a
          | none => .error .decode
      | none =>
        if isSuccess resp.status then .error .decode
        else .error (.httpStatus resp.status (truncate (fromUtf8Lossy body) maxErrBodyLen)) := by
  simp only [call, if_neg (not_or.2 hauth), hbody.read]

/-- **A body that is no envelope is the failed status exactly when it is not misread.** -/
theorem call_eq_httpStatus_iff (hauth : resp.status ≠ 401 ∧ resp.status ≠ 403) (hbody : resp.Within maxBody body)
    (hstatus : ¬ isSuccess resp.status) (hnot : ∀ j, parse body = some j → ¬ IsEnvelope j) :
    (∃ text, call parse decode (some resp) maxBody = .error (.httpStatus resp.status text)) ↔
      ∀ j, parse body = some j → ¬ Misread j := by
  have hnone : (∃ text, call parse decode (some resp) maxBody = .error (.httpStatus resp.status text)) ↔
      (parse body).bind decodeResponse = none := by
    rw [call_of_within hauth hbody]
    cases (parse body).bind decodeResponse with
    | none => simp [hstatus]
    | some parsed =>
      obtain ⟨result, error⟩ := parsed
      cases error with
      | some err => simp
      | none => cases hd : decode result <;> simp [hd]
  rw [hnone, Option.bind_eq_none_iff]
  refine forall_congr' (fun j => forall_congr' (fun hj => ?_))
  rw [misread_iff, and_iff_right (hnot j hj), Option.not_isSome_iff_eq_none]

/-- What the classification promises of a body that is read: no envelope on a failed status is that status, an error
envelope is its error, and the entry is gone exactly when an error envelope says so. -/
structure Classified (B : BitcoinText) (parse : List UInt8 → Option Json) (decode : Json → Option α) (resp : HttpResponse)
    (maxBody : ℕ) (body : List UInt8) : Prop where
  status : ¬ isSuccess resp.status → (∀ j, parse body = some j → ¬ IsEnvelope j) →
    ∃ text, call parse decode (some resp) maxBody = .error (.httpStatus resp.status text) ∧
      (RpcError.httpStatus resp.status text).isReconnectable = true
  method : ∀ j code message, parse body = some j → IsErrorEnvelope j code message →
    call parse decode (some resp) maxBody = .error (.rpc code message)
  vanished : resp.Within maxBodyControl body → (mempoolEntry B parse (some resp) = .ok none ↔
    ∃ j message, parse body = some j ∧ IsErrorEnvelope j rpcInvalidAddressOrKey message)

/-- **A call answers a method error exactly when the body is read as one.** -/
theorem call_rpc_iff_read (hauth : resp.status ≠ 401 ∧ resp.status ≠ 403) (hbody : resp.Within maxBody body) {code : ℤ}
    {message : String} : call parse decode (some resp) maxBody = .error (.rpc code message) ↔
      ∃ j result, parse body = some j ∧ decodeResponse j = some ⟨result, some ⟨code, message⟩⟩ := by
  have hread : (∃ j result, parse body = some j ∧ decodeResponse j = some ⟨result, some ⟨code, message⟩⟩) ↔
      ∃ result, (parse body).bind decodeResponse = some ⟨result, some ⟨code, message⟩⟩ := by
    simp only [Option.bind_eq_some_iff]
    exact ⟨fun ⟨j, r, h⟩ => ⟨r, j, h⟩, fun ⟨r, j, h⟩ => ⟨j, r, h⟩⟩
  rw [hread, call_of_within hauth hbody]
  cases (parse body).bind decodeResponse with
  | none => by_cases hs : isSuccess resp.status <;> simp [hs]
  | some parsed =>
    obtain ⟨result, error⟩ := parsed
    cases error with
    | none => cases hd : decode result <;> simp [hd]
    | some err => simp [RpcResponseError.ext_iff]

/-- **An error envelope is its error exactly when it repeats no member.** -/
theorem call_eq_rpc_iff (hauth : resp.status ≠ 401 ∧ resp.status ≠ 403) (hbody : resp.Within maxBody body)
    {j : Json} {code : ℤ} {message : String} (hj : parse body = some j) (h : IsErrorEnvelope j code message) :
    call parse decode (some resp) maxBody = .error (.rpc code message) ↔ ¬ RepeatsMember j := by
  rw [call_rpc_iff_read hauth hbody]
  constructor
  · rintro ⟨j', result, hj', hread⟩ hrep
    rw [hj, Option.some.injEq] at hj'
    rw [← hj', decodeResponse_of_repeatsMember hrep] at hread
    cases hread
  · intro honce
    obtain ⟨result, hread⟩ := decodeResponse_of_errorEnvelope h honce
    exact ⟨j, result, hj, hread⟩

theorem mempoolEntry_none_iff {B : BitcoinText} {sent : Option HttpResponse} : mempoolEntry B parse sent = .ok none ↔
    ∃ message, call parse (decodeEntry B) sent maxBodyControl = .error (.rpc rpcInvalidAddressOrKey message) := by
  unfold mempoolEntry
  split
  · next h => simp [h]
  · next code message h =>
    rw [h]
    by_cases hcode : code = rpcInvalidAddressOrKey <;> simp [hcode]
  · next e hrpc h =>
    rw [h]
    refine ⟨fun he => (by cases he), fun ⟨message, hm⟩ => ?_⟩
    exact absurd (Except.error.inj hm) (hrpc _ _)

/-- **Exactly when failures are classified as such**: on a failed status the body is not misread, no error envelope
repeats a member, and no error -5 is given by position. -/
theorem failures_classified_iff (B : BitcoinText) (parse : List UInt8 → Option Json) (decode : Json → Option α)
    (resp : HttpResponse) (maxBody : ℕ) (body : List UInt8) (hauth : resp.status ≠ 401 ∧ resp.status ≠ 403)
    (hbody : resp.Within maxBody body) : Classified B parse decode resp maxBody body ↔
      ∀ j, parse body = some j → (¬ isSuccess resp.status → ¬ Misread j) ∧ ¬ RepeatsMember j ∧
        (resp.Within maxBodyControl body → ¬ PositionalError rpcInvalidAddressOrKey j) := by
  constructor
  · refine fun h j hj => ⟨fun hstatus hmis => ?_, fun hrep => ?_, fun hcontrol hpos => ?_⟩
    · have hnot : ∀ j', parse body = some j' → ¬ IsEnvelope j' := by
        intro j' hj'
        rw [hj, Option.some.injEq] at hj'
        exact hj' ▸ ((misread_iff j).1 hmis).1
      obtain ⟨text, hcall, -⟩ := h.status hstatus hnot
      exact (call_eq_httpStatus_iff hauth hbody hstatus hnot).1 ⟨text, hcall⟩ j hj hmis
    · obtain ⟨fields, e, code, message, rfl, herr, hobj, -⟩ := id hrep
      have hen : IsErrorEnvelope (.obj fields) code message := ⟨fields, e, rfl, herr, hobj⟩
      exact (call_eq_rpc_iff hauth hbody hj hen).1 (h.method _ code message hj hen) hrep
    · obtain ⟨result, message, hread⟩ := decodeResponse_error_iff.2 (Or.inr hpos)
      obtain ⟨j', message', hj', hen⟩ := (h.vanished hcontrol).1
        (mempoolEntry_none_iff.2 ⟨message, (call_rpc_iff_read hauth hcontrol).2 ⟨j, result, hj, hread⟩⟩)
      rw [hj, Option.some.injEq] at hj'
      exact hpos.not_envelope ⟨message', hj' ▸ hen⟩
  · intro h
    refine ⟨fun hstatus hnot => ?_, fun j code message hj hen => ?_, fun hcontrol => ?_⟩
    · obtain ⟨text, hcall⟩ := (call_eq_httpStatus_iff hauth hbody hstatus hnot).2 (fun j hj => (h j hj).1 hstatus)
      exact ⟨text, hcall, rfl⟩
    · exact (call_eq_rpc_iff hauth hbody hj hen).2 (h j hj).2.1
    · rw [mempoolEntry_none_iff]
      constructor
      · rintro ⟨message, hcall⟩
        obtain ⟨j, result, hj, hread⟩ := (call_rpc_iff_read hauth hcontrol).1 hcall
        rcases decodeResponse_error_iff.1 ⟨result, message, hread⟩ with ⟨⟨message', hen⟩, -⟩ | hpos
        · exact ⟨j, message', hj, hen⟩
        · exact absurd hpos ((h j hj).2.2 hcontrol)
      · rintro ⟨j, message, hj, hen⟩
        exact ⟨message, (call_eq_rpc_iff hauth hcontrol hj hen).2 (h j hj).2.1⟩

end Classification

def asciiBytes (s : String) : List UInt8 := s.toList.map (fun ch => UInt8.ofNat ch.toNat)

/-- A gateway's own error body. -/
def gatewayBody : List UInt8 := asciiBytes "\x7b\"message\":\"Bad Gateway\"\x7d"

/-- The node's error body for a transaction it does not have. -/
def goneBody : List UInt8 :=
  asciiBytes "\x7b\"result\":null,\"error\":\x7b\"code\":-5,\"message\":\"Transaction not in mempool\"\x7d,\"id\":0\x7d"

def goneError : List (String × Json) := [("code", .int (-5)), ("message", .str "Transaction not in mempool")]

def goneFields : List (String × Json) := [("result", .null), ("error", .obj goneError), ("id", .int 0)]

/-- The parser on these two texts. -/
def gatewayParse (bytes : List UInt8) : Option Json :=
  if bytes = gatewayBody then some (.obj [("message", .str "Bad Gateway")])
  else if bytes = goneBody then some (.obj goneFields)
  else none

/-- A response in one piece, its length not declared. -/
def inOnePiece (status : ℕ) (body : List UInt8) : HttpResponse := ⟨status, none, [some body]⟩

theorem inOnePiece_within (status : ℕ) {body : List UInt8} {maxBody : ℕ} (h : body.length ≤ maxBody) :
    (inOnePiece status body).Within maxBody body :=
  ⟨fun _ h => (by cases h), ⟨[body], rfl, (List.append_nil _).symm⟩, h⟩

/-- The node's own 500 is classified, and so is a gateway's text. -/
theorem failures_classified_gone :
    call gatewayParse (decodeEntry .decimal) (some (inOnePiece 500 goneBody)) maxBodyControl =
      .error (.rpc (-5) "Transaction not in mempool") ∧
    mempoolEntry .decimal gatewayParse (some (inOnePiece 500 goneBody)) = .ok none ∧
    ∃ text, call gatewayParse (decodeEntry .decimal) (some (inOnePiece 502 (asciiBytes "Bad Gateway"))) maxBodyControl =
      .error (.httpStatus 502 text) := by
  have hparse : gatewayParse goneBody = some (.obj goneFields) := (if_neg (by decide)).trans (if_pos rfl)
  have hbody := inOnePiece_within 500 (show goneBody.length ≤ maxBodyControl by decide)
  have hen : IsErrorEnvelope (.obj goneFields) (-5) "Transaction not in mempool" :=
    ⟨goneFields, goneError, rfl, by simp [goneFields], by simp [IsErrorObject, goneError]⟩
  have hgone := (failures_classified_iff .decimal gatewayParse (decodeEntry .decimal) (inOnePiece 500 goneBody)
    maxBodyControl goneBody (by decide) hbody).2 (fun j hj => by
      rw [hparse, Option.some.injEq] at hj
      subst hj
      refine ⟨fun _ h => ?_, fun h => ?_, fun _ h => ?_⟩
      · simp [Misread, goneFields, valuesOf] at h
      · obtain ⟨fields, e, code, message, hf, herr, -, hgt⟩ := h
        obtain rfl := Json.obj.inj hf
        have he : e = goneError := by simpa [goneFields] using herr
        subst he
        simp [goneFields, goneError, valuesOf] at hgt
      · obtain ⟨-, e, message, he, hpair, -⟩ := h
        have hobj : e = .obj goneError := by simpa [goneFields, valuesOf, eq_comm] using he
        rw [hobj] at hpair
        cases hpair)
  have hnone : gatewayParse (asciiBytes "Bad Gateway") = none := (if_neg (by decide)).trans (if_neg (by decide))
  have hno : ∀ j, gatewayParse (asciiBytes "Bad Gateway") ≠ some j := fun j hj => by
    rw [hnone] at hj
    cases hj
  have htext := (failures_classified_iff .decimal gatewayParse (decodeEntry .decimal)
    (inOnePiece 502 (asciiBytes "Bad Gateway")) maxBodyControl _ (by decide) (inOnePiece_within 502 (by decide))).2
    (fun j hj => absurd hj (hno j))
  obtain ⟨text, hcall, -⟩ := htext.status (by decide) (fun j hj => absurd hj (hno j))
  exact ⟨hgone.method _ _ _ hparse hen, (hgone.vanished hbody).2 ⟨_, _, hparse, hen⟩, text, hcall⟩

/-- **A gateway's 502 is no HTTP failure**: its body passes for an envelope without a result, and the client is not
rebuilt. -/
theorem gateway_misclassified : call gatewayParse (decodeEntry .decimal) (some (inOnePiece 502 gatewayBody)) maxBodyControl =
      .error .decode ∧ RpcError.decode.isReconnectable = false ∧
    ¬ Classified .decimal gatewayParse (decodeEntry .decimal) (inOnePiece 502 gatewayBody) maxBodyControl gatewayBody := by
  have hparse : gatewayParse gatewayBody = some (.obj [("message", .str "Bad Gateway")]) := if_pos rfl
  have hcall : call gatewayParse (decodeEntry .decimal) (some (inOnePiece 502 gatewayBody)) maxBodyControl = .error .decode := by
    rw [call_of_within (by decide) (inOnePiece_within 502 (by decide)), hparse]
    rfl
  have henv : ∀ j, gatewayParse gatewayBody = some j → ¬ IsEnvelope j := by
    intro j hj
    rw [hparse, Option.some.injEq] at hj
    subst hj
    rintro ⟨fields, hf, hor⟩
    obtain rfl := Json.obj.inj hf
    simp at hor
  refine ⟨hcall, rfl, fun h => ?_⟩
  obtain ⟨text, htext, -⟩ := h.status (by decide) henv
  rw [hcall] at htext
  cases htext

end Rpc
end Satya
