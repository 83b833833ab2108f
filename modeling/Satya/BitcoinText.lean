import Mathlib.Data.Rat.Lemmas
import Mathlib.Tactic.FieldSimp
import Mathlib.Tactic.NormNum
import Satya.Rpc
/-!
# BitcoinText — txids, amounts and chain names in JSON

What the code uses of the `bitcoin` crate to write and read a txid and an amount, and to read the name of a chain: texts
that read back, amounts in BTC that are exact up to 21 million, and "main" for the main chain.  `BitcoinText.decimal` is
the documented format, in exact decimals.
-/
namespace Satya

def satsPerBtc : ℕ := 100000000

def maxMoney : ℕ := 21000000 * satsPerBtc

/-- `Display` and `FromStr` of a txid; `to_btc` and the reading half of `as_btc`; the reading half of `as_core_arg`. -/
structure BitcoinText where
  displayTxid : Txid → String
  parseTxid : String → Option Txid
  toBtc : ℕ → ℚ
  fromBtc : ℚ → Option ℕ
  fromCoreArg : String → Option Network
  parse_display : ∀ t, parseTxid (displayTxid t) = some t
  fromBtc_toBtc : ∀ sat ≤ maxMoney, fromBtc (toBtc sat) = some sat
  fromCoreArg_main : fromCoreArg "main" = some .bitcoin

theorem BitcoinText.displayTxid_injective (B : BitcoinText) : Function.Injective B.displayTxid := by
  intro t t' h
  have hparse := congrArg B.parseTxid h
  rwa [B.parse_display, B.parse_display, Option.some.injEq] at hparse

/-! ## The bytes of a txid, in hex -/

/-- The `n` lowest bytes of a number, the lowest first. -/
def leBytes : ℕ → ℕ → List ℕ
  | 0, _ => []
  | n + 1, t => t % 256 :: leBytes n (t / 256)

def ofLeBytes : List ℕ → ℕ
  | [] => 0
  | b :: bytes => b + 256 * ofLeBytes bytes

def hexPair (b : ℕ) : List Char := [Nat.digitChar (b / 16), Nat.digitChar (b % 16)]

def hexValue (c : Char) : Option ℕ :=
  if '0' ≤ c ∧ c ≤ '9' then some (c.toNat - '0'.toNat)
  else if 'a' ≤ c ∧ c ≤ 'f' then some (c.toNat - 'a'.toNat + 10)
  else if 'A' ≤ c ∧ c ≤ 'F' then some (c.toNat - 'A'.toNat + 10)
  else none

def parseHex : List Char → Option (List ℕ)
  | [] => some []
  | [_] => none
  | high :: low :: rest => do
    let h ← hexValue high
    let l ← hexValue low
    let bytes ← parseHex rest
    some ((16 * h + l) :: bytes)

/-- A txid is displayed with its last byte first. -/
def displayTxid (t : Txid) : String := String.ofList ((leBytes 32 t.val).flatMap hexPair)

def parseTxid (s : String) : Option Txid := do
  let bytes ← parseHex s.toList
  if h : bytes.length = 32 ∧ ofLeBytes bytes < 2 ^ 256 then some ⟨ofLeBytes bytes, h.2⟩ else none

theorem ofLeBytes_leBytes : ∀ (n t : ℕ), ofLeBytes (leBytes n t) = t % 256 ^ n
  | 0, t => by rw [pow_zero, Nat.mod_one]; rfl
  | n + 1, t => by
    unfold leBytes ofLeBytes
    rw [ofLeBytes_leBytes n, pow_succ', Nat.mod_mul]

theorem length_leBytes : ∀ (n t : ℕ), (leBytes n t).length = n
  | 0, _ => rfl
  | n + 1, t => by
    unfold leBytes
    rw [List.length_cons, length_leBytes n]

theorem leBytes_lt : ∀ (n t : ℕ), ∀ b ∈ leBytes n t, b < 256
  | 0, _, _, hb => absurd hb List.not_mem_nil
  | n + 1, t, b, hb => by
    unfold leBytes at hb
    rcases List.mem_cons.1 hb with rfl | hb
    · exact Nat.mod_lt _ (by decide)
    · exact leBytes_lt n _ b hb

theorem hexValue_digitChar : ∀ d < 16, hexValue (Nat.digitChar d) = some d := by decide

theorem parseHex_flatMap : ∀ (bytes : List ℕ), (∀ b ∈ bytes, b < 256) → parseHex (bytes.flatMap hexPair) = some bytes
  | [], _ => rfl
  | b :: bytes, h => by
    have hb := h b List.mem_cons_self
    have hrest := parseHex_flatMap bytes (fun c hc => h c (List.mem_cons_of_mem b hc))
    show parseHex (Nat.digitChar (b / 16) :: Nat.digitChar (b % 16) :: bytes.flatMap hexPair) = _
    unfold parseHex
    rw [hexValue_digitChar (b / 16) (by omega), hexValue_digitChar (b % 16) (by omega), hrest]
    simp only [Option.bind_eq_bind, Option.bind_some]
    rw [Nat.div_add_mod]

/-- **A displayed txid is read back.** -/
theorem parseTxid_displayTxid (t : Txid) : parseTxid (displayTxid t) = some t := by
  have hvalue : ofLeBytes (leBytes 32 t.val) = t.val := by
    rw [ofLeBytes_leBytes]
    exact Nat.mod_eq_of_lt (lt_of_lt_of_eq t.isLt (by norm_num))
  unfold parseTxid displayTxid
  rw [String.toList_ofList, parseHex_flatMap _ (leBytes_lt 32 t.val)]
  simp only [Option.bind_eq_bind, Option.bind_some]
  rw [dif_pos ⟨length_leBytes 32 t.val, by rw [hvalue]; exact t.isLt⟩]
  exact congrArg some (Fin.ext hvalue)

/-! ## Amounts in BTC -/

def toBtc (sat : ℕ) : ℚ := sat / satsPerBtc

/-- A non-negative decimal of at most eight places, in range. -/
def fromBtc (q : ℚ) : Option ℕ :=
  let sat := q * satsPerBtc
  if 0 ≤ sat ∧ sat.den = 1 ∧ sat.num < 2 ^ 64 then some sat.num.toNat else none

theorem fromBtc_toBtc {sat : ℕ} (h : sat ≤ maxMoney) : fromBtc (toBtc sat) = some sat := by
  have hsat : toBtc sat * satsPerBtc = sat := by
    unfold toBtc satsPerBtc
    norm_num
  have hlt : sat < 2 ^ 64 := lt_of_le_of_lt h (by unfold maxMoney satsPerBtc; norm_num)
  unfold fromBtc
  rw [hsat, if_pos ⟨Nat.cast_nonneg sat, Rat.den_natCast sat, by rw [Rat.num_natCast]; exact_mod_cast hlt⟩,
    Rat.num_natCast, Int.toNat_natCast]

/-- Core's names of the chains. -/
def fromCoreArg : String → Option Network
  | "main" => some .bitcoin
  | "test" => some .testnet
  | "testnet4" => some .testnet4
  | "signet" => some .signet
  | "regtest" => some .regtest
  | _ => none

/-- The documented format. -/
def BitcoinText.decimal : BitcoinText where
  displayTxid := Satya.displayTxid
  parseTxid := Satya.parseTxid
  toBtc := Satya.toBtc
  fromBtc := Satya.fromBtc
  fromCoreArg := Satya.fromCoreArg
  parse_display := parseTxid_displayTxid
  fromBtc_toBtc _ h := Satya.fromBtc_toBtc h
  fromCoreArg_main := rfl

end Satya
