import Satya.RpcAuth
import Satya.SyncTick
/-!
# Config — what the operator sets (`config.rs`)

A `Duration` is a count of nanoseconds; a socket address is carried as its text.
-/
namespace Satya

open Rpc (RpcAuth)
open Sync (SyncConfig)

def millisecond : ℕ := 10 ^ 6

/-- The parsed flags and variables. -/
structure Cli where
  rpcUrl : String := "http://127.0.0.1:8332"
  rpcCookieFile : Option String := none
  rpcUser : Option String := none
  rpcPass : Option String := none
  rpcTimeoutSecs : ℕ := 30
  httpBind : String := "127.0.0.1:8080"
  pollIntervalMs : ℕ := 2000
  fetchConcurrency : ℕ := 10
  zmqBlock : Option String := none
  tickBudgetMs : Option ℕ := none
  feeRecomputeMinIntervalMs : Option ℕ := none

structure RpcConfig where
  url : String
  auth : Option RpcAuth
  timeout : ℕ

structure Config where
  rpc : RpcConfig
  httpBind : String
  pollInterval : ℕ
  fetchConcurrency : ℕ
  zmqBlock : Option String
  tickBudget : ℕ
  feeRecomputeMinInterval : ℕ

/-- Floored at the poll interval. -/
def feeRecomputeInterval (requestedMs : Option ℕ) (pollMs : ℕ) : ℕ := max (requestedMs.getD 5000) pollMs * millisecond

/-- `Config::from_env` after the parse. -/
def Config.fromEnv (cli : Cli) : Config where
  rpc := {
    url := cli.rpcUrl
    auth := match cli.rpcCookieFile, cli.rpcUser, cli.rpcPass with
      | some path, _, _ => some (.cookie path)
      | none, some u, some p => some (.userPass u p)
      | _, _, _ => none
    timeout := cli.rpcTimeoutSecs * 10 ^ 9 }
  httpBind := cli.httpBind
  pollInterval := cli.pollIntervalMs * millisecond
  fetchConcurrency := max cli.fetchConcurrency 1
  zmqBlock := cli.zmqBlock
  -- `poll_interval_ms.saturating_mul(2)` of a `u64`
  tickBudget := max (cli.tickBudgetMs.getD (min (cli.pollIntervalMs * 2) (2 ^ 64 - 1))) cli.pollIntervalMs * millisecond
  feeRecomputeMinInterval := feeRecomputeInterval cli.feeRecomputeMinIntervalMs cli.pollIntervalMs

/-- What `main` hands to the loop. -/
def Config.sync (cfg : Config) : SyncConfig := ⟨cfg.tickBudget, cfg.feeRecomputeMinInterval⟩

/-- **Recomputes do not outpace the refresh.** -/
theorem Config.pollInterval_le (cli : Cli) :
    (Config.fromEnv cli).pollInterval ≤ (Config.fromEnv cli).sync.feeRecomputeMinInterval :=
  Nat.mul_le_mul_right _ (Nat.le_max_right _ _)

end Satya
