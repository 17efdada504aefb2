import Jdbx.Library.CString

/-!
# Transactions

The parts of `transaction_t` that the lock manager and the transaction log
read.
-/

namespace Jdbx

open Library

inductive TransactionState where
  | active
  | committing
  | committed
  | aborting
  | aborted
  deriving DecidableEq, Repr

/-- `isolation_level_t`, without `ISOLATION_INVALID`. -/
inductive IsolationLevel where
  | readUncommitted
  | readCommitted
  | serializable
  deriving DecidableEq, Repr

structure Transaction where
  id : Bytes
  state : TransactionState
  startTime : Int64
  commitTime : Int64
  userId : Bytes
  isolationLevel : IsolationLevel
  deriving DecidableEq, Repr

/-- `transaction_state_to_string`. -/
def TransactionState.toBytes : TransactionState → Bytes
  | .active => ascii "active"
  | .committing => ascii "committing"
  | .committed => ascii "committed"
  | .aborting => ascii "aborting"
  | .aborted => ascii "aborted"

/-- `generate_transaction_id`, which formats into 40 bytes. -/
def generateTransactionId (now : Int64) (random : Nat) : Bytes :=
  let digits := decimal (random % 1000000)
  (ascii "tx_" ++ (formatInt64 now ++ 95 :: (List.replicate (6 - digits.length) 48 ++ digits))).take
    39

/-- `isolation_level_to_string`. -/
def IsolationLevel.toBytes : IsolationLevel → Bytes
  | .readUncommitted => ascii "read_uncommitted"
  | .readCommitted => ascii "read_committed"
  | .serializable => ascii "serializable"

end Jdbx
