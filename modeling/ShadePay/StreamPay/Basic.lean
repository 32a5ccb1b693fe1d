import ShadePay.Evm.Basic
import ShadePay.Lib.Reentrancy

/-!
# The streaming contract

`contracts/arc/src/StreamPay.sol`. `withdraw` and `stop` hand control to the payee and the payer
before they have finished, so the contract is a `Reentrancy.Machine`: an entry point runs up to its
first external call, and a `Kont` holds the local variables that are live across one. The balance
moves when a call is made. Outside of the contract time passes between transactions, and Ether may
be forced onto the contract at any moment.

`sent` lists the value that left, and is written and never read.
-/

namespace ShadePay.StreamPay

open Guard Evm

/-- A stream id, `bytes32`. -/
abbrev Id : Type := BitVec 256

/-- The reverts, by their names in the source. -/
inductive Error where
  | streamExists
  | noStream
  | badArgs
  | notPayer
  | notPayee
  | notActive
  | notPaused
  | alreadyClosed
  | nothingToWithdraw
  | transferFailed
  /-- Checked arithmetic. -/
  | panic
  /-- Value sent to a function that is not payable. -/
  | notPayable
deriving DecidableEq

/-- `Stream`. -/
structure Stream where
  payer : Address
  payee : Address
  ratePerSecond : ℕ
  deposited : ℕ
  accrued : ℕ
  withdrawn : ℕ
  lastTick : ℕ
  active : Bool
  closed : Bool
deriving DecidableEq

/-- The events. -/
inductive Event where
  | opened (id : Id) (payer payee : Address) (ratePerSecond deposited : ℕ)
  | withdrawn (id : Id) (amount totalPaid : ℕ)
  | paused (id : Id) (accrued : ℕ)
  | resumed (id : Id)
  | stopped (id : Id) (paidToPayee refundToPayer : ℕ)
deriving DecidableEq

/-- Value that left the contract for a stream: to its payee, or back to its payer. -/
inductive Sent where
  | payout (id : Id) (recipient : Address) (amount : ℕ)
  | refund (id : Id) (recipient : Address) (amount : ℕ)
deriving DecidableEq

/-- The contract's storage and balance, the block's timestamp, and the log of events with the time
of each. -/
structure State where
  streams : Id → Stream
  balance : ℕ
  timestamp : ℕ
  events : List (ℕ × Event)
  sent : List Sent

/-- A mapping entry nobody has written. -/
def Stream.zero : Stream := ⟨0, 0, 0, 0, 0, 0, 0, false, false⟩

/-- The deployed contract. -/
def construct (timestamp : ℕ) : State := ⟨fun _ => .zero, 0, timestamp, [], []⟩

/-- The functions. -/
inductive Call where
  | open (id : Id) (payee : Address) (ratePerSecond : ℕ)
  | withdraw (id : Id)
  | pause (id : Id)
  | resume (id : Id)
  | stop (id : Id)
deriving DecidableEq

/-- A message call to the contract at `addr`: nobody sends from the zero address, and the contract
makes no call of its own interface. -/
structure Entry (addr : Address) where
  sender : Address
  value : ℕ
  call : Call
  sender_ne_zero : sender ≠ 0
  sender_ne_addr : sender ≠ addr

/-- Where a call waits for the account it sent value to. -/
inductive Kont where
  /-- The payee in `withdraw`. -/
  | withdrawing (id : Id) (amount : ℕ)
  /-- The payee in `stop`, with the refund still to be sent. -/
  | stopPaying (id : Id) (toPayee refund : ℕ)
  /-- The payer in `stop`. -/
  | stopRefunding (id : Id) (toPayee refund : ℕ)
deriving DecidableEq

/-! ## Functions -/

/-- `uint256` addition. -/
def checkedAdd (x y : ℕ) : Except Error ℕ := do
  require (x + y < 2 ^ 256) .panic
  return x + y

/-- `uint256` subtraction. -/
def checkedSub (x y : ℕ) : Except Error ℕ := do
  require (y ≤ x) .panic
  return x - y

/-- `uint256` multiplication. -/
def checkedMul (x y : ℕ) : Except Error ℕ := do
  require (x * y < 2 ^ 256) .panic
  return x * y

/-- `uint64(x)`. -/
def uint64 (x : ℕ) : ℕ := x % 2 ^ 64

namespace State

variable (addr : Address) (s : State)

/-- Write a stream. -/
def setStream (id : Id) (st : Stream) : State :=
  { s with streams := Function.update s.streams id st }

/-- `emit`. -/
def emit (e : Event) : State := { s with events := s.events ++ [(s.timestamp, e)] }

/-- `recipient.call{value: amount}("")`, up to the point where the recipient runs. The contract has
no `receive`, so it cannot pay itself. -/
def send (recipient : Address) (amount : ℕ) (entry : Sent) : Except Error State := do
  require (amount ≤ s.balance) .transferFailed
  require (recipient ≠ addr) .transferFailed
  return { s with balance := s.balance - amount, sent := s.sent ++ [entry] }

/-- `earned`. -/
def earned (id : Id) : Except Error ℕ := do
  let st := s.streams id
  let total ←
    if st.active && !st.closed then do
      let elapsed ← checkedSub s.timestamp st.lastTick
      let live ← checkedMul st.ratePerSecond elapsed
      checkedAdd st.accrued live
    else .ok st.accrued
  return if st.deposited < total then st.deposited else total

/-- `withdrawable`. -/
def withdrawable (id : Id) : Except Error ℕ := do
  let total ← s.earned id
  checkedSub total (s.streams id).withdrawn

/-- `_advance`: the stream with `accrued` brought up to now. -/
def advance (st : Stream) : Except Error Stream := do
  let st₁ ←
    if st.active && !st.closed then do
      let elapsed ← checkedSub s.timestamp st.lastTick
      let live ← checkedMul st.ratePerSecond elapsed
      let total ← checkedAdd st.accrued live
      pure { st with accrued := if st.deposited < total then st.deposited else total }
    else .ok st
  return { st₁ with lastTick := uint64 s.timestamp }

/-- `open`, after `msg.value` has been credited. -/
def openStream (sender : Address) (value : ℕ) (id : Id) (payee : Address) (ratePerSecond : ℕ) :
    Except Error State := do
  require ((s.streams id).payer = 0) .streamExists
  require (value ≠ 0 ∧ ratePerSecond ≠ 0 ∧ payee ≠ 0) .badArgs
  return (s.setStream id
    ⟨sender, payee, ratePerSecond, value, 0, 0, uint64 s.timestamp, true, false⟩).emit
      (.opened id sender payee ratePerSecond value)

/-- `withdraw`, up to the payee. -/
def withdraw (sender : Address) (id : Id) : Except Error (State × Option Kont) := do
  require ((s.streams id).payee ≠ 0) .noStream
  require (sender = (s.streams id).payee) .notPayee
  let st ← s.advance (s.streams id)
  let amount ← checkedSub st.accrued st.withdrawn
  require (amount ≠ 0) .nothingToWithdraw
  let withdrawn ← checkedAdd st.withdrawn amount
  let s₁ ← (s.setStream id { st with withdrawn := withdrawn }).send addr st.payee amount
    (.payout id st.payee amount)
  return (s₁, some (.withdrawing id amount))

/-- `pause`. -/
def pause (sender : Address) (id : Id) : Except Error State := do
  require (sender = (s.streams id).payer) .notPayer
  require ((s.streams id).active = true ∧ (s.streams id).closed = false) .notActive
  let st ← s.advance (s.streams id)
  return (s.setStream id { st with active := false }).emit (.paused id st.accrued)

/-- `resume`. -/
def resume (sender : Address) (id : Id) : Except Error State := do
  require (sender = (s.streams id).payer) .notPayer
  require ((s.streams id).closed = false ∧ (s.streams id).active = false) .notPaused
  return (s.setStream id
    { s.streams id with active := true, lastTick := uint64 s.timestamp }).emit (.resumed id)

/-- The end of `stop`, from the refund on. -/
def stopRefund (id : Id) (toPayee refund : ℕ) : Except Error (State × Option Kont) := do
  if 0 < refund then
    let s₁ ← s.send addr (s.streams id).payer refund (.refund id (s.streams id).payer refund)
    return (s₁, some (.stopRefunding id toPayee refund))
  else return (s.emit (.stopped id toPayee refund), none)

/-- `stop`, up to the first account it pays. -/
def stop (sender : Address) (id : Id) : Except Error (State × Option Kont) := do
  require (sender = (s.streams id).payer) .notPayer
  require ((s.streams id).closed = false) .alreadyClosed
  let st ← s.advance (s.streams id)
  let toPayee ← checkedSub st.accrued st.withdrawn
  let refund ← checkedSub st.deposited st.accrued
  let s₁ := s.setStream id { st with closed := true, active := false, withdrawn := st.accrued }
  if 0 < toPayee then
    let s₂ ← s₁.send addr st.payee toPayee (.payout id st.payee toPayee)
    return (s₂, some (.stopPaying id toPayee refund))
  else s₁.stopRefund addr id toPayee refund

end State

/-! ## The machine -/

/-- What happens outside: time passes between transactions, Ether is forced onto the contract. -/
inductive Action where
  | wait (seconds : ℕ)
  | receive (amount : ℕ)



/-- Run a message call up to its first external call. -/
def enter {addr : Address} (e : Entry addr) (s : State) : Except Error (State × Option Kont) :=
  match e.call with
  | .open id payee rate => do
      let s' ← { s with balance := s.balance + e.value }.openStream e.sender e.value id payee rate
      return (s', none)
  | .withdraw id => do
      require (e.value = 0) .notPayable
      s.withdraw addr e.sender id
  | .pause id => do
      require (e.value = 0) .notPayable
      let s' ← s.pause e.sender id
      return (s', none)
  | .resume id => do
      require (e.value = 0) .notPayable
      let s' ← s.resume e.sender id
      return (s', none)
  | .stop id => do
      require (e.value = 0) .notPayable
      s.stop addr e.sender id

/-- Go on after the account that was paid has returned. -/
def proceed (addr : Address) (k : Kont) (s : State) : Except Error (State × Option Kont) :=
  match k with
  | .withdrawing id amount =>
      .ok (s.emit (.withdrawn id amount (s.streams id).withdrawn), none)
  | .stopPaying id toPayee refund => s.stopRefund addr id toPayee refund
  | .stopRefunding id toPayee refund => .ok (s.emit (.stopped id toPayee refund), none)

/-- The contract at `addr` as a machine. -/
def machine (addr : Address) : Reentrancy.Machine State (Entry addr) Kont Action where
  enter e s := (enter e s).toOption
  resume k s := (proceed addr k s).toOption
  act K a s :=
    match a with
    | .wait seconds => if K.isEmpty then some { s with timestamp := s.timestamp + seconds } else none
    | .receive amount => some { s with balance := s.balance + amount }

/-- A configuration reachable from deployment at `t₀`. -/
abbrev Reachable (addr : Address) (t₀ : ℕ) :
    List (Reentrancy.Pending State (Entry addr) Kont) →
      Reentrancy.World State (Entry addr) Kont → Prop :=
  Reentrancy.Reach (machine addr) [] (construct t₀, [])

end ShadePay.StreamPay
