/-!
# Channels

A channel keeps the last messages sent on it.  Every receiver reads the
messages sent since it subscribed, in order; one that falls behind further than
the channel reaches is told how many messages it lost.
-/

namespace VersionedFlags

structure Channel (α : Type) where
  sent : List α
  /-- For each receiver, how many messages lie behind it. -/
  positions : List Nat
  deriving DecidableEq, Repr

namespace Channel

variable {α : Type}

def capacity : Nat := 16

inductive Reading (α : Type) where
  | message (value : α)
  | lagged (lost : Nat)
  | empty
  deriving DecidableEq, Repr

def start : Channel α := ⟨[], []⟩

def send (channel : Channel α) (value : α) : Channel α :=
  { channel with sent := channel.sent ++ [value] }

/-- The number of the new receiver and the channel with it. -/
def subscribe (channel : Channel α) : Nat × Channel α :=
  (channel.positions.length,
    { channel with positions := channel.positions ++ [channel.sent.length] })

def moveTo (channel : Channel α) (receiver position : Nat) : Channel α :=
  { channel with positions := channel.positions.set receiver position }

/-- How many messages wait for a receiver, lost ones included. -/
def backlog (channel : Channel α) (receiver : Nat) : Nat :=
  match channel.positions[receiver]? with
  | some position => channel.sent.length - position
  | none => 0

def receive (channel : Channel α) (receiver : Nat) : Reading α × Channel α :=
  let position := channel.sent.length - channel.backlog receiver
  if capacity < channel.backlog receiver then
    let oldest := channel.sent.length - capacity
    (.lagged (oldest - position), channel.moveTo receiver oldest)
  else
    match channel.sent[position]? with
    | some value => (.message value, channel.moveTo receiver (position + 1))
    | none => (.empty, channel)

def drainWith (receiver : Nat) :
    Nat → Channel α → List (Reading α) × Channel α
  | 0, channel => ([], channel)
  | tries + 1, channel =>
      match channel.receive receiver with
      | (.empty, channel) => ([], channel)
      | (reading, channel) =>
          let (more, channel) := drainWith receiver tries channel
          (reading :: more, channel)

def drain (channel : Channel α) (receiver : Nat) :
    List (Reading α) × Channel α :=
  drainWith receiver (channel.backlog receiver + 1) channel

end Channel

end VersionedFlags
