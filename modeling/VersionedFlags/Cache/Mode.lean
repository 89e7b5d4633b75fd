/-!
# How long cached entries live

Durations and clock readings count nanoseconds.  A clock reading has a signed
64-bit count of seconds, so adding a lifetime to it can pass the last one.
-/

namespace VersionedFlags

def nanosPerSecond : Nat := 1_000_000_000

/-! ## Clock readings -/

structure Instant where
  nanos : Nat
  deriving DecidableEq, Repr

namespace Instant

def limit : Nat := nanosPerSecond <<< 63

/-- The reading after a while, unless it lies past the last one. -/
def after? (now : Instant) (nanos : Nat) : Option Instant :=
  if now.nanos + nanos < limit then some ⟨now.nanos + nanos⟩ else none

end Instant

namespace Cache

inductive Mode where
  /-- Every call goes to the backend. -/
  | disabled
  /-- Entries live for a number of nanoseconds. -/
  | ttl (nanos : Nat)
  /-- Entries live until they are replaced or dropped. -/
  | forever
  deriving DecidableEq, Repr

namespace Mode

def standard : Mode := .ttl (15 * nanosPerSecond)

/-- A lifetime of zero is one without end. -/
def ofNanos (nanos : Nat) : Mode := if nanos = 0 then .forever else .ttl nanos

/-- A negative lifetime is one without end as well. -/
def ofSeconds (seconds : Int) : Mode := ofNanos (seconds.toNat * nanosPerSecond)

def isEnabled (mode : Mode) : Bool := mode != .disabled

def isInfinite (mode : Mode) : Bool := mode == .forever

def isStandard (mode : Mode) : Bool := mode == standard

/-- When an entry made now expires, if ever; `none` when that moment is past
the last clock reading. -/
def expiry? (mode : Mode) (now : Instant) : Option (Option Instant) :=
  match mode with
  | .ttl nanos => (now.after? nanos).map some
  | .disabled | .forever => some none

end Mode

end Cache

end VersionedFlags
