import Dossier.Session.Connection

/-!
# The pool of connections

A `Pool` lends out at most `size` connections. The one that came back last is lent out next; a new one
is opened only when none waits. A closed pool refuses whoever comes to it and keeps nothing that comes back,
but serves those that came before (`Pool.lend?`).
`Pool.status` tells how many connections wait, and how many are open.
-/

namespace Dossier

/-- The connections of a store: those that wait, the last to come back first, and the number of those
lent out. -/
structure Pool where
  size : Nat
  idle : List Handle
  borrowed : Nat
  closed : Bool
deriving DecidableEq, Repr

/-- Why a pool lends out no connection. -/
inductive Refusal
  | closed
  | exhausted
deriving DecidableEq, Repr

/-- The counters of a pool; `active` counts the sessions with an open transaction. -/
structure PoolStatus where
  idle : Nat
  opened : Nat
  max : Nat
  active : Nat
  closed : Bool
deriving DecidableEq, Repr

namespace Pool

/-- A pool before its first connection. -/
def start (size : Nat) : Pool := ⟨size, [], 0, false⟩

/-- The open connections, as long as the pool is. -/
def opened (p : Pool) : Nat := p.idle.length + p.borrowed

/-- Lends out a connection to a file, if one is left. -/
def lend? (p : Pool) (f : File) : Option (Handle × Pool) :=
  match p.idle with
  | h :: rest => some (h, { p with idle := rest, borrowed := p.borrowed + 1 })
  | [] => if p.borrowed < p.size then some (f.connect p.opened, { p with borrowed := p.borrowed + 1 }) else none

/-- Lends out a connection to a file to whoever comes now. -/
def acquire (p : Pool) (f : File) : Except Refusal (Handle × Pool) :=
  if p.closed then .error .closed
  else match p.lend? f with
    | some lent => .ok lent
    | none => .error .exhausted

/-- Takes a connection back. -/
def release (p : Pool) (h : Handle) : Pool :=
  { p with idle := if p.closed then [] else h :: p.idle, borrowed := p.borrowed - 1 }

/-- Closes the pool. -/
def close (p : Pool) : Pool := { p with idle := [], closed := true }

/-- The counters; a closed pool counts no connection. -/
def status (p : Pool) (active : Nat) : PoolStatus where
  idle := p.idle.length
  opened := if p.closed then 0 else p.opened
  max := p.size
  active := active
  closed := p.closed

end Pool

end Dossier
