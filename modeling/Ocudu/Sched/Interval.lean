import Ocudu.Basic.Machine

/-! `interval.h` -/

namespace Ocudu.Sched

@[ext] structure Interval where
  start : Nat
  stop : Nat
  deriving DecidableEq, Inhabited

namespace Interval

def startAndLen (start len : Nat) : Interval := ⟨start, start + len⟩

def length (i : Interval) : Nat := i.stop - i.start

def overlaps (i other : Interval) : Bool := decide (i.start < other.stop) && decide (other.start < i.stop)

def contains (i : Interval) (point : Nat) : Bool := decide (i.start ≤ point) && decide (point < i.stop)

def points (i : Interval) : List Nat := List.range' i.start i.length

end Interval

/-- The constructor asserts the order. -/
structure OrderedInterval extends Interval where
  start_le_stop : start ≤ stop

namespace OrderedInterval

def isEmpty (i : OrderedInterval) : Bool := i.stop == i.start

def containsInterval (i other : OrderedInterval) : Bool :=
  decide (i.start ≤ other.start) && decide (other.stop ≤ i.stop)

theorem singleton_le (point : Nat) : point ≤ point + 1 := Nat.le_succ point

def singleton (point : Nat) : OrderedInterval := ⟨⟨point, point + 1⟩, singleton_le point⟩

end OrderedInterval

end Ocudu.Sched
