-- Hardforks: named changes of the rules, in the order in which they may
-- become active.

namespace BlockLedger

inductive Hardfork where
  | aspidochelone
  | basilisk
  | cockatrice
  | domovoi
  | echidna
deriving DecidableEq

namespace Hardfork

/-- Every hardfork, the earliest first. -/
def all : List Hardfork := [aspidochelone, basilisk, cockatrice, domovoi, echidna]

def name : Hardfork → String
  | aspidochelone => "HfAspidochelone"
  | basilisk => "HfBasilisk"
  | cockatrice => "HfCockatrice"
  | domovoi => "HfDomovoi"
  | echidna => "HfEchidna"

def ofName? (s : String) : Option Hardfork := all.find? fun h => h.name = s

end Hardfork

/-- The heights at which hardforks become active, for those that do. -/
abbrev Schedule := Hardfork → Option UInt32

namespace Schedule

def set (s : Schedule) (h : Hardfork) (height : UInt32) : Schedule :=
  fun h' => if h' = h then some height else s h'

/-- The hardforks that have a height, in their order. -/
def toList (s : Schedule) : List (Hardfork × UInt32) :=
  Hardfork.all.filterMap fun h => (s h).map fun height => (h, height)

/-- A hardfork is active from its height on. -/
def isEnabled (s : Schedule) (h : Hardfork) (index : UInt32) : Bool :=
  match s h with
  | some height => height ≤ index
  | none => false

/-- The hardforks that become active at a height. -/
def activatingAt (s : Schedule) (index : UInt32) : List Hardfork :=
  (s.toList.filter fun e => e.2 = index).map (·.1)

end Schedule
end BlockLedger
