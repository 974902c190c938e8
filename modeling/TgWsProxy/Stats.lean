import Mathlib.Logic.Basic

/-!
# Counters

`Stats` of `stats.rs`, shared by every proxy of the process. The counters are `u64`; as numbers
they do not wrap.
-/

namespace TgWsProxy

/-- `Counters`. -/
structure Stats where
  connectionsTotal : Nat := 0
  connectionsActive : Nat := 0
  connectionsBad : Nat := 0
  connectionsMasked : Nat := 0
  connectionsWs : Nat := 0
  connectionsCfproxy : Nat := 0
  connectionsH2 : Nat := 0
  h2Errors : Nat := 0
  connectionsTcpFallback : Nat := 0
  connectionsFronting : Nat := 0
  rejected : Nat := 0
  wsErrors : Nat := 0
  poolHits : Nat := 0
  poolMisses : Nat := 0
  deriving DecidableEq

namespace Stats

/-- A connection begins. -/
def accepted (s : Stats) : Stats := { s with
  connectionsTotal := s.connectionsTotal + 1
  connectionsActive := s.connectionsActive + 1 }

/-- A connection ends; the subtraction is saturating. -/
def closed (s : Stats) : Stats := { s with connectionsActive := s.connectionsActive - 1 }

/-- A socket is turned away. -/
def reject (s : Stats) : Stats := { s with rejected := s.rejected + 1 }

def bad (s : Stats) : Stats := { s with connectionsBad := s.connectionsBad + 1 }

def masked (s : Stats) : Stats := { s with connectionsMasked := s.connectionsMasked + 1 }

def ws (s : Stats) : Stats := { s with connectionsWs := s.connectionsWs + 1 }

def cf (s : Stats) : Stats := { s with connectionsCfproxy := s.connectionsCfproxy + 1 }

def h2 (s : Stats) : Stats := { s with connectionsH2 := s.connectionsH2 + 1 }

def h2Error (s : Stats) : Stats := { s with h2Errors := s.h2Errors + 1 }

def tcp (s : Stats) : Stats := { s with connectionsTcpFallback := s.connectionsTcpFallback + 1 }

def fronting (s : Stats) : Stats := { s with connectionsFronting := s.connectionsFronting + 1 }

def wsError (s : Stats) : Stats := { s with wsErrors := s.wsErrors + 1 }

def poolHit (s : Stats) : Stats := { s with poolHits := s.poolHits + 1 }

def poolMiss (s : Stats) : Stats := { s with poolMisses := s.poolMisses + 1 }

end Stats

end TgWsProxy
