import ContivVPP.K8sModel
import ContivVPP.ContivRule

/-!
# Contiv policies

The form in which the policy processor hands network policies to the policy
configurator.  Directions are seen from the pod.  A nil slice of pods or of IP
blocks is not the same as an empty one: only two nil slices match any peer.
-/

namespace ContivVPP.Configurator

open Net K8s

inductive PolicyType where
  | ingress
  | egress
  | all
  deriving DecidableEq, Repr

inductive MatchType where
  | ingress
  | egress
  deriving DecidableEq, Repr

inductive ProtocolType where
  | tcp
  | udp
  deriving DecidableEq, Repr

-- Number 0 stands for all ports of the protocol.
structure Port where
  protocol : ProtocolType
  number : UInt16
  deriving DecidableEq, Repr

def Port.string (port : Port) : String :=
  let protocol := if port.protocol = .udp then "UDP" else "TCP"
  if port.number = 0 then protocol ++ ":ANY"
  else protocol ++ ":" ++ toString port.number.toNat

structure IPBlock where
  network : IPNet
  except : List IPNet
  deriving DecidableEq, Repr

structure Match where
  type : MatchType
  pods : Option (List PodID)
  ipBlocks : Option (List IPBlock)
  ports : List Port
  deriving DecidableEq, Repr

structure ContivPolicy where
  id : PolicyID
  type : PolicyType
  matchList : List Match
  deriving DecidableEq, Repr

def ProtocolType.renderer : ProtocolType → Renderer.ProtocolType
  | .tcp => .tcp
  | .udp => .udp

end ContivVPP.Configurator
