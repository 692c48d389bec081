import DocaStdexec.Common.Framing
import DocaStdexec.Lib.Duplex
import DocaStdexec.Rdma.ConnectionSender

/-!
# `Rdma::connect`: the exchange of descriptors

Both peers export a descriptor and a connection, send the descriptor over a
socket and then read the other's.  Each of them writes its whole frame before it
reads, so the two can block each other: `connect_exchange` says what they agree
on and when that can happen.
-/

namespace DocaStdexec
namespace DescriptorExchange

open Lib
open Tcp Tcp.TcpSocket
open ConnectionSender (RdmaConnection)

/-- What `doca_rdma_export` returns. -/
structure Exported (κ : Type) where
  status : DocaError
  localDescriptor : List UInt8
  localConnection : κ

/-- `rdma_connection_sender`. -/
structure RdmaConnectionSender (κ ρ : Type) where
  connection : RdmaConnection κ ρ
  ctx : List UInt8

variable {κ ρ : Type}

/-- `Rdma::export_ctx`; `none` when `check_error` ends the process. -/
def exportCtx (rdma : ρ) (exported : Exported κ) : Option (List UInt8 × RdmaConnection κ ρ) :=
  if checkError exported.status then
    some (exported.localDescriptor, ⟨some exported.localConnection, some rdma⟩)
  else none

/-- `Rdma::connect`, a method on the given socket. -/
def connect (e : Endian) (rdma : ρ) (exported : Exported κ) :
    Option (SocketM (RdmaConnectionSender κ ρ)) :=
  (exportCtx rdma exported).map fun (exportedCtx, connection) => do
    sendDynamic e exportedCtx
    let receivedCtx ← receiveDynamic e defaultMaxSize
    pure ⟨connection, receivedCtx⟩

/-- A peer whose export succeeded writes the frame of its descriptor, reads the
other's frame, and returns its own connection with the other's descriptor. -/
theorem exchange_of_connect (e : Endian) {socket : TcpSocket} (hsocket : socket.isConnected = true)
    {rdma : ρ} {exported : Exported κ} {m : SocketM (RdmaConnectionSender κ ρ)}
    (hconnect : connect e rdma exported = some m) (other : List UInt8)
    (hother : other.length ≤ defaultMaxSize) :
    Exchange socket.fd
      (fun r => r = (.ok ⟨⟨some exported.localConnection, some rdma⟩, other⟩, socket))
      (frame e exported.localDescriptor) (frame e other) (m socket) := by
  obtain ⟨⟨ctx, connection⟩, hexport, rfl⟩ := Option.map_eq_some_iff.mp hconnect
  obtain ⟨-, hpair⟩ := Option.ite_none_right_eq_some.mp hexport
  obtain ⟨rfl, rfl⟩ := Prod.mk.inj (Option.some.inj hpair)
  have hwrite := sendDynamic_writes e hsocket exported.localDescriptor
  have hread := receiveDynamic_reads e hsocket other
    (hother.trans_lt (by decide)) hother
  rw [← List.append_nil (frame e exported.localDescriptor)]
  refine hwrite.bind_writes ?_
  rintro _ rfl
  refine hread.bind_done ?_
  rintro _ rfl
  exact .ret rfl

section Peers

variable (socket : Side → TcpSocket) (capacity : Side → Nat)
  (peer : Side → SocketM (RdmaConnectionSender κ ρ))

/-- Two peers on the two ends of one connection. -/
def peers : Duplex (Except SocketError (RdmaConnectionSender κ ρ) × TcpSocket) where
  fd i := (socket i).fd
  capacity := capacity
  program i := peer i (socket i)

/-- Each peer that returns holds exactly the other's descriptor, neither takes a
byte beyond the other's frame, and the two can block each other for ever exactly
when neither direction holds the frame written into it. -/
theorem connect_exchange (e : Endian) (hsocket : ∀ i, (socket i).isConnected = true)
    (hcapacity : ∀ i, 1 ≤ capacity i) (rdma : Side → ρ) (exported : Side → Exported κ)
    (hconnect : ∀ i, connect e (rdma i) (exported i) = some (peer i))
    (hsize : ∀ i, (exported i).localDescriptor.length ≤ 100 * 1024 * 1024) :
    (∀ s, (peers socket capacity peer).machine.Reachable s → ∀ i,
      (∀ r, s.program i = .ret r →
        r = (.ok ⟨⟨some (exported i).localConnection, some (rdma i)⟩,
          (exported i.other).localDescriptor⟩, socket i)) ∧
      s.consumed i <+: frame e (exported i.other).localDescriptor) ∧
    ((∃ s, (peers socket capacity peer).machine.Reachable s ∧
        Duplex.Stuck (peers socket capacity peer) s) ↔
      8 + (exported .a).localDescriptor.length > capacity .a ∧
      8 + (exported .b).localDescriptor.length > capacity .b) := by
  have hprogram (i : Side) := exchange_of_connect e (hsocket i) (hconnect i)
    (exported i.other).localDescriptor ((hsize i.other).trans (by decide))
  refine ⟨fun s hs i => ?_, ?_⟩
  · have hinv : Duplex.Inv (peers socket capacity peer)
        (fun i => frame e (exported i).localDescriptor) _ s :=
      Duplex.inv_of_reachable hprogram hs
    exact ⟨fun r hret => hinv.of_ret hret, hinv.consumed_prefix i⟩
  · have hstuck : (∃ s, (peers socket capacity peer).machine.Reachable s ∧
          Duplex.Stuck (peers socket capacity peer) s) ↔
        ∀ i, capacity i < (frame e (exported i).localDescriptor).length :=
      Duplex.exists_stuck_iff (d := peers socket capacity peer) hcapacity hprogram
    rw [hstuck]
    constructor
    · intro h
      exact ⟨by simpa [peers] using h .a, by simpa [peers] using h .b⟩
    · rintro ⟨ha, hb⟩ (_ | _)
      · simpa [peers] using ha
      · simpa [peers] using hb

/-- Two peers with descriptors of one byte block each other over buffers of
eight bytes. -/
theorem connect_exchange_blocks :
    ∃ peer : Side → SocketM (RdmaConnectionSender Nat Nat),
      (∀ i, connect .little 1 ⟨.success, [7], 5⟩ = some (peer i)) ∧
      ∃ s, (peers (fun _ => ⟨3, true⟩) (fun _ => 8) peer).machine.Reachable s ∧
        Duplex.Stuck (peers (fun _ => ⟨3, true⟩) (fun _ => 8) peer) s := by
  obtain ⟨m, hm⟩ : ∃ m, connect (κ := Nat) .little 1 ⟨.success, [7], 5⟩ = some m := ⟨_, rfl⟩
  have h := connect_exchange (fun _ => ⟨3, true⟩) (fun _ => 8) (fun _ => m) .little
    (fun _ => rfl) (fun _ => by decide) (fun _ => 1) (fun _ => ⟨.success, [7], 5⟩)
    (fun _ => hm) (fun _ => by decide)
  exact ⟨fun _ => m, fun _ => hm, h.2.mpr ⟨by decide, by decide⟩⟩

end Peers
end DescriptorExchange
end DocaStdexec
