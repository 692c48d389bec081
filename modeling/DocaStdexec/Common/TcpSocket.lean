import DocaStdexec.Lib.ByteOrder
import DocaStdexec.Lib.Socket

/-!
# `tcp::tcp_socket`: sending and receiving

The transfer methods of `tcp_socket`, written as they stand in the source over
the socket calls of `Lib.Socket`.  `send` and `receive` make one call each;
`send_all` and `receive_all` repeat them; `send_dynamic` and `receive_dynamic`
put a length prefix in front of the payload.

The prefix is the 8 bytes of a `std::size_t` in host order whose value is
`htonl` of the payload's length, so only 32 bits of the length take part.
-/

namespace DocaStdexec
namespace Tcp

open Lib Lib.Method

/-- The members of `tcp_socket`. -/
structure TcpSocket where
  fd : Int
  connected : Bool
  deriving DecidableEq

/-- Where a transfer method throws `socket_error`. -/
inductive SocketError
  | notConnected
  | sendFailed
  | closedDuringSendAll
  | receiveFailed
  | closedDuringReceiveAll
  | tooLarge (size maxSize : Nat)
  deriving DecidableEq

/-- The texts of the exceptions. -/
def SocketError.what : SocketError → String
  | notConnected => "Socket not connected"
  | sendFailed => "Failed to send data"
  | closedDuringSendAll => "Connection closed during send_all"
  | receiveFailed => "Failed to receive data"
  | closedDuringReceiveAll => "Connection closed during receive_all"
  | tooLarge size maxSize =>
      "Message too large: " ++ toString size ++ " bytes (max: " ++ toString maxSize ++ ")"

/-- A method of `tcp_socket`. -/
abbrev SocketM := Method SysCall.Answer SocketError TcpSocket

/-- Code of `tcp_socket` that fills a caller's buffer. -/
abbrev BufferM := Method SysCall.Answer SocketError (TcpSocket × List UInt8)

namespace TcpSocket

/-- `is_connected`. -/
def isConnected (s : TcpSocket) : Bool := s.connected && s.fd != -1

/-- `connected_ = false`. -/
def disconnected (s : TcpSocket) : TcpSocket := { s with connected := false }

/-- `send`: the number of bytes sent, 0 when the call would block. -/
def send (data : List UInt8) : SocketM Nat := do
  let s ← self
  if !s.isConnected then raise .notConnected
  else
    let result : Transfer Nat ← sys (SysCall.send s.fd data)
    match result with
    | .done sent => pure sent
    | .failed err =>
        if err.wouldBlock then pure 0
        else do
          assign disconnected
          raise .sendFailed

/-- The loop of `send_all`, with `total_sent` bytes already sent. -/
def sendAllFrom (data : List UInt8) (totalSent : Nat) : SocketM PUnit :=
  if totalSent < data.length then do
    let sent ← send (data.drop totalSent)
    -- 0 also stands for a call that would block
    if sent = 0 then raise .closedDuringSendAll
    else sendAllFrom data (totalSent + sent)
  else pure ⟨⟩
termination_by data.length - totalSent

/-- `send_all`. -/
def sendAll (data : List UInt8) : SocketM PUnit := sendAllFrom data 0

/-- `receive(buffer.subspan(offset))`: the bytes that arrive are written into
the buffer at `offset`, and their number is returned, 0 when the call would
block and at the end of the stream. -/
def receive (offset : Nat) : BufferM Nat := do
  let (s, buffer) ← self
  if !s.isConnected then raise .notConnected
  else
    let result : Transfer (List UInt8) ← sys (SysCall.recv s.fd (buffer.length - offset))
    match result with
    | .failed err =>
        if err.wouldBlock then pure 0
        else do
          assign fun (s, buffer) => (s.disconnected, buffer)
          raise .receiveFailed
    | .done bytes =>
        -- the peer closed the connection
        if bytes.length = 0 then do
          assign fun (s, buffer) => (s.disconnected, buffer)
          pure 0
        else do
          assign fun (s, buffer) =>
            (s, buffer.take offset ++ bytes ++ buffer.drop (offset + bytes.length))
          pure bytes.length

/-- The loop of `receive_all` on a buffer of `size` bytes, of which
`totalReceived` have been filled. -/
def receiveAllFrom (size totalReceived : Nat) : BufferM PUnit :=
  if totalReceived < size then do
    let received ← receive totalReceived
    if received = 0 then raise .closedDuringReceiveAll
    else receiveAllFrom size (totalReceived + received)
  else pure ⟨⟩
termination_by size - totalReceived

/-- `receive_all`. -/
def receiveAll : BufferM PUnit := do
  let (_, buffer) ← self
  receiveAllFrom buffer.length 0

/-- `sizeof(std::size_t)` on a 64-bit host. -/
def prefixSize : Nat := 8

/-- `send_dynamic`.  The argument of `htonl` is converted to 32 bits, its result
back to `std::size_t`. -/
def sendDynamic (e : Endian) (data : List UInt8) : SocketM PUnit := do
  let networkSize := e.htonl data.length
  sendAll (e.toBytes prefixSize networkSize)
  sendAll data

/-- The default argument of `receive_dynamic`. -/
def defaultMaxSize : Nat := 1024 * 1024 * 100

/-- `receive_dynamic`.  Both buffers are locals; the contents they start with
are overwritten before they are read. -/
def receiveDynamic (e : Endian) (maxSize : Nat) : SocketM (List UInt8) := do
  let (_, networkSize) ← withLocal (List.replicate prefixSize 0) receiveAll
  let size := e.htonl (e.ofBytes networkSize)
  if size > maxSize then raise (.tooLarge size maxSize)
  else if size = 0 then pure []
  else do
    let (_, buffer) ← withLocal (List.replicate size 0) receiveAll
    pure buffer

end TcpSocket
end Tcp
end DocaStdexec
