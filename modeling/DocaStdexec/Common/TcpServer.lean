import DocaStdexec.Common.TcpSocket

/-!
# `tcp::tcp_server`: listening and accepting

The methods of `tcp_server` that make, use and release its descriptor, written as they
stand in the source over the socket calls of `Lib.Socket`.  `stop` and the destructor
look at `listen_fd_`; `listen` and `accept` look at `listening_`.
-/

namespace DocaStdexec
namespace Tcp

open Lib Lib.Method

/-- Where a member of `tcp_server` throws `socket_error`. -/
inductive ServerError
  | alreadyListening
  | noSocket
  | noReuseAddr
  | notBound (port : UInt16)
  | notOpened (port : UInt16)
  | notListening
  | notAccepted
  deriving DecidableEq

/-- The texts of the exceptions. -/
def ServerError.what : ServerError → String
  | alreadyListening => "Server already listening"
  | noSocket => "Failed to create listen socket"
  | noReuseAddr => "Failed to set SO_REUSEADDR"
  | notBound port => "Failed to bind to port " ++ toString port
  | notOpened port => "Failed to listen on port " ++ toString port
  | notListening => "Server not listening"
  | notAccepted => "Failed to accept connection"

/-- The members of `tcp_server`. -/
structure TcpServer where
  listenFd : Int
  port : UInt16
  listening : Bool
  deriving DecidableEq

/-- A method of `tcp_server`. -/
abbrev ServerM := Method SysCall.Answer ServerError TcpServer

namespace TcpServer

/-- `tcp_server()`. -/
def idle : TcpServer := ⟨-1, 0, false⟩

/-- `stop`. -/
def stop {ε : Type} : Method SysCall.Answer ε TcpServer PUnit := do
  let s ← self
  if s.listenFd ≠ -1 then do
    let _ : Unit ← sys (SysCall.close s.listenFd)
    assign fun _ => idle
  else pure ⟨⟩

/-- The failures of `listen` that close the descriptor which it has just made. -/
def abandon (fd : Int) (err : ServerError) : ServerM PUnit := do
  let _ : Unit ← sys (SysCall.close fd)
  assign fun s => { s with listenFd := -1 }
  raise err

/-- The default argument of `listen`. -/
def defaultBacklog : Int := 128

/-- `listen`. -/
def listen (port : UInt16) (backlog : Int) : ServerM PUnit := do
  let s ← self
  if s.listening then raise .alreadyListening
  else
    let fd : Int ← sys SysCall.socket
    -- whatever `listen_fd_` was
    assign fun s => { s with listenFd := fd }
    if fd = -1 then raise .noSocket
    else
      let reused : Bool ← sys (SysCall.setsockopt fd)
      if !reused then abandon fd .noReuseAddr
      else
        let bound : Bool ← sys (SysCall.bind fd port.toNat)
        if !bound then abandon fd (.notBound port)
        else
          let opened : Bool ← sys (SysCall.listen fd backlog)
          if !opened then abandon fd (.notOpened port)
          else assign fun s => { s with port := port, listening := true }

/-- `accept`. -/
def accept : ServerM TcpSocket := do
  let s ← self
  if !s.listening then raise .notListening
  else
    let client : Int ← sys (SysCall.accept s.listenFd)
    if client = -1 then raise .notAccepted
    else pure ⟨client, true⟩

end TcpServer
end Tcp
end DocaStdexec
