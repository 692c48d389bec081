import DocaStdexec.Buf.Lifecycle
import DocaStdexec.Common.Conversation
import DocaStdexec.Lib.Sequel
import DocaStdexec.Rdma.DescriptorExchange

/-!
# The loopback program

`client` and `server` of the loopback test, from the moment their socket is connected.
Both run `Rdma::connect`; then the client sends the descriptor of its exported memory,
the server writes into that memory and says so with the message "1".

The answers of DOCA are parameters.  A failing status ends the process in
`check_error`; the server's `upon_error` swallows every exception, so "1" follows a
write task that could not be allocated as well.

The connection operation has sent its value when DOCA reports the connection, and then
sends another one.  A server whose write is outstanding runs its continuation again, as
`let_value` does.  Where an end's work is complete its operations are gone: the model
follows the client until DOCA calls it back for the connection, and the server until DOCA
does so after the write.
-/

namespace DocaStdexec
namespace Loopback

open Lib Lib.Method
open Tcp Tcp.TcpSocket
open ConnectionSender (RdmaConnection)
open DescriptorExchange (Exported RdmaConnectionSender)

/-- Why an end stops before it is done. -/
inductive Abort
  /-- `exit(1)`, in `check_error` or by the client. -/
  | exited
  /-- `*mmap` of an empty `std::optional`, or `rdma->get()` of an empty `shared_ptr`. -/
  | undefined
  deriving DecidableEq

/-- The descriptor that an end has connected with, and that of the client's memory. -/
structure Descs where
  connected : List UInt8
  exported : List UInt8
  deriving DecidableEq

/-- How an end comes out, when it does. -/
inductive End
  | aborted (why : Abort)
  | client (descs : Descs)
  /-- Without descriptors where the server's work threw before it had both. -/
  | server (descs : Option Descs)
  deriving DecidableEq

/-- What DOCA answers the client: the statuses before `rdma->connect`, in the
connection operation, up to the export of its mmap, for its buffer, and at the end. -/
structure ClientDoca (κ : Type) where
  opened : List DocaError
  exported : Exported κ
  setUserData : DocaError
  connect : DocaError
  mapped : List DocaError
  exportDesc : List UInt8
  /-- `doca_buf_inventory_buf_get_by_addr`, on an inventory that is started or is not. -/
  retrieve : Bool → DocaError
  buffer : List DocaError
  stopped : List DocaError

/-- What DOCA answers a run of the server's continuation: up to the start of its mmap,
what it assigns over included, and for the remote mmap, the inventory and the two
buffers. -/
structure Answers where
  prepared : List DocaError
  mapped : List DocaError
  deriving DecidableEq

/-- What the server's work gets after its write task was to be allocated. -/
inductive Write
  | completed
  /-- `Task::allocate` throws. -/
  | notAllocated
  /-- The task fails, or DOCA reports that the connection has. -/
  | failed (err : DocaError)
  /-- DOCA reports the connection while the write is outstanding. -/
  | reported (again : Answers)
  deriving DecidableEq

/-- What DOCA answers the server. -/
structure ServerDoca (κ : Type) where
  opened : List DocaError
  exported : Exported κ
  setUserData : DocaError
  connect : DocaError
  first : Answers
  write : Write
  stopped : List DocaError

variable {κ ρ α : Type}

/-- Code behind some calls of `check_error`. -/
def checked (statuses : List DocaError) (m : SocketM (Except Abort α)) :
    SocketM (Except Abort α) :=
  if statuses.all checkError then m else pure (.error .exited)

/-- `upon_error`. -/
def uponError (m : SocketM α) (handler : SocketError → SocketM α) : SocketM α := fun s =>
  (m s).bind fun
    | (.ok a, s') => .ret (.ok a, s')
    | (.error err, s') => handler err s'

/-- The end of a thread that may have stopped before. -/
def finish : Except Abort End → End
  | .ok result => result
  | .error why => .aborted why

/-- The message "1". -/
def done : List UInt8 := [0x31]

/-- An end that has its descriptors, with its connection operation. -/
structure Joined (κ ρ : Type) extends Descs where
  operation : ConnectionSender.State κ ρ

/-- The connection operation, started; its value goes to `k`. -/
def startConnection (sender : RdmaConnectionSender κ ρ) (setUserData connect : DocaError)
    (k : RdmaConnection κ ρ → SocketM (Except Abort Descs)) :
    SocketM (Except Abort (Joined κ ρ)) :=
  let operation := (ConnectionSender.State.init sender.connection).start setUserData connect
  checked [setUserData, connect] do
    let descs ← k sender.connection
    pure (descs.map fun descs => ⟨descs, operation⟩)

/-! ## The client -/

/-- `BufInventory(16)` of the client, which does not call `start` on it. -/
def bufInventory : Lifecycle.BufInventory := ⟨some 0, false⟩

/-- The client's `work`. -/
def clientWork (e : Endian) (rdma : ρ) (doca : ClientDoca κ) :
    SocketM (Except Abort (Joined κ ρ)) :=
  checked doca.opened <|
    match DescriptorExchange.connect e rdma doca.exported with
    | none => pure (.error .exited)
    | some exchange =>
        uponError
          (do
            let sender ← exchange
            startConnection sender doca.setUserData doca.connect fun _ =>
              checked doca.mapped <|
                uponError
                  (do
                    sendDynamic e doca.exportDesc
                    pure (.ok ⟨sender.ctx, doca.exportDesc⟩))
                  fun _ => pure (.ok ⟨sender.ctx, doca.exportDesc⟩))
          -- no mmap has been constructed
          fun _ => pure (.error .undefined)

/-- The rest of `client`: the buffer, the server's message and the cleanup. -/
def clientRest (e : Endian) (doca : ClientDoca κ) :
    Except Abort (Joined κ ρ) → SocketM End
  | .error why => pure (.aborted why)
  | .ok joined => do
      let finished ← checked (doca.retrieve bufInventory.started_ :: doca.buffer) do
        let message ← receiveDynamicString e defaultMaxSize
        if message ≠ done then pure (.error .exited)
        else checked doca.stopped (pure (.ok (.client joined.toDescs)))
      pure (finish finished)

/-- `client`. -/
def client (e : Endian) (rdma : ρ) (doca : ClientDoca κ) : SocketM End := do
  let work ← clientWork e rdma doca
  clientRest e doca work

/-! ## The server -/

/-- The continuation of the server's `let_value`, which the connection goes to, up to
its write: the descriptor that it maps. -/
def serverContinue (e : Endian) (answers : Answers) (connection : RdmaConnection κ ρ) :
    SocketM (Except Abort (List UInt8)) :=
  checked answers.prepared do
    let received ← receiveDynamic e defaultMaxSize
    checked answers.mapped <|
      match connection.rdma with
      | none => pure (.error .undefined)
      | some _ => pure (.ok received)

/-- The server's `work` up to its write. -/
def serverWrite (e : Endian) (rdma : ρ) (doca : ServerDoca κ) :
    SocketM (Except Abort (Joined κ ρ)) :=
  checked doca.opened <|
    match DescriptorExchange.connect e rdma doca.exported with
    | none => pure (.error .exited)
    | some exchange => do
        let sender ← exchange
        startConnection sender doca.setUserData doca.connect fun connection => do
          let received ← serverContinue e doca.first connection
          pure (received.map (.mk sender.ctx))

/-- What follows the write.  The connection operation completes again with what `start`
has left of its connection. -/
def serverAwait (e : Endian) (write : Write) :
    Except Abort (Joined κ ρ) → SocketM (Except Abort (Option Descs))
  | .error why => pure (.error why)
  | .ok joined =>
      match write with
      | .completed | .notAllocated => pure (.ok (some joined.toDescs))
      | .failed err => checked [err] (pure (.ok (some joined.toDescs)))
      | .reported again => do
          let received ← serverContinue e again joined.operation.connection
          pure (received.map fun received => some ⟨joined.connected, received⟩)

/-- The end of the server's `work` and the cleanup. -/
def serverRest (e : Endian) (doca : ServerDoca κ) : Except Abort (Option Descs) → SocketM End
  | .error why => pure (.aborted why)
  | .ok descs => do
      sendDynamic e done
      let finished ← checked doca.stopped (pure (.ok (.server descs)))
      pure (finish finished)

/-- `server`.  `upon_error` prints what an exception says and goes on, so a write that
was not allocated is as good as one that was made. -/
def server (e : Endian) (rdma : ρ) (doca : ServerDoca κ) : SocketM End := do
  let work ← uponError
    (do
      let joined ← serverWrite e rdma doca
      serverAwait e doca.write joined)
    fun _ => pure (.ok none)
  serverRest e doca work

/-! ## Both ends follow their scripts -/

structure Answers.Succeed (answers : Answers) : Prop where
  prepared : answers.prepared.all checkError = true
  mapped : answers.mapped.all checkError = true

/-- No call of DOCA fails; the buffer is left open. -/
structure ClientDoca.Succeeds (doca : ClientDoca κ) : Prop where
  opened : doca.opened.all checkError = true
  exported : doca.exported.status = .success
  setUserData : doca.setUserData = .success
  connect : doca.connect = .success
  mapped : doca.mapped.all checkError = true
  buffer : doca.buffer.all checkError = true
  stopped : doca.stopped.all checkError = true

/-- No call of DOCA fails, but the write task may not be allocated. -/
structure ServerDoca.Succeeds (doca : ServerDoca κ) : Prop where
  opened : doca.opened.all checkError = true
  exported : doca.exported.status = .success
  setUserData : doca.setUserData = .success
  connect : doca.connect = .success
  first : doca.first.Succeed
  write : ∀ err, doca.write ≠ .failed err
  again : ∀ again, doca.write = .reported again → again.Succeed
  stopped : doca.stopped.all checkError = true

theorem checked_of_success {statuses : List DocaError} (h : statuses.all checkError = true)
    (m : SocketM (Except Abort α)) : checked statuses m = m := if_pos h

theorem uponError_follows {s : TcpSocket} {m : SocketM α} {l : List Move} {a : α}
    (hm : Follows s.fd (fun r => r = (.ok a, s)) l (m s)) (handler : SocketError → SocketM α) :
    Follows s.fd (fun r => r = (.ok a, s)) l (uponError m handler s) := by
  rw [← List.append_nil l]
  refine hm.bind ?_
  rintro _ rfl
  exact .ret rfl

/-- Code that only returns makes no transfers. -/
theorem follows_bind_ret {β : Type} {s : TcpSocket} {m : SocketM α} {f : α → SocketM β}
    {l : List Move} {a : α} {b : β} (hm : Follows s.fd (fun r => r = (.ok a, s)) l (m s))
    (hf : f a s = .ret (.ok b, s)) :
    Follows s.fd (fun r => r = (.ok b, s)) l ((m >>= f) s) := by
  rw [← List.append_nil l]
  exact follows_bind hm (hf ▸ .ret rfl)

/-- The exchange of `Rdma::connect`. -/
theorem connect_follows (e : Endian) {s : TcpSocket} (hs : s.isConnected = true) (rdma : ρ)
    {exported : Exported κ} (hexported : exported.status = .success) {other : List UInt8}
    (hother : other.length ≤ defaultMaxSize) :
    ∃ m, DescriptorExchange.connect e rdma exported = some m ∧
      Follows s.fd
        (fun r => r = (.ok ⟨⟨some exported.localConnection, some rdma⟩, other⟩, s))
        (Move.writes (frame e exported.localDescriptor) ++ Move.reads (frame e other)) (m s) := by
  obtain ⟨m, hm⟩ : ∃ m, DescriptorExchange.connect e rdma exported = some m := by
    have hexport : DescriptorExchange.exportCtx rdma exported =
        some (exported.localDescriptor, ⟨some exported.localConnection, some rdma⟩) :=
      if_pos ((checkError_iff _).mpr hexported)
    exact ⟨_, by rw [DescriptorExchange.connect, hexport]; rfl⟩
  exact ⟨m, hm, Follows.of_exchange
    (DescriptorExchange.exchange_of_connect e hs hm other hother)⟩

/-- What an end holds when it has exchanged the descriptors and its operation has
started. -/
def joined (rdma : ρ) (exported : Exported κ) (descs : Descs) : Joined κ ρ where
  toDescs := descs
  operation := (ConnectionSender.State.init
    ⟨some exported.localConnection, some rdma⟩).start .success .success

theorem startConnection_follows {s : TcpSocket} {rdma : ρ} {exported : Exported κ}
    {other : List UInt8} {descs : Descs} {l : List Move}
    {k : RdmaConnection κ ρ → SocketM (Except Abort Descs)}
    (hk : Follows s.fd (fun r => r = (.ok (.ok descs), s)) l
      (k ⟨some exported.localConnection, some rdma⟩ s)) :
    Follows s.fd (fun r => r = (.ok (.ok (joined rdma exported descs)), s)) l
      (startConnection ⟨⟨some exported.localConnection, some rdma⟩, other⟩ .success .success k
        s) := by
  rw [startConnection, checked_of_success rfl]
  exact follows_bind_ret hk rfl

theorem clientWork_follows (e : Endian) {s : TcpSocket} (hs : s.isConnected = true) (rdma : ρ)
    {doca : ClientDoca κ} (hdoca : doca.Succeeds) {other : List UInt8}
    (hother : other.length ≤ defaultMaxSize) :
    Follows s.fd
      (fun r => r = (.ok (.ok (joined rdma doca.exported ⟨other, doca.exportDesc⟩)), s))
      (Move.writes (frame e doca.exported.localDescriptor) ++ Move.reads (frame e other) ++
        Move.writes (frame e doca.exportDesc))
      (clientWork e rdma doca s) := by
  obtain ⟨m, hm, hfollows⟩ := connect_follows e hs rdma hdoca.exported hother
  rw [clientWork, checked_of_success hdoca.opened, hm]
  refine uponError_follows (follows_bind hfollows ?_) _
  rw [hdoca.setUserData, hdoca.connect]
  refine startConnection_follows ?_
  rw [checked_of_success hdoca.mapped]
  exact uponError_follows (follows_bind_ret (sendDynamic_follows e hs _) rfl) _

theorem clientRest_follows (e : Endian) {s : TcpSocket} (hs : s.isConnected = true)
    {doca : ClientDoca κ} (hdoca : doca.Succeeds) (hretrieve : doca.retrieve false = .success)
    (work : Joined κ ρ) :
    Follows s.fd (fun r => r = (.ok (.client work.toDescs), s)) (Move.reads (frame e done))
      (clientRest e doca (.ok work) s) := by
  have hbuffer : (doca.retrieve bufInventory.started_ :: doca.buffer).all checkError = true := by
    rw [List.all_cons, Bool.and_eq_true]
    exact ⟨(checkError_iff _).mpr hretrieve, hdoca.buffer⟩
  rw [clientRest, checked_of_success hbuffer]
  refine follows_bind_ret (a := .ok (.client work.toDescs)) ?_ rfl
  refine follows_bind_ret (receiveDynamicString_follows e hs (by decide) (by decide)) ?_
  rw [if_neg (by simp), checked_of_success hdoca.stopped]
  rfl

theorem serverContinue_follows (e : Endian) {s : TcpSocket} (hs : s.isConnected = true)
    {answers : Answers} (hanswers : answers.Succeed) (connection : Option κ) (rdma : ρ)
    {desc : List UInt8} (hdesc : desc.length ≤ defaultMaxSize) :
    Follows s.fd (fun r => r = (.ok (.ok desc), s)) (Move.reads (frame e desc))
      (serverContinue e answers ⟨connection, some rdma⟩ s) := by
  rw [serverContinue, checked_of_success hanswers.prepared]
  refine follows_bind_ret (receiveDynamic_follows e hs (hdesc.trans_lt (by decide)) hdesc) ?_
  rw [checked_of_success hanswers.mapped]
  rfl

theorem serverWrite_follows (e : Endian) {s : TcpSocket} (hs : s.isConnected = true) (rdma : ρ)
    {doca : ServerDoca κ} (hdoca : doca.Succeeds) {other desc : List UInt8}
    (hother : other.length ≤ defaultMaxSize) (hdesc : desc.length ≤ defaultMaxSize) :
    Follows s.fd (fun r => r = (.ok (.ok (joined rdma doca.exported ⟨other, desc⟩)), s))
      (Move.writes (frame e doca.exported.localDescriptor) ++ Move.reads (frame e other) ++
        Move.reads (frame e desc))
      (serverWrite e rdma doca s) := by
  obtain ⟨m, hm, hfollows⟩ := connect_follows e hs rdma hdoca.exported hother
  rw [serverWrite, checked_of_success hdoca.opened, hm]
  refine follows_bind hfollows ?_
  rw [hdoca.setUserData, hdoca.connect]
  refine startConnection_follows ?_
  exact follows_bind_ret (serverContinue_follows e hs hdoca.first _ rdma hdesc) rfl

theorem serverRest_follows (e : Endian) {s : TcpSocket} (hs : s.isConnected = true)
    {doca : ServerDoca κ} (hdoca : doca.Succeeds) (descs : Option Descs) :
    Follows s.fd (fun r => r = (.ok (.server descs), s)) (Move.writes (frame e done))
      (serverRest e doca (.ok descs) s) := by
  rw [serverRest, checked_of_success hdoca.stopped]
  exact follows_bind_ret (sendDynamic_follows e hs done) rfl

/-- What the client says after the exchange, and what it hears. -/
def report (e : Endian) (exportDesc : List UInt8) : List Move :=
  Move.writes (frame e exportDesc) ++ Move.reads (frame e done)

theorem client_follows (e : Endian) {s : TcpSocket} (hs : s.isConnected = true) (rdma : ρ)
    {doca : ClientDoca κ} (hdoca : doca.Succeeds) (hretrieve : doca.retrieve false = .success)
    {other : List UInt8} (hother : other.length ≤ defaultMaxSize) :
    Follows s.fd (fun r => r = (.ok (.client ⟨other, doca.exportDesc⟩), s))
      (Move.writes (frame e doca.exported.localDescriptor) ++ (Move.reads (frame e other) ++
        report e doca.exportDesc))
      (client e rdma doca s) := by
  rw [report, ← List.append_assoc, ← List.append_assoc]
  exact follows_bind (clientWork_follows e hs rdma hdoca hother)
    (clientRest_follows e hs hdoca hretrieve (joined rdma doca.exported _))

/-- DOCA reports the connection while the write is outstanding. -/
def Write.isReported : Write → Bool
  | .reported _ => true
  | _ => false

theorem server_follows (e : Endian) {s : TcpSocket} (hs : s.isConnected = true) (rdma : ρ)
    {doca : ServerDoca κ} (hdoca : doca.Succeeds) (hreported : doca.write.isReported = false)
    {other exportDesc : List UInt8} (hother : other.length ≤ defaultMaxSize)
    (hdesc : exportDesc.length ≤ defaultMaxSize) :
    Follows s.fd (fun r => r = (.ok (.server (some ⟨other, exportDesc⟩)), s))
      (Move.writes (frame e doca.exported.localDescriptor) ++ (Move.reads (frame e other) ++
        (report e exportDesc).map Move.mirror))
      (server e rdma doca s) := by
  have hmirror : (report e exportDesc).map Move.mirror =
      Move.reads (frame e exportDesc) ++ Move.writes (frame e done) := by
    rw [report, List.map_append, mirror_writes, mirror_reads]
  rw [hmirror, ← List.append_assoc, ← List.append_assoc]
  refine follows_bind (a := .ok (some ⟨other, exportDesc⟩)) (uponError_follows ?_ _)
    (serverRest_follows e hs hdoca _)
  refine follows_bind_ret (serverWrite_follows e hs rdma hdoca hother hdesc) ?_
  cases hwrite : doca.write with
  | completed => rfl
  | notAllocated => rfl
  | failed err => exact absurd hwrite (hdoca.write err)
  | reported again => simp [hwrite, Write.isReported] at hreported

/-! ## Where the ends do not come to their results -/

/-- A client whose buffer is refused does not come to its end. -/
theorem client_ensures (e : Endian) (rdma : ρ) {doca : ClientDoca κ}
    (hretrieve : doca.retrieve false ≠ .success) (s : TcpSocket) :
    (client e rdma doca s).Ensures fun r => ∀ descs, r.1 ≠ .ok (.client descs) := by
  have hbuffer : ¬(doca.retrieve bufInventory.started_ :: doca.buffer).all checkError = true := by
    rw [List.all_cons, Bool.and_eq_true, checkError_iff]
    exact fun h => hretrieve h.1
  refine Resumption.ensures_bind ?_ _
  rintro ⟨err | why | work, s'⟩
  · exact nofun
  · exact nofun
  · have hrest : clientRest e doca (.ok work) s' = .ret (.ok (.aborted .exited), s') := by
      rw [clientRest, checked, if_neg hbuffer]
      rfl
    change Resumption.Ensures _ (clientRest e doca (.ok work) s')
    rw [hrest]
    exact nofun

theorem frame_ne_nil (e : Endian) (data : List UInt8) : frame e data ≠ [] :=
  List.ne_nil_of_length_pos (by simp)

theorem receiveDynamic_waits (e : Endian) {s : TcpSocket} (hs : s.isConnected = true) :
    Program.Waits s.fd (receiveDynamic e defaultMaxSize s) := by
  have hread : Follows s.fd _ (Move.reads (frame e [])) (receiveDynamic e defaultMaxSize s) :=
    receiveDynamic_follows e hs (by decide) (Nat.zero_le _)
  exact hread.waits (frame_ne_nil e []) (List.prefix_refl _)

/-- The continuation reads, whatever connection it is given. -/
theorem serverContinue_waits (e : Endian) {s : TcpSocket} (hs : s.isConnected = true)
    {answers : Answers} (hanswers : answers.Succeed) (connection : RdmaConnection κ ρ) :
    Program.Waits s.fd (serverContinue e answers connection s) := by
  rw [serverContinue, checked_of_success hanswers.prepared]
  exact (receiveDynamic_waits e hs).bind _

/-! ## The two ends together -/

section Ends

variable (socket : Side → TcpSocket) (capacity : Side → Nat) (e : Endian) (rdma : Side → ρ)
  (clientDoca : ClientDoca κ) (serverDoca : ServerDoca κ)

/-- The client is end `a`. -/
def ends : Duplex (Except SocketError End × TcpSocket) where
  fd i := (socket i).fd
  capacity := capacity
  program
    | .a => client e (rdma .a) clientDoca (socket .a)
    | .b => server e (rdma .b) serverDoca (socket .b)

/-- The two ends up to the server's write. -/
def opening : Duplex (Except SocketError (Except Abort (Joined κ ρ)) × TcpSocket) where
  fd i := (socket i).fd
  capacity := capacity
  program
    | .a => clientWork e (rdma .a) clientDoca (socket .a)
    | .b => serverWrite e (rdma .b) serverDoca (socket .b)

/-- How they go on. -/
def closing : Side → Except SocketError (Except Abort (Joined κ ρ)) → SocketM End
  | .a, .ok work => clientRest e clientDoca work
  | .a, .error err => raise err
  | .b, .ok work => do
      let work ← uponError (serverAwait e serverDoca.write work) fun _ => pure (.ok none)
      serverRest e serverDoca work
  | .b, .error _ => serverRest e serverDoca (.ok none)

theorem ends_eq_andThen : ends socket capacity e rdma clientDoca serverDoca =
    (opening socket capacity e rdma clientDoca serverDoca).andThen
      fun i r => closing e clientDoca serverDoca i r.1 r.2 := by
  have hprogram (i : Side) : (ends socket capacity e rdma clientDoca serverDoca).program i =
      ((opening socket capacity e rdma clientDoca serverDoca).program i).bind
        fun r => closing e clientDoca serverDoca i r.1 r.2 := by
    cases i with
    | a =>
        refine congrArg (Resumption.bind _) (funext ?_)
        rintro ⟨err | work, s⟩ <;> rfl
    | b =>
        simp only [ends, opening, server, bind_run, uponError, Resumption.bind_assoc]
        refine congrArg (Resumption.bind _) (funext ?_)
        rintro ⟨err | work, s⟩
        · rfl
        · simp only [closing, bind_run, uponError, Resumption.bind_assoc]
  exact congrArg (Duplex.mk _ _) (funext hprogram)

/-- What each end sends before it reads. -/
def greeting : Side → List UInt8
  | .a => frame e clientDoca.exported.localDescriptor
  | .b => frame e serverDoca.exported.localDescriptor

/-- The descriptors that each end has to come to. -/
def descs : Side → Descs
  | .a => ⟨serverDoca.exported.localDescriptor, clientDoca.exportDesc⟩
  | .b => ⟨clientDoca.exported.localDescriptor, clientDoca.exportDesc⟩

/-- How each end has to come out. -/
def outcome : Side → End
  | .a => .client (descs clientDoca serverDoca .a)
  | .b => .server (some (descs clientDoca serverDoca .b))

/-- What each end holds after the server's write has been submitted. -/
def joinedAt : Side → Joined κ ρ
  | .a => joined (rdma .a) clientDoca.exported (descs clientDoca serverDoca .a)
  | .b => joined (rdma .b) serverDoca.exported (descs clientDoca serverDoca .b)

/-- Neither direction holds the frame that `Rdma::connect` writes into it. -/
def Overfull : Prop :=
  8 + clientDoca.exported.localDescriptor.length > capacity .a ∧
    8 + serverDoca.exported.localDescriptor.length > capacity .b

section Succeeding

variable (hsocket : ∀ i, (socket i).isConnected = true) (hclient : clientDoca.Succeeds)
  (hserver : serverDoca.Succeeds)
  (ha : clientDoca.exported.localDescriptor.length ≤ 100 * 1024 * 1024)
  (hb : serverDoca.exported.localDescriptor.length ≤ 100 * 1024 * 1024)
  (hdesc : clientDoca.exportDesc.length ≤ 100 * 1024 * 1024)

include hsocket hclient hserver

include ha hb hdesc in
theorem ends_follow (hretrieve : clientDoca.retrieve false = .success)
    (hreported : serverDoca.write.isReported = false) (i : Side) :
    Follows ((ends socket capacity e rdma clientDoca serverDoca).fd i)
      (fun r => r = (.ok (outcome clientDoca serverDoca i), socket i))
      (Duplex.handshake (greeting e clientDoca serverDoca) (report e clientDoca.exportDesc) i)
      ((ends socket capacity e rdma clientDoca serverDoca).program i) := by
  cases i with
  | a =>
      exact client_follows e (hsocket .a) (rdma .a) hclient hretrieve (hb.trans (by decide))
  | b =>
      exact server_follows e (hsocket .b) (rdma .b) hserver hreported (ha.trans (by decide))
        (hdesc.trans (by decide))

include ha hb hdesc in
theorem opening_follow (i : Side) :
    Follows ((opening socket capacity e rdma clientDoca serverDoca).fd i)
      (fun r => r = (.ok (.ok (joinedAt rdma clientDoca serverDoca i)), socket i))
      (Duplex.handshake (greeting e clientDoca serverDoca)
        (Move.writes (frame e clientDoca.exportDesc)) i)
      ((opening socket capacity e rdma clientDoca serverDoca).program i) := by
  cases i with
  | a =>
      have h := clientWork_follows e (hsocket .a) (rdma .a) hclient (hb.trans (by decide))
      rwa [List.append_assoc] at h
  | b =>
      have h := serverWrite_follows e (hsocket .b) (rdma .b) hserver (ha.trans (by decide))
        (hdesc.trans (by decide))
      rwa [List.append_assoc, ← mirror_writes (frame e clientDoca.exportDesc)] at h

/-- A report during the write makes both ends wait for each other. -/
theorem closing_waits (hretrieve : clientDoca.retrieve false = .success)
    (hreported : serverDoca.write.isReported = true) (i : Side) :
    Program.Waits (socket i).fd (closing e clientDoca serverDoca i
      (.ok (.ok (joinedAt rdma clientDoca serverDoca i))) (socket i)) := by
  cases i with
  | a =>
      exact (clientRest_follows e (hsocket .a) hclient hretrieve _).waits (frame_ne_nil e done)
        (List.prefix_refl _)
  | b =>
      cases hwrite : serverDoca.write with
      | reported again =>
          have hwaits := serverContinue_waits e (hsocket .b) (hserver.again again hwrite)
            (joinedAt rdma clientDoca serverDoca .b).operation.connection
          simp only [closing, hwrite, serverAwait]
          exact ((hwaits.bind _).bind _).bind _
      | _ => simp [hwrite, Write.isReported] at hreported

omit hsocket hclient hserver in
/-- The message "1" is the last thing that the server sends. -/
theorem server_script_last :
    ∃ l, Duplex.handshake (greeting e clientDoca serverDoca) (report e clientDoca.exportDesc) .b =
      l ++ [.put 0x31] := by
  refine ⟨Move.writes (greeting e clientDoca serverDoca .b) ++
    (Move.reads (greeting e clientDoca serverDoca .a) ++
      (Move.reads (frame e clientDoca.exportDesc) ++
        Move.writes (e.toBytes prefixSize (e.htonl 1)))), ?_⟩
  have hdone : Move.writes (frame e done) =
      Move.writes (e.toBytes prefixSize (e.htonl 1)) ++ [.put 0x31] := by
    simp [Move.writes, frame, done]
  simp only [Duplex.handshake, Duplex.turns, report, List.map_append, mirror_writes,
    mirror_reads, hdone, List.append_assoc]
  rfl

omit hsocket hclient hserver in
theorem overfull_iff : Overfull capacity clientDoca serverDoca ↔
    ∀ i, capacity i < (greeting e clientDoca serverDoca i).length := by
  constructor
  · rintro ⟨hleft, hright⟩ (_ | _)
    · simpa [greeting] using hleft
    · simpa [greeting] using hright
  · intro h
    exact ⟨by simpa [greeting] using h .a, by simpa [greeting] using h .b⟩

section Runs

variable {es : List Duplex.Event} {s : Duplex.State (Except SocketError End × TcpSocket)}
  (hrun : (ends socket capacity e rdma clientDoca serverDoca).machine.run
    (Duplex.State.init (ends socket capacity e rdma clientDoca serverDoca)) es = some s)

include ha hb hdesc hrun

/-- Where DOCA reports the connection during the write, no end returns. -/
theorem reported_outcome (hcapacity : ∀ i, 1 ≤ capacity i)
    (hretrieve : clientDoca.retrieve false = .success)
    (hreported : serverDoca.write.isReported = true) :
    es.length ≤ 2 * (33 + clientDoca.exported.localDescriptor.length +
        serverDoca.exported.localDescriptor.length + clientDoca.exportDesc.length) ∧
      ∀ i r, s.program i ≠ .ret r := by
  have hprogram := opening_follow socket capacity e rdma clientDoca serverDoca hsocket hclient
    hserver ha hb hdesc
  rw [ends_eq_andThen] at hrun
  have hwaits (i : Side) := closing_waits socket e rdma clientDoca serverDoca hsocket hclient
    hserver hretrieve hreported i
  obtain ⟨u, hopening, hnever⟩ := Duplex.run_of_andThen hprogram
    (Duplex.handshake_matching _ _) (by rintro i _ rfl; exact hwaits i) hrun
  have hlen := (Duplex.handshake_outcome hcapacity hprogram hopening).1
  refine ⟨?_, hnever⟩
  simp only [greeting, Move.length_writes, length_frame] at hlen
  omega

/-- Where it does not, the ends return with each other's descriptors, if there is room for
their frames. -/
theorem unreported_outcome (hcapacity : ∀ i, 1 ≤ capacity i)
    (hretrieve : clientDoca.retrieve false = .success)
    (hreported : serverDoca.write.isReported = false) :
    (∀ i r, s.program i = .ret r → r = (.ok (outcome clientDoca serverDoca i), socket i)) ∧
      ((∃ r, s.program .a = .ret r) → ∃ r, s.program .b = .ret r) ∧
      es.length ≤ 2 * (33 + clientDoca.exported.localDescriptor.length +
        serverDoca.exported.localDescriptor.length + clientDoca.exportDesc.length) ∧
      (Duplex.Settled (ends socket capacity e rdma clientDoca serverDoca) s →
        ((∀ i, ∃ r, s.program i = .ret r) ↔ ¬Overfull capacity clientDoca serverDoca)) ∧
      (Overfull capacity clientDoca serverDoca → ∀ i r, s.program i ≠ .ret r) := by
  have hprogram := ends_follow socket capacity e rdma clientDoca serverDoca hsocket hclient hserver
    ha hb hdesc hretrieve hreported
  have hmatch := Duplex.handshake_matching (greeting e clientDoca serverDoca)
    (report e clientDoca.exportDesc)
  have hs : (ends socket capacity e rdma clientDoca serverDoca).machine.Reachable s := ⟨es, hrun⟩
  obtain ⟨n, hat⟩ := Duplex.at_of_reachable hprogram hmatch hs
  obtain ⟨hlen, hend⟩ := Duplex.handshake_outcome hcapacity hprogram hrun
  refine ⟨fun i r hret => hat.of_ret hret, fun hret => ?_, ?_, fun hsettled => ?_, fun h i r => ?_⟩
  · obtain ⟨l, hlast⟩ := server_script_last e clientDoca serverDoca
    exact (hat.returned_iff .b).mpr
      (hat.at_end_of_taken hmatch hlast ((hat.returned_iff .a).mp hret))
  · simp only [greeting, report, List.length_append, Move.length_writes, Move.length_reads,
      length_frame, done, List.length_singleton] at hlen
    omega
  · rw [overfull_iff capacity e]
    exact hend hsettled
  · exact Duplex.not_returned_of_overfull hprogram
      ((overfull_iff capacity e clientDoca serverDoca).mp h) hs i r

end Runs

end Succeeding

end Ends

end Loopback
end DocaStdexec
