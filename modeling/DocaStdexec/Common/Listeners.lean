import DocaStdexec.Common.Descriptors
import DocaStdexec.Common.TcpServer

/-!
# Who closes a listening descriptor

A program that uses any number of `tcp_server` objects, and the `tcp_socket` objects
that `accept` returns, on one descriptor table.  What is obtained and closed is noted
in a log.

`listen_fd_` and `listening_` agree in every reachable state, although `listen` sets
them apart between its calls: each of its failures closes the descriptor that it has
made, and so leaves the server as it was.
-/

namespace DocaStdexec
namespace Listeners

open Lib
open Tcp (TcpServer TcpSocket ServerError)
open Descriptors (Table Answers onTable obliging)

/-- A descriptor was obtained, or `::close` was called with it. -/
inductive Entry
  | obtained (fd : Int)
  | closed (fd : Int)
  deriving DecidableEq

/-- What a call that is answered with `r` does to the descriptors. -/
def entry : (op : SysCall) → op.Answer → List Entry
  | .socket, r | .accept _, r => if (r : Int) = -1 then [] else [.obtained r]
  | .close fd, _ => [.closed fd]
  | .setsockopt _, _ | .inetPton _, _ | .gethostbyname _, _ | .connect _, _ | .bind _ _, _
  | .listen _ _, _ | .send _ _, _ | .recv _ _, _ => []

/-- What a program obtains and closes, in order. -/
def log {α : Type} (ω : Answers) : Program α → Nat → List Entry
  | .ret _, _ => []
  | .call op next, n => entry op (ω n op) ++ log ω (next (ω n op)) (n + 1)

/-- A `tcp_server`, or a `tcp_socket` that `accept` has returned. -/
inductive Object
  | server (server : TcpServer)
  | socket (socket : TcpSocket)
  deriving DecidableEq

namespace Object

/-- `listen_fd_` or `fd_`. -/
def fd : Object → Int
  | server x => x.listenFd
  | socket x => x.fd

/-- What is left of an object that was moved from. -/
def emptied : Object → Object
  | server _ => server .idle
  | socket _ => socket .disowned

end Object

/-- The objects of the program, the descriptor table, and what was obtained and closed
so far. -/
structure State where
  objects : Store Object
  table : Table
  log : List Entry

inductive Event
  /-- `tcp_server()`. -/
  | construct
  | listen (i : Nat) (port : UInt16) (backlog : Int) (ω : Answers)
  /-- The socket that is returned is a new object. -/
  | accept (i : Nat) (ω : Answers)
  /-- `stop` of a server, `close` of a socket. -/
  | stop (i : Nat)
  | moveConstruct (j : Nat)
  /-- Both are servers, or both are sockets. -/
  | moveAssign (i j : Nat)
  | destroy (i : Nat)

namespace State

def init : State := ⟨[], ⟨[], []⟩, []⟩

/-- A member function of object `i` runs; `wrap` says which kind of object it is. -/
def call {α τ : Type} (s : State) (i : Nat) (wrap : τ → Object) (p : Program (α × τ))
    (ω : Answers) : Option (α × State) :=
  (onTable ω p 0 s.table).map fun ((r, x), t) =>
    (r, ⟨s.objects.assign i (wrap x), t, s.log ++ Listeners.log ω p 0⟩)

/-- What the destructor of object `i` does first: no call has an answer to choose. -/
def stop (s : State) (i : Nat) : Option State :=
  match s.objects.live i with
  | some (.server x) =>
      (s.call i .server (TcpServer.stop (ε := Empty) x) (obliging (-1) [])).map Prod.snd
  | some (.socket x) =>
      (s.call i .socket (TcpSocket.close (ε := Empty) x) (obliging (-1) [])).map Prod.snd
  | none => none

end State

def step (s : State) : Event → Option State
  | .construct => some { s with objects := s.objects.create (.server .idle) }
  | .listen i port backlog ω =>
      match s.objects.live i with
      | some (.server x) => (s.call i .server (TcpServer.listen port backlog x) ω).map Prod.snd
      | _ => none
  | .accept i ω =>
      match s.objects.live i with
      | some (.server x) =>
          (s.call i .server (TcpServer.accept x) ω).map fun
            | (.ok socket, t) => { t with objects := t.objects.create (.socket socket) }
            | (.error _, t) => t
      | _ => none
  | .stop i => s.stop i
  | .moveConstruct j =>
      (s.objects.live j).map fun other =>
        { s with objects := (s.objects.create other).assign j other.emptied }
  | .moveAssign i j =>
      match s.objects.live i, s.objects.live j with
      | some x, some other =>
          if x.emptied ≠ other.emptied then none
          else if i = j then some s
          else (s.stop i).map fun t =>
            { t with objects := (t.objects.assign i other).assign j other.emptied }
      | _, _ => none
  | .destroy i => (s.stop i).map fun t => { t with objects := t.objects.destroy i }

def machine : Machine State Event := ⟨.init, step⟩

/-! ## The members on the descriptor table -/

section Members

open Tcp.TcpServer Lib.Method Descriptors

variable {ω : Answers} {t t' : Table} {x x' : TcpServer} {n : Nat}

theorem stop_onTable {ε : Type} (x : TcpServer) (t : Table) :
    onTable ω (TcpServer.stop (ε := ε) x) n t =
      some ((.ok ⟨⟩, if x.listenFd = -1 then x else idle),
        if x.listenFd = -1 then t else t.close x.listenFd) := by
  by_cases hfd : x.listenFd = -1
  · simp [TcpServer.stop, bind_run, hfd]
    rfl
  · simp [TcpServer.stop, bind_run, hfd, sys, onTable, Table.answered]

theorem abandon_onTable {fd : Int} (hfresh : fd ∉ t.opened) (err : ServerError) (x : TcpServer)
    (n : Nat) :
    onTable ω (abandon fd err x) n { t with opened := fd :: t.opened } =
      some ((.error err, { x with listenFd := -1 }), t) := by
  simp [abandon, bind_run, sys, onTable, Table.answered, close_obtained hfresh]

/-- A call on the new descriptor has failed, which gives the descriptor up, or `listen`
goes on. -/
theorem abandoned_or {fd : Int} (hfresh : fd ∉ t.opened) {ok : Bool} {err : ServerError}
    {rest : Tcp.ServerM PUnit} {r : Except ServerError PUnit}
    (h : onTable ω ((if !ok then abandon fd err else rest) x) n
      { t with opened := fd :: t.opened } = some ((r, x'), t')) :
    r = .error err ∧ x' = { x with listenFd := -1 } ∧ t' = t ∨
      onTable ω (rest x) n { t with opened := fd :: t.opened } = some ((r, x'), t') := by
  cases ok with
  | true => exact .inr h
  | false =>
      rw [if_pos (by rfl), abandon_onTable hfresh] at h
      obtain ⟨rfl, rfl, rfl⟩ := ended_inj h
      exact .inl ⟨rfl, rfl, rfl⟩

/-- `listen` throws and has no descriptor, or it keeps the one that it has made. -/
inductive Listened (x : TcpServer) (t : Table) (port : UInt16) :
    Except ServerError PUnit → TcpServer → Table → Prop
  | refused (h : x.listening = true) : Listened x t port (.error .alreadyListening) x t
  | failed (h : x.listening = false) (err : ServerError) :
      Listened x t port (.error err) ⟨-1, x.port, false⟩ t
  | opened (h : x.listening = false) {fd : Int} (hfd : fd ≠ -1) (hfresh : fd ∉ t.opened) :
      Listened x t port (.ok ⟨⟩) ⟨fd, port, true⟩ { t with opened := fd :: t.opened }

theorem listen_cases {port : UInt16} {backlog : Int} {r : Except ServerError PUnit}
    (h : onTable ω (TcpServer.listen port backlog x) n t = some ((r, x'), t')) :
    Listened x t port r x' t' := by
  cases hx : x.listening with
  | true =>
      simp only [TcpServer.listen, bind_run, self_run, Resumption.ret_bind, hx, if_true,
        raise_run, onTable, Option.some.injEq, Prod.mk.injEq] at h
      obtain ⟨⟨rfl, rfl⟩, rfl⟩ := h
      exact .refused hx
  | false =>
      simp only [TcpServer.listen, bind_run, self_run, Resumption.ret_bind, hx,
        Bool.false_eq_true, if_false, sys, Resumption.call_bind, assign_run, onTable] at h
      obtain ⟨t₁, hobtain, hrun⟩ := Option.bind_eq_some_iff.mp h
      clear h
      generalize ω n .socket = fd at hobtain hrun
      rcases obtain_cases hobtain with ⟨hfd, rfl⟩ | ⟨hfd, -, hfresh, rfl⟩
      · rw [if_pos hfd] at hrun
        obtain ⟨rfl, rfl, rfl⟩ := ended_inj hrun
        rw [hfd]
        exact .failed hx _
      rw [if_neg hfd] at hrun
      -- each of the three calls that follow can fail
      simp only [bind_run, sys, Resumption.call_bind, Resumption.ret_bind, onTable,
        Table.answered, Option.bind_some, use_obtained] at hrun
      obtain ⟨rfl, rfl, rfl⟩ | hrun := abandoned_or hfresh hrun
      · exact .failed hx .noReuseAddr
      simp only [bind_run, sys, Resumption.call_bind, Resumption.ret_bind, onTable,
        Table.answered, Option.bind_some, use_obtained] at hrun
      obtain ⟨rfl, rfl, rfl⟩ | hrun := abandoned_or hfresh hrun
      · exact .failed hx (.notBound port)
      simp only [bind_run, sys, Resumption.call_bind, Resumption.ret_bind, onTable,
        Table.answered, Option.bind_some, use_obtained] at hrun
      obtain ⟨rfl, rfl, rfl⟩ | hrun := abandoned_or hfresh hrun
      · exact .failed hx (.notOpened port)
      obtain ⟨rfl, rfl, rfl⟩ := ended_inj hrun
      exact .opened hx hfd hfresh

/-- `accept` throws and changes nothing, or it returns the descriptor that `::accept` has
given. -/
inductive Accepted (x : TcpServer) (t : Table) (client : Int) :
    Except ServerError TcpSocket → Table → Prop
  | refused (h : x.listening = false) : Accepted x t client (.error .notListening) t
  | failed (h : x.listening = true) : Accepted x t client (.error .notAccepted) t
  | returned (h : x.listening = true) (hfd : client ≠ -1) (hfresh : client ∉ t.opened) :
      Accepted x t client (.ok ⟨client, true⟩) { t with opened := client :: t.opened }

/-- A server that listens does so on an open descriptor. -/
theorem accept_cases {r : Except ServerError TcpSocket}
    (hopen : x.listening = true → x.listenFd ∈ t.opened)
    (h : onTable ω (accept x) n t = some ((r, x'), t')) :
    x' = x ∧ Accepted x t (ω n (.accept x.listenFd)) r t' := by
  cases hx : x.listening with
  | false =>
      simp only [accept, bind_run, self_run, Resumption.ret_bind, hx, Bool.not_false, if_true,
        raise_run, onTable, Option.some.injEq, Prod.mk.injEq] at h
      obtain ⟨⟨rfl, rfl⟩, rfl⟩ := h
      exact ⟨rfl, .refused hx⟩
  | true =>
      have huse : t.use x.listenFd = t := if_pos (hopen hx)
      simp only [accept, bind_run, self_run, Resumption.ret_bind, hx, Bool.not_true,
        Bool.false_eq_true, if_false, sys, Resumption.call_bind, onTable, Table.answered, huse] at h
      obtain ⟨t₁, hobtain, hrun⟩ := Option.bind_eq_some_iff.mp h
      clear h
      generalize ω n (.accept x.listenFd) = fd at hobtain hrun ⊢
      rcases obtain_cases hobtain with ⟨hfd, rfl⟩ | ⟨hfd, -, hfresh, rfl⟩
      · rw [if_pos hfd] at hrun
        obtain ⟨rfl, rfl, rfl⟩ := ended_inj hrun
        exact ⟨rfl, .failed hx⟩
      · rw [if_neg hfd] at hrun
        obtain ⟨rfl, rfl, rfl⟩ := ended_inj hrun
        exact ⟨rfl, .returned hx hfd hfresh⟩

end Members

/-! ## What was obtained and what was closed -/

section Log

variable {α : Type} {ω : Answers} {t t' : Table}

/-- One for an open descriptor. -/
def openCount (t : Table) (fd : Int) : Nat := if fd ∈ t.opened then 1 else 0

theorem faults_use (t : Table) (fd : Int) : t.faults <+: (t.use fd).faults := by
  unfold Table.use
  split
  · exact List.prefix_rfl
  · exact List.prefix_append _ _

theorem opened_use (t : Table) (fd : Int) : (t.use fd).opened = t.opened := by
  unfold Table.use
  split <;> rfl

/-- A descriptor that is obtained was not open. -/
theorem gain_counts {fd : Int} (h : t.gain fd = some t') :
    t'.faults = t.faults ∧ ∀ fd', (if fd = -1 then [] else [Entry.obtained fd]).count
      (.obtained fd') + openCount t fd' = openCount t' fd' := by
  rcases Descriptors.obtain_cases h with ⟨rfl, rfl⟩ | ⟨hfd, -, hfresh, rfl⟩
  · exact ⟨rfl, fun fd' => Nat.zero_add _⟩
  · refine ⟨rfl, fun fd' => ?_⟩
    rw [if_neg hfd]
    by_cases heq : fd' = fd
    · subst heq
      simp [openCount, hfresh]
    · simp [openCount, heq, Ne.symm heq]

/-- A descriptor that is closed without a fault was open. -/
theorem close_counts (t : Table) (fd : Int) :
    t.faults <+: (t.close fd).faults ∧ ((t.close fd).faults = [] → ∀ fd',
      openCount t fd' = [Entry.closed fd].count (.closed fd') + openCount (t.close fd) fd') := by
  unfold Table.close
  split
  · next hopen =>
      refine ⟨List.prefix_rfl, fun _ fd' => ?_⟩
      by_cases heq : fd' = fd
      · subst heq
        simp [openCount, hopen]
      · simp [openCount, heq, Ne.symm heq]
  · exact ⟨List.prefix_append _ _, by simp⟩

/-- Through one call that makes no fault, what was open or obtained is closed or open. -/
theorem answered_counts {op : SysCall} {r : op.Answer} (h : t.answered op r = some t') :
    t.faults <+: t'.faults ∧ (t'.faults = [] → ∀ fd,
      (entry op r).count (.obtained fd) + openCount t fd =
        (entry op r).count (.closed fd) + openCount t' fd) := by
  have huse (fd : Int) (hsome : some (t.use fd) = some t') : t.faults <+: t'.faults ∧
      (t'.faults = [] → ∀ fd', ([] : List Entry).count (.obtained fd') + openCount t fd' =
        ([] : List Entry).count (.closed fd') + openCount t' fd') := by
    obtain rfl := Option.some.inj hsome
    exact ⟨faults_use t fd, fun _ fd' => by simp [openCount, opened_use]⟩
  have hclosed (fd fd' : Int) :
      (if fd = -1 then [] else [Entry.obtained fd]).count (.closed fd') = 0 := by
    split <;> simp
  cases op with
  | socket =>
      obtain ⟨hfaults, hcount⟩ := gain_counts h
      refine ⟨hfaults ▸ List.prefix_rfl, fun _ fd => ?_⟩
      rw [entry, hcount, hclosed, Nat.zero_add]
  | accept fd =>
      -- the listening descriptor is used, and a new one is gained
      obtain ⟨hfaults, hcount⟩ := gain_counts h
      refine ⟨hfaults ▸ faults_use t fd, fun _ fd' => ?_⟩
      have hsame := hcount fd'
      rw [openCount, opened_use] at hsame
      rw [entry, hclosed, Nat.zero_add]
      exact hsame
  | close fd =>
      obtain rfl := Option.some.inj h
      obtain ⟨hfaults, hcount⟩ := close_counts t fd
      refine ⟨hfaults, fun hnone fd' => ?_⟩
      rw [entry, ← hcount hnone fd']
      simp
  | inetPton host =>
      obtain rfl := Option.some.inj h
      exact ⟨List.prefix_rfl, fun _ _ => rfl⟩
  | gethostbyname host =>
      obtain rfl := Option.some.inj h
      exact ⟨List.prefix_rfl, fun _ _ => rfl⟩
  | setsockopt fd => exact huse fd h
  | connect fd => exact huse fd h
  | bind fd port => exact huse fd h
  | listen fd backlog => exact huse fd h
  | send fd data => exact huse fd h
  | recv fd size => exact huse fd h

/-- The same through a whole program. -/
theorem log_counts {p : Program α} {n : Nat} {a : α} (h : onTable ω p n t = some (a, t')) :
    t.faults <+: t'.faults ∧ (t'.faults = [] → ∀ fd,
      (log ω p n).count (.obtained fd) + openCount t fd =
        (log ω p n).count (.closed fd) + openCount t' fd) := by
  induction p generalizing n t with
  | ret b =>
      obtain ⟨-, rfl⟩ := Prod.mk.inj (Option.some.inj h)
      exact ⟨List.prefix_rfl, fun _ _ => rfl⟩
  | call op next ih =>
      -- faults only grow, so the first call has made none either
      obtain ⟨u, hcall, hrest⟩ := Option.bind_eq_some_iff.mp h
      obtain ⟨hfirst, hcount⟩ := answered_counts hcall
      obtain ⟨hlast, hcounts⟩ := ih _ hrest
      refine ⟨hfirst.trans hlast, fun hnone fd => ?_⟩
      have hone := hcount (List.prefix_nil.mp (hnone ▸ hlast)) fd
      have hmore := hcounts hnone fd
      rw [log, List.count_append, List.count_append]
      omega

end Log

/-! ## Whole runs -/

/-- What an object holds. -/
def key (o : Object) : Option Int := if o.fd = -1 then none else some o.fd

theorem key_of_ne {o : Object} (h : o.fd ≠ -1) : key o = some o.fd := if_neg h

theorem key_of_eq {o : Object} (h : o.fd = -1) : key o = none := if_pos h

theorem fd_of_key {o : Object} {fd : Int} (h : key o = some fd) : o.fd = fd := by
  unfold key at h
  split at h
  · simp at h
  · exact Option.some.inj h

@[simp] theorem fd_emptied (o : Object) : o.emptied.fd = -1 := by
  cases o <;> rfl

/-- `listen_fd_` and `listening_` say the same. -/
def Settled : Object → Prop
  | .server x => x = .idle ∨ x.listening = true ∧ x.listenFd ≠ -1
  | .socket _ => True

theorem settled_emptied (o : Object) : Settled o.emptied := by
  cases o with
  | server x => exact .inl rfl
  | socket x => trivial

/-- Every open descriptor is held once, every server is settled, and what was obtained
is closed or open. -/
structure Inv (s : State) : Prop where
  balanced : Balanced s.objects key (· ∈ s.table.opened)
  valid : (-1 : Int) ∉ s.table.opened
  faults : s.table.faults = []
  settled : ∀ i o, s.objects.live i = some o → Settled o
  logged : ∀ fd, s.log.count (.obtained fd) = s.log.count (.closed fd) + openCount s.table fd

theorem State.call_eq_some {α τ : Type} {s t : State} {i : Nat} {wrap : τ → Object}
    {p : Program (α × τ)} {ω : Answers} {r : α} (h : s.call i wrap p ω = some (r, t)) :
    ∃ x table, onTable ω p 0 s.table = some ((r, x), table) ∧
      t = ⟨s.objects.assign i (wrap x), table, s.log ++ Listeners.log ω p 0⟩ := by
  obtain ⟨⟨⟨r', x⟩, table⟩, hrun, hsome⟩ := Option.map_eq_some_iff.mp h
  obtain ⟨rfl, rfl⟩ := Prod.mk.inj hsome
  exact ⟨x, table, hrun, rfl⟩

/-- `fd` is open, and it is the descriptor of object `i` and of no other. -/
def OwnedBy (s : State) (i : Nat) (fd : Int) : Prop :=
  fd ∈ s.table.opened ∧ ∃ o, s.objects.live i = some o ∧ o.fd = fd ∧
    ∀ j o', s.objects.live j = some o' → o'.fd = fd → j = i

namespace Inv

variable {s t : State}

theorem init : Inv .init where
  balanced := .nil fun _ h => by simp [State.init] at h
  valid := by simp [State.init]
  faults := rfl
  settled i o hi := by simp [State.init, Store.live] at hi
  logged fd := rfl

/-- A held descriptor is open. -/
theorem mem_opened (h : Inv s) {i : Nat} {o : Object} (hi : s.objects.live i = some o)
    (hfd : o.fd ≠ -1) : o.fd ∈ s.table.opened :=
  h.balanced.owed_of_live hi (key_of_ne hfd)

/-- What a program obtains and closes keeps the log in step with the table. -/
theorem log_append {α : Type} (h : Inv s) {ω : Answers} {p : Program α} {a : α} {table : Table}
    (hrun : onTable ω p 0 s.table = some (a, table)) (hfaults : table.faults = []) (fd : Int) :
    (s.log ++ Listeners.log ω p 0).count (.obtained fd) =
      (s.log ++ Listeners.log ω p 0).count (.closed fd) + openCount table fd := by
  have hbefore := h.logged fd
  have hafter := (log_counts hrun).2 hfaults fd
  rw [List.count_append, List.count_append]
  omega

theorem settled_create (h : Inv s) {o : Object} (ho : Settled o) (i : Nat) (o' : Object)
    (hi : (s.objects.create o).live i = some o') : Settled o' := by
  rcases Store.live_create_iff.mp hi with hi | ⟨-, rfl⟩
  · exact h.settled i o' hi
  · exact ho

theorem settled_assign (h : Inv s) {i : Nat} {o o' : Object} (hi : s.objects.live i = some o)
    (ho : Settled o') (j : Nat) (o'' : Object) (hj : (s.objects.assign i o').live j = some o'') :
    Settled o'' := by
  rcases Store.live_assign_cases hi hj with ⟨-, rfl⟩ | ⟨-, hj⟩
  · exact ho
  · exact h.settled j o'' hj

/-- An object that holds nothing takes over a new descriptor. -/
theorem opened_cons (h : Inv s) {objects : Store Object} {fd : Int} (hfd : fd ≠ -1)
    (hbalanced : Balanced objects key fun fd' => fd' ∈ s.table.opened ∨ fd' = fd)
    (hsettled : ∀ i o, objects.live i = some o → Settled o) {log : List Entry}
    (hlogged : ∀ fd', log.count (.obtained fd') =
      log.count (.closed fd') + openCount { s.table with opened := fd :: s.table.opened } fd') :
    Inv ⟨objects, { s.table with opened := fd :: s.table.opened }, log⟩ := by
  refine ⟨hbalanced.congr fun fd' => ?_, ?_, h.faults, hsettled, hlogged⟩
  · rw [List.mem_cons, or_comm]
  · rw [List.mem_cons, not_or]
    exact ⟨hfd.symm, h.valid⟩

/-- An object goes on holding what it holds. -/
theorem assign_keep (h : Inv s) {i : Nat} {o o' : Object} (hi : s.objects.live i = some o)
    (hfd : key o' = key o) (ho : Settled o') {log : List Entry}
    (hlogged : ∀ fd, log.count (.obtained fd) =
      log.count (.closed fd) + openCount s.table fd) :
    Inv ⟨s.objects.assign i o', s.table, log⟩ :=
  ⟨h.balanced.assign_keep hi hfd, h.valid, h.faults, h.settled_assign hi ho, hlogged⟩

/-- An object closes its descriptor. -/
theorem assign_close (h : Inv s) {i : Nat} {o : Object} (hi : s.objects.live i = some o)
    (hfd : o.fd ≠ -1) {log : List Entry}
    (hlogged : (s.table.close o.fd).faults = [] → ∀ fd, log.count (.obtained fd) =
      log.count (.closed fd) + openCount (s.table.close o.fd) fd) :
    Inv ⟨s.objects.assign i o.emptied, s.table.close o.fd, log⟩ := by
  have hclose : s.table.close o.fd =
      { s.table with opened := s.table.opened.filter (· ≠ o.fd) } := if_pos (h.mem_opened hi hfd)
  rw [hclose] at hlogged ⊢
  refine ⟨?_, by simp [h.valid], h.faults, h.settled_assign hi (settled_emptied o),
    hlogged h.faults⟩
  refine (h.balanced.assign_drop hi (key_of_ne hfd) (key_of_eq (fd_emptied o))).congr fun fd => ?_
  simp

/-- A descriptor is closed if there is one. -/
theorem released {α τ : Type} (h : Inv s) {i : Nat} {o o' : Object}
    (hi : s.objects.live i = some o) {ω : Answers} {p : Program (α × τ)} {a : α × τ}
    (hrun : onTable ω p 0 s.table = some (a, if o.fd = -1 then s.table else s.table.close o.fd))
    (ho' : o' = if o.fd = -1 then o else o.emptied) :
    Inv ⟨s.objects.assign i o', if o.fd = -1 then s.table else s.table.close o.fd,
      s.log ++ Listeners.log ω p 0⟩ ∧ o'.fd = -1 := by
  subst ho'
  by_cases hfd : o.fd = -1
  · simp only [hfd, if_true] at hrun ⊢
    exact ⟨h.assign_keep hi rfl (h.settled i o hi) (h.log_append hrun h.faults), trivial⟩
  · simp only [hfd, if_false] at hrun ⊢
    exact ⟨h.assign_close hi hfd (h.log_append hrun), fd_emptied o⟩

/-- `stop` or `close`: the object is left without a descriptor. -/
theorem stop (h : Inv s) {i : Nat} (hstep : s.stop i = some t) :
    Inv t ∧ ∃ o, t.objects.live i = some o ∧ o.fd = -1 ∧
      ∀ j, j ≠ i → t.objects.live j = s.objects.live j := by
  -- whichever kind of object it is
  have hends {o o' : Object} (hi : s.objects.live i = some o) (ht : t.objects =
      s.objects.assign i o') (hend : Inv t ∧ o'.fd = -1) : Inv t ∧
      ∃ o, t.objects.live i = some o ∧ o.fd = -1 ∧
        ∀ j, j ≠ i → t.objects.live j = s.objects.live j := by
    refine ⟨hend.1, o', ?_, hend.2, fun j hj => ?_⟩
    · rw [ht]
      exact Store.live_assign_self hi o'
    · rw [ht, Store.live_assign hi, if_neg hj]
  unfold State.stop at hstep
  split at hstep
  · next x hi =>
      obtain ⟨⟨r, u⟩, hcall, rfl⟩ := Option.map_eq_some_iff.mp hstep
      obtain ⟨x', table, hrun, rfl⟩ := State.call_eq_some hcall
      have hrun' := hrun
      rw [stop_onTable] at hrun'
      obtain ⟨-, rfl, rfl⟩ := Descriptors.ended_inj hrun'
      exact hends hi rfl (h.released hi hrun (apply_ite Object.server ..))
  · next x hi =>
      obtain ⟨⟨r, u⟩, hcall, rfl⟩ := Option.map_eq_some_iff.mp hstep
      obtain ⟨x', table, hrun, rfl⟩ := State.call_eq_some hcall
      have hrun' := hrun
      rw [Descriptors.close_onTable] at hrun'
      obtain ⟨-, rfl, rfl⟩ := Descriptors.ended_inj hrun'
      exact hends hi rfl (h.released hi hrun (apply_ite Object.socket ..))
  · simp at hstep

/-- A server takes a new descriptor when its `listen` succeeds, and changes nothing when
it throws. -/
theorem listened (h : Inv s) {i : Nat} {x x' : TcpServer} {port : UInt16} {backlog : Int}
    {ω : Answers} {r : Except ServerError PUnit} {table : Table}
    (hi : s.objects.live i = some (.server x))
    (hrun : onTable ω (TcpServer.listen port backlog x) 0 s.table = some ((r, x'), table)) :
    Inv ⟨s.objects.assign i (.server x'), table,
        s.log ++ Listeners.log ω (TcpServer.listen port backlog x) 0⟩ ∧
      ∀ err, r = .error err → x' = x ∧ table = s.table := by
  have hlog := h.log_append hrun
  have hsettled := h.settled i _ hi
  have hidle (hx : x.listening = false) : x = .idle :=
    hsettled.resolve_right fun hlistens => by simp [hx] at hlistens
  cases listen_cases hrun with
  | refused hx => exact ⟨h.assign_keep hi rfl hsettled (hlog h.faults), fun _ _ => ⟨rfl, rfl⟩⟩
  | failed hx err =>
      obtain rfl := hidle hx
      exact ⟨h.assign_keep hi rfl hsettled (hlog h.faults), fun _ _ => ⟨rfl, rfl⟩⟩
  | @opened hx fd hfd hfresh =>
      -- the server holds nothing, so the new descriptor overwrites nothing
      obtain rfl := hidle hx
      have hkey : key (.server ⟨fd, port, true⟩) = some fd := key_of_ne hfd
      refine ⟨h.opened_cons hfd (h.balanced.assign_take hi rfl hkey hfresh)
        (h.settled_assign hi (.inr ⟨rfl, hfd⟩)) (hlog h.faults), by simp⟩

/-- A server that listens holds an open descriptor. -/
theorem listens_on_opened (h : Inv s) {i : Nat} {x : TcpServer}
    (hi : s.objects.live i = some (.server x)) (hx : x.listening = true) :
    x.listenFd ∈ s.table.opened := by
  rcases h.settled i _ hi with rfl | ⟨-, hfd⟩
  · simp [Tcp.TcpServer.idle] at hx
  · exact h.mem_opened hi hfd

/-- `accept` makes one new socket, which takes the new descriptor, or nothing. -/
theorem accept (h : Inv s) {i : Nat} {ω : Answers} (hstep : step s (.accept i ω) = some t) :
    Inv t ∧ ∃ x, s.objects.live i = some (.server x) ∧
      (t.objects = s.objects ∧ t.table = s.table ∨
        ω 0 (.accept x.listenFd) ∉ s.table.opened ∧
          t.objects = s.objects.create (.socket ⟨ω 0 (.accept x.listenFd), true⟩) ∧
          t.table = { s.table with
            opened := ω 0 (.accept x.listenFd) :: s.table.opened }) := by
  simp only [Listeners.step] at hstep
  split at hstep
  · next x hi =>
      obtain ⟨⟨r, u⟩, hcall, hu⟩ := Option.map_eq_some_iff.mp hstep
      obtain ⟨x', table, hrun, rfl⟩ := State.call_eq_some hcall
      have hlog := h.log_append hrun
      obtain ⟨rfl, haccepted⟩ := accept_cases (h.listens_on_opened hi) hrun
      -- `accept` leaves its server as it is
      have hsame : s.objects.assign i (.server x') = s.objects := Store.assign_self hi
      rw [hsame] at hu
      cases haccepted with
      | refused _ =>
          subst hu
          exact ⟨⟨h.balanced, h.valid, h.faults, h.settled, hlog h.faults⟩, x', hi,
            .inl ⟨rfl, rfl⟩⟩
      | failed _ =>
          subst hu
          exact ⟨⟨h.balanced, h.valid, h.faults, h.settled, hlog h.faults⟩, x', hi,
            .inl ⟨rfl, rfl⟩⟩
      | returned _ hfd hfresh =>
          subst hu
          have hkey : key (.socket ⟨ω 0 (.accept x'.listenFd), true⟩) = some _ := key_of_ne hfd
          exact ⟨h.opened_cons hfd (h.balanced.create_take hkey hfresh)
            (h.settled_create trivial) (hlog h.faults), x', hi, .inr ⟨hfresh, rfl, rfl⟩⟩
  · simp at hstep

theorem step (h : Inv s) {ev : Event} (hstep : step s ev = some t) : Inv t := by
  cases ev with
  | construct =>
      obtain rfl := Option.some.inj hstep
      exact ⟨h.balanced.create_keep rfl, h.valid, h.faults, h.settled_create (.inl rfl), h.logged⟩
  | listen i port backlog ω =>
      simp only [Listeners.step] at hstep
      split at hstep
      · next x hi =>
          obtain ⟨⟨r, u⟩, hcall, rfl⟩ := Option.map_eq_some_iff.mp hstep
          obtain ⟨x', table, hrun, rfl⟩ := State.call_eq_some hcall
          exact (h.listened hi hrun).1
      · simp at hstep
  | accept i ω => exact (h.accept hstep).1
  | stop i => exact (h.stop hstep).1
  | moveConstruct j =>
      obtain ⟨other, hj, rfl⟩ := Option.map_eq_some_iff.mp hstep
      refine ⟨h.balanced.move_create hj rfl (key_of_eq (fd_emptied other)), h.valid, h.faults,
        fun i o hi => ?_, h.logged⟩
      rcases Store.live_assign_cases (Store.live_create_of_live hj other) hi with
        ⟨-, rfl⟩ | ⟨-, hi⟩
      · exact settled_emptied other
      · exact h.settled_create (h.settled j other hj) i o hi
  | moveAssign i j =>
      simp only [Listeners.step] at hstep
      split at hstep
      · next x other hi hj =>
          split at hstep
          · simp at hstep
          split at hstep
          · obtain rfl := Option.some.inj hstep
            exact h
          · next hij =>
              obtain ⟨u, hstop, rfl⟩ := Option.map_eq_some_iff.mp hstep
              obtain ⟨hu, o, hi', hfd, hothers⟩ := h.stop hstop
              -- `stop` of the one has not touched the other
              have hj' : u.objects.live j = some other := by rw [hothers j (Ne.symm hij), hj]
              have hj'' := Store.live_assign_of_ne hi' hj' (Ne.symm hij) other
              refine ⟨hu.balanced.move_assign hi' hj' (Ne.symm hij) (key_of_eq hfd) rfl
                (key_of_eq (fd_emptied other)), hu.valid, hu.faults, fun k o hk => ?_, hu.logged⟩
              rcases Store.live_assign_cases hj'' hk with ⟨-, rfl⟩ | ⟨-, hk⟩
              · exact settled_emptied other
              · exact hu.settled_assign hi' (hu.settled j other hj') k o hk
      · simp at hstep
  | destroy i =>
      obtain ⟨u, hstop, rfl⟩ := Option.map_eq_some_iff.mp hstep
      obtain ⟨hu, o, hi, hfd, -⟩ := h.stop hstop
      refine ⟨hu.balanced.destroy_keep hi (key_of_eq hfd), hu.valid, hu.faults,
        fun k o' hk => ?_, hu.logged⟩
      rw [Store.live_destroy] at hk
      split at hk
      · simp at hk
      · exact hu.settled k o' hk

theorem reachable (hs : machine.Reachable s) : Inv s :=
  hs.invariant init fun _ _ _ h hstep => h.step hstep

/-- An open descriptor has its one owner. -/
theorem owned (h : Inv s) {i : Nat} {o : Object} (hi : s.objects.live i = some o)
    (hfd : o.fd ∈ s.table.opened) : OwnedBy s i o.fd := by
  have hne : o.fd ≠ -1 := fun hnone => h.valid (hnone ▸ hfd)
  refine ⟨hfd, o, hi, rfl, fun j o' hj hsame => ?_⟩
  exact h.balanced.unique hi hj (key_of_ne hne) ((key_of_ne (hsame ▸ hne)).trans (by rw [hsame]))

/-- A server listens exactly when it owns an open descriptor. -/
theorem listening_iff (h : Inv s) {i : Nat} {x : TcpServer}
    (hi : s.objects.live i = some (.server x)) :
    x.listening = true ↔ OwnedBy s i x.listenFd := by
  constructor
  · intro hx
    exact h.owned hi (h.listens_on_opened hi hx)
  · -- `-1` is never open
    rintro ⟨hopen, -⟩
    rcases h.settled i _ hi with rfl | ⟨hx, -⟩
    · exact absurd hopen h.valid
    · exact hx

end Inv

/-- `tcp_server` loses no descriptor and closes none twice, and a call that throws has
changed nothing. -/
structure Accounted (s : State) : Prop where
  listening : ∀ i x, s.objects.live i = some (.server x) →
    (x.listening = true ↔ OwnedBy s i x.listenFd)
  idle : ∀ i x, s.objects.live i = some (.server x) → x.listening = false →
    x.listenFd = -1 ∧ x.port = 0
  /-- The server and the open descriptors are as before. -/
  atomic : ∀ i x port backlog ω err x' table, s.objects.live i = some (.server x) →
    onTable ω (TcpServer.listen port backlog x) 0 s.table = some ((.error err, x'), table) →
    x' = x ∧ table = s.table
  /-- The socket that is returned is the next object. -/
  accepted : ∀ i x ω t, s.objects.live i = some (.server x) → step s (.accept i ω) = some t →
    t.objects = s.objects ∧ t.table = s.table ∨
      ω 0 (.accept x.listenFd) ∉ s.table.opened ∧
        t.objects = s.objects.create (.socket ⟨ω 0 (.accept x.listenFd), true⟩) ∧
        OwnedBy t s.objects.length (ω 0 (.accept x.listenFd))
  owner : ∀ fd ∈ s.table.opened, ∃ i, OwnedBy s i fd
  faults : s.table.faults = []
  /-- What was obtained was closed once, unless it is still open. -/
  closed : ∀ fd, s.log.count (.obtained fd) = s.log.count (.closed fd) + openCount s.table fd
  gone : (∀ i, s.objects.live i = none) → s.table.opened = []

/-- In every reachable state, whatever the system calls answer. -/
theorem reachable_accounted {s : State} (hs : machine.Reachable s) : Accounted s := by
  have h := Inv.reachable hs
  have howner (fd : Int) (hopen : fd ∈ s.table.opened) : ∃ i, OwnedBy s i fd := by
    obtain ⟨i, o, hi, hkey⟩ := h.balanced.exists_live hopen
    obtain rfl := fd_of_key hkey
    exact ⟨i, h.owned hi hopen⟩
  refine ⟨fun i x hi => h.listening_iff hi, fun i x hi hx => ?_, ?_, ?_, howner, h.faults,
    h.logged, fun hgone => ?_⟩
  · rcases h.settled i _ hi with rfl | ⟨hlistens, -⟩
    · exact ⟨rfl, rfl⟩
    · simp [hx] at hlistens
  · intro i x port backlog ω err x' table hi hrun
    exact (h.listened hi hrun).2 err rfl
  · intro i x ω t hi hstep
    obtain ⟨ht, x', hi', hend⟩ := h.accept hstep
    obtain rfl : x' = x := by simpa [hi] using hi'.symm
    rcases hend with hsame | ⟨hfresh, hobjects, htable⟩
    · exact .inl hsame
    · refine .inr ⟨hfresh, hobjects, ht.owned (o := .socket ⟨_, true⟩) ?_ ?_⟩
      · rw [hobjects]
        exact Store.live_create _ _
      · rw [htable]
        exact List.mem_cons_self
  · refine List.eq_nil_iff_forall_not_mem.mpr fun fd hopen => ?_
    obtain ⟨i, -, o, hi, -⟩ := howner fd hopen
    simp [hgone i] at hi

/-- Every call succeeds but `bind`. -/
def unbindable (fd : Int) : Answers := fun n op =>
  match op with
  | .bind _ _ => false
  | op => obliging fd [] n op

/-- A `listen` that fails and one that does not, a client that has come and gone, and a
server that was moved. -/
theorem reachable_accounted_moved :
    Accounted ⟨[none, none, some (.server ⟨3, 80, true⟩)], ⟨[3], []⟩,
      [.obtained 3, .closed 3, .obtained 3, .obtained 4, .closed 4]⟩ :=
  reachable_accounted
    ⟨[.construct, .listen 0 80 TcpServer.defaultBacklog (unbindable 3),
      .listen 0 80 TcpServer.defaultBacklog (obliging 3 []),
      .accept 0 (obliging 4 []), .moveConstruct 0, .destroy 0, .destroy 1], rfl⟩

end Listeners
end DocaStdexec
