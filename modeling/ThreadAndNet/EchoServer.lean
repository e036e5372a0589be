import ThreadAndNet.BufferMemory
import ThreadAndNet.Conversation
import ThreadAndNet.ServerLife

/-!
# The echo server and its clients

The message callback of the demo takes everything out of the input buffer and
sends it back. Beside the server stand the two byte streams of each connection.
A client may write before its connection is accepted and read at any time; how
much a `readv` or a `::write` transfers is an answer of the kernel.
-/

namespace ZDQ

open Machine

/-- The streams of a connection as its client sees them. -/
structure Wire where
  /-- all the client ever sent -/
  sent : List UInt8
  /-- what the server has not read yet -/
  toServer : List UInt8
  /-- what the kernel took from the server and the client has not read yet -/
  toClient : List UInt8
  /-- all the client has read -/
  got : List UInt8
deriving DecidableEq

/-- The part of an `EventInput` that the kernel decides. -/
structure EchoAnswers where
  /-- how much `readv` could take at most; `none` is a failed call -/
  available : Option Nat
  write : WriteResult

namespace Wire

def idle : Wire := ⟨[], [], [], []⟩

/-- The server took some bytes and returned from a member function. -/
def carry (w : Wire) (taken : Nat) : TcpConnection.Outcome → Wire
  | .error _ => w
  | .ok (_, calls) =>
    { w with
      toServer := w.toServer.drop taken
      toClient := w.toClient ++ TcpConnection.accepted calls }

theorem carry_still (w : Wire) {d : TcpConnection} {calls : List Call}
    (quiet : TcpConnection.accepted calls = []) : w.carry 0 (.ok (d, calls)) = w := by
  rw [carry, quiet, List.append_nil, List.drop_zero]

def clientSends (w : Wire) (bytes : List UInt8) : Wire :=
  { w with sent := w.sent ++ bytes, toServer := w.toServer ++ bytes }

def clientReads (w : Wire) (count : Nat) : Wire :=
  { w with got := w.got ++ w.toClient.take count, toClient := w.toClient.drop count }

/-- The client may have written, but no server has read or written yet. -/
structure Unserved (w : Wire) : Prop where
  got : w.got = []
  toClient : w.toClient = []
  toServer : w.toServer = w.sent

def readv (w : Wire) (a : EchoAnswers) : Buffer.Readv :=
  match a.available with
  | none => .failed
  | some count => .read (w.toServer.take count)

end Wire

namespace TcpConnection

/-- `onMessage` of the demo, as the calls it makes; `buf` is the buffer it is given. -/
def onMessage (buf : Buffer) (w : WriteResult) : List UserCall :=
  [.retrieve buf.readBuffSize, .send buf.readable w]

/-- What the next event of an echoing connection finds and does. -/
def echoInput (c : TcpConnection) (w : Wire) (a : EchoAnswers) : EventInput where
  read := w.readv a
  onMessage :=
    match c.inputBuf.readFd (w.readv a) with
    | .ok (_, buf) => onMessage buf a.write
    | .error _ => []
  write := a.write
  shutdown := none

/-- How many bytes `readv` took in an event. -/
def taken (c : TcpConnection) (revents : BitVec 32) (read : Buffer.Readv) : Nat :=
  if .handleRead ∈ c.callbacks.handleEvent revents then
    match c.inputBuf.readFd read with
    | .ok (n, _) => n.toNat
    | .error _ => 0
  else 0

end TcpConnection

structure EchoServer where
  server : TcpServer
  /-- the streams of every connection, by its number -/
  wires : Nat → Wire

namespace EchoServer

def new (name : String) (numThreads : Nat) : EchoServer where
  server := .new name numThreads false
  wires := fun _ => .idle

/-- The steps of the loops' threads and of the clients. -/
inductive Op where
  | move (l : Nat) (v : EventLoop.Move ServerChannel)
  | accept (sockfd : Option Nat) (names : SockNames)
  | event (l : Nat) (revents : BitVec 32) (answers : EchoAnswers)
  | functor (l : Nat) (w : WriteResult) (shutdown : Status)
  | clientSends (c : Nat) (bytes : List UInt8)
  | clientReads (c : Nat) (count : Nat)

def onWire (s : EchoServer) (c : Nat) (w : Wire) : EchoServer :=
  { s with wires := Function.update s.wires c w }

/-- Make a step of the server and leave the streams like this. -/
def serverStep (s : EchoServer) (op : TcpServer.Op) (wires : Nat → Wire) :
    Except Failure EchoServer :=
  (s.server.step op).map (fun server => ⟨server, wires⟩)

def step (s : EchoServer) : Op → Except Failure EchoServer
  | .move l v => s.serverStep (.move l v) s.wires
  | .accept sockfd names => s.serverStep (.accept sockfd names) s.wires
  | .event l revents answers =>
    match (s.server.loops l).nextChannel with
    | .ok (.conn c, _) =>
      match s.server.served c with
      | none => .error .undefined
      | some e =>
        let conn := e.track.conn
        let w := s.wires c
        let input := conn.echoInput w answers
        s.serverStep (.event l revents input) (Function.update s.wires c
          (w.carry (conn.taken revents input.read) (conn.handleEvent revents input)))
    | _ => .error .disabled
  | .functor l w shutdown =>
    match (s.server.loops l).nextFunctor with
    | .ok (.conn c f, _) =>
      match s.server.served c with
      | none => .error .undefined
      | some e =>
        s.serverStep (.functor l w shutdown) (Function.update s.wires c
          ((s.wires c).carry 0 (e.track.conn.runFunctor w shutdown f)))
    | _ => s.serverStep (.functor l w shutdown) s.wires
  | .clientSends c bytes => .ok (s.onWire c ((s.wires c).clientSends bytes))
  | .clientReads c count => .ok (s.onWire c ((s.wires c).clientReads count))

end EchoServer

/-! ## An input buffer that is emptied at once -/

/-- The largest vector that `readFd` still offers `extrabuf` beside, and what that holds. -/
def maxInput : Nat := Buffer.extraSize - 1 + Buffer.extraSize

/-- The readable bytes are at the front, and the vector is not larger than one read can
make it. -/
structure Buffer.Fronted (b : Buffer) : Prop where
  front : b.readIndex = 0
  size : b.v_buff.length ≤ maxInput

namespace Buffer

theorem new_fronted : (new defaultSize).Fronted := by
  refine ⟨rfl, ?_⟩
  rw [new, List.length_replicate]
  decide

theorem Fronted.written {b : Buffer} (fronted : b.Fronted) :
    b.readable.length = b.writeIndex := by
  rw [length_readable, readBuffSize, fronted.front, Nat.sub_zero]

theorem Fronted.short {b : Buffer} (fronted : b.Fronted) : b.readable.length < 2 ^ 31 := by
  have size := fronted.size
  have inside := b.inside
  rw [fronted.written]
  rw [maxInput, extraSize] at size
  omega

/-- A read fills an empty buffer with what it took. -/
theorem Fronted.readFd {b : Buffer} (fronted : b.Fronted) (empty : b.readable = [])
    (bytes : List UInt8) : ∃ r, b.readFd (.read bytes) = .ok ((r.readable.length : Nat), r) ∧
      r.readable = bytes.take b.iovecSpace ∧ r.Fronted := by
  have written := fronted.written
  rw [empty, List.length_nil] at written
  have size := fronted.size
  have space : b.iovecSpace ≤ maxInput := by
    have room : b.writeBuffSize = b.v_buff.length := by
      rw [writeBuffSize, ← written, Nat.sub_zero]
    rw [iovecSpace, room]
    rw [maxInput] at size ⊢
    split <;> omega
  obtain ⟨r, hr, got⟩ := b.readFd_spec bytes
  rw [empty, List.nil_append] at got
  have grown := readFd_grows hr
  have front : r.readIndex = 0 := grown.readIndex.trans fronted.front
  have length : r.readable.length = r.writeIndex := by
    rw [length_readable, readBuffSize, front, Nat.sub_zero]
  have small : r.readable.length ≤ maxInput := by
    rw [got, List.length_take]
    omega
  refine ⟨r, by rw [got]; exact hr, got, front, ?_⟩
  have growth := grown.size
  omega

/-- Taking out everything there is leaves a buffer that is empty and as before. -/
theorem Fronted.retrieveAll {b : Buffer} (fronted : b.Fronted) :
    ∃ rest, b.retrieveAsString b.readBuffSize = .ok (b.readable, rest) ∧ rest.Fronted ∧
      rest.readable = [] := by
  have short : b.readBuffSize < 2 ^ 31 := by
    rw [← length_readable]
    exact fronted.short
  obtain ⟨rest, hrest, left⟩ := b.retrieveAsString_spec short (Nat.le_refl _)
  rw [← length_readable, List.drop_length] at left
  rw [← length_readable, List.take_length, length_readable] at hrest
  have settled := retrieveAsString_settles hrest
  refine ⟨rest, hrest, ⟨settled.reset ?_, ?_⟩, left⟩
  · have none := (readBuffSize_eq_zero_iff rest).mpr left
    have ordered := rest.ordered
    rw [readBuffSize] at none
    omega
  · rw [settled.size]
    exact fronted.size

end Buffer

/-! ## One connection -/

namespace TcpConnection

/-- No byte is lost, made up or moved; user code never holds the connection back. -/
structure Echoing (c : TcpConnection) (w : Wire) : Prop where
  bytes : w.got ++ w.toClient ++ c.outputBuf.readable ++ w.toServer = w.sent
  input : c.inputBuf.Fronted
  empty : c.inputBuf.readable = []
  state : c.state ≠ .kDisconnecting
  pending : c.state ≠ .kDisconnected → c.PendingIffWriteing

variable {c d : TcpConnection} {w : Wire} {calls : List Call}

theorem Echoing.clientSends (h : c.Echoing w) (bytes : List UInt8) :
    c.Echoing (w.clientSends bytes) := by
  refine ⟨?_, h.input, h.empty, h.state, h.pending⟩
  rw [Wire.clientSends, ← List.append_assoc, h.bytes]

theorem Echoing.clientReads (h : c.Echoing w) (count : Nat) :
    c.Echoing (w.clientReads count) := by
  refine ⟨?_, h.input, h.empty, h.state, h.pending⟩
  rw [Wire.clientReads, List.append_assoc w.got, List.take_append_drop]
  exact h.bytes

/-- A member function that moves no bytes. -/
theorem Echoing.still (h : c.Echoing w) (quiet : accepted calls = [])
    (output : d.outputBuf = c.outputBuf) (input : d.inputBuf = c.inputBuf)
    (state : d.state ≠ .kDisconnecting)
    (pending : d.state ≠ .kDisconnected → d.PendingIffWriteing) :
    d.Echoing (w.carry 0 (.ok (d, calls))) := by
  rw [w.carry_still quiet]
  refine ⟨?_, by rw [input]; exact h.input, by rw [input]; exact h.empty, state, pending⟩
  rw [output]
  exact h.bytes

/-- The message callback sends what was read, behind what is still pending. -/
theorem Echoing.onMessage (h : c.Echoing w) (connected : c.state = .kConnected)
    {r : Buffer} (fronted : r.Fronted) {wr : WriteResult}
    (hd : { c with inputBuf := r }.userCalls (TcpConnection.onMessage r wr) = .ok (d, calls)) :
    accepted calls ++ d.outputBuf.readable = c.outputBuf.readable ++ r.readable ∧
      (d.inputBuf.Fronted ∧ d.inputBuf.readable = []) ∧ d.state = .kConnected ∧
      d.PendingIffWriteing ∧ OnlyCallbacks (appended calls) := by
  obtain ⟨rest, hrest, fronted', empty⟩ := fronted.retrieveAll
  obtain ⟨m, first, second, hm, hsecond, rfl⟩ := andThen_cases hd
  simp only [userCall, hrest, Except.ok.injEq, Prod.mk.injEq] at hm
  obtain ⟨rfl, rfl⟩ := hm
  obtain ⟨m, sent, nothing, hsent, hnil, rfl⟩ := andThen_cases hsecond
  cases hnil
  rw [List.append_nil, List.nil_append]
  simp only [userCall, send, connected, if_true] at hsent
  have out := sendInLoop_outputOnly hsent
  have sends := sends_of_sendInLoop (c := { c with inputBuf := rest, state := .kConnected })
    (h.pending (by rw [connected]; decide)) (tailFits_of_short _ fronted.short wr) hsent
  refine ⟨sends.bytes, ?_, sends.state, sends.pending, sends.appended⟩
  rw [out.inputBuf]
  exact ⟨fronted', empty⟩

/-- Whatever `readv` takes out of the stream to the server is sent back in place. -/
theorem Echoing.handleRead (h : c.Echoing w) (connected : c.state = .kConnected)
    {a : EchoAnswers} (hd : c.handleRead (c.echoInput w a) = .ok (d, calls)) :
    ∃ n r, c.inputBuf.readFd (w.readv a) = .ok (n, r) ∧
      d.Echoing (w.carry n.toNat (.ok (d, calls))) ∧ OnlyCallbacks (appended calls) := by
  cases havail : a.available with
  | none =>
    have read : c.inputBuf.readFd (w.readv a) = .ok (-1, c.inputBuf) := by
      rw [Wire.readv, havail, Buffer.readFd]
    simp only [TcpConnection.handleRead, echoInput, read] at hd
    cases hd
    exact ⟨-1, c.inputBuf, read, h.still rfl rfl rfl h.state h.pending, List.forall_mem_nil _⟩
  | some count =>
    obtain ⟨r, hread, got, fronted⟩ := h.input.readFd h.empty (w.toServer.take count)
    have read : c.inputBuf.readFd (w.readv a) = .ok ((r.readable.length : Nat), r) := by
      rw [Wire.readv, havail, hread]
    refine ⟨_, r, read, ?_⟩
    rw [Int.toNat_natCast]
    have front : r.readable ++ w.toServer.drop r.readable.length = w.toServer := by
      have first : r.readable <+: w.toServer := by
        rw [got, List.take_take]
        exact List.take_prefix _ _
      obtain ⟨later, hlater⟩ := first
      rw [← hlater, List.drop_left]
    simp only [TcpConnection.handleRead, echoInput, read] at hd
    split at hd
    · rename_i some
      obtain ⟨m, first, more, hm, hmore, rfl⟩ := andThen_cases hd
      cases hm
      obtain ⟨bytes, ⟨input, empty⟩, state, pending, callbacks⟩ :=
        h.onMessage connected fronted hmore
      refine ⟨⟨?_, input, empty, by rw [state]; decide, fun _ => pending⟩, callbacks⟩
      calc w.got ++ (w.toClient ++ accepted more) ++ d.outputBuf.readable ++
            w.toServer.drop r.readable.length
          = w.got ++ w.toClient ++ (accepted more ++ d.outputBuf.readable) ++
            w.toServer.drop r.readable.length := by simp only [List.append_assoc]
        _ = w.got ++ w.toClient ++ c.outputBuf.readable ++
            (r.readable ++ w.toServer.drop r.readable.length) := by
              rw [bytes]
              simp only [List.append_assoc]
        _ = w.sent := by rw [front, h.bytes]
    · have none : r.readable = [] := List.eq_nil_of_length_eq_zero (by omega)
      rw [none] at hd ⊢
      cases hd
      have read : ({ c with inputBuf := r } : TcpConnection).Echoing w :=
        ⟨h.bytes, fronted, none, h.state, h.pending⟩
      exact ⟨read.still rfl rfl rfl (fun same => by cases same) (absurd rfl), List.forall_mem_nil _⟩

theorem Wired.taken_eq (wired : c.Wired) (revents : BitVec 32) (read : Buffer.Readv) :
    c.taken revents read =
      if revents &&& (POLLIN ||| POLLPRI ||| POLLRDHUP) ≠ 0 then
        match c.inputBuf.readFd read with
        | .ok (n, _) => n.toNat
        | .error _ => 0
      else 0 := by
  rw [Wired] at wired
  simp only [taken, Callbacks.handleEvent, wired, Option.toList_none, ite_self,
    Option.toList_some, List.nil_append, List.append_nil, bne_iff_ne]
  split <;> simp

/-- The functors that a connection gets when user code only echoes. -/
def Plain (f : ConnFunctor) : Prop :=
  f = .connectEstablished ∨ f = .connectDestroyed ∨ f = .writeCompleteCallback

theorem Plain.staysPending {f : ConnFunctor} (plain : Plain f) {wr : WriteResult}
    {shutdown : Status} (hd : c.runFunctor wr shutdown f = .ok (d, calls)) :
    c.StaysPending d calls := by
  rcases plain with rfl | rfl | rfl
  · simp only [TcpConnection.runFunctor, connectEstablished] at hd
    split at hd
    · cases hd
      exact ⟨by simp, List.prefix_refl _⟩
    · cases hd
  · simp only [TcpConnection.runFunctor, connectDestroyed] at hd
    split at hd <;>
    · cases hd
      exact ⟨by simp, List.prefix_refl _⟩
  · cases hd
    exact StaysPending.refl c

theorem Echoing.runFunctor (h : c.Echoing w) {f : ConnFunctor} (plain : Plain f)
    {wr : WriteResult} {shutdown : Status} (hd : c.runFunctor wr shutdown f = .ok (d, calls)) :
    d.Echoing (w.carry 0 (.ok (d, calls))) ∧ OnlyCallbacks (appended calls) := by
  rcases plain with rfl | rfl | rfl
  · simp only [TcpConnection.runFunctor, connectEstablished] at hd
    split at hd
    · rename_i connecting
      cases hd
      refine ⟨h.still rfl rfl rfl (fun same => by cases same) fun _ => ?_,
        List.forall_mem_nil _⟩
      show c.channel.enableReading.isWriteing = true ↔ c.outputBuf.readable ≠ []
      rw [Channel.isWriteing_enableReading]
      exact h.pending (by rw [connecting]; decide)
    · cases hd
  · simp only [TcpConnection.runFunctor, connectDestroyed] at hd
    split at hd
    · cases hd
      exact ⟨h.still rfl rfl rfl (fun same => by cases same) (absurd rfl), List.forall_mem_nil _⟩
    · cases hd
      exact ⟨h.still rfl rfl rfl h.state h.pending, List.forall_mem_nil _⟩
  · cases hd
    exact ⟨h.still rfl rfl rfl h.state h.pending, List.forall_mem_nil _⟩

end TcpConnection

theorem accepted_of_no_write {calls : List Call}
    (none : ∀ offered n, .write offered n ∉ calls) : TcpConnection.accepted calls = [] := by
  induction calls with
  | nil => rfl
  | cons call rest ih =>
    have tail := ih (fun offered n mem => none offered n (List.mem_cons_of_mem call mem))
    cases call with
    | write offered n => exact absurd List.mem_cons_self (none offered n)
    | _ => exact tail

theorem mem_appended {f : ConnFunctor} {calls : List Call} (h : .append f ∈ calls) :
    f ∈ appended calls := by
  induction calls with
  | nil => cases h
  | cons call rest ih =>
    rcases List.mem_cons.mp h with rfl | later
    · exact List.mem_cons_self
    · cases call with
      | append g => exact List.mem_cons_of_mem _ (ih later)
      | _ => exact ih later

namespace Life

open TcpConnection

variable {base own : Nat} {thread : Option Nat} {v x : Life}

theorem perform_queue {call : Call} (h : perform base own thread v call = .ok x) :
    ∃ fs, x.queue = v.queue ++ fs ∧ ∀ f ∈ fs, f = .connectDestroyed ∨ .append f = call := by
  simp only [perform] at h
  split at h
  · cases h
  split at h
  · cases h
    exact ⟨_, rfl, fun f mem => .inr (by rw [List.mem_singleton.mp mem])⟩
  · cases h
    split
    · exact ⟨_, rfl, fun f mem => .inl (List.mem_singleton.mp mem)⟩
    · exact ⟨[], (List.append_nil _).symm, List.forall_mem_nil _⟩
  · cases h
    exact ⟨[], (List.append_nil _).symm, List.forall_mem_nil _⟩

/-- What a member function leaves of its connection, and the functors it queues. -/
theorem act_queue {o : Outcome} (h : act base own thread v o = .ok x) :
    ∃ calls fs, o = .ok (x.track.conn, calls) ∧ x.queue = v.queue ++ fs ∧
      ∀ f ∈ fs, f = .connectDestroyed ∨ f ∈ appended calls := by
  obtain ⟨calls, result⟩ := act_conn h
  obtain ⟨conn, calls', made, hrun⟩ := act_cases h
  rw [result] at made
  cases made
  obtain ⟨fs, queue, mine⟩ := run_relates (R := fun (v x : Life) => ∃ fs,
      x.queue = v.queue ++ fs ∧ ∀ f ∈ fs, f = .connectDestroyed ∨ f ∈ appended calls)
    (fun v => ⟨[], (List.append_nil _).symm, nofun⟩)
    (by
      rintro v x y ⟨fs, hfs, first⟩ ⟨gs, hgs, second⟩
      refine ⟨fs ++ gs, by rw [hgs, hfs, List.append_assoc], fun f mem => ?_⟩
      exact (List.mem_append.mp mem).elim (first f) (second f))
    (by
      intro v call x mem made
      obtain ⟨fs, queue, mine⟩ := perform_queue made
      refine ⟨fs, queue, fun f hf => (mine f hf).imp_right fun same => ?_⟩
      exact mem_appended (by rw [same]; exact mem)) hrun
  exact ⟨calls, fs, result, queue, mine⟩

/-- The connection echoes, and its functors do nothing else meanwhile. -/
structure Echoes (v : Life) (w : Wire) : Prop where
  conn : v.track.conn.Echoing w
  plain : ∀ f ∈ v.queue, Plain f

theorem start_echoes (sockfd : Nat) (wc : Bool) {w : Wire}
    (unserved : w.Unserved) : Echoes (start sockfd wc) w := by
  refine ⟨⟨?_, Buffer.new_fronted, Buffer.readable_new _, nofun, fun _ => ?_⟩, ?_⟩
  · have nothing : (start sockfd wc).track.conn.outputBuf.readable = [] :=
      Buffer.readable_new _
    rw [unserved.got, unserved.toClient, unserved.toServer, nothing]
    rfl
  · rw [PendingIffWriteing]
    exact iff_of_false (by simp [start, Track.create, TcpConnection.new])
      (absurd (Buffer.readable_new _))
  · exact fun f mem => .inl (List.mem_singleton.mp mem)

/-- A member function that echoes leaves the life echoing. -/
theorem echoes_of_act {w : Wire} {o : Outcome} {taken : Nat}
    (plain : ∀ f ∈ v.queue, Plain f) (h : act base own thread v o = .ok x)
    (echoing : ∀ d calls, o = .ok (d, calls) →
      d.Echoing (w.carry taken (.ok (d, calls))) ∧ OnlyCallbacks (appended calls)) :
    Echoes x (w.carry taken o) := by
  obtain ⟨calls, fs, result, queue, mine⟩ := act_queue h
  obtain ⟨conn, callbacks⟩ := echoing _ _ result
  rw [result]
  refine ⟨conn, fun f mem => ?_⟩
  rw [queue, List.mem_append] at mem
  rcases mem with old | new
  · exact plain f old
  · rcases mine f new with rfl | called
    · exact .inr (.inl rfl)
    · exact .inr (.inr (callbacks f called))

theorem Echoes.event {w : Wire} (h : Echoes v w) (inv : Inv base own v)
    {revents : BitVec 32} {a : EchoAnswers}
    (made : step base own v (.event revents (v.track.conn.echoInput w a)) = .ok x) :
    Echoes x (w.carry (v.track.conn.taken revents (w.readv a))
      (v.track.conn.handleEvent revents (v.track.conn.echoInput w a))) := by
  simp only [step] at made
  split at made
  · rename_i active
    have connected : v.track.conn.state = .kConnected :=
      (inv.stage.of_active active).resolve_right h.conn.state
    refine echoes_of_act (v := { v with active := false, track := v.track.see .event })
      h.plain made fun d calls result => ?_
    rw [inv.wired.taken_eq]
    rw [inv.wired.handleEvent_eq] at result
    split at result
    · rename_i readable
      obtain ⟨n, r, hread, echoing, callbacks⟩ := h.conn.handleRead connected result
      rw [if_pos readable, hread]
      exact ⟨echoing, callbacks⟩
    · rename_i other
      cases result
      rw [if_neg other]
      exact ⟨h.conn.still rfl rfl rfl h.conn.state h.conn.pending, List.forall_mem_nil _⟩
  · cases made

theorem Echoes.functor {w : Wire} (h : Echoes v w) {f : ConnFunctor}
    (next : v.queue.head? = some f) {wr : WriteResult} {shutdown : Status}
    (made : step base own v (.functor wr shutdown) = .ok x) :
    Echoes x (w.carry 0 (v.track.conn.runFunctor wr shutdown f)) := by
  simp only [step] at made
  split at made
  · cases made
  · rename_i g rest queue
    rw [queue] at next
    cases next
    split at made
    · cases made
    · have plain : ∀ g ∈ f :: rest, Plain g := by
        rw [← queue]
        exact h.plain
      refine echoes_of_act (v := { v with queue := rest, track := v.track.starts own f })
        (fun g mem => plain g (List.mem_cons_of_mem f mem)) made fun d calls result => ?_
      exact h.conn.runFunctor (plain f List.mem_cons_self) result

theorem Echoes.poll {w : Wire} (h : Echoes v w) (made : step base own v .poll = .ok x) :
    Echoes x w := by
  simp only [step] at made
  split at made
  · cases made
    exact ⟨h.conn, h.plain⟩
  · cases made

theorem Echoes.remove {w : Wire} (h : Echoes v w) (made : step base own v .remove = .ok x) :
    Echoes x w := by
  simp only [step] at made
  split at made
  · cases made
  · cases made
    refine ⟨h.conn, fun f mem => ?_⟩
    rcases List.mem_append.mp mem with old | last
    · exact h.plain f old
    · exact .inr (.inl (List.mem_singleton.mp last))

end Life

/-- A connection of the echo server and its streams. -/
structure EchoLife where
  life : Life
  wire : Wire

namespace EchoLife

inductive Op where
  | poll
  | remove
  | event (revents : BitVec 32) (answers : EchoAnswers)
  | functor (f : ConnFunctor) (w : WriteResult) (shutdown : Status)
  | clientSends (bytes : List UInt8)
  | clientReads (count : Nat)

def step (own : Nat) (x : EchoLife) : Op → Except Failure EchoLife
  | .poll => (Life.step 0 own x.life .poll).map (fun life => { x with life := life })
  | .remove => (Life.step 0 own x.life .remove).map (fun life => { x with life := life })
  | .event revents answers =>
    let conn := x.life.track.conn
    let input := conn.echoInput x.wire answers
    (Life.step 0 own x.life (.event revents input)).map (fun life =>
      ⟨life, x.wire.carry (conn.taken revents input.read) (conn.handleEvent revents input)⟩)
  | .functor f w shutdown =>
    if x.life.queue.head? = some f then
      (Life.step 0 own x.life (.functor w shutdown)).map (fun life =>
        ⟨life, x.wire.carry 0 (x.life.track.conn.runFunctor w shutdown f)⟩)
    else .error .disabled
  | .clientSends bytes => .ok { x with wire := x.wire.clientSends bytes }
  | .clientReads count => .ok { x with wire := x.wire.clientReads count }

variable {own : Nat} {x y : EchoLife}

/-- What holds of a connection and its streams at any time. -/
structure Inv (own : Nat) (x : EchoLife) : Prop where
  life : Life.Inv 0 own x.life
  echoes : x.life.Echoes x.wire

theorem Inv.step (inv : Inv own x) {op : Op} (h : x.step own op = .ok y) : Inv own y := by
  obtain ⟨alive, echoes⟩ := inv
  cases op with
  | poll =>
    obtain ⟨v, made, rfl⟩ := map_cases h
    exact ⟨(alive.step made).1, echoes.poll made⟩
  | remove =>
    obtain ⟨v, made, rfl⟩ := map_cases h
    exact ⟨(alive.step made).1, echoes.remove made⟩
  | event revents answers =>
    obtain ⟨v, made, rfl⟩ := map_cases h
    exact ⟨(alive.step made).1, echoes.event alive made⟩
  | functor f w shutdown =>
    simp only [EchoLife.step] at h
    split at h
    · rename_i next
      obtain ⟨v, made, rfl⟩ := map_cases h
      exact ⟨(alive.step made).1, echoes.functor next made⟩
    · cases h
  | clientSends bytes =>
    cases h
    exact ⟨alive, echoes.conn.clientSends bytes, echoes.plain⟩
  | clientReads count =>
    cases h
    exact ⟨alive, echoes.conn.clientReads count, echoes.plain⟩

theorem reached_inv (reached : Reaches (EchoLife.step own) x y) (inv : Inv own x) :
    Inv own y := Reaches.keeps (fun _ _ _ inv h => inv.step h) reached inv

/-- Output that waits stays where it is, and nothing overtakes it. -/
structure Waits (x y : EchoLife) : Prop where
  pending : x.life.track.conn.outputBuf.readable <+: y.life.track.conn.outputBuf.readable
  delivered : y.wire.got ++ y.wire.toClient = x.wire.got ++ x.wire.toClient

theorem waits_of_carry {v v' : Life} {w : Wire} {taken : Nat} {calls : List Call}
    (stays : v.track.conn.StaysPending v'.track.conn calls) :
    Waits ⟨v, w⟩ ⟨v', w.carry taken (.ok (v'.track.conn, calls))⟩ := by
  refine ⟨stays.2, ?_⟩
  rw [Wire.carry, accepted_of_no_write stays.1, List.append_nil]

theorem Inv.waits (inv : Inv own x) (pending : x.life.track.conn.outputBuf.readable ≠ [])
    {op : Op} (h : x.step own op = .ok y) : Waits x y := by
  cases op with
  | poll =>
    obtain ⟨v, made, rfl⟩ := map_cases h
    simp only [Life.step] at made
    split at made
    · cases made
      exact ⟨List.prefix_refl _, rfl⟩
    · cases made
  | remove =>
    obtain ⟨v, made, rfl⟩ := map_cases h
    simp only [Life.step] at made
    split at made
    · cases made
    · cases made
      exact ⟨List.prefix_refl _, rfl⟩
  | event revents answers =>
    obtain ⟨v, made, rfl⟩ := map_cases h
    simp only [Life.step] at made
    split at made
    · obtain ⟨calls, result⟩ := Life.act_conn made
      rw [result]
      exact waits_of_carry
        (TcpConnection.handleEvent_staysPending inv.life.wired pending result)
    · cases made
  | functor f w shutdown =>
    simp only [EchoLife.step] at h
    split at h
    · rename_i next
      obtain ⟨v, made, rfl⟩ := map_cases h
      have plain := inv.echoes.plain f (List.mem_of_mem_head? next)
      simp only [Life.step] at made
      split at made
      · cases made
      · rename_i g rest queue
        rw [queue] at next
        cases next
        split at made
        · cases made
        · obtain ⟨calls, result⟩ := Life.act_conn made
          rw [result]
          exact waits_of_carry (plain.staysPending result)
    · cases h
  | clientSends bytes =>
    cases h
    exact ⟨List.prefix_refl _, rfl⟩
  | clientReads count =>
    cases h
    refine ⟨List.prefix_refl _, ?_⟩
    show x.wire.got ++ x.wire.toClient.take count ++ x.wire.toClient.drop count = _
    rw [List.append_assoc, List.take_append_drop]

theorem reached_waits (inv : Inv own x) (pending : x.life.track.conn.outputBuf.readable ≠ [])
    (later : Reaches (EchoLife.step own) x y) : Waits x y := by
  have keep : ∀ y op z, Inv own y ∧ Waits x y → y.step own op = .ok z →
      Inv own z ∧ Waits x z := by
    rintro y op z ⟨inv, waits⟩ h
    have still : y.life.track.conn.outputBuf.readable ≠ [] :=
      fun empty => pending (List.prefix_nil.mp (empty ▸ waits.pending))
    have next := inv.waits still h
    exact ⟨inv.step h, waits.pending.trans next.pending,
      next.delivered.trans waits.delivered⟩
  exact (later.keeps keep ⟨inv, List.prefix_refl _, rfl⟩).2

theorem start_inv (own sockfd : Nat) (wc : Bool) {w : Wire} (unserved : w.Unserved) :
    Inv own ⟨Life.start sockfd wc, w⟩ :=
  ⟨Life.start_inv 0 own sockfd wc, Life.start_echoes sockfd wc unserved⟩

end EchoLife

end ZDQ
