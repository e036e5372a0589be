import Mathlib.Data.Int.CardIntervalMod
import ThreadAndNet.Acceptor

/-!
# Which loop serves a connection

`getNextLoop` deals the connections out in turn. Nothing but `newConnection` moves `next_`,
and no connection changes its loop or its descriptor later, so where a connection is served
depends on how many were accepted before it and on nothing else.
-/

namespace ZDQ

open Machine

/-- The loop that gets the connection before which `i` others were accepted. -/
def turn (numThreads i : Nat) : Nat := if numThreads = 0 then 0 else i % numThreads + 1

/-- Of `k` connections dealt out in turn each thread gets its share. -/
theorem count_turn {n : Nat} (threads : 0 < n) (k l : Nat) : k.count (fun i => turn n i = l) =
    if l = 0 ∨ n < l then 0 else k / n + if l - 1 < k % n then 1 else 0 := by
  have dealt : ∀ i, turn n i = i % n + 1 := fun i => if_neg (Nat.ne_of_gt threads)
  simp only [dealt]
  split
  · rename_i none
    rw [Nat.count_eq_card_filter_range, Finset.filter_false_of_mem, Finset.card_empty]
    intro i _
    have lt := Nat.mod_lt i threads
    omega
  · rename_i some
    have same : ∀ i, i % n + 1 = l ↔ i ≡ l - 1 [MOD n] := by
      intro i
      rw [Nat.ModEq, Nat.mod_eq_of_lt (show l - 1 < n by omega)]
      omega
    simp only [same]
    rw [Nat.count_modEq_card _ threads, Nat.mod_eq_of_lt (show l - 1 < n by omega)]

namespace TcpServer

variable {s t u : TcpServer}

/-- No connection is made. -/
structure Still (s t : TcpServer) : Prop where
  numThreads : t.numThreads = s.numThreads
  next : t.next = s.next
  nextConnTd : t.nextConnTd = s.nextConnTd
  known : ∀ c, t.served c = none ↔ s.served c = none

theorem Still.trans (h : Still s t) (h' : Still t u) : Still s u :=
  ⟨h'.numThreads.trans h.numThreads, h'.next.trans h.next, h'.nextConnTd.trans h.nextConnTd,
    fun c => (h'.known c).trans (h.known c)⟩

theorem still_onLoop (s : TcpServer) (l : Nat) (loop : EventLoop ServerChannel ServerFunctor) :
    Still s (s.onLoop l loop) := ⟨rfl, rfl, rfl, fun _ => Iff.rfl⟩

theorem still_put {c : Nat} {e : Served} (he : s.served c = some e) (e' : Served) :
    Still s (s.put c e') := by
  refine ⟨rfl, rfl, rfl, fun d => ?_⟩
  by_cases hd : d = c
  · subst hd
    rw [served_put_self, he]
    simp
  · rw [served_put_other s e' hd]

theorem still_removeConnectionInLoop {thread : Option Nat} {c : Nat}
    (h : s.removeConnectionInLoop thread c = .ok t) : Still s t := by
  obtain ⟨e, he, rfl⟩ := removeConnectionInLoop_cases h
  have put := still_put he { e with track := e.track.see (.removed 0) }
  exact ⟨put.numThreads, put.next, put.nextConnTd, put.known⟩

theorem still_removeConnection {thread : Option Nat} {c : Nat}
    (h : s.removeConnection thread c = .ok t) : Still s t := by
  rw [removeConnection] at h
  split at h
  · exact still_removeConnectionInLoop h
  · cases h
    exact still_onLoop ..

theorem still_perform {thread : Option Nat} {c : Nat} {call : Call}
    (h : s.perform thread c call = .ok t) : Still s t := by
  rw [perform] at h
  split at h
  · cases h
  rename_i e he
  split at h
  · cases h
  rename_i track _
  have noted := still_put he { e with track := track }
  cases call with
  | append f =>
    cases h
    exact noted.trans (still_onLoop ..)
  | closeCallback => exact noted.trans (still_removeConnection h)
  | _ =>
    cases h
    exact noted

theorem still_act {thread : Option Nat} {c : Nat} {o : TcpConnection.Outcome}
    (h : s.act thread c o = .ok t) : Still s t := by
  rw [act] at h
  split at h
  · cases h
  rename_i e he
  split at h
  · cases h
  rename_i conn calls
  have keep : ∀ (u : TcpServer) (call : Call) (v : TcpServer),
      Still s u → u.perform thread c call = .ok v → Still s v :=
    fun _ _ _ kept hcall => kept.trans (still_perform hcall)
  exact Reaches.keeps keep ⟨calls, h⟩ (still_put he _)

theorem still_runConn {l c : Nat} {f : ConnFunctor} {w : WriteResult} {shutdown : Status}
    (h : s.runConn l c f w shutdown = .ok t) : Still s t := by
  rw [runConn] at h
  split at h
  · cases h
  rename_i e he
  exact (still_put he _).trans (still_act h)

/-- The event of an acceptor makes a connection. -/
def Op.Accepts : Op → Prop
  | .accept _ _ => True
  | _ => False

theorem step_still {op : Op} (other : ¬ op.Accepts) (h : s.step op = .ok t) : Still s t := by
  cases op with
  | accept sockfd names => exact absurd trivial other
  | move l v =>
    simp only [step] at h
    split at h
    · cases h
    split at h
    · cases h
      exact still_onLoop ..
    · cases h
  | event l revents input =>
    simp only [step] at h
    split at h
    · split at h
      · cases h
      rename_i loop _ _ e he
      have put := still_put (s := s.onLoop l loop) he { e with track := e.track.see .event }
      exact ((still_onLoop s l loop).trans put).trans (still_act h)
    · cases h
  | functor l w shutdown =>
    simp only [step] at h
    split at h
    · cases h
    · exact (still_onLoop ..).trans (still_runConn h)
    · exact (still_onLoop ..).trans (still_removeConnectionInLoop h)
  | user thread c u =>
    simp only [step] at h
    split at h
    · cases h
    · exact still_act h
  | hold c =>
    simp only [step] at h
    split at h
    · cases h
    · rename_i e he
      cases h
      exact still_put he _
  | release c =>
    simp only [step] at h
    split at h
    · cases h
    rename_i e he
    split at h
    · cases h
    · cases h
      exact still_put he _

/-! ## The connections in the order they came -/

/-- The server has dealt out these descriptors, the oldest first. -/
structure Dealt (n : Nat) (fds : List Nat) (s : TcpServer) : Prop where
  numThreads : s.numThreads = n
  next : s.next = fds.length % n ∨ n = 0
  nextConnTd : s.nextConnTd = fds.length + 1
  served : ∀ c e, s.served c = some e → ∃ i, c = i + 1 ∧
    fds[i]? = some e.track.conn.channel.fd ∧ e.loop = turn n i
  known : ∀ i, i < fds.length → s.served (i + 1) ≠ none

theorem new_dealt (name : String) (numThreads : Nat) (wc : Bool) :
    Dealt numThreads [] (new name numThreads wc) :=
  ⟨rfl, .inl (Nat.zero_mod _).symm, rfl, fun _ _ he => absurd he nofun, nofun⟩

theorem reaches_fd {base own : Nat} {v w : Life} (inv : Life.Inv base own v)
    (h : Reaches (Life.step base own) v w) :
    w.track.conn.channel.fd = v.track.conn.channel.fd := by
  have keep : ∀ x op y, Life.Inv base own x ∧
      x.track.conn.channel.fd = v.track.conn.channel.fd → Life.step base own x op = .ok y →
      Life.Inv base own y ∧ y.track.conn.channel.fd = v.track.conn.channel.fd :=
    fun x op y both made => ⟨(both.1.step made).1, (Life.step_fd both.1.wired made).trans both.2⟩
  exact (Reaches.keeps keep h ⟨inv, rfl⟩).2

variable {n : Nat} {fds : List Nat}

/-- No connection changes its loop or its descriptor. -/
theorem Dealt.step (h : Dealt n fds s) (alive : Alive s) {op : Op} (other : ¬ op.Accepts)
    (hs : s.step op = .ok t) : Dealt n fds t := by
  have still := step_still other hs
  refine ⟨still.numThreads.trans h.numThreads, ?_, still.nextConnTd.trans h.nextConnTd, ?_, ?_⟩
  · rw [still.next]
    exact h.next
  · intro c e' he'
    cases he : s.served c with
    | none =>
      rw [(still.known c).mpr he] at he'
      cases he'
    | some e =>
      obtain ⟨i, rfl, fd, loop⟩ := h.served c e he
      obtain ⟨x, hx, same, reaches⟩ := (step_follows alive.located hs).old _ e he
      rw [he'] at hx
      cases hx
      refine ⟨i, rfl, ?_, same.loop.trans loop⟩
      rw [fd, Option.some.injEq]
      exact (reaches_fd (alive.inv he) reaches).symm
  · intro i lt
    rw [Ne, still.known]
    exact h.known i lt

/-- `getNextLoop` gives the loop whose turn it is and passes the turn on. -/
theorem Dealt.getNextLoop (h : Dealt n fds s) : s.getNextLoop.1 = turn n fds.length ∧
    (s.getNextLoop.2.next = (fds.length + 1) % n ∨ n = 0) := by
  rw [TcpServer.getNextLoop, turn, h.numThreads]
  split
  · rename_i none
    exact ⟨rfl, .inr none⟩
  · rename_i some
    have next := h.next.resolve_right some
    have lt := Nat.mod_lt fds.length (Nat.pos_of_ne_zero some)
    refine ⟨by rw [next], .inl ?_⟩
    dsimp only
    rw [next, ← Nat.mod_add_mod]
    split
    · rw [show fds.length % n + 1 = n by omega, Nat.mod_self]
    · exact (Nat.mod_eq_of_lt (show fds.length % n + 1 < n by omega)).symm

theorem newConnection_next {sockfd : Nat} {names : SockNames}
    (h : s.newConnection sockfd names = .ok t) : t.numThreads = s.numThreads ∧
      t.next = s.getNextLoop.2.next ∧ t.nextConnTd = s.nextConnTd + 1 := by
  obtain ⟨ioLoop, next, hnext⟩ := getNextLoop_cases s
  simp only [TcpServer.newConnection, hnext] at h
  split at h
  · cases h
  split at h
  · cases h
  rw [hnext]
  split at h
  · have still := still_runConn h
    exact ⟨still.numThreads, still.next, still.nextConnTd⟩
  · cases h
    exact ⟨rfl, rfl, rfl⟩

theorem Dealt.newConnection (h : Dealt n fds s) (located : Located s) {sockfd : Nat}
    {names : SockNames} (hn : s.newConnection sockfd names = .ok t) :
    Dealt n (fds ++ [sockfd]) t := by
  obtain ⟨loop, next⟩ := h.getNextLoop
  obtain ⟨numThreads', next', nextConnTd'⟩ := newConnection_next hn
  obtain ⟨m, e', touches, others, started⟩ := newConnection_life located hn
  have fd : e'.track.conn.channel.fd = sockfd := by
    rcases started with same | first
    · exact congrArg (fun v : Life => v.track.conn.channel.fd) same
    · exact Life.step_fd (Life.start_inv 0 0 ..).wired first
  have old : ∀ c, c ≠ s.nextConnTd → t.served c = s.served c := fun c other =>
    (touches.others c other).1.trans (others c other).1
  refine ⟨numThreads'.trans h.numThreads, ?_, ?_, ?_, ?_⟩
  · rw [next', List.length_append]
    exact next
  · rw [nextConnTd', h.nextConnTd, List.length_append]
    rfl
  · intro c x hx
    by_cases hc : c = s.nextConnTd
    · subst hc
      rw [touches.after] at hx
      cases hx
      refine ⟨fds.length, h.nextConnTd, ?_, touches.same.loop.trans loop⟩
      rw [fd, List.getElem?_append_right (Nat.le_refl _), Nat.sub_self]
      rfl
    · rw [old c hc] at hx
      obtain ⟨i, rfl, fd', loop'⟩ := h.served c x hx
      obtain ⟨lt, _⟩ := List.getElem?_eq_some_iff.mp fd'
      exact ⟨i, rfl, by rw [List.getElem?_append_left lt, fd'], loop'⟩
  · intro i lt
    rw [List.length_append, List.length_singleton] at lt
    by_cases last : i = fds.length
    · rw [last, ← h.nextConnTd, touches.after]
      nofun
    · rw [old (i + 1) (by rw [h.nextConnTd]; omega)]
      exact h.known i (by omega)

theorem Dealt.onLoop (h : Dealt n fds s) (l : Nat)
    (loop : EventLoop ServerChannel ServerFunctor) : Dealt n fds (s.onLoop l loop) :=
  ⟨h.numThreads, h.next, h.nextConnTd, h.served, h.known⟩

theorem Dealt.accept (h : Dealt n fds s) (located : Located s) {fd : Nat} {names : SockNames}
    (hs : s.step (.accept (some fd) names) = .ok t) : Dealt n (fds ++ [fd]) t := by
  obtain ⟨fd, loop, same, taken, _, made⟩ := accept_cases located hs
  cases same
  exact (h.onLoop 0 loop).newConnection taken made

/-- How many connections the server has given to the loop `l`. -/
def load (s : TcpServer) (l : Nat) : Nat :=
  (s.nextConnTd - 1).count (fun i => (s.served (i + 1)).any (·.loop == l))

/-- The loop of each connection is the one whose turn it was. -/
theorem Dealt.loop_iff (h : Dealt n fds s) {i : Nat} (lt : i < fds.length) (l : Nat) :
    (s.served (i + 1)).any (·.loop == l) ↔ turn n i = l := by
  obtain ⟨e, he⟩ := Option.ne_none_iff_exists'.mp (h.known i lt)
  obtain ⟨k, same, _, loop⟩ := h.served (i + 1) e he
  cases same
  rw [he, ← loop, Option.any_some, beq_iff_eq]

/-- A server with threads gives its own loop nothing, and each of the others its share. -/
theorem Dealt.load (h : Dealt n fds s) (threads : 0 < n) (l : Nat) :
    s.load l = if l = 0 ∨ n < l then 0
      else fds.length / n + if l - 1 < fds.length % n then 1 else 0 := by
  rw [← count_turn threads, TcpServer.load, h.nextConnTd, Nat.add_sub_cancel,
    Nat.count_eq_card_filter_range, Nat.count_eq_card_filter_range]
  congr 1
  refine Finset.filter_congr fun i mem => ?_
  exact h.loop_iff (Finset.mem_range.mp mem) l

end TcpServer

namespace AcceptingServer

variable {s t : AcceptingServer} {n : Nat}

/-- What the acceptor has handed over is what the server has dealt out. -/
structure InTurn (n : Nat) (s : AcceptingServer) : Prop where
  callback : s.acceptor.callback
  alive : s.server.Alive
  dealt : ∃ fds : List Nat, s.server.Dealt n fds ∧
    s.handed.map Prod.fst = fds.map Int.ofNat

theorem new_inTurn (sockfd : Nat) (name : String) (numThreads : Nat) (wc : Bool) :
    InTurn numThreads (new sockfd name numThreads wc) :=
  ⟨rfl, TcpServer.new_alive name numThreads wc, [], TcpServer.new_dealt name numThreads wc, rfl⟩

/-- The descriptor `::accept` returned is what is handed over. -/
theorem accept_handed (set : s.acceptor.callback) {fd : Nat} {addr : InetAddress}
    {closed : Status} {names : SockNames} {calls : List AcceptorCall}
    (handled : s.acceptor.handleRead (.accepted fd addr) closed = .ok calls)
    {u : AcceptingServer} (performed : run (perform names) u calls = .ok t) :
    ∃ peeraddr, t.handed = u.handed ++ [((fd : Int), peeraddr)] := by
  rcases Nat.eq_zero_or_pos fd with rfl | positive
  · rw [Acceptor.handleRead_zero set] at handled
    cases handled
    obtain ⟨m, closes, rest⟩ := run_cons_inv performed
    cases closes
    obtain ⟨m, made, done⟩ := run_cons_inv rest
    cases done
    obtain ⟨server, _, rfl⟩ := map_cases made
    exact ⟨_, rfl⟩
  · rw [Acceptor.handleRead_positive set positive] at handled
    cases handled
    obtain ⟨m, made, done⟩ := run_cons_inv performed
    cases done
    obtain ⟨server, _, rfl⟩ := map_cases made
    exact ⟨_, rfl⟩

theorem InTurn.step (h : InTurn n s) {op : Op} (hs : s.step op = .ok t) : InTurn n t := by
  have set := step_callback h.callback hs
  have alive : t.server.Alive :=
    Reaches.keeps (fun _ _ _ alive hop => alive.step hop) (step_server h.callback hs) h.alive
  obtain ⟨fds, dealt, all⟩ := h.dealt
  refine ⟨set, alive, ?_⟩
  cases op with
  | start listened =>
    cases step_cases hs with
    | start listened listens => exact ⟨fds, dealt, all⟩
  | accept r closed names =>
    cases step_cases hs with
    | @accept loop r closed names calls _ next event handled performed =>
      cases r with
      | failed e => cases handled
      | accepted fd addr =>
        have made : s.server.step (.accept (some fd) names) = .ok t.server := by
          simp only [TcpServer.step, next]
          exact accept_server h.callback handled performed
        obtain ⟨peeraddr, handed⟩ := accept_handed h.callback handled performed
        refine ⟨fds ++ [fd], dealt.accept h.alive.located made, ?_⟩
        rw [handed, List.map_append, List.map_append, all]
        rfl
  | other op =>
    have plain : ¬ op.Accepts := by
      cases op with
      | accept sockfd names => cases hs
      | _ => exact id
    cases step_cases hs with
    | other moved => exact ⟨fds, dealt.step h.alive plain moved, all⟩

/-- In every run the connections of the server are those handed over so far, numbered as they
came and each with its descriptor. Connection `i + 1` is on the loop whose turn it was, for
good, so the threads' shares differ by one at most and the server's own loop has none. -/
theorem connections_in_turn {sockfd : Nat} {name : String} {numThreads : Nat} {wc : Bool}
    (reached : Reaches step (new sockfd name numThreads wc) s) :
    (∀ c, s.server.served c ≠ none ↔ ∃ i < s.handed.length, c = i + 1) ∧
      (∀ i e, s.server.served (i + 1) = some e → e.loop = turn numThreads i ∧
        ∃ peeraddr, s.handed[i]? = some ((e.track.conn.channel.fd : Int), peeraddr)) ∧
      (0 < numThreads → ∀ l, s.server.load l = if l = 0 ∨ numThreads < l then 0 else
        s.handed.length / numThreads +
          if l - 1 < s.handed.length % numThreads then 1 else 0) := by
  have inTurn : InTurn numThreads s :=
    Reaches.keeps (fun _ _ _ kept hop => kept.step hop) reached (new_inTurn ..)
  obtain ⟨fds, dealt, all⟩ := inTurn.dealt
  have length : s.handed.length = fds.length := by
    rw [← List.length_map Prod.fst, all, List.length_map]
  refine ⟨fun c => ⟨fun known => ?_, ?_⟩, fun i e he => ?_, fun threads l => ?_⟩
  · obtain ⟨e, he⟩ := Option.ne_none_iff_exists'.mp known
    obtain ⟨i, rfl, fd, _⟩ := dealt.served c e he
    obtain ⟨lt, _⟩ := List.getElem?_eq_some_iff.mp fd
    exact ⟨i, by omega, rfl⟩
  · rintro ⟨i, lt, rfl⟩
    exact dealt.known i (by omega)
  · obtain ⟨k, same, fd, loop⟩ := dealt.served (i + 1) e he
    cases same
    refine ⟨loop, ?_⟩
    have entry : (s.handed.map Prod.fst)[i]? = some (e.track.conn.channel.fd : Int) := by
      rw [all, List.getElem?_map, fd]
      rfl
    rw [List.getElem?_map, Option.map_eq_some_iff] at entry
    obtain ⟨⟨_, peeraddr⟩, found, rfl⟩ := entry
    exact ⟨peeraddr, found⟩
  · rw [dealt.load threads l, length]

/-- The loop of the server comes round to its acceptor again. -/
def nextAccept (fd : Nat) : List Op :=
  [.other (.move 0 .test), .other (.move 0 (.polled [.acceptor])),
    .accept (.accepted fd ⟨1, 1⟩) none TcpServer.names, .other (.move 0 .doAppendFunctors),
    .other (.move 0 .functorsDone)]

/-- Three clients for two threads. -/
def threeClients : List Op :=
  [.start none, .other (.move 0 .loop)] ++ nextAccept 5 ++ nextAccept 6 ++ nextAccept 7

set_option maxRecDepth 20000 in
theorem connections_in_turn_threeClients :
    ∃ s, run step (new 3 "server" 2 false) threeClients = .ok s ∧
      s.server.load 0 = 0 ∧ s.server.load 1 = 2 ∧ s.server.load 2 = 1 := by
  obtain ⟨s, ran, handed⟩ : ∃ s, run step (new 3 "server" 2 false) threeClients = .ok s ∧
      s.handed.length = 3 := ⟨_, rfl, rfl⟩
  have share := (connections_in_turn ⟨threeClients, ran⟩).2.2 (by decide)
  rw [handed] at share
  exact ⟨s, ran, share 0, share 1, share 2⟩

end AcceptingServer

end ZDQ
