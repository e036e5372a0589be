import ThreadAndNet.ClientConnections
import ThreadAndNet.ConnectorSockets

/-!
# The sockets of a client

A socket is closed by the connector or, once it was handed over, by the connection
that owns it. A connection is destroyed at some time after the last reference to it
went; until then its descriptor is in use and the kernel gives it to nobody else.
-/

namespace ZDQ

open Machine

namespace ConnectorLife

theorem given_attempts {s t : ConnectorLife} {k l : Connector} {calls : List ConnectorCall}
    (move : k.Attempts l calls) (performed : Performed s l calls t) :
    SocketBook.given t.book.sockets = SocketBook.given s.book.sockets := by
  rw [performed.book]
  cases move with
  | unwanted off => rfl
  | connects sockfd wanted empty => rw [SocketBook.after_attempt, SocketBook.given_held]
  | retries sockfd wanted =>
    rw [SocketBook.after_append, SocketBook.after_retryTimer, SocketBook.after_refused,
      SocketBook.given_closed]
  | givesUp sockfd wanted => rw [SocketBook.after_refused, SocketBook.given_closed]

/-- The socket of an attempt in progress is the last one, and held. -/
def HoldsLast (s : ConnectorLife) : Prop :=
  ∀ ch, s.connector.state = .kConnecting → s.connector.channel = some ch →
    ∃ sockets, s.book.sockets = (ch.fd, .held) :: sockets

theorem Situation.holdsLast {s : ConnectorLife} (h : Situation s) : HoldsLast s := by
  intro ch connecting channel
  obtain ⟨_, sockets, _, book, _⟩ := h.last connecting channel
  exact ⟨sockets, by rw [book]⟩

/-- The last socket meets its fate. -/
theorem removed_sockets {s t : ConnectorLife} (holds : HoldsLast s)
    (connecting : s.connector.state = .kConnecting) {ch : Channel}
    (channel : s.connector.channel = some ch) {k : Connector} {rest : List ConnectorCall}
    (fate : SocketFate) (outcome : ∀ b : SocketBook, (b.after rest).sockets =
      SocketBook.settle ch.fd fate b.sockets)
    (performed : Performed s k (Connector.removal ch ++ rest) t) :
    ∃ sockets, s.book.sockets = (ch.fd, .held) :: sockets ∧
      t.book.sockets = (ch.fd, fate) :: sockets := by
  obtain ⟨sockets, book⟩ := holds ch connecting channel
  refine ⟨sockets, book, ?_⟩
  rw [performed.book, SocketBook.after_append, SocketBook.after_removal, outcome, book,
    SocketBook.settle_head]

theorem given_dropped {s t : ConnectorLife} (holds : HoldsLast s)
    (connecting : s.connector.state = .kConnecting) {ch : Channel}
    (channel : s.connector.channel = some ch) {k l : Connector}
    (performed : Performed s l (Connector.removal ch ++ .close ch.fd :: k.retryTimer) t) :
    SocketBook.given t.book.sockets = SocketBook.given s.book.sockets := by
  obtain ⟨sockets, before, after⟩ := removed_sockets holds connecting channel .closed
    (fun b => by rw [SocketBook.after_cons, SocketBook.after_retryTimer, SocketBook.note])
    performed
  rw [before, after, SocketBook.given_held, SocketBook.given_closed]

theorem given_runs {s t : ConnectorLife} (holds : HoldsLast s) {f : ConnectorFunctor}
    (ran : Runs s f t) :
    SocketBook.given t.book.sockets = SocketBook.given s.book.sockets := by
  cases ran with
  | startInLoop idle move performed => exact given_attempts move performed
  | notConnecting idle => rfl
  | stopInLoop connecting channel performed =>
    exact given_dropped holds connecting channel performed
  | resetChannel => rfl

theorem given_settles {s t : ConnectorLife} (holds : HoldsLast s) {revents : BitVec 32}
    {a : Connector.EventAnswers} {k : Connector} {calls : List ConnectorCall}
    (move : s.connector.Settles revents a k calls) (performed : Performed s k calls t) :
    SocketBook.given t.book.sockets =
      SocketBook.given s.book.sockets ++ ClientLoop.handed calls := by
  cases move with
  | stays ignored =>
    rw [performed.book]
    exact (List.append_nil _).symm
  | drops ch connecting channel failed =>
    rw [given_dropped holds connecting channel performed, ClientLoop.handed_append,
      ← List.singleton_append, ClientLoop.handed_append, ClientLoop.handed_retryTimer]
    simp [ClientLoop.handed, Connector.removal]
  | hands ch connecting channel success wanted =>
    obtain ⟨sockets, before, after⟩ := removed_sockets holds connecting channel .handedOver
      (fun b => rfl) performed
    rw [before, after, SocketBook.given_held, SocketBook.given_handedOver]
    simp [ClientLoop.handed, Connector.removal]
  | closes ch connecting channel success off =>
    obtain ⟨sockets, before, after⟩ := removed_sockets holds connecting channel .closed
      (fun b => rfl) performed
    rw [before, after, SocketBook.given_held, SocketBook.given_closed]
    simp [ClientLoop.handed, Connector.removal]

/-- The book lists the sockets that were handed over in the order of the calls. -/
def GivenInOrder (s : ConnectorLife) : Prop :=
  SocketBook.given s.book.sockets = ClientLoop.handed s.calls

theorem Does.givenInOrder {s t : ConnectorLife} {op : Op} (did : Does s op t)
    (situation : Situation s) (before : GivenInOrder s) : GivenInOrder t := by
  have holds := situation.holdsLast
  have ran : ∀ {u v : ConnectorLife} {f : ConnectorFunctor}, u.book = s.book →
      u.calls = s.calls → HoldsLast u → Runs u f v → GivenInOrder v := by
    intro u v f book calls holds ran
    rw [GivenInOrder, given_runs holds ran, book, before, ClientLoop.handed_runs ran, calls]
  have attempted : ∀ {k l : Connector} {calls : List ConnectorCall}, k.Attempts l calls →
      Performed s l calls t → GivenInOrder t := by
    intro k l calls move performed
    rw [GivenInOrder, given_attempts move performed, before,
      ClientLoop.performed_attempts move performed]
  have appended : ∀ {k : Connector} {f : ConnectorFunctor},
      Performed s k [.appendFuncInLoop f] t → GivenInOrder t := by
    intro k f performed
    rw [GivenInOrder, performed.book, performed.journal, ClientLoop.handed_append, ← before]
    exact (List.append_nil _).symm
  cases did with
  | poll phase watched => exact before
  | timer phase timer runs =>
    have kept := ran rfl rfl holds runs
    exact kept
  | timersDone phase => exact before
  | event phase move performed =>
    have given := given_settles (s := { s with phase := .events false false }) holds move
      performed
    rw [GivenInOrder, given, performed.journal, ClientLoop.handed_append]
    exact congrArg (· ++ _) before
  | doAppendFunctors phase => exact before
  | functor phase runs =>
    rename_i f rest
    exact ran (u := { s with phase := .functors rest }) rfl rfl holds runs
  | startNow idle move performed => exact attempted move performed
  | startLater performed => exact appended performed
  | stop performed => exact appended performed
  | restart move performed => exact attempted move performed

end ConnectorLife

namespace ClientLoop

theorem Stands.attempt {s t : ClientLoop} {op : Op} {o : ConnectorLife.Op}
    (stands : Stands s t op o) {a : Connector.Attempt} (h : o.attempt = some a) :
    op.attempt = some a := by
  cases stands with
  | restart attempt =>
    cases h
    exact attempt
  | timer => exact h
  | functor => exact h
  | start => exact h
  | _ => cases h

/-- The connector's calls in one step. -/
theorem Bound.made {s t : ClientLoop} (bound : Bound s) {op : Op} (h : s.step op = .ok t) :
    ∃ made, t.calls = s.calls ++ made ∧ s.connectorLife.Made made ∧
      ∀ sockfd, .socket sockfd ∈ made → ∃ a, op.attempt = some a ∧ a.socket = some sockfd := by
  rcases (step_takes h).life bound.timersFirst bound.alive.located.nodup with
    kept | ⟨o, stands, hstep⟩
  · refine ⟨[], ?_, .nothingClosed (by simp), fun _ mem => absurd mem List.not_mem_nil⟩
    rw [List.append_nil]
    exact congrArg ConnectorLife.calls kept
  · obtain ⟨made, journal, sound⟩ :=
      (ConnectorLife.step_cases hstep).made (bound.restartsIdle stands)
    refine ⟨made, journal, sound, fun sockfd mem => ?_⟩
    obtain ⟨a, attempt, answer⟩ := ConnectorLife.step_socket hstep journal mem
    exact ⟨a, stands.attempt attempt, answer⟩

theorem Bound.givenInOrder {s t : ClientLoop} (bound : Bound s) {op : Op}
    (h : s.step op = .ok t) (before : s.connectorLife.GivenInOrder) :
    t.connectorLife.GivenInOrder := by
  rcases bound.life h with kept | ⟨o, stands, did⟩
  · rw [kept]
    exact before
  · exact did.givenInOrder bound.situation before

/-- What was held before, or the answer to the attempt of this step. -/
theorem Bound.held {s t : ClientLoop} (bound : Bound s) {op : Op} (h : s.step op = .ok t)
    {sockfd : Nat} (mem : (sockfd, .held) ∈ t.connectorLife.book.sockets) :
    (sockfd, .held) ∈ s.connectorLife.book.sockets ∨
      ∃ a, op.attempt = some a ∧ a.socket = some sockfd := by
  obtain ⟨made, journal, _, created⟩ := bound.made h
  have book : t.connectorLife.book = s.connectorLife.book.after made := by
    rw [ConnectorLife.book, show t.connectorLife.calls = s.calls ++ made from journal,
      SocketBook.ofCalls_append]
    rfl
  rw [book] at mem
  exact (SocketBook.held_after mem).imp_right (created sockfd)

/-- A socket that is handed over was held until then, and an attempt has ended. -/
theorem Bound.handedOver {s t : ClientLoop} (bound : Bound s) {op : Op} (h : s.step op = .ok t)
    {sockfd : Nat} (given : handed t.calls = handed s.calls ++ [sockfd]) :
    (sockfd, .held) ∈ s.connectorLife.book.sockets ∧
      t.client.connector.state = .kConnected := by
  obtain ⟨connecting, connected, ch, channel, rfl⟩ := bound.handing h given
  exact ⟨(bound.situation.held_iff ch.fd).mpr ⟨connecting, ch, channel, rfl⟩, connected⟩

end ClientLoop

/-- The descriptor of a connection's socket. -/
def ClientConn.fd (e : ClientConn) : Nat := e.track.conn.channel.fd

/-- Its channel has a slot in `pollfds_` and an entry in `channels_`. -/
def ClientConn.Registered (e : ClientConn) : Prop := e.track.registration.slot ≠ none

/-- A client, and which of its connections were destroyed. -/
structure ClientSockets where
  loop : ClientLoop
  /-- `~TcpConnection` has run, and with it the `::close` of its socket -/
  closed : Nat → Bool

namespace ClientSockets

def new (writeCallback : Bool) : ClientSockets := ⟨.new writeCallback, fun _ => false⟩

inductive Op where
  | loop (op : ClientLoop.Op)
  /-- the last reference to connection `c` is gone -/
  | destroyed (c : Nat)

def step (s : ClientSockets) : Op → Except Failure ClientSockets
  | .loop op =>
    match s.loop.step op with
    | .error e => .error e
    | .ok loop => .ok { s with loop := loop }
  | .destroyed c =>
    if (s.loop.conns c).isSome && !s.loop.held c && !s.closed c then
      .ok { s with closed := Function.update s.closed c true }
    else .error .disabled

/-- The descriptor is in use. -/
def InUse (s : ClientSockets) (sockfd : Nat) : Prop :=
  (sockfd, .held) ∈ s.loop.connectorLife.book.sockets ∨
    ∃ c e, s.loop.conns c = some e ∧ s.closed c = false ∧ e.fd = sockfd

/-- `::socket` answers with a descriptor that is not in use. -/
def FreshSocket (s : ClientSockets) : Op → Prop
  | .loop op => ∀ a sockfd, op.attempt = some a → a.socket = some sockfd → ¬ s.InUse sockfd
  | .destroyed _ => True

/-- The client is not destroyed. -/
def Op.keepsClient : Op → Prop
  | .loop (.destruct _ _) => False
  | _ => True

/-- Every socket that was created is closed, or has one owner. -/
structure Owned (s : ClientSockets) : Prop where
  /-- a held socket is that of `channel_` -/
  held : ∀ sockfd, (sockfd, .held) ∈ s.loop.connectorLife.book.sockets →
    s.loop.client.connector.state = .kConnecting ∧
      ∃ ch, s.loop.client.connector.channel = some ch ∧ ch.fd = sockfd
  single : s.loop.connectorLife.book.sockets.countP (fun x => x.2 = .held) ≤ 1
  /-- the sockets that were handed over are those of the connections, in order -/
  given : ∀ i sockfd, (SocketBook.given s.loop.connectorLife.book.sockets)[i]? = some sockfd →
    ∃ e, s.loop.conns (i + 1) = some e ∧ e.fd = sockfd
  connections : ∀ c, s.loop.conns c ≠ none →
    1 ≤ c ∧ c ≤ (SocketBook.given s.loop.connectorLife.book.sockets).length
  /-- a connection that is not destroyed shares its descriptor with nobody -/
  apart : ∀ c e, s.loop.conns c = some e → s.closed c = false →
    (e.fd, .held) ∉ s.loop.connectorLife.book.sockets ∧
      ∀ d e', s.loop.conns d = some e' → s.closed d = false → e'.fd = e.fd → d = c
  /-- a destroyed connection has neither slot nor entry -/
  unregistered : ∀ c, s.closed c = true → ∃ e, s.loop.conns c = some e ∧ ¬ e.Registered

/-- Some slot of `pollfds_` and an entry of `channels_` are for this descriptor. -/
def Registers (s : ClientSockets) (sockfd : Nat) : Prop :=
  (s.loop.registration.slot ≠ none ∧
      ∃ ch, s.loop.client.connector.channel = some ch ∧ ch.fd = sockfd) ∨
    ∃ c e, s.loop.conns c = some e ∧ e.Registered ∧ e.fd = sockfd

/-- What a step from `s` to `t` closes is the connector's and has no slot and no entry. -/
def ClosesUnregistered (s t : ClientLoop) : Prop :=
  ∀ made before sockfd after, t.calls = s.calls ++ made →
    made = before ++ .close sockfd :: after →
    s.connectorLife.MayClose before sockfd ∧
      ∀ c e, s.conns c = some e ∨ t.conns c = some e → e.Registered → e.fd ≠ sockfd

structure Ledger (s : ClientSockets) : Prop where
  intact : s.loop.Intact
  given : s.loop.connectorLife.GivenInOrder
  gone : ∀ c, s.closed c = true → ∃ e, s.loop.conns c = some e ∧ (s.loop.life c e).Gone
  unheld : ∀ c e, s.loop.conns c = some e → s.closed c = false →
    (e.fd, .held) ∉ s.loop.connectorLife.book.sockets
  distinct : ∀ c d e e', s.loop.conns c = some e → s.loop.conns d = some e' →
    s.closed c = false → s.closed d = false → e'.fd = e.fd → d = c

theorem new_ledger (wc : Bool) : Ledger (new wc) := by
  refine ⟨ClientLoop.new_intact wc, rfl, ?_, ?_, ?_⟩
  · intro c closed
    cases closed
  · intro c e he
    cases he
  · intro c d e e' he
    cases he

theorem Ledger.owned {s : ClientSockets} (h : Ledger s) : Owned s := by
  have situation := h.intact.bound.situation
  refine ⟨fun sockfd => (situation.held_iff sockfd).mp, situation.held_single, ?_, ?_, ?_, ?_⟩
  · rw [h.given]
    exact h.intact.handedOver
  · intro c some
    refine ⟨h.intact.first c some, ?_⟩
    rw [h.given]
    by_contra late
    have number := h.intact.numbered
    exact some (h.intact.bound.alive.located.fresh c (by
      rw [number]
      exact Nat.lt_of_not_le late))
  · intro c e he free
    exact ⟨h.unheld c e he free, fun d e' he' free' => h.distinct c d e e' he he' free free'⟩
  · intro c closed
    obtain ⟨e, he, gone⟩ := h.gone c closed
    exact ⟨e, he, fun registered => registered gone.slot⟩

/-- Only a connection that is not destroyed can be registered. -/
theorem Ledger.open {s : ClientSockets} (h : Ledger s) {c : Nat} {e : ClientConn}
    (he : s.loop.conns c = some e) (registered : e.Registered) : s.closed c = false := by
  cases closed : s.closed c with
  | false => rfl
  | true =>
    obtain ⟨x, hx, gone⟩ := h.gone c closed
    rw [he] at hx
    cases hx
    exact absurd gone.slot registered

/-- A connection that is there after a step was there before, or was made of the socket
that was held. -/
theorem Ledger.conn {s : ClientSockets} (h : Ledger s) {op : ClientLoop.Op} {t : ClientLoop}
    (hstep : s.loop.step op = .ok t) (kept : (Op.loop op).keepsClient) {c : Nat}
    {e' : ClientConn} (he' : t.conns c = some e') :
    (∃ e, s.loop.conns c = some e ∧ e'.fd = e.fd) ∨
      (c = s.loop.client.nextConnId ∧ s.closed c = false ∧
        (e'.fd, .held) ∈ s.loop.connectorLife.book.sockets ∧
        t.client.connector.state = .kConnected ∧
        ClientLoop.handed t.calls = ClientLoop.handed s.loop.calls ++ [e'.fd]) := by
  have kept : ∀ thread unique, op ≠ .destruct thread unique := by
    rintro thread unique rfl
    exact kept
  cases he : s.loop.conns c with
  | some e =>
    obtain ⟨x, hx, fd, _⟩ := h.intact.bound.alive.forward hstep he
    rw [he'] at hx
    cases hx
    exact .inl ⟨e, rfl, fd⟩
  | none =>
    right
    have free : s.closed c = false := by
      cases closed : s.closed c with
      | false => rfl
      | true =>
        obtain ⟨e, some, _⟩ := h.gone c closed
        rw [he] at some
        cases some
    rcases (ClientLoop.step_takes hstep).noneMade with noneMade | ⟨grown, others⟩
    · rw [noneMade c he] at he'
      cases he'
    have new : c = s.loop.client.nextConnId := by
      by_contra other
      rw [others c other he] at he'
      cases he'
    rcases h.intact.bound.connection hstep kept with ⟨⟨_, number⟩, _⟩ |
      ⟨_, _, _, _, _, _, number, _⟩ | ⟨sockfd, _, _, _, given, x, hx, fd⟩
    · omega
    · omega
    · rw [← new, he'] at hx
      cases hx
      obtain ⟨held, connected⟩ := h.intact.bound.handedOver hstep given
      rw [← fd] at held given
      exact ⟨new, free, held, connected, given⟩

theorem Ledger.step_loop {s : ClientSockets} (h : Ledger s) {op : ClientLoop.Op}
    {t : ClientLoop} (hstep : s.loop.step op = .ok t) (kept : (Op.loop op).keepsClient)
    (fresh : FreshSocket s (.loop op)) : Ledger { s with loop := t } := by
  have notDestroyed : ∀ thread unique, op ≠ .destruct thread unique := by
    rintro thread unique rfl
    exact kept
  have bound := h.intact.bound
  refine ⟨h.intact.step hstep notDestroyed, bound.givenInOrder hstep h.given, ?_, ?_, ?_⟩
  · intro c closed
    obtain ⟨e, he, gone⟩ := h.gone c closed
    obtain ⟨e', he', _, _, still⟩ := bound.alive.forward hstep he
    exact ⟨e', he', still gone⟩
  · intro c e' he' free held
    rcases h.conn hstep kept he' with ⟨e, he, fd⟩ | ⟨_, _, _, connected, _⟩
    · rw [fd] at held
      rcases bound.held hstep held with before | ⟨a, attempt, answer⟩
      · exact h.unheld c e he free before
      · exact fresh a e.fd attempt answer (.inr ⟨c, e, he, free, rfl⟩)
    · have connecting := (((bound.step hstep).situation.held_iff e'.fd).mp held).1
      rw [show t.client.connector.state = .kConnecting from connecting] at connected
      cases connected
  · intro c d e e' he he' free free' same
    rcases h.conn hstep kept he with ⟨x, hx, fd⟩ | ⟨new, _, held, _⟩ <;>
      rcases h.conn hstep kept he' with ⟨y, hy, fd'⟩ | ⟨new', _, held', _⟩
    · exact h.distinct c d x y hx hy free free' (by rw [← fd, ← fd', same])
    · rw [same, fd] at held'
      exact absurd held' (h.unheld c x hx free)
    · rw [← same, fd'] at held
      exact absurd held (h.unheld d y hy free')
    · rw [new, new']

theorem Ledger.closesUnregistered {s : ClientSockets} (h : Ledger s) {op : ClientLoop.Op}
    {t : ClientLoop} (hstep : s.loop.step op = .ok t) (kept : (Op.loop op).keepsClient)
    (fresh : FreshSocket s (.loop op)) : ClosesUnregistered s.loop t := by
  intro made before sockfd after journal closes
  obtain ⟨made', journal', sound, created⟩ := h.intact.bound.made hstep
  rw [journal'] at journal
  cases List.append_cancel_left journal
  obtain ⟨may, silent, own⟩ := sound.mayClose h.intact.bound.situation closes
  refine ⟨may, ?_⟩
  have apart : ∀ c e, s.loop.conns c = some e → s.closed c = false → e.fd ≠ sockfd := by
    rintro c e he free rfl
    rcases own with held | made
    · exact h.unheld c e he free held
    · obtain ⟨a, attempt, answer⟩ := created _ made
      exact fresh a e.fd attempt answer (.inr ⟨c, e, he, free, rfl⟩)
  have later := h.step_loop hstep kept fresh
  rintro c e (he | he') registered
  · exact apart c e he (h.open he registered)
  · have free : s.closed c = false := later.open he' registered
    rcases h.conn hstep kept he' with ⟨x, hx, fd⟩ | ⟨_, _, _, _, given⟩
    · rw [fd]
      exact apart c x hx free
    · rw [journal', ClientLoop.handed_append] at given
      have none : ClientLoop.handed made = [] := by
        rw [ClientLoop.handed, List.filterMap_eq_nil_iff]
        intro call mem
        cases call with
        | newConnectionCallback other => exact absurd mem (silent other)
        | _ => rfl
      rw [none] at given
      simp at given

/-- A connection nobody holds any more is destroyed once. -/
theorem destroyed_cases {s t : ClientSockets} {c : Nat} (h : s.step (.destroyed c) = .ok t) :
    (∃ e, s.loop.conns c = some e) ∧ s.loop.held c = false ∧ s.closed c = false ∧
      t = { s with closed := Function.update s.closed c true } := by
  simp only [ClientSockets.step] at h
  split at h
  · rename_i last
    simp only [Bool.and_eq_true, Bool.not_eq_true', Option.isSome_iff_exists] at last
    cases h
    exact ⟨last.1.1, last.1.2, last.2, rfl⟩
  · cases h

theorem Ledger.step {s t : ClientSockets} (h : Ledger s) {op : Op} (kept : op.keepsClient)
    (fresh : FreshSocket s op) (hstep : s.step op = .ok t) : Ledger t := by
  cases op with
  | loop op =>
    simp only [ClientSockets.step] at hstep
    split at hstep
    · cases hstep
    · rename_i loop hloop
      cases hstep
      exact h.step_loop hloop kept fresh
  | destroyed c =>
    obtain ⟨⟨e, he⟩, free, _, rfl⟩ := destroyed_cases hstep
    have fewer : ∀ d, Function.update s.closed c true d = false → s.closed d = false := by
      intro d still
      by_cases own : d = c
      · rw [own, Function.update_self] at still
        cases still
      · rw [Function.update_of_ne own] at still
        exact still
    refine ⟨h.intact, h.given, ?_, ?_, ?_⟩
    · intro d closed
      by_cases own : d = c
      · rw [own]
        exact ⟨e, he, h.intact.gone he free⟩
      · have before : s.closed d = Function.update s.closed c true d :=
          (Function.update_of_ne own ..).symm
        exact h.gone d (before.trans closed)
    · exact fun d x hx still => h.unheld d x hx (fewer d still)
    · exact fun d d' x x' hx hx' still still' =>
        h.distinct d d' x x' hx hx' (fewer d still) (fewer d' still')

/-- No slot and no entry is for the descriptor of a connection that is destroyed. -/
theorem Ledger.destroyed_unregistered {s t : ClientSockets} (h : Ledger s) {c : Nat}
    (hstep : s.step (.destroyed c) = .ok t) :
    ∃ e, s.loop.conns c = some e ∧ ¬ t.Registers e.fd := by
  obtain ⟨⟨e, he⟩, free, still, rfl⟩ := destroyed_cases hstep
  refine ⟨e, he, ?_⟩
  rintro (⟨slot, ch, channel, fd⟩ | ⟨d, e', he', registered, same⟩)
  · have connecting : s.loop.client.connector.state = .kConnecting := by
      by_contra unsettled
      exact slot (h.intact.bound.situation.unregistered unsettled)
    exact h.unheld c e he still
      ((h.intact.bound.situation.held_iff e.fd).mpr ⟨connecting, ch, channel, fd⟩)
  · have open_ := h.open he' registered
    have own := h.distinct c d e e' he he' still open_ same
    subst own
    rw [he] at he'
    cases he'
    exact registered (h.intact.gone he free).slot

theorem reached_ledger {wc : Bool} {labels : List Op} {s : ClientSockets}
    (kept : ∀ op ∈ labels, op.keepsClient) (fresh : Along step FreshSocket (new wc) labels)
    (h : run step (new wc) labels = .ok s) : Ledger s := by
  have keeps : Along step (fun _ op => op.keepsClient) (new wc) labels :=
    along_of_mem (fun op mem _ => kept op mem) _
  exact run_keeps (fun s op t ledger cond hstep => ledger.step cond.1 cond.2 hstep)
    (new_ledger wc) (keeps.and fresh) h

/-- While the client is not destroyed and the kernel gives no descriptor to two sockets,
every socket has one owner until it is closed, is closed by that owner only, and has
neither slot nor entry when it is closed. -/
theorem sockets_owned {wc : Bool} {labels : List Op} {s : ClientSockets}
    (kept : ∀ op ∈ labels, op.keepsClient) (fresh : Along step FreshSocket (new wc) labels)
    (h : run step (new wc) labels = .ok s) :
    Owned s ∧
      (∀ op t, (Op.loop op).keepsClient → FreshSocket s (.loop op) → s.loop.step op = .ok t →
        ClosesUnregistered s.loop t) ∧
      ∀ c t, s.step (.destroyed c) = .ok t →
        ∃ e, s.loop.conns c = some e ∧ ¬ t.Registers e.fd := by
  have ledger := reached_ledger kept fresh h
  exact ⟨ledger.owned, fun op t kept fresh hstep => ledger.closesUnregistered hstep kept fresh,
    fun c t => ledger.destroyed_unregistered⟩

/-- What happens after `connect` until its connection is destroyed. -/
def connectsOnce : List Op :=
  [.loop (.move .loop), .loop (.move .test), .loop (.move (.polled [.connector])),
    .loop (.connectorEvent POLLOUT ⟨none, ClientLoop.twoEnds, none⟩ ClientLoop.twoEnds),
    .loop (.move .doAppendFunctors), .loop (.functor .quiet), .loop (.move .functorsDone),
    .loop (.move .test), .loop (.move (.polled [.conn 1])),
    .loop (.event POLLIN ⟨.read [], [], .accepted 0, none⟩ .quiet),
    .loop (.move .doAppendFunctors), .loop (.functor .quiet)]

/-- The attempt gets descriptor 5. -/
def connects : Op := .loop (.connect (some 0) (.inProgress 5))

theorem connectsOnce_fresh : Along step FreshSocket (new false) (connects :: connectsOnce) := by
  have first : FreshSocket (new false) connects := by
    rintro a sockfd attempt answer (held | ⟨c, e, he, _⟩)
    · cases held
    · cases he
  refine (along_cons_ok rfl).mpr ⟨first, along_of_mem ?_ _⟩
  intro op mem s
  simp only [connectsOnce, List.mem_cons, List.not_mem_nil, or_false] at mem
  rcases mem with rfl | rfl | rfl | rfl | rfl | rfl | rfl | rfl | rfl | rfl | rfl | rfl <;>
  · intro a sockfd attempt answer
    cases attempt <;> cases answer

set_option maxRecDepth 20000 in
theorem connectsOnce_runs : ∃ s, run step (new false) (connects :: connectsOnce) = .ok s ∧
    ∃ t, s.step (.destroyed 1) = .ok t :=
  ⟨_, rfl, _, rfl⟩

theorem sockets_owned_connectsOnce :
    ∃ s, run step (new false) (connects :: connectsOnce) = .ok s ∧ Owned s ∧
      ∃ t e, s.step (.destroyed 1) = .ok t ∧ s.loop.conns 1 = some e ∧
        ¬ t.Registers e.fd := by
  obtain ⟨s, hs, t, ht⟩ := connectsOnce_runs
  have kept : ∀ op ∈ connects :: connectsOnce, op.keepsClient := by
    simp [connects, connectsOnce, Op.keepsClient]
  obtain ⟨owned, _, destroyed⟩ := sockets_owned kept connectsOnce_fresh hs
  obtain ⟨e, he, unregistered⟩ := destroyed 1 t ht
  exact ⟨s, hs, owned, t, e, ht, he, unregistered⟩

end ClientSockets

end ZDQ
