import ThreadAndNet.Registration
import ThreadAndNet.SocketBook

/-!
# A connector on its loop

The connector with what it has on the loop: the poller's record of its channel,
its retry timers and its functors. Of the loop itself only the order of its two
phases is kept. The timers' descriptor has the first slot of the poller, so its
event is handled before that of any connector.
-/

namespace ZDQ

open Machine

/-- Where the loop is. -/
inductive ConnectorPhase where
  /-- between `poll` and `doAppendFunctors`: whether the event of the timers and
  that of `channel_` are still to be handled -/
  | events (timeQueue channel : Bool)
  /-- swapped out functors that are still to be run, and then until `poll` returns -/
  | functors (batch : List ConnectorFunctor)
deriving DecidableEq

namespace ConnectorPhase

def batch : ConnectorPhase → List ConnectorFunctor
  | .events _ _ => []
  | .functors batch => batch

/-- The event of `channel_` is still to be handled. -/
def channel : ConnectorPhase → Bool
  | .events _ channel => channel
  | .functors _ => false

end ConnectorPhase

structure ConnectorLife where
  connector : Connector
  /-- the poller's record of `channel_` -/
  registration : Registration
  timers : List ConnectorFunctor
  phase : ConnectorPhase
  appendFunctors : List ConnectorFunctor
  /-- what the connector called so far -/
  calls : List ConnectorCall

namespace ConnectorLife

def new : ConnectorLife where
  connector := .new
  registration := .fresh
  timers := []
  phase := .functors []
  appendFunctors := []
  calls := []

/-- Its functors that have not been run yet, the oldest first. -/
def queued (s : ConnectorLife) : List ConnectorFunctor := s.phase.batch ++ s.appendFunctors

def onPoller (s : ConnectorLife) (r : Except Failure Registration) :
    Except Failure ConnectorLife :=
  match r with
  | .error e => .error e
  | .ok r => .ok { s with registration := r }

def perform (s : ConnectorLife) (call : ConnectorCall) : Except Failure ConnectorLife :=
  let s := { s with calls := s.calls ++ [call] }
  match call with
  | .update channel => s.onPoller (s.registration.update channel)
  | .remove _ => s.onPoller s.registration.remove
  | .appendFuncInLoop f => .ok { s with appendFunctors := s.appendFunctors ++ [f] }
  | .runAfter _ f => .ok { s with timers := s.timers ++ [f] }
  | .socket _ => .ok s
  | .connect _ => .ok s
  | .close _ => .ok s
  | .newConnectionCallback _ => .ok s

/-- Take over what a member function returned and make its calls in order. -/
def act (s : ConnectorLife) (o : Connector.Outcome) : Except Failure ConnectorLife :=
  match o with
  | .error e => .error e
  | .ok (connector, calls) => run perform { s with connector := connector } calls

/-- Run a functor; a new `channel_` will start with a fresh record. -/
def runFunctor (s : ConnectorLife) (a : Connector.Attempt) (close : Status) :
    ConnectorFunctor → Except Failure ConnectorLife
  | .startInLoop => s.act (s.connector.startInLoop a)
  | .stopInLoop => s.act (s.connector.stopInLoop close)
  | .resetChannel => { s with registration := .fresh }.act s.connector.resetChannel

inductive Op where
  /-- `poll` returned; which of the two descriptors it reports -/
  | poll (timeQueue channel : Bool)
  /-- one of the expired timers -/
  | timer (i : Nat) (a : Connector.Attempt) (close : Status)
  /-- the end of `TimeQueue::handleRead` -/
  | timersDone
  | event (revents : BitVec 32) (a : Connector.EventAnswers)
  | doAppendFunctors
  | functor (a : Connector.Attempt) (close : Status)
  | start (isInLoopThread : Bool) (a : Connector.Attempt)
  | stop
  | restart (a : Connector.Attempt)

def step (s : ConnectorLife) : Op → Except Failure ConnectorLife
  | .poll timeQueue channel =>
    match s.phase with
    | .functors [] =>
      if channel → s.registration.Watched then
        .ok { s with phase := .events timeQueue channel }
      else .error .disabled
    | _ => .error .disabled
  | .timer i a close =>
    match s.phase with
    | .events true _ =>
      match s.timers[i]? with
      | none => .error .disabled
      | some f =>
        match s.runFunctor a close f with
        | .error e => .error e
        | .ok s => .ok { s with timers := s.timers.eraseIdx i }
    | _ => .error .disabled
  | .timersDone =>
    match s.phase with
    | .events true channel => .ok { s with phase := .events false channel }
    | _ => .error .disabled
  | .event revents a =>
    match s.phase with
    | .events false true =>
      { s with phase := .events false false }.act (s.connector.handleEvent revents a)
    | _ => .error .disabled
  | .doAppendFunctors =>
    match s.phase with
    | .events false false =>
      .ok { s with phase := .functors s.appendFunctors, appendFunctors := [] }
    | _ => .error .disabled
  | .functor a close =>
    match s.phase with
    | .functors (f :: rest) => { s with phase := .functors rest }.runFunctor a close f
    | _ => .error .disabled
  | .start isInLoopThread a => s.act (s.connector.start isInLoopThread a)
  | .stop => s.act s.connector.stop
  | .restart a => s.act (s.connector.restart a)

/-! ## Calls -/

/-- The functor a call puts on the loop. -/
def appended : ConnectorCall → Option ConnectorFunctor
  | .appendFuncInLoop f => some f
  | _ => none

/-- The functor a call puts into a timer. -/
def timed : ConnectorCall → Option ConnectorFunctor
  | .runAfter _ f => some f
  | _ => none

/-- What a call does to the poller's record. -/
def recorded (r : Registration) : ConnectorCall → Except Failure Registration
  | .update channel => r.update channel
  | .remove _ => r.remove
  | _ => .ok r

/-- The connector became `k` and these calls were made. -/
structure Performed (s : ConnectorLife) (k : Connector) (calls : List ConnectorCall)
    (t : ConnectorLife) : Prop where
  connector : t.connector = k
  phase : t.phase = s.phase
  timers : t.timers = s.timers ++ calls.filterMap timed
  appendFunctors : t.appendFunctors = s.appendFunctors ++ calls.filterMap appended
  journal : t.calls = s.calls ++ calls
  registration : run recorded s.registration calls = .ok t.registration

theorem perform_cases {s t : ConnectorLife} {call : ConnectorCall}
    (h : s.perform call = .ok t) : Performed s s.connector [call] t := by
  have onPoller : ∀ {r : Except Failure Registration},
      ({ s with calls := s.calls ++ [call] } : ConnectorLife).onPoller r = .ok t →
      ∃ r', r = .ok r' ∧ t = { s with calls := s.calls ++ [call], registration := r' } := by
    intro r h
    cases r with
    | error e => cases h
    | ok r =>
      cases h
      exact ⟨r, rfl, rfl⟩
  cases call with
  | update channel =>
    obtain ⟨r, hr, rfl⟩ := onPoller h
    have made : recorded s.registration (.update channel) = .ok r := hr
    refine ⟨rfl, rfl, ?_, ?_, rfl, ?_⟩
    · simp [timed]
    · simp [appended]
    · exact run_cons_ok made []
  | remove channel =>
    obtain ⟨r, hr, rfl⟩ := onPoller h
    have made : recorded s.registration (.remove channel) = .ok r := hr
    refine ⟨rfl, rfl, ?_, ?_, rfl, ?_⟩
    · simp [timed]
    · simp [appended]
    · exact run_cons_ok made []
  | _ =>
    cases h
    refine ⟨rfl, rfl, ?_, ?_, rfl, rfl⟩
    · simp [timed]
    · simp [appended]

theorem Performed.cons {s m t : ConnectorLife} {call : ConnectorCall} {k : Connector}
    {rest : List ConnectorCall} (first : Performed s m.connector [call] m)
    (later : Performed m k rest t) : Performed s k (call :: rest) t := by
  refine ⟨later.connector, later.phase.trans first.phase, ?_, ?_, ?_, ?_⟩
  · rw [later.timers, first.timers, List.append_assoc, ← List.filterMap_append,
      List.singleton_append]
  · rw [later.appendFunctors, first.appendFunctors, List.append_assoc,
      ← List.filterMap_append, List.singleton_append]
  · rw [later.journal, first.journal, List.append_assoc, List.singleton_append]
  · obtain ⟨r, hr, hnil⟩ := run_cons_inv first.registration
    cases hnil
    rw [run_cons_ok hr]
    exact later.registration

theorem run_perform_cases {calls : List ConnectorCall} {s t : ConnectorLife}
    (h : run perform s calls = .ok t) : Performed s s.connector calls t := by
  induction calls generalizing s with
  | nil =>
    cases h
    refine ⟨rfl, rfl, ?_, ?_, ?_, rfl⟩ <;> simp
  | cons call rest ih =>
    obtain ⟨m, hm, hrest⟩ := run_cons_inv h
    have first := perform_cases hm
    have same := first.connector
    rw [← same] at first ⊢
    exact first.cons (ih hrest)

theorem act_cases {s t : ConnectorLife} {o : Connector.Outcome} (h : s.act o = .ok t) :
    ∃ k calls, o = .ok (k, calls) ∧ Performed s k calls t := by
  unfold act at h
  split at h
  · cases h
  · rename_i k calls
    obtain ⟨connector, phase, timers, appendFunctors, calls', registration⟩ :=
      run_perform_cases h
    exact ⟨k, calls, rfl, connector, phase, timers, appendFunctors, calls', registration⟩

/-! ## What one step can do -/

/-- What a functor can do when it runs. -/
inductive Runs (s : ConnectorLife) : ConnectorFunctor → ConnectorLife → Prop where
  | startInLoop {k : Connector} {calls : List ConnectorCall} {t : ConnectorLife}
      (idle : s.connector.state = .kDisconnected) (move : s.connector.Attempts k calls)
      (performed : Performed s k calls t) : Runs s .startInLoop t
  | notConnecting (idle : s.connector.state ≠ .kConnecting) : Runs s .stopInLoop s
  | stopInLoop {ch : Channel} {t : ConnectorLife} (connecting : s.connector.state = .kConnecting)
      (channel : s.connector.channel = some ch)
      (performed : Performed s (s.connector.dropped ch)
        (Connector.removal ch ++ .close ch.fd :: s.connector.retryTimer) t) :
      Runs s .stopInLoop t
  | resetChannel : Runs s .resetChannel
      { s with connector := { s.connector with channel := none }, registration := .fresh }

theorem runFunctor_cases {s t : ConnectorLife} {a : Connector.Attempt} {close : Status}
    {f : ConnectorFunctor} (h : s.runFunctor a close f = .ok t) : Runs s f t := by
  cases f with
  | startInLoop =>
    obtain ⟨k, calls, hk, performed⟩ := act_cases h
    obtain ⟨idle, move⟩ := Connector.startInLoop_cases hk
    exact .startInLoop idle move performed
  | stopInLoop =>
    simp only [runFunctor] at h
    obtain ⟨k, calls, hk, performed⟩ := act_cases h
    rcases Connector.stopInLoop_cases hk with ⟨idle, rfl, rfl⟩ | ⟨connecting, ch, channel, rfl, rfl⟩
    · rw [hk] at h
      cases h
      exact .notConnecting idle
    · exact .stopInLoop connecting channel performed
  | resetChannel =>
    cases h
    exact .resetChannel

/-- What a step can do. -/
inductive Does (s : ConnectorLife) : Op → ConnectorLife → Prop where
  | poll {timeQueue channel : Bool} (phase : s.phase = .functors [])
      (watched : channel → s.registration.Watched) :
      Does s (.poll timeQueue channel) { s with phase := .events timeQueue channel }
  | timer {i : Nat} {a : Connector.Attempt} {close : Status} {channel : Bool}
      {f : ConnectorFunctor} {t : ConnectorLife} (phase : s.phase = .events true channel)
      (timer : s.timers[i]? = some f) (ran : Runs s f t) :
      Does s (.timer i a close) { t with timers := t.timers.eraseIdx i }
  | timersDone {channel : Bool} (phase : s.phase = .events true channel) :
      Does s .timersDone { s with phase := .events false channel }
  | event {revents : BitVec 32} {a : Connector.EventAnswers} {k : Connector}
      {calls : List ConnectorCall} {t : ConnectorLife} (phase : s.phase = .events false true)
      (move : s.connector.Settles revents a k calls)
      (performed : Performed { s with phase := .events false false } k calls t) :
      Does s (.event revents a) t
  | doAppendFunctors (phase : s.phase = .events false false) :
      Does s .doAppendFunctors
        { s with phase := .functors s.appendFunctors, appendFunctors := [] }
  | functor {a : Connector.Attempt} {close : Status} {f : ConnectorFunctor}
      {rest : List ConnectorFunctor} {t : ConnectorLife} (phase : s.phase = .functors (f :: rest))
      (ran : Runs { s with phase := .functors rest } f t) : Does s (.functor a close) t
  | startNow {a : Connector.Attempt} {k : Connector} {calls : List ConnectorCall}
      {t : ConnectorLife} (idle : s.connector.state = .kDisconnected)
      (move : { s.connector with connect_ := true }.Attempts k calls)
      (performed : Performed s k calls t) : Does s (.start true a) t
  | startLater {a : Connector.Attempt} {t : ConnectorLife}
      (performed : Performed s { s.connector with connect_ := true }
        [.appendFuncInLoop .startInLoop] t) : Does s (.start false a) t
  | stop {t : ConnectorLife}
      (performed : Performed s { s.connector with connect_ := false }
        [.appendFuncInLoop .stopInLoop] t) : Does s .stop t
  | restart {a : Connector.Attempt} {k : Connector} {calls : List ConnectorCall}
      {t : ConnectorLife}
      (move : { s.connector with
        state := .kDisconnected
        retryDelayMs := Connector.kInitRetryDelayMs
        connect_ := true }.Attempts k calls)
      (performed : Performed s k calls t) : Does s (.restart a) t

theorem step_cases {s t : ConnectorLife} {op : Op} (h : s.step op = .ok t) : Does s op t := by
  cases op with
  | poll timeQueue channel =>
    simp only [step] at h
    split at h
    · rename_i phase
      split at h
      · rename_i watched
        cases h
        exact .poll phase watched
      · cases h
    · cases h
  | timer i a close =>
    simp only [step] at h
    split at h
    · rename_i channel phase
      split at h
      · cases h
      rename_i f timer
      split at h
      · cases h
      rename_i m hm
      cases h
      exact .timer phase timer (runFunctor_cases hm)
    · cases h
  | timersDone =>
    simp only [step] at h
    split at h
    · rename_i channel phase
      cases h
      exact .timersDone phase
    · cases h
  | event revents a =>
    simp only [step] at h
    split at h
    · rename_i phase
      obtain ⟨k, calls, hk, performed⟩ := act_cases h
      exact .event phase (Connector.handleEvent_cases hk) performed
    · cases h
  | doAppendFunctors =>
    simp only [step] at h
    split at h
    · rename_i phase
      cases h
      exact .doAppendFunctors phase
    · cases h
  | functor a close =>
    simp only [step] at h
    split at h
    · rename_i f rest phase
      exact .functor phase (runFunctor_cases h)
    · cases h
  | start isInLoopThread a =>
    obtain ⟨k, calls, hk, performed⟩ := act_cases h
    cases isInLoopThread with
    | true =>
      obtain ⟨idle, move⟩ := Connector.startInLoop_cases hk
      exact .startNow idle move performed
    | false =>
      cases hk
      exact .startLater performed
  | stop =>
    simp only [step] at h
    obtain ⟨k, calls, hk, performed⟩ := act_cases h
    cases hk
    exact .stop performed
  | restart a =>
    obtain ⟨k, calls, hk, performed⟩ := act_cases h
    exact .restart (Connector.startInLoop_cases hk).2 performed

/-! ## Calls that leave the poller and the queue alone -/

/-- Calls of this list neither append a functor nor change the poller's record. -/
structure Aside (calls : List ConnectorCall) : Prop where
  appended : calls.filterMap appended = []
  recorded : ∀ r, run recorded r calls = .ok r

theorem aside_nil : Aside [] := ⟨rfl, fun _ => rfl⟩

theorem aside_socket (sockfd : Nat) : Aside [.socket sockfd, .connect sockfd, .close sockfd] :=
  ⟨rfl, fun _ => rfl⟩

theorem aside_close (sockfd : Nat) : Aside [.close sockfd] := ⟨rfl, fun _ => rfl⟩

theorem aside_newConnectionCallback (sockfd : Nat) : Aside [.newConnectionCallback sockfd] :=
  ⟨rfl, fun _ => rfl⟩

theorem aside_retryTimer (k : Connector) : Aside k.retryTimer := by
  unfold Connector.retryTimer
  split
  · exact ⟨rfl, fun _ => rfl⟩
  · exact aside_nil

theorem Aside.append {calls more : List ConnectorCall} (h : Aside calls) (h' : Aside more) :
    Aside (calls ++ more) := by
  refine ⟨?_, fun r => ?_⟩
  · rw [List.filterMap_append, h.appended, h'.appended, List.append_nil]
  · rw [run_append, h.recorded r]
    exact h'.recorded r

/-- The timers a list of calls sets run `startInLoop`. -/
def Retries (calls : List ConnectorCall) : Prop :=
  ∀ f ∈ calls.filterMap timed, f = .startInLoop

theorem retries_retryTimer (k : Connector) : Retries k.retryTimer := by
  unfold Connector.retryTimer
  split
  · simp [Retries, timed]
  · simp [Retries]

theorem Performed.queued {s t : ConnectorLife} {k : Connector} {calls : List ConnectorCall}
    (h : Performed s k calls t) : t.queued = s.queued ++ calls.filterMap appended := by
  rw [ConnectorLife.queued, h.phase, h.appendFunctors, ConnectorLife.queued, List.append_assoc]

theorem Performed.record {s t : ConnectorLife} {k : Connector} {calls : List ConnectorCall}
    (h : Performed s k calls t) (aside : Aside calls) :
    t.registration = s.registration ∧ t.queued = s.queued := by
  have kept := h.registration
  rw [aside.recorded] at kept
  refine ⟨(Except.ok.inj kept).symm, ?_⟩
  rw [h.queued, aside.appended, List.append_nil]

/-! ## The connector, its channel and its sockets -/

/-- The channel's event is still to be handled. -/
def active (s : ConnectorLife) : Bool := s.phase.channel

/-- How many functors will destroy `channel_`. -/
def resets (s : ConnectorLife) : Nat := s.queued.count .resetChannel

def book (s : ConnectorLife) : SocketBook := .ofCalls s.calls

/-- Where `channel_` is in its life. -/
inductive Situation (s : ConnectorLife) : Prop where
  /-- it is registered for the last socket -/
  | connecting (ch : Channel) (pfd : PollFd) (sockets : List (Nat × SocketFate))
      (state : s.connector.state = .kConnecting) (channel : s.connector.channel = some ch)
      (registration : s.registration = ⟨true, some pfd⟩) (own : pfd.fd = ch.fd)
      (resets : s.resets = 0) (book : s.book = ⟨(ch.fd, .held) :: sockets, some ch.fd⟩)
      (settled : SocketBook.Settled sockets)
  /-- it is removed, and one functor is going to destroy it -/
  | leaving (ch : Channel) (sockets : List (Nat × SocketFate))
      (state : s.connector.state ≠ .kConnecting) (channel : s.connector.channel = some ch)
      (registration : s.registration = ⟨true, none⟩) (resets : s.resets = 1)
      (inactive : s.active = false) (book : s.book = ⟨sockets, none⟩)
      (settled : SocketBook.Settled sockets)
  /-- there is none -/
  | idle (sockets : List (Nat × SocketFate))
      (state : s.connector.state ≠ .kConnecting) (channel : s.connector.channel = none)
      (registration : s.registration = .fresh) (resets : s.resets = 0)
      (inactive : s.active = false) (book : s.book = ⟨sockets, none⟩)
      (settled : SocketBook.Settled sockets)

theorem new_situation : Situation new :=
  .idle [] (by simp [new, Connector.new]) rfl rfl rfl rfl rfl SocketBook.settled_nil

/-- Only a channel that is registered is reported. -/
theorem Situation.watched {s : ConnectorLife} (h : Situation s)
    (watched : s.registration.Watched) : s.connector.state = .kConnecting := by
  cases h with
  | connecting ch pfd sockets state => exact state
  | leaving ch sockets state channel registration =>
    rw [registration] at watched
    simp [Registration.Watched] at watched
  | idle sockets state channel registration =>
    rw [registration] at watched
    simp [Registration.Watched, Registration.fresh] at watched

/-- While an attempt is in progress, its socket is the last one. -/
theorem Situation.last {s : ConnectorLife} (h : Situation s)
    (connecting : s.connector.state = .kConnecting) {ch : Channel}
    (channel : s.connector.channel = some ch) :
    ∃ pfd sockets, s.registration = ⟨true, some pfd⟩ ∧
      s.book = ⟨(ch.fd, .held) :: sockets, some ch.fd⟩ ∧ SocketBook.Settled sockets := by
  cases h with
  | connecting ch' pfd sockets _ hchannel registration _ _ book settled =>
    cases channel.symm.trans hchannel
    exact ⟨pfd, sockets, registration, book, settled⟩
  | leaving _ _ state => exact absurd connecting state
  | idle _ state => exact absurd connecting state

/-- A functor that is to destroy the channel finds one. -/
theorem Situation.occupied {s : ConnectorLife} (h : Situation s)
    (pending : .resetChannel ∈ s.queued) : s.connector.channel ≠ none := by
  have some : 0 < s.resets := List.count_pos_iff.mpr pending
  cases h with
  | connecting _ _ _ _ channel =>
    rw [channel]
    simp
  | leaving _ _ _ channel =>
    rw [channel]
    simp
  | idle _ _ _ _ resets => omega

/-- Nothing changed of what a situation is about. -/
structure Alike (s t : ConnectorLife) : Prop where
  state : t.connector.state = s.connector.state
  channel : t.connector.channel = s.connector.channel
  registration : t.registration = s.registration
  resets : t.resets = s.resets
  active : t.active = true → s.active = true ∨ s.connector.state = .kConnecting
  book : t.book = s.book

theorem Situation.alike {s t : ConnectorLife} (h : Situation s) (same : Alike s t) :
    Situation t := by
  have inactive : s.active = false → s.connector.state ≠ .kConnecting → t.active = false := by
    intro quiet settled
    cases active : t.active with
    | false => rfl
    | true =>
      rcases same.active active with was | connecting
      · rw [quiet] at was
        cases was
      · exact absurd connecting settled
  cases h with
  | connecting ch pfd sockets state channel registration own resets book settled =>
    exact .connecting ch pfd sockets (same.state.trans state) (same.channel.trans channel)
      (same.registration.trans registration) own (same.resets.trans resets)
      (same.book.trans book) settled
  | leaving ch sockets state channel registration resets quiet book settled =>
    exact .leaving ch sockets (by rw [same.state]; exact state) (same.channel.trans channel)
      (same.registration.trans registration) (same.resets.trans resets)
      (inactive quiet state) (same.book.trans book) settled
  | idle sockets state channel registration resets quiet book settled =>
    exact .idle sockets (by rw [same.state]; exact state) (same.channel.trans channel)
      (same.registration.trans registration) (same.resets.trans resets)
      (inactive quiet state) (same.book.trans book) settled

theorem Performed.book {s t : ConnectorLife} {k : Connector} {calls : List ConnectorCall}
    (h : Performed s k calls t) : t.book = s.book.after calls := by
  rw [ConnectorLife.book, h.journal, SocketBook.ofCalls_append, ← ConnectorLife.book]

theorem Performed.resets {s t : ConnectorLife} {k : Connector} {calls : List ConnectorCall}
    (h : Performed s k calls t) :
    t.resets = s.resets + (calls.filterMap appended).count .resetChannel := by
  rw [ConnectorLife.resets, h.queued, List.count_append, ← ConnectorLife.resets]

theorem Performed.active {s t : ConnectorLife} {k : Connector} {calls : List ConnectorCall}
    (h : Performed s k calls t) : t.active = s.active := by
  rw [ConnectorLife.active, h.phase, ← ConnectorLife.active]

/-- Calls that only created sockets and closed them. -/
theorem Situation.keeps {s t : ConnectorLife} (h : Situation s)
    (unsettled : s.connector.state ≠ .kConnecting) {k : Connector} {calls : List ConnectorCall}
    (state : k.state ≠ .kConnecting) (channel : k.channel = s.connector.channel)
    (aside : Aside calls) {more : List (Nat × SocketFate)} (known : SocketBook.Settled more)
    (outcome : ∀ b : SocketBook, b.after calls = ⟨more ++ b.sockets, b.registered⟩)
    (performed : Performed s k calls t) : Situation t := by
  obtain ⟨registration, queued⟩ := performed.record aside
  have resets : t.resets = s.resets := by rw [ConnectorLife.resets, queued, ← ConnectorLife.resets]
  have book := performed.book
  rw [outcome] at book
  have state' : t.connector.state ≠ .kConnecting := by rw [performed.connector]; exact state
  have channel' : t.connector.channel = s.connector.channel := by
    rw [performed.connector, channel]
  cases h with
  | connecting _ _ _ connecting => exact absurd connecting unsettled
  | leaving ch sockets _ hchannel hregistration hresets inactive hbook settled =>
    refine .leaving ch (more ++ sockets) state' (channel'.trans hchannel)
      (registration.trans hregistration) (resets.trans hresets)
      (performed.active.trans inactive) ?_ (known.append settled)
    rw [book, hbook]
  | idle sockets _ hchannel hregistration hresets inactive hbook settled =>
    refine .idle (more ++ sockets) state' (channel'.trans hchannel)
      (registration.trans hregistration) (resets.trans hresets)
      (performed.active.trans inactive) ?_ (known.append settled)
    rw [book, hbook]

/-- An attempt is made while none is in progress. -/
theorem Situation.attempts {s t : ConnectorLife} (h : Situation s)
    (unsettled : s.connector.state ≠ .kConnecting) {k l : Connector}
    (state : k.state ≠ .kConnecting) (channel : k.channel = s.connector.channel)
    {calls : List ConnectorCall} (move : k.Attempts l calls) (performed : Performed s l calls t) :
    Situation t := by
  have closed : ∀ sockfd : Nat, SocketBook.Settled [(sockfd, .closed)] :=
    fun sockfd => SocketBook.settled_nil.cons (by simp)
  cases move with
  | unwanted off =>
    exact h.keeps unsettled state channel aside_nil SocketBook.settled_nil (fun _ => rfl)
      performed
  | connects sockfd wanted empty =>
    cases h with
    | connecting _ _ _ connecting => exact absurd connecting unsettled
    | leaving ch _ _ hchannel =>
      rw [channel, hchannel] at empty
      cases empty
    | idle sockets _ hchannel hregistration hresets inactive hbook settled =>
      have registration := performed.registration
      rw [hregistration] at registration
      have made := Except.ok.inj registration
      refine .connecting (Connector.attemptChannel sockfd) _ sockets ?_ ?_ made.symm rfl ?_ ?_
        settled
      · rw [performed.connector]
      · rw [performed.connector]
      · rw [performed.resets, hresets]
        rfl
      · rw [performed.book, SocketBook.after_attempt, hbook]
        rfl
  | retries sockfd wanted =>
    refine h.keeps unsettled ?_ ?_ ((aside_socket sockfd).append (aside_retryTimer k))
      (closed sockfd) ?_ performed
    · simp [Connector.retried]
    · exact channel
    · intro b
      rw [SocketBook.after_append, SocketBook.after_retryTimer, SocketBook.after_refused]
      rfl
  | givesUp sockfd wanted =>
    exact h.keeps unsettled state channel (aside_socket sockfd) (closed sockfd)
      (fun b => SocketBook.after_refused b sockfd) performed

/-- The attempt in progress has ended, whatever became of its socket. -/
theorem Situation.leaves {s t : ConnectorLife} (h : Situation s) {ch : Channel}
    (channel : s.connector.channel = some ch) (connecting : s.connector.state = .kConnecting)
    (inactive : t.active = false) {k : Connector} (state : k.state ≠ .kConnecting)
    (disabled : k.channel = some ch.disableAll) (fate : SocketFate) (known : fate ≠ .held)
    {rest : List ConnectorCall} (aside : Aside rest)
    (outcome : ∀ b : SocketBook, b.after rest =
      { b with sockets := SocketBook.settle ch.fd fate b.sockets })
    (performed : Performed s k (Connector.removal ch ++ rest) t) : Situation t := by
  cases h with
  | connecting ch' pfd sockets _ hchannel hregistration own hresets hbook settled =>
    cases channel.symm.trans hchannel
    have registration := performed.registration
    rw [hregistration, run_append] at registration
    have removed : run recorded ⟨true, some pfd⟩ (Connector.removal ch) = .ok ⟨true, none⟩ := rfl
    rw [removed] at registration
    dsimp only at registration
    rw [aside.recorded] at registration
    refine .leaving ch.disableAll ((ch.fd, fate) :: sockets) ?_ ?_
      (Except.ok.inj registration).symm ?_ inactive ?_ (settled.cons known)
    · rw [performed.connector]
      exact state
    · rw [performed.connector]
      exact disabled
    · rw [performed.resets, hresets, List.filterMap_append, aside.appended, List.append_nil]
      rfl
    · rw [performed.book, SocketBook.after_append, hbook, SocketBook.after_removal, outcome]
      simp
  | leaving _ _ settled => exact absurd connecting settled
  | idle _ settled => exact absurd connecting settled

/-- The functor that destroys `channel_` has run. -/
theorem Situation.reset {s t : ConnectorLife} (h : Situation s)
    (pending : s.resets = t.resets + 1) (active : t.active = s.active)
    (connector : t.connector = { s.connector with channel := none })
    (registration : t.registration = .fresh) (book : t.book = s.book) : Situation t := by
  cases h with
  | connecting _ _ _ _ _ _ _ hresets => omega
  | leaving ch sockets state _ _ hresets inactive hbook settled =>
    refine .idle sockets ?_ ?_ registration (by omega) (active.trans inactive)
      (book.trans hbook) settled
    · rw [connector]
      exact state
    · rw [connector]
  | idle _ _ _ _ hresets => omega

/-- A functor that spares the channel was appended, and `connect_` was set. -/
theorem Performed.alike_append {s t : ConnectorLife} {connect_ : Bool} {f : ConnectorFunctor}
    (h : Performed s { s.connector with connect_ := connect_ } [.appendFuncInLoop f] t)
    (spares : f ≠ .resetChannel) : Alike s t := by
  have registration := h.registration
  refine ⟨?_, ?_, (Except.ok.inj registration).symm, ?_, ?_, h.book⟩
  · rw [h.connector]
  · rw [h.connector]
  · rw [h.resets]
    simp [appended, spares]
  · rw [h.active]
    exact .inl

theorem Situation.settles {s t : ConnectorLife} (h : Situation s) (inactive : s.active = false)
    {revents : BitVec 32} {a : Connector.EventAnswers} {k : Connector}
    {calls : List ConnectorCall} (move : s.connector.Settles revents a k calls)
    (performed : Performed s k calls t) : Situation t := by
  have inactive' : t.active = false := performed.active.trans inactive
  cases move with
  | stays ignored =>
    obtain ⟨registration, queued⟩ := performed.record aside_nil
    refine h.alike ⟨?_, ?_, registration, ?_, ?_, performed.book⟩
    · rw [performed.connector]
    · rw [performed.connector]
    · rw [ConnectorLife.resets, queued, ← ConnectorLife.resets]
    · rw [performed.active]
      exact .inl
  | drops ch connecting channel failed =>
    refine h.leaves channel connecting inactive' (by simp [Connector.dropped, Connector.retried])
      rfl .closed (by simp) ((aside_close ch.fd).append (aside_retryTimer _)) ?_
      performed
    intro b
    rw [SocketBook.after_append, SocketBook.after_retryTimer]
    rfl
  | hands ch connecting channel success wanted =>
    exact h.leaves channel connecting inactive' (by simp) rfl .handedOver (by simp)
      (aside_newConnectionCallback ch.fd) (fun _ => rfl) performed
  | closes ch connecting channel success off =>
    exact h.leaves channel connecting inactive' (by simp) rfl .closed (by simp)
      (aside_close ch.fd) (fun _ => rfl) performed

/-- A functor that was taken out of the queue runs. -/
theorem Situation.functor {s t : ConnectorLife} (h : Situation s) {f : ConnectorFunctor}
    {rest : List ConnectorFunctor} (phase : s.phase = .functors (f :: rest))
    (ran : Runs { s with phase := .functors rest } f t) : Situation t := by
  have queued : s.queued = f :: ({ s with phase := .functors rest } : ConnectorLife).queued := by
    simp [ConnectorLife.queued, ConnectorPhase.batch, phase]
  have quiet : s.active = false := by rw [active, phase]; rfl
  have taken : f ≠ .resetChannel → Situation { s with phase := .functors rest } := by
    intro spares
    refine h.alike ⟨rfl, rfl, rfl, ?_, ?_, rfl⟩
    · rw [resets, resets, queued, List.count_cons_of_ne spares]
    · simp [active, ConnectorPhase.channel]
  cases ran with
  | startInLoop idle move performed =>
    have unsettled : s.connector.state ≠ .kConnecting := by rw [idle]; simp
    exact (taken (by simp)).attempts unsettled unsettled rfl move performed
  | notConnecting idle => exact taken (by simp)
  | stopInLoop connecting channel performed =>
    rename_i ch
    refine (taken (by simp)).leaves channel connecting ?_
      (by simp [Connector.dropped, Connector.retried]) rfl .closed (by simp)
      ((aside_close ch.fd).append (aside_retryTimer _)) ?_ performed
    · rw [performed.active]
      rfl
    · intro b
      rw [SocketBook.after_append, SocketBook.after_retryTimer]
      rfl
  | resetChannel =>
    refine h.reset ?_ ?_ rfl rfl rfl
    · rw [resets, queued, List.count_cons_self]
      rfl
    · rw [quiet]
      rfl

/-- Only `startInLoop` is ever put into a timer. -/
def TimersRetry (s : ConnectorLife) : Prop := ∀ f ∈ s.timers, f = .startInLoop

theorem Performed.timersRetry {s t : ConnectorLife} {k : Connector}
    {calls : List ConnectorCall} (h : Performed s k calls t) (before : TimersRetry s)
    (retries : Retries calls) : TimersRetry t := by
  intro f mem
  rw [h.timers, List.mem_append] at mem
  exact mem.elim (before f) (retries f)

theorem Retries.append {calls more : List ConnectorCall} (h : Retries calls)
    (h' : Retries more) : Retries (calls ++ more) := by
  intro f mem
  rw [List.filterMap_append, List.mem_append] at mem
  exact mem.elim (h f) (h' f)

theorem attempts_retries {k l : Connector} {calls : List ConnectorCall}
    (move : k.Attempts l calls) : Retries calls := by
  cases move with
  | retries sockfd wanted =>
    have none : Retries [.socket sockfd, .connect sockfd, .close sockfd] := by
      simp [Retries, timed]
    exact none.append (retries_retryTimer k)
  | _ => simp [Retries, timed]

theorem removal_retries (ch : Channel) {calls : List ConnectorCall} (h : Retries calls) :
    Retries (Connector.removal ch ++ calls) := by
  have none : Retries (Connector.removal ch) := by simp [Retries, timed, Connector.removal]
  exact none.append h

theorem dropped_retries (k : Connector) (ch : Channel) :
    Retries (Connector.removal ch ++ .close ch.fd :: k.retryTimer) := by
  have none : Retries [.close ch.fd] := by simp [Retries, timed]
  exact removal_retries ch (none.append (retries_retryTimer k))

theorem settles_retries {k l : Connector} {revents : BitVec 32} {a : Connector.EventAnswers}
    {calls : List ConnectorCall} (move : k.Settles revents a l calls) : Retries calls := by
  cases move with
  | stays ignored => simp [Retries]
  | drops ch connecting channel failed => exact dropped_retries k ch
  | hands ch connecting channel success wanted =>
    exact removal_retries ch (by simp [Retries, timed])
  | closes ch connecting channel success off => exact removal_retries ch (by simp [Retries, timed])

theorem runs_timersRetry {s t : ConnectorLife} {f : ConnectorFunctor} (before : TimersRetry s)
    (ran : Runs s f t) : TimersRetry t := by
  cases ran with
  | startInLoop idle move performed =>
    exact performed.timersRetry before (attempts_retries move)
  | notConnecting idle => exact before
  | stopInLoop connecting channel performed =>
    exact performed.timersRetry before (dropped_retries _ _)
  | resetChannel => exact before

theorem Does.timersRetry {s t : ConnectorLife} {op : Op} (did : Does s op t)
    (before : TimersRetry s) : TimersRetry t := by
  cases did with
  | poll phase watched => exact before
  | timer phase timer ran =>
    intro f mem
    exact runs_timersRetry before ran f (List.mem_of_mem_eraseIdx mem)
  | timersDone phase => exact before
  | event phase move performed => exact performed.timersRetry before (settles_retries move)
  | doAppendFunctors phase => exact before
  | functor phase ran =>
    refine runs_timersRetry ?_ ran
    exact before
  | startNow idle move performed => exact performed.timersRetry before (attempts_retries move)
  | startLater performed => exact performed.timersRetry before (by simp [Retries, timed])
  | stop performed => exact performed.timersRetry before (by simp [Retries, timed])
  | restart move performed => exact performed.timersRetry before (attempts_retries move)

/-- `restart()` is not called while an attempt is in progress. -/
def RestartsIdle (s : ConnectorLife) (op : Op) : Prop :=
  ∀ a, op = .restart a → s.connector.state ≠ .kConnecting

theorem Does.situation {s t : ConnectorLife} {op : Op} (did : Does s op t) (h : Situation s)
    (timersRetry : TimersRetry s) (admitted : RestartsIdle s op) : Situation t := by
  cases did with
  | poll phase watched =>
    refine h.alike ⟨rfl, rfl, rfl, ?_, fun on => .inr (h.watched (watched on)), rfl⟩
    simp [resets, ConnectorLife.queued, ConnectorPhase.batch, phase]
  | timer phase timer ran =>
    have retry := timersRetry _ (List.mem_of_getElem? timer)
    subst retry
    cases ran with
    | startInLoop idle move performed =>
      have unsettled : s.connector.state ≠ .kConnecting := by rw [idle]; simp
      have ran := h.attempts unsettled unsettled rfl move performed
      exact ran.alike ⟨rfl, rfl, rfl, rfl, .inl, rfl⟩
  | timersDone phase =>
    refine h.alike ⟨rfl, rfl, rfl, ?_, ?_, rfl⟩
    · simp [resets, ConnectorLife.queued, ConnectorPhase.batch, phase]
    · rw [active, active, phase]
      exact .inl
  | event phase move performed =>
    have taken : Situation { s with phase := .events false false } := by
      refine h.alike ⟨rfl, rfl, rfl, ?_, ?_, rfl⟩
      · simp [resets, ConnectorLife.queued, ConnectorPhase.batch, phase]
      · simp [active, ConnectorPhase.channel]
    exact taken.settles rfl move performed
  | doAppendFunctors phase =>
    refine h.alike ⟨rfl, rfl, rfl, ?_, ?_, rfl⟩
    · simp [resets, ConnectorLife.queued, ConnectorPhase.batch, phase]
    · simp [active, ConnectorPhase.channel]
  | functor phase ran => exact h.functor phase ran
  | startNow idle move performed =>
    have unsettled : s.connector.state ≠ .kConnecting := by rw [idle]; simp
    refine h.attempts unsettled ?_ ?_ move performed
    · exact unsettled
    · rfl
  | startLater performed => exact h.alike (performed.alike_append (by simp))
  | stop performed => exact h.alike (performed.alike_append (by simp))
  | restart move performed =>
    refine h.attempts (admitted _ rfl) ?_ ?_ move performed
    · simp
    · rfl

/-- Only `restart` takes a connected connector out of its state. -/
theorem Does.connected {s t : ConnectorLife} {op : Op} (did : Does s op t)
    (connected : s.connector.state = .kConnected) (noRestart : ∀ a, op ≠ .restart a) :
    t.connector.state = .kConnected := by
  have runs : ∀ {u v : ConnectorLife} {f : ConnectorFunctor},
      u.connector.state = .kConnected → Runs u f v → v.connector.state = .kConnected := by
    intro u v f connected ran
    cases ran with
    | startInLoop idle =>
      rw [connected] at idle
      cases idle
    | notConnecting => exact connected
    | stopInLoop connecting =>
      rw [connected] at connecting
      cases connecting
    | resetChannel => exact connected
  cases did with
  | poll phase watched => exact connected
  | timer phase timer ran =>
    have later := runs connected ran
    exact later
  | timersDone phase => exact connected
  | event phase move performed =>
    rw [performed.connector]
    cases move with
    | stays ignored => exact connected
    | drops ch connecting =>
      rw [connected] at connecting
      cases connecting
    | hands => rfl
    | closes => rfl
  | doAppendFunctors phase => exact connected
  | functor phase ran =>
    refine runs ?_ ran
    exact connected
  | startNow idle =>
    rw [connected] at idle
    cases idle
  | startLater performed =>
    rw [performed.connector]
    exact connected
  | stop performed =>
    rw [performed.connector]
    exact connected
  | restart move performed => exact absurd rfl (noRestart _)

end ConnectorLife

end ZDQ
