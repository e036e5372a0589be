import ThreadAndNet.Failure

/-!
# Channels: the interest set of one descriptor and the dispatch of its events

`events_` is the set of poll bits the user asked for, `revents_` the set the
poller reported last. The callbacks a channel was given are kept apart, in
`Callbacks`, over whatever names its owner has for them.
-/

namespace ZDQ

def POLLIN : BitVec 32 := 0x001#32
def POLLPRI : BitVec 32 := 0x002#32
def POLLOUT : BitVec 32 := 0x004#32
def POLLERR : BitVec 32 := 0x008#32
def POLLHUP : BitVec 32 := 0x010#32
def POLLNVAL : BitVec 32 := 0x020#32
def POLLRDHUP : BitVec 32 := 0x2000#32

/-- `fd_` is a descriptor the kernel handed out, hence not negative. -/
structure Channel where
  fd : Nat
  events : BitVec 32
  revents : BitVec 32
  index : Int
deriving DecidableEq

namespace Channel

def kNoneEvent : BitVec 32 := 0
def kReadEvent : BitVec 32 := POLLIN ||| POLLPRI
def kWriteEvent : BitVec 32 := POLLOUT

/-- The constructor. -/
def new (fd : Nat) : Channel := ⟨fd, 0, 0, -1⟩

def setIndex (c : Channel) (index : Int) : Channel := { c with index := index }

def isNoneEvent (c : Channel) : Bool := c.events == kNoneEvent
def isReading (c : Channel) : Bool := c.events &&& kReadEvent != 0
def isWriteing (c : Channel) : Bool := c.events &&& kWriteEvent != 0

/-! The changes of `events_`; each is followed by `update()` in the source. -/

def enableReading (c : Channel) : Channel :=
  { c with events := c.events ||| kReadEvent }

def disableReading (c : Channel) : Channel :=
  { c with events := c.events &&& ~~~kReadEvent }

def enableWriteing (c : Channel) : Channel :=
  { c with events := c.events ||| kWriteEvent }

def disableWriteing (c : Channel) : Channel :=
  { c with events := c.events &&& ~~~kWriteEvent }

def disableAll (c : Channel) : Channel := { c with events := kNoneEvent }

@[simp] theorem isWriteing_new (fd : Nat) : (new fd).isWriteing = false := by
  simp [isWriteing, new]

@[simp] theorem isWriteing_enableWriteing (c : Channel) :
    c.enableWriteing.isWriteing = true := by
  simp only [isWriteing, enableWriteing, kWriteEvent, bne_iff_ne]
  intro h
  have bit := congrArg (fun e => e.getLsbD 2) h
  simp [POLLOUT] at bit

@[simp] theorem isWriteing_enableReading (c : Channel) :
    c.enableReading.isWriteing = c.isWriteing := by
  have disjoint : kReadEvent &&& kWriteEvent = 0 := by decide
  simp [isWriteing, enableReading, BitVec.and_or_distrib_right, disjoint]

@[simp] theorem isWriteing_disableWriteing (c : Channel) :
    c.disableWriteing.isWriteing = false := by
  simp [isWriteing, disableWriteing, kWriteEvent, BitVec.and_assoc]

@[simp] theorem isNoneEvent_disableAll (c : Channel) :
    c.disableAll.isNoneEvent = true := by
  simp [isNoneEvent, disableAll]

end Channel

/-- The callbacks of a channel; `none` is an empty `std::function`. -/
structure Callbacks (H : Type*) where
  readCallback : Option H
  writeCallback : Option H
  errorCallback : Option H
  closeCallback : Option H

/-- The callbacks `Channel::handleEvent` invokes, in order. None of them can
change `revents_` or the callbacks meanwhile, so the tests are made once. -/
def Callbacks.handleEvent {H : Type*} (cb : Callbacks H) (revents : BitVec 32) : List H :=
  (if revents &&& POLLHUP != 0 && revents &&& POLLIN == 0
    then cb.closeCallback.toList else []) ++
  (if revents &&& (POLLERR ||| POLLNVAL) != 0 then cb.errorCallback.toList else []) ++
  (if revents &&& (POLLIN ||| POLLPRI ||| POLLRDHUP) != 0
    then cb.readCallback.toList else []) ++
  (if revents &&& POLLOUT != 0 then cb.writeCallback.toList else [])

end ZDQ
