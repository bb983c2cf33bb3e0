import Mathlib.Logic.Function.Basic
import Mathlib.Data.Set.Basic
import Mathlib.Tactic

set_option autoImplicit false

/-! # The event loop

`loop()` hands the events of one `epoll_wait` to their channels one after the other. The kernel
knows a channel by its address, `channels_` and `dying_` own it, and so may anyone else; a channel
that nobody owns may be destroyed at any moment, and `none` is the use of a channel that has been.
What a callback does is left open: it may call the loop in any order and as often as it likes, and
it may throw.

A descriptor is not closed while a channel is registered for it.
-/

namespace EdgeGateway

/-- The address of a channel; the address of a destroyed one is not used again. -/
abbrev ChannelPtr := Nat

structure Channel where
  fd : Int
  events : UInt32
  onRead : Bool
  onWrite : Bool
  ownsFd : Bool
  dead : Bool

def EPOLLIN : UInt32 := 0x001

def EPOLLOUT : UInt32 := 0x004

/-- An entry of the array that `epoll_wait` fills: `data.ptr` and `events`. -/
structure EpollEvent where
  ptr : ChannelPtr
  revents : UInt32

inductive Readiness
  | read
  | write

/-- What the statements are about: calls that have returned, and callbacks that have begun. -/
inductive LoopEvent
  | added (p : ChannelPtr)
  | removed (p : ChannelPtr)
  | invoked (p : ChannelPtr) (kind : Readiness)

/-- Where `loop()` is. At `idle` it is not in a batch, or not running. -/
inductive LoopPoint
  | idle
  | next (rest : List EpollEvent)
  | reading (event : EpollEvent) (rest : List EpollEvent)
  | afterRead (event : EpollEvent) (rest : List EpollEvent)
  | writing (event : EpollEvent) (rest : List EpollEvent)

/-- `interest` is the kernel's list of registrations; `batch` and `log` are kept for the
statements. -/
structure EventLoop where
  heap : ChannelPtr → Option Channel
  fresh : ChannelPtr
  opened : Int → Bool
  interest : Int → Option (ChannelPtr × UInt32)
  channels : Int → Option ChannelPtr
  dying : List ChannelPtr
  running : Bool
  point : LoopPoint
  batch : List EpollEvent
  log : List LoopEvent

namespace EventLoop

def init : EventLoop where
  heap := fun _ => none
  fresh := 0
  opened := fun _ => false
  interest := fun _ => none
  channels := fun _ => none
  dying := []
  running := true
  point := .idle
  batch := []
  log := []

/-! ## What callbacks call -/

/-- `none` is an `EPOLL_CTL_ADD` that fails, and throws before anything has changed. -/
def addChannel (s : EventLoop) (p : ChannelPtr) : Option EventLoop :=
  match s.heap p with
  | none => none
  | some ch =>
      if s.opened ch.fd = true ∧ s.interest ch.fd = none then
        some { s with
          interest := Function.update s.interest ch.fd (some (p, ch.events))
          channels := Function.update s.channels ch.fd (some p)
          log := s.log ++ [.added p] }
      else none

/-- An `EPOLL_CTL_DEL` that fails is only logged. -/
def removeChannel (s : EventLoop) (fd : Int) : EventLoop :=
  let s := { s with interest := Function.update s.interest fd none }
  match s.channels fd with
  | none => s
  | some p =>
      { s with
        heap := Function.update s.heap p ((s.heap p).map fun ch => { ch with dead := true })
        dying := s.dying ++ [p]
        channels := Function.update s.channels fd none
        log := s.log ++ [.removed p] }

/-- A channel's mask is changed, and told to the kernel. -/
def modifyChannel (s : EventLoop) (p : ChannelPtr) (events : UInt32) : Option EventLoop :=
  match s.heap p with
  | none => none
  | some ch =>
      if s.interest ch.fd = none then none
      else
        some { s with
          heap := Function.update s.heap p (some { ch with events := events })
          interest := Function.update s.interest ch.fd (some (p, events)) }

def quit (s : EventLoop) : EventLoop := { s with running := false }

/-! ## `loop()` -/

/-- A successful `epoll_wait`. -/
def wait (s : EventLoop) (batch : List EpollEvent) : EventLoop :=
  { s with point := .next batch, batch := batch }

/-- The next thing `loop()` does in a batch; at a callback, that it returns. -/
def dispatch (s : EventLoop) : Option EventLoop :=
  match s.point with
  | .idle => some s
  | .next [] => some { s with dying := [], point := .idle, batch := [] }
  | .next (event :: rest) =>
      match s.heap event.ptr with
      | none => none
      | some ch =>
          if ch.dead then some { s with point := .next rest }
          else if event.revents &&& EPOLLIN ≠ 0 ∧ ch.onRead then
            some { s with point := .reading event rest, log := s.log ++ [.invoked event.ptr .read] }
          else some { s with point := .afterRead event rest }
  | .reading event rest => some { s with point := .afterRead event rest }
  | .afterRead event rest =>
      if event.revents &&& EPOLLOUT = 0 then some { s with point := .next rest }
      else
        match s.heap event.ptr with
        | none => none
        | some ch =>
            if ch.dead = false ∧ ch.onWrite then
              some { s with
                point := .writing event rest
                log := s.log ++ [.invoked event.ptr .write] }
            else some { s with point := .next rest }
  | .writing _ rest => some { s with point := .next rest }

/-- Whose callback is running. -/
def executing (s : EventLoop) : Option ChannelPtr :=
  match s.point with
  | .reading event _ | .writing event _ => some event.ptr
  | _ => none

/-- Code outside the loop runs in a callback, and when `loop()` is in no batch. -/
def callable (s : EventLoop) : Prop := s.point = .idle ∨ s.executing ≠ none

/-- The containers of the loop own the channel. -/
def Owned (s : EventLoop) (p : ChannelPtr) : Prop := p ∈ s.dying ∨ ∃ fd, s.channels fd = some p

/-- Any order of what callbacks, the owner of the loop, the kernel and `loop()` do. -/
inductive Reachable : EventLoop → Prop
  | init : Reachable init
  | create {s : EventLoop} (ch : Channel) : Reachable s → s.callable → ch.dead = false →
      Reachable { s with
        heap := Function.update s.heap s.fresh (some ch)
        fresh := s.fresh + 1 }
  | add {s t : EventLoop} (p : ChannelPtr) : Reachable s → s.callable → s.addChannel p = some t →
      Reachable t
  | remove {s : EventLoop} (fd : Int) : Reachable s → s.callable → Reachable (s.removeChannel fd)
  -- The channel has to be registered.
  | modify {s t : EventLoop} (p : ChannelPtr) (events : UInt32) : Reachable s → s.callable →
      (∃ fd, s.channels fd = some p) → s.modifyChannel p events = some t → Reachable t
  | quit {s : EventLoop} : Reachable s → Reachable s.quit
  -- An exception leaves `loop()`, which may be called again.
  | throw {s : EventLoop} : Reachable s → s.callable →
      Reachable { s with point := .idle, batch := [] }
  | openFd {s : EventLoop} (fd : Int) : Reachable s →
      Reachable { s with opened := Function.update s.opened fd true }
  -- The kernel drops the registration of a descriptor that is closed.
  | closeFd {s : EventLoop} (fd : Int) : Reachable s → s.channels fd = none →
      Reachable { s with
        opened := Function.update s.opened fd false
        interest := Function.update s.interest fd none }
  -- The last owner of a channel lets go of it.
  | destroy {s : EventLoop} (p : ChannelPtr) (ch : Channel) : Reachable s → ¬ s.Owned p →
      s.heap p = some ch → ch.ownsFd = false →
      Reachable { s with heap := Function.update s.heap p none }
  | destroyFd {s : EventLoop} (p : ChannelPtr) (ch : Channel) : Reachable s → ¬ s.Owned p →
      s.heap p = some ch → ch.ownsFd = true → s.channels ch.fd = none →
      Reachable { s with
        heap := Function.update s.heap p none
        opened := Function.update s.opened ch.fd false
        interest := Function.update s.interest ch.fd none }
  | wait {s : EventLoop} (batch : List EpollEvent) : Reachable s → s.point = .idle →
      s.running = true →
      (∀ event ∈ batch, ∃ fd events, s.interest fd = some (event.ptr, events)) →
      Reachable (s.wait batch)
  | dispatch {s t : EventLoop} : Reachable s → s.dispatch = some t → Reachable t

end EventLoop

end EdgeGateway
