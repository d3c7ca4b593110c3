import CanisLink.Confine
import CanisLink.Feed
import CanisLink.Requests
/-!
# DeviceSocket — the realtime channel of a device

`device_ws` checks the credentials; `device_ws_loop` then subscribes to the dog's channel, says hello, and at each turn
of its loop sends a ping, passes on one event or reads from the device.  The channel keeps 128 events: a loop that falls
further behind skips what is gone and goes on.

`Live` is a server whose requests are at work while its devices listen.
-/
namespace CanisLink

open Interleave (Pool)

/-! ## The socket -/

/-- What the loop sends. -/
inductive WsMessage
  | hello (dog : DogId)
  | ping (tsMs : UInt64)
  | protocolPing
  | pong
  | event (e : DeviceEvent)
deriving DecidableEq

/-- What the loop reads: `ended` is the end of the stream. -/
inductive WsIncoming
  | text (t : String)
  | ping
  | pong
  | binary
  | close
  | failed
  | ended
deriving DecidableEq

/-- The branch that `select!` takes, and whether the sink accepts what is sent. -/
inductive Turn
  | tick (tsMs : UInt64) (ok ok' : Bool)
  | recv (ok : Bool)
  | incoming (m : WsIncoming) (ok : Bool)
deriving DecidableEq

/-- The capacity of a dog's channel. -/
def eventCapacity : Nat := 128

structure DeviceSocket where
  dog : DogId
  rx : Feed.Receiver DeviceEvent
  written : List WsMessage := []
  running : Bool := true

namespace DeviceSocket

/-- A send that fails ends the loop. -/
def send (m : WsMessage) (ok : Bool) (s : DeviceSocket) : DeviceSocket :=
  if s.running then
    if ok then { s with written := s.written ++ [m] } else { s with running := false }
  else s

/-- The loop begins, on a channel on which `sent` was sent before. -/
def start (dog : DogId) (sent : List DeviceEvent) (ok : Bool) : DeviceSocket :=
  send (.hello dog) ok { dog, rx := Feed.subscribe sent }

def turn (sent : List DeviceEvent) (s : DeviceSocket) : Turn → DeviceSocket
  | .tick ts ok ok' => (s.send (.ping ts) ok).send .protocolPing ok'
  | .recv ok =>
    match s.rx.recv eventCapacity sent with
    | (.message e, rx) => { s with rx }.send (.event e) ok
    | (.lagged _, rx) => { s with rx }
    | (.empty, _) => s
  | .incoming m ok =>
    match m with
    | .text t =>
      -- a pong that cannot be sent does not end the loop
      if "ping".toList <:+: t.toList ∧ ok = true then { s with written := s.written ++ [.pong] } else s
    | .close | .failed | .ended => { s with running := false }
    | .ping | .pong | .binary => s

/-- The events among what was sent. -/
def events (s : DeviceSocket) : List DeviceEvent :=
  s.written.filterMap (fun m => match m with
    | .event e => some e
    | _ => none)

end DeviceSocket

/-! ## The server with its sockets -/

/-- What was sent on the dog's channel. -/
def EventHub.channel (hub : EventHub) (dog : DogId) : List DeviceEvent := (hub.inner.lookup dog).getD []

structure Live where
  pool : ApiPool
  sockets : List DeviceSocket

inductive LiveAction
  /-- A request makes its next call. -/
  | call (i : Nat) (t : DateTime)
  /-- A device connects. -/
  | connect (headers : HeaderMap) (q : WsQuery) (ok : Bool)
  /-- The loop of a socket takes a turn. -/
  | turn (n : Nat) (t : Turn)

namespace Live

variable (st : AppState)

def setHub (l : Live) (hub : EventHub) : Live := { l with pool := { l.pool with state := { l.pool.state with hub } } }

def hub (l : Live) : EventHub := l.pool.state.hub

def step (l : Live) : LiveAction → Live
  | .call i t => { l with pool := l.pool.step (exec st) (i, t) }
  | .connect h q ok =>
    match deviceWs st h q with
    | .ok dog =>
      let l := l.setHub (l.hub.subscribe dog)
      { l with sockets := l.sockets ++ [DeviceSocket.start dog (l.hub.channel dog) ok] }
    | .error _ => l
  | .turn n t =>
    { l with sockets := l.sockets.modify n (fun s => if s.running then s.turn (l.hub.channel s.dog) t else s) }

theorem step_call (l : Live) (i : Nat) (t : DateTime) :
    l.step st (.call i t) = { l with pool := l.pool.step (exec st) (i, t) } := rfl

/-- A device with the token of its terminal and dog is connected. -/
theorem step_connect {st : AppState} {l : Live} {h : HeaderMap} {q : WsQuery} {dog : DogId}
    (hws : deviceWs st h q = .ok dog) (ok : Bool) : l.step st (.connect h q ok) =
      { l.setHub (l.hub.subscribe dog) with
        sockets := l.sockets ++ [DeviceSocket.start dog ((l.hub.subscribe dog).channel dog) ok] } := by
  show (match deviceWs st h q with
    | .ok dog => ({ l.setHub (l.hub.subscribe dog) with
        sockets := l.sockets ++ [DeviceSocket.start dog ((l.hub.subscribe dog).channel dog) ok] } : Live)
    | .error _ => l) = _
  rw [hws]

theorem step_refuse {st : AppState} {l : Live} {h : HeaderMap} {q : WsQuery} {e : StatusCode}
    (hws : deviceWs st h q = .error e) (ok : Bool) : l.step st (.connect h q ok) = l := by
  show (match deviceWs st h q with
    | .ok dog => ({ l.setHub (l.hub.subscribe dog) with
        sockets := l.sockets ++ [DeviceSocket.start dog ((l.hub.subscribe dog).channel dog) ok] } : Live)
    | .error _ => l) = _
  rw [hws]

def run (l : Live) (actions : List LiveAction) : Live := actions.foldl (step st) l

@[simp] theorem run_nil (l : Live) : l.run st [] = l := rfl
@[simp] theorem run_cons (l : Live) (a : LiveAction) (as : List LiveAction) :
    l.run st (a :: as) = (l.step st a).run st as := rfl

end Live

/-- The events the calls of a log published to a dog. -/
def published (dog : DogId) (log : List ApiStep) : List DeviceEvent :=
  log.filterMap (fun e => match e.cmd with
    | .publish d ev => if d = dog then some ev else none
    | _ => none)

@[simp] theorem published_nil (dog : DogId) : published dog [] = [] := rfl
theorem published_append (dog : DogId) (log log' : List ApiStep) :
    published dog (log ++ log') = published dog log ++ published dog log' := List.filterMap_append

theorem mem_published {dog : DogId} {log : List ApiStep} {ev : DeviceEvent} :
    ev ∈ published dog log ↔ ∃ e ∈ log, e.cmd = .publish dog ev := by
  unfold published
  rw [List.mem_filterMap]
  refine exists_congr (fun e => and_congr_right (fun _ => ?_))
  cases e.cmd with
  | publish d ev' =>
    by_cases hd : d = dog
    · simp [hd]
    · simp [hd]
  | _ => simp

end CanisLink
