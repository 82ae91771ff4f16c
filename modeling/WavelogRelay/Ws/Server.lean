import WavelogRelay.Library.Broadcast
import WavelogRelay.Library.Runs
import WavelogRelay.Rig.Protocol
import WavelogRelay.Util

/-!
# Ws — the WebSocket server

`WsHandle` and `handle_connection` of `ws.rs`, for any number of connections.  A connection steps
from one await to the next; a send lasts as long as the client makes it last, and the broadcasts,
the shutdown channel and the other connections step in between.

The select may take any branch that is ready; that it prefers the first one is not used.

* `ConnStep`: the steps of one connection.
* `Step`: those of the server.
-/

namespace WavelogRelay.Ws
open Library Rig

def channelCapacity : Nat := 16

def welcomeFrame : Text := "\x7b\"type\":\"welcome\"\x7d".toList

/-! ### The frames -/

structure RadioStatus (F : Type) where
  kind : Text
  radio : Text
  frequency : UInt64
  mode : Text
  power : Option F
  timestamp : UInt64

/-- What is used of `f32` and `serde_json`: a product, and the text of a frame. -/
structure FrameFormat (F : Type) where
  mul : F → F → F
  toString : RadioStatus F → Option Text

/-- `WsHandle`, which its clones share. -/
structure WsHandle (F : Type) where
  tx : Broadcast Text
  radio : Text
  powerMaxWatts : F

variable {F ν : Type}

def WsHandle.new (radio : Text) (powerMaxWatts : F) : WsHandle F :=
  { tx := .new channelCapacity, radio, powerMaxWatts }

/-- The text of the frame for a state, at the time `now`. -/
def WsHandle.frame (S : FrameFormat F) (h : WsHandle F) (state : RigState F) (now : UInt64) :
    Option Text :=
  S.toString
    { kind := "radio_status".toList
      radio := h.radio
      frequency := state.freq
      mode := state.mode
      power := state.power.map fun p => S.mul p h.powerMaxWatts
      timestamp := now }

/-- `broadcast`.  What is sent while there is no receiver is in no receiver's range. -/
def WsHandle.broadcast (S : FrameFormat F) (h : WsHandle F) (state : RigState F) (now : UInt64) :
    WsHandle F :=
  match h.frame S state now with
  | none => h
  | some json => { h with tx := h.tx.send json }

/-! ### A connection -/

/-- What is sent on a connection. -/
inductive Message where
  | text (t : Text)
  | close
  deriving DecidableEq, Repr

/-- Where `handle_connection` is.  From `subscribing` on it has seen the version `seen` of the
shutdown channel; its receiver reads the frame `next`. -/
inductive Phase where
  | accepted
  | subscribing (seen : Nat)
  | welcoming (seen next : Nat)
  | selecting (seen next : Nat)
  | sending (seen next : Nat) (frame : Text)
  | closing
  | returned
  deriving DecidableEq, Repr

/-- The message that is being sent. -/
def Phase.message : Phase → Option Message
  | .welcoming _ _ => some (.text welcomeFrame)
  | .sending _ _ frame => some (.text frame)
  | .closing => some .close
  | _ => none

inductive ConnAct where
  | check
  | subscribe
  | notified
  | received
  | lagged
  | sent (m : Message)
  /-- The client got the message or not. -/
  | sendFailed (m : Message) (delivered : Bool)
  /-- A message from the client, which is ignored, or its end. -/
  | inbound
  | hungUp
  /-- The task is dropped. -/
  | dropped
  deriving DecidableEq, Repr

/-- A step of a connection. -/
inductive ConnStep (tx : Broadcast Text) (shutdown : Watch Bool) :
    Phase → ConnAct → Phase → Prop where
  | refused (hdown : shutdown.value = true) : ConnStep tx shutdown .accepted .check .closing
  | admitted (hup : shutdown.value = false) :
      ConnStep tx shutdown .accepted .check (.subscribing shutdown.version)
  | subscribed {seen : Nat} :
      ConnStep tx shutdown (.subscribing seen) .subscribe (.welcoming seen tx.sent)
  | welcomed {seen next : Nat} :
      ConnStep tx shutdown (.welcoming seen next) (.sent (.text welcomeFrame))
        (.selecting seen next)
  | notified {seen next : Nat} {ok : Bool} {seen' : Nat}
      (hc : shutdown.changed seen = some (ok, seen')) :
      ConnStep tx shutdown (.selecting seen next) .notified
        (if shutdownObserved ok shutdown then .closing else .selecting seen' next)
  | received {seen next next' : Nat} {frame : Text}
      (hr : tx.recv next = some (.value frame, next')) :
      ConnStep tx shutdown (.selecting seen next) .received (.sending seen next' frame)
  -- `Closed` never comes: a connection holds a sender
  | lagged {seen next next' : Nat} (hr : tx.recv next = some (.lagged, next')) :
      ConnStep tx shutdown (.selecting seen next) .lagged .closing
  | frameSent {seen next : Nat} {frame : Text} :
      ConnStep tx shutdown (.sending seen next frame) (.sent (.text frame)) (.selecting seen next)
  | closeSent : ConnStep tx shutdown .closing (.sent .close) .returned
  | sendFailed {p : Phase} {m : Message} (hm : p.message = some m) (delivered : Bool) :
      ConnStep tx shutdown p (.sendFailed m delivered) .returned
  | inbound {seen next : Nat} :
      ConnStep tx shutdown (.selecting seen next) .inbound (.selecting seen next)
  | hungUp {seen next : Nat} : ConnStep tx shutdown (.selecting seen next) .hungUp .returned
  | dropped {p : Phase} : ConnStep tx shutdown p .dropped .returned

/-! ### The server -/

/-- The connections that have not come yet are `accepted` too: they have done nothing. -/
structure Server (F ν : Type) where
  handle : WsHandle F
  shutdown : Watch Bool
  conn : ν → Phase

inductive Act (F ν : Type) where
  | broadcast (state : RigState F) (now : UInt64)
  | shutdownSent (value : Bool)
  | shutdownDropped
  | conn (c : ν) (a : ConnAct)

def Server.start (radio : Text) (powerMaxWatts : F) : Server F ν :=
  { handle := .new radio powerMaxWatts, shutdown := .new false, conn := fun _ => .accepted }

/-- A step of the server. -/
inductive Step [DecidableEq ν] (S : FrameFormat F) : Server F ν → Act F ν → Server F ν → Prop where
  | broadcast {s : Server F ν} (state : RigState F) (now : UInt64) :
      Step S s (.broadcast state now) { s with handle := s.handle.broadcast S state now }
  | shutdownSent {s : Server F ν} (value : Bool) :
      Step S s (.shutdownSent value) { s with shutdown := s.shutdown.send value }
  | shutdownDropped {s : Server F ν} :
      Step S s .shutdownDropped { s with shutdown := s.shutdown.close }
  | conn {s : Server F ν} {c : ν} {a : ConnAct} {p : Phase}
      (hs : ConnStep s.handle.tx s.shutdown (s.conn c) a p) :
      Step S s (.conn c a) { s with conn := Function.update s.conn c p }

end WavelogRelay.Ws
