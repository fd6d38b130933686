/-
`RoomManager`: three maps keyed by client id.  The orders in which a tick walks
the unordered maps are part of the event, so what holds of every run holds of
every iteration order.
-/
import Mathlib.Data.List.AList
import VoiceServer.AudioMixer
import VoiceServer.PartialRun

namespace VoiceServer

universe u v

/-- `MAX_BUFFER_SIZE`. -/
def maxBufferSize : Nat := 50

/-- `ACTIVITY_TIMEOUT`, in the nanoseconds of the steady clock. -/
def activityTimeout : Int := 5000000000

structure RoomManager (Id : Type u) [DecidableEq Id] (Client : Type v) where
  clients : AList fun _ : Id => Client
  audioBuffers : AList fun _ : Id => List AudioPacket
  clientLastActivity : AList fun _ : Id => Int

/-- A call of `Client::send` in a tick.  The packets mixed for it are kept, each
with the key of the buffer it was taken from. -/
structure Delivery (Id : Type u) (Client : Type v) where
  listener : Id
  client : Client
  packetsToMix : List (Id × AudioPacket)
deriving DecidableEq, Repr

def Delivery.mixedPacket {Id : Type u} {Client : Type v}
    (delivery : Delivery Id Client) : AudioPacket :=
  AudioMixer.mix (delivery.packetsToMix.map Prod.snd)

/-- The iteration orders of one tick: of `clients_`, of `audioBuffers_`, and of
`clientLastActivity_` in the clean-up loop. -/
structure Walk (Id : Type u) where
  clients : List Id
  buffers : List Id
  activity : List Id
deriving DecidableEq, Repr

inductive RoomEvent (Id : Type u) (Client : Type v) where
  | addClient (id : Id) (client : Client)
  | removeClient (id : Id)
  | processAudio (now : Int) (id : Id) (packet : AudioPacket)
  | tick (now : Int) (walk : Walk Id)
deriving DecidableEq, Repr

/-- `operator[]` of a map of time points: a missing entry is created, at the
epoch of the clock. -/
def subscript {Id : Type u} [DecidableEq Id] (times : AList fun _ : Id => Int)
    (id : Id) : Int × AList fun _ : Id => Int :=
  match times.lookup id with
  | some time => (time, times)
  | none => (0, times.insert id 0)

namespace RoomManager

variable {Id : Type u} [DecidableEq Id] {Client : Type v}

def new : RoomManager Id Client := ⟨∅, ∅, ∅⟩

/-- The second component says whether `startMixingTimer` is called. -/
def addClient (room : RoomManager Id Client) (id : Id) (client : Client) :
    RoomManager Id Client × Bool :=
  let clients := room.clients.insert id client
  ({ room with clients := clients }, clients.keys.length == 1)

def removeClient (room : RoomManager Id Client) (id : Id) :
    RoomManager Id Client :=
  { room with
    clients := room.clients.erase id
    audioBuffers := room.audioBuffers.erase id }

def getClient (room : RoomManager Id Client) (id : Id) : Option Client :=
  room.clients.lookup id

def processAudio (room : RoomManager Id Client) (now : Int) (id : Id)
    (packet : AudioPacket) : RoomManager Id Client :=
  let buffer := (room.audioBuffers.lookup id).getD [] ++ [packet]
  { room with
    audioBuffers := room.audioBuffers.insert id
      (if maxBufferSize < buffer.length then buffer.tail else buffer)
    clientLastActivity := room.clientLastActivity.insert id now }

/-- The inner loop of a tick: the buffers in order, for one client. -/
def packetsToMix (buffers : AList fun _ : Id => List AudioPacket) (now : Int)
    (clientId : Id) : List Id → (AList fun _ : Id => Int) →
    List (Id × AudioPacket) × AList fun _ : Id => Int
  | [], times => ([], times)
  | bufferId :: rest, times =>
      let buffer := (buffers.lookup bufferId).getD []
      let (lastActivity, times) := subscript times bufferId
      let (later, times) := packetsToMix buffers now clientId rest times
      if bufferId ≠ clientId ∧ buffer ≠ [] ∧
          now - lastActivity ≤ activityTimeout then
        (buffer.map (bufferId, ·) ++ later, times)
      else (later, times)

/-- The outer loop of a tick: the clients in order. -/
def sendMixes (room : RoomManager Id Client) (now : Int) (buffers : List Id) :
    List Id → (AList fun _ : Id => Int) →
    List (Delivery Id Client) × AList fun _ : Id => Int
  | [], times => ([], times)
  | clientId :: rest, times =>
      let (packets, times) :=
        packetsToMix room.audioBuffers now clientId buffers times
      let (later, times) := room.sendMixes now buffers rest times
      match room.clients.lookup clientId with
      | some client =>
          if packets.isEmpty then (later, times)
          else (⟨clientId, client, packets⟩ :: later, times)
      | none => (later, times)

/-- `buffer.clear()` for every buffer. -/
def clearBuffers (buffers : AList fun _ : Id => List AudioPacket) :
    List Id → AList fun _ : Id => List AudioPacket
  | [] => buffers
  | bufferId :: rest => clearBuffers (buffers.insert bufferId []) rest

/-- The clean-up loop. -/
def cleanUp (now : Int) : List Id → RoomManager Id Client →
    RoomManager Id Client
  | [], room => room
  | id :: rest, room =>
      let lastActivity := (room.clientLastActivity.lookup id).getD 0
      if activityTimeout < now - lastActivity then
        cleanUp now rest { room with
          audioBuffers := room.audioBuffers.erase id
          clientLastActivity := room.clientLastActivity.erase id }
      else cleanUp now rest room

def mixAndSendAudio (room : RoomManager Id Client) (now : Int)
    (walk : Walk Id) : RoomManager Id Client × List (Delivery Id Client) :=
  let (deliveries, times) :=
    room.sendMixes now walk.buffers walk.clients room.clientLastActivity
  let cleared := { room with
    audioBuffers := clearBuffers room.audioBuffers walk.buffers
    clientLastActivity := times }
  (cleanUp now walk.activity cleared, deliveries)

/-- The orders are orders of the maps as the loops find them. -/
def Walks (room : RoomManager Id Client) (now : Int) (walk : Walk Id) : Prop :=
  walk.clients.Perm room.clients.keys ∧
    walk.buffers.Perm room.audioBuffers.keys ∧
    walk.activity.Perm (room.sendMixes now walk.buffers walk.clients
      room.clientLastActivity).2.keys

instance (room : RoomManager Id Client) (now : Int) (walk : Walk Id) :
    Decidable (room.Walks now walk) :=
  inferInstanceAs (Decidable (_ ∧ _ ∧ _))

/-- The calls of one room, each under its mutex; the outputs are the calls of
`Client::send`. -/
def step (room : RoomManager Id Client) :
    RoomEvent Id Client →
    Option (RoomManager Id Client × List (Delivery Id Client))
  | .addClient id client => some ((room.addClient id client).1, [])
  | .removeClient id => some (room.removeClient id, [])
  | .processAudio now id packet => some (room.processAudio now id packet, [])
  | .tick now walk =>
      if room.Walks now walk then some (room.mixAndSendAudio now walk)
      else none

theorem step_tick {room : RoomManager Id Client} {now : Int} {walk : Walk Id}
    (hwalks : room.Walks now walk) :
    room.step (.tick now walk) = some
      ((room.mixAndSendAudio now walk).1, (room.mixAndSendAudio now walk).2) :=
  if_pos hwalks

/-- Whatever the maps hold, they can be walked. -/
theorem exists_walks (room : RoomManager Id Client) (now : Int) :
    ∃ walk, room.Walks now walk :=
  ⟨⟨room.clients.keys, room.audioBuffers.keys,
    (room.sendMixes now room.audioBuffers.keys room.clients.keys
      room.clientLastActivity).2.keys⟩, .refl _, .refl _, .refl _⟩

end RoomManager

end VoiceServer
