/-
The front end of the PortAudio library: how often it is initialised, which
streams are open, and what the calls on a stream do, whatever the host API
answers.  A stream is named by its allocation, so that a pointer to freed memory
never becomes valid again.
-/
import Mathlib.Data.List.Nodup
import Mathlib.Logic.Function.Basic

namespace VoiceServer

/-- Negative for an error.  `IsStopped` returns 0 or 1 where it succeeds. -/
abbrev PaError := Int

def paNoError : PaError := 0

def paNotInitialized : PaError := -10000

def paBadStreamPtr : PaError := -9988

def paDeviceUnavailable : PaError := -9985

def paStreamIsStopped : PaError := -9983

def paStreamIsNotStopped : PaError := -9982

abbrev PaStream := Nat

/-- What the host APIs and their device tables answer to the front end's calls,
which are counted.  `close` also says if the memory of the stream was freed. -/
structure HostApi where
  initializeHostApis : Nat → PaError
  validateOpenStreamParameters : Nat → PaError
  openStream : Nat → PaError
  isStopped : Nat → PaError
  start : Nat → PaError
  stop : Nat → PaError
  abort : Nat → PaError
  close : Nat → PaError × Bool

/-- The globals of the front end and the allocated streams, each with the number
that its `userData` points to.  `stale` lists the reads of freed streams. -/
structure PortAudio where
  initializationCount : Nat
  firstOpenStream : List PaStream
  streams : PaStream → Option Nat
  nextStream : Nat
  calls : Nat
  stale : List PaStream

namespace PortAudio

def new : PortAudio := ⟨0, [], fun _ => none, 0, 0, []⟩

def isLive (pa : PortAudio) (stream : PaStream) : Bool :=
  (pa.streams stream).isSome

def ask {A : Type*} (answer : Nat → A) (pa : PortAudio) : A × PortAudio :=
  (answer pa.calls, { pa with calls := pa.calls + 1 })

def allocate (pa : PortAudio) (userData : Nat) : PortAudio :=
  { pa with
    streams := Function.update pa.streams pa.nextStream (some userData)
    nextStream := pa.nextStream + 1 }

def free (pa : PortAudio) (stream : PaStream) : PortAudio :=
  { pa with streams := Function.update pa.streams stream none }

def addOpenStream (pa : PortAudio) (stream : PaStream) : PortAudio :=
  { pa with firstOpenStream := stream :: pa.firstOpenStream }

/-- The streams whose link `RemoveOpenStream` reads on its way. -/
def walked : List PaStream → Option PaStream → List PaStream
  | [], _ => []
  | current :: rest, stream =>
      current :: if some current = stream then [] else walked rest stream

def removeOpenStream (pa : PortAudio) (stream : Option PaStream) : PortAudio :=
  { pa with
    firstOpenStream := pa.firstOpenStream.eraseP (some · = stream)
    stale := pa.stale ++
      (walked pa.firstOpenStream stream).filter (!pa.isLive ·) }

/-- A freed stream is read for its magic number.  What it holds then is
undefined; the model takes it as cleared. -/
def validateStreamPointer (pa : PortAudio) (stream : Option PaStream) :
    PaError × PortAudio :=
  if pa.initializationCount = 0 then (paNotInitialized, pa)
  else
    match stream with
    | none => (paBadStreamPtr, pa)
    | some stream =>
        if pa.isLive stream then (paNoError, pa)
        else (paBadStreamPtr, { pa with stale := pa.stale ++ [stream] })

def abortUnlessStopped (host : HostApi) (pa : PortAudio) : PaError × PortAudio :=
  let stopped := pa.ask host.isStopped
  if stopped.1 = 1 then (paNoError, stopped.2)
  else if stopped.1 = 0 then stopped.2.ask host.abort
  else stopped

def closeInterface (host : HostApi) (pa : PortAudio) (stream : Option PaStream) :
    PaError × PortAudio :=
  let closed := pa.ask host.close
  match stream with
  | some stream =>
      (closed.1.1, if closed.1.2 then closed.2.free stream else closed.2)
  | none => (closed.1.1, closed.2)

def paCloseStream (host : HostApi) (pa : PortAudio) (stream : Option PaStream) :
    PaError × PortAudio :=
  let valid := pa.validateStreamPointer stream
  let removed := valid.2.removeOpenStream stream
  if valid.1 = paNoError then
    let aborted := removed.abortUnlessStopped host
    if aborted.1 = paNoError then aborted.2.closeInterface host stream
    else aborted
  else (valid.1, removed)

def paStartStream (host : HostApi) (pa : PortAudio) (stream : Option PaStream) :
    PaError × PortAudio :=
  let valid := pa.validateStreamPointer stream
  if valid.1 = paNoError then
    let stopped := valid.2.ask host.isStopped
    if stopped.1 = 0 then (paStreamIsNotStopped, stopped.2)
    else if stopped.1 = 1 then stopped.2.ask host.start
    else stopped
  else valid

def paStopStream (host : HostApi) (pa : PortAudio) (stream : Option PaStream) :
    PaError × PortAudio :=
  let valid := pa.validateStreamPointer stream
  if valid.1 = paNoError then
    let stopped := valid.2.ask host.isStopped
    if stopped.1 = 0 then stopped.2.ask host.stop
    else if stopped.1 = 1 then (paStreamIsStopped, stopped.2)
    else stopped
  else valid

/-- The loop of `CloseOpenStreams`, cut off after `fuel` rounds. -/
def closeOpenStreamsLoop (host : HostApi) : Nat → PortAudio → PortAudio
  | 0, pa => pa
  | fuel + 1, pa =>
      match pa.firstOpenStream with
      | [] => pa
      | stream :: _ =>
          closeOpenStreamsLoop host fuel (pa.paCloseStream host (some stream)).2

def closeOpenStreams (host : HostApi) (pa : PortAudio) : PortAudio :=
  closeOpenStreamsLoop host pa.firstOpenStream.length pa

def paInitialize (host : HostApi) (pa : PortAudio) : PaError × PortAudio :=
  if pa.initializationCount ≠ 0 then
    (paNoError, { pa with initializationCount := pa.initializationCount + 1 })
  else
    let result := pa.ask host.initializeHostApis
    if result.1 = paNoError then
      (result.1, { result.2 with initializationCount := 1 })
    else result

def paTerminate (host : HostApi) (pa : PortAudio) : PaError × PortAudio :=
  if pa.initializationCount ≠ 0 then
    let closed := if pa.initializationCount = 1 then pa.closeOpenStreams host
      else pa
    (paNoError,
      { closed with initializationCount := closed.initializationCount - 1 })
  else (paNotInitialized, pa)

/-- `Pa_OpenDefaultStream` writes the pointer only where it succeeds.  The default
device and the checks of its parameters are the host APIs' answer. -/
def paOpenDefaultStream (host : HostApi) (pa : PortAudio) (userData : Nat)
    (stream : Option PaStream) : PaError × Option PaStream × PortAudio :=
  if pa.initializationCount = 0 then (paDeviceUnavailable, stream, pa)
  else
    let valid := pa.ask host.validateOpenStreamParameters
    if valid.1 = paNoError then
      let opened := valid.2.ask host.openStream
      if opened.1 = paNoError then
        (opened.1, some opened.2.nextStream,
          (opened.2.allocate userData).addOpenStream opened.2.nextStream)
      else (opened.1, stream, opened.2)
    else (valid.1, stream, valid.2)

end PortAudio

/-- Asked if a stream is stopped they answer; a stream can be aborted, and closing
frees it. -/
structure HostApi.Closes (host : HostApi) : Prop where
  isStopped : ∀ call, host.isStopped call = 0 ∨ host.isStopped call = 1
  abort : ∀ call, host.abort call = paNoError
  close : ∀ call, (host.close call).2 = true

namespace PortAudio

variable {host : HostApi} {pa next last : PortAudio}

/-- The open streams are allocated, and all that are if closing frees. -/
structure WellFormed (host : HostApi) (pa : PortAudio) : Prop where
  live : ∀ stream ∈ pa.firstOpenStream, pa.isLive stream = true
  nodup : pa.firstOpenStream.Nodup
  fresh : ∀ stream, pa.isLive stream = true → stream < pa.nextStream
  listed : host.Closes → ∀ stream, pa.isLive stream = true →
    stream ∈ pa.firstOpenStream
  idle : pa.initializationCount = 0 → pa.firstOpenStream = []

/-- What calls that close the streams `closed`, and no others, leave. -/
structure After (host : HostApi) (closed : List (Option PaStream))
    (pa next : PortAudio) : Prop where
  wellFormed : next.WellFormed host
  count : next.initializationCount = pa.initializationCount
  nextStream : next.nextStream = pa.nextStream
  stale : next.stale = pa.stale
  kept : ∀ stream, some stream ∉ closed → next.streams stream = pa.streams stream
  freed : ∀ stream, next.streams stream = pa.streams stream ∨
    next.streams stream = none
  gone : host.Closes → ∀ stream, some stream ∈ closed → next.streams stream = none

theorem After.trans {first second : List (Option PaStream)}
    (hfirst : After host first pa next) (hsecond : After host second next last) :
    After host (first ++ second) pa last where
  wellFormed := hsecond.wellFormed
  count := hsecond.count.trans hfirst.count
  nextStream := hsecond.nextStream.trans hfirst.nextStream
  stale := hsecond.stale.trans hfirst.stale
  kept stream hstream := by
    rw [List.mem_append, not_or] at hstream
    exact (hsecond.kept stream hstream.2).trans (hfirst.kept stream hstream.1)
  freed stream := by
    rcases hsecond.freed stream with hsame | hnone
    · rw [hsame]
      exact hfirst.freed stream
    · exact .inr hnone
  gone hcloses stream hstream := by
    rcases List.mem_append.1 hstream with hmem | hmem
    · rcases hsecond.freed stream with hsame | hnone
      · rw [hsame]
        exact hfirst.gone hcloses stream hmem
      · exact hnone
    · exact hsecond.gone hcloses stream hmem

/-- A call that only asks the host API. -/
theorem After.of_asked (hwell : pa.WellFormed host) (calls : Nat) :
    After host [] pa { pa with calls := calls } where
  wellFormed := ⟨hwell.live, hwell.nodup, hwell.fresh, hwell.listed, hwell.idle⟩
  count := rfl
  nextStream := rfl
  stale := rfl
  kept _ _ := rfl
  freed _ := .inl rfl
  gone _ _ hstream := absurd hstream List.not_mem_nil

theorem After.refl (hwell : pa.WellFormed host) : After host [] pa pa :=
  .of_asked hwell pa.calls

/-- What `Pa_Terminate` leaves: the last call closes every stream. -/
structure Terminated (host : HostApi) (pa next : PortAudio) : Prop where
  wellFormed : next.WellFormed host
  count : next.initializationCount = pa.initializationCount - 1
  nextStream : next.nextStream = pa.nextStream
  stale : next.stale = pa.stale

/-- What `Pa_OpenDefaultStream` leaves where it succeeds: the next stream is
allocated and the first of the open ones. -/
structure Opened (host : HostApi) (userData : Nat) (pa next : PortAudio) :
    Prop where
  wellFormed : next.WellFormed host
  count : next.initializationCount = pa.initializationCount
  nextStream : next.nextStream = pa.nextStream + 1
  stale : next.stale = pa.stale
  streams : next.streams =
    Function.update pa.streams pa.nextStream (some userData)

theorem isLive_update_some {stream other : PaStream} {userData : Nat} :
    ((Function.update pa.streams stream (some userData)) other).isSome = true ↔
      other = stream ∨ pa.isLive other = true := by
  rcases eq_or_ne other stream with rfl | hne
  · simp
  · simp [hne, isLive]

theorem Opened.intro (hwell : pa.WellFormed host)
    (hcount : pa.initializationCount ≠ 0) (userData calls : Nat) :
    Opened host userData pa { pa with
      firstOpenStream := pa.nextStream :: pa.firstOpenStream
      streams := Function.update pa.streams pa.nextStream (some userData)
      nextStream := pa.nextStream + 1
      calls := calls } := by
  refine ⟨⟨?_, ?_, ?_, ?_, fun h => absurd h hcount⟩, rfl, rfl, rfl, rfl⟩
  · intro stream hstream
    apply isLive_update_some.2
    rcases List.mem_cons.1 hstream with rfl | hmem
    · exact .inl rfl
    · exact .inr (hwell.live stream hmem)
  · apply List.nodup_cons.2 ⟨fun hmem => ?_, hwell.nodup⟩
    exact Nat.lt_irrefl _ (hwell.fresh _ (hwell.live _ hmem))
  · intro stream hstream
    apply Nat.lt_succ_of_le
    rcases isLive_update_some.1 hstream with rfl | hold
    · exact Nat.le_refl _
    · exact Nat.le_of_lt (hwell.fresh stream hold)
  · intro hcloses stream hstream
    rcases isLive_update_some.1 hstream with rfl | hold
    · exact List.mem_cons_self
    · exact List.mem_cons_of_mem _ (hwell.listed hcloses stream hold)

end PortAudio

end VoiceServer
