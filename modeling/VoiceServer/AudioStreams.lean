/-
The half of the client's `AudioManager` that opens its two streams and closes
them, with its error paths, and processes in which managers come and go while
the sound card calls back.
-/
import VoiceServer.PartialRun
import VoiceServer.PortAudio

namespace VoiceServer

open PortAudio

structure AudioStreams where
  inputStream : Option PaStream
  outputStream : Option PaStream

namespace AudioStreams

def new : AudioStreams := ⟨none, none⟩

def startStreams (host : HostApi) (self : AudioStreams) (pa : PortAudio) :
    Bool × PortAudio :=
  let input := pa.paStartStream host self.inputStream
  if input.1 ≠ paNoError then
    let closed := (input.2.paCloseStream host self.inputStream).2
    let both := (closed.paCloseStream host self.outputStream).2
    (false, (both.paTerminate host).2)
  else
    let output := input.2.paStartStream host self.outputStream
    if output.1 ≠ paNoError then
      let stopped := (output.2.paStopStream host self.inputStream).2
      let closed := (stopped.paCloseStream host self.inputStream).2
      let both := (closed.paCloseStream host self.outputStream).2
      (false, (both.paTerminate host).2)
    else (true, output.2)

/-- `AudioManager::initialize` of the manager that `userData` names. -/
def initializeStreams (host : HostApi) (self : AudioStreams) (userData : Nat)
    (pa : PortAudio) : Bool × AudioStreams × PortAudio :=
  let ready := pa.paInitialize host
  if ready.1 ≠ paNoError then (false, self, ready.2)
  else
    let input := ready.2.paOpenDefaultStream host userData self.inputStream
    if input.1 ≠ paNoError then
      (false, { self with inputStream := input.2.1 },
        (input.2.2.paTerminate host).2)
    else
      let output :=
        input.2.2.paOpenDefaultStream host userData self.outputStream
      let opened : AudioStreams := ⟨input.2.1, output.2.1⟩
      if output.1 ≠ paNoError then
        let closed := (output.2.2.paCloseStream host opened.inputStream).2
        (false, opened, (closed.paTerminate host).2)
      else
        let started := opened.startStreams host output.2.2
        (started.1, opened, started.2)

def stopAndClose (host : HostApi) (stream : Option PaStream) (pa : PortAudio) :
    PortAudio :=
  match stream with
  | none => pa
  | some _ => ((pa.paStopStream host stream).2.paCloseStream host stream).2

/-- `AudioManager::~AudioManager`. -/
def destructor (host : HostApi) (self : AudioStreams) (pa : PortAudio) :
    PortAudio :=
  let input := stopAndClose host self.inputStream pa
  let output := stopAndClose host self.outputStream input
  (output.paTerminate host).2

end AudioStreams

/-- One process: the library, and the managers constructed so far, `none` once
destroyed.  `late` lists the destroyed managers that a callback was handed. -/
structure AudioProcess where
  portAudio : PortAudio
  managers : List (Option AudioStreams)
  late : List Nat

/-- A callback comes from any stream that is allocated, at any time. -/
inductive AudioEvent
  | constructed
  | initialized (manager : Nat)
  | destroyed (manager : Nat)
  | callback (stream : PaStream)
  deriving DecidableEq

namespace AudioProcess

def new : AudioProcess := ⟨.new, [], []⟩

/-- The manager, unless it is destroyed. -/
def alive (process : AudioProcess) (manager : Nat) : Option AudioStreams :=
  process.managers[manager]?.join

/-- The outputs are what `initialize` returns to each manager's owner. -/
def step (host : HostApi) (process : AudioProcess) :
    AudioEvent → Option (AudioProcess × List (Nat × Bool))
  | .constructed =>
      some ({ process with managers := process.managers ++ [some .new] }, [])
  | .initialized manager =>
      (process.alive manager).map fun self =>
        let result := self.initializeStreams host manager process.portAudio
        ({ process with
            portAudio := result.2.2
            managers := process.managers.set manager (some result.2.1) },
          [(manager, result.1)])
  | .destroyed manager =>
      (process.alive manager).map fun self =>
        ({ process with
            portAudio := self.destructor host process.portAudio
            managers := process.managers.set manager none }, [])
  | .callback stream =>
      (process.portAudio.streams stream).map fun manager =>
        (if (process.alive manager).isSome then process
          else { process with late := process.late ++ [manager] }, [])

end AudioProcess

namespace AudioStreams

variable {host : HostApi} {self : AudioStreams} {userData : Nat} {pa next : PortAudio}

/-- The pointers of a manager: two streams, if any, that have been allocated. -/
structure Sound (manager : AudioStreams) (pa : PortAudio) : Prop where
  input : ∀ stream, manager.inputStream = some stream → stream < pa.nextStream
  output : ∀ stream, manager.outputStream = some stream → stream < pa.nextStream
  distinct : ∀ stream, manager.inputStream = some stream →
    manager.outputStream ≠ some stream

theorem Sound.mono (hsound : self.Sound pa) (hgrown : pa.nextStream ≤ next.nextStream) :
    self.Sound next where
  input stream hstream := (hsound.input stream hstream).trans_le hgrown
  output stream hstream := (hsound.output stream hstream).trans_le hgrown
  distinct := hsound.distinct

/-- What `initialize` leaves, whatever the host API answers. -/
structure Initialized (host : HostApi) (manager : AudioStreams) (userData : Nat)
    (pa : PortAudio) (result : Bool × AudioStreams × PortAudio) : Prop where
  wellFormed : result.2.2.WellFormed host
  stale : result.2.2.stale = pa.stale
  count : result.2.2.initializationCount =
    pa.initializationCount + if result.1 then 1 else 0
  grown : pa.nextStream ≤ result.2.2.nextStream
  sound : manager.Sound pa → result.2.1.Sound result.2.2
  opened : result.1 = true → ∃ input output, result.2.1 = ⟨some input, some output⟩ ∧
    result.2.2.streams input = some userData ∧
    result.2.2.streams output = some userData ∧
    ∀ other, other ≠ input → other ≠ output →
      result.2.2.streams other = pa.streams other

/-- The error paths: what was opened is closed by `Pa_Terminate` at the latest. -/
theorem Initialized.failed {opened : AudioStreams} {last : PortAudio}
    (hcount : next.initializationCount = pa.initializationCount + 1)
    (hstale : next.stale = pa.stale) (hgrown : pa.nextStream ≤ next.nextStream)
    (hsound : self.Sound pa → opened.Sound next) (hend : Terminated host next last) :
    Initialized host self userData pa (false, opened, last) where
  wellFormed := hend.wellFormed
  stale := hend.stale.trans hstale
  count := by simp [hend.count, hcount]
  grown := hend.nextStream ▸ hgrown
  sound h := (hsound h).mono (Nat.le_of_eq hend.nextStream.symm)
  opened h := absurd h (by simp)

end AudioStreams

namespace AudioProcess

variable {host : HostApi} {process next : AudioProcess} {manager : Nat}
  {self : AudioStreams}

/-- Nothing freed was read, and the pointers of the managers are sound. -/
structure Sane (host : HostApi) (process : AudioProcess) : Prop where
  wellFormed : process.portAudio.WellFormed host
  stale : process.portAudio.stale = []
  sound : ∀ manager self, process.alive manager = some self →
    self.Sound process.portAudio

/-- At most one manager is alive.  While the library is initialised, it is by that
manager, both of whose streams are open. -/
structure Alone (host : HostApi) (process : AudioProcess) : Prop where
  sane : Sane host process
  one : ∀ manager other, (process.alive manager).isSome →
    (process.alive other).isSome → other = manager
  up : process.portAudio.initializationCount ≠ 0 → ∃ manager input output,
    process.alive manager = some ⟨some input, some output⟩ ∧
    process.portAudio.initializationCount = 1 ∧
    process.portAudio.streams input = some manager ∧
    process.portAudio.streams output = some manager ∧
    (host.Closes → ∀ stream owner,
      process.portAudio.streams stream = some owner → owner = manager)
  late : host.Closes → process.late = []

end AudioProcess

end VoiceServer
