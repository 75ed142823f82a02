import Aesd.Server.Receive
import Aesd.Server.ThreadList

/-!
# Client handlers

`message_handler_thread` and `handle_ioctl` as machines that share the device
file, its mutex and the list of client threads with the other threads.  The
device is a parameter: what a call does to it and returns may depend on a choice
made outside.
-/

namespace Aesd.Server

open Aesd.Driver
open Aesd.Mutex

/-! ## The device -/

/-- The calls a handler makes on an open device file. -/
inductive Request
  | write (bytes : Bytes)
  | read (count : Nat)
  | llseek (off whence : Int)
  | ioctl (cmd : AesdSeekto)

/-- What a call returns, the bytes it delivers, the file position and the device
behind it. -/
structure Reply (δ : Type) where
  retval : Int
  delivered : Bytes
  fPos : Int
  device : δ

/-- A device, by the calls on an open file of it: a call that does not return has
no reply. -/
abbrev Device (δ χ : Type) :=
  χ → Request → Int → δ → Option (Reply δ)

/-- The device file with `file_mutex`.  `order` records which handlers have
obtained the mutex, in this order. -/
structure DeviceFile (δ : Type) where
  mutex : Option Thread
  device : δ
  order : List Nat

/-- What is decided outside the process during one step of a handler: whether
the library call at this point succeeds, what `recv` delivers, what `malloc`
leaves in a buffer, which node the member `client_thread_node`, never assigned,
happens to point to, how many bytes stdio asks for, and what the kernel
decides. -/
structure Outcomes (χ : Type) where
  ok : Bool
  chunk : Bytes
  fill : Nat → UInt8
  clientThreadNode : Nat
  count : Nat
  device : χ

namespace DeviceFile

variable {δ : Type}

/-- A call of `pthread_mutex_lock` by a handler, with what follows a success and
a failure. -/
def lockThen {γ : Type} (file : DeviceFile δ) (index : Nat) (ok : Bool)
    (success failure : Control γ) : Option (Control γ × DeviceFile δ) :=
  match lock file.mutex (.handler index) ok with
  | none => none
  | some (true, owner) =>
      some (success, { file with mutex := owner, order := file.order ++ [index] })
  | some (false, owner) => some (failure, { file with mutex := owner })

/-- A call that returns has obtained the free mutex or failed. -/
theorem lockThen_cases {γ : Type} {file file' : DeviceFile δ} {index : Nat} {ok : Bool}
    {success failure control : Control γ}
    (called : file.lockThen index ok success failure = some (control, file')) :
    ok = true ∧ file.mutex = none ∧ control = success ∧
        file' = { file with mutex := some (.handler index), order := file.order ++ [index] } ∨
      ok = false ∧ control = failure ∧ file' = file := by
  unfold lockThen at called
  split at called
  · contradiction
  · rename_i locks
    obtain ⟨rfl, free, rfl⟩ := lock_obtains_iff.mp locks
    cases called
    exact Or.inl ⟨rfl, free, rfl, rfl⟩
  · rename_i locks
    obtain ⟨rfl, rfl⟩ := lock_fails_iff.mp locks
    cases called
    exact Or.inr ⟨rfl, rfl, rfl⟩

/-- A call of `pthread_mutex_unlock`. -/
def unlock (file : DeviceFile δ) (ok : Bool) : DeviceFile δ :=
  { file with mutex := Mutex.unlock file.mutex ok }

end DeviceFile

variable {δ χ : Type}

/-! ## `handle_ioctl` -/

/-- The program points of `handle_ioctl`. -/
inductive HandleIoctl
  | parse (cmdBuffer : Bytes)
  | lock (cmd : AesdSeekto)
  | open (cmd : AesdSeekto)
  | ioctl (cmd : AesdSeekto)
  | read (cmdBuffer : Bytes) (fPos : Int)
  | unlock

/-- One step of `handle_ioctl`, with the bytes sent.  A failing `open` and a
rejected command return with the mutex held. -/
def HandleIoctl.step (device : Device δ χ) (index : Nat) (outcomes : Outcomes χ)
    (file : DeviceFile δ) :
    HandleIoctl → Option (Control HandleIoctl × Bytes × DeviceFile δ)
  | .parse cmdBuffer =>
      -- with `ok` false there is no memory for the command
      match if outcomes.ok then getIoctlCommand cmdBuffer else none with
      | none => some (.done, [], file)
      | some cmd => some (.goto (.lock cmd), [], file)
  | .lock cmd =>
      (file.lockThen index outcomes.ok (.goto (.open cmd)) .done).map
        fun (next, file) => (next, [], file)
  | .open cmd =>
      if outcomes.ok then some (.goto (.ioctl cmd), [], file) else some (.done, [], file)
  | .ioctl cmd =>
      match device outcomes.device (.ioctl cmd) 0 file.device with
      | none => none
      | some reply =>
          if ioctlResult reply.retval < 0 then
            some (.done, [], { file with device := reply.device })
          else
            some (.goto (.read (List.replicate bufferSize 0) reply.fPos), [],
              { file with device := reply.device })
  | .read cmdBuffer fPos =>
      match device outcomes.device (.read bufferSize) fPos file.device with
      | none => none
      | some reply =>
          let file := { file with device := reply.device }
          if reply.retval > 0 then
            match sendString (overwrite cmdBuffer reply.delivered) with
            | .error _ => some (.crash, [], file)
            | .ok text =>
                some (.goto (.read (overwrite cmdBuffer reply.delivered) reply.fPos), text, file)
          else
            some (.goto .unlock, [], file)
  | .unlock => some (.done, [], file.unlock outcomes.ok)

/-! ## `message_handler_thread` -/

/-- The program points of `message_handler_thread`.  At `echo` the loop around
`fgets` has `line` in the buffer of the handler and `ahead` in the one of the
stream. -/
inductive Pc
  | start
  | recv (buffer : Bytes)
  | handleIoctl (point : HandleIoctl)
  | lockFile (bytes : Bytes)
  | openFile (bytes : Bytes)
  | cleanup (point : Cleanup)
  | flush (bytes : Bytes) (fPos : Int)
  | seek (fPos : Int)
  | echo (line ahead : Bytes) (fPos : Int)
  | unlockFile
  | setComplete (point : SetComplete)
  | returned

/-- What one step of a handler changes: the control, the bytes sent, the device
file and the list. -/
structure Effect (δ : Type) where
  control : Control Pc
  sent : Bytes
  file : DeviceFile δ
  clients : Clients

/-- `fflush` of a stream with `bytes` in its buffer: after a short write it
continues with the rest, an error ends it. -/
def flushStep (device : Device δ χ) (outcomes : Outcomes χ) (bytes : Bytes) (fPos : Int)
    (file : DeviceFile δ) (clients : Clients) : Option (Effect δ) :=
  match device outcomes.device (.write bytes) fPos file.device with
  | none => none
  | some reply =>
      let file := { file with device := reply.device }
      if 0 ≤ reply.retval ∧ reply.retval < bytes.length then
        some ⟨.goto (.flush (bytes.drop reply.retval.toNat) reply.fPos), [], file, clients⟩
      else
        some ⟨.goto (.seek reply.fPos), [], file, clients⟩

/-- The loop around `fgets`, one byte at a time.  A line is sent with its newline,
when the buffer is full, and at the end of the file. -/
def echoStep (device : Device δ χ) (outcomes : Outcomes χ) (line ahead : Bytes) (fPos : Int)
    (file : DeviceFile δ) (clients : Clients) : Option (Effect δ) :=
  match ahead with
  | byte :: ahead =>
      if byte = newline ∨ line.length + 1 = bufferSize - 1 then
        some ⟨.goto (.echo [] ahead fPos), cString (line ++ [byte]), file, clients⟩
      else
        some ⟨.goto (.echo (line ++ [byte]) ahead fPos), [], file, clients⟩
  | [] =>
      match device outcomes.device (.read outcomes.count) fPos file.device with
      | none => none
      | some reply =>
          let file := { file with device := reply.device }
          if reply.retval > 0 then
            some ⟨.goto (.echo line reply.delivered reply.fPos), [], file, clients⟩
          else if reply.retval = 0 then
            some ⟨.goto .unlockFile, cString line, file, clients⟩
          else
            some ⟨.goto .unlockFile, [], file, clients⟩

/-- One step of `message_handler_thread` in the handler with number `index`. -/
def Pc.step (device : Device δ χ) (index : Nat) (returned : Nat → Bool)
    (outcomes : Outcomes χ) (file : DeviceFile δ) (clients : Clients) :
    Pc → Option (Effect δ)
  | .start =>
      if outcomes.ok then
        some ⟨.goto (.recv (uninitialised bufferSize outcomes.fill)), [], file, clients⟩
      else
        some ⟨.goto (.setComplete .lock), [], file, clients⟩
  | .recv buffer =>
      let chunk := outcomes.chunk.take bufferSize
      if chunk = [] then
        -- the loop ends without a stream, and `fseek` gets a null pointer
        some ⟨.crash, [], file, clients⟩
      else
        match receiveChunk (overwrite buffer chunk) chunk.length with
        | none => some ⟨.goto (.recv (overwrite buffer chunk)), [], file, clients⟩
        | some .nothing => some ⟨.crash, [], file, clients⟩
        | some (.seek buffer) => some ⟨.goto (.handleIoctl (.parse buffer)), [], file, clients⟩
        | some (.data bytes) => some ⟨.goto (.lockFile bytes), [], file, clients⟩
  | .handleIoctl point =>
      (point.step device index outcomes file).map fun (control, sent, file) =>
        ⟨control.embed .handleIoctl (.goto (.setComplete .lock)), sent, file, clients⟩
  | .lockFile bytes =>
      (file.lockThen index outcomes.ok (.goto (.openFile bytes))
        (.goto (.setComplete .lock))).map fun (next, file) => ⟨next, [], file, clients⟩
  | .openFile bytes =>
      if outcomes.ok then
        some ⟨.goto (.flush bytes 0), [], file, clients⟩
      else
        some ⟨.goto (.cleanup .start), [], file, clients⟩
  | .cleanup point =>
      (point.step (.handler index) returned outcomes.ok clients).map fun (control, clients) =>
        ⟨control.embed .cleanup (.goto (.setComplete .lock)), [], file, clients⟩
  | .flush bytes fPos => flushStep device outcomes bytes fPos file clients
  | .seek fPos =>
      match device outcomes.device (.llseek 0 0) fPos file.device with
      | none => none
      | some reply =>
          some ⟨.goto (.echo [] [] reply.fPos), [], { file with device := reply.device }, clients⟩
  | .echo line ahead fPos => echoStep device outcomes line ahead fPos file clients
  | .unlockFile =>
      some ⟨.goto (.setComplete .lock), [], file.unlock outcomes.ok, clients⟩
  | .setComplete point =>
      (point.step (.handler index) outcomes.clientThreadNode outcomes.ok clients).map
        fun (control, clients) =>
          ⟨control.embed .setComplete (.goto .returned), [], file, clients⟩
  | .returned => none

end Aesd.Server
