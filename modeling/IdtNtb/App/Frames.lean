import IdtNtb.App.Driver
import IdtNtb.Lib.Bytes
import IdtNtb.Lib.Transition

/-! Frames from VM A to VM B. `write` on A copies the payload and then the header
into B's inbound buffer, byte by byte, and sends a KICK; the worker on B looks at
the header; `read` on B copies the payload out. A's mutex admits one write at a
time, but nothing on B holds A back, and `read` takes no mutex, so any number of
reads run beside the worker. Locked sections are single steps, as is the
delivery of a command, which the message registers make atomic. -/
namespace IdtNtb.App.Frame
open Bytes Kernel Transition

abbrev Payload := List (BitVec 8)

/-- The `i`th byte of the header `tx_commit_locked` writes. -/
def headerByte (len seq i : Nat) : BitVec 8 :=
  if i < 4 then byte frameMagic i
  else if i < 8 then byte len (i - 4)
  else if i < 12 then byte seq (i - 8)
  else 0

/-- A `write` that holds the mutex: copying the payload, copying the header,
sending the KICK. -/
inductive WriteCall where
  | copy (payload : Payload) (done : Nat)
  | header (payload : Payload) (seq done : Nat)
  | kick (payload : Payload)
  deriving DecidableEq

/-- The worker on B: idle, or inside `complete_rx` for a KICK with `data`. -/
inductive RxWork where
  | idle
  | magic (data : Nat)
  | len (data magic : Nat)
  | publish (len : Nat)
  deriving DecidableEq

/-- A `read` past its first locked section, with the bytes it has copied. -/
structure ReadCall where
  len : Nat
  copied : Payload
  deriving DecidableEq

structure Frames (n : Nat) where
  a : AppDev
  b : AppDev
  /-- The bytes of `b`'s inbound buffer, which A's window reaches. -/
  mem : Memory
  writer : Option WriteCall
  inbox : Option Nat
  worker : RxWork
  readers : Fin n → Option ReadCall

/-- `link` and `announced` are A's worker following the link and B's own SIZE and
XLAT. `ok` is false when the user's buffer faults, when the device has gone by
the time of the commit, or when `send_cmd` gives up. -/
inductive Label (n : Nat) where
  | write (payload : Payload)
  | writer (ok : Bool)
  | worker
  | read (id : Fin n) (count : Nat)
  | reader (id : Fin n) (ok : Bool)
  | link (up : Bool)
  | announced (xlat : Bool) (ntb : Ntb)

inductive Event where
  | kicked (payload : Payload)
  | wrote (result : Except Errno Nat)
  | dropped
  | readNothing
  | read (result : Except Errno Payload)
  deriving DecidableEq

def writeStart (s : Frames n) (payload : Payload) : Frames n × List Event :=
  if payload.length = 0 then (s, [.wrote (.ok 0)])
  else match s.a.checkTx payload.length with
    | .error e => (s, [.wrote (.error e)])
    | .ok () => ({ s with writer := some (.copy payload 0) }, [])

def writeNext (s : Frames n) (ok : Bool) : WriteCall → Option (Frames n × List Event)
  | .copy payload done =>
      match payload[done]? with
      | some value =>
          if ok then
            some ({ s with
              mem := Function.update s.mem (frameSize + done) value
              writer := some (.copy payload (done + 1)) }, [])
          else some ({ s with writer := none }, [.wrote (.error .efault)])
      | none =>
          match if ok then s.a.checkTx payload.length else .error .enodev with
          | .error e => some ({ s with writer := none }, [.wrote (.error e)])
          | .ok () =>
              let seq := (s.a.txSeq + 1) % 2 ^ 32
              some ({ s with
                a := { s.a with txSeq := seq }
                writer := some (.header payload seq 0) }, [])
  | .header payload seq done =>
      some ({ s with
        mem := Function.update s.mem done (headerByte payload.length seq done)
        writer := some (if done + 1 < frameSize then .header payload seq (done + 1)
          else .kick payload) }, [])
  | .kick payload =>
      if ok then
        match s.inbox with
        | some _ => none
        | none =>
            some ({ s with inbox := some payload.length, writer := none },
              [.kicked payload, .wrote (.ok payload.length)])
      else some ({ s with writer := none }, [.wrote (.error .eagain)])

/-- The next access of B's worker: `recv_cmd`, then `complete_rx`. -/
def workNext (s : Frames n) : RxWork → Option (Frames n × List Event)
  | .idle => s.inbox.map fun data => ({ s with inbox := none, worker := .magic data }, [])
  | .magic data => some ({ s with worker := .len data (load s.mem 0 4) }, [])
  | .len data magic =>
      let len := load s.mem 4 4
      if s.b.acceptsFrame magic len data then some ({ s with worker := .publish len }, [])
      else some ({ s with worker := .idle }, [.dropped])
  | .publish len =>
      some ({ s with b := s.b.publishRx len (load s.mem 8 4), worker := .idle }, [])

/-- `ntb_idt_app_read` through its first locked section. -/
def readStart (s : Frames n) (id : Fin n) (count : Nat) : Frames n × List Event :=
  if count = 0 then (s, [.readNothing])
  else if s.b.removed then (s, [.read (.error .enodev)])
  else if !s.b.rxAvail then (s, [.read (.error .eagain)])
  else if count < s.b.rxLen then (s, [.read (.error .emsgsize)])
  else ({ s with readers := Function.update s.readers id (some ⟨s.b.rxLen, []⟩) }, [])

def readNext (s : Frames n) (id : Fin n) (ok : Bool) (call : ReadCall) : Frames n × List Event :=
  let finished : Frames n := { s with readers := Function.update s.readers id none }
  if call.copied.length < call.len then
    if ok then
      ({ s with
          readers := Function.update s.readers id
            (some { call with copied := call.copied ++
              [s.mem (frameSize + call.copied.length)] }) },
        [])
    else (finished, [.read (.error .efault)])
  else ({ finished with b := s.b.retireRx }, [.read (.ok call.copied)])

def Frames.step (s : Frames n) : Label n → Option (Frames n × List Event)
  | .write payload =>
      match s.writer with
      | some _ => none
      | none => some (writeStart s payload)
  | .writer ok => s.writer.bind (writeNext s ok)
  | .worker => workNext s s.worker
  | .read id count =>
      match s.readers id with
      | some _ => none
      | none => some (readStart s id count)
  | .reader id ok => (s.readers id).map (readNext s id ok)
  | .link up =>
      match s.writer with
      | some _ => none
      | none => some ({ s with a := s.a.setLink up }, [])
  | .announced xlat ntb =>
      match s.writer, s.b.rx with
      | none, some buffer =>
          let command := if xlat then Command.xlat buffer.dma else .size buffer.size
          some ({ s with a := s.a.announce ntb command }, [])
      | _, _ => none

end IdtNtb.App.Frame
