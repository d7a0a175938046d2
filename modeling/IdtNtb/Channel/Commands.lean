import IdtNtb.Device.Mmio

/-! The command channel of the two kernel drivers, at the granularity of single
register accesses. A command is a 32-bit code and 64 bits of data, spread over
three message registers. On each VM one thread may be inside `send_cmd` and one
inside `recv_cmd`; every access of either is a separate step, so a schedule can
interleave the two VMs at any point. -/
namespace IdtNtb.Channel
open Device

structure Command where
  cmd : BitVec 32
  data : BitVec 64
  deriving DecidableEq, Repr

/-- The message registers that carry a command: three different ones. -/
structure CommandRegs where
  cmd : Fin 4
  low : Fin 4
  high : Fin 4
  cmd_ne_low : cmd ≠ low
  cmd_ne_high : cmd ≠ high
  low_ne_high : low ≠ high

inductive Driver where
  | app
  | sisci
  deriving DecidableEq

def Driver.regs : Driver → CommandRegs
  | .app => ⟨0, 1, 2, by decide, by decide, by decide⟩
  | .sisci => ⟨0, 1, 2, by decide, by decide, by decide⟩

/-- `ntb_msg_outbits` and `ntb_msg_inbits` of the IDT driver. -/
def ntbMsgOutbits : BitVec 32 := 0xF
def ntbMsgInbits : BitVec 32 := 0xF0000

def hweight (x : BitVec 32) : Nat := (List.range 32).countP x.getLsbD

/-- Stores to message registers never consult the peer's RAM file. -/
def ntbMsgClearSts (w : Switch) (r : Role) (bits : BitVec 32) : Option Switch :=
  w.writeReg .absent r .msgsts bits

def ntbPeerMsgWrite (w : Switch) (r : Role) (i : Fin 4) (msg : BitVec 32) : Option Switch :=
  w.writeReg .absent r (.outmsg i) msg

def ntbMsgReadSts (w : Switch) (r : Role) : BitVec 32 := w.readReg r .msgsts

def ntbMsgRead (w : Switch) (r : Role) (i : Fin 4) : BitVec 32 := w.readReg r (.inmsg i)

inductive SendPc where
  | checkLink
  | clearSts
  | writeLow
  | pollLow
  | writeHigh
  | pollHigh
  | writeCmd
  | pollCmd
  deriving DecidableEq

inductive SendResult where
  | ok
  | eagain
  | enolink
  deriving DecidableEq

/-- A `send_cmd` call in progress. `changed` records whether one of its own
steps has changed an inbound register or INMSGSTS bit of the peer. -/
structure SendCall where
  command : Command
  tries : Nat
  pc : SendPc
  changed : Bool

def sendTries : Nat := 100

def SendCall.goto (call : SendCall) (pc : SendPc) : SendCall ⊕ SendResult := .inl { call with pc }

/-- `continue`: back to the head of the loop, which ends after 100 rounds. -/
def SendCall.retry (call : SendCall) : SendCall ⊕ SendResult :=
  if call.tries + 1 < sendTries then .inl { call with tries := call.tries + 1, pc := .checkLink }
  else .inr .eagain

def SendCall.poll (call : SendCall) (sts : BitVec 32) (accepted : SendCall ⊕ SendResult) :
    SendCall ⊕ SendResult :=
  if sts &&& ntbMsgOutbits ≠ 0 then call.retry else accepted

/-- One register access, or link check, of `send_cmd` on VM `r`. -/
def sendCmd (regs : CommandRegs) (r : Role) (w : Switch) (call : SendCall) (linkUp : Bool) :
    Option (Switch × (SendCall ⊕ SendResult)) :=
  match call.pc with
  | .checkLink => some (w, if linkUp then call.goto .clearSts else .inr .enolink)
  | .clearSts => (ntbMsgClearSts w r ntbMsgOutbits).map (·, call.goto .writeLow)
  | .writeLow =>
      (ntbPeerMsgWrite w r regs.low (half call.command.data 0)).map (·, call.goto .pollLow)
  | .pollLow => some (w, call.poll (ntbMsgReadSts w r) (call.goto .writeHigh))
  | .writeHigh =>
      (ntbPeerMsgWrite w r regs.high (half call.command.data 1)).map (·, call.goto .pollHigh)
  | .pollHigh => some (w, call.poll (ntbMsgReadSts w r) (call.goto .writeCmd))
  | .writeCmd => (ntbPeerMsgWrite w r regs.cmd call.command.cmd).map (·, call.goto .pollCmd)
  | .pollCmd => some (w, call.poll (ntbMsgReadSts w r) (.inr .ok))

/-- A `recv_cmd` call in progress, with what it has read so far. -/
inductive RecvCall where
  | readSts
  | readCmd
  | readLow (cmd : BitVec 32)
  | readHigh (cmd low : BitVec 32)
  | clearSts (command : Command)
  deriving DecidableEq

/-- One register access of `recv_cmd` on VM `r`. A call ends with a command, or
with `none` for -ENODATA. -/
def recvCmd (regs : CommandRegs) (r : Role) (w : Switch) :
    RecvCall → Option (Switch × (RecvCall ⊕ Option Command))
  | .readSts =>
      some (w, if hweight (ntbMsgReadSts w r &&& ntbMsgInbits) < 3 then .inr none
        else .inl .readCmd)
  | .readCmd => some (w, .inl (.readLow (ntbMsgRead w r regs.cmd)))
  | .readLow cmd => some (w, .inl (.readHigh cmd (ntbMsgRead w r regs.low)))
  | .readHigh cmd low => some (w, .inl (.clearSts ⟨cmd, join (ntbMsgRead w r regs.high) low⟩))
  | .clearSts command => (ntbMsgClearSts w r ntbMsgInbits).map (·, .inr (some command))

def ntbIdtAppSendCmd := sendCmd Driver.app.regs
def ntbIdtSisciSendCmd := sendCmd Driver.sisci.regs
def ntbIdtAppRecvCmd := recvCmd Driver.app.regs
def ntbIdtSisciRecvCmd := recvCmd Driver.sisci.regs

def Driver.sendCmd : Driver → Role → Switch → SendCall → Bool →
    Option (Switch × (SendCall ⊕ SendResult))
  | .app => ntbIdtAppSendCmd
  | .sisci => ntbIdtSisciSendCmd

def Driver.recvCmd : Driver → Role → Switch → RecvCall →
    Option (Switch × (RecvCall ⊕ Option Command))
  | .app => ntbIdtAppRecvCmd
  | .sisci => ntbIdtSisciRecvCmd

structure Link where
  switch : Switch
  sender : Role → Option SendCall
  receiver : Role → Option RecvCall

/-- Scheduling choices. `send` and `recv` run the next access of the call in
progress; `enable` is the status clear that loading the module makes. -/
inductive Label where
  | startSend (r : Role) (command : Command)
  | send (r : Role) (linkUp : Bool)
  | startRecv (r : Role)
  | recv (r : Role)
  | enable (r : Role)
  deriving DecidableEq

inductive Event where
  | began (r : Role) (command : Command)
  | returned (r : Role) (command : Command) (result : SendResult) (changed : Bool)
  | received (r : Role) (command : Command)
  | noData (r : Role)
  deriving DecidableEq

/-- Whether an access changed what VM `q` has in INMSG or INMSGSTS. -/
def inboundChanged (before after : Switch) (q : Role) : Bool :=
  decide (inBusy after.shm q ≠ inBusy before.shm q ∨
    (after.shm.vm q).regs.msg ≠ (before.shm.vm q).regs.msg)

def Link.stepSend (driver : Driver) (c : Link) (r : Role) (linkUp : Bool) (call : SendCall) :
    Option (Link × List Event) :=
  (driver.sendCmd r c.switch call linkUp).map fun (w, out) =>
    let changed := call.changed || inboundChanged c.switch w r.peer
    match out with
    | .inl next =>
        ({ c with switch := w, sender := Function.update c.sender r (some { next with changed }) },
          [])
    | .inr result =>
        ({ c with switch := w, sender := Function.update c.sender r none },
          [.returned r call.command result changed])

def Link.stepRecv (driver : Driver) (c : Link) (r : Role) (call : RecvCall) :
    Option (Link × List Event) :=
  (driver.recvCmd r c.switch call).map fun (w, out) =>
    match out with
    | .inl next =>
        ({ c with switch := w, receiver := Function.update c.receiver r (some next) }, [])
    | .inr (some command) =>
        ({ c with switch := w, receiver := Function.update c.receiver r none },
          [.received r command])
    | .inr none =>
        ({ c with switch := w, receiver := Function.update c.receiver r none }, [.noData r])

def Link.step (driver : Driver) (c : Link) : Label → Option (Link × List Event)
  | .startSend r command =>
      match c.sender r with
      | none =>
          some ({ c with sender := Function.update c.sender r (some ⟨command, 0,
            .checkLink, false⟩) }, [.began r command])
      | some _ => none
  | .send r linkUp => (c.sender r).bind (c.stepSend driver r linkUp)
  | .startRecv r =>
      match c.receiver r with
      | none => some ({ c with receiver := Function.update c.receiver r (some .readSts) }, [])
      | some _ => none
  | .recv r => (c.receiver r).bind (c.stepRecv driver r)
  | .enable r =>
      (ntbMsgClearSts c.switch r (ntbMsgInbits ||| ntbMsgOutbits)).map fun w =>
        ({ c with switch := w }, [])

def Link.start (w : Switch) : Link := ⟨w, fun _ => none, fun _ => none⟩

end IdtNtb.Channel
