import IdtNtb.App.Driver
import IdtNtb.Lib.Parties

/-! The handshake of two drivers. Link and message events queue a VM's worker;
the worker follows the link, drains its registers and publishes its own window
only if it is not ready by then. -/
namespace IdtNtb.App.Handshake
open Kernel Parties

structure Host where
  align : MwAlign
  dma : Nat
  phys : Nat
  mapSize : Nat
  bufferSize : Nat
  fits : frameSize < AppDev.reqSize bufferSize align
  aligned : align.addrAlign ≤ 1 ∨ dma % align.addrAlign = 0

def Host.ntb (host : Host) : Ntb := .granting host.align host.dma host.phys host.mapSize

theorem Host.setupInboundMw (host : Host) (app : AppDev) :
    ∃ buffer, app.setupInboundMw host.ntb host.bufferSize = .ok { app with rx := some buffer } := by
  unfold AppDev.setupInboundMw
  cases allocated : app.rx with
  | some buffer =>
    have same : { app with rx := some buffer } = app := by rw [← allocated]
    refine ⟨buffer, ?_⟩
    simp only [Option.isSome_some, if_true, same]
  | none =>
    have fine : ¬(host.align.addrAlign > 1 ∧ host.dma % host.align.addrAlign ≠ 0) := by
      have aligned := host.aligned
      omega
    refine ⟨⟨host.dma, _, host.fits⟩, ?_⟩
    simp only [Option.isSome_none, Bool.false_eq_true, if_false, Host.ntb, Ntb.granting, bind,
      Except.bind, host.fits, dif_pos, fine]

/-- `service_work`, from its removal from the queue to its end. -/
inductive Worker where
  | idle
  | start
  | recv
  | decide
  | sendSize
  | sendXlat
  deriving DecidableEq

structure Vm where
  loaded : Bool
  host : Host
  app : AppDev
  link : Bool
  queued : Bool
  worker : Worker
  inbox : Option Command

/-- `giveUp` is a `send_cmd` that fails: it finds the link down, or the peer's
registers occupied for all its rounds. -/
inductive Action where
  | load (host : Host)
  | unload
  | linkChange (up : Bool)
  | work
  | giveUp
  | kick (data : Nat)

/-- `schedule_work` from an event, which only reaches a loaded driver. -/
def Vm.event (vm : Vm) : Vm := { vm with queued := vm.queued || vm.loaded }

def Vm.accept (vm : Vm) (command : Command) : Vm := { vm with inbox := some command }.event

/-- `probe`: `enable` clears the message registers and raises a link event. -/
def Vm.load (vm : Vm) (host : Host) : Vm :=
  { vm with loaded := true, host, app := .probed, inbox := none, queued := true, worker := .idle }

def Vm.unload (vm : Vm) : Vm := { vm with loaded := false, app := .probed, queued := false }

/-- `send_cmd` to a peer with empty registers over a link that is up. -/
def Vm.send (own peer : Vm) (command : Command) (worker : Worker) : Option (Vm × Vm) :=
  if own.link then
    match peer.inbox with
    | none => some ({ own with worker }, peer.accept command)
    | some _ => none
  else none

def Vm.work (own peer : Vm) : Option (Vm × Vm) :=
  match own.worker with
  | .idle =>
      if own.queued then some ({ own with queued := false, worker := .start }, peer) else none
  | .start =>
      let app := own.app.setLink own.link
      if own.link then
        match app.setupInboundMw own.host.ntb own.host.bufferSize with
        | .error _ => some ({ own with app, worker := .idle }, peer)
        | .ok app => some ({ own with app, worker := .recv }, peer)
      else some ({ own with app, worker := .idle }, peer)
  | .recv =>
      match own.inbox with
      | some command =>
          some ({ own with app := own.app.announce own.host.ntb command, inbox := none }, peer)
      | none => some ({ own with worker := .decide }, peer)
  | .decide =>
      some ({ own with
        worker := if own.app.peerReady || own.app.rx.isNone then .idle else .sendSize }, peer)
  | .sendSize => own.send peer (.size own.app.rxSize) .sendXlat
  | .sendXlat => own.send peer (.xlat (own.app.rx.elim 0 Buffer.dma)) .idle

def Vm.act (own peer : Vm) : Action → Option (Vm × Vm)
  | .load host => if own.loaded then none else some (own.load host, peer)
  | .unload => if own.worker = .idle then some (own.unload, peer) else none
  | .linkChange up => some ({ own with link := up }.event, peer)
  | .work => own.work peer
  | .giveUp =>
      match own.worker with
      | .sendSize | .sendXlat =>
          if own.link && peer.inbox.isNone then none else some ({ own with worker := .idle }, peer)
      | _ => none
  | .kick data =>
      if own.loaded && own.app.peerReady && (own.worker = .idle || own.worker = .start) then
        own.send peer (.kick data) own.worker
      else none

abbrev System := Pair Vm

/-- `act` as a move of one of two parties, which reports nothing. -/
def Vm.move (own peer : Vm) (action : Action) : Option (Vm × Vm × List Unit) :=
  (own.act peer action).map fun (own, peer) => (own, peer, [])

def System.step : System → Party × Action → Option (System × List (Party × Unit)) :=
  Parties.step Vm.move

def Vm.booted (host : Host) : Vm where
  loaded := false
  host := host
  app := .probed
  link := false
  queued := false
  worker := .idle
  inbox := none

def System.booted (host1 host2 : Host) : System := ⟨.booted host1, .booted host2⟩

end IdtNtb.App.Handshake
