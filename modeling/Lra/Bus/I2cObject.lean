import Lra.Bus.I2c
import Lra.Effect.Execution
import Lra.Effect.Transition

/-!
# The I2C bus object

The kernel keeps a slave address with every open descriptor, and `I2c` keeps a copy of it
to save a call of `ioctl`. Both are changed at different places of the code: on opening,
on selecting another slave, and on closing.
-/

namespace Lra

open Effect

/-! ### System calls -/

/-- The four transfers of libi2c the code uses; the first two are for a device without
internal registers. -/
inductive SmbusXfer where
  | readByte
  | writeByte (value : UInt8)
  | readI2cBlockData (command len : UInt8)
  | writeI2cBlockData (command len : UInt8) (values : List UInt8)
  deriving DecidableEq, Repr

inductive SysOp where
  /-- `open(bus_name, O_RDWR)`. -/
  | openBus (busName : String)
  /-- `fcntl(fd, F_GETFL)`: `false` where it fails with `EBADF`. -/
  | fdValid (fd : Int32)
  | close (fd : Int32)
  /-- `ioctl(fd, I2C_FUNCS, _)`: `none` where it fails. -/
  | ioctlFuncs (fd : Int32)
  | ioctlSlave (fd : Int32) (addr : UInt8)
  /-- `ioctl(fd, I2C_RDWR, _)`, with the bytes read. -/
  | ioctlRdwr (fd : Int32) (msgs : List I2cMsg)
  /-- A transfer through `fd`, with the bytes read. -/
  | smbus (fd : Int32) (xfer : SmbusXfer)
  /-- `IsPiDistribution(getKernelVersion())`. -/
  | isPiDistribution
  /-- `UpdateI2cSpeedOnPi`: `none` where `std::stoul` throws. -/
  | updateI2cSpeedOnPi (busName : String)

@[reducible] def SysOp.Res : SysOp → Type
  | .openBus _ => Int32
  | .fdValid _ => Bool
  | .close _ => Unit
  | .ioctlFuncs _ => Option UInt64
  | .ioctlSlave _ _ => Int32
  | .ioctlRdwr _ _ => Int32 × List UInt8
  | .smbus _ _ => Int32 × List UInt8
  | .isPiDistribution => Bool
  | .updateI2cSpeedOnPi _ => Option UInt32

@[reducible] def Sys : Signature := ⟨SysOp, SysOp.Res⟩

def sys (o : SysOp) : Program Sys o.Res := .perform (S := Sys) o

/-! ### The object -/

structure I2c where
  fd : Int32 := -1
  func : UInt64 := 0
  speed : UInt32 := 0
  name : String := ""
  lastSlaveAddr : UInt16 := 0

namespace I2c

def i2cClose (fd : Int32) : Program Sys Unit := do
  let valid ← sys (.fdValid fd)
  if valid then sys (.close fd)

def i2cResetThisBus (bus : I2c) : Program Sys I2c := do
  i2cClose bus.fd
  return { bus with fd := -1, speed := 0, func := -1, name := "", lastSlaveAddr := 0 }

def i2cUpdateThisBusFunc (bus : I2c) : Program Sys I2c := do
  match ← sys (.ioctlFuncs bus.fd) with
  | none => return bus
  | some funcs => return { bus with func := funcs }

/-- The part of `InitImpl` behind the opening. The answer is `none` where an exception is
thrown. -/
def initSpeed (bus : I2c) : Program Sys (Option Bool × I2c) := do
  let pi ← sys .isPiDistribution
  if pi then
    match ← sys (.updateI2cSpeedOnPi bus.name) with
    | none => return (none, bus)
    | some speed => return (some true, { bus with speed })
  else
    return (some true, { bus with speed := 0 })

def initImpl (bus : I2c) (busName : String) : Program Sys (Option Bool × I2c) := do
  let fd ← sys (.openBus busName)
  if fd < 0 then
    return (some false, bus)
  else
    let bus ← bus.i2cResetThisBus
    let bus ← { bus with name := busName, fd }.i2cUpdateThisBusFunc
    bus.initSpeed

def plainRW (bus : I2c) (msgs : List I2cMsg) : Program Sys BusReply := do
  let (ret, value) ← sys (.ioctlRdwr bus.fd msgs)
  if ret < 0 then return ⟨-1, []⟩
  else return ⟨(msgs.getLast?.map fun m => (m.len.toNat : Int)).getD 0, value⟩

/-- Change to the target slave device: `none` where the kernel refuses. -/
def selectSlave (bus : I2c) (slaveAddr : UInt8) : Program Sys (Option I2c) := do
  if bus.lastSlaveAddr != slaveAddr.toUInt16 then
    let ret ← sys (.ioctlSlave bus.fd slaveAddr)
    if ret < 0 then return none
    else return some { bus with lastSlaveAddr := slaveAddr.toUInt16 }
  else
    return some bus

/-- Without an internal register only one byte can be transferred. -/
def smbusXfer (read : Bool) (data : SmbusData) : Option SmbusXfer :=
  if data.noInternalReg then
    if data.len = 1 then
      some (if read then .readByte else .writeByte (data.value.headD 0))
    else none
  else if read then some (.readI2cBlockData data.command data.len)
  else some (.writeI2cBlockData data.command data.len data.value)

/-- A single byte counts as one, the errors and the block transfers answer for themselves. -/
def smbusReply (data : SmbusData) (answer : Int32 × List UInt8) : BusReply :=
  if data.noInternalReg && answer.1 > -1 then ⟨1, answer.2⟩ else ⟨answer.1.toInt, answer.2⟩

def smbusRW (read : Bool) (bus : I2c) (data : SmbusData) : Program Sys (BusReply × I2c) := do
  match ← bus.selectSlave data.slaveAddr with
  | none => return (⟨-1, []⟩, bus)
  | some bus =>
    match smbusXfer read data with
    | none => return (⟨0, []⟩, bus)
    | some xfer =>
      let answer ← sys (.smbus bus.fd xfer)
      return (smbusReply data answer, bus)

end I2c

/-- A call of the object's interface. -/
inductive I2cCall where
  | init (busName : String)
  | rw (call : BusCall)

/-- The object after the call. -/
def I2cCall.code (bus : I2c) : I2cCall → Program Sys I2c
  | .init busName => do
    let (_, bus) ← bus.initImpl busName
    return bus
  | .rw (.smbusWrite data) => do
    let (_, bus) ← bus.smbusRW false data
    return bus
  | .rw (.smbusRead data) => do
    let (_, bus) ← bus.smbusRW true data
    return bus
  | .rw (.plain msgs) => do
    let _ ← bus.plainRW msgs
    return bus

/-! ### The kernel -/

/-- For every open descriptor the slave address it holds, and the SMBus transfers so far,
newest first, each with the address it went to; `none` where the descriptor was not open. -/
structure Kernel where
  addr : Int32 → Option UInt16
  sent : List (SmbusXfer × Option UInt16)
  addr_neg : ∀ fd < 0, addr fd = none

namespace Kernel

/-- What a system call may answer and leave. -/
def Does : Semantics Sys Kernel
  | .openBus _, k, fd, k' => k'.sent = k.sent ∧
    (fd < 0 ∧ k'.addr = k.addr ∨
      0 ≤ fd ∧ k.addr fd = none ∧ k'.addr = Function.update k.addr fd (some 0))
  | .fdValid fd, k, valid, k' => valid = (k.addr fd).isSome ∧ k' = k
  | .close fd, k, _, k' => k'.sent = k.sent ∧ k'.addr = Function.update k.addr fd none
  | .ioctlSlave fd addr, k, ret, k' => k'.sent = k.sent ∧
    (ret < 0 ∧ k'.addr = k.addr ∨
      0 ≤ ret ∧ k.addr fd ≠ none ∧ k'.addr = Function.update k.addr fd (some addr.toUInt16))
  | .smbus fd xfer, k, _, k' => k'.sent = (xfer, k.addr fd) :: k.sent ∧ k'.addr = k.addr
  | _, k, _, k' => k' = k

end Kernel

/-- The object and the kernel. -/
structure BusState where
  bus : I2c
  kernel : Kernel

/-- One call, with any of its system calls failing. -/
def BusState.Calls (s : BusState) (call : I2cCall) (s' : BusState) : Prop :=
  ∃ tr, Exec Kernel.Does (call.code s.bus) s.kernel tr s'.bus s'.kernel

/-! ### The copy of the slave address -/

/-- There is no descriptor, or the object knows the address it holds. -/
def Synced (bus : I2c) (k : Kernel) : Prop :=
  bus.fd = -1 ∨ k.addr bus.fd = some bus.lastSlaveAddr

/-- The transfers a call may issue from `s`, and where they must go. -/
def Addressed (s : BusState) : I2cCall → SmbusXfer × Option UInt16 → Prop
  | .rw (.smbusWrite data), x => I2c.smbusXfer false data = some x.1 ∧
    (x.2 = some data.slaveAddr.toUInt16 ∨ s.bus.fd = -1 ∧ x.2 = none)
  | .rw (.smbusRead data), x => I2c.smbusXfer true data = some x.1 ∧
    (x.2 = some data.slaveAddr.toUInt16 ∨ s.bus.fd = -1 ∧ x.2 = none)
  | _, _ => False

namespace I2c

variable {bus : I2c} {k : Kernel}

/-- Closing forgets the old descriptor and no other. -/
theorem i2cClose_wp (fd : Int32) :
    (i2cClose fd).wp Kernel.Does
      (fun _ k' => k'.sent = k.sent ∧ ∀ fd' ≠ fd, k'.addr fd' = k.addr fd') k := by
  intro valid k' answer
  obtain ⟨-, rfl⟩ := answer
  cases valid with
  | false => exact ⟨rfl, fun _ _ => rfl⟩
  | true =>
      intro _ k'' closed
      obtain ⟨sent, addr⟩ := closed
      exact ⟨sent, fun fd' other => by rw [addr, Function.update_of_ne other]⟩

theorem i2cUpdateThisBusFunc_wp :
    bus.i2cUpdateThisBusFunc.wp Kernel.Does
      (fun bus' k' => bus'.fd = bus.fd ∧ bus'.lastSlaveAddr = bus.lastSlaveAddr ∧ k' = k) k := by
  intro funcs k' same
  cases funcs with
  | none => exact ⟨rfl, rfl, same⟩
  | some funcs => exact ⟨rfl, rfl, same⟩

theorem initSpeed_wp :
    bus.initSpeed.wp Kernel.Does
      (fun r k' => r.2.fd = bus.fd ∧ r.2.lastSlaveAddr = bus.lastSlaveAddr ∧ k' = k) k := by
  intro pi k' same
  obtain rfl : k' = k := same
  cases pi with
  | false => exact ⟨rfl, rfl, rfl⟩
  | true =>
      intro speed k'' same
      cases speed with
      | none => exact ⟨rfl, rfl, same⟩
      | some speed => exact ⟨rfl, rfl, same⟩

/-- The new descriptor is another than the old one, which is closed. -/
theorem initImpl_wp (synced : Synced bus k) (busName : String) :
    (bus.initImpl busName).wp Kernel.Does
      (fun r k' => Synced r.2 k' ∧ k'.sent = k.sent) k := by
  intro fd k₁ opened
  obtain ⟨sent, ⟨failed, same⟩ | ⟨valid, fresh, addr⟩⟩ := opened
  · change (if fd < 0 then pure (some false, bus) else _ : Program Sys _).wp _ _ k₁
    rw [if_pos failed]
    refine ⟨synced.imp_right fun held => ?_, sent⟩
    rw [same, held]
  · have other : fd ≠ bus.fd := by
      intro same
      rw [same] at valid fresh
      cases synced with
      | inl none =>
          rw [none] at valid
          cases valid
      | inr held => cases held.symm.trans fresh
    have held : k₁.addr fd = some 0 := by rw [addr, Function.update_self]
    change (if fd < 0 then pure (some false, bus) else _ : Program Sys _).wp _ _ k₁
    rw [if_neg (Int32.not_lt.mpr valid), i2cResetThisBus, Program.wp_bind, Program.wp_bind]
    refine Program.wp_mono (i2cClose_wp bus.fd) fun _ k₂ closed => ?_
    obtain ⟨sent₂, addr₂⟩ := closed
    change (_ >>= _ : Program Sys _).wp _ _ k₂
    rw [Program.wp_bind]
    refine Program.wp_mono i2cUpdateThisBusFunc_wp fun bus₃ k₃ updated => ?_
    obtain ⟨fd₃, last₃, rfl⟩ := updated
    refine Program.wp_mono initSpeed_wp fun r k₄ done => ?_
    obtain ⟨fd₄, last₄, rfl⟩ := done
    refine ⟨.inr ?_, sent₂.trans sent⟩
    rw [fd₄, fd₃, last₄, last₃, addr₂ fd other, held]

/-- The addresses of a plain transfer are in its messages. -/
theorem plainRW_wp (msgs : List I2cMsg) :
    (bus.plainRW msgs).wp Kernel.Does (fun _ k' => k' = k) k := by
  intro answer k' same
  change (if answer.1 < 0 then pure ⟨-1, []⟩ else pure _ : Program Sys BusReply).wp _ _ k'
  split <;> exact same

/-- A slave is selected on both sides or on none. -/
theorem selectSlave_wp (synced : Synced bus k) (slaveAddr : UInt8) :
    (bus.selectSlave slaveAddr).wp Kernel.Does
      (fun r k' => k'.sent = k.sent ∧
        match r with
        | none => Synced bus k'
        | some bus' => Synced bus' k' ∧ bus'.fd = bus.fd ∧
          bus'.lastSlaveAddr = slaveAddr.toUInt16) k := by
  unfold selectSlave
  split
  · intro ret k' answer
    obtain ⟨sent, ⟨failed, same⟩ | ⟨success, opened, addr⟩⟩ := answer
    · change (if ret < 0 then pure none else _ : Program Sys _).wp _ _ k'
      rw [if_pos failed]
      refine ⟨sent, synced.imp_right fun held => ?_⟩
      rw [same, held]
    · change (if ret < 0 then pure none else _ : Program Sys _).wp _ _ k'
      rw [if_neg (Int32.not_lt.mpr success)]
      refine ⟨sent, .inr ?_, rfl, rfl⟩
      rw [addr, Function.update_self]
  · next same => exact ⟨rfl, synced, rfl, by simpa using same⟩

/-- A transfer is issued only through a descriptor that holds the wished address. -/
theorem smbusRW_wp (synced : Synced bus k) (read : Bool) (data : SmbusData) :
    (bus.smbusRW read data).wp Kernel.Does
      (fun r k' => Synced r.2 k' ∧ ∃ new, k'.sent = new ++ k.sent ∧
        ∀ x ∈ new, smbusXfer read data = some x.1 ∧
          (x.2 = some data.slaveAddr.toUInt16 ∨ bus.fd = -1 ∧ x.2 = none)) k := by
  rw [smbusRW, Program.wp_bind]
  refine Program.wp_mono (selectSlave_wp synced data.slaveAddr) fun selected k₁ done => ?_
  obtain ⟨sent, done⟩ := done
  cases selected with
  | none => exact ⟨done, [], sent, nofun⟩
  | some bus₁ =>
      obtain ⟨synced₁, sameFd, selected⟩ := done
      cases wished : smbusXfer read data with
      | none => exact ⟨synced₁, [], sent, nofun⟩
      | some xfer =>
          intro answer k₂ issued
          obtain ⟨sent₂, addr₂⟩ := issued
          refine ⟨synced₁.imp_right fun held => addr₂ ▸ held, [(xfer, k₁.addr bus₁.fd)], ?_, ?_⟩
          · rw [sent₂, sent]
            rfl
          · intro x inside
            rw [List.mem_singleton.mp inside, ← sameFd, ← selected]
            refine ⟨rfl, ?_⟩
            cases synced₁ with
            | inl closed =>
                refine .inr ⟨closed, ?_⟩
                rw [closed]
                exact k₁.addr_neg _ (by decide)
            | inr held => exact .inl held

end I2c

theorem BusState.Calls.spec {s s' : BusState} {call : I2cCall} (calls : s.Calls call s')
    (synced : Synced s.bus s.kernel) :
    Synced s'.bus s'.kernel ∧
      ∃ new, s'.kernel.sent = new ++ s.kernel.sent ∧ ∀ x ∈ new, Addressed s call x := by
  obtain ⟨tr, run⟩ := calls
  have quiet : ∀ {s' : BusState}, Synced s'.bus s'.kernel ∧ s'.kernel.sent = s.kernel.sent →
      Synced s'.bus s'.kernel ∧ ∃ new, s'.kernel.sent = new ++ s.kernel.sent ∧
        ∀ x ∈ new, Addressed s call x := fun done => ⟨done.1, [], done.2, nofun⟩
  cases call with
  | init busName =>
      refine quiet (Program.wp.of_exec (Q := fun bus k => Synced bus k ∧ k.sent = s.kernel.sent)
        ?_ run)
      rw [I2cCall.code, Program.wp_bind]
      exact I2c.initImpl_wp synced busName
  | rw call =>
      cases call with
      | smbusWrite data =>
          refine Program.wp.of_exec (Q := fun bus k => Synced bus k ∧
            ∃ new, k.sent = new ++ s.kernel.sent ∧ ∀ x ∈ new, Addressed s _ x) ?_ run
          rw [I2cCall.code, Program.wp_bind]
          exact I2c.smbusRW_wp synced false data
      | smbusRead data =>
          refine Program.wp.of_exec (Q := fun bus k => Synced bus k ∧
            ∃ new, k.sent = new ++ s.kernel.sent ∧ ∀ x ∈ new, Addressed s _ x) ?_ run
          rw [I2cCall.code, Program.wp_bind]
          exact I2c.smbusRW_wp synced true data
      | plain msgs =>
          refine quiet (Program.wp.of_exec (Q := fun bus k => Synced bus k ∧ k.sent = s.kernel.sent)
            ?_ run)
          rw [I2cCall.code, Program.wp_bind]
          exact Program.wp_mono (I2c.plainRW_wp msgs) fun _ k' same => same.symm ▸ ⟨synced, rfl⟩

/-- Over any calls of a new object, the address it knows is the one its descriptor holds,
and every SMBus transfer goes to the slave the call names. -/
theorem lastSlaveAddr_synced {k : Kernel} {s : BusState} {h : List (I2cCall × BusState)}
    (run : Run BusState.Calls ⟨{}, k⟩ h s) :
    (∀ h', h' <:+ h → Synced (stateAfter ⟨{}, k⟩ h').bus (stateAfter ⟨{}, k⟩ h').kernel) ∧
    ∀ call u h', (call, u) :: h' <:+ h →
      ∃ new, u.kernel.sent = new ++ (stateAfter ⟨{}, k⟩ h').kernel.sent ∧
        ∀ x ∈ new, Addressed (stateAfter ⟨{}, k⟩ h') call x := by
  have synced : ∀ {h s}, Run BusState.Calls ⟨{}, k⟩ h s → Synced s.bus s.kernel := fun run =>
    run.invariant (P := fun s => Synced s.bus s.kernel) (.inl rfl) fun synced calls =>
      (calls.spec synced).1
  constructor
  · exact fun h' suffix => synced (run.prefix_run suffix)
  · intro call u h' suffix
    cases run.prefix_run suffix with
    | step earlier last =>
        rw [earlier.stateAfter_eq]
        exact (last.spec (synced earlier)).2

/-- A kernel with at most the descriptor 3. -/
def oneFd (held : Option UInt16) (sent : List (SmbusXfer × Option UInt16)) : Kernel where
  addr := Function.update (fun _ => none) 3 held
  sent
  addr_neg fd negative := by
    refine Function.update_of_ne ?_ _ _
    rintro rfl
    cases negative

def selectDrv : SmbusData := { command := 0x01, len := 1, slaveAddr := 0x5a, value := [0x40] }

/-- The bus is opened and a drive is written to. -/
theorem lastSlaveAddr_synced_write :
    ∃ s₁ s₂ : BusState, BusState.Calls ⟨{}, oneFd none []⟩ (.init "/dev/i2c-1") s₁ ∧
      s₁.Calls (.rw (.smbusWrite selectDrv)) s₂ ∧ Synced s₂.bus s₂.kernel ∧
      ∃ new, s₂.kernel.sent = new ++ s₁.kernel.sent ∧
        ∀ x ∈ new, Addressed s₁ (.rw (.smbusWrite selectDrv)) x := by
  have opens :
      Kernel.Does (.openBus "/dev/i2c-1") (oneFd none []) (3 : Int32) (oneFd (some 0) []) :=
    ⟨rfl, .inr ⟨by decide, rfl, (Function.update_idem _ _ _).symm⟩⟩
  have noOld : Kernel.Does (.fdValid (-1)) (oneFd (some 0) []) false (oneFd (some 0) []) :=
    ⟨rfl, rfl⟩
  have funcs : Kernel.Does (.ioctlFuncs 3) (oneFd (some 0) []) none (oneFd (some 0) []) := rfl
  have notPi : Kernel.Does .isPiDistribution (oneFd (some 0) []) false (oneFd (some 0) []) := rfl
  have selects : Kernel.Does (.ioctlSlave 3 0x5a) (oneFd (some 0) []) (0 : Int32)
      (oneFd (some 0x5a) []) :=
    ⟨rfl, .inr ⟨by decide, nofun, (Function.update_idem _ _ _).symm⟩⟩
  have writes : Kernel.Does (.smbus 3 (.writeI2cBlockData 0x01 1 [0x40])) (oneFd (some 0x5a) [])
      ((0 : Int32), []) (oneFd (some 0x5a) [(.writeI2cBlockData 0x01 1 [0x40], some 0x5a)]) :=
    ⟨rfl, rfl⟩
  have init : BusState.Calls ⟨{}, oneFd none []⟩ (.init "/dev/i2c-1")
      ⟨⟨3, -1, 0, "/dev/i2c-1", 0⟩, oneFd (some 0) []⟩ :=
    ⟨_, .op opens (.op noOld (.op funcs (.op notPi (.ret _ _))))⟩
  have write : BusState.Calls ⟨⟨3, -1, 0, "/dev/i2c-1", 0⟩, oneFd (some 0) []⟩
      (.rw (.smbusWrite selectDrv)) ⟨⟨3, -1, 0, "/dev/i2c-1", 0x5a⟩, oneFd (some 0x5a) _⟩ :=
    ⟨_, .op selects (.op writes (.ret _ _))⟩
  have both := lastSlaveAddr_synced ((Run.nil.step init).step write)
  exact ⟨_, _, init, write, both.1 _ List.suffix_rfl, both.2 _ _ _ List.suffix_rfl⟩

end Lra
