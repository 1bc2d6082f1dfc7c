import Lra.Device.Adxl355
import Lra.Effect.Performs
import Lra.Host.Flags
import Lra.Server.Message

/-!
# Numbers of clients and bytes on the devices

The numbers of a `drvCmdUpdate` or `regAllUpdate` message are read as 32-bit values and then
stored in bytes. `Event.carryOut` follows such a message to the transfers: which bytes it
writes to which chip is determined exactly, and with it when they are the numbers sent.
-/

namespace Lra

open Effect

/-- The chips whose registers a client may set. -/
inductive Part where
  | drv (ax : Axis)
  | adxl
  deriving DecidableEq, Repr

/-- The operation writes these register bytes to a part. A drive is sent an SMBus block; the
call on the accelerometer is carried out in SPI transfers, of which the bulk write counts. -/
def IoOp.Writes (part : Part) (bytes : List UInt8) : IoOp → Prop
  | .bus (.drv ax) (.smbusWrite data) => part = .drv ax ∧ bytes = data.value
  | .host (.acc (.updateAllReg v)) => part = .adxl ∧ ∃ s : Adxl355,
    (s.updateAllReg v).May ((Adxl355.offsetXH.visitAddr.toUInt8 <<< 1 ||| 0x00) :: bytes)
  | _ => False

/-! ### The writes of a call -/

namespace Adxl355

/-- The transfers of a change of the mode concern the mode alone. -/
theorem not_may_setStandBy (standby : Bool) (s : Adxl355) (bytes : List UInt8) :
    ¬ (s.setStandBy standby).May
      ((offsetXH.visitAddr.toUInt8 <<< 1 ||| 0x00) :: bytes) := by
  unfold setStandBy
  split
  · rintro (other | ⟨r, other | ⟨r', none⟩⟩)
    · exact absurd (List.head_eq_of_cons_eq other) (by decide)
    · exact absurd (List.head_eq_of_cons_eq other) (by decide)
    · exact none
  · exact id

theorem may_updateAllReg {v bytes : List UInt8} {s : Adxl355}
    (h : (s.updateAllReg v).May ((offsetXH.visitAddr.toUInt8 <<< 1 ||| 0x00) :: bytes)) :
    bytes = v ∧ v.length = rwRegNum := by
  rw [updateAllReg] at h
  obtain first | ⟨t, h⟩ := Program.may_bind h
  · exact absurd first (not_may_setStandBy true s bytes)
  · by_cases len : v.length = rwRegNum
    · rw [if_pos len] at h
      obtain (here | ⟨r, none⟩) | ⟨r, last⟩ := Program.may_bind h
      · exact ⟨(List.tail_eq_of_cons_eq here).symm, len⟩
      · exact none.elim
      · exact absurd last (not_may_setStandBy _ _ bytes)
    · rw [if_neg len] at h
      exact absurd h (not_may_setStandBy _ t bytes)

/-- A driver that is in standby makes the bulk write at once. -/
theorem may_updateAllReg_self {v : List UInt8} (len : v.length = rwRegNum) :
    (({ standby := true } : Adxl355).updateAllReg v).May
      ((offsetXH.visitAddr.toUInt8 <<< 1 ||| 0x00) :: v) := by
  have held : ({ standby := true } : Adxl355).setStandBy true = pure { standby := true } := rfl
  rw [updateAllReg, held, pure_bind, if_pos len]
  exact .inl rfl

end Adxl355

/-- Whatever the program is answered, it writes a part's bytes only if they are its image
and have the length the part takes. -/
def WritesOnly {α : Type} (image : Part → List UInt8) (count : Part → Nat) (p : Program Io α) :
    Prop :=
  ∀ o, p.May o → ∀ part bytes, o.Writes part bytes →
    bytes = image part ∧ bytes.length = count part

namespace WritesOnly

variable {α β : Type} {image : Part → List UInt8} {count : Part → Nat} {p : Program Io α}
  {f : α → Program Io β} {ax : Axis}

theorem ret (a : α) : WritesOnly image count (.ret a : Program Io α) := fun _ none => none.elim

theorem bind (first : WritesOnly image count p) (rest : ∀ a, WritesOnly image count (f a)) :
    WritesOnly image count (p >>= f) := by
  intro o may
  obtain here | ⟨a, later⟩ := Program.may_bind may
  · exact first o here
  · exact rest a o later

theorem perform {o : IoOp} (h : ∀ part bytes, o.Writes part bytes →
    bytes = image part ∧ bytes.length = count part) :
    WritesOnly image count (Program.perform (S := Io) o) := by
  rintro o' (rfl | ⟨r, none⟩)
  · exact h
  · exact none.elim

/-- A selection writes to the multiplexer. -/
theorem changeDrvCh (c : Char) : WritesOnly image count (Controller.changeDrvCh c) := by
  unfold Controller.changeDrvCh
  split
  · rw [Tca9548a.write_control]
    refine bind (bind (perform fun _ _ none => none.elim) fun _ => ret _) fun _ => ?_
    exact perform fun _ _ none => none.elim
  · exact ret _

/-- What is done with the drive that has been selected. -/
theorem selected (c : Char) (rest : WritesOnly image count p) :
    WritesOnly image count (Controller.changeDrvCh c >>= fun _ => p) :=
  (changeDrvCh c).bind fun _ => rest

theorem updateRTP {cmd : UInt8} (same : image (.drv ax) = [cmd]) (one : count (.drv ax) = 1) :
    WritesOnly image count (Drv2605l.updateRTP ax cmd) := by
  rw [Drv2605l.updateRTP, Drv2605l.write_eq rfl (Int.natCast_nonneg _), ofInt_toNat]
  refine bind (bind (perform ?_) fun _ => ret _) fun _ => ret _
  rintro part bytes ⟨rfl, rfl⟩
  exact ⟨same.symm, one.symm⟩

theorem updateAllReg {v : List UInt8} (same : image (.drv ax) = v)
    (len : count (.drv ax) = Drv2605l.wRegLen) :
    WritesOnly image count (Drv2605l.updateAllReg ax v) := by
  by_cases fits : v.length = Drv2605l.wRegLen
  · rw [Drv2605l.updateAllReg_eq fits]
    refine bind (perform ?_) fun _ => ret _
    rintro part bytes ⟨rfl, rfl⟩
    exact ⟨same.symm, fits.trans len.symm⟩
  · rw [Drv2605l.updateAllReg_mismatch fits]
    exact ret _

theorem accUpdateAllReg {v : List UInt8} (same : image .adxl = v)
    (len : count .adxl = Adxl355.rwRegNum) :
    WritesOnly image count (host (.acc (.updateAllReg v))) := by
  refine perform ?_
  rintro part bytes ⟨rfl, s, may⟩
  obtain ⟨rfl, fits⟩ := Adxl355.may_updateAllReg may
  exact ⟨same.symm, fits.trans len.symm⟩

/-- Every other call leaves the registers of the parts alone. -/
theorem quiet {o : HostOp} (other : ∀ v, o ≠ .acc (.updateAllReg v)) :
    WritesOnly image count (host o) := by
  refine perform ?_
  intro part bytes h
  unfold IoOp.Writes at h
  split at h
  · next same => cases same
  · next same => exact absurd (IoOp.host.inj same) (other _)
  · exact h.elim

end WritesOnly

namespace Server

/-! ### Messages on their way -/

/-- What each part is to be written. -/
def Event.image : Event → Part → List UInt8
  | .drvCmdUpdate (x, y, z), .drv ax => [Controller.pick x y z ax]
  | .regAllUpdate x y z _, .drv ax => Controller.pick x y z ax
  | .regAllUpdate _ _ _ accArr, .adxl => accArr
  | _, _ => []

/-- How many bytes a part takes; other arrays are refused. -/
def MessageType.count : MessageType → Part → Nat
  | .regAllUpdate, .drv _ => Drv2605l.wRegLen
  | .regAllUpdate, .adxl => Adxl355.rwRegNum
  | _, _ => 1

/-- A handler; a command waits in `ws_rtp_cmd` until the control loop applies it. -/
def Event.carryOut : Event → Program Main Unit
  | .drvCmdUpdate rtp => do
    Server.drvCmdUpdate rtp
    applyCmd
  | e => e.code

theorem updateAllRtp_writesOnly (rtp : RtpCmd) :
    WritesOnly (Event.drvCmdUpdate rtp).image MessageType.drvCmdUpdate.count
      (Controller.updateAllRtp rtp) := by
  obtain ⟨x, y, z⟩ := rtp
  refine .selected 'x' ((WritesOnly.updateRTP rfl rfl).bind fun _ => ?_)
  refine .selected 'y' ((WritesOnly.updateRTP rfl rfl).bind fun _ => ?_)
  exact .selected 'z' (WritesOnly.updateRTP rfl rfl)

theorem updateAllRegisters_writesOnly (x y z accArr : List UInt8) :
    WritesOnly (Event.regAllUpdate x y z accArr).image MessageType.regAllUpdate.count
      (Controller.updateAllRegisters x y z accArr) := by
  refine .selected 'x' ((WritesOnly.updateAllReg rfl rfl).bind fun _ => ?_)
  refine .selected 'y' ((WritesOnly.updateAllReg rfl rfl).bind fun _ => ?_)
  refine .selected 'z' ((WritesOnly.updateAllReg rfl rfl).bind fun _ => ?_)
  exact WritesOnly.accUpdateAllReg rfl rfl

theorem regAllUpdate_writesOnly (x y z accArr : List UInt8) :
    WritesOnly (Event.regAllUpdate x y z accArr).image MessageType.regAllUpdate.count
      ((Event.regAllUpdate x y z accArr).carryOut.interp MainOp.impl) := by
  have closes : WritesOnly (Event.regAllUpdate x y z accArr).image MessageType.regAllUpdate.count
      (host (.store .onModify false) >>= fun _ =>
        host (.send .regAllUpdateRecv) >>= fun _ => .ret ()) :=
    (WritesOnly.quiet (o := .store .onModify false) nofun).bind fun _ =>
      (WritesOnly.quiet (o := .send .regAllUpdateRecv) nofun).bind fun _ => .ret ()
  refine (WritesOnly.quiet (o := .store .onModify true) nofun).bind fun _ => ?_
  refine (WritesOnly.quiet (o := .acc (.setStandBy true)) nofun).bind fun _ => ?_
  refine (updateAllRegisters_writesOnly x y z accArr).bind fun _ => ?_
  refine (WritesOnly.quiet (o := .load .onCalibration) nofun).bind fun calibrating => ?_
  cases calibrating with
  | true => exact closes
  | false => exact (WritesOnly.quiet (o := .acc (.setStandBy false)) nofun).bind fun _ => closes

theorem drvCmdUpdate_writesOnly (rtp : RtpCmd) :
    WritesOnly (Event.drvCmdUpdate rtp).image MessageType.drvCmdUpdate.count
      ((Server.drvCmdUpdate rtp).interp MainOp.impl) := by
  obtain ⟨x, y, z⟩ := rtp
  refine (WritesOnly.quiet (o := .setCmd 0 x) nofun).bind fun _ => ?_
  refine (WritesOnly.quiet (o := .setCmd 1 y) nofun).bind fun _ => ?_
  refine (WritesOnly.quiet (o := .setCmd 2 z) nofun).bind fun _ => ?_
  refine (WritesOnly.quiet (o := .store .onUpdateCmd true) nofun).bind fun _ => ?_
  exact (WritesOnly.quiet (o := .send .drvCmdUpdateRecv) nofun).bind fun _ => .ret _

/-! ### What must be written -/

theorem updateRTP_must (ax : Axis) (cmd : UInt8) : (Drv2605l.updateRTP ax cmd).Must
    (IoOp.bus (.drv ax) (Drv2605l.writeCall Drv2605l.rtpInput cmd)) := by
  rw [Drv2605l.updateRTP, Drv2605l.write_eq rfl (Int.natCast_nonneg _), ofInt_toNat]
  exact .inl rfl

theorem updateAllReg_must {ax : Axis} {v : List UInt8} (len : v.length = Drv2605l.wRegLen) :
    (Drv2605l.updateAllReg ax v).Must (IoOp.bus (.drv ax) (Drv2605l.updateAllCall v)) := by
  rw [Drv2605l.updateAllReg_eq len]
  exact .inl rfl

theorem updateAllRtp_must (x y z : UInt8) (ax : Axis) :
    (Controller.updateAllRtp (x, y, z)).Must
      (IoOp.bus (.drv ax) (Drv2605l.writeCall Drv2605l.rtpInput (Controller.pick x y z ax))) := by
  refine .bind_right _ fun _ => ?_
  cases ax with
  | x => exact (updateRTP_must .x x).bind_left _
  | y =>
    refine .bind_right _ fun _ => .bind_right _ fun _ => ?_
    exact (updateRTP_must .y y).bind_left _
  | z =>
    refine .bind_right _ fun _ => .bind_right _ fun _ => .bind_right _ fun _ => ?_
    exact .bind_right _ fun _ => updateRTP_must .z z

theorem updateAllRegisters_must {x y z : List UInt8} (accArr : List UInt8) {ax : Axis}
    (len : (Controller.pick x y z ax).length = Drv2605l.wRegLen) :
    (Controller.updateAllRegisters x y z accArr).Must
      (IoOp.bus (.drv ax) (Drv2605l.updateAllCall (Controller.pick x y z ax))) := by
  refine .bind_right _ fun _ => ?_
  cases ax with
  | x => exact (updateAllReg_must len).bind_left _
  | y =>
    refine .bind_right _ fun _ => .bind_right _ fun _ => ?_
    exact (updateAllReg_must len).bind_left _
  | z =>
    refine .bind_right _ fun _ => .bind_right _ fun _ => .bind_right _ fun _ => ?_
    exact .bind_right _ fun _ => (updateAllReg_must len).bind_left _

theorem updateAllRegisters_must_acc (x y z accArr : List UInt8) :
    (Controller.updateAllRegisters x y z accArr).Must
      (IoOp.host (.acc (.updateAllReg accArr))) := by
  refine .bind_right _ fun _ => .bind_right _ fun _ => .bind_right _ fun _ => ?_
  refine .bind_right _ fun _ => .bind_right _ fun _ => .bind_right _ fun _ => ?_
  exact .perform (S := Io) (.host (.acc (.updateAllReg accArr)))

/-! ### The bytes of a run -/

section Runs

variable {rtp : RtpCmd} {w w' : World} {tr : List (IoOp × World)} {part : Part}
  {bytes : List UInt8}

/-- The bytes are written to the part in a run. -/
def Written (part : Part) (bytes : List UInt8) (tr : List (IoOp × World)) : Prop :=
  ∃ op ∈ tr, op.1.Writes part bytes

/-- The handler leaves the command in memory and raises the flag. -/
theorem drvCmdUpdate_stores (rtp : RtpCmd) (w : World) :
    ((Server.drvCmdUpdate rtp).interp MainOp.impl).wp faulty
      (fun _ w' => w'.flag .onUpdateCmd = true ∧ (w'.cmd 0, w'.cmd 1, w'.cmd 2) = rtp) w := by
  obtain ⟨x, y, z⟩ := rtp
  rintro r u rfl r u rfl r u rfl r u rfl r u rfl
  exact ⟨rfl, rfl⟩

/-- The control loop applies the command it finds. -/
theorem of_applyCmd (up : w.flag .onUpdateCmd = true)
    (stored : (w.cmd 0, w.cmd 1, w.cmd 2) = rtp)
    (run : Exec faulty (applyCmd.interp MainOp.impl) w tr () w') :
    ∃ tr', tr = (.host (.load .onUpdateCmd), w) :: (.host .vecToTuple, w) :: tr' ∧
      Exec faulty (Controller.updateAllRtp rtp >>= fun _ => host (.store .onUpdateCmd false))
        w tr' () w' := by
  obtain _ | ⟨⟨raised, rfl⟩, run⟩ := run
  rw [up] at raised
  subst raised
  obtain _ | ⟨⟨copied, rfl⟩, run⟩ := run
  rw [stored] at copied
  subst copied
  exact ⟨_, rfl, run⟩

/-- A command reaches every drive, and nothing else is written. -/
theorem written_drvCmdUpdate
    (run : Exec faulty ((Event.drvCmdUpdate rtp).carryOut.interp MainOp.impl) w tr () w') :
    Written part bytes tr ↔ bytes = (Event.drvCmdUpdate rtp).image part ∧
      bytes.length = MessageType.drvCmdUpdate.count part := by
  have split : (Event.drvCmdUpdate rtp).carryOut.interp MainOp.impl
      = (Server.drvCmdUpdate rtp).interp MainOp.impl >>= fun _ =>
        applyCmd.interp MainOp.impl := rfl
  rw [split] at run
  obtain ⟨tr₁, _, u, tr₂, handled, applied, rfl⟩ := run.of_bind
  obtain ⟨up, stored⟩ := (drvCmdUpdate_stores rtp w).of_exec handled
  obtain ⟨tr₃, rfl, sends⟩ := of_applyCmd up stored applied
  have only : WritesOnly (Event.drvCmdUpdate rtp).image MessageType.drvCmdUpdate.count
      (Controller.updateAllRtp rtp >>= fun _ => host (.store .onUpdateCmd false)) :=
    (updateAllRtp_writesOnly rtp).bind fun _ => WritesOnly.quiet nofun
  constructor
  · rintro ⟨op, mem, writes⟩
    obtain first | rfl | rfl | last : op ∈ tr₁ ∨ op = _ ∨ op = _ ∨ op ∈ tr₃ := by
      simpa using mem
    · exact drvCmdUpdate_writesOnly rtp _ (handled.may op first) part bytes writes
    · exact writes.elim
    · exact writes.elim
    · exact only _ (sends.may op last) part bytes writes
  · rintro ⟨rfl, len⟩
    obtain ⟨x, y, z⟩ := rtp
    cases part with
    | drv ax =>
      obtain ⟨v, mem⟩ := sends.must ((updateAllRtp_must x y z ax).bind_left _)
      exact ⟨_, List.mem_append_right _ (.tail _ (.tail _ mem)), rfl, rfl⟩
    | adxl => cases len

/-- The arrays of the lengths that the parts take are written, and nothing else. -/
theorem written_regAllUpdate {x y z accArr : List UInt8}
    (run : Exec faulty ((Event.regAllUpdate x y z accArr).carryOut.interp MainOp.impl)
      w tr () w') :
    Written part bytes tr ↔ bytes = (Event.regAllUpdate x y z accArr).image part ∧
      bytes.length = MessageType.regAllUpdate.count part := by
  constructor
  · rintro ⟨op, mem, writes⟩
    exact regAllUpdate_writesOnly x y z accArr _ (run.may op mem) part bytes writes
  · rintro ⟨rfl, len⟩
    have called {o : IoOp} (must : (Controller.updateAllRegisters x y z accArr).Must o) :
        ∃ v, (o, v) ∈ tr := by
      refine run.must ?_
      refine .bind_right (host (.store .onModify true)) fun _ => ?_
      refine .bind_right (host (.acc (.setStandBy true))) fun _ => ?_
      exact must.bind_left _
    cases part with
    | drv ax =>
      obtain ⟨v, mem⟩ := called (updateAllRegisters_must accArr len)
      exact ⟨_, mem, rfl, rfl⟩
    | adxl =>
      obtain ⟨v, mem⟩ := called (updateAllRegisters_must_acc x y z accArr)
      exact ⟨_, mem, rfl, _, Adxl355.may_updateAllReg_self len⟩

end Runs

end Server

/-! ### Numbers -/

namespace JsonValue

/-- The unsigned integer that the client wrote. -/
def number : JsonValue → Option Nat
  | int value => if 0 ≤ value then some value.toUInt64.toNat else none
  | uint value => some value.toNat
  | _ => none

/-- An unsigned integer that `asUInt` accepts. -/
def IsNumber (v : JsonValue) : Prop := ∃ n, v.number = some n ∧ n ≤ maxUInt.toNat

/-- The number in this place. -/
def sent (v : JsonValue) : Nat := v.number.getD 0

theorem asUInt_number {J : Jsoncpp} (laws : J.Lawful) {v : JsonValue} (h : v.IsNumber) :
    J.asUInt v = .ok (.ofNat v.sent) := by
  obtain ⟨n, number, le⟩ := h
  rw [sent, number, Option.getD_some]
  cases v with
  | int value =>
    obtain ⟨nonneg, same⟩ := Option.ite_none_right_eq_some.1 number
    obtain rfl := Option.some.inj same
    have fits : 0 ≤ value ∧ value.toUInt64 ≤ maxUInt := ⟨nonneg, le⟩
    rw [laws.asUInt_int value fits, UInt32.ofNat_uInt64ToNat]
  | uint value =>
    obtain rfl := Option.some.inj number
    have fits : value ≤ maxUInt := le
    rw [laws.asUInt_uint value fits, UInt32.ofNat_uInt64ToNat]
  | _ => cases number

/-- The last byte of a number. -/
def byte (v : JsonValue) : UInt8 := .ofNat v.sent

theorem toNat_byte_eq_iff (v : JsonValue) : v.byte.toNat = v.sent ↔ v.sent < 256 := by
  rw [byte, UInt8.toNat_ofNat', Nat.mod_eq_iff_lt (by decide)]

end JsonValue

namespace Server

open JsonValue

theorem uint8JsonArrayToVec_numbers {J : Jsoncpp} (laws : J.Lawful) {arr : JsonValue}
    (h : ∀ e ∈ arr.elements, e.IsNumber) :
    uint8JsonArrayToVec J arr = .ok (arr.elements.map byte) := by
  rw [uint8JsonArrayToVec, laws.elements_eq]
  refine mapM_eq fun e mem => ?_
  rw [asUInt_number laws (h e mem), byte, ← UInt32.toUInt8_ofNat']
  rfl

/-- The value of an axis among the arguments. -/
def MessageType.field (args : JsonValue) (ax : Axis) : MessageType → JsonValue
  | .regAllUpdate => ((args.member "data").member "drv").member (Controller.pick "x" "y" "z" ax)
  | _ => (args.member "data").member (Controller.pick "x" "y" "z" ax)

/-- The message sets registers, and all its fields are unsigned integers that `asUInt`
accepts. -/
def MessageType.Numeric (args : JsonValue) : MessageType → Prop
  | .drvCmdUpdate => (args.member "data").IsRecord ∧
    ∀ ax, (MessageType.drvCmdUpdate.field args ax).IsNumber
  | .regAllUpdate => (args.member "data").IsRecord ∧ ((args.member "data").member "drv").IsRecord ∧
    (∀ ax, ∀ e ∈ (MessageType.regAllUpdate.field args ax).elements, e.IsNumber) ∧
    ∀ e ∈ ((args.member "data").member "acc").elements, e.IsNumber
  | _ => False

/-- What a message has for a part: one number, or an array of them. -/
def MessageType.values (args : JsonValue) : MessageType → Part → List JsonValue
  | .drvCmdUpdate, .drv ax => [MessageType.drvCmdUpdate.field args ax]
  | .regAllUpdate, .drv ax => (MessageType.regAllUpdate.field args ax).elements
  | .regAllUpdate, .adxl => ((args.member "data").member "acc").elements
  | _, _ => []

section Parameters

variable {J : Jsoncpp} {args : JsonValue}

/-- A field of the data is read, and the reading goes on with it. -/
theorem field_bind {α : Type} (laws : J.Lawful) (record : args.IsRecord)
    (data : (args.member "data").IsRecord) (key : String)
    (f : JsonValue → Except JsonError α) :
    (J.get args "data" >>= fun data => J.get data key >>= f)
      = f ((args.member "data").member key) := by
  rw [laws.get_record args "data" record]
  exact congrArg (· >>= f) (laws.get_record _ key data)

/-- The same for a field of its data's drives. -/
theorem drvField_bind {α : Type} (laws : J.Lawful) (record : args.IsRecord)
    (data : (args.member "data").IsRecord) (drv : ((args.member "data").member "drv").IsRecord)
    (key : String) (f : JsonValue → Except JsonError α) :
    (J.get args "data" >>= fun data => J.get data "drv" >>= fun drv => J.get drv key >>= f)
      = f (((args.member "data").member "drv").member key) := by
  rw [field_bind laws record data "drv"]
  exact congrArg (· >>= f) (laws.get_record _ key drv)

theorem decode_drvCmdUpdate (laws : J.Lawful) (record : args.IsRecord)
    (numeric : MessageType.drvCmdUpdate.Numeric args) :
    decode J args .drvCmdUpdate = .ok (.drvCmdUpdate
      ((MessageType.drvCmdUpdate.field args .x).byte,
        (MessageType.drvCmdUpdate.field args .y).byte,
        (MessageType.drvCmdUpdate.field args .z).byte)) := by
  obtain ⟨data, number⟩ := numeric
  have x : J.asUInt ((args.member "data").member "x") = _ := asUInt_number laws (number .x)
  have y : J.asUInt ((args.member "data").member "y") = _ := asUInt_number laws (number .y)
  have z : J.asUInt ((args.member "data").member "z") = _ := asUInt_number laws (number .z)
  dsimp only [decode]
  rw [field_bind laws record data, x, except_ok_bind, field_bind laws record data, y,
    except_ok_bind, field_bind laws record data, z, except_ok_bind]
  simp only [UInt32.toUInt8_ofNat']
  rfl

theorem decode_regAllUpdate (laws : J.Lawful) (record : args.IsRecord)
    (numeric : MessageType.regAllUpdate.Numeric args) :
    decode J args .regAllUpdate = .ok (.regAllUpdate
      ((MessageType.regAllUpdate.field args .x).elements.map byte)
      ((MessageType.regAllUpdate.field args .y).elements.map byte)
      ((MessageType.regAllUpdate.field args .z).elements.map byte)
      (((args.member "data").member "acc").elements.map byte)) := by
  obtain ⟨data, drv, number, acc⟩ := numeric
  have x : uint8JsonArrayToVec J (((args.member "data").member "drv").member "x") = _ :=
    uint8JsonArrayToVec_numbers laws (number .x)
  have y : uint8JsonArrayToVec J (((args.member "data").member "drv").member "y") = _ :=
    uint8JsonArrayToVec_numbers laws (number .y)
  have z : uint8JsonArrayToVec J (((args.member "data").member "drv").member "z") = _ :=
    uint8JsonArrayToVec_numbers laws (number .z)
  dsimp only [decode]
  rw [drvField_bind laws record data drv, x, except_ok_bind,
    drvField_bind laws record data drv, y, except_ok_bind,
    drvField_bind laws record data drv, z, except_ok_bind,
    field_bind laws record data, uint8JsonArrayToVec_numbers laws acc, except_ok_bind]
  rfl

variable (J)

/-- Every byte that a part is written on behalf of the message is the number sent for it.
Nothing is written for a message that cannot be read. -/
def BytesArrive (args : JsonValue) (m : MessageType) : Prop :=
  ∀ e, decode J args m = .ok e → ∀ w tr w',
    Exec faulty (e.carryOut.interp MainOp.impl) w tr () w' → ∀ part bytes,
      Written part bytes tr → bytes.map UInt8.toNat = (m.values args part).map sent

variable {J}

/-- A message that is read as `e`, which writes its images of accepted length. -/
theorem bytesArrive_of {m : MessageType} {e : Event} (decoded : decode J args m = .ok e)
    (image : ∀ part, e.image part = (m.values args part).map byte)
    (written : ∀ {w w' : World} {tr : List (IoOp × World)} {part : Part} {bytes : List UInt8},
      Exec faulty (e.carryOut.interp MainOp.impl) w tr () w' →
        (Written part bytes tr ↔ bytes = e.image part ∧ bytes.length = m.count part)) :
    BytesArrive J args m ↔
      ∀ part, (m.values args part).length = m.count part →
        ∀ v ∈ m.values args part, v.sent < 256 := by
  have narrowed (part : Part) : ((m.values args part).map byte).map UInt8.toNat
      = (m.values args part).map sent ↔ ∀ v ∈ m.values args part, v.sent < 256 := by
    rw [List.map_map, List.map_inj_left]
    exact forall₂_congr fun v _ => toNat_byte_eq_iff v
  constructor
  · intro arrive part len
    obtain ⟨tr, run⟩ := bench_within_faulty.exec (e.carryOut.interp MainOp.impl) World.initial
    have sends : Written part (e.image part) tr := by
      refine (written run).2 ⟨rfl, ?_⟩
      rw [image, List.length_map, len]
    have same := arrive e decoded _ _ _ run part _ sends
    rw [image] at same
    exact (narrowed part).1 same
  · intro fit e' decoded' w tr w' run part bytes sends
    obtain rfl : e = e' := Except.ok.inj (decoded.symm.trans decoded')
    obtain ⟨rfl, len⟩ := (written run).1 sends
    rw [image, List.length_map] at len
    rw [image]
    exact (narrowed part).2 (fit part len)

/-- The bytes written are the numbers sent exactly if a message has no number beyond a byte
for a part that takes what it has. -/
theorem bytesArrive_iff (laws : J.Lawful) {m : MessageType} (record : args.IsRecord)
    (numeric : m.Numeric args) :
    BytesArrive J args m ↔
      ∀ part, (m.values args part).length = m.count part →
        ∀ v ∈ m.values args part, v.sent < 256 := by
  cases m with
  | drvCmdUpdate =>
    refine bytesArrive_of (decode_drvCmdUpdate laws record numeric) ?_
      written_drvCmdUpdate
    rintro ((_ | _ | _) | _) <;> rfl
  | regAllUpdate =>
    refine bytesArrive_of (decode_regAllUpdate laws record numeric) ?_
      written_regAllUpdate
    rintro ((_ | _ | _) | _) <;> rfl
  | _ => exact numeric.elim

end Parameters

/-- The arguments of a command. -/
def commandArgs (x y z : UInt64) : JsonValue :=
  .object [("data", .object [("x", .uint x), ("y", .uint y), ("z", .uint z)])]

theorem numeric_commandArgs {x y z : UInt64} (hx : x ≤ maxUInt) (hy : y ≤ maxUInt)
    (hz : z ≤ maxUInt) : MessageType.drvCmdUpdate.Numeric (commandArgs x y z) := by
  refine ⟨trivial, ?_⟩
  rintro (_ | _ | _)
  · exact ⟨_, rfl, hx⟩
  · exact ⟨_, rfl, hy⟩
  · exact ⟨_, rfl, hz⟩

theorem isRecord_commandArgs (x y z : UInt64) : (commandArgs x y z).IsRecord := trivial

theorem bytesArrive_command :
    BytesArrive (.standard fun _ => "") (commandArgs 1 128 255) .drvCmdUpdate := by
  have numeric := numeric_commandArgs (x := 1) (y := 128) (z := 255) (by decide) (by decide)
    (by decide)
  have laws := Jsoncpp.lawful_standard fun _ => ""
  refine (bytesArrive_iff laws (isRecord_commandArgs 1 128 255) numeric).2 ?_
  rintro ((_ | _ | _) | _) _ <;> simp [MessageType.values, MessageType.field, commandArgs,
    Controller.pick, member, sent, number]

/-- A command of 300 is read, and drives with 44. -/
theorem not_bytesArrive_wide :
    MessageType.drvCmdUpdate.Numeric (commandArgs 300 0 0) ∧
      decode (.standard fun _ => "") (commandArgs 300 0 0) .drvCmdUpdate
        = .ok (.drvCmdUpdate (44, 0, 0)) ∧
      ¬ BytesArrive (.standard fun _ => "") (commandArgs 300 0 0) .drvCmdUpdate := by
  have numeric := numeric_commandArgs (x := 300) (y := 0) (z := 0) (by decide) (by decide)
    (by decide)
  have decoded := decode_drvCmdUpdate (Jsoncpp.lawful_standard fun _ => "")
    (isRecord_commandArgs 300 0 0) numeric
  refine ⟨numeric, decoded, fun arrive => ?_⟩
  obtain ⟨tr, run⟩ := bench_within_faulty.exec
    ((Event.drvCmdUpdate (44, 0, 0)).carryOut.interp MainOp.impl) World.initial
  have sends : Written (.drv .x) [44] tr := (written_drvCmdUpdate run).2 ⟨rfl, rfl⟩
  have same : [44] = [300] := arrive _ decoded _ _ _ run _ _ sends
  exact absurd same (by decide)

end Server

end Lra
