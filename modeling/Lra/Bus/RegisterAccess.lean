import Lra.Bus.InternalAddr
import Lra.Effect.Execution
import Lra.Memory.Registers
import Mathlib.Data.Nat.ModEq

/-!
# Writing a register and reading it back

The device is an array of bytes behind an address counter: the first bytes it receives
name an address, what follows is stored from there on, and what is read comes from
there on. A value written through the adapter is stored big-endian. It reads back over
SMBus; a plain read takes the address from memory that is no longer the program's, and
finds the value for certain only where all addresses look alike.
-/

namespace Lra

open Effect

/-! ### A device of bytes -/

/-- The bus as the only interface. -/
def busSig : Signature := ⟨BusCall, fun _ => BusReply⟩

def onBus (call : BusCall) : Program busSig BusReply := .perform (S := busSig) call

/-- The address named by the first `k` bytes a device receives. -/
def namedAddr (k : Nat) (out : List UInt8) : Nat := BigEndian.value (out.take k)

/-- A device whose internal addresses have `k` bytes. Every transfer succeeds. -/
def byteDevice (k : Nat) : Handler busSig RegFile := fun call m =>
  (call.succeed (RegFile.load (namedAddr k call.out) call.want m),
    RegFile.store (fun _ => false) (namedAddr k call.out) (call.out.drop k) m)

theorem run_onBus (k : Nat) (call : BusCall) (m : RegFile) :
    (onBus call).run (byteDevice k) m =
      (call.succeed (RegFile.load (namedAddr k call.out) call.want m),
        RegFile.store (fun _ => false) (namedAddr k call.out) (call.out.drop k) m) := rfl

/-! ### The internal address -/

/-- An accepted address arrives whole. -/
theorem value_addrConvert {n : UInt8} {addr : UInt64} (le : n ≤ 4)
    (accepted : I2cAdapter.i2cInternalAddrCheck n addr = true) :
    BigEndian.value (I2cAdapter.i2cInternalAddrConvert addr.toUInt32 n
      (List.replicate n.toNat 0)) = addr.toNat := by
  obtain ⟨_, writes⟩ := I2cAdapter.writesAddr_addrBytes le addr.toUInt32
  rw [writes _ List.length_replicate.ge, List.drop_of_length_le List.length_replicate.le,
    List.append_nil, I2cAdapter.value_addrBytes le accepted]

theorem addrConvertLoop_length (caddr : List UInt8) (i j : Nat) (toBuf : List UInt8) :
    (I2cAdapter.addrConvertLoop caddr i j toBuf).length = toBuf.length := by
  induction i generalizing j toBuf with
  | zero => cases j <;> rfl
  | succ i ih =>
      cases j with
      | zero => rfl
      | succ j => rw [I2cAdapter.addrConvertLoop, ih, List.length_set]

theorem iaddrBuf_length (a : I2cAdapter) (addr : UInt64) :
    (a.iaddrBuf addr).length = a.devInfo.iaddrBytes.toNat := by
  rw [I2cAdapter.iaddrBuf, I2cAdapter.i2cInternalAddrConvert, addrConvertLoop_length,
    List.length_replicate]

/-! ### The value -/

/-- The serialised bytes are those of the two's complement, whatever the type of the value. -/
theorem value_integral2ArrayBE (n : Nat) (val : Int) :
    (BigEndian.value (integral2ArrayBE n val) : Int) = val % 256 ^ n := by
  induction n generalizing val with
  | zero => exact (Int.emod_one val).symm
  | succ n ih =>
      have low : ((UInt8.ofInt val).toNat : Int) = val % 256 := by
        simp [UInt8.ofInt]
        omega
      have high : val >>> (8 : Nat) = val / 256 := by
        rw [Int.shiftRight_eq_div_pow]
        rfl
      rw [integral2ArrayBE, BigEndian.value_concat, Int.natCast_add, Int.natCast_mul, ih, low, high]
      have quotient : val / 256 / 256 ^ n = val / 256 ^ (n + 1) := by
        rw [Int.ediv_ediv_of_nonneg (by decide), Int.pow_succ']
      have upper := Int.emod_def (val / 256) (256 ^ n)
      have whole := Int.emod_def val (256 ^ (n + 1))
      rw [quotient] at upper
      generalize val / 256 ^ (n + 1) = q at upper whole
      rw [Int.pow_succ', Int.mul_assoc] at whole
      rw [Int.pow_succ']
      omega

/-- What the variable held before is shifted out. -/
theorem array2IntegralBE_eq {width : Nat} (pos : 0 < width) (prev : Nat) {buf : List UInt8}
    (length : buf.length = width) : array2IntegralBE width prev buf = BigEndian.value buf := by
  have shift : ∀ (l : List UInt8) (v : Nat), Nat.ModEq (256 ^ width)
      (l.foldl (fun v b => (v <<< 8 ||| b.toNat) % 256 ^ width) v)
      (l.foldl (fun v b => v * 256 + b.toNat) v) := by
    intro l
    induction l using List.reverseRecOn with
    | nil => exact fun _ => rfl
    | append_singleton l b ih =>
        intro v
        simp only [List.foldl_append, List.foldl_cons, List.foldl_nil]
        rw [← Nat.shiftLeft_add_eq_or_of_lt b.toNat_lt, Nat.shiftLeft_eq]
        exact (Nat.mod_modEq _ _).trans (((ih v).mul_right 256).add_right b.toNat)
  have power : 2 ^ (8 * width) = 256 ^ width := Nat.pow_mul 2 8 width
  rw [array2IntegralBE, List.take_of_length_le (Nat.le_of_eq length), power]
  have congruent := shift buf prev
  rw [BigEndian.foldl_value, length] at congruent
  have small := BigEndian.value_lt buf
  rw [length] at small
  have reduced : buf.foldl (fun v b => (v <<< 8 ||| b.toNat) % 256 ^ width) prev < 256 ^ width := by
    rcases List.eq_nil_or_concat buf with rfl | ⟨init, b, rfl⟩
    · rw [List.length_nil] at length
      omega
    · rw [List.concat_eq_append, List.foldl_append]
      exact Nat.mod_lt _ (Nat.pow_pos (by decide))
  calc _ = _ % 256 ^ width := (Nat.mod_eq_of_lt reduced).symm
    _ = (prev * 256 ^ width + BigEndian.value buf) % 256 ^ width := congruent
    _ = BigEndian.value buf := by rw [Nat.mul_add_mod_self_right, Nat.mod_eq_of_lt small]

namespace RegisterT

/-- The value as the register can hold it. -/
def unsigned (reg : RegisterT) (val : Int) : Nat := (val % 2 ^ (8 * reg.visitBytelen)).toNat

/-- Its bytes, most significant first. -/
def byteOf (reg : RegisterT) (val : Int) (i : Nat) : UInt8 :=
  UInt8.ofNat (reg.unsigned val / 256 ^ (reg.visitBytelen - 1 - i))

theorem value_bytes (reg : RegisterT) (val : Int) :
    BigEndian.value (integral2ArrayBE reg.visitBytelen val) = reg.unsigned val := by
  have serialised := value_integral2ArrayBE reg.visitBytelen val
  have power : (2 : Int) ^ (8 * reg.visitBytelen) = 256 ^ reg.visitBytelen := Int.pow_mul
  rw [unsigned, power, ← serialised, Int.toNat_natCast]

/-- A list of as many bytes has these bytes exactly if it has the value. -/
theorem value_eq_unsigned_iff {reg : RegisterT} {val : Int} {bytes : List UInt8}
    (length : bytes.length = reg.visitBytelen) :
    BigEndian.value bytes = reg.unsigned val ↔
      ∀ (i : Nat) (inside : i < bytes.length), bytes[i] = reg.byteOf val i := by
  constructor
  · intro same i inside
    rw [BigEndian.getElem_eq, same, length, byteOf]
  · intro same
    have serialised := integral2ArrayBE_length reg.visitBytelen val
    have whole : bytes = integral2ArrayBE reg.visitBytelen val := by
      refine List.ext_getElem (length.trans serialised.symm) fun i inside inside' => ?_
      rw [same i inside, BigEndian.getElem_eq, value_bytes, serialised, byteOf]
    rw [whole, value_bytes]

end RegisterT

/-! ### Transfers -/

namespace I2cAdapter

/-- The adapter lets transfers through, and the device's own flags leave their direction
alone. -/
structure Serves (a : I2cAdapter) : Prop where
  plain : a.method = .plain → 0 < a.devInfo.iaddrBytes ∧ a.i2cPlainCheckFail = false ∧
    a.devInfo.flags &&& I2cMsg.rd = 0
  smbus : a.method = .smbus → a.devInfo.iaddrBytes = 1 ∧ a.devInfo.tenbit = false

section Transfers

variable {a : I2cAdapter} {addr : UInt64} {m : RegFile}

/-- The device as the adapter's settings describe it. -/
def attached (a : I2cAdapter) : Handler busSig RegFile := byteDevice a.devInfo.iaddrBytes.toNat

theorem namedAddr_iaddrBuf (accepted : i2cInternalAddrCheck a.devInfo.iaddrBytes addr = true)
    (data : List UInt8) :
    namedAddr a.devInfo.iaddrBytes.toNat (a.iaddrBuf addr ++ data) = addr.toNat := by
  rw [namedAddr, List.take_left' (iaddrBuf_length a addr)]
  exact value_addrConvert a.devInfo.iaddrBytes_le accepted

theorem drop_iaddrBuf (data : List UInt8) :
    (a.iaddrBuf addr ++ data).drop a.devInfo.iaddrBytes.toNat = data :=
  List.drop_left' (iaddrBuf_length a addr)

/-- With one address byte the SMBus command is the address. -/
theorem namedAddr_command (one : a.devInfo.iaddrBytes = 1)
    (accepted : i2cInternalAddrCheck a.devInfo.iaddrBytes addr = true) (data : List UInt8) :
    namedAddr 1 (addr.toUInt8 :: data) = addr.toNat := by
  rw [one] at accepted
  have bound : addr.toNat < 2 ^ 8 :=
    ((i2cInternalAddrCheck_iff 1 addr).mp accepted).resolve_left (by decide)
  have kept : addr.toUInt8.toNat = addr.toNat := by
    rw [UInt64.toNat_toUInt8]
    exact Nat.mod_eq_of_lt bound
  rw [namedAddr, List.take_succ_cons, List.take_zero, ← kept]
  exact Nat.zero_add _

theorem flags_or (x y z : UInt16) : (x ||| y) &&& z = (x &&& z) ||| (y &&& z) :=
  UInt16.toBitVec_inj.mp BitVec.and_or_distrib_right

theorem not_isRead_msgFlags (flags : a.devInfo.flags &&& I2cMsg.rd = 0) (len : UInt16)
    (buf : List UInt8) : (⟨a.devInfo.addr, a.msgFlags, len, buf⟩ : I2cMsg).isRead = false := by
  have apart : I2cMsg.ten &&& I2cMsg.rd = 0 := by decide
  have direction : a.msgFlags &&& I2cMsg.rd = 0 := by
    rw [msgFlags]
    split
    · rw [flags_or, flags, apart]
      rfl
    · exact flags
  simp [I2cMsg.isRead, direction]

theorem isRead_rd (flags : UInt16) (addr len : UInt16) (buf : List UInt8) :
    (⟨addr, flags ||| I2cMsg.rd, len, buf⟩ : I2cMsg).isRead = true := by
  have set : (flags ||| I2cMsg.rd) &&& I2cMsg.rd ≠ 0 := by
    rw [flags_or, UInt16.and_self]
    intro zero
    exact absurd (UInt16.or_eq_zero_iff.mp zero).2 (by decide)
  simpa [I2cMsg.isRead] using set

/-- A plain write puts the address and the data on the wire. -/
theorem plainWrite_out (flags : a.devInfo.flags &&& I2cMsg.rd = 0) {data : List UInt8}
    (short : data.length ≤ 8) :
    (BusCall.plain [⟨a.devInfo.addr, a.msgFlags, UInt16.ofNat (a.iaddrBuf addr ++ data).length,
      a.iaddrBuf addr ++ data⟩]).out = a.iaddrBuf addr ++ data := by
  have few : a.devInfo.iaddrBytes.toNat ≤ 4 := a.devInfo.iaddrBytes_le
  have length : (UInt16.ofNat (a.iaddrBuf addr ++ data).length).toNat =
      (a.iaddrBuf addr ++ data).length := by
    rw [UInt16.toNat_ofNat', List.length_append, iaddrBuf_length]
    omega
  simp only [BusCall.out, List.filter_cons, not_isRead_msgFlags flags, Bool.not_false, if_true,
    List.filter_nil, List.flatMap_singleton, length, List.take_length]

/-- A plain read puts only what it takes for the address on the wire. -/
theorem plainRead_out (flags : a.devInfo.flags &&& I2cMsg.rd = 0) (len : UInt16) {buf : List UInt8}
    (length : buf.length = a.devInfo.iaddrBytes.toNat) :
    (BusCall.plain [⟨a.devInfo.addr, a.msgFlags, a.devInfo.iaddrBytes.toUInt16, buf⟩,
      ⟨a.devInfo.addr, a.msgFlags ||| I2cMsg.rd, len, []⟩]).out = buf := by
  have whole : buf.take a.devInfo.iaddrBytes.toNat = buf :=
    List.take_of_length_le (Nat.le_of_eq length)
  simp [BusCall.out, not_isRead_msgFlags flags, isRead_rd, whole]

theorem plainRead_want (flags : a.devInfo.flags &&& I2cMsg.rd = 0) (len : UInt16)
    (buf : List UInt8) :
    (BusCall.plain [⟨a.devInfo.addr, a.msgFlags, a.devInfo.iaddrBytes.toUInt16, buf⟩,
      ⟨a.devInfo.addr, a.msgFlags ||| I2cMsg.rd, len, []⟩]).want = len.toNat := by
  simp [BusCall.want, not_isRead_msgFlags flags, isRead_rd]

/-- The address that a read asks for. -/
def askedAddr (a : I2cAdapter) (leftover : Leftover) (addr : UInt64) : Nat :=
  match a.method with
  | .plain => BigEndian.value (leftover.bytes (a.iaddrBuf addr))
  | .smbus => addr.toNat

theorem leftover_length (addr : UInt64) (leftover : Leftover) :
    (leftover.bytes (a.iaddrBuf addr)).length = a.devInfo.iaddrBytes.toNat :=
  (leftover.length_bytes _).trans (iaddrBuf_length a addr)

/-- Memory that nothing has reused holds the address. -/
theorem askedAddr_untouched
    (accepted : i2cInternalAddrCheck a.devInfo.iaddrBytes addr = true) :
    a.askedAddr .untouched addr = addr.toNat := by
  unfold askedAddr
  split
  · exact value_addrConvert a.devInfo.iaddrBytes_le accepted
  · rfl

/-- Over the plain method any address may be asked for. -/
theorem exists_askedAddr (plain : a.method = .plain) (addr : UInt64) {g : Nat}
    (lt : g < 256 ^ a.devInfo.iaddrBytes.toNat) :
    ∃ leftover, a.askedAddr leftover addr = g := by
  refine ⟨⟨fun buf => integral2ArrayBE buf.length g, fun buf => integral2ArrayBE_length _ _⟩, ?_⟩
  have value := value_integral2ArrayBE a.devInfo.iaddrBytes.toNat g
  have power : (256 : Int) ^ a.devInfo.iaddrBytes.toNat =
      ((256 ^ a.devInfo.iaddrBytes.toNat : Nat) : Int) := by simp
  rw [power, ← Int.natCast_mod, Nat.mod_eq_of_lt lt] at value
  simp only [askedAddr, plain, iaddrBuf_length]
  exact Int.ofNat_inj.mp value

theorem askedAddr_lt (plain : a.method = .plain) (leftover : Leftover) :
    a.askedAddr leftover addr < 256 ^ a.devInfo.iaddrBytes.toNat := by
  have small := BigEndian.value_lt (leftover.bytes (a.iaddrBuf addr))
  rw [leftover_length] at small
  simpa only [askedAddr, plain] using small

/-- A write of at most eight bytes that passes the checks stores them. -/
theorem checked_write (serves : a.Serves)
    (accepted : i2cInternalAddrCheck a.devInfo.iaddrBytes addr = true)
    {data : List UInt8} (short : data.length ≤ 8) :
    ((a.checked addr (callBusI2cPlainWriteMulti onBus a addr data)
      (onBus (.smbusWrite (a.smbusData addr (UInt8.ofNat data.length) data)))).run
        a.attached m).2 = RegFile.store (fun _ => false) addr.toNat data m := by
  rw [checked, accepted]
  cases method : a.method with
  | plain =>
      obtain ⟨_, func, flags⟩ := serves.plain method
      simp only [Bool.not_true, Bool.false_eq_true, if_false, func, callBusI2cPlainWriteMulti]
      rw [attached, run_onBus, plainWrite_out flags short,
        namedAddr_iaddrBuf accepted, drop_iaddrBuf]
  | smbus =>
      obtain ⟨one, seven⟩ := serves.smbus method
      have block : min (data.length % 256) smbusBlockMax = data.length := by
        rw [smbusBlockMax]
        omega
      have out : (BusCall.smbusWrite
          (a.smbusData addr (UInt8.ofNat data.length) data)).out = addr.toUInt8 :: data := by
        simp [BusCall.out, smbusData, one, block]
      simp only [Bool.not_true, Bool.false_eq_true, if_false, i2cSmbusCheckFail, one, seven]
      have named : namedAddr (UInt8.toNat 1) (addr.toUInt8 :: data) = addr.toNat :=
        namedAddr_command one accepted data
      rw [if_neg (by decide), attached, run_onBus, out, one, named]
      rfl

/-- A read of at most eight bytes that passes the checks delivers what is at the address it
asks for, and stores nothing. -/
theorem checked_read (serves : a.Serves)
    (accepted : i2cInternalAddrCheck a.devInfo.iaddrBytes addr = true) (leftover : Leftover)
    {len : Nat} (short : len ≤ 8) (value : List UInt8) :
    (a.checked addr (callBusI2cPlainReadMulti onBus a leftover addr (UInt16.ofNat len))
      (onBus (.smbusRead (a.smbusData addr (UInt8.ofNat len) value)))).run a.attached m =
        (⟨len, RegFile.load (a.askedAddr leftover addr) len m⟩, m) := by
  rw [checked, accepted]
  cases method : a.method with
  | plain =>
      obtain ⟨some, func, flags⟩ := serves.plain method
      have length : (UInt16.ofNat len).toNat = len := by
        rw [UInt16.toNat_ofNat']
        omega
      have bytes := leftover_length addr leftover (a := a)
      have whole := List.take_of_length_le (Nat.le_of_eq bytes)
      have rest := List.drop_of_length_le (Nat.le_of_eq bytes)
      have named : namedAddr a.devInfo.iaddrBytes.toNat (leftover.bytes (a.iaddrBuf addr)) =
          a.askedAddr leftover addr := by
        rw [namedAddr, whole, askedAddr, method]
      simp only [Bool.not_true, Bool.false_eq_true, if_false, func, callBusI2cPlainReadMulti,
        gt_iff_lt, some, if_true]
      rw [attached, run_onBus, plainRead_out flags _ bytes, plainRead_want flags, named, rest,
        RegFile.store_nil, length]
      simp [BusCall.succeed, length]
  | smbus =>
      obtain ⟨one, seven⟩ := serves.smbus method
      have block : min (len % 256) smbusBlockMax = len := by
        rw [smbusBlockMax]
        omega
      have out : (BusCall.smbusRead (a.smbusData addr (UInt8.ofNat len) value)).out =
          [addr.toUInt8] := by
        simp [BusCall.out, smbusData, one]
      have want : (BusCall.smbusRead (a.smbusData addr (UInt8.ofNat len) value)).want = len := by
        simp [BusCall.want, smbusData, one, block]
      have named : namedAddr (UInt8.toNat 1) [addr.toUInt8] = addr.toNat :=
        namedAddr_command one accepted []
      have asked : a.askedAddr leftover addr = addr.toNat := by rw [askedAddr, method]
      simp only [Bool.not_true, Bool.false_eq_true, if_false, i2cSmbusCheckFail, one, seven]
      rw [if_neg (by decide), attached, run_onBus, out, want, one, named, asked]
      simp [BusCall.succeed, RegFile.load]

end Transfers

section Register

variable {a : I2cAdapter} {reg : RegisterT}

theorem writeReg_run (serves : a.Serves)
    (accepted : i2cInternalAddrCheck a.devInfo.iaddrBytes reg.visitAddr = true) (val : Int)
    (m : RegFile) :
    ((a.writeReg onBus reg.toRegister val).run a.attached m).2 =
      RegFile.store (fun _ => false) reg.visitAddr.toNat
        (integral2ArrayBE reg.visitBytelen val) m := by
  have length := integral2ArrayBE_length reg.visitBytelen val
  have short : (integral2ArrayBE reg.visitBytelen val).length ≤ 8 := by
    rw [length]
    exact reg.visitBytelen_le
  have stored := checked_write (m := m) serves accepted short
  rw [length] at stored
  rw [writeReg, Program.run_bind, reg.toRegister_addr, reg.toRegister_bytelen, ← stored]
  rfl

theorem readReg_run (serves : a.Serves)
    (accepted : i2cInternalAddrCheck a.devInfo.iaddrBytes reg.visitAddr = true)
    (leftover : Leftover) (prev : Nat) (m : RegFile) :
    (a.readReg onBus leftover reg.toRegister prev).run a.attached m =
      (((reg.visitBytelen : Int), BigEndian.value
        (RegFile.load (a.askedAddr leftover reg.visitAddr) reg.visitBytelen m)), m) := by
  have read := checked_read (m := m) serves accepted leftover reg.visitBytelen_le
    (List.replicate reg.visitBytelen 0)
  have length := RegFile.load_length (a := a.askedAddr leftover reg.visitAddr) (m := m)
    reg.visitBytelen
  have value := array2IntegralBE_eq reg.visitBytelen_pos prev length
  rw [readReg, Program.run_bind, reg.toRegister_addr, reg.toRegister_bytelen, read]
  simp [value]

/-! ### A value written and read back -/

/-- The device after `Write(reg, val)`. -/
def written (a : I2cAdapter) (reg : RegisterT) (val : Int) (m : RegFile) : RegFile :=
  ((a.writeReg onBus reg.toRegister val).run a.attached m).2

/-- Exactly the bytes of the register hold the two's complement of the value, most significant
first. -/
structure Stores (a : I2cAdapter) (reg : RegisterT) (val : Int) (m : RegFile) : Prop where
  inside : ∀ i < reg.visitBytelen,
    a.written reg val m (reg.visitAddr.toNat + i) = reg.byteOf val i
  outside : ∀ j, j < reg.visitAddr.toNat ∨ reg.visitAddr.toNat + reg.visitBytelen ≤ j →
    a.written reg val m j = m j

/-- `Read(reg, out)` after `Write(reg, val)` sets `out`, whatever it was, to the value as an
unsigned number of the width of the register. -/
def ReadsBack (a : I2cAdapter) (leftover : Leftover) (reg : RegisterT) (val : Int) (prev : Nat)
    (m : RegFile) : Prop :=
  (a.readReg onBus leftover reg.toRegister prev).run a.attached (a.written reg val m) =
    (((reg.visitBytelen : Int), reg.unsigned val), a.written reg val m)

/-- All bytes of the value and all others that a read from any address would touch are the
same. -/
def Uniform (a : I2cAdapter) (reg : RegisterT) (val : Int) (m : RegFile) : Prop :=
  ∃ b, (∀ i < reg.visitBytelen, reg.byteOf val i = b) ∧
    ∀ j, j + 1 < 256 ^ a.devInfo.iaddrBytes.toNat + reg.visitBytelen →
      (j < reg.visitAddr.toNat ∨ reg.visitAddr.toNat + reg.visitBytelen ≤ j) → m j = b

theorem stores (serves : a.Serves)
    (accepted : i2cInternalAddrCheck a.devInfo.iaddrBytes reg.visitAddr = true) (val : Int)
    (m : RegFile) : a.Stores reg val m := by
  have length := integral2ArrayBE_length reg.visitBytelen val
  have stored := writeReg_run serves accepted val m
  constructor
  · intro i inside
    rw [← length] at inside
    rw [written, stored, RegFile.store_add inside rfl, List.getD_eq_getElem?_getD,
      List.getElem?_eq_getElem inside, Option.getD_some]
    exact (RegisterT.value_eq_unsigned_iff length).mp (reg.value_bytes val) i inside
  · intro j outside
    rw [written, stored]
    rcases outside with before | behind
    · exact RegFile.store_of_lt before
    · exact RegFile.store_of_ge (by rwa [length])

theorem readsBack_iff (serves : a.Serves)
    (accepted : i2cInternalAddrCheck a.devInfo.iaddrBytes reg.visitAddr = true)
    (leftover : Leftover) (val : Int) (prev : Nat) (m : RegFile) :
    a.ReadsBack leftover reg val prev m ↔ ∀ i < reg.visitBytelen,
      a.written reg val m (a.askedAddr leftover reg.visitAddr + i) = reg.byteOf val i := by
  have length := RegFile.load_length (a := a.askedAddr leftover reg.visitAddr)
    (m := a.written reg val m) reg.visitBytelen
  rw [ReadsBack, readReg_run serves accepted]
  simp only [Prod.mk.injEq, true_and, and_true]
  rw [RegisterT.value_eq_unsigned_iff length]
  simp only [RegFile.load, List.getElem_map, List.getElem_range, List.length_map,
    List.length_range]

/-- At the right address the value is found. -/
theorem readsBack_of_asked (serves : a.Serves)
    (accepted : i2cInternalAddrCheck a.devInfo.iaddrBytes reg.visitAddr = true)
    {leftover : Leftover} (asked : a.askedAddr leftover reg.visitAddr = reg.visitAddr.toNat)
    (val : Int) (prev : Nat) (m : RegFile) : a.ReadsBack leftover reg val prev m := by
  rw [readsBack_iff serves accepted, asked]
  exact (stores serves accepted val m).inside

/-- A device that looks alike at all addresses is one in which the value is found at each. -/
theorem uniform_iff (some : 0 < a.devInfo.iaddrBytes) {val : Int} {m : RegFile}
    (stores : a.Stores reg val m) :
    a.Uniform reg val m ↔ ∀ g < 256 ^ a.devInfo.iaddrBytes.toNat, ∀ i < reg.visitBytelen,
      a.written reg val m (g + i) = reg.byteOf val i := by
  have two : 1 < 256 ^ a.devInfo.iaddrBytes.toNat :=
    Nat.one_lt_pow (Nat.pos_iff_ne_zero.mp some) (by decide)
  constructor
  · intro ⟨b, value, others⟩ g named i inside
    rw [value i inside]
    by_cases here : reg.visitAddr.toNat ≤ g + i ∧ g + i < reg.visitAddr.toNat + reg.visitBytelen
    · obtain ⟨k, place⟩ := Nat.exists_eq_add_of_le here.1
      have within : k < reg.visitBytelen := by omega
      rw [place, stores.inside k within, value k within]
    · have outside : g + i < reg.visitAddr.toNat ∨ reg.visitAddr.toNat + reg.visitBytelen ≤ g + i :=
        by omega
      rw [stores.outside _ outside, others _ (by omega) outside]
  · intro alike
    -- a byte of the value stands one place behind itself, seen from the next address
    have constant : ∀ i < reg.visitBytelen, reg.byteOf val i = reg.byteOf val 0 := by
      intro i
      induction i with
      | zero => exact fun _ => rfl
      | succ i ih =>
          intro inside
          have here := alike 0 (by omega) (i + 1) inside
          have next := alike 1 two i (by omega)
          have place : 0 + (i + 1) = 1 + i := by omega
          rw [place, next] at here
          rw [← here, ih (by omega)]
    refine ⟨reg.byteOf val 0, constant, fun j near outside => ?_⟩
    obtain ⟨g, i, named, inside, rfl⟩ : ∃ g i, g < 256 ^ a.devInfo.iaddrBytes.toNat ∧
        i < reg.visitBytelen ∧ j = g + i := by
      have pos := reg.visitBytelen_pos
      refine ⟨min j (256 ^ a.devInfo.iaddrBytes.toNat - 1),
        j - min j (256 ^ a.devInfo.iaddrBytes.toNat - 1), ?_, ?_, ?_⟩ <;> omega
    rw [← stores.outside _ outside, alike g named i inside, constant i inside]

end Register

end I2cAdapter

/-- A write stores the value in the bytes of the register alone. A read that follows yields it
with certainty exactly if the method is SMBus, or if it is no matter which address is read from;
and it does so with both methods where the memory of the address array has not been reused. -/
theorem registerRoundTrip_iff {a : I2cAdapter} (serves : a.Serves) (reg : RegisterT)
    (accepted : I2cAdapter.i2cInternalAddrCheck a.devInfo.iaddrBytes reg.visitAddr = true)
    (val : Int) (prev : Nat) (m : RegFile) :
    a.Stores reg val m ∧
      ((∀ leftover, a.ReadsBack leftover reg val prev m) ↔
        a.method = .smbus ∨ a.Uniform reg val m) ∧
      a.ReadsBack .untouched reg val prev m := by
  have stores := I2cAdapter.stores serves accepted val m
  refine ⟨stores, ?_, ?_⟩
  · cases method : a.method with
    | smbus =>
        refine iff_of_true (fun leftover => ?_) (.inl rfl)
        have asked : a.askedAddr leftover reg.visitAddr = reg.visitAddr.toNat := by
          rw [I2cAdapter.askedAddr, method]
        exact I2cAdapter.readsBack_of_asked serves accepted asked val prev m
    | plain =>
        simp only [reduceCtorEq, false_or]
        rw [I2cAdapter.uniform_iff (serves.plain method).1 stores]
        constructor
        · intro always g named
          obtain ⟨leftover, asked⟩ := I2cAdapter.exists_askedAddr method reg.visitAddr named
          have found := (I2cAdapter.readsBack_iff serves accepted leftover val prev m).mp
            (always leftover)
          rwa [asked] at found
        · intro alike leftover
          rw [I2cAdapter.readsBack_iff serves accepted]
          exact alike _ (I2cAdapter.askedAddr_lt method leftover)
  · exact I2cAdapter.readsBack_of_asked serves accepted
      (I2cAdapter.askedAddr_untouched accepted) val prev m

theorem twoBytes_le : (2 : UInt8) ≤ 4 := by decide

/-- A memory with two address bytes, on a bus that offers plain transfers. -/
def memory24c64 : I2cAdapter where
  method := .plain
  devInfo := { iaddrBytes := 2, addr := 0x50, iaddrBytes_le := twoBytes_le }
  busFunc := I2cAdapter.funcI2c

theorem memory24c64_serves : memory24c64.Serves where
  plain _ := by decide
  smbus smbus := by cases smbus

/-- A memory with one address byte, which is used over SMBus. -/
def memory24c02 : I2cAdapter where
  devInfo := { addr := 0x50, iaddrBytes_le := I2cDeviceInfo.oneByte_le }

theorem memory24c02_serves : memory24c02.Serves where
  plain plain := by cases plain
  smbus _ := by decide

/-- A negative value in a register of four bytes, in a device that held other bytes. -/
theorem registerRoundTrip_iff_negative :
    memory24c02.Stores (.register32 0x12 0) (-2) (fun i => UInt8.ofNat i) ∧
      ∀ leftover, memory24c02.ReadsBack leftover (.register32 0x12 0) (-2) 0x55
        (fun i => UInt8.ofNat i) := by
  obtain ⟨stores, readsBack, _⟩ := registerRoundTrip_iff memory24c02_serves (.register32 0x12 0)
    (by decide) (-2) 0x55 fun i => UInt8.ofNat i
  exact ⟨stores, readsBack.mpr (.inl rfl)⟩

/-- Zeros have been written where the address was. -/
def I2cAdapter.Leftover.zeroed : I2cAdapter.Leftover :=
  ⟨fun buf => List.replicate buf.length 0, fun _ => List.length_replicate⟩

/-- Over the plain method the value written at 0x1234 is then looked for at address 0, where
the device holds zeros. -/
theorem not_readsBack_reused :
    ¬ memory24c64.ReadsBack .zeroed (.register32 0x1234 0) (-2) 0x55 fun _ => 0 := by
  have accepted : I2cAdapter.i2cInternalAddrCheck memory24c64.devInfo.iaddrBytes
      (RegisterT.register32 0x1234 0).visitAddr = true := by
    decide
  have stores : memory24c64.Stores (.register32 0x1234 0) (-2) fun _ => 0 :=
    I2cAdapter.stores memory24c64_serves accepted _ _
  have asked : memory24c64.askedAddr .zeroed (RegisterT.register32 0x1234 0).visitAddr = 0 := by
    decide
  rw [I2cAdapter.readsBack_iff memory24c64_serves accepted]
  intro found
  have first := found 0 (by decide)
  rw [asked, stores.outside 0 (.inl (by decide))] at first
  exact absurd first (by decide)

end Lra
