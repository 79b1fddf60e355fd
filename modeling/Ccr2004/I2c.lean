import Mathlib.Data.List.Basic

/-!
# I2C request packets

`EFI_I2C_REQUEST_PACKET` of the UEFI I2C master protocol: operations in
order, each a read into or a write from a buffer.
-/

namespace Ccr2004

/-- `I2C_FLAG_READ`. -/
def i2cFlagRead : UInt32 := 1

/-- `EFI_I2C_OPERATION`; `LengthInBytes` is the length of the buffer, a
32-bit count. -/
structure I2cOperation where
  flags : UInt32
  buffer : List UInt8
  length_lt : buffer.length < 0x100000000

namespace I2cOperation

/-- `(Op->Flags & I2C_FLAG_READ) != 0`. -/
def isRead (op : I2cOperation) : Bool := op.flags &&& i2cFlagRead ≠ 0

/-- `Op->Buffer[i] = b`, for an index in the buffer. -/
def setByte (op : I2cOperation) (i : Nat) (b : UInt8) : I2cOperation where
  flags := op.flags
  buffer := op.buffer.set i b
  length_lt := by
    rw [List.length_set]
    exact op.length_lt

@[simp] theorem setByte_flags (op : I2cOperation) (i : Nat) (b : UInt8) :
    (op.setByte i b).flags = op.flags := rfl

@[simp] theorem setByte_buffer (op : I2cOperation) (i : Nat) (b : UInt8) :
    (op.setByte i b).buffer = op.buffer.set i b := rfl

/-- A write of one byte. -/
def writeByte (b : UInt8) : I2cOperation := ⟨0, [b], by simp⟩

/-- The bytes an operation puts on the bus. -/
def written (op : I2cOperation) : List UInt8 := if op.isRead then [] else op.buffer

end I2cOperation

/-- `EFI_I2C_REQUEST_PACKET`. -/
structure I2cRequestPacket where
  operations : List I2cOperation

namespace I2cRequestPacket

/-- All bytes the packet puts on the bus. -/
def written (packet : I2cRequestPacket) : List UInt8 :=
  packet.operations.flatMap I2cOperation.written

/-- `OperationCount = 1` with a write of one byte. -/
def writeByte (b : UInt8) : I2cRequestPacket := ⟨[.writeByte b]⟩

@[simp] theorem written_writeByte (b : UInt8) : (writeByte b).written = [b] := by
  simp [writeByte, written, I2cOperation.writeByte, I2cOperation.written,
    I2cOperation.isRead]

end I2cRequestPacket

end Ccr2004
