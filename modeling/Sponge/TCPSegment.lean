import Sponge.WrappingIntegers

/-!
# Segments and configuration

The header carries every field of the source with its default.  A payload is
the string that the source keeps in a `Buffer`.
-/

namespace Sponge

structure TCPHeader where
  sport : UInt16 := 0
  dport : UInt16 := 0
  seqno : WrappingInt32 := ⟨0⟩
  ackno : WrappingInt32 := ⟨0⟩
  doff : UInt8 := 20 / 4
  urg : Bool := false
  ack : Bool := false
  psh : Bool := false
  rst : Bool := false
  syn : Bool := false
  fin : Bool := false
  win : UInt16 := 0
  cksum : UInt16 := 0
  uptr : UInt16 := 0
deriving DecidableEq

structure TCPSegment where
  header : TCPHeader := {}
  payload : List UInt8 := []
deriving DecidableEq

/-- The number of sequence numbers the segment occupies: one for each payload
byte and one each for SYN and FIN. -/
def TCPSegment.lengthInSequenceSpace (seg : TCPSegment) : ℕ :=
  seg.payload.length + (if seg.header.syn then 1 else 0) +
    (if seg.header.fin then 1 else 0)

theorem TCPSegment.lengthInSequenceSpace_eq (seg : TCPSegment) :
    seg.lengthInSequenceSpace =
      seg.payload.length + seg.header.syn.toNat + seg.header.fin.toNat := by
  unfold lengthInSequenceSpace
  cases seg.header.syn <;> cases seg.header.fin <;> rfl

/-- `TCPConfig` with its constants and defaults. -/
structure TCPConfig where
  rtTimeout : UInt16 := 1000
  recvCapacity : ℕ := 64000
  sendCapacity : ℕ := 64000
  fixedIsn : Option WrappingInt32 := none
deriving DecidableEq

namespace TCPConfig

def maxPayloadSize : ℕ := 1000

def maxRetxAttempts : ℕ := 8

end TCPConfig

end Sponge
