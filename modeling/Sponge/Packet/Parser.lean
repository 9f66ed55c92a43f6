import Sponge.Support.BigEndian

/-!
# Parsing and unparsing of network packets

A `Buffer` is the string of bytes that it shows, and a `BufferList` the list of
its buffers.  `NetParser` consumes a buffer from the front; once a token does not
fit into what is left, its error stays set and every further token is 0.

An exception that the source throws is the error of an `Except`.
-/

namespace Sponge

open Support

inductive Exception where
  | runtimeError (what : String)
  | outOfRange (what : String)
deriving DecidableEq

/-! ## Buffers -/

abbrev Buffer := List UInt8

abbrev BufferList := List Buffer

namespace BufferList

def size (buffers : BufferList) : ℕ := (buffers.map List.length).sum

def concatenate (buffers : BufferList) : Buffer := buffers.flatten

/-- The conversion to a `Buffer`, which wants a contiguous list. -/
def toBuffer : BufferList → Except Exception Buffer
  | [] => .ok []
  | [buffer] => .ok buffer
  | _ => .error (.runtimeError ("BufferList: please use concatenate() to " ++
      "combine a multi-Buffer BufferList into one Buffer"))

/-- A list of at most one buffer can be converted, and a longer one cannot. -/
theorem toBuffer_cases (buffers : BufferList) :
    (buffers.length ≤ 1 ∧ ∃ buffer, buffers.toBuffer = .ok buffer) ∨
      (¬buffers.length ≤ 1 ∧ ∃ e, buffers.toBuffer = .error e) := by
  match buffers with
  | [] => exact Or.inl ⟨by decide, _, rfl⟩
  | [buffer] => exact Or.inl ⟨le_rfl, _, rfl⟩
  | first :: second :: rest => exact Or.inr ⟨by simp, _, rfl⟩

/-- A contiguous list is converted to all of its bytes. -/
theorem toBuffer_eq {buffers : BufferList} (h : buffers.length ≤ 1) :
    buffers.toBuffer = .ok buffers.concatenate := by
  match buffers, h with
  | [], _ => rfl
  | [buffer], _ => simp [toBuffer, concatenate]

@[simp] theorem size_nil : size [] = 0 := rfl

@[simp] theorem size_cons (buffer : Buffer) (buffers : BufferList) :
    size (buffer :: buffers) = buffer.length + size buffers := by
  simp [size]

theorem length_concatenate (buffers : BufferList) :
    (concatenate buffers).length = buffers.size :=
  List.length_flatten

end BufferList

/-- `std::string::resize`, which fills up with zero bytes. -/
def resize (bytes : List UInt8) (n : ℕ) : List UInt8 :=
  bytes.take n ++ List.replicate (n - bytes.length) 0

theorem length_resize (bytes : List UInt8) (n : ℕ) :
    (resize bytes n).length = n := by
  simp only [resize, List.length_append, List.length_take,
    List.length_replicate]
  omega

theorem resize_of_le {bytes : List UInt8} {n : ℕ} (h : bytes.length ≤ n) :
    resize bytes n = bytes ++ List.replicate (n - bytes.length) 0 := by
  rw [resize, List.take_of_length_le h]

/-! ## The parser -/

inductive ParseResult where
  | noError
  | badChecksum
  | packetTooShort
  | wrongIPVersion
  | headerTooShort
  | truncatedPacket
  | unsupported
deriving DecidableEq

structure NetParser where
  buffer : Buffer
  error : ParseResult := .noError
deriving DecidableEq

namespace NetParser

def checkSize (p : NetParser) (size : ℕ) : NetParser :=
  if size > p.buffer.length then { p with error := .packetTooShort } else p

/-- The next integer of `len` bytes. -/
def parseInt (p : NetParser) (len : ℕ) : ℕ × NetParser :=
  let p := p.checkSize len
  if p.error ≠ .noError then (0, p)
  else
    (BigEndian.decode (p.buffer.take len),
      { p with buffer := p.buffer.drop len })

def u32 (p : NetParser) : UInt32 × NetParser :=
  let (n, p) := p.parseInt 4
  (UInt32.ofNat n, p)

def u16 (p : NetParser) : UInt16 × NetParser :=
  let (n, p) := p.parseInt 2
  (UInt16.ofNat n, p)

def u8 (p : NetParser) : UInt8 × NetParser :=
  let (n, p) := p.parseInt 1
  (UInt8.ofNat n, p)

/-- The loop that fills an array of `n` bytes. -/
def bytes (p : NetParser) : ℕ → List UInt8 × NetParser
  | 0 => ([], p)
  | n + 1 =>
      let (byte, p) := p.u8
      let (rest, p) := p.bytes n
      (byte :: rest, p)

def removePrefix (p : NetParser) (n : ℕ) : NetParser :=
  let p := p.checkSize n
  if p.error ≠ .noError then p else { p with buffer := p.buffer.drop n }

end NetParser

/-! ## The unparser -/

namespace NetUnparser

/-- What `NetUnparser::u32` appends to its string. -/
def u32 (val : UInt32) : List UInt8 := BigEndian.encode 4 val.toNat

def u16 (val : UInt16) : List UInt8 := BigEndian.encode 2 val.toNat

def u8 (val : UInt8) : List UInt8 := BigEndian.encode 1 val.toNat

@[simp] theorem length_u32 (val : UInt32) : (u32 val).length = 4 :=
  BigEndian.length_encode 4 val.toNat

@[simp] theorem length_u16 (val : UInt16) : (u16 val).length = 2 :=
  BigEndian.length_encode 2 val.toNat

@[simp] theorem length_u8 (val : UInt8) : (u8 val).length = 1 :=
  BigEndian.length_encode 1 val.toNat

theorem u8_eq (val : UInt8) : u8 val = [val] := by
  simp [u8, BigEndian.encode]

theorem u16_inj {val val' : UInt16} : u16 val = u16 val' ↔ val = val' := by
  constructor
  · intro h
    have hlt : val.toNat < 256 ^ 2 := val.toNat_lt
    have hlt' : val'.toNat < 256 ^ 2 := val'.toNat_lt
    have hread := congrArg BigEndian.decode h
    rw [u16, u16, BigEndian.decode_encode, BigEndian.decode_encode,
      Nat.mod_eq_of_lt hlt, Nat.mod_eq_of_lt hlt'] at hread
    exact UInt16.toNat_inj.mp hread
  · rintro rfl
    rfl

theorem u8_append_inj {val val' : UInt8} {rest rest' : List UInt8} :
    u8 val ++ rest = u8 val' ++ rest' ↔ val = val' ∧ rest = rest' := by
  simp [u8_eq]

theorem u16_append_inj {val val' : UInt16} {rest rest' : List UInt8} :
    u16 val ++ rest = u16 val' ++ rest' ↔ val = val' ∧ rest = rest' := by
  rw [List.append_eq_append_iff_of_size_eq_left, u16_inj]
  simp

/-- Bytes enough for an integer begin with one that was written. -/
theorem exists_encode {b : List UInt8} {len : ℕ} (h : len ≤ b.length) :
    ∃ n < 256 ^ len, ∃ rest, b = BigEndian.encode len n ++ rest := by
  have hlen : (b.take len).length = len := List.length_take_of_le h
  refine ⟨BigEndian.decode (b.take len), ?_, b.drop len, ?_⟩
  · have hlt := BigEndian.decode_lt (b.take len)
    rwa [hlen] at hlt
  · have hwrite := BigEndian.encode_decode (b.take len)
    rw [hlen] at hwrite
    rw [hwrite, List.take_append_drop]

theorem exists_u8 {b : List UInt8} (h : 1 ≤ b.length) :
    ∃ val rest, b = u8 val ++ rest := by
  obtain ⟨n, hlt, rest, hb⟩ := exists_encode h
  refine ⟨UInt8.ofNat n, rest, ?_⟩
  rw [hb, u8, UInt8.toNat_ofNat_of_lt' hlt]

theorem exists_u16 {b : List UInt8} (h : 2 ≤ b.length) :
    ∃ val rest, b = u16 val ++ rest := by
  obtain ⟨n, hlt, rest, hb⟩ := exists_encode h
  refine ⟨UInt16.ofNat n, rest, ?_⟩
  rw [hb, u16, UInt16.toNat_ofNat_of_lt' hlt]

theorem exists_u32 {b : List UInt8} (h : 4 ≤ b.length) :
    ∃ val rest, b = u32 val ++ rest := by
  obtain ⟨n, hlt, rest, hb⟩ := exists_encode h
  refine ⟨UInt32.ofNat n, rest, ?_⟩
  rw [hb, u32, UInt32.toNat_ofNat_of_lt' hlt]

end NetUnparser

/-! ## Tokens that fit -/

/-- The byte at offset `k`. -/
def byteAt (b : List UInt8) (k : ℕ) : UInt8 :=
  UInt8.ofNat (BigEndian.decode ((b.drop k).take 1))

/-- The 16-bit number at offset `k`. -/
def shortAt (b : List UInt8) (k : ℕ) : UInt16 :=
  UInt16.ofNat (BigEndian.decode ((b.drop k).take 2))

/-- The 32-bit number at offset `k`. -/
def longAt (b : List UInt8) (k : ℕ) : UInt32 :=
  UInt32.ofNat (BigEndian.decode ((b.drop k).take 4))

namespace NetParser

theorem parseInt_of_le {b : List UInt8} {len : ℕ} (h : len ≤ b.length) :
    (NetParser.mk b .noError).parseInt len =
      (BigEndian.decode (b.take len), ⟨b.drop len, .noError⟩) := by
  simp [parseInt, checkSize, Nat.not_lt.mpr h]

theorem parseInt_drop {b : List UInt8} {k len : ℕ} (h : k + len ≤ b.length) :
    (NetParser.mk (b.drop k) .noError).parseInt len =
      (BigEndian.decode ((b.drop k).take len), ⟨b.drop (k + len), .noError⟩) := by
  rw [parseInt_of_le (by rw [List.length_drop]; omega), List.drop_drop]

theorem u8_drop {b : List UInt8} {k : ℕ} (h : k + 1 ≤ b.length) :
    (NetParser.mk (b.drop k) .noError).u8 =
      (byteAt b k, ⟨b.drop (k + 1), .noError⟩) := by
  simp only [u8, parseInt_drop h, byteAt]

theorem u16_drop {b : List UInt8} {k : ℕ} (h : k + 2 ≤ b.length) :
    (NetParser.mk (b.drop k) .noError).u16 =
      (shortAt b k, ⟨b.drop (k + 2), .noError⟩) := by
  simp only [u16, parseInt_drop h, shortAt]

theorem u32_drop {b : List UInt8} {k : ℕ} (h : k + 4 ≤ b.length) :
    (NetParser.mk (b.drop k) .noError).u32 =
      (longAt b k, ⟨b.drop (k + 4), .noError⟩) := by
  simp only [u32, parseInt_drop h, longAt]

theorem removePrefix_drop {b : List UInt8} {k n : ℕ}
    (h : k + n ≤ b.length) :
    (NetParser.mk (b.drop k) .noError).removePrefix n =
      ⟨b.drop (k + n), .noError⟩ := by
  have hfits : ¬b.length - k < n := by omega
  simp [removePrefix, checkSize, hfits]

/-! ## Tokens that were written -/

theorem parseInt_encode (len n : ℕ) (rest : List UInt8) :
    (NetParser.mk (BigEndian.encode len n ++ rest) .noError).parseInt len =
      (n % 256 ^ len, ⟨rest, .noError⟩) := by
  have hlen := BigEndian.length_encode len n
  rw [parseInt_of_le (by rw [List.length_append]; omega),
    List.take_left' hlen, List.drop_left' hlen, BigEndian.decode_encode]

@[simp] theorem u8_append (val : UInt8) (rest : List UInt8) :
    (NetParser.mk (NetUnparser.u8 val ++ rest) .noError).u8 =
      (val, ⟨rest, .noError⟩) := by
  simp only [u8, NetUnparser.u8, parseInt_encode]
  have hlt : val.toNat < 256 ^ 1 := val.toNat_lt
  rw [Nat.mod_eq_of_lt hlt, UInt8.ofNat_toNat]

@[simp] theorem u16_append (val : UInt16) (rest : List UInt8) :
    (NetParser.mk (NetUnparser.u16 val ++ rest) .noError).u16 =
      (val, ⟨rest, .noError⟩) := by
  simp only [u16, NetUnparser.u16, parseInt_encode]
  have hlt : val.toNat < 256 ^ 2 := val.toNat_lt
  rw [Nat.mod_eq_of_lt hlt, UInt16.ofNat_toNat]

@[simp] theorem u32_append (val : UInt32) (rest : List UInt8) :
    (NetParser.mk (NetUnparser.u32 val ++ rest) .noError).u32 =
      (val, ⟨rest, .noError⟩) := by
  simp only [u32, NetUnparser.u32, parseInt_encode]
  have hlt : val.toNat < 256 ^ 4 := val.toNat_lt
  rw [Nat.mod_eq_of_lt hlt, UInt32.ofNat_toNat]

theorem bytes_append (bs rest : List UInt8) :
    (NetParser.mk (bs ++ rest) .noError).bytes bs.length =
      (bs, ⟨rest, .noError⟩) := by
  induction bs with
  | nil => rfl
  | cons byte bs ih =>
      have hbyte := u8_append byte (bs ++ rest)
      rw [NetUnparser.u8_eq, List.singleton_append] at hbyte
      rw [List.length_cons, List.cons_append, bytes, hbyte]
      simp only [ih]

theorem length_bytes (p : NetParser) (n : ℕ) : (p.bytes n).1.length = n := by
  induction n generalizing p with
  | zero => rfl
  | succ n ih => simp only [bytes, List.length_cons, ih]

/-! ## Tokens that do not fit -/

/-- If there is no error after a token, then there was none before it, and the
token fitted. -/
theorem parseInt_noError {p : NetParser} {len : ℕ}
    (h : (p.parseInt len).2.error = .noError) :
    p.error = .noError ∧
      (p.parseInt len).2.buffer.length + len = p.buffer.length := by
  unfold parseInt checkSize at h ⊢
  by_cases hfits : len > p.buffer.length
  · simp [hfits] at h
  · by_cases herror : p.error = .noError
    · simp only [if_neg hfits, herror, ne_eq, not_true_eq_false, if_false,
        List.length_drop, true_and]
      omega
    · simp [if_neg hfits, herror] at h

theorem u8_noError {p : NetParser} (h : p.u8.2.error = .noError) :
    p.error = .noError ∧ p.u8.2.buffer.length + 1 = p.buffer.length :=
  parseInt_noError h

theorem u16_noError {p : NetParser} (h : p.u16.2.error = .noError) :
    p.error = .noError ∧ p.u16.2.buffer.length + 2 = p.buffer.length :=
  parseInt_noError h

theorem u32_noError {p : NetParser} (h : p.u32.2.error = .noError) :
    p.error = .noError ∧ p.u32.2.buffer.length + 4 = p.buffer.length :=
  parseInt_noError h

theorem removePrefix_of_lt {p : NetParser} {n : ℕ}
    (h : p.buffer.length < n) : (p.removePrefix n).error ≠ .noError := by
  simp [removePrefix, checkSize, h]

theorem removePrefix_of_error {p : NetParser} (n : ℕ)
    (h : p.error ≠ .noError) : (p.removePrefix n).error ≠ .noError := by
  unfold removePrefix checkSize
  by_cases hfits : n > p.buffer.length
  · simp [hfits]
  · simp [if_neg hfits, h]

end NetParser
end Sponge
