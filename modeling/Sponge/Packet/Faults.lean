import Sponge.Packet.Buffer
import Sponge.Support.Refinement

/-!
# Parsing with faults

The parser of `Sponge.Packet.Parser` takes what it reads from a list of bytes
and cannot go wrong.  Here is the parser of the source on a `Buffer` with its
storage, in which every access may be a fault: an exception thrown by the buffer,
a difference of unsigned numbers below 0, or a read past the end of a string.  It
turns out that no access of the parser is one, and that it reads what the other
parser reads.
-/

namespace Sponge.Checked

open Support

/-- What a parser must not do. -/
inductive Fault where
  | thrown (e : Exception)
  | underflow
  | overread
deriving DecidableEq

/-- A call that may throw. -/
def throwing {α : Type} (result : Except Exception α) : Except Fault α :=
  result.mapError .thrown

/-- The difference of two unsigned numbers. -/
def subtract (m n : ℕ) : Except Fault ℕ :=
  if n ≤ m then .ok (m - n) else .error .underflow

/-- The `n` bytes from the start of what the buffer shows. -/
def front (b : Util.Buffer) (n : ℕ) : Except Fault (List UInt8) :=
  if n ≤ b.size then .ok (b.str.take n) else .error .overread

theorem yields_subtract {m n : ℕ} (h : n ≤ m) :
    Yields id (subtract m n) (m - n) :=
  yields_id.mpr (if_pos h)

theorem yields_front {b : Util.Buffer} {n : ℕ} (h : n ≤ b.size) :
    Yields id (front b n) (b.str.take n) :=
  yields_id.mpr (if_pos h)

/-! ## The parser -/

structure NetParser where
  buffer : Util.Buffer
  error : ParseResult := .noError
deriving DecidableEq

namespace NetParser

/-- The parser that knows the bytes only. -/
def shown (p : NetParser) : Sponge.NetParser := ⟨p.buffer.str, p.error⟩

def checkSize (p : NetParser) (size : ℕ) : NetParser :=
  if size > p.buffer.size then { p with error := .packetTooShort } else p

/-- The body of the loop in `parseInt`, in an integer of `len` bytes. -/
def shiftIn (b : Util.Buffer) (len ret i : ℕ) : Except Fault ℕ := do
  let byte ← throwing (b.charAt i)
  return (ret * 256 + byte.toNat) % 256 ^ len

/-- The next integer of `len` bytes. -/
def parseInt (p : NetParser) (len : ℕ) : Except Fault (ℕ × NetParser) := do
  let p := p.checkSize len
  if p.error ≠ .noError then return (0, p)
  let ret ← (List.range len).foldlM (shiftIn p.buffer len) 0
  let buffer ← throwing (p.buffer.removePrefix len)
  return (ret, { p with buffer := buffer })

def u32 (p : NetParser) : Except Fault (UInt32 × NetParser) := do
  let (n, p) ← p.parseInt 4
  return (UInt32.ofNat n, p)

def u16 (p : NetParser) : Except Fault (UInt16 × NetParser) := do
  let (n, p) ← p.parseInt 2
  return (UInt16.ofNat n, p)

def u8 (p : NetParser) : Except Fault (UInt8 × NetParser) := do
  let (n, p) ← p.parseInt 1
  return (UInt8.ofNat n, p)

def removePrefix (p : NetParser) (n : ℕ) : Except Fault NetParser := do
  let p := p.checkSize n
  if p.error ≠ .noError then return p
  let buffer ← throwing (p.buffer.removePrefix n)
  return { p with buffer := buffer }

/-- The parser after `n` bytes were removed, which never fails. -/
def skip (p : NetParser) (n : ℕ) : NetParser :=
  (p.removePrefix n).toOption.getD p

/-! ## No read is a fault -/

theorem shown_checkSize (p : NetParser) (n : ℕ) :
    (p.checkSize n).shown = p.shown.checkSize n := by
  unfold checkSize Sponge.NetParser.checkSize
  exact apply_ite shown _ _ _

/-- Without an error after the check there was none before it, and there are
bytes enough. -/
theorem fits_of_checkSize {p : NetParser} {n : ℕ}
    (h : (p.checkSize n).error = .noError) :
    n ≤ p.buffer.size ∧ p.checkSize n = p := by
  by_cases hsize : n > p.buffer.size
  · rw [checkSize, if_pos hsize] at h
    cases h
  · exact ⟨Nat.not_lt.mp hsize, if_neg hsize⟩

theorem foldlM_shiftIn {b : Util.Buffer} {len k : ℕ} (hk : k ≤ len)
    (hlen : len ≤ b.size) :
    (List.range k).foldlM (shiftIn b len) 0 =
      .ok (BigEndian.decode (b.str.take k)) := by
  induction k with
  | zero => rfl
  | succ k ih =>
      have hbyte : k < b.str.length := Nat.lt_of_lt_of_le hk hlen
      have hread : BigEndian.decode (b.str.take (k + 1)) =
          BigEndian.decode (b.str.take k) * 256 + b.str[k].toNat := by
        rw [List.take_succ_eq_append_getElem hbyte, BigEndian.decode_concat]
      have hlt : BigEndian.decode (b.str.take (k + 1)) < 256 ^ len := by
        have hbound := BigEndian.decode_lt (b.str.take (k + 1))
        rw [List.length_take_of_le hbyte] at hbound
        exact hbound.trans_le (Nat.pow_le_pow_right (by decide) hk)
      rw [List.range_succ, List.foldlM_append, ih (Nat.le_of_succ_le hk),
        hread]
      rw [hread] at hlt
      simp only [List.foldlM_cons, List.foldlM_nil, shiftIn, bind, Except.bind,
        Util.Buffer.charAt_of_lt hbyte, throwing, Except.mapError, pure,
        Except.pure, Nat.mod_eq_of_lt hlt]

/-- Either the check fails and nothing is taken, or the buffer gives up its
first `n` bytes. -/
theorem removePrefix_cases (p : NetParser) (n : ℕ) :
    ((p.checkSize n).error ≠ .noError ∧
        p.removePrefix n = .ok (p.checkSize n)) ∨
      ((p.checkSize n).error = .noError ∧
        ∃ b, p.buffer.removePrefix n = .ok b ∧ b.str = p.buffer.str.drop n ∧
          p.removePrefix n = .ok { p with buffer := b }) := by
  by_cases h : (p.checkSize n).error = .noError
  · obtain ⟨hsize, hcheck⟩ := fits_of_checkSize h
    obtain ⟨b, hb, hstr⟩ := p.buffer.yields_removePrefix n hsize
    refine Or.inr ⟨h, b, hb, hstr, ?_⟩
    rw [removePrefix, if_neg (not_not.mpr h), hcheck, hb]
    rfl
  · refine Or.inl ⟨h, ?_⟩
    rw [removePrefix, if_pos h]
    rfl

theorem skip_of_eq {p p' : NetParser} {n : ℕ}
    (h : p.removePrefix n = .ok p') : p.skip n = p' := by
  rw [skip, h]
  rfl

theorem removePrefix_eq (p : NetParser) (n : ℕ) :
    p.removePrefix n = .ok (p.skip n) := by
  rcases p.removePrefix_cases n with ⟨-, hrun⟩ | ⟨-, b, -, -, hrun⟩
  · rw [skip_of_eq hrun, hrun]
  · rw [skip_of_eq hrun, hrun]

theorem shown_skip (p : NetParser) (n : ℕ) :
    (p.skip n).shown = p.shown.removePrefix n := by
  have hshown := p.shown_checkSize n
  rcases p.removePrefix_cases n with ⟨h, hrun⟩ | ⟨h, b, -, hstr, hrun⟩
  · have herror : (p.checkSize n).shown.error ≠ .noError := h
    rw [skip_of_eq hrun, Sponge.NetParser.removePrefix, ← hshown,
      if_pos herror]
  · obtain ⟨-, hcheck⟩ := fits_of_checkSize h
    rw [hcheck] at h hshown
    have herror : ¬p.shown.error ≠ .noError := not_not.mpr h
    rw [skip_of_eq hrun, Sponge.NetParser.removePrefix, ← hshown,
      if_neg herror, shown, hstr]
    rfl

theorem yields_removePrefix (p : NetParser) (n : ℕ) :
    Yields shown (p.removePrefix n) (p.shown.removePrefix n) :=
  ⟨p.skip n, p.removePrefix_eq n, p.shown_skip n⟩

/-- The next integer is read without a fault. -/
theorem parseInt_eq (p : NetParser) (len : ℕ) :
    p.parseInt len = .ok ((p.shown.parseInt len).1, p.skip len) := by
  have hshown := p.shown_checkSize len
  rcases p.removePrefix_cases len with ⟨h, hrun⟩ | ⟨h, b, hb, -, hrun⟩
  · have herror : (p.checkSize len).shown.error ≠ .noError := h
    rw [skip_of_eq hrun, parseInt, if_pos h, Sponge.NetParser.parseInt,
      ← hshown, if_pos herror]
    rfl
  · obtain ⟨hsize, hcheck⟩ := fits_of_checkSize h
    have hread := foldlM_shiftIn le_rfl hsize
    rw [skip_of_eq hrun, parseInt, if_neg (not_not.mpr h), hcheck, hread, hb]
    rw [hcheck] at h hshown
    have herror : ¬p.shown.error ≠ .noError := not_not.mpr h
    rw [Sponge.NetParser.parseInt, ← hshown, if_neg herror]
    rfl

theorem snd_parseInt (p : Sponge.NetParser) (len : ℕ) :
    (p.parseInt len).2 = p.removePrefix len := by
  unfold Sponge.NetParser.parseInt Sponge.NetParser.removePrefix
  exact apply_ite Prod.snd _ _ _

theorem u8_eq (p : NetParser) : p.u8 = .ok (p.shown.u8.1, p.skip 1) := by
  rw [u8, parseInt_eq]
  rfl

theorem u16_eq (p : NetParser) : p.u16 = .ok (p.shown.u16.1, p.skip 2) := by
  rw [u16, parseInt_eq]
  rfl

theorem u32_eq (p : NetParser) : p.u32 = .ok (p.shown.u32.1, p.skip 4) := by
  rw [u32, parseInt_eq]
  rfl

theorem shown_skip_u8 (p : NetParser) : (p.skip 1).shown = p.shown.u8.2 :=
  (p.shown_skip 1).trans (snd_parseInt p.shown 1).symm

theorem shown_skip_u16 (p : NetParser) : (p.skip 2).shown = p.shown.u16.2 :=
  (p.shown_skip 2).trans (snd_parseInt p.shown 2).symm

theorem shown_skip_u32 (p : NetParser) : (p.skip 4).shown = p.shown.u32.2 :=
  (p.shown_skip 4).trans (snd_parseInt p.shown 4).symm

/-! ## After an error -/

theorem checkSize_of_error {p : NetParser} (h : p.error ≠ .noError) (n : ℕ) :
    (p.checkSize n).buffer = p.buffer ∧ (p.checkSize n).error ≠ .noError := by
  unfold checkSize
  split
  · refine ⟨rfl, ?_⟩
    intro herror
    cases herror
  · exact ⟨rfl, h⟩

/-- The error stays, and so do the bytes. -/
theorem skip_of_error {p : NetParser} (h : p.error ≠ .noError) (n : ℕ) :
    (p.skip n).buffer = p.buffer ∧ (p.skip n).error ≠ .noError := by
  have hcheck := checkSize_of_error h n
  rcases p.removePrefix_cases n with ⟨-, hrun⟩ | ⟨herror, -⟩
  · rw [skip_of_eq hrun]
    exact hcheck
  · exact absurd herror hcheck.2

theorem parseInt_of_error {p : NetParser} (h : p.error ≠ .noError) (len : ℕ) :
    p.parseInt len = .ok (0, p.skip len) := by
  have herror : (p.shown.checkSize len).error ≠ .noError := by
    rw [← shown_checkSize]
    exact (checkSize_of_error h len).2
  rw [parseInt_eq, Sponge.NetParser.parseInt, if_pos herror]

end NetParser

/-- What can be asked of a parser. -/
inductive Read where
  | u8
  | u16
  | u32
  | removePrefix (n : ℕ)

/-- The number that is read, if there is one, and the parser after it. -/
def Read.perform (p : NetParser) : Read → Except Fault (List ℕ × NetParser)
  | .u8 => do
      let (val, p) ← p.u8
      return ([val.toNat], p)
  | .u16 => do
      let (val, p) ← p.u16
      return ([val.toNat], p)
  | .u32 => do
      let (val, p) ← p.u32
      return ([val.toNat], p)
  | .removePrefix n => do
      let p ← p.removePrefix n
      return ([], p)

/-- All numbers that are read one after the other. -/
def readAll (p : NetParser) : List Read → Except Fault (List ℕ × NetParser)
  | [] => .ok ([], p)
  | read :: reads => do
      let (vals, p) ← read.perform p
      let (more, p) ← readAll p reads
      return (vals ++ more, p)

/-- What is true of every read after an error. -/
def Stuck (p : NetParser) (result : Except Fault (List ℕ × NetParser)) : Prop :=
  ∃ vals p', result = .ok (vals, p') ∧ (∀ val ∈ vals, val = 0) ∧
    p'.buffer = p.buffer ∧ p'.error ≠ .noError

theorem Read.stuck_perform {p : NetParser} (h : p.error ≠ .noError)
    (read : Read) : Stuck p (read.perform p) := by
  cases read with
  | u8 =>
      refine ⟨[0], p.skip 1, ?_, by simp, NetParser.skip_of_error h 1⟩
      rw [perform, NetParser.u8, NetParser.parseInt_of_error h]
      rfl
  | u16 =>
      refine ⟨[0], p.skip 2, ?_, by simp, NetParser.skip_of_error h 2⟩
      rw [perform, NetParser.u16, NetParser.parseInt_of_error h]
      rfl
  | u32 =>
      refine ⟨[0], p.skip 4, ?_, by simp, NetParser.skip_of_error h 4⟩
      rw [perform, NetParser.u32, NetParser.parseInt_of_error h]
      rfl
  | removePrefix n =>
      refine ⟨[], p.skip n, ?_, by simp, NetParser.skip_of_error h n⟩
      rw [perform, p.removePrefix_eq]
      rfl

/-- After an error every number is 0, and nothing is consumed any more. -/
theorem stuck_readAll {p : NetParser} (h : p.error ≠ .noError)
    (reads : List Read) : Stuck p (readAll p reads) := by
  induction reads generalizing p with
  | nil => exact ⟨[], p, rfl, by simp, rfl, h⟩
  | cons read reads ih =>
      obtain ⟨vals, p₁, hfirst, hvals, hbuffer₁, herror₁⟩ :=
        read.stuck_perform h
      obtain ⟨more, p₂, hrest, hmore, hbuffer₂, herror₂⟩ := ih herror₁
      refine ⟨vals ++ more, p₂, ?_, ?_, hbuffer₂.trans hbuffer₁, herror₂⟩
      · rw [readAll, hfirst]
        change (readAll p₁ reads >>= _) = _
        rw [hrest]
        rfl
      · rw [List.forall_mem_append]
        exact ⟨hvals, hmore⟩

end Sponge.Checked
