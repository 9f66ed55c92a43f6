import Sponge.ByteStream.Fifo

/-!
# Accounting for the bytes of a stream

`bytes_written` and `bytes_read` report counters that the source keeps in an
`unsigned`, narrower than the `size_t` it returns.  A run is watched by exact
totals of what `write` accepted and of what `read` and `pop_output` removed;
the counters are these totals modulo `2 ^ 32`.
-/

namespace Sponge
namespace ByteStream

open Support

/-- What has gone into a stream and what has come out of it. -/
structure Totals where
  accepted : ℕ := 0
  removed : ℕ := 0
deriving DecidableEq

/-- `write` accepts as many bytes as it returns; `pop_output` and `read` remove
the bytes by which the buffer shrinks. -/
def account (s : ByteStream) (t : Totals) : Op → Totals
  | .write data => { t with accepted := t.accepted + (s.write data).2 }
  | .popOutput len =>
      { t with
        removed := t.removed +
          (s.bufferSize - (s.popOutput len).bufferSize) }
  | .read len =>
      { t with
        removed := t.removed + (s.bufferSize - (s.read len).1.bufferSize) }
  | .peekOutput _ | .endInput => t

def totals (capacity : ℕ) (ops : List Op) : Totals :=
  (ops.foldl (observe (fun s op => (step s op).1) account)
    (new capacity, {})).2

/-- Both counters are exact, and their difference is what is buffered. -/
def Accounted (s : ByteStream) (t : Totals) : Prop :=
  s.bytesWritten = t.accepted ∧ s.bytesRead = t.removed ∧
    (s.bytesWritten : ℤ) - s.bytesRead = s.bufferSize

/-! ## The counters are the totals modulo `2 ^ 32` -/

theorem writeLoop_counters (s : ByteStream) (idx : ℕ) (data : List UInt8) :
    (s.writeLoop idx data).1.writeBytes = s.writeBytes ∧
      (s.writeLoop idx data).1.readBytes = s.readBytes := by
  induction data generalizing s idx with
  | nil => exact ⟨rfl, rfl⟩
  | cons c data ih =>
      by_cases h : s.tail ≠ s.head ∨ s.sz ≠ s.capacity
      · rw [writeLoop, dif_pos h]
        exact ih (s.storeByte c h) (idx + 1)
      · rw [writeLoop, dif_neg h]
        exact ⟨rfl, rfl⟩

theorem writeBytes_write (s : ByteStream) (data : List UInt8) :
    (s.write data).1.writeBytes =
      (s.writeBytes + (s.write data).2) % 2 ^ 32 := by
  rw [← (s.writeLoop_counters 0 data).1]
  rfl

/-- The counters of a stream and the totals of its run. -/
structure Counted (s : ByteStream) (t : Totals) : Prop where
  written : s.writeBytes = t.accepted % 2 ^ 32
  read : s.readBytes = t.removed % 2 ^ 32
  balance : t.accepted = t.removed + s.sz

theorem Counted.write {s : ByteStream} {t : Totals} (h : Counted s t)
    (data : List UInt8) :
    Counted (s.write data).1 (account s t (.write data)) where
  written := by
    rw [writeBytes_write, h.written, Nat.mod_add_mod]
    rfl
  read := (s.writeLoop_counters 0 data).2.trans h.read
  balance := by
    have hlength := congrArg List.length (s.contents_write data)
    rw [List.length_append, length_contents, length_contents] at hlength
    change t.accepted + (s.write data).2 = t.removed + (s.write data).1.sz
    rw [write_snd, hlength, h.balance]
    omega

theorem Counted.popOutput {s : ByteStream} {t : Totals} (h : Counted s t)
    (len : ℕ) :
    Counted (s.popOutput len) (account s t (.popOutput len)) where
  written := h.written
  read := by
    have hshrink : s.sz - (s.sz - min len s.sz) = min len s.sz := by omega
    change (s.readBytes + min len s.sz) % 2 ^ 32 =
      (t.removed + (s.sz - (s.sz - min len s.sz))) % 2 ^ 32
    rw [hshrink, h.read, Nat.mod_add_mod]
  balance := by
    have hbalance := h.balance
    change t.accepted =
      t.removed + (s.sz - (s.sz - min len s.sz)) + (s.sz - min len s.sz)
    omega

theorem Counted.step {s : ByteStream} {t : Totals} (h : Counted s t)
    (op : Op) : Counted (ByteStream.step s op).1 (account s t op) := by
  cases op with
  | write data => exact h.write data
  | peekOutput len => exact h
  | popOutput len => exact h.popOutput len
  | read len =>
      have hpop := h.popOutput len
      simp only [ByteStream.step, account, read_eq]
      exact hpop
  | endInput => exact ⟨h.written, h.read, h.balance⟩

theorem counted_run (capacity : ℕ) (ops : List Op) :
    Counted (run capacity ops) (totals capacity ops) :=
  observe_invariant (I := Counted) (fun _ _ op h => h.step op) ops
    ⟨rfl, rfl, rfl⟩

/-- **Stream accounting.**  After a run the counters are exact, and differ by
what is buffered, if and only if the writes of the run accepted fewer than
`2 ^ 32` bytes in total. -/
theorem accounted_iff (capacity : ℕ) (ops : List Op) :
    Accounted (run capacity ops) (totals capacity ops) ↔
      (totals capacity ops).accepted < 2 ^ 32 := by
  obtain ⟨hwritten, hread, hbalance⟩ := counted_run capacity ops
  simp only [Accounted, bytesWritten, bytesRead, bufferSize, hwritten, hread]
  omega

/-! ## A stream that is used for long enough -/

/-- A byte written and popped again, `n` times over. -/
def relay (n : ℕ) : List Op :=
  (List.replicate n [Op.write [0], Op.popOutput 1]).flatten

/-- An empty stream with room accepts the byte and is empty again. -/
theorem accepted_relay (n : ℕ) {s : ByteStream} (t : Totals)
    (hcapacity : 1 ≤ s.capacity) (hempty : s.sz = 0) :
    ((relay n).foldl (observe (fun s op => (step s op).1) account)
      (s, t)).2.accepted = t.accepted + n := by
  induction n generalizing s t with
  | zero => rfl
  | succ n ih =>
      have hcount : (s.accepted [0]).length = 1 := by
        rw [length_accepted, hempty, List.length_singleton]
        omega
      have hstored : (s.write [0]).1.sz = 1 := by
        rw [← length_contents, contents_write, List.length_append, hcount,
          length_contents, hempty]
      have hcap : ((s.write [0]).1.popOutput 1).capacity = s.capacity :=
        s.capacity_write [0]
      have hpopped : ((s.write [0]).1.popOutput 1).sz = 0 := by
        rw [← length_contents, contents_popOutput, List.length_drop,
          length_contents, hstored]
      have hrest := ih (account (s.write [0]).1 (account s t (.write [0]))
        (.popOutput 1)) (hcap ▸ hcapacity) hpopped
      have hround : (account (s.write [0]).1 (account s t (.write [0]))
          (.popOutput 1)).accepted = t.accepted + 1 := by
        change t.accepted + (s.write [0]).2 = t.accepted + 1
        rw [write_snd, hcount]
      rw [hround] at hrest
      exact hrest.trans (by omega)

theorem accepted_totals_relay {capacity : ℕ} (hcapacity : 1 ≤ capacity)
    (n : ℕ) : (totals capacity (relay n)).accepted = n := by
  have hrelay := accepted_relay n (s := new capacity) {} hcapacity rfl
  exact hrelay.trans (Nat.zero_add n)

/-- After `2 ^ 32` bytes have gone through a stream of the default capacity,
one at a time, its counters are not the totals. -/
theorem not_accounted_relay :
    ¬Accounted (run 64000 (relay (2 ^ 32)))
      (totals 64000 (relay (2 ^ 32))) := by
  obtain ⟨hwritten, -, -⟩ := counted_run 64000 (relay (2 ^ 32))
  rintro ⟨hexact, -, -⟩
  rw [bytesWritten, hwritten,
    accepted_totals_relay (by omega) (2 ^ 32)] at hexact
  omega

end ByteStream
end Sponge
