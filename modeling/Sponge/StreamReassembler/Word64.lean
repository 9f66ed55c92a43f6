import Sponge.StreamReassembler.Window

/-!
# Reassembly on 64-bit words

The sums of `push_substring` on the words of the source, where they wrap around
at `2 ^ 64`.  A stream index is a word, so a push whose data ends beyond the last
word is one that no stream has.  As long as there is none, no sum of the source
wraps around, and the words compute what the natural numbers do.

What such a push does is another matter: it compares the end that has wrapped
around, and may count bytes that it does not store.
-/

namespace Sponge
namespace StreamReassembler

open Support

namespace Word64

/-! ## The functions with a sum -/

def assemble (r : StreamReassembler) (first : ℕ) (second : List UInt8) :
    Option StreamReassembler := do
  let rest ← substr second (r.nidx - first)
  let (output, written) := r.output.write rest
  return { r with output, nidx := addSize r.nidx written }

def assembleEntry (r : StreamReassembler) (first : ℕ) (second : List UInt8) :
    Option StreamReassembler := do
  let r ← if r.nidx - first < second.length then assemble r first second
    else pure r
  return { r with
    unassembledBytes := subSize r.unassembledBytes second.length }

def assemblePending (r : StreamReassembler) :
    List (ℕ × List UInt8) → Option StreamReassembler
  | [] => return { r with mp := [] }
  | (first, second) :: rest =>
      if first ≤ r.nidx then do
        let r ← assembleEntry r first second
        assemblePending r rest
      else
        return { r with mp := (first, second) :: rest }

def appendNext (idx : ℕ) (str : List UInt8) (first : ℕ)
    (second : List UInt8) : Option (List UInt8) :=
  if addSize idx str.length < addSize first second.length then do
    let tail ← substr second (subSize (addSize idx str.length) first)
    return str ++ tail
  else
    return str

def mergeNext (idx : ℕ) (str : List UInt8) (unassembledBytes : ℕ) :
    List (ℕ × List UInt8) → Option Merge
  | [] => return ⟨idx, str, unassembledBytes, []⟩
  | (first, second) :: rest =>
      if first ≤ addSize idx str.length then do
        let str ← appendNext idx str first second
        mergeNext idx str (subSize unassembledBytes second.length) rest
      else
        return ⟨idx, str, unassembledBytes, (first, second) :: rest⟩

def prependLast (idx : ℕ) (str : List UInt8) (first : ℕ)
    (second : List UInt8) : Option (List UInt8) :=
  if addSize first second.length < addSize idx str.length then do
    let tail ← substr str (subSize (addSize first second.length) idx)
    return second ++ tail
  else
    return second

def mergeLast (lower : List (ℕ × List UInt8)) (m : Merge) : Option Merge :=
  match lower.getLast? with
  | none => return m
  | some (first, second) =>
      if m.idx ≤ addSize first second.length then do
        let str ← prependLast m.idx m.str first second
        return {
          idx := first
          str := str
          unassembledBytes := subSize m.unassembledBytes second.length
          mp := lower.dropLast ++ m.mp }
      else
        return { m with mp := lower ++ m.mp }

def merge (r : StreamReassembler) (data : List UInt8) (index : ℕ) :
    Option Merge := do
  let m ← mergeNext index data r.unassembledBytes (lowerBound index r.mp)
  mergeLast (before index r.mp) m

def store (r : StreamReassembler) (m : Merge) : StreamReassembler :=
  { r with
    unassembledBytes := addSize m.unassembledBytes (r.storeSize m)
    mp := emplace m.idx (m.str.take (r.storeSize m)) m.mp }

def insert (r : StreamReassembler) (data : List UInt8) (index : ℕ) :
    Option StreamReassembler :=
  if index ≤ r.nidx then
    if r.nidx - index < data.length then do
      let r ← assemble r index data
      assemblePending r r.mp
    else
      return r
  else do
    let m ← merge r data index
    return store r m

def noteEof (r : StreamReassembler) (data : List UInt8) (index : ℕ)
    (eof : Bool) : StreamReassembler :=
  if eof then { r with eidx := addSize index data.length, eof := true } else r

def pushSubstring (r : StreamReassembler) (data : List UInt8) (index : ℕ)
    (eof : Bool) : Option StreamReassembler := do
  let r ← insert (noteEof r data index eof) data index
  return r.closeAtEof

/-! ## No `substr` is out of range -/

theorem assemble_isSome {r : StreamReassembler} {first : ℕ}
    {second : List UInt8} (h : r.nidx - first < second.length) :
    (assemble r first second).isSome := by
  simp [assemble, substr_of_le h.le]

theorem assembleEntry_isSome (r : StreamReassembler) (first : ℕ)
    (second : List UInt8) : (assembleEntry r first second).isSome := by
  by_cases hsecond : r.nidx - first < second.length
  · obtain ⟨r₁, hr₁⟩ := Option.isSome_iff_exists.mp (assemble_isSome hsecond)
    simp [assembleEntry, hsecond, hr₁]
  · simp [assembleEntry, hsecond]

theorem assemblePending_isSome (r : StreamReassembler)
    (m : List (ℕ × List UInt8)) : (assemblePending r m).isSome := by
  induction m generalizing r with
  | nil => rfl
  | cons entry rest ih =>
      obtain ⟨first, second⟩ := entry
      rw [assemblePending]
      by_cases hfirst : first ≤ r.nidx
      · obtain ⟨r₁, hr₁⟩ := Option.isSome_iff_exists.mp
          (assembleEntry_isSome r first second)
        simp [hfirst, hr₁, ih]
      · simp [hfirst]

/-- Also if sums have wrapped around, the position lies inside the string. -/
theorem appendNext_isSome {idx first : ℕ} {str : List UInt8}
    (h : first ≤ addSize idx str.length) (second : List UInt8) :
    (appendNext idx str first second).isSome := by
  have hle := addSize_le first second.length
  unfold appendNext
  split
  · rw [subSize_of_le h, substr_of_le (by omega)]
    rfl
  · rfl

theorem prependLast_isSome {idx first : ℕ} {second : List UInt8}
    (h : idx ≤ addSize first second.length) (str : List UInt8) :
    (prependLast idx str first second).isSome := by
  have hle := addSize_le idx str.length
  unfold prependLast
  split
  · rw [subSize_of_le h, substr_of_le (by omega)]
    rfl
  · rfl

theorem mergeNext_isSome (idx : ℕ) (str : List UInt8) (u : ℕ)
    (m : List (ℕ × List UInt8)) : (mergeNext idx str u m).isSome := by
  induction m generalizing str u with
  | nil => rfl
  | cons entry rest ih =>
      obtain ⟨first, second⟩ := entry
      rw [mergeNext]
      by_cases hfirst : first ≤ addSize idx str.length
      · obtain ⟨str', hstr'⟩ := Option.isSome_iff_exists.mp
          (appendNext_isSome hfirst second)
        simp [hfirst, hstr', ih]
      · simp [hfirst]

theorem mergeLast_isSome (lower : List (ℕ × List UInt8)) (m : Merge) :
    (mergeLast lower m).isSome := by
  unfold mergeLast
  split
  · rfl
  · rename_i first second _
    by_cases hlast : m.idx ≤ addSize first second.length
    · obtain ⟨str, hstr⟩ := Option.isSome_iff_exists.mp
        (prependLast_isSome hlast m.str)
      simp [hlast, hstr]
    · simp [hlast]

theorem insert_isSome (r : StreamReassembler) (data : List UInt8)
    (index : ℕ) : (insert r data index).isSome := by
  unfold insert
  by_cases hindex : index ≤ r.nidx
  · by_cases hnew : r.nidx - index < data.length
    · obtain ⟨r₁, hr₁⟩ := Option.isSome_iff_exists.mp (assemble_isSome hnew)
      simp [hindex, hnew, hr₁, assemblePending_isSome]
    · simp [hindex, hnew]
  · obtain ⟨m, hm⟩ := Option.isSome_iff_exists.mp
      (mergeNext_isSome index data r.unassembledBytes (lowerBound index r.mp))
    obtain ⟨m', hm'⟩ := Option.isSome_iff_exists.mp
      (mergeLast_isSome (before index r.mp) m)
    simp [hindex, merge, hm, hm']

/-- Whatever is pushed, `push_substring` never throws. -/
theorem pushSubstring_isSome (r : StreamReassembler) (data : List UInt8)
    (index : ℕ) (eof : Bool) : (pushSubstring r data index eof).isSome := by
  obtain ⟨r', hr'⟩ := Option.isSome_iff_exists.mp
    (insert_isSome (noteEof r data index eof) data index)
  simp [pushSubstring, hr']

def push (r : StreamReassembler) (data : List UInt8) (index : ℕ)
    (eof : Bool) : StreamReassembler :=
  (pushSubstring r data index eof).get (pushSubstring_isSome r data index eof)

/-! ## Words and natural numbers -/

/-- All fragments end at a word. -/
def InRange (m : List (ℕ × List UInt8)) : Prop :=
  ∀ f ∈ m, f.1 + f.2.length < 2 ^ 64

theorem inRange_cons {f : ℕ × List UInt8} {m : List (ℕ × List UInt8)} :
    InRange (f :: m) ↔ f.1 + f.2.length < 2 ^ 64 ∧ InRange m := by
  simp [InRange]

theorem assemble_eq {r : StreamReassembler} {first : ℕ}
    {second : List UInt8} (hfirst : first ≤ r.nidx)
    (hsecond : r.nidx - first < second.length)
    (hend : first + second.length < 2 ^ 64) :
    assemble r first second = r.assemble first second := by
  have hlen : (r.output.accepted (second.drop (r.nidx - first))).length ≤
      second.length - (r.nidx - first) := by
    rw [← List.length_drop]
    exact (ByteStream.accepted_isPrefix _ _).length_le
  rw [StreamReassembler.assemble_eq hsecond]
  simp only [assemble, substr_of_le hsecond.le]
  simp [addSize_of_lt (show r.nidx + (r.output.accepted
    (second.drop (r.nidx - first))).length < 2 ^ 64 by omega)]

theorem assembleEntry_eq {r : StreamReassembler} {first : ℕ}
    {second : List UInt8} (hfirst : first ≤ r.nidx)
    (hend : first + second.length < 2 ^ 64) :
    assembleEntry r first second = r.assembleEntry first second := by
  unfold assembleEntry StreamReassembler.assembleEntry
  by_cases hsecond : r.nidx - first < second.length
  · rw [if_pos hsecond, if_pos hsecond, assemble_eq hfirst hsecond hend]
  · rw [if_neg hsecond, if_neg hsecond]

theorem assemblePending_eq {m : List (ℕ × List UInt8)} (hm : InRange m)
    (r : StreamReassembler) : assemblePending r m = r.assemblePending m := by
  induction m generalizing r with
  | nil => rfl
  | cons entry rest ih =>
      obtain ⟨first, second⟩ := entry
      obtain ⟨hend, hrest⟩ := inRange_cons.mp hm
      rw [assemblePending, StreamReassembler.assemblePending]
      by_cases hfirst : first ≤ r.nidx
      · rw [if_pos hfirst, if_pos hfirst, assembleEntry_eq hfirst hend]
        exact bind_congr fun r₁ => ih hrest r₁
      · rw [if_neg hfirst, if_neg hfirst]

theorem appendNext_eq {idx first : ℕ} {str second : List UInt8}
    (hstr : idx + str.length < 2 ^ 64)
    (hsecond : first + second.length < 2 ^ 64)
    (hfirst : first ≤ idx + str.length) :
    appendNext idx str first second =
      StreamReassembler.appendNext idx str first second := by
  unfold appendNext StreamReassembler.appendNext
  rw [addSize_of_lt hstr, addSize_of_lt hsecond, subSize_of_le hfirst]

theorem prependLast_eq {idx first : ℕ} {str second : List UInt8}
    (hstr : idx + str.length < 2 ^ 64)
    (hsecond : first + second.length < 2 ^ 64)
    (hlast : idx ≤ first + second.length) :
    prependLast idx str first second =
      StreamReassembler.prependLast idx str first second := by
  unfold prependLast StreamReassembler.prependLast
  rw [addSize_of_lt hstr, addSize_of_lt hsecond, subSize_of_le hlast]

/-- The merge is the same, and ends at a word too. -/
theorem mergeNext_eq {idx : ℕ} {str : List UInt8} {u : ℕ}
    {m : List (ℕ × List UInt8)} (hm : InRange ((idx, str) :: m)) :
    mergeNext idx str u m = StreamReassembler.mergeNext idx str u m ∧
      ∀ m' ∈ StreamReassembler.mergeNext idx str u m,
        m'.idx + m'.str.length < 2 ^ 64 := by
  induction m generalizing str u with
  | nil =>
      refine ⟨rfl, ?_⟩
      rintro m' ⟨⟩
      exact (inRange_cons.mp hm).1
  | cons entry rest ih =>
      obtain ⟨first, second⟩ := entry
      obtain ⟨hstr, hm⟩ := inRange_cons.mp hm
      obtain ⟨hsecond, hrest⟩ := inRange_cons.mp hm
      dsimp only at hstr hsecond
      rw [mergeNext, StreamReassembler.mergeNext, addSize_of_lt hstr]
      by_cases hfirst : first ≤ idx + str.length
      · rw [if_pos hfirst, if_pos hfirst, appendNext_eq hstr hsecond hfirst,
          StreamReassembler.appendNext_eq]
        refine ih (inRange_cons.mpr ⟨?_, hrest⟩)
        simp only [List.length_append, List.length_drop]
        omega
      · rw [if_neg hfirst, if_neg hfirst]
        refine ⟨rfl, ?_⟩
        rintro m' ⟨⟩
        exact hstr

theorem mergeLast_eq {lower : List (ℕ × List UInt8)} {m : Merge}
    (hlower : InRange lower) (hm : m.idx + m.str.length < 2 ^ 64) :
    mergeLast lower m = StreamReassembler.mergeLast lower m ∧
      ∀ m' ∈ StreamReassembler.mergeLast lower m,
        m'.idx + m'.str.length < 2 ^ 64 := by
  unfold mergeLast StreamReassembler.mergeLast
  rcases hlast : lower.getLast? with _ | ⟨first, second⟩
  · refine ⟨rfl, ?_⟩
    rintro m' ⟨⟩
    exact hm
  · have hsecond := hlower _ (List.mem_of_getLast? hlast)
    dsimp only at hsecond ⊢
    rw [addSize_of_lt hsecond]
    by_cases hreaches : m.idx ≤ first + second.length
    · rw [if_pos hreaches, if_pos hreaches, prependLast_eq hm hsecond hreaches,
        StreamReassembler.prependLast_eq]
      refine ⟨rfl, ?_⟩
      rintro m' ⟨⟩
      simp only [List.length_append, List.length_drop]
      omega
    · rw [if_neg hreaches, if_neg hreaches]
      refine ⟨rfl, ?_⟩
      rintro m' ⟨⟩
      exact hm

section Push

variable {r : StreamReassembler} {data : List UInt8} {index : ℕ}

theorem merge_eq (hmp : InRange r.mp) (hdata : index + data.length < 2 ^ 64) :
    merge r data index = r.merge data index ∧
      ∀ m ∈ r.merge data index, m.idx + m.str.length < 2 ^ 64 := by
  have hsplit := before_append_lowerBound index r.mp
  have hbefore : InRange (before index r.mp) := by
    intro f hf
    exact hmp f (hsplit ▸ List.mem_append_left _ hf)
  have habove : InRange ((index, data) :: lowerBound index r.mp) := by
    refine inRange_cons.mpr ⟨hdata, ?_⟩
    intro f hf
    exact hmp f (hsplit ▸ List.mem_append_right _ hf)
  obtain ⟨hnext, hends⟩ := mergeNext_eq (u := r.unassembledBytes) habove
  obtain ⟨m₁, hm₁⟩ := Option.isSome_iff_exists.mp
    (StreamReassembler.mergeNext_isSome index data r.unassembledBytes
      (lowerBound index r.mp))
  obtain ⟨hlast, hends'⟩ := mergeLast_eq hbefore (hends m₁ hm₁)
  simp only [merge, StreamReassembler.merge, hnext, hm₁]
  exact ⟨hlast, hends'⟩

theorem store_eq {m : Merge} {lower upper : List (ℕ × List UInt8)}
    (hm : Merged r data index m lower upper) (hmp : InRange r.mp)
    (hdata : index + data.length < 2 ^ 64) : store r m = r.store m := by
  have hroom := hm.separated.total_lt (b := 2 ^ 64) ?_
  · have hu := hm.unassembled
    rw [hm.mp, total_append] at hu
    simp only [total_append, total_cons] at hroom
    have hsize : r.storeSize m ≤ m.str.length := min_le_right _ _
    unfold store StreamReassembler.store
    rw [addSize_of_lt (by omega)]
  · intro i hi
    obtain ⟨f, hf, hrange⟩ := (hm.covers i).mp hi
    have := inRange_cons.mpr ⟨hdata, hmp⟩ f hf
    omega

/-- **The words compute what the natural numbers do**, as long as all fragments
end at a word. -/
theorem push_eq (h : r.WellFormed) (hmp : InRange r.mp)
    (hdata : index + data.length < 2 ^ 64) (eof : Bool) :
    push r data index eof = r.push data index eof := by
  have hnote : noteEof r data index eof = r.noteEof data index eof := by
    unfold noteEof StreamReassembler.noteEof
    rw [addSize_of_lt hdata]
  obtain ⟨r₀, hr₀⟩ : ∃ r₀, r.noteEof data index eof = r₀ := ⟨_, rfl⟩
  have h₀ : r₀.WellFormed ∧ InRange r₀.mp := by
    subst hr₀
    unfold StreamReassembler.noteEof
    split
    · exact ⟨⟨h.separated, h.unassembled, h.capacity⟩, hmp⟩
    · exact ⟨h, hmp⟩
  have hinsert : insert r₀ data index = r₀.insert data index := by
    unfold insert StreamReassembler.insert
    by_cases hindex : index ≤ r₀.nidx
    · rw [if_pos hindex, if_pos hindex]
      by_cases hnew : r₀.nidx - index < data.length
      · rw [if_pos hnew, if_pos hnew, assemble_eq hindex hnew hdata,
          StreamReassembler.assemble_eq hnew]
        exact assemblePending_eq h₀.2 _
      · rw [if_neg hnew, if_neg hnew]
    · rw [if_neg hindex, if_neg hindex, (merge_eq h₀.2 hdata).1]
      obtain ⟨m, lower, upper, hm, hspec⟩ :=
        merge_spec h₀.1 data (Nat.not_le.mp hindex)
      rw [hm]
      exact congrArg some (store_eq hspec h₀.2 hdata)
  simp only [push, StreamReassembler.push, pushSubstring,
    StreamReassembler.pushSubstring, hnote, hr₀, hinsert]

/-- A push that ends at a word leaves fragments that do. -/
theorem inRange_push (h : r.WellFormed) (hmp : InRange r.mp)
    (hdata : index + data.length < 2 ^ 64) (eof : Bool) :
    InRange (r.push data index eof).mp := by
  rcases Nat.lt_or_ge r.nidx index with hindex | hindex
  · obtain ⟨m, lower, upper, hm, hspec, hpush⟩ :=
      mp_push_of_lt h data eof hindex
    have hend := (merge_eq hmp hdata).2 m hm
    rw [hpush]
    intro f hf
    rcases List.mem_append.mp hf with hlower | hrest
    · exact hmp f (hspec.old f (List.mem_append_left _ hlower))
    rcases List.mem_cons.mp hrest with rfl | hupper
    · simp only [List.length_take]
      omega
    · exact hmp f (hspec.old f (List.mem_append_right _ hupper))
  · obtain ⟨w, hw⟩ := push_spec h data index eof
    intro f hf
    exact hmp f ((hw.inOrder hindex).1.subset hf)

end Push

end Word64

/-! ## Sessions -/

/-- The data of a push ends at a word. -/
def Event.InRange : Event → Prop
  | .push data index _ => index + data.length < 2 ^ 64
  | _ => True

instance : (event : Event) → Decidable event.InRange
  | .push data index _ =>
      inferInstanceAs (Decidable (index + data.length < 2 ^ 64))
  | .read _ => .isTrue trivial
  | .popOutput _ => .isTrue trivial

namespace Session
namespace Word64

def step (s : Session) : Event → Session
  | .push data index eof =>
      { s with
        reassembler := StreamReassembler.Word64.push s.reassembler data index
          eof }
  | event => s.step event

def run (capacity : ℕ) (events : List Event) : Session :=
  events.foldl step (new capacity)

/-- The subtraction of an out-of-order push does not go below zero. -/
def NoUnderflow (s : Session) : Event → Prop
  | .push data index _ =>
      s.reassembler.nidx < index →
        ∀ m, StreamReassembler.Word64.merge s.reassembler data index = some m →
          m.unassembledBytes + s.reassembler.output.bufferSize ≤
            s.reassembler.capacity
  | _ => True

/-- What holds in every session whose pushes end at words. -/
structure Valid (capacity : ℕ) (s : Session) : Prop
    extends Session.Valid capacity s where
  inRange : StreamReassembler.Word64.InRange s.reassembler.mp

variable {capacity : ℕ} {s : Session} {event : Event}

theorem step_eq (h : Valid capacity s) (hevent : event.InRange) :
    step s event = s.step event := by
  cases event with
  | push data index eof =>
      simp only [step, Session.step,
        StreamReassembler.Word64.push_eq h.wellFormed h.inRange hevent]
  | read len => rfl
  | popOutput len => rfl

theorem noUnderflow_iff (h : Valid capacity s) (hevent : event.InRange) :
    NoUnderflow s event ↔ s.NoUnderflow event := by
  cases event with
  | push data index eof =>
      simp only [NoUnderflow, Session.NoUnderflow,
        (StreamReassembler.Word64.merge_eq h.inRange hevent).1]
  | read len => exact Iff.rfl
  | popOutput len => exact Iff.rfl

theorem Valid.step (h : Valid capacity s) (hevent : event.InRange) :
    Valid capacity (s.step event) := by
  refine ⟨h.toValid.step event, ?_⟩
  cases event with
  | push data index eof =>
      exact StreamReassembler.Word64.inRange_push h.wellFormed h.inRange hevent
        eof
  | read len =>
      rw [step_read]
      exact h.inRange
  | popOutput len => exact h.inRange

theorem valid_new (capacity : ℕ) : Valid capacity (new capacity) where
  toValid := Session.valid_new capacity
  inRange := by
    intro f hf
    cases hf

/-- **The memory bound holds exactly of the sessions whose pushes fit.**  All
pushes end at words.  If no out-of-order push reaches beyond the window while the
output has room, then in every state the bytes held fit into the capacity, no
pending byte lies beyond the window, and the subtraction that computes the store
size never underflows; and the first push that does not fit breaks the bound. -/
theorem withinMemory_iff_fits (capacity : ℕ) {events : List Event}
    (hrange : ∀ event ∈ events, event.InRange) :
    (EveryState step (new capacity) events (WithinMemory capacity) ∧
        EveryStep step (new capacity) events NoUnderflow) ↔
      EveryStep step (new capacity) events (Fits capacity) := by
  have hguard : EveryStep Session.step (new capacity) events
      fun _ event => event.InRange := everyStep_iff_forall_mem.mpr hrange
  have hstep : ∀ s event, Valid capacity s → event.InRange →
      Valid capacity (s.step event) := fun _ _ hs hevent => hs.step hevent
  have hstart := valid_new capacity
  -- the words go through the states of the natural numbers
  have hruns : ∀ done, done <+: events → done.foldl step (new capacity) =
      done.foldl Session.step (new capacity) := fun _ hdone =>
    (hguard.restrict hdone).foldl_eq hstep (fun _ _ => step_eq) hstart
  have hbefore : ∀ done event, done ++ [event] <+: events → done <+: events :=
    fun _ _ hdone => (List.prefix_append _ _).trans hdone
  have hbound : EveryState step (new capacity) events (WithinMemory capacity) ↔
      EveryState Session.step (new capacity) events (WithinMemory capacity) :=
    forall₂_congr fun done hdone => by rw [hruns done hdone]
  have hunderflow : EveryStep step (new capacity) events NoUnderflow ↔
      EveryStep Session.step (new capacity) events Session.NoUnderflow :=
    forall₃_congr fun done event hdone => by
      have hdone' := hbefore done event hdone
      rw [hruns done hdone']
      exact noUnderflow_iff (hguard.everyState hstep hstart done hdone')
        (hguard done event hdone)
  have hfits : EveryStep step (new capacity) events (Fits capacity) ↔
      EveryStep Session.step (new capacity) events (Fits capacity) :=
    forall₃_congr fun done event hdone => by
      rw [hruns done (hbefore done event hdone)]
  rw [hbound, hunderflow, hfits]
  exact everyState_withinMemory_iff capacity events

/-- The second byte comes before the first one, and the third when there is room
for it again. -/
theorem withinMemory_iff_fits_reordered :
    EveryState step (new 2)
      [.push [2] 1 false, .push [1] 0 false, .read 1, .push [3] 2 true]
      (WithinMemory 2) :=
  ((withinMemory_iff_fits 2 (by decide)).mpr (by decide)).1

/-- With a capacity of two bytes, a byte pushed at index 5 and then two in-order
bytes: three bytes are held, one of them beyond the window, and the store size
of a third push is computed from a negative difference. -/
theorem withinMemory_fails_beyond_window :
    let events : List Event := [.push [1] 5 false, .push [1, 2] 0 false]
    let s := run 2 events
    (∀ event ∈ events, event.InRange) ∧
      ¬s.reassembler.unassembledBytes + s.reassembler.output.bufferSize ≤ 2 ∧
      ¬s.PendingInWindow 2 ∧ ¬NoUnderflow s (.push [1] 8 false) := by
  refine ⟨by decide, by decide, ?_, ?_⟩
  · intro hin
    exact absurd (hin 5 ⟨(5, [1]), by decide, by decide, by decide⟩)
      (by decide)
  · intro hno
    exact absurd (hno (by decide) ⟨8, [1], 1, [(5, [1])]⟩ (by decide))
      (by decide)

/-- Beyond the words: two bytes are counted, and none is stored, since the end
that has wrapped around does not reach the empty entry at their index. -/
example :
    let events : List Event :=
      [.push [] (2 ^ 64 - 1) false, .push [1, 2] (2 ^ 64 - 1) false]
    let s := run 2 events
    s.reassembler.unassembledBytes = 2 ∧
      s.reassembler.mp = [(2 ^ 64 - 1, [])] := by decide

end Word64
end Session
end StreamReassembler
end Sponge
