import Sponge.EventLoop.Calls
import Sponge.StreamCopy.Model

/-!
# No byte is lost between the descriptors

In every run of `bidirectional_stream_copy` the bytes that were read are those
that were written, in their order, followed by those that wait in the stream in
between.  When the program ends because it has nothing left to do, nothing waits
any more and the end of both streams has been passed on.
-/

namespace Sponge
namespace StreamCopy

open Support

variable {way : Way} {w w' : World} {data : List UInt8} {n : ℕ}

theorem source_ne {x : Way} (h : x ≠ way) : x.source ≠ way.source := by
  intro hsource
  cases x <;> cases way <;> first | exact h rfl | cases hsource

theorem sink_ne {x : Way} (h : x ≠ way) : x.sink ≠ way.sink := by
  intro hsink
  cases x <;> cases way <;> first | exact h rfl | cases hsink

/-! ## What the callbacks leave alone -/

theorem Fills.sameWriting (h : Fills way data w w') (i : Fd) :
    (w.fd i).SameWriting (w'.fd i) := by
  by_cases hi : i = way.source
  · rw [hi]
    exact h.writing
  · rw [h.fd i hi]
    exact ⟨rfl, rfl, rfl, rfl, rfl⟩

theorem Fills.limits (h : Fills way data w w') (x : Way) :
    (w'.stream x).capacity = (w.stream x).capacity ∧
      (w'.stream x).error = (w.stream x).error := by
  by_cases hx : x = way
  · rw [hx]
    exact ⟨h.capacity, h.error⟩
  · rw [h.stream x hx]
    exact ⟨rfl, rfl⟩

theorem Fills.fd_source (h : Fills way data w w') {x : Way} (hx : x ≠ way) :
    w'.fd x.source = w.fd x.source :=
  h.fd _ (source_ne hx)

theorem Fills.passedOn (h : Fills way data w w') {x : Way}
    (hx : w.PassedOn x) : w'.PassedOn x := by
  cases x with
  | outbound => exact (h.sameWriting .socket).shutWr.trans hx
  | inbound => exact (h.sameWriting .output).closed.trans hx

theorem Drains.received_eq (h : Drains way n w w') (i : Fd) :
    (w'.fd i).received = (w.fd i).received := by
  by_cases hi : i = way.sink
  · rw [hi]
    exact h.received
  · rw [h.fd i hi]

theorem Drains.limits (h : Drains way n w w') (x : Way) :
    (w'.stream x).capacity = (w.stream x).capacity ∧
      (w'.stream x).error = (w.stream x).error ∧
      (w'.stream x).inputEnded = (w.stream x).inputEnded := by
  by_cases hx : x = way
  · rw [hx]
    exact ⟨h.capacity, h.error, h.ended⟩
  · rw [h.stream x hx]
    exact ⟨rfl, rfl, rfl⟩

theorem Drains.fd_sink (h : Drains way n w w') {x : Way} (hx : x ≠ way) :
    w'.fd x.sink = w.fd x.sink :=
  h.fd _ (sink_ne hx)

/-- Only the output is at its end because it was closed, and nothing is read
from it. -/
theorem Drains.eof_source (h : Drains way n w w') (x : Way) :
    (w'.fd x.source).eof = (w.fd x.source).eof := by
  by_cases hx : x.source = way.sink
  · rw [hx]
    rcases h.sink with ⟨heof, -⟩ | ⟨rfl, -⟩
    · exact heof
    · cases x <;> cases hx
  · rw [h.fd _ hx]

theorem Drains.shutdown_mono (h : Drains way n w w') {x : Way}
    (hx : w.shutdown x = true) : w'.shutdown x = true := by
  by_cases hway : x = way
  · subst hway
    rcases h.shut with hsame | ⟨hshut, -⟩
    · exact hsame.trans hx
    · exact hshut
  · exact (h.shutdown x hway).trans hx

/-! ## Conservation -/

/-- What was read since the start has been written or waits in the stream. -/
def Conserves (fd : Fd → FileDescriptor) (way : Way) (w : World) : Prop :=
  ∃ moved : List UInt8,
    (w.fd way.source).received =
        (fd way.source).received ++ (moved ++ (w.stream way).contents) ∧
      (w.fd way.sink).written = (fd way.sink).written ++ moved

section Conserves

variable {fd : Fd → FileDescriptor} {x : Way}

theorem Conserves.endInput (h : Conserves fd x w) :
    Conserves fd x (w.endInput way) := by
  have hcontents :
      ((w.endInput way).stream x).contents = (w.stream x).contents := by
    by_cases hx : x = way
    · subst hx
      simp
    · rw [stream_endInput, Function.update_of_ne hx]
  obtain ⟨moved, hreceived, hwritten⟩ := h
  refine ⟨moved, ?_, hwritten⟩
  rw [hcontents]
  exact hreceived

theorem Conserves.fill (h : Conserves fd x w) (hfill : Fills way data w w') :
    Conserves fd x w' := by
  obtain ⟨moved, hreceived, hwritten⟩ := h
  refine ⟨moved, ?_, (hfill.sameWriting _).written.trans hwritten⟩
  by_cases hx : x = way
  · subst hx
    rw [hfill.received, hfill.contents, hreceived]
    simp only [List.append_assoc]
  · rw [hfill.fd_source hx, hfill.stream x hx]
    exact hreceived

theorem Conserves.drain (h : Conserves fd x w) (hdrain : Drains way n w w') :
    Conserves fd x w' := by
  obtain ⟨moved, hreceived, hwritten⟩ := h
  by_cases hx : x = way
  · subst hx
    refine ⟨moved ++ (w.stream x).contents.take n, ?_, ?_⟩
    · rw [hdrain.received_eq, hdrain.contents, hreceived, List.append_assoc,
        List.take_append_drop]
    · rw [hdrain.written, hwritten, List.append_assoc]
  · refine ⟨moved, ?_, ?_⟩
    · rw [hdrain.received_eq, hdrain.stream x hx]
      exact hreceived
    · rw [hdrain.fd_sink hx]
      exact hwritten

theorem conserves_invariant (fd : Fd → FileDescriptor) :
    Reactor.Invariant (EventLoop.reactor rule) (fun _ => True)
      (fun _ w => ∀ x, Conserves fd x w) (fun _ _ => True) where
  cancel := by
    intro installed w i hw _ _ x
    cases i with
    | fill way => exact (hw x).endInput
    | drain way => exact (hw x).endInput
  arm := by
    intros
    trivial
  call := by
    intro installed w i hw _ _ x
    cases i with
    | fill way =>
        obtain ⟨data, hfill⟩ := fill_spec way w
        exact (hw x).fill hfill
    | drain way =>
        obtain ⟨n, hdrain⟩ := drain_spec way w
        exact (hw x).drain hdrain
  armed_cancel := by
    intros
    trivial
  armed_call := by
    intros
    trivial

end Conserves

theorem conserves_run (fd : Fd → FileDescriptor) (size : ℕ)
    (answers : List PollAnswer) (way : Way) :
    Conserves fd way (run fd size answers).world := by
  have hstart : ∀ x, Conserves fd x (World.new fd size) := by
    intro x
    exact ⟨[], by simp [World.new], by simp [World.new]⟩
  have hguard : EveryStep (EventLoop.Loop.step rule)
      ⟨rules, World.new fd size, none⟩ answers
      (EventLoop.Loop.HangUpsIn rule fun _ => True) :=
    fun _ _ _ _ _ => trivial
  obtain ⟨⟨installed, hconserves⟩, -⟩ := EventLoop.Loop.invariant
    (conserves_invariant fd) (by decide) hstart hguard
  exact hconserves way

/-- **Nothing is lost, repeated or put out of order.**  At any moment, whatever
the descriptors and `poll` have answered and also after an exception, the bytes
read by a way are the bytes it has written followed by those in its stream. -/
theorem run_conserves (fd : Fd → FileDescriptor) (size : ℕ)
    (answers : List PollAnswer) (way : Way) :
    let w := (run fd size answers).world
    ∃ moved : List UInt8,
      (w.fd way.source).received =
          (fd way.source).received ++ (moved ++ (w.stream way).contents) ∧
        (w.fd way.sink).written = (fd way.sink).written ++ moved :=
  conserves_run fd size answers way

/-! ## The end -/

/-- Only the rules that fill a stream hang up. -/
def IsFill : Name → Prop
  | .fill _ => True
  | .drain _ => False

instance : DecidablePred IsFill
  | .fill _ => .isTrue trivial
  | .drain _ => .isFalse id

/-- How the end of a stream is passed on. -/
structure Orderly (size : ℕ) (installed : Set Name) (w : World) : Prop where
  capacity : ∀ x, (w.stream x).capacity = size
  error : ∀ x, (w.stream x).error = false
  closed : ∀ i, (w.fd i).closed = true →
    i = .output ∧ w.shutdown .inbound = true
  passed : ∀ x, w.shutdown x = true → w.PassedOn x
  finished : ∀ x, w.shutdown x = true →
    (w.stream x).inputEnded = true ∧ (w.stream x).contents = []
  ended : ∀ x, (w.stream x).inputEnded = true →
    (w.fd x.source).eof = true ∨ .fill x ∉ installed
  filled : ∀ x, .fill x ∉ installed → (w.stream x).inputEnded = true
  drained : ∀ x, .drain x ∉ installed → w.shutdown x = true

namespace Orderly

variable {size : ℕ} {installed : Set Name}

theorem cancel_fill (h : Orderly size installed w) :
    Orderly size (installed \ {.fill way}) (w.endInput way) := by
  have hother : ∀ x, x ≠ way → (w.endInput way).stream x = w.stream x := by
    intro x hx
    exact Function.update_of_ne hx _ _
  have hthis : (w.endInput way).stream way = (w.stream way).endInput := by
    simp
  have hlimits : ∀ x,
      ((w.endInput way).stream x).capacity = (w.stream x).capacity ∧
        ((w.endInput way).stream x).error = (w.stream x).error := by
    intro x
    by_cases hx : x = way
    · rw [hx, hthis]
      exact ⟨rfl, rfl⟩
    · rw [hother x hx]
      exact ⟨rfl, rfl⟩
  refine ⟨fun x => (hlimits x).1.trans (h.capacity x),
    fun x => (hlimits x).2.trans (h.error x), h.closed, ?_, ?_, ?_, ?_, ?_⟩
  · intro x hshut
    have hpassed := h.passed x hshut
    cases x with
    | outbound => exact hpassed
    | inbound => exact hpassed
  · intro x hshut
    obtain ⟨hended, hempty⟩ := h.finished x hshut
    by_cases hx : x = way
    · subst hx
      rw [hthis]
      exact ⟨rfl, hempty⟩
    · rw [hother x hx]
      exact ⟨hended, hempty⟩
  · intro x hended
    by_cases hx : x = way
    · right
      rw [hx]
      exact fun hmem => hmem.2 rfl
    · rw [hother x hx] at hended
      exact (h.ended x hended).imp_right fun hnot hmem => hnot hmem.1
  · intro x hnot
    by_cases hx : x = way
    · rw [hx, hthis]
      rfl
    · rw [hother x hx]
      refine h.filled x fun hmem => hnot ⟨hmem, ?_⟩
      rintro ⟨⟩
      exact hx rfl
  · intro x hnot
    refine h.drained x fun hmem => hnot ⟨hmem, ?_⟩
    rintro ⟨⟩

/-- A rule that drains is only cancelled after it has passed on the end, when
there is no input to end any more. -/
theorem cancel_drain (h : Orderly size installed w)
    (hclosed : (w.fd way.sink).closed = true) :
    Orderly size (installed \ {.drain way}) (w.endInput way) := by
  obtain ⟨hsink, hshut⟩ := h.closed _ hclosed
  obtain rfl : way = .inbound := by
    cases way with
    | outbound => cases hsink
    | inbound => rfl
  have hended := (h.finished .inbound hshut).1
  have hsame : w.endInput .inbound = w := by
    have hstream : (w.stream .inbound).endInput = w.stream .inbound := by
      rcases hs : w.stream .inbound with ⟨ended⟩
      rw [hs] at hended
      obtain rfl : ended = true := hended
      rfl
    rw [World.endInput, hstream, setStream_self]
  rw [hsame]
  refine ⟨h.capacity, h.error, h.closed, h.passed, h.finished, ?_, ?_, ?_⟩
  · intro x hx
    exact (h.ended x hx).imp_right fun hnot hmem => hnot hmem.1
  · intro x hnot
    refine h.filled x fun hmem => hnot ⟨hmem, ?_⟩
    rintro ⟨⟩
  · intro x hnot
    by_cases hx : x = .inbound
    · rw [hx]
      exact hshut
    · refine h.drained x fun hmem => hnot ⟨hmem, ?_⟩
      rintro ⟨⟩
      exact hx rfl

theorem fill (h : Orderly size installed w) (hfill : Fills way data w w')
    (hinstalled : Name.fill way ∈ installed)
    (hlive : (w.fd way.source).eof = false) : Orderly size installed w' := by
  -- the input has not ended, and so its end was not passed on
  have hrunning : ¬(w.stream way).inputEnded = true := by
    intro hended
    rcases h.ended way hended with heof | hnot
    · rw [hlive] at heof
      cases heof
    · exact hnot hinstalled
  have hnotShut : ¬w.shutdown way = true := fun hshut =>
    hrunning (h.finished way hshut).1
  refine ⟨fun x => (hfill.limits x).1.trans (h.capacity x),
    fun x => (hfill.limits x).2.trans (h.error x), ?_, ?_, ?_, ?_, ?_, ?_⟩
  · intro i hi
    rw [(hfill.sameWriting i).closed] at hi
    rw [hfill.shutdown]
    exact h.closed i hi
  · intro x hshut
    rw [hfill.shutdown] at hshut
    exact hfill.passedOn (h.passed x hshut)
  · intro x hshut
    rw [hfill.shutdown] at hshut
    by_cases hx : x = way
    · subst hx
      exact absurd hshut hnotShut
    · rw [hfill.stream x hx]
      exact h.finished x hshut
  · intro x hended
    by_cases hx : x = way
    · subst hx
      rcases hfill.ends hended with hold | heof
      · exact absurd hold hrunning
      · exact Or.inl heof
    · rw [hfill.stream x hx] at hended
      rw [hfill.fd_source hx]
      exact h.ended x hended
  · intro x hnot
    have hx : x ≠ way := by
      rintro rfl
      exact hnot hinstalled
    rw [hfill.stream x hx]
    exact h.filled x hnot
  · intro x hnot
    rw [hfill.shutdown]
    exact h.drained x hnot

theorem drain (h : Orderly size installed w) (hdrain : Drains way n w w') :
    Orderly size installed w' := by
  have hended : ∀ x, (w'.stream x).inputEnded = (w.stream x).inputEnded :=
    fun x => (hdrain.limits x).2.2
  refine ⟨fun x => (hdrain.limits x).1.trans (h.capacity x),
    fun x => (hdrain.limits x).2.1.trans (h.error x), ?_, ?_, ?_, ?_, ?_, ?_⟩
  · intro i hi
    by_cases hsink : i = way.sink
    · subst hsink
      rcases hdrain.sink with ⟨-, hclosed⟩ | ⟨rfl, hshut⟩
      · obtain ⟨houtput, hshut⟩ := h.closed _ (hclosed.symm.trans hi)
        exact ⟨houtput, hdrain.shutdown_mono hshut⟩
      · exact ⟨rfl, hshut⟩
    · rw [hdrain.fd i hsink] at hi
      obtain ⟨houtput, hshut⟩ := h.closed i hi
      exact ⟨houtput, hdrain.shutdown_mono hshut⟩
  · intro x hshut
    by_cases hx : x = way
    · subst hx
      exact hdrain.passed (h.passed x) hshut
    · rw [hdrain.shutdown x hx] at hshut
      have hpassed := h.passed x hshut
      have hsame := hdrain.fd_sink hx
      cases x with
      | outbound => exact (congrArg FileDescriptor.shutWr hsame).trans hpassed
      | inbound => exact (congrArg FileDescriptor.closed hsame).trans hpassed
  · intro x hshut
    by_cases hx : x = way
    · subst hx
      rcases hdrain.shut with hsame | ⟨-, heof⟩
      · obtain ⟨hend, hempty⟩ := h.finished x (hsame.symm.trans hshut)
        refine ⟨(hended x).trans hend, ?_⟩
        rw [hdrain.contents, hempty, List.drop_nil]
      · obtain ⟨hend, hsize⟩ := ByteStream.eof_iff.mp heof
        refine ⟨hend, List.eq_nil_of_length_eq_zero ?_⟩
        rw [ByteStream.length_contents, hsize]
    · rw [hdrain.shutdown x hx] at hshut
      rw [hdrain.stream x hx]
      exact h.finished x hshut
  · intro x hend
    rw [hended] at hend
    rw [hdrain.eof_source]
    exact h.ended x hend
  · intro x hnot
    rw [hended]
    exact h.filled x hnot
  · intro x hnot
    exact hdrain.shutdown_mono (h.drained x hnot)

end Orderly

/-- The source of an armed rule is not at its end. -/
def Live : Name → World → Prop
  | .fill way, w => (w.fd way.source).eof = false
  | .drain _, _ => True

theorem orderly_invariant (size : ℕ) :
    Reactor.Invariant (EventLoop.reactor rule) IsFill (Orderly size) Live where
  cancel := by
    intro installed w i hw _ hwhy
    cases i with
    | fill way => exact hw.cancel_fill
    | drain way =>
        have hclosed : (w.fd way.sink).closed = true := by
          rcases hwhy with hexpired | hhangs
          · simpa [EventLoop.reactor, Rule.expired, rule] using hexpired
          · cases hhangs
        exact hw.cancel_drain hclosed
  arm := by
    intro installed w i _ _ hlive _
    cases i with
    | fill way =>
        simp only [EventLoop.reactor, Rule.expired, rule, Bool.or_eq_true,
          not_or] at hlive
        simpa [Live] using hlive.1
    | drain way => trivial
  call := by
    intro installed w i hw hinstalled hlive
    cases i with
    | fill way =>
        obtain ⟨data, hfill⟩ := fill_spec way w
        exact hw.fill hfill hinstalled hlive
    | drain way =>
        obtain ⟨n, hdrain⟩ := drain_spec way w
        exact hw.drain hdrain
  armed_cancel := by
    intro installed w i j _ _ hlive
    cases j with
    | fill way => cases i <;> exact hlive
    | drain way => trivial
  armed_call := by
    intro installed w i j _ hne hlive
    cases j with
    | drain way => trivial
    | fill way =>
        cases i with
        | fill x =>
            obtain ⟨data, hfill⟩ := fill_spec x w
            have hway : way ≠ x := by
              rintro rfl
              exact hne rfl
            exact (congrArg FileDescriptor.eof (hfill.fd_source hway)).trans
              hlive
        | drain x =>
            obtain ⟨n, hdrain⟩ := drain_spec x w
            exact (hdrain.eof_source way).trans hlive

theorem orderly_new {fd : Fd → FileDescriptor} (hopen : ∀ i, ¬(fd i).closed)
    (size : ℕ) : Orderly size {i | i ∈ rules} (World.new fd size) where
  capacity _ := rfl
  error _ := rfl
  closed i hclosed := absurd hclosed (hopen i)
  passed x hshut := by cases hshut
  finished x hshut := by cases hshut
  ended x hended := by cases hended
  filled x hnot := by
    refine absurd ?_ hnot
    cases x <;> simp [rules]
  drained x hnot := by
    refine absurd ?_ hnot
    cases x <;> simp [rules]

/-- A rule that fills does not look at the end of the input. -/
theorem interest_fill_endInput (x way : Way) (w : World) :
    (rule (.fill x)).interest (w.endInput way) =
      (rule (.fill x)).interest w := by
  have hsame : ∀ y, ((w.endInput way).stream y).error = (w.stream y).error ∧
      ((w.endInput way).stream y).remainingCapacity =
        (w.stream y).remainingCapacity := by
    intro y
    by_cases hy : y = way
    · subst hy
      rw [stream_endInput, Function.update_self]
      exact ⟨rfl, rfl⟩
    · rw [stream_endInput, Function.update_of_ne hy]
      exact ⟨rfl, rfl⟩
  simp only [rule, hsame]

theorem interest_drain_endInput {x : Way} (h : x ≠ way) (w : World) :
    (rule (.drain x)).interest (w.endInput way) =
      (rule (.drain x)).interest w := by
  simp only [rule, stream_endInput, shutdown_endInput, Function.update_of_ne h]

/-- No rule notices that one behind it is cancelled. -/
theorem pairwise_rules : rules.Pairwise fun i j => ∀ w,
    (rule i).interest ((rule j).cancel w) = (rule i).interest w := by
  have hcancel : ∀ j, ∃ way, (rule j).cancel = World.endInput way := by
    intro j
    cases j with
    | fill way => exact ⟨way, rfl⟩
    | drain way => exact ⟨way, rfl⟩
  have hfill : ∀ x j w, (rule (.fill x)).interest ((rule j).cancel w) =
      (rule (.fill x)).interest w := by
    intro x j w
    obtain ⟨way, hway⟩ := hcancel j
    rw [hway]
    exact interest_fill_endInput x way w
  refine .cons (fun j _ => hfill _ j) (.cons ?_ (.cons (fun j _ => hfill _ j)
    (List.pairwise_singleton _ _)))
  intro j hj
  rcases List.mem_pair.mp hj with rfl | rfl
  · exact interest_drain_endInput (by decide)
  · exact interest_drain_endInput (by decide)

/-- When no rule is interested any more, the end has been passed on. -/
theorem Orderly.shutdown_of_idle {size : ℕ} (hsize : 0 < size)
    {rules : List Name} (h : Orderly size {i | i ∈ rules} w)
    (hidle : ∀ i ∈ rules, (rule i).interest w = false) (way : Way) :
    w.shutdown way = true := by
  by_contra hnot
  have hdrain : Name.drain way ∈ rules := by
    by_contra hmem
    exact hnot (h.drained way hmem)
  have hidleDrain := hidle _ hdrain
  simp only [rule, Bool.or_eq_false_iff, Bool.not_eq_false',
    Bool.and_eq_false_iff] at hidleDrain
  obtain ⟨hempty, hend⟩ := hidleDrain
  have hsz : (w.stream way).sz = 0 := by
    simpa [ByteStream.bufferEmpty] using hempty
  -- the stream is empty: the rule that fills it would be interested
  have hfill : Name.fill way ∉ rules := by
    intro hmem
    have hidleFill := hidle _ hmem
    simp [rule, h.error, ByteStream.remainingCapacity, h.capacity, hsz]
      at hidleFill
    omega
  have heof : (w.stream way).eof = true :=
    ByteStream.eof_iff.mpr ⟨h.filled way hfill, hsz⟩
  rcases hend with hend | hend
  · rw [heof] at hend
    cases hend
  · exact hnot (by simpa using hend)

/-- **The copy is complete when the program ends.**  If the descriptors are open
at the start, no writing end hangs up and no signal comes in, and the program
ends without an exception, then on both ways all that was read has been written
and the end has been passed on: the socket was shut down and the output
closed. -/
theorem run_copies_all {fd : Fd → FileDescriptor} {size : ℕ}
    (hopen : ∀ i, ¬(fd i).closed) (hsize : 0 < size)
    {answers : List PollAnswer} (hsignal : .interrupted ∉ answers)
    (hhang : EveryStep (EventLoop.Loop.step rule)
      ⟨rules, World.new fd size, none⟩ answers
      (EventLoop.Loop.HangUpsIn rule IsFill))
    (hended : (run fd size answers).ended = some (.ok ())) (way : Way) :
    (run fd size answers).world.PassedOn way ∧
      ∃ copied : List UInt8,
        ((run fd size answers).world.fd way.source).received =
            (fd way.source).received ++ copied ∧
          ((run fd size answers).world.fd way.sink).written =
            (fd way.sink).written ++ copied := by
  have hinvariant := EventLoop.Loop.invariant (orderly_invariant size)
    (by decide) (orderly_new hopen size) hhang
  have horderly := hinvariant.2 (by
    intro e he
    rw [run] at hended
    rw [hended] at he
    cases he)
  have hidle := EventLoop.Loop.interest_of_ended pairwise_rules (by decide)
    hsignal hended
  have hshut := horderly.shutdown_of_idle hsize hidle way
  obtain ⟨moved, hreceived, hwritten⟩ := conserves_run fd size answers way
  refine ⟨horderly.passed way hshut, moved, ?_, hwritten⟩
  rw [hreceived]
  have hempty := (horderly.finished way hshut).2
  rw [run, hempty, List.append_nil]

/-- One byte each way; the two ends come in the same pass. -/
def greeting : Fd → FileDescriptor
  | .input => { reads := [some [7], some []] }
  | .output => { writes := [some 1] }
  | .socket => { reads := [some [8], some []], writes := [some 1] }

def greetingAnswers : List PollAnswer :=
  [.ready [{ pollIn := true }, {}, { pollIn := true }, {}],
    .ready [{ pollIn := true }, { pollOut := true }, { pollIn := true },
      { pollOut := true }],
    .timeout]

theorem greeting_copied :
    (run greeting 4 greetingAnswers).ended = some (.ok ()) ∧
      ∃ copied : List UInt8,
        ((run greeting 4 greetingAnswers).world.fd .input).received =
            [] ++ copied ∧
          ((run greeting 4 greetingAnswers).world.fd .socket).written =
            [] ++ copied :=
  ⟨by decide, (@run_copies_all greeting 4 (by intro i; cases i <;> decide)
    (by decide) greetingAnswers (by decide) (by decide) (by decide)
    .outbound).2⟩

/-! ## No busy wait -/

theorem fill_returns (h : (w.fill way).2 = .ok ()) :
    ((w.fill way).1.fd way.source).readCount =
      (w.fd way.source).readCount + 1 := by
  unfold World.fill at h ⊢
  rcases hread : (w.fd way.source).read (w.stream way).remainingCapacity with
    ⟨f, e | data⟩
  · rw [hread] at h
    cases h
  · have hcount := (FileDescriptor.read_of_ok (congrArg Prod.snd hread)).2.2
    rw [hread] at hcount
    dsimp only
    split <;> simpa using hcount

theorem fill_fails {e : Failure} (h : (w.fill way).2 = .error e) :
    e ∈ FileDescriptor.readFailures := by
  unfold World.fill at h
  rcases hread : (w.fd way.source).read (w.stream way).remainingCapacity with
    ⟨f, e' | data⟩
  · rw [hread] at h
    cases h
    exact FileDescriptor.read_error (congrArg Prod.snd hread)
  · rw [hread] at h
    cases h

/-- The end is passed on with at most one more write. -/
theorem drain_returns (h : (w.drain way).2 = .ok ()) :
    ((w.drain way).1.fd way.sink).writeCount =
        (w.fd way.sink).writeCount + 1 ∨
      ((w.drain way).1.fd way.sink).writeCount =
        (w.fd way.sink).writeCount + (1 + 1) := by
  obtain ⟨f, -, ⟨e, -, hdrain, -⟩ | ⟨count, w', hw', hdrain, -, hcount⟩⟩ :=
    drain_cases way w
  · rw [hdrain] at h
    cases h
  have hsink : (w'.fd way.sink).writeCount =
      (w.fd way.sink).writeCount + 1 := by
    rw [hw']
    simpa using hcount
  rw [hdrain] at h ⊢
  split at h
  · rename_i hend
    rw [if_pos hend]
    rcases finish_cases way w' with
      ⟨attempt, hfinish⟩ | ⟨f', hfinish, -, -, hwrites, -⟩
    · rw [hfinish] at h
      cases h
    · rw [hfinish, ← UInt32.add_assoc, ← hsink]
      simpa using hwrites
  · rename_i hend
    rw [if_neg hend]
    exact Or.inl hsink

theorem drain_fails {e : Failure} (h : (w.drain way).2 = .error e) :
    e ∈ FileDescriptor.writeFailures ∨ ∃ attempt, e = .unixError attempt := by
  obtain ⟨f, -, ⟨e', hmem, hdrain, -⟩ | ⟨count, w', -, hdrain, -⟩⟩ :=
    drain_cases way w
  · rw [hdrain] at h
    cases h
    exact Or.inl hmem
  rw [hdrain] at h
  split at h
  · rcases finish_cases way w' with ⟨attempt, hfinish⟩ | ⟨f', hfinish, -⟩
    · rw [hfinish] at h
      cases h
      exact Or.inr ⟨attempt, rfl⟩
    · rw [hfinish] at h
      cases h
  · cases h

theorem rule_serves (i : Name) : (rule i).Serves := by
  intro w hok _ hcount
  cases i with
  | fill way =>
      have hreturns := fill_returns hok
      change (w.fd way.source).readCount =
        ((w.fill way).1.fd way.source).readCount at hcount
      rw [← hcount] at hreturns
      simp at hreturns
  | drain way =>
      have hreturns := drain_returns hok
      change (w.fd way.sink).writeCount =
        ((w.drain way).1.fd way.sink).writeCount at hcount
      rw [← hcount] at hreturns
      rcases hreturns with hone | htwo
      · simp at hone
      · simp at htwo

/-- **The copy never waits busily.**  Whatever happens, the event loop does not
find a rule that stays interested and neither reads nor writes. -/
theorem run_never_busy (fd : Fd → FileDescriptor) (size : ℕ)
    (answers : List PollAnswer) :
    (run fd size answers).ended ≠ some (.error Rule.busyWait) := by
  intro hbusy
  rcases EventLoop.Loop.ended_error rule_serves hbusy with
    hpoll | ⟨i, w, hcallback⟩
  · simp [Rule.busyWait, pollFailure] at hpoll
  · cases i with
    | fill way =>
        have hmem := fill_fails hcallback
        simp [FileDescriptor.readFailures, Rule.busyWait] at hmem
    | drain way =>
        rcases drain_fails hcallback with hmem | ⟨attempt, hattempt⟩
        · simp [FileDescriptor.writeFailures, Rule.busyWait] at hmem
        · cases hattempt

end StreamCopy
end Sponge
