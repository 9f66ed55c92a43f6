import Sponge.Network.Link
import Sponge.TCPConnection.Progress

/-!
# Two connections and the network between them

The network keeps every segment that an endpoint has put on the wire and may
deliver any of them at any time, again and again, or never: it loses, repeats
and reorders.  A step is an operation at one of the endpoints or a delivery to
one of them.
-/

namespace Sponge

open Support

inductive Side where
  | a
  | b
deriving DecidableEq

def Side.other : Side → Side
  | .a => .b
  | .b => .a

@[simp] theorem Side.other_other (side : Side) : side.other.other = side := by
  cases side <;> rfl

theorem Side.other_ne (side : Side) : side.other ≠ side := by
  cases side <;> decide

theorem Side.eq_or_eq_other (side x : Side) : x = side ∨ x = side.other := by
  cases side <;> cases x <;> decide

/-- The two endpoints. -/
abbrev Network := Side → Endpoint

namespace Network

/-- An operation at one side, or the delivery to it of the `k`-th segment that
the other side has put on the wire. -/
inductive Event where
  | act (side : Side) (op : Endpoint.Op)
  | deliver (side : Side) (k : ℕ)
deriving DecidableEq

def new (cfg : Side → TCPConfig) (random : Side → UInt32) : Network :=
  fun side => .new (cfg side) (random side)

def step (n : Network) : Event → Network
  | .act side op => Function.update n side ((n side).act op)
  | .deliver side k =>
      match (n side.other).wire[k]? with
      | none => n
      | some seg =>
          Function.update n side ((n side).receive seg.toTCPSegment)

def run (cfg : Side → TCPConfig) (random : Side → UInt32)
    (events : List Event) : Network :=
  events.foldl step (new cfg random)

/-- What a step does: nothing, an operation at one side, or the delivery of a
segment from the other side's wire. -/
theorem step_cases (n : Network) (event : Event) :
    n.step event = n ∨
      (∃ side op, event = .act side op ∧
        n.step event = Function.update n side ((n side).act op)) ∨
      ∃ side k seg, event = .deliver side k ∧
        (n side.other).wire[k]? = some seg ∧
        n.step event =
          Function.update n side ((n side).receive seg.toTCPSegment) := by
  cases event with
  | act side op => exact Or.inr (Or.inl ⟨side, op, rfl, rfl⟩)
  | deliver side k =>
      cases hseg : (n side.other).wire[k]? with
      | none => exact Or.inl (by simp only [step, hseg])
      | some seg =>
          exact Or.inr (Or.inr ⟨side, k, seg, rfl, hseg,
            by simp only [step, hseg]⟩)

/-- The numbers of a delivered segment are less than half the 32-bit range away
from the numbers against which they are unwrapped. -/
def DeliversNear (n : Network) : Event → Prop
  | .act _ _ => True
  | .deliver side k =>
      ∀ seg ∈ (n side.other).wire[k]?,
        Near seg.absSeqno (n side).conn.receiver.ackno ∧
          (seg.header.ack = true →
            Near seg.absAckno (n side).conn.sender.nextSeqno)

/-- No endpoint writes after its `end_input_stream`. -/
def NoLateWrite (n : Network) : Event → Prop
  | .act side op => (n side).NoLateWrite (.act op)
  | .deliver _ _ => True

instance (n : Network) (event : Event) : Decidable (n.DeliversNear event) := by
  cases event <;> dsimp only [DeliversNear] <;> infer_instance

instance (n : Network) : (event : Event) → Decidable (n.NoLateWrite event)
  | .act side op =>
      inferInstanceAs (Decidable ((n side).NoLateWrite (.act op)))
  | .deliver _ _ => inferInstanceAs (Decidable True)

/-! ## The joint invariant -/

/-- Each endpoint is linked to the other. -/
def Joined (cfg : Side → TCPConfig) (n : Network) : Prop :=
  ∃ o : Side → Outgoing, ∀ side,
    (n side).Linked (cfg side).recvCapacity (o side)
      ((n side.other).remote (o side.other))

theorem joined_new (cfg : Side → TCPConfig) (random : Side → UInt32) :
    Joined cfg (new cfg random) :=
  ⟨fun side => TCPSender.nothingSent ((cfg side).fixedIsn.getD ⟨random side⟩),
    fun side => Endpoint.linked_new (cfg side) (random side) _⟩

/-- What travels to an endpoint was sent by the other one. -/
theorem legit_of_wire {cfg : Side → TCPConfig} {n : Network}
    {o : Side → Outgoing}
    (h : ∀ x, (n x).Linked (cfg x).recvCapacity (o x)
      ((n x.other).remote (o x.other)))
    {side : Side} {k : ℕ} {seg : SentSegment}
    (hseg : (n side.other).wire[k]? = some seg) :
    Remote.Legit ((n side.other).remote (o side.other))
      ((n side).remote (o side)) seg := by
  have hlegit := (h side.other).segments seg
    (List.mem_append_right _ (List.mem_append_left _
      (List.mem_of_getElem? hseg)))
  rwa [Side.other_other] at hlegit

/-- When one endpoint advances, the other stays linked to it. -/
theorem Joined.update {cfg : Side → TCPConfig} {n : Network} {side : Side}
    {o : Side → Outgoing}
    (h : ∀ x, (n x).Linked (cfg x).recvCapacity (o x)
      ((n x.other).remote (o x.other)))
    {e : Endpoint}
    (hadvances : Endpoint.Advances (cfg side).recvCapacity
      ((n side.other).remote (o side.other)) (o side) (n side) e) :
    Joined cfg (Function.update n side e) := by
  obtain ⟨o', hlinked, hle⟩ := hadvances
  refine ⟨Function.update o side o', ?_⟩
  intro x
  rcases side.eq_or_eq_other x with rfl | rfl
  · simp only [Function.update_self, Function.update_of_ne x.other_ne]
    exact hlinked
  · simp only [Side.other_other, Function.update_self,
      Function.update_of_ne side.other_ne]
    have hother := h side.other
    rw [Side.other_other] at hother
    exact hother.mono hle

theorem Joined.step {cfg : Side → TCPConfig} {n : Network}
    (h : Joined cfg n) {event : Event} (hnear : n.DeliversNear event) :
    Joined cfg (n.step event) := by
  obtain ⟨o, h⟩ := h
  rcases n.step_cases event with
    hsame | ⟨side, op, rfl, hstep⟩ | ⟨side, k, seg, rfl, hseg, hstep⟩
  · rw [hsame]
    exact ⟨o, h⟩
  · rw [hstep]
    exact Joined.update h ((h side).act op)
  · rw [hstep]
    obtain ⟨hseqno, hackno⟩ := hnear seg hseg
    exact Joined.update h
      ((h side).receive (legit_of_wire h hseg) hseqno hackno)

theorem joined_run {cfg : Side → TCPConfig} {random : Side → UInt32}
    {events : List Event}
    (hnear : EveryStep step (new cfg random) events DeliversNear) :
    Joined cfg (run cfg random events) :=
  hnear.invariant (fun _ _ h hguard => h.step hguard) (joined_new cfg random)

/-- Without late writes a FIN is sent at the end of the stream and stays
there. -/
theorem drained_run {cfg : Side → TCPConfig} {random : Side → UInt32}
    {events : List Event}
    (hwrite : EveryStep step (new cfg random) events NoLateWrite)
    (side : Side) : (run cfg random events side).conn.sender.Drained := by
  refine hwrite.invariant
    (I := fun n : Network => ∀ side, (n side).conn.sender.Drained) ?_
    (fun side => Endpoint.drained_new (cfg side) (random side)) side
  intro n event h hguard
  have hupdate : ∀ (x : Side) (e : Endpoint), e.conn.sender.Drained →
      ∀ y, (Function.update n x e y).conn.sender.Drained := by
    intro x e he
    refine (Function.forall_update_iff n
      (p := fun _ e => e.conn.sender.Drained)).mpr ⟨he, fun y _ => h y⟩
  rcases n.step_cases event with
    hsame | ⟨x, op, rfl, hstep⟩ | ⟨x, k, seg, rfl, hseg, hstep⟩
  · rw [hsame]
    exact h
  · rw [hstep]
    exact hupdate x _ (Endpoint.drained_step (h x) hguard)
  · have hreceive : (n x).NoLateWrite (.receive seg.toTCPSegment) := trivial
    rw [hstep]
    exact hupdate x _ (Endpoint.drained_step (h x) hreceive)

end Network
end Sponge
