import Sponge.EventLoop.FileDescriptor

/-!
# The event loop

`EventLoop` polls the descriptors of its rules and calls back the rules whose
descriptors are ready.  A rule has a name, and `rule` tells what it does; the
rules that were added and not cancelled are a list of names.

The callbacks work on one world `W`, in which they find the descriptors too.
What `poll` answers is an argument.  A call that throws ends the loop, and what
was cancelled in it before that is not remembered.  No `cancel` callback of the
program throws.
-/

namespace Sponge

/-- `Direction::In` and `Direction::Out`. -/
inductive Direction where
  | pollIn
  | pollOut
deriving DecidableEq

structure Rule (W : Type*) where
  fd : W → FileDescriptor
  direction : Direction
  callback : W → W × Except Failure Unit
  interest : W → Bool := fun _ => true
  cancel : W → W := id

namespace Rule

variable {W : Type*}

def serviceCount (r : Rule W) (w : W) : UInt32 :=
  match r.direction with
  | .pollIn => (r.fd w).readCount
  | .pollOut => (r.fd w).writeCount

/-- Nothing more can be read by the rule, or its descriptor was closed. -/
def expired (r : Rule W) (w : W) : Bool :=
  (r.direction = .pollIn && (r.fd w).eof) || (r.fd w).closed

/-- The failure that stands for a loop in which nothing happens. -/
def busyWait : Failure :=
  .exception (.runtimeError ("EventLoop: busy wait detected: callback did " ++
    "not read/write fd and is still interested"))

/-- The callback, and the check that it has done something. -/
def call (r : Rule W) (w : W) : W × Except Failure Unit :=
  match r.callback w with
  | (w', .error e) => (w', .error e)
  | (w', .ok ()) =>
      if r.serviceCount w = r.serviceCount w' ∧ r.interest w' then
        (w', .error busyWait)
      else (w', .ok ())

theorem fst_call (r : Rule W) (w : W) : (r.call w).1 = (r.callback w).1 := by
  unfold call
  rcases r.callback w with ⟨w', e | ⟨⟩⟩
  · rfl
  · dsimp only
    split <;> rfl

/-- A call that returns has read or written, or the rule has lost its
interest. -/
def Serves (r : Rule W) : Prop :=
  ∀ w, (r.callback w).2 = .ok () → r.interest (r.callback w).1 = true →
    r.serviceCount w ≠ r.serviceCount (r.callback w).1

/-- A rule that serves its descriptor throws only what its callback throws. -/
theorem Serves.call_error {r : Rule W} (h : r.Serves) {w : W} {e : Failure}
    (he : (r.call w).2 = .error e) : (r.callback w).2 = .error e := by
  have hserves := h w
  unfold call at he
  rcases hcall : r.callback w with ⟨w', e' | ⟨⟩⟩
  · rw [hcall] at he
    exact he
  · rw [hcall] at he hserves
    dsimp only at he
    split at he
    · rename_i hbusy
      exact absurd hbusy.1 (hserves rfl hbusy.2)
    · cases he

end Rule

/-- What is thrown if `poll` reports an error. -/
def pollFailure : Failure :=
  .exception (.runtimeError "EventLoop: error on polled file descriptor")

/-- What `poll` reports for one descriptor. -/
structure Revents where
  pollIn : Bool := false
  pollOut : Bool := false
  pollErr : Bool := false
  pollHup : Bool := false
  pollNval : Bool := false
deriving DecidableEq

def Revents.has (r : Revents) : Direction → Bool
  | .pollIn => r.pollIn
  | .pollOut => r.pollOut

/-- What `poll` answers: nothing is ready in time, the call was interrupted by a
signal or failed otherwise, or some descriptors are ready. -/
inductive PollAnswer where
  | timeout
  | interrupted
  | failed
  | ready (revents : List Revents)
deriving DecidableEq

/-- What is reported for each descriptor.  When `poll` fails the source goes on
with what it had, which is nothing. -/
def PollAnswer.revents : PollAnswer → List Revents
  | .ready revents => revents
  | _ => []

namespace EventLoop

inductive Result where
  | success
  | timeout
  | exit
deriving DecidableEq

variable {ι W : Type*} (rule : ι → Rule W)

/-- The first loop: the rules that are left, each with the event that it is
polled for, if it is interested. -/
def setUp : List ι → W → W × List (ι × Option Direction)
  | [], w => (w, [])
  | i :: rules, w =>
      if (rule i).expired w then setUp rules ((rule i).cancel w)
      else
        let events :=
          if (rule i).interest w then some (rule i).direction else none
        let (w, polled) := setUp rules w
        (w, (i, events) :: polled)

/-- The second loop, over what was polled and the answers; the rules that are
left are returned. -/
def serve : List (ι × Option Direction) → List Revents → W →
    W × Except Failure (List ι)
  | [], _, w => (w, .ok [])
  | (i, events) :: polled, revents, w =>
      let this := revents.headD {}
      if this.pollErr ∨ this.pollNval then
        (w, .error pollFailure)
      else
        let pollReady := events.any this.has
        if this.pollHup ∧ events.isSome ∧ ¬pollReady then
          serve polled revents.tail ((rule i).cancel w)
        else
          match if pollReady then (rule i).call w else (w, .ok ()) with
          | (w, .error e) => (w, .error e)
          | (w, .ok ()) =>
              let (w, rest) := serve polled revents.tail w
              (w, rest.map (i :: ·))

def waitNextEvent (rules : List ι) (answer : PollAnswer) (w : W) :
    W × Except Failure (List ι × Result) :=
  let (w, polled) := setUp rule rules w
  if polled.all (·.2.isNone) then (w, .ok (polled.map Prod.fst, .exit))
  else
    match answer with
    | .timeout => (w, .ok (polled.map Prod.fst, .timeout))
    | .interrupted => (w, .ok (polled.map Prod.fst, .exit))
    | _ =>
        let (w, rules) := serve rule polled answer.revents w
        (w, rules.map (·, .success))

/-- A program that waits for the next event until there is none, or until an
exception is thrown. -/
structure Loop (ι W : Type*) where
  rules : List ι
  world : W
  ended : Option (Except Failure Unit) := none

def Loop.step (l : Loop ι W) (answer : PollAnswer) : Loop ι W :=
  if l.ended.isSome then l
  else
    match waitNextEvent rule l.rules answer l.world with
    | (w, .error e) => { l with world := w, ended := some (.error e) }
    | (w, .ok (rules, result)) =>
        { rules := rules
          world := w
          ended := if result = .exit then some (.ok ()) else none }

end EventLoop
end Sponge
