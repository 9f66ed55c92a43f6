import Sponge.EventLoop.Passes

/-!
# The life of a rule

What the event loop does with a rule: it calls it any number of times and
cancels it at most once, which is the last thing it does with it.  To say so,
the rules are made to write down what is done with them; nothing else depends on
what they write.
-/

namespace Sponge
namespace EventLoop

open Support

variable {ι W : Type*} {rule : ι → Rule W}

/-- What is done with a rule. -/
inductive Deed (ι : Type*) where
  | called (i : ι)
  | cancelled (i : ι)
deriving DecidableEq

def Deed.name : Deed ι → ι
  | .called i => i
  | .cancelled i => i

/-- The rules that write down what is done with them. -/
def logged (rule : ι → Rule W) (i : ι) : Rule (W × List (Deed ι)) where
  fd w := (rule i).fd w.1
  direction := (rule i).direction
  callback w :=
    let (w', result) := (rule i).callback w.1
    ((w', w.2 ++ [.called i]), result)
  interest w := (rule i).interest w.1
  cancel w := ((rule i).cancel w.1, w.2 ++ [.cancelled i])

/-! ## Writing things down changes nothing -/

theorem fst_setUp_logged (rule : ι → Rule W) (rules : List ι)
    (w : W × List (Deed ι)) :
    (setUp (logged rule) rules w).1.1 = (setUp rule rules w.1).1 ∧
      (setUp (logged rule) rules w).2 = (setUp rule rules w.1).2 := by
  induction rules generalizing w with
  | nil => exact ⟨rfl, rfl⟩
  | cons i rules ih =>
      have hexpired : ((logged rule) i).expired w = (rule i).expired w.1 := rfl
      unfold setUp
      rw [hexpired]
      by_cases h : (rule i).expired w.1 = true
      · rw [if_pos h, if_pos h]
        exact ih _
      · rw [if_neg h, if_neg h]
        obtain ⟨hworld, hpolled⟩ := ih w
        refine ⟨hworld, ?_⟩
        dsimp only
        rw [hpolled]
        rfl

theorem call_logged (i : ι) (w : W × List (Deed ι)) :
    ((logged rule) i).call w =
      ((((rule i).call w.1).1, w.2 ++ [.called i]),
        ((rule i).call w.1).2) := by
  have hcallback : ((logged rule) i).callback w =
      ((((rule i).callback w.1).1, w.2 ++ [.called i]),
        ((rule i).callback w.1).2) := rfl
  unfold Rule.call
  rw [hcallback]
  rcases (rule i).callback w.1 with ⟨w', e | ⟨⟩⟩
  · rfl
  · by_cases hbusy : (rule i).serviceCount w.1 = (rule i).serviceCount w' ∧
        (rule i).interest w' = true
    · dsimp only
      rw [if_pos hbusy]
      exact if_pos hbusy
    · dsimp only
      rw [if_neg hbusy]
      exact if_neg hbusy

theorem fst_serve_logged (rule : ι → Rule W)
    (polled : List (ι × Option Direction))
    (revents : List Revents) (w : W × List (Deed ι)) :
    (serve (logged rule) polled revents w).1.1 =
        (serve rule polled revents w.1).1 ∧
      (serve (logged rule) polled revents w).2 =
        (serve rule polled revents w.1).2 := by
  induction polled generalizing revents w with
  | nil => exact ⟨rfl, rfl⟩
  | cons entry polled ih =>
      obtain ⟨i, events⟩ := entry
      unfold serve
      dsimp only
      split
      · exact ⟨rfl, rfl⟩
      split
      · exact ih _ _
      by_cases hready : events.any (revents.headD {}).has = true
      · rw [if_pos hready, if_pos hready, call_logged]
        rcases (rule i).call w.1 with ⟨w', e | ⟨⟩⟩
        · exact ⟨rfl, rfl⟩
        · obtain ⟨hworld, hrules⟩ := ih revents.tail (w', w.2 ++ [.called i])
          refine ⟨hworld, ?_⟩
          dsimp only
          rw [hrules]
      · rw [if_neg hready, if_neg hready]
        obtain ⟨hworld, hrules⟩ := ih revents.tail w
        refine ⟨hworld, ?_⟩
        dsimp only
        rw [hrules]

theorem fst_waitNextEvent_logged (rule : ι → Rule W) (rules : List ι)
    (answer : PollAnswer)
    (w : W × List (Deed ι)) :
    (waitNextEvent (logged rule) rules answer w).1.1 =
        (waitNextEvent rule rules answer w.1).1 ∧
      (waitNextEvent (logged rule) rules answer w).2 =
        (waitNextEvent rule rules answer w.1).2 := by
  obtain ⟨hworld, hpolled⟩ := fst_setUp_logged rule rules w
  have hserve := fst_serve_logged rule
    (setUp (logged rule) rules w).2 answer.revents
    (setUp (logged rule) rules w).1
  rw [hworld, hpolled] at hserve
  obtain ⟨hworld', hrules⟩ := hserve
  unfold waitNextEvent
  dsimp only
  rw [hpolled]
  split
  · exact ⟨hworld, rfl⟩
  split
  · exact ⟨hworld, rfl⟩
  · exact ⟨hworld, rfl⟩
  · exact ⟨hworld', by rw [hrules]⟩

/-- The loop without what its rules have written down. -/
def Loop.forget (l : Loop ι (W × List (Deed ι))) : Loop ι W :=
  { rules := l.rules, world := l.world.1, ended := l.ended }

theorem forget_step (l : Loop ι (W × List (Deed ι))) (answer : PollAnswer) :
    (l.step (logged rule) answer).forget = l.forget.step rule answer := by
  obtain ⟨hworld, hresult⟩ :=
    fst_waitNextEvent_logged rule l.rules answer l.world
  unfold Loop.step
  by_cases hended : l.ended.isSome = true
  · rw [if_pos hended]
    exact (if_pos hended).symm
  · rw [if_neg hended]
    refine Eq.trans ?_ (if_neg hended).symm
    rcases hplain : waitNextEvent rule l.forget.rules answer l.forget.world
      with ⟨w', result⟩
    rcases hlogged : waitNextEvent (logged rule) l.rules answer l.world with
      ⟨⟨w'', log⟩, result'⟩
    rw [show waitNextEvent rule l.rules answer l.world.1 = _ from hplain,
      hlogged] at hworld hresult
    dsimp only at hworld hresult
    subst hworld hresult
    rcases result' with e | ⟨rules', result⟩
    · rfl
    · rfl

theorem forget_run (rules : List ι) (w : W) (answers : List PollAnswer) :
    (answers.foldl (Loop.step (logged rule)) ⟨rules, (w, []), none⟩).forget =
      answers.foldl (Loop.step rule) ⟨rules, w, none⟩ := by
  induction answers using List.reverseRecOn with
  | nil => rfl
  | append_singleton answers answer ih =>
      rw [List.foldl_append, List.foldl_append, ← ih]
      exact forget_step _ answer

/-! ## What is written down -/

variable [DecidableEq ι]

/-- What was done with one rule. -/
def deedsOf (i : ι) (log : List (Deed ι)) : List (Deed ι) :=
  log.filter fun deed => deed.name = i

/-- The rule has been called some times and, if it is not installed any more,
then cancelled. -/
def Lived (installed : Set ι) (i : ι) (log : List (Deed ι)) : Prop :=
  (i ∈ installed ∧ ∃ n, deedsOf i log = List.replicate n (.called i)) ∨
    (i ∉ installed ∧
      ∃ n, deedsOf i log = List.replicate n (.called i) ++ [.cancelled i])

theorem Lived.other {installed : Set ι} {i : ι} {log : List (Deed ι)}
    (h : Lived installed i log) (deed : Deed ι) (hdeed : deed.name ≠ i)
    {installed' : Set ι} (hsame : i ∈ installed' ↔ i ∈ installed) :
    Lived installed' i (log ++ [deed]) := by
  have hdeeds : deedsOf i (log ++ [deed]) = deedsOf i log := by
    simp [deedsOf, List.filter_append, hdeed]
  unfold Lived
  rw [hsame, hdeeds]
  exact h

theorem lived_invariant (rule : ι → Rule W) (rules : List ι) :
    Reactor.Invariant (reactor (logged rule)) (fun _ => True)
      (fun installed w => ∀ i ∈ rules, Lived installed i w.2)
      (fun _ _ => True) where
  cancel := by
    intro installed w i hw hinstalled _ j hj
    by_cases hne : i = j
    · subst hne
      rcases hw i hj with ⟨-, n, hn⟩ | ⟨hnot, -⟩
      · refine Or.inr ⟨fun hmem => hmem.2 rfl, n, ?_⟩
        have hdeeds : deedsOf i (w.2 ++ [.cancelled i]) =
            deedsOf i w.2 ++ [.cancelled i] := by
          simp [deedsOf, List.filter_append, Deed.name]
        exact hdeeds.trans (by rw [hn])
      · exact absurd hinstalled hnot
    · refine (hw j hj).other (.cancelled i) hne ?_
      simp [Ne.symm hne]
  arm := by
    intros
    trivial
  call := by
    intro installed w i hw hinstalled _ j hj
    by_cases hne : i = j
    · subst hne
      rcases hw i hj with ⟨-, n, hn⟩ | ⟨hnot, -⟩
      · refine Or.inl ⟨hinstalled, n + 1, ?_⟩
        have hdeeds : deedsOf i (w.2 ++ [.called i]) =
            deedsOf i w.2 ++ [.called i] := by
          simp [deedsOf, List.filter_append, Deed.name]
        rw [List.replicate_succ', ← hn]
        exact hdeeds
      · exact absurd hinstalled hnot
    · exact (hw j hj).other (.called i) hne Iff.rfl
  armed_cancel := by
    intros
    trivial
  armed_call := by
    intros
    trivial

/-- **The life of a rule.**  For all rules and all answers of `poll`, the rules
that the loop still has were called and never cancelled; each rule that it no
longer has was cancelled exactly once, and never called after that.  Also when a
callback throws, no rule has been cancelled twice or called after it was
cancelled. -/
theorem run_rule_life {rules : List ι} (hnodup : rules.Nodup) (w : W)
    (answers : List PollAnswer) :
    let l := answers.foldl (Loop.step rule) ⟨rules, w, none⟩
    let l' := answers.foldl (Loop.step (logged rule)) ⟨rules, (w, []), none⟩
    l'.forget = l ∧ ∀ i ∈ rules,
      (∃ n, deedsOf i l'.world.2 = List.replicate n (.called i) ∨
        deedsOf i l'.world.2 =
          List.replicate n (.called i) ++ [.cancelled i]) ∧
      ((∀ e, l.ended ≠ some (.error e)) →
        (.cancelled i ∈ l'.world.2 ↔ i ∉ l.rules)) := by
  intro l l'
  have hforget : l'.forget = l := forget_run rules w answers
  have hstart : ∀ i ∈ rules, Lived {j | j ∈ rules} i [] :=
    fun i hi => Or.inl ⟨hi, 0, rfl⟩
  have hevery : EveryStep (Loop.step (logged rule)) ⟨rules, (w, []), none⟩
      answers (Loop.HangUpsIn (logged rule) fun _ => True) :=
    fun _ _ _ _ _ => trivial
  obtain ⟨⟨installed, hany⟩, hrest⟩ :=
    Loop.invariant (lived_invariant rule rules) hnodup hstart hevery
  refine ⟨hforget, ?_⟩
  intro i hi
  refine ⟨?_, ?_⟩
  · rcases hany i hi with ⟨-, n, hn⟩ | ⟨-, n, hn⟩
    · exact ⟨n, Or.inl hn⟩
    · exact ⟨n, Or.inr hn⟩
  · intro hno
    have hrules : l'.rules = l.rules := congrArg Loop.rules hforget
    have hended : l'.ended = l.ended := congrArg Loop.ended hforget
    have hmem : .cancelled i ∈ l'.world.2 ↔
        .cancelled i ∈ deedsOf i l'.world.2 := by
      simp [deedsOf, Deed.name]
    rw [← hrules, hmem]
    rw [← hended] at hno
    rcases hrest hno i hi with ⟨hinstalled, n, hn⟩ | ⟨hgone, n, hn⟩
    · rw [hn]
      simp only [List.mem_replicate, reduceCtorEq, and_false, false_iff,
        not_not]
      exact hinstalled
    · rw [hn]
      simp only [List.mem_append, List.mem_singleton, or_true, true_iff]
      exact hgone

/-- A rule for a descriptor that reaches its end. -/
def lastRead (_ : Unit) : Rule FileDescriptor where
  fd := id
  direction := .pollIn
  callback f := ((f.read 1).1, .ok ())

/-- The descriptor is at its end when it is read, and then there is nothing to
poll. -/
def lastReadRun : Loop Unit FileDescriptor :=
  [.ready [{ pollIn := true }], .timeout].foldl (Loop.step lastRead)
    ⟨[()], { reads := [some []] }, none⟩

theorem lastRead_life :
    lastReadRun.rules = [] ∧
      (.cancelled () ∈ ([.ready [{ pollIn := true }], .timeout].foldl
          (Loop.step (logged lastRead))
          ⟨[()], ({ reads := [some []] }, []), none⟩).world.2 ↔
        () ∉ lastReadRun.rules) :=
  ⟨by decide, ((@run_rule_life _ _ lastRead _ _ (by decide) _ _).2 ()
    (by decide)).2 (by
      intro e
      have hended : lastReadRun.ended = some (.ok ()) := by decide
      exact hended ▸ by simp)⟩

end EventLoop
end Sponge
