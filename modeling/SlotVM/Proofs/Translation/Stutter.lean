/-
Alike machines that are not in lockstep. The other program may be at a `Nop` before an instruction; it executes
that one first and catches up. So each of two runs is followed by the other one (`Alike.follows`,
`Alike.precedes`), and both come to a fault or none of them does.
-/
import SlotVM.Proofs.Machine.Whole
import SlotVM.Proofs.Translation.Lockstep

namespace SlotVM

/-- Corresponding places have the same instruction, or the second one is that of a `Nop` before it. -/
def Translation.Waits (T : Translation) (p' : Program) : Prop :=
  ∀ f a b, T.place f a b → T.code f a b ∨ p'.At f b .nop ∧ T.code f a (b + 1)

namespace Machine

variable {T : Translation} {p p' : Program} {m m' x x' : Machine} {log log' : List Event} {args : List String}

namespace Alike

theorem runs (h : m.Alike T m') (sound : T.Sound p p') (wf : m.WellFormed p) (running : m.halted = false)
    (runs : m.Runs) : m'.Runs where
  settled := by rw [h.pending.isActive_eq]; exact runs.settled
  inside := by
    intro r' outer' hr' ended
    have hregions := h.regions
    rw [hr'] at hregions
    cases hm : m.regions with
    | nil => rw [hm] at hregions; cases hregions
    | cons r outer =>
      rw [hm] at hregions
      cases hregions with
      | cons hr _ =>
        have top := wf.top_of_running running
        exact runs.inside r outer hm ((h.ends_iff sound wf top (by simp [hm]) hr).1 ended)

/-- Two alike machines take a transition each, or only the second one does, and executes a `Nop`. -/
theorem advance_or_wait (h : m.Alike T m') (sound : T.Sound p p') (waits : T.Waits p') (wf : m.WellFormed p)
    (running : m.halted = false) :
    Transition.Alike T (m.advance p) (m'.advance p') ∨
      ∃ es, m'.advance p' = ⟨es, .ok m'.next⟩ ∧ m.Alike T m'.next ∧
        Transition.Alike T (m.advance p) (m'.next.advance p') := by
  by_cases runs : m.Runs
  · rcases waits _ _ _ h.pc with code | ⟨⟨f, hf, hi⟩, code⟩
    · exact .inl (h.advance sound wf running fun _ => code)
    · have next : m.Alike T m'.next := { h with pc := sound.code code }
      refine .inr ⟨[.executing m'.function m'.pc .nop], ?_, next, next.advance sound wf running fun _ => code⟩
      rw [(h.runs sound wf running runs).advance]
      simp only [Machine.execute, h.function, hf, hi]
      rfl
  · exact .inl (h.advance sound wf running fun r => absurd r runs)

/-- The second machine catches up. -/
theorem catchUp (h : m.Alike T m') (sound : T.Sound p p') (waits : T.Waits p') (wf : m.WellFormed p)
    (running : m.halted = false) : ∃ log x', m'.Run p' log x' ∧ x'.halted = false ∧
      Transition.Alike T (m.advance p) (x'.advance p') := by
  have running' : m'.halted = false := h.halted_eq.trans running
  rcases h.advance_or_wait sound waits wf running with step | ⟨es, wait, next, step⟩
  · exact ⟨[], m', .refl, running', step⟩
  · exact ⟨_, m'.next, .step .refl running' wait, next.halted_eq.trans running, step⟩

/-- What the first machine comes to, the second one does. -/
theorem follows (sound : T.Sound p p') (waits : T.Waits p') (valid : p.Valid) (reach : Reachable p m)
    (h : m.Alike T m') (run : m.Run p log x) : ∃ log' x', m'.Run p' log' x' ∧ x.Alike T x' := by
  induction run with
  | refl => exact ⟨[], m', .refl, h⟩
  | @step log es x y run running move ih =>
    obtain ⟨log₀, x₀, run₀, hx₀⟩ := ih
    obtain ⟨log₁, x₁, run₁, running₁, step⟩ := hx₀.catchUp sound waits ((run.reachable reach).wellFormed valid) running
    rw [Transition.Alike, move] at step
    generalize hr : (x₁.advance p').result = r at step
    cases step with
    | ok hy => exact ⟨_, _, (run₀.trans run₁).step running₁ (by rw [← hr]), hy⟩

/-- What the second machine comes to, the first one has come to or does. -/
theorem precedes (sound : T.Sound p p') (waits : T.Waits p') (valid : p.Valid) (reach : Reachable p m)
    (h : m.Alike T m') (run : m'.Run p' log' x') : ∃ log x, m.Run p log x ∧ x.Alike T x' := by
  induction run with
  | refl => exact ⟨[], m, .refl, h⟩
  | @step log' es' x' y' run' running' move' ih =>
    obtain ⟨log, x, run, hx⟩ := ih
    have running : x.halted = false := hx.halted_eq.symm.trans running'
    rcases hx.advance_or_wait sound waits ((run.reachable reach).wellFormed valid) running with step | ⟨es, wait, next, -⟩
    · rw [Transition.Alike, move'] at step
      generalize hr : (x.advance p).result = r at step
      cases step with
      | ok hy => exact ⟨_, _, run.step running (by rw [← hr]), hy⟩
    · rw [wait] at move'
      cases move'
      exact ⟨log, x, run, next⟩

end Alike

/-- Two runs that begin alike come to a fault both, or none of them does. -/
theorem faults_congr (sound : T.Sound p p') (waits : T.Waits p') (valid : p.Valid)
    (start : ((ready p).started args).Alike T ((ready p').started args)) : Faults p args ↔ Faults p' args := by
  have reach : Reachable p ((ready p).started args) := reachable_started
  rw [faults_iff, faults_iff]
  constructor
  · rintro ⟨log, x, f, run, running, fault⟩
    obtain ⟨log₀, x₀, run₀, hx₀⟩ := start.follows sound waits valid reach run
    obtain ⟨log₁, x₁, run₁, running₁, step⟩ := hx₀.catchUp sound waits ((run.reachable reach).wellFormed valid) running
    rw [Transition.Alike, fault] at step
    generalize hr : (x₁.advance p').result = r at step
    cases step with
    | fault f f' => exact ⟨_, x₁, f', run₀.trans run₁, running₁, hr⟩
  · rintro ⟨log', x', f', run', running', fault⟩
    obtain ⟨log, x, run, hx⟩ := start.precedes sound waits valid reach run'
    have running : x.halted = false := hx.halted_eq.symm.trans running'
    rcases hx.advance_or_wait sound waits ((run.reachable reach).wellFormed valid) running with step | ⟨es, wait, -, -⟩
    · rw [Transition.Alike, fault] at step
      generalize hr : (x.advance p).result = r at step
      cases step with
      | fault f f' => exact ⟨log, x, f, run, running, hr⟩
    · rw [wait] at fault
      cases fault

end Machine

end SlotVM
