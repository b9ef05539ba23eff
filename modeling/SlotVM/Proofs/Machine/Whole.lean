/-
Whole runs, from the start of the entry function. A run either goes on for ever, or ends in some machine, or
comes to a fault; `endsIn_iff` and `faults_iff` say the two last in terms of transitions.
-/
import SlotVM.Proofs.Machine.Reach

namespace SlotVM.Machine

/-- The run with these arguments ends in `m`, with this outcome. -/
def EndsIn (p : Program) (args : List String) (m : Machine) (outcome : Outcome) : Prop :=
  ∃ limit, ((ready p).run p ignore limit () args).2 = .ok (m, outcome)

/-- The run with these arguments comes to a fault. -/
def Faults (p : Program) (args : List String) : Prop :=
  ∃ limit f, (((ready p).started args).runUntil p ignore halted () limit).2 = .error f

variable {p : Program} {args : List String} {m x : Machine} {o : Outcome} {log : List Event}

/-- Enough transitions lead past a run. -/
theorem Run.runUntil (run : m.Run p log x) (stop : Machine → Bool) (goes : ∀ y, stop y = true → y.halted = true) :
    ∃ n, ∀ limit, m.runUntil p ignore stop () (n + limit) = x.runUntil p ignore stop () limit := by
  induction run with
  | refl => exact ⟨0, fun limit => by rw [Nat.zero_add]⟩
  | @step log es x y run running move ih =>
    obtain ⟨n, ih⟩ := ih
    refine ⟨n + 1, fun limit => ?_⟩
    have going : stop x = false := by
      cases hs : stop x with
      | false => rfl
      | true => rw [goes x hs] at running; cases running
    rw [show n + 1 + limit = n + (limit + 1) by omega, ih, Machine.runUntil, going, if_neg Bool.false_ne_true]
    simp only [move]

theorem runUntil_halted (halted : m.halted = true) (limit : Nat) :
    m.runUntil p ignore Machine.halted () limit = ((), .ok m) := by
  cases limit with
  | zero => rfl
  | succ limit => rw [Machine.runUntil, if_pos halted]

theorem reachable_started : Reachable p ((ready p).started args) := .start .ready rfl

/-- A run ends if transitions lead from the start to a machine that has halted. -/
theorem endsIn_iff : EndsIn p args m o ↔
    (∃ log, ((ready p).started args).Run p log m) ∧ m.halted = true ∧ m.outcome = .ok o := by
  have start : (ready p).start args = .ok ((ready p).started args) := rfl
  constructor
  · rintro ⟨limit, h⟩
    unfold Machine.run at h
    rw [start] at h
    dsimp only at h
    split at h
    · cases h
    · rename_i hrun
      split at h
      · cases h
      · rename_i houtcome
        cases h
        refine ⟨runUntil_run (fun _ _ hx => hx) reachable_started (congrArg Prod.snd hrun), ?_, houtcome⟩
        unfold outcome at houtcome
        split at houtcome
        · assumption
        · cases houtcome
  · rintro ⟨⟨log, run⟩, halted, outcome⟩
    obtain ⟨n, hn⟩ := run.runUntil Machine.halted fun _ h => h
    have limited := hn 0
    rw [runUntil_halted halted] at limited
    refine ⟨n, ?_⟩
    unfold Machine.run
    rw [start]
    dsimp only
    rw [show ignore () [Event.started] = () from rfl, show n = n + 0 from rfl, limited]
    dsimp only
    rw [outcome]

/-- A run comes to a fault if transitions lead from the start to a machine whose transition is one. -/
theorem faults_iff : Faults p args ↔
    ∃ log x f, ((ready p).started args).Run p log x ∧ x.halted = false ∧ (x.advance p).result = .error f := by
  constructor
  · rintro ⟨limit, f, h⟩
    obtain ⟨log, x, run, running, fault⟩ := runUntil_fault (fun _ _ hx => hx) reachable_started h
    exact ⟨log, x, f, run, running, fault⟩
  · rintro ⟨log, x, f, run, running, fault⟩
    obtain ⟨n, hn⟩ := run.runUntil Machine.halted fun _ h => h
    refine ⟨n + 1, f, ?_⟩
    rw [hn 1, Machine.runUntil, running, if_neg Bool.false_ne_true]
    simp only [fault]

end SlotVM.Machine
