/-
Finally blocks run exactly once, and a try construct resumes at a handler at most once. The first is the
law of conservation for runs that end. For the second, each executed `PushTry` is followed by its number:
it is armed while its clauses are still to be asked, and disarmed for good when it resumes at a handler.
-/
import SlotVM.Proofs.Cleanup.Armed

namespace SlotVM

/-! ## Numbered tries -/

/-- The executed `PushTry` instructions of a run, numbered in the order of their execution. -/
structure Tries where
  /-- The function and the clauses of each. -/
  executed : List (Nat × List CatchClause)
  /-- Those whose clauses are still to be asked for a handler, the innermost first. -/
  armed : List Nat
  /-- Those that resumed at a handler, one for each time. -/
  resumed : List Nat

namespace Tries

/-- One more `PushTry` is executed. -/
def push (tries : Tries) (function : Nat) (catches : List CatchClause) : Tries where
  executed := tries.executed ++ [(function, catches)]
  armed := if catches.isEmpty then tries.armed else tries.executed.length :: tries.armed
  resumed := tries.resumed

/-- The numbers of a run that has come to `x`: those that are armed name the armed tries of `x` one by one,
and no number occurs twice. -/
structure Numbers (tries : Tries) (x : Machine) : Prop where
  armed : tries.armed.map (tries.executed[·]?) = x.armedTries.map some
  once : (tries.armed ++ tries.resumed).Nodup
  executed : ∀ n ∈ tries.armed ++ tries.resumed, n < tries.executed.length

namespace Numbers

variable {tries : Tries} {x y : Machine}

theorem push {function : Nat} {catches : List CatchClause} (h : tries.Numbers x)
    (armed : y.armedTries = (Transfer.unwind .empty catches).armed function ++ x.armedTries) :
    (tries.push function catches).Numbers y := by
  have hlt : ∀ n ∈ tries.armed ++ tries.resumed, n < (tries.executed ++ [(function, catches)]).length := by
    intro n hn
    have := h.executed n hn
    rw [List.length_append]; omega
  have hold : tries.armed.map ((tries.executed ++ [(function, catches)])[·]?) = x.armedTries.map some := by
    rw [← h.armed]
    refine List.map_congr_left ?_
    intro n hn
    exact List.getElem?_append_left (h.executed n (List.mem_append_left _ hn))
  cases catches with
  | nil =>
    constructor
    · rw [armed]; exact hold
    · exact h.once
    · exact hlt
  | cons c cs =>
    have fresh : tries.executed.length ∉ tries.armed ++ tries.resumed := by
      intro hn
      exact Nat.lt_irrefl _ (h.executed _ hn)
    constructor
    · rw [armed]
      simpa [Tries.push, Transfer.armed] using hold
    · exact List.nodup_cons.2 ⟨fresh, h.once⟩
    · intro n hn
      rcases List.mem_cons.1 hn with rfl | hn
      · simp [Tries.push]
      · exact hlt n hn

/-- The numbers of the armed tries that a transition leaves. -/
theorem split {given left : List (Nat × List CatchClause)} (h : tries.Numbers x)
    (armed : x.armedTries = given ++ left) : ∃ gone rest, tries.armed = gone ++ rest ∧
      rest.map (tries.executed[·]?) = left.map some := by
  have hmap := h.armed
  rw [armed, List.map_append] at hmap
  obtain ⟨gone, rest, hsplit, -, hrest⟩ := List.map_eq_append_iff.1 hmap
  exact ⟨gone, rest, hsplit, hrest⟩

theorem disarm {gone rest : List Nat} (h : tries.Numbers x) (armed : tries.armed = gone ++ rest)
    (left : rest.map (tries.executed[·]?) = y.armedTries.map some) :
    Numbers { tries with armed := rest } y := by
  have hsub : (rest ++ tries.resumed).Sublist (tries.armed ++ tries.resumed) := by
    rw [armed, List.append_assoc]
    exact List.sublist_append_right _ _
  constructor
  · exact left
  · exact h.once.sublist hsub
  · intro n hn
    exact h.executed n (hsub.subset hn)

/-- A try that resumes is not armed any more, so it does not resume again. -/
theorem resume {gone rest : List Nat} {n : Nat} (h : tries.Numbers x)
    (armed : tries.armed = gone ++ n :: rest)
    (left : rest.map (tries.executed[·]?) = y.armedTries.map some) :
    Numbers { tries with armed := rest, resumed := tries.resumed ++ [n] } y := by
  have hperm : (rest ++ (tries.resumed ++ [n])).Perm (n :: rest ++ tries.resumed) := by
    rw [← List.append_assoc]
    exact List.perm_append_singleton n _
  have hsub : (n :: rest ++ tries.resumed).Sublist (tries.armed ++ tries.resumed) := by
    rw [armed, List.append_assoc]
    exact List.sublist_append_right _ _
  constructor
  · exact left
  · exact hperm.nodup_iff.2 (h.once.sublist hsub)
  · intro k hk
    exact h.executed k (hsub.subset (hperm.subset hk))

end Numbers

end Tries

namespace Machine

variable {p : Program} {m m' : Machine} {log : List Event} {tries : Tries}

/-- A run in which every executed `PushTry` is followed by its number. The numbers that stay armed after a
transition are as many as the machine has armed tries, the outermost ones. -/
inductive Tracks (p : Program) (m : Machine) : List Event → Tries → Machine → Prop
  | start : Tracks p m [] ⟨[], [], []⟩ m
  | push {log tries x es y catches} (h : Tracks p m log tries x) (move : x.advance p = ⟨es, .ok y⟩)
      (executed : executedTries es = [(x.function, catches)]) (caught : caughtClauses es = []) :
      Tracks p m (log ++ es) (tries.push x.function catches) y
  /-- The try with the number `n` resumes at one of its handlers. -/
  | resume {log tries x es y gone n rest catches clause} (h : Tracks p m log tries x)
      (move : x.advance p = ⟨es, .ok y⟩) (executed : executedTries es = [])
      (caught : caughtClauses es = [clause]) (armed : tries.armed = gone ++ n :: rest)
      (left : rest.length = y.armedTries.length) (of : tries.executed[n]? = some (y.function, catches))
      (clause_mem : clause ∈ catches) :
      Tracks p m (log ++ es) { tries with armed := rest, resumed := tries.resumed ++ [n] } y
  | other {log tries x es y gone rest} (h : Tracks p m log tries x) (move : x.advance p = ⟨es, .ok y⟩)
      (executed : executedTries es = []) (caught : caughtClauses es = [])
      (armed : tries.armed = gone ++ rest) (left : rest.length = y.armedTries.length) :
      Tracks p m (log ++ es) { tries with armed := rest } y

/-- The numbers are those of all executed `PushTry` instructions. -/
theorem Tracks.executed (h : Tracks p m log tries m') : tries.executed = executedTries log := by
  induction h with
  | start => rfl
  | push h move executed caught ih => rw [executedTries_append, ← ih, executed]; rfl
  | resume h move executed caught armed left of clause_mem ih =>
    rw [executedTries_append, ← ih, executed, List.append_nil]
  | other h move executed caught armed left ih => rw [executedTries_append, ← ih, executed, List.append_nil]

/-- Some try resumes each time that an error is caught. -/
theorem Tracks.resumed_length (h : Tracks p m log tries m') :
    tries.resumed.length = (caughtClauses log).length := by
  induction h with
  | start => rfl
  | push h move executed caught ih | other h move executed caught armed left ih =>
    rw [caughtClauses_append, caught, List.append_nil]
    exact ih
  | resume h move executed caught armed left of clause_mem ih =>
    rw [caughtClauses_append, caught, List.length_append, List.length_append, ih]; rfl

/-- Every run that begins without armed tries can be followed, and no number resumes twice. -/
theorem Run.tracked (run : m.Run p log m') (valid : p.Valid) (reach : Reachable p m)
    (none_armed : m.armedTries = []) : ∃ tries, Tracks p m log tries m' ∧ tries.Numbers m' := by
  induction run with
  | refl => exact ⟨_, .start, by rw [none_armed]; rfl, .nil, by simp⟩
  | @step log es x y run running move ih =>
    obtain ⟨tries, h, numbers⟩ := ih
    rcases (advance_move move).asks ((run.reachable reach).wellFormed valid) running with asks | push
    · cases asks with
      | resumes given executed caught armed clause_mem top =>
        obtain ⟨gone, rest, hsplit, hrest⟩ := numbers.split armed
        obtain ⟨n, rest, rfl, hn, hrest⟩ := List.map_eq_cons_iff.1 hrest
        have hlen : rest.length = y.armedTries.length := by simpa using congrArg List.length hrest
        exact ⟨_, .resume h move executed caught hsplit hlen hn clause_mem, numbers.resume hsplit hrest⟩
      | disarms executed caught armed =>
        obtain ⟨given, armed⟩ := armed
        obtain ⟨gone, rest, hsplit, hrest⟩ := numbers.split armed.symm
        have hlen : rest.length = y.armedTries.length := by simpa using congrArg List.length hrest
        exact ⟨_, .other h move executed caught hsplit hlen, numbers.disarm hsplit hrest⟩
    · obtain ⟨catches, executed, caught, armed⟩ := push
      exact ⟨_, .push h move executed caught, numbers.push armed⟩

/-! ## The law -/

/-- What holds of finally blocks and handlers when a run with the given log has come to `x`. -/
structure Accounted (p : Program) (m : Machine) (log : List Event) (x : Machine) : Prop where
  /-- Every finally range that was pushed has been begun or is still held by a try frame, and only one of
  the two, once. -/
  cleanups : (pushedCleanups log).Perm (begunCleanups log ++ heldCleanups x.stack.kinds)
  ended : x.halted = true → (pushedCleanups log).Perm (begunCleanups log)
  /-- No executed `PushTry` has resumed twice, and one that has resumed is not armed any more. -/
  resumed : ∃ tries, Tracks p m log tries x ∧ tries.Numbers x ∧ tries.executed = executedTries log ∧
    tries.resumed.length = (caughtClauses log).length ∧ tries.resumed.Nodup
  /-- The frame that is left for a handler holds neither clauses nor a finally block. -/
  bare : ∀ es y, x.halted = false → x.advance p = ⟨es, .ok y⟩ → caughtClauses es ≠ [] →
    ∃ scope, y.stack.top? = some ⟨scope, .attempt [] none⟩

/-- At every moment of every run of a valid program, finally blocks and handlers are accounted for. -/
theorem cleanups_once {p : Program} {m m₀ x : Machine} {args : List String} {log : List Event}
    (valid : p.Valid) (reach : Reachable p m) (start : m.start args = .ok m₀) (run : m₀.Run p log x) :
    Accounted p m₀ log x := by
  have reach₀ : Reachable p m₀ := reach.start start
  obtain ⟨halted, rfl⟩ := start_ok start
  have kinds := kinds_started halted args
  have cleanups := run.cleanups valid reach₀ (by rw [kinds]; rfl)
  constructor
  · exact cleanups
  · intro ended
    rw [Stack.kinds_eq_nil_iff.2 ended] at cleanups
    simpa [heldCleanups] using cleanups
  · obtain ⟨tries, h, numbers⟩ := run.tracked valid reach₀ (by unfold armedTries; rw [kinds]; rfl)
    exact ⟨tries, h, numbers, h.executed, h.resumed_length, (List.nodup_append.1 numbers.once).2.1⟩
  · intro es y running move caught
    rcases (advance_move move).asks ((run.reachable reach₀).wellFormed valid) running with asks | push
    · cases asks with
      | resumes given executed caught armed clause_mem top => exact ⟨_, top⟩
      | disarms executed none_caught armed => exact absurd none_caught caught
    · obtain ⟨catches, executed, none_caught, armed⟩ := push
      exact absurd none_caught caught

/-- A program whose try construct runs its finally block on the way to its handler. -/
def caughtAfterCleanup : Program :=
  ⟨#[⟨"main", 1, #[.assign 0 (.integer 7), .pushTry [⟨.any, 4⟩] (some ⟨3, 4⟩), .throw 0, .nop, .popFrame]⟩]⟩

/-- Its run ends, with the finally block begun once and the error caught once. -/
theorem cleanups_once_caught : ∃ log x, caughtAfterCleanup.Valid ∧
    (ready caughtAfterCleanup).start [] = .ok ((ready caughtAfterCleanup).started []) ∧
    ((ready caughtAfterCleanup).started []).Run caughtAfterCleanup log x ∧ x.halted = true ∧
    begunCleanups log = [(0, ⟨3, 4⟩)] ∧ caughtClauses log = [⟨.any, 4⟩] ∧
    Accounted caughtAfterCleanup ((ready caughtAfterCleanup).started []) log x := by
  have valid : caughtAfterCleanup.Valid := by decide
  have thrown : ((ready caughtAfterCleanup).started []).Run caughtAfterCleanup _ _ :=
    ((Run.refl.step rfl rfl).step rfl rfl).step rfl rfl
  have handled := ((thrown.step rfl rfl).step rfl rfl).step rfl rfl
  have ended := (handled.step rfl rfl).step rfl rfl
  exact ⟨_, _, valid, rfl, ended, rfl, rfl, rfl, cleanups_once valid .ready rfl ended⟩

end Machine

end SlotVM
