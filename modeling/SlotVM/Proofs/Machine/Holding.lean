/-
Where the values that a machine holds come from. A property of values that holds of all primitive values,
of the composites and functions that the instructions of a program name, and of functions with more
arguments applied to them, is kept by every transition: no instruction makes any other value.
-/
import SlotVM.Proofs.Computation
import SlotVM.Proofs.Operator.Outcome
import SlotVM.Proofs.Machine.Reach

namespace SlotVM

/-! ## Values of a program -/

/-- The value that is written in an assignment. -/
def Source.literal? : Source → Option Value
  | .integer n => some (.integer n)
  | .float x => some (.float x)
  | .char c => some (.char c)
  | .bool b => some (.bool b)
  | .string s => some (.string s)
  | .array elements => some (.array elements)
  | .tuple elements => some (.tuple elements)
  | .record fields => some (.record (Fields.ofList fields))
  | .function id => some (.function ⟨id, []⟩)
  | _ => none

/-- Whatever the instructions of `p` make of values with the property `P` has it too. -/
structure Program.Makes (p : Program) (P : Value → Prop) : Prop where
  primitive : ∀ v, v.IsPrimitive → P v
  literal : ∀ {function pc target source v}, p.At function pc (.assign target source) →
    source.literal? = some v → P v
  applied : ∀ {function pc target ref args c}, p.At function pc (.assign target (.apply ref args)) →
    P (.function c) → P (.function (c.apply args))

/-! ## Values of a machine -/

/-- The value that a transfer is to deliver. -/
def Transfer.value? : Transfer → Option Value
  | .ret value _ => value
  | _ => none

/-- The values of the parameters of a function frame have the property `P`. -/
def FrameKind.Holding (P : Value → Prop) (k : FrameKind) : Prop := ∀ c, k.call? = some c → ∀ v ∈ c.args, P v

/-- The values that a region sets aside have the property `P`. -/
structure Region.Holding (P : Value → Prop) (r : Region) : Prop where
  pending : ∀ v ∈ r.pending.error?, P v
  transfer : ∀ v ∈ r.transfer.value?, P v

/-- Every value that a machine holds has the property `P`. -/
structure Machine.Holding (P : Value → Prop) (m : Machine) : Prop where
  slots : ∀ ref v, m.slots.get? ref = some v → P v
  constants : ∀ id v, m.constants.get? id = some v → P v
  args : ∀ k ∈ m.stack.kinds, k.Holding P
  pending : ∀ v ∈ m.pending.error?, P v
  returned : ∀ v ∈ m.returned, P v
  regions : ∀ r ∈ m.regions, r.Holding P

variable {p : Program} {P : Value → Prop}

theorem Yields.orFault {α : Type} {Q : α → Prop} {c : Cause} {o : Option α} (h : ∀ a ∈ o, Q a)
    (hc : ∀ id, c ≠ .noFunction id) : Yields Q (Machine.orFault c o) := by
  cases o with
  | some a => exact h a rfl
  | none => exact hc

theorem Transfer.past_value? {t : Transfer} {f : Frame} {v : Value} (h : v ∈ (t.past f).value?) : v ∈ t.value? := by
  cases t with
  | ret value explicit => exact h
  | pop => exact h
  | unwind scope catches => cases hf : f.kind <;> simp [past, hf, value?] at h
  | exitLoop exit depth remaining => cases remaining <;> cases hf : f.kind <;> simp [past, hf, value?] at h

theorem Pending.error?_settle (e : Pending) : e.settle.error? = e.error? := by
  cases e <;> rfl

theorem Slots.read_eq_ok {s : Slots} {ref : Nat} {v : Value} : s.read ref = .ok v ↔ s.get? ref = some v := by
  unfold read
  split <;> simp_all

theorem Slots.mapM_read_eq_ok {s : Slots} {refs : List Nat} {values : List Value} :
    refs.mapM s.read = .ok values ↔ List.Forall₂ (fun ref v => s.get? ref = some v) refs values := by
  simp only [mapM_eq_ok_iff, read_eq_ok]

/-- Values that are read together are values of slots. -/
theorem Slots.mapM_read {s : Slots} {refs : List Nat} {values : List Value} (h : refs.mapM s.read = .ok values) :
    ∀ v ∈ values, ∃ ref, s.get? ref = some v := by
  intro v hv
  obtain ⟨ref, -, hr⟩ := exists_of_forall₂ (mapM_read_eq_ok.1 h).flip v hv
  exact ⟨ref, hr⟩

namespace Machine

variable {m m' : Machine} {es : List Event}

/-! ## Computations -/

namespace Holding

theorem mono {Q : Value → Prop} (h : m.Holding P) (hQ : ∀ v, P v → Q v) : m.Holding Q where
  slots ref v hv := hQ v (h.slots ref v hv)
  constants id v hv := hQ v (h.constants id v hv)
  args k hk c hc v hv := hQ v (h.args k hk c hc v hv)
  pending v hv := hQ v (h.pending v hv)
  returned v hv := hQ v (h.returned v hv)
  regions r hr := ⟨fun v hv => hQ v ((h.regions r hr).pending v hv), fun v hv => hQ v ((h.regions r hr).transfer v hv)⟩

theorem load (h : m.Holding P) (ref : Nat) : Yields P (m.load ref) := .read (h.slots ref)

theorem param (h : m.Holding P) (index : Nat) : Yields P (m.param index) := by
  have call : Yields (fun c => FrameKind.Holding P (.call c)) (ofCause (m.stack.callFrame m.frame)) := by
    unfold Stack.callFrame
    split
    · rename_i call hk
      rw [Stack.map_kind_get?] at hk
      exact h.args _ (List.mem_reverse.1 (List.mem_of_getElem? hk))
    · exact nofun
  exact call.bind fun c hc => .orFault (fun v hv => hc c rfl v (List.mem_of_getElem? hv)) nofun

theorem constant (h : m.Holding P) (id : Nat) : Yields P (ofCause (m.constants.read id)) := by
  unfold Constants.read
  split
  · rename_i v hv; exact h.constants id v hv
  · exact nofun

theorem fieldRef (h : m.Holding P) (ref : Nat) (name : String) : Yields (fun _ => True) (m.fieldRef ref name) := by
  refine (h.load ref).bind fun v _ => ?_
  split
  · exact .orFault (fun _ _ => trivial) nofun
  · exact nofun

theorem elementRef (h : m.Holding P) (ref position : Nat) :
    Yields (fun _ => True) (m.elementRef ref position) := by
  refine (h.load ref).bind fun v _ => ?_
  split
  · exact .orFault (fun _ _ => trivial) nofun
  · exact .orFault (fun _ _ => trivial) nofun
  · exact nofun

theorem indexRef (h : m.Holding P) (ref index : Nat) : Yields (fun _ => True) (m.indexRef ref index) := by
  refine (h.load ref).bind fun v _ => ?_
  split
  · refine (h.load index).bind fun w _ => ?_
    split
    · split <;> trivial
    · exact nofun
  · exact nofun

/-- What an assignment stores is made of values that the machine holds. -/
theorem evaluate (h : m.Holding P) (makes : p.Makes P) {function pc target : Nat} {source : Source}
    (at_ : p.At function pc (.assign target source)) : Yields (Computed.All P) (m.evaluate source) := by
  have literal : ∀ {v}, source.literal? = some v → Yields (Computed.All P) (.ok (.pure v)) := fun hv =>
    .ok (.pure (makes.literal at_ hv))
  cases source with
  | integer | float | char | bool | string | array | tuple | record | function => exact literal rfl
  | copy ref => exact (h.load ref).bind fun v hv => .pure hv
  | param index => exact (h.param index).bind fun v hv => .pure hv
  | field ref name => exact (h.fieldRef ref name).bind fun r _ => (h.load r).bind fun v hv => .pure hv
  | apply ref args =>
    refine (h.load ref).bind fun v hv => ?_
    split
    · exact .pure (makes.applied at_ hv)
    · exact nofun
  | binary left op right | unary op operand =>
    exact (op.execute_yields ..).mono fun c hc =>
      ⟨makes.primitive _ hc.1, fun ref v hv => makes.primitive _ (hc.2 ref v hv)⟩
  | element ref position => exact (h.elementRef ref position).bind fun r _ => (h.load r).bind fun v hv => .pure hv
  | index ref position => exact (h.indexRef ref position).bind fun r _ => (h.load r).bind fun v hv => .pure hv
  | constant id => exact (h.constant id).bind fun v hv => .pure hv
  | error => exact (Yields.orFault (c := .noError) h.pending nofun).bind fun v hv => .pure hv
  | named name =>
    have resolved : Yields (fun _ => True) (Machine.orFault (.unbound name) (m.stack.resolve? name)) :=
      .orFault (fun _ _ => trivial) nofun
    exact resolved.bind fun r _ => (h.load r).bind fun v hv => .pure hv

theorem fieldStore (h : m.Holding P) (ref : Nat) (name : String) (value : Nat) :
    Yields (fun s => P s.2) (m.fieldStore ref name value) :=
  (h.fieldRef ref name).bind fun _ _ => (h.load value).bind fun _ hv => hv

theorem indexStore (h : m.Holding P) (ref index value : Nat) :
    Yields (fun s => P s.2) (m.indexStore ref index value) :=
  (h.indexRef ref index).bind fun _ _ => (h.load value).bind fun _ hv => hv

theorem constantStore (h : m.Holding P) (id value : Nat) :
    Yields (fun constants => ∀ id v, constants.get? id = some v → P v) (m.constantStore id value) := by
  refine (h.load value).bind fun v hv => ?_
  unfold Constants.set Constants.set?
  split
  · rename_i constants hset
    split at hset
    · cases hset
    · cases hset
      intro j w hw
      unfold Constants.get? at hw
      rw [List.lookup_cons] at hw
      split at hw
      · cases hw; exact hv
      · exact h.constants j w hw
  · exact nofun

/-! ## Changes of a machine -/

theorem store (h : m.Holding P) {v : Value} (hv : P v) (ref : Nat) : (m.store ref v).Holding P :=
  { h with
    slots := by
      intro r w hw
      rw [show (m.store ref v).slots = m.slots.write ref v from rfl, Slots.get?_write] at hw
      split at hw
      · cases hw; exact hv
      · exact h.slots r w hw }

theorem storeComputed (h : m.Holding P) {c : Computed} (hc : c.All P) (target : Nat) :
    (m.storeComputed target c).Holding P := by
  unfold Machine.storeComputed Computed.store
  split
  · rename_i ref v hs
    exact (h.store (hc.2 ref v hs) ref).store hc.1 target
  · exact h.store hc.1 target

theorem throw (h : m.Holding P) {v : Value} (hv : P v) : (m.throw v).Holding P :=
  { h with pending := fun w hw => by cases hw; exact hv }

theorem pop (h : m.Holding P) {f : Frame} {rest : Stack} (top : m.stack = rest.push f) :
    { m with stack := rest }.Holding P :=
  { h with args := fun k hk => h.args k (by rw [top]; exact List.mem_cons_of_mem _ hk) }

theorem push (h : m.Holding P) {f : Frame} (hf : f.kind.Holding P) :
    { m with stack := m.stack.push f }.Holding P :=
  { h with
    args := by
      intro k hk
      rcases List.mem_cons.1 hk with rfl | hk
      · exact hf
      · exact h.args k hk }

theorem goBack (h : m.Holding P) (k : Option Continuation) : (m.goBack k).Holding P := by
  cases k <;> exact { h with }

theorem entered (h : m.Holding P) (range : Span) {t : Transfer} (ht : ∀ v ∈ t.value?, P v) :
    (m.entered range t).Holding P :=
  { h with
    pending := fun v hv => h.pending v (m.pending.error?_settle ▸ hv)
    regions := by
      intro r hr
      rcases List.mem_cons.1 hr with rfl | hr
      · exact ⟨h.pending, ht⟩
      · exact h.regions r hr }

theorem handling (h : m.Holding P) (scope : Scope) (clause : CatchClause) {error : Value} (he : P error) :
    (m.handling scope clause error).Holding P :=
  { h.push (f := ⟨scope, .attempt [] none⟩) nofun with
    pending := fun v hv => by cases hv; exact he }

theorem received (h : m.Holding P) (call : CallFrame) {value : Option Value} (hv : ∀ v ∈ value, P v)
    (k : Continuation) : (m.received call value k).Holding P := by
  unfold Machine.received
  dsimp only
  split
  · rename_i target v _
    exact { h.store (hv v rfl) target with returned := hv }
  · exact { h with returned := hv }

end Holding

/-! ## Transitions -/

theorem handler?_pending {catches : List CatchClause} {clause : CatchClause} {error : Value}
    (h : m.handler? catches = some (clause, error)) : error ∈ m.pending.error? := by
  unfold handler? at h
  obtain ⟨e, he, h⟩ := Option.bind_eq_some_iff.1 h
  obtain ⟨c, -, h⟩ := Option.map_eq_some_iff.1 h
  cases h
  exact he

theorem Carries.holding {t : Transfer} (go : m.Carries t es m') (h : m.Holding P) (ht : ∀ v ∈ t.value?, P v) :
    m'.Holding P := by
  induction go with
  | popped => exact { h with }
  | caught hh => exact h.handling _ _ (h.pending _ (handler?_pending hh))
  | uncaught => exact h
  | cleanup seeks room top kind => exact (h.pop top).entered _ fun v hv => ht v (Transfer.past_value? hv)
  | pass seeks room top passes go ih => exact ih (h.pop top) fun v hv => ht v (Transfer.past_value? hv)
  | abort seeks room top kind go ih => exact ih ((h.pop top).goBack _) nofun
  | left room top kind => exact { h.pop top with }
  | returned room top kind caller => exact (h.pop top).received _ ht _
  | ended room top kind caller => exact { h.pop top with returned := ht }

theorem Performs.holding {i : Instruction} (go : m.Performs p i es m') (h : m.Holding P) (makes : p.Makes P)
    (at_ : p.At m.function m.pc i) : m'.Holding P := by
  cases go with
  | assign hc => exact { h.storeComputed ((h.evaluate makes at_).of_ok hc) _ with }
  | setField hc => exact { h.store ((h.fieldStore ..).of_ok hc) _ with }
  | setIndex hc => exact { h.store ((h.indexStore ..).of_ok hc) _ with }
  | setConstant hc => exact { h with constants := (h.constantStore ..).of_ok hc }
  | raise => exact h.throw (makes.primitive _ trivial)
  | throw hv => exact h.throw (h.slots _ _ (Slots.read_eq_ok.1 hv))
  | @call target ref args function values hc =>
    obtain ⟨closure, g, -, -, -, hvs, -⟩ := callee_ok hc
    have frame : FrameKind.Holding P (.call ⟨function, values, some target,
        some ⟨m.function, m.frame, m.pc⟩⟩) := by
      intro c hk v hv
      cases hk
      obtain ⟨ref, hv⟩ := Slots.mapM_read hvs v hv
      exact h.slots ref v hv
    exact { h.push (f := .ofKind _) frame with }
  | bind hb => exact { h with args := fun k hk => h.args k (Stack.bind_kinds hb ▸ hk) }
  | @push i kind hk =>
    have frame : kind.Holding P := by
      intro c hc
      cases i <;> cases hk <;> cases hc
    exact { h.push (f := .ofKind kind) frame with }
  | pop room top => exact { h.pop top with }
  | popCleanup room top kind => exact (h.pop top).entered _ nofun
  | branch | branchConstant => split <;> exact { h with }
  | jump | nop => exact { h with }
  | @ret ref v es m' hv go =>
    have value : P v := h.slots ref v (Slots.read_eq_ok.1 hv)
    refine go.holding { h with returned := nofun } ?_
    rintro w ⟨⟩
    exact value
  | exitLoop go => exact go.holding h nofun

/-- At the end of a finally block the machine holds what it held, and what the block set aside. -/
theorem Ends.holding {r : Region} {outer : List Region} {exit : RegionExit} (ends : m.Ends r outer exit m')
    (h : m.Holding P) : m'.Holding P ∧ ∀ v ∈ r.transfer.value?, P v := by
  have hregions := h.regions
  rw [ends.regions] at hregions
  obtain ⟨hr, houter⟩ := List.forall_mem_cons.1 hregions
  refine ⟨?_, hr.transfer⟩
  cases ends with
  | completed => exact { h with pending := hr.pending, regions := houter }
  | threw => exact { h with regions := houter }

/-- Every transition makes only values that the program makes of the values that the machine held. -/
theorem Move.holding (move : m.Move p es m') (h : m.Holding P) (makes : p.Makes P) : m'.Holding P := by
  cases move with
  | execute runs function code go => exact go.holding h makes ⟨_, function, code⟩
  | fallOff runs function code go => exact go.holding { h with returned := nofun } nofun
  | search active room go => exact go.holding h nofun
  | complete ends go =>
    obtain ⟨h₁, ht⟩ := ends.holding h
    exact go.holding h₁ ht
  | abandonSearch ends transfer go => exact go.holding (ends.holding h).1 nofun
  | abandonReturn ends transfer => exact { (ends.holding h).1 with returned := nofun }
  | abandon ends transfer => exact (ends.holding h).1

theorem holding_ready (p : Program) : (ready p).Holding P where
  slots ref v h := by
    rw [show (ready p).slots = .empty p.slotCount from rfl, Slots.get?_empty] at h
    cases h
  constants _ _ h := by cases h
  args _ h := by cases h
  pending := nofun
  returned := nofun
  regions _ h := by cases h

/-- A start makes the strings that it is given, and an array of slots for them. -/
theorem Holding.started (h : m.Holding P) (strings : ∀ s, P (.string s)) (args : List String)
    (array : P (.array (List.range' m.slots.nextId args.length))) : (m.started args).Holding P := by
  have slots : ∀ (args : List String) (s : Slots), (∀ ref v, s.get? ref = some v → P v) →
      ∀ ref v, (args.foldl (fun s a => s.allocate (.string a)) s).get? ref = some v → P v := by
    intro args
    induction args with
    | nil => intro s hs; exact hs
    | cons a args ih =>
      intro s hs
      refine ih _ ?_
      intro ref v hv
      rw [Slots.get?_allocate] at hv
      split at hv
      · cases hv; exact strings a
      · exact hs ref v hv
  have entry : FrameKind.Holding P (.call ⟨Program.entryId,
      [.array (List.range' m.slots.nextId args.length)], none, none⟩) := by
    intro c hk v hv
    cases hk
    rw [List.mem_singleton] at hv
    exact hv ▸ array
  exact {
    h.push (f := .ofKind _) entry with
    slots := slots args m.slots h.slots
    pending := by intro v hv; cases hv
    returned := by intro v hv; cases hv
    regions := by intro r hr; cases hr }

/-- Every value of a reachable machine has a property that the program makes and that arrays of any slots
have. -/
theorem Reachable.holding (h : Reachable p m) (makes : p.Makes P) (arrays : ∀ elements, P (.array elements)) :
    m.Holding P := by
  induction h with
  | ready => exact holding_ready p
  | start h start ih =>
    obtain ⟨-, rfl⟩ := start_ok start
    exact ih.started (fun s => makes.primitive _ trivial) _ (arrays _)
  | advance h running move ih => exact (advance_move move).holding ih makes

end Machine

end SlotVM
