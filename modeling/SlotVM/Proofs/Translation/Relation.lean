/-
Programs that do the same with other slots and at other places. A translation says which slots, targets and
places of a program stand for those of another one; frames, finally blocks and machines are alike if they
differ in nothing else. Targets are those of the function that owns a frame, which the frames below it tell.
-/
import SlotVM.Proofs.Translation.Value
import SlotVM.Proofs.Cleanup.Balance

namespace SlotVM

open Relator

/-! ## Instructions -/

/-- A range of instructions at other places. -/
def Span.translate (goal : Nat → Nat) (s : Span) : Span := ⟨goal s.start, goal s.stop⟩

/-- A clause whose handler is at another place. -/
def CatchClause.translate (goal : Nat → Nat) (c : CatchClause) : CatchClause :=
  { c with handler := goal c.handler }

/-- A source with other slots. -/
def Source.translate (slot : Nat → Nat) : Source → Source
  | .array elements => .array (elements.map slot)
  | .tuple elements => .tuple (elements.map slot)
  | .record fields => .record (fields.map fun p => (p.1, slot p.2))
  | .copy ref => .copy (slot ref)
  | .field ref name => .field (slot ref) name
  | .element ref position => .element (slot ref) position
  | .index ref position => .index (slot ref) (slot position)
  | .apply ref args => .apply (slot ref) (args.map slot)
  | .binary left op right => .binary (slot left) op (slot right)
  | .unary op operand => .unary op (slot operand)
  | .integer n => .integer n
  | .float x => .float x
  | .char c => .char c
  | .bool b => .bool b
  | .string s => .string s
  | .function id => .function id
  | .param position => .param position
  | .constant id => .constant id
  | .error => .error
  | .named name => .named name

/-- An instruction with other slots, and with targets at other places. -/
def Instruction.translate (slot goal : Nat → Nat) : Instruction → Instruction
  | .assign target source => .assign (slot target) (source.translate slot)
  | .setField ref name value => .setField (slot ref) name (slot value)
  | .setIndex ref index value => .setIndex (slot ref) (slot index) (slot value)
  | .setConstant id value => .setConstant id (slot value)
  | .call target ref args => .call (slot target) (slot ref) (args.map slot)
  | .bind name ref => .bind name (slot ref)
  | .pushScope => .pushScope
  | .pushLoop start stop => .pushLoop (goal start) (goal stop)
  | .pushTry catches cleanup => .pushTry (catches.map (·.translate goal)) (cleanup.map (·.translate goal))
  | .popFrame => .popFrame
  | .jump target => .jump (goal target)
  | .branch on condition target => .branch on (slot condition) (goal target)
  | .branchConstant id target => .branchConstant id (goal target)
  | .nop => .nop
  | .ret value => .ret (slot value)
  | .throw value => .throw (slot value)
  | .exitLoop exit depth => .exitLoop exit depth

theorem Source.refs_translate (slot : Nat → Nat) (s : Source) : (s.translate slot).refs = s.refs.map slot := by
  cases s <;> simp [translate, refs, Function.comp_def]

theorem Instruction.refs_translate (slot goal : Nat → Nat) (i : Instruction) :
    (i.translate slot goal).refs = i.refs.map slot := by
  cases i <;> simp [translate, refs, Source.refs_translate]

/-! ## Translations -/

/-- What stands for what in another program. -/
structure Translation where
  /-- The slot that stands for one that an instruction mentions. -/
  slot : Nat → Nat
  /-- The target that stands for a target of a function. -/
  goal : Nat → Nat → Nat
  /-- A slot of a run, and the one that stands for it. -/
  ref : Nat → Nat → Prop
  /-- A place in a function, and one from which the other program goes on in the same way. -/
  place : Nat → Nat → Nat → Prop
  /-- A place in a function, and one with the same instruction. -/
  code : Nat → Nat → Nat → Prop
  slots : Slots → Slots → Prop

/-- What makes the program `p'` do the same as `p`. -/
structure Translation.Sound (T : Translation) (p p' : Program) : Prop where
  unique : BiUnique T.ref
  read : ∀ {s s' : Slots}, T.slots s s' → ∀ a b, T.ref a b → Option.Rel (Value.Alike T.ref) (s.get? a) (s'.get? b)
  write : ∀ {s s' : Slots} {a b v w}, T.slots s s' → T.ref a b → Value.Alike T.ref v w →
    T.slots (s.write a v) (s'.write b w)
  start : ∀ f, T.place f 0 0
  goal : ∀ f t, T.place f t (T.goal f t)
  code : ∀ {f a b}, T.code f a b → T.place f a b
  next : ∀ {f a b}, T.code f a b → T.place f (a + 1) (b + 1)
  /-- The end of a range is reached at the same time. -/
  stop : ∀ {f a b}, T.place f a b → ∀ s, s ≤ a ↔ T.goal f s ≤ b
  function : ∀ {f : Nat} {d}, p.functions[f]? = some d → ∃ d', p'.functions[f]? = some d' ∧ d'.params = d.params ∧
    ∀ {a b}, T.code f a b → d'.code[b]? = d.code[a]?.map (.translate T.slot (T.goal f))
  noFunction : ∀ {f : Nat}, p.functions[f]? = none → p'.functions[f]? = none
  refs : ∀ {f pc i}, p.At f pc i → ∀ r ∈ i.refs, T.ref r (T.slot r)

section
variable (T : Translation)

/-- The same names, bound to corresponding slots. -/
def Scope.Alike (s s' : Scope) : Prop := List.Forall₂ (Named T.ref) s.bindings s'.bindings

/-- The same call, at corresponding places. -/
structure Continuation.Alike (k k' : Continuation) : Prop where
  function : k'.function = k.function
  frame : k'.frame = k.frame
  pc : T.code k.function k.pc k'.pc

/-- The same function, called in the same way with alike arguments. -/
structure CallFrame.Alike (c c' : CallFrame) : Prop where
  function : c'.function = c.function
  args : List.Forall₂ (Value.Alike T.ref) c.args c'.args
  returnTarget : Option.Rel T.ref c.returnTarget c'.returnTarget
  caller : Option.Rel (Continuation.Alike T) c.caller c'.caller

/-- Frames of the same kind; the targets are those of `function`. -/
inductive FrameKind.Alike (function : Nat) : FrameKind → FrameKind → Prop
  | scope : Alike function .scope .scope
  | call {c c'} (h : CallFrame.Alike T c c') : Alike function (.call c) (.call c')
  | loop (start stop : Nat) : Alike function (.loop start stop) (.loop (T.goal function start) (T.goal function stop))
  | attempt (catches : List CatchClause) (cleanup : Option Span) :
      Alike function (.attempt catches cleanup)
        (.attempt (catches.map (·.translate (T.goal function))) (cleanup.map (·.translate (T.goal function))))

/-- Stacks that are alike frame by frame. -/
inductive Frames.Alike : List Frame → List Frame → Prop
  | nil : Alike [] []
  | cons {f f' : Frame} {below below'} (scope : f.scope.Alike T f'.scope)
      (kind : f.kind.Alike T ((owner? (below.map Frame.kind)).getD Program.entryId) f'.kind) (h : Alike below below') :
      Alike (f :: below) (f' :: below')

/-- Transfers that go on in the same way, in `function`. -/
inductive Transfer.Alike (function : Nat) : Transfer → Transfer → Prop
  | pop : Alike function .pop .pop
  | exitLoop (exit : LoopExit) (depth remaining : Nat) :
      Alike function (.exitLoop exit depth remaining) (.exitLoop exit depth remaining)
  | ret {v w} (explicit : Bool) (h : Option.Rel (Value.Alike T.ref) v w) :
      Alike function (.ret v explicit) (.ret w explicit)
  | unwind {s s' : Scope} (scope : s.Alike T s') (catches : List CatchClause) :
      Alike function (.unwind s catches) (.unwind s' (catches.map (·.translate (T.goal function))))

/-- Alike errors, in search of a handler or not. -/
inductive Pending.Alike : Pending → Pending → Prop
  | none : Alike .none .none
  | settled {v w} (h : Value.Alike T.ref v w) : Alike (.settled v) (.settled w)
  | active {v w} (h : Value.Alike T.ref v w) : Alike (.active v) (.active w)

/-- The same finally block, at corresponding places. -/
structure Region.Alike (r r' : Region) : Prop where
  range : r'.range = r.range.translate (T.goal r.function)
  floor : r'.floor = r.floor
  function : r'.function = r.function
  frame : r'.frame = r.frame
  resume : T.place r.function r.resume r'.resume
  /-- A `PopFrame` goes on behind the instruction. -/
  code : r.transfer = .pop → T.code r.function r.resume r'.resume
  pending : r.pending.Alike T r'.pending
  transfer : r.transfer.Alike T r.function r'.transfer

/-- Constants with alike values. -/
def Constants.Alike (c c' : Constants) : Prop :=
  List.Forall₂ (fun a b => a.1 = b.1 ∧ Value.Alike T.ref a.2 b.2) c.entries c'.entries

/-- Machines that are in the same state, but for what stands for what. -/
structure Machine.Alike (m m' : Machine) : Prop where
  slots : T.slots m.slots m'.slots
  constants : m.constants.Alike T m'.constants
  stack : Frames.Alike T m.stack.frames m'.stack.frames
  function : m'.function = m.function
  frame : m'.frame = m.frame
  pc : T.place m.function m.pc m'.pc
  returned : Option.Rel (Value.Alike T.ref) m.returned m'.returned
  pending : m.pending.Alike T m'.pending
  regions : List.Forall₂ (Region.Alike T) m.regions m'.regions

/-- Two results of runs: two machines that are related by `R`, or two faults. -/
inductive Both (R : Machine → Machine → Prop) : Except Fault Machine → Except Fault Machine → Prop
  | ok {m m' : Machine} (h : R m m') : Both R (.ok m) (.ok m')
  | fault (f f' : Fault) : Both R (.error f) (.error f')

theorem Both.imp {R S : Machine → Machine → Prop} {r r'} (h : Both R r r')
    (imp : ∀ x y, R x y → S x y) : Both S r r' := by
  cases h with
  | ok h => exact .ok (imp _ _ h)
  | fault f f' => exact .fault f f'

theorem Both.related {R : Machine → Machine → Prop} {m m' : Machine} (h : Both R (.ok m) (.ok m')) : R m m' := by
  cases h with
  | ok h => exact h

/-- Transitions that end in alike machines, or both with a fault. -/
def Transition.Alike (t t' : Transition) : Prop := Both (Machine.Alike T) t.result t'.result

end

end SlotVM
