/-
The deep text of a value. `rendering`: whatever is in the slots, and however they refer to each other, the text is the
expansion of the value that cuts the components of composites at level sixteen. A value that goes no deeper is expanded
to the end, and no slot that is further away has a part in the text.
-/
import SlotVM.Value.Render

namespace SlotVM

/-! ## Expansions -/

/-- The slots whose content is part of the deep text of a value. -/
def Value.components : Value → List Nat
  | .array elements | .tuple elements => elements
  | .record fields => fields.entries.map (·.2)
  | _ => []

/-- A value of a kind that has no components. -/
def Value.IsSimple : Value → Prop
  | .array _ | .tuple _ | .record _ => False
  | _ => True

/-- Where an expansion stops: `mark` stands for each component of a composite at `level`. -/
structure Cut where
  level : Nat
  mark : String

mutual

/-- The expansion of a value that is `level` levels below the whole. Without a `cut` it goes on to the end, so that a
value which contains itself has none. -/
inductive Expands (s : Slots) (cut : Option Cut) : (level : Nat) → Value → String → Prop
  | simple {level : Nat} {v : Value} (h : v.IsSimple) : Expands s cut level v v.display
  | array {level : Nat} {elements : List Nat} {text : Nat → String}
    (shown : ∀ id ∈ elements, Shows s cut level id (text id)) :
    Expands s cut level (.array elements) (bracketed "[" (elements.map text) "]")
  | tuple {level : Nat} {elements : List Nat} {text : Nat → String}
    (shown : ∀ id ∈ elements, Shows s cut level id (text id)) :
    Expands s cut level (.tuple elements) (bracketed "(" (elements.map text) ")")
  | record {level : Nat} {fields : Fields} {text : Nat → String}
    (shown : ∀ field ∈ fields.entries, Shows s cut level field.2 (text field.2)) :
    Expands s cut level (.record fields)
      (bracketed "\x7b " (fields.entries.map fun field => field.1 ++ ": " ++ text field.2) " \x7d")

/-- How a component is shown, in the slot `id`, of a composite at `level`. -/
inductive Shows (s : Slots) (cut : Option Cut) : (level id : Nat) → String → Prop
  | unwritten {level id : Nat} (empty : s.get? id = none) : Shows s cut level id s!"#{id}?"
  | marked {level id : Nat} {w : Value} {mark : String} (written : s.get? id = some w)
    (last : cut = some ⟨level, mark⟩) : Shows s cut level id mark
  | expanded {level id : Nat} {w : Value} {text : String} (written : s.get? id = some w)
    (further : ∀ mark, cut ≠ some ⟨level, mark⟩) (expands : Expands s cut (level + 1) w text) :
    Shows s cut level id text

end

/-- The slot `id` is `n` links away from a value: it is a component, or a component of a component, and so on. -/
inductive Links (s : Slots) : Value → (n id : Nat) → Prop
  | component {v : Value} {id : Nat} (h : id ∈ v.components) : Links s v 1 id
  | through {v w : Value} {id n last : Nat} (h : id ∈ v.components) (written : s.get? id = some w)
    (rest : Links s w n last) : Links s v (n + 1) last

/-- No written slot is more than `n` links away from the value. -/
def Within (s : Slots) (n : Nat) (v : Value) : Prop :=
  ∀ k id w, Links s v k id → s.get? id = some w → k ≤ n

/-- What the deep text of a value is. -/
structure Rendering (s : Slots) (v : Value) : Prop where
  expansion : ∀ text, Expands s (some ⟨16, "..."⟩) 0 v text ↔ v.render s = text
  /-- A value that goes no deeper than the limit has a full expansion, and this is its text. -/
  full : Within s 16 v → ∀ text, Expands s none 0 v text ↔ v.render s = text
  /-- In the text of such a value nothing is cut, so that it does not matter what would stand for it. -/
  uncut : Within s 16 v → ∀ mark text, Expands s (some ⟨16, mark⟩) 0 v text ↔ v.render s = text
  /-- What is further away than the limit does not matter, except for which slots are written that come next. -/
  near : ∀ s' : Slots, (∀ k id, Links s v k id → k ≤ 16 → s'.get? id = s.get? id) →
    (∀ id, Links s v 17 id → (s'.get? id).isSome = (s.get? id).isSome) → v.render s' = v.render s

/-! ## Texts of components -/

variable {s s' : Slots} {cut : Option Cut} {level levels : Nat} {v : Value} {text : String}

theorem Value.IsSimple.components (h : v.IsSimple) : v.components = [] := by
  cases v <;> first | rfl | exact h.elim

theorem Value.IsSimple.assemble (h : v.IsSimple) (component : Nat → String) : v.assemble component = v.display := by
  cases v <;> first | rfl | exact h.elim

theorem assemble_congr {f g : Nat → String} (h : ∀ id ∈ v.components, f id = g id) : v.assemble f = v.assemble g := by
  cases v with
  | array elements =>
    have texts : elements.map f = elements.map g := List.map_congr_left h
    rw [Value.assemble, Value.assemble, texts]
  | tuple elements =>
    have texts : elements.map f = elements.map g := List.map_congr_left h
    rw [Value.assemble, Value.assemble, texts]
  | record fields =>
    have texts (field : String × Nat) (hf : field ∈ fields.entries) :
        field.1 ++ ": " ++ f field.2 = field.1 ++ ": " ++ g field.2 := by
      rw [h field.2 (List.mem_map_of_mem hf)]
    rw [Value.assemble, Value.assemble, List.map_congr_left texts]
  | _ => rfl

/-- An expansion puts together what is shown of the components. -/
theorem expands_iff_shows :
    Expands s cut level v text ↔
      ∃ shown, (∀ id ∈ v.components, Shows s cut level id (shown id)) ∧ v.assemble shown = text := by
  constructor
  · rintro (⟨simple⟩ | ⟨shown⟩ | ⟨shown⟩ | ⟨shown⟩)
    · refine ⟨fun _ => cutText, ?_, simple.assemble _⟩
      rw [simple.components]
      exact nofun
    · exact ⟨_, shown, rfl⟩
    · exact ⟨_, shown, rfl⟩
    · exact ⟨_, List.forall_mem_map.2 shown, rfl⟩
  · rintro ⟨shown, shows, rfl⟩
    cases v with
    | array elements => exact .array shows
    | tuple elements => exact .tuple shows
    | record fields => exact .record (List.forall_mem_map.1 shows)
    | _ => exact .simple trivial

/-- If there is one way to show each component, then there is one expansion. -/
theorem expands_iff_assemble {component : Nat → String}
    (h : ∀ id ∈ v.components, ∀ text, Shows s cut level id text ↔ component id = text) :
    Expands s cut level v text ↔ v.assemble component = text := by
  rw [expands_iff_shows]
  constructor
  · rintro ⟨shown, shows, rfl⟩
    exact assemble_congr fun id hid => (h id hid _).1 (shows id hid)
  · exact fun h' => ⟨component, fun id hid => (h id hid _).2 rfl, h'⟩

theorem shows_unwritten {id : Nat} (empty : s.get? id = none) :
    Shows s cut level id text ↔ unwrittenText id = text := by
  constructor
  · rintro (_ | ⟨written, -⟩ | ⟨written, -, -⟩)
    · rfl
    all_goals rw [empty] at written; cases written
  · rintro rfl
    exact .unwritten empty

theorem shows_marked {id : Nat} {w : Value} {mark : String} (written : s.get? id = some w) :
    Shows s (some ⟨level, mark⟩) level id text ↔ mark = text := by
  constructor
  · rintro (empty | ⟨-, last⟩ | ⟨-, further, -⟩)
    · rw [empty] at written; cases written
    · cases last; rfl
    · exact absurd rfl (further mark)
  · rintro rfl
    exact .marked written rfl

theorem shows_expanded {id : Nat} {w : Value} (written : s.get? id = some w)
    (further : ∀ mark, cut ≠ some ⟨level, mark⟩) : Shows s cut level id text ↔ Expands s cut (level + 1) w text := by
  constructor
  · rintro (empty | ⟨-, last⟩ | ⟨written', -, expands⟩)
    · rw [empty] at written; cases written
    · exact absurd last (further _)
    · rw [written] at written'
      cases written'
      exact expands
  · exact .expanded written further

/-! ## Expansions are the texts -/

/-- The text that follows components `levels` levels down is the expansion that is cut there, and so is any expansion
that is not cut before, of a value without written slots further down. -/
theorem expands_renderAt (further : ∀ j < levels, ∀ mark, cut ≠ some ⟨level + j, mark⟩)
    (last : cut = some ⟨level + levels, cutText⟩ ∨ ∀ id w, Links s v (levels + 1) id → s.get? id ≠ some w) :
    Expands s cut level v text ↔ v.renderAt s levels = text := by
  -- a component is one level further down and has one level less to go, so the place of the cut stays the same
  induction levels generalizing level v text with
  | zero =>
    refine expands_iff_assemble fun id hid text => ?_
    cases written : s.get? id with
    | none => exact shows_unwritten written
    | some w =>
      obtain rfl | none := last
      · exact shows_marked written
      · exact absurd written (none id w (.component hid))
  | succ levels ih =>
    refine expands_iff_assemble fun id hid text => ?_
    cases written : s.get? id with
    | none => exact shows_unwritten written
    | some w =>
      have here : ∀ mark, cut ≠ some ⟨level, mark⟩ := further 0 (Nat.succ_pos levels)
      rw [shows_expanded written here]
      have next (j : Nat) : level + 1 + j = level + (j + 1) := by omega
      refine ih (fun j hj mark => next j ▸ further (j + 1) (Nat.succ_lt_succ hj) mark) ?_
      exact last.imp (fun h => next levels ▸ h) fun none last w' rest => none last w' (.through hid written rest)

/-- The text that follows components `levels` levels down reads no slot that is further away. -/
theorem renderAt_congr (agree : ∀ k id, Links s v k id → k ≤ levels → s'.get? id = s.get? id)
    (last : ∀ id, Links s v (levels + 1) id → (s'.get? id).isSome = (s.get? id).isSome) :
    v.renderAt s' levels = v.renderAt s levels := by
  induction levels generalizing v with
  | zero =>
    refine assemble_congr fun id hid => ?_
    have same := last id (.component hid)
    cases h : s.get? id <;> cases h' : s'.get? id <;> simp [h, h'] at same ⊢
  | succ levels ih =>
    refine assemble_congr fun id hid => ?_
    rw [agree 1 id (.component hid) (by omega)]
    cases written : s.get? id with
    | none => rfl
    | some w =>
      refine ih (fun k last rest hk => agree (k + 1) last (.through hid written rest) (Nat.succ_le_succ hk)) ?_
      exact fun id' rest => last id' (.through hid written rest)

/-! ## The deep text -/

/-- An expansion that is cut at the last level is not cut before. -/
theorem cut_further (mark : String) (j : Nat) (hj : j < renderDepth) (mark' : String) :
    some (Cut.mk 16 mark) ≠ some ⟨0 + j, mark'⟩ := by
  intro h
  have level : 16 = 0 + j := congrArg Cut.level (Option.some.inj h)
  have below : j < 16 := hj
  omega

theorem Within.unwritten (h : Within s 16 v) (id : Nat) (w : Value) (links : Links s v 17 id) : s.get? id ≠ some w := by
  intro written
  exact absurd (h 17 id w links written) (by decide)

/-- The deep text of a value is its expansion, which is cut sixteen levels down. -/
theorem rendering (s : Slots) (v : Value) : Rendering s v where
  expansion _ := expands_renderAt (cut_further _) (.inl rfl)
  full h _ := expands_renderAt (fun _ _ _ => nofun) (.inr h.unwritten)
  uncut h mark _ := expands_renderAt (cut_further mark) (.inr h.unwritten)
  near _ agree last := renderAt_congr agree last

/-- A value with a number and an unwritten slot is shown in full. -/
theorem rendering_unwritten : ∃ (s : Slots) (v : Value), Within s 16 v ∧ Expands s none 0 v "[7, #1?]" := by
  let s : Slots := (Slots.empty 2).write 0 (.integer 7)
  have within : Within s 16 (.array [0, 1]) := by
    intro k id w links written
    cases links with
    | component => decide
    | through h written' rest =>
      obtain rfl | rfl : _ = 0 ∨ _ = 1 := by simpa [Value.components] using h
      · cases written'
        cases rest <;> contradiction
      · cases written'
  exact ⟨s, .array [0, 1], within, ((rendering s _).full within _).2 rfl⟩

example : (Value.array [0]).render ((Slots.empty 1).write 0 (.array [0])) =
    "[[[[[[[[[[[[[[[[[...]]]]]]]]]]]]]]]]]" := by
  decide

end SlotVM
