import ShaderBytecode.Proofs.Decoding
import ShaderBytecode.Proofs.WellTyped
import ShaderBytecode.Emit.Item

/-!
# Stack typing of relocatable code

A fragment of code obeys the stack rules if stack types can be given to its offsets that agree with
every item and with every place an item can go to. Fragments are put together by gluing their stack
types, so that each way of building control flow has one rule.
-/

namespace ShaderBytecode

/-- The start of an item of a fragment that stands at an offset, or the end of the fragment. -/
def Boundary (p : Nat) (code : List Item) (target : Nat) : Prop :=
  ∃ first second, code = first ++ second ∧ target = p + Item.sizeAll first

namespace Item

@[simp] theorem sizeAll_append (first second : List Item) :
    sizeAll (first ++ second) = sizeAll first + sizeAll second := by
  induction first with
  | nil => simp [sizeAll]
  | cons item rest ih => simp [sizeAll, ih, Nat.add_assoc]

theorem size_pos (item : Item) : 0 < item.size := by
  cases item with
  | op instruction => exact instruction.size_pos
  | jump condition distance => exact Nat.succ_pos _
  | leave kind => exact Nat.succ_pos _

/-- Stack types agree with an item at an offset: it is legal there, and what it leaves is what is
known of every place where it goes. An open leave waits for an empty stack. -/
def Fits (c : CodeContext) (inLoop : Bool) (known : Nat → StackType → Prop)
    (types : Nat → StackType) (offset : Nat) : Item → Prop
  | .op i =>
    i.jumpTarget? = none ∧ ∃ after, i.effect? c (types offset) = some after
      ∧ (i.isFinal = false → types (offset + i.size) = after)
  | .jump condition distance =>
    ∃ after, ∃ target : Nat, condition.effect? (types offset) = some after
      ∧ (target : Int) = offset + jumpSize + distance ∧ known target after
      ∧ (condition ≠ .always → types (offset + jumpSize) = after)
  | .leave _ => inLoop = true ∧ types offset = []

def FitsAll (c : CodeContext) (inLoop : Bool) (known : Nat → StackType → Prop)
    (types : Nat → StackType) : (offset : Nat) → List Item → Prop
  | _, [] => True
  | offset, item :: rest =>
    item.Fits c inLoop known types offset
      ∧ FitsAll c inLoop known types (offset + item.size) rest

variable {c : CodeContext} {inLoop : Bool} {known known' : Nat → StackType → Prop}
variable {types types' : Nat → StackType} {offset : Nat}

theorem fitsAll_append {first second : List Item} :
    FitsAll c inLoop known types offset (first ++ second) ↔
      FitsAll c inLoop known types offset first
        ∧ FitsAll c inLoop known types (offset + sizeAll first) second := by
  induction first generalizing offset with
  | nil => exact (and_iff_right trivial).symm
  | cons item rest ih =>
    rw [List.cons_append, FitsAll, FitsAll, ih, sizeAll, Nat.add_assoc, and_assoc]

/-- More may be known, and other stack types will do that agree inside of the fragment. -/
theorem FitsAll.mono {code : List Item} (h : FitsAll c inLoop known types offset code)
    (hknown : ∀ target st, known target st → known' target st)
    (htypes : ∀ o, offset ≤ o → o ≤ offset + sizeAll code → types o = types' o) :
    FitsAll c inLoop known' types' offset code := by
  induction code generalizing offset with
  | nil => trivial
  | cons item rest ih =>
    have hhere : types offset = types' offset :=
      htypes offset (Nat.le_refl _) (Nat.le_add_right _ _)
    have hnext : types (offset + item.size) = types' (offset + item.size) :=
      htypes _ (Nat.le_add_right _ _) (by rw [sizeAll]; omega)
    refine ⟨?_, ih h.2 fun o hlow hhigh => htypes o (by omega) (by rw [sizeAll]; omega)⟩
    cases item with
    | op i =>
      obtain ⟨hjump, after, heffect, hafter⟩ := h.1
      exact ⟨hjump, after, hhere ▸ heffect, fun hfinal => hnext ▸ hafter hfinal⟩
    | jump condition distance =>
      obtain ⟨after, target, heffect, htarget, hmem, hafter⟩ := h.1
      exact ⟨after, target, hhere ▸ heffect, htarget, hknown _ _ hmem,
        fun hcondition => hnext ▸ hafter hcondition⟩
    | leave kind => exact ⟨h.1.1, hhere ▸ h.1.2⟩

end Item

open Item (FitsAll fitsAll_append sizeAll_append closeLeaves)

/-- A fragment at an offset takes a stack to a stack. Its jumps go to its own items or to places
outside of which the stack is known. -/
def Carries (c : CodeContext) (inLoop : Bool) (outside : Nat → StackType → Prop) (p : Nat)
    (code : List Item) (s s' : StackType) : Prop :=
  ∃ types : Nat → StackType, types p = s ∧ types (p + Item.sizeAll code) = s'
    ∧ FitsAll c inLoop (fun target st => Boundary p code target ∧ types target = st
        ∨ outside target st) types p code

/-- A fragment takes a stack to a stack wherever it stands. -/
def Turns (c : CodeContext) (inLoop : Bool) (code : List Item) (s s' : StackType) : Prop :=
  ∀ p outside, Carries c inLoop outside p code s s'

section Fragments

variable {c : CodeContext} {inLoop : Bool} {outside : Nat → StackType → Prop} {p : Nat}
variable {code first second : List Item} {s m s' : StackType}

theorem Boundary.start : Boundary p code p :=
  ⟨[], code, rfl, rfl⟩

theorem Boundary.stop : Boundary p code (p + Item.sizeAll code) :=
  ⟨code, [], (List.append_nil _).symm, rfl⟩

variable {target : Nat} {types : Nat → StackType} {item : Item} {i : Instruction}
  {after : StackType} {condition : JumpWhen}

theorem Boundary.append_left (h : Boundary p first target) :
    Boundary p (first ++ second) target := by
  obtain ⟨before, after, rfl, rfl⟩ := h
  exact ⟨before, after ++ second, List.append_assoc .., rfl⟩

theorem Boundary.append_right (h : Boundary (p + Item.sizeAll first) second target) :
    Boundary p (first ++ second) target := by
  obtain ⟨before, after, rfl, rfl⟩ := h
  exact ⟨first ++ before, after, (List.append_assoc ..).symm, by rw [sizeAll_append, Nat.add_assoc]⟩

theorem Boundary.bounds (h : Boundary p code target) :
    p ≤ target ∧ target ≤ p + Item.sizeAll code := by
  obtain ⟨before, after, rfl, rfl⟩ := h
  rw [sizeAll_append]
  omega

theorem Carries.nil : Carries c inLoop outside p [] s s :=
  ⟨fun _ => s, rfl, rfl, trivial⟩

/-- Stack types that are those of one fragment before an offset and those of another from it on. -/
def glue (cut : Nat) (types types' : Nat → StackType) (o : Nat) : StackType :=
  if o < cut then types o else types' o

theorem glue_left {cut o : Nat} {types' : Nat → StackType} (hcut : types cut = types' cut)
    (h : o ≤ cut) : types o = glue cut types types' o := by
  by_cases hlt : o < cut
  · rw [glue, if_pos hlt]
  · rw [glue, if_neg hlt, Nat.le_antisymm h (Nat.not_lt.mp hlt), hcut]

theorem glue_right {cut o : Nat} {types' : Nat → StackType} (h : cut ≤ o) :
    types' o = glue cut types types' o := by
  rw [glue, if_neg (Nat.not_lt.mpr h)]

theorem Carries.append (h : Carries c inLoop outside p first s m)
    (h' : Carries c inLoop outside (p + Item.sizeAll first) second m s') :
    Carries c inLoop outside p (first ++ second) s s' := by
  obtain ⟨types, hstart, hstop, hfits⟩ := h
  obtain ⟨types', hstart', hstop', hfits'⟩ := h'
  have hcut := hstop.trans hstart'.symm
  refine ⟨glue (p + Item.sizeAll first) types types', ?_, ?_, ?_⟩
  · rw [← glue_left hcut (Nat.le_add_right _ _), hstart]
  · rw [sizeAll_append, ← Nat.add_assoc, ← glue_right (Nat.le_add_right _ _), hstop']
  · refine fitsAll_append.mpr ⟨hfits.mono ?_ fun o _ ho => glue_left hcut ho,
      hfits'.mono ?_ fun o ho _ => glue_right ho⟩
    · rintro target st (⟨hboundary, rfl⟩ | hout)
      · exact .inl ⟨hboundary.append_left, (glue_left hcut hboundary.bounds.2).symm⟩
      · exact .inr hout
    · rintro target st (⟨hboundary, rfl⟩ | hout)
      · exact .inl ⟨hboundary.append_right, (glue_right hboundary.bounds.1).symm⟩
      · exact .inr hout

/-- Other places may be known outside: those that were, and the two ends of the fragment. -/
theorem Carries.close {outside' : Nat → StackType → Prop} (h : Carries c inLoop outside p code s s')
    (hclose : ∀ target st, outside target st →
      outside' target st ∨ (target = p ∧ st = s) ∨ (target = p + Item.sizeAll code ∧ st = s')) :
    Carries c inLoop outside' p code s s' := by
  obtain ⟨types, hstart, hstop, hfits⟩ := h
  refine ⟨types, hstart, hstop, hfits.mono ?_ fun _ _ _ => rfl⟩
  rintro target st (hinside | hout)
  · exact .inl hinside
  · obtain hout | ⟨rfl, rfl⟩ | ⟨rfl, rfl⟩ := hclose target st hout
    · exact .inr hout
    · exact .inl ⟨.start, hstart⟩
    · exact .inl ⟨.stop, hstop⟩

/-- An item alone is a fragment. Where nothing follows from it, what stands behind it is free. -/
theorem Carries.single (h : ∀ types : Nat → StackType, types p = s → types (p + item.size) = s' →
      item.Fits c inLoop outside types p) : Carries c inLoop outside p [item] s s' := by
  have hpos := item.size_pos
  have hne : p + item.size ≠ p := by omega
  have hfits : FitsAll c inLoop outside (fun o => if o = p then s else s') p [item] :=
    ⟨h _ (if_pos rfl) (if_neg hne), trivial⟩
  exact ⟨_, if_pos rfl, if_neg hne, hfits.mono (fun _ _ hout => .inr hout) fun _ _ _ => rfl⟩

theorem Carries.op (hjump : i.jumpTarget? = none) (heffect : i.effect? c s = some after)
    (hafter : i.isFinal = false → s' = after) : Carries c inLoop outside p [.op i] s s' := by
  refine .single fun types hstart hstop => ⟨hjump, after, hstart ▸ heffect, fun hfinal => ?_⟩
  rw [← hafter hfinal]
  exact hstop

/-- A jump to a place that is known. Behind one that is always taken the stack is free. -/
theorem Carries.jump {distance : Int} (heffect : condition.effect? s = some after)
    (htarget : (target : Int) = p + jumpSize + distance) (hknown : outside target after)
    (hafter : condition ≠ .always → s' = after) :
    Carries c inLoop outside p [.jump condition distance] s s' := by
  refine .single fun types hstart hstop =>
    ⟨after, target, hstart ▸ heffect, htarget, hknown, fun hcondition => ?_⟩
  rw [← hafter hcondition]
  exact hstop

/-- Closing a body leads what breaks to one place and what continues to another. -/
theorem fitsAll_closeLeaves {known : Nat → StackType → Prop} {after stop offset : Nat}
    (hstop : offset + Item.sizeAll code = stop) (hbreak : known (stop + after) [])
    (hcontinue : known stop []) (h : FitsAll c true known types offset code) :
    FitsAll c inLoop known types offset (closeLeaves after code) := by
  induction code generalizing offset with
  | nil => trivial
  | cons item rest ih =>
    rw [Item.sizeAll] at hstop
    have hrest := ih (by omega) h.2
    cases item with
    | op i => exact ⟨h.1, hrest⟩
    | jump condition distance => exact ⟨h.1, hrest⟩
    | leave kind =>
      have hempty : types offset = [] := h.1.2
      have hsize : (Item.leave kind).size = jumpSize := rfl
      cases kind with
      | breakLoop =>
        refine ⟨⟨[], stop + after, ?_, ?_, hbreak, fun hne => absurd rfl hne⟩, hrest⟩
        · rw [hempty]
          rfl
        · omega
      | continueLoop =>
        refine ⟨⟨[], stop, ?_, ?_, hcontinue, fun hne => absurd rfl hne⟩, hrest⟩
        · rw [hempty]
          rfl
        · omega

theorem sizeAll_closeLeaves (after : Nat) (code : List Item) :
    Item.sizeAll (closeLeaves after code) = Item.sizeAll code := by
  induction code with
  | nil => rfl
  | cons item rest ih =>
    cases item with
    | op i => simp only [closeLeaves, Item.sizeAll, ih]
    | jump condition distance => simp only [closeLeaves, Item.sizeAll, ih]
    | leave kind => cases kind <;> simp only [closeLeaves, Item.sizeAll, Item.size, ih]

theorem boundary_cons {rest : List Item} :
    Boundary p (item :: rest) target ↔ target = p ∨ Boundary (p + item.size) rest target := by
  constructor
  · rintro ⟨before, after, hsplit, rfl⟩
    cases before with
    | nil => exact .inl rfl
    | cons first before =>
      obtain ⟨rfl, rfl⟩ := List.cons.inj hsplit
      exact .inr ⟨before, after, rfl, (Nat.add_assoc ..).symm⟩
  · rintro (rfl | ⟨before, after, rfl, rfl⟩)
    · exact .start
    · exact ⟨item :: before, after, rfl, Nat.add_assoc ..⟩

theorem boundary_closeLeaves (after : Nat) :
    Boundary p (closeLeaves after code) target ↔ Boundary p code target := by
  induction code generalizing p with
  | nil => rfl
  | cons item rest ih =>
    cases item with
    | op i => simp only [closeLeaves, boundary_cons, ih]
    | jump condition distance => simp only [closeLeaves, boundary_cons, ih]
    | leave kind => cases kind <;> simp only [closeLeaves, boundary_cons, Item.size, ih]

/-! ## Control flow at an offset -/

/-- A condition goes from the stack, whether a jump is taken on it or not. -/
theorem effect?_condition (hcondition : condition ≠ .always) :
    condition.effect? (.value .bool :: s) = some s := by
  cases condition with
  | always => exact absurd rfl hcondition
  | ifFalse => rfl
  | ifTrue => rfl

theorem Carries.skip (hcondition : condition ≠ .always)
    (h : Carries c inLoop outside (p + jumpSize) code s s) :
    Carries c inLoop outside p (Item.skip condition code) (.value .bool :: s) s := by
  let stop := p + jumpSize + Item.sizeAll code
  let outside' := fun target st => outside target st ∨ (target = stop ∧ st = s)
  have hjump : Carries c inLoop outside' p [.jump condition (Item.sizeAll code)]
      (.value .bool :: s) s :=
    .jump (effect?_condition hcondition) (Int.natCast_add ..) (.inr ⟨rfl, rfl⟩) fun _ => rfl
  have hbody : Carries c inLoop outside' (p + jumpSize) code s s :=
    h.close fun _ _ hout => .inl (.inl hout)
  refine (hjump.append hbody).close ?_
  rintro target st (hout | ⟨rfl, rfl⟩)
  · exact .inl hout
  · exact .inr (.inr ⟨Nat.add_assoc .., rfl⟩)

theorem Carries.choose {whenTrue whenFalse : List Item} (htrue : Turns c inLoop whenTrue s s')
    (hfalse : Turns c inLoop whenFalse s s') :
    Carries c inLoop outside p (Item.choose whenTrue whenFalse) (.value .bool :: s) s' := by
  let stop := p + Item.sizeAll (Item.choose whenTrue whenFalse)
  let outside' := fun target st => outside target st ∨ (target = stop ∧ st = s')
  have hexit : ∀ q, q + jumpSize + Item.sizeAll whenFalse = stop →
      Carries c inLoop outside' q [.jump .always (Item.sizeAll whenFalse)] s' s := by
    intro q hq
    refine .jump rfl ?_ (.inr ⟨rfl, rfl⟩) fun hne => absurd rfl hne
    rw [← hq]
    rfl
  have hfirst : Carries c inLoop outside' (p + jumpSize)
      (whenTrue ++ [.jump .always (Item.sizeAll whenFalse)]) s s := by
    refine (htrue _ _).append (hexit _ ?_)
    simp only [stop, Item.choose, Item.skip, Item.sizeAll, sizeAll_append, Item.size]
    omega
  have hchoice := ((hfirst.skip (by decide)).append (hfalse _ _) : Carries c inLoop outside' p
    (Item.choose whenTrue whenFalse) (.value .bool :: s) s')
  refine hchoice.close ?_
  rintro target st (hout | ⟨rfl, rfl⟩)
  · exact .inl hout
  · exact .inr (.inr ⟨rfl, rfl⟩)

/-- The body of a loop with its leaves closed; what breaks goes to a known place. -/
theorem Carries.closeLeaves {after : Nat} (h : Turns c true code [] [])
    (hbreak : outside (p + Item.sizeAll code + after) []) :
    Carries c inLoop outside p (closeLeaves after code) [] [] := by
  obtain ⟨types, hstart, hstop, hfits⟩ := h p outside
  refine ⟨types, hstart, by rw [sizeAll_closeLeaves, hstop],
    fitsAll_closeLeaves rfl (.inr hbreak) (.inl ⟨?_, hstop⟩) (hfits.mono ?_ fun _ _ _ => rfl)⟩
  · exact (boundary_closeLeaves after).mpr .stop
  · rintro target st (⟨hboundary, htypes⟩ | hout)
    · exact .inl ⟨(boundary_closeLeaves after).mpr hboundary, htypes⟩
    · exact .inr hout

theorem Carries.backWhen (heffect : condition.effect? m = some s)
    (hafter : condition ≠ .always → s' = s) (h : Carries c inLoop outside p code s m) :
    Carries c inLoop outside p (Item.backWhen condition code) s s' := by
  let outside' := fun target st => outside target st ∨ (target = p ∧ st = s)
  have hbody : Carries c inLoop outside' p code s m := h.close fun _ _ hout => .inl (.inl hout)
  have hback : Carries c inLoop outside' (p + Item.sizeAll code)
      [.jump condition (-(Item.sizeAll code + jumpSize : Nat))] m s' :=
    .jump heffect (by omega) (.inr ⟨rfl, rfl⟩) hafter
  refine (hbody.append hback).close ?_
  rintro target st (hout | ⟨rfl, rfl⟩)
  · exact .inl hout
  · exact .inr (.inl ⟨rfl, rfl⟩)

/-! ## Control flow anywhere -/

theorem Turns.nil : Turns c inLoop [] s s :=
  fun _ _ => .nil

theorem Turns.append (h : Turns c inLoop first s m) (h' : Turns c inLoop second m s') :
    Turns c inLoop (first ++ second) s s' :=
  fun p outside => (h p outside).append (h' _ outside)

theorem Turns.cons (h : Turns c inLoop [item] s m) (h' : Turns c inLoop code m s') :
    Turns c inLoop (item :: code) s s' :=
  h.append h'

theorem Turns.op (hjump : i.jumpTarget? = none) (heffect : i.effect? c s = some s') :
    Turns c inLoop [.op i] s s' :=
  fun _ _ => .op hjump heffect fun _ => rfl

theorem Turns.final (hjump : i.jumpTarget? = none) (heffect : i.effect? c s = some after)
    (hfinal : i.isFinal = true) : Turns c inLoop [.op i] s s' :=
  fun _ _ => .op hjump heffect fun hnot => absurd (hfinal.symm.trans hnot) (by decide)

theorem Turns.leave (kind : Typed.Leave) : Turns c true [.leave kind] [] [] :=
  fun _ _ => .single fun _ hstart _ => ⟨rfl, hstart⟩

theorem Turns.skip (hcondition : condition ≠ .always) (h : Turns c inLoop code s s) :
    Turns c inLoop (Item.skip condition code) (.value .bool :: s) s :=
  fun _ outside => (h _ outside).skip hcondition

theorem Turns.choose {whenTrue whenFalse : List Item} (htrue : Turns c inLoop whenTrue s s')
    (hfalse : Turns c inLoop whenFalse s s') :
    Turns c inLoop (Item.choose whenTrue whenFalse) (.value .bool :: s) s' :=
  fun _ _ => .choose htrue hfalse

theorem Carries.round {rest : List Item} {after : Nat} (hbody : Turns c true code [] [])
    (hrest : Turns c inLoop rest [] s') (hbreak : outside (p + Item.sizeAll code + after) []) :
    Carries c inLoop outside p (Item.closeLeaves after code ++ rest) [] s' :=
  (Carries.closeLeaves hbody hbreak).append (hrest _ outside)

theorem Turns.repeatWhile {test : Option (List Item)} {body step : List Item}
    (htest : ∀ t ∈ test, Turns c inLoop t [] [.value .bool]) (hbody : Turns c true body [] [])
    (hstep : Turns c inLoop step [] []) :
    Turns c inLoop (Item.repeatWhile test body step) [] [] := by
  intro p outside
  let stop := p + Item.sizeAll (Item.repeatWhile test body step)
  let outside' := fun target st => outside target st ∨ (target = stop ∧ st = ([] : StackType))
  have hloop : Carries c inLoop outside' p (Item.repeatWhile test body step) [] [] := by
    cases test with
    | none =>
      refine .backWhen rfl (fun hne => absurd rfl hne) (.round hbody hstep (.inr ⟨?_, rfl⟩))
      simp only [stop, Item.repeatWhile, Item.backWhen, sizeAll_append, Item.sizeAll,
        sizeAll_closeLeaves, Item.size]
      omega
    | some test =>
      refine .backWhen rfl (fun hne => absurd rfl hne) (.append (.append (htest test rfl _ _) ?_)
        (.round hbody hstep (.inr ⟨?_, rfl⟩)))
      · refine .jump (effect?_condition (by decide)) ?_ (.inr ⟨rfl, rfl⟩) fun _ => rfl
        simp only [stop, Item.repeatWhile, Item.backWhen, sizeAll_append, Item.sizeAll, Item.size]
        omega
      · simp only [stop, Item.repeatWhile, Item.backWhen, sizeAll_append, Item.sizeAll,
          sizeAll_closeLeaves, Item.size]
        omega
  refine hloop.close ?_
  rintro target st (hout | ⟨rfl, rfl⟩)
  · exact .inl hout
  · exact .inr (.inr ⟨rfl, rfl⟩)

theorem Turns.repeatUntil {body test : List Item} (hbody : Turns c true body [] [])
    (htest : Turns c inLoop test [] [.value .bool]) :
    Turns c inLoop (Item.repeatUntil body test) [] [] := by
  intro p outside
  let stop := p + Item.sizeAll (Item.repeatUntil body test)
  let outside' := fun target st => outside target st ∨ (target = stop ∧ st = ([] : StackType))
  have hloop : Carries c inLoop outside' p (Item.repeatUntil body test) [] [] := by
    refine .backWhen (effect?_condition (by decide)) (fun _ => rfl)
      (.round hbody htest (.inr ⟨?_, rfl⟩))
    simp only [stop, Item.repeatUntil, Item.backWhen, sizeAll_append, Item.sizeAll,
      sizeAll_closeLeaves, Item.size]
    omega
  refine hloop.close ?_
  rintro target st (hout | ⟨rfl, rfl⟩)
  · exact .inl hout
  · exact .inr (.inr ⟨rfl, rfl⟩)

end Fragments

end ShaderBytecode
