import ShaderBytecode.Emit.Code
import ShaderBytecode.Proofs.FragmentTyping

/-!
# Code with and without markers

Code with markers and code without them run in parallel: they have the same items but for the
markers, and each jump of the one leads to a place that meets the place to which its counterpart in
the other leads. The distances of the jumps differ, since markers stand between.
-/

namespace ShaderBytecode

open Typed (Leave)

def Instruction.isMarker : Instruction → Bool
  | .indexed .line _ => true
  | _ => false

namespace Item

def isMarker : Item → Bool
  | .op i => i.isMarker
  | .jump _ _ | .leave _ => false

/-- The second items at an offset are the first at another one without their markers, up to the
distances of jumps: where two jumps lead is related. -/
inductive Erases (R : Int → Int → Prop) : (p q : Nat) → (marked plain : List Item) → Prop
  | nil {p q : Nat} : Erases R p q [] []
  | marker {p q : Nat} {i : Instruction} {marked plain : List Item} (h : i.isMarker = true)
    (rest : Erases R (p + i.size) q marked plain) : Erases R p q (.op i :: marked) plain
  | op {p q : Nat} {i : Instruction} {marked plain : List Item} (h : i.isMarker = false)
    (hjump : i.jumpTarget? = none)
    (rest : Erases R (p + i.size) (q + i.size) marked plain) :
    Erases R p q (.op i :: marked) (.op i :: plain)
  | jump {p q : Nat} {condition : JumpWhen} {distance distance' : Int} {marked plain : List Item}
    (h : R (p + jumpSize + distance) (q + jumpSize + distance'))
    (rest : Erases R (p + jumpSize) (q + jumpSize) marked plain) :
    Erases R p q (.jump condition distance :: marked) (.jump condition distance' :: plain)
  | leave {p q : Nat} {kind : Leave} {marked plain : List Item}
    (rest : Erases R (p + jumpSize) (q + jumpSize) marked plain) :
    Erases R p q (.leave kind :: marked) (.leave kind :: plain)

/-- The second items are the first without their markers, wherever jumps lead. -/
def Alike (marked plain : List Item) : Prop :=
  Erases (fun _ _ => True) 0 0 marked plain

/-- A place in items with markers and a place in items without them have the same items before them.
Before and behind a marker the place meets the same one. -/
inductive Meets : (p q : Nat) → (marked plain : List Item) → (o o' : Nat) → Prop
  | here {p q : Nat} {marked plain : List Item} : Meets p q marked plain p q
  | marker {p q o o' : Nat} {item : Item} {marked plain : List Item} (h : item.isMarker = true)
    (rest : Meets (p + item.size) q marked plain o o') : Meets p q (item :: marked) plain o o'
  | both {p q o o' : Nat} {item item' : Item} {marked plain : List Item}
    (h : item.isMarker = false)
    (rest : Meets (p + item.size) (q + item'.size) marked plain o o') :
    Meets p q (item :: marked) (item' :: plain) o o'

/-- Wherever items with markers and items without them stand, their jumps lead to places that meet,
or some bytes behind their ends. -/
def Parallel (after after' : Nat) (marked plain : List Item) : Prop :=
  ∀ (p q : Nat) (R : Int → Int → Prop), (∀ o o' : Nat, Meets p q marked plain o o' → R o o') →
    R ↑(p + sizeAll marked + after) ↑(q + sizeAll plain + after') → Erases R p q marked plain

section Rules

variable {R R' : Int → Int → Prop} {p q o o' after after' : Nat}
variable {marked plain first first' second second' : List Item}

/-! ## Items without their markers -/

theorem Erases.append (h : Erases R p q first first')
    (h' : Erases R (p + sizeAll first) (q + sizeAll first') second second') :
    Erases R p q (first ++ second) (first' ++ second') := by
  induction h with
  | nil => exact h'
  | marker hi _ ih =>
    rw [sizeAll, size, ← Nat.add_assoc] at h'
    exact .marker hi (ih h')
  | op hi hjump _ ih =>
    rw [sizeAll, sizeAll, size, ← Nat.add_assoc, ← Nat.add_assoc] at h'
    exact .op hi hjump (ih h')
  | jump hR _ ih =>
    rw [sizeAll, sizeAll, size, size, ← Nat.add_assoc, ← Nat.add_assoc] at h'
    exact .jump hR (ih h')
  | leave _ ih =>
    rw [sizeAll, sizeAll, size, ← Nat.add_assoc, ← Nat.add_assoc] at h'
    exact .leave (ih h')

/-- Closing a loop's body with and without markers: what breaks out leads behind the loop, what
continues to the end of the body. -/
theorem Erases.closeLeaves (h : Erases R p q marked plain)
    (hcontinue : R ↑(p + sizeAll marked) ↑(q + sizeAll plain))
    (hbreak : R ↑(p + sizeAll marked + after) ↑(q + sizeAll plain + after')) :
    Erases R p q (closeLeaves after marked) (closeLeaves after' plain) := by
  induction h with
  | nil => exact .nil
  | marker hi _ ih =>
    rw [sizeAll, size, ← Nat.add_assoc] at hcontinue hbreak
    exact .marker hi (ih hcontinue hbreak)
  | op hi hjump _ ih =>
    rw [sizeAll, sizeAll, size, ← Nat.add_assoc, ← Nat.add_assoc] at hcontinue hbreak
    exact .op hi hjump (ih hcontinue hbreak)
  | jump hR _ ih =>
    rw [sizeAll, sizeAll, size, size, ← Nat.add_assoc, ← Nat.add_assoc] at hcontinue hbreak
    exact .jump hR (ih hcontinue hbreak)
  | @leave p q kind _ _ _ ih =>
    rw [sizeAll, sizeAll, size, ← Nat.add_assoc, ← Nat.add_assoc] at hcontinue hbreak
    cases kind with
    | breakLoop =>
      rw [Nat.add_assoc (p + jumpSize), Nat.add_assoc (q + jumpSize)] at hbreak
      exact .jump hbreak (ih hcontinue (by rwa [← Nat.add_assoc, ← Nat.add_assoc] at hbreak))
    | continueLoop => exact .jump hcontinue (ih hcontinue hbreak)

/-! ## Places that meet -/

theorem Meets.append_left (h : Meets p q first first' o o') :
    Meets p q (first ++ second) (first' ++ second') o o' := by
  induction h with
  | here => exact .here
  | marker h _ ih => exact .marker h ih
  | both h _ ih => exact .both h ih

theorem Meets.append_right {a b : Nat} (h : Erases R a b first first')
    (h' : Meets (p + sizeAll first) (q + sizeAll first') second second' o o') :
    Meets p q (first ++ second) (first' ++ second') o o' := by
  induction h generalizing p q with
  | nil => exact h'
  | marker hi _ ih =>
    rw [sizeAll, ← Nat.add_assoc] at h'
    exact .marker hi (ih h')
  | op hi _ _ ih =>
    rw [sizeAll, sizeAll, ← Nat.add_assoc, ← Nat.add_assoc] at h'
    exact .both hi (ih h')
  | jump _ _ ih =>
    rw [sizeAll, sizeAll, ← Nat.add_assoc, ← Nat.add_assoc] at h'
    exact .both rfl (ih h')
  | leave _ ih =>
    rw [sizeAll, sizeAll, ← Nat.add_assoc, ← Nat.add_assoc] at h'
    exact .both rfl (ih h')

theorem Alike.meets_stop (h : Alike marked plain) :
    Meets p q marked plain (p + sizeAll marked) (q + sizeAll plain) := by
  have hstop : Meets p q (marked ++ []) (plain ++ []) (p + sizeAll marked) (q + sizeAll plain) :=
    .append_right h .here
  rwa [List.append_nil, List.append_nil] at hstop

theorem Meets.closeLeaves (h : Meets p q marked plain o o') :
    Meets p q (closeLeaves after marked) (closeLeaves after' plain) o o' := by
  induction h with
  | here => exact .here
  | @marker p q o o' item marked plain h _ ih =>
    cases item with
    | op i => exact .marker h ih
    | jump _ _ => cases h
    | leave _ => cases h
  | @both p q o o' item item' marked plain h _ ih =>
    have hsize : ∀ (count : Nat) (item : Item) (rest : List Item), ∃ closed,
        Item.closeLeaves count (item :: rest) = closed :: Item.closeLeaves count rest
          ∧ closed.size = item.size ∧ closed.isMarker = item.isMarker := by
      intro count item rest
      cases item with
      | op i => exact ⟨_, rfl, rfl, rfl⟩
      | jump _ _ => exact ⟨_, rfl, rfl, rfl⟩
      | leave kind => cases kind <;> exact ⟨_, rfl, rfl, rfl⟩
    obtain ⟨closed, hclosed, hsame, hmarker⟩ := hsize after item marked
    obtain ⟨closed', hclosed', hsame', -⟩ := hsize after' item' plain
    rw [hclosed, hclosed']
    exact .both (hmarker.trans h) (by rwa [hsame, hsame'])

theorem Meets.boundary (h : Meets p q marked plain o o') :
    Boundary p marked o ∧ Boundary q plain o' := by
  induction h with
  | here => exact ⟨.start, .start⟩
  | marker _ _ ih => exact ⟨boundary_cons.mpr (.inr ih.1), ih.2⟩
  | both _ _ ih => exact ⟨boundary_cons.mpr (.inr ih.1), boundary_cons.mpr (.inr ih.2)⟩

/-! ## Parallel code -/

theorem Parallel.alike (h : Parallel after after' marked plain) : Alike marked plain :=
  h 0 0 _ (fun _ _ _ => trivial) trivial

theorem Parallel.widen (h : Parallel 0 0 marked plain) : Parallel after after' marked plain :=
  fun p q R hmeets _ => h p q R hmeets (hmeets _ _ h.alike.meets_stop)

theorem parallel_nil : Parallel after after' [] [] :=
  fun _ _ _ _ _ => .nil

theorem parallel_marker {i : Instruction} (h : i.isMarker = true) :
    Parallel after after' [.op i] [] :=
  fun _ _ _ _ _ => .marker h .nil

theorem parallel_op {i : Instruction} (h : i.isMarker = false) (hjump : i.jumpTarget? = none) :
    Parallel after after' [.op i] [.op i] :=
  fun _ _ _ _ _ => .op h hjump .nil

theorem parallel_simple (op : SimpleOp) : Parallel after after' [.simple op] [.simple op] :=
  parallel_op rfl rfl

theorem parallel_leave (kind : Leave) : Parallel after after' [.leave kind] [.leave kind] :=
  fun _ _ _ _ _ => .leave .nil

theorem parallel_jump (condition : JumpWhen) :
    Parallel after after' [.jump condition (after : Nat)] [.jump condition (after' : Nat)] :=
  fun _ _ _ _ hafter => .jump hafter .nil

/-- What leads behind the code that follows it goes on like that code. -/
theorem Parallel.glue
    (h : Parallel (sizeAll second + after) (sizeAll second' + after') first first')
    (h' : Parallel after after' second second') :
    Parallel after after' (first ++ second) (first' ++ second') := by
  intro p q R hmeets hafter
  rw [sizeAll_append, sizeAll_append, ← Nat.add_assoc, ← Nat.add_assoc] at hafter
  refine .append (h p q R ?_ ?_) (h' _ _ R ?_ hafter)
  · intro o o' hmeet
    exact hmeets o o' hmeet.append_left
  · rwa [← Nat.add_assoc, ← Nat.add_assoc]
  · intro o o' hmeet
    exact hmeets o o' (hmeet.append_right h.alike)

theorem Parallel.append (h : Parallel 0 0 first first') (h' : Parallel 0 0 second second') :
    Parallel 0 0 (first ++ second) (first' ++ second') :=
  h.widen.glue h'

theorem Parallel.skip {condition : JumpWhen} (h : Parallel after after' marked plain) :
    Parallel after after' (skip condition marked) (skip condition plain) := by
  intro p q R hmeets hafter
  refine .jump (hmeets _ _ (.both rfl h.alike.meets_stop)) (h _ _ R ?_ ?_)
  · intro o o' hmeet
    exact hmeets o o' (.both rfl hmeet)
  · rwa [Item.skip, Item.skip, sizeAll, sizeAll, ← Nat.add_assoc, ← Nat.add_assoc] at hafter

theorem Parallel.choose (h : Parallel 0 0 first first') (h' : Parallel 0 0 second second') :
    Parallel after after' (choose first second) (choose first' second') := by
  exact (Parallel.glue (.skip (h.widen.glue (parallel_jump .always))) h').widen

theorem Parallel.closeLeaves (h : Parallel 0 0 marked plain) :
    Parallel after after' (closeLeaves after marked) (closeLeaves after' plain) := by
  intro p q R hmeets hafter
  rw [sizeAll_closeLeaves, sizeAll_closeLeaves] at hafter
  have hstop := hmeets _ _ h.alike.meets_stop.closeLeaves
  refine .closeLeaves (h p q R ?_ hstop) hstop hafter
  intro o o' hmeet
  exact hmeets o o' hmeet.closeLeaves

/-- Code that leads no further than behind a jump is a loop together with the jump back. -/
theorem Parallel.backWhen {condition : JumpWhen} (h : Parallel jumpSize jumpSize marked plain) :
    Parallel after after' (backWhen condition marked) (backWhen condition plain) := by
  intro p q R hmeets _
  have hback : ∀ start size : Nat,
      ((start + size : Nat) : Int) + jumpSize + -(size + jumpSize : Nat) = start := by
    intro start size
    omega
  refine .append (h p q R ?_ ?_) (.jump ?_ .nil)
  · intro o o' hmeet
    exact hmeets o o' hmeet.append_left
  · exact hmeets _ _ (.append_right h.alike (.both rfl .here))
  · rw [hback, hback]
    exact hmeets _ _ .here

/-- The body and the step of a loop, which lead no further than behind the jump back. -/
theorem Parallel.round (h : Parallel 0 0 marked plain) (h' : Parallel 0 0 second second') :
    Parallel jumpSize jumpSize (Item.closeLeaves (sizeAll second + jumpSize) marked ++ second)
      (Item.closeLeaves (sizeAll second' + jumpSize) plain ++ second') :=
  h.closeLeaves.glue h'.widen

theorem Parallel.repeatWhile {test : Option (List Item)}
    (htest : ∀ code ∈ test, Parallel 0 0 code code) (h : Parallel 0 0 marked plain)
    (h' : Parallel 0 0 second second') :
    Parallel after after' (repeatWhile test marked second) (repeatWhile test plain second') := by
  cases test with
  | none => exact (Parallel.round h h').backWhen
  | some code =>
    exact (Parallel.glue ((htest code rfl).widen.glue (parallel_jump .ifFalse))
      (.round h h')).backWhen

theorem Parallel.repeatUntil (h : Parallel 0 0 marked plain) (h' : Parallel 0 0 second second') :
    Parallel after after' (repeatUntil marked second) (repeatUntil plain second') :=
  (Parallel.round h h').backWhen

end Rules

end Item

/-! ## Trees -/

namespace Typed

open Item (Parallel parallel_nil parallel_marker parallel_op parallel_simple parallel_leave)

theorem parallel_assignmentCode (op : Option ArithOp) (target : Place) {reference value : List Item}
    (href : Parallel 0 0 reference reference) (hvalue : Parallel 0 0 value value) :
    Parallel 0 0 (assignmentCode op target reference value)
      (assignmentCode op target reference value) := by
  have haccess : ∀ read write, target.access? = some (read, write) →
      Parallel 0 0 [read] [read] ∧ Parallel 0 0 [write] [write] := by
    intro read write h
    cases target with
    | localVar slot type =>
      cases h
      exact ⟨parallel_op rfl rfl, parallel_op rfl rfl⟩
    | globalVar slot type =>
      cases h
      exact ⟨parallel_op rfl rfl, parallel_op rfl rfl⟩
    | _ => cases h
  unfold assignmentCode
  split
  · rename_i read write h
    exact hvalue.append ((parallel_simple .dup).append (haccess read write h).2)
  · rename_i read write op h
    exact ((haccess read write h).1.append hvalue).append
      ((parallel_simple op.operation).append
        ((parallel_simple .dup).append (haccess read write h).2))
  · exact (href.append hvalue).append (parallel_simple .store)
  · rename_i op h
    exact ((href.append ((parallel_simple .dup).append (parallel_simple .load))).append
      hvalue).append ((parallel_simple op.operation).append (parallel_simple .store))

mutual

/-- Expressions have no markers, and their jumps lead to items of their code. -/
theorem Expr.parallel : (e : Expr) → Parallel 0 0 e.code e.code
  | .int _ | .float _ | .bool _ | .localVar _ _ | .globalVar _ _ => parallel_op rfl rfl
  | .member base _ _ | .swizzle base _ _ => base.parallel.append (parallel_op rfl rfl)
  | .index base index _ => (base.parallel.append index.parallel).append (parallel_op rfl rfl)
  | .unary _ operand => operand.parallel.append (parallel_op rfl rfl)
  | .arith _ left right _ | .compare _ left right =>
    (left.parallel.append right.parallel).append (parallel_op rfl rfl)
  | .logic _ left right =>
    left.parallel.append ((parallel_simple .dup).append
      (.skip ((parallel_simple .pop).append right.parallel)))
  | .ternary test whenTrue whenFalse =>
    test.parallel.append (.choose whenTrue.parallel whenFalse.parallel)
  | .assign op target value => parallel_assignmentCode op target target.parallel value.parallel
  | .step _ target => target.parallel.append (parallel_op rfl rfl)
  | .call _ arguments _ => (Argument.parallelAll arguments).append (parallel_op rfl rfl)
  | .intrinsic _ arguments _ => (Expr.parallelAll arguments).append (parallel_op rfl rfl)
  | .construct _ _ arguments => (Expr.parallelAll arguments).append (parallel_op rfl rfl)

theorem Place.parallel : (place : Place) → Parallel 0 0 place.reference place.reference
  | .localVar _ _ | .globalVar _ _ => parallel_op rfl rfl
  | .member base _ _ | .swizzle base _ _ => base.parallel.append (parallel_op rfl rfl)
  | .index base index _ => (base.parallel.append index.parallel).append (parallel_op rfl rfl)

theorem Argument.parallel : (argument : Argument) → Parallel 0 0 argument.code argument.code
  | .value value => value.parallel
  | .reference place => place.parallel

theorem Expr.parallelAll : (es : List Expr) → Parallel 0 0 (Expr.codeAll es) (Expr.codeAll es)
  | [] => parallel_nil
  | first :: rest => first.parallel.append (Expr.parallelAll rest)

theorem Argument.parallelAll : (arguments : List Argument) →
    Parallel 0 0 (Argument.codeAll arguments) (Argument.codeAll arguments)
  | [] => parallel_nil
  | first :: rest => first.parallel.append (Argument.parallelAll rest)

end

theorem parallel_line (line : Nat) : Parallel 0 0 (marker true line) (marker false line) :=
  parallel_marker rfl

theorem Expr.parallel_effect (e : Expr) : Parallel 0 0 e.effect e.effect := by
  unfold Expr.effect
  split
  · exact e.parallel
  · exact e.parallel.append (parallel_simple .pop)

theorem Expr.parallel_optionEffect (e : Option Expr) :
    Parallel 0 0 (Expr.optionEffect e) (Expr.optionEffect e) := by
  cases e with
  | none => exact parallel_nil
  | some e => exact e.parallel_effect

theorem parallel_returnCode (value : Option Expr) :
    Parallel 0 0 (returnCode value) (returnCode value) := by
  cases value with
  | none => exact parallel_simple .ret
  | some e => exact e.parallel.append (parallel_simple .retValue)

theorem parallel_branchCode {first first' second second' : List Item} (hasElse : Bool)
    (h : Parallel 0 0 first first') (h' : Parallel 0 0 second second') :
    Parallel 0 0 (branchCode first second hasElse) (branchCode first' second' hasElse) := by
  cases hasElse with
  | true => exact .choose h h'
  | false => exact .skip h

mutual

/-- The code of a statement with markers is parallel to its code without them. -/
theorem Statement.parallel : (s : Statement) → Parallel 0 0 (s.code true) (s.code false)
  | .expr value line => (parallel_line line).append value.parallel_effect
  | .declare _ value line =>
    ((parallel_line line).append value.parallel).append (parallel_op rfl rfl)
  | .ifElse test whenTrue whenFalse line =>
    ((parallel_line line).append test.parallel).append
      (parallel_branchCode _ (Statement.parallelAll whenTrue) (Statement.parallelAll whenFalse))
  | .loop test step body line => by
    refine (parallel_line line).append
      (.repeatWhile ?_ (Statement.parallelAll body) (Expr.parallel_optionEffect step))
    intro code hcode
    obtain ⟨condition, -, rfl⟩ := Option.map_eq_some_iff.mp hcode
    exact condition.parallel
  | .doLoop body test line =>
    (parallel_line line).append (.repeatUntil (Statement.parallelAll body) test.parallel)
  | .returnFrom value line => (parallel_line line).append (parallel_returnCode value)
  | .leave kind line => (parallel_line line).append (parallel_leave kind)
  | .discardPixel line => (parallel_line line).append (parallel_simple .discard)
  | .block body => Statement.parallelAll body

theorem Statement.parallelAll : (body : List Statement) →
    Parallel 0 0 (Statement.codeAll true body) (Statement.codeAll false body)
  | [] => parallel_nil
  | first :: rest => first.parallel.append (Statement.parallelAll rest)

end

theorem Definition.parallel (d : Definition) : Parallel 0 0 (d.code true) (d.code false) := by
  refine (Statement.parallelAll d.body).append ?_
  split
  · exact parallel_nil
  · exact parallel_returnCode d.zero

theorem Global.parallel (g : Global) (index : Nat) :
    Parallel 0 0 (g.code true index) (g.code false index) := by
  unfold Global.code
  split
  · rename_i value _
    exact ((parallel_line g.line).append value.parallel).append (parallel_op rfl rfl)
  · exact parallel_nil

end Typed

end ShaderBytecode
