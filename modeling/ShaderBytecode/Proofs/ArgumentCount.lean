import ShaderBytecode.Parser.Expression

/-!
# Counting the arguments of a call

How many arguments a call has can be seen from the tokens behind its name: one more than the commas
up to the closing parenthesis, those in further parentheses left out. Whatever is read as an
expression has no comma of its own and closes every parenthesis that it opens.
-/

namespace ShaderBytecode

/-- The commas up to the parenthesis that closes what is open. Those in further parentheses are left
out, of which `depth` are open. There is no count if the parenthesis is missing. -/
def commas : (depth : Nat) → List Token → Option Nat
  | _, [] => none
  | depth, ⟨.punct .openParen, _⟩ :: rest => commas (depth + 1) rest
  | 0, ⟨.punct .closeParen, _⟩ :: _ => some 0
  | depth + 1, ⟨.punct .closeParen, _⟩ :: rest => commas depth rest
  | 0, ⟨.punct .comma, _⟩ :: rest => (commas 0 rest).map (· + 1)
  | depth, _ :: rest => commas depth rest

/-- The number of arguments in the parentheses that tokens start with. -/
def callCount? : List Token → Option Nat
  | ⟨.punct .openParen, _⟩ :: ⟨.punct .closeParen, _⟩ :: _ => some 0
  | ⟨.punct .openParen, _⟩ :: rest => (commas 0 rest).map (· + 1)
  | _ => none

/-- Whether a token is neither a parenthesis nor a comma. -/
def TokenKind.IsPlain (kind : TokenKind) : Prop :=
  kind ≠ .punct .openParen ∧ kind ≠ .punct .closeParen ∧ kind ≠ .punct .comma

/-- No parenthesis or comma is an operator. -/
theorem TokenKind.IsPlain.of_eq_some {α : Type} {op? : TokenKind → Option α} {kind : TokenKind}
    {op : α} (h : op? kind = some op) (hopen : op? (.punct .openParen) = none)
    (hclose : op? (.punct .closeParen) = none) (hcomma : op? (.punct .comma) = none) :
    kind.IsPlain := by
  refine ⟨?_, ?_, ?_⟩ <;> rintro rfl <;> simp_all

namespace Cursor

variable {c c₁ c₂ : Cursor} {kind : TokenKind} {n : Nat}

theorem rest_of_peek (h : c.peek = some kind) :
    ∃ span rest, c.rest = ⟨kind, span⟩ :: rest ∧ c.advance.rest = rest := by
  cases hrest : c.rest with
  | nil =>
    rw [peek, hrest] at h
    cases h
  | cons token rest =>
    rw [peek, hrest] at h
    cases h
    exact ⟨token.span, rest, rfl, by rw [advance, hrest]⟩

/-- Between two cursors each parenthesis is closed, and commas stand in parentheses only. -/
def Closed (c c' : Cursor) : Prop :=
  ∀ depth, commas depth c'.rest = commas depth c.rest

/-- Between two cursors stand so many items, with commas between them. -/
structure Lists (n : Nat) (c c' : Cursor) : Prop where
  inside : ∀ depth, commas (depth + 1) c'.rest = commas (depth + 1) c.rest
  count : (commas 0 c.rest).map (· + 1) = (commas 0 c'.rest).map (· + n)

theorem Closed.trans (h : c.Closed c₁) (h' : c₁.Closed c₂) : c.Closed c₂ :=
  fun depth => (h' depth).trans (h depth)

theorem closed_advance (h : c.peek = some kind) (hplain : kind.IsPlain) : c.Closed c.advance := by
  obtain ⟨span, rest, hrest, hadvance⟩ := rest_of_peek h
  obtain ⟨hopen, hclose, hcomma⟩ := hplain
  intro depth
  rw [hrest, hadvance]
  conv => rhs; unfold commas
  split <;> simp_all

theorem commas_advance_openParen (h : c.peek = some (.punct .openParen)) (depth : Nat) :
    commas (depth + 1) c.advance.rest = commas depth c.rest := by
  obtain ⟨span, rest, hrest, hadvance⟩ := rest_of_peek h
  rw [hrest, hadvance, commas]

theorem commas_advance_closeParen (h : c.peek = some (.punct .closeParen)) (depth : Nat) :
    commas depth c.advance.rest = commas (depth + 1) c.rest := by
  obtain ⟨span, rest, hrest, hadvance⟩ := rest_of_peek h
  rw [hrest, hadvance, commas]

/-- What stands in parentheses counts no more than what lies open. -/
theorem closed_of_parens (hopen : c.peek = some (.punct .openParen))
    (h : ∀ depth, commas (depth + 1) c₁.rest = commas (depth + 1) c.advance.rest)
    (hclose : c₁.peek = some (.punct .closeParen)) : c.Closed c₁.advance := fun depth => by
  rw [commas_advance_closeParen hclose, h, commas_advance_openParen hopen]

theorem Closed.lists (h : c.Closed c₁) : c.Lists 1 c₁ :=
  ⟨fun depth => h _, by rw [h]⟩

theorem Lists.cons (h : c.Closed c₁) (hcomma : c₁.peek = some (.punct .comma))
    (h' : c₁.advance.Lists n c₂) : c.Lists (n + 1) c₂ := by
  obtain ⟨span, rest, hrest, hadvance⟩ := rest_of_peek hcomma
  have hinside := h'.inside
  have hcount := h'.count
  rw [hadvance] at hinside hcount
  refine ⟨fun depth => ?_, ?_⟩
  · rw [hinside, ← h, hrest]
    rfl
  · rw [← h, hrest, commas, hcount, Option.map_map]
    rfl

theorem callCount?_empty (hopen : c.peek = some (.punct .openParen))
    (hclose : c.advance.peek = some (.punct .closeParen)) : callCount? c.rest = some 0 := by
  obtain ⟨span, rest, hrest, hadvance⟩ := rest_of_peek hopen
  obtain ⟨span', rest', hrest', -⟩ := rest_of_peek hclose
  rw [hrest, ← hadvance, hrest']
  rfl

theorem Lists.callCount? (h : c.advance.Lists n c₁) (hopen : c.peek = some (.punct .openParen))
    (hclose : c.advance.peek ≠ some (.punct .closeParen))
    (hend : c₁.peek = some (.punct .closeParen)) : callCount? c.rest = some n := by
  obtain ⟨span, rest, hrest, hadvance⟩ := rest_of_peek hopen
  obtain ⟨span', rest', hrest', -⟩ := rest_of_peek hend
  have hcount := h.count
  rw [hrest', commas, hadvance, Option.map_some, Nat.zero_add] at hcount
  rw [hrest]
  unfold ShaderBytecode.callCount?
  split
  · rename_i heq
    rw [peek, hadvance, (List.cons.inj heq).2] at hclose
    exact absurd rfl hclose
  · rename_i heq
    rw [← (List.cons.inj heq).2, hcount]
  · rename_i hother
    exact absurd rfl (hother span rest)

end Cursor

namespace Parser

variable {α β : Type}

theorem run_eat_of_ne {kind : TokenKind} {c : Cursor} (h : c.peek ≠ some kind) :
    (eat kind).run c = .ok (false, c) := by
  show (if decide (c.peek = some kind) = true then _ else _ : Parser Bool).run c = _
  rw [if_neg (by simp [h])]
  rfl

/-- What `eat` did: it moved over the token, or the token was not there. -/
theorem run_eat {kind : TokenKind} {c c' : Cursor} {answer : Bool}
    (h : (eat kind).run c = .ok (answer, c')) :
    if answer then c.peek = some kind ∧ c' = c.advance else c.peek ≠ some kind ∧ c' = c := by
  by_cases hpeek : c.peek = some kind
  · have hrun : (eat kind).run c = .ok (true, c.advance) := by
      show (if decide (c.peek = some kind) = true then _ else _ : Parser Bool).run c = _
      rw [if_pos (decide_eq_true hpeek)]
      rfl
    rw [hrun] at h
    cases h
    exact ⟨hpeek, rfl⟩
  · rw [run_eat_of_ne hpeek] at h
    cases h
    exact ⟨hpeek, rfl⟩

end Parser

end ShaderBytecode
