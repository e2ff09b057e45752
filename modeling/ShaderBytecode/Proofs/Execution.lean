import ShaderBytecode.Proofs.Evaluation
import ShaderBytecode.Proofs.Routines

/-!
# Bytes realize behaviours

The bytes between two offsets realize a behaviour if running from the first one halts just if the
behaviour gets out of them and running from where it leads halts. What control flow makes of
behaviours is proved here once, without a look at trees.
-/

namespace ShaderBytecode

universe u v

open Typed (Leave)

variable {σ : Type u} {m : Machine σ} {bytes : List UInt8}

/-! ## Running -/

namespace Machine

theorem run_mono {fuel more p : Nat} {s : σ} {r : Instruction × σ}
    (h : m.run bytes fuel p s = some r) (hle : fuel ≤ more) : m.run bytes more p s = some r := by
  induction fuel generalizing more p s with
  | zero => cases h
  | succ fuel ih =>
    obtain ⟨more, rfl⟩ : ∃ k, more = k + 1 := ⟨more - 1, by omega⟩
    rw [run] at h ⊢
    cases hfetch : fetch? bytes p with
    | none =>
      rw [hfetch] at h
      cases h
    | some found =>
      obtain ⟨i, behind⟩ := found
      rw [hfetch] at h
      simp only [] at h ⊢
      cases hfinal : i.isFinal with
      | true =>
        rw [hfinal] at h
        exact h
      | false =>
        rw [hfinal] at h
        exact ih h (Nat.le_of_succ_le_succ hle)

theorem run_length (m : Machine σ) (bytes : List UInt8) (fuel : Nat) (s : σ) :
    m.run bytes fuel bytes.length s = none := by
  cases fuel with
  | zero => rfl
  | succ fuel =>
    have hfetch : fetch? bytes bytes.length = none := by
      unfold fetch?
      rw [List.drop_length]
      rfl
    rw [run, hfetch]

/-- Running from one place is running from another: it gives the same answers, with no more
fuel. -/
structure Leads (m : Machine σ) (bytes : List UInt8) (p : Nat) (s : σ) (q : Nat) (s' : σ) :
    Prop where
  back : ∀ {fuel r}, m.run bytes fuel q s' = some r → ∃ more, m.run bytes more p s = some r
  forth : ∀ {fuel r}, m.run bytes fuel p s = some r → m.run bytes fuel q s' = some r

/-- Running from one place is running from another one, which needs less fuel. -/
structure LeadsBack (m : Machine σ) (bytes : List UInt8) (p : Nat) (s : σ) (q : Nat) (s' : σ) :
    Prop where
  back : ∀ {fuel r}, m.run bytes fuel q s' = some r → ∃ more, m.run bytes more p s = some r
  forth : ∀ {fuel r}, m.run bytes fuel p s = some r →
    ∃ less < fuel, m.run bytes less q s' = some r

variable {p q w : Nat} {s s₁ s₂ : σ}

theorem Leads.refl : m.Leads bytes p s p s :=
  ⟨fun h => ⟨_, h⟩, id⟩

theorem LeadsBack.leads (h : m.LeadsBack bytes p s q s₁) : m.Leads bytes p s q s₁ where
  back := h.back
  forth hrun := by
    obtain ⟨less, hlt, hless⟩ := h.forth hrun
    exact run_mono hless (Nat.le_of_lt hlt)

theorem Leads.trans (h : m.Leads bytes p s q s₁) (h' : m.Leads bytes q s₁ w s₂) :
    m.Leads bytes p s w s₂ where
  back hrun := by
    obtain ⟨fuel, hfuel⟩ := h'.back hrun
    exact h.back hfuel
  forth hrun := h'.forth (h.forth hrun)

theorem Leads.trans_leadsBack (h : m.Leads bytes p s q s₁) (h' : m.LeadsBack bytes q s₁ w s₂) :
    m.LeadsBack bytes p s w s₂ where
  back hrun := by
    obtain ⟨fuel, hfuel⟩ := h'.back hrun
    exact h.back hfuel
  forth hrun := h'.forth (h.forth hrun)

/-- An instruction that does not stop leads to where control goes. -/
theorem leadsBack_next {i : Instruction} {behind : Nat} (hfetch : fetch? bytes p = some (i, behind))
    (hfinal : i.isFinal = false) :
    m.LeadsBack bytes p s (m.next i behind s).1 (m.next i behind s).2 := by
  have hrun : ∀ fuel, m.run bytes (fuel + 1) p s
      = m.run bytes fuel (m.next i behind s).1 (m.next i behind s).2 := by
    intro fuel
    rw [run, hfetch]
    simp only [hfinal, Bool.false_eq_true, if_false]
  constructor
  · intro fuel r h
    exact ⟨fuel + 1, (hrun fuel).trans h⟩
  · intro fuel r h
    cases fuel with
    | zero => cases h
    | succ fuel => exact ⟨fuel, Nat.lt_succ_self _, (hrun fuel).symm.trans h⟩

theorem ite_takes_ifFalse {α : Sort v} {yes no : α} :
    (if (m.takes .ifFalse s).1 then yes else no) = if (m.test s).1 then no else yes := by
  cases hvalue : (m.test s).1 <;> simp [takes, hvalue]

end Machine

/-! ## Realizing behaviours -/

/-- Running goes on in the way of an outcome, from an exit or from the target of a leave, and gives
an answer. -/
def Outcome.Continues (m : Machine σ) (bytes : List UInt8) (targets : Leave → Nat) (exit fuel : Nat)
    (r : Instruction × σ) : Outcome → σ → Prop
  | .goesOn, s => m.run bytes fuel exit s = some r
  | .leaves kind, s => m.run bytes fuel (targets kind) s = some r
  | .stops final, s => r = (final, s)

theorem Outcome.Continues.mono {targets : Leave → Nat} {exit fuel more : Nat} {r : Instruction × σ}
    {o : Outcome} {s : σ} (h : o.Continues m bytes targets exit fuel r s) (hle : fuel ≤ more) :
    o.Continues m bytes targets exit more r s := by
  cases o with
  | goesOn => exact Machine.run_mono h hle
  | leaves kind => exact Machine.run_mono h hle
  | stops final => exact h

/-- The bytes between two offsets realize a behaviour: if it gets out and running goes on to an
answer, that is the answer from the first offset, and every answer from there comes so. -/
structure Realizes (m : Machine σ) (bytes : List UInt8) (targets : Leave → Nat) (start exit : Nat)
    (b : Behaviour σ) : Prop where
  sound : ∀ {s o s' fuel r}, b s o s' → o.Continues m bytes targets exit fuel r s' →
    ∃ more, m.run bytes more start s = some r
  complete : ∀ {s fuel r}, m.run bytes fuel start s = some r →
    ∃ o s', b s o s' ∧ o.Continues m bytes targets exit fuel r s'

namespace Behaviour

variable {f g : σ → σ} {b : Behaviour σ}

theorem ofFunction_andThen : (ofFunction .goesOn f).andThen b = fun s => b (f s) := by
  funext s o s'
  refine propext ⟨?_, fun h => .inl ⟨f s, ⟨rfl, rfl⟩, h⟩⟩
  rintro (⟨between, ⟨-, rfl⟩, h⟩ | ⟨hne, rfl, -⟩)
  · exact h
  · exact absurd rfl hne

theorem ofFunction_andThen_ofFunction {o : Outcome} :
    (ofFunction .goesOn f).andThen (ofFunction o g) = ofFunction o fun s => g (f s) :=
  ofFunction_andThen

theorem andThen_eq_left {a : Behaviour σ} (h : ∀ s s', ¬a s .goesOn s') : a.andThen b = a := by
  funext s o s'
  refine propext ⟨?_, fun ha => .inr ⟨?_, ha⟩⟩
  · rintro (⟨between, ha, -⟩ | ⟨-, ha⟩)
    · exact absurd ha (h s between)
    · exact ha
  · rintro rfl
    exact h s s' ha

theorem branch_ofFunction {test : σ → Bool × σ} :
    branch test (ofFunction .goesOn f) (ofFunction .goesOn g)
      = ofFunction .goesOn fun s => if (test s).1 then f (test s).2 else g (test s).2 := by
  funext s o s'
  unfold branch
  split
  · rename_i htest
    simp only [ofFunction, htest, if_true]
  · rename_i htest
    simp only [ofFunction, htest, Bool.false_eq_true, if_false]

theorem branch_takes_ifFalse {a b : Behaviour σ} :
    branch (m.takes .ifFalse) b a = branch m.test a b := by
  funext s o s'
  exact Machine.ite_takes_ifFalse

end Behaviour

namespace Realizes

variable {targets : Leave → Nat} {p q w : Nat} {a b : Behaviour σ}

theorem ofFunction_iff {f : σ → σ} : Realizes m bytes targets p q (.ofFunction .goesOn f)
    ↔ ∀ s, m.Leads bytes p s q (f s) := by
  constructor
  · intro h s
    constructor
    · intro fuel r hrun
      exact h.sound ⟨rfl, rfl⟩ (o := .goesOn) hrun
    · intro fuel r hrun
      obtain ⟨_, _, ⟨rfl, rfl⟩, hrest⟩ := h.complete hrun
      exact hrest
  · intro h
    constructor
    · rintro s _ _ fuel r ⟨rfl, rfl⟩ hrun
      exact (h s).back hrun
    · intro s fuel r hrun
      exact ⟨.goesOn, f s, ⟨rfl, rfl⟩, (h s).forth hrun⟩

theorem leaves {kind : Leave} (h : ∀ s, m.Leads bytes p s (targets kind) s) :
    Realizes m bytes targets p q (.ofFunction (.leaves kind) id) where
  sound := by
    rintro s _ s' fuel r ⟨rfl, rfl⟩ hrun
    exact (h s').back hrun
  complete := by
    intro s fuel r hrun
    exact ⟨.leaves kind, s, ⟨rfl, rfl⟩, (h s).forth hrun⟩

theorem stops {i : Instruction} {behind : Nat} (hfetch : fetch? bytes p = some (i, behind))
    (hfinal : i.isFinal = true) :
    Realizes m bytes targets p q (.ofFunction (.stops i) id) where
  sound := by
    rintro s _ _ fuel r ⟨rfl, rfl⟩ rfl
    refine ⟨1, ?_⟩
    rw [Machine.run, hfetch]
    simp only [hfinal, if_true]
  complete := by
    intro s fuel r hrun
    cases fuel with
    | zero => cases hrun
    | succ fuel =>
      rw [Machine.run, hfetch] at hrun
      simp only [hfinal, if_true] at hrun
      cases hrun
      exact ⟨.stops i, s, ⟨rfl, rfl⟩, rfl⟩

theorem andThen (ha : Realizes m bytes targets p q a) (hb : Realizes m bytes targets q w b) :
    Realizes m bytes targets p w (a.andThen b) where
  sound := by
    rintro s o s' fuel r (⟨between, hfirst, hsecond⟩ | ⟨hne, hfirst⟩) hrun
    · obtain ⟨more, hmore⟩ := hb.sound hsecond hrun
      exact ha.sound (o := .goesOn) hfirst hmore
    · cases o with
      | goesOn => exact absurd rfl hne
      | leaves kind => exact ha.sound (o := .leaves kind) hfirst hrun
      | stops final => exact @ha.sound s (.stops final) s' 0 r hfirst hrun
  complete := by
    intro s fuel r hrun
    obtain ⟨o, between, hfirst, hrest⟩ := ha.complete hrun
    cases o with
    | goesOn =>
      obtain ⟨o', s', hsecond, hlast⟩ := hb.complete hrest
      exact ⟨o', s', .inl ⟨between, hfirst, hsecond⟩, hlast⟩
    | leaves kind => exact ⟨.leaves kind, between, .inr ⟨nofun, hfirst⟩, hrest⟩
    | stops final => exact ⟨.stops final, between, .inr ⟨nofun, hfirst⟩, hrest⟩

theorem leadsOn (h : Realizes m bytes targets p q b) (hleads : ∀ s, m.Leads bytes q s w s) :
    Realizes m bytes targets p w b where
  sound := by
    intro s o s' fuel r hb hrun
    cases o with
    | goesOn =>
      obtain ⟨more, hmore⟩ := (hleads s').back hrun
      exact h.sound (o := .goesOn) hb hmore
    | leaves kind => exact h.sound (o := .leaves kind) hb hrun
    | stops final => exact @h.sound s (.stops final) s' 0 r hb hrun
  complete := by
    intro s fuel r hrun
    obtain ⟨o, s', hb, hrest⟩ := h.complete hrun
    refine ⟨o, s', hb, ?_⟩
    cases o with
    | goesOn => exact (hleads s').forth hrest
    | leaves kind => exact hrest
    | stops final => exact hrest

theorem branch {test : σ → Bool × σ} {q' : Nat}
    (htest : ∀ s, m.Leads bytes p s (if (test s).1 then q else q') (test s).2)
    (ha : Realizes m bytes targets q w a) (hb : Realizes m bytes targets q' w b) :
    Realizes m bytes targets p w (.branch test a b) where
  sound := by
    intro s o s' fuel r hbranch hrun
    have hleads := htest s
    unfold Behaviour.branch at hbranch
    cases hvalue : (test s).1 with
    | true =>
      rw [hvalue, if_pos rfl] at hleads hbranch
      obtain ⟨more, hmore⟩ := ha.sound hbranch hrun
      exact hleads.back hmore
    | false =>
      rw [hvalue, if_neg Bool.false_ne_true] at hleads hbranch
      obtain ⟨more, hmore⟩ := hb.sound hbranch hrun
      exact hleads.back hmore
  complete := by
    intro s fuel r hrun
    have hleads := htest s
    unfold Behaviour.branch
    cases hvalue : (test s).1 with
    | true =>
      rw [hvalue, if_pos rfl] at hleads
      obtain ⟨o, s', hfirst, hrest⟩ := ha.complete (hleads.forth hrun)
      exact ⟨o, s', hfirst, hrest⟩
    | false =>
      rw [hvalue, if_neg Bool.false_ne_true] at hleads
      obtain ⟨o, s', hfirst, hrest⟩ := hb.complete (hleads.forth hrun)
      exact ⟨o, s', hfirst, hrest⟩

def loopTargets (exit again : Nat) : Leave → Nat
  | .breakLoop => exit
  | .continueLoop => again

/-- A round that ends leads to where the loop is asked whether to go on. -/
theorem continues_of_endsRound {exit again fuel : Nat} {r : Instruction × σ} {o : Outcome} {s : σ}
    (ho : o.endsRound) : o.Continues m bytes (loopTargets exit again) again fuel r s
      ↔ m.run bytes fuel again s = some r := by
  match o, ho with
  | .goesOn, _ => exact Iff.rfl
  | .leaves .continueLoop, _ => exact Iff.rfl

section Loops

variable {start first again exit : Nat} {enter after : σ → Bool × σ}
variable (henter : ∀ s, m.Leads bytes start s (if (enter s).1 then first else exit) (enter s).2)
variable (hbody : Realizes m bytes (loopTargets exit again) first again b)
variable (hafter : ∀ s,
  m.LeadsBack bytes again s (if (after s).1 then start else exit) (after s).2)
include henter hbody hafter

theorem rounds_sound {s s' : σ} {o : Outcome} {fuel : Nat} {r : Instruction × σ}
    (h : Rounds enter b after s o s') (hrun : o.Continues m bytes targets exit fuel r s') :
    ∃ more, m.run bytes more start s = some r := by
  induction h generalizing fuel with
  | @exit s s₁ hfalse =>
    have hleads := henter s
    rw [hfalse] at hleads
    exact hleads.back hrun
  | @again s s₁ s₂ s₃ s' o o' htrue hround ho hgo hrest ih =>
    have hleads := henter s
    have hleads' := hafter s₂
    rw [htrue] at hleads
    rw [hgo] at hleads'
    obtain ⟨fuel, hfuel⟩ := ih hrun
    obtain ⟨fuel, hfuel⟩ := hleads'.back hfuel
    obtain ⟨fuel, hfuel⟩ := hbody.sound hround ((continues_of_endsRound ho).mpr hfuel)
    exact hleads.back hfuel
  | @last s s₁ s₂ s₃ o htrue hround ho hgo =>
    have hleads := henter s
    have hleads' := hafter s₂
    rw [htrue] at hleads
    rw [hgo] at hleads'
    obtain ⟨fuel, hfuel⟩ := hleads'.back hrun
    obtain ⟨fuel, hfuel⟩ := hbody.sound hround ((continues_of_endsRound ho).mpr hfuel)
    exact hleads.back hfuel
  | @broken s s₁ s₂ htrue hround =>
    have hleads := henter s
    rw [htrue] at hleads
    obtain ⟨fuel, hfuel⟩ := hbody.sound (o := .leaves .breakLoop) hround hrun
    exact hleads.back hfuel
  | @stopped s s₁ s₂ final htrue hround =>
    have hleads := henter s
    rw [htrue] at hleads
    obtain ⟨fuel, hfuel⟩ := @hbody.sound s₁ (.stops final) s₂ 0 r hround hrun
    exact hleads.back hfuel

theorem rounds_complete {s : σ} {fuel : Nat} {r : Instruction × σ}
    (h : m.run bytes fuel start s = some r) :
    ∃ o s', Rounds enter b after s o s' ∧ o.Continues m bytes targets exit fuel r s' := by
  -- the way back to the start needs fuel, so the induction is on the fuel
  induction fuel using Nat.strongRecOn generalizing s with
  | ind fuel ih =>
    have hleads := henter s
    obtain ⟨answer, s₁, henters⟩ : ∃ answer s₁, enter s = (answer, s₁) := ⟨_, _, rfl⟩
    rw [henters] at hleads
    cases answer with
    | false => exact ⟨.goesOn, s₁, .exit henters, hleads.forth h⟩
    | true =>
      obtain ⟨o, s₂, hround, hrest⟩ := hbody.complete (hleads.forth h)
      have hends : o.endsRound → ∃ o s', Rounds enter b after s o s'
          ∧ o.Continues m bytes targets exit fuel r s' := by
        intro ho
        have hleads' := hafter s₂
        obtain ⟨goes, s₃, hgoes⟩ : ∃ goes s₃, after s₂ = (goes, s₃) := ⟨_, _, rfl⟩
        rw [hgoes] at hleads'
        obtain ⟨less, hlt, hless⟩ := hleads'.forth ((continues_of_endsRound ho).mp hrest)
        cases goes with
        | false => exact ⟨.goesOn, s₃, .last henters hround ho hgoes,
            Machine.run_mono hless (Nat.le_of_lt hlt)⟩
        | true =>
          obtain ⟨o', s', hrounds, hcontinues⟩ := ih less hlt hless
          exact ⟨o', s', .again henters hround ho hgoes hrounds,
            hcontinues.mono (Nat.le_of_lt hlt)⟩
      cases o with
      | goesOn => exact hends trivial
      | leaves kind =>
        cases kind with
        | breakLoop => exact ⟨.goesOn, s₂, .broken henters hround, hrest⟩
        | continueLoop => exact hends trivial
      | stops final => exact ⟨.stops final, s₂, .stopped henters hround, hrest⟩

theorem rounds : Realizes m bytes targets start exit (Rounds enter b after) where
  sound := rounds_sound henter hbody hafter
  complete := rounds_complete henter hbody hafter

end Loops

end Realizes

/-! ## Placed items -/

namespace Item

/-- An item stands at an offset of bytes. What leaves a loop is a jump to its target. -/
def Placed (bytes : List UInt8) (targets : Leave → Nat) (offset : Nat) : Item → Prop
  | .op i => fetch? bytes offset = some (i, offset + i.size)
  | .jump condition distance => ∃ target : UInt32,
      (target.toNat : Int) = offset + jumpSize + distance
      ∧ fetch? bytes offset = some (.jump condition target, offset + jumpSize)
  | .leave kind => ∃ target : UInt32, target.toNat = targets kind
      ∧ fetch? bytes offset = some (.jump .always target, offset + jumpSize)

/-- Items stand one behind the other from an offset of bytes on. -/
def AllPlaced (bytes : List UInt8) (targets : Leave → Nat) : (offset : Nat) → List Item → Prop
  | _, [] => True
  | offset, item :: rest =>
    item.Placed bytes targets offset ∧ AllPlaced bytes targets (offset + item.size) rest

variable {targets : Leave → Nat} {p : Nat} {items first second : List Item}

theorem allPlaced_append : AllPlaced bytes targets p (first ++ second) ↔
    AllPlaced bytes targets p first ∧ AllPlaced bytes targets (p + sizeAll first) second := by
  induction first generalizing p with
  | nil => exact (true_and _).symm.to_iff
  | cons item rest ih =>
    rw [List.cons_append, AllPlaced, AllPlaced, ih, sizeAll, Nat.add_assoc, and_assoc]

/-- What stands with its leaves closed stands with the targets of the loop. -/
theorem AllPlaced.of_closeLeaves {after : Nat}
    (h : AllPlaced bytes targets p (closeLeaves after items)) :
    AllPlaced bytes
      (Realizes.loopTargets (p + sizeAll items + after) (p + sizeAll items)) p items := by
  generalize hexit : p + sizeAll items + after = exit
  generalize hagain : p + sizeAll items = again
  induction items generalizing p with
  | nil => trivial
  | cons item rest ih =>
    rw [sizeAll] at hexit hagain
    have hrest := fun (h : AllPlaced bytes targets (p + item.size) (closeLeaves after rest)) =>
      ih h (by omega) (by omega)
    cases item with
    | op i => exact ⟨h.1, hrest h.2⟩
    | jump condition distance => exact ⟨h.1, hrest h.2⟩
    | leave kind =>
      rw [size] at hexit hagain
      cases kind with
      | breakLoop =>
        obtain ⟨⟨target, htarget, hfetch⟩, hmore⟩ := h
        refine ⟨⟨target, ?_, hfetch⟩, hrest hmore⟩
        simp only [Realizes.loopTargets]
        omega
      | continueLoop =>
        obtain ⟨⟨target, htarget, hfetch⟩, hmore⟩ := h
        refine ⟨⟨target, ?_, hfetch⟩, hrest hmore⟩
        simp only [Realizes.loopTargets]
        omega

/-- A jump leads to its target if it is taken, and behind it otherwise. -/
theorem Placed.leadsBack {condition : JumpWhen} {distance : Int} {there : Nat}
    (h : (Item.jump condition distance).Placed bytes targets p)
    (hthere : (there : Int) = p + jumpSize + distance) (s : σ) :
    m.LeadsBack bytes p s (if (m.takes condition s).1 then there else p + jumpSize)
      (m.takes condition s).2 := by
  obtain ⟨target, htarget, hfetch⟩ := h
  obtain rfl : target.toNat = there := by omega
  exact m.leadsBack_next hfetch rfl

end Item

/-! ## Behaviours of items -/

namespace Item

def Behaves (m : Machine σ) (bytes : List UInt8) (items : List Item) (b : Behaviour σ) : Prop :=
  ∀ targets p, AllPlaced bytes targets p items →
    Realizes m bytes targets p (p + sizeAll items) b

variable {items first second body step : List Item} {a b : Behaviour σ} {f : σ → σ}

theorem behaves_nil : Behaves m bytes [] (.ofFunction .goesOn id) :=
  fun _ _ _ => Realizes.ofFunction_iff.mpr fun _ => .refl

theorem behaves_append (ha : Behaves m bytes first a) (hb : Behaves m bytes second b) :
    Behaves m bytes (first ++ second) (a.andThen b) := by
  intro targets p hplaced
  obtain ⟨hfirst, hsecond⟩ := allPlaced_append.mp hplaced
  rw [sizeAll_append, ← Nat.add_assoc]
  exact (ha targets p hfirst).andThen (hb targets _ hsecond)

/-- An instruction that neither jumps nor stops does what it does. -/
theorem behaves_op {i : Instruction} (hjump : i.jumpTarget? = none) (hfinal : i.isFinal = false) :
    Behaves m bytes [.op i] (.ofFunction .goesOn (m.act i)) := by
  intro targets p hplaced
  refine Realizes.ofFunction_iff.mpr fun s => ?_
  have hleads := (m.leadsBack_next (s := s) hplaced.1 hfinal).leads
  have hnext : m.next i (p + i.size) s = (p + i.size, m.act i s) := by
    cases i with
    | jump condition target => cases hjump
    | _ => rfl
  rw [hnext] at hleads
  exact hleads

theorem behaves_final {i : Instruction} (hfinal : i.isFinal = true) :
    Behaves m bytes [.op i] (.ofFunction (.stops i) id) :=
  fun _ _ hplaced => Realizes.stops hplaced.1 hfinal

theorem behaves_leave (kind : Leave) :
    Behaves m bytes [.leave kind] (.ofFunction (.leaves kind) id) := by
  intro targets p hplaced
  obtain ⟨⟨target, htarget, hfetch⟩, -⟩ := hplaced
  refine Realizes.leaves fun s => ?_
  rw [← htarget]
  exact (m.leadsBack_next (s := s) hfetch rfl).leads

theorem behaves_skip (condition : JumpWhen) (hbody : Behaves m bytes body b) :
    Behaves m bytes (skip condition body)
      (.branch (m.takes condition) (.ofFunction .goesOn id) b) := by
  rintro targets p ⟨hjump, hplaced⟩
  have hto : ((p + sizeAll (skip condition body) : Nat) : Int) = p + jumpSize + sizeAll body := by
    rw [skip, sizeAll, size]
    omega
  refine Realizes.branch (fun s => (hjump.leadsBack hto s).leads) ?_ ?_
  · exact Realizes.ofFunction_iff.mpr fun s => .refl
  · have hrealizes := hbody targets _ hplaced
    rwa [Nat.add_assoc] at hrealizes

theorem behaves_choose (ha : Behaves m bytes first a) (hb : Behaves m bytes second b) :
    Behaves m bytes (choose first second) (.branch m.test a b) := by
  intro targets p hplaced
  rw [choose, skip, List.cons_append, List.append_assoc] at hplaced
  obtain ⟨hjump, hrest⟩ := hplaced
  obtain ⟨hfirst, hover, hsecond⟩ := allPlaced_append.mp hrest
  have hexit : p + sizeAll (choose first second)
      = p + jumpSize + sizeAll first + jumpSize + sizeAll second := by
    simp only [choose, skip, sizeAll, size, List.cons_append, sizeAll_append]
    omega
  rw [hexit, ← Behaviour.branch_takes_ifFalse]
  have hjumpTo : ((p + jumpSize + sizeAll first + jumpSize : Nat) : Int)
      = p + jumpSize + sizeAll (first ++ [.jump .always (sizeAll second)]) := by
    simp only [sizeAll_append, sizeAll, size]
    omega
  have hoverTo : ((p + jumpSize + sizeAll first + jumpSize + sizeAll second : Nat) : Int)
      = (p + jumpSize + sizeAll first : Nat) + jumpSize + sizeAll second := by
    omega
  exact Realizes.branch (fun s => (hjump.leadsBack hjumpTo s).leads) (hb targets _ hsecond)
    ((ha targets _ hfirst).leadsOn fun s => (hover.leadsBack hoverTo s).leads)

theorem behaves_repeatWhile {test : List Item} {f g : σ → σ}
    (htest : Behaves m bytes test (.ofFunction .goesOn f)) (hbody : Behaves m bytes body b)
    (hstep : Behaves m bytes step (.ofFunction .goesOn g)) :
    Behaves m bytes (repeatWhile (some test) body step)
      (Rounds (fun s => m.test (f s)) b fun s => (true, g s)) := by
  intro targets p hplaced
  have hexit : p + sizeAll (repeatWhile (some test) body step)
      = p + sizeAll test + jumpSize + sizeAll body + (sizeAll step + jumpSize) := by
    simp only [repeatWhile, backWhen, sizeAll_append, sizeAll_closeLeaves, sizeAll, size]
    omega
  rw [hexit]
  simp only [repeatWhile, backWhen, List.append_assoc, List.cons_append, List.nil_append] at hplaced
  obtain ⟨hplacedTest, hjump, hrest⟩ := allPlaced_append.mp hplaced
  obtain ⟨hplacedBody, hrest⟩ := allPlaced_append.mp hrest
  obtain ⟨hplacedStep, hback, -⟩ := allPlaced_append.mp hrest
  simp only [size, sizeAll_closeLeaves] at hplacedBody hplacedStep hback
  have hleave :
      ((p + sizeAll test + jumpSize + sizeAll body + (sizeAll step + jumpSize) : Nat) : Int)
      = (p + sizeAll test : Nat) + jumpSize
        + (sizeAll (closeLeaves (sizeAll step + jumpSize) body ++ step) + jumpSize : Nat) := by
    rw [sizeAll_append, sizeAll_closeLeaves]
    omega
  have hreturn : (p : Int) = (p + sizeAll test + jumpSize + sizeAll body + sizeAll step : Nat)
      + jumpSize + -((sizeAll (test ++ .jump .ifFalse (sizeAll
        (closeLeaves (sizeAll step + jumpSize) body ++ step) + jumpSize : Nat) ::
        (closeLeaves (sizeAll step + jumpSize) body ++ step)) + jumpSize : Nat) : Int) := by
    simp only [sizeAll_append, sizeAll_closeLeaves, sizeAll, size]
    omega
  refine Realizes.rounds ?_ (hbody _ _ hplacedBody.of_closeLeaves) ?_
  · intro s
    have hleads := (Realizes.ofFunction_iff.mp (htest targets p hplacedTest) s).trans
      (hjump.leadsBack hleave (f s)).leads
    rwa [Machine.ite_takes_ifFalse] at hleads
  · intro s
    exact (Realizes.ofFunction_iff.mp (hstep targets _ hplacedStep) s).trans_leadsBack
      (hback.leadsBack hreturn (g s))

/-- A loop that jumps back behind each round realizes its rounds. -/
theorem behaves_backWhen {condition : JumpWhen} {tail : List Item} {f : σ → σ}
    (hbody : Behaves m bytes body b) (htail : Behaves m bytes tail (.ofFunction .goesOn f)) :
    Behaves m bytes
      (backWhen condition (closeLeaves (sizeAll tail + jumpSize) body ++ tail))
      (Rounds (fun s => (true, s)) b fun s => m.takes condition (f s)) := by
  intro targets p hplaced
  have hsize : sizeAll (closeLeaves (sizeAll tail + jumpSize) body ++ tail)
      = sizeAll body + sizeAll tail := by
    rw [sizeAll_append, sizeAll_closeLeaves]
  have hexit : p + sizeAll
        (backWhen condition (closeLeaves (sizeAll tail + jumpSize) body ++ tail))
      = p + sizeAll body + (sizeAll tail + jumpSize) := by
    rw [backWhen, sizeAll_append, hsize]
    simp only [sizeAll, size]
    omega
  rw [hexit]
  rw [backWhen, hsize, List.append_assoc] at hplaced
  obtain ⟨hplacedBody, hrest⟩ := allPlaced_append.mp hplaced
  obtain ⟨hplacedTail, hback, -⟩ := allPlaced_append.mp hrest
  simp only [sizeAll_closeLeaves] at hplacedTail hback
  have hreturn : (p : Int) = (p + sizeAll body + sizeAll tail : Nat) + jumpSize
      + -((sizeAll body + sizeAll tail + jumpSize : Nat) : Int) := by
    omega
  refine Realizes.rounds (fun s => .refl) (hbody _ _ hplacedBody.of_closeLeaves) ?_
  intro s
  have hleads := (Realizes.ofFunction_iff.mp (htail targets _ hplacedTail) s).trans_leadsBack
    (hback.leadsBack hreturn (f s))
  rwa [Nat.add_assoc (p + sizeAll body)] at hleads

end Item

end ShaderBytecode
