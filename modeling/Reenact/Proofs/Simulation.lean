/-
  Drafted arguments mean what was captured.

  A drafted expression refers to the locals that were hoisted for it.  `LeadsTo` says that running
  these, wherever the handles stand for their objects and the new names for nothing, leads to
  environments with a property; it composes along the values in a table (`LeadsTo.and`), because the
  locals of one value do not touch those of another.

  `Sound.argument_means`: the expression of an argument has the meaning of the value, however deep
  the tables in it are, in their keys as well.
-/
import Reenact.Proofs.Meaning
import Reenact.Proofs.Rounding

namespace Reenact

variable {scene : Scene} {position : Nat}

/-! ## Scalars -/

namespace Draft

variable {taken : Nat → Prop} {d d₁ d₂ d' : Draft}

/-! ## Hoisted locals -/

/-- Running the locals that were hoisted from `d` to `d'` leads to environments with the property
    `P`, and to none that loses it again. -/
def LeadsTo (taken : Nat → Prop) (d d' : Draft) (P : Env → Prop) : Prop :=
  Sound taken d → ∃ new, d'.hoisted = d.hoisted ++ new ∧ ∀ ρ : Env, ρ.Binds d'.handles →
    ρ.Free new → ∀ ρ', (Stat.runAll ρ new).Within ρ' → P ρ'

theorem LeadsTo.imp {P P' : Env → Prop} (h : LeadsTo taken d d' P) (himp : ∀ ρ, P ρ → P' ρ) :
    LeadsTo taken d d' P' := by
  intro hs
  obtain ⟨new, hnew, hP⟩ := h hs
  exact ⟨new, hnew, fun ρ hb hf ρ' hw => himp ρ' (hP ρ hb hf ρ' hw)⟩

/-- **Locals that are hoisted one after another** lead to what each of them leads to. -/
theorem LeadsTo.and {P P' : Env → Prop} (hk : Keeps taken d d₁) (h : LeadsTo taken d d₁ P)
    (hk' : Keeps taken d₁ d₂) (h' : LeadsTo taken d₁ d₂ P') :
    LeadsTo taken d d₂ fun ρ => P ρ ∧ P' ρ := by
  intro hs
  obtain ⟨hs₁, -⟩ := hk hs
  obtain ⟨hs₂, he₂⟩ := hk' hs₁
  obtain ⟨new, hnew, hP⟩ := h hs
  obtain ⟨new', hnew', hP'⟩ := h' hs₁
  have hnodup : ((new ++ new').flatMap Stat.declared).Nodup := by
    have hall := hs₂.hoisted_nodup
    rw [hnew', hnew, List.append_assoc, List.flatMap_append] at hall
    exact (List.nodup_append.1 hall).2.1
  refine ⟨new ++ new', by rw [hnew', hnew, List.append_assoc], fun ρ hb hf ρ' hw => ?_⟩
  rw [Stat.runAll_append] at hw
  -- the later locals are free where the earlier ones are declared, and the other way round
  have hfirst : ρ.Within (Stat.runAll ρ new) := Stat.within_runAll hf.left
  have hfree : (Stat.runAll ρ new).Free new' := Stat.free_runAll hnodup hf
  exact ⟨hP ρ (hb.mono he₂.handles) hf.left ρ' ((Stat.within_runAll hfree).trans hw),
    hP' _ (hb.within hfirst) hfree ρ' hw⟩

/-- A nested table stands under its name from its declaration on. -/
theorem LeadsTo.nestTable {e : Expr} {m : Meaning}
    (h : LeadsTo taken d d₁ fun ρ => e.eval ρ = some m) :
    LeadsTo taken d (d₁.nestTable position e).2 fun ρ =>
      ρ (d₁.nestTable position e).1 = some m := by
  intro hs
  obtain ⟨new, hnew, hP⟩ := h hs
  refine ⟨new ++ [.localName (d₁.nestTable position e).1 e], ?_, fun ρ hb hf ρ' hw => ?_⟩
  · rw [← List.append_assoc, ← hnew]; rfl
  · have hvalue : e.eval (Stat.runAll ρ new) = some m :=
      hP ρ hb hf.left _ (Env.Within.refl _)
    rw [Stat.runAll_append] at hw
    exact hw _ _ (Stat.run_localName hvalue)

end Draft

end Reenact
